import RtlTcp.Main.Chain
import RtlTcp.Main.Handshake.Agreement

/-!
# A handshake that completes

A proxy and a server with the same key, in the server's first session: the sample writer waits for the
nonces, so the proxy meets nothing but the answers to what it has sent. If these come before the
timeouts, nobody waits for ever: `handshake_completes` counts the steps that are left.
-/

namespace RtlTcp.Handshake
set_option autoImplicit false
open ByteIo Transition

/-! ## The steps that are left -/

/-- The steps that `connect_upstream` has still to take. -/
def proxyLeft : ConnectPoint → Nat
  | .connecting => 7
  | .readingMagic => 6
  | .probing _ => 5
  | .awaitingAck _ => 4
  | .sendingNonce _ _ => 3
  | .awaitingNonce _ _ _ => 2
  | .finishing _ _ _ => 1
  | .connected .. | .failed _ => 0

/-- The steps that the control thread has still to take until it has stored the nonces. -/
def serverLeft (c : ControlThread) : Nat :=
  match c.point with
  | .reading => if c.thread.encryptionNonces.isSome then 0 else 5
  | .acking => 4
  | .exchanging => 3
  | .replying _ => 2
  | .storing _ _ => 1
  | .ended => 0

def left (s : Handshake) : Nat := proxyLeft s.proxy.point + serverLeft s.server

/-! ## Runs in which everything comes in time -/

/-- The system calls of `connect_upstream` succeed. -/
structure Succeeds (env : ConnectEnv) : Prop where
  connected : env.connected = .ok ()
  timeoutSet : env.timeoutSet = .ok ()
  probeSent : env.probeSent = .ok ()
  nonceSent : env.nonceSent = .ok ()
  streamTimeoutSet : env.streamTimeoutSet = .ok ()

instance decidableSucceeds (env : ConnectEnv) : Decidable (Succeeds env) :=
  decidable_of_iff (env.connected = .ok () ∧ env.timeoutSet = .ok () ∧ env.probeSent = .ok () ∧ env.nonceSent = .ok () ∧
    env.streamTimeoutSet = .ok ()) ⟨fun ⟨c, t, p, n, s⟩ => ⟨c, t, p, n, s⟩, fun ⟨c, t, p, n, s⟩ => ⟨c, t, p, n, s⟩⟩

/-- The bytes that `connect_upstream` waits for. -/
def proxyNeeds : ConnectPoint → Nat
  | .readingMagic | .awaitingNonce .. => 12
  | .awaitingAck _ => 5
  | _ => 0

section
variable [ChaCha]

/-- A step of the control thread in time. At the head of its loop it meets a timeout between two frames, or a
frame; the probe is not too early for the rate limiter, and no command is taken for a probe. -/
def ServesAt (s : Handshake) (env : Env) (n : Nat) (cut : ErrorKind) : ControlPoint → Prop
  | .reading => n = 0 ∧ (cut = .wouldBlock ∨ cut = .timedOut) ∨
      5 ≤ (s.up.take n).length ∧ env.shouldExit = false ∧ s.takenForProbe env n cut = false ∧
        (s.up.head?.map Prod.fst = some .probe → (s.server.thread.rateLimiter.check env.now).1 = true)
  | .acking => env.ackSent = .ok ()
  | .exchanging => 12 ≤ (s.up.take n).length
  | .replying _ => env.nonceSent = .ok ()
  | .storing _ _ | .ended => True

def ServesInTime (s : Handshake) (env : Env) (n : Nat) (cut : ErrorKind) : Prop := ServesAt s env n cut s.server.point

/-- A step in time. The sample writer has nothing to encrypt with before the nonces are stored. -/
def InTime (s : Handshake) : Act → Prop
  | .proxy env n _ _ => Succeeds env ∧ proxyNeeds s.proxy.point ≤ (s.down.take n).length
  | .command .. => True
  | .server env n cut _ => ServesInTime s env n cut
  | .samples _ => s.server.thread.encryptionNonces.isSome = true

instance decidableServesAt (s : Handshake) (env : Env) (n : Nat) (cut : ErrorKind) :
    ∀ point, Decidable (ServesAt s env n cut point)
  | .reading => inferInstanceAs (Decidable (_ ∨ _))
  | .acking => inferInstanceAs (Decidable (env.ackSent = .ok ()))
  | .exchanging => inferInstanceAs (Decidable (12 ≤ (s.up.take n).length))
  | .replying _ => inferInstanceAs (Decidable (env.nonceSent = .ok ()))
  | .storing _ _ | .ended => inferInstanceAs (Decidable True)

instance decidableInTime (s : Handshake) : ∀ a, Decidable (InTime s a)
  | .proxy env n _ _ => inferInstanceAs (Decidable (Succeeds env ∧ proxyNeeds s.proxy.point ≤ (s.down.take n).length))
  | .command .. => inferInstanceAs (Decidable True)
  | .server env n cut _ => inferInstanceAs (Decidable (ServesAt s env n cut s.server.point))
  | .samples _ => inferInstanceAs (Decidable (_ = true))

end

/-- The steps that count: those of the proxy, and those in which bytes arrive at the server. -/
def advances : Act → Bool
  | .proxy .. => true
  | .server _ n _ _ => 0 < n
  | .command .. | .samples _ => false

/-! ## Where the two ends are -/

/-- The control thread has neither nonces nor ciphers. -/
structure Fresh (s : Handshake) : Prop where
  nonces : s.server.thread.encryptionNonces = none
  cipher : s.server.thread.readCipher = none

/-- The server has sent its nonce `peer` after the proxy's `my`; samples may follow it. -/
inductive Closing (k : Key) (my peer : Nonce) : ConnectPoint → (up : Wire UpOrigin) → (down : SocketLog) → Prop where
  | awaiting {later : SocketLog} (samples : ∀ b ∈ later, b.1 = .iq) :
      Closing k my peer (.awaitingNonce magicPacket k my) [] (tagged .nonce peer.toList ++ later)
  | finishing {down : SocketLog} (samples : ∀ b ∈ down, b.1 = .iq) :
      Closing k my peer (.finishing magicPacket true (some (k, my, peer))) [] down
  | connected {up : Wire UpOrigin} {down : SocketLog} (samples : ∀ b ∈ down, b.1 = .iq) (only : Commands up) :
      Closing k my peer (.connected magicPacket true (some (k, my, peer))) up down

/-- The server has stored the nonces and has its ciphers. -/
structure Stored (k : Key) (my peer : Nonce) (c : ControlThread) : Prop where
  point : c.point = .reading
  nonces : c.thread.encryptionNonces = some (peer, my)
  writeCipher : c.thread.writeCipher = some (.new k peer)
  readCipher : identity c.thread.readCipher = some (k, my)

/-- The stages of a handshake in time, in their order. -/
inductive Timely (k : Key) (s : Handshake) : Prop where
  | hello (fresh : Fresh s) (proxy : s.proxy.point = .connecting ∨ s.proxy.point = .readingMagic)
      (server : s.server.point = .reading) (up : s.up = []) (down : s.down = tagged .magic magicPacket.toList)
  | greeted (fresh : Fresh s) (proxy : s.proxy.point = .probing magicPacket) (server : s.server.point = .reading)
      (up : s.up = []) (down : s.down = [])
  | probed (fresh : Fresh s) (proxy : s.proxy.point = .awaitingAck magicPacket) (server : s.server.point = .reading)
      (up : s.up = marked .probe probe) (down : s.down = [])
  | heard (fresh : Fresh s) (proxy : s.proxy.point = .awaitingAck magicPacket) (server : s.server.point = .acking)
      (up : s.up = []) (down : s.down = [])
  | acked (fresh : Fresh s) (proxy : s.proxy.point = .awaitingAck magicPacket) (server : s.server.point = .exchanging)
      (up : s.up = []) (down : s.down = tagged .ack chainDetectAck)
  | keyed (fresh : Fresh s) (proxy : s.proxy.point = .sendingNonce magicPacket k) (server : s.server.point = .exchanging)
      (up : s.up = []) (down : s.down = [])
  | offered (my : Nonce) (fresh : Fresh s) (proxy : s.proxy.point = .awaitingNonce magicPacket k my)
      (server : s.server.point = .exchanging) (up : s.up = marked .nonce my.toList) (down : s.down = [])
  | taken (my : Nonce) (fresh : Fresh s) (proxy : s.proxy.point = .awaitingNonce magicPacket k my)
      (server : s.server.point = .replying my) (up : s.up = []) (down : s.down = [])
  | closing (my peer : Nonce) (proxy : Closing k my peer s.proxy.point s.up s.down)
      (server : s.server.point = .storing peer my ∨ Stored k my peer s.server)

/-- `t` comes next after `s`: one step fewer is left, and nothing of the samples was taken. -/
structure Next (k : Key) (s t : Handshake) : Prop where
  timely : Timely k t
  closer : left t + 1 = left s
  samples : iqBytes t.down = iqBytes s.down

/-- `t` is `s` after a step of the server that `n` bytes have met. -/
structure Served (k : Key) (n : Nat) (s t : Handshake) : Prop where
  timely : Timely k t
  closer : left t ≤ left s - if 0 < n then 1 else 0
  samples : iqBytes t.down = iqBytes s.down

variable {k : Key} {s t : Handshake}

theorem Next.served (next : Next k s t) (n : Nat) : Served k n s t := by
  refine ⟨next.timely, ?_, next.samples⟩
  have closer := next.closer
  split <;> omega

/-! ## The proxy's steps -/

section
variable {env : ConnectEnv} {n partly : Nat} {cut : ErrorKind}

/-- A step of `connect_upstream` in which `next` is computed. -/
theorem proxyStep_eq {point : ConnectPoint} {rest : List Arrival} {written : List SocketWrite} {down : SocketLog}
    (out : Wire UpOrigin) (next : (s.connecting n cut).step (some k) env = ⟨point, ⟨rest, written⟩⟩)
    (output : (s.connecting n cut).output env partly = out) (remains : remaining s.down n rest = down) :
    s.proxyStep (some k) env n cut partly = { s with
      proxy := ⟨point, ⟨rest, written⟩⟩
      cipher := ConnectThread.cipher ⟨point, ⟨rest, written⟩⟩
      up := s.up ++ out
      down := down } := by
  simp only [proxyStep, next, output, remains]

/-- The connection is made. -/
theorem hello_connects (fine : Succeeds env) (fresh : Fresh s) (proxy : s.proxy.point = .connecting)
    (server : s.server.point = .reading) (up : s.up = []) (down : s.down = tagged .magic magicPacket.toList) :
    Next k s (s.proxyStep (some k) env n cut partly) := by
  have quiet : (s.connecting n cut).output env partly = [] := by simp only [ConnectThread.output, connecting, proxy]
  rw [proxyStep_eq [] (by simp only [connecting, ConnectThread.step, proxy, fine.connected, fine.timeoutSet, ConnectThread.proceed]; rfl)
    quiet (remaining_arriving ..)]
  refine ⟨.hello ⟨fresh.nonces, fresh.cipher⟩ (.inr rfl) server (by rw [up]; rfl) down, ?_, rfl⟩
  simp only [left, proxyLeft, proxy]
  omega

/-- The magic packet is read. -/
theorem hello_reads (fresh : Fresh s) (proxy : s.proxy.point = .readingMagic) (server : s.server.point = .reading)
    (up : s.up = []) (down : s.down = tagged .magic magicPacket.toList) (enough : 12 ≤ (s.down.take n).length) :
    Next k s (s.proxyStep (some k) env n cut partly) := by
  have quiet : (s.connecting n cut).output env partly = [] := by simp only [ConnectThread.output, connecting, proxy]
  obtain ⟨rest, taken, remains⟩ := readExact_front magicPacket [] (down.trans (List.append_nil _).symm) enough cut
  rw [proxyStep_eq [] (by simp only [connecting, ConnectThread.step, proxy, taken]; rfl) quiet remains]
  refine ⟨.greeted ⟨fresh.nonces, fresh.cipher⟩ rfl server (by rw [up]; rfl) rfl, ?_, ?_⟩
  · simp only [left, proxyLeft, proxy]
    omega
  · rw [down]
    rfl

/-- The probe is sent. -/
theorem greeted_probes (fine : Succeeds env) (fresh : Fresh s) (proxy : s.proxy.point = .probing magicPacket)
    (server : s.server.point = .reading) (up : s.up = []) (down : s.down = []) :
    Next k s (s.proxyStep (some k) env n cut partly) := by
  have probes : (s.connecting n cut).output env partly = marked .probe probe := by
    simp only [ConnectThread.output, connecting, proxy, fine.probeSent, delivered]
  rw [proxyStep_eq _ (by simp only [connecting, ConnectThread.step, proxy, fine.probeSent, ConnectThread.proceed]; rfl) probes
    (remaining_arriving ..)]
  refine ⟨.probed ⟨fresh.nonces, fresh.cipher⟩ rfl server (by rw [up]; rfl) down, ?_, rfl⟩
  simp only [left, proxyLeft, proxy]
  omega

/-- The acknowledgement is read. -/
theorem acked_reads (fresh : Fresh s) (proxy : s.proxy.point = .awaitingAck magicPacket) (server : s.server.point = .exchanging)
    (up : s.up = []) (down : s.down = tagged .ack chainDetectAck) (enough : 5 ≤ (s.down.take n).length) :
    Next k s (s.proxyStep (some k) env n cut partly) := by
  have quiet : (s.connecting n cut).output env partly = [] := by simp only [ConnectThread.output, connecting, proxy]
  obtain ⟨rest, taken, remains⟩ := readExact_front (⟨chainDetectAck, rfl⟩ : Bytes 5) [] (down.trans (List.append_nil _).symm)
    enough cut
  have waited : readAck (arriving s.down n cut) = (true, rest) := by
    simp only [readAck, taken]
    rfl
  rw [proxyStep_eq [] (by simp only [connecting, ConnectThread.step, proxy, waited, ConnectThread.proceed, if_true]; rfl) quiet
    remains]
  refine ⟨.keyed ⟨fresh.nonces, fresh.cipher⟩ rfl server (by rw [up]; rfl) rfl, ?_, ?_⟩
  · simp only [left, proxyLeft, proxy]
    omega
  · rw [down]
    rfl

/-- The proxy's nonce is sent. -/
theorem keyed_offers (fine : Succeeds env) (fresh : Fresh s) (proxy : s.proxy.point = .sendingNonce magicPacket k)
    (server : s.server.point = .exchanging) (up : s.up = []) (down : s.down = []) :
    Next k s (s.proxyStep (some k) env n cut partly) := by
  have offers : (s.connecting n cut).output env partly = marked .nonce env.myNonce.toList := by
    simp only [ConnectThread.output, connecting, proxy, fine.nonceSent, delivered]
  rw [proxyStep_eq _ (by simp only [connecting, ConnectThread.step, proxy, fine.nonceSent, ConnectThread.proceed]; rfl) offers
    (remaining_arriving ..)]
  refine ⟨.offered env.myNonce ⟨fresh.nonces, fresh.cipher⟩ rfl server (by rw [up]; rfl) down, ?_, rfl⟩
  simp only [left, proxyLeft, proxy]
  omega

/-- The server's nonce is read, and the last timeout is set. -/
theorem closing_proxy {my peer : Nonce} (closing : Closing k my peer s.proxy.point s.up s.down)
    (server : s.server.point = .storing peer my ∨ Stored k my peer s.server) (running : s.proxy.result = none) (fine : Succeeds env)
    (enough : proxyNeeds s.proxy.point ≤ (s.down.take n).length) : Next k s (s.proxyStep (some k) env n cut partly) := by
  obtain ⟨⟨point, inbound, written⟩, cipher, control, up, down, frames, nonceBytes⟩ := s
  dsimp only at closing server enough
  cases closing with
  | @awaiting later samples =>
    have front : tagged .nonce peer.toList ++ later = marked .nonce peer.toList ++ later := rfl
    obtain ⟨rest, taken, remains⟩ := readExact_front peer later front enough cut
    rw [proxyStep_eq [] (by simp only [connecting, ConnectThread.step, taken]; rfl) rfl remains]
    refine ⟨.closing my peer (.finishing samples) server, ?_, ?_⟩
    · simp only [left, proxyLeft]
      omega
    · dsimp only
      rw [iqBytes_append, iqBytes_other (other_of_tagged (by decide) _), List.nil_append]
  | finishing samples =>
    rw [proxyStep_eq [] (by simp only [connecting, ConnectThread.step, fine.streamTimeoutSet, ConnectThread.proceed]; rfl) rfl
      (remaining_arriving ..)]
    refine ⟨.closing my peer (.connected samples (by simp [Commands])) server, ?_, rfl⟩
    simp only [left, proxyLeft]
    omega
  | connected samples only => cases running

/-- **A step of the proxy** is the next one of its steps. -/
theorem Timely.proxyStep (timely : Timely k s) (running : s.proxy.result = none) (fine : Succeeds env)
    (enough : proxyNeeds s.proxy.point ≤ (s.down.take n).length) : Next k s (s.proxyStep (some k) env n cut partly) := by
  have waits : ∀ {m}, s.down = [] → proxyNeeds s.proxy.point = m + 1 → Next k s (s.proxyStep (some k) env n cut partly) := by
    intro m silent needs
    rw [silent, needs, List.take_nil, List.length_nil] at enough
    omega
  cases timely with
  | hello fresh proxy server up down =>
    rcases proxy with proxy | proxy
    · exact hello_connects fine fresh proxy server up down
    · rw [proxy] at enough
      exact hello_reads fresh proxy server up down enough
  | greeted fresh proxy server up down => exact greeted_probes fine fresh proxy server up down
  | probed fresh proxy server up down => exact waits down (by rw [proxy]; rfl)
  | heard fresh proxy server up down => exact waits down (by rw [proxy]; rfl)
  | acked fresh proxy server up down =>
    rw [proxy] at enough
    exact acked_reads fresh proxy server up down enough
  | keyed fresh proxy server up down => exact keyed_offers fine fresh proxy server up down
  | offered my fresh proxy server up down => exact waits down (by rw [proxy]; rfl)
  | taken my fresh proxy server up down => exact waits down (by rw [proxy]; rfl)
  | closing my peer proxy server => exact closing_proxy proxy server running fine enough

end

section
variable [ChaCha]

/-! ## The server's steps -/

/-- A step of the control thread in which `next` is computed. -/
theorem serverStep_eq {env : Env} {n partly : Nat} {cut : ErrorKind} {next : ControlThread} {up : Wire UpOrigin}
    (out : SocketLog) (taken : (s.serving n cut).step (some k) env = next)
    (output : (s.serving n cut).output env partly = out) (remains : remaining s.up n next.thread.stream = up) :
    ∃ frames nonceBytes, s.serverStep (some k) env n cut partly = { s with
      server := next
      up := up
      down := s.down ++ out
      frames := frames
      nonceBytes := nonceBytes } := by
  simp only [serverStep, taken, output, remains]
  exact ⟨_, _, rfl⟩

omit [ChaCha] in
/-- A timeout between two frames takes nothing. -/
theorem readExact_idle {cut : ErrorKind} (timeout : cut = .wouldBlock ∨ cut = .timedOut) (up : Wire UpOrigin) :
    readExact 5 (arriving up 0 cut) = (.error cut, []) := by
  rcases timeout with rfl | rfl <;> rfl

omit [ChaCha] in
theorem remaining_nil (up : Wire UpOrigin) : remaining up 0 [] = up := by
  simp [remaining, bytesOf]

theorem serverStep_idle (env : Env) (partly : Nat) {cut : ErrorKind} (reading : s.server.point = .reading)
    (timeout : cut = .wouldBlock ∨ cut = .timedOut) :
    ∃ frames nonceBytes, s.serverStep (some k) env 0 cut partly = { s with
      server := ⟨.reading, { s.server.thread with stream := [] }⟩
      frames := frames
      nonceBytes := nonceBytes } := by
  have taken : (s.serving 0 cut).step (some k) env = ⟨.reading, { s.server.thread with stream := [] }⟩ := by
    have again : (cut == .wouldBlock || cut == .timedOut) = true := by
      rcases timeout with rfl | rfl <;> rfl
    simp only [ControlThread.step, serving, reading, ControlThread.readCommand, commandHeaderSize, readExact_idle timeout]
    rw [if_pos again]
  have quiet : (s.serving 0 cut).output env partly = [] := by simp only [ControlThread.output, serving, reading]
  obtain ⟨frames, nonceBytes, same⟩ := serverStep_eq [] taken quiet (remaining_nil s.up)
  exact ⟨frames, nonceBytes, by rw [same, List.append_nil]⟩

omit [ChaCha] in
/-- What is on the socket is read anew each time. -/
theorem Timely.idle (timely : Timely k s) (reading : s.server.point = .reading) (frames : List (List UpOrigin × UInt8))
    (nonceBytes : List UpOrigin) :
    Timely k { s with
      server := ⟨.reading, { s.server.thread with stream := [] }⟩
      frames := frames
      nonceBytes := nonceBytes } := by
  cases timely with
  | hello fresh proxy _ up down => exact .hello ⟨fresh.nonces, fresh.cipher⟩ proxy rfl up down
  | greeted fresh proxy _ up down => exact .greeted ⟨fresh.nonces, fresh.cipher⟩ proxy rfl up down
  | probed fresh proxy _ up down => exact .probed ⟨fresh.nonces, fresh.cipher⟩ proxy rfl up down
  | heard _ _ other => cases reading.symm.trans other
  | acked _ _ other => cases reading.symm.trans other
  | keyed _ _ other => cases reading.symm.trans other
  | offered _ _ _ other => cases reading.symm.trans other
  | taken _ _ _ other => cases reading.symm.trans other
  | closing my peer proxy server =>
    rcases server with other | stored
    · cases reading.symm.trans other
    · exact .closing my peer proxy (.inr ⟨rfl, stored.nonces, stored.writeCipher, stored.readCipher⟩)

omit [ChaCha] in
theorem left_idle (reading : s.server.point = .reading) (frames : List (List UpOrigin × UInt8)) (nonceBytes : List UpOrigin) :
    left { s with
      server := ⟨.reading, { s.server.thread with stream := [] }⟩
      frames := frames
      nonceBytes := nonceBytes } = left s := by
  simp only [left, serverLeft, reading]

/-- The probe is answered. -/
theorem serverStep_probe {env : Env} {n partly : Nat} {cut : ErrorKind} (fresh : Fresh s) (reading : s.server.point = .reading)
    (sent : s.up = marked .probe probe) (enough : 5 ≤ (s.up.take n).length) (running : env.shouldExit = false)
    (allowed : (s.server.thread.rateLimiter.check env.now).1 = true) :
    ∃ thread frames nonceBytes, thread.encryptionNonces = none ∧ thread.readCipher = none ∧
      s.serverStep (some k) env n cut partly = { s with
        server := ⟨.acking, thread⟩
        up := []
        frames := frames
        nonceBytes := nonceBytes } := by
  obtain ⟨rest, read, remains⟩ := readExact_front (⟨probe, rfl⟩ : Bytes 5) [] (sent.trans (List.append_nil _).symm) enough cut
  let thread : MasterControl := { s.server.thread with
    stream := rest
    readCipher := none
    rateLimiter := (s.server.thread.rateLimiter.check env.now).2 }
  have taken : (s.serving n cut).step (some k) env = ⟨.acking, thread⟩ := by
    simp only [ControlThread.step, serving, reading, ControlThread.readCommand, commandHeaderSize, read, MasterControl.decrypt,
      fresh.cipher, running, Bool.false_eq_true, if_false, allowed, Bool.not_true]
    rfl
  have quiet : (s.serving n cut).output env partly = [] := by simp only [ControlThread.output, serving, reading]
  obtain ⟨frames, nonceBytes, same⟩ := serverStep_eq [] taken quiet remains
  exact ⟨thread, frames, nonceBytes, fresh.nonces, rfl, by rw [same, List.append_nil]⟩

omit [ChaCha] in
/-- A command that is no probe leaves nonces and ciphers alone. -/
theorem dispatch_keeps {buf : Frame} (other : buf.cmd ≠ cmdChainDetect) (key : Option Key) (c : MasterControl) (env : Env) :
    (c.dispatch key env buf).encryptionNonces = c.encryptionNonces ∧ (c.dispatch key env buf).writeCipher = c.writeCipher := by
  unfold MasterControl.dispatch
  split <;> rename_i cmd
  case h_7 => exact absurd cmd other
  all_goals dsimp only
  all_goals try split
  all_goals exact ⟨rfl, rfl⟩

/-- Decryption advances the read cipher and touches nothing else. -/
theorem decrypt_keeps {my : Nonce} {c : MasterControl} (own : identity c.readCipher = some (k, my)) (raw : Frame) :
    identity (c.decrypt raw).2.readCipher = some (k, my) ∧ (c.decrypt raw).2.encryptionNonces = c.encryptionNonces ∧
      (c.decrypt raw).2.writeCipher = c.writeCipher := by
  unfold MasterControl.decrypt
  cases cipher : c.readCipher with
  | none => exact ⟨own, rfl, rfl⟩
  | some cipher' =>
    rw [cipher] at own
    exact ⟨own, rfl, rfl⟩

/-- A frame of commands after the handshake. -/
theorem Stored.readCommand {my peer : Nonce} {c : MasterControl} (stored : Stored k my peer ⟨.reading, c⟩) {env : Env}
    {raw : Frame}
    {rest : List Arrival} (read : readExact commandHeaderSize c.stream = (.ok raw, rest)) (running : env.shouldExit = false)
    (other : (c.rateLimiter.check env.now).1 = true → (c.decrypt raw).1.cmd ≠ cmdChainDetect) :
    Stored k my peer (ControlThread.readCommand (some k) c env) ∧
      (ControlThread.readCommand (some k) c env).thread.stream = rest := by
  obtain ⟨cipher, nonces, writes⟩ := decrypt_keeps stored.readCipher raw
  have limiter : (c.decrypt raw).2.rateLimiter = c.rateLimiter := by
    unfold MasterControl.decrypt
    cases c.readCipher <;> rfl
  simp only [ControlThread.readCommand, read, ControlThread.decrypt_stream, running, Bool.false_eq_true, if_false, limiter]
  cases allowed : (c.rateLimiter.check env.now).1 with
  | false => exact ⟨⟨rfl, nonces.trans stored.nonces, writes.trans stored.writeCipher, cipher⟩, rfl⟩
  | true =>
    rw [if_neg (by simp), if_neg (other allowed)]
    obtain ⟨kept, kept'⟩ := dispatch_keeps (other allowed) (some k) { (c.decrypt raw).2 with
      stream := rest
      rateLimiter := (c.rateLimiter.check env.now).2 } env
    obtain ⟨stream, reads⟩ := MasterControl.dispatch_plain (.inr (other allowed) : some k = none ∨ _) { (c.decrypt raw).2 with
      stream := rest
      rateLimiter := (c.rateLimiter.check env.now).2 } env
    refine ⟨⟨rfl, kept.trans (nonces.trans stored.nonces), kept'.trans (writes.trans stored.writeCipher), ?_⟩, stream⟩
    rw [reads]
    exact cipher

/-- A server that has stored its nonces goes on with the commands. -/
theorem Stored.serverStep {my peer : Nonce} (stored : Stored k my peer s.server) (only : Commands s.up) {env : Env}
    {n partly : Nat}
    {cut : ErrorKind} (enough : 5 ≤ (s.up.take n).length) (running : env.shouldExit = false)
    (known : s.takenForProbe env n cut = false) :
    ∃ next frames nonceBytes, Stored k my peer next ∧ s.serverStep (some k) env n cut partly = { s with
      server := next
      up := s.up.drop 5
      frames := frames
      nonceBytes := nonceBytes } := by
  have reads := readExact_arriving s.up n 5 cut
  rcases taken : readExact 5 (arriving s.up n cut) with ⟨e | raw, rest⟩
  · rw [taken] at reads
    cases reads with
    | short few => omega
  · rw [taken] at reads
    cases reads with
    | whole _ bytes remains =>
      have other : (s.server.thread.rateLimiter.check env.now).1 = true →
          (s.server.thread.decrypt raw).1.cmd ≠ cmdChainDetect := by
        intro allowed probe
        have commands : ((s.up.take 5).all fun b => b.1 = .command) = true := by
          rw [List.all_eq_true]
          intro b member
          exact decide_eq_true (only b (List.mem_of_mem_take member))
        have frame : s.nextFrame n cut = some (s.server.thread.decrypt raw).1 := by
          simp only [nextFrame, stored.point, commandHeaderSize, taken]
        simp [takenForProbe, commands, running, allowed, frame, probe] at known
      have head : Stored k my peer ⟨.reading, { s.server.thread with stream := arriving s.up n cut }⟩ :=
        ⟨rfl, stored.nonces, stored.writeCipher, stored.readCipher⟩
      obtain ⟨next, stream⟩ := head.readCommand taken running (by rwa [ControlThread.decrypt_stream])
      have step : (s.serving n cut).step (some k) env =
          ControlThread.readCommand (some k) { s.server.thread with stream := arriving s.up n cut } env := by
        simp only [ControlThread.step, serving, stored.point]
      have quiet : (s.serving n cut).output env partly = [] := by simp only [ControlThread.output, serving, stored.point]
      have remains' : remaining s.up n (ControlThread.readCommand (some k)
          { s.server.thread with stream := arriving s.up n cut } env).thread.stream = s.up.drop 5 := stream.symm ▸ remains
      obtain ⟨frames, nonceBytes, same⟩ := serverStep_eq [] step quiet remains'
      exact ⟨_, frames, nonceBytes, next, by rw [same, List.append_nil]⟩

section
variable {env : Env} {n partly : Nat} {cut : ErrorKind}

/-- The control thread goes on waiting. -/
theorem served_idle (timely : Timely k s) (reading : s.server.point = .reading) (timeout : cut = .wouldBlock ∨ cut = .timedOut) :
    Served k 0 s (s.serverStep (some k) env 0 cut partly) := by
  obtain ⟨frames, nonceBytes, same⟩ := serverStep_idle env partly reading timeout
  rw [same]
  exact ⟨timely.idle reading frames nonceBytes, Nat.le_of_eq (left_idle reading frames nonceBytes), rfl⟩

/-- The probe is read. -/
theorem probed_hears (fresh : Fresh s) (proxy : s.proxy.point = .awaitingAck magicPacket) (reading : s.server.point = .reading)
    (up : s.up = marked .probe probe) (down : s.down = []) (enough : 5 ≤ (s.up.take n).length) (running : env.shouldExit = false)
    (allowed : (s.server.thread.rateLimiter.check env.now).1 = true) : Next k s (s.serverStep (some k) env n cut partly) := by
  obtain ⟨thread, frames, nonceBytes, nonces, cipher, same⟩ := serverStep_probe fresh reading up enough running allowed
  rw [same]
  refine ⟨.heard ⟨nonces, cipher⟩ proxy rfl rfl down, ?_, rfl⟩
  simp only [left, serverLeft, reading, fresh.nonces, Option.isSome_none, Bool.false_eq_true, if_false]

/-- The acknowledgement is sent. -/
theorem heard_acks (fresh : Fresh s) (proxy : s.proxy.point = .awaitingAck magicPacket) (acking : s.server.point = .acking)
    (up : s.up = []) (down : s.down = []) (sent : env.ackSent = .ok ()) : Next k s (s.serverStep (some k) env n cut partly) := by
  have taken : (s.serving n cut).step (some k) env = ⟨.exchanging, { s.server.thread with
      stream := arriving s.up n cut
      written := s.server.thread.written ++ [(chainDetectAck, env.ackSent)] }⟩ := by
    simp only [ControlThread.step, serving, acking]
  have answers : (s.serving n cut).output env partly = tagged .ack chainDetectAck := by
    simp only [ControlThread.output, serving, acking, sent, delivered]
  obtain ⟨frames, nonceBytes, same⟩ := serverStep_eq _ taken answers (remaining_arriving ..)
  rw [same]
  refine ⟨.acked ⟨fresh.nonces, fresh.cipher⟩ proxy rfl up (by rw [down]; rfl), ?_, ?_⟩
  · simp only [left, serverLeft, acking]
  · dsimp only
    rw [iqBytes_append, iqBytes_other (other_of_tagged (by decide) _), List.append_nil]

/-- The proxy's nonce is read. -/
theorem offered_takes {my : Nonce} (fresh : Fresh s) (proxy : s.proxy.point = .awaitingNonce magicPacket k my)
    (exchanging : s.server.point = .exchanging) (up : s.up = marked .nonce my.toList) (down : s.down = [])
    (enough : 12 ≤ (s.up.take n).length) : Next k s (s.serverStep (some k) env n cut partly) := by
  obtain ⟨rest, read, remains⟩ := readExact_front my [] (up.trans (List.append_nil _).symm) enough cut
  have taken : (s.serving n cut).step (some k) env = ⟨.replying my, { s.server.thread with stream := rest }⟩ := by
    simp only [ControlThread.step, serving, exchanging, read]
  have quiet : (s.serving n cut).output env partly = [] := by simp only [ControlThread.output, serving, exchanging]
  obtain ⟨frames, nonceBytes, same⟩ := serverStep_eq [] taken quiet remains
  rw [same, List.append_nil]
  refine ⟨.taken my ⟨fresh.nonces, fresh.cipher⟩ proxy rfl rfl down, ?_, rfl⟩
  simp only [left, serverLeft, exchanging]

/-- The server's nonce is sent. -/
theorem taken_replies {my : Nonce} (proxy : s.proxy.point = .awaitingNonce magicPacket k my) (replying : s.server.point = .replying my)
    (up : s.up = []) (down : s.down = []) (sent : env.nonceSent = .ok ()) :
    Next k s (s.serverStep (some k) env n cut partly) := by
  have taken : (s.serving n cut).step (some k) env = ⟨.storing env.myNonce my, { s.server.thread with
      stream := arriving s.up n cut
      written := s.server.thread.written ++ [(env.myNonce.toList, env.nonceSent)] }⟩ := by
    simp only [ControlThread.step, serving, replying, sent]
  have replies : (s.serving n cut).output env partly = tagged .nonce env.myNonce.toList := by
    simp only [ControlThread.output, serving, replying, sent, delivered]
  obtain ⟨frames, nonceBytes, same⟩ := serverStep_eq _ taken replies (remaining_arriving ..)
  rw [same]
  refine ⟨.closing my env.myNonce ?_ (.inl rfl), ?_, ?_⟩
  · dsimp only
    rw [proxy, up, down, List.nil_append, ← List.append_nil (tagged _ _)]
    apply Closing.awaiting
    simp
  · simp only [left, serverLeft, replying]
  · dsimp only
    rw [iqBytes_append, iqBytes_other (other_of_tagged (by decide) _), List.append_nil]

/-- The nonces are stored. -/
theorem closing_stores {my peer : Nonce} (proxy : Closing k my peer s.proxy.point s.up s.down)
    (storing : s.server.point = .storing peer my) : Next k s (s.serverStep (some k) env n cut partly) := by
  have taken : (s.serving n cut).step (some k) env = ⟨.reading, { s.server.thread with
      stream := arriving s.up n cut
      encryptionNonces := some (peer, my)
      readCipher := some (.new k my)
      writeCipher := some (.new k peer) }⟩ := by
    simp only [ControlThread.step, serving, storing]
  have quiet : (s.serving n cut).output env partly = [] := by simp only [ControlThread.output, serving, storing]
  obtain ⟨frames, nonceBytes, same⟩ := serverStep_eq [] taken quiet (remaining_arriving ..)
  rw [same, List.append_nil]
  refine ⟨.closing my peer proxy (.inr ⟨rfl, rfl, rfl, rfl⟩), ?_, rfl⟩
  simp only [left, serverLeft, storing, Option.isSome_some, if_true]

/-- After the handshake, a frame of commands. -/
theorem closing_serves {my peer : Nonce} (proxy : Closing k my peer s.proxy.point s.up s.down) (stored : Stored k my peer s.server)
    (enough : 5 ≤ (s.up.take n).length) (running : env.shouldExit = false) (known : s.takenForProbe env n cut = false) :
    Served k n s (s.serverStep (some k) env n cut partly) := by
  -- only a proxy that is connected sends commands
  obtain ⟨connected, only, samples⟩ : s.proxy.point = .connected magicPacket true (some (k, my, peer)) ∧ Commands s.up ∧
      ∀ b ∈ s.down, b.1 = .iq := by
    revert enough
    generalize s.proxy.point = point, s.up = up, s.down = down at proxy
    intro enough
    cases proxy with
    | awaiting | finishing => simp at enough
    | connected samples only => exact ⟨rfl, only, samples⟩
  obtain ⟨next, frames, nonceBytes, stored', same⟩ := stored.serverStep only enough running known
  rw [same]
  refine ⟨.closing my peer ?_ (.inr stored'), ?_, rfl⟩
  · dsimp only
    rw [connected]
    exact .connected samples fun b member => only b (List.mem_of_mem_drop member)
  · simp only [left, serverLeft, stored'.point, stored'.nonces, connected, proxyLeft, Option.isSome_some, if_true]
    omega

/-- **A step of the server in time**; one in which bytes arrive is the next one of its steps. -/
theorem Timely.serverStep (timely : Timely k s) (calm : ServesInTime s env n cut) :
    Served k n s (s.serverStep (some k) env n cut partly) := by
  have idle : s.server.point = .reading → n = 0 ∧ (cut = .wouldBlock ∨ cut = .timedOut) →
      Served k n s (s.serverStep (some k) env n cut partly) := by
    rintro reading ⟨rfl, timeout⟩
    exact served_idle timely reading timeout
  cases timely with
  | hello fresh proxy reading up down | greeted fresh proxy reading up down =>
    simp only [ServesInTime, ServesAt, reading, up, List.take_nil, List.length_nil] at calm
    rcases calm with timeout | ⟨enough, -⟩
    · exact idle reading timeout
    · omega
  | probed fresh proxy reading up down =>
    simp only [ServesInTime, ServesAt, reading] at calm
    rcases calm with timeout | ⟨enough, running, -, allowed⟩
    · exact idle reading timeout
    · exact (probed_hears fresh proxy reading up down enough running (allowed (by rw [up]; rfl))).served n
  | heard fresh proxy acking up down =>
    simp only [ServesInTime, ServesAt, acking] at calm
    exact (heard_acks fresh proxy acking up down calm).served n
  | acked fresh proxy exchanging up down | keyed fresh proxy exchanging up down =>
    simp only [ServesInTime, ServesAt, exchanging, up, List.take_nil, List.length_nil] at calm
    omega
  | offered my fresh proxy exchanging up down =>
    simp only [ServesInTime, ServesAt, exchanging] at calm
    exact (offered_takes fresh proxy exchanging up down calm).served n
  | taken my fresh proxy replying up down =>
    simp only [ServesInTime, ServesAt, replying] at calm
    exact (taken_replies proxy replying up down calm).served n
  | closing my peer proxy server =>
    rcases server with storing | stored
    · exact (closing_stores proxy storing).served n
    · simp only [ServesInTime, ServesAt, stored.point] at calm
      rcases calm with timeout | ⟨enough, running, known, -⟩
      · exact idle stored.point timeout
      · exact closing_serves proxy stored enough running known

end

/-! ## The whole handshake -/

/-- The samples that an act sends. -/
def sampled : Act → List UInt8
  | .samples bytes => bytes
  | _ => []

omit [ChaCha] in
/-- Only a proxy whose handshake is over forwards commands. -/
theorem Timely.command (timely : Timely k s) {magic : Bytes 12} {isChain : Bool} {encryptionKey : Option (Key × Nonce × Nonce)}
    (connected : s.proxy.point = .connected magic isChain encryptionKey) (cipher : Option ChaCha20) (bytes : List UInt8) :
    Timely k { s with cipher := cipher, up := s.up ++ marked .command bytes } := by
  cases timely with
  | hello _ proxy => rcases proxy with other | other <;> cases connected.symm.trans other
  | greeted _ other => cases connected.symm.trans other
  | probed _ other => cases connected.symm.trans other
  | heard _ other => cases connected.symm.trans other
  | acked _ other => cases connected.symm.trans other
  | keyed _ other => cases connected.symm.trans other
  | offered _ _ other => cases connected.symm.trans other
  | taken _ _ other => cases connected.symm.trans other
  | closing my peer proxy server =>
    refine .closing my peer ?_ server
    dsimp only
    rw [connected] at proxy ⊢
    cases proxy with
    | connected samples only =>
      refine .connected samples fun b member => ?_
      rcases List.mem_append.1 member with old | new
      · exact only b old
      · exact mark_of_marked new

omit [ChaCha] in
/-- The sample writer goes on when the nonces are stored. -/
theorem Timely.samples (timely : Timely k s) (keyed : s.server.thread.encryptionNonces.isSome = true) (bytes : List UInt8) :
    Timely k { s with down := s.down ++ tagged .iq bytes } := by
  have late : ¬Fresh s := fun fresh => by simp [fresh.nonces] at keyed
  have more : ∀ {log : SocketLog}, (∀ b ∈ log, b.1 = .iq) → ∀ b ∈ log ++ tagged .iq bytes, b.1 = .iq := by
    intro log old b member
    rcases List.mem_append.1 member with there | new
    · exact old b there
    · exact origin_of_tagged new
  cases timely with
  | hello fresh | greeted fresh | probed fresh | heard fresh | acked fresh | keyed fresh => exact absurd fresh late
  | offered _ fresh | taken _ fresh => exact absurd fresh late
  | closing my peer proxy server =>
    refine .closing my peer ?_ server
    dsimp only
    generalize s.proxy.point = point, s.up = up, s.down = down at proxy
    cases proxy with
    | awaiting samples =>
      rw [List.append_assoc]
      exact .awaiting (more samples)
    | finishing samples => exact .finishing (more samples)
    | connected samples only => exact .connected (more samples) only

/-- What a step in time does: it comes closer to the end if it counts, and all samples are still on the way. -/
structure Stepped (k : Key) (a : Act) (s t : Handshake) : Prop where
  timely : Timely k t
  closer : left t ≤ left s - if advances a then 1 else 0
  samples : iqBytes t.down = iqBytes s.down ++ sampled a

/-- **One step in time.** -/
theorem Timely.step {a : Act} (timely : Timely k s) (calm : InTime s a) (taken : step (some k) (some k) s a = some t) :
    Stepped k a s t := by
  cases a with
  | proxy env n cut partly =>
    simp only [Handshake.step] at taken
    split at taken <;> cases taken
    rename_i running
    have next : Next k s (s.proxyStep (some k) env n cut partly) :=
      timely.proxyStep (Option.isNone_iff_eq_none.1 running) calm.1 calm.2
    have closer := next.closer
    refine ⟨next.timely, ?_, next.samples.trans (List.append_nil _).symm⟩
    simp only [advances, if_true]
    omega
  | server env n cut partly =>
    cases taken
    have next : Served k n s (s.serverStep (some k) env n cut partly) := timely.serverStep calm
    refine ⟨next.timely, ?_, next.samples.trans (List.append_nil _).symm⟩
    simpa only [advances, decide_eq_true_eq] using next.closer
  | command buf sent partly =>
    simp only [Handshake.step] at taken
    split at taken <;> cases taken
    rename_i connected
    exact ⟨timely.command connected _ _, Nat.le_refl _, (List.append_nil _).symm⟩
  | samples bytes =>
    cases taken
    exact ⟨timely.samples calm bytes, Nat.le_refl _, by rw [iqBytes_append, iqBytes_iq]; rfl⟩

/-- The handshake is over: `connect_upstream` has returned, the ends have each other's nonces and the same
ciphers, and what is on the way to the proxy are the samples that were sent, all of them. -/
def Completed (k : Key) (samples : List UInt8) (s : Handshake) : Prop :=
  ∃ conn my peer, s.proxy.result = some (.ok conn) ∧ conn.magicPacket = magicPacket ∧ conn.isChain = true ∧
    conn.writeCipher = some (.new k my) ∧ conn.readCipher = some (.new k peer) ∧ Stored k my peer s.server ∧
    s.down = tagged .iq samples

omit [ChaCha] in
theorem Timely.completed (timely : Timely k s) (done : left s = 0) : Completed k (iqBytes s.down) s := by
  unfold left at done
  cases timely with
  | hello _ proxy => rcases proxy with point | point <;> simp [point, proxyLeft] at done
  | greeted _ point => simp [point, proxyLeft] at done
  | probed _ point => simp [point, proxyLeft] at done
  | heard _ point => simp [point, proxyLeft] at done
  | acked _ point => simp [point, proxyLeft] at done
  | keyed _ point => simp [point, proxyLeft] at done
  | offered _ _ point => simp [point, proxyLeft] at done
  | taken _ _ point => simp [point, proxyLeft] at done
  | closing my peer proxy server =>
    rcases server with storing | stored
    · simp [serverLeft, storing] at done
    · obtain ⟨⟨point, stream⟩, cipher, server, up, down, frames, nonceBytes⟩ := s
      cases proxy with
      | awaiting | finishing => simp [proxyLeft] at done
      | connected samples only => exact ⟨_, my, peer, rfl, rfl, rfl, rfl, rfl, stored, eq_tagged_iq samples⟩

/-- The proxy can take its next step when the bytes are there. -/
theorem Timely.proxy_moves (timely : Timely k s) (running : s.proxy.result = none)
    (there : proxyNeeds s.proxy.point ≤ s.down.length) :
    ∃ a t, InTime s a ∧ Handshake.step (some k) (some k) s a = some t ∧ left t < left s := by
  have fine : Succeeds calmConnect := ⟨rfl, rfl, rfl, rfl, rfl⟩
  have enough : proxyNeeds s.proxy.point ≤ (s.down.take s.down.length).length := by rwa [List.take_length]
  have next : Next k s (s.proxyStep (some k) calmConnect s.down.length .timedOut 0) := timely.proxyStep running fine enough
  have closer := next.closer
  refine ⟨.proxy calmConnect s.down.length .timedOut 0, _, ⟨fine, enough⟩, ?_, Nat.lt_of_succ_le (Nat.le_of_eq closer)⟩
  simp only [Handshake.step, running, Option.isNone_none, if_true]

/-- A step of the server at a time when the rate limiter lets the next frame through. -/
def serveEnv (s : Handshake) : Env :=
  ⟨false, s.server.thread.rateLimiter.lastCommand + s.server.thread.rateLimiter.minInterval, true, .ok (), zeroNonce, .ok ()⟩

omit [ChaCha] in
theorem serveEnv_allowed (s : Handshake) : (s.server.thread.rateLimiter.check (serveEnv s).now).1 = true := by
  unfold RateLimiter.check serveEnv
  rw [if_pos (by dsimp only; omega)]

theorem Timely.server_moves (timely : Timely k s) (waiting : 0 < left s)
    (calm : ServesInTime s (serveEnv s) (s.up.length + 1) .timedOut) :
    ∃ a t, InTime s a ∧ Handshake.step (some k) (some k) s a = some t ∧ left t < left s := by
  have next : Served k (s.up.length + 1) s (s.serverStep (some k) (serveEnv s) (s.up.length + 1) .timedOut 0) :=
    timely.serverStep calm
  have closer := next.closer
  refine ⟨.server (serveEnv s) (s.up.length + 1) .timedOut 0, _, calm, rfl, ?_⟩
  rw [if_pos (Nat.succ_pos _)] at closer
  omega

/-- **Nobody waits for ever**: as long as the handshake is not over, one of the ends can go on. -/
theorem Timely.moves (timely : Timely k s) :
    Completed k (iqBytes s.down) s ∨ ∃ a t, InTime s a ∧ Handshake.step (some k) (some k) s a = some t ∧ left t < left s := by
  by_cases done : left s = 0
  · exact .inl (timely.completed done)
  · right
    have waiting : 0 < left s := Nat.pos_of_ne_zero done
    have self := timely
    have whole : s.up.take (s.up.length + 1) = s.up := List.take_of_length_le (Nat.le_succ _)
    cases timely with
    | hello fresh proxy server up down =>
      rcases proxy with point | point
      · exact self.proxy_moves (by simp only [ConnectThread.result, point])
          (by simp [point, proxyNeeds])
      · exact self.proxy_moves (by simp only [ConnectThread.result, point])
          (by simp [point, proxyNeeds, down, length_tagged])
    | greeted fresh point server up down =>
      exact self.proxy_moves (by simp only [ConnectThread.result, point])
        (by simp [point, proxyNeeds])
    | probed fresh point server up down =>
      refine self.server_moves waiting ?_
      simp only [ServesInTime, ServesAt, server, whole]
      refine .inr ⟨by rw [up]; decide, rfl, ?_, fun _ => serveEnv_allowed s⟩
      simp [takenForProbe, up, marked, probe]
    | heard fresh point server up down =>
      exact self.server_moves waiting (by simp only [ServesInTime, ServesAt, server, serveEnv])
    | acked fresh point server up down =>
      exact self.proxy_moves (by simp only [ConnectThread.result, point])
        (by rw [point, down]; decide)
    | keyed fresh point server up down =>
      exact self.proxy_moves (by simp only [ConnectThread.result, point])
        (by simp [point, proxyNeeds])
    | offered my fresh point server up down =>
      refine self.server_moves waiting ?_
      simp only [ServesInTime, ServesAt, server, whole]
      simp [up]
    | taken my fresh point server up down =>
      exact self.server_moves waiting (by simp only [ServesInTime, ServesAt, server, serveEnv])
    | closing my peer proxy server =>
      rcases server with storing | stored
      · exact self.server_moves waiting (by simp only [ServesInTime, ServesAt, storing])
      · have idle : serverLeft s.server = 0 := by
          simp only [serverLeft, stored.point, stored.nonces, Option.isSome_some, if_true]
        obtain ⟨⟨point, stream⟩, cipher, server, up, down, frames, nonceBytes⟩ := s
        cases proxy with
        | awaiting => exact self.proxy_moves rfl (by simp [proxyNeeds, length_tagged])
        | finishing => exact self.proxy_moves rfl (Nat.zero_le _)
        | connected =>
          refine absurd ?_ done
          unfold left
          rw [idle]
          rfl

end

end RtlTcp.Handshake

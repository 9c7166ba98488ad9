import RtlTcp.Lib.Transition
import RtlTcp.Main.MasterControl
import RtlTcp.Main.ProxyControl

/-!
# The encrypted command channel between a proxy and its upstream server

The proxy's control thread encrypts the frames it forwards, the server's control thread decrypts
the frames it reads. Each end moves its own cipher: the proxy drops frames before it encrypts,
the server after it has decrypted, and the proxy's cipher outlives the sessions of its masters.
`commands_in_step` says that the two ends agree on every frame up to the first forwarded probe,
after which the server exchanges nonces again.
-/

namespace RtlTcp
set_option autoImplicit false
open ByteIo Transition Keystream

/-- Both ends and the bytes between them. `broken` says that a write on the upstream socket has
failed or that its mutex is poisoned, so that nothing is delivered any more; `decrypted` holds
the frames the server has decrypted. -/
structure CommandChannel where
  proxy : ProxyControl
  inSession : Bool
  broken : Bool
  channel : List UInt8
  server : MasterControl
  serving : Bool
  decrypted : List Frame

/-- A new master session of the proxy, one turn of the proxy's thread (in which a failing write
delivers `partly` bytes), or one turn of the server's thread. -/
inductive ChannelAct where
  | session (stream : List Arrival) (now again : Nat)
  | proxyTurn (env : ProxyEnv) (partly : Nat)
  | serverTurn (env : Env)

namespace CommandChannel

/-- The frames the proxy has forwarded, in plaintext. -/
def forwarded (s : CommandChannel) : List Frame := s.proxy.forwarded.map Prod.fst

/-- What the upstream socket delivers of the writes of one turn; a failing write delivers less
than the frame, and nothing is delivered once the channel is broken. -/
def delivery (broken : Bool) (partly : Nat) : List (Frame × Frame × Except ErrorKind Unit) → List UInt8
  | [] => []
  | (_, encrypted, sent) :: _ =>
    if broken then []
    else
      match sent with
      | .ok () => encrypted.toList
      | .error _ => encrypted.toList.take (min partly 4)

/-- Whether one of the writes failed. -/
def anyFailed (writes : List (Frame × Frame × Except ErrorKind Unit)) : Bool :=
  writes.any fun w => match w.2.2 with
    | .ok () => false
    | .error _ => true

/-- What the server's next read meets: a whole frame, or a timeout. -/
def inbound (channel : List UInt8) : List Arrival :=
  if channel.length < commandHeaderSize then [.fail .timedOut] else channel.map .byte ++ [.fail .timedOut]

/-- The next state; `key` is the server's encryption key. -/
def step [ChaCha] (key : Option Key) (s : CommandChannel) : ChannelAct → Option CommandChannel
  | .session stream now again =>
    if s.inSession then none
    else
      let proxy := { s.proxy with stream := stream, rateLimiter := .new commandRateLimitInterval now again }
      some { s with inSession := true, proxy := proxy }
  | .proxyTurn env partly =>
    if s.inSession then
      let (flow, proxy) := s.proxy.turn env
      let writes := proxy.forwarded.drop s.proxy.forwarded.length
      some { s with
        proxy := proxy
        inSession := flow == .again
        channel := s.channel ++ delivery (s.broken || !env.upstreamLock) partly writes
        broken := s.broken || !env.upstreamLock || anyFailed writes }
    else none
  | .serverTurn env =>
    if s.serving then
      let server := { s.server with stream := inbound s.channel }
      let (flow, server') := server.turn key env
      some { s with
        server := server'
        serving := flow == .again
        channel := if s.channel.length < commandHeaderSize then s.channel else bytesOf server'.stream
        decrypted := s.decrypted ++ match readExact commandHeaderSize server.stream with
          | (.ok raw, _) => [(server.decrypt raw).1]
          | (.error _, _) => [] }
    else none

/-! ## What keeps the two ends in step -/

/-- The bytes of a sequence of frames. -/
def frameBytes (frames : List Frame) : List UInt8 := frames.flatMap List.Vector.toList

theorem frameBytes_append (frames more : List Frame) : frameBytes (frames ++ more) = frameBytes frames ++ frameBytes more :=
  List.flatMap_append ..

theorem length_frameBytes (frames : List Frame) : (frameBytes frames).length = commandHeaderSize * frames.length := by
  induction frames with
  | nil => rfl
  | cons f frames ih =>
    have cons : frameBytes (f :: frames) = f.toList ++ frameBytes frames := rfl
    rw [cons, List.length_append, ih, List.Vector.toList_length, List.length_cons, Nat.mul_succ, Nat.add_comm]

theorem frameBytes_front {frames more : List Frame} (h : frameBytes frames <+: frameBytes more) : frames <+: more := by
  induction frames generalizing more with
  | nil => exact List.nil_prefix
  | cons f frames ih =>
    obtain ⟨rest, same⟩ := h
    cases more with
    | nil =>
      have size := congrArg List.length same
      rw [List.length_append, length_frameBytes] at size
      simp [frameBytes] at size
    | cons g more =>
      have split : f.toList ++ (frameBytes frames ++ rest) = g.toList ++ frameBytes more := by
        rw [← List.append_assoc]
        exact same
      obtain ⟨first, later⟩ := List.append_inj split (by simp)
      rw [List.Vector.eq f g first]
      exact (List.prefix_cons_inj g).2 (ih ⟨rest, later⟩)

/-- The server has decrypted the forwarded frames, as far as the first forwarded probe. -/
def Agrees (s : CommandChannel) : Prop :=
  ∀ i, i < s.decrypted.length → (∀ j, j < i → ∀ f, s.forwarded[j]? = some f → f.cmd ≠ cmdChainDetect) →
    s.decrypted[i]? = s.forwarded[i]?

theorem agrees_of_front {s : CommandChannel} (h : s.decrypted <+: s.forwarded) : Agrees s := by
  intro i inside _
  obtain ⟨rest, same⟩ := h
  rw [← same, List.getElem?_append_left inside]

theorem prefix_of_xorAt {k : Nat → UInt8} {frames more : List Frame} {rest : List UInt8}
    (h : xorAt k 0 (frameBytes frames) ++ rest <+: xorAt k 0 (frameBytes more)) : frames <+: more := by
  obtain ⟨tail, same⟩ := h
  refine frameBytes_front ⟨xorAt k (frameBytes frames).length (rest ++ tail), ?_⟩
  have plain := congrArg (xorAt k 0) same
  rw [xorAt_xorAt, List.append_assoc, xorAt_append, xorAt_xorAt, length_xorAt, Nat.zero_add] at plain
  exact plain

/-- Frames forwarded later do not matter for the frames already decrypted. -/
theorem Agrees.forward {s t : CommandChannel} (h : Agrees s) (more : List Frame)
    (decrypted : t.decrypted = s.decrypted) (forwarded : t.forwarded = s.forwarded ++ more) : Agrees t := by
  intro i inside noProbe
  rw [decrypted] at inside ⊢
  rw [forwarded] at noProbe ⊢
  have earlier : ∀ j, j < i → ∀ f, s.forwarded[j]? = some f → f.cmd ≠ cmdChainDetect := by
    intro j before f there
    apply noProbe j before f
    rw [List.getElem?_append_left (List.getElem?_eq_some_iff.1 there).1, there]
  have same := h i inside earlier
  have known : i < s.forwarded.length := by
    rw [List.getElem?_eq_getElem inside] at same
    exact (List.getElem?_eq_some_iff.1 same.symm).1
  rw [same, List.getElem?_append_left known]

/-- After the server has met a probe, further frames do not matter. -/
theorem Agrees.decrypt {s t : CommandChannel} (h : Agrees s) (probed : ∃ f ∈ s.decrypted, f.cmd = cmdChainDetect)
    (more : List Frame) (forwarded : t.forwarded = s.forwarded) (decrypted : t.decrypted = s.decrypted ++ more) :
    Agrees t := by
  intro i inside noProbe
  rw [forwarded] at noProbe ⊢
  rcases Nat.lt_or_ge i s.decrypted.length with old | new
  · rw [decrypted, List.getElem?_append_left old, h i old noProbe]
  · obtain ⟨f, member, cmd⟩ := probed
    obtain ⟨j, bound, there⟩ := List.mem_iff_getElem.1 member
    have same := h j bound fun k before => noProbe k (by omega)
    rw [List.getElem?_eq_getElem bound, there] at same
    exact absurd cmd (noProbe j (by omega) f same.symm)

theorem delivery_front (broken : Bool) (partly : Nat) (buf encrypted : Frame) (sent : Except ErrorKind Unit) :
    delivery broken partly [(buf, encrypted, sent)] <+: encrypted.toList := by
  simp only [delivery]
  split
  · exact List.nil_prefix
  · split
    · exact List.prefix_refl _
    · exact List.take_prefix ..

section
variable [ChaCha]

/-- Both ciphers have the key and nonce of the handshake, and stand where the frames say; what
the server has read and what is still in the channel is the encrypted stream, which may end
early once the channel is broken. -/
structure Synced (key : Key) (nonce : Nonce) (s : CommandChannel) : Prop where
  reader : s.server.readCipher = some ⟨key, nonce, commandHeaderSize * s.decrypted.length⟩
  delivered : xorAt (ChaCha.keystream key nonce) 0 (frameBytes s.decrypted) ++ s.channel <+:
    xorAt (ChaCha.keystream key nonce) 0 (frameBytes s.forwarded)
  writer : s.broken = false →
    s.proxy.writeCipher = some ⟨key, nonce, commandHeaderSize * s.forwarded.length⟩ ∧
      xorAt (ChaCha.keystream key nonce) 0 (frameBytes s.decrypted) ++ s.channel =
        xorAt (ChaCha.keystream key nonce) 0 (frameBytes s.forwarded)

/-- The two ends are in step, or the server has met a probe. -/
def Inv (key : Key) (nonce : Nonce) (s : CommandChannel) : Prop :=
  Synced key nonce s ∨ Agrees s ∧ ∃ f ∈ s.decrypted, f.cmd = cmdChainDetect

theorem Synced.agrees {key : Key} {nonce : Nonce} {s : CommandChannel} (h : Synced key nonce s) : Agrees s :=
  agrees_of_front (prefix_of_xorAt h.delivered)

theorem Inv.agrees {key : Key} {nonce : Nonce} {s : CommandChannel} (h : Inv key nonce s) : Agrees s :=
  h.elim Synced.agrees And.left

/-- What a turn of the proxy changes: nothing that matters, or one frame goes upstream, or the
channel breaks. -/
inductive ProxyStep (s : CommandChannel) (partly : Nat) (t : CommandChannel) : Prop where
  | nothing (cipher : t.proxy.writeCipher = s.proxy.writeCipher) (forwarded : t.forwarded = s.forwarded)
      (channel : t.channel = s.channel) (broken : s.broken = true → t.broken = true)
  | frame (buf : Frame) (sent : Except ErrorKind Unit)
      (cipher : t.proxy.writeCipher = (ProxyControl.encrypt s.proxy.writeCipher buf).2)
      (forwarded : t.forwarded = s.forwarded ++ [buf])
      (channel : t.channel = s.channel ++
        delivery s.broken partly [(buf, (ProxyControl.encrypt s.proxy.writeCipher buf).1, sent)])
      (broken : t.broken = true ∨ s.broken = false ∧ sent = .ok ())
  | poisoned (forwarded : t.forwarded = s.forwarded) (channel : t.channel = s.channel) (broken : t.broken = true)

theorem proxyTurn_step {serverKey : Option Key} {s t : CommandChannel} {env : ProxyEnv} {partly : Nat}
    (taken : s.step serverKey (.proxyTurn env partly) = some t) :
    t.server = s.server ∧ t.decrypted = s.decrypted ∧ ProxyStep s partly t := by
  simp only [step] at taken
  split at taken
  · cases taken
    refine ⟨rfl, rfl, ?_⟩
    cases s.proxy.turn_forwards env with
    | nothing cipher log =>
      refine .nothing cipher (by simp [forwarded, log]) (by simp [log, delivery]) fun broken => by simp [broken]
    | frame buf unlocked cipher log =>
      refine .frame buf env.sent cipher (by simp [forwarded, log]) (by simp [log, unlocked]) ?_
      cases sent : env.sent with
      | error e => exact .inl (by simp [log, anyFailed, sent])
      | ok =>
        cases broken : s.broken with
        | true => exact .inl (by simp)
        | false => exact .inr ⟨rfl, rfl⟩
    | poisoned locked log => exact .poisoned (by simp [forwarded, log]) (by simp [log, delivery]) (by simp [locked])
  · cases taken

/-- A turn of the proxy keeps the ends in step: an encrypted frame continues the stream, and a
frame that is not delivered is the last one. -/
theorem Synced.proxyTurn {key : Key} {nonce : Nonce} {serverKey : Option Key} {s t : CommandChannel} {env : ProxyEnv}
    {partly : Nat} (h : Synced key nonce s) (taken : s.step serverKey (.proxyTurn env partly) = some t) :
    Synced key nonce t := by
  obtain ⟨server, decrypted, effect⟩ := proxyTurn_step taken
  have reader : t.server.readCipher = some ⟨key, nonce, commandHeaderSize * t.decrypted.length⟩ := by
    rw [server, decrypted, h.reader]
  cases effect with
  | nothing cipher forwarded channel broken =>
    refine ⟨reader, ?_, fun sound => ?_⟩
    · rw [decrypted, forwarded, channel]
      exact h.delivered
    · rw [decrypted, forwarded, channel, cipher]
      exact h.writer (Bool.eq_false_iff.2 fun was => by rw [broken was] at sound; cases sound)
  | poisoned forwarded channel broken =>
    refine ⟨reader, ?_, fun sound => ?_⟩
    · rw [decrypted, forwarded, channel]
      exact h.delivered
    · rw [broken] at sound
      cases sound
  | frame buf sent cipher forwarded channel broken =>
    have longer : frameBytes t.forwarded = frameBytes s.forwarded ++ buf.toList := by
      rw [forwarded, frameBytes_append]
      simp [frameBytes]
    cases was : s.broken with
    | true =>
      have gone : t.broken = true := broken.elim id fun sound => by rw [was] at sound; cases sound.1
      refine ⟨reader, ?_, fun sound => by rw [gone] at sound; cases sound⟩
      have same : t.channel = s.channel := by simp [channel, was, delivery]
      rw [decrypted, longer, same, xorAt_append]
      exact h.delivered.trans (List.prefix_append ..)
    | false =>
      obtain ⟨writer, whole⟩ := h.writer was
      have encrypted : (ProxyControl.encrypt s.proxy.writeCipher buf).1.toList =
          xorAt (ChaCha.keystream key nonce) (0 + (frameBytes s.forwarded).length) buf.toList := by
        rw [writer, length_frameBytes, Nat.zero_add]
        rfl
      have stream : xorAt (ChaCha.keystream key nonce) 0 (frameBytes t.forwarded) =
          xorAt (ChaCha.keystream key nonce) 0 (frameBytes s.decrypted) ++ s.channel ++
            (ProxyControl.encrypt s.proxy.writeCipher buf).1.toList := by
        rw [longer, xorAt_append, encrypted, whole]
      refine ⟨reader, ?_, fun sound => ?_⟩
      · rw [decrypted, channel, stream, ← List.append_assoc, was]
        exact (List.prefix_append_right_inj _).2 (delivery_front ..)
      · obtain ⟨-, rfl⟩ := broken.resolve_left (by simp [sound])
        refine ⟨?_, ?_⟩
        · rw [cipher, writer, forwarded, List.length_append]
          rfl
        · rw [decrypted, channel, stream, ← List.append_assoc, was]
          rfl

/-- What a turn of the server changes: nothing that matters, or it decrypts the next frame; if
that is no probe, the rest of the channel and the moved cipher are all that changes. -/
inductive ServerStep (s t : CommandChannel) : Prop where
  | nothing (cipher : t.server.readCipher = s.server.readCipher) (decrypted : t.decrypted = s.decrypted)
      (channel : t.channel = s.channel)
  | frame (raw : Frame) (rest : List UInt8) (channel : s.channel = raw.toList ++ rest)
      (decrypted : t.decrypted = s.decrypted ++ [(s.server.decrypt raw).1])
      (plain : (s.server.decrypt raw).1.cmd ≠ cmdChainDetect →
        t.channel = rest ∧ t.server.readCipher = (s.server.decrypt raw).2.readCipher)

theorem decrypt_stream (server : MasterControl) (stream : List Arrival) (raw : Frame) :
    ({ server with stream := stream }.decrypt raw).1 = (server.decrypt raw).1 ∧
      ({ server with stream := stream }.decrypt raw).2.stream = stream ∧
      ({ server with stream := stream }.decrypt raw).2.readCipher = (server.decrypt raw).2.readCipher := by
  unfold MasterControl.decrypt
  cases cipher : server.readCipher <;> simp [cipher]

theorem serverTurn_step {serverKey : Option Key} {s t : CommandChannel} {env : Env}
    (taken : s.step serverKey (.serverTurn env) = some t) :
    t.proxy = s.proxy ∧ t.broken = s.broken ∧ ServerStep s t := by
  simp only [step] at taken
  split at taken
  · cases taken
    refine ⟨rfl, rfl, ?_⟩
    by_cases short : s.channel.length < commandHeaderSize
    · have read : readExact commandHeaderSize (inbound s.channel) = (.error .timedOut, []) := by
        rw [inbound, if_pos short]
        rfl
      exact .nothing (by simp [MasterControl.turn, read]) (by simp [read]) (if_pos short)
    · have size : (s.channel.take commandHeaderSize).length = commandHeaderSize := by
        rw [List.length_take]
        omega
      let raw : Frame := ⟨_, size⟩
      let rest := s.channel.drop commandHeaderSize
      have split : s.channel = raw.toList ++ rest := (List.take_append_drop commandHeaderSize s.channel).symm
      have read : readExact commandHeaderSize (inbound s.channel) = (.ok raw, rest.map .byte ++ [.fail .timedOut]) := by
        rw [inbound, if_neg short]
        conv => lhs; rw [split]
        rw [List.map_append, List.append_assoc]
        exact readExact_bytes raw _
      obtain ⟨same, stream, cipher⟩ := decrypt_stream s.server (inbound s.channel) raw
      obtain ⟨same', stream', cipher'⟩ := decrypt_stream s.server (rest.map .byte ++ [.fail .timedOut]) raw
      refine .frame raw rest split (by simp only [read, same]) fun plain => ?_
      simp only [MasterControl.turn, read, if_neg short]
      rw [← same'] at plain
      have noHandshake : serverKey = none ∨ _ := .inr plain
      obtain ⟨left, moved⟩ := MasterControl.process_plain noHandshake
        (MasterControl.decrypt { s.server with stream := rest.map Arrival.byte ++ [Arrival.fail .timedOut] } raw).2 env
      refine ⟨?_, moved.trans cipher'⟩
      rw [left, stream', bytesOf_append, bytesOf_map_byte]
      simp [bytesOf]
  · cases taken

/-- A turn of the server keeps the ends in step until it meets a probe. -/
theorem Synced.serverTurn {key : Key} {nonce : Nonce} {serverKey : Option Key} {s t : CommandChannel} {env : Env}
    (h : Synced key nonce s) (taken : s.step serverKey (.serverTurn env) = some t) : Inv key nonce t := by
  obtain ⟨proxy, broken, effect⟩ := serverTurn_step taken
  have forwarded : t.forwarded = s.forwarded := by rw [CommandChannel.forwarded, proxy, CommandChannel.forwarded]
  cases effect with
  | nothing cipher decrypted channel =>
    refine .inl ⟨?_, ?_, fun sound => ?_⟩
    · rw [cipher, decrypted, h.reader]
    · rw [decrypted, channel, forwarded]
      exact h.delivered
    · rw [decrypted, channel, forwarded, proxy]
      exact h.writer (broken ▸ sound)
  | frame raw rest channel decrypted plain =>
    have buf : (s.server.decrypt raw).1.toList =
        xorAt (ChaCha.keystream key nonce) (0 + (frameBytes s.decrypted).length) raw.toList := by
      rw [length_frameBytes, Nat.zero_add, MasterControl.decrypt, h.reader]
      rfl
    have stream : xorAt (ChaCha.keystream key nonce) 0 (frameBytes t.decrypted) ++ rest =
        xorAt (ChaCha.keystream key nonce) 0 (frameBytes s.decrypted) ++ s.channel := by
      have longer : frameBytes t.decrypted = frameBytes s.decrypted ++ (s.server.decrypt raw).1.toList := by
        rw [decrypted, frameBytes_append]
        simp [frameBytes]
      rw [longer, xorAt_append, buf, xorAt_xorAt, channel, List.append_assoc]
    have delivered : xorAt (ChaCha.keystream key nonce) 0 (frameBytes t.decrypted) ++ rest <+:
        xorAt (ChaCha.keystream key nonce) 0 (frameBytes t.forwarded) := by
      rw [stream, forwarded]
      exact h.delivered
    by_cases cmd : (s.server.decrypt raw).1.cmd = cmdChainDetect
    · refine .inr ⟨agrees_of_front (prefix_of_xorAt delivered), _, ?_, cmd⟩
      rw [decrypted]
      exact List.mem_append_right _ (List.mem_singleton.2 rfl)
    · obtain ⟨left, moved⟩ := plain cmd
      refine .inl ⟨?_, left ▸ delivered, fun sound => ?_⟩
      · rw [moved, decrypted, List.length_append, MasterControl.decrypt, h.reader]
        rfl
      · rw [left, stream, forwarded, proxy]
        exact h.writer (broken ▸ sound)

theorem Inv.step {key : Key} {nonce : Nonce} {serverKey : Option Key} {s t : CommandChannel} {a : ChannelAct}
    (inv : Inv key nonce s) (taken : s.step serverKey a = some t) : Inv key nonce t := by
  cases a with
  | session stream now again =>
    simp only [CommandChannel.step] at taken
    split at taken
    · cases taken
    · cases taken
      rcases inv with synced | probed
      · exact .inl ⟨synced.reader, synced.delivered, synced.writer⟩
      · exact .inr probed
  | proxyTurn env partly =>
    rcases inv with synced | ⟨agrees, probed⟩
    · exact .inl (synced.proxyTurn taken)
    · obtain ⟨-, decrypted, effect⟩ := proxyTurn_step taken
      refine .inr ⟨?_, decrypted ▸ probed⟩
      cases effect with
      | nothing cipher forwarded channel broken => exact agrees.forward [] decrypted (by simp [forwarded])
      | frame buf sent cipher forwarded channel broken => exact agrees.forward [buf] decrypted forwarded
      | poisoned forwarded channel broken => exact agrees.forward [] decrypted (by simp [forwarded])
  | serverTurn env =>
    rcases inv with synced | ⟨agrees, probed⟩
    · exact synced.serverTurn taken
    · obtain ⟨proxy, -, effect⟩ := serverTurn_step taken
      have forwarded : t.forwarded = s.forwarded := by rw [CommandChannel.forwarded, proxy, CommandChannel.forwarded]
      cases effect with
      | nothing cipher decrypted channel =>
        exact .inr ⟨agrees.decrypt probed [] forwarded (by simp [decrypted]), decrypted ▸ probed⟩
      | frame raw rest channel decrypted plain =>
        refine .inr ⟨agrees.decrypt probed _ forwarded decrypted, ?_⟩
        obtain ⟨f, member, cmd⟩ := probed
        exact ⟨f, decrypted ▸ List.mem_append_left _ member, cmd⟩

/-- The channel right after the handshake. -/
def start (key : Key) (nonce : Nonce) (rateLimiter : RateLimiter) (server : MasterControl) : CommandChannel where
  proxy := ⟨[], rateLimiter, some (.new key nonce), []⟩
  inSession := false
  broken := false
  channel := []
  server := { server with readCipher := some (.new key nonce) }
  serving := true
  decrypted := []

/-- **The encrypted command channel stays in step.** After a handshake, in every run of any
number of proxy sessions, any arrivals of frames and parts of frames, any decisions of the two
rate limiters and any failing writes, the `i`-th frame the server decrypts is the `i`-th frame
the proxy forwarded, for every `i` up to the first forwarded probe. -/
theorem commands_in_step (key : Key) (nonce : Nonce) (rateLimiter : RateLimiter) (server : MasterControl)
    (serverKey : Option Key) (acts : List ChannelAct) (s : CommandChannel)
    (reached : run (step serverKey) (start key nonce rateLimiter server) acts = some s) :
    ∀ i, i < s.decrypted.length → (∀ j, j < i → ∀ f, s.forwarded[j]? = some f → f.cmd ≠ cmdChainDetect) →
      s.decrypted[i]? = s.forwarded[i]? := by
  have fresh : Synced key nonce (start key nonce rateLimiter server) :=
    ⟨rfl, List.prefix_refl _, fun _ => ⟨rfl, rfl⟩⟩
  have inv : Inv key nonce s := run_invariant (fun _ _ _ => Inv.step) (.inl fresh) reached
  exact inv.agrees

end

/-- Two sessions of the proxy: the first forwards a frame, loses one to its rate limiter and is
cut off inside a third; the second forwards another frame. -/
def twoSessions : List ChannelAct :=
  let frequency : List Arrival := [.byte 0x01, .byte 0x05, .byte 0xFD, .byte 0x82, .byte 0x20]
  let rate : List Arrival := [.byte 0x02, .byte 0x00, .byte 0x1F, .byte 0x40, .byte 0x00]
  [.session (frequency ++ frequency ++ [.byte 0x01]) 0 0, .proxyTurn ⟨false, 100000000, true, .ok ()⟩ 0,
    .proxyTurn ⟨false, 100000001, true, .ok ()⟩ 0, .serverTurn (MasterControl.calmEnv 0),
    .proxyTurn ⟨false, 200000000, true, .ok ()⟩ 0, .session rate 200000000 200000000,
    .proxyTurn ⟨false, 300000000, true, .ok ()⟩ 0, .serverTurn (MasterControl.calmEnv 0)]

theorem commands_in_step_two_sessions :
    letI := zeroChaCha
    let limiter : RateLimiter := .new commandRateLimitInterval 0 0
    ∃ s, run (step (some zeroKey)) (start zeroKey zeroNonce limiter (.start [] .new limiter)) twoSessions = some s ∧
      s.decrypted.length = 2 ∧ s.decrypted[1]? = s.forwarded[1]? := by
  let _ := zeroChaCha
  let limiter : RateLimiter := .new commandRateLimitInterval 0 0
  have frames : (run (step (some zeroKey)) (start zeroKey zeroNonce limiter (.start [] .new limiter)) twoSessions).map
      (fun s => (s.decrypted.length, s.forwarded.map Frame.cmd)) = some (2, [0x01, 0x02]) := by decide
  obtain ⟨s, reached, facts⟩ := Option.map_eq_some_iff.1 frames
  obtain ⟨size, cmds⟩ := Prod.mk.inj facts
  refine ⟨s, reached, size, commands_in_step _ _ _ _ _ twoSessions s reached 1 (by omega) ?_⟩
  intro j before f there
  obtain rfl : j = 0 := by omega
  have first := congrArg (·[0]?) cmds
  simp only [List.getElem?_map, there] at first
  have cmd : f.cmd = 0x01 := Option.some.inj first
  rw [cmd]
  decide

end CommandChannel

end RtlTcp

import RtlTcp.Main.Handshake.System

/-!
# The stages of a handshake

`Wrote` says what the proxy has sent after its probe, point by point of `connect_upstream`, and
`Stage` what of it the server has still to read, point by point of the control thread. In every
stage the ciphers of the two ends agree.
-/

namespace RtlTcp.Handshake
set_option autoImplicit false
open ByteIo

/-! ## What the proxy has sent -/

def Commands (bytes : Wire UpOrigin) : Prop := ∀ b ∈ bytes, b.1 = .command

/-- What the proxy has sent after the probe, point by point. -/
def Wrote (sk : Option Key) : ConnectPoint → Wire UpOrigin → Prop
  | .awaitingAck _, later => later = []
  | .sendingNonce _ encKey, later => sk = some encKey ∧ later = []
  | .awaitingNonce _ encKey myNonce, later => sk = some encKey ∧ later = marked .nonce myNonce.toList
  | .finishing _ _ (some (encKey, myNonce, _)), later => sk = some encKey ∧ later = marked .nonce myNonce.toList
  | .finishing _ _ none, later => sk = none ∧ later = []
  | .connected _ _ (some (encKey, myNonce, _)), later =>
    sk = some encKey ∧ ∃ commands, Commands commands ∧ later = marked .nonce myNonce.toList ++ commands
  | .connected _ _ none, later => sk = none ∧ Commands later
  | .failed _, later => (∀ b ∈ later, b.1 = .nonce) ∧ later.length ≤ 12 ∧ (sk = none → later = [])
  | .connecting, _ | .readingMagic, _ | .probing _, _ => False

theorem length_delivered (bytes : List UInt8) (sent : Except ErrorKind Unit) (partly : Nat) :
    (delivered bytes sent partly).length ≤ bytes.length := by
  cases sent with
  | ok => exact Nat.le_refl _
  | error e => exact List.length_take_le' ..

/-- The wait for the acknowledgement ends well if five bytes arrive that start like it. -/
theorem readAck_arriving (down : SocketLog) (n : Nat) (cut : ErrorKind) :
    (readAck (arriving down n cut)).1 = true ↔
      5 ≤ (down.take n).length ∧ (down.take n).head?.map Prod.snd = some cmdChainDetect := by
  have reads := readExact_arriving down n 5 cut
  unfold readAck
  rcases taken : readExact 5 (arriving down n cut) with ⟨e | ack, rest⟩
  · rw [taken] at reads
    cases reads with
    | short few => simp only [Bool.false_eq_true, false_iff]; omega
  · rw [taken] at reads
    cases reads with
    | whole enough bytes =>
      obtain ⟨byte, later, size⟩ : ∃ b bs, down.take n = b :: bs := by
        cases first : down.take n with
        | nil => simp [first] at enough
        | cons b bs => exact ⟨b, bs, rfl⟩
      have head : ack.head = byte.2 := by
        have front := congrArg (fun l => (l.take 5).map Prod.snd) size
        simp only [List.take_take, List.take_succ_cons, List.map_cons] at front
        rw [Nat.min_eq_left (by rw [List.length_take] at enough; omega), ← bytes] at front
        rw [← List.Vector.cons_head_tail ack, List.Vector.toList_cons] at front
        exact (List.cons.inj front).1
      have first : (down.take n).head?.map Prod.snd = some byte.2 := by rw [size]; rfl
      simp only [first, head, beq_iff_eq, Option.some.injEq, enough, true_and]

/-- **A step of `connect_upstream`** after the probe, if the acknowledgement fits. -/
theorem wrote_step {pk sk : Option Key} {c : ConnectThread} {down : SocketLog} {n : Nat} {cut : ErrorKind}
    (inbound : c.stream.inbound = arriving down n cut) (running : c.result = none)
    (fits : ∀ magic, c.point = .awaitingAck magic → AckFits pk sk (down.take n)) {later : Wire UpOrigin}
    (wrote : Wrote sk c.point later) (env : ConnectEnv) (partly : Nat) :
    Wrote sk (c.step pk env).point (later ++ c.output env partly) := by
  obtain ⟨point, inbound', written⟩ := c
  dsimp only at inbound
  subst inbound
  cases point with
  | connecting | readingMagic | probing => exact wrote.elim
  | connected | failed => cases running
  | awaitingAck magic =>
    obtain rfl : later = [] := wrote
    have fits := fits magic rfl
    have acked := readAck_arriving down n cut
    rcases waited : readAck (arriving down n cut) with ⟨isChain, rest⟩
    rw [waited] at acked
    cases isChain with
    | true =>
      obtain ⟨rfl, -⟩ := (if_pos (acked.1 rfl)).mp fits
      cases sk <;> simp [ConnectThread.step, ConnectThread.output, ConnectThread.proceed, waited, Wrote]
    | false =>
      obtain rfl : sk = none := (if_neg (fun arrived => Bool.noConfusion (acked.2 arrived))).mp fits
      cases timeout : env.plainTimeoutSet <;>
        simp [ConnectThread.step, ConnectThread.output, ConnectThread.proceed, waited, timeout, Wrote]
  | sendingNonce magic encKey =>
    obtain ⟨rfl, rfl⟩ := wrote
    cases sent : env.nonceSent with
    | ok => simp [ConnectThread.step, ConnectThread.output, ConnectThread.proceed, sent, Wrote, delivered]
    | error e =>
      simp only [ConnectThread.step, ConnectThread.output, ConnectThread.proceed, sent, Wrote, List.nil_append]
      refine ⟨fun b member => mark_of_marked member, ?_, fun unkeyed => absurd unkeyed (Option.some_ne_none _)⟩
      have bound := length_delivered env.myNonce.toList (.error e) partly
      simpa using bound
  | awaitingNonce magic encKey myNonce =>
    obtain ⟨rfl, rfl⟩ := wrote
    rcases taken : readExact 12 (arriving down n cut) with ⟨e | peerNonce, rest⟩
    · simp only [ConnectThread.step, ConnectThread.output, taken, Wrote, List.append_nil]
      exact ⟨fun b member => mark_of_marked member, by simp, fun unkeyed => absurd unkeyed (Option.some_ne_none _)⟩
    · simp [ConnectThread.step, ConnectThread.output, taken, Wrote]
  | finishing magic isChain encryptionKey =>
    rcases encryptionKey with _ | ⟨encKey, myNonce, peerNonce⟩
    · obtain ⟨rfl, rfl⟩ := wrote
      cases timeout : env.streamTimeoutSet <;>
        simp [ConnectThread.step, ConnectThread.output, ConnectThread.proceed, timeout, Wrote, Commands]
    · obtain ⟨rfl, rfl⟩ := wrote
      cases timeout : env.streamTimeoutSet with
      | ok =>
        simp only [ConnectThread.step, ConnectThread.output, ConnectThread.proceed, timeout, Wrote, List.append_nil]
        exact ⟨trivial, [], by simp [Commands], (List.append_nil _).symm⟩
      | error e =>
        simp only [ConnectThread.step, ConnectThread.output, ConnectThread.proceed, timeout, Wrote, List.append_nil]
        exact ⟨fun b member => mark_of_marked member, by simp, fun unkeyed => absurd unkeyed (Option.some_ne_none _)⟩

/-- Commands come after everything else. -/
theorem wrote_command {sk : Option Key} {point : ConnectPoint} {magic : Bytes 12} {isChain : Bool}
    {encryptionKey : Option (Key × Nonce × Nonce)} (connected : point = .connected magic isChain encryptionKey)
    {later : Wire UpOrigin} (wrote : Wrote sk point later) (bytes : List UInt8) :
    Wrote sk point (later ++ marked .command bytes) := by
  subst connected
  have more : ∀ {commands}, Commands commands → Commands (commands ++ marked .command bytes) := by
    intro commands only b member
    rcases List.mem_append.1 member with old | new
    · exact only b old
    · exact mark_of_marked new
  rcases encryptionKey with _ | ⟨encKey, myNonce, peerNonce⟩
  · obtain ⟨plain, only⟩ := wrote
    exact ⟨plain, more only⟩
  · obtain ⟨key, commands, only, rfl⟩ := wrote
    exact ⟨key, _, more only, List.append_assoc ..⟩

/-- A server with a key finds nothing but the nonce in the next twelve bytes. -/
theorem wrote_nonce {sk : Option Key} (keyed : sk ≠ none) {point : ConnectPoint} {later : Wire UpOrigin}
    (wrote : Wrote sk point later) : ∀ b ∈ later.take 12, b.1 = .nonce := by
  intro b member
  have anywhere := List.mem_of_mem_take member
  cases point with
  | connecting | readingMagic | probing => exact wrote.elim
  | awaitingAck magic => simp [show later = [] from wrote] at anywhere
  | sendingNonce magic encKey => simp [wrote.2] at anywhere
  | awaitingNonce magic encKey myNonce => exact mark_of_marked (wrote.2 ▸ anywhere)
  | finishing magic isChain encryptionKey =>
    rcases encryptionKey with _ | ⟨encKey, myNonce, peerNonce⟩
    · exact absurd wrote.1 keyed
    · exact mark_of_marked (wrote.2 ▸ anywhere)
  | connected magic isChain encryptionKey =>
    rcases encryptionKey with _ | ⟨encKey, myNonce, peerNonce⟩
    · exact absurd wrote.1 keyed
    · obtain ⟨-, commands, -, rfl⟩ := wrote
      rw [List.take_left' (by simp)] at member
      exact mark_of_marked member
  | failed e => exact wrote.1 b anywhere

/-- What comes after `front` is commands, and the proxy does not know how many of them were read. -/
def Trails (sk : Option Key) (point : ConnectPoint) (front later : Wire UpOrigin) : Prop :=
  later = [] ∨ Commands later ∧ ∀ fewer, Commands fewer → Wrote sk point (front ++ fewer)

theorem Trails.commands {sk : Option Key} {point : ConnectPoint} {front later : Wire UpOrigin}
    (trails : Trails sk point front later) : Commands later := by
  rcases trails with rfl | ⟨only, -⟩
  · nofun
  · exact only

/-- The server reads on. -/
theorem Trails.drop {sk : Option Key} {point : ConnectPoint} {front later : Wire UpOrigin}
    (trails : Trails sk point front later) (wrote : Wrote sk point (front ++ later)) (k : Nat) :
    Wrote sk point (front ++ later.drop k) := by
  rcases trails with rfl | ⟨only, open_ended⟩
  · rwa [List.drop_nil]
  · exact open_ended _ fun b member => only b (List.mem_of_mem_drop member)

/-- A server without a key finds nothing but commands. -/
theorem trails_plain {point : ConnectPoint} {later : Wire UpOrigin} (wrote : Wrote none point later) :
    Trails none point [] later := by
  cases point with
  | connecting | readingMagic | probing => exact wrote.elim
  | awaitingAck magic => exact .inl wrote
  | sendingNonce | awaitingNonce => cases wrote.1
  | finishing magic isChain encryptionKey =>
    rcases encryptionKey with _ | ⟨encKey, myNonce, peerNonce⟩
    · exact .inl wrote.2
    · cases wrote.1
  | connected magic isChain encryptionKey =>
    rcases encryptionKey with _ | ⟨encKey, myNonce, peerNonce⟩
    · exact .inr ⟨wrote.2, fun fewer only => ⟨rfl, only⟩⟩
    · cases wrote.1
  | failed e => exact .inl (wrote.2.2 rfl)

/-- After a whole nonce there are only commands. -/
theorem trails_nonce {key : Key} {point : ConnectPoint} {nonce : Nonce} {later : Wire UpOrigin}
    (wrote : Wrote (some key) point (marked .nonce nonce.toList ++ later)) :
    Trails (some key) point (marked .nonce nonce.toList) later := by
  have size : (marked UpOrigin.nonce nonce.toList ++ later).length = 12 + later.length := by simp
  have bounded : (marked UpOrigin.nonce nonce.toList ++ later).length ≤ 12 → later = [] := by
    intro bound
    exact List.eq_nil_of_length_eq_zero (by omega)
  cases point with
  | connecting | readingMagic | probing => exact wrote.elim
  | awaitingAck magic =>
    refine .inl (bounded ?_)
    rw [show _ = [] from wrote]
    exact Nat.zero_le _
  | sendingNonce magic encKey =>
    refine .inl (bounded ?_)
    rw [wrote.2]
    exact Nat.zero_le _
  | awaitingNonce magic encKey myNonce =>
    refine .inl (bounded ?_)
    rw [wrote.2]
    simp
  | finishing magic isChain encryptionKey =>
    rcases encryptionKey with _ | ⟨encKey, myNonce, peerNonce⟩
    · cases wrote.1
    · refine .inl (bounded ?_)
      rw [wrote.2]
      simp
  | connected magic isChain encryptionKey =>
    rcases encryptionKey with _ | ⟨encKey, myNonce, peerNonce⟩
    · cases wrote.1
    · obtain ⟨key, commands, only, same⟩ := wrote
      obtain ⟨own, rfl⟩ := List.append_inj same (by simp)
      exact .inr ⟨only, fun fewer few => ⟨key, fewer, few, by rw [own]⟩⟩
  | failed e => exact .inl (bounded wrote.2.1)

/-- A server that has taken a nonce has taken the nonce of the proxy's write cipher. -/
theorem wrote_connected {key : Key} {magic : Bytes 12} {isChain : Bool} {encryptionKey : Option (Key × Nonce × Nonce)}
    {nonce : Nonce} {later : Wire UpOrigin}
    (wrote : Wrote (some key) (.connected magic isChain encryptionKey) (marked .nonce nonce.toList ++ later)) :
    ConnectThread.writeCipher encryptionKey = some (.new key nonce) := by
  rcases encryptionKey with _ | ⟨encKey, myNonce, peerNonce⟩
  · cases wrote.1
  · obtain ⟨key, commands, -, same⟩ := wrote
    obtain rfl := Option.some.inj key
    have bytes := marked_inj (List.append_inj same (by simp)).1
    rw [ConnectThread.writeCipher, List.Vector.eq nonce myNonce bytes]

/-! ## What the server has read -/

/-- `connect_upstream` has not sent the probe yet. -/
def Unprobed : ConnectPoint → Prop
  | .connecting | .readingMagic | .probing _ => True
  | _ => False

/-- `connect_upstream` waits for the acknowledgement or has failed. -/
def Waits : ConnectPoint → Prop
  | .awaitingAck _ | .failed _ => True
  | _ => False

/-- The control thread at the head of its loop: nothing was sent, or a part of the probe by a proxy
that has failed, the probe is not read yet, the rate limiter of a server with a key has rejected
it, or the handshake is over. -/
inductive AtHead (sk : Option Key) (s : Handshake) : Prop where
  | unprobed (plain : s.server.thread.readCipher = none) (waits : Unprobed s.proxy.point) (nothing : s.up = [])
      (silent : ∀ b ∈ s.down, b.1 ≠ .ack)
  | broken (plain : s.server.thread.readCipher = none) (failed : s.proxy.hasFailed = true) (few : s.up.length < 5)
  | unread (later : Wire UpOrigin) (plain : s.server.thread.readCipher = none) (sent : s.up = marked .probe probe ++ later)
      (wrote : Wrote sk s.proxy.point later) (silent : ∀ b ∈ s.down, b.1 ≠ .ack)
      (waits : sk ≠ none → later = [] ∧ Waits s.proxy.point)
  | rejected (magic : Bytes 12) (plain : s.server.thread.readCipher = none) (keyed : sk ≠ none)
      (waits : s.proxy.point = .awaitingAck magic) (nothing : s.up = []) (silent : ∀ b ∈ s.down, b.1 ≠ .ack)
  | encrypted (cipher : ChaCha20) (own : s.server.thread.readCipher = some cipher) (key : sk = some cipher.key)
      (wrote : Wrote sk s.proxy.point (marked .nonce cipher.nonce.toList ++ s.up))
  | unencrypted (plain : s.server.thread.readCipher = none) (unkeyed : sk = none) (wrote : Wrote sk s.proxy.point s.up)

/-- Where the two ends are. -/
def Stage (sk : Option Key) (s : Handshake) : Prop :=
  match s.server.point with
  | .reading => AtHead sk s
  | .acking => s.server.thread.readCipher = none ∧ Wrote sk s.proxy.point s.up
  | .exchanging => s.server.thread.readCipher = none ∧ sk ≠ none ∧ Wrote sk s.proxy.point s.up
  | .replying nonce | .storing _ nonce => sk ≠ none ∧ Wrote sk s.proxy.point (marked .nonce nonce.toList ++ s.up)
  | .ended => True

/-- The ciphers agree in every stage. -/
theorem AtHead.ciphers {sk : Option Key} {s : Handshake} (stage : AtHead sk s) (conn : UpstreamConnection)
    (returned : s.proxy.result = some (.ok conn)) : identity conn.writeCipher = identity s.server.thread.readCipher := by
  obtain ⟨magic, isChain, encryptionKey, connected, cipher⟩ := ConnectThread.result_ok returned
  have unkeyed : ∀ {later}, Wrote none s.proxy.point later → conn.writeCipher = none := by
    intro later wrote
    rw [connected] at wrote
    rw [cipher]
    rcases encryptionKey with _ | ⟨encKey, myNonce, peerNonce⟩
    · rfl
    · cases wrote.1
  cases stage with
  | unprobed _ waits =>
    rw [connected] at waits
    exact waits.elim
  | broken _ failed => simp [ConnectThread.hasFailed, connected] at failed
  | unread later plain _ wrote _ waits =>
    cases sk with
    | none => rw [unkeyed wrote, plain]
    | some key =>
      have waits := (waits (Option.some_ne_none _)).2
      rw [connected] at waits
      exact waits.elim
  | rejected magic _ _ waits =>
    rw [connected] at waits
    cases waits
  | encrypted own same key wrote =>
    rw [connected, key] at wrote
    rw [cipher, wrote_connected wrote, same]
    rfl
  | unencrypted plain plainKey wrote =>
    subst plainKey
    rw [unkeyed wrote, plain]

/-- What the control thread has read follows the stages. -/
structure Inv (sk : Option Key) (s : Handshake) : Prop where
  stage : Stage sk s
  frames : ∀ frame ∈ s.frames, FrameFits frame
  nonces : ∀ origin ∈ s.nonceBytes, origin ≠ .command

theorem Inv.agreed {sk : Option Key} {s : Handshake} (inv : Inv sk s) : Agreed s := by
  refine ⟨fun conn returned reading => ?_, inv.frames, inv.nonces⟩
  have head := inv.stage
  rw [Stage, reading] at head
  exact AtHead.ciphers head conn returned

end RtlTcp.Handshake

import RtlTcp.Connect

/-!
# `proxy.rs`: what passes for an acknowledgement

`connect_upstream` takes any five bytes that start with the opcode for the acknowledgement of its
probe, and a plain server may well send such bytes among its samples. `chain_detect_sound_iff` says
on which inputs an upstream is taken for a chain without having acknowledged anything.
-/

namespace RtlTcp
set_option autoImplicit false
open ByteIo

/-- The thread at the end of `connect_upstream`. -/
def connectFinal (key : Option Key) (env : ConnectEnv) (inbound : List Arrival) : ConnectThread :=
  Nat.iterate (fun c => ConnectThread.step key c env) 7 ⟨.connecting, ⟨inbound, []⟩⟩

/-- `connect_upstream` reports a chain, or it has passed its nonce to the socket. -/
def TreatedAsChain (key : Option Key) (env : ConnectEnv) (inbound : List Arrival) : Prop :=
  (∃ conn, connectUpstream key env inbound = .ok conn ∧ conn.isChain = true) ∨
    ∃ sent, (env.myNonce.toList, sent) ∈ (connectFinal key env inbound).stream.written

/-- The five bytes that are received after the probe. -/
def AckReceived (inbound : List Arrival) (ack : Bytes 5) : Prop :=
  ∃ magic rest after, readExact 12 inbound = (.ok magic, rest) ∧ readExact 5 rest = (.ok ack, after)

/-- An upstream is treated as a chain only after the acknowledgement, so that one that never sends
it is plain. -/
def ChainDetectSound (key : Option Key) (env : ConnectEnv) (inbound : List Arrival) : Prop :=
  (TreatedAsChain key env inbound → ∃ ack, AckReceived inbound ack ∧ ack.toList = chainDetectAck) ∧
    (¬chainDetectAck <:+: (bytesOf inbound).drop 12 → ¬TreatedAsChain key env inbound)

/-- Five bytes that are no acknowledgement and start like one. -/
def FalseAck (inbound : List Arrival) : Prop :=
  ∃ ack, AckReceived inbound ack ∧ ack.head = cmdChainDetect ∧ ack.toList ≠ chainDetectAck

namespace ConnectThread

/-- The thread writes nothing more to its socket. -/
def Silent (c : ConnectThread) : Prop :=
  match c.point with
  | .awaitingNonce .. | .finishing .. | .connected .. | .failed _ => True
  | _ => False

variable (key : Option Key) (env : ConnectEnv)

theorem step_silent {c : ConnectThread} (silent : c.Silent) :
    (step key c env).Silent ∧ (step key c env).stream.written = c.stream.written := by
  obtain ⟨point, stream⟩ := c
  cases point with
  | awaitingNonce magic encKey myNonce =>
    rcases taken : readExact 12 stream.inbound with ⟨e | peerNonce, rest⟩ <;> simp [step, taken, Silent]
  | finishing magic isChain encryptionKey =>
    cases timeout : env.streamTimeoutSet <;> simp [step, timeout, proceed, Silent]
  | connected | failed => exact ⟨trivial, rfl⟩
  | _ => exact silent.elim

theorem iterate_silent {c : ConnectThread} (silent : c.Silent) (n : Nat) :
    (Nat.iterate (fun c => step key c env) n c).stream.written = c.stream.written := by
  induction n generalizing c with
  | zero => rfl
  | succ n ih =>
    obtain ⟨silent', same⟩ := step_silent key env silent
    rw [Function.iterate_succ_apply, ih silent', same]

/-- The thread up to the wait for the acknowledgement. -/
theorem steps_probed {inbound rest : List Arrival} {magic : Bytes 12} (probed : Probed env inbound magic rest) :
    Nat.iterate (fun c => step key c env) 3 ⟨.connecting, ⟨inbound, []⟩⟩ =
      ⟨.awaitingAck magic, ⟨rest, [(probe, .ok ())]⟩⟩ := by
  have first : step key ⟨.connecting, ⟨inbound, []⟩⟩ env = ⟨.readingMagic, ⟨inbound, []⟩⟩ := by
    simp only [step, probed.connected, probed.timeoutSet, proceed]
  have second : step key ⟨.readingMagic, ⟨inbound, []⟩⟩ env = ⟨.probing magic, ⟨rest, []⟩⟩ := by
    simp only [step, probed.packet]
  have third : step key ⟨.probing magic, ⟨rest, []⟩⟩ env = ⟨.awaitingAck magic, ⟨rest, [(probe, .ok ())]⟩⟩ := by
    simp only [step, probed.probeSent, proceed, List.nil_append]
  rw [Function.iterate_succ_apply, first, Function.iterate_succ_apply, second, Function.iterate_succ_apply, third]
  rfl

/-- A thread that does not get there has failed by then. -/
theorem steps_unprobed {inbound : List Arrival} (unprobed : ∀ magic rest, ¬Probed env inbound magic rest) :
    ∃ e stream, Nat.iterate (fun c => step key c env) 3 ⟨.connecting, ⟨inbound, []⟩⟩ = ⟨.failed e, stream⟩ ∧
      ∀ w ∈ stream.written, w.1 = probe := by
  have stop : ∀ {c : ConnectThread} {e stream} (n : Nat), step key c env = ⟨.failed e, stream⟩ →
      Nat.iterate (fun c => step key c env) (n + 1) c = ⟨.failed e, stream⟩ := by
    intro c e stream n failed
    rw [Function.iterate_succ_apply, failed, iterate_returned rfl]
  cases connected : env.connected with
  | error e => exact ⟨_, _, stop 2 (by simp only [step, connected, proceed]; rfl), by simp⟩
  | ok =>
  cases timeoutSet : env.timeoutSet with
  | error e => exact ⟨_, _, stop 2 (by simp only [step, connected, timeoutSet, proceed]; rfl), by simp⟩
  | ok =>
  have first : step key ⟨.connecting, ⟨inbound, []⟩⟩ env = ⟨.readingMagic, ⟨inbound, []⟩⟩ := by
    simp only [step, connected, timeoutSet, proceed]
  rw [Function.iterate_succ_apply, first]
  rcases packet : readExact 12 inbound with ⟨e | magic, rest⟩
  · exact ⟨_, _, stop 1 (by simp only [step, packet]; rfl), by simp⟩
  have second : step key ⟨.readingMagic, ⟨inbound, []⟩⟩ env = ⟨.probing magic, ⟨rest, []⟩⟩ := by
    simp only [step, packet]
  rw [Function.iterate_succ_apply, second]
  cases probeSent : env.probeSent with
  | error e => exact ⟨_, _, stop 0 (by simp only [step, probeSent, proceed, List.nil_append]; rfl), by simp⟩
  | ok => exact absurd ⟨connected, timeoutSet, packet, probeSent⟩ (unprobed magic rest)

/-- After the wait for the acknowledgement, the nonce is passed to the socket when there is a key
and the answer has started like an acknowledgement. -/
theorem written_from_answer (magic : Bytes 12) (rest : List Arrival) :
    (Nat.iterate (fun c => step key c env) 4 ⟨.awaitingAck magic, ⟨rest, [(probe, .ok ())]⟩⟩).stream.written =
      if (readAck rest).1 && key.isSome then [(probe, .ok ()), (env.myNonce.toList, env.nonceSent)]
      else [(probe, .ok ())] := by
  rcases waited : readAck rest with ⟨isChain, after⟩
  rw [Function.iterate_succ_apply]
  cases isChain with
  | false =>
    have silent : (step key ⟨.awaitingAck magic, ⟨rest, [(probe, .ok ())]⟩⟩ env).Silent := by
      cases timeout : env.plainTimeoutSet <;> simp [step, waited, timeout, proceed, Silent]
    rw [iterate_silent key env silent]
    simp [step, waited]
  | true =>
    cases key with
    | none =>
      have silent : (step none ⟨.awaitingAck magic, ⟨rest, [(probe, .ok ())]⟩⟩ env).Silent := by
        simp [step, waited, proceed, Silent]
      rw [iterate_silent none env silent]
      simp [step, waited]
    | some encKey =>
      have first : step (some encKey) ⟨.awaitingAck magic, ⟨rest, [(probe, .ok ())]⟩⟩ env =
          ⟨.sendingNonce magic encKey, ⟨after, [(probe, .ok ())]⟩⟩ := by
        simp only [step, waited, proceed, if_true]
      have silent : (step (some encKey) ⟨.sendingNonce magic encKey, ⟨after, [(probe, .ok ())]⟩⟩ env).Silent := by
        cases sent : env.nonceSent <;> simp [step, sent, proceed, Silent]
      rw [first, Function.iterate_succ_apply, iterate_silent (some encKey) env silent]
      simp [step]

end ConnectThread

/-! ## When the detection is sound -/

/-- A nonce is twelve bytes long, and the probe five. -/
theorem nonce_ne_probe (nonce : Nonce) : nonce.toList ≠ probe := by
  intro same
  have size := congrArg List.length same
  rw [List.Vector.toList_length] at size
  exact absurd size (by decide)

/-- What the wait for the acknowledgement has seen when it takes the upstream for a chain. -/
theorem readAck_true {rest : List Arrival} :
    (readAck rest).1 = true ↔ ∃ ack after, readExact 5 rest = (.ok ack, after) ∧ ack.head = cmdChainDetect := by
  rcases answer : readExact 5 rest with ⟨e | ack, after⟩
  · simp [readAck, answer]
  · simp [readAck, answer]

/-- The nonce is among the writes exactly when there is a key and the answer has started like an
acknowledgement. -/
theorem nonce_written_iff (key : Option Key) (env : ConnectEnv) (inbound : List Arrival) :
    (∃ sent, (env.myNonce.toList, sent) ∈ (connectFinal key env inbound).stream.written) ↔
      key.isSome = true ∧ ∃ magic rest, Probed env inbound magic rest ∧ (readAck rest).1 = true := by
  have split : connectFinal key env inbound = Nat.iterate (fun c => ConnectThread.step key c env) 4
      (Nat.iterate (fun c => ConnectThread.step key c env) 3 ⟨.connecting, ⟨inbound, []⟩⟩) := by
    rw [← Function.iterate_add_apply]
    rfl
  rw [split]
  by_cases reached : ∃ magic rest, Probed env inbound magic rest
  · obtain ⟨magic, rest, probed⟩ := reached
    rw [ConnectThread.steps_probed key env probed, ConnectThread.written_from_answer]
    constructor
    · rintro ⟨sent, member⟩
      split at member
      · rename_i both
        exact ⟨(Bool.and_eq_true_iff.1 both).2, magic, rest, probed, (Bool.and_eq_true_iff.1 both).1⟩
      · exact absurd (Prod.mk.inj (List.mem_singleton.1 member)).1 (nonce_ne_probe env.myNonce)
    · rintro ⟨keyed, magic', rest', probed', answered⟩
      obtain ⟨-, rfl⟩ := Prod.mk.inj (probed.packet.symm.trans probed'.packet)
      rw [if_pos (Bool.and_eq_true_iff.2 ⟨answered, keyed⟩)]
      exact ⟨env.nonceSent, by simp⟩
  · have unprobed : ∀ magic rest, ¬Probed env inbound magic rest := fun magic rest probed => reached ⟨magic, rest, probed⟩
    obtain ⟨e, stream, failed, only⟩ := ConnectThread.steps_unprobed key env unprobed
    rw [failed, ConnectThread.iterate_returned rfl]
    constructor
    · rintro ⟨sent, member⟩
      exact absurd (only _ member) (nonce_ne_probe env.myNonce)
    · rintro ⟨-, magic, rest, probed, -⟩
      exact absurd probed (unprobed magic rest)

/-- Without a key, a connection only needs the last system call after the answer. -/
theorem connectUpstream_unkeyed {env : ConnectEnv} {inbound rest : List Arrival} {magic : Bytes 12}
    (probed : Probed env inbound magic rest) (answered : (readAck rest).1 = true)
    (timeout : env.streamTimeoutSet = .ok ()) :
    ∃ conn, connectUpstream none env inbound = .ok conn ∧ conn.isChain = true := by
  refine ⟨⟨⟨(readAck rest).2, [(probe, env.probeSent)]⟩, true, none, none, magic⟩, ?_, rfl⟩
  rcases waited : readAck rest with ⟨isChain, after⟩
  rw [waited] at answered
  obtain rfl : isChain = true := answered
  simp only [connectUpstream, probed.connected, probed.timeoutSet, probed.packet, probed.probeSent, timeout, waited,
    handshake]
  rfl

/-- **When an upstream is treated as a chain**: everything up to the probe succeeds, five bytes
arrive, the first of them is the opcode, and without a key the last system call succeeds too. -/
theorem treatedAsChain_iff (key : Option Key) (env : ConnectEnv) (inbound : List Arrival) :
    TreatedAsChain key env inbound ↔ (∃ magic rest, Probed env inbound magic rest ∧ (readAck rest).1 = true) ∧
      (key = none → env.streamTimeoutSet = .ok ()) := by
  unfold TreatedAsChain
  rw [nonce_written_iff]
  constructor
  · rintro (⟨conn, returned, chain⟩ | ⟨keyed, seen⟩)
    · obtain ⟨rest, encryptionKey, connected⟩ := connectUpstream_ok returned
      exact ⟨⟨conn.magicPacket, rest, connected.toProbed, connected.isChain.symm.trans chain⟩,
        fun _ => connected.streamTimeoutSet⟩
    · refine ⟨seen, fun unkeyed => ?_⟩
      rw [unkeyed] at keyed
      cases keyed
  · rintro ⟨⟨magic, rest, probed, answered⟩, timeout⟩
    cases key with
    | none => exact .inl (connectUpstream_unkeyed probed answered (timeout rfl))
    | some encKey => exact .inr ⟨rfl, magic, rest, probed, answered⟩

/-- **Chain detection is sound except on one kind of input**: the five bytes after the magic packet
start with the opcode of the probe and are not the acknowledgement. There, if the connection gets as
far as to notice, the upstream is treated as a chain. -/
theorem chain_detect_sound_iff (key : Option Key) (env : ConnectEnv) (inbound : List Arrival) :
    ChainDetectSound key env inbound ↔
      ¬(FalseAck inbound ∧ env.connected = .ok () ∧ env.timeoutSet = .ok () ∧ env.probeSent = .ok () ∧
        (key = none → env.streamTimeoutSet = .ok ())) := by
  unfold ChainDetectSound
  rw [treatedAsChain_iff]
  constructor
  · rintro ⟨sound, -⟩ ⟨⟨ack, ⟨magic, rest, after, packet, answer⟩, opcode, other⟩, connected, timeoutSet, probeSent, last⟩
    have answered : (readAck rest).1 = true := readAck_true.2 ⟨ack, after, answer, opcode⟩
    obtain ⟨ack', ⟨magic', rest', after', packet', answer'⟩, exactly⟩ :=
      sound ⟨⟨magic, rest, ⟨connected, timeoutSet, packet, probeSent⟩, answered⟩, last⟩
    obtain ⟨-, rfl⟩ := Prod.mk.inj (packet.symm.trans packet')
    obtain ⟨same, -⟩ := Prod.mk.inj (answer.symm.trans answer')
    obtain rfl := Except.ok.inj same
    exact other exactly
  · intro condition
    have exactly : ((∃ magic rest, Probed env inbound magic rest ∧ (readAck rest).1 = true) ∧
        (key = none → env.streamTimeoutSet = .ok ())) → ∃ ack, AckReceived inbound ack ∧ ack.toList = chainDetectAck := by
      rintro ⟨⟨magic, rest, probed, answered⟩, last⟩
      obtain ⟨ack, after, answer, opcode⟩ := readAck_true.1 answered
      refine ⟨ack, ⟨magic, rest, after, probed.packet, answer⟩, Decidable.byContradiction fun other => condition ?_⟩
      exact ⟨⟨ack, ⟨magic, rest, after, probed.packet, answer⟩, opcode, other⟩, probed.connected, probed.timeoutSet,
        probed.probeSent, last⟩
    refine ⟨exactly, fun never treated => never ?_⟩
    obtain ⟨ack, ⟨magic, rest, after, packet, answer⟩, same⟩ := exactly treated
    refine ⟨[], bytesOf after, ?_⟩
    rw [bytesOf_readExact_ok packet, List.drop_left' magic.toList_length, bytesOf_readExact_ok answer, same]
    rfl

/-- A plain server whose first sample byte is the opcode. -/
def opcodeSamples : List Arrival := (magicPacket.toList ++ [0xF0, 0x7F, 0x80, 0x7E, 0x81]).map .byte

/-- It is treated as a chain, and with a key it is sent a nonce. -/
theorem opcode_sample_taken_for_ack : ¬∀ key env inbound, ChainDetectSound key env inbound := by
  intro sound
  have packet : readExact 12 opcodeSamples =
      (.ok magicPacket, ([0xF0, 0x7F, 0x80, 0x7E, 0x81] : List UInt8).map .byte) := by decide
  have treated : TreatedAsChain (some zeroKey) calmConnect opcodeSamples := by
    refine (treatedAsChain_iff ..).2 ⟨⟨magicPacket, _, ⟨rfl, rfl, packet, rfl⟩, by decide⟩, ?_⟩
    intro unkeyed
    cases unkeyed
  obtain ⟨ack, ⟨magic, rest, after, packet', answer⟩, same⟩ := (sound _ _ _).1 treated
  obtain ⟨-, rfl⟩ := Prod.mk.inj (packet.symm.trans packet')
  have bytes := bytesOf_readExact_ok answer
  rw [same, bytesOf_map_byte] at bytes
  exact absurd (congrArg (List.take 2) bytes) (by simp [chainDetectAck])

end RtlTcp

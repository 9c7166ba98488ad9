import RtlTcp.Lib.Transition
import RtlTcp.Control
import RtlTcp.Encryption

/-!
# `spawn_master_control_thread`

The thread that reads a master's commands in multi-client serve mode. One `turn` is one
iteration of its loop; what the iteration learns from outside (the exit flag, the clock, how
device calls and socket writes end, the nonce that was generated) is its `Env`. Bytes come
from the socket as `Arrival`s, so a turn that meets a timeout in the middle of a frame drops
what it had read of it.

`command_calls` is the specification of the interpreter: the device calls, acknowledgements
and unknown-command counts are the in-order image of the frames that the rate limiter admits.
-/

namespace RtlTcp
set_option autoImplicit false
open ByteIo Transition

/-- What one iteration of a serve control loop observes besides the bytes it reads. -/
structure Env where
  shouldExit : Bool
  now : Nat
  deviceOk : Bool
  ackSent : Except ErrorKind Unit
  myNonce : Nonce
  nonceSent : Except ErrorKind Unit

/-- The variables of the control thread and what it shares with the other threads.
`written` holds every `write_all` on the master's socket. -/
structure MasterControl where
  stream : List Arrival
  written : List SocketWrite
  ctl : Mutex Controller
  agcState : AgcState
  unknownCommandCount : Nat
  encryptionNonces : Option (Nonce × Nonce)
  readCipher : Option ChaCha20
  writeCipher : Option ChaCha20
  rateLimiter : RateLimiter

namespace MasterControl

/-- The thread at the head of its loop, with a fresh device handle. -/
def start (stream : List Arrival) (agcState : AgcState) (rateLimiter : RateLimiter) : MasterControl where
  stream := stream
  written := []
  ctl := .new ⟨[]⟩
  agcState := agcState
  unknownCommandCount := 0
  encryptionNonces := none
  readCipher := none
  writeCipher := none
  rateLimiter := rateLimiter

/-- `with_control` around one device call. -/
def device (s : MasterControl) (env : Env) (c : DeviceCall) : MasterControl :=
  { s with ctl := withControl s.ctl (Controller.call c env.deviceOk) }

/-- The `CMD_CHAIN_DETECT` arm: acknowledge and, with a key, exchange nonces on the same socket. -/
def chainDetect (key : Option Key) (s : MasterControl) (env : Env) : MasterControl :=
  -- a failed acknowledgement is only logged
  let s := { s with written := s.written ++ [(chainDetectAck, env.ackSent)] }
  match key with
  | none => s
  | some key =>
    let exchange := serverNonceExchange s.stream env.myNonce env.nonceSent
    let s := { s with stream := exchange.rest, written := s.written ++ exchange.written }
    match exchange.result with
    | .ok (myNonce, peerNonce) =>
      { s with
        encryptionNonces := some (myNonce, peerNonce)
        readCipher := some (.new key peerNonce)
        writeCipher := some (.new key myNonce) }
    | .error _ => s

/-- The `match cmd` of the loop; every arm goes on with the next iteration. -/
def dispatch (key : Option Key) (s : MasterControl) (env : Env) (buf : Frame) : MasterControl :=
  match buf.cmd with
  | cmdSetFrequency =>
    let freq := u32FromBe buf.payload
    match validateFrequency freq with
    | .error _ => s
    | .ok () => s.device env (.setCenterFreq freq)
  | cmdSetSampleRate =>
    let sampleRate := u32FromBe buf.payload
    match validateSampleRate sampleRate with
    | .error _ => s
    | .ok () => s.device env (.setSampleRate sampleRate)
  | cmdSetGainMode =>
    let gainMode := i32FromBe buf.payload
    if gainMode > 0 then
      { s with agcState := s.agcState.disable.2 }.device env .disableAgc
    else
      { s with agcState := s.agcState.enable.2 }.device env .enableAgc
  | cmdSetTunerGain =>
    let gain := i32FromBe buf.payload
    match validateTunerGain gain with
    | .error _ => s
    | .ok () => s.device env (.setTunerGain gain)
  | cmdSetPpm =>
    let ppm := i32FromBe buf.payload
    match validatePpm ppm with
    | .error _ => s
    | .ok () => s.device env (.setPpm ppm)
  | cmdSetAgc =>
    let agc := u32FromBe buf.payload == 1
    if agc then
      { s with agcState := s.agcState.enable.2 }.device env .enableAgc
    else
      { s with agcState := s.agcState.disable.2 }.device env .disableAgc
  | cmdChainDetect => s.chainDetect key env
  | _ => { s with unknownCommandCount := s.unknownCommandCount + 1 }

/-- What follows a complete frame: the exit check, the rate limiter, the dispatch. -/
def process (key : Option Key) (s : MasterControl) (env : Env) (buf : Frame) : Flow × MasterControl :=
  if env.shouldExit then (.leave, s)
  else
    let (allowed, rateLimiter) := s.rateLimiter.check env.now
    let s := { s with rateLimiter := rateLimiter }
    if !allowed then (.again, s) else (.again, s.dispatch key env buf)

/-- Without a handshake, a dispatch touches neither the socket's input nor the read cipher. -/
theorem dispatch_plain {key : Option Key} {buf : Frame} (plain : key = none ∨ buf.cmd ≠ cmdChainDetect)
    (s : MasterControl) (env : Env) :
    (s.dispatch key env buf).stream = s.stream ∧ (s.dispatch key env buf).readCipher = s.readCipher := by
  unfold dispatch
  split <;> rename_i cmd
  case h_7 =>
    rcases plain with rfl | other
    · exact ⟨rfl, rfl⟩
    · exact absurd cmd other
  all_goals dsimp only
  all_goals try split
  all_goals exact ⟨rfl, rfl⟩

theorem dispatch_probe {buf : Frame} (probe : buf.cmd = cmdChainDetect) (key : Option Key) (s : MasterControl)
    (env : Env) : s.dispatch key env buf = s.chainDetect key env := by
  simp only [dispatch, probe]
  rfl

theorem process_plain {key : Option Key} {buf : Frame} (plain : key = none ∨ buf.cmd ≠ cmdChainDetect)
    (s : MasterControl) (env : Env) :
    (s.process key env buf).2.stream = s.stream ∧ (s.process key env buf).2.readCipher = s.readCipher := by
  unfold process
  dsimp only
  split
  · exact ⟨rfl, rfl⟩
  · split
    · exact ⟨rfl, rfl⟩
    · exact dispatch_plain plain ..

/-- Only the exit flag makes a complete frame the last one. -/
theorem process_again {key : Option Key} {s : MasterControl} {env : Env} {buf : Frame}
    (running : env.shouldExit = false) : (s.process key env buf).1 = .again := by
  simp only [process, running, Bool.false_eq_true, if_false]
  split <;> rfl

section
variable [ChaCha]

/-- `cipher.apply_keystream(&mut buf)` if there is a read cipher. -/
def decrypt (s : MasterControl) (buf : Frame) : Frame × MasterControl :=
  match s.readCipher with
  | some cipher => ((cipher.applyArray buf).1, { s with readCipher := some (cipher.applyArray buf).2 })
  | none => (buf, s)

/-- One iteration of the loop. -/
def turn (key : Option Key) (s : MasterControl) (env : Env) : Flow × MasterControl :=
  match readExact commandHeaderSize s.stream with
  | (.ok raw, rest) =>
    let (buf, s) := { s with stream := rest }.decrypt raw
    s.process key env buf
  | (.error e, rest) =>
    let s := { s with stream := rest }
    -- a disconnect and any other error leave the loop alike, with different log lines
    if e == .wouldBlock || e == .timedOut then (.again, s) else (.leave, s)

end

/-! ## The interpreter's specification -/

/-- The device call a frame stands for: opcode and payload as the protocol defines them. -/
def commandCall (buf : Frame) : Option DeviceCall :=
  let u := u32FromBe buf.payload
  let i := i32FromBe buf.payload
  if buf.cmd = 0x01 then if u.toNat ≤ 2200000000 then some (.setCenterFreq u) else none
  else if buf.cmd = 0x02 then if u.toNat ≤ 3200000 then some (.setSampleRate u) else none
  else if buf.cmd = 0x03 then if 0 < i.toInt then some .disableAgc else some .enableAgc
  else if buf.cmd = 0x04 then if 0 ≤ i.toInt ∧ i.toInt ≤ 500 then some (.setTunerGain i) else none
  else if buf.cmd = 0x05 then if -200 ≤ i.toInt ∧ i.toInt ≤ 200 then some (.setPpm i) else none
  else if buf.cmd = 0x08 then if u.toNat = 1 then some .enableAgc else some .disableAgc
  else none

/-- The opcodes the interpreter knows. -/
def knownOpcodes : List UInt8 := [0x01, 0x02, 0x03, 0x04, 0x05, 0x08, 0xF0]

/-- The values that may reach the device. -/
def InRange : DeviceCall → Prop
  | .setCenterFreq freq => freq.toNat ≤ 2200000000
  | .setSampleRate rate => rate.toNat ≤ 3200000
  | .setTunerGain gain => 0 ≤ gain.toInt ∧ gain.toInt ≤ 500
  | .setPpm ppm => -200 ≤ ppm.toInt ∧ ppm.toInt ≤ 200
  | .enableAgc => True
  | .disableAgc => True

theorem validateFrequency_ok_iff (freq : UInt32) : validateFrequency freq = .ok () ↔ freq.toNat ≤ 2200000000 := by
  rw [validateFrequency, validate_ok_iff, UInt32.le_iff_toNat_le, UInt32.le_iff_toNat_le]
  exact and_iff_right (Nat.zero_le _)

theorem validateSampleRate_ok_iff (rate : UInt32) : validateSampleRate rate = .ok () ↔ rate.toNat ≤ 3200000 := by
  rw [validateSampleRate, validate_ok_iff, UInt32.le_iff_toNat_le, UInt32.le_iff_toNat_le]
  exact and_iff_right (Nat.zero_le _)

theorem validateTunerGain_ok_iff (gain : Int32) :
    validateTunerGain gain = .ok () ↔ 0 ≤ gain.toInt ∧ gain.toInt ≤ 500 := by
  rw [validateTunerGain, validate_ok_iff, Int32.le_iff_toInt_le, Int32.le_iff_toInt_le]
  exact Iff.rfl

theorem validatePpm_ok_iff (ppm : Int32) :
    validatePpm ppm = .ok () ↔ -200 ≤ ppm.toInt ∧ ppm.toInt ≤ 200 := by
  rw [validatePpm, validate_ok_iff, Int32.le_iff_toInt_le, Int32.le_iff_toInt_le]
  exact Iff.rfl

theorem inRange_of_commandCall {buf : Frame} {c : DeviceCall} (h : commandCall buf = some c) : InRange c := by
  simp only [commandCall] at h
  repeat' split at h
  all_goals cases h
  all_goals first | assumption | trivial

theorem int32_pos_iff (i : Int32) : i > 0 ↔ 0 < i.toInt := Int32.lt_iff_toInt_lt

theorem uint32_one_iff (u : UInt32) : (u == 1) = true ↔ u.toNat = 1 := by
  rw [beq_iff_eq, ← UInt32.toNat_inj]
  exact Iff.rfl

/-- The effect of a dispatch without a key on the outside world and on the thread. -/
structure Dispatched (s : MasterControl) (env : Env) (buf : Frame) (t : MasterControl) : Prop where
  calls : t.ctl.value.calls = s.ctl.value.calls ++ (commandCall buf).toList.map (·, env.deviceOk)
  written : t.written =
    s.written ++ if buf.cmd = 0xF0 then [([0xF0, 0x00, 0x00, 0x00, 0x00], env.ackSent)] else []
  unknown : t.unknownCommandCount = s.unknownCommandCount + if buf.cmd ∈ knownOpcodes then 0 else 1
  stream : t.stream = s.stream
  limiter : t.rateLimiter = s.rateLimiter
  cipher : t.readCipher = s.readCipher
  sound : t.ctl.poisoned = s.ctl.poisoned

/-- An arm that makes one device call. -/
theorem Dispatched.of_call {s : MasterControl} {env : Env} {buf : Frame} {c : DeviceCall} (agcState : AgcState)
    (sound : s.ctl.poisoned = false) (call : commandCall buf = some c)
    (known : buf.cmd ∈ knownOpcodes) (plain : buf.cmd ≠ 0xF0) :
    Dispatched s env buf ({ s with agcState := agcState }.device env c) where
  calls := by simp [device, withControl, sound, Controller.call, call]
  written := by simp [device, plain]
  unknown := by simp [device, known]
  stream := rfl
  limiter := rfl
  cipher := rfl
  sound := by simp [device]

/-- An arm that rejects its payload. -/
theorem Dispatched.of_reject {s : MasterControl} {env : Env} {buf : Frame} (call : commandCall buf = none)
    (known : buf.cmd ∈ knownOpcodes) (plain : buf.cmd ≠ 0xF0) : Dispatched s env buf s where
  calls := by simp [call]
  written := by simp [plain]
  unknown := by simp [known]
  stream := rfl
  limiter := rfl
  cipher := rfl
  sound := rfl

/-- An arm that checks its payload before the device call. -/
theorem Dispatched.of_checked {s : MasterControl} {env : Env} {buf : Frame} {c : DeviceCall}
    (sound : s.ctl.poisoned = false) (known : buf.cmd ∈ knownOpcodes) (plain : buf.cmd ≠ 0xF0) (check : Except String Unit) :
    (check = .ok () → commandCall buf = some c) → (check ≠ .ok () → commandCall buf = none) →
    Dispatched s env buf (match check with
      | .error _ => s
      | .ok () => s.device env c) := by
  intro accepted rejected
  cases check with
  | error message => exact .of_reject (rejected (by simp)) known plain
  | ok => exact .of_call s.agcState sound (accepted rfl) known plain

/-- **One spec for all arms of the dispatch.** -/
theorem dispatched {s : MasterControl} (sound : s.ctl.poisoned = false) (env : Env) (buf : Frame) :
    Dispatched s env buf (s.dispatch none env buf) := by
  unfold dispatch
  split <;> rename_i cmd
  · have cmd : buf.cmd = 0x01 := cmd
    have known : buf.cmd ∈ knownOpcodes := by simp [cmd, knownOpcodes]
    have plain : buf.cmd ≠ 0xF0 := by simp [cmd]
    refine .of_checked sound known plain _ ?_ ?_
    · simp +contextual [commandCall, cmd, validateFrequency_ok_iff]
    · simp +contextual [commandCall, cmd, validateFrequency_ok_iff]
  · have cmd : buf.cmd = 0x02 := cmd
    have known : buf.cmd ∈ knownOpcodes := by simp [cmd, knownOpcodes]
    have plain : buf.cmd ≠ 0xF0 := by simp [cmd]
    refine .of_checked sound known plain _ ?_ ?_
    · simp +contextual [commandCall, cmd, validateSampleRate_ok_iff]
    · simp +contextual [commandCall, cmd, validateSampleRate_ok_iff]
  · have cmd : buf.cmd = 0x03 := cmd
    dsimp only
    split <;> rename_i manual <;> rw [int32_pos_iff] at manual
    · exact .of_call _ sound (by simp [commandCall, cmd, manual]) (by simp [cmd, knownOpcodes]) (by simp [cmd])
    · exact .of_call _ sound (by simp [commandCall, cmd, manual]) (by simp [cmd, knownOpcodes]) (by simp [cmd])
  · have cmd : buf.cmd = 0x04 := cmd
    have known : buf.cmd ∈ knownOpcodes := by simp [cmd, knownOpcodes]
    have plain : buf.cmd ≠ 0xF0 := by simp [cmd]
    refine .of_checked sound known plain _ ?_ ?_
    · simp +contextual [commandCall, cmd, validateTunerGain_ok_iff]
    · simp +contextual [commandCall, cmd, validateTunerGain_ok_iff]
  · have cmd : buf.cmd = 0x05 := cmd
    have known : buf.cmd ∈ knownOpcodes := by simp [cmd, knownOpcodes]
    have plain : buf.cmd ≠ 0xF0 := by simp [cmd]
    refine .of_checked sound known plain _ ?_ ?_
    · simp +contextual [commandCall, cmd, validatePpm_ok_iff]
    · simp +contextual [commandCall, cmd, validatePpm_ok_iff]
  · have cmd : buf.cmd = 0x08 := cmd
    dsimp only
    split <;> rename_i on <;> rw [uint32_one_iff] at on
    · exact .of_call _ sound (by simp [commandCall, cmd, on]) (by simp [cmd, knownOpcodes]) (by simp [cmd])
    · exact .of_call _ sound (by simp [commandCall, cmd, on]) (by simp [cmd, knownOpcodes]) (by simp [cmd])
  · have cmd : buf.cmd = 0xF0 := cmd
    exact ⟨by simp [chainDetect, commandCall, cmd], by simp [chainDetect, cmd, chainDetectAck, cmdChainDetect],
      by simp [chainDetect, cmd, knownOpcodes], rfl, rfl, rfl, rfl⟩
  · rename_i h1 h2 h3 h4 h5 h8
    have unknown : buf.cmd ∉ knownOpcodes := by
      simp only [knownOpcodes, List.mem_cons, List.not_mem_nil, or_false, not_or]
      exact ⟨h1, h2, h3, h4, h5, h8, cmd⟩
    have other : ∀ op ∈ knownOpcodes, buf.cmd ≠ op := fun op mem same => unknown (same ▸ mem)
    have call : commandCall buf = none := by
      simp [commandCall, other 0x01 (by decide), other 0x02 (by decide), other 0x03 (by decide),
        other 0x04 (by decide), other 0x05 (by decide), other 0x08 (by decide)]
    exact ⟨by simp [call], by simp [other 0xF0 (by decide)], by simp [unknown], rfl, rfl, rfl, rfl⟩

/-- Frames that arrive whole, one after the other. -/
def arrivalsOf (frames : List Frame) : List Arrival := frames.flatMap fun f => f.toList.map .byte

/-- The frames that the limiter lets through, each checked at the clock reading of its turn. -/
def admitted (r : RateLimiter) : List (Frame × Env) → List Frame
  | [] => []
  | (f, env) :: inputs =>
    if (r.check env.now).1 then f :: admitted (r.check env.now).2 inputs
    else admitted (r.check env.now).2 inputs

/-- The limiter after those turns. -/
def limiterAfter (r : RateLimiter) (inputs : List (Frame × Env)) : RateLimiter :=
  inputs.foldl (fun r p => (r.check p.2.now).2) r

theorem admitted_append (r : RateLimiter) (before after : List (Frame × Env)) :
    admitted r (before ++ after) = admitted r before ++ admitted (limiterAfter r before) after := by
  induction before generalizing r with
  | nil => rfl
  | cons p before ih =>
    obtain ⟨f, env⟩ := p
    simp only [List.cons_append, admitted, ih, limiterAfter, List.foldl_cons]
    split <;> rfl

/-- A check that rejects leaves the limiter as it was. -/
theorem check_rejected {r : RateLimiter} {now : Nat} (rejected : (r.check now).1 = false) : (r.check now).2 = r := by
  unfold RateLimiter.check at rejected ⊢
  split at rejected
  · cases rejected
  · rw [if_neg ‹_›]

/-- A frame that the limiter rejects can be taken out of the input. -/
theorem admitted_delete (r : RateLimiter) (before after : List (Frame × Env)) (f : Frame) (env : Env)
    (rejected : ((limiterAfter r before).check env.now).1 = false) :
    admitted r (before ++ (f, env) :: after) = admitted r (before ++ after) := by
  rw [admitted_append, admitted_append, admitted, check_rejected rejected, if_neg (by simp [rejected])]

/-- Only the frames and the clock readings decide which frames are admitted. -/
theorem admitted_congr {r : RateLimiter} {inputs inputs' : List (Frame × Env)}
    (same : inputs.map (fun p => (p.1, p.2.now)) = inputs'.map (fun p => (p.1, p.2.now))) :
    admitted r inputs = admitted r inputs' := by
  induction inputs generalizing r inputs' with
  | nil => simp [List.map_eq_nil_iff.1 same.symm]
  | cons p inputs ih =>
    cases inputs' with
    | nil => simp at same
    | cons p' inputs' =>
      obtain ⟨f, env⟩ := p
      obtain ⟨f', env'⟩ := p'
      simp only [List.map_cons, List.cons.injEq, Prod.mk.injEq] at same
      obtain ⟨⟨rfl, clock⟩, same⟩ := same
      simp only [admitted, clock, ih same]

/-- What a run of the loop adds to its outputs when the frames `frames` are admitted. -/
structure Interpreted (s : MasterControl) (frames : List Frame) (t : MasterControl) : Prop where
  calls : t.ctl.value.calls.map Prod.fst = s.ctl.value.calls.map Prod.fst ++ frames.filterMap commandCall
  written : t.written.map Prod.fst = s.written.map Prod.fst ++
    (frames.filter fun f => f.cmd = 0xF0).map fun _ => [0xF0, 0x00, 0x00, 0x00, 0x00]
  unknown : t.unknownCommandCount =
    s.unknownCommandCount + (frames.filter fun f => f.cmd ∉ knownOpcodes).length

theorem Interpreted.refl (s : MasterControl) : Interpreted s [] s := ⟨by simp, by simp, by simp⟩

/-- Outputs add up along a run. -/
theorem Interpreted.trans {s t u : MasterControl} {as bs : List Frame} (first : Interpreted s as t)
    (second : Interpreted t bs u) : Interpreted s (as ++ bs) u where
  calls := by rw [second.calls, first.calls, List.filterMap_append, List.append_assoc]
  written := by rw [second.written, first.written, List.filter_append, List.map_append, List.append_assoc]
  unknown := by rw [second.unknown, first.unknown, List.filter_append, List.length_append, Nat.add_assoc]

theorem Dispatched.interpreted {s t : MasterControl} {env : Env} {buf : Frame} (h : Dispatched s env buf t) :
    Interpreted s [buf] t where
  calls := by
    rw [h.calls, List.map_append, List.map_map]
    cases call : commandCall buf <;> simp [call]
  written := by
    rw [h.written]
    split <;> simp [*]
  unknown := by
    rw [h.unknown]
    split <;> simp [*]

section
variable [ChaCha]

/-- One turn that finds a complete frame, without a key and with the exit flag unset. -/
theorem turn_frame {s : MasterControl} {env : Env} {f : Frame} {rest : List Arrival}
    (running : env.shouldExit = false) (sound : s.ctl.poisoned = false) (plain : s.readCipher = none)
    (stream : s.stream = f.toList.map .byte ++ rest) :
    ∃ t, turn none s env = (.again, t) ∧ Interpreted s (admitted s.rateLimiter [(f, env)]) t ∧
      t.stream = rest ∧ t.rateLimiter = (s.rateLimiter.check env.now).2 ∧
      t.readCipher = none ∧ t.ctl.poisoned = false := by
  have read : readExact commandHeaderSize s.stream = (.ok f, rest) := by rw [stream]; exact readExact_bytes f rest
  simp only [turn, read, decrypt, plain, process, running, Bool.false_eq_true, if_false, admitted]
  by_cases allowed : (s.rateLimiter.check env.now).1 = true
  · simp only [allowed, Bool.not_true, Bool.false_eq_true, if_false, if_true]
    refine ⟨_, rfl, ?_⟩
    let limited : MasterControl :=
      { s with stream := rest, readCipher := none, rateLimiter := (s.rateLimiter.check env.now).2 }
    have effect := dispatched (s := limited) sound env f
    exact ⟨⟨effect.interpreted.calls, effect.interpreted.written, effect.interpreted.unknown⟩,
      effect.stream, effect.limiter, effect.cipher, effect.sound.trans sound⟩
  · simp only [allowed, Bool.not_false, if_true, Bool.false_eq_true, if_false]
    exact ⟨_, rfl, ⟨by simp, by simp, by simp⟩, rfl, rfl, rfl, sound⟩

theorem loop_interpreted {inputs : List (Frame × Env)} {s : MasterControl}
    (running : ∀ p ∈ inputs, p.2.shouldExit = false) (sound : s.ctl.poisoned = false)
    (plain : s.readCipher = none) (stream : s.stream = arrivalsOf (inputs.map Prod.fst)) :
    Interpreted s (admitted s.rateLimiter inputs) (loop (turn none) s (inputs.map Prod.snd)) := by
  induction inputs generalizing s with
  | nil => exact .refl s
  | cons p inputs ih =>
    obtain ⟨f, env⟩ := p
    have stream' : s.stream = f.toList.map .byte ++ arrivalsOf (inputs.map Prod.fst) := by
      rw [stream]; rfl
    obtain ⟨t, step, first, rest, limiter, plain', sound'⟩ :=
      turn_frame (running _ (List.mem_cons_self ..)) sound plain stream'
    have later := ih (fun p mem => running p (List.mem_cons_of_mem _ mem)) sound' plain' rest
    rw [List.map_cons, loop_again step]
    rw [limiter] at later
    have split_head := admitted_append s.rateLimiter [(f, env)] inputs
    rw [List.singleton_append] at split_head
    rw [split_head]
    exact first.trans later

/-- The loop without a key over frames that arrive whole, one turn for each. -/
def commandRun (agcState : AgcState) (r : RateLimiter) (inputs : List (Frame × Env)) : MasterControl :=
  loop (turn none) (start (arrivalsOf (inputs.map Prod.fst)) agcState r) (inputs.map Prod.snd)

/-- The device calls, the socket writes and the unknown-command count of a run. -/
def outputs (t : MasterControl) : List DeviceCall × List (List UInt8) × Nat :=
  (t.ctl.value.calls.map Prod.fst, t.written.map Prod.fst, t.unknownCommandCount)

theorem outputs_commandRun {inputs : List (Frame × Env)} (running : ∀ p ∈ inputs, p.2.shouldExit = false)
    (agcState : AgcState) (r : RateLimiter) :
    outputs (commandRun agcState r inputs) =
      ((admitted r inputs).filterMap commandCall,
        ((admitted r inputs).filter fun f => f.cmd = 0xF0).map fun _ => [0xF0, 0x00, 0x00, 0x00, 0x00],
        ((admitted r inputs).filter fun f => f.cmd ∉ knownOpcodes).length) := by
  have ran := loop_interpreted (s := start (arrivalsOf (inputs.map Prod.fst)) agcState r) running rfl rfl rfl
  simp only [outputs, commandRun, ran.calls, ran.written, ran.unknown]
  simp [start, Mutex.new]

/-- **The command interpreter.** For every sequence of frames, every clock and every outcome
of the device calls and socket writes, the loop without a key makes exactly the calls of the
admitted frames, in order; it acknowledges each admitted probe once and counts each other
admitted opcode once. Frames the limiter rejects and outcomes of device calls change nothing
for the frames after them, and no value out of range reaches the device. -/
theorem command_calls (inputs : List (Frame × Env)) (agcState : AgcState) (r : RateLimiter)
    (running : ∀ p ∈ inputs, p.2.shouldExit = false) :
    outputs (commandRun agcState r inputs) =
        ((admitted r inputs).filterMap commandCall,
          ((admitted r inputs).filter fun f => f.cmd = 0xF0).map fun _ => [0xF0, 0x00, 0x00, 0x00, 0x00],
          ((admitted r inputs).filter fun f => f.cmd ∉ knownOpcodes).length) ∧
      (∀ before f env after, inputs = before ++ (f, env) :: after →
        ((limiterAfter r before).check env.now).1 = false →
        outputs (commandRun agcState r inputs) = outputs (commandRun agcState r (before ++ after))) ∧
      (∀ inputs', (∀ p ∈ inputs', p.2.shouldExit = false) →
        inputs.map (fun p => (p.1, p.2.now)) = inputs'.map (fun p => (p.1, p.2.now)) →
        outputs (commandRun agcState r inputs) = outputs (commandRun agcState r inputs')) ∧
      ∀ c ∈ (outputs (commandRun agcState r inputs)).1, InRange c := by
  have image := outputs_commandRun running agcState r
  refine ⟨image, ?_, ?_, ?_⟩
  · rintro before f env after rfl rejected
    have running' : ∀ p ∈ before ++ after, p.2.shouldExit = false := fun p mem =>
      running p (by simp only [List.mem_append, List.mem_cons] at mem ⊢; tauto)
    rw [image, outputs_commandRun running', admitted_delete r before after f env rejected]
  · intro inputs' running' same
    rw [image, outputs_commandRun running', admitted_congr same]
  · rw [image]
    intro c member
    obtain ⟨f, -, call⟩ := List.mem_filterMap.1 member
    exact inRange_of_commandCall call

end

/-- A turn 100 ms after the last one, in which everything succeeds. -/
def calmEnv (turnNumber : Nat) : Env :=
  ⟨false, (turnNumber + 1) * 100000000, true, .ok (), zeroNonce, .ok ()⟩

/-- A frequency, a probe, an unknown opcode and a frequency out of range. -/
theorem command_calls_four_frames :
    letI := zeroChaCha
    outputs (commandRun .new (.new commandRateLimitInterval 0 0)
      [(⟨[0x01, 0x05, 0xFD, 0x82, 0x20], rfl⟩, calmEnv 0), (⟨[0xF0, 0x50, 0x52, 0x4F, 0x58], rfl⟩, calmEnv 1),
       (⟨[0x0D, 0, 0, 0, 0], rfl⟩, calmEnv 2), (⟨[0x01, 0xFF, 0xFF, 0xFF, 0xFF], rfl⟩, calmEnv 3)]) =
      ([.setCenterFreq 100500000], [[0xF0, 0x00, 0x00, 0x00, 0x00]], 1) := by
  let _ := zeroChaCha
  rw [(command_calls _ _ _ (by decide)).1]
  decide

end MasterControl

end RtlTcp

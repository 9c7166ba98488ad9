import Mathlib.Algebra.GroupWithZero.Nat
import Mathlib.Data.List.Perm.Subperm
import RtlTcp.Lib.Transition
import RtlTcp.Lib.BufWriter
import RtlTcp.Control

/-!
# `run_serve_single`: from the device to the client

In single mode there is no channel: the callback of `read_async` writes every buffer of the device
to the client's socket through one `BufWriter`. A write that fails asks the cancel thread to stop
the device, but the device goes on calling back until it is stopped, and what could not be
written before may be written then. The control thread writes to the same socket when it answers a
probe, and its bytes may come anywhere. `single_stream_spec` says what the client has got after any
number of callbacks.
-/

namespace RtlTcp
set_option autoImplicit false
open ByteIo Transition

/-- Where a byte on the client's socket comes from: the magic packet, the place of a byte in all that the
device has delivered, or the control thread's answer to a probe. -/
inductive Source where
  | magic
  | device (offset : Nat)
  | ack
  deriving DecidableEq, Repr

abbrev StreamCall := BufCall (Source × UInt8)

/-- The calls that the main thread makes on its `BufWriter`. -/
inductive Phase where
  | writeMagic
  | flushMagic
  /-- `write_all` and `flush` in the callback of `read_async`. -/
  | writeSamples
  | flushSamples
  /-- The flush when the function returns. -/
  | drop
  deriving DecidableEq, Repr

/-- Where the main thread is: in a call, in `read_async` between two callbacks, or at its end. -/
inductive StreamPoint where
  | calling (phase : Phase) (call : StreamCall)
  | reading
  | ended
  deriving DecidableEq, Repr

/-- Where the main thread is after a call that has returned `Ok`. -/
def Phase.next : Phase → StreamPoint
  | .writeMagic => .calling .flushMagic .flush
  | .writeSamples => .calling .flushSamples .flush
  | .flushMagic | .flushSamples => .reading
  | .drop => .ended

/-- Where the main thread is after a call that has failed: `?` returns from the function, and the callback
returns to the device. -/
def Phase.failed : Phase → StreamPoint
  | .writeMagic | .flushMagic => .calling .drop .flush
  | .writeSamples | .flushSamples => .reading
  | .drop => .ended

/-- The callback asks for the shutdown when one of its calls fails. -/
def Phase.inCallback : Phase → Bool
  | .writeSamples | .flushSamples => true
  | _ => false

/-- The call after another one is a flush. -/
theorem Phase.next_flush {phase phase' : Phase} {call : StreamCall} (next : phase.next = .calling phase' call) :
    call = .flush := by
  cases phase <;> cases next <;> rfl

theorem Phase.failed_flush {phase phase' : Phase} {call : StreamCall} (next : phase.failed = .calling phase' call) :
    call = .flush := by
  cases phase <;> cases next <;> rfl

/-- The main thread, the bytes that the device has delivered to it, what the control thread is writing, and
the bytes that the client's socket has accepted. `warnings` has an entry for each
`sender.try_send(())` of the callback, with the count of bytes that the log line names. -/
structure SingleStream where
  point : StreamPoint
  bufWriteStream : BufWriter (Source × UInt8)
  device : List UInt8
  totalBytesSent : UInt64
  warnings : List (Phase × UInt64)
  answer : List (Source × UInt8)
  socket : List (Source × UInt8)

/-- What can happen next: a step of the main thread's call, a callback of the device, the end of
`read_async`, or the control thread gets a probe or writes a part of its answer. -/
inductive StreamAct where
  | main (result : Except ErrorKind Nat)
  | device (bytes : List UInt8)
  | stop
  | probe
  | control (result : Except ErrorKind Nat)

/-- The device's bytes from an offset on. -/
def placed (start : Nat) : List UInt8 → List (Source × UInt8)
  | [] => []
  | b :: bytes => (.device start, b) :: placed (start + 1) bytes

def magicBytes : List (Source × UInt8) := magicPacket.toList.map (.magic, ·)

def ackBytes : List (Source × UInt8) := chainDetectAck.map (.ack, ·)

namespace SingleStream

/-- The control thread is running already. -/
def start (tcpBuffers : Nat) : SingleStream where
  point := .calling .writeMagic (.writeAll magicBytes)
  bufWriteStream := .withCapacity tcpBuffers
  device := []
  totalBytesSent := 0
  warnings := []
  answer := []
  socket := []

/-- A step of a call of the main thread. -/
def mainStep (s : SingleStream) (phase : Phase) (call : StreamCall) (result : Except ErrorKind Nat) :
    SingleStream :=
  let next := call.step s.bufWriteStream result
  let s := { s with bufWriteStream := next.writer, socket := s.socket ++ next.accepted }
  match next.progress with
  | .running call => { s with point := .calling phase call }
  | .returned (.ok ()) => { s with point := phase.next }
  | .returned (.error _) =>
    { s with
      point := phase.failed
      warnings := if phase.inCallback then s.warnings ++ [(phase, s.totalBytesSent)] else s.warnings }

/-- The callback of `read_async` begins: it counts its bytes and writes them. -/
def callback (s : SingleStream) (bytes : List UInt8) : SingleStream :=
  { s with
    point := .calling .writeSamples (.writeAll (placed s.device.length bytes))
    device := s.device ++ bytes
    totalBytesSent := s.totalBytesSent + UInt64.ofNat bytes.length }

def step (s : SingleStream) : StreamAct → Option SingleStream
  | .main result =>
    match s.point with
    | .calling phase call => some (s.mainStep phase call result)
    | _ => none
  | .device bytes => if s.point = .reading then some (s.callback bytes) else none
  | .stop => if s.point = .reading then some { s with point := .calling .drop .flush } else none
  | .probe => if s.answer.isEmpty then some { s with answer := ackBytes } else none
  | .control result =>
    if s.answer.isEmpty then none
    else
      match offer s.answer result with
      | (accepted, left, none) => some { s with answer := left, socket := s.socket ++ accepted }
      | (accepted, _, some _) => some { s with answer := [], socket := s.socket ++ accepted }

/-- The bytes on the socket that the main thread has written. -/
def own (s : SingleStream) : List (Source × UInt8) := s.socket.filter (·.1 ≠ .ack)

/-- What the `BufWriter` has got through, and what it holds. -/
def carried (s : SingleStream) : List (Source × UInt8) := s.own ++ s.bufWriteStream.buf

/-- What the call that is under way has still to put there. -/
def uncarried (s : SingleStream) : List (Source × UInt8) :=
  match s.point with
  | .calling _ call => call.bytes
  | _ => []

end SingleStream

/-! ## The bytes of the device -/

/-- The device's byte at an offset. -/
def sample (device : List UInt8) (i : Nat) : Source × UInt8 := (.device i, device.getD i 0)

/-- `log` has bytes of the device, those at the offsets `kept`, which are in their order. -/
structure FromDevice (device : List UInt8) (log : List (Source × UInt8)) (kept : List Nat) : Prop where
  bytes : log = kept.map (sample device)
  ordered : kept.Pairwise (· < ·)
  within : ∀ i ∈ kept, i < device.length

/-- The offsets of the device's bytes in a log. -/
def offsets (log : List (Source × UInt8)) : List Nat :=
  log.filterMap fun b =>
    match b.1 with
    | .device i => some i
    | _ => none

theorem offsets_append (log more : List (Source × UInt8)) : offsets (log ++ more) = offsets log ++ offsets more :=
  List.filterMap_append

theorem offsets_magicBytes : offsets magicBytes = [] := by decide

theorem offsets_sample (device : List UInt8) (kept : List Nat) : offsets (kept.map (sample device)) = kept := by
  induction kept with
  | nil => rfl
  | cons i kept ih => exact congrArg (i :: ·) ih

theorem placed_eq (before bytes : List UInt8) :
    placed before.length bytes = (List.range' before.length bytes.length).map (sample (before ++ bytes)) := by
  induction bytes generalizing before with
  | nil => rfl
  | cons b bytes ih =>
    have rest := ih (before ++ [b])
    rw [List.length_append, List.length_singleton, List.append_assoc, List.singleton_append] at rest
    have first : sample (before ++ b :: bytes) before.length = (.device before.length, b) := by
      simp [sample]
    rw [placed, rest, List.length_cons, List.range'_succ, List.map_cons, first]

theorem length_placed (start : Nat) (bytes : List UInt8) : (placed start bytes).length = bytes.length := by
  induction bytes generalizing start with
  | nil => rfl
  | cons b bytes ih => exact congrArg (· + 1) (ih (start + 1))

theorem offsets_placed (start : Nat) (bytes : List UInt8) : offsets (placed start bytes) = List.range' start bytes.length := by
  induction bytes generalizing start with
  | nil => rfl
  | cons b bytes ih =>
    rw [List.length_cons, List.range'_succ]
    exact congrArg (start :: ·) (ih (start + 1))

namespace FromDevice

variable {device : List UInt8} {log : List (Source × UInt8)} {kept : List Nat}

theorem other (h : FromDevice device log kept) : ∀ b ∈ log, b.1 ≠ .ack := by
  intro b member
  rw [h.bytes] at member
  obtain ⟨i, -, rfl⟩ := List.mem_map.1 member
  simp [sample]

/-- Of the first bytes of a log, the offsets are the first ones. -/
theorem front (h : FromDevice device log kept) {less : List (Source × UInt8)} (begins : less <+: log) :
    FromDevice device less (kept.take less.length) where
  bytes := by rw [List.map_take, ← h.bytes, ← List.prefix_iff_eq_take.1 begins]
  ordered := h.ordered.sublist (List.take_sublist ..)
  within i member := h.within i (List.mem_of_mem_take member)

/-- What the device delivers next comes after what it has delivered. -/
theorem more (h : FromDevice device log kept) (bytes : List UInt8) :
    FromDevice (device ++ bytes) (log ++ placed device.length bytes) (kept ++ List.range' device.length bytes.length) where
  bytes := by
    have same : kept.map (sample (device ++ bytes)) = kept.map (sample device) := by
      apply List.map_congr_left
      intro i member
      simp [sample, List.getElem?_append_left (h.within i member)]
    rw [List.map_append, same, placed_eq, ← h.bytes]
  ordered := by
    refine List.pairwise_append.2 ⟨h.ordered, List.pairwise_lt_range', fun i old j new => ?_⟩
    have := h.within i old
    have := (List.mem_range'_1.1 new).1
    omega
  within i member := by
    rw [List.length_append]
    rcases List.mem_append.1 member with old | new
    · have := h.within i old
      omega
    · have := (List.mem_range'_1.1 new).2
      omega

theorem length_le (h : FromDevice device log kept) : log.length ≤ device.length := by
  have distinct : kept.Nodup := h.ordered.imp Nat.ne_of_lt
  have inside : kept ⊆ List.range device.length := fun i member => List.mem_range.2 (h.within i member)
  have few := (distinct.subperm inside).length_le
  rw [List.length_range] at few
  rwa [h.bytes, List.length_map]

end FromDevice

/-! ## One step -/

namespace SingleStream

variable {s s' : SingleStream}

/-- What a step of a call does: the `BufWriter` takes over the bytes of the call, all of them when it returns `Ok`. -/
inductive Called (s : SingleStream) (phase : Phase) (call : StreamCall) (s' : SingleStream) : Prop where
  | running (next : StreamCall) (point : s'.point = .calling phase next) (around : next.Around s'.bufWriteStream)
      (kept : s'.carried ++ next.bytes = s.carried ++ call.bytes) (grown : s.carried <+: s'.carried)
      (warnings : s'.warnings = s.warnings) (flush : call = .flush → next = .flush)
      (short : call.Short s.bufWriteStream → next.Short s'.bufWriteStream ∧ next.bytes = call.bytes)
  | done (point : s'.point = phase.next) (kept : s'.carried = s.carried ++ call.bytes) (warnings : s'.warnings = s.warnings)
      (flushed : call = .flush → s'.bufWriteStream.buf = [])
  | failed (point : s'.point = phase.failed) (kept : s'.carried = s.carried)
      (warned : phase.inCallback = true → s'.warnings ≠ []) (quiet : phase.inCallback = false → s'.warnings = s.warnings)

theorem mainStep_called (phase : Phase) {call : StreamCall} (around : call.Around s.bufWriteStream)
    (clean : ∀ b ∈ s.bufWriteStream.buf ++ call.bytes, b.1 ≠ .ack) (result : Except ErrorKind Nat) :
    Called s phase call (s.mainStep phase call result) := by
  -- the bytes on the socket are those of the main thread
  have own : ∀ {x rest : List (Source × UInt8)}, x ++ rest = s.bufWriteStream.buf ++ call.bytes →
      (s.socket ++ x).filter (·.1 ≠ .ack) = s.own ++ x := by
    intro x rest split
    have all : x.filter (·.1 ≠ .ack) = x := by
      rw [List.filter_eq_self]
      intro b member
      simpa using clean b (split ▸ List.mem_append_left _ member)
    rw [List.filter_append, all]
    rfl
  cases BufCall.step_stepped around result with
  | running next on around kept later flush =>
    have grown := own kept
    obtain ⟨front, split⟩ := later
    have moved : (call.step s.bufWriteStream result).accepted ++ (call.step s.bufWriteStream result).writer.buf =
        s.bufWriteStream.buf ++ front := by
      rw [← split, ← List.append_assoc, ← List.append_assoc] at kept
      exact List.append_cancel_right kept
    refine .running next ?_ ?_ ?_ ?_ ?_ flush fun short => ?_
    · simp only [mainStep, on]
    · simpa only [mainStep, on] using around
    · simp only [carried, SingleStream.own, mainStep, on]
      rw [grown, List.append_assoc, List.append_assoc, kept, ← List.append_assoc]
      rfl
    · simp only [carried, SingleStream.own, mainStep, on]
      rw [grown, List.append_assoc, moved, ← List.append_assoc]
      exact List.prefix_append ..
    · simp only [mainStep, on]
    · simpa only [mainStep, on] using short.step on
  | done returned kept flushed =>
    have grown := own kept
    refine .done ?_ ?_ ?_ ?_
    · simp only [mainStep, returned]
    · simp only [carried, SingleStream.own, mainStep, returned]
      rw [grown, List.append_assoc, kept, ← List.append_assoc]
      rfl
    · simp only [mainStep, returned]
    · simpa only [mainStep, returned] using flushed
  | failed e returned nothing same =>
    refine .failed ?_ ?_ ?_ ?_
    · simp only [mainStep, returned]
    · simp only [carried, SingleStream.own, mainStep, returned, nothing, List.append_nil, same]
    · intro inCallback
      simp [mainStep, returned, inCallback]
    · intro outside
      simp [mainStep, returned, outside]

/-- Where the main thread is, and what it has carried. -/
inductive At (s : SingleStream) : Prop where
  | greeting (phase : Phase) (call : StreamCall) (point : s.point = .calling phase call)
      (early : phase = .writeMagic ∨ phase = .flushMagic ∧ call = .flush) (around : call.Around s.bufWriteStream)
      (device : s.device = []) (warnings : s.warnings = []) (packet : s.carried ++ call.bytes = magicBytes)
  | gaveUp (point : s.point = .calling .drop .flush ∨ s.point = .ended) (device : s.device = [])
      (packet : s.carried <+: magicBytes)
  | serving (log : List (Source × UInt8)) (kept : List Nat)
      (point : s.point = .reading ∨ s.point = .ended ∨ ∃ phase call, s.point = .calling phase call ∧ call.Around s.bufWriteStream ∧
        (phase = .writeSamples ∨ (phase = .flushSamples ∨ phase = .drop) ∧ call = .flush))
      (greeted : magicBytes <+: s.carried) (whole : s.carried ++ s.uncarried = magicBytes ++ log)
      (fromDevice : FromDevice s.device log kept)
      (calm : s.warnings = [] → kept = List.range s.device.length ∧ (s.point = .reading → s.bufWriteStream.buf = []))

theorem at_start (tcpBuffers : Nat) : (start tcpBuffers).At :=
  .greeting .writeMagic (.writeAll magicBytes) rfl (.inl rfl) trivial rfl rfl rfl

theorem at_reading {s : SingleStream} (serves : s.At) (reads : s.point = .reading) :
    ∃ log kept, magicBytes <+: s.carried ∧ s.carried = magicBytes ++ log ∧ FromDevice s.device log kept ∧
      (s.warnings = [] → kept = List.range s.device.length ∧ s.bufWriteStream.buf = []) := by
  cases serves with
  | greeting phase call point => cases point.symm.trans reads
  | gaveUp point => rcases point with point | point <;> cases point.symm.trans reads
  | serving log kept point greeted whole fromDevice calm =>
    refine ⟨log, kept, greeted, ?_, fromDevice, fun quiet => ⟨(calm quiet).1, (calm quiet).2 reads⟩⟩
    simpa only [uncarried, reads, List.append_nil] using whole

/-- The main thread's bytes are not the control thread's. -/
theorem At.clean (here : s.At) : ∀ b ∈ s.bufWriteStream.buf ++ s.uncarried, b.1 ≠ .ack := by
  have packet : ∀ b ∈ magicBytes, b.1 ≠ .ack := by decide
  cases here with
  | greeting phase call point early around device warnings whole =>
    intro b member
    simp only [uncarried, point] at member
    apply packet
    rw [← whole, carried, List.append_assoc]
    exact List.mem_append_right _ member
  | gaveUp point device whole =>
    intro b member
    have held : b ∈ s.bufWriteStream.buf := by
      rcases point with point | point <;> simpa [uncarried, point, BufCall.bytes] using member
    exact packet b (whole.subset (List.mem_append_right _ held))
  | serving log kept point greeted whole fromDevice calm =>
    intro b member
    have inside : b ∈ magicBytes ++ log := by
      rw [← whole, carried, List.append_assoc]
      exact List.mem_append_right _ member
    rcases List.mem_append.1 inside with first | later
    · exact packet b first
    · exact fromDevice.other b later

theorem At.around (here : s.At) {phase : Phase} {call : StreamCall} (calls : s.point = .calling phase call) :
    call.Around s.bufWriteStream := by
  cases here with
  | greeting _ _ point _ around =>
    cases point.symm.trans calls
    exact around
  | gaveUp point =>
    rcases point with point | point <;> cases point.symm.trans calls
    trivial
  | serving _ _ point =>
    rcases point with point | point | ⟨_, _, point, around, -⟩ <;> cases point.symm.trans calls
    exact around

theorem mainStep_device (s : SingleStream) (phase : Phase) (call : StreamCall) (result : Except ErrorKind Nat) :
    (s.mainStep phase call result).device = s.device ∧ (s.mainStep phase call result).totalBytesSent = s.totalBytesSent ∧
      (s.mainStep phase call result).answer = s.answer := by
  unfold mainStep
  dsimp only
  split <;> exact ⟨rfl, rfl, rfl⟩

/-- The next step of the greeting. -/
theorem At.greeting_step {phase : Phase} {call : StreamCall} (called : Called s phase call s')
    (early : phase = .writeMagic ∨ phase = .flushMagic ∧ call = .flush) (device : s'.device = []) (warnings : s.warnings = [])
    (packet : s.carried ++ call.bytes = magicBytes) : s'.At := by
  cases called with
  | running next point around kept grown same flush =>
    refine .greeting phase next point ?_ around device (same.trans warnings) (kept.trans packet)
    rcases early with first | ⟨second, flushes⟩
    · exact .inl first
    · exact .inr ⟨second, flush flushes⟩
  | done point kept same flushed =>
    have whole := kept.trans packet
    rcases early with rfl | ⟨rfl, rfl⟩
    · rw [← List.append_nil s'.carried] at whole
      exact .greeting .flushMagic .flush point (.inr ⟨rfl, rfl⟩) trivial device (same.trans warnings) whole
    · refine .serving [] [] (.inl point) (whole ▸ List.prefix_rfl) ?_ ⟨rfl, .nil, by simp⟩ fun _ => ⟨?_, fun _ => flushed rfl⟩
      · simp only [uncarried, point, Phase.next, whole]
      · rw [device]
        rfl
  | failed point kept =>
    refine .gaveUp (.inl ?_) device ?_
    · rcases early with rfl | ⟨rfl, -⟩ <;> exact point
    · rw [kept, ← packet]
      exact List.prefix_append ..

/-- The next step of the callback's `write_all`. -/
theorem At.writeSamples_step {call : StreamCall} {log : List (Source × UInt8)} {kept : List Nat}
    (called : Called s .writeSamples call s') (greeted : magicBytes <+: s.carried)
    (whole : s.carried ++ call.bytes = magicBytes ++ log) (fromDevice : FromDevice s'.device log kept)
    (calm : s.warnings = [] → kept = List.range s'.device.length) : s'.At := by
  cases called with
  | running next point around same grown warnings flush =>
    refine .serving log kept (.inr (.inr ⟨_, next, point, around, .inl rfl⟩)) (greeted.trans grown) ?_ fromDevice fun quiet => ?_
    · simp only [uncarried, point, same, whole]
    · exact ⟨calm (warnings ▸ quiet), fun reads => by cases point.symm.trans reads⟩
  | done point same warnings flushed =>
    refine .serving log kept (.inr (.inr ⟨_, .flush, point, trivial, .inr ⟨.inl rfl, rfl⟩⟩)) ?_ ?_ fromDevice fun quiet => ?_
    · rw [same]
      exact greeted.trans (List.prefix_append ..)
    · have nothing : s'.uncarried = [] := by simp only [uncarried, point, Phase.next, BufCall.bytes]
      rw [nothing, List.append_nil, same, whole]
    · exact ⟨calm (warnings ▸ quiet), fun reads => by cases point.symm.trans reads⟩
  | failed point same warned =>
    -- the bytes of the call that the `BufWriter` has not taken over are lost
    obtain ⟨less, split⟩ := greeted
    have front : less <+: log := by
      rw [← split, List.append_assoc] at whole
      exact ⟨_, List.append_cancel_left whole⟩
    refine .serving less _ (.inl point) ?_ ?_ (fromDevice.front front) fun quiet => absurd quiet (warned rfl)
    · rw [same, ← split]
      exact List.prefix_append ..
    · simp only [uncarried, point, Phase.failed, List.append_nil, same, split]

/-- The next step of a flush, after a callback's `write_all` or at the end. -/
theorem At.flush_step {phase : Phase} {log : List (Source × UInt8)} {kept : List Nat} (called : Called s phase .flush s')
    (later : phase = .flushSamples ∨ phase = .drop) (greeted : magicBytes <+: s.carried) (whole : s.carried = magicBytes ++ log)
    (fromDevice : FromDevice s'.device log kept) (calm : s.warnings = [] → kept = List.range s'.device.length) : s'.At := by
  cases called with
  | running next point around same grown warnings flush =>
    obtain rfl := flush rfl
    rw [BufCall.bytes, List.append_nil, List.append_nil] at same
    refine .serving log kept (.inr (.inr ⟨phase, .flush, point, trivial, .inr ⟨later, rfl⟩⟩)) (greeted.trans grown) ?_ fromDevice
      fun quiet => ?_
    · simp only [uncarried, point, BufCall.bytes, List.append_nil, same, whole]
    · exact ⟨calm (warnings ▸ quiet), fun reads => by cases point.symm.trans reads⟩
  | done point same warnings flushed =>
    rw [BufCall.bytes, List.append_nil] at same
    refine .serving log kept ?_ (same ▸ greeted) ?_ fromDevice fun quiet => ⟨calm (warnings ▸ quiet), fun _ => flushed rfl⟩
    · rcases later with rfl | rfl
      · exact .inl point
      · exact .inr (.inl point)
    · rcases later with rfl | rfl <;> simp only [uncarried, point, Phase.next, List.append_nil, same, whole]
  | failed point same warned unwarned =>
    rcases later with rfl | rfl
    · refine .serving log kept (.inl point) (same ▸ greeted) ?_ fromDevice fun quiet => absurd quiet (warned rfl)
      simp only [uncarried, point, Phase.failed, List.append_nil, same, whole]
    · refine .serving log kept (.inr (.inl point)) (same ▸ greeted) ?_ fromDevice fun quiet =>
        ⟨calm (unwarned rfl ▸ quiet), fun reads => ?_⟩
      · simp only [uncarried, point, Phase.failed, List.append_nil, same, whole]
      · cases point.symm.trans reads

/-- **A step of the main thread.** -/
theorem At.main (here : s.At) {phase : Phase} {call : StreamCall} (calls : s.point = .calling phase call)
    (result : Except ErrorKind Nat) : (s.mainStep phase call result).At := by
  have clean : ∀ b ∈ s.bufWriteStream.buf ++ call.bytes, b.1 ≠ .ack := by
    have clean := here.clean
    simpa only [uncarried, calls] using clean
  have called := mainStep_called phase (here.around calls) clean result
  obtain ⟨same, -, -⟩ := s.mainStep_device phase call result
  cases here with
  | greeting _ _ point early around device warnings packet =>
    cases point.symm.trans calls
    exact greeting_step called early (same.trans device) warnings packet
  | gaveUp point device packet =>
    rcases point with point | point <;> cases point.symm.trans calls
    cases called with
    | running next point around kept grown warnings flush =>
      obtain rfl := flush rfl
      rw [BufCall.bytes, List.append_nil, List.append_nil] at kept
      exact .gaveUp (.inl point) (same.trans device) (kept ▸ packet)
    | done point kept =>
      rw [BufCall.bytes, List.append_nil] at kept
      exact .gaveUp (.inr point) (same.trans device) (kept ▸ packet)
    | failed point kept => exact .gaveUp (.inr point) (same.trans device) (kept ▸ packet)
  | serving log kept point greeted whole fromDevice calm =>
    simp only [uncarried, calls] at whole
    rw [← same] at fromDevice calm
    have quiet := fun unwarned => (calm unwarned).1
    rcases point with point | point | ⟨_, _, point, around, writes | ⟨flushes, rfl⟩⟩ <;> cases point.symm.trans calls
    · obtain rfl := writes
      exact writeSamples_step called greeted whole fromDevice quiet
    · rw [BufCall.bytes, List.append_nil] at whole
      exact flush_step called flushes greeted whole fromDevice quiet

/-- The bytes that the control thread has written, piece by piece, and what it has still to write of its
answer. A piece that the socket does not take whole is the beginning of an answer. -/
def Answered (sent answer : List (Source × UInt8)) : Prop :=
  ∃ (pieces : List (List (Source × UInt8))) (last : List (Source × UInt8)),
    (∀ p ∈ pieces, p <+: ackBytes) ∧ sent = pieces.flatten ++ last ∧
    (last ++ answer = ackBytes ∨ last = [] ∧ answer = [])

/-- The bytes on the socket that the control thread has written. -/
def acks (s : SingleStream) : List (Source × UInt8) := s.socket.filter (·.1 = .ack)

theorem ackBytes_ack : ∀ b ∈ ackBytes, b.1 = .ack := by decide

theorem Answered.ack {sent answer : List (Source × UInt8)} (answered : Answered sent answer) : ∀ b ∈ answer, b.1 = .ack := by
  obtain ⟨pieces, last, -, -, whole | ⟨-, rfl⟩⟩ := answered
  · intro b member
    apply ackBytes_ack
    rw [← whole]
    exact List.mem_append_right _ member
  · intro b member
    cases member

/-- A piece ends, whole or not. -/
theorem Answered.ends {sent answer : List (Source × UInt8)} (answered : Answered sent answer) :
    ∃ pieces : List (List (Source × UInt8)), (∀ p ∈ pieces, p <+: ackBytes) ∧ sent = pieces.flatten := by
  obtain ⟨pieces, last, begins, same, rest⟩ := answered
  refine ⟨pieces ++ [last], ?_, by rw [same, List.flatten_append, List.flatten_singleton]⟩
  intro p member
  rcases List.mem_append.1 member with old | new
  · exact begins p old
  · obtain rfl := List.mem_singleton.1 new
    rcases rest with whole | ⟨rfl, -⟩
    · exact ⟨_, whole⟩
    · exact List.nil_prefix

/-- The control thread gets a probe when it has nothing more to write. -/
theorem Answered.probe {sent : List (Source × UInt8)} (answered : Answered sent []) : Answered sent ackBytes := by
  obtain ⟨pieces, begins, same⟩ := answered.ends
  exact ⟨pieces, [], begins, by rw [same, List.append_nil], .inl rfl⟩

/-- A `write` of the answer that does not fail. -/
theorem Answered.written {sent accepted left : List (Source × UInt8)} (answered : Answered sent (accepted ++ left))
    (answers : accepted ++ left ≠ []) : Answered (sent ++ accepted) left := by
  obtain ⟨pieces, last, begins, rfl, whole | ⟨-, idle⟩⟩ := answered
  · exact ⟨pieces, last ++ accepted, begins, by rw [List.append_assoc], .inl (by rw [List.append_assoc, whole])⟩
  · exact absurd idle answers

/-- A `write` of the answer that fails. -/
theorem Answered.failed {sent answer : List (Source × UInt8)} (answered : Answered sent answer) : Answered sent [] := by
  obtain ⟨pieces, begins, same⟩ := answered.ends
  exact ⟨pieces, [], begins, by rw [same, List.append_nil], .inr ⟨rfl, rfl⟩⟩

/-- At depends on the bytes of the main thread only. -/
theorem At.congr (here : s.At) (point : s'.point = s.point) (writer : s'.bufWriteStream = s.bufWriteStream)
    (device : s'.device = s.device) (warnings : s'.warnings = s.warnings) (own : s'.own = s.own) : s'.At := by
  have carried : s'.carried = s.carried := by rw [carried, carried, own, writer]
  have uncarried : s'.uncarried = s.uncarried := by rw [uncarried, uncarried, point]
  cases here with
  | greeting phase call calls early around undelivered quiet packet =>
    exact .greeting phase call (point.trans calls) early (writer ▸ around) (device.trans undelivered) (warnings.trans quiet)
      (carried ▸ packet)
  | gaveUp ended undelivered packet => exact .gaveUp (point ▸ ended) (device.trans undelivered) (carried ▸ packet)
  | serving log kept reads greeted whole fromDevice calm =>
    rw [← point, ← writer] at reads
    rw [← carried] at greeted whole
    rw [← uncarried] at whole
    rw [← device] at fromDevice
    rw [← warnings, ← device, ← point, ← writer] at calm
    exact .serving log kept reads greeted whole fromDevice calm

/-- The device calls back. -/
theorem At.callback (here : s.At) (reads : s.point = .reading) (bytes : List UInt8) : (s.callback bytes).At := by
  obtain ⟨log, kept, greeted, whole, fromDevice, calm⟩ := at_reading here reads
  refine .serving _ _ (.inr (.inr ⟨.writeSamples, _, rfl, trivial, .inl rfl⟩)) greeted ?_ (fromDevice.more bytes) fun quiet =>
    ⟨?_, ?_⟩
  · show s.carried ++ placed s.device.length bytes = _
    rw [whole, List.append_assoc]
  · show _ = List.range (s.device ++ bytes).length
    have more := List.range'_append_1 (s := 0) (m := s.device.length) (n := bytes.length)
    rw [Nat.zero_add] at more
    rw [(calm quiet).1, List.length_append, List.range_eq_range', List.range_eq_range', more]
  · intro reads
    cases reads

/-- `read_async` ends. -/
theorem At.stop (here : s.At) (reads : s.point = .reading) : At { s with point := .calling .drop .flush } := by
  obtain ⟨log, kept, greeted, whole, fromDevice, calm⟩ := at_reading here reads
  refine .serving log kept (.inr (.inr ⟨.drop, .flush, rfl, trivial, .inr ⟨.inr rfl, rfl⟩⟩)) greeted ?_ fromDevice fun quiet =>
    ⟨(calm quiet).1, fun reads => ?_⟩
  · show s.carried ++ [] = _
    rw [List.append_nil, whole]
  · cases reads

/-- What holds in every state of a session: where the main thread is, what the control thread has written, and
what is counted. -/
structure Session (s : SingleStream) : Prop where
  here : s.At
  answered : Answered s.acks s.answer
  count : s.totalBytesSent.toNat = s.device.length % 2 ^ 64

theorem session_start (tcpBuffers : Nat) : (start tcpBuffers).Session where
  here := at_start tcpBuffers
  answered := ⟨[], [], by simp, rfl, .inr ⟨rfl, rfl⟩⟩
  count := rfl

/-- The main thread writes no answer. -/
theorem At.acks_mainStep (here : s.At) {phase : Phase} {call : StreamCall} (calls : s.point = .calling phase call)
    (result : Except ErrorKind Nat) : (s.mainStep phase call result).acks = s.acks := by
  have clean := here.clean
  simp only [uncarried, calls] at clean
  have others : (call.step s.bufWriteStream result).accepted.filter (·.1 = .ack) = [] := by
    rw [List.filter_eq_nil_iff]
    intro b member
    have inside : b ∈ s.bufWriteStream.buf ++ call.bytes := by
      cases BufCall.step_stepped (here.around calls) result with
      | running next _ _ kept => exact kept ▸ List.mem_append_left _ member
      | done _ kept => exact kept ▸ List.mem_append_left _ member
      | failed e _ nothing => simp [nothing] at member
    simpa using clean b inside
  have socket : (s.mainStep phase call result).socket = s.socket ++ (call.step s.bufWriteStream result).accepted := by
    unfold mainStep
    dsimp only
    split <;> rfl
  rw [acks, socket, List.filter_append, others, List.append_nil]
  rfl

/-- The control thread puts a part of its answer on the socket. -/
theorem Session.answers (session : s.Session) {x left : List (Source × UInt8)} (acks : ∀ b ∈ x, b.1 = .ack)
    (answered : Answered (s.acks ++ x) left) : Session { s with answer := left, socket := s.socket ++ x } := by
  have others : x.filter (·.1 ≠ .ack) = [] := by
    rw [List.filter_eq_nil_iff]
    simpa using acks
  have all : x.filter (·.1 = .ack) = x := by
    rw [List.filter_eq_self]
    simpa using acks
  refine ⟨session.here.congr rfl rfl rfl rfl ?_, ?_, session.count⟩
  · show (s.socket ++ x).filter (·.1 ≠ .ack) = s.own
    rw [List.filter_append, others, List.append_nil]
    rfl
  · show Answered ((s.socket ++ x).filter (·.1 = .ack)) left
    rw [List.filter_append, all]
    exact answered

/-- One `write` of the control thread's answer. -/
theorem Session.control (session : s.Session) {result : Except ErrorKind Nat} (taken : step s (.control result) = some s') :
    s'.Session := by
  have whole := offer_whole s.answer result
  have accepts : ∀ b ∈ (offer s.answer result).1, b.1 = .ack := by
    intro b member
    exact session.answered.ack b (whole ▸ List.mem_append_left _ member)
  simp only [step] at taken
  split at taken
  · cases taken
  · rename_i busy
    split at taken <;> cases taken
    · rename_i accepted left offered
      rw [offered] at accepts whole
      refine session.answers accepts ?_
      have answered := session.answered
      rw [← whole] at answered busy
      exact answered.written (by simpa using busy)
    · rename_i accepted left e offered
      have failed : (offer s.answer result).2.2 = some e := by rw [offered]
      have nothing : accepted = [] := by
        have nothing := (offer_failed failed).1
        rwa [offered] at nothing
      rw [offered] at accepts
      refine session.answers accepts ?_
      rw [nothing, List.append_nil]
      exact session.answered.failed

/-- **Every step keeps the session.** -/
theorem session_step (s : SingleStream) (a : StreamAct) (s' : SingleStream) (session : s.Session) (taken : step s a = some s') :
    s'.Session := by
  have ⟨here, answered, count⟩ := session
  cases a with
  | main result =>
    simp only [step] at taken
    split at taken <;> cases taken
    rename_i phase call calls
    obtain ⟨device, total, answer⟩ := s.mainStep_device phase call result
    refine ⟨here.main calls result, ?_, by rw [total, device, count]⟩
    rwa [here.acks_mainStep calls, answer]
  | device bytes =>
    simp only [step] at taken
    split at taken <;> cases taken
    rename_i reads
    refine ⟨here.callback reads bytes, answered, ?_⟩
    show (s.totalBytesSent + UInt64.ofNat bytes.length).toNat = (s.device ++ bytes).length % 2 ^ 64
    rw [UInt64.toNat_add, UInt64.toNat_ofNat', count, List.length_append]
    omega
  | stop =>
    simp only [step] at taken
    split at taken <;> cases taken
    rename_i reads
    exact ⟨here.stop reads, answered, count⟩
  | probe =>
    simp only [step] at taken
    split at taken <;> cases taken
    rename_i idle
    rw [List.isEmpty_iff.1 idle] at answered
    exact ⟨here.congr rfl rfl rfl rfl rfl, answered.probe, count⟩
  | control result => exact session.control taken

/-! ## What the client gets -/

/-- What the client has got, with the offsets `kept` of the device's bytes. -/
structure Got (s : SingleStream) (kept : List Nat) : Prop where
  ordered : kept.Pairwise (· < ·)
  within : ∀ i ∈ kept, i < s.device.length
  /-- The main thread's bytes, on the socket and in the `BufWriter`; before the device is read, a part of the packet. -/
  carried : s.carried = magicBytes ++ kept.map (sample s.device) ∨ s.device = [] ∧ s.carried <+: magicBytes
  reading : s.point = .reading → s.carried = magicBytes ++ kept.map (sample s.device)
  /-- Until a shutdown is asked for, a callback that returns has got all of its bytes through. -/
  calm : s.point = .reading → s.warnings = [] →
    s.bufWriteStream.buf = [] ∧ kept = List.range s.device.length ∧ s.own.map (·.2) = magicPacket.toList ++ s.device
  /-- The control thread's bytes are answers to probes, some of them cut. -/
  answers : ∃ pieces : List (List (Source × UInt8)), (∀ p ∈ pieces, p <+: ackBytes) ∧ s.acks = pieces.flatten
  size : s.own.length ≤ 12 + s.device.length
  count : s.totalBytesSent.toNat = s.device.length % 2 ^ 64

theorem map_sample_range (device : List UInt8) : ((List.range device.length).map (sample device)).map (·.2) = device := by
  refine List.ext_getElem? fun i => ?_
  by_cases inside : i < device.length
  · simp [sample, inside]
  · simp [inside]

theorem own_length_le (s : SingleStream) : s.own.length ≤ s.carried.length := by
  rw [carried, List.length_append]
  omega

/-- Before the device is read. -/
theorem Session.early (session : s.Session) (device : s.device = []) (part : s.carried <+: magicBytes)
    (reads : s.point ≠ .reading) : s.Got [] where
  ordered := .nil
  within := by simp
  carried := .inr ⟨device, part⟩
  reading h := absurd h reads
  calm h := absurd h reads
  answers := session.answered.ends
  size := by
    have twelve : magicBytes.length = 12 := by decide
    have few := part.length_le
    have small := s.own_length_le
    omega
  count := session.count

theorem Session.got (session : s.Session) : ∃ kept, s.Got kept := by
  have here := session.here
  cases here with
  | greeting phase call point early around undelivered quiet packet =>
    exact ⟨[], session.early undelivered ⟨_, packet⟩ fun reads => by cases point.symm.trans reads⟩
  | gaveUp point undelivered part =>
    exact ⟨[], session.early undelivered part fun reads => by rcases point with point | point <;> cases point.symm.trans reads⟩
  | serving log kept point greeted whole fromDevice calm =>
    obtain ⟨less, split⟩ := greeted
    have front : less <+: log := by
      rw [← split, List.append_assoc] at whole
      exact ⟨_, List.append_cancel_left whole⟩
    have got := fromDevice.front front
    have carried : s.carried = magicBytes ++ (kept.take less.length).map (sample s.device) := by rw [← split, ← got.bytes]
    refine ⟨kept.take less.length, got.ordered, got.within, .inl carried, fun _ => carried, fun reads quiet => ?_,
      session.answered.ends, ?_, session.count⟩
    · obtain ⟨all, empty⟩ := calm quiet
      have same : less = log := by
        rw [uncarried, reads, List.append_nil, ← split] at whole
        exact List.append_cancel_left whole
      have every : kept.take less.length = List.range s.device.length := by
        rw [same, fromDevice.bytes, List.length_map, List.take_length, all]
      refine ⟨empty reads, every, ?_⟩
      have own : s.own = s.carried := by rw [SingleStream.carried, empty reads, List.append_nil]
      rw [own, carried, every, List.map_append, map_sample_range]
      rfl
    · have twelve : magicBytes.length = 12 := by decide
      have few := got.length_le
      have small := s.own_length_le
      rw [← split, List.length_append] at small
      omega

/-- **What a client of single mode gets.** For every size of the `BufWriter`, every behaviour of the
socket, any number of callbacks and of probes, in every state: the main thread has put on the socket the magic
packet and then bytes of the device in the device's order, none twice, and what the `BufWriter` still
holds comes next. As long as no shutdown was asked for, these are all bytes of the device between two
callbacks, and none is held. The other bytes on the socket are the control thread's answers. The count in
the log is that of the bytes delivered by the device. -/
theorem single_stream_spec (tcpBuffers : Nat) (acts : List StreamAct) :
    Always step (fun s => ∃ kept, s.Got kept) (start tcpBuffers) acts :=
  (always_of_along (fun s a s' session (_ : True) => session_step s a s' session) (session_start tcpBuffers) along_trivial).imp
    fun _ session => session.got

example : ((run step (start 512000) [.main (.ok 0), .main (.ok 12), .main (.ok 0), .device [1, 2], .main (.ok 0),
    .main (.ok 1), .probe, .control (.ok 5), .main (.error .wouldBlock), .device [3, 4], .main (.ok 0), .main (.ok 3)]).map
      fun s => (s.socket.map (·.2), s.warnings)) =
    some (magicPacket.toList ++ [1, 0xF0, 0, 0, 0, 0, 2, 3, 4], [(.flushSamples, 2)]) := by decide

end SingleStream

end RtlTcp

import RtlTcp.Alignment
import RtlTcp.Main.SingleStream

/-!
# I/Q alignment in single mode

The `BufWriter` of `run_serve_single` takes a buffer of the device that fits into it over as a whole or
not at all, so what a client misses are whole buffers. A longer buffer goes around it and may be cut
anywhere by a timeout. `single_alignment_iff` says that this decides whether a client that sends no probe
can tell I from Q.
-/

namespace RtlTcp.SingleStream
set_option autoImplicit false
open ByteIo Transition

variable {s s' : SingleStream}

/-- The client has got the magic packet and the device's bytes at these offsets, and they are cut between samples. -/
def ClientAligned (s : SingleStream) : Prop :=
  s.socket <+: magicBytes ++ (offsets s.socket).map (sample s.device) ∧ EvenRuns (offsets s.socket)

theorem uncarried_nil (flushes : ∀ phase call, s.point = .calling phase call → call = .flush) : s.uncarried = [] := by
  unfold uncarried
  split
  · rename_i phase call calls
    rw [flushes phase call calls]
    rfl
  · rfl

/-- What has been carried is cut between samples, and the call that is under way goes on at such a place with
all that the device has delivered since. -/
structure BetweenSamples (s : SingleStream) (start : Nat) : Prop where
  even : start % 2 = 0
  inside : start ≤ s.device.length
  whole : s.device.length % 2 = 0
  rest : offsets s.uncarried = List.range' start (s.device.length - start)
  aligned : Aligned (offsets s.carried ++ [start])
  short : s.device ≠ [] → ∀ phase call, s.point = .calling phase call → call.Short s.bufWriteStream

/-- Before the device is read. -/
theorem At.betweenSamples (here : s.At) (undelivered : s.device = []) : s.BetweenSamples 0 := by
  have nothing : offsets (s.carried ++ s.uncarried) = [] := by
    have packet := offsets_magicBytes
    cases here with
    | greeting phase call point early around device quiet whole => simpa only [uncarried, point, whole]
    | gaveUp point device part =>
      have idle : s.uncarried = [] := by
        rcases point with point | point <;> simp only [uncarried, point, BufCall.bytes]
      obtain ⟨rest, split⟩ := part
      rw [← split, offsets_append, List.append_eq_nil_iff] at packet
      rw [idle, List.append_nil, packet.1]
    | serving log kept point greeted whole fromDevice =>
      have few := fromDevice.length_le
      rw [undelivered, List.length_nil] at few
      rw [whole, List.eq_nil_of_length_eq_zero (Nat.le_zero.1 few), List.append_nil, packet]
  rw [offsets_append, List.append_eq_nil_iff] at nothing
  refine ⟨rfl, Nat.zero_le _, by rw [undelivered]; rfl, by rw [nothing.2, undelivered]; rfl, ?_, fun delivered => ?_⟩
  · rw [nothing.1]
    exact ⟨by simp, List.isChain_singleton _⟩
  · exact absurd undelivered delivered

/-- A step of a call whose bytes fit into the `BufWriter`. -/
theorem BetweenSamples.main {start : Nat} (even : s.BetweenSamples start) (here : s.At) {phase : Phase} {call : StreamCall}
    (calls : s.point = .calling phase call) (short : call.Short s.bufWriteStream) (result : Except ErrorKind Nat) :
    ∃ start, (s.mainStep phase call result).BetweenSamples start := by
  obtain ⟨even, inside, whole, rest, aligned, -⟩ := even
  have clean := here.clean
  simp only [uncarried, calls] at rest clean
  obtain ⟨same, -, -⟩ := s.mainStep_device phase call result
  rw [← same] at inside whole rest
  cases mainStep_called phase (here.around calls) clean result with
  | running next point around kept grown warnings flush goesOn =>
    obtain ⟨short, all⟩ := goesOn short
    have carried : (s.mainStep phase call result).carried = s.carried := by
      rw [all] at kept
      exact List.append_cancel_right kept
    refine ⟨start, even, inside, whole, ?_, carried ▸ aligned, fun _ _ _ calls' => ?_⟩
    · simp only [uncarried, point, all, rest]
    · cases point.symm.trans calls'
      exact short
  | done point kept =>
    have flushes : ∀ phase' call', (s.mainStep phase call result).point = .calling phase' call' → call' = .flush :=
      fun _ _ calls' => phase.next_flush (point ▸ calls')
    refine ⟨_, whole, Nat.le_refl _, whole, ?_, ?_, fun _ phase' call' calls' => ?_⟩
    · rw [uncarried_nil flushes, Nat.sub_self]
      rfl
    · have longer := aligned.extend ((s.mainStep phase call result).device.length - start)
      rw [← List.range'_append_1, ← List.append_assoc, Nat.add_sub_cancel' inside] at longer
      rw [kept, offsets_append, rest]
      exact longer
    · obtain rfl := flushes phase' call' calls'
      trivial
  | failed point kept =>
    have flushes : ∀ phase' call', (s.mainStep phase call result).point = .calling phase' call' → call' = .flush :=
      fun _ _ calls' => phase.failed_flush (point ▸ calls')
    refine ⟨_, whole, Nat.le_refl _, whole, ?_, ?_, fun _ phase' call' calls' => ?_⟩
    · rw [uncarried_nil flushes, Nat.sub_self]
      rfl
    · rw [kept]
      exact aligned.skip even whole
    · obtain rfl := flushes phase' call' calls'
      trivial

/-- Between two callbacks, all of the device's bytes have been carried or lost. -/
theorem BetweenSamples.idle {start : Nat} (even : s.BetweenSamples start) (idle : s.uncarried = []) : start = s.device.length := by
  have rest := congrArg List.length even.rest
  have inside := even.inside
  rw [idle, List.length_range'] at rest
  have : (offsets []).length = 0 := rfl
  omega

/-- The device calls back with a buffer of samples that the `BufWriter` can hold. -/
theorem BetweenSamples.callback {start : Nat} (even : s.BetweenSamples start) (reads : s.point = .reading) {bytes : List UInt8}
    (samples : bytes.length % 2 = 0) (short : bytes.length < s.bufWriteStream.capacity) :
    (s.callback bytes).BetweenSamples s.device.length := by
  have here := even.idle (by rw [uncarried, reads])
  obtain ⟨-, -, whole, -, aligned, -⟩ := even
  have size : (s.callback bytes).device.length = s.device.length + bytes.length := List.length_append
  refine ⟨whole, by omega, by omega, ?_, here ▸ aligned, ?_⟩
  · rw [size, Nat.add_sub_cancel_left]
    exact offsets_placed ..
  · intro _ phase call calls
    cases calls
    show (placed s.device.length bytes).length < s.bufWriteStream.capacity
    rwa [length_placed]

theorem BetweenSamples.stop {start : Nat} (even : s.BetweenSamples start) (reads : s.point = .reading) :
    BetweenSamples { s with point := .calling .drop .flush } start := by
  have idle : s.uncarried = [] := by rw [uncarried, reads]
  refine ⟨even.even, even.inside, even.whole, ?_, even.aligned, fun _ phase call calls => ?_⟩
  · have rest := even.rest
    rw [idle] at rest
    exact rest
  · cases calls
    trivial

/-- A session without a probe whose buffers are whole samples that the `BufWriter` can hold. -/
structure Steady (tcpBuffers : Nat) (s : SingleStream) : Prop where
  session : s.Session
  even : ∃ start, s.BetweenSamples start
  capacity : s.bufWriteStream.capacity = tcpBuffers
  idle : s.answer = []
  silent : s.acks = []

theorem steady_start (tcpBuffers : Nat) : Steady tcpBuffers (start tcpBuffers) where
  session := session_start tcpBuffers
  even := ⟨0, (at_start tcpBuffers).betweenSamples rfl⟩
  capacity := rfl
  idle := rfl
  silent := rfl

theorem mainStep_capacity (s : SingleStream) (phase : Phase) (call : StreamCall) (result : Except ErrorKind Nat) :
    (s.mainStep phase call result).bufWriteStream.capacity = s.bufWriteStream.capacity := by
  have same := BufCall.step_capacity s.bufWriteStream call result
  unfold mainStep
  dsimp only
  split <;> exact same

theorem Steady.step {tcpBuffers : Nat} (steady : Steady tcpBuffers s) {a : StreamAct} (probe : a ≠ .probe)
    (samples : ∀ bytes, a = .device bytes → bytes.length % 2 = 0 ∧ bytes.length < tcpBuffers)
    (taken : SingleStream.step s a = some s') : Steady tcpBuffers s' := by
  have session := session_step s a s' steady.session taken
  obtain ⟨⟨here, -, -⟩, ⟨start, even⟩, capacity, idle, silent⟩ := steady
  cases a with
  | main result =>
    simp only [SingleStream.step] at taken
    split at taken <;> cases taken
    rename_i phase call calls
    obtain ⟨device, -, answer⟩ := s.mainStep_device phase call result
    refine ⟨session, ?_, (mainStep_capacity ..).trans capacity, answer.trans idle, (here.acks_mainStep calls result).trans silent⟩
    by_cases undelivered : s.device = []
    · exact ⟨0, session.here.betweenSamples (device.trans undelivered)⟩
    · exact even.main here calls (even.short undelivered phase call calls) result
  | device bytes =>
    simp only [SingleStream.step] at taken
    split at taken <;> cases taken
    rename_i reads
    obtain ⟨samples, short⟩ := samples bytes rfl
    exact ⟨session, ⟨_, even.callback reads samples (capacity ▸ short)⟩, capacity, idle, silent⟩
  | stop =>
    simp only [SingleStream.step] at taken
    split at taken <;> cases taken
    rename_i reads
    exact ⟨session, ⟨start, even.stop reads⟩, capacity, idle, silent⟩
  | probe => exact absurd rfl probe
  | control result => simp [SingleStream.step, idle] at taken

theorem Steady.clientAligned {tcpBuffers : Nat} (steady : Steady tcpBuffers s) : s.ClientAligned := by
  obtain ⟨session, ⟨start, even⟩, -, -, silent⟩ := steady
  -- all bytes on the socket are the main thread's
  have own : s.own = s.socket := by
    rw [SingleStream.own, List.filter_eq_self]
    rw [acks, List.filter_eq_nil_iff] at silent
    simpa using silent
  have begins : s.socket <+: s.carried := ⟨_, by rw [carried, own]⟩
  constructor
  · obtain ⟨kept, got⟩ := session.got
    rcases got.carried with same | ⟨-, part⟩
    · rw [same] at begins
      rcases List.prefix_or_prefix_of_prefix begins (List.prefix_append ..) with part | ⟨less, split⟩
      · exact part.trans (List.prefix_append ..)
      · rw [← split, List.prefix_append_right_inj] at begins
        have bytes : less = (kept.take less.length).map (sample s.device) := by
          rw [List.map_take]
          exact List.prefix_iff_eq_take.1 begins
        have places : offsets s.socket = kept.take less.length := by
          rw [← split, offsets_append, offsets_magicBytes, List.nil_append, bytes, offsets_sample]
          simp
        have whole : s.socket = magicBytes ++ (offsets s.socket).map (sample s.device) := by rw [places, ← bytes, split]
        exact ⟨[], by rw [List.append_nil]; exact whole⟩
    · exact (begins.trans part).trans (List.prefix_append ..)
  · obtain ⟨later, split⟩ := begins
    have aligned := even.aligned
    rw [← split, offsets_append, List.append_assoc] at aligned
    have first := aligned.take (offsets s.socket).length
    rw [List.take_left] at first
    exact first.evenRuns

/-! A `write_all` of as many bytes as the `BufWriter` has room for goes around it and may be cut anywhere. -/

theorem goes_around {n : Nat} (empty : s.bufWriteStream = .withCapacity n) {phase : Phase} {bytes : List (Source × UInt8)}
    (calls : s.point = .calling phase (.writeAll bytes)) (long : n ≤ bytes.length) :
    ∃ results : List (Except ErrorKind Nat),
      run step s (results.map .main) = some { s with point := .calling phase (.passBy bytes) } := by
  obtain ⟨point, writer, device, total, warnings, answer, socket⟩ := s
  cases empty
  cases calls
  have tooLong : ¬bytes.length < n := Nat.not_lt.2 long
  by_cases longer : n < bytes.length
  · refine ⟨[.ok 0, .ok 0], ?_⟩
    simp [run, step, mainStep, BufCall.step, BufWriter.spareCapacity, BufWriter.passOrHold, tooLong, longer]
  · refine ⟨[.ok 0], ?_⟩
    simp [run, step, mainStep, BufCall.step, BufWriter.spareCapacity, BufWriter.passOrHold, tooLong, longer]

/-- A write that the socket takes whole, and the flush after it. -/
theorem writes_whole {n : Nat} (empty : s.bufWriteStream = .withCapacity n) {phase phase' : Phase}
    {bytes : List (Source × UInt8)} (calls : s.point = .calling phase (.writeAll bytes))
    (next : phase.next = .calling phase' .flush) (reads : phase'.next = .reading)
    (nonempty : bytes ≠ []) : ∃ results : List (Except ErrorKind Nat),
      run step s (results.map .main) = some { s with point := .reading, socket := s.socket ++ bytes } := by
  obtain ⟨k, size⟩ : ∃ k, bytes.length = k + 1 := ⟨bytes.length - 1, by have := List.length_pos_of_ne_nil nonempty; omega⟩
  have all : bytes.take (k + 1) = bytes ∧ bytes.drop (k + 1) = [] := by simp [← size]
  by_cases long : n ≤ bytes.length
  · obtain ⟨results, around⟩ := goes_around empty calls long
    refine ⟨results ++ [.ok (k + 1), .ok 0, .ok 0], ?_⟩
    rw [List.map_append, run_append around]
    obtain ⟨x, xs, rfl⟩ := List.exists_cons_of_ne_nil nonempty
    simp [run, step, mainStep, BufCall.step, BufWriter.passBy, offer, all, next, reads, empty, BufWriter.withCapacity]
  · refine ⟨[.ok 0, .ok (k + 1), .ok 0], ?_⟩
    obtain ⟨point, writer, device, total, warnings, answer, socket⟩ := s
    cases empty
    cases calls
    have short : bytes.length < n := Nat.lt_of_not_le long
    simp [run, step, mainStep, BufCall.step, BufWriter.spareCapacity, BufWriter.hold, BufWriter.flushBuf, offer,
      short, nonempty, all, next, reads]

/-- A write of the callback that stops after one byte. -/
theorem writes_one {n : Nat} (empty : s.bufWriteStream = .withCapacity n) {x y : Source × UInt8} {bytes : List (Source × UInt8)}
    (calls : s.point = .calling .writeSamples (.writeAll (x :: y :: bytes))) (long : n ≤ (x :: y :: bytes).length) :
    ∃ (results : List (Except ErrorKind Nat)) (warnings : List (Phase × UInt64)),
      run step s (results.map .main) = some { s with point := .reading, socket := s.socket ++ [x], warnings := warnings } := by
  obtain ⟨results, around⟩ := goes_around empty calls long
  refine ⟨results ++ [.ok 1, .error .wouldBlock], s.warnings ++ [(.writeSamples, s.totalBytesSent)], ?_⟩
  rw [List.map_append, run_append around]
  simp [run, step, mainStep, BufCall.step, BufWriter.passBy, offer, Phase.failed, Phase.inCallback]

/-- A buffer that is cut after its first byte, and the next one as a whole: the run of one byte is odd. -/
theorem odd_run {k : Nat} : ¬EvenRuns (0 :: List.range' (k + 2) (k + 2)) := by
  intro even
  obtain ⟨run, later, shape⟩ := runs_cons (k + 2) (List.range' (k + 2 + 1) (k + 1))
  have runs_eq : runs (0 :: List.range' (k + 2) (k + 2)) = [0] :: ((k + 2) :: run) :: later := by
    rw [List.range'_succ, runs, shape]
    simp
  have odd := even.2 [0] (by rw [runs_eq, List.dropLast_cons_cons]; exact List.mem_cons_self ..)
  simp at odd

theorem callback_step (reads : s.point = .reading) (bytes : List UInt8) : step s (.device bytes) = some (s.callback bytes) := by
  simp only [step, reads, if_true]

/-- The client has got the magic packet. -/
def greeted (tcpBuffers : Nat) : SingleStream := { start tcpBuffers with point := .reading, socket := magicBytes }

/-- A session in which the socket stops after the first byte of the first buffer and takes the second one. -/
theorem cut_session {tcpBuffers usbBuffer : Nat} (long : tcpBuffers ≤ usbBuffer) {x y : UInt8} {first second : List UInt8}
    (size : (x :: y :: first).length = usbBuffer) (size' : second.length = usbBuffer) :
    ∃ greeting cut whole : List (Except ErrorKind Nat), ∃ s : SingleStream,
      run step (start tcpBuffers)
          (greeting.map .main ++ .device (x :: y :: first) :: (cut.map .main ++ .device second :: whole.map .main)) = some s ∧
        s.socket = magicBytes ++ [(.device 0, x)] ++ placed usbBuffer second := by
  subst size
  have greets : (start tcpBuffers).point = .calling .writeMagic (.writeAll magicBytes) := rfl
  obtain ⟨greeting, greeted⟩ : ∃ greeting : List (Except ErrorKind Nat),
      run step (start tcpBuffers) (greeting.map .main) = some (greeted tcpBuffers) :=
    writes_whole (n := tcpBuffers) rfl greets rfl rfl (by decide)
  have writes : (callback (SingleStream.greeted tcpBuffers) (x :: y :: first)).point =
      .calling .writeSamples (.writeAll ((.device 0, x) :: (.device 1, y) :: placed 2 first)) := rfl
  obtain ⟨cut, warnings, one⟩ := writes_one (n := tcpBuffers) rfl writes (by simpa [length_placed] using long)
  have nonempty : placed (x :: y :: first).length second ≠ [] := by
    apply List.ne_nil_of_length_pos
    rw [length_placed, size']
    exact Nat.zero_lt_succ _
  have writes' : (callback { callback (SingleStream.greeted tcpBuffers) (x :: y :: first) with
        point := .reading
        socket := magicBytes ++ [(.device 0, x)]
        warnings := warnings } second).point =
      .calling .writeSamples (.writeAll (placed (x :: y :: first).length second)) := rfl
  obtain ⟨whole, all⟩ := writes_whole (n := tcpBuffers) rfl writes' rfl rfl nonempty
  have second_called := (run_cons (callback_step rfl second)).trans all
  have first_called := (run_cons (callback_step rfl (x :: y :: first))).trans ((run_append one).trans second_called)
  exact ⟨greeting, cut, whole, _, (run_append greeted).trans first_called, rfl⟩

/-- **Single mode keeps I and Q apart exactly when the `BufWriter` can hold a buffer of the device.**
For every size of the device's buffers, a whole number of samples, and of the `BufWriter`: a client that
sends no probe gets the device's bytes in runs that start at even offsets and, but for the last, have even length,
whatever the socket does and however many buffers come, if and only if the device's buffers are
smaller than the `BufWriter`. -/
theorem single_alignment_iff (tcpBuffers usbBuffer : Nat) (positive : 0 < usbBuffer) (samples : usbBuffer % 2 = 0) :
    (∀ acts s, .probe ∉ acts → (∀ bytes, .device bytes ∈ acts → bytes.length = usbBuffer) →
        run step (start tcpBuffers) acts = some s → s.ClientAligned) ↔
      usbBuffer < tcpBuffers := by
  constructor
  · intro aligned
    by_contra fits
    obtain ⟨k, rfl⟩ : ∃ k, usbBuffer = k + 2 := ⟨usbBuffer - 2, by omega⟩
    have size : (0 :: 0 :: List.replicate k (0 : UInt8)).length = k + 2 := by simp
    obtain ⟨greeting, cut, whole, s, reached, socket⟩ := cut_session (Nat.le_of_not_lt fits) size size
    have even := (aligned _ s (by simp) (by simp) reached).2
    rw [socket, offsets_append, offsets_append, offsets_magicBytes, offsets_placed, size] at even
    exact odd_run even
  · intro fits acts s silent sizes reached
    have steady : Steady tcpBuffers s := by
      have along : Along step (fun _ a => a ≠ .probe ∧ ∀ bytes, a = .device bytes → bytes.length = usbBuffer)
          (start tcpBuffers) acts :=
        along_of_forall fun a member => ⟨fun this => silent (this ▸ member), fun bytes this => sizes bytes (this ▸ member)⟩
      refine run_along (fun s a s' steady ok taken => steady.step ok.1 (fun bytes this => ?_) taken) (steady_start tcpBuffers)
        along reached
      rw [ok.2 bytes this]
      exact ⟨samples, fits⟩
    exact steady.clientAligned

/-- Device buffers of 256 KiB, with the default `--tcp-buffers` and with a smaller one. -/
theorem single_alignment_at_sizes :
    (∀ acts s, .probe ∉ acts → (∀ bytes, .device bytes ∈ acts → bytes.length = 262144) →
        run step (start 512000) acts = some s → s.ClientAligned) ∧
      ¬∀ acts s, .probe ∉ acts → (∀ bytes, .device bytes ∈ acts → bytes.length = 262144) →
        run step (start 65536) acts = some s → s.ClientAligned := by
  refine ⟨(single_alignment_iff 512000 262144 (by decide) (by decide)).2 (by decide), fun aligned => ?_⟩
  exact absurd ((single_alignment_iff 65536 262144 (by decide) (by decide)).1 aligned) (by decide)

end RtlTcp.SingleStream

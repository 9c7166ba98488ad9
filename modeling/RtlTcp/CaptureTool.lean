import Mathlib.Algebra.GroupWithZero.Nat
import RtlTcp.Lib.Transition
import RtlTcp.Capture
import RtlTcp.Control

/-!
# `bin/capture.rs`: the capture loop

The tool takes the magic packet from the server, writes the header, and turns every read of the
socket into a chunk. Chunks are collected in a buffer that is written out when it has grown to
`buffer_mem` bytes, and at the end. `capture_loses_nothing` relates the file to what was read.
-/

namespace RtlTcp.CaptureTool
set_option autoImplicit false
open ByteIo Transition

/-- The arguments that the loop looks at: the duration in seconds, and the flush threshold. -/
structure Args where
  duration : Nat
  bufferMem : Nat

/-- What one iteration observes: the exit flag, the time at its head and after its read, in
nanoseconds since the start, and how many bytes its `read` is willing to deliver at most. -/
structure Env where
  shouldExit : Bool
  elapsed : Nat
  most : Nat
  stamp : Nat

/-- The socket, the file, the variables of the loop, the data of the reads that succeeded, and
the errors of the writes that failed. -/
structure Capture where
  stream : List Arrival
  file : SeekFile
  buf : List UInt8
  totalBytes : UInt64
  delivered : List (List UInt8)
  writeErrors : List ErrorKind
  deriving DecidableEq

/-- `Duration::from_secs`, in nanoseconds. -/
def fromSecs (secs : Nat) : Nat := secs * 1000000000

/-- The length of the read buffer. -/
def chunkSize : Nat := 512 * 1024

/-- `File::create`: a file is at most `i64::MAX` bytes long. -/
def fileCreate (faults : List (Option Nat)) : SeekFile := ⟨[], 0, some (2 ^ 63 - 1), faults⟩

/-- The program up to its loop; it exits when the magic packet or the header fails. -/
def start (stream : List Arrival) (faults : List (Option Nat)) : Option Capture :=
  match readExact 12 stream with
  | (.error _, _) => none
  | (.ok magicPayload, stream) =>
    match writeHeader (fileCreate faults) ⟨magicPayload.toList⟩ with
    | (.error _, _) => none
    | (.ok (), file) => some ⟨stream, file, [], 0, [], []⟩

/-- The data of a successful read becomes a chunk of the buffer; a full buffer is flushed. -/
def store (args : Args) (s : Capture) (stamp : Nat) (chunkData : List UInt8) : Flow × Capture :=
  let chunk : CaptureChunk := ⟨UInt64.ofNat stamp, chunkData⟩
  match writeChunk .empty chunk with
  | (.error _, _) => (.again, s)
  | (.ok (), chunkBuf) =>
    let s := { s with
      totalBytes := s.totalBytes + UInt64.ofNat chunkData.length
      buf := s.buf ++ chunkBuf.content }
    if s.buf.length ≥ args.bufferMem then
      match s.file.writeAll s.buf with
      | (.error e, file) => (.leave, { s with file := file, writeErrors := s.writeErrors ++ [e] })
      | (.ok (), file) => (.again, { s with file := file, buf := [] })
    else (.again, s)

/-- One iteration of the loop. -/
def turn (args : Args) (s : Capture) (env : Env) : Flow × Capture :=
  if env.shouldExit then (.leave, s)
  else if env.elapsed ≥ fromSecs args.duration then (.leave, s)
  else
    match read (min (env.most + 1) chunkSize) s.stream with
    | (.ok [], stream) => (.leave, { s with stream := stream })
    | (.ok (b :: bs), stream) =>
      store args { s with stream := stream, delivered := s.delivered ++ [b :: bs] } env.stamp (b :: bs)
    | (.error e, stream) =>
      if e == .wouldBlock || e == .timedOut then (.again, { s with stream := stream })
      else (.leave, { s with stream := stream })

/-- The final flush. -/
def finish (s : Capture) : Capture :=
  if !s.buf.isEmpty then
    match s.file.writeAll s.buf with
    | (.error e, file) => { s with file := file, writeErrors := s.writeErrors ++ [e] }
    | (.ok (), file) => { s with file := file }
  else s

/-- The state in which the program ends. -/
def run (args : Args) (s : Capture) (envs : List Env) : Capture := finish (loop (turn args) s envs)

/-! ## What was received -/

/-- The chunks a capture consists of: one for every read that delivers data, up to the turn in
which the loop ends. -/
def received (duration : Nat) : List Arrival → List Env → List CaptureChunk
  | _, [] => []
  | stream, env :: envs =>
    if env.shouldExit || env.elapsed ≥ fromSecs duration then []
    else
      match read (min (env.most + 1) chunkSize) stream with
      | (.ok [], _) => []
      | (.ok (b :: bs), stream) => ⟨UInt64.ofNat env.stamp, b :: bs⟩ :: received duration stream envs
      | (.error e, stream) => if e == .wouldBlock || e == .timedOut then received duration stream envs else []

/-! ## The loop against what was received -/

@[simp] theorem finish_delivered (s : Capture) : (finish s).delivered = s.delivered := by
  unfold finish
  split
  · split <;> rfl
  · rfl

@[simp] theorem finish_stream (s : Capture) : (finish s).stream = s.stream := by
  unfold finish
  split
  · split <;> rfl
  · rfl

@[simp] theorem finish_totalBytes (s : Capture) : (finish s).totalBytes = s.totalBytes := by
  unfold finish
  split
  · split <;> rfl
  · rfl

/-- A final flush forgets no failure. -/
theorem finish_writeErrors {s : Capture} (succeeded : (finish s).writeErrors = []) : s.writeErrors = [] := by
  unfold finish at succeeded
  split at succeeded
  · split at succeeded
    · simp at succeeded
    · exact succeeded
  · exact succeeded

/-- A final flush that succeeds appends the buffer. -/
theorem finish_appended {s : Capture} (atEnd : s.file.pos = s.file.content.length)
    (succeeded : (finish s).writeErrors = []) : s.file.Appended s.buf (finish s).file := by
  unfold finish at succeeded ⊢
  cases empty : s.buf.isEmpty with
  | true =>
    simp only [Bool.not_true, Bool.false_eq_true, if_false]
    rw [List.isEmpty_iff.1 empty]
    exact .refl atEnd
  | false =>
    simp only [empty, Bool.not_false, if_true] at succeeded ⊢
    split at succeeded
    · simp at succeeded
    · rename_i file wrote
      exact SeekFile.writeAll_appended atEnd wrote

/-- Writing a chunk into an empty `Vec` succeeds. -/
theorem writeChunk_vec (chunk : CaptureChunk) :
    ∃ chunkBuf, writeChunk .empty chunk = (.ok (), chunkBuf) ∧ chunkBuf.content = chunk.bytes := by
  obtain ⟨chunkBuf, wrote, -⟩ := SeekFile.writeParts_memory (f := .empty) rfl rfl
    [u64ToLe chunk.timestampNs, u32ToLe chunk.data.length, chunk.data]
  exact ⟨chunkBuf, wrote, (writeChunk_appended (w := .empty) rfl wrote).content⟩

/-- `t` is `s` after a chunk was stored: its bytes follow those already in the file and the
buffer, wherever the border between the two is now. -/
structure Stored (s : Capture) (chunk : CaptureChunk) (t : Capture) : Prop where
  stream : t.stream = s.stream
  delivered : t.delivered = s.delivered
  totalBytes : t.totalBytes = s.totalBytes + UInt64.ofNat chunk.data.length
  writeErrors : t.writeErrors = s.writeErrors
  bytes : ∃ flushed, s.file.Appended flushed t.file ∧ flushed ++ t.buf = s.buf ++ chunk.bytes

/-- `t` is `s` after a flush that failed: the buffer, with the chunk, is as it was before it. -/
structure FlushFailed (s : Capture) (chunk : CaptureChunk) (t : Capture) : Prop where
  delivered : t.delivered = s.delivered
  buf : t.buf = s.buf ++ chunk.bytes
  file : ∃ e, s.file.writeAll t.buf = (.error e, t.file)
  writeErrors : t.writeErrors ≠ []

/-- Storing a chunk keeps every byte, or ends the loop with a failed write. -/
theorem store_cases (args : Args) {s : Capture} (atEnd : s.file.pos = s.file.content.length) (stamp : Nat)
    (chunkData : List UInt8) :
    (∃ t, store args s stamp chunkData = (.again, t) ∧ Stored s ⟨UInt64.ofNat stamp, chunkData⟩ t) ∨
      ∃ t, store args s stamp chunkData = (.leave, t) ∧ FlushFailed s ⟨UInt64.ofNat stamp, chunkData⟩ t := by
  obtain ⟨chunkBuf, wrote, content⟩ := writeChunk_vec ⟨UInt64.ofNat stamp, chunkData⟩
  simp only [store, wrote, content]
  split
  · split
    · rename_i e file failed
      exact .inr ⟨_, rfl, rfl, rfl, ⟨e, failed⟩, by simp⟩
    · rename_i file flushed
      exact .inl ⟨_, rfl, rfl, rfl, rfl, rfl, _, SeekFile.writeAll_appended atEnd flushed, List.append_nil _⟩
  · exact .inl ⟨_, rfl, rfl, rfl, rfl, rfl, [], .refl atEnd, rfl⟩

/-- From `s` on, exactly the given chunks have been added to the capture: `done` has them in its
file after what was there and what was buffered. -/
structure Captured (s : Capture) (chunks : List CaptureChunk) (done : Capture) : Prop where
  file : s.file.Appended (s.buf ++ chunks.flatMap (·.bytes)) done.file
  delivered : done.delivered = s.delivered ++ chunks.map (·.data)
  totalBytes : done.totalBytes = s.totalBytes + UInt64.ofNat (chunks.map (·.data.length)).sum

/-- When the loop ends, the buffer is all that is missing. -/
theorem Captured.last {s : Capture} (atEnd : s.file.pos = s.file.content.length)
    (succeeded : (finish s).writeErrors = []) : Captured s [] (finish s) where
  file := by
    rw [List.flatMap_nil, List.append_nil]
    exact finish_appended atEnd succeeded
  delivered := by simp
  totalBytes := by simp

/-- A chunk that was stored comes before those that are captured later. -/
theorem Captured.stored {s t done : Capture} {chunk : CaptureChunk} {chunks : List CaptureChunk}
    {stream : List Arrival}
    (first : Stored { s with stream := stream, delivered := s.delivered ++ [chunk.data] } chunk t)
    (rest : Captured t chunks done) : Captured s (chunk :: chunks) done where
  file := by
    obtain ⟨flushed, appended, same⟩ := first.bytes
    have both := appended.trans rest.file
    rw [← List.append_assoc, same] at both
    simpa using both
  delivered := by
    rw [rest.delivered, first.delivered]
    simp
  totalBytes := by
    rw [rest.totalBytes, first.totalBytes, List.map_cons, List.sum_cons, UInt64.ofNat_add]
    exact UInt64.add_assoc ..

/-- What a turn does and what is received in it: the loop ends, or nothing arrives in time, or
a chunk is stored. -/
theorem turn_cases (args : Args) (s : Capture) (env : Env) (envs : List Env) :
    (∃ stream, bytesOf s.stream = bytesOf stream ∧ turn args s env = (.leave, { s with stream := stream }) ∧
      received args.duration s.stream (env :: envs) = []) ∨
    (∃ stream, bytesOf s.stream = bytesOf stream ∧ turn args s env = (.again, { s with stream := stream }) ∧
      received args.duration s.stream (env :: envs) = received args.duration stream envs) ∨
    ∃ stream data, bytesOf s.stream = data ++ bytesOf stream ∧ turn args s env =
        store args { s with stream := stream, delivered := s.delivered ++ [data] } env.stamp data ∧
      received args.duration s.stream (env :: envs) =
        ⟨UInt64.ofNat env.stamp, data⟩ :: received args.duration stream envs := by
  simp only [turn, received]
  by_cases exit : env.shouldExit = true
  · exact .inl ⟨s.stream, rfl, by simp [exit], by simp [exit]⟩
  by_cases expired : env.elapsed ≥ fromSecs args.duration
  · exact .inl ⟨s.stream, rfl, by simp [exit, expired], by simp [expired]⟩
  simp only [exit, expired, Bool.false_eq_true, if_false, decide_false, Bool.or_self]
  match taken : read (min (env.most + 1) chunkSize) s.stream with
  | (.ok [], stream) => exact .inl ⟨stream, bytesOf_read_ok taken, rfl, rfl⟩
  | (.ok (b :: bs), stream) => exact .inr (.inr ⟨stream, b :: bs, bytesOf_read_ok taken, rfl, rfl⟩)
  | (.error e, stream) =>
    have same := bytesOf_read_error taken
    cases timeout : e == .wouldBlock || e == .timedOut with
    | true => exact .inr (.inl ⟨stream, same, by simp [timeout], by simp [timeout]⟩)
    | false => exact .inl ⟨stream, same, by simp [timeout], by simp [timeout]⟩

/-- What is received and what is left are what the server sent. -/
theorem bytesOf_loop (args : Args) {envs : List Env} {s : Capture} (atEnd : s.file.pos = s.file.content.length)
    (fine : (loop (turn args) s envs).writeErrors = []) :
    bytesOf s.stream = (received args.duration s.stream envs).flatMap (·.data) ++ bytesOf (loop (turn args) s envs).stream := by
  induction envs generalizing s with
  | nil => rfl
  | cons env envs ih =>
    rcases turn_cases args s env envs with ⟨stream, rest, taken, nothing⟩ | ⟨stream, rest, taken, same⟩ |
      ⟨stream, data, rest, taken, more⟩
    · rw [loop_leave taken, nothing, rest]
      rfl
    · rw [loop_again taken] at fine ⊢
      rw [same, rest]
      exact ih (s := { s with stream := stream }) atEnd fine
    · rcases store_cases args (s := { s with stream := stream, delivered := s.delivered ++ [data] }) atEnd env.stamp data
        with ⟨t, kept, stored⟩ | ⟨t, left, failed⟩
      · rw [loop_again (taken.trans kept)] at fine ⊢
        obtain ⟨flushed, appended, -⟩ := stored.bytes
        have later := ih (s := t) appended.atEnd fine
        rw [stored.stream] at later
        rw [more, rest, later, List.flatMap_cons, List.append_assoc]
      · rw [loop_leave (taken.trans left)] at fine
        exact absurd fine failed.writeErrors

/-- **The loop invariant, carried to the end.** When no write fails, the run captures every
chunk that is received, whatever the flush threshold. -/
theorem run_captured (args : Args) {envs : List Env} {s : Capture} (atEnd : s.file.pos = s.file.content.length)
    (succeeded : (run args s envs).writeErrors = []) :
    Captured s (received args.duration s.stream envs) (run args s envs) := by
  induction envs generalizing s with
  | nil => exact .last atEnd succeeded
  | cons env envs ih =>
    unfold run at succeeded ⊢
    rcases turn_cases args s env envs with ⟨stream, -, taken, nothing⟩ | ⟨stream, -, taken, same⟩ | ⟨stream, data, -, taken, more⟩
    · rw [loop_leave taken] at succeeded ⊢
      rw [nothing]
      obtain ⟨file, delivered, total⟩ := Captured.last (s := { s with stream := stream }) atEnd succeeded
      exact ⟨file, delivered, total⟩
    · rw [loop_again taken] at succeeded ⊢
      rw [same]
      obtain ⟨file, delivered, total⟩ := ih (s := { s with stream := stream }) atEnd succeeded
      exact ⟨file, delivered, total⟩
    · rw [more]
      rcases store_cases args (s := { s with stream := stream, delivered := s.delivered ++ [data] }) atEnd env.stamp data
        with ⟨t, kept, stored⟩ | ⟨t, left, failed⟩
      · rw [loop_again (taken.trans kept)] at succeeded ⊢
        obtain ⟨flushed, appended, -⟩ := stored.bytes
        have rest := ih (s := t) appended.atEnd succeeded
        rw [stored.stream] at rest
        exact .stored stored rest
      · rw [loop_leave (taken.trans left)] at succeeded
        exact absurd (finish_writeErrors succeeded) failed.writeErrors

/-! ## Properties of what is received -/

/-- The clock readings of a run, in the order in which they are made, do not decrease, and the
nanoseconds fit into a `u64`. -/
def ClockNonDecreasing (envs : List Env) : Prop :=
  (envs.flatMap fun env => [env.elapsed, env.stamp]).Pairwise (· ≤ ·) ∧ ∀ env ∈ envs, env.stamp < 2 ^ 64

/-- A chunk that is received has the time of its turn, and its data fits into the read buffer. -/
theorem mem_received {duration : Nat} {stream : List Arrival} {envs : List Env} {chunk : CaptureChunk}
    (member : chunk ∈ received duration stream envs) :
    chunk.data.length ≤ chunkSize ∧ ∃ env ∈ envs, chunk.timestampNs = UInt64.ofNat env.stamp := by
  induction envs generalizing stream with
  | nil => cases member
  | cons env envs ih =>
    have later : ∀ {stream}, chunk ∈ received duration stream envs →
        chunk.data.length ≤ chunkSize ∧ ∃ e ∈ env :: envs, chunk.timestampNs = UInt64.ofNat e.stamp := by
      intro stream inside
      obtain ⟨small, e, among, stamp⟩ := ih inside
      exact ⟨small, e, List.mem_cons_of_mem _ among, stamp⟩
    simp only [received] at member
    split at member
    · cases member
    · split at member
      · cases member
      · rename_i b bs rest taken
        rcases List.mem_cons.1 member with rfl | inside
        · have small := length_of_read taken
          exact ⟨Nat.le_trans small (Nat.min_le_right ..), env, List.mem_cons_self .., rfl⟩
        · exact later inside
      · split at member
        · exact later member
        · cases member

/-- The timestamps of what is received do not decrease. -/
theorem received_sorted {duration : Nat} {stream : List Arrival} {envs : List Env} (clock : ClockNonDecreasing envs) :
    (received duration stream envs).Pairwise fun a b => a.timestampNs ≤ b.timestampNs := by
  induction envs generalizing stream with
  | nil => exact List.Pairwise.nil
  | cons env envs ih =>
    obtain ⟨sorted, bounded⟩ := clock
    simp only [List.flatMap_cons, List.cons_append, List.nil_append, List.pairwise_cons] at sorted
    have rest : ClockNonDecreasing envs := ⟨sorted.2.2, fun e among => bounded e (List.mem_cons_of_mem _ among)⟩
    simp only [received]
    split
    · exact List.Pairwise.nil
    · split
      · exact List.Pairwise.nil
      · refine List.pairwise_cons.2 ⟨fun chunk inside => ?_, ih rest⟩
        obtain ⟨-, e, among, stamp⟩ := mem_received inside
        have order : env.stamp ≤ e.stamp := sorted.2.1 e.stamp (List.mem_flatMap.2 ⟨e, among, by simp⟩)
        rw [stamp, UInt64.le_iff_toNat_le]
        rwa [UInt64.toNat_ofNat_of_lt' (bounded env (List.mem_cons_self ..)),
          UInt64.toNat_ofNat_of_lt' (bounded e (List.mem_cons_of_mem _ among))]
      · split
        · exact ih rest
        · exact List.Pairwise.nil

theorem sum_data_le (chunks : List CaptureChunk) :
    (chunks.map (·.data.length)).sum ≤ (chunks.flatMap (·.bytes)).length := by
  induction chunks with
  | nil => exact Nat.le_refl _
  | cons chunk chunks ih =>
    have data : chunk.data.length ≤ chunk.bytes.length := by
      simp only [CaptureChunk.bytes, List.length_append]
      omega
    simp only [List.map_cons, List.sum_cons, List.flatMap_cons, List.length_append]
    omega

/-- What the loop starts with: the header of the magic packet is in the file. -/
theorem start_some {stream : List Arrival} {faults : List (Option Nat)} {s : Capture} (begun : start stream faults = some s) :
    ∃ magicPayload, readExact 12 stream = (.ok magicPayload, s.stream) ∧ s.buf = [] ∧ s.delivered = [] ∧
      s.totalBytes = 0 ∧ (fileCreate faults).Appended (writeHeaderToVec ⟨magicPayload.toList⟩) s.file := by
  simp only [start] at begun
  split at begun
  · cases begun
  · rename_i magicPayload rest packet
    split at begun
    · cases begun
    · rename_i file wrote
      cases begun
      exact ⟨magicPayload, packet, rfl, rfl, rfl, writeHeader_appended rfl rfl wrote⟩

theorem start_writeErrors {stream : List Arrival} {faults : List (Option Nat)} {s : Capture}
    (begun : start stream faults = some s) : s.writeErrors = [] := by
  simp only [start] at begun
  split at begun
  · cases begun
  · split at begun
    · cases begun
    · cases begun
      rfl

/-- The file of a run without failed writes decodes to the magic packet and to what was received. -/
theorem run_decodes (args : Args) {stream : List Arrival} {faults : List (Option Nat)} {s : Capture}
    (begun : start stream faults = some s) {envs : List Env} (succeeded : (run args s envs).writeErrors = []) :
    ∃ magicPayload, readExact 12 stream = (.ok magicPayload, s.stream) ∧
      decode (run args s envs).file.content =
        some (.ok (⟨magicPayload.toList⟩, received args.duration s.stream envs)) ∧
      (received args.duration s.stream envs).map (·.data) = (run args s envs).delivered := by
  obtain ⟨magicPayload, packet, buf, delivered, -, header⟩ := start_some begun
  have all := run_captured args header.atEnd succeeded
  refine ⟨magicPayload, packet, ?_, ?_⟩
  · rw [(header.trans all.file).content, buf]
    exact decode_bytes (by simp) fun chunk inside => Nat.lt_of_le_of_lt (mem_received inside).1 (by decide)
  · rw [all.delivered, delivered]
    rfl

/-- The chunks have what was read, and the rest is left on the socket. -/
theorem run_reads (args : Args) {stream : List Arrival} {faults : List (Option Nat)} {s : Capture}
    (begun : start stream faults = some s) {envs : List Env} (succeeded : (run args s envs).writeErrors = []) :
    bytesOf s.stream = (received args.duration s.stream envs).flatMap (·.data) ++ bytesOf (run args s envs).stream := by
  obtain ⟨_, -, -, -, -, header⟩ := start_some begun
  rw [run, finish_stream]
  exact bytesOf_loop args header.atEnd (finish_writeErrors succeeded)

/-- **The capture tool loses nothing.** For every run in which the file's writes succeed,
whatever the reads, the timeouts and the way the loop ends: the file decodes to the magic packet
and to one chunk for each successful read, with its bytes, in order and under non-decreasing
timestamps; the data of the chunks and what is left on the socket are what the server sent;
`total_bytes` is the number of bytes read; and the file does not depend on the flush threshold. -/
theorem capture_loses_nothing (args : Args) (stream : List Arrival) (faults : List (Option Nat)) (s : Capture)
    (begun : start stream faults = some s) (envs : List Env) (clock : ClockNonDecreasing envs)
    (succeeded : (run args s envs).writeErrors = []) :
    let done := run args s envs
    let chunks := received args.duration s.stream envs
    (∃ magicPayload, readExact 12 stream = (.ok magicPayload, s.stream) ∧
      decode done.file.content = some (.ok (⟨magicPayload.toList⟩, chunks))) ∧
    bytesOf s.stream = chunks.flatMap (·.data) ++ bytesOf done.stream ∧
    chunks.map (·.data) = done.delivered ∧ (chunks.Pairwise fun a b => a.timestampNs ≤ b.timestampNs) ∧
    done.totalBytes.toNat = (chunks.map (·.data.length)).sum ∧
    ∀ bufferMem, (run { args with bufferMem := bufferMem } s envs).writeErrors = [] →
      (run { args with bufferMem := bufferMem } s envs).file.content = done.file.content := by
  obtain ⟨_, -, -, -, total, header⟩ := start_some begun
  obtain ⟨magicPayload, packet, decoded, data⟩ := run_decodes args begun succeeded
  have all := run_captured args header.atEnd succeeded
  have whole := header.trans all.file
  dsimp only
  refine ⟨⟨magicPayload, packet, decoded⟩, run_reads args begun succeeded, data, received_sorted clock, ?_, ?_⟩
  · -- a file has fewer than 2^63 bytes, so the counter has not wrapped
    have short := whole.within _ rfl (Nat.zero_le _)
    have size := sum_data_le (received args.duration s.stream envs)
    rw [whole.content] at short
    simp only [List.length_append] at short
    rw [all.totalBytes, total, UInt64.zero_add]
    apply UInt64.toNat_ofNat_of_lt'
    simp only [UInt64.size]
    omega
  · intro bufferMem succeeded'
    have other := run_captured { args with bufferMem := bufferMem } header.atEnd succeeded'
    rw [other.file.content, all.file.content]

/-- What the server sends: the magic packet, two bytes, and after a timeout a third one. -/
def shortStream : List Arrival := (magicPacket.toList ++ [1, 2]).map .byte ++ [.fail .timedOut, .byte 3]

/-- The capture of it before the loop. -/
def shortCapture : Capture where
  stream := [.byte 1, .byte 2, .fail .timedOut, .byte 3]
  file := ⟨[0x52, 0x54, 0x4C, 0x58, 1, 0, 0, 0, 12, 0, 0, 0] ++ magicPacket.toList, 24, some (2 ^ 63 - 1), []⟩
  buf := []
  totalBytes := 0
  delivered := []
  writeErrors := []

/-- The second chunk takes the buffer over its threshold; the end of the stream ends the loop. -/
theorem short_stream_captured :
    let envs : List Env := [⟨false, 0, 9, 100⟩, ⟨false, 150, 9, 150⟩, ⟨false, 200, 9, 250⟩, ⟨false, 300, 9, 300⟩]
    start shortStream [] = some shortCapture ∧ leftAfter (turn ⟨10, 16⟩) shortCapture envs = some 4 ∧
      received 10 shortCapture.stream envs = [⟨100, [1, 2]⟩, ⟨250, [3]⟩] ∧
      (run ⟨10, 16⟩ shortCapture envs).totalBytes.toNat = 3 := by
  intro envs
  have begun : start shortStream [] = some shortCapture := by decide
  have chunks : received 10 shortCapture.stream envs = [⟨100, [1, 2]⟩, ⟨250, [3]⟩] := by decide
  obtain ⟨-, -, -, -, total, -⟩ :=
    capture_loses_nothing ⟨10, 16⟩ shortStream [] shortCapture begun envs ⟨by decide, by decide⟩ (by decide)
  rw [show received 10 shortCapture.stream envs = _ from chunks] at total
  exact ⟨begun, by decide, chunks, total⟩

end RtlTcp.CaptureTool

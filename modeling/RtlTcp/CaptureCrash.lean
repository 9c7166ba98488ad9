import RtlTcp.CaptureGrammar
import RtlTcp.CaptureTool

/-!
# `bin/capture.rs`: a capture that is killed

What a capture has received but not yet written is in its buffer, and is lost when the process is
killed. A flush writes the whole buffer, and a buffer holds whole chunks, so between two flushes the
file is well formed. `killed_capture` says what is in the file and how much is not.
-/

namespace RtlTcp.CaptureTool
set_option autoImplicit false
open ByteIo Transition

/-- After a chunk was stored, all of the buffer is in the file, or the file is as it was and the buffer is
still small. -/
inductive Kept (args : Args) (s : Capture) (chunk : CaptureChunk) (t : Capture) : Prop where
  | flushed (empty : t.buf = []) (file : s.file.Appended (s.buf ++ chunk.bytes) t.file)
  | held (buf : t.buf = s.buf ++ chunk.bytes) (file : t.file = s.file) (small : t.buf.length < args.bufferMem)

theorem store_kept (args : Args) {s : Capture} (atEnd : s.file.pos = s.file.content.length) (stamp : Nat)
    (chunkData : List UInt8) :
    (∃ t, store args s stamp chunkData = (.again, t) ∧ t.stream = s.stream ∧ t.delivered = s.delivered ∧
      Kept args s ⟨UInt64.ofNat stamp, chunkData⟩ t) ∨
      ∃ t, store args s stamp chunkData = (.leave, t) ∧ t.writeErrors ≠ [] := by
  obtain ⟨chunkBuf, wrote, content⟩ := writeChunk_vec ⟨UInt64.ofNat stamp, chunkData⟩
  simp only [store, wrote, content]
  split
  · split
    · exact .inr ⟨_, rfl, by simp⟩
    · rename_i file flushed
      exact .inl ⟨_, rfl, rfl, rfl, .flushed rfl (SeekFile.writeAll_appended atEnd flushed)⟩
  · rename_i small
    exact .inl ⟨_, rfl, rfl, rfl, .held rfl rfl (Nat.lt_of_not_le small)⟩

/-- The state of a capture: of the chunks so far the first `n` are in the file and the others in the
buffer. -/
structure Saved (args : Args) (header : CaptureHeader) (chunks : List CaptureChunk) (n : Nat) (t : Capture) : Prop where
  atEnd : t.file.pos = t.file.content.length
  file : t.file.content = writeHeaderToVec header ++ (chunks.take n).flatMap (·.bytes)
  buf : t.buf = (chunks.drop n).flatMap (·.bytes)
  small : t.buf.length < max 1 args.bufferMem
  delivered : t.delivered = chunks.map (·.data)
  fits : ∀ chunk ∈ chunks, chunk.data.length < 2 ^ 32

variable {args : Args} {header : CaptureHeader} {chunks : List CaptureChunk} {n : Nat} {s t : Capture}

theorem Saved.read (saved : Saved args header chunks n s) (stream : List Arrival) :
    Saved args header chunks n { s with stream := stream } :=
  ⟨saved.atEnd, saved.file, saved.buf, saved.small, saved.delivered, saved.fits⟩

/-- **One chunk more.** -/
theorem Saved.store (saved : Saved args header chunks n s) (chunk : CaptureChunk) {stream : List Arrival}
    (fits : chunk.data.length < 2 ^ 32) (delivered : t.delivered = s.delivered ++ [chunk.data])
    (kept : Kept args { s with stream := stream, delivered := s.delivered ++ [chunk.data] } chunk t) :
    ∃ n, Saved args header (chunks ++ [chunk]) n t := by
  have all : ∀ c ∈ chunks ++ [chunk], c.data.length < 2 ^ 32 := by
    intro c member
    rcases List.mem_append.1 member with old | new
    · exact saved.fits c old
    · rw [List.mem_singleton.1 new]
      exact fits
  have data : t.delivered = (chunks ++ [chunk]).map (·.data) := by rw [delivered, saved.delivered, List.map_append]; rfl
  cases kept with
  | flushed empty file =>
    have content := file.content
    dsimp only at content
    refine ⟨(chunks ++ [chunk]).length, file.atEnd, ?_, ?_, ?_, data, all⟩
    · rw [content, saved.file, saved.buf, List.take_length, List.flatMap_append, List.flatMap_singleton, List.append_assoc,
        ← List.append_assoc ((chunks.take n).flatMap _), ← List.flatMap_append, List.take_append_drop]
    · rw [empty, List.drop_length]
      rfl
    · rw [empty, List.length_nil]
      omega
  | held buf file small =>
    -- the border between the file and the buffer stays where it is
    refine ⟨min n chunks.length, ?_, ?_, ?_, ?_, data, all⟩
    · rw [file]
      exact saved.atEnd
    · rw [file, List.take_append_of_le_length (Nat.min_le_right ..), ← List.take_take, List.take_length]
      exact saved.file
    · rw [buf, List.drop_append_of_le_length (Nat.min_le_right ..), List.flatMap_append, List.flatMap_singleton]
      dsimp only
      rw [saved.buf]
      congr 2
      rcases Nat.le_total n chunks.length with inside | beyond
      · rw [Nat.min_eq_left inside]
      · rw [Nat.min_eq_right beyond, List.drop_length, List.drop_eq_nil_of_le beyond]
    · omega

/-- The loop keeps it, up to any iteration and as long as no write fails. -/
theorem Saved.loop {envs : List Env} {s : Capture} {chunks : List CaptureChunk} {n : Nat}
    (saved : Saved args header chunks n s) (fine : (loop (turn args) s envs).writeErrors = []) :
    ∃ n, Saved args header (chunks ++ received args.duration s.stream envs) n (loop (turn args) s envs) := by
  induction envs generalizing s chunks n with
  | nil =>
    rw [received, List.append_nil]
    exact ⟨n, saved⟩
  | cons env envs ih =>
    rcases turn_cases args s env envs with ⟨stream, -, taken, nothing⟩ | ⟨stream, -, taken, more⟩ | ⟨stream, data, -, taken, more⟩
    · rw [loop_leave taken, nothing, List.append_nil]
      exact ⟨n, saved.read stream⟩
    · rw [loop_again taken] at fine ⊢
      rw [more]
      exact ih (saved.read stream) fine
    · have small : data.length < 2 ^ 32 := by
        have member : (⟨UInt64.ofNat env.stamp, data⟩ : CaptureChunk) ∈ received args.duration s.stream (env :: envs) := by
          rw [more]
          exact List.mem_cons_self
        exact Nat.lt_of_le_of_lt (mem_received member).1 (by decide)
      rcases store_kept args (s := { s with stream := stream, delivered := s.delivered ++ [data] }) saved.atEnd env.stamp data
        with ⟨t, stored, unread, delivered, kept⟩ | ⟨t, left, failed⟩
      · rw [loop_again (taken.trans stored)] at fine ⊢
        obtain ⟨n', saved'⟩ := saved.store ⟨UInt64.ofNat env.stamp, data⟩ small delivered kept
        obtain ⟨n', saved'⟩ := ih saved' fine
        refine ⟨n', ?_⟩
        rwa [unread, List.append_assoc, List.singleton_append, ← more] at saved'
      · rw [loop_leave (taken.trans left)] at fine
        exact absurd fine failed

/-- A capture that has just started. -/
theorem saved_of_start {stream : List Arrival} {faults : List (Option Nat)} (args : Args) (begun : start stream faults = some s) :
    ∃ magicPayload : Bytes 12, readExact 12 stream = (.ok magicPayload, s.stream) ∧
      Saved args ⟨magicPayload.toList⟩ [] 0 s := by
  obtain ⟨magicPayload, packet, buf, delivered, -, header⟩ := start_some begun
  refine ⟨magicPayload, packet, header.atEnd, ?_, buf, ?_, delivered, by simp⟩
  · rw [header.content]
    simp [fileCreate]
  · rw [buf, List.length_nil]
    omega

theorem Saved.decodes (saved : Saved args header chunks n t) (size : header.magicPayload.length < 2 ^ 32) :
    decode t.file.content = some (.ok (header, chunks.take n)) := by
  rw [saved.file]
  exact decode_bytes size fun chunk member => saved.fits chunk (List.mem_of_mem_take member)

/-- **What is left of a capture that is killed.** For every run of the capture, after any of its iterations
and as long as no write to the file has failed: the file is accepted and has the header and, in their
order, the first of the chunks received so far, each whole; those that are missing are in the
buffer, which is shorter than `buffer_mem` or empty. The chunks are those of the successful reads, and their
data and what is left on the socket are what the server sent. When the process is killed within a flush,
the file is a first part of a file of these chunks and one more. -/
theorem killed_capture (args : Args) (stream : List Arrival) (faults : List (Option Nat)) (s : Capture)
    (begun : start stream faults = some s) (envs : List Env) (fine : (loop (turn args) s envs).writeErrors = []) :
    let t := loop (turn args) s envs
    let chunks := received args.duration s.stream envs
    ∃ (magicPayload : Bytes 12) (n : Nat),
      bytesOf stream = magicPayload.toList ++ (chunks.flatMap (·.data) ++ bytesOf t.stream) ∧
      chunks.map (·.data) = t.delivered ∧
      decode t.file.content = some (.ok (⟨magicPayload.toList⟩, chunks.take n)) ∧
      t.buf = (chunks.drop n).flatMap (·.bytes) ∧ t.buf.length < max 1 args.bufferMem ∧
      ∀ chunk cut, t.file.content ++ (t.buf ++ CaptureChunk.bytes chunk).take cut <+:
        encodeFile ⟨magicPayload.toList⟩ (chunks ++ [chunk]) := by
  obtain ⟨magicPayload, packet, first⟩ := saved_of_start args begun
  have sent := bytesOf_loop args first.atEnd fine
  obtain ⟨n, saved⟩ := first.loop fine
  rw [List.nil_append] at saved
  dsimp only
  generalize received args.duration s.stream envs = chunks at saved sent ⊢
  have arrived : bytesOf stream = magicPayload.toList ++ bytesOf s.stream := bytesOf_readExact_ok packet
  refine ⟨magicPayload, n, sent ▸ arrived, saved.delivered.symm, saved.decodes (by simp), saved.buf, saved.small,
    fun chunk cut => ?_⟩
  rw [encodeFile_eq, saved.file, saved.buf, List.flatMap_append, List.flatMap_singleton, List.append_assoc]
  refine (List.prefix_append_right_inj _).2 ?_
  have whole : chunks.flatMap (·.bytes) ++ chunk.bytes =
      (chunks.take n).flatMap (·.bytes) ++ ((chunks.drop n).flatMap (·.bytes) ++ chunk.bytes) := by
    rw [← List.append_assoc, ← List.flatMap_append, List.take_append_drop]
  rw [whole]
  exact (List.prefix_append_right_inj _).2 (List.take_prefix ..)

/-- Killed before the flush: two bytes were received, and the file has none of them. -/
theorem killed_before_flush :
    let t := loop (turn ⟨10, 16⟩) shortCapture [⟨false, 0, 9, 100⟩]
    received 10 shortCapture.stream [⟨false, 0, 9, 100⟩] = [⟨100, [1, 2]⟩] ∧
      ∃ (magicPayload : Bytes 12) (n : Nat),
        decode t.file.content = some (.ok (⟨magicPayload.toList⟩, ([⟨100, [1, 2]⟩] : List CaptureChunk).take n)) ∧
          t.buf.length = 14 := by
  have begun : start shortStream [] = some shortCapture := by decide
  have chunks : received 10 shortCapture.stream [⟨false, 0, 9, 100⟩] = [⟨100, [1, 2]⟩] := by decide
  obtain ⟨magicPayload, n, -, -, decoded, -, -, -⟩ :=
    killed_capture ⟨10, 16⟩ shortStream [] shortCapture begun [⟨false, 0, 9, 100⟩] (by decide)
  rw [show received 10 shortCapture.stream [⟨false, 0, 9, 100⟩] = _ from chunks] at decoded
  exact ⟨chunks, magicPayload, n, decoded, by decide⟩

end RtlTcp.CaptureTool

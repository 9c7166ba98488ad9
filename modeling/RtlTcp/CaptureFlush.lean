import RtlTcp.CaptureTool

/-!
# `bin/capture.rs`: flushes that fail

When a flush within the loop fails, the loop ends with the buffer as it was, and the final flush
writes it once more from its first byte. `failed_flush_iff` says for which partial writes the file
is still a part of the capture afterwards.
-/

namespace RtlTcp.CaptureTool
set_option autoImplicit false
open ByteIo Transition

/-- The file and the buffer before the flush of the loop that fails, if one does. -/
def failedFlush (args : Args) : Capture → List Env → Option (SeekFile × List UInt8)
  | _, [] => none
  | s, env :: envs =>
    match turn args s env with
    | (.again, t) => failedFlush args t envs
    | (.leave, t) => if t.writeErrors.isEmpty then none else some (s.file, t.buf)

/-- Where the failed flush has stopped, the buffer goes on like its own beginning, as far as the
final flush comes. -/
def Overlaps (file : SeekFile) (buf : List UInt8) : Prop :=
  buf.take ((file.writeAll buf).2.accepted buf) <+: buf.drop (file.accepted buf)

instance (file : SeekFile) (buf : List UInt8) : Decidable (Overlaps file buf) :=
  inferInstanceAs (Decidable (_ <+: _))

/-- What the file should hold a part of: the header, and the chunks received when as many reads
have succeeded as in `t`. -/
def soFar (header : CaptureHeader) (chunks : List CaptureChunk) (t : Capture) : List UInt8 :=
  writeHeaderToVec header ++ (chunks.take t.delivered.length).flatMap (·.bytes)

/-- In every state of the run, and at its end, the file is a part of the capture so far. -/
def FileIntact (args : Args) (header : CaptureHeader) (s : Capture) (envs : List Env) : Prop :=
  let chunks := received args.duration s.stream envs
  (∀ j, (loop (turn args) s (envs.take j)).file.content <+: soFar header chunks (loop (turn args) s (envs.take j))) ∧
    (run args s envs).file.content <+: soFar header chunks (run args s envs)

/-! ## The loop -/

/-- No flush has failed: the file and the buffer together are `whole`. -/
structure Flushed (t : Capture) (whole : List UInt8) : Prop where
  atEnd : t.file.pos = t.file.content.length
  bytes : t.file.content ++ t.buf = whole

/-- A flush of `buf` to `file` has failed, when the two together were `whole`. -/
structure Broken (t : Capture) (whole : List UInt8) (file : SeekFile) (buf : List UInt8) : Prop where
  atEnd : file.pos = file.content.length
  bytes : file.content ++ buf = whole
  wrote : ∃ e, file.writeAll buf = (.error e, t.file)
  kept : t.buf = buf

/-- What the loop has done after some of its turns, when more of them may follow. -/
theorem loop_flushed (args : Args) (envs more : List Env) {s : Capture}
    (atEnd : s.file.pos = s.file.content.length) (clean : s.writeErrors = []) :
    let t := loop (turn args) s envs
    ∃ n, t.delivered.length = s.delivered.length + n ∧
      let whole := s.file.content ++ s.buf ++
        ((received args.duration s.stream (envs ++ more)).take n).flatMap (·.bytes)
      (failedFlush args s envs = none ∧ Flushed t whole) ∨
        ∃ file buf, failedFlush args s envs = some (file, buf) ∧ Broken t whole file buf := by
  dsimp only
  induction envs generalizing s with
  | nil => exact ⟨0, rfl, .inl ⟨rfl, atEnd, by simp [loop]⟩⟩
  | cons env envs ih =>
    rw [List.cons_append]
    rcases turn_cases args s env (envs ++ more) with
      ⟨stream, -, taken, -⟩ | ⟨stream, -, taken, same⟩ | ⟨stream, data, -, taken, chunk⟩
    · rw [loop_leave taken]
      refine ⟨0, rfl, .inl ⟨?_, atEnd, by simp⟩⟩
      simp only [failedFlush, taken, clean, List.isEmpty_nil, if_true]
    · rw [loop_again taken, same]
      simp only [failedFlush, taken]
      exact ih (s := { s with stream := stream }) atEnd clean
    · rw [chunk]
      rcases store_cases args (s := { s with stream := stream, delivered := s.delivered ++ [data] }) atEnd env.stamp data
        with ⟨t, kept, stored⟩ | ⟨t, left, failed⟩
      · rw [loop_again (taken.trans kept)]
        simp only [failedFlush, taken.trans kept]
        obtain ⟨flushed, appended, same⟩ := stored.bytes
        have grown : t.file.content ++ t.buf = s.file.content ++ s.buf ++
            (CaptureChunk.mk (UInt64.ofNat env.stamp) data).bytes := by
          rw [appended.content, List.append_assoc, same, List.append_assoc]
        have reads : t.delivered.length = s.delivered.length + 1 := by simp [stored.delivered]
        obtain ⟨n, count, rest⟩ := ih (s := t) appended.atEnd (stored.writeErrors.trans clean)
        rw [stored.stream, grown] at rest
        refine ⟨n + 1, by rw [count, reads]; omega, ?_⟩
        rw [List.take_succ_cons, List.flatMap_cons, ← List.append_assoc]
        exact rest
      · rw [loop_leave (taken.trans left)]
        have broke : t.writeErrors.isEmpty = false := by simpa using failed.writeErrors
        refine ⟨1, by simp [failed.delivered], .inr ⟨s.file, t.buf, ?_, atEnd, ?_, failed.file, rfl⟩⟩
        · simp only [failedFlush, taken.trans left, broke, Bool.false_eq_true, if_false]
        · simp [failed.buf]

/-! ## The end -/

/-- The final flush writes the buffer as far as it gets. -/
theorem finish_file (s : Capture) : (finish s).file = (s.file.writeAll s.buf).2 := by
  unfold finish
  cases empty : s.buf.isEmpty with
  | true =>
    rw [List.isEmpty_iff.1 empty]
    rfl
  | false =>
    simp only [Bool.not_false, if_true]
    split <;> simp_all


section Ends
variable {t : Capture} {whole buf : List UInt8} {file : SeekFile}

theorem Flushed.intact (flushed : Flushed t whole) : t.file.content <+: whole := ⟨t.buf, flushed.bytes⟩

/-- However far the final flush gets, it goes on where the last one has ended. -/
theorem Flushed.finish_intact (flushed : Flushed t whole) : (finish t).file.content <+: whole := by
  rw [finish_file, (SeekFile.writeAll_part flushed.atEnd t.buf).content, ← flushed.bytes]
  exact (List.prefix_append_right_inj _).2 (List.take_prefix ..)

theorem Broken.content (broken : Broken t whole file buf) :
    t.file.content = file.content ++ buf.take (file.accepted buf) := by
  obtain ⟨e, wrote⟩ := broken.wrote
  have part := (SeekFile.writeAll_part broken.atEnd buf).content
  rwa [wrote] at part

theorem Broken.intact (broken : Broken t whole file buf) : t.file.content <+: whole := by
  rw [broken.content, ← broken.bytes]
  exact (List.prefix_append_right_inj _).2 (List.take_prefix ..)

/-- After a failed flush, the final one starts the buffer over. -/
theorem Broken.finish_intact_iff (broken : Broken t whole file buf) :
    (finish t).file.content <+: whole ↔ Overlaps file buf := by
  obtain ⟨e, wrote⟩ := broken.wrote
  have ended : t.file.pos = t.file.content.length := by
    have part := (SeekFile.writeAll_part broken.atEnd buf).atEnd
    rwa [wrote] at part
  have again := (SeekFile.writeAll_part ended buf).content
  -- what the failed flush has written is at the front of both sides
  have skip : buf.take (file.accepted buf) ++ buf.take (t.file.accepted buf) <+: buf ↔
      buf.take (t.file.accepted buf) <+: buf.drop (file.accepted buf) := by
    conv_lhs => rhs; rw [← List.take_append_drop (file.accepted buf) buf]
    exact List.prefix_append_right_inj _
  rw [finish_file, broken.kept, again, broken.content, ← broken.bytes, List.append_assoc,
    List.prefix_append_right_inj, skip, Overlaps, wrote]

end Ends

/-- **What a failed flush does to the file.** In every run, whatever the outcomes of its writes: the
file is at all times a part of the header and the chunks received so far, exactly when no flush of
the loop fails or the buffer goes on, where the failed flush has stopped, like the part of it that
the final flush writes again; the latter when one of the two has written nothing. -/
theorem failed_flush_iff (args : Args) (stream : List Arrival) (faults : List (Option Nat)) (s : Capture)
    (begun : start stream faults = some s) (envs : List Env) :
    ∃ magicPayload, readExact 12 stream = (.ok magicPayload, s.stream) ∧
      (FileIntact args ⟨magicPayload.toList⟩ s envs ↔
        ∀ file buf, failedFlush args s envs = some (file, buf) → Overlaps file buf) := by
  obtain ⟨magicPayload, packet, buf, delivered, -, header⟩ := start_some begun
  have clean := start_writeErrors begun
  have whole : ∀ j, let t := loop (turn args) s (envs.take j)
      let whole := soFar ⟨magicPayload.toList⟩ (received args.duration s.stream envs) t
      (failedFlush args s (envs.take j) = none ∧ Flushed t whole) ∨
        ∃ file buf, failedFlush args s (envs.take j) = some (file, buf) ∧ Broken t whole file buf := by
    intro j
    obtain ⟨n, count, cases⟩ := loop_flushed args (envs.take j) (envs.drop j) header.atEnd clean
    have content : s.file.content = writeHeaderToVec ⟨magicPayload.toList⟩ := header.content
    rw [List.take_append_drop, content, buf, List.append_nil] at cases
    rw [delivered, List.length_nil, Nat.zero_add] at count
    dsimp only [soFar]
    rw [count]
    exact cases
  refine ⟨magicPayload, packet, ?_⟩
  have last := whole envs.length
  rw [List.take_length] at last
  constructor
  · rintro ⟨-, ended⟩ file buf failed
    rcases last with ⟨written, -⟩ | ⟨file', buf', failed', broken⟩
    · rw [written] at failed
      cases failed
    · obtain ⟨rfl, rfl⟩ := Prod.mk.inj (Option.some.inj (failed.symm.trans failed'))
      apply broken.finish_intact_iff.1
      simpa only [soFar, run, finish_delivered] using ended
  · intro overlap
    refine ⟨fun j => ?_, ?_⟩
    · rcases whole j with ⟨-, flushed⟩ | ⟨file, buf, -, broken⟩
      · exact flushed.intact
      · exact broken.intact
    · simp only [soFar, run, finish_delivered]
      rcases last with ⟨-, flushed⟩ | ⟨file, buf, failed, broken⟩
      · exact flushed.finish_intact
      · exact broken.finish_intact_iff.2 (overlap file buf failed)

/-- The outcomes of the writes: the four of the header succeed, the flush fails after three bytes. -/
def threeByteFlush : List (Option Nat) := [none, none, none, none, some 3]

/-- The flush of the first chunk fails after three bytes, and the final flush succeeds. -/
theorem failed_flush_corrupts :
    ¬∀ (args : Args) (stream : List Arrival) (faults : List (Option Nat)) (s : Capture),
      start stream faults = some s → ∀ (envs : List Env) (magicPayload : Bytes 12),
        readExact 12 stream = (.ok magicPayload, s.stream) → FileIntact args ⟨magicPayload.toList⟩ s envs := by
  intro intact
  have begun : start shortStream threeByteFlush =
      some { shortCapture with file := { shortCapture.file with faults := [some 3] } } := by decide
  have ended := (intact ⟨10, 1⟩ shortStream threeByteFlush _ begun [⟨false, 0, 9, 100⟩] magicPacket (by decide)).2
  revert ended
  decide

/-- The same flush, with a final one that fails at once: what is in the file is a part of the
capture. -/
theorem failed_final_flush_harmless :
    let s := { shortCapture with file := { shortCapture.file with faults := [some 3, some 0] } }
    start shortStream (threeByteFlush ++ [some 0]) = some s ∧
      (failedFlush ⟨10, 1⟩ s [⟨false, 0, 9, 100⟩]).isSome = true ∧
      FileIntact ⟨10, 1⟩ ⟨magicPacket.toList⟩ s [⟨false, 0, 9, 100⟩] := by
  have begun : start shortStream (threeByteFlush ++ [some 0]) =
      some { shortCapture with file := { shortCapture.file with faults := [some 3, some 0] } } := by decide
  obtain ⟨magicPayload, packet, exactly⟩ := failed_flush_iff ⟨10, 1⟩ shortStream (threeByteFlush ++ [some 0]) _ begun
    [⟨false, 0, 9, 100⟩]
  have known : readExact 12 shortStream = (.ok magicPacket, shortCapture.stream) := by decide
  obtain ⟨same, -⟩ := Prod.mk.inj (known.symm.trans packet)
  rw [← Except.ok.inj same] at exactly
  refine ⟨begun, by decide, exactly.2 fun file buf failed => ?_⟩
  have overlap : ((failedFlush ⟨10, 1⟩ { shortCapture with file := { shortCapture.file with faults := [some 3, some 0] } }
      [⟨false, 0, 9, 100⟩]).map fun b => decide (Overlaps b.1 b.2)) = some true := by decide
  rw [failed] at overlap
  exact of_decide_eq_true (Option.some.inj overlap)

end RtlTcp.CaptureTool

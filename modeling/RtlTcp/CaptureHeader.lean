import RtlTcp.CaptureGrammar

/-!
# `capture/mod.rs`: headers that nobody has tested

`read_header` on arbitrary bytes, and `write_header` on a writer that is not at its start. The
version field is read and not looked at; `header_faithful_iff` says which byte strings that
matters for. Away from the start the header is written twice, and the chunks follow the copy at
the cursor; `repair_reads_back_iff` says when a reader that begins at offset 0 gets them all the same.
-/

namespace RtlTcp
set_option autoImplicit false
open ByteIo

/-! ## Decoding -/

/-- A whole header, with a version that is not `CAPTURE_VERSION`. -/
def OtherVersion (b : List UInt8) : Prop :=
  ∃ (version len : Bytes 4) (payload : Bytes (fromLe len)) (rest : List UInt8),
    b = headerBytes version len payload ++ rest ∧ fromLe version ≠ captureVersion.toNat

/-- `read_header` consumes what `write_header` writes for the header that it returns, and rejects
every version field but the current one. -/
def HeaderFaithful (b : List UInt8) : Prop :=
  (∀ header p rest, b = p ++ rest → readHeader (b.map .byte) = (.ok header, rest.map .byte) →
    p = (writeHeader .empty header).2.content) ∧
  ∀ version : Bytes 4, (b.drop 4).take 4 = version.toList → fromLe version ≠ captureVersion.toNat →
    ∃ e, (readHeader (b.map .byte)).1 = .error e

theorem versionField {len : Bytes 4} (version : Bytes 4) (payload : Bytes (fromLe len)) (rest : List UInt8) :
    ((headerBytes version len payload ++ rest).drop 4).take 4 = version.toList := by
  rw [headerBytes, List.append_assoc, List.drop_left' captureMagic.toList_length, List.append_assoc,
    List.take_left' version.toList_length]

theorem readHeader_headerBytes {len : Bytes 4} (version : Bytes 4) (payload : Bytes (fromLe len)) (rest : List UInt8) :
    readHeader ((headerBytes version len payload ++ rest).map .byte) = (.ok ⟨payload.toList⟩, rest.map .byte) := by
  simp only [headerBytes, List.map_append, List.append_assoc, readHeader, readThen_bytes]
  rw [if_neg (not_not_intro rfl)]

/-- A header is written as it was read exactly when its version is the current one. -/
theorem writeHeaderToVec_eq_iff {len : Bytes 4} (version : Bytes 4) (payload : Bytes (fromLe len)) :
    writeHeaderToVec ⟨payload.toList⟩ = headerBytes version len payload ↔ fromLe version = captureVersion.toNat := by
  have current : u32ToLe captureVersion.toNat = version.toList ↔ fromLe version = captureVersion.toNat := by
    constructor
    · intro same
      rw [← u32ToLe_fromLe version] at same
      have fits : fromLe version < 2 ^ 32 := Nat.lt_of_lt_of_eq (fromLe_lt version) (by decide)
      have numbers := congrArg fromLe (List.Vector.eq _ _ same)
      rw [fromLe_u32 fits] at numbers
      exact numbers.symm.trans (by decide)
    · intro same
      rw [← same, u32ToLe_fromLe]
  simp only [writeHeaderToVec, headerBytes, List.Vector.toList_length, u32ToLe_fromLe, List.append_assoc,
    List.append_cancel_left_eq, List.append_cancel_right_eq, current]

/-- What `write_header` writes at position 0. -/
theorem writeHeader_empty (header : CaptureHeader) : (writeHeader .empty header).2.content = writeHeaderToVec header := by
  obtain ⟨begun, wrote, -⟩ := writeHeader_memory (w := .empty) rfl rfl header
  rw [wrote]
  exact (writeHeader_appended (w := .empty) rfl rfl wrote).content

/-- **Header decoding is faithful except on one kind of input**: a whole header with another
version than the current one, which `read_header` accepts. -/
theorem header_faithful_iff (b : List UInt8) : HeaderFaithful b ↔ ¬OtherVersion b := by
  constructor
  · rintro ⟨-, rejects⟩ ⟨version, len, payload, rest, rfl, other⟩
    obtain ⟨e, failed⟩ := rejects version (versionField version payload rest) other
    rw [readHeader_headerBytes] at failed
    cases failed
  · intro current
    refine ⟨fun header p rest split accepted => ?_, fun version field other => ?_⟩
    · obtain ⟨version, len, payload, left, whole, same, rfl⟩ := readHeader_whole accepted
      obtain rfl : rest = left := (List.map_inj_right fun a b bytes => Arrival.byte.inj bytes).1 same
      rw [split] at whole
      rw [writeHeader_empty, List.append_cancel_right whole]
      refine ((writeHeaderToVec_eq_iff version payload).2 ?_).symm
      exact Decidable.byContradiction fun other => current ⟨version, len, payload, rest, split.trans whole, other⟩
    · rcases taken : readHeader (b.map .byte) with ⟨e | header, rest⟩
      · exact ⟨e, rfl⟩
      · obtain ⟨version', len, payload, left, rfl, -, -⟩ := readHeader_whole taken
        rw [versionField] at field
        obtain rfl := List.Vector.eq _ _ field
        exact absurd ⟨version', len, payload, left, rfl, other⟩ current

/-- A header of version 2 is returned as one of version 1. -/
theorem version_two_accepted :
    ¬HeaderFaithful [0x52, 0x54, 0x4C, 0x58, 2, 0, 0, 0, 1, 0, 0, 0, 7] := by
  rintro ⟨faithful, -⟩
  have same := faithful ⟨[7]⟩ [0x52, 0x54, 0x4C, 0x58, 2, 0, 0, 0, 1, 0, 0, 0, 7] [] rfl (by decide)
  exact absurd same (by decide)

/-! ## Repairing -/

theorem length_writeHeaderToVec (header : CaptureHeader) :
    (writeHeaderToVec header).length = 12 + header.magicPayload.length := by
  simp only [writeHeaderToVec, u32ToLe, List.length_append, List.Vector.toList_length]

/-- Away from the start the header is written at the cursor, then once more over the start. -/
theorem writeHeader_away {w w' : SeekFile} {header : CaptureHeader} (away : w.pos ≠ 0) (inside : w.pos ≤ w.content.length)
    (wrote : writeHeader w header = (.ok (), w')) :
    w'.pos = w.pos + (writeHeaderToVec header).length ∧
      w'.content = SeekFile.overwrite (SeekFile.overwrite w.content w.pos (writeHeaderToVec header)) 0
        (writeHeaderToVec header) := by
  simp only [writeHeader] at wrote
  split at wrote
  · cases wrote
  · rename_i w₁ parts
    have first := SeekFile.writeParts_overwritten inside parts
    have whole : [captureMagic.toList, u32ToLe captureVersion.toNat, u32ToLe header.magicPayload.length,
        header.magicPayload].flatten = writeHeaderToVec header := by
      simp [writeHeaderToVec]
    rw [whole] at first
    rw [if_pos away] at wrote
    split at wrote
    · cases wrote
    · rename_i w₂ again
      have second := SeekFile.writeAll_overwritten (f := w₁.seek 0) (Nat.zero_le _) again
      cases wrote
      refine ⟨first.pos, ?_⟩
      rw [← first.content]
      exact second.content

theorem writeChunks_overwritten {chunks : List CaptureChunk} {w w' : SeekFile} (inside : w.pos ≤ w.content.length)
    (wrote : writeChunks w chunks = (.ok (), w')) : w.Overwritten (chunks.flatMap (·.bytes)) w' := by
  induction chunks generalizing w with
  | nil =>
    cases wrote
    exact .refl inside
  | cons chunk chunks ih =>
    simp only [writeChunks] at wrote
    split at wrote
    · rename_i w₁ first
      have head := SeekFile.writeParts_overwritten inside first
      have bytes : [u64ToLe chunk.timestampNs, u32ToLe chunk.data.length, chunk.data].flatten = chunk.bytes := by
        simp [CaptureChunk.bytes]
      rw [bytes] at head
      exact head.trans (ih head.inside' wrote)
    · rename_i failed
      exact absurd wrote (failed w')

/-- **What a repaired file is**: the header, then what the two headers have left of the old content
and of the first copy, and only then the chunks. -/
theorem repaired_content {w begun file : SeekFile} {header : CaptureHeader} {chunks : List CaptureChunk} (away : w.pos ≠ 0)
    (inside : w.pos ≤ w.content.length) (wroteHeader : writeHeader w header = (.ok (), begun))
    (wroteChunks : writeChunks begun chunks = (.ok (), file)) (covered : w.content.length ≤ file.pos) :
    file.content = writeHeaderToVec header ++
      ((w.content.take w.pos ++ writeHeaderToVec header).drop (writeHeaderToVec header).length ++
        chunks.flatMap (·.bytes)) := by
  obtain ⟨pos, content⟩ := writeHeader_away away inside wroteHeader
  generalize writeHeaderToVec header = H at pos content ⊢
  have copied : SeekFile.overwrite w.content w.pos H = (w.content.take w.pos ++ H) ++ w.content.drop (w.pos + H.length) := by
    rw [SeekFile.overwrite_within inside, List.append_assoc]
  have front : (w.content.take w.pos ++ H).length = w.pos + H.length := by
    rw [List.length_append, List.length_take, Nat.min_eq_left inside]
  have size : begun.content.length = max w.content.length (w.pos + H.length) := by
    rw [content, SeekFile.length_overwrite (Nat.zero_le _), SeekFile.length_overwrite inside]
    omega
  have written := writeChunks_overwritten (by rw [pos, size]; exact Nat.le_max_right ..) wroteChunks
  have past : begun.content.drop (begun.pos + (chunks.flatMap (·.bytes)).length) = [] := by
    rw [written.pos] at covered
    apply List.drop_eq_nil_of_le
    omega
  have start : begun.content.take begun.pos = H ++ (w.content.take w.pos ++ H).drop H.length := by
    have overlaid : begun.content = H ++ (SeekFile.overwrite w.content w.pos H).drop H.length := by
      rw [content, SeekFile.overwrite_within (Nat.zero_le _), List.take_zero, List.nil_append, Nat.zero_add]
    rw [overlaid, pos, Nat.add_comm, List.take_length_add_append, List.take_drop, copied,
      List.take_left' (front.trans (Nat.add_comm ..))]
  rw [written.content, SeekFile.overwrite_within written.inside, past, start, List.append_nil, List.append_assoc]

/-- A written header is decoded with the chunks and the few bytes that follow it. -/
theorem decode_written {header : CaptureHeader} (payload : header.magicPayload.length < 2 ^ 32)
    {chunks : List CaptureChunk} (fits : ∀ chunk ∈ chunks, chunk.data.length < 2 ^ 32) {tail : List UInt8}
    (short : tail.length < 8) :
    decode (writeHeaderToVec header ++ (chunks.flatMap (·.bytes) ++ tail)) = some (.ok (header, chunks)) := by
  have front := readHeader_bytes payload ((chunks.flatMap (·.bytes) ++ tail).map .byte)
  rw [← List.map_append] at front
  exact decode_of_header front fits rfl short

/-- **When a repaired file reads back.** For every writer with its cursor away from the start and
not past its end, and every header and list of chunks within the limits of their length fields:
after `write_header` and `write_chunk` for each chunk, a reader that begins at offset 0 gets the
header, the chunks and then the end exactly when the cursor was less than eight bytes from the
start and the encoding of the chunks goes on as itself after the last bytes of the header. -/
theorem repair_reads_back_iff (w begun file : SeekFile) (header : CaptureHeader) (chunks : List CaptureChunk)
    (away : w.pos ≠ 0) (inside : w.pos ≤ w.content.length) (payload : header.magicPayload.length < 2 ^ 32)
    (data : ∀ chunk ∈ chunks, chunk.data.length < 2 ^ 32) (wroteHeader : writeHeader w header = (.ok (), begun))
    (wroteChunks : writeChunks begun chunks = (.ok (), file)) (covered : w.content.length ≤ file.pos) :
    decode file.content = some (.ok (header, chunks)) ↔
      w.pos < 8 ∧ encodeChunks chunks <+:
        (writeHeaderToVec header).drop ((writeHeaderToVec header).length - w.pos) ++ encodeChunks chunks := by
  have content := repaired_content away inside wroteHeader wroteChunks covered
  have size := length_writeHeaderToVec header
  rw [encodeChunks_eq, content]
  generalize chunks_eq : chunks.flatMap (·.bytes) = B
  -- the bytes between the header and the chunks are as many as there were in front of the cursor
  have between : ((w.content.take w.pos ++ writeHeaderToVec header).drop (writeHeaderToVec header).length).length = w.pos := by
    rw [List.length_drop, List.length_append, List.length_take, Nat.min_eq_left inside, Nat.add_sub_cancel]
  have last : w.pos < 8 → (w.content.take w.pos ++ writeHeaderToVec header).drop (writeHeaderToVec header).length =
      (writeHeaderToVec header).drop ((writeHeaderToVec header).length - w.pos) := by
    intro near
    have front : (w.content.take w.pos).length = w.pos := by rw [List.length_take, Nat.min_eq_left inside]
    rw [List.drop_append, front, List.drop_eq_nil_of_le (by omega), List.nil_append]
  constructor
  · intro accepted
    obtain ⟨body, tail, dropped, -, -, whole, short, -⟩ := decode_ok accepted
    rw [← size, List.drop_left] at dropped
    rw [← dropped, chunks_eq] at whole
    have near : w.pos < 8 := by
      have lengths := congrArg List.length whole
      rw [List.length_append, List.length_append, between] at lengths
      omega
    rw [last near] at whole
    exact ⟨near, tail, whole.symm⟩
  · rintro ⟨near, tail, whole⟩
    rw [last near, ← whole, ← chunks_eq]
    apply decode_written payload data
    have lengths := congrArg List.length whole
    rw [← last near, List.length_append, List.length_append, between] at lengths
    omega

/-- One byte in front of the cursor, and a chunk of zeros behind a header that ends in one. -/
theorem zeros_read_back :
    ∃ begun file, writeHeader ⟨[0xFF], 1, none, []⟩ ⟨[0]⟩ = (.ok (), begun) ∧
      writeChunks begun [⟨0, []⟩] = (.ok (), file) ∧ decode file.content = some (.ok (⟨[0]⟩, [⟨0, []⟩])) :=
  ⟨_, _, rfl, rfl, (repair_reads_back_iff ⟨[0xFF], 1, none, []⟩ _ _ ⟨[0]⟩ [⟨0, []⟩] (by decide) (by decide) (by decide)
    (by decide) rfl rfl (by decide)).2 (by decide)⟩

/-- One byte in front of the cursor makes the reader take the end of the first header for the start
of a timestamp. -/
theorem repair_shifts_chunks :
    ¬∀ (w begun file : SeekFile) (header : CaptureHeader) (chunks : List CaptureChunk), w.pos ≠ 0 →
      w.pos ≤ w.content.length → header.magicPayload.length < 2 ^ 32 → (∀ chunk ∈ chunks, chunk.data.length < 2 ^ 32) →
      writeHeader w header = (.ok (), begun) → writeChunks begun chunks = (.ok (), file) →
      w.content.length ≤ file.pos → decode file.content = some (.ok (header, chunks)) := by
  intro repairs
  have back := repairs ⟨[0xFF], 1, none, []⟩ _ _ ⟨[7]⟩ [⟨1000, [1, 2]⟩] (by decide) (by decide) (by decide) (by decide)
    rfl rfl (by decide)
  exact absurd back (by decide)

end RtlTcp

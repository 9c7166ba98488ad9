import RtlTcp.Lib.LittleEndian
import RtlTcp.Lib.SeekFile

/-!
# `capture/mod.rs`: the capture file format

A capture file is a header with the server's magic packet, then one chunk for each read of the
socket. Lengths are four bytes and timestamps eight, all little-endian. `capture_round_trip`
says that what the writers put into a file is what the readers take out of it.
-/

namespace RtlTcp
set_option autoImplicit false
open ByteIo

/-- `CAPTURE_MAGIC`, "RTLX". -/
def captureMagic : Bytes 4 := ⟨[0x52, 0x54, 0x4C, 0x58], rfl⟩

def captureVersion : UInt32 := 1

structure CaptureHeader where
  magicPayload : List UInt8
  deriving DecidableEq, Repr

structure CaptureChunk where
  timestampNs : UInt64
  data : List UInt8
  deriving DecidableEq, Repr

/-- The errors of the readers: those of the input, and the one `read_header` makes itself. -/
inductive ReadError where
  | io (e : ErrorKind)
  | invalidData (message : String)
  deriving DecidableEq, Repr

/-- `(x as u32).to_le_bytes()` for a length. -/
def u32ToLe (n : Nat) : List UInt8 := (toLe 4 (n % 2 ^ 32)).toList

/-- `u64::to_le_bytes` -/
def u64ToLe (n : UInt64) : List UInt8 := (toLe 8 n.toNat).toList

/-! ## Writing -/

/-- `write_header_to_vec` -/
def writeHeaderToVec (header : CaptureHeader) : List UInt8 :=
  captureMagic.toList ++ u32ToLe captureVersion.toNat ++ u32ToLe header.magicPayload.length ++ header.magicPayload

/-- `write_header`: at the cursor and, if that is not the start, once more at the start. -/
def writeHeader (writer : SeekFile) (header : CaptureHeader) : Except ErrorKind Unit × SeekFile :=
  let start := writer.pos
  match writer.writeParts [captureMagic.toList, u32ToLe captureVersion.toNat, u32ToLe header.magicPayload.length,
    header.magicPayload] with
  | (.error e, writer) => (.error e, writer)
  | (.ok (), writer) =>
    let stop := writer.pos
    if start ≠ 0 then
      match (writer.seek 0).writeAll (writeHeaderToVec header) with
      | (.error e, writer) => (.error e, writer)
      | (.ok (), writer) => (.ok (), writer.seek stop)
    else (.ok (), writer)

/-- `write_chunk` -/
def writeChunk (writer : SeekFile) (chunk : CaptureChunk) : Except ErrorKind Unit × SeekFile :=
  writer.writeParts [u64ToLe chunk.timestampNs, u32ToLe chunk.data.length, chunk.data]

/-- `write_chunk` for each chunk in order, up to the first that fails. -/
def writeChunks (writer : SeekFile) : List CaptureChunk → Except ErrorKind Unit × SeekFile
  | [] => (.ok (), writer)
  | chunk :: chunks =>
    match writeChunk writer chunk with
    | (.ok (), writer) => writeChunks writer chunks
    | failed => failed

/-! ## Reading -/

/-- `reader.read_exact(..)?` and what follows it. -/
def readThen {α : Type} (n : Nat) (reader : List Arrival)
    (next : Bytes n → List Arrival → Except ReadError α × List Arrival) : Except ReadError α × List Arrival :=
  match readExact n reader with
  | (.ok buf, reader) => next buf reader
  | (.error e, reader) => (.error (.io e), reader)

/-- `read_header`; the version is read and not looked at. -/
def readHeader (reader : List Arrival) : Except ReadError CaptureHeader × List Arrival :=
  readThen 4 reader fun magic reader =>
    if magic ≠ captureMagic then (.error (.invalidData "invalid capture magic"), reader)
    else readThen 4 reader fun _versionBuf reader =>
      readThen 4 reader fun magicLenBuf reader =>
        readThen (fromLe magicLenBuf) reader fun magicPayload reader => (.ok ⟨magicPayload.toList⟩, reader)

/-- `read_chunk`; a stream that ends within the timestamp is the end of the file. -/
def readChunk (reader : List Arrival) : Except ReadError (Option CaptureChunk) × List Arrival :=
  match readExact 8 reader with
  | (.error .unexpectedEof, reader) => (.ok none, reader)
  | (.error e, reader) => (.error (.io e), reader)
  | (.ok tsBuf, reader) =>
    readThen 4 reader fun lenBuf reader =>
      readThen (fromLe lenBuf) reader fun data reader =>
        (.ok (some ⟨UInt64.ofNat (fromLe tsBuf), data.toList⟩), reader)

/-- The chunks that `read_chunk` returns up to its `Ok(None)`, or its error, if it has stopped
after `calls` calls. -/
def readChunks : (calls : Nat) → List Arrival → Option (Except ReadError (List CaptureChunk))
  | 0, _ => none
  | calls + 1, reader =>
    match readChunk reader with
    | (.ok none, _) => some (.ok [])
    | (.ok (some chunk), reader) => (readChunks calls reader).map (·.map (chunk :: ·))
    | (.error e, _) => some (.error e)

/-- A whole file, read with `read_header` and then `read_chunk` to the end. -/
def decode (content : List UInt8) : Option (Except ReadError (CaptureHeader × List CaptureChunk)) :=
  match readHeader (content.map .byte) with
  | (.ok header, reader) => (readChunks (reader.length + 1) reader).map (·.map (header, ·))
  | (.error e, _) => some (.error e)

/-! ## What the writers write -/

def CaptureChunk.bytes (chunk : CaptureChunk) : List UInt8 :=
  u64ToLe chunk.timestampNs ++ u32ToLe chunk.data.length ++ chunk.data

theorem writeChunk_appended {w w' : SeekFile} {chunk : CaptureChunk} (atEnd : w.pos = w.content.length)
    (wrote : writeChunk w chunk = (.ok (), w')) : w.Appended chunk.bytes w' := by
  have parts := SeekFile.writeParts_appended atEnd wrote
  simpa [CaptureChunk.bytes] using parts

theorem writeChunks_appended {chunks : List CaptureChunk} {w w' : SeekFile} (atEnd : w.pos = w.content.length)
    (wrote : writeChunks w chunks = (.ok (), w')) : w.Appended (chunks.flatMap (·.bytes)) w' := by
  induction chunks generalizing w with
  | nil =>
    cases wrote
    exact .refl atEnd
  | cons chunk chunks ih =>
    simp only [writeChunks] at wrote
    split at wrote
    · rename_i w₁ first
      have head := writeChunk_appended atEnd first
      exact head.trans (ih head.atEnd wrote)
    · rename_i failed
      exact absurd wrote (failed w')

theorem writeChunks_memory {w : SeekFile} (unlimited : w.limit = none) (faultless : w.faults = [])
    (chunks : List CaptureChunk) : ∃ w', writeChunks w chunks = (.ok (), w') ∧ w'.limit = none ∧ w'.faults = [] := by
  induction chunks generalizing w with
  | nil => exact ⟨w, rfl, unlimited, faultless⟩
  | cons chunk chunks ih =>
    obtain ⟨w₁, first, unlimited', faultless'⟩ := SeekFile.writeParts_memory unlimited faultless
      [u64ToLe chunk.timestampNs, u32ToLe chunk.data.length, chunk.data]
    simp only [writeChunks, writeChunk, first]
    exact ih unlimited' faultless'

/-- On an empty writer the header is written once. -/
theorem writeHeader_appended {w w' : SeekFile} {header : CaptureHeader} (atStart : w.pos = 0)
    (atEnd : w.pos = w.content.length) (wrote : writeHeader w header = (.ok (), w')) :
    w.Appended (writeHeaderToVec header) w' := by
  simp only [writeHeader] at wrote
  split at wrote
  · cases wrote
  · rename_i w₁ parts
    rw [if_neg (not_not_intro atStart)] at wrote
    cases wrote
    have appended := SeekFile.writeParts_appended atEnd parts
    simpa [writeHeaderToVec] using appended

theorem writeHeader_memory {w : SeekFile} (unlimited : w.limit = none) (faultless : w.faults = [])
    (header : CaptureHeader) : ∃ w', writeHeader w header = (.ok (), w') ∧ w'.limit = none ∧ w'.faults = [] := by
  obtain ⟨w₁, parts, unlimited₁, faultless₁⟩ := SeekFile.writeParts_memory unlimited faultless
    [captureMagic.toList, u32ToLe captureVersion.toNat, u32ToLe header.magicPayload.length, header.magicPayload]
  simp only [writeHeader, parts]
  split
  · obtain ⟨w₂, again, unlimited₂, faultless₂⟩ := SeekFile.writeAll_memory (f := w₁.seek 0) unlimited₁ faultless₁
      (writeHeaderToVec header)
    simp only [again]
    exact ⟨_, rfl, unlimited₂, faultless₂⟩
  · exact ⟨w₁, rfl, unlimited₁, faultless₁⟩

/-! ## Reading back -/

@[simp] theorem readThen_bytes {α : Type} {n : Nat} (v : Bytes n) (rest : List Arrival)
    (next : Bytes n → List Arrival → Except ReadError α × List Arrival) :
    readThen n (v.toList.map .byte ++ rest) next = next v rest := by
  simp only [readThen, readExact_bytes]

/-- A field whose length was read from the file. -/
theorem readThen_data {α : Type} {n : Nat} {data : List UInt8} (size : n = data.length) (rest : List Arrival)
    (next : List UInt8 → List Arrival → Except ReadError α × List Arrival) :
    readThen n (data.map .byte ++ rest) (fun v => next v.toList) = next data rest := by
  subst size
  exact readThen_bytes ⟨data, rfl⟩ rest fun v => next v.toList

theorem fromLe_u32 {n : Nat} (fits : n < 2 ^ 32) : fromLe (toLe 4 (n % 2 ^ 32)) = n := by
  rw [Nat.mod_eq_of_lt fits]
  exact fromLe_toLe (Nat.lt_of_lt_of_eq fits (by decide))

/-- `read_header` takes exactly the bytes of a header. -/
theorem readHeader_bytes {header : CaptureHeader} (fits : header.magicPayload.length < 2 ^ 32) (rest : List Arrival) :
    readHeader ((writeHeaderToVec header).map .byte ++ rest) = (.ok header, rest) := by
  simp only [readHeader, writeHeaderToVec, u32ToLe, List.map_append, List.append_assoc, readThen_bytes]
  rw [if_neg (not_not_intro rfl)]
  exact readThen_data (fromLe_u32 fits) rest fun payload reader => (.ok (CaptureHeader.mk payload), reader)

/-- `read_chunk` takes exactly the bytes of a chunk. -/
theorem readChunk_bytes {chunk : CaptureChunk} (fits : chunk.data.length < 2 ^ 32) (rest : List Arrival) :
    readChunk (chunk.bytes.map .byte ++ rest) = (.ok (some chunk), rest) := by
  have stamp : UInt64.ofNat (fromLe (toLe 8 chunk.timestampNs.toNat)) = chunk.timestampNs := by
    rw [fromLe_toLe (UInt64.toNat_lt _), UInt64.ofNat_toNat]
  simp only [readChunk, CaptureChunk.bytes, u64ToLe, u32ToLe, List.map_append, List.append_assoc, readExact_bytes,
    readThen_bytes, stamp]
  exact readThen_data (fromLe_u32 fits) rest fun data reader =>
    (.ok (some (CaptureChunk.mk chunk.timestampNs data)), reader)

/-- `read_chunk` returns the chunks whose bytes there are, and then `Ok(None)`. -/
theorem readChunks_bytes {chunks : List CaptureChunk} (fits : ∀ chunk ∈ chunks, chunk.data.length < 2 ^ 32) {calls : Nat}
    (enough : chunks.length < calls) :
    readChunks calls ((chunks.flatMap (·.bytes)).map .byte) = some (.ok chunks) := by
  induction chunks generalizing calls with
  | nil =>
    obtain ⟨calls, rfl⟩ := Nat.exists_eq_succ_of_ne_zero (Nat.ne_of_gt enough)
    rfl
  | cons chunk chunks ih =>
    obtain ⟨calls, rfl⟩ := Nat.exists_eq_succ_of_ne_zero (Nat.ne_of_gt (Nat.zero_lt_of_lt enough))
    have first := readChunk_bytes (fits chunk (List.mem_cons_self ..)) ((chunks.flatMap (·.bytes)).map .byte)
    have later := ih (fun c member => fits c (List.mem_cons_of_mem _ member)) (Nat.lt_of_succ_lt_succ enough)
    simp only [readChunks, List.flatMap_cons, List.map_append, first, later]
    rfl

theorem eight_le_bytes (chunk : CaptureChunk) : 8 ≤ chunk.bytes.length := by
  simp only [CaptureChunk.bytes, u64ToLe, List.length_append, List.Vector.toList_length]
  omega

theorem length_le_bytes (chunks : List CaptureChunk) : chunks.length ≤ (chunks.flatMap (·.bytes)).length := by
  induction chunks with
  | nil => exact Nat.le_refl _
  | cons chunk chunks ih =>
    have stamp := eight_le_bytes chunk
    simp only [List.flatMap_cons, List.length_append, List.length_cons]
    omega

/-- A header and chunks are decoded from their bytes. -/
theorem decode_bytes {header : CaptureHeader} (payload : header.magicPayload.length < 2 ^ 32)
    {chunks : List CaptureChunk} (fits : ∀ chunk ∈ chunks, chunk.data.length < 2 ^ 32) :
    decode (writeHeaderToVec header ++ chunks.flatMap (·.bytes)) = some (.ok (header, chunks)) := by
  have enough : chunks.length < ((chunks.flatMap (·.bytes)).map Arrival.byte).length + 1 := by
    rw [List.length_map]
    exact Nat.lt_succ_of_le (length_le_bytes chunks)
  simp only [decode, List.map_append, readHeader_bytes payload, readChunks_bytes fits enough]
  rfl

/-- **The capture format round-trips.** Whatever the payload, the timestamps and the data, as
long as the lengths fit their four bytes: the writers succeed on an empty writer, the readers
return the header, the chunks in order and then `Ok(None)`, and each read starts where its
write started and stops where its write stopped. -/
theorem capture_round_trip (header : CaptureHeader) (chunks : List CaptureChunk)
    (payload : header.magicPayload.length < 2 ^ 32) (data : ∀ chunk ∈ chunks, chunk.data.length < 2 ^ 32) :
    ∃ begun file, writeHeader .empty header = (.ok (), begun) ∧ writeChunks begun chunks = (.ok (), file) ∧
      let readerAt := fun pos => (file.content.drop pos).map Arrival.byte
      readHeader (readerAt 0) = (.ok header, readerAt begun.pos) ∧
      (∀ before chunk later, chunks = before ++ chunk :: later →
        ∃ w w', writeChunks begun before = (.ok (), w) ∧ writeChunk w chunk = (.ok (), w') ∧
          readChunk (readerAt w.pos) = (.ok (some chunk), readerAt w'.pos)) ∧
      readChunk (readerAt file.pos) = (.ok none, []) ∧ readerAt file.pos = [] ∧
      readChunks (chunks.length + 1) (readerAt begun.pos) = some (.ok chunks) := by
  obtain ⟨begun, wroteHeader, unlimited, faultless⟩ := writeHeader_memory (w := .empty) rfl rfl header
  obtain ⟨file, wroteChunks, -⟩ := writeChunks_memory unlimited faultless chunks
  have front := writeHeader_appended (w := .empty) rfl rfl wroteHeader
  have back := writeChunks_appended front.atEnd wroteChunks
  have whole : file.content = begun.content ++ chunks.flatMap (·.bytes) := back.content
  have drained : file.content.drop file.pos = [] := by rw [back.atEnd, List.drop_length]
  have body : file.content.drop begun.pos = chunks.flatMap (·.bytes) := by
    rw [front.atEnd, whole, List.drop_left]
  refine ⟨begun, file, wroteHeader, wroteChunks, ?_, ?_, ?_, ?_, ?_⟩
  · have head : begun.content = writeHeaderToVec header := front.content
    dsimp only
    rw [body, List.drop_zero, whole, head, List.map_append]
    exact readHeader_bytes payload _
  · rintro before chunk later rfl
    obtain ⟨w, wroteBefore, unlimited', faultless'⟩ := writeChunks_memory unlimited faultless before
    obtain ⟨w', wrote, -⟩ := SeekFile.writeParts_memory unlimited' faultless'
      [u64ToLe chunk.timestampNs, u32ToLe chunk.data.length, chunk.data]
    have upTo := writeChunks_appended front.atEnd wroteBefore
    have past := writeChunk_appended upTo.atEnd wrote
    refine ⟨w, w', wroteBefore, wrote, ?_⟩
    have after : file.content = w'.content ++ later.flatMap (·.bytes) := by
      rw [whole, past.content, upTo.content]
      simp only [List.flatMap_append, List.flatMap_cons, List.append_assoc]
    have start : file.content.drop w.pos = chunk.bytes ++ later.flatMap (·.bytes) := by
      rw [after, past.content, upTo.atEnd, List.append_assoc, List.drop_left]
    have stop : file.content.drop w'.pos = later.flatMap (·.bytes) := by
      rw [after, past.atEnd, List.drop_left]
    dsimp only
    rw [start, stop, List.map_append]
    exact readChunk_bytes (data chunk (by simp)) _
  · dsimp only
    rw [drained]
    rfl
  · dsimp only
    rw [drained]
    rfl
  · dsimp only
    rw [body]
    exact readChunks_bytes data (Nat.lt_succ_self _)

/-- Two chunks, the second of them empty. -/
theorem small_capture_round_trip :
    let header : CaptureHeader := ⟨[0x52, 0x54, 0x4C, 0x58]⟩
    let chunks : List CaptureChunk := [⟨1000, [1, 2, 3]⟩, ⟨2000, []⟩]
    ∃ begun file, writeHeader .empty header = (.ok (), begun) ∧ writeChunks begun chunks = (.ok (), file) ∧
      readChunks 3 ((file.content.drop begun.pos).map .byte) = some (.ok chunks) := by
  obtain ⟨begun, file, wroteHeader, wroteChunks, -, -, -, -, back⟩ := capture_round_trip ⟨[0x52, 0x54, 0x4C, 0x58]⟩
    [⟨1000, [1, 2, 3]⟩, ⟨2000, []⟩] (by decide) (by decide)
  exact ⟨begun, file, wroteHeader, wroteChunks, back⟩

end RtlTcp

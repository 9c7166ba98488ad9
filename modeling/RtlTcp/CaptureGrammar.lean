import RtlTcp.Capture

/-!
# `capture/mod.rs`: what the readers accept

The readers against files that nobody promises to be whole. `readUntilStop` calls `read_chunk`
until it has no more to give; `readUntilStop_parse` says what it makes of an arbitrary byte
string, and the results about the grammar and about cut files are read off from it.
-/

namespace RtlTcp
set_option autoImplicit false
open ByteIo

/-- What `write_chunk` puts into an empty writer for the chunks. -/
def encodeChunks (chunks : List CaptureChunk) : List UInt8 := (writeChunks .empty chunks).2.content

/-- A whole capture file: `write_header`, and then `write_chunk` for each chunk. -/
def encodeFile (header : CaptureHeader) (chunks : List CaptureChunk) : List UInt8 :=
  (writeChunks (writeHeader .empty header).2 chunks).2.content

/-- What `read_chunk` returns when it is called until it stops: the chunks, and `Ok(None)` or the
error, if it has stopped after `calls` calls. -/
def readUntilStop : (calls : Nat) → List Arrival → List CaptureChunk × Option (Except ReadError Unit)
  | 0, _ => ([], none)
  | calls + 1, reader =>
    match readChunk reader with
    | (.ok none, _) => ([], some (.ok ()))
    | (.ok (some chunk), reader) => (chunk :: (readUntilStop calls reader).1, (readUntilStop calls reader).2)
    | (.error e, _) => ([], some (.error e))

/-! ## The encodings -/

theorem encodeChunks_eq (chunks : List CaptureChunk) : encodeChunks chunks = chunks.flatMap (·.bytes) := by
  obtain ⟨w, wrote, -⟩ := writeChunks_memory (w := .empty) rfl rfl chunks
  have content : w.content = chunks.flatMap (·.bytes) := (writeChunks_appended (w := .empty) rfl wrote).content
  simp only [encodeChunks, wrote, content]

theorem encodeFile_eq (header : CaptureHeader) (chunks : List CaptureChunk) :
    encodeFile header chunks = writeHeaderToVec header ++ chunks.flatMap (·.bytes) := by
  obtain ⟨begun, wroteHeader, unlimited, faultless⟩ := writeHeader_memory (w := .empty) rfl rfl header
  obtain ⟨file, wroteChunks, -⟩ := writeChunks_memory unlimited faultless chunks
  have front := writeHeader_appended (w := .empty) rfl rfl wroteHeader
  have back := writeChunks_appended front.atEnd wroteChunks
  have head : begun.content = writeHeaderToVec header := front.content
  simp only [encodeFile, wroteHeader, wroteChunks, back.content, head]

/-- Eight bytes are the timestamp they stand for. -/
theorem u64ToLe_fromLe (v : Bytes 8) : u64ToLe (UInt64.ofNat (fromLe v)) = v.toList := by
  have fits : fromLe v < 2 ^ 64 := Nat.lt_of_lt_of_eq (fromLe_lt v) (by decide)
  rw [u64ToLe, UInt64.toNat_ofNat_of_lt' fits, toLe_fromLe]

/-- Four bytes are the length they stand for. -/
theorem u32ToLe_fromLe (v : Bytes 4) : u32ToLe (fromLe v) = v.toList := by
  have fits : fromLe v < 2 ^ 32 := Nat.lt_of_lt_of_eq (fromLe_lt v) (by decide)
  rw [u32ToLe, Nat.mod_eq_of_lt fits, toLe_fromLe]

/-- A chunk's encoding is a timestamp, a length and the data. -/
theorem bytes_mk {len : Bytes 4} (ts : Bytes 8) (data : Bytes (fromLe len)) :
    (CaptureChunk.mk (UInt64.ofNat (fromLe ts)) data.toList).bytes = ts.toList ++ len.toList ++ data.toList := by
  simp only [CaptureChunk.bytes, List.Vector.toList_length, u64ToLe_fromLe, u32ToLe_fromLe]

/-- No chunk's encoding goes on as another one's. -/
theorem bytes_self_delimiting {chunk chunk' : CaptureChunk} {rest : List UInt8} (fits : chunk.data.length < 2 ^ 32)
    (fits' : chunk'.data.length < 2 ^ 32) (same : chunk.bytes = chunk'.bytes ++ rest) : rest = [] := by
  have whole := readChunk_bytes fits []
  have front := readChunk_bytes fits' (rest.map .byte)
  rw [List.append_nil, same, List.map_append, front] at whole
  exact List.map_eq_nil_iff.1 (Prod.mk.inj whole).2

/-! ## One call of `read_chunk` -/

/-- **`read_chunk` on an arbitrary byte string.** Fewer than eight bytes are the end of the file, a
chunk is taken off the front when there is one, and everything else is an error. -/
theorem readChunk_cases (bs : List UInt8) :
    (bs.length < 8 ∧ readChunk (bs.map .byte) = (.ok none, [])) ∨
    (8 ≤ bs.length ∧ readChunk (bs.map .byte) = (.error (.io .unexpectedEof), [])) ∨
    ∃ chunk rest, chunk.data.length < 2 ^ 32 ∧ bs = chunk.bytes ++ rest ∧
      readChunk (bs.map .byte) = (.ok (some chunk), rest.map .byte) := by
  rcases readExact_plain 8 bs with ⟨ts, rest, rfl, stamp⟩ | ⟨short, failed⟩
  · have long : 8 ≤ (ts.toList ++ rest).length := by simp
    rcases readExact_plain 4 rest with ⟨len, rest, rfl, size⟩ | ⟨short, failed⟩
    · rcases readExact_plain (fromLe len) rest with ⟨data, rest, rfl, content⟩ | ⟨short, failed⟩
      · refine .inr (.inr ⟨⟨UInt64.ofNat (fromLe ts), data.toList⟩, rest, ?_, ?_, ?_⟩)
        · rw [List.Vector.toList_length]
          exact Nat.lt_of_lt_of_eq (fromLe_lt len) (by decide)
        · rw [bytes_mk, List.append_assoc, List.append_assoc]
        · simp only [readChunk, stamp, readThen, size, content]
      · refine .inr (.inl ⟨long, ?_⟩)
        simp only [readChunk, stamp, readThen, size, failed]
    · refine .inr (.inl ⟨long, ?_⟩)
      simp only [readChunk, stamp, readThen, failed]
  · refine .inl ⟨short, ?_⟩
    simp only [readChunk, failed]

/-- A chunk that is returned was in front. -/
theorem readChunk_some {bs : List UInt8} {chunk : CaptureChunk} {rest : List Arrival}
    (read : readChunk (bs.map .byte) = (.ok (some chunk), rest)) :
    chunk.data.length < 2 ^ 32 ∧ ∃ left, bs = chunk.bytes ++ left ∧ rest = left.map .byte := by
  rcases readChunk_cases bs with ⟨-, ended⟩ | ⟨-, failed⟩ | ⟨chunk', left, fits, front, taken⟩
  · cases read.symm.trans ended
  · cases read.symm.trans failed
  · cases read.symm.trans taken
    exact ⟨fits, left, front, rfl⟩

/-- What passes for the end of the file is too little for a timestamp. -/
theorem readChunk_none {bs : List UInt8} {rest : List Arrival} (read : readChunk (bs.map .byte) = (.ok none, rest)) :
    bs.length < 8 := by
  rcases readChunk_cases bs with ⟨short, -⟩ | ⟨-, failed⟩ | ⟨chunk', left, -, -, taken⟩
  · exact short
  · cases read.symm.trans failed
  · cases read.symm.trans taken

/-- Too little for a timestamp is the end of the file. -/
theorem readChunk_short {tail : List UInt8} (short : tail.length < 8) : readChunk (tail.map .byte) = (.ok none, []) := by
  rcases readChunk_cases tail with ⟨-, ended⟩ | ⟨long, -⟩ | ⟨chunk, rest, -, same, -⟩
  · exact ended
  · exact absurd short (Nat.not_lt.2 long)
  · have stamp := eight_le_bytes chunk
    rw [same, List.length_append] at short
    omega

/-- A file cut within a chunk has nothing to give there. -/
theorem readChunk_cut {chunk : CaptureChunk} (fits : chunk.data.length < 2 ^ 32) {cut : Nat}
    (inside : cut < chunk.bytes.length) :
    readChunk ((chunk.bytes.take cut).map .byte) = (.ok none, []) ∨
      readChunk ((chunk.bytes.take cut).map .byte) = (.error (.io .unexpectedEof), []) := by
  rcases readChunk_cases (chunk.bytes.take cut) with ⟨-, ended⟩ | ⟨-, failed⟩ | ⟨chunk', rest, fits', front, -⟩
  · exact .inl ended
  · exact .inr failed
  · have whole : chunk.bytes = chunk'.bytes ++ (rest ++ chunk.bytes.drop cut) := by
      rw [← List.append_assoc, ← front, List.take_append_drop]
    have nothing := bytes_self_delimiting fits fits' whole
    have missing := congrArg List.length (List.append_eq_nil_iff.1 nothing).2
    rw [List.length_drop, List.length_nil] at missing
    omega

/-! ## Calls of `read_chunk` up to the end -/

/-- Encoded chunks are returned before what follows them is looked at. -/
theorem readUntilStop_bytes {chunks : List CaptureChunk} (fits : ∀ chunk ∈ chunks, chunk.data.length < 2 ^ 32)
    (rest : List Arrival) (calls : Nat) :
    readUntilStop (chunks.length + calls) ((chunks.flatMap (·.bytes)).map .byte ++ rest) =
      (chunks ++ (readUntilStop calls rest).1, (readUntilStop calls rest).2) := by
  induction chunks with
  | nil =>
    rw [List.length_nil, Nat.zero_add]
    rfl
  | cons chunk chunks ih =>
    have first := readChunk_bytes (fits chunk (List.mem_cons_self ..))
      ((chunks.flatMap (·.bytes)).map .byte ++ rest)
    have later := ih fun c member => fits c (List.mem_cons_of_mem _ member)
    rw [List.length_cons, Nat.add_right_comm, List.flatMap_cons, List.map_append, List.append_assoc]
    simp only [readUntilStop, first, later, List.cons_append]

/-- **`read_chunk` up to its end, on an arbitrary byte string.** It returns chunks from the front;
what is left then is too short for a timestamp, which passes for the end of the file, or is
no chunk. -/
theorem readUntilStop_parse {bs : List UInt8} {calls : Nat} (enough : bs.length < calls) :
    ∃ chunks rest, (∀ chunk ∈ chunks, chunk.data.length < 2 ^ 32) ∧ bs = chunks.flatMap (·.bytes) ++ rest ∧
      (rest.length < 8 ∧ readUntilStop calls (bs.map .byte) = (chunks, some (.ok ())) ∨
        8 ≤ rest.length ∧ readUntilStop calls (bs.map .byte) = (chunks, some (.error (.io .unexpectedEof)))) := by
  induction calls generalizing bs with
  | zero => exact absurd enough (Nat.not_lt_zero _)
  | succ calls ih =>
    rcases readChunk_cases bs with ⟨short, ended⟩ | ⟨long, failed⟩ | ⟨chunk, tail, small, rfl, taken⟩
    · refine ⟨[], bs, by simp, rfl, .inl ⟨short, ?_⟩⟩
      simp only [readUntilStop, ended]
    · refine ⟨[], bs, by simp, rfl, .inr ⟨long, ?_⟩⟩
      simp only [readUntilStop, failed]
    · have stamp := eight_le_bytes chunk
      have fewer : tail.length < calls := by
        rw [List.length_append] at enough
        omega
      obtain ⟨chunks, rest, fits, rfl, stopped⟩ := ih fewer
      refine ⟨chunk :: chunks, rest, ?_, ?_, ?_⟩
      · rintro c member
        rcases List.mem_cons.1 member with rfl | later
        · exact small
        · exact fits c later
      · rw [List.flatMap_cons, List.append_assoc]
      · rcases stopped with ⟨short, ended⟩ | ⟨long, failed⟩
        · refine .inl ⟨short, ?_⟩
          simp only [readUntilStop, taken, ended]
        · refine .inr ⟨long, ?_⟩
          simp only [readUntilStop, taken, failed]

/-- `readChunks` is `readUntilStop` without the chunks before an error. -/
theorem readChunks_eq (calls : Nat) (reader : List Arrival) :
    readChunks calls reader = (readUntilStop calls reader).2.map (·.map fun _ => (readUntilStop calls reader).1) := by
  induction calls generalizing reader with
  | zero => rfl
  | succ calls ih =>
    rcases taken : readChunk reader with ⟨e | none | chunk, rest⟩
    · simp only [readChunks, readUntilStop, taken]
      rfl
    · simp only [readChunks, readUntilStop, taken]
      rfl
    · simp only [readChunks, readUntilStop, taken, ih]
      rcases (readUntilStop calls rest).2 with _ | _ | _ <;> rfl

/-! ## The grammar -/

/-- Whole chunks, and then one to seven bytes more. -/
def EndsInPartialTimestamp (b : List UInt8) : Prop :=
  ∃ chunks tail, (∀ chunk ∈ chunks, chunk.data.length < 2 ^ 32) ∧ b = encodeChunks chunks ++ tail ∧
    0 < tail.length ∧ tail.length < 8

/-- The encoding of chunks one of which is too long for its length field. -/
def EncodesOverlongChunk (b : List UInt8) : Prop :=
  ∃ chunks, b = encodeChunks chunks ∧ ∃ chunk ∈ chunks, 2 ^ 32 ≤ chunk.data.length

/-- The chunk reader accepts exactly the encoding of what it returns, and rejects every byte
string that encodes nothing. -/
def AcceptsGrammar (b : List UInt8) : Prop :=
  let result := readUntilStop (b.length + 1) (b.map .byte)
  (∀ chunks, result = (chunks, some (.ok ())) ↔ b = encodeChunks chunks) ∧
    ((∀ chunks, b ≠ encodeChunks chunks) → ∃ chunks e, result = (chunks, some (.error e)))

/-- What is returned before an `Ok(None)` was in front of the file, up to seven bytes. -/
theorem readUntilStop_ok {b : List UInt8} {chunks : List CaptureChunk} {calls : Nat} (enough : b.length < calls) :
    readUntilStop calls (b.map .byte) = (chunks, some (.ok ())) ↔
      (∀ chunk ∈ chunks, chunk.data.length < 2 ^ 32) ∧
        ∃ tail, b = chunks.flatMap (·.bytes) ++ tail ∧ tail.length < 8 := by
  constructor
  · intro stopped
    obtain ⟨parsed, rest, fits, same, ⟨short, ended⟩ | ⟨-, failed⟩⟩ := readUntilStop_parse enough
    · obtain ⟨rfl, -⟩ := Prod.mk.inj (stopped.symm.trans ended)
      exact ⟨fits, rest, same, short⟩
    · have clash := (Prod.mk.inj (stopped.symm.trans failed)).2
      cases clash
  · rintro ⟨fits, tail, rfl, short⟩
    obtain ⟨calls, rfl⟩ : ∃ more, calls = chunks.length + (more + 1) := by
      have count := length_le_bytes chunks
      rw [List.length_append] at enough
      exact ⟨calls - chunks.length - 1, by omega⟩
    have ended : readUntilStop (calls + 1) (tail.map .byte) = ([], some (.ok ())) := by
      simp only [readUntilStop, readChunk_short short]
    rw [List.map_append, readUntilStop_bytes fits, ended, List.append_nil]

/-- **The chunk reader and the chunk grammar.** The reader accepts exactly the grammar, except on
two kinds of input: it takes a partial timestamp at the end for the end of the file, and an
encoding whose length field has wrapped is not read back. -/
theorem chunk_grammar_iff (b : List UInt8) :
    AcceptsGrammar b ↔ ¬EndsInPartialTimestamp b ∧ ¬EncodesOverlongChunk b := by
  constructor
  · rintro ⟨exactly, -⟩
    constructor
    · rintro ⟨chunks, tail, fits, rfl, nonempty, short⟩
      have front := congrArg (· ++ tail) (encodeChunks_eq chunks)
      have accepted := (readUntilStop_ok (Nat.lt_succ_self _)).2 ⟨fits, tail, front, short⟩
      have nothing := List.append_right_eq_self.1 ((exactly chunks).1 accepted)
      rw [nothing] at nonempty
      exact Nat.lt_irrefl 0 nonempty
    · rintro ⟨chunks, same, chunk, member, long⟩
      obtain ⟨fits, -⟩ := (readUntilStop_ok (Nat.lt_succ_self _)).1 ((exactly chunks).2 same)
      exact absurd (fits chunk member) (Nat.not_lt.2 long)
  · rintro ⟨whole, short⟩
    refine ⟨fun chunks => ⟨fun stopped => ?_, fun same => ?_⟩, fun nothing => ?_⟩
    · obtain ⟨fits, tail, same, few⟩ := (readUntilStop_ok (Nat.lt_succ_self _)).1 stopped
      rw [← encodeChunks_eq] at same
      cases tail with
      | nil => rwa [List.append_nil] at same
      | cons t tail => exact absurd ⟨chunks, t :: tail, fits, same, Nat.succ_pos _, few⟩ whole
    · refine (readUntilStop_ok (Nat.lt_succ_self _)).2 ⟨fun chunk member => ?_, [], ?_, by decide⟩
      · exact Nat.lt_of_not_le fun long => short ⟨chunks, same, chunk, member, long⟩
      · rw [List.append_nil, ← encodeChunks_eq, same]
    · obtain ⟨chunks, rest, fits, same, ⟨few, -⟩ | ⟨-, failed⟩⟩ := readUntilStop_parse (Nat.lt_succ_self b.length)
      · rw [← encodeChunks_eq] at same
        cases rest with
        | nil => exact absurd (same.trans (List.append_nil _)) (nothing chunks)
        | cons t rest => exact absurd ⟨chunks, t :: rest, fits, same, Nat.succ_pos _, few⟩ whole
      · exact ⟨chunks, _, failed⟩

/-- A single byte is no chunk, and is accepted. -/
theorem lone_byte_accepted : ¬AcceptsGrammar [0x2A] := by
  rintro ⟨exactly, -⟩
  have accepted := (exactly []).1 (by decide)
  exact absurd accepted (by decide)

/-! ## Cut files -/

/-- A sequence of reads that succeeds has a first read that succeeds. -/
theorem readThen_ok {α : Type} {n : Nat} {reader rest : List Arrival} {a : α}
    {next : Bytes n → List Arrival → Except ReadError α × List Arrival}
    (done : readThen n reader next = (.ok a, rest)) :
    ∃ v middle, readExact n reader = (.ok v, middle) ∧ next v middle = (.ok a, rest) := by
  unfold readThen at done
  split at done
  · rename_i v middle taken
    exact ⟨v, middle, taken, done⟩
  · exact absurd (Prod.mk.inj done).1 (by simp)

/-- What `read_header` has looked at when it succeeds. -/
theorem readHeader_ok {reader rest : List Arrival} {header : CaptureHeader}
    (accepted : readHeader reader = (.ok header, rest)) :
    ∃ version len : Bytes 4, ∃ payload : Bytes (fromLe len), ∃ r₁ r₂ r₃,
      readExact 4 reader = (.ok captureMagic, r₁) ∧ readExact 4 r₁ = (.ok version, r₂) ∧
      readExact 4 r₂ = (.ok len, r₃) ∧ readExact (fromLe len) r₃ = (.ok payload, rest) ∧ header = ⟨payload.toList⟩ := by
  obtain ⟨magic, r₁, first, accepted⟩ := readThen_ok accepted
  split at accepted
  · exact absurd (Prod.mk.inj accepted).1 (by simp)
  · rename_i known
    rw [Decidable.not_not.1 known] at first
    obtain ⟨version, r₂, second, accepted⟩ := readThen_ok accepted
    obtain ⟨len, r₃, third, accepted⟩ := readThen_ok accepted
    obtain ⟨payload, r₄, fourth, accepted⟩ := readThen_ok accepted
    obtain ⟨same, rfl⟩ := Prod.mk.inj accepted
    exact ⟨version, len, payload, r₁, r₂, r₃, first, second, third, fourth, (Except.ok.inj same).symm⟩

/-- The bytes of a whole header: the magic bytes, a version, a length and as much payload. -/
def headerBytes (version len : Bytes 4) (payload : Bytes (fromLe len)) : List UInt8 :=
  captureMagic.toList ++ (version.toList ++ (len.toList ++ payload.toList))

/-- What `read_header` accepts is a whole header, whatever its version. -/
theorem readHeader_whole {b : List UInt8} {rest : List Arrival} {header : CaptureHeader}
    (accepted : readHeader (b.map .byte) = (.ok header, rest)) :
    ∃ (version len : Bytes 4) (payload : Bytes (fromLe len)) (left : List UInt8),
      b = headerBytes version len payload ++ left ∧ rest = left.map .byte ∧ header = ⟨payload.toList⟩ := by
  obtain ⟨version, len, payload, r₁, r₂, r₃, first, second, third, fourth, rfl⟩ := readHeader_ok accepted
  obtain ⟨b₁, rfl, rfl⟩ := readExact_plain_ok first
  obtain ⟨b₂, rfl, rfl⟩ := readExact_plain_ok second
  obtain ⟨b₃, rfl, rfl⟩ := readExact_plain_ok third
  obtain ⟨left, rfl, rfl⟩ := readExact_plain_ok fourth
  refine ⟨version, len, payload, left, ?_, rfl, rfl⟩
  simp only [headerBytes, List.append_assoc]

/-- An accepted header is its twelve fixed bytes and its payload. -/
theorem readHeader_plain {bs : List UInt8} {rest : List Arrival} {header : CaptureHeader}
    (accepted : readHeader (bs.map .byte) = (.ok header, rest)) :
    12 + header.magicPayload.length ≤ bs.length ∧ rest = (bs.drop (12 + header.magicPayload.length)).map .byte := by
  obtain ⟨version, len, payload, left, rfl, rfl, rfl⟩ := readHeader_whole accepted
  have size : (headerBytes version len payload).length = 12 + payload.toList.length := by
    simp only [headerBytes, List.length_append, List.Vector.toList_length]
    omega
  rw [List.length_append, size, List.drop_left' size]
  exact ⟨Nat.le_add_right .., rfl⟩

/-- A file is accepted when it is a header, whole chunks and too little for another timestamp. -/
theorem decode_ok {content : List UInt8} {header : CaptureHeader} {chunks : List CaptureChunk}
    (accepted : decode content = some (.ok (header, chunks))) :
    ∃ body tail, content.drop (12 + header.magicPayload.length) = body ∧
      12 + header.magicPayload.length ≤ content.length ∧
      readHeader (content.map .byte) = (.ok header, body.map .byte) ∧ body = chunks.flatMap (·.bytes) ++ tail ∧
      tail.length < 8 ∧ ∀ chunk ∈ chunks, chunk.data.length < 2 ^ 32 := by
  unfold decode at accepted
  split at accepted
  · rename_i header' reader known
    rw [readChunks_eq] at accepted
    obtain ⟨outcome, stopped, same⟩ := Option.map_eq_some_iff.1 accepted
    obtain ⟨stop, ended, rfl⟩ := Option.map_eq_some_iff.1 stopped
    rcases stop with e | _
    · exact absurd same (by simp [Except.map])
    · obtain ⟨rfl, read⟩ := Prod.mk.inj (Except.ok.inj same)
      obtain ⟨room, rfl⟩ := readHeader_plain known
      rw [List.length_map] at read ended
      obtain ⟨fits, tail, body, short⟩ := (readUntilStop_ok (Nat.lt_succ_self _)).1 (Prod.ext read ended)
      exact ⟨_, tail, rfl, room, known, body, short, fits⟩
  · exact absurd (Option.some.inj accepted) (by simp)

/-- A header and whole chunks are decoded although a few bytes follow them. -/
theorem decode_of_header {content body tail : List UInt8} {header : CaptureHeader} {chunks : List CaptureChunk}
    (accepted : readHeader (content.map .byte) = (.ok header, body.map .byte))
    (fits : ∀ chunk ∈ chunks, chunk.data.length < 2 ^ 32) (whole : body = chunks.flatMap (·.bytes) ++ tail)
    (short : tail.length < 8) : decode content = some (.ok (header, chunks)) := by
  have stopped := (readUntilStop_ok (Nat.lt_succ_self _)).2 ⟨fits, tail, whole, short⟩
  simp only [decode, accepted, readChunks_eq, List.length_map, stopped]
  rfl

/-- A header that was accepted is accepted whatever comes after it. -/
theorem readHeader_append {reader rest : List Arrival} {header : CaptureHeader}
    (accepted : readHeader reader = (.ok header, rest)) (later : List Arrival) :
    readHeader (reader ++ later) = (.ok header, rest ++ later) := by
  obtain ⟨version, len, payload, r₁, r₂, r₃, first, second, third, fourth, rfl⟩ := readHeader_ok accepted
  simp only [readHeader, readThen, readExact_append first, readExact_append second, readExact_append third,
    readExact_append fourth, ne_eq, not_true_eq_false, if_false]

/-- A file cut within its header is refused. -/
theorem readHeader_cut {header : CaptureHeader} (fits : header.magicPayload.length < 2 ^ 32) {cut : Nat}
    (inside : cut < (writeHeaderToVec header).length) :
    ∃ e, (readHeader (((writeHeaderToVec header).take cut).map .byte)).1 = .error e := by
  rcases taken : readHeader (((writeHeaderToVec header).take cut).map .byte) with ⟨e | header', rest⟩
  · exact ⟨e, rfl⟩
  · have whole := readHeader_append taken (((writeHeaderToVec header).drop cut).map .byte)
    rw [← List.map_append, List.take_append_drop] at whole
    have known := readHeader_bytes fits []
    rw [List.append_nil] at known
    have nothing := (Prod.mk.inj (known.symm.trans whole)).2.symm
    have missing := congrArg List.length (List.append_eq_nil_iff.1 nothing).2
    rw [List.length_map, List.length_drop, List.length_nil] at missing
    omega

/-- A cut leaves the chunks that end before it, and then nothing or a part of the next one. -/
theorem take_encoding (chunks : List CaptureChunk) (cut : Nat) :
    ∃ n rest, n ≤ chunks.length ∧ (chunks.flatMap (·.bytes)).take cut = (chunks.take n).flatMap (·.bytes) ++ rest ∧
      (∀ i < chunks.length, i < n ↔ ((chunks.take (i + 1)).flatMap (·.bytes)).length ≤ cut) ∧
      (rest = [] ∨ ∃ chunk ∈ chunks, ∃ part < chunk.bytes.length, rest = chunk.bytes.take part) := by
  induction chunks generalizing cut with
  | nil => exact ⟨0, [], Nat.le_refl _, by simp, by simp, .inl rfl⟩
  | cons chunk chunks ih =>
    by_cases whole : chunk.bytes.length ≤ cut
    · obtain ⟨n, rest, most, front, ends, left⟩ := ih (cut - chunk.bytes.length)
      refine ⟨n + 1, rest, Nat.succ_le_succ most, ?_, fun i inside => ?_, ?_⟩
      · rw [List.flatMap_cons, List.take_append, List.take_of_length_le whole, front, List.take_succ_cons,
          List.flatMap_cons, List.append_assoc]
      · rw [List.take_succ_cons, List.flatMap_cons, List.length_append]
        cases i with
        | zero => simpa using whole
        | succ i =>
          have later := ends i (Nat.lt_of_succ_lt_succ inside)
          omega
      · rcases left with nothing | ⟨c, member, part, short, same⟩
        · exact .inl nothing
        · exact .inr ⟨c, List.mem_cons_of_mem _ member, part, short, same⟩
    · have inside : cut < chunk.bytes.length := Nat.lt_of_not_le whole
      refine ⟨0, chunk.bytes.take cut, Nat.zero_le _, ?_, fun i _ => ?_, .inr ⟨chunk, List.mem_cons_self .., cut, inside, rfl⟩⟩
      · rw [List.flatMap_cons, List.take_append_of_le_length (Nat.le_of_lt inside)]
        rfl
      · rw [List.take_succ_cons, List.flatMap_cons, List.length_append]
        omega

/-- **A cut file gives what it still has.** For every header and list of chunks within the limits
of their length fields and every cut: a cut within the header makes `read_header` fail; any other
leaves the header and exactly the chunks whose encodings end at or before the cut, and the reader
stops with `Ok(None)` or an `UnexpectedEof`. -/
theorem truncation_invents_nothing (header : CaptureHeader) (chunks : List CaptureChunk)
    (payload : header.magicPayload.length < 2 ^ 32) (data : ∀ chunk ∈ chunks, chunk.data.length < 2 ^ 32) (cut : Nat) :
    let cutFile := ((encodeFile header chunks).take cut).map Arrival.byte
    (cut < (encodeFile header []).length → ∃ e, (readHeader cutFile).1 = .error e) ∧
    ((encodeFile header []).length ≤ cut → ∃ reader n stop, readHeader cutFile = (.ok header, reader) ∧
      (∀ calls, cutFile.length < calls → readUntilStop calls reader = (chunks.take n, some stop)) ∧
      n ≤ chunks.length ∧ (∀ i < chunks.length, i < n ↔ (encodeFile header (chunks.take (i + 1))).length ≤ cut) ∧
      (stop = .ok () ∨ stop = .error (.io .unexpectedEof))) := by
  simp only [encodeFile_eq, List.flatMap_nil, List.append_nil]
  constructor
  · intro inside
    rw [List.take_append_of_le_length (Nat.le_of_lt inside)]
    exact readHeader_cut payload inside
  · intro past
    obtain ⟨n, rest, most, front, ends, left⟩ := take_encoding chunks (cut - (writeHeaderToVec header).length)
    have fits : ∀ chunk ∈ chunks.take n, chunk.data.length < 2 ^ 32 := fun chunk member =>
      data chunk (List.mem_of_mem_take member)
    obtain ⟨stop, kind, stopped⟩ : ∃ stop, (stop = .ok () ∨ stop = .error (.io .unexpectedEof)) ∧
        ∀ calls, readUntilStop (calls + 1) (rest.map .byte) = ([], some stop) := by
      rcases left with rfl | ⟨chunk, member, part, short, rfl⟩
      · exact ⟨.ok (), .inl rfl, fun calls => rfl⟩
      · rcases readChunk_cut (data chunk member) short with ended | failed
        · exact ⟨.ok (), .inl rfl, fun calls => by simp only [readUntilStop, ended]⟩
        · exact ⟨_, .inr rfl, fun calls => by simp only [readUntilStop, failed]⟩
    have whole : (writeHeaderToVec header ++ chunks.flatMap (·.bytes)).take cut =
        writeHeaderToVec header ++ ((chunks.take n).flatMap (·.bytes) ++ rest) := by
      rw [List.take_append, List.take_of_length_le past, front]
    refine ⟨(((chunks.take n).flatMap (·.bytes)) ++ rest).map .byte, n, stop, ?_, ?_, most, fun i inside => ?_, kind⟩
    · rw [whole, List.map_append]
      exact readHeader_bytes payload _
    · intro calls enough
      have count := length_le_bytes (chunks.take n)
      rw [whole, List.length_map, List.length_append, List.length_append] at enough
      obtain ⟨more, rfl⟩ : ∃ more, calls = (chunks.take n).length + (more + 1) :=
        ⟨calls - (chunks.take n).length - 1, by omega⟩
      rw [List.map_append, readUntilStop_bytes fits, stopped, List.append_nil]
    · rw [ends i inside, List.length_append]
      omega

/-- The second of two chunks is cut within its data. -/
theorem cut_file_gives_first_chunk :
    let chunks : List CaptureChunk := [⟨1000, [1, 2, 3]⟩, ⟨2000, [4, 5]⟩]
    ∃ reader n stop, readHeader (((encodeFile ⟨[7]⟩ chunks).take 41).map .byte) = (.ok ⟨[7]⟩, reader) ∧
      readUntilStop 42 reader = (chunks.take n, some stop) ∧ n = 1 := by
  obtain ⟨reader, n, stop, header, read, -, ends, -⟩ :=
    (truncation_invents_nothing ⟨[7]⟩ [⟨1000, [1, 2, 3]⟩, ⟨2000, [4, 5]⟩] (by decide) (by decide) 41).2 (by decide)
  have first : 0 < n := (ends 0 (by decide)).2 (by decide)
  have second : ¬1 < n := fun more => absurd ((ends 1 (by decide)).1 more) (by decide)
  exact ⟨reader, n, stop, header, read 42 (by decide), by omega⟩

end RtlTcp

import Mathlib.Data.List.GetD
import Mathlib.Data.Vector.Basic
import RtlTcp.Lib.ByteIo

/-!
# Fixed-length frames over a stream with timeouts

`readFrames` calls `readExact` again and again and goes on after a failure, as a command loop
with a read timeout does. `cut` is what its caller has in mind: consecutive groups of `n` bytes
from the first one on. A `Slot` list is the arrival pattern of a stream, its bytes forgotten;
`frames_kept` and `frames_lost` say for which patterns the two agree on every content.
-/

namespace ByteIo
set_option autoImplicit false

/-- The two kinds of a read timeout. -/
inductive Timeout where
  | wouldBlock
  | timedOut
  deriving DecidableEq, Repr

def Timeout.kind : Timeout → ErrorKind
  | .wouldBlock => .wouldBlock
  | .timedOut => .timedOut

theorem Timeout.isTimeout_kind (t : Timeout) : t.kind.isTimeout := by cases t <;> rfl

/-- One place of an arrival pattern. -/
inductive Slot where
  | byte
  | timeout (t : Timeout)
  deriving DecidableEq, Repr

/-- The stream has bytes and timeouts where the pattern has them. -/
inductive Follows : List Slot → List Arrival → Prop where
  | nil : Follows [] []
  | byte {p : List Slot} {s : List Arrival} (b : UInt8) (rest : Follows p s) :
      Follows (.byte :: p) (.byte b :: s)
  | timeout {p : List Slot} {s : List Arrival} (t : Timeout) (rest : Follows p s) :
      Follows (.timeout t :: p) (.fail t.kind :: s)

/-- The number of bytes in a pattern. -/
def byteCount : List Slot → Nat
  | [] => 0
  | .byte :: p => byteCount p + 1
  | .timeout _ :: p => byteCount p

/-- A timeout falls between two frames of `n` bytes, or inside a frame that the rest of the
stream does not complete. -/
def Aligned (n : Nat) (p : List Slot) : Prop :=
  ∀ before t after, p = before ++ .timeout t :: after →
    byteCount before % n = 0 ∨ byteCount p < n * (byteCount before / n + 1)

/-- The frames that `m` calls of `readExact` return, and what they leave. -/
def readFrames (n : Nat) : (m : Nat) → List Arrival → List (Bytes n) × List Arrival
  | 0, s => ([], s)
  | m + 1, s =>
    match readExact n s with
    | (.ok v, rest) => (v :: (readFrames n m rest).1, (readFrames n m rest).2)
    | (.error _, rest) => readFrames n m rest

/-- The bytes of `s` that are gone when `rest` is left of it. -/
def taken (s rest : List Arrival) : List UInt8 :=
  (bytesOf s).take ((bytesOf s).length - (bytesOf rest).length)

/-- The consecutive groups of `n` bytes; a shorter group at the end is no frame. -/
def cut (n : Nat) (bytes : List UInt8) : List (Bytes n) :=
  (List.range (bytes.length / n)).map fun i => .ofFn fun j => bytes.getD (n * i + j) 0

/-! ## Patterns -/

@[simp] theorem byteCount_append (p q : List Slot) : byteCount (p ++ q) = byteCount p + byteCount q := by
  induction p with
  | nil => simp [byteCount]
  | cons a p ih => cases a <;> simp only [List.cons_append, byteCount, ih]; omega

@[simp] theorem byteCount_replicate (k : Nat) : byteCount (List.replicate k .byte) = k := by
  induction k with
  | zero => rfl
  | succ k ih => simp [List.replicate_succ, byteCount, ih]

theorem Follows.length_bytesOf {p : List Slot} {s : List Arrival} (h : Follows p s) :
    (bytesOf s).length = byteCount p := by
  induction h with
  | nil => rfl
  | byte b rest ih => simp [bytesOf, byteCount, ih]
  | timeout t rest ih => simp [bytesOf, byteCount, ih]

theorem Follows.append {p q : List Slot} {s r : List Arrival} (h : Follows p s) (h' : Follows q r) :
    Follows (p ++ q) (s ++ r) := by
  induction h with
  | nil => exact h'
  | byte b rest ih => exact .byte b ih
  | timeout t rest ih => exact .timeout t ih

theorem follows_bytes (bs : List UInt8) : Follows (List.replicate bs.length .byte) (bs.map .byte) := by
  induction bs with
  | nil => exact .nil
  | cons b bs ih => exact .byte b ih

/-- Every pattern has a stream of zeros. -/
theorem exists_zeros (p : List Slot) : ∃ s, Follows p s ∧ ∀ b ∈ bytesOf s, b = 0 := by
  induction p with
  | nil => exact ⟨[], .nil, by simp [bytesOf]⟩
  | cons a p ih =>
    obtain ⟨s, follows, zeros⟩ := ih
    cases a with
    | byte => exact ⟨.byte 0 :: s, .byte 0 follows, by simpa [bytesOf] using zeros⟩
    | timeout t => exact ⟨.fail t.kind :: s, .timeout t follows, by simpa [bytesOf] using zeros⟩

/-- A pattern starts with a whole frame, with a timeout after fewer bytes, or ends before. -/
theorem pattern_cases (n : Nat) (p : List Slot) :
    (∃ q, p = List.replicate n .byte ++ q) ∨
      (∃ k t q, k < n ∧ p = List.replicate k .byte ++ .timeout t :: q) ∨
      ∃ k, k < n ∧ p = List.replicate k .byte := by
  induction n generalizing p with
  | zero => exact .inl ⟨p, rfl⟩
  | succ n ih =>
    match p with
    | [] => exact .inr (.inr ⟨0, by omega, rfl⟩)
    | .timeout t :: q => exact .inr (.inl ⟨0, t, q, by omega, rfl⟩)
    | .byte :: p =>
      rcases ih p with ⟨q, rfl⟩ | ⟨k, t, q, short, rfl⟩ | ⟨k, short, rfl⟩
      · exact .inl ⟨q, rfl⟩
      · exact .inr (.inl ⟨k + 1, t, q, by omega, rfl⟩)
      · exact .inr (.inr ⟨k + 1, by omega, rfl⟩)

theorem Follows.split {p q : List Slot} {s : List Arrival} (h : Follows (p ++ q) s) :
    ∃ r t, s = r ++ t ∧ Follows p r ∧ Follows q t := by
  induction p generalizing s with
  | nil => exact ⟨[], s, rfl, .nil, h⟩
  | cons a p ih =>
    cases h with
    | byte b rest =>
      obtain ⟨r, t, rfl, front, back⟩ := ih rest
      exact ⟨.byte b :: r, t, rfl, .byte b front, back⟩
    | timeout k rest =>
      obtain ⟨r, t, rfl, front, back⟩ := ih rest
      exact ⟨.fail k.kind :: r, t, rfl, .timeout k front, back⟩

theorem Follows.bytes {k : Nat} {s : List Arrival} (h : Follows (List.replicate k .byte) s) :
    ∃ bs : List UInt8, bs.length = k ∧ s = bs.map .byte := by
  induction k generalizing s with
  | zero => cases h; exact ⟨[], rfl, rfl⟩
  | succ k ih =>
    cases h with
    | byte b rest =>
      obtain ⟨bs, size, rfl⟩ := ih rest
      exact ⟨b :: bs, by simp [size], rfl⟩

/-! ## One read -/

/-- A read that runs into a timeout loses the bytes before it. -/
theorem readExact_timeout {n : Nat} {bs : List UInt8} (short : bs.length < n) (t : Timeout) (rest : List Arrival) :
    readExact n (bs.map .byte ++ .fail t.kind :: rest) = (.error t.kind, rest) := by
  induction bs generalizing n with
  | nil =>
    obtain ⟨n, rfl⟩ := Nat.exists_eq_add_of_lt short
    cases t <;> simp [readExact, Timeout.kind]
  | cons b bs ih =>
    cases n with
    | zero => simp at short
    | succ n =>
      have inner := ih (Nat.lt_of_succ_lt_succ short)
      simp only [List.map_cons, List.cons_append, readExact, inner]

/-- A read that meets the end of the stream takes what is left. -/
theorem readExact_eof {n : Nat} {bs : List UInt8} (short : bs.length < n) :
    readExact n (bs.map .byte) = (.error .unexpectedEof, []) := by
  induction bs generalizing n with
  | nil =>
    obtain ⟨n, rfl⟩ := Nat.exists_eq_add_of_lt short
    simp [readExact]
  | cons b bs ih =>
    cases n with
    | zero => simp at short
    | succ n =>
      have inner := ih (Nat.lt_of_succ_lt_succ short)
      simp only [List.map_cons, readExact, inner]

/-- What one `readExact` can meet on a stream with timeouts. -/
inductive ReadOutcome (n : Nat) : List Slot → List Arrival → Prop where
  | frame (v : Bytes n) (rest : List Arrival) {q : List Slot} (follows : Follows q rest) :
      ReadOutcome n (List.replicate n .byte ++ q) (v.toList.map .byte ++ rest)
  | timeout (bs : List UInt8) (t : Timeout) (rest : List Arrival) {q : List Slot} (short : bs.length < n)
      (follows : Follows q rest) :
      ReadOutcome n (List.replicate bs.length .byte ++ .timeout t :: q) (bs.map .byte ++ .fail t.kind :: rest)
  | eof (bs : List UInt8) (short : bs.length < n) : ReadOutcome n (List.replicate bs.length .byte) (bs.map .byte)

theorem Follows.outcome {p : List Slot} {s : List Arrival} (h : Follows p s) (n : Nat) : ReadOutcome n p s := by
  rcases pattern_cases n p with ⟨q, rfl⟩ | ⟨k, t, q, short, rfl⟩ | ⟨k, short, rfl⟩
  · obtain ⟨r, rest, rfl, front, back⟩ := h.split
    obtain ⟨bs, size, rfl⟩ := front.bytes
    exact .frame ⟨bs, size⟩ rest back
  · obtain ⟨r, rest, rfl, front, back⟩ := h.split
    obtain ⟨bs, rfl, rfl⟩ := front.bytes
    cases back with
    | timeout _ back => exact .timeout bs t _ short back
  · obtain ⟨bs, rfl, rfl⟩ := h.bytes
    exact .eof bs short

/-- The number of bytes that are there before the first failure. -/
def promptBytes : List Arrival → Nat
  | .byte _ :: s => promptBytes s + 1
  | _ => 0

theorem promptBytes_append (bs : List UInt8) (rest : List Arrival) :
    promptBytes (bs.map .byte ++ rest) = bs.length + promptBytes rest := by
  induction bs with
  | nil => simp
  | cons b bs ih => simp only [List.map_cons, List.cons_append, promptBytes, ih, List.length_cons]; omega

theorem promptBytes_le (s : List Arrival) : promptBytes s ≤ (bytesOf s).length := by
  induction s with
  | nil => exact Nat.le_refl _
  | cons a s ih =>
    cases a with
    | byte b => exact Nat.succ_le_succ ih
    | fail e => exact Nat.zero_le _

/-- Whether it succeeds or not, one read takes the prompt bytes, as far as it wants them. -/
theorem Follows.bytesOf_readExact {p : List Slot} {s : List Arrival} (h : Follows p s) (n : Nat) :
    bytesOf (readExact n s).2 = (bytesOf s).drop (min n (promptBytes s)) := by
  cases h.outcome n with
  | frame v rest later =>
    rw [readExact_bytes, promptBytes_append, List.Vector.toList_length, Nat.min_eq_left (Nat.le_add_right ..),
      bytesOf_append, bytesOf_map_byte, List.drop_left' v.toList_length]
  | timeout bs t rest short later =>
    rw [readExact_timeout short, promptBytes_append]
    simp only [promptBytes, Nat.add_zero, Nat.min_eq_right (Nat.le_of_lt short), bytesOf_append, bytesOf_map_byte,
      bytesOf, List.drop_left]
  | eof bs short =>
    have prompt := promptBytes_append bs []
    rw [List.append_nil] at prompt
    rw [readExact_eof short, prompt, bytesOf_map_byte]
    simp only [promptBytes, Nat.add_zero, Nat.min_eq_right (Nat.le_of_lt short), bytesOf, List.drop_length]

/-- A read that succeeds has found its bytes in front of the stream. -/
theorem Follows.of_readExact {p : List Slot} {s : List Arrival} (h : Follows p s) {n : Nat} {v : Bytes n}
    {rest : List Arrival} (taken : readExact n s = (.ok v, rest)) :
    s = v.toList.map .byte ++ rest ∧ ∃ q, Follows q rest := by
  cases h.outcome n with
  | frame v' rest' later =>
    rw [readExact_bytes] at taken
    cases taken
    exact ⟨rfl, _, later⟩
  | timeout bs t rest' short later =>
    rw [readExact_timeout short] at taken
    cases taken
  | eof bs short =>
    rw [readExact_eof short] at taken
    cases taken

theorem Follows.suffix {p : List Slot} {s t : List Arrival} (h : Follows p s) (suffix : t <:+ s) :
    ∃ q, Follows q t := by
  induction h with
  | nil => exact ⟨[], List.suffix_nil.1 suffix ▸ .nil⟩
  | @byte p s b rest ih =>
    rcases List.suffix_cons_iff.1 suffix with rfl | suffix
    · exact ⟨_, .byte b rest⟩
    · exact ih suffix
  | @timeout p s k rest ih =>
    rcases List.suffix_cons_iff.1 suffix with rfl | suffix
    · exact ⟨_, .timeout k rest⟩
    · exact ih suffix

theorem takeBytes_suffix (limit : Nat) (s : List Arrival) : (takeBytes limit s).2 <:+ s := by
  induction s generalizing limit with
  | nil => cases limit <;> exact List.suffix_refl _
  | cons a s ih =>
    cases limit with
    | zero => exact List.suffix_refl _
    | succ limit =>
      cases a with
      | byte b => exact (ih limit).trans (List.suffix_cons ..)
      | fail e => exact List.suffix_refl _

theorem readExact_suffix (n : Nat) (s : List Arrival) : (readExact n s).2 <:+ s := by
  induction s generalizing n with
  | nil => cases n <;> simp [readExact]
  | cons a s ih =>
    cases n with
    | zero => simp [readExact]
    | succ n =>
      cases a with
      | byte b =>
        have inner := ih n
        simp only [readExact]
        split <;> rename_i taken <;> rw [taken] at inner <;> exact inner.trans (List.suffix_cons ..)
      | fail e =>
        simp only [readExact]
        split
        · exact (ih (n + 1)).trans (List.suffix_cons ..)
        · exact List.suffix_cons ..

/-! ## Cutting -/

theorem cut_short {n : Nat} {bytes : List UInt8} (short : bytes.length < n) : cut n bytes = [] := by
  simp [cut, Nat.div_eq_of_lt short]

/-- The first group of a stream is its first `n` bytes. -/
theorem cut_append {n : Nat} (pos : 0 < n) (v : Bytes n) (bytes : List UInt8) :
    cut n (v.toList ++ bytes) = v :: cut n bytes := by
  have count : (v.toList ++ bytes).length / n = bytes.length / n + 1 := by
    rw [List.length_append, List.Vector.toList_length, Nat.add_comm, Nat.add_div_right _ pos]
  rw [cut, count, List.range_succ_eq_map, List.map_cons, List.map_map, cut]
  congr 1
  · refine List.Vector.ext fun j => ?_
    have inside : n * 0 + (j : Nat) < v.toList.length := by simp [j.isLt]
    rw [List.Vector.get_ofFn, List.getD_append _ _ _ _ inside, List.Vector.get_eq_get_toList]
    simp
  · refine List.map_congr_left fun i _ => ?_
    refine congrArg _ (funext fun j => ?_)
    have outside : v.toList.length ≤ n * (i + 1) + (j : Nat) := by
      rw [List.Vector.toList_length, Nat.mul_add]; omega
    have back : n * (i + 1) + (j : Nat) - v.toList.length = n * i + (j : Nat) := by
      rw [List.Vector.toList_length, Nat.mul_add]; omega
    rw [Nat.succ_eq_add_one, List.getD_append_right _ _ _ _ outside, back]

/-- The groups of a longer stream start with those of the shorter one. -/
theorem cut_append_left (n : Nat) (bytes more : List UInt8) : cut n bytes <+: cut n (bytes ++ more) := by
  have fewer : bytes.length / n ≤ (bytes ++ more).length / n := Nat.div_le_div_right (by simp)
  refine ⟨((List.range ((bytes ++ more).length / n)).drop (bytes.length / n)).map fun i =>
    .ofFn fun j => (bytes ++ more).getD (n * i + j) 0, ?_⟩
  have head : cut n bytes = (List.range (bytes.length / n)).map fun i =>
      .ofFn fun j => (bytes ++ more).getD (n * i + j) 0 := by
    refine List.map_congr_left fun i member => congrArg _ (funext fun j => ?_)
    have row : n * (i + 1) ≤ n * (bytes.length / n) := Nat.mul_le_mul_left n (List.mem_range.1 member)
    have inside : n * i + j < bytes.length := by
      have := Nat.mul_div_le bytes.length n
      rw [Nat.mul_add, Nat.mul_one] at row
      omega
    rw [List.getD_append _ _ _ _ inside]
  rw [head, ← List.map_append, cut]
  congr 1
  conv => rhs; rw [← List.take_append_drop (bytes.length / n) (List.range _)]
  rw [List.take_range, Nat.min_eq_left fewer]

/-- A group has no bytes but those of the stream. -/
theorem mem_cut {n : Nat} {bytes : List UInt8} {f : Bytes n} (member : f ∈ cut n bytes) {b : UInt8}
    (inside : b ∈ f.toList) : b ∈ bytes ∨ b = 0 := by
  obtain ⟨i, -, rfl⟩ := List.mem_map.1 member
  rw [List.Vector.toList_ofFn, List.mem_ofFn] at inside
  obtain ⟨j, rfl⟩ := inside
  rcases Nat.lt_or_ge (n * i + j) bytes.length with within | beyond
  · rw [List.getD_eq_getElem _ _ within]
    exact .inl (List.getElem_mem within)
  · exact .inr (List.getD_eq_default _ _ beyond)

/-! ## Reading frame by frame -/

theorem taken_eq {s rest : List Arrival} {gone : List UInt8} (h : bytesOf s = gone ++ bytesOf rest) :
    taken s rest = gone := by
  rw [taken, h, List.length_append, Nat.add_sub_cancel, List.take_left]

/-- Reading leaves the end of the stream. -/
theorem bytesOf_readFrames (n m : Nat) (s : List Arrival) :
    ∃ gone, bytesOf s = gone ++ bytesOf (readFrames n m s).2 := by
  induction m generalizing s with
  | zero => exact ⟨[], rfl⟩
  | succ m ih =>
    simp only [readFrames]
    split
    · rename_i v rest here
      obtain ⟨gone, later⟩ := ih rest
      exact ⟨v.toList ++ gone, by rw [bytesOf_readExact_ok here, later, List.append_assoc]⟩
    · rename_i e rest here
      obtain ⟨lost, -, first⟩ := bytesOf_readExact_error here
      obtain ⟨gone, later⟩ := ih rest
      exact ⟨lost ++ gone, by rw [first, later, List.append_assoc]⟩

/-- A stream shorter than a frame delivers none. -/
theorem readFrames_short {n m : Nat} {s : List Arrival} (short : (bytesOf s).length < n) :
    (readFrames n m s).1 = [] := by
  induction m generalizing s with
  | zero => rfl
  | succ m ih =>
    simp only [readFrames]
    split
    · rename_i v rest here
      rw [bytesOf_readExact_ok here, List.length_append, List.Vector.toList_length] at short
      omega
    · rename_i e rest here
      obtain ⟨lost, -, first⟩ := bytesOf_readExact_error here
      rw [first, List.length_append] at short
      exact ih (by omega)

/-- Frames are made of bytes of the stream. -/
theorem mem_readFrames {n m : Nat} {s : List Arrival} {f : Bytes n} (member : f ∈ (readFrames n m s).1) {b : UInt8}
    (inside : b ∈ f.toList) : b ∈ bytesOf s := by
  induction m generalizing s with
  | zero => simp [readFrames] at member
  | succ m ih =>
    simp only [readFrames] at member
    split at member
    · rename_i v rest here
      rw [bytesOf_readExact_ok here, List.mem_append]
      rcases List.mem_cons.1 member with rfl | member
      · exact .inl inside
      · exact .inr (ih member)
    · rename_i e rest here
      obtain ⟨lost, -, first⟩ := bytesOf_readExact_error here
      rw [first, List.mem_append]
      exact .inr (ih member)

theorem Aligned.of_append {n : Nat} {p q : List Slot} (whole : byteCount p = 0 ∨ byteCount p = n)
    (aligned : Aligned n (p ++ q)) : Aligned n q := by
  rintro before t after rfl
  have here := aligned (p ++ before) t after (by simp)
  simp only [byteCount_append] at here ⊢
  rcases whole with empty | one
  · simpa [empty] using here
  · rcases Nat.eq_zero_or_pos n with rfl | pos
    · simpa [one] using here
    · rw [one, Nat.add_mod_left, Nat.add_div_left _ pos, Nat.mul_add n _ 1] at here
      omega

/-- **Aligned patterns keep the framing**: after any number of reads, the frames are the
groups of the bytes taken so far. -/
theorem frames_kept {n : Nat} (pos : 0 < n) (m : Nat) {p : List Slot} (aligned : Aligned n p) {s : List Arrival}
    (follows : Follows p s) : (readFrames n m s).1 = cut n (taken s (readFrames n m s).2) := by
  suffices ∃ gone, bytesOf s = gone ++ bytesOf (readFrames n m s).2 ∧ (readFrames n m s).1 = cut n gone by
    obtain ⟨gone, split, frames⟩ := this
    rw [taken_eq split, frames]
  induction m generalizing p s with
  | zero => exact ⟨[], rfl, (cut_short pos).symm⟩
  | succ m ih =>
    by_cases short : byteCount p < n
    · -- nothing is delivered, and fewer than `n` bytes are lost
      obtain ⟨gone, split⟩ := bytesOf_readFrames n (m + 1) s
      refine ⟨gone, split, ?_⟩
      have size := follows.length_bytesOf
      rw [readFrames_short (by omega), cut_short]
      rw [split, List.length_append] at size
      omega
    · cases follows.outcome n with
      | frame v rest later =>
        obtain ⟨gone, split, frames⟩ := ih (aligned.of_append (.inr (byteCount_replicate n))) later
        refine ⟨v.toList ++ gone, ?_, ?_⟩
        · simp only [readFrames, readExact_bytes, bytesOf_append, bytesOf_map_byte, split, List.append_assoc]
        · simp only [readFrames, readExact_bytes, frames, cut_append pos]
      | timeout bs t rest early later =>
        have between := aligned _ t _ rfl
        rw [byteCount_replicate, Nat.mod_eq_of_lt early, Nat.div_eq_of_lt early, Nat.zero_add, Nat.mul_one] at between
        have empty : bs = [] := List.eq_nil_of_length_eq_zero (by omega)
        subst empty
        have aligned' : Aligned n ([.timeout t] ++ _) := aligned
        obtain ⟨gone, split, frames⟩ := ih (aligned'.of_append (.inl rfl)) later
        have read := readExact_timeout early t
        simp only [List.map_nil, List.nil_append] at read
        refine ⟨gone, ?_, ?_⟩
        · simpa only [List.map_nil, List.nil_append, readFrames, read, bytesOf] using split
        · simpa only [List.map_nil, List.nil_append, readFrames, read] using frames
      | eof bs early => simp at short; omega

/-! ## Misplaced timeouts -/

theorem aligned_of_short {n : Nat} {p : List Slot} (short : byteCount p < n) : Aligned n p := by
  intro before t after _
  refine .inr (Nat.lt_of_lt_of_le short ?_)
  rw [Nat.mul_add, Nat.mul_one]
  exact Nat.le_add_left ..

theorem aligned_timeout {n : Nat} {q : List Slot} (aligned : Aligned n q) (t : Timeout) :
    Aligned n (.timeout t :: q) := by
  intro before t' after split
  cases before with
  | nil => exact .inl (by simp [byteCount])
  | cons a before =>
    rw [List.cons_append, List.cons.injEq] at split
    obtain ⟨rfl, split⟩ := split
    exact aligned before t' after split

theorem aligned_frame {n : Nat} (pos : 0 < n) {q : List Slot} (aligned : Aligned n q) :
    Aligned n (List.replicate n .byte ++ q) := by
  intro before t after split
  rcases List.append_eq_append_iff.1 split with ⟨front, rfl, rest⟩ | ⟨back, whole, rest⟩
  · have here := aligned front t after rest
    rw [byteCount_append, byteCount_append, byteCount_replicate, Nat.add_mod_left, Nat.add_div_left _ pos,
      Nat.mul_add n _ 1]
    omega
  · cases back with
    | nil =>
      rw [List.append_nil] at whole
      exact .inl (by rw [← whole, byteCount_replicate, Nat.mod_self])
    | cons a back =>
      rw [List.cons_append, List.cons.injEq] at rest
      have member : Slot.timeout t ∈ List.replicate n Slot.byte := by
        rw [whole, ← rest.1]
        simp
      exact absurd (List.eq_of_mem_replicate member) (by simp)

/-- The groups of a stream start with its first byte. -/
theorem cut_head {n : Nat} (pos : 0 < n) {b : UInt8} {bytes : List UInt8} (long : n ≤ (b :: bytes).length) :
    ∃ v rest, cut n (b :: bytes) = v :: rest ∧ b ∈ v.toList := by
  have size : ((b :: bytes).take n).length = n := by rw [List.length_take]; omega
  let v : Bytes n := ⟨_, size⟩
  refine ⟨v, cut n ((b :: bytes).drop n), ?_, ?_⟩
  · rw [← cut_append pos v]
    exact congrArg _ (List.take_append_drop n (b :: bytes)).symm
  · obtain ⟨n, rfl⟩ := Nat.exists_eq_add_of_lt pos
    simp [v, List.Vector.toList]

/-- However often it is read to its end, `s` does not give its frames. -/
def LosesFrames (n : Nat) (s : List Arrival) : Prop :=
  ∀ m, (readFrames n m s).2 = [] → (readFrames n m s).1 ≠ cut n (bytesOf s)

/-- A whole frame in front changes nothing. -/
theorem LosesFrames.frame {n : Nat} (pos : 0 < n) (v : Bytes n) {s : List Arrival} (loses : LosesFrames n s) :
    LosesFrames n (v.toList.map .byte ++ s) := by
  rintro (_ | m) drained same
  · have size := congrArg List.length drained
    simp [readFrames] at size
    omega
  · rw [bytesOf_append, bytesOf_map_byte, cut_append pos] at same
    simp only [readFrames, readExact_bytes, List.cons.injEq, true_and] at same drained
    exact loses m drained same

/-- A timeout between two frames changes nothing either. -/
theorem LosesFrames.timeout {n : Nat} (pos : 0 < n) (t : Timeout) {s : List Arrival} (loses : LosesFrames n s) :
    LosesFrames n (.fail t.kind :: s) := by
  have early : ([] : List UInt8).length < n := pos
  have read : readExact n (.fail t.kind :: s) = (.error t.kind, s) := readExact_timeout early t s
  rintro (_ | m) drained same
  · simp [readFrames] at drained
  · simp only [readFrames, read, bytesOf] at same drained
    exact loses m drained same

/-- The frame that is cut off started with the only one of the stream. -/
theorem losesFrames_cut_off {n k : Nat} (early : k + 1 < n) (t : Timeout) {s : List Arrival}
    (zeros : ∀ b ∈ bytesOf s, b = 0) (long : n ≤ k + 1 + (bytesOf s).length) :
    LosesFrames n ((1 :: List.replicate k 0).map .byte ++ .fail t.kind :: s) := by
  have count : (1 :: List.replicate k (0 : UInt8)).length = k + 1 := by simp
  have bytes : bytesOf ((1 :: List.replicate k 0).map .byte ++ .fail t.kind :: s) =
      1 :: (List.replicate k 0 ++ bytesOf s) := by
    rw [bytesOf_append, bytesOf_map_byte]
    rfl
  rintro (_ | m) drained same
  · simp [readFrames] at drained
  · simp only [readFrames, readExact_timeout (count.trans_lt early)] at same
    rw [bytes] at same
    have whole : n ≤ (1 :: (List.replicate k 0 ++ bytesOf s)).length := by
      simp only [List.length_cons, List.length_append, List.length_replicate]
      omega
    obtain ⟨v, rest, groups, first⟩ := cut_head (Nat.zero_lt_of_lt early) whole
    have member : v ∈ (readFrames n m s).1 := by rw [same, groups]; simp
    exact absurd (zeros 1 (mem_readFrames member first)) (by decide)

/-- **Other patterns lose it**: some content, of zeros and ones, is read in frames that are
not the groups of the stream. -/
theorem frames_lost {n : Nat} (pos : 0 < n) {p : List Slot} (misplaced : ¬Aligned n p) :
    ∃ s, Follows p s ∧ (∀ b ∈ bytesOf s, b = 0 ∨ b = 1) ∧ LosesFrames n s := by
  induction size : p.length using Nat.strong_induction_on generalizing p with
  | _ len ih =>
    rcases pattern_cases n p with ⟨q, rfl⟩ | ⟨k, t, q, early, rfl⟩ | ⟨k, early, rfl⟩
    · have shorter : q.length < len := by simp at size; omega
      obtain ⟨s, follows, small, loses⟩ := ih _ shorter (fun aligned => misplaced (aligned_frame pos aligned)) rfl
      let v : Bytes n := .replicate n 0
      have zeros : v.toList = List.replicate n 0 := rfl
      refine ⟨v.toList.map .byte ++ s, ?_, ?_, loses.frame pos v⟩
      · have front := follows_bytes v.toList
        rw [List.Vector.toList_length] at front
        exact front.append follows
      · rw [bytesOf_append, bytesOf_map_byte, zeros]
        intro b member
        rcases List.mem_append.1 member with here | there
        · exact .inl (List.eq_of_mem_replicate here)
        · exact small b there
    · rcases Nat.eq_zero_or_pos k with rfl | inside
      · have shorter : q.length < len := by simp at size; omega
        obtain ⟨s, follows, small, loses⟩ := ih _ shorter (fun aligned => misplaced (aligned_timeout aligned t)) rfl
        exact ⟨.fail t.kind :: s, .timeout t follows, by simpa [bytesOf] using small, loses.timeout pos t⟩
      · obtain ⟨k, rfl⟩ := Nat.exists_eq_add_one_of_ne_zero (Nat.ne_of_gt inside)
        obtain ⟨s, follows, zeros⟩ := exists_zeros q
        have enough : n ≤ k + 1 + (bytesOf s).length := by
          have total : ¬byteCount (List.replicate (k + 1) .byte ++ .timeout t :: q) < n :=
            fun short => misplaced (aligned_of_short short)
          simp only [byteCount_append, byteCount_replicate, byteCount] at total
          rw [follows.length_bytesOf]
          omega
        refine ⟨(1 :: List.replicate k 0).map .byte ++ .fail t.kind :: s, ?_, ?_, losesFrames_cut_off early t zeros enough⟩
        · have front := follows_bytes (1 :: List.replicate k 0)
          rw [List.length_cons, List.length_replicate] at front
          exact front.append (.timeout t follows)
        · rw [bytesOf_append, bytesOf_map_byte]
          intro b member
          simp only [bytesOf, List.mem_append, List.mem_cons, List.mem_replicate] at member
          rcases member with (rfl | ⟨-, rfl⟩) | there
          · exact .inr rfl
          · exact .inl rfl
          · exact .inl (zeros b there)
    · exact absurd (aligned_of_short (by simpa using early)) misplaced

end ByteIo

import Mathlib.Data.Vector.Defs

/-!
# Byte-stream input and output

The part of an operating system's byte streams that a program sees: reads that deliver a
few bytes, time out or end, writes that accept a prefix of what they are offered. The
reader's side is a list of `Arrival`s, so that a failure can fall between any two bytes;
the writer's side is the `Write` interface. `readExact` and `writeAll` are the loops of
Rust's standard library over them: a `readExact` that fails drops the bytes it has already
taken, and a `writeAll` offers again what was not accepted.
-/

namespace ByteIo
set_option autoImplicit false

/-- The kinds of input/output error that programs tell apart. -/
inductive ErrorKind where
  | wouldBlock
  | timedOut
  | unexpectedEof
  | connectionReset
  | brokenPipe
  | connectionAborted
  | notConnected
  | interrupted
  | writeZero
  | other
  deriving DecidableEq, Repr

/-- A read that ran into the socket's timeout. -/
def ErrorKind.isTimeout (e : ErrorKind) : Bool :=
  e == .wouldBlock || e == .timedOut

/-- A sequence of fallible steps that succeeds has a first step that succeeds. -/
theorem bind_eq_ok {ε α β : Type} {x : Except ε α} {f : α → Except ε β} {b : β} (h : x.bind f = .ok b) :
    ∃ a, x = .ok a ∧ f a = .ok b := by
  cases x with
  | error e => cases h
  | ok a => exact ⟨a, rfl, h⟩

theorem mapError_eq_ok {ε ε' α : Type} {x : Except ε α} {f : ε → ε'} {a : α} (h : x.mapError f = .ok a) :
    x = .ok a := by
  cases x with
  | error e => cases h
  | ok a' => cases h; rfl

/-- A byte array of fixed length. -/
abbrev Bytes (n : Nat) := List.Vector UInt8 n

/-- What the next read of a socket meets: a byte, or a failure that takes no byte. -/
inductive Arrival where
  | byte (b : UInt8)
  | fail (e : ErrorKind)
  deriving DecidableEq, Repr

/-- The bytes of a stream, without the failures between them. -/
def bytesOf : List Arrival → List UInt8
  | [] => []
  | .byte b :: s => b :: bytesOf s
  | .fail _ :: s => bytesOf s

/-- `Read::read_exact` for `n` bytes. The list that is left starts after everything the
call has taken, also when it fails; an exhausted list is the end of the stream. -/
def readExact : (n : Nat) → List Arrival → Except ErrorKind (Bytes n) × List Arrival
  | 0, s => (.ok .nil, s)
  | _ + 1, [] => (.error .unexpectedEof, [])
  | n + 1, .byte b :: s =>
    match readExact n s with
    | (.ok v, rest) => (.ok (.cons b v), rest)
    | (.error e, rest) => (.error e, rest)
  | n + 1, .fail e :: s => if e = .interrupted then readExact (n + 1) s else (.error e, s)

/-- The bytes before the next failure, at most `limit` of them. -/
def takeBytes : (limit : Nat) → List Arrival → List UInt8 × List Arrival
  | n + 1, .byte b :: s => (b :: (takeBytes n s).1, (takeBytes n s).2)
  | _, s => ([], s)

/-- `Read::read` into a buffer, delivering at most `limit` bytes; `Ok` of nothing is the
end of the stream. -/
def read (limit : Nat) : List Arrival → Except ErrorKind (List UInt8) × List Arrival
  | .fail e :: s => (.error e, s)
  | s => (.ok (takeBytes limit s).1, (takeBytes limit s).2)

@[simp] theorem bytesOf_map_byte (bs : List UInt8) : bytesOf (bs.map .byte) = bs := by
  induction bs with
  | nil => rfl
  | cons b bs ih => simp [bytesOf, ih]

theorem bytesOf_append (s t : List Arrival) : bytesOf (s ++ t) = bytesOf s ++ bytesOf t := by
  induction s with
  | nil => rfl
  | cons a s ih => cases a <;> simp [bytesOf, ih]

/-- A successful `readExact` delivers the stream's next bytes and leaves the others. -/
theorem bytesOf_readExact_ok {n : Nat} {s rest : List Arrival} {v : Bytes n}
    (h : readExact n s = (.ok v, rest)) : bytesOf s = v.toList ++ bytesOf rest := by
  induction s generalizing n with
  | nil =>
    cases n with
    | zero => simp only [readExact, Prod.mk.injEq, Except.ok.injEq] at h; obtain ⟨rfl, rfl⟩ := h; rfl
    | succ n => simp [readExact] at h
  | cons a s ih =>
    cases n with
    | zero => simp only [readExact, Prod.mk.injEq, Except.ok.injEq] at h; obtain ⟨rfl, rfl⟩ := h; rfl
    | succ n =>
      cases a with
      | byte b =>
        simp only [readExact] at h
        split at h
        · rename_i w rest' inner
          simp only [Prod.mk.injEq, Except.ok.injEq] at h
          obtain ⟨rfl, rfl⟩ := h
          simp [bytesOf, ih inner]
        · simp at h
      | fail e =>
        simp only [readExact] at h
        split at h
        · simpa [bytesOf] using ih h
        · simp at h

/-- Bytes that are all there are read without a failure. -/
theorem readExact_bytes {n : Nat} (v : Bytes n) (rest : List Arrival) :
    readExact n (v.toList.map .byte ++ rest) = (.ok v, rest) := by
  induction n with
  | zero => simp [List.Vector.eq_nil v, readExact]
  | succ n ih =>
    rw [← List.Vector.cons_head_tail v]
    simp only [List.Vector.toList_cons, List.map_cons, List.cons_append, readExact, ih]

/-- A stream without failures: the bytes are there, or the stream ends before the last of them. -/
theorem readExact_plain (n : Nat) (bs : List UInt8) :
    (∃ (v : Bytes n) (rest : List UInt8), bs = v.toList ++ rest ∧ readExact n (bs.map .byte) = (.ok v, rest.map .byte)) ∨
      bs.length < n ∧ readExact n (bs.map .byte) = (.error .unexpectedEof, []) := by
  induction bs generalizing n with
  | nil =>
    cases n with
    | zero => exact .inl ⟨.nil, [], rfl, rfl⟩
    | succ n => exact .inr ⟨Nat.succ_pos n, rfl⟩
  | cons b bs ih =>
    cases n with
    | zero => exact .inl ⟨.nil, b :: bs, rfl, rfl⟩
    | succ n =>
      rcases ih n with ⟨v, rest, same, taken⟩ | ⟨short, failed⟩
      · refine .inl ⟨.cons b v, rest, ?_, ?_⟩
        · rw [List.Vector.toList_cons, List.cons_append, ← same]
        · simp only [List.map_cons, readExact, taken]
      · refine .inr ⟨Nat.succ_lt_succ short, ?_⟩
        simp only [List.map_cons, readExact, failed]

/-- A read that succeeds on a stream without failures takes its bytes off the front. -/
theorem readExact_plain_ok {n : Nat} {bs : List UInt8} {v : Bytes n} {rest : List Arrival}
    (taken : readExact n (bs.map .byte) = (.ok v, rest)) : ∃ left, bs = v.toList ++ left ∧ rest = left.map .byte := by
  rcases readExact_plain n bs with ⟨w, left, rfl, same⟩ | ⟨-, failed⟩
  · obtain ⟨known, rfl⟩ := Prod.mk.inj (taken.symm.trans same)
    obtain rfl := Except.ok.inj known
    exact ⟨left, rfl, rfl⟩
  · exact absurd (Prod.mk.inj (taken.symm.trans failed)).1 (by simp)

/-- A read that has succeeded does not depend on what comes later. -/
theorem readExact_append {n : Nat} {s rest : List Arrival} {v : Bytes n} (taken : readExact n s = (.ok v, rest))
    (later : List Arrival) : readExact n (s ++ later) = (.ok v, rest ++ later) := by
  induction s generalizing n with
  | nil =>
    cases n with
    | zero =>
      obtain ⟨-, rfl⟩ := Prod.mk.inj taken
      simp [readExact, List.Vector.eq_nil v]
    | succ n => simp [readExact] at taken
  | cons a s ih =>
    cases n with
    | zero =>
      obtain ⟨-, rfl⟩ := Prod.mk.inj taken
      simp [readExact, List.Vector.eq_nil v]
    | succ n =>
      cases a with
      | byte b =>
        simp only [List.cons_append, readExact] at taken ⊢
        split at taken
        · rename_i w rest' inner
          obtain ⟨same, rfl⟩ := Prod.mk.inj taken
          simp only [ih inner, same]
        · simp at taken
      | fail e =>
        simp only [List.cons_append, readExact] at taken ⊢
        split at taken
        · rw [if_pos ‹_›]
          exact ih taken
        · simp at taken

/-- A failed `readExact` has dropped fewer bytes than it was asked for. -/
theorem bytesOf_readExact_error {n : Nat} {s rest : List Arrival} {e : ErrorKind}
    (h : readExact n s = (.error e, rest)) :
    ∃ lost, lost.length < n ∧ bytesOf s = lost ++ bytesOf rest := by
  induction s generalizing n with
  | nil =>
    cases n with
    | zero => simp [readExact] at h
    | succ n =>
      simp only [readExact, Prod.mk.injEq, Except.error.injEq] at h
      obtain ⟨rfl, rfl⟩ := h
      exact ⟨[], by simp, rfl⟩
  | cons a s ih =>
    cases n with
    | zero => simp [readExact] at h
    | succ n =>
      cases a with
      | byte b =>
        simp only [readExact] at h
        split at h
        · simp at h
        · rename_i e' rest' inner
          simp only [Prod.mk.injEq, Except.error.injEq] at h
          obtain ⟨rfl, rfl⟩ := h
          obtain ⟨lost, short, same⟩ := ih inner
          exact ⟨b :: lost, by simp only [List.length_cons]; omega, by simp [bytesOf, same]⟩
      | fail e' =>
        simp only [readExact] at h
        split at h
        · obtain ⟨lost, short, same⟩ := ih h
          exact ⟨lost, short, by simpa [bytesOf] using same⟩
        · simp only [Prod.mk.injEq, Except.error.injEq] at h
          obtain ⟨rfl, rfl⟩ := h
          exact ⟨[], by simp, rfl⟩

/-- `takeBytes` splits the stream's bytes. -/
theorem bytesOf_takeBytes (limit : Nat) (s : List Arrival) :
    (takeBytes limit s).1 ++ bytesOf (takeBytes limit s).2 = bytesOf s := by
  induction s generalizing limit with
  | nil => cases limit <;> rfl
  | cons a s ih =>
    cases limit with
    | zero => rfl
    | succ n =>
      cases a with
      | byte b => simp [takeBytes, bytesOf, ih]
      | fail e => rfl

theorem length_takeBytes (limit : Nat) (s : List Arrival) : (takeBytes limit s).1.length ≤ limit := by
  induction s generalizing limit with
  | nil => cases limit <;> exact Nat.zero_le _
  | cons a s ih =>
    cases limit with
    | zero => exact Nat.le_refl _
    | succ n =>
      cases a with
      | byte b => exact Nat.succ_le_succ (ih n)
      | fail e => exact Nat.zero_le _

/-- A read delivers at most as much as its buffer holds. -/
theorem length_of_read {limit : Nat} {s rest : List Arrival} {bs : List UInt8} (h : read limit s = (.ok bs, rest)) :
    bs.length ≤ limit := by
  unfold read at h
  split at h
  · cases h
  · simp only [Prod.mk.injEq, Except.ok.injEq] at h
    obtain ⟨rfl, -⟩ := h
    exact length_takeBytes limit s

/-- What one `read` delivers is the next part of the stream. -/
theorem bytesOf_read_ok {limit : Nat} {s rest : List Arrival} {bs : List UInt8}
    (h : read limit s = (.ok bs, rest)) : bytesOf s = bs ++ bytesOf rest := by
  unfold read at h
  split at h
  · cases h
  · simp only [Prod.mk.injEq, Except.ok.injEq] at h
    obtain ⟨rfl, rfl⟩ := h
    exact (bytesOf_takeBytes limit s).symm

/-- A failed `read` takes no byte. -/
theorem bytesOf_read_error {limit : Nat} {s rest : List Arrival} {e : ErrorKind}
    (h : read limit s = (.error e, rest)) : bytesOf s = bytesOf rest := by
  unfold read at h
  split at h
  · simp only [Prod.mk.injEq] at h
    obtain ⟨-, rfl⟩ := h
    rfl
  · cases h

/-- The writer interface: a call may accept any part of what it is offered, or fail. -/
class Write (W : Type) where
  write : W → List UInt8 → Except ErrorKind Nat × W
  flush : W → Except ErrorKind Unit × W

/-- `Write::write_all`, through at most `fuel` calls of `write`; `none` when it has not
returned by then. An interrupted call is made again, an accepted part is not. -/
def writeAll {W : Type} [Write W] : (fuel : Nat) → W → List UInt8 → Option (Except ErrorKind Unit × W)
  | _, w, [] => some (.ok (), w)
  | 0, _, _ :: _ => none
  | fuel + 1, w, b :: bs =>
    match Write.write w (b :: bs) with
    | (.ok 0, w') => some (.error .writeZero, w')
    | (.ok (n + 1), w') => writeAll fuel w' (bs.drop n)
    | (.error e, w') => if e = .interrupted then writeAll fuel w' (b :: bs) else some (.error e, w')

/-- One `writeAll` after another, as long as they return `Ok`. -/
def writeEach {W : Type} [Write W] (fuel : Nat) : W → List (List UInt8) → Option W
  | w, [] => some w
  | w, buf :: bufs =>
    match writeAll fuel w buf with
    | some (.ok (), w') => writeEach fuel w' bufs
    | _ => none

/-- The reader interface: a call fills a prefix of the caller's buffer and says how long
that prefix is. -/
class Read (R : Type) where
  read : R → List UInt8 → Except ErrorKind Nat × List UInt8 × R

/-- The bytes that a sequence of `read` calls delivers into the given buffers. -/
def readAll {R : Type} [Read R] : R → List (List UInt8) → List UInt8 × R
  | r, [] => ([], r)
  | r, buf :: bufs =>
    match Read.read r buf with
    | (.ok n, filled, r') => (filled.take n ++ (readAll r' bufs).1, (readAll r' bufs).2)
    | (.error _, _, r') => readAll r' bufs

/-- What the next call of a scripted writer does: accept a non-empty prefix of at most
`most + 1` bytes, or fail. -/
inductive Accept where
  | upTo (most : Nat)
  | fail (e : ErrorKind)
  deriving DecidableEq, Repr

/-- A writer that follows a script and keeps what it accepted. A script that has run out
is a peer that takes nothing more. -/
structure Sink where
  script : List Accept
  accepted : List UInt8
  deriving DecidableEq, Repr

instance : Write Sink where
  write w buf :=
    match w.script with
    | [] => (.error .timedOut, w)
    | .upTo n :: script => (.ok (min (n + 1) buf.length), ⟨script, w.accepted ++ buf.take (n + 1)⟩)
    | .fail e :: script => (.error e, ⟨script, w.accepted⟩)
  flush w := (.ok (), w)

/-- A reader that delivers `pending` in the portions its script asks for, and in portions
as large as the buffer once the script has run out. -/
structure Source where
  script : List (Except ErrorKind Nat)
  pending : List UInt8

/-- One `read` of a source that is willing to deliver at most `most` bytes. -/
def Source.deliver (r : Source) (script : List (Except ErrorKind Nat)) (most : Nat) (buf : List UInt8) :
    Except ErrorKind Nat × List UInt8 × Source :=
  let n := min most (min buf.length r.pending.length)
  (.ok n, r.pending.take n ++ buf.drop n, ⟨script, r.pending.drop n⟩)

instance : Read Source where
  read r buf :=
    match r.script with
    | [] => r.deliver [] buf.length buf
    | .ok most :: script => r.deliver script most buf
    | .error e :: script => (.error e, buf, ⟨script, r.pending⟩)

/-- What a reader promises: it delivers the bytes of `remaining` in order, a call fills a prefix of
the buffer and may use the rest of it as it likes, and a call that fails takes no byte. -/
structure Delivers {R : Type} [Read R] (remaining : R → List UInt8) : Prop where
  ok : ∀ {r r' : R} {buf filled : List UInt8} {n : Nat}, Read.read r buf = (.ok n, filled, r') →
    n ≤ filled.length ∧ filled.length = buf.length ∧ remaining r = filled.take n ++ remaining r'
  error : ∀ {r r' : R} {buf filled : List UInt8} {e : ErrorKind}, Read.read r buf = (.error e, filled, r') →
    remaining r = remaining r'

/-- One portion of a source. -/
theorem Source.deliver_ok {r r' : Source} {script : List (Except ErrorKind Nat)} {most n : Nat} {buf filled : List UInt8}
    (delivered : r.deliver script most buf = (.ok n, filled, r')) :
    n ≤ filled.length ∧ filled.length = buf.length ∧ r.pending = filled.take n ++ r'.pending := by
  simp only [Source.deliver, Prod.mk.injEq, Except.ok.injEq] at delivered
  obtain ⟨rfl, rfl, rfl⟩ := delivered
  have size : (r.pending.take (min most (min buf.length r.pending.length))).length =
      min most (min buf.length r.pending.length) := by
    rw [List.length_take]
    omega
  refine ⟨?_, ?_, ?_⟩
  · rw [List.length_append, size]
    omega
  · rw [List.length_append, size, List.length_drop]
    omega
  · rw [List.take_left' size, List.take_append_drop]

theorem Source.delivers : Delivers Source.pending where
  ok := by
    intro r r' buf filled n answer
    simp only [Read.read] at answer
    split at answer
    · exact Source.deliver_ok answer
    · exact Source.deliver_ok answer
    · exact absurd (Prod.mk.inj answer).1 (by simp)
  error := by
    intro r r' buf filled e answer
    simp only [Read.read] at answer
    split at answer
    · exact absurd (Prod.mk.inj answer).1 (by simp)
    · exact absurd (Prod.mk.inj answer).1 (by simp)
    · obtain ⟨-, -, rfl⟩ := answer
      rfl

end ByteIo

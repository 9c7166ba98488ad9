import RtlTcp.Lib.ByteIo

/-!
# Files with a cursor

A writer that can be repositioned: its content, the position of the next write, and, for each
`write_all` to come, whether it succeeds. A write replaces what is under it and extends the
content past its end. A `write_all` may stop after any proper part of the buffer, on its own
account or because the content would pass the longest length the writer can have; the part
already written stays.
-/

namespace ByteIo
set_option autoImplicit false

/-- A seekable writer. `limit` is the longest content it can have, if there is one; `faults`
are the outcomes of the next calls of `write_all`: `some n` fails after at most `n` bytes, and
calls past the end of the list succeed. -/
structure SeekFile where
  content : List UInt8
  pos : Nat
  limit : Option Nat
  faults : List (Option Nat)
  deriving DecidableEq, Repr

namespace SeekFile

/-- An empty writer in memory. -/
def empty : SeekFile := ⟨[], 0, none, []⟩

/-- The content with `bs` at position `pos`; a gap before it is filled with zeros, and writing
nothing changes nothing. -/
def overwrite (content : List UInt8) (pos : Nat) (bs : List UInt8) : List UInt8 :=
  if bs.isEmpty then content
  else content.take pos ++ List.replicate (pos - content.length) 0 ++ bs ++ content.drop (pos + bs.length)

/-- Write at the cursor and move it. -/
def put (f : SeekFile) (bs : List UInt8) : SeekFile :=
  { f with content := overwrite f.content f.pos bs, pos := f.pos + bs.length }

/-- How many bytes there is room for. -/
def room (f : SeekFile) (n : Nat) : Nat :=
  match f.limit with
  | none => n
  | some limit => min n (limit - f.pos)

/-- `Write::write_all`. -/
def writeAll (f : SeekFile) : List UInt8 → Except ErrorKind Unit × SeekFile
  | [] => (.ok (), f)
  | b :: bs =>
    let buf := b :: bs
    match f.faults with
    | some n :: faults =>
      let written := buf.dropLast.take (f.room n)
      (.error .other, { f.put written with faults := faults })
    | _ =>
      let f := { f with faults := f.faults.tail }
      if f.room buf.length = buf.length then (.ok (), f.put buf)
      else (.error .other, f.put (buf.take (f.room buf.length)))

/-- How many bytes of a buffer the next `writeAll` writes, whether or not it fails. -/
def accepted (f : SeekFile) (bs : List UInt8) : Nat :=
  match f.faults with
  | some n :: _ => min (f.room n) (bs.length - 1)
  | _ => f.room bs.length

/-- `Seek::seek` to an offset from the start. -/
def seek (f : SeekFile) (pos : Nat) : SeekFile := { f with pos := pos }

/-- One `writeAll` after another, up to the first that fails. -/
def writeParts (f : SeekFile) : List (List UInt8) → Except ErrorKind Unit × SeekFile
  | [] => (.ok (), f)
  | part :: parts =>
    match f.writeAll part with
    | (.ok (), f) => f.writeParts parts
    | failed => failed

theorem overwrite_end (content bs : List UInt8) : overwrite content content.length bs = content ++ bs := by
  cases bs <;> simp [overwrite]

/-- `f'` is `f` after `bs` has been written at its end. -/
structure Appended (f : SeekFile) (bs : List UInt8) (f' : SeekFile) : Prop where
  content : f'.content = f.content ++ bs
  atEnd : f'.pos = f'.content.length
  limit : f'.limit = f.limit
  within : ∀ most, f.limit = some most → f.content.length ≤ most → f'.content.length ≤ most

theorem Appended.refl {f : SeekFile} (atEnd : f.pos = f.content.length) : Appended f [] f :=
  ⟨(List.append_nil _).symm, atEnd, rfl, fun _ _ fits => fits⟩

theorem Appended.trans {f g h : SeekFile} {bs cs : List UInt8} (first : Appended f bs g) (second : Appended g cs h) :
    Appended f (bs ++ cs) h where
  content := by rw [second.content, first.content, List.append_assoc]
  atEnd := second.atEnd
  limit := second.limit.trans first.limit
  within most bound fits := second.within most (first.limit.trans bound) (first.within most bound fits)

/-- Bytes that there is room for are appended at the end. -/
theorem put_appended {f : SeekFile} (atEnd : f.pos = f.content.length) {n : Nat} (bs : List UInt8)
    (short : bs.length ≤ f.room n) : Appended f bs (f.put bs) := by
  refine ⟨?_, ?_, rfl, fun most bound fits => ?_⟩
  · simp only [put, atEnd, overwrite_end]
  · simp only [put, atEnd, overwrite_end, List.length_append]
  · simp only [room, bound] at short
    simp only [put, atEnd, overwrite_end, List.length_append]
    omega

/-- A `writeAll` at the end of the content appends the part of the buffer that it writes. -/
theorem writeAll_part {f : SeekFile} (atEnd : f.pos = f.content.length) (bs : List UInt8) :
    Appended f (bs.take (f.accepted bs)) (f.writeAll bs).2 := by
  cases bs with
  | nil =>
    rw [List.take_nil]
    exact .refl atEnd
  | cons b bs =>
    unfold writeAll accepted
    dsimp only
    split
    · rename_i n faults _
      have part : (b :: bs).take (min (f.room n) ((b :: bs).length - 1)) = (b :: bs).dropLast.take (f.room n) := by
        rw [List.dropLast_eq_take, List.take_take]
      obtain ⟨content, ended, limit, within⟩ := put_appended atEnd (n := n)
        ((b :: bs).dropLast.take (f.room n)) (List.length_take_le ..)
      rw [part]
      exact ⟨content, ended, limit, within⟩
    · have part := put_appended (f := { f with faults := f.faults.tail }) atEnd (n := (b :: bs).length)
        _ (List.length_take_le (f.room (b :: bs).length) (b :: bs))
      split
      · rename_i fits
        have all : (b :: bs).take (f.room (b :: bs).length) = b :: bs := List.take_of_length_le (Nat.le_of_eq fits.symm)
        rw [all] at part ⊢
        exact ⟨part.content, part.atEnd, part.limit, part.within⟩
      · exact ⟨part.content, part.atEnd, part.limit, part.within⟩

/-- A `writeAll` succeeds when it writes the whole buffer. -/
theorem writeAll_ok {f f' : SeekFile} {bs : List UInt8} (wrote : f.writeAll bs = (.ok (), f')) :
    bs.take (f.accepted bs) = bs := by
  cases bs with
  | nil => exact List.take_nil
  | cons b bs =>
    unfold writeAll at wrote
    dsimp only at wrote
    split at wrote
    · cases wrote
    · rename_i faultless
      split at wrote
      · rename_i fits
        refine List.take_of_length_le (Nat.le_of_eq ?_)
        unfold accepted
        split
        · rename_i n faults script
          exact absurd script (faultless n faults)
        · exact fits.symm
      · cases wrote

/-- A `writeAll` at the end of the content that succeeds has appended the buffer. -/
theorem writeAll_appended {f f' : SeekFile} {bs : List UInt8} (atEnd : f.pos = f.content.length)
    (wrote : f.writeAll bs = (.ok (), f')) : Appended f bs f' := by
  have part := writeAll_part atEnd bs
  rwa [writeAll_ok wrote, wrote] at part

/-- In memory every `writeAll` succeeds. -/
theorem writeAll_memory {f : SeekFile} (unlimited : f.limit = none) (faultless : f.faults = []) (bs : List UInt8) :
    ∃ f', f.writeAll bs = (.ok (), f') ∧ f'.limit = none ∧ f'.faults = [] := by
  cases bs with
  | nil => exact ⟨f, rfl, unlimited, faultless⟩
  | cons b bs =>
    refine ⟨{ f with faults := [] }.put (b :: bs), ?_, unlimited, rfl⟩
    simp only [writeAll, faultless, room, unlimited, List.tail_nil, if_true]

theorem writeParts_appended {parts : List (List UInt8)} {f f' : SeekFile} (atEnd : f.pos = f.content.length)
    (wrote : f.writeParts parts = (.ok (), f')) : Appended f parts.flatten f' := by
  induction parts generalizing f with
  | nil =>
    cases wrote
    exact .refl atEnd
  | cons part parts ih =>
    simp only [writeParts] at wrote
    split at wrote
    · rename_i g first
      have head := writeAll_appended atEnd first
      exact head.trans (ih head.atEnd wrote)
    · rename_i failed
      exact absurd wrote (failed f')

theorem writeParts_memory {f : SeekFile} (unlimited : f.limit = none) (faultless : f.faults = [])
    (parts : List (List UInt8)) : ∃ f', f.writeParts parts = (.ok (), f') ∧ f'.limit = none ∧ f'.faults = [] := by
  induction parts generalizing f with
  | nil => exact ⟨f, rfl, unlimited, faultless⟩
  | cons part parts ih =>
    obtain ⟨g, first, unlimited', faultless'⟩ := writeAll_memory unlimited faultless part
    simp only [writeParts, first]
    exact ih unlimited' faultless'

/-! ## Writing within the content -/

/-- Without a gap, a write replaces what is under it. -/
theorem overwrite_within {content : List UInt8} {pos : Nat} (inside : pos ≤ content.length) (bs : List UInt8) :
    overwrite content pos bs = content.take pos ++ (bs ++ content.drop (pos + bs.length)) := by
  cases bs with
  | nil => simp [overwrite]
  | cons b bs => simp [overwrite, Nat.sub_eq_zero_of_le inside]

theorem length_overwrite {content : List UInt8} {pos : Nat} (inside : pos ≤ content.length) (bs : List UInt8) :
    (overwrite content pos bs).length = max content.length (pos + bs.length) := by
  rw [overwrite_within inside]
  simp only [List.length_append, List.length_take, List.length_drop]
  omega

/-- A write that goes on where another one has stopped. -/
theorem overwrite_overwrite {content : List UInt8} {pos : Nat} (inside : pos ≤ content.length) (bs cs : List UInt8) :
    overwrite (overwrite content pos bs) (pos + bs.length) cs = overwrite content pos (bs ++ cs) := by
  have reached : pos + bs.length ≤ (overwrite content pos bs).length := by
    rw [length_overwrite inside]
    exact Nat.le_max_right ..
  have front : (content.take pos ++ bs).length = pos + bs.length := by
    rw [List.length_append, List.length_take, Nat.min_eq_left inside]
  have under : overwrite content pos bs = (content.take pos ++ bs) ++ content.drop (pos + bs.length) := by
    rw [overwrite_within inside, List.append_assoc]
  have past : (overwrite content pos bs).drop (pos + bs.length + cs.length) = content.drop (pos + (bs ++ cs).length) := by
    rw [← List.drop_drop, under, List.drop_left' front, List.drop_drop, List.length_append, Nat.add_assoc]
  rw [overwrite_within reached, past, under, List.take_left' front, overwrite_within inside]
  simp only [List.append_assoc]

/-- `f'` is `f` after `bs` has been written at its cursor, which was not past the end. -/
structure Overwritten (f : SeekFile) (bs : List UInt8) (f' : SeekFile) : Prop where
  inside : f.pos ≤ f.content.length
  content : f'.content = overwrite f.content f.pos bs
  pos : f'.pos = f.pos + bs.length

theorem Overwritten.inside' {f f' : SeekFile} {bs : List UInt8} (h : Overwritten f bs f') : f'.pos ≤ f'.content.length := by
  rw [h.content, h.pos, length_overwrite h.inside]
  exact Nat.le_max_right ..

theorem Overwritten.trans {f g h : SeekFile} {bs cs : List UInt8} (first : Overwritten f bs g) (second : Overwritten g cs h) :
    Overwritten f (bs ++ cs) h where
  inside := first.inside
  content := by rw [second.content, first.content, first.pos, overwrite_overwrite first.inside]
  pos := by rw [second.pos, first.pos, List.length_append, Nat.add_assoc]

theorem Overwritten.refl {f : SeekFile} (inside : f.pos ≤ f.content.length) : Overwritten f [] f :=
  ⟨inside, rfl, rfl⟩

theorem writeAll_overwritten {f f' : SeekFile} {bs : List UInt8} (inside : f.pos ≤ f.content.length)
    (wrote : f.writeAll bs = (.ok (), f')) : Overwritten f bs f' := by
  cases bs with
  | nil =>
    cases wrote
    exact .refl inside
  | cons b bs =>
    unfold writeAll at wrote
    dsimp only at wrote
    split at wrote
    · cases wrote
    · split at wrote
      · cases wrote
        exact ⟨inside, rfl, rfl⟩
      · cases wrote

theorem writeParts_overwritten {parts : List (List UInt8)} {f f' : SeekFile} (inside : f.pos ≤ f.content.length)
    (wrote : f.writeParts parts = (.ok (), f')) : Overwritten f parts.flatten f' := by
  induction parts generalizing f with
  | nil =>
    cases wrote
    exact .refl inside
  | cons part parts ih =>
    simp only [writeParts] at wrote
    split at wrote
    · rename_i g first
      have head := writeAll_overwritten inside first
      exact head.trans (ih head.inside' wrote)
    · rename_i failed
      exact absurd wrote (failed f')

end SeekFile

end ByteIo

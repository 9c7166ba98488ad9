import RtlTcp.Lib.ByteIo

/-!
# Bytes between two parties

A reliable byte channel in one direction: what one party wrote and the other has not read yet,
each byte with a mark of its author. A read meets the first `n` bytes of the channel, however
long they were on the way, and then a failure; a read that fails drops what it had taken.
`readExact_arriving` says what `readExact` makes of that.
-/

namespace ByteIo
set_option autoImplicit false

variable {ω : Type}

/-- The bytes on the way, oldest first. -/
abbrev Wire (ω : Type) := List (ω × UInt8)

/-- Bytes with one mark. -/
def marked (mark : ω) (bytes : List UInt8) : Wire ω := bytes.map (mark, ·)

@[simp] theorem length_marked (mark : ω) (bytes : List UInt8) : (marked mark bytes).length = bytes.length := by
  simp [marked]

theorem mark_of_marked {mark : ω} {bytes : List UInt8} {b : ω × UInt8} (member : b ∈ marked mark bytes) : b.1 = mark := by
  obtain ⟨byte, -, rfl⟩ := List.mem_map.1 member
  rfl

/-- Bytes that all have one mark. -/
theorem eq_marked {mark : ω} {bs : Wire ω} (same : ∀ b ∈ bs, b.1 = mark) : bs = marked mark (bs.map Prod.snd) := by
  induction bs with
  | nil => rfl
  | cons b bs ih =>
    obtain ⟨m, byte⟩ := b
    have first : m = mark := same (m, byte) (List.mem_cons_self ..)
    rw [first, ih fun b member => same b (List.mem_cons_of_mem _ member)]
    simp [marked]

theorem marked_inj {mark : ω} {bs cs : List UInt8} (same : marked mark bs = marked mark cs) : bs = cs :=
  (List.map_inj_right fun _ _ pair => (Prod.mk.inj pair).2).1 same

/-- What a read meets. -/
def arriving (wire : Wire ω) (n : Nat) (cut : ErrorKind) : List Arrival :=
  ((wire.take n).map Prod.snd).map .byte ++ [.fail cut]

/-- The channel after a read that has left `rest` of what it met. -/
def remaining (wire : Wire ω) (n : Nat) (rest : List Arrival) : Wire ω :=
  wire.drop ((wire.take n).length - (bytesOf rest).length)

theorem bytesOf_arriving (wire : Wire ω) (n : Nat) (cut : ErrorKind) :
    bytesOf (arriving wire n cut) = (wire.take n).map Prod.snd := by
  rw [arriving, bytesOf_append, bytesOf_map_byte]
  exact List.append_nil _

/-- Who reads nothing leaves everything. -/
@[simp] theorem remaining_arriving (wire : Wire ω) (n : Nat) (cut : ErrorKind) :
    remaining wire n (arriving wire n cut) = wire := by
  rw [remaining, bytesOf_arriving, List.length_map, Nat.sub_self, List.drop_zero]

theorem mem_of_mem_remaining {wire : Wire ω} {n : Nat} {rest : List Arrival} {b : ω × UInt8}
    (member : b ∈ remaining wire n rest) : b ∈ wire :=
  List.mem_of_mem_drop member

/-- A read of more bytes than come before the failure fails and takes them all. -/
theorem readExact_short {k : Nat} {bs : List UInt8} (short : bs.length < k) (cut : ErrorKind) :
    ∃ e, readExact k (bs.map .byte ++ [.fail cut]) = (.error e, []) := by
  induction bs generalizing k with
  | nil =>
    obtain ⟨k, rfl⟩ : ∃ k', k = k' + 1 := ⟨k - 1, by simp at short; omega⟩
    by_cases again : cut = .interrupted
    · exact ⟨.unexpectedEof, by simp [readExact, again]⟩
    · exact ⟨cut, by simp [readExact, again]⟩
  | cons b bs ih =>
    obtain ⟨k, rfl⟩ : ∃ k', k = k' + 1 := ⟨k - 1, by simp only [List.length_cons] at short; omega⟩
    simp only [List.length_cons] at short
    obtain ⟨e, failed⟩ := ih (k := k) (by omega)
    exact ⟨e, by simp only [List.map_cons, List.cons_append, readExact, failed]⟩

/-- What `readExact k` makes of the first `n` bytes of a channel: all it asked for, in order, or
a failure that has dropped them. -/
inductive ReadsExactly (wire : Wire ω) (n k : Nat) : Except ErrorKind (Bytes k) × List Arrival → Prop where
  | whole {v : Bytes k} {rest : List Arrival} (enough : k ≤ (wire.take n).length)
      (bytes : v.toList = (wire.take k).map Prod.snd) (left : remaining wire n rest = wire.drop k) :
      ReadsExactly wire n k (.ok v, rest)
  | short {e : ErrorKind} {rest : List Arrival} (few : (wire.take n).length < k)
      (left : remaining wire n rest = wire.drop n) : ReadsExactly wire n k (.error e, rest)

theorem readExact_arriving (wire : Wire ω) (n k : Nat) (cut : ErrorKind) :
    ReadsExactly wire n k (readExact k (arriving wire n cut)) := by
  by_cases enough : k ≤ (wire.take n).length
  · have bound : k ≤ n ∧ k ≤ wire.length := by
      rw [List.length_take] at enough
      omega
    let v : Bytes k := ⟨(wire.take k).map Prod.snd, by rw [List.length_map, List.length_take]; omega⟩
    have front : (wire.take n).map Prod.snd = v.toList ++ ((wire.take n).drop k).map Prod.snd := by
      conv => lhs; rw [← List.take_append_drop k (wire.take n)]
      rw [List.take_take, Nat.min_eq_left bound.1, List.map_append]
      rfl
    rw [arriving, front, List.map_append, List.append_assoc, readExact_bytes]
    refine .whole enough rfl ?_
    rw [remaining, bytesOf_append, bytesOf_map_byte]
    congr 1
    simp only [bytesOf, List.append_nil, List.length_map, List.length_drop]
    omega
  · rw [Nat.not_le] at enough
    have few : ((wire.take n).map Prod.snd).length < k := by rwa [List.length_map]
    obtain ⟨e, failed⟩ := readExact_short few cut
    rw [arriving, failed]
    refine .short enough ?_
    rw [remaining, bytesOf, List.length_nil, Nat.sub_zero, List.length_take]
    rcases Nat.le_total n wire.length with le | le
    · rw [Nat.min_eq_left le]
    · rw [Nat.min_eq_right le, List.drop_length, List.drop_eq_nil_of_le le]

/-- A read that meets all of the bytes it asks for gets them, and leaves what comes after them. -/
theorem readExact_front {wire : Wire ω} {mark : ω} {n k : Nat} (v : Bytes k) (later : Wire ω)
    (front : wire = marked mark v.toList ++ later)
    (enough : k ≤ (wire.take n).length) (cut : ErrorKind) :
    ∃ rest, readExact k (arriving wire n cut) = (.ok v, rest) ∧ remaining wire n rest = later := by
  have size : (marked mark v.toList).length = k := by rw [length_marked, List.Vector.toList_length]
  have reads := readExact_arriving wire n k cut
  rcases taken : readExact k (arriving wire n cut) with ⟨e | v', rest⟩
  · rw [taken] at reads
    cases reads with
    | short few => omega
  · rw [taken] at reads
    cases reads with
    | whole _ bytes left =>
      rw [front, List.take_left' size, marked, List.map_map] at bytes
      have same : v' = v := List.Vector.eq v' v (bytes.trans (List.map_id _))
      refine ⟨rest, by rw [same], ?_⟩
      rw [left, front, List.drop_left' size]

end ByteIo

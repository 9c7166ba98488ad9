/-!
# XOR with a keystream

A stream cipher adds a keystream `k : Nat → UInt8` to the data by exclusive or. What a
protocol can get wrong is only the position: each end must use the same position for the
same byte. `xorAt k pos` is one application at a position, and the lemmas say how
applications compose, cancel and what a displaced position does.
-/

namespace Keystream
set_option autoImplicit false

/-- `bytes` with the keystream added from position `pos` on. -/
def xorAt (k : Nat → UInt8) : Nat → List UInt8 → List UInt8
  | _, [] => []
  | pos, b :: bs => (b ^^^ k pos) :: xorAt k (pos + 1) bs

variable (k : Nat → UInt8)

@[simp] theorem length_xorAt (pos : Nat) (bs : List UInt8) : (xorAt k pos bs).length = bs.length := by
  induction bs generalizing pos with
  | nil => rfl
  | cons b bs ih => simp [xorAt, ih]

@[simp] theorem xorAt_nil (pos : Nat) : xorAt k pos [] = [] := rfl

/-- Consecutive applications are one application to the concatenation. -/
theorem xorAt_append (pos : Nat) (as bs : List UInt8) :
    xorAt k pos (as ++ bs) = xorAt k pos as ++ xorAt k (pos + as.length) bs := by
  induction as generalizing pos with
  | nil => simp
  | cons a as ih =>
    have next : pos + 1 + as.length = pos + (a :: as).length := by simp only [List.length_cons]; omega
    simp only [List.cons_append, xorAt, ih, next]

theorem xorAt_take (pos n : Nat) (bs : List UInt8) : (xorAt k pos bs).take n = xorAt k pos (bs.take n) := by
  induction n generalizing pos bs with
  | zero => simp
  | succ n ih =>
    cases bs with
    | nil => simp
    | cons b bs => simp [xorAt, ih]

theorem xor_cancel (a b : UInt8) : a ^^^ b ^^^ b = a := by
  rw [UInt8.xor_assoc, UInt8.xor_self, UInt8.xor_zero]

/-- Decryption at the position of encryption gives the data back. -/
@[simp] theorem xorAt_xorAt (pos : Nat) (bs : List UInt8) : xorAt k pos (xorAt k pos bs) = bs := by
  induction bs generalizing pos with
  | nil => rfl
  | cons b bs ih => simp only [xorAt, xor_cancel, ih]

/-- Two positions encrypt the same data alike exactly when the keystream repeats there. -/
theorem xorAt_eq_iff (p q : Nat) (bs : List UInt8) :
    xorAt k p bs = xorAt k q bs ↔ ∀ i, i < bs.length → k (p + i) = k (q + i) := by
  induction bs generalizing p q with
  | nil => simp
  | cons b bs ih =>
    simp only [xorAt, List.cons.injEq, UInt8.xor_right_inj, ih, List.length_cons]
    constructor
    · rintro ⟨head, tail⟩ i bound
      cases i with
      | zero => exact head
      | succ i =>
        have := tail i (by omega)
        simpa only [Nat.add_assoc, Nat.add_comm 1 i] using this
    · intro all
      refine ⟨all 0 (by omega), fun i bound => ?_⟩
      simpa only [Nat.add_assoc, Nat.add_comm 1 i] using all (i + 1) (by omega)

/-- Decryption at another position still gives the data back exactly when the keystream
repeats there. -/
theorem xorAt_cancel_iff (p q : Nat) (bs : List UInt8) :
    xorAt k q (xorAt k p bs) = bs ↔ ∀ i, i < bs.length → k (p + i) = k (q + i) := by
  rw [← xorAt_eq_iff]
  constructor
  · intro same
    rw [← xorAt_xorAt k q (xorAt k p bs), same]
  · intro same
    rw [same, xorAt_xorAt]

/-- Encryption leaves the data as it is exactly where the keystream is zero. -/
theorem xorAt_eq_self_iff (pos : Nat) (bs : List UInt8) :
    xorAt k pos bs = bs ↔ ∀ i, i < bs.length → k (pos + i) = 0 := by
  induction bs generalizing pos with
  | nil => simp
  | cons b bs ih =>
    have alone : b ^^^ k pos = b ↔ k pos = 0 := by
      have := UInt8.xor_right_inj (a := k pos) (b := 0) b
      rwa [UInt8.xor_zero] at this
    simp only [xorAt, List.cons.injEq, alone, ih, List.length_cons]
    constructor
    · rintro ⟨head, tail⟩ i bound
      cases i with
      | zero => exact head
      | succ i => simpa only [Nat.add_assoc, Nat.add_comm 1 i] using tail i (by omega)
    · intro all
      refine ⟨all 0 (by omega), fun i bound => ?_⟩
      simpa only [Nat.add_assoc, Nat.add_comm 1 i] using all (i + 1) (by omega)

/-! ## Bytes at given positions -/

/-- `bytes` with the keystream added at the given positions, one for each byte. -/
def xorWith (bytes : List UInt8) (positions : List Nat) : List UInt8 := List.zipWith (fun b p => b ^^^ k p) bytes positions

theorem xorAt_eq_xorWith (pos : Nat) (bs : List UInt8) : xorAt k pos bs = xorWith k bs (List.range' pos bs.length) := by
  induction bs generalizing pos with
  | nil => rfl
  | cons b bs ih =>
    rw [List.length_cons, List.range'_succ, xorAt, ih]
    rfl

theorem xorWith_append {as : List UInt8} {ps : List Nat} (size : ps.length = as.length) (bs : List UInt8) (qs : List Nat) :
    xorWith k (as ++ bs) (ps ++ qs) = xorWith k as ps ++ xorWith k bs qs :=
  List.zipWith_append size.symm

/-- A row of positions goes on behind its last one. -/
theorem pairwise_append_range' {ps : List Nat} {pos : Nat} (rising : ps.Pairwise (· < ·)) (below : ∀ p ∈ ps, p < pos) (n : Nat) :
    (ps ++ List.range' pos n).Pairwise (· < ·) := by
  refine List.pairwise_append.2 ⟨rising, List.pairwise_lt_range', fun p member q later => ?_⟩
  have := below p member
  have := (List.mem_range'_1.1 later).1
  omega

end Keystream

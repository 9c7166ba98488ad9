import Mathlib.Algebra.GroupWithZero.Nat
import RtlTcp.Lib.ByteIo

/-!
# Fixed-width little-endian numbers

`toLe w n` is `n` in `w` bytes, the least significant first; what does not fit is cut off, as
in a conversion to a `w`-byte integer. `fromLe` reads such an array back.
-/

namespace ByteIo
set_option autoImplicit false

def toLe : (w : Nat) → Nat → Bytes w
  | 0, _ => .nil
  | w + 1, n => .cons (UInt8.ofNat n) (toLe w (n / 256))

def fromLe : {w : Nat} → Bytes w → Nat
  | 0, _ => 0
  | _ + 1, v => v.head.toNat + 256 * fromLe v.tail

@[simp] theorem fromLe_cons {w : Nat} (b : UInt8) (v : Bytes w) :
    fromLe (List.Vector.cons b v) = b.toNat + 256 * fromLe v := rfl

/-- A number that fits comes back. -/
theorem fromLe_toLe {w n : Nat} (fits : n < 256 ^ w) : fromLe (toLe w n) = n := by
  induction w generalizing n with
  | zero =>
    rw [Nat.pow_zero] at fits
    exact (Nat.lt_one_iff.1 fits).symm
  | succ w ih =>
    have high : n / 256 < 256 ^ w := by
      rw [Nat.pow_succ] at fits
      omega
    rw [toLe, fromLe_cons, ih high, UInt8.toNat_ofNat']
    omega

theorem fromLe_lt {w : Nat} (v : Bytes w) : fromLe v < 256 ^ w := by
  induction w with
  | zero => exact Nat.one_pos
  | succ w ih =>
    have high := ih v.tail
    have low := v.head.toNat_lt
    rw [fromLe, Nat.pow_succ]
    omega

/-- The bytes of a number come back. -/
theorem toLe_fromLe {w : Nat} (v : Bytes w) : toLe w (fromLe v) = v := by
  induction w with
  | zero => rw [List.Vector.eq_nil v, List.Vector.eq_nil (toLe 0 _)]
  | succ w ih =>
    have low := v.head.toNat_lt
    have digit : UInt8.ofNat (v.head.toNat + 256 * fromLe v.tail) = v.head := by
      apply UInt8.toNat_inj.1
      rw [UInt8.toNat_ofNat']
      omega
    have high : (v.head.toNat + 256 * fromLe v.tail) / 256 = fromLe v.tail := by omega
    rw [fromLe, toLe, digit, high, ih, List.Vector.cons_head_tail]

end ByteIo

import Mathlib.Algebra.Order.Ring.Int

/-!
# Realm.Lib.Int32 — the values of a 32-bit `int`

`int32 x` is the value an `int` holds after a conversion of, or a wrapped computation with result, `x`.
-/

namespace Lib

def int32 (x : ℤ) : ℤ := x.bmod (2 ^ 32)

theorem int32_eq_self {x : ℤ} (h : -2 ^ 31 ≤ x) (h' : x < 2 ^ 31) : int32 x = x :=
  Int.bmod_eq_of_le (by omega) (by omega)

theorem int32_lt (x : ℤ) : int32 x < 2 ^ 31 := by
  have h : int32 x < ((2 ^ 32 : ℕ) + 1) / 2 := Int.bmod_lt (by decide)
  omega

theorem int32_int32 (x : ℤ) : int32 (int32 x) = int32 x := Int.bmod_bmod

theorem int32_natCast_le (n : ℕ) : int32 n ≤ n := by
  unfold int32
  rw [Int.bmod_eq_emod]
  split <;> omega

theorem int32_int32_add (x y : ℤ) : int32 (int32 x + y) = int32 (x + y) := Int.bmod_add_bmod

theorem int32_int32_sub (x y : ℤ) : int32 (int32 x - y) = int32 (x - y) := Int.bmod_sub_bmod

theorem int32_sub_int32 (x y : ℤ) : int32 (x - int32 y) = int32 (x - y) := Int.sub_bmod_bmod

theorem int32_eq_zero_iff {x : ℤ} (h : -2 ^ 32 < x) (h' : x < 2 ^ 32) : int32 x = 0 ↔ x = 0 := by
  unfold int32
  rw [← Int.dvd_iff_bmod_eq_zero]
  omega

theorem int32_inj {x y : ℤ} (h : -2 ^ 32 < x - y) (h' : x - y < 2 ^ 32) : int32 x = int32 y ↔ x = y := by
  unfold int32
  rw [Int.bmod_eq_bmod_iff_bmod_sub_eq_zero]
  change int32 (x - y) = 0 ↔ x = y
  rw [int32_eq_zero_iff h h', sub_eq_zero]

/-- Converted to `unsigned`. -/
theorem toNat_int32_emod (n : ℕ) : (int32 n % 2 ^ 32).toNat = n % 2 ^ 32 := by
  have h : int32 n % (2 ^ 32 : ℕ) = n % (2 ^ 32 : ℕ) := Int.bmod_emod
  omega

/-- The upper half of the unsigned values reads as negative. -/
theorem int32_neg_iff {x : ℤ} (h : 0 ≤ x) (h' : x < 2 ^ 32) : int32 x < 0 ↔ 2 ^ 31 ≤ x := by
  unfold int32
  rw [Int.bmod_eq_emod]
  split <;> omega

end Lib

import Mathlib.Algebra.Order.Ring.Int

/-!
# Realm.Lib.Int64 — the values of a 64-bit `off_t` and `size_t`

`int64 x` and `uint64 x` are the values that a signed and an unsigned 64-bit variable hold after a conversion of, or a
wrapped computation with result, `x`.
-/

namespace Lib

def int64 (x : ℤ) : ℤ := x.bmod (2 ^ 64)

def uint64 (x : ℤ) : ℕ := (x % 2 ^ 64).toNat

theorem int64_eq_self {x : ℤ} (h : -2 ^ 63 ≤ x) (h' : x < 2 ^ 63) : int64 x = x :=
  Int.bmod_eq_of_le (by omega) (by omega)

/-- The upper half of the unsigned values reads as negative. -/
theorem int64_of_ge {x : ℤ} (h : 2 ^ 63 ≤ x) (h' : x < 2 ^ 64) : int64 x = x - 2 ^ 64 := by
  unfold int64
  rw [Int.bmod_eq_emod]
  split <;> omega

theorem uint64_cast (x : ℤ) : (uint64 x : ℤ) = x % 2 ^ 64 := Int.toNat_of_nonneg (Int.emod_nonneg x (by decide))

theorem uint64_uint64_add (x y : ℤ) : uint64 (uint64 x + y) = uint64 (x + y) := by
  rw [uint64, uint64_cast, Int.emod_add_emod, uint64]

theorem uint64_sub_uint64 (x y : ℤ) : uint64 (x - uint64 y) = uint64 (x - y) := by
  rw [uint64, uint64_cast, Int.sub_emod_emod, uint64]

theorem uint64_eq_self {x : ℤ} (h : 0 ≤ x) (h' : x < 2 ^ 64) : (uint64 x : ℤ) = x := by
  rw [uint64_cast, Int.emod_eq_of_lt h h']

/-- Two results that are less than a turn apart are told apart. -/
theorem uint64_inj {x y : ℤ} (h : -2 ^ 64 < x - y) (h' : x - y < 2 ^ 64) : uint64 x = uint64 y ↔ x = y := by
  rw [← Int.natCast_inj, uint64_cast, uint64_cast]
  omega

end Lib

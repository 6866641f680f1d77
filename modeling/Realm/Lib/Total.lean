import Mathlib.Algebra.BigOperators.Group.Finset.Basic
import Mathlib.Algebra.Order.BigOperators.Group.Finset
import Mathlib.Algebra.Order.Ring.Nat

/-!
# Realm.Lib.Total — the total weight of the parts of a system

A measure for the steps of a system of many parts, one of which moves: `sum_update` and `total_update` say by how much
the total changes.
-/

namespace Lib

variable {ι α : Type*} [DecidableEq ι]

theorem sum_update {N : Type*} [AddCommMonoid N] (w : α → N) (f : ι → α) {S : Finset ι} {i : ι} (hi : i ∈ S) (a : α) :
    ∑ j ∈ S, w (Function.update f i a j) + w (f i) = ∑ j ∈ S, w (f j) + w a := by
  have hnew : ∑ j ∈ S.erase i, w (Function.update f i a j) = ∑ j ∈ S.erase i, w (f j) := by
    refine Finset.sum_congr rfl fun j hj => ?_
    rw [Function.update_of_ne (Finset.ne_of_mem_erase hj)]
  rw [← Finset.add_sum_erase _ _ hi, ← Finset.add_sum_erase _ (fun j => w (f j)) hi, hnew, Function.update_self]
  rw [add_right_comm, add_comm (w a), add_right_comm, add_comm (w (f i))]

variable [Fintype ι]

/-- The weights of all parts together. -/
def total (w : α → ℕ) (f : ι → α) : ℕ := ∑ i, w (f i)

theorem total_update (w : α → ℕ) (f : ι → α) (i : ι) (a : α) :
    total w (Function.update f i a) + w (f i) = total w f + w a :=
  sum_update w f (Finset.mem_univ i) a

end Lib

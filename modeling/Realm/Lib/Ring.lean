import Mathlib.Data.List.Range
import Mathlib.Data.List.Perm.Subperm
import Mathlib.Logic.Function.Basic

/-!
# Realm.Lib.Ring — a circular buffer with one spare slot

`n + 1` slots hold at most `n` entries, so that equal positions mean an empty ring.

* `Ring.contents`: the entries, oldest first.
* `Ring.contents_push`, `Ring.contents_pop`: the ring is a bounded queue.
* `Ring.size_lt_of_nodup`: no overflow, when every entry is in the ring at most once.
-/

namespace Lib

/-- Entries lie from `oldest` up to, and without, `newest`, wrapping after slot `n`. -/
structure Ring (α : Type*) (n : ℕ) where
  slots : ℕ → α
  oldest : ℕ
  newest : ℕ
  oldest_le : oldest ≤ n
  newest_le : newest ≤ n

namespace Ring

variable {α : Type*} {n : ℕ}

/-- The position after `i`. -/
def next (n i : ℕ) : ℕ := if n < i + 1 then 0 else i + 1

theorem next_le (n i : ℕ) : next n i ≤ n := by
  unfold next
  split <;> omega

def push (r : Ring α n) (x : α) : Ring α n where
  slots := Function.update r.slots r.newest x
  oldest := r.oldest
  newest := next n r.newest
  oldest_le := r.oldest_le
  newest_le := next_le n _

def front (r : Ring α n) : α := r.slots r.oldest

def pop (r : Ring α n) : Ring α n where
  slots := r.slots
  oldest := next n r.oldest
  newest := r.newest
  oldest_le := next_le n _
  newest_le := r.newest_le

/-- The number of entries. -/
def size (r : Ring α n) : ℕ :=
  if r.oldest ≤ r.newest then r.newest - r.oldest else r.newest + (n + 1) - r.oldest

/-- The slot of the `j`th entry. -/
def index (r : Ring α n) (j : ℕ) : ℕ := if r.oldest + j ≤ n then r.oldest + j else r.oldest + j - (n + 1)

/-- The entries, oldest first. -/
def contents (r : Ring α n) : List α := (List.range r.size).map fun j => r.slots (r.index j)

@[simp] theorem length_contents (r : Ring α n) : r.contents.length = r.size := by
  simp [contents]

theorem size_push {r : Ring α n} (h : r.size < n) (x : α) : (r.push x).size = r.size + 1 := by
  have h1 := r.oldest_le
  have h2 := r.newest_le
  simp only [size, push, next] at h ⊢
  split_ifs at h ⊢ <;> omega

theorem newest_push_ne {r : Ring α n} (h : r.size < n) (x : α) : (r.push x).newest ≠ r.oldest := by
  have h1 := r.oldest_le
  have h2 := r.newest_le
  simp only [size, push, next] at h ⊢
  split_ifs at h ⊢ <;> omega

theorem index_ne_newest {r : Ring α n} {j : ℕ} (hj : j < r.size) : r.index j ≠ r.newest := by
  have h1 := r.oldest_le
  have h2 := r.newest_le
  simp only [size, index] at hj ⊢
  split_ifs at hj ⊢ <;> omega

theorem index_size (r : Ring α n) : r.index r.size = r.newest := by
  have h1 := r.oldest_le
  have h2 := r.newest_le
  simp only [size, index]
  split_ifs <;> omega

/-- **A push appends**, as long as there is room for one more. -/
theorem contents_push {r : Ring α n} (h : r.size < n) (x : α) : (r.push x).contents = r.contents ++ [x] := by
  have hindex : ∀ j, (r.push x).index j = r.index j := fun _ => rfl
  unfold contents
  rw [size_push h, List.range_succ, List.map_append, List.map_singleton, hindex, index_size]
  congr 1
  · apply List.map_congr_left
    intro j hj
    rw [hindex]
    exact Function.update_of_ne (index_ne_newest (List.mem_range.mp hj)) _ _
  · simp [push]

theorem size_pop {r : Ring α n} (h : r.oldest ≠ r.newest) : r.size = r.pop.size + 1 := by
  have h1 := r.oldest_le
  have h2 := r.newest_le
  simp only [size, pop, next]
  split_ifs <;> omega

theorem index_pop {r : Ring α n} {j : ℕ} (hj : j < n) : r.pop.index j = r.index (j + 1) := by
  have h1 := r.oldest_le
  simp only [index, pop, next]
  split_ifs <;> omega

theorem size_le (r : Ring α n) : r.size ≤ n := by
  have h1 := r.oldest_le
  have h2 := r.newest_le
  unfold size
  split <;> omega

/-- **A pop takes the oldest entry.** -/
theorem contents_pop {r : Ring α n} (h : r.oldest ≠ r.newest) :
    r.contents = r.front :: r.pop.contents := by
  have hsize := size_pop h
  have hle := r.size_le
  have h0 : r.index 0 = r.oldest := if_pos r.oldest_le
  unfold contents
  rw [hsize, List.range_succ_eq_map, List.map_cons, List.map_map, h0]
  congr 1
  apply List.map_congr_left
  intro j hj
  have hj' := List.mem_range.mp hj
  change r.slots (r.index (j + 1)) = r.slots (r.pop.index j)
  rw [index_pop (by omega)]

theorem contents_eq_nil_iff {r : Ring α n} : r.contents = [] ↔ r.oldest = r.newest := by
  have h1 := r.oldest_le
  have h2 := r.newest_le
  rw [← List.length_eq_zero_iff, length_contents]
  unfold size
  split <;> omega

/-- A ring of different numbers below `n` has room for another one. -/
theorem size_lt_of_nodup {r : Ring ℕ n} {t : ℕ} (hnodup : (t :: r.contents).Nodup)
    (hlt : ∀ x ∈ t :: r.contents, x < n) : r.size < n := by
  have hsub : t :: r.contents ⊆ List.range n := fun x hx => List.mem_range.mpr (hlt x hx)
  have hlen := (List.subperm_of_subset hnodup hsub).length_le
  simp only [List.length_cons, length_contents, List.length_range] at hlen
  exact hlen

end Ring

end Lib

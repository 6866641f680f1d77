import Mathlib.Data.List.Basic
import Mathlib.Data.Nat.Basic

/-!
# Realm.Lib.Block — blocks of memory with checked accesses

A block is a vector of `N` cells.  An access outside the block has no result.

* `store b off xs`, `load b off len`: copy a list of cells into and out of the block.
* `Holds b off xs`: the cells from `off` on are `xs`.  A store establishes it (`holds_store`), a store
  elsewhere keeps it (`holds_store_frame`), a load returns what it says (`load_of_holds`), and sending the
  first cells of one block to another carries it over (`holds_copy`).
-/

namespace Lib.Block

variable {α : Type*} {N : ℕ} {b b' : Vector α N} {off off' len : ℕ} {xs ys : List α}

/-- Copy `xs` to the cells from `off` on. -/
def store (b : Vector α N) (off : ℕ) (xs : List α) : Option (Vector α N) :=
  if off + xs.length ≤ N then
    some (Vector.ofFn fun i : Fin N => if off ≤ i then xs.getD (i - off) b[i] else b[i])
  else none

/-- The `len` cells from `off` on. -/
def load (b : Vector α N) (off len : ℕ) : Option (List α) :=
  if off + len ≤ N then some ((b.toList.drop off).take len) else none

def Holds (b : Vector α N) (off : ℕ) (xs : List α) : Prop :=
  ∀ i < xs.length, b[off + i]? = xs[i]?

theorem store_of_le (b : Vector α N) (h : off + xs.length ≤ N) : ∃ b', store b off xs = some b' := by
  unfold store
  rw [if_pos h]
  exact ⟨_, rfl⟩

theorem getElem?_store (h : store b off xs = some b') (i : ℕ) :
    b'[i]? = if off ≤ i ∧ i < off + xs.length then xs[i - off]? else b[i]? := by
  unfold store at h
  split at h
  case isFalse => simp at h
  rename_i hfit
  obtain rfl := Option.some.inj h
  by_cases hi : i < N
  · rw [Vector.getElem?_eq_getElem hi, Vector.getElem_ofFn]
    by_cases hoff : off ≤ i
    · by_cases hlt : i < off + xs.length
      · have hsub : i - off < xs.length := by omega
        simp [hoff, hlt, hsub]
      · have hsub : xs.length ≤ i - off := by omega
        simp [hoff, hlt, hi, hsub]
    · simp [hoff, hi]
  · have hout : ¬(off ≤ i ∧ i < off + xs.length) := by omega
    rw [if_neg hout, Vector.getElem?_eq_none (by omega), Vector.getElem?_eq_none (by omega)]

theorem holds_store (h : store b off xs = some b') : Holds b' off xs := by
  intro i hi
  rw [getElem?_store h, if_pos ⟨by omega, by omega⟩, Nat.add_sub_cancel_left]

/-- **Frame rule.** -/
theorem holds_store_frame (h : store b off xs = some b')
    (hd : off' + ys.length ≤ off ∨ off + xs.length ≤ off') (hys : Holds b off' ys) :
    Holds b' off' ys := by
  intro i hi
  rw [getElem?_store h, if_neg (by omega)]
  exact hys i hi

theorem holds_nil : Holds b off ([] : List α) := by
  intro i hi
  simp at hi

theorem holds_append : Holds b off (xs ++ ys) ↔ Holds b off xs ∧ Holds b (off + xs.length) ys := by
  constructor
  · intro h
    refine ⟨fun i hi => ?_, fun i hi => ?_⟩
    · rw [h i (by rw [List.length_append]; omega), List.getElem?_append_left hi]
    · rw [Nat.add_assoc, h (xs.length + i) (by rw [List.length_append]; omega),
        List.getElem?_append_right (by omega), Nat.add_sub_cancel_left]
  · rintro ⟨hx, hy⟩ i hi
    rw [List.length_append] at hi
    by_cases hlt : i < xs.length
    · rw [hx i hlt, List.getElem?_append_left hlt]
    · have hyi := hy (i - xs.length) (by omega)
      rw [show off + xs.length + (i - xs.length) = off + i by omega] at hyi
      rw [hyi, List.getElem?_append_right (by omega)]

/-- **A load returns what the cells hold.** -/
theorem load_of_holds (h : Holds b off xs) (hfit : off + xs.length ≤ N) :
    load b off xs.length = some xs := by
  unfold load
  rw [if_pos hfit, Option.some.injEq]
  apply List.ext_getElem?
  intro i
  by_cases hi : i < xs.length
  · rw [List.getElem?_take_of_lt hi, List.getElem?_drop, Vector.getElem?_toList]
    exact h i hi
  · rw [List.getElem?_eq_none (by simp; omega), List.getElem?_eq_none (by omega)]

theorem load_of_le (b : Vector α N) (h : off + len ≤ N) : ∃ xs, load b off len = some xs ∧ xs.length = len := by
  unfold load
  rw [if_pos h]
  exact ⟨_, rfl, by simp; omega⟩

theorem getElem?_of_load (h : load b off len = some xs) {i : ℕ} (hi : i < len) :
    xs[i]? = b[off + i]? := by
  unfold load at h
  split at h
  case isFalse => simp at h
  obtain rfl := Option.some.inj h
  rw [List.getElem?_take_of_lt hi, List.getElem?_drop, Vector.getElem?_toList]

/-- **Copying the first cells** of a block to another carries their contents over. -/
theorem holds_copy {c c' : Vector α N} (hload : load b 0 len = some xs) (hxs : xs.length = len)
    (hstore : store c 0 xs = some c') (hys : Holds b off ys) (hle : off + ys.length ≤ len) :
    Holds c' off ys := by
  intro i hi
  rw [getElem?_store hstore, if_pos ⟨by omega, by omega⟩, Nat.sub_zero,
    getElem?_of_load hload (by omega), Nat.zero_add]
  exact hys i hi

end Lib.Block

import Mathlib.Algebra.Order.Ring.Nat
import Mathlib.Data.List.Basic
import Mathlib.Data.Nat.ModEq
import Mathlib.Logic.Function.Basic

/-!
# Realm.Lib.Delay — an array as a delay line

`n` slots are written round and round; what a write takes out is what was written `n` writes ago.

* `Delay.put`: one write, with the old entry.
* `Delay.Holds`: the line after the writes `l`; kept by `Holds.put`, which also says what comes out.
-/

namespace Lib

structure Delay (α : Type*) where
  slots : ℕ → α
  pos : ℕ

namespace Delay

variable {α : Type*} {n : ℕ} {a₀ : α}

def init (a₀ : α) : Delay α := ⟨fun _ => a₀, 0⟩

/-- The old entry, and the line after the write. -/
def put (n : ℕ) (d : Delay α) (a : α) : α × Delay α :=
  (d.slots d.pos, ⟨Function.update d.slots d.pos a, (d.pos + 1) % n⟩)

/-- The last `n` writes are in their slots, and slots that were never written hold `a₀`. -/
structure Holds (n : ℕ) (a₀ : α) (d : Delay α) (l : List α) : Prop where
  pos : d.pos = l.length % n
  recent : ∀ k a, l.length ≤ k + n → l[k]? = some a → d.slots (k % n) = a
  empty : ∀ j, l.length ≤ j → j < n → d.slots j = a₀

theorem Holds.init (n : ℕ) (a₀ : α) : Holds n a₀ (init a₀) [] where
  pos := (Nat.zero_mod n).symm
  recent k a _ h := by simp at h
  empty _ _ _ := rfl

/-- What comes out of the write number `l.length`. -/
theorem Holds.put_fst (hn : 0 < n) {d : Delay α} {l : List α} (h : Holds n a₀ d l) (a : α) :
    (put n d a).1 = if n ≤ l.length then l.getD (l.length - n) a₀ else a₀ := by
  show d.slots d.pos = _
  rw [h.pos]
  split
  · rename_i hle
    have hlt : l.length - n < l.length := by omega
    have hmod : l.length % n = (l.length - n) % n := by rw [← Nat.mod_eq_sub_mod hle]
    rw [hmod]
    refine h.recent _ _ (by omega) ?_
    rw [List.getD_eq_getElem?_getD, List.getElem?_eq_getElem hlt, Option.getD_some]
  · rename_i hlt
    rw [Nat.mod_eq_of_lt (by omega)]
    exact h.empty _ le_rfl (by omega)

theorem Holds.put {d : Delay α} {l : List α} (h : Holds n a₀ d l) (a : α) :
    Holds n a₀ (put n d a).2 (l ++ [a]) where
  pos := by
    show (d.pos + 1) % n = _
    rw [h.pos, List.length_append, List.length_singleton, Nat.mod_add_mod]
  recent := by
    intro k b hk hb
    rw [List.length_append, List.length_singleton] at hk
    show Function.update d.slots d.pos a (k % n) = b
    rcases Nat.lt_trichotomy k l.length with hlt | rfl | hgt
    · -- an older entry, less than `n` writes ago, is in another slot
      rw [List.getElem?_append_left hlt] at hb
      have hne : k % n ≠ d.pos := by
        rw [h.pos]
        intro heq
        have hdvd : n ∣ l.length - k := (Nat.modEq_iff_dvd' hlt.le).mp heq
        have hle := Nat.le_of_dvd (by omega) hdvd
        omega
      rw [Function.update_of_ne hne]
      exact h.recent k b (by omega) hb
    · rw [← h.pos, Function.update_self]
      simpa using hb
    · rw [List.getElem?_eq_none (by simp; omega)] at hb
      cases hb
  empty := by
    intro j hj hjn
    rw [List.length_append, List.length_singleton] at hj
    show Function.update d.slots d.pos a j = a₀
    have hpos : d.pos = l.length := by rw [h.pos, Nat.mod_eq_of_lt (by omega)]
    rw [Function.update_of_ne (by omega)]
    exact h.empty j (by omega) hjn

end Delay

end Lib

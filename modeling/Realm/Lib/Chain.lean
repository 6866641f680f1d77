import Mathlib.Data.List.Basic
import Mathlib.Logic.Function.Basic

/-!
# Realm.Lib.Chain — singly linked lists whose links lie in the nodes

* `Chain next p l`: following `next` from `p` visits the nodes `l` and ends.
* `follow`: the nodes found in a bounded number of steps; `Chain.follow_eq`: all of them.
* `Chain.frame`, `Chain.snoc`: a link written elsewhere, and one written to the last node.
-/

namespace Lib

variable {M : Type*}

def Chain (next : M → Option M) : Option M → List M → Prop
  | p, [] => p = none
  | p, m :: l => p = some m ∧ Chain next (next m) l

def follow (next : M → Option M) : ℕ → Option M → List M
  | 0, _ => []
  | _ + 1, none => []
  | n + 1, some m => m :: follow next n (next m)

variable {next next' : M → Option M} {p : Option M} {l : List M}

theorem Chain.head_eq (h : Chain next p l) : p = l.head? := by
  cases l with
  | nil => exact h
  | cons m l => exact h.1

theorem chain_none : Chain next none l ↔ l = [] := by
  constructor
  · intro h
    exact List.head?_eq_none_iff.mp h.head_eq.symm
  · rintro rfl
    rfl

theorem chain_some {m : M} : Chain next (some m) l ↔ ∃ l', l = m :: l' ∧ Chain next (next m) l' := by
  constructor
  · intro h
    cases l with
    | nil => cases h
    | cons m' l' =>
      obtain ⟨hm, h⟩ := h
      obtain rfl := Option.some.inj hm
      exact ⟨l', rfl, h⟩
  · rintro ⟨l', rfl, h⟩
    exact ⟨rfl, h⟩

theorem Chain.follow_eq (h : Chain next p l) {n : ℕ} (hn : l.length ≤ n) : follow next n p = l := by
  induction l generalizing p n with
  | nil =>
    obtain rfl : p = none := h
    cases n <;> rfl
  | cons m l ih =>
    obtain ⟨rfl, h⟩ := h
    obtain ⟨n, rfl⟩ : ∃ k, n = k + 1 := ⟨n - 1, by simp at hn; omega⟩
    rw [follow, ih h (by simpa using hn)]

/-- A chain does not see the links of other nodes. -/
theorem Chain.frame (h : Chain next p l) (heq : ∀ m ∈ l, next' m = next m) : Chain next' p l := by
  induction l generalizing p with
  | nil => exact h
  | cons m l ih =>
    obtain ⟨rfl, h⟩ := h
    refine ⟨rfl, ?_⟩
    rw [heq m List.mem_cons_self]
    exact ih h fun m' hm' => heq m' (List.mem_cons_of_mem m hm')

variable [DecidableEq M]

theorem Chain.update (h : Chain next p l) {m : M} (hm : m ∉ l) (q : Option M) :
    Chain (Function.update next m q) p l := by
  refine h.frame fun m' hm' => Function.update_of_ne ?_ _ _
  rintro rfl
  exact hm hm'

/-- **Appending**: the link of the last node is set to a node that ends a chain. -/
theorem Chain.snoc (h : Chain next p l) (hl : l.Nodup) {t m : M} (ht : l.getLast? = some t) (hm : m ∉ l)
    (hend : next m = none) : Chain (Function.update next t (some m)) p (l ++ [m]) := by
  induction l generalizing p with
  | nil => simp at ht
  | cons x l ih =>
    obtain ⟨rfl, h⟩ := h
    obtain ⟨hx, hl⟩ := List.nodup_cons.mp hl
    obtain ⟨hmx, hml⟩ := not_or.mp (List.mem_cons.not.mp hm)
    refine ⟨rfl, ?_⟩
    cases l with
    | nil =>
      obtain rfl : x = t := by simpa using ht
      rw [Function.update_self]
      exact ⟨rfl, by rw [Function.update_of_ne hmx]; exact hend⟩
    | cons y l =>
      rw [List.getLast?_cons_cons] at ht
      have hxt : x ≠ t := fun heq => hx (heq ▸ List.mem_of_getLast? ht)
      rw [Function.update_of_ne hxt]
      exact ih h hl ht hml

end Lib

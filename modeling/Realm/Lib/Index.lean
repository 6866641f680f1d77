import Mathlib.Data.List.Basic

/-!
# Realm.Lib.Index — updates of a list at one entry

A label that names an entry by its index, or as the first with some property, splits the list there: `set`,
`eraseIdx` and `eraseP` then are a change between two untouched parts.
-/

namespace Lib

variable {α β : Type*} {l : List α} {i : ℕ} {a : α}

theorem split_at (h : l[i]? = some a) :
    ∃ A B, l = A ++ a :: B ∧ l.eraseIdx i = A ++ B ∧ ∀ x, l.set i x = A ++ x :: B := by
  obtain ⟨hi, ha⟩ := List.getElem?_eq_some_iff.mp h
  refine ⟨l.take i, l.drop (i + 1), ?_, List.eraseIdx_eq_take_drop_succ l i, fun x => ?_⟩
  · rw [← ha, List.getElem_cons_drop, List.take_append_drop]
  · exact List.set_eq_take_append_cons_drop.trans (if_pos hi)

/-- The other entries stay. -/
theorem mem_eraseIdx_of_ne (h : l[i]? = some a) {b : α} (hb : b ∈ l) (hne : b ≠ a) : b ∈ l.eraseIdx i := by
  obtain ⟨A, B, hl, herase, -⟩ := split_at h
  rw [hl, List.mem_append, List.mem_cons] at hb
  rw [herase, List.mem_append]
  exact hb.imp_right fun hb => hb.resolve_left hne

theorem mem_set_of_ne (h : l[i]? = some a) {b : α} (hb : b ∈ l) (hne : b ≠ a) (x : α) : b ∈ l.set i x := by
  obtain ⟨A, B, -, herase, hset⟩ := split_at h
  have hmem := mem_eraseIdx_of_ne h hb hne
  rw [herase, List.mem_append] at hmem
  rw [hset, List.mem_append, List.mem_cons]
  exact hmem.imp_right Or.inr

/-- `eraseP` takes out the entry that `find?` finds. -/
theorem perm_eraseP {p : α → Bool} (h : l.find? p = some a) : p a = true ∧ l.Perm (a :: l.eraseP p) := by
  obtain ⟨ha, A, B, hl, hA⟩ := List.find?_eq_some_iff_append.mp h
  have hA' : ∀ x ∈ A, ¬p x = true := fun x hx => by simpa using hA x hx
  refine ⟨ha, ?_⟩
  rw [hl, List.eraseP_append_right _ hA', List.eraseP_cons_of_pos ha]
  exact List.perm_middle

/-- A function of the entries that does not see a change does not see it in the list. -/
theorem map_set_eq (f : α → β) {x : α} (h : l[i]? = some a) (hx : f x = f a) :
    (l.set i x).map f = l.map f := by
  obtain ⟨A, B, hl, -, hset⟩ := split_at h
  rw [hset, hl, List.map_append, List.map_append, List.map_cons, List.map_cons, hx]

theorem countP_set_eq (p : α → Bool) {x : α} (h : l[i]? = some a) (hx : p x = p a) :
    (l.set i x).countP p = l.countP p := by
  obtain ⟨A, B, hl, -, hset⟩ := split_at h
  rw [hset, hl, List.countP_append, List.countP_append, List.countP_cons, List.countP_cons, hx]

theorem countP_set (p : α → Bool) (x : α) (h : l[i]? = some a) :
    (l.set i x).countP p + (if p a then 1 else 0) = l.countP p + if p x then 1 else 0 := by
  obtain ⟨A, B, hl, -, hset⟩ := split_at h
  rw [hset, hl, List.countP_append, List.countP_append, List.countP_cons, List.countP_cons]
  omega

end Lib

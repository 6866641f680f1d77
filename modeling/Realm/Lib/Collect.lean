import Mathlib.Data.List.Perm.Basic
import Mathlib.Data.List.Nodup
import Mathlib.Data.List.Induction

/-!
# Realm.Lib.Collect — what the items of a list give rise to

* `collect f l`: every item `a` of `l` gives the list `f a`, or fails; all of them, one after the other.
* `collect_append`, `collect_perm`: the list can be split, and its order only matters for the order of the outcome.
* `filter_flatMap_key`: what one item gives rise to, found again by its key.
* `arrival_induction`: the outcome comes in one by one, in any order.
-/

namespace Lib

variable {α β : Type*}

def collect (f : α → Option (List β)) : List α → Option (List β)
  | [] => some []
  | a :: l => do
    let first ← f a
    let rest ← collect f l
    return first ++ rest

variable {f : α → Option (List β)}

theorem collect_cons_eq_some {a : α} {l : List α} {bs : List β} :
    collect f (a :: l) = some bs ↔ ∃ first rest, f a = some first ∧ collect f l = some rest ∧ first ++ rest = bs := by
  constructor
  · intro h
    obtain ⟨first, hfirst, h⟩ := Option.bind_eq_some_iff.mp h
    obtain ⟨rest, hrest, h⟩ := Option.bind_eq_some_iff.mp h
    exact ⟨first, rest, hfirst, hrest, Option.some.inj h⟩
  · rintro ⟨first, rest, hfirst, hrest, rfl⟩
    rw [collect, hfirst, hrest]
    rfl

theorem collect_singleton {a : α} {bs : List β} (h : f a = some bs) : collect f [a] = some bs :=
  collect_cons_eq_some.mpr ⟨bs, [], h, rfl, List.append_nil bs⟩

theorem collect_append {l l' : List α} {bs bs' : List β} (h : collect f l = some bs) (h' : collect f l' = some bs') :
    collect f (l ++ l') = some (bs ++ bs') := by
  induction l generalizing bs with
  | nil =>
    obtain rfl := Option.some.inj h
    exact h'
  | cons a l ih =>
    obtain ⟨first, rest, hfirst, hrest, rfl⟩ := collect_cons_eq_some.mp h
    exact collect_cons_eq_some.mpr ⟨first, rest ++ bs', hfirst, ih hrest, (List.append_assoc ..).symm⟩

/-- The order of the items does not matter. -/
theorem collect_perm {l l' : List α} (hp : l'.Perm l) :
    ∀ {bs : List β}, collect f l = some bs → ∃ bs', collect f l' = some bs' ∧ bs'.Perm bs := by
  induction hp with
  | nil => exact fun h => ⟨_, h, List.Perm.refl _⟩
  | cons a _ ih =>
    intro bs h
    obtain ⟨first, rest, hfirst, hrest, rfl⟩ := collect_cons_eq_some.mp h
    obtain ⟨rest', hrest', hperm⟩ := ih hrest
    exact ⟨_, collect_cons_eq_some.mpr ⟨first, rest', hfirst, hrest', rfl⟩, hperm.append_left first⟩
  | swap a b l =>
    intro bs h
    obtain ⟨first, _, hfirst, hl, rfl⟩ := collect_cons_eq_some.mp h
    obtain ⟨second, rest, hsecond, hrest, rfl⟩ := collect_cons_eq_some.mp hl
    have hinner := collect_cons_eq_some.mpr ⟨first, rest, hfirst, hrest, rfl⟩
    refine ⟨_, collect_cons_eq_some.mpr ⟨second, _, hsecond, hinner, rfl⟩, ?_⟩
    rw [← List.append_assoc, ← List.append_assoc]
    exact List.perm_append_comm.append_right rest
  | trans _ _ ih₁ ih₂ =>
    intro bs h
    obtain ⟨bs₂, h₂, hp₂⟩ := ih₂ h
    obtain ⟨bs₁, h₁, hp₁⟩ := ih₁ h₂
    exact ⟨bs₁, h₁, hp₁.trans hp₂⟩

/-! ## Keys -/

/-- Items with distinct keys: those of the outcome that carry the key of `a` are what `a` gives rise to. -/
theorem filter_flatMap_key {κ : Type*} [DecidableEq κ] {key : α → κ} {tag : β → κ} {g : α → List β}
    (htag : ∀ a, ∀ b ∈ g a, tag b = key a) {l : List α} (hnodup : (l.map key).Nodup) {a : α} (ha : a ∈ l) :
    (l.flatMap g).filter (fun b => tag b = key a) = g a := by
  have hown : (g a).filter (fun b => tag b = key a) = g a := by
    rw [List.filter_eq_self]
    intro b hb
    exact decide_eq_true (htag a b hb)
  have hother : ∀ {x : α}, key x ≠ key a → (g x).filter (fun b => tag b = key a) = [] := by
    intro x hx
    rw [List.filter_eq_nil_iff]
    intro b hb
    rw [htag x b hb, decide_eq_true_eq]
    exact hx
  induction l with
  | nil => cases ha
  | cons x l ih =>
    rw [List.map_cons, List.nodup_cons] at hnodup
    rw [List.flatMap_cons, List.filter_append]
    rcases List.mem_cons.mp ha with rfl | ha
    · have hrest : (l.flatMap g).filter (fun b => tag b = key a) = [] := by
        rw [List.filter_flatMap, List.flatMap_eq_nil_iff]
        intro y hy
        exact hother fun h => hnodup.1 (h ▸ List.mem_map_of_mem hy)
      rw [hown, hrest, List.append_nil]
    · rw [hother fun h => hnodup.1 (h ▸ List.mem_map_of_mem ha), List.nil_append]
      exact ih hnodup.2 ha

/-- What holds before anything of `sent` has arrived, and stays so with every further arrival, holds whatever has
arrived and in whatever order. -/
theorem arrival_induction {sent : List β} {P : List β → Prop} (nil : P [])
    (step : ∀ bs b rest, (bs ++ b :: rest).Perm sent → P bs → P (bs ++ [b])) (bs rest : List β)
    (h : (bs ++ rest).Perm sent) : P bs := by
  induction bs using List.reverseRecOn generalizing rest with
  | nil => exact nil
  | append_singleton bs b ih =>
    rw [List.append_assoc, List.singleton_append] at h
    exact step bs b rest h (ih (b :: rest) h)

end Lib

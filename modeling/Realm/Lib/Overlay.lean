import Mathlib.Data.List.Basic
import Mathlib.Logic.Function.Basic

/-!
# Realm.Lib.Overlay — writing over part of a function

`overlay f w` is `f` with the values that `w` has written over.

* `foldl_overlay_hit`, `foldl_overlay_miss`: the value at a point after several writes, when the writes that
  reach the point agree there.
* `eq_of_update_eq`, `update_eq_of_eq`: the points with a given value, when one point changes.
* `forall_update₂`: two functions that are changed at the same point.
-/

namespace Lib

variable {κ β : Type*}

def overlay (f : κ → β) (w : κ → Option β) : κ → β := fun a => (w a).getD (f a)

variable {f : κ → β} {ws : List (κ → Option β)} {a : κ} {v : β}

theorem overlay_of_some {w : κ → Option β} (h : w a = some v) : overlay f w a = v := by
  rw [overlay, h, Option.getD_some]

theorem overlay_of_none {w : κ → Option β} (h : w a = none) : overlay f w a = f a := by
  rw [overlay, h, Option.getD_none]

theorem foldl_overlay_miss (h : ∀ w ∈ ws, w a = none) : ws.foldl overlay f a = f a := by
  induction ws generalizing f with
  | nil => rfl
  | cons w ws ih =>
    rw [List.foldl_cons, ih fun w' hw' => h w' (List.mem_cons_of_mem w hw')]
    exact overlay_of_none (h w List.mem_cons_self)

theorem foldl_overlay_hit (hv : ∀ w ∈ ws, ∀ b, w a = some b → b = v) (h : ∃ w ∈ ws, (w a).isSome) :
    ws.foldl overlay f a = v := by
  induction ws generalizing f with
  | nil => simp at h
  | cons w ws ih =>
    have hv' : ∀ w' ∈ ws, ∀ b, w' a = some b → b = v := fun w' hw' => hv w' (List.mem_cons_of_mem w hw')
    rw [List.foldl_cons]
    by_cases hlater : ∃ w' ∈ ws, (w' a).isSome
    · exact ih hv' hlater
    · -- the first write is the only one that reaches the point
      rw [foldl_overlay_miss fun w' hw' => by
        by_contra hne
        exact hlater ⟨w', hw', Option.isSome_iff_ne_none.mpr hne⟩]
      obtain ⟨w', hw', hsome⟩ := h
      rcases List.mem_cons.mp hw' with rfl | hw'
      · obtain ⟨b, hb⟩ := Option.isSome_iff_exists.mp hsome
        rw [overlay_of_some hb, hv w' List.mem_cons_self b hb]
      · exact absurd ⟨w', hw', hsome⟩ hlater

/-- A value other than the one written was there before. -/
theorem eq_of_update_eq {ι α : Type*} [DecidableEq ι] {f : ι → α} {i j : ι} {a b : α}
    (h : Function.update f i a j = b) (hne : a ≠ b) : f j = b := by
  rcases eq_or_ne j i with rfl | hji
  · rw [Function.update_self] at h
    exact absurd h hne
  · rwa [Function.update_of_ne hji] at h

/-- A value is still there, unless it is written over. -/
theorem update_eq_of_eq {ι α : Type*} [DecidableEq ι] {f : ι → α} {i j : ι} {b : α} (h : f j = b)
    (hne : f i ≠ b) (a : α) : Function.update f i a j = b := by
  rcases eq_or_ne j i with rfl | hji
  · exact absurd h hne
  · rwa [Function.update_of_ne hji]

/-- A relation between two functions survives a change of both at one point, if it holds there. -/
theorem forall_update₂ {ι α β : Type*} [DecidableEq ι] {f : ι → α} {g : ι → β} {i : ι} {a : α} {b : β}
    {p : ι → α → β → Prop} (hi : p i a b) (h : ∀ j, j ≠ i → p j (f j) (g j)) (j : ι) :
    p j (Function.update f i a j) (Function.update g i b j) := by
  rcases eq_or_ne j i with rfl | hne
  · rwa [Function.update_self, Function.update_self]
  · rw [Function.update_of_ne hne, Function.update_of_ne hne]
    exact h j hne

end Lib

import Mathlib.Algebra.BigOperators.Group.List.Basic
import Mathlib.Algebra.Order.Ring.Nat

/-!
# Realm.Lib.Pack — packing a sequence into boxes, in order

Things of the sizes `l` go into boxes of size `max`, in the order of the list: a thing that does not fit any more
starts the next box.

* `boxes max l`: how many boxes that takes; `further max fill l`: how many more, when the first has `fill` in it.
* `boxes_le_iff`: no division of the list into consecutive runs that each fit into a box has fewer.
-/

namespace Lib

variable {max : ℕ}

/-- How many boxes are started for `l` when `fill` is in the present one. -/
def further (max : ℕ) : ℕ → List ℕ → ℕ
  | _, [] => 0
  | fill, s :: l => if fill + s ≤ max then further max (fill + s) l else 1 + further max s l

def boxes (max : ℕ) (l : List ℕ) : ℕ := if l = [] then 0 else 1 + further max 0 l

/-- Less room costs at most one box, and never saves one. -/
theorem further_le (l : List ℕ) :
    (∀ x y, x ≤ y → further max x l ≤ further max y l) ∧ ∀ x y, further max x l ≤ 1 + further max y l := by
  induction l with
  | nil => exact ⟨fun _ _ _ => le_refl 0, fun _ _ => Nat.zero_le _⟩
  | cons s l ih =>
    obtain ⟨hmono, hone⟩ := ih
    constructor
    · intro x y hxy
      rw [further, further]
      have hfits := hmono (x + s) (y + s) (by omega)
      have hbound := hone (x + s) s
      split_ifs <;> omega
    · intro x y
      rw [further, further]
      have hfits := hone (x + s) (y + s)
      have hbound := hone (x + s) s
      have hnew := hmono s (y + s) (by omega)
      split_ifs <;> omega

/-- A run that fits goes into the present box. -/
theorem further_append {fill : ℕ} {r : List ℕ} (h : fill + r.sum ≤ max) (l : List ℕ) :
    further max fill (r ++ l) = further max (fill + r.sum) l := by
  induction r generalizing fill with
  | nil => rfl
  | cons s r ih =>
    rw [List.sum_cons] at h
    rw [List.cons_append, further, if_pos (by omega), ih (by omega), List.sum_cons, Nat.add_assoc]

theorem further_le_length {runs : List (List ℕ)} (h : ∀ r ∈ runs, r.sum ≤ max) (fill : ℕ) :
    further max fill runs.flatten ≤ runs.length := by
  induction runs generalizing fill with
  | nil => exact Nat.zero_le _
  | cons r runs ih =>
    obtain ⟨hr, hruns⟩ := List.forall_mem_cons.mp h
    calc further max fill (r ++ runs.flatten)
        ≤ 1 + further max 0 (r ++ runs.flatten) := (further_le _).2 _ _
      _ = 1 + further max (0 + r.sum) runs.flatten := by rw [further_append (by omega)]
      _ ≤ 1 + runs.length := Nat.add_le_add_left (ih hruns _) 1
      _ = (r :: runs).length := Nat.add_comm _ _

/-- The boxes are runs that fit: the first of them beside `fill`. -/
theorem exists_runs {l : List ℕ} (h : ∀ s ∈ l, s ≤ max) (fill : ℕ) (hfill : fill ≤ max) :
    ∃ (r : List ℕ) (runs : List (List ℕ)), r ++ runs.flatten = l ∧ runs.length = further max fill l ∧
      fill + r.sum ≤ max ∧ ∀ x ∈ runs, x.sum ≤ max := by
  induction l generalizing fill with
  | nil => exact ⟨[], [], rfl, rfl, hfill, fun x hx => by cases hx⟩
  | cons s l ih =>
    obtain ⟨hs, hl⟩ := List.forall_mem_cons.mp h
    rw [further]
    split_ifs with hfits
    · obtain ⟨r, runs, hflat, hlen, hsum, hruns⟩ := ih hl (fill + s) hfits
      refine ⟨s :: r, runs, by rw [List.cons_append, hflat], hlen, ?_, hruns⟩
      rw [List.sum_cons]
      omega
    · obtain ⟨r, runs, hflat, hlen, hsum, hruns⟩ := ih hl s hs
      refine ⟨[], (s :: r) :: runs, ?_, ?_, hfill, ?_⟩
      · rw [List.nil_append, List.flatten_cons, List.cons_append, hflat]
      · rw [List.length_cons, hlen, Nat.add_comm]
      · intro x hx
        rcases List.mem_cons.mp hx with rfl | hx
        · rwa [List.sum_cons]
        · exact hruns x hx

/-- **Packing in order is optimal** among the divisions into consecutive runs. -/
theorem boxes_le_iff {l : List ℕ} (h : ∀ s ∈ l, s ≤ max) (n : ℕ) :
    boxes max l ≤ n ↔ ∃ runs : List (List ℕ), runs.flatten = l ∧ runs.length ≤ n ∧ ∀ r ∈ runs, r.sum ≤ max := by
  unfold boxes
  constructor
  · intro hn
    split_ifs at hn with hnil
    · exact ⟨[], hnil.symm, Nat.zero_le n, fun r hr => by cases hr⟩
    · obtain ⟨r, runs, hflat, hlen, hsum, hruns⟩ := exists_runs h 0 (Nat.zero_le _)
      refine ⟨r :: runs, hflat, ?_, List.forall_mem_cons.mpr ⟨by omega, hruns⟩⟩
      rw [List.length_cons]
      omega
  · rintro ⟨runs, rfl, hlen, hruns⟩
    split_ifs with hnil
    · exact Nat.zero_le n
    · cases runs with
      | nil => exact absurd rfl hnil
      | cons r runs =>
        obtain ⟨hr, hruns⟩ := List.forall_mem_cons.mp hruns
        have hrest := further_le_length hruns (0 + r.sum)
        rw [List.flatten_cons, further_append (by omega)]
        rw [List.length_cons] at hlen
        omega

end Lib

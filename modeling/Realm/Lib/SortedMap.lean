import Mathlib.Order.Lattice
import Mathlib.Data.List.Pairwise
import Mathlib.Data.List.TakeWhile

/-!
# Realm.Lib.SortedMap — ordered maps as key-sorted association lists

The iteration order of an ordered map is the order of its keys, so a map is its list of entries with
strictly increasing keys; the order is a field, and every operation below keeps it.

* `find`, `set`, `erase`: lookup, `m[k] = v` and removal of a key.
* `below k`, `above k`: the entries in front of and behind the lower bound of `k`.
* `restrict`: the map with some entries removed.
-/

namespace Lib

/-- A finite map listed by strictly increasing keys. -/
@[ext] structure SortedMap (κ β : Type) [LinearOrder κ] where
  entries : List (κ × β)
  sorted : entries.Pairwise (fun a b => a.1 < b.1)

namespace SortedMap

variable {κ β : Type} [LinearOrder κ]

/-! ## Operations on the entries -/

/-- Insert or overwrite, keeping the keys increasing. -/
def setList (k : κ) (v : β) : List (κ × β) → List (κ × β)
  | [] => [(k, v)]
  | e :: l => if k < e.1 then (k, v) :: e :: l else if e.1 < k then e :: setList k v l else (k, v) :: l

theorem mem_setList {k : κ} {v : β} {l : List (κ × β)} (hl : l.Pairwise (fun a b => a.1 < b.1))
    {x : κ × β} : x ∈ setList k v l ↔ x = (k, v) ∨ (x ∈ l ∧ x.1 ≠ k) := by
  induction l with
  | nil => simp [setList]
  | cons e l ih =>
    obtain ⟨he, hl'⟩ := List.pairwise_cons.mp hl
    unfold setList
    by_cases h1 : k < e.1
    · rw [if_pos h1]
      have hx : ∀ y ∈ e :: l, y.1 ≠ k := by
        intro y hy
        rcases List.mem_cons.mp hy with rfl | hy
        · exact h1.ne'
        · exact (h1.trans (he y hy)).ne'
      rw [List.mem_cons]
      exact or_congr_right ⟨fun h => ⟨h, hx x h⟩, fun h => h.1⟩
    · rw [if_neg h1]
      by_cases h2 : e.1 < k
      · rw [if_pos h2, List.mem_cons, ih hl', List.mem_cons]
        constructor
        · rintro (rfl | rfl | ⟨h, hne⟩)
          · exact Or.inr ⟨Or.inl rfl, h2.ne⟩
          · exact Or.inl rfl
          · exact Or.inr ⟨Or.inr h, hne⟩
        · rintro (rfl | ⟨rfl | h, hne⟩)
          · exact Or.inr (Or.inl rfl)
          · exact Or.inl rfl
          · exact Or.inr (Or.inr ⟨h, hne⟩)
      · have hk : e.1 = k := le_antisymm (not_lt.mp h1) (not_lt.mp h2)
        rw [if_neg h2, List.mem_cons, List.mem_cons]
        constructor
        · rintro (rfl | h)
          · exact Or.inl rfl
          · exact Or.inr ⟨Or.inr h, (hk ▸ he x h).ne'⟩
        · rintro (rfl | ⟨rfl | h, hne⟩)
          · exact Or.inl rfl
          · exact absurd hk hne
          · exact Or.inr h

theorem sorted_setList {k : κ} {v : β} {l : List (κ × β)}
    (hl : l.Pairwise (fun a b => a.1 < b.1)) : (setList k v l).Pairwise (fun a b => a.1 < b.1) := by
  induction l with
  | nil => simp [setList]
  | cons e l ih =>
    obtain ⟨he, hl'⟩ := List.pairwise_cons.mp hl
    unfold setList
    by_cases h1 : k < e.1
    · rw [if_pos h1]
      refine List.pairwise_cons.mpr ⟨fun y hy => ?_, hl⟩
      rcases List.mem_cons.mp hy with rfl | hy
      · exact h1
      · exact h1.trans (he y hy)
    · rw [if_neg h1]
      by_cases h2 : e.1 < k
      · rw [if_pos h2]
        refine List.pairwise_cons.mpr ⟨fun y hy => ?_, ih hl'⟩
        rcases (mem_setList hl').mp hy with rfl | ⟨hy, -⟩
        · exact h2
        · exact he y hy
      · have hk : e.1 = k := le_antisymm (not_lt.mp h1) (not_lt.mp h2)
        rw [if_neg h2]
        exact List.pairwise_cons.mpr ⟨fun y hy => hk ▸ he y hy, hl'⟩

/-! ## Operations on maps -/

variable (m : SortedMap κ β) (k : κ)

def empty : SortedMap κ β := ⟨[], List.Pairwise.nil⟩

def singleton (k : κ) (v : β) : SortedMap κ β := ⟨[(k, v)], List.pairwise_singleton _ _⟩

def find : Option β := (m.entries.find? (fun e => e.1 = k)).map Prod.snd

def set (v : β) : SortedMap κ β := ⟨setList k v m.entries, sorted_setList m.sorted⟩

def erase : SortedMap κ β := ⟨m.entries.filter (fun e => e.1 ≠ k), m.sorted.filter _⟩

/-- The entries whose key is below `k`, in increasing order. -/
def below : List (κ × β) := m.entries.takeWhile (fun e => e.1 < k)

/-- The entries from the lower bound of `k` on. -/
def above : List (κ × β) := m.entries.dropWhile (fun e => e.1 < k)

/-- Keep only the entries `l`. -/
def restrict (l : List (κ × β)) (h : l.Sublist m.entries) : SortedMap κ β := ⟨l, m.sorted.sublist h⟩

instance : Membership (κ × β) (SortedMap κ β) := ⟨fun m e => e ∈ m.entries⟩

variable {m k} {v : β} {x y : κ × β}

theorem mem_def : x ∈ m ↔ x ∈ m.entries := Iff.rfl

@[simp] theorem mem_singleton : x ∈ singleton k v ↔ x = (k, v) := List.mem_singleton

@[simp] theorem mem_set : x ∈ m.set k v ↔ x = (k, v) ∨ (x ∈ m ∧ x.1 ≠ k) := mem_setList m.sorted

@[simp] theorem mem_erase : x ∈ m.erase k ↔ x ∈ m ∧ x.1 ≠ k := by
  show x ∈ m.entries.filter _ ↔ _
  rw [List.mem_filter, decide_eq_true_iff, mem_def]

/-- A key has at most one entry. -/
theorem eq_of_mem (hx : x ∈ m) (hy : y ∈ m) (h : x.1 = y.1) : x = y := by
  have hR : ∀ a ∈ m.entries, ∀ b ∈ m.entries, a = b ∨ a.1 ≠ b.1 :=
    List.Pairwise.forall_of_forall_of_flip (fun _ _ => Or.inl rfl)
      (m.sorted.imp (fun h => Or.inr h.ne)) (m.sorted.imp (fun h => Or.inr h.ne'))
  exact (hR x hx y hy).resolve_right (fun hne => hne h)

/-- A map is determined by its entries. -/
theorem ext_mem {m m' : SortedMap κ β} (h : ∀ x, x ∈ m ↔ x ∈ m') : m = m' := by
  have hn : ∀ m : SortedMap κ β, m.entries.Nodup := by
    intro m
    refine m.sorted.imp fun {a b} (hab : a.1 < b.1) => ?_
    rintro rfl
    exact lt_irrefl _ hab
  refine SortedMap.ext (List.Perm.eq_of_pairwise (fun a b _ _ hab hba => ?_) m.sorted m'.sorted ?_)
  · exact absurd (hab.trans hba) (lt_irrefl _)
  · exact (List.perm_ext_iff_of_nodup (hn m) (hn m')).mpr h

theorem set_erase : (m.erase k).set k v = m.set k v := by
  refine ext_mem fun x => ?_
  rw [mem_set, mem_set, mem_erase]
  exact or_congr_right ⟨fun h => ⟨h.1.1, h.2⟩, fun h => ⟨⟨h.1, h.2⟩, h.2⟩⟩

theorem find_eq_some : m.find k = some v ↔ (k, v) ∈ m := by
  unfold find
  rw [Option.map_eq_some_iff]
  constructor
  · rintro ⟨e, he, rfl⟩
    have hk : e.1 = k := by simpa using List.find?_some he
    have := List.mem_of_find?_eq_some he
    rwa [← hk]
  · intro h
    cases hf : m.entries.find? (fun e => e.1 = k) with
    | none => exact absurd (List.find?_eq_none.mp hf _ h) (by simp)
    | some e =>
      have hk : e.1 = k := by simpa using List.find?_some hf
      have he : e = (k, v) := eq_of_mem (List.mem_of_find?_eq_some hf) h hk
      exact ⟨e, rfl, by rw [he]⟩

theorem find_eq_none : m.find k = none ↔ ∀ v, (k, v) ∉ m := by
  rw [Option.eq_none_iff_forall_ne_some]
  exact forall_congr' fun v => not_congr find_eq_some

theorem below_append_above (m : SortedMap κ β) (k : κ) : m.below k ++ m.above k = m.entries :=
  List.takeWhile_append_dropWhile

theorem lt_of_mem_below (h : x ∈ m.below k) : x.1 < k := by
  simpa using List.mem_takeWhile_imp h

theorem le_of_mem_above (h : x ∈ m.above k) : k ≤ x.1 := by
  by_contra hlt
  rw [not_le] at hlt
  have hs : (m.below k ++ m.above k).Pairwise (fun a b => a.1 < b.1) :=
    (below_append_above m k).symm ▸ m.sorted
  cases ha : m.above k with
  | nil => simp [ha] at h
  | cons e l =>
    -- the first entry behind the lower bound is not below `k`, the later ones are above it
    have he : ¬ e.1 < k := by
      have := List.head?_dropWhile_not (fun e : κ × β => decide (e.1 < k)) m.entries
      rw [show m.entries.dropWhile (fun e => decide (e.1 < k)) = e :: l from ha] at this
      simpa using this
    rw [ha] at h hs
    rcases List.mem_cons.mp h with rfl | hx
    · exact he hlt
    · exact he (((List.pairwise_cons.mp (List.pairwise_append.mp hs).2.1).1 x hx).trans hlt)

theorem mem_iff_below_or_above (k : κ) : x ∈ m ↔ x ∈ m.below k ∨ x ∈ m.above k := by
  rw [← List.mem_append, below_append_above, mem_def]

/-- The lower bound of `k` is the entry with the least key from `k` on. -/
theorem head?_above (h : (m.above k).head? = some x) : x ∈ m ∧ k ≤ x.1 ∧ ∀ y ∈ m, k ≤ y.1 → x.1 ≤ y.1 := by
  obtain ⟨l, hl⟩ := List.head?_eq_some_iff.mp h
  have hx : x ∈ m.above k := hl ▸ List.mem_cons_self
  refine ⟨(mem_iff_below_or_above k).mpr (.inr hx), le_of_mem_above hx, fun y hy hk => ?_⟩
  have hs : (m.above k).Pairwise (fun a b => a.1 < b.1) := m.sorted.sublist (List.dropWhile_sublist _)
  rcases (mem_iff_below_or_above k).mp hy with hy | hy
  · exact absurd (lt_of_mem_below hy) (not_lt.mpr hk)
  · rw [hl] at hy hs
    rcases List.mem_cons.mp hy with rfl | hy
    · exact le_rfl
    · exact ((List.pairwise_cons.mp hs).1 y hy).le

theorem head?_above_eq_none (h : (m.above k).head? = none) (hx : x ∈ m) : x.1 < k := by
  have hnil : m.above k = [] := List.head?_eq_none_iff.mp h
  rcases (mem_iff_below_or_above k).mp hx with hx | hx
  · exact lt_of_mem_below hx
  · simp [hnil] at hx

/-- The entry in front of the lower bound of `k` is the one with the greatest key below `k`. -/
theorem getLast?_below (h : (m.below k).getLast? = some x) : x ∈ m ∧ x.1 < k ∧ ∀ y ∈ m, y.1 < k → y.1 ≤ x.1 := by
  obtain ⟨l, hl⟩ := List.getLast?_eq_some_iff.mp h
  have hx : x ∈ m.below k := by simp [hl]
  refine ⟨(mem_iff_below_or_above k).mpr (.inl hx), lt_of_mem_below hx, fun y hy hk => ?_⟩
  have hs : (m.below k).Pairwise (fun a b => a.1 < b.1) := m.sorted.sublist (List.takeWhile_sublist _)
  rcases (mem_iff_below_or_above k).mp hy with hy | hy
  · rw [hl] at hy hs
    rcases List.mem_append.mp hy with hy | hy
    · exact ((List.pairwise_append.mp hs).2.2 y hy x List.mem_cons_self).le
    · rw [List.mem_singleton.mp hy]
  · exact absurd hk (not_lt.mpr (le_of_mem_above hy))

theorem getLast?_below_eq_none (h : (m.below k).getLast? = none) (hx : x ∈ m) : k ≤ x.1 := by
  have hnil : m.below k = [] := List.getLast?_eq_none_iff.mp h
  rcases (mem_iff_below_or_above k).mp hx with hx | hx
  · simp [hnil] at hx
  · exact le_of_mem_above hx

/-! ## Entries as lists: what `set` and `erase` do to a sum -/

/-- A fresh key adds its entry. -/
theorem set_perm (h : ∀ w, (k, w) ∉ m) : (m.set k v).entries.Perm ((k, v) :: m.entries) := by
  obtain ⟨l, hl⟩ := m
  show (setList k v l).Perm _
  replace h : ∀ w, (k, w) ∉ l := h
  induction l with
  | nil => exact List.Perm.refl _
  | cons e l ih =>
    unfold setList
    by_cases h1 : k < e.1
    · rw [if_pos h1]
    · have hne : e.1 ≠ k := by
        rintro rfl
        exact h e.2 (by simp)
      have h2 : e.1 < k := lt_of_le_of_ne (not_lt.mp h1) hne
      rw [if_neg h1, if_pos h2]
      exact ((ih (List.pairwise_cons.mp hl).2 (fun w hw => h w (List.mem_cons_of_mem _ hw))).cons e).trans
        (List.Perm.swap _ _ _)

/-- Erasing a key removes its entry. -/
theorem erase_perm (h : (k, v) ∈ m) : m.entries.Perm ((k, v) :: (m.erase k).entries) := by
  obtain ⟨l, hl⟩ := m
  show l.Perm ((k, v) :: l.filter (fun e => e.1 ≠ k))
  replace h : (k, v) ∈ l := h
  induction l with
  | nil => simp at h
  | cons e l ih =>
    obtain ⟨he, hl'⟩ := List.pairwise_cons.mp hl
    rcases List.mem_cons.mp h with rfl | h
    · have : l.filter (fun e => e.1 ≠ k) = l :=
        List.filter_eq_self.mpr (fun y hy => by simpa using (he y hy).ne')
      rw [List.filter_cons_of_neg (by simp), this]
    · have hne : e.1 ≠ k := (he (k, v) h).ne
      rw [List.filter_cons_of_pos (by simpa using hne)]
      exact ((ih hl' h).cons e).trans (List.Perm.swap _ _ _)

end SortedMap

end Lib

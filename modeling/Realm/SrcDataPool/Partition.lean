import Realm.SrcDataPool.Basic

/-!
# Realm.SrcDataPool.Partition — the pool is always cut into free and used blocks

`Inv base s` is the working form of the partition: blocks are nonempty, 64-byte aligned and inside the
pool, free blocks are separated by gaps (disjoint *and* fully coalesced), used blocks are disjoint from each
other and from the free ones, and the sizes add up to `total_size`.

Every operation first opens a hole (`Hole`: the pool minus one span with no free neighbour) and then fills
it:

* `Inv.hole_of_free`: taking a span off the free list;
* `Inv.hole_of_release`: taking a span out of `in_use` and absorbing its free neighbours;
* `Hole.fill_free`, `Hole.fill_used`, `Hole.fill_both`: the hole becomes free, used, or is split.
-/

namespace Realm.SrcDataPool

open Lib

/-! ## Rounding -/

theorem le_roundUpSize (size : ℕ) : size ≤ roundUpSize size := by
  unfold roundUpSize blockSize
  dsimp only
  split_ifs <;> omega

theorem dvd_roundUpSize (size : ℕ) : 64 ∣ roundUpSize size := by
  unfold roundUpSize blockSize
  dsimp only
  split_ifs <;> omega

/-- Rounding up costs nothing against an aligned bound. -/
theorem roundUpSize_le_iff {size n : ℕ} (hn : 64 ∣ n) : roundUpSize size ≤ n ↔ size ≤ n := by
  unfold roundUpSize blockSize
  dsimp only
  split_ifs <;> omega

/-! ## The walk over the free list -/

theorem walk_exact {n b z p : ℕ} {l : List Span} (h : walk n l b z = .exact p) : (p, n) ∈ l := by
  induction l generalizing b z with
  | nil => simp [walk] at h
  | cons x l ih =>
    unfold walk at h
    split_ifs at h with h1 h2 h3 h4
    · obtain rfl : x.1 = p := by simpa using h
      subst h1
      exact List.mem_cons_self
    all_goals exact List.mem_cons_of_mem _ (ih h)

/-- The walk ends without a candidate only if it started without one and every span is too small. -/
theorem walk_upper_zero {n b z : ℕ} {l : List Span} (hl : ∀ x ∈ l, x.1 ≠ 0)
    (h : walk n l b z = .upper 0) : b = 0 ∧ ∀ x ∈ l, x.2 < n := by
  induction l generalizing b z with
  | nil =>
    simp only [walk, Fit.upper.injEq] at h
    exact ⟨h, by simp⟩
  | cons x l ih =>
    have hl' : ∀ y ∈ l, y.1 ≠ 0 := fun y hy => hl y (List.mem_cons_of_mem _ hy)
    have hx : x.1 ≠ 0 := hl x List.mem_cons_self
    unfold walk at h
    split_ifs at h with h1 h2 h3 h4
    · exact absurd (ih hl' h).1 hx
    · exact absurd (ih hl' h).1 hx
    · exact absurd (ih hl' h).1 h3
    · obtain ⟨hb, hs⟩ := ih hl' h
      refine ⟨hb, fun y hy => ?_⟩
      rcases List.mem_cons.mp hy with rfl | hy
      · omega
      · exact hs y hy

/-- **The walk**: no span of the list has the size wanted, and the result is the least of the larger ones and of the
one it started with. -/
theorem walk_upper_least {n b z p : ℕ} {l : List Span} (hl : ∀ x ∈ l, x.1 ≠ 0) (hp : p ≠ 0)
    (h : walk n l b z = .upper p) :
    (∀ x ∈ l, x.2 ≠ n) ∧ (p = b ∧ (∀ x ∈ l, n < x.2 → z ≤ x.2) ∨
      ∃ y, (p, y) ∈ l ∧ n < y ∧ (b ≠ 0 → y < z) ∧ ∀ x ∈ l, n < x.2 → y ≤ x.2) := by
  induction l generalizing b z with
  | nil =>
    simp only [walk, Fit.upper.injEq] at h
    exact ⟨by simp, .inl ⟨h.symm, by simp⟩⟩
  | cons x l ih =>
    have hl' : ∀ y ∈ l, y.1 ≠ 0 := fun y hy => hl y (List.mem_cons_of_mem x hy)
    have hx : x.1 ≠ 0 := hl x List.mem_cons_self
    -- the walk goes on with `x`, which is better than what it had
    have htake : walk n l x.1 x.2 = .upper p → x.2 ≠ n → n < x.2 → (b ≠ 0 → x.2 < z) →
        (∀ y ∈ x :: l, y.2 ≠ n) ∧ (p = b ∧ (∀ y ∈ x :: l, n < y.2 → z ≤ y.2) ∨
          ∃ y, (p, y) ∈ x :: l ∧ n < y ∧ (b ≠ 0 → y < z) ∧ ∀ w ∈ x :: l, n < w.2 → y ≤ w.2) := by
      intro h hne hlt hbetter
      obtain ⟨hexact, ⟨rfl, hleast⟩ | ⟨y, hy, hlt', hless, hleast⟩⟩ := ih hl' h
      · refine ⟨List.forall_mem_cons.mpr ⟨hne, hexact⟩, .inr ⟨x.2, List.mem_cons_self, hlt, hbetter, ?_⟩⟩
        exact List.forall_mem_cons.mpr ⟨fun _ => le_rfl, hleast⟩
      · have hyx := hless hx
        refine ⟨List.forall_mem_cons.mpr ⟨hne, hexact⟩, .inr ⟨y, List.mem_cons_of_mem x hy, hlt', ?_, ?_⟩⟩
        · exact fun hb => hyx.trans (hbetter hb)
        · exact List.forall_mem_cons.mpr ⟨fun _ => hyx.le, hleast⟩
    -- the walk goes on with what it had
    have hkeep : walk n l b z = .upper p → x.2 ≠ n → (n < x.2 → b ≠ 0 ∧ z ≤ x.2) →
        (∀ y ∈ x :: l, y.2 ≠ n) ∧ (p = b ∧ (∀ y ∈ x :: l, n < y.2 → z ≤ y.2) ∨
          ∃ y, (p, y) ∈ x :: l ∧ n < y ∧ (b ≠ 0 → y < z) ∧ ∀ w ∈ x :: l, n < w.2 → y ≤ w.2) := by
      intro h hne hworse
      obtain ⟨hexact, ⟨rfl, hleast⟩ | ⟨y, hy, hlt', hless, hleast⟩⟩ := ih hl' h
      · refine ⟨List.forall_mem_cons.mpr ⟨hne, hexact⟩, .inl ⟨rfl, ?_⟩⟩
        exact List.forall_mem_cons.mpr ⟨fun hlt => (hworse hlt).2, hleast⟩
      · refine ⟨List.forall_mem_cons.mpr ⟨hne, hexact⟩,
          .inr ⟨y, List.mem_cons_of_mem x hy, hlt', hless, List.forall_mem_cons.mpr ⟨fun hlt => ?_, hleast⟩⟩⟩
        obtain ⟨hb, hz⟩ := hworse hlt
        exact (hless hb).le.trans hz
    unfold walk at h
    split_ifs at h with h1 h2 h3 h4
    · exact htake h h1 h2 fun hb => absurd h3 hb
    · exact htake h h1 h2 fun _ => h4
    · exact hkeep h h1 fun _ => ⟨h3, Nat.not_lt.mp h4⟩
    · exact hkeep h h1 fun hlt => absurd hlt h2

/-! ## Absorbing the neighbours of a released span -/

/-- The loop that looks below, on spans listed downwards with gaps between them. -/
theorem mergeBelow_spec {l : List Span} {p n : ℕ}
    (hl : l.Pairwise (fun a b => b.1 + b.2 < a.1)) (hp : ∀ x ∈ l, x.1 + x.2 ≤ p) :
    (mergeBelow l p n).2.1 + (mergeBelow l p n).2.2 = p + n ∧
    Span.total (mergeBelow l p n).1 + (mergeBelow l p n).2.2 = Span.total l + n ∧
    (∀ x ∈ (mergeBelow l p n).1, x.1 + x.2 < (mergeBelow l p n).2.1) ∧
    (∀ J, Span.MergeClosed J → (∀ x ∈ l, J x) → J (p, n) →
      J ((mergeBelow l p n).2.1, (mergeBelow l p n).2.2)) := by
  induction l generalizing p n with
  | nil => exact ⟨rfl, rfl, by simp [mergeBelow], fun J _ _ h => h⟩
  | cons x l ih =>
    obtain ⟨hx, hl'⟩ := List.pairwise_cons.mp hl
    have hxp := hp x List.mem_cons_self
    unfold mergeBelow
    by_cases h : x.1 + x.2 ≠ p
    · rw [if_pos h]
      refine ⟨rfl, rfl, fun y hy => ?_, fun J _ _ hJ => hJ⟩
      rcases List.mem_cons.mp hy with rfl | hy
      · show y.1 + y.2 < p
        omega
      · have := hx y hy
        show y.1 + y.2 < p
        omega
    · rw [if_neg h]
      obtain ⟨h1, h2, h3, h4⟩ := ih (p := x.1) (n := n + x.2) hl' (fun y hy => (hx y hy).le)
      refine ⟨by omega, by rw [h2, Span.total_cons]; omega, h3, fun J hJ hJl hJp => ?_⟩
      refine h4 J hJ (fun y hy => hJl y (List.mem_cons_of_mem _ hy)) ?_
      rw [Nat.add_comm]
      refine hJ _ _ _ (hJl x List.mem_cons_self) ?_
      rwa [not_not.mp h]

/-- The loop that looks above, on spans listed upwards with gaps between them. -/
theorem mergeAbove_spec {l : List Span} {p n : ℕ}
    (hl : l.Pairwise (fun a b => a.1 + a.2 < b.1)) (hp : ∀ x ∈ l, p + n ≤ x.1) :
    n ≤ (mergeAbove l p n).2 ∧
    Span.total (mergeAbove l p n).1 + (mergeAbove l p n).2 = Span.total l + n ∧
    (∀ x ∈ (mergeAbove l p n).1, p + (mergeAbove l p n).2 < x.1) ∧
    (∀ J, Span.MergeClosed J → (∀ x ∈ l, J x) → J (p, n) → J (p, (mergeAbove l p n).2)) := by
  induction l generalizing n with
  | nil => exact ⟨le_rfl, rfl, by simp [mergeAbove], fun J _ _ h => h⟩
  | cons x l ih =>
    obtain ⟨hx, hl'⟩ := List.pairwise_cons.mp hl
    have hxp := hp x List.mem_cons_self
    unfold mergeAbove
    by_cases h : p + n ≠ x.1
    · rw [if_pos h]
      refine ⟨le_rfl, rfl, fun y hy => ?_, fun J _ _ hJ => hJ⟩
      rcases List.mem_cons.mp hy with rfl | hy
      · show p + n < y.1
        omega
      · have := hx y hy
        show p + n < y.1
        omega
    · rw [if_neg h]
      obtain ⟨h1, h2, h3, h4⟩ := ih (n := n + x.2) hl'
        (fun y hy => by have := hx y hy; omega)
      refine ⟨by omega, by rw [h2, Span.total_cons]; omega, h3, fun J hJ hJl hJp => ?_⟩
      refine h4 J hJ (fun y hy => hJl y (List.mem_cons_of_mem _ hy)) ?_
      refine hJ _ _ _ hJp ?_
      rw [not_not.mp h]
      exact hJl x List.mem_cons_self

/-- **Absorption**: from a free list with gaps and a span disjoint from it, the merged span starts at or
below the released one and has no free neighbour left, nothing is lost, and every property that survives
merging passes to the merged span. -/
theorem absorb_spec {fl : SpanMap} {p n : ℕ} (hgap : ∀ x ∈ fl, ∀ y ∈ fl, x.1 < y.1 → x.1 + x.2 < y.1)
    (hdis : ∀ x ∈ fl, Span.Disj x (p, n)) (hn : 0 < n) (hpos : ∀ x ∈ fl, 0 < x.2) :
    (absorb fl p n).freeList.entries.Sublist fl.entries ∧
    Span.total (absorb fl p n).freeList.entries + (absorb fl p n).size = Span.total fl.entries + n ∧
    (∀ x ∈ (absorb fl p n).freeList, x.1 + x.2 < (absorb fl p n).srcptr ∨
      (absorb fl p n).srcptr + (absorb fl p n).size < x.1) ∧
    (∀ J, Span.MergeClosed J → (∀ x ∈ fl, J x) → J (p, n) →
      J ((absorb fl p n).srcptr, (absorb fl p n).size)) := by
  have hsplit := fl.below_append_above p
  have hmemb : ∀ x ∈ fl.below p, x ∈ fl := fun x hx => by
    rw [SortedMap.mem_def, ← hsplit]
    exact List.mem_append_left _ hx
  have hmema : ∀ x ∈ fl.above p, x ∈ fl := fun x hx => by
    rw [SortedMap.mem_def, ← hsplit]
    exact List.mem_append_right _ hx
  have hgap' : fl.entries.Pairwise (fun a b => a.1 + a.2 < b.1) :=
    fl.sorted.imp_of_mem (fun ha hb hab => hgap _ ha _ hb hab)
  rw [← hsplit, List.pairwise_append] at hgap'
  obtain ⟨hgb, hga, -⟩ := hgap'
  have hbelow : ∀ x ∈ (fl.below p).reverse, x.1 + x.2 ≤ p := by
    intro x hx
    rw [List.mem_reverse] at hx
    have h1 := SortedMap.lt_of_mem_below hx
    rcases hdis x (hmemb x hx) with h | h <;> simp only at h <;> omega
  obtain ⟨b1, b2, b3, b4⟩ := mergeBelow_spec (l := (fl.below p).reverse) (p := p) (n := n)
    (List.pairwise_reverse.mpr hgb) hbelow
  have habove : ∀ x ∈ fl.above p, (mergeBelow (fl.below p).reverse p n).2.1 +
      (mergeBelow (fl.below p).reverse p n).2.2 ≤ x.1 := by
    intro x hx
    have h1 := SortedMap.le_of_mem_above hx
    have h2 := hpos x (hmema x hx)
    rw [b1]
    rcases hdis x (hmema x hx) with h | h <;> simp only at h <;> omega
  obtain ⟨a1, a2, a3, a4⟩ := mergeAbove_spec hga habove
  refine ⟨?_, ?_, ?_, ?_⟩
  · have hlo := (mergeBelow_suffix (fl.below p).reverse p n).sublist.reverse
    rw [List.reverse_reverse] at hlo
    rw [← hsplit]
    exact hlo.append (mergeAbove_suffix _ _ _).sublist
  · show Span.total ((mergeBelow _ p n).1.reverse ++ (mergeAbove (fl.above p) _ _).1) +
      (mergeAbove (fl.above p) _ _).2 = _
    rw [Span.total_append, Span.total_reverse, ← hsplit, Span.total_append]
    rw [Span.total_reverse] at b2
    omega
  · intro x hx
    rcases List.mem_append.mp hx with h | h
    · exact Or.inl (b3 x (List.mem_reverse.mp h))
    · exact Or.inr (a3 x h)
  · intro J hJ hJl hJp
    refine a4 J hJ (fun x hx => hJl x (hmema x hx)) ?_
    exact b4 J hJ (fun x hx => hJl x (hmemb x (List.mem_reverse.mp hx))) hJp

/-! ## The invariant -/

/-- A nonempty, 64-byte aligned span inside the pool. -/
structure Block (base size : ℕ) (x : Span) : Prop where
  pos : 0 < x.2
  aligned : 64 ∣ x.1 ∧ 64 ∣ x.2
  within : base ≤ x.1 ∧ x.1 + x.2 ≤ base + size

theorem mergeClosed_block (base size : ℕ) : Span.MergeClosed (Block base size) :=
  fun p m n h1 h2 => ⟨Span.mergeClosed_pos p m n h1.pos h2.pos,
    Span.mergeClosed_dvd 64 p m n h1.aligned h2.aligned,
    Span.mergeClosed_within base (base + size) p m n h1.within h2.within⟩

variable {M : Type} {base : ℕ} {s : SrcDataPool M}

/-- What free list and `in_use` have in common with and without a hole. -/
structure Parts (base : ℕ) (s : SrcDataPool M) : Prop where
  free : ∀ x ∈ s.freeList, Block base s.totalSize x
  used : ∀ x ∈ s.inUse, Block base s.totalSize x
  gap : ∀ x ∈ s.freeList, ∀ y ∈ s.freeList, x.1 < y.1 → x.1 + x.2 < y.1
  sep : ∀ x ∈ s.inUse, ∀ y ∈ s.inUse, x.1 < y.1 → x.1 + x.2 ≤ y.1
  apart : ∀ x ∈ s.freeList, ∀ y ∈ s.inUse, Span.Disj x y

/-- **The pool invariant.** -/
structure Inv (base : ℕ) (s : SrcDataPool M) : Prop extends Parts base s where
  sum : Span.total s.freeList.entries + Span.total s.inUse.entries = s.totalSize

/-- The pool with the span `h` in neither map, and no free span touching it. -/
structure Hole (base : ℕ) (s : SrcDataPool M) (h : Span) : Prop extends Parts base s where
  block : Block base s.totalSize h
  alone : ∀ x ∈ s.freeList, x.1 + x.2 < h.1 ∨ h.1 + h.2 < x.1
  disj : ∀ y ∈ s.inUse, Span.Disj h y
  sum : Span.total s.freeList.entries + Span.total s.inUse.entries + h.2 = s.totalSize

theorem Inv.init {base size : ℕ} (hs : 0 < size) (hb : 64 ∣ base) (hz : 64 ∣ size) :
    Inv base (init base size : SrcDataPool M) where
  free := by
    intro x hx
    rw [SrcDataPool.init, SortedMap.mem_singleton] at hx
    subst hx
    exact ⟨hs, ⟨hb, hz⟩, le_rfl, le_rfl⟩
  used := fun x hx => absurd hx List.not_mem_nil
  gap := by
    intro x hx y hy h
    rw [SrcDataPool.init, SortedMap.mem_singleton] at hx hy
    subst hx hy
    omega
  sep := fun x hx => absurd hx List.not_mem_nil
  apart := fun x _ y hy => absurd hy List.not_mem_nil
  sum := by simp [SrcDataPool.init, SortedMap.singleton, SortedMap.empty]

/-! ### Opening a hole -/

/-- No key is in both maps. -/
theorem Parts.notMem_inUse (hs : Parts base s) {p n : ℕ} (h : (p, n) ∈ s.freeList) (w : ℕ) :
    (p, w) ∉ s.inUse := by
  intro hw
  have h1 := (hs.free _ h).pos
  have h2 := (hs.used _ hw).pos
  have := hs.apart _ h _ hw
  simp only [Span.Disj] at h1 h2 this
  omega

theorem Inv.hole_of_free (hs : Inv base s) {p n : ℕ} (h : (p, n) ∈ s.freeList) :
    Hole base { s with freeList := s.freeList.erase p } (p, n) where
  free := fun x hx => hs.free x (SortedMap.mem_erase.mp hx).1
  used := hs.used
  gap := fun x hx y hy => hs.gap x (SortedMap.mem_erase.mp hx).1 y (SortedMap.mem_erase.mp hy).1
  sep := hs.sep
  apart := fun x hx => hs.apart x (SortedMap.mem_erase.mp hx).1
  block := hs.free _ h
  alone := by
    intro x hx
    obtain ⟨hx, hne⟩ := SortedMap.mem_erase.mp hx
    rcases Nat.lt_or_gt_of_ne hne with hlt | hlt
    · exact Or.inl (hs.gap x hx _ h hlt)
    · exact Or.inr (hs.gap _ h x hx hlt)
  disj := hs.apart _ h
  sum := by
    have h1 := Span.total_perm (SortedMap.erase_perm h)
    have h2 := hs.sum
    rw [Span.total_cons] at h1
    show Span.total (s.freeList.erase p).entries + Span.total s.inUse.entries + n = s.totalSize
    omega

/-- Releasing a used span and absorbing its free neighbours leaves a hole. -/
theorem Inv.hole_of_release (hs : Inv base s) {p n : ℕ} (h : (p, n) ∈ s.inUse) :
    Hole base { s with inUse := s.inUse.erase p, freeList := (absorb s.freeList p n).freeList }
      ((absorb s.freeList p n).srcptr, (absorb s.freeList p n).size) := by
  have hb := hs.used _ h
  obtain ⟨h1, h2, h3, h4⟩ := absorb_spec hs.gap (fun x hx => hs.apart x hx _ h) hb.pos
    (fun x hx => (hs.free x hx).pos)
  have hsub : ∀ x ∈ (absorb s.freeList p n).freeList, x ∈ s.freeList := fun x hx => h1.subset hx
  refine ⟨⟨?_, ?_, ?_, ?_, ?_⟩, ?_, h3, ?_, ?_⟩
  · exact fun x hx => hs.free x (hsub x hx)
  · exact fun x hx => hs.used x (SortedMap.mem_erase.mp hx).1
  · exact fun x hx y hy => hs.gap x (hsub x hx) y (hsub y hy)
  · exact fun x hx y hy => hs.sep x (SortedMap.mem_erase.mp hx).1 y (SortedMap.mem_erase.mp hy).1
  · exact fun x hx y hy => hs.apart x (hsub x hx) y (SortedMap.mem_erase.mp hy).1
  · exact h4 _ (mergeClosed_block base s.totalSize) hs.free hb
  · intro y hy
    obtain ⟨hy, hne⟩ := SortedMap.mem_erase.mp hy
    refine h4 _ (Span.mergeClosed_disj (hs.used y hy).pos) (fun x hx => hs.apart x hx y hy) ?_
    rcases Nat.lt_or_gt_of_ne hne with hlt | hlt
    · exact Or.inr (hs.sep y hy _ h hlt)
    · exact Or.inl (hs.sep _ h y hy hlt)
  · have hp := Span.total_perm (SortedMap.erase_perm h)
    have hsum := hs.sum
    rw [Span.total_cons] at hp
    simp only at hp ⊢
    omega

/-! ### Filling a hole -/

theorem Hole.notMem_free {h : Span} (hs : Hole base s h) {p : ℕ} (hp : h.1 ≤ p) (hp' : p < h.1 + h.2)
    (w : ℕ) : (p, w) ∉ s.freeList := by
  intro hw
  have := hs.alone _ hw
  simp only at this
  omega

theorem Hole.notMem_used {h : Span} (hs : Hole base s h) {p : ℕ} (hp : h.1 ≤ p) (hp' : p < h.1 + h.2)
    (w : ℕ) : (p, w) ∉ s.inUse := by
  intro hw
  have h1 := (hs.used _ hw).pos
  have := hs.disj _ hw
  simp only [Span.Disj] at h1 this
  omega

/-- A free span inside the hole keeps the gaps and stays away from `in_use`. -/
theorem Hole.parts_set_free {h f : Span} (hs : Hole base s h) (hf : Block base s.totalSize f)
    (h1 : h.1 ≤ f.1) (h2 : f.1 + f.2 ≤ h.1 + h.2) :
    Parts base { s with freeList := s.freeList.set f.1 f.2 } where
  free := by
    intro x hx
    rcases SortedMap.mem_set.mp hx with rfl | ⟨hx, -⟩
    · exact hf
    · exact hs.free x hx
  used := hs.used
  gap := by
    intro x hx y hy hlt
    have hpos := hf.pos
    rcases SortedMap.mem_set.mp hx with rfl | ⟨hx, -⟩ <;>
      rcases SortedMap.mem_set.mp hy with rfl | ⟨hy, -⟩
    · omega
    · have := hs.alone y hy
      simp only at hlt ⊢
      omega
    · have := hs.alone x hx
      simp only at hlt ⊢
      omega
    · exact hs.gap x hx y hy hlt
  sep := hs.sep
  apart := by
    intro x hx y hy
    rcases SortedMap.mem_set.mp hx with rfl | ⟨hx, -⟩
    · have := hs.disj y hy
      simp only [Span.Disj] at this ⊢
      omega
    · exact hs.apart x hx y hy

/-- A used span inside the hole, apart from the free ones, keeps the parts. -/
theorem Hole.parts_set_used {h u : Span} {fl : SpanMap} (hs : Hole base s h)
    (hp : Parts base { s with freeList := fl }) (hu : Block base s.totalSize u)
    (h1 : h.1 ≤ u.1) (h2 : u.1 + u.2 ≤ h.1 + h.2) (hfl : ∀ x ∈ fl, Span.Disj x u) :
    Parts base { s with freeList := fl, inUse := s.inUse.set u.1 u.2 } where
  free := hp.free
  used := by
    intro x hx
    rcases SortedMap.mem_set.mp hx with rfl | ⟨hx, -⟩
    · exact hu
    · exact hs.used x hx
  gap := hp.gap
  sep := by
    intro x hx y hy hlt
    have hpos := hu.pos
    rcases SortedMap.mem_set.mp hx with rfl | ⟨hx, -⟩ <;>
      rcases SortedMap.mem_set.mp hy with rfl | ⟨hy, -⟩
    · omega
    · have := hs.disj y hy
      have := (hs.used y hy).pos
      simp only [Span.Disj] at *
      omega
    · have := hs.disj x hx
      have := (hs.used x hx).pos
      simp only [Span.Disj] at *
      omega
    · exact hs.sep x hx y hy hlt
  apart := by
    intro x hx y hy
    rcases SortedMap.mem_set.mp hy with rfl | ⟨hy, -⟩
    · exact hfl x hx
    · exact hp.apart x hx y hy

/-- **The hole becomes a free span.** -/
theorem Hole.fill_free {h : Span} (hs : Hole base s h) :
    Inv base { s with freeList := s.freeList.set h.1 h.2 } where
  toParts := hs.parts_set_free hs.block le_rfl le_rfl
  sum := by
    have hpos := hs.block.pos
    have h1 := Span.total_perm (SortedMap.set_perm (v := h.2) (hs.notMem_free le_rfl (by omega)))
    have h2 := hs.sum
    rw [Span.total_cons] at h1
    simp only at h1 ⊢
    omega

/-- **The hole becomes a used span.** -/
theorem Hole.fill_used {h : Span} (hs : Hole base s h) :
    Inv base { s with inUse := s.inUse.set h.1 h.2 } where
  toParts := by
    refine hs.parts_set_used hs.toParts hs.block le_rfl le_rfl (fun x hx => ?_)
    have := hs.alone x hx
    simp only [Span.Disj]
    omega
  sum := by
    have hpos := hs.block.pos
    have h1 := Span.total_perm (SortedMap.set_perm (v := h.2) (hs.notMem_used le_rfl (by omega)))
    have h2 := hs.sum
    rw [Span.total_cons] at h1
    simp only at h1 ⊢
    omega

/-- **The hole is split** into a used and a free span. -/
theorem Hole.fill_both {h u f : Span} (hs : Hole base s h) (hu : Block base s.totalSize u)
    (hf : Block base s.totalSize f) (hsum : u.2 + f.2 = h.2)
    (hends : (u.1 = h.1 ∧ f.1 = u.1 + u.2) ∨ (f.1 = h.1 ∧ u.1 = f.1 + f.2)) :
    Inv base { s with freeList := s.freeList.set f.1 f.2, inUse := s.inUse.set u.1 u.2 } where
  toParts := by
    refine hs.parts_set_used (hs.parts_set_free hf (by omega) (by omega)) hu (by omega) (by omega)
      (fun x hx => ?_)
    rcases SortedMap.mem_set.mp hx with rfl | ⟨hx, -⟩
    · simp only [Span.Disj]
      omega
    · have := hs.alone x hx
      simp only [Span.Disj]
      omega
  sum := by
    have hpu := hu.pos
    have hpf := hf.pos
    have h1 := Span.total_perm
      (SortedMap.set_perm (v := f.2) (hs.notMem_free (p := f.1) (by omega) (by omega)))
    have h2 := Span.total_perm
      (SortedMap.set_perm (v := u.2) (hs.notMem_used (p := u.1) (by omega) (by omega)))
    have h3 := hs.sum
    rw [Span.total_cons] at h1 h2
    simp only at h1 h2 ⊢
    omega

/-- With nothing in use the free list is one block, the whole pool. -/
theorem Inv.free_of_inUse_nil (hs : Inv base s) (hu : s.inUse.entries = []) (hpos : 0 < s.totalSize) :
    ∃ p, s.freeList.entries = [(p, s.totalSize)] := by
  have hgap : s.freeList.entries.Pairwise (fun a b => a.1 + a.2 < b.1) :=
    s.freeList.sorted.imp_of_mem (fun ha hb hab => hs.gap _ ha _ hb hab)
  have hlen := Span.total_add_length_le hgap (fun x hx => (hs.free x hx).within) (by omega)
  have hsum := hs.sum
  rw [hu, Span.total_nil, Nat.add_zero] at hsum
  match hl : s.freeList.entries with
  | [] =>
    rw [hl, Span.total_nil] at hsum
    omega
  | [x] =>
    rw [hl, Span.total_cons, Span.total_nil, Nat.add_zero] at hsum
    exact ⟨x.1, by rw [← hsum]⟩
  | x :: y :: l =>
    rw [hl] at hlen hsum
    simp only [List.length_cons] at hlen
    omega

/-! ## The operations -/

/-- With waiters in the queue `alloc_srcptr` fails at once. -/
theorem allocSrcptr_of_pending {n : ℕ} (hn : n ≤ s.totalSize) (hp : s.pendingAllocations ≠ []) :
    s.allocSrcptr n = some (0, s) := by
  unfold allocSrcptr
  rw [if_neg (by omega), if_pos hp]

/-- Everything `alloc_srcptr` can do with an empty queue: an exact match, the high end of the smallest larger
span, or nothing because every free span is too small. -/
theorem allocSrcptr_cases_of_ne (hne : ∀ x ∈ s.freeList, x.1 ≠ 0) {n : ℕ} (hn : n ≤ s.totalSize)
    (hp : s.pendingAllocations = []) :
    (∃ p, (p, roundUpSize n) ∈ s.freeList ∧ s.allocSrcptr n = some (p, { s with
      freeList := s.freeList.erase p, inUse := s.inUse.set p (roundUpSize n) })) ∨
    (∃ p z, (p, z) ∈ s.freeList ∧ roundUpSize n < z ∧ (∀ y ∈ s.freeList, roundUpSize n ≤ y.2 → z ≤ y.2) ∧
      s.allocSrcptr n = some (p + (z - roundUpSize n), { s with
        freeList := s.freeList.set p (z - roundUpSize n)
        inUse := s.inUse.set (p + (z - roundUpSize n)) (roundUpSize n) })) ∨
    ((∀ x ∈ s.freeList, x.2 < roundUpSize n) ∧ s.allocSrcptr n = some (0, s)) := by
  unfold allocSrcptr
  rw [if_neg (by omega), if_neg (not_not.mpr hp)]
  dsimp only
  cases hw : walk (roundUpSize n) s.freeList.entries 0 0 with
  | exact p => exact Or.inl ⟨p, walk_exact hw, rfl⟩
  | upper p =>
    dsimp only
    by_cases h0 : p = 0
    · subst h0
      exact Or.inr (Or.inr ⟨(walk_upper_zero hne hw).2, by rw [if_neg (by simp)]⟩)
    · obtain ⟨hexact, hfound⟩ := walk_upper_least hne h0 hw
      obtain ⟨z, hz, hlt, -, hleast⟩ := hfound.resolve_left fun hnone => h0 hnone.1
      refine Or.inr (Or.inl ⟨p, z, hz, hlt, fun y hy hle => ?_, ?_⟩)
      · exact hleast y hy (lt_of_le_of_ne hle (hexact y hy).symm)
      · rw [if_pos h0, SortedMap.find_eq_some.mpr hz]
        rfl

theorem allocSrcptr_cases (hs : Inv base s) (hb : 0 < base) {n : ℕ} (hn : n ≤ s.totalSize)
    (hp : s.pendingAllocations = []) :
    (∃ p, (p, roundUpSize n) ∈ s.freeList ∧ s.allocSrcptr n = some (p, { s with
      freeList := s.freeList.erase p, inUse := s.inUse.set p (roundUpSize n) })) ∨
    (∃ p z, (p, z) ∈ s.freeList ∧ roundUpSize n < z ∧ (∀ y ∈ s.freeList, roundUpSize n ≤ y.2 → z ≤ y.2) ∧
      s.allocSrcptr n = some (p + (z - roundUpSize n), { s with
        freeList := s.freeList.set p (z - roundUpSize n)
        inUse := s.inUse.set (p + (z - roundUpSize n)) (roundUpSize n) })) ∨
    ((∀ x ∈ s.freeList, x.2 < roundUpSize n) ∧ s.allocSrcptr n = some (0, s)) := by
  refine allocSrcptr_cases_of_ne (fun x hx => ?_) hn hp
  have hwithin := (hs.free x hx).within
  omega

/-- What the caller of `alloc_srcptr` gets: on success a fresh pointer owning a large enough span. -/
structure Granted (s : SrcDataPool M) (n p : ℕ) (s' : SrcDataPool M) : Prop where
  pending : s'.pendingAllocations = s.pendingAllocations
  totalSize : s'.totalSize = s.totalSize
  keep : ∀ x ∈ s.inUse, x ∈ s'.inUse
  fresh : ∀ w, (p, w) ∉ s.inUse
  owned : ∃ z, (p, z) ∈ s'.inUse ∧ n ≤ z

theorem allocSrcptr_spec (hs : Inv base s) (hb : 0 < base) {n : ℕ} (h0 : 0 < n)
    (hn : n ≤ s.totalSize) (hp : s.pendingAllocations = []) :
    (∃ p s', p ≠ 0 ∧ s.allocSrcptr n = some (p, s') ∧ Inv base s' ∧ Granted s n p s') ∨
    ((∀ x ∈ s.freeList, x.2 < roundUpSize n) ∧ s.allocSrcptr n = some (0, s)) := by
  have hkeep : ∀ {p : ℕ}, (∀ w, (p, w) ∉ s.inUse) → ∀ x ∈ s.inUse,
      x ∈ s.inUse.set p (roundUpSize n) := by
    intro p hf x hx
    refine SortedMap.mem_set.mpr (Or.inr ⟨hx, ?_⟩)
    rintro rfl
    exact hf x.2 hx
  have hown : ∀ p, ∃ z, (p, z) ∈ s.inUse.set p (roundUpSize n) ∧ n ≤ z :=
    fun p => ⟨_, SortedMap.mem_set.mpr (Or.inl rfl), le_roundUpSize n⟩
  have hr : 0 < roundUpSize n := lt_of_lt_of_le h0 (le_roundUpSize n)
  rcases allocSrcptr_cases hs hb hn hp with ⟨p, hm, he⟩ | ⟨p, z, hm, hlt, -, he⟩ | h
  · have hfresh := hs.toParts.notMem_inUse hm
    have hw := (hs.free _ hm).within
    refine Or.inl ⟨p, _, by omega, he, (hs.hole_of_free hm).fill_used, ?_⟩
    exact ⟨rfl, rfl, hkeep hfresh, hfresh, hown p⟩
  · have hH := hs.hole_of_free hm
    have hbl := hs.free _ hm
    have hd := dvd_roundUpSize n
    have hw := hbl.within
    have ha := hbl.aligned
    simp only at hw ha
    have hu : Block base s.totalSize (p + (z - roundUpSize n), roundUpSize n) :=
      ⟨hr, ⟨by simp only; omega, hd⟩, by simp only; omega, by simp only; omega⟩
    have hf : Block base s.totalSize (p, z - roundUpSize n) :=
      ⟨by simp only; omega, ⟨ha.1, by simp only; omega⟩, hw.1, by simp only; omega⟩
    have hI := hH.fill_both hu hf (by simp only; omega) (Or.inr ⟨rfl, rfl⟩)
    have hfresh : ∀ w, (p + (z - roundUpSize n), w) ∉ s.inUse :=
      hH.notMem_used (p := p + (z - roundUpSize n)) (by simp only; omega) (by simp only; omega)
    simp only [SortedMap.set_erase] at hI
    refine Or.inl ⟨_, _, by omega, he, hI, ?_⟩
    exact ⟨rfl, rfl, hkeep hfresh, hfresh, hown _⟩
  · exact Or.inr h

/-- The pool after a release that gives the first waiter the low end of the merged span. -/
def served (payloadSize : M → ℕ) (s : SrcDataPool M) (srcptr : ℕ) (a : Absorbed) (msg : M)
    (rest : List M) : SrcDataPool M :=
  { s with
    pendingAllocations := rest
    inUse := (s.inUse.erase srcptr).set a.srcptr (roundUpSize (payloadSize msg))
    freeList := if roundUpSize (payloadSize msg) < a.size then
        a.freeList.set (a.srcptr + roundUpSize (payloadSize msg)) (a.size - roundUpSize (payloadSize msg))
      else a.freeList }

/-- The loop over the remaining waiters serves nobody: `alloc_srcptr` sees the queue nonempty. -/
theorem servePending_eq {payloadSize : M → ℕ} (hq : ∀ m ∈ s.pendingAllocations,
    payloadSize m ≤ s.totalSize) (fuel : ℕ) (satisfied : List (M × ℕ)) :
    servePending payloadSize fuel s satisfied = some (s, satisfied) := by
  cases fuel with
  | zero => rfl
  | succ fuel =>
    unfold servePending
    cases hp : s.pendingAllocations with
    | nil => rfl
    | cons msg rest =>
      have hm := hq msg (by rw [hp]; exact List.mem_cons_self)
      dsimp only
      rw [allocSrcptr_of_pending hm (by rw [hp]; exact List.cons_ne_nil _ _)]
      rfl

/-- Everything `release_srcptr` of a pointer in use can do: the merged span goes to the first waiter, or
it goes to the free list because nobody waits or the first waiter needs more. -/
theorem releaseSrcptr_cases {payloadSize : M → ℕ} (hs : Inv base s)
    (hq : ∀ m ∈ s.pendingAllocations, payloadSize m ≤ s.totalSize) {p n : ℕ} (h : (p, n) ∈ s.inUse) :
    (∃ msg rest, s.pendingAllocations = msg :: rest ∧ payloadSize msg ≤ (absorb s.freeList p n).size ∧
      s.releaseSrcptr payloadSize p = some (served payloadSize s p (absorb s.freeList p n) msg rest,
        [(msg, (absorb s.freeList p n).srcptr)])) ∨
    ((∀ msg rest, s.pendingAllocations = msg :: rest →
        (absorb s.freeList p n).size < payloadSize msg) ∧
      s.releaseSrcptr payloadSize p = some ({ s with
        inUse := s.inUse.erase p
        freeList := (absorb s.freeList p n).freeList.set (absorb s.freeList p n).srcptr
          (absorb s.freeList p n).size }, [])) := by
  have hfree : s.freeList.find p = none := by
    rw [SortedMap.find_eq_none]
    exact fun w hw => hs.toParts.notMem_inUse hw n h
  unfold releaseSrcptr
  simp only [SortedMap.find_eq_some.mpr h, Option.bind_eq_bind, Option.bind_some, hfree,
    Option.isSome_none, Bool.false_eq_true, if_false]
  cases hp : s.pendingAllocations with
  | nil =>
    refine Or.inr ⟨fun msg rest h => absurd h (by simp), ?_⟩
    rfl
  | cons msg rest =>
    by_cases hle : payloadSize msg ≤ (absorb s.freeList p n).size
    · refine Or.inl ⟨msg, rest, rfl, hle, ?_⟩
      dsimp only
      rw [if_pos hle]
      refine servePending_eq (fun m hm => ?_) _ _
      exact hq m (by rw [hp]; exact List.mem_cons_of_mem _ hm)
    · refine Or.inr ⟨?_, ?_⟩
      · rintro m r hmr
        obtain ⟨rfl, -⟩ := List.cons_eq_cons.mp hmr
        omega
      · dsimp only
        rw [if_neg hle]

/-- Both outcomes of a release keep the partition. -/
theorem Inv.served {payloadSize : M → ℕ} (hs : Inv base s) {p n : ℕ} (h : (p, n) ∈ s.inUse) {msg : M}
    (rest : List M) (h0 : 0 < payloadSize msg) (hle : payloadSize msg ≤ (absorb s.freeList p n).size) :
    Inv base (SrcDataPool.served payloadSize s p (absorb s.freeList p n) msg rest) := by
  have hH := hs.hole_of_release h
  have hb := hH.block
  have hd := dvd_roundUpSize (payloadSize msg)
  have ha := hb.aligned
  have hw := hb.within
  have hr : roundUpSize (payloadSize msg) ≤ (absorb s.freeList p n).size :=
    (roundUpSize_le_iff ha.2).mpr hle
  have hr0 : 0 < roundUpSize (payloadSize msg) := lt_of_lt_of_le h0 (le_roundUpSize _)
  unfold SrcDataPool.served
  simp only at ha hw
  by_cases hlt : roundUpSize (payloadSize msg) < (absorb s.freeList p n).size
  · rw [if_pos hlt]
    have hI := hH.fill_both
      (u := ((absorb s.freeList p n).srcptr, roundUpSize (payloadSize msg)))
      (f := ((absorb s.freeList p n).srcptr + roundUpSize (payloadSize msg),
        (absorb s.freeList p n).size - roundUpSize (payloadSize msg)))
      ⟨hr0, ⟨ha.1, hd⟩, hw.1, by simp only; omega⟩
      ⟨by simp only; omega, ⟨by simp only; omega, by simp only; omega⟩, by simp only; omega,
        by simp only; omega⟩
      (by simp only; omega) (Or.inl ⟨rfl, rfl⟩)
    exact ⟨⟨hI.free, hI.used, hI.gap, hI.sep, hI.apart⟩, hI.sum⟩
  · have he : roundUpSize (payloadSize msg) = (absorb s.freeList p n).size := by omega
    rw [if_neg hlt, he]
    have hI := hH.fill_used
    exact ⟨⟨hI.free, hI.used, hI.gap, hI.sep, hI.apart⟩, hI.sum⟩

/-- A pointer still in use is not touched by the release of another one. -/
theorem Inv.mem_served {payloadSize : M → ℕ} (hs : Inv base s) {p n : ℕ} (h : (p, n) ∈ s.inUse) {msg : M}
    {rest : List M} {x : Span} (hx : x ∈ s.inUse) (hne : x.1 ≠ p) :
    x ∈ (SrcDataPool.served payloadSize s p (absorb s.freeList p n) msg rest).inUse := by
  have hH := hs.hole_of_release h
  have hpos := hH.block.pos
  have hx' : x ∈ s.inUse.erase p := SortedMap.mem_erase.mpr ⟨hx, hne⟩
  refine SortedMap.mem_set.mpr (Or.inr ⟨hx', ?_⟩)
  intro heq
  exact hH.notMem_used (p := x.1) heq.ge (by simp only at hpos ⊢; omega) x.2 hx'

end Realm.SrcDataPool

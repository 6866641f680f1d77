import Mathlib.Data.Set.Basic
import Realm.Lib.Span

/-!
# Realm.Lib.Gap — the gaps that a set leaves in an initial segment

`IsGap U N x`: the span `x` is a maximal part of `[0, N)` without points of `U`.

* `IsGap.eq_of_mem`, `exists_isGap`: every point outside `U` lies in exactly one gap.
* `isGap_take`: the gaps after the upper part of a gap has been added to `U`.
* `isGap_release`: the gaps after a span has been removed from `U`; the gaps next to it grow together.
-/

namespace Lib

open Lib.Span

structure IsGap (U : Set ℕ) (N : ℕ) (x : Span) : Prop where
  pos : 0 < x.2
  le : x.1 + x.2 ≤ N
  free : ∀ a, Mem a x → a ∉ U
  left : x.1 = 0 ∨ x.1 - 1 ∈ U
  right : x.1 + x.2 = N ∨ x.1 + x.2 ∈ U

variable {U : Set ℕ} {N : ℕ} {x y : Span} {a : ℕ}

namespace IsGap

theorem start_mem (h : IsGap U N x) : Mem x.1 x := ⟨le_rfl, by have := h.pos; omega⟩

theorem start_notMem (h : IsGap U N x) : x.1 ∉ U := h.free _ h.start_mem

theorem last_notMem (h : IsGap U N x) : x.1 + x.2 - 1 ∉ U :=
  h.free _ ⟨by have := h.pos; omega, by have := h.pos; omega⟩

/-- A gap that reaches a point of a span without points of `U` starts at the span or before. -/
theorem start_le (hx : IsGap U N x) (ha : Mem a x) {lo : ℕ}
    (hfree : ∀ b, lo ≤ b → b < a → b ∉ U) : x.1 ≤ lo := by
  by_contra hlt
  obtain ⟨h1, h2⟩ := ha
  rcases hx.left with h | h
  · omega
  · exact hfree _ (by omega) (by omega) h

theorem le_end (hx : IsGap U N x) (ha : Mem a x) {hi : ℕ} (hhi : hi ≤ N)
    (hfree : ∀ b, a < b → b < hi → b ∉ U) : hi ≤ x.1 + x.2 := by
  by_contra hlt
  obtain ⟨h1, h2⟩ := ha
  rcases hx.right with h | h
  · omega
  · exact hfree _ (by omega) (by omega) h

/-- Two gaps with a common point are the same. -/
theorem eq_of_mem (hx : IsGap U N x) (hy : IsGap U N y) (hax : Mem a x) (hay : Mem a y) : x = y := by
  have h1 : x.1 ≤ y.1 := hx.start_le hax fun b hb hlt => hy.free b ⟨hb, hlt.trans hay.2⟩
  have h2 : y.1 ≤ x.1 := hy.start_le hay fun b hb hlt => hx.free b ⟨hb, hlt.trans hax.2⟩
  have h3 : y.1 + y.2 ≤ x.1 + x.2 :=
    hx.le_end hax hy.le fun b hlt hb => hy.free b ⟨hay.1.trans hlt.le, hb⟩
  have h4 : x.1 + x.2 ≤ y.1 + y.2 :=
    hy.le_end hay hx.le fun b hlt hb => hx.free b ⟨hax.1.trans hlt.le, hb⟩
  ext <;> omega

theorem eq_of_fst_eq (hx : IsGap U N x) (hy : IsGap U N y) (h : x.1 = y.1) : x = y :=
  hx.eq_of_mem hy hx.start_mem (h ▸ hy.start_mem)

end IsGap

/-! ## Every free point has a gap -/

theorem exists_left_end (U : Set ℕ) (a : ℕ) (ha : a ∉ U) :
    ∃ lo ≤ a, (lo = 0 ∨ lo - 1 ∈ U) ∧ ∀ b, lo ≤ b → b ≤ a → b ∉ U := by
  induction a with
  | zero => exact ⟨0, le_rfl, .inl rfl, fun b _ hb => by rwa [Nat.le_zero.mp hb]⟩
  | succ a ih =>
    by_cases hU : a ∈ U
    · refine ⟨a + 1, le_rfl, .inr hU, fun b h1 h2 => ?_⟩
      rwa [le_antisymm h2 h1]
    · obtain ⟨lo, hle, hleft, hfree⟩ := ih hU
      refine ⟨lo, by omega, hleft, fun b h1 h2 => ?_⟩
      rcases Nat.lt_or_ge a b with h | h
      · rwa [show b = a + 1 by omega]
      · exact hfree b h1 h

theorem exists_right_end (U : Set ℕ) {N a : ℕ} (haN : a < N) (ha : a ∉ U) :
    ∃ hi, a < hi ∧ hi ≤ N ∧ (hi = N ∨ hi ∈ U) ∧ ∀ b, a ≤ b → b < hi → b ∉ U := by
  obtain ⟨k, rfl⟩ : ∃ k, N = a + 1 + k := ⟨N - (a + 1), by omega⟩
  clear haN
  induction k generalizing a with
  | zero => exact ⟨a + 1, by omega, by omega, .inl rfl, fun b h1 h2 => by rwa [show b = a by omega]⟩
  | succ k ih =>
    by_cases hU : a + 1 ∈ U
    · exact ⟨a + 1, by omega, by omega, .inr hU, fun b h1 h2 => by rwa [show b = a by omega]⟩
    · obtain ⟨hi, hlt, hle, hright, hfree⟩ := ih hU
      refine ⟨hi, by omega, by omega, ?_, fun b h1 h2 => ?_⟩
      · rwa [show a + 1 + (k + 1) = a + 1 + 1 + k by omega]
      · rcases Nat.lt_or_ge a b with h | h
        · exact hfree b h h2
        · rwa [show b = a by omega]

theorem exists_isGap (haN : a < N) (ha : a ∉ U) : ∃ x, IsGap U N x ∧ Mem a x := by
  obtain ⟨lo, hlo, hleft, hfree⟩ := exists_left_end U a ha
  obtain ⟨hi, hhi, hN, hright, hfree'⟩ := exists_right_end U haN ha
  have hend : lo + (hi - lo) = hi := by omega
  refine ⟨(lo, hi - lo), ⟨?_, ?_, ?_, hleft, ?_⟩, ⟨hlo, ?_⟩⟩
  · show 0 < hi - lo
    omega
  · show lo + (hi - lo) ≤ N
    omega
  · rintro b ⟨h1, h2⟩
    replace h2 : b < hi := by simpa [hend] using h2
    rcases Nat.le_total b a with h | h
    · exact hfree b h1 h
    · exact hfree' b h h2
  · show lo + (hi - lo) = N ∨ lo + (hi - lo) ∈ U
    rwa [hend]
  · show a < lo + (hi - lo)
    omega

/-! ## Adding and removing spans -/

/-- Only the points of a span and its two neighbours matter. -/
theorem isGap_congr {U' : Set ℕ} (h : ∀ a, y.1 ≤ a + 1 → a ≤ y.1 + y.2 → (a ∈ U ↔ a ∈ U')) :
    IsGap U N y → IsGap U' N y := by
  intro hy
  have hpos := hy.pos
  refine ⟨hpos, hy.le, fun a ha => ?_, ?_, ?_⟩
  · rw [← h a (by have := ha.1; omega) ha.2.le]
    exact hy.free a ha
  · refine hy.left.imp_right fun hl => ?_
    rcases Nat.eq_zero_or_pos y.1 with h0 | h0
    · rw [h0, ← h _ (by omega) (by omega)]
      rwa [h0] at hl
    · rwa [← h _ (by omega) (by omega)]
  · exact hy.right.imp_right fun hr => (h _ (by omega) le_rfl).mp hr

/-- A span without points of `U` that does not meet a gap is not even next to it. -/
theorem IsGap.apart (hx : IsGap U N x) (hpos : 0 < y.2) (hle : y.1 + y.2 ≤ N)
    (hfree : ∀ a, Mem a y → a ∉ U) (hdisj : ∀ a, Mem a x → ¬Mem a y) (h1 : y.1 ≤ a + 1)
    (h2 : a ≤ y.1 + y.2) : ¬Mem a x := by
  intro ha
  have hay := hdisj a ha
  rcases Nat.lt_or_ge a y.1 with hlt | hge
  · -- `a` is the point before `y`, so `x` ends where `y` starts
    have hstart : Mem y.1 y := ⟨le_rfl, by omega⟩
    have hend : x.1 + x.2 = y.1 := by
      by_contra hne
      exact hdisj y.1 ⟨by have := ha.1; omega, by have := ha.2; omega⟩ hstart
    rcases hx.right with h | h
    · omega
    · exact hfree y.1 hstart (hend ▸ h)
  · -- `a` is the point behind `y`, so `x` starts where `y` ends
    have heq : a = y.1 + y.2 := by
      by_contra hne
      exact hay ⟨hge, by omega⟩
    have hlast : Mem (a - 1) y := ⟨by omega, by omega⟩
    have hstart : x.1 = a := by
      by_contra hne
      exact hdisj (a - 1) ⟨by have := ha.1; omega, by have := ha.2; omega⟩ hlast
    rcases hx.left with h | h
    · omega
    · exact hfree (a - 1) hlast (hstart ▸ h)

/-- **Taking the upper part** `[o, x.1 + x.2)` of the gap `x`: what is left of `x` is a gap, the others stay. -/
theorem isGap_take (hx : IsGap U N x) {o : ℕ} (hlo : x.1 ≤ o) (hhi : o < x.1 + x.2) :
    IsGap (U ∪ {a | o ≤ a ∧ a < x.1 + x.2}) N y ↔
      (IsGap U N y ∧ y ≠ x) ∨ (x.1 < o ∧ y = (x.1, o - x.1)) := by
  have hsub : ∀ a, Mem a (x.1, o - x.1) → a < o := by
    rintro a ⟨h1, h2⟩
    simp only at h1 h2
    omega
  have hrest : x.1 < o → IsGap (U ∪ {a | o ≤ a ∧ a < x.1 + x.2}) N (x.1, o - x.1) := by
    intro h
    refine ⟨by simp only; omega, by have := hx.le; simp only; omega, ?_, ?_, ?_⟩
    · rintro a ha (haU | ⟨hao, -⟩)
      · exact hx.free a ⟨ha.1, by have := hsub a ha; omega⟩ haU
      · exact absurd (hsub a ha) (by omega)
    · exact hx.left.imp_right .inl
    · refine .inr (.inr ⟨?_, ?_⟩) <;> simp only <;> omega
  constructor
  · intro hy
    by_cases hcommon : ∃ a, Mem a x ∧ Mem a y
    · obtain ⟨a, hax, hay⟩ := hcommon
      have hao : a < o := by
        by_contra hge
        exact hy.free a hay (.inr ⟨by omega, hax.2⟩)
      have hxo : x.1 < o := lt_of_le_of_lt hax.1 hao
      exact .inr ⟨hxo, hy.eq_of_mem (hrest hxo) hay ⟨hax.1, by simp only; omega⟩⟩
    · have hdisj : ∀ a, Mem a x → ¬Mem a y := fun a hax hay => hcommon ⟨a, hax, hay⟩
      refine .inl ⟨isGap_congr (fun a h1 h2 => ?_) hy, ?_⟩
      · have hnot := hx.apart hy.pos hy.le (fun a ha haU => hy.free a ha (.inl haU)) hdisj h1 h2
        exact or_iff_left fun h => hnot ⟨hlo.trans h.1, h.2⟩
      · rintro rfl
        exact hdisj y.1 hx.start_mem hx.start_mem
  · rintro (⟨hy, hne⟩ | ⟨hxo, rfl⟩)
    · have hdisj : ∀ a, Mem a x → ¬Mem a y := fun a hax hay => hne (hy.eq_of_mem hx hay hax)
      refine isGap_congr (fun a h1 h2 => ?_) hy
      have hnot := hx.apart hy.pos hy.le hy.free hdisj h1 h2
      exact (or_iff_left fun h => hnot ⟨hlo.trans h.1, h.2⟩).symm
    · exact hrest hxo

/-! ## Releasing a span -/

section Release

variable {s z : Span}

/-- A span that ends where `s` starts, or starts where `s` ends. -/
def Adjacent (s y : Span) : Prop := y.1 + y.2 = s.1 ∨ y.1 = s.1 + s.2

/-- The gap around a released span, from `lo` to `hi`. -/
theorem isGap_merged {lo hi : ℕ} (hs : 0 < s.2) (hlo : lo ≤ s.1) (hhi : s.1 + s.2 ≤ hi) (hN : hi ≤ N)
    (hleft : lo = 0 ∨ lo - 1 ∈ U) (hright : hi = N ∨ hi ∈ U)
    (hfree : ∀ a, lo ≤ a → a < s.1 → a ∉ U) (hfree' : ∀ a, s.1 + s.2 ≤ a → a < hi → a ∉ U) :
    IsGap (U \ {a | Mem a s}) N (lo, hi - lo) := by
  have hend : lo + (hi - lo) = hi := by omega
  refine ⟨by simp only; omega, by simp only; omega, ?_, ?_, ?_⟩
  · rintro a ⟨h1, h2⟩ ⟨haU, hnot⟩
    simp only [hend] at h1 h2
    rcases Nat.lt_or_ge a s.1 with h | h
    · exact hfree a h1 h haU
    · exact hfree' a (by by_contra hlt; exact hnot ⟨h, by omega⟩) h2 haU
  · rcases Nat.eq_zero_or_pos lo with h0 | h0
    · exact .inl h0
    · refine .inr ⟨hleft.resolve_left h0.ne', fun h => ?_⟩
      have := h.1
      simp only at this
      omega
  · simp only [hend]
    exact hright.imp_right fun h => ⟨h, fun hm => by have := hm.2; omega⟩

/-- **Releasing a span** `s` of `U`: the gap `z` around it replaces the gaps next to it, the others stay. -/
theorem isGap_release (hs : 0 < s.2) (hsub : ∀ a, Mem a s → a ∈ U) (hN : s.1 + s.2 ≤ N)
    (hz : IsGap (U \ {a | Mem a s}) N z) (hsz : Mem s.1 z) :
    IsGap (U \ {a | Mem a s}) N y ↔ y = z ∨ (IsGap U N y ∧ ¬Adjacent s y) := by
  have hcover : ∀ a, Mem a s → Mem a z := by
    intro a ha
    have hend : s.1 + s.2 ≤ z.1 + z.2 :=
      hz.le_end hsz hN fun b h1 h2 hb => hb.2 ⟨h1.le, h2⟩
    exact ⟨hsz.1.trans ha.1, ha.2.trans_le hend⟩
  have hfirst : Mem s.1 s := ⟨le_rfl, by omega⟩
  have hlast : Mem (s.1 + s.2 - 1) s := ⟨by omega, by omega⟩
  constructor
  · intro hy
    by_cases hcommon : ∃ a, Mem a z ∧ Mem a y
    · obtain ⟨a, haz, hay⟩ := hcommon
      exact .inl (hy.eq_of_mem hz hay haz)
    · have hdisj : ∀ a, Mem a z → ¬Mem a y := fun a haz hay => hcommon ⟨a, haz, hay⟩
      have hnot : ∀ a, y.1 ≤ a + 1 → a ≤ y.1 + y.2 → ¬Mem a s := fun a h1 h2 ha =>
        hz.apart hy.pos hy.le hy.free hdisj h1 h2 (hcover a ha)
      refine .inr ⟨isGap_congr (fun a h1 h2 => and_iff_left (hnot a h1 h2)) hy, ?_⟩
      rintro (h | h)
      · exact hnot s.1 (by omega) h.ge hfirst
      · exact hnot _ (by omega) (by omega) hlast
  · rintro (rfl | ⟨hy, hadj⟩)
    · exact hz
    · refine isGap_congr (fun a h1 h2 => (and_iff_left fun ha => ?_).symm) hy
      -- a point of `s` at the border of `y`: the points of `y` are not in `s`, so `y` is next to `s`
      have hout : ∀ b, Mem b y → ¬Mem b s := fun b hb hbs => hy.free b hb (hsub b hbs)
      have hpos := hy.pos
      obtain ⟨ha1, ha2⟩ : Mem a s := ha
      have hay := mt (hout a) (not_not_intro ⟨ha1, ha2⟩)
      rcases Nat.lt_or_ge a y.1 with h | h
      · apply hadj
        right
        by_contra hne
        exact hout y.1 hy.start_mem ⟨by omega, by omega⟩
      · have heq : a = y.1 + y.2 := by
          by_contra hne
          exact hay ⟨h, by omega⟩
        apply hadj
        left
        by_contra hne
        exact hout (a - 1) ⟨by omega, by omega⟩ ⟨by omega, by omega⟩

end Release

end Lib

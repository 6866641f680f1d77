import Realm.SrcDataPool.Runs

/-!
# Realm.SrcDataPool.BestFit — which span `alloc_srcptr` hands out

One walk over the free list stops at the first span of exactly the right size and meanwhile keeps the smallest of
those that are too large.

* `Cut`: the pool before and after a span was cut.
* `alloc_best_fit`: in every reachable state a smallest span that is large enough is cut, and if there is none the
  pool stays as it is.
-/

namespace Realm.SrcDataPool

open Lib

variable {M : Type} {payloadSize : M → ℕ} {base size : ℕ} {s : SrcDataPool M}

/-- The high end of the free span `x`, or all of it, is in use: `r` bytes at `srcptr`.  The other spans are as they
were. -/
structure Cut (s s' : SrcDataPool M) (r : ℕ) (x : Span) (srcptr : ℕ) : Prop where
  mem : x ∈ s.freeList
  fits : r ≤ x.2
  best : ∀ y ∈ s.freeList, r ≤ y.2 → x.2 ≤ y.2
  end_eq : srcptr + r = x.1 + x.2
  free : ∀ y, y ∈ s'.freeList ↔ y ∈ s.freeList ∧ y ≠ x ∨ r < x.2 ∧ y = (x.1, x.2 - r)
  used : ∀ y, y ∈ s'.inUse ↔ y ∈ s.inUse ∨ y = (srcptr, r)
  fresh : ∀ w, (srcptr, w) ∉ s.inUse
  pending : s'.pendingAllocations = s.pendingAllocations
  totalSize : s'.totalSize = s.totalSize

theorem mem_set_fresh {m : SpanMap} {p r : ℕ} (hfresh : ∀ w, (p, w) ∉ m) (y : Span) :
    y ∈ m.set p r ↔ y ∈ m ∨ y = (p, r) := by
  rw [SortedMap.mem_set, or_comm]
  refine or_congr_left (and_iff_left_of_imp fun hy heq => ?_)
  exact hfresh y.2 (heq ▸ hy)

theorem ne_key_iff {m : SpanMap} {x y : Span} (hx : x ∈ m) (hy : y ∈ m) : y.1 ≠ x.1 ↔ y ≠ x := by
  refine not_congr ⟨fun heq => SortedMap.eq_of_mem hy hx heq, ?_⟩
  rintro rfl
  rfl

/-- **`alloc_srcptr`** on an empty queue -/
theorem Inv.allocSrcptr_cut (hs : Inv base s) (hb : 0 < base) {n : ℕ} (h0 : 0 < n) (hn : n ≤ s.totalSize)
    (hp : s.pendingAllocations = []) :
    (∃ x p s', p ≠ 0 ∧ s.allocSrcptr n = some (p, s') ∧ Cut s s' (roundUpSize n) x p) ∨
      (∀ x ∈ s.freeList, x.2 < roundUpSize n) ∧ s.allocSrcptr n = some (0, s) := by
  have hr : 0 < roundUpSize n := h0.trans_le (le_roundUpSize n)
  rcases allocSrcptr_cases hs hb hn hp with ⟨p, hm, he⟩ | ⟨p, z, hm, hlt, hbest, he⟩ | hnone
  · have hfresh := hs.toParts.notMem_inUse hm
    have hp0 : p ≠ 0 := by
      have := (hs.free _ hm).within
      omega
    refine .inl ⟨(p, roundUpSize n), p, _, hp0, he, hm, le_rfl, fun _ _ hy => hy, rfl, fun y => ?_,
      mem_set_fresh hfresh, hfresh, rfl, rfl⟩
    rw [SortedMap.mem_erase]
    constructor
    · rintro ⟨hy, hkey⟩
      exact .inl ⟨hy, (ne_key_iff hm hy).mp hkey⟩
    · rintro (⟨hy, hyx⟩ | ⟨hlt, -⟩)
      · exact ⟨hy, (ne_key_iff hm hy).mpr hyx⟩
      · exact absurd hlt (lt_irrefl _)
  · have hfresh : ∀ w, (p + (z - roundUpSize n), w) ∉ s.inUse :=
      (hs.hole_of_free hm).notMem_used (p := p + (z - roundUpSize n)) (by simp only; omega) (by simp only; omega)
    refine .inl ⟨(p, z), _, _, by omega, he, hm, hlt.le, hbest, by simp only; omega, fun y => ?_,
      mem_set_fresh hfresh, hfresh, rfl, rfl⟩
    rw [SortedMap.mem_set, or_comm]
    refine or_congr ⟨?_, ?_⟩ ⟨fun hy => ⟨hlt, hy⟩, And.right⟩
    · rintro ⟨hy, hkey⟩
      exact ⟨hy, (ne_key_iff hm hy).mp hkey⟩
    · rintro ⟨hy, hyx⟩
      exact ⟨hy, (ne_key_iff hm hy).mpr hyx⟩
  · exact .inr hnone

/-- **Best fit**: in every reachable state a request is cut from a smallest free span that is large enough for it.  It
fails if there is none, or if others are waiting, and then changes nothing. -/
theorem alloc_best_fit (hb : base ≠ 0) (hb64 : 64 ∣ base) (hs : 0 < size) (hs64 : 64 ∣ size) {ops : List (Op M)}
    (hops : Guarded (Trace.step payloadSize) (Trace.Allowed payloadSize) (.init base size) ops) {t : Trace M}
    (hrun : run (Trace.step payloadSize) (.init base size) ops = some t) {n : ℕ} (h0 : 1 ≤ n) (hn : n ≤ size) :
    (t.pool.pendingAllocations ≠ [] → t.pool.allocSrcptr n = some (0, t.pool)) ∧
      (t.pool.pendingAllocations = [] → ∃ p s', t.pool.allocSrcptr n = some (p, s') ∧
        (p = 0 ↔ ∀ x ∈ t.pool.freeList, x.2 < roundUpSize n) ∧ (p = 0 → s' = t.pool) ∧
        (p ≠ 0 → ∃ x, Cut t.pool s' (roundUpSize n) x p)) := by
  have hb0 := Nat.pos_of_ne_zero hb
  obtain ⟨t', hrun', hI⟩ := (Trace.Inv.init hs hb64 hs64).run hb0 hops
  obtain rfl : t' = t := Option.some.inj (hrun'.symm.trans hrun)
  have hn' : n ≤ t'.pool.totalSize := hI.totalSize.symm ▸ hn
  refine ⟨fun hp => allocSrcptr_of_pending hn' hp, fun hp => ?_⟩
  rcases hI.pool.allocSrcptr_cut hb0 h0 hn' hp with ⟨x, p, s', hp0, halloc, hcut⟩ | ⟨hsmall, halloc⟩
  · refine ⟨p, s', halloc, ?_, fun hzero => absurd hzero hp0, fun _ => ⟨x, hcut⟩⟩
    refine iff_of_false hp0 fun hsmall => ?_
    exact absurd hcut.fits (Nat.not_le.mpr (hsmall x hcut.mem))
  · exact ⟨0, t'.pool, halloc, iff_of_true rfl hsmall, fun _ => rfl, fun hne => absurd rfl hne⟩

/-- Between a free span of `64` bytes and one of `256` bytes, `100` bytes come from the second. -/
theorem alloc_best_fit_hundred : ∃ t : Trace ℕ,
    run (Trace.step id) (.init 64 512) [.reserve 64, .reserve 128, .reserve 64, .release 512] = some t ∧
      ∃ p s', t.pool.allocSrcptr 100 = some (p, s') ∧ ∃ x, Cut t.pool s' 128 x p := by
  have hops : Guarded (Trace.step id) (Trace.Allowed id) (.init 64 512)
      [.reserve 64, .reserve 128, .reserve 64, .release 512] := by
    refine guarded_cons rfl ⟨by decide, by decide⟩ ?_
    refine guarded_cons rfl ⟨by decide, by decide⟩ ?_
    refine guarded_cons rfl ⟨by decide, by decide⟩ ?_
    exact guarded_cons rfl ⟨64, SortedMap.find_eq_some.mp rfl⟩ trivial
  obtain ⟨t, hrun, hp, hfree⟩ : ∃ t : Trace ℕ,
      run (Trace.step id) (.init 64 512) [.reserve 64, .reserve 128, .reserve 64, .release 512] = some t ∧
        t.pool.pendingAllocations = [] ∧ (64, 256) ∈ t.pool.freeList :=
    ⟨_, rfl, rfl, SortedMap.find_eq_some.mp rfl⟩
  obtain ⟨p, s', halloc, hzero, -, hcut⟩ := (alloc_best_fit (by decide) (by decide) (by decide) (by decide) hops hrun
    (by decide : 1 ≤ 100) (by decide)).2 hp
  refine ⟨t, hrun, p, s', halloc, hcut fun h0 => ?_⟩
  exact absurd (hzero.mp h0 _ hfree) (by decide)

end Realm.SrcDataPool

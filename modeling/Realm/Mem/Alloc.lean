import Realm.Lib.Gap
import Realm.Lib.Run
import Realm.Lib.SortedMap

/-!
# Realm.Mem.Alloc — the byte allocator of a memory (`MemoryImpl` in `templates/mem_impl.cc`)

`free_blocks` maps the offset of every free block to its size.  `alloc_bytes_local` cuts a block off the end of
the highest free block that is large enough, `free_bytes_local` gives one back and joins it with its neighbours.

* `allocBytesLocal`, `freeBytesLocal`: the two functions.  Offsets stay far below `2 ^ 63`, so that only the
  `size_t` counter `usage` is reduced.
* `step`: any sequence of allocations and of releases of what is allocated.
* `Inv`: `free_blocks` lists the gaps between the live blocks; kept by `Inv.alloc` and `Inv.free`.
* `allocator_canonical`: after any run, `free_blocks` depends on the live blocks only.
-/

namespace Realm

open Lib

/-! ## The allocator -/

structure MemoryImpl where
  size : ℕ
  alignment : ℕ
  freeBlocks : SortedMap ℕ ℕ
  usage : ℕ
  peakUsage : ℕ
  peakFootprint : ℕ

namespace MemoryImpl

def ZERO_SIZE_INSTANCE_OFFSET : ℕ := 2 ^ 50

/-- The padding of `alloc_bytes_local` and `free_bytes_local`. -/
def pad (alignment size : ℕ) : ℕ :=
  if alignment > 0 then
    let leftover := size % alignment
    if leftover > 0 then size + (alignment - leftover) else size
  else size

/-- `usage += size` and the two peaks, for a block at `retval`. -/
def recordUsage (mi : MemoryImpl) (size retval : ℕ) : MemoryImpl :=
  let usage := (mi.usage + size) % 2 ^ 64
  let footprint := mi.size - retval
  { mi with
    usage := usage
    peakUsage := if usage > mi.peakUsage then usage else mi.peakUsage
    peakFootprint := if footprint > mi.peakFootprint then footprint else mi.peakFootprint }

/-- The scan of `free_blocks`; the entries are listed from the last one to the first. -/
def allocLoop (mi : MemoryImpl) (size : ℕ) : List (ℕ × ℕ) → ℤ × MemoryImpl
  | [] => (-1, mi)
  | it :: rest =>
    if it.2 = size then
      (it.1, { mi with freeBlocks := mi.freeBlocks.erase it.1 }.recordUsage size it.1)
    else if it.2 > size then
      let leftover := it.2 - size
      let retval := it.1 + leftover
      (retval, { mi with freeBlocks := mi.freeBlocks.set it.1 leftover }.recordUsage size retval)
    else allocLoop mi size rest

def allocBytesLocal (mi : MemoryImpl) (size : ℕ) : ℤ × MemoryImpl :=
  if size = 0 then ((mi.size + ZERO_SIZE_INSTANCE_OFFSET : ℕ), mi)
  else mi.allocLoop (pad mi.alignment size) mi.freeBlocks.entries.reverse

/-- Eat the block `after` if it is adjacent; `none` is the failed assertion. -/
def eatAfter (blocks : SortedMap ℕ ℕ) (after : ℕ × ℕ) (offset size : ℕ) : Option (SortedMap ℕ ℕ × ℕ) :=
  if offset + size ≤ after.1 then
    if offset + size = after.1 then some (blocks.erase after.1, size + after.2) else some (blocks, size)
  else none

/-- Grow the block `before` if it is adjacent, or add a new one. -/
def growBefore (blocks : SortedMap ℕ ℕ) (before : ℕ × ℕ) (offset size : ℕ) : Option (SortedMap ℕ ℕ) :=
  if before.1 + before.2 ≤ offset then
    if before.1 + before.2 = offset then some (blocks.set before.1 (before.2 + size))
    else some (blocks.set offset size)
  else none

/-- The new `free_blocks`: `after` is the lower bound of `offset`, `before` the block in front of it. -/
def mergeBlock (blocks : SortedMap ℕ ℕ) (offset size : ℕ) : Option (SortedMap ℕ ℕ) :=
  match (blocks.above offset).head?, (blocks.below offset).getLast? with
  | some after, none => do
    let (blocks, size) ← eatAfter blocks after offset size
    return blocks.set offset size
  | some after, some before => do
    let (blocks, size) ← eatAfter blocks after offset size
    growBefore blocks before offset size
  | none, some before => growBefore blocks before offset size
  | none, none => return blocks.set offset size

/-- `none` is a failed assertion. -/
def freeBytesLocal (mi : MemoryImpl) (offset size : ℕ) : Option MemoryImpl :=
  if size = 0 then
    if offset = mi.size + ZERO_SIZE_INSTANCE_OFFSET then some mi else none
  else
    let size := pad mi.alignment size
    (mergeBlock mi.freeBlocks offset size).map fun blocks =>
      { mi with freeBlocks := blocks, usage := (mi.usage + 2 ^ 64 - size) % 2 ^ 64 }

end MemoryImpl

namespace Alloc

open MemoryImpl Span

/-! ## Runs -/

/-- The allocator and the pairs of offset and requested size that are allocated. -/
structure State where
  impl : MemoryImpl
  live : List (ℕ × ℕ)

def State.init (size alignment : ℕ) : State := ⟨⟨size, alignment, .singleton 0 size, 0, 0, 0⟩, []⟩

inductive Event
  | alloc (size : ℕ)
  | free (offset size : ℕ)

def step (st : State) : Event → Option State
  | .alloc size =>
    if size ≤ st.impl.size then
      let (retval, impl) := allocBytesLocal st.impl size
      some ⟨impl, if retval = -1 then st.live else (retval.toNat, size) :: st.live⟩
    else none
  | .free offset size =>
    if (offset, size) ∈ st.live then
      (freeBytesLocal st.impl offset size).map fun impl => ⟨impl, st.live.erase (offset, size)⟩
    else none

/-! ## What the allocator has to do -/

/-- The blocks of the live allocations: a request of size zero has none. -/
def spans (alignment : ℕ) (live : List (ℕ × ℕ)) : List Span :=
  (live.filter (·.2 ≠ 0)).map fun p => (p.1, pad alignment p.2)

/-- The addresses that the live allocations cover. -/
def used (alignment : ℕ) (live : List (ℕ × ℕ)) : Set ℕ := {a | ∃ x ∈ spans alignment live, Mem a x}

/-- What a request of `size > 0` bytes does: it is served at the end of the highest free block that is large
enough, and refused without a change if there is none. -/
structure AllocSpec (mi : MemoryImpl) (size : ℕ) (retval : ℤ) (mi' : MemoryImpl) : Prop where
  refused : retval = -1 ↔ ∀ x ∈ mi.freeBlocks, x.2 < pad mi.alignment size
  unchanged : retval = -1 → mi'.freeBlocks = mi.freeBlocks ∧ mi'.usage = mi.usage
  served : retval ≠ -1 → ∃ x ∈ mi.freeBlocks, pad mi.alignment size ≤ x.2 ∧
    (∀ y ∈ mi.freeBlocks, x.1 < y.1 → y.2 < pad mi.alignment size) ∧
    retval = (x.1 + (x.2 - pad mi.alignment size) : ℕ) ∧ (mi.alignment : ℤ) ∣ retval

/-- `free_blocks` is in canonical form, `usage` is exact, and the next operation will do what it has to. -/
structure Correct (size alignment : ℕ) (st : State) : Prop where
  freeBlocks : ∀ x, x ∈ st.impl.freeBlocks ↔ IsGap (used alignment st.live) size x
  usage : st.impl.usage = (st.live.map fun p => pad alignment p.2).sum
  disjoint : (spans alignment st.live).Pairwise Disj
  alloc : ∀ s ≤ size, s ≠ 0 → AllocSpec st.impl s (allocBytesLocal st.impl s).1 (allocBytesLocal st.impl s).2
  free : ∀ p ∈ st.live, (freeBytesLocal st.impl p.1 p.2).isSome

/-! ## Releasing a block -/

section Merge

variable {U : Set ℕ} {N o k : ℕ} {blocks : SortedMap ℕ ℕ}

/-- What merging with the block behind has to give: `n` bytes from `o` on, in `blocks'`. -/
structure RightMerged (U : Set ℕ) (N o k : ℕ) (blocks blocks' : SortedMap ℕ ℕ) (n : ℕ) : Prop where
  le : k ≤ n
  bound : o + n ≤ N
  free : ∀ a, o + k ≤ a → a < o + n → a ∉ U
  right : o + n = N ∨ o + n ∈ U
  mem : ∀ x, x ∈ blocks' ↔ x ∈ blocks ∧ x.1 ≠ o + k

/-- What merging with the block in front has to give: a block that starts at `lo`. -/
structure LeftMerged (U : Set ℕ) (o n : ℕ) (blocks blocks' : SortedMap ℕ ℕ) (lo : ℕ) : Prop where
  le : lo ≤ o
  free : ∀ a, lo ≤ a → a < o → a ∉ U
  left : lo = 0 ∨ lo - 1 ∈ U
  mem : ∀ x, x ∈ blocks' ↔ x = (lo, o + n - lo) ∨ (x ∈ blocks ∧ x.1 + x.2 ≠ o)

variable (hgaps : ∀ x, x ∈ blocks ↔ IsGap U N x) (hk : 0 < k) (hN : o + k ≤ N) (hU : ∀ a, Mem a (o, k) → a ∈ U)

include hgaps hk hN hU

theorem rightMerged_self (h : ∀ x ∈ blocks, x.1 ≠ o + k) : RightMerged U N o k blocks blocks k where
  le := le_rfl
  bound := hN
  free := fun a h1 h2 => absurd h2 (by omega)
  right := by
    by_contra hc
    push Not at hc
    obtain ⟨x, hx, hmem⟩ := exists_isGap (lt_of_le_of_ne hN hc.1) hc.2
    refine h x ((hgaps x).mpr hx) (le_antisymm hmem.1 ?_)
    by_contra hlt
    exact hx.free (o + k - 1) ⟨by omega, by have := hmem.2; omega⟩ (hU _ ⟨by simp only; omega, by simp only; omega⟩)
  mem := fun x => (and_iff_left_of_imp (h x)).symm

theorem eatAfter_spec {after : ℕ × ℕ} (h : (blocks.above o).head? = some after) :
    ∃ blocks' n, eatAfter blocks after o k = some (blocks', n) ∧ RightMerged U N o k blocks blocks' n := by
  obtain ⟨hmem, hle, hleast⟩ := SortedMap.head?_above h
  have hgap := (hgaps after).mp hmem
  have hover : o + k ≤ after.1 := by
    by_contra hlt
    exact hgap.start_notMem (hU _ ⟨hle, by simp only; omega⟩)
  unfold eatAfter
  rw [if_pos hover]
  by_cases hadj : o + k = after.1
  · rw [if_pos hadj]
    refine ⟨_, _, rfl, ⟨by omega, ?_, ?_, ?_, ?_⟩⟩
    · rw [← Nat.add_assoc, hadj]
      exact hgap.le
    · intro a h1 h2
      exact hgap.free a ⟨by omega, by omega⟩
    · rw [← Nat.add_assoc, hadj]
      exact hgap.right
    · intro x
      rw [SortedMap.mem_erase, hadj]
  · rw [if_neg hadj]
    refine ⟨_, _, rfl, rightMerged_self hgaps hk hN hU fun x hx heq => hadj ?_⟩
    exact le_antisymm hover (heq ▸ hleast x hx (by omega))

variable {n : ℕ} {blocks₁ : SortedMap ℕ ℕ} (hright : RightMerged U N o k blocks blocks₁ n)

include hright

theorem leftMerged_self (h : ∀ x ∈ blocks, x.1 + x.2 ≠ o) :
    LeftMerged U o n blocks₁ (blocks₁.set o n) o where
  le := le_rfl
  free := fun a h1 h2 => absurd h2 (by omega)
  left := by
    by_contra hc
    push Not at hc
    obtain ⟨x, hx, hmem⟩ := exists_isGap (show o - 1 < N by omega) hc.2
    refine h x ((hgaps x).mpr hx) (le_antisymm ?_ (by have := hmem.2; omega))
    by_contra hlt
    exact hx.free o ⟨by have := hmem.1; omega, by omega⟩ (hU _ ⟨le_rfl, by simp only; omega⟩)
  mem := by
    intro x
    rw [SortedMap.mem_set, Nat.add_sub_cancel_left]
    refine or_congr_right (and_congr_right fun hx => ?_)
    have hold := ((hright.mem x).mp hx).1
    refine iff_of_true (fun heq => ?_) (h x hold)
    exact ((hgaps x).mp hold).start_notMem (heq ▸ hU _ ⟨le_rfl, by simp only; omega⟩)

theorem growBefore_spec {before : ℕ × ℕ} (h : (blocks.below o).getLast? = some before) :
    ∃ blocks' lo, growBefore blocks₁ before o n = some blocks' ∧ LeftMerged U o n blocks₁ blocks' lo := by
  obtain ⟨hmem, hlt, hgreatest⟩ := SortedMap.getLast?_below h
  have hgap := (hgaps before).mp hmem
  have hover : before.1 + before.2 ≤ o := by
    by_contra hgt
    exact hgap.free o ⟨hlt.le, by omega⟩ (hU _ ⟨le_rfl, by simp only; omega⟩)
  -- a block that reaches the last byte in front of `o` is `before`
  have hlast : ∀ x ∈ blocks, x.1 + x.2 = o → x = before := by
    intro x hx heq
    have hxgap := (hgaps x).mp hx
    have hpos := hxgap.pos
    have hle := hgreatest x hx (by omega)
    exact hxgap.eq_of_mem hgap ⟨hle, by omega⟩ hgap.start_mem
  unfold growBefore
  rw [if_pos hover]
  by_cases hadj : before.1 + before.2 = o
  · rw [if_pos hadj]
    refine ⟨_, before.1, rfl, ⟨hlt.le, fun a h1 h2 => hgap.free a ⟨h1, by omega⟩, hgap.left, fun x => ?_⟩⟩
    rw [SortedMap.mem_set, show before.2 + n = o + n - before.1 by omega]
    refine or_congr_right (and_congr_right fun hx => not_congr ?_)
    have hold := ((hright.mem x).mp hx).1
    constructor
    · intro heq
      rw [((hgaps x).mp hold).eq_of_fst_eq hgap heq, hadj]
    · intro heq
      rw [hlast x hold heq]
  · rw [if_neg hadj]
    exact ⟨_, o, rfl, leftMerged_self hgaps hk hN hU hright fun x hx heq => hadj (hlast x hx heq ▸ heq)⟩

omit hright

/-- Both merges together leave the gaps of what is still used. -/
theorem merged_gaps (hright : RightMerged U N o k blocks blocks₁ n) {blocks₂ : SortedMap ℕ ℕ} {lo : ℕ}
    (hleft : LeftMerged U o n blocks₁ blocks₂ lo) (x : ℕ × ℕ) :
    x ∈ blocks₂ ↔ IsGap (U \ {a | Mem a (o, k)}) N x := by
  have hlo := hleft.le
  have hn := hright.le
  have hz : IsGap (U \ {a | Mem a (o, k)}) N (lo, o + n - lo) :=
    isGap_merged (s := (o, k)) hk hlo (Nat.add_le_add_left hn o) hright.bound hleft.left hright.right hleft.free
      hright.free
  rw [isGap_release (s := (o, k)) hk hU hN hz ⟨hlo, by simp only; omega⟩, hleft.mem, hright.mem, ← hgaps,
    Adjacent, not_or, and_assoc, and_comm (a := x.1 ≠ o + k)]

theorem mergeBlock_spec :
    ∃ blocks', mergeBlock blocks o k = some blocks' ∧
      ∀ x, x ∈ blocks' ↔ IsGap (U \ {a | Mem a (o, k)}) N x := by
  unfold mergeBlock
  cases hafter : (blocks.above o).head? with
  | none =>
    have hright : RightMerged U N o k blocks blocks k :=
      rightMerged_self hgaps hk hN hU fun x hx heq => by
        have := SortedMap.head?_above_eq_none hafter hx
        omega
    cases hbefore : (blocks.below o).getLast? with
    | none =>
      have hleft := leftMerged_self hgaps hk hN hU hright fun x hx heq => by
        have := SortedMap.getLast?_below_eq_none hbefore hx
        have := ((hgaps x).mp hx).pos
        omega
      exact ⟨_, rfl, merged_gaps hgaps hk hN hU hright hleft⟩
    | some before =>
      obtain ⟨blocks', lo, hrun, hleft⟩ := growBefore_spec hgaps hk hN hU hright hbefore
      exact ⟨blocks', hrun, merged_gaps hgaps hk hN hU hright hleft⟩
  | some after =>
    obtain ⟨blocks₁, n, heat, hright⟩ := eatAfter_spec hgaps hk hN hU hafter
    cases hbefore : (blocks.below o).getLast? with
    | none =>
      have hleft := leftMerged_self hgaps hk hN hU hright fun x hx heq => by
        have := SortedMap.getLast?_below_eq_none hbefore hx
        have := ((hgaps x).mp hx).pos
        omega
      refine ⟨_, ?_, merged_gaps hgaps hk hN hU hright hleft⟩
      simp [heat]
    | some before =>
      obtain ⟨blocks', lo, hrun, hleft⟩ := growBefore_spec hgaps hk hN hU hright hbefore
      refine ⟨blocks', ?_, merged_gaps hgaps hk hN hU hright hleft⟩
      simp [heat, hrun]

end Merge

/-! ## Cutting off a block -/

/-- The memory after a block of `k` bytes was cut off the end of `x`. -/
def cutBlock (mi : MemoryImpl) (x : ℕ × ℕ) (k : ℕ) : MemoryImpl :=
  { mi with freeBlocks := if x.2 = k then mi.freeBlocks.erase x.1 else mi.freeBlocks.set x.1 (x.2 - k) }
    |>.recordUsage k (x.1 + (x.2 - k))

/-- Everything the scan can do: it stops at the first entry that is large enough. -/
theorem allocLoop_cases (mi : MemoryImpl) (k : ℕ) (es : List (ℕ × ℕ)) :
    ((∀ x ∈ es, x.2 < k) ∧ mi.allocLoop k es = (-1, mi)) ∨
    ∃ pre x post, es = pre ++ x :: post ∧ (∀ y ∈ pre, y.2 < k) ∧ k ≤ x.2 ∧
      mi.allocLoop k es = (((x.1 + (x.2 - k) : ℕ) : ℤ), cutBlock mi x k) := by
  induction es with
  | nil => exact .inl ⟨by simp, rfl⟩
  | cons e es ih =>
    rw [allocLoop]
    by_cases heq : e.2 = k
    · rw [if_pos heq]
      refine .inr ⟨[], e, es, rfl, by simp, heq.ge, ?_⟩
      rw [cutBlock, heq, if_pos rfl, Nat.sub_self, Nat.add_zero]
    · rw [if_neg heq]
      by_cases hgt : e.2 > k
      · rw [if_pos hgt]
        refine .inr ⟨[], e, es, rfl, by simp, hgt.le, ?_⟩
        rw [cutBlock, if_neg heq]
      · rw [if_neg hgt]
        have hlt : e.2 < k := by omega
        rcases ih with ⟨hall, hrun⟩ | ⟨pre, x, post, rfl, hpre, hx, hrun⟩
        · refine .inl ⟨fun y hy => ?_, hrun⟩
          rcases List.mem_cons.mp hy with rfl | hy
          · exact hlt
          · exact hall y hy
        · refine .inr ⟨e :: pre, x, post, rfl, fun y hy => ?_, hx, hrun⟩
          rcases List.mem_cons.mp hy with rfl | hy
          · exact hlt
          · exact hpre y hy

/-! ## Padding and blocks -/

section Blocks

variable {A s N : ℕ} {live live' : List (ℕ × ℕ)}

theorem pad_zero (A : ℕ) : pad A 0 = 0 := by
  unfold pad
  simp

theorem le_pad (A s : ℕ) : s ≤ pad A s := by
  unfold pad
  split
  · simp only
    split <;> omega
  · exact le_rfl

theorem pad_pos (A : ℕ) {s : ℕ} (hs : s ≠ 0) : 0 < pad A s := by
  have := le_pad A s
  omega

theorem dvd_pad (hA : 1 ≤ A) (s : ℕ) : A ∣ pad A s := by
  have hdiv := Nat.div_add_mod s A
  have hmod := Nat.mod_lt s hA
  unfold pad
  rw [if_pos (by omega)]
  simp only
  split
  · exact ⟨s / A + 1, by rw [Nat.mul_add]; omega⟩
  · exact Nat.dvd_of_mod_eq_zero (by omega)

theorem spans_cons_zero (A o : ℕ) (live : List (ℕ × ℕ)) : spans A ((o, 0) :: live) = spans A live := by
  simp [spans]

theorem spans_cons (A o : ℕ) (hs : s ≠ 0) (live : List (ℕ × ℕ)) :
    spans A ((o, s) :: live) = (o, pad A s) :: spans A live := by
  simp [spans, hs]

theorem spans_perm (h : live.Perm live') : (spans A live).Perm (spans A live') :=
  (h.filter _).map _

theorem pos_of_mem_spans {x : Span} (h : x ∈ spans A live) : 0 < x.2 := by
  obtain ⟨p, hp, rfl⟩ := List.mem_map.mp h
  have hne : p.2 ≠ 0 := by simpa using (List.mem_filter.mp hp).2
  have := le_pad A p.2
  show 0 < pad A p.2
  omega

theorem total_spans (A : ℕ) (live : List (ℕ × ℕ)) : total (spans A live) = (live.map fun p => pad A p.2).sum := by
  induction live with
  | nil => rfl
  | cons p live ih =>
    obtain ⟨o, s⟩ := p
    by_cases hs : s = 0
    · subst hs
      rw [spans_cons_zero, ih, List.map_cons, List.sum_cons, pad_zero, Nat.zero_add]
    · rw [spans_cons A o hs, total_cons, ih, List.map_cons, List.sum_cons]

theorem used_perm (h : live.Perm live') : used A live = used A live' := by
  ext a
  exact exists_congr fun x => and_congr_left fun _ => (spans_perm h).mem_iff

theorem used_cons (A o : ℕ) (hs : s ≠ 0) (live : List (ℕ × ℕ)) :
    used A ((o, s) :: live) = used A live ∪ {a | Mem a (o, pad A s)} := by
  ext a
  simp only [used, spans_cons A o hs, List.mem_cons, exists_eq_or_imp, Set.mem_ofPred_eq, Set.mem_union]
  exact or_comm

/-- Two spans without a common address. -/
theorem disj_of_not_mem {x y : Span} (hx : 0 < x.2) (hy : 0 < y.2) (h : ∀ a, Mem a x → ¬Mem a y) : Disj x y := by
  by_contra hc
  simp only [Disj, not_or] at hc
  rcases Nat.le_total x.1 y.1 with hle | hle
  · exact h y.1 ⟨hle, by omega⟩ ⟨le_rfl, by omega⟩
  · exact h x.1 ⟨le_rfl, by omega⟩ ⟨hle, by omega⟩

theorem not_mem_of_disj {x y : Span} (h : Disj x y) {a : ℕ} (hx : Mem a x) : ¬Mem a y := by
  rintro ⟨h1, h2⟩
  obtain ⟨h3, h4⟩ := hx
  rcases h with h | h <;> omega

end Blocks

/-! ## The invariant -/

/-- **Invariant.**  The live blocks are disjoint and aligned, and the free blocks are the gaps they leave. -/
structure Inv (size A : ℕ) (st : State) : Prop where
  size_eq : st.impl.size = size
  alignment_eq : st.impl.alignment = A
  gaps : ∀ x, x ∈ st.impl.freeBlocks ↔ IsGap (used A st.live) size x
  disj : (spans A st.live).Pairwise Disj
  inside : ∀ x ∈ spans A st.live, x.1 + x.2 ≤ size ∧ A ∣ x.1 ∧ A ∣ x.2
  usage : st.impl.usage = total (spans A st.live)
  zero : ∀ p ∈ st.live, p.2 = 0 → p.1 = size + ZERO_SIZE_INSTANCE_OFFSET

namespace Inv

variable {N A : ℕ} {st : State}

theorem init (hN : 0 < N) : Inv N A (.init N A) where
  size_eq := rfl
  alignment_eq := rfl
  gaps := by
    intro x
    show x ∈ SortedMap.singleton 0 N ↔ _
    have hempty : used A ([] : List (ℕ × ℕ)) = ∅ := by
      ext a
      simp [used, spans]
    have hgap : IsGap (used A []) N (0, N) :=
      ⟨hN, by simp, fun a _ => by simp [hempty], .inl rfl, .inl (by simp)⟩
    rw [SortedMap.mem_singleton]
    constructor
    · rintro rfl
      exact hgap
    · intro hx
      exact hx.eq_of_mem hgap hx.start_mem ⟨Nat.zero_le _, by have := hx.pos; have := hx.le; simp only; omega⟩
  disj := List.Pairwise.nil
  inside := by simp [State.init, spans]
  usage := rfl
  zero := by simp [State.init]

/-- The ends of a gap are ends of live blocks, so they are aligned. -/
theorem gap_aligned (h : Inv N A st) (hN : A ∣ N) {x : Span} (hx : IsGap (used A st.live) N x) :
    A ∣ x.1 ∧ A ∣ x.1 + x.2 := by
  have hpos := hx.pos
  constructor
  · rcases hx.left with h0 | ⟨y, hy, h1, h2⟩
    · rw [h0]
      exact ⟨0, rfl⟩
    · have hend : y.1 + y.2 = x.1 := by
        by_contra hne
        exact hx.start_notMem ⟨y, hy, by omega, by omega⟩
      rw [← hend]
      exact (h.inside y hy).2.elim Nat.dvd_add
  · rcases hx.right with hr | ⟨y, hy, h1, h2⟩
    · rwa [hr]
    · have hstart : y.1 = x.1 + x.2 := by
        by_contra hne
        exact hx.last_notMem ⟨y, hy, by omega, by omega⟩
      rw [← hstart]
      exact (h.inside y hy).2.1

/-- The free blocks that the scan passes over before it stops lie above. -/
theorem lt_of_scanned {m : SortedMap ℕ ℕ} {pre post : List (ℕ × ℕ)} {x y : ℕ × ℕ}
    (h : m.entries.reverse = pre ++ x :: post) (hy : y ∈ m) (hlt : x.1 < y.1) : y ∈ pre := by
  have hrev : m.entries = post.reverse ++ (x :: pre.reverse) := by
    rw [← List.reverse_reverse m.entries, h]
    simp
  have hs := m.sorted
  rw [hrev] at hs
  have hmem : y ∈ m.entries.reverse := List.mem_reverse.mpr hy
  rw [h] at hmem
  rcases List.mem_append.mp hmem with hmem | hmem
  · exact hmem
  · rcases List.mem_cons.mp hmem with rfl | hmem
    · omega
    · have := (List.pairwise_append.mp hs).2.2 y (List.mem_reverse.mpr hmem) x List.mem_cons_self
      omega

/-- What a request finds: no block, or the highest one that is large enough. -/
theorem alloc_cases (h : Inv N A st) {s : ℕ} (hs : s ≠ 0) :
    ((∀ x ∈ st.impl.freeBlocks, x.2 < pad A s) ∧ allocBytesLocal st.impl s = (-1, st.impl)) ∨
    ∃ x ∈ st.impl.freeBlocks, pad A s ≤ x.2 ∧ (∀ y ∈ st.impl.freeBlocks, x.1 < y.1 → y.2 < pad A s) ∧
      allocBytesLocal st.impl s = (((x.1 + (x.2 - pad A s) : ℕ) : ℤ), cutBlock st.impl x (pad A s)) := by
  rw [allocBytesLocal, if_neg hs, h.alignment_eq]
  rcases allocLoop_cases st.impl (pad A s) st.impl.freeBlocks.entries.reverse with
    ⟨hall, hrun⟩ | ⟨pre, x, post, hes, hpre, hx, hrun⟩
  · exact .inl ⟨fun x hx => hall x (List.mem_reverse.mpr hx), hrun⟩
  · have hmem : x ∈ st.impl.freeBlocks := by
      rw [SortedMap.mem_def, ← List.mem_reverse, hes]
      simp
    exact .inr ⟨x, hmem, hx, fun y hy hlt => hpre y (lt_of_scanned hes hy hlt), hrun⟩

/-- The free blocks after the high end of one is cut off are the gaps again. -/
theorem gaps_cut (h : Inv N A st) {s : ℕ} (hs : s ≠ 0) {x : ℕ × ℕ} (hx : x ∈ st.impl.freeBlocks)
    (hle : pad A s ≤ x.2) (y : ℕ × ℕ) :
    y ∈ (cutBlock st.impl x (pad A s)).freeBlocks ↔
      IsGap (used A ((x.1 + (x.2 - pad A s), s) :: st.live)) N y := by
  have hgap := (h.gaps x).mp hx
  have hk := pad_pos A hs
  have hU : used A ((x.1 + (x.2 - pad A s), s) :: st.live) =
      used A st.live ∪ {a | x.1 + (x.2 - pad A s) ≤ a ∧ a < x.1 + x.2} := by
    rw [used_cons A _ hs]
    congr 1
    ext a
    simp only [Mem, Set.mem_ofPred_eq]
    omega
  simp only [cutBlock, recordUsage]
  rw [hU, isGap_take hgap (by omega) (by omega), ← h.gaps]
  have hne : ∀ y ∈ st.impl.freeBlocks, y.1 ≠ x.1 ↔ y ≠ x := fun y hy =>
    not_congr ⟨fun heq => ((h.gaps y).mp hy).eq_of_fst_eq hgap heq, fun heq => by rw [heq]⟩
  split
  · rename_i heq
    rw [SortedMap.mem_erase, and_congr_right (hne y), or_iff_left (by omega)]
  · rw [SortedMap.mem_set, and_congr_right (hne y), or_comm, Nat.add_sub_cancel_left]
    refine or_congr_right (iff_and_self.mpr fun _ => by omega)

/-- **A served request.** -/
theorem serve (h : Inv N A st) (hA : 1 ≤ A) (hN : A ∣ N) (hlt : N < 2 ^ 62) {s : ℕ} (hs : s ≠ 0) {x : ℕ × ℕ}
    (hx : x ∈ st.impl.freeBlocks) (hle : pad A s ≤ x.2) :
    Inv N A ⟨cutBlock st.impl x (pad A s), (x.1 + (x.2 - pad A s), s) :: st.live⟩ := by
  have hgap := (h.gaps x).mp hx
  have hk := pad_pos A hs
  have hdvd := h.gap_aligned hN hgap
  have hspan : ∀ a, Mem a (x.1 + (x.2 - pad A s), pad A s) → Mem a x := by
    rintro a ⟨h1, h2⟩
    simp only at h1 h2
    exact ⟨by omega, by omega⟩
  have hspans := spans_cons A (x.1 + (x.2 - pad A s)) hs st.live
  have hdisj : (spans A ((x.1 + (x.2 - pad A s), s) :: st.live)).Pairwise Disj := by
    rw [hspans]
    refine List.pairwise_cons.mpr ⟨fun y hy => ?_, h.disj⟩
    exact disj_of_not_mem hk (pos_of_mem_spans hy) fun a ha hay =>
      hgap.free a (hspan a ha) ⟨y, hy, hay⟩
  have hinside : ∀ y ∈ spans A ((x.1 + (x.2 - pad A s), s) :: st.live), y.1 + y.2 ≤ N ∧ A ∣ y.1 ∧ A ∣ y.2 := by
    intro y hy
    rw [hspans] at hy
    rcases List.mem_cons.mp hy with rfl | hy
    · refine ⟨by have := hgap.le; simp only; omega, ?_, dvd_pad hA s⟩
      show A ∣ x.1 + (x.2 - pad A s)
      rw [← Nat.add_sub_assoc hle]
      exact Nat.dvd_sub hdvd.2 (dvd_pad hA s)
    · exact h.inside y hy
  refine ⟨h.size_eq, h.alignment_eq, h.gaps_cut hs hx hle, hdisj, hinside, ?_, ?_⟩
  · have htot := total_le hdisj fun y hy => (hinside y hy).1
    rw [hspans, total_cons] at htot ⊢
    simp only [cutBlock, recordUsage, h.usage]
    omega
  · intro p hp hp0
    rcases List.mem_cons.mp hp with rfl | hp
    · exact absurd hp0 hs
    · exact h.zero p hp hp0

theorem alloc (h : Inv N A st) (hA : 1 ≤ A) (hN : A ∣ N) (hlt : N < 2 ^ 62) (s : ℕ) :
    Inv N A ⟨(allocBytesLocal st.impl s).2,
      if (allocBytesLocal st.impl s).1 = -1 then st.live
      else ((allocBytesLocal st.impl s).1.toNat, s) :: st.live⟩ := by
  by_cases hs : s = 0
  · subst hs
    have hrun : allocBytesLocal st.impl 0 = (((N + ZERO_SIZE_INSTANCE_OFFSET : ℕ) : ℤ), st.impl) := by
      rw [allocBytesLocal, if_pos rfl, h.size_eq]
    rw [hrun, if_neg (by omega), Int.toNat_natCast]
    have hused : used A ((N + ZERO_SIZE_INSTANCE_OFFSET, 0) :: st.live) = used A st.live := by
      unfold used
      rw [spans_cons_zero]
    refine ⟨h.size_eq, h.alignment_eq, by rw [hused]; exact h.gaps, ?_, ?_, ?_, ?_⟩
    · rw [spans_cons_zero]
      exact h.disj
    · rw [spans_cons_zero]
      exact h.inside
    · rw [spans_cons_zero]
      exact h.usage
    · intro p hp hp0
      rcases List.mem_cons.mp hp with rfl | hp
      · rfl
      · exact h.zero p hp hp0
  · rcases h.alloc_cases hs with ⟨-, hrun⟩ | ⟨x, hx, hle, -, hrun⟩
    · rw [hrun, if_pos rfl]
      exact h
    · have hne : ((x.1 + (x.2 - pad A s) : ℕ) : ℤ) ≠ -1 := by omega
      simp only [hrun, if_neg hne, Int.toNat_natCast]
      exact h.serve hA hN hlt hs hx hle

/-- The release of an empty block changes nothing. -/
theorem free_zero (h : Inv N A st) {o : ℕ} (hp : (o, 0) ∈ st.live) :
    ∃ impl, freeBytesLocal st.impl o 0 = some impl ∧ Inv N A ⟨impl, st.live.erase (o, 0)⟩ := by
  have hspans := spans_perm (A := A) (List.perm_cons_erase hp)
  rw [spans_cons_zero] at hspans
  have hused : used A (st.live.erase (o, 0)) = used A st.live := by
    ext a
    exact exists_congr fun x => and_congr_left fun _ => hspans.symm.mem_iff
  refine ⟨st.impl, ?_, h.size_eq, h.alignment_eq, by rw [hused]; exact h.gaps, ?_, ?_, ?_, ?_⟩
  · rw [freeBytesLocal, if_pos rfl, h.size_eq, if_pos (h.zero _ hp rfl)]
  · exact (hspans.pairwise_iff Disj.symm).mp h.disj
  · exact fun x hx => h.inside x (hspans.mem_iff.mpr hx)
  · rw [← total_perm hspans]
    exact h.usage
  · exact fun p hp => h.zero p (List.mem_of_mem_erase hp)

theorem free_block (h : Inv N A st) (hlt : N < 2 ^ 62) {o s : ℕ} (hs : s ≠ 0) (hp : (o, s) ∈ st.live) :
    ∃ impl, freeBytesLocal st.impl o s = some impl ∧ Inv N A ⟨impl, st.live.erase (o, s)⟩ := by
  have hperm : st.live.Perm ((o, s) :: st.live.erase (o, s)) := List.perm_cons_erase hp
  have hspans := spans_perm (A := A) hperm
  rw [spans_cons A o hs] at hspans
  have hdisj := (hspans.pairwise_iff Disj.symm).mp h.disj
  obtain ⟨hfirst, hrest⟩ := List.pairwise_cons.mp hdisj
  have hmem : (o, pad A s) ∈ spans A st.live := hspans.mem_iff.mpr List.mem_cons_self
  have hused : used A (st.live.erase (o, s)) = used A st.live \ {a | Mem a (o, pad A s)} := by
    rw [used_perm hperm, used_cons A o hs]
    ext a
    constructor
    · rintro ⟨y, hy, hay⟩
      exact ⟨.inl ⟨y, hy, hay⟩, fun ha => not_mem_of_disj (hfirst y hy) ha hay⟩
    · rintro ⟨ha | ha, hnot⟩
      · exact ha
      · exact absurd ha hnot
  obtain ⟨blocks, hrun, hgaps⟩ := mergeBlock_spec (o := o) (k := pad A s) h.gaps (pos_of_mem_spans hmem)
    (h.inside _ hmem).1 fun a ha => ⟨_, hmem, ha⟩
  refine ⟨{ st.impl with freeBlocks := blocks, usage := (st.impl.usage + 2 ^ 64 - pad A s) % 2 ^ 64 }, ?_,
    h.size_eq, h.alignment_eq, by rw [hused]; exact hgaps, hrest, ?_, ?_, ?_⟩
  · simp only [freeBytesLocal, if_neg hs, h.alignment_eq, hrun, Option.map_some]
  · exact fun x hx => h.inside x (hspans.mem_iff.mpr (List.mem_cons_of_mem _ hx))
  · have htot := total_perm hspans
    have hle := total_le h.disj fun x hx => (h.inside x hx).1
    rw [total_cons] at htot
    have husage := h.usage
    show (st.impl.usage + 2 ^ 64 - pad A s) % 2 ^ 64 = total (spans A (st.live.erase (o, s)))
    simp only at htot
    omega
  · exact fun p hp => h.zero p (List.mem_of_mem_erase hp)

/-- **A release.**  No assertion fails. -/
theorem free (h : Inv N A st) (hlt : N < 2 ^ 62) {p : ℕ × ℕ} (hp : p ∈ st.live) :
    ∃ impl, freeBytesLocal st.impl p.1 p.2 = some impl ∧ Inv N A ⟨impl, st.live.erase p⟩ := by
  obtain ⟨o, s⟩ := p
  rcases eq_or_ne s 0 with rfl | hs
  · exact h.free_zero hp
  · exact h.free_block hlt hs hp

theorem step (h : Inv N A st) (hA : 1 ≤ A) (hN : A ∣ N) (hlt : N < 2 ^ 62) {e : Event} {st' : State}
    (hstep : Alloc.step st e = some st') : Inv N A st' := by
  cases e with
  | alloc s =>
    rw [Alloc.step] at hstep
    split at hstep
    · obtain rfl := Option.some.inj hstep
      exact h.alloc hA hN hlt s
    · simp at hstep
  | free o s =>
    rw [Alloc.step] at hstep
    split at hstep
    · rename_i hp
      obtain ⟨impl, hrun, hinv⟩ := h.free hlt hp
      rw [hrun] at hstep
      obtain rfl := Option.some.inj hstep
      exact hinv
    · simp at hstep

theorem run (hA : 1 ≤ A) (hpos : 0 < N) (hN : A ∣ N) (hlt : N < 2 ^ 62) {es : List Event}
    (hrun : Lib.run Alloc.step (.init N A) es = some st) : Inv N A st :=
  run_inv (fun _ _ _ h hs => h.step hA hN hlt hs) (.init hpos) hrun

theorem correct (h : Inv N A st) (hA : 1 ≤ A) (hN : A ∣ N) (hlt : N < 2 ^ 62) : Correct N A st where
  freeBlocks := h.gaps
  usage := by rw [h.usage, total_spans]
  disjoint := h.disj
  alloc := by
    intro s _ hs
    rcases h.alloc_cases hs with ⟨hall, hrun⟩ | ⟨x, hx, hle, hhighest, hrun⟩
    · rw [hrun]
      refine ⟨?_, fun _ => ⟨rfl, rfl⟩, fun hne => absurd rfl hne⟩
      rw [h.alignment_eq]
      exact iff_of_true rfl hall
    · rw [hrun]
      have hdvd := h.gap_aligned hN ((h.gaps x).mp hx)
      refine ⟨?_, fun heq => absurd heq (by simp only; omega), fun _ => ?_⟩
      · rw [h.alignment_eq]
        refine iff_of_false (by simp only; omega) fun hall => ?_
        have := hall x hx
        omega
      · rw [h.alignment_eq]
        refine ⟨x, hx, hle, hhighest, rfl, ?_⟩
        rw [Int.natCast_dvd_natCast, ← Nat.add_sub_assoc hle]
        exact Nat.dvd_sub hdvd.2 (dvd_pad hA s)
  free := by
    intro p hp
    obtain ⟨impl, hrun, -⟩ := h.free hlt hp
    rw [hrun]
    rfl

end Inv

/-- **The allocator is canonical.**  After any sequence of allocations and releases, `free_blocks` is the list of
the gaps between the live blocks, and the same for every run that ends with the same allocations. -/
theorem allocator_canonical {size A : ℕ} (hA : 1 ≤ A) (hpos : 0 < size) (hdvd : A ∣ size) (hlt : size < 2 ^ 62)
    {es : List Event} {st : State} (hrun : run step (.init size A) es = some st) :
    Correct size A st ∧ ∀ es' st', run step (.init size A) es' = some st' → st'.live.Perm st.live →
      st'.impl.freeBlocks = st.impl.freeBlocks ∧ st'.impl.usage = st.impl.usage := by
  have hinv := Inv.run hA hpos hdvd hlt hrun
  refine ⟨hinv.correct hA hdvd hlt, fun es' st' hrun' hperm => ⟨?_, ?_⟩⟩
  · have hinv' := Inv.run hA hpos hdvd hlt hrun'
    refine SortedMap.ext_mem fun x => ?_
    rw [hinv.gaps, hinv'.gaps, used_perm hperm]
  · have hinv' := Inv.run hA hpos hdvd hlt hrun'
    rw [hinv.usage, hinv'.usage, total_perm (spans_perm hperm)]

/-- Three blocks, and the one in the middle given back. -/
theorem allocator_canonical_sixtyFour :
    ∃ st, run step (.init 64 16) [.alloc 10, .alloc 20, .alloc 16, .free 16 20] = some st ∧
      st.live = [(0, 16), (48, 10)] ∧ Correct 64 16 st := by
  obtain ⟨st, hrun, hlive⟩ : ∃ st, run step (.init 64 16) [.alloc 10, .alloc 20, .alloc 16, .free 16 20] = some st ∧
      st.live = [(0, 16), (48, 10)] := ⟨_, rfl, rfl⟩
  exact ⟨st, hrun, hlive, (allocator_canonical (by decide) (by decide) (by decide) (by decide) hrun).1⟩

end Alloc

end Realm

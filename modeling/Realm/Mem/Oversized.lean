import Realm.Lib.Int64
import Realm.Mem.Alloc

/-!
# Realm.Mem.Oversized — the byte allocator in 64 bits (`MemoryImpl` in `templates/mem_impl.cc`)

The size of a request is a `size_t` that another node may have sent.  It is padded in 64 bits and then compared, as
an `off_t`, with the sizes of the free blocks.  A request past `2 ^ 63` reads as negative and fits everywhere; one
near `2 ^ 64` wraps around while it is padded.

* `allocBytesLocal`, `freeBytesLocal`: the two functions with the conversions between `size_t` and `off_t`.
* `ScanSound`: the comparisons of the scan tell whether a block is large enough.
* `Bounded`: the free blocks lie inside the memory; kept by every step whose request satisfies `ScanSound`.
* `refused_oversized_iff`: a request larger than the memory is refused, without a change, exactly under `ScanSound`.
-/

namespace Realm

open Lib

/-! ## The allocator -/

/-- The members of `MemoryImpl`: a `size_t` is a natural number below `2 ^ 64`, an `off_t` an integer. -/
structure MemoryImpl64 where
  size : ℕ
  alignment : ℕ
  freeBlocks : SortedMap ℤ ℤ
  usage : ℕ
  peakUsage : ℕ
  peakFootprint : ℕ

namespace MemoryImpl64

open MemoryImpl (ZERO_SIZE_INSTANCE_OFFSET)

/-- The padding of `alloc_bytes_local` and `free_bytes_local`. -/
def pad (alignment size : ℕ) : ℕ :=
  if alignment > 0 then
    let leftover := int64 (size % alignment : ℕ)
    if leftover > 0 then uint64 (size + (alignment - leftover)) else size
  else size

/-- `usage += size` and the two peaks, for a block at `retval`. -/
def recordUsage (mi : MemoryImpl64) (size : ℕ) (retval : ℤ) : MemoryImpl64 :=
  let usage := uint64 (mi.usage + size)
  let footprint := uint64 (mi.size - retval)
  { mi with
    usage := usage
    peakUsage := if usage > mi.peakUsage then usage else mi.peakUsage
    peakFootprint := if footprint > mi.peakFootprint then footprint else mi.peakFootprint }

/-- The scan of `free_blocks`; the entries are listed from the last one to the first. -/
def allocLoop (mi : MemoryImpl64) (size : ℕ) : List (ℤ × ℤ) → ℤ × MemoryImpl64
  | [] => (-1, mi)
  | it :: rest =>
    if it.2 = int64 size then
      (it.1, { mi with freeBlocks := mi.freeBlocks.erase it.1 }.recordUsage size it.1)
    else if it.2 > int64 size then
      let leftover := int64 (it.2 - size)
      let retval := int64 (it.1 + leftover)
      (retval, { mi with freeBlocks := mi.freeBlocks.set it.1 leftover }.recordUsage size retval)
    else allocLoop mi size rest

def allocBytesLocal (mi : MemoryImpl64) (size : ℕ) : ℤ × MemoryImpl64 :=
  if size = 0 then (int64 (mi.size + ZERO_SIZE_INSTANCE_OFFSET), mi)
  else mi.allocLoop (pad mi.alignment size) mi.freeBlocks.entries.reverse

/-- Eat the block `after` if it is adjacent; `none` is the failed assertion. -/
def eatAfter (blocks : SortedMap ℤ ℤ) (after : ℤ × ℤ) (offset : ℤ) (size : ℕ) : Option (SortedMap ℤ ℤ × ℕ) :=
  if int64 (offset + int64 size) ≤ after.1 then
    if int64 (offset + int64 size) = after.1 then some (blocks.erase after.1, uint64 (size + after.2))
    else some (blocks, size)
  else none

/-- Grow the block `before` if it is adjacent, or add a new one. -/
def growBefore (blocks : SortedMap ℤ ℤ) (before : ℤ × ℤ) (offset : ℤ) (size : ℕ) : Option (SortedMap ℤ ℤ) :=
  if int64 (before.1 + before.2) ≤ offset then
    if int64 (before.1 + before.2) = offset then some (blocks.set before.1 (int64 (before.2 + size)))
    else some (blocks.set offset (int64 size))
  else none

/-- The new `free_blocks`: `after` is the lower bound of `offset`, `before` the block in front of it. -/
def mergeBlock (blocks : SortedMap ℤ ℤ) (offset : ℤ) (size : ℕ) : Option (SortedMap ℤ ℤ) :=
  match (blocks.above offset).head?, (blocks.below offset).getLast? with
  | some after, none => do
    let (blocks, size) ← eatAfter blocks after offset size
    return blocks.set offset (int64 size)
  | some after, some before => do
    let (blocks, size) ← eatAfter blocks after offset size
    growBefore blocks before offset size
  | none, some before => growBefore blocks before offset size
  | none, none => return blocks.set offset (int64 size)

/-- `none` is a failed assertion. -/
def freeBytesLocal (mi : MemoryImpl64) (offset : ℤ) (size : ℕ) : Option MemoryImpl64 :=
  if size = 0 then
    if uint64 offset = uint64 (mi.size + ZERO_SIZE_INSTANCE_OFFSET) then some mi else none
  else
    let size := pad mi.alignment size
    (mergeBlock mi.freeBlocks offset size).map fun blocks =>
      { mi with freeBlocks := blocks, usage := uint64 (mi.usage - size) }

end MemoryImpl64

namespace Oversized

open MemoryImpl64

/-! ## Runs -/

/-- The allocator and the pairs of offset and requested size that are allocated. -/
structure State where
  impl : MemoryImpl64
  live : List (ℤ × ℕ)

def State.init (size alignment : ℕ) : State := ⟨⟨size, alignment, .singleton 0 (int64 size), 0, 0, 0⟩, []⟩

inductive Event
  | alloc (size : ℕ)
  | free (offset : ℤ) (size : ℕ)

/-- After a request, whose caller keeps the offset it gets. -/
def State.alloc (st : State) (size : ℕ) : State :=
  let (retval, impl) := allocBytesLocal st.impl size
  ⟨impl, if retval = -1 then st.live else (retval, size) :: st.live⟩

/-- Any `size_t` may be requested. -/
def step (st : State) : Event → Option State
  | .alloc size => if size < 2 ^ 64 then some (st.alloc size) else none
  | .free offset size =>
    if (offset, size) ∈ st.live then
      (freeBytesLocal st.impl offset size).map fun impl => ⟨impl, st.live.erase (offset, size)⟩
    else none

/-- The request fails and changes nothing. -/
def Refused (mi : MemoryImpl64) (size : ℕ) : Prop := allocBytesLocal mi size = (-1, mi)

/-- Rounded up to the alignment, the request stays below `2 ^ 63`; or it passes `2 ^ 64`, and what is left of it then
is a positive `off_t` that is still larger than every free block. -/
def ScanSound (mi : MemoryImpl64) (size : ℕ) : Prop :=
  MemoryImpl.pad mi.alignment size < 2 ^ 63 ∨
    ∀ x ∈ mi.freeBlocks, 2 ^ 64 + x.2 < MemoryImpl.pad mi.alignment size ∧
      MemoryImpl.pad mi.alignment size < 2 ^ 64 + 2 ^ 63

/-- The steps whose request, if any, can be compared. -/
def Sound (st : State) : Event → Prop
  | .alloc size => size = 0 ∨ ScanSound st.impl size
  | .free _ _ => True

/-! ## Padding in 64 bits -/

section Pad

variable {A s : ℕ}

/-- A remainder that does not fit an `off_t` is that of a request below the alignment. -/
theorem lt_of_mod_ge (hpos : 0 < A) (hs : s < 2 ^ 64) (h : 2 ^ 63 ≤ s % A) : s < A := by
  by_contra hle
  rw [not_lt] at hle
  have hmod : s % A = (s - A) % A := Nat.mod_eq_sub_mod hle
  have hsub := Nat.mod_le (s - A) A
  have hlt := Nat.mod_lt s hpos
  omega

theorem pad_le (A s : ℕ) : MemoryImpl.pad A s ≤ s + A := by
  unfold MemoryImpl.pad
  split
  · simp only
    split <;> omega
  · omega

/-- The padding is that of `MemoryImpl.pad` up to wrap-around, but for a remainder that reads as negative: then there is
none. -/
theorem pad_cases (hA : A < 2 ^ 64) (hs : s < 2 ^ 64) :
    MemoryImpl64.pad A s = MemoryImpl.pad A s % 2 ^ 64 ∨
      (MemoryImpl64.pad A s = s ∧ 2 ^ 63 ≤ s ∧ 2 ^ 63 ≤ MemoryImpl.pad A s ∧ MemoryImpl.pad A s < 2 ^ 64) := by
  unfold MemoryImpl.pad MemoryImpl64.pad
  by_cases hpos : A > 0
  · have hlt := Nat.mod_lt s hpos
    simp only [if_pos hpos]
    rcases Nat.lt_or_ge (s % A) (2 ^ 63) with hsmall | hlarge
    · have hself : int64 (s % A : ℕ) = (s % A : ℕ) := int64_eq_self (by omega) (by omega)
      refine .inl ?_
      rw [hself]
      by_cases hleft : s % A > 0
      · rw [if_pos (by omega), if_pos hleft]
        unfold uint64
        omega
      · rw [if_neg (by omega), if_neg hleft, Nat.mod_eq_of_lt hs]
    · have hneg : int64 (s % A : ℕ) = (s % A : ℕ) - 2 ^ 64 := int64_of_ge (by omega) (by omega)
      have hself := Nat.mod_eq_of_lt (lt_of_mod_ge hpos hs hlarge)
      refine .inr ?_
      rw [hneg, if_neg (by omega), if_pos (by omega)]
      omega
  · simp only [if_neg hpos]
    exact .inl (Nat.mod_eq_of_lt hs).symm

theorem int64_pad_of_lt (hA : A < 2 ^ 64) (hs : s < 2 ^ 64) (h : MemoryImpl.pad A s < 2 ^ 63) :
    MemoryImpl64.pad A s = MemoryImpl.pad A s ∧ int64 (MemoryImpl64.pad A s) = MemoryImpl.pad A s := by
  have heq : MemoryImpl64.pad A s = MemoryImpl.pad A s := by
    have := pad_cases hA hs
    omega
  exact ⟨heq, by rw [heq]; exact int64_eq_self (by omega) (by omega)⟩

/-- A padded size from `2 ^ 63` on reads as negative. -/
theorem int64_pad_neg (hA : A < 2 ^ 64) (hs : s < 2 ^ 64) (h : 2 ^ 63 ≤ MemoryImpl.pad A s)
    (h' : MemoryImpl.pad A s < 2 ^ 64) : int64 (MemoryImpl64.pad A s) < 0 := by
  have hcases := pad_cases hA hs
  rw [int64_of_ge (by omega) (by omega)]
  omega

/-- A padded size from `2 ^ 64` on has lost its highest bit. -/
theorem pad_of_ge (hA : A < 2 ^ 64) (hs : s < 2 ^ 64) (h : 2 ^ 64 ≤ MemoryImpl.pad A s) :
    MemoryImpl64.pad A s = MemoryImpl.pad A s - 2 ^ 64 := by
  have hcases := pad_cases hA hs
  have hle := pad_le A s
  omega

end Pad

/-! ## The scan -/

/-- The block lies inside a memory of `N` bytes. -/
structure InRange (N : ℕ) (x : ℤ × ℤ) : Prop where
  fst_nonneg : 0 ≤ x.1
  snd_nonneg : 0 ≤ x.2
  le : x.1 + x.2 ≤ N

section Scan

variable {N : ℕ} {mi : MemoryImpl64} {p : ℕ}

/-- **A scan** changes nothing exactly when it finds every block too small. -/
theorem allocLoop_eq_self_iff (hN : N < 2 ^ 62) {es : List (ℤ × ℤ)}
    (hes : ∀ x ∈ es, x ∈ mi.freeBlocks ∧ InRange N x) :
    mi.allocLoop p es = (-1, mi) ↔ ∀ x ∈ es, x.2 < int64 p := by
  induction es with
  | nil => simp [allocLoop]
  | cons it rest ih =>
    obtain ⟨hmem, h1, h2, h3⟩ := hes it List.mem_cons_self
    rw [List.forall_mem_cons, allocLoop]
    by_cases heq : it.2 = int64 p
    · -- the block is taken out, so that the list has changed
      rw [if_pos heq]
      refine iff_of_false (fun h => ?_) fun h => by omega
      have hfree : mi.freeBlocks.erase it.1 = mi.freeBlocks := congrArg (fun r => r.2.freeBlocks) h
      rw [← hfree] at hmem
      exact (SortedMap.mem_erase.mp hmem).2 rfl
    · by_cases hgt : it.2 > int64 p
      · rw [if_neg heq, if_pos hgt]
        refine iff_of_false (fun h => ?_) fun h => by omega
        have hfree : mi.freeBlocks.set it.1 (int64 (it.2 - p)) = mi.freeBlocks :=
          congrArg (fun r => r.2.freeBlocks) h
        have hret : int64 (it.1 + int64 (it.2 - p)) = -1 := congrArg Prod.fst h
        rw [← hfree] at hmem
        -- only the request of size zero leaves the block as it is, and then its end is returned
        rcases SortedMap.mem_set.mp hmem with hit | ⟨-, hne⟩
        · have hleft : int64 (it.2 - p) = it.2 := (congrArg Prod.snd hit).symm
          rw [hleft, int64_eq_self (by omega) (by omega)] at hret
          omega
        · exact hne rfl
      · rw [if_neg heq, if_neg hgt, ih fun x hx => hes x (List.mem_cons_of_mem it hx)]
        exact (and_iff_right (by omega)).symm

/-- What a scan for a size that is a positive `off_t` finds: no block, or one that it cuts at its end. -/
theorem allocLoop_cases (hN : N < 2 ^ 62) (hp : int64 p = p) {es : List (ℤ × ℤ)}
    (hes : ∀ x ∈ es, x ∈ mi.freeBlocks ∧ InRange N x) :
    mi.allocLoop p es = (-1, mi) ∨ ∃ x blocks, InRange N x ∧ (p : ℤ) ≤ x.2 ∧
      (∀ y ∈ blocks, y ∈ mi.freeBlocks ∨ y = (x.1, x.2 - p)) ∧
      mi.allocLoop p es =
        (x.1 + (x.2 - p), { mi with freeBlocks := blocks }.recordUsage p (x.1 + (x.2 - p))) := by
  induction es with
  | nil => exact .inl rfl
  | cons it rest ih =>
    obtain ⟨-, hrange⟩ := hes it List.mem_cons_self
    obtain ⟨h1, h2, h3⟩ := hrange
    rw [allocLoop, hp]
    by_cases heq : it.2 = p
    · rw [if_pos heq]
      refine .inr ⟨it, mi.freeBlocks.erase it.1, ⟨h1, h2, h3⟩, by omega, fun y hy => ?_, ?_⟩
      · exact .inl (SortedMap.mem_erase.mp hy).1
      · rw [show it.1 + (it.2 - p) = it.1 by omega]
    · by_cases hgt : it.2 > p
      · have hleft : int64 (it.2 - p) = it.2 - p := int64_eq_self (by omega) (by omega)
        have hret : int64 (it.1 + (it.2 - p)) = it.1 + (it.2 - p) := int64_eq_self (by omega) (by omega)
        simp only [if_neg heq, if_pos hgt, hleft, hret]
        refine .inr ⟨it, _, ⟨h1, h2, h3⟩, by omega, fun y hy => ?_, rfl⟩
        rcases SortedMap.mem_set.mp hy with rfl | ⟨hy, -⟩
        · exact .inr rfl
        · exact .inl hy
      · rw [if_neg heq, if_neg hgt]
        exact ih fun x hx => hes x (List.mem_cons_of_mem it hx)

end Scan

/-! ## The invariant -/

section Merge

variable {N : ℕ} {blocks : SortedMap ℤ ℤ} {o : ℤ} {k : ℕ}

theorem eatAfter_inRange (hN : N < 2 ^ 62) (hb : ∀ x ∈ blocks, InRange N x) (ho : InRange N (o, (k : ℤ)))
    {after : ℤ × ℤ} (hafter : after ∈ blocks) {blocks' : SortedMap ℤ ℤ} {k' : ℕ}
    (h : eatAfter blocks after o k = some (blocks', k')) :
    (∀ x ∈ blocks', x ∈ blocks) ∧ InRange N (o, (k' : ℤ)) := by
  obtain ⟨h1, h2, h3⟩ := ho
  obtain ⟨h4, h5, h6⟩ := hb after hafter
  simp only at h1 h2 h3
  have hend : int64 (o + int64 k) = o + k := by
    rw [int64_eq_self (x := k) (by omega) (by omega), int64_eq_self (by omega) (by omega)]
  rw [eatAfter, hend] at h
  split at h
  · split at h
    · obtain ⟨rfl, rfl⟩ := Prod.mk.inj (Option.some.inj h)
      refine ⟨fun x hx => (SortedMap.mem_erase.mp hx).1, h1, by simp only; omega, ?_⟩
      simp only [uint64]
      omega
    · obtain ⟨rfl, rfl⟩ := Prod.mk.inj (Option.some.inj h)
      exact ⟨fun x hx => hx, h1, h2, h3⟩
  · simp at h

theorem inRange_set (hN : N < 2 ^ 62) (hb : ∀ x ∈ blocks, InRange N x) (ho : InRange N (o, (k : ℤ))) :
    ∀ x ∈ blocks.set o (int64 k), InRange N x := by
  intro x hx
  obtain ⟨h1, h2, h3⟩ := ho
  simp only at h1 h2 h3
  rcases SortedMap.mem_set.mp hx with rfl | ⟨hx, -⟩
  · rw [int64_eq_self (by omega) (by omega)]
    exact ⟨h1, h2, h3⟩
  · exact hb x hx

theorem growBefore_inRange (hN : N < 2 ^ 62) (hb : ∀ x ∈ blocks, InRange N x) (ho : InRange N (o, (k : ℤ)))
    {before : ℤ × ℤ} (hbefore : InRange N before) {blocks' : SortedMap ℤ ℤ}
    (h : growBefore blocks before o k = some blocks') : ∀ x ∈ blocks', InRange N x := by
  obtain ⟨h4, h5, h6⟩ := hbefore
  rw [growBefore, int64_eq_self (by omega) (by omega)] at h
  split at h
  · split at h
    · rename_i hend
      obtain rfl := Option.some.inj h
      obtain ⟨h1, h2, h3⟩ := ho
      simp only at h1 h2 h3
      intro x hx
      rcases SortedMap.mem_set.mp hx with rfl | ⟨hx, -⟩
      · rw [int64_eq_self (by omega) (by omega)]
        exact ⟨h4, by simp only; omega, by simp only; omega⟩
      · exact hb x hx
    · obtain rfl := Option.some.inj h
      exact inRange_set hN hb ho
  · simp at h

theorem mergeBlock_inRange (hN : N < 2 ^ 62) (hb : ∀ x ∈ blocks, InRange N x) (ho : InRange N (o, (k : ℤ)))
    {blocks' : SortedMap ℤ ℤ} (h : mergeBlock blocks o k = some blocks') : ∀ x ∈ blocks', InRange N x := by
  unfold mergeBlock at h
  split at h
  · rename_i after hafter _
    obtain ⟨⟨blocks₁, k₁⟩, heat, h⟩ := Option.bind_eq_some_iff.mp h
    obtain ⟨hsub, hrange⟩ := eatAfter_inRange hN hb ho (SortedMap.head?_above hafter).1 heat
    obtain rfl := Option.some.inj h
    exact inRange_set hN (fun x hx => hb x (hsub x hx)) hrange
  · rename_i after before hafter hbefore
    obtain ⟨⟨blocks₁, k₁⟩, heat, h⟩ := Option.bind_eq_some_iff.mp h
    obtain ⟨hsub, hrange⟩ := eatAfter_inRange hN hb ho (SortedMap.head?_above hafter).1 heat
    exact growBefore_inRange hN (fun x hx => hb x (hsub x hx)) hrange
      (hb before (SortedMap.getLast?_below hbefore).1) h
  · rename_i before _ hbefore
    exact growBefore_inRange hN hb ho (hb before (SortedMap.getLast?_below hbefore).1) h
  · obtain rfl := Option.some.inj h
    exact inRange_set hN hb ho

end Merge

/-- **Invariant.**  The free blocks and the live ones lie inside the memory. -/
structure Bounded (N A : ℕ) (st : State) : Prop where
  size_eq : st.impl.size = N
  alignment_eq : st.impl.alignment = A
  free : ∀ x ∈ st.impl.freeBlocks, InRange N x
  live : ∀ q ∈ st.live, q.2 ≠ 0 → q.2 < 2 ^ 64 ∧ InRange N (q.1, (MemoryImpl.pad A q.2 : ℤ))

namespace Bounded

variable {N A : ℕ} {st st' : State}

theorem init (hN : N < 2 ^ 62) (A : ℕ) : Bounded N A (.init N A) where
  size_eq := rfl
  alignment_eq := rfl
  free := by
    intro x hx
    obtain rfl := SortedMap.mem_singleton.mp hx
    rw [int64_eq_self (by omega) (by omega)]
    exact ⟨le_rfl, by simp only; omega, by simp only; omega⟩
  live := by simp [State.init]

theorem scanned (h : Bounded N A st) :
    ∀ x ∈ st.impl.freeBlocks.entries.reverse, x ∈ st.impl.freeBlocks ∧ InRange N x := by
  intro x hx
  have hmem : x ∈ st.impl.freeBlocks := List.mem_reverse.mp hx
  exact ⟨hmem, h.free x hmem⟩

/-- A request is refused exactly when every block is too small for what the scan sees of it. -/
theorem refused_iff (h : Bounded N A st) (hN : N < 2 ^ 62) {s : ℕ} (hs : s ≠ 0) :
    Refused st.impl s ↔ ∀ x ∈ st.impl.freeBlocks, x.2 < int64 (MemoryImpl64.pad A s) := by
  rw [Refused, allocBytesLocal, if_neg hs, h.alignment_eq, allocLoop_eq_self_iff hN h.scanned]
  exact forall_congr' fun x => imp_congr_left List.mem_reverse

/-- A request that wraps around to more than every block has. -/
theorem refused_of_wrapped (h : Bounded N A st) (hN : N < 2 ^ 62) (hA : A < 2 ^ 64) {s : ℕ} (hs : s ≠ 0)
    (h64 : s < 2 ^ 64)
    (hall : ∀ x ∈ st.impl.freeBlocks, 2 ^ 64 + x.2 < MemoryImpl.pad A s ∧ MemoryImpl.pad A s < 2 ^ 64 + 2 ^ 63) :
    Refused st.impl s := by
  rw [h.refused_iff hN hs]
  intro x hx
  obtain ⟨hlo, hhi⟩ := hall x hx
  have hx2 := (h.free x hx).snd_nonneg
  rw [pad_of_ge hA h64 (by omega), int64_eq_self (by omega) (by omega)]
  omega

/-- **A request larger than the memory.** -/
theorem refused_iff_scanSound (h : Bounded N A st) (hN : N < 2 ^ 62) (hA : A < 2 ^ 64) {s : ℕ} (hs : N < s)
    (h64 : s < 2 ^ 64) : Refused st.impl s ↔ ScanSound st.impl s := by
  have hs0 : s ≠ 0 := by omega
  have hle := Alloc.le_pad A s
  rw [ScanSound, h.alignment_eq]
  constructor
  · rw [h.refused_iff hN hs0]
    intro hsmall
    rcases Nat.lt_or_ge (MemoryImpl.pad A s) (2 ^ 63) with hlt | hge
    · exact .inl hlt
    · refine .inr fun x hx => ?_
      have hx2 := (h.free x hx).snd_nonneg
      have hxs := hsmall x hx
      rcases Nat.lt_or_ge (MemoryImpl.pad A s) (2 ^ 64) with hlt | hge'
      · have := int64_pad_neg hA h64 hge hlt
        omega
      · rw [pad_of_ge hA h64 hge'] at hxs
        by_cases hfit : MemoryImpl.pad A s < 2 ^ 64 + 2 ^ 63
        · rw [int64_eq_self (by omega) (by omega)] at hxs
          omega
        · have hup := pad_le A s
          rw [int64_of_ge (by omega) (by omega)] at hxs
          omega
  · rintro (hlt | hall)
    · rw [h.refused_iff hN hs0, (int64_pad_of_lt hA h64 hlt).2]
      intro x hx
      have hx1 := (h.free x hx).fst_nonneg
      have hx3 := (h.free x hx).le
      omega
    · exact h.refused_of_wrapped hN hA hs0 h64 hall

theorem alloc_of_refused {s : ℕ} (h : Refused st.impl s) : st.alloc s = st := by
  rw [Refused] at h
  simp only [State.alloc, h, if_true]

theorem alloc (h : Bounded N A st) (hN : N < 2 ^ 62) (hA : A < 2 ^ 64) {s : ℕ} (h64 : s < 2 ^ 64)
    (hsound : s = 0 ∨ ScanSound st.impl s) : Bounded N A (st.alloc s) := by
  rcases eq_or_ne s 0 with rfl | hs
  · simp only [State.alloc, allocBytesLocal, if_pos]
    refine ⟨h.size_eq, h.alignment_eq, h.free, fun q hq hq0 => ?_⟩
    simp only at hq
    split at hq
    · exact h.live q hq hq0
    · rcases List.mem_cons.mp hq with rfl | hq
      · exact absurd rfl hq0
      · exact h.live q hq hq0
  rw [ScanSound, h.alignment_eq] at hsound
  rcases hsound.resolve_left hs with hlt | hall
  · obtain ⟨hpad, hint⟩ := int64_pad_of_lt hA h64 hlt
    rcases allocLoop_cases hN (hint.trans (congrArg _ hpad.symm)) h.scanned with
      hr | ⟨x, blocks, hx, hle, hsub, hr⟩
    · rw [alloc_of_refused]
      · exact h
      · rw [Refused, allocBytesLocal, if_neg hs, h.alignment_eq, hr]
    · -- the block is cut off the end of `x`, and what is left of `x` is in front of it
      obtain ⟨hx1, hx2, hx3⟩ := hx
      rw [hpad] at hle hsub hr
      have hrun : allocBytesLocal st.impl s =
          (x.1 + (x.2 - MemoryImpl.pad A s), { st.impl with freeBlocks := blocks }.recordUsage
            (MemoryImpl.pad A s) (x.1 + (x.2 - MemoryImpl.pad A s))) := by
        rw [allocBytesLocal, if_neg hs, h.alignment_eq, hpad, hr]
      simp only [State.alloc, hrun]
      rw [if_neg (by omega)]
      refine ⟨h.size_eq, h.alignment_eq, fun y hy => ?_, fun q hq hq0 => ?_⟩
      · rcases hsub y hy with hy | rfl
        · exact h.free y hy
        · exact ⟨hx1, by simp only; omega, by simp only; omega⟩
      · rcases List.mem_cons.mp hq with rfl | hq
        · exact ⟨h64, by simp only; omega, by simp only; omega, by simp only; omega⟩
        · exact h.live q hq hq0
  · rw [alloc_of_refused (h.refused_of_wrapped hN hA hs h64 hall)]
    exact h

theorem release (h : Bounded N A st) (hN : N < 2 ^ 62) (hA : A < 2 ^ 64) {o : ℤ} {s : ℕ} (hlive : (o, s) ∈ st.live)
    {impl : MemoryImpl64} (hfree : freeBytesLocal st.impl o s = some impl) :
    Bounded N A ⟨impl, st.live.erase (o, s)⟩ := by
  have hrest : ∀ q ∈ st.live.erase (o, s), q.2 ≠ 0 → q.2 < 2 ^ 64 ∧ InRange N (q.1, (MemoryImpl.pad A q.2 : ℤ)) :=
    fun q hq => h.live q (List.mem_of_mem_erase hq)
  rw [freeBytesLocal] at hfree
  split at hfree
  · split at hfree
    · obtain rfl := Option.some.inj hfree
      exact ⟨h.size_eq, h.alignment_eq, h.free, hrest⟩
    · simp at hfree
  · rename_i hs
    obtain ⟨h64, hrange⟩ := h.live (o, s) hlive hs
    obtain ⟨blocks, hmerge, rfl⟩ := Option.map_eq_some_iff.mp hfree
    have hle := hrange.le
    have ho := hrange.fst_nonneg
    simp only at h64 hle ho
    have hpad := (int64_pad_of_lt hA h64 (by omega)).1
    rw [h.alignment_eq, hpad] at hmerge
    exact ⟨h.size_eq, h.alignment_eq, mergeBlock_inRange hN h.free hrange hmerge, hrest⟩

theorem step (h : Bounded N A st) (hN : N < 2 ^ 62) (hA : A < 2 ^ 64) {e : Event} (hsound : Sound st e)
    (hstep : Oversized.step st e = some st') : Bounded N A st' := by
  cases e with
  | alloc s =>
    rw [Oversized.step] at hstep
    split at hstep
    · rename_i h64
      obtain rfl := Option.some.inj hstep
      exact h.alloc hN hA h64 hsound
    · simp at hstep
  | free o s =>
    rw [Oversized.step] at hstep
    split at hstep
    · rename_i hlive
      obtain ⟨impl, hfree, rfl⟩ := Option.map_eq_some_iff.mp hstep
      exact h.release hN hA hlive hfree
    · simp at hstep

end Bounded

/-- **Requests larger than the memory.**  After any run of requests that can be compared and of releases, a request for
more bytes than the memory has is refused, without a change, exactly when it can be compared too. -/
theorem refused_oversized_iff {N A : ℕ} (hN : N < 2 ^ 62) (hA : A < 2 ^ 64) {es : List Event} {st : State}
    (hsound : Guarded step Sound (.init N A) es) (hrun : run step (.init N A) es = some st) {s : ℕ} (hs : N < s)
    (h64 : s < 2 ^ 64) : Refused st.impl s ↔ ScanSound st.impl s := by
  have hinv : Bounded N A st := run_inv_guarded (fun _ _ _ h hC hstep => h.step hN hA hC hstep) (.init hN A) hsound hrun
  exact hinv.refused_iff_scanSound hN hA hs h64

/-- A kilobyte with a hundred bytes in use. -/
theorem refused_two_kilobytes :
    ∃ st, run step (.init 1024 256) [.alloc 100] = some st ∧ st.live = [(768, 100)] ∧ Refused st.impl 2048 := by
  obtain ⟨st, hrun, hlive, hA⟩ : ∃ st, run step (.init 1024 256) [.alloc 100] = some st ∧ st.live = [(768, 100)] ∧
      st.impl.alignment = 256 := ⟨_, rfl, rfl, rfl⟩
  have hsound : Guarded step Sound (.init 1024 256) [.alloc 100] := ⟨.inr (.inl (by decide)), fun _ _ => trivial⟩
  refine ⟨st, hrun, hlive, (refused_oversized_iff (by decide) (by decide) hsound hrun (by decide) (by decide)).mpr ?_⟩
  rw [ScanSound, hA]
  exact .inl (by decide)

/-- A request 256 bytes short of `2 ^ 64` is served behind the end of the memory, and the free block grows. -/
theorem not_refused_near_two_pow_64 :
    (allocBytesLocal (State.init 1024 256).impl (2 ^ 64 - 256)).1 = 1280 ∧
      (allocBytesLocal (State.init 1024 256).impl (2 ^ 64 - 256)).2.freeBlocks.entries = [(0, 1280)] ∧
      ¬ Refused (State.init 1024 256).impl (2 ^ 64 - 256) := by
  have hret : (allocBytesLocal (State.init 1024 256).impl (2 ^ 64 - 256)).1 = 1280 := by decide
  refine ⟨hret, by decide, fun h => ?_⟩
  rw [h] at hret
  exact absurd hret (by decide)

end Oversized

end Realm

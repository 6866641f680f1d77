import Mathlib.Data.List.Chain
import Realm.Lib.Int32
import Realm.Lib.Int64
import Realm.Endpoint.Basic

/-!
# Realm.Endpoint.Segments — the layout of the registered segments

A segment holds the global memory, the registered memory, the memory of the intermediate buffers, the source data pool
and the LMBs.  `init_endpoints` asks for their total, `init_segments` (`macros_impl/init_endpoints.def`) finds the pool
by shifting `int`s, `configure_from_command_line` (`templates/runtime_impl.cc`) finds the memories by shifting
`size_t`s, and the endpoints find the LMBs from the end of the segment of their peer.

* `areas`: the five areas, each where the code that uses it looks for it.
* `layout_consistent_iff`: they follow each other exactly when each memory is below two gigabytes.
* `lmbs_agree_iff`: sender and receiver agree on the LMBs, and these lie apart, exactly when all segments have the same
  size, an `int` counts the LMBs of a segment, and a `size_t` holds the size that is asked for.
-/

namespace Realm

open Lib

/-! ## Areas -/

/-- The first address of an area and its number of bytes. -/
abbrev Area := ℕ × ℕ

namespace Area

/-- Addresses have 64 bits, and an area may start anywhere. -/
def Mem (a : ℕ) (x : Area) : Prop := a < 2 ^ 64 ∧ uint64 ((a : ℤ) - x.1) < x.2

def Disjoint (x y : Area) : Prop := ∀ a, Mem a x → ¬ Mem a y

theorem mem_iff {x : Area} (h : x.1 + x.2 ≤ 2 ^ 64) (a : ℕ) : Mem a x ↔ x.1 ≤ a ∧ a < x.1 + x.2 := by
  unfold Mem uint64
  omega

theorem Disjoint.symm {x y : Area} (h : Disjoint x y) : Disjoint y x := fun a hy hx => h a hx hy

theorem disjoint_of_le {x y : Area} (h : x.1 + x.2 ≤ y.1) (hy : y.1 + y.2 ≤ 2 ^ 64) : Disjoint x y := by
  intro a hx hay
  rw [mem_iff (by omega)] at hx
  rw [mem_iff hy] at hay
  omega

/-- An area at the distance `off` from `base`, which may be negative, lies in front of one that starts behind
its end. -/
theorem disjoint_of_offset_le {base : ℕ} {off : ℤ} {len : ℕ} {y : Area} (hoff : -2 ^ 63 ≤ off)
    (hlo : base + (off + len) ≤ y.1) (hhi : y.1 + y.2 ≤ 2 ^ 63) : Disjoint (uint64 (base + off), len) y := by
  rintro a ⟨-, hx⟩ hy
  rw [mem_iff (by omega)] at hy
  simp only [uint64_sub_uint64] at hx
  rw [← Int.ofNat_lt, uint64_eq_self (by omega) (by omega)] at hx
  omega

/-- A byte of an area, by its distance from the base. -/
theorem mem_of_offset {base o len : ℕ} {off : ℤ} (hlo : off ≤ o) (hhi : o < off + len) (hlen : o - off < 2 ^ 64)
    (hbase : base + o < 2 ^ 64) : Mem (base + o) (uint64 (base + off), len) := by
  refine ⟨hbase, ?_⟩
  dsimp only
  rw [uint64_sub_uint64, ← Int.ofNat_lt, uint64_eq_self (by omega) (by omega)]
  omega

/-- A part of an area. -/
theorem mem_of_mem_offset {base off len size a : ℕ} (h : off + len ≤ size) (hsize : size ≤ 2 ^ 64)
    (ha : Mem a (uint64 (base + off), len)) : Mem a (base, size) := by
  obtain ⟨hlt, hoff⟩ := ha
  refine ⟨hlt, ?_⟩
  simp only [uint64_sub_uint64] at hoff
  rw [← Int.ofNat_lt, uint64_cast] at hoff ⊢
  dsimp only
  omega

/-- Two areas at different distances from the same base. -/
theorem disjoint_of_offsets (base : ℕ) {off off' len len' : ℕ} (h : off + len ≤ off')
    (h' : off' + len' ≤ 2 ^ 64) : Disjoint (uint64 (base + off), len) (uint64 (base + off'), len') := by
  rintro a ⟨-, hx⟩ ⟨-, hy⟩
  simp only [uint64_sub_uint64] at hx hy
  rw [← Int.ofNat_lt, uint64_cast] at hx hy
  omega

end Area

/-! ## The sizes and where they are used -/

/-- The arguments of `init_endpoints`, which are `int`s in megabytes, and the sizes it reads from the command line. -/
structure SegmentSizes where
  gasnetMemSizeInMb : ℕ
  registeredMemSizeInMb : ℕ
  registeredIbMemSizeInMb : ℕ
  srcdatapoolSize : ℕ
  numNodes : ℕ
  numLmbs : ℕ
  lmbSize : ℕ

namespace SegmentSizes

variable (z : SegmentSizes) (segment : ℕ)

/-- `total_lmb_size` in `init_endpoints`: the product of the first two factors is an `int`. -/
def totalLmbSize : ℕ := uint64 (int32 (z.numNodes * z.numLmbs) * z.lmbSize)

/-- The three memories, with the shifts of a `size_t`. -/
def memBytes : ℕ := z.gasnetMemSizeInMb * 2 ^ 20 + z.registeredMemSizeInMb * 2 ^ 20 + z.registeredIbMemSizeInMb * 2 ^ 20

def totalBytes : ℕ := z.memBytes + z.srcdatapoolSize + z.totalLmbSize

/-- `attach_size` in `init_endpoints` -/
def attachSize : ℕ := uint64 z.totalBytes

/-- `regmem_base` in `configure_from_command_line` -/
def regmemBase : ℕ := uint64 (segment + (z.gasnetMemSizeInMb * 2 ^ 20 : ℕ))

/-- `reg_ib_mem_base` in `configure_from_command_line` -/
def regIbMemBase : ℕ := uint64 (segment + (z.gasnetMemSizeInMb * 2 ^ 20 + z.registeredMemSizeInMb * 2 ^ 20 : ℕ))

/-- `srcdatapool_base` in `init_segments`: what `my_segment` is advanced by are `int`s. -/
def srcdatapoolBase : ℕ :=
  let mySegment := uint64 (segment + int32 (z.gasnetMemSizeInMb * 2 ^ 20))
  let mySegment := uint64 (mySegment + int32 (z.registeredMemSizeInMb * 2 ^ 20))
  uint64 (mySegment + int32 (z.registeredIbMemSizeInMb * 2 ^ 20))

/-- `lmb_base` in `init_segments` -/
def lmbBase : ℕ := uint64 (z.srcdatapoolBase segment + z.srcdatapoolSize)

/-- The global memory, the registered memory, its intermediate buffers, and the source data pool. -/
def memAreas : List Area :=
  [(uint64 segment, z.gasnetMemSizeInMb * 2 ^ 20),
    (z.regmemBase segment, z.registeredMemSizeInMb * 2 ^ 20),
    (z.regIbMemBase segment, z.registeredIbMemSizeInMb * 2 ^ 20),
    (z.srcdatapoolBase segment, z.srcdatapoolSize)]

def areas : List Area := z.memAreas segment ++ [(z.lmbBase segment, z.totalLmbSize)]

/-- The sizes in megabytes are nonnegative `int`s. -/
structure IsInt : Prop where
  gasnet : z.gasnetMemSizeInMb < 2 ^ 31
  registered : z.registeredMemSizeInMb < 2 ^ 31
  registeredIb : z.registeredIbMemSizeInMb < 2 ^ 31

/-- The other sizes: there is a node, `num_lmbs` is a positive `int`, and the rest are `size_t`s. -/
structure IsSized : Prop where
  numNodes_pos : 1 ≤ z.numNodes
  numLmbs_pos : 1 ≤ z.numLmbs
  numLmbs_lt : z.numLmbs < 2 ^ 31
  lmbSize_pos : 1 ≤ z.lmbSize
  lmbSize_lt : z.lmbSize < 2 ^ 64
  srcdatapoolSize_lt : z.srcdatapoolSize < 2 ^ 64

/-- An `int` counts the LMBs of a segment, and a `size_t` holds what is asked for. -/
structure LmbsFit : Prop where
  counted : z.numNodes * z.numLmbs < 2 ^ 31
  total : z.memBytes + z.srcdatapoolSize + z.numNodes * z.numLmbs * z.lmbSize < 2 ^ 64

end SegmentSizes

namespace Segments

open SegmentSizes Area

/-! ## The shifts of `init_segments` -/

section Shift

variable {z : SegmentSizes} (segment : ℕ)

/-- What `init_segments` advances `my_segment` by. -/
def shifted (z : SegmentSizes) : ℤ :=
  int32 (z.gasnetMemSizeInMb * 2 ^ 20) + int32 (z.registeredMemSizeInMb * 2 ^ 20) +
    int32 (z.registeredIbMemSizeInMb * 2 ^ 20)

theorem srcdatapoolBase_eq : z.srcdatapoolBase segment = uint64 (segment + shifted z) := by
  unfold srcdatapoolBase shifted
  rw [uint64_uint64_add, add_assoc, uint64_uint64_add, add_assoc, add_assoc]

/-- A size of `n` megabytes loses a multiple of four gigabytes, and nothing only below two. -/
theorem int32_shift (n : ℕ) :
    -2 ^ 31 ≤ int32 (n * 2 ^ 20) ∧ int32 (n * 2 ^ 20) ≤ n * 2 ^ 20 ∧ (int32 (n * 2 ^ 20) = n * 2 ^ 20 ↔ n < 2 ^ 11) ∧
      ((n * 2 ^ 20 : ℤ) - int32 (n * 2 ^ 20)) % 2 ^ 32 = 0 := by
  unfold int32
  rw [Int.bmod_eq_emod]
  split <;> omega

theorem shifted_bounds (z : SegmentSizes) : -3 * 2 ^ 31 ≤ shifted z ∧ shifted z ≤ z.memBytes := by
  obtain ⟨h1, h2, -⟩ := int32_shift z.gasnetMemSizeInMb
  obtain ⟨h3, h4, -⟩ := int32_shift z.registeredMemSizeInMb
  obtain ⟨h5, h6, -⟩ := int32_shift z.registeredIbMemSizeInMb
  unfold shifted memBytes
  omega

theorem memBytes_lt (hz : z.IsInt) : z.memBytes < 3 * 2 ^ 51 := by
  obtain ⟨hg, hr, hib⟩ := hz
  unfold memBytes
  omega

/-- The pool is behind the memories exactly when no shift overflows. -/
theorem srcdatapoolBase_exact_iff (hz : z.IsInt) :
    z.srcdatapoolBase segment = uint64 (segment + z.memBytes) ↔
      z.gasnetMemSizeInMb < 2 ^ 11 ∧ z.registeredMemSizeInMb < 2 ^ 11 ∧ z.registeredIbMemSizeInMb < 2 ^ 11 := by
  obtain ⟨hg, hr, hib⟩ := hz
  obtain ⟨h1, h2, h3, -⟩ := int32_shift z.gasnetMemSizeInMb
  obtain ⟨h4, h5, h6, -⟩ := int32_shift z.registeredMemSizeInMb
  obtain ⟨h7, h8, h9, -⟩ := int32_shift z.registeredIbMemSizeInMb
  have hbounds := shifted_bounds z
  rw [srcdatapoolBase_eq, uint64_inj, ← h3, ← h6, ← h9]
  all_goals
    unfold memBytes at *
    unfold shifted
    omega

end Shift

/-! ## The layout of one segment -/

/-- Every area is where the one in front of it ends, the pool is behind the memories as they are computed exactly, and
the last area ends with the segment. -/
structure Consistent (z : SegmentSizes) (segment : ℕ) : Prop where
  pool : z.srcdatapoolBase segment = uint64 (segment + z.memBytes)
  afterIb : z.srcdatapoolBase segment = uint64 (z.regIbMemBase segment + (z.registeredIbMemSizeInMb * 2 ^ 20 : ℕ))
  consecutive : (z.areas segment).IsChain fun x y => y.1 = uint64 (x.1 + x.2)
  disjoint : (z.areas segment).Pairwise Area.Disjoint
  ends : uint64 (z.lmbBase segment + z.totalLmbSize) = uint64 (segment + z.attachSize)

theorem lmbBase_eq {z : SegmentSizes} {segment : ℕ} (h : z.srcdatapoolBase segment = uint64 (segment + z.memBytes)) :
    z.lmbBase segment = uint64 (segment + (z.memBytes + z.srcdatapoolSize : ℕ)) := by
  rw [lmbBase, h, uint64_uint64_add, add_assoc, Nat.cast_add]

theorem consistent_of_pool {z : SegmentSizes} (segment : ℕ) (htotal : z.totalBytes < 2 ^ 63)
    (h : z.srcdatapoolBase segment = uint64 (segment + z.memBytes)) : Consistent z segment := by
  have hlmb := lmbBase_eq h
  have hib : z.srcdatapoolBase segment =
      uint64 (z.regIbMemBase segment + (z.registeredIbMemSizeInMb * 2 ^ 20 : ℕ)) := by
    rw [h, regIbMemBase, uint64_uint64_add, memBytes, Nat.cast_add, add_assoc]
  constructor
  case pool => exact h
  case afterIb => exact hib
  case consecutive =>
    simp only [areas, memAreas, List.cons_append, List.nil_append, List.isChain_cons_cons, List.isChain_singleton,
      and_true]
    refine ⟨?_, ?_, hib, rfl⟩
    · rw [regmemBase, uint64_uint64_add]
    · rw [regIbMemBase, regmemBase, uint64_uint64_add, add_assoc, Nat.cast_add]
  case disjoint =>
    -- all five areas lie at their distance from the start of the segment
    have hfirst : uint64 (segment : ℤ) = uint64 ((segment : ℤ) + (0 : ℕ)) := by
      rw [Nat.cast_zero, add_zero]
    unfold totalBytes memBytes at *
    simp only [areas, memAreas, regmemBase, regIbMemBase, h, hlmb, List.cons_append, List.nil_append,
      List.pairwise_cons, List.mem_cons, List.not_mem_nil, or_false, forall_eq_or_imp, forall_eq, IsEmpty.forall_iff,
      implies_true, List.Pairwise.nil, and_true]
    rw [hfirst]
    refine ⟨⟨?_, ?_, ?_, ?_⟩, ⟨?_, ?_, ?_⟩, ⟨?_, ?_⟩, ?_⟩
    all_goals
      apply disjoint_of_offsets
      · omega
      · omega
  case ends =>
    rw [hlmb, uint64_uint64_add, attachSize, add_comm (segment : ℤ) (uint64 _), uint64_uint64_add, totalBytes]
    push_cast
    rw [add_assoc, add_comm]

/-- **The layout is consistent** exactly when each of the three memories is smaller than two gigabytes. -/
theorem layout_consistent_iff (z : SegmentSizes) (segment : ℕ) (hz : z.IsInt) (htotal : z.totalBytes < 2 ^ 63) :
    Consistent z segment ↔
      z.gasnetMemSizeInMb < 2 ^ 11 ∧ z.registeredMemSizeInMb < 2 ^ 11 ∧ z.registeredIbMemSizeInMb < 2 ^ 11 := by
  rw [← srcdatapoolBase_exact_iff segment hz]
  exact ⟨fun h => h.pool, fun h => consistent_of_pool segment htotal h⟩

/-- The sizes by default, and two nodes. -/
def defaultSizes : SegmentSizes := ⟨256, 0, 256, 64 * 2 ^ 20, 2, 2, 2 ^ 20⟩

theorem layout_consistent_default : Consistent defaultSizes 0x7f0000000000 :=
  (layout_consistent_iff defaultSizes 0x7f0000000000 ⟨by decide, by decide, by decide⟩ (by decide)).mpr (by decide)

/-- With four gigabytes of global memory the pool is put at the start of it. -/
theorem not_consistent_four_gigabytes :
    SegmentSizes.srcdatapoolBase { defaultSizes with gasnetMemSizeInMb := 4096, registeredIbMemSizeInMb := 0 }
        0x7f0000000000 = 0x7f0000000000 ∧
      ¬ Consistent { defaultSizes with gasnetMemSizeInMb := 4096, registeredIbMemSizeInMb := 0 } 0x7f0000000000 := by
  refine ⟨by decide, fun h => ?_⟩
  have hpool := h.pool
  revert hpool
  decide

/-! ## The LMBs -/

/-- What `gasnet_getSegmentInfo` returns: every node has attached at least what was asked for, at addresses that are
not null and in the lower half of the address space. -/
structure Attached (z : SegmentSizes) (segmentInfo : ℕ → SegmentInfo) : Prop where
  size_ge : ∀ k < z.numNodes, z.attachSize ≤ (segmentInfo k).size
  addr_pos : ∀ k < z.numNodes, 0 < (segmentInfo k).addr
  addr_le : ∀ k < z.numNodes, (segmentInfo k).addr + (segmentInfo k).size ≤ 2 ^ 63

section Lmbs

variable (z : SegmentSizes) (maxMedium : ℕ) (segmentInfo : ℕ → SegmentInfo)

/-- The endpoint for `peer` on the node `my`. -/
def endpoint (my peer : ℕ) : EndpointConfig :=
  .ofSegments z.numLmbs z.lmbSize maxMedium segmentInfo my peer

/-- The sender writes its LMBs where the receiver looks for them. -/
def Agree : Prop :=
  ∀ a < z.numNodes, ∀ b < z.numNodes, a ≠ b → ∀ i < z.numLmbs,
    (endpoint z maxMedium segmentInfo a b).lmbWBases i = (endpoint z maxMedium segmentInfo b a).lmbRBases i

/-- The LMB `i` of the sender `a` in the segment of `k`. -/
def lmb (k a i : ℕ) : Area := ((endpoint z maxMedium segmentInfo a k).lmbWBases i, z.lmbSize)

/-- The LMBs in the segment of `k` are apart from each other and from the other areas, and inside the segment. -/
structure LmbsApart (k : ℕ) : Prop where
  disjoint : ∀ a < z.numNodes, ∀ i < z.numLmbs, ∀ a' < z.numNodes, ∀ i' < z.numLmbs, (a, i) ≠ (a', i') →
    Area.Disjoint (lmb z maxMedium segmentInfo k a i) (lmb z maxMedium segmentInfo k a' i')
  inside : ∀ a < z.numNodes, ∀ i < z.numLmbs, (segmentInfo k).addr ≤ (lmb z maxMedium segmentInfo k a i).1 ∧
    (lmb z maxMedium segmentInfo k a i).1 + z.lmbSize ≤ (segmentInfo k).addr + (segmentInfo k).size
  apart : ∀ a < z.numNodes, ∀ i < z.numLmbs, ∀ x ∈ z.memAreas (segmentInfo k).addr,
    Area.Disjoint x (lmb z maxMedium segmentInfo k a i)

end Lmbs

section Lmbs

variable {z : SegmentSizes} (maxMedium : ℕ) {segmentInfo : ℕ → SegmentInfo} {a i k : ℕ}

/-- The LMBs of all nodes are numbered. -/
theorem number_lt (ha : a < z.numNodes) (hi : i < z.numLmbs) : a * z.numLmbs + i < z.numNodes * z.numLmbs := by
  have h : (a + 1) * z.numLmbs ≤ z.numNodes * z.numLmbs := Nat.mul_le_mul_right _ ha
  rw [Nat.succ_mul] at h
  omega

theorem exists_number {j : ℕ} (hj : j < z.numNodes * z.numLmbs) :
    ∃ a < z.numNodes, ∃ i < z.numLmbs, a * z.numLmbs + i = j := by
  have hpos : 0 < z.numLmbs := Nat.pos_of_mul_pos_left (Nat.zero_lt_of_lt hj)
  exact ⟨j / z.numLmbs, Nat.div_lt_of_lt_mul (Nat.mul_comm _ _ ▸ hj), j % z.numLmbs, Nat.mod_lt _ hpos,
    Nat.div_add_mod' j z.numLmbs⟩

theorem number_inj {a' i' : ℕ} (hi : i < z.numLmbs) (hi' : i' < z.numLmbs)
    (h : a * z.numLmbs + i = a' * z.numLmbs + i') : (a, i) = (a', i') := by
  have hpos : 0 < z.numLmbs := by omega
  have hdiv : ∀ a i, i < z.numLmbs → (a * z.numLmbs + i) / z.numLmbs = a := by
    intro a i hi
    rw [Nat.mul_comm, Nat.mul_add_div hpos, Nat.div_eq_of_lt hi, Nat.add_zero]
  obtain rfl : a = a' := by rw [← hdiv a i hi, h, hdiv a' i' hi']
  exact Prod.ext rfl (Nat.add_left_cancel h)

/-- Where the sender `a` writes its LMB `i`. -/
theorem lmb_fst (k a i : ℕ) : (lmb z maxMedium segmentInfo k a i).1 =
    uint64 ((segmentInfo k).addr + ((segmentInfo k).size - z.lmbSize * int32 (a * z.numLmbs + i + 1))) := by
  simp only [lmb, endpoint, EndpointConfig.ofSegments]

/-! Agreement and room tell that nothing has wrapped. -/

/-- A product with the number `-2 ^ 31` is one with `2 ^ 31` for multiples of four gigabytes only. -/
theorem emod_of_wrapped {x n : ℤ} (h : (x - n * -2 ^ 31) % 2 ^ 64 = (x - n * 2 ^ 31) % 2 ^ 64) : n % 2 ^ 32 = 0 := by
  omega

theorem not_inside_of_wrapped {addr size n : ℤ} (haddr : 0 < addr) (hle : addr + size ≤ 2 ^ 63) (hn : 1 ≤ n)
    (hmult : n % 2 ^ 32 = 0) (hlo : addr ≤ (addr + (size - n * -2 ^ 31)) % 2 ^ 64) :
    addr + size < (addr + (size - n * -2 ^ 31)) % 2 ^ 64 + n := by
  omega

/-- **The `int` products do not wrap**: the LMB with the number `2 ^ 31` is written behind the segment. -/
theorem counted_of_agree (hs : z.IsSized) (h : Attached z segmentInfo) (hagree : Agree z maxMedium segmentInfo)
    (hapart : ∀ k < z.numNodes, LmbsApart z maxMedium segmentInfo k) : z.numNodes * z.numLmbs < 2 ^ 31 := by
  by_contra hge
  obtain ⟨a, ha, i, hi, hai⟩ := exists_number (z := z) (j := 2 ^ 31 - 1) (by omega)
  have hlmbs := hs.numLmbs_lt
  have hne : a ≠ 0 := by
    rintro rfl
    omega
  have hnumber : (a : ℤ) * z.numLmbs + i + 1 = 2 ^ 31 := by
    have hcast : ((a * z.numLmbs + i : ℕ) : ℤ) = (2 ^ 31 - 1 : ℕ) := congrArg Nat.cast hai
    push_cast at hcast
    omega
  have hfirst : int32 1 = 1 := int32_eq_self (by decide) (by decide)
  have hwrap : int32 (2 ^ 31) = -2 ^ 31 := by decide +kernel
  have haddr := h.addr_pos 0 hs.numNodes_pos
  have hle := h.addr_le 0 hs.numNodes_pos
  have hle' := h.addr_le a ha
  have hpos := hs.lmbSize_pos
  -- node 0 writes its first LMB at `a` to the right place, so that both segments have one size
  have hsame : (segmentInfo a).size = (segmentInfo 0).size := by
    have heq := hagree 0 hs.numNodes_pos a ha (Ne.symm hne) 0 hs.numLmbs_pos
    simp only [endpoint, EndpointConfig.ofSegments, Nat.cast_zero, zero_mul, zero_add, hfirst] at heq
    have hlt := hs.lmbSize_lt
    have hdiff := (uint64_inj (by omega) (by omega)).mp heq
    omega
  have hlast := hagree a ha 0 hs.numNodes_pos hne i hi
  obtain ⟨hlo, hhi⟩ := (hapart 0 hs.numNodes_pos).inside a ha i hi
  rw [lmb_fst, hnumber, hwrap] at hlo hhi
  simp only [endpoint, EndpointConfig.ofSegments, hnumber, hwrap, hsame] at hlast
  -- it writes its LMB `2 ^ 31` to where it is looked for, so that the LMBs are multiples of four gigabytes
  have hmult : (z.lmbSize : ℤ) % 2 ^ 32 = 0 := by
    rw [← Int.natCast_inj, uint64_cast, uint64_cast, ← add_sub_assoc, ← add_sub_assoc] at hlast
    exact emod_of_wrapped hlast
  rw [← Int.ofNat_le, uint64_cast] at hlo
  rw [← Int.ofNat_le, Nat.cast_add, uint64_cast] at hhi
  exact absurd hhi (not_le.mpr (not_inside_of_wrapped (by omega) (by omega) (by omega) hmult hlo))

/-- The number of an LMB is an `int`. -/
theorem number_succ_lt (hcounted : z.numNodes * z.numLmbs < 2 ^ 31) (ha : a < z.numNodes) (hi : i < z.numLmbs) :
    a * z.numLmbs + i + 1 < 2 ^ 31 :=
  Nat.lt_of_le_of_lt (number_lt ha hi) hcounted

theorem size_eq_of_agree (hs : z.IsSized) (h : Attached z segmentInfo) (hcounted : z.numNodes * z.numLmbs < 2 ^ 31)
    (hagree : Agree z maxMedium segmentInfo) :
    ∀ a < z.numNodes, ∀ b < z.numNodes, (segmentInfo a).size = (segmentInfo b).size := by
  intro a ha b hb
  rcases eq_or_ne a b with rfl | hne
  · rfl
  · have heq := hagree a ha b hb hne 0 hs.numLmbs_pos
    have hlt := number_succ_lt hcounted ha hs.numLmbs_pos
    have h1 := h.addr_le a ha
    have h2 := h.addr_le b hb
    simp only [endpoint, EndpointConfig.ofSegments, int32_lmbNumber (i := 0) hlt,
      emod_lmbNumber (i := 0) hlt] at heq
    have hdiff := (uint64_inj (by omega) (by omega)).mp heq
    omega

/-- **The LMBs have room in the segment**, by induction from its end. -/
theorem room_of_apart (hs : z.IsSized) (h : Attached z segmentInfo) (hcounted : z.numNodes * z.numLmbs < 2 ^ 31)
    (hk : k < z.numNodes) (hapart : LmbsApart z maxMedium segmentInfo k) :
    ∀ j ≤ z.numNodes * z.numLmbs, z.lmbSize * j ≤ (segmentInfo k).size := by
  intro j
  induction j with
  | zero => exact fun _ => Nat.zero_le _
  | succ j ih =>
    intro hj
    have hroom := ih (by omega)
    obtain ⟨a, ha, i, hi, rfl⟩ := exists_number (z := z) hj
    obtain ⟨hlo, hhi⟩ := hapart.inside a ha i hi
    rw [lmb_fst, int32_lmbNumber (number_succ_lt hcounted ha hi)] at hlo hhi
    have hlt := hs.lmbSize_lt
    have haddr := h.addr_le k hk
    have hsucc : z.lmbSize * (a * z.numLmbs + i + 1) = z.lmbSize * (a * z.numLmbs + i) + z.lmbSize := Nat.mul_succ _ _
    rw [← Nat.cast_mul, hsucc] at hlo hhi
    rw [← Int.ofNat_le, uint64_cast] at hlo
    rw [← Int.ofNat_le, Nat.cast_add, uint64_cast] at hhi
    rw [hsucc]
    by_contra hgt
    omega

/-- A distance behind the memories lies in the pool when the sizes together do not fit into a `size_t`. -/
theorem pool_offset {o pool lmbs size : ℕ} (hz : z.IsInt) (ho : z.memBytes ≤ o) (hroom : size = lmbs + o)
    (hsize : size < 2 ^ 63) (hge : ¬ z.memBytes + pool + lmbs < 2 ^ 64) :
    shifted z ≤ o ∧ (o : ℤ) < shifted z + pool ∧ (o : ℤ) - shifted z < 2 ^ 64 := by
  obtain ⟨hlo, hhi⟩ := shifted_bounds z
  have hmem := memBytes_lt hz
  generalize z.memBytes = m at *
  generalize shifted z = sh at *
  refine ⟨?_, ?_, ?_⟩
  · omega
  · omega
  · omega

/-- **What is asked for does not wrap**: the lowest LMB would meet the memories or the pool. -/
theorem total_of_apart (hz : z.IsInt) (hs : z.IsSized) (h : Attached z segmentInfo)
    (hcounted : z.numNodes * z.numLmbs < 2 ^ 31) (hk : k < z.numNodes) (hapart : LmbsApart z maxMedium segmentInfo k) :
    z.memBytes + z.srcdatapoolSize + z.numNodes * z.numLmbs * z.lmbSize < 2 ^ 64 := by
  by_contra hge
  have hpos : 0 < z.numNodes * z.numLmbs := Nat.mul_pos hs.numNodes_pos hs.numLmbs_pos
  have hroom := room_of_apart maxMedium hs h hcounted hk hapart _ le_rfl
  obtain ⟨a, ha, i, hi, hai⟩ := exists_number (z := z) (j := z.numNodes * z.numLmbs - 1) (by omega)
  have haddr := h.addr_le k hk
  have haddr0 := h.addr_pos k hk
  have hcomm : z.numNodes * z.numLmbs * z.lmbSize = z.lmbSize * (z.numNodes * z.numLmbs) := Nat.mul_comm _ _
  obtain ⟨o, ho⟩ := Nat.exists_eq_add_of_le hroom
  have hfst : (lmb z maxMedium segmentInfo k a i).1 = (segmentInfo k).addr + o := by
    rw [lmb_fst, int32_lmbNumber (number_succ_lt hcounted ha hi), ← Int.natCast_inj, uint64_eq_self]
    all_goals
      rw [hai, Nat.sub_add_cancel hpos, ← Nat.cast_mul, ho]
      omega
  have hmem : Mem ((segmentInfo k).addr + o) (lmb z maxMedium segmentInfo k a i) := by
    refine ⟨by omega, ?_⟩
    rw [hfst, sub_self]
    exact hs.lmbSize_pos
  have hclear : ∀ x ∈ z.memAreas (segmentInfo k).addr, ¬ Mem ((segmentInfo k).addr + o) x :=
    fun x hx hxo => hapart.apart a ha i hi x hx _ hxo hmem
  have hmemBytes := memBytes_lt hz
  have hfirst : uint64 ((segmentInfo k).addr : ℤ) = uint64 ((segmentInfo k).addr + 0) := by
    rw [add_zero]
  simp only [memAreas, regmemBase, regIbMemBase, srcdatapoolBase_eq, hfirst, List.mem_cons, List.not_mem_nil, or_false,
    forall_eq_or_imp, forall_eq] at hclear
  obtain ⟨h1, h2, h3, h4⟩ := hclear
  have hbase : (segmentInfo k).addr + o < 2 ^ 64 := by omega
  by_cases ho1 : o < z.gasnetMemSizeInMb * 2 ^ 20
  · exact h1 (mem_of_offset (by omega) (by omega) (by omega) hbase)
  by_cases ho2 : o < z.gasnetMemSizeInMb * 2 ^ 20 + z.registeredMemSizeInMb * 2 ^ 20
  · exact h2 (mem_of_offset (by omega) (by omega) (by omega) hbase)
  by_cases ho3 : o < z.memBytes
  · exact h3 (mem_of_offset (by omega) (by unfold memBytes at ho3; omega) (by omega) hbase)
  · rw [hcomm] at hge
    obtain ⟨hlo, hhi, hlen⟩ := pool_offset hz (Nat.not_lt.mp ho3) ho (by omega) hge
    exact h4 (mem_of_offset hlo hhi hlen hbase)

/-! Without wraps every LMB is where its number puts it. -/

theorem attachSize_eq (hfit : z.LmbsFit) :
    z.attachSize = z.memBytes + z.srcdatapoolSize + z.numNodes * z.numLmbs * z.lmbSize := by
  obtain ⟨hcounted, htotal⟩ := hfit
  have hint : int32 ((z.numNodes : ℤ) * z.numLmbs) = (z.numNodes * z.numLmbs : ℕ) := by
    rw [← Nat.cast_mul]
    exact int32_eq_self (by omega) (by omega)
  have hlmbs : z.totalLmbSize = z.numNodes * z.numLmbs * z.lmbSize := by
    rw [totalLmbSize, hint, ← Nat.cast_mul, ← Int.natCast_inj, uint64_eq_self (by omega) (by omega)]
  rw [← Int.natCast_inj, attachSize, totalBytes, hlmbs, uint64_eq_self (by omega) (by omega)]

/-- The bytes from an LMB to the end of its segment. -/
theorem lmb_room (ha : a < z.numNodes) (hi : i < z.numLmbs) :
    z.lmbSize * (a * z.numLmbs + i + 1) ≤ z.numNodes * z.numLmbs * z.lmbSize := by
  rw [Nat.mul_comm]
  exact Nat.mul_le_mul_right _ (number_lt ha hi)

theorem lmb_eq (hfit : z.LmbsFit) (h : Attached z segmentInfo) (hk : k < z.numNodes) (ha : a < z.numNodes)
    (hi : i < z.numLmbs) : (lmb z maxMedium segmentInfo k a i).1 =
      (segmentInfo k).addr + ((segmentInfo k).size - z.lmbSize * (a * z.numLmbs + i + 1)) := by
  have h1 := lmb_room ha hi
  have h2 := h.size_ge k hk
  have h3 := h.addr_le k hk
  rw [attachSize_eq hfit] at h2
  rw [lmb_fst, int32_lmbNumber (number_succ_lt hfit.counted ha hi), ← Nat.cast_mul, ← Int.natCast_inj,
    uint64_eq_self (by omega) (by omega)]
  omega

theorem agree_of_same_size (hfit : z.LmbsFit)
    (hsame : ∀ a < z.numNodes, ∀ b < z.numNodes, (segmentInfo a).size = (segmentInfo b).size) :
    Agree z maxMedium segmentInfo := by
  intro a ha b hb _ i hi
  have hlt := number_succ_lt hfit.counted ha hi
  simp only [endpoint, EndpointConfig.ofSegments, int32_lmbNumber hlt, emod_lmbNumber hlt, hsame a ha b hb]

/-- An LMB lies between the pool and the end of the segment. -/
theorem lmb_bounds (hfit : z.LmbsFit) (h : Attached z segmentInfo) (hk : k < z.numNodes) (ha : a < z.numNodes)
    (hi : i < z.numLmbs) :
    (segmentInfo k).addr + (z.memBytes + z.srcdatapoolSize) ≤ (lmb z maxMedium segmentInfo k a i).1 ∧
      (lmb z maxMedium segmentInfo k a i).1 + z.lmbSize ≤ (segmentInfo k).addr + (segmentInfo k).size := by
  have h1 := lmb_room ha hi
  have h2 := h.size_ge k hk
  have h3 : z.lmbSize * (a * z.numLmbs + i + 1) = z.lmbSize * (a * z.numLmbs + i) + z.lmbSize := Nat.mul_succ _ _
  rw [attachSize_eq hfit] at h2
  rw [lmb_eq maxMedium hfit h hk ha hi]
  omega

/-- The later LMB is the lower one. -/
theorem lmb_lt_of_number_lt (hfit : z.LmbsFit) (h : Attached z segmentInfo) {a' i' : ℕ} (hk : k < z.numNodes)
    (ha : a < z.numNodes) (hi : i < z.numLmbs) (ha' : a' < z.numNodes) (hi' : i' < z.numLmbs)
    (hlt : a * z.numLmbs + i < a' * z.numLmbs + i') :
    (lmb z maxMedium segmentInfo k a' i').1 + z.lmbSize ≤ (lmb z maxMedium segmentInfo k a i).1 := by
  have h1 := lmb_room ha' hi'
  have h2 := h.size_ge k hk
  have h3 : z.lmbSize * (a' * z.numLmbs + i' + 1) = z.lmbSize * (a' * z.numLmbs + i') + z.lmbSize := Nat.mul_succ _ _
  have h4 : z.lmbSize * (a * z.numLmbs + i + 1) ≤ z.lmbSize * (a' * z.numLmbs + i') := Nat.mul_le_mul_left _ hlt
  rw [attachSize_eq hfit] at h2
  rw [lmb_eq maxMedium hfit h hk ha' hi', lmb_eq maxMedium hfit h hk ha hi]
  omega

/-- The pool is never behind its place, so that it does not reach the LMBs. -/
theorem memAreas_disjoint (segment : ℕ) {y : Area} (hlo : segment + (z.memBytes + z.srcdatapoolSize) ≤ y.1)
    (hhi : y.1 + y.2 ≤ 2 ^ 63) : ∀ x ∈ z.memAreas segment, Area.Disjoint x y := by
  have hbounds := shifted_bounds z
  have hfirst : uint64 (segment : ℤ) = uint64 (segment + 0) := by
    rw [add_zero]
  unfold memBytes at *
  simp only [memAreas, regmemBase, regIbMemBase, srcdatapoolBase_eq, hfirst, List.mem_cons, List.not_mem_nil, or_false,
    forall_eq_or_imp, forall_eq]
  refine ⟨?_, ?_, ?_, ?_⟩
  all_goals exact disjoint_of_offset_le (by omega) (by omega) hhi

theorem lmbsApart (hfit : z.LmbsFit) (h : Attached z segmentInfo) (hk : k < z.numNodes) :
    LmbsApart z maxMedium segmentInfo k where
  disjoint := by
    intro a ha i hi a' ha' i' hi' hne
    have haddr := h.addr_le k hk
    have h1 := lmb_bounds maxMedium hfit h hk ha hi
    have h2 := lmb_bounds maxMedium hfit h hk ha' hi'
    rcases Nat.lt_trichotomy (a * z.numLmbs + i) (a' * z.numLmbs + i') with hlt | heq | hgt
    · have hbelow := lmb_lt_of_number_lt maxMedium hfit h hk ha hi ha' hi' hlt
      exact (disjoint_of_le hbelow (by simp only [lmb] at *; omega)).symm
    · exact absurd (number_inj hi hi' heq) hne
    · have hbelow := lmb_lt_of_number_lt maxMedium hfit h hk ha' hi' ha hi hgt
      exact disjoint_of_le hbelow (by simp only [lmb] at *; omega)
  inside := by
    intro a ha i hi
    have h1 := lmb_bounds maxMedium hfit h hk ha hi
    omega
  apart := by
    intro a ha i hi
    have haddr := h.addr_le k hk
    have h1 := lmb_bounds maxMedium hfit h hk ha hi
    exact memAreas_disjoint _ h1.1 (by simp only [lmb] at *; omega)

end Lmbs

/-- **The LMBs.**  Sender and receiver agree on them, and they lie apart from everything else in their segment,
exactly when all segments have the same size and nothing wraps: neither the `int` that counts the LMBs of a segment nor
the size that is asked for. -/
theorem lmbs_agree_iff (z : SegmentSizes) (maxMedium : ℕ) (segmentInfo : ℕ → SegmentInfo) (hz : z.IsInt)
    (hs : z.IsSized) (h : Attached z segmentInfo) :
    (Agree z maxMedium segmentInfo ∧ ∀ k < z.numNodes, LmbsApart z maxMedium segmentInfo k) ↔
      z.LmbsFit ∧ ∀ a < z.numNodes, ∀ b < z.numNodes, (segmentInfo a).size = (segmentInfo b).size := by
  constructor
  · rintro ⟨hagree, hapart⟩
    have hcounted := counted_of_agree maxMedium hs h hagree hapart
    have hnode := hs.numNodes_pos
    exact ⟨⟨hcounted, total_of_apart maxMedium hz hs h hcounted hnode (hapart 0 hnode)⟩,
      size_eq_of_agree maxMedium hs h hcounted hagree⟩
  · rintro ⟨hfit, hsame⟩
    exact ⟨agree_of_same_size maxMedium hfit hsame, fun k hk => lmbsApart maxMedium hfit h hk⟩

/-- Two nodes whose segments differ in their addresses only. -/
theorem lmbs_agree_default :
    Agree defaultSizes 512 (fun k => ⟨0x7f0000000000 + k * 2 ^ 32, 2 ^ 30⟩) ∧
      ∀ k < 2, LmbsApart defaultSizes 512 (fun k => ⟨0x7f0000000000 + k * 2 ^ 32, 2 ^ 30⟩) k :=
  (lmbs_agree_iff defaultSizes 512 (fun k => ⟨0x7f0000000000 + k * 2 ^ 32, 2 ^ 30⟩)
    ⟨by decide, by decide, by decide⟩ ⟨by decide, by decide, by decide, by decide, by decide, by decide⟩
    ⟨fun k _ => by simp only; decide +kernel, fun k _ => by simp only; omega,
      fun k hk => by simp only [defaultSizes] at *; omega⟩).mpr ⟨⟨by decide, by decide⟩, fun _ _ _ _ => rfl⟩

/-- The segment of node 1 is a page longer: node 0 writes a page behind the place where node 1 looks. -/
theorem not_agree_longer_segment :
    Attached defaultSizes (fun k => ⟨0x7f0000000000, 2 ^ 30 + k * 4096⟩) ∧
      ¬ Agree defaultSizes 512 (fun k => ⟨0x7f0000000000, 2 ^ 30 + k * 4096⟩) := by
  refine ⟨⟨fun k hk => ?_, fun k hk => ?_, fun k hk => ?_⟩, fun h => ?_⟩
  · have hattach : defaultSizes.attachSize ≤ 2 ^ 30 := by decide +kernel
    simp only
    omega
  · simp only
    omega
  · simp only [defaultSizes] at *
    omega
  · exact absurd (h 0 (by decide) 1 (by decide) (by decide) 0 (by decide)) (by decide +kernel)

end Segments

end Realm

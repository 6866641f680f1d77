import Mathlib.Data.Set.Function
import Realm.Lib.Overlay
import Realm.Endpoint.Payload

/-!
# Realm.Mem.Striped — the global memory, striped over the nodes (`GASNetMemory` in `templates/mem_impl.cc`)

The global memory is cut into blocks of `memory_stride` bytes that are dealt out to the nodes in turn.  A
transfer to another node is an `MPI_Get` or `MPI_Put`, which takes effect at the next `Win_flush` of its target.

* `place`: the node and the window displacement of a global offset; `place_bijOn`: it is a bijection.
* `plainTransfers`: the transfers of `get_bytes` and `put_bytes`, in order; `TransferOf`: where they go.
* `Rma`: the windows, the memory of the caller, and its outstanding transfers.
* `getBytes`, `putBytes`, `getHomeNode`: the member functions.
* `striped_flat`: together they are one flat array.
-/

namespace Realm.Striped

open Lib

/-! ## Layout -/

/-- The members of `GASNetMemory`; `sizePerNode` is what each node contributes. -/
structure Layout where
  numNodes : ℕ
  memoryStride : ℕ
  sizePerNode : ℕ
  nodes_pos : 1 ≤ numNodes
  stride_pos : 1 ≤ memoryStride
  dvd : memoryStride ∣ sizePerNode

namespace Layout

variable (L : Layout)

/-- `MEMORY_STRIDE` -/
def MEMORY_STRIDE : ℕ := 1024

/-- `size` -/
def size : ℕ := L.sizePerNode * L.numNodes

def blkid (offset : ℕ) : ℕ := offset / L.memoryStride / L.numNodes

def node (offset : ℕ) : ℕ := offset / L.memoryStride % L.numNodes

def blkoffset (offset : ℕ) : ℕ := offset % L.memoryStride

/-- The window displacement of an offset. -/
def disp (offset : ℕ) : ℕ := L.blkid offset * L.memoryStride + L.blkoffset offset

def place (offset : ℕ) : ℕ × ℕ := (L.node offset, L.disp offset)

/-- The offset that has a place. -/
def unplace (p : ℕ × ℕ) : ℕ :=
  (p.2 / L.memoryStride * L.numNodes + p.1) * L.memoryStride + p.2 % L.memoryStride

/-- `get_home_node`; an empty range at 0 ends before its start. -/
def getHomeNode (offset size : ℕ) : ℤ :=
  let startBlk : ℤ := offset / L.memoryStride
  let endBlk : ℤ := (offset + size - 1) / L.memoryStride
  if startBlk ≠ endBlk then -1 else startBlk % L.numNodes

variable {L} {o i : ℕ}

theorem node_lt (o : ℕ) : L.node o < L.numNodes := Nat.mod_lt _ L.nodes_pos

theorem blkoffset_lt (o : ℕ) : L.blkoffset o < L.memoryStride := Nat.mod_lt _ L.stride_pos

theorem div_add_of_lt (h : L.blkoffset o + i < L.memoryStride) : (o + i) / L.memoryStride = o / L.memoryStride := by
  have hdiv := Nat.div_add_mod o L.memoryStride
  unfold blkoffset at h
  rw [show o + i = (o % L.memoryStride + i) + L.memoryStride * (o / L.memoryStride) by omega,
    Nat.add_mul_div_left _ _ L.stride_pos, Nat.div_eq_of_lt h, Nat.zero_add]

/-- **Inside a block** the places are consecutive. -/
theorem place_add (h : L.blkoffset o + i < L.memoryStride) : L.place (o + i) = (L.node o, L.disp o + i) := by
  have hdiv := div_add_of_lt h
  have hmod : L.blkoffset (o + i) = L.blkoffset o + i := by
    unfold blkoffset at h ⊢
    rw [← Nat.mod_add_mod, Nat.mod_eq_of_lt h]
  simp only [place, node, disp, blkid, hdiv, hmod, Nat.add_assoc]

theorem unplace_place (o : ℕ) : L.unplace (L.place o) = o := by
  have hdisp : L.disp o / L.memoryStride = L.blkid o := by
    rw [disp, Nat.mul_comm, Nat.mul_add_div L.stride_pos, Nat.div_eq_of_lt (blkoffset_lt o), Nat.add_zero]
  have hmod : L.disp o % L.memoryStride = L.blkoffset o := by
    rw [disp, Nat.mul_comm, Nat.mul_add_mod, Nat.mod_eq_of_lt (blkoffset_lt o)]
  rw [unplace, place, hdisp, hmod, blkid, node, Nat.mul_comm (o / L.memoryStride / L.numNodes), Nat.div_add_mod,
    Nat.mul_comm, blkoffset, Nat.div_add_mod]

theorem place_injective : Function.Injective L.place := fun o o' h => by
  rw [← L.unplace_place o, h, L.unplace_place]

theorem place_unplace {p : ℕ × ℕ} (hp : p.1 < L.numNodes) : L.place (L.unplace p) = p := by
  have hmod := Nat.mod_lt p.2 L.stride_pos
  have hdiv : L.unplace p / L.memoryStride = p.2 / L.memoryStride * L.numNodes + p.1 := by
    rw [unplace, Nat.mul_comm, Nat.mul_add_div L.stride_pos, Nat.div_eq_of_lt hmod, Nat.add_zero]
  have hoff : L.blkoffset (L.unplace p) = p.2 % L.memoryStride := by
    rw [blkoffset, unplace, Nat.mul_comm, Nat.mul_add_mod, Nat.mod_eq_of_lt hmod]
  have hnode : L.node (L.unplace p) = p.1 := by
    rw [node, hdiv, Nat.mul_comm, Nat.mul_add_mod, Nat.mod_eq_of_lt hp]
  have hblk : L.blkid (L.unplace p) = p.2 / L.memoryStride := by
    rw [blkid, hdiv, Nat.mul_comm, Nat.mul_add_div L.nodes_pos, Nat.div_eq_of_lt hp, Nat.add_zero]
  have hdisp : L.disp (L.unplace p) = p.2 := by
    rw [disp, hblk, hoff, Nat.mul_comm, Nat.div_add_mod]
  rw [place, hnode, hdisp]

/-- The block of an offset inside the memory lies inside a window. -/
theorem block_le (h : o < L.size) : (L.blkid o + 1) * L.memoryStride ≤ L.sizePerNode := by
  obtain ⟨q, hq⟩ := L.dvd
  rw [size, hq, Nat.mul_assoc] at h
  have h1 : o / L.memoryStride < q * L.numNodes := Nat.div_lt_of_lt_mul h
  have h2 : L.blkid o < q := Nat.div_lt_of_lt_mul (by rwa [Nat.mul_comm])
  rw [hq, Nat.mul_comm]
  exact Nat.mul_le_mul_left _ h2

theorem disp_lt (h : o < L.size) : L.disp o < L.sizePerNode := by
  have hblock := block_le h
  have hoff := L.blkoffset_lt o
  rw [Nat.succ_mul] at hblock
  unfold disp
  omega

theorem unplace_lt {p : ℕ × ℕ} (h1 : p.1 < L.numNodes) (h2 : p.2 < L.sizePerNode) : L.unplace p < L.size := by
  obtain ⟨q, hq⟩ := L.dvd
  have hmod := Nat.mod_lt p.2 L.stride_pos
  have hdiv : p.2 / L.memoryStride + 1 ≤ q := Nat.div_lt_of_lt_mul (hq ▸ h2)
  calc L.unplace p
      < (p.2 / L.memoryStride * L.numNodes + p.1) * L.memoryStride + L.memoryStride :=
        Nat.add_lt_add_left hmod _
    _ = (p.2 / L.memoryStride * L.numNodes + p.1 + 1) * L.memoryStride := (Nat.succ_mul _ _).symm
    _ ≤ ((p.2 / L.memoryStride + 1) * L.numNodes) * L.memoryStride := by
        apply Nat.mul_le_mul_right
        rw [Nat.succ_mul]
        omega
    _ ≤ (q * L.numNodes) * L.memoryStride := Nat.mul_le_mul_right _ (Nat.mul_le_mul_right _ hdiv)
    _ = L.size := by
        rw [size, hq, Nat.mul_comm, Nat.mul_assoc]

/-- **The stripes** map the global memory one to one onto the windows. -/
theorem place_bijOn : Set.BijOn L.place {o | o < L.size} {p | p.1 < L.numNodes ∧ p.2 < L.sizePerNode} := by
  refine ⟨fun o ho => ⟨node_lt o, disp_lt ho⟩, place_injective.injOn, ?_⟩
  rintro p ⟨h1, h2⟩
  exact ⟨L.unplace p, unplace_lt h1 h2, place_unplace h1⟩

/-- When a range has a home node, all of it lives there. -/
theorem node_of_getHomeNode {offset size : ℕ} (h : 0 ≤ L.getHomeNode offset size) (hlo : offset ≤ o)
    (hhi : o < offset + size) : (L.node o : ℤ) = L.getHomeNode offset size := by
  have hlast : (offset + size - 1 : ℤ) = ((offset + size - 1 : ℕ) : ℤ) := by omega
  unfold getHomeNode at h ⊢
  rw [hlast] at h ⊢
  simp only [← Int.natCast_ediv, ← Int.natCast_emod] at h ⊢
  split at h
  · omega
  · rename_i heq
    rw [if_neg heq]
    have h1 : offset / L.memoryStride ≤ o / L.memoryStride := Nat.div_le_div_right hlo
    have h2 : o / L.memoryStride ≤ (offset + size - 1) / L.memoryStride := Nat.div_le_div_right (by omega)
    rw [node, show o / L.memoryStride = offset / L.memoryStride by omega]

end Layout

/-! ## Transfers -/

/-- One chunk: `len` bytes at displacement `disp` of the window of `node`, and at `pos` in the caller's memory. -/
structure Transfer where
  node : ℕ
  disp : ℕ
  pos : ℕ
  len : ℕ
deriving DecidableEq

/-- The loop of `get_bytes` and `put_bytes`, which finds the place of every chunk by division. -/
def plainTransfers (L : Layout) (offset pos size : ℕ) : List Transfer :=
  if _h : size > 0 then
    let chunkSize := if L.memoryStride - L.blkoffset offset > size then size
      else L.memoryStride - L.blkoffset offset
    ⟨L.node offset, L.blkid offset * L.memoryStride + L.blkoffset offset, pos, chunkSize⟩ ::
      plainTransfers L (offset + chunkSize) (pos + chunkSize) (size - chunkSize)
  else []
termination_by size
decreasing_by
  have := L.blkoffset_lt offset
  split <;> omega

theorem plainTransfers_zero (L : Layout) (offset pos : ℕ) : plainTransfers L offset pos 0 = [] := by
  rw [plainTransfers, dif_neg (by omega)]

/-- The number of bytes of the first chunk. -/
def chunk (L : Layout) (offset size : ℕ) : ℕ := min (L.memoryStride - L.blkoffset offset) size

theorem chunk_pos (L : Layout) (offset : ℕ) {size : ℕ} (h : 0 < size) : 0 < chunk L offset size := by
  have := L.blkoffset_lt offset
  unfold chunk
  omega

theorem plainTransfers_succ (L : Layout) (offset pos : ℕ) {size : ℕ} (h : 0 < size) :
    plainTransfers L offset pos size =
      ⟨L.node offset, L.disp offset, pos, chunk L offset size⟩ ::
        plainTransfers L (offset + chunk L offset size) (pos + chunk L offset size)
          (size - chunk L offset size) := by
  have hchunk : (if L.memoryStride - L.blkoffset offset > size then size
      else L.memoryStride - L.blkoffset offset) = chunk L offset size := by
    unfold chunk
    split <;> omega
  rw [plainTransfers, dif_pos h]
  simp only [hchunk]
  rfl

/-- **What a transfer is**: its bytes are consecutive in the global memory from some `r < size` on, and their
places are the bytes of a window. -/
structure TransferOf (L : Layout) (offset pos size : ℕ) (t : Transfer) (r : ℕ) : Prop where
  pos_eq : t.pos = pos + r
  len_pos : 0 < t.len
  le : r + t.len ≤ size
  place : ∀ i < t.len, L.place (offset + r + i) = (t.node, t.disp + i)

theorem transferOf_of_mem {L : Layout} {offset pos size : ℕ} {t : Transfer}
    (h : t ∈ plainTransfers L offset pos size) : ∃ r, TransferOf L offset pos size t r := by
  induction size using Nat.strong_induction_on generalizing offset pos with
  | h size ih =>
    rcases Nat.eq_zero_or_pos size with rfl | hpos
    · rw [plainTransfers_zero] at h
      simp at h
    · have hc := chunk_pos L offset hpos
      have hcle : chunk L offset size ≤ size := Nat.min_le_right _ _
      have hcblk : chunk L offset size ≤ L.memoryStride - L.blkoffset offset := Nat.min_le_left _ _
      rw [plainTransfers_succ L offset pos hpos] at h
      rcases List.mem_cons.mp h with rfl | h
      · refine ⟨0, rfl, hc, by simpa using hcle, fun i hi => ?_⟩
        simp only at hi
        rw [Nat.add_zero]
        exact Layout.place_add (by omega)
      · obtain ⟨r, h1, h2, h3, h4⟩ := ih (size - chunk L offset size) (by omega) h
        refine ⟨chunk L offset size + r, by omega, h2, by omega, fun i hi => ?_⟩
        rw [← Nat.add_assoc]
        exact h4 i hi

/-- Every byte of the range is moved by some transfer. -/
theorem exists_transfer (L : Layout) (offset pos : ℕ) {size j : ℕ} (hj : j < size) :
    ∃ t ∈ plainTransfers L offset pos size, t.pos ≤ pos + j ∧ pos + j < t.pos + t.len := by
  induction size using Nat.strong_induction_on generalizing offset pos j with
  | h size ih =>
    have hpos : 0 < size := by omega
    have hc := chunk_pos L offset hpos
    rw [plainTransfers_succ L offset pos hpos]
    by_cases hlt : j < chunk L offset size
    · exact ⟨_, List.mem_cons_self, by simp, by simpa using hlt⟩
    · obtain ⟨t, ht, h1, h2⟩ := ih (size - chunk L offset size) (by omega) (offset + chunk L offset size)
        (pos + chunk L offset size) (j := j - chunk L offset size) (by omega)
      exact ⟨t, List.mem_cons_of_mem _ ht, by omega, by omega⟩

/-! ## One-sided communication -/

inductive Dir
  | get
  | put
deriving DecidableEq

/-- The windows of all nodes, addressed by node and displacement, the memory of the caller, which is apart from
them, and the transfers that the caller has issued but not completed. -/
structure Rma where
  win : ℕ × ℕ → Byte
  buf : ℕ → Byte
  pending : List (Dir × Transfer)

/-- What a `get` writes to the memory of the caller. -/
def Transfer.toBuf (win : ℕ × ℕ → Byte) (t : Transfer) (a : ℕ) : Option Byte :=
  if t.pos ≤ a ∧ a < t.pos + t.len then some (win (t.node, t.disp + (a - t.pos))) else none

/-- What a `put` writes to the windows. -/
def Transfer.toWin (buf : ℕ → Byte) (t : Transfer) (p : ℕ × ℕ) : Option Byte :=
  if p.1 = t.node ∧ t.disp ≤ p.2 ∧ p.2 < t.disp + t.len then some (buf (t.pos + (p.2 - t.disp))) else none

section Code

variable (L : Layout)

/-- The access stays inside the `size_per_node` bytes of a node. -/
def InWindow (t : Transfer) : Prop := t.node < L.numNodes ∧ t.disp + t.len ≤ L.sizePerNode

instance : DecidablePred (InWindow L) := fun _ => inferInstanceAs (Decidable (_ ∧ _))

/-- The effect of a transfer, be it a `memcpy` or one that completes; `none` if it leaves the global memory. -/
def complete (dir : Dir) (st : Rma) (t : Transfer) : Option Rma :=
  if InWindow L t then
    match dir with
    | .get => some { st with buf := overlay st.buf (t.toBuf st.win) }
    | .put => some { st with win := overlay st.win (t.toWin st.buf) }
  else none

/-- `MPI_Get` or `MPI_Put` -/
def issue (dir : Dir) (st : Rma) (t : Transfer) : Rma := { st with pending := st.pending ++ [(dir, t)] }

/-- `MPI_Win_flush(target)` -/
def winFlush (st : Rma) (target : ℕ) : Option Rma :=
  (st.pending.filter fun op => op.2.node = target).foldlM (fun st op => complete L op.1 st op.2)
    { st with pending := st.pending.filter fun op => op.2.node ≠ target }

/-- One round of `get_bytes` or `put_bytes` on the node `my`: `lock_epoch` flushes the target. -/
def plainTransfer (my : ℕ) (dir : Dir) (st : Rma) (t : Transfer) : Option Rma :=
  if t.node ≠ my then winFlush L (issue dir st t) t.node else complete L dir st t

/-- `GASNetMemory::get_bytes` -/
def getBytes (my : ℕ) (st : Rma) (offset dst size : ℕ) : Option Rma :=
  (plainTransfers L offset dst size).foldlM (plainTransfer L my .get) st

/-- `GASNetMemory::put_bytes` -/
def putBytes (my : ℕ) (st : Rma) (offset src size : ℕ) : Option Rma :=
  (plainTransfers L offset src size).foldlM (plainTransfer L my .put) st

end Code

/-! ## Completed transfers -/

section Complete

variable {L : Layout} {ts : List Transfer} {st : Rma}

/-- With nothing else outstanding, a flushed transfer has completed. -/
theorem plainTransfer_eq (my : ℕ) (dir : Dir) (hst : st.pending = []) (t : Transfer) :
    plainTransfer L my dir st t = complete L dir st t := by
  unfold plainTransfer
  split
  · have hissue : { issue dir st t with pending := [] } = st := by
      obtain ⟨win, buf, pending⟩ := st
      simp only at hst
      simp [issue, hst]
    unfold winFlush
    simp only [issue, hst, List.nil_append, List.filter_cons, decide_true, if_true, List.filter_nil, ne_eq,
      not_true, decide_false, Bool.false_eq_true, if_false]
    simp only [issue, hst, List.nil_append] at hissue
    rw [hissue, List.foldlM_cons]
    exact bind_pure _
  · rfl

theorem complete_pending {dir : Dir} {t : Transfer} {st' : Rma} (h : complete L dir st t = some st') :
    st'.pending = st.pending := by
  unfold complete at h
  split at h
  · cases dir with
    | get => exact (Option.some.inj h) ▸ rfl
    | put => exact (Option.some.inj h) ▸ rfl
  · simp at h

theorem foldlM_plainTransfer (my : ℕ) (dir : Dir) (hst : st.pending = []) (ts : List Transfer) :
    ts.foldlM (plainTransfer L my dir) st = ts.foldlM (complete L dir) st := by
  induction ts generalizing st with
  | nil => rfl
  | cons t ts ih =>
    rw [List.foldlM_cons, List.foldlM_cons, plainTransfer_eq my dir hst]
    cases hc : complete L dir st t with
    | none => rfl
    | some st' => exact ih ((complete_pending hc).trans hst)

theorem foldlM_get (h : ∀ t ∈ ts, InWindow L t) :
    ts.foldlM (complete L .get) st =
      some { st with buf := (ts.map fun t => t.toBuf st.win).foldl overlay st.buf } := by
  induction ts generalizing st with
  | nil => rfl
  | cons t ts ih =>
    have hfirst : complete L .get st t = some { st with buf := overlay st.buf (t.toBuf st.win) } := by
      rw [complete, if_pos (h t List.mem_cons_self)]
    rw [List.foldlM_cons, hfirst, Option.bind_eq_bind, Option.bind_some,
      ih fun t' ht' => h t' (List.mem_cons_of_mem t ht')]
    rfl

theorem foldlM_put (h : ∀ t ∈ ts, InWindow L t) :
    ts.foldlM (complete L .put) st =
      some { st with win := (ts.map fun t => t.toWin st.buf).foldl overlay st.win } := by
  induction ts generalizing st with
  | nil => rfl
  | cons t ts ih =>
    have hfirst : complete L .put st t = some { st with win := overlay st.win (t.toWin st.buf) } := by
      rw [complete, if_pos (h t List.mem_cons_self)]
    rw [List.foldlM_cons, hfirst, Option.bind_eq_bind, Option.bind_some,
      ih fun t' ht' => h t' (List.mem_cons_of_mem t ht')]
    rfl

end Complete

/-! ## The flat array -/

/-- The global memory, read by offset. -/
def flat (L : Layout) (win : ℕ × ℕ → Byte) (o : ℕ) : Byte := win (L.place o)

/-- `f` with the `size` bytes at `offset` replaced by those of `g`. -/
def splice (f : ℕ → Byte) (offset size : ℕ) (g : ℕ → Byte) (o : ℕ) : Byte :=
  if offset ≤ o ∧ o < offset + size then g (o - offset) else f o

section Flat

variable {L : Layout} {st : Rma} {offset pos size : ℕ}

/-- **No access leaves** the global memory. -/
theorem inWindow_of_mem (hsize : offset + size ≤ L.size) {t : Transfer}
    (ht : t ∈ plainTransfers L offset pos size) : InWindow L t := by
  obtain ⟨r, ⟨-, hlen, hle, hplace⟩⟩ := transferOf_of_mem ht
  -- the last byte of the transfer is in the window, hence all of them are
  have hlast := hplace (t.len - 1) (by omega)
  have hnode := L.node_lt (offset + r + (t.len - 1))
  have hdisp := L.disp_lt (o := offset + r + (t.len - 1)) (by omega)
  obtain ⟨h1, h2⟩ := Prod.mk.inj hlast
  exact ⟨by omega, by omega⟩

theorem foldl_toBuf (win : ℕ × ℕ → Byte) (buf : ℕ → Byte) :
    ((plainTransfers L offset pos size).map fun t => t.toBuf win).foldl overlay buf =
      splice buf pos size fun i => flat L win (offset + i) := by
  funext a
  unfold splice
  split
  · rename_i ha
    apply foldl_overlay_hit
    · intro w hw b hb
      obtain ⟨t, ht, rfl⟩ := List.mem_map.mp hw
      obtain ⟨r, ⟨hpos, -, -, hplace⟩⟩ := transferOf_of_mem ht
      unfold Transfer.toBuf at hb
      split at hb
      · have := hplace (a - t.pos) (by omega)
        rw [← Option.some.inj hb, ← this]
        show win (L.place _) = win (L.place _)
        congr 2
        omega
      · simp at hb
    · obtain ⟨t, ht, h1, h2⟩ := exists_transfer L offset pos (show a - pos < size by omega)
      refine ⟨_, List.mem_map.mpr ⟨t, ht, rfl⟩, ?_⟩
      rw [Transfer.toBuf, if_pos (by omega)]
      rfl
  · rename_i ha
    apply foldl_overlay_miss
    intro w hw
    obtain ⟨t, ht, rfl⟩ := List.mem_map.mp hw
    obtain ⟨r, ⟨hpos, -, hle, -⟩⟩ := transferOf_of_mem ht
    rw [Transfer.toBuf, if_neg (by omega)]

/-- A transfer reaches a place exactly when it is that of one of its bytes. -/
theorem TransferOf.toWin_eq {t : Transfer} {r : ℕ} (h : TransferOf L offset pos size t r) (buf : ℕ → Byte) (o : ℕ) :
    t.toWin buf (L.place o) =
      if offset + r ≤ o ∧ o < offset + r + t.len then some (buf (pos + (o - offset))) else none := by
  obtain ⟨hpos, -, -, hplace⟩ := h
  unfold Transfer.toWin
  by_cases ho : offset + r ≤ o ∧ o < offset + r + t.len
  · have hp := hplace (o - (offset + r)) (by omega)
    rw [show offset + r + (o - (offset + r)) = o by omega] at hp
    rw [hp, if_pos ⟨rfl, Nat.le_add_right _ _, by simp only; omega⟩, if_pos ho]
    congr 2
    simp only
    omega
  · rw [if_neg ho, if_neg]
    rintro ⟨h1, h2, h3⟩
    apply ho
    have hp := hplace ((L.place o).2 - t.disp) (by omega)
    have heq : L.place (offset + r + ((L.place o).2 - t.disp)) = L.place o := by
      rw [hp]
      exact Prod.ext h1.symm (by simp only; omega)
    have := L.place_injective heq
    omega

theorem foldl_toWin (win : ℕ × ℕ → Byte) (buf : ℕ → Byte) :
    flat L (((plainTransfers L offset pos size).map fun t => t.toWin buf).foldl overlay win) =
      splice (flat L win) offset size fun i => buf (pos + i) := by
  funext o
  unfold flat splice
  split
  · rename_i ho
    apply foldl_overlay_hit
    · intro w hw b hb
      obtain ⟨t, ht, rfl⟩ := List.mem_map.mp hw
      obtain ⟨r, hof⟩ := transferOf_of_mem ht
      rw [hof.toWin_eq] at hb
      split at hb
      · exact (Option.some.inj hb).symm
      · simp at hb
    · obtain ⟨t, ht, h1, h2⟩ := exists_transfer L offset pos (show o - offset < size by omega)
      obtain ⟨r, hof⟩ := transferOf_of_mem ht
      have hpos := hof.pos_eq
      refine ⟨_, List.mem_map.mpr ⟨t, ht, rfl⟩, ?_⟩
      rw [hof.toWin_eq, if_pos (by omega)]
      rfl
  · rename_i ho
    apply foldl_overlay_miss
    intro w hw
    obtain ⟨t, ht, rfl⟩ := List.mem_map.mp hw
    obtain ⟨r, hof⟩ := transferOf_of_mem ht
    have hle := hof.le
    rw [hof.toWin_eq, if_neg (by omega)]

/-- **A get** reads the flat array. -/
theorem getBytes_eq (my pos : ℕ) (hst : st.pending = []) (hsize : offset + size ≤ L.size) :
    getBytes L my st offset pos size =
      some { st with buf := splice st.buf pos size fun i => flat L st.win (offset + i) } := by
  rw [getBytes, foldlM_plainTransfer my .get hst, foldlM_get fun t ht => inWindow_of_mem hsize ht, foldl_toBuf]

/-- **A put** replaces part of the flat array. -/
theorem putBytes_eq (my pos : ℕ) (hst : st.pending = []) (hsize : offset + size ≤ L.size) :
    ∃ win, putBytes L my st offset pos size = some { st with win := win } ∧
      flat L win = splice (flat L st.win) offset size fun i => st.buf (pos + i) := by
  refine ⟨_, ?_, foldl_toWin st.win st.buf⟩
  rw [putBytes, foldlM_plainTransfer my .put hst, foldlM_put fun t ht => inWindow_of_mem hsize ht]

end Flat

/-- **The striped memory is one flat array**: the stripes are a bijection, a put and a get on any nodes act on the
array, no access leaves a window, and a range with a home node lives there. -/
theorem striped_flat (L : Layout) :
    Set.BijOn L.place {o | o < L.size} {p | p.1 < L.numNodes ∧ p.2 < L.sizePerNode} ∧
      (∀ my offset src size (st : Rma), st.pending = [] → offset + size ≤ L.size →
        ∃ win, putBytes L my st offset src size = some { st with win := win } ∧
          flat L win = splice (flat L st.win) offset size (fun i => st.buf (src + i)) ∧
          ∀ my' offset' dst size' buf, offset' + size' ≤ L.size →
            getBytes L my' ⟨win, buf, []⟩ offset' dst size' =
              some ⟨win, splice buf dst size' fun i => flat L win (offset' + i), []⟩) ∧
      (∀ offset pos size, offset + size ≤ L.size → ∀ t ∈ plainTransfers L offset pos size, InWindow L t) ∧
      ∀ offset size, 1 ≤ size → 0 ≤ L.getHomeNode offset size →
        ∀ o, offset ≤ o → o < offset + size → (L.node o : ℤ) = L.getHomeNode offset size := by
  refine ⟨Layout.place_bijOn, ?_, fun _ _ _ hsize _ ht => inWindow_of_mem hsize ht,
    fun _ _ _ h _ hlo hhi => Layout.node_of_getHomeNode h hlo hhi⟩
  intro my offset src size st hst hsize
  obtain ⟨win, hput, hflat⟩ := putBytes_eq my src hst hsize
  exact ⟨win, hput, hflat, fun my' _ _ _ _ hsize' => getBytes_eq my' _ rfl hsize'⟩

/-- Three nodes with four kilobytes each. -/
def threeNodes : Layout := ⟨3, Layout.MEMORY_STRIDE, 4096, by decide, by decide, by decide⟩

/-- A put from node 1 that starts inside a block on node 0 and crosses two stripes, then a get on node 2. -/
theorem striped_flat_three_nodes :
    ∃ win, putBytes threeNodes 1 ⟨fun _ => 0, fun _ => 7, []⟩ 1000 0 2000 = some ⟨win, fun _ => 7, []⟩ ∧
      flat threeNodes win 999 = 0 ∧ flat threeNodes win 2999 = 7 ∧
      getBytes threeNodes 2 ⟨win, fun _ => 0, []⟩ 900 0 3000 =
        some ⟨win, splice (fun _ => 0) 0 3000 fun i => flat threeNodes win (900 + i), []⟩ := by
  obtain ⟨win, hput, hflat, hget⟩ :=
    (striped_flat threeNodes).2.1 1 1000 0 2000 ⟨fun _ => 0, fun _ => 7, []⟩ rfl (by decide)
  refine ⟨win, hput, ?_, ?_, hget 2 900 0 3000 (fun _ => 0) (by decide)⟩
  · rw [hflat]
    rfl
  · rw [hflat]
    rfl

end Realm.Striped

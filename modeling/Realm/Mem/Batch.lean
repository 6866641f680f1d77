import Mathlib.Data.List.Pairwise
import Realm.Mem.Striped

/-!
# Realm.Mem.Batch — batched access to the global memory (`get_batch` and `put_batch` in `templates/mem_impl.cc`)

A batch steps from block to block without dividing again, and issues its remote transfers with `mpi_nbi_get` or
`mpi_nbi_put`.  In the MPI build `mpi_nbi_begin` and `mpi_nbi_end` are empty: nothing is flushed.

* `batchLoop`: the loop of one entry; `batchTransfers_eq`: it makes the transfers of `plainTransfers`.
* `batch_walks_plain`: a whole batch makes the transfers that its entries make one by one.
* `getBatch`, `putBatch`: the member functions.
* `getBatch_buf`, `putBatch_win`: what has happened when they return.
* `batch_complete_iff`: a batch is complete on return exactly when all of it is local.
-/

namespace Realm.Striped

open Lib

/-! ## Code -/

/-- The loop of one entry.  After the first chunk every block starts at its beginning. -/
def batchLoop (L : Layout) (blkid node : ℕ) (blkoffset : Fin L.memoryStride) (pos size : ℕ) : List Transfer :=
  if _h : size > 0 then
    let chunkSize := if L.memoryStride - blkoffset > size then size else L.memoryStride - blkoffset
    let node' := (node + 1) % L.numNodes
    ⟨node, blkid * L.memoryStride + blkoffset, pos, chunkSize⟩ ::
      batchLoop L (if node' = 0 then blkid + 1 else blkid) node' ⟨0, L.stride_pos⟩ (pos + chunkSize)
        (size - chunkSize)
  else []
termination_by size
decreasing_by
  have := blkoffset.isLt
  split <;> omega

/-- One of the `batch_size` entries: `offsets[i]`, `dsts[i]` or `srcs[i]`, `sizes[i]`. -/
structure Entry where
  offset : ℕ
  buf : ℕ
  size : ℕ
deriving DecidableEq

def batchTransfers (L : Layout) (e : Entry) : List Transfer :=
  batchLoop L (L.blkid e.offset) (L.node e.offset) ⟨L.blkoffset e.offset, L.blkoffset_lt e.offset⟩ e.buf e.size

section Code

variable (L : Layout) (my : ℕ)

/-- One round of a batch: a remote transfer is issued and left alone. -/
def batchTransfer (dir : Dir) (st : Rma) (t : Transfer) : Option Rma :=
  if t.node ≠ my then some (issue dir st t) else complete L dir st t

def batch (dir : Dir) (st : Rma) (es : List Entry) : Option Rma :=
  es.foldlM (fun st e => (batchTransfers L e).foldlM (batchTransfer L my dir) st) st

/-- `GASNetMemory::get_batch` -/
def getBatch (st : Rma) (es : List Entry) : Option Rma := batch L my .get st es

/-- `GASNetMemory::put_batch` -/
def putBatch (st : Rma) (es : List Entry) : Option Rma := batch L my .put st es

/-- `get_bytes` for each entry -/
def getEach (st : Rma) (es : List Entry) : Option Rma :=
  es.foldlM (fun st e => getBytes L my st e.offset e.buf e.size) st

/-- `put_bytes` for each entry -/
def putEach (st : Rma) (es : List Entry) : Option Rma :=
  es.foldlM (fun st e => putBytes L my st e.offset e.buf e.size) st

end Code

/-! ## The transfers of a batch -/

section Transfers

variable {L : Layout}

/-- At the end of a block the next one is on the next node, and one further down after the last node. -/
theorem Layout.next_block {o : ℕ} (c : ℕ) (hc : L.blkoffset o + c = L.memoryStride) :
    L.blkoffset (o + c) = 0 ∧ L.node (o + c) = (L.node o + 1) % L.numNodes ∧
      L.blkid (o + c) = if (L.node o + 1) % L.numNodes = 0 then L.blkid o + 1 else L.blkid o := by
  have hsum : o + c = L.memoryStride * (o / L.memoryStride + 1) := by
    have := Nat.div_add_mod o L.memoryStride
    unfold blkoffset at hc
    rw [Nat.mul_succ]
    omega
  have hdiv : (o + c) / L.memoryStride = o / L.memoryStride + 1 := by
    rw [hsum, Nat.mul_div_cancel_left _ L.stride_pos]
  have hnode : L.node (o + c) = (L.node o + 1) % L.numNodes := by
    rw [node, hdiv, node, Nat.mod_add_mod]
  refine ⟨by rw [blkoffset, hsum, Nat.mul_mod_right], hnode, ?_⟩
  rw [← hnode, blkid, hdiv, Nat.succ_div, node, hdiv]
  simp only [Nat.dvd_iff_mod_eq_zero]
  split <;> rfl

theorem batchLoop_eq (offset pos size : ℕ) :
    batchLoop L (L.blkid offset) (L.node offset) ⟨L.blkoffset offset, L.blkoffset_lt offset⟩ pos size =
      plainTransfers L offset pos size := by
  induction size using Nat.strong_induction_on generalizing offset pos with
  | h size ih =>
    rcases Nat.eq_zero_or_pos size with rfl | hpos
    · rw [plainTransfers_zero, batchLoop, dif_neg (by omega)]
    · have hc := chunk_pos L offset hpos
      have hchunk : (if L.memoryStride - L.blkoffset offset > size then size
          else L.memoryStride - L.blkoffset offset) = chunk L offset size := by
        unfold chunk
        split <;> omega
      rw [plainTransfers_succ L offset pos hpos, batchLoop, dif_pos hpos]
      simp only [hchunk]
      congr 1
      by_cases hlast : size = chunk L offset size
      · -- nothing is left, so the position of the loop does not matter
        rw [← hlast, Nat.sub_self, plainTransfers_zero, batchLoop, dif_neg (by omega)]
      · have hblk : L.blkoffset offset + chunk L offset size = L.memoryStride := by
          have := L.blkoffset_lt offset
          unfold chunk at hlast ⊢
          omega
        obtain ⟨h1, h2, h3⟩ := L.next_block (chunk L offset size) hblk
        rw [← ih (size - chunk L offset size) (by omega) (offset + chunk L offset size)]
        simp only [h1, h2, h3]

/-- **A batch** makes the transfers of `get_bytes` and `put_bytes`. -/
theorem batchTransfers_eq (e : Entry) : batchTransfers L e = plainTransfers L e.offset e.buf e.size :=
  batchLoop_eq e.offset e.buf e.size

end Transfers

/-! ## On return -/

/-- A batch with pairwise disjoint ranges inside the memory and pairwise disjoint buffers. -/
structure ValidBatch (L : Layout) (es : List Entry) : Prop where
  inRange : ∀ e ∈ es, e.offset + e.size ≤ L.size
  disjoint : es.Pairwise fun e e' =>
    ∀ i < e.size, ∀ j < e'.size, e.offset + i ≠ e'.offset + j ∧ e.buf + i ≠ e'.buf + j

/-- Every byte of the batch lives on the node `my`. -/
def IsLocal (L : Layout) (my : ℕ) (es : List Entry) : Prop :=
  ∀ e ∈ es, ∀ i < e.size, L.node (e.offset + i) = my

section Return

variable {L : Layout} {my : ℕ} {es : List Entry} {ts : List Transfer} {st : Rma}

/-- Going through the transfers entry by entry is going through all of them. -/
theorem foldlM_entries (f : Entry → List Transfer) (g : Rma → Transfer → Option Rma) :
    es.foldlM (fun st e => (f e).foldlM g st) st = (es.flatMap f).foldlM g st := by
  induction es generalizing st with
  | nil => rfl
  | cons e es ih =>
    rw [List.foldlM_cons, List.flatMap_cons, List.foldlM_append]
    congr 1
    funext st'
    exact ih

theorem batch_eq_foldlM (dir : Dir) :
    batch L my dir st es = (es.flatMap (batchTransfers L)).foldlM (batchTransfer L my dir) st :=
  foldlM_entries _ _

/-- The local ones of the transfers `ts` have been made, the others are under way. -/
def settled (my : ℕ) (dir : Dir) (st : Rma) (ts : List Transfer) : Rma where
  win := match dir with
    | .get => st.win
    | .put => ((ts.filter fun t => t.node = my).map fun t => t.toWin st.buf).foldl overlay st.win
  buf := match dir with
    | .get => ((ts.filter fun t => t.node = my).map fun t => t.toBuf st.win).foldl overlay st.buf
    | .put => st.buf
  pending := st.pending ++ (ts.filter fun t => t.node ≠ my).map (Prod.mk dir)

theorem foldlM_batchTransfer (dir : Dir) (h : ∀ t ∈ ts, InWindow L t) :
    ts.foldlM (batchTransfer L my dir) st = some (settled my dir st ts) := by
  induction ts generalizing st with
  | nil => cases dir <;> simp [settled]
  | cons t ts ih =>
    have h' : ∀ t' ∈ ts, InWindow L t' := fun t' ht' => h t' (List.mem_cons_of_mem t ht')
    rw [List.foldlM_cons]
    by_cases hnode : t.node = my
    · rw [batchTransfer, if_neg (not_not.mpr hnode)]
      cases dir with
      | get =>
        rw [complete, if_pos (h t List.mem_cons_self), Option.bind_eq_bind, Option.bind_some, ih h']
        simp [settled, hnode]
      | put =>
        rw [complete, if_pos (h t List.mem_cons_self), Option.bind_eq_bind, Option.bind_some, ih h']
        simp [settled, hnode]
    · rw [batchTransfer, if_pos hnode, Option.bind_eq_bind, Option.bind_some, ih h']
      cases dir <;> simp [settled, hnode, issue]

theorem mem_transfers {t : Transfer} :
    t ∈ es.flatMap (batchTransfers L) ↔ ∃ e ∈ es, t ∈ plainTransfers L e.offset e.buf e.size := by
  simp only [List.mem_flatMap, batchTransfers_eq]

theorem ValidBatch.inWindow (h : ValidBatch L es) : ∀ t ∈ es.flatMap (batchTransfers L), InWindow L t := by
  intro t ht
  obtain ⟨e, he, ht⟩ := mem_transfers.mp ht
  exact inWindow_of_mem (h.inRange e he) ht

/-- Two entries that share a byte of the memory or of the buffers are the same entry. -/
theorem ValidBatch.eq_of_shared (h : ValidBatch L es) {e e' : Entry} (he : e ∈ es) (he' : e' ∈ es) {i j : ℕ}
    (hi : i < e.size) (hj : j < e'.size) (heq : e.offset + i = e'.offset + j ∨ e.buf + i = e'.buf + j) :
    e' = e := by
  by_contra hne
  have hsymm : Std.Symm fun e e' : Entry =>
      ∀ i < e.size, ∀ j < e'.size, e.offset + i ≠ e'.offset + j ∧ e.buf + i ≠ e'.buf + j :=
    ⟨fun e e' hd i hi j hj => ⟨(hd j hj i hi).1.symm, (hd j hj i hi).2.symm⟩⟩
  obtain ⟨h1, h2⟩ := h.disjoint.forall he he' (Ne.symm hne) i hi j hj
  rcases heq with heq | heq
  · exact h1 heq
  · exact h2 heq

/-- The transfer that reaches a byte of a buffer goes to the place of that byte. -/
theorem ValidBatch.place_of_reach (h : ValidBatch L es) {e e' : Entry} (he : e ∈ es) (he' : e' ∈ es) {i : ℕ}
    (hi : i < e.size) {t : Transfer} (ht : t ∈ plainTransfers L e'.offset e'.buf e'.size)
    (hlo : t.pos ≤ e.buf + i) (hhi : e.buf + i < t.pos + t.len) :
    L.place (e.offset + i) = (t.node, t.disp + (e.buf + i - t.pos)) := by
  obtain ⟨r, ⟨hpos, -, hle, hplace⟩⟩ := transferOf_of_mem ht
  obtain rfl := h.eq_of_shared he he' hi (j := r + (e.buf + i - t.pos)) (by omega) (.inr (by omega))
  rw [← hplace (e'.buf + i - t.pos) (by omega)]
  congr 1
  omega

/-- **What `get_batch` has done** when it returns: the local bytes have arrived, the others have not. -/
theorem getBatch_buf (my : ℕ) (st : Rma) (h : ValidBatch L es) :
    ∃ buf pending, getBatch L my st es = some ⟨st.win, buf, pending⟩ ∧ ∀ e ∈ es, ∀ i < e.size,
      buf (e.buf + i) =
        if L.node (e.offset + i) = my then flat L st.win (e.offset + i) else st.buf (e.buf + i) := by
  refine ⟨_, _, (batch_eq_foldlM .get).trans (foldlM_batchTransfer .get h.inWindow), fun e he i hi => ?_⟩
  split
  · rename_i hmy
    apply foldl_overlay_hit
    · intro w hw b hb
      obtain ⟨t, ht, rfl⟩ := List.mem_map.mp hw
      obtain ⟨e', he', ht⟩ := mem_transfers.mp (List.mem_filter.mp ht).1
      unfold Transfer.toBuf at hb
      split at hb
      · rename_i hreach
        rw [← Option.some.inj hb, ← h.place_of_reach he he' hi ht hreach.1 hreach.2]
        rfl
      · simp at hb
    · obtain ⟨t, ht, hlo, hhi⟩ := exists_transfer L e.offset e.buf hi
      have hplace := h.place_of_reach he he hi ht hlo hhi
      have hnode : t.node = my := (congrArg Prod.fst hplace).symm.trans hmy
      refine ⟨_, List.mem_map.mpr ⟨t, ?_, rfl⟩, ?_⟩
      · exact List.mem_filter.mpr ⟨mem_transfers.mpr ⟨e, he, ht⟩, decide_eq_true hnode⟩
      · rw [Transfer.toBuf, if_pos ⟨hlo, hhi⟩]
        rfl
  · rename_i hmy
    apply foldl_overlay_miss
    intro w hw
    obtain ⟨t, ht, rfl⟩ := List.mem_map.mp hw
    obtain ⟨ht, hnode⟩ := List.mem_filter.mp ht
    obtain ⟨e', he', ht⟩ := mem_transfers.mp ht
    rw [Transfer.toBuf, if_neg]
    rintro ⟨hlo, hhi⟩
    exact hmy ((congrArg Prod.fst (h.place_of_reach he he' hi ht hlo hhi)).trans (of_decide_eq_true hnode))

/-- What a transfer of the batch writes at the place of a byte. -/
theorem ValidBatch.toWin_some (h : ValidBatch L es) {e e' : Entry} (he : e ∈ es) (he' : e' ∈ es) {i : ℕ}
    (hi : i < e.size) {t : Transfer} (ht : t ∈ plainTransfers L e'.offset e'.buf e'.size) {buf : ℕ → Byte} {b : Byte}
    (hb : t.toWin buf (L.place (e.offset + i)) = some b) :
    b = buf (e.buf + i) ∧ L.node (e.offset + i) = t.node := by
  obtain ⟨r, hof⟩ := transferOf_of_mem ht
  have hle := hof.le
  refine ⟨?_, ?_⟩
  · rw [hof.toWin_eq] at hb
    split at hb
    · obtain rfl := h.eq_of_shared he he' hi (j := e.offset + i - e'.offset) (by omega) (.inl (by omega))
      rw [← Option.some.inj hb, Nat.add_sub_cancel_left]
    · simp at hb
  · unfold Transfer.toWin at hb
    split at hb
    · rename_i hreach
      exact hreach.1
    · simp at hb

/-- **What `put_batch` has done** when it returns. -/
theorem putBatch_win (my : ℕ) (st : Rma) (h : ValidBatch L es) :
    ∃ win pending, putBatch L my st es = some ⟨win, st.buf, pending⟩ ∧ ∀ e ∈ es, ∀ i < e.size,
      flat L win (e.offset + i) =
        if L.node (e.offset + i) = my then st.buf (e.buf + i) else flat L st.win (e.offset + i) := by
  refine ⟨_, _, (batch_eq_foldlM .put).trans (foldlM_batchTransfer .put h.inWindow), fun e he i hi => ?_⟩
  unfold flat
  split
  · rename_i hmy
    apply foldl_overlay_hit
    · intro w hw b hb
      obtain ⟨t, ht, rfl⟩ := List.mem_map.mp hw
      obtain ⟨e', he', ht⟩ := mem_transfers.mp (List.mem_filter.mp ht).1
      exact (h.toWin_some he he' hi ht hb).1
    · obtain ⟨t, ht, hlo, hhi⟩ := exists_transfer L e.offset e.buf hi
      obtain ⟨r, hof⟩ := transferOf_of_mem ht
      have hpos := hof.pos_eq
      have hplace := h.place_of_reach he he hi ht hlo hhi
      have hnode : t.node = my := (congrArg Prod.fst hplace).symm.trans hmy
      refine ⟨_, List.mem_map.mpr ⟨t, ?_, rfl⟩, ?_⟩
      · exact List.mem_filter.mpr ⟨mem_transfers.mpr ⟨e, he, ht⟩, decide_eq_true hnode⟩
      · rw [hof.toWin_eq, if_pos (by omega)]
        rfl
  · rename_i hmy
    apply foldl_overlay_miss
    intro w hw
    obtain ⟨t, ht, rfl⟩ := List.mem_map.mp hw
    obtain ⟨ht, hnode⟩ := List.mem_filter.mp ht
    obtain ⟨e', he', ht⟩ := mem_transfers.mp ht
    by_contra hne
    obtain ⟨b, hb⟩ := Option.ne_none_iff_exists'.mp hne
    exact hmy ((h.toWin_some he he' hi ht hb).2.trans (of_decide_eq_true hnode))

theorem batchTransfer_local {dir : Dir} (h : ∀ t ∈ ts, t.node = my) :
    ts.foldlM (batchTransfer L my dir) st = ts.foldlM (plainTransfer L my dir) st := by
  induction ts generalizing st with
  | nil => rfl
  | cons t ts ih =>
    have hnode : ¬ t.node ≠ my := not_not.mpr (h t List.mem_cons_self)
    rw [List.foldlM_cons, List.foldlM_cons, batchTransfer, if_neg hnode, plainTransfer, if_neg hnode]
    congr 1
    funext st'
    exact ih fun t' ht' => h t' (List.mem_cons_of_mem t ht')

/-- A local batch runs as its entries do one by one. -/
theorem IsLocal.batch_eq (h : IsLocal L my es) (dir : Dir) :
    batch L my dir st es =
      es.foldlM (fun st e => (plainTransfers L e.offset e.buf e.size).foldlM (plainTransfer L my dir) st) st := by
  unfold batch
  induction es generalizing st with
  | nil => rfl
  | cons e es ih =>
    have hnode : ∀ t ∈ plainTransfers L e.offset e.buf e.size, t.node = my := by
      intro t ht
      obtain ⟨r, ⟨-, hlen, hle, hplace⟩⟩ := transferOf_of_mem ht
      have hfirst : L.node (e.offset + r) = t.node := congrArg Prod.fst (hplace 0 hlen)
      rw [← hfirst, h e List.mem_cons_self r (by omega)]
    rw [List.foldlM_cons, List.foldlM_cons, batchTransfers_eq, batchTransfer_local hnode]
    congr 1
    funext st'
    exact ih fun e' he' => h e' (List.mem_cons_of_mem e he')

end Return

/-! ## The walk -/

/-- **A batch walks** the addresses of plain access: the transfers that `get_batch` and `put_batch` issue, stepping
from block to block, are those that `get_bytes` and `put_bytes` issue for the entries in turn, dividing at each. -/
theorem batch_walks_plain (L : Layout) (es : List Entry) :
    (es.flatMap (batchTransfers L) = es.flatMap fun e => plainTransfers L e.offset e.buf e.size) ∧
      ∀ my st,
        getBatch L my st es = (es.flatMap (batchTransfers L)).foldlM (batchTransfer L my .get) st ∧
        putBatch L my st es = (es.flatMap (batchTransfers L)).foldlM (batchTransfer L my .put) st ∧
        getEach L my st es =
          (es.flatMap fun e => plainTransfers L e.offset e.buf e.size).foldlM (plainTransfer L my .get) st ∧
        putEach L my st es =
          (es.flatMap fun e => plainTransfers L e.offset e.buf e.size).foldlM (plainTransfer L my .put) st := by
  refine ⟨?_, fun my st => ⟨?_, ?_, ?_, ?_⟩⟩
  · congr 1
    funext e
    exact batchTransfers_eq e
  · exact batch_eq_foldlM .get
  · exact batch_eq_foldlM .put
  · exact foldlM_entries _ _
  · exact foldlM_entries _ _

/-! ## Completeness -/

/-- When `get_batch` returns, every buffer holds its range of the global memory, as after `get_bytes` for each
entry. -/
def GetComplete (L : Layout) (my : ℕ) (es : List Entry) : Prop :=
  ∀ win buf, ∃ st', getBatch L my ⟨win, buf, []⟩ es = some st' ∧
    (getEach L my ⟨win, buf, []⟩ es).map Rma.buf = some st'.buf ∧
    ∀ e ∈ es, ∀ i < e.size, st'.buf (e.buf + i) = flat L win (e.offset + i)

/-- When `put_batch` returns, the global memory holds every buffer, as after `put_bytes` for each entry. -/
def PutComplete (L : Layout) (my : ℕ) (es : List Entry) : Prop :=
  ∀ win buf, ∃ st', putBatch L my ⟨win, buf, []⟩ es = some st' ∧
    (putEach L my ⟨win, buf, []⟩ es).map Rma.win = some st'.win ∧
    ∀ e ∈ es, ∀ i < e.size, flat L st'.win (e.offset + i) = buf (e.buf + i)

section Complete

variable {L : Layout} {my : ℕ} {es : List Entry}

theorem IsLocal.getComplete (hlocal : IsLocal L my es) (h : ValidBatch L es) : GetComplete L my es := by
  intro win buf
  obtain ⟨buf', pending, hget, hval⟩ := getBatch_buf my ⟨win, buf, []⟩ h
  refine ⟨_, hget, ?_, fun e he i hi => ?_⟩
  · have heach : getEach L my ⟨win, buf, []⟩ es = _ := (hlocal.batch_eq .get).symm.trans hget
    rw [heach]
    rfl
  · exact (hval e he i hi).trans (if_pos (hlocal e he i hi))

theorem IsLocal.putComplete (hlocal : IsLocal L my es) (h : ValidBatch L es) : PutComplete L my es := by
  intro win buf
  obtain ⟨win', pending, hput, hval⟩ := putBatch_win my ⟨win, buf, []⟩ h
  refine ⟨_, hput, ?_, fun e he i hi => ?_⟩
  · have heach : putEach L my ⟨win, buf, []⟩ es = _ := (hlocal.batch_eq .put).symm.trans hput
    rw [heach]
    rfl
  · exact (hval e he i hi).trans (if_pos (hlocal e he i hi))

/-- A remote byte of the memory that differs from the one in the buffer has not arrived. -/
theorem isLocal_of_getComplete (hc : GetComplete L my es) (h : ValidBatch L es) : IsLocal L my es := by
  intro e he i hi
  by_contra hremote
  obtain ⟨b, b', hne⟩ := exists_pair_ne Byte
  obtain ⟨st', hget, -, hall⟩ := hc (fun _ => b) fun _ => b'
  obtain ⟨buf', pending, hget', hval⟩ := getBatch_buf my ⟨fun _ => b, fun _ => b', []⟩ h
  obtain rfl := Option.some.inj (hget.symm.trans hget')
  exact hne ((hall e he i hi).symm.trans ((hval e he i hi).trans (if_neg hremote)))

theorem isLocal_of_putComplete (hc : PutComplete L my es) (h : ValidBatch L es) : IsLocal L my es := by
  intro e he i hi
  by_contra hremote
  obtain ⟨b, b', hne⟩ := exists_pair_ne Byte
  obtain ⟨st', hput, -, hall⟩ := hc (fun _ => b) fun _ => b'
  obtain ⟨win', pending, hput', hval⟩ := putBatch_win my ⟨fun _ => b, fun _ => b', []⟩ h
  obtain rfl := Option.some.inj (hput.symm.trans hput')
  exact hne (((hval e he i hi).trans (if_neg hremote)).symm.trans (hall e he i hi))

end Complete

/-- **A batch is complete on return** exactly when every byte of it lives on the calling node. -/
theorem batch_complete_iff (L : Layout) (my : ℕ) (es : List Entry) (h : ValidBatch L es) :
    (GetComplete L my es ↔ IsLocal L my es) ∧ (PutComplete L my es ↔ IsLocal L my es) :=
  ⟨⟨fun hc => isLocal_of_getComplete hc h, fun hlocal => hlocal.getComplete h⟩,
    ⟨fun hc => isLocal_of_putComplete hc h, fun hlocal => hlocal.putComplete h⟩⟩

/-- Two ranges in different blocks of node 0. -/
theorem batch_complete_two_local :
    ValidBatch threeNodes [⟨100, 0, 2⟩, ⟨3072, 2, 2⟩] ∧ GetComplete threeNodes 0 [⟨100, 0, 2⟩, ⟨3072, 2, 2⟩] ∧
      PutComplete threeNodes 0 [⟨100, 0, 2⟩, ⟨3072, 2, 2⟩] := by
  have h : ValidBatch threeNodes [⟨100, 0, 2⟩, ⟨3072, 2, 2⟩] := ⟨by decide, by decide⟩
  have hlocal : IsLocal threeNodes 0 [⟨100, 0, 2⟩, ⟨3072, 2, 2⟩] := by
    unfold IsLocal
    decide
  obtain ⟨hget, hput⟩ := batch_complete_iff threeNodes 0 _ h
  exact ⟨h, hget.mpr hlocal, hput.mpr hlocal⟩

/-- One byte on another node is not there when the batch returns. -/
theorem not_complete_remote_byte :
    ValidBatch threeNodes [⟨1024, 0, 1⟩] ∧ ¬ GetComplete threeNodes 0 [⟨1024, 0, 1⟩] ∧
      ¬ PutComplete threeNodes 0 [⟨1024, 0, 1⟩] := by
  have h : ValidBatch threeNodes [⟨1024, 0, 1⟩] := ⟨by decide, by decide⟩
  have hremote : ¬ IsLocal threeNodes 0 [⟨1024, 0, 1⟩] := by
    unfold IsLocal
    decide
  exact ⟨h, fun hc => hremote (isLocal_of_getComplete hc h), fun hc => hremote (isLocal_of_putComplete hc h)⟩

end Realm.Striped

import Mathlib.Algebra.Order.BigOperators.Group.List
import Mathlib.Algebra.Order.Ring.Nat
import Realm.Lib.Collect
import Realm.Mem.Fence
import Realm.Mem.RemoteWrite

/-!
# Realm.Mem.FencedWrite — remote writes and their fence, from `do_remote_write` to the acknowledgement

A transfer is a number of calls of `do_remote_write` with one `sequence_id`, and then `do_remote_fence` with the sum of
what they have returned (`templates/mem_impl.cc`).  Here the requests of `RemoteWrite`, with the bytes that they carry,
are the messages whose handlers are interleaved as in `Fence`.

* `Transfer.send`: the messages of a transfer.
* `step`: the handlers of the receiving node; `step_refines`: their bookkeeping is that of `Fence`.
* `Block`, `exists_batch`: messages that make up a `Batch`.
* `Lays`, `sendWrite_eq`: what the messages of one write carry.
* `fencedWrite_of_run`: when the acknowledgement has been sent, the bytes of all writes are in memory.
-/

namespace Realm.FencedWrite

open Lib RemoteWrite

/-! ## The sender -/

/-- A `RemoteWriteMessage` with its data, or a `RemoteWriteFenceMessage`. -/
inductive Message
  | write (args : RequestArgs) (data : List Byte)
  | fence (args : Mem.RemoteWriteFenceMessage.RequestArgs)

/-- What `Fence` knows about a message. -/
def Message.request : Message → Mem.Request
  | .write args _ => .write ⟨args.sender, args.sequenceId.toNat⟩
  | .fence args => .fence args

/-- The calls of `do_remote_write` by one sender, and its memory at that time. -/
structure Transfer where
  target : Target
  sequenceId : BitVec 32
  makeCopy : Bool
  writes : List (Addr × Source)
  fence : ℕ
  memory : Memory

namespace Transfer

def key (x : Transfer) : Mem.PartialWriteKey := ⟨x.target.myNodeId, x.sequenceId.toNat⟩

/-- One call of `do_remote_write`: its messages, and what it returns. -/
def sendWrite (x : Transfer) (fuel : ℕ) (w : Addr × Source) : Option (List Message × ℕ) := do
  let (reqs, count) ← doRemoteWrite x.target fuel w.1 w.2 x.sequenceId x.makeCopy
  let sent ← reqs.mapM fun r => (r.payload.copyData x.memory).map (.write r.args)
  return (sent, count)

/-- `do_remote_fence`: `assert(num_writes > 0)` -/
def doRemoteFence (x : Transfer) (numWrites : ℕ) : Option Message :=
  if numWrites > 0 then some (.fence ⟨x.target.myNodeId, x.sequenceId.toNat, numWrites, x.fence⟩) else none

/-- The whole transfer; the sum is an `unsigned`. -/
def send (x : Transfer) (fuel : ℕ) : Option (List Message) := do
  let sent ← x.writes.mapM (x.sendWrite fuel)
  let fence ← x.doRemoteFence ((sent.map Prod.snd).sum % 2 ^ 32)
  return sent.flatMap Prod.fst ++ [fence]

end Transfer

/-! ## The receiver -/

/-- The bookkeeping, and the memories of the node by their number. -/
structure State (n : ℕ) where
  fences : Mem.State n
  memory : ℕ → Memory

def State.init (n : ℕ) (memory : ℕ → Memory) : State n := ⟨.init, memory⟩

/-- The handlers: the data goes to `args.offset`, where a message with a destination pointer has put it already, and
after that the bookkeeping runs under the lock. -/
def step (msgs : List Message) (s : State msgs.length) : Mem.Event msgs.length → Option (State msgs.length)
  | .apply i =>
    match msgs.get i with
    | .write args data =>
      if i ∈ s.fences.applied then none
      else some {
        fences := { s.fences with applied := insert i s.fences.applied }
        memory := Function.update s.memory args.mem (storeCells (s.memory args.mem) args.offset data) }
    | .fence _ => none
  | .track i =>
    let r := (msgs.get i).request
    if i ∈ s.fences.handled ∨ (r.isFence = false ∧ i ∉ s.fences.applied) then none
    else some { s with
      fences := { s.fences with node := r.track s.fences.node, handled := insert i s.fences.handled } }

/-- **The bookkeeping is that of `Fence`**, which knows nothing of the data. -/
theorem step_refines {msgs : List Message} {B : Mem.Batch msgs.length} (hB : ∀ i, B.msg i = (msgs.get i).request)
    {s s' : State msgs.length} {e : Mem.Event msgs.length} (h : step msgs s e = some s') :
    Mem.step B s.fences e = some s'.fences := by
  cases e with
  | apply i =>
    simp only [step] at h
    rw [Mem.step, hB i]
    split at h
    · rename_i args data hget
      split at h
      · cases h
      · rename_i hnot
        cases h
        rw [hget, if_neg]
        rintro (hfence | happlied)
        · cases hfence
        · exact hnot happlied
    · cases h
  | track i =>
    simp only [step] at h
    rw [Mem.step, hB i]
    split at h
    · cases h
    · rename_i hnot
      cases h
      rw [if_neg hnot]

/-! ## Messages that make up a batch -/

/-- The requests of one key: the tracked ones, and the fence that announces them. -/
structure Block where
  args : Mem.RemoteWriteFenceMessage.RequestArgs
  writes : List Mem.Request
  sequence_pos : 0 < args.sequenceId
  isFence : ∀ r ∈ writes, r.isFence = false
  keys : ∀ r ∈ writes, r.key = ⟨args.sender, args.sequenceId⟩
  numWrites_eq : args.numWrites = writes.length
  numWrites_pos : 0 < args.numWrites
  numWrites_lt : args.numWrites < 2 ^ 32

namespace Block

def key (b : Block) : Mem.PartialWriteKey := ⟨b.args.sender, b.args.sequenceId⟩

def requests (b : Block) : List Mem.Request := b.writes ++ [.fence b.args]

theorem key_of_mem (b : Block) : ∀ r ∈ b.requests, r.key = b.key := by
  intro r hr
  rcases List.mem_append.mp hr with hr | hr
  · exact b.keys r hr
  · rw [List.mem_singleton.mp hr]
    rfl

theorem filter_isFence (b : Block) (fence : Bool) :
    b.requests.filter (fun r => r.isFence = fence) = if fence = true then [.fence b.args] else b.writes := by
  unfold requests
  rw [List.filter_append]
  cases fence with
  | true =>
    rw [if_pos rfl, List.filter_eq_nil_iff.mpr]
    · rfl
    · intro r hr hfence
      rw [b.isFence r hr] at hfence
      exact absurd hfence (by decide)
  | false =>
    rw [if_neg Bool.false_ne_true, List.filter_eq_self.mpr]
    · exact List.append_nil _
    · intro r hr
      rw [b.isFence r hr]
      rfl

end Block

theorem card_filter_get {α : Type} (l : List α) (p : α → Prop) [DecidablePred p] :
    (Finset.univ.filter fun i : Fin l.length => p (l.get i)).card = l.countP (fun a => p a) := by
  conv_rhs => rw [← List.map_get_finRange l, List.countP_map, List.countP_eq_length_filter]
  rfl

section Batch

variable {msgs : List Message} {blocks : List Block}

/-- The requests of one key, and among them the fence or the tracked ones. -/
theorem countP_block (hmsgs : msgs.map Message.request = blocks.flatMap Block.requests)
    (hnodup : (blocks.map Block.key).Nodup) {b : Block} (hb : b ∈ blocks) (fence : Bool) :
    (Finset.univ.filter fun i : Fin msgs.length =>
      (msgs.get i).request.isFence = fence ∧ (msgs.get i).request.key = b.key).card =
      if fence = true then 1 else b.args.numWrites := by
  have hfilter := filter_flatMap_key (fun b r hr => Block.key_of_mem b r hr) hnodup hb
  rw [card_filter_get msgs fun m => m.request.isFence = fence ∧ m.request.key = b.key]
  calc msgs.countP (fun m => m.request.isFence = fence ∧ m.request.key = b.key)
      = (msgs.map Message.request).countP (fun r => r.isFence = fence ∧ r.key = b.key) := by
        rw [List.countP_map]
        rfl
    _ = ((blocks.flatMap Block.requests).filter (fun r => r.key = b.key)).countP (fun r => r.isFence = fence) := by
        rw [hmsgs, List.countP_filter]
        refine List.countP_congr fun r _ => ?_
        simp only [decide_eq_true_eq, Bool.and_eq_true]
    _ = (b.requests.filter (fun r => r.isFence = fence)).length := by
        rw [hfilter, List.countP_eq_length_filter]
    _ = if fence = true then 1 else b.args.numWrites := by
        rw [b.filter_isFence, b.numWrites_eq]
        split <;> rfl

theorem exists_block (hmsgs : msgs.map Message.request = blocks.flatMap Block.requests) (i : Fin msgs.length) :
    ∃ b ∈ blocks, (msgs.get i).request ∈ b.requests := by
  have hmem : (msgs.get i).request ∈ msgs.map Message.request := List.mem_map_of_mem (List.get_mem msgs i)
  rw [hmsgs] at hmem
  exact List.mem_flatMap.mp hmem

/-- A fence is its block's. -/
theorem request_eq_fence (hmsgs : msgs.map Message.request = blocks.flatMap Block.requests)
    (hnodup : (blocks.map Block.key).Nodup) {b : Block} (hb : b ∈ blocks) {i : Fin msgs.length}
    (hfence : (msgs.get i).request.isFence = true) (hkey : (msgs.get i).request.key = b.key) :
    (msgs.get i).request = .fence b.args := by
  obtain ⟨b', hb', hmem⟩ := exists_block hmsgs i
  obtain rfl : b' = b := List.inj_on_of_nodup_map hnodup hb' hb ((b'.key_of_mem _ hmem).symm.trans hkey)
  have hfilter : (msgs.get i).request ∈ b'.requests.filter (fun r => r.isFence = true) :=
    List.mem_filter.mpr ⟨hmem, decide_eq_true hfence⟩
  rw [b'.filter_isFence, if_pos rfl] at hfilter
  exact List.mem_singleton.mp hfilter

/-- **Blocks with different keys are a batch.** -/
theorem exists_batch (hmsgs : msgs.map Message.request = blocks.flatMap Block.requests)
    (hnodup : (blocks.map Block.key).Nodup) :
    ∃ B : Mem.Batch msgs.length, (∀ i, B.msg i = (msgs.get i).request) ∧
      ∀ i, ∃ b ∈ blocks, (msgs.get i).request.key = b.key ∧ B.fenceArgs i = b.args := by
  choose blockOf hblock hmem using exists_block hmsgs
  have hkey : ∀ i, (msgs.get i).request.key = (blockOf i).key := fun i => (blockOf i).key_of_mem _ (hmem i)
  -- exactly one message is the fence of a block
  have hone : ∀ i, ∃ j : Fin msgs.length,
      (Finset.univ.filter fun j : Fin msgs.length =>
        (msgs.get j).request.isFence = true ∧ (msgs.get j).request.key = (blockOf i).key) = {j} :=
    fun i => Finset.card_eq_one.mp (countP_block hmsgs hnodup (hblock i) true)
  choose fenceOf hfenceOf using hone
  have hmemFence : ∀ i, (msgs.get (fenceOf i)).request.isFence = true ∧
      (msgs.get (fenceOf i)).request.key = (blockOf i).key := by
    intro i
    have hself := Finset.mem_singleton_self (fenceOf i)
    rw [← hfenceOf i] at hself
    exact (Finset.mem_filter.mp hself).2
  refine ⟨{
    msg := fun i => (msgs.get i).request
    sequence_pos := fun i => ?_
    fenceOf := fenceOf
    fenceArgs := fun i => (blockOf i).args
    msg_fenceOf := fun i => request_eq_fence hmsgs hnodup (hblock i) (hmemFence i).1 (hmemFence i).2
    key_fenceOf := fun i => (hmemFence i).2.trans (hkey i).symm
    fence_unique := fun i j hfence hj => ?_
    numWrites_eq := fun i => ?_
    numWrites_pos := fun i => (blockOf i).numWrites_pos
    numWrites_lt := fun i => (blockOf i).numWrites_lt }, fun _ => rfl, fun i => ⟨blockOf i, hblock i, hkey i, rfl⟩⟩
  · rw [hkey i]
    exact (blockOf i).sequence_pos
  · rw [← Finset.mem_singleton, ← hfenceOf i]
    exact Finset.mem_filter.mpr ⟨Finset.mem_univ _, hfence, hj.trans (hkey i)⟩
  · have hcount := countP_block hmsgs hnodup (hblock i) false
    rw [if_neg Bool.false_ne_true] at hcount
    rw [← hcount, hkey i]

end Batch

/-! ## The data of one write -/

/-- Pieces, each with its address, that lie one behind the other from `off` on. -/
def Lays : Addr → List (Addr × List Byte) → Prop
  | _, [] => True
  | off, p :: ps => p.1 = off ∧ Lays (off + BitVec.ofNat 64 p.2.length) ps

/-- Their bytes -/
def bytesOf (ps : List (Addr × List Byte)) : List Byte := ps.flatMap Prod.snd

/-- A memory that has every piece has their bytes. -/
theorem Lays.cellsAt_eq {m : Memory} {off : Addr} {ps : List (Addr × List Byte)} (h : Lays off ps)
    (hm : ∀ p ∈ ps, cellsAt m p.1 p.2.length = p.2) : cellsAt m off (bytesOf ps).length = bytesOf ps := by
  induction ps generalizing off with
  | nil => rfl
  | cons p ps ih =>
    obtain ⟨rfl, hrest⟩ := h
    unfold bytesOf at ih ⊢
    rw [List.flatMap_cons, List.length_append, cellsAt_add, hm p List.mem_cons_self,
      ih hrest fun q hq => hm q (List.mem_cons_of_mem _ hq)]

theorem Lays.inCells {off : Addr} {ps : List (Addr × List Byte)} (h : Lays off ps) {p : Addr × List Byte} (hp : p ∈ ps)
    {a : Addr} (ha : InCells p.1 p.2.length a) : InCells off (bytesOf ps).length a := by
  induction ps generalizing off with
  | nil => exact absurd hp List.not_mem_nil
  | cons q ps ih =>
    obtain ⟨rfl, hrest⟩ := h
    unfold bytesOf at ih ⊢
    rw [List.flatMap_cons, List.length_append]
    rcases List.mem_cons.mp hp with rfl | hp
    · exact ha.trans_le (Nat.le_add_right _ _)
    · exact (ih hrest hp).of_add (le_refl _)

/-- The pieces do not overlap, if they do not go around the whole memory. -/
theorem Lays.pairwise {off : Addr} {ps : List (Addr × List Byte)} (h : Lays off ps)
    (hlen : (bytesOf ps).length ≤ 2 ^ 64) :
    ps.Pairwise fun p q => ∀ a, ¬(InCells p.1 p.2.length a ∧ InCells q.1 q.2.length a) := by
  induction ps generalizing off with
  | nil => exact .nil
  | cons p ps ih =>
    obtain ⟨rfl, hrest⟩ := h
    have htotal : (bytesOf (p :: ps)).length = p.2.length + (bytesOf ps).length := by
      unfold bytesOf
      rw [List.flatMap_cons, List.length_append]
    refine .cons (fun q hq a ha => ?_) (ih hrest (by omega))
    exact ha.1.not_add (by omega) (hrest.inCells hq ha.2)

namespace Transfer

/-- The message for one piece. -/
def message (x : Transfer) (p : Addr × List Byte) : Message :=
  .write ⟨x.target.mem, p.1, x.target.myNodeId, x.sequenceId⟩ p.2

/-- The number of requests that a write takes. -/
def count (x : Transfer) (w : Addr × Source) : ℕ :=
  if x.target.Direct w.1 then 1 else w.2.pieces x.target.lmbSize

end Transfer

/-- The requests of a write with the bytes that they carry. -/
theorem exists_pieces (x : Transfer) {off : Addr} {reqs : List (Request RequestArgs)} {bytes : List Byte}
    (h : Splits x.memory x.target off x.sequenceId bytes reqs) :
    ∃ ps, (reqs.mapM fun r : Request RequestArgs => (r.payload.copyData x.memory).map (Message.write r.args)) =
        some (ps.map x.message) ∧
      ps.length = reqs.length ∧ Lays off ps ∧ bytesOf ps = bytes := by
  obtain ⟨hoff, hcopied, -, hheader⟩ := h
  induction reqs generalizing off bytes with
  | nil =>
    obtain rfl : [] = bytes := by simpa [copied] using hcopied
    exact ⟨[], rfl, rfl, trivial, rfl⟩
  | cons r reqs ih =>
    obtain ⟨bss, hbss, rfl⟩ := Option.map_eq_some_iff.mp hcopied
    obtain ⟨b, hb, rest, hrest, rfl⟩ : ∃ b, r.payload.copyData x.memory = some b ∧ ∃ rest,
        (reqs.mapM fun r : Request RequestArgs => r.payload.copyData x.memory) = some rest ∧ b :: rest = bss := by
      simpa [List.mapM_cons, Option.bind_eq_some_iff] using hbss
    obtain ⟨rfl, hoff⟩ := hoff
    have hlen := PayloadSource.copyData_length hb
    rw [← hlen] at hoff
    obtain ⟨ps, hps, hpslen, hlays, hbytes⟩ :=
      ih hoff (by rw [copied, hrest]; rfl) fun q hq => hheader q (List.mem_cons_of_mem _ hq)
    have hmessage : x.message (r.args.offset, b) = .write r.args b :=
      congrArg (Message.write · b) (hheader r List.mem_cons_self).2.symm
    refine ⟨(r.args.offset, b) :: ps, ?_, ?_, ⟨rfl, hlays⟩, ?_⟩
    · rw [List.mapM_cons, hb, hps, List.map_cons, hmessage]
      rfl
    · rw [List.length_cons, List.length_cons, hpslen]
    · unfold bytesOf at hbytes ⊢
      rw [List.flatMap_cons, hbytes, List.flatten_cons]

/-! ## The messages of a transfer -/

/-- What the callers promise: `do_remote_write` terminates, its sources are not empty, and the requests can be counted
by the receiver. -/
structure Transfer.Valid (x : Transfer) (fuel : ℕ) : Prop where
  lmbSize : 1 ≤ x.target.lmbSize
  sequence : x.sequenceId ≠ 0
  nonempty : x.writes ≠ []
  sources : ∀ w ∈ x.writes, w.2.Valid x.target.lmbSize ∧ w.2.steps ≤ fuel
  length_le : ∀ w ∈ x.writes, (w.2.flatten x.memory).length ≤ 2 ^ 64
  counts : (x.writes.map x.count).sum ≤ 2 ^ 31

theorem flatten_ne_nil {max : ℕ} {src : Source} (h : src.Valid max) (m : Memory) : src.flatten m ≠ [] := by
  rw [← List.length_pos_iff]
  cases src with
  | contiguous data datalen =>
    rw [Source.flatten, length_cellsAt]
    exact h
  | twoD data datalen stride lines =>
    rw [Source.flatten, length_gather]
    exact Nat.mul_pos h.1 h.2.2
  | spans list datalen =>
    rw [Source.flatten, SpanList.length_bytes, h.2.2]
    exact h.1

/-- What one write of a transfer sends. -/
structure Pieces (x : Transfer) (fuel : ℕ) (w : Addr × Source) (ps : List (Addr × List Byte)) : Prop where
  sent : x.sendWrite fuel w = some (ps.map x.message, x.count w % 2 ^ 32)
  length : ps.length = x.count w
  lays : Lays w.1 ps
  bytes : bytesOf ps = w.2.flatten x.memory

theorem exists_pieces_of_valid {x : Transfer} {fuel : ℕ} (hx : x.Valid fuel) {w : Addr × Source} (hw : w ∈ x.writes) :
    ∃ ps, Pieces x fuel w ps := by
  obtain ⟨hsrc, hfuel⟩ := hx.sources w hw
  have hsends : Sends x.target w.1 x.sequenceId (fun m => w.2.flatten m) (x.count w)
    (doRemoteWrite x.target fuel w.1 w.2 x.sequenceId x.makeCopy) := doRemoteWrite_sends hx.lmbSize hsrc hfuel
  obtain ⟨reqs, hreqs, hlen, hsplits⟩ := hsends
  obtain ⟨ps, hps, hpslen, hlays, hbytes⟩ := exists_pieces x (hsplits x.memory)
  refine ⟨ps, ?_, hpslen.trans hlen, hlays, hbytes⟩
  unfold Transfer.sendWrite
  rw [hreqs, Option.bind_eq_bind, Option.bind_some]
  simp only [hps]
  rfl

theorem mapM_eq_some {α β : Type} {f : α → Option β} {g : α → β} {l : List α} (h : ∀ a ∈ l, f a = some (g a)) :
    l.mapM f = some (l.map g) := by
  induction l with
  | nil => rfl
  | cons a l ih =>
    rw [List.mapM_cons, h a List.mem_cons_self, ih fun b hb => h b (List.mem_cons_of_mem _ hb)]
    rfl

/-- The data of a transfer, and its fence. -/
def fenceArgs (x : Transfer) (numWrites : ℕ) : Mem.RemoteWriteFenceMessage.RequestArgs :=
  ⟨x.target.myNodeId, x.sequenceId.toNat, numWrites, x.fence⟩

/-- **What a transfer sends**: the pieces of its writes, and a fence with their number. -/
theorem exists_send {x : Transfer} {fuel : ℕ} (hx : x.Valid fuel) :
    ∃ pieces : Addr × Source → List (Addr × List Byte), (∀ w ∈ x.writes, Pieces x fuel w (pieces w)) ∧
      0 < (x.writes.flatMap pieces).length ∧ (x.writes.flatMap pieces).length ≤ 2 ^ 31 ∧
      x.send fuel = some ((x.writes.flatMap pieces).map x.message ++
        [.fence (fenceArgs x (x.writes.flatMap pieces).length)]) := by
  have hall : ∀ w ∈ x.writes, ∃ ps, Pieces x fuel w ps := fun w hw => exists_pieces_of_valid hx hw
  choose! pieces hpieces using hall
  have hsum : (x.writes.flatMap pieces).length = (x.writes.map x.count).sum := by
    rw [List.length_flatMap]
    exact congrArg List.sum (List.map_congr_left fun w hw => (hpieces w hw).length)
  have hle : (x.writes.flatMap pieces).length ≤ 2 ^ 31 := hsum.trans_le hx.counts
  have hpos : 0 < (x.writes.flatMap pieces).length := by
    rw [List.length_pos_iff]
    intro hnil
    obtain ⟨w, hw⟩ := List.exists_mem_of_ne_nil _ hx.nonempty
    have hps := hpieces w hw
    have hempty : pieces w = [] := List.flatMap_eq_nil_iff.mp hnil w hw
    refine flatten_ne_nil (hx.sources w hw).1 x.memory ?_
    rw [← hps.bytes, hempty]
    rfl
  refine ⟨pieces, hpieces, hpos, hle, ?_⟩
  have hsent := mapM_eq_some (f := x.sendWrite fuel) (g := fun w => ((pieces w).map x.message, x.count w % 2 ^ 32))
    fun w hw => (hpieces w hw).sent
  -- no write returns a count that is too large
  have hcount : (((x.writes.map fun w => ((pieces w).map x.message, x.count w % 2 ^ 32)).map Prod.snd).sum) % 2 ^ 32 =
      (x.writes.flatMap pieces).length := by
    have hmap : (x.writes.map fun w => ((pieces w).map x.message, x.count w % 2 ^ 32)).map Prod.snd =
        x.writes.map x.count := by
      rw [List.map_map]
      refine List.map_congr_left fun w hw => Nat.mod_eq_of_lt ?_
      have := List.le_sum_of_mem (List.mem_map_of_mem (f := x.count) hw)
      omega
    rw [hmap, ← hsum]
    omega
  unfold Transfer.send
  rw [hsent]
  show (x.doRemoteFence _).bind _ = _
  rw [hcount, Transfer.doRemoteFence, if_pos hpos]
  show some (List.flatMap Prod.fst _ ++ _) = _
  rw [List.flatMap_map, List.map_flatMap]
  rfl

/-! ## All transfers to one node -/

/-- The messages of all transfers. -/
def sendAll (fuel : ℕ) (xs : List Transfer) : Option (List Message) := collect (fun x => x.send fuel) xs

/-- The calls of `do_remote_write`. -/
def calls (xs : List Transfer) : List (Transfer × Addr × Source) := xs.flatMap fun x => x.writes.map (Prod.mk x)

/-- A memory, and the cells of it that are written: the first one, and how many. -/
abbrev Region := ℕ × Addr × ℕ

def Apart (r r' : Region) : Prop := r.1 = r'.1 → ∀ a, ¬(InCells r.2.1 r.2.2 a ∧ InCells r'.2.1 r'.2.2 a)

def regionOf (c : Transfer × Addr × Source) : Region :=
  (c.1.target.mem, c.2.1, (c.2.2.flatten c.1.memory).length)

def Message.region : Message → Option Region
  | .write args data => some (args.mem, args.offset, data.length)
  | .fence _ => none

section Transfers

variable {fuel : ℕ} {xs : List Transfer} {pieces : Transfer → Addr × Source → List (Addr × List Byte)}

/-- The messages of a transfer whose writes are split into `pieces`. -/
def messages (pieces : Transfer → Addr × Source → List (Addr × List Byte)) (x : Transfer) : List Message :=
  (x.writes.flatMap (pieces x)).map x.message ++ [.fence (fenceArgs x (x.writes.flatMap (pieces x)).length)]

theorem collect_eq_flatMap {α β : Type} {f : α → Option (List β)} {g : α → List β} {l : List α}
    (h : ∀ a ∈ l, f a = some (g a)) : collect f l = some (l.flatMap g) := by
  induction l with
  | nil => rfl
  | cons a l ih =>
    exact collect_cons_eq_some.mpr ⟨g a, l.flatMap g, h a List.mem_cons_self,
      ih fun b hb => h b (List.mem_cons_of_mem _ hb), rfl⟩

theorem filterMap_region (xs : List Transfer) :
    (xs.flatMap (messages pieces)).filterMap Message.region =
      (calls xs).flatMap fun c => (pieces c.1 c.2).map fun p => (c.1.target.mem, p.1, p.2.length) := by
  induction xs with
  | nil => rfl
  | cons x xs ih =>
    have hx : (messages pieces x).filterMap Message.region =
        x.writes.flatMap fun w => (pieces x w).map fun p => (x.target.mem, p.1, p.2.length) := by
      unfold messages
      rw [List.filterMap_append, List.filterMap_map]
      show List.filterMap (fun p : Addr × List Byte => some (x.target.mem, p.1, p.2.length)) _ ++ [] = _
      rw [List.append_nil, List.filterMap_eq_map', List.map_flatMap]
    unfold calls at ih ⊢
    rw [List.flatMap_cons, List.filterMap_append, ih, hx, List.flatMap_cons, List.flatMap_append, List.flatMap_map]

/-- The data of two messages does not overlap if the writes do not. -/
theorem pairwise_region (hpieces : ∀ x ∈ xs, ∀ w ∈ x.writes, Pieces x fuel w (pieces x w))
    (hvalid : ∀ x ∈ xs, x.Valid fuel) (hapart : ((calls xs).map regionOf).Pairwise Apart) :
    ((xs.flatMap (messages pieces)).filterMap Message.region).Pairwise Apart := by
  have hcall : ∀ c ∈ calls xs, c.1 ∈ xs ∧ c.2 ∈ c.1.writes := by
    intro c hc
    obtain ⟨x, hx, hc⟩ := List.mem_flatMap.mp hc
    obtain ⟨w, hw, rfl⟩ := List.mem_map.mp hc
    exact ⟨hx, hw⟩
  rw [filterMap_region, List.pairwise_flatMap]
  refine ⟨fun c hc => ?_, ?_⟩
  · obtain ⟨hx, hw⟩ := hcall c hc
    have hps := hpieces c.1 hx c.2 hw
    have hlen : (bytesOf (pieces c.1 c.2)).length ≤ 2 ^ 64 := by
      rw [hps.bytes]
      exact (hvalid c.1 hx).length_le c.2 hw
    rw [List.pairwise_map]
    refine (hps.lays.pairwise hlen).imp fun {p q} hpq => ?_
    intro _ a ha
    exact hpq a ha
  · rw [List.pairwise_map] at hapart
    refine hapart.imp_of_mem fun {c d} hc hd hcd r hr r' hr' => ?_
    obtain ⟨hx, hw⟩ := hcall c hc
    obtain ⟨hx', hw'⟩ := hcall d hd
    obtain ⟨p, hp, rfl⟩ := List.mem_map.mp hr
    obtain ⟨q, hq, rfl⟩ := List.mem_map.mp hr'
    intro hmem a ha
    refine hcd hmem a ⟨?_, ?_⟩
    · show InCells _ (c.2.2.flatten c.1.memory).length a
      rw [← (hpieces c.1 hx c.2 hw).bytes]
      exact (hpieces c.1 hx c.2 hw).lays.inCells hp ha.1
    · show InCells _ (d.2.2.flatten d.1.memory).length a
      rw [← (hpieces d.1 hx' d.2 hw').bytes]
      exact (hpieces d.1 hx' d.2 hw').lays.inCells hq ha.2

theorem length_data_le (hpieces : ∀ x ∈ xs, ∀ w ∈ x.writes, Pieces x fuel w (pieces x w))
    (hvalid : ∀ x ∈ xs, x.Valid fuel) {args : RequestArgs} {data : List Byte}
    (hm : Message.write args data ∈ xs.flatMap (messages pieces)) : data.length ≤ 2 ^ 64 := by
  obtain ⟨x, hx, hm⟩ := List.mem_flatMap.mp hm
  rcases List.mem_append.mp hm with hm | hm
  · obtain ⟨p, hp, heq⟩ := List.mem_map.mp hm
    obtain ⟨w, hw, hp⟩ := List.mem_flatMap.mp hp
    cases heq
    have hle : p.2.length ≤ (bytesOf (pieces x w)).length := by
      unfold bytesOf
      rw [List.length_flatMap]
      exact List.le_sum_of_mem (List.mem_map_of_mem (f := fun p : Addr × List Byte => p.2.length) hp)
    rw [(hpieces x hx w hw).bytes] at hle
    exact hle.trans ((hvalid x hx).length_le w hw)
  · cases List.mem_singleton.mp hm

/-- The number of messages of a transfer before its fence. -/
def numWrites (pieces : Transfer → Addr × Source → List (Addr × List Byte)) (x : Transfer) : ℕ :=
  (x.writes.flatMap (pieces x)).length

theorem exists_blocks (hvalid : ∀ x ∈ xs, x.Valid fuel)
    (hlen : ∀ x ∈ xs, 0 < numWrites pieces x ∧ numWrites pieces x ≤ 2 ^ 31) :
    ∃ blocks : List Block, (xs.flatMap (messages pieces)).map Message.request = blocks.flatMap Block.requests ∧
      blocks.map Block.args = xs.map fun x => fenceArgs x (numWrites pieces x) := by
  induction xs with
  | nil => exact ⟨[], rfl, rfl⟩
  | cons x xs ih =>
    obtain ⟨blocks, hrequests, hargs⟩ := ih (fun y hy => hvalid y (List.mem_cons_of_mem _ hy))
      fun y hy => hlen y (List.mem_cons_of_mem _ hy)
    obtain ⟨hpos, hle⟩ := hlen x List.mem_cons_self
    let block : Block := {
      args := fenceArgs x (numWrites pieces x)
      writes := (x.writes.flatMap (pieces x)).map fun p => (x.message p).request
      sequence_pos := by
        refine Nat.pos_of_ne_zero fun hzero => (hvalid x List.mem_cons_self).sequence ?_
        exact BitVec.eq_of_toNat_eq hzero
      isFence := by
        intro r hr
        obtain ⟨p, -, rfl⟩ := List.mem_map.mp hr
        rfl
      keys := by
        intro r hr
        obtain ⟨p, -, rfl⟩ := List.mem_map.mp hr
        rfl
      numWrites_eq := List.length_map _ |>.symm
      numWrites_pos := hpos
      numWrites_lt := hle.trans_lt (by decide) }
    refine ⟨block :: blocks, ?_, ?_⟩
    · have hblock : (messages pieces x).map Message.request = block.requests := by
        unfold messages
        rw [List.map_append, List.map_map]
        rfl
      rw [List.flatMap_cons, List.map_append, hrequests, hblock, List.flatMap_cons]
    · rw [List.map_cons, List.map_cons, hargs]

end Transfers

/-! ## The invariant -/

/-- The data of the messages that were applied is in memory. -/
structure Inv {msgs : List Message} (B : Mem.Batch msgs.length) (s : State msgs.length) : Prop where
  fences : Mem.Inv B s.fences
  memory : ∀ i ∈ s.fences.applied, ∀ args data, msgs.get i = .write args data →
    cellsAt (s.memory args.mem) args.offset data.length = data

section Steps

variable {msgs : List Message} {B : Mem.Batch msgs.length} {s s' : State msgs.length}

theorem Inv.init (B : Mem.Batch msgs.length) (memory : ℕ → Memory) : Inv B (State.init msgs.length memory) :=
  ⟨.init B, fun i hi => absurd hi (Finset.notMem_empty i)⟩

theorem apart_of_ne (hapart : (msgs.filterMap Message.region).Pairwise Apart) {i j : Fin msgs.length} (hij : i ≠ j)
    {r r' : Region} (hr : (msgs.get i).region = some r) (hr' : (msgs.get j).region = some r') : Apart r r' := by
  rw [List.pairwise_filterMap, List.pairwise_iff_get] at hapart
  rcases lt_or_gt_of_ne hij with hlt | hlt
  · exact hapart i j hlt r hr r' hr'
  · intro hmem a ha
    exact hapart j i hlt r' hr' r hr hmem.symm a ha.symm

/-- **What one handler does to the memory**: its own data is there, and that of the others stays. -/
theorem Inv.step (h : Inv B s) (hB : ∀ i, B.msg i = (msgs.get i).request)
    (hN : ∀ i, (B.fenceArgs i).numWrites ≤ 2 ^ 31) (hapart : (msgs.filterMap Message.region).Pairwise Apart)
    (hlen : ∀ i args data, msgs.get i = .write args data → data.length ≤ 2 ^ 64) {e : Mem.Event msgs.length}
    (hstep : step msgs s e = some s') : Inv B s' := by
  refine ⟨h.fences.step hN (step_refines hB hstep), ?_⟩
  cases e with
  | apply i =>
    simp only [FencedWrite.step] at hstep
    split at hstep
    · rename_i args data hget
      split at hstep
      · cases hstep
      · rename_i hnot
        cases hstep
        intro j hj args' data' hget'
        simp only
        rcases Finset.mem_insert.mp hj with rfl | hj
        · rw [hget'] at hget
          cases hget
          rw [Function.update_self]
          exact cellsAt_storeCells (hlen j args data hget')
        · by_cases hmem : args'.mem = args.mem
          · have hold := h.memory j hj args' data' hget'
            have hij : i ≠ j := fun heq => hnot (heq ▸ hj)
            have happ : Apart (args.mem, args.offset, data.length) (args'.mem, args'.offset, data'.length) :=
              apart_of_ne hapart hij (by rw [hget]; rfl) (by rw [hget']; rfl)
            rw [hmem] at hold ⊢
            rw [Function.update_self]
            refine Eq.trans (cellsAt_congr fun a ha => storeCells_of_not fun ha' => ?_) hold
            exact happ hmem.symm a ⟨ha', ha⟩
          · rw [Function.update_of_ne hmem]
            exact h.memory j hj args' data' hget'
    · cases hstep
  | track i =>
    simp only [FencedWrite.step] at hstep
    split at hstep
    · cases hstep
    · cases hstep
      exact h.memory

end Steps

/-! ## Every interleaving -/

/-- What the senders can rely on.  `once` and `acked`: a transfer is acknowledged at most once, with its own fence;
`data`: when it is, all its bytes are in memory; `all`: it is when all messages are handled. -/
structure Sound {n : ℕ} (xs : List Transfer) (s : State n) : Prop where
  failed : s.fences.node.failed = false
  once : ∀ x ∈ xs, (s.fences.node.acks.filter (fun a => a.1 = x.key)).length ≤ 1
  acked : ∀ a ∈ s.fences.node.acks, ∃ x ∈ xs, a = (x.key, x.fence)
  data : ∀ x ∈ xs, (x.key, x.fence) ∈ s.fences.node.acks → ∀ w ∈ x.writes,
    cellsAt (s.memory x.target.mem) w.1 (w.2.flatten x.memory).length = w.2.flatten x.memory
  all : (∀ i, i ∈ s.fences.handled) → ∀ x ∈ xs, (x.key, x.fence) ∈ s.fences.node.acks

section Sound

variable {fuel : ℕ} {xs : List Transfer} {pieces : Transfer → Addr × Source → List (Addr × List Byte)}
  {B : Mem.Batch (xs.flatMap (messages pieces)).length} {s : State (xs.flatMap (messages pieces)).length}

theorem key_of_mem_messages {x : Transfer} {m : Message} (hm : m ∈ messages pieces x) : m.request.key = x.key := by
  rcases List.mem_append.mp hm with hm | hm
  · obtain ⟨p, -, rfl⟩ := List.mem_map.mp hm
    rfl
  · rw [List.mem_singleton.mp hm]
    rfl

/-- The acknowledgements of a transfer: none before all its messages are handled. -/
theorem filter_acks (hB : ∀ i, B.msg i = ((xs.flatMap (messages pieces)).get i).request)
    (hargs : ∀ i, ∀ x ∈ xs, (B.msg i).key = x.key → (B.fenceArgs i).fence = x.fence)
    (hacked : Mem.AckedOnce B s.fences) {x : Transfer} (hx : x ∈ xs) :
    s.fences.node.acks.filter (fun a => a.1 = x.key) =
      if ∀ j, (B.msg j).key = x.key → j ∈ s.fences.handled then [(x.key, x.fence)] else [] := by
  have hfence : Message.fence (fenceArgs x (x.writes.flatMap (pieces x)).length) ∈ messages pieces x :=
    List.mem_append_right _ (List.mem_singleton_self _)
  obtain ⟨i, hi⟩ := List.get_of_mem (List.mem_flatMap.mpr ⟨x, hx, hfence⟩)
  have hkey : (B.msg i).key = x.key := by
    rw [hB i, hi]
    exact key_of_mem_messages hfence
  have hacks := hacked.acks i
  rw [hkey, hargs i x hx hkey] at hacks
  exact hacks

/-- The data of a transfer, when all its messages are handled. -/
theorem cells_of_handled (hpieces : ∀ x ∈ xs, ∀ w ∈ x.writes, Pieces x fuel w (pieces x w))
    (hB : ∀ i, B.msg i = ((xs.flatMap (messages pieces)).get i).request) (h : Inv B s) {x : Transfer} (hx : x ∈ xs)
    (hall : ∀ j, (B.msg j).key = x.key → j ∈ s.fences.handled) {w : Addr × Source} (hw : w ∈ x.writes) :
    cellsAt (s.memory x.target.mem) w.1 (w.2.flatten x.memory).length = w.2.flatten x.memory := by
  have hps := hpieces x hx w hw
  rw [← hps.bytes]
  refine hps.lays.cellsAt_eq fun p hp => ?_
  have hmem : x.message p ∈ messages pieces x :=
    List.mem_append_left _ (List.mem_map_of_mem (List.mem_flatMap.mpr ⟨w, hw, hp⟩))
  obtain ⟨j, hj⟩ := List.get_of_mem (List.mem_flatMap.mpr ⟨x, hx, hmem⟩)
  have hkey : (B.msg j).key = x.key := by
    rw [hB j, hj]
    exact key_of_mem_messages hmem
  have happlied : j ∈ s.fences.applied := by
    refine h.fences.applied j (hall j hkey) ?_
    rw [hB j, hj]
    rfl
  exact h.memory j happlied _ _ hj

theorem Inv.sound (h : Inv B s) (hpieces : ∀ x ∈ xs, ∀ w ∈ x.writes, Pieces x fuel w (pieces x w))
    (hB : ∀ i, B.msg i = ((xs.flatMap (messages pieces)).get i).request)
    (hN : ∀ i, (B.fenceArgs i).numWrites ≤ 2 ^ 31)
    (hargs : ∀ i, ∀ x ∈ xs, (B.msg i).key = x.key → (B.fenceArgs i).fence = x.fence) : Sound xs s := by
  have hacked := h.fences.ackedOnce hN
  refine ⟨hacked.failed, fun x hx => ?_, fun a ha => ?_, fun x hx hack => ?_, fun hhandled x hx => ?_⟩
  · rw [filter_acks hB hargs hacked hx]
    split <;> simp
  · obtain ⟨i, hi⟩ := hacked.acked a ha
    obtain ⟨x, hx, hmem⟩ := List.mem_flatMap.mp (List.get_mem (xs.flatMap (messages pieces)) i)
    have hkey : a.1 = x.key := by
      rw [← hi, hB i]
      exact key_of_mem_messages hmem
    refine ⟨x, hx, ?_⟩
    have hfilter : a ∈ s.fences.node.acks.filter (fun a => a.1 = x.key) :=
      List.mem_filter.mpr ⟨ha, decide_eq_true hkey⟩
    rw [filter_acks hB hargs hacked hx] at hfilter
    split at hfilter
    · exact List.mem_singleton.mp hfilter
    · exact absurd hfilter List.not_mem_nil
  · have hfilter : (x.key, x.fence) ∈ s.fences.node.acks.filter (fun a => a.1 = x.key) :=
      List.mem_filter.mpr ⟨hack, decide_eq_true rfl⟩
    rw [filter_acks hB hargs hacked hx] at hfilter
    split at hfilter
    · rename_i hall
      exact fun w hw => cells_of_handled hpieces hB h hx hall hw
    · exact absurd hfilter List.not_mem_nil
  · have hfilter := filter_acks hB hargs hacked hx
    rw [if_pos fun j _ => hhandled j] at hfilter
    have hself := List.mem_singleton_self (x.key, x.fence)
    rw [← hfilter] at hself
    exact (List.mem_filter.mp hself).1

end Sound

/-- **Fenced writes.**  The transfers can be sent, and in every interleaving of the handlers the acknowledgement of a
transfer means that all its bytes are in memory, if their keys differ and their writes do not overlap. -/
theorem fencedWrite_of_run (fuel : ℕ) (xs : List Transfer) (hvalid : ∀ x ∈ xs, x.Valid fuel)
    (hkeys : (xs.map Transfer.key).Nodup) (hapart : ((calls xs).map regionOf).Pairwise Apart) :
    ∃ msgs, sendAll fuel xs = some msgs ∧ ∀ memory es s,
      run (step msgs) (State.init msgs.length memory) es = some s → Sound xs s := by
  have hsend : ∀ x ∈ xs, ∃ ps : Addr × Source → List (Addr × List Byte), (∀ w ∈ x.writes, Pieces x fuel w (ps w)) ∧
      0 < (x.writes.flatMap ps).length ∧ (x.writes.flatMap ps).length ≤ 2 ^ 31 ∧
      x.send fuel = some ((x.writes.flatMap ps).map x.message ++ [.fence (fenceArgs x (x.writes.flatMap ps).length)]) :=
    fun x hx => exists_send (hvalid x hx)
  choose! pieces hpieces hpos hle hsend using hsend
  refine ⟨xs.flatMap (messages pieces), collect_eq_flatMap hsend, fun memory es s hrun => ?_⟩
  obtain ⟨blocks, hblocks, hargs⟩ := exists_blocks hvalid fun x hx => ⟨hpos x hx, hle x hx⟩
  have hblockKeys : blocks.map Block.key = xs.map Transfer.key := by
    have hmap := congrArg (List.map fun a : Mem.RemoteWriteFenceMessage.RequestArgs =>
      (⟨a.sender, a.sequenceId⟩ : Mem.PartialWriteKey)) hargs
    rwa [List.map_map, List.map_map] at hmap
  obtain ⟨B, hB, hblockOf⟩ := exists_batch hblocks (hblockKeys ▸ hkeys)
  -- the fence of a message is that of its transfer
  have hfence : ∀ i, ∃ x ∈ xs, (B.msg i).key = x.key ∧ B.fenceArgs i = fenceArgs x (numWrites pieces x) := by
    intro i
    obtain ⟨b, hb, hkey, hfenceArgs⟩ := hblockOf i
    have hmem : b.args ∈ blocks.map Block.args := List.mem_map_of_mem hb
    rw [hargs] at hmem
    obtain ⟨x, hx, hxb⟩ := List.mem_map.mp hmem
    refine ⟨x, hx, ?_, hfenceArgs.trans hxb.symm⟩
    rw [hB i, hkey, Block.key, ← hxb]
    rfl
  have hN : ∀ i, (B.fenceArgs i).numWrites ≤ 2 ^ 31 := by
    intro i
    obtain ⟨x, hx, -, hfenceArgs⟩ := hfence i
    rw [hfenceArgs]
    exact hle x hx
  have hpointer : ∀ i, ∀ x ∈ xs, (B.msg i).key = x.key → (B.fenceArgs i).fence = x.fence := by
    intro i x hx hkey
    obtain ⟨y, hy, hkey', hfenceArgs⟩ := hfence i
    obtain rfl := List.inj_on_of_nodup_map hkeys hy hx (hkey'.symm.trans hkey)
    rw [hfenceArgs]
    rfl
  have hlen : ∀ i args data, (xs.flatMap (messages pieces)).get i = .write args data → data.length ≤ 2 ^ 64 :=
    fun i args data hget => length_data_le hpieces hvalid (hget ▸ List.get_mem _ i)
  have hinv : Inv B s := run_inv (fun _ _ _ h hs => h.step hB hN (pairwise_region hpieces hvalid hapart) hlen hs)
    (Inv.init B memory) hrun
  exact hinv.sound hpieces hB hN hpointer

/-- Node 2 writes 6 bytes to memory 7 through a buffer of 4, and then one line of 2 twice. -/
def twoWrites : Transfer where
  target := ⟨7, 1, 2, none, 4⟩
  sequenceId := 3
  makeCopy := true
  writes := [(16, .contiguous 100 6), (32, .twoD 200 2 0 2)]
  fence := 8
  memory _ := 0

theorem twoWrites_valid : twoWrites.Valid 10 where
  lmbSize := by decide
  sequence := by decide
  nonempty := List.cons_ne_nil _ _
  sources := List.forall_mem_cons.mpr ⟨⟨(by decide : 1 ≤ 6), by decide⟩, List.forall_mem_singleton.mpr
    ⟨⟨by decide, by decide, by decide⟩, by decide⟩⟩
  length_le := List.forall_mem_cons.mpr ⟨by decide, List.forall_mem_singleton.mpr (by decide)⟩
  counts := by decide

theorem fencedWrite_of_run_two : ∃ msgs, sendAll 10 [twoWrites] = some msgs ∧ ∀ memory es s,
    run (step msgs) (State.init msgs.length memory) es = some s → Sound [twoWrites] s := by
  refine fencedWrite_of_run 10 [twoWrites] (List.forall_mem_singleton.mpr twoWrites_valid) (by decide) ?_
  refine .cons (List.forall_mem_singleton.mpr fun _ a ha => ?_) (List.pairwise_singleton _ _)
  have hfirst : InCells (16 : Addr) 6 a := ha.1
  have hsecond : InCells (32 : Addr) 4 a := ha.2
  rw [inCells_iff (by decide)] at hfirst hsecond
  have h16 : (16 : Addr).toNat = 16 := rfl
  have h32 : (32 : Addr).toNat = 32 := rfl
  omega

end Realm.FencedWrite

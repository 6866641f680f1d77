import Mathlib.Data.Fintype.Card
import Realm.Lib.Int32
import Realm.Lib.Run

/-!
# Realm.Mem.Fence — remote-write fences (`templates/mem_impl.cc`)

A node that has sent a batch of remote writes under one `sequence_id` sends a fence with the number of
writes; the receiving node answers once it has handled them all.  Writes and the fence may be handled in any
order, so the receiver keeps a `PartialWriteEntry` for each key `(sender, sequence_id)`: the fence, if it
was seen, and a count that goes down with every write and up by `num_writes` with the fence.  The count is
an `int`, the announced `num_writes` an `unsigned`.

* `trackWrite`: the bookkeeping block that the handlers of the three tracked messages share.
* `Batch`: the messages of one run, every key with one fence that announces its writes.
* `step`: one handler of the node applies its data, or runs its bookkeeping under the lock.
* `ackedOnce_iff`: the acknowledgement goes out exactly once per key, at its last message, in every
  interleaving, exactly when no fence announces more than `2 ^ 31` writes.
-/

namespace Realm.Mem

open Lib

/-! ## The receiving node -/

structure PartialWriteKey where
  sender : ℕ
  sequenceId : ℕ
deriving DecidableEq

/-- `fence` is a pointer, `0` until the fence message was handled; `remaining_count` is an `int`. -/
structure PartialWriteEntry where
  fence : ℕ
  remainingCount : ℤ
deriving DecidableEq

/-- The bookkeeping state of the node: `partial_remote_writes`, the acknowledgements sent so far (key and
fence pointer; the target is the key's sender), and whether an assertion has failed. -/
structure Node where
  partialRemoteWrites : PartialWriteKey → Option PartialWriteEntry
  acks : List (PartialWriteKey × ℕ)
  failed : Bool

def Node.init : Node := ⟨fun _ => none, [], false⟩

def Node.set (nd : Node) (key : PartialWriteKey) (entry : PartialWriteEntry) : Node :=
  { nd with partialRemoteWrites := Function.update nd.partialRemoteWrites key (some entry) }

/-- `RemoteWriteFenceAckMessage::send_request(sender, entry.fence)` and `erase(it)`. -/
def Node.ackAndErase (nd : Node) (key : PartialWriteKey) (fence : ℕ) : Node :=
  { nd with
    partialRemoteWrites := Function.update nd.partialRemoteWrites key none
    acks := nd.acks ++ [(key, fence)] }

/-- "track the sequence ID to know when the full RDMA is done", as in all three tracked handlers. -/
def trackWrite (sender sequenceId : ℕ) (nd : Node) : Node :=
  if 0 < sequenceId then
    let key : PartialWriteKey := ⟨sender, sequenceId⟩
    match nd.partialRemoteWrites key with
    | none => nd.set key ⟨0, -1⟩
    | some entry =>
      let entry := { entry with remainingCount := int32 (entry.remainingCount - 1) }
      if entry.remainingCount = 0 then nd.ackAndErase key entry.fence
      else nd.set key entry
  else nd

namespace RemoteWriteMessage

structure RequestArgs where
  sender : ℕ
  sequenceId : ℕ

def handleRequest (args : RequestArgs) (nd : Node) : Node := trackWrite args.sender args.sequenceId nd

end RemoteWriteMessage

namespace RemoteSerdezMessage

structure RequestArgs where
  sender : ℕ
  sequenceId : ℕ

def handleRequest (args : RequestArgs) (nd : Node) : Node := trackWrite args.sender args.sequenceId nd

end RemoteSerdezMessage

namespace RemoteReduceMessage

structure RequestArgs where
  sender : ℕ
  sequenceId : ℕ

def handleRequest (args : RequestArgs) (nd : Node) : Node := trackWrite args.sender args.sequenceId nd

end RemoteReduceMessage

namespace RemoteWriteFenceMessage

structure RequestArgs where
  sender : ℕ
  sequenceId : ℕ
  numWrites : ℕ
  fence : ℕ

def handleRequest (args : RequestArgs) (nd : Node) : Node :=
  if args.sequenceId = 0 then { nd with failed := true }
  else
    let key : PartialWriteKey := ⟨args.sender, args.sequenceId⟩
    match nd.partialRemoteWrites key with
    | none => nd.set key ⟨args.fence, int32 args.numWrites⟩
    | some entry =>
      if entry.fence ≠ 0 then { nd with failed := true }
      else
        let entry : PartialWriteEntry := ⟨args.fence, int32 (entry.remainingCount + args.numWrites)⟩
        -- a negative remaining count means we got too many writes!
        if entry.remainingCount < 0 then { nd with failed := true }
        else if entry.remainingCount = 0 then nd.ackAndErase key entry.fence
        else nd.set key entry

end RemoteWriteFenceMessage

/-- A message that the node handles. -/
inductive Request
  | write (args : RemoteWriteMessage.RequestArgs)
  | serdez (args : RemoteSerdezMessage.RequestArgs)
  | reduce (args : RemoteReduceMessage.RequestArgs)
  | fence (args : RemoteWriteFenceMessage.RequestArgs)

namespace Request

def key : Request → PartialWriteKey
  | .write args => ⟨args.sender, args.sequenceId⟩
  | .serdez args => ⟨args.sender, args.sequenceId⟩
  | .reduce args => ⟨args.sender, args.sequenceId⟩
  | .fence args => ⟨args.sender, args.sequenceId⟩

def isFence : Request → Bool
  | .fence _ => true
  | _ => false

/-- The bookkeeping part of the message's handler, run under `partial_remote_writes_lock`. -/
def track : Request → Node → Node
  | .write args => RemoteWriteMessage.handleRequest args
  | .serdez args => RemoteSerdezMessage.handleRequest args
  | .reduce args => RemoteReduceMessage.handleRequest args
  | .fence args => RemoteWriteFenceMessage.handleRequest args

theorem track_of_not_isFence {r : Request} (h : r.isFence = false) :
    r.track = trackWrite r.key.sender r.key.sequenceId := by
  cases r with
  | write args => rfl
  | serdez args => rfl
  | reduce args => rfl
  | fence args => cases h

end Request

/-! ## A batch of messages and its interleavings -/

/-- The messages `msg i` of a run: every key has a nonzero `sequence_id`, and exactly one fence, which
carries the number of the key's tracked messages, at least one, as an `unsigned`. -/
structure Batch (n : ℕ) where
  msg : Fin n → Request
  sequence_pos : ∀ i, 0 < (msg i).key.sequenceId
  fenceOf : Fin n → Fin n
  fenceArgs : Fin n → RemoteWriteFenceMessage.RequestArgs
  msg_fenceOf : ∀ i, msg (fenceOf i) = .fence (fenceArgs i)
  key_fenceOf : ∀ i, (msg (fenceOf i)).key = (msg i).key
  fence_unique : ∀ i j, (msg j).isFence = true → (msg j).key = (msg i).key → j = fenceOf i
  numWrites_eq : ∀ i, (fenceArgs i).numWrites =
    (Finset.univ.filter (fun j => (msg j).isFence = false ∧ (msg j).key = (msg i).key)).card
  numWrites_pos : ∀ i, 0 < (fenceArgs i).numWrites
  numWrites_lt : ∀ i, (fenceArgs i).numWrites < 2 ^ 32

/-- The node in the middle of a run: which handlers have applied their data, which have completed. -/
structure State (n : ℕ) where
  node : Node
  applied : Finset (Fin n)
  handled : Finset (Fin n)

/-- One atomic step of a handler thread: the data of a tracked message is applied without the lock, its
bookkeeping and the fence run under the lock. -/
inductive Event (n : ℕ)
  | apply (i : Fin n)
  | track (i : Fin n)

variable {n : ℕ}

def State.init : State n := ⟨.init, ∅, ∅⟩

def step (B : Batch n) (s : State n) : Event n → Option (State n)
  | .apply i =>
    if (B.msg i).isFence = true ∨ i ∈ s.applied then none
    else some { s with applied := insert i s.applied }
  | .track i =>
    if i ∈ s.handled ∨ ((B.msg i).isFence = false ∧ i ∉ s.applied) then none
    else some { s with node := (B.msg i).track s.node, handled := insert i s.handled }

/-! ## The two bookkeeping blocks -/

/-- The entry of a key whose fence has the arguments `a`, after `w` of its writes and, if `seen`, the
fence. -/
def entryOf (a : RemoteWriteFenceMessage.RequestArgs) (seen : Bool) (w : ℕ) : Option PartialWriteEntry :=
  if seen then if w = a.numWrites then none else some ⟨a.fence, int32 (a.numWrites - w)⟩
  else if w = 0 then none else some ⟨0, int32 (-w)⟩

/-- The acknowledgement that is due when fence and all writes of a key were handled. -/
def ackOf (key : PartialWriteKey) (a : RemoteWriteFenceMessage.RequestArgs) (seen : Bool) (w : ℕ) :
    List (PartialWriteKey × ℕ) :=
  if seen = true ∧ w = a.numWrites then [(key, a.fence)] else []

theorem filter_ackOf_self (k : PartialWriteKey) (a : RemoteWriteFenceMessage.RequestArgs) (seen : Bool)
    (w : ℕ) : (ackOf k a seen w).filter (fun x => x.1 = k) = ackOf k a seen w := by
  unfold ackOf
  split <;> simp

theorem filter_ackOf_of_ne {k k' : PartialWriteKey} (h : k' ≠ k)
    {a : RemoteWriteFenceMessage.RequestArgs} {seen : Bool} {w : ℕ} :
    (ackOf k a seen w).filter (fun x => x.1 = k') = [] := by
  unfold ackOf
  split <;> simp [h.symm]

theorem trackWrite_spec {k : PartialWriteKey} {a : RemoteWriteFenceMessage.RequestArgs} {nd : Node}
    {seen : Bool} {w : ℕ} (hk : 0 < k.sequenceId) (he : nd.partialRemoteWrites k = entryOf a seen w)
    (hw : w < a.numWrites) (hlt : a.numWrites < 2 ^ 32) :
    trackWrite k.sender k.sequenceId nd = { nd with
      partialRemoteWrites := Function.update nd.partialRemoteWrites k (entryOf a seen (w + 1))
      acks := nd.acks ++ ackOf k a seen (w + 1) } := by
  unfold trackWrite
  rw [if_pos hk]
  dsimp only
  rw [he]
  cases seen with
  | true =>
    have hne : w ≠ a.numWrites := by omega
    have hcount : int32 (int32 (a.numWrites - w) - 1) = int32 (a.numWrites - (w + 1 : ℕ)) := by
      rw [int32_int32_sub]
      congr 1
      omega
    simp only [entryOf, if_true, if_neg hne, ackOf, true_and, hcount]
    by_cases hlast : w + 1 = a.numWrites
    · rw [if_pos ((int32_eq_zero_iff (by omega) (by omega)).mpr (by omega)), if_pos hlast, if_pos hlast]
      rfl
    · have hnz : int32 (a.numWrites - (w + 1 : ℕ)) ≠ 0 := by
        rw [Ne, int32_eq_zero_iff (by omega) (by omega)]
        omega
      rw [if_neg hnz, if_neg hlast, if_neg hlast, List.append_nil]
      rfl
  | false =>
    simp only [entryOf, Bool.false_eq_true, if_false, ackOf, false_and, List.append_nil]
    rw [if_neg (Nat.succ_ne_zero w)]
    by_cases h0 : w = 0
    · subst h0
      rw [if_pos rfl]
      rfl
    · have hcount : int32 (int32 (-w) - 1) = int32 (-(w + 1 : ℕ)) := by
        rw [int32_int32_sub]
        congr 1
        omega
      have hnz : int32 (-(w + 1 : ℕ)) ≠ 0 := by
        rw [Ne, int32_eq_zero_iff (by omega) (by omega)]
        omega
      rw [if_neg h0]
      dsimp only
      rw [hcount, if_neg hnz]
      rfl

/-- The fence adds `num_writes` to what is there; a sum in the upper half of the unsigned range trips the
assertion. -/
theorem fence_handleRequest_spec {k : PartialWriteKey} {a : RemoteWriteFenceMessage.RequestArgs}
    {nd : Node} {w : ℕ} (hk : 0 < k.sequenceId) (hak : (⟨a.sender, a.sequenceId⟩ : PartialWriteKey) = k)
    (he : nd.partialRemoteWrites k = entryOf a false w) (hw : w ≤ a.numWrites) (hpos : 0 < a.numWrites)
    (hlt : a.numWrites < 2 ^ 32) :
    RemoteWriteFenceMessage.handleRequest a nd =
      if 0 < w ∧ 2 ^ 31 ≤ a.numWrites - w then { nd with failed := true }
      else { nd with
        partialRemoteWrites := Function.update nd.partialRemoteWrites k (entryOf a true w)
        acks := nd.acks ++ ackOf k a true w } := by
  subst hak
  simp only at hk
  unfold RemoteWriteFenceMessage.handleRequest
  rw [if_neg hk.ne']
  dsimp only
  rw [he]
  simp only [entryOf, Bool.false_eq_true, if_false, if_true, ackOf, true_and]
  by_cases h0 : w = 0
  · subst h0
    rw [if_pos rfl, if_neg hpos.ne, if_neg hpos.ne, if_neg (by omega), List.append_nil]
    simp only [Nat.cast_zero, sub_zero]
    rfl
  · have hcount : int32 (int32 (-w) + a.numWrites) = int32 (a.numWrites - w) := by
      rw [int32_int32_add]
      congr 1
      omega
    have hneg := int32_neg_iff (x := (a.numWrites : ℤ) - w) (by omega) (by omega)
    rw [if_neg h0]
    simp only [ne_eq, not_true_eq_false, if_false, hcount]
    by_cases hbig : 2 ^ 31 ≤ a.numWrites - w
    · rw [if_pos (hneg.mpr (by omega)), if_pos ⟨Nat.pos_of_ne_zero h0, hbig⟩]
    · have hnn : ¬ int32 ((a.numWrites : ℤ) - w) < 0 := by
        rw [hneg]
        omega
      rw [if_neg hnn, if_neg (fun h : 0 < w ∧ _ => hbig h.2)]
      by_cases hlast : w = a.numWrites
      · rw [if_pos ((int32_eq_zero_iff (by omega) (by omega)).mpr (by omega)), if_pos hlast, if_pos hlast]
        rfl
      · have hnz : int32 (a.numWrites - w) ≠ 0 := by
          rw [Ne, int32_eq_zero_iff (by omega) (by omega)]
          omega
        rw [if_neg hnz, if_neg hlast, if_neg hlast, List.append_nil]
        rfl

/-! ## Counting the handled messages of a key -/

namespace Batch

variable (B : Batch n)

/-- The number of tracked messages of `k` in `S`. -/
def writesOf (k : PartialWriteKey) (S : Finset (Fin n)) : ℕ :=
  (S.filter (fun j => (B.msg j).isFence = false ∧ (B.msg j).key = k)).card

variable {B} {i j : Fin n} {S : Finset (Fin n)}

theorem writesOf_le : B.writesOf (B.msg i).key S ≤ (B.fenceArgs i).numWrites := by
  rw [B.numWrites_eq]
  exact Finset.card_le_card (Finset.filter_subset_filter _ (Finset.subset_univ S))

theorem writesOf_insert_self (hf : (B.msg j).isFence = false) (hk : (B.msg j).key = (B.msg i).key)
    (hj : j ∉ S) : B.writesOf (B.msg i).key (insert j S) = B.writesOf (B.msg i).key S + 1 := by
  unfold writesOf
  rw [Finset.filter_insert, if_pos ⟨hf, hk⟩]
  exact Finset.card_insert_of_notMem (fun h => hj (Finset.mem_filter.mp h).1)

theorem writesOf_insert_of_ne {k : PartialWriteKey} (h : ¬ ((B.msg j).isFence = false ∧ (B.msg j).key = k)) :
    B.writesOf k (insert j S) = B.writesOf k S := by
  unfold writesOf
  rw [Finset.filter_insert, if_neg h]

theorem isFence_fenceOf : (B.msg (B.fenceOf i)).isFence = true := by
  rw [B.msg_fenceOf]
  rfl

theorem msg_eq_fence (hf : (B.msg i).isFence = true) : B.msg i = .fence (B.fenceArgs i) := by
  have hfi := B.msg_fenceOf i
  rwa [← B.fence_unique i i hf rfl] at hfi

/-- Fence and `num_writes` writes are all the messages of a key. -/
theorem complete_iff :
    (B.fenceOf i ∈ S ∧ B.writesOf (B.msg i).key S = (B.fenceArgs i).numWrites) ↔
      ∀ j, (B.msg j).key = (B.msg i).key → j ∈ S := by
  have hsub : S.filter (fun j => (B.msg j).isFence = false ∧ (B.msg j).key = (B.msg i).key) ⊆
      Finset.univ.filter (fun j => (B.msg j).isFence = false ∧ (B.msg j).key = (B.msg i).key) :=
    Finset.filter_subset_filter _ (Finset.subset_univ S)
  constructor
  · rintro ⟨hf, hw⟩ j hj
    cases hjf : (B.msg j).isFence with
    | true => exact B.fence_unique i j hjf hj ▸ hf
    | false =>
      rw [B.numWrites_eq] at hw
      have heq := Finset.eq_of_subset_of_card_le hsub hw.ge
      have hmem : j ∈ Finset.univ.filter
          (fun j => (B.msg j).isFence = false ∧ (B.msg j).key = (B.msg i).key) := by
        simp [hjf, hj]
      rw [← heq] at hmem
      exact (Finset.mem_filter.mp hmem).1
  · intro h
    refine ⟨h _ (B.key_fenceOf i), ?_⟩
    rw [B.numWrites_eq]
    refine congrArg Finset.card (Finset.Subset.antisymm hsub fun j hj => ?_)
    obtain ⟨-, hjf, hjk⟩ := Finset.mem_filter.mp hj
    exact Finset.mem_filter.mpr ⟨h j hjk, hjf, hjk⟩

/-- A key with a message outside `S` has no acknowledgement. -/
theorem ackOf_of_notMem (hi : i ∉ S) :
    ackOf (B.msg i).key (B.fenceArgs i) (decide (B.fenceOf i ∈ S)) (B.writesOf (B.msg i).key S) = [] := by
  unfold ackOf
  rw [if_neg]
  rintro ⟨hf, hw⟩
  exact hi (complete_iff.mp ⟨of_decide_eq_true hf, hw⟩ i rfl)

/-- A key is untouched when neither its fence nor a write was handled. -/
theorem untouched_iff :
    (B.fenceOf i ∉ S ∧ B.writesOf (B.msg i).key S = 0) ↔ ∀ j, (B.msg j).key = (B.msg i).key → j ∉ S := by
  unfold writesOf
  rw [Finset.card_eq_zero, Finset.filter_eq_empty_iff]
  constructor
  · rintro ⟨hf, hw⟩ j hj hjS
    cases hjf : (B.msg j).isFence with
    | true => exact hf (B.fence_unique i j hjf hj ▸ hjS)
    | false => exact hw hjS ⟨hjf, hj⟩
  · intro h
    exact ⟨h _ (B.key_fenceOf i), fun j hj hk => h j hk.2 hj⟩

end Batch

/-! ## The invariant -/

/-- Entries and acknowledgements are determined by the messages handled so far. -/
structure Inv (B : Batch n) (s : State n) : Prop where
  failed : s.node.failed = false
  applied : ∀ i ∈ s.handled, (B.msg i).isFence = false → i ∈ s.applied
  entry : ∀ i, s.node.partialRemoteWrites (B.msg i).key =
    entryOf (B.fenceArgs i) (decide (B.fenceOf i ∈ s.handled)) (B.writesOf (B.msg i).key s.handled)
  other : ∀ k, (∀ i, (B.msg i).key ≠ k) → s.node.partialRemoteWrites k = none
  acks : ∀ i, s.node.acks.filter (fun a => a.1 = (B.msg i).key) =
    ackOf (B.msg i).key (B.fenceArgs i) (decide (B.fenceOf i ∈ s.handled))
      (B.writesOf (B.msg i).key s.handled)
  acked : ∀ a ∈ s.node.acks, ∃ i, (B.msg i).key = a.1

theorem Inv.init (B : Batch n) : Inv B State.init where
  failed := rfl
  applied := fun i hi => absurd hi (Finset.notMem_empty i)
  entry := by
    intro i
    simp [State.init, Node.init, entryOf, Batch.writesOf]
  other := fun _ _ => rfl
  acks := by
    intro i
    have hpos := B.numWrites_pos i
    simp [State.init, Node.init, ackOf]
  acked := fun _ ha => absurd ha List.not_mem_nil

/-- **What one handler does**: its entry and the acknowledgements are those for the messages handled after
it, if the fence is not too large. -/
theorem Inv.track {B : Batch n} {s : State n} (hs : Inv B s) {i : Fin n} (hi : i ∉ s.handled)
    (hN : (B.fenceArgs i).numWrites ≤ 2 ^ 31) :
    (B.msg i).track s.node = { s.node with
      partialRemoteWrites := Function.update s.node.partialRemoteWrites (B.msg i).key
        (entryOf (B.fenceArgs i) (decide (B.fenceOf i ∈ insert i s.handled))
          (B.writesOf (B.msg i).key (insert i s.handled)))
      acks := s.node.acks ++ ackOf (B.msg i).key (B.fenceArgs i)
        (decide (B.fenceOf i ∈ insert i s.handled)) (B.writesOf (B.msg i).key (insert i s.handled)) } := by
  have he := hs.entry i
  cases hf : (B.msg i).isFence with
  | true =>
    -- the fence itself: the number of writes does not change
    have hm := Batch.msg_eq_fence (B := B) hf
    have hfi : B.fenceOf i = i := (B.fence_unique i i hf rfl).symm
    have hseen : decide (B.fenceOf i ∈ s.handled) = false := by simpa [hfi] using hi
    have hseen' : decide (B.fenceOf i ∈ insert i s.handled) = true := by simp [hfi]
    rw [hseen] at he
    rw [hseen', Batch.writesOf_insert_of_ne (by simp [hf])]
    have hkey : (⟨(B.fenceArgs i).sender, (B.fenceArgs i).sequenceId⟩ : PartialWriteKey) = (B.msg i).key := by
      rw [hm]
      rfl
    have hspec := fence_handleRequest_spec (B.sequence_pos i) hkey he Batch.writesOf_le
      (B.numWrites_pos i) (B.numWrites_lt i)
    rw [if_neg (by omega)] at hspec
    refine Eq.trans ?_ hspec
    nth_rewrite 1 [hm]
    rfl
  | false =>
    have hne : B.fenceOf i ≠ i := by
      intro h
      have := Batch.isFence_fenceOf (B := B) (i := i)
      rw [h, hf] at this
      cases this
    have hseen : decide (B.fenceOf i ∈ insert i s.handled) = decide (B.fenceOf i ∈ s.handled) := by
      simp [hne]
    have hw := Batch.writesOf_insert_self hf (rfl : (B.msg i).key = (B.msg i).key) hi
    have hle : B.writesOf (B.msg i).key (insert i s.handled) ≤ (B.fenceArgs i).numWrites :=
      Batch.writesOf_le
    rw [hseen, hw, Request.track_of_not_isFence hf]
    exact trackWrite_spec (B.sequence_pos i) he (by omega) (B.numWrites_lt i)

/-- A handled message leaves the counts of the other keys alone. -/
theorem Batch.handled_insert_of_key_ne {B : Batch n} {i j : Fin n} {S : Finset (Fin n)}
    (h : (B.msg j).key ≠ (B.msg i).key) :
    decide (B.fenceOf j ∈ insert i S) = decide (B.fenceOf j ∈ S) ∧
      B.writesOf (B.msg j).key (insert i S) = B.writesOf (B.msg j).key S := by
  have hne : B.fenceOf j ≠ i := by
    rintro rfl
    exact h (B.key_fenceOf j).symm
  refine ⟨by simp [hne], writesOf_insert_of_ne ?_⟩
  rintro ⟨-, hk⟩
  exact h hk.symm

/-- The fence arguments are the key's. -/
theorem Batch.fenceArgs_eq_of_key {B : Batch n} {i j : Fin n} (h : (B.msg j).key = (B.msg i).key) :
    B.fenceOf j = B.fenceOf i ∧ B.fenceArgs j = B.fenceArgs i := by
  have hf : B.fenceOf j = B.fenceOf i :=
    B.fence_unique i _ isFence_fenceOf ((B.key_fenceOf j).trans h)
  have hm := B.msg_fenceOf j
  rw [hf, B.msg_fenceOf i] at hm
  injection hm with hm
  exact ⟨hf, hm.symm⟩

theorem Inv.step {B : Batch n} {s s' : State n} (hN : ∀ i, (B.fenceArgs i).numWrites ≤ 2 ^ 31)
    (hs : Inv B s) {e : Event n} (h : step B s e = some s') : Inv B s' := by
  cases e with
  | apply i =>
    simp only [Mem.step] at h
    split at h
    · cases h
    · cases h
      exact { hs with applied := fun j hj hf => Finset.mem_insert_of_mem (hs.applied j hj hf) }
  | track i =>
    simp only [Mem.step] at h
    split at h
    · cases h
    · rename_i hen
      cases h
      obtain ⟨hi, hen⟩ := not_or.mp hen
      have ht := hs.track hi (hN i)
      refine ⟨by rw [ht]; exact hs.failed, ?_, ?_, ?_, ?_, ?_⟩
      · intro j hj hf
        rcases Finset.mem_insert.mp hj with rfl | hj
        · by_contra hna
          exact hen ⟨hf, hna⟩
        · exact hs.applied j hj hf
      · intro j
        rw [ht]
        by_cases hk : (B.msg j).key = (B.msg i).key
        · obtain ⟨hfo, hfa⟩ := Batch.fenceArgs_eq_of_key hk
          rw [hk, hfo, hfa]
          exact Function.update_self _ _ _
        · obtain ⟨hd, hw⟩ := Batch.handled_insert_of_key_ne (S := s.handled) hk
          rw [hd, hw, ← hs.entry j]
          exact Function.update_of_ne hk _ _
      · intro k hk
        rw [ht]
        exact (Function.update_of_ne (hk i).symm _ _).trans (hs.other k hk)
      · intro j
        rw [ht]
        simp only [List.filter_append]
        rw [hs.acks j]
        by_cases hk : (B.msg j).key = (B.msg i).key
        · obtain ⟨hfo, hfa⟩ := Batch.fenceArgs_eq_of_key hk
          rw [hk, hfo, hfa, Batch.ackOf_of_notMem hi, List.nil_append]
          exact filter_ackOf_self _ _ _ _
        · obtain ⟨hd, hw⟩ := Batch.handled_insert_of_key_ne (S := s.handled) hk
          rw [hd, hw, filter_ackOf_of_ne hk, List.append_nil]
      · intro a ha
        rw [ht] at ha
        rcases List.mem_append.mp ha with ha | ha
        · exact hs.acked a ha
        · unfold ackOf at ha
          split at ha
          · exact ⟨i, by rw [List.mem_singleton.mp ha]⟩
          · cases ha

/-! ## Every interleaving -/

/-- What the node owes to the senders of a batch: no failed assertion, an entry exactly for the keys that
are partly handled, and per key one acknowledgement, sent by the handler of its last message, after all its
writes were applied. -/
structure AckedOnce (B : Batch n) (s : State n) : Prop where
  failed : s.node.failed = false
  entry : ∀ k, (s.node.partialRemoteWrites k).isSome = true ↔
    (∃ i, (B.msg i).key = k ∧ i ∈ s.handled) ∧ ∃ i, (B.msg i).key = k ∧ i ∉ s.handled
  acks : ∀ i, s.node.acks.filter (fun a => a.1 = (B.msg i).key) =
    if ∀ j, (B.msg j).key = (B.msg i).key → j ∈ s.handled then [((B.msg i).key, (B.fenceArgs i).fence)]
    else []
  acked : ∀ a ∈ s.node.acks, ∃ i, (B.msg i).key = a.1
  last : ∀ i s', step B s (.track i) = some s' → s'.node.acks = s.node.acks ++
    if ∀ j, (B.msg j).key = (B.msg i).key → j ∈ s'.handled then [((B.msg i).key, (B.fenceArgs i).fence)]
    else []
  applied : ∀ i, (∀ j, (B.msg j).key = (B.msg i).key → j ∈ s.handled) →
    ∀ j, (B.msg j).key = (B.msg i).key → (B.msg j).isFence = false → j ∈ s.applied

theorem Batch.ackOf_eq_ite (B : Batch n) (i : Fin n) (S : Finset (Fin n)) :
    ackOf (B.msg i).key (B.fenceArgs i) (decide (B.fenceOf i ∈ S)) (B.writesOf (B.msg i).key S) =
      if ∀ j, (B.msg j).key = (B.msg i).key → j ∈ S then [((B.msg i).key, (B.fenceArgs i).fence)]
      else [] := by
  unfold ackOf
  refine if_congr ?_ rfl rfl
  rw [decide_eq_true_iff]
  exact complete_iff

/-- An entry stands for a key that is neither untouched nor complete. -/
theorem Batch.isSome_entryOf_iff {B : Batch n} {i : Fin n} {S : Finset (Fin n)} :
    (entryOf (B.fenceArgs i) (decide (B.fenceOf i ∈ S)) (B.writesOf (B.msg i).key S)).isSome = true ↔
      (∃ j, (B.msg j).key = (B.msg i).key ∧ j ∈ S) ∧ ∃ j, (B.msg j).key = (B.msg i).key ∧ j ∉ S := by
  have hpos := B.numWrites_pos i
  have hc := complete_iff (B := B) (i := i) (S := S)
  have hu := untouched_iff (B := B) (i := i) (S := S)
  have hall : (∃ j, (B.msg j).key = (B.msg i).key ∧ j ∉ S) ↔
      ¬ (B.fenceOf i ∈ S ∧ B.writesOf (B.msg i).key S = (B.fenceArgs i).numWrites) := by
    rw [hc]
    push Not
    rfl
  have hnone : (∃ j, (B.msg j).key = (B.msg i).key ∧ j ∈ S) ↔
      ¬ (B.fenceOf i ∉ S ∧ B.writesOf (B.msg i).key S = 0) := by
    rw [hu]
    push Not
    rfl
  rw [hall, hnone]
  unfold entryOf
  by_cases hf : B.fenceOf i ∈ S
  · by_cases hw : B.writesOf (B.msg i).key S = (B.fenceArgs i).numWrites <;> simp [hf, hw]
  · by_cases hw : B.writesOf (B.msg i).key S = 0 <;> simp [hf, hw]

theorem Inv.ackedOnce {B : Batch n} {s : State n} (hN : ∀ i, (B.fenceArgs i).numWrites ≤ 2 ^ 31)
    (hs : Inv B s) : AckedOnce B s where
  failed := hs.failed
  entry := by
    intro k
    by_cases hk : ∃ i, (B.msg i).key = k
    · obtain ⟨i, rfl⟩ := hk
      rw [hs.entry i]
      exact Batch.isSome_entryOf_iff
    · push Not at hk
      rw [hs.other k hk]
      simp [hk]
  acks := by
    intro i
    rw [hs.acks i]
    exact B.ackOf_eq_ite i s.handled
  acked := hs.acked
  last := by
    intro i s' h
    simp only [Mem.step] at h
    split at h
    · cases h
    · rename_i hen
      cases h
      rw [hs.track (not_or.mp hen).1 (hN i)]
      exact congrArg (s.node.acks ++ ·) (B.ackOf_eq_ite i _)
  applied := fun _ hall j hj hf => hs.applied j (hall j hj) hf

/-- One write, then a fence that announces more than `2 ^ 31` writes: the sum reads as negative. -/
theorem fence_after_write_fails (B : Batch n) {i j : Fin n} (hN : 2 ^ 31 < (B.fenceArgs i).numWrites)
    (hjf : (B.msg j).isFence = false) (hjk : (B.msg j).key = (B.msg i).key) :
    ∃ s, run (step B) State.init [.apply j, .track j, .track (B.fenceOf i)] = some s ∧
      s.node.failed = true := by
  have hne : B.fenceOf i ≠ j := by
    rintro rfl
    rw [Batch.isFence_fenceOf] at hjf
    cases hjf
  have hentry : ((B.msg j).track Node.init).partialRemoteWrites (B.msg i).key =
      entryOf (B.fenceArgs i) false 1 := by
    have h0 : Node.init.partialRemoteWrites (B.msg i).key = entryOf (B.fenceArgs i) false 0 := rfl
    have hspec := trackWrite_spec (B.sequence_pos i) h0 (B.numWrites_pos i) (B.numWrites_lt i)
    rw [Request.track_of_not_isFence hjf, hjk, hspec]
    exact Function.update_self _ _ _
  have hkey : (⟨(B.fenceArgs i).sender, (B.fenceArgs i).sequenceId⟩ : PartialWriteKey) = (B.msg i).key := by
    rw [← B.key_fenceOf i, B.msg_fenceOf i]
    rfl
  have hfence := fence_handleRequest_spec (B.sequence_pos i) hkey hentry (B.numWrites_pos i)
    (B.numWrites_pos i) (B.numWrites_lt i)
  rw [if_pos (by omega)] at hfence
  refine ⟨⟨(B.msg (B.fenceOf i)).track ((B.msg j).track Node.init), {j}, {B.fenceOf i, j}⟩, ?_, ?_⟩
  · simp [run_cons, Mem.step, State.init, hjf, hne, Batch.isFence_fenceOf]
  · rw [B.msg_fenceOf i]
    exact congrArg Node.failed hfence

/-- **The fence is acknowledged exactly once, in every interleaving, if and only if** no fence announces
more than `2 ^ 31` writes. -/
theorem ackedOnce_iff (B : Batch n) :
    (∀ es s, run (step B) State.init es = some s → AckedOnce B s) ↔
      ∀ i, (B.fenceArgs i).numWrites ≤ 2 ^ 31 := by
  constructor
  · intro h i
    by_contra hN
    have hcard := B.numWrites_pos i
    rw [B.numWrites_eq] at hcard
    obtain ⟨j, hj⟩ := Finset.card_pos.mp hcard
    obtain ⟨-, hjf, hjk⟩ := Finset.mem_filter.mp hj
    obtain ⟨s, hrun, hfail⟩ := fence_after_write_fails B (by omega) hjf hjk
    have hok := (h _ s hrun).failed
    rw [hfail] at hok
    cases hok
  · intro hN es s hrun
    have hinv : Inv B s := run_inv (fun t e t' ht h => ht.step hN h) (Inv.init B) hrun
    exact hinv.ackedOnce hN

/-- One key with the fence as message `0` and `m` writes. -/
def oneKey (m : ℕ) (hpos : 0 < m) (hlt : m < 2 ^ 32) : Batch (m + 1) where
  msg i := if i = 0 then .fence ⟨0, 1, m, 8⟩ else .write ⟨0, 1⟩
  sequence_pos := by
    intro i
    by_cases h : i = 0 <;> simp [h, Request.key]
  fenceOf _ := 0
  fenceArgs _ := ⟨0, 1, m, 8⟩
  msg_fenceOf _ := rfl
  key_fenceOf := by
    intro i
    by_cases h : i = 0 <;> simp [h, Request.key]
  fence_unique := by
    intro i j hf _
    by_contra h
    simp [h, Request.isFence] at hf
  numWrites_eq := by
    intro i
    have hset : (Finset.univ.filter fun j : Fin (m + 1) =>
        (if j = 0 then Request.fence ⟨0, 1, m, 8⟩ else .write ⟨0, 1⟩).isFence = false ∧
        (if j = 0 then Request.fence ⟨0, 1, m, 8⟩ else .write ⟨0, 1⟩).key =
          (if i = 0 then Request.fence ⟨0, 1, m, 8⟩ else .write ⟨0, 1⟩).key) = Finset.univ.erase 0 := by
      ext j
      by_cases hj : j = 0 <;> by_cases hi : i = 0 <;> simp [hj, hi, Request.isFence, Request.key]
    rw [hset, Finset.card_erase_of_mem (Finset.mem_univ _), Finset.card_univ, Fintype.card_fin,
      Nat.add_sub_cancel]
  numWrites_pos _ := hpos
  numWrites_lt _ := hlt

/-- `2 ^ 31 + 1` writes, the first of them and then the fence handled: `assert(entry.remaining_count >= 0)`
fails although no write came too often. -/
theorem ackedOnce_fails :
    ∃ s, run (step (oneKey (2 ^ 31 + 1) (by omega) (by omega))) State.init
        [.apply 1, .track 1, .track 0] = some s ∧
      ¬ AckedOnce (oneKey (2 ^ 31 + 1) (by omega) (by omega)) s := by
  obtain ⟨s, hrun, hfail⟩ := fence_after_write_fails (oneKey (2 ^ 31 + 1) (by omega) (by omega))
    (i := 0) (j := 1) (Nat.lt_succ_self (2 ^ 31)) rfl rfl
  refine ⟨s, hrun, fun h => ?_⟩
  have hok := h.failed
  rw [hfail] at hok
  cases hok

end Realm.Mem

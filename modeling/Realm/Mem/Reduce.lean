import Realm.Lib.Collect
import Realm.Mem.Strided

/-!
# Realm.Mem.Reduce — remote reductions (`do_remote_reduce`, `RemoteReduceMessage::handle_request`)

A reduction into the memory of another node is sent in pieces of as many elements as fit into the long message
buffer.  The receiver gets the number of elements from the length of the data, and whether they are to be folded from
the sign of `redop_id`.

* `handleRequest`: the receiver, as the list of the operations that `apply_strided` or `fold_strided` perform.
* `handleAll`: all the requests of a reduction, in the order of the list.
* `Reduces`: every element is reduced once, whatever the order.
* `remoteReduce_reduces`: this is so for the ids that the encoding of the fold flag leaves room for.
-/

namespace Realm.Reduce

open Lib RemoteWrite AmMpi Strided

/-! ## The receiver -/

/-- One element: `apply` or `fold` of the reduction `redopId` at the offset `lhs`, with the bytes `rhs`. -/
structure Operation where
  redopId : Word
  redFold : Bool
  lhs : Addr
  rhs : List Byte
deriving DecidableEq

/-- `apply_strided` and `fold_strided`: `lhs` advances by `stride`, `rhs` by `rhsSize`. -/
def strided (redopId : Word) (redFold : Bool) (stride : Addr) (rhsSize : ℕ) : ℕ → Addr → List Byte → List Operation
  | 0, _, _ => []
  | count + 1, lhs, rhs => ⟨redopId, redFold, lhs, rhs.take rhsSize⟩ ::
      strided redopId redFold stride rhsSize count (lhs + stride) (rhs.drop rhsSize)

section Receiver

variable (sizeofRhs : Word → ℕ)

/-- The end of `handle_request`, once the operation is known. -/
def reduceAll (args : ReduceArgs) (data : List Byte) (redopId : Word) (redFold : Bool) : Option (List Operation) :=
  let rhsSize := sizeofRhs redopId
  if rhsSize = 0 then none
  else some (strided redopId redFold (args.stride.signExtend 64) rhsSize (data.length / rhsSize) args.offset data)

/-- `RemoteReduceMessage::handle_request`, up to the sequence id; `sizeofRhs` is the table of reductions. -/
def handleRequest (args : ReduceArgs) (data : List Byte) : Option (List Operation) :=
  if 0 < args.redopId.toInt then reduceAll sizeofRhs args data args.redopId false
  else if args.redopId.toInt < 0 then reduceAll sizeofRhs args data (-args.redopId) true
  else none

/-- A request is handled with the data that `copy_data` gathers. -/
def handle (m : Memory) (r : Request ReduceArgs) : Option (List Operation) :=
  (r.payload.copyData m).bind (handleRequest sizeofRhs r.args)

/-- The requests are handled one after the other. -/
def handleAll (m : Memory) (reqs : List (Request ReduceArgs)) : Option (List Operation) :=
  collect (handle sizeofRhs m) reqs

end Receiver

/-! ## What is to be shown -/

/-- What is asked for element `k`. -/
def element (m : Memory) (redopId : Word) (redFold : Bool) (off dstStride data srcStride : Addr) (rhsSize k : ℕ) :
    Operation where
  redopId := redopId
  redFold := redFold
  lhs := off + dstStride * BitVec.ofNat 64 k
  rhs := cellsAt m (data + srcStride * BitVec.ofNat 64 k) rhsSize

/-- Whatever the order in which the requests are handled, every element is reduced exactly once. -/
def Reduces (sizeofRhs : Word → ℕ) (redopId : Word) (redFold : Bool) (off dstStride data srcStride : Addr) (count : ℕ)
    (reqs : List (Request ReduceArgs)) : Prop :=
  ∀ m reqs', reqs'.Perm reqs → ∃ ops, handleAll sizeofRhs m reqs' = some ops ∧
    ops.Perm ((List.range count).map
      (element m redopId redFold off dstStride data srcStride (sizeofRhs redopId)))

/-! ## Elements -/

section Elements

variable {redopId : Word} {redFold : Bool} {stride : Addr} {rhsSize : ℕ}

/-- The operations on two blocks of whole elements. -/
theorem strided_append {a b : ℕ} {lhs : Addr} {xs ys : List Byte} (hlen : xs.length = rhsSize * a) :
    strided redopId redFold stride rhsSize (a + b) lhs (xs ++ ys) =
      strided redopId redFold stride rhsSize a lhs xs ++
        strided redopId redFold stride rhsSize b (lhs + stride * BitVec.ofNat 64 a) ys := by
  induction a generalizing lhs xs with
  | zero =>
    obtain rfl : xs = [] := List.eq_nil_of_length_eq_zero (by simpa using hlen)
    simp [strided]
  | succ a ih =>
    rw [Nat.mul_succ] at hlen
    have hdrop : (xs.drop rhsSize).length = rhsSize * a := by
      rw [List.length_drop]
      omega
    rw [Nat.add_right_comm, strided, strided, List.take_append_of_le_length (by omega),
      List.drop_append_of_le_length (by omega), ih hdrop, List.cons_append]
    congr 3
    rw [Nat.add_comm a 1, BitVec.ofNat_add, BitVec.mul_add, BitVec.add_assoc]
    simp

/-- The operations on gathered elements. -/
theorem strided_gather (m : Memory) (off data srcStride : Addr) (n : ℕ) :
    strided redopId redFold stride rhsSize n off (gather m data rhsSize srcStride n) =
      (List.range n).map (element m redopId redFold off stride data srcStride rhsSize) := by
  induction n with
  | zero => rfl
  | succ n ih =>
    have hone : gather m (data + srcStride * BitVec.ofNat 64 n) rhsSize srcStride 1 =
        cellsAt m (data + srcStride * BitVec.ofNat 64 n) rhsSize := List.append_nil _
    rw [gather_add, strided_append (length_gather ..), ih, List.range_succ, List.map_append, hone]
    congr 1
    simp [strided, element, List.take_of_length_le]

end Elements

/-! ## One request -/

/-- `args.redop_id` -/
def encode (redopId : Word) (redFold : Bool) : Word := if redFold then -redopId else redopId

/-- A positive id and the fold flag are found again. -/
theorem handleRequest_encode (sizeofRhs : Word → ℕ) {redopId : Word} (hid : 0 < redopId.toInt)
    (hrhs : sizeofRhs redopId ≠ 0) {args : ReduceArgs} {redFold : Bool} (hargs : args.redopId = encode redopId redFold)
    (data : List Byte) :
    handleRequest sizeofRhs args data =
      some (strided redopId redFold (args.stride.signExtend 64) (sizeofRhs redopId)
        (data.length / sizeofRhs redopId) args.offset data) := by
  unfold handleRequest reduceAll
  cases redFold with
  | false =>
    have hargs : args.redopId = redopId := hargs
    rw [hargs, if_pos hid, if_neg hrhs]
  | true =>
    have hargs : args.redopId = -redopId := hargs
    have hneg : (-redopId).toInt = -redopId.toInt := by
      have hlt := BitVec.toInt_lt (x := redopId)
      rw [BitVec.toInt_neg]
      exact Int.bmod_eq_of_le (by omega) (by omega)
    rw [hargs, hneg, if_neg (by omega), if_pos (by omega), neg_neg, if_neg hrhs]

/-! ## The sender -/

section Sender

variable {sizeofRhs : Word → ℕ} {t : Target} {off dstStride : Addr} {redopId seq : Word} {redFold : Bool}
  (mode : PayloadMode) (srcStride : Addr)

/-- The arguments of a request for the elements from `n` on. -/
def argsAt (t : Target) (off dstStride : Addr) (redopId : Word) (redFold : Bool) (seq : Word) (n : ℕ) : ReduceArgs :=
  ⟨t.mem, off + dstStride * BitVec.ofNat 64 n, dstStride.setWidth 32, encode redopId redFold, t.myNodeId, seq⟩

theorem handleAll_single (hid : 0 < redopId.toInt) (hrhs : sizeofRhs redopId ≠ 0)
    (hfit : (dstStride.setWidth 32).signExtend 64 = dstStride) (m : Memory) (n k : ℕ) (pos dstptr : Addr) :
    handleAll sizeofRhs m [⟨t.ownerNode, argsAt t off dstStride redopId redFold seq n,
        .twoD pos (sizeofRhs redopId) k srcStride mode, dstptr⟩] =
      some (strided redopId redFold dstStride (sizeofRhs redopId) k (off + dstStride * BitVec.ofNat 64 n)
        (gather m pos (sizeofRhs redopId) srcStride k)) := by
  have hcopy : (PayloadSource.twoD pos (sizeofRhs redopId) k srcStride mode).copyData m =
      some (gather m pos (sizeofRhs redopId) srcStride k) :=
    congrArg some (PayloadSource.copyLines_eq_gather m _ srcStride k pos)
  have hlen : (gather m pos (sizeofRhs redopId) srcStride k).length / sizeofRhs redopId = k := by
    rw [length_gather, Nat.mul_div_cancel_left k (Nat.pos_of_ne_zero hrhs)]
  have hhandle : handleRequest sizeofRhs (argsAt t off dstStride redopId redFold seq n)
      (gather m pos (sizeofRhs redopId) srcStride k) =
        some (strided redopId redFold dstStride (sizeofRhs redopId) k (off + dstStride * BitVec.ofNat 64 n)
          (gather m pos (sizeofRhs redopId) srcStride k)) := by
    rw [handleRequest_encode sizeofRhs hid hrhs rfl, hlen]
    simp only [argsAt, hfit]
  refine collect_singleton ?_
  rw [handle, hcopy, Option.bind_some, hhandle]

/-- **Loop invariant.**  The elements in `bytes` have been sent, `args` is ready for the next one, and `xfers` is one
ahead of the number of requests. -/
structure Sending (sizeofRhs : Word → ℕ) (t : Target) (off dstStride : Addr) (redopId : Word) (redFold : Bool)
    (seq : Word) (m : Memory) (bytes : List Byte) (c : Cursor ReduceArgs) : Prop where
  handled : ∃ n, bytes.length = sizeofRhs redopId * n ∧ c.args = argsAt t off dstStride redopId redFold seq n ∧
    handleAll sizeofRhs m c.sent =
      some (strided redopId redFold dstStride (sizeofRhs redopId) n off bytes)
  count : c.count = int32 (1 + c.sent.length)

theorem Sending.init (m : Memory) :
    Sending sizeofRhs t off dstStride redopId redFold seq m []
      ⟨[], argsAt t off dstStride redopId redFold seq 0, 1⟩ where
  handled := ⟨0, rfl, rfl, rfl⟩
  count := (int32_eq_self (x := 1) (by omega) (by omega)).symm

/-- The next request, with its elements. -/
theorem Sending.request {m : Memory} {bytes : List Byte} {c : Cursor ReduceArgs}
    (h : Sending sizeofRhs t off dstStride redopId redFold seq m bytes c) (hid : 0 < redopId.toInt)
    (hrhs : sizeofRhs redopId ≠ 0) (hfit : (dstStride.setWidth 32).signExtend 64 = dstStride) (pos : Addr) (k : ℕ) :
    ∃ n, bytes.length = sizeofRhs redopId * n ∧ c.args = argsAt t off dstStride redopId redFold seq n ∧
      handleAll sizeofRhs m (c.request t (.twoD pos (sizeofRhs redopId) k srcStride mode)).sent =
        some (strided redopId redFold dstStride (sizeofRhs redopId) (n + k) off
          (bytes ++ gather m pos (sizeofRhs redopId) srcStride k)) := by
  obtain ⟨n, hlen, hargs, hhandled⟩ := h.handled
  refine ⟨n, hlen, hargs, ?_⟩
  rw [strided_append hlen, Cursor.request, hargs]
  exact collect_append hhandled (handleAll_single mode srcStride hid hrhs hfit m n k pos 0)

theorem Sending.push {m : Memory} {bytes : List Byte} {c : Cursor ReduceArgs}
    (h : Sending sizeofRhs t off dstStride redopId redFold seq m bytes c) (hid : 0 < redopId.toInt)
    (hrhs : sizeofRhs redopId ≠ 0) (hfit : (dstStride.setWidth 32).signExtend 64 = dstStride) (pos : Addr) (k : ℕ) :
    Sending sizeofRhs t off dstStride redopId redFold seq m (bytes ++ gather m pos (sizeofRhs redopId) srcStride k)
      ((c.request t (.twoD pos (sizeofRhs redopId) k srcStride mode)).advance
        (ReduceArgs.addOffset (dstStride * BitVec.ofNat 64 k))) where
  handled := by
    obtain ⟨n, hlen, hargs, hhandled⟩ := h.request mode srcStride hid hrhs hfit pos k
    refine ⟨n + k, ?_, ?_, hhandled⟩
    · rw [List.length_append, length_gather, hlen, Nat.mul_add]
    · simp only [Cursor.advance, Cursor.request, ReduceArgs.addOffset, hargs, argsAt, BitVec.ofNat_add, BitVec.mul_add,
        BitVec.add_assoc]
  count := by
    simp only [Cursor.advance, Cursor.request, h.count, List.length_append, List.length_singleton, int32_int32_add,
      Nat.cast_add, Nat.cast_one, add_assoc]

end Sender

/-- **A remote reduction reduces every element once**, for every positive id, and returns the number of requests as
long as that is an `unsigned`. -/
theorem remoteReduce_reduces (sizeofRhs : Word → ℕ) (t : Target) (off : Addr) {redopId : Word}
    (hid : 0 < redopId.toInt) (redFold : Bool) (hrhs : 1 ≤ sizeofRhs redopId) (hmax : sizeofRhs redopId ≤ t.lmbSize)
    (data : Addr) {count : ℕ} (hcount : 1 ≤ count) (srcStride : Addr) {dstStride : Addr}
    (hfit : (dstStride.setWidth 32).signExtend 64 = dstStride) (seq : Word) (mk : Bool) {fuel : ℕ}
    (hfuel : count ≤ fuel) :
    ∃ reqs xfers, doRemoteReduce t fuel off redopId redFold (sizeofRhs redopId) data count srcStride dstStride seq mk =
        some (reqs, xfers) ∧
      Reduces sizeofRhs redopId redFold off dstStride data srcStride count reqs ∧
      (reqs.length < 2 ^ 32 → xfers = reqs.length) := by
  have hrhs0 : sizeofRhs redopId ≠ 0 := by omega
  have hper : 0 < t.lmbSize / sizeofRhs redopId := Nat.div_pos hmax hrhs
  have hok : ¬(sizeofRhs redopId = 0 ∨ t.lmbSize / sizeofRhs redopId = 0) := by omega
  -- any order gives the operations of the order of the list
  have hreduces : ∀ reqs, (∀ m, handleAll sizeofRhs m reqs =
      some (strided redopId redFold dstStride (sizeofRhs redopId) count off
        (gather m data (sizeofRhs redopId) srcStride count))) →
      Reduces sizeofRhs redopId redFold off dstStride data srcStride count reqs := by
    intro reqs h m reqs' hp
    rw [← strided_gather m off data srcStride count]
    exact collect_perm hp (h m)
  have hargs : (⟨t.mem, off, dstStride.setWidth 32, if redFold then -redopId else redopId, t.myNodeId, seq⟩ :
      ReduceArgs) = argsAt t off dstStride redopId redFold seq 0 := by
    simp [argsAt, encode]
  simp only [doRemoteReduce, if_neg hok, hfit, ne_eq, not_true, if_false, hargs]
  by_cases hsplit : count > t.lmbSize / sizeofRhs redopId
  · obtain ⟨k, c, rest, hrun, hsum, -, -, -, hsend⟩ := lineLoop_spec (payloadMode mk) hper
      (fun m bytes c pos (h : Sending sizeofRhs t off dstStride redopId redFold seq m bytes c) =>
        h.push (payloadMode mk) srcStride hid hrhs0 hfit pos _)
      fuel ⟨[], argsAt t off dstStride redopId redFold seq 0, 1⟩ data count hcount hfuel
    rw [if_pos hsplit, hrun]
    refine ⟨_, _, rfl, hreduces _ fun m => ?_, fun hlt => ?_⟩
    · obtain ⟨n, hlen, -, hhandled⟩ := (hsend m [] (Sending.init m)).request (payloadMode mk) srcStride hid hrhs0 hfit
        (data + srcStride * BitVec.ofNat 64 (k * (t.lmbSize / sizeofRhs redopId))) rest
      rw [List.nil_append, length_gather] at hlen
      have hn : n = k * (t.lmbSize / sizeofRhs redopId) := (Nat.eq_of_mul_eq_mul_left hrhs hlen).symm
      rw [hhandled, List.nil_append, ← gather_add, hn, ← hsum]
    · have hxfers := (hsend (fun _ => 0) [] (Sending.init _)).count
      rw [Cursor.request, List.length_append, List.length_singleton] at hlt
      show (c.count % 2 ^ 32).toNat = (c.sent ++ [_]).length
      rw [List.length_append, List.length_singleton, hxfers, add_comm, ← Nat.cast_succ, toNat_int32_emod]
      exact Nat.mod_eq_of_lt hlt
  · rw [if_neg hsplit]
    refine ⟨_, _, rfl, hreduces _ fun m => ?_, fun _ => rfl⟩
    rw [handleAll_single (payloadMode mk) srcStride hid hrhs0 hfit m 0 count data 0]
    simp

/-- A fold of five elements of four bytes through a buffer of eight, downwards in the destination. -/
theorem remoteReduce_five_elements :
    ∃ reqs xfers, doRemoteReduce ⟨5, 1, 0, none, 8⟩ 5 64 2 true 4 4096 5 16 (-8) 9 false = some (reqs, xfers) ∧
      Reduces (fun _ => 4) 2 true 64 (-8) 4096 16 5 reqs ∧ (reqs.length < 2 ^ 32 → xfers = reqs.length) :=
  remoteReduce_reduces (fun _ => 4) ⟨5, 1, 0, none, 8⟩ 64 (by decide) true (by decide) (by decide) 4096 (by decide) 16
    (by decide) 9 false (by decide)

/-- The id `-3`: what is to be applied is folded, with the reduction `3`. -/
theorem remoteReduce_negative_id :
    ¬ ∃ reqs xfers, doRemoteReduce ⟨5, 1, 0, none, 8⟩ 1 64 (-3) false 4 4096 1 16 8 9 false = some (reqs, xfers) ∧
      Reduces (fun _ => 4) (-3) false 64 8 4096 16 1 reqs ∧ xfers = reqs.length := by
  rintro ⟨reqs, xfers, hrun, hreduces, -⟩
  obtain ⟨rfl, -⟩ := Prod.mk.inj (Option.some.inj hrun)
  obtain ⟨ops, hops, hperm⟩ := hreduces (fun _ => 0) _ (List.Perm.refl _)
  obtain rfl := Option.some.inj hops
  have hids := (hperm.map Operation.redopId).mem_iff (a := 3)
  revert hids
  decide

end Realm.Reduce

import Mathlib.Data.List.Basic
import Mathlib.Data.List.Induction
import Mathlib.Data.List.Perm.Subperm
import Mathlib.Data.List.Nodup
import Mathlib.Algebra.BigOperators.Group.List.Basic
import Realm.Lib.Int32
import Realm.Lib.Collect

/-!
# Realm.Endpoint.Chunks — long messages in chunks

A payload that is larger than what one network request can carry is sent in chunks, highest first; the
receiver only keeps, for each message id, the smallest destination, the sum of the sizes and the number of
the chunks it has seen.

* `sendLong`: the requests for one message (`macros_impl/push_message.def`), with its `int` chunk count and
  its `size_t` sizes.
* `adjustLongMsgsize`, `handlerMedium`: the receiver (`templates/activemsg_endpoint.cc`, `activemsg.h`).
* `reassembled_iff`: the chunks cover the payload and every message is handled exactly once, at its last
  chunk and for every order of arrival, exactly when the number of chunks is at most `2 ^ 31` and its
  computation does not overflow.
-/

namespace Realm.Chunks

open Lib

/-! ## The sender -/

/-- A long message: the `message_id` it gets, its payload and the buffer it goes to.  Both lie in a 64-bit
address space, and a pointer into the source data pool is not null. -/
structure LongMessage where
  id : ℤ
  payload : BitVec 64
  payloadSize : ℕ
  dest : ℕ
  isSrcptr : Bool
  size_pos : 0 < payloadSize
  size_lt : payloadSize < 2 ^ 64
  payload_le : payload.toNat + payloadSize ≤ 2 ^ 64
  dest_le : dest + payloadSize ≤ 2 ^ 64
  srcptr_ne : isSrcptr = true → payload ≠ 0

/-- One `AMRequestLongAsync`: source, size, destination and the first four arguments. -/
structure Chunk where
  src : ℕ
  size : ℕ
  dest : ℕ
  id : ℤ
  chunks : ℤ
  srcptrLo : BitVec 32
  srcptrHi : BitVec 32

/-- `imsg->u.typed.srcptr`: the third and fourth word of the arguments. -/
def Chunk.srcptr (c : Chunk) : BitVec 64 := c.srcptrHi ++ c.srcptrLo

/-- `(hdr->payload_size + max_long_req - 1) / max_long_req`, computed as a `size_t`. -/
def chunkCount (maxLongReq : ℕ) (m : LongMessage) : ℕ :=
  (m.payloadSize + maxLongReq - 1) % 2 ^ 64 / maxLongReq

/-- `send_long`: the loop runs from `chunks - 1` down to `0`. -/
def sendLong (maxLongReq : ℕ) (m : LongMessage) : List Chunk :=
  let chunks : ℤ := int32 (chunkCount maxLongReq m)
  let last : ℤ := int32 (chunks - 1)
  (List.range (last + 1).toNat).reverse.map fun i =>
    { src := (m.payload.toNat + i * maxLongReq) % 2 ^ 64
      -- every chunk but the last is the max size
      size := if (i : ℤ) < last then maxLongReq
        else (((m.payloadSize : ℤ) - last * maxLongReq) % 2 ^ 64).toNat
      dest := (m.dest + i * maxLongReq) % 2 ^ 64
      id := m.id
      chunks := chunks
      srcptrLo := if m.isSrcptr then m.payload.setWidth 32 else 0
      srcptrHi := if m.isSrcptr then (m.payload >>> 32).setWidth 32 else 0 }

/-! ## The receiver -/

structure ChunkInfo where
  basePtr : ℕ
  chunks : ℤ
  totalSize : ℕ

/-- `adjust_long_msgsize` of the endpoint: the new `observed_messages`, and pointer and size if the message
is complete. -/
def adjustLongMsgsize (observed : ℤ → Option ChunkInfo) (ptr bufferSize : ℕ) (messageId chunks : ℤ) :
    (ℤ → Option ChunkInfo) × Option (ℕ × ℕ) :=
  if chunks = 1 then (observed, some (ptr, bufferSize))
  else
    match observed messageId with
    | none => (Function.update observed messageId (some ⟨ptr, 1, bufferSize⟩), none)
    | some info =>
      let basePtr := if ptr < info.basePtr then ptr else info.basePtr
      let totalSize := (info.totalSize + bufferSize) % 2 ^ 64
      let seen := int32 (info.chunks + 1)
      if seen = chunks then (Function.update observed messageId none, some (basePtr, totalSize))
      else (Function.update observed messageId (some ⟨basePtr, seen, totalSize⟩), none)

/-- A message that was handed to its handler. -/
structure Delivery where
  id : ℤ
  ptr : ℕ
  nbytes : ℕ

/-- The receiving endpoint, with the messages it has handed on and the releases it has sent: the message id
and the two words of the reply. -/
structure Receiver where
  observed : ℤ → Option ChunkInfo
  delivered : List Delivery
  releases : List (ℤ × BitVec 32 × BitVec 32)

def Receiver.init : Receiver := ⟨fun _ => none, [], []⟩

/-- The global `adjust_long_msgsize`: an empty message needs no adjustment. -/
def adjustMsgsize (observed : ℤ → Option ChunkInfo) (c : Chunk) :
    (ℤ → Option ChunkInfo) × Option (ℕ × ℕ) :=
  if c.size = 0 then (observed, some (c.dest, c.size))
  else adjustLongMsgsize observed c.dest c.size c.id c.chunks

/-- `MessageRawArgs::handler_medium`. -/
def handlerMedium (r : Receiver) (c : Chunk) : Receiver :=
  match adjustMsgsize r.observed c with
  | (observed, none) => { r with observed := observed }
  | (observed, some (ptr, nbytes)) =>
    { observed := observed
      delivered := r.delivered ++ [⟨c.id, ptr, nbytes⟩]
      -- `send_srcptr_release`
      releases := if c.srcptr ≠ 0 then
          r.releases ++ [(c.id, c.srcptr.setWidth 32, (c.srcptr >>> 32).setWidth 32)]
        else r.releases }

/-- `SrcDataPool::release_srcptr_handler`: the pointer that is released. -/
def releaseSrcptrHandler (arg0 arg1 : BitVec 32) : BitVec 64 :=
  (arg1.setWidth 64 <<< 32) ||| arg0.setWidth 64

/-- The chunks `cs` arrive one after the other. -/
def receive (cs : List Chunk) : Receiver := cs.foldl handlerMedium .init

/-! ## What is to be shown -/

/-- The requests of one message: sizes within the limit, and every byte of destination and source in exactly
one of them. -/
structure Covers (maxLongReq : ℕ) (m : LongMessage) : Prop where
  size : ∀ c ∈ sendLong maxLongReq m, 1 ≤ c.size ∧ c.size ≤ maxLongReq
  dest : ∀ a, (sendLong maxLongReq m).countP (fun c => c.dest ≤ a ∧ a < c.dest + c.size) =
    if m.dest ≤ a ∧ a < m.dest + m.payloadSize then 1 else 0
  src : ∀ a, (sendLong maxLongReq m).countP (fun c => c.src ≤ a ∧ a < c.src + c.size) =
    if m.payload.toNat ≤ a ∧ a < m.payload.toNat + m.payloadSize then 1 else 0

/-- The number of chunks of `m` among `cs`. -/
def arrived (m : LongMessage) (cs : List Chunk) : ℕ := cs.countP (fun c => c.id = m.id)

/-- The receiver after the chunks `cs`, as far as `m` is concerned: nothing was handed on before the last
chunk, then the whole payload once, with one release for a payload of the pool; and the map has an entry
exactly while some but not all chunks arrived. -/
structure Reassembled (maxLongReq : ℕ) (m : LongMessage) (cs : List Chunk) : Prop where
  delivered : (receive cs).delivered.filter (fun d => d.id = m.id) =
    if arrived m cs = (sendLong maxLongReq m).length then [⟨m.id, m.dest, m.payloadSize⟩] else []
  observed : (receive cs).observed m.id = none ↔
    arrived m cs = 0 ∨ arrived m cs = (sendLong maxLongReq m).length
  released : ∃ ws : List (BitVec 32 × BitVec 32),
    (receive cs).releases.filter (fun w => w.1 = m.id) = ws.map (fun w => (m.id, w)) ∧
    ws.map (fun w => releaseSrcptrHandler w.1 w.2) =
      if m.isSrcptr = true ∧ arrived m cs = (sendLong maxLongReq m).length then [m.payload] else []

/-- Messages of one peer with pairwise distinct ids. -/
structure Traffic where
  maxLongReq : ℕ
  messages : List LongMessage
  max_pos : 1 ≤ maxLongReq
  max_lt : maxLongReq < 2 ^ 64
  ids_nodup : (messages.map LongMessage.id).Nodup

/-- Every message is split without loss and, whatever the order in which the chunks arrive, put together
exactly once. -/
structure Traffic.Correct (T : Traffic) : Prop where
  covers : ∀ m ∈ T.messages, Covers T.maxLongReq m
  reassembled : ∀ cs rest, (cs ++ rest).Perm (T.messages.flatMap (sendLong T.maxLongReq)) →
    ∀ m ∈ T.messages, Reassembled T.maxLongReq m cs

/-! ## Splitting -/

/-- The number of chunks is at most `2 ^ 31`, and computed without overflow. -/
def Countable (maxLongReq : ℕ) (m : LongMessage) : Prop :=
  m.payloadSize + maxLongReq - 1 < 2 ^ 64 ∧ (m.payloadSize + maxLongReq - 1) / maxLongReq ≤ 2 ^ 31

/-- The payload ends in chunk `k`. -/
structure LastChunk (maxLongReq : ℕ) (m : LongMessage) (k : ℕ) : Prop where
  count : chunkCount maxLongReq m = k + 1
  lower : k * maxLongReq < m.payloadSize
  upper : m.payloadSize ≤ k * maxLongReq + maxLongReq

variable {M : ℕ} {m : LongMessage} {k : ℕ}

theorem exists_lastChunk (hM : 1 ≤ M) (h : m.payloadSize + M - 1 < 2 ^ 64) : ∃ k, LastChunk M m k := by
  have hp := m.size_pos
  have hdiv := Nat.div_add_mod (m.payloadSize + M - 1) M
  have hmod := Nat.mod_lt (m.payloadSize + M - 1) hM
  have hq : 1 ≤ (m.payloadSize + M - 1) / M := Nat.div_pos (by omega) hM
  obtain ⟨k, hk⟩ : ∃ k, (m.payloadSize + M - 1) / M = k + 1 := ⟨_, (Nat.sub_add_cancel hq).symm⟩
  rw [hk, Nat.mul_succ, Nat.mul_comm] at hdiv
  refine ⟨k, ?_, by omega, by omega⟩
  unfold chunkCount
  rw [Nat.mod_eq_of_lt h, hk]

/-- Chunk `i` of a message that ends in chunk `k`. -/
def LongMessage.chunk (m : LongMessage) (maxLongReq k i : ℕ) : Chunk where
  src := m.payload.toNat + i * maxLongReq
  size := if i < k then maxLongReq else m.payloadSize - k * maxLongReq
  dest := m.dest + i * maxLongReq
  id := m.id
  chunks := int32 ((k + 1 : ℕ) : ℤ)
  srcptrLo := if m.isSrcptr then m.payload.setWidth 32 else 0
  srcptrHi := if m.isSrcptr then (m.payload >>> 32).setWidth 32 else 0

theorem int32_last (k : ℕ) : int32 (int32 ((k + 1 : ℕ) : ℤ) - 1) = int32 k := by
  rw [int32_int32_sub]
  congr 1
  omega

/-- **Within the limits** `send_long` issues the chunks `k, …, 0`. -/
theorem sendLong_eq (hk : LastChunk M m k) (h31 : k + 1 ≤ 2 ^ 31) :
    sendLong M m = (List.range (k + 1)).reverse.map (m.chunk M k) := by
  have hlast : int32 (int32 ((k + 1 : ℕ) : ℤ) - 1) = k := by
    rw [int32_last, int32_eq_self (by omega) (by omega)]
  have hp := m.payload_le
  have hd := m.dest_le
  have hlow := hk.lower
  unfold sendLong
  simp only [hk.count, hlast]
  apply List.map_congr_left
  intro i hi
  have hik : i ≤ k := by simpa [Nat.lt_succ_iff] using hi
  have hle : i * M ≤ k * M := Nat.mul_le_mul_right M hik
  have hsize : (((m.payloadSize : ℤ) - k * M) % 2 ^ 64).toNat = m.payloadSize - k * M := by
    have hcast : ((m.payloadSize : ℤ) - k * M) = ((m.payloadSize - k * M : ℕ) : ℤ) := by
      rw [Nat.cast_sub hlow.le, Nat.cast_mul]
    have hlt := m.size_lt
    rw [hcast]
    omega
  have hsrc : (m.payload.toNat + i * M) % 2 ^ 64 = m.payload.toNat + i * M := Nat.mod_eq_of_lt (by omega)
  have hdest : (m.dest + i * M) % 2 ^ 64 = m.dest + i * M := Nat.mod_eq_of_lt (by omega)
  unfold LongMessage.chunk
  rw [hsrc, hdest, hsize]
  simp only [Nat.cast_lt]

theorem countP_tiles (M b a : ℕ) : ∀ n : ℕ,
    (List.range n).countP (fun i => b + i * M ≤ a ∧ a < b + i * M + M) =
      if b ≤ a ∧ a < b + n * M then 1 else 0
  | 0 => by
    rw [if_neg (by omega)]
    rfl
  | n + 1 => by
    rw [List.range_succ, List.countP_append, countP_tiles M b a n, List.countP_singleton, Nat.succ_mul]
    simp only [decide_eq_true_eq]
    split_ifs <;> omega

/-- The chunks tile `p` bytes from `b` on. -/
theorem countP_chunks (hlow : k * M < m.payloadSize) (b a : ℕ) :
    (List.range (k + 1)).countP
        (fun i => b + i * M ≤ a ∧ a < b + i * M + (m.chunk M k i).size) =
      if b ≤ a ∧ a < b + m.payloadSize then 1 else 0 := by
  have hinner : (List.range k).countP (fun i => b + i * M ≤ a ∧ a < b + i * M + (m.chunk M k i).size) =
      if b ≤ a ∧ a < b + k * M then 1 else 0 := by
    rw [← countP_tiles M b a k]
    apply List.countP_congr
    intro i hi
    simp [LongMessage.chunk, List.mem_range.mp hi]
  rw [List.range_succ, List.countP_append, hinner, List.countP_singleton]
  simp only [LongMessage.chunk, lt_irrefl, if_false, decide_eq_true_eq]
  split_ifs <;> omega

theorem Countable.lastChunk (hM : 1 ≤ M) (h : Countable M m) : ∃ k, LastChunk M m k ∧ k + 1 ≤ 2 ^ 31 := by
  obtain ⟨k, hk⟩ := exists_lastChunk hM h.1
  refine ⟨k, hk, ?_⟩
  have hcount := hk.count
  unfold chunkCount at hcount
  rw [Nat.mod_eq_of_lt h.1] at hcount
  exact hcount ▸ h.2

theorem covers_of_countable (hM : 1 ≤ M) (h : Countable M m) : Covers M m := by
  obtain ⟨k, hk, h31⟩ := h.lastChunk hM
  have heq := sendLong_eq hk h31
  have hlow := hk.lower
  have hup := hk.upper
  refine ⟨fun c hc => ?_, fun a => ?_, fun a => ?_⟩
  · rw [heq] at hc
    obtain ⟨i, -, rfl⟩ := List.mem_map.mp hc
    unfold LongMessage.chunk
    dsimp only
    split <;> omega
  · rw [heq, List.countP_map, List.countP_reverse]
    exact countP_chunks hlow m.dest a
  · rw [heq, List.countP_map, List.countP_reverse]
    exact countP_chunks hlow m.payload.toNat a

theorem sendLong_overflow (hM' : M < 2 ^ 64) (h : 2 ^ 64 ≤ m.payloadSize + M - 1) : sendLong M m = [] := by
  have hlt := m.size_lt
  have hzero : chunkCount M m = 0 := by
    unfold chunkCount
    rw [Nat.mod_eq_sub_mod (by omega), Nat.mod_eq_of_lt (by omega)]
    exact Nat.div_eq_of_lt (by omega)
  have h0 : int32 ((0 : ℕ) : ℤ) = 0 := int32_eq_self (by omega) (by omega)
  have h1 : int32 (0 - 1) = -1 := int32_eq_self (by omega) (by omega)
  unfold sendLong
  simp only [hzero, h0, h1]
  rfl

theorem length_sendLong (M : ℕ) (m : LongMessage) :
    (sendLong M m).length = (int32 (int32 (chunkCount M m) - 1) + 1).toNat := by
  unfold sendLong
  simp

/-- The requests are as many as the chunk count that goes with each of them says, up to a wrap. -/
theorem int32_length_sendLong (h : sendLong M m ≠ []) :
    int32 (chunkCount M m) = int32 (sendLong M m).length ∧ (sendLong M m).length ≤ 2 ^ 31 := by
  have hpos : 0 < (sendLong M m).length := List.length_pos_iff.mpr h
  have hlen := length_sendLong M m
  have hlt := int32_lt (int32 (chunkCount M m) - 1)
  constructor
  · have hlast : int32 (int32 (chunkCount M m) - 1) = (sendLong M m).length - 1 := by omega
    have hsum := int32_int32_add (int32 (chunkCount M m) - 1) 1
    rw [hlast, sub_add_cancel, sub_add_cancel, int32_int32] at hsum
    exact hsum.symm
  · omega

/-- No request is empty, not even where the chunk count has wrapped. -/
theorem size_ne_zero_of_mem_sendLong (hM : 1 ≤ M) (hM' : M < 2 ^ 64) {c : Chunk} (hc : c ∈ sendLong M m) :
    c.size ≠ 0 := by
  by_cases hov : m.payloadSize + M - 1 < 2 ^ 64
  · obtain ⟨k, hk⟩ := exists_lastChunk hM hov
    unfold sendLong at hc
    simp only [hk.count, int32_last] at hc
    obtain ⟨i, hi, rfl⟩ := List.mem_map.mp hc
    rw [List.mem_reverse, List.mem_range] at hi
    dsimp only
    split
    · omega
    · -- the loop starts at or before the last chunk
      obtain ⟨l, hl⟩ : ∃ l : ℕ, int32 (k : ℤ) = l := ⟨_, (Int.toNat_of_nonneg (by omega)).symm⟩
      have hlk : l ≤ k := by
        have := int32_natCast_le k
        omega
      have hmul : l * M ≤ k * M := Nat.mul_le_mul_right M hlk
      have hlow := hk.lower
      have hlt := m.size_lt
      have hcast : ((m.payloadSize : ℤ) - l * M) = ((m.payloadSize - l * M : ℕ) : ℤ) := by
        rw [Nat.cast_sub (by omega), Nat.cast_mul]
      rw [hl, hcast]
      omega
  · rw [sendLong_overflow hM' (not_lt.mp hov)] at hc
    cases hc

/-- Without a request nothing is covered. -/
theorem not_covers_of_nil (h : sendLong M m = []) : ¬ Covers M m := by
  intro hc
  have hp := m.size_pos
  have := hc.dest m.dest
  rw [h, if_pos (by omega)] at this
  cases this

/-- **Outside the limits** nothing is sent, or too few and too large chunks. -/
theorem not_covers_of_not_countable (hM : 1 ≤ M) (hM' : M < 2 ^ 64) (h : ¬ Countable M m) : ¬ Covers M m := by
  have hlt := m.size_lt
  by_cases hov : m.payloadSize + M - 1 < 2 ^ 64
  · obtain ⟨k, hk⟩ := exists_lastChunk hM hov
    have hcount : (m.payloadSize + M - 1) / M = k + 1 := by
      have := hk.count
      unfold chunkCount at this
      rwa [Nat.mod_eq_of_lt hov] at this
    have hbig : 2 ^ 31 < k + 1 := by
      by_contra hle
      exact h ⟨hov, by omega⟩
    by_cases hneg : int32 (k : ℤ) < 0
    · apply not_covers_of_nil
      unfold sendLong
      simp only [hk.count, int32_last]
      rw [show (int32 (k : ℤ) + 1).toNat = 0 by omega]
      rfl
    · -- the loop starts at `l < k`, and that chunk takes all the rest
      obtain ⟨l, hl⟩ : ∃ l : ℕ, int32 (k : ℤ) = l := ⟨_, (Int.toNat_of_nonneg (not_lt.mp hneg)).symm⟩
      have hl31 := int32_lt (k : ℤ)
      have hlk : l + 1 ≤ k := by omega
      intro hc
      obtain ⟨c, hmem, hsize⟩ : ∃ c ∈ sendLong M m,
          c.size = (((m.payloadSize : ℤ) - l * M) % 2 ^ 64).toNat := by
        unfold sendLong
        simp only [hk.count, int32_last, hl]
        have hidx : l < ((l : ℤ) + 1).toNat := by omega
        refine ⟨_, List.mem_map_of_mem (List.mem_reverse.mpr (List.mem_range.mpr hidx)), ?_⟩
        simp only [lt_irrefl, if_false]
      have hle := (hc.size c hmem).2
      have hlow := hk.lower
      have hmul : (l + 1) * M ≤ k * M := Nat.mul_le_mul_right M hlk
      rw [Nat.succ_mul] at hmul
      have hcast : ((m.payloadSize : ℤ) - l * M) = ((m.payloadSize - l * M : ℕ) : ℤ) := by
        rw [Nat.cast_sub (by omega), Nat.cast_mul]
      rw [hcast] at hsize
      omega
  · exact not_covers_of_nil (sendLong_overflow hM' (not_lt.mp hov))

/-! ## Putting together -/

theorem sum_sizes (hlow : k * M < m.payloadSize) :
    (((List.range (k + 1)).reverse.map (m.chunk M k)).map Chunk.size).sum = m.payloadSize := by
  have hinner : ((List.range k).map fun i => (m.chunk M k i).size) = List.replicate k M := by
    apply List.eq_replicate_iff.mpr
    refine ⟨by simp, fun x hx => ?_⟩
    obtain ⟨i, hi, rfl⟩ := List.mem_map.mp hx
    simp [LongMessage.chunk, List.mem_range.mp hi]
  have hrev : ((List.range (k + 1)).reverse.map (m.chunk M k)).map Chunk.size =
      ((List.range (k + 1)).map fun i => (m.chunk M k i).size).reverse := by
    simp [List.map_reverse]
  rw [hrev, List.sum_reverse, List.range_succ, List.map_append, hinner, List.sum_append, List.sum_replicate_nat]
  simp only [LongMessage.chunk, lt_irrefl, if_false, List.map_singleton, List.sum_singleton]
  omega

/-- The words of the arguments make up the pointer that went into them. -/
theorem append_words (p : BitVec 64) : ((p >>> 32).setWidth 32 ++ p.setWidth 32 : BitVec 64) = p := by
  ext i hi
  simp only [BitVec.getElem_append, BitVec.getElem_setWidth, BitVec.getLsbD_ushiftRight]
  split
  · exact BitVec.getLsbD_eq_getElem hi
  · rw [show 32 + (i - 32) = i by omega]
    exact BitVec.getLsbD_eq_getElem hi

/-- The words of the release make up the pointer as well. -/
theorem releaseSrcptrHandler_words (p : BitVec 64) :
    releaseSrcptrHandler (p.setWidth 32) ((p >>> 32).setWidth 32) = p := by
  unfold releaseSrcptrHandler
  ext i hi
  simp only [BitVec.getElem_or, BitVec.getElem_shiftLeft, BitVec.getElem_setWidth,
    BitVec.getLsbD_ushiftRight, BitVec.getLsbD_setWidth]
  by_cases h : i < 32
  · simp [h, BitVec.getLsbD_eq_getElem hi]
  · have h' : i - 32 < 32 := by omega
    rw [show 32 + (i - 32) = i by omega]
    simp [h, h', BitVec.getLsbD_eq_getElem hi]

theorem chunk_srcptr (m : LongMessage) (M k i : ℕ) :
    (m.chunk M k i).srcptr = if m.isSrcptr then m.payload else 0 := by
  unfold Chunk.srcptr LongMessage.chunk
  cases m.isSrcptr with
  | true => exact append_words m.payload
  | false =>
    simp only [Bool.false_eq_true, if_false]
    decide

/-- What the map knows about a message whose chunks `mine` have arrived. -/
inductive Seen (k : ℕ) (mine : List Chunk) : Option ChunkInfo → Prop
  | none (h : mine.length = 0 ∨ mine.length = k + 1) : Seen k mine none
  | some {info : ChunkInfo} (h0 : 0 < mine.length) (hlt : mine.length < k + 1)
    (hchunks : info.chunks = int32 mine.length) (hsize : info.totalSize = (mine.map Chunk.size).sum % 2 ^ 64)
    (hmem : ∃ c ∈ mine, c.dest = info.basePtr) (hmin : ∀ c ∈ mine, info.basePtr ≤ c.dest) :
    Seen k mine (some info)

/-- The receiver as far as `m` is concerned. -/
structure Progress (k : ℕ) (m : LongMessage) (mine : List Chunk) (r : Receiver) : Prop where
  seen : Seen k mine (r.observed m.id)
  delivered : r.delivered.filter (fun d => d.id = m.id) =
    if mine.length = k + 1 then [⟨m.id, m.dest, m.payloadSize⟩] else []
  releases : r.releases.filter (fun w => w.1 = m.id) =
    if m.isSrcptr = true ∧ mine.length = k + 1 then
      [(m.id, m.payload.setWidth 32, (m.payload >>> 32).setWidth 32)] else []

/-! The parts of `handler_medium`. -/

theorem handlerMedium_observed (r : Receiver) (c : Chunk) :
    (handlerMedium r c).observed = (adjustMsgsize r.observed c).1 := by
  unfold handlerMedium
  split <;> (rename_i h; rw [h])

theorem handlerMedium_delivered (r : Receiver) (c : Chunk) :
    (handlerMedium r c).delivered =
      r.delivered ++ ((adjustMsgsize r.observed c).2.map fun x => ⟨c.id, x.1, x.2⟩).toList := by
  unfold handlerMedium
  split <;> (rename_i h; rw [h]; simp)

theorem handlerMedium_releases (r : Receiver) (c : Chunk) :
    (handlerMedium r c).releases = r.releases ++
      if (adjustMsgsize r.observed c).2.isSome = true ∧ c.srcptr ≠ 0 then
        [(c.id, c.srcptr.setWidth 32, (c.srcptr >>> 32).setWidth 32)] else [] := by
  unfold handlerMedium
  split
  · rename_i h
    rw [h]
    simp
  · rename_i h
    rw [h]
    by_cases h0 : c.srcptr ≠ 0
    · rw [if_pos h0, if_pos ⟨rfl, h0⟩]
    · rw [if_neg h0, if_neg (fun h => h0 h.2), List.append_nil]

section Adjust

variable {observed : ℤ → Option ChunkInfo} {c : Chunk}

theorem adjustMsgsize_single (hsize : c.size ≠ 0) (hone : c.chunks = 1) :
    adjustMsgsize observed c = (observed, some (c.dest, c.size)) := by
  unfold adjustMsgsize adjustLongMsgsize
  rw [if_neg hsize, if_pos hone]

theorem adjustMsgsize_first (hsize : c.size ≠ 0) (hone : c.chunks ≠ 1) (h : observed c.id = none) :
    adjustMsgsize observed c = (Function.update observed c.id (some ⟨c.dest, 1, c.size⟩), none) := by
  unfold adjustMsgsize adjustLongMsgsize
  rw [if_neg hsize, if_neg hone, h]

theorem adjustMsgsize_last (hsize : c.size ≠ 0) (hone : c.chunks ≠ 1) {info : ChunkInfo}
    (h : observed c.id = some info) (hlast : int32 (info.chunks + 1) = c.chunks) :
    adjustMsgsize observed c = (Function.update observed c.id none,
      some (if c.dest < info.basePtr then c.dest else info.basePtr, (info.totalSize + c.size) % 2 ^ 64)) := by
  unfold adjustMsgsize adjustLongMsgsize
  rw [if_neg hsize, if_neg hone, h]
  dsimp only
  rw [if_pos hlast]

theorem adjustMsgsize_next (hsize : c.size ≠ 0) (hone : c.chunks ≠ 1) {info : ChunkInfo}
    (h : observed c.id = some info) (hlast : int32 (info.chunks + 1) ≠ c.chunks) :
    adjustMsgsize observed c = (Function.update observed c.id (some
      ⟨if c.dest < info.basePtr then c.dest else info.basePtr, int32 (info.chunks + 1),
        (info.totalSize + c.size) % 2 ^ 64⟩), none) := by
  unfold adjustMsgsize adjustLongMsgsize
  rw [if_neg hsize, if_neg hone, h]
  dsimp only
  rw [if_neg hlast]

/-- The count in a chunk of a message with `n` of them. -/
theorem chunks_eq_one_iff {n : ℕ} (hchunks : c.chunks = int32 n) (h31 : n ≤ 2 ^ 31) : c.chunks = 1 ↔ n = 1 := by
  have h1 : int32 1 = 1 := int32_eq_self (by omega) (by omega)
  rw [hchunks, ← h1, int32_inj (by omega) (by omega)]
  omega

end Adjust

theorem adjustMsgsize_other (observed : ℤ → Option ChunkInfo) {c : Chunk} {i : ℤ} (hc : c.id ≠ i) :
    (adjustMsgsize observed c).1 i = observed i := by
  have hobs : ∀ x, Function.update observed c.id x i = observed i :=
    fun x => Function.update_of_ne hc.symm _ _
  unfold adjustMsgsize adjustLongMsgsize
  dsimp only
  split
  · rfl
  · split
    · rfl
    · split
      · exact hobs _
      · split <;> exact hobs _

/-- A chunk of another message. -/
theorem Progress.other {mine : List Chunk} {r : Receiver} (h : Progress k m mine r) {c : Chunk}
    (hc : c.id ≠ m.id) : Progress k m mine (handlerMedium r c) where
  seen := by
    rw [handlerMedium_observed, adjustMsgsize_other _ hc]
    exact h.seen
  delivered := by
    rw [handlerMedium_delivered, List.filter_append, h.delivered]
    cases (adjustMsgsize r.observed c).2 <;> simp [hc]
  releases := by
    rw [handlerMedium_releases, List.filter_append, h.releases]
    split_ifs <;> simp [hc]

/-- What the chunks of `m` that have arrived can be. -/
structure Mine (M k : ℕ) (m : LongMessage) (mine : List Chunk) (c : Chunk) : Prop where
  perm : ∃ rest, (mine ++ c :: rest).Perm ((List.range (k + 1)).reverse.map (m.chunk M k))
  index : ∃ i ≤ k, c = m.chunk M k i

theorem mine_of_perm {mine rest : List Chunk} {c : Chunk}
    (h : (mine ++ c :: rest).Perm ((List.range (k + 1)).reverse.map (m.chunk M k))) : Mine M k m mine c := by
  refine ⟨⟨rest, h⟩, ?_⟩
  have hmem : c ∈ (List.range (k + 1)).reverse.map (m.chunk M k) := h.mem_iff.mp (by simp)
  obtain ⟨i, hi, rfl⟩ := List.mem_map.mp hmem
  exact ⟨i, by simpa [Nat.lt_succ_iff] using hi, rfl⟩

theorem Mine.length_le {mine : List Chunk} {c : Chunk} (h : Mine M k m mine c) : mine.length ≤ k := by
  obtain ⟨rest, hp⟩ := h.perm
  have := hp.length_eq
  simp at this
  omega

/-- With the last chunk, the smallest destination is that of the message and the sizes add up. -/
theorem Mine.complete {mine : List Chunk} {c : Chunk} (h : Mine M k m mine c) (hlow : k * M < m.payloadSize)
    (hlen : mine.length = k) {b : ℕ} (hmem : ∃ x ∈ mine ++ [c], x.dest = b)
    (hmin : ∀ x ∈ mine ++ [c], b ≤ x.dest) :
    b = m.dest ∧ ((mine ++ [c]).map Chunk.size).sum = m.payloadSize := by
  obtain ⟨rest, hp⟩ := h.perm
  obtain rfl : rest = [] := by
    have := hp.length_eq
    simp at this
    exact List.eq_nil_of_length_eq_zero (by omega)
  constructor
  · obtain ⟨x, hx, rfl⟩ := hmem
    obtain ⟨i, -, rfl⟩ := List.mem_map.mp (hp.mem_iff.mp hx)
    have hfirst : m.chunk M k 0 ∈ mine ++ [c] := by
      rw [hp.mem_iff]
      exact List.mem_map_of_mem (by simp)
    have hle := hmin _ hfirst
    simp only [LongMessage.chunk] at hle ⊢
    omega
  · rw [(hp.map Chunk.size).sum_eq]
    exact sum_sizes hlow

theorem chunk_size_pos (hlow : k * M < m.payloadSize) (hM : 1 ≤ M) (i : ℕ) : 0 < (m.chunk M k i).size := by
  unfold LongMessage.chunk
  dsimp only
  split <;> omega

theorem chunk_size_lt (hM' : M < 2 ^ 64) (i : ℕ) : (m.chunk M k i).size < 2 ^ 64 := by
  have := m.size_lt
  unfold LongMessage.chunk
  dsimp only
  split <;> omega

/-- The smaller of the two pointers is the smallest of all. -/
theorem smallest_append {mine : List Chunk} {c : Chunk} {b : ℕ} (hmem : ∃ x ∈ mine, x.dest = b)
    (hmin : ∀ x ∈ mine, b ≤ x.dest) :
    (∃ x ∈ mine ++ [c], x.dest = if c.dest < b then c.dest else b) ∧
      ∀ x ∈ mine ++ [c], (if c.dest < b then c.dest else b) ≤ x.dest := by
  constructor
  · split
    · exact ⟨c, by simp, rfl⟩
    · obtain ⟨x, hx, hxb⟩ := hmem
      exact ⟨x, List.mem_append_left _ hx, hxb⟩
  · intro x hx
    rcases List.mem_append.mp hx with hx | hx
    · have := hmin x hx
      split <;> omega
    · rw [List.mem_singleton.mp hx]
      split <;> omega

/-- The entry made for the first of several chunks. -/
theorem seen_first {c : Chunk} (hk : k ≠ 0) (hlt : c.size < 2 ^ 64) : Seen k [c] (some ⟨c.dest, 1, c.size⟩) := by
  refine .some Nat.one_pos ?_ ?_ ?_ ⟨c, by simp, rfl⟩ ?_
  · change 1 < k + 1
    omega
  · exact (int32_eq_self (x := 1) (by omega) (by omega)).symm
  · simp only [List.map_singleton, List.sum_singleton]
    exact (Nat.mod_eq_of_lt hlt).symm
  · intro x hx
    rw [List.mem_singleton.mp hx]

theorem int32_seen_succ {n : ℤ} {mine : List Chunk} (hcount : n = int32 mine.length) (c : Chunk) :
    int32 (n + 1) = int32 ((mine ++ [c]).length : ℤ) := by
  rw [hcount, int32_int32_add, List.length_append]
  rfl

theorem size_seen_succ {n : ℕ} {mine : List Chunk} (hsize : n = (mine.map Chunk.size).sum % 2 ^ 64) (c : Chunk) :
    (n + c.size) % 2 ^ 64 = ((mine ++ [c]).map Chunk.size).sum % 2 ^ 64 := by
  rw [hsize, List.map_append, List.sum_append, Nat.mod_add_mod]
  rfl

/-- **One chunk**: the message is complete exactly with the last of its chunks. -/
theorem Mine.adjust {mine : List Chunk} {c : Chunk} (h : Mine M k m mine c) (hlow : k * M < m.payloadSize)
    (h31 : k + 1 ≤ 2 ^ 31) (hM : 1 ≤ M) (hM' : M < 2 ^ 64) {observed : ℤ → Option ChunkInfo}
    (hs : Seen k mine (observed m.id)) :
    Seen k (mine ++ [c]) ((adjustMsgsize observed c).1 m.id) ∧
      (adjustMsgsize observed c).2 = if mine.length = k then some (m.dest, m.payloadSize) else none := by
  have hlen := h.length_le
  obtain ⟨i, hi, hci⟩ := h.index
  have hid : c.id = m.id := by rw [hci]; rfl
  have hchunks : c.chunks = int32 ((k + 1 : ℕ) : ℤ) := by rw [hci, LongMessage.chunk]
  have hpos : c.size ≠ 0 := by rw [hci]; exact (chunk_size_pos hlow hM i).ne'
  have hlt : c.size < 2 ^ 64 := by rw [hci]; exact chunk_size_lt hM' i
  have hone : c.chunks = 1 ↔ k = 0 := (chunks_eq_one_iff hchunks h31).trans Nat.add_eq_right
  by_cases hk0 : k = 0
  · -- a single chunk is the message
    subst hk0
    have hnil : mine = [] := List.eq_nil_of_length_eq_zero (by omega)
    subst hnil
    obtain rfl : i = 0 := by omega
    have hfull : c.dest = m.dest ∧ c.size = m.payloadSize := by
      rw [hci]
      simp [LongMessage.chunk]
    rw [adjustMsgsize_single hpos (hone.mpr rfl), hfull.1, hfull.2]
    refine ⟨?_, rfl⟩
    generalize hentry : observed m.id = entry at hs
    cases hs with
    | none _ =>
      simp only [hentry]
      exact .none (Or.inr rfl)
    | some h0 _ _ _ _ _ => exact absurd h0 (lt_irrefl 0)
  · have hone' : c.chunks ≠ 1 := fun h => hk0 (hone.mp h)
    rw [← hid] at hs ⊢
    generalize hentry : observed c.id = entry at hs
    cases hs with
    | none hl =>
      -- haven't seen it before
      have hnil : mine = [] := List.eq_nil_of_length_eq_zero (by omega)
      subst hnil
      rw [adjustMsgsize_first hpos hone' hentry]
      simp only [Function.update_self]
      exact ⟨seen_first hk0 hlt, (if_neg (Ne.symm hk0)).symm⟩
    | @some info h0 hl hcount hsize hmem hmin =>
      have hseen := int32_seen_succ hcount c
      have hsum := size_seen_succ hsize c
      have hlast : int32 (info.chunks + 1) = c.chunks ↔ mine.length = k := by
        have hmine : (mine ++ [c]).length = mine.length + 1 := by simp
        rw [hseen, hchunks, hmine, int32_inj (by omega) (by omega)]
        omega
      obtain ⟨hmem', hmin'⟩ := smallest_append (c := c) hmem hmin
      by_cases hfull : mine.length = k
      · obtain ⟨hb, hp⟩ := h.complete hlow hfull hmem' hmin'
        have hp64 := m.size_lt
        rw [adjustMsgsize_last hpos hone' hentry (hlast.mpr hfull), if_pos hfull, hb, hsum, hp,
          Nat.mod_eq_of_lt hp64]
        simp only [Function.update_self]
        refine ⟨.none (Or.inr ?_), trivial⟩
        rw [List.length_append, hfull]
        rfl
      · rw [adjustMsgsize_next hpos hone' hentry (fun h => hfull (hlast.mp h)), if_neg hfull]
        simp only [Function.update_self]
        refine ⟨.some ?_ ?_ hseen hsum hmem' hmin', trivial⟩
        · rw [List.length_append]
          exact Nat.succ_pos _
        · rw [List.length_append]
          change mine.length + 1 < k + 1
          omega

theorem Progress.own {mine : List Chunk} {r : Receiver} (hr : Progress k m mine r) {c : Chunk}
    (h : Mine M k m mine c) (hlow : k * M < m.payloadSize) (h31 : k + 1 ≤ 2 ^ 31) (hM : 1 ≤ M)
    (hM' : M < 2 ^ 64) : Progress k m (mine ++ [c]) (handlerMedium r c) := by
  obtain ⟨hseen, hout⟩ := h.adjust hlow h31 hM hM' hr.seen
  have hlen := h.length_le
  obtain ⟨i, hi, hci⟩ := h.index
  have hid : c.id = m.id := by rw [hci]; rfl
  have hlen' : (mine ++ [c]).length = k + 1 ↔ mine.length = k := by
    rw [List.length_append]
    exact Nat.add_right_cancel_iff
  have hptr : c.srcptr = if m.isSrcptr then m.payload else 0 := by
    rw [hci]
    exact chunk_srcptr m M k i
  refine ⟨?_, ?_, ?_⟩
  · rw [handlerMedium_observed]
    exact hseen
  · rw [handlerMedium_delivered, List.filter_append, hr.delivered, if_neg (by omega), hout]
    by_cases hfull : mine.length = k
    · rw [if_pos hfull, if_pos (hlen'.mpr hfull)]
      simp [hid]
    · rw [if_neg hfull, if_neg (fun h => hfull (hlen'.mp h))]
      rfl
  · rw [handlerMedium_releases, List.filter_append, hr.releases, if_neg (by omega), hout, hptr]
    by_cases hfull : mine.length = k
    · cases hsrc : m.isSrcptr with
      | true =>
        have hne := m.srcptr_ne hsrc
        simp only [if_true]
        rw [if_pos ⟨by rw [if_pos hfull]; rfl, hne⟩, if_pos ⟨trivial, hlen'.mpr hfull⟩]
        simp [hid]
      | false => simp
    · have hnone : ¬ (if mine.length = k then some (m.dest, m.payloadSize) else none).isSome = true := by
        rw [if_neg hfull]
        exact Bool.false_ne_true
      rw [if_neg (fun h => hnone h.1), if_neg (fun h => hfull (hlen'.mp h.2))]
      rfl

theorem id_of_mem_sendLong {c : Chunk} (h : c ∈ sendLong M m) : c.id = m.id := by
  obtain ⟨i, -, rfl⟩ := List.mem_map.mp h
  rfl

/-- The chunks with the id of `m` are the chunks of `m`. -/
theorem filter_flatMap_sendLong {ms : List LongMessage} (hnodup : (ms.map LongMessage.id).Nodup)
    (hm : m ∈ ms) : (ms.flatMap (sendLong M)).filter (fun c => c.id = m.id) = sendLong M m :=
  filter_flatMap_key (fun _ _ hc => id_of_mem_sendLong hc) hnodup hm

/-- **Every order of arrival**: by induction on the chunks that have arrived. -/
theorem progress_of_perm {T : Traffic} (hm : m ∈ T.messages) (hk : LastChunk T.maxLongReq m k)
    (h31 : k + 1 ≤ 2 ^ 31) (cs rest : List Chunk)
    (hp : (cs ++ rest).Perm (T.messages.flatMap (sendLong T.maxLongReq))) :
    Progress k m (cs.filter (fun c => c.id = m.id)) (receive cs) := by
  refine arrival_induction (P := fun cs => Progress k m (cs.filter (fun c => c.id = m.id)) (receive cs))
    ?_ ?_ cs rest hp
  · refine ⟨.none (Or.inl rfl), (if_neg ?_).symm, (if_neg ?_).symm⟩
    · exact (Nat.succ_ne_zero k).symm
    · exact fun h => (Nat.succ_ne_zero k).symm h.2
  · intro cs c rest hp hr
    have hrecv : receive (cs ++ [c]) = handlerMedium (receive cs) c := by
      simp [receive, List.foldl_append]
    rw [hrecv, List.filter_append]
    by_cases hc : c.id = m.id
    · have hmine := hp.filter (fun c => decide (c.id = m.id))
      rw [filter_flatMap_sendLong T.ids_nodup hm, sendLong_eq hk h31] at hmine
      simp only [List.filter_append, List.filter_cons, hc, decide_true, if_true] at hmine
      have hsingle : [c].filter (fun c => decide (c.id = m.id)) = [c] := by simp [hc]
      rw [hsingle]
      exact hr.own (mine_of_perm hmine) hk.lower h31 T.max_pos T.max_lt
    · have hsingle : [c].filter (fun c => decide (c.id = m.id)) = [] := by simp [hc]
      rw [hsingle, List.append_nil]
      exact hr.other hc

theorem Progress.reassembled {cs : List Chunk} (hk : LastChunk M m k) (h31 : k + 1 ≤ 2 ^ 31)
    (h : Progress k m (cs.filter (fun c => c.id = m.id)) (receive cs)) : Reassembled M m cs := by
  have hlen : (sendLong M m).length = k + 1 := by
    rw [sendLong_eq hk h31]
    simp
  have harr : arrived m cs = (cs.filter (fun c => c.id = m.id)).length := List.countP_eq_length_filter
  refine ⟨?_, ?_, ?_⟩
  · rw [hlen, harr]
    exact h.delivered
  · rw [hlen, harr]
    have hs := h.seen
    generalize (receive cs).observed m.id = entry at hs
    cases hs with
    | none hl => exact ⟨fun _ => hl, fun _ => rfl⟩
    | some h0 hl _ _ _ _ =>
      refine ⟨fun h => ?_, fun h => ?_⟩
      · cases h
      · omega
  · rw [hlen, harr, h.releases]
    by_cases hfull : m.isSrcptr = true ∧ (cs.filter (fun c => decide (c.id = m.id))).length = k + 1
    · refine ⟨[(m.payload.setWidth 32, (m.payload >>> 32).setWidth 32)], ?_, ?_⟩
      · rw [if_pos hfull]
        rfl
      · rw [if_pos hfull, List.map_singleton, releaseSrcptrHandler_words]
    · exact ⟨[], by rw [if_neg hfull]; rfl, by rw [if_neg hfull]; rfl⟩

/-- **Chunked messages are covered and reassembled exactly once if and only if**, for every message, the
number of chunks is at most `2 ^ 31` and `payload_size + max_long_req - 1` does not overflow. -/
theorem reassembled_iff (T : Traffic) :
    T.Correct ↔ ∀ m ∈ T.messages, Countable T.maxLongReq m := by
  constructor
  · intro h m hm
    by_contra hc
    exact not_covers_of_not_countable T.max_pos T.max_lt hc (h.covers m hm)
  · intro h
    refine ⟨fun m hm => covers_of_countable T.max_pos (h m hm), fun cs rest hp m hm => ?_⟩
    obtain ⟨k, hk, h31⟩ := (h m hm).lastChunk T.max_pos
    exact (progress_of_perm hm hk h31 cs rest hp).reassembled hk h31

/-- `2 ^ 32` bytes in requests of one byte. -/
def tooManyChunks : Traffic where
  maxLongReq := 1
  messages := [⟨0, 64, 2 ^ 32, 0, false, by decide, by decide, by decide, by decide, by decide⟩]
  max_pos := le_rfl
  max_lt := by decide
  ids_nodup := by simp

/-- The chunk count wraps to zero and nothing is sent. -/
theorem reassembly_fails : ¬ tooManyChunks.Correct := by
  intro h
  refine not_covers_of_not_countable (by decide) (by decide) ?_ (h.covers _ (List.mem_singleton.mpr rfl))
  rintro ⟨-, hcount⟩
  revert hcount
  decide

end Realm.Chunks

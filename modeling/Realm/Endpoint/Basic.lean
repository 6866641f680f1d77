import Mathlib.Logic.Function.Basic
import Realm.Lib.Int32
import Realm.Lib.Int64

/-!
# Realm.Endpoint.Basic — one active-message endpoint (`templates/activemsg_endpoint.cc`)

The outgoing queues of an endpoint and the state of its long message buffers (LMBs), with the
lock-protected sections that work on them.

* `pushIter`: one iteration of `push_messages`, up to the point where the lock is dropped; what the pusher
  does after that (`send_short`, `send_long`, the flip request) is part of its `PushOutcome`.
* `enqueueMessage`, `handleLongMsgptr`, `handleFlipRequest`, `handleFlipAck`: the other sections; the first
  three also tell whether a message went into empty queues.
* `PushStep`, `pushIter_spec`: everything one iteration can do.
-/

namespace Realm

open Lib

/-! ## Outgoing messages -/

/-- The `PAYLOAD_*` modes. -/
inductive PayloadMode
  | none
  | keep
  | free
  | copy
  | srcptr
  | pending
  | keepreg
  | empty
deriving DecidableEq

/-- An `OutgoingMessage`; `num_args` is the length of `args`.  The `stamp` of a message that was enqueued
with `in_order` is its number among those of its target: no code reads it, the specification does. -/
structure OutgoingMessage where
  msgid : ℕ
  args : List ℤ
  payload : ℕ
  payloadSize : ℕ
  payloadMode : PayloadMode
  dstptr : ℕ
  stamp : Option ℕ
deriving DecidableEq

def MSGID_FLIP_ACK : ℕ := 255

namespace OutgoingMessage

/-- `OutgoingMessage(msgid, num_args, args)`: no payload yet. -/
def mk' (msgid : ℕ) (args : List ℤ) : OutgoingMessage := ⟨msgid, args, 0, 0, .none, 0, none⟩

/-- `assign_srcdata_pointer`; `none` is its failed assertion. -/
def assignSrcdataPointer (hdr : OutgoingMessage) (ptr : ℕ) : Option OutgoingMessage :=
  if hdr.payloadMode = .pending then some { hdr with payload := ptr, payloadMode := .srcptr } else none

/-- The message that acknowledges the flip of `buffer`. -/
def flipAck (buffer : ℕ) : OutgoingMessage := mk' MSGID_FLIP_ACK [(buffer : ℤ)]

end OutgoingMessage

/-! ## The endpoint -/

/-- `gasnet_seginfo_t`. -/
structure SegmentInfo where
  addr : ℕ
  size : ℕ

/-- What the constructor of an endpoint fixes. -/
structure EndpointConfig where
  numLmbs : ℕ
  lmbSize : ℕ
  maxMedium : ℕ
  lmbWBases : ℕ → ℕ
  lmbRBases : ℕ → ℕ

/-- The tables of `ActiveMessageEndpoint(peer)` on the node `myNodeId`.  `my_node_id` is an `int`, and so is the number
of an LMB that it gives; `peer` is a `gasnet_node_t`, which is unsigned. -/
def EndpointConfig.ofSegments (numLmbs lmbSize maxMedium : ℕ) (segmentInfo : ℕ → SegmentInfo)
    (myNodeId peer : ℕ) : EndpointConfig where
  numLmbs := numLmbs
  lmbSize := lmbSize
  maxMedium := maxMedium
  lmbWBases i := uint64 ((segmentInfo peer).addr +
    ((segmentInfo peer).size - lmbSize * int32 (myNodeId * numLmbs + i + 1)))
  lmbRBases i := uint64 ((segmentInfo myNodeId).addr +
    ((segmentInfo peer).size - lmbSize * ((peer * numLmbs + i + 1) % 2 ^ 32 : ℤ)))

/-- The number of an LMB, when it is an `int`. -/
theorem int32_lmbNumber {k n i : ℕ} (h : k * n + i + 1 < 2 ^ 31) :
    int32 (k * n + i + 1) = (k * n + i + 1 : ℕ) := by
  push_cast
  exact int32_eq_self (by omega) (by omega)

theorem emod_lmbNumber {k n i : ℕ} (h : k * n + i + 1 < 2 ^ 31) :
    ((k : ℤ) * n + i + 1) % 2 ^ 32 = (k * n + i + 1 : ℕ) := by
  push_cast
  exact Int.emod_eq_of_lt (by omega) (by omega)

/-- `ActiveMessageEndpoint`: the counters are `int`s. -/
structure Endpoint where
  outShortHdrs : List OutgoingMessage
  outLongHdrs : List OutgoingMessage
  curWriteLmb : ℕ
  curWriteCount : ℤ
  curWriteOffset : ℕ
  lmbRCounts : ℕ → ℤ
  lmbWAvail : ℕ → Bool

namespace Endpoint

def init : Endpoint := ⟨[], [], 0, 0, 0, fun _ => 0, fun _ => true⟩

/-- `out_short_hdrs.empty() && out_long_hdrs.empty()`. -/
def isEmpty (ep : Endpoint) : Bool := ep.outShortHdrs.isEmpty && ep.outLongHdrs.isEmpty

/-- How an iteration of `push_messages` leaves its locked section.  In the first three cases the endpoint
is unlocked as given and the pusher goes on to send. -/
inductive PushOutcome
  | sendShort (hdr : OutgoingMessage) (ep : Endpoint)
  | sendLong (hdr : OutgoingMessage) (destPtr : ℕ) (ep : Endpoint)
  | flip (flipBuffer : ℕ) (flipCount : ℤ) (ep : Endpoint)
  | blocked
  | failed

/-- "keep write offset aligned to 128B" -/
def align128 (offset : ℕ) : ℕ := if offset % 128 = 0 then offset else (offset / 128 + 1) * 128

/-- `push_messages_long_gasnet`. -/
def pushMessagesLong (c : EndpointConfig) (ep : Endpoint) : PushOutcome :=
  match ep.outLongHdrs with
  | [] => .blocked
  | hdr :: rest =>
    -- a short message that needs to be ordered with long messages
    if hdr.payloadSize = 0 then .sendShort hdr { ep with outLongHdrs := rest }
    -- still waiting on space in the srcdatapool
    else if hdr.payloadMode = .pending then .blocked
    -- a known destination pointer on the target
    else if hdr.dstptr ≠ 0 then .sendLong hdr hdr.dstptr { ep with outLongHdrs := rest }
    -- waiting for the next LMB to become available
    else if ep.lmbWAvail ep.curWriteLmb = false then .blocked
    else if c.lmbSize < hdr.payloadSize then .failed
    else if ep.curWriteOffset + hdr.payloadSize ≤ c.lmbSize then
      .sendLong hdr (uint64 (c.lmbWBases ep.curWriteLmb + ep.curWriteOffset))
        { ep with
          outLongHdrs := rest
          curWriteOffset := align128 (ep.curWriteOffset + hdr.payloadSize)
          curWriteCount := int32 (ep.curWriteCount + 1) }
    else
      .flip ep.curWriteLmb ep.curWriteCount
        { ep with
          lmbWAvail := Function.update ep.lmbWAvail ep.curWriteLmb false
          curWriteLmb := (ep.curWriteLmb + 1) % c.numLmbs
          curWriteOffset := 0
          curWriteCount := 0 }

/-- The locked section of one iteration of `push_messages`, after a successful trylock. -/
def pushIter (c : EndpointConfig) (ep : Endpoint) : PushOutcome :=
  match ep.outShortHdrs with
  | hdr :: rest => .sendShort hdr { ep with outShortHdrs := rest }
  | [] => pushMessagesLong c ep

/-- `enqueue_message`; `hdr` is the message as `reserve_srcdata` leaves it. -/
def enqueueMessage (c : EndpointConfig) (ep : Endpoint) (hdr : OutgoingMessage) (inOrder : Bool) :
    Endpoint × Bool :=
  let wasEmpty := ep.isEmpty
  if inOrder = false ∧ hdr.payloadSize ≤ c.maxMedium then
    ({ ep with outShortHdrs := ep.outShortHdrs ++ [hdr] }, wasEmpty)
  else ({ ep with outLongHdrs := ep.outLongHdrs ++ [hdr] }, wasEmpty)

/-- The end of `handle_long_msgptr` and `handle_flip_request`: the new count of a buffer, and the queued
acknowledgement when it is zero. -/
def setRCount (ep : Endpoint) (buffer : ℕ) (count : ℤ) : Endpoint × Bool :=
  let ep' := { ep with lmbRCounts := Function.update ep.lmbRCounts buffer count }
  if count = 0 then
    ({ ep' with outShortHdrs := ep.outShortHdrs ++ [OutgoingMessage.flipAck buffer] }, ep.isEmpty)
  else (ep', false)

/-- The first LMB that holds `ptr`. -/
def rBuffer (c : EndpointConfig) (ptr : ℕ) : Option ℕ :=
  (List.range c.numLmbs).find? fun i => c.lmbRBases i ≤ ptr && ptr < uint64 (c.lmbRBases i + c.lmbSize)

def handleLongMsgptr (c : EndpointConfig) (ep : Endpoint) (ptr : ℕ) : Endpoint × Bool :=
  match rBuffer c ptr with
  | none => (ep, false)  -- probably a medium message?
  | some buffer => ep.setRCount buffer (int32 (ep.lmbRCounts buffer + 1))

def handleFlipRequest (ep : Endpoint) (buffer : ℕ) (count : ℤ) : Endpoint × Bool :=
  ep.setRCount buffer (int32 (ep.lmbRCounts buffer - count))

/-- The source data pool has a span for the `i`th message of a queue (`assign_srcdata_pointer`). -/
def assignSrcdata (ep : Endpoint) (long : Bool) (i ptr : ℕ) : Option Endpoint :=
  if long then do
    let hdr ← ep.outLongHdrs[i]?
    let hdr ← hdr.assignSrcdataPointer ptr
    return { ep with outLongHdrs := ep.outLongHdrs.set i hdr }
  else do
    let hdr ← ep.outShortHdrs[i]?
    let hdr ← hdr.assignSrcdataPointer ptr
    return { ep with outShortHdrs := ep.outShortHdrs.set i hdr }

def handleFlipAck (ep : Endpoint) (buffer : ℕ) : Endpoint :=
  { ep with lmbWAvail := Function.update ep.lmbWAvail buffer true }

/-! ## What the sections do -/

theorem isEmpty_iff {ep : Endpoint} : ep.isEmpty = true ↔ ep.outShortHdrs = [] ∧ ep.outLongHdrs = [] := by
  unfold isEmpty
  rw [Bool.and_eq_true, List.isEmpty_iff, List.isEmpty_iff]

/-- Only the `payload` and the mode of one waiting message change. -/
theorem assignSrcdata_cases {ep ep' : Endpoint} {long : Bool} {i ptr : ℕ}
    (h : ep.assignSrcdata long i ptr = some ep') :
    ∃ hdr : OutgoingMessage,
      ep.outLongHdrs[i]? = some hdr ∧
          ep' = { ep with
            outLongHdrs := ep.outLongHdrs.set i { hdr with payload := ptr, payloadMode := .srcptr } } ∨
        ep.outShortHdrs[i]? = some hdr ∧
          ep' = { ep with
            outShortHdrs := ep.outShortHdrs.set i { hdr with payload := ptr, payloadMode := .srcptr } } := by
  have hptr : ∀ {hdr hdr' : OutgoingMessage}, hdr.assignSrcdataPointer ptr = some hdr' →
      hdr' = { hdr with payload := ptr, payloadMode := .srcptr } := by
    intro hdr hdr' h
    unfold OutgoingMessage.assignSrcdataPointer at h
    split at h
    · exact (Option.some.inj h).symm
    · cases h
  cases long with
  | true =>
    simp only [assignSrcdata, if_true, Option.bind_eq_bind, Option.bind_eq_some_iff, Option.pure_def,
      Option.some.injEq] at h
    obtain ⟨hdr, hi, hdr', ha, rfl⟩ := h
    exact ⟨hdr, .inl ⟨hi, by rw [hptr ha]⟩⟩
  | false =>
    simp only [assignSrcdata, Bool.false_eq_true, if_false, Option.bind_eq_bind, Option.bind_eq_some_iff,
      Option.pure_def, Option.some.injEq] at h
    obtain ⟨hdr, hi, hdr', ha, rfl⟩ := h
    exact ⟨hdr, .inr ⟨hi, by rw [hptr ha]⟩⟩

theorem le_align128 (n : ℕ) : n ≤ align128 n := by
  unfold align128
  split <;> omega

theorem dvd_align128 (n : ℕ) : 128 ∣ align128 n := by
  unfold align128
  split <;> omega

theorem align128_le {n m : ℕ} (h : n ≤ m) (hm : 128 ∣ m) : align128 n ≤ m := by
  unfold align128
  split <;> omega

/-- **Everything one iteration can do**: it pops a message of one of the queues, places a payload in the
current LMB, flips it, or gives up. -/
inductive PushStep (c : EndpointConfig) (ep : Endpoint) : PushOutcome → Prop
  | short {hdr : OutgoingMessage} {rest : List OutgoingMessage} (hs : ep.outShortHdrs = hdr :: rest) :
    PushStep c ep (.sendShort hdr { ep with outShortHdrs := rest })
  | ordered {hdr : OutgoingMessage} {rest : List OutgoingMessage} (hs : ep.outShortHdrs = [])
    (hl : ep.outLongHdrs = hdr :: rest) (h0 : hdr.payloadSize = 0) :
    PushStep c ep (.sendShort hdr { ep with outLongHdrs := rest })
  | direct {hdr : OutgoingMessage} {rest : List OutgoingMessage} (hs : ep.outShortHdrs = [])
    (hl : ep.outLongHdrs = hdr :: rest) (h0 : 0 < hdr.payloadSize) (hd : hdr.dstptr ≠ 0) :
    PushStep c ep (.sendLong hdr hdr.dstptr { ep with outLongHdrs := rest })
  | place {hdr : OutgoingMessage} {rest : List OutgoingMessage} (hs : ep.outShortHdrs = [])
    (hl : ep.outLongHdrs = hdr :: rest) (h0 : 0 < hdr.payloadSize) (hd : hdr.dstptr = 0)
    (ha : ep.lmbWAvail ep.curWriteLmb = true) (hfit : ep.curWriteOffset + hdr.payloadSize ≤ c.lmbSize) :
    PushStep c ep (.sendLong hdr (uint64 (c.lmbWBases ep.curWriteLmb + ep.curWriteOffset))
      { ep with
        outLongHdrs := rest
        curWriteOffset := align128 (ep.curWriteOffset + hdr.payloadSize)
        curWriteCount := int32 (ep.curWriteCount + 1) })
  | flip {hdr : OutgoingMessage} {rest : List OutgoingMessage} (hs : ep.outShortHdrs = [])
    (hl : ep.outLongHdrs = hdr :: rest) (ha : ep.lmbWAvail ep.curWriteLmb = true)
    (hz : hdr.payloadSize ≤ c.lmbSize) (hfull : c.lmbSize < ep.curWriteOffset + hdr.payloadSize) :
    PushStep c ep (.flip ep.curWriteLmb ep.curWriteCount
      { ep with
        lmbWAvail := Function.update ep.lmbWAvail ep.curWriteLmb false
        curWriteLmb := (ep.curWriteLmb + 1) % c.numLmbs
        curWriteOffset := 0
        curWriteCount := 0 })
  | blocked : PushStep c ep .blocked
  | failed : PushStep c ep .failed

theorem pushIter_spec (c : EndpointConfig) (ep : Endpoint) : PushStep c ep (pushIter c ep) := by
  unfold pushIter
  split
  · rename_i hs
    exact .short hs
  · rename_i hs
    unfold pushMessagesLong
    split
    · exact .blocked
    · rename_i hdr rest hl
      split_ifs with h0 hp hd ha hz hfit
      · exact .ordered hs hl h0
      · exact .blocked
      · exact .direct hs hl (Nat.pos_of_ne_zero h0) hd
      · exact .blocked
      · exact .failed
      · exact .place hs hl (Nat.pos_of_ne_zero h0) (not_not.mp hd) (Bool.eq_true_of_not_eq_false ha) hfit
      · exact .flip hs hl (Bool.eq_true_of_not_eq_false ha) (Nat.not_lt.mp hz) (Nat.not_le.mp hfit)

end Endpoint

end Realm

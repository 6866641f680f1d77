import Mathlib.Tactic.Ring
import Mathlib.Tactic.Zify
import Realm.Lib.Index
import Realm.Lib.Run
import Realm.Endpoint.Flow
import Realm.Endpoint.Segments

/-!
# Realm.Endpoint.Lmb — no unconsumed payload is overwritten

A sending endpoint, its peer, and the network between them.  A pusher drops the lock before it sends, so a
placed payload, a flip request and an acknowledgement are each first in the hands of some thread, then on
the wire; the network delivers every message once, in any order.

* `Link`: the buffers of one sender on one receiver, as the two constructors compute them.
* `Sys`, `step`: the two endpoints with everything that is under way.
* `step_flow`: every step is a `FlowStep` of the abstract flow control.
* `safe_iff`: payloads are placed clear of all unconsumed ones, and buffers come back empty, in every
  interleaving, exactly when a buffer is too small for `2 ^ 32` payloads and the receiver takes no buffer for
  another (`FindsOwn`).
* `findsOwn_iff`: what that says about the sizes of the two segments.
-/

namespace Realm.Lmb

open Lib Endpoint

/-! ## The link -/

/-- The LMBs from node `src` to node `dst`. -/
structure Link where
  numLmbs : ℕ
  lmbSize : ℕ
  maxMedium : ℕ
  segmentInfo : ℕ → SegmentInfo
  src : ℕ
  dst : ℕ
  numLmbs_pos : 1 ≤ numLmbs
  lmbSize_dvd : 128 ∣ lmbSize

namespace Link

variable (L : Link)

/-- The endpoint for `dst` on `src`. -/
def sndConfig : EndpointConfig := .ofSegments L.numLmbs L.lmbSize L.maxMedium L.segmentInfo L.src L.dst

/-- The endpoint for `src` on `dst`. -/
def rcvConfig : EndpointConfig := .ofSegments L.numLmbs L.lmbSize L.maxMedium L.segmentInfo L.dst L.src

def base (i : ℕ) : ℕ := L.sndConfig.lmbWBases i

/-- The LMB `i`, where the sender has it. -/
def lmb (i : ℕ) : Area := (L.base i, L.lmbSize)

/-- The byte `o` of the LMB `i`. -/
def ptr (i o : ℕ) : ℕ := uint64 (L.base i + o)

/-- `handle_long_msgptr` takes no payload for one in another LMB.  Payloads start at multiples of 128. -/
def FindsOwn : Prop :=
  ∀ i < L.numLmbs, ∀ o < L.lmbSize, 128 ∣ o → ∀ j, rBuffer L.rcvConfig (L.ptr i o) = some j → j = i

end Link

/-! ## The system -/

/-- Who has a placed payload: a pusher, the network, a handler that is done with it, or nobody any more, because
`handle_long_msgptr` found no LMB for it. -/
inductive Status
  | placed
  | sent
  | consumed
  | ignored
deriving DecidableEq

def Status.isConsumed : Status → Bool
  | .placed | .sent => false
  | .consumed | .ignored => true

/-- A payload in an LMB that `handle_long_msgptr` has not counted yet. -/
structure Payload extends Slot where
  ptr : ℕ
  status : Status
deriving DecidableEq

def Payload.area (p : Payload) : Area := (p.ptr, p.size)

/-- `sent` tells whether the pusher has handed the request to the network. -/
structure Flip extends FlipRequest where
  sent : Bool

/-- A popped acknowledgement. -/
structure Ack where
  buffer : ℕ
  sent : Bool

/-- The two endpoints and what is between them.  `placed` counts the payloads of the current buffer. -/
structure Sys where
  snd : Endpoint
  rcv : Endpoint
  outstanding : List Payload
  flips : List Flip
  acks : List Ack
  placed : ℕ

def Sys.init : Sys := ⟨.init, .init, [], [], [], 0⟩

/-- The steps of the sender, the network and the receiver.  The last three are the traffic of the other
direction as this one sees it: anything can happen there. -/
inductive Event
  | enqueue (hdr : OutgoingMessage) (inOrder : Bool)
  | assign (long : Bool) (i ptr : ℕ)
  | push
  | sendPayload (i : ℕ)
  | sendFlip (i : ℕ)
  | consume (i : ℕ)
  | longMsgptr (i : ℕ)
  | otherMsgptr (ptr : ℕ)
  | flipRequest (i : ℕ)
  | rcvEnqueue (hdr : OutgoingMessage) (inOrder : Bool)
  | rcvAssign (long : Bool) (i ptr : ℕ)
  | rcvPush
  | sendAck (i : ℕ)
  | flipAck (i : ℕ)
  | reverseMsgptr (ptr : ℕ)
  | reverseFlipRequest (buffer : ℕ) (count : ℤ)
  | reverseFlipAck (buffer : ℕ)

/-- The buffer named in an acknowledgement, if the message is one. -/
def ackBuffer (hdr : OutgoingMessage) : Option ℕ :=
  if hdr.msgid = MSGID_FLIP_ACK then some (hdr.args.headD 0).toNat else none

def step (L : Link) (s : Sys) : Event → Option Sys
  | .enqueue hdr inOrder => some { s with snd := (s.snd.enqueueMessage L.sndConfig hdr inOrder).1 }
  | .assign long i ptr => do
    let snd ← s.snd.assignSrcdata long i ptr
    return { s with snd := snd }
  | .push =>
    match s.snd.pushIter L.sndConfig with
    | .sendShort _ ep => some { s with snd := ep }
    | .sendLong hdr destPtr ep =>
      if hdr.dstptr = 0 then
        some { s with
          snd := ep
          outstanding := s.outstanding ++
            [⟨⟨s.snd.curWriteLmb, s.snd.curWriteOffset, hdr.payloadSize⟩, destPtr, .placed⟩]
          placed := s.placed + 1 }
      else some { s with snd := ep }
    | .flip buffer count ep =>
      some { s with snd := ep, flips := s.flips ++ [⟨⟨buffer, count, s.placed⟩, false⟩], placed := 0 }
    | .blocked => some s
    | .failed => none
  | .sendPayload i => do
    let p ← s.outstanding[i]?
    if p.status = .placed then return { s with outstanding := s.outstanding.set i { p with status := .sent } }
    else none
  | .sendFlip i => do
    let q ← s.flips[i]?
    return { s with flips := s.flips.set i { q with sent := true } }
  | .consume i => do
    let p ← s.outstanding[i]?
    if p.status = .sent then
      return { s with outstanding := s.outstanding.set i { p with status := .consumed } }
    else none
  | .longMsgptr i => do
    let p ← s.outstanding[i]?
    if p.status = .consumed then
      return { s with
        rcv := (s.rcv.handleLongMsgptr L.rcvConfig p.ptr).1
        outstanding :=
          if rBuffer L.rcvConfig p.ptr = none then s.outstanding.set i { p with status := .ignored }
          else s.outstanding.eraseIdx i }
    else none
  -- any other message: its data lies outside the LMBs
  | .otherMsgptr ptr =>
    if rBuffer L.rcvConfig ptr = none then
      some { s with rcv := (s.rcv.handleLongMsgptr L.rcvConfig ptr).1 }
    else none
  | .flipRequest i => do
    let q ← s.flips[i]?
    if q.sent then
      return { s with rcv := (s.rcv.handleFlipRequest q.buffer q.count).1, flips := s.flips.eraseIdx i }
    else none
  | .rcvEnqueue hdr inOrder =>
    -- the flow control messages have their own ids
    if hdr.msgid = MSGID_FLIP_ACK then none
    else some { s with rcv := (s.rcv.enqueueMessage L.rcvConfig hdr inOrder).1 }
  | .rcvAssign long i ptr => do
    let rcv ← s.rcv.assignSrcdata long i ptr
    return { s with rcv := rcv }
  | .rcvPush =>
    match s.rcv.pushIter L.rcvConfig with
    | .sendShort hdr ep =>
      some { s with rcv := ep, acks := s.acks ++ ((ackBuffer hdr).map (Ack.mk · false)).toList }
    | .sendLong _ _ ep => some { s with rcv := ep }
    | .flip _ _ ep => some { s with rcv := ep }
    | .blocked => some s
    | .failed => none
  | .sendAck i => do
    let a ← s.acks[i]?
    return { s with acks := s.acks.set i { a with sent := true } }
  | .flipAck i => do
    let a ← s.acks[i]?
    if a.sent then return { s with snd := s.snd.handleFlipAck a.buffer, acks := s.acks.eraseIdx i }
    else none
  | .reverseMsgptr ptr => some { s with snd := (s.snd.handleLongMsgptr L.sndConfig ptr).1 }
  | .reverseFlipRequest buffer count => some { s with snd := (s.snd.handleFlipRequest buffer count).1 }
  | .reverseFlipAck buffer => some { s with rcv := s.rcv.handleFlipAck buffer }

/-- What a step must respect: a newly placed payload lies inside its LMB and clear of every payload there
that was not consumed; a flipped buffer becomes available when every payload in it was consumed. -/
structure SafeStep (L : Link) (s s' : Sys) : Prop where
  placed : ∀ p, s'.outstanding = s.outstanding ++ [p] →
    p.buffer < L.numLmbs ∧ (∀ a, Area.Mem a p.area → Area.Mem a (L.lmb p.buffer)) ∧
      ∀ q ∈ s.outstanding, q.buffer = p.buffer → q.status.isConsumed = false → Area.Disjoint q.area p.area
  avail : ∀ b, s.snd.lmbWAvail b = false → s'.snd.lmbWAvail b = true →
    ∀ q ∈ s.outstanding, q.buffer = b → q.status.isConsumed = true

/-! ## The abstract flow control -/

/-- The acknowledgements for `b` in the queue of an endpoint. -/
def ackCount (ep : Endpoint) (b : ℕ) : ℕ := ep.outShortHdrs.countP (ackBuffer · = some b)

/-- Acknowledgements are queued as short messages. -/
def NoLongAck (ep : Endpoint) : Prop := ∀ hdr ∈ ep.outLongHdrs, ackBuffer hdr = none

def Sys.flow (s : Sys) : Flow where
  slots := s.outstanding.map Payload.toSlot
  flips := s.flips.map Flip.toFlipRequest
  acks b := ackCount s.rcv b + s.acks.countP (·.buffer = b)
  cur := s.snd.curWriteLmb
  count := s.snd.curWriteCount
  offset := s.snd.curWriteOffset
  placed := s.placed
  avail := s.snd.lmbWAvail
  rCounts := s.rcv.lmbRCounts

/-- The state of an endpoint as a sender into LMBs. -/
def writer (ep : Endpoint) : ℕ × ℤ × ℕ × (ℕ → Bool) :=
  (ep.curWriteLmb, ep.curWriteCount, ep.curWriteOffset, ep.lmbWAvail)

theorem flow_snd {s : Sys} {ep : Endpoint} (h : writer ep = writer s.snd) : { s with snd := ep }.flow = s.flow := by
  simp only [writer, Prod.mk.injEq] at h
  obtain ⟨h1, h2, h3, h4⟩ := h
  simp only [Sys.flow, h1, h2, h3, h4]

theorem flow_rcv {s : Sys} {ep : Endpoint} (hr : ep.lmbRCounts = s.rcv.lmbRCounts)
    (ha : ∀ b, ackCount ep b = ackCount s.rcv b) : { s with rcv := ep }.flow = s.flow := by
  simp only [Sys.flow, hr, ha]

theorem flow_outstanding {s : Sys} {ps : List Payload}
    (h : ps.map Payload.toSlot = s.outstanding.map Payload.toSlot) :
    { s with outstanding := ps }.flow = s.flow := by
  simp only [Sys.flow, h]

theorem flow_flips {s : Sys} {qs : List Flip}
    (h : qs.map Flip.toFlipRequest = s.flips.map Flip.toFlipRequest) : { s with flips := qs }.flow = s.flow := by
  simp only [Sys.flow, h]

/-! What the sections of an endpoint leave alone. -/

theorem writer_enqueueMessage (c : EndpointConfig) (ep : Endpoint) (hdr : OutgoingMessage) (inOrder : Bool) :
    writer (ep.enqueueMessage c hdr inOrder).1 = writer ep := by
  unfold enqueueMessage
  dsimp only
  split <;> rfl

theorem writer_setRCount (ep : Endpoint) (b : ℕ) (r : ℤ) : writer (ep.setRCount b r).1 = writer ep := by
  unfold setRCount
  dsimp only
  split <;> rfl

theorem writer_handleLongMsgptr (c : EndpointConfig) (ep : Endpoint) (ptr : ℕ) :
    writer (ep.handleLongMsgptr c ptr).1 = writer ep := by
  unfold handleLongMsgptr
  split
  · rfl
  · exact writer_setRCount _ _ _

theorem lmbRCounts_enqueueMessage (c : EndpointConfig) (ep : Endpoint) (hdr : OutgoingMessage)
    (inOrder : Bool) : (ep.enqueueMessage c hdr inOrder).1.lmbRCounts = ep.lmbRCounts := by
  unfold enqueueMessage
  dsimp only
  split <;> rfl

/-- The messages that an endpoint queues for its users are no acknowledgements. -/
theorem ackCount_enqueueMessage (c : EndpointConfig) (ep : Endpoint) {hdr : OutgoingMessage}
    (inOrder : Bool) (h : hdr.msgid ≠ MSGID_FLIP_ACK) (b : ℕ) :
    ackCount (ep.enqueueMessage c hdr inOrder).1 b = ackCount ep b := by
  unfold enqueueMessage ackCount
  dsimp only
  split <;> simp [ackBuffer, h]

theorem ackBuffer_flipAck (b : ℕ) : ackBuffer (OutgoingMessage.flipAck b) = some b := by
  simp [ackBuffer, OutgoingMessage.flipAck, OutgoingMessage.mk']

theorem ackCount_setRCount (ep : Endpoint) (b b' : ℕ) (r : ℤ) :
    ackCount (ep.setRCount b r).1 b' = if r = 0 ∧ b' = b then ackCount ep b' + 1 else ackCount ep b' := by
  unfold setRCount ackCount
  dsimp only
  by_cases hr : r = 0
  · by_cases hb : b = b'
    · simp [hr, hb, List.countP_append, ackBuffer_flipAck]
    · simp [hr, hb, Ne.symm hb, List.countP_append, ackBuffer_flipAck]
  · simp [hr]

theorem outLongHdrs_setRCount (ep : Endpoint) (b : ℕ) (r : ℤ) :
    (ep.setRCount b r).1.outLongHdrs = ep.outLongHdrs := by
  unfold setRCount
  dsimp only
  split <;> rfl

theorem noLongAck_enqueueMessage (c : EndpointConfig) {ep : Endpoint} {hdr : OutgoingMessage}
    (inOrder : Bool) (h : hdr.msgid ≠ MSGID_FLIP_ACK) (hno : NoLongAck ep) :
    NoLongAck (ep.enqueueMessage c hdr inOrder).1 := by
  unfold enqueueMessage
  dsimp only
  split
  · exact hno
  · intro x hx
    rcases List.mem_append.mp hx with hx | hx
    · exact hno x hx
    · obtain rfl := List.mem_singleton.mp hx
      exact if_neg h

theorem lmbRCounts_setRCount (ep : Endpoint) (b : ℕ) (r : ℤ) :
    (ep.setRCount b r).1.lmbRCounts = Function.update ep.lmbRCounts b r := by
  unfold setRCount
  dsimp only
  split <;> rfl

/-- A new receive count on both levels. -/
theorem flow_setRCount (s : Sys) (b : ℕ) (r : ℤ) (ps : List Payload) (qs : List Flip) :
    { s with rcv := (s.rcv.setRCount b r).1, outstanding := ps, flips := qs }.flow =
      { s.flow with slots := ps.map Payload.toSlot, flips := qs.map Flip.toFlipRequest }.setRCount b r := by
  unfold Sys.flow Flow.setRCount
  simp only [lmbRCounts_setRCount, ackCount_setRCount]
  congr 1
  funext b'
  by_cases hr : r = 0
  · by_cases hb : b' = b
    · subst hb
      simp [hr]
      omega
    · simp [hr, hb]
  · simp [hr]

/-- A span of the source data pool for a waiting message changes nothing that matters here. -/
theorem assignSrcdata_frame {ep ep' : Endpoint} {long : Bool} {i ptr : ℕ}
    (h : ep.assignSrcdata long i ptr = some ep') :
    writer ep' = writer ep ∧ ep'.lmbRCounts = ep.lmbRCounts ∧ (∀ b, ackCount ep' b = ackCount ep b) ∧
      (NoLongAck ep → NoLongAck ep') := by
  obtain ⟨hdr, ⟨hi, rfl⟩ | ⟨hi, rfl⟩⟩ := assignSrcdata_cases h
  · refine ⟨rfl, rfl, fun _ => rfl, fun hno x hx => ?_⟩
    rcases List.mem_or_eq_of_mem_set hx with hx | rfl
    · exact hno x hx
    · exact hno hdr (List.mem_of_getElem? hi)
  · refine ⟨rfl, rfl, fun b => ?_, id⟩
    unfold ackCount
    exact countP_set_eq _ hi rfl

/-! ## Every step is a step of the flow control -/

variable {L : Link} {s s' : Sys}

theorem push_flow (h : step L s .push = some s') :
    FlowStep L.numLmbs L.lmbSize s.flow s'.flow ∧ s'.rcv = s.rcv ∧
      ∃ new, s'.outstanding = s.outstanding ++ new ∧ ∀ p ∈ new, p.ptr = L.ptr p.buffer p.offset := by
  have hnone : ∃ new, s.outstanding = s.outstanding ++ new ∧ ∀ p ∈ new, p.ptr = L.ptr p.buffer p.offset :=
    ⟨[], (List.append_nil _).symm, fun _ hp => absurd hp List.not_mem_nil⟩
  have hp := pushIter_spec L.sndConfig s.snd
  simp only [step] at h
  generalize pushIter L.sndConfig s.snd = o at h hp
  cases hp with
  | short hs =>
    cases h
    rw [flow_snd rfl]
    exact ⟨.stutter, rfl, hnone⟩
  | ordered hs hl h0 =>
    cases h
    rw [flow_snd rfl]
    exact ⟨.stutter, rfl, hnone⟩
  | direct hs hl h0 hd =>
    simp only [if_neg hd] at h
    cases h
    rw [flow_snd rfl]
    exact ⟨.stutter, rfl, hnone⟩
  | @place hdr rest hs hl h0 hd ha hfit =>
    simp only [if_pos hd] at h
    cases h
    refine ⟨?_, rfl, _, rfl, fun p hp => ?_⟩
    rotate_left
    · rw [List.mem_singleton.mp hp]
      rfl
    have hfit' : s.flow.offset + hdr.payloadSize ≤ L.lmbSize := hfit
    convert FlowStep.place (f := s.flow) ha h0 hfit' using 1
    unfold Sys.flow Flow.place
    dsimp only
    rw [List.map_append]
    rfl
  | flip hs hl ha hz hfull =>
    cases h
    refine ⟨?_, rfl, hnone⟩
    convert FlowStep.flip (f := s.flow) ha using 1
    unfold Sys.flow Flow.flip
    dsimp only
    rw [List.map_append]
    rfl
  | blocked =>
    cases h
    exact ⟨.stutter, rfl, hnone⟩
  | failed => cases h

/-- The receiver's own sending leaves the flow alone: a popped acknowledgement moves from the queue to the
hands of the pusher. -/
theorem rcvPush_flow (hno : NoLongAck s.rcv) (h : step L s .rcvPush = some s') :
    s'.flow = s.flow ∧ NoLongAck s'.rcv := by
  have hp := pushIter_spec L.rcvConfig s.rcv
  simp only [step] at h
  generalize pushIter L.rcvConfig s.rcv = o at h hp
  have htail : ∀ {hdr rest}, s.rcv.outLongHdrs = hdr :: rest → ∀ x ∈ rest, ackBuffer x = none :=
    fun hl x hx => hno x (hl ▸ List.mem_cons_of_mem _ hx)
  cases hp with
  | @short hdr rest hs =>
    cases h
    refine ⟨?_, hno⟩
    have hmove : ∀ b, ((ackBuffer hdr).map (Ack.mk · false)).toList.countP (fun a => decide (a.buffer = b)) =
        if ackBuffer hdr = some b then 1 else 0 := by
      intro b
      cases hb : ackBuffer hdr <;> simp [List.countP_cons]
    simp only [Sys.flow, ackCount, hs, List.countP_append, hmove, List.countP_cons, decide_eq_true_eq]
    congr 1
    funext b
    omega
  | @ordered hdr rest hs hl h0 =>
    cases h
    have hnone := hno hdr (hl ▸ List.mem_cons_self)
    refine ⟨?_, htail hl⟩
    simp only [hnone, Option.map_none, Option.toList_none, List.append_nil]
    exact flow_rcv rfl fun _ => rfl
  | direct hs hl h0 hd =>
    cases h
    exact ⟨flow_rcv rfl fun _ => rfl, htail hl⟩
  | place hs hl h0 hd ha hfit =>
    cases h
    exact ⟨flow_rcv rfl fun _ => rfl, htail hl⟩
  | flip hs hl ha hz hfull =>
    cases h
    exact ⟨flow_rcv rfl fun _ => rfl, hno⟩
  | blocked =>
    cases h
    exact ⟨rfl, hno⟩
  | failed => cases h

/-- The flow control of a reachable state. -/
structure Sys.Inv (L : Link) (s : Sys) : Prop where
  flow : s.flow.Inv L.numLmbs L.lmbSize
  noLongAck : NoLongAck s.rcv
  ptrs : ∀ p ∈ s.outstanding, p.ptr = L.ptr p.buffer p.offset

/-- A counted payload leaves its slot: its pointer names its buffer.  One that is not counted keeps it. -/
theorem longMsgptr_flow (hs : s.Inv L) (hfind : L.FindsOwn) {i : ℕ} (h : step L s (.longMsgptr i) = some s') :
    FlowStep L.numLmbs L.lmbSize s.flow s'.flow ∧ NoLongAck s'.rcv := by
  simp only [step, Option.bind_eq_bind, Option.bind_eq_some_iff, Option.pure_def] at h
  obtain ⟨p, hi, h⟩ := h
  split at h
  case isFalse => cases h
  cases h
  obtain ⟨A, B, hl, herase, -⟩ := split_at hi
  have hmem := List.mem_of_getElem? hi
  obtain ⟨hb, h0, h128, hle⟩ := hs.flow.inside p.toSlot (List.mem_map_of_mem hmem)
  cases hbuf : rBuffer L.rcvConfig p.ptr with
  | none =>
    simp only [handleLongMsgptr, hbuf, if_true]
    have hframe := flow_outstanding (map_set_eq Payload.toSlot (x := { p with status := .ignored }) hi rfl)
    exact ⟨hframe ▸ .stutter, hs.noLongAck⟩
  | some j =>
    obtain rfl : j = p.buffer := hfind _ hb _ (by omega) h128 _ (hs.ptrs p hmem ▸ hbuf)
    simp only [handleLongMsgptr, hbuf, reduceCtorEq, if_false]
    refine ⟨?_, fun x hx => hs.noLongAck x (outLongHdrs_setRCount _ _ _ ▸ hx)⟩
    have hslots : s.flow.slots = A.map Payload.toSlot ++ p.toSlot :: B.map Payload.toSlot := by
      change s.outstanding.map Payload.toSlot = _
      rw [hl, List.map_append, List.map_cons]
    convert FlowStep.msgptr hslots using 1
    rw [flow_setRCount, herase, List.map_append]
    rfl

theorem flipRequest_flow (hno : NoLongAck s.rcv) {i : ℕ} (h : step L s (.flipRequest i) = some s') :
    FlowStep L.numLmbs L.lmbSize s.flow s'.flow ∧ NoLongAck s'.rcv := by
  simp only [step, Option.bind_eq_bind, Option.bind_eq_some_iff, Option.pure_def] at h
  obtain ⟨q, hi, h⟩ := h
  split at h
  case isFalse => cases h
  cases h
  obtain ⟨A, B, hl, herase, -⟩ := split_at hi
  refine ⟨?_, fun x hx => hno x (outLongHdrs_setRCount _ _ _ ▸ hx)⟩
  have hflips : s.flow.flips = A.map Flip.toFlipRequest ++ q.toFlipRequest :: B.map Flip.toFlipRequest := by
    change s.flips.map Flip.toFlipRequest = _
    rw [hl, List.map_append, List.map_cons]
  convert FlowStep.flipRequest hflips using 1
  rw [handleFlipRequest, flow_setRCount, herase, List.map_append]
  rfl

/-- An acknowledgement that arrives is one of those under way. -/
theorem flipAck_flow {i : ℕ} (h : step L s (.flipAck i) = some s') :
    FlowStep L.numLmbs L.lmbSize s.flow s'.flow ∧ s'.rcv = s.rcv := by
  simp only [step, Option.bind_eq_bind, Option.bind_eq_some_iff, Option.pure_def] at h
  obtain ⟨a, hi, h⟩ := h
  split at h
  case isFalse => cases h
  cases h
  obtain ⟨A, B, hl, herase, -⟩ := split_at hi
  refine ⟨?_, rfl⟩
  have hcount : ∀ b, s.acks.countP (·.buffer = b) =
      (A ++ B).countP (·.buffer = b) + if a.buffer = b then 1 else 0 := by
    intro b
    rw [hl, List.countP_append, List.countP_append, List.countP_cons]
    simp only [decide_eq_true_eq]
    omega
  have hpos : 0 < s.flow.acks a.buffer := by
    change 0 < ackCount s.rcv a.buffer + s.acks.countP (·.buffer = a.buffer)
    rw [hcount, if_pos rfl]
    omega
  convert FlowStep.ack hpos using 1
  unfold Sys.flow Flow.ack handleFlipAck
  dsimp only
  rw [herase]
  congr 1
  funext b
  rw [hcount]
  by_cases hb : b = a.buffer
  · subst hb
    rw [Function.update_self, if_pos rfl]
    omega
  · rw [Function.update_of_ne hb, hcount, if_neg (Ne.symm hb)]
    rfl

/-- **Refinement**: whatever thread acts, the flow control takes one of its steps. -/
theorem step_flow (hs : s.Inv L) (hfind : L.FindsOwn) {e : Event} (h : step L s e = some s') :
    FlowStep L.numLmbs L.lmbSize s.flow s'.flow ∧ NoLongAck s'.rcv := by
  have hno := hs.noLongAck
  have frame : ∀ {t : Sys}, t.flow = s.flow → FlowStep L.numLmbs L.lmbSize s.flow t.flow :=
    fun ht => ht ▸ .stutter
  cases e with
  | enqueue hdr inOrder =>
    cases h
    exact ⟨frame (flow_snd (writer_enqueueMessage _ _ _ _)), hno⟩
  | assign long i ptr =>
    simp only [step, Option.bind_eq_bind, Option.bind_eq_some_iff, Option.pure_def, Option.some.injEq] at h
    obtain ⟨snd, hsnd, rfl⟩ := h
    exact ⟨frame (flow_snd (assignSrcdata_frame hsnd).1), hno⟩
  | push =>
    obtain ⟨hflow, hrcv, -⟩ := push_flow h
    exact ⟨hflow, hrcv ▸ hno⟩
  | sendPayload i =>
    simp only [step, Option.bind_eq_bind, Option.bind_eq_some_iff, Option.pure_def] at h
    obtain ⟨p, hi, h⟩ := h
    split at h
    · cases h
      exact ⟨frame (flow_outstanding (map_set_eq _ hi rfl)), hno⟩
    · cases h
  | sendFlip i =>
    simp only [step, Option.bind_eq_bind, Option.bind_eq_some_iff, Option.pure_def, Option.some.injEq] at h
    obtain ⟨q, hi, rfl⟩ := h
    exact ⟨frame (flow_flips (map_set_eq _ hi rfl)), hno⟩
  | consume i =>
    simp only [step, Option.bind_eq_bind, Option.bind_eq_some_iff, Option.pure_def] at h
    obtain ⟨p, hi, h⟩ := h
    split at h
    · cases h
      exact ⟨frame (flow_outstanding (map_set_eq _ hi rfl)), hno⟩
    · cases h
  | longMsgptr i => exact longMsgptr_flow hs hfind h
  | otherMsgptr ptr =>
    simp only [step] at h
    split at h
    · rename_i hnone
      cases h
      simp only [handleLongMsgptr, hnone]
      exact ⟨.stutter, hno⟩
    · cases h
  | flipRequest i => exact flipRequest_flow hno h
  | rcvEnqueue hdr inOrder =>
    simp only [step] at h
    split at h
    · cases h
    · rename_i hid
      cases h
      refine ⟨frame (flow_rcv (lmbRCounts_enqueueMessage _ _ _ _)
        (ackCount_enqueueMessage _ _ _ hid)), noLongAck_enqueueMessage _ _ hid hno⟩
  | rcvAssign long i ptr =>
    simp only [step, Option.bind_eq_bind, Option.bind_eq_some_iff, Option.pure_def, Option.some.injEq] at h
    obtain ⟨rcv, hrcv, rfl⟩ := h
    obtain ⟨-, hr, ha, hnl⟩ := assignSrcdata_frame hrcv
    exact ⟨frame (flow_rcv hr ha), hnl hno⟩
  | rcvPush =>
    obtain ⟨hflow, hno'⟩ := rcvPush_flow hno h
    exact ⟨frame hflow, hno'⟩
  | sendAck i =>
    simp only [step, Option.bind_eq_bind, Option.bind_eq_some_iff, Option.pure_def, Option.some.injEq] at h
    obtain ⟨a, hi, rfl⟩ := h
    refine ⟨frame ?_, hno⟩
    unfold Sys.flow
    dsimp only
    congr 1
    funext b
    rw [countP_set_eq _ hi (by rfl)]
  | flipAck i =>
    obtain ⟨hflow, hrcv⟩ := flipAck_flow h
    exact ⟨hflow, hrcv ▸ hno⟩
  | reverseMsgptr ptr =>
    cases h
    exact ⟨frame (flow_snd (writer_handleLongMsgptr _ _ _)), hno⟩
  | reverseFlipRequest buffer count =>
    cases h
    exact ⟨frame (flow_snd (writer_setRCount _ _ _)), hno⟩
  | reverseFlipAck buffer =>
    cases h
    exact ⟨frame (flow_rcv rfl fun _ => rfl), hno⟩

/-! What becomes of the payloads. -/

/-- The events that leave the payloads alone. -/
def Quiet : Event → Bool
  | .push | .sendPayload _ | .consume _ | .longMsgptr _ => false
  | _ => true

theorem outstanding_of_quiet {e : Event} (he : Quiet e = true) (h : step L s e = some s') :
    s'.outstanding = s.outstanding := by
  cases e with
  | push => cases he
  | sendPayload i => cases he
  | consume i => cases he
  | longMsgptr i => cases he
  | enqueue hdr inOrder =>
    cases h
    rfl
  | assign long i ptr =>
    obtain ⟨snd, -, heq⟩ := Option.bind_eq_some_iff.mp h
    cases heq
    rfl
  | sendFlip i =>
    obtain ⟨q, -, heq⟩ := Option.bind_eq_some_iff.mp h
    cases heq
    rfl
  | otherMsgptr ptr =>
    obtain ⟨-, heq⟩ := Option.ite_none_right_eq_some.mp h
    cases heq
    rfl
  | flipRequest i =>
    obtain ⟨q, -, h⟩ := Option.bind_eq_some_iff.mp h
    obtain ⟨-, heq⟩ := Option.ite_none_right_eq_some.mp h
    cases heq
    rfl
  | rcvEnqueue hdr inOrder =>
    obtain ⟨-, heq⟩ := Option.ite_none_left_eq_some.mp h
    cases heq
    rfl
  | rcvAssign long i ptr =>
    obtain ⟨rcv, -, heq⟩ := Option.bind_eq_some_iff.mp h
    cases heq
    rfl
  | rcvPush =>
    simp only [step] at h
    split at h <;> cases h <;> rfl
  | sendAck i =>
    obtain ⟨a, -, heq⟩ := Option.bind_eq_some_iff.mp h
    cases heq
    rfl
  | flipAck i =>
    obtain ⟨a, -, h⟩ := Option.bind_eq_some_iff.mp h
    obtain ⟨-, heq⟩ := Option.ite_none_right_eq_some.mp h
    cases heq
    rfl
  | reverseMsgptr ptr =>
    cases h
    rfl
  | reverseFlipRequest buffer count =>
    cases h
    rfl
  | reverseFlipAck buffer =>
    cases h
    rfl

theorem outstanding_sendPayload {i : ℕ} (h : step L s (.sendPayload i) = some s') : ∃ p,
    s.outstanding[i]? = some p ∧ p.status = .placed ∧
      s'.outstanding = s.outstanding.set i { p with status := .sent } := by
  obtain ⟨p, hp, h⟩ := Option.bind_eq_some_iff.mp h
  obtain ⟨hplaced, heq⟩ := Option.ite_none_right_eq_some.mp h
  cases heq
  exact ⟨p, hp, hplaced, rfl⟩

theorem outstanding_consume {i : ℕ} (h : step L s (.consume i) = some s') : ∃ p,
    s.outstanding[i]? = some p ∧ p.status = .sent ∧
      s'.outstanding = s.outstanding.set i { p with status := .consumed } := by
  obtain ⟨p, hp, h⟩ := Option.bind_eq_some_iff.mp h
  obtain ⟨hsent, heq⟩ := Option.ite_none_right_eq_some.mp h
  cases heq
  exact ⟨p, hp, hsent, rfl⟩

theorem outstanding_longMsgptr {i : ℕ} (h : step L s (.longMsgptr i) = some s') : ∃ p,
    s.outstanding[i]? = some p ∧ p.status = .consumed ∧
      s'.outstanding = if rBuffer L.rcvConfig p.ptr = none then s.outstanding.set i { p with status := .ignored }
        else s.outstanding.eraseIdx i := by
  obtain ⟨p, hp, h⟩ := Option.bind_eq_some_iff.mp h
  obtain ⟨hconsumed, heq⟩ := Option.ite_none_right_eq_some.mp h
  cases heq
  exact ⟨p, hp, hconsumed, rfl⟩

/-- The pointer of a payload stays the one it was placed at. -/
theorem ptrs_step (hptrs : ∀ p ∈ s.outstanding, p.ptr = L.ptr p.buffer p.offset) {e : Event}
    (h : step L s e = some s') : ∀ p ∈ s'.outstanding, p.ptr = L.ptr p.buffer p.offset := by
  have hset : ∀ {i : ℕ} {p : Payload} (st : Status), s.outstanding[i]? = some p →
      ∀ q ∈ s.outstanding.set i { p with status := st }, q.ptr = L.ptr q.buffer q.offset := by
    intro i p st hp q hq
    rcases List.mem_or_eq_of_mem_set hq with hq | rfl
    · exact hptrs q hq
    · exact hptrs p (List.mem_of_getElem? hp)
  by_cases hquiet : Quiet e = true
  · rwa [outstanding_of_quiet hquiet h]
  · cases e with
    | push =>
      obtain ⟨-, -, new, hnew, hptr⟩ := push_flow h
      rw [hnew]
      intro p hp
      rcases List.mem_append.mp hp with hp | hp
      · exact hptrs p hp
      · exact hptr p hp
    | sendPayload i =>
      obtain ⟨p, hp, -, hout⟩ := outstanding_sendPayload h
      rw [hout]
      exact hset _ hp
    | consume i =>
      obtain ⟨p, hp, -, hout⟩ := outstanding_consume h
      rw [hout]
      exact hset _ hp
    | longMsgptr i =>
      obtain ⟨p, hp, -, hout⟩ := outstanding_longMsgptr h
      rw [hout]
      split
      · exact hset _ hp
      · exact fun q hq => hptrs q (List.mem_of_mem_eraseIdx hq)
    | _ => exact absurd rfl hquiet

theorem Sys.Inv.init (L : Link) : Sys.init.Inv L where
  flow :=
    { cur_lt := L.numLmbs_pos
      count_eq := (int32_eq_self (x := 0) (by omega) (by omega)).symm
      placed_le := le_rfl
      offset_le := Nat.zero_le _
      offset_dvd := ⟨0, rfl⟩
      waiting := fun _ => ⟨rfl, rfl⟩
      inside := fun _ hp => absurd hp List.not_mem_nil
      below := fun _ _ hp => absurd hp List.not_mem_nil
      phase := by
        intro b _
        have hp : Sys.init.flow.placedIn b = 0 := ite_self _
        have h0 : int32 (((0 : ℕ) : ℤ) - (0 : ℕ)) = 0 := int32_eq_self (by omega) (by omega)
        have h : Phase L.lmbSize b true [] 0 0 0 _ := .writing (Nat.le_refl 0)
        rw [hp]
        rwa [h0] at h }
  noLongAck := fun _ h => absurd h List.not_mem_nil
  ptrs := fun _ h => absurd h List.not_mem_nil

theorem Sys.Inv.step (hlt : L.lmbSize < 2 ^ 39) (hfind : L.FindsOwn) (hs : s.Inv L) {e : Event}
    (h : step L s e = some s') : s'.Inv L := by
  obtain ⟨hflow, hno⟩ := step_flow hs hfind h
  exact ⟨hs.flow.step L.numLmbs_pos L.lmbSize_dvd hlt hflow, hno, ptrs_step hs.ptrs h⟩

theorem Sys.Inv.safeStep (hlt : L.lmbSize < 2 ^ 39) (hfind : L.FindsOwn) (hs : s.Inv L) {e : Event}
    (h : Lmb.step L s e = some s') : SafeStep L s s' := by
  obtain ⟨hplaced, havail⟩ := hs.flow.safe (step_flow hs hfind h).1
  constructor
  · intro p hp
    have hslots : s'.flow.slots = s.flow.slots ++ [p.toSlot] := by
      change s'.outstanding.map Payload.toSlot = s.outstanding.map Payload.toSlot ++ [p.toSlot]
      rw [hp, List.map_append]
      rfl
    obtain ⟨hb, hle, hall⟩ := hplaced _ hslots
    have hptr := ptrs_step hs.ptrs h p (hp ▸ List.mem_append_right _ (List.mem_singleton_self p))
    refine ⟨hb, fun a ha => ?_, fun q hq hqb _ => ?_⟩
    · rw [Payload.area, hptr] at ha
      exact Area.mem_of_mem_offset hle (by omega) ha
    · have hbelow := hall _ (List.mem_map_of_mem hq) hqb
      rw [Payload.area, Payload.area, hptr, hs.ptrs q hq, hqb]
      exact Area.disjoint_of_offsets _ hbelow (by omega)
  · intro b h0 h1 q hq hqb
    exact absurd hqb (havail b h0 h1 _ (List.mem_map_of_mem hq))

/-! ## Single steps -/

/-- A message of `n` bytes. -/
def message (n : ℕ) : OutgoingMessage := { OutgoingMessage.mk' 0 [] with payloadSize := n, payloadMode := .keepreg }

theorem step_enqueue (s : Sys) (n : ℕ) : step L s (.enqueue (message n) true) =
    some { s with snd := { s.snd with outLongHdrs := s.snd.outLongHdrs ++ [message n] } } := by
  simp [step, enqueueMessage]

theorem step_place {s : Sys} {n : ℕ} {rest : List OutgoingMessage} (hs : s.snd.outShortHdrs = [])
    (hl : s.snd.outLongHdrs = message n :: rest) (h0 : n ≠ 0) (ha : s.snd.lmbWAvail s.snd.curWriteLmb = true)
    (hfit : s.snd.curWriteOffset + n ≤ L.lmbSize) :
    step L s .push = some { s with
      snd := { s.snd with
        outLongHdrs := rest
        curWriteOffset := align128 (s.snd.curWriteOffset + n)
        curWriteCount := int32 (s.snd.curWriteCount + 1) }
      outstanding := s.outstanding ++
        [⟨⟨s.snd.curWriteLmb, s.snd.curWriteOffset, n⟩, L.ptr s.snd.curWriteLmb s.snd.curWriteOffset, .placed⟩]
      placed := s.placed + 1 } := by
  have hsize : ¬ L.sndConfig.lmbSize < n := by
    change ¬ L.lmbSize < n
    omega
  have hfit' : s.snd.curWriteOffset + n ≤ L.sndConfig.lmbSize := hfit
  simp only [step, pushIter, hs, pushMessagesLong, hl, message, OutgoingMessage.mk', h0, ha, hsize, hfit', if_false,
    if_true, reduceCtorEq, not_true_eq_false, ne_eq, Bool.true_eq_false]
  rfl

theorem step_flip {s : Sys} {n : ℕ} {rest : List OutgoingMessage} (hs : s.snd.outShortHdrs = [])
    (hl : s.snd.outLongHdrs = message n :: rest) (h0 : n ≠ 0) (hn : n ≤ L.lmbSize)
    (ha : s.snd.lmbWAvail s.snd.curWriteLmb = true) (hfull : L.lmbSize < s.snd.curWriteOffset + n) :
    step L s .push = some { s with
      snd := { s.snd with
        lmbWAvail := Function.update s.snd.lmbWAvail s.snd.curWriteLmb false
        curWriteLmb := (s.snd.curWriteLmb + 1) % L.numLmbs
        curWriteOffset := 0
        curWriteCount := 0 }
      flips := s.flips ++ [⟨⟨s.snd.curWriteLmb, s.snd.curWriteCount, s.placed⟩, false⟩]
      placed := 0 } := by
  have hsize : ¬ L.sndConfig.lmbSize < n := Nat.not_lt.mpr hn
  have hfull' : ¬ s.snd.curWriteOffset + n ≤ L.sndConfig.lmbSize := Nat.not_le.mpr hfull
  simp only [step, pushIter, hs, pushMessagesLong, hl, message, OutgoingMessage.mk', h0, ha, hsize, hfull', if_false,
    reduceCtorEq, not_true_eq_false, ne_eq, Bool.true_eq_false]
  rfl

/-- A flip request that brings the count of its buffer to zero is acknowledged. -/
theorem run_acked {s : Sys} {f j m : ℕ} {n : ℤ} (hf : s.flips[f]? = some ⟨⟨j, n, m⟩, false⟩)
    (hcount : int32 (s.rcv.lmbRCounts j - n) = 0) (hshort : s.rcv.outShortHdrs = []) (hacks : s.acks = []) :
    ∃ t t', run (step L) s [.sendFlip f, .flipRequest f, .rcvPush, .sendAck 0] = some t ∧
      step L t (.flipAck 0) = some t' ∧ t.snd = s.snd ∧ t'.snd.lmbWAvail j = true ∧ t.outstanding = s.outstanding := by
  have hset : ∀ q : Flip, (s.flips.set f q)[f]? = some q :=
    fun q => List.getElem?_set_self (List.getElem?_eq_some_iff.mp hf).1
  simp only [run_cons, run_nil, step, hf, hset, hcount, handleFlipRequest, setRCount, pushIter, hshort, hacks,
    Option.bind_eq_bind, Option.bind_some, Option.pure_def, if_true, List.nil_append, ackBuffer_flipAck,
    Option.map_some, Option.toList_some, List.getElem?_cons_zero, List.set_cons_zero]
  exact ⟨_, _, rfl, rfl, rfl, Function.update_self _ _ _, rfl⟩

/-! ## A buffer that is too large -/

/-- `k` one-byte messages were placed in the first buffer and none was sent. -/
def Sys.filled (L : Link) (k : ℕ) : Sys :=
  { Sys.init with
    snd := { Endpoint.init with curWriteCount := int32 k, curWriteOffset := 128 * k }
    outstanding := (List.range k).map fun j => ⟨⟨0, 128 * j, 1⟩, L.ptr 0 (128 * j), .placed⟩
    placed := k }

theorem run_filled_succ {k : ℕ} (hk : 128 * (k + 1) ≤ L.lmbSize) :
    run (step L) (Sys.filled L k) [.enqueue (message 1) true, .push] = some (Sys.filled L (k + 1)) := by
  have halign : align128 (128 * k + 1) = 128 * (k + 1) := by
    unfold align128
    split <;> omega
  have hcount : int32 (int32 k + 1) = int32 ((k + 1 : ℕ) : ℤ) := int32_int32_add _ _
  rw [run_cons, step_enqueue, Option.bind_some, run_cons, step_place rfl rfl Nat.one_ne_zero rfl
    (show 128 * k + 1 ≤ L.lmbSize by omega), Option.bind_some, run_nil]
  simp only [Sys.filled, halign, hcount, List.range_succ, List.map_append, List.map_cons, List.map_nil]
  rfl

theorem run_filled : ∀ {k : ℕ}, 128 * k ≤ L.lmbSize →
    run (step L) Sys.init (List.replicate k [Event.enqueue (message 1) true, .push]).flatten =
      some (Sys.filled L k)
  | 0, _ => by
    have h0 : int32 0 = 0 := int32_eq_self (by omega) (by omega)
    simp [Sys.filled, Sys.init, Endpoint.init, h0]
  | k + 1, hk => by
    rw [List.replicate_succ', List.flatten_append, run_append, run_filled (by omega)]
    exact run_filled_succ hk

/-- The full buffer is flipped and acknowledged at once: its count has wrapped to zero. -/
def earlyAck (L : Link) : List Event :=
  [.enqueue (message L.lmbSize) true, .push, .sendFlip 0, .flipRequest 0, .rcvPush, .sendAck 0]

theorem run_earlyAck (offset k : ℕ) (h0 : 0 < offset) (hz : 0 < L.lmbSize) (P : List Payload) :
    ∃ s s', run (step L) ⟨{ Endpoint.init with curWriteOffset := offset }, .init, P, [], [], k⟩ (earlyAck L) =
        some s ∧ step L s (.flipAck 0) = some s' ∧ s.snd.lmbWAvail 0 = false ∧ s'.snd.lmbWAvail 0 = true ∧
      s.outstanding = P := by
  obtain ⟨s₁, hpush, hflip, hrcv, hacks, havail, hout⟩ : ∃ s₁ : Sys,
      run (step L) ⟨{ Endpoint.init with curWriteOffset := offset }, .init, P, [], [], k⟩
        [.enqueue (message L.lmbSize) true, .push] = some s₁ ∧
      s₁.flips[0]? = some ⟨⟨0, 0, k⟩, false⟩ ∧ s₁.rcv = .init ∧ s₁.acks = [] ∧ s₁.snd.lmbWAvail 0 = false ∧
      s₁.outstanding = P := by
    rw [run_cons, step_enqueue, Option.bind_some, run_cons, step_flip rfl rfl hz.ne' le_rfl rfl
      (show L.lmbSize < offset + L.lmbSize by omega), Option.bind_some, run_nil]
    exact ⟨_, rfl, rfl, rfl, rfl, rfl, rfl⟩
  have hzero : int32 (s₁.rcv.lmbRCounts 0 - 0) = 0 := by
    rw [hrcv]
    exact int32_eq_self (by decide) (by decide)
  obtain ⟨s, s', hrun, hstep, hsnd, havail', hout'⟩ := run_acked hflip hzero (by rw [hrcv]; rfl) hacks
  refine ⟨s, s', ?_, hstep, hsnd ▸ havail, havail', hout'.trans hout⟩
  change run (step L) _ ([.enqueue (message L.lmbSize) true, .push] ++
    [.sendFlip 0, .flipRequest 0, .rcvPush, .sendAck 0]) = _
  rw [run_append, hpush, Option.bind_some, hrun]

/-- A buffer with room for `2 ^ 32` payloads comes back with all of them in it. -/
theorem not_safe_of_large (hz : 2 ^ 39 ≤ L.lmbSize) :
    ∃ s s', run (step L) Sys.init
        ((List.replicate (2 ^ 32) [Event.enqueue (message 1) true, .push]).flatten ++ earlyAck L) = some s ∧
      step L s (.flipAck 0) = some s' ∧ ¬ SafeStep L s s' := by
  obtain ⟨n, hn⟩ : ∃ n : ℕ, n = 2 ^ 32 := ⟨_, rfl⟩
  have hcount : int32 (n : ℤ) = 0 := by
    rw [hn]
    exact Int.bmod_self
  have hstart : Sys.filled L n = ⟨{ Endpoint.init with curWriteOffset := 128 * n }, .init,
      (Sys.filled L n).outstanding, [], [], n⟩ := by
    simp only [Sys.filled, hcount]
    rfl
  obtain ⟨s, s', hrun, hstep, h0, h1, hP⟩ := run_earlyAck (L := L) (128 * n) n (by omega) (by omega)
    (Sys.filled L n).outstanding
  rw [← hn]
  refine ⟨s, s', ?_, hstep, fun hsafe => ?_⟩
  · rw [run_append, run_filled (by omega), Option.bind_some, hstart]
    exact hrun
  · have hmem : (⟨⟨0, 128 * 0, 1⟩, L.ptr 0 (128 * 0), .placed⟩ : Payload) ∈ s.outstanding := by
      rw [hP]
      exact List.mem_map_of_mem (List.mem_range.mpr (by omega))
    cases hsafe.avail 0 h0 h1 _ hmem rfl

/-! ## A buffer that is taken for another -/

section Mixup

variable (L : Link) (i o : ℕ)

/-- The payloads that fill the buffer `b`: a single one, except that one of the buffer `i` starts at `o`. -/
def payloadsOf (b : ℕ) : List Payload :=
  if b = i ∧ o ≠ 0 then [⟨⟨b, 0, o⟩, L.ptr b 0, .placed⟩, ⟨⟨b, o, L.lmbSize - o⟩, L.ptr b o, .placed⟩]
  else [⟨⟨b, 0, L.lmbSize⟩, L.ptr b 0, .placed⟩]

def firstSize (b : ℕ) : ℕ := if b = i ∧ o ≠ 0 then o else L.lmbSize

/-- The first `b` buffers are full and flipped, and the next message waits. -/
def Sys.flipped (b : ℕ) : Sys :=
  { Sys.init with
    snd := { Endpoint.init with
      outLongHdrs := [message (firstSize L i o b)]
      curWriteLmb := b % L.numLmbs
      lmbWAvail := fun c => decide (b ≤ c) }
    outstanding := (List.range b).flatMap (payloadsOf L i o)
    flips := (List.range b).map fun c => ⟨⟨c, (payloadsOf L i o c).length, (payloadsOf L i o c).length⟩, false⟩ }

/-- Fills the buffer `b` and flips it for the next message. -/
def fillBuffer (b : ℕ) : List Event :=
  (if b = i ∧ o ≠ 0 then [.push, .enqueue (message (L.lmbSize - o)) true, .push] else [.push]) ++
    [.enqueue (message (firstSize L i o (b + 1))) true, .push]

variable {L} {i o}

theorem firstSize_bounds (ho : o < L.lmbSize) (b : ℕ) : firstSize L i o b ≠ 0 ∧ firstSize L i o b ≤ L.lmbSize := by
  unfold firstSize
  split <;> omega

theorem run_fillBuffer {b : ℕ} (hb : b < L.numLmbs) (ho : o < L.lmbSize) (h128 : 128 ∣ o) :
    run (step L) (.flipped L i o b) (fillBuffer L i o b) = some (.flipped L i o (b + 1)) := by
  obtain ⟨hfirst, hfirst'⟩ := firstSize_bounds (i := i) ho (b + 1)
  have hmod : b % L.numLmbs = b := Nat.mod_eq_of_lt hb
  have hfull : align128 L.lmbSize = L.lmbSize := Nat.le_antisymm (align128_le le_rfl L.lmbSize_dvd) (le_align128 _)
  have havail : Function.update (fun c => decide (b ≤ c)) b false = fun c => decide (b + 1 ≤ c) := by
    funext c
    by_cases hc : c = b
    · simp [hc]
    · rw [Function.update_of_ne hc]
      simp only [decide_eq_decide]
      omega
  by_cases hi : b = i ∧ o ≠ 0
  · have halign : align128 o = o := Nat.le_antisymm (align128_le le_rfl h128) (le_align128 _)
    have hrest : o + (L.lmbSize - o) = L.lmbSize := by omega
    have hcount : int32 (int32 1 + 1) = 2 := by
      rw [int32_int32_add]
      exact int32_eq_self (by decide) (by decide)
    have hwaits : (Sys.flipped L i o b).snd.outLongHdrs = [message o] := by
      change [message (firstSize L i o b)] = _
      rw [firstSize, if_pos hi]
    have hpayloads : payloadsOf L i o b =
        [⟨⟨b, 0, o⟩, L.ptr b 0, .placed⟩, ⟨⟨b, o, L.lmbSize - o⟩, L.ptr b o, .placed⟩] := if_pos hi
    rw [fillBuffer, if_pos hi]
    simp only [List.cons_append, List.nil_append, run_cons, run_nil]
    rw [step_place rfl hwaits hi.2 (by simp [Sys.flipped, hmod])
      (by simp [Sys.flipped, Endpoint.init]; omega), Option.bind_some, step_enqueue, Option.bind_some,
      step_place rfl rfl (by omega) (by simp [Sys.flipped, hmod])
      (by simp [Sys.flipped, Endpoint.init, halign]; omega), Option.bind_some, step_enqueue, Option.bind_some,
      step_flip rfl rfl hfirst hfirst' (by simp [Sys.flipped, hmod])
      (by simp [Sys.flipped, Endpoint.init, halign, hrest, hfull]; omega), Option.bind_some]
    simp [Sys.flipped, Sys.init, Endpoint.init, hmod, havail, hcount, hpayloads, List.range_succ, halign]
  · have hcount : int32 1 = 1 := int32_eq_self (by decide) (by decide)
    have hwaits : (Sys.flipped L i o b).snd.outLongHdrs = [message L.lmbSize] := by
      change [message (firstSize L i o b)] = _
      rw [firstSize, if_neg hi]
    have hpayloads : payloadsOf L i o b = [⟨⟨b, 0, L.lmbSize⟩, L.ptr b 0, .placed⟩] := if_neg hi
    rw [fillBuffer, if_neg hi]
    simp only [List.cons_append, List.nil_append, run_cons, run_nil]
    rw [step_place rfl hwaits (by omega) (by simp [Sys.flipped, hmod])
      (by simp [Sys.flipped, Endpoint.init]), Option.bind_some, step_enqueue, Option.bind_some,
      step_flip rfl rfl hfirst hfirst' (by simp [Sys.flipped, hmod])
      (by simp [Sys.flipped, Endpoint.init, hfull]; omega), Option.bind_some]
    simp [Sys.flipped, Sys.init, Endpoint.init, hmod, havail, hcount, hpayloads, List.range_succ]

/-- All buffers are filled and flipped, one after the other. -/
theorem run_fillBuffers (ho : o < L.lmbSize) (h128 : 128 ∣ o) : ∀ {b : ℕ}, b ≤ L.numLmbs →
    run (step L) Sys.init (.enqueue (message (firstSize L i o 0)) true ::
      (List.range b).flatMap (fillBuffer L i o)) = some (.flipped L i o b)
  | 0, _ => by
    rw [run_cons, step_enqueue, Option.bind_some]
    simp [Sys.flipped, Sys.init, Endpoint.init]
  | b + 1, hb => by
    rw [List.range_succ, List.flatMap_append, ← List.cons_append, run_append, run_fillBuffers ho h128 (by omega),
      Option.bind_some, List.flatMap_singleton]
    exact run_fillBuffer hb ho h128

/-- All buffers are filled; then a payload is handled that counts for `j`, and `j` is acknowledged. -/
def mixedAck (L : Link) (i o y j : ℕ) : List Event :=
  .enqueue (message (firstSize L i o 0)) true :: (List.range L.numLmbs).flatMap (fillBuffer L i o) ++
    [.sendPayload y, .consume y, .longMsgptr y] ++ [.sendFlip j, .flipRequest j, .rcvPush, .sendAck 0]

/-- A payload is sent, handled and counted, for the buffer `j`. -/
theorem run_counted {s : Sys} {y j : ℕ} {p : Payload} (hy : s.outstanding[y]? = some p) (hp : p.status = .placed)
    (hfind : rBuffer L.rcvConfig p.ptr = some j) :
    run (step L) s [.sendPayload y, .consume y, .longMsgptr y] = some { s with
      rcv := (s.rcv.setRCount j (int32 (s.rcv.lmbRCounts j + 1))).1
      outstanding := s.outstanding.eraseIdx y } := by
  have hlt := (List.getElem?_eq_some_iff.mp hy).1
  have hset : ∀ q : Payload, (s.outstanding.set y q)[y]? = some q := fun q => List.getElem?_set_self hlt
  have hset' : ∀ q q' : Payload, ((s.outstanding.set y q).set y q')[y]? = some q' := by
    intro q q'
    rw [List.set_set]
    exact hset q'
  have herase : ∀ q q' : Payload, ((s.outstanding.set y q).set y q').eraseIdx y = s.outstanding.eraseIdx y := by
    intro q q'
    rw [List.set_set, List.eraseIdx_set_eq]
  simp only [run_cons, run_nil, step, hy, hp, hset, hset', herase, hfind, handleLongMsgptr, Option.bind_eq_bind,
    Option.bind_some, Option.pure_def, if_true, if_false, reduceCtorEq]

/-- **A payload that is taken for one in another buffer** lets that buffer come back with its payload in it. -/
theorem not_safe_of_mixup (hi : i < L.numLmbs) (ho : o < L.lmbSize) (h128 : 128 ∣ o) {j : ℕ}
    (hfind : rBuffer L.rcvConfig (L.ptr i o) = some j) (hne : j ≠ i) :
    ∃ es s s', run (step L) Sys.init es = some s ∧ step L s (.flipAck 0) = some s' ∧ ¬ SafeStep L s s' := by
  have hj : j < L.numLmbs := List.mem_range.mp (List.mem_of_find?_eq_some hfind)
  have hstart := run_fillBuffers (i := i) ho h128 (le_refl L.numLmbs)
  obtain ⟨p, hp, hpptr, hpbuf, hpst⟩ : ∃ p ∈ payloadsOf L i o i, p.ptr = L.ptr i o ∧ p.buffer = i ∧
      p.status = .placed := by
    unfold payloadsOf
    split
    · exact ⟨_, List.mem_cons_of_mem _ (List.mem_singleton_self _), rfl, rfl, rfl⟩
    · rename_i h0
      obtain rfl : o = 0 := by simpa using h0
      exact ⟨_, List.mem_singleton_self _, rfl, rfl, rfl⟩
  have hpayloads : payloadsOf L i o j = [⟨⟨j, 0, L.lmbSize⟩, L.ptr j 0, .placed⟩] := if_neg fun h => hne h.1
  have hmem : ∀ {c q}, c < L.numLmbs → q ∈ payloadsOf L i o c → q ∈ (Sys.flipped L i o L.numLmbs).outstanding :=
    fun hc hq => List.mem_flatMap.mpr ⟨_, List.mem_range.mpr hc, hq⟩
  obtain ⟨y, hy⟩ := List.getElem?_of_mem (hmem hi hp)
  have hcounted := run_counted hy hpst (hpptr ▸ hfind)
  have h1 : int32 (0 + 1) = 1 := int32_eq_self (by decide) (by decide)
  obtain ⟨s, s', hrun, hstep, hsnd, havail, hout⟩ := run_acked (L := L) (f := j) (j := j) (m := 1) (n := 1)
    (s := { Sys.flipped L i o L.numLmbs with
      rcv := (Endpoint.init.setRCount j (int32 (0 + 1))).1
      outstanding := (Sys.flipped L i o L.numLmbs).outstanding.eraseIdx y })
    (by simp [Sys.flipped, hj, hpayloads])
    (by rw [lmbRCounts_setRCount, Function.update_self, h1]; exact int32_eq_self (by decide) (by decide))
    (by rw [h1]; rfl) rfl
  refine ⟨mixedAck L i o y j, s, s', ?_, hstep, fun hsafe => ?_⟩
  · rw [mixedAck, run_append, run_append, hstart, Option.bind_some, hcounted, Option.bind_some]
    exact hrun
  · have hwait : s.snd.lmbWAvail j = false := by
      rw [hsnd]
      exact decide_eq_false (Nat.not_le.mpr hj)
    have hq : (⟨⟨j, 0, L.lmbSize⟩, L.ptr j 0, .placed⟩ : Payload) ∈ s.outstanding := by
      rw [hout]
      refine mem_eraseIdx_of_ne hy (hmem hj (hpayloads ▸ List.mem_singleton_self _)) ?_
      rintro rfl
      exact hne hpbuf
    exact absurd (hsafe.avail j hwait havail _ hq rfl) Bool.false_ne_true

end Mixup

/-- **Flow control never overwrites unconsumed data, in every interleaving, if and only if** a buffer is
too small for `2 ^ 32` payloads, beyond which `int` counts no longer tell an empty buffer from a full one, and the
receiver takes no buffer for another. -/
theorem safe_iff (L : Link) :
    (∀ es s e s', run (step L) Sys.init es = some s → step L s e = some s' → SafeStep L s s') ↔
      L.lmbSize < 2 ^ 39 ∧ L.FindsOwn := by
  constructor
  · intro h
    constructor
    · by_contra hz
      obtain ⟨s, s', hrun, hstep, hbad⟩ := not_safe_of_large (L := L) (Nat.not_lt.mp hz)
      exact hbad (h _ s _ s' hrun hstep)
    · intro i hi o ho h128 j hfind
      by_contra hne
      obtain ⟨es, s, s', hrun, hstep, hbad⟩ := not_safe_of_mixup hi ho h128 hfind hne
      exact hbad (h es s _ s' hrun hstep)
  · rintro ⟨hlt, hfind⟩ es s e s' hrun hstep
    have hinv : s.Inv L := run_inv (fun _ _ _ ht h => ht.step hlt hfind h) (Sys.Inv.init L) hrun
    exact hinv.safeStep hlt hfind hstep

/-- Two nodes with two buffers of half a terabyte each way. -/
def largeLink : Link where
  numLmbs := 2
  lmbSize := 2 ^ 39
  maxMedium := 512
  segmentInfo _ := ⟨0, 2 ^ 41⟩
  src := 0
  dst := 1
  numLmbs_pos := by decide
  lmbSize_dvd := by decide

/-- `2 ^ 32` messages of one byte, then a flip: the buffer is acknowledged before one of them was sent. -/
theorem flow_control_fails :
    ∃ s s', run (step largeLink) Sys.init
        ((List.replicate (2 ^ 32) [Event.enqueue (message 1) true, .push]).flatten ++ earlyAck largeLink) =
          some s ∧
      step largeLink s (.flipAck 0) = some s' ∧ ¬ SafeStep largeLink s s' :=
  not_safe_of_large le_rfl

/-! ## The sizes of the segments -/

/-- The LMBs of the sender have room in the segments of both sizes, and nothing wraps. -/
structure Link.Fits (L : Link) : Prop where
  counted : L.src * L.numLmbs + L.numLmbs < 2 ^ 31
  room : L.lmbSize * (L.src * L.numLmbs + L.numLmbs) ≤ (L.segmentInfo L.dst).size
  room' : L.lmbSize * (L.src * L.numLmbs + L.numLmbs) ≤ (L.segmentInfo L.src).size
  addr_lt : (L.segmentInfo L.dst).addr + (L.segmentInfo L.dst).size < 2 ^ 64
  addr_lt' : (L.segmentInfo L.dst).addr + (L.segmentInfo L.src).size < 2 ^ 64

section Fits

variable {L : Link} {i j o : ℕ}

theorem Link.Fits.number_le (hi : i < L.numLmbs) :
    L.lmbSize * (L.src * L.numLmbs + i + 1) ≤ L.lmbSize * (L.src * L.numLmbs + L.numLmbs) :=
  Nat.mul_le_mul_left _ (by omega)

theorem Link.Fits.base_eq (h : L.Fits) (hi : i < L.numLmbs) : (L.base i : ℤ) =
    (L.segmentInfo L.dst).addr + (L.segmentInfo L.dst).size - (L.lmbSize * (L.src * L.numLmbs + i + 1) : ℕ) := by
  obtain ⟨hcounted, hroom, -, haddr, -⟩ := h
  have hle := number_le hi
  simp only [Link.base, Link.sndConfig, EndpointConfig.ofSegments,
    int32_lmbNumber (show L.src * L.numLmbs + i + 1 < 2 ^ 31 by omega)]
  rw [← Nat.cast_mul, uint64_eq_self (by omega) (by omega)]
  omega

/-- The receiver looks for an LMB as far from there as the sizes differ. -/
theorem Link.Fits.lmbRBases_eq (h : L.Fits) (hi : i < L.numLmbs) : (L.rcvConfig.lmbRBases i : ℤ) =
    L.base i - ((L.segmentInfo L.dst).size - (L.segmentInfo L.src).size) := by
  have hbase := h.base_eq hi
  obtain ⟨hcounted, -, hroom', -, haddr'⟩ := h
  have hle := number_le hi
  simp only [Link.rcvConfig, EndpointConfig.ofSegments,
    emod_lmbNumber (show L.src * L.numLmbs + i + 1 < 2 ^ 31 by omega)]
  rw [← Nat.cast_mul, uint64_eq_self (by omega) (by omega)]
  omega

/-- The buffers lie one below the other. -/
theorem Link.Fits.base_sub_base (h : L.Fits) (hi : i < L.numLmbs) (hj : j < L.numLmbs) :
    (L.base i : ℤ) - L.base j = L.lmbSize * (j - i) := by
  rw [h.base_eq hi, h.base_eq hj]
  push_cast
  ring

theorem Link.Fits.ptr_eq (h : L.Fits) (hi : i < L.numLmbs) (ho : o ≤ L.lmbSize) : L.ptr i o = L.base i + o := by
  have hbase := h.base_eq hi
  have haddr := h.addr_lt
  have hsucc : L.lmbSize * (L.src * L.numLmbs + i + 1) = L.lmbSize * (L.src * L.numLmbs + i) + L.lmbSize :=
    Nat.mul_succ _ _
  rw [← Int.natCast_inj, Link.ptr, uint64_eq_self (by omega) (by omega)]
  push_cast
  rfl

/-- `handle_long_msgptr` finds the LMB that holds the pointer: they do not overlap. -/
theorem Link.Fits.rBuffer_iff (h : L.Fits) {ptr : ℕ} : rBuffer L.rcvConfig ptr = some j ↔
    j < L.numLmbs ∧ L.rcvConfig.lmbRBases j ≤ ptr ∧ ptr < L.rcvConfig.lmbRBases j + L.lmbSize := by
  have hend : ∀ {c}, c < L.numLmbs →
      uint64 (L.rcvConfig.lmbRBases c + L.lmbSize) = L.rcvConfig.lmbRBases c + L.lmbSize := by
    intro c hc
    have hbase := h.base_eq hc
    have hrbase := h.lmbRBases_eq hc
    have haddr := h.addr_lt'
    have hsucc : L.lmbSize * (L.src * L.numLmbs + c + 1) = L.lmbSize * (L.src * L.numLmbs + c) + L.lmbSize :=
      Nat.mul_succ _ _
    rw [← Int.natCast_inj, uint64_eq_self (by omega) (by omega), Nat.cast_add]
  unfold rBuffer
  change (List.range L.numLmbs).find? (fun c => L.rcvConfig.lmbRBases c ≤ ptr &&
    ptr < uint64 (L.rcvConfig.lmbRBases c + L.lmbSize)) = some j ↔ _
  rw [List.find?_range_eq_some]
  simp only [Bool.and_eq_true, decide_eq_true_eq, List.mem_range, Bool.not_eq_true', Bool.and_eq_false_iff,
    decide_eq_false_iff_not]
  constructor
  · rintro ⟨⟨hlo, hhi⟩, hj, -⟩
    rw [hend hj] at hhi
    exact ⟨hj, hlo, hhi⟩
  · rintro ⟨hj, hlo, hhi⟩
    refine ⟨⟨hlo, by rwa [hend hj]⟩, hj, fun c hc => ?_⟩
    -- an LMB with a smaller number lies above
    have hdiff := h.base_sub_base (hc.trans hj) hj
    have hrc := h.lmbRBases_eq (hc.trans hj)
    have hrj := h.lmbRBases_eq hj
    have hmul : (L.lmbSize : ℤ) * 1 ≤ L.lmbSize * (j - c) := by
      refine mul_le_mul_of_nonneg_left ?_ (Int.natCast_nonneg _)
      omega
    omega

/-- The place of a payload relative to an LMB of the receiver. -/
theorem Link.Fits.rBuffer_ptr_iff (h : L.Fits) (hi : i < L.numLmbs) (ho : o < L.lmbSize) :
    rBuffer L.rcvConfig (L.ptr i o) = some j ↔
      j < L.numLmbs ∧
        0 ≤ (L.segmentInfo L.dst).size - (L.segmentInfo L.src).size + o - (L.lmbSize * (i - j) : ℤ) ∧
        (L.segmentInfo L.dst).size - (L.segmentInfo L.src).size + o - (L.lmbSize * (i - j) : ℤ) < L.lmbSize := by
  rw [h.rBuffer_iff]
  refine and_congr_right fun hj => ?_
  have hdiff := h.base_sub_base hi hj
  have hrj := h.lmbRBases_eq hj
  have hptr := h.ptr_eq hi ho.le
  have hneg : (L.lmbSize : ℤ) * (i - j) = - (L.lmbSize * (j - i)) := by ring
  rw [hneg]
  omega

/-- Sizes in between mix buffers up. -/
theorem Link.Fits.mixup_of_larger (h : L.Fits) (hown : L.FindsOwn) (hn : 2 ≤ L.numLmbs) {m : ℕ} (hm : 128 ≤ m)
    (hsize : (L.segmentInfo L.dst).size = (L.segmentInfo L.src).size + m) : L.numLmbs * L.lmbSize ≤ m := by
  by_contra hlt
  have hpos : 0 < L.lmbSize := Nat.pos_of_mul_pos_left (by omega : 0 < L.numLmbs * L.lmbSize)
  have hdvd := L.lmbSize_dvd
  have hdiv := Nat.div_add_mod m L.lmbSize
  have hmod := Nat.mod_lt m hpos
  rcases Nat.eq_zero_or_pos (m / L.lmbSize) with h0 | hq
  · -- the last bytes of the LMB 1 are taken for the first of the LMB 0
    rw [h0, Nat.mul_zero, Nat.zero_add] at hdiv
    have ho : L.lmbSize - 128 < L.lmbSize := by omega
    have hfind : rBuffer L.rcvConfig (L.ptr 1 (L.lmbSize - 128)) = some 0 := by
      refine (h.rBuffer_ptr_iff (by omega) ho).mpr ⟨by omega, ?_, ?_⟩ <;> push_cast <;> omega
    cases hown 1 (by omega) _ ho (Nat.dvd_sub hdvd (dvd_refl 128)) 0 hfind
  · have hlt' : m / L.lmbSize < L.numLmbs := Nat.div_lt_of_lt_mul (by rw [Nat.mul_comm]; omega)
    have hfind : rBuffer L.rcvConfig (L.ptr (m / L.lmbSize) 0) = some 0 := by
      refine (h.rBuffer_ptr_iff hlt' hpos).mpr ⟨by omega, ?_, ?_⟩
      all_goals
        rw [Nat.cast_zero, sub_zero, ← Nat.cast_mul]
        omega
    exact absurd (hown _ hlt' 0 hpos (dvd_zero 128) 0 hfind) hq.ne

theorem Link.Fits.mixup_of_smaller (h : L.Fits) (hown : L.FindsOwn) (hn : 2 ≤ L.numLmbs) {m : ℕ} (hm : 0 < m)
    (hsize : (L.segmentInfo L.src).size = (L.segmentInfo L.dst).size + m) : L.numLmbs * L.lmbSize < m + 128 := by
  by_contra hge
  have hpos : 0 < L.lmbSize := Nat.pos_of_mul_pos_left (by omega : 0 < L.numLmbs * L.lmbSize)
  have hdvd := L.lmbSize_dvd
  have hdiv := Nat.div_add_mod (m - 1) L.lmbSize
  have hmod := Nat.mod_lt (m - 1) hpos
  by_cases hq : (m - 1) / L.lmbSize + 1 < L.numLmbs
  · have hfind : rBuffer L.rcvConfig (L.ptr 0 0) = some ((m - 1) / L.lmbSize + 1) := by
      have hmul : (L.lmbSize : ℤ) * ((0 : ℕ) - ((m - 1) / L.lmbSize + 1 : ℕ)) =
          - ((L.lmbSize * ((m - 1) / L.lmbSize) : ℕ) + L.lmbSize) := by
        push_cast
        ring
      refine (h.rBuffer_ptr_iff (by omega) hpos).mpr ⟨hq, ?_, ?_⟩ <;> rw [hmul] <;> omega
    cases hown 0 (by omega) 0 hpos (dvd_zero 128) _ hfind
  · -- the last bytes of the LMB 0 are taken for some of the last LMB
    have hlow : L.lmbSize * (L.numLmbs - 1) ≤ L.lmbSize * ((m - 1) / L.lmbSize) := Nat.mul_le_mul_left _ (by omega)
    have hall : L.numLmbs * L.lmbSize = L.lmbSize * (L.numLmbs - 1) + L.lmbSize := by
      rw [← Nat.mul_succ, Nat.mul_comm]
      congr 1
      omega
    have ho : L.lmbSize - 128 < L.lmbSize := by omega
    have hfind : rBuffer L.rcvConfig (L.ptr 0 (L.lmbSize - 128)) = some (L.numLmbs - 1) := by
      have hmul : (L.lmbSize : ℤ) * ((0 : ℕ) - (L.numLmbs - 1 : ℕ)) = - (L.lmbSize * (L.numLmbs - 1) : ℕ) := by
        push_cast
        ring
      refine (h.rBuffer_ptr_iff (by omega) ho).mpr ⟨by omega, ?_, ?_⟩ <;> rw [hmul] <;> omega
    have heq := hown 0 (by omega) _ ho (Nat.dvd_sub hdvd (dvd_refl 128)) _ hfind
    omega

/-- **The receiver finds its own buffers** exactly when there is only one of them, the segment of the receiver is at
most 127 bytes larger than that of the sender, or the sizes differ so much that it finds none. -/
theorem findsOwn_iff (h : L.Fits) : L.FindsOwn ↔
    L.numLmbs = 1 ∨
      ((L.segmentInfo L.src).size ≤ (L.segmentInfo L.dst).size ∧
        (L.segmentInfo L.dst).size < (L.segmentInfo L.src).size + 128) ∨
      (L.segmentInfo L.src).size + L.numLmbs * L.lmbSize ≤ (L.segmentInfo L.dst).size ∨
      (L.segmentInfo L.dst).size + L.numLmbs * L.lmbSize < (L.segmentInfo L.src).size + 128 := by
  constructor
  · intro hown
    by_cases hn : L.numLmbs = 1
    · exact .inl hn
    · refine .inr ?_
      have hn2 : 2 ≤ L.numLmbs := by
        have := L.numLmbs_pos
        omega
      rcases Nat.lt_or_ge (L.segmentInfo L.dst).size (L.segmentInfo L.src).size with hlt | hge
      · have hsmaller := h.mixup_of_smaller hown hn2 (Nat.sub_pos_of_lt hlt) (by omega)
        omega
      · by_cases hm : (L.segmentInfo L.dst).size < (L.segmentInfo L.src).size + 128
        · exact .inl ⟨hge, hm⟩
        · have hlarger := h.mixup_of_larger hown hn2
            (m := (L.segmentInfo L.dst).size - (L.segmentInfo L.src).size) (by omega) (by omega)
          omega
  · intro hsizes i hi o ho h128 j hfind
    obtain ⟨hj, hlo, hhi⟩ := (h.rBuffer_ptr_iff hi ho).mp hfind
    have hroom : o + 128 ≤ L.lmbSize := by
      have := L.lmbSize_dvd
      omega
    by_contra hne
    have hall : (L.numLmbs : ℤ) * L.lmbSize = L.lmbSize * (L.numLmbs - 1) + L.lmbSize := by ring
    have hle : ∀ d : ℤ, 1 ≤ d → d ≤ L.numLmbs - 1 →
        (L.lmbSize : ℤ) ≤ L.lmbSize * d ∧ (L.lmbSize : ℤ) * d ≤ L.lmbSize * (L.numLmbs - 1) := by
      intro d h1 h2
      refine ⟨?_, mul_le_mul_of_nonneg_left h2 (Int.natCast_nonneg _)⟩
      have hmul : (L.lmbSize : ℤ) * 1 ≤ L.lmbSize * d := mul_le_mul_of_nonneg_left h1 (Int.natCast_nonneg _)
      rwa [mul_one] at hmul
    zify at hsizes
    rcases Nat.lt_or_gt_of_ne hne with hlt | hlt
    · obtain ⟨h1, h2⟩ := hle (i - j) (by omega) (by omega)
      omega
    · obtain ⟨h1, h2⟩ := hle (j - i) (by omega) (by omega)
      have hneg : (L.lmbSize : ℤ) * (i - j) = - (L.lmbSize * (j - i)) := by ring
      rw [hneg] at hlo hhi
      omega

end Fits

end Realm.Lmb

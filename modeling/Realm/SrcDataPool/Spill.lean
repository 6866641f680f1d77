import Realm.Lib.Run
import Realm.Lib.Index
import Realm.Endpoint.Payload

/-!
# Realm.SrcDataPool.Spill — spill memory of outgoing messages (`macros_impl/srcdatapool.def`)

A message whose payload may have to wait in memory of its own reserves that many bytes of spill memory before it
is queued (`ActiveMessageEndpoint::enqueue_message`).  The reservation is given back when the payload moves to the
pool, at once in `reserve_srcdata` or later in `assign_srcdata_pointer`, or else by the destructor.

* `SpillBytes`: the counters.  They are `size_t`s; here an underflow shows as a negative number.
* `enqueueContiguous`, `enqueueTwoD`, `enqueueSpans`: the headers that the `enqueue_message` overloads make.
* `reserveSrcdata`, `assignSrcdataPointer`, `destroy`: the member functions of `OutgoingMessage`, with the pool.
* `assignPayload`, `finishAssign`: the two halves of `assign_srcdata_pointer`.  It holds no lock of the endpoint, so
  other threads see `PAYLOAD_SRCPTR` before the reservation is given back.
* `step`: one call of one thread, or half of it; those of different threads interleave.  The pool's answer is part of
  the event.
* `Balanced`: the accounting is right; `spill_balanced`: when it is.
-/

namespace Realm.Spill

open Lib

/-! ## Counters -/

/-- `current_spill_bytes` and `current_permsg_spill_bytes` of the pool. -/
structure SpillBytes where
  currentSpillBytes : ℤ
  currentPermsgSpillBytes : ℕ → ℤ

namespace SpillBytes

def init : SpillBytes := ⟨0, fun _ => 0⟩

/-- `alloc_spill_memory`; `none` while the caller has to wait.  A `maxSpillBytes` of zero is no limit. -/
def allocSpillMemory (maxSpillBytes : ℕ) (alwaysAllowSpilling : Bool) (sp : SpillBytes) (sizeNeeded msgtype : ℕ) :
    Option SpillBytes :=
  if maxSpillBytes = 0 ∨ alwaysAllowSpilling ∨ sp.currentSpillBytes + sizeNeeded ≤ maxSpillBytes then
    some ⟨sp.currentSpillBytes + sizeNeeded, Function.update sp.currentPermsgSpillBytes msgtype
      (sp.currentPermsgSpillBytes msgtype + sizeNeeded)⟩
  else none

/-- `release_spill_memory` -/
def releaseSpillMemory (sp : SpillBytes) (sizeReleased msgtype : ℕ) : SpillBytes :=
  ⟨sp.currentSpillBytes - sizeReleased, Function.update sp.currentPermsgSpillBytes msgtype
    (sp.currentPermsgSpillBytes msgtype - sizeReleased)⟩

end SpillBytes

/-! ## Messages -/

/-- Where the thread that enqueues a message has got to. -/
inductive Phase
  | new
  | spilled
  | queued
deriving DecidableEq

/-- An `OutgoingMessage` with its `payload_src`.  `wasUsingSpill` is the variable of the thread that is in
`assign_srcdata_pointer` for it.  `reserved` and `released` count the calls of `alloc_spill_memory` and
`release_spill_memory` for it: no code reads them, the specification does. -/
structure Message extends OutgoingMessage where
  payloadSrc : Option PayloadSource
  phase : Phase
  wasUsingSpill : Bool
  reserved : ℕ
  released : ℕ
deriving DecidableEq

/-- What the node is configured with: `max_spill_bytes`, `lmb_size`, and `is_registered`. -/
structure Config where
  maxSpillBytes : ℕ
  lmbSize : ℕ
  isRegistered : Addr → Bool

namespace Message

/-- `OutgoingMessage(msgid, num_args, args)` -/
def new (msgid : ℕ) (args : List ℤ) : Message :=
  { toOutgoingMessage := .mk' msgid args
    payloadSrc := none
    phase := .new
    wasUsingSpill := false
    reserved := 0
    released := 0 }

/-- `set_payload`; `none` is a failed assertion. -/
def setPayload (c : Config) (hdr : Message) (payloadSrc : PayloadSource) (payloadSize : ℕ)
    (payloadMode : PayloadMode) (dstptr : ℕ) : Option Message :=
  if hdr.payloadMode ≠ .none ∨ payloadMode = .none ∨ payloadSize = 0 then none
  else if dstptr = 0 ∧ c.lmbSize < payloadSize then none
  else some { hdr with
    dstptr := dstptr
    payload := 0
    payloadSize := payloadSize
    payloadMode := payloadMode
    payloadSrc := some payloadSrc }

/-- `set_payload_empty` -/
def setPayloadEmpty (hdr : Message) : Message := { hdr with payloadMode := .empty }

/-- The common end of the overloads. -/
def attach (c : Config) (hdr : Message) (payloadSrc : PayloadSource) (payloadSize : ℕ) (payloadMode : PayloadMode)
    (dstptr : ℕ) : Option Message :=
  if payloadMode ≠ .none then
    if payloadSize > 0 then hdr.setPayload c payloadSrc payloadSize payloadMode dstptr
    else some hdr.setPayloadEmpty
  else some hdr

end Message

section Overloads

variable (c : Config) (msgid : ℕ) (args : List ℤ)

/-- `enqueue_message` for a contiguous payload, which may be in registered memory. -/
def enqueueContiguous (payload : Addr) (payloadSize : ℕ) (payloadMode : PayloadMode) (dstptr : ℕ) :
    Option Message :=
  let payloadMode := if payloadMode = .keep ∧ c.isRegistered payload then .keepreg else payloadMode
  (Message.new msgid args).attach c (.contiguous payload payloadSize payloadMode) payloadSize payloadMode dstptr

/-- `enqueue_message` for lines; `payload_size` is computed as a `size_t`. -/
def enqueueTwoD (payload : Addr) (lineSize : ℕ) (lineStride : Addr) (lineCount : ℕ) (payloadMode : PayloadMode)
    (dstptr : ℕ) : Option Message :=
  (Message.new msgid args).attach c (.twoD payload lineSize lineCount lineStride payloadMode)
    (lineSize * lineCount % 2 ^ 64) payloadMode dstptr

/-- `enqueue_message` for a list of spans. -/
def enqueueSpans (spans : SpanList) (payloadSize : ℕ) (payloadMode : PayloadMode) (dstptr : ℕ) : Option Message :=
  (Message.new msgid args).attach c (.span spans payloadSize payloadMode) payloadSize payloadMode dstptr

end Overloads

/-! ## Moving the payload -/

/-- "(hdr->payload_size > 0) && ((hdr->payload_mode == PAYLOAD_COPY) || (hdr->payload_mode == PAYLOAD_FREE))" -/
def NeedsSpill (hdr : Message) : Prop :=
  hdr.payloadSize > 0 ∧ (hdr.payloadMode = .copy ∨ hdr.payloadMode = .free)

instance : DecidablePred NeedsSpill := fun _ => inferInstanceAs (Decidable (_ ∧ _))

/-- The first part of `ActiveMessageEndpoint::enqueue_message`. -/
def reserveSpill (c : Config) (alwaysAllowSpilling : Bool) (sp : SpillBytes) (hdr : Message) :
    Option (SpillBytes × Message) :=
  if NeedsSpill hdr then do
    let sp ← sp.allocSpillMemory c.maxSpillBytes alwaysAllowSpilling hdr.payloadSize hdr.msgid
    return (sp, { hdr with phase := .spilled, reserved := hdr.reserved + 1 })
  else some (sp, { hdr with phase := .spilled })

/-- A call of `release_spill_memory` for a message. -/
def release (sp : SpillBytes) (hdr : Message) : SpillBytes × Message :=
  (sp.releaseSpillMemory hdr.payloadSize hdr.msgid, { hdr with released := hdr.released + 1 })

section Payload

variable (mem : Memory)

/-- The template `alloc_srcptr`, where the pool has answered `srcptr` and `malloc` would answer `copyPtr`. -/
def allocSrcptr (sp : SpillBytes) (hdr : Message) (payloadSrc : PayloadSource) (srcptr : ℕ) (copyPtr : Addr) :
    Option (SpillBytes × Message) :=
  if srcptr ≠ 0 then do
    -- if we had reserved spill space, we can give it back now
    let r := if hdr.payloadMode = .copy ∨ hdr.payloadMode = .free then release sp hdr else (sp, hdr)
    let _ ← payloadSrc.copyData mem
    return (r.1, { r.2 with payloadMode := .srcptr, payload := srcptr, payloadSrc := none })
  else if hdr.payloadMode = .copy then
    -- if we've been instructed to copy the data, that has to happen now
    if copyPtr = 0 then none
    else do
      let _ ← payloadSrc.copyData mem
      return (sp, { hdr with
        payloadMode := .pending
        payloadSrc := some (.contiguous copyPtr hdr.payloadSize .free) })
  else some (sp, { hdr with payloadMode := .pending, payloadSrc := some payloadSrc })

/-- The pointer that can be used in place: that of a contiguous payload in registered memory. -/
def keepregPointer (hdr : Message) (payloadSrc : PayloadSource) : Option Addr :=
  if hdr.payloadMode = .keepreg then payloadSrc.getContigPointer else some 0

/-- `reserve_srcdata`, with the pool present. -/
def reserveSrcdata (sp : SpillBytes) (hdr : Message) (srcptr : ℕ) (copyPtr : Addr) :
    Option (SpillBytes × Message) :=
  let hdr := { hdr with phase := .queued }
  if hdr.payloadMode = .none ∨ hdr.payloadMode = .empty then some (sp, hdr)
  else do
    let payloadSrc ← hdr.payloadSrc
    let contig ← keepregPointer hdr payloadSrc
    if contig ≠ 0 then return (sp, { hdr with payload := contig.toNat })
    else allocSrcptr mem sp hdr payloadSrc srcptr copyPtr

/-- `assign_srcdata_pointer` up to `payload_mode = PAYLOAD_SRCPTR`: from here on the message can be sent. -/
def assignPayload (hdr : Message) (ptr : ℕ) : Option Message :=
  if hdr.payloadMode ≠ .pending then none
  else do
    let payloadSrc ← hdr.payloadSrc
    let _ ← payloadSrc.copyData mem
    return { hdr with
      payloadSrc := none
      payload := ptr
      payloadMode := .srcptr
      wasUsingSpill := payloadSrc.getPayloadMode = .free }

/-- The end of `assign_srcdata_pointer`, "if(was_using_spill)". -/
def finishAssign (sp : SpillBytes) (hdr : Message) : SpillBytes × Message :=
  if hdr.wasUsingSpill then release sp { hdr with wasUsingSpill := false } else (sp, hdr)

/-- `assign_srcdata_pointer` -/
def assignSrcdataPointer (sp : SpillBytes) (hdr : Message) (ptr : ℕ) : Option (SpillBytes × Message) :=
  (assignPayload mem hdr ptr).map (finishAssign sp)

end Payload

/-- `~OutgoingMessage` -/
def destroy (sp : SpillBytes) (hdr : Message) : Option (SpillBytes × Message) :=
  let r := if (hdr.payloadMode = .copy ∨ hdr.payloadMode = .free) ∧ hdr.payloadSize > 0 then release sp hdr
    else (sp, hdr)
  if hdr.payloadSrc ≠ none ∧ hdr.payloadMode ≠ .keepreg then none else some r

/-! ## The system -/

/-- A call of one of the overloads, whose payload mode is one that callers may use. -/
inductive Call
  | contiguous (msgid : ℕ) (args : List ℤ) (payload : Addr) (payloadSize : ℕ) (payloadMode : PayloadMode) (dstptr : ℕ)
  | twoD (msgid : ℕ) (args : List ℤ) (payload : Addr) (lineSize : ℕ) (lineStride : Addr) (lineCount : ℕ)
      (payloadMode : PayloadMode) (dstptr : ℕ)
  | span (msgid : ℕ) (args : List ℤ) (spans : SpanList) (payloadSize : ℕ) (payloadMode : PayloadMode) (dstptr : ℕ)

namespace Call

def payloadMode : Call → PayloadMode
  | contiguous _ _ _ _ mode _ => mode
  | twoD _ _ _ _ _ _ mode _ => mode
  | span _ _ _ _ mode _ => mode

def message (c : Config) : Call → Option Message
  | contiguous msgid args payload payloadSize mode dstptr =>
    enqueueContiguous c msgid args payload payloadSize mode dstptr
  | twoD msgid args payload lineSize lineStride lineCount mode dstptr =>
    enqueueTwoD c msgid args payload lineSize lineStride lineCount mode dstptr
  | span msgid args spans payloadSize mode dstptr => enqueueSpans c msgid args spans payloadSize mode dstptr

end Call

/-- The counters, the messages that are alive, and those that have been destroyed. -/
structure State where
  spill : SpillBytes
  live : List Message
  destroyed : List Message

def State.init : State := ⟨.init, [], []⟩

/-- The messages are named by their position among those alive. -/
inductive Event
  | enqueue (call : Call)
  | reserveSpill (i : ℕ) (alwaysAllowSpilling : Bool)
  | reserveSrcdata (i srcptr : ℕ) (copyPtr : Addr)
  | assignPayload (i ptr : ℕ)
  | finishAssign (i : ℕ)
  | destroy (i : ℕ)

/-- The call `f` on the message at `i`. -/
def State.onMessage (s : State) (i : ℕ) (f : SpillBytes → Message → Option (SpillBytes × Message)) :
    Option State := do
  let hdr ← s.live[i]?
  let (spill, hdr) ← f s.spill hdr
  return { s with spill := spill, live := s.live.set i hdr }

/-- A message is sent, and then destroyed, when it is queued and not waiting for the pool. -/
def Sendable (hdr : Message) : Prop := hdr.phase = .queued ∧ (hdr.payloadSize = 0 ∨ hdr.payloadMode ≠ .pending)

instance : DecidablePred Sendable := fun _ => inferInstanceAs (Decidable (_ ∧ _))

def step (c : Config) (mem : Memory) (s : State) : Event → Option State
  | .enqueue call =>
    if call.payloadMode ∈ [.none, .keep, .free, .copy] then do
      let hdr ← call.message c
      return { s with live := s.live ++ [hdr] }
    else none
  | .reserveSpill i alwaysAllowSpilling => s.onMessage i fun sp hdr =>
    if hdr.phase = .new then reserveSpill c alwaysAllowSpilling sp hdr else none
  | .reserveSrcdata i srcptr copyPtr => s.onMessage i fun sp hdr =>
    if hdr.phase = .spilled then reserveSrcdata mem sp hdr srcptr copyPtr else none
  | .assignPayload i ptr => s.onMessage i fun sp hdr =>
    if hdr.phase = .queued then (assignPayload mem hdr ptr).map fun hdr => (sp, hdr) else none
  | .finishAssign i => s.onMessage i fun sp hdr =>
    -- a thread that comes here when the message has been destroyed reads a deleted object
    if hdr.wasUsingSpill then some (finishAssign sp hdr) else none
  | .destroy i => do
    let hdr ← s.live[i]?
    if Sendable hdr then
      let (spill, hdr) ← destroy s.spill hdr
      return ⟨spill, s.live.eraseIdx i, s.destroyed ++ [hdr]⟩
    else none

/-! ## Accounting -/

/-- The bytes that a message still has reserved. -/
def heldBytes (hdr : Message) : ℕ := if hdr.released < hdr.reserved then hdr.payloadSize else 0

/-- The accounting is right: no reservation is given back twice, a destroyed message has given back what it
reserved, and the counters are the bytes that the messages alive still hold. -/
structure Balanced (s : State) : Prop where
  once : ∀ hdr ∈ s.live, hdr.released ≤ hdr.reserved ∧ hdr.reserved ≤ 1
  given_back : ∀ hdr ∈ s.destroyed, hdr.released = hdr.reserved ∧ hdr.reserved ≤ 1
  total : s.spill.currentSpillBytes = (s.live.map heldBytes).sum
  permsg : ∀ id, s.spill.currentPermsgSpillBytes id =
    ((s.live.filter fun hdr => hdr.msgid = id).map heldBytes).sum
  nonneg : 0 ≤ s.spill.currentSpillBytes ∧ ∀ id, 0 ≤ s.spill.currentPermsgSpillBytes id
  idle : s.live = [] → s.spill.currentSpillBytes = 0 ∧ ∀ id, s.spill.currentPermsgSpillBytes id = 0

/-- What the overloads promise about a header: a payload has bytes and a source, and a contiguous source knows the
mode of the message. -/
def Fresh (hdr : Message) : Prop :=
  (hdr.payloadMode = .none ∨ hdr.payloadMode = .empty) ∨
    hdr.payloadMode ∈ [.keep, .keepreg, .free, .copy] ∧ hdr.payloadSize > 0 ∧
      ∃ src, hdr.payloadSrc = some src ∧
        (src.getPayloadMode = hdr.payloadMode ∨ src.getContigPointer = none ∧ src.getPayloadMode = .keep)

/-- The reservation of a message, by where it has got to.  One that waits for the pool holds it exactly if
`assign_srcdata_pointer` is going to give it back; one that has its span holds it until this has happened. -/
def Ok (hdr : Message) : Prop :=
  match hdr.phase with
  | .new => Fresh hdr ∧ hdr.wasUsingSpill = false ∧ hdr.reserved = 0 ∧ hdr.released = 0
  | .spilled => Fresh hdr ∧ hdr.wasUsingSpill = false ∧ hdr.reserved = (if NeedsSpill hdr then 1 else 0) ∧
    hdr.released = 0
  | .queued =>
    (hdr.payloadMode = .pending ∧ hdr.wasUsingSpill = false ∧ hdr.payloadSize > 0 ∧ ∃ src, hdr.payloadSrc = some src ∧
      hdr.reserved = (if src.getPayloadMode = .free then 1 else 0) ∧ hdr.released = 0) ∨
    hdr.payloadMode ∉ [.pending, .copy, .free] ∧ hdr.reserved ≤ 1 ∧
      hdr.reserved = hdr.released + if hdr.wasUsingSpill then 1 else 0

/-- What a call does to the counters: they move with the bytes that the message holds. -/
structure Moves (sp : SpillBytes) (hdr : Message) (sp' : SpillBytes) (hdr' : Message) : Prop where
  msgid : hdr'.msgid = hdr.msgid
  total : sp'.currentSpillBytes + heldBytes hdr = sp.currentSpillBytes + heldBytes hdr'
  permsg : ∀ id, sp'.currentPermsgSpillBytes id + (if hdr.msgid = id then heldBytes hdr else 0) =
    sp.currentPermsgSpillBytes id + if hdr.msgid = id then heldBytes hdr' else 0

section Calls

variable {c : Config} {mem : Memory} {sp sp' : SpillBytes} {hdr hdr' : Message}

theorem Ok.once (h : Ok hdr) : hdr.released ≤ hdr.reserved ∧ hdr.reserved ≤ 1 := by
  unfold Ok at h
  cases hph : hdr.phase <;> rw [hph] at h <;> simp only at h
  case new => omega
  case spilled =>
    obtain ⟨-, -, hres, hrel⟩ := h
    split at hres <;> omega
  case queued =>
    rcases h with ⟨-, -, -, src, -, hres, hrel⟩ | ⟨-, hres, heq⟩
    · split at hres <;> omega
    · omega

/-- Nothing is reserved or released. -/
theorem Moves.same (hid : hdr'.msgid = hdr.msgid) (hheld : heldBytes hdr' = heldBytes hdr) :
    Moves sp hdr sp hdr' := by
  refine ⟨hid, by rw [hheld], fun id => by rw [hheld]⟩

/-- The counters take over the difference in the bytes held. -/
theorem Moves.of_diff {d : ℤ} (hid : hdr'.msgid = hdr.msgid) (hd : (heldBytes hdr' : ℤ) = heldBytes hdr + d) :
    Moves sp hdr ⟨sp.currentSpillBytes + d, Function.update sp.currentPermsgSpillBytes hdr.msgid
      (sp.currentPermsgSpillBytes hdr.msgid + d)⟩ hdr' := by
  refine ⟨hid, by simp only; omega, fun id => ?_⟩
  by_cases h : hdr.msgid = id
  · subst h
    simp only [Function.update_self, if_true]
    omega
  · simp only [Function.update_of_ne (Ne.symm h), if_neg h]

theorem Moves.release (hid : hdr'.msgid = hdr.msgid) (hheld : heldBytes hdr = hdr.payloadSize)
    (hheld' : heldBytes hdr' = 0) : Moves sp hdr (sp.releaseSpillMemory hdr.payloadSize hdr.msgid) hdr' := by
  have h : Moves sp hdr _ hdr' := Moves.of_diff (d := -hdr.payloadSize) hid (by omega)
  simpa only [SpillBytes.releaseSpillMemory, sub_eq_add_neg] using h

theorem heldBytes_of_eq (h : hdr.released = hdr.reserved) : heldBytes hdr = 0 := by
  rw [heldBytes, if_neg (by omega)]

theorem heldBytes_of_lt (h : hdr.released < hdr.reserved) : heldBytes hdr = hdr.payloadSize := if_pos h

theorem Message.setPayload_eq_some {src : PayloadSource} {n dstptr : ℕ} {mode : PayloadMode}
    (h : hdr.setPayload c src n mode dstptr = some hdr') :
    mode ≠ .none ∧ 0 < n ∧ hdr' = { hdr with
      dstptr := dstptr
      payload := 0
      payloadSize := n
      payloadMode := mode
      payloadSrc := some src } := by
  unfold Message.setPayload at h
  split at h
  · cases h
  · rename_i haccept
    split at h
    · cases h
    · refine ⟨fun hnone => haccept (.inr (.inl hnone)), ?_, (Option.some.inj h).symm⟩
      exact Nat.pos_of_ne_zero fun hzero => haccept (.inr (.inr hzero))

theorem Message.attach_eq_some {src : PayloadSource} {n dstptr : ℕ} {mode : PayloadMode}
    (h : hdr.attach c src n mode dstptr = some hdr') :
    mode = .none ∧ hdr' = hdr ∨ n = 0 ∧ hdr' = hdr.setPayloadEmpty ∨
      hdr.setPayload c src n mode dstptr = some hdr' := by
  unfold Message.attach at h
  split at h
  · split at h
    · exact .inr (.inr h)
    · rename_i hzero
      exact .inr (.inl ⟨Nat.eq_zero_of_not_pos hzero, (Option.some.inj h).symm⟩)
  · rename_i hnone
    exact .inl ⟨not_not.mp hnone, (Option.some.inj h).symm⟩

theorem attach_fresh {msgid dstptr payloadSize : ℕ} {args : List ℤ} {src : PayloadSource} {mode : PayloadMode}
    (h : (Message.new msgid args).attach c src payloadSize mode dstptr = some hdr)
    (hmode : mode ∈ [.none, .keep, .keepreg, .free, .copy])
    (hsrc : src.getPayloadMode = mode ∨ src.getContigPointer = none ∧ src.getPayloadMode = .keep) :
    Ok hdr ∧ heldBytes hdr = 0 := by
  obtain ⟨-, rfl⟩ | ⟨-, rfl⟩ | hset := Message.attach_eq_some h
  · exact ⟨⟨.inl (.inl rfl), rfl, rfl, rfl⟩, rfl⟩
  · exact ⟨⟨.inl (.inr rfl), rfl, rfl, rfl⟩, rfl⟩
  · obtain ⟨hne, hpos, rfl⟩ := Message.setPayload_eq_some hset
    refine ⟨⟨.inr ⟨?_, hpos, src, rfl, hsrc⟩, rfl, rfl, rfl⟩, rfl⟩
    simp only [List.mem_cons] at hmode ⊢
    exact hmode.resolve_left hne

/-- The overloads make headers without a reservation. -/
theorem message_ok {call : Call} (hmode : call.payloadMode ∈ [.none, .keep, .free, .copy])
    (h : call.message c = some hdr) : Ok hdr ∧ heldBytes hdr = 0 := by
  have hmem : call.payloadMode ∈ [.none, .keep, .keepreg, .free, .copy] := by
    simp only [List.mem_cons, List.not_mem_nil] at hmode ⊢
    tauto
  cases call with
  | contiguous msgid args payload payloadSize mode dstptr =>
    refine attach_fresh h ?_ (.inl rfl)
    split
    · simp
    · exact hmem
  | twoD msgid args payload lineSize lineStride lineCount mode dstptr => exact attach_fresh h hmem (.inr ⟨rfl, rfl⟩)
  | span msgid args spans payloadSize mode dstptr => exact attach_fresh h hmem (.inr ⟨rfl, rfl⟩)

/-- **`alloc_spill_memory`** reserves the payload of a message that may have to wait. -/
theorem reserveSpill_spec {always : Bool} (hok : Ok hdr) (hph : hdr.phase = .new)
    (h : reserveSpill c always sp hdr = some (sp', hdr')) : Ok hdr' ∧ Moves sp hdr sp' hdr' := by
  unfold Ok at hok
  rw [hph] at hok
  obtain ⟨hfresh, hwas, hres, hrel⟩ := hok
  unfold reserveSpill at h
  split at h
  · rename_i hneeds
    simp only [SpillBytes.allocSpillMemory, Option.bind_eq_bind] at h
    split at h
    · simp only [Option.bind_some, Option.pure_def, Option.some.injEq, Prod.mk.injEq] at h
      obtain ⟨rfl, rfl⟩ := h
      have hheld := heldBytes_of_eq (hrel.trans hres.symm)
      refine ⟨⟨hfresh, hwas, ?_, hrel⟩, Moves.of_diff rfl ?_⟩
      · rw [if_pos (show NeedsSpill { hdr with phase := .spilled, reserved := hdr.reserved + 1 } from hneeds)]
        simp [hres]
      · rw [hheld, heldBytes, if_pos (by simp only; omega)]
        simp
    · simp at h
  · rename_i hneeds
    simp only [Option.some.injEq, Prod.mk.injEq] at h
    obtain ⟨rfl, rfl⟩ := h
    refine ⟨⟨hfresh, hwas, ?_, hrel⟩, Moves.same rfl rfl⟩
    rw [if_neg (show ¬ NeedsSpill { hdr with phase := .spilled } from hneeds)]
    exact hres

/-- When a message has to wait for the pool, and its payload was to be freed, the source tells so. -/
def Told (hdr : Message) (srcptr : ℕ) : Prop :=
  srcptr = 0 → hdr.payloadMode = .free → ∀ src, hdr.payloadSrc = some src → src.getContigPointer ≠ none

/-- The pool has a span: the reservation goes back at once. -/
theorem allocSrcptr_immediate {src : PayloadSource} {srcptr : ℕ} {copyPtr : Addr}
    (h : allocSrcptr mem sp hdr src srcptr copyPtr = some (sp', hdr')) (hptr : srcptr ≠ 0)
    (hsize : hdr.payloadSize > 0) (hph : hdr.phase = .queued) (hwas : hdr.wasUsingSpill = false)
    (hres : hdr.reserved = if NeedsSpill hdr then 1 else 0) (hrel : hdr.released = 0) :
    Ok hdr' ∧ Moves sp hdr sp' hdr' := by
  rw [allocSrcptr, if_pos hptr] at h
  obtain ⟨bs, -, h⟩ := Option.bind_eq_some_iff.mp h
  simp only [Option.pure_def, Option.some.injEq, Prod.mk.injEq] at h
  obtain ⟨rfl, rfl⟩ := h
  by_cases hspill : hdr.payloadMode = .copy ∨ hdr.payloadMode = .free
  · rw [if_pos ⟨hsize, hspill⟩] at hres
    simp only [if_pos hspill, release]
    refine ⟨?_, Moves.release rfl (heldBytes_of_lt (by omega)) (heldBytes_of_eq ?_)⟩
    · unfold Ok
      simp only [hph, hwas]
      exact .inr ⟨by simp, by omega, by simp only [Bool.false_eq_true, if_false]; omega⟩
    · simp only
      omega
  · rw [if_neg fun h => hspill h.2] at hres
    simp only [if_neg hspill]
    refine ⟨?_, Moves.same rfl rfl⟩
    unfold Ok
    simp only [hph, hwas]
    exact .inr ⟨by simp, by omega, by simp only [Bool.false_eq_true, if_false]; omega⟩

/-- The pool has no span: the message waits, and its source tells whether it holds a reservation. -/
theorem allocSrcptr_pending {src : PayloadSource} {copyPtr : Addr}
    (h : allocSrcptr mem sp hdr src 0 copyPtr = some (sp', hdr')) (hsize : hdr.payloadSize > 0)
    (hsrc : src.getPayloadMode = hdr.payloadMode ∨ src.getContigPointer = none ∧ src.getPayloadMode = .keep)
    (hph : hdr.phase = .queued) (hwas : hdr.wasUsingSpill = false)
    (hres : hdr.reserved = if NeedsSpill hdr then 1 else 0) (hrel : hdr.released = 0)
    (htold : hdr.payloadMode = .free → src.getContigPointer ≠ none) : Ok hdr' ∧ Moves sp hdr sp' hdr' := by
  rw [allocSrcptr, if_neg (not_not_intro rfl)] at h
  by_cases hcopy : hdr.payloadMode = .copy
  · -- the copy that was made belongs to the message, and will be freed
    rw [if_pos hcopy] at h
    split at h
    · simp at h
    · obtain ⟨bs, -, h⟩ := Option.bind_eq_some_iff.mp h
      simp only [Option.pure_def, Option.some.injEq, Prod.mk.injEq] at h
      obtain ⟨rfl, rfl⟩ := h
      rw [if_pos ⟨hsize, .inl hcopy⟩] at hres
      refine ⟨?_, Moves.same rfl rfl⟩
      unfold Ok
      simp only [hph]
      exact .inl ⟨trivial, hwas, hsize, _, rfl, hres, hrel⟩
  · rw [if_neg hcopy] at h
    simp only [Option.some.injEq, Prod.mk.injEq] at h
    obtain ⟨rfl, rfl⟩ := h
    refine ⟨?_, Moves.same rfl rfl⟩
    unfold Ok
    simp only [hph]
    refine .inl ⟨trivial, hwas, hsize, src, rfl, ?_, hrel⟩
    by_cases hfree : hdr.payloadMode = .free
    · rw [if_pos ⟨hsize, .inr hfree⟩] at hres
      rcases hsrc with hsrc | ⟨hsrc, -⟩
      · rw [if_pos (hsrc.trans hfree), hres]
      · exact absurd hsrc (htold hfree)
    · rw [if_neg fun hneeds => hneeds.2.elim hcopy hfree] at hres
      rw [hres, if_neg]
      rcases hsrc with hsrc | ⟨-, hsrc⟩
      · rwa [hsrc]
      · simp [hsrc]

/-- **`reserve_srcdata`** gives the reservation back, or leaves it to `assign_srcdata_pointer`. -/
theorem reserveSrcdata_spec {srcptr : ℕ} {copyPtr : Addr} (hok : Ok hdr) (hph : hdr.phase = .spilled)
    (htold : Told hdr srcptr) (h : reserveSrcdata mem sp hdr srcptr copyPtr = some (sp', hdr')) :
    Ok hdr' ∧ Moves sp hdr sp' hdr' := by
  unfold Ok at hok
  rw [hph] at hok
  obtain ⟨hfresh, hwas, hres, hrel⟩ := hok
  unfold reserveSrcdata at h
  rcases hfresh with hnone | ⟨hmode, hsize, src, hsrc, hsrcmode⟩
  · simp only [if_pos hnone, Option.some.injEq, Prod.mk.injEq] at h
    obtain ⟨rfl, rfl⟩ := h
    have hneeds : ¬ NeedsSpill hdr := by
      rintro ⟨-, h | h⟩ <;> rw [h] at hnone <;> simp at hnone
    rw [if_neg hneeds] at hres
    refine ⟨.inr ⟨?_, by simp only; omega, by simp only [hwas, Bool.false_eq_true, if_false]; omega⟩,
      Moves.same rfl rfl⟩
    rcases hnone with h | h <;> simp [h]
  · have hsome : ¬(hdr.payloadMode = .none ∨ hdr.payloadMode = .empty) := by
      rintro (h | h) <;> rw [h] at hmode <;> simp at hmode
    simp only [if_neg hsome] at h
    obtain ⟨src', hsrc', h⟩ := Option.bind_eq_some_iff.mp h
    obtain rfl := Option.some.inj (hsrc.symm.trans hsrc')
    obtain ⟨contig, hcontig, h⟩ := Option.bind_eq_some_iff.mp h
    split at h
    · -- registered memory is used in place
      rename_i hne
      have hreg : hdr.payloadMode = .keepreg := by
        by_contra hreg
        rw [keepregPointer, if_neg hreg] at hcontig
        exact hne (Option.some.inj hcontig).symm
      simp only [Option.pure_def, Option.some.injEq, Prod.mk.injEq] at h
      obtain ⟨rfl, rfl⟩ := h
      rw [if_neg (by simp [NeedsSpill, hreg])] at hres
      refine ⟨.inr ⟨by simp [hreg], by simp only; omega, ?_⟩, Moves.same rfl rfl⟩
      simp only [hwas, Bool.false_eq_true, if_false]
      omega
    · obtain ⟨hok', hmoves⟩ : Ok hdr' ∧ Moves sp { hdr with phase := .queued } sp' hdr' := by
        rcases eq_or_ne srcptr 0 with rfl | hptr
        · exact allocSrcptr_pending h hsize hsrcmode rfl hwas hres hrel fun hf => htold rfl hf src hsrc
        · exact allocSrcptr_immediate h hptr hsize rfl hwas hres hrel
      exact ⟨hok', hmoves.msgid, hmoves.total, hmoves.permsg⟩

/-- A waiting message that gets its span still holds what it has reserved. -/
theorem assignPayload_spec {ptr : ℕ} (hok : Ok hdr) (hph : hdr.phase = .queued)
    (h : assignPayload mem hdr ptr = some hdr') : Ok hdr' ∧ Moves sp hdr sp hdr' := by
  unfold Ok at hok
  rw [hph] at hok
  unfold assignPayload at h
  split at h
  · simp at h
  · rename_i hpending
    rcases hok with ⟨-, -, -, src, hsrc, hres, hrel⟩ | ⟨hmode, -⟩
    · simp only [hsrc, Option.bind_eq_bind, Option.bind_some] at h
      obtain ⟨bs, -, h⟩ := Option.bind_eq_some_iff.mp h
      obtain rfl := Option.some.inj h
      refine ⟨?_, Moves.same rfl rfl⟩
      unfold Ok
      simp only [hph]
      refine .inr ⟨by simp, ?_, ?_⟩
      · split at hres <;> omega
      · simpa only [decide_eq_true_eq, hrel, Nat.zero_add] using hres
    · simp only [not_not.mp hpending] at hmode
      simp at hmode

/-- **`assign_srcdata_pointer`** gives back what the message holds. -/
theorem finishAssign_spec (hok : Ok hdr) (hwas : hdr.wasUsingSpill = true)
    (h : finishAssign sp hdr = (sp', hdr')) : Ok hdr' ∧ Moves sp hdr sp' hdr' := by
  rw [finishAssign, if_pos hwas] at h
  obtain ⟨rfl, rfl⟩ := Prod.mk.inj h
  unfold Ok at hok
  cases hph : hdr.phase with
  | new => simp [hph, hwas] at hok
  | spilled => simp [hph, hwas] at hok
  | queued =>
    simp only [hph, hwas, Bool.true_eq_false, false_and, and_false, false_or, if_true] at hok
    obtain ⟨hmode, hres, heq⟩ := hok
    refine ⟨?_, Moves.release rfl (heldBytes_of_lt (by omega)) (heldBytes_of_eq (by simp only; omega))⟩
    unfold Ok
    simp only
    exact .inr ⟨hmode, hres, by simp only [Bool.false_eq_true, if_false]; omega⟩

/-- A message that is sent when nobody is in `assign_srcdata_pointer` for it holds nothing any more. -/
theorem destroy_spec (hok : Ok hdr) (hsend : Sendable hdr) (hwas : hdr.wasUsingSpill = false)
    (h : destroy sp hdr = some (sp', hdr')) :
    sp' = sp ∧ hdr' = hdr ∧ hdr.released = hdr.reserved ∧ hdr.reserved ≤ 1 := by
  obtain ⟨hph, hready⟩ := hsend
  unfold Ok at hok
  rw [hph] at hok
  rcases hok with ⟨hpending, -, hsize, -⟩ | ⟨hmode, hres, heq⟩
  · rcases hready with h0 | hne
    · omega
    · exact absurd hpending hne
  · have hspill : ¬((hdr.payloadMode = .copy ∨ hdr.payloadMode = .free) ∧ hdr.payloadSize > 0) := by
      rintro ⟨h | h, -⟩ <;> rw [h] at hmode <;> simp at hmode
    rw [hwas] at heq
    unfold destroy at h
    simp only [if_neg hspill] at h
    split at h
    · simp at h
    · obtain ⟨rfl, rfl⟩ := Prod.mk.inj (Option.some.inj h)
      exact ⟨rfl, rfl, heq.symm, hres⟩

end Calls

/-! ## Runs -/

/-- The invariant. -/
structure Inv (s : State) : Prop where
  ok : ∀ hdr ∈ s.live, Ok hdr
  given_back : ∀ hdr ∈ s.destroyed, hdr.released = hdr.reserved ∧ hdr.reserved ≤ 1
  total : s.spill.currentSpillBytes = (s.live.map heldBytes).sum
  permsg : ∀ id, s.spill.currentPermsgSpillBytes id =
    ((s.live.filter fun hdr => hdr.msgid = id).map heldBytes).sum

/-- The condition: a message that has to wait for the pool and whose payload was to be freed is contiguous, and no
message is sent and destroyed while `assign_srcdata_pointer` has still to give its reservation back. -/
def Orderly (s : State) : Event → Prop
  | .reserveSrcdata i srcptr _ => ∀ hdr, s.live[i]? = some hdr → Told hdr srcptr
  | .destroy i => ∀ hdr, s.live[i]? = some hdr → hdr.wasUsingSpill = false
  | _ => True

section Runs

variable {c : Config} {mem : Memory} {s s' : State}

theorem Inv.balanced (h : Inv s) : Balanced s where
  once hdr hmem := (h.ok hdr hmem).once
  given_back := h.given_back
  total := h.total
  permsg := h.permsg
  nonneg := ⟨by rw [h.total]; omega, fun id => by rw [h.permsg id]; omega⟩
  idle hempty := ⟨by rw [h.total, hempty]; rfl, fun id => by rw [h.permsg id, hempty]; rfl⟩

theorem inv_init : Inv State.init := ⟨by simp [State.init], by simp [State.init], rfl, fun _ => rfl⟩

theorem sum_held_filter (id : ℕ) (A B : List Message) (hdr : Message) :
    (((A ++ hdr :: B).filter fun hdr => hdr.msgid = id).map heldBytes).sum =
      (((A ++ B).filter fun hdr => hdr.msgid = id).map heldBytes).sum +
        if hdr.msgid = id then heldBytes hdr else 0 := by
  by_cases h : hdr.msgid = id
  · simp [h]
    omega
  · simp [h]

theorem sum_held (A B : List Message) (hdr : Message) :
    ((A ++ hdr :: B).map heldBytes).sum = ((A ++ B).map heldBytes).sum + heldBytes hdr := by
  simp only [List.map_append, List.map_cons, List.sum_append, List.sum_cons]
  omega

/-- A call on one message keeps the invariant if it keeps the message right and moves the counters with it. -/
theorem Inv.onMessage {i : ℕ} {f : SpillBytes → Message → Option (SpillBytes × Message)} (h : Inv s)
    (hs : s.onMessage i f = some s')
    (hf : ∀ hdr sp' hdr', s.live[i]? = some hdr → Ok hdr → f s.spill hdr = some (sp', hdr') →
      Ok hdr' ∧ Moves s.spill hdr sp' hdr') : Inv s' := by
  obtain ⟨hdr, hi, hs⟩ := Option.bind_eq_some_iff.mp hs
  obtain ⟨⟨sp', hdr'⟩, hcall, hs⟩ := Option.bind_eq_some_iff.mp hs
  simp only [Option.pure_def, Option.some.injEq] at hs
  subst hs
  obtain ⟨hok', hmoves⟩ := hf hdr sp' hdr' hi (h.ok hdr (List.mem_of_getElem? hi)) hcall
  obtain ⟨A, B, hlive, -, hset⟩ := split_at hi
  have htotal := h.total
  have hpermsg := h.permsg
  rw [hlive, sum_held] at htotal
  refine ⟨?_, h.given_back, ?_, fun id => ?_⟩
  · intro m hm
    rcases List.mem_or_eq_of_mem_set hm with hm | rfl
    · exact h.ok m hm
    · exact hok'
  · have := hmoves.total
    simp only [hset, sum_held]
    omega
  · have hbefore := hpermsg id
    have hafter := hmoves.permsg id
    simp only [hset, sum_held_filter, hmoves.msgid]
    rw [hlive, sum_held_filter] at hbefore
    push_cast at hbefore hafter ⊢
    omega

theorem Inv.enqueue (h : Inv s) {call : Call} {hdr : Message}
    (hmode : call.payloadMode ∈ [.none, .keep, .free, .copy]) (hcall : call.message c = some hdr) :
    Inv { s with live := s.live ++ [hdr] } := by
  obtain ⟨hok, hheld⟩ := message_ok hmode hcall
  refine ⟨?_, h.given_back, ?_, fun id => ?_⟩
  · intro m hm
    rcases List.mem_append.mp hm with hm | hm
    · exact h.ok m hm
    · exact List.mem_singleton.mp hm ▸ hok
  · simp only [sum_held, hheld, List.append_nil]
    exact h.total
  · simp only [sum_held_filter, hheld, List.append_nil, ite_self]
    exact h.permsg id

/-- A message that leaves holds nothing, so the sums stay as they are. -/
theorem Inv.destroy (h : Inv s) {i : ℕ} {sp' : SpillBytes} {hdr hdr' : Message} (hi : s.live[i]? = some hdr)
    (hsend : Sendable hdr) (hwas : hdr.wasUsingSpill = false)
    (hcall : Spill.destroy s.spill hdr = some (sp', hdr')) :
    Inv ⟨sp', s.live.eraseIdx i, s.destroyed ++ [hdr']⟩ := by
  obtain ⟨rfl, rfl, hrel, hres⟩ := destroy_spec (h.ok hdr (List.mem_of_getElem? hi)) hsend hwas hcall
  obtain ⟨A, B, hlive, herase, -⟩ := split_at hi
  have hheld := heldBytes_of_eq hrel
  refine ⟨fun m hm => h.ok m (List.mem_of_mem_eraseIdx hm), ?_, ?_, fun id => ?_⟩
  · intro m hm
    rcases List.mem_append.mp hm with hm | hm
    · exact h.given_back m hm
    · exact List.mem_singleton.mp hm ▸ ⟨hrel, hres⟩
  · have htotal := h.total
    rw [hlive, sum_held, hheld, Nat.add_zero] at htotal
    simpa only [herase] using htotal
  · have hpermsg := h.permsg id
    rw [hlive, sum_held_filter, hheld, ite_self, Nat.add_zero] at hpermsg
    simpa only [herase] using hpermsg

theorem step_inv {a : Event} (h : Inv s) (ha : Orderly s a) (hs : step c mem s a = some s') : Inv s' := by
  cases a with
  | enqueue call =>
    simp only [step] at hs
    split at hs
    · rename_i hmode
      obtain ⟨hdr, hcall, hs⟩ := Option.bind_eq_some_iff.mp hs
      obtain rfl := Option.some.inj hs
      exact h.enqueue hmode hcall
    · simp at hs
  | reserveSpill i always =>
    simp only [step] at hs
    refine h.onMessage hs fun hdr sp' hdr' _ hok hcall => ?_
    split at hcall
    · rename_i hph
      exact reserveSpill_spec hok hph hcall
    · simp at hcall
  | reserveSrcdata i srcptr copyPtr =>
    simp only [step] at hs
    refine h.onMessage hs fun hdr sp' hdr' hi hok hcall => ?_
    split at hcall
    · rename_i hph
      exact reserveSrcdata_spec hok hph (ha hdr hi) hcall
    · simp at hcall
  | assignPayload i ptr =>
    simp only [step] at hs
    refine h.onMessage hs fun hdr sp' hdr' _ hok hcall => ?_
    split at hcall
    · rename_i hph
      obtain ⟨hdr'', hassign, heq⟩ := Option.map_eq_some_iff.mp hcall
      obtain ⟨rfl, rfl⟩ := Prod.mk.inj heq
      exact assignPayload_spec hok hph hassign
    · simp at hcall
  | finishAssign i =>
    simp only [step] at hs
    refine h.onMessage hs fun hdr sp' hdr' _ hok hcall => ?_
    split at hcall
    · rename_i hwas
      exact finishAssign_spec hok hwas (Option.some.inj hcall)
    · simp at hcall
  | destroy i =>
    obtain ⟨hdr, hi, hs⟩ := Option.bind_eq_some_iff.mp hs
    split at hs
    · rename_i hsend
      obtain ⟨⟨sp', hdr'⟩, hcall, hs⟩ := Option.bind_eq_some_iff.mp hs
      obtain rfl := Option.some.inj hs
      exact h.destroy hi hsend (ha hdr hi) hcall
    · simp at hs

end Runs

/-- **Spill accounting balances** in every state of a run in which every message that has to wait for the pool, and
whose payload was to be freed, is contiguous, and none is destroyed before `assign_srcdata_pointer` is done with it. -/
theorem spill_balanced (c : Config) (mem : Memory) (as : List Event)
    (h : Guarded (step c mem) Orderly State.init as) : Always (step c mem) Balanced State.init as := by
  intro pre t hpre ht
  exact (always_of_guarded (fun s a s' hI hC hs => step_inv hI hC hs) inv_init h pre t hpre ht).balanced

/-- No spill limit, and nothing is registered. -/
def plainConfig : Config := ⟨0, 4096, fun _ => false⟩

/-- A contiguous payload that is to be freed, and lines that are to be copied, wait for the pool. -/
def twoWaiting : List Event :=
  [.enqueue (.contiguous 7 [] 64 100 .free 0), .reserveSpill 0 false, .enqueue (.twoD 8 [] 64 10 20 5 .copy 0),
    .reserveSrcdata 0 0 0, .reserveSpill 1 false, .reserveSrcdata 1 0 128, .assignPayload 0 4096, .finishAssign 0,
    .destroy 0, .assignPayload 0 8192, .finishAssign 0, .destroy 0]

theorem spill_balanced_two_waiting :
    (∃ s, run (step plainConfig fun _ => 0) State.init twoWaiting = some s ∧ s.live = []) ∧
      Always (step plainConfig fun _ => 0) Balanced State.init twoWaiting := by
  refine ⟨⟨_, rfl, rfl⟩, spill_balanced _ _ _ ?_⟩
  refine guarded_cons rfl trivial (guarded_cons rfl trivial (guarded_cons rfl trivial
    (guarded_cons rfl ?_ (guarded_cons rfl trivial (guarded_cons rfl ?_ (guarded_cons rfl trivial
      (guarded_cons rfl trivial (guarded_cons rfl ?_ (guarded_cons rfl trivial (guarded_cons rfl trivial
        (guarded_cons rfl ?_ trivial)))))))))))
  · intro hdr hi _ _ src hsrc
    obtain rfl := Option.some.inj hi
    obtain rfl := Option.some.inj hsrc
    simp [PayloadSource.getContigPointer]
  · intro hdr hi _ hmode
    obtain rfl := Option.some.inj hi
    simp at hmode
  · intro hdr hi
    obtain rfl := Option.some.inj hi
    rfl
  · intro hdr hi
    obtain rfl := Option.some.inj hi
    rfl

/-- Lines that are to be freed wait for the pool, are given a span, and are sent. -/
def freedLines : List Event :=
  [.enqueue (.twoD 7 [] 64 2 2 2 .free 0), .reserveSpill 0 false, .reserveSrcdata 0 0 0,
    .assignPayload 0 4096, .destroy 0]

/-- **The reservation of freed lines** is never given back: four bytes stay reserved when no message is left. -/
theorem not_balanced_freed_lines :
    (∃ s, run (step plainConfig fun _ => 0) State.init freedLines = some s ∧
      s.live = [] ∧ s.spill.currentSpillBytes = 4) ∧
    ¬ Always (step plainConfig fun _ => 0) Balanced State.init freedLines := by
  obtain ⟨s, hrun, hlive, hspill⟩ : ∃ s, run (step plainConfig fun _ => 0) State.init freedLines = some s ∧
      s.live = [] ∧ s.spill.currentSpillBytes = 4 := ⟨_, rfl, rfl, rfl⟩
  refine ⟨⟨s, hrun, hlive, hspill⟩, fun h => ?_⟩
  have hidle := (h _ s List.prefix_rfl hrun).idle hlive
  omega

/-- A contiguous payload is sent when it has its span, before the reservation is given back. -/
def sentEarly : List Event :=
  [.enqueue (.contiguous 7 [] 64 100 .free 0), .reserveSpill 0 false, .reserveSrcdata 0 0 0, .assignPayload 0 4096,
    .destroy 0]

example : (run (step plainConfig fun _ => 0) State.init sentEarly).map
    (fun s => (s.live, s.spill.currentSpillBytes)) = some ([], 100) := by decide

end Realm.Spill

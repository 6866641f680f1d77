import Realm.SrcDataPool.Runs
import Realm.SrcDataPool.Spill

/-!
# Realm.SrcDataPool.Copy — what becomes of a payload (`reserve_srcdata`, `assign_srcdata_pointer`, `push_messages`)

The bytes of a payload are copied into a span of the source data pool, at once or, when the pool has none, later by
the thread whose `release_srcptr` finds one.  In the second case a payload that is to be copied goes to a block from
`malloc` first.  Here the headers of `Spill` and the pool of `Runs` work on one memory.

* `copyTo`: `copy_data`, with the memory that it writes and the pointer that it frees.
* `step`: the calls of `enqueue_message` by any number of threads, the sends, the releases, and other threads that
  write to the memory.
* `Environment`: what `malloc` and the callers promise; `Sound`: the calls on which the code keeps its own promises.
* `Correct`: the bytes that are sent, and what has been freed.
* `Carries`, `Placed`, `Ok`: where the bytes of a message are; `Ok.keep`: a step that writes elsewhere keeps it.
* `Carries.place`: what a copy does.
-/

namespace Realm.Copy

open Lib Spill

/-! ## The system -/

/-- `copy_data(dest)`: the memory afterwards, and what it frees, with the bytes that were copied from there. -/
def copyTo (mem : Memory) (src : PayloadSource) (dest : Addr) : Option (Memory × List (Addr × List Byte)) := do
  let bytes ← src.copyData mem
  let freed := if src.getPayloadMode = .free then src.getContigPointer.toList else []
  return (storeCells mem dest bytes, freed.map fun p => (p, bytes))

/-- The `payload_mode` with which a message was sent, and the bytes at its `payload`. -/
structure Sent where
  id : ℕ
  mode : PayloadMode
  bytes : List Byte

/-- The messages have numbers; the pool knows them by number and `payload_size`.  `queue` is the `out_long_hdrs` of
every target, `sending` has the messages that were popped from there, `inFlight` those sent whose span the receiver
has not released, and `assigning` the `satisfied` messages of the calls of `release_srcptr`.  `malloced` is the block
that holds the payload of a waiting message.  The rest is history: the calls, the bytes of the payload at the call,
what `copy_data` and the destructor freed for a message, and what was sent. -/
structure State where
  mem : Memory
  pool : SrcDataPool.Trace (ℕ × ℕ)
  spill : SpillBytes
  next : ℕ
  msgs : ℕ → Option Message
  queue : ℕ → List ℕ
  sending : List ℕ
  inFlight : List (ℕ × ℕ)
  assigning : List ((ℕ × ℕ) × ℕ)
  malloced : ℕ → Option (Addr × ℕ)
  call : ℕ → Option (ℕ × Call)
  atCall : ℕ → List Byte
  freed : ℕ → List (Addr × List Byte)
  sent : List Sent

def State.init (mem : Memory) (base size : ℕ) : State where
  mem := mem
  pool := .init base size
  spill := .init
  next := 0
  msgs _ := none
  queue _ := []
  sending := []
  inFlight := []
  assigning := []
  malloced _ := none
  call _ := none
  atCall _ := []
  freed _ := []
  sent := []

inductive Event
  | enqueue (target : ℕ) (call : Call)
  | reserveSpill (id : ℕ) (alwaysAllowSpilling : Bool)
  | reserve (id : ℕ) (copyPtr : Addr)
  | push (target : ℕ) (lmbs : Endpoint)
  | send (id : ℕ)
  | release (i : ℕ)
  | assign (i : ℕ)
  | write (a : Addr) (b : Byte)

/-- The payload source that the `enqueue_message` overloads make. -/
def source (c : Config) : Call → PayloadSource
  | .contiguous _ _ payload payloadSize mode _ =>
    .contiguous payload payloadSize (if mode = .keep ∧ c.isRegistered payload then .keepreg else mode)
  | .twoD _ _ payload lineSize lineStride lineCount mode _ => .twoD payload lineSize lineCount lineStride mode
  | .span _ _ spans payloadSize mode _ => .span spans payloadSize mode

namespace State

/-- `enqueue_message`, up to the endpoint. -/
def enqueue (c : Config) (st : State) (target : ℕ) (call : Call) : Option State :=
  if call.payloadMode ∈ [.none, .keep, .free, .copy] then do
    let hdr ← call.message c
    return { st with
      next := st.next + 1
      msgs := Function.update st.msgs st.next (some hdr)
      call := Function.update st.call st.next (some (target, call))
      atCall := Function.update st.atCall st.next (((source c call).copyData st.mem).getD []) }
  else none

/-- The message after a call, and the end of `ActiveMessageEndpoint::enqueue_message`: the overloads enqueue with
`in_order`, so that it goes to `out_long_hdrs`. -/
def queued (st : State) (target id : ℕ) (spill : SpillBytes) (hdr : Message) : State :=
  { st with
    spill := spill
    msgs := Function.update st.msgs id (some hdr)
    queue := Function.update st.queue target (st.queue target ++ [id]) }

/-- The source of a payload that `reserve_srcdata` takes to the pool. -/
def pooled (hdr : Message) : Option PayloadSource :=
  if hdr.payloadMode = .none ∨ hdr.payloadMode = .empty then none
  else do
    let src ← hdr.payloadSrc
    if keepregPointer hdr src = some 0 then some src else none

/-- `reserve_srcdata` when the pool has answered `srcptr` and is `pool` now. -/
def copied (st : State) (target id : ℕ) (hdr : Message) (src : PayloadSource) (srcptr : ℕ)
    (pool : SrcDataPool.Trace (ℕ × ℕ)) (copyPtr : Addr) : Option State := do
  let (spill, hdr') ← reserveSrcdata st.mem st.spill hdr srcptr copyPtr
  if srcptr ≠ 0 then do
    let (mem, freed) ← copyTo st.mem src (BitVec.ofNat 64 srcptr)
    return { st with
      mem := mem
      pool := pool
      freed := Function.update st.freed id (st.freed id ++ freed) : State }.queued target id spill hdr'
  else if hdr.payloadMode = .copy then do
    let (mem, freed) ← copyTo st.mem src copyPtr
    return { st with
      mem := mem
      pool := pool
      malloced := Function.update st.malloced id (some (copyPtr, hdr.payloadSize))
      freed := Function.update st.freed id (st.freed id ++ freed) : State }.queued target id spill hdr'
  else return { st with pool := pool : State }.queued target id spill hdr'

/-- The section of `ActiveMessageEndpoint::enqueue_message` under the endpoint's lock. -/
def reserve (st : State) (id : ℕ) (copyPtr : Addr) : Option State := do
  let hdr ← st.msgs id
  let (target, _) ← st.call id
  if hdr.phase = .spilled then
    match pooled hdr with
    | none => do
      let (spill, hdr') ← reserveSrcdata st.mem st.spill hdr 0 copyPtr
      return st.queued target id spill hdr'
    | some src => do
      let (srcptr, _) ← st.pool.pool.reserveSrcdata Prod.snd (id, hdr.payloadSize)
      let pool ← st.pool.step Prod.snd (.reserve (id, hdr.payloadSize))
      st.copied target id hdr src srcptr pool copyPtr
  else none

/-- One iteration of `push_messages` that pops a message.  The state of the LMBs is that of `lmbs`; flow control is
alone in `out_short_hdrs`, and only the front of the other queue matters. -/
def push (ec : EndpointConfig) (st : State) (target : ℕ) (lmbs : Endpoint) : Option State :=
  match st.queue target with
  | [] => none
  | id :: rest => do
    let hdr ← st.msgs id
    match Endpoint.pushIter ec { lmbs with outShortHdrs := [], outLongHdrs := [hdr.toOutgoingMessage] } with
    | .sendShort .. | .sendLong .. =>
      some { st with queue := Function.update st.queue target rest, sending := id :: st.sending }
    | _ => none

/-- `send_short` or `send_long`, and `delete hdr` -/
def send (st : State) (id : ℕ) : Option State :=
  if id ∈ st.sending then do
    let hdr ← st.msgs id
    let (spill, _) ← destroy st.spill hdr
    let payload := BitVec.ofNat 64 hdr.payload
    let bytes := cellsAt st.mem payload hdr.payloadSize
    let freed := if (hdr.payloadMode = .copy ∨ hdr.payloadMode = .free) ∧ hdr.payloadSize > 0 then [(payload, bytes)]
      else []
    return { st with
      spill := spill
      msgs := Function.update st.msgs id none
      sending := st.sending.erase id
      inFlight := if hdr.payloadMode = .srcptr then st.inFlight ++ [(id, hdr.payload)] else st.inFlight
      freed := Function.update st.freed id (st.freed id ++ freed)
      sent := st.sent ++ [⟨id, hdr.payloadMode, bytes⟩] }
  else none

/-- `release_srcptr` under the pool's lock, for the receiver of the `i`th message in flight. -/
def release (st : State) (i : ℕ) : Option State := do
  let (_, srcptr) ← st.inFlight[i]?
  let (_, satisfied) ← st.pool.pool.releaseSrcptr Prod.snd srcptr
  let pool ← st.pool.step Prod.snd (.release srcptr)
  return { st with
    pool := pool
    inFlight := st.inFlight.eraseIdx i
    assigning := st.assigning ++ satisfied }

/-- `assign_srcdata_pointer` for one of the `satisfied` messages, which has no block of its own afterwards. -/
def assign (st : State) (i : ℕ) : Option State := do
  let ((id, _), ptr) ← st.assigning[i]?
  let hdr ← st.msgs id
  let src ← hdr.payloadSrc
  let (spill, hdr') ← assignSrcdataPointer st.mem st.spill hdr ptr
  let (mem, freed) ← copyTo st.mem src (BitVec.ofNat 64 ptr)
  return { st with
    mem := mem
    spill := spill
    msgs := Function.update st.msgs id (some hdr')
    assigning := st.assigning.eraseIdx i
    malloced := Function.update st.malloced id none
    freed := Function.update st.freed id (st.freed id ++ freed) }

end State

def step (c : Config) (ec : EndpointConfig) (st : State) : Event → Option State
  | .enqueue target call => st.enqueue c target call
  | .reserveSpill id alwaysAllowSpilling => do
    let hdr ← st.msgs id
    if hdr.phase = .new then do
      let (spill, hdr') ← reserveSpill c alwaysAllowSpilling st.spill hdr
      return { st with spill := spill, msgs := Function.update st.msgs id (some hdr') }
    else none
  | .reserve id copyPtr => st.reserve id copyPtr
  | .push target lmbs => st.push ec target lmbs
  | .send id => st.send id
  | .release i => st.release i
  | .assign i => st.assign i
  | .write a b => some { st with mem := Function.update st.mem a b }

/-! ## What is promised -/

def InPool (base size : ℕ) (a : Addr) : Prop := base ≤ a.toNat ∧ a.toNat < base + size

/-- The memory of the library: the pool, and the blocks of waiting messages. -/
def State.Private (base size : ℕ) (st : State) (a : Addr) : Prop :=
  InPool base size a ∨ ∃ id p n, st.malloced id = some (p, n) ∧ InCells p n a

/-- A call that is to copy its payload has not done so yet, and `a` is part of it. -/
def State.Copying (st : State) (a : Addr) : Prop :=
  ∃ id hdr src, st.msgs id = some hdr ∧ hdr.phase ≠ .queued ∧ hdr.payloadMode = .copy ∧ hdr.payloadSrc = some src ∧
    src.Reads a

/-- Callers do not hand out memory of the library, and leave a payload alone during the call; `malloc` returns a block
of memory that nobody has.  After the call other threads may write to the payload. -/
def Environment (c : Config) (base size : ℕ) (st : State) : Event → Prop
  | .enqueue _ call => ∀ a, (source c call).Reads a → ¬st.Private base size a
  | .reserve id copyPtr => ∀ hdr, st.msgs id = some hdr → hdr.payloadMode = .copy →
    copyPtr.toNat + hdr.payloadSize ≤ 2 ^ 64 ∧
      ∀ a, InCells copyPtr hdr.payloadSize a → ¬st.Private base size a ∧ ¬st.Copying a
  | .write a _ => ¬st.Private base size a ∧ ¬st.Copying a
  | _ => True

/-- A payload to be freed is not empty, and the size of the lines fits into a `size_t`.  If it does not, the payload
has to be absent, or what is left of the size zero and the payload not to be copied. -/
def Sound : Event → Prop
  | .enqueue _ (.contiguous _ _ _ payloadSize mode _) => mode = .free → 0 < payloadSize
  | .enqueue _ (.twoD _ _ _ lineSize _ lineCount mode _) =>
    mode = .none ∨ lineSize * lineCount < 2 ^ 64 ∨ mode ≠ .copy ∧ lineSize * lineCount % 2 ^ 64 = 0
  | _ => True

/-- `p` is the payload of a contiguous call that gives it to the library. -/
def Frees (p : Addr) : Call → Prop
  | .contiguous _ _ payload _ mode _ => payload = p ∧ mode = .free
  | _ => False

/-- The bytes sent are those at the call if the payload was to be copied.  If it was given away it has been freed
once, after the bytes that are sent had been copied from it, and never twice.  No message is sent while it waits. -/
structure Correct (st : State) : Prop where
  copy : ∀ s ∈ st.sent, ∀ target call, st.call s.id = some (target, call) → call.payloadMode = .copy →
    s.bytes = st.atCall s.id
  pending : ∀ s ∈ st.sent, s.mode ≠ .pending
  free : ∀ id target call p, st.call id = some (target, call) → Frees p call →
    (st.freed id = [] ∨ ∃ bytes, st.freed id = [(p, bytes)]) ∧ ∀ s ∈ st.sent, s.id = id → st.freed id = [(p, s.bytes)]

/-! ## Where the bytes are -/

/-- The payload of a message is in `src`: as it was at the call if it is to be copied, in the buffer of the caller if
that is to be freed. -/
structure Carries (st : State) (id : ℕ) (call : Call) (hdr : Message) (src : PayloadSource) : Prop where
  pos : 0 < hdr.payloadSize
  payloadSrc : hdr.payloadSrc = some src
  length : src.length = hdr.payloadSize
  copy : call.payloadMode = .copy → ∀ bytes, src.copyData st.mem = some bytes → bytes = st.atCall id
  free : ∀ p, Frees p call → src = .contiguous p hdr.payloadSize .free
  freed : st.freed id = []

/-- The bytes that are sent are right. -/
structure Placed (st : State) (id : ℕ) (call : Call) (bytes : List Byte) : Prop where
  copy : call.payloadMode = .copy → bytes = st.atCall id
  free : ∀ p, Frees p call → st.freed id = [(p, bytes)]

/-- How far a message has got.  A payload that is to be copied is memory of the caller during the call, then a block of
its own, then a span of the pool. -/
inductive Ok (base size : ℕ) (st : State) (id : ℕ) (call : Call) (hdr : Message) : Prop
  | empty (hsize : hdr.payloadSize = 0) (hmode : hdr.payloadMode = .none ∨ hdr.payloadMode = .empty)
      (hfreed : st.freed id = []) (hplaced : Placed st id call [])
  | entering {src : PayloadSource} (hphase : hdr.phase ≠ .queued)
      (hmode : hdr.payloadMode ∈ [.keep, .keepreg, .free, .copy])
      (hcopy : call.payloadMode = .copy ↔ hdr.payloadMode = .copy)
      (hcarries : Carries st id call hdr src) (hfree : src.getPayloadMode = .free → hdr.payloadMode = .free)
      (hkeepreg : hdr.payloadMode = .keepreg → call.payloadMode = .keep)
      (hpriv : hdr.payloadMode = .copy → ∀ a, src.Reads a → ¬st.Private base size a)
      (hmalloced : st.malloced id = none)
  | registered (hphase : hdr.phase = .queued) (hmode : hdr.payloadMode = .keepreg) (hcall : call.payloadMode = .keep)
      (hfreed : st.freed id = [])
  | waiting {src : PayloadSource} (hphase : hdr.phase = .queued) (hmode : hdr.payloadMode = .pending)
      (hcarries : Carries st id call hdr src)
      (hblock : call.payloadMode = .copy → ∃ p, src = .contiguous p hdr.payloadSize .free ∧
        st.malloced id = some (p, hdr.payloadSize))
  | placed (hphase : hdr.phase = .queued) (hmode : hdr.payloadMode = .srcptr) (hpos : 0 < hdr.payloadSize)
      (howner : ((id, hdr.payloadSize), hdr.payload) ∈ st.pool.owners)
      (hplaced : Placed st id call (cellsAt st.mem (BitVec.ofNat 64 hdr.payload) hdr.payloadSize))

/-- What a step leaves as it is for a message that it is not about. -/
structure Keeps (base size : ℕ) (st st' : State) (id : ℕ) (hdr : Message) : Prop where
  freed : st'.freed id = st.freed id
  atCall : st'.atCall id = st.atCall id
  malloced : st'.malloced id = st.malloced id
  owners : hdr.payloadMode = .srcptr → ∀ o ∈ st.pool.owners, o.1.1 = id → o ∈ st'.pool.owners
  caller : hdr.phase ≠ .queued → hdr.payloadMode = .copy → ∀ src, hdr.payloadSrc = some src → ∀ a, src.Reads a →
    st'.mem a = st.mem a ∧ (st'.Private base size a → st.Private base size a)
  block : ∀ p n, st.malloced id = some (p, n) → ∀ a, InCells p n a → st'.mem a = st.mem a
  span : ∀ o ∈ st.pool.owners, o.1.1 = id → hdr.payloadMode = .srcptr → ∀ a,
    InCells (BitVec.ofNat 64 o.2) o.1.2 a → st'.mem a = st.mem a

section Frame

variable {base size : ℕ} {st st' : State} {id : ℕ} {call : Call} {hdr : Message} {src : PayloadSource}

theorem Placed.congr {bytes : List Byte} (h : Placed st id call bytes) (hfreed : st'.freed id = st.freed id)
    (hat : st'.atCall id = st.atCall id) : Placed st' id call bytes := by
  refine ⟨fun hcopy => ?_, fun p hp => ?_⟩
  · rw [hat]
    exact h.copy hcopy
  · rw [hfreed]
    exact h.free p hp

theorem Carries.congr (h : Carries st id call hdr src) (hfreed : st'.freed id = st.freed id)
    (hat : st'.atCall id = st.atCall id) (hmem : call.payloadMode = .copy → ∀ a, src.Reads a → st'.mem a = st.mem a) :
    Carries st' id call hdr src := by
  refine { h with
    copy := fun hcopy => ?_
    freed := hfreed.trans h.freed }
  rw [hat, PayloadSource.copyData_congr (hmem hcopy)]
  exact h.copy hcopy

/-- **Frame**: a step keeps what is said about the other messages. -/
theorem Ok.keep (h : Ok base size st id call hdr) (hk : Keeps base size st st' id hdr) :
    Ok base size st' id call hdr := by
  cases h with
  | empty hsize hmode hfreed hplaced =>
    exact .empty hsize hmode (hk.freed.trans hfreed) (hplaced.congr hk.freed hk.atCall)
  | entering hphase hmode hcopy hcarries hfree hkeepreg hpriv hmalloced =>
    refine .entering hphase hmode hcopy (hcarries.congr hk.freed hk.atCall fun hc a ha => ?_) hfree hkeepreg
      (fun hc a ha hp => ?_) (hk.malloced.trans hmalloced)
    · exact (hk.caller hphase (hcopy.mp hc) _ hcarries.payloadSrc a ha).1
    · exact hpriv hc a ha ((hk.caller hphase hc _ hcarries.payloadSrc a ha).2 hp)
  | registered hphase hmode hcall hfreed => exact .registered hphase hmode hcall (hk.freed.trans hfreed)
  | waiting hphase hmode hcarries hblock =>
    refine .waiting hphase hmode (hcarries.congr hk.freed hk.atCall fun hc a ha => ?_) fun hc => ?_
    · obtain ⟨p, rfl, hp⟩ := hblock hc
      exact hk.block p _ hp a ha
    · rw [hk.malloced]
      exact hblock hc
  | placed hphase hmode hpos howner hplaced =>
    refine .placed hphase hmode hpos (hk.owners hmode _ howner rfl) ?_
    rw [cellsAt_congr (hk.span _ howner rfl hmode)]
    exact hplaced.congr hk.freed hk.atCall

end Frame

/-! ## The pool -/

section Pool

variable {base size : ℕ} {t t' : SrcDataPool.Trace (ℕ × ℕ)} {o o' : (ℕ × ℕ) × ℕ} {a : Addr}

theorem owner_span (ht : t.Inv Prod.snd base size) (ho : o ∈ t.owners) :
    ∃ z, (o.2, z) ∈ t.pool.inUse ∧ o.1.2 ≤ z ∧ base ≤ o.2 ∧ o.2 + z ≤ base + size := by
  obtain ⟨z, hz, hle⟩ := ht.owned o ho
  have hblock := (ht.block (List.mem_append_right _ hz)).within
  exact ⟨z, hz, hle, hblock⟩

theorem inCells_owner (ht : t.Inv Prod.snd base size) (htop : base + size ≤ 2 ^ 64) (ho : o ∈ t.owners) :
    InCells (BitVec.ofNat 64 o.2) o.1.2 a ↔ o.2 ≤ a.toNat ∧ a.toNat < o.2 + o.1.2 := by
  obtain ⟨z, -, hle, hlo, hhi⟩ := owner_span ht ho
  rcases Nat.eq_zero_or_pos o.1.2 with h0 | hpos
  · rw [h0, InCells]
    omega
  · have hmod : (BitVec.ofNat 64 o.2).toNat = o.2 := by
      rw [BitVec.toNat_ofNat]
      exact Nat.mod_eq_of_lt (by omega)
    rw [inCells_iff (by rw [hmod]; omega), hmod]

theorem inPool_of_owner (ht : t.Inv Prod.snd base size) (htop : base + size ≤ 2 ^ 64) (ho : o ∈ t.owners)
    (ha : InCells (BitVec.ofNat 64 o.2) o.1.2 a) : InPool base size a := by
  obtain ⟨z, -, hle, hlo, hhi⟩ := owner_span ht ho
  rw [inCells_owner ht htop ho] at ha
  exact ⟨by omega, by omega⟩

/-- **The spans of two owners are disjoint.** -/
theorem owners_disjoint (ht : t.Inv Prod.snd base size) (htop : base + size ≤ 2 ^ 64) (ho : o ∈ t.owners)
    (ho' : o' ∈ t.owners) (hne : o ≠ o') (ha : InCells (BitVec.ofNat 64 o.2) o.1.2 a) :
    ¬InCells (BitVec.ofNat 64 o'.2) o'.1.2 a := by
  intro ha'
  have hptr : o.2 ≠ o'.2 := fun heq => hne (List.inj_on_of_nodup_map ht.distinct ho ho' heq)
  obtain ⟨z, hz, hle, -, -⟩ := owner_span ht ho
  obtain ⟨z', hz', hle', -, -⟩ := owner_span ht ho'
  rw [inCells_owner ht htop ho] at ha
  rw [inCells_owner ht htop ho'] at ha'
  rcases Nat.lt_or_gt_of_ne hptr with hlt | hlt
  · have := ht.pool.sep _ hz _ hz' hlt
    simp only at this
    omega
  · have := ht.pool.sep _ hz' _ hz hlt
    simp only at this
    omega

theorem le_of_reserveSrcdata {s s' : SrcDataPool (ℕ × ℕ)} {w : ℕ × ℕ} {srcptr : ℕ}
    (h : s.reserveSrcdata Prod.snd w = some (srcptr, s')) : w.2 ≤ s.totalSize := by
  by_contra hlt
  have hnone : s.allocSrcptr w.2 = none := if_pos (Nat.not_le.mp hlt)
  rw [SrcDataPool.reserveSrcdata, hnone] at h
  cases h

/-- A message is given a span, or waits. -/
theorem reserve_spec (ht : t.Inv Prod.snd base size) (hbase : 0 < base) {w : ℕ × ℕ} (hpos : 0 < w.2) {srcptr : ℕ}
    {s : SrcDataPool (ℕ × ℕ)} (hreserve : t.pool.reserveSrcdata Prod.snd w = some (srcptr, s))
    (hstep : t.step Prod.snd (.reserve w) = some t') :
    t'.Inv Prod.snd base size ∧
      (srcptr ≠ 0 ∧ t'.owners = t.owners ++ [(w, srcptr)] ∧ t'.pool.pendingAllocations = t.pool.pendingAllocations ∨
        srcptr = 0 ∧ t'.owners = t.owners ∧ t'.pool.pendingAllocations = t.pool.pendingAllocations ++ [w]) := by
  have hallowed : t.Allowed Prod.snd (.reserve w) := ⟨hpos, le_of_reserveSrcdata hreserve⟩
  obtain ⟨t₁, hstep₁, hinv⟩ := ht.step hbase hallowed
  obtain rfl : t₁ = t' := Option.some.inj (hstep₁.symm.trans hstep)
  refine ⟨hinv, ?_⟩
  -- the queue is what has waited and has not been served
  have hfifo := ht.fifo
  have hfifo' := hinv.fifo
  simp only [SrcDataPool.Trace.step, hreserve, Option.bind_eq_bind, Option.bind_some] at hstep
  split at hstep
  · rename_i hne
    obtain rfl := Option.some.inj hstep
    exact .inl ⟨hne, rfl, List.append_cancel_left (hfifo'.symm.trans hfifo)⟩
  · rename_i hzero
    obtain rfl := Option.some.inj hstep
    refine .inr ⟨not_not.mp hzero, rfl, ?_⟩
    simp only [hfifo, List.append_assoc] at hfifo'
    exact (List.append_cancel_left hfifo').symm

/-- A span that is released goes to waiters at the front of the queue. -/
theorem release_spec (ht : t.Inv Prod.snd base size) (hbase : 0 < base) (ho : o ∈ t.owners)
    {s : SrcDataPool (ℕ × ℕ)} {satisfied : List ((ℕ × ℕ) × ℕ)}
    (hrelease : t.pool.releaseSrcptr Prod.snd o.2 = some (s, satisfied))
    (hstep : t.step Prod.snd (.release o.2) = some t') :
    t'.Inv Prod.snd base size ∧ t'.owners = t.owners.filter (fun x => x.2 ≠ o.2) ++ satisfied ∧
      t.pool.pendingAllocations = satisfied.map Prod.fst ++ t'.pool.pendingAllocations := by
  obtain ⟨z, hz, -⟩ := owner_span ht ho
  have hallowed : t.Allowed Prod.snd (.release o.2) := ⟨z, hz⟩
  obtain ⟨t₁, hstep₁, hinv⟩ := ht.step hbase hallowed
  obtain rfl : t₁ = t' := Option.some.inj (hstep₁.symm.trans hstep)
  have hfifo := ht.fifo
  have hfifo' := hinv.fifo
  simp only [SrcDataPool.Trace.step, hrelease, Option.bind_eq_bind, Option.bind_some] at hstep
  obtain rfl := Option.some.inj hstep
  refine ⟨hinv, rfl, ?_⟩
  simp only [hfifo, List.map_append, List.append_assoc] at hfifo'
  exact List.append_cancel_left hfifo'

end Pool

/-! ## The calls -/

section Calls

variable {c : Config} {base size : ℕ} {st st' : State} {id : ℕ} {call : Call} {hdr hdr' : Message}
  {src : PayloadSource} {sp sp' : SpillBytes}

theorem attach_cases {msgid n dstptr : ℕ} {args : List ℤ} {mode : PayloadMode}
    (h : (Message.new msgid args).attach c src n mode dstptr = some hdr) :
    hdr.phase = .new ∧
      (hdr.payloadSize = 0 ∧ (mode = .none ∧ hdr.payloadMode = .none ∨ n = 0 ∧ hdr.payloadMode = .empty) ∨
        0 < n ∧ mode ≠ .none ∧ hdr.payloadSize = n ∧ hdr.payloadMode = mode ∧ hdr.payloadSrc = some src) := by
  obtain ⟨hnone, rfl⟩ | ⟨hzero, rfl⟩ | hset := Message.attach_eq_some h
  · exact ⟨rfl, .inl ⟨rfl, .inl ⟨hnone, rfl⟩⟩⟩
  · exact ⟨rfl, .inl ⟨rfl, .inr ⟨hzero, rfl⟩⟩⟩
  · obtain ⟨hne, hpos, rfl⟩ := Message.setPayload_eq_some hset
    exact ⟨rfl, .inr ⟨hpos, hne, rfl, rfl, rfl⟩⟩

theorem Frees.mode {p : Addr} (h : Frees p call) : call.payloadMode = .free := by
  cases call with
  | contiguous msgid args payload payloadSize mode dstptr => exact h.2
  | twoD => cases h
  | span => cases h

/-- What the overloads make of a call: a message without a payload, or one whose source has as many bytes as it
says. -/
structure Attached (call : Call) (src : PayloadSource) (hdr : Message) : Prop where
  phase : hdr.phase = .new
  empty : hdr.payloadSize = 0 → (hdr.payloadMode = .none ∨ hdr.payloadMode = .empty) ∧
    (call.payloadMode = .copy → src.length = 0) ∧ ∀ p, ¬Frees p call
  payloadSrc : 0 < hdr.payloadSize → hdr.payloadSrc = some src
  length : 0 < hdr.payloadSize → src.length = hdr.payloadSize
  mode : 0 < hdr.payloadSize → hdr.payloadMode ∈ [.keep, .keepreg, .free, .copy]
  copy : 0 < hdr.payloadSize → (call.payloadMode = .copy ↔ hdr.payloadMode = .copy)
  keepreg : 0 < hdr.payloadSize → hdr.payloadMode = .keepreg → call.payloadMode = .keep
  get : 0 < hdr.payloadSize → src.getPayloadMode = .free → hdr.payloadMode = .free
  free : 0 < hdr.payloadSize → ∀ p, Frees p call → src = .contiguous p hdr.payloadSize .free

theorem attached {msgid n dstptr : ℕ} {args : List ℤ} {mode : PayloadMode}
    (h : (Message.new msgid args).attach c src n mode dstptr = some hdr)
    (hcall : call.payloadMode ∈ [.none, .keep, .free, .copy])
    (hmode : mode = call.payloadMode ∨ call.payloadMode = .keep ∧ mode = .keepreg)
    (hlen : mode ≠ .none → 0 < n ∨ mode = .copy → src.length = n)
    (hget : src.getPayloadMode = .free → mode = .free)
    (hfree : ∀ p, Frees p call → src = .contiguous p n .free ∧ 0 < n) : Attached call src hdr := by
  obtain ⟨hphase, ⟨hsize, hwhy⟩ | ⟨hpos, hne, hsize, hm, hsrc⟩⟩ := attach_cases h
  · have hzero : mode ≠ .none → n = 0 := by
      intro hne
      rcases hwhy with ⟨hnone, -⟩ | ⟨hzero, -⟩
      · exact absurd hnone hne
      · exact hzero
    refine ⟨hphase, fun _ => ⟨hwhy.imp And.right And.right, fun hcopy => ?_, fun p hp => ?_⟩,
      ?_, ?_, ?_, ?_, ?_, ?_, ?_⟩
    · have hm : mode = .copy := by
        rcases hmode with hm | ⟨hk, -⟩
        · exact hm.trans hcopy
        · rw [hcopy] at hk
          cases hk
      have hne : mode ≠ .none := by
        rw [hm]
        simp
      exact (hlen hne (.inr hm)).trans (hzero hne)
    · have hn := (hfree p hp).2
      have := hzero (by
        rcases hmode with hm | ⟨hk, -⟩
        · rw [hm, hp.mode]
          simp
        · rw [hp.mode] at hk
          cases hk)
      omega
    all_goals exact fun hpos => absurd hsize hpos.ne'
  · subst hsize
    refine ⟨hphase, fun hzero => absurd hzero hpos.ne', fun _ => hsrc, fun _ => hlen hne (.inl hpos), fun _ => ?_,
      fun _ => ?_, fun _ hk => ?_, fun _ hf => hm.trans (hget hf), fun _ p hp => (hfree p hp).1⟩
    · rw [hm]
      rcases hmode with rfl | ⟨-, rfl⟩
      · simp only [List.mem_cons, List.not_mem_nil] at hcall ⊢
        tauto
      · simp
    · rw [hm]
      rcases hmode with rfl | ⟨hk, rfl⟩
      · rfl
      · rw [hk]
        simp
    · rcases hmode with rfl | ⟨hk, -⟩
      · rw [← hm, hk] at hcall
        simp at hcall
      · exact hk

/-- **`enqueue_message`** on a sound call -/
theorem message_attached {target : ℕ} (hsound : Sound (.enqueue target call))
    (hcall : call.payloadMode ∈ [.none, .keep, .free, .copy]) (h : call.message c = some hdr) :
    Attached call (source c call) hdr := by
  cases call with
  | contiguous msgid args payload payloadSize mode dstptr =>
    refine attached h hcall ?_ (fun _ _ => rfl) ?_ ?_
    · by_cases hk : mode = .keep ∧ c.isRegistered payload
      · exact .inr ⟨hk.1, if_pos hk⟩
      · exact .inl (if_neg hk)
    · exact id
    · rintro p ⟨rfl, hfree⟩
      refine ⟨?_, hsound hfree⟩
      simp [source, hfree]
  | twoD msgid args payload lineSize lineStride lineCount mode dstptr =>
    refine attached h hcall (.inl rfl) ?_ (by simp [source, PayloadSource.getPayloadMode]) fun p hp => by cases hp
    intro hne hwhy
    rcases hsound with hnone | hlt | ⟨hcopy, hzero⟩
    · exact absurd hnone hne
    · exact (Nat.mod_eq_of_lt hlt).symm
    · rcases hwhy with hpos | hc
      · exact absurd hzero hpos.ne'
      · exact absurd hc hcopy
  | span msgid args spans payloadSize mode dstptr =>
    exact attached h hcall (.inl rfl) (fun _ _ => rfl) (by simp [source, PayloadSource.getPayloadMode])
      fun p hp => by cases hp

theorem reserveSrcdata_unpooled {mem : Memory} {srcptr : ℕ} {copyPtr : Addr} (hpool : State.pooled hdr = none)
    (h : reserveSrcdata mem sp hdr srcptr copyPtr = some (sp', hdr')) :
    hdr'.phase = .queued ∧ hdr'.payloadSize = hdr.payloadSize ∧ hdr'.payloadMode = hdr.payloadMode ∧
      (hdr.payloadMode = .none ∨ hdr.payloadMode = .empty ∨ hdr.payloadMode = .keepreg) := by
  simp only [reserveSrcdata] at h
  unfold State.pooled at hpool
  split at h
  · rename_i hmode
    obtain ⟨rfl, rfl⟩ := Prod.mk.inj (Option.some.inj h)
    exact ⟨rfl, rfl, rfl, or_assoc.mp (.inl hmode)⟩
  · rename_i hmode
    rw [if_neg hmode] at hpool
    obtain ⟨src, hsrc, h⟩ := Option.bind_eq_some_iff.mp h
    obtain ⟨contig, hcontig, h⟩ := Option.bind_eq_some_iff.mp h
    have hsrc : hdr.payloadSrc = some src := hsrc
    have hcontig : keepregPointer hdr src = some contig := hcontig
    by_cases hzero : contig = 0
    · -- then the payload goes to the pool
      simp [hsrc, hcontig, hzero] at hpool
    · rw [if_pos hzero] at h
      obtain ⟨rfl, rfl⟩ := Prod.mk.inj (Option.some.inj h)
      refine ⟨rfl, rfl, rfl, .inr (.inr ?_)⟩
      by_contra hreg
      rw [keepregPointer, if_neg hreg] at hcontig
      exact hzero (Option.some.inj hcontig).symm

theorem reserveSrcdata_pooled {mem : Memory} {srcptr : ℕ} {copyPtr : Addr} (hpool : State.pooled hdr = some src)
    (h : reserveSrcdata mem sp hdr srcptr copyPtr = some (sp', hdr')) :
    hdr.payloadSrc = some src ∧ hdr'.phase = .queued ∧ hdr'.payloadSize = hdr.payloadSize ∧
      (srcptr ≠ 0 ∧ hdr'.payloadMode = .srcptr ∧ hdr'.payload = srcptr ∨
        srcptr = 0 ∧ hdr'.payloadMode = .pending ∧ hdr'.payloadSrc =
          some (if hdr.payloadMode = .copy then .contiguous copyPtr hdr.payloadSize .free else src)) := by
  unfold State.pooled at hpool
  split at hpool
  · cases hpool
  · rename_i hmode
    obtain ⟨src', hsrc, hpool⟩ := Option.bind_eq_some_iff.mp hpool
    obtain ⟨hzero, heq⟩ := Option.ite_none_right_eq_some.mp hpool
    obtain rfl := Option.some.inj heq
    simp only [reserveSrcdata, if_neg hmode] at h
    obtain ⟨src₁, hsrc₁, h⟩ := Option.bind_eq_some_iff.mp h
    obtain ⟨contig, hcontig, h⟩ := Option.bind_eq_some_iff.mp h
    obtain rfl : src' = src₁ := Option.some.inj (hsrc.symm.trans hsrc₁)
    obtain rfl : 0 = contig := Option.some.inj (hzero.symm.trans hcontig)
    rw [if_neg (not_not_intro rfl)] at h
    refine ⟨hsrc, ?_⟩
    unfold allocSrcptr at h
    split at h
    · rename_i hne
      obtain ⟨bytes, -, h⟩ := Option.bind_eq_some_iff.mp h
      obtain ⟨rfl, rfl⟩ := Prod.mk.inj (Option.some.inj h)
      split
      · exact ⟨rfl, rfl, .inl ⟨hne, rfl, rfl⟩⟩
      · exact ⟨rfl, rfl, .inl ⟨hne, rfl, rfl⟩⟩
    · rename_i hsrcptr
      have hsrcptr := not_not.mp hsrcptr
      split at h
      · rename_i hcopy
        split at h
        · cases h
        · obtain ⟨bytes, -, h⟩ := Option.bind_eq_some_iff.mp h
          obtain ⟨rfl, rfl⟩ := Prod.mk.inj (Option.some.inj h)
          have hcopy : hdr.payloadMode = .copy := hcopy
          exact ⟨rfl, rfl, .inr ⟨hsrcptr, rfl, by rw [if_pos hcopy]⟩⟩
      · rename_i hcopy
        obtain ⟨rfl, rfl⟩ := Prod.mk.inj (Option.some.inj h)
        have hcopy : hdr.payloadMode ≠ .copy := hcopy
        exact ⟨rfl, rfl, .inr ⟨hsrcptr, rfl, by rw [if_neg hcopy]⟩⟩

theorem finishAssign_cases (sp : SpillBytes) (hdr : Message) :
    (finishAssign sp hdr).2.phase = hdr.phase ∧ (finishAssign sp hdr).2.payloadSize = hdr.payloadSize ∧
      (finishAssign sp hdr).2.payloadMode = hdr.payloadMode ∧ (finishAssign sp hdr).2.payload = hdr.payload := by
  unfold finishAssign
  split
  · exact ⟨rfl, rfl, rfl, rfl⟩
  · exact ⟨rfl, rfl, rfl, rfl⟩

theorem assignSrcdataPointer_cases {mem : Memory} {ptr : ℕ}
    (h : assignSrcdataPointer mem sp hdr ptr = some (sp', hdr')) :
    hdr.payloadMode = .pending ∧ hdr'.phase = hdr.phase ∧ hdr'.payloadSize = hdr.payloadSize ∧
      hdr'.payloadMode = .srcptr ∧ hdr'.payload = ptr := by
  obtain ⟨hdr₁, hassign, hfinish⟩ := Option.map_eq_some_iff.mp h
  obtain ⟨hphase, hsize, hmode, hpayload⟩ := finishAssign_cases sp hdr₁
  rw [hfinish] at hphase hsize hmode hpayload
  rw [hphase, hsize, hmode, hpayload]
  unfold assignPayload at hassign
  split at hassign
  · cases hassign
  · rename_i hpending
    obtain ⟨src, -, hassign⟩ := Option.bind_eq_some_iff.mp hassign
    obtain ⟨bytes, -, hassign⟩ := Option.bind_eq_some_iff.mp hassign
    obtain rfl := Option.some.inj hassign
    exact ⟨not_not.mp hpending, rfl, rfl, rfl, rfl⟩

theorem copyTo_cases {mem mem' : Memory} {dest : Addr} {freed : List (Addr × List Byte)}
    (h : copyTo mem src dest = some (mem', freed)) :
    ∃ bytes, src.copyData mem = some bytes ∧ mem' = storeCells mem dest bytes ∧
      freed = (if src.getPayloadMode = .free then src.getContigPointer.toList else []).map fun p => (p, bytes) := by
  obtain ⟨bytes, hbytes, h⟩ := Option.bind_eq_some_iff.mp h
  obtain ⟨rfl, rfl⟩ := Prod.mk.inj (Option.some.inj h)
  exact ⟨bytes, hbytes, rfl, rfl⟩

/-- Nothing is written elsewhere. -/
theorem copyTo_outside {mem mem' : Memory} {dest : Addr} {freed : List (Addr × List Byte)}
    (h : copyTo mem src dest = some (mem', freed)) {a : Addr} (ha : ¬InCells dest src.length a) : mem' a = mem a := by
  obtain ⟨bytes, hbytes, rfl, -⟩ := copyTo_cases h
  rw [← PayloadSource.copyData_length hbytes] at ha
  exact storeCells_of_not ha

/-- **The copy**: what a message carries is placed where it is copied to. -/
theorem Carries.place (h : Carries st id call hdr src) {dest : Addr} {freed : List (Addr × List Byte)}
    (hcopy : copyTo st.mem src dest = some (st'.mem, freed)) (hsize : hdr.payloadSize ≤ 2 ^ 64)
    (hfreed : st'.freed id = st.freed id ++ freed) (hat : st'.atCall id = st.atCall id) :
    Placed st' id call (cellsAt st'.mem dest hdr.payloadSize) := by
  obtain ⟨bytes, hbytes, hmem, hlist⟩ := copyTo_cases hcopy
  have hlen : bytes.length = hdr.payloadSize := (PayloadSource.copyData_length hbytes).trans h.length
  have hread : cellsAt st'.mem dest hdr.payloadSize = bytes := by
    rw [hmem, ← hlen]
    exact cellsAt_storeCells (hlen ▸ hsize)
  rw [hread]
  constructor
  · intro hc
    rw [hat]
    exact h.copy hc bytes hbytes
  · intro p hp
    obtain rfl := h.free p hp
    rw [hfreed, h.freed, hlist]
    rfl

/-- What `copy_data` frees is the payload that was given away, and the message had freed nothing before. -/
theorem Carries.freedOnce (hcarries : Carries st id call hdr src) {mem : Memory} {dest : Addr}
    {freed : List (Addr × List Byte)} (hcopy : copyTo st.mem src dest = some (mem, freed)) {p : Addr}
    (hp : Frees p call) : ∃ bytes, st.freed id ++ freed = [(p, bytes)] := by
  obtain ⟨bytes, -, -, rfl⟩ := copyTo_cases hcopy
  obtain rfl := hcarries.free p hp
  exact ⟨bytes, by rw [hcarries.freed]; rfl⟩

end Calls

end Realm.Copy

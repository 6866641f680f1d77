import Mathlib.Data.List.Basic
import Mathlib.Data.List.FinRange
import Mathlib.Data.List.Perm.Basic
import Mathlib.Logic.Function.Basic
import Realm.AmMpi.Codec

/-!
# Realm.AmMpi.Net — nodes exchanging active messages over MPI

The sending threads and the polls of all nodes, with MPI between them.  An event is one call into MPI or
one decision of MPI, so that every interleaving is a list of events.

* A thread sends the header on `comm` and, for a separate payload, sends that on `comm_medium` afterwards.
* On `comm`, the headers from one thread to one node match the posted receives in order; a matched receive
  completes at any later time; `Testsome` returns all completed receives in any order (`poll_some`).
* On `comm_medium`, `Recv(src, tag)` takes the earliest payload that matches.

The call numbers, the requests and the tags that travel with a header or a payload are ghosts: no step
looks at them, they only say which call of `AM_medium_n` the bytes come from.
-/

namespace Realm.AmMpi

/-- The sending threads: their nodes and their `thread_id`s, distinct and not zero on every node. -/
structure Net where
  node : ℕ → ℕ
  threadId : ℕ → Word
  threadId_ne : ∀ t, threadId t ≠ 0
  threadId_inj : ∀ t u, node t = node u → threadId t = threadId u → t = u

/-- A call of `AM_short_n` (no `msg`) or of `AM_medium_n`. -/
structure Request where
  handler : Fin 256
  args : List Word
  msg : Option (List Byte)
  one_le : 1 ≤ args.length
  le_sixteen : args.length ≤ 16
  msg_lt : ∀ m, msg = some m → m.length < 2 ^ 31
deriving DecidableEq

/-- The payload is sent separately. -/
def Request.TwoSided (r : Request) : Prop :=
  ∃ m, r.msg = some m ∧ mediumMode r.args.length m.length = .separate

/-- The call that the receiver should make. -/
def Request.call {H : Type} (amTable : Vector H 256) (r : Request) : Call H :=
  match r.msg with
  | none => .short amTable[r.handler] r.args
  | some m =>
    .medium amTable[r.handler] (mediumMode r.args.length m.length) m (BitVec.ofNat 32 m.length) r.args

/-- The header `bytes` with the tag `tag` makes the call that `r` asks for, with the payload that is received
for it if there is a tag. -/
def Request.DecodesAs {H : Type} (amTable : Vector H 256) (r : Request) (bytes : List Byte) : Option Word → Prop
  | none => ¬r.TwoSided ∧ Decodes amTable bytes none fun _ => some (r.call amTable)
  | some w => ∃ m, r.msg = some m ∧ mediumMode r.args.length m.length = .separate ∧
    Decodes amTable bytes (some w) fun recv => (recv (BitVec.ofNat 32 m.length) w).map fun bytes =>
      .medium amTable[r.handler] .separate bytes (BitVec.ofNat 32 m.length) r.args

/-- What the call hands to MPI. -/
def Request.send (r : Request) (th : Thread) (bufSend : Buf) : Option (Thread × Sent) :=
  match r.msg with
  | none => (amShort bufSend (handlerWord r.handler) r.args).map (th, ·)
  | some m => amMedium th bufSend (handlerWord r.handler) m (BitVec.ofNat 32 m.length) r.args

/-- Source, destination and tag of a message on `comm_medium`. -/
structure Key where
  src : ℕ
  dst : ℕ
  tag : Word
deriving DecidableEq

/-- A message on `comm`.  `call`, `request` and `tag` are ghosts. -/
structure Header where
  thread : ℕ
  src : ℕ
  dst : ℕ
  bytes : List Byte
  call : ℕ
  request : Request
  tag : Option Word
deriving DecidableEq

def Header.key (h : Header) : Option Key := h.tag.map (Key.mk h.src h.dst)

/-- A message on `comm_medium`.  `call` is a ghost. -/
structure Payload where
  key : Key
  bytes : List Byte
  call : ℕ
deriving DecidableEq

/-- One of the buffers of `buf_recv_list`. -/
structure Slot where
  index : Fin 5
  buf : Buf
deriving DecidableEq

/-- A receive that has been matched with a header; `done` when it has completed. -/
structure Matched where
  slot : Slot
  header : Header
  done : Bool
deriving DecidableEq

/-- The receives and the poll of one node. -/
structure Poll where
  /-- Posted receives, in the order in which they were posted. -/
  posted : List Slot
  matched : List Matched
  /-- What is left of the result of `Testsome`. -/
  got : List Matched
  /-- The slot whose message has been run and which is not yet posted again. -/
  current : Option Slot

/-- A call of a handler, with the header and the payload that it was made from. -/
structure Delivery (H : Type) where
  header : Header
  payload : Option Payload
  call : Call H

structure State (H : Type) where
  threads : ℕ → Thread
  /-- Payloads of threads that have sent the header only. -/
  pending : List (ℕ × Payload)
  /-- On `comm`, not matched yet, in the order of sending. -/
  headers : List Header
  /-- On `comm_medium`, not received yet, in the order of sending. -/
  payloads : List Payload
  polls : ℕ → Poll
  calls : ℕ
  delivered : List (Delivery H)

/-- `AMPoll_init` with `n_am_mult_recv` receives. -/
def ampollInit : Poll where
  posted := (List.finRange 5).map fun i => { index := i, buf := .replicate _ 0 }
  matched := []
  got := []
  current := none

def init (H : Type) (net : Net) : State H where
  threads t := { threadId := net.threadId t, amSeq := 0 }
  pending := []
  headers := []
  payloads := []
  polls _ := ampollInit
  calls := 0
  delivered := []

inductive Event where
  | send (t dst : ℕ) (bufSend : Buf) (r : Request)
  | sendPayload (t : ℕ)
  | matchHeader (n t : ℕ)
  | complete (n i : ℕ)
  | testsome (n : ℕ) (got : List Matched)
  | gotAm (n : ℕ)
  | startIrecv (n : ℕ)

section Step

variable {H : Type} (amTable : Vector H 256) (net : Net) (s : State H)

/-- A thread that is not inside a call starts one: it sends the header to `dst`. -/
def State.send (t dst : ℕ) (bufSend : Buf) (r : Request) : Option (State H) :=
  if s.pending.any (·.1 = t) then none
  else (r.send (s.threads t) bufSend).map fun (th, sent) =>
    { s with
      threads := Function.update s.threads t th
      headers := s.headers ++
        [{ thread := t, src := net.node t, dst := dst, bytes := sent.header, call := s.calls, request := r,
           tag := sent.payload.map Prod.fst }]
      pending := s.pending ++ (sent.payload.map fun (tag, bytes) =>
        (t, { key := { src := net.node t, dst := dst, tag := tag }, bytes := bytes, call := s.calls })).toList
      calls := s.calls + 1 }

/-- `send_medium_twoside`: the second `Send`. -/
def State.sendPayload (t : ℕ) : Option (State H) :=
  (s.pending.find? (·.1 = t)).map fun p =>
    { s with pending := s.pending.eraseP (·.1 = t), payloads := s.payloads ++ [p.2] }

/-- The earliest header from thread `t` to node `n` matches the receive that was posted first. -/
def State.matchHeader (n t : ℕ) : Option (State H) :=
  match (s.polls n).posted, s.headers.find? (fun h => h.thread = t ∧ h.dst = n) with
  | slot :: posted, some h => some
    { s with
      headers := s.headers.eraseP (fun h => h.thread = t ∧ h.dst = n)
      polls := Function.update s.polls n
        { s.polls n with
          posted := posted
          matched := (s.polls n).matched ++ [{ slot := slot, header := h, done := false }] } }
  | _, _ => none

/-- A matched receive completes. -/
def State.complete (n i : ℕ) : Option (State H) := do
  let m ← (s.polls n).matched[i]?
  if m.done then none
  else do
    let buf ← recvHeader m.slot.buf m.header.bytes
    let m' : Matched := { slot := { m.slot with buf := buf }, header := m.header, done := true }
    return { s with
      polls := Function.update s.polls n { s.polls n with matched := (s.polls n).matched.set i m' } }

/-- `Testsome`: the completed receives, in some order.  Without any the poll ends. -/
def State.testsome (n : ℕ) (got : List Matched) : Option (State H) :=
  let p := s.polls n
  if p.got = [] ∧ p.current = none ∧ got ≠ [] ∧ got.Perm (p.matched.filter Matched.done) then
    some { s with
      polls := Function.update s.polls n
        { p with matched := p.matched.filter (fun m => !m.done), got := got } }
  else none

/-- `Recv(s, len, MPI_BYTE, src, tag, comm_medium)` on node `n`. -/
def recvPayload (payloads : List Payload) (src n : ℕ) (len tag : Word) : Option Payload :=
  (payloads.find? (·.key = { src := src, dst := n, tag := tag })).filter (·.bytes.length ≤ len.toNat)

/-- The payload that `run_am` has received for the call it makes. -/
def takenPayload (payloads : List Payload) (src n : ℕ) (buf : Buf) : Option (Call H) → Option Payload
  | some (.medium _ .separate _ len _) => (getWord buf 3).bind (recvPayload payloads src n len)
  | _ => none

/-- `got_am` for the next slot of `poll_some`.  While the payload is not there, `Recv` blocks. -/
def State.gotAm (n : ℕ) : Option (State H) :=
  match (s.polls n).got, (s.polls n).current with
  | m :: got, none =>
    let recv := fun len tag => (recvPayload s.payloads m.header.src n len tag).map Payload.bytes
    (AmMpi.gotAm amTable recv m.slot.buf).map fun call =>
      let taken := takenPayload s.payloads m.header.src n m.slot.buf call
      { s with
        payloads := (taken.map fun p => s.payloads.eraseP (·.key = p.key)).getD s.payloads
        polls := Function.update s.polls n { s.polls n with got := got, current := some m.slot }
        delivered := s.delivered ++ (call.map fun c => ⟨m.header, taken, c⟩).toList }
  | _, _ => none

/-- `_start_irecv` -/
def State.startIrecv (n : ℕ) : Option (State H) :=
  (s.polls n).current.map fun slot =>
    { s with
      polls := Function.update s.polls n
        { s.polls n with posted := (s.polls n).posted ++ [slot], current := none } }

def step : Event → Option (State H)
  | .send t dst bufSend r => s.send net t dst bufSend r
  | .sendPayload t => s.sendPayload t
  | .matchHeader n t => s.matchHeader n t
  | .complete n i => s.complete n i
  | .testsome n got => s.testsome n got
  | .gotAm n => s.gotAm amTable n
  | .startIrecv n => s.startIrecv n

end Step

/-- **Every message is delivered with its own payload**: the handler is called with what the call of the
header asked for, and a payload that was received for it was sent by that same call. -/
def Paired {H : Type} (amTable : Vector H 256) (s : State H) : Prop :=
  ∀ d ∈ s.delivered, d.call = d.header.request.call amTable ∧
    ∀ p, d.payload = some p → p.call = d.header.call

end Realm.AmMpi

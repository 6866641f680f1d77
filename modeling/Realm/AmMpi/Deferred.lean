import Mathlib.Data.List.Infix
import Realm.AmMpi.Enqueue

/-!
# Realm.AmMpi.Deferred — the `AM_ENQUEUE` build (`macros_impl/enqueue.def`)

With `AM_ENQUEUE` the MPI build does not send in `enqueue_message`: a tuple goes to `queue_ammpi`, and the polling
thread sends it from there.

* `sendMsg`: `send_msg`, which decides on the kind of the call again.
* `Deferred.step`: `am_enqueue` and the iterations of `am_dequeue`, in any interleaving.
* `direct`: the calls of the build without `AM_ENQUEUE`.
* `deferred_agrees_iff`: the two builds only agree where neither sends anything.
-/

namespace Realm.AmMpi

open Lib

/-! ## The two builds -/

/-- What is passed to `enqueue_message`; `payload_mode` is part of the source. -/
structure Enqueued where
  target : ℕ
  msgid : Word
  args : List Word
  payload : PayloadSource
  dstptr : Addr

/-- `AM_Message`: the `AM_params`. -/
structure AmMessage where
  target : ℕ
  msgid : Word
  args : List Word
  isShort : Bool
  payload : Addr
  payloadSize : ℕ

/-- `mpi_enqueue_message` up to `am_enqueue`; `none` is the failed assertion of `set_payload_size`. -/
def Enqueued.amMessage (m : Enqueued) : Option AmMessage :=
  match m.payload with
  | .contiguous payload payloadSize mode =>
    some ⟨m.target, m.msgid, m.args, mode = .none, payload, payloadSize⟩
  | .twoD payload lineSize lineCount _ mode =>
    some ⟨m.target, m.msgid, m.args, mode = .none, payload, lineSize * lineCount % 2 ^ 64⟩
  | .span _ _ _ => none

/-- `send_msg`, with the value of `next_outgoing_message_id` after it. -/
def sendMsg (nextId : Word) (it : AmMessage) : Option (Word × AmCall) :=
  if !it.isShort then some (nextId, .short it.target it.msgid it.args)
  else do
    let args ← adjustArgs nextId it.args
    return (nextId + 1, .medium it.target it.msgid it.payload (BitVec.ofNat 32 it.payloadSize) args)

/-- The calls of a process, and whether an assertion has ended it. -/
structure Calls where
  calls : List AmCall
  aborted : Bool
deriving DecidableEq

/-- A call is made, or an assertion fails. -/
def Calls.add (log : Calls) : Option AmCall → Calls
  | some call => { log with calls := log.calls ++ [call] }
  | none => { log with aborted := true }

/-- The build without `AM_ENQUEUE`. -/
structure Direct where
  nextId : Word
  log : Calls

namespace Direct

def init (nextId : Word) : Direct := ⟨nextId, [], false⟩

def step (bases : ℕ → Addr) (s : Direct) (m : Enqueued) : Direct :=
  if s.log.aborted then s
  else
    let r := mpiEnqueueMessage bases s.nextId m.target m.msgid m.args m.dstptr m.payload
    ⟨(r.map Prod.fst).getD s.nextId, s.log.add (r.map Prod.snd)⟩

end Direct

/-- The calls for the messages `ms`. -/
def direct (bases : ℕ → Addr) (nextId : Word) (ms : List Enqueued) : Calls :=
  (ms.foldl (Direct.step bases) (.init nextId)).log

/-- The build with `AM_ENQUEUE`. -/
structure Deferred where
  nextId : Word
  queue : List AmMessage
  log : Calls

namespace Deferred

/-- A call of `enqueue_message`, or an evaluation of the loop condition of `am_dequeue` with the iteration that follows
if there is one. -/
inductive Event
  | enqueue (m : Enqueued)
  | dequeue

def init (nextId : Word) : Deferred := ⟨nextId, [], [], false⟩

def step (s : Deferred) (e : Event) : Deferred :=
  if s.log.aborted then s
  else
    match e with
    | .enqueue m =>
      match m.amMessage with
      | some it => { s with queue := s.queue ++ [it] }
      | none => { s with log := s.log.add none }
    | .dequeue =>
      match s.queue with
      | [] => s
      | it :: rest =>
        let r := sendMsg s.nextId it
        ⟨(r.map Prod.fst).getD s.nextId, rest, s.log.add (r.map Prod.snd)⟩

def run (nextId : Word) (es : List Event) : Deferred := es.foldl step (.init nextId)

/-- The messages that are passed to `enqueue_message`, in their order. -/
def messages (es : List Event) : List Enqueued :=
  es.filterMap fun
    | .enqueue m => some m
    | .dequeue => none

end Deferred

/-- Whatever the interleaving, the calls of the polling thread are those of the direct build, once the queue is empty
or the process has ended. -/
def DeferredAgrees (bases : ℕ → Addr) (nextId : Word) (ms : List Enqueued) : Prop :=
  ∀ es, Deferred.messages es = ms → ((Deferred.run nextId es).queue = [] ∨ (Deferred.run nextId es).log.aborted) →
    (Deferred.run nextId es).log = direct bases nextId ms

/-! ## Calls are only added -/

theorem Calls.calls_prefix_add (log : Calls) (r : Option AmCall) : log.calls <+: (log.add r).calls := by
  cases r with
  | none => exact List.prefix_rfl
  | some call => exact List.prefix_append _ _

theorem Direct.calls_prefix_step (bases : ℕ → Addr) (s : Direct) (m : Enqueued) :
    s.log.calls <+: (Direct.step bases s m).log.calls := by
  unfold Direct.step
  split
  · exact List.prefix_rfl
  · exact s.log.calls_prefix_add _

theorem Direct.calls_prefix (bases : ℕ → Addr) (s : Direct) (ms : List Enqueued) :
    s.log.calls <+: (ms.foldl (Direct.step bases) s).log.calls :=
  List.foldlRecOn (motive := fun t => s.log.calls <+: t.log.calls) ms (Direct.step bases) List.prefix_rfl
    fun t ht m _ => ht.trans (Direct.calls_prefix_step bases t m)

theorem Direct.foldl_aborted (bases : ℕ → Addr) {s : Direct} (h : s.log.aborted) (ms : List Enqueued) :
    ms.foldl (Direct.step bases) s = s := by
  apply List.foldl_fixed'
  intro m
  rw [Direct.step, if_pos h]

namespace Deferred

theorem calls_prefix_step (s : Deferred) (e : Event) : s.log.calls <+: (step s e).log.calls := by
  unfold step
  split
  · exact List.prefix_rfl
  · repeat' split
    · exact List.prefix_rfl
    · exact s.log.calls_prefix_add _
    · exact List.prefix_rfl
    · exact s.log.calls_prefix_add _

theorem calls_prefix (s : Deferred) (es : List Event) : s.log.calls <+: (es.foldl step s).log.calls :=
  List.foldlRecOn (motive := fun t => s.log.calls <+: t.log.calls) es step List.prefix_rfl
    fun t ht e _ => ht.trans (calls_prefix_step t e)

theorem foldl_aborted {s : Deferred} (h : s.log.aborted) (es : List Event) : es.foldl step s = s := by
  apply List.foldl_fixed'
  intro e
  unfold step
  rw [if_pos h]

/-! ## The polling thread keeps up -/

/-- Every message is sent before the next one is passed. -/
def atOnce (ms : List Enqueued) : List Event := ms.flatMap fun m => [.enqueue m, .dequeue]

theorem messages_atOnce (ms : List Enqueued) : messages (atOnce ms) = ms := by
  induction ms with
  | nil => rfl
  | cons m ms ih =>
    show m :: messages (atOnce ms) = m :: ms
    rw [ih]

/-- A message that is sent from an empty queue. -/
theorem step_step (s : Deferred) (hq : s.queue = []) (hlog : s.log.aborted = false) {m : Enqueued} {it : AmMessage}
    (hm : m.amMessage = some it) :
    step (step s (.enqueue m)) .dequeue =
      ⟨((sendMsg s.nextId it).map Prod.fst).getD s.nextId, [], s.log.add ((sendMsg s.nextId it).map Prod.snd)⟩ := by
  simp [step, hq, hlog, hm]

theorem atOnce_complete (s : Deferred) (h : s.queue = [] ∨ s.log.aborted) (ms : List Enqueued) :
    ((atOnce ms).foldl step s).queue = [] ∨ ((atOnce ms).foldl step s).log.aborted := by
  induction ms generalizing s with
  | nil => exact h
  | cons m ms ih =>
    refine ih (step (step s (.enqueue m)) .dequeue) ?_
    by_cases hlog : s.log.aborted
    · right
      simp [step, hlog]
    · have hq : s.queue = [] := h.resolve_right hlog
      rw [Bool.not_eq_true] at hlog
      cases hm : m.amMessage with
      | none =>
        right
        simp [step, hlog, hm, Calls.add]
      | some it =>
        left
        rw [step_step s hq hlog hm]

end Deferred

/-! ## The first message -/

/-- **The two builds decide differently on every message**: one makes a call where the other fails, or they make calls
of different kinds. -/
theorem sendMsg_ne {m : Enqueued} {it : AmMessage} (hm : m.amMessage = some it) (bases : ℕ → Addr) (nextId : Word) :
    (sendMsg nextId it).map Prod.snd ≠
      (mpiEnqueueMessage bases nextId m.target m.msgid m.args m.dstptr m.payload).map Prod.snd := by
  -- both kinds of payload are sent by `send_now`, which is short if the queued tuple says so
  obtain ⟨payload, payloadSize, mode, hnow, hshort, hit⟩ : ∃ payload payloadSize mode,
      mpiEnqueueMessage bases nextId m.target m.msgid m.args m.dstptr m.payload =
        sendNow bases nextId m.target m.msgid m.args payload payloadSize mode m.dstptr ∧
      (it.isShort = true ↔ mode = .none) ∧ it.args = m.args := by
    unfold Enqueued.amMessage at hm
    split at hm
    · rename_i heq
      obtain rfl := Option.some.inj hm
      rw [heq]
      exact ⟨_, _, _, rfl, decide_eq_true_iff, rfl⟩
    · rename_i heq
      obtain rfl := Option.some.inj hm
      rw [heq]
      exact ⟨_, _, _, rfl, decide_eq_true_iff, rfl⟩
    · cases hm
  rw [hnow, sendMsg, sendNow, hit]
  by_cases hmode : mode = .none
  · rw [if_neg (by simp [hshort.mpr hmode]), if_pos hmode]
    cases adjustArgs nextId m.args with
    | none => simp
    | some args => simp
  · rw [if_pos (by simpa using fun h => hmode (hshort.mp h)), if_neg hmode]
    cases adjustArgs nextId m.args with
    | none => simp
    | some args =>
      simp only [Option.bind_eq_bind, Option.bind_some, Option.map_some]
      split <;> simp

theorem head_of_prefix {call : AmCall} {calls : List AmCall} (h : [call] <+: calls) : calls.head? = some call := by
  obtain ⟨rest, rfl⟩ := h
  rfl

/-- The first call of the direct build is the one for the first message, if that does not fail. -/
theorem direct_head (bases : ℕ → Addr) (nextId : Word) (m : Enqueued) (ms : List Enqueued) :
    (direct bases nextId (m :: ms)).calls.head? =
      (mpiEnqueueMessage bases nextId m.target m.msgid m.args m.dstptr m.payload).map Prod.snd := by
  have hpre := Direct.calls_prefix bases (Direct.step bases (.init nextId) m) ms
  cases hr : mpiEnqueueMessage bases nextId m.target m.msgid m.args m.dstptr m.payload with
  | none =>
    have hstep : Direct.step bases (.init nextId) m = ⟨nextId, [], true⟩ := by
      simp [Direct.step, Direct.init, hr, Calls.add]
    rw [direct, List.foldl_cons, hstep, Direct.foldl_aborted bases rfl]
    rfl
  | some r =>
    have hstep : (Direct.step bases (.init nextId) m).log.calls = [r.2] := by
      simp [Direct.step, Direct.init, hr, Calls.add]
    rw [hstep] at hpre
    exact head_of_prefix hpre

/-- So is that of the polling thread. -/
theorem Deferred.atOnce_head (nextId : Word) {m : Enqueued} {it : AmMessage} (hm : m.amMessage = some it)
    (ms : List Enqueued) :
    (Deferred.run nextId (atOnce (m :: ms))).log.calls.head? = (sendMsg nextId it).map Prod.snd := by
  have hfirst := step_step (.init nextId) rfl rfl hm
  have hpre := calls_prefix (step (step (.init nextId) (.enqueue m)) .dequeue) (atOnce ms)
  have hrun : Deferred.run nextId (atOnce (m :: ms)) =
      (atOnce ms).foldl step (step (step (.init nextId) (.enqueue m)) .dequeue) := rfl
  rw [hrun]
  cases hr : sendMsg nextId it with
  | none =>
    have haborted : (step (step (.init nextId) (.enqueue m)) .dequeue).log = ⟨[], true⟩ := by
      rw [hfirst]
      simp [init, hr, Calls.add]
    rw [foldl_aborted (by rw [haborted]), haborted]
    rfl
  | some r =>
    have hcalls : (step (step (.init nextId) (.enqueue m)) .dequeue).log.calls = [r.2] := by
      rw [hfirst]
      simp [init, hr, Calls.add]
    rw [hcalls] at hpre
    exact head_of_prefix hpre

/-! ## Agreement -/

/-- The payload is a list of spans, which `set_payload_size` does not accept. -/
def Enqueued.IsSpan (m : Enqueued) : Prop := ∃ spans size mode, m.payload = .span spans size mode

theorem Enqueued.isSpan_iff (m : Enqueued) : m.IsSpan ↔ m.amMessage = none := by
  unfold IsSpan amMessage
  cases m.payload <;> simp

namespace Deferred

/-- As long as nothing is passed there is nothing to send. -/
theorem foldl_of_no_messages {s : Deferred} (hq : s.queue = []) {es : List Event} (h : messages es = []) :
    es.foldl step s = s := by
  induction es with
  | nil => rfl
  | cons e es ih =>
    cases e with
    | enqueue m => cases h
    | dequeue =>
      have hstep : step s .dequeue = s := by simp [step, hq]
      rw [List.foldl_cons, hstep]
      exact ih h

/-- A first message with spans ends the process before any call. -/
theorem foldl_of_span {s : Deferred} (hq : s.queue = []) (hlog : s.log.aborted = false) {m : Enqueued}
    (hm : m.IsSpan) {ms : List Enqueued} {es : List Event} (h : messages es = m :: ms) :
    (es.foldl step s).log = s.log.add none := by
  induction es with
  | nil => cases h
  | cons e es ih =>
    cases e with
    | enqueue m' =>
      obtain ⟨rfl, -⟩ := List.cons.inj h
      have hstep : step s (.enqueue m') = { s with log := s.log.add none } := by
        simp [step, hlog, m'.isSpan_iff.mp hm]
      rw [List.foldl_cons, hstep, foldl_aborted rfl]
    | dequeue =>
      have hstep : step s .dequeue = s := by simp [step, hq]
      rw [List.foldl_cons, hstep]
      exact ih h

end Deferred

/-- **Deferred sending agrees with direct sending if and only if** the first message, if there is one, is not sent in
either build because its payload is a list of spans. -/
theorem deferred_agrees_iff (bases : ℕ → Addr) (nextId : Word) (ms : List Enqueued) :
    DeferredAgrees bases nextId ms ↔ ∀ m ∈ ms.head?, m.IsSpan := by
  constructor
  · intro h m hm
    obtain ⟨rest, rfl⟩ : ∃ rest, ms = m :: rest := ⟨_, List.eq_cons_of_mem_head? hm⟩
    rw [m.isSpan_iff]
    by_contra hspan
    obtain ⟨it, hit⟩ := Option.ne_none_iff_exists'.mp hspan
    have hlog := h _ (Deferred.messages_atOnce _) (Deferred.atOnce_complete _ (.inl rfl) _)
    have hhead := congrArg (fun log : Calls => log.calls.head?) hlog
    simp only [direct_head, Deferred.atOnce_head nextId hit] at hhead
    exact sendMsg_ne hit bases nextId hhead
  · rintro h es rfl -
    cases hms : Deferred.messages es with
    | nil =>
      rw [Deferred.run, Deferred.foldl_of_no_messages rfl hms]
      rfl
    | cons m rest =>
      have hm : m.IsSpan := h m (by rw [hms]; rfl)
      rw [Deferred.run, Deferred.foldl_of_span rfl rfl hm hms]
      obtain ⟨spans, size, mode, hpayload⟩ := hm
      have hstep : Direct.step bases (.init nextId) m = ⟨nextId, [], true⟩ := by
        simp [Direct.step, Direct.init, hpayload, mpiEnqueueMessage, Calls.add]
      rw [direct, List.foldl_cons, hstep, Direct.foldl_aborted bases rfl]
      rfl

/-- A message of one argument and without payload: the polling thread finds no `BaseMedium` in it. -/
theorem deferred_short_differs :
    ¬ DeferredAgrees (fun _ => 0) 0 [⟨1, 150, [7], .contiguous 0 0 .none, 0⟩] := by
  intro h
  have hlog := h [.enqueue ⟨1, 150, [7], .contiguous 0 0 .none, 0⟩, .dequeue] rfl (.inl rfl)
  have habort := congrArg Calls.aborted hlog
  cases habort

end Realm.AmMpi

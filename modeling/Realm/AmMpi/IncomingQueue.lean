import Mathlib.Data.Int.Notation
import Mathlib.Data.List.Nodup
import Realm.Lib.Chain
import Realm.Lib.Overlay
import Realm.Lib.Run

/-!
# Realm.AmMpi.IncomingQueue — the queue of the MPI handler threads (`use_mpi.def`, `activemsg_impl_mpi.cc`)

With `INCOMING_THREADS` the poller hands every received message to `Incoming_Manager`: one list of `I_Msg`s, linked
through their `next`, and `count` handler threads that take one message at a time.  One lock and one condition
variable serve all of them.  `M` is the type of the `I_Msg *`s.

* `link`, `takeHead`: the two sections that change the list.
* `step`: one section under the lock, or one message handled.  A caller that has to wait falls asleep, and a
  broadcast wakes all who sleep.
* `Inv`: the list that the pointers represent, and where every message is.
* `queue_correct`: the queue is first in first out, and is empty when the last thread leaves.
-/

namespace Realm.IncomingQueue

open Lib

variable {M : Type}

/-! ## The manager -/

/-- What the constructor of an `I_Msg` copies from the call of `enqueue_incoming`; the two buffers are addresses. -/
structure IMsg where
  src : ℤ
  needFree : Bool
  bufRecv : ℕ
  bufPayload : ℕ
  deriving DecidableEq

/-- `Incoming_Manager`, with the `next` fields of the messages. -/
structure Manager (M : Type) where
  next : M → Option M
  head : Option M
  tail : Option M
  numMsgs : ℤ
  shutdownFlag : Bool
  handlerThreads : ℕ

def amBufCount : ℤ := 128

namespace Manager

/-- After the constructor, which leaves `tail` as it is, and `start_threads`. -/
def init (count : ℕ) (tail : Option M) : Manager M := ⟨fun _ => none, none, tail, 0, false, count⟩

/-- The condition under which `enqueue_incoming` waits -/
def full (mgr : Manager M) : Bool := amBufCount ≤ mgr.numMsgs + mgr.handlerThreads + 1

/-- The end of `enqueue_incoming`; `none` when a null `tail` is followed. -/
def link [DecidableEq M] (mgr : Manager M) (msg : M) : Option (Manager M) :=
  if mgr.head = none then
    some { mgr with head := some msg, tail := some msg, numMsgs := 1 }
  else do
    let tail ← mgr.tail
    return { mgr with
      next := Function.update mgr.next tail (some msg)
      tail := some msg
      numMsgs := mgr.numMsgs + 1 }

/-- The end of `get_messages`, when `head` is `msg`.  The `tail` stays, also when the list is empty now. -/
def takeHead (mgr : Manager M) (msg : M) : Manager M :=
  { mgr with head := mgr.next msg, numMsgs := mgr.numMsgs - 1 }

theorem link_of_none [DecidableEq M] {mgr : Manager M} (h : mgr.head = none) (msg : M) :
    mgr.link msg = some { mgr with head := some msg, tail := some msg, numMsgs := 1 } := if_pos h

theorem link_of_some [DecidableEq M] {mgr : Manager M} {tail : M} (h : mgr.head ≠ none)
    (htail : mgr.tail = some tail) (msg : M) :
    mgr.link msg = some { mgr with
      next := Function.update mgr.next tail (some msg)
      tail := some msg
      numMsgs := mgr.numMsgs + 1 } := by
  rw [link, if_neg h, htail]
  rfl

end Manager

/-! ## The system -/

/-- Where an `I_Msg` is: not allocated, with the caller of `enqueue_incoming`, in the list, or with a handler thread. -/
inductive Place
  | free
  | entering (asleep : Bool)
  | queued
  | taken (thread : ℕ)
  deriving DecidableEq

/-- What a handler thread does: it is in `get_messages`, it runs the handler of a message, or it left its loop. -/
inductive Status (M : Type)
  | getting (asleep : Bool)
  | handling (msg : M)
  | left
  deriving DecidableEq

def Place.woken : Place → Place
  | .entering _ => .entering false
  | p => p

def Status.woken : Status M → Status M
  | .getting _ => .getting false
  | s => s

/-- The manager, the messages, and the threads.  The rest is history: the messages enqueued, those taken and by whom,
those that each thread handled, and those that were enqueued when `shutdown_flag` was set. -/
structure State (M : Type) where
  mgr : Manager M
  msgs : M → IMsg
  place : M → Place
  thread : ℕ → Status M
  enqueued : List IMsg
  taken : List (ℕ × IMsg)
  handled : ℕ → List IMsg
  atShutdown : List IMsg

namespace State

def init (count : ℕ) (tail : Option M) (msgs : M → IMsg) : State M :=
  ⟨.init count tail, msgs, fun _ => .free, fun _ => .getting false, [], [], fun _ => [], []⟩

def broadcast (st : State M) : State M :=
  { st with place := fun m => (st.place m).woken, thread := fun t => (st.thread t).woken }

/-- What a thread took, in its order. -/
def takenBy (st : State M) (t : ℕ) : List IMsg := (st.taken.filter fun p => p.1 = t).map Prod.snd

/-- What a thread took and has not handled yet. -/
def pending (st : State M) (t : ℕ) : List IMsg :=
  match st.thread t with
  | .handling msg => [st.msgs msg]
  | _ => []

end State

/-- The sections, and what happens between them.  `wakeMsg` and `wakeThread` wake a caller for no reason, which a
condition variable may do; `joined` is the end of `shutdown`. -/
inductive Event (M : Type)
  | create (msg : M) (args : IMsg)
  | enqueue (msg : M)
  | get (thread : ℕ)
  | handle (thread : ℕ)
  | shutdown
  | joined
  | wakeMsg (msg : M)
  | wakeThread (thread : ℕ)

section Step

variable [DecidableEq M]

/-- `new I_Msg` -/
def State.create (st : State M) (msg : M) (args : IMsg) : State M :=
  { st with
    mgr := { st.mgr with next := Function.update st.mgr.next msg none }
    msgs := Function.update st.msgs msg args
    place := Function.update st.place msg (.entering false) }

/-- `enqueue_incoming`, from the lock to the unlock or to the wait. -/
def State.enqueue (st : State M) (msg : M) : Option (State M) :=
  if st.mgr.full then some { st with place := Function.update st.place msg (.entering true) }
  else do
    let mgr ← st.mgr.link msg
    return { st with
      mgr := mgr
      place := Function.update st.place msg .queued
      enqueued := st.enqueued ++ [st.msgs msg] : State M }.broadcast

/-- `get_messages`, from the lock to the unlock or to the wait; a thread that gets no message leaves its loop. -/
def State.get (st : State M) (t : ℕ) : State M :=
  match st.mgr.head with
  | none =>
    if st.mgr.shutdownFlag then { st with thread := Function.update st.thread t .left }
    else { st with thread := Function.update st.thread t (.getting true) }
  | some msg =>
    { st with
      mgr := st.mgr.takeHead msg
      place := Function.update st.place msg (.taken t)
      thread := Function.update st.thread t (.handling msg)
      taken := st.taken ++ [(t, st.msgs msg)] : State M }.broadcast

theorem State.get_of_shutdown {st : State M} (t : ℕ) (hhead : st.mgr.head = none) (hflag : st.mgr.shutdownFlag = true) :
    st.get t = { st with thread := Function.update st.thread t .left } := by
  simp only [get, hhead]
  exact if_pos hflag

theorem State.get_of_empty {st : State M} (t : ℕ) (hhead : st.mgr.head = none) (hflag : st.mgr.shutdownFlag = false) :
    st.get t = { st with thread := Function.update st.thread t (.getting true) } := by
  simp only [get, hhead]
  exact if_neg (by simp [hflag])

theorem State.get_of_some {st : State M} (t : ℕ) {msg : M} (hhead : st.mgr.head = some msg) :
    st.get t = { st with
      mgr := st.mgr.takeHead msg
      place := Function.update st.place msg (.taken t)
      thread := Function.update st.thread t (.handling msg)
      taken := st.taken ++ [(t, st.msgs msg)] : State M }.broadcast := by
  simp only [get, hhead]

/-- `AM_run_handler` and `delete msg` -/
def State.handle (st : State M) (t : ℕ) (msg : M) : State M :=
  { st with
    place := Function.update st.place msg .free
    thread := Function.update st.thread t (.getting false)
    handled := Function.update st.handled t (st.handled t ++ [st.msgs msg]) }

/-- The section of `shutdown` -/
def State.shutdown (st : State M) : State M :=
  if st.mgr.shutdownFlag then st
  else
    { st with
      mgr := { st.mgr with shutdownFlag := true }
      atShutdown := st.enqueued : State M }.broadcast

def step (count : ℕ) (st : State M) : Event M → Option (State M)
  | .create msg args => if st.place msg = .free then some (st.create msg args) else none
  | .enqueue msg => if st.place msg = .entering false then st.enqueue msg else none
  | .get t => if t < count ∧ st.thread t = .getting false then some (st.get t) else none
  | .handle t =>
    match st.thread t with
    | .handling msg => some (st.handle t msg)
    | _ => none
  | .shutdown => some st.shutdown
  | .joined =>
    -- every thread has been joined
    if st.mgr.shutdownFlag = true ∧ ∀ t < count, st.thread t = .left then
      some { st with mgr := { st.mgr with handlerThreads := 0 } }
    else none
  | .wakeMsg msg =>
    if st.place msg = .entering true then
      some { st with place := Function.update st.place msg (.entering false) }
    else none
  | .wakeThread t =>
    if st.thread t = .getting true then
      some { st with thread := Function.update st.thread t (.getting false) }
    else none

end Step

/-! ## The list -/

@[simp] theorem Place.woken_eq_free {p : Place} : p.woken = .free ↔ p = .free := by cases p <;> simp [woken]

@[simp] theorem Place.woken_eq_queued {p : Place} : p.woken = .queued ↔ p = .queued := by cases p <;> simp [woken]

@[simp] theorem Place.woken_eq_taken {p : Place} {t : ℕ} : p.woken = .taken t ↔ p = .taken t := by
  cases p <;> simp [woken]

theorem Place.woken_eq_entering {p : Place} {b : Bool} (h : p.woken = .entering b) :
    b = false ∧ ∃ b', p = .entering b' := by
  cases p <;> simp_all [woken]

@[simp] theorem Status.woken_eq_handling {s : Status M} {msg : M} : s.woken = .handling msg ↔ s = .handling msg := by
  cases s <;> simp [woken]

@[simp] theorem Status.woken_eq_left {s : Status M} : s.woken = .left ↔ s = .left := by cases s <;> simp [woken]

theorem Status.woken_ne_asleep (s : Status M) : s.woken ≠ .getting true := by cases s <;> simp [woken]

/-- The pointers represent the list `queue`, every message is in one place, and the history agrees with both. -/
structure Rep (count : ℕ) (st : State M) (queue : List M) : Prop where
  chain : Chain st.mgr.next st.mgr.head queue
  tail : queue ≠ [] → st.mgr.tail = queue.getLast?
  num : st.mgr.numMsgs = queue.length
  small : st.mgr.numMsgs < amBufCount
  nodup : queue.Nodup
  mem : ∀ m, m ∈ queue ↔ st.place m = .queued
  fresh : ∀ m b, st.place m = .entering b → st.mgr.next m = none
  held : ∀ t m, st.thread t = .handling m ↔ st.place m = .taken t
  order : st.enqueued = st.taken.map Prod.snd ++ queue.map st.msgs
  byThread : ∀ t, st.takenBy t = st.handled t ++ st.pending t
  lt : ∀ p ∈ st.taken, p.1 < count
  left : ∀ t, st.thread t = .left → st.mgr.shutdownFlag = true ∧ st.atShutdown.length ≤ st.taken.length
  atShutdown : st.atShutdown <+: st.enqueued

/-- **No wake-up is lost**: whoever sleeps would have to wait again.  (When all threads are joined their number is 0,
and nobody tells the callers that sleep.) -/
structure Waiting (count : ℕ) (st : State M) : Prop where
  thread : ∀ t, st.thread t = .getting true → st.mgr.head = none ∧ st.mgr.shutdownFlag = false
  caller : ∀ m t, st.place m = .entering true → t < count → st.thread t ≠ .left → st.mgr.full = true

theorem Rep.init (count : ℕ) (tail : Option M) (msgs : M → IMsg) : Rep count (.init count tail msgs) [] := by
  constructor <;> simp [State.init, Manager.init, Chain, amBufCount, State.takenBy, State.pending]

theorem Waiting.init (count : ℕ) (tail : Option M) (msgs : M → IMsg) : Waiting count (.init count tail msgs) := by
  constructor <;> simp [State.init]

theorem Waiting.broadcast (count : ℕ) (st : State M) : Waiting count st.broadcast := by
  constructor
  · intro t ht
    exact absurd ht (Status.woken_ne_asleep _)
  · intro m t hm
    exact absurd (Place.woken_eq_entering hm).1 (by simp)

/-- A step that wakes nobody: it puts nobody to sleep either, and leaves the conditions as they are. -/
theorem Waiting.mono {count : ℕ} {st st' : State M} (h : Waiting count st)
    (hmgr : st'.mgr.head = st.mgr.head ∧ st'.mgr.shutdownFlag = st.mgr.shutdownFlag ∧ st'.mgr.full = st.mgr.full)
    (hplace : ∀ m, st'.place m = .entering true → st.place m = .entering true)
    (hthread : ∀ t, st'.thread t = .getting true → st.thread t = .getting true)
    (hleft : ∀ t, st.thread t = .left → st'.thread t = .left) : Waiting count st' := by
  constructor
  · intro t ht
    rw [hmgr.1, hmgr.2.1]
    exact h.thread t (hthread t ht)
  · intro m t hm hlt hne
    rw [hmgr.2.2]
    exact h.caller m t (hplace m hm) hlt (mt (hleft t) hne)

theorem State.pending_of_ne {st : State M} {t : ℕ} (h : ∀ m, st.thread t ≠ .handling m) : st.pending t = [] := by
  unfold pending
  split
  · rename_i m hm
    exact absurd hm (h m)
  · rfl

theorem State.pending_of_handling {st : State M} {t : ℕ} {m : M} (h : st.thread t = .handling m) :
    st.pending t = [st.msgs m] := by
  rw [pending, h]

theorem State.pending_congr {st st' : State M} {t : ℕ} (hthread : st'.thread t = st.thread t)
    (hmsgs : ∀ m, st.thread t = .handling m → st'.msgs m = st.msgs m) : st'.pending t = st.pending t := by
  by_cases hex : ∃ m, st.thread t = .handling m
  · obtain ⟨m, ht⟩ := hex
    rw [pending_of_handling ht, pending_of_handling (hthread.trans ht), hmsgs m ht]
  · have hnone := not_exists.mp hex
    rw [pending_of_ne hnone, pending_of_ne (hthread ▸ hnone)]

theorem State.pending_broadcast (st : State M) (t : ℕ) : st.broadcast.pending t = st.pending t := by
  show (match (st.thread t).woken with | .handling msg => [st.msgs msg] | _ => []) = st.pending t
  unfold pending
  cases st.thread t <;> rfl

namespace Rep

variable {count : ℕ} {st : State M} {queue : List M}

theorem broadcast (h : Rep count st queue) : Rep count st.broadcast queue where
  chain := h.chain
  tail := h.tail
  num := h.num
  small := h.small
  nodup := h.nodup
  mem m := by rw [h.mem]; exact Place.woken_eq_queued.symm
  fresh m b hm := by
    obtain ⟨-, b', hm⟩ := Place.woken_eq_entering hm
    exact h.fresh m b' hm
  held t m := by
    show (st.thread t).woken = .handling m ↔ (st.place m).woken = .taken t
    rw [Status.woken_eq_handling, Place.woken_eq_taken, h.held]
  order := h.order
  byThread t := by rw [State.pending_broadcast]; exact h.byThread t
  lt := h.lt
  left t ht := h.left t (Status.woken_eq_left.mp ht)
  atShutdown := h.atShutdown

/-- When the list is empty, everything enqueued has been taken. -/
theorem all_taken (h : Rep count st []) : st.atShutdown.length ≤ st.taken.length := by
  have hlen := h.atShutdown.length_le
  rw [h.order] at hlen
  simpa using hlen

theorem not_mem_of_place (h : Rep count st queue) {m : M} (hm : st.place m ≠ .queued) : m ∉ queue :=
  fun hmem => hm ((h.mem m).mp hmem)

theorem ne_of_place {m m' : M} {p p' : Place} (hm : st.place m = p) (hm' : st.place m' = p') (hne : p ≠ p') :
    m ≠ m' := by
  rintro rfl
  exact hne (hm.symm.trans hm')

/-- A thread in `get_messages` falls asleep, is woken, or leaves. -/
theorem thread (h : Rep count st queue) {t : ℕ} {b : Bool} (ht : st.thread t = .getting b) {s : Status M}
    (hs : ∀ m, s ≠ .handling m)
    (hleft : s = .left → st.mgr.shutdownFlag = true ∧ st.atShutdown.length ≤ st.taken.length) :
    Rep count { st with thread := Function.update st.thread t s } queue := by
  have hnone : ∀ m, st.thread t ≠ .handling m := fun m => by rw [ht]; simp
  refine { h with
    held := fun t' m => ?_
    byThread := fun t' => ?_
    left := fun t' ht' => ?_ }
  · rw [← h.held]
    rcases eq_or_ne t' t with rfl | hne
    · simp [hs, hnone]
    · simp only [Function.update_of_ne hne]
  · rcases eq_or_ne t' t with rfl | hne
    · rw [State.pending_of_ne (by simpa using hs), ← State.pending_of_ne hnone]
      exact h.byThread t'
    · simp only [State.pending, Function.update_of_ne hne]
      exact h.byThread t'
  · rcases eq_or_ne t' t with rfl | hne
    · simp only [Function.update_self] at ht'
      exact hleft ht'
    · simp only [Function.update_of_ne hne] at ht'
      exact h.left t' ht'

variable [DecidableEq M]

/-- A new message -/
theorem create (h : Rep count st queue) {msg : M} (hfree : st.place msg = .free) (args : IMsg) :
    Rep count (st.create msg args) queue := by
  have hnot : msg ∉ queue := h.not_mem_of_place (by rw [hfree]; simp)
  have hmap : queue.map (Function.update st.msgs msg args) = queue.map st.msgs := by
    refine List.map_congr_left fun m hm => Function.update_of_ne ?_ _ _
    rintro rfl
    exact hnot hm
  constructor
  case chain => exact h.chain.update hnot none
  case tail => exact h.tail
  case num => exact h.num
  case small => exact h.small
  case nodup => exact h.nodup
  case mem =>
    intro m
    rcases eq_or_ne m msg with rfl | hne
    · simp [State.create, hnot]
    · simp only [State.create, Function.update_of_ne hne]
      exact h.mem m
  case fresh =>
    intro m b hm
    rcases eq_or_ne m msg with rfl | hne
    · exact Function.update_self ..
    · simp only [State.create, Function.update_of_ne hne] at hm ⊢
      exact h.fresh m b hm
  case held =>
    intro t m
    rcases eq_or_ne m msg with rfl | hne
    · have hnone : st.thread t ≠ .handling m := by
        intro ht
        rw [(h.held t m).mp ht] at hfree
        cases hfree
      simp [State.create, hnone]
    · simp only [State.create, Function.update_of_ne hne]
      exact h.held t m
  case order =>
    show st.enqueued = _ ++ queue.map (Function.update st.msgs msg args)
    rw [hmap]
    exact h.order
  case byThread =>
    intro t
    have hpend : (st.create msg args).pending t = st.pending t := by
      refine State.pending_congr rfl fun m ht => Function.update_of_ne ?_ _ _
      exact ne_of_place ((h.held t m).mp ht) hfree (by simp)
    rw [hpend]
    exact h.byThread t
  case lt => exact h.lt
  case left => exact h.left
  case atShutdown => exact h.atShutdown

/-- A caller of `enqueue_incoming` falls asleep or is woken. -/
theorem caller (h : Rep count st queue) {msg : M} {b : Bool} (hm : st.place msg = .entering b) (b' : Bool) :
    Rep count { st with place := Function.update st.place msg (.entering b') } queue := by
  have hkeep : ∀ m p, p ≠ .entering b → p ≠ .entering b' →
      (Function.update st.place msg (.entering b') m = p ↔ st.place m = p) := by
    intro m p hp hp'
    rcases eq_or_ne m msg with rfl | hne
    · rw [Function.update_self, hm]
      exact ⟨fun heq => absurd heq.symm hp', fun heq => absurd heq.symm hp⟩
    · rw [Function.update_of_ne hne]
  refine { h with
    mem := fun m => ?_
    fresh := fun m b₁ hm₁ => ?_
    held := fun t m => ?_ }
  · rw [h.mem]
    exact (hkeep m .queued (by simp) (by simp)).symm
  · rcases eq_or_ne m msg with rfl | hne
    · exact h.fresh m b hm
    · simp only [Function.update_of_ne hne] at hm₁
      exact h.fresh m b₁ hm₁
  · rw [h.held]
    exact (hkeep m (.taken t) (by simp) (by simp)).symm

/-- A message at the end of the list, however the pointers came to it. -/
theorem append (h : Rep count st queue) {msg : M} {b : Bool} (hm : st.place msg = .entering b) {mgr : Manager M}
    (hchain : Chain mgr.next mgr.head (queue ++ [msg])) (htail : mgr.tail = some msg)
    (hnum : mgr.numMsgs = st.mgr.numMsgs + 1) (hsmall : st.mgr.numMsgs + 1 < amBufCount)
    (hflag : mgr.shutdownFlag = st.mgr.shutdownFlag)
    (hnext : ∀ m, st.place m ≠ .queued → mgr.next m = st.mgr.next m) :
    Rep count { st with
      mgr := mgr
      place := Function.update st.place msg .queued
      enqueued := st.enqueued ++ [st.msgs msg] } (queue ++ [msg]) := by
  have hnot : msg ∉ queue := h.not_mem_of_place (by rw [hm]; simp)
  constructor
  case chain => exact hchain
  case tail => exact fun _ => by simpa using htail
  case num =>
    show mgr.numMsgs = _
    rw [hnum, h.num, List.length_append, List.length_singleton]
    rfl
  case small =>
    show mgr.numMsgs < _
    rw [hnum]
    exact hsmall
  case nodup => exact List.nodup_append.mpr ⟨h.nodup, List.nodup_singleton msg, by
    rintro m hm' _ hsing rfl
    exact hnot (List.mem_singleton.mp hsing ▸ hm')⟩
  case mem =>
    intro m
    rcases eq_or_ne m msg with rfl | hne
    · simp
    · simp only [List.mem_append, List.mem_singleton, or_iff_left hne, Function.update_of_ne hne]
      exact h.mem m
  case fresh =>
    intro m b' hm'
    rcases eq_or_ne m msg with rfl | hne
    · simp at hm'
    · simp only [Function.update_of_ne hne] at hm'
      show mgr.next m = none
      rw [hnext m (by rw [hm']; simp)]
      exact h.fresh m b' hm'
  case held =>
    intro t m
    rw [h.held]
    rcases eq_or_ne m msg with rfl | hne
    · simp [hm]
    · simp only [Function.update_of_ne hne]
  case order =>
    show st.enqueued ++ [st.msgs msg] = _
    rw [h.order, List.map_append, List.append_assoc]
    rfl
  case byThread => exact h.byThread
  case lt => exact h.lt
  case left =>
    intro t ht
    show mgr.shutdownFlag = true ∧ _
    rw [hflag]
    exact h.left t ht
  case atShutdown => exact h.atShutdown.trans (List.prefix_append _ _)

/-- **Enqueueing** changes the list at its end. -/
theorem link (h : Rep count st queue) {msg : M} {b : Bool} (hm : st.place msg = .entering b)
    (hroom : st.mgr.full = false) :
    ∃ mgr, st.mgr.link msg = some mgr ∧
      Rep count { st with
          mgr := mgr
          place := Function.update st.place msg .queued
          enqueued := st.enqueued ++ [st.msgs msg] } (queue ++ [msg]) := by
  have hnot : msg ∉ queue := h.not_mem_of_place (by rw [hm]; simp)
  have hend : st.mgr.next msg = none := h.fresh msg b hm
  have hsmall : st.mgr.numMsgs + 1 < amBufCount := by
    have := of_decide_eq_false hroom
    omega
  by_cases hhead : st.mgr.head = none
  · obtain rfl : queue = [] := chain_none.mp (hhead ▸ h.chain)
    refine ⟨_, Manager.link_of_none hhead msg, h.append hm ⟨rfl, hend⟩ rfl ?_ hsmall rfl fun _ _ => rfl⟩
    -- `num_msgs` is set to 1, not counted up
    show (1 : ℤ) = st.mgr.numMsgs + 1
    rw [h.num]
    rfl
  · have hne : queue ≠ [] := by
      rintro rfl
      exact hhead h.chain
    obtain ⟨last, hlast⟩ : ∃ last, queue.getLast? = some last := ⟨_, List.getLast?_eq_some_getLast hne⟩
    have htail : st.mgr.tail = some last := (h.tail hne).trans hlast
    have hmem := (h.mem last).mp (List.mem_of_getLast? hlast)
    refine ⟨_, Manager.link_of_some hhead htail msg,
      h.append hm (h.chain.snoc h.nodup hlast hnot hend) rfl rfl hsmall rfl fun m hm' => ?_⟩
    refine Function.update_of_ne ?_ _ _
    rintro rfl
    exact hm' hmem

theorem takenBy_take (t' t : ℕ) (a : IMsg) (l : List (ℕ × IMsg)) :
    ((l ++ [(t, a)]).filter fun p => p.1 = t').map Prod.snd =
      (l.filter fun p => p.1 = t').map Prod.snd ++ if t = t' then [a] else [] := by
  rw [List.filter_append, List.map_append]
  by_cases heq : t = t' <;> simp [heq]

/-- **Taking** the first message. -/
theorem take (h : Rep count st queue) {t : ℕ} (hlt : t < count) {b : Bool} (ht : st.thread t = .getting b) {msg : M}
    (hhead : st.mgr.head = some msg) :
    ∃ queue', queue = msg :: queue' ∧
      Rep count { st with
          mgr := st.mgr.takeHead msg
          place := Function.update st.place msg (.taken t)
          thread := Function.update st.thread t (.handling msg)
          taken := st.taken ++ [(t, st.msgs msg)] } queue' := by
  obtain ⟨queue', rfl, hchain⟩ := chain_some.mp (hhead ▸ h.chain)
  obtain ⟨hnot, hnodup⟩ := List.nodup_cons.mp h.nodup
  have hmsg : st.place msg = .queued := (h.mem msg).mp List.mem_cons_self
  have hnone : ∀ m, st.thread t ≠ .handling m := fun m => by rw [ht]; simp
  have hnum := h.num
  rw [List.length_cons] at hnum
  refine ⟨queue', rfl, ?_⟩
  constructor
  case chain => exact hchain
  case tail =>
    intro hne
    show st.mgr.tail = _
    rw [h.tail (by simp), List.getLast?_cons_of_ne_nil hne]
  case num =>
    show st.mgr.numMsgs - 1 = _
    omega
  case small =>
    show st.mgr.numMsgs - 1 < _
    have := h.small
    omega
  case nodup => exact hnodup
  case mem =>
    intro m
    rcases eq_or_ne m msg with rfl | hne
    · simp [hnot]
    · simp only [Function.update_of_ne hne]
      rw [← h.mem, List.mem_cons, or_iff_right hne]
  case fresh =>
    intro m b' hm
    rcases eq_or_ne m msg with rfl | hne
    · simp at hm
    · simp only [Function.update_of_ne hne] at hm
      exact h.fresh m b' hm
  case held =>
    intro t' m
    rcases eq_or_ne m msg with rfl | hne
    · rcases eq_or_ne t' t with rfl | hne'
      · simp
      · simp only [Function.update_of_ne hne', Function.update_self, h.held, hmsg]
        simp [hne'.symm]
    · simp only [Function.update_of_ne hne]
      rw [← h.held]
      rcases eq_or_ne t' t with rfl | hne'
      · simp [hnone, hne.symm]
      · simp only [Function.update_of_ne hne']
  case order =>
    show st.enqueued = (st.taken ++ [(t, st.msgs msg)]).map Prod.snd ++ queue'.map st.msgs
    rw [h.order, List.map_append, List.append_assoc]
    rfl
  case byThread =>
    intro t'
    have hold := h.byThread t'
    simp only [State.takenBy] at hold ⊢
    rw [takenBy_take, hold]
    rcases eq_or_ne t' t with rfl | hne
    · rw [State.pending_of_ne hnone, State.pending_of_handling (Function.update_self ..), if_pos rfl, List.append_nil]
    · rw [if_neg hne.symm, List.append_nil]
      congr 1
      symm
      apply State.pending_congr
      · exact Function.update_of_ne hne _ _
      · exact fun _ _ => rfl
  case lt =>
    intro p hp
    rcases List.mem_append.mp hp with hp | hp
    · exact h.lt p hp
    · rw [List.mem_singleton.mp hp]
      exact hlt
  case left =>
    intro t' ht'
    rcases eq_or_ne t' t with rfl | hne
    · simp at ht'
    · simp only [Function.update_of_ne hne] at ht'
      obtain ⟨hflag, hlen⟩ := h.left t' ht'
      refine ⟨hflag, ?_⟩
      show st.atShutdown.length ≤ (st.taken ++ _).length
      rw [List.length_append]
      omega
  case atShutdown => exact h.atShutdown

/-- **Handling** the message that a thread took, which is freed. -/
theorem handle (h : Rep count st queue) {t : ℕ} {msg : M} (ht : st.thread t = .handling msg) :
    Rep count (st.handle t msg) queue := by
  have hmsg : st.place msg = .taken t := (h.held t msg).mp ht
  constructor
  case chain => exact h.chain
  case tail => exact h.tail
  case num => exact h.num
  case small => exact h.small
  case nodup => exact h.nodup
  case mem =>
    intro m
    rw [h.mem]
    rcases eq_or_ne m msg with rfl | hne
    · simp [State.handle, hmsg]
    · simp only [State.handle, Function.update_of_ne hne]
  case fresh =>
    intro m b hm
    rcases eq_or_ne m msg with rfl | hne
    · simp [State.handle] at hm
    · simp only [State.handle, Function.update_of_ne hne] at hm
      exact h.fresh m b hm
  case held =>
    intro t' m
    have hold := h.held t' m
    rcases eq_or_ne m msg with rfl | hne
    · rcases eq_or_ne t' t with rfl | hne'
      · simp [State.handle]
      · simp only [State.handle, Function.update_of_ne hne', Function.update_self, hold, hmsg]
        simp [hne'.symm]
    · simp only [State.handle, Function.update_of_ne hne, ← hold]
      rcases eq_or_ne t' t with rfl | hne'
      · simp [ht, hne.symm]
      · simp only [Function.update_of_ne hne']
  case order => exact h.order
  case byThread =>
    intro t'
    have hold := h.byThread t'
    show st.takenBy t' = _
    rw [hold]
    rcases eq_or_ne t' t with rfl | hne
    · have hdone : (st.handle t' msg).pending t' = [] := State.pending_of_ne fun m => by simp [State.handle]
      rw [State.pending_of_handling ht, hdone, List.append_nil]
      exact (Function.update_self t' _ st.handled).symm
    · have hsame : (st.handle t msg).pending t' = st.pending t' :=
        State.pending_congr (Function.update_of_ne hne _ _) fun _ _ => rfl
      rw [hsame]
      congr 1
      exact (Function.update_of_ne hne _ _).symm
  case lt => exact h.lt
  case left =>
    intro t' ht'
    rcases eq_or_ne t' t with rfl | hne
    · simp [State.handle] at ht'
    · simp only [State.handle, Function.update_of_ne hne] at ht'
      exact h.left t' ht'
  case atShutdown => exact h.atShutdown

omit [DecidableEq M] in
/-- Setting `shutdown_flag` -/
theorem shutdown (h : Rep count st queue) (hflag : st.mgr.shutdownFlag = false) :
    Rep count { st with mgr := { st.mgr with shutdownFlag := true }, atShutdown := st.enqueued } queue := by
  refine { h with
    left := fun t ht => ?_
    atShutdown := List.prefix_rfl }
  -- nobody has left yet
  rw [(h.left t ht).1] at hflag
  cases hflag

end Rep

/-! ## Steps and runs -/

section Runs

variable [DecidableEq M] {count : ℕ} {st st' : State M} {queue : List M}

/-- **One step** keeps the list and loses no wake-up. -/
theorem step_inv (h : Rep count st queue) (hw : Waiting count st) {e : Event M} (hstep : step count st e = some st') :
    ∃ queue', Rep count st' queue' ∧ Waiting count st' := by
  cases e with
  | create msg args =>
    obtain ⟨hfree, heq⟩ := Option.ite_none_right_eq_some.mp hstep
    obtain rfl := Option.some.inj heq
    refine ⟨queue, h.create hfree args, hw.mono ⟨rfl, rfl, rfl⟩ ?_ (fun _ ht => ht) fun _ ht => ht⟩
    exact fun m hm => eq_of_update_eq hm (by simp)
  | enqueue msg =>
    obtain ⟨hm, heq⟩ := Option.ite_none_right_eq_some.mp hstep
    cases hfull : st.mgr.full with
    | true =>
      rw [State.enqueue, if_pos hfull] at heq
      obtain rfl := Option.some.inj heq
      exact ⟨queue, h.caller hm true, ⟨hw.thread, fun _ _ _ _ _ => hfull⟩⟩
    | false =>
      obtain ⟨mgr, hlink, hrep⟩ := h.link hm hfull
      rw [State.enqueue, if_neg (by simp [hfull]), hlink] at heq
      obtain rfl := Option.some.inj heq
      exact ⟨_, hrep.broadcast, Waiting.broadcast count _⟩
  | get t =>
    obtain ⟨⟨hlt, ht⟩, heq⟩ := Option.ite_none_right_eq_some.mp hstep
    obtain rfl := Option.some.inj heq
    have hnleft : st.thread t ≠ .left := by
      rw [ht]
      simp
    cases hhead : st.mgr.head with
    | none =>
      obtain rfl : queue = [] := chain_none.mp (hhead ▸ h.chain)
      cases hflag : st.mgr.shutdownFlag with
      | true =>
        rw [State.get_of_shutdown t hhead hflag]
        refine ⟨[], h.thread ht (by simp) fun _ => ⟨hflag, h.all_taken⟩, hw.mono ⟨rfl, rfl, rfl⟩ (fun _ hm => hm) ?_ ?_⟩
        · exact fun t' ht' => eq_of_update_eq ht' (by simp)
        · exact fun t' ht' => update_eq_of_eq ht' hnleft _
      | false =>
        rw [State.get_of_empty t hhead hflag]
        refine ⟨[], h.thread ht (by simp) (by simp), ⟨fun _ _ => ⟨hhead, hflag⟩, fun m t' hm hlt' hne => ?_⟩⟩
        exact hw.caller m t' hm hlt' fun hl => hne (update_eq_of_eq hl hnleft _)
    | some msg =>
      rw [State.get_of_some t hhead]
      obtain ⟨queue', rfl, hrep⟩ := h.take hlt ht hhead
      exact ⟨queue', hrep.broadcast, Waiting.broadcast count _⟩
  | handle t =>
    simp only [step] at hstep
    split at hstep
    · rename_i msg ht
      obtain rfl := Option.some.inj hstep
      refine ⟨queue, h.handle ht, hw.mono ⟨rfl, rfl, rfl⟩ ?_ ?_ ?_⟩
      · exact fun m hm => eq_of_update_eq hm (by simp)
      · exact fun t' ht' => eq_of_update_eq ht' (by simp)
      · exact fun t' ht' => update_eq_of_eq ht' (by rw [ht]; simp) _
    · cases hstep
  | shutdown =>
    obtain rfl := Option.some.inj hstep
    cases hflag : st.mgr.shutdownFlag with
    | true =>
      rw [State.shutdown, if_pos hflag]
      exact ⟨queue, h, hw⟩
    | false =>
      rw [State.shutdown, if_neg (by simp [hflag])]
      exact ⟨queue, (h.shutdown hflag).broadcast, Waiting.broadcast count _⟩
  | joined =>
    obtain ⟨⟨-, hleft⟩, heq⟩ := Option.ite_none_right_eq_some.mp hstep
    obtain rfl := Option.some.inj heq
    exact ⟨queue, { h with }, ⟨hw.thread, fun m t _ hlt hne => absurd (hleft t hlt) hne⟩⟩
  | wakeMsg msg =>
    obtain ⟨hm, heq⟩ := Option.ite_none_right_eq_some.mp hstep
    obtain rfl := Option.some.inj heq
    refine ⟨queue, h.caller hm false, hw.mono ⟨rfl, rfl, rfl⟩ ?_ (fun _ ht => ht) fun _ ht => ht⟩
    exact fun m hm => eq_of_update_eq hm (by simp)
  | wakeThread t =>
    obtain ⟨ht, heq⟩ := Option.ite_none_right_eq_some.mp hstep
    obtain rfl := Option.some.inj heq
    refine ⟨queue, h.thread ht (by simp) (by simp), hw.mono ⟨rfl, rfl, rfl⟩ (fun _ hm => hm) ?_ ?_⟩
    · exact fun t' ht' => eq_of_update_eq ht' (by simp)
    · exact fun t' ht' => update_eq_of_eq ht' (by rw [ht]; simp) _

/-- **Leaving** takes the flag and an empty list. -/
theorem step_left {e : Event M} (hstep : step count st e = some st') {t : ℕ} (hne : st.thread t ≠ .left)
    (hleft : st'.thread t = .left) : st.mgr.shutdownFlag = true ∧ st.mgr.head = none := by
  cases e with
  | create msg args =>
    obtain ⟨-, heq⟩ := Option.ite_none_right_eq_some.mp hstep
    obtain rfl := Option.some.inj heq
    exact absurd hleft hne
  | enqueue msg =>
    obtain ⟨-, heq⟩ := Option.ite_none_right_eq_some.mp hstep
    unfold State.enqueue at heq
    split at heq
    · obtain rfl := Option.some.inj heq
      exact absurd hleft hne
    · obtain ⟨mgr, -, heq⟩ := Option.bind_eq_some_iff.mp heq
      obtain rfl := Option.some.inj heq
      exact absurd (Status.woken_eq_left.mp hleft) hne
  | get t' =>
    obtain ⟨-, heq⟩ := Option.ite_none_right_eq_some.mp hstep
    obtain rfl := Option.some.inj heq
    cases hhead : st.mgr.head with
    | none =>
      cases hflag : st.mgr.shutdownFlag with
      | true => exact ⟨rfl, rfl⟩
      | false =>
        rw [State.get_of_empty t' hhead hflag] at hleft
        exact absurd (eq_of_update_eq hleft (by simp)) hne
    | some msg =>
      rw [State.get_of_some t' hhead] at hleft
      exact absurd (eq_of_update_eq (Status.woken_eq_left.mp hleft) (by simp)) hne
  | handle t' =>
    simp only [step] at hstep
    split at hstep
    · obtain rfl := Option.some.inj hstep
      exact absurd (eq_of_update_eq hleft (by simp)) hne
    · cases hstep
  | shutdown =>
    obtain rfl := Option.some.inj hstep
    unfold State.shutdown at hleft
    split at hleft
    · exact absurd hleft hne
    · exact absurd (Status.woken_eq_left.mp hleft) hne
  | joined =>
    obtain ⟨-, heq⟩ := Option.ite_none_right_eq_some.mp hstep
    obtain rfl := Option.some.inj heq
    exact absurd hleft hne
  | wakeMsg msg =>
    obtain ⟨-, heq⟩ := Option.ite_none_right_eq_some.mp hstep
    obtain rfl := Option.some.inj heq
    exact absurd hleft hne
  | wakeThread t' =>
    obtain ⟨-, heq⟩ := Option.ite_none_right_eq_some.mp hstep
    obtain rfl := Option.some.inj heq
    exact absurd (eq_of_update_eq hleft (by simp)) hne

/-- A thread that is awake takes the first message. -/
theorem get_first {msg : M} (h : Rep count st (msg :: queue)) {t : ℕ} (hlt : t < count)
    (ht : st.thread t = .getting false) :
    ∃ st', step count st (.get t) = some st' ∧ Rep count st' queue ∧ Waiting count st' ∧
      st'.enqueued = st.enqueued ∧ st'.thread t = .handling msg := by
  have hhead : st.mgr.head = some msg := h.chain.1
  obtain ⟨_, heq, hrep⟩ := h.take hlt ht hhead
  obtain ⟨-, rfl⟩ := List.cons.inj heq
  refine ⟨st.get t, if_pos ⟨hlt, ht⟩, ?_⟩
  rw [State.get_of_some t hhead]
  refine ⟨hrep.broadcast, Waiting.broadcast count _, rfl, ?_⟩
  show (Function.update st.thread t (.handling msg) t).woken = _
  rw [Function.update_self]
  rfl

/-- **A thread in its loop empties the list**, by itself if it has to. -/
theorem serve {t : ℕ} (hlt : t < count) (h : Rep count st queue) (hw : Waiting count st) (hne : st.thread t ≠ .left) :
    ∃ es st', (∀ e ∈ es, e = .get t ∨ e = .handle t) ∧ run (step count) st es = some st' ∧
      st'.taken.map Prod.snd = st.enqueued := by
  induction queue generalizing st with
  | nil => exact ⟨[], st, by simp, rfl, by simpa using h.order.symm⟩
  | cons msg queue ih =>
    -- once it is awake and in `get_messages`
    have hget : ∀ st : State M, Rep count st (msg :: queue) → st.thread t = .getting false →
        ∃ es st', (∀ e ∈ es, e = .get t ∨ e = .handle t) ∧ run (step count) st es = some st' ∧
          st'.taken.map Prod.snd = st.enqueued := by
      intro st h ht
      obtain ⟨st₁, hstep, hrep, hwait, henq, hthread⟩ := get_first h hlt ht
      obtain ⟨es, st', hes, hrun, htaken⟩ := ih hrep hwait (by rw [hthread]; simp)
      refine ⟨.get t :: es, st', ?_, run_cons_eq_some.mpr ⟨st₁, hstep, hrun⟩, htaken.trans henq⟩
      exact List.forall_mem_cons.mpr ⟨.inl rfl, hes⟩
    cases ht : st.thread t with
    | getting asleep =>
      cases asleep with
      | false => exact hget st h ht
      | true =>
        have hhead := h.chain.1
        rw [(hw.thread t ht).1] at hhead
        cases hhead
    | handling m =>
      obtain ⟨es, st', hes, hrun, htaken⟩ := hget (st.handle t m) (h.handle ht) (Function.update_self ..)
      refine ⟨.handle t :: es, st', ?_, run_cons_eq_some.mpr ⟨st.handle t m, ?_, hrun⟩, htaken⟩
      · exact List.forall_mem_cons.mpr ⟨.inr rfl, hes⟩
      · simp only [step, ht]
    | left => exact absurd ht hne

/-- An awake caller of `enqueue_incoming` gets to the unlock or to the wait: no null `tail` is followed. -/
theorem enqueue_isSome (h : Rep count st queue) {msg : M} (hm : st.place msg = .entering false) :
    (step count st (.enqueue msg)).isSome := by
  simp only [step, if_pos hm, State.enqueue]
  cases hfull : st.mgr.full with
  | true => rfl
  | false =>
    obtain ⟨mgr, hlink, -⟩ := h.link hm hfull
    simp [hlink]

/-- What the queue guarantees in a state. -/
structure Fifo (count : ℕ) (st : State M) : Prop where
  /-- The list from `head` to `tail` has `num_msgs` messages, and is what was enqueued and is not taken. -/
  list : ∃ queue : List M, Chain st.mgr.next st.mgr.head queue ∧ (queue ≠ [] → st.mgr.tail = queue.getLast?) ∧
    st.mgr.numMsgs = queue.length ∧ st.mgr.numMsgs < amBufCount ∧
    st.enqueued = st.taken.map Prod.snd ++ queue.map st.msgs
  /-- A message is taken by a handler thread, which handles it once. -/
  once : (∀ p ∈ st.taken, p.1 < count) ∧ ∀ t, st.takenBy t = st.handled t ++ st.pending t
  /-- A caller is not stopped by a null pointer, and is not asleep without a reason. -/
  caller : ∀ msg, (st.place msg = .entering false → (step count st (.enqueue msg)).isSome) ∧
    ∀ t < count, st.thread t ≠ .left → st.place msg = .entering true → st.mgr.full = true
  /-- As long as a thread is in its loop, whatever is enqueued will be taken. -/
  served : ∀ t < count, st.thread t ≠ .left → ∃ es st', (∀ e ∈ es, e = .get t ∨ e = .handle t) ∧
    run (step count) st es = some st' ∧ st'.taken.map Prod.snd = st.enqueued
  /-- A thread leaves only after the shutdown and when the list is empty. -/
  leaves : ∀ t e st', step count st e = some st' → st.thread t ≠ .left → st'.thread t = .left →
    st.mgr.shutdownFlag = true ∧ st.mgr.head = none
  /-- When all have left, what was enqueued before the shutdown has been handled. -/
  drained : 0 < count → (∀ t < count, st.thread t = .left) →
    st.atShutdown <+: st.taken.map Prod.snd ∧ ∀ t < count, st.handled t = st.takenBy t

theorem Rep.fifo (h : Rep count st queue) (hw : Waiting count st) : Fifo count st := by
  constructor
  case list => exact ⟨queue, h.chain, h.tail, h.num, h.small, h.order⟩
  case once => exact ⟨h.lt, h.byThread⟩
  case caller => exact fun msg => ⟨enqueue_isSome h, fun t hlt hne hm => hw.caller msg t hm hlt hne⟩
  case served => exact fun t hlt hne => serve hlt h hw hne
  case leaves => exact fun t e st' hstep hne hleft => step_left hstep hne hleft
  case drained =>
    intro hpos hall
    constructor
    · -- both are prefixes of what was enqueued
      have htaken : st.taken.map Prod.snd <+: st.enqueued := ⟨_, h.order.symm⟩
      refine List.prefix_of_prefix_length_le h.atShutdown htaken ?_
      rw [List.length_map]
      exact (h.left 0 (hall 0 hpos)).2
    · intro t hlt
      have hnone : st.pending t = [] := State.pending_of_ne fun m => by rw [hall t hlt]; simp
      rw [h.byThread, hnone, List.append_nil]

/-- **The queue is first in first out**, in every run of every number of threads. -/
theorem queue_correct {tail : Option M} {msgs : M → IMsg} {es : List (Event M)}
    (hrun : run (step count) (.init count tail msgs) es = some st) : Fifo count st := by
  obtain ⟨queue, h, hw⟩ := run_inv (I := fun st => ∃ queue, Rep count st queue ∧ Waiting count st)
    (fun _ _ _ hI hstep => by
      obtain ⟨queue, h, hw⟩ := hI
      exact step_inv h hw hstep)
    ⟨[], Rep.init count tail msgs, Waiting.init count tail msgs⟩ hrun
  exact h.fifo hw

/-- Two threads and two messages; the first thread sleeps at the start, the second is woken by the shutdown. -/
theorem queue_correct_two_threads :
    ∃ st, run (step 2) (.init 2 none fun _ => ⟨0, false, 0, 0⟩)
        [.get 0, .create 1 ⟨3, false, 64, 0⟩, .enqueue 1, .get 0, .get 1, .create 2 ⟨5, true, 128, 4096⟩, .enqueue 2,
          .shutdown, .get 1, .handle 0, .get 0, .handle 1, .get 1] = some st ∧
      st.atShutdown = [⟨3, false, 64, 0⟩, ⟨5, true, 128, 4096⟩] ∧ (∀ t < 2, st.thread t = .left) ∧ Fifo 2 st := by
  obtain ⟨st, hrun, hat, hleft⟩ : ∃ st, run (step 2) (.init 2 none fun _ => ⟨0, false, 0, 0⟩)
        [.get 0, .create 1 ⟨3, false, 64, 0⟩, .enqueue 1, .get 0, .get 1, .create 2 ⟨5, true, 128, 4096⟩, .enqueue 2,
          .shutdown, .get 1, .handle 0, .get 0, .handle 1, .get 1] = some st ∧
      st.atShutdown = [⟨3, false, 64, 0⟩, ⟨5, true, 128, 4096⟩] ∧ ∀ t < 2, st.thread t = .left :=
    ⟨_, rfl, rfl, by decide⟩
  exact ⟨st, hrun, hat, hleft, queue_correct hrun⟩

end Runs

end Realm.IncomingQueue

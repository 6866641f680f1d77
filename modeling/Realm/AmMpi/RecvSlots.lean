import Mathlib.Data.List.Range
import Mathlib.Logic.Function.Basic
import Realm.Lib.Run

/-!
# Realm.AmMpi.RecvSlots — receive buffers of the MPI build with handler threads (`macros_ammpi/am_mpi.def`)

The polling thread receives into one of `AM_BUF_COUNT` slots, hands the message with its slot to the
`Incoming_Manager` (`use_mpi.def`), and posts the next receive in the slot that follows.  A handler thread takes one
message at a time and reads its slot until the handler returns.  `enqueue_incoming` waits when there are too many
messages, but what it counts says nothing about which slots are in use.

* `step`: the steps of the polling thread and of the handler threads.
* `Safe`: the slot in which a receive is posted belongs to no message.
* `Consecutive`: with one handler the slots in use follow each other.
* `slots_safe_iff`: every run is safe exactly when there is one handler thread.
-/

namespace Realm.RecvSlots

open Lib

def AM_BUF_COUNT : ℕ := 128

/-- Where the polling thread is: a receive is posted, a message has been received and is not yet in the queue, or it
is in the queue and the next receive is still to be posted. -/
inductive Poll
  | posted
  | received
  | enqueued
deriving DecidableEq

/-- A message is named by the slot of its `buf_recv`.  `bufRecv` is the slot that `buf_recv` points to, `queue` goes
from `head` to `tail`, and `handlers` has the message whose handler a thread is running. -/
structure State where
  poll : Poll
  bufRecv : ℕ
  iBufRecv : ℕ
  queue : List ℕ
  numMsgs : ℕ
  handlers : ℕ → Option ℕ

/-- After `AMPoll_init`. -/
def State.init : State := ⟨.posted, 0, 1, [], 0, fun _ => none⟩

inductive Event
  | recv (null : Bool)
  | enqueue
  | post
  | take (thread : ℕ)
  | finish (thread : ℕ)

/-- The steps with `T` handler threads; `none` if a thread has to wait. -/
def step (T : ℕ) (st : State) : Event → Option State
  | .recv null =>
    -- after a message for `AM_NULL_HANDLER` the receive is posted again in the same slot
    if st.poll = .posted then some (if null then st else { st with poll := .received }) else none
  | .enqueue =>
    if st.poll = .received ∧ ¬ st.numMsgs + T + 1 ≥ AM_BUF_COUNT then
      some { st with
        poll := .enqueued
        queue := st.queue ++ [st.bufRecv]
        numMsgs := if st.queue = [] then 1 else st.numMsgs + 1 }
    else none
  | .post =>
    if st.poll = .enqueued then
      some { st with poll := .posted, bufRecv := st.iBufRecv, iBufRecv := (st.iBufRecv + 1) % AM_BUF_COUNT }
    else none
  | .take thread =>
    if thread < T ∧ st.handlers thread = none then
      match st.queue with
      | [] => none
      | msg :: queue => some { st with
          queue := queue
          numMsgs := st.numMsgs - 1
          handlers := Function.update st.handlers thread (some msg) }
    else none
  | .finish thread =>
    if (st.handlers thread).isSome then some { st with handlers := Function.update st.handlers thread none } else none

/-- The slot in which a receive is posted is neither that of a queued message nor that of one being handled. -/
def Safe (st : State) : Prop :=
  st.poll = .posted → st.bufRecv ∉ st.queue ∧ ∀ t, st.handlers t ≠ some st.bufRecv

/-! ## One handler thread -/

/-- The slots in use, oldest message first, when only the thread 0 handles messages. -/
def State.inUse (st : State) : List ℕ := (st.handlers 0).toList ++ st.queue

/-- `n` consecutive slots, the first being that of the message number `a`. -/
def slotsFrom (a n : ℕ) : List ℕ := (List.range' a n).map (· % AM_BUF_COUNT)

theorem slotsFrom_succ (a n : ℕ) : slotsFrom a (n + 1) = slotsFrom a n ++ [(a + n) % AM_BUF_COUNT] := by
  rw [slotsFrom, List.range'_1_concat, List.map_append, List.map_singleton, slotsFrom]

theorem slotsFrom_cons (a n : ℕ) : slotsFrom a (n + 1) = a % AM_BUF_COUNT :: slotsFrom (a + 1) n := by
  rw [slotsFrom, List.range'_succ, List.map_cons, slotsFrom]

@[simp] theorem length_slotsFrom (a n : ℕ) : (slotsFrom a n).length = n := by
  simp [slotsFrom]

/-- Fewer slots than there are do not come round to the one that follows them. -/
theorem next_not_mem {a n : ℕ} (hn : n < AM_BUF_COUNT) : (a + n) % AM_BUF_COUNT ∉ slotsFrom a n := by
  intro hmem
  obtain ⟨k, hk, heq⟩ := List.mem_map.mp hmem
  obtain ⟨h1, h2⟩ := List.mem_range'_1.mp hk
  unfold AM_BUF_COUNT at hn heq
  omega

/-- The invariant of one handler: the messages in use are the latest ones, and they are fewer than there are slots. -/
structure Consecutive (st : State) (a n : ℕ) : Prop where
  inUse : st.inUse = slotsFrom a n
  others : ∀ t, t ≠ 0 → st.handlers t = none
  numMsgs : st.numMsgs = st.queue.length
  room : n < AM_BUF_COUNT
  bufRecv : st.bufRecv = (if st.poll = .enqueued then a + n - 1 else a + n) % AM_BUF_COUNT
  iBufRecv : st.iBufRecv = (if st.poll = .enqueued then a + n else a + n + 1) % AM_BUF_COUNT
  pos : st.poll = .enqueued → 0 < a + n

theorem Consecutive.safe {st : State} {a n : ℕ} (h : Consecutive st a n) : Safe st := by
  intro hposted
  have hbuf := h.bufRecv
  rw [if_neg (by simp [hposted])] at hbuf
  have hnot : st.bufRecv ∉ st.inUse := by
    rw [h.inUse, hbuf]
    exact next_not_mem h.room
  simp only [State.inUse, List.mem_append, not_or] at hnot
  refine ⟨hnot.2, fun t ht => ?_⟩
  rcases eq_or_ne t 0 with rfl | hne
  · exact hnot.1 (by simp [ht])
  · rw [h.others t hne] at ht
    cases ht

theorem consecutive_init : Consecutive State.init 0 0 :=
  ⟨rfl, fun _ _ => rfl, rfl, by decide, rfl, rfl, by simp [State.init]⟩

section OneHandler

variable {st st' : State} {a n : ℕ}

theorem Consecutive.length_eq (h : Consecutive st a n) : (st.handlers 0).toList.length + st.queue.length = n := by
  have hlen := congrArg List.length h.inUse
  rwa [State.inUse, List.length_append, length_slotsFrom] at hlen

theorem Consecutive.enqueue (h : Consecutive st a n) (hpoll : st.poll = .received)
    (hwait : st.numMsgs + 1 + 1 < AM_BUF_COUNT) :
    Consecutive { st with
      poll := .enqueued
      queue := st.queue ++ [st.bufRecv]
      numMsgs := if st.queue = [] then 1 else st.numMsgs + 1 } a (n + 1) := by
  have hbuf := h.bufRecv
  have hi := h.iBufRecv
  rw [if_neg (by simp [hpoll])] at hbuf hi
  constructor
  case inUse => rw [slotsFrom_succ, ← h.inUse, ← hbuf, State.inUse, State.inUse, List.append_assoc]
  case others => exact h.others
  case numMsgs =>
    have hnum := h.numMsgs
    simp only [List.length_append, List.length_singleton]
    split
    · simp_all
    · omega
  case room =>
    -- the handler has at most one message, and the queue was not full
    have hlen := h.length_eq
    have hnum := h.numMsgs
    have hone : (st.handlers 0).toList.length ≤ 1 := by
      cases st.handlers 0 <;> simp
    omega
  case bufRecv => exact hbuf
  case iBufRecv => exact hi
  case pos => exact fun _ => Nat.succ_pos _

theorem Consecutive.post (h : Consecutive st a n) (hpoll : st.poll = .enqueued) :
    Consecutive { st with
      poll := .posted
      bufRecv := st.iBufRecv
      iBufRecv := (st.iBufRecv + 1) % AM_BUF_COUNT } a n := by
  have hi := h.iBufRecv
  rw [if_pos hpoll] at hi
  refine ⟨h.inUse, h.others, h.numMsgs, h.room, hi, ?_, fun hp => by cases hp⟩
  show (st.iBufRecv + 1) % AM_BUF_COUNT = (a + n + 1) % AM_BUF_COUNT
  rw [hi, Nat.mod_add_mod]

theorem Consecutive.take (h : Consecutive st a n) (hidle : st.handlers 0 = none) {msg : ℕ} {queue : List ℕ}
    (hqueue : st.queue = msg :: queue) :
    Consecutive { st with
      queue := queue
      numMsgs := st.numMsgs - 1
      handlers := Function.update st.handlers 0 (some msg) } a n := by
  refine ⟨?_, ?_, ?_, h.room, h.bufRecv, h.iBufRecv, h.pos⟩
  · rw [← h.inUse, State.inUse, State.inUse, hidle, hqueue]
    simp
  · intro t ht
    simp only [Function.update_of_ne ht]
    exact h.others t ht
  · have hnum := h.numMsgs
    rw [hqueue, List.length_cons] at hnum
    simp only
    omega

theorem Consecutive.finish (h : Consecutive st a n) {msg : ℕ} (hbusy : st.handlers 0 = some msg) :
    Consecutive { st with handlers := Function.update st.handlers 0 none } (a + 1) (n - 1) := by
  obtain ⟨k, rfl⟩ : ∃ k, n = k + 1 := by
    have hlen := h.length_eq
    rw [hbusy] at hlen
    exact ⟨n - 1, by simp at hlen; omega⟩
  have hsum : a + 1 + (k + 1 - 1) = a + (k + 1) := by omega
  have huse := h.inUse
  rw [slotsFrom_cons, State.inUse, hbusy, Option.toList_some, List.singleton_append, List.cons.injEq] at huse
  refine ⟨?_, ?_, h.numMsgs, ?_, ?_, ?_, ?_⟩
  · simpa [State.inUse] using huse.2
  · intro t ht
    simp only [Function.update_of_ne ht]
    exact h.others t ht
  · have := h.room
    omega
  · rw [hsum]
    exact h.bufRecv
  · rw [hsum]
    exact h.iBufRecv
  · rw [hsum]
    exact h.pos

/-- With one handler every step keeps the slots in use consecutive. -/
theorem Consecutive.step {e : Event} (h : Consecutive st a n) (hs : RecvSlots.step 1 st e = some st') :
    ∃ a n, Consecutive st' a n := by
  cases e with
  | recv null =>
    simp only [RecvSlots.step] at hs
    split at hs
    · rename_i hpoll
      obtain rfl := Option.some.inj hs
      cases null with
      | true => exact ⟨a, n, h⟩
      | false =>
        have hbuf := h.bufRecv
        have hi := h.iBufRecv
        rw [if_neg (by simp [hpoll])] at hbuf hi
        exact ⟨a, n, h.inUse, h.others, h.numMsgs, h.room, hbuf, hi, fun hp => by cases hp⟩
    · simp at hs
  | enqueue =>
    simp only [RecvSlots.step] at hs
    split at hs
    · rename_i hgo
      obtain rfl := Option.some.inj hs
      exact ⟨a, n + 1, h.enqueue hgo.1 (by omega)⟩
    · simp at hs
  | post =>
    simp only [RecvSlots.step] at hs
    split at hs
    · rename_i hpoll
      obtain rfl := Option.some.inj hs
      exact ⟨a, n, h.post hpoll⟩
    · simp at hs
  | take thread =>
    simp only [RecvSlots.step] at hs
    split at hs
    · rename_i hidle
      obtain rfl : thread = 0 := by omega
      split at hs
      · simp at hs
      · rename_i msg queue hqueue
        obtain rfl := Option.some.inj hs
        exact ⟨a, n, h.take hidle.2 hqueue⟩
    · simp at hs
  | finish thread =>
    simp only [RecvSlots.step] at hs
    split at hs
    · rename_i hbusy
      obtain ⟨msg, hmsg⟩ := Option.isSome_iff_exists.mp hbusy
      obtain rfl : thread = 0 := by
        by_contra hne
        rw [h.others thread hne] at hmsg
        cases hmsg
      obtain rfl := Option.some.inj hs
      exact ⟨a + 1, n - 1, h.finish hmsg⟩
    · simp at hs

end OneHandler

/-! ## Two handler threads -/

/-- One message is received, and handled by the thread 1. -/
def round : List Event := [.recv false, .enqueue, .post, .take 1, .finish 1]

/-- The thread 0 takes the first message and does not return from its handler, while the thread 1 handles `k` more. -/
def overtake (k : ℕ) : List Event := [.recv false, .enqueue, .post, .take 0] ++ (List.replicate k round).flatten

/-- The state after `overtake k`. -/
def overtaken (k : ℕ) : State where
  poll := .posted
  bufRecv := (k + 1) % AM_BUF_COUNT
  iBufRecv := (k + 2) % AM_BUF_COUNT
  queue := []
  numMsgs := 0
  handlers := Function.update (fun _ => none) 0 (some 0)

section TwoHandlers

variable {T : ℕ}

theorem run_round (h2 : 2 ≤ T) (hT : T + 1 < AM_BUF_COUNT) (k : ℕ) :
    run (step T) (overtaken k) round = some (overtaken (k + 1)) := by
  have h1 : 1 < T := by omega
  have hthread : Function.update (Function.update (fun _ => none) 0 (some 0)) 1 (none : Option ℕ) =
      Function.update (fun _ => none) 0 (some 0) := by
    apply Function.update_eq_self_iff.mpr
    rfl
  simp [round, run_cons, step, overtaken, hT, h1, hthread, Nat.add_assoc]

theorem run_overtake (h2 : 2 ≤ T) (hT : T + 1 < AM_BUF_COUNT) (k : ℕ) :
    run (step T) State.init (overtake k) = some (overtaken k) := by
  have hrounds : ∀ k, run (step T) (overtaken 0) (List.replicate k round).flatten = some (overtaken k) := by
    intro k
    induction k with
    | zero => rfl
    | succ k ih =>
      rw [List.replicate_succ', List.flatten_append, run_append, ih, List.flatten_singleton, Option.bind_some]
      exact run_round h2 hT k
  have hfirst : run (step T) State.init [.recv false, .enqueue, .post, .take 0] = some (overtaken 0) := by
    have h0 : 0 < T := by omega
    simp [run_cons, step, State.init, overtaken, hT, h0, show 1 % AM_BUF_COUNT = 1 from rfl]
  rw [overtake, run_append, hfirst, Option.bind_some, hrounds]

/-- **After as many messages as there are slots** the next receive is posted in the slot of the first message, which
is still being handled. -/
theorem not_safe_overtake (h2 : 2 ≤ T) (hT : T + 1 < AM_BUF_COUNT) :
    ¬ Always (step T) Safe State.init (overtake (AM_BUF_COUNT - 1)) := by
  intro h
  have hsafe := h _ _ List.prefix_rfl (run_overtake h2 hT (AM_BUF_COUNT - 1))
  exact (hsafe rfl).2 0 rfl

end TwoHandlers

/-- **Receive slots are not reused while in use**, in every run, exactly when there is one handler thread. -/
theorem slots_safe_iff (T : ℕ) (h1 : 1 ≤ T) (hT : T < AM_BUF_COUNT - 2) :
    (∀ as, Always (step T) Safe State.init as) ↔ T = 1 := by
  constructor
  · intro h
    by_contra hne
    exact not_safe_overtake (by omega) (by omega) (h _)
  · rintro rfl as pre st - hrun
    have hstep : ∀ st e st', (∃ a n, Consecutive st a n) → step 1 st e = some st' → ∃ a n, Consecutive st' a n := by
      rintro st e st' ⟨a, n, hI⟩ hs
      exact hI.step hs
    obtain ⟨a, n, hst⟩ := run_inv hstep ⟨0, 0, consecutive_init⟩ hrun
    exact hst.safe

/-- A handler is slow while the polling thread goes on. -/
theorem slots_safe_one_handler :
    ∃ st, run (step 1) State.init [.recv false, .enqueue, .post, .take 0, .recv false, .enqueue, .post] = some st ∧
      st.bufRecv = 2 ∧ st.queue = [1] ∧ st.handlers 0 = some 0 ∧ Safe st := by
  obtain ⟨st, hrun, hrest⟩ :
      ∃ st, run (step 1) State.init [.recv false, .enqueue, .post, .take 0, .recv false, .enqueue, .post] = some st ∧
        st.bufRecv = 2 ∧ st.queue = [1] ∧ st.handlers 0 = some 0 := ⟨_, rfl, rfl, rfl, rfl⟩
  have hsafe := (slots_safe_iff 1 (by decide) (by decide)).mpr rfl _ _ _ List.prefix_rfl hrun
  exact ⟨st, hrun, hrest.1, hrest.2.1, hrest.2.2, hsafe⟩

/-- **Two handlers**: one of them is overtaken by the other. -/
theorem not_safe_two_handlers : ¬ ∀ as, Always (step 2) Safe State.init as :=
  fun h => not_safe_overtake (le_refl 2) (by decide) (h _)

end Realm.RecvSlots

import Realm.Endpoint.Manager

/-!
# Realm.Endpoint.Stop — the end of the polling threads (`templates/activemsg_endpoint_manager.cc`)

`stop_threads` sets `shutdown_flag` and joins the polling threads.  A polling thread leaves "only if we've pushed all of
our messages": when the last thing `push_messages` saw was an empty todo list.  It looks at the list first and at the
flag afterwards.

* `step`: the threads of the manager, of which the first `count` are polling threads.
* `Watched`: an entry of another thread comes while a polling thread is still going to look at the list.
* `threads_of_step`, `todo_of_step`: what a step of the manager leaves alone.
* `stopped_of_run`: then no message is left behind, and otherwise one may be.
-/

namespace Realm.Stop

open Lib Manager

/-- A polling thread: in its loop, between `push_messages` that returned `false` and the look at `shutdown_flag`, or
gone. -/
inductive Worker
  | polling
  | pushedAll
  | left
deriving DecidableEq

structure State (n : ℕ) where
  mgr : Manager.State n
  worker : ℕ → Worker
  shutdownFlag : Bool

def State.init (n threads : ℕ) : State n := ⟨.init n threads, fun _ => .polling, false⟩

/-- A step of the manager, the look of a polling thread at the flag, and `stop_threads`. -/
inductive Event
  | manager (e : Manager.Event)
  | check (i : ℕ)
  | stop

/-- The thread that takes a step; the handlers of `flipAck` and `assign` may run on any. -/
def actor : Manager.Event → Option ℕ
  | .enqueue i .. | .longMsgptr i .. | .flipRequest i .. | .startPush i .. | .manager i _ | .endpoint i _ | .send i
  | .addTodo i => some i
  | .flipAck .. | .assign .. => none

/-- `push_messages` returns `false` when it has got the lock and the list is empty. -/
def looks {n : ℕ} (s : Manager.State n) : Manager.Event → Option ℕ
  | .manager i ok => if ok = true ∧ s.todo.oldest = s.todo.newest then some i else none
  | _ => none

variable (c : Config) (count : ℕ)

def step (s : State c.totalEndpoints) : Event → Option (State c.totalEndpoints)
  | .manager e =>
    if ∀ i ∈ actor e, i < count → s.worker i = .polling then
      (Manager.step c s.mgr e).map fun mgr => { s with
        mgr := mgr
        worker := fun i => if i < count ∧ looks s.mgr e = some i then .pushedAll else s.worker i }
    else none
  | .check i =>
    if i < count ∧ s.worker i = .pushedAll then
      some { s with worker := Function.update s.worker i (if s.shutdownFlag then .left else .polling) }
    else none
  | .stop => some { s with shutdownFlag := true }

/-- Some polling thread is going to look at the list. -/
def Active {n : ℕ} (s : State n) : Prop := ∃ i < count, s.worker i = .polling

/-- Another thread puts an endpoint on the list only while a polling thread is going to look at it. -/
def Watched {n : ℕ} (s : State n) : Event → Prop
  | .manager (.addTodo i) => count ≤ i → Active count s
  | _ => True

variable {c count}

/-! ## What a step of the manager leaves alone -/

section Manager

variable {s s' : Manager.State c.totalEndpoints} {e : Manager.Event}

/-- One iteration moves its thread, and does not touch the list. -/
theorem endpoint_frame {i : ℕ} {ok : Bool} (h : Manager.step c s (.endpoint i ok) = some s') :
    s'.todo = s.todo ∧ ∃ pc, s'.threads = s.threads.set i pc := by
  simp only [Manager.step] at h
  split at h
  · split at h
    · split at h
      · cases h
        exact ⟨rfl, _, rfl⟩
      · cases h
        exact ⟨rfl, _, rfl⟩
      · cases h
        exact ⟨rfl, _, rfl⟩
      · cases h
        exact ⟨rfl, _, rfl⟩
      · cases h
    · cases h
      exact ⟨rfl, _, rfl⟩
  · cases h

theorem threads_of_step (h : Manager.step c s e = some s') {j : ℕ} (hj : actor e ≠ some j) :
    s'.threads[j]? = s.threads[j]? := by
  have hne : ∀ {i : ℕ}, actor e = some i → i ≠ j := fun hi hij => hj (hij ▸ hi)
  cases step_moves h with
  | enqueue => exact List.getElem?_set_ne (hne rfl)
  | longMsgptr => exact List.getElem?_set_ne (hne rfl)
  | flipRequest => exact List.getElem?_set_ne (hne rfl)
  | flipAck => rfl
  | assign => rfl
  | startPush => exact List.getElem?_set_ne (hne rfl)
  | giveUp => exact List.getElem?_set_ne (hne rfl)
  | take => exact List.getElem?_set_ne (hne rfl)
  | endpoint _ h =>
    obtain ⟨-, pc, hthreads⟩ := endpoint_frame h
    rw [hthreads]
    exact List.getElem?_set_ne (hne rfl)
  | send => exact List.getElem?_set_ne (hne rfl)
  | addTodo => exact List.getElem?_set_ne (hne rfl)

/-- The list changes when a thread comes to it, or takes an entry. -/
theorem todo_of_step (h : Manager.step c s e = some s') :
    s'.todo = s.todo ∨ (∃ i, e = .addTodo i) ∨ s.todo.oldest ≠ s.todo.newest := by
  cases step_moves h with
  | take _ hne => exact .inr (.inr hne)
  | addTodo => exact .inr (.inl ⟨_, rfl⟩)
  | endpoint _ h => exact .inl (endpoint_frame h).1
  | _ => exact .inl rfl

/-- A look that finds nothing ends the call of `push_messages`. -/
theorem idle_of_looks {i : ℕ} (hlooks : looks s e = some i) (h : Manager.step c s e = some s') :
    s.todo.contents = [] ∧ s'.todo = s.todo ∧ s'.threads[i]? = some .idle := by
  cases e with
  | manager j ok =>
    obtain ⟨⟨-, hempty⟩, hj⟩ := Option.ite_none_right_eq_some.mp hlooks
    obtain rfl := Option.some.inj hj
    refine ⟨Ring.contents_eq_nil_iff.mpr hempty, ?_⟩
    simp only [Manager.step] at h
    split at h
    · rename_i hpc
      rw [if_pos (.inr hempty)] at h
      cases h
      exact ⟨rfl, List.getElem?_set_self (List.getElem?_eq_some_iff.mp hpc).1⟩
    · cases h
  | _ => cases hlooks

end Manager

/-! ## No message is left behind -/

/-- A polling thread that is not going to look again holds nothing, and when there are only such threads the list is
empty. -/
structure Inv (count : ℕ) (s : State c.totalEndpoints) : Prop where
  mgr : Manager.Inv c s.mgr
  idle : ∀ i < count, s.worker i ≠ .polling → ∀ pc, s.mgr.threads[i]? = some pc → pc = .idle
  empty : ¬Active count s → s.mgr.todo.contents = []

section Inv

variable {s s' : State c.totalEndpoints}

theorem Inv.init (count threads : ℕ) : Inv count (.init c.totalEndpoints threads : State c.totalEndpoints) where
  mgr := .init threads
  idle _ _ h := absurd rfl h
  empty _ := Ring.contents_eq_nil_iff.mpr rfl

/-- **One step** -/
theorem Inv.step (h : Inv count s) {e : Event} (hwatched : Watched count s e) (hstep : step c count s e = some s') :
    Inv count s' := by
  cases e with
  | stop =>
    cases hstep
    exact ⟨h.mgr, h.idle, h.empty⟩
  | check i =>
    obtain ⟨⟨hlt, hi⟩, heq⟩ := Option.ite_none_right_eq_some.mp hstep
    obtain rfl := Option.some.inj heq
    refine ⟨h.mgr, fun j hj hne => ?_, fun hnot => h.empty ?_⟩
    · by_cases hij : j = i
      · subst hij
        exact h.idle j hj (hi ▸ Worker.noConfusion)
      · simp only [Function.update_of_ne hij] at hne
        exact h.idle j hj hne
    · rintro ⟨j, hj, hpolling⟩
      refine hnot ⟨j, hj, ?_⟩
      have hij : j ≠ i := by
        rintro rfl
        rw [hi] at hpolling
        cases hpolling
      simp only [Function.update_of_ne hij]
      exact hpolling
  | manager e =>
    obtain ⟨hactor, heq⟩ := Option.ite_none_right_eq_some.mp hstep
    obtain ⟨mgr, hmgr, rfl⟩ := Option.map_eq_some_iff.mp heq
    refine ⟨h.mgr.step hmgr, fun j hj hne pc hpc => ?_, fun hnot => ?_⟩
    · by_cases hlooks : looks s.mgr e = some j
      · rw [(idle_of_looks hlooks hmgr).2.2] at hpc
        exact (Option.some.inj hpc).symm
      · simp only [hlooks, and_false, if_false] at hne
        have hother : actor e ≠ some j := fun hj' => hne (hactor j hj' hj)
        rw [threads_of_step hmgr hother] at hpc
        exact h.idle j hj hne pc hpc
    · -- the last polling thread has just looked, or there was none before
      by_cases hactive : Active count s
      · obtain ⟨j, hj, hpolling⟩ := hactive
        have hlooks : looks s.mgr e = some j := by
          by_contra hne
          refine hnot ⟨j, hj, ?_⟩
          simp only [hne, and_false, if_false]
          exact hpolling
        obtain ⟨hempty, htodo, -⟩ := idle_of_looks hlooks hmgr
        simp only [htodo, hempty]
      · have hempty := h.empty hactive
        rcases todo_of_step hmgr with htodo | ⟨i, rfl⟩ | hne
        · simp only [htodo, hempty]
        · by_cases hi : count ≤ i
          · exact absurd (hwatched hi) hactive
          · have hlt := Nat.lt_of_not_le hi
            exact absurd ⟨i, hlt, hactor i rfl hlt⟩ hactive
        · exact absurd (Ring.contents_eq_nil_iff.mp hempty) hne

end Inv

/-- What `stop_threads` leaves: once the polling threads are gone, the todo list is empty, and an endpoint has work
only if another thread is just about it. -/
def NothingLeft (count : ℕ) (s : State c.totalEndpoints) : Prop :=
  (∀ i < count, s.worker i = .left) → s.mgr.todo.contents = [] ∧
    ∀ t, ((s.mgr.endpoints t).outShortHdrs ≠ [] ∨ (s.mgr.endpoints t).outLongHdrs ≠ []) →
      ∃ i pc, count ≤ i ∧ s.mgr.threads[i]? = some pc ∧ pc.holds t = true

theorem Inv.nothingLeft {s : State c.totalEndpoints} (h : Inv count s) : NothingLeft count s := by
  intro hleft
  have hempty : s.mgr.todo.contents = [] := by
    refine h.empty ?_
    rintro ⟨i, hi, hpolling⟩
    rw [hleft i hi] at hpolling
    cases hpolling
  refine ⟨hempty, fun t ht => ?_⟩
  have htokens := h.mgr.tokens t
  rw [← not_and_or, ← Endpoint.isEmpty_iff] at ht
  rw [if_neg ht] at htokens
  unfold Manager.State.tokens at htokens
  rw [hempty, List.count_nil, Nat.zero_add] at htokens
  obtain ⟨pc, hmem, hholds⟩ := List.countP_pos_iff.mp (htokens ▸ Nat.one_pos)
  obtain ⟨i, hi⟩ := List.getElem?_of_mem hmem
  refine ⟨i, pc, ?_, hi, hholds⟩
  by_contra hlt
  have hworker := hleft i (Nat.lt_of_not_le hlt)
  obtain rfl := h.idle i (Nat.lt_of_not_le hlt) (hworker ▸ Worker.noConfusion) pc hi
  cases hholds

/-! ## A message that is left behind -/

section Lost

variable {s s' : State c.totalEndpoints}

/-- Polling threads that are not going to look at the list again may all leave. -/
theorem exists_left (k : ℕ) (hk : k ≤ count) (hflag : s.shutdownFlag = true) (hnot : ¬Active count s) :
    ∃ es s', run (step c count) s es = some s' ∧ s'.mgr = s.mgr ∧ s'.shutdownFlag = true ∧ ¬Active count s' ∧
      ∀ i < k, s'.worker i = .left := by
  induction k with
  | zero => exact ⟨[], s, rfl, rfl, hflag, hnot, fun i hi => absurd hi (Nat.not_lt_zero i)⟩
  | succ k ih =>
    obtain ⟨es, t, hrun, hmgr, hflag', hnot', hleft⟩ := ih (Nat.le_of_succ_le hk)
    cases hworker : t.worker k with
    | polling => exact absurd ⟨k, hk, hworker⟩ hnot'
    | left =>
      refine ⟨es, t, hrun, hmgr, hflag', hnot', fun i hi => ?_⟩
      rcases Nat.lt_succ_iff_lt_or_eq.mp hi with hi | rfl
      · exact hleft i hi
      · exact hworker
    | pushedAll =>
      have hstep : step c count t (.check k) = some { t with worker := Function.update t.worker k .left } := by
        rw [step, if_pos ⟨hk, hworker⟩, hflag', if_pos rfl]
      refine ⟨es ++ [.check k], { t with worker := Function.update t.worker k .left },
        run_snoc_eq_some.mpr ⟨t, hrun, hstep⟩, hmgr, hflag', ?_, fun i hi => ?_⟩
      · rintro ⟨i, hi, hpolling⟩
        by_cases hik : i = k
        · subst hik
          simp only [Function.update_self] at hpolling
          cases hpolling
        · simp only [Function.update_of_ne hik] at hpolling
          exact hnot' ⟨i, hi, hpolling⟩
      · rcases Nat.lt_succ_iff_lt_or_eq.mp hi with hi | rfl
        · simp only [Function.update_of_ne hi.ne]
          exact hleft i hi
        · exact Function.update_self ..

/-- An entry that no polling thread is going to see -/
theorem exists_leftBehind (h : Inv count s) {e : Event} (hnot : ¬Watched count s e)
    (hstep : step c count s e = some s') :
    ∃ es s'', run (step c count) s' es = some s'' ∧ ¬NothingLeft count s'' := by
  cases e with
  | manager e =>
    cases e with
    | addTodo i =>
      obtain ⟨-, hactive⟩ := Classical.not_imp.mp hnot
      obtain ⟨-, heq⟩ := Option.ite_none_right_eq_some.mp hstep
      obtain ⟨mgr, hmgr, rfl⟩ := Option.map_eq_some_iff.mp heq
      have hne : mgr.todo.contents ≠ [] := by
        cases step_moves hmgr with
        | addTodo hpc =>
          simp only [Ring.contents_push (h.mgr.size_lt hpc)]
          exact List.append_ne_nil_of_right_ne_nil _ (List.cons_ne_nil _ _)
      obtain ⟨es, s'', hrun, hmgr', -, -, hleft⟩ := exists_left
        (s := { mgr := mgr, worker := s.worker, shutdownFlag := true }) count (Nat.le_refl _) rfl hactive
      refine ⟨.stop :: es, s'', ?_, fun hnothing => hne ?_⟩
      · refine run_cons_eq_some.mpr ⟨_, rfl, ?_⟩
        simp only [looks, reduceCtorEq, and_false, if_false]
        exact hrun
      · have hempty := (hnothing hleft).1
        rw [hmgr'] at hempty
        exact hempty
    | _ => exact absurd trivial hnot
  | _ => exact absurd trivial hnot

end Lost

/-- **No message is left behind** in a run in which other threads come to the list only while a polling thread is going
to look at it; and a run that leaves this schedule by one step can go on to leave one behind. -/
theorem stopped_of_run (c : Config) (count threads : ℕ) (es : List Event) (s : State c.totalEndpoints)
    (hwatched : Guarded (step c count) (Watched count) (.init c.totalEndpoints threads) es)
    (hrun : run (step c count) (.init c.totalEndpoints threads) es = some s) :
    NothingLeft count s ∧ ∀ e s', ¬Watched count s e → step c count s e = some s' →
      ∃ es' s'', run (step c count) s' es' = some s'' ∧ ¬NothingLeft count s'' := by
  have hinv : Inv count s :=
    run_inv_guarded (fun _ _ _ h hw hs => h.step hw hs) (Inv.init count threads) hwatched hrun
  exact ⟨hinv.nothingLeft, fun e s' hnot hstep => exists_leftBehind hinv hnot hstep⟩

/-- Thread `1` enqueues a message, and the polling thread sends it and leaves. -/
def sendAndStop : List Event :=
  [.manager (.enqueue 1 1 (.mk' 1 []) true), .manager (.addTodo 1), .manager (.startPush 0 0),
    .manager (.manager 0 true), .manager (.endpoint 0 true), .manager (.send 0), .manager (.endpoint 0 true),
    .manager (.manager 0 true), .stop, .check 0]

theorem stopped_of_run_two : ∃ s, run (step twoNodes 1) (.init 2 2) sendAndStop = some s ∧
    (s.worker 0, s.mgr.sent 1) = (.left, [0]) ∧ NothingLeft (c := twoNodes) 1 s := by
  have hwatched : Guarded (step twoNodes 1) (Watched 1) (.init 2 2) sendAndStop := by
    refine guarded_cons rfl trivial (guarded_cons rfl (fun _ => ?_) ?_)
    · exact ⟨0, Nat.one_pos, rfl⟩
    · refine guarded_cons rfl trivial (guarded_cons rfl trivial (guarded_cons rfl trivial ?_))
      refine guarded_cons rfl trivial (guarded_cons rfl trivial (guarded_cons rfl trivial ?_))
      exact guarded_cons rfl trivial (guarded_cons rfl trivial trivial)
  obtain ⟨s, hrun, hsent⟩ : ∃ s, run (step twoNodes 1) (.init 2 2) sendAndStop = some s ∧
      (s.worker 0, s.mgr.sent 1) = (.left, [0]) := ⟨_, rfl, rfl⟩
  exact ⟨s, hrun, hsent, (stopped_of_run twoNodes 1 2 sendAndStop s hwatched hrun).1⟩

end Realm.Stop

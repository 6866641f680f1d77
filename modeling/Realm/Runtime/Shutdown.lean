import Realm.Lib.Int32
import Realm.Lib.Run
import Realm.Lib.Total

/-!
# Realm.Runtime.Shutdown — shutting the machine down (`templates/runtime_impl.cc`)

Any node may ask for a shutdown, at any time and with a result code of its own.  The first call of `shutdown` on a node
tells all other nodes, if it was asked for locally, and wakes the thread in `wait_for_shutdown`, which waits for all
nodes at a barrier before it deletes the runtime and returns the code.  Later calls, by the application or by messages
that are still under way, are filtered out by a counter that is not part of the runtime.

* `step`: the calls, the notification loop, the messages, the section under `shutdown_mutex` and the waiting thread of
  any number of nodes.
* `firstWins_of_run`: on every node the first call decides, in every interleaving; the runtime is never touched after
  it was deleted.
* `allReturn`: after one request every node returns, with a code that some node was asked locally to return.
-/

namespace Realm.Shutdown

open Lib

/-! ## One node -/

/-- A call of `RuntimeImpl::shutdown` that has passed the filter: its arguments, and the loop variable of the
notifications. -/
structure Call where
  localRequest : Bool
  resultCode : ℤ
  i : ℕ
deriving DecidableEq

/-- The thread in `wait_for_shutdown`. -/
inductive Waiter
  | sleeping
  | atBarrier
  | returned (resultCode : ℤ)
deriving DecidableEq

/-- The static `shutdown_count` of a node, the members of its `RuntimeImpl`, the calls behind the filter and the number
of times that `spawn_on_all` was called for the shutdown task.  `history` are all calls of `shutdown` so far, and
`usedAfterFree` says that a call has used a member of the deleted runtime. -/
structure Node where
  shutdownCount : ℤ
  runMethodCalled : Bool
  shutdownRequested : Bool
  shutdownResultCode : ℤ
  calls : List Call
  shutdownTasks : ℕ
  waiter : Waiter
  history : List (Bool × ℤ)
  usedAfterFree : Bool

def Node.init : Node := ⟨0, false, false, 0, [], 0, .sleeping, [], false⟩

/-- `RuntimeImpl::shutdown`, up to the filter. -/
def Node.shutdown (nd : Node) (localRequest : Bool) (resultCode : ℤ) : Node :=
  { nd with
    -- `__sync_fetch_and_add(&shutdown_count, 1) > 0`
    shutdownCount := int32 (nd.shutdownCount + 1)
    calls := if nd.shutdownCount > 0 then nd.calls else ⟨localRequest, resultCode, 0⟩ :: nd.calls
    history := nd.history ++ [(localRequest, resultCode)] }

/-- The rest of `RuntimeImpl::shutdown` after the notifications: the legacy shutdown tasks and the section under
`shutdown_mutex`. -/
def Node.cleanUp (nd : Node) (c : Call) : Node :=
  { nd with
    calls := nd.calls.erase c
    shutdownTasks := if nd.runMethodCalled then nd.shutdownTasks + 1 else nd.shutdownTasks
    shutdownRequested := true
    shutdownResultCode := c.resultCode
    usedAfterFree := nd.usedAfterFree || match nd.waiter with
      | .returned _ => true
      | _ => false }

/-! ## All nodes -/

/-- `RuntimeShutdownMessage::RequestArgs`, and the node that the message goes to. -/
structure Message (n : ℕ) where
  target : Fin n
  initiatingNode : Fin n
  resultCode : ℤ
deriving DecidableEq

structure State (n : ℕ) where
  node : Fin n → Node
  network : List (Message n)

variable {n : ℕ}

def State.init (n : ℕ) : State n := ⟨fun _ => .init, []⟩

def State.set (s : State n) (i : Fin n) (nd : Node) : State n := { s with node := Function.update s.node i nd }

/-- One iteration of `for(NodeID i = 0; i <= max_node_id; i++) if(i != my_node_id) send_request(i, result_code)`. -/
def State.notify (s : State n) (me : Fin n) (c : Call) (h : c.i < n) : State n :=
  let nd := s.node me
  { s.set me { nd with calls := { c with i := c.i + 1 } :: nd.calls.erase c } with
    network := if (⟨c.i, h⟩ : Fin n) = me then s.network else ⟨⟨c.i, h⟩, me, c.resultCode⟩ :: s.network }

/-- `run`: `RuntimeImpl::run` starts; `request`: `Runtime::shutdown` (with a precondition that has triggered) or
`DeferredShutdown::event_triggered`; `deliver`: `RuntimeShutdownMessage::handle_request`; `notify`, `cleanUp`: a call
behind the filter goes on; `wake`, `pass`: the waiting thread sees `shutdown_requested`, and leaves the barrier. -/
inductive Event (n : ℕ)
  | run (i : Fin n)
  | request (i : Fin n) (resultCode : ℤ)
  | deliver (m : Message n)
  | notify (i : Fin n) (c : Call)
  | cleanUp (i : Fin n) (c : Call)
  | wake (i : Fin n)
  | pass (i : Fin n)

def step (s : State n) : Event n → Option (State n)
  | .run i => some (s.set i { s.node i with runMethodCalled := true })
  | .request i code => some (s.set i ((s.node i).shutdown true code))
  | .deliver m =>
    if m ∈ s.network then
      some { s.set m.target ((s.node m.target).shutdown false m.resultCode) with network := s.network.erase m }
    else none
  | .notify i c =>
    if h : c.i < n then
      if c ∈ (s.node i).calls ∧ c.localRequest = true then some (s.notify i c h) else none
    else none
  | .cleanUp i c =>
    if c ∈ (s.node i).calls ∧ (c.localRequest = true → n ≤ c.i) then some (s.set i ((s.node i).cleanUp c)) else none
  | .wake i =>
    if (s.node i).waiter = .sleeping ∧ (s.node i).shutdownRequested = true then
      some (s.set i { s.node i with waiter := .atBarrier })
    else none
  | .pass i =>
    if (s.node i).waiter = .atBarrier ∧ ∀ j, (s.node j).waiter ≠ .sleeping then
      some (s.set i { s.node i with waiter := .returned (s.node i).shutdownResultCode })
    else none

/-- The steps that need nobody outside: everything but a new request or a call of `run`. -/
def Event.isInternal : Event n → Bool
  | .run _ => false
  | .request _ _ => false
  | _ => true

/-- What each step does, and when. -/
inductive Step (s : State n) : Event n → State n → Prop
  | run (i : Fin n) : Step s (.run i) (s.set i { s.node i with runMethodCalled := true })
  | request (i : Fin n) (code : ℤ) : Step s (.request i code) (s.set i ((s.node i).shutdown true code))
  | deliver (m : Message n) (hm : m ∈ s.network) : Step s (.deliver m)
      { s.set m.target ((s.node m.target).shutdown false m.resultCode) with network := s.network.erase m }
  | notify (i : Fin n) (c : Call) (hi : c.i < n) (hc : c ∈ (s.node i).calls) (hlr : c.localRequest = true) :
      Step s (.notify i c) (s.notify i c hi)
  | cleanUp (i : Fin n) (c : Call) (hc : c ∈ (s.node i).calls) (hlast : c.localRequest = true → n ≤ c.i) :
      Step s (.cleanUp i c) (s.set i ((s.node i).cleanUp c))
  | wake (i : Fin n) (hw : (s.node i).waiter = .sleeping) (hreq : (s.node i).shutdownRequested = true) :
      Step s (.wake i) (s.set i { s.node i with waiter := .atBarrier })
  | pass (i : Fin n) (hw : (s.node i).waiter = .atBarrier) (hall : ∀ j, (s.node j).waiter ≠ .sleeping) :
      Step s (.pass i) (s.set i { s.node i with waiter := .returned (s.node i).shutdownResultCode })

theorem step_cases {s s' : State n} {e : Event n} (h : step s e = some s') : Step s e s' := by
  cases e with
  | run i =>
    cases h
    exact .run i
  | request i code =>
    cases h
    exact .request i code
  | deliver m =>
    obtain ⟨hm, h⟩ := Option.ite_none_right_eq_some.mp h
    cases h
    exact .deliver m hm
  | notify i c =>
    obtain ⟨hi, h⟩ := Option.dite_none_right_eq_some.mp h
    obtain ⟨hc, h⟩ := Option.ite_none_right_eq_some.mp h
    cases h
    exact .notify i c hi hc.1 hc.2
  | cleanUp i c =>
    obtain ⟨hc, h⟩ := Option.ite_none_right_eq_some.mp h
    cases h
    exact .cleanUp i c hc.1 hc.2
  | wake i =>
    obtain ⟨hw, h⟩ := Option.ite_none_right_eq_some.mp h
    cases h
    exact .wake i hw.1 hw.2
  | pass i =>
    obtain ⟨hw, h⟩ := Option.ite_none_right_eq_some.mp h
    cases h
    exact .pass i hw.1 hw.2

/-! ## What a node goes through -/

/-- How far the first call of `shutdown` has got: there is none, it notifies the other nodes, or it is over. -/
inductive Progress (n : ℕ) (nd : Node) : Prop
  | idle (history : nd.history = []) (calls : nd.calls = []) (requested : nd.shutdownRequested = false)
      (tasks : nd.shutdownTasks = 0)
  | running (lr : Bool) (code : ℤ) (k : ℕ) (history : nd.history.head? = some (lr, code))
      (calls : nd.calls = [⟨lr, code, k⟩]) (bound : k ≤ n) (requested : nd.shutdownRequested = false)
      (tasks : nd.shutdownTasks = 0)
  | finished (lr : Bool) (history : nd.history.head? = some (lr, nd.shutdownResultCode)) (calls : nd.calls = [])
      (requested : nd.shutdownRequested = true) (tasks : nd.shutdownTasks ≤ 1)

structure NodeInv (n : ℕ) (nd : Node) : Prop where
  count : nd.shutdownCount = int32 nd.history.length
  progress : Progress n nd
  waiting : nd.waiter ≠ .sleeping → nd.shutdownRequested = true
  returned : ∀ code, nd.waiter = .returned code → code = nd.shutdownResultCode
  live : nd.usedAfterFree = false

theorem NodeInv.init (n : ℕ) : NodeInv n .init where
  count := (int32_eq_self (by decide) (by decide)).symm
  progress := .idle rfl rfl rfl rfl
  waiting h := absurd rfl h
  returned _ h := by cases h
  live := rfl

/-- The head of the history stays. -/
theorem head?_append_of_eq_some {α : Type*} {l : List α} {a b : α} (h : l.head? = some a) :
    (l ++ [b]).head? = some a := by
  rw [List.head?_append, h]
  rfl

namespace NodeInv

variable {nd : Node} {c : Call}

/-- Up to the call number `2 ^ 31` the filter lets the first one pass and no other. -/
theorem filter_iff (h : NodeInv n nd) (hlen : nd.history.length < 2 ^ 31) :
    nd.shutdownCount > 0 ↔ nd.history ≠ [] := by
  rw [h.count, int32_eq_self (by omega) (by omega), ← List.length_pos_iff]
  omega

theorem shutdown (h : NodeInv n nd) (hlen : nd.history.length < 2 ^ 31) (lr : Bool) (code : ℤ) :
    NodeInv n (nd.shutdown lr code) where
  count := by
    show int32 (nd.shutdownCount + 1) = int32 (nd.history ++ [(lr, code)]).length
    rw [h.count, int32_int32_add, List.length_append]
    rfl
  progress := by
    have hfilter := h.filter_iff hlen
    cases h.progress with
    | idle history calls requested tasks =>
      have hcount : ¬ nd.shutdownCount > 0 := fun hc => hfilter.mp hc history
      refine .running lr code 0 ?_ ?_ (Nat.zero_le n) requested tasks
      · show (nd.history ++ [(lr, code)]).head? = _
        rw [history]
        rfl
      · show (if nd.shutdownCount > 0 then _ else _) = _
        rw [if_neg hcount, calls]
    | running lr' code' k history calls bound requested tasks =>
      have hcount : nd.shutdownCount > 0 := hfilter.mpr fun hnil => by simp [hnil] at history
      refine .running lr' code' k (head?_append_of_eq_some history) ?_ bound requested tasks
      exact (if_pos hcount).trans calls
    | finished lr' history calls requested tasks =>
      have hcount : nd.shutdownCount > 0 := hfilter.mpr fun hnil => by simp [hnil] at history
      refine .finished lr' (head?_append_of_eq_some history) ?_ requested tasks
      exact (if_pos hcount).trans calls
  waiting := h.waiting
  returned := h.returned
  live := h.live

/-- The call behind the filter is the first one. -/
theorem of_mem_calls (h : NodeInv n nd) (hc : c ∈ nd.calls) :
    nd.history.head? = some (c.localRequest, c.resultCode) ∧ nd.calls = [c] ∧ c.i ≤ n ∧
      nd.shutdownRequested = false ∧ nd.shutdownTasks = 0 := by
  cases h.progress with
  | idle _ calls => simp [calls] at hc
  | running lr code k history calls bound requested tasks =>
    rw [calls, List.mem_singleton] at hc
    subst hc
    exact ⟨history, calls, bound, requested, tasks⟩
  | finished _ _ calls => simp [calls] at hc

theorem notify (h : NodeInv n nd) (hc : c ∈ nd.calls) (hi : c.i < n) :
    NodeInv n { nd with calls := { c with i := c.i + 1 } :: nd.calls.erase c } := by
  obtain ⟨history, calls, -, requested, tasks⟩ := h.of_mem_calls hc
  refine ⟨h.count, ?_, h.waiting, h.returned, h.live⟩
  refine .running c.localRequest c.resultCode (c.i + 1) history ?_ hi requested tasks
  simp [calls]

theorem cleanUp (h : NodeInv n nd) (hc : c ∈ nd.calls) : NodeInv n (nd.cleanUp c) := by
  obtain ⟨history, calls, -, requested, tasks⟩ := h.of_mem_calls hc
  have hsleep : nd.waiter = .sleeping := by
    by_contra hw
    rw [h.waiting hw] at requested
    cases requested
  refine ⟨h.count, ?_, fun _ => rfl, ?_, ?_⟩
  · refine .finished c.localRequest history ?_ rfl ?_
    · simp [Node.cleanUp, calls]
    · show (if nd.runMethodCalled then nd.shutdownTasks + 1 else nd.shutdownTasks) ≤ 1
      split <;> omega
  · intro code hcode
    exact absurd (hsleep.symm.trans hcode) (by simp)
  · simp [Node.cleanUp, hsleep, h.live]

/-- A change that leaves the calls and what they have done alone. -/
theorem setRun (h : NodeInv n nd) : NodeInv n { nd with runMethodCalled := true } := by
  refine ⟨h.count, ?_, h.waiting, h.returned, h.live⟩
  cases h.progress with
  | idle history calls requested tasks => exact .idle history calls requested tasks
  | running lr code k history calls bound requested tasks =>
    exact .running lr code k history calls bound requested tasks
  | finished lr history calls requested tasks => exact .finished lr history calls requested tasks

theorem setWaiter (h : NodeInv n nd) (hreq : nd.shutdownRequested = true) {w : Waiter}
    (hw : ∀ code, w = .returned code → code = nd.shutdownResultCode) : NodeInv n { nd with waiter := w } := by
  refine ⟨h.count, ?_, fun _ => hreq, hw, h.live⟩
  cases h.progress with
  | idle _ _ requested => simp [hreq] at requested
  | running _ _ _ _ _ _ requested => simp [hreq] at requested
  | finished lr history calls requested tasks => exact .finished lr history calls requested tasks

theorem requested_of_calls (h : NodeInv n nd) (hh : nd.history ≠ []) (hc : nd.calls = []) :
    nd.shutdownRequested = true := by
  cases h.progress with
  | idle history => exact absurd history hh
  | running _ _ _ _ calls => simp [hc] at calls
  | finished _ _ _ requested => exact requested

end NodeInv

/-! ## The invariant -/

/-- The first call of `shutdown` on node `i` had these arguments. -/
def State.First (s : State n) (i : Fin n) (lr : Bool) (code : ℤ) : Prop :=
  (s.node i).history.head? = some (lr, code)

/-- No node has been called more than `2 ^ 31` times, so that the counter has not wrapped around. -/
def State.Bounded (s : State n) : Prop := ∀ i, (s.node i).history.length ≤ 2 ^ 31

structure Inv (s : State n) : Prop where
  node : ∀ i, NodeInv n (s.node i)
  network : ∀ m ∈ s.network, s.First m.initiatingNode true m.resultCode
  origin : ∀ i code, s.First i false code → ∃ j, s.First j true code
  /-- A node that was asked locally will notify `j`, or its message is under way, or `j` knows. -/
  notified : ∀ i j code, s.First i true code → j ≠ i →
    (∃ k ≤ j.val, ⟨true, code, k⟩ ∈ (s.node i).calls) ∨ ⟨j, i, code⟩ ∈ s.network ∨ (s.node j).history ≠ []
  barrier : ∀ i code, (s.node i).waiter = .returned code → ∀ j, (s.node j).waiter ≠ .sleeping

theorem Inv.init (n : ℕ) : Inv (State.init n) where
  node _ := NodeInv.init n
  network _ h := by cases h
  origin _ _ h := by cases h
  notified _ _ _ h := by cases h
  barrier _ _ h := by cases h

@[simp] theorem State.set_node_self (s : State n) (i : Fin n) (nd : Node) : (s.set i nd).node i = nd :=
  Function.update_self ..

theorem State.set_node_of_ne (s : State n) {i j : Fin n} (nd : Node) (h : j ≠ i) :
    (s.set i nd).node j = s.node j := Function.update_of_ne h ..

/-- What a step on node `i` leaves alone: the other nodes, and the first call of every node that had one. -/
structure Frame (s s' : State n) (i : Fin n) : Prop where
  other : ∀ j, j ≠ i → s'.node j = s.node j
  first : ∀ lr code, s.First i lr code → s'.First i lr code

theorem Frame.keeps {s s' : State n} {i : Fin n} (h : Frame s s' i) {j : Fin n} {lr : Bool} {code : ℤ}
    (hf : s.First j lr code) : s'.First j lr code := by
  by_cases hj : j = i
  · exact hj ▸ h.first lr code (hj ▸ hf)
  · unfold State.First
    rw [h.other j hj]
    exact hf

theorem Frame.nonempty {s s' : State n} {i : Fin n} (h : Frame s s' i) {j : Fin n}
    (hj : (s.node j).history ≠ []) : (s'.node j).history ≠ [] := by
  obtain ⟨⟨lr, code⟩, rest, hcons⟩ := List.exists_cons_of_ne_nil hj
  have hf : s'.First j lr code := h.keeps (congrArg List.head? hcons)
  intro hnil
  unfold State.First at hf
  rw [hnil] at hf
  cases hf

theorem Node.mem_calls_shutdown {nd : Node} {c : Call} (hc : c ∈ nd.calls) (lr : Bool) (code : ℤ) :
    c ∈ (nd.shutdown lr code).calls := by
  unfold Node.shutdown
  dsimp only
  split
  · exact hc
  · exact List.mem_cons_of_mem _ hc

/-- A node whose first call is new is `i`, and the call is this one. -/
theorem first_of_shutdown {s s' : State n} {i j : Fin n} {lr lr' : Bool} {code code' : ℤ} (hframe : Frame s s' i)
    (hself : s'.node i = (s.node i).shutdown lr code) (hf : s'.First j lr' code') :
    s.First j lr' code' ∨ (j = i ∧ (s.node i).history = [] ∧ lr' = lr ∧ code' = code) := by
  by_cases hj : j = i
  · subst hj
    by_cases hnil : (s.node j).history = []
    · refine Or.inr ⟨rfl, hnil, ?_⟩
      unfold State.First at hf
      rw [hself] at hf
      simp only [Node.shutdown, hnil, List.nil_append, List.head?_cons, Option.some.injEq, Prod.mk.injEq] at hf
      exact ⟨hf.1.symm, hf.2.symm⟩
    · obtain ⟨⟨lr₀, code₀⟩, rest, hcons⟩ := List.exists_cons_of_ne_nil hnil
      have hold : s.First j lr₀ code₀ := congrArg List.head? hcons
      obtain ⟨rfl, rfl⟩ : lr₀ = lr' ∧ code₀ = code' := by
        have h' := (hframe.keeps hold).symm.trans hf
        simpa using h'
      exact Or.inl hold
  · left
    unfold State.First at hf ⊢
    rwa [hframe.other j hj] at hf

/-- The call of `shutdown` on one node, with the network as the call finds it. -/
theorem Inv.shutdown {s : State n} (h : Inv s) {i : Fin n} {lr : Bool} {code : ℤ} {net : List (Message n)}
    (hlen : (s.node i).history.length < 2 ^ 31) (hsub : ∀ m ∈ net, m ∈ s.network)
    (horigin : lr = false → ∃ j, s.First j true code)
    (hnet : ∀ m ∈ s.network, m ∈ net ∨ m.target = i) :
    Inv { s.set i ((s.node i).shutdown lr code) with network := net } := by
  generalize hs' : ({ s.set i ((s.node i).shutdown lr code) with network := net } : State n) = s'
  have hself : s'.node i = (s.node i).shutdown lr code := by
    rw [← hs']
    exact Function.update_self ..
  have hframe : Frame s s' i := by
    refine ⟨fun j hj => ?_, fun lr' code' hf => ?_⟩
    · rw [← hs']
      exact Function.update_of_ne hj ..
    · unfold State.First
      rw [hself]
      exact head?_append_of_eq_some hf
  have hnonempty : (s'.node i).history ≠ [] := by
    rw [hself]
    exact List.append_ne_nil_of_right_ne_nil _ (List.cons_ne_nil _ _)
  refine ⟨fun j => ?_, fun m hm => ?_, fun j code' hf => ?_, fun j k code' hf hk => ?_, fun j code' hw k => ?_⟩
  · by_cases hj : j = i
    · rw [hj, hself]
      exact (h.node i).shutdown hlen lr code
    · rw [hframe.other j hj]
      exact h.node j
  · rw [← hs'] at hm
    exact hframe.keeps (h.network m (hsub m hm))
  · rcases first_of_shutdown hframe hself hf with hold | ⟨-, -, hlr, rfl⟩
    · obtain ⟨k, hk⟩ := h.origin j code' hold
      exact ⟨k, hframe.keeps hk⟩
    · obtain ⟨k, hk⟩ := horigin hlr.symm
      exact ⟨k, hframe.keeps hk⟩
  · rcases first_of_shutdown hframe hself hf with hold | ⟨rfl, hnil, rfl, rfl⟩
    · rcases h.notified j k code' hold hk with ⟨l, hl, hcall⟩ | hmsg | hknown
      · left
        refine ⟨l, hl, ?_⟩
        by_cases hj : j = i
        · subst hj
          rw [hself]
          exact Node.mem_calls_shutdown hcall lr code
        · rw [hframe.other j hj]
          exact hcall
      · rcases hnet _ hmsg with hin | htarget
        · right; left
          rw [← hs']
          exact hin
        · right; right
          obtain rfl : k = i := htarget
          exact hnonempty
      · exact Or.inr (Or.inr (hframe.nonempty hknown))
    · left
      refine ⟨0, Nat.zero_le _, ?_⟩
      have hcount : ¬ (s.node j).shutdownCount > 0 := fun hc => ((h.node j).filter_iff hlen).mp hc hnil
      rw [hself]
      show _ ∈ (if (s.node j).shutdownCount > 0 then _ else _)
      rw [if_neg hcount]
      exact List.mem_cons_self
  · have hwaiter : ∀ l, (s'.node l).waiter = (s.node l).waiter := by
      intro l
      by_cases hl : l = i
      · rw [hl, hself]
        rfl
      · rw [hframe.other l hl]
    rw [hwaiter] at hw ⊢
    exact h.barrier j code' hw k

/-- A step of node `i` that calls nothing: the messages may only become more, and every node that `i` had still to
notify it has still to notify, or its message is under way now. -/
theorem Inv.update {s : State n} (h : Inv s) {i : Fin n} {nd : Node} {net : List (Message n)} (hnode : NodeInv n nd)
    (hhist : nd.history = (s.node i).history) (hgrow : ∀ m ∈ s.network, m ∈ net)
    (hnet : ∀ m ∈ net, m ∈ s.network ∨ s.First m.initiatingNode true m.resultCode)
    (hcalls : ∀ (j : Fin n) code k, s.First i true code → j ≠ i → k ≤ j.val → ⟨true, code, k⟩ ∈ (s.node i).calls →
      (∃ l ≤ j.val, ⟨true, code, l⟩ ∈ nd.calls) ∨ ⟨j, i, code⟩ ∈ net)
    (hwake : (s.node i).waiter ≠ .sleeping → nd.waiter ≠ .sleeping)
    (hbarrier : ∀ code, nd.waiter = .returned code → nd.waiter = (s.node i).waiter ∨
      ∀ j, (s.node j).waiter ≠ .sleeping) :
    Inv { s.set i nd with network := net } := by
  generalize hs' : ({ s.set i nd with network := net } : State n) = s'
  have hself : s'.node i = nd := by
    rw [← hs']
    exact Function.update_self ..
  have hother : ∀ j, j ≠ i → s'.node j = s.node j := by
    intro j hj
    rw [← hs']
    exact Function.update_of_ne hj ..
  have hhistory : ∀ j, (s'.node j).history = (s.node j).history := by
    intro j
    by_cases hj : j = i
    · rw [hj, hself, hhist]
    · rw [hother j hj]
  have hfirst : ∀ j lr code, s'.First j lr code ↔ s.First j lr code := by
    intro j lr code
    unfold State.First
    rw [hhistory j]
  have hwakes : ∀ j, (s.node j).waiter ≠ .sleeping → (s'.node j).waiter ≠ .sleeping := by
    intro j hw
    by_cases hj : j = i
    · rw [hj, hself]
      exact hwake (hj ▸ hw)
    · rwa [hother j hj]
  refine ⟨fun j => ?_, fun m hm => ?_, fun j code hf => ?_, fun j k code hf hk => ?_, fun j code hw k => ?_⟩
  · by_cases hj : j = i
    · rw [hj, hself]
      exact hnode
    · rw [hother j hj]
      exact h.node j
  · rw [← hs'] at hm
    rw [hfirst]
    rcases hnet m hm with hold | hnew
    · exact h.network m hold
    · exact hnew
  · obtain ⟨k, hk⟩ := h.origin j code ((hfirst _ _ _).mp hf)
    exact ⟨k, (hfirst _ _ _).mpr hk⟩
  · have hold := (hfirst _ _ _).mp hf
    rcases h.notified j k code hold hk with ⟨l, hl, hcall⟩ | hmsg | hknown
    · by_cases hj : j = i
      · subst hj
        rcases hcalls k code l hold hk hl hcall with ⟨l', hl', hcall'⟩ | hmsg
        · exact Or.inl ⟨l', hl', by rwa [hself]⟩
        · exact Or.inr (Or.inl (by rwa [← hs']))
      · exact Or.inl ⟨l, hl, by rwa [hother j hj]⟩
    · exact Or.inr (Or.inl (by rw [← hs']; exact hgrow _ hmsg))
    · exact Or.inr (Or.inr (by rwa [hhistory]))
  · apply hwakes
    by_cases hj : j = i
    · subst hj
      rw [hself] at hw
      rcases hbarrier code hw with hsame | hall
      · exact h.barrier j code (hsame.symm.trans hw) k
      · exact hall k
    · rw [hother j hj] at hw
      exact h.barrier j code hw k

theorem Inv.step {s s' : State n} {e : Event n} (h : Inv s) (hs' : s'.Bounded) (hstep : step s e = some s') :
    Inv s' := by
  cases step_cases hstep with
  | run i =>
    refine h.update (h.node i).setRun rfl (fun _ hm => hm) (fun _ hm => Or.inl hm) ?_ (fun hw => hw)
      fun _ _ => Or.inl rfl
    exact fun j code k _ _ hk hcall => Or.inl ⟨k, hk, hcall⟩
  | request i code =>
    have hlen := hs' i
    rw [State.set_node_self, Node.shutdown, List.length_append, List.length_singleton] at hlen
    exact h.shutdown hlen (fun _ hm => hm) (fun hlr => by cases hlr) fun _ hm => Or.inl hm
  | deliver m hm =>
    have hlen : ((s.set m.target ((s.node m.target).shutdown false m.resultCode)).node m.target).history.length ≤
      2 ^ 31 := hs' m.target
    rw [State.set_node_self, Node.shutdown, List.length_append, List.length_singleton] at hlen
    refine h.shutdown hlen (fun _ hm' => List.mem_of_mem_erase hm') (fun _ => ⟨_, h.network m hm⟩) fun m' hm' => ?_
    by_cases hne : m' = m
    · exact Or.inr (by rw [hne])
    · exact Or.inl ((List.mem_erase_of_ne hne).mpr hm')
  | notify i c hi hc hlr =>
    obtain ⟨history, calls, -, -, -⟩ := (h.node i).of_mem_calls hc
    have hfirst : s.First i true c.resultCode := by
      unfold State.First
      rw [history, hlr]
    refine h.update ((h.node i).notify hc hi) rfl (fun m hm => ?_) (fun m hm => ?_)
      (fun j code k _ hj hk hcall => ?_) (fun hw => hw) fun _ _ => Or.inl rfl
    · split
      · exact hm
      · exact List.mem_cons_of_mem _ hm
    · split at hm
      · exact Or.inl hm
      · rcases List.mem_cons.mp hm with rfl | hm
        · exact Or.inr hfirst
        · exact Or.inl hm
    · -- the node the loop has come to is told now, the ones behind it later
      rw [calls, List.mem_singleton] at hcall
      subst hcall
      rcases Nat.eq_or_lt_of_le hk with heq | hlt
      · right
        have hji : (⟨k, hi⟩ : Fin n) = j := Fin.ext heq
        rw [hji, if_neg hj]
        exact List.mem_cons_self
      · exact Or.inl ⟨k + 1, hlt, List.mem_cons_self⟩
  | cleanUp i c hc hlast =>
    obtain ⟨-, calls, -, -, -⟩ := (h.node i).of_mem_calls hc
    refine h.update ((h.node i).cleanUp hc) rfl (fun _ hm => hm) (fun _ hm => Or.inl hm)
      (fun j code k _ _ hk hcall => ?_) (fun hw => hw) fun _ _ => Or.inl rfl
    rw [calls, List.mem_singleton] at hcall
    subst hcall
    have hn : n ≤ k := hlast rfl
    have hj := j.isLt
    omega
  | wake i hw hreq =>
    refine h.update ((h.node i).setWaiter hreq fun _ hcode => by cases hcode) rfl (fun _ hm => hm)
      (fun _ hm => Or.inl hm) ?_ (fun _ => by simp) fun _ hcode => by cases hcode
    exact fun j code k _ _ hk hcall => Or.inl ⟨k, hk, hcall⟩
  | pass i hw hall =>
    have hreq : (s.node i).shutdownRequested = true := (h.node i).waiting (by rw [hw]; simp)
    refine h.update ((h.node i).setWaiter hreq fun _ hcode => by cases hcode; rfl) rfl (fun _ hm => hm)
      (fun _ hm => Or.inl hm) ?_ (fun _ => by simp) fun _ _ => Or.inr hall
    exact fun j code k _ _ hk hcall => Or.inl ⟨k, hk, hcall⟩

/-- Histories only get longer, and what was asked for stays asked for. -/
def Grows (s s' : State n) (i : Fin n) : Prop :=
  (s.node i).history <+: (s'.node i).history ∧
    ((s.node i).shutdownRequested = true → (s'.node i).shutdownRequested = true)

theorem Grows.first {s s' : State n} {i : Fin n} (h : Grows s s' i) {lr : Bool} {code : ℤ} (hf : s.First i lr code) :
    s'.First i lr code := by
  obtain ⟨rest, hrest⟩ := h.1
  unfold State.First at hf ⊢
  rw [← hrest, List.head?_append, hf]
  rfl

theorem grows_of_step {s s' : State n} {e : Event n} (hstep : step s e = some s') (i : Fin n) : Grows s s' i := by
  have hset : ∀ {j : Fin n} {nd : Node}, (s.node j).history <+: nd.history →
      ((s.node j).shutdownRequested = true → nd.shutdownRequested = true) → Grows s (s.set j nd) i := by
    intro j nd hhist hreq
    unfold Grows
    by_cases hij : i = j
    · subst hij
      rw [State.set_node_self]
      exact ⟨hhist, hreq⟩
    · rw [State.set_node_of_ne s nd hij]
      exact ⟨List.prefix_rfl, fun hr => hr⟩
  cases step_cases hstep with
  | run j => exact hset List.prefix_rfl fun hr => hr
  | request j code => exact hset (List.prefix_append ..) fun hr => hr
  | deliver m hm => exact hset (j := m.target) (List.prefix_append ..) fun hr => hr
  | notify j c hi hc hlr => exact hset (j := j) List.prefix_rfl fun hr => hr
  | cleanUp j c hc hlast => exact hset List.prefix_rfl fun _ => rfl
  | wake j hw hreq => exact hset List.prefix_rfl fun hr => hr
  | pass j hw hall => exact hset List.prefix_rfl fun hr => hr

theorem grows_of_run {s t : State n} {es : List (Event n)} (hrun : run step s es = some t) (i : Fin n) :
    Grows s t i := by
  induction es generalizing s with
  | nil =>
    cases hrun
    exact ⟨List.prefix_rfl, fun hr => hr⟩
  | cons e es ih =>
    obtain ⟨s', hstep, hrest⟩ := run_cons_eq_some.mp hrun
    have hfirst := grows_of_step hstep i
    have hrest := ih hrest
    exact ⟨hfirst.1.trans hrest.1, fun hr => hrest.2 (hfirst.2 hr)⟩

theorem Bounded.of_grows {s t : State n} (hgrows : ∀ i, Grows s t i) (ht : t.Bounded) : s.Bounded :=
  fun i => (hgrows i).1.length_le.trans (ht i)

theorem inv_of_run {es : List (Event n)} {s : State n} (hrun : run step (State.init n) es = some s)
    (hbound : s.Bounded) : Inv s := by
  induction es using List.reverseRecOn generalizing s with
  | nil =>
    cases hrun
    exact Inv.init n
  | append_singleton es e ih =>
    obtain ⟨t, ht, hstep⟩ := run_snoc_eq_some.mp hrun
    exact (ih ht (Bounded.of_grows (grows_of_step hstep) hbound)).step hbound hstep

/-! ## The first call decides -/

/-- On every node the first call of `shutdown` decides the result code, its code comes from a node that was asked
locally, the shutdown tasks are spawned at most once, `wait_for_shutdown` returns the code only when every node has
been asked, and no call uses the deleted runtime. -/
structure FirstWins (s : State n) : Prop where
  code : ∀ i, (s.node i).shutdownRequested = true → ∃ lr, s.First i lr (s.node i).shutdownResultCode
  origin : ∀ i lr code, s.First i lr code → ∃ j, s.First j true code
  tasks : ∀ i, (s.node i).shutdownTasks ≤ 1
  calls : ∀ i, (s.node i).calls.length ≤ 1
  returned : ∀ i code, (s.node i).waiter = .returned code →
    code = (s.node i).shutdownResultCode ∧ ∀ j, (s.node j).shutdownRequested = true
  live : ∀ i, (s.node i).usedAfterFree = false

theorem Inv.firstWins {s : State n} (h : Inv s) : FirstWins s where
  code := by
    intro i hreq
    cases (h.node i).progress with
    | idle _ _ requested => simp [hreq] at requested
    | running _ _ _ _ _ _ requested => simp [hreq] at requested
    | finished lr history => exact ⟨lr, history⟩
  origin := by
    intro i lr code hf
    cases lr with
    | true => exact ⟨i, hf⟩
    | false => exact h.origin i code hf
  tasks := by
    intro i
    cases (h.node i).progress with
    | idle _ _ _ tasks => omega
    | running _ _ _ _ _ _ _ tasks => omega
    | finished _ _ _ _ tasks => exact tasks
  calls := by
    intro i
    cases (h.node i).progress with
    | idle _ calls => simp [calls]
    | running _ _ _ _ calls => simp [calls]
    | finished _ _ calls => simp [calls]
  returned := by
    intro i code hw
    exact ⟨(h.node i).returned code hw, fun j => (h.node j).waiting (h.barrier i code hw j)⟩
  live := fun i => (h.node i).live

/-- **The first call decides**, in every interleaving of the nodes, as long as no node is called more than `2 ^ 31`
times: whatever comes later leaves the result code of a node that was asked as it is. -/
theorem firstWins_of_run (es es' : List (Event n)) (s t : State n) (hrun : run step (State.init n) es = some s)
    (hrun' : run step s es' = some t) (hbound : t.Bounded) :
    FirstWins s ∧ FirstWins t ∧ ∀ i, (s.node i).shutdownRequested = true →
      (t.node i).shutdownRequested = true ∧ (t.node i).shutdownResultCode = (s.node i).shutdownResultCode := by
  have hgrows := grows_of_run hrun'
  have hs := (inv_of_run hrun (Bounded.of_grows hgrows hbound)).firstWins
  have hwhole : run step (State.init n) (es ++ es') = some t := by
    rw [run_append, hrun]
    exact hrun'
  have ht := (inv_of_run hwhole hbound).firstWins
  refine ⟨hs, ht, fun i hreq => ?_⟩
  have hreq' := (hgrows i).2 hreq
  obtain ⟨lr, hcode⟩ := hs.code i hreq
  obtain ⟨lr', hcode'⟩ := ht.code i hreq'
  have hsame := ((hgrows i).first hcode).symm.trans hcode'
  rw [Option.some.injEq, Prod.mk.injEq] at hsame
  exact ⟨hreq', hsame.2.symm⟩

/-- Node `i` is asked to return 7, and its message to node `j` is handled. -/
def asked (i j : Fin 2) : List (Event 2) :=
  [.request i 7, .notify i ⟨true, 7, 0⟩, .notify i ⟨true, 7, 1⟩, .deliver ⟨j, i, 7⟩, .cleanUp i ⟨true, 7, 2⟩,
    .cleanUp j ⟨false, 7, 0⟩]

/-- Both nodes return; node `j` is asked to return 8 when it is too late. -/
def tooLate (i j : Fin 2) : List (Event 2) := [.request j 8, .wake i, .wake j, .pass i, .pass j]

theorem firstWins_of_run_two : ∃ s t, run step (State.init 2) (asked 0 1) = some s ∧ run step s (tooLate 0 1) = some t ∧
    FirstWins t ∧ (t.node 1).shutdownResultCode = 7 := by
  refine ⟨_, _, rfl, rfl, ?_⟩
  have h := firstWins_of_run (asked 0 1) (tooLate 0 1) _ _ rfl rfl (Fin.forall_fin_two.mpr ⟨by decide, by decide⟩)
  exact ⟨h.2.1, (h.2.2 1 rfl).2⟩

/-! ## Everybody returns -/

def Call.weight (n : ℕ) (c : Call) : ℕ := (if c.localRequest then 3 * (n - c.i) else 0) + 1

def Waiter.weight : Waiter → ℕ
  | .sleeping => 2
  | .atBarrier => 1
  | .returned _ => 0

/-- The steps that a node has still before it, a message counted where it will be handled. -/
def Node.weight (n : ℕ) (nd : Node) : ℕ := (nd.calls.map (Call.weight n)).sum + nd.waiter.weight

def State.weight (s : State n) : ℕ := total (Node.weight n) s.node + 2 * s.network.length

theorem Call.weight_erase {n : ℕ} {calls : List Call} {c : Call} (h : c ∈ calls) :
    ((calls.erase c).map (Call.weight n)).sum + c.weight n = (calls.map (Call.weight n)).sum := by
  rw [Nat.add_comm]
  exact List.sum_map_erase _ h

/-- Every step that needs nobody outside makes the weight smaller. -/
theorem weight_lt {s s' : State n} {e : Event n} (he : e.isInternal = true) (hstep : step s e = some s') :
    s'.weight < s.weight := by
  have hset : ∀ (i : Fin n) (nd : Node),
      total (Node.weight n) (s.set i nd).node + (s.node i).weight n = total (Node.weight n) s.node + nd.weight n :=
    fun i nd => total_update (Node.weight n) s.node i nd
  cases step_cases hstep with
  | run i => cases he
  | request i code => cases he
  | deliver m hm =>
    have hw := hset m.target ((s.node m.target).shutdown false m.resultCode)
    have hnode : ((s.node m.target).shutdown false m.resultCode).weight n ≤ (s.node m.target).weight n + 1 := by
      simp only [Node.weight, Node.shutdown]
      split
      · omega
      · rw [List.map_cons, List.sum_cons]
        simp only [Call.weight, Bool.false_eq_true, if_false]
        omega
    have hlen := List.length_erase_of_mem hm
    have hpos := List.length_pos_of_mem hm
    show total (Node.weight n) (s.set m.target _).node + 2 * (s.network.erase m).length < s.weight
    unfold State.weight
    omega
  | notify i c hi hc hlr =>
    have hw : total (Node.weight n) (s.notify i c hi).node + (s.node i).weight n = total (Node.weight n) s.node +
        Node.weight n { s.node i with calls := { c with i := c.i + 1 } :: (s.node i).calls.erase c } := hset i _
    have herase := Call.weight_erase (n := n) hc
    have hnode : Node.weight n { s.node i with calls := { c with i := c.i + 1 } :: (s.node i).calls.erase c } + 3 =
        (s.node i).weight n := by
      simp only [Node.weight, List.map_cons, List.sum_cons]
      simp only [Call.weight, hlr, if_true] at herase ⊢
      omega
    have hnet : (s.notify i c hi).network.length ≤ s.network.length + 1 := by
      simp only [State.notify]
      split
      · omega
      · exact (List.length_cons ..).le
    unfold State.weight
    omega
  | cleanUp i c hc hlast =>
    have hw := hset i ((s.node i).cleanUp c)
    have herase := Call.weight_erase (n := n) hc
    have hpos : 0 < c.weight n := Nat.succ_pos _
    have hnode : ((s.node i).cleanUp c).weight n + c.weight n = (s.node i).weight n := by
      simp only [Node.weight, Node.cleanUp]
      omega
    show total (Node.weight n) (s.set i _).node + 2 * s.network.length < s.weight
    unfold State.weight
    omega
  | wake i hw hreq =>
    have htotal := hset i { s.node i with waiter := .atBarrier }
    have hnode : Node.weight n { s.node i with waiter := .atBarrier } + 1 = (s.node i).weight n := by
      simp only [Node.weight, hw, Waiter.weight]
    show total (Node.weight n) (s.set i _).node + 2 * s.network.length < s.weight
    unfold State.weight
    omega
  | pass i hw hall =>
    have htotal := hset i { s.node i with waiter := .returned (s.node i).shutdownResultCode }
    have hnode : Node.weight n { s.node i with waiter := .returned (s.node i).shutdownResultCode } + 1 =
        (s.node i).weight n := by
      simp only [Node.weight, hw, Waiter.weight]
    show total (Node.weight n) (s.set i _).node + 2 * s.network.length < s.weight
    unfold State.weight
    omega

/-- No step is left that needs nobody outside. -/
def Settled (s : State n) : Prop := ∀ e : Event n, e.isInternal = true → step s e = none

theorem Settled.network_eq_nil {s : State n} (h : Settled s) : s.network = [] := by
  by_contra hne
  obtain ⟨m, rest, hm⟩ := List.exists_cons_of_ne_nil hne
  have hmem : m ∈ s.network := by
    rw [hm]
    exact List.mem_cons_self
  have hnone := h (.deliver m) rfl
  rw [step, if_pos hmem] at hnone
  cases hnone

theorem Settled.calls_eq_nil {s : State n} (h : Settled s) (i : Fin n) : (s.node i).calls = [] := by
  by_contra hne
  obtain ⟨c, rest, hc⟩ := List.exists_cons_of_ne_nil hne
  have hmem : c ∈ (s.node i).calls := by
    rw [hc]
    exact List.mem_cons_self
  by_cases hloop : c.localRequest = true ∧ c.i < n
  · have hnone := h (.notify i c) rfl
    rw [step, dif_pos hloop.2, if_pos ⟨hmem, hloop.1⟩] at hnone
    cases hnone
  · have hnone := h (.cleanUp i c) rfl
    rw [step, if_pos ⟨hmem, fun hlr => Nat.le_of_not_lt fun hlt => hloop ⟨hlr, hlt⟩⟩] at hnone
    cases hnone

/-- Nothing is left to do when everything was handled and everybody has returned. -/
theorem settled_of {s : State n} (hnet : s.network = []) (hcalls : ∀ i, (s.node i).calls = [])
    (hwait : ∀ i, ∃ code, (s.node i).waiter = .returned code) : Settled s := by
  intro e he
  cases e with
  | run i => cases he
  | request i code => cases he
  | deliver m => simp [step, hnet]
  | notify i c => simp [step, hcalls i]
  | cleanUp i c => simp [step, hcalls i]
  | wake i =>
    obtain ⟨code, hw⟩ := hwait i
    simp [step, hw]
  | pass i =>
    obtain ⟨code, hw⟩ := hwait i
    simp [step, hw]

/-- When the calls are over and the messages are handled, every node has been asked. -/
theorem Inv.requested_of_settled {s : State n} (h : Inv s) (hs : Settled s) {i : Fin n}
    (hi : (s.node i).history ≠ []) (j : Fin n) : (s.node j).shutdownRequested = true := by
  obtain ⟨⟨lr, code⟩, rest, hcons⟩ := List.exists_cons_of_ne_nil hi
  obtain ⟨k, hk⟩ := h.firstWins.origin i lr code (congrArg List.head? hcons)
  have hj : (s.node j).history ≠ [] := by
    by_cases hjk : j = k
    · intro hnil
      unfold State.First at hk
      rw [← hjk, hnil] at hk
      cases hk
    · rcases h.notified k j code hk hjk with ⟨l, -, hcall⟩ | hmsg | hknown
      · rw [hs.calls_eq_nil k] at hcall
        cases hcall
      · rw [hs.network_eq_nil] at hmsg
        cases hmsg
      · exact hknown
  exact (h.node j).requested_of_calls hj (hs.calls_eq_nil j)

/-- **Everybody returns.**  From any reachable state the steps that need nobody outside come to an end.  If any node was
asked to shut down, then at the end every node has returned its result code, which some node was asked locally to
return; so all nodes return the same code if all nodes that were asked locally first were asked for the same. -/
theorem allReturn (es : List (Event n)) (s : State n) (hrun : run step (State.init n) es = some s)
    (hbound : s.Bounded) :
    Acc (Next step fun e : Event n => e.isInternal = true) s ∧
      ((∃ i, (s.node i).history ≠ []) → Settled s →
        (∀ i, ∃ j code, (s.node i).waiter = .returned code ∧ s.First j true code) ∧
        ∀ code₀, (∀ j code, s.First j true code → code = code₀) → ∀ i, (s.node i).waiter = .returned code₀) := by
  have h := inv_of_run hrun hbound
  refine ⟨acc_of_measure (I := fun _ => True) (C := fun e : Event n => e.isInternal = true) Nat.lt_wfRel.wf State.weight
    (fun t e t' _ he ht => ⟨trivial, weight_lt he ht⟩) trivial, ?_⟩
  rintro ⟨i₀, hi₀⟩ hs
  have hreq := h.requested_of_settled hs hi₀
  have hawake : ∀ i, (s.node i).waiter ≠ .sleeping := by
    intro i hw
    have hnone := hs (.wake i) rfl
    rw [step, if_pos ⟨hw, hreq i⟩] at hnone
    cases hnone
  have hall : ∀ i, ∃ j code, (s.node i).waiter = .returned code ∧ s.First j true code := by
    intro i
    cases hw : (s.node i).waiter with
    | sleeping => exact absurd hw (hawake i)
    | atBarrier =>
      have hnone := hs (.pass i) rfl
      rw [step, if_pos ⟨hw, hawake⟩] at hnone
      cases hnone
    | returned code =>
      obtain ⟨lr, hfirst⟩ := h.firstWins.code i (hreq i)
      obtain ⟨j, hj⟩ := h.firstWins.origin i lr _ hfirst
      rw [(h.node i).returned code hw]
      exact ⟨j, _, rfl, hj⟩
  refine ⟨hall, fun code₀ hsame i => ?_⟩
  obtain ⟨j, code, hw, hj⟩ := hall i
  rw [hw, hsame j code hj]

theorem allReturn_two : ∃ s, run step (State.init 2) (asked 0 1 ++ tooLate 0 1) = some s ∧
    ∀ i, (s.node i).waiter = .returned 7 := by
  refine ⟨_, rfl, ?_⟩
  have h := allReturn (asked 0 1 ++ tooLate 0 1) _ rfl (Fin.forall_fin_two.mpr ⟨by decide, by decide⟩)
  refine (h.2 ⟨0, List.cons_ne_nil _ _⟩ ?_).2 7 (Fin.forall_fin_two.mpr ⟨fun code hf => ?_, fun code hf => ?_⟩)
  · exact settled_of rfl (Fin.forall_fin_two.mpr ⟨rfl, rfl⟩) (Fin.forall_fin_two.mpr ⟨⟨7, rfl⟩, ⟨7, rfl⟩⟩)
  · exact (congrArg Prod.snd (Option.some.inj (hf : some (true, 7) = some (true, code)))).symm
  · cases (hf : some (false, 7) = some (true, code))

end Realm.Shutdown

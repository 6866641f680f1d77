import Mathlib.Data.List.Nodup
import Realm.Lib.Index
import Realm.Lib.Ring
import Realm.Lib.Run
import Realm.Endpoint.Basic

/-!
# Realm.Endpoint.Manager — the todo list of the endpoints (`templates/activemsg_endpoint_manager.cc`)

The manager keeps the endpoints with work on a todo list.  Whether an endpoint has work is seen under the
lock of the endpoint, the list is changed under the lock of the manager, and a pusher sends after it has
dropped both.

* `Pc`, `step`: the threads, cut at their locks; a trylock may fail at any attempt.
* `tokens`: who answers for the work of an endpoint: an entry of the list, a pusher that took it, or a
  caller on its way to the list.
* `tokens_of_run`: exactly one of them for an endpoint with work, none for an idle one; so the list has no
  duplicates and never overflows.
-/

namespace Realm.Manager

open Lib Endpoint

/-! ## The threads -/

/-- What a pusher has to send, with the endpoint unlocked. -/
inductive SendOp
  | short (hdr : OutgoingMessage)
  | long (hdr : OutgoingMessage) (destPtr : ℕ)
  | flip (buffer : ℕ) (count : ℤ)

/-- The message of a send, if it is one of the user's. -/
def SendOp.hdr? : SendOp → Option OutgoingMessage
  | .short hdr => some hdr
  | .long hdr _ => some hdr
  | .flip _ _ => none

/-- Where a thread is: outside, before `add_todo_entry`, before the trylock of the manager, at the loop
head of `ActiveMessageEndpoint::push_messages`, or between the unlock and the end of a send.  The argument
`ret` is the pusher that continues after `add_todo_entry`, `none` for the other callers. -/
inductive Pc
  | idle
  | addTodo (target : ℕ) (ret : Option ℤ)
  | manager (maxToSend : ℤ)
  | endpoint (maxToSend : ℤ) (target : ℕ) (count : ℤ) (stillMore : Bool)
  | send (maxToSend : ℤ) (target : ℕ) (count : ℤ) (stillMore : Bool) (op : SendOp)

/-- The constants of a manager: the node, its peers and the tables of their endpoints. -/
structure Config where
  totalEndpoints : ℕ
  myNodeId : ℕ
  endpoint : ℕ → EndpointConfig

/-- The endpoints, the todo list and the threads.  `pushed` counts the in-order messages enqueued for a
target, `sent` lists the stamps of those handed to the network. -/
structure State (n : ℕ) where
  endpoints : ℕ → Endpoint
  todo : Ring ℕ n
  failed : Bool
  threads : List Pc
  pushed : ℕ → ℕ
  sent : ℕ → List ℕ

/-- One locked section of thread `i`, or one send; a Boolean argument `ok` is the result of a trylock. -/
inductive Event
  | enqueue (i target : ℕ) (hdr : OutgoingMessage) (inOrder : Bool)
  | longMsgptr (i source ptr : ℕ)
  | flipRequest (i source buffer : ℕ) (count : ℤ)
  | flipAck (source buffer : ℕ)
  | assign (target : ℕ) (long : Bool) (j ptr : ℕ)
  | startPush (i : ℕ) (maxToSend : ℤ)
  | manager (i : ℕ) (ok : Bool)
  | endpoint (i : ℕ) (ok : Bool)
  | send (i : ℕ)
  | addTodo (i : ℕ)

variable (c : Config)

/-- A node has an endpoint for every other node. -/
def Config.isPeer (c : Config) (t : ℕ) : Prop := t < c.totalEndpoints ∧ t ≠ c.myNodeId

instance (c : Config) (t : ℕ) : Decidable (c.isPeer t) := inferInstanceAs (Decidable (_ ∧ _))

variable {n : ℕ}

def State.init (n threads : ℕ) : State n :=
  ⟨fun _ => .init, ⟨fun _ => 0, 0, 0, Nat.zero_le n, Nat.zero_le n⟩, false, List.replicate threads .idle,
    fun _ => 0, fun _ => []⟩

namespace State

def setPc (s : State n) (i : ℕ) (pc : Pc) : State n := { s with threads := s.threads.set i pc }

def setEndpoint (s : State n) (t : ℕ) (ep : Endpoint) : State n :=
  { s with endpoints := Function.update s.endpoints t ep }

@[simp] theorem setEndpoint_self (s : State n) (t : ℕ) (ep : Endpoint) :
    (s.setEndpoint t ep).endpoints t = ep := Function.update_self _ _ _

@[simp] theorem setEndpoint_of_ne {s : State n} {t t' : ℕ} (h : t' ≠ t) (ep : Endpoint) :
    (s.setEndpoint t ep).endpoints t' = s.endpoints t' := Function.update_of_ne h _ _

/-- A caller of a section that may fill empty queues: it goes on to `add_todo_entry` if it did. -/
def called (s : State n) (i t : ℕ) (r : Endpoint × Bool) : State n :=
  (s.setEndpoint t r.1).setPc i (if r.2 then .addTodo t none else .idle)

end State

/-- Where a pusher goes when `ActiveMessageEndpoint::push_messages` returns `stillMore`. -/
def afterPush (maxToSend : ℤ) (target : ℕ) (stillMore : Bool) : Pc :=
  if stillMore then .addTodo target (some maxToSend) else .manager maxToSend

def step (s : State c.totalEndpoints) : Event → Option (State c.totalEndpoints)
  | .enqueue i t hdr inOrder =>
    match s.threads[i]? with
    | some .idle =>
      if c.isPeer t then
        let hdr := { hdr with stamp := if inOrder then some (s.pushed t) else none }
        let s' := s.called i t ((s.endpoints t).enqueueMessage (c.endpoint t) hdr inOrder)
        some { s' with pushed := if inOrder then Function.update s.pushed t (s.pushed t + 1) else s.pushed }
      else none
    | _ => none
  | .longMsgptr i t ptr =>
    match s.threads[i]? with
    | some .idle =>
      if c.isPeer t then some (s.called i t ((s.endpoints t).handleLongMsgptr (c.endpoint t) ptr)) else none
    | _ => none
  | .flipRequest i t buffer count =>
    match s.threads[i]? with
    | some .idle =>
      if c.isPeer t then some (s.called i t ((s.endpoints t).handleFlipRequest buffer count)) else none
    | _ => none
  | .flipAck t buffer => some (s.setEndpoint t ((s.endpoints t).handleFlipAck buffer))
  | .assign t long j ptr => ((s.endpoints t).assignSrcdata long j ptr).map (s.setEndpoint t)
  | .startPush i maxToSend =>
    match s.threads[i]? with
    | some .idle => some (s.setPc i (.manager maxToSend))
    | _ => none
  | .manager i ok =>
    match s.threads[i]? with
    | some (.manager maxToSend) =>
      -- give up if the lock is taken, or if the list is empty too
      if ok = false ∨ s.todo.oldest = s.todo.newest then some (s.setPc i .idle)
      else
        some { s.setPc i (.endpoint maxToSend s.todo.front 0 true) with todo := s.todo.pop }
    | _ => none
  | .endpoint i ok =>
    match s.threads[i]? with
    | some (.endpoint maxToSend t count stillMore) =>
      if stillMore = true ∧ (maxToSend = 0 ∨ count < maxToSend) ∧ ok = true then
        match (s.endpoints t).pushIter (c.endpoint t) with
        | .sendShort hdr ep =>
          some ((s.setEndpoint t ep).setPc i (.send maxToSend t (count + 1) (!ep.isEmpty) (.short hdr)))
        | .sendLong hdr destPtr ep =>
          some ((s.setEndpoint t ep).setPc i (.send maxToSend t (count + 1) (!ep.isEmpty) (.long hdr destPtr)))
        | .flip buffer flipCount ep =>
          some ((s.setEndpoint t ep).setPc i (.send maxToSend t count stillMore (.flip buffer flipCount)))
        | .blocked => some (s.setPc i (afterPush maxToSend t stillMore))
        | .failed => none
      else some (s.setPc i (afterPush maxToSend t stillMore))
    | _ => none
  | .send i =>
    match s.threads[i]? with
    | some (.send maxToSend t count stillMore op) =>
      some { s.setPc i (.endpoint maxToSend t count stillMore) with
        sent := Function.update s.sent t (s.sent t ++ (op.hdr?.bind (·.stamp)).toList) }
    | _ => none
  | .addTodo i =>
    match s.threads[i]? with
    | some (.addTodo t ret) =>
      some { s.setPc i (ret.elim .idle .manager) with
        todo := s.todo.push t
        -- assert(todo_newest != todo_oldest); should never wrap around
        failed := s.failed || decide ((s.todo.push t).newest = s.todo.oldest) }
    | _ => none

/-- **Everything one event can do**, with the thread that does it. -/
inductive Moves (s : State c.totalEndpoints) : Event → State c.totalEndpoints → Prop
  | enqueue {i t : ℕ} {hdr : OutgoingMessage} {inOrder : Bool} (hpc : s.threads[i]? = some .idle)
    (ht : c.isPeer t) :
    Moves s (.enqueue i t hdr inOrder)
      { s.called i t ((s.endpoints t).enqueueMessage (c.endpoint t)
          { hdr with stamp := if inOrder then some (s.pushed t) else none } inOrder) with
        pushed := if inOrder then Function.update s.pushed t (s.pushed t + 1) else s.pushed }
  | longMsgptr {i t ptr : ℕ} (hpc : s.threads[i]? = some .idle) (ht : c.isPeer t) :
    Moves s (.longMsgptr i t ptr) (s.called i t ((s.endpoints t).handleLongMsgptr (c.endpoint t) ptr))
  | flipRequest {i t buffer : ℕ} {count : ℤ} (hpc : s.threads[i]? = some .idle) (ht : c.isPeer t) :
    Moves s (.flipRequest i t buffer count) (s.called i t ((s.endpoints t).handleFlipRequest buffer count))
  | flipAck {t buffer : ℕ} :
    Moves s (.flipAck t buffer) (s.setEndpoint t ((s.endpoints t).handleFlipAck buffer))
  | assign {t j ptr : ℕ} {long : Bool} {ep : Endpoint}
    (hep : (s.endpoints t).assignSrcdata long j ptr = some ep) :
    Moves s (.assign t long j ptr) (s.setEndpoint t ep)
  | startPush {i : ℕ} {maxToSend : ℤ} (hpc : s.threads[i]? = some .idle) :
    Moves s (.startPush i maxToSend) (s.setPc i (.manager maxToSend))
  | giveUp {i : ℕ} {ok : Bool} {maxToSend : ℤ} (hpc : s.threads[i]? = some (.manager maxToSend)) :
    Moves s (.manager i ok) (s.setPc i .idle)
  | take {i : ℕ} {ok : Bool} {maxToSend : ℤ} (hpc : s.threads[i]? = some (.manager maxToSend))
    (hne : s.todo.oldest ≠ s.todo.newest) :
    Moves s (.manager i ok) { s.setPc i (.endpoint maxToSend s.todo.front 0 true) with todo := s.todo.pop }
  | endpoint {i t : ℕ} {ok stillMore : Bool} {maxToSend count : ℤ} {s' : State c.totalEndpoints}
    (hpc : s.threads[i]? = some (.endpoint maxToSend t count stillMore))
    (h : step c s (.endpoint i ok) = some s') : Moves s (.endpoint i ok) s'
  | send {i t : ℕ} {maxToSend count : ℤ} {stillMore : Bool} {op : SendOp}
    (hpc : s.threads[i]? = some (.send maxToSend t count stillMore op)) :
    Moves s (.send i) { s.setPc i (.endpoint maxToSend t count stillMore) with
      sent := Function.update s.sent t (s.sent t ++ (op.hdr?.bind (·.stamp)).toList) }
  | addTodo {i t : ℕ} {ret : Option ℤ} (hpc : s.threads[i]? = some (.addTodo t ret)) :
    Moves s (.addTodo i) { s.setPc i (ret.elim .idle .manager) with
      todo := s.todo.push t
      failed := s.failed || decide ((s.todo.push t).newest = s.todo.oldest) }

variable {c}

theorem step_moves {s s' : State c.totalEndpoints} {e : Event} (h : step c s e = some s') :
    Moves c s e s' := by
  cases e with
  | flipAck t buffer =>
    cases h
    exact .flipAck
  | assign t long j ptr =>
    simp only [step, Option.map_eq_some_iff] at h
    obtain ⟨ep, hep, rfl⟩ := h
    exact .assign hep
  | endpoint i ok =>
    cases hpc : s.threads[i]? with
    | none => simp [step, hpc] at h
    | some pc =>
      cases pc with
      | endpoint maxToSend t count stillMore => exact .endpoint hpc h
      | _ => simp [step, hpc] at h
  | manager i ok =>
    simp only [step] at h
    split at h
    case h_2 => cases h
    rename_i hpc
    split at h
    · cases h
      exact .giveUp hpc
    · rename_i hne
      cases h
      exact .take hpc (not_or.mp hne).2
  | startPush i maxToSend =>
    simp only [step] at h
    split at h
    case h_2 => cases h
    rename_i hpc
    cases h
    exact .startPush hpc
  | send i =>
    simp only [step] at h
    split at h
    case h_2 => cases h
    rename_i hpc
    cases h
    exact .send hpc
  | addTodo i =>
    simp only [step] at h
    split at h
    case h_2 => cases h
    rename_i hpc
    cases h
    exact .addTodo hpc
  -- the sections that other threads call for a peer
  | _ =>
    simp only [step] at h
    split at h
    case h_2 => cases h
    rename_i hpc
    split at h
    case isFalse => cases h
    rename_i ht
    cases h
    constructor <;> assumption

variable (c)

/-! ## Tokens -/

/-- The thread answers for the work of `t`. -/
def Pc.holds (t : ℕ) : Pc → Bool
  | .idle => false
  | .addTodo target _ => target == t
  | .manager _ => false
  | .endpoint _ target _ stillMore => target == t && stillMore
  | .send _ target _ stillMore _ => target == t && stillMore

/-- Everybody who answers for the work of `t`. -/
def State.tokens (s : State n) (t : ℕ) : ℕ := s.todo.contents.count t + s.threads.countP (Pc.holds t)

/-- One token for every endpoint with work, and no other. -/
structure Inv (s : State c.totalEndpoints) : Prop where
  tokens : ∀ t, s.tokens t = if (s.endpoints t).isEmpty then 0 else 1
  peers : ∀ t, (s.endpoints t).isEmpty = false → c.isPeer t
  failed : s.failed = false

variable {c}

theorem Inv.init (threads : ℕ) : Inv c (State.init c.totalEndpoints threads) where
  tokens := by
    intro t
    have hidle : (List.replicate threads Pc.idle).countP (Pc.holds t) = 0 := by
      rw [List.countP_eq_zero]
      intro pc hpc
      rw [List.eq_of_mem_replicate hpc]
      exact Bool.false_ne_true
    simp [State.init, State.tokens, hidle, Ring.contents, Ring.size, Endpoint.init, isEmpty]
  peers := fun _ h => absurd h (by simp [State.init, Endpoint.init, isEmpty])
  failed := rfl

variable {s s' : State c.totalEndpoints} {i : ℕ} {pc pc' : Pc}

theorem tokens_setPc (h : s.threads[i]? = some pc) (pc' : Pc) (t : ℕ) :
    (s.setPc i pc').tokens t + (if pc.holds t then 1 else 0) =
      s.tokens t + if pc'.holds t then 1 else 0 := by
  have := countP_set (Pc.holds t) pc' h
  unfold State.tokens State.setPc
  dsimp only
  omega

/-- A thread that moves without taking or dropping a token. -/
theorem Inv.setPc (hs : Inv c s) (h : s.threads[i]? = some pc) (hpc : ∀ t, pc'.holds t = pc.holds t) :
    Inv c (s.setPc i pc') where
  tokens := by
    intro t
    have ht := tokens_setPc h pc' t
    rw [hpc t] at ht
    exact (Nat.add_right_cancel ht).trans (hs.tokens t)
  peers := hs.peers
  failed := hs.failed

/-- A section that leaves the queues as full or as empty as they were. -/
theorem Inv.setEndpoint (hs : Inv c s) {t : ℕ} {ep : Endpoint} (h : ep.isEmpty = (s.endpoints t).isEmpty) :
    Inv c (s.setEndpoint t ep) := by
  have hempty : ∀ t', ((s.setEndpoint t ep).endpoints t').isEmpty = (s.endpoints t').isEmpty := by
    intro t'
    by_cases ht : t' = t
    · subst ht
      rw [State.setEndpoint_self, h]
    · rw [State.setEndpoint_of_ne ht]
  exact ⟨fun t' => by rw [hempty]; exact hs.tokens t', fun t' h' => hs.peers t' (by rwa [hempty] at h'),
    hs.failed⟩

/-- What `enqueue_message`, `handle_long_msgptr` and `handle_flip_request` report: whether they put a
message into empty queues. -/
def Fills (ep : Endpoint) (r : Endpoint × Bool) : Prop :=
  (r.1.isEmpty = false ∧ r.2 = ep.isEmpty) ∨ (r.1.isEmpty = ep.isEmpty ∧ r.2 = false)

theorem fills_enqueueMessage (ec : EndpointConfig) (ep : Endpoint) (hdr : OutgoingMessage) (inOrder : Bool) :
    Fills ep (ep.enqueueMessage ec hdr inOrder) := by
  unfold enqueueMessage
  dsimp only
  split <;> exact Or.inl ⟨by simp [isEmpty], rfl⟩

theorem fills_setRCount (ep : Endpoint) (b : ℕ) (r : ℤ) : Fills ep (ep.setRCount b r) := by
  unfold setRCount
  dsimp only
  split
  · exact Or.inl ⟨by simp [isEmpty], rfl⟩
  · exact Or.inr ⟨rfl, rfl⟩

theorem fills_handleLongMsgptr (ec : EndpointConfig) (ep : Endpoint) (ptr : ℕ) :
    Fills ep (ep.handleLongMsgptr ec ptr) := by
  unfold handleLongMsgptr
  split
  · exact Or.inr ⟨rfl, rfl⟩
  · exact fills_setRCount _ _ _

/-- **Filling empty queues makes a token.** -/
theorem Inv.called (hs : Inv c s) (h : s.threads[i]? = some .idle) {t : ℕ} (ht : c.isPeer t)
    {r : Endpoint × Bool} (hr : Fills (s.endpoints t) r) : Inv c (s.called i t r) where
  tokens := by
    intro t'
    have htok : (s.called i t r).tokens t' = s.tokens t' +
        if (if r.2 then Pc.addTodo t none else .idle).holds t' then 1 else 0 :=
      tokens_setPc (s := s.setEndpoint t r.1) h _ t'
    rw [htok, hs.tokens t']
    change _ = if (Function.update s.endpoints t r.1 t').isEmpty then 0 else 1
    by_cases htt : t' = t
    · subst htt
      rw [Function.update_self]
      rcases hr with ⟨h1, h2⟩ | ⟨h1, h2⟩
      · rw [h1, h2]
        cases (s.endpoints t').isEmpty <;> simp [Pc.holds]
      · simp [h1, h2, Pc.holds]
    · rw [Function.update_of_ne htt]
      cases r.2 <;> simp [Pc.holds, Ne.symm htt]
  peers := by
    intro t' h'
    by_cases htt : t' = t
    · exact htt ▸ ht
    · exact hs.peers t' (by simpa [State.called, State.setEndpoint, State.setPc, htt] using h')
  failed := hs.failed

/-- A token belongs to an endpoint with work, and nobody else has one for it. -/
theorem Inv.of_holds (hs : Inv c s) {t : ℕ} (h : 0 < s.tokens t) :
    (s.endpoints t).isEmpty = false ∧ s.tokens t = 1 := by
  have ht := hs.tokens t
  cases he : (s.endpoints t).isEmpty with
  | true => simp [he, h.ne'] at ht
  | false => simpa [he] using ht

theorem tokens_pos_of_thread (h : s.threads[i]? = some pc) {t : ℕ} (hpc : pc.holds t = true) :
    0 < s.tokens t := by
  have : 0 < s.threads.countP (Pc.holds t) := List.countP_pos_iff.mpr ⟨pc, List.mem_of_getElem? h, hpc⟩
  unfold State.tokens
  omega

/-- **A pusher keeps its token as long as there is more.** -/
theorem Inv.pop (hs : Inv c s) {maxToSend count count' : ℤ} {t : ℕ}
    (h : s.threads[i]? = some (.endpoint maxToSend t count true)) (ep : Endpoint) (op : SendOp) :
    Inv c ((s.setEndpoint t ep).setPc i (.send maxToSend t count' (!ep.isEmpty) op)) := by
  have hpos : 0 < s.tokens t := tokens_pos_of_thread h (by simp [Pc.holds])
  obtain ⟨hwork, hone⟩ := hs.of_holds hpos
  refine ⟨fun t' => ?_, fun t' h' => ?_, hs.failed⟩
  · have htok : ((s.setEndpoint t ep).setPc i (.send maxToSend t count' (!ep.isEmpty) op)).tokens t' + _ =
        s.tokens t' + _ := tokens_setPc (s := s.setEndpoint t ep) h _ t'
    change _ = if (Function.update s.endpoints t ep t').isEmpty then 0 else 1
    by_cases htt : t' = t
    · subst htt
      rw [Function.update_self]
      rw [hone] at htok
      cases hep : ep.isEmpty <;> simp [hep, Pc.holds] at htok ⊢ <;> omega
    · rw [Function.update_of_ne htt, ← hs.tokens t']
      simpa [Pc.holds, Ne.symm htt] using htok
  · by_cases htt : t' = t
    · exact htt ▸ hs.peers t hwork
    · exact hs.peers t' (by simpa [State.setEndpoint, State.setPc, htt] using h')

theorem Inv.count_le (hs : Inv c s) (t : ℕ) : s.tokens t ≤ 1 := by
  rw [hs.tokens t]
  split <;> omega

theorem Inv.nodup (hs : Inv c s) : s.todo.contents.Nodup := by
  rw [List.nodup_iff_count_le_one]
  intro t
  have := hs.count_le t
  unfold State.tokens at this
  omega

theorem Inv.isPeer_of_mem (hs : Inv c s) {t : ℕ} (h : t ∈ s.todo.contents) : c.isPeer t := by
  have hpos : 0 < s.tokens t := Nat.add_pos_left (List.count_pos_iff.mpr h) _
  exact hs.peers t (hs.of_holds hpos).1

/-- **There is room for a token that is on its way to the list.** -/
theorem Inv.size_lt (hs : Inv c s) {t : ℕ} {ret : Option ℤ} (h : s.threads[i]? = some (.addTodo t ret)) :
    s.todo.size < c.totalEndpoints := by
  have hpos : 0 < s.threads.countP (Pc.holds t) :=
    List.countP_pos_iff.mpr ⟨_, List.mem_of_getElem? h, by simp [Pc.holds]⟩
  have hone : s.todo.contents.count t + s.threads.countP (Pc.holds t) ≤ 1 := hs.count_le t
  have hnot : t ∉ s.todo.contents := List.count_eq_zero.mp (by omega)
  apply Ring.size_lt_of_nodup (List.nodup_cons.mpr ⟨hnot, hs.nodup⟩)
  intro x hx
  rcases List.mem_cons.mp hx with rfl | hx
  · exact (hs.peers x (hs.of_holds (Nat.add_pos_right _ hpos)).1).1
  · exact (hs.isPeer_of_mem hx).1

theorem Inv.addTodo (hs : Inv c s) {t : ℕ} {ret : Option ℤ} (h : s.threads[i]? = some (.addTodo t ret)) :
    Inv c { s.setPc i (ret.elim .idle .manager) with
      todo := s.todo.push t
      failed := s.failed || decide ((s.todo.push t).newest = s.todo.oldest) } where
  tokens := by
    intro t'
    have hcount := countP_set (Pc.holds t') (ret.elim .idle .manager) h
    have hnone : (ret.elim Pc.idle Pc.manager).holds t' = false := by cases ret <;> rfl
    refine Eq.trans ?_ (hs.tokens t')
    unfold State.tokens State.setPc
    dsimp only
    rw [Ring.contents_push (hs.size_lt h), List.count_append, List.count_singleton]
    rw [hnone] at hcount
    by_cases htt : t = t'
    · simp [Pc.holds, htt] at hcount ⊢
      omega
    · simp [Pc.holds, htt] at hcount ⊢
      exact hcount
  peers := hs.peers
  failed := by
    dsimp only
    rw [hs.failed, Bool.false_or, decide_eq_false_iff_not]
    exact Ring.newest_push_ne (hs.size_lt h) t

theorem Inv.take (hs : Inv c s) {maxToSend : ℤ} (h : s.threads[i]? = some (.manager maxToSend))
    (hne : s.todo.oldest ≠ s.todo.newest) :
    Inv c { s.setPc i (.endpoint maxToSend s.todo.front 0 true) with todo := s.todo.pop } where
  tokens := by
    intro t'
    have hcount := countP_set (Pc.holds t') (.endpoint maxToSend s.todo.front 0 true) h
    refine Eq.trans ?_ (hs.tokens t')
    unfold State.tokens State.setPc
    dsimp only
    rw [Ring.contents_pop hne, List.count_cons]
    by_cases htt : s.todo.front = t'
    · simp [Pc.holds, htt] at hcount ⊢
      omega
    · simp [Pc.holds, htt] at hcount ⊢
      exact hcount
  peers := hs.peers
  failed := hs.failed

theorem isEmpty_assignSrcdata {ep ep' : Endpoint} {long : Bool} {j ptr : ℕ}
    (h : ep.assignSrcdata long j ptr = some ep') : ep'.isEmpty = ep.isEmpty := by
  have hset : ∀ (l : List OutgoingMessage) (x : OutgoingMessage), (l.set j x).isEmpty = l.isEmpty := by
    intro l x
    cases l with
    | nil => rfl
    | cons a l => cases j <;> rfl
  obtain ⟨hdr, ⟨-, rfl⟩ | ⟨-, rfl⟩⟩ := assignSrcdata_cases h
  · simp only [isEmpty, hset]
  · simp only [isEmpty, hset]

theorem holds_afterPush (maxToSend count : ℤ) (target : ℕ) (stillMore : Bool) (t : ℕ) :
    (afterPush maxToSend target stillMore).holds t =
      (Pc.endpoint maxToSend target count stillMore).holds t := by
  cases stillMore <;> simp [afterPush, Pc.holds]

/-- An iteration of `ActiveMessageEndpoint::push_messages`. -/
theorem Inv.endpoint (hs : Inv c s) {maxToSend count : ℤ} {t : ℕ} {stillMore ok : Bool}
    (h : s.threads[i]? = some (.endpoint maxToSend t count stillMore))
    (hstep : step c s (.endpoint i ok) = some s') : Inv c s' := by
  simp only [step, h] at hstep
  split at hstep
  · rename_i hgo
    obtain ⟨rfl, -, -⟩ := hgo
    have hp := pushIter_spec (c.endpoint t) (s.endpoints t)
    generalize pushIter (c.endpoint t) (s.endpoints t) = o at hstep hp
    cases hp with
    | short hq =>
      cases hstep
      exact hs.pop h _ _
    | ordered hq hl h0 =>
      cases hstep
      exact hs.pop h _ _
    | direct hq hl h0 hd =>
      cases hstep
      exact hs.pop h _ _
    | place hq hl h0 hd ha hfit =>
      cases hstep
      exact hs.pop h _ _
    | flip hq hl ha hz hfull =>
      -- a flip leaves the queues alone
      cases hstep
      exact (hs.setEndpoint (by rfl)).setPc h fun _ => rfl
    | blocked =>
      cases hstep
      exact hs.setPc h (holds_afterPush maxToSend count t true)
    | failed => cases hstep
  · cases hstep
    exact hs.setPc h (holds_afterPush maxToSend count t stillMore)

theorem Inv.step (hs : Inv c s) {e : Event} (h : step c s e = some s') : Inv c s' := by
  cases step_moves h with
  | @enqueue i t hdr inOrder hpc ht =>
    have hc := hs.called hpc ht (fills_enqueueMessage (c.endpoint t) (s.endpoints t)
      { hdr with stamp := if inOrder then some (s.pushed t) else none } inOrder)
    exact ⟨hc.tokens, hc.peers, hc.failed⟩
  | longMsgptr hpc ht => exact hs.called hpc ht (fills_handleLongMsgptr _ _ _)
  | flipRequest hpc ht => exact hs.called hpc ht (fills_setRCount _ _ _)
  | flipAck => exact hs.setEndpoint rfl
  | assign hep => exact hs.setEndpoint (isEmpty_assignSrcdata hep)
  | startPush hpc => exact hs.setPc hpc fun _ => rfl
  | giveUp hpc => exact hs.setPc hpc fun _ => rfl
  | take hpc hne => exact hs.take hpc hne
  | endpoint hpc h => exact hs.endpoint hpc h
  | @send i t maxToSend count stillMore op hpc =>
    have hc : Inv c (s.setPc i (.endpoint maxToSend t count stillMore)) := hs.setPc hpc fun _ => rfl
    exact ⟨hc.tokens, hc.peers, hc.failed⟩
  | addTodo hpc => exact hs.addTodo hpc

/-- **The todo list loses no work and never overflows**: in every state that any number of threads can
reach, an endpoint has work if and only if exactly one token answers for it, no endpoint is twice on the
list, and no entry has found the list full. -/
theorem tokens_of_run (c : Config) (threads : ℕ) {es : List Event} {s : State c.totalEndpoints}
    (h : run (step c) (State.init c.totalEndpoints threads) es = some s) :
    (∀ t, ((s.endpoints t).outShortHdrs ≠ [] ∨ (s.endpoints t).outLongHdrs ≠ []) ↔ s.tokens t = 1) ∧
      (∀ t, s.tokens t ≤ 1) ∧ s.todo.contents.Nodup ∧ s.failed = false := by
  have hs : Inv c s := run_inv (fun _ _ _ ht h => ht.step h) (Inv.init threads) h
  refine ⟨fun t => ?_, hs.count_le, hs.nodup, hs.failed⟩
  have ht := hs.tokens t
  rw [← not_and_or, ← Endpoint.isEmpty_iff]
  split at ht
  · rename_i he
    simp [he, ht]
  · rename_i he
    simp [he, ht]

/-- Node `0` with one peer, node `1`. -/
def twoNodes : Config := ⟨2, 0, fun _ => ⟨2, 1024, 512, fun _ => 0, fun _ => 0⟩⟩

/-- A message is enqueued by one thread, taken by a second one and sent, while a third enqueues another. -/
theorem tokens_twoMessages :
    ∃ s, run (step twoNodes) (State.init 2 3)
        [.enqueue 0 1 (OutgoingMessage.mk' 1 []) true, .addTodo 0, .startPush 1 0, .manager 1 true,
          .endpoint 1 true, .enqueue 2 1 (OutgoingMessage.mk' 2 []) true, .send 1] = some s ∧
      s.tokens 1 = 1 ∧ s.todo.contents.Nodup ∧ s.failed = false := by
  obtain ⟨s, hs⟩ : ∃ s, run (step twoNodes) (State.init 2 3)
      [.enqueue 0 1 (OutgoingMessage.mk' 1 []) true, .addTodo 0, .startPush 1 0, .manager 1 true,
        .endpoint 1 true, .enqueue 2 1 (OutgoingMessage.mk' 2 []) true, .send 1] = some s := ⟨_, rfl⟩
  obtain ⟨htok, -, hnodup, hok⟩ := tokens_of_run twoNodes 3 hs
  refine ⟨s, hs, (htok 1).mp (Or.inr ?_), hnodup, hok⟩
  cases hs
  exact List.cons_ne_nil _ _

end Realm.Manager

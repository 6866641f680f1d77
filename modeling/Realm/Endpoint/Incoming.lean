import Mathlib.Data.List.Nodup
import Realm.Lib.Chain
import Realm.Lib.Overlay
import Realm.Lib.Ring
import Realm.Lib.Run

/-!
# Realm.Endpoint.Incoming — queues of incoming messages (`templates/activemsg_incoming_manager_impl.cc`)

For every sender the manager keeps a list of messages, linked through their `next_msg`, and for the senders whose
list is not empty an entry in a circular `todo_list`.  Handler threads take whole lists.  `M` is the type of the
`IncomingMessage *`s.

* `addIncomingMessage`, `getMessages`: the sections under the lock; `none` is a failed assertion in the first, and
  a caller that has to wait in the second.
* `step`: one section, or one message handled by one of the threads.
* `Rep`: the messages that each list holds.
* `manager_correct`: no message is lost, duplicated or reordered.
-/

namespace Realm.Incoming

open Lib

variable {M : Type} {nodes : ℕ}

/-! ## The manager -/

/-- `IncomingMessageManager`, with the `next_msg` fields of the messages.  A pointer to such a field is named by the
message that it belongs to. -/
structure Manager (M : Type) (nodes : ℕ) where
  nextMsg : M → Option M
  heads : ℕ → Option M
  tails : ℕ → Option M
  todo : Ring ℕ nodes
  shutdownFlag : Bool

namespace Manager

variable [DecidableEq M]

def init : Manager M nodes where
  nextMsg _ := none
  heads _ := none
  tails _ := none
  todo := ⟨fun _ => 0, 0, 0, Nat.zero_le _, Nat.zero_le _⟩
  shutdownFlag := false

/-- The constructor of a message: `next_msg(0)` -/
def newMessage (mgr : Manager M nodes) (msg : M) : Manager M nodes :=
  { mgr with nextMsg := Function.update mgr.nextMsg msg none }

/-- `add_incoming_message` -/
def addIncomingMessage (mgr : Manager M nodes) (sender : ℕ) (msg : M) : Option (Manager M nodes) :=
  if (mgr.heads sender).isSome then do
    -- tack this on to the existing list
    let tail ← mgr.tails sender
    return { mgr with
      nextMsg := Function.update mgr.nextMsg tail (some msg)
      tails := Function.update mgr.tails sender (some msg) }
  else
    -- this starts a list, and the node needs to be added to the todo list
    let todo := mgr.todo.push sender
    if todo.newest ≠ todo.oldest then
      some { mgr with
        heads := Function.update mgr.heads sender (some msg)
        tails := Function.update mgr.tails sender (some msg)
        todo := todo }
    else none

theorem addIncomingMessage_of_some (mgr : Manager M nodes) {sender : ℕ} {msg head tail : M}
    (hhead : mgr.heads sender = some head) (htail : mgr.tails sender = some tail) :
    mgr.addIncomingMessage sender msg = some { mgr with
      nextMsg := Function.update mgr.nextMsg tail (some msg)
      tails := Function.update mgr.tails sender (some msg) } := by
  rw [addIncomingMessage, hhead, htail]
  rfl

theorem addIncomingMessage_of_none (mgr : Manager M nodes) {sender : ℕ} {msg : M}
    (hhead : mgr.heads sender = none) (hroom : (mgr.todo.push sender).newest ≠ mgr.todo.oldest) :
    mgr.addIncomingMessage sender msg = some { mgr with
      heads := Function.update mgr.heads sender (some msg)
      tails := Function.update mgr.tails sender (some msg)
      todo := mgr.todo.push sender } := by
  rw [addIncomingMessage, hhead]
  exact if_pos hroom

/-- `get_messages`: the `sender`, the returned list, and the manager afterwards. -/
def getMessages (mgr : Manager M nodes) (wait : Bool) : Option (ℤ × Option M × Manager M nodes) :=
  if mgr.todo.oldest = mgr.todo.newest then
    if mgr.shutdownFlag || !wait then some (-1, none, mgr) else none
  else
    -- pop the oldest entry off the todo list
    let sender := mgr.todo.front
    some (sender, mgr.heads sender, { mgr with
      heads := Function.update mgr.heads sender none
      tails := Function.update mgr.tails sender none
      todo := mgr.todo.pop })

/-- `shutdown` -/
def shutdown (mgr : Manager M nodes) : Manager M nodes := { mgr with shutdownFlag := true }

end Manager

/-! ## The system -/

/-- The manager, the messages that have been created and not deleted, and the `current_msg` of every handler thread.
The rest is history: the messages added and returned for each sender, and those that each thread was given and has
handled. -/
structure State (M : Type) (nodes : ℕ) where
  mgr : Manager M nodes
  live : M → Bool
  current : ℕ → Option M
  added : ℕ → List M
  returned : ℕ → List M
  given : ℕ → List M
  handled : ℕ → List M

def State.init [DecidableEq M] : State M nodes :=
  ⟨.init, fun _ => false, fun _ => none, fun _ => [], fun _ => [], fun _ => [], fun _ => []⟩

inductive Event (M : Type)
  | add (sender : ℕ) (msg : M)
  | get (thread : ℕ) (wait : Bool)
  | handle (thread : ℕ)
  | shutdown

section Step

variable [DecidableEq M]

def State.add (st : State M nodes) (sender : ℕ) (msg : M) : Option (State M nodes) := do
  let mgr ← (st.mgr.newMessage msg).addIncomingMessage sender msg
  return { st with
    mgr := mgr
    live := Function.update st.live msg true
    added := Function.update st.added sender (st.added sender ++ [msg]) }

/-- The list that a thread is given is what it finds when it follows the links. -/
def State.get (st : State M nodes) (thread : ℕ) (wait : Bool) : Option (State M nodes) := do
  let (sender, retval, mgr) ← st.mgr.getMessages wait
  if retval = none then return { st with mgr := mgr }
  else
    let list := follow st.mgr.nextMsg (st.added sender.toNat).length retval
    return { st with
      mgr := mgr
      current := Function.update st.current thread retval
      returned := Function.update st.returned sender.toNat (st.returned sender.toNat ++ list)
      given := Function.update st.given thread (st.given thread ++ list) }

/-- The loop over a list: `next_msg` is read first, then the handler runs and the message is deleted. -/
def State.handle (st : State M nodes) (thread : ℕ) : Option (State M nodes) := do
  let msg ← st.current thread
  return { st with
    current := Function.update st.current thread (st.mgr.nextMsg msg)
    live := Function.update st.live msg false
    handled := Function.update st.handled thread (st.handled thread ++ [msg]) }

/-- Messages are added by senders that exist, and are new; a thread asks for a list when it is done with the last. -/
def step (st : State M nodes) : Event M → Option (State M nodes)
  | .add sender msg => if sender < nodes ∧ st.live msg = false then st.add sender msg else none
  | .get thread wait => if st.current thread = none then st.get thread wait else none
  | .handle thread => st.handle thread
  | .shutdown => some { st with mgr := st.mgr.shutdown }

end Step

/-! ## Lists -/

/-- The lists `queue` of the senders and `held` of the threads have no message in common: each has one `owner`. -/
structure Owned (live : M → Bool) (queue held : ℕ → List M) (owner : M → ℕ ⊕ ℕ) : Prop where
  queue_nodup : ∀ s, (queue s).Nodup
  held_nodup : ∀ t, (held t).Nodup
  queue_owner : ∀ s, ∀ m ∈ queue s, owner m = .inl s ∧ live m = true
  held_owner : ∀ t, ∀ m ∈ held t, owner m = .inr t ∧ live m = true

namespace Owned

variable {live : M → Bool} {queue held : ℕ → List M} {owner : M → ℕ ⊕ ℕ} {s s' t t' : ℕ} {m : M}

theorem not_mem_queue (h : Owned live queue held owner) (hm : live m = false) : m ∉ queue s := by
  intro hmem
  rw [(h.queue_owner s m hmem).2] at hm
  cases hm

theorem not_mem_held (h : Owned live queue held owner) (hm : live m = false) : m ∉ held t := by
  intro hmem
  rw [(h.held_owner t m hmem).2] at hm
  cases hm

theorem not_mem_queue_of_ne (h : Owned live queue held owner) (hm : m ∈ queue s) (hne : s' ≠ s) : m ∉ queue s' := by
  intro hmem
  have heq := (h.queue_owner s m hm).1.symm.trans (h.queue_owner s' m hmem).1
  exact hne (Sum.inl.inj heq).symm

theorem not_mem_held_of_queue (h : Owned live queue held owner) (hm : m ∈ queue s) : m ∉ held t := by
  intro hmem
  have heq := (h.queue_owner s m hm).1.symm.trans (h.held_owner t m hmem).1
  cases heq

theorem not_mem_queue_of_held (h : Owned live queue held owner) (hm : m ∈ held t) : m ∉ queue s :=
  fun hmem => h.not_mem_held_of_queue hmem hm

theorem not_mem_held_of_ne (h : Owned live queue held owner) (hm : m ∈ held t) (hne : t' ≠ t) : m ∉ held t' := by
  intro hmem
  have heq := (h.held_owner t m hm).1.symm.trans (h.held_owner t' m hmem).1
  exact hne (Sum.inr.inj heq).symm

variable [DecidableEq M]

/-- A new message at the end of a queue. -/
theorem add (h : Owned live queue held owner) (hm : live m = false) (s : ℕ) :
    Owned (Function.update live m true) (Function.update queue s (queue s ++ [m])) held
      (Function.update owner m (.inl s)) := by
  have hkeep : ∀ x, x ≠ m → Function.update owner m (.inl s) x = owner x ∧ Function.update live m true x = live x :=
    fun x hx => ⟨Function.update_of_ne hx _ _, Function.update_of_ne hx _ _⟩
  constructor
  case queue_nodup =>
    intro s'
    rcases eq_or_ne s' s with rfl | hne
    · rw [Function.update_self]
      exact List.nodup_append.mpr ⟨h.queue_nodup s', List.nodup_singleton m, by
        rintro x hx y hy rfl
        exact h.not_mem_queue hm (List.mem_singleton.mp hy ▸ hx)⟩
    · rw [Function.update_of_ne hne]
      exact h.queue_nodup s'
  case held_nodup => exact h.held_nodup
  case queue_owner =>
    intro s' x hx
    rcases eq_or_ne x m with rfl | hxm
    · rcases eq_or_ne s' s with rfl | hne
      · simp
      · rw [Function.update_of_ne hne] at hx
        exact absurd hx (h.not_mem_queue hm)
    · rw [(hkeep x hxm).1, (hkeep x hxm).2]
      rcases eq_or_ne s' s with rfl | hne
      · rw [Function.update_self, List.mem_append, List.mem_singleton] at hx
        exact h.queue_owner s' x (hx.resolve_right hxm)
      · rw [Function.update_of_ne hne] at hx
        exact h.queue_owner s' x hx
  case held_owner =>
    intro t x hx
    have hxm : x ≠ m := by
      rintro rfl
      exact h.not_mem_held hm hx
    rw [(hkeep x hxm).1, (hkeep x hxm).2]
    exact h.held_owner t x hx

/-- A thread takes a queue. -/
theorem take (h : Owned live queue held owner) (ht : held t = []) (s : ℕ) :
    Owned live (Function.update queue s []) (Function.update held t (queue s))
      fun m => if m ∈ queue s then .inr t else owner m := by
  constructor
  case queue_nodup =>
    intro s'
    rcases eq_or_ne s' s with rfl | hne
    · simp
    · rw [Function.update_of_ne hne]
      exact h.queue_nodup s'
  case held_nodup =>
    intro t'
    rcases eq_or_ne t' t with rfl | hne
    · rw [Function.update_self]
      exact h.queue_nodup s
    · rw [Function.update_of_ne hne]
      exact h.held_nodup t'
  case queue_owner =>
    intro s' x hx
    rcases eq_or_ne s' s with rfl | hne
    · simp at hx
    · rw [Function.update_of_ne hne] at hx
      rw [if_neg fun hmem => h.not_mem_queue_of_ne hmem hne hx]
      exact h.queue_owner s' x hx
  case held_owner =>
    intro t' x hx
    rcases eq_or_ne t' t with rfl | hne
    · rw [Function.update_self] at hx
      exact ⟨if_pos hx, (h.queue_owner s x hx).2⟩
    · rw [Function.update_of_ne hne] at hx
      rw [if_neg fun hmem => h.not_mem_held_of_queue hmem hx]
      exact h.held_owner t' x hx

/-- A thread is done with the first message of its list. -/
theorem drop (h : Owned live queue held owner) {l : List M} (ht : held t = m :: l) :
    Owned (Function.update live m false) queue (Function.update held t l) owner := by
  have hmem : m ∈ held t := ht ▸ List.mem_cons_self
  have hnodup := h.held_nodup t
  rw [ht] at hnodup
  constructor
  case queue_nodup => exact h.queue_nodup
  case held_nodup =>
    intro t'
    rcases eq_or_ne t' t with rfl | hne
    · rw [Function.update_self]
      exact (List.nodup_cons.mp hnodup).2
    · rw [Function.update_of_ne hne]
      exact h.held_nodup t'
  case queue_owner =>
    intro s x hx
    have hxm : x ≠ m := by
      rintro rfl
      exact h.not_mem_queue_of_held hmem hx
    rw [Function.update_of_ne hxm]
    exact h.queue_owner s x hx
  case held_owner =>
    intro t' x hx
    rcases eq_or_ne t' t with rfl | hne
    · rw [Function.update_self] at hx
      have hxm : x ≠ m := by
        rintro rfl
        exact (List.nodup_cons.mp hnodup).1 hx
      rw [Function.update_of_ne hxm]
      exact h.held_owner t' x (ht ▸ List.mem_cons_of_mem m hx)
    · rw [Function.update_of_ne hne] at hx
      have hxm : x ≠ m := by
        rintro rfl
        exact h.not_mem_held_of_ne hmem hne hx
      rw [Function.update_of_ne hxm]
      exact h.held_owner t' x hx

end Owned

/-- The pointers represent the lists, and the lists are what the history says. -/
structure Rep (st : State M nodes) (queue held : ℕ → List M) (owner : M → ℕ ⊕ ℕ) : Prop where
  owned : Owned st.live queue held owner
  heads : ∀ s, Chain st.mgr.nextMsg (st.mgr.heads s) (queue s)
  tails : ∀ s, st.mgr.tails s = (queue s).getLast?
  current : ∀ t, Chain st.mgr.nextMsg (st.current t) (held t)
  todo_nodup : st.mgr.todo.contents.Nodup
  mem_todo : ∀ s, s ∈ st.mgr.todo.contents ↔ st.mgr.heads s ≠ none
  lt_nodes : ∀ s, st.mgr.heads s ≠ none → s < nodes
  added : ∀ s, st.returned s ++ queue s = st.added s
  given : ∀ t, st.handled t ++ held t = st.given t

namespace Rep

variable {st : State M nodes} {queue held : ℕ → List M} {owner : M → ℕ ⊕ ℕ} {s : ℕ}

theorem queue_eq_nil (h : Rep st queue held owner) : queue s = [] ↔ st.mgr.heads s = none := by
  rw [(h.heads s).head_eq, List.head?_eq_none_iff]

/-- **There is room**: every sender is at most once in the todo list, so one more fits. -/
theorem size_lt (h : Rep st queue held owner) (hs : s < nodes) (hnone : st.mgr.heads s = none) :
    st.mgr.todo.size < nodes := by
  have hnot : s ∉ st.mgr.todo.contents := fun hmem => (h.mem_todo s).mp hmem hnone
  apply Ring.size_lt_of_nodup (List.nodup_cons.mpr ⟨hnot, h.todo_nodup⟩)
  intro x hx
  rcases List.mem_cons.mp hx with rfl | hx
  · exact hs
  · exact h.lt_nodes x ((h.mem_todo x).mp hx)

theorem added_snoc (h : Rep st queue held owner) (sender : ℕ) (msg : M) (s : ℕ) :
    st.returned s ++ Function.update queue sender (queue sender ++ [msg]) s =
      Function.update st.added sender (st.added sender ++ [msg]) s := by
  refine forall_update₂ (p := fun s q l => st.returned s ++ q = l) ?_ (fun s _ => h.added s) s
  rw [← List.append_assoc, h.added]

variable [DecidableEq M]

/-- **Adding** to a list that is not empty: the last message is linked to the new one. -/
theorem add_tail (h : Rep st queue held owner) {sender : ℕ} {msg tail : M} (hm : st.live msg = false)
    (htail : st.mgr.tails sender = some tail) :
    Rep { st with
        mgr := { st.mgr with
          nextMsg := Function.update (Function.update st.mgr.nextMsg msg none) tail (some msg)
          tails := Function.update st.mgr.tails sender (some msg) }
        live := Function.update st.live msg true
        added := Function.update st.added sender (st.added sender ++ [msg]) }
      (Function.update queue sender (queue sender ++ [msg])) held (Function.update owner msg (.inl sender)) := by
  have hlast : (queue sender).getLast? = some tail := (h.tails sender).symm.trans htail
  have hmem : tail ∈ queue sender := List.mem_of_getLast? hlast
  constructor
  case owned => exact h.owned.add hm sender
  case heads =>
    intro s
    have hold := (h.heads s).update (h.owned.not_mem_queue hm) none
    rcases eq_or_ne s sender with rfl | hne
    · rw [Function.update_self]
      exact hold.snoc (h.owned.queue_nodup s) hlast (h.owned.not_mem_queue hm) (Function.update_self ..)
    · rw [Function.update_of_ne hne]
      exact hold.update (h.owned.not_mem_queue_of_ne hmem hne) (some msg)
  case tails =>
    exact forall_update₂ (p := fun _ m q => m = List.getLast? q) (by simp) fun s _ => h.tails s
  case current =>
    intro t
    have hold := (h.current t).update (h.owned.not_mem_held hm) none
    exact hold.update (h.owned.not_mem_held_of_queue hmem) (some msg)
  case todo_nodup => exact h.todo_nodup
  case mem_todo => exact h.mem_todo
  case lt_nodes => exact h.lt_nodes
  case added => exact h.added_snoc sender msg
  case given => exact h.given

/-- **Adding** to an empty list: the sender goes to the todo list. -/
theorem add_head (h : Rep st queue held owner) {sender : ℕ} {msg : M} (hs : sender < nodes)
    (hm : st.live msg = false) (hnone : st.mgr.heads sender = none) :
    Rep { st with
        mgr := { st.mgr with
          nextMsg := Function.update st.mgr.nextMsg msg none
          heads := Function.update st.mgr.heads sender (some msg)
          tails := Function.update st.mgr.tails sender (some msg)
          todo := st.mgr.todo.push sender }
        live := Function.update st.live msg true
        added := Function.update st.added sender (st.added sender ++ [msg]) }
      (Function.update queue sender (queue sender ++ [msg])) held (Function.update owner msg (.inl sender)) := by
  have hempty : queue sender = [] := h.queue_eq_nil.mpr hnone
  have hcontents := Ring.contents_push (h.size_lt hs hnone) sender
  constructor
  case owned => exact h.owned.add hm sender
  case heads =>
    refine forall_update₂ (p := fun _ m q => Chain _ m q) ?_
      fun s _ => (h.heads s).update (h.owned.not_mem_queue hm) none
    rw [hempty]
    exact ⟨rfl, Function.update_self ..⟩
  case tails =>
    exact forall_update₂ (p := fun _ m q => m = List.getLast? q) (by simp) fun s _ => h.tails s
  case current =>
    intro t
    exact (h.current t).update (h.owned.not_mem_held hm) none
  case todo_nodup =>
    simp only [hcontents]
    refine List.nodup_append.mpr ⟨h.todo_nodup, List.nodup_singleton sender, ?_⟩
    rintro x hx y hy rfl
    exact (h.mem_todo x).mp hx (List.mem_singleton.mp hy ▸ hnone)
  case mem_todo =>
    intro s
    simp only [hcontents, List.mem_append, List.mem_singleton]
    rcases eq_or_ne s sender with rfl | hne
    · simp
    · rw [Function.update_of_ne hne, h.mem_todo s, or_iff_left hne]
  case lt_nodes =>
    intro s
    rcases eq_or_ne s sender with rfl | hne
    · exact fun _ => hs
    · simp only [Function.update_of_ne hne]
      exact h.lt_nodes s
  case added => exact h.added_snoc sender msg
  case given => exact h.given

/-- **Taking** the list of the oldest sender in the todo list. -/
theorem take (h : Rep st queue held owner) {t : ℕ} (ht : st.current t = none)
    (hne : st.mgr.todo.oldest ≠ st.mgr.todo.newest) :
    Rep { st with
        mgr := { st.mgr with
          heads := Function.update st.mgr.heads st.mgr.todo.front none
          tails := Function.update st.mgr.tails st.mgr.todo.front none
          todo := st.mgr.todo.pop }
        current := Function.update st.current t (st.mgr.heads st.mgr.todo.front)
        returned := Function.update st.returned st.mgr.todo.front
          (st.returned st.mgr.todo.front ++ queue st.mgr.todo.front)
        given := Function.update st.given t (st.given t ++ queue st.mgr.todo.front) }
      (Function.update queue st.mgr.todo.front []) (Function.update held t (queue st.mgr.todo.front))
      (fun m => if m ∈ queue st.mgr.todo.front then .inr t else owner m) := by
  have hheld : held t = [] := chain_none.mp (ht ▸ h.current t)
  have hcontents := Ring.contents_pop hne
  have hnodup := h.todo_nodup
  rw [hcontents, List.nodup_cons] at hnodup
  have hmem := h.mem_todo
  simp only [hcontents, List.mem_cons] at hmem
  constructor
  case owned => exact h.owned.take hheld _
  case heads =>
    exact forall_update₂ (p := fun _ m q => Chain _ m q) (chain_none.mpr rfl) fun s _ => h.heads s
  case tails => exact forall_update₂ (p := fun _ m q => m = List.getLast? q) rfl fun s _ => h.tails s
  case current =>
    exact forall_update₂ (p := fun _ m l => Chain _ m l) (h.heads _) fun t' _ => h.current t'
  case todo_nodup => exact hnodup.2
  case mem_todo =>
    intro s
    rcases eq_or_ne s st.mgr.todo.front with rfl | hs
    · simp only [Function.update_self, ne_eq, not_true, iff_false]
      exact hnodup.1
    · simp only [Function.update_of_ne hs, ← hmem s, or_iff_right hs]
  case lt_nodes =>
    intro s
    rcases eq_or_ne s st.mgr.todo.front with rfl | hs
    · simp
    · simp only [Function.update_of_ne hs]
      exact h.lt_nodes s
  case added =>
    refine forall_update₂ (p := fun s l q => l ++ q = st.added s) ?_ fun s _ => h.added s
    rw [List.append_nil]
    exact h.added _
  case given =>
    refine forall_update₂ (p := fun t l g => st.handled t ++ l = g) ?_ fun t' _ => h.given t'
    rw [← h.given t, hheld, List.append_nil]

/-- **Handling** the first message of a list. -/
theorem drop (h : Rep st queue held owner) {t : ℕ} {msg : M} (ht : st.current t = some msg) :
    ∃ held', Rep { st with
        current := Function.update st.current t (st.mgr.nextMsg msg)
        live := Function.update st.live msg false
        handled := Function.update st.handled t (st.handled t ++ [msg]) } queue held' owner := by
  obtain ⟨l, hl, hchain⟩ := chain_some.mp (ht ▸ h.current t)
  refine ⟨Function.update held t l, ?_⟩
  constructor
  case owned => exact h.owned.drop hl
  case heads => exact h.heads
  case tails => exact h.tails
  case current => exact forall_update₂ (p := fun _ m l => Chain _ m l) hchain fun t' _ => h.current t'
  case todo_nodup => exact h.todo_nodup
  case mem_todo => exact h.mem_todo
  case lt_nodes => exact h.lt_nodes
  case added => exact h.added
  case given =>
    refine forall_update₂ (p := fun t a l => a ++ l = st.given t) ?_ fun t' _ => h.given t'
    rw [List.append_assoc, List.singleton_append, ← hl]
    exact h.given t

end Rep

/-! ## Runs -/

section Runs

variable [DecidableEq M] {st st' : State M nodes}

/-- The invariant. -/
def Inv (st : State M nodes) : Prop := ∃ queue held owner, Rep st queue held owner

theorem inv_init : Inv (State.init : State M nodes) := by
  have howned : Owned (fun _ : M => false) (fun _ => []) (fun _ => []) fun _ => .inl 0 :=
    ⟨by simp, by simp, by simp, by simp⟩
  refine ⟨_, _, _, ⟨howned, fun _ => rfl, fun _ => rfl, fun _ => rfl, ?_, ?_, ?_, fun _ => rfl, fun _ => rfl⟩⟩ <;>
  simp [State.init, Manager.init, Ring.contents, Ring.size]

/-- **Adding never fails**, and keeps the invariant. -/
theorem add_spec (h : Inv st) {sender : ℕ} {msg : M} (hs : sender < nodes) (hm : st.live msg = false) :
    ∃ st', st.add sender msg = some st' ∧ Inv st' := by
  obtain ⟨queue, held, owner, h⟩ := h
  cases hhead : st.mgr.heads sender with
  | none =>
    have hroom := Ring.newest_push_ne (h.size_lt hs hhead) sender
    refine ⟨_, ?_, _, _, _, h.add_head hs hm hhead⟩
    rw [State.add, Manager.addIncomingMessage_of_none (st.mgr.newMessage msg) hhead hroom]
    rfl
  | some head =>
    have hne : queue sender ≠ [] := fun hnil => by
      rw [h.queue_eq_nil.mp hnil] at hhead
      cases hhead
    obtain ⟨tail, htail⟩ := Option.ne_none_iff_exists'.mp (List.getLast?_eq_none_iff.not.mpr hne)
    rw [← h.tails sender] at htail
    refine ⟨_, ?_, _, _, _, h.add_tail hm htail⟩
    rw [State.add, Manager.addIncomingMessage_of_some (st.mgr.newMessage msg) hhead htail]
    rfl

theorem get_inv (h : Inv st) {t : ℕ} {wait : Bool} (ht : st.current t = none) (hs : st.get t wait = some st') :
    Inv st' := by
  obtain ⟨queue, held, owner, h⟩ := h
  obtain ⟨⟨sender, retval, mgr⟩, hget, hs⟩ := Option.bind_eq_some_iff.mp hs
  unfold Manager.getMessages at hget
  split at hget
  · split at hget
    · -- nothing was there
      simp only [Option.some.injEq, Prod.mk.injEq] at hget
      obtain ⟨rfl, rfl, rfl⟩ := hget
      obtain rfl := Option.some.inj hs
      exact ⟨queue, held, owner, h⟩
    · simp at hget
  · rename_i hne
    simp only [Option.some.injEq, Prod.mk.injEq] at hget
    obtain ⟨rfl, rfl, rfl⟩ := hget
    have hmem : st.mgr.todo.front ∈ st.mgr.todo.contents := Ring.contents_pop hne ▸ List.mem_cons_self
    have hlen : (queue st.mgr.todo.front).length ≤ (st.added st.mgr.todo.front).length := by
      rw [← h.added, List.length_append]
      omega
    simp only [if_neg ((h.mem_todo _).mp hmem), Int.toNat_natCast, (h.heads _).follow_eq hlen, Option.pure_def,
      Option.some.injEq] at hs
    subst hs
    exact ⟨_, _, _, h.take ht hne⟩

theorem handle_inv (h : Inv st) {t : ℕ} (hs : st.handle t = some st') : Inv st' := by
  obtain ⟨queue, held, owner, h⟩ := h
  obtain ⟨msg, ht, hs⟩ := Option.bind_eq_some_iff.mp hs
  obtain rfl := Option.some.inj hs
  obtain ⟨held', h'⟩ := h.drop ht
  exact ⟨queue, held', owner, h'⟩

theorem step_inv {a : Event M} (h : Inv st) (hs : step st a = some st') : Inv st' := by
  cases a with
  | add sender msg =>
    simp only [step] at hs
    split at hs
    · rename_i hnew
      obtain ⟨st'', hadd, hinv⟩ := add_spec h hnew.1 hnew.2
      obtain rfl := Option.some.inj (hadd.symm.trans hs)
      exact hinv
    · simp at hs
  | get thread wait =>
    simp only [step] at hs
    split at hs
    · rename_i hdone
      exact get_inv h hdone hs
    · simp at hs
  | handle thread => exact handle_inv h hs
  | shutdown =>
    obtain rfl := Option.some.inj hs
    obtain ⟨queue, held, owner, h⟩ := h
    exact ⟨queue, held, owner, ⟨h.owned, h.heads, h.tails, h.current, h.todo_nodup, h.mem_todo, h.lt_nodes,
      h.added, h.given⟩⟩

end Runs

/-- The manager is in order: a sender is in the todo list once, if it has messages; `tails` points at the link of the
last one; what was returned and what is left are the messages added, in order; no assertion of
`add_incoming_message` can fail; a null list is returned only if nothing is queued; and the threads handle what they
were given. -/
structure Correct [DecidableEq M] (st : State M nodes) : Prop where
  once : st.mgr.todo.contents.Nodup
  mem_todo : ∀ s, s ∈ st.mgr.todo.contents ↔ s < nodes ∧ st.mgr.heads s ≠ none
  lists : ∀ s < nodes, ∃ l, Chain st.mgr.nextMsg (st.mgr.heads s) l ∧ st.mgr.tails s = l.getLast? ∧
    st.returned s ++ l = st.added s
  no_wrap : ∀ s < nodes, ∀ msg, st.live msg = false → ((st.mgr.newMessage msg).addIncomingMessage s msg).isSome
  null : ∀ wait sender mgr, st.mgr.getMessages wait = some (sender, none, mgr) → ∀ s < nodes, st.mgr.heads s = none
  handled : ∀ t, ∃ l, Chain st.mgr.nextMsg (st.current t) l ∧ st.handled t ++ l = st.given t

theorem Inv.correct [DecidableEq M] {st : State M nodes} (h : Inv st) : Correct st := by
  have hinv := h
  obtain ⟨queue, held, owner, h⟩ := h
  constructor
  case once => exact h.todo_nodup
  case mem_todo =>
    intro s
    rw [h.mem_todo s]
    exact ⟨fun hs => ⟨h.lt_nodes s hs, hs⟩, And.right⟩
  case lists => exact fun s _ => ⟨queue s, h.heads s, h.tails s, h.added s⟩
  case no_wrap =>
    intro s hs msg hm
    obtain ⟨st', hadd, -⟩ := add_spec hinv hs hm
    obtain ⟨mgr, hmgr, -⟩ := Option.bind_eq_some_iff.mp hadd
    rw [hmgr]
    rfl
  case null =>
    intro wait sender mgr hget s _
    by_contra hs
    have hmem := (h.mem_todo s).mpr hs
    unfold Manager.getMessages at hget
    split at hget
    · rename_i heq
      simp [Ring.contents, Ring.size, heq] at hmem
    · rename_i hne
      simp only [Option.some.injEq, Prod.mk.injEq] at hget
      have hfront : st.mgr.todo.front ∈ st.mgr.todo.contents := Ring.contents_pop hne ▸ List.mem_cons_self
      exact (h.mem_todo _).mp hfront hget.2.1
  case handled => exact fun t => ⟨held t, h.current t, h.given t⟩

/-- **No message is lost, duplicated or reordered**, in any interleaving of senders and handler threads. -/
theorem manager_correct [DecidableEq M] (nodes : ℕ) (as : List (Event M)) (st : State M nodes)
    (h : run step State.init as = some st) : Correct st :=
  (run_inv (fun _ _ _ hI hs => step_inv hI hs) inv_init h).correct

/-- Two senders; a message arrives for a sender whose list has just been taken, and the node shuts down. -/
theorem manager_correct_two_senders :
    ∃ st : State ℕ 2, run step State.init
        [.add 0 10, .add 1 11, .add 0 12, .get 0 true, .handle 0, .add 0 13, .shutdown, .get 1 true] = some st ∧
      st.returned 0 = [10, 12] ∧ Correct st := by
  obtain ⟨st, hrun, hret⟩ : ∃ st : State ℕ 2, run step State.init
        [.add 0 10, .add 1 11, .add 0 12, .get 0 true, .handle 0, .add 0 13, .shutdown, .get 1 true] = some st ∧
      st.returned 0 = [10, 12] := ⟨_, rfl, rfl⟩
  exact ⟨st, hrun, hret, manager_correct 2 _ st hrun⟩

end Realm.Incoming

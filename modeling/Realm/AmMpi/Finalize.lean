import Mathlib.Algebra.BigOperators.Group.Multiset.Basic
import Mathlib.Algebra.BigOperators.Ring.List
import Mathlib.Data.Multiset.Filter
import Realm.Lib.Run
import Realm.Lib.Total

/-!
# Realm.AmMpi.Finalize — the end of the MPI layer (`stop_activemsg_threads`, `am_finalize`)

A node that stops sets `shutdown_flag`, sends itself a message with `AM_NULL_HANDLER`, and joins its polling thread.
Then it enters an `MPI_Ibarrier`, and goes on to poll "until we are sure no one is sending".

* `step`: the nodes, the network, and the choices of MPI: whether a send is buffered, when a posted receive gets a
  message, and what a test reports.
* `Inv`: where every message is, and who may be in a send; `Inv.step`.
* `measure_step`: no run goes on for ever; `quiet_of_stuck`: where it may come to an end.
* `finalize_of_run`: nobody hangs, as long as MPI buffers what the handlers send and the null messages.
-/

namespace Realm.Finalize

open Lib

variable {n : ℕ} {M : Type}

/-! ## The nodes -/

/-- Who is in an `MPI_Send`: a thread that ends before the node stops, a handler, or `stop_threads`. -/
inductive Sender
  | app
  | handler
  | stop
deriving DecidableEq

/-- A message that no receive has got; the null message has no `body`.  The `waiter` is in the `MPI_Send` of it, none
if the message is buffered. -/
structure Packet (n : ℕ) (M : Type) where
  tgt : Fin n
  body : Option M
  waiter : Option (Fin n × Sender)
deriving DecidableEq

/-- Where the main thread is: before `stop_threads`, in it with the polling thread still there, in it after that, in
the loop of `am_finalize`, and behind that loop. -/
inductive Phase
  | running
  | stopping
  | exited
  | finalizing
  | left
deriving DecidableEq

/-- `arrived` are the receives that have got a message, and `got` those that the last `MPI_Testsome` has reported and
that are not posted again; the handler of the first one is still to send `sends`.  `handled` is history. -/
structure Node (n : ℕ) (M : Type) where
  phase : Phase
  arrived : Multiset (Option M)
  got : List (Option M)
  sends : List (Fin n × M)
  handled : Multiset (Option M)

/-- `sent` is history: the messages that were sent to each node. -/
structure State (n : ℕ) (M : Type) where
  node : Fin n → Node n M
  network : Multiset (Packet n M)
  sent : Fin n → Multiset (Option M)

/-- `n_am_mult_recv`, and what the handlers send.  No message gives rise to more than `rank` others. -/
structure Config (n : ℕ) (M : Type) where
  recvs : ℕ
  recvs_pos : 0 < recvs
  replies : M → List (Fin n × M)
  rank : M → ℕ
  rank_replies : ∀ m, ((replies m).map fun r => rank r.2 + 1).sum ≤ rank m

/-- After `AMPoll_init` on all nodes -/
def State.init : State n M := ⟨fun _ => ⟨.running, 0, [], [], 0⟩, 0, fun _ => 0⟩

inductive Event (n : ℕ) (M : Type)
  | app (i tgt : Fin n) (m : M) (buffered : Bool)
  | stop (i : Fin n) (buffered : Bool)
  | deliver (p : Packet n M)
  | poll (i : Fin n) (got : List (Option M))
  | send (i : Fin n) (buffered : Bool)
  | repost (i : Fin n)
  | exit (i : Fin n)
  | enter (i : Fin n)
  | leave (i : Fin n)

/-- The steps that a node takes by itself. -/
def Event.Internal : Event n M → Prop
  | .app .. | .stop .. => False
  | _ => True

/-- MPI buffers what a handler sends, and the null message. -/
def Event.Buffered : Event n M → Prop
  | .stop _ buffered | .send _ buffered => buffered = true
  | _ => True

/-- Somebody of node `i` is in an `MPI_Send`. -/
def State.Waits (s : State n M) (i : Fin n) (who : Sender) : Prop := ∃ p ∈ s.network, p.waiter = some (i, who)

instance (s : State n M) (i : Fin n) (who : Sender) : Decidable (s.Waits i who) :=
  Multiset.decidableExistsMultiset

def State.set (s : State n M) (i : Fin n) (nd : Node n M) : State n M := { s with node := Function.update s.node i nd }

/-- `MPI_Send` -/
def State.post (s : State n M) (i : Fin n) (who : Sender) (tgt : Fin n) (body : Option M) (buffered : Bool) :
    State n M :=
  { s with
    network := ⟨tgt, body, if buffered then none else some (i, who)⟩ ::ₘ s.network
    sent := Function.update s.sent tgt (body ::ₘ s.sent tgt) }

/-- The loop over the receives of a test calls the handler of the first one, if it is not the null handler. -/
def Node.takeUp (nd : Node n M) (replies : M → List (Fin n × M)) (got : List (Option M)) : Node n M :=
  { nd with
    got := got
    sends := match got with
      | some m :: _ => replies m
      | _ => [] }

/-- The handler of `m` has returned, and its receive is posted again. -/
def Node.finish (nd : Node n M) (replies : M → List (Fin n × M)) (m : Option M) (rest : List (Option M)) : Node n M :=
  Node.takeUp { nd with handled := m ::ₘ nd.handled } replies rest

/-- A posted receive gets a message. -/
def Node.receive (nd : Node n M) (body : Option M) : Node n M := { nd with arrived := body ::ₘ nd.arrived }

/-- The handler has sent the first of its messages. -/
def Node.sendsOn (nd : Node n M) (rest : List (Fin n × M)) : Node n M := { nd with sends := rest }

def Node.go (nd : Node n M) (phase : Phase) : Node n M := { nd with phase := phase }

/-- There is somebody who polls: the polling thread, or the main thread in `am_finalize`. -/
def Phase.Polls (ph : Phase) : Prop := ph = .running ∨ ph = .stopping ∨ ph = .finalizing

instance (ph : Phase) : Decidable ph.Polls := inferInstanceAs (Decidable (_ ∨ _ ∨ _))

/-- The node has called `MPI_Ibarrier`. -/
def Phase.Entered (ph : Phase) : Prop := ph = .finalizing ∨ ph = .left

instance (ph : Phase) : Decidable ph.Entered := inferInstanceAs (Decidable (_ ∨ _))

variable [DecidableEq M]

/-- `MPI_Testsome` reports some of the receives. -/
def Node.report (nd : Node n M) (replies : M → List (Fin n × M)) (got : List (Option M)) : Node n M :=
  Node.takeUp { nd with arrived := nd.arrived - (got : Multiset (Option M)) } replies got

def State.erase (s : State n M) (p : Packet n M) : State n M := { s with network := s.network.erase p }

def step (cfg : Config n M) (s : State n M) : Event n M → Option (State n M)
  | .app i tgt m buffered =>
    if (s.node i).phase = .running then some (s.post i .app tgt (some m) buffered) else none
  | .stop i buffered =>
    -- "threads that cause inter-node communication have to stop first"
    if (s.node i).phase = .running ∧ ¬s.Waits i .app then
      some ((s.set i ((s.node i).go .stopping)).post i .stop i none buffered)
    else none
  | .deliver p =>
    let nd := s.node p.tgt
    if p ∈ s.network ∧ nd.phase ≠ .left ∧ nd.arrived.card + nd.got.length < cfg.recvs then
      some ((s.erase p).set p.tgt (nd.receive p.body))
    else none
  | .poll i got =>
    let nd := s.node i
    if nd.phase.Polls ∧ nd.got = [] ∧ got ≠ [] ∧ (got : Multiset (Option M)) ≤ nd.arrived then
      some (s.set i (nd.report cfg.replies got))
    else none
  | .send i buffered =>
    match (s.node i).got, (s.node i).sends with
    | _ :: _, (tgt, m) :: rest =>
      if s.Waits i .handler then none
      else some ((s.set i ((s.node i).sendsOn rest)).post i .handler tgt (some m) buffered)
    | _, _ => none
  | .repost i =>
    match (s.node i).got, (s.node i).sends with
    | m :: rest, [] => if s.Waits i .handler then none else some (s.set i ((s.node i).finish cfg.replies m rest))
    | _, _ => none
  | .exit i =>
    if (s.node i).phase = .stopping ∧ (s.node i).got = [] then some (s.set i ((s.node i).go .exited)) else none
  | .enter i =>
    if (s.node i).phase = .exited ∧ ¬s.Waits i .stop then some (s.set i ((s.node i).go .finalizing)) else none
  | .leave i =>
    if (s.node i).phase = .finalizing ∧ (s.node i).got = [] ∧ ∀ j, (s.node j).phase.Entered then
      some (s.set i ((s.node i).go .left))
    else none

/-! ## Where every message is -/

/-- The messages on their way to a node. -/
def towards (network : Multiset (Packet n M)) (i : Fin n) : Multiset (Option M) :=
  (network.filter fun p => p.tgt = i).map Packet.body

/-- The messages that a node has got. -/
def Node.held (nd : Node n M) : Multiset (Option M) := nd.arrived + nd.got + nd.handled

/-- The phases of a node in which it may be in a send. -/
def Sender.MayWait : Sender → Phase → Prop
  | .app, ph => ph = .running
  | .handler, _ => True
  | .stop, ph => ph = .stopping ∨ ph = .exited

structure Inv (cfg : Config n M) (s : State n M) : Prop where
  conserved : ∀ i, s.sent i = towards s.network i + (s.node i).held
  posted : ∀ i, (s.node i).arrived.card + (s.node i).got.length ≤ cfg.recvs
  waiting : ∀ p ∈ s.network, ∀ i who, p.waiter = some (i, who) → who.MayWait (s.node i).phase
  barrier : ∀ i, (s.node i).phase = .left → ∀ j, (s.node j).phase.Entered

section Inv

variable {cfg : Config n M} {s s' : State n M}

omit [DecidableEq M]

theorem towards_cons (p : Packet n M) (network : Multiset (Packet n M)) (i : Fin n) :
    towards (p ::ₘ network) i = if p.tgt = i then p.body ::ₘ towards network i else towards network i := by
  unfold towards
  split
  · rename_i htgt
    rw [Multiset.filter_cons_of_pos (p := fun p : Packet n M => p.tgt = i) _ htgt, Multiset.map_cons]
  · rename_i htgt
    rw [Multiset.filter_cons_of_neg (p := fun p : Packet n M => p.tgt = i) _ htgt]

@[simp] theorem set_node_self (s : State n M) (i : Fin n) (nd : Node n M) : (s.set i nd).node i = nd :=
  Function.update_self ..

theorem set_node_of_ne (s : State n M) {i j : Fin n} (hij : j ≠ i) (nd : Node n M) :
    (s.set i nd).node j = s.node j := Function.update_of_ne hij ..

/-- What holds of the new node and of the others holds of all. -/
theorem forall_set {P : Fin n → Node n M → Prop} {i : Fin n} {nd : Node n M} (hi : P i nd)
    (h : ∀ j, P j (s.node j)) (j : Fin n) : P j ((s.set i nd).node j) := by
  by_cases hij : j = i
  · subst hij
    rw [set_node_self]
    exact hi
  · rw [set_node_of_ne s hij]
    exact h j

theorem Inv.init (cfg : Config n M) : Inv cfg (.init : State n M) where
  conserved i := rfl
  posted i := Nat.zero_le _
  waiting p hp := absurd hp (Multiset.notMem_zero p)
  barrier i hi := by cases hi

/-- A node goes on. -/
theorem Inv.set (h : Inv cfg s) (i : Fin n) {nd : Node n M} (hheld : nd.held = (s.node i).held)
    (hposted : nd.arrived.card + nd.got.length ≤ cfg.recvs)
    (hwaits : ∀ who, s.Waits i who → who.MayWait nd.phase)
    (hentered : (s.node i).phase.Entered → nd.phase.Entered)
    (hleft : nd.phase = .left → ∀ j, (s.node j).phase.Entered) : Inv cfg (s.set i nd) := by
  have hnode : (∀ j, (s.node j).phase.Entered) → ∀ j, ((s.set i nd).node j).phase.Entered :=
    fun hall => forall_set (P := fun _ nd => nd.phase.Entered) (hentered (hall i)) hall
  refine ⟨?_, ?_, fun p hp => ?_, ?_⟩
  · refine forall_set (P := fun j nd => s.sent j = towards s.network j + nd.held) ?_ h.conserved
    rw [hheld]
    exact h.conserved i
  · exact forall_set (P := fun _ nd => nd.arrived.card + nd.got.length ≤ cfg.recvs) hposted h.posted
  · exact forall_set (P := fun j nd => ∀ who, p.waiter = some (j, who) → who.MayWait nd.phase)
      (fun who hwaiter => hwaits who ⟨p, hp, hwaiter⟩) (h.waiting p hp)
  · exact forall_set (P := fun _ nd' => nd'.phase = .left → ∀ j, ((s.set i nd).node j).phase.Entered)
      (fun hi => hnode (hleft hi)) fun j hj => hnode (h.barrier j hj)

/-- A message is sent. -/
theorem Inv.post (h : Inv cfg s) {i tgt : Fin n} {who : Sender} {body : Option M} {buffered : Bool}
    (hmay : who.MayWait (s.node i).phase) : Inv cfg (s.post i who tgt body buffered) := by
  refine ⟨fun j => ?_, h.posted, fun p hp j who' hwaiter => ?_, h.barrier⟩
  · unfold State.post
    simp only [towards_cons]
    by_cases hj : tgt = j
    · subst hj
      rw [Function.update_self, if_pos rfl, Multiset.cons_add, h.conserved tgt]
    · rw [Function.update_of_ne (Ne.symm hj), if_neg hj]
      exact h.conserved j
  · rcases Multiset.mem_cons.mp hp with rfl | hp
    · simp only at hwaiter
      split at hwaiter
      · cases hwaiter
      · cases hwaiter
        exact hmay
    · exact h.waiting p hp j who' hwaiter

/-- A posted receive gets a message. -/
theorem Inv.deliver [DecidableEq M] (h : Inv cfg s) {p : Packet n M} (hp : p ∈ s.network)
    (hroom : (s.node p.tgt).arrived.card + (s.node p.tgt).got.length < cfg.recvs) :
    Inv cfg ((s.erase p).set p.tgt ((s.node p.tgt).receive p.body)) := by
  have hconserved : ∀ j, s.sent j =
      (if p.tgt = j then p.body ::ₘ towards (s.network.erase p) j else towards (s.network.erase p) j) +
        (s.node j).held := by
    intro j
    rw [h.conserved j, ← towards_cons, Multiset.cons_erase hp]
  refine ⟨fun j => ?_, ?_, fun q hq => ?_, fun j hj k => ?_⟩
  · by_cases hj : p.tgt = j
    · subst hj
      rw [set_node_self]
      have heq := hconserved p.tgt
      rw [if_pos rfl] at heq
      refine heq.trans ?_
      unfold Node.held Node.receive State.erase
      simp only [Multiset.cons_add, Multiset.add_cons]
      rfl
    · rw [set_node_of_ne _ (Ne.symm hj)]
      have heq := hconserved j
      rw [if_neg hj] at heq
      exact heq
  · refine forall_set (P := fun _ nd => nd.arrived.card + nd.got.length ≤ cfg.recvs) ?_ h.posted
    simp only [Node.receive, Multiset.card_cons]
    omega
  · exact forall_set (P := fun j nd => ∀ who, q.waiter = some (j, who) → who.MayWait nd.phase)
      (h.waiting q (Multiset.mem_of_mem_erase hq) p.tgt) (h.waiting q (Multiset.mem_of_mem_erase hq))
  · have hphase : ∀ j, (((s.erase p).set p.tgt ((s.node p.tgt).receive p.body)).node j).phase = (s.node j).phase :=
      forall_set (P := fun j nd => nd.phase = (s.node j).phase) rfl fun _ => rfl
    rw [hphase] at hj ⊢
    exact h.barrier j hj k

theorem takeUp_held (nd : Node n M) (replies : M → List (Fin n × M)) (got : List (Option M)) :
    (nd.takeUp replies got).held = nd.arrived + got + nd.handled := rfl

/-- **One step** -/
theorem Inv.step [DecidableEq M] (h : Inv cfg s) {e : Event n M} (hstep : step cfg s e = some s') : Inv cfg s' := by
  have hwaits : ∀ i who, s.Waits i who → who.MayWait (s.node i).phase :=
    fun i who ⟨p, hp, hwaiter⟩ => h.waiting p hp i who hwaiter
  cases e with
  | app i tgt m buffered =>
    obtain ⟨hphase, heq⟩ := Option.ite_none_right_eq_some.mp hstep
    obtain rfl := Option.some.inj heq
    exact h.post hphase
  | stop i buffered =>
    obtain ⟨⟨hphase, hnot⟩, heq⟩ := Option.ite_none_right_eq_some.mp hstep
    obtain rfl := Option.some.inj heq
    refine Inv.post ?_ ?_
    · refine h.set i rfl (h.posted i) (fun who hwho => ?_) (fun hi => ?_) fun hi => ?_
      · cases who with
        | app => exact absurd hwho hnot
        | handler => trivial
        | stop => exact .inl rfl
      · rcases hi with hi | hi <;> rw [hphase] at hi <;> cases hi
      · cases hi
    · rw [set_node_self]
      exact .inl rfl
  | deliver p =>
    obtain ⟨⟨hp, -, hroom⟩, heq⟩ := Option.ite_none_right_eq_some.mp hstep
    obtain rfl := Option.some.inj heq
    exact h.deliver hp hroom
  | poll i got =>
    obtain ⟨⟨-, hidle, -, hle⟩, heq⟩ := Option.ite_none_right_eq_some.mp hstep
    obtain rfl := Option.some.inj heq
    refine h.set i ?_ ?_ (hwaits i) id (h.barrier i)
    · unfold Node.report
      rw [takeUp_held]
      unfold Node.held
      rw [hidle, tsub_add_cancel_of_le hle, Multiset.coe_nil, add_zero]
    · have hposted := h.posted i
      have hcard := Multiset.card_sub hle
      have hlen := Multiset.card_le_card hle
      rw [Multiset.coe_card] at hcard hlen
      simp only [Node.report, Node.takeUp]
      omega
  | send i buffered =>
    simp only [Finalize.step] at hstep
    split at hstep
    · obtain ⟨-, heq⟩ := Option.ite_none_left_eq_some.mp hstep
      obtain rfl := Option.some.inj heq
      refine Inv.post ?_ trivial
      exact h.set i rfl (h.posted i) (hwaits i) id (h.barrier i)
    · cases hstep
  | repost i =>
    simp only [Finalize.step] at hstep
    split at hstep
    · rename_i m rest hgot hsends
      obtain ⟨-, heq⟩ := Option.ite_none_left_eq_some.mp hstep
      obtain rfl := Option.some.inj heq
      refine h.set i ?_ ?_ (hwaits i) id (h.barrier i)
      · unfold Node.finish
        rw [takeUp_held]
        unfold Node.held
        rw [hgot, ← Multiset.cons_coe]
        simp only [Multiset.cons_add, Multiset.add_cons]
      · have hposted := h.posted i
        rw [hgot, List.length_cons] at hposted
        simp only [Node.finish, Node.takeUp]
        omega
    · cases hstep
  | exit i =>
    obtain ⟨⟨hphase, -⟩, heq⟩ := Option.ite_none_right_eq_some.mp hstep
    obtain rfl := Option.some.inj heq
    refine h.set i rfl (h.posted i) (fun who hwho => ?_) (fun hi => ?_) fun hi => ?_
    · cases who with
      | app =>
        have hrunning := hwaits i .app hwho
        rw [hphase] at hrunning
        cases hrunning
      | handler => trivial
      | stop => exact .inr rfl
    · rcases hi with hi | hi <;> rw [hphase] at hi <;> cases hi
    · cases hi
  | enter i =>
    obtain ⟨⟨hphase, hnot⟩, heq⟩ := Option.ite_none_right_eq_some.mp hstep
    obtain rfl := Option.some.inj heq
    refine h.set i rfl (h.posted i) (fun who hwho => ?_) (fun _ => .inl rfl) fun hi => ?_
    · cases who with
      | app =>
        have hrunning := hwaits i .app hwho
        rw [hphase] at hrunning
        cases hrunning
      | handler => trivial
      | stop => exact absurd hwho hnot
    · cases hi
  | leave i =>
    obtain ⟨⟨hphase, -, hall⟩, heq⟩ := Option.ite_none_right_eq_some.mp hstep
    obtain rfl := Option.some.inj heq
    refine h.set i rfl (h.posted i) (fun who hwho => ?_) (fun _ => .inr rfl) fun _ => hall
    have hmay := hwaits i who hwho
    rw [hphase] at hmay
    cases who with
    | app => cases hmay
    | handler => trivial
    | stop => rcases hmay with hmay | hmay <;> cases hmay

/-- Only threads that end before their node stops wait in a send. -/
def Free (s : State n M) : Prop := ∀ p ∈ s.network, ∀ i who, p.waiter = some (i, who) → who = .app

theorem Free.post (h : Free s) {i tgt : Fin n} {who : Sender} {body : Option M} {buffered : Bool}
    (hwho : buffered = true ∨ who = .app) : Free (s.post i who tgt body buffered) := by
  intro p hp j who' hwaiter
  rcases Multiset.mem_cons.mp hp with rfl | hp
  · rcases hwho with rfl | rfl
    · cases hwaiter
    · simp only at hwaiter
      split at hwaiter
      · cases hwaiter
      · cases hwaiter
        rfl
  · exact h p hp j who' hwaiter

theorem Free.step [DecidableEq M] (h : Free s) {e : Event n M} (hbuf : e.Buffered)
    (hstep : step cfg s e = some s') : Free s' := by
  cases e with
  | app i tgt m buffered =>
    obtain ⟨-, heq⟩ := Option.ite_none_right_eq_some.mp hstep
    obtain rfl := Option.some.inj heq
    exact h.post (.inr rfl)
  | stop i buffered =>
    obtain ⟨-, heq⟩ := Option.ite_none_right_eq_some.mp hstep
    obtain rfl := Option.some.inj heq
    exact Free.post h (.inl hbuf)
  | deliver p =>
    obtain ⟨-, heq⟩ := Option.ite_none_right_eq_some.mp hstep
    obtain rfl := Option.some.inj heq
    exact fun q hq => h q (Multiset.mem_of_mem_erase hq)
  | send i buffered =>
    simp only [Finalize.step] at hstep
    split at hstep
    · obtain ⟨-, heq⟩ := Option.ite_none_left_eq_some.mp hstep
      obtain rfl := Option.some.inj heq
      exact Free.post h (.inl hbuf)
    · cases hstep
  | repost i =>
    simp only [Finalize.step] at hstep
    split at hstep
    · obtain ⟨-, heq⟩ := Option.ite_none_left_eq_some.mp hstep
      obtain rfl := Option.some.inj heq
      exact h
    · cases hstep
  | poll i got | exit i | enter i | leave i =>
    obtain ⟨-, heq⟩ := Option.ite_none_right_eq_some.mp hstep
    obtain rfl := Option.some.inj heq
    exact h

end Inv

/-! ## No run goes on for ever -/

section Measure

variable {cfg : Config n M} {s s' : State n M}

omit [DecidableEq M]

/-- How many messages a message gives rise to. -/
def Config.follow (cfg : Config n M) : Option M → ℕ
  | none => 0
  | some m => cfg.rank m

/-- What is left of the loop over the receives of a test. -/
def Node.loopCost (cfg : Config n M) (nd : Node n M) : ℕ :=
  match nd.got with
  | [] => 0
  | _ :: rest => (nd.sends.map fun r => 4 * (cfg.rank r.2 + 1)).sum + 1 + (rest.map fun b => 4 * cfg.follow b + 1).sum

def Phase.cost : Phase → ℕ
  | running => 4
  | stopping => 3
  | exited => 2
  | finalizing => 1
  | left => 0

def Node.cost (cfg : Config n M) (nd : Node n M) : ℕ :=
  nd.phase.cost + (nd.arrived.map fun b => 4 * cfg.follow b + 2).sum + nd.loopCost cfg

def State.measure (cfg : Config n M) (s : State n M) : ℕ :=
  total (Node.cost cfg) s.node + (s.network.map fun p => 4 * cfg.follow p.body + 3).sum

theorem measure_set (cfg : Config n M) (s : State n M) (i : Fin n) (nd : Node n M) :
    (s.set i nd).measure cfg + (s.node i).cost cfg = s.measure cfg + nd.cost cfg := by
  have htotal := total_update (Node.cost cfg) s.node i nd
  unfold State.measure State.set
  simp only
  omega

theorem measure_post (cfg : Config n M) (s : State n M) (i : Fin n) (who : Sender) (tgt : Fin n) (body : Option M)
    (buffered : Bool) :
    (s.post i who tgt body buffered).measure cfg = s.measure cfg + (4 * cfg.follow body + 3) := by
  unfold State.measure State.post
  simp only [Multiset.map_cons, Multiset.sum_cons]
  omega

/-- A message costs more than what its handler sends. -/
theorem loopCost_takeUp (nd : Node n M) (got : List (Option M)) :
    (nd.takeUp cfg.replies got).loopCost cfg ≤ (got.map fun b => 4 * cfg.follow b + 1).sum := by
  cases got with
  | nil => exact Nat.le_refl 0
  | cons b rest =>
    unfold Node.takeUp Node.loopCost
    rw [List.map_cons, List.sum_cons]
    cases b with
    | none => exact Nat.le_refl _
    | some m =>
      simp only [List.sum_map_mul_left]
      have hrank := cfg.rank_replies m
      change 4 * _ + 1 + _ ≤ 4 * cfg.rank m + 1 + _
      omega

theorem loopCost_nil {nd : Node n M} (hgot : nd.got = []) : nd.loopCost cfg = 0 := by
  unfold Node.loopCost
  rw [hgot]

theorem cost_takeUp (cfg : Config n M) (nd : Node n M) (got : List (Option M)) :
    (nd.takeUp cfg.replies got).cost cfg ≤ nd.phase.cost + (nd.arrived.map fun b => 4 * cfg.follow b + 2).sum +
      (got.map fun b => 4 * cfg.follow b + 1).sum :=
  Nat.add_le_add_left (loopCost_takeUp nd got) _

theorem cost_receive (cfg : Config n M) (nd : Node n M) (body : Option M) :
    (nd.receive body).cost cfg = nd.cost cfg + (4 * cfg.follow body + 2) := by
  unfold Node.cost Node.receive
  rw [Multiset.map_cons, Multiset.sum_cons]
  change nd.phase.cost + (_ + _) + nd.loopCost cfg = _
  omega

theorem cost_finish (cfg : Config n M) {nd : Node n M} {m : Option M} {rest : List (Option M)}
    (hgot : nd.got = m :: rest) (hsends : nd.sends = []) : (nd.finish cfg.replies m rest).cost cfg < nd.cost cfg := by
  have hloop : nd.loopCost cfg = 1 + (rest.map fun b => 4 * cfg.follow b + 1).sum := by
    unfold Node.loopCost
    rw [hgot, hsends, List.map_nil, List.sum_nil, Nat.zero_add]
  refine lt_of_le_of_lt (cost_takeUp cfg _ rest) ?_
  unfold Node.cost
  simp only
  omega

theorem cost_sendsOn (cfg : Config n M) {nd : Node n M} {tgt : Fin n} {m : M} {rest : List (Fin n × M)}
    (hgot : nd.got ≠ []) (hsends : nd.sends = (tgt, m) :: rest) :
    (nd.sendsOn rest).cost cfg + 4 * (cfg.rank m + 1) = nd.cost cfg := by
  obtain ⟨b, got, hcons⟩ := List.exists_cons_of_ne_nil hgot
  unfold Node.cost Node.loopCost Node.sendsOn
  simp only [hcons, hsends, List.map_cons, List.sum_cons]
  omega

theorem cost_report [DecidableEq M] (cfg : Config n M) {nd : Node n M} {got : List (Option M)} (hidle : nd.got = [])
    (hne : got ≠ []) (hle : (got : Multiset (Option M)) ≤ nd.arrived) :
    (nd.report cfg.replies got).cost cfg < nd.cost cfg := by
  have hsum : (nd.arrived.map fun b => 4 * cfg.follow b + 2).sum =
      ((nd.arrived - (got : Multiset (Option M))).map fun b => 4 * cfg.follow b + 2).sum +
        (got.map fun b => 4 * cfg.follow b + 2).sum := by
    rw [← Multiset.sum_coe, ← Multiset.map_coe, ← Multiset.sum_add, ← Multiset.map_add, tsub_add_cancel_of_le hle]
  have hlt : (got.map fun b => 4 * cfg.follow b + 1).sum < (got.map fun b => 4 * cfg.follow b + 2).sum :=
    List.sum_lt_sum_of_ne_nil hne _ _ fun b _ => Nat.lt_succ_self _
  refine lt_of_le_of_lt (cost_takeUp cfg _ got) ?_
  unfold Node.cost
  rw [loopCost_nil hidle, hsum]
  simp only
  omega

theorem measure_go (i : Fin n) {phase : Phase} (hlt : phase.cost < (s.node i).phase.cost) :
    (s.set i ((s.node i).go phase)).measure cfg < s.measure cfg := by
  have hset := measure_set cfg s i ((s.node i).go phase)
  have hcost : ((s.node i).go phase).cost cfg + (s.node i).phase.cost = (s.node i).cost cfg + phase.cost := by
    unfold Node.cost
    change phase.cost + _ + (s.node i).loopCost cfg + _ = _
    simp only [Node.go]
    omega
  omega

/-- **Termination** -/
theorem measure_step [DecidableEq M] {e : Event n M} (he : e.Internal) (hstep : step cfg s e = some s') :
    s'.measure cfg < s.measure cfg := by
  cases e with
  | app i tgt m buffered => exact he.elim
  | stop i buffered => exact he.elim
  | deliver p =>
    obtain ⟨⟨hp, -⟩, heq⟩ := Option.ite_none_right_eq_some.mp hstep
    obtain rfl := Option.some.inj heq
    have hset := measure_set cfg (s.erase p) p.tgt ((s.node p.tgt).receive p.body)
    have herase : 4 * cfg.follow p.body + 3 + (s.erase p).measure cfg = s.measure cfg := by
      unfold State.measure
      rw [← Multiset.sum_map_erase (f := fun p : Packet n M => 4 * cfg.follow p.body + 3) hp]
      simp only [State.erase]
      omega
    rw [cost_receive] at hset
    change _ + (s.node p.tgt).cost cfg = _ at hset
    omega
  | poll i got =>
    obtain ⟨⟨-, hidle, hne, hle⟩, heq⟩ := Option.ite_none_right_eq_some.mp hstep
    obtain rfl := Option.some.inj heq
    have hset := measure_set cfg s i ((s.node i).report cfg.replies got)
    have hcost := cost_report cfg hidle hne hle
    omega
  | send i buffered =>
    simp only [Finalize.step] at hstep
    split at hstep
    · rename_i m' rest' tgt m rest hgot hsends
      obtain ⟨-, heq⟩ := Option.ite_none_left_eq_some.mp hstep
      obtain rfl := Option.some.inj heq
      have hset := measure_set cfg s i ((s.node i).sendsOn rest)
      have hcost := cost_sendsOn cfg (hgot ▸ List.cons_ne_nil m' rest') hsends
      rw [measure_post]
      change _ + (4 * cfg.rank m + 3) < _
      omega
    · cases hstep
  | repost i =>
    simp only [Finalize.step] at hstep
    split at hstep
    · rename_i m rest hgot hsends
      obtain ⟨-, heq⟩ := Option.ite_none_left_eq_some.mp hstep
      obtain rfl := Option.some.inj heq
      have hset := measure_set cfg s i ((s.node i).finish cfg.replies m rest)
      have hcost := cost_finish cfg hgot hsends
      omega
    · cases hstep
  | exit i =>
    obtain ⟨⟨hphase, -⟩, heq⟩ := Option.ite_none_right_eq_some.mp hstep
    obtain rfl := Option.some.inj heq
    exact measure_go i (hphase ▸ by decide)
  | enter i =>
    obtain ⟨⟨hphase, -⟩, heq⟩ := Option.ite_none_right_eq_some.mp hstep
    obtain rfl := Option.some.inj heq
    exact measure_go i (hphase ▸ by decide)
  | leave i =>
    obtain ⟨⟨hphase, -⟩, heq⟩ := Option.ite_none_right_eq_some.mp hstep
    obtain rfl := Option.some.inj heq
    exact measure_go i (hphase ▸ by decide)

end Measure

/-! ## Where a run comes to an end -/

/-- Nobody is in a send.  A node that has stopped is through, or waits for one that has not, and every message to a
node that is not through has been handled. -/
structure Quiet (s : State n M) : Prop where
  returned : ∀ p ∈ s.network, p.waiter = none
  phase : ∀ i, (s.node i).phase = .running ∨ (s.node i).phase = .left ∨
    (s.node i).phase = .finalizing ∧ ∃ j, (s.node j).phase = .running
  served : ∀ i, (s.node i).phase ≠ .left → s.sent i = (s.node i).handled

section Quiet

variable {cfg : Config n M} {s s' : State n M}

theorem idle_of_stuck (hfree : Free s) (hstuck : ∀ e, e.Internal → step cfg s e = none) (i : Fin n) :
    (s.node i).got = [] := by
  by_contra hne
  have hnot : ¬s.Waits i .handler := by
    rintro ⟨p, hp, hwaiter⟩
    cases hfree p hp i .handler hwaiter
  obtain ⟨m, got, hgot⟩ := List.exists_cons_of_ne_nil hne
  cases hsends : (s.node i).sends with
  | nil =>
    have hnone := hstuck (.repost i) trivial
    simp only [step, hgot, hsends, if_neg hnot] at hnone
    cases hnone
  | cons r rest =>
    have hnone := hstuck (.send i true) trivial
    simp only [step, hgot, hsends, if_neg hnot] at hnone
    cases hnone

/-- `stop_threads` does not hang. -/
theorem phase_of_stuck (hfree : Free s) (hstuck : ∀ e, e.Internal → step cfg s e = none) (i : Fin n) :
    (s.node i).phase = .running ∨ (s.node i).phase.Entered := by
  have hidle := idle_of_stuck hfree hstuck i
  cases hphase : (s.node i).phase with
  | running => exact .inl rfl
  | stopping =>
    have hnone := hstuck (.exit i) trivial
    rw [step, if_pos ⟨hphase, hidle⟩] at hnone
    cases hnone
  | exited =>
    have hnot : ¬s.Waits i .stop := by
      rintro ⟨p, hp, hwaiter⟩
      cases hfree p hp i .stop hwaiter
    have hnone := hstuck (.enter i) trivial
    rw [step, if_pos ⟨hphase, hnot⟩] at hnone
    cases hnone
  | finalizing => exact .inr (.inl rfl)
  | left => exact .inr (.inr rfl)

/-- A node that is not through has no message left. -/
theorem empty_of_stuck (hfree : Free s) (hstuck : ∀ e, e.Internal → step cfg s e = none) {i : Fin n}
    (hi : (s.node i).phase ≠ .left) : (s.node i).arrived = 0 ∧ ∀ p ∈ s.network, p.tgt ≠ i := by
  have hidle := idle_of_stuck hfree hstuck i
  have hpolls : (s.node i).phase.Polls := by
    rcases phase_of_stuck hfree hstuck i with h | h | h
    · exact .inl h
    · exact .inr (.inr h)
    · exact absurd h hi
  have harrived : (s.node i).arrived = 0 := by
    by_contra hne
    obtain ⟨b, hb⟩ := Multiset.exists_mem_of_ne_zero hne
    have hnone := hstuck (.poll i [b]) trivial
    rw [step, if_pos ⟨hpolls, hidle, List.cons_ne_nil b [], Multiset.singleton_le.mpr hb⟩] at hnone
    cases hnone
  refine ⟨harrived, ?_⟩
  rintro p hp rfl
  have hnone := hstuck (.deliver p) trivial
  have hroom : (s.node p.tgt).arrived.card + (s.node p.tgt).got.length < cfg.recvs := by
    rw [harrived, hidle]
    exact cfg.recvs_pos
  rw [step, if_pos ⟨hp, hi, hroom⟩] at hnone
  cases hnone

/-- **The end of a run** -/
theorem quiet_of_stuck (h : Inv cfg s) (hfree : Free s) (hstuck : ∀ e, e.Internal → step cfg s e = none) :
    Quiet s := by
  refine ⟨fun p hp => ?_, fun i => ?_, fun i hi => ?_⟩
  · have hleft : (s.node p.tgt).phase = .left := by
      by_contra hne
      exact (empty_of_stuck hfree hstuck hne).2 p hp rfl
    cases hwaiter : p.waiter with
    | none => rfl
    | some w =>
      obtain ⟨i, who⟩ := w
      -- the one who waits runs, and so has not entered the barrier
      obtain rfl := hfree p hp i who hwaiter
      have hrunning := h.waiting p hp i .app hwaiter
      have hentered := h.barrier p.tgt hleft i
      unfold Sender.MayWait at hrunning
      rw [hrunning] at hentered
      rcases hentered with h | h <;> cases h
  · rcases phase_of_stuck hfree hstuck i with hi | hi | hi
    · exact .inl hi
    · refine .inr (.inr ⟨hi, ?_⟩)
      by_contra hnone
      have hall : ∀ j, (s.node j).phase.Entered := fun j =>
        (phase_of_stuck hfree hstuck j).resolve_left fun hj => hnone ⟨j, hj⟩
      have hstep := hstuck (.leave i) trivial
      rw [step, if_pos ⟨hi, idle_of_stuck hfree hstuck i, hall⟩] at hstep
      cases hstep
    · exact .inr (.inl hi)
  · obtain ⟨harrived, hnetwork⟩ := empty_of_stuck hfree hstuck hi
    have htowards : towards s.network i = 0 := by
      unfold towards
      rw [Multiset.filter_eq_nil.mpr hnetwork, Multiset.map_zero]
    rw [h.conserved i, htowards]
    unfold Node.held
    rw [harrived, idle_of_stuck hfree hstuck i, Multiset.coe_nil, zero_add, zero_add, zero_add]

end Quiet

/-- What holds of the end of the MPI layer: `conserved` says that no message is handled twice, and `barrier` what the
barrier is for. -/
structure Sound (cfg : Config n M) (s : State n M) : Prop where
  conserved : ∀ i, s.sent i = towards s.network i + (s.node i).held
  barrier : ∀ i, (s.node i).phase = .left →
    ∀ j, (s.node j).phase.Entered ∧ ¬s.Waits j .app ∧ ¬s.Waits j .stop
  terminates : Acc (Next (step cfg) Event.Internal) s
  quiet : (∀ e, e.Internal → step cfg s e = none) → Quiet s

/-- **Finalization**, in every interleaving of the nodes and with every choice of MPI, if what the handlers send and
the null messages are buffered. -/
theorem finalize_of_run (cfg : Config n M) (es : List (Event n M)) (s : State n M)
    (hbuf : ∀ e ∈ es, e.Buffered) (hrun : run (step cfg) .init es = some s) : Sound cfg s := by
  have hinv : Inv cfg s := run_inv (fun _ _ _ h hs => h.step hs) (Inv.init cfg) hrun
  have hfree : Free s := by
    refine run_inv_guarded (C := fun _ e => e.Buffered) (fun _ _ _ h hb hs => h.step hb hs) ?_ ?_ hrun
    · exact fun p hp => absurd hp (Multiset.notMem_zero p)
    · exact guarded_of_take fun i e _ he _ => hbuf e (List.mem_of_getElem? he)
  refine ⟨hinv.conserved, fun i hi j => ?_, ?_, quiet_of_stuck hinv hfree⟩
  · have hentered := hinv.barrier i hi j
    refine ⟨hentered, ?_, ?_⟩
    · rintro ⟨p, hp, hwaiter⟩
      have hrunning := hinv.waiting p hp j .app hwaiter
      unfold Sender.MayWait at hrunning
      rw [hrunning] at hentered
      rcases hentered with h | h <;> cases h
    · rintro ⟨p, hp, hwaiter⟩
      cases hfree p hp j .stop hwaiter
  · exact acc_of_measure (I := fun _ => True) Nat.lt_wfRel.wf (State.measure cfg)
      (fun _ _ _ _ he hs => ⟨trivial, measure_step he hs⟩) trivial

/-- Node `j` sends `true` to everybody, which makes the handlers answer with `false`. -/
def answering (j : Fin 2) : Config 2 Bool where
  recvs := 5
  recvs_pos := Nat.succ_pos 4
  replies m := if m then [(j, false)] else []
  rank m := if m then 1 else 0
  rank_replies m := by cases m <;> exact Nat.le_refl _

/-- The answer arrives after node `j` has stopped. -/
def lateAnswer (i j : Fin 2) : List (Event 2 Bool) :=
  [.app j i true false, .deliver ⟨i, some true, some (j, .app)⟩, .poll i [some true], .send i true, .repost i,
    .stop i true, .stop j true, .exit i, .exit j, .enter i, .enter j, .deliver ⟨j, some false, none⟩,
    .poll j [some false], .repost j, .leave i, .leave j]

theorem finalize_of_run_two : ∃ s, run (step (answering 1)) .init (lateAnswer 0 1) = some s ∧
    ((s.node 0).phase, (s.node 1).phase) = (.left, .left) ∧ Sound (answering 1) s := by
  have h : (run (step (answering 1)) .init (lateAnswer 0 1)).map (fun s => ((s.node 0).phase, (s.node 1).phase)) =
      some (.left, .left) := by decide +kernel
  obtain ⟨s, hs, hleft⟩ := Option.map_eq_some_iff.mp h
  refine ⟨s, hs, hleft, finalize_of_run (answering 1) (lateAnswer 0 1) s ?_ hs⟩
  simp [lateAnswer, Event.Buffered]

/-- One node with one receive, and handlers that send nothing. -/
def oneRecv : Config 1 Unit := ⟨1, Nat.one_pos, fun _ => [], fun _ => 0, fun _ => Nat.le_refl 0⟩

/-- The polling thread leaves when its receive has got a message, and nobody is there to receive the null message. -/
def nullWaits (i : Fin 1) : List (Event 1 Unit) :=
  [.app i i () true, .deliver ⟨i, some (), none⟩, .stop i false, .exit i]

/-- Without a buffer for the null message, `stop_threads` may hang. -/
theorem not_sound_nullWaits : ∃ s, run (step oneRecv) .init (nullWaits 0) = some s ∧ ¬Sound oneRecv s := by
  have h : (run (step oneRecv) .init (nullWaits 0)).map
      (fun s => ((s.node 0).phase, (s.node 0).arrived, (s.node 0).got, s.network)) =
      some (.exited, {some ()}, [], {⟨0, none, some (0, .stop)⟩}) := by decide +kernel
  obtain ⟨s, hs, heq⟩ := Option.map_eq_some_iff.mp h
  simp only [Prod.mk.injEq] at heq
  obtain ⟨hphase, harrived, hgot, hnetwork⟩ := heq
  refine ⟨s, hs, fun hsound => ?_⟩
  have hquiet := hsound.quiet fun e he => ?_
  · have hreturned := hquiet.returned ⟨0, none, some (0, .stop)⟩ (hnetwork ▸ Multiset.mem_singleton_self _)
    cases hreturned
  · cases e with
    | app i tgt m buffered => exact he.elim
    | stop i buffered => exact he.elim
    | deliver p =>
      obtain htgt : p.tgt = 0 := Subsingleton.elim _ _
      simp [step, htgt, harrived, oneRecv]
    | poll i got =>
      obtain rfl : i = 0 := Subsingleton.elim _ _
      simp [step, hphase, Phase.Polls]
    | send i buffered =>
      obtain rfl : i = 0 := Subsingleton.elim _ _
      simp only [step, hgot]
    | repost i =>
      obtain rfl : i = 0 := Subsingleton.elim _ _
      simp only [step, hgot]
    | exit i =>
      obtain rfl : i = 0 := Subsingleton.elim _ _
      simp [step, hphase]
    | enter i =>
      obtain rfl : i = 0 := Subsingleton.elim _ _
      simp [step, hphase, State.Waits, hnetwork]
    | leave i =>
      obtain rfl : i = 0 := Subsingleton.elim _ _
      simp [step, hphase]

end Realm.Finalize

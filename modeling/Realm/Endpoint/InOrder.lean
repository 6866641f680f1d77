import Realm.Endpoint.Manager

/-!
# Realm.Endpoint.InOrder — the order of in-order messages

Messages that are enqueued with `in_order` all go through `out_long_hdrs`, so they are popped in order; but
the pop and the send are two steps.  The stamps `0, 1, 2, …` of the in-order messages of a target are split
into those sent, those in the hands of a pusher, and those queued.

* `Exclusive`: an in-order message is popped only when no other one of its target is in hand.
* `inOrder_of_exclusive`: under that schedule messages are sent in the order in which they were enqueued,
  and one step outside of it can be continued to a wrong order.
* `sent_out_of_order`: the code does not enforce it.
-/

namespace Realm.Manager

open Lib Endpoint

variable {c : Config}

/-- The stamp of an in-order message to `t` that the thread has popped and not yet sent. -/
def Pc.inHand (t : ℕ) : Pc → List ℕ
  | .send _ target _ _ op => if target = t then (op.hdr?.bind (·.stamp)).toList else []
  | _ => []

/-- The in-order messages of `out_long_hdrs`. -/
def stamps (ep : Endpoint) : List ℕ := ep.outLongHdrs.filterMap (·.stamp)

/-- No in-order message goes to `out_short_hdrs`. -/
def ShortFree (ep : Endpoint) : Prop := ∀ hdr ∈ ep.outShortHdrs, hdr.stamp = none

namespace State

variable {n : ℕ}

/-- The stamps of the in-order messages to `t` that are in the hands of a pusher. -/
def inHand (s : State n) (t : ℕ) : List ℕ := s.threads.flatMap (Pc.inHand t)

/-- The stamps that wait in the queue of `t`. -/
def queued (s : State n) (t : ℕ) : List ℕ := stamps (s.endpoints t)

/-- The in-order messages were handed to the network in the order in which they were enqueued. -/
def SentInOrder (s : State n) : Prop := ∀ t, s.sent t = List.range (s.sent t).length

end State

/-- Whether the next iteration of a pusher takes an in-order message. -/
def takesInOrder (ec : EndpointConfig) (ep : Endpoint) : Bool :=
  match ep.pushIter ec with
  | .sendShort hdr _ => hdr.stamp.isSome
  | .sendLong hdr _ _ => hdr.stamp.isSome
  | _ => false

/-- An in-order message is popped only when no other one of the same target is in hand. -/
def Exclusive (c : Config) (s : State c.totalEndpoints) : Event → Prop
  | .endpoint i true => ∀ maxToSend t count, s.threads[i]? = some (.endpoint maxToSend t count true) →
      (maxToSend = 0 ∨ count < maxToSend) → takesInOrder (c.endpoint t) (s.endpoints t) = true → s.inHand t = []
  | _ => True

/-- The stamps of `t` are split in order. -/
structure Ordered (s : State c.totalEndpoints) : Prop where
  split : ∀ t, s.sent t ++ s.inHand t ++ s.queued t = List.range (s.pushed t)
  one : ∀ t, (s.inHand t).length ≤ 1
  short : ∀ t, ShortFree (s.endpoints t)

theorem Ordered.init (threads : ℕ) : Ordered (c := c) (State.init c.totalEndpoints threads) := by
  have hidle : ∀ t, (State.init c.totalEndpoints threads).inHand t = [] := by
    intro t
    rw [State.inHand, List.flatMap_eq_nil_iff]
    intro pc hpc
    rw [List.eq_of_mem_replicate hpc]
    rfl
  refine ⟨fun t => ?_, fun t => ?_, fun t hdr h => absurd h List.not_mem_nil⟩
  · rw [hidle]
    rfl
  · rw [hidle]
    exact Nat.zero_le _

theorem Ordered.sentInOrder {s : State c.totalEndpoints} (hs : Ordered s) : s.SentInOrder := by
  intro t
  have h := congrArg (List.take (s.sent t).length) (hs.split t)
  rw [List.append_assoc, List.take_left, List.take_range] at h
  have hle : (s.sent t).length ≤ s.pushed t := by
    have := congrArg List.length (hs.split t)
    simp at this
    omega
  rwa [Nat.min_eq_left hle] at h

variable {s s' : State c.totalEndpoints} {i : ℕ} {pc pc' : Pc}

theorem inHand_setPc (h : s.threads[i]? = some pc) (pc' : Pc) (t : ℕ) :
    ∃ A B, s.inHand t = A ++ pc.inHand t ++ B ∧ (s.setPc i pc').inHand t = A ++ pc'.inHand t ++ B := by
  obtain ⟨A, B, hl, -, hset⟩ := split_at h
  refine ⟨A.flatMap (Pc.inHand t), B.flatMap (Pc.inHand t), ?_, ?_⟩
  · rw [State.inHand, hl]
    simp
  · rw [State.inHand, State.setPc]
    dsimp only
    rw [hset]
    simp

/-- A thread that moves with what it has in hand. -/
theorem Ordered.setPc (hs : Ordered s) (h : s.threads[i]? = some pc)
    (hpc : ∀ t, pc'.inHand t = pc.inHand t) : Ordered (s.setPc i pc') := by
  have hhand : ∀ t, (s.setPc i pc').inHand t = s.inHand t := by
    intro t
    obtain ⟨A, B, h1, h2⟩ := inHand_setPc h pc' t
    rw [h1, h2, hpc]
  refine ⟨fun t => ?_, fun t => ?_, hs.short⟩
  · rw [hhand]
    exact hs.split t
  · rw [hhand]
    exact hs.one t

theorem Ordered.setEndpoint (hs : Ordered s) {t : ℕ} {ep : Endpoint} (hq : stamps ep = stamps (s.endpoints t))
    (hshort : ShortFree ep) : Ordered (s.setEndpoint t ep) := by
  refine ⟨fun t' => ?_, hs.one, fun t' => ?_⟩
  · have hqueue : (s.setEndpoint t ep).queued t' = s.queued t' := by
      unfold State.queued
      by_cases ht : t' = t
      · subst ht
        rw [State.setEndpoint_self, hq]
      · rw [State.setEndpoint_of_ne ht]
    rw [hqueue]
    exact hs.split t'
  · by_cases ht : t' = t
    · subst ht
      rwa [State.setEndpoint_self]
    · rw [State.setEndpoint_of_ne ht]
      exact hs.short t'

/-- A caller brings nothing in hand. -/
theorem Ordered.called (hs : Ordered s) (h : s.threads[i]? = some .idle) {t : ℕ} {r : Endpoint × Bool}
    (hq : stamps r.1 = stamps (s.endpoints t)) (hshort : ShortFree r.1) : Ordered (s.called i t r) := by
  apply (hs.setEndpoint hq hshort).setPc h
  intro t'
  split <;> rfl

theorem setRCount_stamps {ep : Endpoint} (h : ShortFree ep) (b : ℕ) (r : ℤ) :
    stamps (ep.setRCount b r).1 = stamps ep ∧ ShortFree (ep.setRCount b r).1 := by
  unfold setRCount
  dsimp only
  split
  · refine ⟨rfl, fun hdr hm => ?_⟩
    rcases List.mem_append.mp hm with hm | hm
    · exact h hdr hm
    · rw [List.mem_singleton.mp hm]
      rfl
  · exact ⟨rfl, h⟩

theorem handleLongMsgptr_stamps (ec : EndpointConfig) {ep : Endpoint} (h : ShortFree ep) (ptr : ℕ) :
    stamps (ep.handleLongMsgptr ec ptr).1 = stamps ep ∧ ShortFree (ep.handleLongMsgptr ec ptr).1 := by
  unfold handleLongMsgptr
  split
  · exact ⟨rfl, h⟩
  · exact setRCount_stamps h _ _

theorem enqueueMessage_stamps (ec : EndpointConfig) {ep : Endpoint} (h : ShortFree ep)
    (hdr : OutgoingMessage) (inOrder : Bool) (hst : inOrder = false → hdr.stamp = none) :
    stamps (ep.enqueueMessage ec hdr inOrder).1 = stamps ep ++ hdr.stamp.toList ∧
      ShortFree (ep.enqueueMessage ec hdr inOrder).1 := by
  unfold enqueueMessage
  dsimp only
  split
  · rename_i hshort
    have hnone := hst hshort.1
    refine ⟨by simp [stamps, hnone], fun x hx => ?_⟩
    rcases List.mem_append.mp hx with hx | hx
    · exact h x hx
    · rw [List.mem_singleton.mp hx]
      exact hnone
  · refine ⟨?_, h⟩
    cases hs : hdr.stamp <;> simp [stamps, hs]

theorem assignSrcdata_stamps {ep ep' : Endpoint} {long : Bool} {j ptr : ℕ} (hf : ShortFree ep)
    (h : ep.assignSrcdata long j ptr = some ep') : stamps ep' = stamps ep ∧ ShortFree ep' := by
  obtain ⟨hdr, ⟨hj, rfl⟩ | ⟨hj, rfl⟩⟩ := assignSrcdata_cases h
  · obtain ⟨A, B, hl, -, hset⟩ := split_at hj
    refine ⟨?_, hf⟩
    unfold stamps
    dsimp only
    rw [hset, hl, List.filterMap_append, List.filterMap_append, List.filterMap_cons, List.filterMap_cons]
  · refine ⟨rfl, fun x hx => ?_⟩
    rcases List.mem_or_eq_of_mem_set hx with hx | rfl
    · exact hf x hx
    · exact hf hdr (List.mem_of_getElem? hj)

/-- What an iteration of `push_messages` takes from the in-order messages. -/
theorem pushIter_stamps (ec : EndpointConfig) {ep : Endpoint} (hf : ShortFree ep) :
    match ep.pushIter ec with
    | .sendShort hdr ep' => stamps ep = hdr.stamp.toList ++ stamps ep' ∧ ShortFree ep'
    | .sendLong hdr _ ep' => stamps ep = hdr.stamp.toList ++ stamps ep' ∧ ShortFree ep'
    | .flip _ _ ep' => stamps ep = stamps ep' ∧ ShortFree ep'
    | .blocked => True
    | .failed => True := by
  have hp := pushIter_spec ec ep
  have hlong : ∀ {hdr rest}, ep.outLongHdrs = hdr :: rest →
      stamps ep = hdr.stamp.toList ++ rest.filterMap (·.stamp) := by
    intro hdr rest hl
    rw [stamps, hl]
    cases hs : hdr.stamp <;> simp [hs]
  generalize ep.pushIter ec = o at hp
  cases hp with
  | @short hdr rest hs =>
    have hnone := hf hdr (hs ▸ List.mem_cons_self)
    refine ⟨by rw [hnone]; rfl, fun x hx => hf x (hs ▸ List.mem_cons_of_mem _ hx)⟩
  | ordered hs hl h0 => exact ⟨hlong hl, hf⟩
  | direct hs hl h0 hd => exact ⟨hlong hl, hf⟩
  | place hs hl h0 hd ha hfit => exact ⟨hlong hl, hf⟩
  | flip hs hl ha hz hfull => exact ⟨rfl, hf⟩
  | blocked => trivial
  | failed => trivial

/-- What a thread has in its hands when it has popped `hdr`. -/
theorem inHand_pop {maxToSend count count' : ℤ} {t : ℕ} {more more' : Bool}
    (h : s.threads[i]? = some (.endpoint maxToSend t count more)) {ep : Endpoint} {hdr : OutgoingMessage}
    {op : SendOp} (hop : op.hdr? = some hdr) (hexcl : hdr.stamp.isSome = true → s.inHand t = []) (t' : ℕ) :
    ((s.setEndpoint t ep).setPc i (.send maxToSend t count' more' op)).inHand t' =
      if t' = t then s.inHand t ++ hdr.stamp.toList else s.inHand t' := by
  obtain ⟨A, B, h1, h2⟩ := inHand_setPc (s := s.setEndpoint t ep) h
    (.send maxToSend t count' more' op) t'
  change s.inHand t' = _ at h1
  rw [h2]
  by_cases ht : t' = t
  · subst ht
    rw [if_pos rfl, h1]
    simp only [Pc.inHand, if_pos, hop, Option.bind_some, List.append_nil]
    cases hst : hdr.stamp with
    | none => simp
    | some k =>
      have hnil := hexcl (by rw [hst]; rfl)
      rw [h1] at hnil
      simp only [Pc.inHand, List.append_nil, List.append_eq_nil_iff] at hnil
      simp [hnil.1, hnil.2]
  · rw [if_neg ht, h1]
    simp [Pc.inHand, Ne.symm ht]

/-- **A pop moves the first waiting stamp into empty hands.** -/
theorem Ordered.pop (hs : Ordered s) {maxToSend count count' : ℤ} {t : ℕ} {more more' : Bool}
    (h : s.threads[i]? = some (.endpoint maxToSend t count more)) {ep : Endpoint} {hdr : OutgoingMessage}
    {op : SendOp} (hop : op.hdr? = some hdr) (hq : stamps (s.endpoints t) = hdr.stamp.toList ++ stamps ep)
    (hshort : ShortFree ep) (hexcl : hdr.stamp.isSome = true → s.inHand t = []) :
    Ordered ((s.setEndpoint t ep).setPc i (.send maxToSend t count' more' op)) := by
  have hhand : ∀ t', ((s.setEndpoint t ep).setPc i (.send maxToSend t count' more' op)).inHand t' =
      if t' = t then s.inHand t ++ hdr.stamp.toList else s.inHand t' := inHand_pop h hop hexcl
  refine ⟨fun t' => ?_, fun t' => ?_, fun t' => ?_⟩
  · rw [hhand]
    have hsplit := hs.split t'
    by_cases ht : t' = t
    · subst ht
      rw [if_pos rfl]
      refine Eq.trans ?_ hsplit
      change s.sent t' ++ (s.inHand t' ++ hdr.stamp.toList) ++ stamps ((s.setEndpoint t' ep).endpoints t') =
        s.sent t' ++ s.inHand t' ++ stamps (s.endpoints t')
      rw [State.setEndpoint_self, hq]
      simp only [List.append_assoc]
    · rw [if_neg ht]
      refine Eq.trans ?_ hsplit
      change s.sent t' ++ s.inHand t' ++ stamps ((s.setEndpoint t ep).endpoints t') = _
      rw [State.setEndpoint_of_ne ht]
      rfl
  · rw [hhand]
    have hone := hs.one t'
    by_cases ht : t' = t
    · subst ht
      rw [if_pos rfl]
      cases hst : hdr.stamp with
      | none => simpa using hone
      | some k =>
        rw [hexcl (by rw [hst]; rfl)]
        exact le_rfl
    · rw [if_neg ht]
      exact hone
  · change ShortFree ((s.setEndpoint t ep).endpoints t')
    by_cases ht : t' = t
    · subst ht
      rwa [State.setEndpoint_self]
    · rw [State.setEndpoint_of_ne ht]
      exact hs.short t'

/-- **A send empties the hands**: what was in them is next in the order. -/
theorem Ordered.send (hs : Ordered s) {maxToSend count : ℤ} {t : ℕ} {more : Bool} {op : SendOp}
    (h : s.threads[i]? = some (.send maxToSend t count more op)) :
    Ordered (c := c) { s.setPc i (.endpoint maxToSend t count more) with
      sent := Function.update s.sent t (s.sent t ++ (op.hdr?.bind (·.stamp)).toList) } := by
  have hmove : ∀ t', Function.update s.sent t (s.sent t ++ (op.hdr?.bind (·.stamp)).toList) t' ++
        (s.setPc i (.endpoint maxToSend t count more)).inHand t' = s.sent t' ++ s.inHand t' ∧
      ((s.setPc i (.endpoint maxToSend t count more)).inHand t').length ≤ 1 := by
    intro t'
    obtain ⟨A, B, h1, h2⟩ := inHand_setPc h (.endpoint maxToSend t count more) t'
    have hone := hs.one t'
    rw [h2, h1]
    rw [h1] at hone
    by_cases ht : t' = t
    · subst ht
      rw [Function.update_self]
      simp only [Pc.inHand, if_pos, List.append_nil] at hone ⊢
      cases hst : op.hdr?.bind (·.stamp) with
      | none => simpa [hst] using hone
      | some k =>
        simp only [hst, Option.toList_some, List.length_append, List.length_singleton] at hone
        obtain rfl : A = [] := List.eq_nil_of_length_eq_zero (by omega)
        obtain rfl : B = [] := List.eq_nil_of_length_eq_zero (by omega)
        simp
    · rw [Function.update_of_ne ht]
      simp only [Pc.inHand, if_neg (Ne.symm ht)] at hone ⊢
      exact ⟨trivial, hone⟩
  refine ⟨fun t' => ?_, fun t' => (hmove t').2, hs.short⟩
  refine Eq.trans ?_ (hs.split t')
  rw [← (hmove t').1]
  rfl

/-- **Enqueueing appends the next stamp.** -/
theorem Ordered.enqueue (hs : Ordered s) (h : s.threads[i]? = some .idle) {t : ℕ} {r : Endpoint × Bool}
    (hq : stamps r.1 = stamps (s.endpoints t) ++ [s.pushed t]) (hshort : ShortFree r.1) :
    Ordered (c := c) { s.called i t r with pushed := Function.update s.pushed t (s.pushed t + 1) } := by
  have hhand : ∀ t', (s.called i t r).inHand t' = s.inHand t' := by
    intro t'
    obtain ⟨A, B, h1, h2⟩ := inHand_setPc (s := s.setEndpoint t r.1) h
      (if r.2 then .addTodo t none else .idle) t'
    have hnone : (if r.2 then Pc.addTodo t none else .idle).inHand t' = [] := by split <;> rfl
    rw [hnone] at h2
    exact h2.trans h1.symm
  refine ⟨fun t' => ?_, fun t' => ?_, fun t' => ?_⟩
  · have hsplit := hs.split t'
    change s.sent t' ++ (s.called i t r).inHand t' ++ stamps ((s.setEndpoint t r.1).endpoints t') =
      List.range (Function.update s.pushed t (s.pushed t + 1) t')
    rw [hhand]
    by_cases ht : t' = t
    · subst ht
      rw [State.setEndpoint_self, Function.update_self, hq, List.range_succ, ← hsplit]
      simp only [List.append_assoc]
      rfl
    · rw [State.setEndpoint_of_ne ht, Function.update_of_ne ht]
      exact hsplit
  · exact (congrArg List.length (hhand t')).trans_le (hs.one t')
  · change ShortFree ((s.setEndpoint t r.1).endpoints t')
    by_cases ht : t' = t
    · subst ht
      rwa [State.setEndpoint_self]
    · rw [State.setEndpoint_of_ne ht]
      exact hs.short t'

theorem inHand_afterPush (maxToSend : ℤ) (target : ℕ) (stillMore : Bool) (t : ℕ) :
    (afterPush maxToSend target stillMore).inHand t = [] := by
  cases stillMore <;> rfl

/-- An iteration of `ActiveMessageEndpoint::push_messages` that respects the schedule. -/
theorem Ordered.endpoint (hs : Ordered s) {maxToSend count : ℤ} {t : ℕ} {stillMore ok : Bool}
    (h : s.threads[i]? = some (.endpoint maxToSend t count stillMore))
    (hexcl : Exclusive c s (.endpoint i ok)) (hstep : step c s (.endpoint i ok) = some s') : Ordered s' := by
  simp only [step, h] at hstep
  split at hstep
  · rename_i hgo
    obtain ⟨rfl, hcount, rfl⟩ := hgo
    have hex := hexcl maxToSend t count h hcount
    have hp := pushIter_stamps (c.endpoint t) (hs.short t)
    unfold takesInOrder at hex
    generalize pushIter (c.endpoint t) (s.endpoints t) = o at hstep hp hex
    cases o with
    | sendShort hdr ep =>
      cases hstep
      exact hs.pop h rfl hp.1 hp.2 hex
    | sendLong hdr destPtr ep =>
      cases hstep
      exact hs.pop h rfl hp.1 hp.2 hex
    | flip buffer flipCount ep =>
      cases hstep
      apply (hs.setEndpoint hp.1.symm hp.2).setPc h
      intro t'
      simp [Pc.inHand, SendOp.hdr?]
    | blocked =>
      cases hstep
      exact hs.setPc h (inHand_afterPush maxToSend t true)
    | failed => cases hstep
  · cases hstep
    exact hs.setPc h (inHand_afterPush maxToSend t stillMore)

theorem Ordered.step (hs : Ordered s) {e : Event} (hexcl : Exclusive c s e) (h : step c s e = some s') :
    Ordered s' := by
  cases step_moves h with
  | @enqueue i t hdr inOrder hpc ht =>
    cases inOrder with
    | true =>
      have hq := enqueueMessage_stamps (c.endpoint t) (hs.short t)
        { hdr with stamp := some (s.pushed t) } true (fun h => by cases h)
      exact hs.enqueue hpc hq.1 hq.2
    | false =>
      have hq := enqueueMessage_stamps (c.endpoint t) (hs.short t)
        { hdr with stamp := none } false (fun _ => rfl)
      have hc := hs.called hpc (hq.1.trans (List.append_nil _)) hq.2
      exact ⟨hc.split, hc.one, hc.short⟩
  | @longMsgptr i t ptr hpc ht =>
    have hq := handleLongMsgptr_stamps (c.endpoint t) (hs.short t) ptr
    exact hs.called hpc hq.1 hq.2
  | @flipRequest i t buffer count hpc ht =>
    have hq := setRCount_stamps (hs.short t) buffer (int32 ((s.endpoints t).lmbRCounts buffer - count))
    exact hs.called hpc hq.1 hq.2
  | @flipAck t buffer => exact hs.setEndpoint rfl (hs.short t)
  | @assign t j ptr long ep hep =>
    have hq := assignSrcdata_stamps (hs.short t) hep
    exact hs.setEndpoint hq.1 hq.2
  | startPush hpc => exact hs.setPc hpc fun _ => rfl
  | giveUp hpc => exact hs.setPc hpc fun _ => rfl
  | @take i ok maxToSend hpc hne =>
    have hc : Ordered (s.setPc i (.endpoint maxToSend s.todo.front 0 true)) := hs.setPc hpc fun _ => rfl
    exact ⟨hc.split, hc.one, hc.short⟩
  | endpoint hpc h => exact hs.endpoint hpc hexcl h
  | send hpc => exact hs.send hpc
  | @addTodo i t ret hpc =>
    have hc : Ordered (s.setPc i (ret.elim .idle .manager)) := by
      apply hs.setPc hpc
      intro t'
      cases ret <;> rfl
    exact ⟨hc.split, hc.one, hc.short⟩

/-- A pop of an in-order message leaves it in the hands of the pusher. -/
theorem endpoint_takes {maxToSend count : ℤ} {t : ℕ} (hf : ShortFree (s.endpoints t))
    (h : s.threads[i]? = some (.endpoint maxToSend t count true)) (hgo : maxToSend = 0 ∨ count < maxToSend)
    (htakes : takesInOrder (c.endpoint t) (s.endpoints t) = true)
    (hstep : step c s (.endpoint i true) = some s') :
    ∃ more op k, s'.threads[i]? = some (.send maxToSend t (count + 1) more op) ∧
      op.hdr?.bind (·.stamp) = some k ∧ s'.sent = s.sent ∧ ∃ ks, s.queued t = k :: ks := by
  simp only [step, h] at hstep
  rw [if_pos ⟨trivial, hgo, trivial⟩] at hstep
  have hp := pushIter_stamps (c.endpoint t) hf
  unfold takesInOrder at htakes
  have hi : i < s.threads.length := (List.getElem?_eq_some_iff.mp h).1
  generalize pushIter (c.endpoint t) (s.endpoints t) = o at hstep hp htakes
  cases o with
  | sendShort hdr ep =>
    cases hstep
    obtain ⟨k, hk⟩ := Option.isSome_iff_exists.mp htakes
    have hq := hp.1
    rw [hk] at hq
    exact ⟨_, .short hdr, k, List.getElem?_set_self hi, hk, rfl, stamps ep, hq⟩
  | sendLong hdr destPtr ep =>
    cases hstep
    obtain ⟨k, hk⟩ := Option.isSome_iff_exists.mp htakes
    have hq := hp.1
    rw [hk] at hq
    exact ⟨_, .long hdr destPtr, k, List.getElem?_set_self hi, hk, rfl, stamps ep, hq⟩
  | flip buffer flipCount ep => cases htakes
  | blocked => cases htakes
  | failed => cases htakes

/-- Two pushers with an in-order message each: the second one may send first. -/
theorem Ordered.breaks (hs : Ordered s) {e : Event} (hexcl : ¬ Exclusive c s e)
    (hstep : Manager.step c s e = some s') :
    ∃ i s'', Manager.step c s' (.send i) = some s'' ∧ ¬ s''.SentInOrder := by
  cases e with
  | endpoint i ok =>
    cases ok with
    | false => exact absurd trivial hexcl
    | true =>
      simp only [Exclusive, not_forall] at hexcl
      obtain ⟨maxToSend, t, count, hpc, hgo, htakes, hhand⟩ := hexcl
      obtain ⟨more, op, k, hpc', hk, hsent, ks, hq⟩ := endpoint_takes (hs.short t) hpc hgo htakes hstep
      refine ⟨i, { s'.setPc i (.endpoint maxToSend t (count + 1) more) with
        sent := Function.update s'.sent t (s'.sent t ++ [k]) }, ?_, fun hord => ?_⟩
      · simp only [Manager.step, hpc', hk, Option.toList_some]
      · -- the stamp in the other hand is missing before `k`
        obtain ⟨k₀, hk₀⟩ : ∃ k₀, s.inHand t = [k₀] := by
          have hpos : 0 < (s.inHand t).length := List.length_pos_iff.mpr hhand
          exact List.length_eq_one_iff.mp (le_antisymm (hs.one t) hpos)
        have hsplit := hs.split t
        rw [hk₀, hq] at hsplit
        have hlate : (List.range (s.pushed t))[(s.sent t).length + 1]? = some k := by
          rw [← hsplit]
          simp
        have hearly := hord t
        simp only [Function.update_self, hsent, List.length_append, List.length_singleton] at hearly
        have hnext : (List.range ((s.sent t).length + 1))[(s.sent t).length]? = some k := by
          rw [← hearly]
          simp
        rw [List.getElem?_eq_some_iff] at hlate hnext
        obtain ⟨_, h1⟩ := hlate
        obtain ⟨_, h2⟩ := hnext
        rw [List.getElem_range] at h1 h2
        omega
  | _ => exact absurd trivial hexcl

/-- **In-order messages are sent in order** in every run that pops one only while no other one of its
target is in hand; and a run that leaves this schedule by one step can go on to send out of order. -/
theorem inOrder_of_exclusive (c : Config) (threads : ℕ) {es : List Event} {s : State c.totalEndpoints}
    (hg : Guarded (step c) (Exclusive c) (State.init c.totalEndpoints threads) es)
    (h : run (step c) (State.init c.totalEndpoints threads) es = some s) :
    s.SentInOrder ∧ ∀ e s', ¬ Exclusive c s e → step c s e = some s' →
      ∃ i s'', step c s' (.send i) = some s'' ∧ ¬ s''.SentInOrder := by
  have hs : Ordered s := run_inv_guarded (fun _ _ _ ht hC h => ht.step hC h) (Ordered.init threads) hg h
  exact ⟨hs.sentInOrder, fun e s' hexcl hstep => hs.breaks hexcl hstep⟩

/-- One message, enqueued, taken and sent. -/
theorem inOrder_oneMessage :
    ∃ s, run (step twoNodes) (State.init 2 2)
        [.enqueue 0 1 (OutgoingMessage.mk' 1 []) true, .addTodo 0, .startPush 1 0, .manager 1 true,
          .endpoint 1 true, .send 1] = some s ∧ s.sent 1 = [0] ∧ s.SentInOrder := by
  have hg : Guarded (step twoNodes) (Exclusive twoNodes) (State.init 2 2)
      [.enqueue 0 1 (OutgoingMessage.mk' 1 []) true, .addTodo 0, .startPush 1 0, .manager 1 true,
        .endpoint 1 true, .send 1] := by
    refine guarded_cons rfl trivial (guarded_cons rfl trivial (guarded_cons rfl trivial
      (guarded_cons rfl trivial (guarded_cons rfl ?_ (guarded_cons rfl trivial trivial)))))
    intro maxToSend t count h _ _
    cases h
    rfl
  obtain ⟨s, hrun, hsent⟩ : ∃ s, run (step twoNodes) (State.init 2 2)
      [.enqueue 0 1 (OutgoingMessage.mk' 1 []) true, .addTodo 0, .startPush 1 0, .manager 1 true,
        .endpoint 1 true, .send 1] = some s ∧ s.sent 1 = [0] := ⟨_, rfl, rfl⟩
  exact ⟨s, hrun, hsent, (inOrder_of_exclusive twoNodes 2 hg hrun).1⟩

/-- **Two senders overlap**: the first message is popped and its pusher stopped before the send; the queue
is empty, so the second message puts the target on the list again and another thread sends it first. -/
theorem sent_out_of_order :
    ∃ s, run (step twoNodes) (State.init 2 3)
        [.enqueue 0 1 (OutgoingMessage.mk' 1 []) true, .addTodo 0, .startPush 1 0, .manager 1 true,
          .endpoint 1 true, .enqueue 0 1 (OutgoingMessage.mk' 2 []) true, .addTodo 0, .startPush 2 0,
          .manager 2 true, .endpoint 2 true, .send 2] = some s ∧ s.sent 1 = [1] ∧ ¬ s.SentInOrder := by
  refine ⟨_, rfl, rfl, fun h => ?_⟩
  have h1 := h 1
  change [1] = [0] at h1
  cases h1

end Realm.Manager

import Realm.SrcDataPool.Copy
import Realm.Endpoint.Chunks
import Realm.Endpoint.MessageIds

/-!
# Realm.Endpoint.SrcRelease — the way of a span of the source data pool to the peers and back

The payload of a long message lies in a span of the pool.  `send_long` cuts it into chunks, which carry the pointer of
the span; the peer sends that pointer back when it has seen the last chunk, and `release_srcptr_handler` gives the span
to the next message.  Here the pool of `SrcDataPool` works together with the peers of `Chunks`.

* `step`: one node, any number of peers and of pushers, which take their message ids without a lock (`MessageIds`), and
  the chunks and replies, which the network may reorder.
* `Inv`: who holds the spans; `Inv.reply`, `Inv.of_flight`: what a reply and a chunk under way say about its message.
* `srcRelease_of_run`: a reply always carries a pointer in use, no span is released twice or while a chunk of it is
  under way, and when nothing is under way all spans are back.
-/

namespace Realm.SrcRelease

open Lib Chunks

deriving instance DecidableEq for Chunk

variable {P : Type} [DecidableEq P]

/-! ## One node and its peers -/

/-- A message that was sent.  The pool knows it by `hdr`, its number and size, if it is in the pool. -/
structure Sent (P : Type) where
  peer : P
  msg : LongMessage
  hdr : ℕ × ℕ

/-- The message with its pointer, as the pool has handed it out. -/
def Sent.owner (x : Sent P) : (ℕ × ℕ) × ℕ := (x.hdr, x.msg.payload.toNat)

/-- The arguments of `MSGID_RELEASE_SRCPTR`, with the id of the message that they are for. -/
abbrev Reply := ℤ × BitVec 32 × BitVec 32

/-- `SrcDataPool::release_srcptr_handler` -/
def Reply.srcptr (w : Reply) : BitVec 64 := releaseSrcptrHandler w.2.1 w.2.2

/-- `ready` are the messages that have a span and are not sent yet.  `flight` are the chunks on the way to a peer and
`replies` the releases on the way back.  The rest is history: the messages, and for each peer the chunks that have
arrived there and the releases that came back. -/
structure State (P : Type) where
  pool : SrcDataPool.Trace (ℕ × ℕ)
  ready : List ((ℕ × ℕ) × ℕ)
  ids : P → MessageIds
  flight : P → List Chunk
  receiver : P → Receiver
  replies : P → List Reply
  sent : List (Sent P)
  arrived : P → List Chunk
  handled : P → List Reply

def State.init (base size : ℕ) : State P where
  pool := .init base size
  ready := []
  ids _ := .init
  flight _ := []
  receiver _ := .init
  replies _ := []
  sent := []
  arrived _ := []
  handled _ := []

inductive Event (P : Type)
  | reserve (hdr : ℕ × ℕ)
  | loadId (p : P)
  | storeId (p : P) (v : ℤ)
  | send (p : P) (m : LongMessage) (hdr : ℕ × ℕ)
  | sendOther (p : P) (m : LongMessage)
  | receive (p : P) (c : Chunk)
  | release (p : P) (w : Reply)

/-- `send_long`, when it has its id. -/
def State.sendLong (maxLongReq : ℕ) (s : State P) (p : P) (m : LongMessage) (hdr : ℕ × ℕ) : State P :=
  { s with
    flight := Function.update s.flight p (s.flight p ++ Chunks.sendLong maxLongReq m)
    sent := s.sent ++ [⟨p, m, hdr⟩] }

/-- A reply has come back. -/
def State.reply (s : State P) (p : P) (w : Reply) : State P :=
  { s with
    replies := Function.update s.replies p ((s.replies p).erase w)
    handled := Function.update s.handled p (s.handled p ++ [w]) }

/-- `reserve_srcdata`; `send_long` for a message with a span, wherever it goes, and for one whose payload is not in the
pool, each with an id that was taken for it before; `handler_medium` at the peer; and `release_srcptr_handler`.  A
`satisfied` message may be sent at once. -/
def step (maxLongReq : ℕ) (s : State P) : Event P → Option (State P)
  | .reserve hdr => do
    let (srcptr, _) ← s.pool.pool.reserveSrcdata Prod.snd hdr
    let pool ← s.pool.step Prod.snd (.reserve hdr)
    return { s with pool := pool, ready := if srcptr ≠ 0 then s.ready ++ [(hdr, srcptr)] else s.ready }
  | .loadId p => some { s with ids := Function.update s.ids p (s.ids p).load }
  | .storeId p v => do
    let ids ← (s.ids p).store v
    return { s with ids := Function.update s.ids p ids }
  | .send p m hdr => do
    let ids ← (s.ids p).use m.id
    if (hdr, m.payload.toNat) ∈ s.ready ∧ m.payloadSize = hdr.2 ∧ m.isSrcptr = true then
      return { s.sendLong maxLongReq p m hdr with
        ids := Function.update s.ids p ids
        ready := s.ready.erase (hdr, m.payload.toNat) }
    else none
  | .sendOther p m => do
    let ids ← (s.ids p).use m.id
    if m.isSrcptr = false then
      return { s.sendLong maxLongReq p m (0, 0) with ids := Function.update s.ids p ids }
    else none
  | .receive p c =>
    if c ∈ s.flight p then
      let r := handlerMedium (s.receiver p) c
      some { s with
        flight := Function.update s.flight p ((s.flight p).erase c)
        receiver := Function.update s.receiver p r
        replies := Function.update s.replies p (s.replies p ++ r.releases.drop (s.receiver p).releases.length)
        arrived := Function.update s.arrived p (s.arrived p ++ [c]) }
    else none
  | .release p w =>
    if w ∈ s.replies p then
      -- "We may get pointers which are zero", which are ignored
      if w.srcptr = 0 then some (s.reply p w)
      else do
        let (_, satisfied) ← s.pool.pool.releaseSrcptr Prod.snd w.srcptr.toNat
        let pool ← s.pool.step Prod.snd (.release w.srcptr.toNat)
        return { s.reply p w with pool := pool, ready := s.ready ++ satisfied }
    else none

/-- Payloads are not empty and fit into `2 ^ 31` chunks, a peer is sent at most `2 ^ 31` messages, and no two pushers
for one peer are in the increment of the id together, so that the ids differ. -/
def Proper (maxLongReq : ℕ) (s : State P) : Event P → Prop
  | .reserve hdr => 0 < hdr.2
  | .loadId p => (s.ids p).Alone
  | .send _ m _ | .sendOther _ m => Countable maxLongReq m
  | _ => True

namespace State

def sentTo (s : State P) (p : P) : List LongMessage := (s.sent.filter (fun x => x.peer = p)).map Sent.msg

/-- The release of the message has come back. -/
def Handled (s : State P) (x : Sent P) : Prop := x.msg.id ∈ (s.handled x.peer).map Prod.fst

instance (s : State P) (x : Sent P) : Decidable (s.Handled x) := inferInstanceAs (Decidable (_ ∈ _))

/-- The messages that were sent from a span which they still hold. -/
def unreleased (s : State P) : List (Sent P) := s.sent.filter (fun x => x.msg.isSrcptr = true ∧ ¬ s.Handled x)

end State

/-! ## Spans in use have an owner -/

section Pool

variable {t t' : SrcDataPool.Trace (ℕ × ℕ)} {base size : ℕ}

/-- The other direction of `owned`: nobody but the owners keeps a span from being free. -/
def Held (t : SrcDataPool.Trace (ℕ × ℕ)) : Prop := ∀ x ∈ t.pool.inUse, ∃ o ∈ t.owners, o.2 = x.1

theorem inUse_of_allocSrcptr {s s' : SrcDataPool (ℕ × ℕ)} {n p : ℕ} (h : s.allocSrcptr n = some (p, s')) (hp : p ≠ 0) :
    ∃ z, s'.inUse = s.inUse.set p z := by
  unfold SrcDataPool.allocSrcptr at h
  split at h
  · cases h
  · split at h
    · cases h
      exact absurd rfl hp
    · dsimp only at h
      split at h
      · cases h
        exact ⟨_, rfl⟩
      · split at h
        · obtain ⟨z, -, h⟩ := Option.bind_eq_some_iff.mp h
          cases h
          exact ⟨_, rfl⟩
        · cases h
          exact absurd rfl hp

theorem inUse_of_reserveSrcdata {s s' : SrcDataPool (ℕ × ℕ)} {w : ℕ × ℕ} {p : ℕ}
    (h : s.reserveSrcdata Prod.snd w = some (p, s')) (hp : p ≠ 0) : ∃ z, s'.inUse = s.inUse.set p z := by
  obtain ⟨⟨q, s₁⟩, halloc, h⟩ := Option.bind_eq_some_iff.mp h
  simp only at h
  split at h
  · cases h
    exact inUse_of_allocSrcptr halloc hp
  · obtain ⟨s₂, -, h⟩ := Option.bind_eq_some_iff.mp h
    cases h
    exact absurd rfl hp

theorem Held.reserve (h : Held t) (ht : t.Inv Prod.snd base size) (hbase : 0 < base) {w : ℕ × ℕ} (hpos : 0 < w.2)
    {srcptr : ℕ} {s : SrcDataPool (ℕ × ℕ)} (hreserve : t.pool.reserveSrcdata Prod.snd w = some (srcptr, s))
    (hstep : t.step Prod.snd (.reserve w) = some t') : Held t' := by
  have hcases := SrcDataPool.reserveSrcdata_cases ht.pool hbase hpos (Copy.le_of_reserveSrcdata hreserve)
  simp only [SrcDataPool.Trace.step, hreserve, Option.bind_eq_bind, Option.bind_some] at hstep
  rw [hreserve] at hcases
  rcases hcases with ⟨p, s', hp, heq, -, -, -⟩ | ⟨-, heq⟩
  · obtain ⟨rfl, rfl⟩ := Prod.mk.inj (Option.some.inj heq)
    rw [if_pos hp] at hstep
    obtain rfl := Option.some.inj hstep
    obtain ⟨z, hz⟩ := inUse_of_reserveSrcdata hreserve hp
    intro x hx
    simp only [hz, SortedMap.mem_set] at hx
    rcases hx with rfl | ⟨hx, -⟩
    · exact ⟨(w, srcptr), List.mem_append_right _ (List.mem_singleton_self _), rfl⟩
    · obtain ⟨o, ho, hox⟩ := h x hx
      exact ⟨o, List.mem_append_left _ ho, hox⟩
  · obtain ⟨rfl, rfl⟩ := Prod.mk.inj (Option.some.inj heq)
    rw [if_neg (not_not.mpr rfl)] at hstep
    obtain rfl := Option.some.inj hstep
    exact h

theorem Held.release (h : Held t) (ht : t.Inv Prod.snd base size) (hbase : 0 < base) {o : (ℕ × ℕ) × ℕ}
    (ho : o ∈ t.owners) (hstep : t.step Prod.snd (.release o.2) = some t') : Held t' := by
  obtain ⟨z, hz, -⟩ := ht.owned o ho
  -- owners of other spans stay
  have hkeep : ∀ x ∈ t.pool.inUse, x.1 ≠ o.2 → ∃ o' ∈ t.owners.filter (fun o' => o'.2 ≠ o.2), o'.2 = x.1 := by
    intro x hx hne
    obtain ⟨o', ho', heq⟩ := h x hx
    refine ⟨o', List.mem_filter.mpr ⟨ho', decide_eq_true ?_⟩, heq⟩
    rwa [heq]
  have hallowed : t.Allowed Prod.snd (.release o.2) := ⟨z, hz⟩
  rcases SrcDataPool.Trace.step_cases ht hbase hallowed with
    ⟨_, _, _, hop, -⟩ | ⟨_, hop, -⟩ | ⟨p, n, msg, rest, hop, -, -, -, heq⟩ | ⟨p, n, hop, -, -, heq⟩
  · cases hop
  · cases hop
  · cases hop
    obtain rfl := Option.some.inj (heq.symm.trans hstep)
    intro x hx
    rcases SortedMap.mem_set.mp hx with rfl | ⟨hx, -⟩
    · exact ⟨_, List.mem_append_right _ (List.mem_singleton_self _), rfl⟩
    · obtain ⟨hx, hne⟩ := SortedMap.mem_erase.mp hx
      obtain ⟨o', ho', hox⟩ := hkeep x hx hne
      exact ⟨o', List.mem_append_left _ ho', hox⟩
  · cases hop
    obtain rfl := Option.some.inj (heq.symm.trans hstep)
    intro x hx
    obtain ⟨hx, hne⟩ := SortedMap.mem_erase.mp hx
    exact hkeep x hx hne

end Pool

/-! ## The invariant -/

theorem mem_sentTo {s : State P} {p : P} {m : LongMessage} :
    m ∈ s.sentTo p ↔ ∃ x ∈ s.sent, x.peer = p ∧ x.msg = m := by
  simp only [State.sentTo, List.mem_map, List.mem_filter, decide_eq_true_eq, and_assoc]

/-- `owners`: the spans belong to the messages that are ready and those that are not released; `ids`: the ids of a
peer's messages are told apart; `chunks` and `releases`: nothing is lost or doubled on the way. -/
structure Inv (maxLongReq base size : ℕ) (s : State P) : Prop where
  pool : s.pool.Inv Prod.snd base size
  held : Held s.pool
  owners : s.pool.owners.Perm (s.ready ++ s.unreleased.map Sent.owner)
  sizes : ∀ x ∈ s.sent, x.msg.isSrcptr = true → x.msg.payloadSize = x.hdr.2
  countable : ∀ x ∈ s.sent, Countable maxLongReq x.msg
  ids : ∀ p, (s.ids p).Inv ((s.sentTo p).map LongMessage.id)
  chunks : ∀ p, (s.arrived p ++ s.flight p).Perm ((s.sentTo p).flatMap (Chunks.sendLong maxLongReq))
  receiver : ∀ p, s.receiver p = Chunks.receive (s.arrived p)
  releases : ∀ p, (s.handled p ++ s.replies p).Perm (s.receiver p).releases

theorem Inv.init {M base size : ℕ} (hs : 0 < size) (hb : 64 ∣ base) (hz : 64 ∣ size) :
    Inv M base size (State.init base size : State P) where
  pool := .init hs hb hz
  held := fun _ hx => absurd hx List.not_mem_nil
  owners := .refl _
  sizes := fun _ hx => absurd hx List.not_mem_nil
  countable := fun _ hx => absurd hx List.not_mem_nil
  ids := fun _ => .init
  chunks := fun _ => .refl _
  receiver := fun _ => rfl
  releases := fun _ => .refl _

theorem receive_append_singleton (cs : List Chunk) (c : Chunk) :
    Chunks.receive (cs ++ [c]) = handlerMedium (Chunks.receive cs) c := by
  unfold Chunks.receive
  rw [List.foldl_append]
  rfl

/-- A release is for a message of which a chunk has arrived. -/
theorem exists_of_mem_releases {cs : List Chunk} {w : Reply} (hw : w ∈ (Chunks.receive cs).releases) :
    ∃ c ∈ cs, c.id = w.1 := by
  induction cs using List.reverseRecOn with
  | nil => exact absurd hw List.not_mem_nil
  | append_singleton cs c ih =>
    rw [receive_append_singleton, handlerMedium_releases] at hw
    rcases List.mem_append.mp hw with hw | hw
    · obtain ⟨c', hc', hid⟩ := ih hw
      exact ⟨c', List.mem_append_left _ hc', hid⟩
    · split at hw
      · rw [List.mem_singleton] at hw
        subst hw
        exact ⟨c, List.mem_append_right _ (List.mem_singleton_self _), rfl⟩
      · exact absurd hw List.not_mem_nil

section Messages

variable {M base size : ℕ} {s : State P}

theorem Inv.nodup (h : Inv M base size s) (p : P) : ((s.sentTo p).map LongMessage.id).Nodup := (h.ids p).nodup_used

/-- A message is known by its peer and its id. -/
theorem Inv.msg_unique (h : Inv M base size s) {x y : Sent P} (hx : x ∈ s.sent) (hy : y ∈ s.sent)
    (hpeer : x.peer = y.peer) (hid : x.msg.id = y.msg.id) : x.msg = y.msg := by
  have hx' : x.msg ∈ s.sentTo y.peer := mem_sentTo.mpr ⟨x, hx, hpeer, rfl⟩
  have hy' : y.msg ∈ s.sentTo y.peer := mem_sentTo.mpr ⟨y, hy, rfl, rfl⟩
  exact List.inj_on_of_nodup_map (h.nodup y.peer) hx' hy' hid

/-- The messages of one peer, for `Chunks`. -/
def Inv.traffic (h : Inv M base size s) (hM : 1 ≤ M) (hM' : M < 2 ^ 64) (p : P) : Traffic :=
  ⟨M, s.sentTo p, hM, hM', h.nodup p⟩

/-- The chunks of a message that have arrived. -/
def State.seen (s : State P) (x : Sent P) : List Chunk := (s.arrived x.peer).filter (fun c => c.id = x.msg.id)

/-- The peer has sent the release of a message if its payload is in the pool and all chunks have arrived. -/
theorem Inv.releases_filter (h : Inv M base size s) (hM : 1 ≤ M) (hM' : M < 2 ^ 64) {x : Sent P} (hx : x ∈ s.sent) :
    (s.receiver x.peer).releases.filter (fun w => w.1 = x.msg.id) =
      if x.msg.isSrcptr = true ∧ (s.seen x).length = (Chunks.sendLong M x.msg).length then
        [(x.msg.id, x.msg.payload.setWidth 32, (x.msg.payload >>> 32).setWidth 32)] else [] := by
  obtain ⟨k, hk, h31⟩ := (h.countable x hx).lastChunk hM
  have hm : x.msg ∈ (h.traffic hM hM' x.peer).messages := mem_sentTo.mpr ⟨x, hx, rfl, rfl⟩
  have hprogress := progress_of_perm hm hk h31 (s.arrived x.peer) (s.flight x.peer) (h.chunks x.peer)
  have hlen : (Chunks.sendLong M x.msg).length = k + 1 := by
    rw [sendLong_eq hk h31]
    simp
  rw [h.receiver, hlen]
  exact hprogress.releases

/-- The chunks of a message, here and there. -/
theorem Inv.seen_add (h : Inv M base size s) {x : Sent P} (hx : x ∈ s.sent) :
    (s.seen x ++ (s.flight x.peer).filter (fun c => c.id = x.msg.id)).Perm (Chunks.sendLong M x.msg) := by
  have hp := (h.chunks x.peer).filter (fun c => decide (c.id = x.msg.id))
  rw [List.filter_append, filter_flatMap_sendLong (h.nodup x.peer) (mem_sentTo.mpr ⟨x, hx, rfl, rfl⟩)] at hp
  exact hp

theorem Inv.exists_sent (h : Inv M base size s) {p : P} {c : Chunk} (hc : c ∈ s.arrived p ++ s.flight p) :
    ∃ x ∈ s.sent, x.peer = p ∧ c ∈ Chunks.sendLong M x.msg := by
  obtain ⟨m, hm, hcm⟩ := List.mem_flatMap.mp ((h.chunks p).mem_iff.mp hc)
  obtain ⟨x, hx, hpeer, rfl⟩ := mem_sentTo.mp hm
  exact ⟨x, hx, hpeer, hcm⟩

theorem Inv.exists_sent_of_release (h : Inv M base size s) {p : P} {w : Reply} (hw : w ∈ (s.receiver p).releases) :
    ∃ x ∈ s.sent, x.peer = p ∧ x.msg.id = w.1 := by
  rw [h.receiver p] at hw
  obtain ⟨c, hc, hid⟩ := exists_of_mem_releases hw
  obtain ⟨x, hx, hpeer, hcx⟩ := h.exists_sent (List.mem_append_left _ hc)
  exact ⟨x, hx, hpeer, (id_of_mem_sendLong hcx).symm.trans hid⟩

omit [DecidableEq P] in
theorem not_handled_of_filter {x : Sent P} (hnil : (s.handled x.peer).filter (fun w => w.1 = x.msg.id) = []) :
    ¬ s.Handled x := by
  intro hx
  obtain ⟨w, hw, hid⟩ := List.mem_map.mp hx
  have hmem : w ∈ (s.handled x.peer).filter (fun w => w.1 = x.msg.id) :=
    List.mem_filter.mpr ⟨hw, decide_eq_true hid⟩
  rw [hnil] at hmem
  exact absurd hmem List.not_mem_nil

/-- **What a reply says**: it carries the pointer of a message whose chunks have all arrived and that is not released
yet. -/
theorem Inv.reply (h : Inv M base size s) (hM : 1 ≤ M) (hM' : M < 2 ^ 64) {p : P} {w : Reply} (hw : w ∈ s.replies p) :
    ∃ x ∈ s.unreleased, x.peer = p ∧ x.msg.id = w.1 ∧ w.srcptr = x.msg.payload := by
  have hw' : w ∈ (s.receiver p).releases := (h.releases p).mem_iff.mp (List.mem_append_right _ hw)
  obtain ⟨x, hx, rfl, hid⟩ := h.exists_sent_of_release hw'
  have hfilter := h.releases_filter hM hM' hx
  have hmem : w ∈ (s.receiver x.peer).releases.filter (fun w => w.1 = x.msg.id) :=
    List.mem_filter.mpr ⟨hw', decide_eq_true hid.symm⟩
  split at hfilter
  · rename_i hfull
    rw [hfilter, List.mem_singleton] at hmem
    -- the only release of the message is under way, so none has come back
    have hperm := (h.releases x.peer).filter (fun w => decide (w.1 = x.msg.id))
    rw [List.filter_append, hfilter] at hperm
    have hpos : 0 < ((s.replies x.peer).filter (fun w => decide (w.1 = x.msg.id))).length :=
      List.length_pos_of_mem (List.mem_filter.mpr ⟨hw, decide_eq_true hid.symm⟩)
    have hlen := hperm.length_eq
    rw [List.length_append, List.length_singleton] at hlen
    have hnone : ¬ s.Handled x := not_handled_of_filter (List.length_eq_zero_iff.mp (by omega))
    refine ⟨x, List.mem_filter.mpr ⟨hx, decide_eq_true ⟨hfull.1, hnone⟩⟩, rfl, hid, ?_⟩
    rw [hmem]
    exact releaseSrcptrHandler_words x.msg.payload
  · rw [hfilter] at hmem
    exact absurd hmem List.not_mem_nil

/-- As long as a chunk of a message is under way, its release has not come back. -/
theorem Inv.of_flight (h : Inv M base size s) (hM : 1 ≤ M) (hM' : M < 2 ^ 64) {x : Sent P} (hx : x ∈ s.sent)
    {c : Chunk} (hc : c ∈ s.flight x.peer) (hcx : c ∈ Chunks.sendLong M x.msg) : ¬ s.Handled x := by
  have hlen := (h.seen_add hx).length_eq
  have hpos : 0 < ((s.flight x.peer).filter (fun c => decide (c.id = x.msg.id))).length :=
    List.length_pos_of_mem (List.mem_filter.mpr ⟨hc, decide_eq_true (id_of_mem_sendLong hcx)⟩)
  rw [List.length_append] at hlen
  have hfilter := h.releases_filter hM hM' hx
  rw [if_neg (fun hfull => by omega)] at hfilter
  have hperm := (h.releases x.peer).filter (fun w => decide (w.1 = x.msg.id))
  rw [List.filter_append, hfilter] at hperm
  exact not_handled_of_filter (List.append_eq_nil_iff.mp hperm.eq_nil).1

/-- Two releases of one peer are for different messages. -/
theorem Inv.nodup_releases (h : Inv M base size s) (hM : 1 ≤ M) (hM' : M < 2 ^ 64) (p : P) :
    ((s.handled p ++ s.replies p).map Prod.fst).Nodup := by
  rw [List.nodup_iff_count_le_one]
  intro i
  rw [((h.releases p).map Prod.fst).count_eq]
  by_cases hi : i ∈ (s.receiver p).releases.map Prod.fst
  · obtain ⟨w, hw, rfl⟩ := List.mem_map.mp hi
    obtain ⟨x, hx, rfl, hid⟩ := h.exists_sent_of_release hw
    have hfilter := h.releases_filter hM hM' hx
    rw [hid] at hfilter
    rw [List.count_eq_countP, List.countP_map, List.countP_eq_length_filter]
    refine le_of_eq_of_le (congrArg List.length hfilter) ?_
    split <;> simp
  · rw [List.count_eq_zero_of_not_mem hi]
    exact Nat.zero_le _

end Messages

/-! ## The steps -/

section Steps

variable {M base size : ℕ} {s s' : State P}

theorem Inv.reserve {hdr : ℕ × ℕ} (h : Inv M base size s) (hbase : 0 < base) (hpos : 0 < hdr.2)
    (hstep : step M s (.reserve hdr) = some s') : Inv M base size s' := by
  obtain ⟨⟨srcptr, q⟩, hreserve, hstep⟩ := Option.bind_eq_some_iff.mp hstep
  obtain ⟨pool, hpool, hstep⟩ := Option.bind_eq_some_iff.mp hstep
  cases hstep
  obtain ⟨hinv, hcases⟩ := Copy.reserve_spec h.pool hbase hpos hreserve hpool
  refine { h with
    pool := hinv
    held := h.held.reserve h.pool hbase hpos hreserve hpool
    owners := ?_ }
  show pool.owners.Perm ((if srcptr ≠ 0 then s.ready ++ [(hdr, srcptr)] else s.ready) ++ s.unreleased.map Sent.owner)
  rcases hcases with ⟨hne, howners, -⟩ | ⟨hzero, howners, -⟩
  · rw [if_pos hne, howners, List.append_assoc]
    refine (h.owners.append_right _).trans ?_
    rw [List.append_assoc]
    exact List.perm_append_comm.append_left _
  · rw [if_neg (not_not.mpr hzero), howners]
    exact h.owners

/-- What `send_long` does to the messages of a peer. -/
theorem sentTo_sendLong (s : State P) (p q : P) (m : LongMessage) (hdr : ℕ × ℕ) :
    (s.sendLong M p m hdr).sentTo q = s.sentTo q ++ if p = q then [m] else [] := by
  unfold State.sentTo State.sendLong
  rw [List.filter_append, List.map_append]
  congr 1
  by_cases hpq : p = q
  · rw [if_pos hpq]
    simp [hpq]
  · rw [if_neg hpq]
    simp [hpq]

/-- A new message has an id that no release was for. -/
theorem Inv.not_handled_new (h : Inv M base size s) {p : P} {m : LongMessage} {hdr : ℕ × ℕ} {ids : MessageIds}
    (huse : (s.ids p).use m.id = some ids) : ¬ s.Handled ⟨p, m, hdr⟩ := by
  intro hx
  obtain ⟨w, hw, hwid⟩ := List.mem_map.mp hx
  obtain ⟨y, hy, hpeer, hyid⟩ :=
    h.exists_sent_of_release ((h.releases p).mem_iff.mp (List.mem_append_left _ hw))
  have hmem : y.msg.id ∈ (s.sentTo p).map LongMessage.id :=
    List.mem_map_of_mem (mem_sentTo.mpr ⟨y, hy, hpeer, rfl⟩)
  rw [hyid, hwid] at hmem
  exact (h.ids p).not_mem_of_use huse hmem

theorem unreleased_sendLong {p : P} {m : LongMessage} {hdr : ℕ × ℕ} (hnew : ¬ s.Handled ⟨p, m, hdr⟩) :
    (s.sendLong M p m hdr).unreleased = s.unreleased ++ if m.isSrcptr = true then [⟨p, m, hdr⟩] else [] := by
  unfold State.unreleased
  show (s.sent ++ [(⟨p, m, hdr⟩ : Sent P)]).filter (fun x : Sent P => x.msg.isSrcptr = true ∧ ¬ s.Handled x) = _
  rw [List.filter_append]
  congr 1
  by_cases hm : m.isSrcptr = true
  · rw [if_pos hm]
    simp [hm, hnew]
  · rw [if_neg hm]
    simp [hm]

/-- `send_long`, whatever happens to the messages that are ready. -/
theorem Inv.sendLong (h : Inv M base size s) {p : P} {m : LongMessage} {hdr : ℕ × ℕ} {ids : MessageIds}
    {ready : List ((ℕ × ℕ) × ℕ)} (hcount : Countable M m) (huse : (s.ids p).use m.id = some ids)
    (hsize : m.isSrcptr = true → m.payloadSize = hdr.2)
    (howners : s.pool.owners.Perm (ready ++ (s.sendLong M p m hdr).unreleased.map Sent.owner)) :
    Inv M base size { s.sendLong M p m hdr with ids := Function.update s.ids p ids, ready := ready } := by
  refine ⟨h.pool, h.held, howners, ?_, ?_, ?_, ?_, h.receiver, h.releases⟩
  · intro x hx
    rcases List.mem_append.mp hx with hx | hx
    · exact h.sizes x hx
    · obtain rfl := List.mem_singleton.mp hx
      exact hsize
  · intro x hx
    rcases List.mem_append.mp hx with hx | hx
    · exact h.countable x hx
    · obtain rfl := List.mem_singleton.mp hx
      exact hcount
  · intro q
    show (Function.update s.ids p ids q).Inv (((s.sendLong M p m hdr).sentTo q).map LongMessage.id)
    rw [sentTo_sendLong, List.map_append]
    by_cases hpq : p = q
    · subst hpq
      rw [Function.update_self, if_pos rfl, List.map_singleton]
      exact (h.ids p).use huse
    · rw [if_neg hpq, Function.update_of_ne (Ne.symm hpq), List.map_nil, List.append_nil]
      exact h.ids q
  · intro q
    show (s.arrived q ++ Function.update s.flight p (s.flight p ++ Chunks.sendLong M m) q).Perm
      (((s.sendLong M p m hdr).sentTo q).flatMap (Chunks.sendLong M))
    rw [sentTo_sendLong, List.flatMap_append]
    by_cases hpq : p = q
    · subst hpq
      rw [Function.update_self, if_pos rfl, List.flatMap_singleton, ← List.append_assoc]
      exact (h.chunks p).append_right _
    · rw [Function.update_of_ne (Ne.symm hpq), if_neg hpq, List.flatMap_nil, List.append_nil]
      exact h.chunks q

theorem Inv.send (h : Inv M base size s) {p : P} {m : LongMessage} {hdr : ℕ × ℕ} (hcount : Countable M m)
    (hstep : step M s (.send p m hdr) = some s') : Inv M base size s' := by
  obtain ⟨ids, huse, hstep⟩ := Option.bind_eq_some_iff.mp hstep
  obtain ⟨⟨hready, hsize, hsrc⟩, hstep⟩ := Option.ite_none_right_eq_some.mp hstep
  cases hstep
  refine h.sendLong hcount huse (fun _ => hsize) ?_
  rw [unreleased_sendLong (h.not_handled_new huse), if_pos hsrc, List.map_append, List.map_singleton]
  -- the message moves from those that are ready to those that are sent
  refine h.owners.trans (((List.perm_cons_erase hready).append_right _).trans ?_)
  rw [← List.append_assoc]
  exact (List.perm_append_singleton _ _).symm

theorem Inv.sendOther (h : Inv M base size s) {p : P} {m : LongMessage} (hcount : Countable M m)
    (hstep : step M s (.sendOther p m) = some s') : Inv M base size s' := by
  obtain ⟨ids, huse, hstep⟩ := Option.bind_eq_some_iff.mp hstep
  obtain ⟨hsrc, hstep⟩ := Option.ite_none_right_eq_some.mp hstep
  cases hstep
  have hsrc' : ¬ m.isSrcptr = true := by
    rw [hsrc]
    exact Bool.false_ne_true
  refine h.sendLong hcount huse (fun htrue => absurd htrue hsrc') ?_
  rw [unreleased_sendLong (h.not_handled_new huse), if_neg hsrc', List.append_nil]
  exact h.owners

/-- One access to the counter of a peer. -/
theorem Inv.setIds (h : Inv M base size s) {p : P} {ids : MessageIds}
    (hids : ids.Inv ((s.sentTo p).map LongMessage.id)) :
    Inv M base size { s with ids := Function.update s.ids p ids } := by
  refine { h with ids := fun q => ?_ }
  by_cases hpq : q = p
  · subst hpq
    simp only [Function.update_self]
    exact hids
  · simp only [Function.update_of_ne hpq]
    exact h.ids q

theorem Inv.receive (h : Inv M base size s) {p : P} {c : Chunk} (hstep : step M s (.receive p c) = some s') :
    Inv M base size s' := by
  obtain ⟨hc, hstep⟩ := Option.ite_none_right_eq_some.mp hstep
  cases hstep
  refine { h with chunks := fun q => ?_, receiver := fun q => ?_, releases := fun q => ?_ }
  · refine List.Perm.trans ?_ (h.chunks q)
    by_cases hpq : q = p
    · subst hpq
      simp only [Function.update_self]
      rw [List.append_assoc, List.singleton_append]
      exact (List.perm_cons_erase hc).symm.append_left _
    · simp only [Function.update_of_ne hpq]
      exact .refl _
  · by_cases hpq : q = p
    · subst hpq
      simp only [Function.update_self]
      rw [receive_append_singleton, h.receiver q]
    · simp only [Function.update_of_ne hpq]
      exact h.receiver q
  · by_cases hpq : q = p
    · subst hpq
      simp only [Function.update_self]
      rw [handlerMedium_releases, List.drop_left, ← List.append_assoc]
      exact (h.releases q).append_right _
    · simp only [Function.update_of_ne hpq]
      exact h.releases q

theorem perm_reply {p : P} {w : Reply} (hw : w ∈ s.replies p) (q : P) :
    ((s.reply p w).handled q ++ (s.reply p w).replies q).Perm (s.handled q ++ s.replies q) := by
  unfold State.reply
  by_cases hpq : q = p
  · subst hpq
    simp only [Function.update_self]
    rw [List.append_assoc, List.singleton_append]
    exact (List.perm_cons_erase hw).symm.append_left _
  · simp only [Function.update_of_ne hpq]
    exact .refl _

omit [DecidableEq P] in
theorem payload_ne_zero {x : Sent P} (hx : x ∈ s.unreleased) : x.msg.payload ≠ 0 :=
  x.msg.srcptr_ne (of_decide_eq_true (List.mem_filter.mp hx).2).1

theorem Inv.mem_owners (h : Inv M base size s) {x : Sent P} (hx : x ∈ s.unreleased) : x.owner ∈ s.pool.owners :=
  h.owners.mem_iff.mpr (List.mem_append_right _ (List.mem_map_of_mem hx))

theorem Inv.nodup_pointers (h : Inv M base size s) :
    (s.ready.map Prod.snd ++ s.unreleased.map (fun x => x.owner.2)).Nodup := by
  have hnodup := (h.owners.map Prod.snd).nodup_iff.mp h.pool.distinct
  rwa [List.map_append, List.map_map] at hnodup

/-- The messages that still hold a span after the release `w` has come back. -/
theorem Inv.unreleased_release (h : Inv M base size s) {w : Reply} {x : Sent P} (hx : x ∈ s.unreleased)
    (hid : x.msg.id = w.1) (hsent : s'.sent = s.sent)
    (hhandled' : s'.handled = Function.update s.handled x.peer (s.handled x.peer ++ [w])) :
    s'.unreleased = s.unreleased.filter (fun y => y.owner.2 ≠ x.owner.2) := by
  unfold State.unreleased
  rw [hsent, List.filter_filter]
  refine List.filter_congr fun y hy => ?_
  rw [Bool.eq_iff_iff, Bool.and_eq_true, decide_eq_true_eq, decide_eq_true_eq, decide_eq_true_eq]
  have hhandled : s'.Handled y ↔ s.Handled y ∨ (y.peer = x.peer ∧ y.msg.id = x.msg.id) := by
    unfold State.Handled
    rw [hhandled']
    by_cases hpeer : y.peer = x.peer
    · rw [hpeer, Function.update_self, List.map_append, List.mem_append, List.map_singleton, List.mem_singleton, hid]
      simp only [true_and]
    · rw [Function.update_of_ne hpeer]
      simp only [hpeer, false_and, or_false]
  -- among those that hold a span, the pointer tells the message
  have hsame : y.msg.isSrcptr = true → ¬ s.Handled y →
      ((y.peer = x.peer ∧ y.msg.id = x.msg.id) ↔ y.owner.2 = x.owner.2) := by
    intro hsrc hnot
    have hy' : y ∈ s.unreleased := List.mem_filter.mpr ⟨hy, decide_eq_true ⟨hsrc, hnot⟩⟩
    constructor
    · rintro ⟨hpeer, hyid⟩
      unfold Sent.owner
      rw [h.msg_unique hy (List.mem_filter.mp hx).1 hpeer hyid]
    · intro heq
      obtain rfl := List.inj_on_of_nodup_map h.nodup_pointers.of_append_right hy' hx heq
      exact ⟨rfl, rfl⟩
  rw [hhandled, not_or]
  constructor
  · rintro ⟨hsrc, hnot, hne⟩
    exact ⟨fun heq => hne ((hsame hsrc hnot).mpr heq), hsrc, hnot⟩
  · rintro ⟨hne, hsrc, hnot⟩
    exact ⟨hsrc, hnot, fun hboth => hne ((hsame hsrc hnot).mp hboth)⟩

/-- **`release_srcptr_handler`**: the message of the reply gives up its span, and nobody else. -/
theorem Inv.release (h : Inv M base size s) (hbase : 0 < base) (hM : 1 ≤ M) (hM' : M < 2 ^ 64) {p : P} {w : Reply}
    (hstep : step M s (.release p w) = some s') : Inv M base size s' := by
  obtain ⟨hw, hstep⟩ := Option.ite_none_right_eq_some.mp hstep
  obtain ⟨x, hx, rfl, hid, hptr⟩ := h.reply hM hM' hw
  rw [if_neg (hptr ▸ payload_ne_zero hx)] at hstep
  obtain ⟨⟨q, satisfied⟩, hrelease, hstep⟩ := Option.bind_eq_some_iff.mp hstep
  obtain ⟨pool, hpool, hstep⟩ := Option.bind_eq_some_iff.mp hstep
  obtain rfl := Option.some.inj hstep
  have ho := h.mem_owners hx
  have hptr' : w.srcptr.toNat = x.owner.2 := by
    rw [hptr]
    rfl
  rw [hptr'] at hrelease hpool
  obtain ⟨hinv, howners, -⟩ := Copy.release_spec h.pool hbase ho hrelease hpool
  refine { h with
    pool := hinv
    held := h.held.release h.pool hbase ho hpool
    owners := ?_
    releases := fun q => ?_ }
  · rw [h.unreleased_release hx hid ?_ ?_]
    rotate_left
    · rfl
    · rfl
    show pool.owners.Perm ((s.ready ++ satisfied) ++ _)
    rw [howners]
    refine ((h.owners.filter _).append_right _).trans ?_
    have hready : s.ready.filter (fun o => o.2 ≠ x.owner.2) = s.ready := by
      refine List.filter_eq_self.mpr fun o hmem => decide_eq_true fun heq => ?_
      have hdisj := List.disjoint_of_nodup_append h.nodup_pointers
      exact hdisj (List.mem_map_of_mem hmem) (heq ▸ List.mem_map_of_mem hx)
    rw [List.filter_append, hready, List.filter_map, List.append_assoc, List.append_assoc]
    exact List.perm_append_comm.append_left _
  · exact (perm_reply hw q).trans (h.releases q)

theorem Inv.step (h : Inv M base size s) (hbase : 0 < base) (hM : 1 ≤ M) (hM' : M < 2 ^ 64) {e : Event P}
    (hproper : Proper M s e) (hstep : step M s e = some s') : Inv M base size s' := by
  cases e with
  | reserve hdr => exact h.reserve hbase hproper hstep
  | loadId p =>
    cases hstep
    exact h.setIds ((h.ids p).load hproper)
  | storeId p v =>
    obtain ⟨ids, hstore, hstep⟩ := Option.bind_eq_some_iff.mp hstep
    cases hstep
    exact h.setIds ((h.ids p).store hstore)
  | send p m hdr => exact h.send hproper hstep
  | sendOther p m => exact h.sendOther hproper hstep
  | receive p c => exact h.receive hstep
  | release p w => exact h.release hbase hM hM' hstep

end Steps

/-! ## Every interleaving -/

/-- A part that is counted lies within. -/
theorem within_of_countP {cs : List Chunk} {lo : Chunk → ℕ} {b n : ℕ}
    (hcount : ∀ a, cs.countP (fun c => lo c ≤ a ∧ a < lo c + c.size) = if b ≤ a ∧ a < b + n then 1 else 0) {c : Chunk}
    (hc : c ∈ cs) (hsize : 1 ≤ c.size) : b ≤ lo c ∧ lo c + c.size ≤ b + n := by
  have hin : ∀ a, lo c ≤ a → a < lo c + c.size → b ≤ a ∧ a < b + n := by
    intro a hle hlt
    by_contra hout
    have hzero := hcount a
    rw [if_neg hout, List.countP_eq_zero] at hzero
    exact hzero c hc (decide_eq_true ⟨hle, hlt⟩)
  have hfirst := hin (lo c) (le_refl _) (by omega)
  have hlast := hin (lo c + c.size - 1) (by omega) (by omega)
  omega

/-- A chunk is read from the span of its message. -/
theorem src_of_mem_sendLong {M : ℕ} {m : LongMessage} {c : Chunk} (hM : 1 ≤ M) (hcount : Countable M m)
    (hc : c ∈ Chunks.sendLong M m) :
    m.payload.toNat ≤ c.src ∧ c.src + c.size ≤ m.payload.toNat + m.payloadSize := by
  have hcovers := covers_of_countable hM hcount
  exact within_of_countP hcovers.src hc (hcovers.size c hc).1

/-- What the pool, the sender and the peers can rely on.  `reply`: a release finds its pointer in use; `once`: no
message is released twice; `flight`: the span of a message is not given away as long as one of its chunks is under way;
`back`: when nothing is under way, only messages that were not sent hold spans, and if there are none nobody waits. -/
structure Sound (maxLongReq base size : ℕ) (s : State P) : Prop where
  partition : s.pool.Partition Prod.snd base size
  reply : ∀ p, ∀ w ∈ s.replies p, (∃ x ∈ s.unreleased, x.peer = p ∧ x.msg.id = w.1 ∧ w.srcptr = x.msg.payload) ∧
    (step maxLongReq s (.release p w)).isSome
  once : ∀ p, ((s.handled p).map Prod.fst).Nodup
  flight : ∀ p, ∀ c ∈ s.flight p, ∃ x ∈ s.sent, x.peer = p ∧ c ∈ Chunks.sendLong maxLongReq x.msg ∧
    (x.msg.isSrcptr = true → x ∈ s.unreleased ∧ ∃ z, (x.msg.payload.toNat, z) ∈ s.pool.pool.inUse ∧
      x.msg.payload.toNat ≤ c.src ∧ c.src + c.size ≤ x.msg.payload.toNat + z)
  back : (∀ p, s.flight p = [] ∧ s.replies p = []) → s.pool.owners.Perm s.ready ∧
    (s.ready = [] → s.pool.pool.inUse.entries = [] ∧ s.pool.pool.pendingAllocations = [])

section Sound

variable {M base size : ℕ} {s : State P}

theorem Inv.isSome_release (h : Inv M base size s) (hbase : 0 < base) (hM : 1 ≤ M) (hM' : M < 2 ^ 64) {p : P}
    {w : Reply} (hw : w ∈ s.replies p) : (SrcRelease.step M s (.release p w)).isSome := by
  obtain ⟨x, hx, rfl, -, hptr⟩ := h.reply hM hM' hw
  obtain ⟨z, hz, -⟩ := h.pool.owned _ (h.mem_owners hx)
  have hallowed : s.pool.Allowed Prod.snd (.release w.srcptr.toNat) := by
    rw [hptr]
    exact ⟨z, hz⟩
  obtain ⟨t, ht, -⟩ := h.pool.step hbase hallowed
  obtain ⟨r, hr, -⟩ := Option.bind_eq_some_iff.mp ht
  rw [SrcRelease.step, if_pos hw, if_neg (hptr ▸ payload_ne_zero hx), hr, Option.bind_eq_bind, Option.bind_some, ht]
  rfl

/-- When no chunk and no reply of its peer is under way, a message has given up its span. -/
theorem Inv.handled_of_quiet (h : Inv M base size s) (hM : 1 ≤ M) (hM' : M < 2 ^ 64) {x : Sent P} (hx : x ∈ s.sent)
    (hsrc : x.msg.isSrcptr = true) (hflight : s.flight x.peer = []) (hreplies : s.replies x.peer = []) :
    s.Handled x := by
  have hlen := (h.seen_add hx).length_eq
  rw [hflight, List.filter_nil, List.append_nil] at hlen
  have hfilter := h.releases_filter hM hM' hx
  rw [if_pos ⟨hsrc, hlen⟩] at hfilter
  have hperm := h.releases x.peer
  rw [hreplies, List.append_nil] at hperm
  have hmem := List.mem_singleton_self (x.msg.id, x.msg.payload.setWidth 32, (x.msg.payload >>> 32).setWidth 32)
  rw [← hfilter] at hmem
  exact List.mem_map_of_mem (hperm.mem_iff.mpr (List.mem_filter.mp hmem).1)

theorem Inv.sound (h : Inv M base size s) (hbase : 0 < base) (hM : 1 ≤ M) (hM' : M < 2 ^ 64) : Sound M base size s where
  partition := h.pool.partition
  reply p w hw := ⟨h.reply hM hM' hw, h.isSome_release hbase hM hM' hw⟩
  once p := by
    have hnodup := h.nodup_releases hM hM' p
    rw [List.map_append] at hnodup
    exact hnodup.of_append_left
  flight p c hc := by
    obtain ⟨x, hx, rfl, hcx⟩ := h.exists_sent (List.mem_append_right _ hc)
    refine ⟨x, hx, rfl, hcx, fun hsrc => ?_⟩
    have hmem : x ∈ s.unreleased :=
      List.mem_filter.mpr ⟨hx, decide_eq_true ⟨hsrc, h.of_flight hM hM' hx hc hcx⟩⟩
    obtain ⟨z, hz, hle⟩ := h.pool.owned _ (h.mem_owners hmem)
    have hspan := src_of_mem_sendLong hM (h.countable x hx) hcx
    have hsize : x.msg.payloadSize ≤ z := (h.sizes x hx hsrc).trans_le hle
    exact ⟨hmem, z, hz, hspan.1, by omega⟩
  back hquiet := by
    have hnone : s.unreleased = [] := by
      refine List.filter_eq_nil_iff.mpr fun x hx hx' => ?_
      obtain ⟨hsrc, hnot⟩ := of_decide_eq_true hx'
      exact hnot (h.handled_of_quiet hM hM' hx hsrc (hquiet x.peer).1 (hquiet x.peer).2)
    have howners := h.owners
    rw [hnone, List.map_nil, List.append_nil] at howners
    refine ⟨howners, fun hready => ?_⟩
    rw [hready] at howners
    have hinUse : s.pool.pool.inUse.entries = [] := by
      refine List.eq_nil_iff_forall_not_mem.mpr fun x hx => ?_
      obtain ⟨o, ho, -⟩ := h.held x hx
      rw [howners.eq_nil] at ho
      exact absurd ho List.not_mem_nil
    refine ⟨hinUse, ?_⟩
    by_contra hpending
    exact h.pool.waiting hpending hinUse

end Sound

/-- **Spans come back exactly once**, from any number of peers and in every order of chunks and replies. -/
theorem srcRelease_of_run {M base size : ℕ} (hM : 1 ≤ M) (hM' : M < 2 ^ 64) (hbase : 0 < base) (hbase64 : 64 ∣ base)
    (hsize : 0 < size) (hsize64 : 64 ∣ size) (es : List (Event P)) (s : State P)
    (hproper : Guarded (step M) (Proper M) (State.init base size) es)
    (hrun : run (step M) (State.init base size) es = some s) : Sound M base size s := by
  have hinv : Inv M base size s :=
    run_inv_guarded (fun _ _ _ h hp hs => h.step hbase hM hM' hp hs) (Inv.init hsize hbase64 hsize64) hproper hrun
  exact hinv.sound hbase hM hM'

/-- 64 bytes at address 64, the whole pool. -/
def wholePool : LongMessage := ⟨0, 64, 64, 0, true, by decide, by decide, by decide, by decide, by decide⟩

/-- The second message waits for the span of the first, whose chunks arrive in the wrong order. -/
def twoChunks : List (Event Unit) :=
  [.reserve (0, 64), .reserve (1, 64), .loadId (), .storeId () 0, .send () wholePool (0, 64),
    .receive () ⟨64, 32, 0, 0, 2, 64, 0⟩, .receive () ⟨96, 32, 32, 0, 2, 64, 0⟩, .release () (0, 64, 0)]

theorem srcRelease_of_run_two : ∃ s, run (step 32) (State.init 64 64) twoChunks = some s ∧
    s.ready = [((1, 64), 64)] ∧ Sound 32 64 64 s := by
  have hready : (run (step 32) (State.init 64 64) twoChunks).map State.ready = some [((1, 64), 64)] := by
    decide +kernel
  obtain ⟨s, hrun, hs⟩ := Option.map_eq_some_iff.mp hready
  refine ⟨s, hrun, hs, srcRelease_of_run (by decide) (by decide) (by decide) (by decide) (by decide) (by decide)
    twoChunks s ?_ hrun⟩
  refine guarded_cons rfl (by decide : 0 < 64) (guarded_cons rfl (by decide : 0 < 64) ?_)
  refine guarded_cons rfl ⟨rfl, le_refl _⟩ ⟨trivial, fun _ _ => ⟨⟨by decide, by decide⟩, fun _ _ => ?_⟩⟩
  exact ⟨trivial, fun _ _ => ⟨trivial, fun _ _ => ⟨trivial, fun _ _ => trivial⟩⟩⟩

end Realm.SrcRelease

import Realm.Endpoint.Lmb
import Realm.Endpoint.SrcRelease

/-!
# Realm.Endpoint.LongDelivery — long messages through the buffers of a link, from the push to the handler

`push_messages` finds room for a payload in an LMB (`Lmb`), `send_long` cuts it into requests (`Chunks`), each of which
writes its bytes at the peer before its handler runs, and the handler of the message reads the LMB until
`handle_long_msgptr` gives its room back.  The messages have their id in the first two words (`Layout`).

* `Regular`: the segments of both nodes have one size, and the LMBs fit.
* `step`: these together, in any order that the threads and the network allow; the ids are taken as in `MessageIds`.
* `pairwise_apart`: payloads that have not been counted have room of their own.
* `Inv`: what the chunks that have arrived have written is still there; `Inv.step`.
* `longDelivery_of_run`: every message is handed on once, as it was sent, and stays as it was sent while it is handled.
-/

namespace Realm.LongDelivery

open Lib Chunks Lmb

abbrev Byte := BitVec 8

/-! ## The system -/

/-- Both segments have one size and room for the LMBs, so that the receiver has the buffers where the sender has
them. -/
structure Regular (L : Link) : Prop extends L.Fits where
  same_size : (L.segmentInfo L.src).size = (L.segmentInfo L.dst).size

/-- A message that was sent, with its bytes. -/
structure Content where
  msg : LongMessage
  bytes : List Byte
  length_eq : bytes.length = msg.payloadSize

/-- `slots` has the payloads of `sys.outstanding`, each with its message as soon as that is sent.  `mem` is the memory
of the receiving node.  `sent` and `arrived` are history. -/
structure State where
  sys : Sys
  slots : List (Payload × Option Content)
  ids : MessageIds
  flight : List Chunk
  receiver : Receiver
  mem : ℕ → Byte
  sent : List Content
  arrived : List Chunk

def State.init (mem : ℕ → Byte) : State := ⟨.init, [], .init, [], .init, mem, [], []⟩

inductive Act
  | push
  | loadId
  | storeId (v : ℤ)
  | sendPayload (i : ℕ) (x : Content)
  | sendOther (x : Content)
  | arrive (c : Chunk)
  | consume (i : ℕ)
  | longMsgptr (i : ℕ)
  | flow (e : Event)
  | write (a : ℕ) (b : Byte)

/-- The bytes from `lo` to `hi` are in none of the LMBs. -/
def Outside (L : Link) (lo hi : ℕ) : Prop := ∀ b < L.numLmbs, hi ≤ L.base b ∨ L.base b + L.lmbSize ≤ lo

instance (L : Link) (lo hi : ℕ) : Decidable (Outside L lo hi) := Nat.decidableBallLT _ _

/-- `send_long`, when it has its id. -/
def State.sendLong (maxLongReq : ℕ) (s : State) (x : Content) : State :=
  { s with
    flight := s.flight ++ Chunks.sendLong maxLongReq x.msg
    sent := s.sent ++ [x] }

/-- What a request writes. -/
def store (mem : ℕ → Byte) (x : Content) (c : Chunk) (a : ℕ) : Byte :=
  if c.dest ≤ a ∧ a < c.dest + c.size then x.bytes.getD (a - x.msg.dest) (mem a) else mem a

def step (L : Link) (maxLongReq : ℕ) (s : State) : Act → Option State
  | .push => do
    let sys ← Lmb.step L s.sys .push
    return { s with sys := sys, slots := s.slots ++ (sys.outstanding.drop s.slots.length).map (·, none) }
  | .loadId => some { s with ids := s.ids.load }
  | .storeId v => do
    let ids ← s.ids.store v
    return { s with ids := ids }
  | .sendPayload i x => do
    let sys ← Lmb.step L s.sys (.sendPayload i)
    let p ← sys.outstanding[i]?
    let ids ← s.ids.use x.msg.id
    if x.msg.dest = p.ptr ∧ x.msg.payloadSize = p.size then
      return { s.sendLong maxLongReq x with sys := sys, slots := s.slots.set i (p, some x), ids := ids }
    else none
  -- a message for registered memory
  | .sendOther x => do
    let ids ← s.ids.use x.msg.id
    if Outside L x.msg.dest (x.msg.dest + x.msg.payloadSize) then
      return { s.sendLong maxLongReq x with ids := ids }
    else none
  -- the data of a request is there before `handler_medium` runs
  | .arrive c => do
    let x ← s.sent.find? fun x => x.msg.id = c.id
    if c ∈ s.flight then
      return { s with
        mem := store s.mem x c
        flight := s.flight.erase c
        receiver := handlerMedium s.receiver c
        arrived := s.arrived ++ [c] }
    else none
  -- the handler of a message that was handed on
  | .consume i => do
    let (_, x) ← s.slots[i]?
    let x ← x
    if x.msg.id ∈ s.receiver.delivered.map Delivery.id then
      let sys ← Lmb.step L s.sys (.consume i)
      let p ← sys.outstanding[i]?
      return { s with sys := sys, slots := s.slots.set i (p, some x) }
    else none
  | .longMsgptr i => do
    let sys ← Lmb.step L s.sys (.longMsgptr i)
    return { s with sys := sys, slots := s.slots.eraseIdx i }
  | .flow e =>
    if Quiet e then do
      let sys ← Lmb.step L s.sys e
      return { s with sys := sys }
    else none
  | .write a b => if Outside L a (a + 1) then some { s with mem := Function.update s.mem a b } else none

/-- Payloads fit into `2 ^ 31` chunks, at most `2 ^ 31` messages are sent, and no two pushers are in the increment of
the id together, so that the ids differ. -/
def Proper (maxLongReq : ℕ) (s : State) : Act → Prop
  | .sendPayload _ x | .sendOther x => Countable maxLongReq x.msg
  | .loadId => s.ids.Alone
  | _ => True

/-! ## Payloads have room of their own -/

/-- Two payloads of one buffer do not overlap. -/
def Apart (p q : Slot) : Prop := p.buffer = q.buffer → p.offset + p.size ≤ q.offset ∨ q.offset + q.size ≤ p.offset

theorem Apart.symm {p q : Slot} (h : Apart p q) : Apart q p := fun heq => (h heq.symm).symm

/-- **One step of the flow control** keeps payloads apart. -/
theorem pairwise_apart {numLmbs lmbSize : ℕ} {f g : Flow} (hf : f.Inv numLmbs lmbSize)
    (hstep : FlowStep numLmbs lmbSize f g) (h : f.slots.Pairwise Apart) : g.slots.Pairwise Apart := by
  have hsafe := (hf.safe hstep).1
  cases hstep with
  | stutter => exact h
  | @place n ha h0 hfit =>
    obtain ⟨-, -, habove⟩ := hsafe _ rfl
    refine List.pairwise_append.mpr ⟨h, List.pairwise_singleton _ _, fun q hq p hp hbuf => ?_⟩
    obtain rfl := List.mem_singleton.mp hp
    exact .inl (habove q hq hbuf)
  | flip ha => exact h
  | flipRequest hflips => exact h
  | @msgptr A B p hslots =>
    rw [hslots] at h
    exact h.sublist ((List.sublist_cons_self p B).append_left A)
  | ack hack => exact h

section Regular

variable {L : Link} {i j o o' : ℕ}

/-- The buffers lie one below the other. -/
theorem Regular.base_add_le (h : Regular L) (hij : i < j) (hj : j < L.numLmbs) : L.base j + L.lmbSize ≤ L.base i := by
  have hdiff := h.base_sub_base (hij.trans hj) hj
  have hmul : (L.lmbSize : ℤ) * 1 ≤ L.lmbSize * (j - i) :=
    mul_le_mul_of_nonneg_left (by omega) (Int.natCast_nonneg _)
  omega

theorem Regular.findsOwn (h : Regular L) : L.FindsOwn := by
  rw [findsOwn_iff h.toFits, h.same_size]
  exact .inr (.inl ⟨le_rfl, by omega⟩)

/-- A payload is found where it was placed. -/
theorem Regular.rBuffer_ptr (h : Regular L) (hi : i < L.numLmbs) (ho : o < L.lmbSize) :
    Endpoint.rBuffer L.rcvConfig (L.ptr i o) = some i := by
  rw [h.rBuffer_ptr_iff hi ho, h.same_size, sub_self, sub_self, mul_zero]
  omega

end Regular

/-! ## The invariant -/

/-- `placed`: a message that was sent has its slot; `home`: as long as a chunk is under way; `written`: the chunks that
have arrived. -/
structure Inv (L : Link) (maxLongReq : ℕ) (s : State) : Prop where
  sys : s.sys.Inv L
  slots : s.sys.outstanding = s.slots.map Prod.fst
  apart : s.sys.flow.slots.Pairwise Apart
  ids : s.ids.Inv (s.sent.map (·.msg.id))
  countable : ∀ x ∈ s.sent, Countable maxLongReq x.msg
  chunks : (s.arrived ++ s.flight).Perm ((s.sent.map Content.msg).flatMap (Chunks.sendLong maxLongReq))
  receiver : s.receiver = receive s.arrived
  placed : ∀ q ∈ s.slots, ∀ x, q.2 = some x → x ∈ s.sent ∧ x.msg.dest = q.1.ptr ∧ x.msg.payloadSize = q.1.size
  home : ∀ c ∈ s.flight, ∀ x ∈ s.sent, x.msg.id = c.id →
    (∃ q ∈ s.slots, q.2 = some x ∧ q.1.status = .sent) ∨ Outside L x.msg.dest (x.msg.dest + x.msg.payloadSize)
  written : ∀ q ∈ s.slots, ∀ x, q.2 = some x → ∀ c ∈ s.arrived, c.id = x.msg.id → ∀ a, c.dest ≤ a →
    a < c.dest + c.size → x.bytes[a - x.msg.dest]? = some (s.mem a)

section Messages

variable {L : Link} {M : ℕ} {s : State}

theorem Inv.nodup (h : Inv L M s) : ((s.sent.map Content.msg).map LongMessage.id).Nodup := by
  rw [List.map_map]
  exact h.ids.nodup_used

/-- A message is known by its id. -/
theorem Inv.content_unique (h : Inv L M s) {x y : Content} (hx : x ∈ s.sent) (hy : y ∈ s.sent)
    (hid : x.msg.id = y.msg.id) : x = y := by
  have hnodup := h.nodup
  rw [List.map_map] at hnodup
  exact List.inj_on_of_nodup_map hnodup hx hy hid

/-- The messages, for `Chunks`. -/
def Inv.traffic (h : Inv L M s) (hM : 1 ≤ M) (hM' : M < 2 ^ 64) : Traffic :=
  ⟨M, s.sent.map Content.msg, hM, hM', h.nodup⟩

/-- The chunks of a message, here and there. -/
theorem Inv.chunks_filter (h : Inv L M s) {x : Content} (hx : x ∈ s.sent) :
    (s.arrived.filter (fun c => c.id = x.msg.id) ++ s.flight.filter (fun c => c.id = x.msg.id)).Perm
      (Chunks.sendLong M x.msg) := by
  have hp := h.chunks.filter (fun c => decide (c.id = x.msg.id))
  rw [List.filter_append, filter_flatMap_sendLong h.nodup (List.mem_map_of_mem hx)] at hp
  exact hp

/-- A message is handed on when its last chunk has arrived. -/
theorem Inv.delivered_filter (h : Inv L M s) (hM : 1 ≤ M) (hM' : M < 2 ^ 64) {x : Content} (hx : x ∈ s.sent) :
    s.receiver.delivered.filter (fun d => d.id = x.msg.id) =
      if s.flight.filter (fun c => c.id = x.msg.id) = [] then [⟨x.msg.id, x.msg.dest, x.msg.payloadSize⟩] else [] := by
  obtain ⟨k, hk, h31⟩ := (h.countable x hx).lastChunk hM
  have hm : x.msg ∈ (h.traffic hM hM').messages := List.mem_map_of_mem hx
  have hprogress := progress_of_perm hm hk h31 s.arrived s.flight h.chunks
  have hlen := (h.chunks_filter hx).length_eq
  rw [List.length_append, sendLong_eq hk h31, List.length_map, List.length_reverse, List.length_range] at hlen
  rw [h.receiver, hprogress.delivered]
  refine if_congr ?_ rfl rfl
  rw [← List.length_eq_zero_iff]
  omega

theorem Inv.no_flight (h : Inv L M s) (hM : 1 ≤ M) (hM' : M < 2 ^ 64) {x : Content} (hx : x ∈ s.sent)
    (hdel : x.msg.id ∈ s.receiver.delivered.map Delivery.id) : s.flight.filter (fun c => c.id = x.msg.id) = [] := by
  by_contra hne
  have hfilter := h.delivered_filter hM hM' hx
  rw [if_neg hne] at hfilter
  obtain ⟨d, hd, hid⟩ := List.mem_map.mp hdel
  have hmem : d ∈ s.receiver.delivered.filter (fun d => d.id = x.msg.id) :=
    List.mem_filter.mpr ⟨hd, decide_eq_true hid⟩
  rw [hfilter] at hmem
  cases hmem

theorem Inv.exists_sent (h : Inv L M s) {c : Chunk} (hc : c ∈ s.arrived ++ s.flight) :
    ∃ x ∈ s.sent, c ∈ Chunks.sendLong M x.msg := by
  obtain ⟨m, hm, hcm⟩ := List.mem_flatMap.mp (h.chunks.mem_iff.mp hc)
  obtain ⟨x, hx, rfl⟩ := List.mem_map.mp hm
  exact ⟨x, hx, hcm⟩

/-- A payload lies in its LMB. -/
theorem Inv.inside (h : Inv L M s) (hL : Regular L) {q : Payload × Option Content} (hq : q ∈ s.slots) :
    q.1.buffer < L.numLmbs ∧ q.1.offset + q.1.size ≤ L.lmbSize ∧ q.1.offset < L.lmbSize ∧
      q.1.ptr = L.base q.1.buffer + q.1.offset := by
  have hmem : q.1 ∈ s.sys.outstanding := by
    rw [h.slots]
    exact List.mem_map_of_mem hq
  obtain ⟨hb, h0, -, hle⟩ := h.sys.flow.inside q.1.toSlot (List.mem_map_of_mem hmem)
  refine ⟨hb, hle, by omega, ?_⟩
  rw [h.sys.ptrs _ hmem, hL.ptr_eq hb (by omega)]

theorem Inv.apart_of_ne (h : Inv L M s) (hL : Regular L) {q q' : Payload × Option Content} (hq : q ∈ s.slots)
    (hq' : q' ∈ s.slots) (hne : q ≠ q') : q.1.ptr + q.1.size ≤ q'.1.ptr ∨ q'.1.ptr + q'.1.size ≤ q.1.ptr := by
  have hpair : s.slots.Pairwise fun q q' => Apart q.1.toSlot q'.1.toSlot := by
    have hflow := h.apart
    change (s.sys.outstanding.map Payload.toSlot).Pairwise Apart at hflow
    rw [h.slots, List.map_map, List.pairwise_map] at hflow
    exact hflow
  have hsymm : Std.Symm fun q q' : Payload × Option Content => Apart q.1.toSlot q'.1.toSlot := ⟨fun _ _ => Apart.symm⟩
  have hapart := hpair.forall hq hq' hne
  obtain ⟨hb, hle, -, hptr⟩ := h.inside hL hq
  obtain ⟨hb', hle', -, hptr'⟩ := h.inside hL hq'
  rcases Nat.lt_trichotomy q.1.buffer q'.1.buffer with hlt | heq | hgt
  · have hbase := hL.base_add_le hlt hb'
    omega
  · rw [heq] at hptr
    have hoffsets := hapart heq
    omega
  · have hbase := hL.base_add_le hgt hb
    omega

/-- A chunk is written into the room of its message. -/
theorem dest_of_mem_sendLong {m : LongMessage} {c : Chunk} (hM : 1 ≤ M) (hcount : Countable M m)
    (hc : c ∈ Chunks.sendLong M m) : m.dest ≤ c.dest ∧ c.dest + c.size ≤ m.dest + m.payloadSize := by
  have hcovers := covers_of_countable hM hcount
  exact SrcRelease.within_of_countP hcovers.dest hc (hcovers.size c hc).1

/-- Nobody else has a byte in a payload that a chunk under way is for. -/
theorem Inv.eq_of_flight (h : Inv L M s) (hL : Regular L) (hM : 1 ≤ M) {c : Chunk} (hc : c ∈ s.flight)
    {x y : Content} (hx : x ∈ s.sent) (hcx : c ∈ Chunks.sendLong M x.msg) {q : Payload × Option Content}
    (hq : q ∈ s.slots) (hqy : q.2 = some y) {a : ℕ}
    (hlo : c.dest ≤ a) (hhi : a < c.dest + c.size) (hylo : y.msg.dest ≤ a) (hyhi : a < y.msg.dest + y.msg.payloadSize) :
    y = x := by
  have hin := dest_of_mem_sendLong hM (h.countable x hx) hcx
  obtain ⟨-, hdest, hsize⟩ := h.placed q hq y hqy
  rcases h.home c hc x hx (id_of_mem_sendLong hcx).symm with ⟨q', hq', hq'x, -⟩ | hout
  · by_contra hne
    have hne' : q ≠ q' := by
      rintro rfl
      exact hne (Option.some.inj (hqy.symm.trans hq'x))
    obtain ⟨-, hdest', hsize'⟩ := h.placed q' hq' x hq'x
    rcases h.apart_of_ne hL hq hq' hne' with hapart | hapart
    · omega
    · omega
  · obtain ⟨hb, hble, -, hbptr⟩ := h.inside hL hq
    rcases hout _ hb with hout | hout
    · omega
    · omega

end Messages

/-! ## Steps -/

section Steps

variable {L : Link} {M : ℕ} {s s' : State}

theorem Inv.flow (h : Inv L M s) (hL : Regular L) (hlmb : L.lmbSize < 2 ^ 39) {e : Event} {sys : Sys}
    (hstep : Lmb.step L s.sys e = some sys) : sys.Inv L ∧ sys.flow.slots.Pairwise Apart :=
  ⟨h.sys.step hlmb hL.findsOwn hstep, pairwise_apart h.sys.flow (step_flow h.sys hL.findsOwn hstep).1 h.apart⟩

theorem Inv.push (h : Inv L M s) (hL : Regular L) (hlmb : L.lmbSize < 2 ^ 39)
    (hstep : step L M s .push = some s') : Inv L M s' := by
  obtain ⟨sys, hsys, heq⟩ := Option.bind_eq_some_iff.mp hstep
  obtain rfl := Option.some.inj heq
  obtain ⟨hinv, hapart⟩ := h.flow hL hlmb hsys
  obtain ⟨-, -, new, hnew, -⟩ := push_flow hsys
  have hdrop : sys.outstanding.drop s.slots.length = new := by
    have hlen : s.slots.length = (s.slots.map Prod.fst).length := (List.length_map _).symm
    rw [hnew, h.slots, hlen, List.drop_left]
  have hold : ∀ q ∈ s.slots ++ new.map (·, (none : Option Content)), ∀ x, q.2 = some x → q ∈ s.slots := by
    intro q hq x hx
    rcases List.mem_append.mp hq with hq | hq
    · exact hq
    · obtain ⟨p, -, rfl⟩ := List.mem_map.mp hq
      cases hx
  refine { h with sys := hinv, apart := hapart, slots := ?_, placed := ?_, home := ?_, written := ?_ }
  · dsimp only
    rw [hdrop, hnew, h.slots, List.map_append, List.map_map]
    congr 1
    exact (List.map_id _).symm
  · dsimp only
    rw [hdrop]
    exact fun q hq x hx => h.placed q (hold q hq x hx) x hx
  · intro c hc x hx hid
    refine (h.home c hc x hx hid).imp_left ?_
    rintro ⟨q, hq, hqx⟩
    exact ⟨q, List.mem_append_left _ hq, hqx⟩
  · dsimp only
    rw [hdrop]
    exact fun q hq x hx => h.written q (hold q hq x hx) x hx

/-- The id of the next message is new. -/
theorem Inv.fresh (h : Inv L M s) {x : Content} {ids : MessageIds} (huse : s.ids.use x.msg.id = some ids) :
    ∀ y ∈ s.sent, y.msg.id ≠ x.msg.id := by
  intro y hy heq
  exact h.ids.not_mem_of_use huse (heq ▸ List.mem_map_of_mem (f := fun z : Content => z.msg.id) hy)

/-- A new message: `slots` are the payloads afterwards. -/
theorem Inv.sendLong (h : Inv L M s) {x : Content} {sys : Sys} {slots : List (Payload × Option Content)}
    {ids : MessageIds} (hcount : Countable M x.msg) (huse : s.ids.use x.msg.id = some ids) (hsys : sys.Inv L)
    (hapart : sys.flow.slots.Pairwise Apart)
    (hslots : sys.outstanding = slots.map Prod.fst)
    (hold : ∀ q ∈ slots, ∀ y, q.2 = some y →
      q ∈ s.slots ∨ y = x ∧ x.msg.dest = q.1.ptr ∧ x.msg.payloadSize = q.1.size)
    (hkeep : ∀ q ∈ s.slots, ∀ y, q.2 = some y → q.1.status = .sent → q ∈ slots)
    (hhome : (∃ q ∈ slots, q.2 = some x ∧ q.1.status = .sent) ∨
      Outside L x.msg.dest (x.msg.dest + x.msg.payloadSize)) :
    Inv L M { s.sendLong M x with sys := sys, slots := slots, ids := ids } := by
  have hfresh := h.fresh huse
  constructor
  case sys => exact hsys
  case slots => exact hslots
  case apart => exact hapart
  case receiver => exact h.receiver
  case ids =>
    change ids.Inv ((s.sent ++ [x]).map (·.msg.id))
    rw [List.map_append, List.map_singleton]
    exact h.ids.use huse
  case countable =>
    intro y hy
    rcases List.mem_append.mp hy with hy | hy
    · exact h.countable y hy
    · rw [List.mem_singleton.mp hy]
      exact hcount
  case chunks =>
    change (s.arrived ++ (s.flight ++ Chunks.sendLong M x.msg)).Perm
      (((s.sent ++ [x]).map Content.msg).flatMap (Chunks.sendLong M))
    rw [List.map_append, List.flatMap_append, ← List.append_assoc, List.map_singleton, List.flatMap_singleton]
    exact h.chunks.append_right _
  case placed =>
    intro q hq y hy
    rcases hold q hq y hy with hq' | ⟨rfl, hdest, hsize⟩
    · obtain ⟨hmem, hdest, hsize⟩ := h.placed q hq' y hy
      exact ⟨List.mem_append_left _ hmem, hdest, hsize⟩
    · exact ⟨List.mem_append_right _ (List.mem_singleton_self _), hdest, hsize⟩
  case home =>
    intro c hc y hy hyid
    rcases List.mem_append.mp hc with hc | hc
    · -- a chunk that was under way before is not one of `x`
      obtain ⟨z, hz, hcz⟩ := h.exists_sent (List.mem_append_right _ hc)
      rcases List.mem_append.mp hy with hy | hy
      · refine (h.home c hc y hy hyid).imp_left ?_
        rintro ⟨q, hq, hqy, hsent⟩
        exact ⟨q, hkeep q hq y hqy hsent, hqy, hsent⟩
      · rw [List.mem_singleton.mp hy] at hyid
        exact absurd ((id_of_mem_sendLong hcz).symm.trans hyid.symm) (hfresh z hz)
    · rw [id_of_mem_sendLong hc] at hyid
      rcases List.mem_append.mp hy with hy | hy
      · exact absurd hyid (hfresh y hy)
      · rw [List.mem_singleton.mp hy]
        exact hhome
  case written =>
    intro q hq y hy c hc hcid
    rcases hold q hq y hy with hq' | ⟨rfl, -, -⟩
    · exact h.written q hq' y hy c hc hcid
    · obtain ⟨z, hz, hcz⟩ := h.exists_sent (List.mem_append_left _ hc)
      exact absurd ((id_of_mem_sendLong hcz).symm.trans hcid) (hfresh z hz)

theorem Inv.sendPayload (h : Inv L M s) (hL : Regular L) (hlmb : L.lmbSize < 2 ^ 39) {i : ℕ} {x : Content}
    (hproper : Proper M s (.sendPayload i x)) (hstep : step L M s (.sendPayload i x) = some s') : Inv L M s' := by
  obtain ⟨sys, hsys, hstep⟩ := Option.bind_eq_some_iff.mp hstep
  obtain ⟨p, hp, hstep⟩ := Option.bind_eq_some_iff.mp hstep
  obtain ⟨ids, huse, hstep⟩ := Option.bind_eq_some_iff.mp hstep
  obtain ⟨⟨hdest, hsize⟩, heq⟩ := Option.ite_none_right_eq_some.mp hstep
  obtain rfl := Option.some.inj heq
  obtain ⟨hinv, hapart⟩ := h.flow hL hlmb hsys
  obtain ⟨p₀, hp₀, hplaced, hout⟩ := outstanding_sendPayload hsys
  rw [h.slots, List.getElem?_map, Option.map_eq_some_iff] at hp₀
  obtain ⟨q₀, hq₀, rfl⟩ := hp₀
  have hlt := (List.getElem?_eq_some_iff.mp hq₀).1
  obtain rfl : { q₀.1 with status := .sent } = p := by
    rw [hout, h.slots, List.getElem?_set_self (by rw [List.length_map]; exact hlt)] at hp
    exact Option.some.inj hp
  refine h.sendLong hproper huse hinv hapart ?_ ?_ ?_ ?_
  · rw [hout, h.slots, List.map_set]
  · intro q hq y hy
    rcases List.mem_or_eq_of_mem_set hq with hq | rfl
    · exact .inl hq
    · exact .inr ⟨(Option.some.inj hy).symm, hdest, hsize⟩
  · intro q hq y _ hsent
    refine mem_set_of_ne hq₀ hq ?_ _
    rintro rfl
    cases hplaced.symm.trans hsent
  · exact .inl ⟨_, List.mem_set hlt _, rfl, rfl⟩

theorem Inv.sendOther (h : Inv L M s) {x : Content} (hproper : Proper M s (.sendOther x))
    (hstep : step L M s (.sendOther x) = some s') : Inv L M s' := by
  obtain ⟨ids, huse, hstep⟩ := Option.bind_eq_some_iff.mp hstep
  obtain ⟨hout, heq⟩ := Option.ite_none_right_eq_some.mp hstep
  obtain rfl := Option.some.inj heq
  exact h.sendLong hproper huse h.sys h.apart h.slots (fun q hq _ _ => .inl hq) (fun q hq _ _ _ => hq) (.inr hout)

/-- **A request arrives**: it writes into the room of its own message. -/
theorem Inv.arrive (h : Inv L M s) (hL : Regular L) (hM : 1 ≤ M) {c : Chunk}
    (hstep : step L M s (.arrive c) = some s') : Inv L M s' := by
  obtain ⟨x, hfind, hstep⟩ := Option.bind_eq_some_iff.mp hstep
  obtain ⟨hc, heq⟩ := Option.ite_none_right_eq_some.mp hstep
  obtain rfl := Option.some.inj heq
  have hx : x ∈ s.sent := List.mem_of_find?_eq_some hfind
  have hxid : x.msg.id = c.id := by simpa using List.find?_some hfind
  have hcx : c ∈ Chunks.sendLong M x.msg := by
    obtain ⟨z, hz, hcz⟩ := h.exists_sent (List.mem_append_right _ hc)
    rwa [h.content_unique hx hz (hxid.trans (id_of_mem_sendLong hcz))]
  refine { h with chunks := ?_, receiver := ?_, home := ?_, written := ?_ }
  · refine List.Perm.trans ?_ h.chunks
    dsimp only
    rw [List.append_assoc, List.singleton_append]
    exact (List.perm_cons_erase hc).symm.append_left _
  · dsimp only
    rw [SrcRelease.receive_append_singleton, h.receiver]
  · exact fun c' hc' => h.home c' (List.mem_of_mem_erase hc')
  · intro q hq y hy c' hc' hid a hlo hhi
    obtain ⟨hysent, -, -⟩ := h.placed q hq y hy
    have hc'y : c' ∈ Chunks.sendLong M y.msg := by
      have hmem : c' ∈ s.arrived ++ s.flight := by
        rcases List.mem_append.mp hc' with hc' | hc'
        · exact List.mem_append_left _ hc'
        · rw [List.mem_singleton.mp hc']
          exact List.mem_append_right _ hc
      obtain ⟨z, hz, hc'z⟩ := h.exists_sent hmem
      rwa [h.content_unique hysent hz (hid.symm.trans (id_of_mem_sendLong hc'z))]
    have hin := dest_of_mem_sendLong hM (h.countable y hysent) hc'y
    have hlen := y.length_eq
    change y.bytes[a - y.msg.dest]? = some (store s.mem x c a)
    by_cases hac : c.dest ≤ a ∧ a < c.dest + c.size
    · rw [store, if_pos hac]
      obtain rfl := h.eq_of_flight hL hM hc hx hcx hq hy hac.1 hac.2 (by omega) (by omega)
      have hlt : a - y.msg.dest < y.bytes.length := by omega
      rw [List.getD_eq_getElem?_getD, List.getElem?_eq_getElem hlt, Option.getD_some]
    · rw [store, if_neg hac]
      rcases List.mem_append.mp hc' with hc' | hc'
      · exact h.written q hq y hy c' hc' hid a hlo hhi
      · rw [List.mem_singleton.mp hc'] at hlo hhi
        exact absurd ⟨hlo, hhi⟩ hac

theorem Inv.consume (h : Inv L M s) (hL : Regular L) (hlmb : L.lmbSize < 2 ^ 39) (hM : 1 ≤ M) (hM' : M < 2 ^ 64) {i : ℕ}
    (hstep : step L M s (.consume i) = some s') : Inv L M s' := by
  obtain ⟨⟨p₁, x₁⟩, hq, hstep⟩ := Option.bind_eq_some_iff.mp hstep
  obtain ⟨x, hx₁, hstep⟩ := Option.bind_eq_some_iff.mp hstep
  obtain rfl : x₁ = some x := hx₁
  obtain ⟨hdel, hstep⟩ := Option.ite_none_right_eq_some.mp hstep
  obtain ⟨sys, hsys, hstep⟩ := Option.bind_eq_some_iff.mp hstep
  obtain ⟨p, hp, heq⟩ := Option.bind_eq_some_iff.mp hstep
  obtain rfl := Option.some.inj heq
  obtain ⟨hinv, hapart⟩ := h.flow hL hlmb hsys
  obtain ⟨p₀, hp₀, -, hout⟩ := outstanding_consume hsys
  have hlt := (List.getElem?_eq_some_iff.mp hq).1
  obtain rfl : p₁ = p₀ := by
    rw [h.slots, List.getElem?_map, hq] at hp₀
    exact Option.some.inj hp₀
  obtain rfl : { p₁ with status := .consumed } = p := by
    rw [hout, h.slots, List.getElem?_set_self (by rw [List.length_map]; exact hlt)] at hp
    exact Option.some.inj hp
  have hmem := List.mem_of_getElem? hq
  have hxsent := (h.placed _ hmem x rfl).1
  refine { h with sys := hinv, apart := hapart, slots := ?_, placed := ?_, home := ?_, written := ?_ }
  · dsimp only
    rw [hout, h.slots, List.map_set]
  · intro q hq y hy
    rcases List.mem_or_eq_of_mem_set hq with hq | rfl
    · exact h.placed q hq y hy
    · exact h.placed _ hmem y hy
  · intro c hc y hy hid
    refine (h.home c hc y hy hid).imp_left ?_
    rintro ⟨q', hq', hq'y, hsent⟩
    refine ⟨q', mem_set_of_ne hq hq' ?_ _, hq'y, hsent⟩
    -- all chunks of a message that was handed on have arrived
    rintro rfl
    have hcmem : c ∈ s.flight.filter (fun c => c.id = x.msg.id) := by
      rw [Option.some.inj hq'y]
      exact List.mem_filter.mpr ⟨hc, decide_eq_true hid.symm⟩
    rw [h.no_flight hM hM' hxsent hdel] at hcmem
    cases hcmem
  · intro q hq y hy
    rcases List.mem_or_eq_of_mem_set hq with hq | rfl
    · exact h.written q hq y hy
    · exact h.written _ hmem y hy

theorem Inv.longMsgptr (h : Inv L M s) (hL : Regular L) (hlmb : L.lmbSize < 2 ^ 39) {i : ℕ}
    (hstep : step L M s (.longMsgptr i) = some s') : Inv L M s' := by
  obtain ⟨sys, hsys, heq⟩ := Option.bind_eq_some_iff.mp hstep
  obtain rfl := Option.some.inj heq
  obtain ⟨hinv, hapart⟩ := h.flow hL hlmb hsys
  obtain ⟨p, hp, hconsumed, hout⟩ := outstanding_longMsgptr hsys
  rw [h.slots, List.getElem?_map, Option.map_eq_some_iff] at hp
  obtain ⟨q₀, hq₀, rfl⟩ := hp
  have hmem := List.mem_of_getElem? hq₀
  obtain ⟨hb, -, hlt, -⟩ := h.inside hL hmem
  have hptr := h.sys.ptrs q₀.1 (h.slots ▸ List.mem_map_of_mem hmem)
  rw [hptr, hL.rBuffer_ptr hb hlt, if_neg (Option.some_ne_none _)] at hout
  refine { h with sys := hinv, apart := hapart, slots := ?_, placed := ?_, home := ?_, written := ?_ }
  · dsimp only
    rw [hout, h.slots, List.eraseIdx_map]
  · exact fun q hq => h.placed q (List.mem_of_mem_eraseIdx hq)
  · intro c hc y hy hid
    refine (h.home c hc y hy hid).imp_left ?_
    rintro ⟨q, hq, hqy, hsent⟩
    refine ⟨q, mem_eraseIdx_of_ne hq₀ hq ?_, hqy, hsent⟩
    rintro rfl
    cases hconsumed.symm.trans hsent
  · exact fun q hq => h.written q (List.mem_of_mem_eraseIdx hq)

/-- **One step** -/
theorem Inv.step (h : Inv L M s) (hL : Regular L) (hlmb : L.lmbSize < 2 ^ 39) (hM : 1 ≤ M) (hM' : M < 2 ^ 64) {a : Act}
    (hproper : Proper M s a) (hstep : step L M s a = some s') : Inv L M s' := by
  cases a with
  | push => exact h.push hL hlmb hstep
  | loadId =>
    cases hstep
    exact { h with ids := h.ids.load hproper }
  | storeId v =>
    obtain ⟨ids, hstore, hstep⟩ := Option.bind_eq_some_iff.mp hstep
    cases hstep
    exact { h with ids := h.ids.store hstore }
  | sendPayload i x => exact h.sendPayload hL hlmb hproper hstep
  | sendOther x => exact h.sendOther hproper hstep
  | arrive c => exact h.arrive hL hM hstep
  | consume i => exact h.consume hL hlmb hM hM' hstep
  | longMsgptr i => exact h.longMsgptr hL hlmb hstep
  | flow e =>
    obtain ⟨hquiet, hstep⟩ := Option.ite_none_right_eq_some.mp hstep
    obtain ⟨sys, hsys, heq⟩ := Option.bind_eq_some_iff.mp hstep
    obtain rfl := Option.some.inj heq
    obtain ⟨hinv, hapart⟩ := h.flow hL hlmb hsys
    exact { h with sys := hinv, apart := hapart, slots := (outstanding_of_quiet hquiet hsys).trans h.slots }
  | write a b =>
    obtain ⟨hout, heq⟩ := Option.ite_none_right_eq_some.mp hstep
    obtain rfl := Option.some.inj heq
    refine { h with written := fun q hq x hx c hc hid a' hlo hhi => ?_ }
    obtain ⟨hxsent, hdest, hsize⟩ := h.placed q hq x hx
    have hne : a' ≠ a := by
      rintro rfl
      obtain ⟨z, hz, hcz⟩ := h.exists_sent (List.mem_append_left _ hc)
      rw [← h.content_unique hxsent hz (hid.symm.trans (id_of_mem_sendLong hcz))] at hcz
      have hin := dest_of_mem_sendLong hM (h.countable x hxsent) hcz
      obtain ⟨hb, hble, -, hbptr⟩ := h.inside hL hq
      rcases hout _ hb with hout | hout
      · omega
      · omega
    dsimp only
    rw [Function.update_of_ne hne]
    exact h.written q hq x hx c hc hid a' hlo hhi

end Steps

/-! ## Every interleaving -/

/-- `once`: a message is handed on at most once, with its own pointer and size; `all`: when nothing is under way it has
been; `intact`: from then until `handle_long_msgptr` its bytes are in memory. -/
structure Sound (s : State) : Prop where
  once : ∀ x ∈ s.sent, s.receiver.delivered.filter (fun d => d.id = x.msg.id) = [] ∨
    s.receiver.delivered.filter (fun d => d.id = x.msg.id) = [⟨x.msg.id, x.msg.dest, x.msg.payloadSize⟩]
  all : s.flight = [] → ∀ x ∈ s.sent, x.msg.id ∈ s.receiver.delivered.map Delivery.id
  intact : ∀ q ∈ s.slots, ∀ x, q.2 = some x → x.msg.id ∈ s.receiver.delivered.map Delivery.id →
    x.msg.dest = q.1.ptr ∧ x.msg.payloadSize = q.1.size ∧
      ∀ k < x.msg.payloadSize, x.bytes[k]? = some (s.mem (x.msg.dest + k))

theorem Inv.sound {L : Link} {M : ℕ} {s : State} (h : Inv L M s) (hM : 1 ≤ M) (hM' : M < 2 ^ 64) : Sound s := by
  constructor
  case once =>
    intro x hx
    rw [h.delivered_filter hM hM' hx]
    split
    · exact .inr rfl
    · exact .inl rfl
  case all =>
    intro hflight x hx
    have hfilter := h.delivered_filter hM hM' hx
    rw [hflight, if_pos List.filter_nil] at hfilter
    have hmem := List.mem_singleton_self (⟨x.msg.id, x.msg.dest, x.msg.payloadSize⟩ : Delivery)
    rw [← hfilter] at hmem
    exact List.mem_map_of_mem (List.mem_filter.mp hmem).1
  case intact =>
    intro q hq x hx hdel
    obtain ⟨hxsent, hdest, hsize⟩ := h.placed q hq x hx
    refine ⟨hdest, hsize, fun k hk => ?_⟩
    -- some chunk has byte `k`, and all chunks have arrived
    have hcount := (covers_of_countable hM (h.countable x hxsent)).dest (x.msg.dest + k)
    rw [if_pos ⟨Nat.le_add_right _ _, Nat.add_lt_add_left hk _⟩] at hcount
    obtain ⟨c, hc, hck⟩ := List.countP_pos_iff.mp (hcount ▸ Nat.one_pos)
    obtain ⟨hlo, hhi⟩ := of_decide_eq_true hck
    have harrived := h.chunks_filter hxsent
    rw [h.no_flight hM hM' hxsent hdel, List.append_nil] at harrived
    have hmem := (List.mem_filter.mp (harrived.mem_iff.mpr hc)).1
    have hwritten := h.written q hq x hx c hmem (id_of_mem_sendLong hc) (x.msg.dest + k) hlo hhi
    rwa [Nat.add_sub_cancel_left] at hwritten

theorem Inv.init (L : Link) (M : ℕ) (mem : ℕ → Byte) : Inv L M (.init mem) where
  sys := .init L
  slots := rfl
  apart := .nil
  ids := .init
  countable := fun _ hx => absurd hx List.not_mem_nil
  chunks := .refl _
  receiver := rfl
  placed := fun _ hq => absurd hq List.not_mem_nil
  home := fun _ hc => absurd hc List.not_mem_nil
  written := fun _ hq => absurd hq List.not_mem_nil

/-- **Long messages arrive**, in every interleaving of the threads of both nodes and the network in which increments of
the id do not overlap: each is handed on once, and is in the buffer as it was sent as long as it is handled. -/
theorem longDelivery_of_run (L : Link) (hL : Regular L) (hlmb : L.lmbSize < 2 ^ 39) {M : ℕ} (hM : 1 ≤ M)
    (hM' : M < 2 ^ 64) (mem : ℕ → Byte) (acts : List Act) (s : State) (hproper : Guarded (step L M) (Proper M) (.init mem) acts)
    (hrun : run (step L M) (.init mem) acts = some s) : Sound s := by
  have hinv : Inv L M s :=
    run_inv_guarded (fun _ _ _ h hp hs => h.step hL hlmb hM hM' hp hs) (Inv.init L M mem) hproper hrun
  exact hinv.sound hM hM'

/-- Two nodes with two buffers of 256 bytes each way. -/
def smallLink : Link where
  numLmbs := 2
  lmbSize := 256
  maxMedium := 512
  segmentInfo _ := ⟨4096, 1024⟩
  src := 0
  dst := 1
  numLmbs_pos := Nat.two_pos
  lmbSize_dvd := by decide

/-- 48 bytes for the first buffer. -/
def sevens : Content :=
  ⟨⟨0, 8192, 48, 4864, false, by decide, by decide, by decide, by decide, by decide⟩, List.replicate 48 7, rfl⟩

/-- The chunks arrive in the wrong order, then the message is handled. -/
def oneMessage : List Act :=
  [.loadId, .storeId 0, .flow (.enqueue (message 48) true), .push, .sendPayload 0 sevens,
    .arrive ⟨8192, 32, 4864, 0, 2, 0, 0⟩, .arrive ⟨8224, 16, 4896, 0, 2, 0, 0⟩, .consume 0]

theorem longDelivery_of_run_two : ∃ s, run (step smallLink 32) (.init fun _ => 0) oneMessage = some s ∧
    s.receiver.delivered.map Delivery.nbytes = [48] ∧ Sound s := by
  have hdelivered : (run (step smallLink 32) (.init fun _ => 0) oneMessage).map
      (fun s => s.receiver.delivered.map Delivery.nbytes) = some [48] := by
    decide +kernel
  obtain ⟨s, hrun, hs⟩ := Option.map_eq_some_iff.mp hdelivered
  have hregular : Regular smallLink := ⟨⟨by decide, by decide, by decide, by decide, by decide⟩, rfl⟩
  refine ⟨s, hrun, hs, longDelivery_of_run smallLink hregular (by decide) (by decide) (by decide) _ oneMessage s ?_
    hrun⟩
  refine ⟨⟨rfl, le_refl _⟩, fun _ _ => ⟨trivial, fun _ _ => ⟨trivial, fun _ _ => ⟨trivial, fun _ _ => ?_⟩⟩⟩⟩
  refine ⟨⟨by decide, by decide⟩, fun _ _ => ⟨trivial, fun _ _ => ⟨trivial, fun _ _ => ⟨trivial, fun _ _ => trivial⟩⟩⟩⟩

end Realm.LongDelivery

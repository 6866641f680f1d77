import Realm.SrcDataPool.Copy

/-!
# Realm.SrcDataPool.CopyInv — whose memory is whose

The spans in the pool, the blocks of the messages that wait and the payloads of the calls in progress do not overlap,
so that a copy for one message is not seen by the others.

* `Inv`: what holds between any two steps; `Inv.correct`: then what has been sent is right.
* `About`: a step is about one message.  `Inv.keeps_span`, `Inv.keeps_block`: a copy to its span or its block.
* `Moves`: a step moves one message on.  `Inv.moves`: what it has to show for the invariant.
* `Inv.enqueue`, `Inv.reserveSpill`, `Inv.push`, `Inv.write`: the steps that copy nothing.
-/

namespace Realm.Copy

open Lib Spill

/-! ## The invariant -/

/-- The messages that have to be given a span: they wait, or a thread has one for them. -/
def State.waiters (st : State) : List (ℕ × ℕ) := st.pool.pool.pendingAllocations ++ st.assigning.map Prod.fst

structure Inv (base size : ℕ) (st : State) : Prop where
  pool : st.pool.Inv Prod.snd base size
  unused : ∀ id, st.next ≤ id → st.msgs id = none ∧ st.call id = none ∧ st.freed id = [] ∧ st.malloced id = none
  messages : ∀ id hdr, st.msgs id = some hdr →
    ∃ target call, st.call id = some (target, call) ∧ Ok base size st id call hdr
  queue : ∀ t, ∀ id ∈ st.queue t, id < st.next ∧ ∀ hdr, st.msgs id = some hdr → hdr.phase = .queued
  sending : ∀ id ∈ st.sending, id < st.next ∧
    ∀ hdr, st.msgs id = some hdr → hdr.phase = .queued ∧ hdr.payloadMode ≠ .pending
  waiters : ∀ w ∈ st.waiters, ∃ hdr, st.msgs w.1 = some hdr ∧ hdr.payloadMode = .pending ∧ hdr.payloadSize = w.2
  waitersNodup : (st.waiters.map Prod.fst).Nodup
  assigning : ∀ o ∈ st.assigning, o ∈ st.pool.owners
  inFlight : ∀ f ∈ st.inFlight, st.msgs f.1 = none ∧ f.1 < st.next ∧ ∃ n, ((f.1, n), f.2) ∈ st.pool.owners
  inFlightNodup : st.inFlight.Nodup
  blocks : ∀ id p n, st.malloced id = some (p, n) → ∀ a, InCells p n a → ¬InPool base size a
  apart : ∀ id id' p n p' n', id ≠ id' → st.malloced id = some (p, n) → st.malloced id' = some (p', n') →
    ∀ a, InCells p n a → ¬InCells p' n' a
  sent : ∀ s ∈ st.sent, s.mode ≠ .pending ∧ st.msgs s.id = none ∧ s.id < st.next ∧
    ∃ target call, st.call s.id = some (target, call) ∧ Placed st s.id call s.bytes
  freed : ∀ id target call p, st.call id = some (target, call) → Frees p call →
    st.freed id = [] ∨ ∃ bytes, st.freed id = [(p, bytes)]

section Steps

variable {c : Config} {ec : EndpointConfig} {base size : ℕ} {st st' : State} {id : ℕ} {call : Call} {hdr hdr' : Message}

theorem Inv.init (mem : Memory) (hsize : 0 < size) (hbase : 64 ∣ base) (hsize64 : 64 ∣ size) :
    Inv base size (.init mem base size) where
  pool := .init hsize hbase hsize64
  unused _ _ := ⟨rfl, rfl, rfl, rfl⟩
  messages _ _ h := by cases h
  queue _ _ h := by cases h
  sending _ h := by cases h
  waiters _ h := by cases h
  waitersNodup := List.nodup_nil
  assigning _ h := by cases h
  inFlight _ h := by cases h
  inFlightNodup := List.nodup_nil
  blocks _ _ _ h := by cases h
  apart _ _ _ _ _ _ _ h := by cases h
  sent _ h := by cases h
  freed _ _ _ _ h := by cases h

theorem Inv.correct (h : Inv base size st) : Correct st := by
  constructor
  case copy =>
    intro s hs target call hcall hcopy
    obtain ⟨-, -, -, target', call', hcall', hplaced⟩ := h.sent s hs
    obtain ⟨rfl, rfl⟩ := Prod.mk.inj (Option.some.inj (hcall'.symm.trans hcall))
    exact hplaced.copy hcopy
  case pending => exact fun s hs => (h.sent s hs).1
  case free =>
    intro id target call p hcall hp
    refine ⟨h.freed id target call p hcall hp, ?_⟩
    rintro s hs rfl
    obtain ⟨-, -, -, target', call', hcall', hplaced⟩ := h.sent s hs
    obtain ⟨rfl, rfl⟩ := Prod.mk.inj (Option.some.inj (hcall'.symm.trans hcall))
    exact hplaced.free p hp

/-- A step that does not touch the memory of the library. -/
theorem Keeps.of_mem_eq (hmem : st'.mem = st.mem) (hfreed : st'.freed id = st.freed id)
    (hat : st'.atCall id = st.atCall id) (hmalloced : st'.malloced = st.malloced)
    (howners : hdr.payloadMode = .srcptr → ∀ o ∈ st.pool.owners, o.1.1 = id → o ∈ st'.pool.owners) :
    Keeps base size st st' id hdr where
  freed := hfreed
  atCall := hat
  malloced := by rw [hmalloced]
  owners := howners
  caller _ _ _ _ a _ := by
    refine ⟨by rw [hmem], fun hp => ?_⟩
    simpa only [State.Private, hmalloced] using hp
  block _ _ _ a _ := by rw [hmem]
  span _ _ _ _ a _ := by rw [hmem]

/-- The records of the messages other than `id` stay as they are. -/
structure About (st st' : State) (id : ℕ) : Prop where
  msgs : ∀ i, i ≠ id → st'.msgs i = st.msgs i
  call : ∀ i, i ≠ id → st'.call i = st.call i
  atCall : ∀ i, i ≠ id → st'.atCall i = st.atCall i
  freed : ∀ i, i ≠ id → st'.freed i = st.freed i
  malloced : ∀ i, i ≠ id → st'.malloced i = st.malloced i
  next : st.next ≤ st'.next
  lt : id < st'.next

namespace About

theorem unused (ha : About st st' id) (h : Inv base size st) (i : ℕ) (hi : st'.next ≤ i) :
    st'.msgs i = none ∧ st'.call i = none ∧ st'.freed i = [] ∧ st'.malloced i = none := by
  have hne : i ≠ id := by
    rintro rfl
    exact absurd ha.lt (Nat.not_lt.mpr hi)
  rw [ha.msgs i hne, ha.call i hne, ha.freed i hne, ha.malloced i hne]
  exact h.unused i (ha.next.trans hi)

/-- The other messages keep what is said about them. -/
theorem messages (ha : About st st' id) (h : Inv base size st)
    (hkeep : ∀ i hdr, i ≠ id → st.msgs i = some hdr → Keeps base size st st' i hdr)
    (hnew : ∀ hdr, st'.msgs id = some hdr → ∃ target call, st'.call id = some (target, call) ∧
      Ok base size st' id call hdr) (i : ℕ) (hdr : Message) (hi : st'.msgs i = some hdr) :
    ∃ target call, st'.call i = some (target, call) ∧ Ok base size st' i call hdr := by
  rcases eq_or_ne i id with rfl | hne
  · exact hnew hdr hi
  · rw [ha.msgs i hne] at hi
    obtain ⟨target, call, hcall, hok⟩ := h.messages i hdr hi
    exact ⟨target, call, (ha.call i hne).trans hcall, hok.keep (hkeep i hdr hne hi)⟩

theorem sent (ha : About st st' id) (h : Inv base size st) (hid : ∀ s ∈ st.sent, s.id ≠ id) (s : Sent)
    (hs : s ∈ st.sent) : s.mode ≠ .pending ∧ st'.msgs s.id = none ∧ s.id < st'.next ∧
      ∃ target call, st'.call s.id = some (target, call) ∧ Placed st' s.id call s.bytes := by
  obtain ⟨hmode, hmsg, hlt, target, call, hcall, hplaced⟩ := h.sent s hs
  have hne := hid s hs
  refine ⟨hmode, (ha.msgs _ hne).trans hmsg, hlt.trans_le ha.next, target, call, (ha.call _ hne).trans hcall, ?_⟩
  exact hplaced.congr (ha.freed _ hne) (ha.atCall _ hne)

theorem freedOnce (ha : About st st' id) (h : Inv base size st)
    (hnew : ∀ target call p, st'.call id = some (target, call) → Frees p call →
      st'.freed id = [] ∨ ∃ bytes, st'.freed id = [(p, bytes)]) (i target : ℕ) (call : Call) (p : Addr)
    (hi : st'.call i = some (target, call)) (hp : Frees p call) :
    st'.freed i = [] ∨ ∃ bytes, st'.freed i = [(p, bytes)] := by
  rcases eq_or_ne i id with rfl | hne
  · exact hnew target call p hi hp
  · rw [ha.freed i hne]
    exact h.freed i target call p ((ha.call i hne).symm.trans hi) hp

theorem inFlight (ha : About st st' id) (h : Inv base size st) (hid : ∀ f ∈ st.inFlight, f.1 ≠ id)
    {f : ℕ × ℕ} (hf : f ∈ st.inFlight) : st'.msgs f.1 = none ∧ f.1 < st'.next := by
  obtain ⟨hmsg, hlt, -⟩ := h.inFlight f hf
  exact ⟨(ha.msgs _ (hid f hf)).trans hmsg, hlt.trans_le ha.next⟩

end About

/-- Messages that are gone are not those that a step is about. -/
theorem Inv.ne_of_sent (h : Inv base size st) (hid : st.msgs id = some hdr) (s : Sent) (hs : s ∈ st.sent) :
    s.id ≠ id := by
  rintro rfl
  rw [(h.sent s hs).2.1] at hid
  cases hid

theorem Inv.ne_of_inFlight (h : Inv base size st) (hid : st.msgs id = some hdr) (f : ℕ × ℕ) (hf : f ∈ st.inFlight) :
    f.1 ≠ id := by
  rintro rfl
  rw [(h.inFlight f hf).1] at hid
  cases hid

theorem Inv.lt_next (h : Inv base size st) (hid : st.msgs id = some hdr) : id < st.next := by
  by_contra hle
  rw [(h.unused id (Nat.not_lt.mp hle)).1] at hid
  cases hid

/-- **A call** of `enqueue_message` -/
theorem Inv.enqueue {target : ℕ} (h : Inv base size st) (henv : Environment c base size st (.enqueue target call))
    (hsound : Sound (.enqueue target call)) (hstep : st.enqueue c target call = some st') : Inv base size st' := by
  obtain ⟨hmode, hstep⟩ := Option.ite_none_right_eq_some.mp hstep
  obtain ⟨hdr, hmsg, hstep⟩ := Option.bind_eq_some_iff.mp hstep
  have hatt := message_attached hsound hmode hmsg
  obtain ⟨hnomsg, hnocall, hnofreed, hnoblock⟩ := h.unused st.next le_rfl
  have hold : ∀ i hdr₁, st.msgs i = some hdr₁ → i ≠ st.next := fun i hdr₁ hi => (h.lt_next hi).ne
  have habout : About st st' st.next := by
    obtain rfl := Option.some.inj hstep
    exact ⟨fun i hi => Function.update_of_ne hi _ _, fun i hi => Function.update_of_ne hi _ _,
      fun i hi => Function.update_of_ne hi _ _, fun _ _ => rfl, fun _ _ => rfl, Nat.le_succ _, Nat.lt_succ_self _⟩
  have hkeep : ∀ i hdr, i ≠ st.next → st.msgs i = some hdr → Keeps base size st st' i hdr := by
    intro i hdr₁ hi _
    obtain rfl := Option.some.inj hstep
    exact Keeps.of_mem_eq rfl rfl (Function.update_of_ne hi _ _) rfl fun _ _ ho _ => ho
  have hok : Ok base size st' st.next call hdr := by
    have hat : st'.atCall st.next = ((source c call).copyData st.mem).getD [] := by
      obtain rfl := Option.some.inj hstep
      exact Function.update_self ..
    have hfreed : st'.freed st.next = [] := by
      obtain rfl := Option.some.inj hstep
      exact hnofreed
    have hcopy : ∀ bytes, (source c call).copyData st.mem = some bytes → bytes = st'.atCall st.next := by
      intro bytes hbytes
      rw [hat, hbytes, Option.getD_some]
    rcases Nat.eq_zero_or_pos hdr.payloadSize with hzero | hpos
    · obtain ⟨hmode, hlen, hfree⟩ := hatt.empty hzero
      refine .empty hzero hmode hfreed ⟨fun hc => ?_, fun p hp => absurd hp (hfree p)⟩
      cases hbytes : (source c call).copyData st.mem with
      | none => rw [hat, hbytes, Option.getD_none]
      | some bytes =>
        have := PayloadSource.copyData_length hbytes
        rw [hlen hc, List.length_eq_zero_iff] at this
        rw [← hcopy bytes hbytes, this]
    · obtain rfl := Option.some.inj hstep
      refine .entering (by rw [hatt.phase]; simp) (hatt.mode hpos) (hatt.copy hpos)
        ⟨hpos, hatt.payloadSrc hpos, hatt.length hpos, fun _ => hcopy, hatt.free hpos, hfreed⟩ (hatt.get hpos)
        (hatt.keepreg hpos) (fun _ => henv) hnoblock
  obtain rfl := Option.some.inj hstep
  constructor
  case pool => exact h.pool
  case unused => exact habout.unused h
  case messages =>
    refine habout.messages h hkeep fun hdr₁ hi => ⟨target, call, Function.update_self .., ?_⟩
    simp only [Function.update_self, Option.some.injEq] at hi
    exact hi ▸ hok
  case queue =>
    intro t i hi
    obtain ⟨hlt, hq⟩ := h.queue t i hi
    refine ⟨hlt.trans (Nat.lt_succ_self _), fun hdr₁ hm => hq hdr₁ ?_⟩
    exact (habout.msgs i hlt.ne).symm.trans hm
  case sending =>
    intro i hi
    obtain ⟨hlt, hq⟩ := h.sending i hi
    refine ⟨hlt.trans (Nat.lt_succ_self _), fun hdr₁ hm => hq hdr₁ ?_⟩
    exact (habout.msgs i hlt.ne).symm.trans hm
  case waiters =>
    intro w hw
    obtain ⟨hdr₁, hm, hrest⟩ := h.waiters w hw
    exact ⟨hdr₁, (habout.msgs _ (hold _ _ hm)).trans hm, hrest⟩
  case waitersNodup => exact h.waitersNodup
  case assigning => exact h.assigning
  case inFlight =>
    intro f hf
    obtain ⟨hmsg, hlt⟩ := habout.inFlight h (fun f hf => (h.inFlight f hf).2.1.ne) hf
    exact ⟨hmsg, hlt, (h.inFlight f hf).2.2⟩
  case inFlightNodup => exact h.inFlightNodup
  case blocks => exact h.blocks
  case apart => exact h.apart
  case sent => exact habout.sent h fun s hs => (h.sent s hs).2.2.1.ne
  case freed => exact habout.freedOnce h fun _ _ _ _ _ => .inl hnofreed

theorem Inv.ne_of_waiter (h : Inv base size st) (hid : st.msgs id = some hdr) (hwait : hdr.payloadMode ≠ .pending) :
    ∀ w ∈ st.waiters, w.1 ≠ id := by
  rintro w hw rfl
  obtain ⟨hdr₁, hm, hmode, -⟩ := h.waiters w hw
  obtain rfl := Option.some.inj (hm.symm.trans hid)
  exact hwait hmode

theorem Ok.not_pending (h : Ok base size st id call hdr) (hphase : hdr.phase ≠ .queued) :
    hdr.payloadMode ≠ .pending := by
  intro hp
  cases h with
  | empty _ hm => rw [hp] at hm; simp at hm
  | entering _ hm => rw [hp] at hm; simp at hm
  | registered hq => exact hphase hq
  | waiting hq => exact hphase hq
  | placed hq => exact hphase hq

/-- The payload of a call that is to copy it is not memory of the library. -/
theorem Inv.not_private (h : Inv base size st) (hid : st.msgs id = some hdr) (hphase : hdr.phase ≠ .queued)
    (hmode : hdr.payloadMode = .copy) {src : PayloadSource} (hsrc : hdr.payloadSrc = some src) {a : Addr}
    (ha : src.Reads a) : ¬st.Private base size a := by
  obtain ⟨target, call, -, hok⟩ := h.messages id hdr hid
  cases hok with
  | empty _ hm => rw [hmode] at hm; simp at hm
  | entering _ _ _ hcarries _ _ hpriv =>
    obtain rfl := Option.some.inj (hsrc.symm.trans hcarries.payloadSrc)
    exact hpriv hmode a ha
  | registered hq => exact absurd hq hphase
  | waiting hq => exact absurd hq hphase
  | placed hq => exact absurd hq hphase

/-- **A write to the span** of one message is not seen by the others. -/
theorem Inv.keeps_span (h : Inv base size st) (htop : base + size ≤ 2 ^ 64) (hpool : st'.pool.Inv Prod.snd base size)
    (habout : About st st' id) {o : (ℕ × ℕ) × ℕ} (ho : o ∈ st'.pool.owners) (hoid : o.1.1 = id)
    (hmem : ∀ a, ¬InCells (BitVec.ofNat 64 o.2) o.1.2 a → st'.mem a = st.mem a)
    (howners : ∀ x ∈ st.pool.owners, x ∈ st'.pool.owners)
    (hpriv : ∀ a, st'.Private base size a → st.Private base size a) (i : ℕ) (hdr : Message) (hne : i ≠ id)
    (hi : st.msgs i = some hdr) : Keeps base size st st' i hdr where
  freed := habout.freed i hne
  atCall := habout.atCall i hne
  malloced := habout.malloced i hne
  owners _ x hx _ := howners x hx
  caller hphase hmode src hsrc a ha := by
    refine ⟨hmem a fun hin => ?_, hpriv a⟩
    exact h.not_private hi hphase hmode hsrc ha (.inl (inPool_of_owner hpool htop ho hin))
  block p n hp a ha := hmem a fun hin => h.blocks i p n hp a ha (inPool_of_owner hpool htop ho hin)
  span x hx hxi _ a ha := by
    refine hmem a fun hin => owners_disjoint hpool htop ho (howners x hx) ?_ hin ha
    rintro rfl
    exact hne (hxi.symm.trans hoid)

/-- **A write to a new block** is not seen by the messages. -/
theorem Inv.keeps_block (h : Inv base size st) (htop : base + size ≤ 2 ^ 64) (habout : About st st' id) {p : Addr}
    {n : ℕ} (hnew : ∀ a, InCells p n a → ¬st.Private base size a ∧ ¬st.Copying a)
    (hmem : ∀ a, ¬InCells p n a → st'.mem a = st.mem a) (howners : ∀ x ∈ st.pool.owners, x ∈ st'.pool.owners)
    (hpriv : ∀ a, st'.Private base size a → InCells p n a ∨ st.Private base size a) (i : ℕ) (hdr : Message)
    (hne : i ≠ id) (hi : st.msgs i = some hdr) : Keeps base size st st' i hdr where
  freed := habout.freed i hne
  atCall := habout.atCall i hne
  malloced := habout.malloced i hne
  owners _ x hx _ := howners x hx
  caller hphase hmode src hsrc a ha := by
    have hout : ¬InCells p n a := fun hin => (hnew a hin).2 ⟨i, hdr, src, hi, hphase, hmode, hsrc, ha⟩
    exact ⟨hmem a hout, fun hp => (hpriv a hp).resolve_left hout⟩
  block q k hq a ha := hmem a fun hin => (hnew a hin).1 (.inr ⟨i, q, k, hq, ha⟩)
  span x hx _ _ a ha := hmem a fun hin => (hnew a hin).1 (.inl (inPool_of_owner h.pool htop hx ha))

/-- A step that moves the message `id` on: its record is `hdr'` then. -/
structure Moves (base size : ℕ) (st st' : State) (id : ℕ) (call : Call) (hdr hdr' : Message) : Prop where
  about : About st st' id
  msgs : st'.msgs id = some hdr'
  calls : st'.call id = st.call id
  sent : st'.sent = st.sent
  sending : st'.sending = st.sending
  inFlight : st'.inFlight = st.inFlight
  pool : st'.pool.Inv Prod.snd base size
  owners : ∀ o ∈ st.pool.owners, o ∈ st'.pool.owners
  keeps : ∀ i hdr, i ≠ id → st.msgs i = some hdr → Keeps base size st st' i hdr
  ok : Ok base size st' id call hdr'
  queue : ∀ t, ∀ i ∈ st'.queue t, i ∈ st.queue t ∨ i = id ∧ hdr'.phase = .queued
  phase : hdr.phase = .queued → hdr'.phase = .queued
  sendable : hdr.phase = .queued → hdr.payloadMode ≠ .pending → hdr'.payloadMode ≠ .pending
  assigning : ∀ o ∈ st'.assigning, o ∈ st.assigning
  waiters : ∀ w ∈ st'.waiters, w ∈ st.waiters ∧ w.1 ≠ id ∨ w = (id, hdr'.payloadSize) ∧ hdr'.payloadMode = .pending
  waitersNodup : (st'.waiters.map Prod.fst).Nodup
  block : ∀ p n, st'.malloced id = some (p, n) → ∀ a, InCells p n a → ¬InPool base size a ∧
    ∀ i q k, i ≠ id → st.malloced i = some (q, k) → ¬InCells q k a
  freed : ∀ p, Frees p call → st'.freed id = [] ∨ ∃ bytes, st'.freed id = [(p, bytes)]

/-- The blocks stay apart if that of `id` is apart from the others. -/
theorem Moves.apart (hm : Moves base size st st' id call hdr hdr') (h : Inv base size st) (i j : ℕ) (p : Addr) (n : ℕ)
    (q : Addr) (k : ℕ) (hij : i ≠ j) (hp : st'.malloced i = some (p, n)) (hq : st'.malloced j = some (q, k)) (a : Addr)
    (ha : InCells p n a) : ¬InCells q k a := by
  rcases eq_or_ne i id with rfl | hi
  · rw [hm.about.malloced j hij.symm] at hq
    exact (hm.block p n hp a ha).2 j q k hij.symm hq
  · rw [hm.about.malloced i hi] at hp
    rcases eq_or_ne j id with rfl | hj
    · exact fun ha' => (hm.block q k hq a ha').2 i p n hi hp ha
    · rw [hm.about.malloced j hj] at hq
      exact h.apart i j p n q k hij hp hq a ha

/-- **Moving a message on** keeps the invariant. -/
theorem Inv.moves {target : ℕ} (h : Inv base size st) (hid : st.msgs id = some hdr)
    (hcall : st.call id = some (target, call)) (hm : Moves base size st st' id call hdr hdr') : Inv base size st' := by
  have hrecord : ∀ {i hdr₁}, st'.msgs i = some hdr₁ → i ≠ id ∧ st.msgs i = some hdr₁ ∨ i = id ∧ hdr₁ = hdr' := by
    intro i hdr₁ hi
    rcases eq_or_ne i id with rfl | hne
    · exact .inr ⟨rfl, Option.some.inj (hi.symm.trans hm.msgs)⟩
    · exact .inl ⟨hne, (hm.about.msgs i hne).symm.trans hi⟩
  constructor
  case pool => exact hm.pool
  case unused => exact hm.about.unused h
  case messages =>
    refine hm.about.messages h hm.keeps fun hdr₁ hi => ⟨target, call, hm.calls.trans hcall, ?_⟩
    obtain rfl := Option.some.inj (hm.msgs.symm.trans hi)
    exact hm.ok
  case queue =>
    intro t i hi
    rcases hm.queue t i hi with hi | ⟨rfl, hq⟩
    · obtain ⟨hlt, hq⟩ := h.queue t i hi
      refine ⟨hlt.trans_le hm.about.next, fun hdr₁ hi₁ => ?_⟩
      rcases hrecord hi₁ with ⟨-, hi₁⟩ | ⟨rfl, rfl⟩
      · exact hq hdr₁ hi₁
      · exact hm.phase (hq hdr hid)
    · refine ⟨hm.about.lt, fun hdr₁ hi₁ => ?_⟩
      obtain rfl := Option.some.inj (hm.msgs.symm.trans hi₁)
      exact hq
  case sending =>
    intro i hi
    rw [hm.sending] at hi
    obtain ⟨hlt, hq⟩ := h.sending i hi
    refine ⟨hlt.trans_le hm.about.next, fun hdr₁ hi₁ => ?_⟩
    rcases hrecord hi₁ with ⟨-, hi₁⟩ | ⟨rfl, rfl⟩
    · exact hq hdr₁ hi₁
    · obtain ⟨hphase, hmode⟩ := hq hdr hid
      exact ⟨hm.phase hphase, hm.sendable hphase hmode⟩
  case waiters =>
    intro w hw
    rcases hm.waiters w hw with ⟨hw, hne⟩ | ⟨rfl, hmode⟩
    · obtain ⟨hdr₁, hi, hrest⟩ := h.waiters w hw
      exact ⟨hdr₁, (hm.about.msgs _ hne).trans hi, hrest⟩
    · exact ⟨hdr', hm.msgs, hmode, rfl⟩
  case waitersNodup => exact hm.waitersNodup
  case assigning => exact fun o ho => hm.owners o (h.assigning o (hm.assigning o ho))
  case inFlight =>
    intro f hf
    rw [hm.inFlight] at hf
    obtain ⟨hmsg, hlt⟩ := hm.about.inFlight h (h.ne_of_inFlight hid) hf
    obtain ⟨n, hn⟩ := (h.inFlight f hf).2.2
    exact ⟨hmsg, hlt, n, hm.owners _ hn⟩
  case inFlightNodup =>
    rw [hm.inFlight]
    exact h.inFlightNodup
  case blocks =>
    intro i p n hp a ha
    rcases eq_or_ne i id with rfl | hi
    · exact (hm.block p n hp a ha).1
    · rw [hm.about.malloced i hi] at hp
      exact h.blocks i p n hp a ha
  case apart => exact hm.apart h
  case sent =>
    intro s hs
    rw [hm.sent] at hs
    exact hm.about.sent h (h.ne_of_sent hid) s hs
  case freed =>
    refine hm.about.freedOnce h fun target₁ call₁ p hc hp => ?_
    rw [hm.calls] at hc
    obtain ⟨-, rfl⟩ := Prod.mk.inj (Option.some.inj (hcall.symm.trans hc))
    exact hm.freed p hp

/-- The block that a message has had. -/
theorem Inv.block (h : Inv base size st) {p : Addr} {n : ℕ} (hp : st.malloced id = some (p, n)) (a : Addr)
    (ha : InCells p n a) : ¬InPool base size a ∧ ∀ i q k, i ≠ id → st.malloced i = some (q, k) → ¬InCells q k a :=
  ⟨h.blocks id p n hp a ha, fun i q k hi hq => h.apart id i p n q k hi.symm hp hq a ha⟩

theorem reserveSpill_cases {always : Bool} {sp sp' : SpillBytes}
    (hstep : reserveSpill c always sp hdr = some (sp', hdr')) :
    hdr'.toOutgoingMessage = hdr.toOutgoingMessage ∧ hdr'.payloadSrc = hdr.payloadSrc ∧ hdr'.phase = .spilled := by
  unfold reserveSpill at hstep
  split at hstep
  · obtain ⟨sp₁, -, hstep⟩ := Option.bind_eq_some_iff.mp hstep
    obtain ⟨rfl, rfl⟩ := Prod.mk.inj (Option.some.inj hstep)
    exact ⟨rfl, rfl, rfl⟩
  · obtain ⟨rfl, rfl⟩ := Prod.mk.inj (Option.some.inj hstep)
    exact ⟨rfl, rfl, rfl⟩

/-- The reservation of spill memory -/
theorem Inv.reserveSpill (h : Inv base size st) (hid : st.msgs id = some hdr) (hphase : hdr.phase = .new)
    {always : Bool} {spill : SpillBytes} (hstep : Spill.reserveSpill c always st.spill hdr = some (spill, hdr')) :
    Inv base size { st with spill := spill, msgs := Function.update st.msgs id (some hdr') } := by
  obtain ⟨hout, hsrc, hphase'⟩ := reserveSpill_cases hstep
  have hsize : hdr'.payloadSize = hdr.payloadSize := by rw [hout]
  have hmode : hdr'.payloadMode = hdr.payloadMode := by rw [hout]
  have hne : hdr.phase ≠ .queued := by
    rw [hphase]
    simp
  obtain ⟨target, call, hcall, hok⟩ := h.messages id hdr hid
  have hkeep : ∀ i hdr₁, Keeps base size st { st with spill := spill, msgs := Function.update st.msgs id (some hdr') }
      i hdr₁ := fun i hdr₁ => Keeps.of_mem_eq rfl rfl rfl rfl fun _ _ ho _ => ho
  have hnot : ∀ w ∈ st.waiters, w.1 ≠ id := h.ne_of_waiter hid (hok.not_pending hne)
  refine h.moves hid hcall ⟨?_, Function.update_self .., rfl, rfl, rfl, rfl, h.pool, fun _ ho => ho,
    fun i hdr₁ _ _ => hkeep i hdr₁, ?_, fun _ _ hi => .inl hi, fun hq => absurd hq hne, fun hq => absurd hq hne,
    fun _ ho => ho, fun w hw => .inl ⟨hw, hnot w hw⟩, h.waitersNodup, fun p n hp => h.block hp,
    fun p => h.freed id target call p hcall⟩
  · exact ⟨fun i hi => Function.update_of_ne hi _ _, fun _ _ => rfl, fun _ _ => rfl, fun _ _ => rfl, fun _ _ => rfl,
      le_rfl, h.lt_next hid⟩
  · cases hok.keep (hkeep id hdr) with
    | empty hz hm hf hp => exact .empty (hsize ▸ hz) (hmode ▸ hm) hf hp
    | entering hq hm hc hcarries hf hk hp hb =>
      refine .entering (by rw [hphase']; simp) (hmode ▸ hm) (hmode ▸ hc)
        ⟨hsize ▸ hcarries.pos, hsrc.trans hcarries.payloadSrc, hsize ▸ hcarries.length, hcarries.copy,
          hsize ▸ hcarries.free, hcarries.freed⟩ (hmode ▸ hf) (hmode ▸ hk) (hmode ▸ hp) hb
    | registered hq => exact absurd hq hne
    | waiting hq => exact absurd hq hne
    | placed hq => exact absurd hq hne

/-- **Popping**: `push_messages` does not take a message that waits. -/
theorem not_pending_of_push {lmbs : Endpoint} {hdr : OutgoingMessage}
    (h : (∃ m ep, Endpoint.pushIter ec { lmbs with outShortHdrs := [], outLongHdrs := [hdr] } = .sendShort m ep) ∨
      ∃ m dest ep, Endpoint.pushIter ec { lmbs with outShortHdrs := [], outLongHdrs := [hdr] } = .sendLong m dest ep) :
    hdr.payloadSize = 0 ∨ hdr.payloadMode ≠ .pending := by
  by_contra hnot
  obtain ⟨hsize, hmode⟩ := not_or.mp hnot
  have hblocked : Endpoint.pushIter ec { lmbs with outShortHdrs := [], outLongHdrs := [hdr] } = .blocked := by
    simp [Endpoint.pushIter, Endpoint.pushMessagesLong, hsize, not_not.mp hmode]
  rw [hblocked] at h
  rcases h with ⟨m, ep, h⟩ | ⟨m, dest, ep, h⟩ <;> cases h

theorem Inv.push {target : ℕ} {lmbs : Endpoint} (h : Inv base size st) (hstep : st.push ec target lmbs = some st') :
    Inv base size st' := by
  unfold State.push at hstep
  split at hstep
  · cases hstep
  · rename_i id rest hq
    obtain ⟨hdr, hid, hstep⟩ := Option.bind_eq_some_iff.mp hstep
    obtain ⟨hlt, hphase⟩ := h.queue target id (hq ▸ List.mem_cons_self)
    have hpop : (hdr.payloadSize = 0 ∨ hdr.payloadMode ≠ .pending) ∧
        st' = { st with queue := Function.update st.queue target rest, sending := id :: st.sending } := by
      split at hstep
      · rename_i m ep heq
        exact ⟨not_pending_of_push (.inl ⟨m, ep, heq⟩), (Option.some.inj hstep).symm⟩
      · rename_i m dest ep heq
        exact ⟨not_pending_of_push (.inr ⟨m, dest, ep, heq⟩), (Option.some.inj hstep).symm⟩
      · cases hstep
    obtain ⟨hwhy, rfl⟩ := hpop
    have hmode : hdr.payloadMode ≠ .pending := by
      rcases hwhy with hzero | hmode
      · -- a message without a payload does not wait
        obtain ⟨-, call, -, hok⟩ := h.messages id hdr hid
        cases hok with
        | empty _ hm => rcases hm with hm | hm <;> simp [hm]
        | entering hq => exact absurd (hphase hdr hid) hq
        | registered _ hm => simp [hm]
        | waiting _ _ hcarries => exact absurd hzero hcarries.pos.ne'
        | placed _ hm => simp [hm]
      · exact hmode
    refine { h with
      messages := fun i hdr₁ hi => ?_
      queue := fun t i hi => ?_
      sending := fun i hi => ?_
      sent := fun s hs => ?_ }
    · obtain ⟨target, call, hcall, hok⟩ := h.messages i hdr₁ hi
      exact ⟨target, call, hcall, hok.keep (Keeps.of_mem_eq rfl rfl rfl rfl fun _ _ ho _ => ho)⟩
    · rcases eq_or_ne t target with rfl | hne
      · simp only [Function.update_self] at hi
        exact h.queue t i (hq ▸ List.mem_cons_of_mem id hi)
      · simp only [Function.update_of_ne hne] at hi
        exact h.queue t i hi
    · rcases List.mem_cons.mp hi with rfl | hi
      · refine ⟨hlt, fun hdr₁ hi => ?_⟩
        obtain rfl := Option.some.inj (hid.symm.trans hi)
        exact ⟨hphase hdr hid, hmode⟩
      · exact h.sending i hi
    · obtain ⟨hm, hnone, hlt, target, call, hcall, hplaced⟩ := h.sent s hs
      exact ⟨hm, hnone, hlt, target, call, hcall, hplaced.congr rfl rfl⟩

/-- **Other threads** write to memory that is theirs. -/
theorem Inv.write (h : Inv base size st) (htop : base + size ≤ 2 ^ 64) {a : Addr} {b : Byte}
    (henv : Environment c base size st (.write a b)) : Inv base size { st with mem := Function.update st.mem a b } := by
  obtain ⟨hpriv, hcopying⟩ := henv
  have hmem : ∀ x, x ≠ a → Function.update st.mem a b x = st.mem x := fun x hx => Function.update_of_ne hx _ _
  refine { h with
    messages := fun i hdr hi => ?_
    sent := fun s hs => ?_ }
  · obtain ⟨target, call, hcall, hok⟩ := h.messages i hdr hi
    refine ⟨target, call, hcall, hok.keep ⟨rfl, rfl, rfl, fun _ _ ho _ => ho, ?_, ?_, ?_⟩⟩
    · intro hphase hmode src hsrc x hx
      refine ⟨hmem x ?_, fun hp => hp⟩
      rintro rfl
      exact hcopying ⟨i, hdr, src, hi, hphase, hmode, hsrc, hx⟩
    · intro p n hp x hx
      refine hmem x ?_
      rintro rfl
      exact hpriv (.inr ⟨i, p, n, hp, hx⟩)
    · intro o ho _ _ x hx
      refine hmem x ?_
      rintro rfl
      exact hpriv (.inl (inPool_of_owner h.pool htop ho hx))
  · obtain ⟨hm, hnone, hlt, target, call, hcall, hplaced⟩ := h.sent s hs
    exact ⟨hm, hnone, hlt, target, call, hcall, hplaced.congr rfl rfl⟩

/-- The end of `enqueue_message`: what has to hold for the message, and that the others do not notice. -/
theorem Inv.queued (h : Inv base size st) (hid : st.msgs id = some hdr) (hphase : hdr.phase = .spilled)
    {target target₀ : ℕ} (hcall : st.call id = some (target₀, call)) {mem : Memory}
    {pool : SrcDataPool.Trace (ℕ × ℕ)} {malloced : ℕ → Option (Addr × ℕ)} {freed : ℕ → List (Addr × List Byte)}
    {spill : SpillBytes}
    (hst' : st' = State.queued { st with mem := mem, pool := pool, malloced := malloced, freed := freed }
      target id spill hdr')
    (habout : About st st' id) (hpool : pool.Inv Prod.snd base size) (howners : ∀ o ∈ st.pool.owners, o ∈ pool.owners)
    (hkeep : ∀ i hdr, i ≠ id → st.msgs i = some hdr → Keeps base size st st' i hdr)
    (hok : Ok base size st' id call hdr') (hphase' : hdr'.phase = .queued)
    (hpending : pool.pool.pendingAllocations = st.pool.pool.pendingAllocations ∨
      pool.pool.pendingAllocations = st.pool.pool.pendingAllocations ++ [(id, hdr'.payloadSize)] ∧
        hdr'.payloadMode = .pending)
    (hblock : ∀ p n, malloced id = some (p, n) → ∀ a, InCells p n a → ¬InPool base size a ∧
      ∀ i q k, i ≠ id → st.malloced i = some (q, k) → ¬InCells q k a)
    (hfreed : ∀ p, Frees p call → freed id = [] ∨ ∃ bytes, freed id = [(p, bytes)]) : Inv base size st' := by
  have hne : hdr.phase ≠ .queued := by
    rw [hphase]
    simp
  have hwait : ∀ w ∈ st.waiters, w.1 ≠ id := by
    obtain ⟨-, call₀, -, hok₀⟩ := h.messages id hdr hid
    exact h.ne_of_waiter hid (hok₀.not_pending hne)
  subst hst'
  refine h.moves hid hcall ⟨habout, Function.update_self .., rfl, rfl, rfl, rfl, hpool, howners, hkeep, hok, ?_,
    fun _ => hphase', fun hq => absurd hq hne, fun _ ho => ho, ?_, ?_, hblock, hfreed⟩
  · intro t i hi
    rcases eq_or_ne t target with rfl | ht
    · simp only [State.queued, Function.update_self] at hi
      exact (List.mem_append.mp hi).imp_right fun hi => ⟨List.mem_singleton.mp hi, hphase'⟩
    · simp only [State.queued, Function.update_of_ne ht] at hi
      exact .inl hi
  · intro w hw
    have hw : w ∈ pool.pool.pendingAllocations ∨ w ∈ st.assigning.map Prod.fst := List.mem_append.mp hw
    rcases hw with hw | hw
    · rcases hpending with hp | ⟨hp, hmode⟩
      · rw [hp] at hw
        have hw := List.mem_append_left (st.assigning.map Prod.fst) hw
        exact .inl ⟨hw, hwait w hw⟩
      · rw [hp] at hw
        rcases List.mem_append.mp hw with hw | hw
        · have hw := List.mem_append_left (st.assigning.map Prod.fst) hw
          exact .inl ⟨hw, hwait w hw⟩
        · exact .inr ⟨List.mem_singleton.mp hw, hmode⟩
    · have hw := List.mem_append_right st.pool.pool.pendingAllocations hw
      exact .inl ⟨hw, hwait w hw⟩
  · show ((pool.pool.pendingAllocations ++ st.assigning.map Prod.fst).map Prod.fst).Nodup
    rcases hpending with hp | ⟨hp, -⟩
    · rw [hp]
      exact h.waitersNodup
    · have hnotin : id ∉ st.waiters.map Prod.fst := by
        intro hmem
        obtain ⟨w, hw, rfl⟩ := List.mem_map.mp hmem
        exact hwait w hw rfl
      have hperm : (st.pool.pool.pendingAllocations ++ [(id, hdr'.payloadSize)] ++ st.assigning.map Prod.fst).Perm
          ((id, hdr'.payloadSize) :: st.waiters) := by
        rw [List.append_assoc]
        exact List.perm_middle
      rw [hp, (hperm.map Prod.fst).nodup_iff, List.map_cons, List.nodup_cons]
      exact ⟨hnotin, h.waitersNodup⟩

end Steps

end Realm.Copy

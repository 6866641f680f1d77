import Realm.Lib.Block
import Realm.Lib.Int32
import Realm.Lib.Run

/-!
# Realm.AmMpi.PutMedium — one-sided medium messages (`put_medium` in `macros_ammpi/am_mpi.def`)

With `put_medium` a sender takes a number from a counter in the window of the target, puts the payload into the buffer
with that number modulo `AM_BUF_MEDIUM_COUNT`, and then sends the header.  The handler reads the buffer when the header
arrives.  Nothing tells a sender that a buffer is free again.

* `step`: the messages of any number of senders to one target.
* `Spares`: a put does not change what the handler of another message is still to read.
* `Inv`: what is in the buffers; `Inv.step`.
* `putMedium_of_run`: as long as every put spares the others, every handler reads what its sender has put.
* `Covered`, `putMedium_of_covered`: so it does when there is always a buffer for every message that is not handled.
-/

namespace Realm.PutMedium

open Lib

abbrev Byte := BitVec 8

/-- The three constants of the window.  The counter is an `int` in front of the buffers, and the window has less than
`2 ^ 31` bytes, so that the `int`s that are displacements in it do not overflow. -/
structure Buffers where
  align : ℕ
  size : ℕ
  count : ℕ
  counter_fits : 4 ≤ align
  align_lt : align < size
  count_pos : 0 < count
  fits : align + size * count < 2 ^ 31

/-- `AM_BUF_MEDIUM_ALIGN`, `AM_BUF_MEDIUM` and `AM_BUF_MEDIUM_COUNT` -/
def amBuffers : Buffers := ⟨8, 100000, 16, by decide, by decide, by decide, by decide⟩

/-- What `am_init_win` allocates -/
def Buffers.window (b : Buffers) : ℕ := b.align + b.size * b.count

/-- Where a message is: before the put, between the put and the send of the header, on its way, and handled, with what
the handler has read. -/
inductive Stage
  | fetched
  | put
  | posted
  | handled (msg : List Byte)
deriving DecidableEq

/-- `slot` is `buf_send[3]`. -/
structure Message where
  payload : List Byte
  slot : ℤ
  stage : Stage

/-- The counter at displacement `0` of the window, the buffers, and all messages in the order of their
`MPI_Fetch_and_op`. -/
structure State (b : Buffers) where
  counter : ℤ
  win : Vector Byte b.window
  msgs : List Message

variable {b : Buffers}

/-- `am_init_win` does not set the counter. -/
def State.init (counter : ℤ) (win : Vector Byte b.window) : State b := ⟨counter, win, []⟩

inductive Event
  | fetch (payload : List Byte)
  | put (k : ℕ)
  | post (k : ℕ)
  | handle (k : ℕ)

/-- `MPI_Put` at `tn_disp`; `none` outside of the window. -/
def putAt (win : Vector Byte b.window) (slot : ℤ) (payload : List Byte) : Option (Vector Byte b.window) :=
  let disp : ℤ := b.align + b.size * slot
  if 0 ≤ disp then Block.store win disp.toNat payload else none

/-- `recv_medium_oneside`: `buf_recv[3]` is unsigned. -/
def readAt (win : Vector Byte b.window) (slot : ℤ) (len : ℕ) : Option (List Byte) :=
  Block.load win (b.align + b.size * (slot % 2 ^ 32).toNat % 2 ^ 32) len

def State.setStage (s : State b) (k : ℕ) (m : Message) (stage : Stage) : State b :=
  { s with msgs := s.msgs.set k { m with stage := stage } }

def step (s : State b) : Event → Option (State b)
  | .fetch payload =>
    -- shorter ones are packed, longer ones are sent in two messages
    if payload ≠ [] ∧ payload.length < b.size then
      some { s with
        counter := int32 (s.counter + 1)
        msgs := s.msgs ++ [⟨payload, s.counter.tmod b.count, .fetched⟩] }
    else none
  | .put k => do
    let m ← s.msgs[k]?
    if m.stage = .fetched then
      let win ← putAt s.win m.slot m.payload
      return { s.setStage k m .put with win := win }
    else none
  | .post k => do
    let m ← s.msgs[k]?
    if m.stage = .put then return s.setStage k m .posted else none
  | .handle k => do
    let m ← s.msgs[k]?
    if m.stage = .posted then
      let msg ← readAt s.win m.slot m.payload.length
      return s.setStage k m (.handled msg)
    else none

/-! ## What is to be shown -/

/-- The handler of the message is still to read what was put. -/
def Stage.Live (st : Stage) : Prop := st = .put ∨ st = .posted

/-- Two messages are the same where both have bytes. -/
def Agree (l l' : List Byte) : Prop := ∀ i < l.length, i < l'.length → l[i]? = l'[i]?

/-- The number of a message gives a buffer, and a put leaves alone what is still to be read. -/
def Spares (s : State b) : Event → Prop
  | .fetch _ => 0 ≤ s.counter.tmod b.count
  | .put k => ∀ m, s.msgs[k]? = some m → ∀ j m', j ≠ k → s.msgs[j]? = some m' → m'.stage.Live → m'.slot = m.slot →
      Agree m.payload m'.payload
  | _ => True

/-- Every handler has read what was put, and every put is in the window. -/
structure Sound (s : State b) : Prop where
  read : ∀ m ∈ s.msgs, ∀ msg, m.stage = .handled msg → msg = m.payload
  inWindow : ∀ m ∈ s.msgs, m.stage = .fetched → (putAt s.win m.slot m.payload).isSome

/-! ## What is in the buffers -/

/-- The displacement of a buffer. -/
def Buffers.offset (b : Buffers) (slot : ℤ) : ℕ := b.align + b.size * slot.toNat

structure InRange (b : Buffers) (m : Message) : Prop where
  slot_nonneg : 0 ≤ m.slot
  slot_lt : m.slot < b.count
  length_lt : m.payload.length < b.size

structure Good (win : Vector Byte b.window) (m : Message) : Prop where
  inRange : InRange b m
  holds : m.stage.Live → Block.Holds win (b.offset m.slot) m.payload
  read : ∀ msg, m.stage = .handled msg → msg = m.payload

def Inv (s : State b) : Prop := ∀ (k : ℕ) (m : Message), s.msgs[k]? = some m → Good s.win m

section Inv

variable {s s' : State b} {win : Vector Byte b.window} {m m' : Message}

theorem InRange.offset_add_le (h : InRange b m) : b.offset m.slot + m.payload.length ≤ b.window := by
  have hslot := h.slot_nonneg
  have hlt := h.slot_lt
  have hlen := h.length_lt
  have hmul : b.size * (m.slot.toNat + 1) ≤ b.size * b.count := Nat.mul_le_mul_left _ (by omega)
  unfold Buffers.offset Buffers.window
  rw [Nat.mul_add, Nat.mul_one] at hmul
  omega

theorem InRange.putAt_eq (h : InRange b m) (win : Vector Byte b.window) (payload : List Byte) :
    putAt win m.slot payload = Block.store win (b.offset m.slot) payload := by
  have hdisp : (b.align + b.size * m.slot : ℤ) = (b.offset m.slot : ℕ) := by
    unfold Buffers.offset
    push_cast
    rw [Int.toNat_of_nonneg h.slot_nonneg]
  unfold putAt
  simp only [hdisp]
  rw [if_pos (Int.natCast_nonneg _), Int.toNat_natCast]

theorem InRange.readAt_eq (h : InRange b m) (win : Vector Byte b.window) (len : ℕ) :
    readAt win m.slot len = Block.load win (b.offset m.slot) len := by
  have hfits := h.offset_add_le
  have hwindow := b.fits
  have hlen := h.length_lt
  unfold Buffers.offset Buffers.window at hfits
  have hmul : m.slot.toNat ≤ b.size * m.slot.toNat := Nat.le_mul_of_pos_left _ (by omega)
  have hslot : (m.slot % 2 ^ 32).toNat = m.slot.toNat := by
    rw [Int.emod_eq_of_lt h.slot_nonneg (by have := h.slot_nonneg; omega)]
  unfold readAt Buffers.offset
  rw [hslot, Nat.mod_eq_of_lt (by omega)]

/-- Different buffers do not overlap. -/
theorem InRange.disjoint (h : InRange b m) (h' : InRange b m') (hne : m'.slot ≠ m.slot) :
    b.offset m'.slot + m'.payload.length ≤ b.offset m.slot ∨ b.offset m.slot + m.payload.length ≤ b.offset m'.slot := by
  have hlen := h.length_lt
  have hlen' := h'.length_lt
  have hslot := h.slot_nonneg
  have hslot' := h'.slot_nonneg
  unfold Buffers.offset
  rcases lt_or_gt_of_ne hne with hlt | hlt
  · have hmul : b.size * (m'.slot.toNat + 1) ≤ b.size * m.slot.toNat := Nat.mul_le_mul_left _ (by omega)
    rw [Nat.mul_add, Nat.mul_one] at hmul
    omega
  · have hmul : b.size * (m.slot.toNat + 1) ≤ b.size * m'.slot.toNat := Nat.mul_le_mul_left _ (by omega)
    rw [Nat.mul_add, Nat.mul_one] at hmul
    omega

/-- A put of the same bytes does no harm. -/
theorem holds_of_agree {win' : Vector Byte b.window} {off : ℕ} {l l' : List Byte}
    (hstore : Block.store win off l = some win') (hagree : Agree l l') (hholds : Block.Holds win off l') :
    Block.Holds win' off l' := by
  intro i hi
  rw [Block.getElem?_store hstore]
  split
  · rename_i hlt
    rw [Nat.add_sub_cancel_left]
    exact hagree i (by omega) hi
  · exact hholds i hi

theorem getElem?_setStage {k j : ℕ} {stage : Stage} (hm : s.msgs[k]? = some m)
    (hj : (s.setStage k m stage).msgs[j]? = some m') :
    j = k ∧ m' = { m with stage := stage } ∨ j ≠ k ∧ s.msgs[j]? = some m' := by
  unfold State.setStage at hj
  by_cases hjk : j = k
  · subst hjk
    simp only [List.getElem?_set_self (List.getElem?_eq_some_iff.mp hm).1] at hj
    exact .inl ⟨rfl, (Option.some.inj hj).symm⟩
  · simp only [List.getElem?_set_ne (Ne.symm hjk)] at hj
    exact .inr ⟨hjk, hj⟩

theorem getElem?_concat {l : List Message} {j : ℕ} (hj : (l ++ [m])[j]? = some m') :
    j = l.length ∧ m' = m ∨ l[j]? = some m' := by
  rcases Nat.lt_trichotomy j l.length with hlt | heq | hlt
  · rw [List.getElem?_append_left hlt] at hj
    exact .inr hj
  · rw [heq, List.getElem?_concat_length] at hj
    exact .inl ⟨heq, (Option.some.inj hj).symm⟩
  · rw [List.getElem?_eq_none (by rw [List.length_append, List.length_singleton]; omega)] at hj
    cases hj

/-- **One step** -/
theorem Inv.step (h : Inv s) {e : Event} (hspares : Spares s e) (hstep : step s e = some s') : Inv s' := by
  cases e with
  | fetch payload =>
    obtain ⟨⟨-, hlen⟩, heq⟩ := Option.ite_none_right_eq_some.mp hstep
    obtain rfl := Option.some.inj heq
    intro k m hm
    rcases getElem?_concat hm with ⟨rfl, rfl⟩ | hk
    · refine ⟨⟨hspares, Int.tmod_lt_of_pos _ (Int.natCast_pos.mpr b.count_pos), hlen⟩, ?_, ?_⟩
      · rintro (hlive | hlive) <;> cases hlive
      · intro msg hmsg
        cases hmsg
    · exact h k m hk
  | put k =>
    obtain ⟨m, hm, hstep⟩ := Option.bind_eq_some_iff.mp hstep
    obtain ⟨-, hstep⟩ := Option.ite_none_right_eq_some.mp hstep
    obtain ⟨win, hwin, heq⟩ := Option.bind_eq_some_iff.mp hstep
    obtain rfl := Option.some.inj heq
    have hgood := h k m hm
    rw [hgood.inRange.putAt_eq] at hwin
    intro j m' hm'
    rcases getElem?_setStage hm hm' with ⟨rfl, rfl⟩ | ⟨hjk, hj⟩
    · refine ⟨⟨hgood.inRange.1, hgood.inRange.2, hgood.inRange.3⟩, fun _ => Block.holds_store hwin, fun msg hmsg => ?_⟩
      cases hmsg
    · have hgood' := h j m' hj
      refine ⟨hgood'.inRange, fun hlive => ?_, hgood'.read⟩
      by_cases hslot : m'.slot = m.slot
      · have hholds := hgood'.holds hlive
        rw [hslot] at hholds ⊢
        exact holds_of_agree hwin (hspares m hm j m' hjk hj hlive hslot) hholds
      · exact Block.holds_store_frame hwin (hgood.inRange.disjoint hgood'.inRange hslot) (hgood'.holds hlive)
  | post k =>
    obtain ⟨m, hm, hstep⟩ := Option.bind_eq_some_iff.mp hstep
    obtain ⟨hput, heq⟩ := Option.ite_none_right_eq_some.mp hstep
    obtain rfl := Option.some.inj heq
    have hgood := h k m hm
    intro j m' hm'
    rcases getElem?_setStage hm hm' with ⟨rfl, rfl⟩ | ⟨-, hj⟩
    · refine ⟨⟨hgood.inRange.1, hgood.inRange.2, hgood.inRange.3⟩, fun _ => hgood.holds (.inl hput), fun msg hmsg => ?_⟩
      cases hmsg
    · exact h j m' hj
  | handle k =>
    obtain ⟨m, hm, hstep⟩ := Option.bind_eq_some_iff.mp hstep
    obtain ⟨hposted, hstep⟩ := Option.ite_none_right_eq_some.mp hstep
    obtain ⟨msg, hmsg, heq⟩ := Option.bind_eq_some_iff.mp hstep
    obtain rfl := Option.some.inj heq
    have hgood := h k m hm
    rw [hgood.inRange.readAt_eq, Block.load_of_holds (hgood.holds (.inr hposted)) hgood.inRange.offset_add_le] at hmsg
    intro j m' hm'
    rcases getElem?_setStage hm hm' with ⟨rfl, rfl⟩ | ⟨-, hj⟩
    · refine ⟨⟨hgood.inRange.1, hgood.inRange.2, hgood.inRange.3⟩, ?_, ?_⟩
      · rintro (hlive | hlive) <;> cases hlive
      · intro msg' hmsg'
        cases hmsg'
        exact (Option.some.inj hmsg).symm
    · exact h j m' hj

theorem inv_init (counter : ℤ) (win : Vector Byte b.window) : Inv (.init counter win : State b) := by
  intro k m hm
  cases hm

theorem Inv.sound (h : Inv s) : Sound s := by
  refine ⟨fun m hm => ?_, fun m hm _ => ?_⟩
  · obtain ⟨k, hk⟩ := List.getElem?_of_mem hm
    exact (h k m hk).read
  · obtain ⟨k, hk⟩ := List.getElem?_of_mem hm
    rw [(h k m hk).inRange.putAt_eq]
    obtain ⟨win, hwin⟩ := Block.store_of_le s.win (h k m hk).inRange.offset_add_le
    rw [hwin]
    rfl

/-! ## A put that does not spare the others -/

/-- A negative number does not give a buffer. -/
theorem not_sound_fetch {payload : List Byte} (hneg : s.counter.tmod b.count < 0)
    (hstep : step s (.fetch payload) = some s') : ¬Sound s' := by
  intro hsound
  obtain ⟨⟨-, hlen⟩, heq⟩ := Option.ite_none_right_eq_some.mp hstep
  obtain rfl := Option.some.inj heq
  have hin := hsound.inWindow ⟨payload, s.counter.tmod b.count, .fetched⟩
    (List.mem_append_right _ (List.mem_singleton_self _)) rfl
  have hdisp : ¬0 ≤ (b.align + b.size * s.counter.tmod b.count : ℤ) := by
    have halign := b.align_lt
    have hmul : (b.size : ℤ) * s.counter.tmod b.count ≤ b.size * (-1) :=
      Int.mul_le_mul_of_nonneg_left (by omega) (Int.natCast_nonneg _)
    omega
  unfold putAt at hin
  simp only [if_neg hdisp] at hin
  cases hin

theorem getElem?_setStage_self {k : ℕ} (hm : s.msgs[k]? = some m) (stage : Stage) :
    (s.setStage k m stage).msgs[k]? = some { m with stage := stage } :=
  List.getElem?_set_self (List.getElem?_eq_some_iff.mp hm).1

/-- The handler of a message whose buffer has been written over reads something else. -/
theorem misread_posted {j i : ℕ} (hj : s.msgs[j]? = some m) (hrange : InRange b m) (hposted : m.stage = .posted)
    (hi : i < m.payload.length) (hne : s.win[b.offset m.slot + i]? ≠ m.payload[i]?) :
    ∃ s', step s (.handle j) = some s' ∧ ¬Sound s' := by
  obtain ⟨msg, hmsg, -⟩ := Block.load_of_le s.win hrange.offset_add_le
  refine ⟨s.setStage j m (.handled msg), ?_, fun hsound => hne ?_⟩
  · simp only [step, hj, Option.bind_eq_bind, Option.bind_some, if_pos hposted, hrange.readAt_eq, hmsg]
    rfl
  · have hread := hsound.read { m with stage := .handled msg }
      (List.mem_of_getElem? (getElem?_setStage_self hj _)) msg rfl
    rw [← Block.getElem?_of_load hmsg hi, hread]

theorem misread_live {j i : ℕ} (hj : s.msgs[j]? = some m) (hrange : InRange b m) (hlive : m.stage.Live)
    (hi : i < m.payload.length) (hne : s.win[b.offset m.slot + i]? ≠ m.payload[i]?) :
    ∃ es s', run step s es = some s' ∧ ¬Sound s' := by
  rcases hlive with hput | hposted
  · have hstep : step s (.post j) = some (s.setStage j m .posted) := by
      simp only [step, hj, Option.bind_eq_bind, Option.bind_some, if_pos hput]
      rfl
    obtain ⟨s', hs', hnot⟩ := misread_posted (getElem?_setStage_self hj .posted)
      ⟨hrange.1, hrange.2, hrange.3⟩ rfl hi hne
    exact ⟨[.post j, .handle j], s', run_cons_eq_some.mpr ⟨_, hstep, run_cons_eq_some.mpr ⟨s', hs', rfl⟩⟩, hnot⟩
  · obtain ⟨s', hs', hnot⟩ := misread_posted hj hrange hposted hi hne
    exact ⟨[.handle j], s', run_cons_eq_some.mpr ⟨s', hs', rfl⟩, hnot⟩

/-- A put that changes what another handler is still to read. -/
theorem misread_of_put (h : Inv s) {k j i : ℕ} (hk : s.msgs[k]? = some m) (hj : s.msgs[j]? = some m') (hjk : j ≠ k)
    (hlive : m'.stage.Live) (hslot : m'.slot = m.slot) (hi : i < m.payload.length) (hi' : i < m'.payload.length)
    (hne : m.payload[i]? ≠ m'.payload[i]?) (hstep : step s (.put k) = some s') :
    ∃ es s'', run step s' es = some s'' ∧ ¬Sound s'' := by
  have hrange := (h k m hk).inRange
  simp only [step, hk, Option.bind_eq_bind, Option.bind_some] at hstep
  obtain ⟨-, hstep⟩ := Option.ite_none_right_eq_some.mp hstep
  obtain ⟨win, hwin, heq⟩ := Option.bind_eq_some_iff.mp hstep
  obtain rfl := Option.some.inj heq
  rw [hrange.putAt_eq] at hwin
  refine misread_live (m := m') (i := i) (j := j) ?_ (h j m' hj).inRange hlive hi' ?_
  · exact (List.getElem?_set_ne (Ne.symm hjk)).trans hj
  · rw [hslot, Block.getElem?_store hwin, if_pos ⟨Nat.le_add_right _ _, Nat.add_lt_add_left hi _⟩,
      Nat.add_sub_cancel_left]
    exact hne

theorem exists_not_sound (h : Inv s) {e : Event} (hnot : ¬Spares s e) (hstep : step s e = some s') :
    ∃ es s'', run step s' es = some s'' ∧ ¬Sound s'' := by
  cases e with
  | fetch payload => exact ⟨[], s', rfl, not_sound_fetch (Int.not_le.mp hnot) hstep⟩
  | put k =>
    simp only [Spares, not_forall, Agree] at hnot
    obtain ⟨m, hk, j, m', hjk, hj, hlive, hslot, i, hi, hi', hne⟩ := hnot
    exact misread_of_put h hk hj hjk hlive hslot hi hi' hne hstep
  | post k => exact absurd trivial hnot
  | handle k => exact absurd trivial hnot

end Inv

/-- **One-sided medium messages** of any number of senders: as long as every put spares the others, every handler reads
what was put; and a run that leaves this schedule by one step can go on to a wrong read. -/
theorem putMedium_of_run (b : Buffers) (counter : ℤ) (win : Vector Byte b.window) (es : List Event) (s : State b)
    (hspares : Guarded step Spares (.init counter win) es) (hrun : run step (.init counter win) es = some s) :
    Sound s ∧ ∀ e s', ¬Spares s e → step s e = some s' → ∃ es' s'', run step s' es' = some s'' ∧ ¬Sound s'' := by
  have hinv : Inv s :=
    run_inv_guarded (I := Inv) (fun _ _ _ h hC hs => h.step hC hs) (inv_init counter win) hspares hrun
  exact ⟨hinv.sound, fun e s' hnot hstep => exists_not_sound hinv hnot hstep⟩

/-! ## Steps that can be taken -/

/-- The event is the next one of its message. -/
def Event.Due (b : Buffers) (msgs : List Message) : Event → Prop
  | .fetch payload => payload ≠ [] ∧ payload.length < b.size
  | .put k => ∃ m, msgs[k]? = some m ∧ m.stage = .fetched
  | .post k => ∃ m, msgs[k]? = some m ∧ m.stage = .put
  | .handle k => ∃ m, msgs[k]? = some m ∧ m.stage = .posted

/-- The messages after a step in which nothing fails and the handler reads the payload. -/
def Event.after (b : Buffers) (counter : ℤ) (msgs : List Message) : Event → List Message
  | .fetch payload => msgs ++ [⟨payload, counter.tmod b.count, .fetched⟩]
  | .put k => msgs.modify k fun m => { m with stage := .put }
  | .post k => msgs.modify k fun m => { m with stage := .posted }
  | .handle k => msgs.modify k fun m => { m with stage := .handled m.payload }

def Event.counter (counter : ℤ) : Event → ℤ
  | .fetch _ => int32 (counter + 1)
  | _ => counter

theorem set_eq_modify {l : List Message} {k : ℕ} {m : Message} (hk : l[k]? = some m) (f : Message → Message) :
    l.set k (f m) = l.modify k f := by
  refine List.ext_getElem? fun j => ?_
  rw [List.getElem?_modify, List.getElem?_set]
  split
  · rename_i heq
    subst heq
    rw [hk, if_pos (List.getElem?_eq_some_iff.mp hk).1]
    rfl
  · exact (id_map' l[j]?).symm

/-- **Nothing fails**: a message can take its next step, and its handler reads the payload. -/
theorem Inv.exists_step {s : State b} (h : Inv s) {msgs : List Message} (hmsgs : s.msgs = msgs) {counter : ℤ}
    (hcounter : s.counter = counter) {e : Event} (hdue : e.Due b msgs) :
    ∃ s', PutMedium.step s e = some s' ∧ s'.msgs = e.after b counter msgs ∧ s'.counter = e.counter counter := by
  subst hmsgs hcounter
  cases e with
  | fetch payload => exact ⟨_, if_pos hdue, rfl, rfl⟩
  | put k =>
    obtain ⟨m, hk, hfetched⟩ := hdue
    have hrange := (h k m hk).inRange
    obtain ⟨win, hstore⟩ := Block.store_of_le s.win hrange.offset_add_le
    refine ⟨{ s.setStage k m .put with win := win }, ?_, set_eq_modify hk fun m => { m with stage := .put }, rfl⟩
    rw [PutMedium.step, hk, Option.bind_eq_bind, Option.bind_some, if_pos hfetched, hrange.putAt_eq, hstore]
    rfl
  | post k =>
    obtain ⟨m, hk, hput⟩ := hdue
    refine ⟨s.setStage k m .posted, ?_, set_eq_modify hk fun m => { m with stage := .posted }, rfl⟩
    rw [PutMedium.step, hk, Option.bind_eq_bind, Option.bind_some, if_pos hput]
    rfl
  | handle k =>
    obtain ⟨m, hk, hposted⟩ := hdue
    have hgood := h k m hk
    have hload := Block.load_of_holds (hgood.holds (.inr hposted)) hgood.inRange.offset_add_le
    refine ⟨s.setStage k m (.handled m.payload), ?_,
      set_eq_modify hk fun m => { m with stage := .handled m.payload }, rfl⟩
    rw [PutMedium.step, hk, Option.bind_eq_bind, Option.bind_some, if_pos hposted, hgood.inRange.readAt_eq, hload]
    rfl

/-- Two messages that are under way at the same time. -/
theorem putMedium_of_run_two :
    ∃ (win : Vector Byte amBuffers.window) (es : List Event) (s : State amBuffers),
      run step (.init 0 win) es = some s ∧ s.msgs.map (·.stage) = [.handled [1, 2], .handled [3]] ∧ Sound s := by
  have hone : int32 (0 + 1) = 1 := int32_eq_self (by decide) (by decide)
  let s₀ : State amBuffers := .init 0 (.replicate _ 0)
  have i₀ : Inv s₀ := inv_init 0 _
  have g₀ : Spares s₀ (.fetch [1, 2]) := Int.le_refl 0
  obtain ⟨s₁, h₁, m₁, c₁⟩ := i₀.exists_step (e := .fetch [1, 2]) rfl rfl ⟨by decide, by decide⟩
  have i₁ := i₀.step g₀ h₁
  have g₁ : Spares s₁ (.fetch [3]) := by
    show 0 ≤ s₁.counter.tmod _
    rw [c₁.trans hone]
    exact Int.one_nonneg
  obtain ⟨s₂, h₂, m₂, c₂⟩ := i₁.exists_step (e := .fetch [3]) m₁ (c₁.trans hone) ⟨by decide, by decide⟩
  have i₂ := i₁.step g₁ h₂
  have g₂ : Spares s₂ (.put 1) := by
    rintro m hm j m' hjk hj hlive
    rw [m₂] at hj
    obtain _ | _ | j := j <;> cases hj <;> obtain hlive | hlive := hlive <;> cases hlive
  obtain ⟨s₃, h₃, m₃, c₃⟩ := i₂.exists_step (e := .put 1) m₂ rfl ⟨_, rfl, rfl⟩
  have i₃ := i₂.step g₂ h₃
  have g₃ : Spares s₃ (.put 0) := by
    rintro m hm j m' hjk hj hlive hslot
    rw [m₃] at hm hj
    cases hm
    obtain _ | _ | j := j <;> cases hj
    · exact absurd rfl hjk
    · exact absurd hslot (by decide)
  obtain ⟨s₄, h₄, m₄, c₄⟩ := i₃.exists_step (e := .put 0) m₃ rfl ⟨_, rfl, rfl⟩
  have i₄ := i₃.step g₃ h₄
  obtain ⟨s₅, h₅, m₅, c₅⟩ := i₄.exists_step (e := .post 1) m₄ rfl ⟨_, rfl, rfl⟩
  have i₅ := i₄.step (e := .post 1) trivial h₅
  obtain ⟨s₆, h₆, m₆, c₆⟩ := i₅.exists_step (e := .post 0) m₅ rfl ⟨_, rfl, rfl⟩
  have i₆ := i₅.step (e := .post 0) trivial h₆
  obtain ⟨s₇, h₇, m₇, c₇⟩ := i₆.exists_step (e := .handle 0) m₆ rfl ⟨_, rfl, rfl⟩
  have i₇ := i₆.step (e := .handle 0) trivial h₇
  obtain ⟨s₈, h₈, m₈, c₈⟩ := i₇.exists_step (e := .handle 1) m₇ rfl ⟨_, rfl, rfl⟩
  let es : List Event := [.fetch [1, 2], .fetch [3], .put 1, .put 0, .post 1, .post 0, .handle 0, .handle 1]
  have hrun : run step s₀ es = some s₈ := by
    simp only [es, run_cons, h₁, h₂, h₃, h₄, h₅, h₆, h₇, h₈, Option.bind_some, run_nil]
  have hspares : Guarded step Spares s₀ es :=
    guarded_cons h₁ g₀ (guarded_cons h₂ g₁ (guarded_cons h₃ g₂ (guarded_cons h₄ g₃ (guarded_cons h₅ trivial
      (guarded_cons h₆ trivial (guarded_cons h₇ trivial (guarded_cons h₈ trivial trivial)))))))
  refine ⟨_, es, s₈, hrun, ?_, (putMedium_of_run amBuffers 0 _ es s₈ hspares hrun).1⟩
  rw [m₈]
  rfl

/-! ## Numbers in order

`AM_BUF_MEDIUM_COUNT` is to be large enough to cover the outstanding messages of a target.  It is when nobody takes a
number before the message `count` numbers earlier has been handled. -/

def Message.Handled (m : Message) : Prop := ∃ msg, m.stage = .handled msg

/-- The buffers cover the messages that have not been handled, and the counter has not become negative. -/
def Covered (s : State b) : Event → Prop
  | .fetch _ => 0 ≤ s.counter ∧ ∀ j m, s.msgs[j]? = some m → j + b.count ≤ s.msgs.length → m.Handled
  | _ => True

/-- The messages have consecutive numbers from `c` on, and those not handled are among the last `count`. -/
structure Seq (c : ℤ) (s : State b) : Prop where
  counter_lt : s.counter < 2 ^ 31
  counter_eq : 0 ≤ s.counter → s.counter = c + s.msgs.length
  slot_eq : ∀ (j : ℕ) m, s.msgs[j]? = some m → m.slot = (c + j).tmod b.count ∧ 0 ≤ c + j
  recent : ∀ j m, s.msgs[j]? = some m → ¬m.Handled → s.msgs.length ≤ j + b.count

section Covered

variable {s s' : State b} {c : ℤ}

theorem Live.not_handled {m : Message} (hlive : m.stage.Live) : ¬m.Handled := by
  rintro ⟨msg, hmsg⟩
  rcases hlive with hlive | hlive <;> cases hlive.symm.trans hmsg

/-- Two messages that are not handled have different buffers. -/
theorem Seq.slot_ne (h : Seq c s) {k j : ℕ} {m m' : Message} (hk : s.msgs[k]? = some m) (hj : s.msgs[j]? = some m')
    (hm : ¬m.Handled) (hm' : ¬m'.Handled) (hjk : j ≠ k) : m'.slot ≠ m.slot := by
  intro heq
  obtain ⟨hslot, hnonneg⟩ := h.slot_eq k m hk
  obtain ⟨hslot', hnonneg'⟩ := h.slot_eq j m' hj
  have hklt := (List.getElem?_eq_some_iff.mp hk).1
  have hjlt := (List.getElem?_eq_some_iff.mp hj).1
  have hrecent := h.recent k m hk hm
  have hrecent' := h.recent j m' hj hm'
  rw [hslot, hslot', Int.tmod_eq_emod_of_nonneg hnonneg, Int.tmod_eq_emod_of_nonneg hnonneg',
    Int.emod_eq_emod_iff_emod_sub_eq_zero] at heq
  have hdvd : (b.count : ℤ) ∣ j - k := by
    have hsub : (c + j - (c + k) : ℤ) = j - k := by omega
    exact hsub ▸ Int.dvd_of_emod_eq_zero heq
  have hzero : (j - k : ℤ) = 0 := Int.eq_zero_of_abs_lt_dvd hdvd (abs_lt.mpr ⟨by omega, by omega⟩)
  omega

theorem Seq.spares (h : Seq c s) {e : Event} (hcovered : Covered s e) (hstep : step s e = some s') : Spares s e := by
  cases e with
  | fetch payload => exact Int.tmod_nonneg _ hcovered.1
  | put k =>
    intro m hm j m' hjk hj hlive hslot
    obtain ⟨m₁, hm₁, hstep⟩ := Option.bind_eq_some_iff.mp hstep
    obtain rfl : m₁ = m := Option.some.inj (hm₁.symm.trans hm)
    obtain ⟨hfetched, -⟩ := Option.ite_none_right_eq_some.mp hstep
    have hnot : ¬m₁.Handled := by
      rintro ⟨msg, hmsg⟩
      cases hfetched.symm.trans hmsg
    exact absurd hslot (h.slot_ne hm hj hnot (Live.not_handled hlive) hjk)
  | post k => trivial
  | handle k => trivial

theorem Seq.setStage (h : Seq c s) {k : ℕ} {m : Message} {stage : Stage} {win : Vector Byte b.window}
    (hm : s.msgs[k]? = some m) (hnot : ¬m.Handled) : Seq c { s.setStage k m stage with win := win } := by
  have hlen : (s.setStage k m stage).msgs.length = s.msgs.length := List.length_set
  refine ⟨h.counter_lt, fun hnonneg => ?_, fun j m' hm' => ?_, fun j m' hm' hnot' => ?_⟩
  · exact (h.counter_eq hnonneg).trans (by rw [hlen])
  · rcases getElem?_setStage hm hm' with ⟨rfl, rfl⟩ | ⟨-, hj⟩
    · exact h.slot_eq j m hm
    · exact h.slot_eq j m' hj
  · rcases getElem?_setStage hm hm' with ⟨rfl, rfl⟩ | ⟨-, hj⟩
    · exact hlen.trans_le (h.recent j m hm hnot)
    · exact hlen.trans_le (h.recent j m' hj hnot')

theorem Seq.step (h : Seq c s) {e : Event} (hcovered : Covered s e) (hstep : step s e = some s') : Seq c s' := by
  cases e with
  | fetch payload =>
    obtain ⟨-, heq⟩ := Option.ite_none_right_eq_some.mp hstep
    obtain rfl := Option.some.inj heq
    obtain ⟨hnonneg, hhandled⟩ := hcovered
    have hcounter := h.counter_eq hnonneg
    have hlt := h.counter_lt
    refine ⟨int32_lt _, fun hnonneg' => ?_, fun j m hm => ?_, fun j m hm hnot => ?_⟩
    · by_cases hlast : s.counter + 1 < 2 ^ 31
      · refine (int32_eq_self (by omega) hlast).trans ?_
        simp only [List.length_append, List.length_singleton, Int.natCast_add]
        omega
      · -- after `2 ^ 31 - 1` the counter is negative
        have hwrap : s.counter + 1 = 2 ^ 31 := by omega
        simp only [hwrap] at hnonneg'
        exact absurd hnonneg' (by decide +kernel)
    · rcases getElem?_concat hm with ⟨rfl, rfl⟩ | hj
      · exact ⟨congrArg (Int.tmod · b.count) hcounter, hcounter ▸ hnonneg⟩
      · exact h.slot_eq j m hj
    · rw [List.length_append, List.length_singleton]
      rcases getElem?_concat hm with ⟨rfl, rfl⟩ | hj
      · have hcount := b.count_pos
        omega
      · by_contra hold
        exact hnot (hhandled j m hj (by omega))
  | put k =>
    obtain ⟨m, hm, hstep⟩ := Option.bind_eq_some_iff.mp hstep
    obtain ⟨hfetched, hstep⟩ := Option.ite_none_right_eq_some.mp hstep
    obtain ⟨win, -, heq⟩ := Option.bind_eq_some_iff.mp hstep
    obtain rfl := Option.some.inj heq
    exact h.setStage hm (by rintro ⟨msg, hmsg⟩; cases hfetched.symm.trans hmsg)
  | post k =>
    obtain ⟨m, hm, hstep⟩ := Option.bind_eq_some_iff.mp hstep
    obtain ⟨hput, heq⟩ := Option.ite_none_right_eq_some.mp hstep
    obtain rfl := Option.some.inj heq
    exact h.setStage hm (Live.not_handled (.inl hput))
  | handle k =>
    obtain ⟨m, hm, hstep⟩ := Option.bind_eq_some_iff.mp hstep
    obtain ⟨hposted, hstep⟩ := Option.ite_none_right_eq_some.mp hstep
    obtain ⟨msg, -, heq⟩ := Option.bind_eq_some_iff.mp hstep
    obtain rfl := Option.some.inj heq
    exact h.setStage hm (Live.not_handled (.inr hposted))

end Covered

/-- **One-sided medium messages** of any number of senders, who take a number only when the message `count` numbers
earlier has been handled: every handler reads what was put, until the counter has become negative. -/
theorem putMedium_of_covered (b : Buffers) (counter : ℤ) (win : Vector Byte b.window) (es : List Event) (s : State b)
    (hint : counter < 2 ^ 31) (hcovered : Guarded step Covered (.init counter win) es)
    (hrun : run step (.init counter win) es = some s) : Sound s := by
  have hinv : Inv s ∧ Seq counter s := by
    refine run_inv_guarded (I := fun s => Inv s ∧ Seq counter s) ?_ ⟨inv_init counter win, ?_⟩ hcovered hrun
    · intro s e s' h hC hs
      exact ⟨h.1.step (h.2.spares hC hs) hs, h.2.step hC hs⟩
    · refine ⟨hint, fun _ => (Int.add_zero _).symm, fun j m hm => ?_, fun j m hm => ?_⟩ <;> cases hm
  exact hinv.1.sound

/-- Two messages, one after the other. -/
theorem putMedium_of_covered_two :
    ∃ (win : Vector Byte amBuffers.window) (es : List Event) (s : State amBuffers),
      run step (.init 0 win) es = some s ∧ s.msgs.map (·.stage) = [.handled [1, 2], .handled [3]] ∧ Sound s := by
  have hone : int32 (0 + 1) = 1 := int32_eq_self (by decide) (by decide)
  let s₀ : State amBuffers := .init 0 (.replicate _ 0)
  have i₀ : Inv s₀ := inv_init 0 _
  obtain ⟨s₁, h₁, m₁, c₁⟩ := i₀.exists_step (e := .fetch [1, 2]) rfl rfl ⟨by decide, by decide⟩
  have i₁ := i₀.step (e := .fetch [1, 2]) (Int.le_refl 0) h₁
  have g₁ : Spares s₁ (.put 0) := by
    rintro m hm j m' hjk hj
    rw [m₁] at hj
    obtain _ | j := j <;> cases hj
    exact absurd rfl hjk
  obtain ⟨s₂, h₂, m₂, c₂⟩ := i₁.exists_step (e := .put 0) m₁ rfl ⟨_, rfl, rfl⟩
  have i₂ := i₁.step g₁ h₂
  obtain ⟨s₃, h₃, m₃, c₃⟩ := i₂.exists_step (e := .post 0) m₂ rfl ⟨_, rfl, rfl⟩
  have i₃ := i₂.step (e := .post 0) trivial h₃
  obtain ⟨s₄, h₄, m₄, c₄⟩ := i₃.exists_step (e := .handle 0) m₃ rfl ⟨_, rfl, rfl⟩
  have i₄ := i₃.step (e := .handle 0) trivial h₄
  have hcounter : s₄.counter = 1 := c₄.trans (c₃.trans (c₂.trans (c₁.trans hone)))
  have g₄ : Spares s₄ (.fetch [3]) := by
    show 0 ≤ s₄.counter.tmod _
    rw [hcounter]
    exact Int.one_nonneg
  have hcovered₄ : Covered s₄ (.fetch [3]) := by
    refine ⟨hcounter ▸ Int.one_nonneg, fun j m hm _ => ?_⟩
    rw [m₄] at hm
    obtain _ | j := j <;> cases hm
    exact ⟨_, rfl⟩
  obtain ⟨s₅, h₅, m₅, c₅⟩ := i₄.exists_step (e := .fetch [3]) m₄ hcounter ⟨by decide, by decide⟩
  have i₅ := i₄.step g₄ h₅
  have g₅ : Spares s₅ (.put 1) := by
    rintro m hm j m' hjk hj hlive
    rw [m₅] at hj
    obtain _ | _ | j := j <;> cases hj
    · obtain hlive | hlive := hlive <;> cases hlive
    · exact absurd rfl hjk
  obtain ⟨s₆, h₆, m₆, c₆⟩ := i₅.exists_step (e := .put 1) m₅ rfl ⟨_, rfl, rfl⟩
  have i₆ := i₅.step g₅ h₆
  obtain ⟨s₇, h₇, m₇, c₇⟩ := i₆.exists_step (e := .post 1) m₆ rfl ⟨_, rfl, rfl⟩
  have i₇ := i₆.step (e := .post 1) trivial h₇
  obtain ⟨s₈, h₈, m₈, c₈⟩ := i₇.exists_step (e := .handle 1) m₇ rfl ⟨_, rfl, rfl⟩
  let es : List Event := [.fetch [1, 2], .put 0, .post 0, .handle 0, .fetch [3], .put 1, .post 1, .handle 1]
  have hrun : run step s₀ es = some s₈ := by
    simp only [es, run_cons, h₁, h₂, h₃, h₄, h₅, h₆, h₇, h₈, Option.bind_some, run_nil]
  have hcovered₀ : Covered s₀ (.fetch [1, 2]) := by
    refine ⟨Int.le_refl 0, fun j m hm => ?_⟩
    cases hm
  have hcovered : Guarded step Covered s₀ es :=
    guarded_cons h₁ hcovered₀ (guarded_cons h₂ trivial (guarded_cons h₃ trivial (guarded_cons h₄ trivial
      (guarded_cons h₅ hcovered₄ (guarded_cons h₆ trivial (guarded_cons h₇ trivial
        (guarded_cons h₈ trivial trivial)))))))
  refine ⟨_, es, s₈, hrun, ?_, putMedium_of_covered amBuffers 0 _ es s₈ (by decide) hcovered hrun⟩
  rw [m₈]
  rfl

end Realm.PutMedium

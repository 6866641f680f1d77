import Mathlib.Logic.Function.Basic
import Realm.Lib.Run
import Realm.AmMpi.Codec

/-!
# Realm.AmMpi.ThreadId — the identities of sending threads (`get_thread_id` in `am_mpi.def`)

The first message that a thread sends gives it a `thread_id`, which goes into the tags of its messages.  It increments
`num_threads` and then reads it, in two separate accesses, so that another thread may come in between.

* `step`: the accesses of any number of threads, and the tags they make.
* `Unique`: the identities and the tags of different threads are different.
* `Separated`: between two reads of `num_threads` there is an increment.
* `unique_iff_separated`: this is what it takes, for fewer than `2 ^ 22` threads.
-/

namespace Realm.ThreadId

open Lib AmMpi

/-- Where a thread is in `get_thread_id`. -/
inductive Phase
  | start
  | incremented
  | completed
deriving DecidableEq

/-- `num_threads`, the thread-local variables of all threads, and the tags that were made, with their threads. -/
structure State where
  numThreads : Word
  thread : ℕ → Thread
  phase : ℕ → Phase
  sent : List (ℕ × Word)

def State.init : State := ⟨0, fun _ => ⟨0, 0⟩, fun _ => .start, []⟩

inductive Event
  | inc (t : ℕ)
  | read (t : ℕ)
  | send (t : ℕ)

/-- `num_threads++` -/
def State.inc (st : State) (t : ℕ) : State :=
  { st with numThreads := st.numThreads + 1, phase := Function.update st.phase t .incremented }

/-- `thread_id = num_threads` -/
def State.read (st : State) (t : ℕ) : State :=
  { st with
    thread := Function.update st.thread t { st.thread t with threadId := st.numThreads }
    phase := Function.update st.phase t .completed }

/-- `set_am_msg_tag` -/
def State.send (st : State) (t : ℕ) : State :=
  let (th, msgTag) := setAmMsgTag (st.thread t)
  { st with thread := Function.update st.thread t th, sent := (t, msgTag) :: st.sent }

/-- A thread whose `thread_id` is not 0 goes on to `set_am_msg_tag`. -/
def step (st : State) : Event → Option State
  | .inc t => if (st.thread t).threadId = 0 ∧ st.phase t ≠ .incremented then some (st.inc t) else none
  | .read t => if st.phase t = .incremented then some (st.read t) else none
  | .send t => if (st.thread t).threadId ≠ 0 then some (st.send t) else none

/-- The threads that have completed `get_thread_id` have different identities, none of them 0, and the tags of
different threads are different. -/
structure Unique (st : State) : Prop where
  nonzero : ∀ t, st.phase t = .completed → (st.thread t).threadId ≠ 0
  distinct : ∀ t u, t ≠ u → st.phase t = .completed → st.phase u = .completed →
    (st.thread t).threadId ≠ (st.thread u).threadId
  tags : ∀ t u a b, t ≠ u → (t, a) ∈ st.sent → (u, b) ∈ st.sent → a ≠ b

/-- `fresh` says that `num_threads` has been incremented since it was read last. -/
def separated : Bool → List Event → Prop
  | _, [] => True
  | _, .inc _ :: es => separated true es
  | fresh, .read _ :: es => fresh = true ∧ separated false es
  | fresh, .send _ :: es => separated fresh es

/-- Between two reads of `num_threads` there is an increment. -/
def Separated (es : List Event) : Prop := separated true es

/-- The number of increments. -/
def incs : List Event → ℕ
  | [] => 0
  | .inc _ :: es => incs es + 1
  | _ :: es => incs es

/-! ## The invariant -/

/-- **Invariant.**  The identities are values that the counter has had, and a tag is made of the identity of its
thread. -/
structure Inv (st : State) : Prop where
  bound : st.numThreads.toNat < 2 ^ 22
  started : ∀ t, st.phase t ≠ .completed → (st.thread t).threadId = 0
  counted : ∀ t, st.phase t = .incremented → 1 ≤ st.numThreads.toNat
  ids : ∀ t, st.phase t = .completed →
    1 ≤ (st.thread t).threadId.toNat ∧ (st.thread t).threadId.toNat ≤ st.numThreads.toNat
  seq : ∀ t, (st.thread t).amSeq.toNat < 32
  sent : ∀ t a, (t, a) ∈ st.sent → st.phase t = .completed ∧
    ∃ k < 32, a.toNat = (st.thread t).threadId.toNat * 2 ^ 10 + k

/-- No thread has the present value of the counter. -/
def Fresh (st : State) : Prop := ∀ t, st.phase t = .completed → (st.thread t).threadId ≠ st.numThreads

theorem inv_init : Inv .init := by
  refine ⟨by decide, fun _ _ => rfl, ?_, ?_, fun _ => by show (0 : ℕ) < 32; decide, ?_⟩
  · intro t h
    cases h
  · intro t h
    cases h
  · intro t a h
    cases h

theorem unique_init : Unique .init := by
  refine ⟨?_, ?_, ?_⟩
  · intro t h
    cases h
  · intro t u _ h
    cases h
  · intro t u a b _ h
    cases h

/-- Tags of different identities are different. -/
theorem Inv.unique {st : State} (h : Inv st)
    (hd : ∀ t u, t ≠ u → st.phase t = .completed → st.phase u = .completed →
      (st.thread t).threadId ≠ (st.thread u).threadId) : Unique st where
  nonzero := by
    intro t ht h0
    have hid := (h.ids t ht).1
    rw [h0] at hid
    exact absurd hid (by decide)
  distinct := hd
  tags := by
    intro t u a b hne ha hb hab
    obtain ⟨ht, k, hk, hak⟩ := h.sent t a ha
    obtain ⟨hu, l, hl, hbl⟩ := h.sent u b hb
    apply hd t u hne ht hu
    apply BitVec.eq_of_toNat_eq
    rw [hab] at hak
    omega

/-- `(thread_id << 10) + am_seq` does not overflow. -/
theorem toNat_setAmMsgTag {th : Thread} (hid : th.threadId.toNat < 2 ^ 22) :
    (setAmMsgTag th).1.amSeq.toNat < 32 ∧
      (setAmMsgTag th).2.toNat = th.threadId.toNat * 2 ^ 10 + (setAmMsgTag th).1.amSeq.toNat := by
  have hseq : (setAmMsgTag th).1.amSeq.toNat < 32 := by
    show ((th.amSeq + 1) &&& 0x1f).toNat < 32
    rw [BitVec.toNat_and]
    exact Nat.lt_of_le_of_lt Nat.and_le_right (by decide)
  refine ⟨hseq, ?_⟩
  show ((th.threadId <<< 10) + (setAmMsgTag th).1.amSeq).toNat = _
  rw [BitVec.toNat_add, BitVec.toNat_shiftLeft, Nat.shiftLeft_eq]
  omega

/-! ## Steps -/

section Inc

variable {st : State} {t : ℕ} (h : Inv st) (hgo : (st.thread t).threadId = 0) (hlt : st.numThreads.toNat + 1 < 2 ^ 22)

theorem toNat_inc (hlt : st.numThreads.toNat + 1 < 2 ^ 22) :
    (st.inc t).numThreads.toNat = st.numThreads.toNat + 1 := by
  show (st.numThreads + 1).toNat = _
  rw [BitVec.toNat_add, show (1 : Word).toNat = 1 from rfl]
  omega

include h hgo

/-- A thread that increments has no identity yet. -/
theorem completed_inc (u : ℕ) : (st.inc t).phase u = .completed ↔ st.phase u = .completed := by
  show Function.update st.phase t .incremented u = .completed ↔ _
  rcases eq_or_ne u t with rfl | hne
  · rw [Function.update_self]
    refine iff_of_false (by decide) fun hc => ?_
    have hid := (h.ids u hc).1
    rw [hgo] at hid
    exact absurd hid (by decide)
  · rw [Function.update_of_ne hne]

include hlt

theorem Inv.inc : Inv (st.inc t) := by
  have hn := toNat_inc (t := t) hlt
  refine ⟨by omega, fun u hu => ?_, fun u _ => by omega, fun u hu => ?_, h.seq, fun u a ha => ?_⟩
  · exact h.started u (mt (completed_inc h hgo u).mpr hu)
  · obtain ⟨hpos, hle⟩ := h.ids u ((completed_inc h hgo u).mp hu)
    show 1 ≤ (st.thread u).threadId.toNat ∧ (st.thread u).threadId.toNat ≤ (st.inc t).numThreads.toNat
    omega
  · obtain ⟨hu, hk⟩ := h.sent u a ha
    exact ⟨(completed_inc h hgo u).mpr hu, hk⟩

theorem fresh_inc : Fresh (st.inc t) := by
  intro u hu heq
  have hid := (h.ids u ((completed_inc h hgo u).mp hu)).2
  have hn := toNat_inc (t := t) hlt
  rw [← heq] at hn
  have hsame : ((st.inc t).thread u).threadId = (st.thread u).threadId := rfl
  rw [hsame] at hn
  omega

theorem Unique.inc (hu : Unique st) : Unique (st.inc t) := by
  refine (h.inc hgo hlt).unique fun u v hne hcu hcv => ?_
  exact hu.distinct u v hne ((completed_inc h hgo u).mp hcu) ((completed_inc h hgo v).mp hcv)

end Inc

section Read

variable {st : State} {t u : ℕ}

theorem read_self (st : State) (t : ℕ) :
    (st.read t).phase t = .completed ∧ ((st.read t).thread t).threadId = st.numThreads ∧
    ((st.read t).thread t).amSeq = (st.thread t).amSeq := by
  refine ⟨Function.update_self .., ?_⟩
  show (Function.update st.thread t _ t).threadId = _ ∧ (Function.update st.thread t _ t).amSeq = _
  rw [Function.update_self]
  exact ⟨rfl, rfl⟩

theorem read_of_ne (hne : u ≠ t) : (st.read t).phase u = st.phase u ∧ (st.read t).thread u = st.thread u :=
  ⟨Function.update_of_ne hne .., Function.update_of_ne hne ..⟩

theorem Inv.read (h : Inv st) (hgo : st.phase t = .incremented) : Inv (st.read t) := by
  obtain ⟨hphase, hid, hseq⟩ := read_self st t
  refine ⟨h.bound, fun u hu => ?_, fun u _ => h.counted t hgo, fun u hu => ?_, fun u => ?_, fun u a ha => ?_⟩
  · rcases eq_or_ne u t with rfl | hne
    · exact absurd hphase hu
    · rw [(read_of_ne hne).1] at hu
      rw [(read_of_ne hne).2]
      exact h.started u hu
  · rcases eq_or_ne u t with rfl | hne
    · rw [hid]
      exact ⟨h.counted u hgo, le_rfl⟩
    · rw [(read_of_ne hne).1] at hu
      rw [(read_of_ne hne).2]
      exact h.ids u hu
  · rcases eq_or_ne u t with rfl | hne
    · rw [hseq]
      exact h.seq u
    · rw [(read_of_ne hne).2]
      exact h.seq u
  · -- a thread that has sent something has its identity already
    obtain ⟨hu, hk⟩ := h.sent u a ha
    have hne : u ≠ t := by
      rintro rfl
      rw [hgo] at hu
      cases hu
    rw [(read_of_ne hne).1, (read_of_ne hne).2]
    exact ⟨hu, hk⟩

/-- **A read** keeps the identities apart exactly when no thread has the value that it reads. -/
theorem unique_read_iff (h : Inv st) (hgo : st.phase t = .incremented) (hu : Unique st) :
    Unique (st.read t) ↔ Fresh st := by
  obtain ⟨hphase, hid, -⟩ := read_self st t
  constructor
  · intro hu' u hc heq
    have hne : u ≠ t := by
      rintro rfl
      rw [hgo] at hc
      cases hc
    refine hu'.distinct u t hne ?_ hphase ?_
    · rw [(read_of_ne hne).1]
      exact hc
    · rw [(read_of_ne hne).2, hid]
      exact heq
  · intro hfresh
    have hother : ∀ v, v ≠ t → (st.read t).phase v = .completed → ((st.read t).thread v).threadId ≠ st.numThreads := by
      intro v hne hc
      rw [(read_of_ne hne).1] at hc
      rw [(read_of_ne hne).2]
      exact hfresh v hc
    refine (h.read hgo).unique fun v w hne hcv hcw => ?_
    rcases eq_or_ne v t with rfl | hv
    · rw [hid]
      exact (hother w hne.symm hcw).symm
    · rcases eq_or_ne w t with rfl | hw
      · rw [hid]
        exact hother v hv hcv
      · rw [(read_of_ne hv).1] at hcv
        rw [(read_of_ne hw).1] at hcw
        rw [(read_of_ne hv).2, (read_of_ne hw).2]
        exact hu.distinct v w hne hcv hcw

theorem not_fresh_read : ¬ Fresh (st.read t) := by
  obtain ⟨hphase, hid, -⟩ := read_self st t
  exact fun hfresh => hfresh t hphase hid

end Read

section Send

variable {st : State} {t : ℕ}

/-- Only `am_seq` changes. -/
theorem threadId_send (u : ℕ) : ((st.send t).thread u).threadId = (st.thread u).threadId := by
  show (Function.update st.thread t (setAmMsgTag (st.thread t)).1 u).threadId = _
  rcases eq_or_ne u t with rfl | hne
  · rw [Function.update_self]
    rfl
  · rw [Function.update_of_ne hne]

theorem Inv.send (h : Inv st) (hgo : (st.thread t).threadId ≠ 0) : Inv (st.send t) := by
  have hcompleted : st.phase t = .completed := by
    by_contra hc
    exact hgo (h.started t hc)
  obtain ⟨hseq, htag⟩ := toNat_setAmMsgTag (Nat.lt_of_le_of_lt (h.ids t hcompleted).2 h.bound)
  refine ⟨h.bound, fun u hu => ?_, h.counted, fun u hu => ?_, fun u => ?_, fun u a ha => ?_⟩
  · rw [threadId_send]
    exact h.started u hu
  · rw [threadId_send]
    exact h.ids u hu
  · show (Function.update st.thread t (setAmMsgTag (st.thread t)).1 u).amSeq.toNat < 32
    rcases eq_or_ne u t with rfl | hne
    · rw [Function.update_self]
      exact hseq
    · rw [Function.update_of_ne hne]
      exact h.seq u
  · rw [threadId_send]
    rcases List.mem_cons.mp ha with heq | ha
    · obtain ⟨rfl, rfl⟩ := Prod.mk.inj heq
      exact ⟨hcompleted, _, hseq, htag⟩
    · exact h.sent u a ha

theorem Unique.send (h : Inv st) (hgo : (st.thread t).threadId ≠ 0) (hu : Unique st) : Unique (st.send t) := by
  refine (h.send hgo).unique fun u v hne hcu hcv => ?_
  rw [threadId_send, threadId_send]
  exact hu.distinct u v hne hcu hcv

theorem fresh_send : Fresh (st.send t) ↔ Fresh st := by
  refine forall_congr' fun u => ?_
  rw [threadId_send]
  rfl

end Send

/-- What a step can be. -/
theorem step_cases {st st' : State} {e : Event} (hs : step st e = some st') :
    (∃ t, e = .inc t ∧ (st.thread t).threadId = 0 ∧ st' = st.inc t) ∨
      (∃ t, e = .read t ∧ st.phase t = .incremented ∧ st' = st.read t) ∨
      ∃ t, e = .send t ∧ (st.thread t).threadId ≠ 0 ∧ st' = st.send t := by
  cases e with
  | inc t =>
    rw [step] at hs
    split at hs
    · rename_i hgo
      exact .inl ⟨t, rfl, hgo.1, (Option.some.inj hs).symm⟩
    · cases hs
  | read t =>
    rw [step] at hs
    split at hs
    · rename_i hgo
      exact .inr (.inl ⟨t, rfl, hgo, (Option.some.inj hs).symm⟩)
    · cases hs
  | send t =>
    rw [step] at hs
    split at hs
    · rename_i hgo
      exact .inr (.inr ⟨t, rfl, hgo, (Option.some.inj hs).symm⟩)
    · cases hs

/-! ## Runs -/

theorem always_unique_iff {es : List Event} {st st' : State} {fresh : Bool} (hrun : run step st es = some st')
    (h : Inv st) (hu : Unique st) (hfresh : Fresh st ↔ fresh = true) (hincs : st.numThreads.toNat + incs es < 2 ^ 22) :
    Always step Unique st es ↔ separated fresh es := by
  induction es generalizing st fresh with
  | nil => exact iff_of_true (always_nil.mpr hu) trivial
  | cons e es ih =>
    obtain ⟨st₁, hs, hrun⟩ := run_cons_eq_some.mp hrun
    have hcons : Always step Unique st (e :: es) ↔ Always step Unique st₁ es := by
      rw [always_cons]
      constructor
      · rintro ⟨-, hall⟩
        exact hall st₁ hs
      · intro hall
        refine ⟨hu, fun s' hs' => ?_⟩
        obtain rfl := Option.some.inj (hs.symm.trans hs')
        exact hall
    rw [hcons]
    obtain ⟨t, rfl, hgo, rfl⟩ | ⟨t, rfl, hgo, rfl⟩ | ⟨t, rfl, hgo, rfl⟩ := step_cases hs
    · rw [incs] at hincs
      have hlt : st.numThreads.toNat + 1 < 2 ^ 22 := by omega
      have hn := toNat_inc (t := t) hlt
      exact ih hrun (h.inc hgo hlt) (hu.inc h hgo hlt) (iff_of_true (fresh_inc h hgo hlt) rfl) (by omega)
    · rw [separated, ← hfresh, ← unique_read_iff h hgo hu]
      have hsep : Unique (st.read t) → (Always step Unique (st.read t) es ↔ separated false es) := fun hu₁ =>
        ih hrun (h.read hgo) hu₁ (iff_of_false not_fresh_read (by decide)) hincs
      constructor
      · intro hall
        have hu₁ : Unique (st.read t) := hall [] _ List.nil_prefix rfl
        exact ⟨hu₁, (hsep hu₁).mp hall⟩
      · rintro ⟨hu₁, hes⟩
        exact (hsep hu₁).mpr hes
    · exact ih hrun (h.send hgo) (hu.send h hgo) (fresh_send.trans hfresh) hincs

/-- **Thread identities.**  In an interleaving with fewer than `2 ^ 22` increments, the identities and the tags of
different threads stay different exactly when `num_threads` is incremented between any two reads of it. -/
theorem unique_iff_separated {es : List Event} {st : State} (hrun : run step .init es = some st)
    (hincs : incs es < 2 ^ 22) : Always step Unique .init es ↔ Separated es := by
  refine always_unique_iff hrun inv_init unique_init (iff_of_true ?_ rfl) ?_
  · intro t h
    cases h
  · show 0 + incs es < 2 ^ 22
    omega

/-- Two threads, one after the other, that send two messages each. -/
def inTurn : List Event := [.inc 0, .read 0, .send 0, .inc 1, .read 1, .send 1, .send 0, .send 1]

theorem unique_inTurn : ∃ st, run step .init inTurn = some st ∧
    st.sent = [(1, 0x802), (0, 0x402), (1, 0x801), (0, 0x401)] ∧ Always step Unique .init inTurn := by
  obtain ⟨st, hrun, hsent⟩ : ∃ st, run step .init inTurn = some st ∧
      st.sent = [(1, 0x802), (0, 0x402), (1, 0x801), (0, 0x401)] := ⟨_, rfl, rfl⟩
  refine ⟨st, hrun, hsent, (unique_iff_separated hrun (by decide)).mpr ?_⟩
  exact ⟨rfl, rfl, trivial⟩

/-- Both threads increment before either reads: both are thread 2, and their first tags are the same. -/
theorem not_unique_both_increment :
    ∃ st, run step .init [.inc 0, .inc 1, .read 0, .read 1, .send 0, .send 1] = some st ∧
      (st.thread 0).threadId = 2 ∧ (st.thread 1).threadId = 2 ∧ st.sent = [(1, 0x801), (0, 0x801)] ∧
      ¬ Unique st := by
  obtain ⟨st, hrun, h0, h1, hsent⟩ : ∃ st,
      run step .init [.inc 0, .inc 1, .read 0, .read 1, .send 0, .send 1] = some st ∧
      (st.thread 0).threadId = 2 ∧ (st.thread 1).threadId = 2 ∧ st.sent = [(1, 0x801), (0, 0x801)] :=
    ⟨_, rfl, rfl, rfl, rfl⟩
  refine ⟨st, hrun, h0, h1, hsent, fun hu => ?_⟩
  refine hu.tags 1 0 0x801 0x801 (by decide) ?_ ?_ rfl
  · rw [hsent]
    exact List.mem_cons_self
  · rw [hsent]
    exact List.mem_cons_of_mem _ List.mem_cons_self

end Realm.ThreadId

import Mathlib.Data.Multiset.Filter
import Realm.AmMpi.Codec
import Realm.AmMpi.RecvSlots

/-!
# Realm.AmMpi.Poll — polling from inside a handler (`AMPoll` in `macros_ammpi/am_mpi.def`)

With `AM_POLL=explicit` every send polls, and polls again until the message has gone out.  A handler that sends thus
calls `AMPoll` while the `AMPoll` that called it has receives that are completed and not yet posted again.  `MPI_Test`
and `MPI_Testsome` say "done" for a request that is null, not "nothing yet".

* `step`: the calls of `AMPoll`, one inside the other, with the choices of MPI and of the handlers.
* `Correct`: every header is passed to `run_am` once, as it was received, and every call returns.
* `Inv`: what holds as long as a test finds a request that is not null.
* `Polls`: the streams for which it always does; `poll_correct_iff`: no other stream is safe.
-/

namespace Realm.Poll

open Lib AmMpi
open RecvSlots (AM_BUF_COUNT)

/-! ## The poll -/

/-- The words of a received header: `buf_recv[0]`, `buf_recv[1]`, and the others. -/
structure Header where
  t : Word
  handler : Word
  rest : List Word
deriving DecidableEq

/-- What `run_am` leaves in the buffer when it calls the handler. -/
def Header.stripped (h : Header) : Header :=
  if h.t < amMediumBase then h
  else if h.t < amLongBase then { h with t := h.t - amMediumBase }
  else { h with t := h.t - amLongBase }

/-- Without and with `AM_MULT_RECV`; `n_am_mult_recv` may be set in the environment. -/
inductive Variant
  | pollSingle
  | pollSome (nAmMultRecv : ℕ)

/-- The number of receives that `AMPoll_init` posts. -/
def Variant.posted : Variant → ℕ
  | pollSingle => 1
  | pollSome n => n

def mpiUndefined : ℤ := -32766

/-- A call of `AMPoll`: before the test, between the test and the next one with the receives that it found and has
not looked at, and in a handler that is still to poll `polls` times. -/
inductive Frame
  | test
  | loop (got : List ℕ)
  | handler (slot : ℕ) (polls : ℕ) (got : List ℕ)

/-- The calls in progress, the latest first, and for every slot whether its request is not null, and its buffer.
`arriving` has the headers that no receive has got yet, in no order: they come from many senders.  The rest is
history: the headers received, and the contents of `buf_recv` in the calls of `run_am`. -/
structure State where
  stack : List Frame
  active : ℕ → Bool
  buf : ℕ → Header
  arriving : Multiset Header
  received : Multiset Header
  dispatched : Multiset Header

/-- After `AMPoll_init` -/
def State.init (v : Variant) (stream : Multiset Header) : State :=
  ⟨[], fun i => i < v.posted, fun _ => ⟨0, 0, []⟩, stream, 0, 0⟩

inductive Event
  | call
  | test (got : List (ℕ × Header))
  | dispatch (polls : ℕ)
  | go
deriving DecidableEq

/-- The receives that a test may find completed, with what they received.  There is no such test of more receives than
the arrays have entries. -/
def State.Completes (st : State) (v : Variant) (got : List (ℕ × Header)) : Prop :=
  v.posted ≤ AM_BUF_COUNT ∧ (got.map Prod.fst).Nodup ∧ (∀ p ∈ got, p.1 < v.posted ∧ st.active p.1 = true) ∧
    (got.map Prod.snd : Multiset Header) ≤ st.arriving

instance (st : State) (v : Variant) (got : List (ℕ × Header)) : Decidable (st.Completes v got) :=
  inferInstanceAs (Decidable (_ ∧ _ ∧ _ ∧ _))

theorem State.completes_nil (st : State) {v : Variant} (hroom : v.posted ≤ AM_BUF_COUNT) : st.Completes v [] :=
  ⟨hroom, List.nodup_nil, by simp, Multiset.zero_le _⟩

/-- MPI fills the buffers and sets the requests to null. -/
def State.complete (st : State) (got : List (ℕ × Header)) : State :=
  { st with
    active := fun i => st.active i && i ∉ got.map Prod.fst
    buf := fun i => (got.lookup i).getD (st.buf i)
    arriving := st.arriving - got.map Prod.snd
    received := st.received + got.map Prod.snd }

/-- The slots that the loop body goes through after the test, `none` for the `break`. -/
def State.found (st : State) (v : Variant) (got : List (ℕ × Header)) : Option (List ℕ) :=
  match v with
  | .pollSingle =>
    -- the flag is also set for a request that is null
    if st.active 0 = true ∧ got = [] then none else some [0]
  | .pollSome n =>
    let nGot : ℤ := if ∃ i < n, st.active i = true then got.length else mpiUndefined
    if nGot = 0 then none else some ((got.map Prod.fst).take nGot.toNat)

/-- A handler that sends `sends` messages polls before each, and while it waits for each to go out. -/
def MayPoll (sends polls : ℕ) : Prop := sends ≤ polls ∧ (sends = 0 → polls = 0)

instance (sends polls : ℕ) : Decidable (MayPoll sends polls) := inferInstanceAs (Decidable (_ ∧ _))

/-- `_start_irecv` -/
def State.irecv (st : State) (slot : ℕ) : State := { st with active := Function.update st.active slot true }

def step (v : Variant) (sends : Header → ℕ) (st : State) (e : Event) : Option State :=
  match e, st.stack with
  | .call, [] => some { st with stack := [.test] }
  | .test got, .test :: fs =>
    if st.Completes v got then
      match st.found v got with
      | none => some { st with stack := fs }
      | some slots => some { st.complete got with stack := .loop slots :: fs }
    else none
  | .dispatch polls, .loop (slot :: slots) :: fs =>
    -- `got_am`
    let h := st.buf slot
    if h.handler = amNullHandler then some { st.irecv slot with stack := .loop slots :: fs }
    else if MayPoll (sends h) polls then
      some { st with
        stack := .handler slot polls slots :: fs
        buf := Function.update st.buf slot h.stripped
        dispatched := h ::ₘ st.dispatched }
    else none
  | .go, .loop [] :: fs => some { st with stack := .test :: fs }
  | .go, .handler slot 0 slots :: fs => some { st.irecv slot with stack := .loop slots :: fs }
  | .go, .handler slot (polls + 1) slots :: fs => some { st with stack := .test :: .handler slot polls slots :: fs }
  | _, _ => none

/-- The headers that `got_am` passes on -/
def State.passed (st : State) : Multiset Header := st.received.filter fun h => h.handler ≠ amNullHandler

/-- A header is passed to `run_am` at most once, and as it was received; when no call is left it has been passed.
The calls in progress all return: they cannot go on for ever, and are never stuck. -/
structure Correct (v : Variant) (sends : Header → ℕ) (st : State) : Prop where
  once : st.dispatched ≤ st.passed
  all : st.stack = [] → st.dispatched = st.passed
  returns : Acc (Next (step v sends) (· ≠ .call)) st
  goes : st.stack ≠ [] → ∃ st', Next (step v sends) (· ≠ .call) st' st

/-- No header of the stream has a handler that sends. -/
def Quiet (sends : Header → ℕ) (stream : Multiset Header) : Prop :=
  ∀ h ∈ stream, h.handler = amNullHandler ∨ sends h = 0

/-- The arrays have room for the receives, and there are more of them than headers, or no handler sends. -/
def Polls (v : Variant) (sends : Header → ℕ) (stream : Multiset Header) : Prop :=
  0 < v.posted ∧ v.posted ≤ AM_BUF_COUNT ∧ (stream.card < v.posted ∨ Quiet sends stream)

/-! ## The slots in use -/

/-- The slots whose receives a call has to post again. -/
def Frame.slots : Frame → List ℕ
  | .test => []
  | .loop got => got
  | .handler slot _ got => slot :: got

/-- Of these, the ones whose headers it has not passed on. -/
def Frame.waiting : Frame → List ℕ
  | .test => []
  | .loop got => got
  | .handler _ _ got => got

def State.slots (st : State) : List ℕ := st.stack.flatMap Frame.slots

def State.waiting (st : State) : List ℕ := st.stack.flatMap Frame.waiting

/-- The calls have the slots `slots` and have not passed on the headers in `waiting`: a slot is null while a call has
it, and its buffer has the header until that is passed on. -/
structure Held (v : Variant) (stream : Multiset Header) (st : State) (slots waiting : List ℕ) : Prop where
  sub : waiting.Sublist slots
  nodup : slots.Nodup
  lt : ∀ i ∈ slots, i < v.posted
  active : ∀ i < v.posted, st.active i = true ↔ i ∉ slots
  room : slots.length + st.arriving.card ≤ stream.card
  arriving : st.arriving ≤ stream
  headers : ∀ i ∈ waiting, st.buf i ∈ stream
  passed : st.passed = st.dispatched + (waiting.map st.buf : Multiset Header).filter (·.handler ≠ amNullHandler)

theorem lookup_of_mem {got : List (ℕ × Header)} (hnodup : (got.map Prod.fst).Nodup) {p : ℕ × Header} (hp : p ∈ got) :
    got.lookup p.1 = some p.2 := by
  induction got with
  | nil => cases hp
  | cons q got ih =>
    obtain ⟨hq, hnodup⟩ := List.nodup_cons.mp hnodup
    rcases List.mem_cons.mp hp with rfl | hp
    · exact List.lookup_cons_self
    · have hne : p.1 ≠ q.1 := fun heq => hq (heq ▸ List.mem_map_of_mem hp)
      rw [List.lookup_cons, beq_false_of_ne hne]
      exact ih hnodup hp

theorem lookup_of_not_mem {got : List (ℕ × Header)} {i : ℕ} (hi : i ∉ got.map Prod.fst) : got.lookup i = none := by
  rw [List.lookup_eq_none_iff]
  intro p hp
  have hne : i ≠ p.1 := fun heq => hi (heq ▸ List.mem_map_of_mem hp)
  simpa using hne

theorem map_buf_complete (st : State) {got : List (ℕ × Header)} (hnodup : (got.map Prod.fst).Nodup) :
    (got.map Prod.fst).map (st.complete got).buf = got.map Prod.snd := by
  rw [List.map_map]
  refine List.map_congr_left fun p hp => ?_
  show (got.lookup p.1).getD _ = p.2
  rw [lookup_of_mem hnodup hp, Option.getD_some]

theorem map_buf_complete_of_disjoint (st : State) {got : List (ℕ × Header)} {l : List ℕ}
    (h : ∀ i ∈ l, i ∉ got.map Prod.fst) : l.map (st.complete got).buf = l.map st.buf := by
  refine List.map_congr_left fun i hi => ?_
  show (got.lookup i).getD _ = st.buf i
  rw [lookup_of_not_mem (h i hi), Option.getD_none]

/-- When there is a request to wait for, the loop goes through what was received, and the call returns if that is
nothing. -/
theorem found_eq {v : Variant} {st : State} {got : List (ℕ × Header)} (hsome : ∃ i < v.posted, st.active i = true)
    (hgot : st.Completes v got) : st.found v got = if got = [] then none else some (got.map Prod.fst) := by
  cases v with
  | pollSingle =>
    obtain ⟨i, hi, hact⟩ := hsome
    obtain rfl : i = 0 := Nat.lt_one_iff.mp hi
    obtain ⟨-, hnodup, hall, -⟩ := hgot
    by_cases hnil : got = []
    · simp [State.found, hnil, hact]
    · rw [State.found, if_neg (fun h => hnil h.2), if_neg hnil]
      -- a list without duplicates of slots that are all 0
      have hzero : ∀ i ∈ got.map Prod.fst, i = 0 := by
        intro i hi
        obtain ⟨p, hp, rfl⟩ := List.mem_map.mp hi
        exact Nat.lt_one_iff.mp (hall p hp).1
      match hgot : got.map Prod.fst with
      | [] => exact absurd (List.map_eq_nil_iff.mp hgot) hnil
      | [i] => rw [hgot] at hzero; rw [hzero i (by simp)]
      | i :: j :: l =>
        rw [hgot] at hzero hnodup
        have hij : i = j := (hzero i (by simp)).trans (hzero j (by simp)).symm
        simp [hij] at hnodup
  | pollSome n =>
    have hlen : (got.length : ℤ) = 0 ↔ got = [] := by
      rw [← List.length_eq_zero_iff]
      omega
    have hsome : ∃ i < n, st.active i = true := hsome
    simp only [State.found]
    rw [if_pos hsome]
    by_cases hnil : got = []
    · rw [if_pos (hlen.mpr hnil), if_pos hnil]
    · rw [if_neg (hlen.not.mpr hnil), if_neg hnil, Int.toNat_natCast, List.take_of_length_le (by simp)]

namespace Held

variable {v : Variant} {stream : Multiset Header} {st : State} {slots waiting : List ℕ} {slot : ℕ}

theorem init (v : Variant) (stream : Multiset Header) : Held v stream (.init v stream) [] [] where
  sub := List.Sublist.refl _
  nodup := List.nodup_nil
  lt := by simp
  active i hi := by simp [State.init, hi]
  room := by simp [State.init]
  arriving := le_rfl
  headers := by simp
  passed := by simp [State.passed, State.init]

theorem restack (h : Held v stream st slots waiting) (stack : List Frame) :
    Held v stream { st with stack := stack } slots waiting := { h with }

/-- If there are more receives than headers, one of them is not completed. -/
theorem exists_active (h : Held v stream st slots waiting) (hfew : stream.card < v.posted) :
    ∃ i < v.posted, st.active i = true := by
  have hshort : slots.length < v.posted := by
    have := h.room
    omega
  by_contra hnone
  push Not at hnone
  have hsub : List.range v.posted ⊆ slots := by
    intro i hi
    have hi := List.mem_range.mp hi
    by_contra hmem
    exact hnone i hi ((h.active i hi).mpr hmem)
  have hle := (List.subperm_of_subset List.nodup_range hsub).length_le
  rw [List.length_range] at hle
  omega

/-- **A test** that finds the receives `got` completed. -/
theorem complete (h : Held v stream st slots waiting) {got : List (ℕ × Header)} (hgot : st.Completes v got) :
    Held v stream (st.complete got) (got.map Prod.fst ++ slots) (got.map Prod.fst ++ waiting) := by
  obtain ⟨-, hnodup, hall, hle⟩ := hgot
  have hlt : ∀ i ∈ got.map Prod.fst, i < v.posted ∧ st.active i = true := by
    intro i hi
    obtain ⟨p, hp, rfl⟩ := List.mem_map.mp hi
    exact hall p hp
  have hdisj : ∀ i ∈ slots, i ∉ got.map Prod.fst := by
    intro i hi hmem
    obtain ⟨hlt, hact⟩ := hlt i hmem
    exact (h.active i hlt).mp hact hi
  have hcard : (st.arriving - got.map Prod.snd).card + got.length = st.arriving.card := by
    have hadd := congrArg Multiset.card (Multiset.sub_add_cancel hle)
    rwa [Multiset.card_add, Multiset.coe_card, List.length_map] at hadd
  have hkeep := map_buf_complete_of_disjoint st fun i hi => hdisj i (h.sub.subset hi)
  constructor
  case sub => exact List.Sublist.append (List.Sublist.refl _) h.sub
  case nodup =>
    refine List.nodup_append.mpr ⟨hnodup, h.nodup, ?_⟩
    rintro i hi _ hj rfl
    exact hdisj i hj hi
  case lt =>
    intro i hi
    rcases List.mem_append.mp hi with hi | hi
    · exact (hlt i hi).1
    · exact h.lt i hi
  case active =>
    intro i hi
    show (st.active i && decide (i ∉ got.map Prod.fst)) = true ↔ _
    rw [Bool.and_eq_true, decide_eq_true_iff, h.active i hi, List.mem_append, not_or, and_comm]
  case room =>
    show (got.map Prod.fst ++ slots).length + (st.arriving - got.map Prod.snd).card ≤ _
    have := h.room
    rw [List.length_append, List.length_map]
    omega
  case arriving => exact (Multiset.sub_le_self _ _).trans h.arriving
  case headers =>
    intro i hi
    have hmem := List.mem_map_of_mem (f := (st.complete got).buf) hi
    rw [List.map_append, map_buf_complete st hnodup, hkeep, List.mem_append] at hmem
    rcases hmem with hmem | hmem
    · exact Multiset.mem_of_le h.arriving (Multiset.mem_of_le hle hmem)
    · obtain ⟨j, hj, heq⟩ := List.mem_map.mp hmem
      exact heq ▸ h.headers j hj
  case passed =>
    show (st.received + got.map Prod.snd).filter _ = st.dispatched + _
    have hold := h.passed
    rw [State.passed] at hold
    rw [List.map_append, map_buf_complete st hnodup, hkeep, ← Multiset.coe_add, Multiset.filter_add,
      Multiset.filter_add, hold, Multiset.add_assoc]
    congr 1
    exact Multiset.add_comm _ _

theorem repost_active (h : Held v stream st (slot :: slots) waiting) (i : ℕ) (hi : i < v.posted) :
    (st.irecv slot).active i = true ↔ i ∉ slots := by
  show Function.update st.active slot true i = true ↔ _
  rcases eq_or_ne i slot with rfl | hne
  · simp [(List.nodup_cons.mp h.nodup).1]
  · rw [Function.update_of_ne hne, h.active i hi, List.mem_cons, not_or]
    exact and_iff_right hne

/-- The receive of a header that has been passed on is posted again. -/
theorem irecv (h : Held v stream st (slot :: slots) waiting) (hsub : waiting.Sublist slots) :
    Held v stream (st.irecv slot) slots waiting where
  sub := hsub
  nodup := (List.nodup_cons.mp h.nodup).2
  lt i hi := h.lt i (List.mem_cons_of_mem slot hi)
  active := h.repost_active
  room := by
    have := h.room
    rw [List.length_cons] at this
    show slots.length + st.arriving.card ≤ _
    omega
  arriving := h.arriving
  headers := h.headers
  passed := h.passed

/-- A header without a handler is dropped. -/
theorem skip (h : Held v stream st (slot :: slots) (slot :: waiting)) (hnull : (st.buf slot).handler = amNullHandler) :
    Held v stream st (slot :: slots) waiting where
  sub := (List.sublist_cons_self slot waiting).trans h.sub
  nodup := h.nodup
  lt := h.lt
  active := h.active
  room := h.room
  arriving := h.arriving
  headers i hi := h.headers i (List.mem_cons_of_mem slot hi)
  passed := by
    rw [h.passed, List.map_cons, ← Multiset.cons_coe, Multiset.filter_cons_of_neg]
    exact not_not_intro hnull

/-- **A header is passed** to `run_am`, which writes to its buffer. -/
theorem pass (h : Held v stream st (slot :: slots) (slot :: waiting)) (hsome : (st.buf slot).handler ≠ amNullHandler)
    (stack : List Frame) :
    Held v stream { st with
      stack := stack
      buf := Function.update st.buf slot (st.buf slot).stripped
      dispatched := st.buf slot ::ₘ st.dispatched } (slot :: slots) waiting := by
  have hnot : ∀ i ∈ waiting, i ≠ slot := by
    rintro i hi rfl
    exact (List.nodup_cons.mp (h.nodup.sublist h.sub)).1 hi
  have hmap : waiting.map (Function.update st.buf slot (st.buf slot).stripped) = waiting.map st.buf :=
    List.map_congr_left fun i hi => Function.update_of_ne (hnot i hi) _ _
  constructor
  case sub => exact (List.sublist_cons_self slot waiting).trans h.sub
  case nodup => exact h.nodup
  case lt => exact h.lt
  case active => exact h.active
  case room => exact h.room
  case arriving => exact h.arriving
  case headers =>
    intro i hi
    show Function.update st.buf slot (st.buf slot).stripped i ∈ stream
    rw [Function.update_of_ne (hnot i hi)]
    exact h.headers i (List.mem_cons_of_mem slot hi)
  case passed =>
    show st.passed = st.buf slot ::ₘ st.dispatched +
      (waiting.map (Function.update st.buf slot _) : Multiset Header).filter _
    have hfilter := Multiset.filter_cons_of_pos (p := fun h : Header => h.handler ≠ amNullHandler)
      (waiting.map st.buf : Multiset Header) hsome
    rw [hmap, h.passed, List.map_cons, ← Multiset.cons_coe, hfilter, Multiset.add_cons, Multiset.cons_add]

end Held

/-! ## Steps and runs -/

/-- The calls in progress have the slots that are null.  Without handlers that send there is one call at most. -/
structure Inv (v : Variant) (sends : Header → ℕ) (stream : Multiset Header) (st : State) : Prop where
  held : Held v stream st st.slots st.waiting
  quiet : Quiet sends stream → st.stack.length ≤ 1 ∧ ∀ slot polls got, .handler slot polls got ∈ st.stack → polls = 0

/-- What a step can do -/
inductive Trans (v : Variant) (sends : Header → ℕ) (st : State) : Event → State → Prop
  | call (hstack : st.stack = []) : Trans v sends st .call { st with stack := [.test] }
  | ret {got fs} (hstack : st.stack = .test :: fs) (hgot : st.Completes v got) (hfound : st.found v got = none) :
      Trans v sends st (.test got) { st with stack := fs }
  | found {got slots fs} (hstack : st.stack = .test :: fs) (hgot : st.Completes v got)
      (hfound : st.found v got = some slots) :
      Trans v sends st (.test got) { st.complete got with stack := .loop slots :: fs }
  | skip {polls slot slots fs} (hstack : st.stack = .loop (slot :: slots) :: fs)
      (hnull : (st.buf slot).handler = amNullHandler) :
      Trans v sends st (.dispatch polls) { st.irecv slot with stack := .loop slots :: fs }
  | pass {polls slot slots fs} (hstack : st.stack = .loop (slot :: slots) :: fs)
      (hsome : (st.buf slot).handler ≠ amNullHandler) (hpolls : MayPoll (sends (st.buf slot)) polls) :
      Trans v sends st (.dispatch polls) { st with
        stack := .handler slot polls slots :: fs
        buf := Function.update st.buf slot (st.buf slot).stripped
        dispatched := st.buf slot ::ₘ st.dispatched }
  | again {fs} (hstack : st.stack = .loop [] :: fs) : Trans v sends st .go { st with stack := .test :: fs }
  | repost {slot slots fs} (hstack : st.stack = .handler slot 0 slots :: fs) :
      Trans v sends st .go { st.irecv slot with stack := .loop slots :: fs }
  | nested {slot polls slots fs} (hstack : st.stack = .handler slot (polls + 1) slots :: fs) :
      Trans v sends st .go { st with stack := .test :: .handler slot polls slots :: fs }

theorem trans_of_step {v : Variant} {sends : Header → ℕ} {st st' : State} {e : Event}
    (hstep : step v sends st e = some st') : Trans v sends st e st' := by
  unfold step at hstep
  split at hstep
  · rename_i hstack
    obtain rfl := Option.some.inj hstep
    exact .call hstack
  · rename_i hstack
    obtain ⟨hgot, hstep⟩ := Option.ite_none_right_eq_some.mp hstep
    split at hstep
    · rename_i hfound
      obtain rfl := Option.some.inj hstep
      exact .ret hstack hgot hfound
    · rename_i hfound
      obtain rfl := Option.some.inj hstep
      exact .found hstack hgot hfound
  · rename_i hstack
    simp only at hstep
    split at hstep
    · rename_i hnull
      obtain rfl := Option.some.inj hstep
      exact .skip hstack hnull
    · rename_i hsome
      obtain ⟨hpolls, hstep⟩ := Option.ite_none_right_eq_some.mp hstep
      obtain rfl := Option.some.inj hstep
      exact .pass hstack hsome hpolls
  · rename_i hstack
    obtain rfl := Option.some.inj hstep
    exact .again hstack
  · rename_i hstack
    obtain rfl := Option.some.inj hstep
    exact .repost hstack
  · rename_i hstack
    obtain rfl := Option.some.inj hstep
    exact .nested hstack
  · cases hstep

theorem step_of_trans {v : Variant} {sends : Header → ℕ} {st st' : State} {e : Event}
    (h : Trans v sends st e st') : step v sends st e = some st' := by
  cases h with
  | call hstack => simp only [step, hstack]
  | ret hstack hgot hfound => simp only [step, hstack, if_pos hgot, hfound]
  | found hstack hgot hfound => simp only [step, hstack, if_pos hgot, hfound]
  | skip hstack hnull => simp only [step, hstack, if_pos hnull]
  | pass hstack hsome hpolls => simp only [step, hstack, if_neg hsome, if_pos hpolls]
  | again hstack => simp only [step, hstack]
  | repost hstack => simp only [step, hstack]
  | nested hstack => simp only [step, hstack]

def Frame.weight : Frame → ℕ
  | .test => 1
  | .loop _ => 2
  | .handler _ polls _ => 3 + 2 * polls

/-- What gets less: the headers that are still to arrive, those still to be passed on, and the work of the calls. -/
def State.measure (st : State) : ℕ × ℕ × ℕ := (st.arriving.card, st.waiting.length, (st.stack.map Frame.weight).sum)

abbrev Less : ℕ × ℕ × ℕ → ℕ × ℕ × ℕ → Prop := Prod.Lex (· < ·) (Prod.Lex (· < ·) (· < ·))

section Runs

variable {v : Variant} {sends : Header → ℕ} {stream : Multiset Header} {st st' : State} {fs : List Frame}

theorem slots_cons {f : Frame} (hstack : st.stack = f :: fs) : st.slots = f.slots ++ fs.flatMap Frame.slots := by
  rw [State.slots, hstack, List.flatMap_cons]

theorem waiting_cons {f : Frame} (hstack : st.stack = f :: fs) :
    st.waiting = f.waiting ++ fs.flatMap Frame.waiting := by
  rw [State.waiting, hstack, List.flatMap_cons]

theorem waiting_sublist (fs : List Frame) : (fs.flatMap Frame.waiting).Sublist (fs.flatMap Frame.slots) := by
  induction fs with
  | nil => exact List.Sublist.refl _
  | cons f fs ih =>
    rw [List.flatMap_cons, List.flatMap_cons]
    refine List.Sublist.append ?_ ih
    cases f with
    | test => exact List.Sublist.refl _
    | loop got => exact List.Sublist.refl _
    | handler slot polls got => exact List.sublist_cons_self slot got

theorem Inv.init (v : Variant) (sends : Header → ℕ) (stream : Multiset Header) : Inv v sends stream (.init v stream) :=
  ⟨Held.init v stream, by simp [State.init]⟩

/-- **A test has something to wait for**: too few receives are completed, or there is no call around this one. -/
theorem Inv.exists_active (h : Inv v sends stream st) (hpolls : Polls v sends stream)
    (hstack : st.stack = .test :: fs) : ∃ i < v.posted, st.active i = true := by
  obtain ⟨hpos, -, hfew | hquiet⟩ := hpolls
  · exact h.held.exists_active hfew
  · have hlen := (h.quiet hquiet).1
    rw [hstack, List.length_cons] at hlen
    obtain rfl : fs = [] := List.length_eq_zero_iff.mp (by omega)
    refine ⟨0, hpos, (h.held.active 0 hpos).mpr ?_⟩
    simp [State.slots, hstack, Frame.slots]

/-- Another frame on top of the same calls, which has the slots and the headers that `st'` is left with. -/
theorem Inv.top (h : Inv v sends stream st) {f f' : Frame} (hstack : st.stack = f :: fs)
    (hstack' : st'.stack = f' :: fs)
    (hheld : Held v stream st' (f'.slots ++ fs.flatMap Frame.slots) (f'.waiting ++ fs.flatMap Frame.waiting))
    (hquiet : Quiet sends stream → ∀ slot polls got, f' = .handler slot polls got → polls = 0) :
    Inv v sends stream st' := by
  constructor
  · rw [slots_cons hstack', waiting_cons hstack']
    exact hheld
  · intro hq
    obtain ⟨hlen, hall⟩ := h.quiet hq
    rw [hstack] at hlen hall
    rw [hstack']
    refine ⟨hlen, fun slot polls got hmem => ?_⟩
    rcases List.mem_cons.mp hmem with heq | hmem
    · exact hquiet hq slot polls got heq.symm
    · exact hall slot polls got (List.mem_cons_of_mem f hmem)

theorem less_of_waiting (harriving : st'.arriving = st.arriving) (hwaiting : st'.waiting.length < st.waiting.length) :
    Less st'.measure st.measure := by
  rw [State.measure, State.measure, harriving]
  exact Prod.Lex.right _ (Prod.Lex.left _ _ hwaiting)

theorem less_of_weight (harriving : st'.arriving = st.arriving) (hwaiting : st'.waiting = st.waiting)
    (hweight : (st'.stack.map Frame.weight).sum < (st.stack.map Frame.weight).sum) : Less st'.measure st.measure := by
  rw [State.measure, State.measure, harriving, hwaiting]
  exact Prod.Lex.right _ (Prod.Lex.right _ hweight)

/-- **One step** keeps the invariant, and uses up some of the work. -/
theorem Inv.step (h : Inv v sends stream st) (hpolls : Polls v sends stream) {e : Event}
    (hstep : step v sends st e = some st') : Inv v sends stream st' ∧ (e ≠ .call → Less st'.measure st.measure) := by
  have hheld := h.held
  cases trans_of_step hstep with
  | call hstack =>
    rw [State.slots, State.waiting, hstack] at hheld
    exact ⟨⟨hheld.restack _, fun _ => by simp⟩, fun hne => absurd rfl hne⟩
  | @ret got fs hstack hgot hfound =>
    rw [slots_cons hstack, waiting_cons hstack] at hheld
    refine ⟨⟨hheld.restack _, fun hq => ?_⟩, fun _ => ?_⟩
    · obtain ⟨hlen, hall⟩ := h.quiet hq
      rw [hstack] at hlen hall
      exact ⟨(Nat.le_succ _).trans hlen, fun slot polls got hmem => hall slot polls got (List.mem_cons_of_mem _ hmem)⟩
    · refine less_of_weight rfl (waiting_cons hstack).symm ?_
      simp [hstack, Frame.weight]
  | @found got slots fs hstack hgot hfound =>
    rw [slots_cons hstack, waiting_cons hstack] at hheld
    rw [found_eq (h.exists_active hpolls hstack) hgot] at hfound
    obtain ⟨hne, heq⟩ := Option.ite_none_left_eq_some.mp hfound
    obtain rfl := Option.some.inj heq
    refine ⟨h.top hstack rfl ((hheld.complete hgot).restack _) (by simp), fun _ => Prod.Lex.left _ _ ?_⟩
    show (st.arriving - got.map Prod.snd).card < st.arriving.card
    have hcard := congrArg Multiset.card (Multiset.sub_add_cancel hgot.2.2.2)
    rw [Multiset.card_add, Multiset.coe_card, List.length_map] at hcard
    have hpos := List.length_pos_iff.mpr hne
    omega
  | @skip polls slot slots fs hstack hnull =>
    rw [slots_cons hstack, waiting_cons hstack] at hheld
    have hsub := List.Sublist.append (List.Sublist.refl slots) (waiting_sublist fs)
    refine ⟨h.top hstack rfl (((hheld.skip hnull).irecv hsub).restack _) (by simp), fun _ => ?_⟩
    refine less_of_waiting rfl ?_
    rw [waiting_cons hstack]
    simp [State.waiting, Frame.waiting]
  | @pass polls slot slots fs hstack hsome hmay =>
    rw [slots_cons hstack, waiting_cons hstack] at hheld
    refine ⟨h.top hstack rfl (hheld.pass hsome _) ?_, fun _ => ?_⟩
    · rintro hq _ _ _ heq
      obtain ⟨rfl, rfl, rfl⟩ := Frame.handler.inj heq
      exact hmay.2 ((hq _ (hheld.headers slot List.mem_cons_self)).resolve_left hsome)
    · refine less_of_waiting rfl ?_
      rw [waiting_cons hstack]
      simp [State.waiting, Frame.waiting]
  | @again fs hstack =>
    rw [slots_cons hstack, waiting_cons hstack] at hheld
    refine ⟨h.top hstack rfl (hheld.restack _) (by simp), fun _ => ?_⟩
    refine less_of_weight rfl (waiting_cons hstack).symm ?_
    simp [hstack, Frame.weight]
  | @repost slot slots fs hstack =>
    rw [slots_cons hstack, waiting_cons hstack] at hheld
    have hsub := List.Sublist.append (List.Sublist.refl slots) (waiting_sublist fs)
    refine ⟨h.top hstack rfl ((hheld.irecv hsub).restack _) (by simp), fun _ => ?_⟩
    refine less_of_weight rfl (waiting_cons hstack).symm ?_
    simp [hstack, Frame.weight]
  | @nested slot polls slots fs hstack =>
    refine ⟨⟨?_, fun hq => ?_⟩, fun _ => ?_⟩
    · rw [slots_cons hstack, waiting_cons hstack] at hheld
      exact hheld.restack _
    · -- a handler that does not send does not poll
      have hzero := (h.quiet hq).2 slot (polls + 1) slots (hstack ▸ List.mem_cons_self)
      cases hzero
    · refine less_of_weight rfl (waiting_cons hstack).symm ?_
      simp only [hstack, List.map_cons, List.sum_cons, Frame.weight]
      omega

/-- A call is never stuck. -/
theorem exists_next {v : Variant} (hroom : v.posted ≤ AM_BUF_COUNT) (sends : Header → ℕ) (hstack : st.stack ≠ []) :
    ∃ st', Next (Poll.step v sends) (· ≠ .call) st' st := by
  match h : st.stack with
  | [] => exact absurd h hstack
  | .test :: fs =>
    have hgot := st.completes_nil hroom
    cases hfound : st.found v [] with
    | none => exact ⟨_, .test [], by simp, step_of_trans (.ret h hgot hfound)⟩
    | some slots => exact ⟨_, .test [], by simp, step_of_trans (.found h hgot hfound)⟩
  | .loop [] :: fs => exact ⟨_, .go, by simp, step_of_trans (.again h)⟩
  | .loop (slot :: slots) :: fs =>
    by_cases hnull : (st.buf slot).handler = amNullHandler
    · exact ⟨_, .dispatch 0, by simp, step_of_trans (.skip h hnull)⟩
    · exact ⟨_, .dispatch (sends (st.buf slot)), by simp, step_of_trans (.pass h hnull ⟨le_rfl, id⟩)⟩
  | .handler slot 0 slots :: fs => exact ⟨_, .go, by simp, step_of_trans (.repost h)⟩
  | .handler slot (polls + 1) slots :: fs => exact ⟨_, .go, by simp, step_of_trans (.nested h)⟩

theorem Inv.correct (h : Inv v sends stream st) (hpolls : Polls v sends stream) : Correct v sends st := by
  constructor
  case once =>
    rw [h.held.passed]
    exact Multiset.le_add_right _ _
  case all =>
    intro hstack
    have hpassed := h.held.passed
    rw [State.waiting, hstack] at hpassed
    simpa using hpassed.symm
  case returns =>
    have hwf : WellFounded Less :=
      WellFounded.prod_lex Nat.lt_wfRel.wf (WellFounded.prod_lex Nat.lt_wfRel.wf Nat.lt_wfRel.wf)
    refine acc_of_measure hwf State.measure (fun s e s' hI hcall hstep => ?_) h
    obtain ⟨hI', hless⟩ := Inv.step hI hpolls hstep
    exact ⟨hI', hless hcall⟩
  case goes => exact exists_next hpolls.2.1 sends

/-- **Enough receives, or no handler that sends**: every run is correct. -/
theorem correct_of_polls (hpolls : Polls v sends stream) {es : List Event}
    (hrun : run (Poll.step v sends) (.init v stream) es = some st) : Correct v sends st :=
  (run_inv (fun _ _ _ h hstep => (Inv.step h hpolls hstep).1) (Inv.init v sends stream) hrun).correct hpolls

/-! ## A test of requests that are all null -/

def Reached (v : Variant) (sends : Header → ℕ) (stream : Multiset Header) (st : State) : Prop :=
  ∃ es, run (Poll.step v sends) (.init v stream) es = some st

theorem Reached.trans (h : Reached v sends stream st) {e : Event} (htrans : Trans v sends st e st') :
    Reached v sends stream st' := by
  obtain ⟨es, hrun⟩ := h
  exact ⟨es ++ [e], run_snoc_eq_some.mpr ⟨st, hrun, step_of_trans htrans⟩⟩

theorem Reached.call (v : Variant) (sends : Header → ℕ) (stream : Multiset Header) :
    Reached v sends stream { State.init v stream with stack := [.test] } :=
  Reached.trans ⟨[], rfl⟩ (.call rfl)

theorem complete_nil (st : State) : st.complete [] = st := by
  simp [State.complete]

/-- **`poll_some` spins**: `n_got` is not 0, and the loop over it does nothing. -/
theorem not_acc_of_null {n : ℕ} (hroom : n ≤ AM_BUF_COUNT) (hstack : st.stack = .test :: fs)
    (hnull : ∀ i < n, st.active i = false) : ¬Acc (Next (Poll.step (.pollSome n) sends) (· ≠ .call)) st := by
  have hnone : ¬∃ i < n, st.active i = true := by
    rintro ⟨i, hi, hact⟩
    rw [hnull i hi] at hact
    cases hact
  have hfound : st.found (.pollSome n) [] = some [] := by
    simp only [State.found]
    rw [if_neg hnone]
    rfl
  have hself : { st with stack := .test :: fs } = st := by rw [← hstack]
  have htest : Trans (.pollSome n) sends st (.test []) { st.complete [] with stack := .loop [] :: fs } :=
    .found hstack (st.completes_nil hroom) hfound
  have hagain : Trans (.pollSome n) sends { st with stack := .loop [] :: fs } .go { st with stack := .test :: fs } :=
    .again rfl
  rw [complete_nil] at htest
  rw [hself] at hagain
  exact not_acc_of_loop ⟨.test [], by simp, step_of_trans htest⟩ ⟨.go, by simp, step_of_trans hagain⟩

/-- **A handler that polls while all receives are completed.** -/
theorem reached_null {h : Header} (hmem : h ∈ stream) (hsome : h.handler ≠ amNullHandler) (hsends : 0 < sends h)
    (hpos : 0 < v.posted) (hroom : v.posted ≤ AM_BUF_COUNT) (hmany : v.posted ≤ stream.card) :
    ∃ st fs, Reached v sends stream st ∧ st.stack = .test :: fs ∧ (∀ i < v.posted, st.active i = false) ∧
      st.buf 0 = h.stripped ∧ st.dispatched.card = 1 ∧ st.received.card = v.posted := by
  obtain ⟨t, rfl⟩ := Multiset.exists_cons_of_mem hmem
  obtain ⟨l, rfl⟩ := Quot.exists_rep t
  obtain ⟨m, hm⟩ : ∃ m, v.posted = m + 1 := ⟨v.posted - 1, by omega⟩
  obtain ⟨k, hk⟩ : ∃ k, sends h = k + 1 := ⟨sends h - 1, by omega⟩
  have hml : m ≤ l.length := by
    have hcard : v.posted ≤ l.length + 1 := by simpa using hmany
    omega
  -- all receives are completed at once, the first with `h`
  let got : List (ℕ × Header) := (List.range (m + 1)).zip (h :: l.take m)
  have hfst : got.map Prod.fst = List.range (m + 1) := List.map_fst_zip (by simp [hml])
  have hsnd : got.map Prod.snd = h :: l.take m := List.map_snd_zip (by simp)
  have hcons : got = (0, h) :: ((List.range m).map Nat.succ).zip (l.take m) := by
    show (List.range (m + 1)).zip _ = _
    rw [List.range_succ_eq_map, List.zip_cons_cons]
  have hcalled := Reached.call v sends (h ::ₘ (l : Multiset Header))
  set st₀ : State := { State.init v (h ::ₘ (l : Multiset Header)) with stack := [.test] } with hst₀
  have hact : ∀ i < v.posted, st₀.active i = true := fun i hi => decide_eq_true hi
  have hgot : st₀.Completes v got := by
    refine ⟨hroom, by rw [hfst]; exact List.nodup_range, fun p hp => ?_, ?_⟩
    · have hp := List.mem_map_of_mem (f := Prod.fst) hp
      rw [hfst, List.mem_range, ← hm] at hp
      exact ⟨hp, hact p.1 hp⟩
    · rw [hsnd]
      exact Multiset.coe_le.mpr ((List.take_sublist m l).cons_cons h).subperm
  have hfound : st₀.found v got = some (0 :: (List.range m).map Nat.succ) := by
    rw [found_eq ⟨0, hpos, hact 0 hpos⟩ hgot, if_neg (by rw [hcons]; simp), hfst, List.range_succ_eq_map]
  have hbuf : (st₀.complete got).buf 0 = h := by
    show (got.lookup 0).getD _ = h
    rw [hcons, List.lookup_cons_self, Option.getD_some]
  have hloop := hcalled.trans (.found rfl hgot hfound)
  have hhandler := hloop.trans (e := .dispatch (k + 1))
    (.pass rfl (hbuf ▸ hsome) ⟨by rw [hbuf, hk], by rw [hbuf, hk]; simp⟩)
  refine ⟨_, _, hhandler.trans (.nested rfl), rfl, fun i hi => ?_, ?_, ?_, ?_⟩
  · show (st₀.active i && decide (i ∉ got.map Prod.fst)) = false
    rw [hfst, Bool.and_eq_false_iff]
    exact .inr (decide_eq_false (not_not_intro (List.mem_range.mpr (hm ▸ hi))))
  · show Function.update (st₀.complete got).buf 0 ((st₀.complete got).buf 0).stripped 0 = _
    rw [Function.update_self, hbuf]
  · show ((st₀.complete got).buf 0 ::ₘ 0).card = 1
    rw [Multiset.card_cons, Multiset.card_zero]
  · show (0 + (got.map Prod.snd : Multiset Header)).card = _
    rw [Multiset.zero_add, Multiset.coe_card, hsnd, List.length_cons, List.length_take, min_eq_left hml, hm]

theorem handler_stripped (h : Header) : h.stripped.handler = h.handler := by
  unfold Header.stripped
  split
  · rfl
  · split <;> rfl

/-- With more receives than the arrays have entries the first test fails. -/
theorem not_correct_of_many (hmany : AM_BUF_COUNT < v.posted) :
    ¬Correct v sends { State.init v stream with stack := [.test] } := by
  intro h
  obtain ⟨st', e, hcall, hstep⟩ := h.goes (by simp)
  cases trans_of_step hstep with
  | call hstack => exact hcall rfl
  | ret hstack hgot hfound => exact absurd hgot.1 (by omega)
  | found hstack hgot hfound => exact absurd hgot.1 (by omega)
  | skip hstack hnull => cases hstack
  | pass hstack hsome hpolls => cases hstack
  | again hstack => cases hstack
  | repost hstack => cases hstack
  | nested hstack => cases hstack

/-- **No other stream is safe.** -/
theorem exists_incorrect (hnot : ¬Polls v sends stream) : ∃ st, Reached v sends stream st ∧ ¬Correct v sends st := by
  by_cases hroom : v.posted ≤ AM_BUF_COUNT
  case neg => exact ⟨_, Reached.call v sends stream, not_correct_of_many (by omega)⟩
  rcases Nat.eq_zero_or_pos v.posted with hzero | hpos
  · -- no receive is ever posted
    cases v with
    | pollSingle => cases hzero
    | pollSome n =>
      obtain rfl : n = 0 := hzero
      refine ⟨_, Reached.call _ sends stream, fun h => ?_⟩
      exact not_acc_of_null hroom rfl (fun i hi => absurd hi (Nat.not_lt_zero i)) h.returns
  · have hmany : v.posted ≤ stream.card := by
      by_contra hlt
      exact hnot ⟨hpos, hroom, .inl (by omega)⟩
    obtain ⟨h, hmem, hh⟩ : ∃ h ∈ stream, ¬(h.handler = amNullHandler ∨ sends h = 0) := by
      by_contra hnone
      push Not at hnone
      exact hnot ⟨hpos, hroom, .inr hnone⟩
    obtain ⟨hsome, hsends⟩ := not_or.mp hh
    obtain ⟨st, fs, hreached, hstack, hnull, hbuf, hdispatched, hreceived⟩ :=
      reached_null hmem hsome (Nat.pos_of_ne_zero hsends) hpos hroom hmany
    cases v with
    | pollSome n => exact ⟨st, hreached, fun h => not_acc_of_null hroom hstack hnull h.returns⟩
    | pollSingle =>
      -- the flag is set, and the header is passed on a second time
      have hfound : st.found .pollSingle [] = some [0] := if_neg fun h => by
        rw [hnull 0 Nat.one_pos] at h
        cases h.1
      have hloop := hreached.trans (.found hstack (st.completes_nil hroom) hfound)
      rw [complete_nil] at hloop
      have hhandler := hloop.trans (.pass rfl (by rw [hbuf, handler_stripped]; exact hsome) ⟨le_rfl, id⟩)
      refine ⟨_, hhandler, fun hcorrect => ?_⟩
      have hle := Multiset.card_le_card hcorrect.once
      have hpassed : st.passed.card ≤ st.received.card := Multiset.card_le_card (Multiset.filter_le _ _)
      change (st.buf 0 ::ₘ st.dispatched).card ≤ st.passed.card at hle
      rw [Multiset.card_cons, hdispatched] at hle
      rw [hreceived] at hpassed
      have : Variant.posted .pollSingle = 1 := rfl
      omega

/-- **Exactly when polling is safe**: the arrays have room for the posted receives, and there are more of them than
headers, or no handler sends. -/
theorem poll_correct_iff (v : Variant) (sends : Header → ℕ) (stream : Multiset Header) :
    (∀ es st, run (Poll.step v sends) (.init v stream) es = some st → Correct v sends st) ↔ Polls v sends stream := by
  constructor
  · intro h
    by_contra hnot
    obtain ⟨st, ⟨es, hrun⟩, hincorrect⟩ := exists_incorrect hnot
    exact hincorrect (h es st hrun)
  · intro hpolls es st hrun
    exact correct_of_polls hpolls hrun

/-- A header for a handler that sends one reply: `poll_single` fails on the first, `poll_some` with the five receives
that are the default when five of them are completed together. -/
theorem not_correct_reply :
    (∃ st, Reached .pollSingle (fun _ => 1) {⟨1, 7, [3]⟩} st ∧ ¬Correct .pollSingle (fun _ => 1) st) ∧
      ∃ st, Reached (.pollSome 5) (fun _ => 1) (Multiset.replicate 5 ⟨1, 7, [3]⟩) st ∧
        ¬Correct (.pollSome 5) (fun _ => 1) st := by
  constructor
  · refine exists_incorrect ?_
    rintro ⟨-, -, hfew | hquiet⟩
    · simp [Variant.posted] at hfew
    · exact absurd (hquiet ⟨1, 7, [3]⟩ (Multiset.mem_singleton_self _)) (by decide)
  · refine exists_incorrect ?_
    rintro ⟨-, -, hfew | hquiet⟩
    · simp [Variant.posted] at hfew
    · exact absurd (hquiet ⟨1, 7, [3]⟩ (Multiset.mem_replicate.mpr ⟨by simp, rfl⟩)) (by decide)

end Runs

end Realm.Poll

import Realm.AmMpi.Codec
import Realm.AmMpi.RecvSlots

/-!
# Realm.AmMpi.MediumFree — the payload buffers of medium messages (`run_am_medium` in `macros_ammpi/am_mpi.def`)

A payload that does not fit behind the arguments is received into a buffer from `malloc`.  Without handler threads
`run_am_medium` calls the handler and `recv_medium_finish` frees the buffer.  With them it hands the message to the
`Incoming_Manager`, `AM_run_handler` frees the buffer when the handler has returned, and `recv_medium_finish` frees it
all the same.

* `step`: the polling thread and the handler threads.
* `Proper`: a buffer is freed once, after its handler has returned.
* `proper_of_inline`, `improper_of_separate`: without handler threads always, with them as soon as there is a buffer.
-/

namespace Realm.MediumFree

open Lib AmMpi

/-- The number of arguments of a medium message, and its `len`. -/
structure Header where
  nArgs : ℕ
  len : ℤ

/-- `msg_buf_type` after `recv_medium_packed` or `recv_medium_twoside`. -/
inductive MsgBufType
  | static
  | allocated
deriving DecidableEq

/-- The choice that `run_am_medium` makes. -/
def Header.msgBufType (h : Header) : MsgBufType :=
  let tnSize := amArgStartMedium + h.nArgs
  if h.len > 0 then
    let tnLen := ((amBufMax : ℤ) - tnSize) * 4
    if h.len < tnLen then .static else .allocated
  else .static

/-- A message that has been received, and whether its payload is in a buffer of its own. -/
structure Msg where
  id : ℕ
  msgBufType : MsgBufType
deriving DecidableEq

/-- A call of `run_am_medium`: before the handler or the queue, in the handler, and before `recv_medium_finish`. -/
inductive Frame
  | received (m : Msg)
  | running (m : Msg)
  | finish (m : Msg)
deriving DecidableEq

def Frame.msg : Frame → Msg
  | received m => m
  | running m => m
  | finish m => m

/-- A handler thread: waiting for a message, in the handler, and before the `free` of `AM_run_handler`. -/
inductive Handler
  | idle
  | running (m : Msg)
  | returned (m : Msg)
deriving DecidableEq

def Handler.msg? : Handler → Option Msg
  | idle => none
  | running m => some m
  | returned m => some m

inductive Build
  | inline
  | threads (T : ℕ)

/-- `stream` has the headers that are still to come, `frames` the calls of the polling thread, the latest first: a
handler may poll.  `frees` counts the calls of `free` for the buffer of a message. -/
structure State where
  stream : List Header
  next : ℕ
  allocated : ℕ → Bool
  frames : List Frame
  queue : List Msg
  handlers : ℕ → Handler
  frees : ℕ → ℕ
  returned : ℕ → Bool

def State.init (stream : List Header) : State :=
  ⟨stream, 0, fun _ => false, [], [], fun _ => .idle, fun _ => 0, fun _ => false⟩

inductive Event
  | recv
  | dispatch
  | ret
  | finish
  | take (t : ℕ)
  | handlerRet (t : ℕ)
  | release (t : ℕ)

/-- `free(s)`, if the buffer was allocated. -/
def State.free (st : State) (m : Msg) : State :=
  if m.msgBufType = .allocated then { st with frees := Function.update st.frees m.id (st.frees m.id + 1) } else st

def State.handlerReturns (st : State) (m : Msg) : State :=
  { st with returned := Function.update st.returned m.id true }

/-- A new call of `run_am_medium`, with the buffer from `malloc` if there is one. -/
def State.receive (st : State) (h : Header) (stream : List Header) : State :=
  { st with
    stream := stream
    next := st.next + 1
    allocated := Function.update st.allocated st.next (decide (h.msgBufType = .allocated))
    frames := .received ⟨st.next, h.msgBufType⟩ :: st.frames }

/-- A handler can be called in a poll, and poll itself. -/
def State.canPoll (st : State) : Bool :=
  match st.frames with
  | [] => true
  | .running _ :: _ => true
  | _ => false

/-- The steps; `none` if a thread has to wait. -/
def step (build : Build) (st : State) : Event → Option State
  | .recv =>
    match st.stream with
    | [] => none
    | h :: stream => if st.canPoll then some (st.receive h stream) else none
  | .dispatch =>
    match build, st.frames with
    | .inline, .received m :: frames => some { st with frames := .running m :: frames }
    | .threads T, .received m :: frames =>
      -- `make_msg_medium`; the wait is that of `enqueue_incoming`
      if st.queue.length + T + 1 ≥ RecvSlots.AM_BUF_COUNT then none
      else some { st with frames := .finish m :: frames, queue := st.queue ++ [m] }
    | _, _ => none
  | .ret =>
    match st.frames with
    | .running m :: frames => some ({ st with frames := .finish m :: frames }.handlerReturns m)
    | _ => none
  | .finish =>
    match st.frames with
    | .finish m :: frames => some ({ st with frames := frames }.free m)
    | _ => none
  | .take t =>
    match build, st.handlers t, st.queue with
    | .threads T, .idle, m :: queue =>
      if t < T then some { st with queue := queue, handlers := Function.update st.handlers t (.running m) } else none
    | _, _, _ => none
  | .handlerRet t =>
    match st.handlers t with
    | .running m =>
      some ({ st with handlers := Function.update st.handlers t (.returned m) }.handlerReturns m)
    | _ => none
  | .release t =>
    match st.handlers t with
    | .returned m => some ({ st with handlers := Function.update st.handlers t .idle }.free m)
    | _ => none

/-- Nothing is left to do for the message. -/
def State.Done (st : State) (b : ℕ) : Prop :=
  (∀ f ∈ st.frames, f.msg.id ≠ b) ∧ (∀ m ∈ st.queue, m.id ≠ b) ∧ ∀ t m, (st.handlers t).msg? = some m → m.id ≠ b

/-- A buffer is freed at most once, not before its handler has returned, and it has been freed when nothing is left
to do for its message. -/
def Proper (st : State) : Prop :=
  ∀ b, st.allocated b → st.frees b ≤ 1 ∧ (0 < st.frees b → st.returned b) ∧
    (b < st.next → st.Done b → st.frees b = 1)

/-! ## Handlers run by the poll -/

/-- **Invariant** without handler threads: the calls in progress are those of messages whose buffers are not free. -/
structure Inline (st : State) : Prop where
  queue : st.queue = []
  idle : ∀ t, st.handlers t = .idle
  nodup : (st.frames.map fun f => f.msg.id).Nodup
  lt : ∀ f ∈ st.frames, f.msg.id < st.next
  type : ∀ f ∈ st.frames, st.allocated f.msg.id = true ↔ f.msg.msgBufType = .allocated
  fresh : ∀ b, st.next ≤ b → st.allocated b = false ∧ st.frees b = 0
  unfreed : ∀ f ∈ st.frames, st.frees f.msg.id = 0
  handled : ∀ m, .finish m ∈ st.frames → st.returned m.id = true
  freed : ∀ b, st.allocated b = true → (∀ f ∈ st.frames, f.msg.id ≠ b) → st.frees b = 1 ∧ st.returned b = true

namespace Inline

variable {st : State} {f f' : Frame} {fs : List Frame} {m : Msg}

theorem init (stream : List Header) : Inline (.init stream) where
  queue := rfl
  idle := fun _ => rfl
  nodup := List.nodup_nil
  lt := by simp [State.init]
  type := by simp [State.init]
  fresh := fun _ _ => ⟨rfl, rfl⟩
  unfreed := by simp [State.init]
  handled := by simp [State.init]
  freed := by simp [State.init]

theorem proper (h : Inline st) : Proper st := by
  intro b hb
  by_cases hframe : ∃ f ∈ st.frames, f.msg.id = b
  · obtain ⟨f, hf, rfl⟩ := hframe
    have h0 := h.unfreed f hf
    exact ⟨by omega, fun hpos => by omega, fun _ hdone => absurd rfl (hdone.1 f hf)⟩
  · push Not at hframe
    obtain ⟨h1, hret⟩ := h.freed b hb hframe
    exact ⟨by omega, fun _ => hret, fun _ _ => h1⟩

theorem receive (h : Inline st) (hd : Header) (stream : List Header) : Inline (st.receive hd stream) where
  queue := h.queue
  idle := h.idle
  nodup := by
    refine List.nodup_cons.mpr ⟨fun hmem => ?_, h.nodup⟩
    obtain ⟨f, hf, heq⟩ := List.mem_map.mp hmem
    have hlt := h.lt f hf
    rw [heq] at hlt
    exact Nat.lt_irrefl _ hlt
  lt := by
    intro f hf
    rcases List.mem_cons.mp hf with rfl | hf
    · exact Nat.lt_succ_self _
    · exact Nat.lt_succ_of_lt (h.lt f hf)
  type := by
    intro f hf
    show Function.update st.allocated st.next _ f.msg.id = true ↔ _
    rcases List.mem_cons.mp hf with rfl | hf
    · rw [show (Frame.received ⟨st.next, hd.msgBufType⟩).msg.id = st.next from rfl, Function.update_self]
      exact decide_eq_true_iff
    · rw [Function.update_of_ne (h.lt f hf).ne]
      exact h.type f hf
  fresh := by
    intro b hb
    have hne : b ≠ st.next := by
      rintro rfl
      exact Nat.not_succ_le_self _ hb
    show Function.update st.allocated st.next _ b = false ∧ _
    rw [Function.update_of_ne hne]
    exact h.fresh b (Nat.le_of_succ_le hb)
  unfreed := by
    intro f hf
    rcases List.mem_cons.mp hf with rfl | hf
    · exact (h.fresh st.next le_rfl).2
    · exact h.unfreed f hf
  handled := by
    intro m hm
    rcases List.mem_cons.mp hm with heq | hm
    · cases heq
    · exact h.handled m hm
  freed := by
    intro b hb hframes
    have hne : b ≠ st.next := fun heq => hframes _ List.mem_cons_self heq.symm
    have hb' : st.allocated b = true := by
      rw [← hb]
      exact (Function.update_of_ne hne ..).symm
    exact h.freed b hb' fun f hf => hframes f (List.mem_cons_of_mem _ hf)

/-- The latest call goes on. -/
theorem next (h : Inline st) (hfs : st.frames = f :: fs) (hmsg : f'.msg = f.msg)
    (hret : ∀ m, f' = .finish m → st.returned m.id = true) : Inline { st with frames := f' :: fs } := by
  have hf : f ∈ st.frames := hfs ▸ List.mem_cons_self
  have hmem : ∀ g ∈ f' :: fs, ∃ g' ∈ st.frames, g'.msg = g.msg := by
    intro g hg
    rcases List.mem_cons.mp hg with rfl | hg
    · exact ⟨f, hf, hmsg.symm⟩
    · exact ⟨g, hfs ▸ List.mem_cons_of_mem _ hg, rfl⟩
  refine ⟨h.queue, h.idle, ?_, fun g hg => ?_, fun g hg => ?_, h.fresh, fun g hg => ?_, fun m hm => ?_,
    fun b hb hframes => ?_⟩
  · have hnodup := h.nodup
    rw [hfs, List.map_cons] at hnodup
    rw [List.map_cons, hmsg]
    exact hnodup
  · obtain ⟨g', hg', heq⟩ := hmem g hg
    rw [← heq]
    exact h.lt g' hg'
  · obtain ⟨g', hg', heq⟩ := hmem g hg
    rw [← heq]
    exact h.type g' hg'
  · obtain ⟨g', hg', heq⟩ := hmem g hg
    rw [← heq]
    exact h.unfreed g' hg'
  · rcases List.mem_cons.mp hm with heq | hm
    · exact hret m heq.symm
    · exact h.handled m (hfs ▸ List.mem_cons_of_mem _ hm)
  · refine h.freed b hb fun g hg => ?_
    rw [hfs] at hg
    rcases List.mem_cons.mp hg with rfl | hg
    · rw [← hmsg]
      exact hframes f' List.mem_cons_self
    · exact hframes g (List.mem_cons_of_mem _ hg)

theorem handlerReturns (h : Inline st) (m : Msg) : Inline (st.handlerReturns m) := by
  have hmono : ∀ b, st.returned b = true → (st.handlerReturns m).returned b = true := by
    intro b hb
    show Function.update st.returned m.id true b = true
    rcases eq_or_ne b m.id with rfl | hne
    · exact Function.update_self ..
    · rw [Function.update_of_ne hne]
      exact hb
  refine ⟨h.queue, h.idle, h.nodup, h.lt, h.type, h.fresh, h.unfreed, fun m' hm' => hmono _ (h.handled m' hm'),
    fun b hb hframes => ?_⟩
  obtain ⟨h1, hret⟩ := h.freed b hb hframes
  exact ⟨h1, hmono b hret⟩

/-- **`recv_medium_finish`** frees the buffer of the call that it ends. -/
theorem finish (h : Inline st) (hfs : st.frames = .finish m :: fs) : Inline ({ st with frames := fs }.free m) := by
  have hnodup := h.nodup
  rw [hfs, List.map_cons, List.nodup_cons] at hnodup
  have hmem : ∀ g ∈ fs, g ∈ st.frames := fun g hg => hfs ▸ List.mem_cons_of_mem _ hg
  have htop : .finish m ∈ st.frames := hfs ▸ List.mem_cons_self
  have hother : ∀ g ∈ fs, g.msg.id ≠ m.id := fun g hg heq => hnodup.1 (List.mem_map.mpr ⟨g, hg, heq⟩)
  have h0 : st.frees m.id = 0 := h.unfreed _ htop
  have hret : st.returned m.id = true := h.handled m htop
  have htype : st.allocated m.id = true ↔ m.msgBufType = .allocated := h.type _ htop
  have hlt : m.id < st.next := h.lt _ htop
  unfold State.free
  split
  · refine ⟨h.queue, h.idle, hnodup.2, fun g hg => h.lt g (hmem g hg), fun g hg => h.type g (hmem g hg), ?_, ?_,
      fun m' hm' => h.handled m' (hmem _ hm'), ?_⟩
    · intro b hb
      refine ⟨(h.fresh b hb).1, ?_⟩
      show Function.update st.frees m.id _ b = 0
      rw [Function.update_of_ne (by have hb' : st.next ≤ b := hb; omega)]
      exact (h.fresh b hb).2
    · intro g hg
      show Function.update st.frees m.id _ g.msg.id = 0
      rw [Function.update_of_ne (hother g hg)]
      exact h.unfreed g (hmem g hg)
    · intro b hb hframes
      show Function.update st.frees m.id _ b = 1 ∧ st.returned b = true
      rcases eq_or_ne b m.id with rfl | hne
      · rw [Function.update_self, h0]
        exact ⟨rfl, hret⟩
      · rw [Function.update_of_ne hne]
        refine h.freed b hb fun g hg => ?_
        rw [hfs] at hg
        rcases List.mem_cons.mp hg with rfl | hg
        · exact hne.symm
        · exact hframes g hg
  · rename_i hstatic
    refine ⟨h.queue, h.idle, hnodup.2, fun g hg => h.lt g (hmem g hg), fun g hg => h.type g (hmem g hg), h.fresh,
      fun g hg => h.unfreed g (hmem g hg), fun m' hm' => h.handled m' (hmem _ hm'), fun b hb hframes => ?_⟩
    have hne : b ≠ m.id := by
      rintro rfl
      exact hstatic (htype.mp hb)
    refine h.freed b hb fun g hg => ?_
    rw [hfs] at hg
    rcases List.mem_cons.mp hg with rfl | hg
    · exact hne.symm
    · exact hframes g hg

theorem step {st' : State} {e : Event} (h : Inline st) (hs : MediumFree.step .inline st e = some st') :
    Inline st' := by
  cases e with
  | recv =>
    simp only [MediumFree.step] at hs
    split at hs
    · cases hs
    · split at hs
      · obtain rfl := Option.some.inj hs
        exact h.receive _ _
      · cases hs
  | dispatch =>
    simp only [MediumFree.step] at hs
    split at hs
    · rename_i m fs hfs
      obtain rfl := Option.some.inj hs
      exact h.next hfs rfl fun m' hm' => by cases hm'
    · contradiction
    · cases hs
  | ret =>
    simp only [MediumFree.step] at hs
    split at hs
    · rename_i m fs hfs
      obtain rfl := Option.some.inj hs
      refine (h.handlerReturns m).next hfs rfl fun m' hm' => ?_
      obtain rfl : m = m' := by injection hm'
      exact Function.update_self ..
    · cases hs
  | finish =>
    simp only [MediumFree.step] at hs
    split at hs
    · rename_i m fs hfs
      obtain rfl := Option.some.inj hs
      exact h.finish hfs
    · cases hs
  | take t =>
    simp only [MediumFree.step] at hs
    cases hs
  | handlerRet t =>
    simp only [MediumFree.step, h.idle t] at hs
    cases hs
  | release t =>
    simp only [MediumFree.step, h.idle t] at hs
    cases hs

end Inline

theorem proper_of_inline (stream : List Header) (es : List Event) :
    Always (step .inline) Proper (.init stream) es := by
  intro pre st _ hrun
  exact (run_inv (fun _ _ _ h hs => Inline.step h hs) (Inline.init stream) hrun).proper

/-! ## Messages without a buffer -/

/-- No message has a buffer, and none will. -/
structure NoBuffer (st : State) : Prop where
  stream : ∀ h ∈ st.stream, h.msgBufType ≠ .allocated
  allocated : ∀ b, st.allocated b = false

theorem NoBuffer.proper {st : State} (h : NoBuffer st) : Proper st := by
  intro b hb
  rw [h.allocated b] at hb
  cases hb

theorem NoBuffer.of_eq {st st' : State} (h : NoBuffer st) (hstream : st'.stream = st.stream)
    (halloc : st'.allocated = st.allocated) : NoBuffer st' :=
  ⟨hstream ▸ h.stream, halloc ▸ h.allocated⟩

theorem NoBuffer.free {st : State} (h : NoBuffer st) (m : Msg) : NoBuffer (st.free m) := by
  unfold State.free
  split
  · exact h.of_eq rfl rfl
  · exact h

theorem NoBuffer.step {build : Build} {st st' : State} {e : Event} (h : NoBuffer st)
    (hs : MediumFree.step build st e = some st') : NoBuffer st' := by
  cases e with
  | recv =>
    simp only [MediumFree.step] at hs
    split at hs
    · cases hs
    · rename_i hd stream hstream
      split at hs
      · obtain rfl := Option.some.inj hs
        have hhd := h.stream hd (hstream ▸ List.mem_cons_self)
        refine ⟨fun x hx => h.stream x (hstream ▸ List.mem_cons_of_mem _ hx), fun b => ?_⟩
        show Function.update st.allocated st.next (decide (hd.msgBufType = .allocated)) b = false
        rw [decide_eq_false hhd]
        rcases eq_or_ne b st.next with rfl | hne
        · exact Function.update_self ..
        · rw [Function.update_of_ne hne]
          exact h.allocated b
      · cases hs
  | dispatch =>
    simp only [MediumFree.step] at hs
    split at hs
    · obtain rfl := Option.some.inj hs
      exact h.of_eq rfl rfl
    · split at hs
      · cases hs
      · obtain rfl := Option.some.inj hs
        exact h.of_eq rfl rfl
    · cases hs
  | ret =>
    simp only [MediumFree.step] at hs
    split at hs
    · obtain rfl := Option.some.inj hs
      exact h.of_eq rfl rfl
    · cases hs
  | finish =>
    simp only [MediumFree.step] at hs
    split at hs
    · obtain rfl := Option.some.inj hs
      apply NoBuffer.free
      exact h.of_eq rfl rfl
    · cases hs
  | take t =>
    simp only [MediumFree.step] at hs
    split at hs
    · split at hs
      · obtain rfl := Option.some.inj hs
        exact h.of_eq rfl rfl
      · cases hs
    · cases hs
  | handlerRet t =>
    simp only [MediumFree.step] at hs
    split at hs
    · obtain rfl := Option.some.inj hs
      exact h.of_eq rfl rfl
    · cases hs
  | release t =>
    simp only [MediumFree.step] at hs
    split at hs
    · obtain rfl := Option.some.inj hs
      apply NoBuffer.free
      exact h.of_eq rfl rfl
    · cases hs

theorem proper_of_noBuffer (build : Build) {stream : List Header} (h : ∀ hd ∈ stream, hd.msgBufType ≠ .allocated)
    (es : List Event) : Always (step build) Proper (.init stream) es := by
  intro pre st _ hrun
  exact (run_inv (fun _ _ _ h hs => NoBuffer.step h hs) ⟨h, fun _ => rfl⟩ hrun).proper

/-! ## Handler threads -/

section Threads

variable {T : ℕ}

/-- Between two messages, all of those before `n` handled. -/
def between (stream : List Header) (n : ℕ) (allocated : ℕ → Bool) : State :=
  ⟨stream, n, allocated, [], [], fun _ => .idle, fun _ => 0, fun b => decide (b < n)⟩

/-- One message is received, queued and handled by the thread 0. -/
def round : List Event := [.recv, .dispatch, .finish, .take 0, .handlerRet 0, .release 0]

theorem run_round (h1 : 1 ≤ T) (hT : T + 1 < RecvSlots.AM_BUF_COUNT) {hd : Header} (hstatic : hd.msgBufType = .static)
    (stream : List Header) (n : ℕ) (allocated : ℕ → Bool) :
    run (step (.threads T)) (between (hd :: stream) n allocated) round =
      some (between stream (n + 1) (Function.update allocated n false)) := by
  have hwait : ¬ 0 + T + 1 ≥ RecvSlots.AM_BUF_COUNT := by omega
  have h0 : 0 < T := by omega
  have hidle : Function.update (fun _ : ℕ => Handler.idle) 0 .idle = fun _ => .idle := Function.update_eq_self ..
  have hret : Function.update (fun b => decide (b < n)) n true = fun b => decide (b < n + 1) := by
    funext b
    rcases eq_or_ne b n with rfl | hne
    · rw [Function.update_self]
      exact (decide_eq_true (Nat.lt_succ_self b)).symm
    · rw [Function.update_of_ne hne]
      exact decide_eq_decide.mpr (by omega)
  simp only [round, run_cons, step, between, State.canPoll, State.receive, State.free, State.handlerReturns, hstatic,
    List.length_nil, hwait, if_true, if_false, Option.bind_some, List.nil_append, h0, Function.update_self,
    Function.update_idem, reduceCtorEq, decide_false, hidle, hret, run_nil]

/-- **A buffer is freed before its handler is called.** -/
theorem run_separate (hT : T + 1 < RecvSlots.AM_BUF_COUNT) {hd : Header} (hsep : hd.msgBufType = .allocated)
    (stream : List Header) (n : ℕ) (allocated : ℕ → Bool) :
    ∃ st, run (step (.threads T)) (between (hd :: stream) n allocated) [.recv, .dispatch, .finish] = some st ∧
      ¬ Proper st := by
  have hwait : ¬ 0 + T + 1 ≥ RecvSlots.AM_BUF_COUNT := by omega
  refine ⟨⟨stream, n + 1, Function.update allocated n true, [], [⟨n, .allocated⟩], fun _ => .idle,
    Function.update (fun _ => 0) n 1, fun b => decide (b < n)⟩, ?_, fun hproper => ?_⟩
  · simp only [run_cons, step, between, State.canPoll, State.receive, State.free, hsep, List.length_nil, hwait, if_true,
      if_false, Option.bind_some, List.nil_append, decide_true, run_nil]
  · obtain ⟨-, hret, -⟩ := hproper n (Function.update_self ..)
    have hlt : n < n := of_decide_eq_true (hret (by simp))
    exact Nat.lt_irrefl n hlt

theorem exists_improper (h1 : 1 ≤ T) (hT : T + 1 < RecvSlots.AM_BUF_COUNT) {stream : List Header}
    (h : ∃ hd ∈ stream, hd.msgBufType = .allocated) (n : ℕ) (allocated : ℕ → Bool) :
    ∃ es st, run (step (.threads T)) (between stream n allocated) es = some st ∧ ¬ Proper st := by
  induction stream generalizing n allocated with
  | nil =>
    obtain ⟨hd, hmem, -⟩ := h
    cases hmem
  | cons hd stream ih =>
    cases htype : hd.msgBufType with
    | allocated =>
      obtain ⟨st, hrun, hbad⟩ := run_separate hT htype stream n allocated
      exact ⟨_, st, hrun, hbad⟩
    | static =>
      obtain ⟨hd', hmem, hsep⟩ := h
      have hrest : ∃ hd ∈ stream, hd.msgBufType = .allocated := by
        rcases List.mem_cons.mp hmem with rfl | hmem
        · rw [htype] at hsep
          cases hsep
        · exact ⟨hd', hmem, hsep⟩
      obtain ⟨es, st, hrun, hbad⟩ := ih hrest (n + 1) (Function.update allocated n false)
      refine ⟨round ++ es, st, ?_, hbad⟩
      rw [run_append, run_round h1 hT htype, Option.bind_some]
      exact hrun

end Threads

/-- **Payload buffers.**  Without handler threads, or if no message has a buffer of its own, every buffer is freed
once, after its handler has returned.  With handler threads, and room in the queue, this is the only case. -/
theorem freed_once_iff (build : Build) (stream : List Header) :
    ((build = .inline ∨ ∀ hd ∈ stream, hd.msgBufType ≠ .allocated) →
      ∀ es, Always (step build) Proper (.init stream) es) ∧
    ((∀ es, Always (step build) Proper (.init stream) es) →
      ∀ T, build = .threads T → 1 ≤ T → T + 1 < RecvSlots.AM_BUF_COUNT →
        ∀ hd ∈ stream, hd.msgBufType ≠ .allocated) := by
  constructor
  · rintro (rfl | h) es
    · exact proper_of_inline stream es
    · exact proper_of_noBuffer build h es
  · rintro hall T rfl h1 hT hd hmem hsep
    obtain ⟨es, st, hrun, hbad⟩ := exists_improper h1 hT ⟨hd, hmem, hsep⟩ 0 fun _ => false
    exact hbad (hall es es st List.prefix_rfl hrun)

/-- A message of a thousand bytes, which a handler without threads returns from. -/
theorem freed_once_inline :
    (∃ st, run (step .inline) (.init [⟨2, 1000⟩]) [.recv, .dispatch, .ret, .finish] = some st ∧ st.allocated 0 = true ∧
      st.frees 0 = 1) ∧ ∀ es, Always (step .inline) Proper (.init [⟨2, 1000⟩]) es :=
  ⟨⟨_, rfl, rfl, rfl⟩, (freed_once_iff .inline [⟨2, 1000⟩]).1 (.inl rfl)⟩

/-- The same message with one handler thread: its buffer is freed before the handler is called, and again after. -/
theorem freed_twice_one_thread :
    (∃ st, run (step (.threads 1)) (.init [⟨2, 1000⟩]) [.recv, .dispatch, .finish] = some st ∧ st.frees 0 = 1 ∧
      st.returned 0 = false) ∧
    (∃ st, run (step (.threads 1)) (.init [⟨2, 1000⟩]) round = some st ∧ st.frees 0 = 2) ∧
    ¬ ∀ es, Always (step (.threads 1)) Proper (.init [⟨2, 1000⟩]) es := by
  refine ⟨⟨_, rfl, rfl, rfl⟩, ⟨_, rfl, rfl⟩, fun hall => ?_⟩
  obtain ⟨st, hrun, halloc, hfrees⟩ : ∃ st, run (step (.threads 1)) (.init [⟨2, 1000⟩]) round = some st ∧
      st.allocated 0 = true ∧ st.frees 0 = 2 := ⟨_, rfl, rfl, rfl⟩
  have hle := (hall round round st List.prefix_rfl hrun 0 halloc).1
  omega

end Realm.MediumFree

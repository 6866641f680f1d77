import Realm.Endpoint.Incoming
import Realm.Lib.Total

/-!
# Realm.Endpoint.IncomingStop — the end of the handler threads (`templates/activemsg_incoming_manager_impl.cc`)

`shutdown` sets the flag and joins the handler threads one after the other.  A handler thread leaves its loop when
`get_messages` has nothing for it, which happens only after the flag is set.

* `step`: any number of handler threads (`handler_thread_loop`), the caller of `shutdown`, and the senders.
* `Attended`: a message is added while some thread is still to look for messages.
* `incomingStopped_of_run`: `shutdown` returns, and then every message that was added has been handled once; a message
  added later never is.
-/

namespace Realm.IncomingStop

open Lib Realm.Incoming

variable {M : Type} {nodes threads : ℕ}

/-- `left t`: `handler_thread_loop` of `t` is over.  `stop` is `some k` when `shutdown` has set the flag and joined the
first `k` threads. -/
structure Sys (M : Type) (nodes threads : ℕ) where
  st : State M nodes
  left : ℕ → Bool
  stop : Option ℕ

inductive Act (M : Type)
  | add (sender : ℕ) (msg : M)
  | get (t : ℕ)
  | handle (t : ℕ)
  | shutdown
  | join

section Step

variable [DecidableEq M]

def Sys.init : Sys M nodes threads := ⟨.init, fun _ => false, none⟩

def step (sys : Sys M nodes threads) : Act M → Option (Sys M nodes threads)
  | .add sender msg => do
    let st ← Incoming.step sys.st (.add sender msg)
    return { sys with st := st }
  | .get t =>
    if t < threads ∧ sys.left t = false then do
      let st ← Incoming.step sys.st (.get t true)
      -- an empty list ends the loop
      return { sys with st := st, left := Function.update sys.left t (st.current t).isNone }
    else none
  | .handle t =>
    if t < threads then do
      let st ← Incoming.step sys.st (.handle t)
      return { sys with st := st }
    else none
  | .shutdown =>
    if sys.stop = none then do
      let st ← Incoming.step sys.st .shutdown
      return { sys with st := st, stop := some 0 }
    else none
  | .join => do
    let k ← sys.stop
    if k < threads ∧ sys.left k then return { sys with stop := some (k + 1) } else none

end Step

/-- What the handler threads and `shutdown` do by themselves. -/
def Act.Own : Act M → Prop
  | .get _ | .handle _ | .join => True
  | _ => False

/-- A message is added while some handler thread has not left. -/
def Attended (sys : Sys M nodes threads) : Act M → Prop
  | .add _ _ => ∃ t < threads, sys.left t = false
  | _ => True

def AllLeft (sys : Sys M nodes threads) : Prop := ∀ t < threads, sys.left t = true

/-- The messages of the first `n` lists. -/
def tally (n : ℕ) (lists : ℕ → List M) : Multiset M := ∑ i ∈ Finset.range n, (lists i : Multiset M)

theorem tally_append {n i : ℕ} (hi : i < n) (lists : ℕ → List M) (l : List M) :
    tally n (Function.update lists i (lists i ++ l)) = tally n lists + l := by
  have h := sum_update (fun l : List M => (l : Multiset M)) lists (Finset.mem_range.mpr hi) (lists i ++ l)
  rw [← Multiset.coe_add, ← add_assoc, add_right_comm, add_left_inj] at h
  exact h

theorem card_tally_append {n i : ℕ} (hi : i < n) (lists : ℕ → List M) (l : List M) :
    (tally n (Function.update lists i (lists i ++ l))).card = (tally n lists).card + l.length := by
  rw [tally_append hi, Multiset.card_add, Multiset.coe_card]

/-! ## What a section does -/

section Sections

variable [DecidableEq M] {st st' : State M nodes}

/-- `get_messages` for a thread that waits: it returns an empty list after `shutdown`, or the messages of a sender. -/
theorem get_cases (h : Inv st) {t : ℕ} (hs : Incoming.step st (.get t true) = some st') :
    (st.mgr.todo.oldest = st.mgr.todo.newest ∧ st.mgr.shutdownFlag = true ∧ st.current t = none ∧ st' = st) ∨
    (∃ (s : ℕ) (l : List M), s < nodes ∧ l ≠ [] ∧ st'.returned = Function.update st.returned s (st.returned s ++ l) ∧
      st'.given = Function.update st.given t (st.given t ++ l) ∧ st'.added = st.added ∧ st'.handled = st.handled ∧
      st'.mgr.shutdownFlag = st.mgr.shutdownFlag ∧
      ∃ m, st'.current = Function.update st.current t (some m)) := by
  obtain ⟨queue, held, owner, h⟩ := h
  obtain ⟨ht, hs⟩ := Option.ite_none_right_eq_some.mp hs
  obtain ⟨⟨sender, retval, mgr⟩, hget, hs⟩ := Option.bind_eq_some_iff.mp hs
  unfold Manager.getMessages at hget
  split at hget
  · rename_i hempty
    obtain ⟨hflag, heq⟩ := Option.ite_none_right_eq_some.mp hget
    simp only [Option.some.injEq, Prod.mk.injEq] at heq
    obtain ⟨rfl, rfl, rfl⟩ := heq
    refine .inl ⟨hempty, by simpa using hflag, ht, (Option.some.inj hs).symm⟩
  · rename_i hne
    simp only [Option.some.injEq, Prod.mk.injEq] at hget
    obtain ⟨rfl, rfl, rfl⟩ := hget
    have hmem : st.mgr.todo.front ∈ st.mgr.todo.contents := Ring.contents_pop hne ▸ List.mem_cons_self
    have hhead : st.mgr.heads st.mgr.todo.front ≠ none := (h.mem_todo _).mp hmem
    have hlen : (queue st.mgr.todo.front).length ≤ (st.added st.mgr.todo.front).length := by
      rw [← h.added, List.length_append]
      omega
    simp only [if_neg hhead, Int.toNat_natCast, (h.heads _).follow_eq hlen, Option.pure_def, Option.some.injEq] at hs
    subst hs
    obtain ⟨m, hm⟩ := Option.ne_none_iff_exists'.mp hhead
    refine .inr ⟨_, queue st.mgr.todo.front, h.lt_nodes _ hhead, fun hnil => hhead (h.queue_eq_nil.mp hnil), rfl, rfl,
      rfl, rfl, rfl, m, ?_⟩
    rw [← hm]

/-- `add_incoming_message` changes nothing that the threads have. -/
theorem add_frame {sender : ℕ} {msg : M} (hs : Incoming.step st (.add sender msg) = some st') :
    (sender < nodes ∧ st'.added = Function.update st.added sender (st.added sender ++ [msg])) ∧
      st'.returned = st.returned ∧ st'.given = st.given ∧ st'.handled = st.handled ∧ st'.current = st.current ∧
      st'.mgr.shutdownFlag = st.mgr.shutdownFlag := by
  obtain ⟨⟨hsender, -⟩, hs⟩ := Option.ite_none_right_eq_some.mp hs
  obtain ⟨mgr, hadd, heq⟩ := Option.bind_eq_some_iff.mp hs
  obtain rfl := Option.some.inj heq
  refine ⟨⟨hsender, rfl⟩, rfl, rfl, rfl, rfl, ?_⟩
  unfold Manager.addIncomingMessage at hadd
  split at hadd
  · obtain ⟨tail, -, heq⟩ := Option.bind_eq_some_iff.mp hadd
    obtain rfl := Option.some.inj heq
    rfl
  · obtain ⟨-, heq⟩ := Option.ite_none_right_eq_some.mp hadd
    obtain rfl := Option.some.inj heq
    rfl

theorem handle_eq {t : ℕ} (hs : Incoming.step st (.handle t) = some st') : ∃ m, st.current t = some m ∧
    st' = { st with
      current := Function.update st.current t (st.mgr.nextMsg m)
      live := Function.update st.live m false
      handled := Function.update st.handled t (st.handled t ++ [m]) } := by
  obtain ⟨m, hm, heq⟩ := Option.bind_eq_some_iff.mp hs
  exact ⟨m, hm, (Option.some.inj heq).symm⟩

end Sections

/-! ## The invariant -/

section Inv

variable [DecidableEq M] {sys sys' : Sys M nodes threads}

/-- What was returned for the senders is what the threads were given. -/
structure Sound (sys : Sys M nodes threads) : Prop where
  inv : Inv sys.st
  flag : sys.st.mgr.shutdownFlag = sys.stop.isSome
  idle : ∀ t, sys.left t = true → sys.st.current t = none ∧ sys.stop.isSome = true
  joined : ∀ k, sys.stop = some k → k ≤ threads ∧ ∀ t < k, sys.left t = true
  balance : tally nodes sys.st.returned = tally threads sys.st.given

theorem sound_init : Sound (Sys.init : Sys M nodes threads) := by
  refine ⟨inv_init, rfl, ?_, ?_, ?_⟩
  · intro t ht
    cases ht
  · intro k hk
    cases hk
  · exact (Finset.sum_eq_zero fun s _ => rfl).trans (Finset.sum_eq_zero fun t _ => rfl).symm

/-- A thread that leaves has nothing to handle. -/
theorem Sound.get (h : Sound sys) {t : ℕ} (hs : step sys (.get t) = some sys') : Sound sys' := by
  obtain ⟨⟨ht, hleft⟩, hs⟩ := Option.ite_none_right_eq_some.mp hs
  obtain ⟨st, hst, heq⟩ := Option.bind_eq_some_iff.mp hs
  obtain rfl := Option.some.inj heq
  have hmono : ∀ t', sys.left t' = true → Function.update sys.left t (st.current t).isNone t' = true :=
    fun t' ht' => update_eq_of_eq ht' (Bool.eq_false_iff.mp hleft) _
  rcases get_cases h.inv hst with ⟨-, hflag, hcur, rfl⟩ | ⟨s, l, hs, -, hret, hgiven, -, -, hflag, m, hcur⟩
  · refine ⟨h.inv, h.flag, fun t' ht' => ?_, fun k hk => ⟨(h.joined k hk).1, ?_⟩, h.balance⟩
    · by_cases heq : t' = t
      · exact ⟨heq ▸ hcur, h.flag.symm.trans hflag⟩
      · exact h.idle t' ((Function.update_of_ne heq _ _).symm.trans ht')
    · exact fun t' ht' => hmono t' ((h.joined k hk).2 t' ht')
  · refine ⟨step_inv h.inv hst, hflag.trans h.flag, fun t' ht' => ?_, fun k hk => ⟨(h.joined k hk).1, ?_⟩, ?_⟩
    · have hcur_t : (st.current t).isNone ≠ true := by
        rw [hcur, Function.update_self]
        exact Bool.false_ne_true
      obtain ⟨hidle, hstop⟩ := h.idle t' (eq_of_update_eq ht' hcur_t)
      refine ⟨?_, hstop⟩
      have hne : t' ≠ t := by
        rintro rfl
        exact hcur_t ((Function.update_self (f := sys.left) t' _).symm.trans ht')
      rw [hcur, Function.update_of_ne hne]
      exact hidle
    · exact fun t' ht' => hmono t' ((h.joined k hk).2 t' ht')
    · simp only [hret, hgiven]
      rw [tally_append hs, tally_append ht, h.balance]

/-- **One step** -/
theorem Sound.step (h : Sound sys) {e : Act M} (hs : step sys e = some sys') : Sound sys' := by
  cases e with
  | add sender msg =>
    obtain ⟨st, hst, heq⟩ := Option.bind_eq_some_iff.mp hs
    obtain rfl := Option.some.inj heq
    obtain ⟨-, hret, hgiven, -, hcur, hflag⟩ := add_frame hst
    refine ⟨step_inv h.inv hst, hflag.trans h.flag, fun t ht => ?_, h.joined, ?_⟩
    · exact ⟨(congrFun hcur t).trans (h.idle t ht).1, (h.idle t ht).2⟩
    · rw [hret, hgiven]
      exact h.balance
  | get t => exact h.get hs
  | handle t =>
    obtain ⟨-, hs⟩ := Option.ite_none_right_eq_some.mp hs
    obtain ⟨st, hst, heq⟩ := Option.bind_eq_some_iff.mp hs
    obtain rfl := Option.some.inj heq
    have hinv := step_inv h.inv hst
    obtain ⟨m, hm, rfl⟩ := handle_eq hst
    refine ⟨hinv, h.flag, fun t' ht' => ⟨?_, (h.idle t' ht').2⟩, h.joined, h.balance⟩
    have hne : t' ≠ t := by
      rintro rfl
      rw [(h.idle t' ht').1] at hm
      cases hm
    exact (Function.update_of_ne hne _ _).trans (h.idle t' ht').1
  | shutdown =>
    obtain ⟨hstop, hs⟩ := Option.ite_none_right_eq_some.mp hs
    obtain ⟨st, hst, heq⟩ := Option.bind_eq_some_iff.mp hs
    obtain rfl := Option.some.inj heq
    have hinv := step_inv h.inv hst
    obtain rfl := Option.some.inj hst
    refine ⟨hinv, rfl, fun t ht => ⟨(h.idle t ht).1, rfl⟩, ?_, h.balance⟩
    intro k hk
    obtain rfl := Option.some.inj hk
    exact ⟨Nat.zero_le _, fun t ht => absurd ht (Nat.not_lt_zero t)⟩
  | join =>
    obtain ⟨k, hk, hs⟩ := Option.bind_eq_some_iff.mp hs
    obtain ⟨⟨hlt, hleft⟩, heq⟩ := Option.ite_none_right_eq_some.mp hs
    obtain rfl := Option.some.inj heq
    refine ⟨h.inv, ?_, fun t ht => ⟨(h.idle t ht).1, rfl⟩, ?_, h.balance⟩
    · rw [h.flag, hk]
      rfl
    · intro k' hk'
      obtain rfl := Option.some.inj hk'
      refine ⟨hlt, fun t ht => ?_⟩
      rcases Nat.lt_succ_iff_lt_or_eq.mp ht with ht | rfl
      · exact (h.joined k hk).2 t ht
      · exact hleft

/-- With the messages that the threads hold, what was given has been handled. -/
theorem Sound.given_eq (h : Sound sys) (t : ℕ) :
    ∃ l, Chain sys.st.mgr.nextMsg (sys.st.current t) l ∧ sys.st.handled t ++ l = sys.st.given t :=
  h.inv.correct.handled t

theorem Sound.returned_le (h : Sound sys) : tally nodes sys.st.returned ≤ tally nodes sys.st.added := by
  refine Finset.sum_le_sum fun s hs => ?_
  obtain ⟨l, -, -, hl⟩ := h.inv.correct.lists s (Finset.mem_range.mp hs)
  rw [← hl]
  exact Multiset.coe_le.mpr (List.sublist_append_left _ _).subperm

theorem Sound.handled_le (h : Sound sys) : tally threads sys.st.handled ≤ tally nodes sys.st.returned := by
  rw [h.balance]
  refine Finset.sum_le_sum fun t _ => ?_
  obtain ⟨l, -, hl⟩ := h.given_eq t
  rw [← hl]
  exact Multiset.coe_le.mpr (List.sublist_append_left _ _).subperm

/-! ## Every message is handled -/

def Drained (sys : Sys M nodes threads) : Prop := AllLeft sys → ∀ s < nodes, sys.st.mgr.heads s = none

theorem Drained.step (h : Drained sys) (hsound : Sound sys) {e : Act M} (hattended : Attended sys e)
    (hs : step sys e = some sys') : Drained sys' := by
  intro hall
  cases e with
  | add sender msg =>
    obtain ⟨st, -, heq⟩ := Option.bind_eq_some_iff.mp hs
    obtain rfl := Option.some.inj heq
    obtain ⟨t, ht, hleft⟩ := hattended
    exact absurd (hall t ht) (Bool.eq_false_iff.mp hleft)
  | get t =>
    obtain ⟨⟨ht, -⟩, hs⟩ := Option.ite_none_right_eq_some.mp hs
    obtain ⟨st, hst, heq⟩ := Option.bind_eq_some_iff.mp hs
    obtain rfl := Option.some.inj heq
    rcases get_cases hsound.inv hst with ⟨hempty, -, -, rfl⟩ | ⟨_, _, -, -, -, -, -, -, -, m, hcur⟩
    · -- the last thread leaves because nothing is in the todo list
      intro s hs
      by_contra hhead
      have hmem := (hsound.inv.correct.mem_todo s).mpr ⟨hs, hhead⟩
      rw [Ring.contents_eq_nil_iff.mpr hempty] at hmem
      cases hmem
    · have hleft := hall t ht
      simp only [hcur, Function.update_self] at hleft
      cases hleft
  | handle t =>
    obtain ⟨-, hs⟩ := Option.ite_none_right_eq_some.mp hs
    obtain ⟨st, hst, heq⟩ := Option.bind_eq_some_iff.mp hs
    obtain rfl := Option.some.inj heq
    obtain ⟨m, -, rfl⟩ := handle_eq hst
    exact h hall
  | shutdown =>
    obtain ⟨-, hs⟩ := Option.ite_none_right_eq_some.mp hs
    obtain ⟨st, hst, heq⟩ := Option.bind_eq_some_iff.mp hs
    obtain rfl := Option.some.inj heq
    obtain rfl := Option.some.inj hst
    exact h hall
  | join =>
    obtain ⟨k, -, hs⟩ := Option.bind_eq_some_iff.mp hs
    obtain ⟨-, heq⟩ := Option.ite_none_right_eq_some.mp hs
    obtain rfl := Option.some.inj heq
    exact h hall

theorem Drained.handled_eq (h : Drained sys) (hsound : Sound sys) (hall : AllLeft sys) :
    tally threads sys.st.handled = tally nodes sys.st.added := by
  have hgiven : tally threads sys.st.handled = tally threads sys.st.given := by
    refine Finset.sum_congr rfl fun t ht => ?_
    obtain ⟨l, hchain, hl⟩ := hsound.given_eq t
    rw [(hsound.idle t (hall t (Finset.mem_range.mp ht))).1, chain_none] at hchain
    rw [← hl, hchain, List.append_nil]
  have hadded : tally nodes sys.st.returned = tally nodes sys.st.added := by
    refine Finset.sum_congr rfl fun s hs => ?_
    obtain ⟨l, hchain, -, hl⟩ := hsound.inv.correct.lists s (Finset.mem_range.mp hs)
    rw [h hall s (Finset.mem_range.mp hs), chain_none] at hchain
    rw [← hl, hchain, List.append_nil]
  rw [hgiven, ← hsound.balance, hadded]

/-! ## `shutdown` returns -/

/-- The handler threads that have not left. -/
def waiting (left : ℕ → Bool) (n : ℕ) : ℕ := ∑ t ∈ Finset.range n, (!left t).toNat

/-- Messages not yet given to a thread count twice. -/
def work (sys : Sys M nodes threads) : ℕ :=
  (2 * (tally nodes sys.st.added).card - (tally nodes sys.st.returned).card - (tally threads sys.st.handled).card) +
    waiting sys.left threads + (threads - sys.stop.getD 0)

theorem work_lt (h : Sound sys) {e : Act M} (hown : e.Own) (hs : step sys e = some sys') : work sys' < work sys := by
  have hret := Multiset.card_le_card h.returned_le
  have hhan := Multiset.card_le_card h.handled_le
  have hret' := Multiset.card_le_card (h.step hs).returned_le
  have hhan' := Multiset.card_le_card (h.step hs).handled_le
  unfold work
  cases e with
  | add sender msg => cases hown
  | shutdown => cases hown
  | get t =>
    obtain ⟨⟨ht, hleft⟩, hs⟩ := Option.ite_none_right_eq_some.mp hs
    obtain ⟨st, hst, heq⟩ := Option.bind_eq_some_iff.mp hs
    obtain rfl := Option.some.inj heq
    have hsum : waiting (Function.update sys.left t (st.current t).isNone) threads + 1 =
        waiting sys.left threads + (!(st.current t).isNone).toNat := by
      have hsum := sum_update (fun b : Bool => (!b).toNat) sys.left (Finset.mem_range.mpr ht) (st.current t).isNone
      rw [hleft] at hsum
      exact hsum
    rcases get_cases h.inv hst with ⟨-, -, hcur, rfl⟩ | ⟨s, l, hs, hl, hreturned, -, hadded, hhandled, -, m, hcur⟩
    · simp only [hcur, Option.isNone_none, Bool.not_true, Bool.toNat_false] at hsum ⊢
      omega
    · have hpos := List.length_pos_iff.mpr hl
      simp only [hcur, Function.update_self, Option.isNone_some, Bool.not_false, Bool.toNat_true] at hsum ⊢
      simp only [hreturned, hadded, hhandled, card_tally_append hs] at hret' hhan' ⊢
      omega
  | handle t =>
    obtain ⟨ht, hs⟩ := Option.ite_none_right_eq_some.mp hs
    obtain ⟨st, hst, heq⟩ := Option.bind_eq_some_iff.mp hs
    obtain rfl := Option.some.inj heq
    obtain ⟨m, -, rfl⟩ := handle_eq hst
    simp only [card_tally_append ht, List.length_singleton] at hret' hhan' ⊢
    omega
  | join =>
    obtain ⟨k, hk, hs⟩ := Option.bind_eq_some_iff.mp hs
    obtain ⟨⟨hlt, -⟩, heq⟩ := Option.ite_none_right_eq_some.mp hs
    obtain rfl := Option.some.inj heq
    simp only [hk, Option.getD_some]
    omega

/-- After the flag is set nobody waits for ever: the thread to be joined can go on. -/
theorem joined_of_stuck (h : Sound sys) {k : ℕ} (hk : sys.stop = some k)
    (hstuck : ∀ e : Act M, e.Own → step sys e = none) : k = threads := by
  by_contra hne
  have hlt : k < threads := Nat.lt_of_le_of_ne (h.joined k hk).1 hne
  cases hleft : sys.left k with
  | true =>
    have hjoin := hstuck .join trivial
    simp only [step, hk, Option.bind_eq_bind, Option.bind_some, hleft, if_pos (And.intro hlt trivial)] at hjoin
    cases hjoin
  | false =>
    cases hcur : sys.st.current k with
    | some m =>
      have hhandle := hstuck (.handle k) trivial
      simp only [step, if_pos hlt, Incoming.step, State.handle, hcur] at hhandle
      cases hhandle
    | none =>
      have hget := hstuck (.get k) trivial
      have hflag : sys.st.mgr.shutdownFlag = true := by
        rw [h.flag, hk]
        rfl
      simp only [step, if_pos (And.intro hlt hleft), Incoming.step, if_pos hcur, State.get, Manager.getMessages,
        hflag, Bool.true_or, if_true] at hget
      split at hget
      · cases hget
      · simp only [Option.bind_eq_bind, Option.bind_some] at hget
        split at hget <;> cases hget

/-- When all have left, nothing is handled any more. -/
theorem handled_of_allLeft (h : Sound sys) (hall : AllLeft sys) {e : Act M} (hs : step sys e = some sys') :
    AllLeft sys' ∧ sys'.st.handled = sys.st.handled ∧
      (tally nodes sys.st.added).card ≤ (tally nodes sys'.st.added).card := by
  cases e with
  | add sender msg =>
    obtain ⟨st, hst, heq⟩ := Option.bind_eq_some_iff.mp hs
    obtain rfl := Option.some.inj heq
    obtain ⟨⟨hsender, hadded⟩, -, -, hhandled, -⟩ := add_frame hst
    refine ⟨hall, hhandled, ?_⟩
    simp only [hadded, card_tally_append hsender]
    omega
  | get t =>
    obtain ⟨⟨ht, hleft⟩, -⟩ := Option.ite_none_right_eq_some.mp hs
    exact absurd (hall t ht) (Bool.eq_false_iff.mp hleft)
  | handle t =>
    obtain ⟨ht, hs⟩ := Option.ite_none_right_eq_some.mp hs
    obtain ⟨st, hst, -⟩ := Option.bind_eq_some_iff.mp hs
    obtain ⟨m, hm, -⟩ := handle_eq hst
    rw [(h.idle t (hall t ht)).1] at hm
    cases hm
  | shutdown =>
    obtain ⟨-, hs⟩ := Option.ite_none_right_eq_some.mp hs
    obtain ⟨st, hst, heq⟩ := Option.bind_eq_some_iff.mp hs
    obtain rfl := Option.some.inj heq
    obtain rfl := Option.some.inj hst
    exact ⟨hall, rfl, Nat.le_refl _⟩
  | join =>
    obtain ⟨k, -, hs⟩ := Option.bind_eq_some_iff.mp hs
    obtain ⟨-, heq⟩ := Option.ite_none_right_eq_some.mp hs
    obtain rfl := Option.some.inj heq
    exact ⟨hall, rfl, Nat.le_refl _⟩

theorem handled_ne_of_add (h : Sound sys) (hall : AllLeft sys) {s : ℕ} {m : M} {sys₁ sys₂ : Sys M nodes threads}
    (hadd : step sys (.add s m) = some sys₁) {es : List (Act M)} (hrun : run step sys₁ es = some sys₂) :
    sys₂.st.handled = sys.st.handled ∧ tally threads sys₂.st.handled ≠ tally nodes sys₂.st.added := by
  have hlt : (tally threads sys.st.handled).card < (tally nodes sys₁.st.added).card := by
    obtain ⟨st, hst, heq⟩ := Option.bind_eq_some_iff.mp hadd
    obtain rfl := Option.some.inj heq
    obtain ⟨⟨hsender, hadded⟩, -⟩ := add_frame hst
    simp only [hadded, card_tally_append hsender, List.length_singleton]
    exact Nat.lt_succ_of_le (Multiset.card_le_card (h.handled_le.trans h.returned_le))
  have hinv : Sound sys₂ ∧ AllLeft sys₂ ∧ sys₂.st.handled = sys.st.handled ∧
      (tally threads sys.st.handled).card < (tally nodes sys₂.st.added).card := by
    refine run_inv (I := fun s => Sound s ∧ AllLeft s ∧ s.st.handled = sys.st.handled ∧
      (tally threads sys.st.handled).card < (tally nodes s.st.added).card) ?_ ⟨h.step hadd, ?_, ?_, hlt⟩ hrun
    · intro s e s' ⟨hs, hall, hhandled, hlt⟩ hstep
      obtain ⟨hall', hhandled', hle⟩ := handled_of_allLeft hs hall hstep
      exact ⟨hs.step hstep, hall', hhandled'.trans hhandled, hlt.trans_le hle⟩
    · exact (handled_of_allLeft h hall hadd).1
    · exact (handled_of_allLeft h hall hadd).2.1
  obtain ⟨-, -, hhandled, hlt₂⟩ := hinv
  refine ⟨hhandled, fun heq => ?_⟩
  rw [← hhandled, heq] at hlt₂
  exact Nat.lt_irrefl _ hlt₂

end Inv

/-- The end of the handler threads: `shutdown` returns, and then everything has been handled. -/
structure Stopped [DecidableEq M] (sys : Sys M nodes threads) : Prop where
  handled : sys.stop = some threads → tally threads sys.st.handled = tally nodes sys.st.added
  ends : Acc (Next step Act.Own) sys
  returns : ∀ k, sys.stop = some k → (∀ e : Act M, e.Own → step sys e = none) → k = threads
  /-- A message that is added when all threads have left is not handled: nothing is handled any more. -/
  lost : ∀ s m sys₁, AllLeft sys → step sys (.add s m) = some sys₁ → ∀ es sys₂, run step sys₁ es = some sys₂ →
    sys₂.st.handled = sys.st.handled ∧ tally threads sys₂.st.handled ≠ tally nodes sys₂.st.added

/-- **The end of the handler threads**: if messages are added only while some thread is still to look for them, then
every message has been handled once when `shutdown` returns, which it does. -/
theorem incomingStopped_of_run [DecidableEq M] (nodes threads : ℕ) (es : List (Act M)) (sys : Sys M nodes threads)
    (hattended : Guarded step Attended (.init : Sys M nodes threads) es) (hrun : run step .init es = some sys) :
    Stopped sys := by
  have hinv : Sound sys ∧ Drained sys := by
    refine run_inv_guarded (I := fun sys => Sound sys ∧ Drained sys) ?_ ⟨sound_init, fun _ s _ => rfl⟩ hattended hrun
    intro s e s' h hC hs
    exact ⟨h.1.step hs, h.2.step h.1 hC hs⟩
  obtain ⟨hsound, hdrained⟩ := hinv
  constructor
  case handled => exact fun hstop => hdrained.handled_eq hsound (hsound.joined threads hstop).2
  case ends =>
    refine acc_of_measure Nat.lt_wfRel.wf (I := Sound) work (fun s e s' h hown hs => ?_) hsound
    exact ⟨h.step hs, work_lt h hown hs⟩
  case returns => exact fun k hk hstuck => joined_of_stuck hsound hk hstuck
  case lost =>
    intro s m sys₁ hall hadd es sys₂ hrun₂
    exact handled_ne_of_add hsound hall hadd hrun₂

/-- Two threads; a message comes while the list of its sender is being handled, and one after `shutdown` was called. -/
theorem incomingStopped_of_run_two :
    ∃ (es : List (Act ℕ)) (sys : Sys ℕ 2 2), run step .init es = some sys ∧ sys.stop = some 2 ∧
      sys.st.handled 0 = [10, 12] ∧ sys.st.handled 1 = [11, 13] ∧ Stopped sys := by
  let es : List (Act ℕ) := [.add 0 10, .add 1 11, .get 0, .add 0 12, .shutdown, .handle 0, .get 1, .handle 1, .add 1 13,
    .get 0, .handle 0, .get 1, .get 0, .handle 1, .get 1, .join, .join]
  obtain ⟨sys, hrun, hstop, hfirst, hsecond⟩ : ∃ sys : Sys ℕ 2 2, run step .init es = some sys ∧ sys.stop = some 2 ∧
      sys.st.handled 0 = [10, 12] ∧ sys.st.handled 1 = [11, 13] := ⟨_, rfl, rfl, rfl, rfl⟩
  have hattended : Guarded step Attended (.init : Sys ℕ 2 2) es := by
    have hzero : (0 : ℕ) < 2 := Nat.two_pos
    refine guarded_cons rfl ⟨0, hzero, rfl⟩ (guarded_cons rfl ⟨0, hzero, rfl⟩ (guarded_cons rfl trivial ?_))
    refine guarded_cons rfl ⟨0, hzero, rfl⟩ (guarded_cons rfl trivial (guarded_cons rfl trivial ?_))
    refine guarded_cons rfl trivial (guarded_cons rfl trivial (guarded_cons rfl ⟨0, hzero, rfl⟩ ?_))
    refine guarded_cons rfl trivial (guarded_cons rfl trivial (guarded_cons rfl trivial (guarded_cons rfl trivial ?_)))
    refine guarded_cons rfl trivial (guarded_cons rfl trivial (guarded_cons rfl trivial (guarded_cons rfl trivial ?_)))
    trivial
  exact ⟨es, sys, hrun, hstop, hfirst, hsecond, incomingStopped_of_run 2 2 es sys hattended hrun⟩

end Realm.IncomingStop

import Mathlib.Data.List.Nodup
import Mathlib.Logic.Function.Basic
import Realm.Mem.Alloc
import Realm.Endpoint.ReplyFuture

/-!
# Realm.Mem.RemoteAlloc — allocation in a memory of another node (`RemoteMemAllocRequest` in `templates/mem_impl.cc`)

`alloc_bytes` of a `RemoteMemory` sends the request to the node that owns the memory and waits for the offset in a
`HandlerReplyFuture` on its stack, whose address travels with the request and comes back with the reply.  The owner
allocates for all nodes and for itself; only the owner can free (`free_bytes_remote` is `assert(0)`).

* `step`: callers on any number of nodes, the owner's handlers and threads, and the replies, in any order.  Addresses of
  futures are used again as soon as a call has returned.
* `Inv`: a live future has its request under way, or its reply, or is being set, and a message always finds its future.
* `remoteAlloc_of_run`: every caller gets the offset that was allocated for its own request, and the blocks of all nodes
  are disjoint.
-/

namespace Realm.RemoteAlloc

open Lib Span

/-! ## The protocol -/

/-- `args.sender` and `args.resp_ptr`: the node and the address of a future. -/
structure Key (n : ℕ) where
  sender : Fin n
  respPtr : ℕ
deriving DecidableEq

/-- `RemoteMemAllocRequest::RequestArgs`; `call` is the number of the call. -/
structure Request (n : ℕ) where
  key : Key n
  size : ℕ
  call : ℕ
deriving DecidableEq

/-- `RemoteMemAllocRequest::ResponseArgs` -/
structure Response (n : ℕ) where
  key : Key n
  offset : ℤ
  call : ℕ
deriving DecidableEq

/-- A call of `RemoteMemAllocRequest::send_request` that has not returned. -/
structure Frame where
  call : ℕ
  size : ℕ
  result : Future ℤ

/-- The owner's memory, the calls by the addresses of their futures, and the messages.  The other fields are history:
the number of calls, the results that the owner's handlers had and those that the callers got (with the number of the
call and the size), and the blocks freed. -/
structure State (n : ℕ) where
  alloc : Alloc.State
  frames : Key n → Option Frame
  requests : List (Request n)
  responses : List (Response n)
  next : ℕ
  served : List (ℕ × ℕ × ℤ)
  returned : List (ℕ × ℕ × Option ℤ)
  freed : List (ℕ × ℕ)

variable {n : ℕ}

def State.init (n size alignment : ℕ) : State n := ⟨.init size alignment, fun _ => none, [], [], 0, [], [], []⟩

/-- The memory after `alloc_bytes_local(size)` on the owner. -/
def allocLocal (st : Alloc.State) (size : ℕ) : Alloc.State :=
  let (retval, impl) := st.impl.allocBytesLocal size
  ⟨impl, if retval = -1 then st.live else (retval.toNat, size) :: st.live⟩

/-- `call`: `alloc_bytes_remote` up to the request; `handle`: `handle_request` on the owner; `respond`:
`handle_response`, up to the lock in `set`; `future`: the rest of `set`, and `wait` and `get`; `allocOwner` and
`freeOwner`: the owner's own threads. -/
inductive Event (n : ℕ)
  | call (k : Key n) (size : ℕ)
  | handle (r : Request n)
  | respond (p : Response n)
  | future (k : Key n) (e : Future.Event ℤ)
  | allocOwner (size : ℕ)
  | freeOwner (offset size : ℕ)

/-- The thread of the call has taken a step: when `get` has returned, the call is over. -/
def State.resume (s : State n) (k : Key n) (fr : Frame) (f : Future ℤ) : State n :=
  match f.waiter with
  | .returned result =>
    { s with frames := Function.update s.frames k none, returned := s.returned ++ [(fr.call, fr.size, result)] }
  | _ => { s with frames := Function.update s.frames k (some { fr with result := f }) }

def step (owner : Fin n) (s : State n) : Event n → Option (State n)
  | .call k size =>
    if s.frames k = none ∧ k.sender ≠ owner then
      some { s with
        frames := Function.update s.frames k (some ⟨s.next, size, .init⟩)
        requests := s.requests ++ [⟨k, size, s.next⟩]
        next := s.next + 1 }
    else none
  | .handle r =>
    if r ∈ s.requests then
      let offset := (s.alloc.impl.allocBytesLocal r.size).1
      some { s with
        alloc := allocLocal s.alloc r.size
        requests := s.requests.erase r
        responses := s.responses ++ [⟨r.key, offset, r.call⟩]
        served := s.served ++ [(r.call, r.size, offset)] }
    else none
  | .respond p =>
    if p ∈ s.responses then
      (s.frames p.key).bind fun fr => (fr.result.step (.lock p.offset)).map fun f =>
        { s with
          frames := Function.update s.frames p.key (some { fr with result := f })
          responses := s.responses.erase p }
    else none
  | .future k e =>
    if e.isLock then none else (s.frames k).bind fun fr => (fr.result.step e).map fun f => s.resume k fr f
  | .allocOwner size => some { s with alloc := allocLocal s.alloc size }
  | .freeOwner offset size =>
    (Alloc.step s.alloc (.free offset size)).map fun st => { s with alloc := st, freed := s.freed ++ [(offset, size)] }

/-- No caller looks at `valid` between `valid = true` and the end of `set`, and nobody asks for more bytes than the
memory has. -/
def Proper (s : State n) : Event n → Prop
  | .call _ size => size ≤ s.alloc.impl.size
  | .allocOwner size => size ≤ s.alloc.impl.size
  | .future k e => ∀ fr, s.frames k = some fr → fr.result.Proper e
  | _ => True

/-! ## The messages of one future -/

section Filter

variable {α : Type} [DecidableEq α] {p : α → Bool} {l : List α} {a b : α}

theorem filter_erase_of_false (h : p a = false) : (l.erase a).filter p = l.filter p := by
  induction l with
  | nil => rfl
  | cons x l ih =>
    rw [List.erase_cons]
    split
    · rename_i hx
      rw [beq_iff_eq.mp hx, List.filter_cons_of_neg (by rw [h]; exact Bool.false_ne_true)]
    · rw [List.filter_cons, List.filter_cons, ih]

/-- The only one of its kind is erased. -/
theorem filter_erase_of_eq_singleton (ha : a ∈ l) (hp : p a = true) (h : l.filter p = [b]) :
    b = a ∧ (l.erase a).filter p = [] := by
  have hperm : (l.filter p).Perm (a :: (l.erase a).filter p) := by
    have hp' := (List.perm_cons_erase ha).filter p
    rwa [List.filter_cons_of_pos hp] at hp'
  rw [h, List.singleton_perm] at hperm
  rw [List.cons.injEq] at hperm
  exact ⟨hperm.1, hperm.2.symm⟩

end Filter

/-- The requests of the future `k`. -/
def State.requestsOf (s : State n) (k : Key n) : List (Request n) := s.requests.filter (·.key = k)

def State.responsesOf (s : State n) (k : Key n) : List (Response n) := s.responses.filter (·.key = k)

/-- The value that `set` was called with. -/
def newval {β : Type} : Future.Setter β → Option β
  | .idle => none
  | .locked v => some v
  | .marked v => some v
  | .stored v => some v
  | .finished v => some v

/-- Where the request of a live future is: under way, answered, or handed to `set`. -/
inductive Phase (s : State n) (k : Key n) (fr : Frame) : Prop
  | asked (hset : newval fr.result.setter = none) (hreq : s.requestsOf k = [⟨k, fr.size, fr.call⟩])
      (hresp : s.responsesOf k = [])
  | answered (offset : ℤ) (hset : newval fr.result.setter = none) (hreq : s.requestsOf k = [])
      (hresp : s.responsesOf k = [⟨k, offset, fr.call⟩]) (hserved : (fr.call, fr.size, offset) ∈ s.served)
  | setting (offset : ℤ) (hset : newval fr.result.setter = some offset) (hreq : s.requestsOf k = [])
      (hresp : s.responsesOf k = []) (hserved : (fr.call, fr.size, offset) ∈ s.served)

/-- What a key looks like: no call and no message, or a call with its message. -/
inductive KeyInv (s : State n) (k : Key n) : Prop
  | free (hframe : s.frames k = none) (hreq : s.requestsOf k = []) (hresp : s.responsesOf k = [])
  | used (fr : Frame) (hframe : s.frames k = some fr) (hfuture : fr.result.Inv)
      (hwait : ∀ r, fr.result.waiter ≠ .returned r) (hcall : fr.call < s.next) (hphase : Phase s k fr)

theorem Phase.mono {s s' : State n} {k : Key n} {fr fr' : Frame} (h : Phase s k fr)
    (hcall : fr'.call = fr.call) (hsize : fr'.size = fr.size)
    (hset : newval fr'.result.setter = newval fr.result.setter) (hreq : s'.requestsOf k = s.requestsOf k)
    (hresp : s'.responsesOf k = s.responsesOf k) (hserved : ∀ x ∈ s.served, x ∈ s'.served) : Phase s' k fr' := by
  cases h with
  | asked h₁ h₂ h₃ => exact .asked (hset.trans h₁) (by rw [hreq, h₂, hcall, hsize]) (hresp.trans h₃)
  | answered offset h₁ h₂ h₃ h₄ =>
    refine .answered offset (hset.trans h₁) (hreq.trans h₂) (by rw [hresp, h₃, hcall]) ?_
    rw [hcall, hsize]
    exact hserved _ h₄
  | setting offset h₁ h₂ h₃ h₄ =>
    refine .setting offset (hset.trans h₁) (hreq.trans h₂) (hresp.trans h₃) ?_
    rw [hcall, hsize]
    exact hserved _ h₄

/-- A step that has nothing to do with the key. -/
theorem KeyInv.frame {s s' : State n} {k : Key n} (h : KeyInv s k) (hframe : s'.frames k = s.frames k)
    (hreq : s'.requestsOf k = s.requestsOf k) (hresp : s'.responsesOf k = s.responsesOf k)
    (hserved : ∀ x ∈ s.served, x ∈ s'.served) (hnext : s.next ≤ s'.next) : KeyInv s' k := by
  cases h with
  | free h₁ h₂ h₃ => exact .free (hframe.trans h₁) (hreq.trans h₂) (hresp.trans h₃)
  | used fr h₁ h₂ h₃ h₄ h₅ =>
    exact .used fr (hframe.trans h₁) h₂ h₃ (by omega) (h₅.mono rfl rfl rfl hreq hresp hserved)

/-- A request that is under way has its future, which waits for it. -/
theorem KeyInv.of_request {s : State n} {r : Request n} (h : KeyInv s r.key) (hr : r ∈ s.requests) :
    ∃ fr, s.frames r.key = some fr ∧ fr.result.Inv ∧ (∀ x, fr.result.waiter ≠ .returned x) ∧ fr.call < s.next ∧
      newval fr.result.setter = none ∧ r = ⟨r.key, fr.size, fr.call⟩ ∧
      (s.requests.erase r).filter (·.key = r.key) = [] ∧ s.responsesOf r.key = [] := by
  have hmem : r ∈ s.requestsOf r.key := List.mem_filter.mpr ⟨hr, decide_eq_true rfl⟩
  cases h with
  | free _ hreq _ =>
    rw [hreq] at hmem
    cases hmem
  | used fr hframe hfuture hwait hcall hphase =>
    cases hphase with
    | asked hset hreq hresp =>
      obtain ⟨hb, herase⟩ := filter_erase_of_eq_singleton hr (decide_eq_true rfl) hreq
      exact ⟨fr, hframe, hfuture, hwait, hcall, hset, hb.symm, herase, hresp⟩
    | answered offset hset hreq hresp hserved =>
      rw [hreq] at hmem
      cases hmem
    | setting offset hset hreq hresp hserved =>
      rw [hreq] at hmem
      cases hmem

/-- A reply that is under way has its future, which was not set yet. -/
theorem KeyInv.of_response {s : State n} {p : Response n} (h : KeyInv s p.key) (hp : p ∈ s.responses) :
    ∃ fr, s.frames p.key = some fr ∧ fr.result.Inv ∧ (∀ x, fr.result.waiter ≠ .returned x) ∧ fr.call < s.next ∧
      newval fr.result.setter = none ∧ (fr.call, fr.size, p.offset) ∈ s.served ∧
      (s.responses.erase p).filter (·.key = p.key) = [] ∧ s.requestsOf p.key = [] := by
  have hmem : p ∈ s.responsesOf p.key := List.mem_filter.mpr ⟨hp, decide_eq_true rfl⟩
  cases h with
  | free _ _ hresp =>
    rw [hresp] at hmem
    cases hmem
  | used fr hframe hfuture hwait hcall hphase =>
    cases hphase with
    | asked hset hreq hresp =>
      rw [hresp] at hmem
      cases hmem
    | answered offset hset hreq hresp hserved =>
      obtain ⟨hb, herase⟩ := filter_erase_of_eq_singleton hp (decide_eq_true rfl) hresp
      have hoffset : p.offset = offset := by rw [← hb]
      exact ⟨fr, hframe, hfuture, hwait, hcall, hset, by rw [hoffset]; exact hserved, herase, hreq⟩
    | setting offset hset hreq hresp hserved =>
      rw [hresp] at hmem
      cases hmem

/-! ## The invariant -/

structure Inv (N A : ℕ) (s : State n) : Prop where
  alloc : Alloc.Inv N A s.alloc
  key : ∀ k, KeyInv s k
  calls : ∀ k k' fr fr', s.frames k = some fr → s.frames k' = some fr' → fr.call = fr'.call → k = k'
  served_lt : ∀ x ∈ s.served, x.1 < s.next
  served_nodup : (s.served.map Prod.fst).Nodup
  unserved : ∀ r ∈ s.requests, r.call ∉ s.served.map Prod.fst
  returned : ∀ x ∈ s.returned, ∃ offset, x.2.2 = some offset ∧ (x.1, x.2.1, offset) ∈ s.served
  returned_nodup : (s.returned.map Prod.fst).Nodup
  waiting : ∀ k fr, s.frames k = some fr → fr.call ∉ s.returned.map Prod.fst
  granted : ∀ x ∈ s.served, x.2.2 ≠ -1 → (x.2.2.toNat, x.2.1) ∈ s.alloc.live ∨ (x.2.2.toNat, x.2.1) ∈ s.freed

theorem Inv.init {N : ℕ} (hN : 0 < N) (A : ℕ) : Inv N A (State.init n N A) where
  alloc := Alloc.Inv.init hN
  key k := .free rfl rfl rfl
  calls _ _ _ _ h := by cases h
  served_lt _ h := by cases h
  served_nodup := List.nodup_nil
  unserved _ h := by cases h
  returned _ h := by cases h
  returned_nodup := List.nodup_nil
  waiting _ _ h := by cases h
  granted _ h := by cases h

theorem Inv.returned_lt {N A : ℕ} {s : State n} (h : Inv N A s) {c : ℕ} (hc : c ∈ s.returned.map Prod.fst) :
    c < s.next := by
  obtain ⟨x, hx, rfl⟩ := List.mem_map.mp hc
  obtain ⟨offset, -, hserved⟩ := h.returned x hx
  exact h.served_lt _ hserved

theorem Inv.frame_lt {N A : ℕ} {s : State n} (h : Inv N A s) {k : Key n} {fr : Frame} (hfr : s.frames k = some fr) :
    fr.call < s.next := by
  cases h.key k with
  | free hframe =>
    rw [hframe] at hfr
    cases hfr
  | used fr' hframe _ _ hcall _ =>
    rw [hframe, Option.some.injEq] at hfr
    exact hfr ▸ hcall

theorem update_eq_some {frames : Key n → Option Frame} {k i : Key n} {v : Option Frame} {g : Frame}
    (h : Function.update frames k v i = some g) : (i = k ∧ v = some g) ∨ (i ≠ k ∧ frames i = some g) := by
  by_cases hik : i = k
  · subst hik
    rw [Function.update_self] at h
    exact Or.inl ⟨rfl, h⟩
  · rw [Function.update_of_ne hik] at h
    exact Or.inr ⟨hik, h⟩

/-- When a call goes on, its number is as before. -/
theorem update_some_eq_some {frames : Key n → Option Frame} {k i : Key n} {fr fr' g : Frame}
    (hfr : frames k = some fr) (hcall : fr'.call = fr.call) (h : Function.update frames k (some fr') i = some g) :
    ∃ g', frames i = some g' ∧ g'.call = g.call := by
  rcases update_eq_some h with ⟨rfl, hg⟩ | ⟨-, hg⟩
  · rw [Option.some.injEq] at hg
    exact ⟨fr, hfr, by rw [← hg, hcall]⟩
  · exact ⟨g, hg, rfl⟩

theorem Inv.call {N A : ℕ} {s : State n} (h : Inv N A s) {k : Key n} (size : ℕ) (hk : s.frames k = none) :
    Inv N A { s with
      frames := Function.update s.frames k (some ⟨s.next, size, .init⟩)
      requests := s.requests ++ [⟨k, size, s.next⟩]
      next := s.next + 1 } where
  alloc := h.alloc
  key := by
    intro j
    by_cases hjk : j = k
    · subst hjk
      cases h.key j with
      | free _ hreq hresp =>
        refine .used ⟨s.next, size, .init⟩ (Function.update_self ..) Future.Inv.init (fun _ hw => by cases hw)
          (Nat.lt_succ_self _) (.asked rfl ?_ hresp)
        show (s.requests ++ [_]).filter _ = _
        rw [List.filter_append]
        change s.requestsOf j ++ _ = _
        rw [hreq]
        simp
      | used fr hframe =>
        rw [hk] at hframe
        cases hframe
    · refine (h.key j).frame (Function.update_of_ne hjk ..) ?_ rfl (fun _ hx => hx) (Nat.le_succ _)
      show (s.requests ++ [_]).filter _ = _
      rw [List.filter_append, List.filter_cons_of_neg (by simp [Ne.symm hjk]), List.filter_nil, List.append_nil]
      rfl
  calls := by
    intro i j fi fj hi hj heq
    rcases update_eq_some hi with ⟨hik, hi'⟩ | ⟨-, hi'⟩ <;> rcases update_eq_some hj with ⟨hjk, hj'⟩ | ⟨-, hj'⟩
    · rw [hik, hjk]
    · have hlt := h.frame_lt hj'
      rw [← heq, ← Option.some.inj hi'] at hlt
      exact absurd hlt (Nat.lt_irrefl _)
    · have hlt := h.frame_lt hi'
      rw [heq, ← Option.some.inj hj'] at hlt
      exact absurd hlt (Nat.lt_irrefl _)
    · exact h.calls i j fi fj hi' hj' heq
  served_lt x hx := (h.served_lt x hx).trans (Nat.lt_succ_self _)
  served_nodup := h.served_nodup
  unserved := by
    intro r hr
    rcases List.mem_append.mp hr with hr | hr
    · exact h.unserved r hr
    · rw [List.mem_singleton.mp hr]
      intro hmem
      obtain ⟨x, hx, hnext⟩ := List.mem_map.mp hmem
      have hlt := h.served_lt x hx
      rw [hnext] at hlt
      exact absurd hlt (Nat.lt_irrefl _)
  returned := h.returned
  returned_nodup := h.returned_nodup
  waiting := by
    intro i g hg
    rcases update_eq_some hg with ⟨-, hg'⟩ | ⟨-, hg'⟩
    · rw [← Option.some.inj hg']
      exact fun hc => Nat.lt_irrefl _ (h.returned_lt hc)
    · exact h.waiting i g hg'
  granted := h.granted

/-- Blocks that were granted stay live over an allocation. -/
theorem mem_live_allocLocal {st : Alloc.State} {x : ℕ × ℕ} (size : ℕ) (hx : x ∈ st.live) :
    x ∈ (allocLocal st size).live := by
  simp only [allocLocal]
  split
  · exact hx
  · exact List.mem_cons_of_mem _ hx

theorem Inv.handle {N A : ℕ} {s : State n} (hA : 1 ≤ A) (hN : A ∣ N) (hlt : N < 2 ^ 62) (h : Inv N A s)
    {r : Request n} (hr : r ∈ s.requests) :
    Inv N A { s with
      alloc := allocLocal s.alloc r.size
      requests := s.requests.erase r
      responses := s.responses ++ [⟨r.key, (s.alloc.impl.allocBytesLocal r.size).1, r.call⟩]
      served := s.served ++ [(r.call, r.size, (s.alloc.impl.allocBytesLocal r.size).1)] } := by
  obtain ⟨fr, hframe, hfuture, hwait, hcall, hset, hreq_eq, herase, hresp⟩ := (h.key r.key).of_request hr
  have hrcall : r.call = fr.call := by rw [hreq_eq]
  have hrsize : r.size = fr.size := by rw [hreq_eq]
  refine ⟨h.alloc.alloc hA hN hlt r.size, fun j => ?_, h.calls, ?_, ?_, ?_, ?_, h.returned_nodup, h.waiting, ?_⟩
  · by_cases hjk : j = r.key
    · subst hjk
      refine .used fr hframe hfuture hwait hcall (.answered (s.alloc.impl.allocBytesLocal r.size).1 hset herase ?_ ?_)
      · show (s.responses ++ [_]).filter _ = _
        rw [List.filter_append]
        change s.responsesOf r.key ++ _ = _
        rw [hresp]
        simp [hrcall]
      · rw [← hrcall, ← hrsize]
        exact List.mem_append_right _ (List.mem_singleton_self _)
    · refine (h.key j).frame rfl ?_ ?_ (fun _ hx => List.mem_append_left _ hx) le_rfl
      · exact filter_erase_of_false (decide_eq_false (Ne.symm hjk))
      · show (s.responses ++ [_]).filter _ = _
        rw [List.filter_append, List.filter_cons_of_neg (by simp [Ne.symm hjk]), List.filter_nil, List.append_nil]
        rfl
  · intro x hx
    rcases List.mem_append.mp hx with hx | hx
    · exact h.served_lt x hx
    · rw [List.mem_singleton.mp hx]
      show r.call < s.next
      rw [hrcall]
      exact hcall
  · rw [List.map_append]
    refine List.nodup_append.mpr ⟨h.served_nodup, List.nodup_singleton _, ?_⟩
    intro a ha b hb hab
    rw [List.map_singleton, List.mem_singleton] at hb
    rw [hab, hb] at ha
    exact h.unserved r hr ha
  · intro r' hr' hmem
    rw [List.map_append] at hmem
    rcases List.mem_append.mp hmem with hmem | hmem
    · exact h.unserved r' (List.mem_of_mem_erase hr') hmem
    · -- two requests with the number of one call
      rw [List.map_singleton, List.mem_singleton] at hmem
      obtain ⟨fr', hframe', -, -, -, -, hr'_eq, -, -⟩ := (h.key r'.key).of_request (List.mem_of_mem_erase hr')
      have hr'call : r'.call = fr'.call := by rw [hr'_eq]
      have hkey := h.calls _ _ _ _ hframe' hframe (by rw [← hr'call, ← hrcall]; exact hmem)
      have hin : r' ∈ (s.requests.erase r).filter (·.key = r.key) :=
        List.mem_filter.mpr ⟨hr', decide_eq_true hkey⟩
      rw [herase] at hin
      cases hin
  · intro x hx
    obtain ⟨offset, heq, hserved⟩ := h.returned x hx
    exact ⟨offset, heq, List.mem_append_left _ hserved⟩
  · intro x hx hne
    rcases List.mem_append.mp hx with hx | hx
    · rcases h.granted x hx hne with hlive | hfreed
      · exact Or.inl (mem_live_allocLocal _ hlive)
      · exact Or.inr hfreed
    · rw [List.mem_singleton] at hx
      subst hx
      left
      simp only [allocLocal]
      rw [if_neg hne]
      exact List.mem_cons_self

/-- A call goes on: its future has changed, and its reply may have been handed to `set`. -/
theorem Inv.goOn {N A : ℕ} {s s' : State n} (h : Inv N A s) {k : Key n} {fr c : Frame}
    (hfr : s.frames k = some fr) (hcall : c.call = fr.call) (hfuture : c.result.Inv)
    (hwait : ∀ r, c.result.waiter ≠ .returned r) (hphase : Phase s' k c)
    (hframes : s'.frames = Function.update s.frames k (some c)) (hreq : s'.requests = s.requests)
    (hresp : ∀ j, j ≠ k → s'.responsesOf j = s.responsesOf j) (halloc : s'.alloc = s.alloc)
    (hnext : s'.next = s.next) (hserved : s'.served = s.served) (hreturned : s'.returned = s.returned)
    (hfreed : s'.freed = s.freed) : Inv N A s' := by
  refine ⟨halloc ▸ h.alloc, fun j => ?_, fun i j gi gj hi hj heq => ?_, ?_, ?_, ?_, ?_, ?_, fun i g hg => ?_, ?_⟩
  · by_cases hjk : j = k
    · subst hjk
      refine .used c (by rw [hframes, Function.update_self]) hfuture hwait ?_ hphase
      rw [hcall, hnext]
      exact h.frame_lt hfr
    · refine (h.key j).frame (by rw [hframes, Function.update_of_ne hjk]) ?_ (hresp j hjk) (fun x hx => ?_) hnext.ge
      · unfold State.requestsOf
        rw [hreq]
      · rwa [hserved]
  · rw [hframes] at hi hj
    obtain ⟨gi', hi', hci⟩ := update_some_eq_some hfr hcall hi
    obtain ⟨gj', hj', hcj⟩ := update_some_eq_some hfr hcall hj
    exact h.calls i j gi' gj' hi' hj' (by rw [hci, hcj, heq])
  · rw [hserved, hnext]
    exact h.served_lt
  · rw [hserved]
    exact h.served_nodup
  · rw [hreq, hserved]
    exact h.unserved
  · rw [hreturned, hserved]
    exact h.returned
  · rw [hreturned]
    exact h.returned_nodup
  · rw [hframes] at hg
    obtain ⟨c, hc, hcg⟩ := update_some_eq_some hfr hcall hg
    rw [hreturned, ← hcg]
    exact h.waiting i c hc
  · rw [hserved, halloc, hfreed]
    exact h.granted

theorem idle_of_newval {β : Type} {st : Future.Setter β} (h : newval st = none) : st = .idle := by
  cases st <;> simp [newval] at h
  rfl

/-- `set` goes on with the value it was called with. -/
theorem newval_of_step {β : Type} {f f' : Future β} {e : Future.Event β} (he : e.isLock = false)
    (hstep : f.step e = some f') : newval f'.setter = newval f.setter := by
  cases Future.step_cases hstep with
  | lock v hs => cases he
  | mark v hs => rw [hs]; rfl
  | store v hs => rw [hs]; rfl
  | unlock v hs w hw => rw [hs]; rfl
  | look hw => rfl
  | enter hw hs => rfl
  | wake hw => rfl
  | get hw => rfl

theorem Inv.respond {N A : ℕ} {s s' : State n} (h : Inv N A s) {p : Response n} (hp : p ∈ s.responses) {fr : Frame}
    {f : Future ℤ} (hfr : s.frames p.key = some fr) (hlock : fr.result.step (.lock p.offset) = some f)
    (hs' : s' = { s with
      frames := Function.update s.frames p.key (some { fr with result := f })
      responses := s.responses.erase p }) : Inv N A s' := by
  obtain ⟨fr', hfr', hfuture, hwait, -, hset, hserved, herase, hreq⟩ := (h.key p.key).of_response hp
  obtain rfl : fr = fr' := Option.some.inj (hfr.symm.trans hfr')
  have hinv := hfuture.step (e := .lock p.offset) trivial hlock
  have hcase := Future.step_cases hlock
  subst hs'
  refine h.goOn (c := { fr with result := f }) hfr rfl hinv (fun r hr => ?_) ?_ rfl rfl (fun j hj => ?_) rfl rfl rfl
    rfl rfl
  · cases hcase with
    | lock _ _ => exact hwait r hr
  · refine .setting p.offset ?_ hreq herase hserved
    cases hcase with
    | lock _ _ => rfl
  · exact filter_erase_of_false (decide_eq_false (Ne.symm hj))

theorem Inv.resume {N A : ℕ} {s : State n} (h : Inv N A s) {k : Key n} {fr : Frame} {f : Future ℤ}
    {e : Future.Event ℤ} (he : e.isLock = false) (hfr : s.frames k = some fr) (hproper : fr.result.Proper e)
    (hstep : fr.result.step e = some f) : Inv N A (s.resume k fr f) := by
  cases h.key k with
  | free hframe =>
    rw [hfr] at hframe
    cases hframe
  | used fr' hframe hfuture hwait hcall hphase =>
    obtain rfl : fr = fr' := Option.some.inj (hfr.symm.trans hframe)
    have hinv := hfuture.step hproper hstep
    have hnewval := newval_of_step he hstep
    unfold State.resume
    split
    · -- `get` has returned: the value was handed to `set`, and no message is left
      rename_i r hr
      obtain ⟨v, hv, rfl⟩ := hinv.returned r hr
      have hsome : newval fr.result.setter = some v := by
        rw [← hnewval, hv]
        rfl
      cases hphase with
      | asked hset => simp [hsome] at hset
      | answered _ hset => simp [hsome] at hset
      | setting offset hset hreq hresp hserved =>
        obtain rfl : offset = v := by
          rw [hset, Option.some.injEq] at hsome
          exact hsome
        refine ⟨h.alloc, fun j => ?_, fun i j gi gj hi hj heq => ?_, h.served_lt, h.served_nodup, h.unserved, ?_, ?_,
          fun i g hg => ?_, h.granted⟩
        · by_cases hjk : j = k
          · subst hjk
            exact .free (Function.update_self ..) hreq hresp
          · exact (h.key j).frame (Function.update_of_ne hjk ..) rfl rfl (fun _ hx => hx) le_rfl
        · rcases update_eq_some hi with ⟨-, hi'⟩ | ⟨-, hi'⟩
          · cases hi'
          · rcases update_eq_some hj with ⟨-, hj'⟩ | ⟨-, hj'⟩
            · cases hj'
            · exact h.calls i j gi gj hi' hj' heq
        · intro x hx
          rcases List.mem_append.mp hx with hx | hx
          · exact h.returned x hx
          · rw [List.mem_singleton.mp hx]
            exact ⟨offset, rfl, hserved⟩
        · rw [List.map_append]
          refine List.nodup_append.mpr ⟨h.returned_nodup, List.nodup_singleton _, ?_⟩
          intro a ha b hb hab
          rw [List.map_singleton, List.mem_singleton] at hb
          rw [hab, hb] at ha
          exact h.waiting k fr hfr ha
        · rcases update_eq_some hg with ⟨-, hg'⟩ | ⟨hik, hg'⟩
          · cases hg'
          · rw [List.map_append]
            intro hmem
            rcases List.mem_append.mp hmem with hmem | hmem
            · exact h.waiting i g hg' hmem
            · rw [List.map_singleton, List.mem_singleton] at hmem
              exact hik (h.calls i k g fr hg' hfr hmem)
    · rename_i hnot
      refine h.goOn (c := { fr with result := f }) hfr rfl hinv (fun r hr => hnot r hr) ?_ rfl rfl (fun _ _ => rfl)
        rfl rfl rfl rfl rfl
      exact hphase.mono rfl rfl hnewval rfl rfl fun _ hx => hx

/-- The memory changes under the owner's lock. -/
theorem Inv.setAlloc {N A : ℕ} {s : State n} (h : Inv N A s) {st : Alloc.State} {freed : List (ℕ × ℕ)}
    (hst : Alloc.Inv N A st)
    (hgranted : ∀ x, x ∈ s.alloc.live ∨ x ∈ s.freed → x ∈ st.live ∨ x ∈ freed) :
    Inv N A { s with alloc := st, freed := freed } where
  alloc := hst
  key k := (h.key k).frame rfl rfl rfl (fun _ hx => hx) le_rfl
  calls := h.calls
  served_lt := h.served_lt
  served_nodup := h.served_nodup
  unserved := h.unserved
  returned := h.returned
  returned_nodup := h.returned_nodup
  waiting := h.waiting
  granted x hx hne := hgranted _ (h.granted x hx hne)

theorem Inv.step {N A : ℕ} (hA : 1 ≤ A) (hN : A ∣ N) (hlt : N < 2 ^ 62) {owner : Fin n} {s s' : State n} {e : Event n}
    (h : Inv N A s) (hproper : Proper s e) (hstep : step owner s e = some s') : Inv N A s' := by
  cases e with
  | call k size =>
    obtain ⟨hk, hstep⟩ := Option.ite_none_right_eq_some.mp hstep
    cases hstep
    exact h.call size hk.1
  | handle r =>
    obtain ⟨hr, hstep⟩ := Option.ite_none_right_eq_some.mp hstep
    cases hstep
    exact h.handle hA hN hlt hr
  | respond p =>
    obtain ⟨hp, hstep⟩ := Option.ite_none_right_eq_some.mp hstep
    obtain ⟨fr, hfr, hstep⟩ := Option.bind_eq_some_iff.mp hstep
    obtain ⟨f, hlock, hs'⟩ := Option.map_eq_some_iff.mp hstep
    exact h.respond hp hfr hlock hs'.symm
  | future k e =>
    obtain ⟨he, hstep⟩ := Option.ite_none_left_eq_some.mp hstep
    obtain ⟨fr, hfr, hstep⟩ := Option.bind_eq_some_iff.mp hstep
    obtain ⟨f, hf, rfl⟩ := Option.map_eq_some_iff.mp hstep
    exact h.resume (Bool.eq_false_iff.mpr he) hfr (hproper fr hfr) hf
  | allocOwner size =>
    cases hstep
    refine h.setAlloc (h.alloc.alloc hA hN hlt size) fun x hx => ?_
    rcases hx with hx | hx
    · exact Or.inl (mem_live_allocLocal size hx)
    · exact Or.inr hx
  | freeOwner offset size =>
    obtain ⟨st, hfree, rfl⟩ := Option.map_eq_some_iff.mp hstep
    obtain ⟨hlive, hfree⟩ := Option.ite_none_right_eq_some.mp hfree
    obtain ⟨impl, himpl, rfl⟩ := Option.map_eq_some_iff.mp hfree
    obtain ⟨impl', himpl', hinv⟩ := h.alloc.free hlt hlive
    obtain rfl : impl = impl' := Option.some.inj (himpl.symm.trans himpl')
    refine h.setAlloc hinv fun x hx => ?_
    rcases hx with hx | hx
    · by_cases hxe : x = (offset, size)
      · exact Or.inr (List.mem_append_right _ (by rw [hxe]; exact List.mem_singleton_self _))
      · exact Or.inl ((List.mem_erase_of_ne hxe).mpr hx)
    · exact Or.inr (List.mem_append_left _ hx)

/-! ## Every interleaving -/

/-- What callers can rely on: `own`, a call returns the offset that the owner allocated for it; `once`, no request is
served twice and no call returns twice; `granted`, a served block is live until it is freed; `disjoint` and `inside`,
the live blocks of all nodes; `alive`, a reply finds its future alive and not set; `freeable`, the owner can free every
live block. -/
structure Sound (N A : ℕ) (s : State n) : Prop where
  own : ∀ c size r, (c, size, r) ∈ s.returned → ∃ offset, r = some offset ∧ (c, size, offset) ∈ s.served
  once : (s.served.map Prod.fst).Nodup ∧ (s.returned.map Prod.fst).Nodup
  granted : ∀ c size offset, (c, size, offset) ∈ s.served → offset ≠ -1 →
    (offset.toNat, size) ∈ s.alloc.live ∨ (offset.toNat, size) ∈ s.freed
  disjoint : (Alloc.spans A s.alloc.live).Pairwise Disj
  inside : ∀ x ∈ Alloc.spans A s.alloc.live, x.1 + x.2 ≤ N ∧ A ∣ x.1
  alive : ∀ p ∈ s.responses, ∃ fr, s.frames p.key = some fr ∧ (fr.result.step (.lock p.offset)).isSome ∧
    fr.result.usedAfterFree = false
  freeable : ∀ p ∈ s.alloc.live, (s.alloc.impl.freeBytesLocal p.1 p.2).isSome

theorem Inv.sound {N A : ℕ} {s : State n} (hlt : N < 2 ^ 62) (h : Inv N A s) : Sound N A s where
  own c size r hr := h.returned (c, size, r) hr
  once := ⟨h.served_nodup, h.returned_nodup⟩
  granted c size offset hx hne := h.granted (c, size, offset) hx hne
  disjoint := h.alloc.disj
  inside x hx := ⟨(h.alloc.inside x hx).1, (h.alloc.inside x hx).2.1⟩
  alive := by
    intro p hp
    obtain ⟨fr, hfr, hfuture, -, -, hset, -⟩ := (h.key p.key).of_response hp
    refine ⟨fr, hfr, ?_, hfuture.live⟩
    simp only [Future.step, idle_of_newval hset]
    rfl
  freeable := by
    intro p hp
    obtain ⟨impl, himpl, -⟩ := h.alloc.free hlt hp
    rw [himpl]
    rfl

/-- **Remote allocation**, for any number of nodes and callers and in every interleaving in which no caller looks at its
future between `valid = true` and the end of `set`. -/
theorem remoteAlloc_of_run {N A : ℕ} (hA : 1 ≤ A) (hpos : 0 < N) (hN : A ∣ N) (hlt : N < 2 ^ 62) (owner : Fin n)
    (es : List (Event n)) (s : State n) (hproper : Guarded (step owner) Proper (State.init n N A) es)
    (hrun : run (step owner) (State.init n N A) es = some s) : Sound N A s := by
  have hinv : Inv N A s := run_inv_guarded (fun _ _ _ h hp hs => h.step hA hN hlt hp hs) (Inv.init hpos A) hproper hrun
  exact hinv.sound hlt

/-- A node asks for 10 bytes of the memory of another one, which allocates 20 for itself in between. -/
def twoNodes (k : Key 2) : List (Event 2) :=
  [.call k 10, .future k .look, .allocOwner 20, .handle ⟨k, 10, 0⟩, .respond ⟨k, 16, 0⟩, .future k .mark,
    .future k .store, .future k .unlock, .future k .enter, .future k .get]

theorem remoteAlloc_of_run_two : ∃ s, run (step 0) (State.init 2 64 16) (twoNodes ⟨1, 100⟩) = some s ∧
    s.returned = [(0, 10, some 16)] ∧ Sound 64 16 s := by
  refine ⟨_, rfl, rfl, ?_⟩
  refine remoteAlloc_of_run (by decide) (by decide) (by decide) (by decide) 0 (twoNodes ⟨1, 100⟩) _ ?_ rfl
  refine guarded_cons rfl (by decide : 10 ≤ 64) (guarded_cons rfl ?_ (guarded_cons rfl (by decide : 20 ≤ 64)
    (guarded_cons rfl trivial (guarded_cons rfl trivial (guarded_cons rfl (fun _ _ => trivial)
      (guarded_cons rfl (fun _ _ => trivial) (guarded_cons rfl (fun _ _ => trivial)
        (guarded_cons rfl (fun _ _ => trivial) (guarded_cons rfl (fun _ _ => trivial) trivial)))))))))
  -- the caller looks before there is a reply
  intro fr hfr hvalid
  obtain rfl : (⟨0, 10, .init⟩ : Frame) = fr := Option.some.inj hfr
  cases hvalid

end Realm.RemoteAlloc

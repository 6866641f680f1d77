import Mathlib.Data.List.Perm.Basic
import Realm.Lib.Delay
import Realm.Lib.Run

/-!
# Realm.Endpoint.DeferredFree — freeing payloads later (`deferred_free` in `templates/activemsg_impl_gasnet.cc`)

The payload of a message that was sent is not freed at once: `deferred_free` puts the pointer into a ring of 128 and
frees the one that it takes out, after it has left the lock.

* `step`: the section under `deferred_free_mutex` and the `free` behind it, by any number of threads.
* `deferredFree_of_run`: exactly the pointers that were followed by 128 others are freed, each as often as
  it was passed.
-/

namespace Realm.DeferredFree

open Lib

def DEFERRED_FREE_COUNT : ℕ := 128

/-- `deferred_frees` and `deferred_free_pos`, the calls that have left the lock with an `oldptr` to free, and what was
freed.  `deferred` are the arguments of all calls so far, in the order of the lock. -/
structure State where
  deferredFrees : Delay ℕ
  freeing : List ℕ
  freed : List ℕ
  deferred : List ℕ

/-- `init_deferred_frees`; the null pointer is `0`. -/
def State.init : State := ⟨.init 0, [], [], []⟩

/-- `deferred_free`, up to the unlock. -/
def State.deferredFree (s : State) (ptr : ℕ) : State :=
  let (oldptr, frees) := s.deferredFrees.put DEFERRED_FREE_COUNT ptr
  { s with
    deferredFrees := frees
    freeing := if oldptr = 0 then s.freeing else s.freeing ++ [oldptr]
    deferred := s.deferred ++ [ptr] }

inductive Event
  | deferredFree (ptr : ℕ)
  | free (oldptr : ℕ)

def step (s : State) : Event → Option State
  | .deferredFree ptr => some (s.deferredFree ptr)
  | .free oldptr =>
    if oldptr ∈ s.freeing then some { s with freeing := s.freeing.erase oldptr, freed := s.freed ++ [oldptr] }
    else none

/-- The pointers that were followed by `DEFERRED_FREE_COUNT` others; a null pointer needs no `free`. -/
def State.due (s : State) : List ℕ := (s.deferred.take (s.deferred.length - DEFERRED_FREE_COUNT)).filter (· ≠ 0)

structure Inv (s : State) : Prop where
  holds : s.deferredFrees.Holds DEFERRED_FREE_COUNT 0 s.deferred
  due : (s.freed ++ s.freeing).Perm s.due

theorem Inv.init : Inv State.init where
  holds := .init _ _
  due := List.Perm.refl _

/-- One more call makes one more pointer due, as soon as the ring is full. -/
theorem due_deferredFree {s : State} (h : Inv s) (ptr : ℕ) :
    (s.deferredFree ptr).due = s.due ++
      if (s.deferredFrees.put DEFERRED_FREE_COUNT ptr).1 = 0 then []
      else [(s.deferredFrees.put DEFERRED_FREE_COUNT ptr).1] := by
  have hold := h.holds.put_fst (by decide) ptr
  rw [hold]
  unfold State.due State.deferredFree
  simp only [List.length_append, List.length_singleton]
  split
  · rename_i hle
    have hlt : s.deferred.length - DEFERRED_FREE_COUNT < s.deferred.length := by
      have : 0 < DEFERRED_FREE_COUNT := by decide
      omega
    have hlen : s.deferred.length + 1 - DEFERRED_FREE_COUNT = s.deferred.length - DEFERRED_FREE_COUNT + 1 := by omega
    have hget : s.deferred.getD (s.deferred.length - DEFERRED_FREE_COUNT) 0 =
        s.deferred[s.deferred.length - DEFERRED_FREE_COUNT] := by
      rw [List.getD_eq_getElem?_getD, List.getElem?_eq_getElem hlt, Option.getD_some]
    rw [List.take_append_of_le_length (by omega), hlen, List.take_succ_eq_append_getElem hlt, List.filter_append, hget]
    split <;> simp_all
  · rename_i hlt
    have hlen : s.deferred.length + 1 - DEFERRED_FREE_COUNT = 0 := by omega
    have hlen' : s.deferred.length - DEFERRED_FREE_COUNT = 0 := by omega
    simp [hlen, hlen']

theorem Inv.step {s s' : State} {e : Event} (h : Inv s) (hstep : step s e = some s') : Inv s' := by
  cases e with
  | deferredFree ptr =>
    cases hstep
    refine ⟨h.holds.put ptr, ?_⟩
    rw [due_deferredFree h ptr]
    have hfreeing : (s.deferredFree ptr).freeing = s.freeing ++
        if (s.deferredFrees.put DEFERRED_FREE_COUNT ptr).1 = 0 then []
        else [(s.deferredFrees.put DEFERRED_FREE_COUNT ptr).1] := by
      simp only [State.deferredFree]
      split <;> simp
    rw [hfreeing, ← List.append_assoc]
    exact h.due.append_right _
  | free oldptr =>
    obtain ⟨hm, hstep⟩ := Option.ite_none_right_eq_some.mp hstep
    cases hstep
    refine ⟨h.holds, List.Perm.trans ?_ h.due⟩
    show (s.freed ++ [oldptr] ++ s.freeing.erase oldptr).Perm (s.freed ++ s.freeing)
    rw [List.append_assoc]
    exact (List.perm_cons_erase hm).symm.append_left _

/-- **Deferred frees**, by any number of threads: together with the calls that are still on their way to `free`, exactly
the pointers that were followed by 128 others have been freed, each as often as it was passed to `deferred_free`; in
particular the last 128 never are. -/
theorem deferredFree_of_run (es : List Event) (s : State) (hrun : run step State.init es = some s) :
    (s.freed ++ s.freeing).Perm
      ((s.deferred.take (s.deferred.length - 128)).filter (· ≠ 0)) :=
  (run_inv (fun _ _ _ h hs => h.step hs) Inv.init hrun : Inv s).due

/-- 129 calls: the first pointer is taken out again and freed. -/
def oneRound : List Event := (List.range 129).map (fun i => .deferredFree (i + 1)) ++ [.free 1]

theorem deferredFree_of_run_oneRound : ∃ s, run step State.init oneRound = some s ∧ s.freed = [1] ∧
    (s.freed ++ s.freeing).Perm ((s.deferred.take (s.deferred.length - 128)).filter (· ≠ 0)) := by
  have hsome : ((run step State.init oneRound).map State.freed) = some [1] := by decide +kernel
  obtain ⟨s, hrun, hfreed⟩ := Option.map_eq_some_iff.mp hsome
  exact ⟨s, hrun, hfreed, deferredFree_of_run oneRound s hrun⟩

end Realm.DeferredFree

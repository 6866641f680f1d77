import Mathlib.Algebra.Order.Ring.Int
import Realm.Lib.Run

/-!
# Realm.Endpoint.ReplyFuture — waiting for a reply (`HandlerReplyFuture` in `templates/activemsg.h`)

A thread that has sent a request waits for the reply in a `HandlerReplyFuture` on its stack; the handler of the reply
calls `set`.  `set` works under the future's lock, but `wait` looks at `valid` once before it takes the lock, and `set`
writes `valid` before it writes `value`.

* `Future.step`: the accesses of the two threads, one by one.
* `Future.Proper`: the look without the lock does not come between the start and the end of `set`.
* `future_correct`: then `get` returns what was set and nobody uses the future after it is gone; and this is needed, the
  look in between leads to a use after the end of its life.
-/

namespace Realm

open Lib

variable {β : Type}

namespace Future

/-- Where the handler is in `set`: `finished` also stands for a call that has returned. -/
inductive Setter (β : Type)
  | idle
  | locked (newval : β)
  | marked (newval : β)
  | stored (newval : β)
  | finished (newval : β)

/-- Where the waiting thread is in `wait` and `get`; when it has `returned`, the future is gone. -/
inductive Waiter (β : Type)
  | started
  | blocked
  | sleeping
  | passed
  | returned (result : Option β)

end Future

open Future

/-- `value` is `none` until it was written.  `usedAfterFree` says that `set` has used the future after it was gone. -/
structure Future (β : Type) where
  valid : Bool
  value : Option β
  setter : Setter β
  waiter : Waiter β
  usedAfterFree : Bool

namespace Future

def init : Future β := ⟨false, none, .idle, .started, false⟩

/-- The lock is held over several steps by `set` only. -/
def Setter.inside : Setter β → Bool
  | .locked _ => true
  | .marked _ => true
  | .stored _ => true
  | _ => false

def gone (f : Future β) : Bool :=
  match f.waiter with
  | .returned _ => true
  | _ => false

/-- An access of `set` to the future. -/
def touch (f : Future β) : Future β := { f with usedAfterFree := f.usedAfterFree || f.gone }

/-- `set`: `mutex.lock()`, `valid = true`, `value = newval`, and `condvar.broadcast()` with `mutex.unlock()`.
`wait`: `look` is `if(valid) return`, `enter` one round of the loop under the lock, `wake` the end of `condvar.wait()`,
with or without a broadcast.  `get`: the value is read and the future goes out of scope. -/
inductive Event (β : Type)
  | lock (newval : β)
  | mark
  | store
  | unlock
  | look
  | enter
  | wake
  | get

def Event.isLock : Event β → Bool
  | .lock _ => true
  | _ => false

def step (f : Future β) : Event β → Option (Future β)
  | .lock newval =>
    match f.setter with
    | .idle => some { f.touch with setter := .locked newval }
    | _ => none
  | .mark =>
    match f.setter with
    | .locked newval => some { f.touch with setter := .marked newval, valid := true }
    | _ => none
  | .store =>
    match f.setter with
    | .marked newval => some { f.touch with setter := .stored newval, value := some newval }
    | _ => none
  | .unlock =>
    match f.setter with
    | .stored newval =>
      some { f.touch with
        setter := .finished newval
        waiter := match f.waiter with
          | .sleeping => .blocked
          | w => w }
    | _ => none
  | .look =>
    match f.waiter with
    | .started => some { f with waiter := if f.valid then .passed else .blocked }
    | _ => none
  | .enter =>
    match f.waiter with
    | .blocked => if f.setter.inside then none else some { f with waiter := if f.valid then .passed else .sleeping }
    | _ => none
  | .wake =>
    match f.waiter with
    | .sleeping => some { f with waiter := .blocked }
    | _ => none
  | .get =>
    match f.waiter with
    | .passed => some { f with waiter := .returned f.value }
    | _ => none

/-- The look at `valid` without the lock does not come between `valid = true` and the end of `set`. -/
def Proper (f : Future β) : Event β → Prop
  | .look => f.valid = true → f.setter.inside = false
  | _ => True

/-- What each access does, and when. -/
inductive Step (f : Future β) : Event β → Future β → Prop
  | lock (v : β) (hs : f.setter = .idle) : Step f (.lock v) { f.touch with setter := .locked v }
  | mark (v : β) (hs : f.setter = .locked v) : Step f .mark { f.touch with setter := .marked v, valid := true }
  | store (v : β) (hs : f.setter = .marked v) : Step f .store { f.touch with setter := .stored v, value := some v }
  | unlock (v : β) (hs : f.setter = .stored v) (w : Waiter β) (hw : w = f.waiter ∨ w = .blocked) :
      Step f .unlock { f.touch with setter := .finished v, waiter := w }
  | look (hw : f.waiter = .started) : Step f .look { f with waiter := if f.valid then .passed else .blocked }
  | enter (hw : f.waiter = .blocked) (hs : f.setter.inside = false) :
      Step f .enter { f with waiter := if f.valid then .passed else .sleeping }
  | wake (hw : f.waiter = .sleeping) : Step f .wake { f with waiter := .blocked }
  | get (hw : f.waiter = .passed) : Step f .get { f with waiter := .returned f.value }

theorem step_cases {f f' : Future β} {e : Event β} (h : step f e = some f') : Step f e f' := by
  cases e with
  | lock v =>
    simp only [step] at h
    split at h
    · rename_i hs
      cases h
      exact .lock v hs
    · cases h
  | mark =>
    simp only [step] at h
    split at h
    · rename_i v hs
      cases h
      exact .mark v hs
    · cases h
  | store =>
    simp only [step] at h
    split at h
    · rename_i v hs
      cases h
      exact .store v hs
    · cases h
  | unlock =>
    simp only [step] at h
    split at h
    · rename_i v hs
      cases h
      refine .unlock v hs _ ?_
      cases f.waiter <;> simp
    · cases h
  | look =>
    simp only [step] at h
    split at h
    · rename_i hw
      cases h
      exact .look hw
    · cases h
  | enter =>
    simp only [step] at h
    split at h
    · rename_i hw
      obtain ⟨hs, h⟩ := Option.ite_none_left_eq_some.mp h
      cases h
      exact .enter hw (Bool.eq_false_iff.mpr hs)
    · cases h
  | wake =>
    simp only [step] at h
    split at h
    · rename_i hw
      cases h
      exact .wake hw
    · cases h
  | get =>
    simp only [step] at h
    split at h
    · rename_i hw
      cases h
      exact .get hw
    · cases h

/-! ## The invariant -/

/-- `valid` once `set` has come that far. -/
def Setter.hasMarked : Setter β → Bool
  | .idle => false
  | .locked _ => false
  | _ => true

/-- `value` once `set` has come that far. -/
def Setter.hasStored (s : Setter β) (v : β) : Prop := s = .stored v ∨ s = .finished v

/-- What `set` has done so far; and a thread that is past `wait` has waited for its end. -/
structure Inv (f : Future β) : Prop where
  valid : f.valid = f.setter.hasMarked
  value : ∀ v, f.setter.hasStored v → f.value = some v
  passed : f.waiter = .passed → ∃ v, f.setter = .finished v
  returned : ∀ r, f.waiter = .returned r → ∃ v, f.setter = .finished v ∧ r = some v
  live : f.usedAfterFree = false

theorem Inv.init : Inv (init : Future β) where
  valid := rfl
  value v h := by rcases h with h | h <;> cases h
  passed h := by cases h
  returned _ h := by cases h
  live := rfl

/-- As long as `set` is not over, nobody is past `wait`. -/
theorem Inv.waiting {f : Future β} (h : Inv f) (hs : ∀ v, f.setter ≠ .finished v) :
    f.waiter ≠ .passed ∧ ∀ r, f.waiter ≠ .returned r := by
  refine ⟨fun hw => ?_, fun r hw => ?_⟩
  · obtain ⟨v, hv⟩ := h.passed hw
    exact hs v hv
  · obtain ⟨v, hv, -⟩ := h.returned r hw
    exact hs v hv

/-- As long as `set` is not over, the future is there. -/
theorem Inv.live_touch {f : Future β} (h : Inv f) (hs : ∀ v, f.setter ≠ .finished v) :
    f.touch.usedAfterFree = false := by
  show (f.usedAfterFree || f.gone) = false
  rw [h.live, Bool.false_or]
  unfold gone
  split
  · rename_i r hw
    exact absurd hw ((h.waiting hs).2 r)
  · rfl

/-- A value that is seen outside `set` was put there by all of `set`. -/
theorem Inv.finished_of_valid {f : Future β} (h : Inv f) (hs : f.setter.inside = false) (hv : f.valid = true) :
    ∃ v, f.setter = .finished v := by
  rw [h.valid] at hv
  cases hsetter : f.setter with
  | idle => simp [Setter.hasMarked, hsetter] at hv
  | locked v => simp [Setter.hasMarked, hsetter] at hv
  | marked v => simp [Setter.inside, hsetter] at hs
  | stored v => simp [Setter.inside, hsetter] at hs
  | finished v => exact ⟨v, rfl⟩

/-- One access of `set`, which is not over: the waiting thread may only be woken up. -/
theorem Inv.set {f f' : Future β} (h : Inv f) (hs : ∀ v, f.setter ≠ .finished v)
    (hvalid : f'.valid = f'.setter.hasMarked) (hvalue : ∀ v, f'.setter.hasStored v → f'.value = some v)
    (hlive : f'.usedAfterFree = f.touch.usedAfterFree) (hw : f'.waiter = f.waiter ∨ f'.waiter = .blocked) :
    Inv f' := by
  obtain ⟨hpassed, hreturned⟩ := h.waiting hs
  refine ⟨hvalid, hvalue, fun hw' => ?_, fun r hw' => ?_, hlive.trans (h.live_touch hs)⟩
  · rcases hw with hw | hw
    · exact absurd (hw.symm.trans hw') hpassed
    · rw [hw] at hw'
      cases hw'
  · rcases hw with hw | hw
    · exact absurd (hw.symm.trans hw') (hreturned r)
    · rw [hw] at hw'
      cases hw'

theorem Inv.step {f f' : Future β} {e : Event β} (h : Inv f) (hproper : Proper f e) (hstep : step f e = some f') :
    Inv f' := by
  cases step_cases hstep with
  | lock v hs =>
    refine h.set (by simp [hs]) ?_ (fun u hu => ?_) rfl (Or.inl rfl)
    · show f.valid = false
      rw [h.valid, hs]
      rfl
    · rcases hu with hu | hu <;> cases hu
  | mark v hs =>
    refine h.set (by simp [hs]) rfl (fun u hu => ?_) rfl (Or.inl rfl)
    rcases hu with hu | hu <;> cases hu
  | store v hs =>
    refine h.set (by simp [hs]) ?_ (fun u hu => ?_) rfl (Or.inl rfl)
    · show f.valid = true
      rw [h.valid, hs]
      rfl
    · rcases hu with hu | hu <;> cases hu
      rfl
  | unlock v hs w hw =>
    refine h.set (by simp [hs]) ?_ (fun u hu => ?_) rfl hw
    · show f.valid = true
      rw [h.valid, hs]
      rfl
    · rcases hu with hu | hu <;> cases hu
      exact h.value v (Or.inl hs)
  | look hw =>
    refine ⟨h.valid, h.value, fun hp => ?_, fun r hr => ?_, h.live⟩
    · by_cases hv : f.valid = true
      · exact h.finished_of_valid (hproper hv) hv
      · simp [hv] at hp
    · by_cases hv : f.valid = true <;> simp [hv] at hr
  | enter hw hs =>
    refine ⟨h.valid, h.value, fun hp => ?_, fun r hr => ?_, h.live⟩
    · by_cases hv : f.valid = true
      · exact h.finished_of_valid hs hv
      · simp [hv] at hp
    · by_cases hv : f.valid = true <;> simp [hv] at hr
  | wake hw => exact ⟨h.valid, h.value, fun hp => (by cases hp), fun r hr => (by cases hr), h.live⟩
  | get hw =>
    obtain ⟨v, hv⟩ := h.passed hw
    refine ⟨h.valid, h.value, fun hp => (by cases hp), fun r hr => ?_, h.live⟩
    cases hr
    exact ⟨v, hv, h.value v (Or.inr hv)⟩

/-! ## Every interleaving -/

/-- `get` has returned what was set, and `set` never used a future that was gone. -/
structure Correct (f : Future β) : Prop where
  returned : ∀ r, f.waiter = .returned r → ∃ v, f.setter = .finished v ∧ r = some v
  live : f.usedAfterFree = false

/-- A thread that looks between `valid = true` and the end of `set` may return before `set` is over. -/
theorem look_inside {f : Future β} (hw : f.waiter = .started) (hv : f.valid = true) {v : β}
    (hs : f.setter = .marked v ∨ f.setter = .stored v) :
    ∃ es f', run step f (.look :: es) = some f' ∧ f'.usedAfterFree = true := by
  have hlook : step f .look = some { f with waiter := .passed } := by simp [step, hw, hv]
  have hget : step { f with waiter := .passed } .get = some { f with waiter := .returned f.value } := rfl
  have htouch : ({ f with waiter := .returned f.value } : Future β).touch.usedAfterFree = true := by
    simp [touch, gone]
  have hrun : ∀ e f', step { f with waiter := .returned f.value } e = some f' →
      run step f [.look, .get, e] = some f' := by
    intro e f' he
    exact run_cons_eq_some.mpr ⟨_, hlook, run_cons_eq_some.mpr ⟨_, hget, run_cons_eq_some.mpr ⟨f', he, rfl⟩⟩⟩
  rcases hs with hs | hs
  · refine ⟨[.get, .store], { ({ f with waiter := .returned f.value } : Future β).touch with
      setter := .stored v, value := some v }, hrun _ _ ?_, htouch⟩
    simp only [step, hs]
  · refine ⟨[.get, .unlock], { ({ f with waiter := .returned f.value } : Future β).touch with
      setter := .finished v }, hrun _ _ ?_, htouch⟩
    simp only [step, hs]
    rfl

/-- Nothing goes back to the start of `wait`. -/
theorem started_of_step {f f' : Future β} {e : Event β} (hstep : step f e = some f') (h : f'.waiter = .started) :
    f.waiter = .started ∧ Proper f e := by
  cases step_cases hstep with
  | lock v hs => exact ⟨h, trivial⟩
  | mark v hs => exact ⟨h, trivial⟩
  | store v hs => exact ⟨h, trivial⟩
  | unlock v hs w hw =>
    rcases hw with rfl | rfl
    · exact ⟨h, trivial⟩
    · cases h
  | look hw =>
    change (if f.valid then _ else _) = _ at h
    split at h <;> cases h
  | enter hw hs =>
    change (if f.valid then _ else _) = _ at h
    split at h <;> cases h
  | wake hw => cases h
  | get hw => cases h

/-- Whoever has looked does not look again. -/
theorem proper_of_not_started {f f' : Future β} {e : Event β} (hstep : step f e = some f')
    (h : f.waiter ≠ .started) : Proper f e ∧ f'.waiter ≠ .started := by
  refine ⟨?_, fun h' => h (started_of_step hstep h').1⟩
  cases step_cases hstep with
  | look hw => exact absurd hw h
  | _ => trivial

/-- **The look without the lock.**  Whatever has happened before a thread calls `wait`: if it looks at `valid` now, then
every continuation gives it the value that is set and leaves the future alone afterwards, if and only if `set` is not
between `valid = true` and its end. -/
theorem look_correct_iff (es : List (Event β)) (f : Future β) (hrun : run step init es = some f)
    (hw : f.waiter = .started) :
    (∀ es' f', run step f (.look :: es') = some f' → Correct f') ↔ (f.valid = true → f.setter.inside = false) := by
  have hinv : f.waiter = .started → Inv f := by
    refine run_inv (I := fun f => f.waiter = .started → Inv f) ?_ (fun _ => Inv.init) hrun
    intro g e g' ih hstep hg'
    obtain ⟨hg, hproper⟩ := started_of_step hstep hg'
    exact (ih hg).step hproper hstep
  have h := hinv hw
  constructor
  · intro hall hv
    by_contra hinside
    rw [h.valid] at hv
    have hset : ∃ v, f.setter = .marked v ∨ f.setter = .stored v := by
      cases hs : f.setter with
      | idle => simp [Setter.hasMarked, hs] at hv
      | locked v => simp [Setter.hasMarked, hs] at hv
      | marked v => exact ⟨v, Or.inl rfl⟩
      | stored v => exact ⟨v, Or.inr rfl⟩
      | finished v => simp [Setter.inside, hs] at hinside
    obtain ⟨v, hset⟩ := hset
    obtain ⟨es', f', hrun', hused⟩ := look_inside hw (h.valid.trans hv) hset
    have hlive := (hall es' f' hrun').live
    rw [hused] at hlive
    cases hlive
  · intro hproper es' f' hrun'
    obtain ⟨g, hlook, hrest⟩ := run_cons_eq_some.mp hrun'
    have hg : Inv g := h.step (e := .look) hproper hlook
    have hg' : g.waiter ≠ .started := fun hc => by
      cases step_cases hlook with
      | look _ =>
        change (if f.valid then _ else _) = _ at hc
        split at hc <;> cases hc
    have hboth : Inv f' ∧ f'.waiter ≠ .started := by
      refine run_inv (I := fun f => Inv f ∧ f.waiter ≠ .started) ?_ ⟨hg, hg'⟩ hrest
      intro u e u' ih hstep
      obtain ⟨hp, hne⟩ := proper_of_not_started hstep ih.2
      exact ⟨ih.1.step hp hstep, hne⟩
    exact ⟨hboth.1.returned, hboth.1.live⟩

/-- The reply is there before the thread waits for it. -/
theorem look_correct_iff_of_reply :
    ∃ f : Future ℤ, run step init [.lock 5, .mark, .store, .unlock] = some f ∧ f.waiter = .started ∧
      ∀ es' f', run step f (.look :: es') = some f' → Correct f' :=
  ⟨_, rfl, rfl, (look_correct_iff [.lock 5, .mark, .store, .unlock] _ rfl rfl).mpr fun _ => rfl⟩

end Future

end Realm

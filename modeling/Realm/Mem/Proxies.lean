import Mathlib.Data.List.Basic
import Mathlib.Logic.Function.Basic
import Realm.Lib.Run
import Realm.Mem.Instances

/-!
# Realm.Mem.Proxies — objects for the instances of other nodes (`MemoryImpl::get_instance` in `templates/mem_impl.cc`)

For an instance that another node has created, a memory makes a proxy object the first time the instance is looked up.
The lookup has two sections: one under `instance_map_mutex` finds or makes the list of the creator, one under the mutex
of that list finds or makes the object.

* `step`: the two sections by any number of threads.
* `Inv`: a creator has one list, which keeps its objects.
* `proxies_of_run`: equal ids always give the same object, different ids different ones, in every interleaving.
-/

namespace Realm.Proxies

open Lib

variable {ν : Type} [DecidableEq ν]

/-- `creator_node` and `inst_idx` of an instance. -/
@[ext] structure InstanceId (ν : Type) where
  creatorNode : ν
  instIdx : ℕ
deriving DecidableEq

/-- `RegionInstanceImpl`: which object it is, and the instance `me` that it was made for. -/
structure InstanceImpl (ν : Type) where
  object : ℕ
  me : InstanceId ν
deriving DecidableEq

/-- `instances_by_creator`, and the vectors `instances` of the lists by their addresses.  `lookups` are the calls
between their two sections, with the `ilist` they have found, and `returned` all results so far; `nextList` and `next` are
the next list and the next object to be made. -/
structure State (ν : Type) where
  instancesByCreator : ν → Option ℕ
  instances : ℕ → List (Option (InstanceImpl ν))
  nextList : ℕ
  next : ℕ
  lookups : List (InstanceId ν × ℕ)
  returned : List (InstanceId ν × InstanceImpl ν)

def State.init : State ν := ⟨fun _ => none, fun _ => [], 0, 0, [], []⟩

/-- The section under `instance_map_mutex`; a new list is empty. -/
def State.findList (s : State ν) (id : InstanceId ν) : State ν :=
  match s.instancesByCreator id.creatorNode with
  | some ilist => { s with lookups := s.lookups ++ [(id, ilist)] }
  | none =>
    { s with
      instancesByCreator := Function.update s.instancesByCreator id.creatorNode (some s.nextList)
      instances := Function.update s.instances s.nextList []
      nextList := s.nextList + 1
      lookups := s.lookups ++ [(id, s.nextList)] }

/-- `if(idx >= ilist->instances.size()) ilist->instances.resize(idx + 1, 0)` -/
def extend (l : List (Option (InstanceImpl ν))) (idx : ℕ) : List (Option (InstanceImpl ν)) :=
  if idx ≥ l.length then Instances.resize l (idx + 1) none else l

/-- The section under `ilist->mutex`. -/
def State.findInstance (s : State ν) (id : InstanceId ν) (ilist : ℕ) : State ν :=
  let l := extend (s.instances ilist) id.instIdx
  match l[id.instIdx]? with
  | some (some impl) =>
    { s with instances := Function.update s.instances ilist l, returned := s.returned ++ [(id, impl)] }
  | _ =>
    -- "creating proxy for remotely-created instance"
    let impl : InstanceImpl ν := ⟨s.next, id⟩
    { s with
      instances := Function.update s.instances ilist (l.set id.instIdx (some impl))
      next := s.next + 1
      returned := s.returned ++ [(id, impl)] }

inductive Event (ν : Type)
  | findList (id : InstanceId ν)
  | findInstance (id : InstanceId ν) (ilist : ℕ)

def step (s : State ν) : Event ν → Option (State ν)
  | .findList id => some (s.findList id)
  | .findInstance id ilist =>
    if (id, ilist) ∈ s.lookups then
      some { s.findInstance id ilist with lookups := s.lookups.erase (id, ilist) }
    else none

/-! ## The vectors -/

omit [DecidableEq ν]

theorem length_extend (l : List (Option (InstanceImpl ν))) (idx : ℕ) : idx < (extend l idx).length := by
  unfold extend
  split
  · rw [Instances.resize, List.length_append, List.length_take, List.length_replicate]
    omega
  · omega

/-- New entries are null. -/
theorem extend_getElem? (l : List (Option (InstanceImpl ν))) (idx i : ℕ) (impl : InstanceImpl ν) :
    (extend l idx)[i]? = some (some impl) ↔ l[i]? = some (some impl) := by
  unfold extend
  split
  · rename_i hidx
    rw [Instances.resize, List.take_of_length_le (by omega), List.getElem?_append]
    split
    · rfl
    · rename_i hi
      rw [List.getElem?_eq_none (Nat.le_of_not_lt hi), List.getElem?_replicate]
      split <;> simp
  · rfl

/-! ## The invariant -/

/-- The object of an instance, if it was made. -/
def State.object (s : State ν) (id : InstanceId ν) (impl : InstanceImpl ν) : Prop :=
  ∃ ilist, s.instancesByCreator id.creatorNode = some ilist ∧
    (s.instances ilist)[id.instIdx]? = some (some impl)

structure Inv (s : State ν) : Prop where
  lists : ∀ c ilist, s.instancesByCreator c = some ilist → ilist < s.nextList
  inj : ∀ c c' ilist, s.instancesByCreator c = some ilist → s.instancesByCreator c' = some ilist → c = c'
  lookups : ∀ id ilist, (id, ilist) ∈ s.lookups → s.instancesByCreator id.creatorNode = some ilist
  objects : ∀ id impl, s.object id impl → impl.me = id ∧ impl.object < s.next
  distinct : ∀ id id' impl impl', s.object id impl → s.object id' impl' → impl.object = impl'.object → id = id'
  returned : ∀ id impl, (id, impl) ∈ s.returned → s.object id impl

theorem Inv.init : Inv (State.init : State ν) where
  lists _ _ h := by cases h
  inj _ _ _ h := by cases h
  lookups _ _ h := by cases h
  objects _ _ h := by
    obtain ⟨_, h, _⟩ := h
    cases h
  distinct _ _ _ _ h := by
    obtain ⟨_, h, _⟩ := h
    cases h
  returned _ _ h := by cases h

/-- The object of an instance is unique. -/
theorem object_unique {s : State ν} {id : InstanceId ν} {impl impl' : InstanceImpl ν} (h : s.object id impl)
    (h' : s.object id impl') : impl = impl' := by
  obtain ⟨ilist, hl, hi⟩ := h
  obtain ⟨ilist', hl', hi'⟩ := h'
  obtain rfl : ilist = ilist' := Option.some.inj (hl.symm.trans hl')
  exact Option.some.inj (Option.some.inj (hi.symm.trans hi'))

/-- A step that leaves the objects alone. -/
theorem Inv.of_same_objects {s s' : State ν} (h : Inv s)
    (hobj : ∀ id impl, s'.object id impl ↔ s.object id impl) (hnext : s'.next = s.next)
    (hlists : ∀ c ilist, s'.instancesByCreator c = some ilist → ilist < s'.nextList)
    (hinj : ∀ c c' ilist, s'.instancesByCreator c = some ilist → s'.instancesByCreator c' = some ilist → c = c')
    (hlookups : ∀ id ilist, (id, ilist) ∈ s'.lookups → s'.instancesByCreator id.creatorNode = some ilist)
    (hreturned : ∀ id impl, (id, impl) ∈ s'.returned → s.object id impl) : Inv s' where
  lists := hlists
  inj := hinj
  lookups := hlookups
  objects id impl ho := by
    rw [hnext]
    exact h.objects id impl ((hobj id impl).mp ho)
  distinct id id' impl impl' ho ho' := h.distinct id id' impl impl' ((hobj id impl).mp ho) ((hobj id' impl').mp ho')
  returned id impl hr := (hobj id impl).mpr (hreturned id impl hr)

/-- What the second section does: the instance has an object, or gets a new one, and the others keep theirs. -/
theorem Inv.findInstance_spec {s : State ν} (h : Inv s) {id : InstanceId ν} {ilist : ℕ}
    (hl : s.instancesByCreator id.creatorNode = some ilist) :
    ∃ impl, (s.findInstance id ilist).returned = s.returned ++ [(id, impl)] ∧
      (∀ id' impl', (s.findInstance id ilist).object id' impl' ↔ s.object id' impl' ∨ (id' = id ∧ impl' = impl)) ∧
      ((s.object id impl ∧ (s.findInstance id ilist).next = s.next) ∨
        ((∀ impl', ¬s.object id impl') ∧ impl = ⟨s.next, id⟩ ∧ (s.findInstance id ilist).next = s.next + 1)) := by
  have hlen := length_extend (s.instances ilist) id.instIdx
  have hext := extend_getElem? (s.instances ilist) id.instIdx
  unfold State.findInstance
  simp only
  split
  · rename_i impl himpl
    have hobj : s.object id impl := ⟨ilist, hl, (hext _ impl).mp himpl⟩
    refine ⟨impl, rfl, fun id' impl' => ?_, Or.inl ⟨hobj, rfl⟩⟩
    have hsame : (∃ il, s.instancesByCreator id'.creatorNode = some il ∧
        (Function.update s.instances ilist (extend (s.instances ilist) id.instIdx) il)[id'.instIdx]? =
          some (some impl')) ↔ s.object id' impl' := by
      refine exists_congr fun il => and_congr_right fun _ => ?_
      by_cases hil : il = ilist
      · subst hil
        rw [Function.update_self]
        exact hext _ impl'
      · rw [Function.update_of_ne hil]
    refine hsame.trans (Iff.symm (or_iff_left_of_imp ?_))
    rintro ⟨rfl, rfl⟩
    exact hobj
  · rename_i hnone
    have hnoobj : ∀ impl', ¬s.object id impl' := by
      rintro impl' ⟨il, hil, hi⟩
      obtain rfl : ilist = il := Option.some.inj (hl.symm.trans hil)
      exact hnone impl' ((hext _ impl').mpr hi)
    refine ⟨⟨s.next, id⟩, rfl, fun id' impl' => ?_, Or.inr ⟨hnoobj, rfl, rfl⟩⟩
    constructor
    · rintro ⟨il, hil, hi⟩
      by_cases hilist : il = ilist
      · subst hilist
        obtain hc : id'.creatorNode = id.creatorNode := h.inj _ _ _ hil hl
        simp only [Function.update_self, List.getElem?_set] at hi
        split at hi
        · rename_i hidx
          rw [Option.some.injEq, Option.some.injEq] at hi
          exact Or.inr ⟨InstanceId.ext hc hidx.symm, hi.symm⟩
        · exact Or.inl ⟨il, hil, (hext _ impl').mp hi⟩
      · simp only [Function.update_of_ne hilist] at hi
        exact Or.inl ⟨il, hil, hi⟩
    · rintro (⟨il, hil, hi⟩ | ⟨rfl, rfl⟩)
      · refine ⟨il, hil, ?_⟩
        by_cases hilist : il = ilist
        · subst hilist
          obtain hc : id'.creatorNode = id.creatorNode := h.inj _ _ _ hil hl
          have hidx : id.instIdx ≠ id'.instIdx := by
            intro heq
            obtain rfl : id' = id := InstanceId.ext hc heq.symm
            exact hnoobj impl' ⟨il, hil, hi⟩
          simp only [Function.update_self]
          rw [List.getElem?_set_ne hidx]
          exact (hext _ impl').mpr hi
        · simp only [Function.update_of_ne hilist]
          exact hi
      · refine ⟨ilist, hl, ?_⟩
        simp only [Function.update_self]
        rw [List.getElem?_set_self hlen]

variable [DecidableEq ν]

theorem Inv.findList {s : State ν} (h : Inv s) (id : InstanceId ν) : Inv (s.findList id) := by
  unfold State.findList
  cases hc : s.instancesByCreator id.creatorNode with
  | some ilist =>
    refine h.of_same_objects (fun _ _ => Iff.rfl) rfl h.lists h.inj (fun id' ilist' hm => ?_) h.returned
    rcases List.mem_append.mp hm with hm | hm
    · exact h.lookups id' ilist' hm
    · obtain ⟨rfl, rfl⟩ := Prod.mk.inj (List.mem_singleton.mp hm)
      exact hc
  | none =>
    have hother : ∀ c ilist, Function.update s.instancesByCreator id.creatorNode (some s.nextList) c = some ilist →
        (c = id.creatorNode ∧ ilist = s.nextList) ∨ (c ≠ id.creatorNode ∧ s.instancesByCreator c = some ilist) := by
      intro c ilist hu
      by_cases hcc : c = id.creatorNode
      · subst hcc
        rw [Function.update_self, Option.some.injEq] at hu
        exact Or.inl ⟨rfl, hu.symm⟩
      · rw [Function.update_of_ne hcc] at hu
        exact Or.inr ⟨hcc, hu⟩
    have hkeep : ∀ c ilist, s.instancesByCreator c = some ilist →
        Function.update s.instancesByCreator id.creatorNode (some s.nextList) c = some ilist := by
      intro c ilist hu
      have hcc : c ≠ id.creatorNode := by
        rintro rfl
        rw [hc] at hu
        cases hu
      rwa [Function.update_of_ne hcc]
    refine h.of_same_objects (fun id' impl => ?_) rfl (fun c ilist hu => ?_) (fun c c' ilist hu hu' => ?_)
      (fun id' ilist' hm => ?_) h.returned
    · -- the new list is empty, and the old ones stay
      constructor
      · rintro ⟨ilist, hu, hi⟩
        rcases hother _ _ hu with ⟨-, rfl⟩ | ⟨-, hu⟩
        · simp [Function.update_self] at hi
        · have hne : ilist ≠ s.nextList := Nat.ne_of_lt (h.lists _ _ hu)
          exact ⟨ilist, hu, by simpa [Function.update_of_ne hne] using hi⟩
      · rintro ⟨ilist, hu, hi⟩
        have hne : ilist ≠ s.nextList := Nat.ne_of_lt (h.lists _ _ hu)
        exact ⟨ilist, hkeep _ _ hu, by simpa [Function.update_of_ne hne] using hi⟩
    · rcases hother c ilist hu with ⟨-, rfl⟩ | ⟨-, hu⟩
      · exact Nat.lt_succ_self _
      · exact (h.lists c ilist hu).trans (Nat.lt_succ_self _)
    · rcases hother c ilist hu with ⟨rfl, rfl⟩ | ⟨-, hold⟩ <;> rcases hother c' _ hu' with ⟨rfl, heq⟩ | ⟨-, hold'⟩
      · rfl
      · exact absurd (h.lists _ _ hold') (Nat.lt_irrefl _)
      · rw [heq] at hold
        exact absurd (h.lists _ _ hold) (Nat.lt_irrefl _)
      · exact h.inj c c' ilist hold hold'
    · rcases List.mem_append.mp hm with hm | hm
      · exact hkeep _ _ (h.lookups id' ilist' hm)
      · obtain ⟨rfl, rfl⟩ := Prod.mk.inj (List.mem_singleton.mp hm)
        exact Function.update_self ..

theorem Inv.findInstance {s : State ν} (h : Inv s) {id : InstanceId ν} {ilist : ℕ} (hm : (id, ilist) ∈ s.lookups) :
    Inv { s.findInstance id ilist with lookups := s.lookups.erase (id, ilist) } := by
  obtain ⟨impl, hreturned, hobj, hcase⟩ := h.findInstance_spec (h.lookups id ilist hm)
  have hmap : (s.findInstance id ilist).instancesByCreator = s.instancesByCreator ∧
      (s.findInstance id ilist).nextList = s.nextList := by
    unfold State.findInstance
    simp only
    split <;> exact ⟨rfl, rfl⟩
  have hlists : ∀ c il, (s.findInstance id ilist).instancesByCreator c = some il →
      il < (s.findInstance id ilist).nextList := by
    rw [hmap.1, hmap.2]
    exact h.lists
  refine ⟨hlists, ?_, ?_, fun id' impl' ho => ?_, fun i j a b hi hj hab => ?_, fun id' impl' hr => ?_⟩
  · show ∀ c c' il, (s.findInstance id ilist).instancesByCreator c = some il → _
    rw [hmap.1]
    exact h.inj
  · show ∀ (id' : InstanceId ν) il, _ → (s.findInstance id ilist).instancesByCreator id'.creatorNode = some il
    rw [hmap.1]
    exact fun id' il hl => h.lookups id' il (List.mem_of_mem_erase hl)
  · show _ ∧ impl'.object < (s.findInstance id ilist).next
    rcases (hobj id' impl').mp ho with hold | ⟨rfl, rfl⟩ <;> rcases hcase with ⟨hexist, hnext⟩ | ⟨-, hnew, hnext⟩
    · rw [hnext]
      exact h.objects id' impl' hold
    · rw [hnext]
      exact ⟨(h.objects id' impl' hold).1, (h.objects id' impl' hold).2.trans (Nat.lt_succ_self _)⟩
    · rw [hnext]
      exact h.objects _ _ hexist
    · rw [hnext, hnew]
      exact ⟨rfl, Nat.lt_succ_self _⟩
  · rcases (hobj i a).mp hi with hi' | ⟨rfl, rfl⟩ <;> rcases (hobj j b).mp hj with hj' | ⟨rfl, rfl⟩
    · exact h.distinct i j a b hi' hj' hab
    · rcases hcase with ⟨hexist, -⟩ | ⟨-, rfl, -⟩
      · exact h.distinct i j a b hi' hexist hab
      · -- the new object is not an old one
        exact absurd (h.objects i a hi').2 (by rw [hab]; exact Nat.lt_irrefl _)
    · rcases hcase with ⟨hexist, -⟩ | ⟨-, rfl, -⟩
      · exact h.distinct i j a b hexist hj' hab
      · exact absurd (h.objects j b hj').2 (by rw [← hab]; exact Nat.lt_irrefl _)
    · rfl
  · refine (hobj id' impl').mpr ?_
    have hr' : (id', impl') ∈ s.returned ++ [(id, impl)] := hreturned ▸ hr
    rcases List.mem_append.mp hr' with hr' | hr'
    · exact Or.inl (h.returned id' impl' hr')
    · exact Or.inr (Prod.mk.inj (List.mem_singleton.mp hr'))

theorem Inv.step {s s' : State ν} {e : Event ν} (h : Inv s) (hstep : step s e = some s') : Inv s' := by
  cases e with
  | findList id =>
    cases hstep
    exact h.findList id
  | findInstance id ilist =>
    obtain ⟨hm, hstep⟩ := Option.ite_none_right_eq_some.mp hstep
    cases hstep
    exact h.findInstance hm

/-- **Proxies.**  Whatever the threads do in between, two calls of `get_instance` return the same object if and only if
they were called with the same id, and the object knows its id. -/
theorem proxies_of_run (es : List (Event ν)) (s : State ν) (hrun : run step State.init es = some s)
    (id id' : InstanceId ν) (impl impl' : InstanceImpl ν) (h : (id, impl) ∈ s.returned)
    (h' : (id', impl') ∈ s.returned) : impl.me = id ∧ (impl.object = impl'.object ↔ id = id') := by
  have hinv : Inv s := run_inv (fun _ _ _ h hs => h.step hs) Inv.init hrun
  have ho := hinv.returned id impl h
  have ho' := hinv.returned id' impl' h'
  refine ⟨(hinv.objects id impl ho).1, hinv.distinct id id' impl impl' ho ho', ?_⟩
  rintro rfl
  rw [object_unique ho ho']

/-- Two threads look for the first time for the same instance of node 3 at the same time. -/
theorem proxies_of_run_two : ∃ s : State ℕ, run step State.init [.findList ⟨3, 1⟩, .findList ⟨3, 1⟩,
      .findInstance ⟨3, 1⟩ 0, .findInstance ⟨3, 1⟩ 0] = some s ∧
    s.returned = [(⟨3, 1⟩, ⟨0, ⟨3, 1⟩⟩), (⟨3, 1⟩, ⟨0, ⟨3, 1⟩⟩)] ∧
    (((⟨0, ⟨3, 1⟩⟩ : InstanceImpl ℕ).me = ⟨3, 1⟩) ∧ ((0 : ℕ) = 0 ↔ (⟨3, 1⟩ : InstanceId ℕ) = ⟨3, 1⟩)) :=
  ⟨_, rfl, rfl, proxies_of_run [.findList ⟨3, 1⟩, .findList ⟨3, 1⟩, .findInstance ⟨3, 1⟩ 0, .findInstance ⟨3, 1⟩ 0] _
    rfl ⟨3, 1⟩ ⟨3, 1⟩ ⟨0, ⟨3, 1⟩⟩ ⟨0, ⟨3, 1⟩⟩ (List.mem_cons_self ..) (List.mem_cons_self ..)⟩

end Realm.Proxies

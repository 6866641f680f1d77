import Mathlib.Data.List.Perm.Basic
import Mathlib.Data.List.Range
import Mathlib.Data.List.Nodup
import Mathlib.Data.List.Perm.Subperm
import Realm.Lib.Run
import Realm.Lib.Int32
import Realm.Lib.Int64
import Realm.Lib.Index

/-!
# Realm.Mem.Instances — the slots of local instances (`MemoryImpl::new_instance`, `release_instance`)

A memory numbers the instances that are created on its node.  A number that has been released is used again, with the
object that it got the first time.

* `selectSlot`: the first section of `new_instance` under the mutex; `w` is `ID::INSTANCE_INDEX_WIDTH`.
* `step`: that section, the creation of an object with the second section, and `release_instance`, by any number of
  threads.
* `Sound`: no two live instances share a slot, in one state; `Correct`: in all that can be reached.
* `Inv`: the slots are the released ones and the live ones; `selectSlot_cases`: what a call can find.
* `instances_correct_iff`: the code is correct as long as `1 << w` is a positive `int`.
-/

namespace Realm.Instances

open Lib

/-! ## The code -/

/-- `RegionInstanceImpl`: which object it is, and `inst_idx` of its handle `me`. -/
structure InstanceImpl where
  object : ℕ
  instIdx : ℕ
deriving DecidableEq

/-- `InstanceList`; the last element of `freeList` is its back. -/
structure InstanceList where
  instances : List (Option InstanceImpl)
  freeList : List ℕ

/-- `vector::resize` -/
def resize {α : Type} (l : List α) (n : ℕ) (a : α) : List α := l.take n ++ List.replicate (n - l.length) a

/-- `1 << ID::INSTANCE_INDEX_WIDTH`, compared with a `size_t`.  The shift of an `int` by more than 31 is undefined. -/
def indexLimit (w : ℕ) : Option ℕ := if w < 32 then some (uint64 (int32 (2 ^ w))) else none

def chunkSize : ℕ := 8

/-- What the first section of `new_instance` finds: nothing, an object to reuse, or a slot without one. -/
inductive Selected
  | null
  | reuse (instIdx : ℕ) (instImpl : InstanceImpl) (l : InstanceList)
  | fresh (instIdx : ℕ) (l : InstanceList)

/-- "need to grow the list - do it in chunks"; one of the new slots is taken at once. -/
def grow (l : InstanceList) (newSize : ℕ) : Selected :=
  .fresh (l.instances.length % 2 ^ 32)
    { instances := resize l.instances newSize none
      freeList := (List.range (chunkSize - 1)).map fun i => uint64 ((newSize : ℤ) - 1 - i) }

def selectSlot (w : ℕ) (l : InstanceList) : Option Selected :=
  match l.freeList.getLast? with
  | none => do
    let limit ← indexLimit w
    let oldSize := l.instances.length
    let newSize := (oldSize + chunkSize) % 2 ^ 64
    if newSize > limit then
      -- completely out of slots - nothing we can do
      if oldSize = limit then return .null else return grow l limit
    else return grow l newSize
  | some back => do
    let instIdx := back % 2 ^ 32
    let l := { l with freeList := l.freeList.dropLast }
    match ← l.instances[instIdx]? with
    | some instImpl => return .reuse instIdx instImpl l
    | none => return .fresh instIdx l

/-- The memory with its users.  `creating` has the calls of `new_instance` between their two sections, `held` the
instances that were returned and not released; `history` is every instance that was returned.  Each comes with the
`inst_idx` of its call.  `next` is the next object. -/
structure State where
  list : InstanceList
  creating : List ℕ
  held : List (ℕ × InstanceImpl)
  history : List (ℕ × InstanceImpl)
  next : ℕ

def State.init : State := ⟨⟨[], []⟩, [], [], [], 0⟩

inductive Event
  | newInstance
  | create (i : ℕ)
  | release (i : ℕ)

/-- The object for a slot; `inst_idx` is a bit field of the handle. -/
def newImpl (w : ℕ) (st : State) (instIdx : ℕ) : InstanceImpl := ⟨st.next, instIdx % 2 ^ w⟩

/-- What a call does with what it found: an object is returned, a slot without one is kept by the call. -/
def State.goOn (st : State) : Selected → State
  | .null => st
  | .reuse instIdx instImpl l =>
    { st with
      list := l
      held := st.held ++ [(instIdx, instImpl)]
      history := st.history ++ [(instIdx, instImpl)] }
  | .fresh instIdx l => { st with list := l, creating := st.creating ++ [instIdx] }

def step (w : ℕ) (st : State) : Event → Option State
  | .newInstance => (selectSlot w st.list).map st.goOn
  | .create i => do
    let instIdx ← st.creating[i]?
    let instImpl := newImpl w st instIdx
    if instIdx < st.list.instances.length then
      return {
        list := { st.list with instances := st.list.instances.set instIdx (some instImpl) }
        creating := st.creating.eraseIdx i
        held := st.held ++ [(instIdx, instImpl)]
        history := st.history ++ [(instIdx, instImpl)]
        next := st.next + 1 }
    else none
  | .release i => do
    let (_, instImpl) ← st.held[i]?
    return { st with
      list := { st.list with freeList := st.list.freeList ++ [uint64 (int32 instImpl.instIdx)] }
      held := st.held.eraseIdx i }

/-! ## What is to be shown -/

/-- The indices that have been acquired and not released. -/
def State.live (st : State) : List ℕ := st.creating ++ st.held.map Prod.fst

/-- The slots in one state. -/
structure Sound (w : ℕ) (st : State) : Prop where
  nodup : (st.list.freeList ++ st.live).Nodup
  covers : ∀ i, i ∈ st.list.freeList ++ st.live ↔ i < st.list.instances.length
  below : ∀ i ∈ st.live, i < 2 ^ w
  sameObject : ∀ i a b, (i, a) ∈ st.history → (i, b) ∈ st.history → a = b
  /-- the next call of `new_instance` -/
  defined : (selectSlot w st.list).isSome
  null : selectSlot w st.list = some .null ↔ ∀ i < 2 ^ w, i ∈ st.live
  acquires : ∀ i l, selectSlot w st.list = some (.fresh i l) ∨ (∃ impl, selectSlot w st.list = some (.reuse i impl l)) →
    i < 2 ^ w ∧ i ∉ st.live

/-- Every interleaving of the calls leaves the slots sound. -/
def Correct (w : ℕ) : Prop := ∀ es st, run (step w) .init es = some st → Sound w st

/-! ## The invariant -/

/-- The slots are the released and the live ones, in whole chunks.  Every object is in the slot that it was made for
and stays there. -/
structure Inv (st : State) : Prop where
  chunks : 8 ∣ st.list.instances.length
  perm : (st.list.freeList ++ st.live).Perm (List.range st.list.instances.length)
  creating : ∀ i ∈ st.creating, st.list.instances[i]? = some none
  history : ∀ p ∈ st.history, st.list.instances[p.1]? = some (some p.2)
  held : ∀ p ∈ st.held, p ∈ st.history
  index : ∀ i (impl : InstanceImpl), st.list.instances[i]? = some (some impl) → impl.instIdx = i

theorem Inv.init : Inv .init where
  chunks := Nat.dvd_zero 8
  perm := List.Perm.refl _
  creating := fun i hi => by cases hi
  history := fun p hp => by cases hp
  held := fun p hp => by cases hp
  index := fun i impl h => by cases h

variable {w : ℕ} {st st' : State}

theorem Inv.mem_iff (h : Inv st) (i : ℕ) : i ∈ st.list.freeList ++ st.live ↔ i < st.list.instances.length :=
  h.perm.mem_iff.trans List.mem_range

theorem Inv.nodup (h : Inv st) : (st.list.freeList ++ st.live).Nodup := h.perm.nodup_iff.mpr List.nodup_range

/-! ## One call -/

/-- What `new_instance` finds under the mutex, in the state `st`. -/
inductive Finds (limit : ℕ) (st : State) : Selected → Prop
  | null (hfree : st.list.freeList = []) (hsize : st.list.instances.length = limit) : Finds limit st .null
  | grow (hfree : st.list.freeList = []) (hsize : st.list.instances.length + 8 ≤ limit) :
    Finds limit st (.fresh st.list.instances.length
      { instances := st.list.instances ++ List.replicate 8 none
        freeList := (List.range 7).map fun i => st.list.instances.length + 7 - i })
  | fresh {fl : List ℕ} {i : ℕ} (hfree : st.list.freeList = fl ++ [i]) (hi : st.list.instances[i]? = some none) :
    Finds limit st (.fresh i { st.list with freeList := fl })
  | reuse {fl : List ℕ} {i : ℕ} {impl : InstanceImpl} (hfree : st.list.freeList = fl ++ [i])
    (hi : st.list.instances[i]? = some (some impl)) : Finds limit st (.reuse i impl { st.list with freeList := fl })

theorem grow_eq {l : InstanceList} (h : l.instances.length < 2 ^ 32) :
    grow l (l.instances.length + 8) = .fresh l.instances.length
      { instances := l.instances ++ List.replicate 8 none
        freeList := (List.range 7).map fun i => l.instances.length + 7 - i } := by
  have hresize : resize l.instances (l.instances.length + 8) none = l.instances ++ List.replicate 8 none := by
    rw [resize, List.take_of_length_le (by omega), Nat.add_sub_cancel_left]
  have hfree : ∀ i ∈ List.range 7,
      uint64 (((l.instances.length + 8 : ℕ) : ℤ) - 1 - i) = l.instances.length + 7 - i := by
    intro i hi
    have hi := List.mem_range.mp hi
    have := uint64_eq_self (x := ((l.instances.length + 8 : ℕ) : ℤ) - 1 - i) (by omega) (by omega)
    omega
  unfold grow
  rw [Nat.mod_eq_of_lt h, hresize]
  congr 2
  exact List.map_congr_left hfree

/-- **The first section of `new_instance`**, as long as the indices fit into an `unsigned`. -/
theorem Inv.selectSlot_finds (h : Inv st) {limit : ℕ} (hlimit : indexLimit w = some limit) (hdvd : 8 ∣ limit)
    (hle : st.list.instances.length ≤ limit) (h32 : st.list.instances.length < 2 ^ 32) :
    ∃ s, selectSlot w st.list = some s ∧ Finds limit st s := by
  unfold selectSlot
  rcases List.eq_nil_or_concat st.list.freeList with hfree | ⟨fl, i, hfree⟩
  · have hsum : (st.list.instances.length + chunkSize) % 2 ^ 64 = st.list.instances.length + 8 :=
      Nat.mod_eq_of_lt (by unfold chunkSize; omega)
    simp only [hfree, List.getLast?_nil, hlimit, Option.bind_eq_bind, Option.bind_some, hsum]
    by_cases hfull : st.list.instances.length = limit
    · rw [if_pos (by omega), if_pos hfull]
      exact ⟨_, rfl, .null hfree hfull⟩
    · have hchunks := h.chunks
      rw [if_neg (by omega), grow_eq h32]
      exact ⟨_, rfl, .grow hfree (by omega)⟩
  · rw [List.concat_eq_append] at hfree
    have hi : i < st.list.instances.length := by
      rw [← h.mem_iff, hfree]
      simp
    have hidx : i % 2 ^ 32 = i := Nat.mod_eq_of_lt (by omega)
    simp only [hfree, List.getLast?_concat, List.dropLast_concat, hidx]
    cases hobj : st.list.instances[i]? with
    | none => exact absurd hi (Nat.not_lt.mpr (List.getElem?_eq_none_iff.mp hobj))
    | some obj =>
      cases obj with
      | none => exact ⟨_, rfl, .fresh hfree hobj⟩
      | some impl => exact ⟨_, rfl, .reuse hfree hobj⟩

/-! ## One step -/

/-- The new slots: one is taken, the others go to the free list in reverse. -/
theorem perm_grow {n : ℕ} {creating held : List ℕ} (h : (creating ++ held).Perm (List.range n)) :
    ((List.range 7).map (fun i => n + 7 - i) ++ ((creating ++ [n]) ++ held)).Perm (List.range (n + 8)) := by
  have hnew : ((List.range 7).map fun i => n + 7 - i) ++ [n] = ((List.range 8).map (n + ·)).reverse := by
    simp [List.range_succ]
  have hmove : ((List.range 7).map (fun i => n + 7 - i) ++ ((creating ++ [n]) ++ held)).Perm
      ((creating ++ held) ++ ((List.range 7).map (fun i => n + 7 - i) ++ [n])) := by
    rw [List.append_assoc, List.singleton_append]
    refine List.perm_append_comm.trans ?_
    refine (List.perm_middle.append_right _).trans ?_
    rw [List.cons_append, ← List.append_assoc]
    exact (List.perm_append_singleton n _).symm
  rw [List.range_add]
  exact hmove.trans (h.append (hnew ▸ List.reverse_perm _))

/-- Behind the slots there were, the new ones have no object. -/
theorem getElem?_grown {l : List (Option InstanceImpl)} {i : ℕ} {x : Option InstanceImpl}
    (h : (l ++ List.replicate 8 none)[i]? = some x) : l[i]? = some x ∨ x = none := by
  by_cases hlt : i < l.length
  · rw [List.getElem?_append_left hlt] at h
    exact .inl h
  · rw [List.getElem?_append_right (by omega)] at h
    exact .inr (List.eq_of_mem_replicate (List.mem_of_getElem? h))

theorem Inv.grow (h : Inv st) (hfree : st.list.freeList = []) :
    Inv { st with
      list := { instances := st.list.instances ++ List.replicate 8 none
                freeList := (List.range 7).map fun i => st.list.instances.length + 7 - i }
      creating := st.creating ++ [st.list.instances.length] } := by
  have hold : ∀ {i : ℕ} {x : Option InstanceImpl}, st.list.instances[i]? = some x →
      (st.list.instances ++ List.replicate 8 none)[i]? = some x := by
    intro i x hx
    rw [List.getElem?_append_left (List.getElem?_eq_some_iff.mp hx).1, hx]
  refine ⟨?_, ?_, ?_, fun p hp => hold (h.history p hp), h.held, ?_⟩
  · show 8 ∣ (st.list.instances ++ List.replicate 8 none).length
    rw [List.length_append, List.length_replicate]
    exact (Nat.dvd_add_self_right).mpr h.chunks
  · have hperm := h.perm
    rw [hfree, List.nil_append] at hperm
    show ((List.range 7).map _ ++ ((st.creating ++ [_]) ++ st.held.map Prod.fst)).Perm
      (List.range (st.list.instances ++ List.replicate 8 none).length)
    rw [List.length_append, List.length_replicate]
    exact perm_grow hperm
  · intro i hi
    rcases List.mem_append.mp hi with hi | hi
    · exact hold (h.creating i hi)
    · rw [List.mem_singleton.mp hi]
      show (st.list.instances ++ List.replicate 8 none)[st.list.instances.length]? = some none
      rw [List.getElem?_append_right (le_refl _), Nat.sub_self]
      rfl
  · intro i impl hi
    rcases getElem?_grown hi with hi | hi
    · exact h.index i impl hi
    · cases hi

theorem Inv.goOn (h : Inv st) {limit : ℕ} {s : Selected} (hs : Finds limit st s) : Inv (st.goOn s) := by
  cases hs with
  | null hfree hsize => exact h
  | grow hfree hsize => exact h.grow hfree
  | @fresh fl i hfree hi =>
    refine ⟨h.chunks, ?_, ?_, h.history, h.held, h.index⟩
    · have hperm := h.perm
      rw [hfree, List.append_assoc] at hperm
      show (fl ++ ((st.creating ++ [i]) ++ st.held.map Prod.fst)).Perm _
      refine (List.Perm.append_left fl ?_).trans hperm
      rw [List.append_assoc]
      exact List.perm_middle
    · intro j hj
      rcases List.mem_append.mp hj with hj | hj
      · exact h.creating j hj
      · rw [List.mem_singleton.mp hj]
        exact hi
  | @reuse fl i impl hfree hi =>
    refine ⟨h.chunks, ?_, h.creating, ?_, ?_, h.index⟩
    · have hperm := h.perm
      rw [hfree, List.append_assoc] at hperm
      show (fl ++ (st.creating ++ (st.held ++ [(i, impl)]).map Prod.fst)).Perm _
      refine (List.Perm.append_left fl ?_).trans hperm
      rw [List.map_append, ← List.append_assoc]
      exact List.perm_append_singleton i _
    · intro p hp
      rcases List.mem_append.mp hp with hp | hp
      · exact h.history p hp
      · rw [List.mem_singleton.mp hp]
        exact hi
    · intro p hp
      rcases List.mem_append.mp hp with hp | hp
      · exact List.mem_append_left _ (h.held p hp)
      · exact List.mem_append_right _ hp

/-- The slot of a call that is to make an object. -/
theorem Inv.lt_of_creating (h : Inv st) {i : ℕ} (hi : i ∈ st.creating) : i < st.list.instances.length := by
  rw [← h.mem_iff]
  exact List.mem_append_right _ (List.mem_append_left _ hi)

theorem Inv.create (h : Inv st) (hle : st.list.instances.length ≤ 2 ^ w) {i : ℕ}
    (hstep : step w st (.create i) = some st') :
    Inv st' ∧ st'.list.instances.length = st.list.instances.length := by
  obtain ⟨idx, hidx, hstep⟩ := Option.bind_eq_some_iff.mp hstep
  have hmem : idx ∈ st.creating := List.mem_of_getElem? hidx
  have hlt := h.lt_of_creating hmem
  dsimp only at hstep
  rw [if_pos hlt] at hstep
  obtain rfl := Option.some.inj hstep
  obtain ⟨A, B, hsplit, herase, -⟩ := split_at hidx
  have hother : ∀ {j : ℕ} (x : Option InstanceImpl), j ≠ idx →
      (st.list.instances.set idx x)[j]? = st.list.instances[j]? := fun x hj => List.getElem?_set_ne hj.symm
  have hself : ∀ x : Option InstanceImpl, (st.list.instances.set idx x)[idx]? = some x :=
    fun x => List.getElem?_set_self hlt
  -- the other calls have other slots, and those of `history` have objects
  have hne : ∀ j ∈ A ++ B, j ≠ idx := by
    have hnodup := (List.nodup_append.mp (List.nodup_append.mp h.nodup).2.1).1
    rw [hsplit, List.nodup_middle, List.nodup_cons] at hnodup
    exact fun j hj heq => hnodup.1 (heq ▸ hj)
  have hhist : ∀ p ∈ st.history, p.1 ≠ idx := by
    intro p hp heq
    have hp := h.history p hp
    rw [heq, h.creating idx hmem] at hp
    cases hp
  refine ⟨⟨?_, ?_, ?_, ?_, ?_, ?_⟩, List.length_set⟩
  · show 8 ∣ (st.list.instances.set idx _).length
    rw [List.length_set]
    exact h.chunks
  · show (st.list.freeList ++ (st.creating.eraseIdx i ++ (st.held ++ [_]).map Prod.fst)).Perm
      (List.range (st.list.instances.set idx _).length)
    rw [List.length_set, herase]
    have hperm := h.perm
    rw [State.live, hsplit] at hperm
    refine (List.Perm.append_left _ ?_).trans hperm
    rw [List.map_append, ← List.append_assoc, List.append_assoc A]
    refine (List.perm_append_singleton idx _).trans ?_
    rw [List.append_assoc]
    exact List.perm_middle.symm
  · intro j hj
    show (st.list.instances.set idx _)[j]? = some none
    rw [hother _ (hne j (herase ▸ hj))]
    exact h.creating j (List.mem_of_mem_eraseIdx hj)
  · intro p hp
    rcases List.mem_append.mp hp with hp | hp
    · exact (hother _ (hhist p hp)).trans (h.history p hp)
    · rw [List.mem_singleton.mp hp]
      exact hself _
  · intro p hp
    rcases List.mem_append.mp hp with hp | hp
    · exact List.mem_append_left _ (h.held p hp)
    · exact List.mem_append_right _ hp
  · intro j impl hj
    by_cases heq : j = idx
    · subst heq
      have hj := Option.some.inj (Option.some.inj (hj.symm.trans (hself _)))
      rw [hj]
      exact Nat.mod_eq_of_lt (hlt.trans_le hle)
    · exact h.index j impl ((hother _ heq).symm.trans hj)

theorem Inv.release (h : Inv st) (h31 : st.list.instances.length ≤ 2 ^ 31) {i : ℕ}
    (hstep : step w st (.release i) = some st') :
    Inv st' ∧ st'.list.instances.length = st.list.instances.length := by
  obtain ⟨⟨idx, impl⟩, hidx, hstep⟩ := Option.bind_eq_some_iff.mp hstep
  obtain rfl := Option.some.inj hstep
  have hmem : (idx, impl) ∈ st.held := List.mem_of_getElem? hidx
  have hobj := h.history _ (h.held _ hmem)
  have hlt : idx < st.list.instances.length := (List.getElem?_eq_some_iff.mp hobj).1
  have hback : uint64 (int32 impl.instIdx) = idx := by
    have hint : int32 (idx : ℤ) = idx := int32_eq_self (by omega) (by omega)
    have := uint64_eq_self (x := (idx : ℤ)) (by omega) (by omega)
    rw [h.index idx impl hobj, hint]
    omega
  obtain ⟨A, B, hsplit, herase, -⟩ := split_at hidx
  refine ⟨⟨h.chunks, ?_, h.creating, h.history, ?_, h.index⟩, rfl⟩
  · show ((st.list.freeList ++ [uint64 (int32 impl.instIdx)]) ++
      (st.creating ++ (st.held.eraseIdx i).map Prod.fst)).Perm (List.range st.list.instances.length)
    have hperm := h.perm
    rw [State.live, hsplit] at hperm
    rw [hback, herase, List.append_assoc]
    refine (List.Perm.append_left _ ?_).trans hperm
    rw [List.map_append, List.map_append, List.map_cons, ← List.append_assoc st.creating,
      ← List.append_assoc st.creating, List.singleton_append]
    exact List.perm_middle.symm
  · exact fun p hp => h.held p (List.mem_of_mem_eraseIdx hp)

/-! ## Whole runs -/

theorem indexLimit_eq (h : w ≤ 30) : indexLimit w = some (2 ^ w) := by
  have hlt : 2 ^ w ≤ 2 ^ 30 := Nat.pow_le_pow_right (by omega) h
  have hint : int32 (2 ^ w) = 2 ^ w := by
    refine int32_eq_self ?_ ?_
    · exact le_trans (by omega) (pow_nonneg (by omega) w)
    · exact_mod_cast (show 2 ^ w < 2 ^ 31 by omega)
  have huint : (uint64 (2 ^ w) : ℤ) = 2 ^ w :=
    uint64_eq_self (pow_nonneg (by omega) w) (by exact_mod_cast (show 2 ^ w < 2 ^ 64 by omega))
  rw [indexLimit, if_pos (by omega), hint]
  exact congrArg some (by exact_mod_cast huint)

theorem eight_dvd (h : 3 ≤ w) : 8 ∣ 2 ^ w := Nat.pow_dvd_pow 2 h

/-- The invariant of the runs: the indices have `w` bits. -/
def Within (w : ℕ) (st : State) : Prop := Inv st ∧ st.list.instances.length ≤ 2 ^ w

theorem length_goOn {limit : ℕ} {s : Selected} (hs : Finds limit st s) (hle : st.list.instances.length ≤ limit) :
    (st.goOn s).list.instances.length ≤ limit := by
  cases hs with
  | null hfree hsize => exact hle
  | grow hfree hsize =>
    show (st.list.instances ++ List.replicate 8 none).length ≤ limit
    rw [List.length_append, List.length_replicate]
    exact hsize
  | fresh hfree hi => exact hle
  | reuse hfree hi => exact hle

theorem Within.finds (h3 : 3 ≤ w) (h30 : w ≤ 30) (h : Within w st) :
    ∃ s, selectSlot w st.list = some s ∧ Finds (2 ^ w) st s := by
  have hlt : 2 ^ w ≤ 2 ^ 30 := Nat.pow_le_pow_right (by omega) h30
  have hle := h.2
  exact h.1.selectSlot_finds (indexLimit_eq h30) (eight_dvd h3) hle (by omega)

theorem Within.step (h3 : 3 ≤ w) (h30 : w ≤ 30) (h : Within w st) {e : Event} (hstep : step w st e = some st') :
    Within w st' := by
  have hlt : 2 ^ w ≤ 2 ^ 30 := Nat.pow_le_pow_right (by omega) h30
  cases e with
  | newInstance =>
    obtain ⟨s, hs, hfinds⟩ := h.finds h3 h30
    have hstep : (selectSlot w st.list).map st.goOn = some st' := hstep
    rw [hs] at hstep
    obtain rfl := Option.some.inj hstep
    exact ⟨h.1.goOn hfinds, length_goOn hfinds h.2⟩
  | create i =>
    obtain ⟨hinv, hlen⟩ := h.1.create h.2 hstep
    exact ⟨hinv, hlen ▸ h.2⟩
  | release i =>
    have hle := h.2
    obtain ⟨hinv, hlen⟩ := h.1.release (by omega) hstep
    exact ⟨hinv, hlen ▸ h.2⟩

/-- The slot of a call was not live. -/
theorem Inv.not_live (h : Inv st) {fl : List ℕ} {i : ℕ} (hfree : st.list.freeList = fl ++ [i]) : i ∉ st.live := by
  have hnodup := List.nodup_append.mp h.nodup
  intro hi
  exact hnodup.2.2 i (by rw [hfree]; simp) i hi rfl

theorem Within.sound (h3 : 3 ≤ w) (h30 : w ≤ 30) (h : Within w st) : Sound w st := by
  obtain ⟨s, hs, hfinds⟩ := h.finds h3 h30
  have hle := h.2
  have hlive : ∀ i ∈ st.live, i < st.list.instances.length := fun i hi =>
    (h.1.mem_iff i).mp (List.mem_append_right _ hi)
  refine ⟨h.1.nodup, h.1.mem_iff, fun i hi => (hlive i hi).trans_le hle, ?_, ?_, ?_, ?_⟩
  · intro i a b ha hb
    exact Option.some.inj (Option.some.inj ((h.1.history _ ha).symm.trans (h.1.history _ hb)))
  · rw [hs]
    rfl
  · rw [hs]
    cases hfinds with
    | null hfree hsize =>
      refine iff_of_true rfl fun i hi => ?_
      have := (h.1.mem_iff i).mpr (hsize ▸ hi)
      rwa [hfree] at this
    | grow hfree hsize =>
      refine iff_of_false (fun h => by cases h) fun hall => ?_
      exact lt_irrefl _ (hlive _ (hall st.list.instances.length (by omega)))
    | @fresh fl i hfree hi =>
      refine iff_of_false (fun h => by cases h) fun hall => ?_
      have hlt := (List.getElem?_eq_some_iff.mp hi).1
      exact h.1.not_live hfree (hall i (by omega))
    | @reuse fl i impl hfree hi =>
      refine iff_of_false (fun h => by cases h) fun hall => ?_
      have hlt := (List.getElem?_eq_some_iff.mp hi).1
      exact h.1.not_live hfree (hall i (by omega))
  · intro i l hil
    rw [hs] at hil
    cases hfinds with
    | null hfree hsize => rcases hil with hil | ⟨impl, hil⟩ <;> cases hil
    | grow hfree hsize =>
      rcases hil with hil | ⟨impl, hil⟩
      · obtain ⟨rfl, -⟩ := Selected.fresh.inj (Option.some.inj hil)
        exact ⟨by omega, fun hi => lt_irrefl _ (hlive _ hi)⟩
      · cases hil
    | fresh hfree hi =>
      rcases hil with hil | ⟨impl, hil⟩
      · obtain ⟨rfl, -⟩ := Selected.fresh.inj (Option.some.inj hil)
        exact ⟨(List.getElem?_eq_some_iff.mp hi).1.trans_le hle, h.1.not_live hfree⟩
      · cases hil
    | reuse hfree hi =>
      rcases hil with hil | ⟨impl, hil⟩
      · cases hil
      · obtain ⟨rfl, -, -⟩ := Selected.reuse.inj (Option.some.inj hil)
        exact ⟨(List.getElem?_eq_some_iff.mp hi).1.trans_le hle, h.1.not_live hfree⟩

/-! ## Wider indices -/

theorem indexLimit_thirtyOne : indexLimit 31 = some (2 ^ 64 - 2 ^ 31) := by
  decide

/-- A call that finds something acquires one index, and leaves at most seven free ones. -/
theorem goOn_counts {limit : ℕ} {s : Selected} (hs : Finds limit st s) (hlt : st.list.instances.length < limit)
    (h7 : st.list.freeList.length ≤ 7) :
    (st.goOn s).live.length = st.live.length + 1 ∧ (st.goOn s).list.freeList.length ≤ 7 := by
  have hpop : ∀ {fl : List ℕ} {i : ℕ}, st.list.freeList = fl ++ [i] → fl.length ≤ 7 := by
    intro fl i hfree
    rw [hfree, List.length_append] at h7
    omega
  cases hs with
  | null hfree hsize => omega
  | grow hfree hsize =>
    refine ⟨?_, by simp [State.goOn]⟩
    simp only [State.goOn, State.live, List.length_append, List.length_singleton]
    omega
  | fresh hfree hi =>
    refine ⟨?_, hpop hfree⟩
    simp only [State.goOn, State.live, List.length_append, List.length_singleton]
    omega
  | reuse hfree hi =>
    refine ⟨?_, hpop hfree⟩
    simp only [State.goOn, State.live, List.map_append, List.map_singleton, List.length_append, List.length_singleton]
    omega

/-- With 31 bits `1 << w` is negative, and as a `size_t` no limit: `n` calls acquire `n` indices. -/
theorem exists_run_thirtyOne (n : ℕ) (hn : n ≤ 2 ^ 31 + 1) :
    ∃ st, run (step 31) .init (List.replicate n .newInstance) = some st ∧ Inv st ∧ st.live.length = n ∧
      st.list.freeList.length ≤ 7 := by
  induction n with
  | zero => exact ⟨_, rfl, Inv.init, rfl, Nat.zero_le 7⟩
  | succ n ih =>
    obtain ⟨st, hrun, hinv, hlive, hfree⟩ := ih (by omega)
    have hlen := hinv.perm.length_eq
    rw [List.length_append, List.length_range] at hlen
    obtain ⟨s, hs, hfinds⟩ := hinv.selectSlot_finds indexLimit_thirtyOne (by omega) (by omega) (by omega)
    obtain ⟨hlive', hfree'⟩ := goOn_counts hfinds (by omega) hfree
    refine ⟨st.goOn s, ?_, hinv.goOn hfinds, by omega, hfree'⟩
    rw [List.replicate_succ', run_snoc_eq_some]
    refine ⟨st, hrun, ?_⟩
    show (selectSlot 31 st.list).map st.goOn = _
    rw [hs]
    rfl

theorem not_correct_thirtyOne : ¬ Correct 31 := by
  intro h
  obtain ⟨st, hrun, hinv, hlive, -⟩ := exists_run_thirtyOne (2 ^ 31 + 1) (le_refl _)
  have hbelow := (h _ st hrun).below
  have hnodup : st.live.Nodup := (List.nodup_append.mp hinv.nodup).2.1
  have hsub : st.live ⊆ List.range (2 ^ 31) := fun i hi => List.mem_range.mpr (hbelow i hi)
  have hle := (List.subperm_of_subset hnodup hsub).length_le
  rw [hlive, List.length_range] at hle
  omega

/-- The first call already shifts by `w`. -/
theorem not_correct_of_undefined (h : 32 ≤ w) : ¬ Correct w := by
  intro hc
  have hdefined := (hc [] .init rfl).defined
  have hlimit : indexLimit w = none := if_neg (by omega)
  have hnone : selectSlot w State.init.list = none := by
    simp only [selectSlot, State.init, List.getLast?_nil, hlimit]
    rfl
  rw [hnone] at hdefined
  cases hdefined

/-- **Slots are never shared, whatever the interleaving, if and only if** the index has at most 30 bits. -/
theorem instances_correct_iff (h3 : 3 ≤ w) : Correct w ↔ w ≤ 30 := by
  constructor
  · intro h
    by_contra hw
    rcases Nat.lt_or_ge w 32 with hlt | hge
    · obtain rfl : w = 31 := by omega
      exact not_correct_thirtyOne h
    · exact not_correct_of_undefined hge h
  · intro h30 es st hrun
    have hinit : Within w .init := ⟨Inv.init, Nat.zero_le _⟩
    exact (run_inv (fun _ _ _ h hs => h.step h3 h30 hs) hinit hrun).sound h3 h30

/-- 24 bits. -/
theorem instances_correct_24 : Correct 24 := (instances_correct_iff (by decide)).mpr (by decide)

/-- With 32 bits the first call is undefined. -/
theorem instances_not_correct_32 : ¬ Correct 32 := by
  intro h
  have hdefined := (h [] .init rfl).defined
  revert hdefined
  decide

end Realm.Instances

import Mathlib.Data.Finset.Image
import Realm.Lib.Spmd

/-!
# Realm.Runtime.Collective — collective spawns (`templates/runtime_impl.cc`, `use_mpi_quick.def`)

All nodes call `collective_spawn` together.  The root gathers what they wait for, merges it into one event, and what
comes out goes back to everybody by a broadcast.  The runtime of a node answers `merge_events` and `spawn` with events
that the model leaves open.

* `collectiveSpawn`, `collectiveSpawnByKind`: the programs of the nodes.
* `Path.of_mergeAll`, `Path.of_spawnLoop`: what their parts do.
* `collectiveSpawn_of_run`, `collectiveSpawnByKind_of_run`: every interleaving comes to an end with one event for all,
  and no task is spawned before every node has said what it waits for.
-/

namespace Realm.Collective

open Lib Lib.Spmd

/-! ## The nodes -/

/-- The id of an event; `NO_EVENT` is `0`. -/
abbrev Event := ℕ

/-- What a node asks of its runtime: `Event::merge_events`, and `spawn` on one of its processors. -/
inductive Request (π : Type)
  | mergeEvents (eventSet : Finset Event)
  | spawn (proc : π) (taskId : ℕ) (waitOn : Event) (priority : ℤ)

variable {n : ℕ} {π κ : Type}

/-- The program of a node. -/
abbrev Prog (n : ℕ) (π α : Type) := Spmd n Event (Request π) α

/-- `if(all_events[i].exists()) event_set.insert(all_events[i])` for all nodes -/
def existing (allEvents : Fin n → Event) : Finset Event := (Finset.univ.image allEvents).filter (· ≠ 0)

/-- `collective_spawn`: the root is the owner of the processor.  The others pass on a `finish_event` that nobody
reads. -/
def collectiveSpawn (root : Fin n) (targetProc : π) (taskId : ℕ) (waitOn : Event) (priority : ℤ) : Prog n π Event :=
  .gather root waitOn fun
    | some allEvents => .call (.mergeEvents (existing allEvents)) fun mergedEvent =>
        .call (.spawn targetProc taskId mergedEvent priority) fun finishEvent => .bcast root finishEvent .ret
    | none => .bcast root 0 .ret

/-- The two blocks of `collective_spawn_by_kind` in which the events of all nodes are merged. -/
def mergeAll (root : Fin n) (event : Event) : Prog n π Event :=
  .gather root event fun
    | some allEvents => .call (.mergeEvents (existing allEvents)) fun merged => .bcast root merged .ret
    | none => .bcast root 0 .ret

/-- The arguments that all nodes pass alike; `target_kind` is `none` for `NO_KIND`. -/
structure Args (κ : Type) where
  targetKind : Option κ
  taskId : ℕ
  onePerNode : Bool
  priority : ℤ

/-- `(target_kind == Processor::NO_KIND) || ((*it)->kind == target_kind)` -/
def Args.wants [DecidableEq κ] (a : Args κ) (kind : κ) : Bool := a.targetKind = none ∨ a.targetKind = some kind

/-- "now spawn 0 or more local tasks" -/
def spawnLoop [DecidableEq κ] (a : Args κ) (mergedEvent : Event) :
    List (π × κ) → Finset Event → Prog n π (Finset Event)
  | [], eventSet => .ret eventSet
  | (proc, kind) :: rest, eventSet =>
    if a.wants kind then
      .call (.spawn proc a.taskId mergedEvent a.priority) fun e =>
        let eventSet := if e ≠ 0 then insert e eventSet else eventSet
        if a.onePerNode then .ret eventSet else spawnLoop a mergedEvent rest eventSet
    else spawnLoop a mergedEvent rest eventSet

/-- `collective_spawn_by_kind`: "the root is arbitrary - we'll pick node 0" -/
def collectiveSpawnByKind [NeZero n] [DecidableEq κ] (a : Args κ) (localProcs : List (π × κ)) (waitOn : Event) :
    Prog n π Event :=
  (mergeAll 0 waitOn).bind fun mergedEvent => (spawnLoop a mergedEvent localProcs ∅).bind fun eventSet =>
    .call (.mergeEvents eventSet) fun myFinish => mergeAll 0 myFinish

/-! ## What is to be shown -/

/-- The processors of a node that get a task. -/
def targets [DecidableEq κ] (a : Args κ) (localProcs : List (π × κ)) : List π :=
  let matching := (localProcs.filter fun p => a.wants p.2).map Prod.fst
  if a.onePerNode then matching.take 1 else matching

/-- The events among the answers. -/
def finishes (tasks : List (Request π × Event)) : Finset Event := (tasks.map Prod.snd).toFinset.filter (· ≠ 0)

/-- What the nodes have asked for in a `collective_spawn` that returns `finishEvent`. -/
def Spawns (root : Fin n) (targetProc : π) (taskId : ℕ) (priority : ℤ) (waitOn : Fin n → Event)
    (calls : Fin n → List (Request π × Event)) (finishEvent : Event) : Prop :=
  ∃ mergedEvent, ∀ i, calls i = if i = root then [(.mergeEvents (existing waitOn), mergedEvent),
    (.spawn targetProc taskId mergedEvent priority, finishEvent)] else []

/-- What the nodes have asked for in a `collective_spawn_by_kind` that returns `mergedFinish`. -/
def SpawnsByKind [NeZero n] [DecidableEq κ] (a : Args κ) (localProcs : Fin n → List (π × κ)) (waitOn : Fin n → Event)
    (calls : Fin n → List (Request π × Event)) (mergedFinish : Event) : Prop :=
  ∃ (mergedEvent : Event) (myFinish : Fin n → Event) (tasks : Fin n → List (Request π × Event)), ∀ i,
    (tasks i).map Prod.fst = (targets a (localProcs i)).map (fun proc => .spawn proc a.taskId mergedEvent a.priority) ∧
    calls i = (if i = 0 then [(.mergeEvents (existing waitOn), mergedEvent)] else []) ++ tasks i ++
      [(.mergeEvents (finishes (tasks i)), myFinish i)] ++
      (if i = 0 then [(.mergeEvents (existing myFinish), mergedFinish)] else [])

/-! ## The parts -/

section Parts

variable {P : Fin n → ℕ → Option (Post n Event)} {i : Fin n} {c c' : ℕ} {as : List (Request π × Event)}

/-- Nobody posts two values to one collective. -/
theorem value_unique {op : Op} {root : Fin n} {v v' : Event} (h : P i c = some ⟨op, root, v⟩)
    (h' : P i c = some ⟨op, root, v'⟩) : v = v' := by
  rw [h, Option.some.injEq, Post.mk.injEq] at h'
  exact h'.2.2

theorem Path.of_ret {α : Type} {a b : α} (h : Path P i c (.ret a : Prog n π α) as c' (.ret b)) :
    a = b ∧ as = [] ∧ c' = c := by
  cases h with
  | refl => exact ⟨rfl, rfl, rfl⟩

/-- The last broadcast of a block. -/
theorem Path.of_bcast {root : Fin n} {v x : Event}
    (h : Path P i c (.bcast root v .ret : Prog n π Event) as c' (.ret x)) :
    P i c = some ⟨.bcast, root, v⟩ ∧ P root c = some ⟨.bcast, root, x⟩ ∧ as = [] ∧ c' = c + 1 := by
  cases h with
  | bcast own root rest =>
    obtain ⟨rfl, rfl, rfl⟩ := Path.of_ret rest
    exact ⟨own, root, rfl, rfl⟩

/-- **What `mergeAll` does**: everybody gets what the root has made out of the values of all. -/
theorem Path.of_mergeAll {root : Fin n} {v x : Event}
    (h : Path P i c (mergeAll root v : Prog n π Event) as c' (.ret x)) :
    P i c = some ⟨.gather, root, v⟩ ∧ P root (c + 1) = some ⟨.bcast, root, x⟩ ∧ c' = c + 2 ∧
      (i ≠ root → as = []) ∧ (i = root → ∃ vs : Fin n → Event, (∀ j, P j c = some ⟨.gather, root, vs j⟩) ∧
        as = [(.mergeEvents (existing vs), x)]) := by
  cases h with
  | gather hroot own rest =>
    obtain ⟨-, hbcast, rfl, rfl⟩ := Path.of_bcast rest
    exact ⟨own, hbcast, rfl, fun _ => rfl, fun hi => absurd hi hroot⟩
  | root hroot own all rest =>
    rename_i vs
    cases rest with
    | call rest =>
      obtain ⟨hown, hbcast, rfl, rfl⟩ := Path.of_bcast rest
      subst hroot
      obtain rfl := value_unique hown hbcast
      exact ⟨own, hown, rfl, fun hi => absurd rfl hi, fun _ => ⟨vs, all, rfl⟩⟩

theorem targets_cons [DecidableEq κ] (a : Args κ) (proc : π) (kind : κ) (rest : List (π × κ)) :
    targets a ((proc, kind) :: rest) = if a.wants kind then
      if a.onePerNode then [proc] else proc :: targets a rest else targets a rest := by
  unfold targets
  rw [List.filter_cons]
  by_cases hmatch : a.wants kind = true
  · rw [if_pos hmatch, if_pos hmatch, List.map_cons]
    by_cases hone : a.onePerNode = true
    · rw [if_pos hone, if_pos hone]
      rfl
    · rw [if_neg hone, if_neg hone, if_neg hone]
  · rw [if_neg hmatch, if_neg hmatch]

theorem finishes_cons (q : Request π) (e : Event) (tasks : List (Request π × Event)) :
    finishes ((q, e) :: tasks) = if e ≠ 0 then insert e (finishes tasks) else finishes tasks := by
  unfold finishes
  rw [List.map_cons, List.toFinset_cons, Finset.filter_insert]

/-- **The loop** spawns a task on every target, with the same precondition. -/
theorem Path.of_spawnLoop [DecidableEq κ] {a : Args κ} {mergedEvent : Event} {localProcs : List (π × κ)}
    {eventSet x : Finset Event}
    (h : Path P i c (spawnLoop a mergedEvent localProcs eventSet : Prog n π (Finset Event)) as c' (.ret x)) :
    c' = c ∧ x = eventSet ∪ finishes as ∧
      as.map Prod.fst = (targets a localProcs).map fun proc => .spawn proc a.taskId mergedEvent a.priority := by
  induction localProcs generalizing eventSet as with
  | nil =>
    obtain ⟨rfl, rfl, rfl⟩ := Path.of_ret h
    refine ⟨rfl, (Finset.union_empty _).symm, ?_⟩
    unfold targets
    split <;> rfl
  | cons p rest ih =>
    obtain ⟨proc, kind⟩ := p
    unfold spawnLoop at h
    rw [targets_cons]
    split at h
    · rename_i hmatch
      rw [if_pos hmatch]
      cases h with
      | call hrest =>
        rename_i e as
        rw [finishes_cons]
        have hset : (if e ≠ 0 then insert e eventSet else eventSet) ∪ finishes as =
            eventSet ∪ (if e ≠ 0 then insert e (finishes as) else finishes as) := by
          split
          · rw [Finset.insert_union, Finset.union_insert]
          · rfl
        split at hrest
        · rename_i hone
          rw [if_pos hone]
          obtain ⟨rfl, rfl, rfl⟩ := Path.of_ret hrest
          refine ⟨rfl, ?_, rfl⟩
          rw [← hset]
          exact (Finset.union_empty _).symm
        · rename_i hone
          rw [if_neg hone]
          obtain ⟨rfl, rfl, hmap⟩ := ih hrest
          refine ⟨rfl, hset, ?_⟩
          rw [List.map_cons, hmap, List.map_cons]
    · rename_i hmatch
      rw [if_neg hmatch]
      exact ih h

end Parts

/-! ## Before anything is spawned -/

section Early

variable {α : Type} {prog : Fin n → Prog n π α} {es : List (Spmd.Event n Event)} {s : State n Event (Request π) α}

/-- What a node posts first. -/
theorem posted_first {j root : Fin n} {v : Event} {k : Option (Fin n → Event) → Prog n π α}
    (hrun : run step (State.init prog) es = some s) (hprog : prog j = .gather root v k) {x : Post n Event}
    (hx : s.posted j 0 = some x) : x = ⟨.gather, root, v⟩ := by
  obtain ⟨hpath, hposts⟩ := nodeInv_of_run hrun j
  have hlen := (List.getElem?_eq_some_iff.mp hx).1
  rw [hprog] at hpath
  generalize s.done j = d at hpath hposts
  generalize s.calls j = as at hpath
  generalize s.prog j = p' at hpath hposts
  cases hpath with
  | refl =>
    rcases hposts with h | ⟨-, p, hp, hposted⟩
    · omega
    · obtain rfl := Option.some.inj hp
      exact Option.some.inj (hx.symm.trans hposted)
  | root _ own _ _ => exact Option.some.inj (hx.symm.trans own)
  | gather _ own _ => exact Option.some.inj (hx.symm.trans own)

/-- The root of the first collective has seen what all nodes posted when it has posted to the second one. -/
theorem posted_of_second {root : Fin n} {v : Event} {k : Option (Fin n → Event) → Prog n π α}
    (hrun : run step (State.init prog) es = some s) (hprog : prog root = .gather root v k) {x : Post n Event}
    (hx : s.posted root 1 = some x) (j : Fin n) : ∃ v, s.posted j 0 = some ⟨.gather, root, v⟩ := by
  obtain ⟨hpath, hposts⟩ := nodeInv_of_run hrun root
  have hlen := (List.getElem?_eq_some_iff.mp hx).1
  have hdone : 0 < s.done root := by
    rcases hposts with h | ⟨h, -⟩
    · omega
    · omega
  rw [hprog] at hpath
  generalize s.done root = d at hpath hdone
  generalize s.calls root = as at hpath
  generalize s.prog root = p' at hpath
  cases hpath with
  | refl => exact absurd hdone (Nat.lt_irrefl 0)
  | root _ _ all _ => exact ⟨_, all j⟩
  | gather hne _ _ => exact absurd rfl hne

end Early

/-- A node has spawned a task. -/
def Spawned {α : Type} (s : State n Event (Request π) α) (i : Fin n) : Prop :=
  ∃ proc taskId waitOn priority e, (.spawn proc taskId waitOn priority, e) ∈ s.calls i

/-- The event with which a node has returned. -/
def returned (s : State n Event (Request π) Event) (i : Fin n) : Option Event :=
  match s.prog i with
  | .ret x => some x
  | _ => none

/-! ## `collective_spawn` -/

section Spawn

variable {root : Fin n} {targetProc : π} {taskId : ℕ} {priority : ℤ} {waitOn : Fin n → Event}

theorem shape_collectiveSpawn (root : Fin n) (targetProc : π) (taskId : ℕ) (waitOn : Event) (priority : ℤ) :
    Shape (collectiveSpawn root targetProc taskId waitOn priority) [(.gather, root), (.bcast, root)] := by
  refine .gather fun
    | some allEvents => ?_
    | none => ?_
  · exact .call fun _ => .call fun _ => .bcast fun _ => .ret _
  · exact .bcast fun _ => .ret _

/-- What `collective_spawn` has done on a node that has returned. -/
theorem Path.of_collectiveSpawn {P : Fin n → ℕ → Option (Post n Event)} {i : Fin n} {c c' : ℕ} {v x : Event}
    {as : List (Request π × Event)}
    (h : Path P i c (collectiveSpawn root targetProc taskId v priority) as c' (.ret x)) :
    P i c = some ⟨.gather, root, v⟩ ∧ P root (c + 1) = some ⟨.bcast, root, x⟩ ∧ (i ≠ root → as = []) ∧
      (i = root → ∃ (vs : Fin n → Event) (merged : Event), (∀ j, P j c = some ⟨.gather, root, vs j⟩) ∧
        as = [(.mergeEvents (existing vs), merged), (.spawn targetProc taskId merged priority, x)]) := by
  cases h with
  | gather hroot own rest =>
    obtain ⟨-, hbcast, rfl, -⟩ := Path.of_bcast rest
    exact ⟨own, hbcast, fun _ => rfl, fun hi => absurd hi hroot⟩
  | root hroot own all rest =>
    rename_i vs
    cases rest with
    | call rest =>
      rename_i merged as
      cases rest with
      | call rest =>
        obtain ⟨hown, hbcast, rfl, -⟩ := Path.of_bcast rest
        subst hroot
        obtain rfl := value_unique hown hbcast
        exact ⟨own, hown, fun hi => absurd rfl hi, fun _ => ⟨vs, merged, all, rfl⟩⟩

/-- What `collective_spawn` has done when all nodes have returned, wherever in their programs it stands. -/
theorem spawns_of_paths {P : Fin n → ℕ → Option (Post n Event)} {c : ℕ} {c' : Fin n → ℕ} {x : Fin n → Event}
    {calls : Fin n → List (Request π × Event)}
    (h : ∀ i, Path P i c (collectiveSpawn root targetProc taskId (waitOn i) priority) (calls i) (c' i) (.ret (x i))) :
    (∀ i, x i = x root) ∧ Spawns root targetProc taskId priority waitOn calls (x root) := by
  refine ⟨fun i => ?_, ?_⟩
  · exact value_unique (Path.of_collectiveSpawn (h i)).2.1 (Path.of_collectiveSpawn (h root)).2.1
  · obtain ⟨-, -, -, hroot⟩ := Path.of_collectiveSpawn (h root)
    obtain ⟨vs, merged, hvs, hcalls⟩ := hroot rfl
    obtain rfl : vs = waitOn := funext fun j => value_unique (hvs j) (Path.of_collectiveSpawn (h j)).1
    refine ⟨merged, fun i => ?_⟩
    by_cases hi : i = root
    · rw [if_pos hi, hi, hcalls]
    · rw [if_neg hi]
      exact (Path.of_collectiveSpawn (h i)).2.2.1 hi

/-- A node that has spawned a task has seen what all nodes wait for. -/
theorem Path.spawned_collectiveSpawn {P : Fin n → ℕ → Option (Post n Event)} {i : Fin n} {v e : Event}
    {as : List (Request π × Event)} {c' : ℕ} {p' : Prog n π Event} {q : Request π}
    (h : Path P i 0 (collectiveSpawn root targetProc taskId v priority) as c' p') (hq : (q, e) ∈ as) (j : Fin n) :
    ∃ v, P j 0 = some ⟨.gather, root, v⟩ := by
  cases h with
  | refl => exact absurd hq List.not_mem_nil
  | root _ _ all _ => exact ⟨_, all j⟩
  | gather _ _ rest =>
    cases rest with
    | refl => exact absurd hq List.not_mem_nil
    | bcast _ _ rest =>
      cases rest with
      | refl => exact absurd hq List.not_mem_nil

/-- What holds of `collective_spawn` in the middle of a run and at its end. -/
structure SpawnSound (root : Fin n) (targetProc : π) (taskId : ℕ) (priority : ℤ) (waitOn : Fin n → Event)
    (s : State n Event (Request π) Event) : Prop where
  early : ∀ i, Spawned s i → ∀ j, s.posted j 0 = some ⟨.gather, root, waitOn j⟩
  agree : ∀ i j x y, s.prog i = .ret x → s.prog j = .ret y → x = y
  outcome : (∀ i, ∃ x, s.prog i = .ret x) → ∃ finishEvent, (∀ i, s.prog i = .ret finishEvent) ∧
    Spawns root targetProc taskId priority waitOn s.calls finishEvent
  progress : (∃ i, ∀ x, s.prog i ≠ .ret x) → ∃ e s', step s e = some s'
  terminates : Acc (Next step fun _ => True) s

/-- **Collective spawn**, in every interleaving of the nodes. -/
theorem collectiveSpawn_of_run (root : Fin n) (targetProc : π) (taskId : ℕ) (priority : ℤ) (waitOn : Fin n → Event)
    (es : List (Spmd.Event n Event)) (s : State n Event (Request π) Event)
    (hrun : run step (State.init fun i => collectiveSpawn root targetProc taskId (waitOn i) priority) es = some s) :
    SpawnSound root targetProc taskId priority waitOn s := by
  have hnode := nodeInv_of_run hrun
  have hret : ∀ {i x}, s.prog i = .ret x →
      Path s.posted i 0 (collectiveSpawn root targetProc taskId (waitOn i) priority) (s.calls i) (s.done i)
        (.ret x) := by
    intro i x hx
    rw [← hx]
    exact (hnode i).path
  refine ⟨?_, ?_, ?_, fun ⟨i, hi⟩ => enabled_of_shape (fun _ => shape_collectiveSpawn ..) hrun hi, acc_step s⟩
  · rintro i ⟨proc, taskId', waitOn', priority', e, hcall⟩ j
    obtain ⟨v, hv⟩ := Path.spawned_collectiveSpawn (hnode i).path hcall j
    exact hv.trans (congrArg some (posted_first hrun rfl hv))
  · intro i j x y hx hy
    exact value_unique (Path.of_collectiveSpawn (hret hx)).2.1 (Path.of_collectiveSpawn (hret hy)).2.1
  · intro hall
    choose x hx using hall
    obtain ⟨hagree, hspawns⟩ := spawns_of_paths fun i => hret (hx i)
    exact ⟨x root, fun i => hagree i ▸ hx i, hspawns⟩

/-- A way through `collective_spawn` with two nodes, where node `j` owns the processor and `i` is always first. -/
def spawnRun (i j : Fin 2) (merged finish : Event) : List (Spmd.Event 2 Event) :=
  [.post i, .complete i, .post i, .post j, .complete j, .answer j merged, .answer j finish, .post j, .complete i,
    .complete j]

theorem collectiveSpawn_of_run_two : ∃ s : State 2 Event (Request Unit) Event,
    run step (State.init fun _ => collectiveSpawn 1 () 5 3 0) (spawnRun 0 1 7 9) = some s ∧
    (returned s 0, returned s 1) = (some 9, some 9) ∧ SpawnSound 1 () 5 0 (fun _ => 3) s := by
  have h : (run step (State.init fun _ => collectiveSpawn 1 () 5 3 0) (spawnRun 0 1 7 9)).map
      (fun s => (returned s 0, returned s 1)) = some (some 9, some 9) := by decide +kernel
  obtain ⟨s, hs, hreturned⟩ := Option.map_eq_some_iff.mp h
  exact ⟨s, hs, hreturned, collectiveSpawn_of_run 1 () 5 0 (fun _ => 3) (spawnRun 0 1 7 9) s hs⟩

end Spawn

/-! ## `collective_spawn_by_kind` -/

section ByKind

variable [NeZero n] [DecidableEq κ] {a : Args κ}

omit [NeZero n] in
theorem shape_mergeAll (root : Fin n) (event : Event) :
    Shape (mergeAll root event : Prog n π Event) [(.gather, root), (.bcast, root)] := by
  refine .gather fun
    | some allEvents => ?_
    | none => ?_
  · exact .call fun _ => .bcast fun _ => .ret _
  · exact .bcast fun _ => .ret _

omit [NeZero n] in
theorem shape_spawnLoop (a : Args κ) (mergedEvent : Event) (localProcs : List (π × κ)) (eventSet : Finset Event) :
    Shape (spawnLoop a mergedEvent localProcs eventSet : Prog n π (Finset Event)) [] := by
  induction localProcs generalizing eventSet with
  | nil => exact .ret _
  | cons p rest ih =>
    unfold spawnLoop
    split
    · refine .call fun e => ?_
      dsimp only
      split
      · exact .ret _
      · exact ih _
    · exact ih _

theorem shape_collectiveSpawnByKind (a : Args κ) (localProcs : List (π × κ)) (waitOn : Event) :
    Shape (collectiveSpawnByKind a localProcs waitOn : Prog n π Event)
      [(.gather, 0), (.bcast, 0), (.gather, 0), (.bcast, 0)] :=
  (shape_mergeAll 0 waitOn).bind fun _ => (shape_spawnLoop a _ localProcs ∅).bind fun _ =>
    .call fun _ => shape_mergeAll 0 _

/-- What a node has done that has returned: `merged` is the precondition of its tasks, and `myFinish` what it has made
out of them. -/
structure Returned (P : Fin n → ℕ → Option (Post n Event)) (i : Fin n) (c : ℕ) (a : Args κ) (localProcs : List (π × κ))
    (waitOn : Event) (as : List (Request π × Event)) (x merged myFinish : Event) (tasks : List (Request π × Event)) :
    Prop where
  first : P i c = some ⟨.gather, 0, waitOn⟩
  precondition : P 0 (c + 1) = some ⟨.bcast, 0, merged⟩
  spawned : tasks.map Prod.fst = (targets a localProcs).map fun proc => .spawn proc a.taskId merged a.priority
  second : P i (c + 2) = some ⟨.gather, 0, myFinish⟩
  finish : P 0 (c + 3) = some ⟨.bcast, 0, x⟩
  calls : i ≠ 0 → as = tasks ++ [(.mergeEvents (finishes tasks), myFinish)]
  root : i = 0 → ∃ vs vs' : Fin n → Event, (∀ j, P j c = some ⟨.gather, 0, vs j⟩) ∧
    (∀ j, P j (c + 2) = some ⟨.gather, 0, vs' j⟩) ∧
    as = [(.mergeEvents (existing vs), merged)] ++ tasks ++
      [(.mergeEvents (finishes tasks), myFinish), (.mergeEvents (existing vs'), x)]

theorem Path.of_collectiveSpawnByKind {P : Fin n → ℕ → Option (Post n Event)} {i : Fin n} {v x : Event}
    {localProcs : List (π × κ)} {as : List (Request π × Event)} {c c' : ℕ}
    (h : Path P i c (collectiveSpawnByKind a localProcs v) as c' (.ret x)) :
    c' = c + 4 ∧ ∃ merged myFinish tasks, Returned P i c a localProcs v as x merged myFinish tasks := by
  obtain ⟨merged, c₁, as₁, as₂, hmerge, hrest, rfl⟩ := Path.of_bind h
  obtain ⟨eventSet, c₂, tasks, as₃, hloop, hlast, rfl⟩ := Path.of_bind hrest
  obtain ⟨hfirst, hpre, rfl, hcalls, hroot⟩ := Path.of_mergeAll hmerge
  obtain ⟨rfl, rfl, htasks⟩ := Path.of_spawnLoop hloop
  cases hlast with
  | call hlast =>
    rename_i myFinish as₄
    obtain ⟨hsecond, hfinish, rfl, hcalls', hroot'⟩ := Path.of_mergeAll hlast
    refine ⟨rfl, merged, myFinish, tasks, hfirst, hpre, htasks, hsecond, hfinish, fun hi => ?_, fun hi => ?_⟩
    · rw [hcalls hi, hcalls' hi, Finset.empty_union]
      rfl
    · obtain ⟨vs, hvs, rfl⟩ := hroot hi
      obtain ⟨vs', hvs', rfl⟩ := hroot' hi
      refine ⟨vs, vs', hvs, hvs', ?_⟩
      rw [Finset.empty_union, List.append_assoc]

/-- What `collective_spawn_by_kind` has done when all nodes have returned, wherever in their programs it stands. -/
theorem spawnsByKind_of_paths {P : Fin n → ℕ → Option (Post n Event)} {c : ℕ} {c' : Fin n → ℕ} {x : Fin n → Event}
    {localProcs : Fin n → List (π × κ)} {waitOn : Fin n → Event} {calls : Fin n → List (Request π × Event)}
    (h : ∀ i, Path P i c (collectiveSpawnByKind a (localProcs i) (waitOn i)) (calls i) (c' i) (.ret (x i))) :
    (∀ i, x i = x 0) ∧ SpawnsByKind a localProcs waitOn calls (x 0) := by
  choose merged myFinish tasks hreturned using fun i => (Path.of_collectiveSpawnByKind (h i)).2
  refine ⟨fun i => value_unique (hreturned i).finish (hreturned 0).finish, merged 0, myFinish, tasks, fun i => ⟨?_, ?_⟩⟩
  · rw [(hreturned i).spawned, value_unique (hreturned i).precondition (hreturned 0).precondition]
  · by_cases hi : i = 0
    · subst hi
      obtain ⟨vs, vs', hvs, hvs', hcalls⟩ := (hreturned 0).root rfl
      obtain rfl : vs = waitOn := funext fun j => value_unique (hvs j) (hreturned j).first
      obtain rfl : vs' = myFinish := funext fun j => value_unique (hvs' j) (hreturned j).second
      rw [if_pos rfl, if_pos rfl, hcalls, List.append_assoc, List.append_assoc, List.append_assoc]
      rfl
    · rw [if_neg hi, if_neg hi, (hreturned i).calls hi, List.append_nil]
      rfl

omit [NeZero n] in
/-- The first block of a node makes no tasks. -/
theorem asks_mergeAll {R : Request π → Prop} (hR : ∀ eventSet, R (.mergeEvents eventSet)) (root : Fin n)
    (event : Event) : Asks R (mergeAll root event : Prog n π Event) := by
  refine .gather fun
    | some allEvents => ?_
    | none => ?_
  · exact .call (hR _) fun _ => .bcast fun _ => .ret _
  · exact .bcast fun _ => .ret _

/-- What holds of `collective_spawn_by_kind` in the middle of a run and at its end. -/
structure ByKindSound (a : Args κ) (localProcs : Fin n → List (π × κ)) (waitOn : Fin n → Event)
    (s : State n Event (Request π) Event) : Prop where
  early : ∀ i, Spawned s i → ∀ j, s.posted j 0 = some ⟨.gather, 0, waitOn j⟩
  agree : ∀ i j x y, s.prog i = .ret x → s.prog j = .ret y → x = y
  outcome : (∀ i, ∃ x, s.prog i = .ret x) → ∃ mergedFinish, (∀ i, s.prog i = .ret mergedFinish) ∧
    SpawnsByKind a localProcs waitOn s.calls mergedFinish
  progress : (∃ i, ∀ x, s.prog i ≠ .ret x) → ∃ e s', step s e = some s'
  terminates : Acc (Next step fun _ => True) s

/-- **Collective spawn by kind**, in every interleaving of the nodes. -/
theorem collectiveSpawnByKind_of_run (a : Args κ) (localProcs : Fin n → List (π × κ)) (waitOn : Fin n → Event)
    (es : List (Spmd.Event n Event)) (s : State n Event (Request π) Event)
    (hrun : run step (State.init fun i => collectiveSpawnByKind a (localProcs i) (waitOn i)) es = some s) :
    ByKindSound a localProcs waitOn s := by
  have hnode := nodeInv_of_run hrun
  have hret : ∀ {i x}, s.prog i = .ret x →
      Path s.posted i 0 (collectiveSpawnByKind a (localProcs i) (waitOn i)) (s.calls i) (s.done i) (.ret x) := by
    intro i x hx
    rw [← hx]
    exact (hnode i).path
  refine ⟨?_, ?_, ?_, fun ⟨i, hi⟩ => enabled_of_shape (fun _ => shape_collectiveSpawnByKind ..) hrun hi, acc_step s⟩
  · rintro i ⟨proc, taskId, waitOn', priority, e, hcall⟩ j
    -- a node spawns tasks when it has got the event that the root broadcasts
    rcases Path.bind_cases (hnode i).path with ⟨q, hq, -⟩ | ⟨merged, c₁, as₁, as₂, hmerge, -, -⟩
    · obtain ⟨eventSet, heq⟩ := (asks_mergeAll (R := fun q => ∃ eventSet, q = .mergeEvents eventSet)
        (fun eventSet => ⟨eventSet, rfl⟩) 0 (waitOn i)).path hq _ hcall
      cases heq
    · obtain ⟨v, hv⟩ := posted_of_second hrun rfl (Path.of_mergeAll hmerge).2.1 j
      exact hv.trans (congrArg some (posted_first hrun rfl hv))
  · intro i j x y hx hy
    obtain ⟨-, _, _, _, hi⟩ := Path.of_collectiveSpawnByKind (hret hx)
    obtain ⟨-, _, _, _, hj⟩ := Path.of_collectiveSpawnByKind (hret hy)
    exact value_unique hi.finish hj.finish
  · intro hall
    choose x hx using hall
    obtain ⟨hagree, hspawns⟩ := spawnsByKind_of_paths fun i => hret (hx i)
    exact ⟨x 0, fun i => hagree i ▸ hx i, hspawns⟩

/-- A way through `collective_spawn_by_kind` with two nodes, where `i` is the root and both have one processor. -/
def byKindRun (i j : Fin 2) (merged finish : Event) : List (Spmd.Event 2 Event) :=
  [.post j, .complete j, .post j, .post i, .complete i, .answer i merged, .post i, .complete j, .complete i,
    .answer j finish, .answer j finish, .post j, .complete j, .post j, .answer i 0, .answer i 0, .post i, .complete i,
    .answer i finish, .post i, .complete i, .complete j]

theorem collectiveSpawnByKind_of_run_two : ∃ s : State 2 Event (Request Unit) Event,
    run step (State.init fun _ => collectiveSpawnByKind ⟨some (), 5, true, 0⟩ [((), ())] 3) (byKindRun 0 1 7 9) =
      some s ∧
    (returned s 0, returned s 1) = (some 9, some 9) ∧
    ByKindSound ⟨some (), 5, true, 0⟩ (fun _ => [((), ())]) (fun _ => 3) s := by
  have h : (run step (State.init fun _ => collectiveSpawnByKind ⟨some (), 5, true, 0⟩ [((), ())] 3)
      (byKindRun 0 1 7 9)).map (fun s : State 2 Event (Request Unit) Event => (returned s 0, returned s 1)) =
      some (some 9, some 9) := by decide +kernel
  obtain ⟨s, hs, hreturned⟩ := Option.map_eq_some_iff.mp h
  exact ⟨s, hs, hreturned, collectiveSpawnByKind_of_run ⟨some (), 5, true, 0⟩ (fun _ => [((), ())]) (fun _ => 3)
    (byKindRun 0 1 7 9) s hs⟩

end ByKind

end Realm.Collective

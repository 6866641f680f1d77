import Realm.Runtime.Collective

/-!
# Realm.Runtime.Main — how a program starts (`RuntimeImpl::run` in `templates/runtime_impl.cc`)

All nodes run the init task on all their processors, and then the main task: on one processor, on one of every node, or
on all of them.

* `runMain`: the program of a node, made of collective spawns.
* `posted_of_bcast`, `inits_of_posted`: what a node knows when it has got past the init tasks.
* `runMain_of_run`: every interleaving comes to an end, and no main task is spawned before all init tasks are.
-/

namespace Realm.RunMain

open Lib Lib.Spmd Collective

/-- `Runtime::RunStyle` -/
inductive RunStyle
  | oneTaskOnly
  | oneTaskPerNode
  | oneTaskPerProc
deriving DecidableEq

/-- What all nodes pass to `run` alike, with `Processor::TASK_ID_PROCESSOR_INIT` and `nodes[0].processors[0]->me`. -/
structure Main (π : Type) where
  initTask : ℕ
  taskId : ℕ
  style : RunStyle
  firstProc : π

def intMax : ℤ := 2 ^ 31 - 1

variable {n : ℕ} {π κ : Type}

/-- "runs with max priority" -/
def Main.initArgs (m : Main π) : Args κ := ⟨none, m.initTask, false, intMax⟩

/-- The main task on the processors of every node. -/
def Main.byKindArgs (m : Main π) : Args κ := ⟨none, m.taskId, m.style = .oneTaskPerNode, 0⟩

variable [NeZero n] [DecidableEq κ]

/-- The main task, behind the init tasks -/
def mainTask (m : Main π) (localProcs : List (π × κ)) (initEvent : Event) : Prog n π Event :=
  if m.taskId ≠ 0 then
    -- "everybody needs to agree on this..."
    if m.style = .oneTaskOnly then collectiveSpawn 0 m.firstProc m.taskId initEvent 0
    else collectiveSpawnByKind m.byKindArgs localProcs initEvent
  else
    -- "no main task!?"
    .ret initEvent

/-- `RuntimeImpl::run`, up to the wait for the shutdown. -/
def runMain (m : Main π) (localProcs : List (π × κ)) : Prog n π Event :=
  (collectiveSpawnByKind m.initArgs localProcs 0).bind (mainTask m localProcs)

/-! ## The collectives -/

def mainShape (m : Main π) : List (Op × Fin n) :=
  if m.taskId ≠ 0 then
    if m.style = .oneTaskOnly then [(.gather, 0), (.bcast, 0)]
    else [(.gather, 0), (.bcast, 0), (.gather, 0), (.bcast, 0)]
  else []

theorem shape_mainTask (m : Main π) (localProcs : List (π × κ)) (initEvent : Event) :
    Shape (mainTask m localProcs initEvent : Prog n π Event) (mainShape m) := by
  unfold mainTask mainShape
  split
  · split
    · exact shape_collectiveSpawn ..
    · exact shape_collectiveSpawnByKind ..
  · exact .ret _

theorem shape_runMain (m : Main π) (localProcs : List (π × κ)) :
    Shape (runMain m localProcs : Prog n π Event)
      ([(.gather, 0), (.bcast, 0), (.gather, 0), (.bcast, 0)] ++ mainShape m) :=
  (shape_collectiveSpawnByKind ..).bind fun _ => shape_mainTask ..

/-- The priority with which a request wants a task to run. -/
def HasPriority (priority : ℤ) : Request π → Prop
  | .mergeEvents _ => True
  | .spawn _ _ _ p => p = priority

omit [NeZero n] in
theorem asks_spawnLoop (a : Args κ) (mergedEvent : Event) (localProcs : List (π × κ)) (eventSet : Finset Event) :
    Asks (HasPriority a.priority) (spawnLoop a mergedEvent localProcs eventSet : Prog n π (Finset Event)) := by
  induction localProcs generalizing eventSet with
  | nil => exact .ret _
  | cons p rest ih =>
    unfold spawnLoop
    split
    · refine .call rfl fun e => ?_
      dsimp only
      split
      · exact .ret _
      · exact ih _
    · exact ih _

theorem asks_collectiveSpawnByKind (a : Args κ) (localProcs : List (π × κ)) (waitOn : Event) :
    Asks (HasPriority a.priority) (collectiveSpawnByKind a localProcs waitOn : Prog n π Event) :=
  (asks_mergeAll (fun _ => trivial) 0 waitOn).bind fun _ => (asks_spawnLoop a _ localProcs ∅).bind fun _ =>
    .call trivial fun _ => asks_mergeAll (fun _ => trivial) 0 _

/-! ## Behind the init tasks -/

section Init

variable {P : Fin n → ℕ → Option (Post n Event)} {i : Fin n} {d : ℕ} {as : List (Request π × Event)} {m : Main π}
  {localProcs : List (π × κ)}

/-- A node that is at its second `gather`, or behind it, has spawned its tasks. -/
theorem spawned_of_path {a : Args κ} {waitOn : Event} {q : Prog n π Event} {f : Event → Prog n π Event}
    (h : Path P i 0 (collectiveSpawnByKind a localProcs waitOn) as d q) (hd : 2 ≤ d)
    (hq : 2 < d ∨ (q.bind f).post ≠ none) :
    ∃ merged eventSet as₁ tasks as₂, as = as₁ ++ (tasks ++ as₂) ∧
      tasks.map Prod.fst = (targets a localProcs).map (fun proc => .spawn proc a.taskId merged a.priority) ∧
      Path P i 2 (.call (.mergeEvents eventSet) fun myFinish => mergeAll 0 myFinish) as₂ d q := by
  rcases Path.bind_cases h with ⟨q', hpath, hret, rfl⟩ | ⟨merged, c₁, as₁, as₂, hmerge, hrest, rfl⟩
  · obtain ⟨-, hle, hshape⟩ := (shape_mergeAll 0 waitOn).path hpath
    obtain rfl : d = 2 := Nat.le_antisymm hle hd
    obtain ⟨r, k, rfl⟩ := hshape.exists_call hret
    exact absurd rfl (hq.resolve_left (Nat.lt_irrefl 2))
  · obtain ⟨-, -, rfl, -⟩ := Path.of_mergeAll hmerge
    rcases Path.bind_cases hrest with ⟨q', hpath, hret, rfl⟩ | ⟨eventSet, c₂, tasks, as₃, hloop, hlast, rfl⟩
    · obtain ⟨-, hle, hshape⟩ := (shape_spawnLoop a merged localProcs ∅).path hpath
      obtain rfl : d = 2 := Nat.le_antisymm hle hd
      obtain ⟨r, k, rfl⟩ := hshape.exists_call hret
      exact absurd rfl (hq.resolve_left (Nat.lt_irrefl 2))
    · obtain ⟨rfl, -, htasks⟩ := Path.of_spawnLoop hloop
      exact ⟨merged, eventSet, as₁, tasks, as₃, rfl, htasks, hlast⟩

/-- The first four collectives belong to the init tasks. -/
theorem init_of_path {q : Prog n π Event} (h : Path P i 0 (runMain m localProcs) as d q) (hd : d < 4) :
    ∃ q', Path P i 0 (collectiveSpawnByKind m.initArgs localProcs 0) as d q' ∧ q = q'.bind (mainTask m localProcs) := by
  rcases Path.bind_cases h with ⟨q', hpath, -, heq⟩ | ⟨initEvent, c₁, as₁, as₂, hinit, hmain, -⟩
  · exact ⟨q', hpath, heq⟩
  · obtain ⟨rfl, -⟩ := Path.of_collectiveSpawnByKind hinit
    have hle := ((shape_mainTask m localProcs initEvent).path hmain).1
    omega

/-- When the root broadcasts the event of the init tasks, all nodes have said when theirs are done. -/
theorem posted_of_bcast {q : Prog n π Event} (h : Path P 0 0 (runMain m localProcs) as 3 q) (j : Fin n) :
    ∃ v, P j 2 = some ⟨.gather, 0, v⟩ := by
  obtain ⟨q', hinit, -⟩ := init_of_path h (Nat.lt_succ_self 3)
  obtain ⟨merged, eventSet, as₁, tasks, as₂, -, -, hpath⟩ :=
    spawned_of_path (f := .ret) hinit (Nat.le_succ 2) (.inl (Nat.lt_succ_self 2))
  cases hpath with
  | call hpath =>
    cases hpath with
    | root _ _ all _ => exact ⟨_, all j⟩
    | gather hne _ _ => exact absurd rfl hne

omit [NeZero n] in
theorem targets_initArgs (m : Main π) (localProcs : List (π × κ)) :
    targets m.initArgs localProcs = localProcs.map Prod.fst := by
  have hwants : ∀ p ∈ localProcs, (m.initArgs : Args κ).wants p.2 = true := fun _ _ => decide_eq_true (.inl rfl)
  unfold targets
  rw [List.filter_eq_self.mpr hwants]
  rfl

/-- A node that has said so has spawned the init task on all its processors. -/
theorem inits_of_posted {q : Prog n π Event} {x : Post n Event} (h : Path P i 0 (runMain m localProcs) as 2 q)
    (hq : q.post = some x) {p : π × κ} (hp : p ∈ localProcs) :
    ∃ merged e, (.spawn p.1 m.initTask merged intMax, e) ∈ as := by
  obtain ⟨q', hinit, rfl⟩ := init_of_path h (Nat.lt_add_left 1 (Nat.lt_succ_self 2))
  obtain ⟨merged, eventSet, as₁, tasks, as₂, rfl, htasks, -⟩ :=
    spawned_of_path hinit (Nat.le_refl 2) (.inr (hq ▸ Option.some_ne_none x))
  have hmem : .spawn p.1 m.initTask merged intMax ∈ tasks.map Prod.fst := by
    rw [htasks]
    refine List.mem_map.mpr ⟨p.1, ?_, rfl⟩
    rw [targets_initArgs]
    exact List.mem_map_of_mem hp
  obtain ⟨⟨r, e⟩, hre, rfl⟩ := List.mem_map.mp hmem
  exact ⟨merged, e, List.mem_append_right _ (List.mem_append_left _ hre)⟩

end Init

/-! ## The whole run -/

/-- What the nodes have asked for when the main task is spawned behind `initEvent`. -/
def MainSpawns (m : Main π) (localProcs : Fin n → List (π × κ)) (initEvent : Event)
    (calls : Fin n → List (Request π × Event)) (mainEvent : Event) : Prop :=
  if m.taskId ≠ 0 then
    if m.style = .oneTaskOnly then Spawns 0 m.firstProc m.taskId 0 (fun _ => initEvent) calls mainEvent
    else SpawnsByKind m.byKindArgs localProcs (fun _ => initEvent) calls mainEvent
  else mainEvent = initEvent ∧ ∀ i, calls i = []

theorem mainSpawns_of_paths {P : Fin n → ℕ → Option (Post n Event)} {c : ℕ} {c' : Fin n → ℕ} {x : Fin n → Event}
    {m : Main π} {localProcs : Fin n → List (π × κ)} {initEvent : Event} {calls : Fin n → List (Request π × Event)}
    (h : ∀ i, Path P i c (mainTask m (localProcs i) initEvent) (calls i) (c' i) (.ret (x i))) :
    (∀ i, x i = x 0) ∧ MainSpawns m localProcs initEvent calls (x 0) := by
  unfold mainTask at h
  unfold MainSpawns
  split at h
  · rename_i htask
    rw [if_pos htask]
    split at h
    · rename_i hstyle
      rw [if_pos hstyle]
      exact spawns_of_paths h
    · rename_i hstyle
      rw [if_neg hstyle]
      exact spawnsByKind_of_paths h
  · rename_i htask
    rw [if_neg htask]
    have hret := fun i => Path.of_ret (h i)
    exact ⟨fun i => (hret i).1.symm.trans (hret 0).1, (hret 0).1.symm, fun i => (hret i).2.1⟩

/-- What holds of the start of a program in the middle of a run and at its end. -/
structure RunSound (m : Main π) (localProcs : Fin n → List (π × κ)) (s : State n Event (Request π) Event) : Prop where
  initFirst : ∀ i proc waitOn e, (.spawn proc m.taskId waitOn 0, e) ∈ s.calls i →
    ∀ j, ∀ p ∈ localProcs j, ∃ merged e, (.spawn p.1 m.initTask merged intMax, e) ∈ s.calls j
  outcome : (∀ i, ∃ x, s.prog i = .ret x) → ∃ initEvent mainEvent initCalls mainCalls,
    (∀ i, s.prog i = .ret mainEvent ∧ s.calls i = initCalls i ++ mainCalls i) ∧
    SpawnsByKind m.initArgs localProcs (fun _ => 0) initCalls initEvent ∧
    MainSpawns m localProcs initEvent mainCalls mainEvent
  progress : (∃ i, ∀ x, s.prog i ≠ .ret x) → ∃ e s', step s e = some s'
  terminates : Acc (Next step fun _ => True) s

/-- **The start of a program**, in every interleaving of the nodes. -/
theorem runMain_of_run (m : Main π) (localProcs : Fin n → List (π × κ)) (es : List (Spmd.Event n Event))
    (s : State n Event (Request π) Event)
    (hrun : run step (State.init fun i => runMain m (localProcs i)) es = some s) : RunSound m localProcs s := by
  have hnode := nodeInv_of_run hrun
  refine ⟨?_, ?_, fun ⟨i, hi⟩ => enabled_of_shape (fun _ => shape_runMain ..) hrun hi, acc_step s⟩
  · intro i proc waitOn e hcall j p hp
    have hbcast : ∃ initEvent, s.posted 0 3 = some ⟨.bcast, 0, initEvent⟩ := by
      rcases Path.bind_cases (hnode i).path with ⟨q, hpath, -⟩ | ⟨initEvent, c₁, as₁, as₂, hinit, -⟩
      · -- the init tasks have another priority
        have hpriority := (asks_collectiveSpawnByKind m.initArgs (localProcs i) 0).path hpath _ hcall
        cases hpriority
      · obtain ⟨-, _, _, _, hreturned⟩ := Path.of_collectiveSpawnByKind hinit
        exact ⟨initEvent, hreturned.finish⟩
    obtain ⟨initEvent, hbcast⟩ := hbcast
    obtain ⟨_, _, _, hroot, -⟩ := (hnode 0).path_to hbcast
    obtain ⟨v, hv⟩ := posted_of_bcast hroot j
    obtain ⟨q, as₁, as₂, hpath, hq, hcalls⟩ := (hnode j).path_to hv
    obtain ⟨merged, e', hmem⟩ := inits_of_posted hpath hq hp
    exact ⟨merged, e', hcalls ▸ List.mem_append_left as₂ hmem⟩
  · intro hall
    choose x hx using hall
    have hpath : ∀ i, Path s.posted i 0 (runMain m (localProcs i)) (s.calls i) (s.done i) (.ret (x i)) := by
      intro i
      rw [← hx i]
      exact (hnode i).path
    choose initEvent c₁ initCalls mainCalls hinit hmain hcalls using fun i => Path.of_bind (hpath i)
    obtain ⟨hevent, hinits⟩ := spawnsByKind_of_paths hinit
    have hmain' : ∀ i, Path s.posted i 4 (mainTask m (localProcs i) (initEvent 0)) (mainCalls i) (s.done i)
        (.ret (x i)) := by
      intro i
      have hpath := hmain i
      rw [(Path.of_collectiveSpawnByKind (hinit i)).1, hevent i] at hpath
      exact hpath
    obtain ⟨hagree, hmains⟩ := mainSpawns_of_paths hmain'
    exact ⟨initEvent 0, x 0, initCalls, mainCalls, fun i => ⟨hagree i ▸ hx i, hcalls i⟩, hinits, hmains⟩

/-- Two nodes with one processor each: all init tasks, and then the main task on node `i`. -/
def mainRun (i j : Fin 2) : List (Spmd.Event 2 Event) := byKindRun i j 7 9 ++ spawnRun j i 8 6

theorem runMain_of_run_two : ∃ s : State 2 Event (Request Unit) Event,
    run step (State.init fun _ => runMain ⟨1, 5, .oneTaskOnly, ()⟩ [((), ())]) (mainRun 0 1) = some s ∧
    (returned s 0, returned s 1) = (some 6, some 6) ∧ RunSound ⟨1, 5, .oneTaskOnly, ()⟩ (fun _ => [((), ())]) s := by
  have h : (run step (State.init fun _ => runMain ⟨1, 5, .oneTaskOnly, ()⟩ [((), ())]) (mainRun 0 1)).map
      (fun s : State 2 Event (Request Unit) Event => (returned s 0, returned s 1)) = some (some 6, some 6) := by
    decide +kernel
  obtain ⟨s, hs, hreturned⟩ := Option.map_eq_some_iff.mp h
  exact ⟨s, hs, hreturned, runMain_of_run ⟨1, 5, .oneTaskOnly, ()⟩ (fun _ => [((), ())]) (mainRun 0 1) s hs⟩

end Realm.RunMain

import Mathlib.Algebra.Order.Ring.Nat
import Mathlib.Data.List.FinRange
import Mathlib.Data.List.Nodup
import Mathlib.Logic.Function.Basic
import Realm.Lib.Run

/-!
# Realm.Runtime.RemoteId — ids of other nodes, in batches (`RemoteIDAllocator` in `templates/runtime_impl.cc`)

A node keeps ranges of ids that belong to other nodes and hands them out one by one.  When the ids of a target run low
it asks that node for another batch, unless a request is already in flight.  Any number of threads take ids; the
requests and the answers travel through the network.

* `State.getRemoteId`, `State.addIdRange`: the sections under the allocator's lock.
* `step`: these by any number of threads, with the messages.  The handler at the other node is off in the source
  (`assert(0)` in front of `alloc_range`), so what it answers is an arbitrary nonempty range.
* `remoteIds_of_run`: ids are handed out in the order of the ranges, each once; there is never more than one request
  per target and type under way; an id is missing only while a request is under way.
-/

namespace Realm.RemoteId

open Lib

/-- The type of an id and the node that it belongs to. -/
structure Key (κ : Type) (n : ℕ) where
  idType : κ
  target : Fin n
deriving DecidableEq

/-- `batch_sizes` and `low_water_marks` as `set_request_size` has filled them, on node `me`. -/
structure Config (κ : Type) (n : ℕ) where
  me : Fin n
  batchSizes : List (κ × ℤ)
  nodup : (batchSizes.map Prod.fst).Nodup
  lowWaterMarks : κ → ℤ

/-- A range `first, …, second` of 64-bit ids. -/
abbrev IdRange := ℕ × ℕ

variable {κ : Type} {n : ℕ}

/-- `RemoteIDRequestMessage::RequestArgs` -/
structure Request (κ : Type) (n : ℕ) where
  key : Key κ n
  count : ℤ
deriving DecidableEq

/-- `RemoteIDResponseMessage::RequestArgs` -/
structure Response (κ : Type) (n : ℕ) where
  key : Key κ n
  range : IdRange
deriving DecidableEq

/-- `reqs_in_flight` and `id_ranges`, the calls of `get_remote_id` that have left the lock and have a request to send,
the messages under way, and whether the assertion in `add_id_range` has failed.  `handed` and `received` are the ids
handed out and the ranges received so far. -/
structure State (κ : Type) (n : ℕ) where
  reqsInFlight : Key κ n → Bool
  idRanges : Key κ n → List IdRange
  sends : List (Key κ n)
  requests : List (Request κ n)
  responses : List (Response κ n)
  failed : Bool
  handed : Key κ n → List ℕ
  received : Key κ n → List IdRange

/-! ## The allocator -/

/-- `RemoteIDAllocator::make_initial_requests` -/
def initialRequests (cfg : Config κ n) : List (Request κ n) :=
  cfg.batchSizes.flatMap fun (t, batchSize) =>
    ((List.finRange n).filter (· ≠ cfg.me)).map fun i => ⟨⟨t, i⟩, batchSize⟩

/-- The keys that the allocator serves: types with a batch size, on other nodes. -/
def Config.Served (cfg : Config κ n) (k : Key κ n) : Prop :=
  k.idType ∈ cfg.batchSizes.map Prod.fst ∧ k.target ≠ cfg.me

theorem mem_initialRequests_iff {cfg : Config κ n} {k : Key κ n} :
    k ∈ (initialRequests cfg).map Request.key ↔ cfg.Served k := by
  unfold initialRequests Config.Served
  simp only [List.map_flatMap, List.map_map, List.mem_flatMap, List.mem_map, List.mem_filter, List.mem_finRange,
    true_and, Function.comp_apply, decide_not, Bool.not_eq_true', decide_eq_false_iff_not]
  constructor
  · rintro ⟨p, hp, i, hi, rfl⟩
    exact ⟨⟨p, hp, rfl⟩, hi⟩
  · rintro ⟨⟨p, hp, htype⟩, htarget⟩
    refine ⟨p, hp, k.target, htarget, ?_⟩
    rw [htype]

theorem nodup_initialRequests (cfg : Config κ n) : ((initialRequests cfg).map Request.key).Nodup := by
  unfold initialRequests
  rw [List.map_flatMap, List.nodup_flatMap]
  refine ⟨fun p _ => ?_, ?_⟩
  · rw [List.map_map]
    refine List.Nodup.map ?_ ((List.nodup_finRange n).filter _)
    intro i j hij
    exact congrArg Key.target hij
  · -- different types
    refine (List.pairwise_map.mp cfg.nodup).imp fun {p q} hne => ?_
    intro k hp hq
    obtain ⟨r, hr, rfl⟩ := List.mem_map.mp hp
    obtain ⟨i, -, rfl⟩ := List.mem_map.mp hr
    obtain ⟨r', hr', hkey⟩ := List.mem_map.mp hq
    obtain ⟨j, -, rfl⟩ := List.mem_map.mp hr'
    exact hne (congrArg Key.idType hkey).symm

variable [DecidableEq κ]

def State.init (cfg : Config κ n) : State κ n where
  reqsInFlight k := k ∈ (initialRequests cfg).map Request.key
  idRanges _ := []
  sends := []
  requests := initialRequests cfg
  responses := []
  failed := false
  handed _ := []
  received _ := []

/-- The first id of the ranges, and the ranges without it. -/
def takeId : List IdRange → Option (ℕ × List IdRange)
  | [] => none
  | (first, second) :: rest =>
    some (first, if first = second then rest else ((first + 1) % 2 ^ 64, second) :: rest)

/-- `(tgt_ranges[0].second - tgt_ranges[0].first) < (ID::IDType)low_water_marks[id_type]`, or no ids at all. -/
def runningLow (lowWaterMark : ℤ) : List IdRange → Bool
  | [] => true
  | [(first, second)] => (second + 2 ^ 64 - first) % 2 ^ 64 < (lowWaterMark % 2 ^ 64).toNat
  | _ => false

/-- `RemoteIDAllocator::get_remote_id`, the section under the lock; `none` if one of its assertions fails. -/
def State.getRemoteId (cfg : Config κ n) (s : State κ n) (k : Key κ n) : Option (State κ n) :=
  if k.idType ∈ cfg.batchSizes.map Prod.fst then
    match takeId (s.idRanges k) with
    | none => none
    | some (id, ranges) =>
      let requestMore := runningLow (cfg.lowWaterMarks k.idType) ranges && !s.reqsInFlight k
      some { s with
        idRanges := Function.update s.idRanges k ranges
        reqsInFlight := Function.update s.reqsInFlight k (s.reqsInFlight k || requestMore)
        sends := if requestMore then k :: s.sends else s.sends
        handed := Function.update s.handed k (s.handed k ++ [id]) }
  else none

/-- `RemoteIDAllocator::add_id_range` -/
def State.addIdRange (s : State κ n) (k : Key κ n) (r : IdRange) : State κ n :=
  { s with
    failed := s.failed || !s.reqsInFlight k
    reqsInFlight := Function.update s.reqsInFlight k false
    idRanges := Function.update s.idRanges k (s.idRanges k ++ [r])
    received := Function.update s.received k (s.received k ++ [r]) }

/-- `get`: a call of `get_remote_id` up to the unlock; `send`: its request goes out, with the batch size; `serve`: the
other node answers; `receive`: `RemoteIDResponseMessage::handle_request`. -/
inductive Event (κ : Type) (n : ℕ)
  | get (k : Key κ n)
  | send (k : Key κ n) (batchSize : ℤ)
  | serve (r : Request κ n) (range : IdRange)
  | receive (p : Response κ n)

def step (cfg : Config κ n) (s : State κ n) : Event κ n → Option (State κ n)
  | .get k => s.getRemoteId cfg k
  | .send k batchSize =>
    if k ∈ s.sends ∧ (k.idType, batchSize) ∈ cfg.batchSizes then
      some { s with sends := s.sends.erase k, requests := ⟨k, batchSize⟩ :: s.requests }
    else none
  | .serve r range =>
    if r ∈ s.requests ∧ range.1 ≤ range.2 ∧ range.2 < 2 ^ 64 then
      some { s with requests := s.requests.erase r, responses := ⟨r.key, range⟩ :: s.responses }
    else none
  | .receive p =>
    if p ∈ s.responses then some { s.addIdRange p.key p.range with responses := s.responses.erase p } else none

/-! ## Ranges -/

/-- The ids of a range. -/
def ids (r : IdRange) : List ℕ := List.range' r.1 (r.2 + 1 - r.1)

def WellFormed (r : IdRange) : Prop := r.1 ≤ r.2 ∧ r.2 < 2 ^ 64

/-- **What `get_remote_id` takes** is the first id, and the others stay in their order. -/
theorem takeId_spec {ranges ranges' : List IdRange} {id : ℕ} (hwf : ∀ r ∈ ranges, WellFormed r)
    (h : takeId ranges = some (id, ranges')) :
    ranges.flatMap ids = id :: ranges'.flatMap ids ∧ ∀ r ∈ ranges', WellFormed r := by
  cases ranges with
  | nil => cases h
  | cons r rest =>
    obtain ⟨first, second⟩ := r
    obtain ⟨hle, hlt⟩ : first ≤ second ∧ second < 2 ^ 64 := hwf _ List.mem_cons_self
    have hrest : ∀ r ∈ rest, WellFormed r := fun r hr => hwf r (List.mem_cons_of_mem _ hr)
    rw [takeId, Option.some.injEq, Prod.mk.injEq] at h
    obtain ⟨rfl, rfl⟩ := h
    by_cases heq : first = second
    · subst heq
      rw [if_pos rfl, List.flatMap_cons]
      refine ⟨?_, hrest⟩
      have hone : first + 1 - first = 1 := by omega
      simp [ids, hone]
    · have hmod : (first + 1) % 2 ^ 64 = first + 1 := Nat.mod_eq_of_lt (by omega)
      rw [if_neg heq, hmod, List.flatMap_cons, List.flatMap_cons]
      refine ⟨?_, ?_⟩
      · have hlen : second + 1 - first = (second + 1 - (first + 1)) + 1 := by omega
        have hids : ids (first, second) = first :: ids (first + 1, second) := by
          unfold ids
          rw [hlen, List.range'_succ]
        rw [hids, List.cons_append]
      · intro r hr
        rcases List.mem_cons.mp hr with rfl | hr
        · exact ⟨by show first + 1 ≤ second; omega, hlt⟩
        · exact hrest r hr

theorem takeId_isSome_iff {ranges : List IdRange} : (takeId ranges).isSome = true ↔ ranges ≠ [] := by
  cases ranges <;> simp [takeId]

/-! ## The invariant -/

/-- The requests of a key that have no answer yet: about to be sent, on the way, or answered on the way back. -/
def State.outstanding (s : State κ n) (k : Key κ n) : ℕ :=
  s.sends.count k + (s.requests.map Request.key).count k + (s.responses.map Response.key).count k

structure Inv (cfg : Config κ n) (s : State κ n) : Prop where
  outstanding : ∀ k, s.outstanding k = if s.reqsInFlight k then 1 else 0
  fifo : ∀ k, s.handed k ++ (s.idRanges k).flatMap ids = (s.received k).flatMap ids
  ranges : ∀ k, ∀ r ∈ s.idRanges k, WellFormed r
  responses : ∀ p ∈ s.responses, WellFormed p.range
  supplied : ∀ k, cfg.Served k → s.reqsInFlight k = true ∨ s.idRanges k ≠ []
  failed : s.failed = false

theorem Inv.init (cfg : Config κ n) : Inv cfg (State.init cfg) where
  outstanding := by
    intro k
    have hcount := (nodup_initialRequests cfg).count (a := k)
    simp only [State.outstanding, State.init, List.count_nil, List.map_nil, Nat.add_zero, Nat.zero_add,
      decide_eq_true_eq]
    exact hcount
  fifo _ := rfl
  ranges _ r hr := by cases hr
  responses p hp := by cases hp
  supplied k hk := Or.inl (decide_eq_true (mem_initialRequests_iff.mpr hk))
  failed := rfl

/-- A key whose requests are counted elsewhere. -/
theorem count_map_erase {α : Type} [DecidableEq α] {f : α → Key κ n} {l : List α} {a : α} (h : a ∈ l) (k : Key κ n) :
    (l.map f).count k = ((l.erase a).map f).count k + if f a = k then 1 else 0 := by
  have hperm : (l.map f).Perm (f a :: (l.erase a).map f) := (List.perm_cons_erase h).map f
  rw [hperm.count_eq, List.count_cons]
  simp only [beq_iff_eq]

/-- **One section of `get_remote_id`**: the id is the next one, and a request is due only if none was in flight. -/
theorem Inv.getRemoteId {cfg : Config κ n} {s s' : State κ n} {k : Key κ n} (h : Inv cfg s)
    (hget : s.getRemoteId cfg k = some s') : Inv cfg s' := by
  unfold State.getRemoteId at hget
  split at hget
  · split at hget
    · cases hget
    · rename_i id ranges htake
      cases hget
      obtain ⟨hids, hwf⟩ := takeId_spec (h.ranges k) htake
      refine ⟨fun j => ?_, fun j => ?_, fun j => ?_, h.responses, fun j hj => ?_, h.failed⟩
      · have hold := h.outstanding j
        by_cases hjk : j = k
        · subst hjk
          simp only [State.outstanding, Function.update_self] at hold ⊢
          cases hflight : s.reqsInFlight j with
          | true => simpa [hflight] using hold
          | false =>
            cases hlow : runningLow (cfg.lowWaterMarks j.idType) ranges with
            | true =>
              simp [hflight] at hold
              simp [hold]
            | false => simpa [hflight] using hold
        · simp only [State.outstanding, Function.update_of_ne hjk] at hold ⊢
          split
          · rw [List.count_cons_of_ne (Ne.symm hjk)]
            exact hold
          · exact hold
      · by_cases hjk : j = k
        · subst hjk
          have hold := h.fifo j
          simp only [Function.update_self]
          rw [← hold, hids, List.append_assoc]
          rfl
        · simp only [Function.update_of_ne hjk]
          exact h.fifo j
      · by_cases hjk : j = k
        · subst hjk
          simp only [Function.update_self]
          exact hwf
        · simp only [Function.update_of_ne hjk]
          exact h.ranges j
      · by_cases hjk : j = k
        · subst hjk
          simp only [Function.update_self]
          cases hranges : ranges with
          | nil =>
            left
            simp [runningLow]
          | cons r rest => exact Or.inr (List.cons_ne_nil _ _)
        · simp only [Function.update_of_ne hjk]
          exact h.supplied j hj
  · cases hget

theorem Inv.step {cfg : Config κ n} {s s' : State κ n} {e : Event κ n} (h : Inv cfg s)
    (hstep : step cfg s e = some s') : Inv cfg s' := by
  cases e with
  | get k => exact h.getRemoteId hstep
  | send k batchSize =>
    obtain ⟨⟨hk, -⟩, hstep⟩ := Option.ite_none_right_eq_some.mp hstep
    cases hstep
    refine ⟨fun j => ?_, h.fifo, h.ranges, h.responses, h.supplied, h.failed⟩
    rw [← h.outstanding j]
    have hsends := count_map_erase (f := id) hk j
    simp only [List.map_id, id_eq] at hsends
    simp only [State.outstanding, List.map_cons, List.count_cons, beq_iff_eq]
    omega
  | serve r range =>
    obtain ⟨⟨hr, hwf⟩, hstep⟩ := Option.ite_none_right_eq_some.mp hstep
    cases hstep
    refine ⟨fun j => ?_, h.fifo, h.ranges, fun p hp => ?_, h.supplied, h.failed⟩
    · rw [← h.outstanding j]
      have hrequests := count_map_erase (f := Request.key) hr j
      simp only [State.outstanding, List.map_cons, List.count_cons, beq_iff_eq]
      omega
    · rcases List.mem_cons.mp hp with rfl | hp
      · exact hwf
      · exact h.responses p hp
  | receive p =>
    obtain ⟨hp, hstep⟩ := Option.ite_none_right_eq_some.mp hstep
    cases hstep
    have hresponses := count_map_erase (f := Response.key) hp
    -- the answer is the one request that is in flight
    have hflight : s.reqsInFlight p.key = true := by
      by_contra hnot
      have hout := h.outstanding p.key
      have hcount := hresponses p.key
      rw [if_neg hnot] at hout
      rw [if_pos rfl] at hcount
      simp only [State.outstanding] at hout
      omega
    refine ⟨fun j => ?_, fun j => ?_, fun j => ?_, fun q hq => ?_, fun j hj => ?_, ?_⟩
    · have hout := h.outstanding j
      have hcount := hresponses j
      by_cases hjk : j = p.key
      · subst hjk
        rw [if_pos hflight] at hout
        rw [if_pos rfl] at hcount
        simp only [State.outstanding, State.addIdRange, Function.update_self, Bool.false_eq_true, if_false] at hout ⊢
        omega
      · rw [if_neg (Ne.symm hjk)] at hcount
        simp only [State.outstanding, State.addIdRange, Function.update_of_ne hjk] at hout ⊢
        omega
    · simp only [State.addIdRange]
      by_cases hjk : j = p.key
      · subst hjk
        rw [Function.update_self, Function.update_self, List.flatMap_append, List.flatMap_append, ← List.append_assoc,
          h.fifo]
      · rw [Function.update_of_ne hjk, Function.update_of_ne hjk]
        exact h.fifo j
    · simp only [State.addIdRange]
      by_cases hjk : j = p.key
      · subst hjk
        rw [Function.update_self]
        intro r hr
        rcases List.mem_append.mp hr with hr | hr
        · exact h.ranges _ r hr
        · rw [List.mem_singleton.mp hr]
          exact h.responses p hp
      · rw [Function.update_of_ne hjk]
        exact h.ranges j
    · exact h.responses q (List.mem_of_mem_erase hq)
    · simp only [State.addIdRange]
      by_cases hjk : j = p.key
      · subst hjk
        rw [Function.update_self, Function.update_self]
        exact Or.inr (List.append_ne_nil_of_right_ne_nil _ (List.cons_ne_nil _ _))
      · rw [Function.update_of_ne hjk, Function.update_of_ne hjk]
        exact h.supplied j hj
    · simp only [State.addIdRange, hflight, h.failed]
      rfl

/-! ## Every interleaving -/

/-- What the allocator guarantees: the ids of a key go out in the order of its ranges, never more than one request of a
key is under way, the assertion in `add_id_range` holds, and `get_remote_id` finds no id only if a request is under
way. -/
structure Sound (cfg : Config κ n) (s : State κ n) : Prop where
  order : ∀ k, s.handed k <+: (s.received k).flatMap ids
  single : ∀ k, s.outstanding k ≤ 1
  asserted : s.failed = false
  blocked : ∀ k, cfg.Served k → s.getRemoteId cfg k = none → s.outstanding k = 1
  distinct : (∀ k, ((s.received k).flatMap ids).Nodup) →
    (∀ k j, k ≠ j → List.Disjoint ((s.received k).flatMap ids) ((s.received j).flatMap ids)) →
    (∀ k, (s.handed k).Nodup) ∧ ∀ k j, k ≠ j → List.Disjoint (s.handed k) (s.handed j)

theorem Inv.sound {cfg : Config κ n} {s : State κ n} (h : Inv cfg s) : Sound cfg s := by
  have horder : ∀ k, s.handed k <+: (s.received k).flatMap ids := fun k => ⟨_, h.fifo k⟩
  refine ⟨horder, fun k => ?_, h.failed, fun k hk hnone => ?_, fun hnodup hdisj => ⟨fun k => ?_, fun k j hkj => ?_⟩⟩
  · rw [h.outstanding k]
    split <;> omega
  · rw [h.outstanding k]
    rcases h.supplied k hk with hflight | hranges
    · rw [if_pos hflight]
    · -- there is an id, and the type has a batch size
      obtain ⟨⟨id, ranges⟩, htake⟩ := Option.isSome_iff_exists.mp (takeId_isSome_iff.mpr hranges)
      simp [State.getRemoteId, hk.1, htake] at hnone
  · exact (hnodup k).sublist (horder k).sublist
  · intro id hk hj
    exact hdisj k j hkj ((horder k).subset hk) ((horder j).subset hj)

/-- **Remote ids**, for any number of threads and any order of the messages: if the ranges that arrive have no id in
common, then no id is handed out twice, and there is never more than one request under way for a target and a type. -/
theorem remoteIds_of_run (cfg : Config κ n) (es : List (Event κ n)) (s : State κ n)
    (hrun : run (step cfg) (State.init cfg) es = some s) : Sound cfg s := by
  have hinv : Inv cfg s := run_inv (fun t e t' ht h => ht.step h) (Inv.init cfg) hrun
  exact hinv.sound

/-- Two nodes and one type of ids, in batches of 2. -/
def oneType (me : Fin 2) : Config Unit 2 := ⟨me, [((), 2)], List.nodup_singleton _, fun _ => 1⟩

/-- The first batch arrives, one id is handed out, which leaves too few, and the second batch arrives. -/
theorem remoteIds_of_run_two : ∃ s, run (step (oneType 0)) (State.init (oneType 0))
    [.serve ⟨⟨(), 1⟩, 2⟩ (10, 11), .receive ⟨⟨(), 1⟩, (10, 11)⟩, .get ⟨(), 1⟩, .send ⟨(), 1⟩ 2,
      .serve ⟨⟨(), 1⟩, 2⟩ (14, 15), .receive ⟨⟨(), 1⟩, (14, 15)⟩, .get ⟨(), 1⟩] = some s ∧
    s.handed ⟨(), 1⟩ = [10, 11] ∧ Sound (oneType 0) s := by
  refine ⟨_, rfl, rfl, ?_⟩
  exact remoteIds_of_run (oneType 0)
    [.serve ⟨⟨(), 1⟩, 2⟩ (10, 11), .receive ⟨⟨(), 1⟩, (10, 11)⟩, .get ⟨(), 1⟩, .send ⟨(), 1⟩ 2,
      .serve ⟨⟨(), 1⟩, 2⟩ (14, 15), .receive ⟨⟨(), 1⟩, (14, 15)⟩, .get ⟨(), 1⟩] _ rfl

end Realm.RemoteId

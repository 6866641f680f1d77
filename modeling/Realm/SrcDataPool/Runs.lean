import Realm.SrcDataPool.Partition

/-!
# Realm.SrcDataPool.Runs — what holds after every sequence of pool operations

`Trace.Inv` adds to the partition of the pool what the callers see: owners hold large enough spans, waiters
leave the queue in order, and somebody who waits waits for a span in use.

* `partition_of_run`: the partition after every sequence of operations, without a failed assertion.
* `pending_served_in_order`: nobody waits in vain, service is first come first served, and releasing all
  spans repeatedly empties the queue.
* `workConserving_iff`: the front waiter is kept waiting next to a free span that is large enough exactly
  after a release that serves the first of two waiters and leaves room for the second.
-/

namespace Realm.SrcDataPool

open Lib

variable {M : Type} {payloadSize : M → ℕ} {base size : ℕ}

/-! ## The steps -/

/-- `reserve_srcdata`: a span at once, or a place in the queue. -/
theorem reserveSrcdata_cases {s : SrcDataPool M} (hs : Inv base s) (hb : 0 < base) {msg : M}
    (h0 : 0 < payloadSize msg) (hn : payloadSize msg ≤ s.totalSize) :
    (∃ p s', p ≠ 0 ∧ s.reserveSrcdata payloadSize msg = some (p, s') ∧ Inv base s' ∧
      s.pendingAllocations = [] ∧ Granted s (payloadSize msg) p s') ∨
    ((s.pendingAllocations ≠ [] ∨ ∀ x ∈ s.freeList, x.2 < roundUpSize (payloadSize msg)) ∧
      s.reserveSrcdata payloadSize msg =
        some (0, { s with pendingAllocations := s.pendingAllocations ++ [msg] })) := by
  have hwait : s.allocSrcptr (payloadSize msg) = some (0, s) →
      s.reserveSrcdata payloadSize msg =
        some (0, { s with pendingAllocations := s.pendingAllocations ++ [msg] }) := by
    intro h
    unfold reserveSrcdata addPending
    rw [h]
    simp [Nat.not_lt.mpr hn]
  by_cases hp : s.pendingAllocations = []
  · rcases allocSrcptr_spec hs hb h0 hn hp with ⟨p, s', hne, he, hI, hG⟩ | ⟨hsmall, he⟩
    · refine Or.inl ⟨p, s', hne, ?_, hI, hp, hG⟩
      unfold reserveSrcdata
      rw [he]
      simp [hne]
    · exact Or.inr ⟨Or.inr hsmall, hwait he⟩
  · exact Or.inr ⟨Or.inl hp, hwait (allocSrcptr_of_pending hn hp)⟩

namespace Trace

/-- The pool with its history. -/
structure Inv (payloadSize : M → ℕ) (base size : ℕ) (t : Trace M) : Prop where
  pool : SrcDataPool.Inv base t.pool
  totalSize : t.pool.totalSize = size
  sizes : ∀ m ∈ t.pool.pendingAllocations, 0 < payloadSize m ∧ payloadSize m ≤ size
  owned : ∀ o ∈ t.owners, ∃ z, (o.2, z) ∈ t.pool.inUse ∧ payloadSize o.1 ≤ z
  distinct : (t.owners.map Prod.snd).Nodup
  fifo : t.waited = t.served.map Prod.fst ++ t.pool.pendingAllocations
  waiting : t.pool.pendingAllocations ≠ [] → t.pool.inUse.entries ≠ []

theorem Inv.init (hs : 0 < size) (hb : 64 ∣ base) (hz : 64 ∣ size) :
    Inv payloadSize base size (init base size) where
  pool := SrcDataPool.Inv.init hs hb hz
  totalSize := rfl
  sizes := fun _ hm => absurd hm List.not_mem_nil
  owned := fun _ ho => absurd ho List.not_mem_nil
  distinct := List.nodup_nil
  fifo := rfl
  waiting := fun h => absurd rfl h

variable {t : Trace M}

/-! The four outcomes of a step. -/

/-- `reserve_srcdata` got the pointer `p` and left the pool `s`. -/
def grant (t : Trace M) (msg : M) (p : ℕ) (s : SrcDataPool M) : Trace M :=
  { t with pool := s, owners := t.owners ++ [(msg, p)] }

/-- `reserve_srcdata` queued the message. -/
def wait (t : Trace M) (msg : M) : Trace M :=
  { t with
    pool := { t.pool with pendingAllocations := t.pool.pendingAllocations ++ [msg] }
    waited := t.waited ++ [msg] }

/-- `release_srcptr` gave the merged span `a` to the first waiter. -/
def serve (payloadSize : M → ℕ) (t : Trace M) (p : ℕ) (a : Absorbed) (msg : M) (rest : List M) : Trace M :=
  { t with
    pool := SrcDataPool.served payloadSize t.pool p a msg rest
    owners := t.owners.filter (fun o => o.2 ≠ p) ++ [(msg, a.srcptr)]
    served := t.served ++ [(msg, a.srcptr)] }

/-- `release_srcptr` put the merged span `a` on the free list. -/
def free (t : Trace M) (p : ℕ) (a : Absorbed) : Trace M :=
  { t with
    pool := { t.pool with inUse := t.pool.inUse.erase p, freeList := a.freeList.set a.srcptr a.size }
    owners := t.owners.filter (fun o => o.2 ≠ p) }

/-- Every step of a caller who keeps the promises, guards and outcome included. -/
theorem step_cases (ht : Inv payloadSize base size t) (hb : 0 < base) {op : Op M}
    (hop : Allowed payloadSize t op) :
    (∃ msg p s', op = .reserve msg ∧ SrcDataPool.Inv base s' ∧ t.pool.pendingAllocations = [] ∧
      Granted t.pool (payloadSize msg) p s' ∧ t.step payloadSize op = some (t.grant msg p s')) ∨
    (∃ msg, op = .reserve msg ∧ 0 < payloadSize msg ∧ payloadSize msg ≤ size ∧
      (t.pool.pendingAllocations ≠ [] ∨ ∀ x ∈ t.pool.freeList, x.2 < roundUpSize (payloadSize msg)) ∧
      t.step payloadSize op = some (t.wait msg)) ∨
    (∃ p n msg rest, op = .release p ∧ (p, n) ∈ t.pool.inUse ∧
      t.pool.pendingAllocations = msg :: rest ∧
      payloadSize msg ≤ (absorb t.pool.freeList p n).size ∧
      t.step payloadSize op =
        some (t.serve payloadSize p (absorb t.pool.freeList p n) msg rest)) ∨
    (∃ p n, op = .release p ∧ (p, n) ∈ t.pool.inUse ∧
      (∀ msg rest, t.pool.pendingAllocations = msg :: rest →
        (absorb t.pool.freeList p n).size < payloadSize msg) ∧
      t.step payloadSize op = some (t.free p (absorb t.pool.freeList p n))) := by
  cases op with
  | reserve msg =>
    obtain ⟨h0, hn⟩ := hop
    rcases reserveSrcdata_cases ht.pool hb h0 hn with ⟨p, s', hne, he, hI, hp, hG⟩ | ⟨hw, he⟩
    · refine Or.inl ⟨msg, p, s', rfl, hI, hp, hG, ?_⟩
      simp [step, he, hne, grant]
    · refine Or.inr (Or.inl ⟨msg, rfl, h0, ht.totalSize ▸ hn, hw, ?_⟩)
      simp [step, he, wait]
  | release p =>
    obtain ⟨n, hm⟩ := hop
    have hq : ∀ m ∈ t.pool.pendingAllocations, payloadSize m ≤ t.pool.totalSize :=
      fun m hm => ht.totalSize ▸ (ht.sizes m hm).2
    rcases releaseSrcptr_cases ht.pool hq hm with ⟨msg, rest, hp, hle, he⟩ | ⟨hlt, he⟩
    · refine Or.inr (Or.inr (Or.inl ⟨p, n, msg, rest, rfl, hm, hp, hle, ?_⟩))
      simp [step, he, serve]
    · refine Or.inr (Or.inr (Or.inr ⟨p, n, rfl, hm, hlt, ?_⟩))
      simp [step, he, free]

/-- With an empty `in_use` a message of admissible size fits into the free list. -/
theorem Inv.fits_of_inUse_nil (ht : Inv payloadSize base size t) (hu : t.pool.inUse.entries = [])
    {n : ℕ} (h0 : 0 < n) (hn : n ≤ size) : ∃ x ∈ t.pool.freeList, roundUpSize n ≤ x.2 := by
  have hpos : 0 < t.pool.totalSize := by have := ht.totalSize; omega
  obtain ⟨p, hp⟩ := ht.pool.free_of_inUse_nil hu hpos
  have hmem : (p, t.pool.totalSize) ∈ t.pool.freeList := by
    rw [SortedMap.mem_def, hp]
    exact List.mem_cons_self
  refine ⟨_, hmem, ?_⟩
  rw [roundUpSize_le_iff (ht.pool.free _ hmem).aligned.2]
  exact ht.totalSize ▸ hn

/-! ## The step lemma, one outcome at a time -/

/-- Owners other than the released one keep their spans. -/
theorem Inv.mem_owners (ht : Inv payloadSize base size t) {p : ℕ} {o : M × ℕ}
    (ho : o ∈ t.owners.filter (fun o => decide (o.2 ≠ p))) :
    o.2 ≠ p ∧ ∃ z, (o.2, z) ∈ t.pool.inUse ∧ payloadSize o.1 ≤ z := by
  obtain ⟨ho, hne⟩ := List.mem_filter.mp ho
  exact ⟨by simpa using hne, ht.owned o ho⟩

theorem Inv.distinct_filter (ht : Inv payloadSize base size t) (p : ℕ) :
    ((t.owners.filter (fun o => decide (o.2 ≠ p))).map Prod.snd).Nodup :=
  ht.distinct.sublist (List.filter_sublist.map _)

theorem Inv.grant (ht : Inv payloadSize base size t) {msg : M} {p : ℕ} {s' : SrcDataPool M}
    (hI : SrcDataPool.Inv base s') (hp : t.pool.pendingAllocations = [])
    (hG : Granted t.pool (payloadSize msg) p s') :
    Inv payloadSize base size (t.grant msg p s') := by
  refine ⟨hI, hG.totalSize.trans ht.totalSize, ?_, ?_, ?_, ?_, ?_⟩
  · show ∀ m ∈ s'.pendingAllocations, _
    rw [hG.pending]
    exact ht.sizes
  · intro o ho
    rcases List.mem_append.mp ho with ho | ho
    · obtain ⟨z, hz, hle⟩ := ht.owned o ho
      exact ⟨z, hG.keep _ hz, hle⟩
    · rw [List.mem_singleton.mp ho]
      exact hG.owned
  · show ((t.owners ++ [(msg, p)]).map Prod.snd).Nodup
    rw [List.map_append, List.nodup_append']
    refine ⟨ht.distinct, List.nodup_singleton _, ?_⟩
    rw [List.disjoint_left]
    intro q hq hq'
    obtain ⟨o, ho, rfl⟩ := List.mem_map.mp hq
    obtain ⟨z, hz, -⟩ := ht.owned o ho
    have hop : o.2 = p := List.mem_singleton.mp hq'
    exact hG.fresh z (hop ▸ hz)
  · show t.waited = t.served.map Prod.fst ++ s'.pendingAllocations
    rw [hG.pending]
    exact ht.fifo
  · intro h
    exact absurd (hG.pending.trans hp) h

theorem Inv.wait (ht : Inv payloadSize base size t) {msg : M} (h0 : 0 < payloadSize msg)
    (hn : payloadSize msg ≤ size)
    (hw : t.pool.pendingAllocations ≠ [] ∨ ∀ x ∈ t.pool.freeList, x.2 < roundUpSize (payloadSize msg)) :
    Inv payloadSize base size (t.wait msg) := by
  have hP := ht.pool
  refine ⟨⟨⟨hP.free, hP.used, hP.gap, hP.sep, hP.apart⟩, hP.sum⟩, ht.totalSize, ?_, ht.owned,
    ht.distinct, ?_, ?_⟩
  · intro m hm
    rcases List.mem_append.mp hm with hm | hm
    · exact ht.sizes m hm
    · rw [List.mem_singleton.mp hm]
      exact ⟨h0, hn⟩
  · show t.waited ++ [msg] = t.served.map Prod.fst ++ (t.pool.pendingAllocations ++ [msg])
    rw [ht.fifo, List.append_assoc]
  · intro _ hu
    -- the first waiter of an empty queue found every free span too small
    rcases hw with hw | hw
    · exact ht.waiting hw hu
    · obtain ⟨x, hx, hr⟩ := ht.fits_of_inUse_nil hu h0 hn
      have := hw x hx
      omega

theorem Inv.serve (ht : Inv payloadSize base size t) {p n : ℕ} (hm : (p, n) ∈ t.pool.inUse) {msg : M}
    {rest : List M} (hp : t.pool.pendingAllocations = msg :: rest)
    (hle : payloadSize msg ≤ (absorb t.pool.freeList p n).size) :
    Inv payloadSize base size (t.serve payloadSize p (absorb t.pool.freeList p n) msg rest) := by
  have h0 : 0 < payloadSize msg := (ht.sizes msg (by rw [hp]; exact List.mem_cons_self)).1
  have hmem : ((absorb t.pool.freeList p n).srcptr, roundUpSize (payloadSize msg)) ∈
      (SrcDataPool.served payloadSize t.pool p (absorb t.pool.freeList p n) msg rest).inUse :=
    SortedMap.mem_set.mpr (Or.inl rfl)
  refine ⟨ht.pool.served hm rest h0 hle, ht.totalSize, ?_, ?_, ?_, ?_, ?_⟩
  · intro m hm
    exact ht.sizes m (by rw [hp]; exact List.mem_cons_of_mem _ hm)
  · intro o ho
    rcases List.mem_append.mp ho with ho | ho
    · obtain ⟨hne, z, hz, hle⟩ := ht.mem_owners ho
      exact ⟨z, ht.pool.mem_served hm hz hne, hle⟩
    · rw [List.mem_singleton.mp ho]
      exact ⟨_, hmem, le_roundUpSize _⟩
  · show ((_ ++ [(msg, (absorb t.pool.freeList p n).srcptr)]).map Prod.snd).Nodup
    rw [List.map_append, List.nodup_append']
    refine ⟨ht.distinct_filter p, List.nodup_singleton _, ?_⟩
    rw [List.disjoint_left]
    intro q hq hq'
    obtain ⟨o, ho, rfl⟩ := List.mem_map.mp hq
    obtain ⟨hne, z, hz, -⟩ := ht.mem_owners ho
    have hoq : o.2 = (absorb t.pool.freeList p n).srcptr := List.mem_singleton.mp hq'
    have hH := ht.pool.hole_of_release hm
    have hpos := hH.block.pos
    exact hH.notMem_used hoq.ge (by simp only at hpos ⊢; omega) z (SortedMap.mem_erase.mpr ⟨hz, hne⟩)
  · show t.waited = (t.served ++ [_]).map Prod.fst ++ rest
    rw [ht.fifo, hp, List.map_append, List.append_assoc]
    rfl
  · intro _ hu
    have hmem' : _ ∈ (_ : List _) := hmem
    rw [show (SrcDataPool.served payloadSize t.pool p (absorb t.pool.freeList p n) msg rest).inUse.entries
      = [] from hu] at hmem'
    exact absurd hmem' List.not_mem_nil

theorem Inv.free (ht : Inv payloadSize base size t) {p n : ℕ} (hm : (p, n) ∈ t.pool.inUse)
    (hlt : ∀ msg rest, t.pool.pendingAllocations = msg :: rest →
      (absorb t.pool.freeList p n).size < payloadSize msg) :
    Inv payloadSize base size (t.free p (absorb t.pool.freeList p n)) := by
  have hI := (ht.pool.hole_of_release hm).fill_free
  refine ⟨hI, ht.totalSize, ht.sizes, ?_, ht.distinct_filter p, ht.fifo, ?_⟩
  · intro o ho
    obtain ⟨hne, z, hz, hle⟩ := ht.mem_owners ho
    exact ⟨z, SortedMap.mem_erase.mpr ⟨hz, hne⟩, hle⟩
  · intro hne hu
    -- with the last span gone, coalescing has rebuilt the whole pool
    obtain ⟨msg, rest, hp⟩ := List.exists_cons_of_ne_nil hne
    have hsz := ht.sizes msg (by rw [show t.pool.pendingAllocations = _ from hp]; exact List.mem_cons_self)
    have htot := ht.totalSize
    obtain ⟨q, hq⟩ := hI.free_of_inUse_nil hu (by simp only; omega)
    have hmem : ((absorb t.pool.freeList p n).srcptr, (absorb t.pool.freeList p n).size) ∈
        [(q, t.pool.totalSize)] := by
      rw [← show (SortedMap.set _ _ _).entries = _ from hq]
      exact SortedMap.mem_set.mpr (Or.inl rfl)
    have hall : (absorb t.pool.freeList p n).size = t.pool.totalSize :=
      congrArg Prod.snd (List.mem_singleton.mp hmem)
    have := hlt msg rest hp
    omega

/-- **Step lemma**: an allowed operation does not fail an assertion and keeps the invariant. -/
theorem Inv.step (ht : Inv payloadSize base size t) (hb : 0 < base) {op : Op M}
    (hop : Allowed payloadSize t op) :
    ∃ t', t.step payloadSize op = some t' ∧ Inv payloadSize base size t' := by
  rcases step_cases ht hb hop with ⟨msg, p, s', -, hI, hp, hG, he⟩ | ⟨msg, -, h0, hn, hw, he⟩ |
    ⟨p, n, msg, rest, -, hm, hp, hle, he⟩ | ⟨p, n, -, hm, hlt, he⟩
  · exact ⟨_, he, ht.grant hI hp hG⟩
  · exact ⟨_, he, ht.wait h0 hn hw⟩
  · exact ⟨_, he, ht.serve hm hp hle⟩
  · exact ⟨_, he, ht.free hm hlt⟩

/-- Along every sequence of allowed operations the invariant holds and no assertion fails. -/
theorem Inv.run (ht : Inv payloadSize base size t) (hb : 0 < base) {ops : List (Op M)}
    (hops : Guarded (Trace.step payloadSize) (Allowed payloadSize) t ops) :
    ∃ t', Lib.run (Trace.step payloadSize) t ops = some t' ∧ Inv payloadSize base size t' :=
  run_total (fun _ _ h hop => h.step hb hop) ht hops

/-! ## The partition -/

/-- Free list and `in_use` cut the pool into disjoint aligned blocks, the free ones coalesced, and every
pointer handed out owns a block for its payload. -/
structure Partition (payloadSize : M → ℕ) (base size : ℕ) (t : Trace M) : Prop where
  disjoint : (t.pool.freeList.entries ++ t.pool.inUse.entries).Pairwise Span.Disj
  nonempty : ∀ x ∈ t.pool.freeList.entries ++ t.pool.inUse.entries, 0 < x.2
  aligned : ∀ x ∈ t.pool.freeList.entries ++ t.pool.inUse.entries, 64 ∣ x.1 ∧ 64 ∣ x.2
  cover : ∀ a, (∃ x ∈ t.pool.freeList.entries ++ t.pool.inUse.entries, Span.Mem a x) ↔
    base ≤ a ∧ a < base + size
  coalesced : ∀ x ∈ t.pool.freeList, ∀ y ∈ t.pool.freeList, x.1 + x.2 ≠ y.1
  owned : ∀ o ∈ t.owners, ∃ z, (o.2, z) ∈ t.pool.inUse ∧ payloadSize o.1 ≤ z
  distinct : (t.owners.map Prod.snd).Nodup

theorem Inv.block (ht : Inv payloadSize base size t) {x : Span}
    (hx : x ∈ t.pool.freeList.entries ++ t.pool.inUse.entries) : Block base size x := by
  have htot := ht.totalSize
  rcases List.mem_append.mp hx with hx | hx
  · exact htot ▸ ht.pool.free x hx
  · exact htot ▸ ht.pool.used x hx

theorem Inv.disjoint (ht : Inv payloadSize base size t) :
    (t.pool.freeList.entries ++ t.pool.inUse.entries).Pairwise Span.Disj := by
  rw [List.pairwise_append]
  refine ⟨?_, ?_, ht.pool.apart⟩
  · exact t.pool.freeList.sorted.imp_of_mem
      (fun ha hb hab => Or.inl (ht.pool.gap _ ha _ hb hab).le)
  · exact t.pool.inUse.sorted.imp_of_mem (fun ha hb hab => Or.inl (ht.pool.sep _ ha _ hb hab))

theorem Inv.partition (ht : Inv payloadSize base size t) : Partition payloadSize base size t where
  disjoint := ht.disjoint
  nonempty := fun _ hx => (ht.block hx).pos
  aligned := fun _ hx => (ht.block hx).aligned
  cover := by
    refine Span.cover_of_total ht.disjoint (fun x hx => (ht.block hx).within) ?_
    rw [Span.total_append, ht.pool.sum, ht.totalSize]
  coalesced := by
    intro x hx y hy heq
    have hpos := (ht.pool.free x hx).pos
    have := ht.pool.gap x hx y hy (by omega)
    omega
  owned := ht.owned
  distinct := ht.distinct

/-- **The pool stays partitioned**: after every sequence of reservations and releases of pointers in use
no assertion has failed, and free list and `in_use` partition `[base, base + total_size)`. -/
theorem partition_of_run (hb : base ≠ 0) (hb64 : 64 ∣ base) (hs : 0 < size) (hs64 : 64 ∣ size)
    {ops : List (Op M)}
    (hops : Guarded (Trace.step payloadSize) (Allowed payloadSize) (init base size) ops) :
    ∃ t, Lib.run (Trace.step payloadSize) (init base size) ops = some t ∧
      Partition payloadSize base size t := by
  obtain ⟨t, ht, hI⟩ := (Inv.init hs hb64 hs64).run (Nat.pos_of_ne_zero hb) hops
  exact ⟨t, ht, hI.partition⟩

/-- Three messages of sizes `256`, `64` and `64`: the first takes the whole pool, the others wait, and the
release of the first span serves the second message. -/
def threeMessages : List (Op ℕ) := [.reserve 256, .reserve 64, .reserve 64, .release 64]

theorem threeMessages_allowed :
    Guarded (Trace.step id) (Allowed id) (init 64 256) threeMessages := by
  refine guarded_cons rfl ⟨by decide, by decide⟩ ?_
  refine guarded_cons rfl ⟨by decide, by decide⟩ ?_
  refine guarded_cons rfl ⟨by decide, by decide⟩ ?_
  exact guarded_cons rfl ⟨256, List.mem_cons_self⟩ trivial

theorem partition_threeMessages :
    ∃ t, Lib.run (Trace.step id) (init 64 256) threeMessages = some t ∧ Partition id 64 256 t :=
  partition_of_run (by decide) (by decide) (by decide) (by decide) threeMessages_allowed

/-! ## Waiting messages -/

/-- Release every span in use. -/
def releaseAll (payloadSize : M → ℕ) (t : Trace M) : Option (Trace M) :=
  Lib.run (Trace.step payloadSize) t (t.pool.inUse.entries.map (fun x => Op.release x.1))

/-- `n` rounds of releasing every span in use. -/
def releaseRounds (payloadSize : M → ℕ) : ℕ → Trace M → Option (Trace M)
  | 0, t => some t
  | n + 1, t => (t.releaseAll payloadSize).bind (releaseRounds payloadSize n)

/-- Releasing distinct pointers in use: the queue gets shorter, or nobody was served and exactly these
pointers have left `in_use`. -/
theorem Inv.release_list (ht : Inv payloadSize base size t) (hb : 0 < base) {ps : List ℕ}
    (hnd : ps.Nodup) (hps : ∀ p ∈ ps, ∃ n, (p, n) ∈ t.pool.inUse) :
    ∃ t', Lib.run (Trace.step payloadSize) t (ps.map Op.release) = some t' ∧
      Inv payloadSize base size t' ∧
      (t'.pool.pendingAllocations.length < t.pool.pendingAllocations.length ∨
        (t'.pool.pendingAllocations = t.pool.pendingAllocations ∧
          ∀ x, x ∈ t'.pool.inUse ↔ x ∈ t.pool.inUse ∧ x.1 ∉ ps)) := by
  induction ps generalizing t with
  | nil => exact ⟨t, rfl, ht, Or.inr ⟨rfl, by simp⟩⟩
  | cons q ps ih =>
    obtain ⟨hq, hnd⟩ := List.nodup_cons.mp hnd
    have hother : ∀ r ∈ ps, r ≠ q ∧ ∃ n, (r, n) ∈ t.pool.inUse := fun r hr =>
      ⟨fun h => hq (h ▸ hr), hps r (List.mem_cons_of_mem _ hr)⟩
    have hop : Allowed payloadSize t (.release q) := hps q List.mem_cons_self
    rcases step_cases ht hb hop with ⟨msg, p, s', h, -⟩ | ⟨msg, h, -⟩ |
      ⟨p, n, msg, rest, h, hm, hp, hle, he⟩ | ⟨p, n, h, hm, hlt, he⟩
    · cases h
    · cases h
    · cases h
      obtain ⟨t', hr, hI, hlen⟩ := ih (ht.serve hm hp hle) hnd (fun r hr => by
        obtain ⟨hne, z, hz⟩ := hother r hr
        exact ⟨z, ht.pool.mem_served hm hz hne⟩)
      refine ⟨t', run_cons_eq_some.mpr ⟨_, he, hr⟩, hI, Or.inl ?_⟩
      have hl : (t.serve payloadSize q (absorb t.pool.freeList q n) msg
        rest).pool.pendingAllocations.length = rest.length := rfl
      rw [hp, List.length_cons]
      rcases hlen with h | ⟨h, -⟩
      · omega
      · rw [h, hl]
        omega
    · cases h
      obtain ⟨t', hr, hI, hlen⟩ := ih (ht.free hm hlt) hnd (fun r hr => by
        obtain ⟨hne, z, hz⟩ := hother r hr
        exact ⟨z, SortedMap.mem_erase.mpr ⟨hz, hne⟩⟩)
      refine ⟨t', run_cons_eq_some.mpr ⟨_, he, hr⟩, hI, hlen.imp id ?_⟩
      rintro ⟨h1, h2⟩
      refine ⟨h1, fun x => ?_⟩
      rw [h2, show x ∈ (t.free q (absorb t.pool.freeList q n)).pool.inUse ↔ _ from SortedMap.mem_erase,
        List.mem_cons, not_or, and_assoc]

/-- A round of releases serves at least one waiter. -/
theorem Inv.releaseAll (ht : Inv payloadSize base size t) (hb : 0 < base) :
    ∃ t', t.releaseAll payloadSize = some t' ∧ Inv payloadSize base size t' ∧
      t'.pool.pendingAllocations.length ≤ t.pool.pendingAllocations.length - 1 := by
  have hnd : (t.pool.inUse.entries.map Prod.fst).Nodup :=
    List.pairwise_map.mpr (t.pool.inUse.sorted.imp (fun h => h.ne))
  obtain ⟨t', hr, hI, hlen⟩ := ht.release_list hb hnd (fun p hp => by
    obtain ⟨x, hx, rfl⟩ := List.mem_map.mp hp
    exact ⟨x.2, hx⟩)
  refine ⟨t', by rw [← hr, Trace.releaseAll, List.map_map]; rfl, hI, ?_⟩
  rcases hlen with h | ⟨h, hmem⟩
  · omega
  · by_cases hp : t'.pool.pendingAllocations = []
    · rw [hp]
      exact Nat.zero_le _
    · exfalso
      refine hI.waiting hp (List.eq_nil_iff_forall_not_mem.mpr fun x hx => ?_)
      obtain ⟨h1, h2⟩ := (hmem x).mp hx
      exact h2 (List.mem_map.mpr ⟨x, h1, rfl⟩)

theorem Inv.releaseRounds (hb : 0 < base) (n : ℕ) (ht : Inv payloadSize base size t)
    (hn : t.pool.pendingAllocations.length ≤ n) :
    ∃ t', t.releaseRounds payloadSize n = some t' ∧ t'.pool.pendingAllocations = [] := by
  induction n generalizing t with
  | zero => exact ⟨t, rfl, List.length_eq_zero_iff.mp (by omega)⟩
  | succ n ih =>
    obtain ⟨t1, h1, hI, hlen⟩ := ht.releaseAll hb
    obtain ⟨t', h2, hp⟩ := ih hI (by omega)
    exact ⟨t', by rw [Trace.releaseRounds, h1]; exact h2, hp⟩

/-- **Nobody waits in vain**: after every sequence of operations a waiter waits for a span in use, the
waiters served so far followed by those still waiting are the waiters in order of arrival, and as many
rounds of releases as there are waiters empty the queue. -/
theorem pending_served_in_order (hb : base ≠ 0) (hb64 : 64 ∣ base) (hs : 0 < size) (hs64 : 64 ∣ size)
    {ops : List (Op M)}
    (hops : Guarded (Trace.step payloadSize) (Allowed payloadSize) (init base size) ops) :
    ∃ t, Lib.run (Trace.step payloadSize) (init base size) ops = some t ∧
      (t.pool.pendingAllocations ≠ [] → t.pool.inUse.entries ≠ []) ∧
      t.waited = t.served.map Prod.fst ++ t.pool.pendingAllocations ∧
      ∃ t', t.releaseRounds payloadSize t.pool.pendingAllocations.length = some t' ∧
        t'.pool.pendingAllocations = [] := by
  have hb0 := Nat.pos_of_ne_zero hb
  obtain ⟨t, ht, hI⟩ := (Inv.init hs hb64 hs64).run hb0 hops
  exact ⟨t, ht, hI.waiting, hI.fifo, hI.releaseRounds hb0 _ le_rfl⟩

theorem pending_threeMessages :
    ∃ t, Lib.run (Trace.step id) (init 64 256) threeMessages = some t ∧
      (t.pool.pendingAllocations ≠ [] → t.pool.inUse.entries ≠ []) ∧
      t.waited = t.served.map Prod.fst ++ t.pool.pendingAllocations ∧
      ∃ t', t.releaseRounds id t.pool.pendingAllocations.length = some t' ∧
        t'.pool.pendingAllocations = [] :=
  pending_served_in_order (by decide) (by decide) (by decide) (by decide) threeMessages_allowed

/-! ## Work conservation -/

/-- No free span is large enough for the message at the front of the queue. -/
def WorkConserving (payloadSize : M → ℕ) (s : SrcDataPool M) : Prop :=
  ∀ msg rest, s.pendingAllocations = msg :: rest →
    ∀ x ∈ s.freeList, x.2 < roundUpSize (payloadSize msg)

/-- Releasing `p` serves the first waiter although the second one would fit too: into what the first one
leaves of the merged span, or into another free span. -/
def SecondFits (payloadSize : M → ℕ) (s : SrcDataPool M) (p : ℕ) : Prop :=
  ∃ n msg next rest, (p, n) ∈ s.inUse ∧ s.pendingAllocations = msg :: next :: rest ∧
    payloadSize msg ≤ (absorb s.freeList p n).size ∧
    (roundUpSize (payloadSize msg) + roundUpSize (payloadSize next) ≤ (absorb s.freeList p n).size ∨
      ∃ x ∈ (absorb s.freeList p n).freeList, roundUpSize (payloadSize next) ≤ x.2)

/-- No release leaves a second waiter that would fit. -/
def NoSecondFits (payloadSize : M → ℕ) (t : Trace M) : Op M → Prop
  | .reserve _ => True
  | .release p => ¬ SecondFits payloadSize t.pool p

/-- The free spans after the first waiter was served. -/
theorem mem_free_serve {p n : ℕ} {msg : M} {rest : List M} {x : Span}
    (halone : ∀ y ∈ (absorb t.pool.freeList p n).freeList, y.1 + y.2 < (absorb t.pool.freeList p n).srcptr
      ∨ (absorb t.pool.freeList p n).srcptr + (absorb t.pool.freeList p n).size < y.1) :
    x ∈ (t.serve payloadSize p (absorb t.pool.freeList p n) msg rest).pool.freeList ↔
      x ∈ (absorb t.pool.freeList p n).freeList ∨
      (roundUpSize (payloadSize msg) < (absorb t.pool.freeList p n).size ∧
        x = ((absorb t.pool.freeList p n).srcptr + roundUpSize (payloadSize msg),
          (absorb t.pool.freeList p n).size - roundUpSize (payloadSize msg))) := by
  show x ∈ (if _ then _ else _ : SpanMap) ↔ _
  by_cases h : roundUpSize (payloadSize msg) < (absorb t.pool.freeList p n).size
  · rw [if_pos h, SortedMap.mem_set]
    constructor
    · rintro (rfl | ⟨hx, -⟩)
      · exact Or.inr ⟨h, rfl⟩
      · exact Or.inl hx
    · rintro (hx | ⟨-, rfl⟩)
      · refine Or.inr ⟨hx, ?_⟩
        have := halone x hx
        omega
      · exact Or.inl rfl
  · rw [if_neg h]
    exact ⟨Or.inl, fun hx => hx.resolve_right (fun hx => h hx.1)⟩

/-- The size of a span in use is determined by its address. -/
theorem secondFits_iff {p n : ℕ} (hm : (p, n) ∈ t.pool.inUse) {msg : M} {rest : List M}
    (hp : t.pool.pendingAllocations = msg :: rest)
    (hle : payloadSize msg ≤ (absorb t.pool.freeList p n).size) :
    SecondFits payloadSize t.pool p ↔ ∃ next rest', rest = next :: rest' ∧
      (roundUpSize (payloadSize msg) + roundUpSize (payloadSize next) ≤ (absorb t.pool.freeList p n).size ∨
        ∃ x ∈ (absorb t.pool.freeList p n).freeList, roundUpSize (payloadSize next) ≤ x.2) := by
  constructor
  · rintro ⟨n', msg', next, rest', hm', hp', -, hfit⟩
    obtain rfl : n = n' := congrArg Prod.snd (SortedMap.eq_of_mem hm hm' rfl)
    obtain ⟨rfl, rfl⟩ := List.cons_eq_cons.mp (hp.symm.trans hp')
    exact ⟨next, rest', rfl, hfit⟩
  · rintro ⟨next, rest', rfl, hfit⟩
    exact ⟨n, msg, next, rest', hm, hp, hle, hfit⟩

/-- A release that serves the first waiter leaves the pool work-conserving unless the second would fit, too. -/
theorem Inv.workConserving_serve (ht : Inv payloadSize base size t) {p n : ℕ} {msg : M} {rest : List M}
    (hm : (p, n) ∈ t.pool.inUse) (hp : t.pool.pendingAllocations = msg :: rest)
    (hle : payloadSize msg ≤ (absorb t.pool.freeList p n).size) :
    WorkConserving payloadSize (t.serve payloadSize p (absorb t.pool.freeList p n) msg rest).pool ↔
      ¬ SecondFits payloadSize t.pool p := by
  have hH := ht.pool.hole_of_release hm
  rw [secondFits_iff hm hp hle]
  constructor
  · rintro hW' ⟨next, rest', rfl, hfit⟩
    have hsmall := hW' next rest' rfl
    have hpos := (ht.sizes next (by rw [hp]; simp)).1
    have hr := le_roundUpSize (payloadSize next)
    rcases hfit with hfit | ⟨x, hx, hfit⟩
    · -- the rest of the merged span would do
      have := hsmall _ ((mem_free_serve hH.alone).mpr (Or.inr ⟨by omega, rfl⟩))
      simp only at this
      omega
    · have := hsmall x ((mem_free_serve hH.alone).mpr (Or.inl hx))
      omega
  · intro hno next rest' hrest x hx
    obtain rfl : rest = next :: rest' := hrest
    by_contra hge
    refine hno ⟨next, rest', rfl, ?_⟩
    rcases (mem_free_serve hH.alone).mp hx with hx | ⟨hlt, rfl⟩
    · exact Or.inr ⟨x, hx, by omega⟩
    · refine Or.inl ?_
      simp only at hge
      omega

/-- **Step lemma**: from a work-conserving pool an operation leads to a work-conserving pool if and only if
it is not a release with a second waiter that would fit. -/
theorem Inv.workConserving_step (ht : Inv payloadSize base size t) (hb : 0 < base) {op : Op M}
    (hW : WorkConserving payloadSize t.pool) (hop : Allowed payloadSize t op) {t' : Trace M}
    (hstep : t.step payloadSize op = some t') :
    WorkConserving payloadSize t'.pool ↔ NoSecondFits payloadSize t op := by
  rcases step_cases ht hb hop with ⟨msg, p, s', rfl, -, hp, hG, he⟩ | ⟨msg, rfl, h0, hn, hw, he⟩ |
    ⟨p, n, msg, rest, rfl, hm, hp, hle, he⟩ | ⟨p, n, rfl, hm, hlt, he⟩ <;>
    obtain rfl := Option.some.inj (he.symm.trans hstep)
  · refine ⟨fun _ => trivial, fun _ m r hmr => ?_⟩
    have hnil : (t.grant msg p s').pool.pendingAllocations = [] := hG.pending.trans hp
    exact absurd (hnil.symm.trans hmr) (by simp)
  · refine ⟨fun _ => trivial, fun _ m r hmr => ?_⟩
    have hmr' : t.pool.pendingAllocations ++ [msg] = m :: r := hmr
    cases hp : t.pool.pendingAllocations with
    | nil =>
      rw [hp] at hmr'
      obtain ⟨rfl, -⟩ := List.cons_eq_cons.mp hmr'
      exact hw.resolve_left (fun h => h hp)
    | cons m' r' =>
      rw [hp] at hmr'
      obtain ⟨rfl, -⟩ := List.cons_eq_cons.mp hmr'
      exact hW m' r' hp
  · exact ht.workConserving_serve hm hp hle
  · constructor
    · rintro - ⟨n', msg, next, rest, hm', hp, hle, -⟩
      obtain rfl : n = n' := congrArg Prod.snd (SortedMap.eq_of_mem hm hm' rfl)
      have := hlt msg _ hp
      omega
    · intro _ msg rest hp x hx
      rcases SortedMap.mem_set.mp hx with rfl | ⟨hx, -⟩
      · exact lt_of_lt_of_le (hlt msg rest hp) (le_roundUpSize _)
      · have hsub := (absorb_spec ht.pool.gap (fun y hy => ht.pool.apart y hy _ hm)
          (ht.pool.used _ hm).pos (fun y hy => (ht.pool.free y hy).pos)).1
        exact hW msg rest hp x (hsub.subset hx)

/-- **Exactly when the pool is work-conserving**: along a sequence of operations the front waiter never
waits next to a free span that is large enough if and only if no release finds a second waiter that would
fit. -/
theorem workConserving_iff (hb : base ≠ 0) (hb64 : 64 ∣ base) (hs : 0 < size) (hs64 : 64 ∣ size)
    {ops : List (Op M)}
    (hops : Guarded (Trace.step payloadSize) (Allowed payloadSize) (init base size) ops) :
    Always (Trace.step payloadSize) (fun t => WorkConserving payloadSize t.pool) (init base size) ops ↔
      Guarded (Trace.step payloadSize) (NoSecondFits payloadSize) (init base size) ops := by
  have hb0 := Nat.pos_of_ne_zero hb
  refine always_iff_guarded (I := Inv payloadSize base size) ?_ ?_ ?_ (Inv.init hs hb64 hs64) ?_ hops
  · intro t op t' hI hop he
    obtain ⟨u, hu, hIu⟩ := hI.step hb0 hop
    obtain rfl := Option.some.inj (hu.symm.trans he)
    exact hIu
  · exact fun t op t' hI hW hop he => hI.workConserving_step hb0 hW hop he
  · intro t op hI hop
    obtain ⟨u, hu, -⟩ := hI.step hb0 hop
    exact ⟨u, hu⟩
  · exact fun msg rest h => absurd h (by simp [Trace.init, SrcDataPool.init])

/-- After the release the third message waits for `64` bytes next to `192` free ones. -/
theorem workConserving_fails :
    Guarded (Trace.step id) (Allowed id) (init 64 256) threeMessages ∧
    ¬ Always (Trace.step id) (fun t => WorkConserving id t.pool) (init 64 256) threeMessages := by
  refine ⟨threeMessages_allowed, fun h => ?_⟩
  have hW := h threeMessages _ List.prefix_rfl rfl 64 [] rfl (128, 192) List.mem_cons_self
  exact absurd hW (by decide)

/-- With a single waiter the release leaves nobody behind. -/
theorem workConserving_oneWaiter : Always (Trace.step id) (fun t => WorkConserving id t.pool)
    (init 64 256) [.reserve 256, .reserve 64, .release 64] := by
  refine (workConserving_iff (by decide) (by decide) (by decide) (by decide) ?_).mpr ?_
  · refine guarded_cons rfl ⟨by decide, by decide⟩ ?_
    refine guarded_cons rfl ⟨by decide, by decide⟩ ?_
    exact guarded_cons rfl ⟨256, List.mem_cons_self⟩ trivial
  · refine guarded_cons rfl trivial (guarded_cons rfl trivial (guarded_cons rfl ?_ trivial))
    rintro ⟨n, msg, next, rest, -, hp, -⟩
    exact absurd (List.cons_eq_cons.mp hp).2 (List.cons_ne_nil _ _).symm

end Trace

end Realm.SrcDataPool

import Realm.SrcDataPool.Partition
import Realm.SrcDataPool.Spill

/-!
# Realm.SrcDataPool.Limits — the size limits of the layers

`set_payload` checks the size of a payload against `lmb_size`, unless the payload has a destination of its own;
`alloc_srcptr` and `add_pending` check it against the size of the pool.

* `reserveSrcdata`: all of `OutgoingMessage::reserve_srcdata` (`templates/activemsg_outgoing_impl.cc`), with the pool
  and without, and with the assertions of the pool apart from the others.
* `pool_reserveSrcdata`: the pool fails on what is larger than the pool, and on nothing else.
* `Passes`: what a payload, the pool and `malloc` have to be like.
* `reserve_within_limits_iff`: these are the payloads, of those that `set_payload` accepts, with which
  `reserve_srcdata` completes.
-/

namespace Realm.Limits

open Lib Spill

variable {M : Type}

/-! ## The code -/

/-- `init_srcdatapool` -/
def initSrcdatapool (base size : ℕ) : Option (SrcDataPool M) := if size > 0 then some (.init base size) else none

/-- How a call of `reserve_srcdata` ends. -/
inductive Outcome (M : Type)
  | completes (srcdatapool : Option (SrcDataPool M)) (sp : SpillBytes) (hdr : Message)
  /-- the `assert(0)` of `alloc_srcptr` or of `add_pending` -/
  | poolAsserts
  /-- an assertion of `get_contig_pointer` or `copy_data`, or `malloc` failed -/
  | otherAsserts

section Reserve

variable (mem : Memory) (sp : SpillBytes) (hdr : Message) (payloadSrc : PayloadSource) (copyPtr : Addr)

/-- The part of `reserve_srcdata` for a node without pool: the payload is used in place or copied. -/
def reserveUnpooled : Outcome M :=
  match payloadSrc.getContigPointer with
  | none => .otherAsserts
  | some contig =>
    if contig ≠ 0 ∧ hdr.payloadMode ≠ .copy then
      .completes none sp { hdr with
        payload := contig.toNat
        payloadMode := payloadSrc.getPayloadMode
        payloadSrc := none }
    else if copyPtr = 0 then .otherAsserts
    else
      match payloadSrc.copyData mem with
      | none => .otherAsserts
      | some _ =>
        .completes none sp { hdr with payload := copyPtr.toNat, payloadMode := .free, payloadSrc := none }

/-- The template `alloc_srcptr` with the pool's own answer. -/
def reservePooled (payloadSize : M → ℕ) (pool : SrcDataPool M) (msg : M) : Outcome M :=
  match pool.reserveSrcdata payloadSize msg with
  | none => .poolAsserts
  | some (srcptr, pool) =>
    match allocSrcptr mem sp hdr payloadSrc srcptr copyPtr with
    | none => .otherAsserts
    | some (sp, hdr) => .completes (some pool) sp hdr

end Reserve

/-- `OutgoingMessage::reserve_srcdata` of the message that the pool knows as `msg`. -/
def reserveSrcdata (mem : Memory) (payloadSize : M → ℕ) (srcdatapool : Option (SrcDataPool M)) (sp : SpillBytes)
    (hdr : Message) (msg : M) (copyPtr : Addr) : Outcome M :=
  if hdr.payloadMode = .none ∨ hdr.payloadMode = .empty then .completes srcdatapool sp hdr
  else
    match hdr.payloadSrc with
    | none => .otherAsserts
    | some payloadSrc =>
      match keepregPointer hdr payloadSrc with
      | none => .otherAsserts
      | some contig =>
        if contig ≠ 0 then .completes srcdatapool sp { hdr with payload := contig.toNat }
        else
          match srcdatapool with
          | some pool => reservePooled mem sp hdr payloadSrc copyPtr payloadSize pool msg
          | none => reserveUnpooled mem sp hdr payloadSrc copyPtr

def Outcome.Completes : Outcome M → Prop
  | .completes _ _ _ => True
  | .poolAsserts => False
  | .otherAsserts => False

/-! ## What passes -/

/-- The bytes of a list of spans are as many as it says. -/
def Copies : PayloadSource → Prop
  | .span spans size _ => size = spans.total
  | _ => True

/-- The pool has a span for `n` bytes, and nobody waits for it. -/
def HasRoom (pool : SrcDataPool M) (n : ℕ) : Prop :=
  pool.pendingAllocations = [] ∧ ∃ x ∈ pool.freeList, SrcDataPool.roundUpSize n ≤ x.2

section Passes

variable (payloadSrc : PayloadSource) (size : ℕ) (mode : PayloadMode) (copyPtr : Addr)

/-- The payload is copied into the pool, or out of the caller's memory if it has to wait and may not stay there. -/
def PassesPool (pool : SrcDataPool M) : Prop :=
  size ≤ pool.totalSize ∧ (HasRoom pool size → Copies payloadSrc) ∧
    (¬HasRoom pool size → mode = .copy → copyPtr ≠ 0 ∧ Copies payloadSrc)

/-- The payload is contiguous; it is used in place or copied. -/
def PassesUnpooled : Prop :=
  ∃ contig, payloadSrc.getContigPointer = some contig ∧ (contig ≠ 0 ∧ mode ≠ .copy ∨ copyPtr ≠ 0)

def PassesMoved : Option (SrcDataPool M) → Prop
  | some pool => PassesPool payloadSrc size mode copyPtr pool
  | none => PassesUnpooled payloadSrc mode copyPtr

/-- There is no payload, or it is in registered memory and contiguous, or it passes the checks of the way it takes. -/
def Passes (srcdatapool : Option (SrcDataPool M)) : Prop :=
  mode = .empty ∨ mode = .keepreg ∧ payloadSrc.getContigPointer ∉ [none, some 0] ∨
    (mode = .keepreg → payloadSrc.getContigPointer = some 0) ∧ PassesMoved payloadSrc size mode copyPtr srcdatapool

end Passes

/-! ## Addresses of the pool -/

/-- No span of the pool starts at the null pointer, which stands for failure. -/
structure NonNull (s : SrcDataPool M) : Prop where
  free : ∀ x ∈ s.freeList, x.1 ≠ 0
  used : ∀ x ∈ s.inUse, x.1 ≠ 0

theorem ne_zero_of_mem_set {m : SpanMap} {p n : ℕ} (h : ∀ x ∈ m, x.1 ≠ 0) (hp : p ≠ 0) : ∀ x ∈ m.set p n, x.1 ≠ 0 := by
  intro x hx
  rcases SortedMap.mem_set.mp hx with rfl | ⟨hx, -⟩
  · exact hp
  · exact h x hx

theorem ne_zero_of_mem_erase {m : SpanMap} {p : ℕ} (h : ∀ x ∈ m, x.1 ≠ 0) : ∀ x ∈ m.erase p, x.1 ≠ 0 :=
  fun x hx => h x (SortedMap.mem_erase.mp hx).1

/-- Absorbing only takes spans away. -/
theorem mem_of_mem_absorb {fl : SpanMap} {p n : ℕ} {x : Span} (hx : x ∈ (SrcDataPool.absorb fl p n).freeList) :
    x ∈ fl := by
  rw [SortedMap.mem_iff_below_or_above p]
  rcases List.mem_append.mp hx with hlo | hhi
  · exact .inl (List.mem_reverse.mp ((SrcDataPool.mergeBelow_suffix _ _ _).subset (List.mem_reverse.mp hlo)))
  · exact .inr ((SrcDataPool.mergeAbove_suffix _ _ _).subset hhi)

theorem mergeBelow_ne_zero {l : List Span} {p n : ℕ} (hl : ∀ x ∈ l, x.1 ≠ 0) (hp : p ≠ 0) :
    (SrcDataPool.mergeBelow l p n).2.1 ≠ 0 := by
  induction l generalizing p n with
  | nil => exact hp
  | cons x l ih =>
    unfold SrcDataPool.mergeBelow
    split_ifs with h
    · exact hp
    · exact ih (fun y hy => hl y (List.mem_cons_of_mem _ hy)) (hl x List.mem_cons_self)

namespace NonNull

variable {payloadSize : M → ℕ} {s s' : SrcDataPool M}

theorem init {base : ℕ} (hb : base ≠ 0) (size : ℕ) : NonNull (SrcDataPool.init base size : SrcDataPool M) := by
  refine ⟨fun x hx => ?_, fun x hx => nomatch hx⟩
  obtain rfl : x = (base, size) := SortedMap.mem_singleton.mp hx
  exact hb

theorem allocSrcptr (h : NonNull s) {n p : ℕ} (he : s.allocSrcptr n = some (p, s')) : NonNull s' := by
  by_cases hn : n ≤ s.totalSize
  · by_cases hp : s.pendingAllocations = []
    · rcases SrcDataPool.allocSrcptr_cases_of_ne h.free hn hp with ⟨q, hm, he'⟩ | ⟨q, z, hm, -, -, he'⟩ | ⟨-, he'⟩
      · obtain ⟨rfl, rfl⟩ := Prod.mk.inj (Option.some.inj (he'.symm.trans he))
        exact ⟨ne_zero_of_mem_erase h.free, ne_zero_of_mem_set h.used (h.free _ hm)⟩
      · obtain ⟨rfl, rfl⟩ := Prod.mk.inj (Option.some.inj (he'.symm.trans he))
        have hq : q ≠ 0 := h.free _ hm
        exact ⟨ne_zero_of_mem_set h.free hq, ne_zero_of_mem_set h.used (by omega)⟩
      · obtain ⟨rfl, rfl⟩ := Prod.mk.inj (Option.some.inj (he'.symm.trans he))
        exact h
    · rw [SrcDataPool.allocSrcptr_of_pending hn hp] at he
      obtain ⟨rfl, rfl⟩ := Prod.mk.inj (Option.some.inj he)
      exact h
  · rw [SrcDataPool.allocSrcptr, if_pos (by omega)] at he
    cases he

theorem servePending (h : NonNull s) {fuel : ℕ} {satisfied out : List (M × ℕ)}
    (he : SrcDataPool.servePending payloadSize fuel s satisfied = some (s', out)) : NonNull s' := by
  induction fuel generalizing s satisfied with
  | zero =>
    obtain ⟨rfl, rfl⟩ := Prod.mk.inj (Option.some.inj he)
    exact h
  | succ fuel ih =>
    unfold SrcDataPool.servePending at he
    split at he
    · obtain ⟨rfl, rfl⟩ := Prod.mk.inj (Option.some.inj he)
      exact h
    · obtain ⟨⟨p, t⟩, halloc, he⟩ := Option.bind_eq_some_iff.mp he
      have ht := h.allocSrcptr halloc
      dsimp only at he
      split at he
      · obtain ⟨rfl, rfl⟩ := Prod.mk.inj (Option.some.inj he)
        exact ht
      · have htail : NonNull { t with pendingAllocations := t.pendingAllocations.tail } := ⟨ht.free, ht.used⟩
        exact ih htail he

theorem releaseSrcptr (h : NonNull s) {p : ℕ} {out : List (M × ℕ)}
    (he : s.releaseSrcptr payloadSize p = some (s', out)) : NonNull s' := by
  unfold SrcDataPool.releaseSrcptr at he
  obtain ⟨size, hfind, he⟩ := Option.bind_eq_some_iff.mp he
  have hp : p ≠ 0 := h.used _ (SortedMap.find_eq_some.mp hfind)
  have hused := ne_zero_of_mem_erase (p := p) h.used
  have hfree : ∀ x ∈ (SrcDataPool.absorb s.freeList p size).freeList, x.1 ≠ 0 :=
    fun x hx => h.free x (mem_of_mem_absorb hx)
  have hptr : (SrcDataPool.absorb s.freeList p size).srcptr ≠ 0 :=
    mergeBelow_ne_zero
      (fun x hx => h.free x ((SortedMap.mem_iff_below_or_above p).mpr (.inl (List.mem_reverse.mp hx)))) hp
  dsimp only at he
  split at he
  · cases he
  · split at he
    · split at he
      · refine NonNull.servePending ⟨?_, ne_zero_of_mem_set hused hptr⟩ he
        split
        · exact ne_zero_of_mem_set hfree (by omega)
        · exact hfree
      · obtain ⟨rfl, rfl⟩ := Prod.mk.inj (Option.some.inj he)
        exact ⟨ne_zero_of_mem_set hfree hptr, hused⟩
    · obtain ⟨rfl, rfl⟩ := Prod.mk.inj (Option.some.inj he)
      exact ⟨ne_zero_of_mem_set hfree hptr, hused⟩

theorem step {t t' : SrcDataPool.Trace M} (h : NonNull t.pool) {op : SrcDataPool.Op M}
    (he : t.step payloadSize op = some t') : NonNull t'.pool := by
  cases op with
  | reserve msg =>
    obtain ⟨⟨p, s⟩, hreserve, he⟩ := Option.bind_eq_some_iff.mp he
    obtain ⟨⟨q, u⟩, halloc, hreserve⟩ := Option.bind_eq_some_iff.mp hreserve
    have hu := h.allocSrcptr halloc
    have hs : NonNull s := by
      dsimp only at hreserve
      split at hreserve
      · obtain ⟨rfl, rfl⟩ := Prod.mk.inj (Option.some.inj hreserve)
        exact hu
      · obtain ⟨v, hadd, hreserve⟩ := Option.bind_eq_some_iff.mp hreserve
        obtain ⟨rfl, rfl⟩ := Prod.mk.inj (Option.some.inj hreserve)
        unfold SrcDataPool.addPending at hadd
        split at hadd
        · cases hadd
        · obtain rfl := Option.some.inj hadd
          exact ⟨hu.free, hu.used⟩
    dsimp only at he
    split at he
    · obtain rfl := Option.some.inj he
      exact hs
    · obtain rfl := Option.some.inj he
      exact hs
  | release p =>
    obtain ⟨⟨s, out⟩, hrelease, he⟩ := Option.bind_eq_some_iff.mp he
    obtain rfl := Option.some.inj he
    exact h.releaseSrcptr hrelease

end NonNull

/-- A pool as a node can have it: memory at `base`, and some operations on it. -/
def Reached (payloadSize : M → ℕ) (pool : SrcDataPool M) : Prop :=
  ∃ base size ops t, base ≠ 0 ∧ run (SrcDataPool.Trace.step payloadSize) (.init base size) ops = some t ∧ t.pool = pool

theorem Reached.nonNull {payloadSize : M → ℕ} {pool : SrcDataPool M} (h : Reached payloadSize pool) :
    NonNull pool := by
  obtain ⟨base, size, ops, t, hb, hrun, rfl⟩ := h
  exact run_inv (fun _ _ _ hs he => NonNull.step hs he) (NonNull.init hb size) hrun

/-! ## The checks of the pool -/

/-- **The pool fails on a payload that is larger than the pool, and on no other**; it answers with a pointer if it has
room. -/
theorem pool_reserveSrcdata {s : SrcDataPool M} (hs : NonNull s) (payloadSize : M → ℕ) (msg : M) :
    (s.totalSize < payloadSize msg ∧ s.reserveSrcdata payloadSize msg = none) ∨
      payloadSize msg ≤ s.totalSize ∧ ∃ p s', s.reserveSrcdata payloadSize msg = some (p, s') ∧
        (p ≠ 0 ↔ HasRoom s (payloadSize msg)) := by
  by_cases hn : payloadSize msg ≤ s.totalSize
  · refine .inr ⟨hn, ?_⟩
    -- a payload that has to wait passes the check of `add_pending` again
    have hwaits : s.allocSrcptr (payloadSize msg) = some (0, s) → ¬HasRoom s (payloadSize msg) →
        ∃ p s', s.reserveSrcdata payloadSize msg = some (p, s') ∧ (p ≠ 0 ↔ HasRoom s (payloadSize msg)) := by
      intro halloc hroom
      refine ⟨0, { s with pendingAllocations := s.pendingAllocations ++ [msg] }, ?_, ?_⟩
      · rw [SrcDataPool.reserveSrcdata, halloc, Option.bind_eq_bind, Option.bind_some]
        dsimp only
        rw [if_neg (not_not.mpr rfl), SrcDataPool.addPending, if_neg (by omega)]
        rfl
      · exact iff_of_false (by simp) hroom
    have hgets : ∀ p s', p ≠ 0 → s.allocSrcptr (payloadSize msg) = some (p, s') → HasRoom s (payloadSize msg) →
        ∃ p s', s.reserveSrcdata payloadSize msg = some (p, s') ∧ (p ≠ 0 ↔ HasRoom s (payloadSize msg)) := by
      intro p s' hp halloc hroom
      refine ⟨p, s', ?_, iff_of_true hp hroom⟩
      rw [SrcDataPool.reserveSrcdata, halloc, Option.bind_eq_bind, Option.bind_some]
      exact if_pos hp
    by_cases hp : s.pendingAllocations = []
    · rcases SrcDataPool.allocSrcptr_cases_of_ne hs.free hn hp with ⟨q, hm, he⟩ | ⟨q, z, hm, hlt, -, he⟩ | ⟨hsmall, he⟩
      · exact hgets _ _ (hs.free _ hm) he ⟨hp, _, hm, le_rfl⟩
      · have hq : q ≠ 0 := hs.free _ hm
        exact hgets _ _ (by omega) he ⟨hp, _, hm, hlt.le⟩
      · refine hwaits he fun hroom => ?_
        obtain ⟨x, hx, hle⟩ := hroom.2
        exact absurd (hsmall x hx) (by omega)
    · exact hwaits (SrcDataPool.allocSrcptr_of_pending hn hp) fun hroom => hp hroom.1
  · refine .inl ⟨by omega, ?_⟩
    rw [SrcDataPool.reserveSrcdata, SrcDataPool.allocSrcptr, if_pos (by omega)]
    rfl

section Reserve

variable (mem : Memory) (sp : SpillBytes) (hdr : Message) (payloadSrc : PayloadSource) (copyPtr : Addr)

theorem copyData_isSome_iff : (payloadSrc.copyData mem).isSome ↔ Copies payloadSrc := by
  cases payloadSrc with
  | contiguous srcptr size mode => exact iff_of_true rfl trivial
  | twoD srcptr lineSize lineCount lineStride mode => exact iff_of_true rfl trivial
  | span spans size mode =>
    rw [PayloadSource.copyData, PayloadSource.copySpans_eq, Copies]
    split <;> simp [*]

theorem allocSrcptr_isSome_iff (srcptr : ℕ) :
    (allocSrcptr mem sp hdr payloadSrc srcptr copyPtr).isSome ↔
      (srcptr ≠ 0 → Copies payloadSrc) ∧ (srcptr = 0 → hdr.payloadMode = .copy → copyPtr ≠ 0 ∧ Copies payloadSrc) := by
  rw [← copyData_isSome_iff mem payloadSrc, allocSrcptr]
  by_cases hptr : srcptr = 0
  · rw [if_neg (by simpa using hptr)]
    by_cases hcopy : hdr.payloadMode = .copy
    · rw [if_pos hcopy]
      by_cases hmalloc : copyPtr = 0
      · simp [hptr, hcopy, hmalloc]
      · rw [if_neg hmalloc, and_iff_right hmalloc]
        cases payloadSrc.copyData mem <;> simp [hptr, hcopy]
    · simp [hptr, hcopy]
  · rw [if_pos hptr]
    cases payloadSrc.copyData mem <;> simp [hptr]

theorem reservePooled_completes_iff (payloadSize : M → ℕ) {pool : SrcDataPool M} (hpool : NonNull pool) (msg : M) :
    (reservePooled mem sp hdr payloadSrc copyPtr payloadSize pool msg).Completes ↔
      PassesPool payloadSrc (payloadSize msg) hdr.payloadMode copyPtr pool := by
  rw [reservePooled, PassesPool]
  rcases pool_reserveSrcdata hpool payloadSize msg with ⟨hbig, hnone⟩ | ⟨hle, p, pool', hsome, hroom⟩
  · rw [hnone]
    exact iff_of_false id fun h => absurd h.1 (by omega)
  · have halloc := allocSrcptr_isSome_iff mem sp hdr payloadSrc copyPtr p
    rw [hroom, ← not_not (a := p = 0), ← ne_eq, hroom] at halloc
    rw [hsome, and_iff_right hle, ← halloc]
    dsimp only
    cases allocSrcptr mem sp hdr payloadSrc p copyPtr <;> simp [Outcome.Completes]

theorem reserveUnpooled_completes_iff :
    (reserveUnpooled mem sp hdr payloadSrc copyPtr : Outcome M).Completes ↔
      PassesUnpooled payloadSrc hdr.payloadMode copyPtr := by
  rw [reserveUnpooled, PassesUnpooled]
  cases hcontig : payloadSrc.getContigPointer with
  | none => simp [Outcome.Completes]
  | some contig =>
    have hcopies : Copies payloadSrc := by
      cases payloadSrc with
      | span spans size mode => cases hcontig
      | contiguous srcptr size mode => trivial
      | twoD srcptr lineSize lineCount lineStride mode => trivial
    obtain ⟨bytes, hbytes⟩ := Option.isSome_iff_exists.mp ((copyData_isSome_iff mem payloadSrc).mpr hcopies)
    dsimp only
    by_cases hplace : contig ≠ 0 ∧ hdr.payloadMode ≠ .copy
    · rw [if_pos hplace]
      exact iff_of_true trivial ⟨contig, rfl, .inl hplace⟩
    · rw [if_neg hplace]
      by_cases hmalloc : copyPtr = 0
      · rw [if_pos hmalloc]
        refine iff_of_false id ?_
        rintro ⟨contig', heq, h | h⟩
        · obtain rfl := Option.some.inj heq
          exact hplace h
        · exact h hmalloc
      · rw [if_neg hmalloc, hbytes]
        exact iff_of_true trivial ⟨contig, rfl, .inr hmalloc⟩

end Reserve

theorem reserveSrcdata_completes_iff {mem : Memory} {payloadSize : M → ℕ} {srcdatapool : Option (SrcDataPool M)}
    {sp : SpillBytes} {hdr : Message} {payloadSrc : PayloadSource} {msg : M} {copyPtr : Addr}
    (hnone : hdr.payloadMode ≠ .none) (hsrc : hdr.payloadSrc = some payloadSrc)
    (hpool : ∀ pool, srcdatapool = some pool → NonNull pool) :
    (reserveSrcdata mem payloadSize srcdatapool sp hdr msg copyPtr).Completes ↔
      Passes payloadSrc (payloadSize msg) hdr.payloadMode copyPtr srcdatapool := by
  unfold reserveSrcdata
  by_cases hempty : hdr.payloadMode = .empty
  · rw [if_pos (.inr hempty)]
    exact iff_of_true trivial (.inl hempty)
  rw [if_neg (not_or.mpr ⟨hnone, hempty⟩), hsrc]
  unfold Passes
  rw [or_iff_right hempty]
  dsimp only
  -- the ways of a payload that does not stay where it is
  have hmoves : (match srcdatapool with
      | some pool => reservePooled mem sp hdr payloadSrc copyPtr payloadSize pool msg
      | none => reserveUnpooled mem sp hdr payloadSrc copyPtr).Completes ↔
      PassesMoved payloadSrc (payloadSize msg) hdr.payloadMode copyPtr srcdatapool := by
    cases srcdatapool with
    | none => exact reserveUnpooled_completes_iff mem sp hdr payloadSrc copyPtr
    | some pool => exact reservePooled_completes_iff mem sp hdr payloadSrc copyPtr payloadSize (hpool pool rfl) msg
  by_cases hreg : hdr.payloadMode = .keepreg
  · rw [keepregPointer, if_pos hreg]
    cases hcontig : payloadSrc.getContigPointer with
    | none => simp [hreg, Outcome.Completes]
    | some contig =>
      dsimp only
      by_cases hzero : contig = 0
      · rw [if_neg (not_not.mpr hzero), hmoves]
        simp [hzero]
      · rw [if_pos hzero]
        exact iff_of_true trivial (.inl ⟨hreg, by simpa using hzero⟩)
  · rw [keepregPointer, if_neg hreg]
    dsimp only
    rw [if_neg (by simp), hmoves]
    simp [hreg]

/-! ## The layers together -/

/-- **A payload that `set_payload` accepts passes `reserve_srcdata` if and only if** it is not larger than the pool, or
is not taken there; it is contiguous where that is needed; and it can be copied where it has to be. -/
theorem reserve_within_limits_iff {c : Config} {hdr hdr' : Message} {payloadSrc : PayloadSource} {size : ℕ}
    {mode : PayloadMode} {dstptr : ℕ} (h : hdr.setPayload c payloadSrc size mode dstptr = some hdr') (mem : Memory)
    {srcdatapool : Option (SrcDataPool (ℕ × ℕ))} (hpool : ∀ pool, srcdatapool = some pool → Reached Prod.snd pool)
    (sp : SpillBytes) (id : ℕ) (copyPtr : Addr) :
    (reserveSrcdata mem Prod.snd srcdatapool sp hdr' (id, hdr'.payloadSize) copyPtr).Completes ↔
      Passes payloadSrc size mode copyPtr srcdatapool := by
  obtain ⟨hmode, -, rfl⟩ := Message.setPayload_eq_some h
  exact reserveSrcdata_completes_iff hmode rfl fun pool heq => (hpool pool heq).nonNull

/-- A node whose LMBs have 64 bytes. -/
def smallNode : Config := ⟨0, 64, fun _ => false⟩

/-- `set_payload` of `size` bytes at 4096 for the destination `dstptr`, as `do_remote_write` asks for it. -/
def remoteWrite (size dstptr : ℕ) : Option Message :=
  (Message.new 150 [7, 8]).setPayload smallNode (.contiguous 4096 size .copy) size .copy dstptr

/-- 64 bytes pass the checks of a pool of 128. -/
theorem reserve_within_limits_fits :
    ∃ hdr, remoteWrite 64 0 = some hdr ∧
      (reserveSrcdata (fun _ => 0) Prod.snd (initSrcdatapool 1024 128) .init hdr (0, hdr.payloadSize)
        512).Completes := by
  obtain ⟨hdr, hset⟩ : ∃ hdr, remoteWrite 64 0 = some hdr := ⟨_, rfl⟩
  have hpool : ∀ pool : SrcDataPool (ℕ × ℕ), initSrcdatapool 1024 128 = some pool → Reached Prod.snd pool := by
    intro pool hpool
    exact ⟨1024, 128, [], .init 1024 128, by decide, rfl, Option.some.inj hpool⟩
  refine ⟨hdr, hset, (reserve_within_limits_iff hset _ hpool _ _ _).mpr (.inr (.inr ⟨?_, ?_⟩))⟩
  · decide
  · exact ⟨by decide, fun _ => trivial, fun _ _ => ⟨by decide, trivial⟩⟩

/-- 192 bytes for an RDMA destination: `set_payload` accepts them, and the pool of 128 fails. -/
theorem reserve_beyond_limits_fails :
    ¬ ∀ hdr, remoteWrite 192 65536 = some hdr →
      (reserveSrcdata (fun _ => 0) Prod.snd (initSrcdatapool 1024 128) .init hdr (0, hdr.payloadSize)
        512).Completes := by
  intro h
  exact h _ rfl

end Realm.Limits

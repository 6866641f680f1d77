import Realm.Lib.Overlay
import Realm.SrcDataPool.CopyInv

/-!
# Realm.SrcDataPool.CopyRuns — the copies, and what is sent after every sequence of steps

* `Inv.reserve`: `reserve_srcdata` leaves a payload in registered memory, or copies it to a span of the pool, or to a
  block if the pool has none.
* `Inv.send`, `Inv.release`, `Inv.assign`: the way of a span from one message to another.
* `copy_semantics`: what holds after every run of sound calls.
* `not_correct_freeEmpty`: a buffer that is given away with a size of zero is never freed.
-/

namespace Realm.Copy

open Lib Spill

section Steps

variable {c : Config} {ec : EndpointConfig} {base size : ℕ} {st st' : State} {id : ℕ} {call : Call} {hdr hdr' : Message}

/-- What is known of a message that `reserve_srcdata` takes to the pool. -/
theorem Inv.entering (h : Inv base size st) (hid : st.msgs id = some hdr) (hphase : hdr.phase = .spilled)
    {src : PayloadSource} (hpooled : State.pooled hdr = some src) (hsrc : hdr.payloadSrc = some src) :
    ∃ target call, st.call id = some (target, call) ∧
      (call.payloadMode = .copy ↔ hdr.payloadMode = .copy) ∧ Carries st id call hdr src ∧
      (src.getPayloadMode = .free → hdr.payloadMode = .free) ∧ st.malloced id = none := by
  obtain ⟨target, call, hcall, hok⟩ := h.messages id hdr hid
  cases hok with
  | empty _ hmode =>
    rw [State.pooled, if_pos hmode] at hpooled
    cases hpooled
  | entering _ _ hcopy hcarries hfree _ _ hmalloced =>
    obtain rfl := Option.some.inj (hsrc.symm.trans hcarries.payloadSrc)
    exact ⟨target, call, hcall, hcopy, hcarries, hfree, hmalloced⟩
  | registered hq => rw [hphase] at hq; cases hq
  | waiting hq => rw [hphase] at hq; cases hq
  | placed hq => rw [hphase] at hq; cases hq

/-- `reserve_srcdata` for a payload that stays where it is -/
theorem Inv.reserve_unpooled (h : Inv base size st) (hid : st.msgs id = some hdr) (hphase : hdr.phase = .spilled)
    {target : ℕ} {copyPtr : Addr} {spill : SpillBytes} (hpooled : State.pooled hdr = none)
    (hres : reserveSrcdata st.mem st.spill hdr 0 copyPtr = some (spill, hdr')) :
    Inv base size (st.queued target id spill hdr') := by
  obtain ⟨hphase', hsize, hmode', hwhy⟩ := reserveSrcdata_unpooled hpooled hres
  obtain ⟨target₀, call, hcall, hok⟩ := h.messages id hdr hid
  have hkeep : ∀ i hdr₁, Keeps base size st (st.queued target id spill hdr') i hdr₁ := fun i hdr₁ =>
    Keeps.of_mem_eq rfl rfl rfl rfl fun _ _ ho _ => ho
  have hnew : Ok base size (st.queued target id spill hdr') id call hdr' := by
    cases hok.keep (hkeep id hdr) with
    | empty hz hm hf hp => exact .empty (hsize.trans hz) (hmode'.symm ▸ hm) hf hp
    | entering _ hm _ hcarries _ hkeepreg =>
      have hreg : hdr.payloadMode = .keepreg := by
        rcases hwhy with hw | hw | hw
        · rw [hw] at hm
          simp at hm
        · rw [hw] at hm
          simp at hm
        · exact hw
      exact .registered hphase' (hmode'.trans hreg) (hkeepreg hreg) hcarries.freed
    | registered hq => rw [hphase] at hq; cases hq
    | waiting hq => rw [hphase] at hq; cases hq
    | placed hq => rw [hphase] at hq; cases hq
  refine h.queued hid hphase hcall rfl ?_ h.pool (fun _ ho => ho) (fun i hdr₁ _ _ => hkeep i hdr₁) hnew hphase'
    (.inl rfl) (fun p n hp => h.block hp) fun p => h.freed id target₀ call p hcall
  exact ⟨fun i hi => Function.update_of_ne hi _ _, fun _ _ => rfl, fun _ _ => rfl, fun _ _ => rfl, fun _ _ => rfl,
    le_rfl, h.lt_next hid⟩

/-- `reserve_srcdata` for a payload that is copied to the span at `srcptr` -/
theorem Inv.reserve_span (h : Inv base size st) (htop : base + size ≤ 2 ^ 64) (hid : st.msgs id = some hdr)
    (hphase : hdr.phase = .spilled) {src : PayloadSource} (hpooled : State.pooled hdr = some src) {target srcptr : ℕ}
    {copyPtr : Addr} {spill : SpillBytes} {pool : SrcDataPool.Trace (ℕ × ℕ)} {mem : Memory}
    {freed : List (Addr × List Byte)} (hne : srcptr ≠ 0)
    (hres : reserveSrcdata st.mem st.spill hdr srcptr copyPtr = some (spill, hdr'))
    (hpool : pool.Inv Prod.snd base size) (howners : pool.owners = st.pool.owners ++ [((id, hdr.payloadSize), srcptr)])
    (hpending : pool.pool.pendingAllocations = st.pool.pool.pendingAllocations)
    (hcopy : copyTo st.mem src (BitVec.ofNat 64 srcptr) = some (mem, freed)) :
    Inv base size ({ st with
      mem := mem
      pool := pool
      freed := Function.update st.freed id (st.freed id ++ freed) : State }.queued target id spill hdr') := by
  obtain ⟨hsrc, hphase', hsize, hwhere⟩ := reserveSrcdata_pooled hpooled hres
  obtain ⟨-, hmode', hpayload⟩ := hwhere.resolve_right fun hz => hne hz.1
  obtain ⟨target₀, call, hcall, -, hcarries, -, hmalloced⟩ := h.entering hid hphase hpooled hsrc
  have howner : ((id, hdr.payloadSize), srcptr) ∈ pool.owners := by
    rw [howners]
    exact List.mem_append_right _ List.mem_cons_self
  have hold : ∀ o ∈ st.pool.owners, o ∈ pool.owners := fun o ho => howners ▸ List.mem_append_left _ ho
  have habout : About st ({ st with
      mem := mem
      pool := pool
      freed := Function.update st.freed id (st.freed id ++ freed) : State }.queued target id spill hdr') id :=
    ⟨fun i hi => Function.update_of_ne hi _ _, fun _ _ => rfl, fun _ _ => rfl,
      fun i hi => Function.update_of_ne hi _ _, fun _ _ => rfl, le_rfl, h.lt_next hid⟩
  refine h.queued hid hphase hcall rfl habout hpool hold ?_ ?_ hphase' (.inl hpending) ?_ ?_
  · refine h.keeps_span htop hpool habout howner rfl (fun a ha => ?_) hold fun a hp => hp
    exact copyTo_outside hcopy (hcarries.length ▸ ha)
  · have hfits : hdr.payloadSize ≤ 2 ^ 64 := by
      obtain ⟨z, -, hle, -, hhi⟩ := owner_span hpool howner
      simp only at hle hhi
      omega
    refine .placed hphase' hmode' (hsize.symm ▸ hcarries.pos) ?_ ?_
    · rw [hsize, hpayload]
      exact howner
    · rw [hsize, hpayload]
      exact hcarries.place hcopy hfits (Function.update_self ..) rfl
  · intro p n hp
    rw [hmalloced] at hp
    cases hp
  · intro p hp
    rw [Function.update_self]
    exact .inr (hcarries.freedOnce hcopy hp)

/-- `reserve_srcdata` for a payload that is copied to the block at `copyPtr` -/
theorem Inv.reserve_block (h : Inv base size st) (htop : base + size ≤ 2 ^ 64) (hid : st.msgs id = some hdr)
    (hphase : hdr.phase = .spilled) {src : PayloadSource} (hpooled : State.pooled hdr = some src)
    (hmode : hdr.payloadMode = .copy) {target : ℕ} {copyPtr : Addr} {spill : SpillBytes}
    {pool : SrcDataPool.Trace (ℕ × ℕ)} {mem : Memory} {freed : List (Addr × List Byte)}
    (henv : Environment c base size st (.reserve id copyPtr))
    (hres : reserveSrcdata st.mem st.spill hdr 0 copyPtr = some (spill, hdr')) (hpool : pool.Inv Prod.snd base size)
    (howners : pool.owners = st.pool.owners)
    (hpending : pool.pool.pendingAllocations = st.pool.pool.pendingAllocations ++ [(id, hdr.payloadSize)])
    (hcopy : copyTo st.mem src copyPtr = some (mem, freed)) :
    Inv base size ({ st with
      mem := mem
      pool := pool
      malloced := Function.update st.malloced id (some (copyPtr, hdr.payloadSize))
      freed := Function.update st.freed id (st.freed id ++ freed) : State }.queued target id spill hdr') := by
  obtain ⟨hfits, hblock⟩ := henv hdr hid hmode
  obtain ⟨hsrc, hphase', hsize, hwhere⟩ := reserveSrcdata_pooled hpooled hres
  obtain ⟨-, hmode', hsrc'⟩ := hwhere.resolve_left fun hz => hz.1 rfl
  rw [if_pos hmode] at hsrc'
  obtain ⟨target₀, call, hcall, hiff, hcarries, hfree, hmalloced⟩ := h.entering hid hphase hpooled hsrc
  have hold : ∀ o ∈ st.pool.owners, o ∈ pool.owners := fun o ho => howners.symm ▸ ho
  -- the payload of the caller stays the caller's
  have hnofree : freed = [] := by
    obtain ⟨bytes, -, -, rfl⟩ := copyTo_cases hcopy
    rw [if_neg fun hf => by rw [hfree hf] at hmode; cases hmode]
    rfl
  have hnot : ∀ p, ¬Frees p call := by
    intro p hp
    have := hiff.mpr hmode
    rw [hp.mode] at this
    cases this
  subst hnofree
  have habout : About st ({ st with
      mem := mem
      pool := pool
      malloced := Function.update st.malloced id (some (copyPtr, hdr.payloadSize))
      freed := Function.update st.freed id (st.freed id ++ []) : State }.queued target id spill hdr') id :=
    ⟨fun i hi => Function.update_of_ne hi _ _, fun _ _ => rfl, fun _ _ => rfl,
      fun i hi => Function.update_of_ne hi _ _, fun i hi => Function.update_of_ne hi _ _, le_rfl, h.lt_next hid⟩
  refine h.queued hid hphase hcall rfl habout hpool hold ?_ ?_ hphase'
    (.inr ⟨by rw [hpending, hsize], hmode'⟩) ?_ fun p hp => absurd hp (hnot p)
  · refine h.keeps_block htop habout hblock (fun a ha => copyTo_outside hcopy (hcarries.length ▸ ha)) hold ?_
    rintro a (hin | ⟨i, p, n, hp, ha⟩)
    · exact .inr (.inl hin)
    · change Function.update st.malloced id _ i = _ at hp
      rcases eq_or_ne i id with rfl | hi
      · rw [Function.update_self, Option.some.injEq, Prod.mk.injEq] at hp
        obtain ⟨rfl, rfl⟩ := hp
        exact .inl ha
      · rw [Function.update_of_ne hi] at hp
        exact .inr (.inr ⟨i, p, n, hp, ha⟩)
  · obtain ⟨bytes, hbytes, rfl, -⟩ := copyTo_cases hcopy
    have hlen : bytes.length = hdr.payloadSize := (PayloadSource.copyData_length hbytes).trans hcarries.length
    refine .waiting hphase' hmode' ⟨hsize.symm ▸ hcarries.pos, hsrc', hsize.symm, ?_, ?_, ?_⟩ ?_
    · intro hc bytes' hbytes'
      have hread : bytes' = cellsAt (storeCells st.mem copyPtr bytes) copyPtr hdr.payloadSize :=
        (Option.some.inj hbytes').symm
      rw [hread, ← hlen, cellsAt_storeCells (by omega)]
      exact hcarries.copy hc bytes hbytes
    · exact fun p hp => absurd hp (hnot p)
    · show Function.update st.freed id _ id = _
      rw [Function.update_self, hcarries.freed]
      rfl
    · exact fun _ => ⟨copyPtr, by rw [hsize], by rw [hsize]; exact Function.update_self ..⟩
  · intro p n hp a ha
    change Function.update st.malloced id _ id = _ at hp
    rw [Function.update_self, Option.some.injEq, Prod.mk.injEq] at hp
    obtain ⟨rfl, rfl⟩ := hp
    have hout := (hblock a ha).1
    exact ⟨fun hin => hout (.inl hin), fun i q k _ hq hin => hout (.inr ⟨i, q, k, hq, hin⟩)⟩

/-- `reserve_srcdata` for a payload that has to wait and is not to be copied -/
theorem Inv.reserve_wait (h : Inv base size st) (hid : st.msgs id = some hdr) (hphase : hdr.phase = .spilled)
    {src : PayloadSource} (hpooled : State.pooled hdr = some src) (hmode : hdr.payloadMode ≠ .copy) {target : ℕ}
    {copyPtr : Addr} {spill : SpillBytes} {pool : SrcDataPool.Trace (ℕ × ℕ)}
    (hres : reserveSrcdata st.mem st.spill hdr 0 copyPtr = some (spill, hdr')) (hpool : pool.Inv Prod.snd base size)
    (howners : pool.owners = st.pool.owners)
    (hpending : pool.pool.pendingAllocations = st.pool.pool.pendingAllocations ++ [(id, hdr.payloadSize)]) :
    Inv base size ({ st with pool := pool : State }.queued target id spill hdr') := by
  obtain ⟨hsrc, hphase', hsize, hwhere⟩ := reserveSrcdata_pooled hpooled hres
  obtain ⟨-, hmode', hsrc'⟩ := hwhere.resolve_left fun hz => hz.1 rfl
  rw [if_neg hmode] at hsrc'
  obtain ⟨target₀, call, hcall, hiff, hcarries, -, hmalloced⟩ := h.entering hid hphase hpooled hsrc
  have hold : ∀ o ∈ st.pool.owners, o ∈ pool.owners := fun o ho => howners.symm ▸ ho
  refine h.queued hid hphase hcall rfl ?_ hpool hold ?_ ?_ hphase'
    (.inr ⟨by rw [hpending, hsize], hmode'⟩) ?_ fun p hp => h.freed id target₀ call p hcall hp
  · exact ⟨fun i hi => Function.update_of_ne hi _ _, fun _ _ => rfl, fun _ _ => rfl, fun _ _ => rfl, fun _ _ => rfl,
      le_rfl, h.lt_next hid⟩
  · exact fun i hdr₁ _ _ => Keeps.of_mem_eq rfl rfl rfl rfl fun _ o ho _ => hold o ho
  · refine .waiting hphase' hmode' ⟨hsize.symm ▸ hcarries.pos, hsrc', hsize.symm ▸ hcarries.length, hcarries.copy,
      hsize.symm ▸ hcarries.free, hcarries.freed⟩ fun hc => absurd (hiff.mp hc) hmode
  · intro p n hp
    rw [hmalloced] at hp
    cases hp

/-- **The section under the lock** of the endpoint -/
theorem Inv.reserve {copyPtr : Addr} (h : Inv base size st) (hbase : 0 < base) (htop : base + size ≤ 2 ^ 64)
    (henv : Environment c base size st (.reserve id copyPtr)) (hstep : st.reserve id copyPtr = some st') :
    Inv base size st' := by
  obtain ⟨hdr, hid, hstep⟩ := Option.bind_eq_some_iff.mp hstep
  obtain ⟨⟨target, call⟩, hcall, hstep⟩ := Option.bind_eq_some_iff.mp hstep
  obtain ⟨hphase, hstep⟩ := Option.ite_none_right_eq_some.mp hstep
  split at hstep
  · rename_i hpooled
    obtain ⟨⟨spill, hdr'⟩, hres, hstep⟩ := Option.bind_eq_some_iff.mp hstep
    obtain rfl := Option.some.inj hstep
    exact h.reserve_unpooled hid hphase hpooled hres
  · rename_i src hpooled
    obtain ⟨⟨srcptr, s⟩, hreserve, hstep⟩ := Option.bind_eq_some_iff.mp hstep
    obtain ⟨pool, hpool, hstep⟩ := Option.bind_eq_some_iff.mp hstep
    obtain ⟨⟨spill, hdr'⟩, hres, hstep⟩ := Option.bind_eq_some_iff.mp hstep
    obtain ⟨hsrc, -⟩ := reserveSrcdata_pooled hpooled hres
    obtain ⟨_, _, -, -, hcarries, -⟩ := h.entering hid hphase hpooled hsrc
    dsimp only at hstep
    obtain ⟨hinv, ⟨hne, howners, hpending⟩ | ⟨rfl, howners, hpending⟩⟩ :=
      reserve_spec h.pool hbase hcarries.pos hreserve hpool
    · rw [if_pos hne] at hstep
      obtain ⟨⟨mem, freed⟩, hcopy, hstep⟩ := Option.bind_eq_some_iff.mp hstep
      obtain rfl := Option.some.inj hstep
      exact h.reserve_span htop hid hphase hpooled hne hres hinv howners hpending hcopy
    · rw [if_neg (not_not_intro rfl)] at hstep
      split at hstep
      · rename_i hmode
        obtain ⟨⟨mem, freed⟩, hcopy, hstep⟩ := Option.bind_eq_some_iff.mp hstep
        obtain rfl := Option.some.inj hstep
        exact h.reserve_block htop hid hphase hpooled hmode henv hres hinv howners hpending hcopy
      · rename_i hmode
        obtain rfl := Option.some.inj hstep
        exact h.reserve_wait hid hphase hpooled hmode hres hinv howners hpending

/-- What is sent is right, and nothing is left for the destructor to free. -/
theorem Ok.send (h : Ok base size st id call hdr) (hphase : hdr.phase = .queued) (hmode : hdr.payloadMode ≠ .pending) :
    (hdr.payloadMode ≠ .copy ∧ hdr.payloadMode ≠ .free) ∧
      Placed st id call (cellsAt st.mem (BitVec.ofNat 64 hdr.payload) hdr.payloadSize) ∧
      (hdr.payloadMode = .srcptr → ((id, hdr.payloadSize), hdr.payload) ∈ st.pool.owners) := by
  cases h with
  | empty hsize hm _ hplaced =>
    rw [hsize]
    rcases hm with hm | hm
    all_goals exact ⟨by simp [hm], hplaced, by simp [hm]⟩
  | entering hq => exact absurd hphase hq
  | registered _ hm hcall =>
    refine ⟨by simp [hm], ⟨fun hcopy => ?_, fun p hp => ?_⟩, by simp [hm]⟩
    · rw [hcall] at hcopy
      cases hcopy
    · rw [hp.mode] at hcall
      cases hcall
  | waiting _ hm => exact absurd hm hmode
  | placed _ hm _ howner hplaced => exact ⟨by simp [hm], hplaced, fun _ => howner⟩

/-- **Sending** a message, which is deleted afterwards. -/
theorem Inv.send (h : Inv base size st) (hstep : st.send id = some st') : Inv base size st' := by
  obtain ⟨hsending, hstep⟩ := Option.ite_none_right_eq_some.mp hstep
  obtain ⟨hdr, hid, hstep⟩ := Option.bind_eq_some_iff.mp hstep
  obtain ⟨⟨spill, hdr'⟩, -, hstep⟩ := Option.bind_eq_some_iff.mp hstep
  obtain ⟨hphase, hmode⟩ := (h.sending id hsending).2 hdr hid
  obtain ⟨target, call, hcall, hok⟩ := h.messages id hdr hid
  obtain ⟨⟨hcopy, hfree⟩, hplaced, howner⟩ := hok.send hphase hmode
  have hkept : ¬((hdr.payloadMode = .copy ∨ hdr.payloadMode = .free) ∧ hdr.payloadSize > 0) :=
    fun hand => hand.1.elim hcopy hfree
  have hsame : Function.update st.freed id (st.freed id ++ []) = st.freed := by
    rw [List.append_nil, Function.update_eq_self]
  dsimp only at hstep
  rw [if_neg hkept, hsame] at hstep
  have habout : About st st' id := by
    obtain rfl := Option.some.inj hstep
    exact ⟨fun i hi => Function.update_of_ne hi _ _, fun _ _ => rfl, fun _ _ => rfl, fun _ _ => rfl, fun _ _ => rfl,
      le_rfl, h.lt_next hid⟩
  have hkeep : ∀ i hdr₁, Keeps base size st st' i hdr₁ := by
    intro i hdr₁
    obtain rfl := Option.some.inj hstep
    exact Keeps.of_mem_eq rfl rfl rfl rfl fun _ _ ho _ => ho
  have hgone : st'.msgs id = none := by
    obtain rfl := Option.some.inj hstep
    exact Function.update_self ..
  have hothers : ∀ i hdr₁, st'.msgs i = some hdr₁ → st.msgs i = some hdr₁ := by
    intro i hdr₁ hi
    rcases eq_or_ne i id with rfl | hne
    · rw [hgone] at hi
      cases hi
    · exact (habout.msgs i hne).symm.trans hi
  have hlt := h.lt_next hid
  have hwaiters := h.ne_of_waiter hid hmode
  have hflight := h.ne_of_inFlight hid
  obtain rfl := Option.some.inj hstep
  constructor
  case pool => exact h.pool
  case unused => exact habout.unused h
  case messages =>
    refine habout.messages h (fun i hdr₁ _ _ => hkeep i hdr₁) fun hdr₁ hi => ?_
    rw [hgone] at hi
    cases hi
  case queue =>
    intro t i hi
    obtain ⟨hlt, hq⟩ := h.queue t i hi
    exact ⟨hlt, fun hdr₁ hm => hq hdr₁ (hothers i hdr₁ hm)⟩
  case sending =>
    intro i hi
    obtain ⟨hlt, hq⟩ := h.sending i (List.mem_of_mem_erase hi)
    exact ⟨hlt, fun hdr₁ hm => hq hdr₁ (hothers i hdr₁ hm)⟩
  case waiters =>
    intro w hw
    obtain ⟨hdr₁, hm, hrest⟩ := h.waiters w hw
    exact ⟨hdr₁, (habout.msgs _ (hwaiters w hw)).trans hm, hrest⟩
  case waitersNodup => exact h.waitersNodup
  case assigning => exact h.assigning
  case inFlight =>
    intro f hf
    have hf : f ∈ st.inFlight ∨ hdr.payloadMode = .srcptr ∧ f = (id, hdr.payload) := by
      split at hf
      · rename_i hsrcptr
        exact (List.mem_append.mp hf).imp_right fun hf => ⟨hsrcptr, List.mem_singleton.mp hf⟩
      · exact .inl hf
    rcases hf with hf | ⟨hsrcptr, rfl⟩
    · obtain ⟨hmsg, hlt⟩ := habout.inFlight h hflight hf
      exact ⟨hmsg, hlt, (h.inFlight f hf).2.2⟩
    · exact ⟨hgone, hlt, hdr.payloadSize, howner hsrcptr⟩
  case inFlightNodup =>
    dsimp only
    split
    · refine List.nodup_append.mpr ⟨h.inFlightNodup, List.nodup_singleton _, ?_⟩
      rintro f hf f' hf' rfl
      obtain rfl := List.mem_singleton.mp hf'
      exact hflight _ hf rfl
    · exact h.inFlightNodup
  case blocks => exact h.blocks
  case apart => exact h.apart
  case sent =>
    intro s hs
    rcases List.mem_append.mp hs with hs | hs
    · exact habout.sent h (h.ne_of_sent hid) s hs
    · obtain rfl := List.mem_singleton.mp hs
      exact ⟨hmode, hgone, hlt, target, call, hcall, hplaced.congr rfl rfl⟩
  case freed => exact h.freed

/-- **`release_srcptr`**: the span goes to waiters, or becomes free. -/
theorem Inv.release {i : ℕ} (h : Inv base size st) (hbase : 0 < base) (hstep : st.release i = some st') :
    Inv base size st' := by
  obtain ⟨⟨id, srcptr⟩, hget, hstep⟩ := Option.bind_eq_some_iff.mp hstep
  obtain ⟨⟨s, satisfied⟩, hrelease, hstep⟩ := Option.bind_eq_some_iff.mp hstep
  obtain ⟨pool, hpool, hstep⟩ := Option.bind_eq_some_iff.mp hstep
  obtain rfl := Option.some.inj hstep
  obtain ⟨hgone, -, n, howner⟩ := h.inFlight _ (List.mem_of_getElem? hget)
  obtain ⟨hinv, howners, hpending⟩ := release_spec h.pool hbase howner hrelease hpool
  -- pointers are distinct, so that only this owner leaves
  have hold : ∀ o ∈ st.pool.owners, o ≠ ((id, n), srcptr) → o ∈ pool.owners := by
    intro o ho hne
    rw [howners]
    refine List.mem_append_left _ (List.mem_filter.mpr ⟨ho, ?_⟩)
    rw [decide_eq_true_eq]
    exact fun heq => hne (List.inj_on_of_nodup_map h.pool.distinct ho howner heq)
  have hlive : ∀ o ∈ st.pool.owners, ∀ hdr, st.msgs o.1.1 = some hdr → o ∈ pool.owners := by
    intro o ho hdr hm
    refine hold o ho ?_
    rintro rfl
    rw [hgone] at hm
    cases hm
  have hperm : (pool.pool.pendingAllocations ++ (st.assigning ++ satisfied).map Prod.fst).Perm st.waiters := by
    rw [State.waiters, hpending, List.map_append, ← List.append_assoc, List.append_assoc (satisfied.map Prod.fst)]
    exact List.perm_append_comm
  refine { h with
    pool := hinv
    messages := fun j hdr hj => ?_
    waiters := fun w hw => h.waiters w (hperm.mem_iff.mp hw)
    waitersNodup := (hperm.map Prod.fst).nodup_iff.mpr h.waitersNodup
    assigning := fun o ho => ?_
    inFlight := fun f hf => ?_
    inFlightNodup := h.inFlightNodup.eraseIdx i
    sent := fun s hs => ?_ }
  · obtain ⟨target, call, hcall, hok⟩ := h.messages j hdr hj
    refine ⟨target, call, hcall, hok.keep (Keeps.of_mem_eq rfl rfl rfl rfl ?_)⟩
    rintro - o ho rfl
    exact hlive o ho hdr hj
  · rcases List.mem_append.mp ho with ho | ho
    · obtain ⟨hdr, hm, -⟩ := h.waiters o.1 (List.mem_append_right _ (List.mem_map_of_mem ho))
      exact hlive o (h.assigning o ho) hdr hm
    · rw [howners]
      exact List.mem_append_right _ ho
  · obtain ⟨A, B, hsplit, herase, -⟩ := split_at hget
    have hne : f ≠ (id, srcptr) := by
      rintro rfl
      have hnodup := h.inFlightNodup
      rw [hsplit, List.nodup_middle, List.nodup_cons] at hnodup
      exact hnodup.1 (herase ▸ hf)
    obtain ⟨hm, hlt, k, hk⟩ := h.inFlight f (List.mem_of_mem_eraseIdx hf)
    refine ⟨hm, hlt, k, hold _ hk fun heq => hne ?_⟩
    obtain ⟨h₁, h₂⟩ := Prod.mk.inj heq
    exact Prod.ext (Prod.mk.inj h₁).1 h₂
  · obtain ⟨hm, hnone, hlt, target, call, hcall, hplaced⟩ := h.sent s hs
    exact ⟨hm, hnone, hlt, target, call, hcall, hplaced.congr rfl rfl⟩

/-- What is known of a waiter. -/
theorem Inv.waiting (h : Inv base size st) {w : ℕ × ℕ} (hw : w ∈ st.waiters) (hid : st.msgs w.1 = some hdr)
    {src : PayloadSource} (hsrc : hdr.payloadSrc = some src) :
    hdr.payloadMode = .pending ∧ hdr.payloadSize = w.2 ∧ hdr.phase = .queued ∧
      ∃ target call, st.call w.1 = some (target, call) ∧ Carries st w.1 call hdr src := by
  obtain ⟨hdr₁, hm, hmode, hsize⟩ := h.waiters w hw
  obtain rfl := Option.some.inj (hm.symm.trans hid)
  obtain ⟨target, call, hcall, hok⟩ := h.messages w.1 hdr₁ hid
  cases hok with
  | empty _ hm' => rw [hmode] at hm'; simp at hm'
  | entering _ hm' => rw [hmode] at hm'; simp at hm'
  | registered _ hm' => rw [hmode] at hm'; cases hm'
  | waiting hphase _ hcarries =>
    obtain rfl := Option.some.inj (hsrc.symm.trans hcarries.payloadSrc)
    exact ⟨hmode, hsize, hphase, target, call, hcall, hcarries⟩
  | placed _ hm' => rw [hmode] at hm'; cases hm'

/-- A message that has been given its span does not wait any more. -/
theorem Inv.waiters_eraseIdx (h : Inv base size st) {i : ℕ} {o : (ℕ × ℕ) × ℕ} (hget : st.assigning[i]? = some o) :
    ((st.pool.pool.pendingAllocations ++ (st.assigning.eraseIdx i).map Prod.fst).map Prod.fst).Nodup ∧
      ∀ w ∈ st.pool.pool.pendingAllocations ++ (st.assigning.eraseIdx i).map Prod.fst,
        w ∈ st.waiters ∧ w.1 ≠ o.1.1 := by
  obtain ⟨A, B, hsplit, herase, -⟩ := split_at hget
  have hperm : st.waiters.Perm (o.1 :: (st.pool.pool.pendingAllocations ++ (A ++ B).map Prod.fst)) := by
    rw [State.waiters, hsplit, List.map_append, List.map_append, List.map_cons, ← List.append_assoc,
      ← List.append_assoc]
    exact List.perm_middle
  have hnodup := (hperm.map Prod.fst).nodup_iff.mp h.waitersNodup
  rw [List.map_cons, List.nodup_cons] at hnodup
  rw [herase]
  refine ⟨hnodup.2, fun w hw => ⟨hperm.mem_iff.mpr (List.mem_cons_of_mem _ hw), fun heq => ?_⟩⟩
  exact hnodup.1 (heq ▸ List.mem_map_of_mem hw)

/-- **`assign_srcdata_pointer`** -/
theorem Inv.assign {i : ℕ} (h : Inv base size st) (htop : base + size ≤ 2 ^ 64) (hstep : st.assign i = some st') :
    Inv base size st' := by
  obtain ⟨⟨⟨id, n⟩, ptr⟩, hget, hstep⟩ := Option.bind_eq_some_iff.mp hstep
  obtain ⟨hdr, hid, hstep⟩ := Option.bind_eq_some_iff.mp hstep
  obtain ⟨src, hsrc, hstep⟩ := Option.bind_eq_some_iff.mp hstep
  obtain ⟨⟨spill, hdr'⟩, hassign, hstep⟩ := Option.bind_eq_some_iff.mp hstep
  obtain ⟨⟨mem, freed⟩, hcopy, hst'⟩ := Option.bind_eq_some_iff.mp hstep
  have hmem := List.mem_of_getElem? hget
  have howner := h.assigning _ hmem
  obtain ⟨hmode, hsize, hphase, target, call, hcall, hcarries⟩ :=
    h.waiting (List.mem_append_right _ (List.mem_map_of_mem hmem)) hid hsrc
  obtain ⟨-, hphase', hsize', hmode', hpayload⟩ := assignSrcdataPointer_cases hassign
  obtain ⟨hnodup, hwaiters⟩ := h.waiters_eraseIdx hget
  dsimp only at hsize hcall hcarries hwaiters
  subst hsize
  have hfits : hdr.payloadSize ≤ 2 ^ 64 := by
    obtain ⟨z, -, hle, -, hhi⟩ := owner_span h.pool howner
    simp only at hle hhi
    omega
  have habout : About st st' id := by
    obtain rfl := Option.some.inj hst'
    exact ⟨fun i hi => Function.update_of_ne hi _ _, fun _ _ => rfl, fun _ _ => rfl,
      fun i hi => Function.update_of_ne hi _ _, fun i hi => Function.update_of_ne hi _ _, le_rfl, h.lt_next hid⟩
  have hmalloced : ∀ i p k, st'.malloced i = some (p, k) → st.malloced i = some (p, k) := by
    intro i p k hp
    obtain rfl := Option.some.inj hst'
    exact eq_of_update_eq hp (by simp)
  have hkeep : ∀ i hdr, i ≠ id → st.msgs i = some hdr → Keeps base size st st' i hdr := by
    obtain rfl := Option.some.inj hst'
    refine h.keeps_span htop h.pool habout howner rfl (fun a ha => ?_) (fun _ ho => ho) fun a hp => ?_
    · exact copyTo_outside hcopy (hcarries.length ▸ ha)
    · exact hp.imp_right fun ⟨j, p, k, hp, ha⟩ => ⟨j, p, k, hmalloced j p k hp, ha⟩
  have hok : Ok base size st' id call hdr' := by
    obtain rfl := Option.some.inj hst'
    refine .placed (hphase'.trans hphase) hmode' (hsize'.symm ▸ hcarries.pos) ?_ ?_
    · rw [hsize', hpayload]
      exact howner
    · rw [hsize', hpayload]
      exact hcarries.place hcopy hfits (Function.update_self ..) rfl
  have hfreed : ∀ p, Frees p call → st'.freed id = [] ∨ ∃ bytes, st'.freed id = [(p, bytes)] := by
    intro p hp
    obtain rfl := Option.some.inj hst'
    dsimp only
    rw [Function.update_self]
    exact .inr (hcarries.freedOnce hcopy hp)
  obtain rfl := Option.some.inj hst'
  exact h.moves hid hcall ⟨habout, Function.update_self .., rfl, rfl, rfl, rfl, h.pool, fun _ ho => ho, hkeep, hok,
    fun _ _ hj => .inl hj, fun hq => hphase'.trans hq, fun _ hnot => absurd hmode hnot,
    fun o ho => List.mem_of_mem_eraseIdx ho, fun w hw => .inl (hwaiters w hw), hnodup,
    fun p k hp => h.block (hmalloced id p k hp), hfreed⟩

/-- **One step** of a thread, of the network or of `release_srcptr` -/
theorem Inv.step {e : Event} (h : Inv base size st) (hbase : 0 < base) (htop : base + size ≤ 2 ^ 64)
    (henv : Environment c base size st e ∧ Sound e) (hstep : step c ec st e = some st') : Inv base size st' := by
  obtain ⟨henv, hsound⟩ := henv
  cases e with
  | enqueue target call => exact h.enqueue henv hsound hstep
  | reserveSpill id always =>
    obtain ⟨hdr, hid, hstep⟩ := Option.bind_eq_some_iff.mp hstep
    obtain ⟨hphase, hstep⟩ := Option.ite_none_right_eq_some.mp hstep
    obtain ⟨⟨spill, hdr'⟩, hres, hstep⟩ := Option.bind_eq_some_iff.mp hstep
    obtain rfl := Option.some.inj hstep
    exact h.reserveSpill hid hphase hres
  | reserve id copyPtr => exact h.reserve hbase htop henv hstep
  | push target lmbs => exact h.push hstep
  | send id => exact h.send hstep
  | release i => exact h.release hbase hstep
  | assign i => exact h.assign htop hstep
  | write a b =>
    obtain rfl := Option.some.inj hstep
    exact h.write htop henv

/-- **Copy semantics**: in a run of sound calls the payloads that are sent are those of the calls, and those that were
given away are freed once. -/
theorem copy_semantics {mem : Memory} (hbase : 0 < base) (hbase64 : 64 ∣ base) (hsize : 0 < size) (hsize64 : 64 ∣ size)
    (htop : base + size ≤ 2 ^ 64) {es : List Event}
    (hes : Guarded (step c ec) (fun st e => Environment c base size st e ∧ Sound e) (.init mem base size) es)
    (hrun : run (step c ec) (.init mem base size) es = some st) : Correct st := by
  have hinv : Inv base size st := by
    refine run_inv_guarded (fun st e st' h henv hstep => ?_) (Inv.init mem hsize hbase64 hsize64) hes hrun
    exact h.step hbase htop henv hstep
  exact hinv.correct

end Steps

/-! ## Two runs -/

def oneNode : Config := ⟨0, 4096, fun _ => false⟩

def oneEndpoint : EndpointConfig := ⟨2, 4096, 512, fun _ => 0, fun _ => 0⟩

/-- The first message takes the whole pool, so that the second waits in a block at `1000` while the caller writes to
its payload at `200`. -/
def freeThenCopy : List Event :=
  [.enqueue 1 (.contiguous 7 [] 300 1 .free 0), .reserveSpill 0 false, .reserve 0 0,
    .enqueue 1 (.contiguous 7 [] 200 1 .copy 0), .reserveSpill 1 false, .reserve 1 1000, .write 200 0,
    .push 1 .init, .send 0, .release 0, .assign 0, .push 1 .init, .send 1]

theorem eq_of_inCells_one {p a : Addr} (ha : InCells p 1 a) : a = p := by
  rw [InCells] at ha
  bv_omega

/-- Behind the pool only spilled blocks are private. -/
theorem not_private_of_le {st : State} {a : Addr} (ha : 128 ≤ a.toNat) (hnone : ∀ i, st.malloced i = none) :
    ¬st.Private 64 64 a := by
  rintro (hp | ⟨i, p, n, hp, -⟩)
  · exact absurd hp.2 (Nat.not_lt.mpr ha)
  · rw [hnone i] at hp
    cases hp

theorem freeThenCopy_guarded :
    Guarded (step oneNode oneEndpoint) (fun st e => Environment oneNode 64 64 st e ∧ Sound e)
      (.init (fun a => BitVec.setWidth 8 a) 64 64) freeThenCopy := by
  refine guarded_of_take fun i e st he hst => ?_
  match i with
  | 0 | 3 =>
    obtain rfl := Option.some.inj he
    obtain rfl := Option.some.inj hst
    refine ⟨fun a ha => ?_, fun _ => Nat.one_pos⟩
    obtain rfl := eq_of_inCells_one ha
    exact not_private_of_le (by decide) fun _ => rfl
  | 2 =>
    obtain rfl := Option.some.inj he
    obtain rfl := Option.some.inj hst
    refine ⟨fun hdr hm hmode => ?_, trivial⟩
    obtain rfl := Option.some.inj hm
    cases hmode
  | 5 =>
    obtain rfl := Option.some.inj he
    obtain ⟨hblocks, hsize, hqueued, hsrc, hmsgs⟩ : (∀ j, st.malloced j = none) ∧
        (st.msgs 1).map (fun m => m.payloadSize) = some 1 ∧ (st.msgs 0).map Message.phase = some .queued ∧
        (st.msgs 1).map Message.payloadSrc = some (some (.contiguous 200 1 .copy)) ∧ ∀ j, st.msgs (j + 2) = none := by
      obtain rfl := Option.some.inj hst
      exact ⟨fun _ => rfl, rfl, rfl, rfl, fun _ => rfl⟩
    refine ⟨fun hdr hm hmode => ?_, trivial⟩
    rw [hm, Option.map_some, Option.some.injEq] at hsize
    rw [hsize]
    refine ⟨by decide, fun a ha => ?_⟩
    obtain rfl := eq_of_inCells_one ha
    refine ⟨not_private_of_le (by decide) hblocks, ?_⟩
    rintro ⟨j, hdr, src, hm, hphase, -, hsrc', hreads⟩
    obtain _ | _ | j := j
    · rw [hm] at hqueued
      exact hphase (Option.some.inj hqueued)
    · rw [hm, Option.map_some, hsrc', Option.some.injEq, Option.some.injEq] at hsrc
      subst hsrc
      exact absurd (eq_of_inCells_one hreads) (by decide)
    · rw [hmsgs j] at hm
      cases hm
  | 6 =>
    obtain rfl := Option.some.inj he
    obtain ⟨hnone, hblock, hblocks, hqueued, hqueued', hmsgs⟩ : st.malloced 0 = none ∧
        st.malloced 1 = some (1000, 1) ∧ (∀ j, st.malloced (j + 2) = none) ∧
        (st.msgs 0).map Message.phase = some .queued ∧ (st.msgs 1).map Message.phase = some .queued ∧
        ∀ j, st.msgs (j + 2) = none := by
      obtain rfl := Option.some.inj hst
      exact ⟨rfl, rfl, fun _ => rfl, rfl, rfl, fun _ => rfl⟩
    refine ⟨⟨?_, ?_⟩, trivial⟩
    · rintro (hp | ⟨j, p, n, hp, ha⟩)
      · exact absurd hp.2 (by decide)
      · obtain _ | _ | j := j
        · rw [hnone] at hp
          cases hp
        · obtain ⟨rfl, rfl⟩ := Prod.mk.inj (Option.some.inj (hblock.symm.trans hp))
          exact absurd (eq_of_inCells_one ha) (by decide)
        · rw [hblocks j] at hp
          cases hp
    · rintro ⟨j, hdr, src, hm, hphase, -⟩
      obtain _ | _ | j := j
      · rw [hm] at hqueued
        exact hphase (Option.some.inj hqueued)
      · rw [hm] at hqueued'
        exact hphase (Option.some.inj hqueued')
      · rw [hmsgs j] at hm
        cases hm
  | 1 | 4 | 7 | 8 | 9 | 10 | 11 | 12 =>
    obtain rfl := Option.some.inj he
    exact ⟨trivial, trivial⟩
  | i + 13 => cases he

theorem copy_semantics_freeThenCopy : ∃ st, run (step oneNode oneEndpoint)
    (.init (fun a => BitVec.setWidth 8 a) 64 64) freeThenCopy = some st ∧
      st.sent.map Sent.bytes = [[44], [200]] ∧ st.freed 0 = [(300, [44])] ∧ Correct st := by
  obtain ⟨st, hrun, hsent, hfreed⟩ : ∃ st, run (step oneNode oneEndpoint)
      (.init (fun a => BitVec.setWidth 8 a) 64 64) freeThenCopy = some st ∧
        st.sent.map Sent.bytes = [[44], [200]] ∧ st.freed 0 = [(300, [44])] := ⟨_, rfl, rfl, rfl⟩
  refine ⟨st, hrun, hsent, hfreed, ?_⟩
  exact copy_semantics (by decide) (by decide) (by decide) (by decide) (by decide) freeThenCopy_guarded hrun

/-- A buffer that is given away with a size of zero. -/
def freeEmpty : List Event :=
  [.enqueue 1 (.contiguous 7 [] 300 0 .free 0), .reserveSpill 0 false, .reserve 0 0, .push 1 .init, .send 0]

/-- It is never freed. -/
theorem not_correct_freeEmpty : Guarded (step oneNode oneEndpoint) (Environment oneNode 64 64)
    (.init (fun _ => 0) 64 64) freeEmpty ∧ ∃ st, run (step oneNode oneEndpoint) (.init (fun _ => 0) 64 64) freeEmpty =
      some st ∧ ¬Correct st := by
  refine ⟨?_, ?_⟩
  · refine guarded_cons rfl (fun a ha => absurd ha (Nat.not_lt_zero _)) ?_
    refine guarded_cons rfl trivial ?_
    refine guarded_cons rfl (fun hdr hm hmode => ?_) ?_
    · obtain rfl := Option.some.inj hm
      cases hmode
    refine guarded_cons rfl trivial ?_
    exact guarded_cons rfl trivial trivial
  · obtain ⟨st, hrun, hcall, hsent, hfreed⟩ : ∃ st,
        run (step oneNode oneEndpoint) (.init (fun _ => 0) 64 64) freeEmpty = some st ∧
          st.call 0 = some (1, .contiguous 7 [] 300 0 .free 0) ∧ st.sent = [⟨0, .empty, []⟩] ∧ st.freed 0 = [] :=
      ⟨_, rfl, rfl, rfl, rfl⟩
    refine ⟨st, hrun, fun h => ?_⟩
    have hfree := (h.free 0 1 _ 300 hcall ⟨rfl, rfl⟩).2 ⟨0, .empty, []⟩ (hsent ▸ List.mem_cons_self) rfl
    rw [hfreed] at hfree
    cases hfree

end Realm.Copy

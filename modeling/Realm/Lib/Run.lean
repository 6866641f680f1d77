import Mathlib.Data.List.Basic

/-!
# Realm.Lib.Run — runs of a labelled step function

A system is a step function `step : σ → α → Option σ`: the label `a` resolves every choice of the
scheduler and of the environment, `none` means that `a` is not enabled.

* `run step s as`: the state after the labels `as`.
* `Guarded step C s as`: along the run of `as`, every label `a` taken in a state `t` satisfies `C t a`.
* `Always step P s as`: `P` holds in every state the run of `as` passes through.
* `run_inv`, `run_inv_guarded`, `run_total`: one step lemma gives the statement about whole runs.
* `Next step C`: one step with a label in `C`; `acc_of_measure`, `not_acc_of_loop`: whether such steps come to an end.
-/

namespace Lib

variable {σ α : Type*} {step : σ → α → Option σ}

/-- The state after the labels `as`, `none` as soon as one of them is not enabled. -/
def run (step : σ → α → Option σ) (s : σ) (as : List α) : Option σ := as.foldlM step s

/-- Every label of the run satisfies `C` in the state in which it is taken. -/
def Guarded (step : σ → α → Option σ) (C : σ → α → Prop) : σ → List α → Prop
  | _, [] => True
  | s, a :: as => C s a ∧ ∀ s', step s a = some s' → Guarded step C s' as

/-- `P` holds in every state of the run, the first and the last included. -/
def Always (step : σ → α → Option σ) (P : σ → Prop) (s : σ) (as : List α) : Prop :=
  ∀ pre t, pre <+: as → run step s pre = some t → P t

@[simp] theorem run_nil (s : σ) : run step s [] = some s := rfl

theorem run_cons (s : σ) (a : α) (as : List α) :
    run step s (a :: as) = (step s a).bind (fun t => run step t as) := rfl

theorem run_append (s : σ) (as bs : List α) :
    run step s (as ++ bs) = (run step s as).bind (fun t => run step t bs) := by
  unfold run
  exact List.foldlM_append

theorem run_cons_eq_some {s t : σ} {a : α} {as : List α} :
    run step s (a :: as) = some t ↔ ∃ s', step s a = some s' ∧ run step s' as = some t := by
  rw [run_cons, Option.bind_eq_some_iff]

theorem run_snoc_eq_some {s t : σ} {a : α} {as : List α} :
    run step s (as ++ [a]) = some t ↔ ∃ u, run step s as = some u ∧ step u a = some t := by
  rw [run_append, Option.bind_eq_some_iff]
  constructor
  · rintro ⟨u, hu, h⟩
    obtain ⟨t', ht', h⟩ := run_cons_eq_some.mp h
    rw [run_nil] at h
    exact ⟨u, hu, by rw [ht', h]⟩
  · rintro ⟨u, hu, h⟩
    exact ⟨u, hu, run_cons_eq_some.mpr ⟨t, h, rfl⟩⟩

theorem guarded_cons {C : σ → α → Prop} {s s' : σ} {a : α} {as : List α} (hs : step s a = some s')
    (hC : C s a) (h : Guarded step C s' as) : Guarded step C s (a :: as) := by
  refine ⟨hC, fun t ht => ?_⟩
  obtain rfl : s' = t := Option.some.inj (hs.symm.trans ht)
  exact h

/-- A run is guarded if every label satisfies the guard in the state that the labels before it lead to. -/
theorem guarded_of_take {C : σ → α → Prop} {s : σ} {as : List α}
    (h : ∀ i a t, as[i]? = some a → run step s (as.take i) = some t → C t a) : Guarded step C s as := by
  induction as generalizing s with
  | nil => trivial
  | cons a as ih =>
    refine ⟨h 0 a s rfl rfl, fun s' hs' => ih fun i b t hb ht => h (i + 1) b t hb ?_⟩
    exact run_cons_eq_some.mpr ⟨s', hs', ht⟩

/-- **Invariant rule.** -/
theorem run_inv {I : σ → Prop} (hstep : ∀ s a s', I s → step s a = some s' → I s') {s t : σ}
    (h0 : I s) {as : List α} (h : run step s as = some t) : I t := by
  induction as generalizing s with
  | nil =>
    rw [run_nil, Option.some.injEq] at h
    exact h ▸ h0
  | cons a as ih =>
    obtain ⟨s', hs', h⟩ := run_cons_eq_some.mp h
    exact ih (hstep s a s' h0 hs') h

/-- **Invariant rule** for runs whose steps all satisfy `C`. -/
theorem run_inv_guarded {I : σ → Prop} {C : σ → α → Prop}
    (hstep : ∀ s a s', I s → C s a → step s a = some s' → I s') {s t : σ} (h0 : I s)
    {as : List α} (hg : Guarded step C s as) (h : run step s as = some t) : I t := by
  induction as generalizing s with
  | nil =>
    rw [run_nil, Option.some.injEq] at h
    exact h ▸ h0
  | cons a as ih =>
    obtain ⟨s', hs', h⟩ := run_cons_eq_some.mp h
    exact ih (hstep s a s' h0 hg.1 hs') (hg.2 s' hs') h

/-- **Progress rule**: if every label satisfying `C` is enabled in the states of an invariant, a guarded
run never gets stuck and ends in the invariant. -/
theorem run_total {I : σ → Prop} {C : σ → α → Prop}
    (hstep : ∀ s a, I s → C s a → ∃ s', step s a = some s' ∧ I s') {s : σ} (h0 : I s)
    {as : List α} (hg : Guarded step C s as) : ∃ t, run step s as = some t ∧ I t := by
  induction as generalizing s with
  | nil => exact ⟨s, rfl, h0⟩
  | cons a as ih =>
    obtain ⟨s', hs', hI⟩ := hstep s a h0 hg.1
    obtain ⟨t, ht, hIt⟩ := ih hI (hg.2 s' hs')
    exact ⟨t, run_cons_eq_some.mpr ⟨s', hs', ht⟩, hIt⟩

theorem always_nil {P : σ → Prop} {s : σ} : Always step P s [] ↔ P s := by
  constructor
  · intro h
    exact h [] s List.prefix_rfl rfl
  · intro h pre t hp ht
    obtain rfl := List.prefix_nil.mp hp
    rw [run_nil, Option.some.injEq] at ht
    exact ht ▸ h

theorem always_cons {P : σ → Prop} {s : σ} {a : α} {as : List α} :
    Always step P s (a :: as) ↔ P s ∧ ∀ s', step s a = some s' → Always step P s' as := by
  constructor
  · intro h
    refine ⟨h [] s List.nil_prefix rfl, fun s' hs' pre t hp ht => ?_⟩
    exact h (a :: pre) t (List.cons_prefix_cons.mpr ⟨rfl, hp⟩)
      (run_cons_eq_some.mpr ⟨s', hs', ht⟩)
  · rintro ⟨h0, h⟩ pre t hp ht
    cases pre with
    | nil =>
      rw [run_nil, Option.some.injEq] at ht
      exact ht ▸ h0
    | cons b pre =>
      obtain ⟨rfl, hp'⟩ := List.cons_prefix_cons.mp hp
      obtain ⟨s', hs', ht⟩ := run_cons_eq_some.mp ht
      exact h s' hs' pre t hp' ht

/-- **Invariant rule** for all states of a run whose steps all satisfy `C`. -/
theorem always_of_guarded {I : σ → Prop} {C : σ → α → Prop}
    (hstep : ∀ s a s', I s → C s a → step s a = some s' → I s') {s : σ} (h0 : I s) {as : List α}
    (hg : Guarded step C s as) : Always step I s as := by
  induction as generalizing s with
  | nil => exact always_nil.mpr h0
  | cons a as ih => exact always_cons.mpr ⟨h0, fun s' hs' => ih (hstep s a s' h0 hg.1 hs') (hg.2 s' hs')⟩

/-- **Exact guards**: in the states of an invariant kept by the labels satisfying `C`, let a step keep `P`
if and only if its label satisfies `D`.  Then `P` holds along a run if and only if `D` guards it. -/
theorem always_iff_guarded {I P : σ → Prop} {C D : σ → α → Prop}
    (hI : ∀ s a s', I s → C s a → step s a = some s' → I s')
    (hD : ∀ s a s', I s → P s → C s a → step s a = some s' → (P s' ↔ D s a))
    (hen : ∀ s a, I s → C s a → ∃ s', step s a = some s') {s : σ} (h0 : I s) (hP : P s)
    {as : List α} (hg : Guarded step C s as) :
    Always step P s as ↔ Guarded step D s as := by
  induction as generalizing s with
  | nil =>
    rw [always_nil]
    exact ⟨fun _ => trivial, fun _ => hP⟩
  | cons a as ih =>
    obtain ⟨hC, hg⟩ := hg
    obtain ⟨s', hs'⟩ := hen s a h0 hC
    have hI' := hI s a s' h0 hC hs'
    have hiff := hD s a s' h0 hP hC hs'
    rw [always_cons]
    constructor
    · rintro ⟨-, h⟩
      have hA := h s' hs'
      have hP' : P s' := hA [] s' List.nil_prefix rfl
      refine ⟨hiff.mp hP', fun t ht => ?_⟩
      obtain rfl : s' = t := Option.some.inj (hs'.symm.trans ht)
      exact (ih hI' hP' (hg s' hs')).mp hA
    · rintro ⟨hD', h⟩
      refine ⟨hP, fun t ht => ?_⟩
      obtain rfl : s' = t := Option.some.inj (hs'.symm.trans ht)
      exact (ih hI' (hiff.mpr hD') (hg s' hs')).mpr (h s' hs')

/-! ## Termination -/

/-- `s'` comes after `s` by a step whose label satisfies `C`; `Acc (Next step C) s`: from `s` there are no infinitely
many such steps. -/
def Next (step : σ → α → Option σ) (C : α → Prop) (s' s : σ) : Prop := ∃ a, C a ∧ step s a = some s'

/-- **Measure rule** -/
theorem acc_of_measure {β : Type*} {r : β → β → Prop} (hr : WellFounded r) {I : σ → Prop} {C : α → Prop} (μ : σ → β)
    (hstep : ∀ s a s', I s → C a → step s a = some s' → I s' ∧ r (μ s') (μ s)) {s : σ} (h : I s) :
    Acc (Next step C) s := by
  induction hb : μ s using hr.induction generalizing s with
  | _ b ih =>
    subst hb
    refine ⟨s, ?_⟩
    rintro s' ⟨a, ha, hs'⟩
    obtain ⟨hI, hlt⟩ := hstep s a s' h ha hs'
    exact ih (μ s') hlt hI rfl

/-- Two states that follow each other follow each other for ever. -/
theorem not_acc_of_loop {r : σ → σ → Prop} {s t : σ} (hst : r t s) (hts : r s t) : ¬Acc r s := by
  intro h
  induction h generalizing t with
  | intro s _ ih => exact ih t hst hts hst

end Lib

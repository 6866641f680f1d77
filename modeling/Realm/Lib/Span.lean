import Mathlib.Algebra.BigOperators.Group.List.Basic
import Mathlib.Algebra.Order.Ring.Nat
import Mathlib.Order.Interval.Finset.Nat

/-!
# Realm.Lib.Span — half-open spans of addresses

A span `x` is the address range `[x.1, x.1 + x.2)`.

* `Span.Disj`: no address in common (for nonempty spans).
* `Span.total`: the number of addresses of a list of spans, multiplicities counted.
* `Span.cover_of_total`: pairwise disjoint spans inside a range whose sizes add up to the range's cover it.
* `MergeClosed`: predicates on spans that survive joining two adjacent spans.
-/

namespace Lib

/-- The addresses `[x.1, x.1 + x.2)`. -/
abbrev Span := ℕ × ℕ

namespace Span

def Mem (a : ℕ) (x : Span) : Prop := x.1 ≤ a ∧ a < x.1 + x.2

def Disj (x y : Span) : Prop := x.1 + x.2 ≤ y.1 ∨ y.1 + y.2 ≤ x.1

def total (l : List Span) : ℕ := (l.map Prod.snd).sum

theorem Disj.symm {x y : Span} (h : Disj x y) : Disj y x := Or.symm h

@[simp] theorem total_nil : total [] = 0 := rfl

@[simp] theorem total_cons (x : Span) (l : List Span) : total (x :: l) = x.2 + total l := by
  simp [total]

@[simp] theorem total_append (l l' : List Span) : total (l ++ l') = total l + total l' := by
  simp [total]

@[simp] theorem total_reverse (l : List Span) : total l.reverse = total l := by
  simp [total]

theorem total_perm {l l' : List Span} (h : l.Perm l') : total l = total l' :=
  (h.map Prod.snd).sum_eq

/-- The set of addresses of a list of spans. -/
def addrs : List Span → Finset ℕ
  | [] => ∅
  | x :: l => Finset.Ico x.1 (x.1 + x.2) ∪ addrs l

theorem mem_addrs {l : List Span} {a : ℕ} : a ∈ addrs l ↔ ∃ x ∈ l, Mem a x := by
  induction l with
  | nil => simp [addrs]
  | cons x l ih => simp [addrs, ih, Mem]

theorem card_addrs {l : List Span} (h : l.Pairwise Disj) : (addrs l).card = total l := by
  induction l with
  | nil => rfl
  | cons x l ih =>
    obtain ⟨hx, hl⟩ := List.pairwise_cons.mp h
    have hd : Disjoint (Finset.Ico x.1 (x.1 + x.2)) (addrs l) := by
      rw [Finset.disjoint_left]
      intro a ha ha'
      obtain ⟨y, hy, h1, h2⟩ := mem_addrs.mp ha'
      rw [Finset.mem_Ico] at ha
      rcases hx y hy with h' | h' <;> omega
    rw [addrs, Finset.card_union_of_disjoint hd, ih hl, Nat.card_Ico, total_cons]
    omega

/-- Disjoint spans inside a range that are as large as the range together cover exactly the range. -/
theorem cover_of_total {lo n : ℕ} {l : List Span} (hd : l.Pairwise Disj)
    (hin : ∀ x ∈ l, lo ≤ x.1 ∧ x.1 + x.2 ≤ lo + n) (ht : total l = n) (a : ℕ) :
    (∃ x ∈ l, Mem a x) ↔ lo ≤ a ∧ a < lo + n := by
  have hsub : addrs l ⊆ Finset.Ico lo (lo + n) := by
    intro b hb
    obtain ⟨x, hx, h1, h2⟩ := mem_addrs.mp hb
    have := hin x hx
    rw [Finset.mem_Ico]
    omega
  have heq : addrs l = Finset.Ico lo (lo + n) := by
    refine Finset.eq_of_subset_of_card_le hsub ?_
    rw [card_addrs hd, Nat.card_Ico, ht]
    omega
  rw [← mem_addrs, heq, Finset.mem_Ico]

/-- Disjoint spans are not larger than the range they lie in. -/
theorem total_le {n : ℕ} {l : List Span} (hd : l.Pairwise Disj) (hin : ∀ x ∈ l, x.1 + x.2 ≤ n) :
    total l ≤ n := by
  have hsub : addrs l ⊆ Finset.range n := by
    intro a ha
    obtain ⟨x, hx, -, h2⟩ := mem_addrs.mp ha
    have := hin x hx
    rw [Finset.mem_range]
    omega
  have hcard := Finset.card_le_card hsub
  rwa [card_addrs hd, Finset.card_range] at hcard

/-- Spans listed upwards with gaps between them: each gap costs an address. -/
theorem total_add_length_le {a b : ℕ} {l : List Span} (hgap : l.Pairwise (fun x y => x.1 + x.2 < y.1))
    (hin : ∀ x ∈ l, a ≤ x.1 ∧ x.1 + x.2 ≤ b) (hab : a ≤ b + 1) :
    total l + l.length + a ≤ b + 1 := by
  induction l generalizing a with
  | nil => simpa using hab
  | cons x l ih =>
    obtain ⟨hx, hl⟩ := List.pairwise_cons.mp hgap
    have h1 := hin x List.mem_cons_self
    have h2 := ih (a := x.1 + x.2 + 1) hl
      (fun y hy => ⟨hx y hy, (hin y (List.mem_cons_of_mem _ hy)).2⟩) (by omega)
    rw [total_cons, List.length_cons]
    omega

/-- `J` survives joining a span and the span right behind it. -/
def MergeClosed (J : Span → Prop) : Prop :=
  ∀ p m n, J (p, m) → J (p + m, n) → J (p, m + n)

theorem mergeClosed_disj {y : Span} (hy : 0 < y.2) : MergeClosed (fun x => Disj x y) := by
  intro p m n h1 h2
  simp only [Disj] at h1 h2 ⊢
  omega

theorem mergeClosed_within (lo hi : ℕ) : MergeClosed (fun x => lo ≤ x.1 ∧ x.1 + x.2 ≤ hi) := by
  intro p m n h1 h2
  simp only at h1 h2 ⊢
  omega

theorem mergeClosed_pos : MergeClosed (fun x => 0 < x.2) := by
  intro p m n h1 h2
  simp only at h1 h2 ⊢
  omega

theorem mergeClosed_dvd (d : ℕ) : MergeClosed (fun x => d ∣ x.1 ∧ d ∣ x.2) :=
  fun _ _ _ h1 h2 => ⟨h1.1, Nat.dvd_add h1.2 h2.2⟩

end Span

end Lib

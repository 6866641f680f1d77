import Mathlib.Data.BitVec
import Mathlib.Data.List.Basic

/-!
# Realm.Lib.Cells — reading and writing an address space that wraps around

A memory is a function from addresses of `w` bits to cells.

* `cellsAt m p n`: the `n` cells from `p` on.
* `gather m p size stride n`: `n` lines of `size` cells, whose starts are `stride` apart.
* `cellsAt_add`, `gather_add`: a read splits at any point.
* `gather_eq_cellsAt_iff`: the layouts on which gathering lines is reading one block.
* `storeCells m p l`: `l` written from `p` on; `cellsAt_storeCells`, `cellsAt_congr`, `gather_congr`: what is read
  back, and what a read depends on.
-/

namespace Lib

variable {α : Type*} {w : ℕ}

def cellsAt (m : BitVec w → α) (p : BitVec w) (n : ℕ) : List α :=
  (List.range n).map fun i => m (p + BitVec.ofNat w i)

def gather (m : BitVec w → α) (p : BitVec w) (size : ℕ) (stride : BitVec w) : ℕ → List α
  | 0 => []
  | n + 1 => cellsAt m p size ++ gather m (p + stride) size stride n

variable {m : BitVec w → α} {p stride : BitVec w} {size : ℕ}

@[simp] theorem length_cellsAt (m : BitVec w → α) (p : BitVec w) (n : ℕ) : (cellsAt m p n).length = n := by
  simp [cellsAt]

@[simp] theorem cellsAt_zero (m : BitVec w → α) (p : BitVec w) : cellsAt m p 0 = [] := rfl

theorem getElem?_cellsAt {n i : ℕ} (h : i < n) : (cellsAt m p n)[i]? = some (m (p + BitVec.ofNat w i)) := by
  simp [cellsAt, h]

theorem cellsAt_add (a b : ℕ) : cellsAt m p (a + b) = cellsAt m p a ++ cellsAt m (p + BitVec.ofNat w a) b := by
  unfold cellsAt
  rw [List.range_add, List.map_append, List.map_map]
  congr 1
  apply List.map_congr_left
  intro i _
  rw [Function.comp_apply, BitVec.ofNat_add, BitVec.add_assoc]

@[simp] theorem length_gather (m : BitVec w → α) (p : BitVec w) (size : ℕ) (stride : BitVec w) (n : ℕ) :
    (gather m p size stride n).length = size * n := by
  induction n generalizing p with
  | zero => rfl
  | succ n ih =>
    rw [gather, List.length_append, length_cellsAt, ih, Nat.mul_succ, Nat.add_comm]

theorem gather_add (a b : ℕ) :
    gather m p size stride (a + b) =
      gather m p size stride a ++ gather m (p + stride * BitVec.ofNat w a) size stride b := by
  induction a generalizing p with
  | zero => simp [gather]
  | succ a ih =>
    rw [Nat.add_right_comm, gather, gather, ih, List.append_assoc]
    congr 3
    rw [Nat.add_comm a 1, BitVec.ofNat_add, BitVec.mul_add, BitVec.add_assoc]
    simp

theorem gather_zero_size (n : ℕ) : gather m p 0 stride n = [] := by
  rw [← List.length_eq_zero_iff, length_gather, Nat.zero_mul]

/-- Lines without gaps. -/
theorem gather_dense (n : ℕ) : gather m p size (BitVec.ofNat w size) n = cellsAt m p (size * n) := by
  induction n generalizing p with
  | zero => rfl
  | succ n ih => rw [gather, ih, Nat.mul_succ, Nat.add_comm (size * n), cellsAt_add]

/-- **When gathering is reading one block.**  With two lines or more, the first cell of the second line
decides. -/
theorem gather_eq_cellsAt_iff [Nontrivial α] {n : ℕ} :
    (∀ m : BitVec w → α, gather m p size stride n = cellsAt m p (size * n)) ↔
      n ≤ 1 ∨ size = 0 ∨ stride = BitVec.ofNat w size := by
  constructor
  · intro h
    by_contra hc
    push Not at hc
    obtain ⟨hn, hsize, hstride⟩ := hc
    obtain ⟨x, y, hxy⟩ := exists_pair_ne α
    classical
    -- the memory that is `x` at the start of the second line only
    have hm := h fun a => if a = p + stride then x else y
    obtain ⟨k, rfl⟩ : ∃ k, n = k + 2 := ⟨n - 2, by omega⟩
    have hget := congrArg (fun l => l[size]?) hm
    have hlt : size < size * (k + 2) := by
      have : size * 2 ≤ size * (k + 2) := Nat.mul_le_mul_left _ (by omega)
      omega
    simp only [gather] at hget
    rw [List.getElem?_append_right (by simp), length_cellsAt, Nat.sub_self,
      List.getElem?_append_left (by simp; omega), getElem?_cellsAt (by omega), getElem?_cellsAt hlt] at hget
    simp only [BitVec.add_zero, if_true, Option.some.injEq] at hget
    split at hget
    · rename_i heq
      exact hstride ((BitVec.add_right_inj p).mp heq.symm)
    · exact hxy hget
  · rintro (hn | rfl | rfl) m
    · obtain rfl | rfl : n = 0 ∨ n = 1 := by omega
      · rfl
      · simp [gather]
    · simp [gather_zero_size]
    · exact gather_dense n

/-! ## Writing -/

/-- The address `a` is one of the `n` from `p` on. -/
def InCells (p : BitVec w) (n : ℕ) (a : BitVec w) : Prop := (a - p).toNat < n

def storeCells (m : BitVec w → α) (p : BitVec w) (l : List α) : BitVec w → α := fun a => (l[(a - p).toNat]?).getD (m a)

theorem inCells_add {n i : ℕ} (h : i < n) : InCells p n (p + BitVec.ofNat w i) := by
  show (p + BitVec.ofNat w i - p).toNat < n
  rw [BitVec.add_comm p, BitVec.add_sub_cancel, BitVec.toNat_ofNat]
  exact (Nat.mod_le i _).trans_lt h

/-- Without wraparound -/
theorem inCells_iff {n : ℕ} (h : p.toNat + n ≤ 2 ^ w) {a : BitVec w} :
    InCells p n a ↔ p.toNat ≤ a.toNat ∧ a.toNat < p.toNat + n := by
  have ha := a.isLt
  rw [InCells, BitVec.toNat_sub]
  by_cases hle : p.toNat ≤ a.toNat
  · rw [show 2 ^ w - p.toNat + a.toNat = (a.toNat - p.toNat) + 2 ^ w by omega, Nat.add_mod_right,
      Nat.mod_eq_of_lt (by omega)]
    omega
  · rw [Nat.mod_eq_of_lt (by omega)]
    omega

theorem cellsAt_congr {m' : BitVec w → α} {n : ℕ} (h : ∀ a, InCells p n a → m' a = m a) :
    cellsAt m' p n = cellsAt m p n :=
  List.map_congr_left fun _ hi => h _ (inCells_add (List.mem_range.mp hi))

theorem gather_congr {m' : BitVec w → α} {n : ℕ}
    (h : ∀ a i, i < n → InCells (p + stride * BitVec.ofNat w i) size a → m' a = m a) :
    gather m' p size stride n = gather m p size stride n := by
  induction n generalizing p with
  | zero => rfl
  | succ n ih =>
    rw [gather, gather, cellsAt_congr fun a ha => h a 0 (Nat.succ_pos n) (by simpa using ha), ih fun a i hi ha => ?_]
    refine h a (i + 1) (Nat.succ_lt_succ hi) ?_
    rw [Nat.add_comm i 1, BitVec.ofNat_add, BitVec.mul_add, ← BitVec.add_assoc]
    simpa using ha

theorem storeCells_of_not {l : List α} {a : BitVec w} (h : ¬InCells p l.length a) : storeCells m p l a = m a := by
  rw [storeCells, List.getElem?_eq_none (Nat.not_lt.mp h), Option.getD_none]

theorem cellsAt_storeCells {l : List α} (h : l.length ≤ 2 ^ w) : cellsAt (storeCells m p l) p l.length = l := by
  refine List.ext_getElem (length_cellsAt ..) fun i hi hi' => ?_
  have hmod : i % 2 ^ w = i := Nat.mod_eq_of_lt (by omega)
  simp [cellsAt, storeCells, hmod, hi']

/-! Cells from `p` on, and those from `k` further on. -/

theorem toNat_sub_of_add (a : BitVec w) (k : ℕ) :
    (a - p).toNat = ((a - (p + BitVec.ofNat w k)).toNat + k) % 2 ^ w := by
  have h : a - p = (a - (p + BitVec.ofNat w k)) + BitVec.ofNat w k := by
    rw [← BitVec.sub_sub, BitVec.sub_add_cancel]
  rw [h, BitVec.toNat_add, BitVec.toNat_ofNat, Nat.add_mod_mod]

theorem InCells.of_add {k n N : ℕ} {a : BitVec w} (h : InCells (p + BitVec.ofNat w k) n a) (hle : k + n ≤ N) :
    InCells p N a := by
  unfold InCells at h ⊢
  rw [toNat_sub_of_add a k]
  have := Nat.mod_le ((a - (p + BitVec.ofNat w k)).toNat + k) (2 ^ w)
  omega

theorem InCells.not_add {k n : ℕ} {a : BitVec w} (h : InCells p k a) (hle : k + n ≤ 2 ^ w) :
    ¬InCells (p + BitVec.ofNat w k) n a := by
  intro h'
  unfold InCells at h h'
  rw [toNat_sub_of_add a k, Nat.mod_eq_of_lt (by omega)] at h
  omega

end Lib

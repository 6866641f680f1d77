import Mathlib.Data.List.Perm.Basic
import Mathlib.Data.List.Nodup
import Realm.Lib.Int32

/-!
# Realm.Endpoint.MessageIds — the ids of the long messages of an endpoint

`send_long` takes an id with `next_outgoing_message_id++`, on an `int` and after the lock of the endpoint was dropped,
so that a pusher reads the counter and writes it back in two accesses.

* `load`, `store`: the two accesses; `use`: the message goes out with its id.
* `Inv`: the ids are those from zero on, each once, if no pusher reads the counter before another has written it back.
-/

namespace Realm

open Lib

/-- `next_outgoing_message_id`, the values of the pushers that have read it and not written it back, and the ids of the
messages that are not sent yet. -/
structure MessageIds where
  next : ℤ
  loaded : List ℤ
  taken : List ℤ

namespace MessageIds

def init : MessageIds := ⟨0, [], []⟩

def load (c : MessageIds) : MessageIds := { c with loaded := c.loaded ++ [c.next] }

def store (c : MessageIds) (v : ℤ) : Option MessageIds :=
  if v ∈ c.loaded then some ⟨int32 (v + 1), c.loaded.erase v, c.taken ++ [v]⟩ else none

def use (c : MessageIds) (v : ℤ) : Option MessageIds :=
  if v ∈ c.taken then some { c with taken := c.taken.erase v } else none

/-- No other pusher is between its two accesses, and the counter has not run over. -/
def Alone (c : MessageIds) : Prop := c.loaded = [] ∧ 0 ≤ c.next

instance (c : MessageIds) : Decidable c.Alone := inferInstanceAs (Decidable (_ ∧ _))

/-- `n` ids were read; `used` are those of the messages that were sent. -/
structure Counts (c : MessageIds) (used : List ℤ) (n : ℕ) : Prop where
  le : n ≤ 2 ^ 31
  ids : (used ++ (c.taken ++ c.loaded)).Perm ((List.range n).map fun i : ℕ => int32 i)
  counter : c.loaded = [] ∧ c.next = int32 n ∨ c.loaded = [c.next] ∧ int32 (c.next + 1) = int32 n

def Inv (c : MessageIds) (used : List ℤ) : Prop := ∃ n, Counts c used n

variable {c c' : MessageIds} {used : List ℤ} {v : ℤ}

theorem Inv.init : Inv init [] :=
  ⟨0, Nat.zero_le _, .refl _, .inl ⟨rfl, (int32_eq_self (x := 0) (by omega) (by omega)).symm⟩⟩

theorem Inv.load (h : Inv c used) (halone : c.Alone) : Inv c.load used := by
  obtain ⟨n, hle, hids, hcounter⟩ := h
  obtain ⟨hnone, hpos⟩ := halone
  obtain ⟨-, hnext⟩ | ⟨hone, -⟩ := hcounter
  · have hlt : n < 2 ^ 31 := by
      by_contra hge
      obtain rfl : n = 2 ^ 31 := Nat.le_antisymm hle (Nat.not_lt.mp hge)
      rw [hnext] at hpos
      exact absurd ((int32_neg_iff (x := (2 ^ 31 : ℕ)) (by omega) (by omega)).mpr (by omega)) (not_lt.mpr hpos)
    refine ⟨n + 1, hlt, ?_, .inr ⟨?_, ?_⟩⟩
    · rw [hnone, List.append_nil] at hids
      rw [MessageIds.load, hnone, hnext, List.range_succ, List.map_append, List.nil_append, ← List.append_assoc]
      exact hids.append_right _
    · rw [MessageIds.load, hnone]
      rfl
    · change int32 (c.next + 1) = _
      rw [hnext, int32_int32_add]
      rfl
  · cases hnone.symm.trans hone

theorem Inv.store (h : Inv c used) (hstore : c.store v = some c') : Inv c' used := by
  obtain ⟨n, hle, hids, hcounter⟩ := h
  obtain ⟨hv, heq⟩ := Option.ite_none_right_eq_some.mp hstore
  obtain rfl := Option.some.inj heq
  obtain ⟨hnone, -⟩ | ⟨hone, hnext⟩ := hcounter
  · rw [hnone] at hv
    cases hv
  · rw [hone] at hv hids
    obtain rfl := List.mem_singleton.mp hv
    refine ⟨n, hle, ?_, .inl ⟨?_, hnext⟩⟩
    · rw [hone]
      simpa using hids
    · rw [hone, List.erase_cons_head]

theorem Inv.use (h : Inv c used) (huse : c.use v = some c') : Inv c' (used ++ [v]) := by
  obtain ⟨n, hle, hids, hcounter⟩ := h
  obtain ⟨hv, heq⟩ := Option.ite_none_right_eq_some.mp huse
  obtain rfl := Option.some.inj heq
  refine ⟨n, hle, ?_, hcounter⟩
  refine List.Perm.trans ?_ hids
  rw [List.append_assoc]
  refine List.Perm.append_left _ ?_
  rw [← List.append_assoc]
  exact ((List.perm_cons_erase hv).symm).append_right _

theorem nodup_int32_range {n : ℕ} (h : n ≤ 2 ^ 32) : ((List.range n).map (fun i : ℕ => int32 i)).Nodup := by
  refine (List.nodup_range).map_on fun i hi j hj heq => ?_
  rw [List.mem_range] at hi hj
  have hij := (int32_inj (x := i) (y := j) (by omega) (by omega)).mp heq
  omega

theorem Inv.nodup (h : Inv c used) : (used ++ (c.taken ++ c.loaded)).Nodup := by
  obtain ⟨n, hle, hids, -⟩ := h
  exact hids.nodup_iff.mpr (nodup_int32_range (by omega))

/-- The ids of the messages that were sent differ, and the next message has another one. -/
theorem Inv.nodup_used (h : Inv c used) : used.Nodup := h.nodup.of_append_left

theorem Inv.not_mem_of_use (h : Inv c used) (huse : c.use v = some c') : v ∉ used := by
  obtain ⟨hv, -⟩ := Option.ite_none_right_eq_some.mp huse
  exact fun hmem => List.disjoint_of_nodup_append h.nodup hmem (List.mem_append_left _ hv)

end MessageIds

end Realm

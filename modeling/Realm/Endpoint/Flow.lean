import Mathlib.Data.List.Basic
import Mathlib.Logic.Function.Basic
import Realm.Lib.Int32
import Realm.Endpoint.Basic

/-!
# Realm.Endpoint.Flow — flow control of the long message buffers

The abstract view of one direction of a link: which payloads lie in the buffers, which flip requests and
acknowledgements are under way, and the counters of both sides.  A buffer is in one of four phases
(`Phase`): open for writing, flipped with the request under way, waiting for its last payloads, and
acknowledged.

* `FlowStep`: the six things that can happen, whoever does them.
* `Flow.Inv`: every buffer is in a phase, and the open one is written in ascending order.
* `Flow.Inv.step`: kept by every step, as long as the payloads of a buffer can be counted in 32 bits.
-/

namespace Realm

open Lib

/-- A payload in a buffer. -/
structure Slot where
  buffer : ℕ
  offset : ℕ
  size : ℕ
deriving DecidableEq

/-- A flip request that was not handled yet: the count it carries, and the number of payloads that were
placed in the buffer. -/
structure FlipRequest where
  buffer : ℕ
  count : ℤ
  placed : ℕ
deriving DecidableEq

/-- One direction of a link.  `placed` is the number that `count` stands for. -/
structure Flow where
  slots : List Slot
  flips : List FlipRequest
  acks : ℕ → ℕ
  cur : ℕ
  count : ℤ
  offset : ℕ
  placed : ℕ
  avail : ℕ → Bool
  rCounts : ℕ → ℤ

namespace Flow

/-- A new receive count; zero queues an acknowledgement. -/
def setRCount (f : Flow) (b : ℕ) (r : ℤ) : Flow :=
  { f with
    rCounts := Function.update f.rCounts b r
    acks := if r = 0 then Function.update f.acks b (f.acks b + 1) else f.acks }

/-- The payload of `n` bytes goes to the current buffer. -/
def place (f : Flow) (n : ℕ) : Flow :=
  { f with
    slots := f.slots ++ [⟨f.cur, f.offset, n⟩]
    offset := Endpoint.align128 (f.offset + n)
    count := int32 (f.count + 1)
    placed := f.placed + 1 }

/-- The current buffer is closed and the next one becomes current. -/
def flip (numLmbs : ℕ) (f : Flow) : Flow :=
  { f with
    flips := f.flips ++ [⟨f.cur, f.count, f.placed⟩]
    avail := Function.update f.avail f.cur false
    cur := (f.cur + 1) % numLmbs
    offset := 0
    count := 0
    placed := 0 }

/-- An acknowledgement reaches the sender. -/
def ack (f : Flow) (b : ℕ) : Flow :=
  { f with acks := Function.update f.acks b (f.acks b - 1), avail := Function.update f.avail b true }

/-- The payloads of buffer `b`. -/
def live (f : Flow) (b : ℕ) : ℕ := f.slots.countP (·.buffer = b)

/-- The payloads that the sender has placed in `b` since it last became current. -/
def placedIn (f : Flow) (b : ℕ) : ℕ := if b = f.cur then f.placed else 0

/-- The flip requests of `b`. -/
def flipsOf (f : Flow) (b : ℕ) : List FlipRequest := f.flips.filter (·.buffer = b)

end Flow

/-- One step of the flow control between buffers of `lmbSize` bytes. -/
inductive FlowStep (numLmbs lmbSize : ℕ) (f : Flow) : Flow → Prop
  | stutter : FlowStep numLmbs lmbSize f f
  | place {n : ℕ} (ha : f.avail f.cur = true) (h0 : 0 < n) (hfit : f.offset + n ≤ lmbSize) :
    FlowStep numLmbs lmbSize f (f.place n)
  | flip (ha : f.avail f.cur = true) : FlowStep numLmbs lmbSize f (f.flip numLmbs)
  | flipRequest {A B : List FlipRequest} {q : FlipRequest} (h : f.flips = A ++ q :: B) :
    FlowStep numLmbs lmbSize f
      ({ f with flips := A ++ B }.setRCount q.buffer (int32 (f.rCounts q.buffer - q.count)))
  | msgptr {A B : List Slot} {p : Slot} (h : f.slots = A ++ p :: B) :
    FlowStep numLmbs lmbSize f
      ({ f with slots := A ++ B }.setRCount p.buffer (int32 (f.rCounts p.buffer + 1)))
  | ack {b : ℕ} (h : 0 < f.acks b) : FlowStep numLmbs lmbSize f (f.ack b)

/-! ## The phases of a buffer -/

/-- The life of a buffer, by: whether the sender may write, the flip requests and acknowledgements under
way, the payloads that were not counted, those placed since it last became current, and the receive count. -/
inductive Phase (lmbSize b : ℕ) : Bool → List FlipRequest → ℕ → ℕ → ℕ → ℤ → Prop
  | writing {live placed : ℕ} (h : live ≤ placed) :
    Phase lmbSize b true [] 0 live placed (int32 (placed - live))
  | flipped {live k placed : ℕ} (h : live ≤ k) (hk : 128 * k ≤ lmbSize) :
    Phase lmbSize b false [⟨b, int32 k, k⟩] 0 live placed (int32 (k - live))
  | draining {live placed : ℕ} (h : 0 < live) (hk : 128 * live ≤ lmbSize) :
    Phase lmbSize b false [] 0 live placed (int32 (-live))
  | acked {placed : ℕ} : Phase lmbSize b false [] 1 0 placed 0

namespace Phase

variable {lmbSize b : ℕ} {flips : List FlipRequest} {avail : Bool} {acks live placed : ℕ} {r : ℤ}

theorem place (h : Phase lmbSize b true flips acks live placed r) :
    Phase lmbSize b true flips acks (live + 1) (placed + 1) r := by
  cases h with
  | writing h =>
    have hr : int32 ((placed : ℤ) - live) = int32 ((placed + 1 : ℕ) - (live + 1 : ℕ)) := by
      congr 1
      omega
    rw [hr]
    exact .writing (by omega)

theorem flip (h : Phase lmbSize b true flips acks live placed r) (hk : 128 * placed ≤ lmbSize) :
    Phase lmbSize b false (flips ++ [⟨b, int32 placed, placed⟩]) acks live 0 r := by
  cases h with
  | writing h => exact .flipped h hk

theorem avail_of_acks (h : Phase lmbSize b avail flips (acks + 1) live placed r) : avail = false := by
  cases h with
  | acked => rfl

theorem ack (h : Phase lmbSize b avail flips (acks + 1) live 0 r) :
    live = 0 ∧ Phase lmbSize b true flips acks live 0 r := by
  cases h with
  | acked => exact ⟨rfl, .writing le_rfl⟩

/-- The request brings the count down to minus the number of missing payloads. -/
theorem flipRequest {q : FlipRequest} {A B : List FlipRequest} (hlt : lmbSize < 2 ^ 39)
    (h : Phase lmbSize b avail (A ++ q :: B) acks live placed r) :
    Phase lmbSize b avail (A ++ B) (if int32 (r - q.count) = 0 then acks + 1 else acks) live placed
      (int32 (r - q.count)) := by
  generalize hfl : A ++ q :: B = fl at h
  cases h with
  | writing h => simp at hfl
  | draining h hk => simp at hfl
  | acked => simp at hfl
  | @flipped _ k _ h hk =>
    obtain ⟨rfl, hqB⟩ : A = [] ∧ q :: B = [⟨b, int32 k, k⟩] := by
      rcases List.append_eq_singleton_iff.mp hfl with h | h
      · exact h
      · simp at h
    obtain ⟨rfl, rfl⟩ : q = ⟨b, int32 k, k⟩ ∧ B = [] := by simpa using hqB
    have hr : int32 (int32 ((k : ℤ) - live) - int32 k) = int32 (-live) := by
      rw [int32_int32_sub, int32_sub_int32]
      congr 1
      omega
    simp only [hr, List.nil_append]
    by_cases h0 : live = 0
    · subst h0
      exact .acked
    · rw [if_neg (by rw [int32_eq_zero_iff] <;> omega)]
      exact .draining (Nat.pos_of_ne_zero h0) (by omega)

/-- A payload is counted; the last one of a flipped buffer brings the count up to zero. -/
theorem msgptr (hlt : lmbSize < 2 ^ 39) (hp : 128 * placed ≤ lmbSize)
    (h : Phase lmbSize b avail flips acks (live + 1) placed r) :
    Phase lmbSize b avail flips (if int32 (r + 1) = 0 then acks + 1 else acks) live placed
      (int32 (r + 1)) := by
  generalize hl : live + 1 = l at h
  cases h with
  | writing h =>
    have hr : int32 (int32 ((placed : ℤ) - l) + 1) = int32 ((placed : ℤ) - live) := by
      rw [int32_int32_add]
      congr 1
      omega
    rw [hr, if_neg (by rw [int32_eq_zero_iff] <;> omega)]
    exact .writing (by omega)
  | @flipped _ k _ h hk =>
    have hr : int32 (int32 ((k : ℤ) - l) + 1) = int32 ((k : ℤ) - live) := by
      rw [int32_int32_add]
      congr 1
      omega
    rw [hr, if_neg (by rw [int32_eq_zero_iff] <;> omega)]
    exact .flipped (by omega) hk
  | draining h hk =>
    have hr : int32 (int32 (-l) + 1) = int32 (-live) := by
      rw [int32_int32_add]
      congr 1
      omega
    rw [hr]
    by_cases h0 : live = 0
    · subst h0
      exact .acked
    · rw [if_neg (by rw [int32_eq_zero_iff] <;> omega)]
      exact .draining (Nat.pos_of_ne_zero h0) (by omega)
  | acked => omega

end Phase

/-! ## The invariant -/

namespace Flow

/-- Every buffer is in a phase; the payloads in the writable current buffer end below its write offset. -/
structure Inv (numLmbs lmbSize : ℕ) (f : Flow) : Prop where
  cur_lt : f.cur < numLmbs
  count_eq : f.count = int32 f.placed
  placed_le : 128 * f.placed ≤ f.offset
  offset_le : f.offset ≤ lmbSize
  offset_dvd : 128 ∣ f.offset
  waiting : f.avail f.cur = false → f.placed = 0 ∧ f.offset = 0
  inside : ∀ p ∈ f.slots, p.buffer < numLmbs ∧ 0 < p.size ∧ 128 ∣ p.offset ∧ p.offset + p.size ≤ lmbSize
  below : f.avail f.cur = true → ∀ p ∈ f.slots, p.buffer = f.cur → p.offset + p.size ≤ f.offset
  phase : ∀ b < numLmbs,
    Phase lmbSize b (f.avail b) (f.flipsOf b) (f.acks b) (f.live b) (f.placedIn b) (f.rCounts b)

variable {numLmbs lmbSize : ℕ} {f : Flow}

theorem Inv.placedIn_le (hf : Inv numLmbs lmbSize f) (b : ℕ) : 128 * f.placedIn b ≤ lmbSize := by
  have h1 := hf.placed_le
  have h2 := hf.offset_le
  unfold placedIn
  split <;> omega

/-- The payloads in a buffer that the sender may write to are those it has placed there. -/
theorem Inv.live_le (hf : Inv numLmbs lmbSize f) {b : ℕ} (hb : b < numLmbs) (ha : f.avail b = true) :
    f.live b ≤ f.placedIn b := by
  have h := hf.phase b hb
  rw [ha] at h
  generalize f.flipsOf b = flips at h
  generalize f.acks b = acks at h
  generalize f.rCounts b = r at h
  cases h with
  | writing h => exact h

theorem not_mem_of_live_eq_zero {b : ℕ} (h : f.live b = 0) {p : Slot} (hp : p ∈ f.slots) : p.buffer ≠ b := by
  intro hb
  have := List.countP_eq_zero.mp h p hp
  simp [hb] at this

theorem Inv.place (hf : Inv numLmbs lmbSize f) (hz : 128 ∣ lmbSize) {n : ℕ}
    (ha : f.avail f.cur = true) (h0 : 0 < n) (hfit : f.offset + n ≤ lmbSize) :
    Inv numLmbs lmbSize (f.place n) where
  cur_lt := hf.cur_lt
  count_eq := by
    change int32 (f.count + 1) = int32 ((f.placed + 1 : ℕ) : ℤ)
    rw [hf.count_eq, int32_int32_add]
    rfl
  placed_le := by
    have h1 := hf.placed_le
    have h2 := hf.offset_dvd
    have h3 := Endpoint.le_align128 (f.offset + n)
    have h4 := Endpoint.dvd_align128 (f.offset + n)
    change 128 * (f.placed + 1) ≤ Endpoint.align128 (f.offset + n)
    omega
  offset_le := Endpoint.align128_le hfit hz
  offset_dvd := Endpoint.dvd_align128 _
  waiting := fun h => absurd (ha.symm.trans h) (by decide)
  inside := by
    intro p hp
    rcases List.mem_append.mp hp with hp | hp
    · exact hf.inside p hp
    · obtain rfl := List.mem_singleton.mp hp
      exact ⟨hf.cur_lt, h0, hf.offset_dvd, hfit⟩
  below := by
    intro _ p hp hpb
    have h3 := Endpoint.le_align128 (f.offset + n)
    change p.offset + p.size ≤ Endpoint.align128 (f.offset + n)
    rcases List.mem_append.mp hp with hp | hp
    · have := hf.below ha p hp hpb
      omega
    · obtain rfl := List.mem_singleton.mp hp
      dsimp only
      omega
  phase := by
    intro b hb
    have h := hf.phase b hb
    by_cases hbc : b = f.cur
    · subst hbc
      have hl : (f.place n).live f.cur = f.live f.cur + 1 := by
        simp [Flow.place, live, List.countP_append]
      have hp : (f.place n).placedIn f.cur = f.placedIn f.cur + 1 := by
        simp [Flow.place, placedIn]
      rw [hl, hp]
      rw [ha] at h
      change Phase lmbSize f.cur (f.avail f.cur) _ _ _ _ _
      rw [ha]
      exact h.place
    · have hl : (f.place n).live b = f.live b := by
        simp [Flow.place, live, List.countP_append, Ne.symm hbc]
      have hp : (f.place n).placedIn b = f.placedIn b := by
        simp [Flow.place, placedIn, hbc]
      rw [hl, hp]
      exact h

theorem Inv.flip (hf : Inv numLmbs lmbSize f) (hn : 1 ≤ numLmbs) (ha : f.avail f.cur = true) :
    Inv numLmbs lmbSize (f.flip numLmbs) where
  cur_lt := Nat.mod_lt _ hn
  count_eq := (int32_eq_self (x := 0) (by omega) (by omega)).symm
  placed_le := Nat.le_refl 0
  offset_le := Nat.zero_le _
  offset_dvd := ⟨0, rfl⟩
  waiting := fun _ => ⟨rfl, rfl⟩
  inside := hf.inside
  below := by
    -- the new current buffer was idle, so nothing is in it
    intro hav p hp hpb
    have hne : (f.cur + 1) % numLmbs ≠ f.cur := by
      intro h
      simp [Flow.flip, h] at hav
    have hav' : f.avail ((f.cur + 1) % numLmbs) = true := by
      simpa [Flow.flip, Function.update_of_ne hne] using hav
    have hlive := hf.live_le (Nat.mod_lt _ hn) hav'
    rw [placedIn, if_neg hne] at hlive
    exact absurd hpb (not_mem_of_live_eq_zero (Nat.le_zero.mp hlive) hp)
  phase := by
    intro b hb
    have h := hf.phase b hb
    by_cases hbc : b = f.cur
    · subst hbc
      have hpl : f.placedIn f.cur = f.placed := if_pos rfl
      have hp : (f.flip numLmbs).placedIn f.cur = 0 := ite_self _
      have hfl : (f.flip numLmbs).flipsOf f.cur = f.flipsOf f.cur ++ [⟨f.cur, int32 f.placed, f.placed⟩] := by
        simp [Flow.flip, flipsOf, List.filter_append, hf.count_eq]
      have hav : (f.flip numLmbs).avail f.cur = false := by simp [Flow.flip]
      rw [hp, hfl, hav]
      rw [ha, hpl] at h
      exact h.flip (hpl ▸ hf.placedIn_le f.cur)
    · have hp : (f.flip numLmbs).placedIn b = f.placedIn b := by
        rw [placedIn, placedIn, if_neg hbc]
        exact ite_self _
      have hfl : (f.flip numLmbs).flipsOf b = f.flipsOf b := by
        simp [Flow.flip, flipsOf, List.filter_append, Ne.symm hbc]
      have hav : (f.flip numLmbs).avail b = f.avail b := by simp [Flow.flip, hbc]
      rw [hp, hfl, hav]
      exact h

theorem setRCount_acks (f : Flow) (b b' : ℕ) (r : ℤ) :
    (f.setRCount b r).acks b' = if b' = b then if r = 0 then f.acks b + 1 else f.acks b else f.acks b' := by
  unfold setRCount
  by_cases hr : r = 0 <;> by_cases hb : b' = b <;> simp [hr, hb]

theorem setRCount_rCounts (f : Flow) (b b' : ℕ) (r : ℤ) :
    (f.setRCount b r).rCounts b' = if b' = b then r else f.rCounts b' := by
  unfold setRCount
  by_cases hb : b' = b <;> simp [hb]

/-- A new receive count touches the phase of its own buffer only. -/
theorem Inv.setRCount (hf : Inv numLmbs lmbSize f) {b : ℕ} {r : ℤ} {slots : List Slot}
    {flips : List FlipRequest} (hsub : slots ⊆ f.slots)
    (hfl : ∀ b', b' ≠ b → flips.filter (·.buffer = b') = f.flipsOf b')
    (hlive : ∀ b', b' ≠ b → slots.countP (·.buffer = b') = f.live b')
    (hb : b < numLmbs → Phase lmbSize b (f.avail b) (flips.filter (·.buffer = b))
      (if r = 0 then f.acks b + 1 else f.acks b) (slots.countP (·.buffer = b)) (f.placedIn b) r) :
    Inv numLmbs lmbSize ({ f with slots := slots, flips := flips }.setRCount b r) where
  cur_lt := hf.cur_lt
  count_eq := hf.count_eq
  placed_le := hf.placed_le
  offset_le := hf.offset_le
  offset_dvd := hf.offset_dvd
  waiting := hf.waiting
  inside := fun p hp => hf.inside p (hsub hp)
  below := fun h p hp => hf.below h p (hsub hp)
  phase := by
    intro b' hb'
    rw [setRCount_acks, setRCount_rCounts]
    by_cases h : b' = b
    · subst h
      rw [if_pos rfl, if_pos rfl]
      exact hb hb'
    · rw [if_neg h, if_neg h]
      have hphase := hf.phase b' hb'
      rw [← hfl b' h, ← hlive b' h] at hphase
      exact hphase

theorem Inv.flipRequest (hf : Inv numLmbs lmbSize f) (hlt : lmbSize < 2 ^ 39)
    {A B : List FlipRequest} {q : FlipRequest} (h : f.flips = A ++ q :: B) :
    Inv numLmbs lmbSize
      ({ f with flips := A ++ B }.setRCount q.buffer (int32 (f.rCounts q.buffer - q.count))) := by
  refine hf.setRCount (List.Subset.refl _) ?_ (fun _ _ => rfl) fun hb => ?_
  · intro b' hb'
    simp [flipsOf, h, Ne.symm hb']
  · have hphase := hf.phase q.buffer hb
    have hfl : f.flipsOf q.buffer =
        A.filter (·.buffer = q.buffer) ++ q :: B.filter (·.buffer = q.buffer) := by
      simp [flipsOf, h]
    rw [hfl] at hphase
    rw [List.filter_append]
    exact hphase.flipRequest hlt

theorem Inv.msgptr (hf : Inv numLmbs lmbSize f) (hlt : lmbSize < 2 ^ 39) {A B : List Slot} {p : Slot}
    (h : f.slots = A ++ p :: B) :
    Inv numLmbs lmbSize
      ({ f with slots := A ++ B }.setRCount p.buffer (int32 (f.rCounts p.buffer + 1))) := by
  refine hf.setRCount ?_ (fun _ _ => rfl) ?_ fun hb => ?_
  · rw [h]
    exact List.append_subset.mpr ⟨List.subset_append_left _ _,
      fun x hx => List.mem_append_right _ (List.mem_cons_of_mem _ hx)⟩
  · intro b' hb'
    simp [live, h, Ne.symm hb']
  · have hphase := hf.phase p.buffer hb
    have hl : f.live p.buffer = (A ++ B).countP (·.buffer = p.buffer) + 1 := by
      simp [live, h]
      omega
    rw [hl] at hphase
    exact hphase.msgptr hlt (hf.placedIn_le _)

theorem Inv.ack (hf : Inv numLmbs lmbSize f) {b : ℕ} (h : 0 < f.acks b) :
    (b < numLmbs → f.live b = 0) ∧ Inv numLmbs lmbSize (f.ack b) := by
  -- an acknowledged buffer was not written to since its flip
  have hphase : ∀ hb : b < numLmbs, f.avail b = false ∧ f.placedIn b = 0 ∧ f.live b = 0 ∧
      Phase lmbSize b true (f.flipsOf b) (f.acks b - 1) (f.live b) 0 (f.rCounts b) := by
    intro hb
    have hp := hf.phase b hb
    obtain ⟨a, ha⟩ : ∃ a, f.acks b = a + 1 := ⟨f.acks b - 1, by omega⟩
    rw [ha] at hp ⊢
    have hav := hp.avail_of_acks
    have hpl : f.placedIn b = 0 := by
      unfold placedIn
      split
      · rename_i hbc
        exact (hf.waiting (hbc ▸ hav)).1
      · rfl
    rw [hpl] at hp
    obtain ⟨hl, hp⟩ := hp.ack
    exact ⟨hav, hpl, hl, hp⟩
  refine ⟨fun hb => (hphase hb).2.2.1,
    { cur_lt := hf.cur_lt
      count_eq := hf.count_eq
      placed_le := hf.placed_le
      offset_le := hf.offset_le
      offset_dvd := hf.offset_dvd
      waiting := ?_
      inside := hf.inside
      below := ?_
      phase := ?_ }⟩
  · intro h
    by_cases hbc : f.cur = b
    · simp [Flow.ack, hbc] at h
    · rw [show (f.ack b).avail (f.ack b).cur = f.avail f.cur from Function.update_of_ne hbc _ _] at h
      exact hf.waiting h
  · intro h p hp hpb
    by_cases hbc : f.cur = b
    · have hl := (hphase (hbc ▸ hf.cur_lt)).2.2.1
      exact absurd (hpb.trans hbc) (not_mem_of_live_eq_zero hl hp)
    · rw [show (f.ack b).avail (f.ack b).cur = f.avail f.cur from Function.update_of_ne hbc _ _] at h
      exact hf.below h p hp hpb
  · intro b' hb'
    by_cases h : b' = b
    · subst h
      obtain ⟨-, hpl, -, hp⟩ := hphase hb'
      change Phase lmbSize b' (Function.update f.avail b' true b') _
        (Function.update f.acks b' (f.acks b' - 1) b') (f.live b') (f.placedIn b') _
      rw [Function.update_self, Function.update_self, hpl]
      exact hp
    · change Phase lmbSize b' (Function.update f.avail b true b') _
        (Function.update f.acks b (f.acks b - 1) b') _ _ _
      rw [Function.update_of_ne h, Function.update_of_ne h]
      exact hf.phase b' hb'

/-- **The invariant is kept** by every step. -/
theorem Inv.step (hn : 1 ≤ numLmbs) (hz : 128 ∣ lmbSize) (hlt : lmbSize < 2 ^ 39)
    (hf : Inv numLmbs lmbSize f) {g : Flow} (h : FlowStep numLmbs lmbSize f g) :
    Inv numLmbs lmbSize g := by
  cases h with
  | stutter => exact hf
  | place ha h0 hfit => exact hf.place hz ha h0 hfit
  | flip ha => exact hf.flip hn ha
  | flipRequest h => exact hf.flipRequest hlt h
  | msgptr h => exact hf.msgptr hlt h
  | ack h => exact (hf.ack h).2

/-- **A step is safe** in the states of the invariant: a new payload goes above everything in its buffer,
and a buffer comes back empty. -/
theorem Inv.safe (hf : Inv numLmbs lmbSize f) {g : Flow} (h : FlowStep numLmbs lmbSize f g) :
    (∀ p, g.slots = f.slots ++ [p] → p.buffer < numLmbs ∧ p.offset + p.size ≤ lmbSize ∧
      ∀ q ∈ f.slots, q.buffer = p.buffer → q.offset + q.size ≤ p.offset) ∧
    (∀ b, f.avail b = false → g.avail b = true → ∀ q ∈ f.slots, q.buffer ≠ b) := by
  have hgrow : ∀ {l : List Slot} {p : Slot}, l = l ++ [p] → False := by
    intro l p h
    have := congrArg List.length h
    simp at this
  have hstay : ∀ b, f.avail b = false → f.avail b = true → ∀ q ∈ f.slots, q.buffer ≠ b :=
    fun b h0 h1 => absurd (h0.symm.trans h1) (by decide)
  cases h with
  | stutter => exact ⟨fun p hp => (hgrow hp).elim, hstay⟩
  | @place n ha h0 hfit =>
    refine ⟨fun p hp => ?_, hstay⟩
    obtain rfl : ⟨f.cur, f.offset, n⟩ = p := by simpa [Flow.place] using hp
    exact ⟨hf.cur_lt, hfit, fun q hq hqb => hf.below ha q hq hqb⟩
  | flip ha =>
    refine ⟨fun p hp => (hgrow hp).elim, fun b h0 h1 => ?_⟩
    by_cases hb : b = f.cur
    · simp [Flow.flip, hb] at h1
    · exact hstay b h0 (by simpa [Flow.flip, hb] using h1)
  | flipRequest h => exact ⟨fun p hp => (hgrow hp).elim, hstay⟩
  | @msgptr A B p h =>
    refine ⟨fun q hq => ?_, hstay⟩
    have hlen := congrArg List.length hq
    simp [Flow.setRCount, h] at hlen
    omega
  | @ack b' h =>
    refine ⟨fun p hp => (hgrow hp).elim, fun b h0 h1 q hq hqb => ?_⟩
    by_cases hb : b = b'
    · subst hb
      have hl := (hf.ack h).1 (hqb ▸ (hf.inside q hq).1)
      exact not_mem_of_live_eq_zero hl hq hqb
    · exact hstay b h0 (by simpa [Flow.ack, hb] using h1) q hq hqb

end Flow

end Realm

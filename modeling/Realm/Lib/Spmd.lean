import Mathlib.Data.DFinsupp.WellFounded
import Mathlib.Logic.Function.Basic
import Realm.Lib.Run

/-!
# Realm.Lib.Spmd — programs that several nodes run together, with collective operations

Every node runs its own program, and the `c`th collective operation of a node belongs to the `c`th one of every other
node.  The root of a `gather` waits for the values of all, the others go on at once; in a `bcast` it is the other way
round.

* `Spmd`, `Spmd.bind`: the program of one node.
* `State`, `step`: all nodes, in any interleaving.
* `Path`: how far one node has come, with what it was told; `nodeInv_of_run`: every run gives every node such a path.
* `Asks`: what a program may ask for.
* `Shape`, `enabled_of_shape`: nodes with the same sequence of collectives do not block each other.
* `acc_step`: no run goes on for ever.
-/

namespace Lib

/-- The program of one of `n` nodes, which ends with an `α`.  It exchanges values of type `ε`, and `call` is a request
to its own node that is answered from outside. -/
inductive Spmd (n : ℕ) (ε ω α : Type)
  | ret (a : α)
  | call (q : ω) (k : ε → Spmd n ε ω α)
  | gather (root : Fin n) (v : ε) (k : Option (Fin n → ε) → Spmd n ε ω α)
  | bcast (root : Fin n) (v : ε) (k : ε → Spmd n ε ω α)

namespace Spmd

variable {n : ℕ} {ε ω α β : Type}

def bind : Spmd n ε ω α → (α → Spmd n ε ω β) → Spmd n ε ω β
  | ret a, f => f a
  | call q k, f => call q fun e => (k e).bind f
  | gather root v k, f => gather root v fun vs => (k vs).bind f
  | bcast root v k, f => bcast root v fun e => (k e).bind f

instance : Monad (Spmd n ε ω) where
  pure := ret
  bind := bind

inductive Op
  | gather
  | bcast
deriving DecidableEq

/-- What a node has contributed to a collective operation. -/
structure Post (n : ℕ) (ε : Type) where
  op : Op
  root : Fin n
  value : ε

/-- The next collective operation, if the program stands in front of one. -/
def post : Spmd n ε ω α → Option (Post n ε)
  | gather root v _ => some ⟨.gather, root, v⟩
  | bcast root v _ => some ⟨.bcast, root, v⟩
  | _ => none

/-! ## All nodes -/

/-- The program that is left for each node, what it has posted, how many collectives it has left behind, and the
answers to its calls. -/
structure State (n : ℕ) (ε ω α : Type) where
  prog : Fin n → Spmd n ε ω α
  posts : Fin n → List (Post n ε)
  done : Fin n → ℕ
  calls : Fin n → List (ω × ε)

def State.init (prog : Fin n → Spmd n ε ω α) : State n ε ω α := ⟨prog, fun _ => [], fun _ => 0, fun _ => []⟩

/-- The value that node `j` has posted to collective `c`, if it was the same operation with the same root. -/
def State.value (s : State n ε ω α) (op : Op) (root j : Fin n) (c : ℕ) : Option ε :=
  ((s.posts j)[c]?).bind fun p => if p.op = op ∧ p.root = root then some p.value else none

inductive Event (n : ℕ) (ε : Type)
  | answer (i : Fin n) (e : ε)
  | post (i : Fin n)
  | complete (i : Fin n)

/-- The program after the collective that it stands in front of. -/
def State.result (s : State n ε ω α) (i : Fin n) : Option (Spmd n ε ω α) :=
  match s.prog i with
  | gather root _ k =>
    if i = root then
      if h : ∀ j, (s.value .gather root j (s.done i)).isSome then
        some (k (some fun j => (s.value .gather root j (s.done i)).get (h j)))
      else none
    else some (k none)
  | bcast root _ k => (s.value .bcast root root (s.done i)).map k
  | _ => none

def step (s : State n ε ω α) : Event n ε → Option (State n ε ω α)
  | .answer i e =>
    match s.prog i with
    | call q k => some { s with
        prog := Function.update s.prog i (k e)
        calls := Function.update s.calls i (s.calls i ++ [(q, e)]) }
    | _ => none
  | .post i =>
    if (s.posts i).length = s.done i then
      (s.prog i).post.map fun p => { s with posts := Function.update s.posts i (s.posts i ++ [p]) }
    else none
  | .complete i =>
    if (s.posts i).length = s.done i + 1 then
      (s.result i).map fun p => { s with
        prog := Function.update s.prog i p
        done := Function.update s.done i (s.done i + 1) }
    else none

/-! ## The path of one node -/

/-- What node `j` has posted to collective `c`. -/
def State.posted (s : State n ε ω α) (j : Fin n) (c : ℕ) : Option (Post n ε) := (s.posts j)[c]?

/-- Node `i` gets from program `p`, with `c` collectives behind it, to `p'` with `c'`, if `P` tells what everybody posts
and `as` are its calls with the answers. -/
inductive Path (P : Fin n → ℕ → Option (Post n ε)) (i : Fin n) :
    ℕ → Spmd n ε ω α → List (ω × ε) → ℕ → Spmd n ε ω α → Prop
  | refl (c : ℕ) (p : Spmd n ε ω α) : Path P i c p [] c p
  | call {c c' : ℕ} {q : ω} {k : ε → Spmd n ε ω α} {e : ε} {as : List (ω × ε)} {p' : Spmd n ε ω α}
    (rest : Path P i c (k e) as c' p') : Path P i c (call q k) ((q, e) :: as) c' p'
  | root {c c' : ℕ} {r : Fin n} {v : ε} {k : Option (Fin n → ε) → Spmd n ε ω α} {vs : Fin n → ε} {as : List (ω × ε)}
    {p' : Spmd n ε ω α} (hroot : i = r) (own : P i c = some ⟨.gather, r, v⟩)
    (all : ∀ j, P j c = some ⟨.gather, r, vs j⟩) (rest : Path P i (c + 1) (k (some vs)) as c' p') :
    Path P i c (gather r v k) as c' p'
  | gather {c c' : ℕ} {r : Fin n} {v : ε} {k : Option (Fin n → ε) → Spmd n ε ω α} {as : List (ω × ε)}
    {p' : Spmd n ε ω α} (hroot : i ≠ r) (own : P i c = some ⟨.gather, r, v⟩)
    (rest : Path P i (c + 1) (k none) as c' p') : Path P i c (gather r v k) as c' p'
  | bcast {c c' : ℕ} {r : Fin n} {v v' : ε} {k : ε → Spmd n ε ω α} {as : List (ω × ε)} {p' : Spmd n ε ω α}
    (own : P i c = some ⟨.bcast, r, v⟩) (root : P r c = some ⟨.bcast, r, v'⟩)
    (rest : Path P i (c + 1) (k v') as c' p') : Path P i c (bcast r v k) as c' p'

section Path

variable {P P' : Fin n → ℕ → Option (Post n ε)} {i : Fin n} {c c' c'' : ℕ} {p p' p'' : Spmd n ε ω α}
  {as as' : List (ω × ε)}

theorem Path.mono (h : Path P i c p as c' p') (hP : ∀ j c x, P j c = some x → P' j c = some x) :
    Path P' i c p as c' p' := by
  induction h with
  | refl c p => exact .refl c p
  | call _ ih => exact .call ih
  | root hroot own all _ ih => exact .root hroot (hP _ _ _ own) (fun j => hP _ _ _ (all j)) ih
  | gather hroot own _ ih => exact .gather hroot (hP _ _ _ own) ih
  | bcast own root _ ih => exact .bcast (hP _ _ _ own) (hP _ _ _ root) ih

theorem Path.trans (h : Path P i c p as c' p') (h' : Path P i c' p' as' c'' p'') :
    Path P i c p (as ++ as') c'' p'' := by
  induction h with
  | refl c p => exact h'
  | call _ ih => exact .call (ih h')
  | root hroot own all _ ih => exact .root hroot own all (ih h')
  | gather hroot own _ ih => exact .gather hroot own (ih h')
  | bcast own root _ ih => exact .bcast own root (ih h')

/-- On the way through `p`, or behind it. -/
theorem Path.bind_cases {f : α → Spmd n ε ω β} {p' : Spmd n ε ω β} {as : List (ω × ε)}
    (h : Path P i c (p.bind f) as c' p') :
    (∃ q, Path P i c p as c' q ∧ (∀ a, q ≠ ret a) ∧ p' = q.bind f) ∨
      ∃ a c₁ as₁ as₂, Path P i c p as₁ c₁ (ret a) ∧ Path P i c₁ (f a) as₂ c' p' ∧ as = as₁ ++ as₂ := by
  induction p generalizing c as with
  | ret a => exact .inr ⟨a, c, [], as, .refl _ _, h, rfl⟩
  | call q k ih =>
    cases h with
    | refl => exact .inl ⟨_, .refl _ _, fun _ hq => (by cases hq), rfl⟩
    | call rest =>
      rcases ih _ rest with ⟨q', h', hq', heq⟩ | ⟨a, c₁, as₁, as₂, h₁, h₂, rfl⟩
      · exact .inl ⟨q', .call h', hq', heq⟩
      · exact .inr ⟨a, c₁, _, as₂, .call h₁, h₂, rfl⟩
  | gather r v k ih =>
    cases h with
    | refl => exact .inl ⟨_, .refl _ _, fun _ hq => (by cases hq), rfl⟩
    | root hroot own all rest =>
      rcases ih _ rest with ⟨q', h', hq', heq⟩ | ⟨a, c₁, as₁, as₂, h₁, h₂, rfl⟩
      · exact .inl ⟨q', .root hroot own all h', hq', heq⟩
      · exact .inr ⟨a, c₁, as₁, as₂, .root hroot own all h₁, h₂, rfl⟩
    | gather hroot own rest =>
      rcases ih _ rest with ⟨q', h', hq', heq⟩ | ⟨a, c₁, as₁, as₂, h₁, h₂, rfl⟩
      · exact .inl ⟨q', .gather hroot own h', hq', heq⟩
      · exact .inr ⟨a, c₁, as₁, as₂, .gather hroot own h₁, h₂, rfl⟩
  | bcast r v k ih =>
    cases h with
    | refl => exact .inl ⟨_, .refl _ _, fun _ hq => (by cases hq), rfl⟩
    | bcast own root rest =>
      rcases ih _ rest with ⟨q', h', hq', heq⟩ | ⟨a, c₁, as₁, as₂, h₁, h₂, rfl⟩
      · exact .inl ⟨q', .bcast own root h', hq', heq⟩
      · exact .inr ⟨a, c₁, as₁, as₂, .bcast own root h₁, h₂, rfl⟩

/-- The way through `p`, and then through what comes behind it. -/
theorem Path.of_bind {f : α → Spmd n ε ω β} {b : β} {as : List (ω × ε)} (h : Path P i c (p.bind f) as c' (ret b)) :
    ∃ a c₁ as₁ as₂, Path P i c p as₁ c₁ (ret a) ∧ Path P i c₁ (f a) as₂ c' (ret b) ∧ as = as₁ ++ as₂ := by
  rcases h.bind_cases with ⟨q, -, hq, heq⟩ | hpaths
  · cases q with
    | ret a => exact absurd rfl (hq a)
    | _ => cases heq
  · exact hpaths

/-- A path up to a collective that it goes through. -/
theorem Path.split {d : ℕ} (h : Path P i c p as c' p') (hd : c ≤ d) (hd' : d < c') :
    ∃ q x as₁ as₂, Path P i c p as₁ d q ∧ q.post = some x ∧ P i d = some x ∧ as = as₁ ++ as₂ := by
  induction h with
  | refl c p => exact absurd (Nat.lt_of_le_of_lt hd hd') (Nat.lt_irrefl c)
  | call _ ih =>
    obtain ⟨q, x, as₁, as₂, hpath, hq, hx, rfl⟩ := ih hd hd'
    exact ⟨q, x, _, as₂, .call hpath, hq, hx, rfl⟩
  | root hroot own all _ ih =>
    rcases Nat.eq_or_lt_of_le hd with rfl | hlt
    · exact ⟨_, _, [], _, .refl _ _, rfl, own, rfl⟩
    · obtain ⟨q, x, as₁, as₂, hpath, hq, hx, rfl⟩ := ih hlt hd'
      exact ⟨q, x, as₁, as₂, .root hroot own all hpath, hq, hx, rfl⟩
  | gather hroot own _ ih =>
    rcases Nat.eq_or_lt_of_le hd with rfl | hlt
    · exact ⟨_, _, [], _, .refl _ _, rfl, own, rfl⟩
    · obtain ⟨q, x, as₁, as₂, hpath, hq, hx, rfl⟩ := ih hlt hd'
      exact ⟨q, x, as₁, as₂, .gather hroot own hpath, hq, hx, rfl⟩
  | bcast own root _ ih =>
    rcases Nat.eq_or_lt_of_le hd with rfl | hlt
    · exact ⟨_, _, [], _, .refl _ _, rfl, own, rfl⟩
    · obtain ⟨q, x, as₁, as₂, hpath, hq, hx, rfl⟩ := ih hlt hd'
      exact ⟨q, x, as₁, as₂, .bcast own root hpath, hq, hx, rfl⟩

end Path

/-- A node has posted what it stands in front of, or not yet. -/
structure NodeInv (prog : Fin n → Spmd n ε ω α) (s : State n ε ω α) (i : Fin n) : Prop where
  path : Path s.posted i 0 (prog i) (s.calls i) (s.done i) (s.prog i)
  posts : (s.posts i).length = s.done i ∨ (s.posts i).length = s.done i + 1 ∧
    ∃ p, (s.prog i).post = some p ∧ s.posted i (s.done i) = some p

/-- How a node got to a collective that it has posted to. -/
theorem NodeInv.path_to {prog : Fin n → Spmd n ε ω α} {s : State n ε ω α} {i : Fin n} (h : NodeInv prog s i) {d : ℕ}
    {x : Post n ε} (hx : s.posted i d = some x) :
    ∃ q as₁ as₂, Path s.posted i 0 (prog i) as₁ d q ∧ q.post = some x ∧ s.calls i = as₁ ++ as₂ := by
  by_cases hd : d < s.done i
  · obtain ⟨q, y, as₁, as₂, hpath, hq, hy, heq⟩ := h.path.split (Nat.zero_le d) hd
    obtain rfl := Option.some.inj (hx.symm.trans hy)
    exact ⟨q, as₁, as₂, hpath, hq, heq⟩
  · have hlen := (List.getElem?_eq_some_iff.mp hx).1
    rcases h.posts with hposts | ⟨hposts, y, hy, hposted⟩
    · omega
    · obtain rfl : d = s.done i := by omega
      obtain rfl := Option.some.inj (hx.symm.trans hposted)
      exact ⟨_, _, [], h.path, hy, (List.append_nil _).symm⟩

theorem posted_append {s : State n ε ω α} {i j : Fin n} {c : ℕ} {x p : Post n ε} (h : s.posted j c = some x) :
    (Function.update s.posts i (s.posts i ++ [p]) j)[c]? = some x := by
  by_cases hij : j = i
  · subst hij
    rw [Function.update_self]
    exact List.getElem?_append_left (List.getElem?_eq_some_iff.mp h).1 ▸ h
  · rw [Function.update_of_ne hij]
    exact h

theorem posted_of_value {s : State n ε ω α} {op : Op} {root j : Fin n} {c : ℕ} {v : ε}
    (h : s.value op root j c = some v) : s.posted j c = some ⟨op, root, v⟩ := by
  obtain ⟨p, hp, hv⟩ := Option.bind_eq_some_iff.mp h
  obtain ⟨⟨rfl, rfl⟩, hvalue⟩ := Option.ite_none_right_eq_some.mp hv
  obtain rfl := Option.some.inj hvalue
  exact hp

/-- One collective on the path of a node. -/
theorem path_of_result {s : State n ε ω α} {i : Fin n} {p p' : Spmd n ε ω α} {x : Post n ε} (hp : s.prog i = p)
    (hpost : p.post = some x) (hposted : s.posted i (s.done i) = some x) (h : s.result i = some p') :
    Path s.posted i (s.done i) p [] (s.done i + 1) p' := by
  unfold State.result at h
  rw [hp] at h
  cases p with
  | ret a => cases hpost
  | call q k => cases hpost
  | gather root v k =>
    obtain rfl := Option.some.inj hpost
    simp only at h
    split at h
    · rename_i hroot
      obtain ⟨hall, heq⟩ := Option.dite_none_right_eq_some.mp h
      obtain rfl := Option.some.inj heq
      refine .root hroot hposted (fun j => ?_) (.refl _ _)
      exact posted_of_value (Option.some_get _).symm
    · rename_i hroot
      obtain rfl := Option.some.inj h
      exact .gather hroot hposted (.refl _ _)
  | bcast root v k =>
    obtain rfl := Option.some.inj hpost
    obtain ⟨v', hv', rfl⟩ := Option.map_eq_some_iff.mp h
    exact .bcast hposted (posted_of_value hv') (.refl _ _)

/-- **One step** extends the path of its node, and keeps those of the others. -/
theorem NodeInv.step {prog : Fin n → Spmd n ε ω α} {s s' : State n ε ω α} {e : Event n ε}
    (h : ∀ i, NodeInv prog s i) (hstep : step s e = some s') (i : Fin n) : NodeInv prog s' i := by
  cases e with
  | answer j e =>
    simp only [Spmd.step] at hstep
    split at hstep
    · rename_i q k hj
      cases hstep
      by_cases hij : i = j
      · subst hij
        refine ⟨?_, ?_⟩
        · have hpath := (h i).path
          rw [hj] at hpath
          simp only [Function.update_self]
          exact hpath.trans (.call (.refl _ _))
        · rcases (h i).posts with hlen | ⟨-, p, hp, -⟩
          · exact .inl hlen
          · rw [hj] at hp
            cases hp
      · refine ⟨?_, ?_⟩
        · simp only [Function.update_of_ne hij]
          exact (h i).path
        · simp only [Function.update_of_ne hij]
          exact (h i).posts
    · cases hstep
  | post j =>
    obtain ⟨hlen, hstep⟩ := Option.ite_none_right_eq_some.mp hstep
    obtain ⟨p, hp, rfl⟩ := Option.map_eq_some_iff.mp hstep
    refine ⟨(h i).path.mono fun _ _ _ hx => posted_append hx, ?_⟩
    by_cases hij : i = j
    · subst hij
      refine .inr ⟨?_, p, hp, ?_⟩
      · simp only [Function.update_self]
        rw [List.length_append, hlen]
        rfl
      · unfold State.posted
        simp only [Function.update_self]
        rw [← hlen]
        exact List.getElem?_concat_length
    · simp only [Function.update_of_ne hij]
      rcases (h i).posts with hlen' | ⟨hlen', x, hx, hposted⟩
      · exact .inl hlen'
      · exact .inr ⟨hlen', x, hx, posted_append hposted⟩
  | complete j =>
    obtain ⟨hlen, hstep⟩ := Option.ite_none_right_eq_some.mp hstep
    obtain ⟨p, hp, rfl⟩ := Option.map_eq_some_iff.mp hstep
    by_cases hij : i = j
    · subst hij
      rcases (h i).posts with hlen' | ⟨-, x, hx, hposted⟩
      · omega
      · refine ⟨?_, .inl ?_⟩
        · simp only [Function.update_self]
          have hpath := (h i).path.trans (path_of_result rfl hx hposted hp)
          rwa [List.append_nil] at hpath
        · simp only [Function.update_self]
          exact hlen
    · refine ⟨?_, ?_⟩
      · simp only [Function.update_of_ne hij]
        exact (h i).path
      · simp only [Function.update_of_ne hij]
        exact (h i).posts

theorem nodeInv_of_run {prog : Fin n → Spmd n ε ω α} {es : List (Event n ε)} {s : State n ε ω α}
    (hrun : run step (State.init prog) es = some s) (i : Fin n) : NodeInv prog s i := by
  have h : ∀ i, NodeInv prog s i :=
    run_inv (I := fun s => ∀ i, NodeInv prog s i) (fun _ _ _ h hs i => NodeInv.step h hs i)
      (fun i => ⟨.refl _ _, .inl rfl⟩) hrun
  exact h i

/-! ## No node blocks another -/

/-- Whatever a program is told, the collectives in front of it are `l`. -/
inductive Shape : Spmd n ε ω α → List (Op × Fin n) → Prop
  | ret (a : α) : Shape (ret a) []
  | call {q : ω} {k : ε → Spmd n ε ω α} {l : List (Op × Fin n)} (h : ∀ e, Shape (k e) l) : Shape (call q k) l
  | gather {r : Fin n} {v : ε} {k : Option (Fin n → ε) → Spmd n ε ω α} {l : List (Op × Fin n)}
    (h : ∀ vs, Shape (k vs) l) : Shape (gather r v k) ((.gather, r) :: l)
  | bcast {r : Fin n} {v : ε} {k : ε → Spmd n ε ω α} {l : List (Op × Fin n)} (h : ∀ e, Shape (k e) l) :
    Shape (bcast r v k) ((.bcast, r) :: l)

theorem Shape.bind {p : Spmd n ε ω α} {f : α → Spmd n ε ω β} {l l' : List (Op × Fin n)} (h : Shape p l)
    (hf : ∀ a, Shape (f a) l') : Shape (p.bind f) (l ++ l') := by
  induction h with
  | ret a => exact hf a
  | call _ ih => exact .call ih
  | gather _ ih => exact .gather ih
  | bcast _ ih => exact .bcast ih

theorem shape_drop_cons {c c' : ℕ} {p' : Spmd n ε ω α} {x : Op × Fin n} {l : List (Op × Fin n)}
    (h : c + 1 ≤ c' ∧ c' ≤ c + 1 + l.length ∧ Shape p' (l.drop (c' - (c + 1)))) :
    c ≤ c' ∧ c' ≤ c + (x :: l).length ∧ Shape p' ((x :: l).drop (c' - c)) := by
  obtain ⟨hle, hle', hshape⟩ := h
  have hsub : c' - c = c' - (c + 1) + 1 := by omega
  rw [List.length_cons, hsub, List.drop_succ_cons]
  exact ⟨by omega, by omega, hshape⟩

/-- What is left of the collectives on the way. -/
theorem Shape.path {P : Fin n → ℕ → Option (Post n ε)} {i : Fin n} {c c' : ℕ} {p p' : Spmd n ε ω α}
    {as : List (ω × ε)} {l : List (Op × Fin n)} (h : Shape p l) (hpath : Path P i c p as c' p') :
    c ≤ c' ∧ c' ≤ c + l.length ∧ Shape p' (l.drop (c' - c)) := by
  induction hpath generalizing l with
  | refl c p =>
    rw [Nat.sub_self]
    exact ⟨Nat.le_refl c, Nat.le_add_right c _, h⟩
  | call _ ih =>
    cases h with
    | call hk => exact ih (hk _)
  | root _ _ _ _ ih =>
    cases h with
    | gather hk => exact shape_drop_cons (ih (hk _))
  | gather _ _ _ ih =>
    cases h with
    | gather hk => exact shape_drop_cons (ih (hk _))
  | bcast _ _ _ ih =>
    cases h with
    | bcast hk => exact shape_drop_cons (ih (hk _))

/-- A program without collectives that has not returned is in front of a call. -/
theorem Shape.exists_call {p : Spmd n ε ω α} (h : Shape p []) (hp : ∀ a, p ≠ Spmd.ret a) :
    ∃ q k, p = Spmd.call q k := by
  cases h with
  | ret a => exact absurd rfl (hp a)
  | call _ => exact ⟨_, _, rfl⟩

/-- Whatever a program is told, it only asks for what is in `R`. -/
inductive Asks (R : ω → Prop) : Spmd n ε ω α → Prop
  | ret (a : α) : Asks R (ret a)
  | call {q : ω} {k : ε → Spmd n ε ω α} (hq : R q) (h : ∀ e, Asks R (k e)) : Asks R (call q k)
  | gather {r : Fin n} {v : ε} {k : Option (Fin n → ε) → Spmd n ε ω α} (h : ∀ vs, Asks R (k vs)) : Asks R (gather r v k)
  | bcast {r : Fin n} {v : ε} {k : ε → Spmd n ε ω α} (h : ∀ e, Asks R (k e)) : Asks R (bcast r v k)

theorem Asks.bind {R : ω → Prop} {p : Spmd n ε ω α} {f : α → Spmd n ε ω β} (h : Asks R p) (hf : ∀ a, Asks R (f a)) :
    Asks R (p.bind f) := by
  induction h with
  | ret a => exact hf a
  | call hq _ ih => exact .call hq ih
  | gather _ ih => exact .gather ih
  | bcast _ ih => exact .bcast ih

theorem Asks.path {R : ω → Prop} {P : Fin n → ℕ → Option (Post n ε)} {i : Fin n} {c c' : ℕ} {p p' : Spmd n ε ω α}
    {as : List (ω × ε)} (h : Asks R p) (hpath : Path P i c p as c' p') : ∀ a ∈ as, R a.1 := by
  induction hpath with
  | refl c p => exact fun a ha => absurd ha List.not_mem_nil
  | call _ ih =>
    cases h with
    | call hq hk => exact List.forall_mem_cons.mpr ⟨hq, ih (hk _)⟩
  | root _ _ _ _ ih =>
    cases h with
    | gather hk => exact ih (hk _)
  | gather _ _ _ ih =>
    cases h with
    | gather hk => exact ih (hk _)
  | bcast _ _ _ ih =>
    cases h with
    | bcast hk => exact ih (hk _)

/-- All nodes go through the collectives `l`. -/
structure Shaped (l : List (Op × Fin n)) (s : State n ε ω α) : Prop where
  prog : ∀ i, Shape (s.prog i) (l.drop (s.done i))
  posted : ∀ j c x, s.posted j c = some x → l[c]? = some (x.op, x.root)

theorem getElem?_of_shape {p : Spmd n ε ω α} {l : List (Op × Fin n)} {c : ℕ} {x : Post n ε} (h : Shape p (l.drop c))
    (hx : p.post = some x) : l[c]? = some (x.op, x.root) := by
  rw [← Nat.add_zero c, ← List.getElem?_drop]
  generalize l.drop c = l' at h
  cases h with
  | ret a => cases hx
  | call _ => cases hx
  | gather _ =>
    obtain rfl := Option.some.inj hx
    rfl
  | bcast _ =>
    obtain rfl := Option.some.inj hx
    rfl

theorem shape_of_result {s : State n ε ω α} {i : Fin n} {p : Spmd n ε ω α} {l : List (Op × Fin n)} {c : ℕ}
    (h : Shape (s.prog i) (l.drop c)) (hp : s.result i = some p) : Shape p (l.drop (c + 1)) := by
  rw [← List.drop_drop]
  generalize l.drop c = l' at h
  unfold State.result at hp
  cases hprog : s.prog i with
  | ret a =>
    rw [hprog] at hp
    cases hp
  | call q k =>
    rw [hprog] at hp
    cases hp
  | gather r v k =>
    rw [hprog] at h hp
    cases h with
    | gather hk =>
      simp only at hp
      split at hp
      · obtain ⟨hall, heq⟩ := Option.dite_none_right_eq_some.mp hp
        obtain rfl := Option.some.inj heq
        exact hk _
      · obtain rfl := Option.some.inj hp
        exact hk _
  | bcast r v k =>
    rw [hprog] at h hp
    cases h with
    | bcast hk =>
      obtain ⟨v', -, rfl⟩ := Option.map_eq_some_iff.mp hp
      exact hk _

theorem Shaped.step {l : List (Op × Fin n)} {s s' : State n ε ω α} {e : Event n ε} (h : Shaped l s)
    (hstep : step s e = some s') : Shaped l s' := by
  cases e with
  | answer j e =>
    simp only [Spmd.step] at hstep
    split at hstep
    · rename_i q k hj
      cases hstep
      refine ⟨fun i => ?_, h.posted⟩
      by_cases hij : i = j
      · subst hij
        have hshape := h.prog i
        rw [hj] at hshape
        simp only [Function.update_self]
        cases hshape with
        | call hk => exact hk e
      · simp only [Function.update_of_ne hij]
        exact h.prog i
    · cases hstep
  | post j =>
    obtain ⟨hlen, hstep⟩ := Option.ite_none_right_eq_some.mp hstep
    obtain ⟨p, hp, rfl⟩ := Option.map_eq_some_iff.mp hstep
    refine ⟨h.prog, fun i c x hx => ?_⟩
    unfold State.posted at hx
    by_cases hij : i = j
    · subst hij
      simp only [Function.update_self] at hx
      by_cases hc : c < (s.posts i).length
      · rw [List.getElem?_append_left hc] at hx
        exact h.posted i c x hx
      · rw [List.getElem?_append_right (Nat.not_lt.mp hc)] at hx
        obtain ⟨hc', hx⟩ := List.getElem?_eq_some_iff.mp hx
        rw [List.length_singleton] at hc'
        obtain rfl : c = s.done i := by omega
        rw [List.getElem_singleton] at hx
        exact getElem?_of_shape (h.prog i) (hx ▸ hp)
    · simp only [Function.update_of_ne hij] at hx
      exact h.posted i c x hx
  | complete j =>
    obtain ⟨-, hstep⟩ := Option.ite_none_right_eq_some.mp hstep
    obtain ⟨p, hp, rfl⟩ := Option.map_eq_some_iff.mp hstep
    refine ⟨fun i => ?_, h.posted⟩
    by_cases hij : i = j
    · subst hij
      simp only [Function.update_self]
      exact shape_of_result (h.prog i) hp
    · simp only [Function.update_of_ne hij]
      exact h.prog i

theorem shaped_of_run {prog : Fin n → Spmd n ε ω α} {l : List (Op × Fin n)} (hprog : ∀ i, Shape (prog i) l)
    {es : List (Event n ε)} {s : State n ε ω α} (hrun : run step (State.init prog) es = some s) : Shaped l s :=
  run_inv (fun _ _ _ h hs => h.step hs) ⟨hprog, fun _ _ _ hx => absurd hx (by simp [State.posted, State.init])⟩ hrun

theorem isSome_value {l : List (Op × Fin n)} {s : State n ε ω α} (h : Shaped l s) {j : Fin n} {c : ℕ} {op : Op}
    {root : Fin n} (hl : l[c]? = some (op, root)) (hlen : c < (s.posts j).length) :
    (s.value op root j c).isSome := by
  obtain ⟨x, hx⟩ : ∃ x, s.posted j c = some x := ⟨_, List.getElem?_eq_getElem hlen⟩
  have heq := h.posted j c x hx
  rw [hl, Option.some.injEq, Prod.mk.injEq] at heq
  unfold State.value
  unfold State.posted at hx
  rw [hx, Option.bind_some, if_pos ⟨heq.1.symm, heq.2.symm⟩]
  rfl

/-- A collective that everybody has posted can be completed. -/
theorem isSome_result {l : List (Op × Fin n)} {s : State n ε ω α} (h : Shaped l s) {i : Fin n} {x : Post n ε}
    (hx : (s.prog i).post = some x) (hall : ∀ j, s.done i < (s.posts j).length) : (s.result i).isSome := by
  have hl := getElem?_of_shape (h.prog i) hx
  unfold State.result
  cases hprog : s.prog i with
  | ret a =>
    rw [hprog] at hx
    cases hx
  | call q k =>
    rw [hprog] at hx
    cases hx
  | gather r v k =>
    rw [hprog] at hx
    obtain rfl := Option.some.inj hx
    simp only
    split
    · rw [dif_pos fun j => isSome_value h hl (hall j)]
      rfl
    · rfl
  | bcast r v k =>
    rw [hprog] at hx
    obtain rfl := Option.some.inj hx
    simp only [Option.isSome_map]
    exact isSome_value h hl (hall r)

/-- **Progress**: as long as a node has not returned, some node can go on. -/
theorem enabled_of_shape [Inhabited ε] {prog : Fin n → Spmd n ε ω α} {l : List (Op × Fin n)}
    (hprog : ∀ i, Shape (prog i) l) {es : List (Event n ε)} {s : State n ε ω α}
    (hrun : run step (State.init prog) es = some s) {i : Fin n} (hi : ∀ a, s.prog i ≠ ret a) :
    ∃ e s', step s e = some s' := by
  have hshaped := shaped_of_run hprog hrun
  have hnode := nodeInv_of_run hrun
  by_contra hstuck
  have hnone : ∀ e, step s e = none := by
    intro e
    by_contra hne
    obtain ⟨s', hs'⟩ := Option.ne_none_iff_exists'.mp hne
    exact hstuck ⟨e, s', hs'⟩
  have hposted : ∀ j x, (s.prog j).post = some x →
      s.done j < l.length ∧ (s.posts j).length = s.done j + 1 ∧ ∃ x, (s.prog j).post = some x := by
    intro j x hx
    refine ⟨(List.getElem?_eq_some_iff.mp (getElem?_of_shape (hshaped.prog j) hx)).1, ?_, x, hx⟩
    rcases (hnode j).posts with hlen | ⟨hlen, -⟩
    · have hpost := hnone (.post j)
      rw [step, if_pos hlen, hx] at hpost
      cases hpost
    · exact hlen
  -- who has not returned has posted the collective in front of it, and nobody who has returned has one left
  have hcase : ∀ j, l.length ≤ s.done j ∨ s.done j < l.length ∧ (s.posts j).length = s.done j + 1 ∧
      ∃ x, (s.prog j).post = some x := by
    intro j
    have hshape := hshaped.prog j
    cases hj : s.prog j with
    | ret a =>
      rw [hj] at hshape
      generalize hd : l.drop (s.done j) = l' at hshape
      cases hshape
      exact .inl (List.drop_eq_nil_iff.mp hd)
    | call q k =>
      have hans := hnone (.answer j default)
      simp only [step, hj] at hans
      cases hans
    | gather r v k => exact .inr (hj ▸ hposted j ⟨.gather, r, v⟩ (by rw [hj]; rfl))
    | bcast r v k => exact .inr (hj ▸ hposted j ⟨.bcast, r, v⟩ (by rw [hj]; rfl))
  -- the node that is furthest behind waits for a collective that everybody has posted
  obtain ⟨m, -, hmin⟩ := Finset.exists_min_image Finset.univ s.done ⟨i, Finset.mem_univ i⟩
  have hbehind : s.done m < l.length := by
    refine lt_of_le_of_lt (hmin i (Finset.mem_univ i)) ?_
    rcases hcase i with hle | ⟨hlt, -⟩
    · have hshape := hshaped.prog i
      rw [List.drop_eq_nil_iff.mpr hle] at hshape
      generalize hp : s.prog i = p at hshape
      cases hshape with
      | ret a => exact absurd hp (hi a)
      | call _ =>
        have hans := hnone (.answer i default)
        simp only [step, hp] at hans
        cases hans
    · exact hlt
  rcases hcase m with hle | ⟨-, hlen, x, hx⟩
  · omega
  · have hall : ∀ j, s.done m < (s.posts j).length := by
      intro j
      have hle := hmin j (Finset.mem_univ j)
      rcases hcase j with hret | ⟨-, hlen', -⟩
      · rcases (hnode j).posts with hlen' | ⟨hlen', -⟩
        · omega
        · omega
      · omega
    obtain ⟨p, hp⟩ := Option.isSome_iff_exists.mp (isSome_result hshaped hx hall)
    have hcomplete := hnone (.complete m)
    rw [step, if_pos hlen, hp] at hcomplete
    cases hcomplete

/-! ## No run goes on for ever -/

/-- `p'` is what may be left of `p` after its first operation. -/
inductive Child : Spmd n ε ω α → Spmd n ε ω α → Prop
  | call (q : ω) (k : ε → Spmd n ε ω α) (e : ε) : Child (k e) (call q k)
  | gather (r : Fin n) (v : ε) (k : Option (Fin n → ε) → Spmd n ε ω α) (vs : Option (Fin n → ε)) :
    Child (k vs) (gather r v k)
  | bcast (r : Fin n) (v : ε) (k : ε → Spmd n ε ω α) (e : ε) : Child (k e) (bcast r v k)

theorem wellFounded_child : WellFounded (Child : Spmd n ε ω α → Spmd n ε ω α → Prop) := by
  refine ⟨fun p => ?_⟩
  induction p with
  | ret a => exact ⟨_, fun _ h => by cases h⟩
  | call q k ih =>
    refine ⟨_, fun _ h => ?_⟩
    cases h with
    | call _ _ e => exact ih e
  | gather r v k ih =>
    refine ⟨_, fun _ h => ?_⟩
    cases h with
    | gather _ _ _ vs => exact ih vs
  | bcast r v k ih =>
    refine ⟨_, fun _ h => ?_⟩
    cases h with
    | bcast _ _ _ e => exact ih e

theorem child_of_result {s : State n ε ω α} {i : Fin n} {p : Spmd n ε ω α} (h : s.result i = some p) :
    Child p (s.prog i) := by
  unfold State.result at h
  cases hprog : s.prog i with
  | ret a =>
    rw [hprog] at h
    cases h
  | call q k =>
    rw [hprog] at h
    cases h
  | gather r v k =>
    rw [hprog] at h
    simp only at h
    split at h
    · obtain ⟨hall, heq⟩ := Option.dite_none_right_eq_some.mp h
      obtain rfl := Option.some.inj heq
      exact .gather r v k _
    · obtain rfl := Option.some.inj h
      exact .gather r v k _
  | bcast r v k =>
    rw [hprog] at h
    obtain ⟨v', -, rfl⟩ := Option.map_eq_some_iff.mp h
    exact .bcast r v k _

/-- What is left for each node: its program, and whether it has to post. -/
def State.left (s : State n ε ω α) (i : Fin n) : Spmd n ε ω α × ℕ := (s.prog i, s.done i + 1 - (s.posts i).length)

/-- Less is left for node `i`, and for the others as much as before. -/
theorem lex_of_update {β : Type} {r : β → β → Prop} {f g : Fin n → β} {i : Fin n} (hi : r (f i) (g i))
    (hne : ∀ j, j ≠ i → f j = g j) : Pi.Lex (· < ·) (fun {_} => r) f g :=
  ⟨i, fun j hj => hne j (ne_of_lt hj), hi⟩

/-- **Termination**: the programs come to an end, whatever the answers are. -/
theorem acc_step (s : State n ε ω α) : Acc (Next step fun _ : Event n ε => True) s := by
  have hwf : WellFounded (Pi.Lex (· < ·)
      (fun {_ : Fin n} => Prod.Lex (Child : Spmd n ε ω α → Spmd n ε ω α → Prop) (· < ·))) :=
    Pi.Lex.wellFounded (· < ·) fun _ => wellFounded_child.prod_lex Nat.lt_wfRel.wf
  refine acc_of_measure (I := fun _ => True) hwf State.left (fun s e s' _ _ hstep => ⟨trivial, ?_⟩) trivial
  cases e with
  | answer i e =>
    simp only [step] at hstep
    split at hstep
    · rename_i q k hi
      cases hstep
      refine lex_of_update (i := i) ?_ fun j hj => ?_
      · unfold State.left
        simp only [Function.update_self]
        rw [hi]
        exact .left _ _ (.call q k e)
      · simp only [State.left, Function.update_of_ne hj]
    · cases hstep
  | post i =>
    obtain ⟨hlen, hstep⟩ := Option.ite_none_right_eq_some.mp hstep
    obtain ⟨p, hp, rfl⟩ := Option.map_eq_some_iff.mp hstep
    refine lex_of_update (i := i) ?_ fun j hj => ?_
    · unfold State.left
      simp only [Function.update_self, List.length_append, List.length_singleton]
      refine .right _ ?_
      omega
    · simp only [State.left, Function.update_of_ne hj]
  | complete i =>
    obtain ⟨hlen, hstep⟩ := Option.ite_none_right_eq_some.mp hstep
    obtain ⟨p, hp, rfl⟩ := Option.map_eq_some_iff.mp hstep
    refine lex_of_update (i := i) ?_ fun j hj => ?_
    · unfold State.left
      simp only [Function.update_self]
      exact .left _ _ (child_of_result hp)
    · simp only [State.left, Function.update_of_ne hj]

end Spmd

end Lib

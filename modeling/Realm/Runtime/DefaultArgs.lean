import Mathlib.Data.List.TakeWhile
import Realm.Lib.Int32
import Realm.Endpoint.Payload

/-!
# Realm.Runtime.DefaultArgs — `REALM_DEFAULT_ARGS` (`RuntimeImpl::network_init`, `templates/runtime_impl.cc`)

The arguments in the environment variable are inserted into the command line, behind `argv[0]` and the positional
arguments that follow it.

* `iteration`, `scan`: the loop that finds the arguments.  `e` is the list of the characters from `*e` on, up to the
  terminating NUL; where the code would look behind the NUL the outcome is `overrun`.
* `splice`: the new `argv`, in a block of as many slots as were asked for.
* `Tokens`: what the arguments of a string are; `Dangling`: the strings with a quote that is not closed.
* `defaultArgs_correct_iff`: when the code is safe and does what it is for.
-/

namespace Realm.DefaultArgs

open Lib

/-! ## The scanner -/

/-- `isspace`, in the C locale. -/
def isspace (c : Byte) : Bool := c = 32 ∨ 9 ≤ c ∧ c ≤ 13

/-- `'\''` -/
def singleQuote : Byte := 39

/-- `'\"'` -/
def doubleQuote : Byte := 34

/-- `'-'` -/
def dash : Byte := 45

/-- What one iteration of the loop does: a token has been found, or not, and `e` is where the next one starts. -/
inductive Step
  | stop
  | skip (e : List Byte)
  | token (t e : List Byte)
  | assertFails
  | overrun

/-- A quoted string, from the character behind the quote on. -/
def quoted (quote : Byte) (e : List Byte) : Step :=
  if e = [] then .assertFails
  else
    match e.dropWhile (· ≠ quote) with
    -- `e++` leaves the NUL behind, and the assertion reads `*e`
    | [] => .overrun
    | _ :: rest =>
      if rest = [] ∨ rest.head?.any isspace then .token (e.takeWhile (· ≠ quote)) rest else .assertFails

/-- The body of `while(*e)`, with its condition. -/
def iteration : List Byte → Step
  | [] => .stop
  | c :: e =>
    if isspace c then .skip e
    else if c = singleQuote then quoted singleQuote e
    else if c = doubleQuote then quoted doubleQuote e
    -- no quotes - just take until next whitespace
    else .token ((c :: e).takeWhile (!isspace ·)) ((c :: e).dropWhile (!isspace ·))

/-- How the loop ends. -/
inductive Scan
  | done (tokens : List (List Byte))
  | assertFails
  | overrun
deriving DecidableEq

/-- A token in front of those that follow. -/
def Scan.cons (t : List Byte) : Scan → Scan
  | done tokens => .done (t :: tokens)
  | assertFails => .assertFails
  | overrun => .overrun

/-! ### Tokens -/

/-- The quotes. -/
def IsQuote (q : Byte) : Prop := q = singleQuote ∨ q = doubleQuote

/-- A token can end here: at the end of the string or at whitespace. -/
def Ends (e : List Byte) : Prop := e = [] ∨ e.head?.any isspace

/-- The string starts with the token `t`, and `e'` is what follows it: `t` is a word, or stands between two quotes. -/
inductive Token : List Byte → List Byte → List Byte → Prop
  | quoted {q : Byte} {t e : List Byte} (hq : IsQuote q) (ht : q ∉ t) (he : Ends e) : Token (q :: (t ++ q :: e)) t e
  | word {c : Byte} {t e : List Byte} (hq : ¬ IsQuote c) (ht : ∀ x ∈ c :: t, ¬ isspace x) (he : Ends e) :
    Token (c :: (t ++ e)) (c :: t) e

/-- The string consists of tokens and whitespace. -/
inductive Tokens : List Byte → List (List Byte) → Prop
  | nil : Tokens [] []
  | space {c : Byte} {e : List Byte} {ts : List (List Byte)} (hc : isspace c) (h : Tokens e ts) : Tokens (c :: e) ts
  | token {e e' t : List Byte} {ts : List (List Byte)} (ht : Token e t e') (h : Tokens e' ts) : Tokens e (t :: ts)

/-- Behind tokens and whitespace there is a quote, with characters behind it, that is not closed. -/
inductive Dangling : List Byte → Prop
  | quote {q : Byte} {t : List Byte} (hq : IsQuote q) (ht : q ∉ t) (hne : t ≠ []) : Dangling (q :: t)
  | space {c : Byte} {e : List Byte} (hc : isspace c) (h : Dangling e) : Dangling (c :: e)
  | token {e e' t : List Byte} (ht : Token e t e') (h : Dangling e') : Dangling e

/-! ### One iteration -/

/-- What an iteration finds. -/
inductive Found : List Byte → Step → Prop
  | stop : Found [] .stop
  | skip {c : Byte} {e : List Byte} (hc : isspace c) : Found (c :: e) (.skip e)
  | token {e e' t : List Byte} (ht : Token e t e') : Found e (.token t e')
  | assertFails {e : List Byte} : Found e .assertFails
  | overrun {q : Byte} {t : List Byte} (hq : IsQuote q) (ht : q ∉ t) (hne : t ≠ []) : Found (q :: t) .overrun

/-- What is left starts with a character that stops the loop. -/
theorem not_of_dropWhile {p : Byte → Bool} {l rest : List Byte} {c : Byte} (h : l.dropWhile p = c :: rest) :
    p c = false := by
  have hhead := List.head?_dropWhile_not p l
  rw [h] at hhead
  exact hhead

theorem found_quoted {q : Byte} (hq : IsQuote q) (e : List Byte) : Found (q :: e) (quoted q e) := by
  have hsplit : e.takeWhile (· ≠ q) ++ e.dropWhile (· ≠ q) = e := List.takeWhile_append_dropWhile
  have hbody : q ∉ e.takeWhile (· ≠ q) := fun h => by simpa using List.mem_takeWhile_imp h
  unfold quoted
  split_ifs with hnil
  · exact .assertFails
  · cases hdrop : e.dropWhile (· ≠ q) with
    | nil =>
      rw [hdrop, List.append_nil] at hsplit
      exact .overrun hq (hsplit ▸ hbody) hnil
    | cons c rest =>
      have hc : c = q := by simpa using not_of_dropWhile hdrop
      subst hc
      dsimp only
      split_ifs with hend
      · rw [hdrop] at hsplit
        have htoken := Token.quoted hq hbody hend
        rw [hsplit] at htoken
        exact .token htoken
      · exact .assertFails

theorem found_iteration : ∀ e : List Byte, Found e (iteration e)
  | [] => .stop
  | c :: e => by
    rw [iteration]
    split_ifs with hspace hsingle hdouble
    · exact .skip hspace
    · exact hsingle ▸ found_quoted (.inl rfl) e
    · exact hdouble ▸ found_quoted (.inr rfl) e
    · rw [Bool.not_eq_true] at hspace
      have htake : (c :: e).takeWhile (!isspace ·) = c :: e.takeWhile (!isspace ·) := by simp [hspace]
      have hdrop : (c :: e).dropWhile (!isspace ·) = e.dropWhile (!isspace ·) := by simp [hspace]
      have hword : ∀ x ∈ c :: e.takeWhile (!isspace ·), ¬ isspace x := by
        intro x hx
        rw [← htake] at hx
        simpa using List.mem_takeWhile_imp hx
      have hend : Ends (e.dropWhile (!isspace ·)) := by
        rcases hrest : e.dropWhile (!isspace ·) with _ | ⟨x, rest⟩
        · exact .inl rfl
        · right
          simpa using not_of_dropWhile hrest
      have htoken := Token.word (not_or.mpr ⟨hsingle, hdouble⟩) hword hend
      rw [List.takeWhile_append_dropWhile] at htoken
      rw [htake, hdrop]
      exact .token htoken

theorem Token.length_lt {e t e' : List Byte} (h : Token e t e') : e'.length < e.length := by
  cases h with
  | quoted hq ht he =>
    simp only [List.length_cons, List.length_append]
    omega
  | word hq ht he =>
    simp only [List.length_cons, List.length_append]
    omega

/-- The loop, from `e` on. -/
def scan (e : List Byte) : Scan :=
  match _h : iteration e with
  | .stop => .done []
  | .skip e' => scan e'
  | .token t e' => (scan e').cons t
  | .assertFails => .assertFails
  | .overrun => .overrun
termination_by e.length
decreasing_by
  · have hfound := found_iteration e
    rw [_h] at hfound
    cases hfound with
    | skip hc => exact Nat.lt_succ_self _
  · have hfound := found_iteration e
    rw [_h] at hfound
    cases hfound with
    | token ht => exact ht.length_lt

theorem iteration_space {c : Byte} (hc : isspace c) (e : List Byte) : iteration (c :: e) = .skip e := by
  rw [iteration, if_pos hc]

theorem iteration_quote {q : Byte} (h : IsQuote q) (e : List Byte) : iteration (q :: e) = quoted q e := by
  rcases h with rfl | rfl <;> rfl

theorem dangling_iteration {q : Byte} {t : List Byte} (hq : IsQuote q) (ht : q ∉ t) (hne : t ≠ []) :
    iteration (q :: t) = .overrun := by
  have hall : ∀ x ∈ t, decide (x ≠ q) = true := fun x hx => decide_eq_true fun h => ht (h ▸ hx)
  rw [iteration_quote hq, quoted, if_neg hne, List.dropWhile_eq_nil_iff.mpr hall]

/-- The code finds the token. -/
theorem Token.iteration {e t e' : List Byte} (h : Token e t e') : iteration e = .token t e' := by
  cases h with
  | @quoted q _ _ hq ht he =>
    have hall : ∀ x ∈ t, decide (x ≠ q) = true := fun x hx => decide_eq_true fun h => ht (h ▸ hx)
    rw [iteration_quote hq, DefaultArgs.quoted, if_neg (by simp), List.takeWhile_append_of_pos hall,
      List.dropWhile_append_of_pos hall, List.dropWhile_cons_of_neg (by simp), List.takeWhile_cons_of_neg (by simp),
      List.append_nil]
    exact if_pos he
  | @word c w _ hq ht he =>
    obtain ⟨hsingle, hdouble⟩ := not_or.mp hq
    have hall : ∀ x ∈ c :: w, (!isspace x) = true := fun x hx => by simpa using ht x hx
    have htake : e'.takeWhile (!isspace ·) = [] ∧ e'.dropWhile (!isspace ·) = e' := by
      rcases he with rfl | he
      · exact ⟨rfl, rfl⟩
      · cases e' with
        | nil => exact ⟨rfl, rfl⟩
        | cons x rest =>
          have hx : isspace x = true := by simpa using he
          exact ⟨List.takeWhile_cons_of_neg (by simp [hx]), List.dropWhile_cons_of_neg (by simp [hx])⟩
    rw [DefaultArgs.iteration, if_neg (ht c List.mem_cons_self), if_neg hsingle, if_neg hdouble, ← List.cons_append,
      List.takeWhile_append_of_pos hall, List.dropWhile_append_of_pos hall, htake.1, htake.2, List.append_nil]

/-! ### The loop -/

theorem scan_eq (e : List Byte) :
    scan e =
      match iteration e with
      | .stop => .done []
      | .skip e' => scan e'
      | .token t e' => (scan e').cons t
      | .assertFails => .assertFails
      | .overrun => .overrun := by
  rw [scan]
  split <;> (rename_i h; rw [h])

theorem Scan.cons_eq_done {t : List Byte} {s : Scan} {ts : List (List Byte)} (h : s.cons t = .done ts) :
    ∃ ts', s = .done ts' ∧ ts = t :: ts' := by
  cases s with
  | done tokens => exact ⟨tokens, rfl, (Scan.done.inj h).symm⟩
  | assertFails => cases h
  | overrun => cases h

theorem Scan.cons_eq_overrun {t : List Byte} {s : Scan} (h : s.cons t = .overrun) : s = .overrun := by
  cases s with
  | done tokens => cases h
  | assertFails => cases h
  | overrun => rfl

/-- **The tokens of the loop are the tokens of the string.** -/
theorem scan_eq_done_iff {e : List Byte} {ts : List (List Byte)} : scan e = .done ts ↔ Tokens e ts := by
  constructor
  · -- by induction along the loop
    intro h
    have hfound := found_iteration e
    rw [scan_eq] at h
    generalize hstep : iteration e = s at h hfound
    cases hfound with
    | stop =>
      obtain rfl := Scan.done.inj h
      exact .nil
    | skip hc => exact .space hc (scan_eq_done_iff.mp h)
    | token ht =>
      obtain ⟨ts', hscan, rfl⟩ := Scan.cons_eq_done h
      have := ht.length_lt
      exact .token ht (scan_eq_done_iff.mp hscan)
    | assertFails => cases h
    | overrun hq ht hne => cases h
  · intro h
    induction h with
    | nil => rw [scan_eq]; rfl
    | space hc h ih => rw [scan_eq, iteration_space hc]; exact ih
    | token ht h ih => rw [scan_eq, ht.iteration]; simp only [ih, Scan.cons]
termination_by e.length

/-- **The loop leaves the string at a quote that is not closed**, and nowhere else. -/
theorem scan_eq_overrun_iff {e : List Byte} : scan e = .overrun ↔ Dangling e := by
  constructor
  · intro h
    have hfound := found_iteration e
    rw [scan_eq] at h
    generalize hstep : iteration e = s at h hfound
    cases hfound with
    | stop => cases h
    | skip hc => exact .space hc (scan_eq_overrun_iff.mp h)
    | token ht =>
      have := ht.length_lt
      exact .token ht (scan_eq_overrun_iff.mp (Scan.cons_eq_overrun h))
    | assertFails => cases h
    | overrun hq ht hne => exact .quote hq ht hne
  · intro h
    induction h with
    | quote hq ht hne => rw [scan_eq, dangling_iteration hq ht hne]
    | space hc h ih => rw [scan_eq, iteration_space hc]; exact ih
    | token ht h ih => rw [scan_eq, ht.iteration]; simp only [ih, Scan.cons]
termination_by e.length

/-! ## The new `argv` -/

abbrev Arg := List Byte

/-- An element of an `argv`. -/
inductive Slot
  | uninitialised
  | null
  | arg (a : Arg)
deriving DecidableEq

/-- `(new_argc + 1) * sizeof(char *)` bytes; `none` if the `int` overflows, or if the size is negative as an `int` and
too large for `malloc` as a `size_t`. -/
def mallocArgv (newArgc : ℤ) : Option (List Slot) :=
  if 0 ≤ newArgc + 1 ∧ newArgc + 1 < 2 ^ 31 then some (List.replicate (newArgc + 1).toNat .uninitialised) else none

/-- `new_argv[i] = a`; `none` outside the block. -/
def put (block : List Slot) (i : ℕ) (a : Slot) : Option (List Slot) :=
  if i < block.length then some (block.set i a) else none

/-- `while(before_new < *argc)`, for the arguments from `before_new` on. -/
def copyFront : ℕ → List Arg → List Slot → Option (ℕ × List Slot)
  | beforeNew, [], block => some (beforeNew, block)
  | beforeNew, a :: argv, block =>
    if beforeNew > 0 ∧ a.head? = some dash then some (beforeNew, block)
    else do
      let block ← put block beforeNew (.arg a)
      copyFront (beforeNew + 1) argv block

/-- The loops behind it: consecutive elements from `i` on. -/
def copyFrom : ℕ → List Arg → List Slot → Option (List Slot)
  | _, [], block => some block
  | i, a :: args, block => do
    let block ← put block i (.arg a)
    copyFrom (i + 1) args block

/-- The new `argc` and `argv`; `none` where the behaviour is undefined. -/
def splice (argv tokens : List Arg) : Option (ℤ × List Slot) := do
  let newArgc := int32 ((argv.length + tokens.length : ℕ) : ℤ)
  let block ← mallocArgv newArgc
  let (beforeNew, block) ← copyFront 0 argv block
  let block ← copyFrom beforeNew tokens block
  let block ← copyFrom (beforeNew + tokens.length) (argv.drop beforeNew) block
  let block ← put block newArgc.toNat .null
  return (newArgc, block)

/-- How the part of `network_init` for `REALM_DEFAULT_ARGS` ends. -/
inductive Outcome
  | returns (argc : ℤ) (argv : List Slot)
  | assertFails
  | overrun
  | undefined
deriving DecidableEq

/-- The slots of an `argv` with its terminating null pointer. -/
def slots (argv : List Arg) : List Slot := argv.map .arg ++ [.null]

/-- `network_init`, where the variable has the value `env`. -/
def networkInit (env : Option (List Byte)) (argv : List Arg) : Outcome :=
  match env with
  | none => .returns argv.length (slots argv)
  | some e =>
    match scan e with
    | .assertFails => .assertFails
    | .overrun => .overrun
    | .done tokens =>
      if tokens ≠ [] then
        match splice argv tokens with
        | some (argc, argv) => .returns argc argv
        | none => .undefined
      else .returns argv.length (slots argv)

/-! ### What it is to be -/

/-- `argv[0]` and the arguments that follow up to the first that starts with `-`. -/
def positional : List Arg → List Arg
  | [] => []
  | a :: argv => a :: argv.takeWhile (fun b => b.head? ≠ some dash)

/-- The positional arguments, the tokens, and the other arguments. -/
def inserted (argv tokens : List Arg) : List Arg :=
  positional argv ++ tokens ++ argv.drop (positional argv).length

/-- The scanner stays inside the string, and if it finds the end, the tokens are those of the string and have been
inserted into the command line. -/
structure Correct (e : List Byte) (argv : List Arg) : Prop where
  safe : scan e ≠ .overrun
  inserts : ∀ tokens, scan e = .done tokens → Tokens e tokens ∧
    networkInit (some e) argv =
      .returns ((argv.length + tokens.length : ℕ) : ℤ) (slots (inserted argv tokens))

/-! ### The copies -/

theorem copyFrom_append (i : ℕ) (xs ys : List Arg) (block : List Slot) :
    copyFrom i (xs ++ ys) block = (copyFrom i xs block).bind (copyFrom (i + xs.length) ys) := by
  induction xs generalizing i block with
  | nil => rfl
  | cons x xs ih =>
    rw [List.cons_append, copyFrom, copyFrom]
    cases put block i (.arg x) with
    | none => rfl
    | some block =>
      have hlen : i + 1 + xs.length = i + (x :: xs).length := by
        rw [List.length_cons]
        omega
      simp only [Option.bind_eq_bind, Option.bind_some]
      rw [ih, hlen]

/-- Behind `argv[0]` the first loop copies up to the first argument with a `-`. -/
theorem copyFront_of_pos {i : ℕ} (hi : 0 < i) (argv : List Arg) (block : List Slot) :
    copyFront i argv block =
      (copyFrom i (argv.takeWhile (fun b => b.head? ≠ some dash)) block).map
        fun block => (i + (argv.takeWhile (fun b => b.head? ≠ some dash)).length, block) := by
  induction argv generalizing i block with
  | nil => rfl
  | cons a argv ih =>
    rw [copyFront]
    by_cases ha : a.head? = some dash
    · rw [if_pos ⟨hi, ha⟩, List.takeWhile_cons_of_neg (by simpa using ha)]
      rfl
    · rw [if_neg fun h => ha h.2, List.takeWhile_cons_of_pos (by simpa using ha), copyFrom]
      cases put block i (.arg a) with
      | none => rfl
      | some block =>
        rw [Option.bind_eq_bind, Option.bind_some, Option.bind_eq_bind, Option.bind_some, ih (Nat.succ_pos i)]
        congr 1
        funext block
        rw [List.length_cons, Nat.succ_add]
        rfl

theorem copyFront_zero (argv : List Arg) (block : List Slot) :
    copyFront 0 argv block =
      (copyFrom 0 (positional argv) block).map fun block => ((positional argv).length, block) := by
  cases argv with
  | nil => rfl
  | cons a argv =>
    rw [copyFront, if_neg fun h => absurd h.1 (lt_irrefl 0), positional, copyFrom]
    cases put block 0 (.arg a) with
    | none => rfl
    | some block =>
      rw [Option.bind_eq_bind, Option.bind_some, Option.bind_eq_bind, Option.bind_some,
        copyFront_of_pos (Nat.succ_pos 0)]
      congr 1
      funext block
      rw [List.length_cons, Nat.succ_add, Nat.zero_add]

theorem positional_append (argv : List Arg) : positional argv ++ argv.drop (positional argv).length = argv := by
  have hprefix : positional argv <+: argv := by
    cases argv with
    | nil => exact List.prefix_rfl
    | cons a argv => exact (List.prefix_cons_inj a).mpr (List.takeWhile_prefix _)
  exact List.prefix_iff_eq_append.mp hprefix

theorem length_inserted (argv tokens : List Arg) : (inserted argv tokens).length = argv.length + tokens.length := by
  have hlen := congrArg List.length (positional_append argv)
  rw [List.length_append] at hlen
  rw [inserted, List.length_append, List.length_append]
  omega

/-- The three loops write one list, element after element. -/
theorem splice_eq_copyFrom (argv tokens : List Arg) :
    splice argv tokens = do
      let newArgc := int32 ((argv.length + tokens.length : ℕ) : ℤ)
      let block ← mallocArgv newArgc
      let block ← copyFrom 0 (inserted argv tokens) block
      let block ← put block newArgc.toNat .null
      return (newArgc, block) := by
  unfold splice inserted
  simp only [Option.bind_eq_bind, copyFront_zero, copyFrom_append, Option.bind_map, Nat.zero_add,
    List.length_append]
  congr 1
  funext block
  rw [Option.bind_assoc, Option.bind_assoc]
  rfl

/-- Consecutive elements fill the free part of the block, if it is large enough. -/
theorem copyFrom_fill (written free : List Slot) (args : List Arg) :
    copyFrom written.length args (written ++ free) =
      if args.length ≤ free.length then some (written ++ args.map .arg ++ free.drop args.length) else none := by
  induction args generalizing written free with
  | nil => simp [copyFrom]
  | cons a args ih =>
    rw [copyFrom, put]
    cases free with
    | nil =>
      rw [if_neg (by simp), if_neg (by simp)]
      rfl
    | cons x free =>
      have hset : (written ++ x :: free).set written.length (.arg a) = (written ++ [.arg a]) ++ free := by simp
      have hfill := ih (written ++ [.arg a]) free
      rw [List.length_append] at hfill
      rw [if_pos (by simp), Option.bind_eq_bind, Option.bind_some, hset]
      refine hfill.trans ?_
      simp

/-- **The new `argv` is right as long as its length fits into an `int`**; otherwise the block is too small, or was
never allocated. -/
theorem splice_eq (argv tokens : List Arg) :
    splice argv tokens =
      if argv.length + tokens.length + 1 < 2 ^ 31 then
        some (((argv.length + tokens.length : ℕ) : ℤ), slots (inserted argv tokens))
      else none := by
  have hlen := length_inserted argv tokens
  rw [splice_eq_copyFrom]
  generalize inserted argv tokens = args at hlen
  generalize argv.length + tokens.length = n at hlen
  dsimp only
  by_cases hn : n + 1 < 2 ^ 31
  · have hint : int32 (n : ℤ) = n := int32_eq_self (by omega) (by omega)
    have hblock : mallocArgv n = some (List.replicate (n + 1) .uninitialised) := by
      rw [mallocArgv, if_pos ⟨by omega, by omega⟩]
      congr 2
    have hfill := copyFrom_fill [] (List.replicate (n + 1) .uninitialised) args
    rw [if_pos hn, hint, hblock]
    simp only [Option.bind_eq_bind, Option.bind_some]
    rw [List.length_nil, List.nil_append, List.length_replicate, if_pos (by omega), List.nil_append,
      List.drop_replicate, hlen, Nat.add_sub_cancel_left] at hfill
    rw [hfill, Option.bind_some, put, if_pos (by simp [hlen])]
    simp [slots, hlen]
  · rw [if_neg hn, mallocArgv]
    by_cases hsize : 0 ≤ int32 (n : ℤ) + 1 ∧ int32 (n : ℤ) + 1 < 2 ^ 31
    · -- the length wraps, and the block has fewer slots than there are arguments
      have hne : n ≠ 2 ^ 31 - 1 := by
        rintro rfl
        have hint : int32 ((2 ^ 31 - 1 : ℕ) : ℤ) = 2 ^ 31 - 1 := int32_eq_self (by omega) (by omega)
        rw [hint] at hsize
        omega
      have hfill := copyFrom_fill [] (List.replicate (int32 (n : ℤ) + 1).toNat .uninitialised) args
      rw [List.length_nil, List.nil_append, List.length_replicate, if_neg (by omega)] at hfill
      rw [if_pos hsize, Option.bind_eq_bind, Option.bind_some, hfill]
      rfl
    · rw [if_neg hsize]
      rfl

/-- **`REALM_DEFAULT_ARGS` is handled safely and correctly if and only if** it has no quote that is not closed, and the
length of the new command line, if there is one, fits into an `int`. -/
theorem defaultArgs_correct_iff (e : List Byte) (argv : List Arg) :
    Correct e argv ↔ ¬ Dangling e ∧
      ∀ tokens, Tokens e tokens → tokens ≠ [] → argv.length + tokens.length + 1 < 2 ^ 31 := by
  constructor
  · intro h
    refine ⟨fun hd => h.safe (scan_eq_overrun_iff.mpr hd), fun tokens ht hne => ?_⟩
    have hscan := scan_eq_done_iff.mpr ht
    obtain ⟨-, hinit⟩ := h.inserts tokens hscan
    by_contra hlong
    simp only [networkInit, hscan, splice_eq, if_pos hne, if_neg hlong] at hinit
    cases hinit
  · rintro ⟨hd, hlen⟩
    refine ⟨fun h => hd (scan_eq_overrun_iff.mp h), fun tokens hscan => ?_⟩
    have ht := scan_eq_done_iff.mp hscan
    refine ⟨ht, ?_⟩
    by_cases hne : tokens = []
    · subst hne
      simp only [networkInit, hscan, inserted, List.append_nil, positional_append]
      rfl
    · simp only [networkInit, hscan, splice_eq, if_pos hne, if_pos (hlen tokens ht hne)]

/-- A double quote and `-x`: the loop takes the NUL for the closing quote. -/
theorem defaultArgs_dangling_quote : ¬ Correct [34, 45, 120] [[97]] := by
  intro h
  refine h.safe (scan_eq_overrun_iff.mpr (.quote (.inr rfl) ?_ ?_))
  · decide
  · exact List.cons_ne_nil _ _

end Realm.DefaultArgs

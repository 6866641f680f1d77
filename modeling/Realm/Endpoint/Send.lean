import Realm.Endpoint.Basic

/-!
# Realm.Endpoint.Send — the network calls of `send_short`

The refactored endpoint generates the cases of `send_short` from a macro loop (`macros_impl/am.def`); the
monolithic one (`templates/activemsg.cc`) has them written out.

* `sendShort`: the expansion of `send_short_cases`, with the subcode `AM_`.
* `Monolithic.sendShort`: the hand-written switch.
* `sendShort_eq_monolithic_iff`: the two agree except on messages without payload and with more than one
  argument.
-/

namespace Realm.Endpoint

/-! ## Calls -/

inductive AmDirection
  | request
  | reply
deriving DecidableEq

inductive AmCategory
  | short
  | medium
deriving DecidableEq

/-- The name of a network function, such as `RequestMedium6`. -/
structure AmFunc where
  direction : AmDirection
  category : AmCategory
  arity : ℕ
deriving DecidableEq

/-- The first argument of a call: the `token` of the request that is answered, or a node. -/
inductive AmDest
  | token
  | peer (node : ℕ)
deriving DecidableEq

/-- A call of the network layer; `payload` is a pointer and a size. -/
structure NetCall where
  func : AmFunc
  dest : AmDest
  msgid : ℕ
  payload : Option (ℕ × ℕ)
  args : List ℤ
deriving DecidableEq

/-- `AM_(FUNC, MSGID, @args)`: a reply goes to the token, everything else to the peer. -/
def am (peer : ℕ) (func : AmFunc) (msgid : ℕ) (payload : Option (ℕ × ℕ)) (args : List ℤ) : NetCall where
  func := func
  dest := if func.direction = .reply then .token else .peer peer
  msgid := msgid
  payload := payload
  args := args

/-- `hdr->args[i]` -/
def arg (hdr : OutgoingMessage) (i : ℕ) : ℤ := hdr.args.getD i 0

/-! ## The generated cases -/

/-- `$(for:1-6,8,10,12,14,16)` -/
def shortCases : List ℕ := [1, 2, 3, 4, 5, 6, 8, 10, 12, 14, 16]

/-- `$(join:hdr->args[*]:, :0-$(n))` -/
def joinArgs (hdr : OutgoingMessage) (n : ℕ) : List ℤ := (List.range (n + 1)).map (arg hdr)

/-- The body of the case that the loop generates for `k` arguments. -/
def sendShortCase (peer : ℕ) (hdr : OutgoingMessage) (k : ℕ) : NetCall :=
  let args := joinArgs hdr (k - 1)
  if hdr.payloadMode ≠ .none then
    am peer ⟨.request, .medium, k⟩ hdr.msgid (some (hdr.payload, hdr.payloadSize)) args
  else
    -- `RequestShort1`, where the other branch has `RequestMedium$1`
    am peer ⟨.request, .short, 1⟩ hdr.msgid none args

/-- `ActiveMessageEndpoint::send_short`; `none` is the failed assertion of the default case. -/
def sendShort (peer : ℕ) (hdr : OutgoingMessage) : Option NetCall :=
  if hdr.args.length ∈ shortCases then some (sendShortCase peer hdr hdr.args.length) else none

/-! ## The hand-written cases -/

namespace Monolithic

section Cases

variable (peer : ℕ) (hdr : OutgoingMessage)

/-- `gasnet_AMRequestMedium<n>(peer, hdr->msgid, hdr->payload, hdr->payload_size, …)` -/
def requestMedium (n : ℕ) (args : List ℤ) : NetCall :=
  ⟨⟨.request, .medium, n⟩, .peer peer, hdr.msgid, some (hdr.payload, hdr.payloadSize), args⟩

/-- `gasnet_AMRequestShort<n>(peer, hdr->msgid, …)` -/
def requestShort (n : ℕ) (args : List ℤ) : NetCall :=
  ⟨⟨.request, .short, n⟩, .peer peer, hdr.msgid, none, args⟩

/-- The `switch` of `ActiveMessageEndpoint::send_short`. -/
def sendShort : Option NetCall :=
  let a := arg hdr
  match hdr.args.length with
  | 1 =>
    if hdr.payloadMode ≠ .none then some (requestMedium peer hdr 1 [a 0])
    else some (requestShort peer hdr 1 [a 0])
  | 2 =>
    if hdr.payloadMode ≠ .none then some (requestMedium peer hdr 2 [a 0, a 1])
    else some (requestShort peer hdr 2 [a 0, a 1])
  | 3 =>
    if hdr.payloadMode ≠ .none then some (requestMedium peer hdr 3 [a 0, a 1, a 2])
    else some (requestShort peer hdr 3 [a 0, a 1, a 2])
  | 4 =>
    if hdr.payloadMode ≠ .none then some (requestMedium peer hdr 4 [a 0, a 1, a 2, a 3])
    else some (requestShort peer hdr 4 [a 0, a 1, a 2, a 3])
  | 5 =>
    if hdr.payloadMode ≠ .none then some (requestMedium peer hdr 5 [a 0, a 1, a 2, a 3, a 4])
    else some (requestShort peer hdr 5 [a 0, a 1, a 2, a 3, a 4])
  | 6 =>
    if hdr.payloadMode ≠ .none then some (requestMedium peer hdr 6 [a 0, a 1, a 2, a 3, a 4, a 5])
    else some (requestShort peer hdr 6 [a 0, a 1, a 2, a 3, a 4, a 5])
  | 8 =>
    if hdr.payloadMode ≠ .none then
      some (requestMedium peer hdr 8 [a 0, a 1, a 2, a 3, a 4, a 5, a 6, a 7])
    else some (requestShort peer hdr 8 [a 0, a 1, a 2, a 3, a 4, a 5, a 6, a 7])
  | 10 =>
    if hdr.payloadMode ≠ .none then
      some (requestMedium peer hdr 10 [a 0, a 1, a 2, a 3, a 4, a 5, a 6, a 7, a 8, a 9])
    else some (requestShort peer hdr 10 [a 0, a 1, a 2, a 3, a 4, a 5, a 6, a 7, a 8, a 9])
  | 12 =>
    if hdr.payloadMode ≠ .none then
      some (requestMedium peer hdr 12 [a 0, a 1, a 2, a 3, a 4, a 5, a 6, a 7, a 8, a 9, a 10, a 11])
    else some (requestShort peer hdr 12 [a 0, a 1, a 2, a 3, a 4, a 5, a 6, a 7, a 8, a 9, a 10, a 11])
  | 14 =>
    if hdr.payloadMode ≠ .none then
      some (requestMedium peer hdr 14
        [a 0, a 1, a 2, a 3, a 4, a 5, a 6, a 7, a 8, a 9, a 10, a 11, a 12, a 13])
    else
      some (requestShort peer hdr 14
        [a 0, a 1, a 2, a 3, a 4, a 5, a 6, a 7, a 8, a 9, a 10, a 11, a 12, a 13])
  | 16 =>
    if hdr.payloadMode ≠ .none then
      some (requestMedium peer hdr 16
        [a 0, a 1, a 2, a 3, a 4, a 5, a 6, a 7, a 8, a 9, a 10, a 11, a 12, a 13, a 14, a 15])
    else
      some (requestShort peer hdr 16
        [a 0, a 1, a 2, a 3, a 4, a 5, a 6, a 7, a 8, a 9, a 10, a 11, a 12, a 13, a 14, a 15])
  | _ => none

end Cases

/-- A case of the switch, for every number of arguments. -/
def sendShortCase (peer : ℕ) (hdr : OutgoingMessage) (k : ℕ) : NetCall :=
  if hdr.payloadMode ≠ .none then requestMedium peer hdr k (joinArgs hdr (k - 1))
  else requestShort peer hdr k (joinArgs hdr (k - 1))

/-- **The switch is one case with a parameter**, for the numbers of arguments that it knows. -/
theorem sendShort_eq (peer : ℕ) (hdr : OutgoingMessage) :
    sendShort peer hdr =
      if hdr.args.length ∈ shortCases then some (sendShortCase peer hdr hdr.args.length) else none := by
  by_cases hmem : hdr.args.length ∈ shortCases
  · rw [if_pos hmem]
    unfold sendShort sendShortCase
    rw [apply_ite some]
    simp only [shortCases, List.mem_cons, List.not_mem_nil, or_false] at hmem
    rcases hmem with h | h | h | h | h | h | h | h | h | h | h <;>
      (simp only [h]; rfl)
  · rw [if_neg hmem]
    unfold sendShort
    dsimp only
    split <;> first
      | rfl
      | (rename_i h
         rw [h] at hmem
         exact absurd (by decide) hmem)

end Monolithic

/-! ## Comparison -/

/-- The generated case calls the function of the hand-written one, unless it has to send several arguments
without payload. -/
theorem sendShortCase_eq_iff (peer : ℕ) (hdr : OutgoingMessage) (k : ℕ) :
    sendShortCase peer hdr k = Monolithic.sendShortCase peer hdr k ↔ hdr.payloadMode ≠ .none ∨ k = 1 := by
  unfold sendShortCase Monolithic.sendShortCase
  by_cases hmode : hdr.payloadMode = .none
  · simp only [hmode, ne_eq, not_true_eq_false, if_false, false_or]
    refine ⟨fun h => ?_, ?_⟩
    · have harity : (1 : ℕ) = k := congrArg (fun c : NetCall => c.func.arity) h
      exact harity.symm
    · rintro rfl
      rfl
  · simp only [ne_eq, hmode, not_false_eq_true, if_true, true_or, iff_true]
    rfl

/-- **The refactored `send_short` makes the call of the monolithic one if and only if** the message has a
payload, or one argument, or a number of arguments that both reject. -/
theorem sendShort_eq_monolithic_iff (peer : ℕ) (hdr : OutgoingMessage) :
    sendShort peer hdr = Monolithic.sendShort peer hdr ↔
      hdr.payloadMode ≠ .none ∨ hdr.args.length ∉ [2, 3, 4, 5, 6, 8, 10, 12, 14, 16] := by
  rw [Monolithic.sendShort_eq, sendShort]
  by_cases hmem : hdr.args.length ∈ shortCases
  · have hone : hdr.args.length = 1 ↔ hdr.args.length ∉ [2, 3, 4, 5, 6, 8, 10, 12, 14, 16] := by
      simp only [shortCases, List.mem_cons, List.not_mem_nil, or_false] at hmem ⊢
      omega
    rw [if_pos hmem, if_pos hmem, Option.some_inj, sendShortCase_eq_iff, hone]
  · have hnot : hdr.args.length ∉ [2, 3, 4, 5, 6, 8, 10, 12, 14, 16] := fun h => hmem (List.mem_cons_of_mem 1 h)
    rw [if_neg hmem, if_neg hmem]
    simp only [hnot, not_false_eq_true, or_true]

/-- Two arguments and no payload: `RequestShort1` instead of `RequestShort2`. -/
theorem sendShort_two_args_differs :
    ¬ sendShort 3 (.mk' 150 [7, 8]) = Monolithic.sendShort 3 (.mk' 150 [7, 8]) := by
  decide

end Realm.Endpoint

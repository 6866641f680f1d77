import Realm.AmMpi.Window

/-!
# Realm.AmMpi.Marshal — message structures as arguments (`MessageRawArgs` in `templates/activemsg.h`)

A message structure of `s` bytes travels as ints.  The MPI build sends the ints that lie inside the structure, the
GASNet build all that touch it; the handler has as many parameters as a structure of at least eight bytes has ints,
and copies all of them, whether they were passed to it or not.

* `mpiDeliver`: the arguments that the handler is called with, for the three calls that `sendNow` can make.
* `MsgType.stamped`: the structure when it is sent, with the `BaseMedium` that `adjust_args` fills in.
* `typed`: the structure that the handler finds in its union.
* `mpi_survives_iff`: it is the one of the sender exactly when its size is a multiple of four and `adjust_args` finds
  the `BaseMedium`.
-/

namespace Realm.AmMpi

open Lib

/-! ## The sender -/

/-- `((const int *)args)[i]`, where `args` has the bytes of the structure and of what lies behind it. -/
def argWord (args : ℕ → Byte) (i : ℕ) : Word := args (4 * i + 3) ++ args (4 * i + 2) ++ args (4 * i + 1) ++ args (4 * i)

def argWords (args : ℕ → Byte) (n : ℕ) : List Word := (List.range n).map (argWord args)

/-- `n_args` in `mpi_enqueue_message` -/
def mpiNumArgs (argSize : ℕ) : ℕ := argSize / 4

/-- The number of arguments in the `enqueue_message` of the GASNet build. -/
def gasnetNumArgs (argSize : ℕ) : ℕ := (argSize + 4 - 1) / 4

/-- `AM_short_n`, `AM_medium_n` or `AM_long_n`, which has put its payload into the window before. -/
def AmCall.send (m : Memory) (th : Thread) (bufSend : Buf) : AmCall → Option Sent
  | short _ handler args => amShort bufSend handler args
  | medium _ handler msg len args =>
    (amMedium th bufSend handler (cellsAt m msg (lenBytes len)) len args).map Prod.snd
  | long _ handler _ len dst args => (amLongHeader bufSend handler len dst args).map fun header => ⟨header, none⟩

/-- The type of a message: for `ActiveMessageShortNoReply`, or for `ActiveMessageMediumNoReply` with its `BaseMedium`
at word `start`. -/
inductive MsgType
  | short
  | medium (start : ℕ)
deriving DecidableEq

/-- The `BaseMedium` lies in the structure, at one of the two places where `adjust_args` looks for it, and is as
`set_magic` leaves it. -/
def MsgType.Magic (s : ℕ) (args : ℕ → Byte) : MsgType → Prop
  | short => True
  | medium start => (start = 0 ∨ start = 2) ∧ 4 * (start + 4) ≤ s ∧
    (List.range 4).map (fun i => argWord args (start + i)) = [messageIdMagic, messageChunksMagic, 0, 0]

/-- The structure after `adjust_args`: the `BaseMedium` says that the message `nextId` has one chunk. -/
def MsgType.stamped (nextId : Word) (args : ℕ → Byte) : MsgType → ℕ → Byte
  | short, j => args j
  | medium start, j =>
    if 4 * start ≤ j then (([nextId, 1, 0, 0].flatMap wordBytes)[j - 4 * start]?).getD (args j) else args j

/-! ## The handler -/

/-- `sizeof(AtLeastEightBytes<MSGTYPE>)`: the union with a `uint64_t` has its alignment. -/
def sizeofAtLeastEightBytes (s : ℕ) : ℕ := (max s 8 + 7) / 8 * 8

/-- The number of parameters of the handler. -/
def msgN (s : ℕ) : ℕ := (sizeofAtLeastEightBytes s + 3) / 4

/-- `HANDLERARG_COPY_n`: the parameters that the caller does not pass are what `stale` says. -/
def handlerargCopy (n : ℕ) (passed : List Word) (stale : ℕ → Word) : List Word :=
  (List.range n).map fun i => passed.getD i (stale i)

/-- `u.typed`, the first `s` bytes of the union with `u.raw`. -/
def typed (s : ℕ) (raw : List Word) : List Byte := (raw.flatMap wordBytes).take s

def Call.args {H : Type} : Call H → List Word
  | short _ args => args
  | medium _ _ _ _ args => args
  | long _ _ _ args => args

section Deliver

variable {H : Type} (amTable : Vector H 256) (handler : Fin 256)

/-- The arguments that arrive; `none` if the receiver dies. -/
def mpiDeliver (m : Memory) (th : Thread) (bufSend bufRecv : Buf) (call : AmCall) : Option (List Word) := do
  let sent ← call.send m th bufSend
  let buf ← recvHeader bufRecv sent.header
  let call ← runAm amTable sent.recv buf
  return call.args

/-- The structure `args` of `s` bytes arrives, whatever comes with it, and whatever the buffers held before and the
handler was not passed. -/
def MpiSurvives (type : MsgType) (s : ℕ) (args : ℕ → Byte) : Prop :=
  ∀ (bases : ℕ → Addr) (nextId : Word) (target : ℕ) (m : Memory) (payload : Addr) (payloadSize : ℕ)
    (mode : PayloadMode) (dstptr : Addr) (th : Thread) (bufSend bufRecv : Buf) (stale : ℕ → Word),
    payloadSize < 2 ^ 31 → (mode = .none ↔ type = .short) →
    ∃ nextId' call passed,
      sendNow bases nextId target (handlerWord handler) (argWords args (mpiNumArgs s)) payload payloadSize mode
        dstptr = some (nextId', call) ∧
      mpiDeliver amTable m th bufSend bufRecv call = some passed ∧
      typed s (handlerargCopy (msgN s) passed stale) = (List.range s).map (type.stamped nextId args)

end Deliver

/-- The same for the GASNet build, which passes the arguments as they are sent. -/
def GasnetSurvives (s : ℕ) (args : ℕ → Byte) : Prop :=
  ∀ stale : ℕ → Word,
    typed s (handlerargCopy (msgN s) (argWords args (gasnetNumArgs s)) stale) = (List.range s).map args

/-! ## Words and bytes -/

theorem wordBytes_append (a b c d : Byte) : wordBytes (d ++ c ++ b ++ a) = [a, b, c, d] := by
  unfold wordBytes
  simp only [List.cons.injEq, and_true]
  refine ⟨?_, ?_, ?_, ?_⟩
  · ext k hk
    rw [BitVec.getElem_extractLsb', BitVec.getLsbD_append, if_pos (by omega), Nat.zero_add,
      BitVec.getLsbD_eq_getElem hk]
  · ext k hk
    rw [BitVec.getElem_extractLsb', BitVec.getLsbD_append, if_neg (by omega), BitVec.getLsbD_append,
      if_pos (by omega), show 8 + k - 8 = k by omega, BitVec.getLsbD_eq_getElem hk]
  · ext k hk
    rw [BitVec.getElem_extractLsb', BitVec.getLsbD_append, if_neg (by omega), BitVec.getLsbD_append,
      if_neg (by omega), BitVec.getLsbD_append, if_pos (by omega), show 16 + k - 8 - 8 = k by omega,
      BitVec.getLsbD_eq_getElem hk]
  · ext k hk
    rw [BitVec.getElem_extractLsb', BitVec.getLsbD_append, if_neg (by omega), BitVec.getLsbD_append,
      if_neg (by omega), BitVec.getLsbD_append, if_neg (by omega), show 24 + k - 8 - 8 - 8 = k by omega,
      BitVec.getLsbD_eq_getElem hk]

/-- The bytes of a list of words, one by one. -/
theorem getElem?_flatMap_wordBytes (ws : List Word) (i : ℕ) {r : ℕ} (hr : r < 4) :
    (ws.flatMap wordBytes)[4 * i + r]? = ws[i]?.bind fun w => (wordBytes w)[r]? := by
  induction ws generalizing i with
  | nil => rfl
  | cons w ws ih =>
    rw [List.flatMap_cons]
    cases i with
    | zero =>
      rw [List.getElem?_append_left (by rw [length_wordBytes]; omega), Nat.mul_zero, Nat.zero_add]
      rfl
    | succ i =>
      rw [List.getElem?_append_right (by rw [length_wordBytes]; omega), length_wordBytes,
        show 4 * (i + 1) + r - 4 = 4 * i + r by omega, ih]
      rfl

theorem getElem?_argWord (args : ℕ → Byte) (i : ℕ) {r : ℕ} (hr : r < 4) :
    (wordBytes (argWord args i))[r]? = some (args (4 * i + r)) := by
  rw [argWord, wordBytes_append]
  match r, hr with
  | 0, _ => rfl
  | 1, _ => rfl
  | 2, _ => rfl
  | 3, _ => rfl

/-- **A byte of the structure** that the handler finds is one of a word that was passed, or it is stale. -/
theorem getElem?_typed {s j : ℕ} (hj : j < s) (passed : List Word) (stale : ℕ → Word) :
    (typed s (handlerargCopy (msgN s) passed stale))[j]? =
      (wordBytes (passed.getD (j / 4) (stale (j / 4))))[j % 4]? := by
  have hword : j / 4 < msgN s := by
    unfold msgN sizeofAtLeastEightBytes
    omega
  have hj4 : 4 * (j / 4) + j % 4 = j := Nat.div_add_mod j 4
  rw [typed, List.getElem?_take_of_lt hj, ← hj4, getElem?_flatMap_wordBytes _ _ (Nat.mod_lt _ (by decide)), hj4,
    handlerargCopy, List.getElem?_map, List.getElem?_range hword]
  rfl

theorem length_typed (s : ℕ) (passed : List Word) (stale : ℕ → Word) :
    (typed s (handlerargCopy (msgN s) passed stale)).length = s := by
  rw [typed, List.length_take, length_flatMap_wordBytes, handlerargCopy, List.length_map, List.length_range]
  unfold msgN sizeofAtLeastEightBytes
  omega

theorem getD_argWords (args : ℕ → Byte) {n i : ℕ} (hi : i < n) (w : Word) :
    (argWords args n).getD i w = argWord args i := by
  rw [argWords, List.getD_eq_getElem?_getD, List.getElem?_map, List.getElem?_range hi]
  rfl

/-- If the words that are passed reach to the end of the structure, it arrives. -/
theorem typed_eq {s n : ℕ} (hn : s ≤ 4 * n) (args : ℕ → Byte) (stale : ℕ → Word) :
    typed s (handlerargCopy (msgN s) (argWords args n) stale) = (List.range s).map args := by
  refine List.ext_getElem? fun j => ?_
  rcases Nat.lt_or_ge j s with hj | hj
  · rw [getElem?_typed hj, getD_argWords args (by omega), getElem?_argWord args _ (Nat.mod_lt _ (by decide)),
      Nat.div_add_mod, List.getElem?_map, List.getElem?_range hj]
    rfl
  · rw [List.getElem?_eq_none (by rw [length_typed]; exact hj), List.getElem?_eq_none (by simpa using hj)]

theorem length_argWords (args : ℕ → Byte) (n : ℕ) : (argWords args n).length = n := by
  rw [argWords, List.length_map, List.length_range]

theorem getElem?_argWords (args : ℕ → Byte) {n i : ℕ} (hi : i < n) : (argWords args n)[i]? = some (argWord args i) := by
  rw [argWords, List.getElem?_map, List.getElem?_range hi]
  rfl

/-! ## Delivery -/

def AmCall.args : AmCall → List Word
  | short _ _ args => args
  | medium _ _ _ _ args => args
  | long _ _ _ _ _ args => args

section Deliver

variable {H : Type} (amTable : Vector H 256) (handler : Fin 256) (th : Thread) (bufSend bufRecv : Buf) (m : Memory)
  {bases : ℕ → Addr} {nextId nextId' : Word} {target : ℕ} {args : List Word} {payload : Addr} {payloadSize : ℕ}
  {mode : PayloadMode} {dstptr : Addr} {call : AmCall}

/-- `send_now` hands over as many arguments as it gets. -/
theorem length_args_sendNow
    (h : sendNow bases nextId target (handlerWord handler) args payload payloadSize mode dstptr =
      some (nextId', call)) : call.args.length = args.length := by
  unfold sendNow at h
  split at h
  · obtain ⟨-, rfl⟩ := Prod.mk.inj (Option.some.inj h)
    rfl
  · obtain ⟨args', hargs, h⟩ := Option.bind_eq_some_iff.mp h
    split at h
    · obtain ⟨-, rfl⟩ := Prod.mk.inj (Option.some.inj h)
      exact length_adjustArgs hargs
    · obtain ⟨-, rfl⟩ := Prod.mk.inj (Option.some.inj h)
      exact length_adjustArgs hargs

/-- The header of the call is accepted, and the handler called with the arguments. -/
theorem delivers_of_sendNow (hsize : payloadSize < 2 ^ 31) (h1 : 1 ≤ args.length) (h16 : args.length ≤ 16)
    (h : sendNow bases nextId target (handlerWord handler) args payload payloadSize mode dstptr =
      some (nextId', call)) :
    ∃ sent called, call.send m th bufSend = some sent ∧ Delivers amTable bufRecv sent called ∧
      called.args = call.args := by
  unfold sendNow at h
  split at h
  · obtain ⟨-, rfl⟩ := Prod.mk.inj (Option.some.inj h)
    obtain ⟨sent, hsend, -, hdec⟩ := amShort_decodes amTable bufSend handler h1 h16
    exact ⟨sent, _, hsend, hdec.delivers rfl bufRecv, rfl⟩
  · obtain ⟨args', hargs, h⟩ := Option.bind_eq_some_iff.mp h
    have hlen := length_adjustArgs hargs
    split at h
    · obtain ⟨-, rfl⟩ := Prod.mk.inj (Option.some.inj h)
      have hbytes : (cellsAt m payload (lenBytes (BitVec.ofNat 32 payloadSize))).length = payloadSize := by
        rw [length_cellsAt, lenBytes, toInt_ofNat_of_lt hsize]
        omega
      obtain ⟨th', sent, hsend, hsent⟩ := amMedium_decodes amTable handler th bufSend (by omega : 1 ≤ args'.length)
        (by omega) (by rw [hbytes]; exact hsize)
      rw [hbytes] at hsend
      exact ⟨sent, _, by rw [AmCall.send, hsend]; rfl, hsent.delivers (by rw [hbytes]; exact hsize) bufRecv, rfl⟩
    · obtain ⟨-, rfl⟩ := Prod.mk.inj (Option.some.inj h)
      obtain ⟨header, hsend, hdec⟩ := amLongHeader_decodes amTable bufSend handler (BitVec.ofNat 32 payloadSize)
        (dstptr - bases target) (by omega : 1 ≤ args'.length) (by omega)
      have hdec' : Decodes amTable (Sent.mk header none).header none _ := hdec
      exact ⟨⟨header, none⟩, _, by rw [AmCall.send, hsend]; rfl, hdec'.delivers rfl bufRecv, rfl⟩

/-- The arguments arrive, if there are some. -/
theorem mpiDeliver_eq (hsize : payloadSize < 2 ^ 31) (h1 : 1 ≤ args.length) (h16 : args.length ≤ 16)
    (h : sendNow bases nextId target (handlerWord handler) args payload payloadSize mode dstptr =
      some (nextId', call)) : mpiDeliver amTable m th bufSend bufRecv call = some call.args := by
  obtain ⟨sent, called, hsend, ⟨-, buf, hrecv, hrun, -⟩, hargs⟩ :=
    delivers_of_sendNow amTable handler th bufSend bufRecv m hsize h1 h16 h
  simp only [mpiDeliver, hsend, Option.bind_eq_bind, Option.bind_some, hrecv, hrun, hargs]
  rfl

/-- A short message without arguments: the receiver dies. -/
theorem mpiDeliver_nil (target : ℕ) :
    mpiDeliver amTable m th bufSend bufRecv (.short target (handlerWord handler) []) = none := by
  obtain ⟨buf, sent, hsend, -, hbuf, hs, hl⟩ := amShort_spec bufSend (handlerWord handler)
    (show ([] : List Word).length ≤ 16 by decide)
  obtain ⟨buf', hr, hcopy⟩ := recvHeader_spec bufRecv hs hl (by decide)
  have htype := hcopy _ _ (by rw [length_wordBytes]; decide) hbuf.type
  have hhandler := hcopy _ _ (by rw [length_wordBytes]; decide) hbuf.handler
  have hrun : runAm amTable sent.recv buf' = none := by
    rw [runAm_of_type htype hhandler, if_pos (by decide), runAmShort, handlerArgs, if_neg (by decide)]
    rfl
  simp only [mpiDeliver, AmCall.send, hsend, Option.bind_eq_bind, Option.bind_some, hr, hrun]
  rfl

end Deliver

/-! ## `adjust_args` on the structure -/

theorem argWord_eq {args : ℕ → Byte} {i : ℕ} {w : Word}
    (h : ∀ r < 4, (wordBytes w)[r]? = some (args (4 * i + r))) : argWord args i = w := by
  have hbytes : wordBytes (argWord args i) = wordBytes w := by
    refine List.ext_getElem? fun r => ?_
    rcases Nat.lt_or_ge r 4 with hr | hr
    · rw [getElem?_argWord args i hr, h r hr]
    · rw [List.getElem?_eq_none (by rwa [length_wordBytes]), List.getElem?_eq_none (by rwa [length_wordBytes])]
  have hword := congrArg ofBytes hbytes
  rw [ofBytes_wordBytes, ofBytes_wordBytes] at hword
  exact Option.some.inj hword

/-- Word by word, `adjust_args` overwrites four ints. -/
theorem argWord_stamped (nextId : Word) (args : ℕ → Byte) (start i : ℕ) :
    argWord ((MsgType.medium start).stamped nextId args) i =
      if start ≤ i then ([nextId, 1, 0, 0][i - start]?).getD (argWord args i) else argWord args i := by
  apply argWord_eq
  intro r hr
  by_cases hi : start ≤ i
  · rw [if_pos hi, MsgType.stamped, if_pos (by omega), show 4 * i + r - 4 * start = 4 * (i - start) + r by omega,
      getElem?_flatMap_wordBytes _ _ hr]
    cases [nextId, 1, 0, 0][i - start]? with
    | none => exact getElem?_argWord args i hr
    | some w =>
      have hlt : r < (wordBytes w).length := hr
      rw [Option.getD_some, Option.bind_some, List.getElem?_eq_getElem hlt, Option.getD_some]
  · rw [if_neg hi, MsgType.stamped, if_neg (by omega), getElem?_argWord args i hr]

theorem adjustArgs_argWords {args : ℕ → Byte} {start n : ℕ} (hn : start + 4 ≤ n) (nextId : Word)
    (htp : tpArgs (argWords args n) = some start) :
    adjustArgs nextId (argWords args n) = some (argWords ((MsgType.medium start).stamped nextId args) n) := by
  have hlen := length_argWords args n
  rw [adjustArgs, htp, Option.bind_eq_bind, Option.bind_some, if_pos (by omega)]
  refine congrArg some (List.ext_getElem? fun i => ?_)
  rcases Nat.lt_or_ge i n with hi | hi
  · rw [getElem?_argWords _ hi, argWord_stamped, List.append_assoc]
    rcases Nat.lt_or_ge i start with hlo | hlo
    · rw [if_neg (by omega), List.getElem?_append_left (by rw [List.length_take]; omega),
        List.getElem?_take_of_lt hlo, getElem?_argWords args hi]
    · have htake : ((argWords args n).take start).length = start := by
        rw [List.length_take]
        omega
      rw [if_pos hlo, List.getElem?_append_right (by omega), htake]
      rcases Nat.lt_or_ge (i - start) 4 with hmid | hmid
      · have hlt : i - start < [nextId, 1, 0, 0].length := hmid
        rw [List.getElem?_append_left hlt, List.getElem?_eq_getElem hlt, Option.getD_some]
      · have hge : [nextId, 1, 0, 0].length ≤ i - start := hmid
        rw [List.getElem?_append_right hge, List.getElem?_eq_none hge, Option.getD_none, List.getElem?_drop,
          show start + 4 + (i - start - [nextId, 1, 0, 0].length) = i by
            rw [List.length_cons, List.length_cons, List.length_cons, List.length_cons, List.length_nil]; omega,
          getElem?_argWords args hi]
  · rw [List.getElem?_eq_none, List.getElem?_eq_none (by rwa [length_argWords])]
    simp only [List.length_append, List.length_take, List.length_drop, List.length_cons, List.length_nil]
    omega

/-- `adjust_args` takes the `BaseMedium` for what it is: an int before it does not look like its magic. -/
def MsgType.Found (args : ℕ → Byte) : MsgType → Prop
  | short => True
  | medium start => start = 0 ∨ argWord args 0 ≠ messageIdMagic

section Magic

variable {s start : ℕ} {args : ℕ → Byte}

theorem MsgType.Magic.id_eq (h : (MsgType.medium start).Magic s args) : argWord args start = messageIdMagic :=
  (List.cons.inj h.2.2).1

theorem tpArgs_of_found (h : (MsgType.medium start).Magic s args) (hf : (MsgType.medium start).Found args) :
    tpArgs (argWords args (s / 4)) = some start := by
  have hroom := h.2.1
  have hid := h.id_eq
  obtain rfl | rfl := h.1
  · rw [tpArgs, getElem?_argWords args (by omega), if_pos (congrArg some hid)]
  · have hne : argWord args 0 ≠ messageIdMagic := hf.resolve_left (by decide)
    rw [tpArgs, getElem?_argWords args (by omega), if_neg fun h0 => hne (Option.some.inj h0),
      getElem?_argWords args (by omega), if_pos (congrArg some hid)]

/-- An int that looks like the magic misleads `adjust_args`. -/
theorem tpArgs_of_not_found (h : (MsgType.medium start).Magic s args) (hf : ¬(MsgType.medium start).Found args) :
    start = 2 ∧ tpArgs (argWords args (s / 4)) = some 0 := by
  have hroom := h.2.1
  have h0 : start ≠ 0 := fun h0 => hf (.inl h0)
  have hmagic : argWord args 0 = messageIdMagic := by_contra fun hne => hf (.inr hne)
  refine ⟨h.1.resolve_left h0, ?_⟩
  rw [tpArgs, getElem?_argWords args (by omega), if_pos (congrArg some hmagic)]

end Magic

/-! ## The structures that survive -/

section Survive

variable {H : Type} (amTable : Vector H 256) (handler : Fin 256) {type : MsgType} {s : ℕ} {args : ℕ → Byte}

/-- What `send_now` makes of a structure, when it finds the `BaseMedium`. -/
theorem sendNow_argWords (hmagic : type.Magic s args) (hfound : type.Found args) (bases : ℕ → Addr) (nextId : Word)
    (target : ℕ) (msgid : Word) (payload : Addr) (payloadSize : ℕ) {mode : PayloadMode} (dstptr : Addr)
    (hmode : mode = .none ↔ type = .short) :
    ∃ nextId' call, sendNow bases nextId target msgid (argWords args (mpiNumArgs s)) payload payloadSize mode dstptr =
      some (nextId', call) ∧ call.args = argWords (type.stamped nextId args) (mpiNumArgs s) := by
  cases type with
  | short =>
    refine ⟨nextId, .short target msgid (argWords args (mpiNumArgs s)), ?_, rfl⟩
    rw [sendNow, if_pos (hmode.mpr rfl)]
  | medium start =>
    have hroom := hmagic.2.1
    have hadjust := adjustArgs_argWords (show start + 4 ≤ s / 4 by omega) nextId (tpArgs_of_found hmagic hfound)
    have hnone : mode ≠ .none := by
      intro h
      cases hmode.mp h
    rw [sendNow, if_neg hnone, mpiNumArgs, hadjust, Option.bind_eq_bind, Option.bind_some]
    by_cases hdst : dstptr = 0
    · exact ⟨_, _, if_pos hdst, rfl⟩
    · exact ⟨_, _, if_neg hdst, rfl⟩

theorem mpiSurvives_of_dvd (h1 : 1 ≤ s) (h64 : s ≤ 64) (hmagic : type.Magic s args) (h4 : 4 ∣ s)
    (hfound : type.Found args) : MpiSurvives amTable handler type s args := by
  intro bases nextId target m payload payloadSize mode dstptr th bufSend bufRecv stale hsize hmode
  obtain ⟨nextId', call, hsend, hcall⟩ := sendNow_argWords hmagic hfound bases nextId target (handlerWord handler)
    payload payloadSize dstptr hmode
  have hlen := length_argWords args (s / 4)
  refine ⟨nextId', call, call.args, hsend,
    mpiDeliver_eq amTable handler th bufSend bufRecv m hsize ?_ ?_ hsend, ?_⟩
  · rw [mpiNumArgs]
    omega
  · rw [mpiNumArgs]
    omega
  · rw [hcall]
    apply typed_eq
    rw [mpiNumArgs]
    omega

theorem exists_byte_ne {r : ℕ} (hr : r < 4) (b : Byte) : ∃ w, (wordBytes w)[r]? ≠ some b := by
  have hzero : ∀ r < 4, (wordBytes 0)[r]? = some 0 := by decide
  have hones : ∀ r < 4, (wordBytes (BitVec.allOnes 32))[r]? = some (BitVec.allOnes 8) := by decide
  by_cases hb : b = 0
  · refine ⟨BitVec.allOnes 32, fun h => ?_⟩
    rw [hones r hr, hb] at h
    exact absurd h (by decide)
  · refine ⟨0, fun h => ?_⟩
    rw [hzero r hr] at h
    exact hb (Option.some.inj h).symm

/-- A mode that messages of the type have. -/
def MsgType.someMode : MsgType → PayloadMode
  | short => .none
  | medium _ => .keep

theorem MsgType.someMode_eq_none_iff : type.someMode = .none ↔ type = .short := by
  cases type with
  | short => exact ⟨fun _ => rfl, fun _ => rfl⟩
  | medium start => exact iff_of_false (by simp [MsgType.someMode]) (by simp)

/-- A structure of less than four bytes has no arguments. -/
theorem not_mpiSurvives_of_lt (hmagic : type.Magic s args) (h0 : s / 4 = 0) :
    ¬MpiSurvives amTable handler type s args := by
  intro h
  have hshort : type = .short := by
    cases type with
    | short => rfl
    | medium start =>
      have hroom := hmagic.2.1
      omega
  obtain ⟨nextId', call, passed, hsend, hdeliver, -⟩ := h (fun _ => 0) 0 0 (fun _ => 0) 0 0 .none 0 ⟨0, 0⟩
    (.replicate _ 0) (.replicate _ 0) (fun _ => 0) (by decide) (iff_of_true rfl hshort)
  rw [mpiNumArgs, h0, sendNow, if_pos rfl] at hsend
  obtain ⟨-, rfl⟩ := Prod.mk.inj (Option.some.inj hsend)
  have hnil : argWords args 0 = [] := rfl
  rw [hnil, mpiDeliver_nil] at hdeliver
  cases hdeliver

/-- The last byte of the structure is in no word that is sent. -/
theorem dvd_of_mpiSurvives (h64 : s ≤ 64) (hmagic : type.Magic s args)
    (h : MpiSurvives amTable handler type s args) : 4 ∣ s := by
  by_contra h4
  rcases Nat.eq_zero_or_pos (s / 4) with h0 | hpos
  · exact not_mpiSurvives_of_lt amTable handler hmagic h0 h
  obtain ⟨w, hw⟩ := exists_byte_ne (Nat.mod_lt (s - 1) (by decide : 0 < 4)) (type.stamped 0 args (s - 1))
  obtain ⟨nextId', call, passed, hsend, hdeliver, htyped⟩ := h (fun _ => 0) 0 0 (fun _ => 0) 0 0 type.someMode 0
    ⟨0, 0⟩ (.replicate _ 0) (.replicate _ 0) (fun _ => w) (by decide) MsgType.someMode_eq_none_iff
  have hlen := length_argWords args (s / 4)
  have hpassed : passed = call.args := by
    rw [mpiDeliver_eq amTable handler _ _ _ _ (by decide) (by rw [mpiNumArgs]; omega) (by rw [mpiNumArgs]; omega)
      hsend] at hdeliver
    exact (Option.some.inj hdeliver).symm
  have hcount : passed.length ≤ (s - 1) / 4 := by
    rw [hpassed, length_args_sendNow handler hsend, mpiNumArgs]
    omega
  have hlast := congrArg (fun l => l[s - 1]?) htyped
  simp only [getElem?_typed (show s - 1 < s by omega), List.getD_eq_getElem?_getD, List.getElem?_eq_none hcount,
    Option.getD_none, List.getElem?_map, List.getElem?_range (show s - 1 < s by omega), Option.map_some] at hlast
  exact hw hlast

/-- If an int before the `BaseMedium` looks like its magic, the id goes there. -/
theorem found_of_mpiSurvives (h64 : s ≤ 64) (hmagic : type.Magic s args)
    (h : MpiSurvives amTable handler type s args) : type.Found args := by
  by_contra hf
  have h4 := dvd_of_mpiSurvives amTable handler h64 hmagic h
  cases type with
  | short => exact hf trivial
  | medium start =>
    obtain ⟨rfl, htp⟩ := tpArgs_of_not_found hmagic hf
    have hroom := hmagic.2.1
    obtain ⟨nextId', call, passed, hsend, hdeliver, htyped⟩ := h (fun _ => 0) 1 0 (fun _ => 0) 0 0 .keep 0
      ⟨0, 0⟩ (.replicate _ 0) (.replicate _ 0) (fun _ => 0) (by decide) (iff_of_false (by decide) (by decide))
    have hlen := length_argWords args (s / 4)
    rw [mpiDeliver_eq amTable handler _ _ _ _ (by decide) (by rw [mpiNumArgs]; omega) (by rw [mpiNumArgs]; omega)
      hsend] at hdeliver
    obtain rfl := Option.some.inj hdeliver
    rw [mpiNumArgs, sendNow, if_neg (by decide), adjustArgs_argWords (by omega) 1 htp, Option.bind_eq_bind,
      Option.bind_some, if_pos rfl] at hsend
    obtain ⟨-, rfl⟩ := Prod.mk.inj (Option.some.inj hsend)
    rw [AmCall.args, typed_eq (by omega)] at htyped
    have hbyte := congrArg (fun l => l[8]?) htyped
    simp only [List.getElem?_map, List.getElem?_range (show 8 < s by omega), Option.map_some] at hbyte
    exact absurd hbyte (by simp [MsgType.stamped, wordBytes])

theorem gasnetSurvives (s : ℕ) (args : ℕ → Byte) : GasnetSurvives s args := by
  intro stale
  apply typed_eq
  unfold gasnetNumArgs
  omega

end Survive

/-- **Message structures** of up to 64 bytes reach the handlers of the MPI build exactly when their size is a multiple
of four and `adjust_args` finds the `BaseMedium`; those of the GASNet build they always reach. -/
theorem mpi_survives_iff {H : Type} (amTable : Vector H 256) (handler : Fin 256) (type : MsgType) (s : ℕ)
    (args : ℕ → Byte) (h1 : 1 ≤ s) (h64 : s ≤ 64) (hmagic : type.Magic s args) :
    (MpiSurvives amTable handler type s args ↔ 4 ∣ s ∧ type.Found args) ∧ GasnetSurvives s args := by
  refine ⟨⟨fun h => ⟨?_, ?_⟩, fun h => ?_⟩, gasnetSurvives s args⟩
  · exact dvd_of_mpiSurvives amTable handler h64 hmagic h
  · exact found_of_mpiSurvives amTable handler h64 hmagic h
  · exact mpiSurvives_of_dvd amTable handler h1 h64 hmagic h.1 h.2

/-- Three ints, for which the handler has four parameters. -/
theorem mpi_survives_twelve :
    MpiSurvives (.replicate 256 ()) 7 .short 12 (fun j => BitVec.ofNat 8 j) ∧
      GasnetSurvives 12 (fun j => BitVec.ofNat 8 j) := by
  obtain ⟨hmpi, hgasnet⟩ := mpi_survives_iff (.replicate 256 ()) 7 .short 12 (fun j => BitVec.ofNat 8 j) (by decide)
    (by decide) trivial
  exact ⟨hmpi.mpr ⟨by decide, trivial⟩, hgasnet⟩

/-- Of an int and a byte only the int is sent. -/
theorem not_mpi_survives_five : ¬MpiSurvives (.replicate 256 ()) 7 .short 5 (fun _ => 0) :=
  fun h => absurd (dvd_of_mpiSurvives _ 7 (by decide) (show MsgType.short.Magic 5 _ from trivial) h) (by decide)

end Realm.AmMpi

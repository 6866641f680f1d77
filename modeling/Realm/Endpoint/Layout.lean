import Realm.Endpoint.Chunks
import Realm.AmMpi.Enqueue

/-!
# Realm.Endpoint.Layout — where the message id is

`send_long` looks for the `BaseMedium` at two places of the argument words and stores the message id and the
number of chunks there; `handler_medium` reads both at one place.

* `messageIdStart`, `sentArgs`, `sendAll`: the sender (`macros_impl/push_message.def`), over the requests of
  `Chunks.sendLong`.
* `handlerMedium`: the receiver (`templates/activemsg.h`), over `Chunks.adjustMsgsize`.
* `layout_correct_iff`: both sides agree, and every message in several chunks is handled exactly once, if and
  only if the `BaseMedium` of every message comes first.
-/

namespace Realm.Layout

open Lib Chunks
open AmMpi (Word messageIdMagic messageChunksMagic)

/-! ## The sender -/

/-- `hdr->args` -/
abbrev Args := Fin 16 → Word

/-- `message_id_start`; `none` is a failed assertion. -/
def messageIdStart (args : Args) : Option (Fin 16) :=
  if args 0 = messageIdMagic then
    if args 1 = messageChunksMagic then some 0 else none
  else if args 2 = messageIdMagic then
    if args 3 = messageChunksMagic then some 2 else none
  else none

/-- A message that `send_long` accepts, before it has an id: the `id` of `hdr` is not used.  Of the sixteen
words `numArgs` go out, and fewer than two fail. -/
structure Message where
  hdr : LongMessage
  args : Args
  numArgs : ℕ
  accepted : (messageIdStart args).isSome
  two_le : 2 ≤ numArgs
  le_max : numArgs ≤ 16

namespace Message

variable (maxLongReq : ℕ) (msg : Message) (id : Word)

/-- The message under the id it gets. -/
def long : LongMessage := { msg.hdr with id := id.toInt }

/-- The `int chunks`. -/
def chunks : Word := BitVec.ofInt 32 (int32 (chunkCount maxLongReq msg.hdr))

/-- `hdr->args` after the four stores. -/
def storedArgs : Args :=
  let start := (messageIdStart msg.args).get msg.accepted
  let args := Function.update msg.args start id
  let args := Function.update args (start + 1) (msg.chunks maxLongReq)
  let args := Function.update args (start + 2) (if msg.hdr.isSrcptr then msg.hdr.payload.setWidth 32 else 0)
  Function.update args (start + 3) (if msg.hdr.isSrcptr then (msg.hdr.payload >>> 32).setWidth 32 else 0)

/-- `hdr->args[0]`, …, `hdr->args[hdr->num_args - 1]` -/
def sentArgs : List Word := (List.ofFn (msg.storedArgs maxLongReq id)).take msg.numArgs

end Message

/-- One `AMRequestLongAsync` with all its arguments.  `owner` is the id of the message that it is a part of,
wherever among the arguments that is. -/
structure LongRequest where
  owner : Word
  src : ℕ
  size : ℕ
  dest : ℕ
  args : List Word

/-- `send_long` -/
def sendLong (maxLongReq : ℕ) (id : Word) (msg : Message) : List LongRequest :=
  (Chunks.sendLong maxLongReq (msg.long id)).map fun c =>
    ⟨id, c.src, c.size, c.dest, msg.sentArgs maxLongReq id⟩

/-- `next_outgoing_message_id++` -/
def numbered : Word → List Message → List (Word × Message)
  | _, [] => []
  | next, msg :: msgs => (next, msg) :: numbered (next + 1) msgs

/-- The requests for `msgs`, one message after the other. -/
def sendAll (maxLongReq : ℕ) (next : Word) (msgs : List Message) : List LongRequest :=
  (numbered next msgs).flatMap fun p => sendLong maxLongReq p.1 p.2

/-! ## The receiver -/

namespace LongRequest

/-- The parameter `arg<i>` of the handler. -/
def arg (q : LongRequest) (i : ℕ) : Word := q.args.getD i 0

/-- What `handler_medium` takes the request for: `arg0` is the id, `arg1` the number of chunks. -/
def seen (q : LongRequest) : Chunk where
  src := q.src
  size := q.size
  dest := q.dest
  id := (q.arg 0).toInt
  chunks := (q.arg 1).toInt
  srcptrLo := q.arg 2
  srcptrHi := q.arg 3

end LongRequest

/-- The receiving endpoint, with the messages it has handed on. -/
structure Receiver where
  observed : ℤ → Option ChunkInfo
  handled : List Word

def Receiver.init : Receiver := ⟨fun _ => none, []⟩

/-- `MessageRawArgs::handler_medium` -/
def handlerMedium (r : Receiver) (q : LongRequest) : Receiver :=
  match adjustMsgsize r.observed q.seen with
  | (observed, none) => { r with observed := observed }
  | (observed, some _) => ⟨observed, r.handled ++ [q.owner]⟩

/-- The requests `qs` arrive one after the other. -/
def receive (qs : List LongRequest) : Receiver := qs.foldl handlerMedium .init

/-! ## What is to be shown -/

/-- The first two parameters of the handler are what `send_long` stored. -/
def Agrees (maxLongReq : ℕ) (id : Word) (msg : Message) : Prop :=
  (msg.sentArgs maxLongReq id)[0]? = some id ∧ (msg.sentArgs maxLongReq id)[1]? = some (msg.chunks maxLongReq)

/-- The number of requests for the message `id` among `qs`. -/
def arrived (id : Word) (qs : List LongRequest) : ℕ := qs.countP (fun q => q.owner = id)

/-- Messages for one peer, no more than there are ids. -/
structure Traffic where
  maxLongReq : ℕ
  messages : List Message
  max_pos : 1 ≤ maxLongReq
  max_lt : maxLongReq < 2 ^ 64
  length_le : messages.length ≤ 2 ^ 32

/-- Whatever ids the messages get, the receiver finds them; and in whatever order the requests arrive, a message
in several chunks is handled once when all of them are there, and not before. -/
structure Traffic.Correct (T : Traffic) : Prop where
  agrees : ∀ msg ∈ T.messages, ∀ id, Agrees T.maxLongReq id msg
  once : ∀ next qs rest, (qs ++ rest).Perm (sendAll T.maxLongReq next T.messages) →
    ∀ p ∈ numbered next T.messages, 2 ≤ (sendLong T.maxLongReq p.1 p.2).length →
      (receive qs).handled.count p.1 =
        if arrived p.1 qs = (sendLong T.maxLongReq p.1 p.2).length then 1 else 0

/-! ## The two layouts -/

variable {M : ℕ} {msg : Message} {id : Word}

theorem messageIdStart_eq_some {args : Args} {start : Fin 16} (h : messageIdStart args = some start) :
    (args 0 = messageIdMagic ∧ start = 0) ∨ (args 0 ≠ messageIdMagic ∧ start = 2) := by
  unfold messageIdStart at h
  split_ifs at h with h0
  · exact .inl ⟨h0, (Option.some.inj h).symm⟩
  · exact .inr ⟨h0, (Option.some.inj h).symm⟩

/-- With the `BaseMedium` in front, its first two words are overwritten. -/
theorem storedArgs_front (h : msg.args 0 = messageIdMagic) (id : Word) :
    msg.storedArgs M id 0 = id ∧ msg.storedArgs M id 1 = msg.chunks M := by
  obtain ⟨-, hstart⟩ | ⟨hne, -⟩ := messageIdStart_eq_some (Option.some_get msg.accepted).symm
  · unfold Message.storedArgs
    rw [hstart]
    refine ⟨?_, ?_⟩
    · rfl
    · rfl
  · exact absurd h hne

/-- Behind two ints, nothing is stored in these. -/
theorem storedArgs_behind (h : msg.args 0 ≠ messageIdMagic) : msg.storedArgs M id 0 = msg.args 0 := by
  obtain ⟨heq, -⟩ | ⟨-, hstart⟩ := messageIdStart_eq_some (Option.some_get msg.accepted).symm
  · exact absurd heq h
  · unfold Message.storedArgs
    rw [hstart]
    rfl

/-- The first two words always go out. -/
theorem getElem?_sentArgs {i : Fin 16} (hi : (i : ℕ) < 2) :
    (msg.sentArgs M id)[(i : ℕ)]? = some (msg.storedArgs M id i) := by
  have htwo := msg.two_le
  unfold Message.sentArgs
  rw [List.getElem?_take_of_lt (by omega), List.getElem?_ofFn, dif_pos i.isLt]

theorem agrees_of_front (h : msg.args 0 = messageIdMagic) (id : Word) : Agrees M id msg := by
  obtain ⟨hid, hchunks⟩ := storedArgs_front (M := M) h id
  refine ⟨?_, ?_⟩
  · exact (getElem?_sentArgs (i := 0) Nat.zero_lt_two).trans (congrArg some hid)
  · exact (getElem?_sentArgs (i := 1) Nat.one_lt_two).trans (congrArg some hchunks)

/-- Behind two ints the receiver takes the first of these for the id, whatever the id is. -/
theorem front_of_agrees (h : ∀ id, Agrees M id msg) : msg.args 0 = messageIdMagic := by
  by_contra hne
  have hagree := (h (msg.args 0 + 1)).1
  have hsent : (msg.sentArgs M (msg.args 0 + 1))[0]? = some (msg.args 0) :=
    (getElem?_sentArgs (i := 0) Nat.zero_lt_two).trans (congrArg some (storedArgs_behind hne))
  rw [hsent, Option.some.injEq] at hagree
  exact absurd hagree (by bv_omega)

/-! ## Counting chunks -/

/-- What the map knows about a message of `N` chunks, `n` of which have arrived. -/
inductive Tally (N n : ℕ) : Option ChunkInfo → Prop
  | none (h : n = 0 ∨ n = N) : Tally N n none
  | some {info : ChunkInfo} (h0 : 0 < n) (hlt : n < N) (hchunks : info.chunks = int32 n) : Tally N n (some info)

/-- **One chunk**: the message is complete exactly with the last of its chunks. -/
theorem Tally.adjust {N n : ℕ} {observed : ℤ → Option ChunkInfo} {c : Chunk} (h : Tally N n (observed c.id))
    (hsize : c.size ≠ 0) (hchunks : c.chunks = int32 N) (h2 : 2 ≤ N) (h31 : N ≤ 2 ^ 31) (hn : n < N) :
    Tally N (n + 1) ((adjustMsgsize observed c).1 c.id) ∧
      ((adjustMsgsize observed c).2.isSome = true ↔ n + 1 = N) := by
  have hone : c.chunks ≠ 1 := fun h => by
    have := (chunks_eq_one_iff hchunks h31).mp h
    omega
  generalize hentry : observed c.id = entry at h
  cases h with
  | none h0 =>
    obtain rfl : n = 0 := by omega
    rw [adjustMsgsize_first hsize hone hentry]
    simp only [Function.update_self]
    refine ⟨.some Nat.one_pos (by omega) ?_, ?_⟩
    · exact (int32_eq_self (x := 1) (by omega) (by omega)).symm
    · refine ⟨?_, ?_⟩
      · intro h
        cases h
      · omega
  | @some info h0 hlt hcount =>
    have hseen : int32 (info.chunks + 1) = int32 ((n + 1 : ℕ) : ℤ) := by
      rw [hcount, int32_int32_add, Nat.cast_succ]
    have hlast : int32 (info.chunks + 1) = c.chunks ↔ n + 1 = N := by
      rw [hseen, hchunks, int32_inj (by omega) (by omega)]
      omega
    by_cases hfull : n + 1 = N
    · rw [adjustMsgsize_last hsize hone hentry (hlast.mpr hfull)]
      simp only [Function.update_self]
      exact ⟨.none (.inr hfull), fun _ => hfull, fun _ => rfl⟩
    · rw [adjustMsgsize_next hsize hone hentry (fun h => hfull (hlast.mp h))]
      simp only [Function.update_self]
      refine ⟨.some (Nat.succ_pos n) (by omega) hseen, ?_, fun h => absurd h hfull⟩
      intro h
      cases h

/-- The receiver as far as a message of `N` chunks is concerned, `n` of which have arrived. -/
structure Counted (N : ℕ) (id : Word) (n : ℕ) (r : Receiver) : Prop where
  tally : Tally N n (r.observed id.toInt)
  count : r.handled.count id = if n = N then 1 else 0

theorem handlerMedium_observed (r : Receiver) (q : LongRequest) :
    (handlerMedium r q).observed = (adjustMsgsize r.observed q.seen).1 := by
  unfold handlerMedium
  split <;> (rename_i h; rw [h])

theorem handlerMedium_handled (r : Receiver) (q : LongRequest) :
    (handlerMedium r q).handled =
      r.handled ++ if (adjustMsgsize r.observed q.seen).2.isSome = true then [q.owner] else [] := by
  unfold handlerMedium
  split <;> (rename_i h; rw [h]; simp)

/-- What a request of a message with the `BaseMedium` in front looks like to the handler. -/
structure Seen (N : ℕ) (q : LongRequest) : Prop where
  id : q.seen.id = q.owner.toInt
  chunks : q.seen.chunks = int32 N
  size : q.seen.size ≠ 0

theorem Counted.own {N n : ℕ} {r : Receiver} (h : Counted N id n r) {q : LongRequest} (hq : Seen N q)
    (hown : q.owner = id) (h2 : 2 ≤ N) (h31 : N ≤ 2 ^ 31) (hn : n < N) : Counted N id (n + 1) (handlerMedium r q) := by
  have hid : q.seen.id = id.toInt := by rw [hq.id, hown]
  have htally := h.tally
  rw [← hid] at htally
  obtain ⟨htally', hfull⟩ := htally.adjust hq.size hq.chunks h2 h31 hn
  refine ⟨?_, ?_⟩
  · rw [handlerMedium_observed, ← hid]
    exact htally'
  · rw [handlerMedium_handled, List.count_append, h.count, if_neg (by omega), hown]
    simp only [hfull]
    split <;> simp

theorem Counted.other {N n : ℕ} {r : Receiver} (h : Counted N id n r) {q : LongRequest} {N' : ℕ}
    (hq : Seen N' q) (hne : q.owner ≠ id) : Counted N id n (handlerMedium r q) := by
  refine ⟨?_, ?_⟩
  · rw [handlerMedium_observed, adjustMsgsize_other]
    · exact h.tally
    · rw [hq.id]
      exact fun heq => hne (BitVec.toInt_inj.mp heq)
  · have hzero : List.count id (if (adjustMsgsize r.observed q.seen).2.isSome = true then [q.owner] else []) = 0 := by
      split <;> simp [hne]
    rw [handlerMedium_handled, List.count_append, h.count, hzero, Nat.add_zero]

/-! ## Every order of arrival -/

theorem length_sendLong (M : ℕ) (id : Word) (msg : Message) :
    (sendLong M id msg).length = (Chunks.sendLong M (msg.long id)).length := by
  unfold sendLong
  rw [List.length_map]

theorem owner_of_mem_sendLong {q : LongRequest} (h : q ∈ sendLong M id msg) : q.owner = id := by
  obtain ⟨c, -, rfl⟩ := List.mem_map.mp h
  rfl

theorem seen_of_mem_sendLong (hM : 1 ≤ M) (hM' : M < 2 ^ 64) (hfront : msg.args 0 = messageIdMagic)
    {q : LongRequest} (h : q ∈ sendLong M id msg) : Seen (sendLong M id msg).length q := by
  obtain ⟨hid, hchunks⟩ := agrees_of_front (M := M) hfront id
  rw [length_sendLong]
  obtain ⟨c, hc, rfl⟩ := List.mem_map.mp h
  have hsize : c.size ≠ 0 := size_ne_zero_of_mem_sendLong hM hM' hc
  refine ⟨?_, ?_, hsize⟩
  · simp only [LongRequest.seen, LongRequest.arg, List.getD_eq_getElem?_getD, hid, Option.getD_some]
  · have hcount := (int32_length_sendLong (List.ne_nil_of_mem hc)).1
    simp only [LongRequest.seen, LongRequest.arg, List.getD_eq_getElem?_getD, hchunks, Option.getD_some]
    rw [Message.chunks, BitVec.toInt_ofInt, ← hcount]
    exact int32_int32 _

theorem map_fst_numbered (next : Word) (msgs : List Message) :
    (numbered next msgs).map Prod.fst = (List.range msgs.length).map fun i => next + BitVec.ofNat 32 i := by
  induction msgs generalizing next with
  | nil => rfl
  | cons msg msgs ih =>
    rw [numbered, List.map_cons, ih, List.length_cons, List.range_succ_eq_map, List.map_cons, List.map_map]
    congr 1
    · simp
    · apply List.map_congr_left
      intro i _
      rw [Function.comp_apply, Nat.succ_eq_one_add, BitVec.ofNat_add, BitVec.add_assoc]
      rfl

/-- The ids only repeat after `2 ^ 32` messages. -/
theorem nodup_ids (T : Traffic) (next : Word) : ((numbered next T.messages).map Prod.fst).Nodup := by
  rw [map_fst_numbered]
  apply List.Nodup.map_on _ List.nodup_range
  intro i hi j hj h
  have hle := T.length_le
  rw [List.mem_range] at hi hj
  have hnat := congrArg BitVec.toNat ((BitVec.add_right_inj next).mp h)
  rw [BitVec.toNat_ofNat, BitVec.toNat_ofNat, Nat.mod_eq_of_lt (by omega), Nat.mod_eq_of_lt (by omega)] at hnat
  exact hnat

theorem mem_of_mem_numbered {p : Word × Message} {next : Word} {msgs : List Message}
    (h : p ∈ numbered next msgs) : p.2 ∈ msgs := by
  induction msgs generalizing next with
  | nil => cases h
  | cons msg msgs ih =>
    rcases List.mem_cons.mp h with rfl | h
    · exact List.mem_cons_self
    · exact List.mem_cons_of_mem _ (ih h)

theorem arrived_snoc (id : Word) (qs : List LongRequest) (q : LongRequest) :
    arrived id (qs ++ [q]) = arrived id qs + if q.owner = id then 1 else 0 := by
  unfold arrived
  rw [List.countP_append, List.countP_singleton]
  simp

/-- All the requests with an id are those of the message that got it. -/
theorem arrived_sendAll (T : Traffic) {next : Word} {p : Word × Message} (hp : p ∈ numbered next T.messages) :
    arrived p.1 (sendAll T.maxLongReq next T.messages) = (sendLong T.maxLongReq p.1 p.2).length := by
  unfold arrived sendAll
  rw [List.countP_eq_length_filter]
  exact congrArg List.length (filter_flatMap_key (fun _ _ hq => owner_of_mem_sendLong hq) (nodup_ids T next) hp)

/-- **Every order of arrival**: by induction on the requests that have arrived. -/
theorem counted_of_perm {T : Traffic} (hfront : ∀ msg ∈ T.messages, msg.args 0 = messageIdMagic) {next : Word}
    {p : Word × Message} (hp : p ∈ numbered next T.messages)
    (h2 : 2 ≤ (sendLong T.maxLongReq p.1 p.2).length) (qs rest : List LongRequest)
    (h : (qs ++ rest).Perm (sendAll T.maxLongReq next T.messages)) :
    Counted (sendLong T.maxLongReq p.1 p.2).length p.1 (arrived p.1 qs) (receive qs) := by
  have htotal := arrived_sendAll T hp
  have h31 : (sendLong T.maxLongReq p.1 p.2).length ≤ 2 ^ 31 := by
    rw [length_sendLong] at h2 ⊢
    exact (int32_length_sendLong (List.length_pos_iff.mp (by omega))).2
  refine arrival_induction
    (P := fun qs => Counted (sendLong T.maxLongReq p.1 p.2).length p.1 (arrived p.1 qs) (receive qs))
    ⟨.none (.inl rfl), (if_neg ?_).symm⟩ ?_ qs rest h
  · change 0 ≠ _
    omega
  · intro qs q rest h hr
    have hrecv : receive (qs ++ [q]) = handlerMedium (receive qs) q := by
      simp [receive, List.foldl_append]
    have hmem : q ∈ sendAll T.maxLongReq next T.messages := h.mem_iff.mp (by simp)
    obtain ⟨p', hp', hq⟩ := List.mem_flatMap.mp hmem
    have hseen := seen_of_mem_sendLong T.max_pos T.max_lt (hfront _ (mem_of_mem_numbered hp')) hq
    have hsnoc := arrived_snoc p.1 qs q
    rw [hrecv, hsnoc]
    by_cases hown : q.owner = p.1
    · obtain rfl : p' = p :=
        List.inj_on_of_nodup_map (nodup_ids T next) hp' hp ((owner_of_mem_sendLong hq).symm.trans hown)
      rw [if_pos hown] at hsnoc ⊢
      -- this request is still missing among `qs`
      have hlt : arrived p'.1 qs < (sendLong T.maxLongReq p'.1 p'.2).length := by
        have hall := h.countP_eq (fun q => decide (q.owner = p'.1))
        rw [List.append_cons, List.countP_append] at hall
        change arrived p'.1 (qs ++ [q]) + arrived p'.1 rest =
          arrived p'.1 (sendAll T.maxLongReq next T.messages) at hall
        omega
      exact hr.own hseen hown h2 h31 hlt
    · rw [if_neg hown]
      exact hr.other hseen hown

/-- **Sender and receiver agree, and messages in several chunks are handled exactly once, if and only if** the
`BaseMedium` comes first in the arguments of every message. -/
theorem layout_correct_iff (T : Traffic) :
    T.Correct ↔ ∀ msg ∈ T.messages, msg.args 0 = messageIdMagic := by
  refine ⟨?_, ?_⟩
  · intro h msg hmsg
    exact front_of_agrees (h.agrees msg hmsg)
  · intro h
    refine ⟨fun msg hmsg => agrees_of_front (h msg hmsg), fun next qs rest hperm p hp h2 => ?_⟩
    exact (counted_of_perm h hp h2 qs rest hperm).count

/-- Two ints, the second of them `1`, in front of the `BaseMedium`; eight bytes in requests of four. -/
def behindTwoInts : Traffic where
  maxLongReq := 4
  messages := [{
    hdr := ⟨0, 96, 8, 128, false, by decide, by decide, by decide, by decide, by decide⟩
    args := fun i => [7, 1, messageIdMagic, messageChunksMagic].getD i 0
    numArgs := 6
    accepted := by decide
    two_le := by decide
    le_max := by decide }]
  max_pos := by decide
  max_lt := by decide
  length_le := by decide

/-- The receiver takes the `1` for the number of chunks, and each of the two chunks for the message. -/
theorem behindTwoInts_fails :
    ¬ behindTwoInts.Correct ∧
      (receive (sendAll behindTwoInts.maxLongReq 5 behindTwoInts.messages)).handled = [5, 5] := by
  refine ⟨?_, ?_⟩
  · intro h
    have hargs := front_of_agrees (h.agrees _ (List.mem_singleton.mpr rfl))
    revert hargs
    decide
  · decide

end Realm.Layout

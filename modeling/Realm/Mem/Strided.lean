import Realm.AmMpi.Enqueue
import Realm.Mem.RemoteWrite

/-!
# Realm.Mem.Strided — strided transfers under the two backends

`do_remote_write` with lines and `do_remote_reduce` describe their payload by a line size, a stride and a
count.  The GASNet build gathers the lines (`TwoDPayload::copy_data`), the MPI build sends one block.

* `doRemoteReduce`: `do_remote_reduce` of `templates/mem_impl.cc`.
* `mpiData`: the bytes that a list of requests delivers under MPI; under GASNet it is `copied`.
* `Pieces.mpiData_iff`: when the two agree, for requests made by either function.
* `strided_agree_iff`: the backends agree on the layouts without gaps, and on no others.
-/

namespace Realm.Strided

open Lib RemoteWrite AmMpi

/-! ## `do_remote_reduce` -/

/-- `RemoteReduceMessage::RequestArgs` -/
structure ReduceArgs where
  mem : ℕ
  offset : Addr
  stride : Word
  redopId : Word
  sender : ℕ
  sequenceId : Word
deriving DecidableEq

def ReduceArgs.addOffset (n : Addr) (args : ReduceArgs) : ReduceArgs := { args with offset := args.offset + n }

/-- `rhsSize` is `redop->sizeof_rhs`.  A fold is encoded as the negated `redop_id`, and `dst_stride` has to fit
into the `int` field `stride`. -/
def doRemoteReduce (t : Target) (fuel : ℕ) (offset : Addr) (redopId : Word) (redFold : Bool) (rhsSize : ℕ)
    (data : Addr) (count : ℕ) (srcStride dstStride : Addr) (sequenceId : Word) (makeCopy : Bool) :
    Option (List (Request ReduceArgs) × ℕ) :=
  let mode := payloadMode makeCopy
  let maxElmts := t.lmbSize / rhsSize
  let args : ReduceArgs := ⟨t.mem, offset, dstStride.setWidth 32, if redFold then -redopId else redopId,
    t.myNodeId, sequenceId⟩
  if rhsSize = 0 ∨ maxElmts = 0 then none
  else if args.stride.signExtend 64 ≠ dstStride then none
  else if count > maxElmts then do
    let (c, pos, count) ← lineLoop t mode (ReduceArgs.addOffset (dstStride * BitVec.ofNat 64 maxElmts)) rhsSize
      srcStride maxElmts fuel ⟨[], args, 1⟩ data count
    return (c.request t (.twoD pos rhsSize count srcStride mode)).result
  else return ([⟨t.ownerNode, args, .twoD data rhsSize count srcStride mode, 0⟩], 1)

/-! ## Delivery -/

/-- The arguments of a request as the ints of an active message: `set_magic` and the fields. -/
class ArgWords (A : Type) where
  msgid : Word
  fields : A → List Word

def ArgWords.words {A : Type} [ArgWords A] (args : A) : List Word :=
  [messageIdMagic, messageChunksMagic, 0, 0] ++ ArgWords.fields args

/-- The low and the high half of a 64-bit field. -/
def halves (x : BitVec 64) : List Word := [x.setWidth 32, (x >>> 32).setWidth 32]

/-- `REMOTE_WRITE_MSGID` -/
instance : ArgWords RequestArgs where
  msgid := 162
  fields args := halves (BitVec.ofNat 64 args.mem) ++ halves args.offset ++
    [BitVec.ofNat 32 args.sender, args.sequenceId]

/-- `REMOTE_REDUCE_MSGID` -/
instance : ArgWords ReduceArgs where
  msgid := 163
  fields args := halves (BitVec.ofNat 64 args.mem) ++ halves args.offset ++
    [args.stride, args.redopId, BitVec.ofNat 32 args.sender, args.sequenceId]

section Delivery

variable {A : Type} [ArgWords A] (m : Memory) (bases : ℕ → Addr)

/-- The payloads of the calls that the requests lead to, from `next_outgoing_message_id = nextId` on. -/
def mpiData : Word → List (Request A) → Option (List Byte)
  | _, [] => some []
  | nextId, r :: rs => do
    let (nextId, call) ← mpiEnqueueMessage bases nextId r.target (ArgWords.msgid A) (ArgWords.words r.args)
      r.dstptr r.payload
    let rest ← mpiData nextId rs
    return call.bytes m ++ rest

end Delivery

/-- `get_lmb_size` of the MPI build: `std::numeric_limits<size_t>::max()`. -/
def mpiLmbSize : ℕ := 2 ^ 64 - 1

/-- Both backends deliver, and they deliver the same. -/
def SameData {A : Type} [ArgWords A] (bases : ℕ → Addr) (nextId : Word)
    (gasnet mpi : Option (List (Request A) × ℕ)) : Prop :=
  ∃ g p, gasnet = some g ∧ mpi = some p ∧
    ∀ m, (copied m g.1).isSome ∧ mpiData m bases nextId p.1 = copied m g.1

/-! ## Requests for lines -/

section Pieces

variable {A : Type} {mode : PayloadMode} {datalen lines : ℕ} {data stride : Addr} {reqs : List (Request A)}
  {m : Memory}

theorem copied_twoD {r : Request A} {p : Addr} {n : ℕ} (h : r.payload = .twoD p datalen n stride mode) :
    copied m [r] = some (gather m p datalen stride n) := by
  apply copied_singleton
  rw [h, PayloadSource.copyData, PayloadSource.copyLines_eq_gather]

/-- The requests carry the lines in order, in one piece or in several. -/
structure Pieces (mode : PayloadMode) (data : Addr) (datalen : ℕ) (stride : Addr) (lines : ℕ)
    (reqs : List (Request A)) : Prop where
  payload : ∀ r ∈ reqs, ∃ p n, r.payload = .twoD p datalen n stride mode
  gathered : ∀ m, copied m reqs = some (gather m data datalen stride lines)

theorem pieces_single {r : Request A} (h : r.payload = .twoD data datalen lines stride mode) :
    Pieces mode data datalen stride lines [r] where
  payload := by
    intro r' hr
    obtain rfl := List.mem_singleton.mp hr
    exact ⟨data, lines, h⟩
  gathered := fun m => copied_twoD h

/-- The loop and the request after it: the first piece is a full one. -/
theorem lineLoop_pieces (t : Target) (next : A → A) (args : A) {maxLines fuel : ℕ} (hmax : 0 < maxLines)
    (hlines : maxLines < lines) (hfuel : lines ≤ fuel) :
    ∃ c pos rest, lineLoop t mode next datalen stride maxLines fuel ⟨[], args, 1⟩ data lines =
        some (c, pos, rest) ∧
      Pieces mode data datalen stride lines (c.request t (.twoD pos datalen rest stride mode)).sent ∧
      ∃ r ∈ (c.request t (.twoD pos datalen rest stride mode)).sent, r.payload.length = datalen * maxLines := by
  let I : Memory → List Byte → Cursor A → Prop := fun m bytes c =>
    (∀ r ∈ c.sent, ∃ p, r.payload = .twoD p datalen maxLines stride mode) ∧ copied m c.sent = some bytes
  have hpush : ∀ m bytes c pos, I m bytes c → I m (bytes ++ gather m pos datalen stride maxLines)
      ((c.request t (.twoD pos datalen maxLines stride mode)).advance next) := by
    rintro m bytes c pos ⟨hpay, hdata⟩
    refine ⟨fun r hr => ?_, copied_append hdata (copied_twoD rfl)⟩
    rcases List.mem_append.mp hr with hr | hr
    · exact hpay r hr
    · obtain rfl := List.mem_singleton.mp hr
      exact ⟨pos, rfl⟩
  obtain ⟨k, c, rest, hrun, hsplit, hpos, hle, hlen, hI⟩ :=
    lineLoop_spec mode hmax hpush fuel ⟨[], args, 1⟩ data lines (by omega) hfuel
  have hinit : ∀ m, I m [] ⟨[], args, 1⟩ := fun m => ⟨by simp, rfl⟩
  have hpay := (hI (fun _ => 0) [] (hinit _)).1
  refine ⟨c, _, rest, hrun, ⟨?_, ?_⟩, ?_⟩
  · intro r hr
    rcases List.mem_append.mp hr with hr | hr
    · obtain ⟨p, hp⟩ := hpay r hr
      exact ⟨p, maxLines, hp⟩
    · obtain rfl := List.mem_singleton.mp hr
      exact ⟨_, rest, rfl⟩
  · intro m
    rw [hsplit, gather_add]
    exact copied_append (hI m [] (hinit m)).2 (copied_twoD rfl)
  · have hk : k ≠ 0 := by
      rintro rfl
      omega
    obtain ⟨r, hr⟩ := List.exists_mem_of_length_pos (show 0 < c.sent.length by simp [hlen]; omega)
    obtain ⟨p, hp⟩ := hpay r hr
    exact ⟨r, List.mem_append_left _ hr, by rw [hp]; rfl⟩

variable [ArgWords A] {bases : ℕ → Addr} {nextId : Word}

theorem adjustArgs_words (nextId : Word) (args : A) :
    ∃ args', adjustArgs nextId (ArgWords.words args) = some args' := by
  refine ⟨[] ++ [nextId, 1, 0, 0] ++ ArgWords.fields args, ?_⟩
  simp [adjustArgs, tpArgs, ArgWords.words]

theorem mpiData_cons {r : Request A} {rs : List (Request A)} {p : Addr} {n : ℕ}
    (h : r.payload = .twoD p datalen n stride mode) (hmode : mode ≠ .none) :
    mpiData m bases nextId (r :: rs) = (mpiData m bases (nextId + 1) rs).map
      (cellsAt m p (lenBytes (BitVec.ofNat 32 (datalen * n % 2 ^ 64))) ++ ·) := by
  obtain ⟨args', hargs⟩ := adjustArgs_words nextId r.args
  obtain ⟨call, hcall, hbytes⟩ := sendNow_bytes bases r.target (ArgWords.msgid A) p (datalen * n % 2 ^ 64)
    r.dstptr hargs hmode
  rw [mpiData, h, mpiEnqueueMessage, hcall, Option.bind_eq_bind, Option.bind_some, ← hbytes m,
    Option.map_eq_bind]
  rfl

/-- The MPI build never delivers more than it should, and less if a request is too long for an `int`. -/
theorem length_mpiData (m : Memory) (bases : ℕ → Addr) (nextId : Word) (hmode : mode ≠ .none)
    (hreqs : ∀ r ∈ reqs, ∃ p n, r.payload = .twoD p datalen n stride mode) :
    ∃ bs, mpiData m bases nextId reqs = some bs ∧ bs.length ≤ (reqs.map (·.payload.length)).sum ∧
      ((∃ r ∈ reqs, 2 ^ 31 ≤ r.payload.length) → bs.length < (reqs.map (·.payload.length)).sum) := by
  induction reqs generalizing nextId with
  | nil => exact ⟨[], rfl, le_rfl, by simp⟩
  | cons r rs ih =>
    obtain ⟨p, n, hr⟩ := hreqs r List.mem_cons_self
    obtain ⟨bs, hbs, hle, hlt⟩ := ih (nextId + 1) fun r' hr' => hreqs r' (List.mem_cons_of_mem r hr')
    have hlen : r.payload.length = datalen * n := by rw [hr]; rfl
    have hfirst : lenBytes (BitVec.ofNat 32 (datalen * n % 2 ^ 64)) ≤ datalen * n :=
      (lenBytes_ofNat_le _).trans (Nat.mod_le _ _)
    refine ⟨_, by rw [mpiData_cons hr hmode, hbs]; rfl, ?_, ?_⟩
    · simp only [List.length_append, length_cellsAt, List.map_cons, List.sum_cons, hlen]
      omega
    · rintro ⟨r', hr', hbig⟩
      simp only [List.length_append, length_cellsAt, List.map_cons, List.sum_cons, hlen]
      rcases List.mem_cons.mp hr' with rfl | hr'
      · have hne : lenBytes (BitVec.ofNat 32 (datalen * n % 2 ^ 64)) ≠ datalen * n := by
          rw [ne_eq, lenBytes_ofNat_eq_iff]
          omega
        omega
      · have := hlt ⟨r', hr', hbig⟩
        omega

/-- A transfer in one request. -/
theorem mpiData_single_iff (hmode : mode ≠ .none) {r : Request A}
    (h : r.payload = .twoD data datalen lines stride mode) :
    (∀ m, mpiData m bases nextId [r] = some (gather m data datalen stride lines)) ↔
      Packed datalen lines stride := by
  have hdata : ∀ m, mpiData m bases nextId [r] =
      some (cellsAt m data (lenBytes (BitVec.ofNat 32 (datalen * lines % 2 ^ 64)))) := by
    intro m
    rw [mpiData_cons h hmode, mpiData, Option.map_some, List.append_nil]
  simp only [hdata, Option.some.injEq]
  exact cellsAt_eq_gather_iff

/-- A transfer that even the MPI build has to split is too long for it. -/
theorem mpiData_split (hmode : mode ≠ .none) (h : Pieces mode data datalen stride lines reqs)
    (hbig : ∃ r ∈ reqs, 2 ^ 31 ≤ r.payload.length) (m : Memory) :
    mpiData m bases nextId reqs ≠ some (gather m data datalen stride lines) := by
  intro heq
  obtain ⟨bs, hbs, -, hlt⟩ := length_mpiData m bases nextId hmode h.payload
  obtain rfl := Option.some.inj (hbs.symm.trans heq)
  have htot : (reqs.map (·.payload.length)).sum = (gather m data datalen stride lines).length :=
    total_of_copied (h.gathered m)
  exact absurd (hlt hbig) (by omega)

end Pieces

/-! ## Both backends -/

section Backends

variable {A : Type} {mode : PayloadMode} {datalen lines fuel : ℕ} {data stride : Addr}

/-- Requests for lines that come from `get_lmb_size = lmbSize`: one, or several of which the first is full. -/
def Requests (lmbSize : ℕ) (mode : PayloadMode) (data : Addr) (datalen : ℕ) (stride : Addr) (lines : ℕ)
    (r : Option (List (Request A) × ℕ)) : Prop :=
  ∃ p, r = some p ∧ Pieces mode data datalen stride lines p.1 ∧
    ((∃ r, p.1 = [r] ∧ r.payload = .twoD data datalen lines stride mode) ∨
      lmbSize / datalen < lines ∧ ∃ r ∈ p.1, r.payload.length = datalen * (lmbSize / datalen))

theorem requests_single {lmbSize n : ℕ} {r : Request A}
    (h : r.payload = .twoD data datalen lines stride mode) :
    Requests lmbSize mode data datalen stride lines (some ([r], n)) :=
  ⟨_, rfl, pieces_single h, .inl ⟨r, rfl, h⟩⟩

theorem requests_loop {t : Target} {next : A → A} {args : A} (hmax : 0 < t.lmbSize / datalen)
    (hlines : t.lmbSize / datalen < lines) (hfuel : lines ≤ fuel) :
    Requests t.lmbSize mode data datalen stride lines
      ((lineLoop t mode next datalen stride (t.lmbSize / datalen) fuel ⟨[], args, 1⟩ data lines).bind fun x =>
        some (x.1.request t (.twoD x.2.1 datalen x.2.2 stride mode)).result) := by
  obtain ⟨c, pos, rest, hrun, hpieces, hfull⟩ := lineLoop_pieces t next args hmax hlines hfuel
  rw [hrun, Option.bind_some]
  exact ⟨_, rfl, hpieces, .inr ⟨hlines, hfull⟩⟩

theorem two_pow_31_le_full (hlen : 0 < datalen) (hle : datalen ≤ mpiLmbSize) :
    2 ^ 31 ≤ datalen * (mpiLmbSize / datalen) := by
  have hq : 1 ≤ mpiLmbSize / datalen := Nat.div_pos hle hlen
  have hdiv := Nat.div_add_mod mpiLmbSize datalen
  have hmod := Nat.mod_lt mpiLmbSize hlen
  have hge : datalen * 1 ≤ datalen * (mpiLmbSize / datalen) := Nat.mul_le_mul_left _ hq
  unfold mpiLmbSize at *
  omega

/-- **Agreement.**  Whatever way the GASNet build splits the lines, it delivers them; the MPI build does so
if they are packed. -/
theorem sameData_iff [ArgWords A] (bases : ℕ → Addr) (nextId : Word) (hmode : mode ≠ .none)
    (hlen : 0 < datalen) (hle : datalen ≤ mpiLmbSize) {lmbSize : ℕ} {gasnet mpi : Option (List (Request A) × ℕ)}
    (hg : Requests lmbSize mode data datalen stride lines gasnet)
    (hp : Requests mpiLmbSize mode data datalen stride lines mpi) :
    SameData bases nextId gasnet mpi ↔ Packed datalen lines stride := by
  obtain ⟨g, rfl, hg, -⟩ := hg
  obtain ⟨p, rfl, hp, hcases⟩ := hp
  have hsame : SameData bases nextId (some g) (some p) ↔
      ∀ m, mpiData m bases nextId p.1 = some (gather m data datalen stride lines) := by
    constructor
    · rintro ⟨g', p', hg', hp', h⟩ m
      obtain rfl := Option.some.inj hg'
      obtain rfl := Option.some.inj hp'
      rw [(h m).2, hg.gathered]
    · intro h
      exact ⟨g, p, rfl, rfl, fun m => ⟨by rw [hg.gathered]; rfl, by rw [h, hg.gathered]⟩⟩
  rw [hsame]
  rcases hcases with ⟨r, hr, hpay⟩ | ⟨hlines, r, hr, hfull⟩
  · rw [hr]
    exact mpiData_single_iff hmode hpay
  · have hbig := two_pow_31_le_full hlen hle
    constructor
    · intro h
      exact absurd (h fun _ => 0) (mpiData_split hmode hp ⟨r, hr, hfull ▸ hbig⟩ _)
    · rintro ⟨hsmall, -⟩
      have := Nat.mul_le_mul_left datalen hlines.le
      omega

theorem payloadMode_ne_none (mk : Bool) : payloadMode mk ≠ .none := by
  cases mk <;> decide

theorem doRemoteWriteTwoD_requests (t : Target) (off : Addr) (seq : Word) (mk : Bool) (hlen : 0 < datalen)
    (hle : datalen ≤ t.lmbSize) (hfuel : lines ≤ fuel) :
    Requests t.lmbSize (payloadMode mk) data datalen stride lines
      (doRemoteWriteTwoD t fuel off data datalen stride lines seq mk) := by
  have hmax : 0 < t.lmbSize / datalen := Nat.div_pos hle hlen
  have hok : ¬(t.dstptr off = 0 ∧ (datalen = 0 ∨ t.lmbSize / datalen = 0)) := by omega
  simp only [doRemoteWriteTwoD, if_neg hok]
  by_cases hd : t.dstptr off = 0 ∧ lines > t.lmbSize / datalen
  · rw [if_pos hd]
    exact requests_loop hmax hd.2 hfuel
  · rw [if_neg hd]
    exact requests_single rfl

theorem doRemoteReduce_requests (t : Target) (off : Addr) (redopId : Word) (redFold : Bool) {dstStride : Addr}
    (hfit : (dstStride.setWidth 32).signExtend 64 = dstStride) (seq : Word) (mk : Bool) (hlen : 0 < datalen)
    (hle : datalen ≤ t.lmbSize) (hfuel : lines ≤ fuel) :
    Requests t.lmbSize (payloadMode mk) data datalen stride lines
      (doRemoteReduce t fuel off redopId redFold datalen data lines stride dstStride seq mk) := by
  have hmax : 0 < t.lmbSize / datalen := Nat.div_pos hle hlen
  have hok : ¬(datalen = 0 ∨ t.lmbSize / datalen = 0) := by omega
  simp only [doRemoteReduce, if_neg hok, hfit, ne_eq, not_true, if_false]
  by_cases hd : lines > t.lmbSize / datalen
  · rw [if_pos hd]
    exact requests_loop hmax hd hfuel
  · rw [if_neg hd]
    exact requests_single rfl

end Backends

/-- **The MPI build agrees with the GASNet build on packed layouts, and on no others**: in what it hands to
`AM_medium_n` and `AM_long_n`, and in what `do_remote_write` and `do_remote_reduce` deliver. -/
theorem strided_agree_iff (bases : ℕ → Addr) (nextId : Word) :
    (∀ target msgid args dstptr payload lineSize lineCount lineStride mode, (adjustArgs nextId args).isSome →
      mode ≠ .none →
      (HandsGathered bases nextId target msgid args dstptr (.twoD payload lineSize lineCount lineStride mode) ↔
        Packed lineSize lineCount lineStride)) ∧
    (∀ (t : Target) fuel off data datalen stride lines seq mk, 1 ≤ datalen → datalen ≤ t.lmbSize →
      t.lmbSize < 2 ^ 64 → lines ≤ fuel →
      (SameData bases nextId (doRemoteWriteTwoD t fuel off data datalen stride lines seq mk)
          (doRemoteWriteTwoD { t with lmbSize := mpiLmbSize } fuel off data datalen stride lines seq mk) ↔
        Packed datalen lines stride)) ∧
    (∀ (t : Target) fuel off redopId redFold rhsSize data count srcStride (dstStride : Addr) seq mk,
      1 ≤ rhsSize → rhsSize ≤ t.lmbSize → t.lmbSize < 2 ^ 64 → count ≤ fuel →
      (dstStride.setWidth 32).signExtend 64 = dstStride →
      (SameData bases nextId
          (doRemoteReduce t fuel off redopId redFold rhsSize data count srcStride dstStride seq mk)
          (doRemoteReduce { t with lmbSize := mpiLmbSize } fuel off redopId redFold rhsSize data count srcStride
            dstStride seq mk) ↔
        Packed rhsSize count srcStride)) := by
  refine ⟨?_, ?_, ?_⟩
  · intro target msgid args dstptr payload lineSize lineCount lineStride mode hargs hmode
    exact handsGathered_twoD_iff bases target msgid dstptr payload lineSize lineCount lineStride hargs hmode
  · intro t fuel off data datalen stride lines seq mk hlen hle hlt hfuel
    have hle' : datalen ≤ mpiLmbSize := by
      unfold mpiLmbSize
      omega
    exact sameData_iff bases nextId (payloadMode_ne_none mk) hlen hle'
      (doRemoteWriteTwoD_requests t off seq mk hlen hle hfuel)
      (doRemoteWriteTwoD_requests { t with lmbSize := mpiLmbSize } off seq mk hlen hle' hfuel)
  · intro t fuel off redopId redFold rhsSize data count srcStride dstStride seq mk hlen hle hlt hfuel hfit
    have hle' : rhsSize ≤ mpiLmbSize := by
      unfold mpiLmbSize
      omega
    exact sameData_iff bases nextId (payloadMode_ne_none mk) hlen hle'
      (doRemoteReduce_requests t off redopId redFold hfit seq mk hlen hle hfuel)
      (doRemoteReduce_requests { t with lmbSize := mpiLmbSize } off redopId redFold hfit seq mk hlen hle' hfuel)

/-- Three dense lines of four bytes. -/
theorem strided_agree_dense :
    HandsGathered (fun _ => 0) 7 1 162 [messageIdMagic, messageChunksMagic, 0, 0] 0
        (.twoD 4096 4 3 4 .copy) ∧
      SameData (fun _ => 0) 7 (doRemoteWriteTwoD ⟨5, 1, 0, none, 8⟩ 3 64 4096 4 4 3 9 true)
        (doRemoteWriteTwoD ⟨5, 1, 0, none, mpiLmbSize⟩ 3 64 4096 4 4 3 9 true) ∧
      SameData (fun _ => 0) 7 (doRemoteReduce ⟨5, 1, 0, none, 8⟩ 3 64 2 true 4 4096 3 4 (-8) 9 false)
        (doRemoteReduce ⟨5, 1, 0, none, mpiLmbSize⟩ 3 64 2 true 4 4096 3 4 (-8) 9 false) := by
  obtain ⟨hands, write, reduce⟩ := strided_agree_iff (fun _ => 0) 7
  refine ⟨?_, ?_, ?_⟩
  · exact (hands _ _ _ _ _ _ _ _ _ (by decide) (by decide)).mpr (by decide)
  · exact (write ⟨5, 1, 0, none, 8⟩ 3 64 4096 4 4 3 9 true (by decide) (by decide) (by decide)
      (by decide)).mpr (by decide)
  · exact (reduce ⟨5, 1, 0, none, 8⟩ 3 64 2 true 4 4096 3 4 (-8) 9 false (by decide) (by decide) (by decide)
      (by decide) (by decide)).mpr (by decide)

/-- Two lines of four bytes in rows of sixteen: the MPI build sends the padding of the first row. -/
theorem padded_not_gathered :
    ¬HandsGathered (fun _ => 0) 7 1 162 [messageIdMagic, messageChunksMagic, 0, 0] 0
      (.twoD 4096 4 2 16 .copy) := by
  rw [handsGathered_twoD_iff _ _ _ _ _ _ _ _ (by decide) (by decide)]
  decide

end Realm.Strided

import Realm.Lib.Int32
import Realm.Endpoint.Payload

/-!
# Realm.Mem.RemoteWrite — splitting a remote write (`do_remote_write` in `templates/mem_impl.cc`)

A write to the memory of another node is sent as `RemoteWriteMessage` requests.  Without a destination
pointer they go through the long message buffer, so none may be larger than `get_lmb_size`.

* `doRemoteWrite`: the three overloads (contiguous, two-dimensional, spans); the loops take fuel.
* `Sending`: the invariant of all the loops, kept by `Sending.push`.
* `chopLoop_spec`, `lineLoop_spec`, `spanLoop_spec`: one lemma per loop.
* `writesAll_iff`: the write arrives whole, and the returned count is the number of requests as long as
  this number is an `unsigned`.
-/

namespace Realm.RemoteWrite

open Lib

/-! ## Requests -/

/-- `RemoteWriteMessage::RequestArgs` -/
structure RequestArgs where
  mem : ℕ
  offset : Addr
  sender : ℕ
  sequenceId : BitVec 32
deriving DecidableEq

/-- `args.offset += n` -/
def RequestArgs.addOffset (n : Addr) (args : RequestArgs) : RequestArgs :=
  { args with offset := args.offset + n }

/-- A request with arguments of type `A`. -/
structure Request (A : Type) where
  target : ℕ
  args : A
  payload : PayloadSource
  dstptr : Addr
deriving DecidableEq

/-- What the code looks up about the memory it writes to: `regbase` is there for `MKIND_RDMA` only,
`lmbSize` is `get_lmb_size` of the owner. -/
structure Target where
  mem : ℕ
  ownerNode : ℕ
  myNodeId : ℕ
  regbase : Option Addr
  lmbSize : ℕ

def Target.dstptr (t : Target) (offset : Addr) : Addr :=
  match t.regbase with
  | some regbase => regbase + offset
  | none => 0

def payloadMode (makeCopy : Bool) : PayloadMode := if makeCopy then .copy else .keep

/-- The requests sent so far, and the variables `args` and `count`. -/
structure Cursor (A : Type) where
  sent : List (Request A)
  args : A
  count : ℤ

namespace Cursor

variable {A : Type}

/-- `Message::request` without a `dstptr` -/
def request (c : Cursor A) (t : Target) (payload : PayloadSource) : Cursor A :=
  { c with sent := c.sent ++ [⟨t.ownerNode, c.args, payload, 0⟩] }

/-- The update of `args` for the next request, and `count++`. -/
def advance (c : Cursor A) (next : A → A) : Cursor A :=
  { c with args := next c.args, count := int32 (c.count + 1) }

/-- `return count`, which is an `int`, from a function that returns an `unsigned`. -/
def result (c : Cursor A) : List (Request A) × ℕ := (c.sent, (c.count % 2 ^ 32).toNat)

end Cursor

/-! ## The three overloads -/

section Code

variable (t : Target) (mode : PayloadMode)

/-- `while(datalen > max_xfer_size)`, and the same loop over `left` for a span that is too big. -/
def chopLoop : ℕ → Cursor RequestArgs → Addr → ℕ → Option (Cursor RequestArgs × Addr × ℕ)
  | 0, _, _, _ => none
  | fuel + 1, c, pos, left =>
    if left > t.lmbSize then
      chopLoop fuel ((c.request t (.contiguous pos t.lmbSize mode)).advance (.addOffset (BitVec.ofNat 64 t.lmbSize)))
        (pos + BitVec.ofNat 64 t.lmbSize) (left - t.lmbSize)
    else some (c, pos, left)

/-- `while(lines > max_lines_per_xfer)`, and the loop over elements of `do_remote_reduce`. -/
def lineLoop {A : Type} (next : A → A) (datalen : ℕ) (stride : Addr) (maxLines : ℕ) :
    ℕ → Cursor A → Addr → ℕ → Option (Cursor A × Addr × ℕ)
  | 0, _, _, _ => none
  | fuel + 1, c, pos, lines =>
    if lines > maxLines then
      lineLoop next datalen stride maxLines fuel
        ((c.request t (.twoD pos datalen maxLines stride mode)).advance next)
        (pos + stride * BitVec.ofNat 64 maxLines) (lines - maxLines)
    else some (c, pos, lines)

/-- The loop that fills `subspans`: the spans taken, `xfer_size`, and where the iterator stops. -/
def takeSpans : SpanList → ℕ → SpanList × ℕ × SpanList
  | [], xferSize => ([], xferSize, [])
  | s :: it, xferSize =>
    if (xferSize + s.2) % 2 ^ 64 > t.lmbSize then ([], xferSize, s :: it)
    else
      let (subspans, xferSize, rest) := takeSpans it ((xferSize + s.2) % 2 ^ 64)
      (s :: subspans, xferSize, rest)

/-- `while(datalen > 0)` -/
def spanLoop : ℕ → Cursor RequestArgs → SpanList → ℕ → Option (Cursor RequestArgs)
  | 0, _, _, _ => none
  | fuel + 1, c, it, datalen =>
    if datalen > 0 then
      match it with
      | [] => none
      | (pos, n) :: rest =>
        if n > t.lmbSize then do
          let (c, pos, left) ← chopLoop t mode fuel c pos n
          spanLoop fuel ((c.request t (.contiguous pos left mode)).advance (.addOffset (BitVec.ofNat 64 left)))
            rest (datalen - n)
        else
          let (subspans, xferSize, rest) := takeSpans t ((pos, n) :: rest) 0
          if subspans = [] then none
          else spanLoop fuel
            ((c.request t (.span subspans xferSize mode)).advance (.addOffset (BitVec.ofNat 64 xferSize)))
            rest (datalen - xferSize)
    else some c

end Code

/-- The request of a write that is not split. -/
def single (t : Target) (args : RequestArgs) (payload : PayloadSource) :
    List (Request RequestArgs) × ℕ :=
  ([⟨t.ownerNode, args, payload, t.dstptr args.offset⟩], 1)

def doRemoteWriteContiguous (t : Target) (fuel : ℕ) (offset data : Addr) (datalen : ℕ)
    (sequenceId : BitVec 32) (makeCopy : Bool) : Option (List (Request RequestArgs) × ℕ) :=
  let args : RequestArgs := ⟨t.mem, offset, t.myNodeId, sequenceId⟩
  let mode := payloadMode makeCopy
  if datalen = 0 then none
  else if t.dstptr offset = 0 ∧ datalen > t.lmbSize then do
    let (c, pos, left) ← chopLoop t mode fuel ⟨[], args, 1⟩ data datalen
    return (c.request t (.contiguous pos left mode)).result
  else return single t args (.contiguous data datalen mode)

/-- The division by `datalen` and the assertion that a line fits come before the comparison. -/
def doRemoteWriteTwoD (t : Target) (fuel : ℕ) (offset data : Addr) (datalen : ℕ) (stride : Addr)
    (lines : ℕ) (sequenceId : BitVec 32) (makeCopy : Bool) : Option (List (Request RequestArgs) × ℕ) :=
  let args : RequestArgs := ⟨t.mem, offset, t.myNodeId, sequenceId⟩
  let mode := payloadMode makeCopy
  let maxLines := t.lmbSize / datalen
  if t.dstptr offset = 0 ∧ (datalen = 0 ∨ maxLines = 0) then none
  else if t.dstptr offset = 0 ∧ lines > maxLines then do
    let (c, pos, lines) ← lineLoop t mode (.addOffset (BitVec.ofNat 64 (datalen * maxLines))) datalen stride maxLines
      fuel ⟨[], args, 1⟩ data lines
    return (c.request t (.twoD pos datalen lines stride mode)).result
  else return single t args (.twoD data datalen lines stride mode)

def doRemoteWriteSpans (t : Target) (fuel : ℕ) (offset : Addr) (spans : SpanList) (datalen : ℕ)
    (sequenceId : BitVec 32) (makeCopy : Bool) : Option (List (Request RequestArgs) × ℕ) :=
  let args : RequestArgs := ⟨t.mem, offset, t.myNodeId, sequenceId⟩
  let mode := payloadMode makeCopy
  if t.dstptr offset = 0 ∧ datalen > t.lmbSize then do
    let c ← spanLoop t mode fuel ⟨[], args, 0⟩ spans datalen
    return c.result
  else return single t args (.span spans datalen mode)

/-- The source of a write, one constructor for each overload. -/
inductive Source
  | contiguous (data : Addr) (datalen : ℕ)
  | twoD (data : Addr) (datalen : ℕ) (stride : Addr) (lines : ℕ)
  | spans (list : SpanList) (datalen : ℕ)

def doRemoteWrite (t : Target) (fuel : ℕ) (offset : Addr) (src : Source) (sequenceId : BitVec 32)
    (makeCopy : Bool) : Option (List (Request RequestArgs) × ℕ) :=
  match src with
  | .contiguous data datalen => doRemoteWriteContiguous t fuel offset data datalen sequenceId makeCopy
  | .twoD data datalen stride lines =>
    doRemoteWriteTwoD t fuel offset data datalen stride lines sequenceId makeCopy
  | .spans list datalen => doRemoteWriteSpans t fuel offset list datalen sequenceId makeCopy

/-! ## What a write has to do -/

/-- The arguments the callers pass. -/
def Source.Valid (max : ℕ) : Source → Prop
  | contiguous _ datalen => 1 ≤ datalen
  | twoD _ datalen _ lines => 1 ≤ datalen ∧ datalen ≤ max ∧ 1 ≤ lines
  | spans list datalen => 1 ≤ datalen ∧ datalen < 2 ^ 64 ∧ list.total = datalen

/-- The flattened source. -/
def Source.flatten (m : Memory) : Source → List Byte
  | contiguous data datalen => cellsAt m data datalen
  | twoD data datalen stride lines => gather m data datalen stride lines
  | spans list _ => list.bytes m

/-- Enough fuel for the loops. -/
def Source.steps : Source → ℕ
  | contiguous _ datalen => datalen + 1
  | twoD _ _ _ lines => lines + 1
  | spans list datalen => datalen + list.length + 1

/-- The offsets start at `off`, and each is the one before plus the length of the payload before. -/
def Advances : Addr → List (Request RequestArgs) → Prop
  | _, [] => True
  | off, r :: rs => r.args.offset = off ∧ Advances (off + BitVec.ofNat 64 r.payload.length) rs

/-- The payloads of the requests, each read by `copy_data`, one after the other. -/
def copied {A : Type} (m : Memory) (reqs : List (Request A)) : Option (List Byte) :=
  (reqs.mapM fun r : Request A => r.payload.copyData m).map List.flatten

/-- The requests `reqs`, in order, carry `bytes` to the offsets from `off` on. -/
structure Splits (m : Memory) (t : Target) (off : Addr) (seq : BitVec 32) (bytes : List Byte)
    (reqs : List (Request RequestArgs)) : Prop where
  offsets : Advances off reqs
  payloads : copied m reqs = some bytes
  fits : ∀ r ∈ reqs, r.dstptr = 0 → r.payload.length ≤ t.lmbSize
  header : ∀ r ∈ reqs, r.target = t.ownerNode ∧ r.args = ⟨t.mem, r.args.offset, t.myNodeId, seq⟩

/-- The write terminates without a failed assertion, is split without loss, and returns the number of
requests. -/
def WritesAll (t : Target) (fuel : ℕ) (off : Addr) (src : Source) (seq : BitVec 32) (makeCopy : Bool) : Prop :=
  ∃ reqs count, doRemoteWrite t fuel off src seq makeCopy = some (reqs, count) ∧
    (∀ m, Splits m t off seq (src.flatten m) reqs) ∧ count = reqs.length

/-! ## The invariant of the loops -/

section Invariant

variable {m : Memory} {t : Target} {off : Addr} {seq : BitVec 32} {bytes bs : List Byte}
  {reqs : List (Request RequestArgs)}

theorem advances_append {rs : List (Request RequestArgs)} :
    Advances off (reqs ++ rs) ↔
      Advances off reqs ∧ Advances (off + BitVec.ofNat 64 (reqs.map (·.payload.length)).sum) rs := by
  induction reqs generalizing off with
  | nil => simp [Advances]
  | cons r reqs ih =>
    simp only [List.cons_append, Advances, ih, List.map_cons, List.sum_cons, BitVec.ofNat_add,
      BitVec.add_assoc, and_assoc]

theorem copied_append {A : Type} {reqs rs : List (Request A)} (h : copied m reqs = some bytes)
    (h' : copied m rs = some bs) : copied m (reqs ++ rs) = some (bytes ++ bs) := by
  obtain ⟨bss, hbss, rfl⟩ := Option.map_eq_some_iff.mp h
  obtain ⟨bss', hbss', rfl⟩ := Option.map_eq_some_iff.mp h'
  simp [copied, List.mapM_append, hbss, hbss']

theorem copied_singleton {A : Type} {r : Request A} (h : r.payload.copyData m = some bs) :
    copied m [r] = some bs := by
  simp [copied, h]

theorem total_of_copied {A : Type} {reqs : List (Request A)} (h : copied m reqs = some bytes) :
    (reqs.map (·.payload.length)).sum = bytes.length := by
  induction reqs generalizing bytes with
  | nil =>
    obtain rfl : [] = bytes := by simpa [copied] using h
    rfl
  | cons r reqs ih =>
    obtain ⟨bss, hbss, rfl⟩ := Option.map_eq_some_iff.mp h
    obtain ⟨b, hb, rest, hrest, rfl⟩ : ∃ b, r.payload.copyData m = some b ∧ ∃ rest,
        (reqs.mapM fun r : Request A => r.payload.copyData m) = some rest ∧ b :: rest = bss := by
      simpa [List.mapM_cons, Option.bind_eq_some_iff] using hbss
    rw [List.map_cons, List.sum_cons, ih (by rw [copied, hrest]; rfl), List.flatten_cons, List.length_append,
      PayloadSource.copyData_length hb]

theorem splits_nil : Splits m t off seq [] [] :=
  ⟨trivial, rfl, by simp, by simp⟩

theorem Splits.snoc (h : Splits m t off seq bytes reqs) {payload : PayloadSource} {dstptr : Addr}
    (hcopy : payload.copyData m = some bs) (hfit : dstptr = 0 → payload.length ≤ t.lmbSize) :
    Splits m t off seq (bytes ++ bs)
      (reqs ++ [⟨t.ownerNode, ⟨t.mem, off + BitVec.ofNat 64 bytes.length, t.myNodeId, seq⟩, payload, dstptr⟩]) where
  offsets := by
    rw [advances_append, total_of_copied h.payloads]
    exact ⟨h.offsets, rfl, trivial⟩
  payloads := copied_append h.payloads (copied_singleton hcopy)
  fits := by
    intro r hr hptr
    rcases List.mem_append.mp hr with hr | hr
    · exact h.fits r hr hptr
    · obtain rfl := List.mem_singleton.mp hr
      exact hfit hptr
  header := by
    intro r hr
    rcases List.mem_append.mp hr with hr | hr
    · exact h.header r hr
    · obtain rfl := List.mem_singleton.mp hr
      exact ⟨rfl, rfl⟩

/-- **Loop invariant.**  `bytes` have been sent, `args` is ready for the next request, and `count` is ahead
of the number of requests by `ahead`. -/
structure Sending (m : Memory) (t : Target) (off : Addr) (seq : BitVec 32) (ahead : ℤ) (bytes : List Byte)
    (c : Cursor RequestArgs) : Prop where
  splits : Splits m t off seq bytes c.sent
  args : c.args = ⟨t.mem, off + BitVec.ofNat 64 bytes.length, t.myNodeId, seq⟩
  count : c.count = int32 (ahead + c.sent.length)

variable {ahead : ℤ} {c : Cursor RequestArgs}

theorem Sending.init {k : ℤ} (hk : int32 k = k) :
    Sending m t off seq k [] ⟨[], ⟨t.mem, off, t.myNodeId, seq⟩, k⟩ where
  splits := splits_nil
  args := by simp
  count := by simp [hk]

theorem Sending.request (h : Sending m t off seq ahead bytes c) {payload : PayloadSource}
    (hcopy : payload.copyData m = some bs) (hfit : payload.length ≤ t.lmbSize) :
    Splits m t off seq (bytes ++ bs) (c.request t payload).sent := by
  rw [Cursor.request, h.args]
  exact h.splits.snoc hcopy fun _ => hfit

/-- A request followed by the updates of `args.offset` and `count`. -/
theorem Sending.push (h : Sending m t off seq ahead bytes c) {payload : PayloadSource} {n : ℕ}
    (hcopy : payload.copyData m = some bs) (hfit : payload.length ≤ t.lmbSize) (hn : n = bs.length) :
    Sending m t off seq ahead (bytes ++ bs) ((c.request t payload).advance (.addOffset (BitVec.ofNat 64 n))) where
  splits := h.request hcopy hfit
  args := by
    simp only [Cursor.advance, Cursor.request, RequestArgs.addOffset, h.args, hn, List.length_append, BitVec.ofNat_add,
      BitVec.add_assoc]
  count := by
    simp only [Cursor.advance, Cursor.request, h.count, List.length_append, List.length_singleton,
      int32_int32_add, Nat.cast_add, Nat.cast_one, add_assoc]

/-- From `c` to `c'`, `n` requests with the bytes `data` were sent. -/
structure Progress (t : Target) (n : ℕ) (data : Memory → List Byte) (c c' : Cursor RequestArgs) : Prop where
  length : c'.sent.length = c.sent.length + n
  sending : ∀ {m off seq ahead bytes}, Sending m t off seq ahead bytes c →
    Sending m t off seq ahead (bytes ++ data m) c'

theorem Progress.refl (t : Target) (c : Cursor RequestArgs) : Progress t 0 (fun _ => []) c c :=
  ⟨rfl, fun h => by rwa [List.append_nil]⟩

theorem Progress.trans {n n' : ℕ} {data data' : Memory → List Byte} {c₁ c₂ : Cursor RequestArgs}
    (h : Progress t n data c c₁) (h' : Progress t n' data' c₁ c₂) :
    Progress t (n + n') (fun m => data m ++ data' m) c c₂ := by
  refine ⟨by rw [h'.length, h.length, Nat.add_assoc], fun hc => ?_⟩
  rw [← List.append_assoc]
  exact h'.sending (h.sending hc)

theorem Progress.push (c : Cursor RequestArgs) (payload : PayloadSource) {data : Memory → List Byte} {n : ℕ}
    (hcopy : ∀ m, payload.copyData m = some (data m)) (hfit : payload.length ≤ t.lmbSize)
    (hn : ∀ m, n = (data m).length) :
    Progress t 1 data c ((c.request t payload).advance (.addOffset (BitVec.ofNat 64 n))) :=
  ⟨by simp [Cursor.advance, Cursor.request], fun h => h.push (hcopy _) hfit (hn _)⟩

end Invariant

/-! ## The loops -/

section Loops

variable {t : Target} (mode : PayloadMode)

/-- After `k` rounds the rest of the block, not empty and not larger than `max_xfer_size`, is left. -/
theorem chopLoop_spec (hmax : 0 < t.lmbSize) (fuel : ℕ) (c : Cursor RequestArgs) (pos : Addr) (left : ℕ)
    (hleft : 0 < left) (hfuel : left ≤ fuel) :
    ∃ k c' rest, chopLoop t mode fuel c pos left = some (c', pos + BitVec.ofNat 64 (k * t.lmbSize), rest) ∧
      left = k * t.lmbSize + rest ∧ 0 < rest ∧ rest ≤ t.lmbSize ∧
      Progress t k (fun m => cellsAt m pos (k * t.lmbSize)) c c' := by
  induction fuel generalizing c pos left with
  | zero => omega
  | succ fuel ih =>
    rw [chopLoop]
    by_cases hgt : left > t.lmbSize
    · rw [if_pos hgt]
      have hfirst := Progress.push c (.contiguous pos t.lmbSize mode) (fun m => rfl) le_rfl
        fun m => (length_cellsAt m pos t.lmbSize).symm
      obtain ⟨k, c', rest, hrun, hsplit, hpos, hle, hsend⟩ :=
        ih ((c.request t (.contiguous pos t.lmbSize mode)).advance (.addOffset (BitVec.ofNat 64 t.lmbSize)))
          (pos + BitVec.ofNat 64 t.lmbSize) (left - t.lmbSize) (by omega) (by omega)
      refine ⟨k + 1, c', rest, ?_, ?_, hpos, hle, ?_⟩
      · rw [hrun, Nat.succ_mul, Nat.add_comm (k * t.lmbSize), BitVec.ofNat_add, BitVec.add_assoc]
      · rw [Nat.succ_mul]
        omega
      · have hall := hfirst.trans hsend
        simp only [← cellsAt_add] at hall
        rwa [Nat.succ_mul, Nat.add_comm k, Nat.add_comm (k * t.lmbSize)]
    · rw [if_neg hgt]
      refine ⟨0, c, left, by simp, by simp, hleft, by omega, ?_⟩
      rw [Nat.zero_mul]
      exact Progress.refl t c

/-- The same for lines.  `I` is any property of the bytes sent so far that a request keeps. -/
theorem lineLoop_spec {A : Type} {next : A → A} {datalen maxLines : ℕ} {stride : Addr} (hmax : 0 < maxLines)
    {I : Memory → List Byte → Cursor A → Prop}
    (hpush : ∀ m bytes c pos, I m bytes c → I m (bytes ++ gather m pos datalen stride maxLines)
      ((c.request t (.twoD pos datalen maxLines stride mode)).advance next))
    (fuel : ℕ) (c : Cursor A) (pos : Addr) (lines : ℕ) (hlines : 0 < lines) (hfuel : lines ≤ fuel) :
    ∃ k c' rest, lineLoop t mode next datalen stride maxLines fuel c pos lines =
        some (c', pos + stride * BitVec.ofNat 64 (k * maxLines), rest) ∧
      lines = k * maxLines + rest ∧ 0 < rest ∧ rest ≤ maxLines ∧ c'.sent.length = c.sent.length + k ∧
      ∀ m bytes, I m bytes c → I m (bytes ++ gather m pos datalen stride (k * maxLines)) c' := by
  induction fuel generalizing c pos lines with
  | zero => omega
  | succ fuel ih =>
    rw [lineLoop]
    by_cases hgt : lines > maxLines
    · rw [if_pos hgt]
      obtain ⟨k, c', rest, hrun, hsplit, hpos, hle, hlen, hsend⟩ :=
        ih ((c.request t (.twoD pos datalen maxLines stride mode)).advance next)
          (pos + stride * BitVec.ofNat 64 maxLines) (lines - maxLines) (by omega) (by omega)
      refine ⟨k + 1, c', rest, ?_, ?_, hpos, hle, ?_, ?_⟩
      · rw [hrun, Nat.succ_mul, Nat.add_comm (k * maxLines), BitVec.ofNat_add, BitVec.mul_add,
          BitVec.add_assoc]
      · rw [Nat.succ_mul]
        omega
      · rw [hlen]
        simp [Cursor.advance, Cursor.request]
        omega
      · intro m bytes h
        have hall := hsend m _ (hpush m bytes c pos h)
        rwa [List.append_assoc, ← gather_add, Nat.add_comm, ← Nat.succ_mul] at hall
    · rw [if_neg hgt]
      refine ⟨0, c, lines, by simp, by simp, hlines, by omega, by simp, ?_⟩
      intro m bytes h
      simpa [gather] using h

theorem ceil_eq {n max k rest : ℕ} (h : n = k * max + rest) (hpos : 0 < rest) (hle : rest ≤ max) :
    (n + max - 1) / max = k + 1 := by
  apply Nat.div_eq_of_lt_le
  · rw [Nat.succ_mul]
    omega
  · rw [Nat.succ_mul, Nat.succ_mul]
    omega

/-- How many requests the spans need when they are packed greedily: a span larger than `max` is cut up, any
other joins the request being filled (`fill` bytes so far) if it fits, and starts a new one otherwise.
Spans of length zero alone do not start a request. -/
def spanPieces (max : ℕ) : Option ℕ → SpanList → ℕ
  | _, [] => 0
  | fill, s :: rest =>
    if max < s.2 then (s.2 + max - 1) / max + spanPieces max none rest
    else
      match fill with
      | some x => if x + s.2 ≤ max then spanPieces max (some (x + s.2)) rest
        else 1 + spanPieces max (some s.2) rest
      | none => if SpanList.total (s :: rest) = 0 then 0 else 1 + spanPieces max (some s.2) rest

theorem spanPieces_none_of_total {max : ℕ} {spans : SpanList} (h : spans.total = 0) :
    spanPieces max none spans = 0 := by
  cases spans with
  | nil => rfl
  | cons s rest =>
    have hs : ¬max < s.2 := by
      rw [SpanList.total_cons] at h
      omega
    rw [spanPieces, if_neg hs]
    exact if_pos h

theorem spanPieces_some_of_fits {max : ℕ} {spans : SpanList} {x : ℕ} (h : x + spans.total ≤ max) :
    spanPieces max (some x) spans = 0 := by
  induction spans generalizing x with
  | nil => rfl
  | cons s rest ih =>
    rw [SpanList.total_cons] at h
    rw [spanPieces, if_neg (by omega), if_pos (by omega)]
    exact ih (by omega)

theorem spanPieces_none_of_fits {max : ℕ} {spans : SpanList} (hpos : 0 < spans.total) (h : spans.total ≤ max) :
    spanPieces max none spans = 1 := by
  cases spans with
  | nil => simp at hpos
  | cons s rest =>
    have htot : SpanList.total (s :: rest) ≠ 0 := hpos.ne'
    rw [SpanList.total_cons] at h
    rw [spanPieces, if_neg (by omega), if_neg htot, spanPieces_some_of_fits h]

/-- The request that begins with `s` is filled from scratch. -/
theorem spanPieces_none_cons {max : ℕ} {s : Addr × ℕ} {rest : SpanList} (hs : s.2 ≤ max)
    (htot : SpanList.total (s :: rest) ≠ 0) :
    spanPieces max none (s :: rest) = 1 + spanPieces max (some 0) (s :: rest) := by
  have hn : ¬max < s.2 := by omega
  simp only [spanPieces, if_neg hn, if_neg htot, Nat.zero_add, if_pos hs]

theorem takeSpans_spec (it : SpanList) {x : ℕ} (hx : x ≤ t.lmbSize) (hlt : x + it.total < 2 ^ 64) :
    ∃ sub rest, takeSpans t it x = (sub, x + sub.total, rest) ∧ it = sub ++ rest ∧
      x + sub.total ≤ t.lmbSize ∧ spanPieces t.lmbSize (some x) it = spanPieces t.lmbSize none rest := by
  induction it generalizing x with
  | nil => exact ⟨[], [], rfl, rfl, hx, rfl⟩
  | cons s it ih =>
    rw [SpanList.total_cons] at hlt
    have hmod : (x + s.2) % 2 ^ 64 = x + s.2 := Nat.mod_eq_of_lt (by omega)
    rw [takeSpans, hmod]
    by_cases hgt : x + s.2 > t.lmbSize
    · refine ⟨[], s :: it, by rw [if_pos hgt]; rfl, rfl, hx, ?_⟩
      -- the span that did not fit has a byte, so it starts a request of its own
      rw [spanPieces, spanPieces]
      by_cases hbig : t.lmbSize < s.2
      · rw [if_pos hbig, if_pos hbig]
      · have htot : SpanList.total (s :: it) ≠ 0 := by
          rw [SpanList.total_cons]
          omega
        simp only [if_neg hbig, if_neg (Nat.not_le_of_gt hgt), if_neg htot]
    · obtain ⟨sub, rest, htake, hsplit, hle, hpieces⟩ := ih (x := x + s.2) (by omega) (by omega)
      refine ⟨s :: sub, rest, ?_, by rw [hsplit]; rfl, ?_, ?_⟩
      · rw [if_neg hgt, htake]
        simp [Nat.add_assoc]
      · rw [SpanList.total_cons]
        omega
      · rw [← hpieces, spanPieces, if_neg (by omega), if_pos (by omega)]

/-- A span that is too big for one request is cut up. -/
theorem spanLoop_big (hmax : 0 < t.lmbSize) {fuel n datalen : ℕ} (c : Cursor RequestArgs) (pos : Addr)
    (rest : SpanList) (hbig : n > t.lmbSize) (hdata : datalen > 0) (hfuel : n ≤ fuel) :
    ∃ c', spanLoop t mode (fuel + 1) c ((pos, n) :: rest) datalen = spanLoop t mode fuel c' rest (datalen - n) ∧
      Progress t ((n + t.lmbSize - 1) / t.lmbSize) (fun m => cellsAt m pos n) c c' := by
  obtain ⟨k, c₁, left, hrun, hsplit, hpos, hle, hsend⟩ := chopLoop_spec mode hmax fuel c pos n (by omega) hfuel
  have hlast := Progress.push c₁ (.contiguous (pos + BitVec.ofNat 64 (k * t.lmbSize)) left mode)
    (fun m => rfl) hle fun m => (length_cellsAt m _ left).symm
  have hall := hsend.trans hlast
  simp only [← cellsAt_add, ← hsplit] at hall
  rw [ceil_eq hsplit hpos hle]
  refine ⟨_, ?_, hall⟩
  rw [spanLoop, if_pos hdata]
  simp only [if_pos hbig, hrun, Option.bind_eq_bind, Option.bind_some]

/-- Spans that fit are sent together. -/
theorem spanLoop_small (fuel : ℕ) {n datalen : ℕ} (c : Cursor RequestArgs) (pos : Addr) (rest : SpanList)
    (hn : n ≤ t.lmbSize) (hdata : datalen > 0) (hlt : n + SpanList.total rest < 2 ^ 64)
    (htot : n + SpanList.total rest ≠ 0) :
    ∃ (sub rest' : SpanList) (c' : Cursor RequestArgs), (pos, n) :: rest = sub ++ rest' ∧ sub ≠ [] ∧
      spanLoop t mode (fuel + 1) c ((pos, n) :: rest) datalen =
        spanLoop t mode fuel c' rest' (datalen - sub.total) ∧
      spanPieces t.lmbSize none ((pos, n) :: rest) = 1 + spanPieces t.lmbSize none rest' ∧
      Progress t 1 (fun m => sub.bytes m) c c' := by
  obtain ⟨sub, rest', htake, hsplit, hle, hpieces⟩ :=
    takeSpans_spec ((pos, n) :: rest) (Nat.zero_le t.lmbSize) (by rw [SpanList.total_cons]; omega)
  rw [Nat.zero_add] at htake hle
  -- the first span fits, so there is progress
  have hsub : sub ≠ [] := by
    rintro rfl
    rw [takeSpans, if_neg (by simp only [Nat.zero_add, Nat.mod_eq_of_lt (show n < 2 ^ 64 by omega)]; omega)]
      at htake
    simp at htake
  have hcopy : ∀ m, (PayloadSource.span sub sub.total mode).copyData m = some (sub.bytes m) := fun m => by
    rw [PayloadSource.copyData, PayloadSource.copySpans_eq, if_pos rfl]
  refine ⟨sub, rest', _, hsplit, hsub, ?_, ?_,
    Progress.push c _ hcopy hle fun m => (SpanList.length_bytes m sub).symm⟩
  · rw [spanLoop, if_pos hdata]
    simp only [if_neg (show ¬n > t.lmbSize by omega), htake, if_neg hsub]
  · rw [spanPieces_none_cons hn (by rwa [SpanList.total_cons]), hpieces]

theorem spanLoop_spec (hmax : 0 < t.lmbSize) (fuel : ℕ) (c : Cursor RequestArgs) (it : SpanList)
    (hlt : it.total < 2 ^ 64) (hfuel : it.total + it.length < fuel) :
    ∃ c', spanLoop t mode fuel c it it.total = some c' ∧
      Progress t (spanPieces t.lmbSize none it) (fun m => it.bytes m) c c' := by
  induction fuel generalizing c it with
  | zero => omega
  | succ fuel ih =>
    by_cases htot : it.total = 0
    · refine ⟨c, by unfold spanLoop; rw [if_neg (by omega)], ?_⟩
      have hnil : ∀ m, it.bytes m = [] := fun m => by
        rw [← List.length_eq_zero_iff, SpanList.length_bytes, htot]
      simp only [spanPieces_none_of_total htot, hnil]
      exact Progress.refl t c
    · cases it with
      | nil => exact absurd rfl htot
      | cons s rest =>
        obtain ⟨pos, n⟩ := s
        simp only [SpanList.total_cons, List.length_cons] at hlt hfuel htot ⊢
        by_cases hbig : n > t.lmbSize
        · obtain ⟨c₁, hrun, hfirst⟩ := spanLoop_big mode hmax c pos rest hbig (Nat.pos_of_ne_zero htot)
            (show n ≤ fuel by omega)
          obtain ⟨c', hloop, hrest⟩ := ih c₁ rest (by omega) (by omega)
          refine ⟨c', ?_, ?_⟩
          · rw [hrun, Nat.add_sub_cancel_left, hloop]
          · rw [spanPieces, if_pos hbig]
            exact hfirst.trans hrest
        · obtain ⟨sub, rest', c₁, hsplit, hsub, hrun, hpieces, hfirst⟩ :=
            spanLoop_small mode fuel c pos rest (not_lt.mp hbig) (Nat.pos_of_ne_zero htot) hlt htot
          have hlen := congrArg List.length hsplit
          have htotal := congrArg SpanList.total hsplit
          have hsublen : 0 < sub.length := List.length_pos_iff.mpr hsub
          simp only [List.length_cons, List.length_append, SpanList.total_cons, SpanList.total_append]
            at hlen htotal
          obtain ⟨c', hloop, hrest⟩ := ih c₁ rest' (by omega) (by omega)
          refine ⟨c', ?_, ?_⟩
          · rwa [hrun, show n + SpanList.total rest - sub.total = rest'.total by omega]
          · have hall := hfirst.trans hrest
            simp only [← SpanList.bytes_append, ← hsplit] at hall
            rwa [hpieces]

end Loops

/-! ## Whole writes -/

/-- The number of requests of a write that goes through the long message buffer. -/
def Source.pieces (max : ℕ) : Source → ℕ
  | contiguous _ datalen => (datalen + max - 1) / max
  | twoD _ datalen _ lines => (lines + max / datalen - 1) / (max / datalen)
  | spans list _ => spanPieces max none list

/-- Whether the code finds a destination pointer. -/
def Target.Direct (t : Target) (off : Addr) : Prop := t.dstptr off ≠ 0

instance (t : Target) (off : Addr) : Decidable (t.Direct off) := inferInstanceAs (Decidable (_ ≠ _))

section Whole

variable {t : Target} {off : Addr} {seq : BitVec 32}

theorem result_eq {c : Cursor RequestArgs} {n : ℕ} (hcount : c.count = int32 n) (hlen : c.sent.length = n) :
    c.result = (c.sent, c.sent.length % 2 ^ 32) := by
  rw [Cursor.result, hcount, toNat_int32_emod, hlen]

theorem single_splits {m : Memory} {payload : PayloadSource} {bs : List Byte}
    (hcopy : payload.copyData m = some bs) (hfit : ¬t.Direct off → payload.length ≤ t.lmbSize) :
    Splits m t off seq bs (single t ⟨t.mem, off, t.myNodeId, seq⟩ payload).1 := by
  have h : Splits m t off seq ([] ++ bs)
      ([] ++ [⟨t.ownerNode, ⟨t.mem, off + BitVec.ofNat 64 0, t.myNodeId, seq⟩, payload, t.dstptr off⟩]) :=
    splits_nil.snoc hcopy fun hptr => hfit (not_not_intro hptr)
  simpa [single] using h

/-- `n` requests carry what `flatten` says. -/
def Sends (t : Target) (off : Addr) (seq : BitVec 32) (flatten : Memory → List Byte) (n : ℕ)
    (r : Option (List (Request RequestArgs) × ℕ)) : Prop :=
  ∃ reqs, r = some (reqs, n % 2 ^ 32) ∧ reqs.length = n ∧ ∀ m, Splits m t off seq (flatten m) reqs

theorem sends_single {payload : PayloadSource} {flatten : Memory → List Byte}
    (hcopy : ∀ m, payload.copyData m = some (flatten m)) (hfit : ¬t.Direct off → payload.length ≤ t.lmbSize) :
    Sends t off seq flatten 1 (some (single t ⟨t.mem, off, t.myNodeId, seq⟩ payload)) :=
  ⟨_, rfl, rfl, fun m => single_splits (hcopy m) hfit⟩

/-- The last request, after the loops that start with `count = 1`. -/
theorem sends_last {c : Cursor RequestArgs} {payload : PayloadSource} {flatten : Memory → List Byte} {n : ℕ}
    (hlen : c.sent.length = n) (hfit : payload.length ≤ t.lmbSize)
    (hsend : ∀ m, ∃ bytes bs, Sending m t off seq 1 bytes c ∧ payload.copyData m = some bs ∧
      bytes ++ bs = flatten m) :
    Sends t off seq flatten (n + 1) (some (c.request t payload).result) := by
  have hlen' : (c.request t payload).sent.length = n + 1 := by simp [Cursor.request, hlen]
  refine ⟨(c.request t payload).sent, ?_, hlen', ?_⟩
  · obtain ⟨bytes, bs, h, -, -⟩ := hsend fun _ => 0
    have hcount : (c.request t payload).count = int32 ((n + 1 : ℕ) : ℤ) := by
      rw [Cursor.request, h.count, hlen]
      push_cast
      rw [add_comm]
    rw [result_eq hcount hlen', hlen']
  · intro m
    obtain ⟨bytes, bs, h, hcopy, heq⟩ := hsend m
    exact heq ▸ h.request hcopy hfit

variable (mk : Bool)

theorem doRemoteWriteContiguous_sends (hmax : 1 ≤ t.lmbSize) {data : Addr} {datalen fuel : ℕ}
    (hlen : 1 ≤ datalen) (hfuel : datalen ≤ fuel) :
    Sends t off seq (fun m => cellsAt m data datalen)
      (if t.Direct off then 1 else (datalen + t.lmbSize - 1) / t.lmbSize)
      (doRemoteWriteContiguous t fuel off data datalen seq mk) := by
  simp only [doRemoteWriteContiguous, if_neg (show datalen ≠ 0 by omega)]
  by_cases hd : t.dstptr off = 0 ∧ datalen > t.lmbSize
  · have hnd : ¬t.Direct off := not_not_intro hd.1
    obtain ⟨k, c, rest, hrun, hsplit, hpos, hle, hsend⟩ := chopLoop_spec (payloadMode mk) hmax fuel
      ⟨[], ⟨t.mem, off, t.myNodeId, seq⟩, 1⟩ data datalen hlen hfuel
    simp only [if_pos hd, if_neg hnd, hrun, Option.bind_eq_bind, Option.bind_some]
    rw [ceil_eq hsplit hpos hle]
    refine sends_last (by simpa using hsend.length) hle fun m => ?_
    have h := hsend.sending (m := m) (.init (int32_eq_self (x := 1) (by omega) (by omega)))
    exact ⟨_, _, h, rfl, by rw [hsplit, cellsAt_add, List.nil_append]⟩
  · rw [if_neg hd]
    have hfit : ¬t.Direct off → datalen ≤ t.lmbSize := by
      intro h
      by_contra hgt
      exact hd ⟨not_not.mp h, by omega⟩
    have hone : (if t.Direct off then 1 else (datalen + t.lmbSize - 1) / t.lmbSize) = 1 := by
      split
      · rfl
      · rename_i h
        exact ceil_eq (k := 0) (by omega) hlen (hfit h)
    rw [hone]
    exact sends_single (fun m => rfl) hfit

theorem doRemoteWriteTwoD_sends {data stride : Addr} {datalen lines fuel : ℕ} (hlen : 1 ≤ datalen)
    (hle : datalen ≤ t.lmbSize) (hlines : 1 ≤ lines) (hfuel : lines ≤ fuel) :
    Sends t off seq (fun m => gather m data datalen stride lines)
      (if t.Direct off then 1 else (lines + t.lmbSize / datalen - 1) / (t.lmbSize / datalen))
      (doRemoteWriteTwoD t fuel off data datalen stride lines seq mk) := by
  have hmax : 0 < t.lmbSize / datalen := Nat.div_pos hle hlen
  have hcopy : ∀ m p n, (PayloadSource.twoD p datalen n stride (payloadMode mk)).copyData m =
      some (gather m p datalen stride n) :=
    fun m p n => congrArg some (PayloadSource.copyLines_eq_gather m datalen stride n p)
  have hfits : ∀ n ≤ t.lmbSize / datalen, datalen * n ≤ t.lmbSize :=
    fun n hn => (Nat.mul_le_mul_left datalen hn).trans (Nat.mul_div_le t.lmbSize datalen)
  have hok : ¬(t.dstptr off = 0 ∧ (datalen = 0 ∨ t.lmbSize / datalen = 0)) := by omega
  simp only [doRemoteWriteTwoD, if_neg hok]
  by_cases hd : t.dstptr off = 0 ∧ lines > t.lmbSize / datalen
  · have hnd : ¬t.Direct off := not_not_intro hd.1
    have hpush : ∀ m bytes c pos, Sending m t off seq 1 bytes c →
        Sending m t off seq 1 (bytes ++ gather m pos datalen stride (t.lmbSize / datalen))
          ((c.request t (.twoD pos datalen (t.lmbSize / datalen) stride (payloadMode mk))).advance
            (.addOffset (BitVec.ofNat 64 (datalen * (t.lmbSize / datalen))))) :=
      fun m bytes c pos h => h.push (hcopy m pos _) (hfits _ le_rfl) (length_gather m pos datalen stride _).symm
    obtain ⟨k, c, rest, hrun, hsplit, hpos, hle, hsent, hsend⟩ := lineLoop_spec (payloadMode mk) hmax hpush fuel
      ⟨[], ⟨t.mem, off, t.myNodeId, seq⟩, 1⟩ data lines hlines hfuel
    simp only [if_pos hd, if_neg hnd, hrun, Option.bind_eq_bind, Option.bind_some]
    rw [ceil_eq hsplit hpos hle]
    refine sends_last (by simpa using hsent) (hfits rest hle) fun m => ?_
    have h := hsend m [] (.init (int32_eq_self (by omega) (by omega)))
    exact ⟨_, _, h, hcopy m _ rest, by rw [hsplit, gather_add, List.nil_append]⟩
  · rw [if_neg hd]
    have hfew : ¬t.Direct off → lines ≤ t.lmbSize / datalen := by
      intro h
      by_contra hgt
      exact hd ⟨not_not.mp h, by omega⟩
    have hone : (if t.Direct off then 1 else (lines + t.lmbSize / datalen - 1) / (t.lmbSize / datalen)) = 1 := by
      split
      · rfl
      · rename_i h
        exact ceil_eq (k := 0) (by omega) hlines (hfew h)
    rw [hone]
    exact sends_single (fun m => hcopy m data lines) fun h => hfits lines (hfew h)

theorem doRemoteWriteSpans_sends (hmax : 1 ≤ t.lmbSize) {spans : SpanList} {datalen fuel : ℕ}
    (hlen : 1 ≤ datalen) (hlt : datalen < 2 ^ 64) (htot : spans.total = datalen)
    (hfuel : datalen + spans.length < fuel) :
    Sends t off seq (fun m => spans.bytes m)
      (if t.Direct off then 1 else spanPieces t.lmbSize none spans)
      (doRemoteWriteSpans t fuel off spans datalen seq mk) := by
  subst htot
  simp only [doRemoteWriteSpans]
  by_cases hd : t.dstptr off = 0 ∧ spans.total > t.lmbSize
  · have hnd : ¬t.Direct off := not_not_intro hd.1
    obtain ⟨c, hrun, hsend⟩ := spanLoop_spec (payloadMode mk) hmax fuel
      ⟨[], ⟨t.mem, off, t.myNodeId, seq⟩, 0⟩ spans hlt hfuel
    simp only [if_pos hd, if_neg hnd, hrun, Option.bind_eq_bind, Option.bind_some]
    have hinit : ∀ m, Sending m t off seq 0 ([] ++ spans.bytes m) c :=
      fun m => hsend.sending (.init (int32_eq_self (by omega) (by omega)))
    have hcount : c.count = int32 c.sent.length := by simpa using (hinit fun _ => 0).count
    have hsent : c.sent.length = spanPieces t.lmbSize none spans := by simpa using hsend.length
    refine ⟨c.sent, ?_, hsent, fun m => (hinit m).splits⟩
    rw [← hsent]
    exact congrArg some (result_eq hcount rfl)
  · rw [if_neg hd]
    have hfit : ¬t.Direct off → spans.total ≤ t.lmbSize := by
      intro h
      by_contra hgt
      exact hd ⟨not_not.mp h, by omega⟩
    have hone : (if t.Direct off then 1 else spanPieces t.lmbSize none spans) = 1 := by
      split
      · rfl
      · rename_i h
        exact spanPieces_none_of_fits hlen (hfit h)
    rw [hone]
    refine sends_single (fun m => ?_) hfit
    rw [PayloadSource.copyData, PayloadSource.copySpans_eq, if_pos rfl]

variable {mk}

theorem doRemoteWrite_sends (hmax : 1 ≤ t.lmbSize) {src : Source} (hsrc : src.Valid t.lmbSize) {fuel : ℕ}
    (hfuel : src.steps ≤ fuel) :
    Sends t off seq (fun m => src.flatten m) (if t.Direct off then 1 else src.pieces t.lmbSize)
      (doRemoteWrite t fuel off src seq mk) := by
  cases src with
  | contiguous data datalen => exact doRemoteWriteContiguous_sends mk hmax hsrc (Nat.le_of_succ_le hfuel)
  | twoD data datalen stride lines =>
    obtain ⟨hlen, hle, hlines⟩ := hsrc
    exact doRemoteWriteTwoD_sends mk hlen hle hlines (Nat.le_of_succ_le hfuel)
  | spans list datalen =>
    obtain ⟨hlen, hlt, htot⟩ := hsrc
    exact doRemoteWriteSpans_sends mk hmax hlen hlt htot hfuel

/-- Only the count can be wrong. -/
theorem writesAll_iff_count (hmax : 1 ≤ t.lmbSize) {src : Source} (hsrc : src.Valid t.lmbSize) {fuel : ℕ}
    (hfuel : src.steps ≤ fuel) :
    WritesAll t fuel off src seq mk ↔ (if t.Direct off then 1 else src.pieces t.lmbSize) < 2 ^ 32 := by
  have hsends : Sends t off seq (fun m => src.flatten m) (if t.Direct off then 1 else src.pieces t.lmbSize)
      (doRemoteWrite t fuel off src seq mk) := doRemoteWrite_sends hmax hsrc hfuel
  obtain ⟨reqs, hrun, hlen, hsplits⟩ := hsends
  rw [← Nat.mod_eq_iff_lt (by decide)]
  constructor
  · rintro ⟨reqs', count, hrun', -, hcount⟩
    obtain ⟨rfl, rfl⟩ := Prod.mk.inj (Option.some.inj (hrun.symm.trans hrun'))
    rw [hcount, hlen]
  · intro h
    exact ⟨reqs, _, hrun, hsplits, by rw [h, hlen]⟩

/-- **A remote write arrives whole**, and is counted right as long as it takes less than `2 ^ 32` requests. -/
theorem writesAll_iff (hmax : 1 ≤ t.lmbSize) {src : Source} (hsrc : src.Valid t.lmbSize) {fuel : ℕ}
    (hfuel : src.steps ≤ fuel) :
    WritesAll t fuel off src seq mk ↔ t.Direct off ∨ src.pieces t.lmbSize < 2 ^ 32 := by
  rw [writesAll_iff_count hmax hsrc hfuel]
  split <;> simp [*]

end Whole

/-- Four spans through a buffer of four bytes: the empty one and the first four bytes, the big one in two
pieces, the last. -/
theorem writesAll_spans :
    WritesAll ⟨7, 1, 0, none, 4⟩ 20 16 (.spans [(100, 0), (200, 4), (300, 6), (400, 1)] 11) 3 true := by
  have hsrc : Source.Valid 4 (.spans [(100, 0), (200, 4), (300, 6), (400, 1)] 11) :=
    ⟨by decide, by decide, by decide⟩
  exact (writesAll_iff (by decide) hsrc (by decide)).mpr (.inr (by decide))

/-- The same line of 1024 bytes `2 ^ 32` times, through a buffer of 1024 bytes: the count wraps to `0`. -/
theorem not_writesAll_four_billion :
    ¬WritesAll ⟨7, 1, 0, none, 1024⟩ (2 ^ 32 + 1) 0 (.twoD 4096 1024 0 (2 ^ 32)) 3 false := by
  have hsrc : Source.Valid 1024 (.twoD 4096 1024 0 (2 ^ 32)) := ⟨by decide, by decide, by decide⟩
  rw [writesAll_iff_count (by decide) hsrc (by decide)]
  decide

end Realm.RemoteWrite

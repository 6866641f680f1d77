import Realm.AmMpi.Window
import Realm.Mem.Strided

/-!
# Realm.Mem.Rdma — remote reads and writes of an RDMA memory in the MPI build

A registered memory of another node is known by `regbase`, its address in the address space of the owner.
`do_remote_write` and `RemoteMemory::get_bytes` turn `regbase + offset` into a displacement of the owner's window
independently of each other.

* `getBytes`: `RemoteMemory::get_bytes` with `mpi_get`, which subtracts the base of the reader.
* `remoteWrite`: a contiguous `do_remote_write`, down to the `Put` of `AM_long_n` and on to `handleRequest`, the
  handler of the owner, which copies the data once more if they do not seem to be in place.
* `readsBack_iff`: a read returns what was written if the reader and the owner have the same base, the size is an
  `int` and the range starts in the first four gigabytes of the window, and only then.
-/

namespace Realm.Rdma

open Lib RemoteWrite AmMpi Strided

/-! ## Windows and regions -/

/-- `g_am_bases` after `am_init_win`: every node has allocated a block of `W` bytes. -/
structure Windows (W : ℕ) where
  bases : ℕ → Addr
  nonnull : ∀ i, bases i ≠ 0
  fits : ∀ i, (bases i).toNat + W ≤ 2 ^ 64

/-- A registered memory in the window at `base`. -/
structure Region (base : Addr) (W : ℕ) where
  regbase : Addr
  size : ℕ
  lower : base.toNat ≤ regbase.toNat
  upper : regbase.toNat + size ≤ base.toNat + W

/-! ## Reads and writes -/

section Code

variable {W : ℕ}

/-- The displacement of `mpi_get`: `gAmBase` is the variable `g_am_base` of the node that reads. -/
def mpiGetDisp (gAmBase regbase offset : Addr) : Addr := regbase + offset - gAmBase

/-- `RemoteMemory::get_bytes`: the contents of the buffer `dst` afterwards. -/
def getBytes (win : Vector Byte W) (gAmBase regbase offset : Addr) (dst : List Byte) (size : ℕ) :
    Option (List Byte) :=
  mpiGet win (mpiGetDisp gAmBase regbase offset) (BitVec.ofNat 32 size) dst

/-- A handler of medium messages: of `args`, `buf`, `nbytes` and the window. -/
abbrev Handler (W : ℕ) := List Word → Addr → ℕ → Vector Byte W → Option (Vector Byte W)

/-- `imsg->u.typed` of `handler_medium`, whose ten parameters start with the `BaseMedium`. -/
def typedArgs : List Word → Option RequestArgs
  | [_, _, _, _, memLo, memHi, offsetLo, offsetHi, sender, sequenceId] =>
    some ⟨(memHi ++ memLo).toNat, offsetHi ++ offsetLo, sender.toNat, sequenceId⟩
  | _ => none

/-- `LocalCPUMemory::put_bytes` of a memory at `base`, from another place of the window. -/
def putBytes (gAmBase base offset src : Addr) (size : ℕ) (win : Vector Byte W) : Option (Vector Byte W) :=
  (Block.load win (src - gAmBase).toNat size).bind fun bytes =>
    Block.store win (base + offset - gAmBase).toNat bytes

/-- `RemoteWriteMessage::handle_request` up to the bookkeeping of `sequence_id`; `impl` has the `base` of the
registered memories of the node. -/
def handleRequest (gAmBase : Addr) (impl : ℕ → Addr) : Handler W := fun words data datalen win => do
  let args ← typedArgs words
  let base := impl args.mem
  if wasWrittenDirectly true true base args.offset data then return win
  else putBytes gAmBase base args.offset data datalen win

/-- The call that `got_am` makes, for a long message.  The `int len` becomes the `size_t nbytes`. -/
def runCall (gAmBase : Addr) (win : Vector Byte W) : Option (Call (Handler W)) → Option (Vector Byte W)
  | some (.long fn disp len words) => fn words (gAmBase + BitVec.ofNat 64 disp) (len.signExtend 64).toNat win
  | some _ => none
  | none => some win

section Requests

variable (bases : ℕ → Addr) (m : Memory) (bufSend bufRecv : Buf) (amTable : Vector (Handler W) 256)
  (impl : ℕ → Addr)

/-- `AM_add_handler` for `REMOTE_WRITE_MSGID` -/
def addHandler (gAmBase : Addr) : Vector (Handler W) 256 := amTable.set 162 (handleRequest gAmBase impl)

/-- A request for the node of the window: what it sends, and what the node does when it gets it. -/
def putRequest (nextId : Word) (win : Vector Byte W) (r : Request RequestArgs) :
    Option (Word × Vector Byte W) := do
  let (nextId, call) ← mpiEnqueueMessage bases nextId r.target (ArgWords.msgid RequestArgs)
    (ArgWords.words r.args) r.dstptr r.payload
  let (win, header) ← call.sendLong m win bufSend
  let buf ← recvHeader bufRecv header
  let got ← gotAm (addHandler amTable impl (bases r.target)) (fun _ _ => none) buf
  let win ← runCall (bases r.target) win got
  return (nextId, win)

/-- The requests of a write, one after the other. -/
def putRequests : Word → Vector Byte W → List (Request RequestArgs) → Option (Vector Byte W)
  | _, win, [] => some win
  | nextId, win, r :: rs => do
    let (nextId, win) ← putRequest bases m bufSend bufRecv amTable impl nextId win r
    putRequests nextId win rs

/-- `do_remote_write` of the `size` bytes at `data` in the MPI build, until the owner has handled it. -/
def remoteWrite (nextId : Word) (win : Vector Byte W) (mem owner sender : ℕ) (regbase offset data : Addr) (size : ℕ)
    (seq : Word) (makeCopy : Bool) : Option (Vector Byte W) := do
  let (reqs, _) ← doRemoteWriteContiguous ⟨mem, owner, sender, some regbase, mpiLmbSize⟩ size offset data size seq
    makeCopy
  putRequests bases m bufSend bufRecv amTable impl nextId win reqs

end Requests

end Code

/-- Reads and writes of `[offset, offset + size)` address the same bytes of the owner's window, and a read after
a completed write of the range returns what was written. -/
def ReadsBack {W : ℕ} (bases : ℕ → Addr) (reader owner : ℕ) (regbase offset : Addr) (size : ℕ) : Prop :=
  mpiGetDisp (bases reader) regbase offset = regbase + offset - bases owner ∧
    ∀ (win : Vector Byte W) m bufSend bufRecv amTable impl nextId mem sender data seq makeCopy dst,
      dst.length = size → mem < 2 ^ 64 → impl mem = regbase →
      ∃ win', remoteWrite bases m bufSend bufRecv amTable impl nextId win mem owner sender regbase offset data size
          seq makeCopy = some win' ∧
        getBytes win' (bases reader) regbase offset dst size = some (cellsAt m data size)

section Proofs

variable {W : ℕ} {ws : Windows W} {reader owner : ℕ} {reg : Region (ws.bases owner) W} {offset : Addr}
  {size : ℕ}

theorem toNat_dstptr (hin : offset.toNat + size ≤ reg.size) (h1 : 1 ≤ size) :
    (reg.regbase + offset).toNat = reg.regbase.toNat + offset.toNat := by
  have hfits := ws.fits owner
  have hupper := reg.upper
  rw [BitVec.toNat_add, Nat.mod_eq_of_lt (by omega)]

theorem toNat_disp (hin : offset.toNat + size ≤ reg.size) (h1 : 1 ≤ size) :
    (reg.regbase + offset - ws.bases owner).toNat + size ≤ W := by
  have hptr := toNat_dstptr hin h1
  have hlower := reg.lower
  have hupper := reg.upper
  rw [BitVec.toNat_sub_of_le (show ws.bases owner ≤ reg.regbase + offset by rw [BitVec.le_def]; omega), hptr]
  omega

theorem dstptr_ne_zero (hin : offset.toNat + size ≤ reg.size) (h1 : 1 ≤ size) :
    reg.regbase + offset ≠ 0 := by
  intro h
  have hptr := toNat_dstptr hin h1
  have hlower := reg.lower
  have hzero : (reg.regbase + offset).toNat = 0 := by rw [h]; rfl
  apply ws.nonnull owner
  rw [BitVec.toNat_eq]
  show (ws.bases owner).toNat = 0
  omega

/-- The address that `run_am_long` makes of the displacement in the header. -/
def landing (base dstptr : Addr) : Addr := base + BitVec.ofNat 64 ((dstptr - base).setWidth 32).toNat

/-- The arguments arrive as they were sent. -/
theorem typedArgs_words {nextId : Word} {args : RequestArgs} {words : List Word} (hmem : args.mem < 2 ^ 64)
    (h : adjustArgs nextId (ArgWords.words args) = some words) :
    typedArgs words = some { args with sender := args.sender % 2 ^ 32 } := by
  have hwords : words = [nextId, 1, 0, 0] ++ ArgWords.fields args := by
    have heq : adjustArgs nextId (ArgWords.words args) = some ([] ++ [nextId, 1, 0, 0] ++ ArgWords.fields args) := by
      simp [adjustArgs, tpArgs, ArgWords.words]
    exact Option.some.inj (h.symm.trans heq)
  have hhalves : ∀ x : BitVec 64, (x >>> 32).setWidth 32 ++ x.setWidth 32 = x := by
    intro x
    ext i hi
    rw [BitVec.getElem_append]
    split
    · rw [BitVec.getElem_setWidth, BitVec.getLsbD_eq_getElem]
    · rw [BitVec.getElem_setWidth, BitVec.getLsbD_ushiftRight, show 32 + (i - 32) = i by omega,
        BitVec.getLsbD_eq_getElem]
  rw [hwords]
  show some (RequestArgs.mk _ _ _ _) = _
  rw [hhalves, hhalves, BitVec.toNat_ofNat, BitVec.toNat_ofNat, Nat.mod_eq_of_lt hmem]

/-- The handler only looks at the address of the data. -/
theorem handleRequest_eq (gAmBase : Addr) {impl : ℕ → Addr} {words : List Word} {args : RequestArgs} {base : Addr}
    (himpl : impl args.mem = base) (hargs : typedArgs words = some args) (data : Addr) (datalen : ℕ)
    (win : Vector Byte W) :
    handleRequest gAmBase impl words data datalen win =
      if data = base + args.offset then some win
      else putBytes gAmBase base args.offset data datalen win := by
  simp [handleRequest, hargs, himpl, wasWrittenDirectly]

/-- A write is one `Put` at the right displacement, and a call of the handler with the low half of it. -/
theorem remoteWrite_eq (hin : offset.toNat + size ≤ reg.size) (h1 : 1 ≤ size) (win : Vector Byte W) (m : Memory)
    (bufSend bufRecv : Buf) (amTable : Vector (Handler W) 256) {impl : ℕ → Addr} (nextId : Word) {mem : ℕ}
    (sender : ℕ) (data : Addr) (seq : Word) (mk : Bool) (hmem : mem < 2 ^ 64) (himpl : impl mem = reg.regbase) :
    remoteWrite ws.bases m bufSend bufRecv amTable impl nextId win mem owner sender reg.regbase offset data size seq
        mk =
      (mpiPut win (reg.regbase + offset - ws.bases owner) (BitVec.ofNat 32 size)
        (cellsAt m data (lenBytes (BitVec.ofNat 32 size)))).bind fun win =>
        if landing (ws.bases owner) (reg.regbase + offset) = reg.regbase + offset then some win
        else putBytes (ws.bases owner) reg.regbase offset (landing (ws.bases owner) (reg.regbase + offset))
          ((BitVec.ofNat 32 size).signExtend 64).toNat win := by
  have hptr := dstptr_ne_zero hin h1
  let args : RequestArgs := ⟨mem, offset, sender, seq⟩
  have hreqs : doRemoteWriteContiguous ⟨mem, owner, sender, some reg.regbase, mpiLmbSize⟩ size offset data size
      seq mk = some ([⟨owner, args, .contiguous data size (payloadMode mk), reg.regbase + offset⟩], 1) := by
    rw [doRemoteWriteContiguous, if_neg (by omega), if_neg (fun h => hptr h.1)]
    rfl
  obtain ⟨args', hargs⟩ := adjustArgs_words nextId args
  have hlen : args'.length = 10 := length_adjustArgs hargs
  have hcall : mpiEnqueueMessage ws.bases nextId owner (ArgWords.msgid RequestArgs) (ArgWords.words args)
      (reg.regbase + offset) (.contiguous data size (payloadMode mk)) = some (nextId + 1,
        .long owner (ArgWords.msgid RequestArgs) data (BitVec.ofNat 32 size)
          (reg.regbase + offset - ws.bases owner) args') := by
    rw [mpiEnqueueMessage, sendNow, if_neg (payloadMode_ne_none mk), hargs, Option.bind_eq_bind,
      Option.bind_some, if_neg hptr]
    rfl
  obtain ⟨header, hheader, hdecodes⟩ := amLongHeader_decodes (addHandler amTable impl (ws.bases owner)) bufSend 162
    (BitVec.ofNat 32 size) (reg.regbase + offset - ws.bases owner) (show 1 ≤ args'.length by omega) (by omega)
  obtain ⟨buf, hrecv, -, hrun⟩ := hdecodes.decodes bufRecv
  have hgot := (hrun fun _ _ => none).2
  have hfn : (addHandler amTable impl (ws.bases owner)).get 162 = handleRequest (ws.bases owner) impl := by
    exact Vector.getElem_set_self (i := 162) (by decide)
  have hmsgid : ArgWords.msgid RequestArgs = handlerWord 162 := rfl
  rw [hmsgid] at hcall
  rw [remoteWrite, hreqs, Option.bind_eq_bind, Option.bind_some]
  simp only [putRequests, putRequest, hmsgid, hcall, Option.bind_eq_bind, Option.bind_some, AmCall.sendLong, amLong,
    hheader]
  cases mpiPut win (reg.regbase + offset - ws.bases owner) (BitVec.ofNat 32 size)
      (cellsAt m data (lenBytes (BitVec.ofNat 32 size))) with
  | none => rfl
  | some win' =>
    have hcalled : runCall (ws.bases owner) win' (some (.long ((addHandler amTable impl (ws.bases owner)).get 162)
        ((reg.regbase + offset - ws.bases owner).setWidth 32).toNat (BitVec.ofNat 32 size) args')) =
        if landing (ws.bases owner) (reg.regbase + offset) = reg.regbase + offset then some win'
        else putBytes (ws.bases owner) reg.regbase offset (landing (ws.bases owner) (reg.regbase + offset))
          ((BitVec.ofNat 32 size).signExtend 64).toNat win' := by
      rw [runCall, hfn]
      exact handleRequest_eq (ws.bases owner) himpl (typedArgs_words hmem hargs) _ _ win'
    simp only [Option.bind_some, Option.pure_def, hrecv, hgot, Option.map_some, hcalled]
    rw [Option.bind_assoc]
    exact Option.bind_fun_some _

/-- A read returns as many bytes as an `int` can ask for; the rest of the buffer stays. -/
theorem getBytes_short {win : Vector Byte W} {gAmBase regbase : Addr} {dst bytes : List Byte}
    (h : getBytes win gAmBase regbase offset dst size = some bytes) :
    ∃ n xs, n < 2 ^ 31 ∧ bytes = xs ++ dst.drop n := by
  unfold getBytes mpiGet at h
  split at h
  · rename_i hcond
    obtain ⟨xs, -, hxs⟩ := Option.map_eq_some_iff.mp h
    refine ⟨(BitVec.ofNat 32 size).toNat, xs, ?_, hxs.symm⟩
    have hnonneg := hcond.2
    rw [BitVec.toInt_eq_toNat_cond] at hnonneg
    split at hnonneg <;> omega
  · simp at h

/-- A read that uses the right base returns what is at the displacement. -/
theorem getBytes_of_holds (hW : W < 2 ^ 63) (hin : offset.toNat + size ≤ reg.size) (h1 : 1 ≤ size)
    (hsize : size < 2 ^ 31) {win : Vector Byte W} {bytes dst : List Byte} (hbytes : bytes.length = size)
    (hholds : Block.Holds win (reg.regbase + offset - ws.bases owner).toNat bytes) (hdst : dst.length = size) :
    getBytes win (ws.bases owner) reg.regbase offset dst size = some bytes := by
  have hfit := toNat_disp hin h1
  have hload := Block.load_of_holds hholds (by omega)
  have hdisp : 0 ≤ (reg.regbase + offset - ws.bases owner).toInt := by
    rw [BitVec.toInt_eq_toNat_of_lt (by omega)]
    omega
  have hcount : 0 ≤ (BitVec.ofNat 32 size).toInt := by
    rw [toInt_ofNat_of_lt hsize]
    omega
  rw [getBytes, mpiGetDisp, mpiGet, if_pos ⟨hdisp, hcount⟩, toNat_ofNat_of_lt hsize, ← hbytes, hload,
    Option.map_some, hbytes, ← hdst, List.drop_length, List.append_nil]

theorem landing_eq_iff (hin : offset.toNat + size ≤ reg.size) (h1 : 1 ≤ size) :
    landing (ws.bases owner) (reg.regbase + offset) = reg.regbase + offset ↔
      reg.regbase.toNat + offset.toNat - (ws.bases owner).toNat < 2 ^ 32 := by
  have hptr := toNat_dstptr hin h1
  have hlower := reg.lower
  rw [landing, base_add_low_eq_iff (by omega), hptr]

/-- Inside a region, with a size that is an `int` and below the first four gigabytes, a read that uses the right base
returns what was written. -/
theorem write_then_read (hW : W < 2 ^ 63) (hin : offset.toNat + size ≤ reg.size) (h1 : 1 ≤ size)
    (hsize : size < 2 ^ 31) (hlow : reg.regbase.toNat + offset.toNat - (ws.bases owner).toNat < 2 ^ 32)
    (win : Vector Byte W) (m : Memory) (bufSend bufRecv : Buf) (amTable : Vector (Handler W) 256) {impl : ℕ → Addr}
    (nextId : Word) {mem : ℕ} (sender : ℕ) (data : Addr) (seq : Word) (mk : Bool) (hmem : mem < 2 ^ 64)
    (himpl : impl mem = reg.regbase) {dst : List Byte} (hdst : dst.length = size) :
    ∃ win', remoteWrite ws.bases m bufSend bufRecv amTable impl nextId win mem owner sender reg.regbase offset data
        size seq mk = some win' ∧
      getBytes win' (ws.bases owner) reg.regbase offset dst size = some (cellsAt m data size) := by
  have hfit := toNat_disp hin h1
  have hbytes : lenBytes (BitVec.ofNat 32 size) = size := by
    rw [lenBytes, toInt_ofNat_of_lt hsize]
    omega
  obtain ⟨win', hput, hholds⟩ := mpiPut_spec win (reg.regbase + offset - ws.bases owner) hW
    (length_cellsAt m data size) hsize hfit
  refine ⟨win', ?_, getBytes_of_holds hW hin h1 hsize (length_cellsAt m data size) hholds hdst⟩
  rw [remoteWrite_eq hin h1 win m bufSend bufRecv amTable nextId sender data seq mk hmem himpl, hbytes, hput,
    Option.bind_some, if_pos ((landing_eq_iff hin h1).mpr hlow)]

/-- A base of its own sends the reader elsewhere. -/
theorem mpiGetDisp_eq_iff {gAmBase base regbase : Addr} :
    mpiGetDisp gAmBase regbase offset = regbase + offset - base ↔ gAmBase = base := by
  rw [mpiGetDisp]
  constructor
  · intro h
    rw [BitVec.sub_eq_add_neg, BitVec.sub_eq_add_neg, BitVec.add_right_inj] at h
    exact BitVec.neg_inj.mp h
  · rintro rfl
    rfl

/-- A buffer that is longer than the `int` keeps its last bytes. -/
theorem size_lt_of_readsBack (h : ReadsBack (W := W) ws.bases reader owner reg.regbase offset size) :
    size < 2 ^ 31 := by
  by_contra hbig
  obtain ⟨win', -, hget⟩ := h.2 (Vector.replicate W 0) (fun _ => 0) (Vector.replicate _ 0) (Vector.replicate _ 0)
    (Vector.replicate _ fun _ _ _ _ => none) (fun _ => reg.regbase) 0 0 0 0 0 false (List.replicate size 1)
    List.length_replicate (by decide) rfl
  obtain ⟨n, xs, hn, heq⟩ := getBytes_short hget
  have hmem : (1 : Byte) ∈ cellsAt (fun _ : Addr => (0 : Byte)) 0 size := by
    rw [heq, List.drop_replicate]
    apply List.mem_append_right
    rw [List.mem_replicate]
    exact ⟨by omega, rfl⟩
  simp [cellsAt] at hmem

theorem toNat_landing_sub (base dstptr : Addr) :
    (landing base dstptr - base).toNat = (dstptr - base).toNat % 2 ^ 32 := by
  rw [landing, BitVec.add_comm, BitVec.add_sub_cancel, BitVec.toNat_ofNat, BitVec.toNat_setWidth]
  omega

theorem toNat_signExtend_of_lt {n : ℕ} (hn : n < 2 ^ 31) : ((BitVec.ofNat 32 n).signExtend 64).toNat = n := by
  have hnat := toNat_ofNat_of_lt hn
  have hmsb : (BitVec.ofNat 32 n).msb = false := BitVec.msb_eq_false_iff_two_mul_lt.mpr (by omega)
  rw [BitVec.toNat_signExtend, hmsb, BitVec.toNat_setWidth, hnat, Nat.mod_eq_of_lt (by omega)]
  rfl

/-- Above the first four gigabytes the handler looks for the data elsewhere, and copies what it finds there over
them: of a window full of zeros the read returns zeros. -/
theorem low_of_readsBack (hW : W < 2 ^ 63) (hin : offset.toNat + size ≤ reg.size) (h1 : 1 ≤ size)
    (h : ReadsBack (W := W) ws.bases reader owner reg.regbase offset size) :
    reg.regbase.toNat + offset.toNat - (ws.bases owner).toNat < 2 ^ 32 := by
  by_contra hbig
  have hsize := size_lt_of_readsBack h
  have hfit := toNat_disp hin h1
  have hptr := toNat_dstptr hin h1
  have hlower := reg.lower
  have hdisp : (reg.regbase + offset - ws.bases owner).toNat =
      reg.regbase.toNat + offset.toNat - (ws.bases owner).toNat := by
    rw [BitVec.toNat_sub_of_le (by rw [BitVec.le_def]; omega), hptr]
  obtain ⟨win', hwrite, hget⟩ := h.2 (Vector.replicate W 0) (fun _ => 1) (Vector.replicate _ 0)
    (Vector.replicate _ 0) (Vector.replicate _ fun _ _ _ _ => none) (fun _ => reg.regbase) 0 0 0 0 0 false
    (List.replicate size 0) List.length_replicate (by decide) rfl
  have hbytes : lenBytes (BitVec.ofNat 32 size) = size := by
    rw [lenBytes, toInt_ofNat_of_lt hsize]
    omega
  obtain ⟨win₁, hput⟩ := Block.store_of_le (Vector.replicate W (0 : Byte))
    (show (reg.regbase + offset - ws.bases owner).toNat + (cellsAt (fun _ : Addr => (1 : Byte)) 0 size).length ≤ W by
      rw [length_cellsAt]; exact hfit)
  -- where the handler looks, the window is as before the `Put`
  have hzeros : Block.Holds win₁ ((reg.regbase + offset - ws.bases owner).toNat % 2 ^ 32)
      (List.replicate size (0 : Byte)) := by
    refine Block.holds_store_frame hput (.inl ?_) fun i hi => ?_
    · rw [List.length_replicate]
      omega
    · rw [List.length_replicate] at hi
      rw [List.getElem?_replicate, if_pos hi, Vector.getElem?_replicate, if_pos (by omega)]
  have hload := Block.load_of_holds hzeros (by rw [List.length_replicate]; omega)
  rw [List.length_replicate] at hload
  have himpl : (fun _ => reg.regbase) 0 = reg.regbase := rfl
  rw [remoteWrite_eq hin h1 _ _ _ _ _ _ _ _ _ _ (show 0 < 2 ^ 64 by decide) himpl, hbytes,
    mpiPut_eq _ _ (by omega) (length_cellsAt _ _ _) hsize, hput, Option.bind_some,
    if_neg fun hat => hbig ((landing_eq_iff hin h1).mp hat), putBytes, toNat_landing_sub,
    toNat_signExtend_of_lt hsize, hload, Option.bind_some]
    at hwrite
  have hread := getBytes_of_holds hW hin h1 hsize List.length_replicate (Block.holds_store hwrite)
    (List.length_replicate (n := size) (a := (0 : Byte)))
  rw [mpiGetDisp_eq_iff.mp h.1, hread] at hget
  have hmem : (1 : Byte) ∈ List.replicate size 0 := by
    rw [Option.some.inj hget, cellsAt, List.mem_map]
    exact ⟨0, List.mem_range.mpr (by omega), rfl⟩
  exact absurd (List.eq_of_mem_replicate hmem) (by decide)

end Proofs

/-- **Reads and writes of an RDMA memory meet** exactly when the reader and the owner got the same base, the size is
an `int`, and the range starts in the first four gigabytes of the window. -/
theorem readsBack_iff {W : ℕ} (hW : W < 2 ^ 63) (ws : Windows W) (reader owner : ℕ)
    (reg : Region (ws.bases owner) W) (offset : Addr) (size : ℕ) (h1 : 1 ≤ size)
    (hin : offset.toNat + size ≤ reg.size) :
    ReadsBack (W := W) ws.bases reader owner reg.regbase offset size ↔
      ws.bases reader = ws.bases owner ∧ size < 2 ^ 31 ∧
        reg.regbase.toNat + offset.toNat - (ws.bases owner).toNat < 2 ^ 32 := by
  constructor
  · intro h
    exact ⟨mpiGetDisp_eq_iff.mp h.1, size_lt_of_readsBack h, low_of_readsBack hW hin h1 h⟩
  · rintro ⟨hbase, hsize, hlow⟩
    refine ⟨mpiGetDisp_eq_iff.mpr hbase, ?_⟩
    intro win m bufSend bufRecv amTable impl nextId mem sender data seq mk dst hdst hmem himpl
    rw [hbase]
    exact write_then_read hW hin h1 hsize hlow win m bufSend bufRecv amTable nextId sender data seq mk hmem himpl hdst

/-- Windows of one megabyte: node 0 got `base`, the others got `base'`. -/
def twoBases (base base' : Addr) (h : base ≠ 0 ∧ base.toNat + 2 ^ 20 ≤ 2 ^ 64)
    (h' : base' ≠ 0 ∧ base'.toNat + 2 ^ 20 ≤ 2 ^ 64) : Windows (2 ^ 20) where
  bases i := if i = 0 then base else base'
  nonnull i := by
    split
    · exact h.1
    · exact h'.1
  fits i := by
    split
    · exact h.2
    · exact h'.2

theorem readsBack_same_base :
    ReadsBack (W := 2 ^ 20) (twoBases 0x7f0000000000 0x7f0000000000 (by decide) (by decide)).bases 1 0
      0x7f0000001000 16 8 :=
  (readsBack_iff (by decide) (twoBases 0x7f0000000000 0x7f0000000000 (by decide) (by decide)) 1 0
    ⟨0x7f0000001000, 4096, by decide, by decide⟩ 16 8 (by decide) (by decide)).mpr ⟨rfl, by decide, by decide⟩

/-- Node 1 reads eight bytes of a memory of node 0, whose window lies one megabyte below its own. -/
theorem not_readsBack_other_base :
    ¬ReadsBack (W := 2 ^ 20) (twoBases 0x7f0000000000 0x7f0000100000 (by decide) (by decide)).bases 1 0
      0x7f0000001000 16 8 := by
  rintro ⟨hdisp, -⟩
  exact absurd (mpiGetDisp_eq_iff.mp hdisp) (by decide)

end Realm.Rdma

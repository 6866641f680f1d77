import Realm.AmMpi.Enqueue
import Realm.Mem.RemoteWrite

/-!
# Realm.AmMpi.Window — remote access to the windows of the MPI build

Every node allocates one block of memory, `g_am_base`, and makes it a window; `g_am_bases` holds the bases of
all nodes.  `AM_long_n` puts its payload there, and names the place by its displacement.

* `mpiPut`, `mpiGet`: one-sided access to a window.
* `amLong`: `AM_long_n`, a `Put` at a 64-bit displacement and a header with 32 bits of it.
* `Lands`, `lands_iff`: the header names the place of the data for displacements below `2 ^ 32`.
-/

namespace Realm.AmMpi

open Lib

/-! ## Windows -/

/-- `(size_t)mb << 20` -/
def megabytes (mb : Word) : BitVec 64 := mb.signExtend 64 <<< 20

/-- `attach_size` of `init_am_segments`, the size of the window. -/
def attachSize (gasnet registered registeredIb : Word) : BitVec 64 :=
  megabytes gasnet + megabytes registered + megabytes registeredIb

section Rma

variable {W : ℕ}

/-- `MPI_Put` and the `Win_flush` after it: `disp` is an `MPI_Aint`, `count` an `int`. -/
def mpiPut (win : Vector Byte W) (disp : Addr) (count : Word) (origin : List Byte) : Option (Vector Byte W) :=
  if 0 ≤ disp.toInt ∧ 0 ≤ count.toInt then Block.store win disp.toNat (origin.take count.toNat) else none

/-- `MPI_Get` and the `Win_flush` after it: only the first `count` bytes of `dst` change. -/
def mpiGet (win : Vector Byte W) (disp : Addr) (count : Word) (dst : List Byte) : Option (List Byte) :=
  if 0 ≤ disp.toInt ∧ 0 ≤ count.toInt then
    (Block.load win disp.toNat count.toNat).map (· ++ dst.drop count.toNat)
  else none

end Rma

/-! ## Long messages -/

/-- The header of `AM_long_n`: `buf_send[3]` is the low half of the displacement. -/
def amLongHeader (bufSend : Buf) (handler len : Word) (dst : Addr) (args : List Word) : Option (List Byte) := do
  let bufSend ← setWord bufSend 0 (BitVec.ofNat 32 args.length + amLongBase)
  let bufSend ← setWord bufSend 1 handler
  let bufSend ← setWord bufSend 2 len
  let bufSend ← setWord bufSend 3 (dst.setWidth 32)
  let bufSend ← amCopyShort amArgStartMedium args bufSend
  amSendShort bufSend (amArgStartMedium + args.length)

/-- `AM_long_n`: the window of the target after the `Put`, and the header. -/
def amLong {W : ℕ} (win : Vector Byte W) (bufSend : Buf) (handler : Word) (msg : List Byte) (len : Word)
    (dst : Addr) (args : List Word) : Option (Vector Byte W × List Byte) := do
  let win ← mpiPut win dst len msg
  let header ← amLongHeader bufSend handler len dst args
  return (win, header)

/-- The call of `AM_long_n` that `send_now` makes. -/
def AmCall.sendLong {W : ℕ} (m : Memory) (win : Vector Byte W) (bufSend : Buf) :
    AmCall → Option (Vector Byte W × List Byte)
  | long _ handler msg len dst args => amLong win bufSend handler (cellsAt m msg (lenBytes len)) len dst args
  | _ => none

/-- The header of a long message. -/
structure LongBuf (buf : Buf) (handler len disp : Word) (args : List Word) : Prop where
  type : WordAt buf 0 (BitVec.ofNat 32 args.length + amLongBase)
  handler : WordAt buf 1 handler
  len : WordAt buf 2 len
  disp : WordAt buf 3 disp
  args : WordsAt buf amArgStartMedium args

theorem amLongHeader_spec (bufSend : Buf) (handler len : Word) (dst : Addr) {args : List Word}
    (h16 : args.length ≤ 16) :
    ∃ buf header, amLongHeader bufSend handler len dst args = some header ∧
      LongBuf buf handler len (dst.setWidth 32) args ∧
      amSendShort buf (amArgStartMedium + args.length) = some header ∧
      header.length = 4 * (amArgStartMedium + args.length) := by
  have hfit : amArgStartMedium + args.length ≤ amBufMax := by
    unfold amArgStartMedium amBufMax
    omega
  obtain ⟨b0, h0⟩ := setWord_of_lt bufSend (BitVec.ofNat 32 args.length + amLongBase)
    (show 0 < amBufMax by decide)
  obtain ⟨b1, h1⟩ := setWord_of_lt b0 handler (show 1 < amBufMax by decide)
  obtain ⟨b2, h2⟩ := setWord_of_lt b1 len (show 2 < amBufMax by decide)
  obtain ⟨b3, h3⟩ := setWord_of_lt b2 (dst.setWidth 32) (show 3 < amBufMax by decide)
  obtain ⟨b4, h4, hargs, hframe⟩ := amCopyShort_spec b3 hfit
  obtain ⟨header, hload, hlen⟩ := amSendShort_spec b4 hfit
  refine ⟨b4, header, ?_, ⟨hframe _ _ (by decide) ?_, hframe _ _ (by decide) ?_, hframe _ _ (by decide) ?_,
    hframe _ _ (by decide) (wordAt_setWord h3), hargs⟩, hload, hlen⟩
  · unfold amLongHeader
    rw [h0, Option.bind_eq_bind, Option.bind_some, h1, Option.bind_some, h2, Option.bind_some, h3,
      Option.bind_some, h4, Option.bind_some, hload]
  · exact wordAt_setWord_of_ne h3 (wordAt_setWord_of_ne h2 (wordAt_setWord_of_ne h1 (wordAt_setWord h0)
      (by decide)) (by decide)) (by decide)
  · exact wordAt_setWord_of_ne h3 (wordAt_setWord_of_ne h2 (wordAt_setWord h1) (by decide)) (by decide)
  · exact wordAt_setWord_of_ne h3 (wordAt_setWord h2) (by decide)

section Receive

variable {H : Type} {amTable : Vector H 256} {buf : Buf} {handler : Fin 256} {len disp : Word}
  {args : List Word}

theorem LongBuf.runAm_eq (recv : Word → Word → Option (List Byte))
    (h : LongBuf buf (handlerWord handler) len disp args) (h1 : 1 ≤ args.length) (h16 : args.length ≤ 16) :
    runAm amTable recv buf = some (.long (amTable.get handler) disp.toNat len args) := by
  have ht : (BitVec.ofNat 32 args.length + amLongBase).toNat = args.length + 0x200 := by
    rw [BitVec.toNat_add, BitVec.toNat_ofNat]
    have hb : amLongBase.toNat = 0x200 := rfl
    omega
  have hshort : ¬BitVec.ofNat 32 args.length + amLongBase < amMediumBase := by
    rw [BitVec.lt_def, ht]
    have hb : amMediumBase.toNat = 0x100 := rfl
    omega
  have hmedium : ¬BitVec.ofNat 32 args.length + amLongBase < amLongBase := by
    rw [BitVec.lt_def, ht]
    have hb : amLongBase.toNat = 0x200 := rfl
    omega
  rw [runAm_of_type h.type h.handler, if_neg hshort, if_neg hmedium, runAmLong,
    getWord_of_wordAt h.len (by decide), getWord_of_wordAt h.disp (by decide), BitVec.add_sub_cancel,
    handlerArgs_of_wordsAt h.args h1 h16 (by decide)]
  rfl

/-- **`AM_long_n`**: the header calls the handler with the low half of the displacement. -/
theorem amLongHeader_decodes (amTable : Vector H 256) (bufSend : Buf) (handler : Fin 256) (len : Word)
    (dst : Addr) (h1 : 1 ≤ args.length) (h16 : args.length ≤ 16) :
    ∃ header, amLongHeader bufSend (handlerWord handler) len dst args = some header ∧
      Decodes amTable header none
        fun _ => some (.long (amTable.get handler) (dst.setWidth 32).toNat len args) := by
  obtain ⟨buf, header, hsend, hbuf, hs, hl⟩ := amLongHeader_spec bufSend (handlerWord handler) len dst h16
  have hstart : amArgStartMedium = 4 := rfl
  have hmax : amBufMax = 80 := rfl
  have hfit : amArgStartMedium + args.length ≤ amBufMax := by omega
  refine ⟨header, hsend, ⟨by omega, fun bufRecv => ?_⟩⟩
  obtain ⟨buf', hr, hcopy⟩ := recvHeader_spec bufRecv hs hl hfit
  have hbuf' : LongBuf buf' (handlerWord handler) len (dst.setWidth 32) args :=
    ⟨hcopy _ _ (by rw [length_wordBytes]; omega) hbuf.type,
      hcopy _ _ (by rw [length_wordBytes]; omega) hbuf.handler,
      hcopy _ _ (by rw [length_wordBytes]; omega) hbuf.len,
      hcopy _ _ (by rw [length_wordBytes]; omega) hbuf.disp,
      hcopy _ _ (by rw [length_flatMap_wordBytes]; omega) hbuf.args⟩
  refine ⟨buf', hr, by simp, fun recv => ⟨hbuf'.runAm_eq recv h1 h16, ?_⟩⟩
  rw [gotAm_eq hbuf'.handler, hbuf'.runAm_eq recv h1 h16]

end Receive

/-! ## Where a long message lands -/

/-- `was_written_directly` of `RemoteWriteMessage::handle_request`: `sysmem` says that the memory is of kind
`MKIND_SYSMEM`. -/
def wasWrittenDirectly (sysmem registered : Bool) (base offset data : Addr) : Bool :=
  sysmem && registered && data == base + offset

theorem length_adjustArgs {nextId : Word} {args args' : List Word} (h : adjustArgs nextId args = some args') :
    args'.length = args.length := by
  obtain ⟨i, -, h⟩ := Option.bind_eq_some_iff.mp h
  split at h
  · obtain rfl := Option.some.inj h
    simp only [List.length_append, List.length_take, List.length_drop, List.length_cons, List.length_nil]
    omega
  · simp at h

theorem toInt_ofNat_of_lt {n : ℕ} (h : n < 2 ^ 31) : (BitVec.ofNat 32 n).toInt = n := by
  rw [BitVec.toInt_ofNat', Int.bmod_eq_of_le (by omega) (by omega)]

theorem toNat_ofNat_of_lt {n : ℕ} (h : n < 2 ^ 31) : (BitVec.ofNat 32 n).toNat = n := by
  rw [BitVec.toNat_ofNat, Nat.mod_eq_of_lt (by omega)]

/-- A `Put` of a size that is an `int` stores its data. -/
theorem mpiPut_eq {W n : ℕ} (win : Vector Byte W) (dst : Addr) (hdst : dst.toNat < 2 ^ 63) {bytes : List Byte}
    (hn : bytes.length = n) (hsize : n < 2 ^ 31) :
    mpiPut win dst (BitVec.ofNat 32 n) bytes = Block.store win dst.toNat bytes := by
  have hdisp : 0 ≤ dst.toInt := by
    rw [BitVec.toInt_eq_toNat_of_lt (by omega)]
    omega
  have hcount : 0 ≤ (BitVec.ofNat 32 n).toInt := by
    rw [toInt_ofNat_of_lt hsize]
    omega
  rw [mpiPut, if_pos ⟨hdisp, hcount⟩, toNat_ofNat_of_lt hsize, List.take_of_length_le hn.le]

/-- A `Put` inside the window succeeds and leaves the data at its displacement. -/
theorem mpiPut_spec {W n : ℕ} (win : Vector Byte W) (dst : Addr) (hW : W < 2 ^ 63) {bytes : List Byte}
    (hn : bytes.length = n) (hsize : n < 2 ^ 31) (hfit : dst.toNat + n ≤ W) :
    ∃ win', mpiPut win dst (BitVec.ofNat 32 n) bytes = some win' ∧ Block.Holds win' dst.toNat bytes := by
  obtain ⟨win', hstore⟩ := Block.store_of_le win (show dst.toNat + bytes.length ≤ W by omega)
  refine ⟨win', ?_, Block.holds_store hstore⟩
  rw [mpiPut_eq win dst (by omega) hn hsize, hstore]

/-- The data of a long message is at `dstptr` in the window of the target, and the handler is called with this
address, so that a registered memory finds its data in place. -/
def Lands {H : Type} (amTable : Vector H 256) (bases : ℕ → Addr) (target : ℕ) {W : ℕ} (win : Vector Byte W)
    (bufSend : Buf) (nextId : Word) (handler : Fin 256) (args : List Word) (m : Memory) (payload : Addr)
    (payloadSize : ℕ) (mode : PayloadMode) (dstptr : Addr) : Prop :=
  ∃ call win' header,
    sendNow bases nextId target (handlerWord handler) args payload payloadSize mode dstptr =
      some (nextId + 1, call) ∧
    call.sendLong m win bufSend = some (win', header) ∧
    Block.Holds win' (dstptr.toNat - (bases target).toNat) (cellsAt m payload payloadSize) ∧
    ∀ bufRecv recv, ∃ buf disp args', recvHeader bufRecv header = some buf ∧
      gotAm amTable recv buf =
        some (some (.long (amTable.get handler) disp (BitVec.ofNat 32 payloadSize) args')) ∧
      bases target + BitVec.ofNat 64 disp = dstptr ∧
      ∀ base offset, base + offset = dstptr →
        wasWrittenDirectly true true base offset (bases target + BitVec.ofNat 64 disp)

section Lands

variable {H : Type} {amTable : Vector H 256} {bases : ℕ → Addr} {target : ℕ} {W : ℕ} {win : Vector Byte W}
  {bufSend : Buf} {nextId : Word} {handler : Fin 256} {args : List Word} {m : Memory} {payload : Addr}
  {payloadSize : ℕ} {mode : PayloadMode} {dstptr : Addr}

/-- What a long message does, whether its header names the right place or not. -/
theorem sendLong_spec (amTable : Vector H 256) (handler : Fin 256) (win : Vector Byte W) (bufSend : Buf)
    (m : Memory) (payload : Addr) (hW : W < 2 ^ 63)
    (hbase : bases target ≠ 0) (hlo : (bases target).toNat ≤ dstptr.toNat)
    (hfit : dstptr.toNat + payloadSize ≤ (bases target).toNat + W) (hsize : payloadSize < 2 ^ 31)
    (hargs : (adjustArgs nextId args).isSome) (h1 : 1 ≤ args.length) (h16 : args.length ≤ 16)
    (hmode : mode ≠ .none) :
    ∃ call win' header args',
      sendNow bases nextId target (handlerWord handler) args payload payloadSize mode dstptr =
        some (nextId + 1, call) ∧
      call.sendLong m win bufSend = some (win', header) ∧
      Block.Holds win' (dstptr.toNat - (bases target).toNat) (cellsAt m payload payloadSize) ∧
      Decodes amTable header none fun _ => some (.long (amTable.get handler)
        ((dstptr - bases target).setWidth 32).toNat (BitVec.ofNat 32 payloadSize) args') := by
  obtain ⟨args', hargs⟩ := Option.isSome_iff_exists.mp hargs
  have hlen := length_adjustArgs hargs
  have hdst : (dstptr - bases target).toNat = dstptr.toNat - (bases target).toNat :=
    BitVec.toNat_sub_of_le hlo
  have hptr : dstptr ≠ 0 := by
    rintro rfl
    apply hbase
    rw [BitVec.toNat_eq]
    simpa using hlo
  obtain ⟨win', hput, hholds⟩ := mpiPut_spec win (dstptr - bases target) hW
    (length_cellsAt m payload payloadSize) hsize (by omega)
  obtain ⟨header, hheader, hdecodes⟩ := amLongHeader_decodes amTable bufSend handler
    (BitVec.ofNat 32 payloadSize) (dstptr - bases target) (show 1 ≤ args'.length by omega) (by omega)
  have hbytes : lenBytes (BitVec.ofNat 32 payloadSize) = payloadSize := by
    rw [lenBytes, toInt_ofNat_of_lt hsize]
    omega
  refine ⟨.long target (handlerWord handler) payload (BitVec.ofNat 32 payloadSize) (dstptr - bases target) args',
    win', header, args', ?_, ?_, hdst ▸ hholds, hdecodes⟩
  · rw [sendNow, if_neg hmode, hargs, Option.bind_eq_bind, Option.bind_some, if_neg hptr]
    rfl
  · rw [AmCall.sendLong, hbytes, amLong, hput, Option.bind_eq_bind, Option.bind_some, hheader]
    rfl

/-- The zero-extended low half of a displacement leads back to the address if nothing was cut off. -/
theorem base_add_low_eq_iff {base : Addr} (hlo : base.toNat ≤ dstptr.toNat) :
    base + BitVec.ofNat 64 ((dstptr - base).setWidth 32).toNat = dstptr ↔
      dstptr.toNat - base.toNat < 2 ^ 32 := by
  have hdst : (dstptr - base).toNat = dstptr.toNat - base.toNat := BitVec.toNat_sub_of_le hlo
  rw [BitVec.toNat_setWidth, hdst]
  constructor
  · intro h
    have hn := congrArg BitVec.toNat h
    rw [BitVec.toNat_add, BitVec.toNat_ofNat] at hn
    have := dstptr.isLt
    have := base.isLt
    omega
  · intro h
    rw [Nat.mod_eq_of_lt h, ← hdst, BitVec.ofNat_toNat, BitVec.setWidth_eq, BitVec.add_comm,
      BitVec.sub_add_cancel]

theorem lands_iff_low (hW : W < 2 ^ 63) (hbase : bases target ≠ 0)
    (hlo : (bases target).toNat ≤ dstptr.toNat)
    (hfit : dstptr.toNat + payloadSize ≤ (bases target).toNat + W) (hsize : payloadSize < 2 ^ 31)
    (hargs : (adjustArgs nextId args).isSome) (h1 : 1 ≤ args.length) (h16 : args.length ≤ 16)
    (hmode : mode ≠ .none) :
    Lands amTable bases target win bufSend nextId handler args m payload payloadSize mode dstptr ↔
      bases target + BitVec.ofNat 64 ((dstptr - bases target).setWidth 32).toNat = dstptr := by
  obtain ⟨call, win', header, args', hsend, hlong, hholds, hdecodes⟩ := sendLong_spec amTable handler win bufSend
    m payload hW hbase hlo hfit hsize hargs h1 h16 hmode
  constructor
  · rintro ⟨call', win'', header', hsend', hlong', -, hrecv⟩
    obtain rfl : call = call' := (Prod.mk.inj (Option.some.inj (hsend.symm.trans hsend'))).2
    obtain rfl : header = header' := (Prod.mk.inj (Option.some.inj (hlong.symm.trans hlong'))).2
    obtain ⟨buf, hr, -, hcall⟩ := hdecodes.decodes (Vector.replicate _ 0)
    obtain ⟨buf', disp, args'', hr', hgot, hs, -⟩ := hrecv (Vector.replicate _ 0) fun _ _ => none
    obtain rfl := Option.some.inj (hr.symm.trans hr')
    have heq := (hcall fun _ _ => none).2.symm.trans hgot
    simp only [Option.map_some, Option.some.injEq, Call.long.injEq] at heq
    rw [heq.2.1]
    exact hs
  · intro h
    refine ⟨call, win', header, hsend, hlong, hholds, fun bufRecv recv => ?_⟩
    obtain ⟨buf, hr, -, hcall⟩ := hdecodes.decodes bufRecv
    refine ⟨buf, _, args', hr, (hcall recv).2, h, fun base offset hat => ?_⟩
    rw [h, wasWrittenDirectly, hat]
    simp

end Lands

/-- **A long message lands where both sides think** if it goes to the first four gigabytes of the window, and
only then. -/
theorem lands_iff {H : Type} (amTable : Vector H 256) (bases : ℕ → Addr) (target : ℕ)
    (gasnet registered registeredIb : Word) (hW : (attachSize gasnet registered registeredIb).toNat < 2 ^ 63)
    (win : Vector Byte (attachSize gasnet registered registeredIb).toNat) (bufSend : Buf) (nextId : Word)
    (handler : Fin 256) (args : List Word) (m : Memory) (payload : Addr) (payloadSize : ℕ)
    (mode : PayloadMode) (dstptr : Addr) (hbase : bases target ≠ 0)
    (hlo : (bases target).toNat ≤ dstptr.toNat)
    (hfit : dstptr.toNat + payloadSize ≤
      (bases target).toNat + (attachSize gasnet registered registeredIb).toNat)
    (hsize : payloadSize < 2 ^ 31) (hargs : (adjustArgs nextId args).isSome) (h1 : 1 ≤ args.length)
    (h16 : args.length ≤ 16) (hmode : mode ≠ .none) :
    Lands amTable bases target win bufSend nextId handler args m payload payloadSize mode dstptr ↔
      dstptr.toNat - (bases target).toNat < 2 ^ 32 := by
  rw [lands_iff_low hW hbase hlo hfit hsize hargs h1 h16 hmode]
  exact base_add_low_eq_iff hlo

/-- The default sizes: one gigabyte and eight bytes to its middle. -/
theorem lands_default :
    Lands (Vector.replicate 256 ()) (fun _ => 0x7f0000000000) 1
      (Vector.replicate (attachSize 256 512 256).toNat 0) (Vector.replicate _ 0) 5 162
      [messageIdMagic, messageChunksMagic, 0, 0] (fun _ => 1) 4096 8 .keep 0x7f0020000000 :=
  (lands_iff (Vector.replicate 256 ()) (fun _ => 0x7f0000000000) 1 256 512 256 (by decide) _ _ 5 162
    [messageIdMagic, messageChunksMagic, 0, 0] (fun _ => 1) 4096 8 .keep 0x7f0020000000 (by decide) (by decide)
    (by decide) (by decide) (by decide) (by decide) (by decide) (by decide)).mpr (by decide)

/-- Five gigabytes of registered memory and eight bytes just above the first four gigabytes of the window: the
handler looks for them at the start of the window. -/
theorem not_lands_above_four_gigabytes :
    ¬Lands (Vector.replicate 256 ()) (fun _ => 0x7f0000000000) 1
      (Vector.replicate (attachSize 256 5120 256).toNat 0) (Vector.replicate _ 0) 5 162
      [messageIdMagic, messageChunksMagic, 0, 0] (fun _ => 1) 4096 8 .keep 0x7f0100000000 := by
  rw [lands_iff_low (by decide) (by decide) (by decide) (by decide) (by decide) (by decide) (by decide)
    (by decide) (by decide)]
  decide

end Realm.AmMpi

import Realm.AmMpi.Codec
import Realm.Endpoint.Payload

/-!
# Realm.AmMpi.Enqueue — `enqueue_message` of the MPI build (`use_mpi.def`)

The MPI build has no queue: `mpi_enqueue_message` calls one of `AM_short_n`, `AM_medium_n` and `AM_long_n` at
once.

* `mpiEnqueueMessage`: the three overloads, as calls of `sendNow`.
* `AmCall.bytes`: the payload that such a call denotes.
* `handsGathered_twoD_iff`: when the payload of a strided message is what `copy_data` would gather.
-/

namespace Realm.AmMpi

open Lib

/-- `BaseMedium::MESSAGE_ID_MAGIC` -/
def messageIdMagic : Word := 0x0bad0bad

/-- `BaseMedium::MESSAGE_CHUNKS_MAGIC` -/
def messageChunksMagic : Word := 0x0a550a55

/-- A call of `AM_short_n`, `AM_medium_n` or `AM_long_n`. -/
inductive AmCall
  | short (tgt : ℕ) (handler : Word) (args : List Word)
  | medium (tgt : ℕ) (handler : Word) (msg : Addr) (len : Word) (args : List Word)
  | long (tgt : ℕ) (handler : Word) (msg : Addr) (len : Word) (dst : Addr) (args : List Word)
deriving DecidableEq

/-- Where the `BaseMedium` is: at the start of the arguments, or behind two ints; anything else is a failed
assertion. -/
def tpArgs (args : List Word) : Option ℕ :=
  if args[0]? = some messageIdMagic then some 0
  else if args[2]? = some messageIdMagic then some 2
  else none

/-- `adjust_args` overwrites the four ints of the `BaseMedium`. -/
def adjustArgs (nextId : Word) (args : List Word) : Option (List Word) := do
  let i ← tpArgs args
  if i + 4 ≤ args.length then some (args.take i ++ [nextId, 1, 0, 0] ++ args.drop (i + 4)) else none

section Send

variable (bases : ℕ → Addr) (nextId : Word) (target : ℕ) (msgid : Word) (args : List Word)

/-- `send_now`, with the value of `next_outgoing_message_id` after it.  The `size_t payload_size` becomes the
`int len`. -/
def sendNow (payload : Addr) (payloadSize : ℕ) (payloadMode : PayloadMode) (dstptr : Addr) :
    Option (Word × AmCall) :=
  if payloadMode = .none then some (nextId, .short target msgid args)
  else do
    let args ← adjustArgs nextId args
    if dstptr = 0 then return (nextId + 1, .medium target msgid payload (BitVec.ofNat 32 payloadSize) args)
    else return (nextId + 1,
      .long target msgid payload (BitVec.ofNat 32 payloadSize) (dstptr - bases target) args)

/-- `mpi_enqueue_message` with `set_payload_size`: the overload for spans is not implemented. -/
def mpiEnqueueMessage (dstptr : Addr) : PayloadSource → Option (Word × AmCall)
  | .contiguous payload payloadSize mode => sendNow bases nextId target msgid args payload payloadSize mode dstptr
  | .twoD payload lineSize lineCount _ mode =>
    sendNow bases nextId target msgid args payload (lineSize * lineCount % 2 ^ 64) mode dstptr
  | .span _ _ _ => none

end Send

/-- How many bytes an `int len` asks for. -/
def lenBytes (len : Word) : ℕ := len.toInt.toNat

def AmCall.bytes (m : Memory) : AmCall → List Byte
  | short _ _ _ => []
  | medium _ _ msg len _ => cellsAt m msg (lenBytes len)
  | long _ _ msg len _ _ => cellsAt m msg (lenBytes len)

/-! ## Sizes -/

theorem lenBytes_ofNat_le (n : ℕ) : lenBytes (BitVec.ofNat 32 n) ≤ n := by
  rw [lenBytes, BitVec.toInt_ofNat']
  have : (n : ℤ).bmod (2 ^ 32) ≤ n := by
    rw [Int.bmod_eq_emod]
    split <;> omega
  omega

theorem lenBytes_ofNat_eq_iff (n : ℕ) : lenBytes (BitVec.ofNat 32 (n % 2 ^ 64)) = n ↔ n < 2 ^ 31 := by
  rw [lenBytes, BitVec.toInt_ofNat']
  constructor
  · intro h
    have hlt : ((n % 2 ^ 64 : ℕ) : ℤ).bmod (2 ^ 32) < ((2 ^ 32 : ℕ) + 1) / 2 := Int.bmod_lt (by decide)
    omega
  · intro h
    rw [Nat.mod_eq_of_lt (by omega), Int.bmod_eq_of_le (by omega) (by omega)]
    omega

/-- A strided payload fills a block without gaps that an `int` can measure. -/
def Packed (lineSize lineCount : ℕ) (lineStride : Addr) : Prop :=
  lineSize * lineCount < 2 ^ 31 ∧ (lineCount ≤ 1 ∨ lineSize = 0 ∨ lineStride = BitVec.ofNat 64 lineSize)

instance (lineSize lineCount : ℕ) (lineStride : Addr) : Decidable (Packed lineSize lineCount lineStride) :=
  inferInstanceAs (Decidable (_ ∧ _))

theorem cellsAt_eq_gather_iff {payload lineStride : Addr} {lineSize lineCount : ℕ} :
    (∀ m : Memory, cellsAt m payload (lenBytes (BitVec.ofNat 32 (lineSize * lineCount % 2 ^ 64))) =
      gather m payload lineSize lineStride lineCount) ↔ Packed lineSize lineCount lineStride := by
  constructor
  · intro h
    have hlen := congrArg List.length (h fun _ => 0)
    rw [length_cellsAt, length_gather] at hlen
    rw [hlen] at h
    exact ⟨(lenBytes_ofNat_eq_iff _).mp hlen, gather_eq_cellsAt_iff.mp fun m => (h m).symm⟩
  · rintro ⟨hlt, hlayout⟩ m
    rw [(lenBytes_ofNat_eq_iff _).mpr hlt]
    exact (gather_eq_cellsAt_iff.mpr hlayout m).symm

/-- What `send_now` hands over is the block at `payload`, whatever path it takes. -/
theorem sendNow_bytes (bases : ℕ → Addr) (target : ℕ) (msgid : Word) (payload : Addr) (payloadSize : ℕ)
    (dstptr : Addr) {nextId : Word} {args args' : List Word} (hargs : adjustArgs nextId args = some args')
    {mode : PayloadMode} (hmode : mode ≠ .none) :
    ∃ call, sendNow bases nextId target msgid args payload payloadSize mode dstptr = some (nextId + 1, call) ∧
      ∀ m, call.bytes m = cellsAt m payload (lenBytes (BitVec.ofNat 32 payloadSize)) := by
  unfold sendNow
  rw [if_neg hmode, hargs, Option.bind_eq_bind, Option.bind_some]
  split
  · exact ⟨_, rfl, fun m => rfl⟩
  · exact ⟨_, rfl, fun m => rfl⟩

/-- What the call gets is what `copy_data` would write. -/
def HandsGathered (bases : ℕ → Addr) (nextId : Word) (target : ℕ) (msgid : Word) (args : List Word)
    (dstptr : Addr) (src : PayloadSource) : Prop :=
  ∃ call, mpiEnqueueMessage bases nextId target msgid args dstptr src = some (nextId + 1, call) ∧
    ∀ m, src.copyData m = some (call.bytes m)

theorem handsGathered_twoD_iff (bases : ℕ → Addr) (target : ℕ) (msgid : Word) (dstptr payload : Addr)
    (lineSize lineCount : ℕ) (lineStride : Addr) {nextId : Word} {args : List Word}
    (hargs : (adjustArgs nextId args).isSome) {mode : PayloadMode} (hmode : mode ≠ .none) :
    HandsGathered bases nextId target msgid args dstptr (.twoD payload lineSize lineCount lineStride mode) ↔
      Packed lineSize lineCount lineStride := by
  obtain ⟨args', hargs⟩ := Option.isSome_iff_exists.mp hargs
  obtain ⟨call, hcall, hbytes⟩ := sendNow_bytes bases target msgid payload (lineSize * lineCount % 2 ^ 64)
    dstptr hargs hmode
  have hgather : ∀ m : Memory, (PayloadSource.twoD payload lineSize lineCount lineStride mode).copyData m =
      some (gather m payload lineSize lineStride lineCount) :=
    fun m => congrArg some (PayloadSource.copyLines_eq_gather m lineSize lineStride lineCount payload)
  rw [← cellsAt_eq_gather_iff]
  constructor
  · rintro ⟨call', hcall', h⟩ m
    obtain rfl : call = call' := (Prod.mk.inj (Option.some.inj (hcall.symm.trans hcall'))).2
    rw [← hbytes]
    exact Option.some.inj ((h m).symm.trans (hgather m))
  · intro h
    exact ⟨call, hcall, fun m => by rw [hgather, hbytes, h]⟩

end Realm.AmMpi

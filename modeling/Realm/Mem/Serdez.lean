import Realm.Lib.Pack
import Realm.Lib.Collect
import Realm.Lib.Int64
import Realm.Endpoint.Payload

/-!
# Realm.Mem.Serdez — serialized remote copies (`do_remote_serdez`, `RemoteSerdezMessage::handle_request`)

Elements of a field are serialized into a bounce buffer of the size of a long message buffer; what does not fit into
it any more starts the next message.  The receiver deserializes as many elements as the message says.

* `SerdezOp`: the serializer, whose code is given by the application.
* `pack`, `serdezLoop`, `doRemoteSerdez`: the sender, `handleRequest`, `handleAll`: the receiver.
* `RoundTrip`: the elements arrive where they should, each once, in messages that fit, and the messages are counted.
* `pack_spec`, `serdezLoop_spec`: the loops; the number of messages is that of `Lib.boxes`.
* `serdez_roundTrip_iff`: only the count can be wrong, if there are too many messages for an `unsigned`.
-/

namespace Realm.Serdez

open Lib

/-! ## The code -/

/-- `CustomSerdezUntyped`, for elements of type `X`.  `deserialize` is given the buffer from its pointer on, and returns
the element and how many bytes it has read. -/
structure SerdezOp (X : Type) where
  sizeofFieldType : ℕ
  serializedSize : X → ℕ
  serialize : X → List Byte
  deserialize : List Byte → X × ℕ

/-- `RemoteSerdezMessage::RequestArgs` -/
structure SerdezArgs where
  mem : ℕ
  offset : Addr
  count : ℕ
  serdezId : BitVec 32
  sender : ℕ
  sequenceId : BitVec 32

/-- A request and the bytes of its payload, which are copied out of the buffer. -/
structure Request where
  target : ℕ
  args : SerdezArgs
  data : List Byte

/-- The variables of the loops of `do_remote_serdez`. -/
structure Cursor where
  count : ℕ
  pos : Addr
  newOffset : Addr
  curSize : ℕ
  curCount : ℕ
  buffer : List Byte

section Code

variable {X : Type} (op : SerdezOp X) (load : Addr → X) (maxXferSize : ℕ)

/-- The inner loop, where `load` is the element at an address.  The sum of the sizes is a `size_t`. -/
def pack : ℕ → Addr → Addr → ℕ → ℕ → List Byte → Cursor
  | 0, pos, newOffset, curSize, curCount, buffer => ⟨0, pos, newOffset, curSize, curCount, buffer⟩
  | count + 1, pos, newOffset, curSize, curCount, buffer =>
    let elementSize := op.serializedSize (load pos)
    -- break if including this element exceeds max_xfer_size
    if (elementSize + curSize) % 2 ^ 64 > maxXferSize then ⟨count + 1, pos, newOffset, curSize, curCount, buffer⟩
    else
      pack count (pos + BitVec.ofNat 64 op.sizeofFieldType) (newOffset + BitVec.ofNat 64 op.sizeofFieldType)
        (curSize + elementSize) (curCount + 1) (buffer ++ op.serialize (load pos))

/-- What does not change from one message to the next: the target and the arguments. -/
structure Header where
  mem : ℕ
  ownerNode : ℕ
  myNodeId : ℕ
  serdezId : BitVec 32
  sequenceId : BitVec 32

/-- The outer loop, with the requests so far and `xfers`; `none` is the failed assertion, or that the fuel is out. -/
def serdezLoop (h : Header) : ℕ → ℕ → Addr → Addr → List Request → ℕ → Option (List Request × ℕ)
  | 0, _, _, _, _, _ => none
  | _ + 1, 0, _, _, sent, xfers => some (sent, xfers)
  | fuel + 1, count + 1, pos, offset, sent, xfers =>
    let c := pack op load maxXferSize (count + 1) pos offset 0 0 []
    if c.curSize = 0 then none
    else
      serdezLoop h fuel c.count c.pos c.newOffset
        (sent ++ [⟨h.ownerNode, ⟨h.mem, offset, c.curCount, h.serdezId, h.myNodeId, h.sequenceId⟩, c.buffer⟩])
        ((xfers + 1) % 2 ^ 32)

def doRemoteSerdez (h : Header) (fuel : ℕ) (offset data : Addr) (count : ℕ) : Option (List Request × ℕ) :=
  serdezLoop op load maxXferSize h fuel count data offset [] 0

/-- The loop of `handle_request`: the elements with the offsets at which they are stored.  `none` is the failed
assertion at its end. -/
def unpack : ℕ → Addr → List Byte → ℕ → Option (List (Addr × X))
  | 0, _, _, datalen => if datalen = 0 then some [] else none
  | count + 1, pos, buffer, datalen => do
    let (x, elemntSize) := op.deserialize buffer
    let rest ← unpack count (pos + BitVec.ofNat 64 op.sizeofFieldType) (buffer.drop elemntSize)
      (uint64 ((datalen : ℤ) - elemntSize))
    return (pos, x) :: rest

/-- `RemoteSerdezMessage::handle_request`, up to the sequence id. -/
def handleRequest (r : Request) : Option (List (Addr × X)) := unpack op r.args.count r.args.offset r.data r.data.length

/-- The requests are handled one after the other. -/
def handleAll (reqs : List Request) : Option (List (Addr × X)) := collect (handleRequest op) reqs

end Code

/-! ## What is to be shown -/

/-- `serialize` writes as many bytes as `serialized_size` says, and `deserialize` reads them back. -/
structure SerdezOp.Lawful {X : Type} (op : SerdezOp X) : Prop where
  length : ∀ x, (op.serialize x).length = op.serializedSize x
  readBack : ∀ x rest, op.deserialize (op.serialize x ++ rest) = (x, op.serializedSize x)

section RoundTrip

variable {X : Type} (op : SerdezOp X) (load : Addr → X) (maxXferSize : ℕ)

/-- Element `i` of the field. -/
def elementAt (data : Addr) (i : ℕ) : X := load (data + BitVec.ofNat 64 (i * op.sizeofFieldType))

/-- The copy terminates without a failed assertion, in messages of at most `max_xfer_size` bytes; handled in any order,
they store every element once, at its place; and they are counted. -/
def RoundTrip (h : Header) (fuel : ℕ) (offset data : Addr) (count : ℕ) : Prop :=
  ∃ reqs xfers, doRemoteSerdez op load maxXferSize h fuel offset data count = some (reqs, xfers) ∧
    (∀ r ∈ reqs, r.data.length ≤ maxXferSize) ∧
    (∀ reqs', reqs'.Perm reqs → ∃ stores, handleAll op reqs' = some stores ∧
      stores.Perm ((List.range count).map fun i =>
        (offset + BitVec.ofNat 64 (i * op.sizeofFieldType), elementAt op load data i))) ∧
    xfers = reqs.length

end RoundTrip

/-! ## Elements -/

section Elements

variable {X : Type} (op : SerdezOp X) (load : Addr → X)

/-- `n` elements from `pos` on. -/
def elements (pos : Addr) (n : ℕ) : List X := (List.range n).map (elementAt op load pos)

/-- The sizes of the elements. -/
def sizes (pos : Addr) (n : ℕ) : List ℕ := (elements op load pos n).map op.serializedSize

/-- Where the elements are to be stored. -/
def stores (off pos : Addr) (n : ℕ) : List (Addr × X) :=
  (List.range n).map fun i => (off + BitVec.ofNat 64 (i * op.sizeofFieldType), elementAt op load pos i)

/-- The address of the element behind `a` others. -/
def skip (pos : Addr) (a : ℕ) : Addr := pos + BitVec.ofNat 64 (a * op.sizeofFieldType)

theorem skip_skip (pos : Addr) (a b : ℕ) : skip op (skip op pos a) b = skip op pos (a + b) := by
  rw [skip, skip, skip, Nat.add_mul, BitVec.ofNat_add, BitVec.add_assoc]

theorem skip_one (pos : Addr) : skip op pos 1 = pos + BitVec.ofNat 64 op.sizeofFieldType := by
  rw [skip, Nat.one_mul]

theorem elements_add (pos : Addr) (a b : ℕ) :
    elements op load pos (a + b) = elements op load pos a ++ elements op load (skip op pos a) b := by
  rw [elements, List.range_add, List.map_append, List.map_map, elements, elements]
  congr 1
  apply List.map_congr_left
  intro i _
  exact congrArg load (skip_skip op pos a i).symm

theorem elements_one (pos : Addr) : elements op load pos 1 = [load pos] := by
  simp [elements, elementAt]

theorem stores_add (off pos : Addr) (a b : ℕ) :
    stores op load off pos (a + b) = stores op load off pos a ++ stores op load (skip op off a) (skip op pos a) b := by
  rw [stores, List.range_add, List.map_append, List.map_map, stores, stores]
  congr 1
  apply List.map_congr_left
  intro i _
  exact congrArg₂ Prod.mk (skip_skip op off a i).symm (congrArg load (skip_skip op pos a i).symm)

theorem stores_one (off pos : Addr) : stores op load off pos 1 = [(off, load pos)] := by
  simp [stores, elementAt]

theorem sizes_add (pos : Addr) (a b : ℕ) :
    sizes op load pos (a + b) = sizes op load pos a ++ sizes op load (skip op pos a) b := by
  rw [sizes, elements_add, List.map_append, sizes, sizes]

theorem sizes_one (pos : Addr) : sizes op load pos 1 = [op.serializedSize (load pos)] := by
  rw [sizes, elements_one, List.map_singleton]

theorem sizes_succ (pos : Addr) (n : ℕ) :
    sizes op load pos (n + 1) = op.serializedSize (load pos) :: sizes op load (skip op pos 1) n := by
  rw [Nat.add_comm, sizes_add, sizes_one, List.singleton_append]

end Elements

/-! ## The receiver -/

section Receiver

variable {X : Type} {op : SerdezOp X} {load : Addr → X}

/-- The bytes of `n` elements. -/
def bytes (op : SerdezOp X) (load : Addr → X) (pos : Addr) (n : ℕ) : List Byte :=
  (elements op load pos n).flatMap op.serialize

theorem bytes_add (pos : Addr) (a b : ℕ) :
    bytes op load pos (a + b) = bytes op load pos a ++ bytes op load (skip op pos a) b := by
  rw [bytes, elements_add, List.flatMap_append, bytes, bytes]

theorem bytes_one (pos : Addr) : bytes op load pos 1 = op.serialize (load pos) := by
  rw [bytes, elements_one, List.flatMap_singleton]

theorem length_bytes (hop : op.Lawful) (pos : Addr) (n : ℕ) :
    (bytes op load pos n).length = (sizes op load pos n).sum := by
  rw [bytes, List.length_flatMap, sizes]
  congr 1
  exact List.map_congr_left fun x _ => hop.length x

/-- **The receiver finds the boundaries again.** -/
theorem unpack_bytes (hop : op.Lawful) (off pos : Addr) {n : ℕ} (hlt : (bytes op load pos n).length < 2 ^ 64) :
    unpack op n off (bytes op load pos n) (bytes op load pos n).length = some (stores op load off pos n) := by
  induction n generalizing off pos with
  | zero => rfl
  | succ n ih =>
    have hsplit : bytes op load pos (n + 1) = op.serialize (load pos) ++ bytes op load (skip op pos 1) n := by
      rw [Nat.add_comm, bytes_add, bytes_one]
    have hlen : (bytes op load pos (n + 1)).length =
        op.serializedSize (load pos) + (bytes op load (skip op pos 1) n).length := by
      rw [hsplit, List.length_append, hop.length]
    have hleft : uint64 (((bytes op load pos (n + 1)).length : ℤ) - op.serializedSize (load pos)) =
        (bytes op load (skip op pos 1) n).length := by
      have := uint64_eq_self (x := ((bytes op load (skip op pos 1) n).length : ℤ)) (by omega) (by omega)
      rw [hlen, Nat.cast_add, add_sub_cancel_left]
      omega
    have hdrop : (bytes op load pos (n + 1)).drop (op.serializedSize (load pos)) = bytes op load (skip op pos 1) n := by
      rw [hsplit, ← hop.length, List.drop_left]
    have hread : op.deserialize (bytes op load pos (n + 1)) = (load pos, op.serializedSize (load pos)) := by
      rw [hsplit]
      exact hop.readBack _ _
    rw [unpack, hread]
    dsimp only
    rw [hleft, hdrop, ← skip_one, ih _ _ (by omega), Nat.add_comm n 1, stores_add, stores_one, skip_one]
    rfl

end Receiver

/-! ## The sender -/

section Sender

variable {X : Type} {op : SerdezOp X} {load : Addr → X} {maxXferSize : ℕ}

/-- The elements fit into a message one by one. -/
def Fits (op : SerdezOp X) (load : Addr → X) (maxXferSize : ℕ) (pos : Addr) (n : ℕ) : Prop :=
  ∀ s ∈ sizes op load pos n, 1 ≤ s ∧ s ≤ maxXferSize

/-- **The inner loop** takes `k` elements, as many as fit, and leaves `b` for the next messages. -/
theorem pack_spec (hmax : maxXferSize < 2 ^ 63) {count : ℕ} {pos : Addr} (hfits : Fits op load maxXferSize pos count)
    (newOffset : Addr) {curSize : ℕ} (hcur : curSize ≤ maxXferSize) (curCount : ℕ) (buffer : List Byte) :
    ∃ k b, count = k + b ∧
      pack op load maxXferSize count pos newOffset curSize curCount buffer =
        ⟨b, skip op pos k, skip op newOffset k, curSize + (sizes op load pos k).sum, curCount + k,
          buffer ++ bytes op load pos k⟩ ∧
      curSize + (sizes op load pos k).sum ≤ maxXferSize ∧
      further maxXferSize curSize (sizes op load pos count) = boxes maxXferSize (sizes op load (skip op pos k) b) := by
  induction count generalizing pos newOffset curSize curCount buffer with
  | zero => exact ⟨0, 0, rfl, by simp [pack, skip, sizes, elements, bytes], hcur, rfl⟩
  | succ count ih =>
    unfold Fits at hfits
    rw [sizes_succ] at hfits
    obtain ⟨hfirst, hrest⟩ := List.forall_mem_cons.mp hfits
    rw [pack, sizes_succ, further, Nat.mod_eq_of_lt (by omega)]
    by_cases hroom : curSize + op.serializedSize (load pos) ≤ maxXferSize
    · obtain ⟨k, b, hsum, hpack, hle, hfurther⟩ := ih hrest (newOffset + BitVec.ofNat 64 op.sizeofFieldType) hroom
        (curCount + 1) (buffer ++ op.serialize (load pos))
      have hsizes : (sizes op load pos (k + 1)).sum =
          op.serializedSize (load pos) + (sizes op load (skip op pos 1) k).sum := by
        rw [sizes_succ, List.sum_cons]
      refine ⟨k + 1, b, by omega, ?_, by omega, ?_⟩
      · rw [if_neg (by omega), ← skip_one, hpack, ← skip_one, skip_skip, skip_skip, hsizes, Nat.add_assoc,
          Nat.add_assoc, Nat.add_comm 1 k, List.append_assoc, Nat.add_comm k 1, bytes_add, bytes_one]
      · rw [if_pos hroom, hfurther, skip_skip, Nat.add_comm 1 k]
    · refine ⟨0, count + 1, by omega, ?_, by simpa [sizes, elements] using hcur, ?_⟩
      · rw [if_pos (by omega)]
        simp [skip, sizes, elements, bytes]
      · have hzero : skip op pos 0 = pos := by simp [skip]
        rw [if_neg hroom, hzero, sizes_succ, boxes, if_neg (List.cons_ne_nil _ _), further, if_pos (by omega),
          Nat.zero_add]

theorem fits_add {pos : Addr} {a b : ℕ} (h : Fits op load maxXferSize pos (a + b)) :
    Fits op load maxXferSize pos a ∧ Fits op load maxXferSize (skip op pos a) b := by
  unfold Fits at h
  rw [sizes_add] at h
  exact List.forall_mem_append.mp h

/-- The first message, and what it leaves. -/
theorem pack_first (hmax : maxXferSize < 2 ^ 63) {count : ℕ} {pos : Addr}
    (hfits : Fits op load maxXferSize pos (count + 1)) (offset : Addr) :
    ∃ k b, count + 1 = k + b ∧ 0 < k ∧
      pack op load maxXferSize (count + 1) pos offset 0 0 [] =
        ⟨b, skip op pos k, skip op offset k, (sizes op load pos k).sum, k, bytes op load pos k⟩ ∧
      0 < (sizes op load pos k).sum ∧ (sizes op load pos k).sum ≤ maxXferSize ∧
      boxes maxXferSize (sizes op load pos (count + 1)) = 1 + boxes maxXferSize (sizes op load (skip op pos k) b) := by
  obtain ⟨k, b, hsum, hpack, hle, hfurther⟩ := pack_spec hmax hfits offset (Nat.zero_le _) 0 []
  have hboxes : boxes maxXferSize (sizes op load pos (count + 1)) =
      1 + further maxXferSize 0 (sizes op load pos (count + 1)) := by
    rw [boxes, if_neg]
    rw [sizes_succ]
    exact List.cons_ne_nil _ _
  -- with nothing taken the next message would have to be as hard as this one
  have hk : k ≠ 0 := by
    rintro rfl
    have hzero : skip op pos 0 = pos := by simp [skip]
    rw [Nat.zero_add] at hsum
    rw [hzero, ← hsum, hboxes] at hfurther
    omega
  obtain ⟨k, rfl⟩ := Nat.exists_eq_succ_of_ne_zero hk
  have hfirst : 1 ≤ op.serializedSize (load pos) := by
    have hmem : op.serializedSize (load pos) ∈ sizes op load pos (count + 1) := by
      rw [sizes_succ]
      exact List.mem_cons_self
    exact (hfits _ hmem).1
  have hpos : 0 < (sizes op load pos (k + 1)).sum := by
    rw [sizes_succ, List.sum_cons]
    omega
  refine ⟨k + 1, b, hsum, Nat.succ_pos k, ?_, hpos, by simpa using hle, by rw [hboxes, hfurther]⟩
  rw [hpack, Nat.zero_add, Nat.zero_add, List.nil_append]

/-- **The outer loop**: as many messages as boxes, each within the limit, that carry all the elements. -/
theorem serdezLoop_spec (hop : op.Lawful) (hmax : maxXferSize < 2 ^ 63) (h : Header) {fuel count : ℕ}
    (hfuel : count < fuel) {pos : Addr} (hfits : Fits op load maxXferSize pos count) (offset : Addr)
    (sent : List Request) (xfers : ℕ) (hxfers : xfers < 2 ^ 32) :
    ∃ reqs, serdezLoop op load maxXferSize h fuel count pos offset sent xfers =
        some (sent ++ reqs, (xfers + reqs.length) % 2 ^ 32) ∧
      reqs.length = boxes maxXferSize (sizes op load pos count) ∧
      (∀ r ∈ reqs, r.data.length ≤ maxXferSize) ∧
      handleAll op reqs = some (stores op load offset pos count) := by
  induction fuel generalizing count pos offset sent xfers with
  | zero => omega
  | succ fuel ih =>
    cases count with
    | zero =>
      refine ⟨[], ?_, rfl, by simp, rfl⟩
      rw [serdezLoop, List.append_nil, List.length_nil, Nat.add_zero, Nat.mod_eq_of_lt hxfers]
    | succ count =>
      obtain ⟨k, b, hsum, hk, hpack, hpos, hle, hboxes⟩ := pack_first hmax hfits offset
      rw [hsum] at hfits
      obtain ⟨reqs, hloop, hlen, hdata, hhandled⟩ := ih (by omega) (fits_add hfits).2 (skip op offset k)
        (sent ++ [⟨h.ownerNode, ⟨h.mem, offset, k, h.serdezId, h.myNodeId, h.sequenceId⟩, bytes op load pos k⟩])
        ((xfers + 1) % 2 ^ 32) (Nat.mod_lt _ (by decide))
      have hbytes : (bytes op load pos k).length ≤ maxXferSize := by
        rw [length_bytes hop]
        exact hle
      refine ⟨⟨h.ownerNode, ⟨h.mem, offset, k, h.serdezId, h.myNodeId, h.sequenceId⟩, bytes op load pos k⟩ :: reqs,
        ?_, ?_, ?_, ?_⟩
      · rw [serdezLoop, hpack, if_neg hpos.ne', hloop, List.append_assoc, List.singleton_append, List.length_cons,
          Nat.mod_add_mod, Nat.add_assoc, Nat.add_comm 1]
      · rw [List.length_cons, hlen, hboxes, Nat.add_comm]
      · exact List.forall_mem_cons.mpr ⟨hbytes, hdata⟩
      · rw [hsum, stores_add]
        exact collect_cons_eq_some.mpr ⟨_, _, unpack_bytes (n := k) hop offset pos (by omega), hhandled, rfl⟩

/-- Only the count can be wrong. -/
theorem roundTrip_iff_boxes (hop : op.Lawful) (hmax : maxXferSize < 2 ^ 63) (h : Header) {fuel count : ℕ}
    (hfuel : count < fuel) {data : Addr} (hfits : Fits op load maxXferSize data count) (offset : Addr) :
    RoundTrip op load maxXferSize h fuel offset data count ↔
      boxes maxXferSize (sizes op load data count) < 2 ^ 32 := by
  obtain ⟨reqs, hloop, hlen, hdata, hhandled⟩ :=
    serdezLoop_spec hop hmax h hfuel hfits offset [] 0 (by decide)
  rw [List.nil_append, Nat.zero_add] at hloop
  rw [← hlen, ← Nat.mod_eq_iff_lt (by decide)]
  constructor
  · rintro ⟨reqs', xfers, hrun, -, -, hcount⟩
    obtain ⟨rfl, rfl⟩ := Prod.mk.inj (Option.some.inj (hloop.symm.trans hrun))
    exact hcount
  · intro hcount
    refine ⟨reqs, _, hloop, hdata, fun reqs' hp => ?_, hcount⟩
    exact collect_perm hp hhandled

end Sender

/-- **The round trip succeeds if and only if** the elements can be divided into fewer than `2 ^ 32` runs that each fit
into a message: then the messages are few enough to be counted by an `unsigned`.  The buffer comes from `malloc`, which
has no blocks of `2 ^ 63` bytes. -/
theorem serdez_roundTrip_iff {X : Type} {op : SerdezOp X} (hop : op.Lawful) {load : Addr → X} {maxXferSize : ℕ}
    (hmax : maxXferSize < 2 ^ 63) (h : Header) {fuel count : ℕ} (hfuel : count < fuel) {data : Addr}
    (hsize : ∀ i < count, 1 ≤ op.serializedSize (elementAt op load data i) ∧
      op.serializedSize (elementAt op load data i) ≤ maxXferSize) (offset : Addr) :
    RoundTrip op load maxXferSize h fuel offset data count ↔
      ∃ runs : List (List ℕ),
        runs.flatten = (List.range count).map (fun i => op.serializedSize (elementAt op load data i)) ∧
        runs.length < 2 ^ 32 ∧ ∀ r ∈ runs, r.sum ≤ maxXferSize := by
  have hsizes : (List.range count).map (fun i => op.serializedSize (elementAt op load data i)) =
      sizes op load data count := by
    rw [sizes, elements, List.map_map]
    rfl
  have hfits : Fits op load maxXferSize data count := by
    intro s hs
    rw [← hsizes] at hs
    obtain ⟨i, hi, rfl⟩ := List.mem_map.mp hs
    exact hsize i (List.mem_range.mp hi)
  rw [roundTrip_iff_boxes hop hmax h hfuel hfits, hsizes, ← Nat.le_sub_one_iff_lt (by decide),
    boxes_le_iff fun s hs => (hfits s hs).2]
  refine exists_congr fun runs => and_congr_right fun _ => and_congr_left fun _ => ?_
  exact Nat.le_sub_one_iff_lt (by decide)

/-- Bytes that are sent as they are. -/
def byteSerdez : SerdezOp Byte where
  sizeofFieldType := 1
  serializedSize _ := 1
  serialize x := [x]
  deserialize buffer := (buffer.headD 0, 1)

theorem byteSerdez_lawful : byteSerdez.Lawful := ⟨fun _ => rfl, fun _ _ => rfl⟩

/-- Three bytes in messages of two. -/
theorem serdez_roundTrip_three : RoundTrip byteSerdez (fun a => a.setWidth 8) 2 ⟨7, 1, 0, 5, 9⟩ 4 64 4096 3 := by
  have hsize : ∀ i < 3, 1 ≤ byteSerdez.serializedSize (elementAt byteSerdez (fun a => a.setWidth 8) 4096 i) ∧
      byteSerdez.serializedSize (elementAt byteSerdez (fun a => a.setWidth 8) 4096 i) ≤ 2 :=
    fun _ _ => ⟨le_refl 1, Nat.le_succ 1⟩
  refine (serdez_roundTrip_iff byteSerdez_lawful (by decide) _ (by decide) hsize _).mpr ?_
  exact ⟨[[1, 1], [1]], rfl, by decide, by decide⟩

/-- `2 ^ 32` bytes in messages of one: `xfers` wraps to `0`. -/
theorem serdez_count_wraps :
    ¬ RoundTrip byteSerdez (fun _ => 0) 1 ⟨7, 1, 0, 5, 9⟩ (2 ^ 32 + 1) 64 4096 (2 ^ 32) := by
  have hsizes : sizes byteSerdez (fun _ => 0) 4096 (2 ^ 32) = List.replicate (2 ^ 32) 1 := by
    rw [sizes, List.eq_replicate_iff]
    refine ⟨by rw [List.length_map, elements, List.length_map, List.length_range], fun s hs => ?_⟩
    obtain ⟨x, -, rfl⟩ := List.mem_map.mp hs
    rfl
  have hfits : Fits byteSerdez (fun _ => 0) 1 4096 (2 ^ 32) := by
    intro s hs
    rw [hsizes] at hs
    rw [List.eq_of_mem_replicate hs]
    exact ⟨le_refl 1, le_refl 1⟩
  rw [roundTrip_iff_boxes byteSerdez_lawful (by decide) _ (by decide) hfits, hsizes]
  -- a message holds one byte
  have hfurther : ∀ n, further 1 1 (List.replicate n 1) = n := by
    intro n
    induction n with
    | zero => rfl
    | succ n ih => rw [List.replicate_succ, further, if_neg (by decide), ih, Nat.add_comm]
  have hboxes : ∀ n, n ≠ 0 → boxes 1 (List.replicate n 1) = n := by
    intro n hn
    obtain ⟨k, rfl⟩ := Nat.exists_eq_succ_of_ne_zero hn
    rw [List.replicate_succ, boxes, if_neg (List.cons_ne_nil _ _), further, if_pos (by decide), hfurther, Nat.add_comm]
  rw [hboxes _ (by decide)]
  exact lt_irrefl _

end Realm.Serdez

import Realm.Lib.Cells
import Realm.Endpoint.Basic

/-!
# Realm.Endpoint.Payload — payload sources (`templates/activemsg_payload.cc`)

A payload is described by where its bytes lie in the memory of the sender; they are read when `copy_data`
is called.

* `PayloadSource`: the classes `ContiguousPayload`, `TwoDPayload` and `SpanPayload`.
* `copyData`: the bytes that `copy_data` writes to its destination, `none` if one of its assertions fails.
* `length`, `copyData_length`: how many they are.
* `getPayloadMode`, `getContigPointer`: the virtual functions that most classes inherit.
* `Reads`, `copyData_congr`: the part of the memory that the bytes come from.
-/

namespace Realm

open Lib

abbrev Byte := BitVec 8

instance : Nontrivial Byte := ⟨0, 1, by decide⟩

/-- A pointer, also one that was computed with wraparound. -/
abbrev Addr := BitVec 64

/-- The memory of a process. -/
abbrev Memory := Addr → Byte

/-- A `SpanList`: where each span starts and how long it is. -/
abbrev SpanList := List (Addr × ℕ)

namespace SpanList

def total (spans : SpanList) : ℕ := (spans.map Prod.snd).sum

/-- The bytes of the spans, in the order of the list. -/
def bytes (m : Memory) (spans : SpanList) : List Byte := spans.flatMap fun s => cellsAt m s.1 s.2

@[simp] theorem total_nil : total [] = 0 := rfl

@[simp] theorem total_cons (s : Addr × ℕ) (spans : SpanList) : total (s :: spans) = s.2 + total spans := by
  simp [total]

@[simp] theorem total_append (a b : SpanList) : total (a ++ b) = total a + total b := by
  simp [total]

@[simp] theorem bytes_nil (m : Memory) : bytes m [] = [] := rfl

@[simp] theorem bytes_cons (m : Memory) (s : Addr × ℕ) (spans : SpanList) :
    bytes m (s :: spans) = cellsAt m s.1 s.2 ++ bytes m spans := rfl

@[simp] theorem bytes_append (m : Memory) (a b : SpanList) : bytes m (a ++ b) = bytes m a ++ bytes m b := by
  simp [bytes]

@[simp] theorem length_bytes (m : Memory) (spans : SpanList) : (bytes m spans).length = total spans := by
  induction spans with
  | nil => rfl
  | cons s spans ih => simp [ih]

end SpanList

inductive PayloadSource
  | contiguous (srcptr : Addr) (size : ℕ) (mode : PayloadMode)
  | twoD (srcptr : Addr) (lineSize lineCount : ℕ) (lineStride : Addr) (mode : PayloadMode)
  | span (spans : SpanList) (size : ℕ) (mode : PayloadMode)
deriving DecidableEq

namespace PayloadSource

/-- `TwoDPayload::copy_data`: `src_c` after `i` lines is the argument. -/
def copyLines (m : Memory) (lineSize : ℕ) (lineStride : Addr) : ℕ → Addr → List Byte
  | 0, _ => []
  | left + 1, srcC => cellsAt m srcC lineSize ++ copyLines m lineSize lineStride left (srcC + lineStride)

/-- `SpanPayload::copy_data`: every span has to fit into `bytes_left`, and nothing may be left. -/
def copySpans (m : Memory) : ℕ → SpanList → Option (List Byte)
  | bytesLeft, [] => if bytesLeft = 0 then some [] else none
  | bytesLeft, (p, n) :: spans =>
    if n ≤ bytesLeft then (copySpans m (bytesLeft - n) spans).map (cellsAt m p n ++ ·) else none

def copyData (m : Memory) : PayloadSource → Option (List Byte)
  | contiguous srcptr size _ => some (cellsAt m srcptr size)
  | twoD srcptr lineSize lineCount lineStride _ => some (copyLines m lineSize lineStride lineCount srcptr)
  | span spans size _ => copySpans m size spans

def length : PayloadSource → ℕ
  | contiguous _ size _ => size
  | twoD _ lineSize lineCount _ _ => lineSize * lineCount
  | span _ size _ => size

/-- `get_payload_mode`; only `ContiguousPayload` overrides that of the base class. -/
def getPayloadMode : PayloadSource → PayloadMode
  | contiguous _ _ mode => mode
  | twoD .. => .keep
  | span .. => .keep

/-- `get_contig_pointer`; `none` is the failed assertion of the base class. -/
def getContigPointer : PayloadSource → Option Addr
  | contiguous srcptr _ _ => some srcptr
  | twoD .. => none
  | span .. => none

theorem copyLines_eq_gather (m : Memory) (lineSize : ℕ) (lineStride : Addr) (n : ℕ) (p : Addr) :
    copyLines m lineSize lineStride n p = gather m p lineSize lineStride n := by
  induction n generalizing p with
  | zero => rfl
  | succ n ih => rw [copyLines, gather, ih]

/-- A span payload is well formed exactly when its size is the total of its spans. -/
theorem copySpans_eq (m : Memory) (spans : SpanList) (size : ℕ) :
    copySpans m size spans = if size = spans.total then some (spans.bytes m) else none := by
  induction spans generalizing size with
  | nil => rfl
  | cons s spans ih =>
    obtain ⟨p, n⟩ := s
    rw [copySpans]
    by_cases hn : n ≤ size
    · rw [if_pos hn, ih]
      by_cases htot : size - n = SpanList.total spans
      · have hsize : size = SpanList.total ((p, n) :: spans) := by
          simp only [SpanList.total_cons]
          omega
        rw [if_pos htot, if_pos hsize]
        rfl
      · have hsize : size ≠ SpanList.total ((p, n) :: spans) := by
          simp only [SpanList.total_cons]
          omega
        rw [if_neg htot, if_neg hsize]
        rfl
    · have hsize : size ≠ SpanList.total ((p, n) :: spans) := by
        simp only [SpanList.total_cons]
        omega
      rw [if_neg hn, if_neg hsize]

theorem copyData_length {m : Memory} {src : PayloadSource} {bs : List Byte} (h : src.copyData m = some bs) :
    bs.length = src.length := by
  cases src with
  | contiguous srcptr size mode =>
    obtain rfl := Option.some.inj h
    exact length_cellsAt m srcptr size
  | twoD srcptr lineSize lineCount lineStride mode =>
    obtain rfl := Option.some.inj h
    rw [copyLines_eq_gather]
    exact length_gather m srcptr lineSize lineStride lineCount
  | span spans size mode =>
    simp only [copyData, copySpans_eq] at h
    split at h
    · rename_i hsize
      obtain rfl := Option.some.inj h
      rw [SpanList.length_bytes, ← hsize]
      rfl
    · simp at h

/-- The addresses that `copy_data` reads. -/
def Reads : PayloadSource → Addr → Prop
  | contiguous srcptr size _, a => InCells srcptr size a
  | twoD srcptr lineSize lineCount lineStride _, a =>
    ∃ i < lineCount, InCells (srcptr + lineStride * BitVec.ofNat 64 i) lineSize a
  | span spans _ _, a => ∃ s ∈ spans, InCells s.1 s.2 a

/-- The copy depends on these only. -/
theorem copyData_congr {m m' : Memory} {src : PayloadSource} (h : ∀ a, src.Reads a → m' a = m a) :
    src.copyData m' = src.copyData m := by
  cases src with
  | contiguous srcptr size mode => exact congrArg some (cellsAt_congr h)
  | twoD srcptr lineSize lineCount lineStride mode =>
    simp only [copyData, copyLines_eq_gather]
    exact congrArg some (gather_congr fun a i hi ha => h a ⟨i, hi, ha⟩)
  | span spans size mode =>
    have hbytes : SpanList.bytes m' spans = SpanList.bytes m spans :=
      List.flatMap_congr fun s hs => cellsAt_congr fun a ha => h a ⟨s, hs, ha⟩
    simp only [copyData, copySpans_eq, hbytes]

end PayloadSource

end Realm

import Realm.Lib.Run
import Realm.Lib.SortedMap
import Realm.Lib.Span

/-!
# Realm.SrcDataPool.Basic — the source-data pool (`templates/activemsg_srcdatapool.cc`)

The pool hands out spans of registered memory to outgoing messages.  `M` is the type of the
`OutgoingMessage *` handles and `payloadSize` reads `msg->payload_size`; the pool looks at nothing else of
a message.  Addresses and sizes are natural numbers, the null pointer is `0`, and `none` stands for a
failed assertion.

* `allocSrcptr`, `addPending`, `releaseSrcptr`: the three operations, each under the pool's lock.
* `reserveSrcdata`: the locked part of `OutgoingMessage::reserve_srcdata` (`macros_impl/srcdatapool.def`).
* `Trace`: the pool with the history that statements about owners and waiters need; `step` runs one
  operation.
-/

namespace Realm

open Lib

/-- `std::map<char *, size_t>`: start address to size. -/
abbrev SpanMap := SortedMap ℕ ℕ

structure SrcDataPool (M : Type) where
  totalSize : ℕ
  freeList : SpanMap
  pendingAllocations : List M
  inUse : SpanMap

namespace SrcDataPool

variable {M : Type}

/-- The constructor: one free span. -/
def init (base size : ℕ) : SrcDataPool M where
  totalSize := size
  freeList := .singleton base size
  pendingAllocations := []
  inUse := .empty

def blockSize : ℕ := 64

def roundUpSize (size : ℕ) : ℕ :=
  let remainder := size % blockSize
  if remainder ≠ 0 then size + (blockSize - remainder) else size

/-! ## Allocation -/

/-- Outcome of the walk over the free list: an exact match, or the `smallest_upper_bound` at its end. -/
inductive Fit
  | exact (srcptr : ℕ)
  | upper (smallestUpperBound : ℕ)
deriving DecidableEq

/-- The `while` loop of `alloc_srcptr`, with its two running variables. -/
def walk (sizeNeeded : ℕ) : List Span → ℕ → ℕ → Fit
  | [], smallestUpperBound, _ => .upper smallestUpperBound
  | it :: rest, smallestUpperBound, smallestUpperSize =>
    if it.2 = sizeNeeded then .exact it.1
    else if sizeNeeded < it.2 then
      -- match with some left over
      if smallestUpperBound = 0 then walk sizeNeeded rest it.1 it.2
      else if it.2 < smallestUpperSize then walk sizeNeeded rest it.1 it.2
      else walk sizeNeeded rest smallestUpperBound smallestUpperSize
    else walk sizeNeeded rest smallestUpperBound smallestUpperSize

def allocSrcptr (s : SrcDataPool M) (sizeNeeded : ℕ) : Option (ℕ × SrcDataPool M) :=
  if s.totalSize < sizeNeeded then none
  else if s.pendingAllocations ≠ [] then some (0, s)
  else
    let sizeNeeded := roundUpSize sizeNeeded
    match walk sizeNeeded s.freeList.entries 0 0 with
    | .exact srcptr =>
      some (srcptr, { s with freeList := s.freeList.erase srcptr, inUse := s.inUse.set srcptr sizeNeeded })
    | .upper smallestUpperBound =>
      if smallestUpperBound ≠ 0 then do
        let size ← s.freeList.find smallestUpperBound
        -- the high end of the span is handed out
        let srcptr := smallestUpperBound + (size - sizeNeeded)
        return (srcptr, { s with
          freeList := s.freeList.set smallestUpperBound (size - sizeNeeded)
          inUse := s.inUse.set srcptr sizeNeeded })
      else some (0, s)

def addPending (payloadSize : M → ℕ) (s : SrcDataPool M) (msg : M) : Option (SrcDataPool M) :=
  if s.totalSize < payloadSize msg then none
  else some { s with pendingAllocations := s.pendingAllocations ++ [msg] }

/-! ## Release -/

/-- "look below first": the free spans in front of the released one, nearest first. -/
def mergeBelow : List Span → ℕ → ℕ → List Span × ℕ × ℕ
  | [], srcptr, size => ([], srcptr, size)
  | below :: rest, srcptr, size =>
    if below.1 + below.2 ≠ srcptr then (below :: rest, srcptr, size)
    else mergeBelow rest below.1 (size + below.2)

/-- "now look above": the free spans behind the released one, nearest first. -/
def mergeAbove : List Span → ℕ → ℕ → List Span × ℕ
  | [], _, size => ([], size)
  | above :: rest, srcptr, size =>
    if srcptr + size ≠ above.1 then (above :: rest, size)
    else mergeAbove rest srcptr (size + above.2)

theorem mergeBelow_suffix (l : List Span) (p n : ℕ) : (mergeBelow l p n).1 <:+ l := by
  induction l generalizing p n with
  | nil => exact List.suffix_rfl
  | cons x l ih =>
    unfold mergeBelow
    split_ifs with h
    · exact List.suffix_rfl
    · exact (ih _ _).trans (List.suffix_cons x l)

theorem mergeAbove_suffix (l : List Span) (p n : ℕ) : (mergeAbove l p n).1 <:+ l := by
  induction l generalizing n with
  | nil => exact List.suffix_rfl
  | cons x l ih =>
    unfold mergeAbove
    split_ifs with h
    · exact List.suffix_rfl
    · exact (ih _).trans (List.suffix_cons x l)

/-- The free list without the spans that a released span absorbs, and the merged span. -/
structure Absorbed where
  freeList : SpanMap
  srcptr : ℕ
  size : ℕ

/-- "see if we can absorb any adjacent ranges". -/
def absorb (fl : SpanMap) (srcptr size : ℕ) : Absorbed :=
  let lo := mergeBelow (fl.below srcptr).reverse srcptr size
  let hi := mergeAbove (fl.above srcptr) lo.2.1 lo.2.2
  { freeList := fl.restrict (lo.1.reverse ++ hi.1) (by
      have hlo : lo.1.reverse.Sublist (fl.below srcptr) := by
        have h := (mergeBelow_suffix (fl.below srcptr).reverse srcptr size).sublist.reverse
        rwa [List.reverse_reverse] at h
      have hhi : hi.1.Sublist (fl.above srcptr) := (mergeAbove_suffix _ _ _).sublist
      rw [← fl.below_append_above srcptr]
      exact hlo.append hhi)
    srcptr := lo.2.1
    size := hi.2 }

/-- "now see if we can satisfy any other pending allocations".  Every iteration that does not break pops
one waiter, so the length of the queue bounds the iterations. -/
def servePending (payloadSize : M → ℕ) :
    ℕ → SrcDataPool M → List (M × ℕ) → Option (SrcDataPool M × List (M × ℕ))
  | 0, s, satisfied => some (s, satisfied)
  | fuel + 1, s, satisfied =>
    match s.pendingAllocations with
    | [] => some (s, satisfied)
    | msg :: _ => do
      let (ptr, s') ← s.allocSrcptr (payloadSize msg)
      if ptr = 0 then return (s', satisfied)
      else
        servePending payloadSize fuel
          { s' with pendingAllocations := s'.pendingAllocations.tail } (satisfied ++ [(msg, ptr)])

/-- The locked part of `release_srcptr`, with the `satisfied` list it hands to
`assign_srcdata_pointer` after the unlock. -/
def releaseSrcptr (payloadSize : M → ℕ) (s : SrcDataPool M) (srcptr : ℕ) :
    Option (SrcDataPool M × List (M × ℕ)) := do
  let size ← s.inUse.find srcptr
  let s := { s with inUse := s.inUse.erase srcptr }
  if (s.freeList.find srcptr).isSome then none
  else
    let a := absorb s.freeList srcptr size
    match s.pendingAllocations with
    | msg :: rest =>
      if payloadSize msg ≤ a.size then
        let actSize := roundUpSize (payloadSize msg)
        let s := { s with
          pendingAllocations := rest
          inUse := s.inUse.set a.srcptr actSize
          -- was anything left?
          freeList := if actSize < a.size then a.freeList.set (a.srcptr + actSize) (a.size - actSize)
            else a.freeList }
        servePending payloadSize rest.length s [(msg, a.srcptr)]
      else some ({ s with freeList := a.freeList.set a.srcptr a.size }, [])
    | [] => some ({ s with freeList := a.freeList.set a.srcptr a.size }, [])

/-- `reserve_srcdata` under the pool lock: allocate, or queue up; the returned pointer is `0` in the
second case. -/
def reserveSrcdata (payloadSize : M → ℕ) (s : SrcDataPool M) (msg : M) :
    Option (ℕ × SrcDataPool M) := do
  let (srcptr, s') ← s.allocSrcptr (payloadSize msg)
  if srcptr ≠ 0 then return (srcptr, s')
  else
    let s'' ← addPending payloadSize s' msg
    return (0, s'')

end SrcDataPool

/-! ## Sequences of operations -/

namespace SrcDataPool

variable {M : Type}

inductive Op (M : Type)
  | reserve (msg : M)
  | release (srcptr : ℕ)

/-- A pool with its history: the pointers handed out and not yet released, every message that had to
wait, and the waiters that were given a span with that span, both in order. -/
structure Trace (M : Type) where
  pool : SrcDataPool M
  owners : List (M × ℕ)
  waited : List M
  served : List (M × ℕ)

namespace Trace

def init (base size : ℕ) : Trace M := ⟨.init base size, [], [], []⟩

variable (payloadSize : M → ℕ)

def step (t : Trace M) : Op M → Option (Trace M)
  | .reserve msg => do
    let (srcptr, pool) ← t.pool.reserveSrcdata payloadSize msg
    if srcptr ≠ 0 then return { t with pool := pool, owners := t.owners ++ [(msg, srcptr)] }
    else return { t with pool := pool, waited := t.waited ++ [msg] }
  | .release srcptr => do
    let (pool, satisfied) ← t.pool.releaseSrcptr payloadSize srcptr
    return { t with
      pool := pool
      owners := t.owners.filter (fun o => o.2 ≠ srcptr) ++ satisfied
      served := t.served ++ satisfied }

/-- What the callers promise: payloads of size `1..total_size`, and only pointers in use are released. -/
def Allowed (t : Trace M) : Op M → Prop
  | .reserve msg => 0 < payloadSize msg ∧ payloadSize msg ≤ t.pool.totalSize
  | .release srcptr => ∃ size, (srcptr, size) ∈ t.pool.inUse

end Trace

end SrcDataPool

end Realm

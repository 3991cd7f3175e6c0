import CustomMalloc.Os
import CustomMalloc.Page

/-!
# Segments and the segment registry (`segment.c`)

The registry is an open-addressing hash set of segment bases with `0` as the
empty marker. Its loops try the slots `(idx + i) & 255` for `i = 0, 1, ...`; the
first argument of the recursive functions counts the probes left. Registering
in a full table returns without a word.
-/

namespace CustomMalloc

open Lib.Bytes

/-- `seg_hash`. -/
def segHash (addr : Nat) : Nat := addr / segmentSize % segmentRegistrySize

/-- The slot of the probe that has `left` more after it. -/
def probeSlot (idx left : Nat) : Nat :=
  (idx + (segmentRegistrySize - 1 - left)) % segmentRegistrySize

/-- The loop of `segment_register`. -/
def segmentRegisterLoop (reg : Nat → Nat) (base idx : Nat) : Nat → (Nat → Nat)
  | 0 => reg
  | left + 1 =>
    let slot := probeSlot idx left
    if reg slot = 0 then upd reg slot base
    else if reg slot = base then reg
    else segmentRegisterLoop reg base idx left

/-- `segment_register`. -/
def segmentRegister (reg : Nat → Nat) (base : Nat) : Nat → Nat :=
  segmentRegisterLoop reg base (segHash base) segmentRegistrySize

/-- The loop of `segment_unregister`. -/
def segmentUnregisterLoop (reg : Nat → Nat) (base idx : Nat) : Nat → (Nat → Nat)
  | 0 => reg
  | left + 1 =>
    let slot := probeSlot idx left
    if reg slot = base then upd reg slot 0
    else if reg slot = 0 then reg
    else segmentUnregisterLoop reg base idx left

/-- `segment_unregister`. -/
def segmentUnregister (reg : Nat → Nat) (base : Nat) : Nat → Nat :=
  segmentUnregisterLoop reg base (segHash base) segmentRegistrySize

/-- The loop of `segment_is_registered`. -/
def segmentIsRegisteredLoop (reg : Nat → Nat) (base idx : Nat) : Nat → Bool
  | 0 => false
  | left + 1 =>
    let slot := probeSlot idx left
    if reg slot = base then true
    else if reg slot = 0 then false
    else segmentIsRegisteredLoop reg base idx left

/-- `segment_is_registered`. -/
def segmentIsRegistered (reg : Nat → Nat) (base : Nat) : Bool :=
  segmentIsRegisteredLoop reg base (segHash base) segmentRegistrySize

/-- Page metadata as `segment_create` leaves it: all zero but for the fields that
identify the page, with page 0 reserved for the header. -/
def freshPage (seg arena idx : Nat) : PageMeta :=
  { arena := arena, segment := seg, pageIndex := idx, state := if idx = 0 then .full else .unused }

/-- `segment_create`; the result `0` is `NULL`. -/
def segmentCreate (c : Cfg) (s : State) (arena : Nat) : Nat × State :=
  match osMmapAligned c s segmentSize segmentSize with
  | (mem, s) =>
    if mem = 0 then (0, s)
    else
      (mem, { s with
        segs := upd s.segs mem (some { pagesUsed := 0, arena := arena, next := none, prev := none })
        pages := fun r => if r.seg = mem then freshPage mem arena r.idx else s.pages r
        segmentRegistry := segmentRegister s.segmentRegistry mem })

/-- The first unused data page of a segment: the loop of `segment_alloc_page`. -/
def unusedPage (s : State) (seg : Nat) : Option Nat :=
  (List.range' pagesDataStart (pagesPerSegment - pagesDataStart)).find? fun i =>
    (s.pages ⟨seg, i⟩).state == .unused

/-- `segment_alloc_page`. -/
def segmentAllocPage (s : State) (seg bin : Nat) : Option PageRef × State :=
  match s.segs seg, unusedPage s seg with
  | some g, some i =>
    let slotSize := binToSize sizeTables bin
    let s := s.setPage ⟨seg, i⟩ (pageInit (s.pages ⟨seg, i⟩) seg g.arena i bin slotSize)
    (some ⟨seg, i⟩,
      { s with segs := upd s.segs seg (some { g with pagesUsed := (g.pagesUsed + 1) % 2 ^ 16 }) })
  | _, _ => (none, s)

/-- `ptr_to_segment`; the result `0` is `NULL`. -/
def ptrToSegment (s : State) (ptr : Nat) : Nat :=
  let base := ptr &&& (2 ^ 64 - segmentSize)
  if segmentIsRegistered s.segmentRegistry base then base else 0

/-- `ptr_to_page`. -/
def ptrToPage (s : State) (ptr : Nat) : Option PageRef :=
  let seg := ptrToSegment s ptr
  if seg = 0 then none
  else
    let idx := (ptr - seg) / pageSizeAlloc % 2 ^ 16
    if pagesPerSegment ≤ idx then none else some ⟨seg, idx⟩

end CustomMalloc

import CustomMalloc.Segment

/-!
# Large allocations (`large.c`)

A large block has a mapping of its own with the `large_alloc_t` header at its
start. The headers form a doubly linked list, and a pointer is looked up by
walking it for a mapping that contains the pointer; `large_alloc_count` is the
list's length and bounds the walk.

The sums `header_space + size` and `total + os_page - 1` wrap as in C.
-/

namespace CustomMalloc

open Lib.Words Lib.Bytes Lib.Chain Lib.Intervals

/-- `header_space` of `large_alloc_aligned`, for an alignment already raised to
`MIN_ALIGN`. -/
def headerSpace (alignment : Nat) : Nat := alignUp64 alignment largeHeaderSize

/-- `total` of `large_alloc_aligned`. -/
def largeTotal (c : Cfg) (size alignment : Nat) : Nat :=
  alignUp64 c.osPage ((headerSpace alignment + size) % 2 ^ 64)

/-- Link a header at the front of `large_list`. -/
def linkLarge (s : State) (la : LargeAlloc) : State :=
  let head := s.largeList
  let s := { s with larges := upd s.larges la.base (some { la with next := head, prev := none }) }
  let s : State := match head with
    | some h => { s with
        larges := upd s.larges h
          ((s.larges h).map fun (x : LargeAlloc) => { x with prev := some la.base }) }
    | none => s
  { s with largeList := some la.base }

/-- A header at `base` can be written. -/
def headerMapped (s : State) (base : Nat) : Bool :=
  (List.range largeHeaderSize).all fun i => decide (Covers s.mapped (base + i))

/-- `large_alloc_aligned`; the result `0` is `NULL`. When a sum has wrapped, the base need not
be mapped, and writing the header faults. -/
def largeAllocAligned (c : Cfg) (s : State) (size alignment : Nat) : Except Halt (Nat × State) :=
  let alignment := if alignment < minAlign then minAlign else alignment
  let total := largeTotal c size alignment
  match osMmapAligned c s total (if alignment < c.osPage then c.osPage else alignment) with
  | (base, s) =>
    if base = 0 then .ok (0, s)
    else if headerMapped s base then
      let s := linkLarge s
        { base := base, size := total, userSize := size, next := none, prev := none }
      .ok ((base + headerSpace alignment) % 2 ^ 64, { s with
        largeAllocated := (s.largeAllocated + size) % 2 ^ 64
        largeAllocCount := (s.largeAllocCount + 1) % 2 ^ 64 })
    else .error .fault

/-- `large_alloc`. -/
def largeAlloc (c : Cfg) (s : State) (size : Nat) : Except Halt (Nat × State) :=
  largeAllocAligned c s size minAlign

/-- `la->base <= ptr && ptr < la->base + la->size`. -/
def largeContains (s : State) (ptr : Nat) (b : Nat) : Bool :=
  match s.larges b with
  | some la => decide (la.base ≤ ptr) && decide (ptr < (la.base + la.size) % 2 ^ 64)
  | none => false

/-- `large_find`: the address of the header. -/
def largeFind (s : State) (ptr : Nat) : Except Halt (Option Nat) :=
  match findFrom (fun b => (s.larges b).bind LargeAlloc.next) (largeContains s ptr)
      s.largeAllocCount s.largeList with
  | none => .error .diverges
  | some r => .ok r

/-- Take a header out of `large_list`. -/
def unlinkLarge (s : State) (b : Nat) (la : LargeAlloc) : State :=
  let s : State := match la.prev with
    | some p => { s with
        larges := upd s.larges p
          ((s.larges p).map fun (x : LargeAlloc) => { x with next := la.next }) }
    | none => s
  let s : State := match la.next with
    | some n => { s with
        larges := upd s.larges n
          ((s.larges n).map fun (x : LargeAlloc) => { x with prev := la.prev }) }
    | none => s
  if s.largeList = some b then { s with largeList := la.next } else s

/-- `large_free`. A pointer that no mapping contains is ignored. -/
def largeFree (c : Cfg) (s : State) (ptr : Nat) : Except Halt State := do
  if ptr = 0 then return s
  match ← largeFind s ptr with
  | none => .ok s
  | some b =>
    match s.larges b with
    | none => .ok s
    | some la =>
      let s := unlinkLarge s b la
      let s := { s with
        largeAllocated := (s.largeAllocated + 2 ^ 64 - la.userSize) % 2 ^ 64
        largeAllocCount := (s.largeAllocCount + 2 ^ 64 - 1) % 2 ^ 64 }
      let s := osMunmap c s la.base la.size
      .ok { s with larges := upd s.larges b none }

/-- `large_usable_size`. -/
def largeUsableSize (s : State) (ptr : Nat) : Except Halt Nat := do
  match ← largeFind s ptr with
  | some b => .ok (((s.larges b).map LargeAlloc.userSize).getD 0)
  | none => .ok 0

end CustomMalloc

import CustomMalloc.Types

/-!
# Pages (`page.c`, `malloc_atomic.h`, `debug.c`)

A page is one `PageMeta` and the 64 KB of `mem` it describes; the functions here
work on that pair and touch nothing else. In a run of whole calls nobody
interferes with a compare-and-swap, so `treiberPush` and `treiberCollect` are
one loop iteration each.
-/

namespace CustomMalloc

open Lib.Words Lib.Bytes

/-- `page_start`. -/
def pageStart (p : PageMeta) : Nat := p.segment + p.pageIndex * pageSizeAlloc

/-- `page_init`: `old` is the metadata of the unused page. -/
def pageInit (old : PageMeta) (seg arena pageIndex binIdx slotSize : Nat) : PageMeta :=
  let slotSize := if slotSize < minAlign then minAlign else slotSize
  let slotSize := (slotSize + (minAlign - 1)) / minAlign * minAlign
  let capacity := pageSizeAlloc / slotSize % 2 ^ 16
  { old with
    segment := seg
    arena := arena
    pageIndex := pageIndex
    binIdx := binIdx
    slotSize := slotSize
    state := .active
    capacity := capacity
    used := 0
    bumpOffset := 0
    bumpEnd := capacity * slotSize
    localFree := 0
    localFreeCount := 0
    remoteFree := 0
    remoteFreeCount := 0
    next := none
    prev := none
    ownerTid := noOwner
    debugBitmap := fun _ => 0 }

/-! ## Tagged pointers and the remote stack -/

/-- `tagged_make`. -/
def taggedMake (ptr tag : Nat) : Nat := tag % 2 ^ 16 * 2 ^ 48 + ptr % 2 ^ 48

/-- The pointer half of a tagged value. -/
def taggedPtr (v : Nat) : Nat := v % 2 ^ 48

/-- The tag half of a tagged value. -/
def taggedTag (v : Nat) : Nat := v / 2 ^ 48 % 2 ^ 16

/-- `treiber_push` at offset 0: the memory and the new head. -/
def treiberPush (m : Mem) (head node : Nat) : Mem × Nat :=
  (writeWord m node (taggedPtr head), taggedMake node (taggedTag head + 1))

/-- `treiber_collect`: the old list and the new head. -/
def treiberCollect (head : Nat) : Nat × Nat :=
  if taggedPtr head = 0 then (0, head) else (taggedPtr head, taggedMake 0 (taggedTag head + 1))

/-! ## Slots -/

/-- Pop `local_free` (which is not null): the inline code of `slab_alloc_inner`. -/
def popLocalFree (m : Mem) (p : PageMeta) : PageMeta :=
  { p with
    localFree := readWord m p.localFree
    localFreeCount := sub16 p.localFreeCount 1
    used := (p.used + 1) % 2 ^ 16 }

/-- Take the next virgin slot. -/
def bumpSlot (p : PageMeta) : PageMeta :=
  { p with
    bumpOffset := (p.bumpOffset + p.slotSize) % 2 ^ 32
    used := (p.used + 1) % 2 ^ 16 }

/-- `page_free_slot_local`. -/
def pageFreeSlotLocal (m : Mem) (p : PageMeta) (ptr : Nat) : Mem × PageMeta :=
  (writeWord m ptr p.localFree,
    { p with
      localFree := ptr
      localFreeCount := (p.localFreeCount + 1) % 2 ^ 16
      used := sub16 p.used 1 })

/-- `page_free_slot_remote`. -/
def pageFreeSlotRemote (m : Mem) (p : PageMeta) (ptr : Nat) : Mem × PageMeta :=
  let pushed := treiberPush m p.remoteFree ptr
  (pushed.1,
    { p with
      remoteFree := pushed.2
      remoteFreeCount := (p.remoteFreeCount + 1) % 2 ^ 16
      used := sub16 p.used 1 })

/-- The walk of `page_collect_remote` from a non-null `current`: the last node
and the number of nodes. -/
def walkTail (m : Mem) : Nat → Nat → Nat → Option (Nat × Nat)
  | 0, _, _ => none
  | fuel + 1, current, count =>
    let count := (count + 1) % 2 ^ 16
    let next := readWord m current
    if next = 0 then some (current, count) else walkTail m fuel next count

/-- `page_collect_remote`. A page has at most `capacity` slots to walk. -/
def pageCollectRemote (m : Mem) (p : PageMeta) : Except Halt (Mem × PageMeta) :=
  let collected := treiberCollect p.remoteFree
  if collected.1 = 0 then .ok (m, p)
  else
    match walkTail m p.capacity collected.1 0 with
    | none => .error .diverges
    | some (tail, count) =>
      .ok (writeWord m tail p.localFree,
        { p with
          remoteFree := collected.2
          localFree := collected.1
          localFreeCount := (p.localFreeCount + count) % 2 ^ 16
          remoteFreeCount := sub16 p.remoteFreeCount count })

/-- `page_is_empty`. -/
def pageIsEmpty (p : PageMeta) : Bool := p.used == 0 && decide (0 < p.bumpOffset)

/-! ## The debug bitmap -/

/-- `debug_slot_index`; `2 ^ 16 - 1` stands for an invalid pointer. -/
def debugSlotIndex (p : PageMeta) (ptr : Nat) : Nat :=
  let base := pageStart p
  if ptr < base then 2 ^ 16 - 1
  else if (ptr - base) % p.slotSize ≠ 0 then 2 ^ 16 - 1
  else
    let idx := (ptr - base) / p.slotSize % 2 ^ 16
    if idx < p.capacity then idx else 2 ^ 16 - 1

/-- Bit `idx` of the bitmap. -/
def PageMeta.bit (p : PageMeta) (idx : Nat) : Bool := (p.debugBitmap (idx / 8)).testBit (idx % 8)

/-- `debug_mark_allocated`. -/
def debugMarkAllocated (p : PageMeta) (ptr : Nat) : Except Halt PageMeta :=
  let idx := debugSlotIndex p ptr
  if idx = 2 ^ 16 - 1 then .error (.abort .invalidAlloc)
  else if p.bit idx then .error (.abort .alreadyAllocated)
  else .ok { p with
    debugBitmap := upd p.debugBitmap (idx / 8) (p.debugBitmap (idx / 8) ||| 2 ^ (idx % 8)) }

/-- `debug_check_and_mark_freed`. -/
def debugCheckAndMarkFreed (p : PageMeta) (ptr : Nat) : Except Halt PageMeta :=
  let idx := debugSlotIndex p ptr
  if idx = 2 ^ 16 - 1 then .error (.abort .invalidFree)
  else if p.bit idx then .ok { p with
    debugBitmap := upd p.debugBitmap (idx / 8) (p.debugBitmap (idx / 8) &&& (255 - 2 ^ (idx % 8))) }
  else .error (.abort .doubleFree)

/-- The `#if MALLOC_DEBUG` call of the allocation paths. -/
def markAllocated (c : Cfg) (p : PageMeta) (ptr : Nat) : Except Halt PageMeta :=
  if c.debug then debugMarkAllocated p ptr else .ok p

/-- The `#if MALLOC_DEBUG` call of `slab_free`. -/
def markFreed (c : Cfg) (p : PageMeta) (ptr : Nat) : Except Halt PageMeta :=
  if c.debug then debugCheckAndMarkFreed p ptr else .ok p

end CustomMalloc

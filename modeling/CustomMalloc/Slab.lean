import CustomMalloc.Arena
import CustomMalloc.Large

/-!
# The slab allocator (`slab.c`)

`slabAllocInner` tries the thread's cached page without a lock (`cachedAlloc`:
local free list, bump space, remote frees, in this order) and otherwise goes
through the arena (`slowAlloc`), after which it claims the page if nobody owns
it. `slabFree` pushes on the local list of a page the thread owns and on the
remote stack of any other page. Statistics are batched in the `tld_t`.
-/

namespace CustomMalloc

open Lib.Bytes

/-! ## Batched statistics -/

/-- `tld_stat_flush`; a null `tld->arena` would be dereferenced here. -/
def tldStatFlush (s : State) (t : Nat) (tld : Tld) : Except Halt State :=
  match tld.arena with
  | none => .error .undefined
  | some a =>
    let s := s.setArena a { s.arenas a with
      allocated := ((s.arenas a).allocated + tld.statAllocated) % 2 ^ 64
      freed := ((s.arenas a).freed + tld.statFreed) % 2 ^ 64
      allocCount := ((s.arenas a).allocCount + tld.statAllocCount) % 2 ^ 64
      freeCount := ((s.arenas a).freeCount + tld.statFreeCount) % 2 ^ 64 }
    .ok (s.setTld t { tld with
      statAllocated := 0, statFreed := 0, statAllocCount := 0, statFreeCount := 0, statOps := 0 })

/-- Store the thread's counters, flushing every `STAT_FLUSH_INTERVAL` operations. -/
def tldStatStore (s : State) (t : Nat) (tld : Tld) : Except Halt State :=
  if statFlushInterval ≤ tld.statOps then tldStatFlush s t tld else .ok (s.setTld t tld)

/-- `tld_stat_alloc`. -/
def tldStatAlloc (s : State) (t : Nat) (tld : Tld) (slotSize : Nat) : Except Halt State :=
  tldStatStore s t { tld with
    statAllocated := (tld.statAllocated + slotSize) % 2 ^ 64
    statAllocCount := (tld.statAllocCount + 1) % 2 ^ 64
    statOps := (tld.statOps + 1) % 2 ^ 32 }

/-- `tld_stat_free`. -/
def tldStatFree (s : State) (t : Nat) (tld : Tld) (slotSize : Nat) : Except Halt State :=
  tldStatStore s t { tld with
    statFreed := (tld.statFreed + slotSize) % 2 ^ 64
    statFreeCount := (tld.statFreeCount + 1) % 2 ^ 64
    statOps := (tld.statOps + 1) % 2 ^ 32 }

/-! ## Allocation -/

/-- Hand out the slot `slot` of page `r`, whose metadata is now `p`. -/
def takeSlot (c : Cfg) (s : State) (t : Nat) (tld : Tld) (r : PageRef) (p : PageMeta) (slot : Nat) :
    Except Halt State := do
  let p ← markAllocated c p slot
  tldStatAlloc (s.setPage r p) t tld p.slotSize

/-- The fast path on the cached page `r`; `none` when the page is full, which
also clears the cache entry. -/
def cachedAlloc (c : Cfg) (s : State) (t : Nat) (tld : Tld) (bin : Nat) (r : PageRef) :
    Except Halt (Option (Nat × Bool) × State) := do
  let p := s.pages r
  if p.localFree ≠ 0 then
    let s ← takeSlot c s t tld r (popLocalFree s.mem p) p.localFree
    return (some (p.localFree, false), s)
  if p.bumpOffset < p.bumpEnd then
    let slot := pageStart p + p.bumpOffset
    let s ← takeSlot c s t tld r (bumpSlot p) slot
    return (some (slot, true), s)
  let (m, p) ← pageCollectRemote s.mem p
  let s := { s.setPage r p with mem := m }
  if p.localFree ≠ 0 then
    let s ← takeSlot c s t tld r (popLocalFree m p) p.localFree
    return (some (p.localFree, false), s)
  return (none, s.setTld t { tld with binPage := upd tld.binPage bin none })

/-- After the arena handed out `slot`: claim its page if it is unowned, and cache
it if this thread owns it. -/
def claimPage (s : State) (t bin slot : Nat) (tld : Tld) : State :=
  match ptrToPage s slot with
  | none => s
  | some r =>
    if (s.pages r).ownerTid = noOwner then
      (s.setPage r { s.pages r with ownerTid := tld.threadId }).setTld t
        { tld with binPage := upd tld.binPage bin (some r) }
    else if (s.pages r).ownerTid = tld.threadId then
      s.setTld t { tld with binPage := upd tld.binPage bin (some r) }
    else s

/-- The slow path of `slab_alloc_inner`. `hasTld` says whether the first
`tld_get` of the call succeeded: `arena_get` asks again, but the claim looks at
the first answer. -/
def slowAlloc (c : Cfg) (s : State) (t bin : Nat) (hasTld : Bool) :
    Except Halt ((Nat × Bool) × State) := do
  let (a, s) ← arenaGet c s t
  let ((slot, zeroed), s) ← arenaAlloc c s a bin
  match hasTld && slot != 0, s.tls t with
  | true, some tld => return ((slot, zeroed), claimPage s t bin slot tld)
  | _, _ => return ((slot, zeroed), s)

/-- `slab_alloc_inner`: the block (`0` is `NULL`) and `*zeroed`. -/
def slabAllocInner (c : Cfg) (s : State) (t size : Nat) : Except Halt ((Nat × Bool) × State) := do
  let size := if size = 0 then 1 else size
  if mediumMax < size then
    let (p, s) ← largeAlloc c s size
    return ((p, false), s)
  let bin := sizeToBin sizeTables size
  if pageSizeAlloc / 2 < binToSize sizeTables bin then
    let (p, s) ← largeAlloc c s size
    return ((p, false), s)
  match tldGet c s t with
  | (none, s) => slowAlloc c s t bin false
  | (some tld, s) =>
    match tld.binPage bin with
    | none => slowAlloc c s t bin true
    | some r =>
      if (s.pages r).state = .active then
        match ← cachedAlloc c s t tld bin r with
        | (some found, s) => return (found, s)
        | (none, s) => slowAlloc c s t bin true
      else slowAlloc c s t bin true

/-- `slab_alloc`. -/
def slabAlloc (c : Cfg) (s : State) (t size : Nat) : Except Halt (Nat × State) := do
  let ((p, _), s) ← slabAllocInner c s t size
  return (p, s)

/-- `slab_alloc_zeroed`. -/
def slabAllocZeroed (c : Cfg) (s : State) (t size : Nat) : Except Halt ((Nat × Bool) × State) :=
  slabAllocInner c s t size

/-! ## Freeing -/

/-- Credit a remote free to the page's arena. -/
def arenaCreditFree (s : State) (a n : Nat) : State :=
  s.setArena a { s.arenas a with
    freed := ((s.arenas a).freed + n) % 2 ^ 64
    freeCount := ((s.arenas a).freeCount + 1) % 2 ^ 64 }

/-- The local branch of `slab_free`, for a page the thread owns. -/
def freeLocal (s : State) (t : Nat) (tld : Tld) (r : PageRef) (p : PageMeta) (ptr : Nat) :
    Except Halt State :=
  let freed := pageFreeSlotLocal s.mem p ptr
  tldStatFree { s.setPage r freed.2 with mem := freed.1 } t tld p.slotSize

/-- The remote branch of `slab_free`. -/
def freeRemote (s : State) (r : PageRef) (p : PageMeta) (ptr : Nat) : State :=
  let freed := pageFreeSlotRemote s.mem p ptr
  arenaCreditFree { s.setPage r freed.2 with mem := freed.1 } p.arena p.slotSize

/-- `slab_free`. A pointer outside every registered segment is ignored. -/
def slabFree (c : Cfg) (s : State) (t ptr : Nat) : Except Halt State := do
  if ptr = 0 then return s
  if ptrToSegment s ptr = 0 then return s
  match ptrToPage s ptr with
  | none => return s
  | some r =>
    if (s.pages r).state = .unused then return s
    let p ← markFreed c (s.pages r) ptr
    let s := s.setPage r p
    match tldGet c s t with
    | (some tld, s) =>
      if p.ownerTid = tld.threadId then freeLocal s t tld r p ptr
      else return freeRemote s r p ptr
    | (none, s) => return freeRemote s r p ptr

end CustomMalloc

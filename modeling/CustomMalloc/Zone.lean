import CustomMalloc.Malloc

/-!
# The malloc zone (`zone.c`)

The callbacks of the zone that do more than call the public API. The kernel's side
of `madvise` is not here: `zonePressureRelief` returns which ranges it advises, and
`ReliefRun` says what the kernel may do with them. The number of bytes the callback
returns is the length of that list in pages of 64 KB.
-/

namespace CustomMalloc

open Lib.Words

/-- `zone_good_size`. -/
def zoneGoodSize (c : Cfg) (size : Nat) : Nat :=
  let size := if size = 0 then 1 else size
  if mediumMax < size then alignUp64 c.osPage size
  else binToSize sizeTables (sizeToBin sizeTables size)

/-- `zone_claimed_address`. -/
def zoneClaimedAddress (c : Cfg) (s : State) (ptr : Nat) : Except Halt Bool :=
  if ptr = 0 then .ok false
  else if inBootstrap c ptr then .ok true
  else if ptrToSegment s ptr ≠ 0 then .ok true
  else do
    let la ← largeFind s ptr
    return la.isSome

/-! ## Pressure relief -/

/-- The pages of one segment that `zone_pressure_relief` advises: active and empty. -/
def emptyPages (s : State) (seg : Nat) : List PageRef :=
  ((List.range' pagesDataStart (pagesPerSegment - pagesDataStart)).map fun i => ⟨seg, i⟩).filter
    fun r => (s.pages r).state == .active && pageIsEmpty (s.pages r)

/-- The walk over the segments of one arena. -/
def reliefArena (s : State) : Nat → Option Nat → Except Halt (List PageRef)
  | _, none => .ok []
  | 0, some _ => .error .diverges
  | fuel + 1, some seg => do
    let rest ← reliefArena s fuel ((s.segs seg).bind Segment.next)
    return emptyPages s seg ++ rest

/-- `zone_pressure_relief`: the pages it advises, in this order. No metadata changes. -/
def zonePressureRelief (s : State) : Except Halt (List PageRef) := do
  let pages ← (List.range numArenas).mapM fun a => reliefArena s walkBound (s.arenas a).segments
  return pages.flatten

/-! ## Statistics -/

/-- `malloc_statistics_t`. -/
structure ZoneStats where
  blocksInUse : Nat
  sizeInUse : Nat
  maxSizeInUse : Nat
  sizeAllocated : Nat
  deriving DecidableEq, Repr

/-- `(x > y) ? (x - y) : 0`. -/
def clampSub (x y : Nat) : Nat := if y < x then x - y else 0

/-- `blocks` of `zone_statistics`: what the arenas have booked, and the large blocks. -/
def statBlocks (s : State) : Nat :=
  ((List.range numArenas).foldl
    (fun n a => (n + clampSub (s.arenas a).allocCount (s.arenas a).freeCount) % 2 ^ 64) 0 +
    s.largeAllocCount) % 2 ^ 64

/-- `bytes_in_use` of `zone_statistics`. -/
def statBytes (s : State) : Nat :=
  ((List.range numArenas).foldl
    (fun n a => (n + clampSub (s.arenas a).allocated (s.arenas a).freed) % 2 ^ 64) 0 +
    s.largeAllocated) % 2 ^ 64

/-- `zone_statistics`, with `g_state.peak_in_use` before and after. -/
def zoneStatistics (s : State) (peak : Nat) : ZoneStats × Nat :=
  let bytes := statBytes s
  ({ blocksInUse := statBlocks s % 2 ^ 32
     sizeInUse := bytes
     maxSizeInUse := if peak < bytes then bytes else peak
     sizeAllocated := s.mmapBytes },
    if peak < bytes then bytes else peak)

end CustomMalloc

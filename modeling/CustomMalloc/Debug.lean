import CustomMalloc.Arena

/-!
# The heap checker (`debug.c`)

`debug_heap_check` walks every page of every segment of every arena and compares
the bitmap, the counters and the local free list. Its messages on `stderr` are
left out; the result says whether any check failed.
-/

namespace CustomMalloc

open Lib.Bytes

/-- `__builtin_popcount` of a byte. -/
def popcount (byte : Nat) : Nat := (List.range 8).countP byte.testBit

/-- `bitmap_count`: the bits set in the first `(capacity + 7) / 8` bytes. -/
def bitmapCount (p : PageMeta) : Nat :=
  (List.range ((p.capacity + 7) / 8)).foldl
    (fun n b => (n + popcount (p.debugBitmap b)) % 2 ^ 16) 0

/-- The walk of `local_free`, from `entry` and with `free_walk` entries behind it:
whether all is well, and the final `free_walk`. An entry too many or an invalid one
ends the walk, a set bit does not. -/
def walkLocalFree (m : Mem) (p : PageMeta) : Nat → Nat → Nat → Bool × Nat
  | 0, _, freeWalk => (false, freeWalk)
  | fuel + 1, entry, freeWalk =>
    if entry = 0 then (true, freeWalk)
    else
      let freeWalk := (freeWalk + 1) % 2 ^ 16
      if p.capacity < freeWalk then (false, freeWalk)
      else
        let idx := debugSlotIndex p entry
        if idx = 2 ^ 16 - 1 then (false, freeWalk)
        else
          let rest := walkLocalFree m p fuel (readWord m entry) freeWalk
          (!p.bit idx && rest.1, rest.2)

/-- The slots `[bump_offset, bump_end)` has room for. -/
def bumpRemaining (p : PageMeta) : Nat :=
  if p.bumpOffset < p.bumpEnd then (p.bumpEnd - p.bumpOffset) / p.slotSize % 2 ^ 16 else 0

/-- The four checks of one page. -/
def debugCheckPage (m : Mem) (p : PageMeta) : Bool :=
  -- the walk stops by itself after `capacity + 1` entries
  let walk := walkLocalFree m p (p.capacity + 1) p.localFree 0
  let accounted := (p.used + walk.2 + p.remoteFreeCount + bumpRemaining p) % 2 ^ 16
  bitmapCount p == p.used && walk.1 && walk.2 == p.localFreeCount && accounted == p.capacity

/-- The pages of one segment. -/
def debugCheckSegment (s : State) (seg : Nat) : Bool :=
  (List.range' pagesDataStart (pagesPerSegment - pagesDataStart)).all fun i =>
    let p := s.pages ⟨seg, i⟩
    if p.state ≠ .active ∧ p.state ≠ .full then true else debugCheckPage s.mem p

/-- The segments of one arena. -/
def debugCheckArena (s : State) : Nat → Option Nat → Except Halt Bool
  | _, none => .ok true
  | 0, some _ => .error .diverges
  | fuel + 1, some seg => do
    let ok ← debugCheckArena s fuel ((s.segs seg).bind Segment.next)
    return debugCheckSegment s seg && ok

/-- `debug_heap_check`. -/
def debugHeapCheck (s : State) : Except Halt Bool := do
  let oks ← (List.range numArenas).mapM fun a =>
    debugCheckArena s walkBound (s.arenas a).segments
  return oks.all id

end CustomMalloc

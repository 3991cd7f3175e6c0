import CustomMalloc.Segment

/-!
# Thread-local data and arenas (`tld.c`, `arena.c`)

`tldGet` creates a thread's `tld_t` on first use, in a mapping of its own, and
`arenaGet` attaches the thread to an arena, round robin. Both counters wrap:
`thread_id_counter` as an unsigned and `arena_next` as a signed 32-bit number,
so that C's remainder of it can be negative; an index outside the array has no
defined meaning and the call stops there. `tldCleanup` is what a thread's exit does.

`arenaAlloc` is the slow path: bump-allocate from an unowned page of the bin, or
set up a new page, in a new segment if need be. Its two loops follow the
intrusive lists for at most `walkBound` steps, which is more than the address
space has room for.
-/

namespace CustomMalloc

open Lib.Bytes Lib.Chain

/-- There are `2 ^ 48` pages of 64 KB in `2 ^ 64` bytes. -/
def walkBound : Nat := 2 ^ 48

/-- `tld_get`; `none` is `NULL`. -/
def tldGet (c : Cfg) (s : State) (t : Nat) : Option Tld × State :=
  match s.tls t with
  | some tld => (some tld, s)
  | none =>
    match osMmapAligned c s c.osPage c.osPage with
    | (addr, s) =>
      if addr = 0 then (none, s)
      else
        let tld : Tld := { addr := addr, threadId := s.threadIdCounter }
        (some tld, { s with
          tls := upd s.tls t (some tld)
          threadIdCounter := (s.threadIdCounter + 1) % 2 ^ 32 })

/-- 32-bit signed wrap-around. -/
def wrapInt (x : Int) : Int := (x + 2 ^ 31) % 2 ^ 32 - 2 ^ 31

/-- `tld_cleanup`, the destructor that runs when thread `t` exits: the pending
statistics go to the arena and the `tld_t` is unmapped, unless it lies in the
bootstrap buffer. -/
def tldCleanup (c : Cfg) (s : State) (t : Nat) : State :=
  match s.tls t with
  | none => s
  | some tld =>
    let s : State := match tld.arena with
      | some a => s.setArena a { s.arenas a with
          allocated := ((s.arenas a).allocated + tld.statAllocated) % 2 ^ 64
          freed := ((s.arenas a).freed + tld.statFreed) % 2 ^ 64
          allocCount := ((s.arenas a).allocCount + tld.statAllocCount) % 2 ^ 64
          freeCount := ((s.arenas a).freeCount + tld.statFreeCount) % 2 ^ 64
          threadCount := wrapInt ((s.arenas a).threadCount - 1) }
      | none => s
    let s := { s with tls := upd s.tls t none }
    if c.bootstrapBuf ≤ tld.addr ∧ tld.addr < c.bootstrapBuf + bootstrapBufSize then s
    else osMunmap c s tld.addr c.osPage

/-- `arena_get`. `arena_count` is 4 from `malloc_init` on. -/
def arenaGet (c : Cfg) (s : State) (t : Nat) : Except Halt (Nat × State) :=
  match tldGet c s t with
  | (tld, s) =>
    match tld.bind Tld.arena with
    | some a => .ok (a, s)
    | none =>
      let idx := s.arenaNext.tmod numArenas
      let s := { s with arenaNext := wrapInt (s.arenaNext + 1) }
      if idx < 0 then .error .undefined
      else
        let a := idx.toNat
        let s := s.setArena a
          { s.arenas a with threadCount := wrapInt ((s.arenas a).threadCount + 1) }
        match tld with
        | some x => .ok (a, s.setTld t { x with arena := some a })
        | none => .ok (a, s)

/-- `bin_insert_page`. -/
def binInsertPage (s : State) (a : Nat) (r : PageRef) : State :=
  let bin := (s.pages r).binIdx
  let head := (s.arenas a).bins bin
  let s := s.setPage r { s.pages r with prev := none, next := head }
  let s : State := match head with
    | some h => s.setPage h { s.pages h with prev := some r }
    | none => s
  s.setArena a { s.arenas a with bins := upd (s.arenas a).bins bin (some r) }

/-- Book one slot of `n` bytes in the arena's statistics. -/
def arenaCredit (s : State) (a n : Nat) : State :=
  s.setArena a { s.arenas a with
    allocated := ((s.arenas a).allocated + n) % 2 ^ 64
    allocCount := ((s.arenas a).allocCount + 1) % 2 ^ 64 }

/-- The bump allocation of `arena_alloc`, the same for a scanned and a fresh page. -/
def arenaBump (c : Cfg) (s : State) (a : Nat) (r : PageRef) : Except Halt (Nat × State) := do
  let p := s.pages r
  let slot := pageStart p + p.bumpOffset
  let p ← markAllocated c (bumpSlot p) slot
  .ok (slot, arenaCredit (s.setPage r p) a p.slotSize)

/-- An unowned page with bump space: the test of the first loop. -/
def scanTest (s : State) (r : PageRef) : Bool :=
  (s.pages r).ownerTid == noOwner && decide ((s.pages r).bumpOffset < (s.pages r).bumpEnd)

/-- Link a new segment into the arena's list. -/
def linkSegment (s : State) (a seg : Nat) : State :=
  let head := (s.arenas a).segments
  let s := { s with
    segs := upd s.segs seg ((s.segs seg).map fun (g : Segment) => { g with next := head }) }
  let s : State := match head with
    | some h => { s with
        segs := upd s.segs h ((s.segs h).map fun (g : Segment) => { g with prev := some seg }) }
    | none => s
  s.setArena a { s.arenas a with
    segments := some seg
    segmentCount := ((s.arenas a).segmentCount + 1) % 2 ^ 32 }

/-- The second half of `arena_alloc` up to the new page: an unused page of one of
the arena's segments, or the first page of a new segment. -/
def arenaNewPage (c : Cfg) (s : State) (a bin : Nat) : Except Halt (Option PageRef × State) :=
  match findFrom (fun b => (s.segs b).bind Segment.next) (fun b => (unusedPage s b).isSome)
      walkBound (s.arenas a).segments with
  | none => .error .diverges
  | some (some seg) => .ok (segmentAllocPage s seg bin)
  | some none =>
    match segmentCreate c s a with
    | (seg, s) =>
      if seg = 0 then .ok (none, s)
      else .ok (segmentAllocPage (linkSegment s a seg) seg bin)

/-- `arena_alloc`: the slot (`0` is `NULL`) and `*zeroed`. -/
def arenaAlloc (c : Cfg) (s : State) (a bin : Nat) : Except Halt ((Nat × Bool) × State) :=
  match findFrom (fun r => (s.pages r).next) (scanTest s) walkBound ((s.arenas a).bins bin) with
  | none => .error .diverges
  | some (some r) => do
    let (slot, s) ← arenaBump c s a r
    .ok ((slot, true), s)
  | some none => do
    let (page, s) ← arenaNewPage c s a bin
    match page with
    | none => .ok ((0, false), s)
    | some r =>
      let (slot, s) ← arenaBump c (binInsertPage s a r) a r
      .ok ((slot, true), s)

end CustomMalloc

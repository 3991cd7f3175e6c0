import CustomMalloc.Slab

/-!
# Retiring pages (`arena.c`, `segment.c`)

`arena_free` takes an empty page out of its bin and makes it available to every bin
again. It runs under the arena's lock. `madvise(MADV_FREE)` leaves the bytes as they
are: the kernel may drop them later, or never.
-/

namespace CustomMalloc

open Lib.Words Lib.Bytes

/-- `if (page->prev) page->prev->next = page->next`. -/
def unlinkNext (s : State) (r : PageRef) : State :=
  match (s.pages r).prev with
  | some q => s.setPage q { s.pages q with next := (s.pages r).next }
  | none => s

/-- `if (page->next) page->next->prev = page->prev`. -/
def unlinkPrev (s : State) (r : PageRef) : State :=
  match (s.pages r).next with
  | some q => s.setPage q { s.pages q with prev := (s.pages r).prev }
  | none => s

/-- `if (arena->bins[bin] == page) arena->bins[bin] = page->next`. -/
def unlinkHead (s : State) (a bin : Nat) (r : PageRef) : State :=
  if (s.arenas a).bins bin = some r then
    s.setArena a { s.arenas a with bins := upd (s.arenas a).bins bin (s.pages r).next }
  else s

/-- `bin_remove_page`. -/
def binRemovePage (s : State) (a : Nat) (r : PageRef) : State :=
  let bin := (s.pages r).binIdx
  let s := unlinkNext s r
  let s := unlinkPrev s r
  let s := unlinkHead s a bin r
  s.setPage r { s.pages r with next := none, prev := none }

/-- `segment_free_page`. The bin and the slot size stay behind in the metadata. -/
def segmentFreePage (s : State) (seg : Nat) (r : PageRef) : State :=
  let s := s.setPage r { s.pages r with
    ownerTid := noOwner
    state := .unused
    localFree := 0
    localFreeCount := 0
    remoteFree := 0
    remoteFreeCount := 0
    used := 0
    bumpOffset := 0
    bumpEnd := 0 }
  { s with
    segs := upd s.segs seg
      ((s.segs seg).map fun (g : Segment) => { g with pagesUsed := sub16 g.pagesUsed 1 }) }

/-- `arena_free`; its pointer argument is not used. -/
def arenaFree (s : State) (a : Nat) (r : PageRef) : State :=
  if pageIsEmpty (s.pages r) then
    let s := binRemovePage s a r
    segmentFreePage s (s.pages r).segment r
  else s

end CustomMalloc

import CustomMalloc.SizeClass
import CustomMalloc.Lib.Bytes
import CustomMalloc.Lib.Chain
import CustomMalloc.Lib.Intervals

/-!
# The allocator's state (`malloc_types.h`)

One `State` is everything the allocator keeps between two calls. Its metadata
(segment headers, page metadata, large headers, thread-local data) are records
of their own, addressed the way the C pointers address them; only the bytes
that clients and the free lists share are kept as bytes, in `mem`. Clients
write only inside their blocks, and no block ever meets a header
(`Props/Disjoint`), so the two never alias.

A `page_meta_t *` is a `PageRef`: the segment's address and the index in its
page array. The kernel is part of the state too: `mapped` is the set of mapped
addresses, and `answers` what `mmap` is going to answer during the current call.

Counters that wrap in C wrap here: `used` and the free counts are 16 bits wide,
thread ids 32, statistics 64.
-/

namespace CustomMalloc

open Lib.Bytes

/-- `f` with the value `b` at `a`. -/
def upd {α β : Type} [DecidableEq α] (f : α → β) (a : α) (b : β) : α → β :=
  fun x => if x = a then b else f x

@[simp] theorem upd_same {α β : Type} [DecidableEq α] (f : α → β) (a : α) (b : β) :
    upd f a b a = b := if_pos rfl

@[simp] theorem upd_ne {α β : Type} [DecidableEq α] {f : α → β} {a x : α} {b : β} (h : x ≠ a) :
    upd f a b x = f x := if_neg h

@[simp] theorem upd_eta {α β : Type} [DecidableEq α] (f : α → β) (a : α) : upd f a (f a) = f := by
  funext x
  unfold upd
  split
  next h => rw [h]
  next => rfl

@[simp] theorem upd_upd {α β : Type} [DecidableEq α] (f : α → β) (a : α) (b b' : β) :
    upd (upd f a b) a b' = upd f a b' := by
  funext x
  unfold upd
  split <;> rfl

/-- `page_state_t`. -/
inductive PageState where
  | unused
  | active
  | full
  | retired
  deriving DecidableEq, Repr

/-- A `page_meta_t *`: `&((segment_t *)seg)->pages[idx]`. -/
structure PageRef where
  seg : Nat
  idx : Nat
  deriving DecidableEq, Repr

/-- `page_meta_t`. The bitmap is only used with `MALLOC_DEBUG`. -/
structure PageMeta where
  /-- index of the owning arena -/
  arena : Nat := 0
  /-- address of the segment -/
  segment : Nat := 0
  ownerTid : Nat := 0
  binIdx : Nat := 0
  state : PageState := .unused
  slotSize : Nat := 0
  capacity : Nat := 0
  used : Nat := 0
  bumpOffset : Nat := 0
  bumpEnd : Nat := 0
  localFree : Nat := 0
  localFreeCount : Nat := 0
  /-- tag in the upper 16 bits, pointer in the lower 48 -/
  remoteFree : Nat := 0
  remoteFreeCount : Nat := 0
  next : Option PageRef := none
  prev : Option PageRef := none
  pageIndex : Nat := 0
  debugBitmap : Nat → Nat := fun _ => 0

/-- `segment_t`, without its page array (`State.pages`). -/
structure Segment where
  pagesUsed : Nat
  arena : Nat
  next : Option Nat
  prev : Option Nat
  deriving DecidableEq, Repr

/-- `large_alloc_t`. -/
structure LargeAlloc where
  base : Nat
  size : Nat
  userSize : Nat
  next : Option Nat
  prev : Option Nat
  deriving DecidableEq, Repr

/-- `arena_t`. In a run of whole calls its lock is always free. -/
structure Arena where
  threadCount : Int := 0
  bins : Nat → Option PageRef := fun _ => none
  segments : Option Nat := none
  segmentCount : Nat := 0
  allocated : Nat := 0
  freed : Nat := 0
  allocCount : Nat := 0
  freeCount : Nat := 0

/-- `tld_t`, with the address of its own mapping. -/
structure Tld where
  addr : Nat
  arena : Option Nat := none
  threadId : Nat
  binPage : Nat → Option PageRef := fun _ => none
  statAllocated : Nat := 0
  statFreed : Nat := 0
  statAllocCount : Nat := 0
  statFreeCount : Nat := 0
  statOps : Nat := 0

/-- The allocator and the kernel between two calls. -/
structure State where
  mem : Mem
  /-- the mapped address intervals -/
  mapped : List (Nat × Nat)
  /-- what the kernel will propose for the next `mmap` calls; `none` is a refusal -/
  answers : List (Option Nat)
  /-- the segment header at an address -/
  segs : Nat → Option Segment
  pages : PageRef → PageMeta
  /-- the large header at an address -/
  larges : Nat → Option LargeAlloc
  largeList : Option Nat
  largeAllocated : Nat
  largeAllocCount : Nat
  mmapBytes : Nat
  arenas : Nat → Arena
  arenaNext : Int
  segmentRegistry : Nat → Nat
  /-- `pthread_getspecific(tld_key)` of each thread -/
  tls : Nat → Option Tld
  threadIdCounter : Nat

/-- The diagnostics of a `MALLOC_DEBUG` build that end in `abort()`. -/
inductive Diag where
  | invalidAlloc
  | alreadyAllocated
  | invalidFree
  | doubleFree
  deriving DecidableEq, Repr

/-- Why a call does not return: it aborts with a diagnostic, its next step is
undefined in C (an index outside `arenas`, a null `tld->arena`), it writes to memory that
is not mapped, or a list walk goes on longer than the list can be. -/
inductive Halt where
  | abort (d : Diag)
  | undefined
  | fault
  | diverges
  deriving DecidableEq, Repr

/-- The state `malloc_init` leaves, with the kernel having mapped only the
program's own data. -/
def State.initial (c : Cfg) : State where
  mem := fun _ => 0
  mapped := [(c.bootstrapBuf, c.bootstrapBuf + bootstrapBufSize)]
  answers := []
  segs := fun _ => none
  pages := fun _ => {}
  larges := fun _ => none
  largeList := none
  largeAllocated := 0
  largeAllocCount := 0
  mmapBytes := 0
  arenas := fun _ => {}
  arenaNext := 0
  segmentRegistry := fun _ => 0
  tls := fun _ => none
  threadIdCounter := 0

/-- Write one page's metadata. -/
def State.setPage (s : State) (r : PageRef) (p : PageMeta) : State :=
  { s with pages := upd s.pages r p }

/-- Write one arena. -/
def State.setArena (s : State) (a : Nat) (x : Arena) : State :=
  { s with arenas := upd s.arenas a x }

/-- Write one thread's thread-local data. -/
def State.setTld (s : State) (t : Nat) (x : Tld) : State :=
  { s with tls := upd s.tls t (some x) }

end CustomMalloc

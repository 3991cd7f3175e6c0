import CustomMalloc.Concurrent.PageSys
import CustomMalloc.SlabRun

/-!
# The slab allocator, access by access

`Slab` and `Arena` have `slab_alloc_inner`, `arena_alloc`, `arena_get` and `slab_free` as
whole functions. Here a call of theirs is a program counter, and a step of a thread is one
access to something another thread can reach: a field of a page, a slot, a lock, an atomic
counter. On a page the steps are those of `Machines`; in between, a call walks the arena's
bin list under the arena's lock, claims the page it took a slot from with a
compare-and-swap, and reads and writes its own `tld_t`.

What is still one step:

* `tld_get`, which shares nothing but the thread id counter;
* setting up a page in `arena_alloc` (`grow`), which happens under the arena's lock on pages
  that no other thread can see yet, with the insertion of a new segment into the registry;
* the lookup of a pointer in the registry, with the page's fields that stay as they are while
  it is in use (`find`, `freeFind`);
* a batch of additions to an arena's statistics, which nothing in these functions reads.

Only requests that are served from slab pages are here: a size that `slab_alloc_inner` passes
to `large_alloc` starts no call. The debug bitmap is left out: this is the build without
`MALLOC_DEBUG`.

A step that is undefined in C is one that cannot be taken.
-/

namespace CustomMalloc

open Lib.Words Lib.Bytes Lib.Interleave

/-! ## Program counters -/

/-- What a call of `arena_alloc` knows: its arguments, and whether the first `tld_get` of
`slab_alloc_inner` succeeded. -/
structure ArenaCall where
  bin : Nat
  hasTld : Bool
  arena : Nat
  deriving DecidableEq, Repr

/-- Where a thread stands in a call of `slab_alloc_inner` or `slab_free`. -/
inductive SlabPc where
  | idle
  /-- `tld_t *tld = tld_get()` -/
  | enter (bin : Nat)
  /-- `page = tld->bin_page[bin]` and its state -/
  | look (bin : Nat)
  /-- the fast path on the cached page -/
  | fast (bin : Nat) (r : PageRef) (pc : AllocPc)
  /-- `tld_stat_alloc(tld, page->slot_size)` -/
  | book (r : PageRef) (slot : Nat) (zeroed : Bool)
  /-- `tld->bin_page[bin] = NULL` -/
  | clear (bin : Nat)
  /-- `arena_get`: `tld_get` once more, and `tld->arena` -/
  | again (bin : Nat) (hasTld : Bool)
  /-- `atomic_fetch_add(&g_state.arena_next, 1) % count` -/
  | next (bin : Nat) (hasTld : Bool)
  /-- `atomic_fetch_add(&arena->thread_count, 1)` and `tld->arena = arena` -/
  | join (k : ArenaCall)
  /-- `pthread_mutex_lock(&arena->lock)` -/
  | lock (k : ArenaCall)
  /-- `page = arena->bins[bin]` -/
  | head (k : ArenaCall)
  /-- load `page->owner_tid` -/
  | owner (k : ArenaCall) (r : PageRef)
  /-- `page->bump_offset < page->bump_end` of a page seen unowned -/
  | test (k : ArenaCall) (r : PageRef)
  /-- `page = page->next` -/
  | follow (k : ArenaCall) (r : PageRef)
  /-- the second half of `arena_alloc`: a new page, put in front of its bin list -/
  | grow (k : ArenaCall)
  /-- the bump allocation of `arena_alloc` -/
  | bump (k : ArenaCall) (r : PageRef) (pc : BumpPc)
  /-- the arena's statistics -/
  | credit (k : ArenaCall) (r : PageRef) (slot : Nat)
  /-- `pthread_mutex_unlock(&arena->lock)` -/
  | unlock (k : ArenaCall) (slot : Nat) (zeroed : Bool)
  /-- `page = ptr_to_page(result)` -/
  | find (bin slot : Nat) (zeroed : Bool)
  /-- the compare-and-swap of `page->owner_tid` -/
  | claim (bin slot : Nat) (zeroed : Bool) (r : PageRef)
  /-- `tld->bin_page[bin] = page` -/
  | cache (bin slot : Nat) (zeroed : Bool) (r : PageRef)
  /-- return the slot (`0` is `NULL`) -/
  | ret (slot : Nat) (zeroed : Bool)
  /-- `slab_free`: `ptr_to_segment`, `ptr_to_page` and the page's state -/
  | freeFind (ptr : Nat)
  /-- `tld_get()` -/
  | freeTld (ptr : Nat) (r : PageRef)
  /-- load `page->owner_tid` -/
  | freeOwner (ptr : Nat) (r : PageRef)
  /-- the local branch -/
  | freeLocal (r : PageRef) (pc : FreeLocalPc)
  /-- `tld_stat_free(tld, page->slot_size)` -/
  | freeStat (r : PageRef)
  /-- the remote branch -/
  | freeRemote (r : PageRef) (pc : FreeRemotePc)
  /-- credit the free to the page's arena -/
  | freeCredit (r : PageRef)
  deriving DecidableEq, Repr

/-! ## The system -/

/-- The heap, the arena locks, the threads, the slots the clients hold and, as history, for
each page the slots that are out of it and what happened to its remote stack. -/
structure SlabSys (n : Nat) where
  heap : State
  locks : Nat → Option (Fin n) := fun _ => none
  pcs : Fin n → SlabPc := fun _ => .idle
  live : List Nat := []
  held : PageRef → List Nat := fun _ => []
  log : PageRef → List StackEvent := fun _ => []

/-- The state `malloc_init` leaves, with `n` threads that have not called yet. -/
def SlabSys.initial (c : Cfg) (n : Nat) : SlabSys n := { heap := State.initial c }

/-- A thread starts a call, takes the next step of its call, for which the kernel has these
answers ready, or exits; or a client writes a byte of a block it holds. -/
inductive SlabAct (n : Nat) where
  | alloc (t : Fin n) (size : Nat)
  | free (t : Fin n) (ptr : Nat)
  | step (t : Fin n) (spurious : Bool) (answers : List (Option Nat))
  | exit (t : Fin n)
  | write (r : PageRef) (x i : Nat) (b : UInt8)
  deriving DecidableEq, Repr

/-- A page and the memory, as `Machines` works on them. -/
def State.cell (s : State) (r : PageRef) : Cell := ⟨s.mem, s.pages r⟩

def State.setCell (s : State) (r : PageRef) (x : Cell) : State :=
  { s.setPage r x.page with mem := x.mem }

namespace SlabSys

variable {n : Nat}

/-- Thread `t` goes on at `pc`. -/
def goto (σ : SlabSys n) (t : Fin n) (pc : SlabPc) : SlabSys n := { σ with pcs := upd σ.pcs t pc }

/-- The same threads over another heap. -/
def onHeap (σ : SlabSys n) (s : State) : SlabSys n := { σ with heap := s }

/-- Slot `x` leaves page `r`. -/
def takes (σ : SlabSys n) (r : PageRef) (x : Nat) : SlabSys n :=
  { σ with held := upd σ.held r (x :: σ.held r) }

/-- Slot `x` goes back to page `r`. -/
def gives (σ : SlabSys n) (r : PageRef) (x : Nat) : SlabSys n :=
  { σ with held := upd σ.held r ((σ.held r).erase x) }

/-- The remote stack of page `r` went through `events`, latest first. -/
def logs (σ : SlabSys n) (r : PageRef) (events : List StackEvent) : SlabSys n :=
  { σ with log := upd σ.log r (events ++ σ.log r) }

end SlabSys

/-- What a step of the fast path does to the remote stack. -/
def AllocPc.event (spurious : Bool) (s : Cell) : AllocPc → List StackEvent
  | .collect pc => pc.event (collectStep spurious s pc).2
  | _ => []

/-- The slot that a step of a bump takes. -/
def BumpPc.taken : BumpPc → Option Nat
  | .store slot _ => some slot
  | _ => none

/-- `*zeroed`: the fast path's slot is virgin when it was bumped. -/
def AllocPc.zeroed : AllocPc → Bool
  | .bump _ => true
  | _ => false

variable {n : Nat}

/-- The fast path goes on. A slot it returns has left the page. -/
def SlabSys.fastStep (σ : SlabSys n) (t : Fin n) (spurious : Bool) (bin : Nat) (r : PageRef)
    (pc : AllocPc) : SlabSys n :=
  let next := allocStep spurious (σ.heap.cell r) pc
  let σ' := (σ.onHeap (σ.heap.setCell r next.1)).logs r (pc.event spurious (σ.heap.cell r))
  match next.2 with
  | .goto pc' => σ'.goto t (.fast bin r pc')
  | .done none => σ'.goto t (.clear bin)
  | .done (some x) => (σ'.takes r x).goto t (.book r x pc.zeroed)

/-- A bump under the lock goes on. The slot leaves the page when `bump_offset` is stored. -/
def SlabSys.bumpStep (σ : SlabSys n) (t : Fin n) (k : ArenaCall) (r : PageRef) (pc : BumpPc) :
    SlabSys n :=
  let next := CustomMalloc.bumpStep (σ.heap.cell r) pc
  let σ' := σ.onHeap (σ.heap.setCell r next.1)
  let σ' := match pc.taken with
    | some x => σ'.takes r x
    | none => σ'
  match next.2 with
  | .goto pc' => σ'.goto t (.bump k r pc')
  | .done x => σ'.goto t (.credit k r x)

/-- A local free goes on. -/
def SlabSys.freeLocalStep (σ : SlabSys n) (t : Fin n) (r : PageRef) (pc : FreeLocalPc) :
    SlabSys n :=
  let next := CustomMalloc.freeLocalStep (σ.heap.cell r) pc
  let σ' := σ.onHeap (σ.heap.setCell r next.1)
  match next.2 with
  | .goto pc' => σ'.goto t (.freeLocal r pc')
  | .done _ => σ'.goto t (.freeStat r)

/-- A remote free goes on. -/
def SlabSys.freeRemoteStep (σ : SlabSys n) (t : Fin n) (spurious : Bool) (r : PageRef)
    (pc : FreeRemotePc) : SlabSys n :=
  let next := CustomMalloc.freeRemoteStep spurious (σ.heap.cell r) pc
  let σ' := (σ.onHeap (σ.heap.setCell r next.1)).logs r (pc.event next.2)
  match next.2 with
  | .goto pc' => σ'.goto t (.freeRemote r pc')
  | .done _ => σ'.goto t (.freeCredit r)

/-- `arena_alloc` set up page `r`, which nobody has a slot of. -/
def SlabSys.opens (σ : SlabSys n) (r : PageRef) : SlabSys n :=
  { σ with held := upd σ.held r [], log := upd σ.log r [] }

/-- Thread `t` takes the next step of its call. -/
def SlabSys.step (c : Cfg) (σ : SlabSys n) (t : Fin n) (spurious : Bool) : Option (SlabSys n) :=
  let s := σ.heap
  match σ.pcs t with
  | .idle => none
  | .enter bin =>
    match tldGet c s t with
    | (some _, s) => some ((σ.onHeap s).goto t (.look bin))
    | (none, s) => some ((σ.onHeap s).goto t (.again bin false))
  | .look bin =>
    match s.tls t with
    | none => none
    | some tld =>
      match tld.binPage bin with
      | none => some (σ.goto t (.again bin true))
      | some r =>
        if (s.pages r).state = .active then some (σ.goto t (.fast bin r .test))
        else some (σ.goto t (.again bin true))
  | .fast bin r pc => some (σ.fastStep t spurious bin r pc)
  | .book r slot zeroed =>
    match s.tls t with
    | none => none
    | some tld =>
      match tldStatAlloc s t tld (s.pages r).slotSize with
      | .error _ => none
      | .ok s => some ((σ.onHeap s).goto t (.ret slot zeroed))
  | .clear bin =>
    match s.tls t with
    | none => none
    | some tld =>
      some ((σ.onHeap (s.setTld t { tld with binPage := upd tld.binPage bin none })).goto t
        (.again bin true))
  | .again bin hasTld =>
    match tldGet c s t with
    | (tld, s) =>
      match tld.bind Tld.arena with
      | some a => some ((σ.onHeap s).goto t (.lock ⟨bin, hasTld, a⟩))
      | none => some ((σ.onHeap s).goto t (.next bin hasTld))
  | .next bin hasTld =>
    let idx := s.arenaNext.tmod numArenas
    if idx < 0 then none
    else some ((σ.onHeap { s with arenaNext := wrapInt (s.arenaNext + 1) }).goto t
      (.join ⟨bin, hasTld, idx.toNat⟩))
  | .join k =>
    let s := s.setArena k.arena
      { s.arenas k.arena with threadCount := wrapInt ((s.arenas k.arena).threadCount + 1) }
    match s.tls t with
    | some tld => some ((σ.onHeap (s.setTld t { tld with arena := some k.arena })).goto t (.lock k))
    | none => some ((σ.onHeap s).goto t (.lock k))
  | .lock k =>
    if σ.locks k.arena = none then
      some ({ σ with locks := upd σ.locks k.arena (some t) }.goto t (.head k))
    else none
  | .head k =>
    match (s.arenas k.arena).bins k.bin with
    | some r => some (σ.goto t (.owner k r))
    | none => some (σ.goto t (.grow k))
  | .owner k r =>
    if (s.pages r).ownerTid = noOwner then some (σ.goto t (.test k r))
    else some (σ.goto t (.follow k r))
  | .test k r =>
    if (s.pages r).bumpOffset < (s.pages r).bumpEnd then some (σ.goto t (.bump k r .read))
    else some (σ.goto t (.follow k r))
  | .follow k r =>
    match (s.pages r).next with
    | some q => some (σ.goto t (.owner k q))
    | none => some (σ.goto t (.grow k))
  | .grow k =>
    match arenaNewPage c s k.arena k.bin with
    | .error _ => none
    | .ok (none, s) => some ((σ.onHeap s).goto t (.unlock k 0 false))
    | .ok (some r, s) =>
      some (((σ.onHeap (binInsertPage s k.arena r)).opens r).goto t (.bump k r .read))
  | .bump k r pc => some (σ.bumpStep t k r pc)
  | .credit k r slot =>
    some ((σ.onHeap (arenaCredit s k.arena (s.pages r).slotSize)).goto t (.unlock k slot true))
  | .unlock k slot zeroed =>
    some ({ σ with locks := upd σ.locks k.arena none }.goto t
      (if k.hasTld = true ∧ slot ≠ 0 then .find k.bin slot zeroed else .ret slot zeroed))
  | .find bin slot zeroed =>
    match ptrToPage s slot with
    | none => some (σ.goto t (.ret slot zeroed))
    | some r => some (σ.goto t (.claim bin slot zeroed r))
  | .claim bin slot zeroed r =>
    match s.tls t with
    | none => none
    | some tld =>
      if (s.pages r).ownerTid = noOwner then
        some ((σ.onHeap (s.setPage r { s.pages r with ownerTid := tld.threadId })).goto t
          (.cache bin slot zeroed r))
      else if (s.pages r).ownerTid = tld.threadId then some (σ.goto t (.cache bin slot zeroed r))
      else some (σ.goto t (.ret slot zeroed))
  | .cache bin slot zeroed r =>
    match s.tls t with
    | none => none
    | some tld =>
      some ((σ.onHeap (s.setTld t { tld with binPage := upd tld.binPage bin (some r) })).goto t
        (.ret slot zeroed))
  | .ret slot _ =>
    some ({ σ with live := if slot = 0 then σ.live else slot :: σ.live }.goto t .idle)
  | .freeFind ptr =>
    if ptrToSegment s ptr = 0 then some (σ.goto t .idle)
    else
      match ptrToPage s ptr with
      | none => some (σ.goto t .idle)
      | some r =>
        if (s.pages r).state = .unused then some (σ.goto t .idle)
        else some (σ.goto t (.freeTld ptr r))
  | .freeTld ptr r =>
    match tldGet c s t with
    | (some _, s) => some ((σ.onHeap s).goto t (.freeOwner ptr r))
    | (none, s) => some (((σ.onHeap s).gives r ptr).goto t (.freeRemote r (.load ptr)))
  | .freeOwner ptr r =>
    match s.tls t with
    | none => none
    | some tld =>
      if (s.pages r).ownerTid = tld.threadId then
        some ((σ.gives r ptr).goto t (.freeLocal r (.load ptr)))
      else some ((σ.gives r ptr).goto t (.freeRemote r (.load ptr)))
  | .freeLocal r pc => some (σ.freeLocalStep t r pc)
  | .freeStat r =>
    match s.tls t with
    | none => none
    | some tld =>
      match tldStatFree s t tld (s.pages r).slotSize with
      | .error _ => none
      | .ok s => some ((σ.onHeap s).goto t .idle)
  | .freeRemote r pc => some (σ.freeRemoteStep t spurious r pc)
  | .freeCredit r =>
    some ((σ.onHeap (arenaCreditFree s (s.pages r).arena (s.pages r).slotSize)).goto t .idle)

/-- The size that `slab_alloc_inner` looks up, if the request is one for the slab allocator. -/
def slabBin (size : Nat) : Option Nat :=
  let size := if size = 0 then 1 else size
  let bin := sizeToBin sizeTables size
  if mediumMax < size ∨ pageSizeAlloc / 2 < binToSize sizeTables bin then none else some bin

/-- The step function. Only a held slot is freed or written to, and a thread starts a call or
exits between two calls. -/
def SlabSys.act (c : Cfg) (σ : SlabSys n) : SlabAct n → Option (SlabSys n)
  | .alloc t size =>
    match slabBin size with
    | some bin => if σ.pcs t = .idle then some (σ.goto t (.enter bin)) else none
    | none => none
  | .free t ptr =>
    if σ.pcs t = .idle ∧ ptr ∈ σ.live then
      some ({ σ with live := σ.live.erase ptr }.goto t (.freeFind ptr))
    else none
  | .step t spurious answers => (σ.onHeap (σ.heap.withAnswers answers)).step c t spurious
  | .exit t => if σ.pcs t = .idle then some (σ.onHeap (tldCleanup c σ.heap t)) else none
  | .write r x i b =>
    if x ∈ σ.live ∧ x ∈ σ.held r ∧ i < (σ.heap.pages r).slotSize then
      some (σ.onHeap { σ.heap with mem := upd σ.heap.mem (x + i) b })
    else none

end CustomMalloc

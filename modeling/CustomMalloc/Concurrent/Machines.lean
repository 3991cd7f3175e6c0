import CustomMalloc.Page
import CustomMalloc.Lib.Interleave

/-!
# The page operations, access by access

`Page` has the page operations as whole functions. Here each of them is a machine that
takes one step for every access to a field of the page or to the memory of a slot, so
that other threads can get in between. `spurious` makes a weak compare-and-swap fail
although the value is the expected one.

Without interference a machine computes the function it was cut from (`freeRemote_alone`
and the theorems like it).
-/

namespace CustomMalloc

open Lib.Words Lib.Bytes Lib.Interleave

/-- A page: its memory and its metadata. -/
structure Cell where
  mem : Mem
  page : PageMeta

/-! ## `page_free_slot_remote` -/

/-- Where `page_free_slot_remote(page, x)` stands. -/
inductive FreeRemotePc where
  /-- `old = atomic_load(&head->value)` -/
  | load (x : Nat)
  /-- `*node_next = old_ptr` -/
  | link (x old : Nat)
  /-- `tagged_cas(head, old, desired)` -/
  | cas (x old : Nat)
  /-- `atomic_fetch_add(&page->remote_free_count, 1)` -/
  | count
  /-- `atomic_fetch_sub(&page->used, 1)` -/
  | used
  deriving DecidableEq, Repr

def freeRemoteStep (spurious : Bool) (s : Cell) : FreeRemotePc → Cell × Next FreeRemotePc Unit
  | .load x => (s, .goto (.link x s.page.remoteFree))
  | .link x old => ({ s with mem := writeWord s.mem x (taggedPtr old) }, .goto (.cas x old))
  | .cas x old =>
    if spurious = false ∧ s.page.remoteFree = old then
      ({ s with page := { s.page with remoteFree := taggedMake x (taggedTag old + 1) } },
        .goto .count)
    else (s, .goto (.load x))
  | .count =>
    ({ s with page := { s.page with remoteFreeCount := (s.page.remoteFreeCount + 1) % 2 ^ 16 } },
      .goto .used)
  | .used => ({ s with page := { s.page with used := sub16 s.page.used 1 } }, .done ())

/-! ## `page_free_slot_local` -/

/-- Where `page_free_slot_local(page, x)`, or the same code in `slab_free`, stands. -/
inductive FreeLocalPc where
  /-- load `page->local_free` -/
  | load (x : Nat)
  /-- `*(void **)ptr = page->local_free` -/
  | link (x head : Nat)
  /-- `page->local_free = ptr` -/
  | head (x : Nat)
  /-- load `page->local_free_count` -/
  | count
  /-- `page->local_free_count = n + 1` -/
  | recount (n : Nat)
  /-- `atomic_fetch_sub(&page->used, 1)` -/
  | used
  deriving DecidableEq, Repr

def freeLocalStep (s : Cell) : FreeLocalPc → Cell × Next FreeLocalPc Unit
  | .load x => (s, .goto (.link x s.page.localFree))
  | .link x head => ({ s with mem := writeWord s.mem x head }, .goto (.head x))
  | .head x => ({ s with page := { s.page with localFree := x } }, .goto .count)
  | .count => (s, .goto (.recount s.page.localFreeCount))
  | .recount n =>
    ({ s with page := { s.page with localFreeCount := (n + 1) % 2 ^ 16 } }, .goto .used)
  | .used => ({ s with page := { s.page with used := sub16 s.page.used 1 } }, .done ())

/-! ## Popping `local_free` -/

/-- Where a pop of `local_free`, seen not to be null, stands. -/
inductive PopPc where
  /-- `slot = page->local_free` -/
  | head
  /-- load `*(void **)slot` -/
  | read (slot : Nat)
  /-- `page->local_free = next` -/
  | unlink (slot next : Nat)
  /-- load `page->local_free_count` -/
  | count (slot : Nat)
  /-- `page->local_free_count = n - 1` -/
  | recount (slot n : Nat)
  /-- `atomic_fetch_add(&page->used, 1)` -/
  | used (slot : Nat)
  deriving DecidableEq, Repr

def popStep (s : Cell) : PopPc → Cell × Next PopPc Nat
  | .head => (s, .goto (.read s.page.localFree))
  | .read slot => (s, .goto (.unlink slot (readWord s.mem slot)))
  | .unlink slot next => ({ s with page := { s.page with localFree := next } }, .goto (.count slot))
  | .count slot => (s, .goto (.recount slot s.page.localFreeCount))
  | .recount slot n =>
    ({ s with page := { s.page with localFreeCount := sub16 n 1 } }, .goto (.used slot))
  | .used slot =>
    ({ s with page := { s.page with used := (s.page.used + 1) % 2 ^ 16 } }, .done slot)

/-! ## Bumping -/

/-- Where taking a virgin slot stands, `bump_offset` having been seen below `bump_end`. -/
inductive BumpPc where
  /-- `slot = base + page->bump_offset` -/
  | read
  /-- load `page->bump_offset` once more -/
  | load (slot : Nat)
  /-- `page->bump_offset = offset + page->slot_size` -/
  | store (slot offset : Nat)
  /-- `atomic_fetch_add(&page->used, 1)` -/
  | used (slot : Nat)
  deriving DecidableEq, Repr

def bumpStep (s : Cell) : BumpPc → Cell × Next BumpPc Nat
  | .read => (s, .goto (.load (pageStart s.page + s.page.bumpOffset)))
  | .load slot => (s, .goto (.store slot s.page.bumpOffset))
  | .store slot offset =>
    ({ s with page := { s.page with bumpOffset := (offset + s.page.slotSize) % 2 ^ 32 } },
      .goto (.used slot))
  | .used slot =>
    ({ s with page := { s.page with used := (s.page.used + 1) % 2 ^ 16 } }, .done slot)

/-! ## `page_collect_remote` -/

/-- Where `page_collect_remote(page)` stands. -/
inductive CollectPc where
  /-- `old = atomic_load(&head->value)` -/
  | load
  /-- `tagged_cas(head, old, desired)` -/
  | cas (old : Nat)
  /-- load `*(void **)current` -/
  | walk (list current count : Nat)
  /-- load `page->local_free` -/
  | rest (list tail count : Nat)
  /-- `*(void **)tail = page->local_free` -/
  | splice (list tail count head : Nat)
  /-- `page->local_free = list` -/
  | head (list count : Nat)
  /-- load `page->local_free_count` -/
  | count (count : Nat)
  /-- `page->local_free_count = n + count` -/
  | recount (count n : Nat)
  /-- `atomic_fetch_sub(&page->remote_free_count, count)` -/
  | settle (count : Nat)
  deriving DecidableEq, Repr

def collectStep (spurious : Bool) (s : Cell) : CollectPc → Cell × Next CollectPc Unit
  | .load =>
    if taggedPtr s.page.remoteFree = 0 then (s, .done ()) else (s, .goto (.cas s.page.remoteFree))
  | .cas old =>
    if spurious = false ∧ s.page.remoteFree = old then
      ({ s with page := { s.page with remoteFree := taggedMake 0 (taggedTag old + 1) } },
        .goto (.walk (taggedPtr old) (taggedPtr old) 0))
    else (s, .goto .load)
  | .walk list current count =>
    let count := (count + 1) % 2 ^ 16
    let next := readWord s.mem current
    if next = 0 then (s, .goto (.rest list current count)) else (s, .goto (.walk list next count))
  | .rest list tail count => (s, .goto (.splice list tail count s.page.localFree))
  | .splice list tail count head =>
    ({ s with mem := writeWord s.mem tail head }, .goto (.head list count))
  | .head list count => ({ s with page := { s.page with localFree := list } }, .goto (.count count))
  | .count count => (s, .goto (.recount count s.page.localFreeCount))
  | .recount count n =>
    ({ s with page := { s.page with localFreeCount := (n + count) % 2 ^ 16 } },
      .goto (.settle count))
  | .settle count =>
    ({ s with page := { s.page with remoteFreeCount := sub16 s.page.remoteFreeCount count } },
      .done ())

/-! ## `page_alloc_slot` -/

/-- Where `page_alloc_slot(page)`, or the same code in `slab_alloc_inner`, stands. -/
inductive AllocPc where
  /-- `if (page->local_free)` -/
  | test
  | pop (pc : PopPc)
  /-- `if (page->bump_offset < page->bump_end)` -/
  | bumpTest
  | bump (pc : BumpPc)
  | collect (pc : CollectPc)
  /-- `if (page->local_free)` after collecting -/
  | retest
  deriving DecidableEq, Repr

def allocStep (spurious : Bool) (s : Cell) : AllocPc → Cell × Next AllocPc (Option Nat)
  | .test => (s, .goto (if s.page.localFree ≠ 0 then .pop .head else .bumpTest))
  | .pop pc => ((popStep s pc).1, (popStep s pc).2.within .pop fun x => .done (some x))
  | .bumpTest =>
    (s, .goto (if s.page.bumpOffset < s.page.bumpEnd then .bump .read else .collect .load))
  | .bump pc => ((bumpStep s pc).1, (bumpStep s pc).2.within .bump fun x => .done (some x))
  | .collect pc =>
    ((collectStep spurious s pc).1, (collectStep spurious s pc).2.within .collect fun _ =>
      .goto .retest)
  | .retest => (s, if s.page.localFree ≠ 0 then .goto (.pop .head) else .done none)

/-! ## Without interference -/

variable {m : Mem} {p : PageMeta}

theorem freeRemoteStep_cas {s : Cell} (x : Nat) :
    freeRemoteStep false s (.cas x s.page.remoteFree) =
      ({ s with page := { s.page with
          remoteFree := taggedMake x (taggedTag s.page.remoteFree + 1) } }, .goto .count) :=
  if_pos ⟨rfl, rfl⟩

theorem collectStep_cas {s : Cell} :
    collectStep false s (.cas s.page.remoteFree) =
      ({ s with page := { s.page with
          remoteFree := taggedMake 0 (taggedTag s.page.remoteFree + 1) } },
        .goto (.walk (taggedPtr s.page.remoteFree) (taggedPtr s.page.remoteFree) 0)) :=
  if_pos ⟨rfl, rfl⟩

theorem collectStep_walk (s : Cell) (spurious : Bool) (list count : Nat) {current : Nat}
    (h : readWord s.mem current ≠ 0) :
    collectStep spurious s (.walk list current count) =
      (s, .goto (.walk list (readWord s.mem current) ((count + 1) % 2 ^ 16))) := by
  simp only [collectStep, if_neg h]

theorem collectStep_walked (s : Cell) (spurious : Bool) (list count : Nat) {current : Nat}
    (h : readWord s.mem current = 0) :
    collectStep spurious s (.walk list current count) =
      (s, .goto (.rest list current ((count + 1) % 2 ^ 16))) := by
  simp only [collectStep, if_pos h]

theorem freeRemote_alone (m : Mem) (p : PageMeta) (x : Nat) :
    alone (freeRemoteStep false) 5 ⟨m, p⟩ (.load x) =
      some (⟨(pageFreeSlotRemote m p x).1, (pageFreeSlotRemote m p x).2⟩, ()) := by
  rw [alone_goto rfl, alone_goto rfl, alone_goto (freeRemoteStep_cas x), alone_goto rfl,
    alone_done rfl]
  rfl

theorem freeLocal_alone (m : Mem) (p : PageMeta) (x : Nat) :
    alone freeLocalStep 6 ⟨m, p⟩ (.load x) =
      some (⟨(pageFreeSlotLocal m p x).1, (pageFreeSlotLocal m p x).2⟩, ()) := rfl

theorem pop_alone (m : Mem) (p : PageMeta) :
    alone popStep 6 ⟨m, p⟩ .head = some (⟨m, popLocalFree m p⟩, p.localFree) := rfl

theorem bump_alone (m : Mem) (p : PageMeta) :
    alone bumpStep 4 ⟨m, p⟩ .read = some (⟨m, bumpSlot p⟩, pageStart p + p.bumpOffset) := rfl

/-- The walk over the collected list and what comes after it. -/
theorem walk_alone {list tail count : Nat} :
    ∀ {fuel current n : Nat}, walkTail m fuel current n = some (tail, count) →
      alone (collectStep false) (fuel + 6) ⟨m, p⟩ (.walk list current n) =
        some (⟨writeWord m tail p.localFree, { p with
          localFree := list
          localFreeCount := (p.localFreeCount + count) % 2 ^ 16
          remoteFreeCount := sub16 p.remoteFreeCount count }⟩, ()) := by
  intro fuel
  induction fuel with
  | zero =>
    intro current n h
    exact absurd h (by simp [walkTail])
  | succ fuel ih =>
    intro current n h
    unfold walkTail at h
    by_cases hnext : readWord m current = 0
    · simp only [if_pos hnext, Option.some.injEq, Prod.mk.injEq] at h
      obtain ⟨rfl, rfl⟩ := h
      have hend := collectStep_walked ⟨m, p⟩ false list n hnext
      rw [alone_goto hend, alone_goto rfl, alone_goto rfl, alone_goto rfl, alone_goto rfl,
        alone_goto rfl, alone_done rfl]
    · simp only [if_neg hnext] at h
      have hgo := collectStep_walk ⟨m, p⟩ false list n hnext
      rw [Nat.add_right_comm, alone_goto hgo]
      exact ih h

theorem collect_alone {m' : Mem} {p' : PageMeta} (h : pageCollectRemote m p = .ok (m', p')) :
    alone (collectStep false) (p.capacity + 8) ⟨m, p⟩ .load = some (⟨m', p'⟩, ()) := by
  unfold pageCollectRemote treiberCollect at h
  by_cases h0 : taggedPtr p.remoteFree = 0
  · simp only [if_pos h0, if_pos] at h
    cases h
    have hload : collectStep false ⟨m, p⟩ .load = (⟨m, p⟩, .done ()) := if_pos h0
    exact alone_done hload
  · simp only [if_neg h0] at h
    rcases hw : walkTail m p.capacity (taggedPtr p.remoteFree) 0 with _ | ⟨tail, count⟩
    · rw [hw] at h
      cases h
    · rw [hw] at h
      cases h
      have hload : collectStep false ⟨m, p⟩ .load = (⟨m, p⟩, .goto (.cas p.remoteFree)) := if_neg h0
      rw [alone_goto hload, alone_goto collectStep_cas, walk_alone hw]

end CustomMalloc

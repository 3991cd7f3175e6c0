import CustomMalloc.Concurrent.SlabMachine
import CustomMalloc.Inv.Ownership

/-!
# The heap without its slots

While calls overlap, the pages are in the middle of something and the invariant of whole
calls does not hold. But what is around the slots (segments, bin lists, the registry, the
threads' data) changes only in steps that are whole. `flat s` is the heap with all slots
put back, as if none had ever been taken: the steps on a page do not change it
(`State.flat_setCell`), and every other step does to it what it does to the heap
(`tldGet_flat`, `arenaNewPage_flat` and the like). So the invariant of whole calls holds of
`flat s` throughout, and its lemmas apply.
-/

namespace CustomMalloc

open Lib.Words Lib.Bytes Lib.Chain Lib.Intervals Lib.Interleave Lib.Regions Lib.Post

variable {c : Cfg} {s s' : State} {r : PageRef} {t : Nat}

/-- The page as if no slot of it had been taken. -/
def PageMeta.flat (p : PageMeta) : PageMeta :=
  { p with
    used := 0
    bumpOffset := 0
    localFree := 0
    localFreeCount := 0
    remoteFree := 0
    remoteFreeCount := 0
    debugBitmap := fun _ => 0 }

/-- The heap as if no slot had been taken. -/
def State.flat (s : State) : State :=
  { s with mem := fun _ => 0, pages := fun r => (s.pages r).flat }

/-! ## Steps that `flat` does not see -/

theorem popStep_flat (x : Cell) (pc : PopPc) : (popStep x pc).1.page.flat = x.page.flat := by
  cases pc <;> rfl

theorem bumpStep_flat (x : Cell) (pc : BumpPc) : (bumpStep x pc).1.page.flat = x.page.flat := by
  cases pc <;> rfl

theorem collectStep_flat (sp : Bool) (x : Cell) (pc : CollectPc) :
    (collectStep sp x pc).1.page.flat = x.page.flat := by
  cases pc with
  | load => simp only [collectStep]; split <;> rfl
  | cas old => simp only [collectStep]; split <;> rfl
  | walk list current count => simp only [collectStep]; split <;> rfl
  | rest | splice | head | count | recount | settle => rfl

theorem allocStep_flat (sp : Bool) (x : Cell) (pc : AllocPc) :
    (allocStep sp x pc).1.page.flat = x.page.flat := by
  cases pc with
  | test | bumpTest | retest => rfl
  | pop pc => exact popStep_flat x pc
  | bump pc => exact bumpStep_flat x pc
  | collect pc => exact collectStep_flat sp x pc

theorem freeLocalStep_flat (x : Cell) (pc : FreeLocalPc) :
    (freeLocalStep x pc).1.page.flat = x.page.flat := by
  cases pc <;> rfl

theorem freeRemoteStep_flat (sp : Bool) (x : Cell) (pc : FreeRemotePc) :
    (freeRemoteStep sp x pc).1.page.flat = x.page.flat := by
  cases pc with
  | cas y old => simp only [freeRemoteStep]; split <;> rfl
  | load | link | count | used => rfl

theorem State.flat_setPage (s : State) (r : PageRef) (p : PageMeta) :
    (s.setPage r p).flat = s.flat.setPage r p.flat := by
  unfold State.flat State.setPage
  simp only [State.mk.injEq, true_and, and_true]
  funext q
  by_cases hq : q = r
  · rw [hq, upd_same, upd_same]
  · rw [upd_ne hq, upd_ne hq]

/-- A step on the slots of one page. -/
theorem State.flat_setCell (s : State) {r : PageRef} {x : Cell}
    (h : x.page.flat = (s.pages r).flat) :
    (s.setCell r x).flat = s.flat := by
  show (s.setPage r x.page).flat = s.flat
  rw [State.flat_setPage, h]
  exact congrArg (fun P => { s.flat with pages := P }) (upd_eta _ _)

/-! ## Steps that are the same on `flat` -/

theorem fillZero_zero (a n : Nat) : fillZero (fun _ => 0) a n = fun _ => 0 := by
  funext x
  unfold fillZero
  split <;> rfl

theorem mmap_flat (s : State) (n : Nat) :
    mmap c s.flat n = ((mmap c s n).1, (mmap c s n).2.flat) := by
  unfold mmap
  rw [show s.flat.answers = s.answers from rfl]
  cases s.answers with
  | nil => rfl
  | cons o rest =>
    cases o with
    | none => rfl
    | some a =>
      simp only
      rw [show canMap c s.flat a n = canMap c s a n from rfl]
      split
      next => simp only [State.flat, fillZero_zero]
      next => rfl

theorem osMmapAligned_flat (s : State) (n al : Nat) :
    osMmapAligned c s.flat n al =
      ((osMmapAligned c s n al).1, (osMmapAligned c s n al).2.flat) := by
  unfold osMmapAligned
  split
  next =>
    rw [mmap_flat]
    rcases mmap c s n with ⟨o, s₁⟩
    cases o with
    | none => rfl
    | some p => rfl
  next =>
    simp only
    rw [mmap_flat]
    rcases mmap c s ((n + al - 1) % 2 ^ 64) with ⟨o, s₁⟩
    cases o with
    | none => rfl
    | some p =>
      simp only
      split
      next =>
        split
        next => rfl
        next => rfl
      next =>
        split
        next => rfl
        next => rfl

theorem tldGet_flat (s : State) (t : Nat) :
    tldGet c s.flat t = ((tldGet c s t).1, (tldGet c s t).2.flat) := by
  unfold tldGet
  rw [show s.flat.tls t = s.tls t from rfl]
  cases s.tls t with
  | some tld => rfl
  | none =>
    simp only
    rw [osMmapAligned_flat]
    rcases osMmapAligned c s c.osPage c.osPage with ⟨addr, s₁⟩
    simp only
    split
    next => rfl
    next => rfl

theorem osMunmap_flat (s : State) (a n : Nat) :
    osMunmap c s.flat a n = (osMunmap c s a n).flat := by
  unfold osMunmap
  split
  next => rfl
  next => rfl

theorem tldCleanup_flat (s : State) (t : Nat) :
    tldCleanup c s.flat t = (tldCleanup c s t).flat := by
  have hflat : s.flat.tls t = s.tls t := rfl
  cases hx : s.tls t with
  | none => rw [tldCleanup_none hx, tldCleanup_none (hflat.trans hx)]
  | some x =>
    have hexit : exited s.flat t x = (exited s t x).flat := by
      unfold exited
      cases x.arena <;> rfl
    rw [tldCleanup_eq hx, tldCleanup_eq (hflat.trans hx), hexit, osMunmap_flat]
    split
    next => rfl
    next => rfl

theorem unusedPage_flat (s : State) (seg : Nat) : unusedPage s.flat seg = unusedPage s seg := rfl

theorem segmentAllocPage_flat (s : State) (seg bin : Nat) :
    segmentAllocPage s.flat seg bin =
      ((segmentAllocPage s seg bin).1, (segmentAllocPage s seg bin).2.flat) := by
  unfold segmentAllocPage
  rw [show s.flat.segs seg = s.segs seg from rfl, unusedPage_flat]
  cases s.segs seg with
  | none => rfl
  | some g =>
    cases unusedPage s seg with
    | none => rfl
    | some i =>
      have hpage := State.flat_setPage s ⟨seg, i⟩
        (pageInit (s.pages ⟨seg, i⟩) seg g.arena i bin (binToSize sizeTables bin))
      simp only [Prod.mk.injEq, true_and]
      exact congrArg (fun w : State => { w with
        segs := upd s.segs seg (some { g with pagesUsed := (g.pagesUsed + 1) % 2 ^ 16 }) })
        hpage.symm

theorem linkSegment_flat (s : State) (a seg : Nat) :
    linkSegment s.flat a seg = (linkSegment s a seg).flat := by
  unfold linkSegment
  rw [show s.flat.arenas = s.arenas from rfl]
  cases (s.arenas a).segments with
  | none => rfl
  | some x => rfl

theorem segmentCreate_flat (s : State) (a : Nat) :
    segmentCreate c s.flat a = ((segmentCreate c s a).1, (segmentCreate c s a).2.flat) := by
  unfold segmentCreate
  rw [osMmapAligned_flat]
  rcases osMmapAligned c s segmentSize segmentSize with ⟨seg, s₁⟩
  simp only
  split
  next => rfl
  next =>
    simp only [State.flat, Prod.mk.injEq, State.mk.injEq, true_and, and_true]
    funext q
    split <;> rfl

theorem arenaNewPage_flat (s : State) (a bin : Nat) :
    arenaNewPage c s.flat a bin = (arenaNewPage c s a bin).map fun x => (x.1, x.2.flat) := by
  unfold arenaNewPage
  rw [show s.flat.segs = s.segs from rfl, show s.flat.arenas = s.arenas from rfl,
    show (fun b => (unusedPage s.flat b).isSome) = fun b => (unusedPage s b).isSome from rfl]
  generalize findFrom (fun b => (s.segs b).bind Segment.next) _ walkBound (s.arenas a).segments = o
  cases o with
  | none => rfl
  | some o =>
    cases o with
    | some seg =>
      simp only [segmentAllocPage_flat]
      rfl
    | none =>
      simp only [segmentCreate_flat]
      rcases segmentCreate c s a with ⟨seg, s₁⟩
      simp only
      split
      next => rfl
      next =>
        rw [linkSegment_flat, segmentAllocPage_flat]
        rfl

theorem binInsertPage_flat (s : State) (a : Nat) (r : PageRef) :
    binInsertPage s.flat a r = (binInsertPage s a r).flat := by
  unfold binInsertPage
  simp only [State.setPage, State.setArena]
  rw [show s.flat.arenas = s.arenas from rfl,
    show (s.flat.pages r).binIdx = (s.pages r).binIdx from rfl]
  generalize (s.arenas a).bins (s.pages r).binIdx = head
  cases head with
  | none =>
    simp only [State.flat, State.mk.injEq, true_and, and_true]
    funext q
    by_cases hq : q = r
    · rw [hq, upd_same, upd_same]
      rfl
    · rw [upd_ne hq, upd_ne hq]
  | some h =>
    simp only [State.flat, State.mk.injEq, true_and, and_true]
    funext q
    by_cases hh : q = h
    · subst hh
      rw [upd_same, upd_same]
      by_cases hq : q = r
      · rw [hq, upd_same, upd_same]
        rfl
      · rw [upd_ne hq, upd_ne hq]
        rfl
    · rw [upd_ne hh, upd_ne hh]
      by_cases hq : q = r
      · rw [hq, upd_same, upd_same]
        rfl
      · rw [upd_ne hq, upd_ne hq]

/-! ## What the invariant of `flat` says about the heap -/

/-- The pages are laid out. -/
theorem Inv.flat_geom (h : Inv c s.flat Ghost.empty) (hact : Active s r) : Geom r (s.pages r) := by
  obtain ⟨hinv, -⟩ := h.active (r := r) hact.1 hact.2
  have g := hinv.geom
  exact ⟨g.active, g.segment, g.pageIndex, g.bin_lt, g.slot_eq, g.slot_ge, g.slot_le, g.slot_al,
    g.cap_eq, g.end_eq, g.start_pos, g.start_lt, g.start_al⟩

end CustomMalloc

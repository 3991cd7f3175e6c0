import CustomMalloc.Inv.Structure
import CustomMalloc.Run

/-!
# The lists and counters of the arenas

A run here is any sequence of `arena_alloc` for any bin and of `arena_free` for any page
of a segment, under any answers of the kernel. In between the owners of the pages may do
what they like to counters, offsets and free lists of pages in use, and to everything that
is not a list of an arena (`Touched`); `slab_free` is an example (`slabFree_touched`),
and what empties a page.

`segment_count` has 32 bits. It is the length of the segment list while there are
fewer than `2 ^ 32` segments, as there are in the 48 bits of address space that
`PTR_MASK` leaves.
-/

namespace CustomMalloc

open Lib.Words Lib.Bytes Lib.Chain Lib.Intervals Lib.Post

variable {c : Cfg} {s s' : State} {r : PageRef}

/-! ## Runs -/

/-- One step of a run: `arena_alloc`, `arena_free` with the page's arena, or something else. -/
inductive ArenaRunStep (c : Cfg) (s : State) : State → Prop
  | alloc {a bin slot : Nat} {zeroed : Bool} {s' : State} (ans : List (Option Nat))
      (hbin : bin < binCount)
      (h : arenaAlloc c (s.withAnswers ans) a bin = .ok ((slot, zeroed), s')) : ArenaRunStep c s s'
  | free {r : PageRef} {g : Segment} (hg : s.segs r.seg = some g) (hlt : r.idx < pagesPerSegment) :
      ArenaRunStep c s (arenaFree s (s.pages r).arena r)
  | other {s' : State} (h : Touched s s') : ArenaRunStep c s s'

/-- The states of the runs. -/
def ArenaReachable (c : Cfg) (s : State) : Prop :=
  Relation.ReflTransGen (ArenaRunStep c) (State.initial c) s

theorem ArenaInv.withAnswers (h : ArenaInv s) (ans : List (Option Nat)) :
    ArenaInv (s.withAnswers ans) := h

theorem arenaRunStep_inv (h : ArenaInv s) (hs : ArenaRunStep c s s') : ArenaInv s' := by
  cases hs with
  | alloc ans _ he => exact (ensures_elim ((h.withAnswers ans).arenaAlloc _ _) he).inv
  | free hg hlt => exact h.arenaFree hg hlt
  | other ht => exact h.touched ht

theorem arenaReachable_inv (h : ArenaReachable c s) : ArenaInv s := by
  induction h with
  | refl => exact .initial c
  | tail _ hs ih => exact arenaRunStep_inv ih hs

/-! ## `slab_free` between two calls -/

theorem Touched.refl (h : ArenaInv s) : Touched s s :=
  ⟨rfl, fun _ => rfl, fun _ => rfl, fun _ => rfl, fun hg h₁ h₂ => h.mapped hg h₁ h₂,
    fun _ => ⟨rfl, rfl, rfl, rfl, rfl, rfl, rfl⟩, fun _ _ => rfl⟩

/-- Threads and bytes are not part of the structure. -/
theorem Touched.setThreads (h : ArenaInv s) (tls : Nat → Option Tld) (n : Nat) (m : Mem) :
    Touched s { s with tls := tls, threadIdCounter := n, mem := m } :=
  ⟨rfl, fun _ => rfl, fun _ => rfl, fun _ => rfl, fun hg h₁ h₂ => h.mapped hg h₁ h₂,
    fun _ => ⟨rfl, rfl, rfl, rfl, rfl, rfl, rfl⟩, fun _ _ => rfl⟩

theorem markFreed_place {p p' : PageMeta} {slot : Nat} (he : markFreed c p slot = .ok p') :
    SamePlace p p' := by
  obtain ⟨bm, rfl⟩ := markFreed_eq he
  exact ⟨rfl, rfl, rfl, rfl, rfl, rfl, rfl⟩

theorem tldGet_touched {t : Nat} {o : Option Tld} (h : ArenaInv s)
    (he : tldGet c s t = (o, s')) : Touched s s' := by
  rcases tldGet_cases he with ⟨x, -, -, rfl⟩ | ⟨-, -, hos⟩ | ⟨s₁, addr, -, hos, -, rfl⟩
  · exact .refl h
  · exact .of_os h hos
  · have ht := Touched.of_os h hos
    exact ht.trans (.setThreads (h.touched ht) _ _ s₁.mem)

/-- Freeing a slot of an active page leaves the structure alone. -/
theorem slabFree_touched {t p : Nat} (h : ArenaInv s)
    (hact : ∀ r, ptrToPage s p = some r → (s.pages r).state = .active)
    (he : slabFree c s t p = .ok s') : Touched s s' := by
  -- the page after the debug check, and the thread's data
  have hstart : ∀ {r : PageRef} {p' : PageMeta} {o : Option Tld} {s₁ : State},
      ptrToPage s p = some r → markFreed c (s.pages r) p = .ok p' →
      tldGet c (s.setPage r p') t = (o, s₁) →
      Touched s s₁ ∧ ArenaInv s₁ ∧ (s₁.pages r).state = .active ∧ SamePlace (s₁.pages r) p' := by
    intro r p' o s₁ hr hm htld
    have ht := Touched.setPage h (hact r hr) (markFreed_place hm)
    have ht' := tldGet_touched (h.touched ht) htld
    have hall := ht.trans ht'
    have hp := ht'.place r
    simp only [State.setPage, upd_same] at hp
    exact ⟨hall, h.touched hall, (hall.place r).state.trans (hact r hr), hp.arena.symm,
      hp.segment.symm, hp.pageIndex.symm, hp.binIdx.symm, hp.state.symm, hp.next.symm, hp.prev.symm⟩
  cases slabFree_cases he with
  | ignored hs =>
    rw [hs]
    exact .refl h
  | owned r p' x s₁ hr hm htld _ he =>
    obtain ⟨hall, hinv, hst, hp⟩ := hstart hr hm htld
    have hpage := Touched.setPage hinv hst (p := (pageFreeSlotLocal s₁.mem p' p).2)
      ⟨hp.arena, hp.segment, hp.pageIndex, hp.binIdx, hp.state, hp.next, hp.prev⟩
    have hmem := hpage.trans (.setThreads (hinv.touched hpage) s₁.tls s₁.threadIdCounter
      (pageFreeSlotLocal s₁.mem p' p).1)
    have hinv' := hinv.touched hmem
    refine hall.trans (hmem.trans ?_)
    rcases tldStatStore_cases (s := { s₁.setPage r (pageFreeSlotLocal s₁.mem p' p).2 with
      mem := (pageFreeSlotLocal s₁.mem p' p).1 }) he with ⟨-, rfl⟩ | ⟨a, -, rfl⟩
    · exact .setThreads hinv' _ _ _
    · have hflush := Touched.setArena hinv' (a := a) (x := { s₁.arenas a with
        allocated := ((s₁.arenas a).allocated + x.statAllocated) % 2 ^ 64
        freed := ((s₁.arenas a).freed + (x.statFreed + p'.slotSize) % 2 ^ 64) % 2 ^ 64
        allocCount := ((s₁.arenas a).allocCount + x.statAllocCount) % 2 ^ 64
        freeCount := ((s₁.arenas a).freeCount + (x.statFreeCount + 1) % 2 ^ 64) % 2 ^ 64 })
        rfl rfl rfl
      exact hflush.trans (.setThreads (hinv'.touched hflush) _ _ _)
  | remote r p' o s₁ hr hm htld _ he =>
    obtain ⟨hall, hinv, hst, hp⟩ := hstart hr hm htld
    have hpage := Touched.setPage hinv hst (p := (pageFreeSlotRemote s₁.mem p' p).2)
      ⟨hp.arena, hp.segment, hp.pageIndex, hp.binIdx, hp.state, hp.next, hp.prev⟩
    have hmem := hpage.trans (.setThreads (hinv.touched hpage) s₁.tls s₁.threadIdCounter
      (pageFreeSlotRemote s₁.mem p' p).1)
    rw [he]
    exact hall.trans (hmem.trans (.setArena (hinv.touched hmem) rfl rfl rfl))

/-! ## The arena structure -/

/-- Page `r` is on the list of bin `b` of arena `a`. -/
def OnBin (s : State) (a b : Nat) (r : PageRef) : Prop :=
  ∃ l, DList (fun q => (s.pages q).next) (fun q => (s.pages q).prev) ((s.arenas a).bins b) l ∧ r ∈ l

theorem ArenaInv.onBin_iff (h : ArenaInv s) {a b : Nat} :
    OnBin s a b r ↔ InBin s.segs s.pages a b r := by
  obtain ⟨l, hl, hmem⟩ := h.bins a b
  constructor
  · rintro ⟨l', hl', hr⟩
    obtain rfl := hl.1.unique hl'.1
    exact (hmem r).mp hr
  · exact fun hr => ⟨l, hl, (hmem r).mpr hr⟩

/-- A segment list in 48 bits of address space is shorter than `2 ^ 32`. -/
theorem ArenaInv.segmentCount_eq (h : ArenaInv s) (a : Nat) :
    ∃ l, DList (fun b => (s.segs b).bind Segment.next) (fun b => (s.segs b).bind Segment.prev)
        (s.arenas a).segments l ∧
      (∀ b, b ∈ l ↔ ∃ g, s.segs b = some g ∧ g.arena = a) ∧
      (s.arenas a).segmentCount = l.length % 2 ^ 32 ∧
      ((∀ b ∈ l, b + segmentSize ≤ 2 ^ 48) → (s.arenas a).segmentCount = l.length) := by
  obtain ⟨l, hl, hmem, hlen⟩ := h.segLists a
  refine ⟨l, hl, hmem, hlen, fun hlow => ?_⟩
  have hcard := h.seg_length_mul_le hl.1.nodup (N := 2 ^ 48) fun b hb => by
    obtain ⟨g, hg, -⟩ := (hmem b).mp hb
    exact ⟨by rw [hg]; rfl, hlow b hb⟩
  rw [hlen]
  exact Nat.mod_eq_of_lt (by omega)

/-- The structure of the arenas, in every state of every run. Bin lists are doubly linked lists;
an active data page is on the list of its bin and arena and on no other, and nothing else is on
a list; the counters of pages and segments are right. The next `arena_alloc` returns unless a
debug check aborts it: `NULL` and nothing changed, or a slot of a data page, with a new segment
only when all data pages of the arena were in use. -/
theorem arena_structure (c : Cfg) (s : State) (h : ArenaReachable c s) :
    (∀ a b, ∃ l, l.Nodup ∧ DList (fun r => (s.pages r).next) (fun r => (s.pages r).prev)
      ((s.arenas a).bins b) l) ∧
    (∀ r g, s.segs r.seg = some g → pagesDataStart ≤ r.idx → r.idx < pagesPerSegment →
      (s.pages r).state = .active →
      ∀ a b, OnBin s a b r ↔ a = g.arena ∧ b = (s.pages r).binIdx) ∧
    (∀ a b r, OnBin s a b r → IsData s.segs r ∧ (s.pages r).state = .active) ∧
    (∀ b g, s.segs b = some g →
      g.pagesUsed = usedPages s.pages b ∧ (s.pages ⟨b, 0⟩).state = .full) ∧
    (∀ a, ∃ l, DList (fun b => (s.segs b).bind Segment.next) (fun b => (s.segs b).bind Segment.prev)
        (s.arenas a).segments l ∧
      (∀ b, b ∈ l ↔ ∃ g, s.segs b = some g ∧ g.arena = a) ∧
      (s.arenas a).segmentCount = l.length % 2 ^ 32 ∧
      ((∀ b ∈ l, b + segmentSize ≤ 2 ^ 48) → (s.arenas a).segmentCount = l.length)) ∧
    ∀ ans a bin, bin < binCount →
      Ensures (fun e => ∃ d, e = .abort d) (arenaAlloc c (s.withAnswers ans) a bin)
        fun ((slot, _), s') => ArenaStep s a bin slot s' := by
  have hinv := arenaReachable_inv h
  refine ⟨?_, ?_, ?_, ?_, hinv.segmentCount_eq, ?_⟩
  · intro a b
    obtain ⟨l, hl, -⟩ := hinv.bins a b
    exact ⟨l, hl.1.nodup, hl⟩
  · intro r g hg h₁ h₂ hact a b
    have harena : (s.pages r).arena = g.arena := by
      rcases (hinv.data hg h₁ h₂).use with ⟨hun, -⟩ | ⟨-, ha⟩
      · cases hun.symm.trans hact
      · exact ha
    rw [hinv.onBin_iff]
    constructor
    · rintro ⟨-, -, ha, hb⟩
      exact ⟨ha.symm.trans harena, hb.symm⟩
    · rintro ⟨rfl, rfl⟩
      exact ⟨isData_of hg h₁ h₂, hact, harena, rfl⟩
  · intro a b r hr
    obtain ⟨hd, hact, -⟩ := hinv.onBin_iff.mp hr
    exact ⟨hd, hact⟩
  · exact fun b g hg => ⟨hinv.counts hg, (hinv.header hg).1⟩
  · intro ans a bin _
    refine ensures_mono ((hinv.withAnswers ans).arenaAlloc a bin) ?_
    rintro ⟨⟨slot, zeroed⟩, s'⟩ hstep
    exact ⟨hstep.inv, hstep.null, hstep.page, hstep.grow⟩

/-- The first page of arena 0, for bin 1. -/
def onePage : State :=
  (returned (State.initial (.page4k false)) (arenaAlloc (.page4k false)
    ((State.initial (.page4k false)).withAnswers [some 0x20000000]) 0 1)).2

/-- Its only slot was freed and the page retired. -/
def pageRetired : State :=
  arenaFree (onePage.setPage ⟨0x20000000, 1⟩ { onePage.pages ⟨0x20000000, 1⟩ with used := 0 }) 0
    ⟨0x20000000, 1⟩

theorem onePage_reachable : ArenaReachable (.page4k false) onePage := by
  have hres : (returned (State.initial (.page4k false)) (arenaAlloc (.page4k false)
      ((State.initial (.page4k false)).withAnswers [some 0x20000000]) 0 1)).1 =
      some (0x20010000, true) := by decide +kernel
  exact .single (.alloc [some 0x20000000] (by decide) (eq_ok_of_returned hres))

theorem pageRetired_reachable : ArenaReachable (.page4k false) pageRetired := by
  have hone := onePage_reachable
  have htouch := hone.tail (.other (Touched.setPage (arenaReachable_inv hone)
    (r := ⟨0x20000000, 1⟩) (p := { onePage.pages ⟨0x20000000, 1⟩ with used := 0 })
    (by decide +kernel) ⟨rfl, rfl, rfl, rfl, rfl, rfl, rfl⟩))
  have hseg : onePage.segs 0x20000000 = some ⟨1, 0, none, none⟩ := by decide +kernel
  exact htouch.tail (.free (r := ⟨0x20000000, 1⟩) hseg (by decide))

/-- No page is in use any more, and none is on a list. -/
theorem arena_structure_retired :
    pageRetired.segs 0x20000000 = some ⟨0, 0, none, none⟩ ∧
      usedPages pageRetired.pages 0x20000000 = 0 ∧
      ∀ a b, ¬ OnBin pageRetired a b ⟨0x20000000, 1⟩ := by
  have hseg : pageRetired.segs 0x20000000 = some ⟨0, 0, none, none⟩ := by decide +kernel
  have hstate : (pageRetired.pages ⟨0x20000000, 1⟩).state = .unused := by decide +kernel
  obtain ⟨-, -, honly, hcount, -⟩ :=
    arena_structure (.page4k false) pageRetired pageRetired_reachable
  refine ⟨hseg, (hcount _ _ hseg).1.symm, fun a b hon => ?_⟩
  cases hstate.symm.trans (honly a b _ hon).2

end CustomMalloc

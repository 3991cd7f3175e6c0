import CustomMalloc.Inv.Retire
import CustomMalloc.Lib.Sums

/-!
# The structure of the arenas

`ArenaInv` is the part of the invariant that `arena_alloc` and `arena_free` are
responsible for, on its own: the bin lists, the segment lists, the page states and
the two counters. It says nothing about slots, bytes or caches, so it holds for every
bin, also for those whose slots do not fit a page, and whatever the owners of the
pages do to counters and free lists in between (`Touched`).

A page that is not in use has `bump_offset` 0. That is what makes a second
`arena_free` of the same page, or one of the header page, do nothing.
-/

namespace CustomMalloc

open Lib.Words Lib.Bytes Lib.Chain Lib.Intervals Lib.Post Lib.Sums

variable {c : Cfg} {s s' : State} {r : PageRef}

/-! ## The invariant -/

/-- The number of active data pages of a segment. -/
def usedPages (pages : PageRef → PageMeta) (b : Nat) : Nat :=
  (List.range' 1 63).countP fun i => (pages ⟨b, i⟩).state == .active

/-- A data page knows its place; it is in use by its segment's arena or not at all. -/
structure DataOk (r : PageRef) (g : Segment) (p : PageMeta) : Prop where
  segment : p.segment = r.seg
  index : p.pageIndex = r.idx
  use : p.state = .unused ∧ p.bumpOffset = 0 ∨ p.state = .active ∧ p.arena = g.arena

/-- The structure of the arenas. -/
structure ArenasOk (mapped : List (Nat × Nat)) (segs : Nat → Option Segment)
    (pages : PageRef → PageMeta) (arenas : Nat → Arena) : Prop where
  segOk : ∀ {b g}, segs b = some g → SegOk b
  mapped : ∀ {b g x}, segs b = some g → b ≤ x → x < b + 4194304 → Covers mapped x
  header : ∀ {b g}, segs b = some g →
    (pages ⟨b, 0⟩).state = .full ∧ (pages ⟨b, 0⟩).bumpOffset = 0
  data : ∀ {r g}, segs r.seg = some g → 1 ≤ r.idx → r.idx < 64 → DataOk r g (pages r)
  bins : BinsOk segs pages arenas
  segLists : SegListsOk segs arenas
  counts : ∀ {b g}, segs b = some g → g.pagesUsed = usedPages pages b

/-- The same of a state. -/
abbrev ArenaInv (s : State) : Prop := ArenasOk s.mapped s.segs s.pages s.arenas

theorem ArenaInv.initial (c : Cfg) : ArenaInv (State.initial c) where
  segOk h := absurd h (by simp [State.initial])
  mapped h := absurd h (by simp [State.initial])
  header h := absurd h (by simp [State.initial])
  data h := absurd h (by simp [State.initial])
  bins a b := ⟨[], ⟨rfl, trivial⟩, fun r => ⟨fun h => absurd h List.not_mem_nil,
    fun h => absurd h.1.1 (by simp [State.initial])⟩⟩
  segLists a := ⟨[], ⟨rfl, trivial⟩, fun b => ⟨fun h => absurd h List.not_mem_nil,
    fun ⟨g, h, _⟩ => absurd h (by simp [State.initial])⟩, rfl⟩
  counts h := absurd h (by simp [State.initial])

theorem usedPages_le (pages : PageRef → PageMeta) (b : Nat) : usedPages pages b ≤ 63 :=
  List.countP_le_length

theorem usedPages_congr {pages pages' : PageRef → PageMeta} {b : Nat}
    (h : ∀ i, 1 ≤ i → i < 64 → (pages' ⟨b, i⟩).state = (pages ⟨b, i⟩).state) :
    usedPages pages' b = usedPages pages b := by
  refine List.countP_congr fun i hi => ?_
  rw [List.mem_range'_1] at hi
  rw [h i hi.1 (by omega)]

/-- One page more is in use. -/
theorem usedPages_succ {pages pages' : PageRef → PageMeta} (h₁ : 1 ≤ r.idx) (h₂ : r.idx < 64)
    (hun : (pages r).state ≠ .active) (hact : (pages' r).state = .active)
    (hsame : ∀ q, q ≠ r → (pages' q).state = (pages q).state) :
    usedPages pages' r.seg = usedPages pages r.seg + 1 := by
  refine countP_flip List.nodup_range' (List.mem_range'_1.mpr ⟨h₁, by omega⟩) ?_ ?_ ?_
  · simpa using hun
  · simpa using hact
  · intro i _ hi
    rw [hsame ⟨r.seg, i⟩ fun he => hi (congrArg PageRef.idx he)]

/-! ## Lists are short -/

/-- Segments are apart because they are aligned. -/
theorem ArenaInv.seg_length_mul_le (h : ArenaInv s) {l : List Nat} (hnd : l.Nodup) {N : Nat}
    (hl : ∀ b ∈ l, (s.segs b).isSome ∧ b + 4194304 ≤ N) : l.length * 4194304 ≤ N := by
  refine @card_mul_le_of_disjoint Nat (fun b => b) (fun _ => 4194304) 4194304 (by decide)
    l.length l N rfl hnd (fun b hb => ⟨Nat.le_refl _, (hl b hb).2⟩) ?_
  intro b hb b' hb' hne
  obtain ⟨g, hg⟩ := Option.isSome_iff_exists.mp (hl b hb).1
  obtain ⟨g', hg'⟩ := Option.isSome_iff_exists.mp (hl b' hb').1
  obtain ⟨k, hk⟩ := (h.segOk hg).al
  obtain ⟨k', hk'⟩ := (h.segOk hg').al
  omega

theorem ArenaInv.seg_walk (h : ArenaInv s) {l : List Nat} (hnd : l.Nodup)
    (hl : ∀ b ∈ l, (s.segs b).isSome) : l.length ≤ walkBound := by
  have hcard := h.seg_length_mul_le hnd (N := 2 ^ 64) fun b hb => by
    obtain ⟨g, hg⟩ := Option.isSome_iff_exists.mp (hl b hb)
    exact ⟨hl b hb, (h.segOk hg).lt⟩
  unfold walkBound
  omega

theorem ArenaInv.bin_walk (h : ArenaInv s) {l : List PageRef} (hnd : l.Nodup)
    (hl : ∀ q ∈ l, IsData s.segs q) : l.length ≤ walkBound := by
  have hcard := @card_mul_le_of_disjoint PageRef PageRef.start (fun _ => 65536) 65536 (by decide)
    l.length l (2 ^ 64) rfl hnd
    (fun q hq => by
      obtain ⟨hsome, h₁, h₂⟩ := hl q hq
      obtain ⟨g, hg⟩ := Option.isSome_iff_exists.mp hsome
      have hlt := (h.segOk hg).lt
      unfold PageRef.start
      exact ⟨Nat.le_refl _, by omega⟩)
    (fun q hq q' hq' hne => by
      obtain ⟨hsome, h₁, h₂⟩ := hl q hq
      obtain ⟨hsome', h₁', h₂'⟩ := hl q' hq'
      obtain ⟨g, hg⟩ := Option.isSome_iff_exists.mp hsome
      obtain ⟨g', hg'⟩ := Option.isSome_iff_exists.mp hsome'
      obtain ⟨k, hk⟩ := (h.segOk hg).al
      obtain ⟨k', hk'⟩ := (h.segOk hg').al
      have hdiff : q.seg ≠ q'.seg ∨ q.idx ≠ q'.idx := by
        by_contra hc
        rw [not_or, not_not, not_not] at hc
        obtain ⟨seg, idx⟩ := q
        obtain ⟨seg', idx'⟩ := q'
        simp only at hc
        exact hne (by rw [hc.1, hc.2])
      unfold PageRef.start
      omega)
  unfold walkBound
  omega

/-! ## Between the calls -/

/-- The fields that say where a page is and on which list. -/
structure SamePlace (p p' : PageMeta) : Prop where
  arena : p'.arena = p.arena
  segment : p'.segment = p.segment
  pageIndex : p'.pageIndex = p.pageIndex
  binIdx : p'.binIdx = p.binIdx
  state : p'.state = p.state
  next : p'.next = p.next
  prev : p'.prev = p.prev

/-- What may happen outside `arena_alloc` and `arena_free`: anything but a change of the lists,
of the places of the pages and of pages that are not in use. Segments stay mapped. -/
structure Touched (s s' : State) : Prop where
  segs : s'.segs = s.segs
  bins : ∀ a, (s'.arenas a).bins = (s.arenas a).bins
  segments : ∀ a, (s'.arenas a).segments = (s.arenas a).segments
  segmentCount : ∀ a, (s'.arenas a).segmentCount = (s.arenas a).segmentCount
  mapped : ∀ {b g x}, s.segs b = some g → b ≤ x → x < b + 4194304 → Covers s'.mapped x
  place : ∀ q, SamePlace (s.pages q) (s'.pages q)
  idle : ∀ q, (s.pages q).state ≠ .active → s'.pages q = s.pages q

theorem ArenaInv.touched (h : ArenaInv s) (ht : Touched s s') : ArenaInv s' where
  segOk hg := h.segOk (ht.segs ▸ hg)
  mapped hg h₁ h₂ := ht.mapped (ht.segs ▸ hg) h₁ h₂
  header {b g} hg := by
    have hold := h.header (show s.segs b = some g from ht.segs ▸ hg)
    rwa [ht.idle ⟨b, 0⟩ (by rw [hold.1]; simp)]
  data {q g} hg h₁ h₂ := by
    have hold := h.data (show s.segs q.seg = some g from ht.segs ▸ hg) h₁ h₂
    have hp := ht.place q
    refine ⟨hp.segment.trans hold.segment, hp.pageIndex.trans hold.index, ?_⟩
    rcases hold.use with ⟨hs, h0⟩ | ⟨hs, ha⟩
    · rw [ht.idle q (by rw [hs]; simp)]
      exact Or.inl ⟨hs, h0⟩
    · exact Or.inr ⟨hp.state.trans hs, hp.arena.trans ha⟩
  bins a b := by
    obtain ⟨l, hl, hmem⟩ := h.bins a b
    refine ⟨l, ?_, fun q => (hmem q).trans ?_⟩
    · rw [ht.bins a]
      exact hl.congr (fun q _ => (ht.place q).next) fun q _ => (ht.place q).prev
    · unfold InBin
      rw [ht.segs, (ht.place q).state, (ht.place q).arena, (ht.place q).binIdx]
  segLists a := by
    rw [ht.segs, ht.segments a, ht.segmentCount a]
    exact h.segLists a
  counts {b g} hg := by
    rw [h.counts (show s.segs b = some g from ht.segs ▸ hg)]
    exact (usedPages_congr fun i _ _ => (ht.place ⟨b, i⟩).state).symm

theorem Touched.of_os (h : ArenaInv s) (hos : OsExt s s') : Touched s s' := by
  obtain ⟨ans, mp, m, b, rfl, hk⟩ := hos
  exact ⟨rfl, fun _ => rfl, fun _ => rfl, fun _ => rfl,
    fun hg h₁ h₂ => (hk _ (h.mapped hg h₁ h₂)).1, fun _ => ⟨rfl, rfl, rfl, rfl, rfl, rfl, rfl⟩,
    fun _ _ => rfl⟩

/-- Replacing the metadata of an active page by one in the same place. -/
theorem Touched.setPage (h : ArenaInv s) {p : PageMeta} (hact : (s.pages r).state = .active)
    (hp : SamePlace (s.pages r) p) : Touched s (s.setPage r p) := by
  refine ⟨rfl, fun _ => rfl, fun _ => rfl, fun _ => rfl, fun hg h₁ h₂ => h.mapped hg h₁ h₂,
    fun q => ?_, fun q hq => ?_⟩
  · simp only [State.setPage]
    by_cases hqr : q = r
    · rw [hqr, upd_same]
      exact hp
    · rw [upd_ne hqr]
      exact ⟨rfl, rfl, rfl, rfl, rfl, rfl, rfl⟩
  · simp only [State.setPage]
    refine upd_ne fun hqr => hq ?_
    rw [hqr]
    exact hact

/-- Changing an arena in something else than its lists. -/
theorem Touched.setArena (h : ArenaInv s) {a : Nat} {x : Arena} (hb : x.bins = (s.arenas a).bins)
    (hs : x.segments = (s.arenas a).segments) (hn : x.segmentCount = (s.arenas a).segmentCount) :
    Touched s (s.setArena a x) :=
  ⟨rfl, congrFun (upd_proj Arena.bins hb), congrFun (upd_proj Arena.segments hs),
    congrFun (upd_proj Arena.segmentCount hn), fun hg h₁ h₂ => h.mapped hg h₁ h₂,
    fun _ => ⟨rfl, rfl, rfl, rfl, rfl, rfl, rfl⟩, fun _ _ => rfl⟩

theorem Touched.trans {s₁ s₂ s₃ : State} (h : Touched s₁ s₂) (h' : Touched s₂ s₃) :
    Touched s₁ s₃ := by
  refine ⟨h'.segs.trans h.segs, fun a => (h'.bins a).trans (h.bins a),
    fun a => (h'.segments a).trans (h.segments a),
    fun a => (h'.segmentCount a).trans (h.segmentCount a),
    fun hg h₁ h₂ => h'.mapped (h.segs.symm ▸ hg) h₁ h₂, fun q => ?_, fun q hq => ?_⟩
  · have hp := h.place q
    have hp' := h'.place q
    exact ⟨hp'.arena.trans hp.arena, hp'.segment.trans hp.segment,
      hp'.pageIndex.trans hp.pageIndex, hp'.binIdx.trans hp.binIdx, hp'.state.trans hp.state,
      hp'.next.trans hp.next, hp'.prev.trans hp.prev⟩
  · rw [h'.idle q (by rwa [(h.place q).state]), h.idle q hq]

/-! ## `arena_free` -/

section Components

variable {mp : List (Nat × Nat)} {segs : Nat → Option Segment} {pages : PageRef → PageMeta}
  {arenas : Nat → Arena} {g : Segment}

/-- A data page under another segment header of the same arena. -/
theorem DataOk.header {q : PageRef} {g' : Segment} {p p' : PageMeta} (h : DataOk q g p)
    (ha : g'.arena = g.arena) (hp : p'.segment = p.segment) (hi : p'.pageIndex = p.pageIndex)
    (hs : p'.state = p.state) (hb : p'.bumpOffset = p.bumpOffset) (hpa : p'.arena = p.arena) :
    DataOk q g' p' := by
  refine ⟨hp.trans h.segment, hi.trans h.index, ?_⟩
  rw [hs, hb, hpa, ha]
  exact h.use

theorem ArenasOk.retire (h : ArenasOk mp segs pages arenas) (hg : segs r.seg = some g)
    (h₁ : 1 ≤ r.idx) (h₂ : r.idx < 64) (hact : (pages r).state = .active) :
    ArenasOk mp (upd segs r.seg (some { g with pagesUsed := sub16 g.pagesUsed 1 }))
      (retiredPages pages r)
      (upd arenas (pages r).arena (unbinned (arenas (pages r).arena) (pages r) r)) := by
  have hd : IsData segs r := isData_of hg h₁ h₂
  have hsame : SameSegs segs (upd segs r.seg (some { g with
      pagesUsed := sub16 g.pagesUsed 1 })) := sameSegs_setUsed hg
  have hlists : SegListsOk segs (upd arenas (pages r).arena
      (unbinned (arenas (pages r).arena) (pages r) r)) := h.segLists.setArena rfl rfl
  have hstate : ∀ q, q ≠ r → (retiredPages pages r q).state = (pages q).state := by
    intro q hq
    obtain ⟨nx, pr, he, -⟩ := retiredPages_ne pages hq
    rw [he]
  have hretired : (retiredPages pages r r).state ≠ .active := by
    rw [retiredPages_self]
    simp [retiredPage]
  refine ⟨fun {b g'} hg' => ?_, fun {b g' x} hg' => ?_, fun {b g'} hg' => ?_,
    fun {q g'} hg' q₁ q₂ => ?_, (h.bins.retire hd hact).sameSegs hsame,
    hlists.sameSegs hsame, fun {b g'} hg' => ?_⟩
  · obtain ⟨g₀, hg₀, -⟩ := hsame.arena hg'
    exact h.segOk hg₀
  · obtain ⟨g₀, hg₀, -⟩ := hsame.arena hg'
    exact h.mapped hg₀
  · obtain ⟨g₀, hg₀, -⟩ := hsame.arena hg'
    obtain ⟨nx, pr, he, -⟩ := retiredPages_ne pages (q := ⟨b, 0⟩) (r := r) fun hc => by
      rw [← hc] at h₁
      cases h₁
    rw [he]
    exact h.header hg₀
  · obtain ⟨g₀, hg₀, harena⟩ := hsame.arena hg'
    have hold := h.data hg₀ q₁ q₂
    by_cases hq : q = r
    · subst hq
      rw [retiredPages_self]
      exact ⟨hold.segment, hold.index, Or.inl ⟨rfl, rfl⟩⟩
    · obtain ⟨nx, pr, he, -⟩ := retiredPages_ne pages hq
      rw [he]
      exact hold.header harena rfl rfl rfl rfl rfl
  · by_cases hb : b = r.seg
    · subst hb
      rw [upd_same] at hg'
      cases hg'
      have hcount := usedPages_succ h₁ h₂ hretired hact fun q hq => (hstate q hq).symm
      simp only
      rw [h.counts hg, hcount, sub16_of_le (by omega), Nat.add_sub_cancel]
    · rw [upd_ne hb] at hg'
      rw [h.counts hg']
      exact (usedPages_congr fun i _ _ => hstate ⟨b, i⟩ fun hc => hb (congrArg PageRef.seg hc)).symm

/-! ## `arena_alloc` -/

/-- A page of a segment is set up and goes to the front of its bin. -/
theorem ArenasOk.activate (h : ArenasOk mp segs pages arenas) (hg : segs r.seg = some g)
    (h₁ : 1 ≤ r.idx) (h₂ : r.idx < 64) (hun : (pages r).state ≠ .active) {p : PageMeta}
    (hact : p.state = .active) (hplace : p.segment = r.seg ∧ p.pageIndex = r.idx)
    (harena : p.arena = g.arena) :
    ArenasOk mp (upd segs r.seg (some { g with pagesUsed := (g.pagesUsed + 1) % 2 ^ 16 }))
      (insertedPages pages r p ((arenas g.arena).bins p.binIdx))
      (upd arenas g.arena { arenas g.arena with
        bins := upd (arenas g.arena).bins p.binIdx (some r) }) := by
  have hd : IsData segs r := isData_of hg h₁ h₂
  have hsame : SameSegs segs (upd segs r.seg (some { g with
      pagesUsed := (g.pagesUsed + 1) % 2 ^ 16 })) := sameSegs_setUsed hg
  have hbins := h.bins.insert (p := p) hd hun hact
  have hlists : SegListsOk segs (upd arenas g.arena { arenas g.arena with
      bins := upd (arenas g.arena).bins p.binIdx (some r) }) := h.segLists.setArena rfl rfl
  rw [harena] at hbins
  generalize (arenas g.arena).bins p.binIdx = head at hbins
  have hself := insertedPages_self (r := r) pages p head
  have hother : ∀ q, q ≠ r → ∃ pr, insertedPages pages r p head q =
      { pages q with prev := pr } := by
    intro q hq
    obtain ⟨pr, he, -⟩ := insertedPages_ne pages p head hq
    exact ⟨pr, he⟩
  have hstates : ∀ q, q ≠ r → (insertedPages pages r p head q).state = (pages q).state := by
    intro q hq
    obtain ⟨pr, he⟩ := hother q hq
    rw [he]
  refine ⟨fun {b g'} hg' => ?_, fun {b g' x} hg' => ?_, fun {b g'} hg' => ?_,
    fun {q g'} hg' q₁ q₂ => ?_, hbins.sameSegs hsame, hlists.sameSegs hsame,
    fun {b g'} hg' => ?_⟩
  · obtain ⟨g₀, hg₀, -⟩ := hsame.arena hg'
    exact h.segOk hg₀
  · obtain ⟨g₀, hg₀, -⟩ := hsame.arena hg'
    exact h.mapped hg₀
  · obtain ⟨g₀, hg₀, -⟩ := hsame.arena hg'
    obtain ⟨pr, he⟩ := hother ⟨b, 0⟩ fun hc => by
      rw [← hc] at h₁
      cases h₁
    rw [he]
    exact h.header hg₀
  · obtain ⟨g₀, hg₀, ha⟩ := hsame.arena hg'
    by_cases hq : q = r
    · subst hq
      cases hg.symm.trans hg₀
      rw [hself]
      exact ⟨hplace.1, hplace.2, Or.inr ⟨hact, harena.trans ha.symm⟩⟩
    · obtain ⟨pr, he⟩ := hother q hq
      rw [he]
      exact (h.data hg₀ q₁ q₂).header ha rfl rfl rfl rfl rfl
  · by_cases hb : b = r.seg
    · subst hb
      rw [upd_same] at hg'
      cases hg'
      have hcount := usedPages_succ h₁ h₂ hun (by rw [hself]; exact hact) hstates
      have hle := usedPages_le pages r.seg
      simp only
      rw [h.counts hg, hcount]
      exact Nat.mod_eq_of_lt (by omega)
    · rw [upd_ne hb] at hg'
      rw [h.counts hg']
      exact (usedPages_congr fun j _ _ =>
        hstates ⟨b, j⟩ fun hc => hb (congrArg PageRef.seg hc)).symm

/-- A segment is created and goes to the front of its arena's list. -/
theorem ArenasOk.newSegment (h : ArenasOk mp segs pages arenas) {a b : Nat} (hok : SegOk b)
    (hnone : segs b = none) (hmap : ∀ x, b ≤ x → x < b + 4194304 → Covers mp x) :
    ArenasOk mp (insertedSegs segs b a (arenas a).segments)
      (fun r => if r.seg = b then freshPage b a r.idx else pages r)
      (upd arenas a { arenas a with
        segments := some b
        segmentCount := ((arenas a).segmentCount + 1) % 2 ^ 32 }) := by
  have hlists := h.segLists.insert (a := a) hnone
  generalize (arenas a).segments = head at hlists
  -- another segment of the new list was there before, perhaps with another `prev`
  have hold : ∀ {x g'}, insertedSegs segs b a head x = some g' → x ≠ b →
      ∃ g, segs x = some g ∧ g'.arena = g.arena ∧ g'.pagesUsed = g.pagesUsed := by
    intro x g' hg' hx
    cases hg : segs x with
    | none => cases hg'.symm.trans (insertedSegs_none segs b a head hx hg)
    | some g =>
      obtain ⟨pr, he, -⟩ := insertedSegs_ne segs b a head hx hg
      cases hg'.symm.trans he
      exact ⟨g, rfl, rfl, rfl⟩
  refine ⟨fun {x g'} hg' => ?_, fun {x g' y} hg' y₁ y₂ => ?_, fun {x g'} hg' => ?_,
    fun {q g'} hg' q₁ q₂ => ?_, h.bins.newSegment hnone rfl, hlists, fun {x g'} hg' => ?_⟩
  · by_cases hx : x = b
    · rwa [hx]
    · obtain ⟨g, hg, -⟩ := hold hg' hx
      exact h.segOk hg
  · by_cases hx : x = b
    · rw [hx] at y₁ y₂
      exact hmap y y₁ y₂
    · obtain ⟨g, hg, -⟩ := hold hg' hx
      exact h.mapped hg y₁ y₂
  · by_cases hx : x = b
    · rw [if_pos hx]
      exact ⟨rfl, rfl⟩
    · obtain ⟨g, hg, -⟩ := hold hg' hx
      rw [if_neg hx]
      exact h.header hg
  · by_cases hx : q.seg = b
    · rw [if_pos hx]
      exact ⟨hx.symm, rfl, Or.inl ⟨if_neg (by omega), rfl⟩⟩
    · obtain ⟨g, hg, ha, -⟩ := hold hg' hx
      rw [if_neg hx]
      exact (h.data hg q₁ q₂).header ha rfl rfl rfl rfl rfl
  · by_cases hx : x = b
    · subst hx
      rw [insertedSegs_self] at hg'
      cases hg'
      refine (List.countP_eq_zero.mpr fun i hi => ?_).symm
      rw [List.mem_range'_1] at hi
      simp [freshPage, Nat.ne_of_gt (Nat.lt_of_lt_of_le Nat.zero_lt_one hi.1)]
    · obtain ⟨g, hg, -, hn⟩ := hold hg' hx
      rw [hn, h.counts hg]
      refine (usedPages_congr fun i _ _ => ?_).symm
      rw [if_neg hx]

end Components

/-! ## The calls -/

/-- `arena_free` of any page of a segment. -/
theorem ArenaInv.arenaFree (h : ArenaInv s) {g : Segment} (hg : s.segs r.seg = some g)
    (hlt : r.idx < 64) : ArenaInv (CustomMalloc.arenaFree s (s.pages r).arena r) := by
  by_cases hempty : pageIsEmpty (s.pages r) = true
  case neg =>
    unfold CustomMalloc.arenaFree
    rwa [if_neg hempty]
  have hbump : (s.pages r).bumpOffset ≠ 0 := by
    unfold pageIsEmpty at hempty
    simp only [Bool.and_eq_true, decide_eq_true_eq] at hempty
    exact Nat.ne_of_gt hempty.2
  -- neither the header page nor an unused one
  have h₁ : 1 ≤ r.idx := by
    by_contra hc
    obtain ⟨seg, idx⟩ := r
    obtain rfl : idx = 0 := by simpa using hc
    exact hbump (h.header hg).2
  have hdata := h.data hg h₁ hlt
  obtain ⟨hact, -⟩ := hdata.use.resolve_left fun hc => hbump hc.2
  obtain ⟨l, hl, hmem⟩ := h.bins (s.pages r).arena (s.pages r).binIdx
  have hr : r ∈ l := (hmem r).mpr ⟨isData_of hg h₁ hlt, hact, rfl, rfl⟩
  rw [arenaFree_eq hempty hdata.segment hg (hl.prev_ne hr) (hl.next_ne hr)]
  exact h.retire hg h₁ hlt hact

/-- `segment_alloc_page` and `bin_insert_page`. -/
theorem ArenaInv.newPage (h : ArenaInv s) {seg i : Nat} {g : Segment} (hg : s.segs seg = some g)
    (hun : unusedPage s seg = some i) (bin : Nat) :
    ∃ s₁ s₂, segmentAllocPage s seg bin = (some ⟨seg, i⟩, s₁) ∧
      binInsertPage s₁ g.arena ⟨seg, i⟩ = s₂ ∧ ArenaInv s₂ ∧ SameSegs s.segs s₂.segs ∧
      InBin s₂.segs s₂.pages g.arena bin ⟨seg, i⟩ ∧ (s₂.pages ⟨seg, i⟩).bumpOffset = 0 := by
  obtain ⟨h₁, h₂, hstate⟩ := unusedPage_some hun
  have hno : (s.pages ⟨seg, i⟩).state ≠ .active := by rw [hstate]; simp
  generalize hp : pageInit (s.pages ⟨seg, i⟩) seg g.arena i bin (binToSize sizeTables bin) = p
  have hpa : p.arena = g.arena := by rw [← hp]; rfl
  have hpb : p.binIdx = bin := by rw [← hp]; rfl
  have hps : p.state = .active := by rw [← hp]; rfl
  have hplace : p.segment = seg ∧ p.pageIndex = i := by rw [← hp]; exact ⟨rfl, rfl⟩
  have hp0 : p.bumpOffset = 0 := by rw [← hp]; rfl
  have hne : (s.arenas g.arena).bins p.binIdx ≠ some ⟨seg, i⟩ := by
    intro he
    obtain ⟨l, hl, hmem⟩ := h.bins g.arena p.binIdx
    exact hno ((hmem _).mp (hl.head_mem he)).2.1
  refine ⟨State.setPage { s with
      segs := upd s.segs seg (some { g with pagesUsed := (g.pagesUsed + 1) % 2 ^ 16 }) } ⟨seg, i⟩ p,
    _, ?_, binInsertPage_eq hne, h.activate (r := ⟨seg, i⟩) hg h₁ h₂ hno hps hplace hpa,
    sameSegs_setUsed hg, ⟨((sameSegs_setUsed hg).isData _).mpr (isData_of hg h₁ h₂), ?_⟩, ?_⟩
  · unfold segmentAllocPage
    simp only [hg, hun, hp]
    rfl
  · simp only [insertedPages_self]
    exact ⟨hps, hpa, hpb⟩
  · simp only [insertedPages_self]
    exact hp0

/-- A bump allocation touches the page and the statistics; the slot is where the page is. -/
theorem ArenaInv.arenaBump (h : ArenaInv s) {a : Nat} {g : Segment} (hg : s.segs r.seg = some g)
    (h₁ : 1 ≤ r.idx) (h₂ : r.idx < 64) (hact : (s.pages r).state = .active) :
    Ensures (fun e => ∃ d, e = .abort d) (CustomMalloc.arenaBump c s a r) fun (slot, s') =>
      Touched s s' ∧ slot = r.start + (s.pages r).bumpOffset := by
  have hdata := h.data hg h₁ h₂
  unfold CustomMalloc.arenaBump
  simp only
  cases hm : markAllocated c (bumpSlot (s.pages r))
    (pageStart (s.pages r) + (s.pages r).bumpOffset) with
  | error e =>
    unfold markAllocated debugMarkAllocated at hm
    simp only at hm
    split at hm
    next =>
      split at hm
      next => exact ⟨_, (Except.error.inj hm).symm⟩
      next =>
        split at hm
        next => exact ⟨_, (Except.error.inj hm).symm⟩
        next => cases hm
    next => cases hm
  | ok p' =>
    have hplace : SamePlace (s.pages r) p' := by
      unfold markAllocated debugMarkAllocated at hm
      simp only at hm
      split at hm
      next =>
        split at hm
        next => cases hm
        next =>
          split at hm
          next => cases hm
          next =>
            cases hm
            exact ⟨rfl, rfl, rfl, rfl, rfl, rfl, rfl⟩
      next =>
        cases hm
        exact ⟨rfl, rfl, rfl, rfl, rfl, rfl, rfl⟩
    have ht := Touched.setPage h hact hplace
    refine ⟨ht.trans (.setArena (h.touched ht) rfl rfl rfl), ?_⟩
    unfold pageStart PageRef.start
    rw [hdata.segment, hdata.index]
    rfl

/-- Every data page of every segment of arena `a` is in use. -/
def AllUsed (s : State) (a : Nat) : Prop :=
  ∀ b g i, s.segs b = some g → g.arena = a → 1 ≤ i → i < 64 → (s.pages ⟨b, i⟩).state = .active

/-- A page was set up in arena `a` and inserted in bin `bin`. -/
structure PageAdded (s : State) (a bin : Nat) (r : PageRef) (s' : State) : Prop where
  inv : ArenaInv s'
  inBin : InBin s'.segs s'.pages a bin r
  bump : (s'.pages r).bumpOffset = 0
  fresh : ¬ InBin s.segs s.pages a bin r
  /-- a new segment is the last resort -/
  grow : ∀ b, s.segs b = none → (s'.segs b).isSome → AllUsed s a

theorem ArenaInv.arenaNewPage (h : ArenaInv s) (a bin : Nat) :
    Ensures (fun _ => False) (CustomMalloc.arenaNewPage c s a bin) fun (page, s₁) =>
      match page with
      | none => OsExt s s₁
      | some r => PageAdded s a bin r (binInsertPage s₁ a r) := by
  obtain ⟨l, hl, hmem, -⟩ := h.segLists a
  have hsome : ∀ b ∈ l, (s.segs b).isSome := fun b hb => by
    obtain ⟨g, hg, -⟩ := (hmem b).mp hb
    rw [hg]
    rfl
  unfold CustomMalloc.arenaNewPage
  rw [findFrom_linked hl.1 (h.seg_walk hl.1.nodup hsome)]
  cases hfind : l.find? (fun b => (unusedPage s b).isSome) with
  | some seg =>
    -- an unused page of an old segment
    obtain ⟨g, hg, rfl⟩ := (hmem seg).mp (List.mem_of_find?_eq_some hfind)
    obtain ⟨i, hun⟩ := Option.isSome_iff_exists.mp
      (List.find?_some (p := fun b => (unusedPage s b).isSome) hfind)
    obtain ⟨s₁, s₂, he, hins, hinv, hsame, hin, h0⟩ := h.newPage hg hun bin
    simp only [he, ensures_ok, hins]
    refine ⟨hinv, hin, h0, fun hold => ?_, fun b hb hb' => ?_⟩
    · cases (unusedPage_some hun).2.2.symm.trans hold.2.1
    · rw [hsame.dom b, hb] at hb'
      cases hb'
  | none =>
    have hall : AllUsed s a := by
      intro b g i hg ha h₁ h₂
      have hnone := List.find?_eq_none.mp hfind b ((hmem b).mpr ⟨g, hg, ha⟩)
      rw [Bool.not_eq_true, Option.isSome_eq_false_iff, Option.isNone_iff_eq_none] at hnone
      unfold unusedPage at hnone
      have hi : i ∈ List.range' pagesDataStart (pagesPerSegment - pagesDataStart) := by
        simp only [pagesDataStart, pagesPerSegment]
        exact List.mem_range'_1.mpr ⟨h₁, by omega⟩
      have hused := List.find?_eq_none.mp hnone i hi
      rcases (h.data (r := ⟨b, i⟩) hg h₁ h₂).use with ⟨hs, -⟩ | ⟨hs, -⟩
      · exact absurd hs (by simpa using hused)
      · exact hs
    simp only
    rcases hc : segmentCreate c s a with ⟨seg, s₁⟩
    simp only
    rcases segmentCreate_spec hc with ⟨rfl, hos⟩ | ⟨h0, s₂, hos, hf, hal, rfl⟩
    · rw [if_pos rfl]
      exact hos
    · rw [if_neg h0]
      have hok : SegOk seg := ⟨by omega, hal, Nat.le_of_lt hf.fits⟩
      have hnone : s.segs seg = none := by
        by_contra hne
        obtain ⟨g, hg⟩ := Option.ne_none_iff_exists'.mp hne
        exact hf.fresh seg (by omega) (by omega) (h.mapped hg (by omega) (by omega))
      have ht := Touched.of_os h hos
      have hhead : (s₂.arenas a).segments ≠ some seg := by
        rw [ht.segments a]
        intro he
        obtain ⟨g, hg, -⟩ := (hmem seg).mp (hl.head_mem he)
        cases hnone.symm.trans hg
      have hinv : ArenaInv (newSegment s₂ a seg) :=
        (h.touched ht).newSegment hok (ht.segs ▸ hnone) hf.mapped
      have hseg : (newSegment s₂ a seg).segs seg = some
          { pagesUsed := 0, arena := a, next := (s₂.arenas a).segments, prev := none } :=
        insertedSegs_self ..
      obtain ⟨s₃, s₄, he, hins, hinv', hsame, hin, hb0⟩ :=
        hinv.newPage hseg (unusedPage_newSegment s₂ a seg) bin
      rw [linkSegment_created hhead, he]
      simp only [ensures_ok]
      rw [show binInsertPage s₃ a ⟨seg, 1⟩ = s₄ from hins]
      refine ⟨hinv', hin, hb0, fun hold => ?_, fun _ _ _ => hall⟩
      have := hold.1.1
      rw [hnone] at this
      cases this

/-- What `arena_alloc` does to the arenas. -/
structure ArenaStep (s : State) (a bin slot : Nat) (s' : State) : Prop where
  inv : ArenaInv s'
  /-- a refused request changes no list, no segment and no page -/
  null : slot = 0 → s'.arenas = s.arenas ∧ s'.segs = s.segs ∧ s'.pages = s.pages
  /-- the slot comes from a data page on the bin's list, at its bump offset -/
  page : slot ≠ 0 → ∃ r, InBin s'.segs s'.pages a bin r ∧
    (InBin s.segs s.pages a bin r ∧ slot = r.start + (s.pages r).bumpOffset ∨
      ¬ InBin s.segs s.pages a bin r ∧ slot = r.start)
  grow : ∀ b, s.segs b = none → (s'.segs b).isSome → AllUsed s a

theorem Touched.inBin (h : Touched s s') {a bin : Nat} :
    InBin s'.segs s'.pages a bin r ↔ InBin s.segs s.pages a bin r := by
  unfold InBin
  rw [h.segs, (h.place r).state, (h.place r).arena, (h.place r).binIdx]

/-- `arena_alloc` of any bin: it returns, unless a debug check aborts it. -/
theorem ArenaInv.arenaAlloc (h : ArenaInv s) (a bin : Nat) :
    Ensures (fun e => ∃ d, e = .abort d) (CustomMalloc.arenaAlloc c s a bin)
      fun ((slot, _), s') => ArenaStep s a bin slot s' := by
  obtain ⟨l, hl, hmem⟩ := h.bins a bin
  unfold CustomMalloc.arenaAlloc
  rw [findFrom_linked hl.1 (h.bin_walk hl.1.nodup fun q hq => ((hmem q).mp hq).1)]
  cases hfind : l.find? (scanTest s) with
  | some r =>
    have hin := (hmem r).mp (List.mem_of_find?_eq_some hfind)
    obtain ⟨g, hg⟩ := Option.isSome_iff_exists.mp hin.1.1
    refine ensures_bind (h.arenaBump hg hin.1.2.1 hin.1.2.2 hin.2.1) ?_
    rintro ⟨slot, s'⟩ ⟨ht, rfl⟩
    refine ⟨h.touched ht, fun h0 => ?_, fun _ => ⟨r, ht.inBin.mpr hin, Or.inl ⟨hin, rfl⟩⟩,
      fun b hb hb' => ?_⟩
    · have hpos := (h.segOk hg).pos
      unfold PageRef.start at h0
      omega
    · rw [ht.segs, hb] at hb'
      cases hb'
  | none =>
    simp only
    refine ensures_bind (ensures_bad (h.arenaNewPage a bin) fun _ hf => hf.elim) ?_
    rintro ⟨page, s₁⟩ hpage
    cases page with
    | none =>
      have hos : OsExt s s₁ := hpage
      obtain ⟨ans, mp, m, b, rfl, -⟩ := id hos
      refine ⟨h.touched (.of_os h hos), fun _ => ⟨rfl, rfl, rfl⟩, fun h0 => absurd rfl h0,
        fun b hb hb' => ?_⟩
      rw [show s.segs b = none from hb] at hb'
      cases hb'
    | some r =>
      have hadd : PageAdded s a bin r (binInsertPage s₁ a r) := hpage
      obtain ⟨g, hg⟩ := Option.isSome_iff_exists.mp hadd.inBin.1.1
      refine ensures_bind
        (hadd.inv.arenaBump hg hadd.inBin.1.2.1 hadd.inBin.1.2.2 hadd.inBin.2.1) ?_
      rintro ⟨slot, s'⟩ ⟨ht, rfl⟩
      refine ⟨hadd.inv.touched ht, fun h0 => ?_, fun _ => ⟨r, ht.inBin.mpr hadd.inBin,
        Or.inr ⟨hadd.fresh, by rw [hadd.bump]; rfl⟩⟩, fun b hb hb' => hadd.grow b hb ?_⟩
      · have hpos := (hadd.inv.segOk hg).pos
        have h0 : r.start + ((binInsertPage s₁ a r).pages r).bumpOffset = 0 := h0
        unfold PageRef.start at h0
        omega
      · rwa [ht.segs] at hb'

end CustomMalloc

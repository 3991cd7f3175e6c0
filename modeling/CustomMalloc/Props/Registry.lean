import CustomMalloc.Outgrow

/-!
# Every live slab block is findable, in 256 segments

A slot is found through the registry: `my_free`, `my_realloc` and
`my_malloc_usable_size` all start from `ptr_to_segment`. The registry has 256
slots, and `segment_create` hands out slots of a segment whether or not the
registry took it. So the property holds exactly as long as there are at most 256
segments, and the 257th breaks all of it at once.
-/

namespace CustomMalloc

open Lib.Words Lib.Bytes Lib.Chain Lib.Intervals Lib.Post

variable {c : Cfg} {s s' : State} {G : Ghost}

/-- `b` is linked into the segment list of arena `a`. -/
def OnSegmentList (s : State) (a b : Nat) : Prop :=
  ∃ l, Linked (fun x => (s.segs x).bind Segment.next) (s.arenas a).segments l ∧ b ∈ l

/-- The slot `p` of page `r` is on the local list or on the remote stack. -/
def FreeSlot (s : State) (r : PageRef) (p : Nat) : Prop :=
  ∃ l, p ∈ l ∧ (Linked (link s.mem) (ptr (s.pages r).localFree) l ∨
    Linked (link s.mem) (ptr (taggedPtr (s.pages r).remoteFree)) l)

/-- The thread does not mistake another thread's page for its own: that takes a
wrapped thread id. -/
def KnowsItsPages (s : State) (t : Nat) (r : PageRef) : Prop :=
  ∀ x, s.tls t = some x → x.arena = none → (s.pages r).ownerTid ≠ x.threadId

/-- What becomes of the slot `p` of page `r` in the functions that have to find it. -/
structure SlotFound (c : Cfg) (s : State) (r : PageRef) (p : Nat) : Prop where
  segment : ptrToSegment s p = r.seg
  usable : myMallocUsableSize s p = .ok (s.pages r).slotSize
  free : ∀ t, p < 2 ^ 48 → KnowsItsPages s t r →
    ∃ s', myFree c s t p = .ok s' ∧ slabFree c s t p = .ok s' ∧ FreeSlot s' r p
  realloc : ∀ t n, 0 < n → myRealloc c s t p n =
    if n ≤ (s.pages r).slotSize ∧ sizeToBin sizeTables n = (s.pages r).binIdx then .ok (p, s)
    else reallocMove c s t p (s.pages r).slotSize n

theorem Inv.onSegmentList_iff (h : Inv c s G) {b : Nat} :
    (∃ a, OnSegmentList s a b) ↔ (s.segs b).isSome := by
  constructor
  · rintro ⟨a, l, hl, hb⟩
    obtain ⟨l', hl', hmem, -⟩ := h.segLists a
    obtain rfl := hl.unique hl'.1
    obtain ⟨g, hg, -⟩ := (hmem b).mp hb
    rw [hg]
    rfl
  · intro hb
    obtain ⟨g, hg⟩ := Option.isSome_iff_exists.mp hb
    obtain ⟨l, hl, hmem, -⟩ := h.segLists g.arena
    exact ⟨g.arena, l, hl.1, (hmem b).mpr ⟨g, hg, rfl⟩⟩

theorem Inv.segs_zero (h : Inv c s G) : s.segs 0 = none := by
  cases hg : s.segs 0 with
  | none => rfl
  | some g => exact absurd (h.segOk hg).pos (by simp)

/-- A carved slot that is not busy is free. -/
theorem PageInv.freeSlot {d : Bool} {r : PageRef} {busy : List Nat} {p k : Nat}
    (h : PageInv d s.mem r (s.pages r) busy)
    (hoff : (s.pages r).bumpOffset = k * (s.pages r).slotSize)
    (hp : p ∈ slotList r (s.pages r) k) (hfree : p ∉ busy) : FreeSlot s r p := by
  obtain ⟨k', loc, rem, hs⟩ := h.slots
  have hge := h.geom.slot_ge
  obtain rfl : k = k' := Nat.eq_of_mul_eq_mul_right (by omega) (hoff.symm.trans hs.bump_eq)
  rcases hs.mem_parts.mp hp with hin | hin | hin
  · exact ⟨loc, hin, Or.inl hs.local_linked⟩
  · exact ⟨rem, hin, Or.inr hs.remote_linked⟩
  · exact absurd hin hfree

/-- After `slab_free` the slot is free. -/
theorem FreePost.freeSlot (h : Inv c s G) {t : Nat} {r : PageRef} {x : Nat} (hx : x ∈ G.busy r)
    (hf : FreePost c s G t r x s') : FreeSlot s' r x := by
  obtain ⟨hd, hinv⟩ := h.busy_active hx
  obtain ⟨k, loc, rem, hs⟩ := hinv.slots
  have hd' : IsData s'.segs r := by
    rw [hf.on.segs]
    exact hd
  have hact : (s'.pages r).state = .active := hf.on.shape.state.trans hinv.geom.active
  obtain ⟨hinv', -⟩ := hf.release.inv.active hd' hact
  refine hinv'.freeSlot (k := k) ?_ ?_ ?_
  · rw [hf.bump, hf.on.shape.slotSize]
    exact hs.bump_eq
  · rw [slotList_congr hf.on.shape]
    exact hs.mem_parts.mpr (Or.inr (Or.inr hx))
  · simp only [Ghost.drop, upd_same]
    exact fun hc => ((hinv.busy_nodup.mem_erase_iff).mp hc).1 rfl

/-- A slot of a registered segment. -/
theorem Inv.findable (h : Inv c s G) {r : PageRef} {p : Nat} (hp : p ∈ G.busy r)
    (hreg : segmentIsRegistered s.segmentRegistry r.seg = true) : SlotFound c s r p := by
  obtain ⟨hd, hinv⟩ := h.busy_active hp
  obtain ⟨g, hg⟩ := Option.isSome_iff_exists.mp hd.1
  have hseg := (h.segOk hg).pos
  have hb : Blk s G p _ := .slab r hp
  obtain ⟨-, hpos⟩ := h.blk_align hb
  obtain ⟨hs, hpage⟩ := h.ptrToPage_slab hp
  rw [if_pos hreg] at hs hpage
  refine ⟨hs, h.usableSize hb (h.not_lost hp hreg), fun t hlow hown => ?_, fun t n hn => ?_⟩
  · have hfree := slabFree_spec (t := t) h hp hreg (h.page_low hp hlow)
    have hmy : myFree c s t p = slabFree c s t p := by
      unfold myFree
      rw [if_neg (Nat.ne_of_gt hpos), h.not_bootstrap hb, if_neg (by simp), hs,
        if_pos (Nat.ne_of_gt hseg)]
    rw [hmy]
    rcases he : slabFree c s t p with e | s'
    · rw [he] at hfree
      obtain ⟨-, x, hx, ha, ho⟩ := hfree
      exact absurd ho (hown x hx ha)
    · rw [he] at hfree
      exact ⟨s', rfl, rfl, FreePost.freeSlot h hp hfree⟩
  · unfold myRealloc
    rw [if_neg (Nat.ne_of_gt hpos), if_neg (Nat.ne_of_gt hn), h.not_bootstrap hb, if_neg (by simp),
      hpage]
    rfl

/-- A slot of a segment that is not registered. -/
theorem Inv.not_findable (h : Inv c s G) {p : Nat} (hlost : Lost s G p) :
    ptrToSegment s p = 0 ∧ myMallocUsableSize s p = .ok 0 ∧ (∀ t, myFree c s t p = .ok s) ∧
      ∀ t n, 0 < n → myRealloc c s t p n = .ok (0, s) := by
  have husable := h.usableSize_lost hlost
  obtain ⟨r, hp, hreg⟩ := hlost
  have hb : Blk s G p _ := .slab r hp
  obtain ⟨-, hpos⟩ := h.blk_align hb
  obtain ⟨hs, hpage⟩ := h.ptrToPage_slab hp
  rw [hreg, if_neg (by simp)] at hs hpage
  have hfind := h.largeFind_slab hp
  refine ⟨hs, husable, fun t => ?_, fun t n hn => ?_⟩
  · unfold myFree largeFree
    rw [if_neg (Nat.ne_of_gt hpos), h.not_bootstrap hb, if_neg (by simp), hs, if_neg (by simp),
      if_neg (Nat.ne_of_gt hpos), hfind]
    rfl
  · unfold myRealloc reallocLarge
    rw [if_neg (Nat.ne_of_gt hpos), if_neg (Nat.ne_of_gt hn), h.not_bootstrap hb, if_neg (by simp),
      hpage, hfind]
    rfl

/-- In the runs with safe calls, every linked segment is registered exactly as long as
there are at most 256 of them; and then every live slab block is found. -/
theorem blocks_findable (c : Cfg) (σ : Sys) (h : Reachable c (SafeCall c) σ)
    (ans : List (Option Nat)) :
    ((∀ a b, OnSegmentList σ.heap a b → segmentIsRegistered σ.heap.segmentRegistry b = true) ↔
      SegmentsAtMost σ.heap.segs 256) ∧
    (SegmentsAtMost σ.heap.segs 256 → ∀ p ∈ σ.ptrs, ∀ r, IsData σ.heap.segs r → r.start ≤ p →
      p < r.start + 65536 → SlotFound c (σ.heap.withAnswers ans) r p) := by
  obtain ⟨G, hh⟩ := reachable_holds (fun _ _ hs => hs) h
  have hiff := hh.inv.registry.registered_iff hh.inv.segs_zero
  refine ⟨?_, fun hfew p hp r hd h₁ h₂ => ?_⟩
  · rw [← hiff]
    constructor
    · intro hall b hb
      obtain ⟨a, ha⟩ := hh.inv.onSegmentList_iff.mpr hb
      exact hall a b ha
    · exact fun hall a b hab => hall b (hh.inv.onSegmentList_iff.mp ⟨a, hab⟩)
  · exact (hh.withAnswers ans).inv.findable (hh.busy hp hd h₁ h₂) (hiff.mpr hfew r.seg hd.1)

/-- A call creates at most one segment. -/
theorem SegExt.atMost (h : SegExt s s') {n : Nat} (hn : SegmentsAtMost s.segs n) :
    SegmentsAtMost s'.segs (n + 1) := by
  obtain ⟨S, hcard, hS⟩ := hn
  rcases h with ⟨hdom, -⟩ | ⟨b, hb⟩
  · exact ⟨S, by omega, fun x hx => hS x (by rw [← hdom x]; exact hx)⟩
  · refine ⟨insert b S, (Finset.card_insert_le b S).trans (by omega), fun x hx => ?_⟩
    rcases (hb.dom x).mp hx with rfl | hx
    · exact Finset.mem_insert_self _ _
    · exact Finset.mem_insert_of_mem (hS x hx)

/-- The state after the first allocation. -/
theorem exists_firstMalloc : ∃ σ, Reachable (.page4k false) (SafeCall (.page4k false)) σ ∧
    0x20010000 ∈ σ.ptrs ∧ IsData σ.heap.segs ⟨0x20000000, 1⟩ ∧
    (σ.heap.pages ⟨0x20000000, 1⟩).state = .active ∧ SegmentsAtMost σ.heap.segs 256 := by
  obtain ⟨⟨q, σ⟩, he, ht⟩ := exists_of_passes ((Sys.initial (.page4k false)).call (.page4k false) 0
    (.malloc 32) [some 0x10000000, some 0x20000000])
    (fun r => r.1 == 0x20010000 && (r.2.heap.segs 0x20000000).isSome &&
      (r.2.heap.pages ⟨0x20000000, 1⟩).state == .active) (by decide +kernel)
  simp only [Bool.and_eq_true, beq_iff_eq] at ht
  obtain ⟨⟨rfl, hseg⟩, hact⟩ := ht
  have hreach : Reachable (.page4k false) (SafeCall (.page4k false)) σ :=
    .tail .refl (.call 0 (.malloc 32) _ _ trivial (by decide)
      ⟨largeFits_small (by decide), trivial⟩ he)
  have hmem : 0x20010000 ∈ σ.ptrs :=
    List.mem_map.mpr ⟨_, Sys.request_mem he (by decide), rfl⟩
  have hspec := myMalloc_spec (t := 0) ((initial_holds (.page4k false)).withAnswers
    [some 0x10000000, some 0x20000000]).inv
    (show LargeFits (.page4k false) 32 16 from largeFits_small (by decide))
  have hpost := ensures_elim hspec (Sys.call_ok he).1
  have hfew : SegmentsAtMost σ.heap.segs 256 := by
    obtain ⟨S, hcard, hS⟩ := hpost.segExt.atMost (n := 0)
      ⟨∅, Nat.le_refl _,
        fun b hb => absurd hb (by simp [State.withAnswers, Sys.initial, State.initial])⟩
    exact ⟨S, by omega, hS⟩
  exact ⟨σ, hreach, hmem, ⟨hseg, by decide, by decide⟩, hact, hfew⟩

/-- After the first allocation. -/
theorem blocks_findable_first :
    ∃ σ, Reachable (.page4k false) (SafeCall (.page4k false)) σ ∧ 0x20010000 ∈ σ.ptrs ∧
      SegmentsAtMost σ.heap.segs 256 ∧
      SlotFound (.page4k false) (σ.heap.withAnswers []) ⟨0x20000000, 1⟩ 0x20010000 := by
  obtain ⟨σ, hreach, hmem, hd, -, hfew⟩ := exists_firstMalloc
  exact ⟨σ, hreach, hmem, hfew, (blocks_findable (.page4k false) σ hreach []).2 hfew _ hmem
    ⟨0x20000000, 1⟩ hd (by decide) (by decide)⟩

theorem myMalloc_slab {t n : Nat} (h₁ : 0 < n) (h₂ : n ≤ mediumMax) :
    myMalloc c s t n = slabAlloc c s t n := by
  unfold myMalloc
  simp only [if_neg (Nat.ne_of_gt h₁), if_neg (Nat.not_lt.mpr h₂)]

/-- `my_malloc(32000)` again and again: some live block is in a linked segment that is
not registered. Nothing can be done with it. -/
theorem block_not_findable :
    ∃ σ, Reachable (.page4k false) (SafeCall (.page4k false)) σ ∧
      ∃ p ∈ σ.ptrs, ∃ r a, IsData σ.heap.segs r ∧ r.start ≤ p ∧ p < r.start + 65536 ∧
        OnSegmentList σ.heap a r.seg ∧
        segmentIsRegistered σ.heap.segmentRegistry r.seg = false ∧
        ptrToSegment σ.heap p = 0 ∧ myMallocUsableSize σ.heap p = .ok 0 ∧
        (∀ t, myFree (.page4k false) σ.heap t p = .ok σ.heap) ∧
        ∀ t n, 0 < n → myRealloc (.page4k false) σ.heap t p n = .ok (0, σ.heap) := by
  obtain ⟨σ, G, hσ, hh, p, hp, -, hlost⟩ := exists_lost false
    (R := Reachable (.page4k false) (SafeCall (.page4k false))) .refl fun σ ans p s' hσ he hp => by
      refine hσ.tail (.call 0 (.malloc 32000) ans p trivial (show 32000 < 2 ^ 64 by decide)
        ⟨largeFits_small (by decide), trivial⟩ ?_)
      simp only [Sys.call, exec, myMalloc_slab (show 0 < 32000 by decide) (by decide), he,
        liveAfter,
        addPtr, bind, Except.bind, if_neg hp, pure, Except.pure]
  obtain ⟨hseg, husable, hfree, hrealloc⟩ := hh.inv.not_findable hlost
  obtain ⟨r, hr, hreg⟩ := hlost
  obtain ⟨hd, hinv⟩ := hh.inv.busy_active hr
  obtain ⟨b₁, b₂, -⟩ := hinv.busy_in hr
  have hge := hinv.geom.slot_ge
  obtain ⟨a, ha⟩ := hh.inv.onSegmentList_iff.mpr hd.1
  exact ⟨σ, hσ, p, hp, r, a, hd, b₁, by omega, ha, hreg, hseg, husable, hfree, hrealloc⟩

end CustomMalloc

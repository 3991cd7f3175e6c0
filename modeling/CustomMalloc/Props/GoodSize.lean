import CustomMalloc.Props.LargeBacked
import CustomMalloc.Props.Registry
import CustomMalloc.Props.SizeClasses
import CustomMalloc.Zone

/-!
# What `zone_good_size` promises

`zone_good_size` rounds a request to its size class or to whole OS pages. What
the caller then gets is decided elsewhere: `page_init` widens a slot to 16 bytes,
`slab_alloc` reroutes the classes above half a page to `large_alloc`, and a large
block has the size that was asked for. The two agree exactly for the requests
where none of this changes the number (`GoodSizeFits`), as long as the block can
be found at all.

Near `2 ^ 64` the rounding of `zone_good_size` wraps to 0. The one header that
`large_alloc` adds makes its own sum wrap earlier than that: the requests between
the two wraps map nothing.
-/

namespace CustomMalloc

open Lib.Words Lib.Post

variable {c : Cfg} {s s' : State} {G : Ghost}

/-! ## The two roundings -/

/-- The size class of a request. -/
def classSize (n : Nat) : Nat := binToSize sizeTables (sizeToBin sizeTables n)

/-- The roundings agree on `n` bytes: a slot is not widened, a rerouted request is a
class of its own, a large one is whole OS pages. -/
def GoodSizeFits (c : Cfg) (n : Nat) : Prop :=
  (n ≤ mediumMax → classSize n ≤ 32768 → 16 ∣ classSize n) ∧
  (n ≤ mediumMax → 32768 < classSize n → classSize n = n) ∧
  (mediumMax < n → c.osPage ∣ n)

theorem zoneGoodSize_class {n : Nat} (h : atLeastOne n ≤ mediumMax) :
    zoneGoodSize c n = classSize (atLeastOne n) :=
  if_neg (Nat.not_lt.mpr h)

theorem zoneGoodSize_pages {n : Nat} (h : mediumMax < atLeastOne n) :
    zoneGoodSize c n = alignUp64 c.osPage (atLeastOne n) :=
  if_pos h

theorem classSize_bounds {n : Nat} (h₁ : 0 < n) (h₂ : n ≤ mediumMax) :
    n ≤ classSize n ∧ 8 ≤ classSize n := by
  obtain ⟨hlt, hfit⟩ := sizeToBin_fits h₁ h₂
  refine ⟨hfit, ?_⟩
  unfold classSize
  rw [binToSize_of_lt hlt]
  exact (binSize_bounds hlt).1

/-- `page_init` keeps the class exactly if it is a multiple of 16. -/
theorem slotSizeOf_eq_iff {b : Nat} (h : 8 ≤ binToSize sizeTables b) :
    slotSizeOf b = binToSize sizeTables b ↔ 16 ∣ binToSize sizeTables b := by
  unfold slotSizeOf
  constructor
  · intro he
    rw [← he]
    exact dvd_alignUp 16 _
  · intro hdvd
    have hge := Nat.le_of_dvd (by omega) hdvd
    rw [Nat.max_eq_right hge]
    exact alignUp_of_dvd (by decide) hdvd

/-- `zone_good_size` wraps to 0, or it is a whole number of OS pages. -/
theorem goodPages_cases {n : Nat} (hn : n < 2 ^ 64) :
    (alignUp64 c.osPage n = 0 ∧ 2 ^ 64 ≤ n + c.osPage - 1) ∨
      (alignUp64 c.osPage n = alignUp c.osPage n ∧ n + c.osPage - 1 < 2 ^ 64) := by
  have hshift := c.pageShift_lt
  rcases Nat.lt_or_ge (n + c.osPage - 1) (2 ^ 64) with hlt | hge
  · exact Or.inr ⟨alignUp64_eq (k := c.pageShift) (by omega) hlt, hlt⟩
  · exact Or.inl ⟨alignUp64_wrap (k := c.pageShift) (by omega) hn hge, hge⟩

theorem goodPages_eq_iff {n : Nat} (hn : n < 2 ^ 64) (hpos : 0 < n) :
    alignUp64 c.osPage n = n ↔ c.osPage ∣ n := by
  have hPp := c.osPage_pos
  rcases goodPages_cases (c := c) hn with ⟨h0, hwrap⟩ | ⟨heq, -⟩
  · rw [h0]
    constructor
    · intro hc
      omega
    · intro hdvd
      -- the last multiple of the OS page is one page below the top
      have htop : c.osPage ∣ 2 ^ 64 := Nat.pow_dvd_pow 2 (by have := c.pageShift_lt; omega)
      have := Nat.le_of_dvd (by omega) (Nat.dvd_sub htop hdvd)
      omega
  · rw [heq]
    constructor
    · intro he
      rw [← he]
      exact dvd_alignUp _ _
    · exact alignUp_of_dvd hPp

/-! ## The block of a slab request -/

/-- A slot is findable exactly if its segment is registered. -/
theorem Inv.findable_iff (h : Inv c s G) {r : PageRef} {p : Nat} (hp : p ∈ G.busy r) :
    Findable s p ↔ segmentIsRegistered s.segmentRegistry r.seg = true := by
  obtain ⟨hd, -⟩ := h.busy_active hp
  obtain ⟨g, hg⟩ := Option.isSome_iff_exists.mp hd.1
  have hpos := (h.segOk hg).pos
  constructor
  · intro hf
    by_contra hreg
    exact hf.not_lost h ⟨r, hp, by simpa using hreg⟩
  · intro hreg
    refine Or.inr ?_
    rw [(h.ptrToPage_slab hp).1, if_pos hreg]
    exact Nat.ne_of_gt hpos

/-- The agreement for a slot. -/
theorem goodSize_slab (h : Inv c s G) {r : PageRef} {n p : Nat} (hn : n ≤ classSize (atLeastOne n))
    (h8 : 8 ≤ classSize (atLeastOne n)) (hp : p ∈ G.busy r)
    (hblk : Blk s G p (slotSizeOf (sizeToBin sizeTables (atLeastOne n)))) :
    (n ≤ classSize (atLeastOne n) ∧
        myMallocUsableSize s p = .ok (classSize (atLeastOne n))) ↔
      16 ∣ classSize (atLeastOne n) ∧ Findable s p := by
  by_cases hfind : Findable s p
  · rw [h.usableSize hblk (hfind.not_lost h), Except.ok.injEq]
    have hiff := slotSizeOf_eq_iff (b := sizeToBin sizeTables (atLeastOne n)) h8
    constructor
    · intro hg
      exact ⟨hiff.mp hg.2, hfind⟩
    · intro hg
      exact ⟨hn, hiff.mpr hg.1⟩
  · have hreg := mt (h.findable_iff hp).mpr hfind
    rw [h.usableSize_lost ⟨r, hp, by simpa using hreg⟩, Except.ok.injEq]
    constructor
    · intro hg
      omega
    · intro hg
      exact absurd hg.2 hfind

/-! ## The block of a large request -/

/-- The block has the size that was asked for, and it is found. -/
theorem largeAlloc_usable (h : Inv c s G) {n p : Nat} (hfit : LargeFits c n 16) (hpos : 0 < n)
    (he : largeAlloc c s n = .ok (p, s')) (hp : p ≠ 0) :
    myMallocUsableSize s' p = .ok n ∧ Findable s' p := by
  obtain ⟨b, ha, -⟩ := (largeAlloc_spec h hfit hpos he).got hp
  -- the slots are the old ones, and the pointer is new
  have hslot : ∀ r, p ∉ (G.takeLarge b p).busy r := fun r hr => ha.fresh _ (.slab r hr)
  refine ⟨ha.inv.usableSize ha.new fun hlost => hslot _ hlost.choose_spec.1, ?_⟩
  rcases ha.inv.blk_cases ha.new with ⟨r, hr, -⟩ | ⟨b', la, hl, hok, -⟩
  · exact absurd hr (hslot r)
  · have hge := hok.ptr_ge
    exact Or.inl ⟨b', la, hl, by omega, hok.ptr_lt⟩

/-- The header makes the length wrap to 0, and `mmap` refuses. -/
theorem largeAlloc_null (s : State) (hP : 16 ≤ c.osPage) {n : Nat} (h₁ : 48 + n ≤ 2 ^ 64)
    (h₂ : 2 ^ 64 ≤ 48 + n + c.osPage - 1) : ∃ s', largeAlloc c s n = .ok (0, s') := by
  have h48 : alignUp (raisedAlign (2 ^ 4)) 48 = 48 := by decide
  have htot : largeTotal c n (raisedAlign (2 ^ 4)) = 0 :=
    largeTotal_zero (by decide) (by rw [h48]; exact h₁) (by rw [h48]; exact h₂)
  obtain ⟨s', he, -⟩ := largeAllocAligned_unmappable (c := c) (n := n) (k := 4) s (by decide)
    (Or.inl (by rw [mapLen, if_pos (show raisedAlign (2 ^ 4) ≤ c.osPage from hP), htot]))
  exact ⟨s', he⟩

/-- A large request that is granted fits, or `zone_good_size` wraps on it. -/
theorem largeAlloc_granted (hP : 64 ≤ c.osPage) {n p : Nat} (hn : n < 2 ^ 64)
    (he : largeAlloc c s n = .ok (p, s')) (hp : p ≠ 0) :
    LargeFits c n 16 ∨ alignUp64 c.osPage n = 0 := by
  have hpage := c.osPage_le
  by_cases hfit : 48 + n + c.osPage - 1 < 2 ^ 64
  · exact Or.inl ⟨hfit, fun hgt => absurd hgt (by rw [show raisedAlign 16 = 16 from rfl]; omega)⟩
  · have hsum : 2 ^ 64 < 48 + n := by
      by_contra hc
      obtain ⟨s₁, he'⟩ :=
        largeAlloc_null s (show 16 ≤ c.osPage by omega) (n := n) (by omega) (by omega)
      exact hp (Prod.mk.inj (Except.ok.inj (he.symm.trans he'))).1
    rcases goodPages_cases (c := c) hn with ⟨h0, -⟩ | ⟨-, hlt⟩
    · exact Or.inr h0
    · omega

/-- The agreement for a large block. -/
theorem goodSize_large (h : Inv c s G) (hP : 64 ≤ c.osPage) {n p good : Nat} (hn : n < 2 ^ 64)
    (hpos : 0 < n) (he : largeAlloc c s n = .ok (p, s')) (hp : p ≠ 0)
    (hgood : alignUp64 c.osPage n = 0 → good = 0) :
    ((n ≤ good ∧ myMallocUsableSize s' p = .ok good) ↔ good = n ∧ Findable s' p) ∧
      (good = n → Findable s' p) := by
  rcases largeAlloc_granted hP hn he hp with hfit | hwrap
  · obtain ⟨husable, hfind⟩ := largeAlloc_usable h hfit hpos he hp
    rw [husable, Except.ok.injEq]
    refine ⟨⟨?_, ?_⟩, fun _ => hfind⟩
    · intro hg
      exact ⟨hg.2.symm, hfind⟩
    · intro hg
      exact ⟨Nat.le_of_eq hg.1.symm, hg.1.symm⟩
  · have h0 := hgood hwrap
    refine ⟨⟨?_, ?_⟩, ?_⟩
    · intro hg
      omega
    · intro hg
      omega
    · intro hg
      omega

/-! ## Every request -/

/-- A medium request is far from the wrap. -/
theorem goodPages_medium {n : Nat} (h₁ : 0 < n) (h₂ : n ≤ mediumMax) :
    alignUp64 c.osPage n ≠ 0 := by
  have hP := c.osPage_le
  have hn : n ≤ 131072 := h₂
  rcases goodPages_cases (c := c) (n := n) (by omega) with ⟨-, hwrap⟩ | ⟨heq, -⟩
  · omega
  · have hle := le_alignUp c.osPage_pos n
    omega

theorem goodSizeFits_slab {n : Nat} (h : SlabSized n) : GoodSizeFits c n ↔ 16 ∣ classSize n := by
  refine ⟨fun hg => hg.1 h.1 h.2, fun hd => ⟨fun _ _ => hd, ?_, ?_⟩⟩
  · intro _ hbig
    exact absurd h.2 (Nat.not_le.mpr hbig)
  · intro hbig
    exact absurd h.1 (Nat.not_le.mpr hbig)

theorem goodSizeFits_large {n : Nat} (h : ¬ SlabSized n) (hn : n < 2 ^ 64) (hpos : 0 < n) :
    GoodSizeFits c n ↔ zoneGoodSize c n = n := by
  have hone := atLeastOne_of_pos hpos
  rcases Nat.lt_or_ge mediumMax n with hbig | hmed
  · rw [zoneGoodSize_pages (by rw [hone]; exact hbig), hone, goodPages_eq_iff hn hpos]
    refine ⟨fun hg => hg.2.2 hbig, fun hd => ⟨?_, ?_, fun _ => hd⟩⟩
    · intro hmed
      exact absurd hbig (Nat.not_lt.mpr hmed)
    · intro hmed
      exact absurd hbig (Nat.not_lt.mpr hmed)
  · have hhalf : 32768 < classSize n := Nat.not_le.mp fun hc => h ⟨hmed, hc⟩
    rw [zoneGoodSize_class (by rw [hone]; exact hmed), hone]
    refine ⟨fun hg => hg.2.1 hmed hhalf, fun he => ⟨?_, fun _ _ => he, ?_⟩⟩
    · intro _ hc
      omega
    · intro hbig
      exact absurd hmed (Nat.not_le.mpr hbig)

/-- `zone_good_size` and `my_malloc_usable_size` agree on a block exactly if the roundings agree
and the block is found. With at most 255 segments before the call it is found, and the roundings
alone decide. -/
theorem good_size_iff (c : Cfg) (hP : 64 ≤ c.osPage) (σ : Sys) (h : Reachable c (SafeCall c) σ)
    (ans : List (Option Nat)) (t n p : Nat) (s' : State) (hn : n < 2 ^ 64)
    (he : myMalloc c (σ.heap.withAnswers ans) t n = .ok (p, s')) (hp : p ≠ 0) :
    ((n ≤ zoneGoodSize c n ∧ myMallocUsableSize s' p = .ok (zoneGoodSize c n)) ↔
      GoodSizeFits c (atLeastOne n) ∧ Findable s' p) ∧
    (SegmentsAtMost σ.heap.segs 255 →
      ((n ≤ zoneGoodSize c n ∧ myMallocUsableSize s' p = .ok (zoneGoodSize c n)) ↔
        GoodSizeFits c (atLeastOne n))) := by
  suffices hboth : ((n ≤ zoneGoodSize c n ∧ myMallocUsableSize s' p = .ok (zoneGoodSize c n)) ↔
      GoodSizeFits c (atLeastOne n) ∧ Findable s' p) ∧
      (GoodSizeFits c (atLeastOne n) → SegmentsAtMost σ.heap.segs 255 → Findable s' p) by
    refine ⟨hboth.1, fun hfew => hboth.1.trans ⟨fun hg => hg.1, fun hg => ⟨hg, hboth.2 hg hfew⟩⟩⟩
  obtain ⟨G, hh⟩ := reachable_holds (fun _ _ hs => hs) h
  have hinv := (hh.withAnswers ans).inv
  have hpos := atLeastOne_pos n
  by_cases hslab : SlabSized (atLeastOne n)
  · -- a slot of the class, widened
    have hfit : LargeFits c n 16 := largeFits_small (Nat.le_trans (le_atLeastOne n) hslab.1)
    have hpost := ensures_elim (myMalloc_spec (t := t) hinv hfit) he
    obtain ⟨k, G', -, ha, -, hslot⟩ := hpost.got hp
    obtain ⟨rfl, r, hr⟩ := hslot hslab
    obtain ⟨hle, h8⟩ := classSize_bounds hpos hslab.1
    rw [zoneGoodSize_class hslab.1, goodSizeFits_slab hslab,
      goodSize_slab ha.inv (Nat.le_trans (le_atLeastOne n) hle) h8 hr ha.new]
    refine ⟨Iff.rfl, fun _ hfew => (ha.inv.findable_iff hr).mpr ?_⟩
    have hall := (ha.inv.registry.registered_iff ha.inv.segs_zero).mpr (hpost.segExt.atMost hfew)
    exact hall r.seg (ha.inv.busy_active hr).1.1
  · -- a mapping of its own
    have hn0 : 0 < n := by
      by_contra hc
      obtain rfl : n = 0 := by omega
      exact hslab ⟨by decide, by decide +kernel⟩
    rw [atLeastOne_of_pos hn0] at hslab ⊢
    have hlarge : myMalloc c (σ.heap.withAnswers ans) t n =
        largeAlloc c (σ.heap.withAnswers ans) n := by
      unfold myMalloc
      simp only [if_neg (Nat.ne_of_gt hn0), slabAlloc_rerouted c _ t hn0 hslab, ite_self]
    have hl := hlarge.symm.trans he
    have hwrap : alignUp64 c.osPage n = 0 → zoneGoodSize c n = 0 := by
      intro h0
      rcases Nat.lt_or_ge mediumMax n with hbig | hmed
      · rw [zoneGoodSize_pages (by rw [atLeastOne_of_pos hn0]; exact hbig),
          atLeastOne_of_pos hn0, h0]
      · exact absurd h0 (goodPages_medium hn0 hmed)
    rw [goodSizeFits_large hslab hn hn0]
    obtain ⟨hiff, hfind⟩ := goodSize_large hinv hP hn hn0 hl hp hwrap
    exact ⟨hiff, fun hg _ => hfind hg⟩

/-- The first request of 16 bytes. -/
theorem good_size_iff_sixteen : ∃ p s',
    myMalloc (.page4k false) ((Sys.initial (.page4k false)).heap.withAnswers
      [some 0x10000000, some 0x20000000]) 0 16 = .ok (p, s') ∧ p ≠ 0 ∧
    zoneGoodSize (.page4k false) 16 = 16 ∧ myMallocUsableSize s' p = .ok 16 := by
  obtain ⟨⟨p, s'⟩, he, ht⟩ := exists_of_passes (myMalloc (.page4k false)
    ((Sys.initial (.page4k false)).heap.withAnswers [some 0x10000000, some 0x20000000]) 0 16)
    (fun r => r.1 != 0) (by decide +kernel)
  have hp : p ≠ 0 := by simpa using ht
  have hgood : zoneGoodSize (.page4k false) 16 = 16 := by decide +kernel
  have hfits : GoodSizeFits (.page4k false) (atLeastOne 16) :=
    (goodSizeFits_slab ⟨by decide, by decide +kernel⟩).mpr (by decide +kernel)
  have hnone : SegmentsAtMost (Sys.initial (.page4k false)).heap.segs 255 :=
    ⟨∅, by decide, fun b hb => absurd hb (by simp [Sys.initial, State.initial])⟩
  have h := good_size_iff (.page4k false) (by decide) _ .refl
    [some 0x10000000, some 0x20000000] 0 16 p s' (by decide) he hp
  have hagree := ((h.2 hnone).mpr hfits).2
  rw [hgood] at hagree
  exact ⟨p, s', he, hp, hgood, hagree⟩

/-- On the empty heap `n` bytes get a block that does not have the promised size. -/
def Mismatch (n : Nat) : Prop := ∃ p s',
  myMalloc (.page4k false) ((Sys.initial (.page4k false)).heap.withAnswers
    [some 0x10000000, some 0x20000000]) 0 n = .ok (p, s') ∧ p ≠ 0 ∧
  ¬ (n ≤ zoneGoodSize (.page4k false) n ∧
    myMallocUsableSize s' p = .ok (zoneGoodSize (.page4k false) n))

theorem mismatch_of_passes {n : Nat} (h : (match myMalloc (.page4k false)
    ((Sys.initial (.page4k false)).heap.withAnswers [some 0x10000000, some 0x20000000]) 0 n with
      | .ok (p, s') => p != 0 && (decide (zoneGoodSize (.page4k false) n < n) ||
          match myMallocUsableSize s' p with
          | .ok u => u != zoneGoodSize (.page4k false) n
          | .error _ => false)
      | .error _ => false) = true) : Mismatch n := by
  split at h
  next p s' he =>
    simp only [Bool.and_eq_true, bne_iff_ne, Bool.or_eq_true, decide_eq_true_eq] at h
    refine ⟨p, s', he, h.1, fun hg => ?_⟩
    rcases h.2 with hlt | hu
    · omega
    · rw [hg.2] at hu
      exact absurd hu (by simp)
  next => cases h

/-- A widened slot (8 bytes promised, 16 given), a rerouted class (41088 and 40000), whole OS
pages (200704 and 200000), and the wrap (0 and `2 ^ 64 - 47`). -/
theorem good_size_differs :
    Mismatch 8 ∧ Mismatch 40000 ∧ Mismatch 200000 ∧ Mismatch (2 ^ 64 - 47) :=
  ⟨mismatch_of_passes (by decide +kernel), mismatch_of_passes (by decide +kernel),
    mismatch_of_passes (by decide +kernel), mismatch_of_passes (by decide +kernel)⟩

end CustomMalloc

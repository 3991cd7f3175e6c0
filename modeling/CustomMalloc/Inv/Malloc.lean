import CustomMalloc.Inv.Slab

/-!
# The public API preserves the invariant

One specification per function of `malloc.c`: what it hands out, what it takes
back, and that every other block keeps its bytes. A call can only stop where C
leaves the behaviour undefined (`Halt.undefined`); it never diverges, and the
debug checks never fire on a live block.
-/

namespace CustomMalloc

open Lib.Words Lib.Bytes Lib.Chain Lib.Intervals Lib.Regions Lib.Post Lib.Probe

variable {c : Cfg} {s s' : State} {G G' : Ghost}

/-! ## Segments and blocks across a call -/

/-- Whether a segment is registered is decided when it is created. -/
theorem SegExt.registered (he : SegExt s s') (h : Inv c s G) {b : Nat} (hb : (s.segs b).isSome) :
    segmentIsRegistered s'.segmentRegistry b = segmentIsRegistered s.segmentRegistry b := by
  rcases he with ⟨-, hreg⟩ | ⟨x, hx⟩
  · rw [hreg]
  · obtain ⟨g, hg⟩ := Option.isSome_iff_exists.mp hb
    have hb0 : b ≠ 0 := Nat.ne_of_gt (h.segOk hg).pos
    rw [hx.registry]
    rcases h.registry.register_cases hx.ne hx.none with hput | ⟨heq, -⟩
    · rcases h.registry.complete b hb0 hb with hreg | hfull
      · rw [hreg]
        exact segmentIsRegistered_mono hb0 (fun i hi => hput.keeps hi) hreg
      · -- a full registry has no place to put anything
        obtain ⟨m, -, hempty, -⟩ := hput
        exact absurd hempty (hfull _ (probeSlot_lt _ _))
    · rw [heq]

/-- No segment, old or new, contains an address of a large mapping. -/
theorem SegExt.not_large (he : SegExt s s') (h : Inv c s G) {l b x : Nat}
    (hl : Region.Has c s.segs s.larges s.tls (.large l) x) (hb : (s'.segs b).isSome) (h₁ : b ≤ x)
    (h₂ : x < b + 4194304) : False := by
  have hold : ¬ (s.segs b).isSome := fun hs =>
    absurd (h.regions.apart hl (j := .seg b) ⟨hs, h₁, h₂⟩) (by simp)
  rcases he with ⟨hdom, -⟩ | ⟨y, hy⟩
  · exact hold (hdom b ▸ hb)
  · rcases (hy.dom b).mp hb with rfl | hs
    · obtain ⟨la, hla, h₃, h₄⟩ := hl
      exact hy.apart hla h₃ h₄ h₁ h₂
    · exact hold hs

/-- A block that was there before the call and is a slot now was a slot then, of the
same segment. -/
theorem SegExt.slab_back (he : SegExt s s') (h : Inv c s G) (h' : Inv c s' G') {p n : Nat}
    {r' : PageRef} (hb : Blk s G p n) (hp : p ∈ G'.busy r') :
    ∃ r, p ∈ G.busy r ∧ n = (s.pages r).slotSize ∧ r.seg = r'.seg := by
  obtain ⟨hd', hinv'⟩ := h'.busy_active hp
  obtain ⟨b₁', b₂', -⟩ := hinv'.busy_in hp
  have hge' := hinv'.geom.slot_ge
  rcases h.blk_cases hb with ⟨r, hr, hd, hinv, rfl⟩ | ⟨b, la, hl, hok, rfl, -⟩
  · obtain ⟨b₁, b₂, -⟩ := hinv.busy_in hr
    have hge := hinv.geom.slot_ge
    refine ⟨r, hr, rfl, ?_⟩
    rw [← (h.segment_of hd b₁ (by omega)).1, ← (h'.segment_of hd' b₁' (by omega)).1]
  · obtain ⟨hs, hlo, hhi⟩ := hd'
    unfold PageRef.start at b₁' b₂'
    exact (he.not_large h (hok.region hl).1 hs (by omega) (by omega)).elim

/-- A slot of a page whose segment is not registered: `my_free` cannot find it. -/
def Lost (s : State) (G : Ghost) (p : Nat) : Prop :=
  ∃ r, p ∈ G.busy r ∧ segmentIsRegistered s.segmentRegistry r.seg = false

theorem Lost.back (he : SegExt s s') (h : Inv c s G) (h' : Inv c s' G') {p n : Nat}
    (hb : Blk s G p n) (hlost : Lost s' G' p) : Lost s G p := by
  obtain ⟨r', hp, hreg⟩ := hlost
  obtain ⟨r, hr, -, hseg⟩ := he.slab_back h h' hb hp
  refine ⟨r, hr, ?_⟩
  rw [← he.registered h (h.busy_active hr).1.1, hseg]
  exact hreg

/-- The tagged remote lists hold 48-bit addresses: `p` is one if it is a slot. -/
def LowPtr (s : State) (p : Nat) : Prop :=
  ∀ r, IsData s.segs r → r.start ≤ p → p < r.start + 65536 → p < 2 ^ 48

/-- The block `p` can go on a remote list. -/
def Low (G : Ghost) (p : Nat) : Prop := ∀ r, p ∈ G.busy r → p < 2 ^ 48

theorem LowPtr.low {p : Nat} (hlow : LowPtr s p) (h : Inv c s G) : Low G p := by
  intro r hp
  obtain ⟨hd, hinv⟩ := h.busy_active hp
  obtain ⟨b₁, b₂, -⟩ := hinv.busy_in hp
  have hge := hinv.geom.slot_ge
  exact hlow r hd b₁ (by omega)

theorem Low.forward (he : SegExt s s') (h : Inv c s G) (h' : Inv c s' G') {p n : Nat}
    (hb : Blk s G p n) (hlow : Low G p) : Low G' p := by
  intro r' hp
  obtain ⟨r, hr, -⟩ := he.slab_back h h' hb hp
  exact hlow r hr

/-! ## Where a live pointer leads -/

/-- No block lies in the bootstrap buffer. -/
theorem Inv.not_bootstrap (h : Inv c s G) {p n : Nat} (hb : Blk s G p n) :
    inBootstrap c p = false := by
  by_contra hc
  have hc' : inBootstrap c p = true := by simpa using hc
  simp only [inBootstrap, Bool.and_eq_true, decide_eq_true_eq] at hc'
  have hboot : Region.Has c s.segs s.larges s.tls .boot p := hc'
  rcases h.blk_cases hb with ⟨r, hp, -⟩ | ⟨b, la, hl, hok, -⟩
  · exact absurd (h.regions.apart (h.slab_region hp).1 hboot) (by simp)
  · exact absurd (h.regions.apart (hok.region hl).1 hboot) (by simp)

/-- A large block is in no registered segment. -/
theorem Inv.ptrToSegment_large (h : Inv c s G) {b p : Nat} {la : LargeAlloc}
    (hl : s.larges b = some la) (hok : LargeOk c b la p) : ptrToSegment s p = 0 := by
  have hlt := hok.ptr_lt
  have hstop := hok.stop
  have hmask := and_highMask (k := 22) (x := p) (by decide) (by omega)
  unfold ptrToSegment
  simp only [show segmentSize = 2 ^ 22 from rfl]
  split
  next hreg =>
    by_contra hne
    obtain ⟨i, hi⟩ := (segmentIsRegistered_iff.mp hreg).mem
    have hseg := h.registry.seg i (by rw [hi]; exact hne)
    rw [hi, hmask] at hseg
    have hin : Region.Has c s.segs s.larges s.tls (.seg _) p := ⟨hseg, by omega, by omega⟩
    exact absurd (h.regions.apart hin (hok.region hl).1) (by simp)
  next => rfl

/-- A slot is in no large mapping. -/
theorem Inv.largeFind_slab (h : Inv c s G) {p : Nat} {r : PageRef} (hp : p ∈ G.busy r) :
    largeFind s p = .ok none :=
  h.largeFind_none fun b hb => absurd (h.regions.apart (h.slab_region hp).1 hb) (by simp)

/-- `ptr_to_segment` and `ptr_to_page` for a slot. -/
theorem Inv.ptrToPage_slab (h : Inv c s G) {p : Nat} {r : PageRef} (hp : p ∈ G.busy r) :
    ptrToSegment s p = (if segmentIsRegistered s.segmentRegistry r.seg then r.seg else 0) ∧
    ptrToPage s p = (if segmentIsRegistered s.segmentRegistry r.seg then some r else none) := by
  obtain ⟨hd, hinv⟩ := h.busy_active hp
  obtain ⟨b₁, b₂, -⟩ := hinv.busy_in hp
  have := hinv.geom.slot_ge
  exact h.ptrToPage_eq hd b₁ (by omega)

theorem Inv.ptrToPage_large (h : Inv c s G) {b p : Nat} {la : LargeAlloc}
    (hl : s.larges b = some la) (hok : LargeOk c b la p) : ptrToPage s p = none := by
  unfold ptrToPage
  rw [h.ptrToSegment_large hl hok]
  simp

/-- A slot of a registered segment is not lost: it is on one page only. -/
theorem Inv.not_lost (h : Inv c s G) {p : Nat} {r : PageRef} (hp : p ∈ G.busy r)
    (hreg : segmentIsRegistered s.segmentRegistry r.seg = true) : ¬ Lost s G p := by
  rintro ⟨r', hp', hreg'⟩
  have hpage := (h.ptrToPage_slab hp).2
  rw [(h.ptrToPage_slab hp').2, if_pos hreg, if_neg (by rw [hreg']; simp)] at hpage
  cases hpage

/-- A large block is not lost. -/
theorem Inv.large_not_lost (h : Inv c s G) {b p : Nat} {la : LargeAlloc}
    (hl : s.larges b = some la) (hok : LargeOk c b la p) : ¬ Lost s G p := by
  rintro ⟨r, hp, -⟩
  exact absurd (h.regions.apart (h.slab_region hp).1 (hok.region hl).1) (by simp)

/-- `p` lies in a large mapping or in a registered segment. -/
def Findable (s : State) (p : Nat) : Prop :=
  (∃ b la, s.larges b = some la ∧ b ≤ p ∧ p < b + la.size) ∨ ptrToSegment s p ≠ 0

theorem Findable.not_lost {p : Nat} (hf : Findable s p) (h : Inv c s G) : ¬ Lost s G p := by
  rintro ⟨r, hp, hreg⟩
  rcases hf with ⟨b, la, hl, h₁, h₂⟩ | hne
  · exact absurd (h.regions.apart (h.slab_region hp).1 (j := .large b) ⟨la, hl, h₁, h₂⟩) (by simp)
  · rw [(h.ptrToPage_slab hp).1, hreg, if_neg (by simp)] at hne
    exact hne rfl

/-- What `my_malloc_usable_size` says of a block it can find is the block's size. -/
theorem Inv.usableSize (h : Inv c s G) {p n : Nat} (hb : Blk s G p n) (hfound : ¬ Lost s G p) :
    myMallocUsableSize s p = .ok n := by
  obtain ⟨-, hpos⟩ := h.blk_align hb
  unfold myMallocUsableSize
  rw [if_neg (Nat.ne_of_gt hpos)]
  rcases h.blk_cases hb with ⟨r, hp, -, -, rfl⟩ | ⟨b, la, hl, hok, rfl, rfl⟩
  · rw [(h.ptrToPage_slab hp).2, if_pos]
    by_contra hreg
    exact hfound ⟨r, hp, by simpa using hreg⟩
  · rw [h.ptrToPage_large hl hok]
    unfold largeUsableSize
    rw [h.largeFind_eq (hok.region hl).1]
    simp only [bind, Except.bind, hl]
    rfl

/-- Of a slot it cannot find, it says nothing. -/
theorem Inv.usableSize_lost (h : Inv c s G) {p : Nat} (hlost : Lost s G p) :
    myMallocUsableSize s p = .ok 0 := by
  obtain ⟨r, hp, hreg⟩ := hlost
  obtain ⟨-, hpos⟩ := h.blk_align (.slab r hp)
  unfold myMallocUsableSize
  rw [if_neg (Nat.ne_of_gt hpos), (h.ptrToPage_slab hp).2, hreg, if_neg (by simp)]
  unfold largeUsableSize
  rw [h.largeFind_slab hp]
  rfl

theorem SegExt.seg_mono (he : SegExt s s') {b : Nat} (hb : (s.segs b).isSome) :
    (s'.segs b).isSome := by
  rcases he with ⟨hdom, -⟩ | ⟨x, hx⟩
  · rw [hdom b]
    exact hb
  · exact (hx.dom b).mpr (Or.inr hb)

/-- A lost block stays lost. -/
theorem Lost.forward (he : SegExt s s') (h : Inv c s G) (h' : Inv c s' G') {p n : Nat}
    (hb : Blk s' G' p n) (hlost : Lost s G p) : Lost s' G' p := by
  obtain ⟨r, hr, hreg⟩ := hlost
  obtain ⟨hd, hinv⟩ := h.busy_active hr
  obtain ⟨b₁, b₂, -⟩ := hinv.busy_in hr
  have hge := hinv.geom.slot_ge
  have hd' : IsData s'.segs r := ⟨he.seg_mono hd.1, hd.2⟩
  rcases h'.blk_cases hb with ⟨r', hp', -, -, -⟩ | ⟨b, la, hl, hok, -, -⟩
  · obtain ⟨r₁, hr₁, -, hseg⟩ := he.slab_back h h' (.slab r hr) hp'
    refine ⟨r', hp', ?_⟩
    have hpage := (h.ptrToPage_slab hr₁).1
    rw [(h.ptrToPage_slab hr).1, hreg, if_neg (by simp)] at hpage
    have hd₁ := (h.busy_active hr₁).1
    obtain ⟨g, hg⟩ := Option.isSome_iff_exists.mp hd₁.1
    have hpos := (h.segOk hg).pos
    rw [← hseg, he.registered h hd₁.1]
    by_contra hc
    rw [if_pos (by simpa using hc)] at hpage
    omega
  · exact absurd (h'.regions.apart (hd'.has b₁ (by omega)) (hok.region hl).1) (by simp)

/-- `my_malloc_usable_size` of a block that stays does not change. -/
theorem SegExt.usableSize (he : SegExt s s') (h : Inv c s G) (h' : Inv c s' G') {p n : Nat}
    (hb : Blk s G p n) (hb' : Blk s' G' p n) :
    myMallocUsableSize s' p = myMallocUsableSize s p := by
  by_cases hlost : Lost s G p
  · rw [h.usableSize_lost hlost, h'.usableSize_lost (hlost.forward he h h' hb')]
  · rw [h.usableSize hb hlost, h'.usableSize hb' fun hl => hlost (hl.back he h h' hb)]

/-! ## `my_malloc` and `my_calloc` -/

theorem AllocPost.forget {size p : Nat} {zeroed : Bool} (h : AllocPost c s G size p zeroed s') :
    AllocPost c s G size p false s' := by
  refine ⟨h.segExt, h.null, fun h0 => ?_⟩
  obtain ⟨k, G', hk, ha, -, hs⟩ := h.got h0
  exact ⟨k, G', hk, ha, fun hf => absurd hf (by simp), hs⟩

theorem atLeastOne_of_pos {size : Nat} (h : 0 < size) : atLeastOne size = size :=
  if_neg (Nat.ne_of_gt h)

theorem not_slabSized {size : Nat} (h : mediumMax < size) : ¬ SlabSized size :=
  fun hs => absurd hs.1 (Nat.not_le.mpr h)

theorem slabAlloc_spec (h : Inv c s G) {t size : Nat} (hfit : LargeFits c size 16) :
    Ensures (Wrapped s) (slabAlloc c s t size) fun (p, s') =>
      AllocPost c s G (atLeastOne size) p false s' := by
  unfold slabAlloc
  refine ensures_bind (slabAllocInner_spec h hfit) ?_
  rintro ⟨⟨p, zeroed⟩, s'⟩ hp
  exact hp.forget

theorem myMalloc_spec (h : Inv c s G) {t size : Nat} (hfit : LargeFits c size 16) :
    Ensures (Wrapped s) (myMalloc c s t size) fun (p, s') =>
      AllocPost c s G (atLeastOne size) p false s' := by
  unfold myMalloc
  rw [show (if size = 0 then 1 else size) = atLeastOne size from rfl]
  have hpos := atLeastOne_pos size
  simp only
  split
  next hbig =>
    obtain ⟨p, s', he⟩ := largeAlloc_returns s hfit.atLeastOne
    rw [he]
    exact (largeAlloc_spec h hfit.atLeastOne hpos he).allocPost (not_slabSized hbig)
  next =>
    have := slabAlloc_spec (t := t) h hfit.atLeastOne
    rwa [atLeastOne_of_pos hpos] at this

/-- A request that no bin serves is rerouted. -/
theorem slabAlloc_rerouted (c : Cfg) (s : State) (t : Nat) {n : Nat} (hpos : 0 < n)
    (hn : ¬ SlabSized n) : slabAlloc c s t n = largeAlloc c s n := by
  unfold slabAlloc slabAllocInner
  simp only [if_neg (Nat.ne_of_gt hpos)]
  by_cases hbig : mediumMax < n
  · rw [if_pos hbig]
    cases largeAlloc c s n <;> rfl
  · rw [if_neg hbig, if_pos]
    · cases largeAlloc c s n <;> rfl
    · exact Nat.not_le.mp fun hbin => hn ⟨Nat.not_lt.mp hbig, hbin⟩

/-- `my_malloc` asks for a large block or for a slot. -/
theorem myMalloc_cases (c : Cfg) (s : State) (t : Nat) {size : Nat} (hfit : LargeFits c size 16) :
    (∃ n, 0 < n ∧ LargeFits c n 16 ∧ myMalloc c s t size = largeAlloc c s n) ∨
      ∃ n, 0 < n ∧ SlabSized n ∧ myMalloc c s t size = slabAlloc c s t n := by
  have hpos := atLeastOne_pos size
  have heq : myMalloc c s t size = if mediumMax < atLeastOne size
      then largeAlloc c s (atLeastOne size) else slabAlloc c s t (atLeastOne size) := rfl
  by_cases hslab : SlabSized (atLeastOne size)
  · rw [if_neg (Nat.not_lt.mpr hslab.1)] at heq
    exact Or.inr ⟨_, hpos, hslab, heq⟩
  · rw [slabAlloc_rerouted c s t hpos hslab, ite_self] at heq
    exact Or.inl ⟨_, hpos, hfit.atLeastOne, heq⟩

/-- Writing into the block that was just handed out. -/
theorem Alloc.write {p k : Nat} (h : Alloc c s G p k s' G') (m' : Mem)
    (hm : ∀ y, m' y ≠ s'.mem y → p ≤ y ∧ y < p + k) :
    Alloc c s G p k { s' with mem := m' } G' := by
  have hsame : SameMeta s' { s' with mem := m' } := ⟨rfl, rfl, rfl, rfl⟩
  refine ⟨h.inv.write fun y hy => ⟨p, k, h.new, hm y hy⟩, fun q n hb _ => ?_, h.new.same hsame,
    h.fresh, fun q n hb hne => h.only q n (hb.same ⟨rfl, rfl, rfl, rfl⟩) hne⟩
  obtain ⟨hb', hm'⟩ := h.keeps q n hb trivial
  refine ⟨hb'.same hsame, fun y h₁ h₂ => ?_⟩
  rw [← hm' y h₁ h₂]
  by_contra hne
  obtain ⟨h₃, h₄⟩ := hm y hne
  rcases h.inv.blk_apart hb' h.new with ⟨rfl, -⟩ | ⟨-, hapart⟩
  · exact h.fresh n hb
  · omega

/-- The result of `my_calloc`: null, or a new block whose first `total` bytes are
zero. -/
structure CallocPost (c : Cfg) (s : State) (G : Ghost) (total p : Nat) (s' : State) : Prop where
  segExt : SegExt s s'
  null : p = 0 → Quiet c s G s'
  got : p ≠ 0 → ∃ k G', total ≤ k ∧ Alloc c s G p k s' G' ∧
    ∀ y, p ≤ y → y < p + total → s'.mem y = 0

/-- An overflowing product is refused. -/
theorem myCalloc_overflow {t count size : Nat} (h : 2 ^ 64 ≤ count * size) :
    myCalloc c s t count size = .ok (0, s) := if_pos h

theorem myCalloc_spec (h : Inv c s G) {t count size : Nat} (hlt : count * size < 2 ^ 64)
    (hfit : LargeFits c (count * size) 16) :
    Ensures (Wrapped s) (myCalloc c s t count size) fun (p, s') =>
      CallocPost c s G (atLeastOne (count * size)) p s' := by
  unfold myCalloc
  rw [if_neg (Nat.not_le.mpr hlt),
    show (if count * size = 0 then 1 else count * size) = atLeastOne (count * size) from rfl]
  have hpos := atLeastOne_pos (count * size)
  simp only
  split
  next hbig =>
    obtain ⟨p, s', he⟩ := largeAlloc_returns s hfit.atLeastOne
    have hl := largeAlloc_spec h hfit.atLeastOne hpos he
    rw [he]
    refine ⟨.of_eq hl.frame.segs hl.frame.registry, hl.null, fun h0 => ?_⟩
    obtain ⟨b, ha, -, hz⟩ := hl.got h0
    exact ⟨_, _, Nat.le_refl _, ha, hz⟩
  next =>
    have hslab := slabAllocInner_spec (t := t) h hfit.atLeastOne
    rw [atLeastOne_of_pos hpos] at hslab
    refine ensures_bind hslab ?_
    rintro ⟨⟨p, zeroed⟩, s'⟩ hp
    simp only
    split
    next hc =>
      refine ⟨hp.segExt.before rfl rfl, fun h0 => absurd h0 hc.1, fun h0 => ?_⟩
      obtain ⟨k, G', hk, ha, -⟩ := hp.got h0
      refine ⟨k, G', hk, ha.write _ fun y hy => ?_, fun y h₁ h₂ => fillZero_in h₁ h₂⟩
      by_contra hc
      exact hy (fillZero_out (by omega))
    next hc =>
      refine ⟨hp.segExt, hp.null, fun h0 => ?_⟩
      obtain ⟨k, G', hk, ha, hz, -⟩ := hp.got h0
      have hzero : zeroed = true := by
        by_contra hf
        exact hc ⟨h0, by simpa using hf⟩
      exact ⟨k, G', hk, ha, fun y h₁ h₂ => hz hzero y h₁ (by omega)⟩

/-! ## `my_free` -/

/-- A page with a slot below `2 ^ 48` lies below it. -/
theorem Inv.page_low (h : Inv c s G) {r : PageRef} {p : Nat} (hp : p ∈ G.busy r)
    (hlow : p < 2 ^ 48) : r.start + 65536 ≤ 2 ^ 48 := by
  obtain ⟨hd, hinv⟩ := h.busy_active hp
  obtain ⟨g, hg⟩ := Option.isSome_iff_exists.mp hd.1
  obtain ⟨b₁, -, -⟩ := hinv.busy_in hp
  obtain ⟨q, hq⟩ := (h.segOk hg).al
  unfold PageRef.start at b₁ ⊢
  omega

/-- The result of freeing a live block: it is gone, unless its segment is not
registered; then nothing happens. -/
structure FreedPost (c : Cfg) (s : State) (G : Ghost) (p : Nat) (s' : State) : Prop where
  segs : s'.segs = s.segs
  registry : s'.segmentRegistry = s.segmentRegistry
  freed : ¬ Lost s G p → ∃ G', Release c s G p s' G'
  lost : Lost s G p → s' = s

theorem myFree_spec (h : Inv c s G) {t p n : Nat} (hb : Blk s G p n) (hlow : Low G p) :
    Ensures (· = .undefined) (myFree c s t p) fun s' => FreedPost c s G p s' := by
  obtain ⟨-, hpos⟩ := h.blk_align hb
  unfold myFree
  rw [if_neg (Nat.ne_of_gt hpos), h.not_bootstrap hb, if_neg (by simp)]
  rcases h.blk_cases hb with ⟨r, hp, hd, hinv, rfl⟩ | ⟨b, la, hl, hok, rfl, rfl⟩
  · rw [(h.ptrToPage_slab hp).1]
    split
    next hreg =>
      obtain ⟨g, hg⟩ := Option.isSome_iff_exists.mp hd.1
      rw [if_pos (Nat.ne_of_gt (h.segOk hg).pos)]
      refine ensures_bad (ensures_mono (slabFree_spec h hp hreg (h.page_low hp (hlow r hp))) ?_)
        fun _ he => he.1
      intro s' hf
      exact ⟨hf.on.segs, hf.on.registry, fun _ => ⟨_, hf.release⟩,
        fun hlost => absurd hlost (h.not_lost hp hreg)⟩
    next hreg =>
      rw [if_neg (by simp)]
      unfold largeFree
      rw [if_neg (Nat.ne_of_gt hpos), h.largeFind_slab hp]
      exact ⟨rfl, rfl, fun hno => absurd ⟨r, hp, by simpa using hreg⟩ hno, fun _ => rfl⟩
  · rw [h.ptrToSegment_large hl hok, if_neg (by simp)]
    obtain ⟨s', he, hrel, hframe⟩ := largeFree_spec h hl
    rw [he]
    exact ⟨hframe.segs, hframe.registry, fun _ => ⟨G, hrel⟩,
      fun hlost => absurd hlost (h.large_not_lost hl hok)⟩

/-! ## `my_realloc` -/

/-- The block `p` became a block of `k` bytes at the same address. -/
structure InPlace (c : Cfg) (s : State) (G : Ghost) (p k : Nat) (s' : State) : Prop where
  inv : Inv c s' G
  keeps : Keeps s G s' G (· ≠ p)
  block : Blk s' G p k
  only : ∀ x j, Blk s' G x j → x ≠ p → Blk s G x j
  mem : s'.mem = s.mem

/-- The block `p` of `old` bytes became the block `q` of `k` bytes, which starts
with the first `n` bytes of `p` or all there were. -/
structure Moved (c : Cfg) (s : State) (G : Ghost) (p old n q k : Nat) (s' : State) (G' : Ghost) :
    Prop where
  inv : Inv c s' G'
  keeps : Keeps s G s' G' (· ≠ p)
  block : Blk s' G' q k
  fresh : ∀ j, ¬ Blk s G q j
  gone : ∀ j, ¬ Blk s' G' p j
  only : ∀ x j, Blk s' G' x j → x ≠ q → Blk s G x j
  copied : ∀ i, i < old → i < n → s'.mem (q + i) = s.mem (p + i)

/-- The result of `my_realloc` on a live block of `old` bytes. -/
structure ReallocPost (c : Cfg) (s : State) (G : Ghost) (p old n q : Nat) (s' : State) : Prop where
  segExt : SegExt s s'
  null : q = 0 → Quiet c s G s'
  same : q = p → ∃ k, n ≤ k ∧ InPlace c s G p k s'
  moved : q ≠ 0 → q ≠ p → ∃ k G', n ≤ k ∧ Moved c s G p old n q k s' G'

theorem reallocMove_spec (h : Inv c s G) {t p old n : Nat} (hb : Blk s G p old)
    (hfound : ¬ Lost s G p) (hlow : Low G p) (hfit : LargeFits c n 16) (hn : 0 < n) :
    Ensures (· = .undefined) (reallocMove c s t p old n) fun (q, s') =>
      ReallocPost c s G p old n q s' := by
  obtain ⟨-, hpos⟩ := h.blk_align hb
  unfold reallocMove
  refine ensures_bind (ensures_bad (myMalloc_spec h hfit) fun _ he => he.1) ?_
  rintro ⟨q, s₁⟩ hp
  rw [atLeastOne_of_pos hn] at hp
  simp only
  split
  next h0 =>
    exact ⟨hp.segExt, fun _ => hp.null h0, fun he => by omega, fun hne => absurd rfl hne⟩
  next h0 =>
    obtain ⟨k, G₁, hk, ha, -⟩ := hp.got h0
    generalize hm' : copy s₁.mem q p (if old < n then old else n) = m'
    have ha' := ha.write m' fun y hy => by
      by_contra hc
      rw [← hm'] at hy
      refine hy (copy_out ?_)
      split <;> omega
    have he : SegExt s { s₁ with mem := m' } := hp.segExt.before rfl rfl
    have hb₁ := (ha'.keeps p old hb trivial).1
    have hqp : q ≠ p := fun hqp => ha.fresh old (hqp ▸ hb)
    refine ensures_bind (myFree_spec ha'.inv hb₁ (hlow.forward he h ha'.inv hb)) ?_
    intro s' hf
    obtain ⟨G', hrel⟩ := hf.freed fun hl => hfound (hl.back he h ha'.inv hb)
    obtain ⟨hnew, hbytes⟩ := hrel.keeps q k ha'.new hqp
    refine ⟨he.before hf.segs hf.registry, fun hc => absurd hc h0, fun hc => absurd hc hqp,
      fun _ _ => ⟨k, G', hk, hrel.inv, (ha'.keeps.mono fun _ _ => trivial).trans hrel.keeps, hnew,
        ha.fresh, hrel.gone, fun x j hx hne => ha'.only x j (hrel.only x j hx) hne,
        fun i h₁ h₂ => ?_⟩⟩
    rw [hbytes (q + i) (by omega) (by omega)]
    show m' (q + i) = _
    rw [← hm', copy_in (by split <;> omega)]
    exact (ha.keeps p old hb trivial).2 (p + i) (by omega) (by omega)

/-- Changing a large block's size within its mapping. -/
theorem Inv.resize (h : Inv c s G) {b n : Nat} {la : LargeAlloc} (hl : s.larges b = some la)
    (hn : G.user b + n ≤ b + la.size) :
    InPlace c s G (G.user b) n
      { s with larges := upd s.larges b (some { la with userSize := n }) } := by
  have hok := h.larges.each hl
  have hother : ∀ {x : Nat} {y : LargeAlloc}, x ≠ b →
      (upd s.larges b (some { la with userSize := n }) x = some y ↔ s.larges x = some y) :=
    fun hx => by rw [upd_ne hx]
  have hself : upd s.larges b (some { la with userSize := n }) b = some { la with userSize := n } :=
    upd_same ..
  -- the links and the extent of every mapping are what they were
  have hnext := upd_proj (fun o : Option LargeAlloc => o.bind LargeAlloc.next) (g := s.larges)
    (a := b) (b := some { la with userSize := n }) (by rw [hl]; rfl)
  have hprev := upd_proj (fun o : Option LargeAlloc => o.bind LargeAlloc.prev) (g := s.larges)
    (a := b) (b := some { la with userSize := n }) (by rw [hl]; rfl)
  have hsome := upd_proj (fun o : Option LargeAlloc => o.isSome) (g := s.larges)
    (a := b) (b := some { la with userSize := n }) (by rw [hl]; rfl)
  refine ⟨{ h with
    regions := h.regions.mono (fun ρ x hx => ?_) fun _ hx => hx
    larges := ⟨fun {x y} hx => ?_, ?_⟩ }, fun q k hb hne => ?_, .ofLarge hself rfl rfl,
    fun q k hb hne => ?_, rfl⟩
  · cases ρ with
    | large x' =>
      obtain ⟨y, hy, hin⟩ := hx
      by_cases hxb : x' = b
      · subst hxb
        cases hself.symm.trans hy
        exact ⟨la, hl, hin⟩
      · exact ⟨y, (hother hxb).mp hy, hin⟩
    | seg x' => exact hx
    | tld t => exact hx
    | boot => exact hx
  · by_cases hxb : x = b
    · subst hxb
      cases hself.symm.trans hx
      exact ⟨hok.base, hok.pos, hok.page, hok.size_page, hok.stop, hok.ptr_ge, hok.ptr_lt, hn,
        hok.al⟩
    · exact h.larges.each ((hother hxb).mp hx)
  · obtain ⟨l, hlist, hmem, hlen⟩ := h.larges.list
    refine ⟨l, ?_, fun x => ?_, hlen⟩
    · rw [hnext, hprev]
      exact hlist
    · rw [congrFun hsome x]
      exact hmem x
  · refine ⟨?_, fun _ _ _ => rfl⟩
    rcases hb.split with ⟨r, hp, rfl⟩ | ⟨x, y, hy, rfl, rfl⟩
    · exact .slab r hp
    · exact .ofLarge ((hother fun hxb => hne (by rw [hxb])).mpr hy) rfl rfl
  · rcases hb.split with ⟨r, hp, rfl⟩ | ⟨x, y, hy, rfl, rfl⟩
    · exact .slab r hp
    · exact .ofLarge ((hother fun hxb => hne (by rw [hxb])).mp hy) rfl rfl

theorem myRealloc_spec (h : Inv c s G) {t p old n : Nat} (hb : Blk s G p old) (hlow : Low G p)
    (hfit : LargeFits c n 16) (hn : 0 < n) :
    Ensures (· = .undefined) (myRealloc c s t p n) fun (q, s') =>
      ReallocPost c s G p old n q s' := by
  obtain ⟨-, hpos⟩ := h.blk_align hb
  have hrefl : ReallocPost c s G p old n 0 s :=
    ⟨.of_eq rfl rfl, fun _ => Quiet.refl h, fun he => by omega, fun hne => absurd rfl hne⟩
  unfold myRealloc
  rw [if_neg (Nat.ne_of_gt hpos), if_neg (Nat.ne_of_gt hn), h.not_bootstrap hb, if_neg (by simp)]
  rcases h.blk_cases hb with ⟨r, hp, hd, hinv, rfl⟩ | ⟨b, la, hl, hok, rfl, rfl⟩
  · rw [(h.ptrToPage_slab hp).2]
    by_cases hreg : segmentIsRegistered s.segmentRegistry r.seg = true
    · rw [if_pos hreg]
      simp only
      split
      next hin =>
        exact ⟨.of_eq rfl rfl, fun h0 => by omega,
          fun _ => ⟨_, hin.1, h, Keeps.refl, hb, fun _ _ hx _ => hx, rfl⟩, fun _ hne =>
            absurd rfl hne⟩
      next => exact reallocMove_spec h hb (h.not_lost hp hreg) hlow hfit hn
    · -- a slot in an unregistered segment looks like an unknown pointer
      rw [if_neg hreg]
      unfold reallocLarge
      rw [h.largeFind_slab hp]
      exact hrefl
  · rw [h.ptrToPage_large hl hok]
    simp only
    unfold reallocLarge
    rw [h.largeFind_eq (hok.region hl).1]
    refine ensures_bind (P := fun o => some b = o) rfl ?_
    rintro _ rfl
    simp only [hl]
    split
    next hin =>
      have hge := hok.ptr_ge
      have hlt := hok.ptr_lt
      rw [hok.base] at hin
      exact ⟨.of_eq rfl rfl, fun h0 => by omega,
        fun _ => ⟨n, Nat.le_refl n, h.resize hl (by omega)⟩,
        fun _ hne => absurd rfl hne⟩
    next => exact reallocMove_spec h hb (h.large_not_lost hl hok) hlow hfit hn

/-! ## `my_memalign` -/

/-- The size `my_memalign` asks the slab allocator for. -/
def memalignSize (alignment size : Nat) : Nat :=
  alignUp64 alignment (if size < alignment then alignment else size)

/-- A large aligned block of size zero has its pointer inside its mapping only if the
alignment is smaller than a page. -/
def PtrInside (c : Cfg) (alignment size : Nat) : Prop :=
  0 < size ∨ alignment ≤ pageSizeAlloc ∨ alignment < c.osPage

/-- The requests whose alignment `my_memalign` honours: the slots of the bin that
serves them are multiples of it, or a large mapping is asked for directly. -/
def AlignServed (alignment size : Nat) : Prop :=
  alignment ≤ minAlign ∨ mediumMax < size ∨ pageSizeAlloc < alignment ∨
    mediumMax < memalignSize alignment size ∨
    (SlabSized (memalignSize alignment size) ∧
      alignment ∣ slotSizeOf (sizeToBin sizeTables (memalignSize alignment size)))

/-- The result of `my_memalign`. -/
structure MemalignPost (c : Cfg) (s : State) (G : Ghost) (alignment size p : Nat) (s' : State) :
    Prop where
  segExt : SegExt s s'
  null : p = 0 → Quiet c s G s'
  got : p ≠ 0 → ∃ k G', size ≤ k ∧ Alloc c s G p k s' G' ∧
    (AlignServed alignment size → alignment ∣ p)

theorem LargePost.memalign {alignment size p : Nat} (h : LargePost c s G size alignment p s') :
    MemalignPost c s G alignment size p s' := by
  refine ⟨.of_eq h.frame.segs h.frame.registry, h.null, fun h0 => ?_⟩
  obtain ⟨b, ha, hal, -⟩ := h.got h0
  exact ⟨size, _, Nat.le_refl _, ha, fun _ => hal⟩

theorem memalignSize_bounds {k size : Nat} (hk : k ≤ 16) (hsize : size ≤ 131072) :
    size ≤ memalignSize (2 ^ k) size ∧ memalignSize (2 ^ k) size < 2 ^ 18 ∧
      0 < memalignSize (2 ^ k) size := by
  have hpow : 2 ^ k ≤ 2 ^ 16 := Nat.pow_le_pow_right (by decide) hk
  have hpos := Nat.two_pow_pos k
  unfold memalignSize
  have hm : size ≤ (if size < 2 ^ k then 2 ^ k else size) ∧
      2 ^ k ≤ (if size < 2 ^ k then 2 ^ k else size) ∧
      (if size < 2 ^ k then 2 ^ k else size) ≤ 131072 := by
    split <;> omega
  generalize (if size < 2 ^ k then 2 ^ k else size) = m at hm ⊢
  rw [alignUp64_eq (by omega) (by omega)]
  have h₁ := le_alignUp hpos m
  have h₂ := alignUp_lt hpos m
  omega

theorem memalignSize_zero {k : Nat} (hk : k ≤ 16) : memalignSize (2 ^ k) 0 = 2 ^ k := by
  have hpow : 2 ^ k ≤ 2 ^ 16 := Nat.pow_le_pow_right (by decide) hk
  unfold memalignSize
  rw [if_pos (Nat.two_pow_pos k), alignUp64_eq (by omega) (by omega),
    alignUp_of_dvd (Nat.two_pow_pos k) (Nat.dvd_refl _)]

/-- Up to `MIN_ALIGN` the alignment makes no difference to the header space. -/
theorem LargeFits.sixteen {k size : Nat} (h : LargeFits c size (2 ^ k)) (hk : 2 ^ k ≤ minAlign) :
    LargeFits c size 16 := by
  have hraise : raisedAlign (2 ^ k) = raisedAlign 16 := by
    show raisedAlign (2 ^ k) = 16
    rcases Nat.lt_or_eq_of_le hk with hlt | heq
    · exact if_pos hlt
    · rw [heq]
      rfl
  unfold LargeFits at h ⊢
  rwa [hraise] at h

/-- A multiple of the slot size from the start of a page. -/
theorem Inv.dvd_slot (h : Inv c s G) {k p : Nat} {r : PageRef} (hp : p ∈ G.busy r) (hk : k ≤ 16)
    (hdvd : 2 ^ k ∣ (s.pages r).slotSize) : 2 ^ k ∣ p := by
  obtain ⟨-, hinv⟩ := h.busy_active hp
  obtain ⟨i, -, rfl⟩ := hinv.busy_slot hp
  refine Nat.dvd_add ?_ (Nat.dvd_mul_left_of_dvd hdvd i)
  exact Nat.dvd_trans (Nat.pow_dvd_pow 2 hk) hinv.geom.start_al

/-- A request that goes to `large_alloc_aligned` has room in its mapping. -/
theorem PtrInside.hasRoom {k size : Nat} (h : PtrInside c (2 ^ k) size)
    (hlarge : 0 < size ∨ pageSizeAlloc < 2 ^ k) : HasRoom c size (2 ^ k) := by
  rcases h with h | h | h
  · exact Or.inl h
  · exact Or.inl (hlarge.resolve_right (Nat.not_lt.mpr h))
  · rcases hlarge with hs | hlarge
    · exact Or.inl hs
    · right
      have hP := c.osPage_pos
      have h64 : 65536 < 2 ^ k := hlarge
      have hraise : raisedAlign (2 ^ k) = 2 ^ k := if_neg (by simp only [minAlign]; omega)
      have hhs : alignUp (raisedAlign (2 ^ k)) 48 = 2 ^ k := by
        rw [hraise]
        have h₁ := alignUp_le (Nat.two_pow_pos k) (show 48 ≤ 2 ^ k by omega) (Nat.dvd_refl _)
        have h₂ := dvd_alignUp (2 ^ k) 48
        have h₃ := Nat.le_of_dvd (alignUp_pos (Nat.two_pow_pos k) (by decide)) h₂
        omega
      rw [hhs]
      have h₂ := dvd_alignUp c.osPage (2 ^ k)
      have h₃ := Nat.le_of_dvd (alignUp_pos hP (Nat.two_pow_pos k)) h₂
      omega

theorem exists_two_pow {a : Nat} (h : ¬ (a = 0 ∨ a &&& (a - 1) ≠ 0)) : ∃ k, a = 2 ^ k := by
  rw [not_or, not_not] at h
  exact (Nat.and_sub_one_eq_zero_iff_isPowerOfTwo h.1).mp h.2

theorem myMemalign_spec (h : Inv c s G) {t alignment size : Nat} (ha : alignment < 2 ^ 64)
    (hfit : ∀ k, alignment = 2 ^ k → LargeFits c size alignment)
    (hin : PtrInside c alignment size) :
    Ensures (Wrapped s) (myMemalign c s t alignment size) fun (p, s') =>
      MemalignPost c s G alignment size p s' := by
  unfold myMemalign
  split
  next =>
    exact ⟨.of_eq rfl rfl, fun _ => Quiet.refl h, fun h0 => absurd rfl h0⟩
  next hpow =>
  obtain ⟨k, rfl⟩ := exists_two_pow hpow
  have hfit := hfit k rfl
  have hk : k ≤ 63 := by
    have := (Nat.pow_lt_pow_iff_right (by decide)).mp ha
    omega
  have hlarge : 0 < size ∨ pageSizeAlloc < 2 ^ k →
      Ensures (Wrapped s) (largeAllocAligned c s size (2 ^ k)) fun (p, s') =>
        MemalignPost c s G (2 ^ k) size p s' := by
    intro hl
    obtain ⟨p, s', he, -⟩ := largeAllocAligned_returns s hk hfit
    rw [he]
    exact (largeAllocAligned_spec h hk hfit (hin.hasRoom hl) he).memalign
  split
  next hmin =>
    -- up to `MIN_ALIGN` every block is aligned
    have hle : 2 ^ k ≤ 16 := hmin
    refine ensures_mono (myMalloc_spec h (hfit.sixteen hmin)) ?_
    rintro ⟨p, s'⟩ hp
    refine ⟨hp.segExt, hp.null, fun h0 => ?_⟩
    obtain ⟨j, G', hj, halloc, -⟩ := hp.got h0
    refine ⟨j, G', Nat.le_trans (le_atLeastOne size) hj, halloc, fun _ => ?_⟩
    have h16 := (halloc.inv.blk_align halloc.new).1
    have hk4 : k ≤ 4 := (Nat.pow_le_pow_iff_right (by decide)).mp (show 2 ^ k ≤ 2 ^ 4 from hle)
    exact Nat.dvd_trans (Nat.pow_dvd_pow (n := 4) 2 hk4) h16
  next =>
  split
  next hbig =>
    refine hlarge (hbig.imp_left fun hb => ?_)
    simp only [mediumMax] at hb
    omega
  next hsmall =>
  rw [not_or] at hsmall
  have hsz : size ≤ 131072 := Nat.not_lt.mp hsmall.1
  have hk16 : k ≤ 16 :=
    (Nat.pow_le_pow_iff_right (by decide)).mp (show 2 ^ k ≤ 2 ^ 16 from Nat.not_lt.mp hsmall.2)
  obtain ⟨hle, -, hpos⟩ := memalignSize_bounds hk16 hsz
  simp only [show alignUp64 (2 ^ k) (if size < 2 ^ k then 2 ^ k else size) =
    memalignSize (2 ^ k) size from rfl]
  split
  next hbig =>
    refine hlarge (Or.inl ?_)
    by_contra h0
    obtain rfl : size = 0 := by omega
    have hpow16 : 2 ^ k ≤ 2 ^ 16 := Nat.pow_le_pow_right (by decide) hk16
    rw [memalignSize_zero hk16] at hbig
    simp only [mediumMax] at hbig
    omega
  next hmed =>
    have hfit' : LargeFits c (memalignSize (2 ^ k) size) 16 := largeFits_small (Nat.not_lt.mp hmed)
    refine ensures_mono (slabAlloc_spec h hfit') ?_
    rintro ⟨p, s'⟩ hp
    rw [atLeastOne_of_pos hpos] at hp
    refine ⟨hp.segExt, hp.null, fun h0 => ?_⟩
    obtain ⟨j, G', hj, halloc, -, hslab⟩ := hp.got h0
    refine ⟨j, G', by omega, halloc, fun hserved => ?_⟩
    obtain ⟨hsl, hdvd⟩ : SlabSized (memalignSize (2 ^ k) size) ∧
        2 ^ k ∣ slotSizeOf (sizeToBin sizeTables (memalignSize (2 ^ k) size)) := by
      rcases hserved with hc | hc | hc | hc | hc
      · contradiction
      · exact absurd hc hsmall.1
      · exact absurd hc hsmall.2
      · exact absurd hc hmed
      · exact hc
    obtain ⟨rfl, r, hr⟩ := hslab hsl
    refine halloc.inv.dvd_slot hr hk16 ?_
    rw [← halloc.inv.blk_size_eq halloc.new (.slab r hr)]
    exact hdvd

end CustomMalloc

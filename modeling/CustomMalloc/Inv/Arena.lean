import CustomMalloc.Inv.Thread
import CustomMalloc.Inv.Grow

/-!
# The slow path: `arena_alloc`

The first loop looks for an unowned page of the bin with bump space; failing
that, a page is set up, in one of the arena's segments or in a new one. Both
loops walk lists whose lengths the counters bound, so both stop
(`Inv.bin_length_le`, `Inv.segLists`). Either way one page ends up with one more
busy slot, and that page is unowned (`Bumped`).
-/

namespace CustomMalloc

open Lib.Words Lib.Bytes Lib.Chain Lib.Intervals Lib.Regions Lib.Post

variable {c : Cfg} {s s' : State} {G G' : Ghost}

/-- `b` became a segment: it is registered if there is room, and it lies outside
the large mappings. -/
structure NewSeg (s : State) (b : Nat) (s' : State) : Prop where
  ne : b ≠ 0
  none : s.segs b = none
  dom : ∀ x, (s'.segs x).isSome ↔ x = b ∨ (s.segs x).isSome
  registry : s'.segmentRegistry = segmentRegister s.segmentRegistry b
  apart : ∀ {l la y}, s.larges l = some la → l ≤ y → y < l + la.size → b ≤ y → ¬ y < b + 4194304

/-- The registry and the set of segments after at most one segment was created. -/
def SegExt (s s' : State) : Prop :=
  ((∀ b, (s'.segs b).isSome = (s.segs b).isSome) ∧ s'.segmentRegistry = s.segmentRegistry) ∨
  ∃ b, NewSeg s b s'

theorem SegExt.of_eq (hs : s'.segs = s.segs) (hr : s'.segmentRegistry = s.segmentRegistry) :
    SegExt s s' := Or.inl ⟨fun b => by rw [hs], hr⟩

/-- Steps that leave segments, registry and large mappings alone, before. -/
theorem SegExt.after {s₁ s₂ s₃ : State} (h : SegExt s₂ s₃) (hs : s₂.segs = s₁.segs)
    (hr : s₂.segmentRegistry = s₁.segmentRegistry) (hl : s₂.larges = s₁.larges) :
    SegExt s₁ s₃ := by
  rcases h with ⟨h₁, h₂⟩ | ⟨b, h⟩
  · exact Or.inl ⟨hs ▸ h₁, hr ▸ h₂⟩
  · exact Or.inr ⟨b, h.ne, hs ▸ h.none, hs ▸ h.dom, hr ▸ h.registry,
      fun {l la y} hla => h.apart (by rw [hl]; exact hla)⟩

/-- And after. -/
theorem SegExt.before {s₁ s₂ s₃ : State} (h : SegExt s₁ s₂) (hs : s₃.segs = s₂.segs)
    (hr : s₃.segmentRegistry = s₂.segmentRegistry) : SegExt s₁ s₃ := by
  rcases h with ⟨h₁, h₂⟩ | ⟨b, h⟩
  · exact Or.inl ⟨hs ▸ h₁, hr.trans h₂⟩
  · exact Or.inr ⟨b, h.ne, h.none, hs ▸ h.dom, hr.trans h.registry, h.apart⟩

/-! ## The walks stop -/

/-- The pages of a bin are disjoint, so the first loop ends within `walkBound`. -/
theorem Inv.bin_length_le (h : Inv c s G) {a b : Nat} {l : List PageRef} (hnd : l.Nodup)
    (hmem : ∀ r ∈ l, InBin s.segs s.pages a b r) : l.length ≤ walkBound := by
  have hcard := @card_mul_le_of_disjoint PageRef PageRef.start (fun _ => 65536) 65536 (by decide)
    l.length l (2 ^ 64) rfl hnd
    (fun r hr => by
      obtain ⟨hd, hact, -⟩ := hmem r hr
      exact ⟨Nat.le_refl _, (h.active hd hact).1.geom.start_lt⟩)
    (fun r hr r' hr' hne => by
      have hd := (hmem r hr).1
      have hd' := (hmem r' hr').1
      by_contra hc
      rcases Nat.lt_or_ge r.start r'.start with hlt | hge
      · exact hne (h.page_unique (y := r'.start) hd hd' (by omega) (by omega) (by omega) (by omega))
      · exact hne (h.page_unique (y := r.start) hd hd' (by omega) (by omega) (by omega) (by omega)))
  unfold walkBound
  omega

/-- Likewise the segments of an arena. -/
theorem Inv.seg_length_le (h : Inv c s G) {l : List Nat} (hnd : l.Nodup)
    (hl : ∀ b ∈ l, (s.segs b).isSome) : l.length ≤ walkBound := by
  have hcard := @card_mul_le_of_disjoint Nat (fun b => b) (fun _ => 4194304) 4194304 (by decide)
    l.length l (2 ^ 64) rfl hnd
    (fun b hb => by
      obtain ⟨g, hg⟩ := Option.isSome_iff_exists.mp (hl b hb)
      exact ⟨Nat.le_refl _, (h.segOk hg).lt⟩)
    (fun b hb b' hb' hne => by
      have hin : ∀ x, b ≤ x → x < b + 4194304 → b' ≤ x → x < b' + 4194304 → False :=
        fun x h₁ h₂ h₃ h₄ => hne (Region.seg.inj
          (h.regions.apart (i := .seg b) (j := .seg b') ⟨hl b hb, h₁, h₂⟩ ⟨hl b' hb', h₃, h₄⟩))
      by_contra hc
      rcases Nat.lt_or_ge b b' with hlt | hge
      · exact hin b' (by omega) (by omega) (by omega) (by omega)
      · exact hin b (by omega) (by omega) (by omega) (by omega))
  unfold walkBound
  omega

/-! ## A new page -/

/-- Both free lists are empty. -/
def NoFrees (p : PageMeta) : Prop := p.localFree = 0 ∧ taggedPtr p.remoteFree = 0

/-- Every active page but `r` was active before and changed only in its links. -/
def OtherPages (s : State) (r : PageRef) (s' : State) : Prop :=
  ∀ q, q ≠ r → IsData s'.segs q → (s'.pages q).state = .active →
    IsData s.segs q ∧ ∃ nx pr, s'.pages q = { s.pages q with next := nx, prev := pr }

theorem OtherPages.trans {s₁ s₂ s₃ : State} {r : PageRef} (h : OtherPages s₁ r s₂)
    (h' : OtherPages s₂ r s₃) : OtherPages s₁ r s₃ := by
  intro q hq hd hact
  obtain ⟨hd₂, nx, pr, he⟩ := h' q hq hd hact
  rw [he] at hact
  obtain ⟨hd₁, nx', pr', he'⟩ := h q hq hd₂ hact
  exact ⟨hd₁, nx, pr, by rw [he, he']⟩

/-- Every data page but `r` is still there and changed only in its links. -/
def KeptPages (s : State) (r : PageRef) (s' : State) : Prop :=
  ∀ q, q ≠ r → IsData s.segs q →
    IsData s'.segs q ∧ ∃ nx pr, s'.pages q = { s.pages q with next := nx, prev := pr }

/-- The active pages are still there, in their arena and bin. -/
def ActiveKept (s s' : State) : Prop :=
  ∀ q, IsData s.segs q → (s.pages q).state = .active →
    IsData s'.segs q ∧ (s'.pages q).state = .active ∧ (s'.pages q).arena = (s.pages q).arena ∧
      (s'.pages q).binIdx = (s.pages q).binIdx

theorem ActiveKept.trans {s₁ s₂ s₃ : State} (h : ActiveKept s₁ s₂) (h' : ActiveKept s₂ s₃) :
    ActiveKept s₁ s₃ := by
  intro q hd hact
  obtain ⟨hd₂, hact₂, ha₂, hb₂⟩ := h q hd hact
  obtain ⟨hd₃, hact₃, ha₃, hb₃⟩ := h' q hd₂ hact₂
  exact ⟨hd₃, hact₃, ha₃.trans ha₂, hb₃.trans hb₂⟩

theorem SameMeta.activeKept (h : SameMeta s s') : ActiveKept s s' := by
  intro q hd hact
  rw [h.segs, h.pages]
  exact ⟨hd, hact, rfl, rfl⟩

/-- After a page was set up: `r` is a fresh, unowned page of the arena and bin, and no
other page changed but in its links. -/
structure NewPage (c : Cfg) (s : State) (G : Ghost) (a bin : Nat) (r : PageRef) (s' : State) :
    Prop where
  quiet : Quiet c s G s'
  threads : SameThreads s s'
  data : IsData s'.segs r
  active : (s'.pages r).state = .active
  arena : (s'.pages r).arena = a
  binIdx : (s'.pages r).binIdx = bin
  owner : (s'.pages r).ownerTid = noOwner
  virgin : (s'.pages r).bumpOffset = 0
  bump : (s'.pages r).bumpOffset < (s'.pages r).bumpEnd
  noFrees : NoFrees (s'.pages r)
  fresh : ¬ (IsData s.segs r ∧ (s.pages r).state = .active)
  others : OtherPages s r s'
  kept : KeptPages s r s'

theorem NewPage.activeKept {a bin : Nat} {r : PageRef} (h : NewPage c s G a bin r s') :
    ActiveKept s s' := by
  intro q hd hact
  have hqr : q ≠ r := by
    rintro rfl
    exact h.fresh ⟨hd, hact⟩
  obtain ⟨hd', nx, pr, he⟩ := h.kept q hqr hd
  rw [he]
  exact ⟨hd', hact, rfl, rfl⟩

theorem unusedPage_some {seg i : Nat} (h : unusedPage s seg = some i) :
    1 ≤ i ∧ i < 64 ∧ (s.pages ⟨seg, i⟩).state = .unused := by
  unfold unusedPage at h
  have hm := List.mem_of_find?_eq_some h
  have hp := List.find?_some h
  simp only [List.mem_range'_1, pagesDataStart, pagesPerSegment] at hm
  exact ⟨by omega, by omega, by simpa using hp⟩

theorem sameSegs_setUsed {segs : Nat → Option Segment} {seg n : Nat} {g : Segment}
    (hg : segs seg = some g) : SameSegs segs (upd segs seg (some { g with pagesUsed := n })) := by
  constructor
  · intro b
    by_cases hb : b = seg
    · rw [hb, upd_same, hg]
      rfl
    · rw [upd_ne hb]
  · intro b g' hg'
    by_cases hb : b = seg
    · subst hb
      rw [upd_same] at hg'
      cases hg'
      exact ⟨g, hg, rfl⟩
    · rw [upd_ne hb] at hg'
      exact ⟨g', hg', rfl⟩
  · intro b
    by_cases hb : b = seg
    · rw [hb, upd_same, hg]
      rfl
    · rw [upd_ne hb]
  · intro b
    by_cases hb : b = seg
    · rw [hb, upd_same, hg]
      rfl
    · rw [upd_ne hb]

theorem Quiet.sameSegs (h : Inv c s G) {segs' : Nat → Option Segment}
    (hs : SameSegs s.segs segs') : Quiet c s G { s with segs := segs' } := by
  refine ⟨h.sameSegs hs, fun y n hb _ => ⟨?_, fun _ _ _ => rfl⟩, fun y n hb => ?_⟩
  · cases hb with
    | slab r hy => exact .slab r hy
    | large hl => exact .large hl
  · cases hb with
    | slab r hy => exact .slab r hy
    | large hl => exact .large hl

/-- `segment_alloc_page` on a segment with an unused page, then `bin_insert_page`. -/
theorem segmentAllocPage_spec (h : Inv c s G) {seg i bin : Nat} {g : Segment}
    (hg : s.segs seg = some g) (hun : unusedPage s seg = some i) (hbin : bin < binCount)
    (hsize : binToSize sizeTables bin ≤ 32768) :
    ∃ s₁, segmentAllocPage s seg bin = (some ⟨seg, i⟩, s₁) ∧ SameSegs s.segs s₁.segs ∧
      s₁.segmentRegistry = s.segmentRegistry ∧
      NewPage c s G g.arena bin ⟨seg, i⟩ (binInsertPage s₁ g.arena ⟨seg, i⟩) := by
  obtain ⟨h₁, h₂, hstate⟩ := unusedPage_some hun
  have hseg := h.segOk hg
  have hpos := hseg.pos
  have hlt := hseg.lt
  have hal : 65536 ∣ seg := Nat.dvd_trans (by decide) hseg.al
  have hz : ∀ y, PageRef.start ⟨seg, i⟩ ≤ y → y < PageRef.start ⟨seg, i⟩ + 65536 → s.mem y = 0 := by
    cases h.pages.data (r := ⟨seg, i⟩) hg h₁ h₂ with
    | unused hs h0 hb hz => exact hz
    | active inv ha => cases hstate.symm.trans inv.geom.active
  have hpage : PageInv c.debug s.mem ⟨seg, i⟩
      (pageInit (s.pages ⟨seg, i⟩) seg g.arena i bin (binToSize sizeTables bin)) [] :=
    .init hbin hsize (show 0 < seg + i * 65536 by omega)
      (show seg + i * 65536 + 65536 ≤ 2 ^ 64 by omega)
      (Nat.dvd_add hal (Nat.dvd_mul_left _ _)) hz
  unfold segmentAllocPage
  simp only [hg, hun]
  refine ⟨_, rfl, sameSegs_setUsed hg, rfl, ?_⟩
  generalize hp : pageInit (s.pages ⟨seg, i⟩) seg g.arena i bin
    (binToSize sizeTables bin) = p at hpage
  have hpa : p.arena = g.arena := by rw [← hp]; rfl
  have hpb : p.binIdx = bin := by rw [← hp]; rfl
  have hpo : p.ownerTid = noOwner := by rw [← hp]; rfl
  have hpf : NoFrees p := by rw [← hp]; exact ⟨rfl, rfl⟩
  have h0 : p.bumpOffset = 0 := by rw [← hp]; rfl
  have hbump : p.bumpOffset < p.bumpEnd := by
    rw [h0, hpage.geom.end_eq]
    exact Nat.mul_pos (by have := hpage.geom.cap_pos; omega) (by have := hpage.geom.slot_ge; omega)
  -- the segment's page count first, then the page itself
  have hsame := sameSegs_setUsed (n := (g.pagesUsed + 1) % 2 ^ 16) hg
  have hq := Quiet.sameSegs h hsame
  have hact := hq.inv.activate (r := ⟨seg, i⟩) (p := p) (upd_same ..) h₁ h₂ hstate hpage hpa
  rw [hpa] at hact
  have hne : (s.arenas g.arena).bins p.binIdx ≠ some ⟨seg, i⟩ := by
    intro he
    obtain ⟨l, hl, hmem⟩ := h.bins g.arena p.binIdx
    cases hstate.symm.trans ((hmem _).mp (hl.head_mem he)).2.1
  have heq := binInsertPage_eq (s := { s with
    segs := upd s.segs seg (some { g with pagesUsed := (g.pagesUsed + 1) % 2 ^ 16 }) }) hne
  show NewPage c s G g.arena bin ⟨seg, i⟩ (binInsertPage (State.setPage { s with
    segs := upd s.segs seg (some { g with pagesUsed := (g.pagesUsed + 1) % 2 ^ 16 }) } _ p)
    g.arena _)
  rw [heq]
  have hself := insertedPages_self (r := ⟨seg, i⟩) s.pages p ((s.arenas g.arena).bins p.binIdx)
  refine ⟨hq.trans hact, ⟨rfl, rfl⟩, (hsame.isData _).mpr (isData_of hg h₁ h₂),
    ?_, ?_, ?_, ?_, ?_, ?_, ?_, fun hc => absurd (hstate.symm.trans hc.2) (by simp),
    fun q hqr hd _ => ?_, fun q hqr hd => ?_⟩
  · simp only [hself]
    exact hpage.geom.active
  · simp only [hself]
    exact hpa
  · simp only [hself]
    exact hpb
  · simp only [hself]
    exact hpo
  · simp only [hself]
    exact h0
  · simp only [hself]
    exact hbump
  · simp only [hself]
    exact hpf
  · obtain ⟨pr, he, -⟩ := insertedPages_ne s.pages p ((s.arenas g.arena).bins p.binIdx) hqr
    exact ⟨(hsame.isData q).mp hd, (s.pages q).next, pr, he⟩
  · obtain ⟨pr, he, -⟩ := insertedPages_ne s.pages p ((s.arenas g.arena).bins p.binIdx) hqr
    exact ⟨(hsame.isData q).mpr hd, (s.pages q).next, pr, he⟩

theorem binInsertPage_segs (s : State) (a : Nat) (r : PageRef) :
    (binInsertPage s a r).segs = s.segs ∧
      (binInsertPage s a r).segmentRegistry = s.segmentRegistry := by
  unfold binInsertPage
  simp only
  split <;> exact ⟨rfl, rfl⟩

/-- The kernel refuses the mapping of a segment. -/
def SegmentRefused (c : Cfg) (s : State) : Prop :=
  (osMmapAligned c s segmentSize segmentSize).1 = 0

theorem segmentCreate_os (c : Cfg) (s : State) (a : Nat) :
    (segmentCreate c s a).1 = (osMmapAligned c s segmentSize segmentSize).1 ∧
      (segmentCreate c s a).2.mapped = (osMmapAligned c s segmentSize segmentSize).2.mapped := by
  unfold segmentCreate
  rcases osMmapAligned c s segmentSize segmentSize with ⟨mem, s₁⟩
  simp only
  split
  next h0 => exact ⟨h0.symm, rfl⟩
  next => exact ⟨rfl, rfl⟩

/-- `segment_create`: the kernel refuses; it maps at address 0, which counts as a refusal; or
there is a fresh segment. -/
theorem segmentCreate_any {a seg : Nat} (he : segmentCreate c s a = (seg, s')) :
    (seg = 0 ∧ ((∃ rest, s' = { s with answers := rest }) ∨ some 0 ∈ s.answers ∧ OsExt s s')) ∨
    (seg ≠ 0 ∧ ∃ s₁, Granted c s 4194304 (2 ^ 22) seg s₁ ∧ s' = { s₁ with
      segs := upd s₁.segs seg (some { pagesUsed := 0, arena := a, next := none, prev := none })
      pages := fun r => if r.seg = seg then freshPage seg a r.idx else s₁.pages r
      segmentRegistry := segmentRegister s₁.segmentRegistry seg }) := by
  unfold segmentCreate at he
  split at he
  next addr s₁ hm =>
  have hfit : AlignedFits c 4194304 (2 ^ 22) := fun hlt => ⟨osPage_dvd hlt, by decide⟩
  have hm : osMmapAligned c s 4194304 (2 ^ 22) = (addr, s₁) := hm
  split at he
  next h0 =>
    cases he
    rcases osMmapAligned_any hfit hm with ⟨-, hrest⟩ | hg
    · exact Or.inl ⟨rfl, Or.inl hrest⟩
    · exact Or.inl ⟨rfl, Or.inr ⟨hg.null h0, hg.ext⟩⟩
  next h0 =>
    cases he
    rcases osMmapAligned_any hfit hm with ⟨h0', -⟩ | hg
    · exact absurd h0' h0
    · exact Or.inr ⟨h0, s₁, hg, rfl⟩

theorem segmentCreate_spec {a seg : Nat} (he : segmentCreate c s a = (seg, s')) :
    (seg = 0 ∧ OsExt s s') ∨
    (seg ≠ 0 ∧ ∃ s₁, OsExt s s₁ ∧ FreshRegion s s₁ seg 4194304 ∧ 4194304 ∣ seg ∧ s' = { s₁ with
      segs := upd s₁.segs seg (some { pagesUsed := 0, arena := a, next := none, prev := none })
      pages := fun r => if r.seg = seg then freshPage seg a r.idx else s₁.pages r
      segmentRegistry := segmentRegister s₁.segmentRegistry seg }) := by
  rcases segmentCreate_any he with ⟨h0, ⟨rest, rfl⟩ | ⟨-, hos⟩⟩ | ⟨h0, s₁, hg, rfl⟩
  · exact Or.inl ⟨h0, rest, s.mapped, s.mem, s.mmapBytes, rfl, fun x hx => ⟨hx, rfl⟩⟩
  · exact Or.inl ⟨h0, hos⟩
  · exact Or.inr ⟨h0, s₁, hg.ext, hg.fresh, hg.aligned 22 (by decide) rfl, rfl⟩

/-- Creating a segment and linking it is `newSegment`. -/
theorem linkSegment_created {a seg : Nat} (hhead : (s.arenas a).segments ≠ some seg) :
    linkSegment { s with
      segs := upd s.segs seg (some { pagesUsed := 0, arena := a, next := none, prev := none })
      pages := fun r => if r.seg = seg then freshPage seg a r.idx else s.pages r
      segmentRegistry := segmentRegister s.segmentRegistry seg } a seg = newSegment s a seg :=
  linkSegment_eq (s := { s with
    pages := fun r => if r.seg = seg then freshPage seg a r.idx else s.pages r
    segmentRegistry := segmentRegister s.segmentRegistry seg }) hhead

theorem unusedPage_newSegment (s : State) (a b : Nat) :
    unusedPage (newSegment s a b) b = some 1 := by
  unfold unusedPage
  rw [show List.range' pagesDataStart (pagesPerSegment - pagesDataStart) = 1 :: List.range' 2 62
    from rfl]
  refine List.find?_cons_of_pos ?_
  simp [newSegment, freshPage]

/-- A new page in a new segment. -/
theorem NewPage.ofSegment {s₁ s₂ s₃ : State} {a bin seg i : Nat} (h : Inv c s G)
    (hos : OsExt s s₁) (hf : FreshRegion s s₁ seg 4194304) (h0 : seg ≠ 0)
    (hnone : s.segs seg = none)
    (hsame : SameSegs (newSegment s₁ a seg).segs s₂.segs)
    (hreg : s₂.segmentRegistry = (newSegment s₁ a seg).segmentRegistry)
    (hq : Quiet c s₁ G (newSegment s₁ a seg))
    (hnew : NewPage c (newSegment s₁ a seg) G a bin ⟨seg, i⟩ s₃) :
    SegExt s s₂ ∧ NewPage c s G a bin ⟨seg, i⟩ s₃ := by
  have hos' : Quiet c s G s₁ :=
    .of_same (h.osExt hos) (h.osExt_keeps hos _) hos.same
  obtain ⟨ans, mp, m, mb, rfl, hk⟩ := hos
  refine ⟨Or.inr ⟨seg, h0, hnone, fun x => ?_, hreg, fun {l la y} hla h₁ h₂ h₃ h₄ => ?_⟩,
    (hos'.trans hq).trans hnew.quiet, ⟨hnew.threads.tls, hnew.threads.counter⟩, hnew.data,
    hnew.active, hnew.arena, hnew.binIdx, hnew.owner, hnew.virgin, hnew.bump, hnew.noFrees,
    fun hc => ?_, fun q hqr hd hact => ?_, fun q hqr hd => ?_⟩
  · rw [hsame.dom x]
    exact insertedSegs_isSome _ _ _ _
  · exact hf.fresh y h₃ h₄ (h.regions.backed (i := .large l) ⟨la, hla, h₁, h₂⟩)
  · have := hc.1.1
    rw [hnone] at this
    cases this
  · obtain ⟨hd', nx, pr, he⟩ := hnew.others q hqr hd hact
    -- the other pages of the new segment are not in use
    have hseg : q.seg ≠ seg := by
      intro hseg
      rw [he] at hact
      simp only [newSegment, if_pos hseg, freshPage] at hact
      split at hact <;> cases hact
    refine ⟨⟨((insertedSegs_isSome _ _ _ _).mp hd'.1).resolve_left hseg, hd'.2⟩, nx, pr, ?_⟩
    rw [he]
    simp only [newSegment, if_neg hseg]
  · have hseg : q.seg ≠ seg := by
      intro hseg
      have := hd.1
      rw [hseg, hnone] at this
      cases this
    obtain ⟨hd', nx, pr, he⟩ :=
      hnew.kept q hqr ⟨(insertedSegs_isSome _ _ _ _).mpr (Or.inr hd.1), hd.2⟩
    refine ⟨hd', nx, pr, ?_⟩
    rw [he]
    simp only [newSegment, if_neg hseg]

/-- The page that `arena_alloc` would set up next for arena `a`, if its segments have one left. -/
def nextPage (s : State) (a : Nat) : Option PageRef :=
  match findFrom (fun b => (s.segs b).bind Segment.next) (fun b => (unusedPage s b).isSome)
      walkBound (s.arenas a).segments with
  | some (some seg) => (unusedPage s seg).map (PageRef.mk seg)
  | _ => none

/-- What `arena_alloc` needs of a new page, created or found. -/
theorem arenaNewPage_spec (h : Inv c s G) {a bin : Nat} (hbin : bin < binCount)
    (hsize : binToSize sizeTables bin ≤ 32768) :
    Ensures (fun _ => False) (arenaNewPage c s a bin) fun (page, s₁) =>
      match page with
      | none => OsExt s s₁ ∧ SegmentRefused c s
      | some r => SegExt s s₁ ∧ NewPage c s G a bin r (binInsertPage s₁ a r) ∧
        (IsData s.segs r → nextPage s a = some r) := by
  obtain ⟨l, hl, hmem, hlen⟩ := h.segLists a
  unfold arenaNewPage nextPage
  rw [findFrom_linked hl.1 (h.seg_length_le hl.1.nodup fun b hb => by
    obtain ⟨g, hg, -⟩ := (hmem b).mp hb
    rw [hg]
    rfl)]
  cases hfind : l.find? fun b => (unusedPage s b).isSome with
  | some seg =>
    obtain ⟨g, hg, rfl⟩ := (hmem seg).mp (List.mem_of_find?_eq_some hfind)
    have hsome : (unusedPage s seg).isSome :=
      List.find?_some (p := fun b => (unusedPage s b).isSome) hfind
    obtain ⟨i, hi⟩ := Option.isSome_iff_exists.mp hsome
    obtain ⟨s₁, he, hsame, hreg, hnew⟩ := segmentAllocPage_spec h hg hi hbin hsize
    simp only [he]
    exact ⟨Or.inl ⟨hsame.dom, hreg⟩, hnew, fun _ => by rw [hi]; rfl⟩
  | none =>
    rcases hcreate : segmentCreate c s a with ⟨seg, s₂⟩
    simp only
    rcases segmentCreate_spec hcreate with ⟨rfl, hos⟩ | ⟨h0, s₁, hos, hf, hal, rfl⟩
    · rw [if_pos rfl]
      exact ⟨hos, by rw [SegmentRefused, ← (segmentCreate_os c s a).1, hcreate]⟩
    · rw [if_neg h0]
      have hnone := hf.seg_none h
      have hhead : (s₁.arenas a).segments ≠ some seg := by
        intro he
        have hsegs : s₁.arenas = s.arenas := by
          obtain ⟨_, _, _, _, rfl, -⟩ := hos
          rfl
        rw [hsegs] at he
        obtain ⟨g, hg, -⟩ := (hmem seg).mp (hl.head_mem he)
        cases hnone.symm.trans hg
      rw [linkSegment_created hhead]
      have hg := insertedSegs_self s₁.segs seg a (s₁.arenas a).segments
      have hun := unusedPage_newSegment s₁ a seg
      have hfits := hf.fits
      have hq := h.newSegment (a := a) hos hf ⟨by omega, hal, by omega⟩
      obtain ⟨s₃, he, hsame, hreg, hnew⟩ := segmentAllocPage_spec hq.inv hg hun hbin hsize
      simp only [he]
      obtain ⟨hext, hnew⟩ := hnew.ofSegment h hos hf h0 hnone hsame hreg hq
      exact ⟨hext, hnew, fun hd => absurd hd.1 (by rw [hnone]; simp)⟩

/-! ## The slot -/

/-- One slot of the unowned page `r` was bumped; its free lists did not change. -/
structure Bumped (c : Cfg) (s : State) (G : Ghost) (a bin : Nat) (r : PageRef) (slot : Nat)
    (s' : State) : Prop where
  alloc : Alloc c s G slot (slotSizeOf bin) s' (G.take r slot)
  threads : SameThreads s s'
  arena : (s'.pages r).arena = a
  binIdx : (s'.pages r).binIdx = bin
  owner : (s'.pages r).ownerTid = noOwner
  noFrees : (IsData s.segs r → (s.pages r).state = .active → NoFrees (s.pages r)) →
    NoFrees (s'.pages r)
  zero : ∀ y, slot ≤ y → y < slot + slotSizeOf bin → s'.mem y = 0
  others : OtherPages s r s'
  kept : ActiveKept s s'

theorem Bumped.in_page {a bin slot : Nat} {r : PageRef} (h : Bumped c s G a bin r slot s') :
    IsData s'.segs r ∧ r.start ≤ slot ∧ slot + slotSizeOf bin ≤ r.start + 65536 := by
  obtain ⟨hd, hinv⟩ := h.alloc.inv.busy_active (r := r) (p := slot) (by simp [Ghost.take])
  obtain ⟨h₁, h₂, -⟩ := hinv.busy_in (x := slot) (by simp [Ghost.take])
  rw [hinv.geom.slot_eq, h.binIdx] at h₂
  exact ⟨hd, h₁, h₂⟩

/-- Setting the page up first makes no difference to the rest of the heap. -/
theorem Bumped.ofNew {s₁ : State} {a bin slot : Nat} {r : PageRef}
    (h : Bumped c s₁ G a bin r slot s') (hnew : NewPage c s G a bin r s₁) :
    Bumped c s G a bin r slot s' :=
  ⟨.after hnew.quiet h.alloc, hnew.threads.trans h.threads, h.arena, h.binIdx, h.owner,
    fun _ => h.noFrees fun _ _ => hnew.noFrees, h.zero, hnew.others.trans h.others,
    hnew.activeKept.trans h.kept⟩

theorem arenaBump_spec (h : Inv c s G) {a : Nat} {r : PageRef} (hd : IsData s.segs r)
    (hact : (s.pages r).state = .active) (hown : (s.pages r).ownerTid = noOwner)
    (hlt : (s.pages r).bumpOffset < (s.pages r).bumpEnd) :
    Ensures (fun _ => False) (arenaBump c s a r) fun (slot, s') =>
      Bumped c s G (s.pages r).arena (s.pages r).binIdx r slot s' ∧ s'.segs = s.segs ∧
        s'.segmentRegistry = s.segmentRegistry := by
  obtain ⟨hinv, -⟩ := h.active hd hact
  obtain ⟨p', he, htaken, hz, hloc, hrem⟩ := hinv.takeBump hlt
  have halloc := h.take hd hact htaken
  have hq := halloc.inv.setArena_quiet (a := a) (x := { s.arenas a with
    allocated := ((s.arenas a).allocated + p'.slotSize) % 2 ^ 64
    allocCount := ((s.arenas a).allocCount + 1) % 2 ^ 64 }) rfl rfl rfl
  have hsz := hinv.geom.slot_eq
  unfold arenaBump
  simp only
  rw [he]
  refine ⟨⟨?_, ⟨rfl, rfl⟩, ?_, ?_, ?_, fun hno => ?_, ?_, fun q hqr hdq _ => ?_,
    fun q hdq hactq => ?_⟩, rfl, rfl⟩
  · rw [← hsz]
    exact halloc.before hq
  · simp [arenaCredit, State.setArena, State.setPage, htaken.shape.arena]
  · simp [arenaCredit, State.setArena, State.setPage, htaken.shape.binIdx]
  · simp [arenaCredit, State.setArena, State.setPage, htaken.owner, hown]
  · simp only [arenaCredit, State.setArena, State.setPage, upd_same, NoFrees, hloc, hrem]
    exact hno hd hact
  · rw [← hsz]
    exact hz
  · refine ⟨hdq, (s.pages q).next, (s.pages q).prev, ?_⟩
    simp [arenaCredit, State.setArena, State.setPage, hqr]
  · refine ⟨hdq, ?_⟩
    by_cases hqr : q = r
    · subst hqr
      simp [arenaCredit, State.setArena, State.setPage, htaken.shape.state, htaken.shape.arena,
        htaken.shape.binIdx, hactq]
    · simp [arenaCredit, State.setArena, State.setPage, hqr, hactq]

/-- `arena_alloc`: null and nothing happened, or a zero slot of an unowned page. -/
structure ArenaPost (c : Cfg) (s : State) (G : Ghost) (a bin slot : Nat) (zeroed : Bool)
    (s' : State) : Prop where
  segExt : SegExt s s'
  null : slot = 0 → zeroed = false ∧ OsExt s s' ∧ SegmentRefused c s
  got : slot ≠ 0 → ∃ r, Bumped c s G a bin r slot s' ∧
    ((IsData s.segs r ∧ (s.pages r).state = .active) ∨
      (¬ (IsData s.segs r ∧ (s.pages r).state = .active) ∧
        ∀ q, InBin s.segs s.pages a bin q → scanTest s q = false))

theorem arenaAlloc_spec (h : Inv c s G) {a bin : Nat} (hbin : bin < binCount)
    (hsize : binToSize sizeTables bin ≤ 32768) :
    Ensures (fun _ => False) (arenaAlloc c s a bin) fun ((slot, zeroed), s') =>
      ArenaPost c s G a bin slot zeroed s' := by
  obtain ⟨l, hl, hmem⟩ := h.bins a bin
  have hfuel := h.bin_length_le hl.1.nodup fun r hr => (hmem r).mp hr
  unfold arenaAlloc
  rw [findFrom_linked hl.1 hfuel]
  cases hfind : l.find? (scanTest s) with
  | some r =>
    obtain ⟨hd, hact, ha, hb⟩ := (hmem r).mp (List.mem_of_find?_eq_some hfind)
    have htest := List.find?_some hfind
    simp only [scanTest, Bool.and_eq_true, beq_iff_eq, decide_eq_true_eq] at htest
    refine ensures_bind (arenaBump_spec h hd hact htest.1 htest.2) ?_
    rintro ⟨slot, s'⟩ ⟨hbump, hsegs, hreg⟩
    rw [ha, hb] at hbump
    refine ⟨.of_eq hsegs hreg, fun h0 => ?_, fun _ => ⟨r, hbump, Or.inl ⟨hd, hact⟩⟩⟩
    exact absurd h0 (Nat.ne_of_gt (hbump.alloc.inv.blk_align hbump.alloc.new).2)
  | none =>
    simp only
    refine ensures_bind (arenaNewPage_spec h hbin hsize) ?_
    rintro ⟨page, s₁⟩ hpage
    cases page with
    | none =>
      obtain ⟨hos, href⟩ : OsExt s s₁ ∧ SegmentRefused c s := hpage
      exact ⟨.of_eq hos.same.segs hos.same.registry, fun _ => ⟨rfl, hos, href⟩,
        fun h0 => absurd rfl h0⟩
    | some r =>
      obtain ⟨hext, hnew, -⟩ := hpage
      refine ensures_bind
        (arenaBump_spec hnew.quiet.inv hnew.data hnew.active hnew.owner hnew.bump) ?_
      rintro ⟨slot, s'⟩ ⟨hbump, hsegs, hreg⟩
      rw [hnew.arena, hnew.binIdx] at hbump
      obtain ⟨hsegs₁, hreg₁⟩ := binInsertPage_segs s₁ a r
      refine ⟨?_, fun h0 => ?_, fun _ => ⟨r, hbump.ofNew hnew, Or.inr ⟨hnew.fresh, fun q hq => ?_⟩⟩⟩
      · exact hext.before (hsegs.trans hsegs₁) (hreg.trans hreg₁)
      · exact absurd h0 (Nat.ne_of_gt (hbump.alloc.inv.blk_align hbump.alloc.new).2)
      · exact Bool.eq_false_iff.mpr (List.find?_eq_none.mp hfind q ((hmem q).mpr hq))

/-- The way a returned `arena_alloc` took: a listed page, no page, or a new one. -/
theorem arenaAlloc_ways (h : Inv c s G) {a bin slot : Nat} {zeroed : Bool}
    (he : arenaAlloc c s a bin = .ok ((slot, zeroed), s')) :
    (∃ r, InBin s.segs s.pages a bin r ∧ scanTest s r = true ∧
      arenaBump c s a r = .ok (slot, s')) ∨
    (slot = 0 ∧ arenaNewPage c s a bin = .ok (none, s')) ∨
    ∃ r s₁, arenaNewPage c s a bin = .ok (some r, s₁) ∧
      arenaBump c (binInsertPage s₁ a r) a r = .ok (slot, s') := by
  obtain ⟨l, hl, hmem⟩ := h.bins a bin
  unfold arenaAlloc at he
  rw [findFrom_linked hl.1 (h.bin_length_le hl.1.nodup fun r hr => (hmem r).mp hr)] at he
  cases hfind : l.find? (scanTest s) with
  | some r =>
    rw [hfind] at he
    obtain ⟨⟨slot', s₁⟩, hb, he⟩ := bind_eq_ok he
    cases he
    exact Or.inl ⟨r, (hmem r).mp (List.mem_of_find?_eq_some hfind), List.find?_some hfind, hb⟩
  | none =>
    rw [hfind] at he
    obtain ⟨⟨page, s₁⟩, hn, he⟩ := bind_eq_ok he
    cases page with
    | none =>
      cases he
      exact Or.inr (Or.inl ⟨rfl, hn⟩)
    | some r =>
      obtain ⟨⟨slot', s₂⟩, hb, he⟩ := bind_eq_ok he
      cases he
      exact Or.inr (Or.inr ⟨r, s₁, hn, hb⟩)

end CustomMalloc

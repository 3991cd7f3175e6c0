import CustomMalloc.Inv.Update

/-!
# Growing the heap

Setting up a page and creating a segment each take several writes, during which
a list and the set it is meant to hold disagree. Each is therefore treated as
one update of the state: `Inv.activate` for a page that goes to the front of its
bin, `Inv.newSegment` for a segment that goes to the front of its arena's list.
-/

namespace CustomMalloc

open Lib.Words Lib.Bytes Lib.Chain Lib.Intervals Lib.Regions Lib.Post

variable {c : Cfg} {s s' : State} {G G' : Ghost}

/-! ## A fresh page -/

section Front

variable {α β : Type} [DecidableEq α] {f : α → β} {r h : α} {p p' : β}

/-- A new cell `r` is written in front of the old head `h`, whose back link is rewritten by `g`. -/
theorem upd_front_some (hne : h ≠ r) (g : β → β) :
    upd (upd (upd f r p) r p') h (g (upd (upd f r p) r p' h)) =
      fun q => if q = r then p' else if some h = some q then g (f q) else f q := by
  funext q
  by_cases hq : q = r
  · subst hq
    rw [upd_ne (Ne.symm hne), upd_same, if_pos rfl]
  · rw [if_neg hq]
    by_cases hqh : q = h
    · subst hqh
      rw [upd_same, upd_ne hq, upd_ne hq, if_pos rfl]
    · rw [upd_ne hqh, upd_ne hq, upd_ne hq, if_neg fun he => hqh (Option.some.inj he).symm]

/-- There was no head. -/
theorem upd_front_none (g : β → β) : upd (upd f r p) r p' =
    fun q => if q = r then p' else if none = some q then g (f q) else f q := by
  funext q
  by_cases hq : q = r
  · subst hq
    rw [upd_same, if_pos rfl]
  · rw [upd_ne hq, upd_ne hq, if_neg hq, if_neg (by simp)]

end Front

/-- The pages after `bin_insert_page` put `r`, with metadata `p`, in front of `head`. -/
def insertedPages (pages : PageRef → PageMeta) (r : PageRef) (p : PageMeta)
    (head : Option PageRef) : PageRef → PageMeta := fun q =>
  if q = r then { p with prev := none, next := head }
  else if head = some q then { pages q with prev := some r } else pages q

theorem binInsertPage_eq {a : Nat} {r : PageRef} {p : PageMeta}
    (hne : (s.arenas a).bins p.binIdx ≠ some r) :
    binInsertPage (s.setPage r p) a r = { s with
      pages := insertedPages s.pages r p ((s.arenas a).bins p.binIdx)
      arenas := upd s.arenas a { s.arenas a with
        bins := upd (s.arenas a).bins p.binIdx (some r) } } := by
  unfold binInsertPage insertedPages
  simp only [State.setPage, State.setArena, upd_same]
  split
  next h hh =>
    have hrh : h ≠ r := fun he => hne (he ▸ hh)
    simp only [State.mk.injEq, true_and, and_true, hh]
    exact upd_front_some hrh fun (x : PageMeta) => { x with prev := some r }
  next hh =>
    simp only [State.mk.injEq, true_and, and_true, hh]
    exact upd_front_none fun (x : PageMeta) => { x with prev := some r }

/-- Changing the bookkeeping of a segment, not its place in the lists. -/
structure SameSegs (segs segs' : Nat → Option Segment) : Prop where
  dom : ∀ b, (segs' b).isSome = (segs b).isSome
  arena : ∀ {b g'}, segs' b = some g' → ∃ g, segs b = some g ∧ g'.arena = g.arena
  next : ∀ b, (segs' b).bind Segment.next = (segs b).bind Segment.next
  prev : ∀ b, (segs' b).bind Segment.prev = (segs b).bind Segment.prev

theorem SameSegs.isData {segs segs' : Nat → Option Segment} (h : SameSegs segs segs')
    (r : PageRef) :
    IsData segs' r ↔ IsData segs r := by
  unfold IsData
  rw [h.dom]

theorem BinsOk.sameSegs {segs segs' : Nat → Option Segment} {pages : PageRef → PageMeta}
    {arenas : Nat → Arena} (h : BinsOk segs pages arenas) (hs : SameSegs segs segs') :
    BinsOk segs' pages arenas := by
  intro a b
  obtain ⟨l, hl, hmem⟩ := h a b
  refine ⟨l, hl, fun r => (hmem r).trans ?_⟩
  unfold InBin
  rw [hs.isData]

theorem SegListsOk.sameSegs {segs segs' : Nat → Option Segment} {arenas : Nat → Arena}
    (h : SegListsOk segs arenas) (hs : SameSegs segs segs') : SegListsOk segs' arenas := by
  intro a
  obtain ⟨l, hl, hmem, hlen⟩ := h a
  refine ⟨l, hl.congr (fun b _ => hs.next b) fun b _ => hs.prev b, fun b => ?_, hlen⟩
  rw [hmem b]
  constructor
  · rintro ⟨g, hg, rfl⟩
    have hsome : (segs' b).isSome := by rw [hs.dom b, hg]; rfl
    obtain ⟨g', hg'⟩ := Option.isSome_iff_exists.mp hsome
    obtain ⟨g₀, hg₀, ha⟩ := hs.arena hg'
    cases hg.symm.trans hg₀
    exact ⟨g', hg', ha⟩
  · rintro ⟨g', hg', rfl⟩
    obtain ⟨g, hg, ha⟩ := hs.arena hg'
    exact ⟨g, hg, ha.symm⟩

theorem Inv.sameSegs (h : Inv c s G) {segs' : Nat → Option Segment} (hs : SameSegs s.segs segs') :
    Inv c { s with segs := segs' } G := by
  refine { h with
    regions := h.regions.mono (fun ρ x hx => ?_) fun _ hx => hx
    segOk := fun {b g'} hb => ?_
    pages := ⟨fun {r g'} hg h₁ h₂ => ?_,
      fun {r} hr => h.pages.rest fun hd => hr ((hs.isData r).mpr hd)⟩
    bins := h.bins.sameSegs hs
    segLists := h.segLists.sameSegs hs
    tlds := fun t tld ht b r hr => ?_
    registry := h.registry.same hs.dom }
  · cases ρ with
    | seg b => exact ⟨(hs.dom b) ▸ hx.1, hx.2⟩
    | large b => exact hx
    | tld t => exact hx
    | boot => exact hx
  · obtain ⟨g, hg, -⟩ := hs.arena hb
    exact h.segOk hg
  · obtain ⟨g, hg', ha⟩ := hs.arena hg
    rw [ha]
    exact h.pages.data hg' h₁ h₂
  · obtain ⟨hd, hst, hb⟩ := h.tlds t tld ht b r hr
    exact ⟨(hs.isData r).mpr hd, hst, hb⟩

section Insert

variable {r q : PageRef} (pages : PageRef → PageMeta) (p : PageMeta) (head : Option PageRef)

theorem insertedPages_self :
    insertedPages pages r p head r = { p with prev := none, next := head } :=
  if_pos rfl

/-- Other pages change in their `prev` link at most, and only the old head does. -/
theorem insertedPages_ne (h : q ≠ r) :
    ∃ pr, insertedPages pages r p head q = { pages q with prev := pr } ∧
      (head ≠ some q → pr = (pages q).prev) ∧ (head = some q → pr = some r) := by
  unfold insertedPages
  rw [if_neg h]
  split
  next hh => exact ⟨some r, rfl, fun hne => absurd hh hne, fun _ => rfl⟩
  next hh => exact ⟨(pages q).prev, rfl, fun _ => rfl, fun he => absurd he hh⟩

theorem insertedPages_inBin {segs : Nat → Option Segment} {a b : Nat} (hq : q ≠ r) :
    InBin segs (insertedPages pages r p head) a b q ↔ InBin segs pages a b q := by
  obtain ⟨pr, he, -⟩ := insertedPages_ne pages p head hq
  unfold InBin
  rw [he]

end Insert

/-- The bin lists after a page went to the front of its bin. -/
theorem BinsOk.insert {segs : Nat → Option Segment} {pages : PageRef → PageMeta}
    {arenas : Nat → Arena} (h : BinsOk segs pages arenas) {r : PageRef} {p : PageMeta}
    (hd : IsData segs r) (hun : (pages r).state ≠ .active) (hact : p.state = .active) :
    BinsOk segs (insertedPages pages r p ((arenas p.arena).bins p.binIdx))
      (upd arenas p.arena { arenas p.arena with
        bins := upd (arenas p.arena).bins p.binIdx (some r) }) := by
  have hne : ∀ {a b q}, InBin segs pages a b q → q ≠ r := by
    rintro a b q hq rfl
    exact hun hq.2.1
  generalize hhd : (arenas p.arena).bins p.binIdx = head
  have hself := insertedPages_self (r := r) pages p head
  obtain ⟨l₀, hl₀, hmem₀⟩ := h p.arena p.binIdx
  intro a b
  obtain ⟨l, hl, hmem⟩ := h a b
  have hlne : ∀ q ∈ l, q ≠ r := fun q hq => hne ((hmem q).mp hq)
  have hnext : ∀ q ∈ l, (insertedPages pages r p head q).next = (pages q).next := by
    intro q hq
    obtain ⟨pr, he, -⟩ := insertedPages_ne pages p head (hlne q hq)
    rw [he]
  by_cases hab : a = p.arena ∧ b = p.binIdx
  · obtain ⟨rfl, rfl⟩ := hab
    rw [hhd] at hl
    refine ⟨r :: l, ?_, fun q => ?_⟩
    · have hbins : ((upd arenas p.arena { arenas p.arena with
          bins := upd (arenas p.arena).bins p.binIdx (some r) }) p.arena).bins
          p.binIdx = some r := by
        rw [upd_same]
        exact upd_same ..
      rw [hbins]
      refine hl.push (by rw [hself]) (by rw [hself]) hnext (fun q hq => ?_) fun q hq hqh => ?_
      · have hqr := hlne q (hl.head_mem hq)
        obtain ⟨pr, he, -, hpr⟩ := insertedPages_ne pages p head hqr
        rw [he]
        exact hpr hq
      · obtain ⟨pr, he, hpr, -⟩ := insertedPages_ne pages p head (hlne q hq)
        rw [he]
        exact hpr hqh
    · by_cases hq : q = r
      · subst hq
        refine ⟨fun _ => ⟨hd, ?_⟩, fun _ => List.mem_cons_self ..⟩
        rw [hself]
        exact ⟨hact, rfl, rfl⟩
      · rw [insertedPages_inBin pages p head hq, ← hmem q, List.mem_cons]
        exact ⟨fun hm => hm.resolve_left hq, Or.inr⟩
  · -- another list: neither `r` nor the old head is on it
    refine ⟨l, ?_, fun q => ?_⟩
    · have hbins : ((upd arenas p.arena { arenas p.arena with
          bins := upd (arenas p.arena).bins p.binIdx (some r) }) a).bins b = (arenas a).bins b := by
        by_cases ha : a = p.arena
        · subst ha
          rw [upd_same]
          exact upd_ne fun hb => hab ⟨rfl, hb⟩
        · rw [upd_ne ha]
      rw [hbins]
      refine hl.congr hnext fun q hq => ?_
      obtain ⟨pr, he, hpr, -⟩ := insertedPages_ne pages p head (hlne q hq)
      rw [he]
      refine hpr fun hh => hab ?_
      have h₁ := (hmem₀ q).mp (hl₀.head_mem (hhd.trans hh))
      have h₂ := (hmem q).mp hq
      exact ⟨h₂.2.2.1.symm.trans h₁.2.2.1, h₂.2.2.2.symm.trans h₁.2.2.2⟩
    · rw [hmem q]
      by_cases hq : q = r
      · subst hq
        refine ⟨fun hm => absurd rfl (hne hm), fun hm => absurd ?_ hab⟩
        obtain ⟨-, -, h₁, h₂⟩ := hm
        rw [hself] at h₁ h₂
        exact ⟨h₁.symm, h₂.symm⟩
      · exact (insertedPages_inBin pages p head hq).symm

/-- A page set up by `page_init` goes to the front of its bin. -/
theorem Inv.activate (h : Inv c s G) {r : PageRef} {p : PageMeta} {g : Segment}
    (hg : s.segs r.seg = some g) (h₁ : 1 ≤ r.idx) (h₂ : r.idx < 64)
    (hun : (s.pages r).state = .unused) (hinv : PageInv c.debug s.mem r p [])
    (ha : p.arena = g.arena) :
    Quiet c s G { s with
      pages := insertedPages s.pages r p ((s.arenas p.arena).bins p.binIdx)
      arenas := upd s.arenas p.arena { s.arenas p.arena with
        bins := upd (s.arenas p.arena).bins p.binIdx (some r) } } := by
  have hd : IsData s.segs r := isData_of hg h₁ h₂
  have hne : ∀ {q}, (s.pages q).state = .active → q ≠ r := by
    rintro q hq rfl
    rw [hun] at hq
    cases hq
  have hbusy : G.busy r = [] := by
    cases h.pages.data hg h₁ h₂ with
    | unused hs h0 hb hz => exact hb
    | active inv ha' => exact absurd rfl (hne inv.geom.active)
  have hbins := h.bins.insert hd (by rw [hun]; simp) hinv.geom.active
  generalize (s.arenas p.arena).bins p.binIdx = head at hbins
  have hslot : ∀ {q y}, y ∈ G.busy q →
      (insertedPages s.pages r p head q).slotSize = (s.pages q).slotSize := by
    intro q y hy
    have hq : q ≠ r := by
      rintro rfl
      rw [hbusy] at hy
      cases hy
    obtain ⟨pr, he, -⟩ := insertedPages_ne s.pages p head hq
    rw [he]
  refine ⟨{ h with
      pages := ⟨fun {q g'} hg' q₁ q₂ => ?_, h.pages.rest⟩
      bins := hbins
      segLists := h.segLists.setArena rfl rfl
      tlds := fun t tld ht b q hq => ?_ },
    fun y n hb _ => ⟨?_, fun _ _ _ => rfl⟩, fun y n hb => ?_⟩
  · by_cases hq : q = r
    · subst hq
      cases hg.symm.trans hg'
      rw [hbusy]
      refine .active ?_ (by simpa only [insertedPages_self] using ha)
      simpa only [insertedPages_self] using hinv.relink p.ownerTid head none
    · obtain ⟨pr, he, -⟩ := insertedPages_ne s.pages p head hq
      simp only [he]
      cases h.pages.data hg' q₁ q₂ with
      | unused hs h0 hb hz => exact .unused hs h0 hb hz
      | active inv ha' => exact .active (inv.relink _ _ pr) ha'
  · obtain ⟨hdq, hs, hb⟩ := h.tlds t tld ht b q hq
    obtain ⟨pr, he, -⟩ := insertedPages_ne s.pages p head (hne hs)
    simp only [he]
    exact ⟨hdq, hs, hb⟩
  · cases hb with
    | slab q hy =>
      rw [← hslot hy]
      exact .slab q hy
    | large hl => exact .large hl
  · cases hb with
    | slab q hy =>
      have hb' : Blk s G y (s.pages q).slotSize := .slab q hy
      rwa [← hslot hy] at hb'
    | large hl => exact .large hl

/-! ## A fresh segment -/

/-- The segment headers after `linkSegment` put `b` in front of `head`. -/
def insertedSegs (segs : Nat → Option Segment) (b arena : Nat) (head : Option Nat) :
    Nat → Option Segment := fun x =>
  if x = b then some { pagesUsed := 0, arena := arena, next := head, prev := none }
  else if head = some x then (segs x).map fun (g : Segment) => { g with prev := some b }
  else segs x

theorem linkSegment_eq {segs : Nat → Option Segment} {a b : Nat}
    (hne : (s.arenas a).segments ≠ some b) :
    linkSegment { s with
        segs := upd segs b (some { pagesUsed := 0, arena := a, next := none, prev := none }) } a b =
      { s with
        segs := insertedSegs segs b a (s.arenas a).segments
        arenas := upd s.arenas a { s.arenas a with
          segments := some b
          segmentCount := ((s.arenas a).segmentCount + 1) % 2 ^ 32 } } := by
  unfold linkSegment insertedSegs
  simp only [State.setArena, upd_same, Option.map_some]
  split
  next h hh =>
    have hbh : h ≠ b := fun he => hne (he ▸ hh)
    simp only [State.mk.injEq, true_and, and_true, hh]
    exact upd_front_some hbh (Option.map fun (g : Segment) => { g with prev := some b })
  next hh =>
    simp only [State.mk.injEq, true_and, and_true, hh]
    exact upd_front_none (Option.map fun (g : Segment) => { g with prev := some b })

section InsertSeg

variable (segs : Nat → Option Segment) (b arena : Nat) (head : Option Nat) {x : Nat}

theorem insertedSegs_self : insertedSegs segs b arena head b =
    some { pagesUsed := 0, arena := arena, next := head, prev := none } := if_pos rfl

/-- Other segments change in their `prev` link at most, and only the old head does. -/
theorem insertedSegs_ne {g : Segment} (hx : x ≠ b) (hg : segs x = some g) :
    ∃ pr, insertedSegs segs b arena head x = some { g with prev := pr } ∧
      (head ≠ some x → pr = g.prev) ∧ (head = some x → pr = some b) := by
  unfold insertedSegs
  rw [if_neg hx]
  split
  next hh => exact ⟨some b, by rw [hg]; rfl, fun hne => absurd hh hne, fun _ => rfl⟩
  next hh => exact ⟨g.prev, hg, fun _ => rfl, fun he => absurd he hh⟩

theorem insertedSegs_none (hx : x ≠ b) (hg : segs x = none) :
    insertedSegs segs b arena head x = none := by
  unfold insertedSegs
  rw [if_neg hx, hg]
  split <;> rfl

theorem insertedSegs_isSome :
    (insertedSegs segs b arena head x).isSome ↔ x = b ∨ (segs x).isSome := by
  by_cases hx : x = b
  · subst hx
    rw [insertedSegs_self]
    simp
  · cases hg : segs x with
    | none => simp [insertedSegs_none segs b arena head hx hg, hx]
    | some g =>
      obtain ⟨pr, he, -⟩ := insertedSegs_ne segs b arena head hx hg
      simp [he]

variable {segs b arena head}

variable (arena head) in
theorem Region.of_insertedSegs {larges : Nat → Option LargeAlloc} {tls : Nat → Option Tld}
    {ρ : Region} (hx : Region.Has c (insertedSegs segs b arena head) larges tls ρ x) :
    Region.Has c segs larges tls ρ x ∨ (ρ = .seg b ∧ b ≤ x ∧ x < b + 4194304) := by
  cases ρ with
  | seg b' =>
    obtain ⟨hs, hx⟩ := hx
    rcases (insertedSegs_isSome segs b arena head).mp hs with rfl | hs
    · exact Or.inr ⟨rfl, hx⟩
    · exact Or.inl ⟨hs, hx⟩
  | large b' => exact Or.inl hx
  | tld t => exact Or.inl hx
  | boot => exact Or.inl hx

end InsertSeg

/-- The segment lists after a segment went to the front of its arena's list. -/
theorem SegListsOk.insert {segs : Nat → Option Segment} {arenas : Nat → Arena}
    (h : SegListsOk segs arenas) {b a : Nat} (hfresh : segs b = none) :
    SegListsOk (insertedSegs segs b a (arenas a).segments)
      (upd arenas a { arenas a with
        segments := some b
        segmentCount := ((arenas a).segmentCount + 1) % 2 ^ 32 }) := by
  generalize hhd : (arenas a).segments = head
  have hself := insertedSegs_self segs b a head
  -- a listed segment exists, so it is not `b`, and keeps everything but its `prev`
  have hold : ∀ {a' : Nat} {l : List Nat},
      (∀ x, x ∈ l ↔ ∃ g, segs x = some g ∧ g.arena = a') → ∀ x ∈ l, x ≠ b ∧
        ((insertedSegs segs b a head x).bind Segment.next = (segs x).bind Segment.next) ∧
        (head ≠ some x →
          (insertedSegs segs b a head x).bind Segment.prev = (segs x).bind Segment.prev) ∧
        (head = some x → (insertedSegs segs b a head x).bind Segment.prev = some b) := by
    intro a' l hmem x hx
    obtain ⟨g, hg, -⟩ := (hmem x).mp hx
    have hxb : x ≠ b := by
      rintro rfl
      cases hfresh.symm.trans hg
    obtain ⟨pr, he, h₁, h₂⟩ := insertedSegs_ne segs b a head hxb hg
    rw [he, hg]
    exact ⟨hxb, rfl, h₁, h₂⟩
  have hmem' : ∀ {a' x : Nat}, x ≠ b →
    ((∃ g, insertedSegs segs b a head x = some g ∧ g.arena = a') ↔
      ∃ g, segs x = some g ∧ g.arena = a') := by
    intro a' x hxb
    cases hg : segs x with
    | none => simp [insertedSegs_none segs b a head hxb hg]
    | some g =>
      obtain ⟨pr, he, -⟩ := insertedSegs_ne segs b a head hxb hg
      simp [he]
  obtain ⟨l₀, hl₀, hmem₀, hlen₀⟩ := h a
  intro a'
  obtain ⟨l, hl, hmem, hlen⟩ := h a'
  by_cases haa : a' = a
  · subst haa
    refine ⟨b :: l, ?_, fun x => ?_, ?_⟩
    · rw [upd_same]
      rw [hhd] at hl
      refine hl.push (by rw [hself]; rfl) (by rw [hself]; rfl) (fun x hx => (hold hmem x hx).2.1)
        (fun x hx => (hold hmem x (hl.head_mem hx)).2.2.2 hx)
        fun x hx hxh => (hold hmem x hx).2.2.1 hxh
    · by_cases hxb : x = b
      · subst hxb
        exact ⟨fun _ => ⟨_, hself, rfl⟩, fun _ => List.mem_cons_self ..⟩
      · rw [hmem' hxb, ← hmem x, List.mem_cons]
        exact ⟨fun hm => hm.resolve_left hxb, Or.inr⟩
    · rw [upd_same, hlen, List.length_cons, Nat.mod_add_mod]
  · refine ⟨l, ?_, fun x => ?_, ?_⟩
    · rw [upd_ne haa]
      refine hl.congr (fun x hx => (hold hmem x hx).2.1) fun x hx => (hold hmem x hx).2.2.1 ?_
      -- the old head belongs to the other arena
      intro hh
      obtain ⟨g, hg, ha⟩ := (hmem x).mp hx
      obtain ⟨g₀, hg₀, ha₀⟩ := (hmem₀ x).mp (hl₀.head_mem (hhd.trans hh))
      cases hg.symm.trans hg₀
      exact haa (ha.symm.trans ha₀)
    · by_cases hxb : x = b
      · subst hxb
        rw [hmem x, hfresh, hself]
        simp [Ne.symm haa]
      · rw [hmem' hxb, hmem x]
    · rw [upd_ne haa, hlen]

/-- The bin lists after a segment was created: its pages are on no list. -/
theorem BinsOk.newSegment {segs : Nat → Option Segment} {pages : PageRef → PageMeta}
    {arenas : Nat → Arena} (h : BinsOk segs pages arenas) {a b : Nat} {head : Option Nat}
    {x : Arena}
    (hnone : segs b = none) (hx : x.bins = (arenas a).bins) :
    BinsOk (insertedSegs segs b a head)
      (fun r => if r.seg = b then freshPage b a r.idx else pages r) (upd arenas a x) := by
  have hdom : ∀ y, (insertedSegs segs b a head y).isSome ↔ y = b ∨ (segs y).isSome :=
    fun y => insertedSegs_isSome segs b a head
  have hno : ∀ {r : PageRef}, IsData segs r → r.seg ≠ b := by
    rintro r ⟨hs, -⟩ rfl
    rw [hnone] at hs
    cases hs
  intro a' b'
  obtain ⟨l, hl, hmem⟩ := h a' b'
  have hlne : ∀ r ∈ l, r.seg ≠ b := fun r hr => hno ((hmem r).mp hr).1
  refine ⟨l, ?_, fun r => ?_⟩
  · have hbins := congrFun (upd_proj Arena.bins (g := arenas) (a := a) (b := x) hx) a'
    simp only [hbins]
    refine hl.congr (fun r hr => ?_) fun r hr => ?_
    · rw [if_neg (hlne r hr)]
    · rw [if_neg (hlne r hr)]
  · rw [hmem r]
    unfold InBin IsData
    by_cases hr : r.seg = b
    · constructor
      · exact fun hd => absurd hr (hno hd.1)
      · rintro ⟨-, hact, -⟩
        simp only [if_pos hr] at hact
        unfold freshPage at hact
        split at hact <;> cases hact
    · simp only [if_neg hr, hdom, or_iff_right hr]

/-- The state after `segment_create` and the insertion into the arena's list. -/
def newSegment (s : State) (a b : Nat) : State :=
  { s with
    segs := insertedSegs s.segs b a (s.arenas a).segments
    pages := fun r => if r.seg = b then freshPage b a r.idx else s.pages r
    segmentRegistry := segmentRegister s.segmentRegistry b
    arenas := upd s.arenas a { s.arenas a with
      segments := some b
      segmentCount := ((s.arenas a).segmentCount + 1) % 2 ^ 32 } }

theorem FreshRegion.seg_none {b : Nat} (h : Inv c s G) (hf : FreshRegion s s' b 4194304) :
    s.segs b = none := by
  by_contra hc
  obtain ⟨g, hg⟩ := Option.ne_none_iff_exists'.mp hc
  have : Region.Has c s.segs s.larges s.tls (.seg b) b := ⟨by rw [hg]; rfl, by omega, by omega⟩
  exact hf.fresh b (by omega) (by omega) (h.regions.backed this)

/-- A fresh segment of zero bytes. -/
theorem Inv.newSegment (h : Inv c s G) {a b : Nat} (hos : OsExt s s')
    (hf : FreshRegion s s' b 4194304) (hok : SegOk b) :
    Quiet c s' G (CustomMalloc.newSegment s' a b) := by
  have hnone := hf.seg_none h
  have h' := h.osExt hos
  have hregions := fun head => hos.layout hf h.regions fun _ _ => Region.of_insertedSegs a head
  obtain ⟨ans, mp, m, mb, rfl, -⟩ := hos
  unfold CustomMalloc.newSegment
  simp only
  generalize hhd : (s.arenas a).segments = head
  have hdom : ∀ x, (insertedSegs s.segs b a head x).isSome ↔ x = b ∨ (s.segs x).isSome :=
    fun x => insertedSegs_isSome s.segs b a head
  -- no page of the new segment was there before
  have hno : ∀ {r : PageRef}, IsData s.segs r → r.seg ≠ b := by
    rintro r ⟨hs, -⟩ rfl
    rw [hnone] at hs
    cases hs
  have hbusy : ∀ {r : PageRef}, r.seg = b → G.busy r = [] :=
    fun hr => h.pages.rest fun hd => hno hd hr
  have hmono : ∀ {r : PageRef}, IsData s.segs r → IsData (insertedSegs s.segs b a head) r :=
    fun hd => ⟨(hdom _).mpr (Or.inr hd.1), hd.2⟩
  have hback : ∀ {r : PageRef}, r.seg ≠ b → IsData (insertedSegs s.segs b a head) r →
      IsData s.segs r := fun hr hd => ⟨((hdom _).mp hd.1).resolve_left hr, hd.2⟩
  refine ⟨{ h' with
      regions := hregions head
      segOk := fun {x g} hx => ?_
      pages := ⟨fun {r g} hg h₁ h₂ => ?_, fun {r} hr => h.pages.rest fun hd => hr (hmono hd)⟩
      bins := h.bins.newSegment hnone rfl
      segLists := hhd ▸ h.segLists.insert hnone
      tlds := fun t tld ht b' r hr => ?_
      registry := h.registry.register (Nat.ne_of_gt hok.pos) hnone hdom },
      fun y n hb _ => ⟨?_, fun _ _ _ => rfl⟩, fun y n hb => ?_⟩
  · rcases (hdom x).mp (Option.isSome_iff_exists.mpr ⟨g, hx⟩) with rfl | hs
    · exact hok
    · obtain ⟨g', hg'⟩ := Option.isSome_iff_exists.mp hs
      exact h.segOk hg'
  · by_cases hr : r.seg = b
    · have hun : (freshPage b a r.idx).state = .unused := if_neg (by omega)
      simp only [if_pos hr]
      refine .unused hun rfl (hbusy hr) fun y y₁ y₂ => hf.zero y ?_ ?_
      · unfold PageRef.start at y₁
        omega
      · unfold PageRef.start at y₂
        omega
    · simp only [if_neg hr]
      have hd : IsData s.segs r := hback hr (isData_of hg h₁ h₂)
      obtain ⟨g₀, hg₀⟩ := Option.isSome_iff_exists.mp hd.1
      obtain ⟨pr, he, -⟩ := insertedSegs_ne s.segs b a head hr hg₀
      cases he.symm.trans hg
      have := h'.pages.data hg₀ h₁ h₂
      exact this
  · obtain ⟨hd, hs, hb⟩ := h.tlds t tld ht b' r hr
    simp only [if_neg (hno hd)]
    exact ⟨hmono hd, hs, hb⟩
  · cases hb with
    | slab r hy =>
      have hr : r.seg ≠ b := fun hr => by
        rw [hbusy hr] at hy
        cases hy
      rw [show (s.pages r).slotSize = _ from (congrArg PageMeta.slotSize (if_neg hr)).symm]
      exact .slab r hy
    | large hl => exact .large hl
  · cases hb with
    | slab r hy =>
      have hr : r.seg ≠ b := fun hr => by
        rw [hbusy hr] at hy
        cases hy
      simp only [if_neg hr]
      exact .slab r hy
    | large hl => exact .large hl

end CustomMalloc

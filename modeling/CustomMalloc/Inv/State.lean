import CustomMalloc.Malloc
import CustomMalloc.Inv.Os
import CustomMalloc.Inv.Page
import CustomMalloc.Inv.Registry
import CustomMalloc.Lib.Post
import CustomMalloc.Lib.Regions

/-!
# The invariant of the allocator

`Inv c s G` is what every call of the public API preserves. It is a bundle of
components, one per concern, each over just the fields it is about, so that a
step that leaves those fields alone leaves the component alone:

* `regions`: segments, large mappings, thread-local data and the bootstrap
  buffer are mapped and do not overlap;
* `pages`: every data page of a segment is unused and zero, or satisfies the
  page invariant;
* `bins`, `segLists`, `larges`: the intrusive lists hold exactly what they
  should and their counters are their lengths;
* `tlds`: a cached page is an active page of its bin;
* `registry`: the registry holds segments, and all of them while it has room.

The ghost `G` says which blocks the allocator considers handed out: the busy
slots of every page and the user pointer of every large mapping. `Blk` is the
resulting set of blocks with their sizes.
-/

namespace CustomMalloc

open Lib.Words Lib.Bytes Lib.Chain Lib.Intervals Lib.Regions

/-- What is handed out: the busy slots of each page and the user pointer of each
large mapping. -/
structure Ghost where
  busy : PageRef → List Nat
  user : Nat → Nat

/-- `r` is a data page of some segment. -/
def IsData (segs : Nat → Option Segment) (r : PageRef) : Prop :=
  (segs r.seg).isSome ∧ 1 ≤ r.idx ∧ r.idx < 64

/-! ## Components -/

/-- The regions of the address space. -/
inductive Region where
  | seg (b : Nat)
  | large (b : Nat)
  | tld (t : Nat)
  | boot

/-- `x` lies in the region. -/
def Region.Has (c : Cfg) (segs : Nat → Option Segment) (larges : Nat → Option LargeAlloc)
    (tls : Nat → Option Tld) : Region → Nat → Prop
  | .seg b, x => (segs b).isSome ∧ b ≤ x ∧ x < b + 4194304
  | .large b, x => ∃ la, larges b = some la ∧ b ≤ x ∧ x < b + la.size
  | .tld t, x => ∃ tld, tls t = some tld ∧ tld.addr ≤ x ∧ x < tld.addr + c.osPage
  | .boot, x => c.bootstrapBuf ≤ x ∧ x < c.bootstrapBuf + 65536

section Regions

variable {c : Cfg} {ι : Type} {has has' : ι → Nat → Prop} {k : ι} {lo n : Nat}

/-- A mapping granted by the kernel becomes a region. -/
theorem OsExt.layout {s s' : State} (hos : OsExt s s') (hf : FreshRegion s s' lo n)
    (h : Layout (Covers s.mapped) has)
    (hs : ∀ i x, has' i x → has i x ∨ (i = k ∧ lo ≤ x ∧ x < lo + n)) :
    Layout (Covers s'.mapped) has' :=
  h.add hs (fun _ => hos.covers) (fun x hx => hf.fresh x hx.1 hx.2) fun x hx =>
    hf.mapped x hx.1 hx.2

/-- A region goes away with its mapping. -/
theorem layout_unmapRange {mapped : List (Nat × Nat)} (h : Layout (Covers mapped) has)
    (hn : c.osPage ∣ n) (hs : ∀ i x, has' i x → has i x ∧ i ≠ k)
    (hk : ∀ x, lo ≤ x ∧ x < lo + n → has k x) :
    Layout (Covers (unmapRange c mapped lo n)) has' := by
  refine h.remove hs fun x hx hno => ?_
  unfold unmapRange
  split
  next =>
    rw [roundPage, alignUp_of_dvd c.osPage_pos hn]
    exact covers_remove.mpr ⟨hx, fun hc => hno (hk x hc)⟩
  next => exact hx

variable {segs : Nat → Option Segment} {larges : Nat → Option LargeAlloc} {tls : Nat → Option Tld}
  {t : Nat} {ρ : Region} {x : Nat}

theorem Region.of_newTld {tld : Tld} (hx : Region.Has c segs larges (upd tls t (some tld)) ρ x) :
    Region.Has c segs larges tls ρ x ∨ (ρ = .tld t ∧ tld.addr ≤ x ∧ x < tld.addr + c.osPage) := by
  cases ρ with
  | tld u =>
    obtain ⟨y, hy, hx⟩ := hx
    by_cases hu : u = t
    · subst hu
      rw [upd_same] at hy
      cases hy
      exact Or.inr ⟨rfl, hx⟩
    · exact Or.inl ⟨y, (upd_ne hu).symm.trans hy, hx⟩
  | seg b => exact Or.inl hx
  | large b => exact Or.inl hx
  | boot => exact Or.inl hx

theorem Region.of_noTld (hx : Region.Has c segs larges (upd tls t none) ρ x) :
    Region.Has c segs larges tls ρ x ∧ ρ ≠ .tld t := by
  cases ρ with
  | tld u =>
    obtain ⟨y, hy, hx⟩ := hx
    have hu : u ≠ t := by
      rintro rfl
      rw [upd_same] at hy
      cases hy
    exact ⟨⟨y, (upd_ne hu).symm.trans hy, hx⟩, by simpa using hu⟩
  | seg b => exact ⟨hx, by simp⟩
  | large b => exact ⟨hx, by simp⟩
  | boot => exact ⟨hx, by simp⟩

end Regions

/-- A segment is a 4 MB aligned part of the address space. -/
structure SegOk (b : Nat) : Prop where
  pos : 0 < b
  al : 4194304 ∣ b
  lt : b + 4194304 ≤ 2 ^ 64

/-- A data page is unused and untouched, or active. -/
inductive PageOk (d : Bool) (m : Mem) (arena : Nat) (r : PageRef) (p : PageMeta)
    (busy : List Nat) : Prop
  | unused (hs : p.state = .unused) (h0 : p.bumpOffset = 0) (hb : busy = [])
      (hz : ∀ y, r.start ≤ y → y < r.start + 65536 → m y = 0)
  | active (inv : PageInv d m r p busy) (ha : p.arena = arena)

structure PagesOk (d : Bool) (m : Mem) (segs : Nat → Option Segment) (pages : PageRef → PageMeta)
    (busy : PageRef → List Nat) : Prop where
  data : ∀ {r g}, segs r.seg = some g → 1 ≤ r.idx → r.idx < 64 →
    PageOk d m g.arena r (pages r) (busy r)
  rest : ∀ {r}, ¬ IsData segs r → busy r = []

/-- The pages of arena `a` and bin `b`. -/
def InBin (segs : Nat → Option Segment) (pages : PageRef → PageMeta) (a b : Nat) (r : PageRef) :
    Prop :=
  IsData segs r ∧ (pages r).state = .active ∧ (pages r).arena = a ∧ (pages r).binIdx = b

/-- The bin lists. -/
def BinsOk (segs : Nat → Option Segment) (pages : PageRef → PageMeta) (arenas : Nat → Arena) :
    Prop :=
  ∀ a b, ∃ l, DList (fun r => (pages r).next) (fun r => (pages r).prev) ((arenas a).bins b) l ∧
    ∀ r, r ∈ l ↔ InBin segs pages a b r

/-- The segment lists. -/
def SegListsOk (segs : Nat → Option Segment) (arenas : Nat → Arena) : Prop :=
  ∀ a, ∃ l, DList (fun b => (segs b).bind Segment.next) (fun b => (segs b).bind Segment.prev)
      (arenas a).segments l ∧
    (∀ b, b ∈ l ↔ ∃ g, segs b = some g ∧ g.arena = a) ∧ (arenas a).segmentCount = l.length % 2 ^ 32

/-- A thread caches active pages of the right bin, and only once it has an arena. -/
def CacheOk (segs : Nat → Option Segment) (pages : PageRef → PageMeta) (tld : Tld) : Prop :=
  ∀ b r, tld.binPage b = some r →
    IsData segs r ∧ (pages r).state = .active ∧ (pages r).binIdx = b ∧ tld.arena.isSome

/-- The page caches. -/
def TldsOk (segs : Nat → Option Segment) (pages : PageRef → PageMeta) (tls : Nat → Option Tld) :
    Prop :=
  ∀ t tld, tls t = some tld → CacheOk segs pages tld

/-- One large mapping and its user pointer. -/
structure LargeOk (c : Cfg) (b : Nat) (la : LargeAlloc) (p : Nat) : Prop where
  base : la.base = b
  pos : 0 < b
  page : c.osPage ∣ b
  size_page : c.osPage ∣ la.size
  stop : b + la.size < 2 ^ 64
  ptr_ge : b + 48 ≤ p
  ptr_lt : p < b + la.size
  fits : p + la.userSize ≤ b + la.size
  al : 16 ∣ p

structure LargesOk (c : Cfg) (larges : Nat → Option LargeAlloc) (head : Option Nat) (count : Nat)
    (user : Nat → Nat) : Prop where
  each : ∀ {b la}, larges b = some la → LargeOk c b la (user b)
  list : ∃ l, DList (fun b => (larges b).bind LargeAlloc.next)
      (fun b => (larges b).bind LargeAlloc.prev) head l ∧
    (∀ b, b ∈ l ↔ (larges b).isSome) ∧ count = l.length

/-- The allocator's invariant. -/
structure Inv (c : Cfg) (s : State) (G : Ghost) : Prop where
  regions : Layout (Covers s.mapped) (Region.Has c s.segs s.larges s.tls)
  segOk : ∀ {b g}, s.segs b = some g → SegOk b
  pages : PagesOk c.debug s.mem s.segs s.pages G.busy
  bins : BinsOk s.segs s.pages s.arenas
  segLists : SegListsOk s.segs s.arenas
  tlds : TldsOk s.segs s.pages s.tls
  registry : RegistryOk s.segs s.segmentRegistry
  larges : LargesOk c s.larges s.largeList s.largeAllocCount G.user

/-! ## Blocks -/

/-- A block that is handed out, with its size. -/
inductive Blk (s : State) (G : Ghost) : Nat → Nat → Prop
  | slab {p : Nat} (r : PageRef) (h : p ∈ G.busy r) : Blk s G p (s.pages r).slotSize
  | large {b : Nat} {la : LargeAlloc} (h : s.larges b = some la) : Blk s G (G.user b) la.userSize

variable {c : Cfg} {s s' : State} {G G' : Ghost}

theorem Blk.ofLarge {b p n : Nat} {la : LargeAlloc} (h : s.larges b = some la) (hp : G.user b = p)
    (hn : la.userSize = n) : Blk s G p n := by
  rw [← hp, ← hn]
  exact .large h

theorem Blk.ofSlab {p n : Nat} {r : PageRef} (h : p ∈ G.busy r) (hn : (s.pages r).slotSize = n) :
    Blk s G p n := by
  rw [← hn]
  exact .slab r h

theorem Blk.split {p n : Nat} (h : Blk s G p n) :
    (∃ r, p ∈ G.busy r ∧ n = (s.pages r).slotSize) ∨
      ∃ b la, s.larges b = some la ∧ p = G.user b ∧ n = la.userSize := by
  cases h with
  | slab r hp => exact Or.inl ⟨r, hp, rfl⟩
  | large hl => exact Or.inr ⟨_, _, hl, rfl, rfl⟩

/-- Every block of `s` that satisfies `P` is still there in `s'`, with its size
and its bytes. -/
def Keeps (s : State) (G : Ghost) (s' : State) (G' : Ghost) (P : Nat → Prop) : Prop :=
  ∀ p n, Blk s G p n → P p → Blk s' G' p n ∧ ∀ y, p ≤ y → y < p + n → s'.mem y = s.mem y

theorem Keeps.refl {P : Nat → Prop} : Keeps s G s G P :=
  fun _ _ h _ => ⟨h, fun _ _ _ => rfl⟩

theorem Keeps.trans {s₁ s₂ s₃ : State} {G₁ G₂ G₃ : Ghost} {P : Nat → Prop}
    (h : Keeps s₁ G₁ s₂ G₂ P) (h' : Keeps s₂ G₂ s₃ G₃ P) : Keeps s₁ G₁ s₃ G₃ P := by
  intro p n hb hp
  obtain ⟨hb₂, hm₂⟩ := h p n hb hp
  obtain ⟨hb₃, hm₃⟩ := h' p n hb₂ hp
  exact ⟨hb₃, fun y h₁ h₂ => (hm₃ y h₁ h₂).trans (hm₂ y h₁ h₂)⟩

theorem Keeps.mono {P Q : Nat → Prop} (h : Keeps s G s' G' P) (hPQ : ∀ p, Q p → P p) :
    Keeps s G s' G' Q := fun p n hb hq => h p n hb (hPQ p hq)

/-! ## Pages and addresses -/

theorem isData_of {segs : Nat → Option Segment} {r : PageRef} {g : Segment}
    (h : segs r.seg = some g) (h₁ : 1 ≤ r.idx) (h₂ : r.idx < 64) : IsData segs r :=
  ⟨by rw [h]; rfl, h₁, h₂⟩

/-- The bytes of a data page are bytes of its segment. -/
theorem IsData.has {r : PageRef} {y : Nat} (h : IsData s.segs r) (h₁ : r.start ≤ y)
    (h₂ : y < r.start + 65536) : Region.Has c s.segs s.larges s.tls (.seg r.seg) y := by
  obtain ⟨hs, hlo, hhi⟩ := h
  unfold PageRef.start at h₁ h₂
  exact ⟨hs, by omega, by omega⟩

/-- A byte belongs to at most one data page. -/
theorem Inv.page_unique (h : Inv c s G) {r r' : PageRef} {y : Nat} (hr : IsData s.segs r)
    (hr' : IsData s.segs r') (h₁ : r.start ≤ y) (h₂ : y < r.start + 65536) (h₁' : r'.start ≤ y)
    (h₂' : y < r'.start + 65536) : r = r' := by
  have hseg : r.seg = r'.seg := by
    have := h.regions.apart (hr.has (c := c) h₁ h₂) (hr'.has h₁' h₂')
    exact Region.seg.inj this
  unfold PageRef.start at h₁ h₂ h₁' h₂'
  obtain ⟨seg, idx⟩ := r
  obtain ⟨seg', idx'⟩ := r'
  simp only at hseg h₁ h₂ h₁' h₂'
  subst hseg
  congr
  omega

/-- A page with a busy slot is an active data page. -/
theorem Inv.busy_active (h : Inv c s G) {r : PageRef} {p : Nat} (hp : p ∈ G.busy r) :
    IsData s.segs r ∧ PageInv c.debug s.mem r (s.pages r) (G.busy r) := by
  have hd : IsData s.segs r := by
    by_contra hc
    rw [h.pages.rest hc] at hp
    cases hp
  obtain ⟨g, hg⟩ := Option.isSome_iff_exists.mp hd.1
  refine ⟨hd, ?_⟩
  cases h.pages.data hg hd.2.1 hd.2.2 with
  | unused hs h0 hb hz =>
    rw [hb] at hp
    cases hp
  | active inv ha => exact inv

/-- An active data page satisfies the page invariant. -/
theorem Inv.active (h : Inv c s G) {r : PageRef} (hd : IsData s.segs r)
    (hact : (s.pages r).state = .active) :
    PageInv c.debug s.mem r (s.pages r) (G.busy r) ∧
      ∃ g, s.segs r.seg = some g ∧ (s.pages r).arena = g.arena := by
  obtain ⟨g, hg⟩ := Option.isSome_iff_exists.mp hd.1
  cases h.pages.data hg hd.2.1 hd.2.2 with
  | unused hs h0 hb hz =>
    rw [hact] at hs
    cases hs
  | active inv ha => exact ⟨inv, g, hg, ha⟩

/-! ## Blocks do not overlap -/

/-- Where a block lies: in a slot of an active page, or in a large mapping. -/
theorem Inv.blk_cases (h : Inv c s G) {p n : Nat} (hb : Blk s G p n) :
    (∃ r, p ∈ G.busy r ∧ IsData s.segs r ∧ PageInv c.debug s.mem r (s.pages r) (G.busy r) ∧
      n = (s.pages r).slotSize) ∨
    (∃ b la, s.larges b = some la ∧ LargeOk c b la p ∧ p = G.user b ∧ n = la.userSize) := by
  cases hb with
  | slab r hp =>
    obtain ⟨hd, hinv⟩ := h.busy_active hp
    exact Or.inl ⟨r, hp, hd, hinv, rfl⟩
  | large hl => exact Or.inr ⟨_, _, hl, h.larges.each hl, rfl, rfl⟩

/-- The region of a block: its segment or its large mapping. -/
def InRegion (c : Cfg) (s : State) (ρ : Region) (p n : Nat) : Prop :=
  Region.Has c s.segs s.larges s.tls ρ p ∧
    ∀ y, p ≤ y → y < p + n → Region.Has c s.segs s.larges s.tls ρ y

theorem Inv.slab_region (h : Inv c s G) {r : PageRef} {p : Nat} (hp : p ∈ G.busy r) :
    InRegion c s (.seg r.seg) p (s.pages r).slotSize := by
  obtain ⟨hd, hinv⟩ := h.busy_active hp
  obtain ⟨h₁, h₂, -⟩ := hinv.busy_in hp
  have hge := hinv.geom.slot_ge
  exact ⟨hd.has h₁ (by omega), fun y hy₁ hy₂ => hd.has (by omega) (by omega)⟩

theorem LargeOk.region {b p : Nat} {la : LargeAlloc} (h : LargeOk c b la p)
    (hl : s.larges b = some la) : InRegion c s (.large b) p la.userSize := by
  have h₁ := h.ptr_ge
  have h₂ := h.ptr_lt
  have h₃ := h.fits
  exact ⟨⟨la, hl, by omega, by omega⟩, fun y hy₁ hy₂ => ⟨la, hl, by omega, by omega⟩⟩

theorem Inv.blk_region (h : Inv c s G) {p n : Nat} (hb : Blk s G p n) :
    ∃ ρ, InRegion c s ρ p n := by
  cases hb with
  | slab r hp => exact ⟨_, h.slab_region hp⟩
  | large hl => exact ⟨_, (h.larges.each hl).region hl⟩

/-- Ranges in different regions do not meet. -/
theorem Inv.apart_of_regions (h : Inv c s G) {ρ ρ' : Region} {p n q k : Nat} (hne : ρ ≠ ρ')
    (hp : InRegion c s ρ p n) (hq : InRegion c s ρ' q k) : p ≠ q ∧ (p + n ≤ q ∨ q + k ≤ p) := by
  refine ⟨?_, ?_⟩
  · rintro rfl
    exact hne (h.regions.apart hp.1 hq.1)
  · by_contra hc
    -- the larger of the two starts would lie in both regions
    rcases Nat.lt_or_ge p q with hlt | hge
    · exact hne (h.regions.apart (hp.2 q (by omega) (by omega)) hq.1)
    · exact hne (h.regions.apart hp.1 (hq.2 p (by omega) (by omega)))

/-- Two blocks are the same block or do not overlap. -/
theorem Inv.blk_apart (h : Inv c s G) {p n q k : Nat} (hp : Blk s G p n) (hq : Blk s G q k) :
    (p = q ∧ n = k) ∨ (p ≠ q ∧ (p + n ≤ q ∨ q + k ≤ p)) := by
  cases hp with
  | slab r hp =>
    cases hq with
    | slab r' hq =>
      by_cases hrr : r = r'
      · subst hrr
        by_cases hpq : p = q
        · exact Or.inl ⟨hpq, rfl⟩
        · exact Or.inr ⟨hpq, (h.busy_active hp).2.busy_apart hp hq hpq⟩
      · -- different pages: a common byte would belong to both
        obtain ⟨hd, hinv⟩ := h.busy_active hp
        obtain ⟨hd', hinv'⟩ := h.busy_active hq
        obtain ⟨h₁, h₂, -⟩ := hinv.busy_in hp
        obtain ⟨h₁', h₂', -⟩ := hinv'.busy_in hq
        have hge := hinv.geom.slot_ge
        have hge' := hinv'.geom.slot_ge
        have hno : ∀ y, r.start ≤ y → y < r.start + 65536 → r'.start ≤ y →
            y < r'.start + 65536 → False :=
          fun y a₁ a₂ a₃ a₄ => hrr (h.page_unique hd hd' a₁ a₂ a₃ a₄)
        refine Or.inr ⟨fun he => hno p h₁ (by omega) (by omega) (by omega), ?_⟩
        by_contra hc
        rcases Nat.lt_or_ge p q with hlt | hge
        · exact hno q (by omega) (by omega) h₁' (by omega)
        · exact hno p h₁ (by omega) (by omega) (by omega)
    | large hl =>
      exact Or.inr (h.apart_of_regions (by simp) (h.slab_region hp) ((h.larges.each hl).region hl))
  | large hl =>
    cases hq with
    | slab r' hq =>
      exact Or.inr (h.apart_of_regions (by simp) ((h.larges.each hl).region hl) (h.slab_region hq))
    | @large b' la' hl' =>
      rename_i b la
      by_cases hbb : b = b'
      · subst hbb
        cases hl.symm.trans hl'
        exact Or.inl ⟨rfl, rfl⟩
      · exact Or.inr (h.apart_of_regions (by simpa using hbb) ((h.larges.each hl).region hl)
          ((h.larges.each hl').region hl'))

theorem Inv.blk_size_eq (h : Inv c s G) {p n k : Nat} (hp : Blk s G p n) (hq : Blk s G p k) :
    n = k := by
  rcases h.blk_apart hp hq with ⟨-, he⟩ | ⟨hne, -⟩
  · exact he
  · exact absurd rfl hne

/-- Every block is 16-byte aligned and not null. -/
theorem Inv.blk_align (h : Inv c s G) {p n : Nat} (hb : Blk s G p n) : 16 ∣ p ∧ 0 < p := by
  rcases h.blk_cases hb with ⟨r, hp, hd, hinv, rfl⟩ | ⟨b, la, hl, hok, -, rfl⟩
  · obtain ⟨h₁, -, h₃⟩ := hinv.busy_in hp
    have := hinv.geom.start_pos
    exact ⟨h₃, by omega⟩
  · have := hok.ptr_ge
    exact ⟨hok.al, by omega⟩

end CustomMalloc

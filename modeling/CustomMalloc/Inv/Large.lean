import CustomMalloc.Inv.Update

/-!
# Large blocks preserve the invariant

A large block is a fresh mapping whose header goes to the front of `large_list`.
As long as none of the size computations wraps (`LargeFits`), the mapping holds
the header and the block, and a pointer into it is found again by walking the
list. Freeing takes the header out of the list and the mapping away.
-/

namespace CustomMalloc

open Lib.Words Lib.Bytes Lib.Chain Lib.Intervals Lib.Regions Lib.Post

variable {c : Cfg} {s s' : State} {G G' : Ghost}

/-! ## Sizes -/

/-- `MIN_ALIGN` or more. -/
def raisedAlign (alignment : Nat) : Nat := if alignment < minAlign then minAlign else alignment

/-- No computation of `large_alloc_aligned` or `os_mmap_aligned` wraps for this
request. -/
def LargeFits (c : Cfg) (size alignment : Nat) : Prop :=
  alignUp (raisedAlign alignment) 48 + size + c.osPage - 1 < 2 ^ 64 ∧
  (c.osPage < raisedAlign alignment →
    alignUp c.osPage (alignUp (raisedAlign alignment) 48 + size) +
      raisedAlign alignment - 1 < 2 ^ 64)

instance (c : Cfg) (size alignment : Nat) : Decidable (LargeFits c size alignment) :=
  inferInstanceAs (Decidable (_ ∧ (_ → _)))

theorem raisedAlign_pow (k : Nat) : raisedAlign (2 ^ k) = 2 ^ max k 4 := by
  unfold raisedAlign
  rw [show minAlign = 2 ^ 4 from rfl]
  split
  next h =>
    have := (Nat.pow_lt_pow_iff_right (by decide)).mp h
    rw [Nat.max_eq_right (by omega)]
  next h =>
    have := (Nat.pow_le_pow_iff_right (by decide)).mp (Nat.not_lt.mp h)
    rw [Nat.max_eq_left (by omega)]

theorem sixteen_dvd_raisedAlign (k : Nat) : 16 ∣ raisedAlign (2 ^ k) := by
  rw [raisedAlign_pow]
  exact Nat.pow_dvd_pow (n := max k 4) 2 (Nat.le_max_right k 4)

theorem dvd_raisedAlign (k : Nat) : 2 ^ k ∣ raisedAlign (2 ^ k) := by
  rw [raisedAlign_pow]
  exact Nat.pow_dvd_pow 2 (Nat.le_max_left k 4)

/-- The alignment `large_alloc_aligned` asks of the OS layer. -/
theorem mapAlign_pow (c : Cfg) (k : Nat) :
    (if raisedAlign (2 ^ k) < c.osPage then c.osPage else raisedAlign (2 ^ k)) =
      2 ^ max (max k 4) c.pageShift := by
  rw [raisedAlign_pow]
  unfold Cfg.osPage
  split
  next h =>
    have := (Nat.pow_lt_pow_iff_right (by decide)).mp h
    exact congrArg (2 ^ ·) (Nat.max_eq_right (by omega)).symm
  next h =>
    have := (Nat.pow_le_pow_iff_right (by decide)).mp (Nat.not_lt.mp h)
    exact congrArg (2 ^ ·) (Nat.max_eq_left this).symm

/-- The header space and the total of a request that fits. -/
theorem LargeFits.total {size k : Nat} (hk : k ≤ 63) (h : LargeFits c size (2 ^ k)) :
    headerSpace (raisedAlign (2 ^ k)) = alignUp (raisedAlign (2 ^ k)) 48 ∧
      largeTotal c size (raisedAlign (2 ^ k)) =
        alignUp c.osPage (alignUp (raisedAlign (2 ^ k)) 48 + size) := by
  obtain ⟨h₁, -⟩ := h
  rw [raisedAlign_pow] at h₁ ⊢
  have hpow : 2 ^ max k 4 ≤ 2 ^ 63 := Nat.pow_le_pow_right (by decide) (by omega)
  have hhs : headerSpace (2 ^ max k 4) = alignUp (2 ^ max k 4) 48 := by
    unfold headerSpace
    exact alignUp64_eq (by omega) (by simp only [largeHeaderSize]; omega)
  refine ⟨hhs, ?_⟩
  have hP := c.osPage_pos
  unfold largeTotal
  rw [hhs, Nat.mod_eq_of_lt (by omega)]
  unfold Cfg.osPage at h₁ hP ⊢
  exact alignUp64_eq (by have := c.pageShift_lt; omega) (by omega)

/-! ## A new header -/

/-- The headers after `linkLarge` put `la` in front of `head`. -/
def insertedLarges (larges : Nat → Option LargeAlloc) (la : LargeAlloc) (head : Option Nat) :
    Nat → Option LargeAlloc := fun x =>
  if x = la.base then some { la with next := head, prev := none }
  else if head = some x then
    (larges x).map fun (y : LargeAlloc) => { y with prev := some la.base }
  else larges x

theorem linkLarge_eq {la : LargeAlloc} (hne : s.largeList ≠ some la.base) :
    linkLarge s la = { s with
      larges := insertedLarges s.larges la s.largeList
      largeList := some la.base } := by
  unfold linkLarge insertedLarges
  simp only
  split
  next h hh =>
    have hbh : h ≠ la.base := fun he => hne (he ▸ hh)
    simp only [State.mk.injEq, true_and, and_true]
    funext x
    by_cases hx : x = la.base
    · subst hx
      rw [upd_ne (Ne.symm hbh), upd_same, if_pos rfl, hh]
    · rw [if_neg hx]
      by_cases hxh : x = h
      · subst hxh
        rw [upd_same, upd_ne hx, if_pos hh]
      · rw [upd_ne hxh, upd_ne hx, if_neg]
        rw [hh]
        exact fun he => hxh (Option.some.inj he).symm
  next hh =>
    simp only [State.mk.injEq, true_and, and_true]
    funext x
    by_cases hx : x = la.base
    · subst hx
      rw [upd_same, if_pos rfl, hh]
    · rw [upd_ne hx, if_neg hx, if_neg (by rw [hh]; simp)]

section InsertLarge

variable (larges : Nat → Option LargeAlloc) (la : LargeAlloc) (head : Option Nat) {x : Nat}

theorem insertedLarges_self :
    insertedLarges larges la head la.base = some { la with next := head, prev := none } :=
      if_pos rfl

/-- Other headers change in their `prev` link at most, and only the old head does. -/
theorem insertedLarges_ne {y : LargeAlloc} (hx : x ≠ la.base) (hy : larges x = some y) :
    ∃ pr, insertedLarges larges la head x = some { y with prev := pr } ∧
      (head ≠ some x → pr = y.prev) ∧ (head = some x → pr = some la.base) := by
  unfold insertedLarges
  rw [if_neg hx]
  split
  next hh => exact ⟨some la.base, by rw [hy]; rfl, fun hne => absurd hh hne, fun _ => rfl⟩
  next hh => exact ⟨y.prev, hy, fun _ => rfl, fun he => absurd he hh⟩

theorem insertedLarges_none (hx : x ≠ la.base) (hy : larges x = none) :
    insertedLarges larges la head x = none := by
  unfold insertedLarges
  rw [if_neg hx, hy]
  split <;> rfl

/-- Conversely, an old header is what it was but for `prev`. -/
theorem insertedLarges_old {y : LargeAlloc} (hx : x ≠ la.base)
    (hy : insertedLarges larges la head x = some y) :
    ∃ y₀, larges x = some y₀ ∧ y.base = y₀.base ∧ y.size = y₀.size ∧ y.userSize = y₀.userSize := by
  cases h₀ : larges x with
  | none => cases (insertedLarges_none larges la head hx h₀).symm.trans hy
  | some y₀ =>
    obtain ⟨pr, he, -⟩ := insertedLarges_ne larges la head hx h₀
    cases he.symm.trans hy
    exact ⟨y₀, rfl, rfl, rfl, rfl⟩

variable {larges la head}

theorem insertedLarges_has {z : Nat}
    (hz : ∃ y, insertedLarges larges la head x = some y ∧ x ≤ z ∧ z < x + y.size) :
    (∃ y, larges x = some y ∧ x ≤ z ∧ z < x + y.size) ∨
      (x = la.base ∧ la.base ≤ z ∧ z < la.base + la.size) := by
  obtain ⟨y, hy, hz⟩ := hz
  by_cases hx : x = la.base
  · subst hx
    cases (insertedLarges_self larges la head).symm.trans hy
    exact Or.inr ⟨rfl, hz⟩
  · obtain ⟨y₀, hy₀, -, hsz, -⟩ := insertedLarges_old _ la _ hx hy
    rw [hsz] at hz
    exact Or.inl ⟨y₀, hy₀, hz⟩

variable (head) in
theorem Region.of_insertedLarges {segs : Nat → Option Segment} {tls : Nat → Option Tld} {ρ : Region}
    (hx : Region.Has c segs (insertedLarges larges la head) tls ρ x) :
    Region.Has c segs larges tls ρ x ∨
      (ρ = .large la.base ∧ la.base ≤ x ∧ x < la.base + la.size) := by
  cases ρ with
  | large b => exact (insertedLarges_has hx).imp_right fun ⟨hb, hx⟩ => ⟨hb ▸ rfl, hx⟩
  | seg b => exact Or.inl hx
  | tld t => exact Or.inl hx
  | boot => exact Or.inl hx

end InsertLarge

/-- The headers are at different addresses, so there are fewer than `2 ^ 64`. -/
theorem LargesOk.length_lt {larges : Nat → Option LargeAlloc} {head : Option Nat} {count : Nat}
    {user : Nat → Nat} (h : LargesOk c larges head count user) {l : List Nat} (hnd : l.Nodup)
    (hl : ∀ b ∈ l, (larges b).isSome) : l.length + 1 < 2 ^ 64 := by
  have hb : ∀ b ∈ l, 0 < b ∧ b + 48 < 2 ^ 64 := by
    intro b hb
    obtain ⟨la, hla⟩ := Option.isSome_iff_exists.mp (hl b hb)
    have hok := h.each hla
    have := hok.ptr_ge
    have := hok.ptr_lt
    have := hok.stop
    exact ⟨hok.pos, by omega⟩
  have hcard := @card_mul_le_of_disjoint Nat (fun b => b - 1) (fun _ => 1) 1 (by decide) l.length l
    (2 ^ 64 - 2) rfl hnd (fun b hm => by have := hb b hm; omega)
    (fun b hm b' hm' hne => by
      have := hb b hm
      have := hb b' hm'
      omega)
  omega

/-- `l` are the headers, in list order. -/
def LargeList (larges : Nat → Option LargeAlloc) (head : Option Nat) (l : List Nat) : Prop :=
  DList (fun b => (larges b).bind LargeAlloc.next) (fun b => (larges b).bind LargeAlloc.prev)
    head l ∧
    ∀ b, b ∈ l ↔ (larges b).isSome

theorem LargeList.insert {larges : Nat → Option LargeAlloc} {head : Option Nat} {l : List Nat}
    (h : LargeList larges head l) {la : LargeAlloc} (hfresh : larges la.base = none) :
    LargeList (insertedLarges larges la head) (some la.base) (la.base :: l) := by
  obtain ⟨hl, hmem⟩ := h
  have hself := insertedLarges_self larges la head
  have hne : ∀ x ∈ l, x ≠ la.base := by
    rintro x hx rfl
    have := (hmem _).mp hx
    rw [hfresh] at this
    cases this
  have hold : ∀ x ∈ l, ∃ y, larges x = some y := fun x hx =>
    Option.isSome_iff_exists.mp ((hmem x).mp hx)
  refine ⟨hl.push (by rw [hself]; rfl) (by rw [hself]; rfl) (fun x hx => ?_) (fun x hx => ?_)
    fun x hx hxh => ?_, fun b => ?_⟩
  · obtain ⟨y, hy⟩ := hold x hx
    obtain ⟨pr, he, -⟩ := insertedLarges_ne larges la head (hne x hx) hy
    rw [he, hy]
    rfl
  · have hxl := hl.head_mem hx
    obtain ⟨y, hy⟩ := hold x hxl
    obtain ⟨pr, he, -, hpr⟩ := insertedLarges_ne larges la head (hne x hxl) hy
    rw [he]
    exact hpr hx
  · obtain ⟨y, hy⟩ := hold x hx
    obtain ⟨pr, he, hpr, -⟩ := insertedLarges_ne larges la head (hne x hx) hy
    rw [he, hy]
    exact hpr hxh
  · by_cases hbb : b = la.base
    · subst hbb
      rw [hself]
      simp
    · rw [List.mem_cons, or_iff_right hbb, hmem b]
      cases hy : larges b with
      | none => rw [insertedLarges_none larges la head hbb hy]
      | some y =>
        obtain ⟨pr, he, -⟩ := insertedLarges_ne larges la head hbb hy
        rw [he]
        rfl

theorem LargesOk.insert {larges : Nat → Option LargeAlloc} {head : Option Nat} {count : Nat}
    {user : Nat → Nat} (h : LargesOk c larges head count user) {la : LargeAlloc} {p : Nat}
    (hfresh : larges la.base = none) (hok : LargeOk c la.base la p) :
    LargesOk c (insertedLarges larges la head) (some la.base) ((count + 1) % 2 ^ 64)
      (upd user la.base p) := by
  have hself := insertedLarges_self larges la head
  obtain ⟨l, hl, hmem, hlen⟩ := h.list
  obtain ⟨hl', hmem'⟩ := LargeList.insert ⟨hl, hmem⟩ hfresh
  refine ⟨fun {b y} hb => ?_, la.base :: l, hl', hmem', ?_⟩
  · by_cases hbb : b = la.base
    · subst hbb
      cases hself.symm.trans hb
      rw [upd_same]
      exact ⟨rfl, hok.pos, hok.page, hok.size_page, hok.stop, hok.ptr_ge, hok.ptr_lt, hok.fits,
        hok.al⟩
    · obtain ⟨y₀, hy₀, h₁, h₂, h₃⟩ := insertedLarges_old larges la head hbb hb
      have ho := h.each hy₀
      rw [upd_ne hbb]
      exact ⟨h₁.trans ho.base, ho.pos, ho.page, h₂ ▸ ho.size_page, h₂ ▸ ho.stop, ho.ptr_ge,
        h₂ ▸ ho.ptr_lt, by rw [h₂, h₃]; exact ho.fits, ho.al⟩
  · have := h.length_lt hl.1.nodup fun b hb => (hmem b).mp hb
    rw [hlen, List.length_cons, Nat.mod_eq_of_lt this]

/-- The pointer `p` is handed out for the mapping at `b`. -/
def Ghost.takeLarge (G : Ghost) (b p : Nat) : Ghost := { G with user := upd G.user b p }

theorem FreshRegion.large_none {b n : Nat} (h : Inv c s G) (hf : FreshRegion s s' b n)
    (hn : 0 < n) : s.larges b = none := by
  by_contra hc
  obtain ⟨la, hla⟩ := Option.ne_none_iff_exists'.mp hc
  have hok := h.larges.each hla
  have := hok.ptr_ge
  have := hok.ptr_lt
  have : Region.Has c s.segs s.larges s.tls (.large b) b := ⟨la, hla, by omega, by omega⟩
  exact hf.fresh b (by omega) (by omega) (h.regions.backed this)

/-- A fresh mapping with its header in the list. -/
theorem Inv.newLarge (h : Inv c s G) (la : LargeAlloc) {p n : Nat} (hos : OsExt s s')
    (hf : FreshRegion s s' la.base la.size) (hok : LargeOk c la.base la p) :
    Alloc c s G p la.userSize { s' with
      larges := insertedLarges s'.larges la s'.largeList
      largeList := some la.base
      largeAllocated := n
      largeAllocCount := (s'.largeAllocCount + 1) % 2 ^ 64 } (G.takeLarge la.base p) := by
  have hge := hok.ptr_ge
  have hlt := hok.ptr_lt
  have hnone := hf.large_none h (by omega)
  have h' := h.osExt hos
  have hregions := hos.layout hf h.regions fun _ _ => Region.of_insertedLarges s.largeList
  obtain ⟨ans, mp, m, mb, rfl, hk⟩ := hos
  have hself := insertedLarges_self s.larges la s.largeList
  refine ⟨{ h' with regions := hregions, larges := h.larges.insert hnone hok },
    fun q k hb _ => ?_, ?_, fun k hb => ?_, fun q k hb hne => ?_⟩
  · obtain ⟨ρ, -, hin⟩ := h.blk_region hb
    refine ⟨?_, fun y h₁ h₂ => (hk y (h.regions.backed (hin y h₁ h₂))).2⟩
    cases hb with
    | slab r hq => exact .slab r hq
    | @large b y hy =>
      have hbb : b ≠ la.base := by
        rintro rfl
        cases hnone.symm.trans hy
      obtain ⟨pr, he, -⟩ := insertedLarges_ne s.larges la s.largeList hbb hy
      exact .ofLarge he (upd_ne hbb) rfl
  · exact .ofLarge hself (upd_same ..) rfl
  · obtain ⟨ρ, hin, -⟩ := h.blk_region hb
    exact hf.fresh p (by omega) (by omega) (h.regions.backed hin)
  · cases hb with
    | slab r hq => exact .slab r hq
    | @large b y hy =>
      have hbb : b ≠ la.base := by
        rintro rfl
        exact hne (upd_same ..)
      obtain ⟨y₀, hy₀, -, -, hsz⟩ := insertedLarges_old _ la _ hbb hy
      exact .ofLarge hy₀ (upd_ne hbb).symm hsz.symm

/-- What `large_alloc_aligned` leaves alone. -/
structure LargeFrame (s s' : State) : Prop where
  segs : s'.segs = s.segs
  pages : s'.pages = s.pages
  registry : s'.segmentRegistry = s.segmentRegistry
  tls : s'.tls = s.tls
  arenas : s'.arenas = s.arenas
  arenaNext : s'.arenaNext = s.arenaNext

/-- The result of a large allocation: null, or a block of exactly `size` zero
bytes in its own mapping, aligned as requested. -/
structure LargePost (c : Cfg) (s : State) (G : Ghost) (size alignment p : Nat) (s' : State) :
    Prop where
  frame : LargeFrame s s'
  null : p = 0 → Quiet c s G s'
  got : p ≠ 0 → ∃ b, Alloc c s G p size s' (G.takeLarge b p) ∧ alignment ∣ p ∧
    ∀ y, p ≤ y → y < p + size → s'.mem y = 0

/-- A request whose pointer lies inside its mapping: it has a byte, or the header
space does not fill whole pages. -/
def HasRoom (c : Cfg) (size alignment : Nat) : Prop :=
  0 < size ∨ alignUp (raisedAlign alignment) 48 <
    alignUp c.osPage (alignUp (raisedAlign alignment) 48)

theorem HasRoom.lt {size alignment : Nat} (h : HasRoom c size alignment) :
    alignUp (raisedAlign alignment) 48 <
      alignUp c.osPage (alignUp (raisedAlign alignment) 48 + size) := by
  rcases h with h | h
  · have := le_alignUp c.osPage_pos (alignUp (raisedAlign alignment) 48 + size)
    omega
  · exact Nat.lt_of_lt_of_le h (alignUp_mono c.osPage_pos (by omega))

/-- The header of a request that fits, for a mapping at `base`. -/
def newHeader (c : Cfg) (base size alignment : Nat) : LargeAlloc where
  base := base
  size := alignUp c.osPage (alignUp (raisedAlign alignment) 48 + size)
  userSize := size
  next := none
  prev := none

/-- The state after a header was linked and counted. -/
def linkedLarge (s : State) (la : LargeAlloc) : State :=
  let s := linkLarge s la
  { s with
    largeAllocated := (s.largeAllocated + la.userSize) % 2 ^ 64
    largeAllocCount := (s.largeAllocCount + 1) % 2 ^ 64 }

/-- Nothing but the header write stops the call. -/
theorem largeAllocAligned_error {size alignment : Nat} {e : Halt}
    (he : largeAllocAligned c s size alignment = .error e) : e = .fault := by
  unfold largeAllocAligned at he
  simp only at he
  generalize (if alignment < minAlign then minAlign else alignment) = a at he
  generalize osMmapAligned c s _ _ = x at he
  obtain ⟨base, s₁⟩ := x
  simp only at he
  split at he
  next => cases he
  split at he
  next => cases he
  next => exact (Except.error.inj he).symm

theorem headerMapped_iff {base : Nat} :
    headerMapped s base = true ↔ ∀ i, i < 48 → Covers s.mapped (base + i) := by
  simp [headerMapped, largeHeaderSize]

/-- When no sum wraps, the mapping is fresh and as long as it should be. -/
theorem LargeFits.mapping {size k base : Nat} {s₁ : State} (hfit : LargeFits c size (2 ^ k))
    (hk : k ≤ 63) (hm : osMmapAligned c s (largeTotal c size (raisedAlign (2 ^ k)))
      (if raisedAlign (2 ^ k) < c.osPage then c.osPage else raisedAlign (2 ^ k)) = (base, s₁)) :
    OsExt s s₁ ∧ (base ≠ 0 → FreshRegion s s₁ base (newHeader c base size (2 ^ k)).size ∧
      raisedAlign (2 ^ k) ∣ base ∧ c.osPage ∣ base) := by
  obtain ⟨-, htot⟩ := hfit.total hk
  have hmap := mapAlign_pow c k
  have hk' : max (max k 4) c.pageShift ≤ 63 := by
    have := c.pageShift_lt
    omega
  have hfits : AlignedFits c (largeTotal c size (raisedAlign (2 ^ k)))
      (2 ^ max (max k 4) c.pageShift) := by
    intro hgt
    rw [htot]
    refine ⟨dvd_alignUp _ _, ?_⟩
    rw [← hmap] at hgt ⊢
    split at hgt
    next => exact absurd hgt (Nat.lt_irrefl _)
    next hge =>
      rw [if_neg hge]
      exact hfit.2 hgt
  rw [hmap] at hm
  obtain ⟨hos, hnew⟩ := osMmapAligned_spec hk' hfits hm
  refine ⟨hos, fun h0 => ?_⟩
  obtain ⟨hf, hBp, hPp⟩ := hnew h0
  rw [htot] at hf
  exact ⟨hf, Nat.dvd_trans
    (by rw [raisedAlign_pow]; exact Nat.pow_dvd_pow 2 (Nat.le_max_left _ _)) hBp,
    hPp⟩

/-- What `large_alloc_aligned` does, from any state: the kernel refuses, or there is a
fresh mapping of the header's size and its header is in the list. -/
theorem largeAllocAligned_returns (s : State) {size k : Nat} (hk : k ≤ 63)
    (hfit : LargeFits c size (2 ^ k)) :
    ∃ p s', largeAllocAligned c s size (2 ^ k) = .ok (p, s') ∧
    ((p = 0 ∧ OsExt s s') ∨
    ∃ base s₁, base ≠ 0 ∧ OsExt s s₁ ∧ FreshRegion s s₁ base (newHeader c base size (2 ^ k)).size ∧
      raisedAlign (2 ^ k) ∣ base ∧ c.osPage ∣ base ∧ p = base + alignUp (raisedAlign (2 ^ k)) 48 ∧
      s' = linkedLarge s₁ (newHeader c base size (2 ^ k))) := by
  obtain ⟨hhs, htot⟩ := hfit.total hk
  have hle := le_alignUp c.osPage_pos (alignUp (raisedAlign (2 ^ k)) 48 + size)
  have h48 : 48 ≤ alignUp (raisedAlign (2 ^ k)) 48 := by
    refine le_alignUp ?_ 48
    rw [raisedAlign_pow]
    exact Nat.two_pow_pos _
  rcases hm : osMmapAligned c s (largeTotal c size (raisedAlign (2 ^ k)))
    (if raisedAlign (2 ^ k) < c.osPage then c.osPage else raisedAlign (2 ^ k)) with ⟨base, s₁⟩
  obtain ⟨hos, hnew⟩ := hfit.mapping hk hm
  unfold largeAllocAligned
  simp only [show (if 2 ^ k < minAlign then minAlign else 2 ^ k) = raisedAlign (2 ^ k) from rfl, hm]
  by_cases h0 : base = 0
  · rw [if_pos h0]
    exact ⟨0, s₁, rfl, Or.inl ⟨rfl, hos⟩⟩
  obtain ⟨hf, hAp, hPp⟩ := hnew h0
  have hfit' : base + alignUp c.osPage (alignUp (raisedAlign (2 ^ k)) 48 + size) < 2 ^ 64 := hf.fits
  have hmapped : headerMapped s₁ base = true := headerMapped_iff.mpr fun i hi =>
    hf.mapped _ (by omega) (Nat.add_lt_add_left (Nat.lt_of_lt_of_le hi (by
      show 48 ≤ alignUp c.osPage (alignUp (raisedAlign (2 ^ k)) 48 + size)
      omega)) base)
  rw [if_neg h0, if_pos hmapped, hhs, htot]
  exact ⟨_, _, rfl, Or.inr ⟨base, s₁, h0, hos, hf, hAp, hPp, Nat.mod_eq_of_lt (by omega), rfl⟩⟩

theorem largeAllocAligned_cases {size k p : Nat} (hk : k ≤ 63) (hfit : LargeFits c size (2 ^ k))
    (he : largeAllocAligned c s size (2 ^ k) = .ok (p, s')) :
    (p = 0 ∧ OsExt s s') ∨
    ∃ base s₁, base ≠ 0 ∧ OsExt s s₁ ∧ FreshRegion s s₁ base (newHeader c base size (2 ^ k)).size ∧
      raisedAlign (2 ^ k) ∣ base ∧ c.osPage ∣ base ∧ p = base + alignUp (raisedAlign (2 ^ k)) 48 ∧
      s' = linkedLarge s₁ (newHeader c base size (2 ^ k)) := by
  obtain ⟨p', s'', he', h⟩ := largeAllocAligned_returns s hk hfit
  obtain ⟨rfl, rfl⟩ := Prod.mk.inj (Except.ok.inj (he'.symm.trans he))
  exact h

theorem largeAllocAligned_spec (h : Inv c s G) {size k p : Nat} (hk : k ≤ 63)
    (hfit : LargeFits c size (2 ^ k)) (hroom : HasRoom c size (2 ^ k))
    (he : largeAllocAligned c s size (2 ^ k) = .ok (p, s')) :
    LargePost c s G size (2 ^ k) p s' := by
  have hApos : 0 < raisedAlign (2 ^ k) := by
    rw [raisedAlign_pow]
    exact Nat.two_pow_pos _
  have h48 := le_alignUp hApos 48
  have hAhs := dvd_alignUp (raisedAlign (2 ^ k)) 48
  have hle := le_alignUp c.osPage_pos (alignUp (raisedAlign (2 ^ k)) 48 + size)
  have hlt := hroom.lt
  rcases largeAllocAligned_cases hk hfit he with
    ⟨rfl, hos⟩ | ⟨base, s₁, h0, hos, hf, hAp, hPp, rfl, rfl⟩
  · refine ⟨?_, fun _ => .of_same (h.osExt hos) (h.osExt_keeps hos _) hos.same,
      fun h1 => absurd rfl h1⟩
    obtain ⟨_, _, _, _, rfl, -⟩ := hos
    exact ⟨rfl, rfl, rfl, rfl, rfl, rfl⟩
  · have hAptr : raisedAlign (2 ^ k) ∣ base + alignUp (raisedAlign (2 ^ k)) 48 :=
      Nat.dvd_add hAp hAhs
    have hok : LargeOk c base (newHeader c base size (2 ^ k))
        (base + alignUp (raisedAlign (2 ^ k)) 48) :=
      ⟨rfl, Nat.pos_of_ne_zero h0, hPp, dvd_alignUp _ _, hf.fits, by omega,
        Nat.add_lt_add_left hlt _,
        (by rw [Nat.add_assoc]; exact Nat.add_le_add_left hle _),
        Nat.dvd_trans (sixteen_dvd_raisedAlign k) hAptr⟩
    have hhead : s₁.largeList ≠ some base := by
      have hnone := hf.large_none h (Nat.lt_of_le_of_lt (Nat.zero_le _) hlt)
      obtain ⟨_, _, _, _, rfl, -⟩ := hos
      intro hc
      obtain ⟨l, hl, hmem, -⟩ := h.larges.list
      have := (hmem base).mp (hl.head_mem hc)
      rw [hnone] at this
      cases this
    have halloc := h.newLarge (newHeader c base size (2 ^ k))
      (n := (s₁.largeAllocated + size) % 2 ^ 64) hos hf hok
    unfold linkedLarge
    rw [linkLarge_eq hhead]
    refine ⟨?_, fun h1 => absurd h1 (by omega), fun _ => ⟨base, halloc, ?_, fun y h₁ h₂ => ?_⟩⟩
    · obtain ⟨_, _, _, _, rfl, -⟩ := hos
      exact ⟨rfl, rfl, rfl, rfl, rfl, rfl⟩
    · exact Nat.dvd_trans (dvd_raisedAlign k) hAptr
    · exact hf.zero y (by omega) (Nat.lt_of_lt_of_le h₂ hok.fits)

/-! ## Finding and freeing -/

theorem Inv.largeContains_iff (h : Inv c s G) {x b : Nat} :
    largeContains s x b = true ↔ Region.Has c s.segs s.larges s.tls (.large b) x := by
  unfold largeContains
  split
  next la hb =>
    have hok := h.larges.each hb
    rw [hok.base, Nat.mod_eq_of_lt hok.stop, Bool.and_eq_true, decide_eq_true_eq, decide_eq_true_eq]
    constructor
    · exact fun hx => ⟨la, hb, hx⟩
    · rintro ⟨la', hb', hx⟩
      cases hb.symm.trans hb'
      exact hx
  next hb =>
    constructor
    · exact fun hx => absurd hx (by simp)
    · rintro ⟨la', hb', -⟩
      cases hb.symm.trans hb'

/-- `large_find` finds the mapping that contains the pointer. -/
theorem Inv.largeFind_eq (h : Inv c s G) {x b : Nat}
    (hb : Region.Has c s.segs s.larges s.tls (.large b) x) : largeFind s x = .ok (some b) := by
  obtain ⟨l, hl, hmem, hlen⟩ := h.larges.list
  unfold largeFind
  rw [findFrom_linked hl.1 (Nat.le_of_eq hlen.symm)]
  have hfind : l.find? (largeContains s x) = some b := by
    have hbl : b ∈ l := (hmem b).mpr (by
      obtain ⟨la, hla, -⟩ := hb
      rw [hla]
      rfl)
    cases hf : l.find? (largeContains s x) with
    | none => exact absurd (h.largeContains_iff.mpr hb) (List.find?_eq_none.mp hf b hbl)
    | some b' =>
      have hb' := h.largeContains_iff.mp (List.find?_some hf)
      rw [Region.large.inj (h.regions.apart hb' hb)]
  rw [hfind]

theorem Inv.largeFind_none (h : Inv c s G) {x : Nat}
    (hno : ∀ b, ¬ Region.Has c s.segs s.larges s.tls (.large b) x) :
    largeFind s x = .ok none := by
  obtain ⟨l, hl, hmem, hlen⟩ := h.larges.list
  unfold largeFind
  rw [findFrom_linked hl.1 (Nat.le_of_eq hlen.symm)]
  have hfind : l.find? (largeContains s x) = none :=
    List.find?_eq_none.mpr fun b _ hc => hno b (h.largeContains_iff.mp hc)
  rw [hfind]

/-- The headers after one was unlinked and its mapping is gone. -/
def removedLarges (larges : Nat → Option LargeAlloc) (b : Nat) (la : LargeAlloc) :
    Nat → Option LargeAlloc := fun x =>
  if x = b then none
  else (larges x).map fun (y : LargeAlloc) => { y with
    next := if la.prev = some x then la.next else y.next
    prev := if la.next = some x then la.prev else y.prev }

/-- Rewrite the header a link points at. -/
def mapAt (f : LargeAlloc → LargeAlloc) (o : Option Nat) (larges : Nat → Option LargeAlloc) :
    Nat → Option LargeAlloc :=
  match o with
  | some p => upd larges p ((larges p).map f)
  | none => larges

theorem mapAt_apply (f : LargeAlloc → LargeAlloc) (o : Option Nat)
    (larges : Nat → Option LargeAlloc) (x : Nat) :
    mapAt f o larges x = if o = some x then (larges x).map f else larges x := by
  unfold mapAt
  cases o with
  | none => rfl
  | some p =>
    by_cases hx : x = p
    · subst hx
      simp
    · simp only [upd_ne hx, Option.some.injEq]
      rw [if_neg fun he => hx he.symm]

theorem unlinkLarge_eq (s : State) (b : Nat) (la : LargeAlloc) :
    ∃ larges', unlinkLarge s b la = { s with
      larges := larges'
      largeList := if s.largeList = some b then la.next else s.largeList } ∧
      upd larges' b none = removedLarges s.larges b la := by
  refine ⟨mapAt (fun x => { x with prev := la.prev }) la.next
    (mapAt (fun x => { x with next := la.next }) la.prev s.larges), ?_, ?_⟩
  · unfold unlinkLarge mapAt
    cases la.prev <;> cases la.next <;> simp only <;> split <;> rfl
  · funext x
    unfold removedLarges
    by_cases hx : x = b
    · rw [hx, upd_same, if_pos rfl]
    · rw [upd_ne hx, if_neg hx, mapAt_apply, mapAt_apply]
      cases s.larges x with
      | none => simp
      | some y => split <;> split <;> rfl

section RemoveLarge

variable {larges : Nat → Option LargeAlloc} {b x : Nat} {la y : LargeAlloc}

theorem removedLarges_self : removedLarges larges b la b = none := if_pos rfl

theorem removedLarges_ne (hx : x ≠ b) (hy : larges x = some y) :
    removedLarges larges b la x = some { y with
      next := if la.prev = some x then la.next else y.next
      prev := if la.next = some x then la.prev else y.prev } := by
  unfold removedLarges
  rw [if_neg hx, hy]
  rfl

theorem removedLarges_old (hy : removedLarges larges b la x = some y) :
    x ≠ b ∧ ∃ y₀, larges x = some y₀ ∧ y.base = y₀.base ∧ y.size = y₀.size ∧
      y.userSize = y₀.userSize := by
  have hx : x ≠ b := by
    rintro rfl
    cases removedLarges_self.symm.trans hy
  refine ⟨hx, ?_⟩
  cases h₀ : larges x with
  | none =>
    unfold removedLarges at hy
    rw [if_neg hx, h₀] at hy
    cases hy
  | some y₀ =>
    cases (removedLarges_ne hx h₀).symm.trans hy
    exact ⟨y₀, rfl, rfl, rfl, rfl⟩

theorem removedLarges_has {z : Nat}
    (hz : ∃ y, removedLarges larges b la x = some y ∧ x ≤ z ∧ z < x + y.size) :
    (∃ y, larges x = some y ∧ x ≤ z ∧ z < x + y.size) ∧ x ≠ b := by
  obtain ⟨y, hy, hz⟩ := hz
  obtain ⟨hne, y₀, hy₀, -, hsz, -⟩ := removedLarges_old hy
  rw [hsz] at hz
  exact ⟨⟨y₀, hy₀, hz⟩, hne⟩

variable (la) in
theorem Region.of_removedLarges {segs : Nat → Option Segment} {tls : Nat → Option Tld} {ρ : Region}
    (hx : Region.Has c segs (removedLarges larges b la) tls ρ x) :
    Region.Has c segs larges tls ρ x ∧ ρ ≠ .large b := by
  cases ρ with
  | large b' =>
    obtain ⟨hx, hne⟩ := removedLarges_has hx
    exact ⟨hx, by simpa using hne⟩
  | seg b' => exact ⟨hx, by simp⟩
  | tld t => exact ⟨hx, by simp⟩
  | boot => exact ⟨hx, by simp⟩

end RemoveLarge

theorem LargeList.remove {larges : Nat → Option LargeAlloc} {head : Option Nat} {l : List Nat}
    (h : LargeList larges head l) {b : Nat} {la : LargeAlloc} (hb : larges b = some la) :
    LargeList (removedLarges larges b la) (if head = some b then la.next else head)
      (l.erase b) := by
  obtain ⟨hl, hmem⟩ := h
  have hbl : b ∈ l := (hmem b).mpr (by rw [hb]; rfl)
  have hnext : (larges b).bind LargeAlloc.next = la.next := by rw [hb]; rfl
  have hprev : (larges b).bind LargeAlloc.prev = la.prev := by rw [hb]; rfl
  refine ⟨?_, fun x => ?_⟩
  · rw [← hnext]
    refine hl.remove hbl (fun x hx hne => ?_) fun x hx hne => ?_
    · obtain ⟨y, hy⟩ := Option.isSome_iff_exists.mp ((hmem x).mp hx)
      simp only [hnext, hprev, removedLarges_ne hne hy, hy]
      rfl
    · obtain ⟨y, hy⟩ := Option.isSome_iff_exists.mp ((hmem x).mp hx)
      simp only [hnext, hprev, removedLarges_ne hne hy, hy]
      rfl
  · rw [hl.1.nodup.mem_erase_iff, hmem x]
    constructor
    · rintro ⟨hne, hx⟩
      obtain ⟨y, hy⟩ := Option.isSome_iff_exists.mp hx
      rw [removedLarges_ne hne hy]
      rfl
    · intro hx
      obtain ⟨y, hy⟩ := Option.isSome_iff_exists.mp hx
      obtain ⟨hne, y₀, hy₀, -⟩ := removedLarges_old hy
      exact ⟨hne, by rw [hy₀]; rfl⟩

theorem LargesOk.remove {larges : Nat → Option LargeAlloc} {head : Option Nat} {count : Nat}
    {user : Nat → Nat} (h : LargesOk c larges head count user) {b : Nat} {la : LargeAlloc}
    (hb : larges b = some la) :
    LargesOk c (removedLarges larges b la) (if head = some b then la.next else head)
      ((count + 2 ^ 64 - 1) % 2 ^ 64) user := by
  obtain ⟨l, hl, hmem, hlen⟩ := h.list
  obtain ⟨hl', hmem'⟩ := LargeList.remove ⟨hl, hmem⟩ hb
  refine ⟨fun {x y} hx => ?_, l.erase b, hl', hmem', ?_⟩
  · obtain ⟨-, y₀, hy₀, h₁, h₂, h₃⟩ := removedLarges_old hx
    have ho := h.each hy₀
    exact ⟨h₁.trans ho.base, ho.pos, ho.page, h₂ ▸ ho.size_page, h₂ ▸ ho.stop, ho.ptr_ge,
      h₂ ▸ ho.ptr_lt, by rw [h₂, h₃]; exact ho.fits, ho.al⟩
  · have hbl : b ∈ l := (hmem b).mpr (by rw [hb]; rfl)
    have hpos : 0 < l.length := List.length_pos_of_mem hbl
    have := h.length_lt hl.1.nodup fun b hb => (hmem b).mp hb
    rw [List.length_erase_of_mem hbl, hlen]
    omega

/-- The state after the header `la` at `b` was freed. -/
def freedLarge (c : Cfg) (s : State) (b : Nat) (la : LargeAlloc) : State :=
  { s with
    larges := removedLarges s.larges b la
    largeList := if s.largeList = some b then la.next else s.largeList
    largeAllocated := (s.largeAllocated + 2 ^ 64 - la.userSize) % 2 ^ 64
    largeAllocCount := (s.largeAllocCount + 2 ^ 64 - 1) % 2 ^ 64
    mapped := unmapRange c s.mapped la.base la.size
    mmapBytes := (s.mmapBytes + 2 ^ 64 - la.size) % 2 ^ 64 }

/-- `large_free` of a pointer for which `large_find` finds a header. -/
theorem largeFree_eq {p b : Nat} {la : LargeAlloc} (h0 : p ≠ 0)
    (hfind : largeFind s p = .ok (some b)) (hb : s.larges b = some la) (hbase : la.base ≠ 0)
    (hsize : 0 < la.size) : largeFree c s p = .ok (freedLarge c s b la) := by
  obtain ⟨larges', hun, hrem⟩ := unlinkLarge_eq s b la
  unfold largeFree freedLarge
  rw [if_neg h0, hfind]
  simp only [bind, Except.bind, hb, hun, osMunmap, munmap]
  rw [if_pos ⟨hbase, hsize⟩]
  simp only [hrem]

/-- Freeing a large block through its pointer. -/
theorem largeFree_spec (h : Inv c s G) {b : Nat} {la : LargeAlloc} (hb : s.larges b = some la) :
    ∃ s', largeFree c s (G.user b) = .ok s' ∧ Release c s G (G.user b) s' G ∧ LargeFrame s s' := by
  have hok := h.larges.each hb
  have hreg := hok.region hb
  have hge := hok.ptr_ge
  have hlt := hok.ptr_lt
  have hpos := hok.pos
  have hregions := layout_unmapRange h.regions hok.size_page
    (fun _ _ => Region.of_removedLarges (b := b) la) fun x hx => ⟨la, hb, hok.base ▸ hx⟩
  refine ⟨_, largeFree_eq (by omega) (h.largeFind_eq hreg.1) hb (by rw [hok.base]; omega)
    (by omega),
    ⟨{ h with regions := hregions, larges := h.larges.remove hb }, fun q k hq hne => ?_,
    fun k hq => ?_, fun q k hq => ?_⟩, rfl, rfl, rfl, rfl, rfl, rfl⟩
  · refine ⟨?_, fun _ _ _ => rfl⟩
    cases hq with
    | slab r hq => exact .slab r hq
    | @large b' y hy =>
      have hbb : b' ≠ b := by
        rintro rfl
        exact hne rfl
      exact .ofLarge (removedLarges_ne hbb hy) rfl rfl
  · -- no other block starts at the freed pointer
    rcases hq.split with ⟨r, hq, -⟩ | ⟨b', y, hy, hu, -⟩
    · exact (h.apart_of_regions (by simp) hreg (h.slab_region hq)).1 rfl
    · obtain ⟨hne, y₀, hy₀, -⟩ := removedLarges_old hy
      exact (h.apart_of_regions (by simpa using Ne.symm hne) hreg
        ((h.larges.each hy₀).region hy₀)).1 hu
  · cases hq with
    | slab r hq => exact .slab r hq
    | large hy =>
      obtain ⟨-, y₀, hy₀, -, -, hsz⟩ := removedLarges_old hy
      exact .ofLarge hy₀ rfl hsz.symm

end CustomMalloc

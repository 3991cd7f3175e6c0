import CustomMalloc.Inv.Large

/-!
# The large headers as a set of mappings

`LargeNodes c s l`: the headers are the nodes `l` of `large_list`, their mappings
are mapped and do not overlap. Nothing is said about the pointers the clients
hold, so it covers blocks of size 0, whose pointer is the end of their mapping, and
alignments that are no power of two: `header_space` is at least the header
whatever the mask is (`headerSpace_ge`).
-/

namespace CustomMalloc

open Lib.Words Lib.Bytes Lib.Chain Lib.Intervals Lib.Regions

variable {c : Cfg} {s s' : State} {larges : Nat → Option LargeAlloc} {head : Option Nat}
  {l : List Nat} {la : LargeAlloc} {b : Nat}

/-! ## Headers -/

/-- A header and its mapping. -/
structure HeaderOk (c : Cfg) (b : Nat) (la : LargeAlloc) : Prop where
  base : la.base = b
  pos : 0 < b
  page : c.osPage ∣ b
  size_page : c.osPage ∣ la.size
  stop : b + la.size < 2 ^ 64
  fits : 48 + la.userSize ≤ la.size

/-- `x` lies in the mapping of the header at `b`. -/
def InMapping (larges : Nat → Option LargeAlloc) (b x : Nat) : Prop :=
  ∃ la, larges b = some la ∧ b ≤ x ∧ x < b + la.size

/-- Every header is one. -/
def HeadersOk (c : Cfg) (larges : Nat → Option LargeAlloc) : Prop :=
  ∀ b la, larges b = some la → HeaderOk c b la

theorem HeadersOk.insert (h : HeadersOk c larges) (hok : HeaderOk c la.base la) :
    HeadersOk c (insertedLarges larges la head) := by
  intro b y hb
  by_cases hbb : b = la.base
  · subst hbb
    cases (insertedLarges_self larges la head).symm.trans hb
    exact ⟨rfl, hok.pos, hok.page, hok.size_page, hok.stop, hok.fits⟩
  · obtain ⟨y₀, hy₀, h₁, h₂, h₃⟩ := insertedLarges_old larges la head hbb hb
    have ho := h b y₀ hy₀
    exact ⟨h₁.trans ho.base, ho.pos, ho.page, h₂ ▸ ho.size_page, h₂ ▸ ho.stop,
      by rw [h₂, h₃]; exact ho.fits⟩

theorem HeadersOk.remove (h : HeadersOk c larges) : HeadersOk c (removedLarges larges b la) := by
  intro x y hx
  obtain ⟨-, y₀, hy₀, h₁, h₂, h₃⟩ := removedLarges_old hx
  have ho := h x y₀ hy₀
  exact ⟨h₁.trans ho.base, ho.pos, ho.page, h₂ ▸ ho.size_page, h₂ ▸ ho.stop,
    by rw [h₂, h₃]; exact ho.fits⟩

/-! ## Sums over the list -/

/-- A field of the header at `b`. -/
def fieldAt (f : LargeAlloc → Nat) (larges : Nat → Option LargeAlloc) (b : Nat) : Nat :=
  ((larges b).map f).getD 0

theorem fieldAt_of_some {f : LargeAlloc → Nat} (hb : larges b = some la) :
    fieldAt f larges b = f la := by
  unfold fieldAt
  rw [hb]
  rfl

/-- A field that is no link. -/
def LinkFree (f : LargeAlloc → Nat) : Prop :=
  ∀ (y : LargeAlloc) (n p : Option Nat), f { y with next := n, prev := p } = f y

/-- A new header adds its own value. -/
theorem sum_insertedLarges {f : LargeAlloc → Nat} (hf : LinkFree f) (hl : LargeList larges head l)
    (hnone : larges la.base = none) :
    ((la.base :: l).map (fieldAt f (insertedLarges larges la head))).sum =
      f la + (l.map (fieldAt f larges)).sum := by
  have hsame : l.map (fieldAt f (insertedLarges larges la head)) = l.map (fieldAt f larges) := by
    refine List.map_congr_left fun b hb => ?_
    obtain ⟨y, hy⟩ := Option.isSome_iff_exists.mp ((hl.2 b).mp hb)
    have hbb : b ≠ la.base := by
      rintro rfl
      cases hnone.symm.trans hy
    obtain ⟨pr, he, -⟩ := insertedLarges_ne larges la head hbb hy
    rw [fieldAt_of_some he, fieldAt_of_some hy]
    exact hf y y.next pr
  rw [List.map_cons, List.sum_cons, hsame, fieldAt_of_some (insertedLarges_self larges la head)]
  exact congrArg (· + _) (hf la head none)

/-- An unlinked header takes its value with it. -/
theorem sum_removedLarges {f : LargeAlloc → Nat} (hf : LinkFree f) (hl : LargeList larges head l)
    (hb : larges b = some la) :
    f la + ((l.erase b).map (fieldAt f (removedLarges larges b la))).sum =
      (l.map (fieldAt f larges)).sum := by
  have hbl : b ∈ l := (hl.2 b).mpr (by rw [hb]; rfl)
  have hsame : (l.erase b).map (fieldAt f (removedLarges larges b la)) =
      (l.erase b).map (fieldAt f larges) := by
    refine List.map_congr_left fun x hx => ?_
    obtain ⟨hne, hxl⟩ := (hl.1.1.nodup.mem_erase_iff).mp hx
    obtain ⟨y, hy⟩ := Option.isSome_iff_exists.mp ((hl.2 x).mp hxl)
    rw [fieldAt_of_some (removedLarges_ne hne hy), fieldAt_of_some hy]
    exact hf y _ _
  rw [hsame, ← fieldAt_of_some (f := f) hb]
  exact List.sum_map_erase (fieldAt f larges) hbl

theorem linkFree_size : LinkFree LargeAlloc.size := fun _ _ _ => rfl

theorem linkFree_userSize : LinkFree LargeAlloc.userSize := fun _ _ _ => rfl

/-! ## The nodes -/

/-- The headers are the nodes `l` of `large_list`; their mappings are mapped and apart. -/
structure LargeNodes (c : Cfg) (s : State) (l : List Nat) : Prop where
  each : HeadersOk c s.larges
  apart : Layout (Covers s.mapped) (InMapping s.larges)
  list : LargeList s.larges s.largeList l

theorem LargeNodes.initial (c : Cfg) : LargeNodes c (State.initial c) [] where
  each := fun b la hb => absurd hb (by simp [State.initial])
  apart := ⟨fun hx => absurd hx.choose_spec.1 (by simp [State.initial]),
    fun hx => absurd hx.choose_spec.1 (by simp [State.initial])⟩
  list := ⟨⟨rfl, trivial⟩, fun b => by simp [State.initial]⟩

/-- More memory is mapped. -/
theorem LargeNodes.osExt (h : LargeNodes c s l) (hos : OsExt s s') : LargeNodes c s' l := by
  obtain ⟨ans, mp, m, mb, rfl, hk⟩ := hos
  exact ⟨h.each, h.apart.mono (fun _ _ hx => hx) fun x hx => (hk x hx).1, h.list⟩

/-- A fresh mapping is at no header's address. -/
theorem LargeNodes.fresh (h : LargeNodes c s l) {n : Nat} (hn : 0 < n)
    (hf : FreshRegion s s' b n) : s.larges b = none := by
  by_contra hc
  obtain ⟨y, hy⟩ := Option.ne_none_iff_exists'.mp hc
  have hfits := (h.each b y hy).fits
  exact hf.fresh b (by omega) (by omega)
    (h.apart.backed (i := b) ⟨y, hy, by omega, by omega⟩)

theorem LargeNodes.head_ne (h : LargeNodes c s l) (hnone : s.larges b = none) :
    s.largeList ≠ some b := by
  intro hc
  have := (h.list.2 b).mp (h.list.1.head_mem hc)
  rw [hnone] at this
  cases this

theorem linkedLarge_eq (hne : s.largeList ≠ some la.base) : linkedLarge s la = { s with
    larges := insertedLarges s.larges la s.largeList
    largeList := some la.base
    largeAllocated := (s.largeAllocated + la.userSize) % 2 ^ 64
    largeAllocCount := (s.largeAllocCount + 1) % 2 ^ 64 } := by
  unfold linkedLarge
  rw [linkLarge_eq hne]

/-- `os_mmap_aligned` leaves the headers alone. -/
theorem OsExt.headers (hos : OsExt s s') : s'.larges = s.larges ∧ s'.largeList = s.largeList ∧
    s'.largeAllocated = s.largeAllocated ∧ s'.largeAllocCount = s.largeAllocCount := by
  obtain ⟨ans, mp, m, mb, rfl, -⟩ := hos
  exact ⟨rfl, rfl, rfl, rfl⟩

/-- A new header is linked in front. -/
theorem LargeNodes.link (h : LargeNodes c s l) (la : LargeAlloc) (hos : OsExt s s')
    (hf : FreshRegion s s' la.base la.size) (hok : HeaderOk c la.base la) :
    s'.larges la.base = none ∧ s'.largeList ≠ some la.base ∧
      LargeNodes c (linkedLarge s' la) (la.base :: l) := by
  have hfits := hok.fits
  have h' := h.osExt hos
  have hnone : s'.larges la.base = none := by
    rw [hos.headers.1]
    exact h.fresh (by omega) hf
  have hne := h'.head_ne hnone
  refine ⟨hnone, hne, ?_⟩
  rw [linkedLarge_eq hne]
  refine ⟨h'.each.insert hok, ?_, h'.list.insert hnone⟩
  refine hos.layout (k := la.base) hf h.apart fun b x hx => ?_
  rw [← hos.headers.1]
  exact insertedLarges_has hx

/-- A header is unlinked and its mapping goes away. -/
theorem LargeNodes.freed (h : LargeNodes c s l) (hb : s.larges b = some la) :
    LargeNodes c (freedLarge c s b la) (l.erase b) := by
  have hok := h.each b la hb
  refine ⟨h.each.remove, ?_, h.list.remove hb⟩
  exact layout_unmapRange h.apart hok.size_page (fun _ _ => removedLarges_has)
    fun x hx => ⟨la, hb, hok.base ▸ hx⟩

/-- Two mappings do not overlap. -/
theorem LargeNodes.disjoint (h : LargeNodes c s l) {b' : Nat} {la' : LargeAlloc}
    (hb : s.larges b = some la) (hb' : s.larges b' = some la') (hne : b ≠ b') :
    b + la.size ≤ b' ∨ b' + la'.size ≤ b := by
  have h₁ := (h.each b la hb).fits
  have h₂ := (h.each b' la' hb').fits
  exact h.apart.ranges_apart hne (by omega) (by omega) (fun x h₁ h₂ => ⟨la, hb, h₁, h₂⟩)
    fun x h₁ h₂ => ⟨la', hb', h₁, h₂⟩

theorem LargeNodes.get (h : LargeNodes c s l) (hb : b ∈ l) :
    ∃ la, s.larges b = some la ∧ HeaderOk c b la := by
  obtain ⟨la, hla⟩ := Option.isSome_iff_exists.mp ((h.list.2 b).mp hb)
  exact ⟨la, hla, h.each b la hla⟩

/-- The mappings have room in the address space. -/
theorem LargeNodes.sum_size_lt (h : LargeNodes c s l) :
    (l.map (fieldAt LargeAlloc.size s.larges)).sum < 2 ^ 64 := by
  have hsum := @sum_len_le_of_disjoint Nat id (fieldAt LargeAlloc.size s.larges) l.length l
    (2 ^ 64 - 1) rfl h.list.1.1.nodup (fun b hb => ?_) fun b hb b' hb' hne => ?_
  · omega
  · obtain ⟨la, hla, hok⟩ := h.get hb
    have h₁ := hok.fits
    have h₂ := hok.stop
    rw [fieldAt_of_some hla]
    simp only [id]
    omega
  · obtain ⟨la, hla, -⟩ := h.get hb
    obtain ⟨la', hla', -⟩ := h.get hb'
    rw [fieldAt_of_some hla, fieldAt_of_some hla']
    exact h.disjoint hla hla' hne

theorem LargeNodes.sum_userSize_lt (h : LargeNodes c s l) :
    (l.map (fieldAt LargeAlloc.userSize s.larges)).sum < 2 ^ 64 := by
  refine Nat.lt_of_le_of_lt (List.sum_le_sum fun b hb => ?_) h.sum_size_lt
  obtain ⟨la, hla, hok⟩ := h.get hb
  have := hok.fits
  rw [fieldAt_of_some hla, fieldAt_of_some hla]
  omega

/-- A header takes 48 bytes, so the count is far from a wrap. -/
theorem LargeNodes.length_lt (h : LargeNodes c s l) : l.length + 1 < 2 ^ 64 := by
  have hle : (l.map fun _ => 48).sum ≤ (l.map (fieldAt LargeAlloc.size s.larges)).sum := by
    refine List.sum_le_sum fun b hb => ?_
    obtain ⟨la, hla, hok⟩ := h.get hb
    have := hok.fits
    rw [fieldAt_of_some hla]
    omega
  rw [List.map_const', List.sum_replicate, Nat.nsmul_eq_mul] at hle
  have := h.sum_size_lt
  omega

/-! ## Finding and freeing -/

theorem LargeNodes.contains_iff (h : LargeNodes c s l) {x : Nat} :
    largeContains s x b = true ↔ InMapping s.larges b x := by
  unfold largeContains
  split
  next la hb =>
    have hok := h.each b la hb
    rw [hok.base, Nat.mod_eq_of_lt hok.stop, Bool.and_eq_true, decide_eq_true_eq, decide_eq_true_eq]
    constructor
    · intro hx
      exact ⟨la, hb, hx⟩
    · rintro ⟨la', hb', hx⟩
      cases hb.symm.trans hb'
      exact hx
  next hb =>
    constructor
    · intro hx
      cases hx
    · rintro ⟨la', hb', -⟩
      cases hb.symm.trans hb'

/-- The walk of `large_find` stops within `large_alloc_count` nodes. -/
theorem LargeNodes.largeFind (h : LargeNodes c s l) (hcount : s.largeAllocCount = l.length)
    (x : Nat) : largeFind s x = .ok (l.find? (largeContains s x)) := by
  unfold CustomMalloc.largeFind
  rw [findFrom_linked h.list.1.1 (Nat.le_of_eq hcount.symm)]

/-- `large_find` finds the one mapping that contains the pointer. -/
theorem LargeNodes.find_eq (h : LargeNodes c s l) {x : Nat} (hb : InMapping s.larges b x) :
    l.find? (largeContains s x) = some b := by
  have hbl : b ∈ l := (h.list.2 b).mpr (by
    obtain ⟨la, hla, -⟩ := hb
    rw [hla]
    rfl)
  cases hf : l.find? (largeContains s x) with
  | none => exact absurd (h.contains_iff.mpr hb) (List.find?_eq_none.mp hf b hbl)
  | some b' => rw [h.apart.apart (h.contains_iff.mp (List.find?_some hf)) hb]

theorem LargeNodes.find_none (h : LargeNodes c s l) {x : Nat}
    (hno : ∀ b, ¬ InMapping s.larges b x) : l.find? (largeContains s x) = none :=
  List.find?_eq_none.mpr fun b _ hc => hno b (h.contains_iff.mp hc)

/-- `large_free` of any pointer: the mapping that contains it goes, or nothing happens. -/
theorem LargeNodes.largeFree (h : LargeNodes c s l) (hcount : s.largeAllocCount = l.length)
    (x : Nat) :
    (∃ b la, s.larges b = some la ∧ InMapping s.larges b x ∧
      largeFree c s x = .ok (freedLarge c s b la)) ∨
    ((∀ b, ¬ InMapping s.larges b x) ∧ largeFree c s x = .ok s) := by
  by_cases hin : ∃ b, InMapping s.larges b x
  · obtain ⟨b, hb⟩ := hin
    obtain ⟨la, hla, h₁, h₂⟩ := hb
    have hok := h.each b la hla
    have hpos := hok.pos
    have hfits := hok.fits
    have hfind : CustomMalloc.largeFind s x = .ok (some b) := by
      rw [h.largeFind hcount, h.find_eq ⟨la, hla, h₁, h₂⟩]
    exact Or.inl ⟨b, la, hla, ⟨la, hla, h₁, h₂⟩,
      largeFree_eq (by omega) hfind hla (by rw [hok.base]; omega) (by omega)⟩
  · have hno : ∀ b, ¬ InMapping s.larges b x := fun b hb => hin ⟨b, hb⟩
    refine Or.inr ⟨hno, ?_⟩
    unfold CustomMalloc.largeFree
    split
    next => rfl
    next =>
      rw [h.largeFind hcount, h.find_none hno]
      rfl

/-! ## Allocating -/

/-- No computation of `large_alloc_aligned` or `os_mmap_aligned` wraps, for any alignment. -/
def LargeNoWrap (c : Cfg) (size alignment : Nat) : Prop :=
  48 + raisedAlign alignment - 1 < 2 ^ 64 ∧
  headerSpace (raisedAlign alignment) + size + c.osPage - 1 < 2 ^ 64 ∧
  (c.osPage < raisedAlign alignment →
    largeTotal c size (raisedAlign alignment) + raisedAlign alignment - 1 < 2 ^ 64)

instance (c : Cfg) (size alignment : Nat) : Decidable (LargeNoWrap c size alignment) :=
  inferInstanceAs (Decidable (_ ∧ _ ∧ (_ → _)))

theorem raisedAlign_pos (alignment : Nat) : 0 < raisedAlign alignment := by
  unfold raisedAlign
  split
  next => decide
  next h =>
    have : ¬ alignment < 16 := h
    omega

theorem LargeNoWrap.header {size alignment : Nat} (h : LargeNoWrap c size alignment) :
    48 ≤ headerSpace (raisedAlign alignment) :=
  (alignUp64_bounds (raisedAlign_pos alignment) h.1).1

theorem LargeNoWrap.total {size alignment : Nat} (h : LargeNoWrap c size alignment) :
    largeTotal c size (raisedAlign alignment) =
      alignUp c.osPage (headerSpace (raisedAlign alignment) + size) := by
  have hP := c.osPage_pos
  have hshift := c.pageShift_lt
  obtain ⟨-, hsum, -⟩ := h
  unfold largeTotal
  rw [Nat.mod_eq_of_lt (by omega)]
  exact alignUp64_eq (k := c.pageShift) (by omega) hsum

/-- The header of a mapping at `base`. -/
def largeHeader (c : Cfg) (base size alignment : Nat) : LargeAlloc where
  base := base
  size := largeTotal c size (raisedAlign alignment)
  userSize := size
  next := none
  prev := none

/-- What `large_alloc_aligned` does, from any state and for any alignment: the kernel
refuses; it maps at address 0, which counts as a refusal; or the new header is linked. -/
theorem largeAllocAligned_any {size alignment p : Nat} (hfit : LargeNoWrap c size alignment)
    (he : largeAllocAligned c s size alignment = .ok (p, s')) :
    (p = 0 ∧ ∃ rest, s' = { s with answers := rest }) ∨
    ∃ A base s₁, Granted c s (largeHeader c base size alignment).size A base s₁ ∧
      (base = 0 ∧ p = 0 ∧ s' = s₁ ∨
        HeaderOk c base (largeHeader c base size alignment) ∧
          p = base + headerSpace (raisedAlign alignment) ∧
          s' = linkedLarge s₁ (largeHeader c base size alignment)) := by
  have hhead := hfit.header
  have htot := hfit.total
  have hle := le_alignUp c.osPage_pos (headerSpace (raisedAlign alignment) + size)
  have hdvd : c.osPage ∣ largeTotal c size (raisedAlign alignment) := by
    rw [htot]
    exact dvd_alignUp _ _
  unfold largeAllocAligned at he
  simp only [show (if alignment < minAlign then minAlign else alignment) = raisedAlign alignment
    from rfl] at he
  rcases hm : osMmapAligned c s (largeTotal c size (raisedAlign alignment))
    (if raisedAlign alignment < c.osPage then c.osPage else raisedAlign alignment) with ⟨base, s₁⟩
  rw [hm] at he
  have hfits : AlignedFits c (largeTotal c size (raisedAlign alignment))
      (if raisedAlign alignment < c.osPage then c.osPage else raisedAlign alignment) := by
    intro hgt
    refine ⟨hdvd, ?_⟩
    split at hgt
    next => exact absurd hgt (Nat.lt_irrefl _)
    next hge =>
      rw [if_neg hge]
      exact hfit.2.2 hgt
  rcases osMmapAligned_any hfits hm with ⟨rfl, rest, rfl⟩ | hg
  · cases he
    exact Or.inl ⟨rfl, rest, rfl⟩
  · refine Or.inr ⟨_, base, s₁, hg, ?_⟩
    simp only at he
    split at he
    next h0 =>
      cases he
      exact Or.inl ⟨h0, rfl, rfl⟩
    split at he
    case isFalse => cases he
    next h0 _ =>
      cases he
      have hstop := hg.fresh.fits
      have hfit48 : headerSpace (raisedAlign alignment) + size ≤
          largeTotal c size (raisedAlign alignment) := by
        rw [htot]
        exact hle
      refine Or.inr ⟨⟨rfl, Nat.pos_of_ne_zero h0, hg.page, hdvd, hstop, ?_⟩,
        Nat.mod_eq_of_lt (by omega), rfl⟩
      show 48 + size ≤ largeTotal c size (raisedAlign alignment)
      omega

end CustomMalloc

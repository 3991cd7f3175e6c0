import CustomMalloc.Inv.SlabFrame
import CustomMalloc.Inv.Paths
import CustomMalloc.Lib.Relate

/-!
# Counters that make no difference

A call of the slab allocator writes the counters of a page (`used`, `local_free_count`,
`remote_free_count`) and, in a debug build, its bitmap, but nothing it does depends on
the counters, and the bitmap can only make it stop. So if a call returns, then so does
the same call of a build without the checks, from a state with other counters, with the
same result and the same state up to the counters again (`Recounted`).

`k r` is how many more slots of page `r` the second state counts as used; it does not
change.
-/

namespace CustomMalloc

open Lib.Words Lib.Bytes Lib.Chain Lib.Intervals Lib.Relate Lib.Post

/-- Another build of the same program. -/
def Cfg.withDebug (c : Cfg) (b : Bool) : Cfg := { c with debug := b }

/-- What is not read back. -/
structure Counters where
  used : Nat
  localFreeCount : Nat
  remoteFreeCount : Nat
  debugBitmap : Nat → Nat

def PageMeta.counters (p : PageMeta) : Counters :=
  ⟨p.used, p.localFreeCount, p.remoteFreeCount, p.debugBitmap⟩

/-- The page with other counters. -/
def PageMeta.recount (p : PageMeta) (x : Counters) : PageMeta :=
  { p with
    used := x.used
    localFreeCount := x.localFreeCount
    remoteFreeCount := x.remoteFreeCount
    debugBitmap := x.debugBitmap }

def State.setPages (s : State) (P : PageRef → PageMeta) : State := { s with pages := P }

/-- `x` counts `k` slots more as used. -/
def CountsMore (k : Nat) (p : PageMeta) (x : Counters) : Prop :=
  (p.used + k) % 2 ^ 16 = x.used % 2 ^ 16

/-- One more slot is used. -/
def Counters.take (x : Counters) : Counters := { x with used := (x.used + 1) % 2 ^ 16 }

theorem CountsMore.take {n : Nat} {p p' : PageMeta} {x : Counters} (h : CountsMore n p x)
    (hp : p'.used = (p.used + 1) % 2 ^ 16) : CountsMore n p' x.take := by
  have h : (p.used + n) % 2 ^ 16 = x.used % 2 ^ 16 := h
  show (p'.used + n) % 2 ^ 16 = (x.used + 1) % 2 ^ 16 % 2 ^ 16
  omega

/-- One slot less is used. -/
theorem CountsMore.give {n : Nat} {p p' : PageMeta} {x x' : Counters} (h : CountsMore n p x)
    (hp : p'.used = sub16 p.used 1) (hx : x'.used = sub16 x.used 1) : CountsMore n p' x' := by
  have h : (p.used + n) % 2 ^ 16 = x.used % 2 ^ 16 := h
  show (p'.used + n) % 2 ^ 16 = x'.used % 2 ^ 16
  rw [hp, hx]
  unfold sub16
  split <;> split <;> omega

/-- A slot leaves the local list. -/
def Counters.pop (x : Counters) : Counters :=
  { x.take with localFreeCount := sub16 x.localFreeCount 1 }

/-- The second state has other counters. Where more slots count as used, the page is active
and mapped, so that no new page or segment takes its place. -/
inductive Recounted (k : PageRef → Nat) (s : State) : State → Prop
  | mk (L : PageRef → Counters) (hu : ∀ r, CountsMore (k r) (s.pages r) (L r))
      (hk : ∀ r, k r ≠ 0 → (s.pages r).state = .active ∧ Covers s.mapped r.seg) :
      Recounted k s (s.setPages fun r => (s.pages r).recount (L r))

/-- The same value in recounted states. -/
def Recounts {α : Type} (k : PageRef → Nat) (x x₀ : α × State) : Prop :=
  x₀.1 = x.1 ∧ Recounted k x.2 x₀.2

variable {c : Cfg} {b : Bool} {k : PageRef → Nat} {s s' s₀ : State} {t : Nat} {r : PageRef}

/-! ## Functions that do not look at pages -/

section SetPages

variable (P : PageRef → PageMeta)

theorem mmap_setPages (s : State) (n : Nat) :
    mmap (c.withDebug b) (s.setPages P) n = ((mmap c s n).1, (mmap c s n).2.setPages P) := by
  unfold mmap
  rw [show (s.setPages P).answers = s.answers from rfl]
  cases s.answers with
  | nil => rfl
  | cons o rest =>
    cases o with
    | none => rfl
    | some a =>
      simp only
      rw [show canMap (c.withDebug b) (s.setPages P) a n = canMap c s a n from rfl]
      split
      next => rfl
      next => rfl

theorem osMmapAligned_setPages (s : State) (n al : Nat) :
    osMmapAligned (c.withDebug b) (s.setPages P) n al =
      ((osMmapAligned c s n al).1, (osMmapAligned c s n al).2.setPages P) := by
  unfold osMmapAligned
  rw [show (c.withDebug b).osPage = c.osPage from rfl]
  split
  next =>
    rw [mmap_setPages]
    rcases mmap c s n with ⟨o, s₁⟩
    cases o with
    | none => rfl
    | some p => rfl
  next =>
    simp only
    rw [mmap_setPages]
    rcases mmap c s ((n + al - 1) % 2 ^ 64) with ⟨o, s₁⟩
    cases o with
    | none => rfl
    | some p =>
      simp only
      split
      next =>
        split
        next => rfl
        next => rfl
      next =>
        split
        next => rfl
        next => rfl

theorem tldGet_setPages (s : State) (t : Nat) :
    tldGet (c.withDebug b) (s.setPages P) t = ((tldGet c s t).1, (tldGet c s t).2.setPages P) := by
  unfold tldGet
  rw [show (s.setPages P).tls t = s.tls t from rfl]
  cases s.tls t with
  | some tld => rfl
  | none =>
    simp only
    rw [show (c.withDebug b).osPage = c.osPage from rfl, osMmapAligned_setPages]
    rcases osMmapAligned c s c.osPage c.osPage with ⟨addr, s₁⟩
    simp only
    split
    next => rfl
    next => rfl

theorem arenaGet_setPages (s : State) (t : Nat) :
    arenaGet (c.withDebug b) (s.setPages P) t =
      (arenaGet c s t).map fun x => (x.1, x.2.setPages P) := by
  unfold arenaGet
  rw [tldGet_setPages]
  rcases tldGet c s t with ⟨o, s₁⟩
  simp only
  split
  next => rfl
  next =>
    rw [show (s₁.setPages P).arenaNext = s₁.arenaNext from rfl]
    split
    next => rfl
    next =>
      cases o with
      | some x => rfl
      | none => rfl

theorem tldStatStore_setPages (s : State) (t : Nat) (x : Tld) :
    tldStatStore (s.setPages P) t x = (tldStatStore s t x).map fun s' => s'.setPages P := by
  unfold tldStatStore tldStatFlush
  split
  next =>
    split
    next => rfl
    next => rfl
  next => rfl

theorem largeAlloc_setPages (s : State) (n : Nat) :
    largeAlloc (c.withDebug b) (s.setPages P) n =
      (largeAlloc c s n).map fun x => (x.1, x.2.setPages P) := by
  have hlink : ∀ (s : State) (la : LargeAlloc),
      linkLarge (s.setPages P) la = (linkLarge s la).setPages P := by
    intro s la
    unfold linkLarge
    rw [show (s.setPages P).largeList = s.largeList from rfl]
    cases s.largeList with
    | none => rfl
    | some x => rfl
  unfold largeAlloc largeAllocAligned
  simp only
  rw [show (c.withDebug b).osPage = c.osPage from rfl,
    show largeTotal (c.withDebug b) = largeTotal c from rfl, osMmapAligned_setPages]
  generalize osMmapAligned c s _ _ = y
  obtain ⟨base, s₁⟩ := y
  simp only [show headerMapped (s₁.setPages P) base = headerMapped s₁ base from rfl]
  split
  next => rfl
  split
  case isFalse => rfl
  next =>
    rw [hlink]
    rfl

theorem linkSegment_setPages (s : State) (a seg : Nat) :
    linkSegment (s.setPages P) a seg = (linkSegment s a seg).setPages P := by
  unfold linkSegment
  rw [show (s.setPages P).arenas = s.arenas from rfl]
  cases (s.arenas a).segments with
  | none => rfl
  | some x => rfl

end SetPages

/-- Collecting the remote frees moves the same slots. -/
theorem pageCollectRemote_recount (m : Mem) (p : PageMeta) (x : Counters) :
    Into (fun y y₀ => ∃ x', x'.used = x.used ∧ y.2.used = p.used ∧ y.2.state = p.state ∧
        y₀ = (y.1, y.2.recount x'))
      (pageCollectRemote m p) (pageCollectRemote m (p.recount x)) := by
  unfold pageCollectRemote
  rw [show (p.recount x).remoteFree = p.remoteFree from rfl,
    show (p.recount x).capacity = p.capacity from rfl]
  simp only
  split
  next => exact into_ok ⟨x, rfl, rfl, rfl, rfl⟩
  next =>
    split
    next => exact into_error
    next tail count _ =>
      exact into_ok ⟨{ x with
        localFreeCount := (x.localFreeCount + count) % 2 ^ 16
        remoteFreeCount := sub16 x.remoteFreeCount count }, rfl, rfl, rfl, rfl⟩

/-- The bitmap check lets the other build pass. -/
theorem markFreed_recount (p : PageMeta) (x : Counters) (ptr : Nat) :
    Into (fun q q₀ => ∃ bm, q = { p with debugBitmap := bm } ∧ q₀ = p.recount x)
      (markFreed c p ptr) (markFreed (c.withDebug false) (p.recount x) ptr) := by
  intro q he
  obtain ⟨bm, hq⟩ := markFreed_eq he
  exact ⟨p.recount x, rfl, bm, hq, rfl⟩

namespace Recounted

theorem eq (h : Recounted k s s₀) : ∃ P, s₀ = s.setPages P := by
  obtain ⟨L, -, -⟩ := h
  exact ⟨_, rfl⟩

theorem held (h : Recounted k s s₀) (h0 : k r ≠ 0) :
    (s.pages r).state = .active ∧ Covers s.mapped r.seg := by
  obtain ⟨L, -, hk⟩ := h
  exact hk r h0

theorem page (h : Recounted k s s₀) (r : PageRef) :
    ∃ x, s₀.pages r = (s.pages r).recount x ∧ CountsMore (k r) (s.pages r) x := by
  obtain ⟨L, hu, -⟩ := h
  exact ⟨L r, rfl, hu r⟩

/-- Steps that leave the pages alone and unmap nothing. -/
theorem same {P : PageRef → PageMeta} {w : State} (h : Recounted k s (s.setPages P))
    (hp : w.pages = s.pages) (hm : ∀ x, Covers s.mapped x → Covers w.mapped x) :
    Recounted k w (w.setPages P) := by
  generalize he : s.setPages P = s₁ at h
  obtain ⟨L, hu, hk⟩ := h
  have hP : P = fun r => (w.pages r).recount (L r) := by
    rw [hp]
    exact congrArg State.pages he
  rw [hP]
  refine .mk L (fun r => ?_) fun r h0 => ?_
  · rw [hp]
    exact hu r
  · rw [hp]
    exact ⟨(hk r h0).1, hm _ (hk r h0).2⟩

theorem setPage (h : Recounted k s s₀) {p : PageMeta} {x : Counters} (hx : CountsMore (k r) p x)
    (hs : p.state = (s.pages r).state ∨ p.state = .active) :
    Recounted k (s.setPage r p) (s₀.setPage r (p.recount x)) := by
  obtain ⟨L, hu, hk⟩ := h
  have hpages : upd (fun q => (s.pages q).recount (L q)) r (p.recount x) =
      fun q => (upd s.pages r p q).recount (upd L r x q) := by
    funext q
    by_cases hq : q = r
    · rw [hq, upd_same, upd_same, upd_same]
    · rw [upd_ne hq, upd_ne hq, upd_ne hq]
  have hmk : Recounted k (s.setPage r p)
      ((s.setPage r p).setPages fun q => (upd s.pages r p q).recount (upd L r x q)) := by
    refine .mk _ (fun q => ?_) fun q h0 => ?_
    · show CountsMore (k q) (upd s.pages r p q) (upd L r x q)
      by_cases hq : q = r
      · rw [hq, upd_same, upd_same]
        exact hx
      · rw [upd_ne hq, upd_ne hq]
        exact hu q
    · refine ⟨?_, (hk q h0).2⟩
      show (upd s.pages r p q).state = .active
      by_cases hq : q = r
      · subst hq
        rw [upd_same]
        rcases hs with hs | hs
        · exact hs.trans (hk q h0).1
        · exact hs
      · rw [upd_ne hq]
        exact (hk q h0).1
  rw [← hpages] at hmk
  exact hmk

/-- A page that keeps its number of used slots. -/
theorem setPage_same (h : Recounted k s s₀) {f : PageMeta → PageMeta}
    (hu : ∀ p, (f p).used = p.used) (hs : ∀ p, (f p).state = p.state)
    (hf : ∀ p x, f (p.recount x) = (f p).recount x) :
    Recounted k (s.setPage r (f (s.pages r))) (s₀.setPage r (f (s₀.pages r))) := by
  obtain ⟨x, hx, hmore⟩ := h.page r
  rw [hx, hf]
  refine h.setPage ?_ (Or.inl (hs _))
  unfold CountsMore
  rw [hu]
  exact hmore

theorem setArena (h : Recounted k s s₀) (a : Nat) (x : Arena) :
    Recounted k (s.setArena a x) (s₀.setArena a x) := by
  obtain ⟨P, rfl⟩ := h.eq
  exact h.same (w := s.setArena a x) rfl fun _ hx => hx

theorem setTld (h : Recounted k s s₀) (t : Nat) (x : Tld) :
    Recounted k (s.setTld t x) (s₀.setTld t x) := by
  obtain ⟨P, rfl⟩ := h.eq
  exact h.same (w := s.setTld t x) rfl fun _ hx => hx

theorem setSegs (h : Recounted k s s₀) (f : Nat → Option Segment) :
    Recounted k { s with segs := f } { s₀ with segs := f } := by
  obtain ⟨P, rfl⟩ := h.eq
  exact h.same (w := { s with segs := f }) rfl fun _ hx => hx

theorem setMem (h : Recounted k s s₀) (m : Mem) :
    Recounted k { s with mem := m } { s₀ with mem := m } := by
  obtain ⟨P, rfl⟩ := h.eq
  exact h.same (w := { s with mem := m }) rfl fun _ hx => hx

/-! ## Threads -/

theorem tldGet (h : Recounted k s s₀) (t : Nat) :
    Recounts k (tldGet c s t) (tldGet (c.withDebug b) s₀ t) := by
  obtain ⟨P, rfl⟩ := h.eq
  rw [tldGet_setPages]
  have hpages : CustomMalloc.tldGet c s t = ((CustomMalloc.tldGet c s t).1,
      (CustomMalloc.tldGet c s t).2.setPages s.pages) := tldGet_setPages (b := c.debug) s.pages s t
  exact ⟨rfl, h.same (congrArg (fun x => x.2.pages) hpages)
    (tldGet_closed (c := c) (largeKept_closed t).toFreeClosed s).1.mapped⟩

theorem arenaGet (h : Recounted k s s₀) (t : Nat) :
    Into (Recounts k) (arenaGet c s t) (arenaGet (c.withDebug b) s₀ t) := by
  obtain ⟨P, rfl⟩ := h.eq
  rintro ⟨a, s'⟩ he
  have hpages : (CustomMalloc.arenaGet c s t) = (CustomMalloc.arenaGet c s t).map fun x =>
      (x.1, x.2.setPages s.pages) := arenaGet_setPages (b := c.debug) s.pages s t
  rw [he] at hpages
  have hclosed := ensures_elim (arenaGet_closed (c := c) (largeKept_closed t) s) he
  refine ⟨(a, s'.setPages P), by rw [arenaGet_setPages, he]; rfl, rfl, h.same ?_ hclosed.mapped⟩
  exact congrArg (fun x : Nat × State => x.2.pages) (Except.ok.inj hpages)

theorem tldStatStore (h : Recounted k s s₀) (x : Tld) :
    Into (Recounted k) (tldStatStore s t x) (tldStatStore s₀ t x) := by
  obtain ⟨P, rfl⟩ := h.eq
  intro s' he
  refine ⟨s'.setPages P, by rw [tldStatStore_setPages, he]; rfl, ?_⟩
  rcases tldStatStore_cases he with ⟨-, rfl⟩ | ⟨a, -, rfl⟩
  · exact h.same rfl fun _ hx => hx
  · exact h.same rfl fun _ hx => hx

/-! ## Slots -/

theorem takeSlot (h : Recounted k s s₀) {p : PageMeta} {x : Counters} (hx : CountsMore (k r) p x)
    (hs : p.state = (s.pages r).state) (tld : Tld) (slot : Nat) :
    Into (Recounted k) (takeSlot c s t tld r p slot)
      (takeSlot (c.withDebug false) s₀ t tld r (p.recount x) slot) := by
  intro s' he
  obtain ⟨p', hm, he⟩ := bind_eq_ok he
  obtain ⟨bm, rfl⟩ := markAllocated_eq hm
  have hset : Recounted k (s.setPage r { p with debugBitmap := bm })
      (s₀.setPage r (p.recount x)) :=
    h.setPage (p := { p with debugBitmap := bm }) hx (Or.inl hs)
  exact hset.tldStatStore _ s' he

theorem arenaCredit (h : Recounted k s s₀) (a n : Nat) :
    Recounted k (arenaCredit s a n) (arenaCredit s₀ a n) := by
  obtain ⟨P, rfl⟩ := h.eq
  exact h.same (w := CustomMalloc.arenaCredit s a n) rfl fun _ hx => hx

theorem arenaBump (h : Recounted k s s₀) (a : Nat) (r : PageRef) :
    Into (Recounts k) (arenaBump c s a r) (arenaBump (c.withDebug false) s₀ a r) := by
  obtain ⟨x, hx, hmore⟩ := h.page r
  rintro ⟨slot, s'⟩ he
  obtain ⟨p', hm, he⟩ := bind_eq_ok he
  obtain ⟨bm, rfl⟩ := markAllocated_eq hm
  cases he
  have hset := h.setPage (p := { bumpSlot (s.pages r) with debugBitmap := bm }) (x := x.take)
    (hmore.take rfl) (Or.inl rfl)
  unfold CustomMalloc.arenaBump
  rw [hx]
  exact ⟨_, rfl, rfl, hset.arenaCredit a _⟩

/-! ## Pages and segments -/

theorem segmentAllocPage (h : Recounted k s s₀) (seg bin : Nat) :
    Recounts k (segmentAllocPage s seg bin) (segmentAllocPage s₀ seg bin) := by
  have hfind : unusedPage s₀ seg = unusedPage s seg := by
    obtain ⟨L, -, -⟩ := h
    rfl
  obtain ⟨P, rfl⟩ := h.eq
  unfold CustomMalloc.segmentAllocPage
  rw [hfind, show (s.setPages P).segs = s.segs from rfl]
  split
  next g i hg hi =>
    obtain ⟨x, hx, -⟩ := h.page ⟨seg, i⟩
    -- an unused page has no slots to miscount
    have hzero : k ⟨seg, i⟩ = 0 := by
      by_contra h0
      have hact := (h.held h0).1
      rw [(unusedPage_some hi).2.2] at hact
      cases hact
    simp only
    rw [hx]
    have hset := h.setPage (r := ⟨seg, i⟩)
      (p := pageInit (s.pages ⟨seg, i⟩) seg g.arena i bin (binToSize sizeTables bin))
      (x := (pageInit (s.pages ⟨seg, i⟩) seg g.arena i bin (binToSize sizeTables bin)).counters)
      (by rw [hzero]; rfl) (Or.inr rfl)
    exact ⟨rfl, hset.setSegs _⟩
  next => exact ⟨rfl, h⟩

theorem linkSegment (h : Recounted k s s₀) (a seg : Nat) :
    Recounted k (linkSegment s a seg) (linkSegment s₀ a seg) := by
  obtain ⟨P, rfl⟩ := h.eq
  have hlink : ∀ s : State, (CustomMalloc.linkSegment s a seg).pages = s.pages ∧
      (CustomMalloc.linkSegment s a seg).mapped = s.mapped := by
    intro s
    unfold CustomMalloc.linkSegment
    cases (s.arenas a).segments with
    | none => exact ⟨rfl, rfl⟩
    | some x => exact ⟨rfl, rfl⟩
  rw [linkSegment_setPages]
  exact h.same (hlink s).1 fun x hx => by rw [(hlink s).2]; exact hx

/-- A new segment lies where nothing was mapped, so none of its pages is miscounted. -/
theorem segmentCreate (h : Recounted k s s₀) (a : Nat) :
    Recounts k (segmentCreate c s a) (segmentCreate (c.withDebug b) s₀ a) := by
  rcases he : CustomMalloc.segmentCreate c s a with ⟨seg, s'⟩
  have hspec := segmentCreate_spec he
  rcases hm : osMmapAligned c s segmentSize segmentSize with ⟨base, s₁⟩
  have hp : s₁.pages = s.pages := by
    have hpages : CustomMalloc.osMmapAligned c s segmentSize segmentSize =
        ((CustomMalloc.osMmapAligned c s segmentSize segmentSize).1,
          (CustomMalloc.osMmapAligned c s segmentSize segmentSize).2.setPages s.pages) :=
      osMmapAligned_setPages (b := c.debug) s.pages s segmentSize segmentSize
    rw [hm] at hpages
    exact congrArg (fun x => x.2.pages) hpages
  obtain ⟨L, hu, hk⟩ := h
  unfold CustomMalloc.segmentCreate at he ⊢
  rw [osMmapAligned_setPages]
  rw [hm] at he ⊢
  simp only at he ⊢
  split at he
  next h0 =>
    cases he
    rw [if_pos h0]
    obtain ⟨-, hos⟩ := hspec.resolve_right fun hr => hr.1 rfl
    exact ⟨rfl, same (.mk L hu hk) hp hos.largeKept.mapped⟩
  next h0 =>
    obtain ⟨rfl, rfl⟩ := Prod.mk.inj he
    rw [if_neg h0]
    obtain ⟨-, s₂, hos, hf, -, hs'⟩ := hspec.resolve_left fun hl => h0 hl.1
    have hmapped : ∀ x, Covers s.mapped x → Covers s₁.mapped x := by
      have hs : s₁.mapped = s₂.mapped := (congrArg State.mapped hs' :)
      rw [hs]
      exact hos.largeKept.mapped
    have hfresh : ∀ r, k r ≠ 0 → r.seg ≠ base := by
      rintro r hr rfl
      exact hf.fresh r.seg (Nat.le_refl _) (by omega) (hk r hr).2
    have hpages : (fun r : PageRef =>
          if r.seg = base then freshPage base a r.idx else (s.pages r).recount (L r)) =
        fun r => (if r.seg = base then freshPage base a r.idx else s₁.pages r).recount
          (if r.seg = base then (freshPage base a r.idx).counters else L r) := by
      funext r
      rw [hp]
      split
      next => rfl
      next => rfl
    have hmk : Recounted k _ _ := .mk (k := k) (s := { s₁ with
        segs := upd s₁.segs base (some { pagesUsed := 0, arena := a, next := none, prev := none })
        pages := fun r => if r.seg = base then freshPage base a r.idx else s₁.pages r
        segmentRegistry := segmentRegister s₁.segmentRegistry base })
      (fun r => if r.seg = base then (freshPage base a r.idx).counters else L r) (fun r => ?_)
      fun r hr => ?_
    · refine ⟨rfl, ?_⟩
      simp only [← hpages] at hmk
      exact hmk
    · simp only [hp]
      split
      next hr =>
        have : k r = 0 := by
          by_contra h0
          exact hfresh r h0 hr
        rw [this]
        rfl
      next => exact hu r
    · simp only [hp, if_neg (hfresh r hr)]
      exact ⟨(hk r hr).1, hmapped _ (hk r hr).2⟩

theorem arenaNewPage (h : Recounted k s s₀) (a bin : Nat) :
    Into (Recounts k) (arenaNewPage c s a bin) (arenaNewPage (c.withDebug b) s₀ a bin) := by
  have hfind : findFrom (fun b => (s₀.segs b).bind Segment.next)
      (fun b => (unusedPage s₀ b).isSome) walkBound (s₀.arenas a).segments =
      findFrom (fun b => (s.segs b).bind Segment.next) (fun b => (unusedPage s b).isSome)
        walkBound (s.arenas a).segments := by
    obtain ⟨L, -, -⟩ := h
    rfl
  unfold CustomMalloc.arenaNewPage
  rw [hfind]
  split
  next => exact into_error
  next seg _ => exact into_ok (h.segmentAllocPage seg bin)
  next =>
    obtain ⟨h₁, h₂⟩ := h.segmentCreate (c := c) (b := b) a
    generalize CustomMalloc.segmentCreate c s a = x at h₁ h₂
    generalize CustomMalloc.segmentCreate (c.withDebug b) s₀ a = x₀ at h₁ h₂
    obtain ⟨seg, s₁⟩ := x
    obtain ⟨seg₀, s₂⟩ := x₀
    obtain rfl : seg₀ = seg := h₁
    simp only
    split
    next => exact into_ok ⟨rfl, h₂⟩
    next => exact into_ok ((h₂.linkSegment a seg₀).segmentAllocPage seg₀ bin)

theorem binInsertPage (h : Recounted k s s₀) (a : Nat) (r : PageRef) :
    Recounted k (binInsertPage s a r) (binInsertPage s₀ a r) := by
  have hbin : (s₀.pages r).binIdx = (s.pages r).binIdx := by
    obtain ⟨L, -, -⟩ := h
    rfl
  obtain ⟨P, rfl⟩ := h.eq
  unfold CustomMalloc.binInsertPage
  rw [hbin, show (s.setPages P).arenas = s.arenas from rfl]
  simp only
  have h₁ := h.setPage_same (r := r)
    (f := fun p => { p with prev := none, next := (s.arenas a).bins (s.pages r).binIdx })
    (fun _ => rfl) (fun _ => rfl) fun _ _ => rfl
  split
  next q _ =>
    have h₂ := h₁.setPage_same (r := q) (f := fun p => { p with prev := some r })
      (fun _ => rfl) (fun _ => rfl) fun _ _ => rfl
    exact h₂.setArena a _
  next => exact h₁.setArena a _

theorem arenaAlloc (h : Recounted k s s₀) (a bin : Nat) :
    Into (Recounts k) (arenaAlloc c s a bin) (arenaAlloc (c.withDebug false) s₀ a bin) := by
  have hfind : findFrom (fun r => (s₀.pages r).next) (scanTest s₀) walkBound
      ((s₀.arenas a).bins bin) =
      findFrom (fun r => (s.pages r).next) (scanTest s) walkBound ((s.arenas a).bins bin) := by
    obtain ⟨L, -, -⟩ := h
    rfl
  have hbump : ∀ {s s₀ : State} (r : PageRef), Recounted k s s₀ →
      Into (Recounts k)
        (CustomMalloc.arenaBump c s a r >>= fun x => .ok ((x.1, true), x.2))
        (CustomMalloc.arenaBump (c.withDebug false) s₀ a r >>=
          fun x => .ok ((x.1, true), x.2)) := by
    intro s s₀ r h
    refine into_bind (h.arenaBump a r) fun x x₀ hx => into_ok ⟨?_, hx.2⟩
    rw [hx.1]
  unfold CustomMalloc.arenaAlloc
  rw [hfind]
  split
  next => exact into_error
  next r _ => exact hbump r h
  next =>
    refine into_bind (h.arenaNewPage a bin) ?_
    intro x x₀ hx
    obtain ⟨o, s₁⟩ := x
    obtain ⟨o₀, s₂⟩ := x₀
    obtain ⟨h₁, h₂⟩ := hx
    obtain rfl : o₀ = o := h₁
    cases o₀ with
    | none => exact into_ok ⟨rfl, h₂⟩
    | some r => exact hbump r (h₂.binInsertPage a r)

/-! ## Allocation -/

theorem claimPage (h : Recounted k s s₀) (tld : Tld) (bin slot : Nat) :
    Recounted k (claimPage s t bin slot tld) (claimPage s₀ t bin slot tld) := by
  have hpage : ptrToPage s₀ slot = ptrToPage s slot ∧
      ∀ r, (s₀.pages r).ownerTid = (s.pages r).ownerTid := by
    obtain ⟨L, -, -⟩ := h
    exact ⟨rfl, fun _ => rfl⟩
  unfold CustomMalloc.claimPage
  rw [hpage.1]
  split
  next => exact h
  next r _ =>
    rw [hpage.2]
    split
    next =>
      have hset := h.setPage_same (r := r) (f := fun p => { p with ownerTid := tld.threadId })
        (fun _ => rfl) (fun _ => rfl) fun _ _ => rfl
      exact hset.setTld t _
    next =>
      split
      next => exact h.setTld t _
      next => exact h

theorem slowAlloc (h : Recounted k s s₀) (bin : Nat) (hasTld : Bool) :
    Into (Recounts k) (slowAlloc c s t bin hasTld)
      (slowAlloc (c.withDebug false) s₀ t bin hasTld) := by
  unfold CustomMalloc.slowAlloc
  refine into_bind (h.arenaGet t) ?_
  intro x x₀ hx
  obtain ⟨a, s₁⟩ := x
  obtain ⟨a₀, s₂⟩ := x₀
  obtain ⟨ha, h₁⟩ := hx
  obtain rfl : a₀ = a := ha
  refine into_bind (h₁.arenaAlloc a₀ bin) ?_
  intro x x₀ hx
  obtain ⟨⟨slot, zeroed⟩, s₃⟩ := x
  obtain ⟨⟨slot₀, zeroed₀⟩, s₄⟩ := x₀
  obtain ⟨hres, h₂⟩ := hx
  obtain ⟨rfl, rfl⟩ : slot₀ = slot ∧ zeroed₀ = zeroed := Prod.mk.inj hres
  have htls : s₄.tls = s₃.tls := by
    obtain ⟨P, rfl⟩ := h₂.eq
    rfl
  simp only
  rw [htls]
  split
  next tld _ _ => exact into_ok ⟨rfl, h₂.claimPage tld bin slot₀⟩
  next => exact into_ok ⟨rfl, h₂⟩

theorem cachedAlloc (h : Recounted k s s₀) (tld : Tld) (bin : Nat) (r : PageRef) :
    Into (Recounts k) (cachedAlloc c s t tld bin r)
      (cachedAlloc (c.withDebug false) s₀ t tld bin r) := by
  obtain ⟨x, hx, hmore⟩ := h.page r
  have hmem : s₀.mem = s.mem := by
    obtain ⟨P, rfl⟩ := h.eq
    rfl
  have htake : ∀ {s s₀ : State} {p : PageMeta} {x : Counters} (slot : Nat) (z : Bool),
      Recounted k s s₀ → CountsMore (k r) p x → p.state = (s.pages r).state →
      Into (Recounts k)
        (CustomMalloc.takeSlot c s t tld r p slot >>= fun s => .ok (some (slot, z), s))
        (CustomMalloc.takeSlot (c.withDebug false) s₀ t tld r (p.recount x) slot >>=
          fun s => .ok (some (slot, z), s)) := by
    intro s s₀ p x slot z h hx hs
    exact into_bind (h.takeSlot hx hs tld slot) fun s' s₀' hs' => into_ok ⟨rfl, hs'⟩
  unfold CustomMalloc.cachedAlloc
  rw [hx, hmem]
  simp only
  split
  next hloc =>
    rw [if_pos (show ((s.pages r).recount x).localFree ≠ 0 from hloc)]
    exact htake (x := x.pop) _ _ h (hmore.take rfl) rfl
  next hloc =>
    rw [if_neg (show ¬ ((s.pages r).recount x).localFree ≠ 0 from hloc)]
    split
    next hlt =>
      rw [if_pos (show ((s.pages r).recount x).bumpOffset <
        ((s.pages r).recount x).bumpEnd from hlt)]
      exact htake (x := x.take) _ _ h (hmore.take rfl) rfl
    next hlt =>
      rw [if_neg (show ¬ ((s.pages r).recount x).bumpOffset <
        ((s.pages r).recount x).bumpEnd from hlt)]
      refine into_bind (pageCollectRemote_recount s.mem (s.pages r) x) ?_
      intro y y₀ hy
      obtain ⟨m, p⟩ := y
      obtain ⟨x', hu, hused, hstate, rfl⟩ := hy
      have hmore' : CountsMore (k r) p x' := by
        unfold CountsMore
        rw [hu, show p.used = _ from hused]
        exact hmore
      have h' : Recounted k { s.setPage r p with mem := m }
          { s₀.setPage r (p.recount x') with mem := m } :=
        (h.setPage hmore' (Or.inl hstate)).setMem m
      simp only
      split
      next hne =>
        rw [if_pos (show (p.recount x').localFree ≠ 0 from hne)]
        exact htake (x := x'.pop) _ _ h' (hmore'.take rfl)
          (show p.state = (upd s.pages r p r).state by rw [upd_same])
      next hne =>
        rw [if_neg (show ¬ (p.recount x').localFree ≠ 0 from hne)]
        exact into_ok ⟨rfl, h'.setTld t _⟩

theorem largeAlloc (hos : 16 ≤ c.osPage) (h : Recounted k s s₀) (n : Nat) :
    Into (Recounts k) (largeAlloc c s n) (largeAlloc (c.withDebug b) s₀ n) := by
  obtain ⟨P, rfl⟩ := h.eq
  rw [largeAlloc_setPages]
  rcases he : CustomMalloc.largeAlloc c s n with e | ⟨p, s'⟩
  · exact into_error
  have hpages : s'.pages = s.pages := by
    obtain ⟨_, _, _, _, _, _, _, _, rfl⟩ := largeAlloc_form he
    rfl
  refine into_ok ⟨rfl, h.same hpages fun x hx => ?_⟩
  have hlink : ∀ (s : State) (la : LargeAlloc), (linkLarge s la).mapped = s.mapped := by
    intro s la
    unfold linkLarge
    cases s.largeList with
    | none => rfl
    | some y => rfl
  unfold CustomMalloc.largeAlloc largeAllocAligned at he
  simp only [if_neg (Nat.lt_irrefl minAlign)] at he
  have hal : (if minAlign < c.osPage then c.osPage else minAlign) = c.osPage := by
    have : minAlign = 16 := rfl
    split <;> omega
  rw [hal] at he
  rcases hm : osMmapAligned c s (largeTotal c n minAlign) c.osPage with ⟨base, s₁⟩
  rw [hm] at he
  have hmapped : Covers s₁.mapped x := by
    rcases osMmapAligned_any (fun hlt => absurd hlt (Nat.lt_irrefl _)) hm with ⟨-, rest, rfl⟩ | hg
    · exact hx
    · exact hg.ext.largeKept.mapped x hx
  simp only at he
  split at he
  next =>
    obtain ⟨-, rfl⟩ := Prod.mk.inj (Except.ok.inj he)
    exact hmapped
  split at he
  case isFalse => cases he
  next =>
    obtain ⟨-, rfl⟩ := Prod.mk.inj (Except.ok.inj he)
    show Covers (linkLarge s₁ _).mapped x
    rw [hlink]
    exact hmapped

theorem slabAllocInner (hos : 16 ≤ c.osPage) (h : Recounted k s s₀) (t size : Nat) :
    Into (Recounts k) (slabAllocInner c s t size)
      (slabAllocInner (c.withDebug false) s₀ t size) := by
  have hlarge : ∀ n, Into (Recounts k)
      (CustomMalloc.largeAlloc c s n >>= fun x => .ok ((x.1, false), x.2))
      (CustomMalloc.largeAlloc (c.withDebug false) s₀ n >>= fun x => .ok ((x.1, false), x.2)) :=
    fun n => into_bind (h.largeAlloc (b := false) hos n) fun x y hx =>
      into_ok ⟨by rw [hx.1], hx.2⟩
  unfold CustomMalloc.slabAllocInner
  generalize (if size = 0 then 1 else size) = n
  simp only
  split
  next => exact hlarge n
  next =>
  split
  next => exact hlarge n
  next =>
    obtain ⟨h₁, h₂⟩ := h.tldGet (c := c) (b := false) t
    generalize CustomMalloc.tldGet c s t = y at h₁ h₂
    generalize CustomMalloc.tldGet (c.withDebug false) s₀ t = y₀ at h₁ h₂
    obtain ⟨o, s₁⟩ := y
    obtain ⟨o₀, s₂⟩ := y₀
    obtain rfl : o₀ = o := h₁
    cases o₀ with
    | none => exact h₂.slowAlloc _ false
    | some tld =>
      simp only
      split
      next => exact h₂.slowAlloc _ true
      next r _ =>
        have hstate : (s₂.pages r).state = (s₁.pages r).state := by
          obtain ⟨L, -, -⟩ := h₂
          rfl
        rw [hstate]
        split
        next =>
          refine into_bind (h₂.cachedAlloc tld _ r) ?_
          intro y y₀ hy
          obtain ⟨found, s₃⟩ := y
          obtain ⟨found₀, s₄⟩ := y₀
          obtain ⟨h₃, h₄⟩ := hy
          obtain rfl : found₀ = found := h₃
          cases found₀ with
          | none => exact h₄.slowAlloc _ true
          | some x => exact into_ok ⟨rfl, h₄⟩
        next => exact h₂.slowAlloc _ true

/-! ## Freeing -/

theorem freeLocal (h : Recounted k s s₀) {p : PageMeta} {x : Counters} (hx : CountsMore (k r) p x)
    (hs : p.state = (s.pages r).state) (tld : Tld) (ptr : Nat) :
    Into (Recounted k) (freeLocal s t tld r p ptr) (freeLocal s₀ t tld r (p.recount x) ptr) := by
  have hmem : s₀.mem = s.mem := by
    obtain ⟨P, rfl⟩ := h.eq
    rfl
  have hset := (h.setPage (r := r) (p := (pageFreeSlotLocal s.mem p ptr).2) (x := { x with
      localFreeCount := (x.localFreeCount + 1) % 2 ^ 16
      used := sub16 x.used 1 }) (hx.give rfl rfl) (Or.inl hs)).setMem
    (pageFreeSlotLocal s.mem p ptr).1
  unfold CustomMalloc.freeLocal tldStatFree
  rw [hmem]
  exact hset.tldStatStore _

theorem freeRemote (h : Recounted k s s₀) {p : PageMeta} {x : Counters} (hx : CountsMore (k r) p x)
    (hs : p.state = (s.pages r).state) (ptr : Nat) :
    Recounted k (freeRemote s r p ptr) (freeRemote s₀ r (p.recount x) ptr) := by
  have hmem : s₀.mem = s.mem ∧ s₀.arenas = s.arenas := by
    obtain ⟨P, rfl⟩ := h.eq
    exact ⟨rfl, rfl⟩
  have hset := (h.setPage (r := r) (p := (pageFreeSlotRemote s.mem p ptr).2) (x := { x with
      remoteFreeCount := (x.remoteFreeCount + 1) % 2 ^ 16
      used := sub16 x.used 1 }) (hx.give rfl rfl) (Or.inl hs)).setMem
    (pageFreeSlotRemote s.mem p ptr).1
  obtain ⟨P, rfl⟩ := h.eq
  exact hset.setArena p.arena _

theorem slabFree (h : Recounted k s s₀) (t ptr : Nat) :
    Into (Recounted k) (slabFree c s t ptr) (slabFree (c.withDebug false) s₀ t ptr) := by
  have hsame : ptrToSegment s₀ ptr = ptrToSegment s ptr ∧ ptrToPage s₀ ptr = ptrToPage s ptr ∧
      ∀ r, (s₀.pages r).state = (s.pages r).state := by
    obtain ⟨L, -, -⟩ := h
    exact ⟨rfl, rfl, fun _ => rfl⟩
  unfold CustomMalloc.slabFree
  rw [hsame.1, hsame.2.1]
  split
  next => exact into_ok h
  next =>
  split
  next => exact into_ok h
  next =>
  split
  next => exact into_ok h
  next r _ =>
  rw [hsame.2.2]
  split
  next => exact into_ok h
  next =>
    obtain ⟨x, hx, hmore⟩ := h.page r
    rw [hx]
    refine into_bind (markFreed_recount (s.pages r) x ptr) ?_
    rintro p _ ⟨bm, rfl, rfl⟩
    have hset : Recounted k (s.setPage r { s.pages r with debugBitmap := bm })
        (s₀.setPage r ((s.pages r).recount x)) :=
      h.setPage (p := { s.pages r with debugBitmap := bm }) hmore (Or.inl rfl)
    generalize hq : ({ s.pages r with debugBitmap := bm } : PageMeta) = q at hset
    have hq₀ : (s.pages r).recount x = q.recount x := by rw [← hq]; rfl
    have hmore' : CountsMore (k r) q x := by rw [← hq]; exact hmore
    rw [hq₀] at hset ⊢
    obtain ⟨h₁, h₂⟩ := hset.tldGet (c := c) (b := false) t
    have hstate : q.state = ((CustomMalloc.tldGet c (s.setPage r q) t).2.pages r).state := by
      rw [tldGet_setPage]
      simp [State.setPage]
    simp only
    generalize CustomMalloc.tldGet c (s.setPage r q) t = y at h₁ h₂ hstate
    generalize CustomMalloc.tldGet (c.withDebug false) (s₀.setPage r (q.recount x)) t = y₀ at h₁ h₂
    obtain ⟨o, s₁⟩ := y
    obtain ⟨o₀, s₂⟩ := y₀
    obtain rfl : o₀ = o := h₁
    cases o₀ with
    | none => exact into_ok (h₂.freeRemote hmore' hstate ptr)
    | some tld =>
      simp only
      rw [show (q.recount x).ownerTid = q.ownerTid from rfl]
      split
      next => exact h₂.freeLocal hmore' hstate tld ptr
      next => exact into_ok (h₂.freeRemote hmore' hstate ptr)

end Recounted

end CustomMalloc

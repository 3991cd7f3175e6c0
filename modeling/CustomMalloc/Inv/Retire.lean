import CustomMalloc.Retire
import CustomMalloc.Inv.Alike

/-!
# Retiring a page

`arena_free` is one update of the state (`arenaFree_eq`): the page leaves its bin's
list and becomes unused. If its bytes were zero afterwards and no thread had it in its
cache, the invariant would be preserved (`Inv.retire`). Neither has to be the case, so
what is preserved is weaker: the state has the invariant once the caches are emptied
and the bytes nobody owns are taken to be zero (`Settled`).
-/

namespace CustomMalloc

open Lib.Words Lib.Bytes Lib.Chain Lib.Intervals Lib.Regions

variable {c : Cfg} {s s' : State} {G : Ghost} {r q : PageRef}

/-! ## The update -/

/-- The metadata of a retired page. -/
def retiredPage (p : PageMeta) : PageMeta :=
  { p with
    ownerTid := noOwner
    state := .unused
    localFree := 0
    localFreeCount := 0
    remoteFree := 0
    remoteFreeCount := 0
    used := 0
    bumpOffset := 0
    bumpEnd := 0
    next := none
    prev := none }

/-- The pages after `r` was retired: its neighbours are linked to each other. -/
def retiredPages (pages : PageRef → PageMeta) (r : PageRef) : PageRef → PageMeta := fun q =>
  if q = r then retiredPage (pages r)
  else { pages q with
    next := if (pages r).prev = some q then (pages r).next else (pages q).next
    prev := if (pages r).next = some q then (pages r).prev else (pages q).prev }

/-- The arena after `r` left its bin. -/
def unbinned (x : Arena) (p : PageMeta) (r : PageRef) : Arena :=
  { x with
    bins := upd x.bins p.binIdx (if x.bins p.binIdx = some r then p.next else x.bins p.binIdx) }

theorem retiredPages_self (pages : PageRef → PageMeta) :
    retiredPages pages r r = retiredPage (pages r) := if_pos rfl

theorem retiredPages_ne (pages : PageRef → PageMeta) (h : q ≠ r) :
    ∃ nx pr, retiredPages pages r q = { pages q with next := nx, prev := pr } ∧
      nx = (if (pages r).prev = some q then (pages r).next else (pages q).next) ∧
      pr = if (pages r).next = some q then (pages r).prev else (pages q).prev :=
  ⟨_, _, if_neg h, rfl, rfl⟩

theorem unlinkNext_eq (s : State) (r : PageRef) :
    unlinkNext s r = { s with pages := fun q =>
      { s.pages q with
        next := if (s.pages r).prev = some q then (s.pages r).next else (s.pages q).next } } := by
  unfold unlinkNext
  cases hp : (s.pages r).prev with
  | none => simp
  | some q₁ =>
    simp only [State.setPage, State.mk.injEq, true_and, and_true, Option.some.injEq]
    funext q
    by_cases hq : q = q₁
    · rw [hq, upd_same, if_pos rfl]
    · rw [upd_ne hq, if_neg (Ne.symm hq)]

theorem unlinkPrev_eq (s : State) (r : PageRef) :
    unlinkPrev s r = { s with pages := fun q =>
      { s.pages q with
        prev := if (s.pages r).next = some q then (s.pages r).prev else (s.pages q).prev } } := by
  unfold unlinkPrev
  cases hn : (s.pages r).next with
  | none => simp
  | some q₁ =>
    simp only [State.setPage, State.mk.injEq, true_and, and_true, Option.some.injEq]
    funext q
    by_cases hq : q = q₁
    · rw [hq, upd_same, if_pos rfl]
    · rw [upd_ne hq, if_neg (Ne.symm hq)]

theorem unlinkHead_eq (s : State) (a bin : Nat) (r : PageRef) :
    unlinkHead s a bin r = { s with arenas := upd s.arenas a { s.arenas a with
      bins := upd (s.arenas a).bins bin (if (s.arenas a).bins bin = some r then (s.pages r).next
        else (s.arenas a).bins bin) } } := by
  unfold unlinkHead
  split
  next => rfl
  next => simp only [upd_eta]

/-- `arena_free` of an empty page, as one update. -/
theorem arenaFree_eq {a : Nat} {g : Segment} (hempty : pageIsEmpty (s.pages r) = true)
    (hseg : (s.pages r).segment = r.seg) (hg : s.segs r.seg = some g)
    (hprev : (s.pages r).prev ≠ some r) (hnext : (s.pages r).next ≠ some r) :
    arenaFree s a r = { s with
      pages := retiredPages s.pages r
      arenas := upd s.arenas a (unbinned (s.arenas a) (s.pages r) r)
      segs := upd s.segs r.seg (some { g with pagesUsed := sub16 g.pagesUsed 1 }) } := by
  unfold arenaFree segmentFreePage binRemovePage
  rw [if_pos hempty]
  simp only [unlinkHead_eq, unlinkPrev_eq, unlinkNext_eq, if_neg hprev, if_neg hnext, State.setPage,
    upd_same, upd_upd, hseg, hg, Option.map_some, unbinned, State.mk.injEq, true_and, and_true]
  funext q
  unfold retiredPages
  by_cases hq : q = r
  · rw [hq, upd_same, if_pos rfl, retiredPage, hseg]
  · rw [upd_ne hq, if_neg hq]

/-- The links of a page that stays in its list. -/
theorem retiredPages_links (pages : PageRef → PageMeta) (h : q ≠ r) :
    (retiredPages pages r q).next =
        (if (pages r).prev = some q then (pages r).next else (pages q).next) ∧
      (retiredPages pages r q).prev =
        if (pages r).next = some q then (pages r).prev else (pages q).prev := by
  obtain ⟨nx, pr, he, hnx, hpr⟩ := retiredPages_ne pages h
  rw [he]
  exact ⟨hnx, hpr⟩

theorem retiredPages_inBin {segs : Nat → Option Segment} {pages : PageRef → PageMeta} {a b : Nat}
    (h : q ≠ r) : InBin segs (retiredPages pages r) a b q ↔ InBin segs pages a b q := by
  obtain ⟨nx, pr, he, -⟩ := retiredPages_ne pages h
  unfold InBin
  rw [he]

theorem not_inBin_retired {segs : Nat → Option Segment} {pages : PageRef → PageMeta} {a b : Nat} :
    ¬ InBin segs (retiredPages pages r) a b r := by
  intro h
  have hact := h.2.1
  rw [retiredPages_self] at hact
  exact absurd hact (by simp [retiredPage])

/-- The bin lists after a page was retired. -/
theorem BinsOk.retire {segs : Nat → Option Segment} {pages : PageRef → PageMeta}
    {arenas : Nat → Arena} (h : BinsOk segs pages arenas) (hd : IsData segs r)
    (hact : (pages r).state = .active) :
    BinsOk segs (retiredPages pages r)
      (upd arenas (pages r).arena (unbinned (arenas (pages r).arena) (pages r) r)) := by
  obtain ⟨l₀, hl₀, hmem₀⟩ := h (pages r).arena (pages r).binIdx
  have hr : r ∈ l₀ := (hmem₀ r).mpr ⟨hd, hact, rfl, rfl⟩
  -- the neighbours of `r` are on its list
  have hprev : ∀ q, (pages r).prev = some q → q ∈ l₀ := by
    intro q hq
    rcases hl₀.2.mem_prev hr with hnone | ⟨w, hw, hsome⟩
    · cases hnone.symm.trans hq
    · rwa [Option.some.inj (hq.symm.trans hsome)]
  have hnext : ∀ q, (pages r).next = some q → q ∈ l₀ := fun q hq => hl₀.1.mem_next hr hq
  intro a b
  obtain ⟨l, hl, hmem⟩ := h a b
  by_cases hab : a = (pages r).arena ∧ b = (pages r).binIdx
  · obtain ⟨rfl, rfl⟩ := hab
    have hr : r ∈ l := (hmem r).mpr ⟨hd, hact, rfl, rfl⟩
    refine ⟨l.erase r, ?_, ?_⟩
    · rw [upd_same]
      show DList _ _ (upd _ _ _ _) _
      rw [upd_same]
      exact hl.remove hr (fun q _ hq => (retiredPages_links pages hq).1)
        fun q _ hq => (retiredPages_links pages hq).2
    · intro q
      rw [hl.1.nodup.mem_erase_iff]
      by_cases hq : q = r
      · subst hq
        exact ⟨fun hc => absurd rfl hc.1, fun hc => absurd hc not_inBin_retired⟩
      · rw [retiredPages_inBin hq, hmem q]
        exact ⟨fun hc => hc.2, fun hc => ⟨hq, hc⟩⟩
  · -- another list: neither `r` nor a neighbour is on it
    have hother : ∀ q ∈ l, q ∉ l₀ := by
      intro q hq hq₀
      have h₁ := (hmem q).mp hq
      have h₂ := (hmem₀ q).mp hq₀
      exact hab ⟨h₁.2.2.1.symm.trans h₂.2.2.1, h₁.2.2.2.symm.trans h₂.2.2.2⟩
    have hne : ∀ q ∈ l, q ≠ r := by
      intro q hq he
      exact hother q hq (he ▸ hr)
    refine ⟨l, ?_, ?_⟩
    · have hhead :
        ((upd arenas (pages r).arena (unbinned (arenas (pages r).arena) (pages r) r)) a).bins
          b = (arenas a).bins b := by
        by_cases ha : a = (pages r).arena
        · subst ha
          rw [upd_same]
          exact upd_ne fun hb => hab ⟨rfl, hb⟩
        · rw [upd_ne ha]
      rw [hhead]
      refine hl.congr ?_ ?_
      · intro q hq
        rw [(retiredPages_links pages (hne q hq)).1, if_neg fun hp => hother q hq (hprev q hp)]
      · intro q hq
        rw [(retiredPages_links pages (hne q hq)).2, if_neg fun hn => hother q hq (hnext q hn)]
    · intro q
      by_cases hq : q = r
      · subst hq
        exact ⟨fun hc => absurd rfl (hne q hc), fun hc => absurd hc not_inBin_retired⟩
      · rw [retiredPages_inBin hq, hmem q]

/-- Retiring a page without busy slots, when its bytes become zero and nothing is cached. -/
theorem Inv.retire (h : Inv c s G) (hd : IsData s.segs r) (hact : (s.pages r).state = .active)
    (hbusy : G.busy r = []) (hcache : ∀ t x b, s.tls t = some x → x.binPage b = none) {m : Mem}
    {n : Nat} {g : Segment} (hg : s.segs r.seg = some g)
    (hzero : ∀ y, r.start ≤ y → y < r.start + 65536 → m y = 0)
    (hsame : ∀ y, ¬ (r.start ≤ y ∧ y < r.start + 65536) → m y = s.mem y) :
    Inv c { s with
      mem := m
      pages := retiredPages s.pages r
      arenas := upd s.arenas (s.pages r).arena
        (unbinned (s.arenas (s.pages r).arena) (s.pages r) r)
      segs := upd s.segs r.seg (some { g with pagesUsed := n }) } G := by
  have hmain : Inv c { s with
      mem := m
      pages := retiredPages s.pages r
      arenas := upd s.arenas (s.pages r).arena
        (unbinned (s.arenas (s.pages r).arena) (s.pages r) r) } G := by
    refine { h with
      pages := ⟨?_, h.pages.rest⟩
      bins := h.bins.retire hd hact
      segLists := h.segLists.setArena rfl rfl
      tlds := ?_ }
    · intro q g' hg' h₁ h₂
      by_cases hq : q = r
      · subst hq
        simp only [retiredPages_self]
        exact .unused rfl rfl hbusy hzero
      · obtain ⟨nx, pr, he, -⟩ := retiredPages_ne s.pages hq
        have hbytes : ∀ y, q.start ≤ y → y < q.start + 65536 → m y = s.mem y := by
          intro y y₁ y₂
          refine hsame y fun hy => hq ?_
          exact h.page_unique (isData_of hg' h₁ h₂) hd y₁ y₂ hy.1 hy.2
        simp only [he]
        cases h.pages.data hg' h₁ h₂ with
        | unused hs h0 hb hz =>
          exact .unused hs h0 hb fun y y₁ y₂ => (hbytes y y₁ y₂).trans (hz y y₁ y₂)
        | active inv ha =>
          exact .active ((inv.relink _ nx pr).frame fun y y₁ y₂ _ => hbytes y y₁ y₂) ha
    · intro t x hx b q hb
      rw [hcache t x b hx] at hb
      cases hb
  exact hmain.sameSegs (sameSegs_setUsed hg)

end CustomMalloc

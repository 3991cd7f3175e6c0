import CustomMalloc.Concurrent.Flat

/-!
# What overlapping calls keep of the heap

`HeapOk` is what holds of the heap in the middle of any number of calls: the invariant of
whole calls for the heap without its slots, unused pages that are still zero, distinct
thread ids, and pages that belong to the arena of their owner. One lemma for each kind of
write the slab allocator makes outside the slots. `Shared t s s'` is what the other threads
see of such a write by thread `t`.
-/

namespace CustomMalloc

open Lib.Words Lib.Bytes Lib.Chain Lib.Intervals Lib.Interleave Lib.Regions Lib.Post

variable {c : Cfg} {s s' : State} {r : PageRef} {t : Nat}

/-- Unused pages have never been written to. -/
def UnusedZero (s : State) : Prop :=
  ∀ r, IsData s.segs r → (s.pages r).state = .unused →
    (s.pages r).bumpOffset = 0 ∧ ∀ y, r.start ≤ y → y < r.start + 65536 → s.mem y = 0

structure HeapOk (c : Cfg) (s : State) : Prop where
  inv : Inv c s.flat Ghost.empty
  zero : UnusedZero s
  ids : Ids s
  homes : Homes s

/-- What other threads see of a step of thread `t`: their own data is as it was, and a page
in use stays in use and in its bin. Its owner changes at most from nobody to somebody. -/
structure Shared (t : Nat) (s s' : State) : Prop where
  others : OthersKept t s s'
  active : ∀ {r}, Active s r → Active s' r
  arena : ∀ {r}, Active s r → (s'.pages r).arena = (s.pages r).arena
  binIdx : ∀ {r}, Active s r → (s'.pages r).binIdx = (s.pages r).binIdx
  slotSize : ∀ {r}, Active s r → (s'.pages r).slotSize = (s.pages r).slotSize
  capacity : ∀ {r}, Active s r → (s'.pages r).capacity = (s.pages r).capacity
  bumpEnd : ∀ {r}, Active s r → (s'.pages r).bumpEnd = (s.pages r).bumpEnd
  owner : ∀ {r}, Active s r →
    (s'.pages r).ownerTid = (s.pages r).ownerTid ∨ (s.pages r).ownerTid = noOwner

theorem Shared.of_same (hs : SameMeta s s') (ho : OthersKept t s s') : Shared t s s' := by
  refine ⟨ho, fun h => ?_, fun _ => ?_, fun _ => ?_, fun _ => ?_, fun _ => ?_, fun _ => ?_,
    fun _ => Or.inl ?_⟩
  · unfold Active at h ⊢
    rw [hs.segs, hs.pages]
    exact h
  all_goals rw [hs.pages]

theorem SameMeta.active_iff (h : SameMeta s s') : Active s' r ↔ Active s r := by
  unfold Active
  rw [h.segs, h.pages]

theorem UnusedZero.same (h : UnusedZero s) (hs : SameMeta s s')
    (hm : ∀ r, IsData s.segs r → ∀ y, r.start ≤ y → y < r.start + 65536 → s'.mem y = s.mem y) :
    UnusedZero s' := by
  intro r hd hst
  rw [hs.segs] at hd
  rw [hs.pages] at hst ⊢
  refine ⟨(h r hd hst).1, fun y h₁ h₂ => ?_⟩
  rw [hm r hd y h₁ h₂]
  exact (h r hd hst).2 y h₁ h₂

theorem initial_heapOk (c : Cfg) : HeapOk c (State.initial c) := by
  have hno : ∀ r, ¬ IsData (State.initial c).segs r :=
    fun r hd => absurd hd.1 (by simp [State.initial])
  refine ⟨initial_inv c, fun r hd => absurd hd (hno r), ⟨Nat.zero_le _, ?_, ?_⟩,
    ⟨?_, ?_, ?_, ?_, ?_⟩⟩
  · intro t x hx
    exact absurd hx (by simp [State.initial])
  · intro t t' x x' hx
    exact absurd hx (by simp [State.initial])
  · intro t x a hx
    exact absurd hx (by simp [State.initial])
  · exact fun r hr => absurd hr.1 (hno r)
  · intro t x b r hx
    exact absurd hx (by simp [State.initial])
  · exact fun r hr => absurd hr.1 (hno r)
  · exact fun t x r _ hr => absurd hr.1 (hno r)

namespace HeapOk

/-- The bytes of the pages are mapped. -/
theorem backed (h : HeapOk c s) (hd : IsData s.segs r) {y : Nat} (h₁ : r.start ≤ y)
    (h₂ : y < r.start + 65536) : Covers s.mapped y :=
  h.inv.regions.backed (IsData.has (s := s.flat) (c := c) hd h₁ h₂)

theorem page_unique (h : HeapOk c s) {q : PageRef} {y : Nat} (hr : IsData s.segs r)
    (hq : IsData s.segs q) (h₁ : r.start ≤ y) (h₂ : y < r.start + 65536) (h₃ : q.start ≤ y)
    (h₄ : y < q.start + 65536) : r = q := by
  have hr' : IsData s.flat.segs r := hr
  have hq' : IsData s.flat.segs q := hq
  exact h.inv.page_unique hr' hq' h₁ h₂ h₃ h₄

theorem geom (h : HeapOk c s) (hact : Active s r) : Geom r (s.pages r) := h.inv.flat_geom hact

/-- A write to the books: an arena's numbers, `arena_next`, what the kernel keeps. -/
theorem books (h : HeapOk c s) (hinv : Inv c s'.flat Ghost.empty)
    (hm : ∀ r, IsData s.segs r → ∀ y, r.start ≤ y → y < r.start + 65536 → s'.mem y = s.mem y)
    (hs : SameMeta s s') (ht : SameThreads s s') : HeapOk c s' := by
  refine ⟨hinv, h.zero.same hs hm, ⟨?_, ?_, ?_⟩, ⟨?_, ?_, ?_, ?_, ?_⟩⟩
  · rw [ht.counter]
    exact h.ids.counter
  · rw [ht.tls, ht.counter]
    exact h.ids.lt
  · rw [ht.tls]
    exact h.ids.distinct
  · rw [ht.tls]
    exact h.homes.arena_lt
  · intro r hr
    rw [hs.pages]
    exact h.homes.page_lt r (hs.active_iff.mp hr)
  · rw [ht.tls, hs.pages]
    exact h.homes.cached
  · intro r hr
    rw [hs.pages, ht.counter]
    exact h.homes.owner r (hs.active_iff.mp hr)
  · intro t x r hx hr
    rw [hs.pages]
    exact h.homes.home t x r (ht.tls ▸ hx) (hs.active_iff.mp hr)

theorem withAnswers (h : HeapOk c s) (ans : List (Option Nat)) : HeapOk c (s.withAnswers ans) :=
  h.books (h.inv.withAnswers ans).inv (fun _ _ _ _ _ => rfl) ⟨rfl, rfl, rfl, rfl⟩ ⟨rfl, rfl⟩

theorem setArena (h : HeapOk c s) {a : Nat} {x : Arena} (hb : x.bins = (s.arenas a).bins)
    (hs : x.segments = (s.arenas a).segments) (hn : x.segmentCount = (s.arenas a).segmentCount) :
    HeapOk c (s.setArena a x) :=
  h.books (Inv.setArena (s := s.flat) h.inv hb hs hn) (fun _ _ _ _ _ => rfl) ⟨rfl, rfl, rfl, rfl⟩
    ⟨rfl, rfl⟩

theorem arenaNext (h : HeapOk c s) (k : Int) : HeapOk c { s with arenaNext := k } :=
  h.books { h.inv with } (fun _ _ _ _ _ => rfl) ⟨rfl, rfl, rfl, rfl⟩ ⟨rfl, rfl⟩

/-! ## The threads' data -/

/-- Thread `t` rewrites its own data. -/
theorem setTld (h : HeapOk c s) {old x : Tld} (hold : s.tls t = some old) (ha : x.addr = old.addr)
    (hid : x.threadId = old.threadId) (hx : CacheOk s.segs s.pages x)
    (harena : ∀ a, old.arena = some a → x.arena = some a)
    (hlt : ∀ a, x.arena = some a → a < numArenas)
    (hcached : ∀ b r, x.binPage b = some r → (s.pages r).ownerTid = x.threadId) :
    HeapOk c (s.setTld t x) := by
  have hth : ThreadsFrom t s (s.setTld t x) := (threadsFrom_closed t).setTld s old x hold hid
  have hhas : HasId s t := fun hn => absurd (hn.symm.trans hold) (by simp)
  refine ⟨Inv.setTld (s := s.flat) h.inv hold ha hx,
    h.zero.same ⟨rfl, rfl, rfl, rfl⟩ fun _ _ _ _ _ => rfl,
    h.ids.step hhas hth, h.homes.still h.ids hhas hth ⟨rfl, rfl, rfl, rfl⟩ ?_⟩
  intro y hy
  cases (upd_same ..).symm.trans hy
  refine ⟨fun z a hz hza => ?_, hlt, hcached⟩
  cases hold.symm.trans hz
  exact harena a hza

/-- The cache and the arena of a thread's data. -/
theorem cache (h : HeapOk c s) {x : Tld} (hx : s.tls t = some x) : CacheOk s.segs s.pages x :=
  fun b r hr => h.inv.tlds t x hx b r hr

theorem setStats (h : HeapOk c s) {old x : Tld} (hold : s.tls t = some old) (ha : x.addr = old.addr)
    (hid : x.threadId = old.threadId) (harena : x.arena = old.arena)
    (hbin : x.binPage = old.binPage) :
    HeapOk c (s.setTld t x) := by
  refine h.setTld hold ha hid ?_ ?_ ?_ ?_
  · intro b r hr
    rw [hbin] at hr
    rw [harena]
    exact h.cache hold b r hr
  · intro a hoa
    rw [harena]
    exact hoa
  · intro a hxa
    rw [harena] at hxa
    exact h.homes.arena_lt t old a hold hxa
  · intro b r hr
    rw [hbin] at hr
    rw [hid]
    exact h.homes.cached t old b r hold hr

/-- `tld_stat_alloc` and `tld_stat_free`. -/
theorem statStore (h : HeapOk c s) {old x : Tld} (hold : s.tls t = some old)
    (he : tldStatStore s t x = .ok s') (ha : x.addr = old.addr) (hid : x.threadId = old.threadId)
    (harena : x.arena = old.arena) (hbin : x.binPage = old.binPage) :
    HeapOk c s' ∧ SameMeta s s' ∧ s'.mem = s.mem ∧ OthersKept t s s' ∧
      ∃ y, s'.tls t = some y ∧ y.threadId = old.threadId ∧ y.arena = old.arena := by
  rcases tldStatStore_cases he with ⟨-, rfl⟩ | ⟨a, hxa, rfl⟩
  · exact ⟨h.setStats hold ha hid harena hbin, ⟨rfl, rfl, rfl, rfl⟩, rfl, fun _ hu => upd_ne hu,
      x, upd_same .., hid, harena⟩
  · have hbooks := h.setArena (a := a) (x := { s.arenas a with
      allocated := ((s.arenas a).allocated + x.statAllocated) % 2 ^ 64
      freed := ((s.arenas a).freed + x.statFreed) % 2 ^ 64
      allocCount := ((s.arenas a).allocCount + x.statAllocCount) % 2 ^ 64
      freeCount := ((s.arenas a).freeCount + x.statFreeCount) % 2 ^ 64 }) rfl rfl rfl
    exact ⟨hbooks.setStats (x := x.cleared) hold ha hid harena hbin, ⟨rfl, rfl, rfl, rfl⟩, rfl,
      fun _ hu => upd_ne hu, x.cleared, upd_same .., hid, harena⟩

/-- `tld_get`: the thread's data is there, or fresh, or the kernel refused. -/
structure GotTld (t : Nat) (s : State) (o : Option Tld) (s' : State) : Prop where
  same : SameMeta s s'
  others : OthersKept t s s'
  got : s'.tls t = o
  old : ∀ x, s.tls t = some x → s' = s
  fresh : s.tls t = none → ∀ x, o = some x → x.arena = none
  mem : ∀ r, IsData s.segs r → ∀ y, r.start ≤ y → y < r.start + 65536 → s'.mem y = s.mem y

theorem tldGet (h : HeapOk c s) (hid : HasId s t) {o : Option Tld}
    (he : CustomMalloc.tldGet c s t = (o, s')) : HeapOk c s' ∧ GotTld t s o s' := by
  have hflat : CustomMalloc.tldGet c s.flat t = (o, s'.flat) := by rw [tldGet_flat, he]
  have hp := tldGet_spec h.inv hflat
  have hth : ThreadsFrom t s s' := by
    have := (tldGet_closed (c := c) (threadsFrom_closed t).toFreeClosed s).1
    rwa [he] at this
  have hsame : SameMeta s s' ∧ s'.tls t = o ∧
      (∀ r, IsData s.segs r → ∀ y, r.start ≤ y → y < r.start + 65536 → s'.mem y = s.mem y) := by
    rcases tldGet_cases he with ⟨x, hx, rfl, rfl⟩ | ⟨hn, rfl, hos⟩ | ⟨s₁, addr, hn, hos, rfl, rfl⟩
    · exact ⟨⟨rfl, rfl, rfl, rfl⟩, hx, fun _ _ _ _ _ => rfl⟩
    · refine ⟨hos.same, by rw [hos.sameThreads.tls, hn], ?_⟩
      obtain ⟨ans, mp, m, b, rfl, hk⟩ := hos
      exact fun r hd y h₁ h₂ => (hk y (h.backed hd h₁ h₂)).2
    · have hsame := hos.same
      refine ⟨⟨hsame.segs, hsame.pages, hsame.registry, hsame.larges⟩, upd_same .., ?_⟩
      obtain ⟨ans, mp, m, b, rfl, hk⟩ := hos
      exact fun r hd y h₁ h₂ => (hk y (h.backed hd h₁ h₂)).2
  obtain ⟨hsm, hgot, hmem⟩ := hsame
  have hold : ∀ x, s.tls t = some x → s' = s := by
    intro x hx
    rcases tldGet_cases he with ⟨y, hy, rfl, rfl⟩ | ⟨hn, -⟩ | ⟨s₁, addr, hn, -⟩
    · rfl
    · cases hn.symm.trans hx
    · cases hn.symm.trans hx
  refine ⟨⟨hp.inv, h.zero.same hsm hmem, h.ids.step hid hth, h.homes.still h.ids hid hth hsm ?_⟩,
    hsm, hth.others, hgot, hold, fun hn x hx => (hp.fresh hn x hx).2.1, hmem⟩
  intro y hy
  cases hx : s.tls t with
  | some x =>
    obtain rfl := hold x hx
    obtain rfl : x = y := Option.some.inj (hx.symm.trans hy)
    refine ⟨fun z a hz hza => ?_, fun a => h.homes.arena_lt t x a hx,
      fun b r => h.homes.cached t x b r hx⟩
    cases hx.symm.trans hz
    exact hza
  | none =>
    obtain rfl : o = some y := hgot.symm.trans hy
    obtain ⟨hbin, harena, -⟩ := hp.fresh hx y rfl
    refine ⟨fun z a hz => absurd (hx.symm.trans hz) (by simp), fun a ha => ?_, fun b r hr => ?_⟩
    · rw [harena] at ha
      cases ha
    · rw [hbin] at hr
      cases hr

/-- `tld_cleanup` of a thread that exits. -/
theorem cleanup (h : HeapOk c s) (t : Nat) : HeapOk c (tldCleanup c s t) := by
  obtain ⟨hs, htls, hcount, hm⟩ := tldCleanup_frame c s t
  have hold : ∀ u y, (tldCleanup c s t).tls u = some y → s.tls u = some y := by
    intro u y hy
    rw [htls] at hy
    by_cases hut : u = t
    · rw [hut, upd_same] at hy
      cases hy
    · exact (upd_ne hut).symm.trans hy
  have hinv : Inv c (tldCleanup c s t).flat Ghost.empty := by
    rw [← tldCleanup_flat]
    exact h.inv.cleanup t
  refine ⟨hinv, h.zero.same hs fun _ _ _ _ _ => by rw [hm], ⟨?_, ?_, ?_⟩, ⟨?_, ?_, ?_, ?_, ?_⟩⟩
  · rw [hcount]
    exact h.ids.counter
  · intro u y hy
    rw [hcount]
    exact h.ids.lt u y (hold u y hy)
  · exact fun u v y z hy hz => h.ids.distinct u v y z (hold u y hy) (hold v z hz)
  · exact fun u y a hy => h.homes.arena_lt u y a (hold u y hy)
  · intro r hr
    rw [hs.pages]
    exact h.homes.page_lt r (hs.active_iff.mp hr)
  · intro u y b r hy
    rw [hs.pages]
    exact h.homes.cached u y b r (hold u y hy)
  · intro r hr
    rw [hs.pages, hcount]
    exact h.homes.owner r (hs.active_iff.mp hr)
  · intro u y r hy hr
    rw [hs.pages]
    exact h.homes.home u y r (hold u y hy) (hs.active_iff.mp hr)

/-! ## Pages -/

/-- The fields outside the slots. -/
theorem flat_fields {p p' : PageMeta} (h : p'.flat = p.flat) :
    p'.state = p.state ∧ p'.arena = p.arena ∧ p'.binIdx = p.binIdx ∧ p'.slotSize = p.slotSize ∧
      p'.ownerTid = p.ownerTid ∧ p'.bumpEnd = p.bumpEnd ∧ p'.capacity = p.capacity :=
  ⟨(congrArg PageMeta.state h :), (congrArg PageMeta.arena h :), (congrArg PageMeta.binIdx h :),
    (congrArg PageMeta.slotSize h :), (congrArg PageMeta.ownerTid h :),
    (congrArg PageMeta.bumpEnd h :), (congrArg PageMeta.capacity h :)⟩

/-- Every page has the fields it had, but for its slots. -/
theorem setCell_fields {x : Cell} (hx : x.page.flat = (s.pages r).flat) (q : PageRef) :
    ((s.setCell r x).pages q).flat = (s.pages q).flat := by
  show (upd s.pages r x.page q).flat = _
  by_cases hq : q = r
  · rw [hq, upd_same, hx]
  · rw [upd_ne hq]

theorem setCell_active {x : Cell} (hx : x.page.flat = (s.pages r).flat) (q : PageRef) :
    Active (s.setCell r x) q ↔ Active s q := by
  unfold Active
  rw [(flat_fields (setCell_fields hx q)).1]
  exact Iff.rfl

theorem setCell_shared {x : Cell} (hx : x.page.flat = (s.pages r).flat) :
    Shared t s (s.setCell r x) := by
  have hf := fun q => flat_fields (setCell_fields hx q)
  exact ⟨fun _ _ => rfl, fun h => (setCell_active hx _).mpr h, fun _ => (hf _).2.1,
    fun _ => (hf _).2.2.1, fun _ => (hf _).2.2.2.1, fun _ => (hf _).2.2.2.2.2.2,
    fun _ => (hf _).2.2.2.2.2.1, fun _ => Or.inl (hf _).2.2.2.2.1⟩

/-- A step on the slots of page `r`. -/
theorem setCell (h : HeapOk c s) (hact : Active s r) {x : Cell}
    (hx : x.page.flat = (s.pages r).flat)
    (hm : ∀ y, x.mem y ≠ s.mem y → r.start ≤ y ∧ y < r.start + 65536) :
    HeapOk c (s.setCell r x) := by
  have hf := fun q => flat_fields (setCell_fields hx q)
  refine ⟨?_, ?_, ⟨h.ids.counter, h.ids.lt, h.ids.distinct⟩, ⟨h.homes.arena_lt, ?_, ?_, ?_, ?_⟩⟩
  · rw [State.flat_setCell s hx]
    exact h.inv
  · intro q hd hst
    rw [(hf q).1] at hst
    have hqr : q ≠ r := by
      rintro rfl
      cases hst.symm.trans hact.2
    refine ⟨?_, fun y h₁ h₂ => ?_⟩
    · rw [show (s.setCell r x).pages q = s.pages q from upd_ne hqr]
      exact (h.zero q hd hst).1
    have hmem : x.mem y = s.mem y := by
      by_contra hne
      obtain ⟨h₃, h₄⟩ := hm y hne
      exact hqr (h.page_unique hd hact.1 h₁ h₂ h₃ h₄)
    exact hmem.trans ((h.zero q hd hst).2 y h₁ h₂)
  · intro q hq
    rw [(hf q).2.1]
    exact h.homes.page_lt q ((setCell_active hx q).mp hq)
  · intro u y b q hy hq
    rw [(hf q).2.2.2.2.1]
    exact h.homes.cached u y b q hy hq
  · intro q hq
    rw [(hf q).2.2.2.2.1]
    exact h.homes.owner q ((setCell_active hx q).mp hq)
  · intro u y q hy hq hown
    rw [(hf q).2.2.2.2.1] at hown
    rw [(hf q).2.1]
    exact h.homes.home u y q hy ((setCell_active hx q).mp hq) hown

/-- Writes into pages in use. -/
theorem setMem (h : HeapOk c s) {m : Mem}
    (hm : ∀ y, m y ≠ s.mem y → ∃ r, Active s r ∧ r.start ≤ y ∧ y < r.start + 65536) :
    HeapOk c { s with mem := m } := by
  refine ⟨h.inv, ?_, ⟨h.ids.counter, h.ids.lt, h.ids.distinct⟩, ⟨h.homes.arena_lt, h.homes.page_lt,
    h.homes.cached, h.homes.owner, h.homes.home⟩⟩
  intro q hd hst
  refine ⟨(h.zero q hd hst).1, fun y h₁ h₂ => ?_⟩
  have hmem : m y = s.mem y := by
    by_contra hne
    obtain ⟨r, hact, h₃, h₄⟩ := hm y hne
    obtain rfl := h.page_unique hd hact.1 h₁ h₂ h₃ h₄
    cases hst.symm.trans hact.2
  exact hmem.trans ((h.zero q hd hst).2 y h₁ h₂)

/-- The compare-and-swap of `owner_tid` by a thread of the page's arena. -/
theorem claim (h : HeapOk c s) (hact : Active s r) {x : Tld} (hx : s.tls t = some x)
    (hno : (s.pages r).ownerTid = noOwner) (harena : x.arena = some (s.pages r).arena) :
    HeapOk c (s.setPage r { s.pages r with ownerTid := x.threadId }) ∧
      Shared t s (s.setPage r { s.pages r with ownerTid := x.threadId }) := by
  generalize hs' : s.setPage r { s.pages r with ownerTid := x.threadId } = s'
  have hpages : ∀ q, s'.pages q = { s.pages q with
      ownerTid := if q = r then x.threadId else (s.pages q).ownerTid } := by
    intro q
    subst hs'
    show upd s.pages r _ q = _
    by_cases hq : q = r
    · rw [hq, upd_same, if_pos rfl]
    · rw [upd_ne hq, if_neg hq]
  have hthreads : SameThreads s s' := by
    subst hs'
    exact ⟨rfl, rfl⟩
  have hactive : ∀ q, Active s' q ↔ Active s q := by
    intro q
    unfold Active
    rw [hpages]
    subst hs'
    exact Iff.rfl
  have hhas : HasId s t := fun hn => absurd (hn.symm.trans hx) (by simp)
  refine ⟨⟨?_, ?_, h.ids.step hhas (.of_eq hthreads), ?_⟩, ⟨?_, ?_, ?_, ?_, ?_, ?_, ?_, ?_⟩⟩
  · subst hs'
    obtain ⟨hinv, -⟩ := h.inv.active (r := r) hact.1 hact.2
    rw [State.flat_setPage]
    have hpage : PageInv c.debug s.flat.mem r { s.flat.pages r with ownerTid := x.threadId }
        (Ghost.empty.busy r) :=
      ⟨hinv.geom.congr ⟨rfl, rfl, rfl, rfl, rfl, rfl, rfl, rfl, rfl, rfl⟩,
        hinv.slots.imp fun k hk =>
        hk.imp fun loc hl => hl.imp fun rem hr => hr.congr
          ⟨rfl, rfl, rfl, rfl, rfl, rfl, rfl, rfl, rfl, rfl⟩ rfl rfl rfl rfl rfl rfl, hinv.bits⟩
    have hshape : SameShape (s.flat.pages r) { s.flat.pages r with ownerTid := x.threadId } :=
      ⟨rfl, rfl, rfl, rfl, rfl, rfl, rfl, rfl, rfl, rfl⟩
    have hset := h.inv.setPage (r := r) hact.1 hact.2 hshape hpage fun y hy => absurd rfl hy
    rwa [show upd Ghost.empty.busy r (Ghost.empty.busy r) =
      Ghost.empty.busy from upd_eta _ _] at hset
  · intro q hd hst
    rw [hpages] at hst ⊢
    subst hs'
    exact h.zero q hd hst
  · refine h.homes.step h.ids hhas (.of_eq hthreads) ?_ ?_ ?_
    · intro y hy
      rw [hthreads.tls] at hy
      cases hx.symm.trans hy
      refine ⟨fun z a hz hza => ?_, fun a => h.homes.arena_lt t x a hx, fun b q hq => ?_⟩
      · cases hx.symm.trans hz
        exact hza
      · rw [hpages]
        by_cases hqr : q = r
        · rw [if_pos hqr]
        · rw [if_neg hqr]
          exact h.homes.cached t x b q hx hq
    · intro q hq
      have hq' := (hactive q).mp hq
      by_cases hqr : q = r
      · subst hqr
        refine Or.inr ⟨?_, Or.inr ⟨x, by rw [hthreads.tls, hx], ?_, ?_⟩⟩
        · rw [hpages]
          exact h.homes.page_lt q hq'
        · rw [hpages, if_pos rfl]
        · rw [hpages]
          exact harena
      · refine Or.inl ⟨hq', by rw [hpages], by rw [hpages, if_neg hqr]⟩
    · intro u y b q hut hy hq
      rw [hpages]
      by_cases hqr : q = r
      · -- the page has no owner, so nobody caches it
        subst hqr
        have hown := h.homes.cached u y b q hy hq
        have hlt := h.ids.lt u y hy
        have hle := h.ids.counter
        omega
      · rw [if_neg hqr]
  · exact fun u _ => by rw [hthreads.tls]
  · exact fun hq => (hactive _).mpr hq
  iterate 5 exact fun _ => by rw [hpages]
  · intro q _
    rw [hpages]
    by_cases hqr : q = r
    · rw [hqr]
      exact Or.inr hno
    · rw [if_neg hqr]
      exact Or.inl rfl

end HeapOk

/-! ## New pages -/

/-- The pages that were there stay as they are, but for the one that is taken, and the bytes of
the others are zero. -/
structure Grown (s : State) (o : Option PageRef) (s' : State) : Prop where
  data : ∀ r, IsData s.segs r → IsData s'.segs r
  mem : ∀ r, IsData s.segs r → ∀ y, r.start ≤ y → y < r.start + 65536 → s'.mem y = s.mem y
  pages : ∀ r, IsData s.segs r → o ≠ some r → s'.pages r = s.pages r
  zero : ∀ r, IsData s'.segs r → ¬ IsData s.segs r →
    ∀ y, r.start ≤ y → y < r.start + 65536 → s'.mem y = 0
  fresh : ∀ r, IsData s'.segs r → ¬ IsData s.segs r → o ≠ some r → (s'.pages r).bumpOffset = 0

theorem segmentAllocPage_grown (s : State) (seg bin : Nat) :
    (segmentAllocPage s seg bin).2.mem = s.mem ∧
      (∀ r, IsData (segmentAllocPage s seg bin).2.segs r ↔ IsData s.segs r) ∧
      ∀ r, (segmentAllocPage s seg bin).1 ≠ some r →
        (segmentAllocPage s seg bin).2.pages r = s.pages r := by
  unfold segmentAllocPage
  cases hg : s.segs seg with
  | none => exact ⟨rfl, fun _ => Iff.rfl, fun _ _ => rfl⟩
  | some g =>
    cases unusedPage s seg with
    | none => exact ⟨rfl, fun _ => Iff.rfl, fun _ _ => rfl⟩
    | some i =>
      refine ⟨rfl, fun r => ?_, fun r hr => ?_⟩
      · exact (sameSegs_setUsed (n := (g.pagesUsed + 1) % 2 ^ 16) hg).isData r
      · exact upd_ne fun he => hr (congrArg some he.symm)

theorem linkSegment_grown (s : State) (a seg : Nat) :
    (linkSegment s a seg).mem = s.mem ∧ (linkSegment s a seg).pages = s.pages ∧
      ∀ r, IsData (linkSegment s a seg).segs r ↔ IsData s.segs r := by
  have hmap : ∀ (segs : Nat → Option Segment) (b : Nat) (f : Segment → Segment) (r : PageRef),
      IsData (upd segs b ((segs b).map f)) r ↔ IsData segs r := by
    intro segs b f r
    unfold IsData
    by_cases hb : r.seg = b
    · rw [hb, upd_same, Option.isSome_map]
    · rw [upd_ne hb]
  unfold linkSegment
  cases (s.arenas a).segments with
  | none => exact ⟨rfl, rfl, fun r => hmap ..⟩
  | some x => exact ⟨rfl, rfl, fun r => (hmap ..).trans (hmap ..)⟩

/-- A fresh mapping meets no page. -/
theorem HeapOk.fresh_seg (h : HeapOk c s) {seg : Nat} (hf : FreshRegion s s' seg 4194304)
    (hd : IsData s.segs r) : r.seg ≠ seg := by
  intro he
  have hb := h.backed hd (y := r.start) (Nat.le_refl _) (by omega)
  have hidx := hd.2
  unfold PageRef.start at hb
  exact hf.fresh _ (by omega) (by omega) hb

theorem HeapOk.segmentCreate_grown (h : HeapOk c s) {a seg : Nat} {o : Option PageRef}
    (he : segmentCreate c s a = (seg, s')) : Grown s o s' := by
  rcases segmentCreate_spec he with ⟨-, ans, mp, m, b, rfl, hk⟩ |
      ⟨-, s₂, ⟨ans, mp, m, b, rfl, hk⟩, hf, -, rfl⟩
  · exact ⟨fun r hr => hr, fun r hr y h₁ h₂ => (hk y (h.backed hr h₁ h₂)).2, fun _ _ _ => rfl,
      fun r hr hno => absurd hr hno, fun r hr hno => absurd hr hno⟩
  · -- the data pages that were not there are in the new segment
    have hseg : ∀ {g : Segment} r, IsData (upd s.segs seg (some g)) r → ¬ IsData s.segs r →
        r.seg = seg := by
      intro g r hr hno
      by_contra hb
      have hsome := hr.1
      rw [upd_ne hb] at hsome
      exact hno ⟨hsome, hr.2⟩
    refine ⟨fun r hr => ⟨?_, hr.2⟩, fun r hr y h₁ h₂ => (hk y (h.backed hr h₁ h₂)).2,
      fun r hr _ => if_neg (h.fresh_seg hf hr), fun r hr hno y h₁ h₂ => ?_, fun r hr hno _ => ?_⟩
    · show (upd s.segs seg _ r.seg).isSome
      rw [upd_ne (h.fresh_seg hf hr)]
      exact hr.1
    · have hb := hseg r hr hno
      have hidx := hr.2
      unfold PageRef.start at h₁ h₂
      exact hf.zero y (by omega) (by omega)
    · show (if r.seg = seg then freshPage seg a r.idx else s.pages r).bumpOffset = 0
      rw [if_pos (hseg r hr hno)]
      rfl

theorem HeapOk.grown (h : HeapOk c s) {a bin : Nat} {o : Option PageRef}
    (he : arenaNewPage c s a bin = .ok (o, s')) : Grown s o s' := by
  have hafter : ∀ (s₁ : State) {seg : Nat}, Grown s o s₁ →
      segmentAllocPage s₁ seg bin = (o, s') → Grown s o s' := by
    intro s₁ seg hg hs
    obtain ⟨hm, hd, hp⟩ := segmentAllocPage_grown s₁ seg bin
    rw [hs] at hm hd hp
    refine ⟨fun r hr => (hd r).mpr (hg.data r hr), fun r hr y h₁ h₂ => ?_, fun r hr ho => ?_,
      fun r hr hno y h₁ h₂ => ?_, fun r hr hno ho => ?_⟩
    · exact (congrFun hm y).trans (hg.mem r hr y h₁ h₂)
    · exact (hp r ho).trans (hg.pages r hr ho)
    · exact (congrFun hm y).trans (hg.zero r ((hd r).mp hr) hno y h₁ h₂)
    · rw [hp r ho]
      exact hg.fresh r ((hd r).mp hr) hno ho
  unfold arenaNewPage at he
  split at he
  next => cases he
  next seg _ =>
    exact hafter s ⟨fun _ hr => hr, fun _ _ _ _ _ => rfl, fun _ _ _ => rfl,
      fun _ hr hno => absurd hr hno,
      fun _ hr hno => absurd hr hno⟩ (Except.ok.inj he)
  next =>
    rcases hcreate : segmentCreate c s a with ⟨seg, s₁⟩
    rw [hcreate] at he
    have hg := h.segmentCreate_grown (o := o) hcreate
    simp only at he
    split at he
    next =>
      obtain rfl : s₁ = s' := congrArg Prod.snd (Except.ok.inj he)
      exact hg
    next =>
      obtain ⟨hm, hp, hd⟩ := linkSegment_grown s₁ a seg
      refine hafter (linkSegment s₁ a seg) ?_ (Except.ok.inj he)
      refine ⟨fun r hr => (hd r).mpr (hg.data r hr), ?_, ?_, ?_, ?_⟩
      · rw [hm]
        exact hg.mem
      · rw [hp]
        exact hg.pages
      · rw [hm]
        exact fun r hr => hg.zero r ((hd r).mp hr)
      · rw [hp]
        exact fun r hr => hg.fresh r ((hd r).mp hr)

theorem binInsertPage_mem (s : State) (a : Nat) (r : PageRef) :
    (binInsertPage s a r).mem = s.mem := by
  unfold binInsertPage
  simp only
  split <;> rfl

/-- A page was set up: no slot of it was taken, its bytes are zero, and the pages in use
changed only in their links. -/
structure Opened (s : State) (a bin : Nat) (r : PageRef) (s' : State) : Prop where
  threads : SameThreads s s'
  active : Active s' r
  fresh : ¬ Active s r
  arena : (s'.pages r).arena = a
  binIdx : (s'.pages r).binIdx = bin
  owner : (s'.pages r).ownerTid = noOwner
  virgin : (s'.pages r).flat = s'.pages r
  bump : (s'.pages r).bumpOffset < (s'.pages r).bumpEnd
  zero : ∀ y, r.start ≤ y → y < r.start + 65536 → s'.mem y = 0
  back : ∀ q, q ≠ r → Active s' q → Active s q
  kept : ∀ q, Active s q → Active s' q
  links : ∀ q, Active s q → ∃ nx pr, s'.pages q = { s.pages q with next := nx, prev := pr }
  mem : ∀ q, Active s q → ∀ y, q.start ≤ y → y < q.start + 65536 → s'.mem y = s.mem y

theorem Opened.shared {a bin : Nat} (h : Opened s a bin r s') : Shared t s s' := by
  have hlinks : ∀ {q}, Active s q →
      ∃ nx pr, s'.pages q = { s.pages q with next := nx, prev := pr } :=
    fun hq => h.links _ hq
  refine ⟨fun u _ => by rw [h.threads.tls], h.kept _, fun hq => ?_, fun hq => ?_, fun hq => ?_,
    fun hq => ?_, fun hq => ?_, fun hq => Or.inl ?_⟩ <;>
  · obtain ⟨nx, pr, he⟩ := hlinks hq
    rw [he]

/-- The page that `arena_alloc` gets is one that `page_init` has just written. -/
theorem arenaNewPage_init {a bin : Nat} (he : arenaNewPage c s a bin = .ok (some r, s')) :
    (s'.pages r).flat = s'.pages r := by
  have halloc : ∀ {s₁ : State} {seg : Nat}, segmentAllocPage s₁ seg bin = (some r, s') →
      (s'.pages r).flat = s'.pages r := by
    intro s₁ seg hs
    unfold segmentAllocPage at hs
    split at hs
    next g i _ _ =>
      obtain ⟨hr, rfl⟩ := Prod.mk.inj hs
      cases hr
      show (upd s₁.pages _ _ _).flat = upd s₁.pages _ _ _
      rw [upd_same]
      rfl
    next => exact absurd (congrArg Prod.fst hs) (by simp)
  unfold arenaNewPage at he
  split at he
  next => cases he
  next seg _ => exact halloc (Except.ok.inj he)
  next =>
    rcases hcreate : segmentCreate c s a with ⟨seg, s₁⟩
    rw [hcreate] at he
    simp only at he
    split at he
    next => exact absurd (congrArg Prod.fst (Except.ok.inj he)) (by simp)
    next => exact halloc (Except.ok.inj he)

/-- `bin_insert_page` changes links only. -/
theorem binInsertPage_links (s : State) (a : Nat) (r q : PageRef) :
    ∃ nx pr, (binInsertPage s a r).pages q = { s.pages q with next := nx, prev := pr } := by
  have hupd : ∀ (pages : PageRef → PageMeta) (q' : PageRef) (nx : Option PageRef)
    (pr : Option PageRef),
      ∃ nx' pr', upd pages q' { pages q' with next := nx, prev := pr } q =
        { pages q with next := nx', prev := pr' } := by
    intro pages q' nx pr
    by_cases hq : q = q'
    · rw [hq, upd_same]
      exact ⟨nx, pr, rfl⟩
    · rw [upd_ne hq]
      exact ⟨_, _, rfl⟩
  obtain ⟨nx, pr, h₁⟩ := hupd s.pages r ((s.arenas a).bins (s.pages r).binIdx) none
  unfold binInsertPage
  simp only
  split
  next h _ =>
    obtain ⟨nx', pr', h₂⟩ := hupd (upd s.pages r { s.pages r with
      prev := none, next := (s.arenas a).bins (s.pages r).binIdx }) h
      (upd s.pages r { s.pages r with
        prev := none, next := (s.arenas a).bins (s.pages r).binIdx } h).next (some r)
    refine ⟨nx', pr', Eq.trans h₂ ?_⟩
    rw [h₁]
  next => exact ⟨nx, pr, h₁⟩

/-- `segment_create` leaves a segment that was not there. -/
theorem HeapOk.segmentCreate_new (h : HeapOk c s) {a seg : Nat}
    (he : segmentCreate c s a = (seg, s'))
    (h0 : seg ≠ 0) : IsData s'.segs ⟨seg, 1⟩ ∧ ¬ IsData s.segs ⟨seg, 1⟩ := by
  rcases segmentCreate_spec he with ⟨hz, -⟩ | ⟨-, s₁, hos, hf, -, rfl⟩
  · exact absurd hz h0
  · have hsome : (upd s₁.segs seg
      (some ({ pagesUsed := 0, arena := a, next := none, prev := none } :
        Segment)) seg).isSome := by rw [upd_same]; rfl
    exact ⟨⟨hsome, show 1 ≤ 1 by decide, show 1 < 64 by decide⟩, fun hd => h.fresh_seg hf hd rfl⟩

/-- Without memory for a segment nothing happens. -/
theorem HeapOk.newPage_none (h : HeapOk c s) {a bin : Nat} (hbin : bin < binCount)
    (hsize : binToSize sizeTables bin ≤ 32768) (he : arenaNewPage c s a bin = .ok (none, s')) :
    HeapOk c s' ∧ SameMeta s s' ∧ SameThreads s s' ∧
      ∀ r, IsData s.segs r → ∀ y, r.start ≤ y → y < r.start + 65536 → s'.mem y = s.mem y := by
  have hgrown := h.grown he
  have hflat : arenaNewPage c s.flat a bin = .ok (none, s'.flat) := by
    rw [arenaNewPage_flat, he]
    rfl
  have hspec := ensures_elim (arenaNewPage_spec (c := c) h.inv hbin hsize) hflat
  have hos : OsExt s.flat s'.flat := hspec.1
  have hsegs : s'.segs = s.segs := hos.same.segs
  have hthreads : SameThreads s s' := ⟨hos.sameThreads.tls, hos.sameThreads.counter⟩
  have hsame : SameMeta s s' := by
    refine ⟨hsegs, ?_, hos.same.registry, hos.same.larges⟩
    unfold arenaNewPage at he
    split at he
    next => cases he
    next seg _ =>
      have hs := Except.ok.inj he
      unfold segmentAllocPage at hs
      split at hs
      next => exact absurd (congrArg Prod.fst hs) (by simp)
      next =>
        obtain rfl : s = s' := congrArg Prod.snd hs
        rfl
    next =>
      rcases hcreate : segmentCreate c s a with ⟨seg, s₁⟩
      rw [hcreate] at he
      simp only at he
      split at he
      next h0 =>
        obtain rfl : s₁ = s' := congrArg Prod.snd (Except.ok.inj he)
        rcases segmentCreate_spec hcreate with ⟨-, hext⟩ | ⟨hne, -⟩
        · exact hext.same.pages
        · exact absurd h0 hne
      next h0 =>
        -- the new segment would have been there before
        obtain ⟨hd, hno⟩ := h.segmentCreate_new hcreate h0
        have hd' := ((segmentAllocPage_grown (linkSegment s₁ a seg) seg bin).2.1 _).mpr
          (((linkSegment_grown s₁ a seg).2.2 _).mpr hd)
        rw [Except.ok.inj he, hsegs] at hd'
        exact absurd hd' hno
  exact ⟨h.books (h.inv.osExt hos) hgrown.mem hsame hthreads, hsame, hthreads, hgrown.mem⟩

/-- A page that is set up has no owner. -/
theorem Homes.opened (h : Homes s) (hi : Ids s) {a bin : Nat} (ho : Opened s a bin r s')
    (ha : a < numArenas)
    (hcache : ∀ t x b q, s.tls t = some x → x.binPage b = some q → Active s q) : Homes s' := by
  have hkept : ∀ q, Active s q → (s'.pages q).arena = (s.pages q).arena ∧
      (s'.pages q).ownerTid = (s.pages q).ownerTid := by
    intro q hq
    obtain ⟨nx, pr, he⟩ := ho.links q hq
    rw [he]
    exact ⟨rfl, rfl⟩
  refine ⟨?_, ?_, ?_, ?_, ?_⟩
  · rw [ho.threads.tls]
    exact h.arena_lt
  · intro q hq
    by_cases hqr : q = r
    · rw [hqr, ho.arena]
      exact ha
    · have hq' := ho.back q hqr hq
      rw [(hkept q hq').1]
      exact h.page_lt q hq'
  · intro u x b q hx hq
    rw [ho.threads.tls] at hx
    rw [(hkept q (hcache u x b q hx hq)).2]
    exact h.cached u x b q hx hq
  · intro q hq
    by_cases hqr : q = r
    · rw [hqr]
      exact Or.inl ho.owner
    · have hq' := ho.back q hqr hq
      rw [(hkept q hq').2, ho.threads.counter]
      exact h.owner q hq'
  · intro u x q hx hq hown
    rw [ho.threads.tls] at hx
    by_cases hqr : q = r
    · rw [hqr, ho.owner] at hown
      have hlt := hi.lt u x hx
      have hle := hi.counter
      omega
    · have hq' := ho.back q hqr hq
      rw [(hkept q hq').2] at hown
      rw [(hkept q hq').1]
      exact h.home u x q hx hq' hown

/-- A data page that is not in use is unused. -/
theorem HeapOk.unused (h : HeapOk c s) (hd : IsData s.segs r) (hno : ¬ Active s r) :
    (s.pages r).state = .unused := by
  obtain ⟨g, hg⟩ := Option.isSome_iff_exists.mp hd.1
  cases h.inv.pages.data (r := r) hg hd.2.1 hd.2.2 with
  | unused hs h0 hb hz => exact hs
  | active inv ha => exact absurd ⟨hd, inv.geom.active⟩ hno

/-- A new page for `arena_alloc`. -/
theorem HeapOk.newPage (h : HeapOk c s) {a bin : Nat} (ha : a < numArenas) (hbin : bin < binCount)
    (hsize : binToSize sizeTables bin ≤ 32768) (he : arenaNewPage c s a bin = .ok (some r, s')) :
    HeapOk c (binInsertPage s' a r) ∧ Opened s a bin r (binInsertPage s' a r) := by
  have hgrown := h.grown he
  have hinit := arenaNewPage_init he
  have hflat : arenaNewPage c s.flat a bin = .ok (some r, s'.flat) := by
    rw [arenaNewPage_flat, he]
    rfl
  have hspec := ensures_elim (arenaNewPage_spec (c := c) h.inv hbin hsize) hflat
  obtain ⟨-, hnew, -⟩ := hspec
  rw [binInsertPage_flat] at hnew
  have hmem := binInsertPage_mem s' a r
  have hsegs := (binInsertPage_segs s' a r).1
  have hlinks := binInsertPage_links s' a r
  generalize binInsertPage s' a r = s₂ at hnew hmem hsegs hlinks
  -- the state of a page is the same in the flat heap
  have hstate : ∀ q, q ≠ r → IsData s.segs q → (s₂.pages q).state = (s.pages q).state := by
    intro q hqr hd
    obtain ⟨-, nx, pr, hq⟩ := hnew.kept q hqr hd
    exact (congrArg PageMeta.state hq :)
  have hne : ∀ q, Active s q → q ≠ r := by
    rintro q hq rfl
    exact hnew.fresh hq
  have hdata : ∀ q, IsData s.segs q → IsData s₂.segs q := fun q hd => by
    rw [hsegs]
    exact hgrown.data q hd
  have hzero : UnusedZero s₂ ∧ ∀ y, r.start ≤ y → y < r.start + 65536 → s₂.mem y = 0 := by
    have hpage : ∀ q, IsData s₂.segs q → (IsData s.segs q → ¬ Active s q) →
        ∀ y, q.start ≤ y → y < q.start + 65536 → s₂.mem y = 0 := by
      intro q hd hno y h₁ h₂
      rw [hmem]
      by_cases hdq : IsData s.segs q
      · exact (hgrown.mem q hdq y h₁ h₂).trans ((h.zero q hdq (h.unused hdq (hno hdq))).2 y h₁ h₂)
      · exact hgrown.zero q (hsegs ▸ hd) hdq y h₁ h₂
    refine ⟨fun q hd hst => ?_, hpage r hnew.data fun _ => hnew.fresh⟩
    have hno : IsData s.segs q → ¬ Active s q := by
      intro hdq hact
      rw [hstate q (hne q hact) hdq, hact.2] at hst
      cases hst
    have hqr : some r ≠ some q := by
      rintro heq
      cases heq
      cases hst.symm.trans hnew.active
    refine ⟨?_, hpage q hd hno⟩
    obtain ⟨nx, pr, hq⟩ := hlinks q
    rw [hq]
    by_cases hdq : IsData s.segs q
    · show (s'.pages q).bumpOffset = 0
      rw [hgrown.pages q hdq hqr]
      exact (h.zero q hdq (h.unused hdq (hno hdq))).1
    · exact hgrown.fresh q (hsegs ▸ hd) hdq hqr
  have hopened : Opened s a bin r s₂ := by
    refine ⟨⟨hnew.threads.tls, hnew.threads.counter⟩, ⟨hnew.data, hnew.active⟩, hnew.fresh,
      hnew.arena,
      hnew.binIdx, hnew.owner, ?_, ?_, hzero.2, ?_, ?_, ?_, ?_⟩
    · obtain ⟨nx, pr, hr⟩ := hlinks r
      rw [hr]
      exact congrArg (fun p : PageMeta => { p with next := nx, prev := pr }) hinit
    · obtain ⟨nx, pr, hr⟩ := hlinks r
      have hb : (s₂.pages r).bumpOffset = 0 := by
        rw [hr]
        show (s'.pages r).bumpOffset = 0
        rw [← hinit]
        rfl
      rw [hb]
      exact Nat.lt_of_le_of_lt (Nat.zero_le _) hnew.bump
    · intro q hqr hact
      have hd := (hnew.others q hqr hact.1 hact.2).1
      exact ⟨hd, (hstate q hqr hd).symm.trans hact.2⟩
    · exact fun q hq => ⟨hdata q hq.1, (hstate q (hne q hq) hq.1).trans hq.2⟩
    · intro q hq
      obtain ⟨nx, pr, hq'⟩ := hlinks q
      rw [hq', hgrown.pages q hq.1 fun ho => hne q hq (Option.some.inj ho).symm]
      exact ⟨nx, pr, rfl⟩
    · intro q hq y h₁ h₂
      rw [hmem]
      exact hgrown.mem q hq.1 y h₁ h₂
  refine ⟨⟨hnew.quiet.inv, hzero.1, ⟨?_, ?_, ?_⟩, ?_⟩, hopened⟩
  · rw [hopened.threads.counter]
    exact h.ids.counter
  · rw [hopened.threads.tls, hopened.threads.counter]
    exact h.ids.lt
  · rw [hopened.threads.tls]
    exact h.ids.distinct
  · refine h.homes.opened h.ids hopened ha fun t x b q hx hq => ?_
    obtain ⟨hd, hst, -⟩ := h.cache hx b q hq
    exact ⟨hd, hst⟩

end CustomMalloc

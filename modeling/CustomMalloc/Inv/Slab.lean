import CustomMalloc.Inv.Arena
import CustomMalloc.Inv.Large

/-!
# The slab allocator preserves the invariant

`slabAllocInner` takes a slot from the thread's cached page or through
`arenaAlloc`; `slabFree` gives one back. A call only stops early where a thread
without an arena would flush its statistics, or where the arena counter has
wrapped (`Halt.undefined`).
-/

namespace CustomMalloc

open Lib.Words Lib.Bytes Lib.Chain Lib.Intervals Lib.Regions Lib.Post

variable {c : Cfg} {s s' : State} {G G' : Ghost}

/-! ## Statistics -/

/-- Only numbers were booked: the heap, the bytes and the caches are the same. -/
structure Booked (s : State) (t : Nat) (x : Tld) (s' : State) : Prop where
  same : SameMeta s s'
  mem : s'.mem = s.mem
  tls : ∃ y, s'.tls t = some y ∧ y.binPage = x.binPage ∧ y.threadId = x.threadId ∧ y.arena = x.arena
  others : ∀ t', t' ≠ t → s'.tls t' = s.tls t'
  arenaNext : s'.arenaNext = s.arenaNext

/-- The only way the bookkeeping stops: flushing without an arena. -/
def NoArena (x : Tld) (e : Halt) : Prop := e = .undefined ∧ x.arena = none

theorem tldStatStore_spec (h : Inv c s G) {t : Nat} {old x : Tld} (hold : s.tls t = some old)
    (ha : x.addr = old.addr) (hb : x.binPage = old.binPage) (har : x.arena = old.arena) :
    Ensures (fun e => NoArena x e ∧ statFlushInterval ≤ x.statOps) (tldStatStore s t x) fun s' =>
      Quiet c s G s' ∧ Booked s t x s' := by
  have hcache : CacheOk s.segs s.pages x := by
    intro b r hr
    rw [hb] at hr
    rw [har]
    exact h.tlds t old hold b r hr
  unfold tldStatStore
  split
  next hops =>
    unfold tldStatFlush
    split
    next harena => exact ⟨⟨rfl, harena⟩, hops⟩
    next a harena =>
      have hq := h.setArena_quiet (a := a) (x := { s.arenas a with
        allocated := ((s.arenas a).allocated + x.statAllocated) % 2 ^ 64
        freed := ((s.arenas a).freed + x.statFreed) % 2 ^ 64
        allocCount := ((s.arenas a).allocCount + x.statAllocCount) % 2 ^ 64
        freeCount := ((s.arenas a).freeCount + x.statFreeCount) % 2 ^ 64 }) rfl rfl rfl
      have hq' := hq.inv.setTld_quiet (t := t) (x := { x with
        statAllocated := 0, statFreed := 0, statAllocCount := 0, statFreeCount := 0, statOps := 0 })
        hold ha hcache
      exact ⟨hq.trans hq', ⟨rfl, rfl, rfl, rfl⟩, rfl, ⟨_, upd_same .., rfl, rfl, rfl⟩,
        fun t' ht => upd_ne ht, rfl⟩
  next =>
    exact ⟨h.setTld_quiet hold ha hcache, ⟨rfl, rfl, rfl, rfl⟩, rfl,
      ⟨_, upd_same .., rfl, rfl, rfl⟩,
      fun t' ht => upd_ne ht, rfl⟩

/-! ## The cached page -/

/-- A step of thread `t` on page `r` alone: other pages, the segments and the
other threads are untouched, and `r` keeps its shape and owner. -/
structure OnPage (s : State) (t : Nat) (r : PageRef) (s' : State) : Prop where
  segs : s'.segs = s.segs
  registry : s'.segmentRegistry = s.segmentRegistry
  larges : s'.larges = s.larges
  pages : ∀ q, q ≠ r → s'.pages q = s.pages q
  shape : SameShape (s.pages r) (s'.pages r)
  owner : (s'.pages r).ownerTid = (s.pages r).ownerTid
  others : ∀ t', t' ≠ t → s'.tls t' = s.tls t'
  arenaNext : s'.arenaNext = s.arenaNext

theorem OnPage.trans {s₁ s₂ s₃ : State} {t : Nat} {r : PageRef} (h : OnPage s₁ t r s₂)
    (h' : OnPage s₂ t r s₃) : OnPage s₁ t r s₃ :=
  ⟨h'.segs.trans h.segs, h'.registry.trans h.registry, h'.larges.trans h.larges,
    fun q hq => (h'.pages q hq).trans (h.pages q hq), h.shape.trans h'.shape,
    h'.owner.trans h.owner,
    fun t' ht => (h'.others t' ht).trans (h.others t' ht), h'.arenaNext.trans h.arenaNext⟩

/-- What no step on a page changes. -/
structure PageKept (p p' : PageMeta) : Prop where
  state : p'.state = p.state
  arena : p'.arena = p.arena
  binIdx : p'.binIdx = p.binIdx
  ownerTid : p'.ownerTid = p.ownerTid

theorem OnPage.kept {t : Nat} {r : PageRef} (h : OnPage s t r s') (q : PageRef) :
    PageKept (s.pages q) (s'.pages q) := by
  by_cases hqr : q = r
  · rw [hqr]
    exact ⟨h.shape.state, h.shape.arena, h.shape.binIdx, h.owner⟩
  · rw [h.pages q hqr]
    exact ⟨rfl, rfl, rfl, rfl⟩

theorem OnPage.activeKept {t : Nat} {r : PageRef} (h : OnPage s t r s') : ActiveKept s s' := by
  intro q hd hact
  have hk := h.kept q
  exact ⟨by rw [h.segs]; exact hd, hk.state.trans hact, hk.arena, hk.binIdx⟩

theorem takeSlot_spec (h : Inv c s G) {t slot : Nat} {tld : Tld} {r : PageRef} {p p' : PageMeta}
    (ht : s.tls t = some tld) (hd : IsData s.segs r) (hact : (s.pages r).state = .active)
    (hm : markAllocated c p slot = .ok p')
    (hp : PageInv.Taken c s.mem r (s.pages r) p' (G.busy r) slot) :
    Ensures (NoArena tld) (takeSlot c s t tld r p slot) fun s' =>
      Alloc c s G slot (s.pages r).slotSize s' (G.take r slot) ∧ s'.mem = s.mem ∧
        OnPage s t r s' ∧ s'.pages r = p' ∧
        ∃ y, s'.tls t = some y ∧ y.binPage = tld.binPage ∧ y.threadId = tld.threadId ∧
          y.arena = tld.arena := by
  have halloc := h.take hd hact hp
  unfold takeSlot tldStatAlloc
  rw [hm]
  have hbook := tldStatStore_spec halloc.inv (t := t) (x := { tld with
    statAllocated := (tld.statAllocated + p'.slotSize) % 2 ^ 64
    statAllocCount := (tld.statAllocCount + 1) % 2 ^ 64
    statOps := (tld.statOps + 1) % 2 ^ 32 }) ht rfl rfl rfl
  refine ensures_bad (ensures_mono hbook ?_) fun e he => he.1
  rintro s' ⟨hq, hb⟩
  have hr : s'.pages r = p' := by rw [hb.same.pages]; exact upd_same ..
  refine ⟨halloc.before hq, hb.mem, ⟨hb.same.segs, hb.same.registry, hb.same.larges, fun q hq => ?_,
    by rw [hr]; exact hp.shape, by rw [hr]; exact hp.owner, hb.others, hb.arenaNext⟩, hr, hb.tls⟩
  rw [hb.same.pages]
  exact upd_ne hq

/-- Rewriting a page without moving a busy slot hands out nothing. -/
theorem Inv.setPage_quiet (h : Inv c s G) {r : PageRef} (p' : PageMeta) {m' : Mem}
    (hd : IsData s.segs r) (hact : (s.pages r).state = .active) (hshape : SameShape (s.pages r) p')
    (hinv : PageInv c.debug m' r p' (G.busy r))
    (hframe : PageFrame s.mem m' r (s.pages r).slotSize (G.busy r)) :
    Quiet c s G { s.setPage r p' with mem := m' } := by
  have hi := h.setPage hd hact hshape hinv fun y hy => ⟨(hframe y hy).1, (hframe y hy).2.1⟩
  have hk := h.setPage_keeps (P := fun _ => True) hd hshape hframe fun p hp _ => ⟨hp, hp⟩
  rw [upd_eta] at hi hk
  refine ⟨hi, hk, fun q k hb => ?_⟩
  cases hb with
  | slab r' hq =>
    have hsz := congrFun (upd_proj PageMeta.slotSize hshape.slotSize) r'
    have hb' : Blk s G q (s.pages r').slotSize := .slab r' hq
    rw [← hsz] at hb'
    exact hb'
  | large hl => exact .large hl

/-- Moving the remote frees to the local list hands out nothing. -/
theorem Inv.collect (h : Inv c s G) {r : PageRef} (hd : IsData s.segs r)
    (hact : (s.pages r).state = .active) :
    ∃ m' p', pageCollectRemote s.mem (s.pages r) = .ok (m', p') ∧
      Quiet c s G { s.setPage r p' with mem := m' } ∧ SameShape (s.pages r) p' ∧
      p'.ownerTid = (s.pages r).ownerTid ∧ p'.bumpOffset = (s.pages r).bumpOffset ∧
      taggedPtr p'.remoteFree = 0 := by
  obtain ⟨hinv, -⟩ := h.active hd hact
  obtain ⟨m', p', he, hshape, hown, hinv', hframe, hbump, hrem⟩ := hinv.collect
  exact ⟨m', p', he, h.setPage_quiet _ hd hact hshape hinv' hframe, hshape, hown, hbump, hrem⟩

/-- A page with no slot left to hand out. -/
def PageFull (p : PageMeta) : Prop :=
  p.localFree = 0 ∧ taggedPtr p.remoteFree = 0 ∧ ¬ p.bumpOffset < p.bumpEnd

/-- The fast path: a slot of the cached page, or the page is full and leaves the
cache. -/
structure CachedPost (c : Cfg) (s : State) (G : Ghost) (t : Nat) (tld : Tld) (bin : Nat)
    (r : PageRef) (o : Option (Nat × Bool)) (s' : State) : Prop where
  on : OnPage s t r s'
  got : ∀ slot zeroed, o = some (slot, zeroed) →
    Alloc c s G slot (slotSizeOf bin) s' (G.take r slot) ∧
    (zeroed = true → ∀ y, slot ≤ y → y < slot + slotSizeOf bin → s'.mem y = 0) ∧
    ∃ y, s'.tls t = some y ∧ y.binPage = tld.binPage ∧ y.threadId = tld.threadId ∧
      y.arena = tld.arena
  full : o = none → Quiet c s G s' ∧ PageFull (s'.pages r) ∧
    s'.tls t = some { tld with binPage := upd tld.binPage bin none }

theorem cachedAlloc_spec (h : Inv c s G) {t bin : Nat} {tld : Tld} {r : PageRef}
    (ht : s.tls t = some tld) (hr : tld.binPage bin = some r) :
    Ensures (fun _ => False) (cachedAlloc c s t tld bin r) fun (o, s') =>
      CachedPost c s G t tld bin r o s' := by
  obtain ⟨hd, hact, hbin, hsome⟩ := h.tlds t tld ht bin r hr
  -- a thread with a cached page has an arena, so its statistics can be flushed
  suffices hmain : Ensures (NoArena tld) (cachedAlloc c s t tld bin r) fun (o, s') =>
      CachedPost c s G t tld bin r o s' from
    ensures_bad hmain fun e he => by
      rw [he.2] at hsome
      cases hsome
  obtain ⟨hinv, -⟩ := h.active hd hact
  have hsz : (s.pages r).slotSize = slotSizeOf bin := by rw [hinv.geom.slot_eq, hbin]
  unfold cachedAlloc
  simp only
  split
  next hloc =>
    obtain ⟨p', hm, htaken, -⟩ := hinv.takeLocal hloc
    refine ensures_bind (takeSlot_spec h ht hd hact hm htaken) ?_
    rintro s' ⟨halloc, -, hon, -, htls⟩
    rw [hsz] at halloc
    refine ⟨hon, fun slot zeroed ho => ?_, fun ho => absurd ho (by simp)⟩
    obtain ⟨rfl, rfl⟩ := Prod.mk.inj (Option.some.inj ho)
    exact ⟨halloc, fun hz => absurd hz (by simp), htls⟩
  next hloc =>
  split
  next hlt =>
    obtain ⟨p', hm, htaken, hz, -⟩ := hinv.takeBump hlt
    refine ensures_bind (takeSlot_spec h ht hd hact hm htaken) ?_
    rintro s' ⟨halloc, hmem, hon, -, htls⟩
    rw [hsz] at halloc
    refine ⟨hon, fun slot zeroed ho => ?_, fun ho => absurd ho (by simp)⟩
    obtain ⟨rfl, rfl⟩ := Prod.mk.inj (Option.some.inj ho)
    refine ⟨halloc, fun _ y h₁ h₂ => ?_, htls⟩
    rw [hmem]
    exact hz y h₁ (by rw [hsz]; exact h₂)
  next hlt =>
    obtain ⟨m', p', he, hq, hshape, hown, hbump, hrem⟩ := h.collect hd hact
    refine ensures_bind (P := fun x => x = (m', p')) (by rw [he]; rfl) ?_
    rintro _ rfl
    simp only
    -- everything below happens in the state after the collection
    have hpr : ({ s.setPage r p' with mem := m' } : State).pages r = p' := upd_same ..
    have hact' : (({ s.setPage r p' with mem := m' } : State).pages r).state = .active := by
      rw [hpr, hshape.state]
      exact hact
    have hon : OnPage s t r { s.setPage r p' with mem := m' } :=
      ⟨rfl, rfl, rfl, fun q hq => upd_ne hq, by rw [hpr]; exact hshape, by rw [hpr]; exact hown,
        fun _ _ => rfl, rfl⟩
    split
    next hloc' =>
      obtain ⟨hinv', -⟩ := hq.inv.active (r := r) hd hact'
      rw [hpr] at hinv'
      obtain ⟨p'', hm, htaken, -⟩ := hinv'.takeLocal hloc'
      refine ensures_bind (takeSlot_spec hq.inv ht hd hact' hm (by rw [hpr]; exact htaken)) ?_
      rintro s' ⟨halloc, -, hon', -, htls⟩
      rw [hpr, hshape.slotSize, hsz] at halloc
      refine ⟨hon.trans hon', fun slot zeroed ho => ?_, fun ho => absurd ho (by simp)⟩
      obtain ⟨rfl, rfl⟩ := Prod.mk.inj (Option.some.inj ho)
      exact ⟨.after hq halloc, fun hz => absurd hz (by simp), htls⟩
    next hloc' =>
      have hq' := hq.inv.setTld_quiet (t := t)
        (x := { tld with binPage := upd tld.binPage bin none }) ht rfl fun b q hbq => ?_
      · refine ⟨⟨hon.segs, hon.registry, hon.larges, hon.pages, hon.shape, hon.owner,
          fun t' htt => upd_ne htt, rfl⟩, fun _ _ ho => absurd ho (by simp), fun _ =>
          ⟨hq.trans hq', ?_, upd_same ..⟩⟩
        show PageFull (upd s.pages r p' r)
        rw [upd_same]
        exact ⟨Classical.not_not.mp hloc', hrem, by rw [hbump, hshape.bumpEnd]; exact hlt⟩
      · by_cases hb : b = bin
        · subst hb
          simp only [upd_same] at hbq
          cases hbq
        · exact hq.inv.tlds t tld ht b q ((upd_ne hb).symm.trans hbq)

/-! ## From a pointer to its page -/

/-- Masking an address of a data page gives the segment. -/
theorem Inv.segment_of (h : Inv c s G) {r : PageRef} {x : Nat} (hd : IsData s.segs r)
    (h₁ : r.start ≤ x) (h₂ : x < r.start + 65536) :
    x &&& (2 ^ 64 - segmentSize) = r.seg ∧ (x - r.seg) / 65536 = r.idx := by
  obtain ⟨g, hg⟩ := Option.isSome_iff_exists.mp hd.1
  obtain ⟨q, hq⟩ := (h.segOk hg).al
  have hlt := (h.segOk hg).lt
  obtain ⟨-, hlo, hhi⟩ := hd
  unfold PageRef.start at h₁ h₂
  have hmask := and_highMask (k := 22) (x := x) (by decide) (by omega)
  have hsize : segmentSize = 2 ^ 22 := rfl
  rw [hsize, hmask]
  omega

/-- `ptr_to_page` finds the page of a registered segment, and no page otherwise. -/
theorem Inv.ptrToPage_eq (h : Inv c s G) {r : PageRef} {x : Nat} (hd : IsData s.segs r)
    (h₁ : r.start ≤ x) (h₂ : x < r.start + 65536) :
    ptrToSegment s x = (if segmentIsRegistered s.segmentRegistry r.seg then r.seg else 0) ∧
    ptrToPage s x = if segmentIsRegistered s.segmentRegistry r.seg then some r else none := by
  obtain ⟨hseg, hidx⟩ := h.segment_of hd h₁ h₂
  obtain ⟨g, hg⟩ := Option.isSome_iff_exists.mp hd.1
  have hpos := (h.segOk hg).pos
  have hhi := hd.2.2
  have hps : ptrToSegment s x =
      if segmentIsRegistered s.segmentRegistry r.seg then r.seg else 0 := by
    unfold ptrToSegment
    simp only [hseg]
  refine ⟨hps, ?_⟩
  unfold ptrToPage
  rw [hps]
  split
  next hreg =>
    have hi : (x - r.seg) / pageSizeAlloc % 2 ^ 16 = r.idx := by
      rw [show pageSizeAlloc = 65536 from rfl, hidx]
      exact Nat.mod_eq_of_lt (by omega)
    simp only [hi]
    rw [if_neg (by omega), if_neg (by simp only [pagesPerSegment]; omega)]
  next hreg => simp

/-! ## The slow path -/

/-- Claiming the page of a fresh slot: nothing happens in an unregistered segment. -/
theorem claimPage_eq {s₀ : State} {t a bin slot : Nat} {tld : Tld} {r : PageRef}
    (hb : Bumped c s₀ G a bin r slot s) :
    claimPage s t bin slot tld =
      if segmentIsRegistered s.segmentRegistry r.seg then
        (s.setPage r { s.pages r with ownerTid := tld.threadId }).setTld t
          { tld with binPage := upd tld.binPage bin (some r) }
      else s := by
  obtain ⟨hd, h₁, h₂⟩ := hb.in_page
  have hge : 0 < slotSizeOf bin := by
    obtain ⟨-, hinv⟩ := hb.alloc.inv.busy_active (r := r) (p := slot) (by simp [Ghost.take])
    have := hinv.geom.slot_ge
    rw [hinv.geom.slot_eq, hb.binIdx] at this
    omega
  unfold claimPage
  rw [(hb.alloc.inv.ptrToPage_eq hd h₁ (by omega)).2]
  by_cases hreg : segmentIsRegistered s.segmentRegistry r.seg = true
  · simp only [if_pos hreg]
    rw [if_pos hb.owner]
  · simp only [if_neg hreg]

theorem claimPage_quiet {s₀ : State} {t a bin slot : Nat} {tld : Tld} {r : PageRef}
    (hb : Bumped c s₀ G a bin r slot s) (ht : s.tls t = some tld) (ha : tld.arena.isSome) :
    Quiet c s (G.take r slot) (claimPage s t bin slot tld) := by
  have h := hb.alloc.inv
  obtain ⟨hd, hinv⟩ := h.busy_active (r := r) (p := slot) (by simp [Ghost.take])
  have hact := hinv.geom.active
  rw [claimPage_eq hb]
  split
  next =>
    have hq := h.setPage_quiet { s.pages r with ownerTid := tld.threadId } hd hact
      ⟨rfl, rfl, rfl, rfl, rfl, rfl, rfl, rfl, rfl, rfl⟩ (hinv.relink tld.threadId _ _)
        PageFrame.refl
    have hstate := upd_proj PageMeta.state (g := s.pages) (a := r)
      (b := { s.pages r with ownerTid := tld.threadId }) rfl
    have hbin := upd_proj PageMeta.binIdx (g := s.pages) (a := r)
      (b := { s.pages r with ownerTid := tld.threadId }) rfl
    refine hq.trans (hq.inv.setTld_quiet (t := t)
      (x := { tld with binPage := upd tld.binPage bin (some r) }) ht rfl fun b q hbq => ?_)
    by_cases hbb : b = bin
    · subst hbb
      cases (upd_same ..).symm.trans hbq
      exact ⟨hd, (congrFun hstate r).trans hact, (congrFun hbin r).trans hb.binIdx, ha⟩
    · exact hq.inv.tlds t tld ht b q ((upd_ne hbb).symm.trans hbq)
  next => exact Quiet.refl h

/-- The slow path's result for a non-null slot. `new` says that the page is an old
unowned one, or that no page of the bin could serve. -/
structure SlowGot (c : Cfg) (s : State) (G : Ghost) (t a bin : Nat) (hasTld : Bool) (r : PageRef)
    (slot : Nat) (s' : State) : Prop where
  alloc : Alloc c s G slot (slotSizeOf bin) s' (G.take r slot)
  zero : ∀ y, slot ≤ y → y < slot + slotSizeOf bin → s'.mem y = 0
  arena : (s'.pages r).arena = a
  binIdx : (s'.pages r).binIdx = bin
  noFrees : (IsData s.segs r → (s.pages r).state = .active → NoFrees (s.pages r)) →
    NoFrees (s'.pages r)
  others : OtherPages s r s'
  kept : ActiveKept s s'
  attached : ∀ {y}, s'.tls t = some y → y.arena = some a
  sameArena : ∀ {x b}, s.tls t = some x → x.arena = some b → a = b
  unclaimed : hasTld = false → (s'.pages r).ownerTid = noOwner
  old : (IsData s.segs r ∧ (s.pages r).state = .active) ∨
    (¬ (IsData s.segs r ∧ (s.pages r).state = .active) ∧
      ∀ q, InBin s.segs s.pages a bin q → scanTest s q = false)
  claim : ∀ {x}, s.tls t = some x → hasTld = true → ∃ y, s'.tls t = some y ∧
    y.threadId = x.threadId ∧ y.arena = some a ∧
    ((y.binPage = upd x.binPage bin (some r) ∧ (s'.pages r).ownerTid = x.threadId) ∨
      (y.binPage = x.binPage ∧ (s'.pages r).ownerTid = noOwner ∧
        segmentIsRegistered s'.segmentRegistry r.seg = false))

structure SlowPost (c : Cfg) (s : State) (G : Ghost) (t bin : Nat) (hasTld : Bool) (slot : Nat)
    (zeroed : Bool) (s' : State) : Prop where
  segExt : SegExt s s'
  null : slot = 0 → zeroed = false ∧ Quiet c s G s' ∧ SameMeta s s' ∧
    ∀ {x}, s.tls t = some x → ∃ y, s'.tls t = some y ∧ y.binPage = x.binPage ∧
      y.threadId = x.threadId ∧ ∀ b, x.arena = some b → y.arena = some b
  freshTld : hasTld = false → s.tls t = none → FreshTld s t s'
  got : slot ≠ 0 → ∃ a r, SlowGot c s G t a bin hasTld r slot s'

/-- What the attached thread's data are after `arena_get`, for a thread that had some. -/
theorem AttachPost.tld {t a : Nat} (h : AttachPost c s G t a s') {x : Tld} (hx : s.tls t = some x) :
    s'.tls t = some { x with arena := some a } := by
  obtain ⟨y, hy⟩ := Option.isSome_iff_exists.mp (h.stays hx)
  obtain ⟨-, ⟨old, hold, rfl⟩ | ⟨hnone, -⟩⟩ := h.tls hy
  · cases hx.symm.trans hold
    exact hy
  · cases hnone.symm.trans hx

/-- A bumped slot, seen from before `arena_get` and before the claim. -/
theorem SlowGot.mk' {s₁ s₂ : State} {t a bin slot : Nat} {r : PageRef}
    (hat : AttachPost c s G t a s₁)
    (hb : Bumped c s₁ G a bin r slot s₂)
    (hold : (IsData s₁.segs r ∧ (s₁.pages r).state = .active) ∨
      (¬ (IsData s₁.segs r ∧ (s₁.pages r).state = .active) ∧
        ∀ q, InBin s₁.segs s₁.pages a bin q → scanTest s₁ q = false)) :
    SlowGot c s G t a bin false r slot s₂ := by
  have hq : Quiet c s G s₁ := .of_same hat.inv hat.keeps hat.same
  have hpages : OtherPages s r s₁ := fun q _ hd _ =>
    ⟨by rw [← hat.same.segs]; exact hd, (s.pages q).next, (s.pages q).prev, by rw [hat.same.pages]⟩
  refine ⟨.after hq hb.alloc, hb.zero, hb.arena, hb.binIdx, fun hno => hb.noFrees ?_,
    hpages.trans hb.others, hat.same.activeKept.trans hb.kept, fun hy => ?_, hat.arena,
    fun _ => hb.owner, ?_,
    fun _ hf => absurd hf (by simp)⟩
  · rw [hat.same.segs, hat.same.pages]
    exact hno
  · rw [hb.threads.tls] at hy
    exact (hat.tls hy).1
  · rw [← hat.same.segs, ← hat.same.pages]
    rcases hold with hold | ⟨hne, hscan⟩
    · exact Or.inl hold
    · refine Or.inr ⟨hne, fun q hbin => ?_⟩
      have := hscan q hbin
      unfold scanTest at this ⊢
      rw [← hat.same.pages]
      exact this

/-- After the claim. -/
theorem SlowGot.claimed {s₁ s₂ : State} {t a bin slot : Nat} {r : PageRef} {tld : Tld}
    (hat : AttachPost c s G t a s₁) (hb : Bumped c s₁ G a bin r slot s₂)
    (h : SlowGot c s G t a bin false r slot s₂) (ht : s₂.tls t = some tld) :
    SlowGot c s G t a bin true r slot (claimPage s₂ t bin slot tld) := by
  rw [hb.threads.tls] at ht
  have har := (hat.tls ht).1
  have hq := claimPage_quiet hb (by rw [hb.threads.tls]; exact ht) (by rw [har]; rfl)
  rw [claimPage_eq hb] at hq ⊢
  have hclaim : ∀ {x}, s.tls t = some x → tld = { x with arena := some a } := fun hx =>
    Option.some.inj (ht.symm.trans (hat.tld hx))
  split
  next hreg =>
    rw [if_pos hreg] at hq
    refine ⟨h.alloc.before hq, h.zero, ?_, ?_, fun hno => ?_, h.others.trans fun q hqr hd _ => ?_,
      h.kept.trans fun q hd hact => ?_, fun hy => ?_, h.sameArena, fun hf => absurd hf (by simp),
      h.old, fun {x} hx _ => ?_⟩
    · simp [State.setTld, State.setPage, hb.arena]
    · simp [State.setTld, State.setPage, hb.binIdx]
    · simp only [State.setTld, State.setPage, upd_same]
      exact h.noFrees hno
    · have hpq : (upd s₂.pages r { s₂.pages r with ownerTid := tld.threadId }) q = s₂.pages q :=
        upd_ne hqr
      exact ⟨hd, (s₂.pages q).next, (s₂.pages q).prev,
        by simp only [State.setTld, State.setPage, hpq]⟩
    · refine ⟨hd, ?_⟩
      by_cases hqr : q = r
      · subst hqr
        simp [State.setTld, State.setPage, hact]
      · simp [State.setTld, State.setPage, hqr, hact]
    · cases (upd_same ..).symm.trans hy
      exact har
    · obtain rfl := hclaim hx
      refine ⟨_, upd_same .., rfl, rfl, Or.inl ⟨rfl, ?_⟩⟩
      simp [State.setTld, State.setPage]
  next hreg =>
    refine ⟨h.alloc, h.zero, h.arena, h.binIdx, h.noFrees, h.others, h.kept, h.attached,
      h.sameArena,
      fun hf => absurd hf (by simp), h.old, fun {x} hx _ => ?_⟩
    obtain rfl := hclaim hx
    refine ⟨{ x with arena := some a }, ?_, rfl, rfl,
      Or.inr ⟨rfl, hb.owner, Bool.eq_false_iff.mpr hreg⟩⟩
    rw [hb.threads.tls]
    exact ht

theorem claimPage_segs (s : State) (t bin slot : Nat) (tld : Tld) :
    (claimPage s t bin slot tld).segs = s.segs ∧
      (claimPage s t bin slot tld).segmentRegistry = s.segmentRegistry := by
  unfold claimPage
  split
  next => exact ⟨rfl, rfl⟩
  next r _ =>
    split
    next => exact ⟨rfl, rfl⟩
    next =>
      split
      next => exact ⟨rfl, rfl⟩
      next => exact ⟨rfl, rfl⟩

theorem slowAlloc_spec (h : Inv c s G) {t bin : Nat} (hasTld : Bool) (hbin : bin < binCount)
    (hsize : binToSize sizeTables bin ≤ 32768) :
    Ensures (Wrapped s) (slowAlloc c s t bin hasTld) fun ((slot, zeroed), s') =>
      SlowPost c s G t bin hasTld slot zeroed s' := by
  unfold slowAlloc
  refine ensures_bind (arenaGet_spec h t) ?_
  rintro ⟨a, s₁⟩ hat
  refine ensures_bind
    (ensures_bad (arenaAlloc_spec (a := a) hat.inv hbin hsize) fun _ he => he.elim) ?_
  rintro ⟨⟨slot, zeroed⟩, s₂⟩ hpost
  have hext : SegExt s s₂ :=
    hpost.segExt.after hat.same.segs hat.same.registry hat.same.larges
  have hnull : slot = 0 → zeroed = false ∧ Quiet c s G s₂ ∧ SameMeta s s₂ ∧
      ∀ {x}, s.tls t = some x → ∃ y, s₂.tls t = some y ∧ y.binPage = x.binPage ∧
        y.threadId = x.threadId ∧ ∀ b, x.arena = some b → y.arena = some b := by
    intro h0
    obtain ⟨hz, hos, -⟩ := hpost.null h0
    have hsame := hos.same
    have hq : Quiet c s G s₂ := .trans (.of_same hat.inv hat.keeps hat.same)
      (.of_same (hat.inv.osExt hos) (hat.inv.osExt_keeps hos _) hsame)
    refine ⟨hz, hq, ⟨hsame.segs.trans hat.same.segs, hsame.pages.trans hat.same.pages,
      hsame.registry.trans hat.same.registry, hsame.larges.trans hat.same.larges⟩, fun {x} hx => ?_⟩
    obtain ⟨_, _, _, _, rfl, -⟩ := hos
    exact ⟨_, hat.tld hx, rfl, rfl, fun b hb => by rw [hat.arena hx hb]⟩
  have hthreads : SameThreads s₁ s₂ := by
    by_cases h0 : slot = 0
    · exact (hpost.null h0).2.1.sameThreads
    · obtain ⟨r, hb, -⟩ := hpost.got h0
      exact hb.threads
  have hfresh : s.tls t = none → FreshTld s t s₂ := fun hn => (hat.freshTld hn).before hthreads
  simp only
  split
  next tld hcond ht =>
    simp only [Bool.and_eq_true, bne_iff_ne, ne_eq] at hcond
    obtain ⟨hsegs, hreg⟩ := claimPage_segs s₂ t bin slot tld
    refine ⟨hext.before hsegs hreg, fun h0 => absurd h0 hcond.2,
      fun hf => absurd (hf.symm.trans hcond.1) (by simp), fun h0 => ?_⟩
    obtain ⟨r, hb, hold⟩ := hpost.got h0
    rw [hcond.1]
    exact ⟨a, r, SlowGot.claimed hat hb (.mk' hat hb hold) ht⟩
  next hno =>
    refine ⟨hext, hnull, fun _ => hfresh, fun h0 => ?_⟩
    obtain ⟨r, hb, hold⟩ := hpost.got h0
    refine ⟨a, r, { SlowGot.mk' hat hb hold with
      unclaimed := fun _ => hb.owner
      claim := fun {x} hx hhas => ?_ }⟩
    exact absurd (by rw [hb.threads.tls]; exact hat.tld hx) (hno _ (by simp [hhas, h0]))

/-! ## Allocation -/

/-- The request is served from a slab page, not rerouted to a large mapping. -/
def SlabSized (size : Nat) : Prop :=
  size ≤ mediumMax ∧ binToSize sizeTables (sizeToBin sizeTables size) ≤ 32768

/-- The result of an allocation of `size` bytes: null, or a new block with room
for them, zero if the flag says so. A slab request gets a slot of its bin. -/
structure AllocPost (c : Cfg) (s : State) (G : Ghost) (size p : Nat) (zeroed : Bool) (s' : State) :
    Prop where
  segExt : SegExt s s'
  null : p = 0 → Quiet c s G s'
  got : p ≠ 0 → ∃ k G', size ≤ k ∧ Alloc c s G p k s' G' ∧
    (zeroed = true → ∀ y, p ≤ y → y < p + k → s'.mem y = 0) ∧
    (SlabSized size → k = slotSizeOf (sizeToBin sizeTables size) ∧ ∃ r, p ∈ G'.busy r)

/-- A small request never wraps. -/
theorem largeFits_small {size : Nat} (h : size ≤ 131072) : LargeFits c size 16 := by
  have hP := c.osPage_le
  have hlt := alignUp_lt c.osPage_pos (48 + size)
  have h48 : alignUp (raisedAlign 16) 48 = 48 := by decide
  have h16 : raisedAlign 16 = 16 := by decide
  unfold LargeFits
  rw [h48, h16]
  exact ⟨by omega, fun _ => by omega⟩

theorem LargePost.allocPost {size p : Nat} (h : LargePost c s G size 16 p s')
    (hns : ¬ SlabSized size) : AllocPost c s G size p false s' :=
  ⟨.of_eq h.frame.segs h.frame.registry, h.null, fun h0 => by
    obtain ⟨b, ha, -⟩ := h.got h0
    exact ⟨size, _, Nat.le_refl _, ha, fun hf => absurd hf (by simp), fun hs => absurd hs hns⟩⟩

theorem largeAlloc_spec (h : Inv c s G) {size p : Nat} (hfit : LargeFits c size 16)
    (hpos : 0 < size)
    (he : largeAlloc c s size = .ok (p, s')) : LargePost c s G size 16 p s' :=
  largeAllocAligned_spec (k := 4) h (by decide) hfit (Or.inl hpos) he

theorem largeAlloc_returns (s : State) {size : Nat} (hfit : LargeFits c size 16) :
    ∃ p s', largeAlloc c s size = .ok (p, s') := by
  obtain ⟨p, s', he, -⟩ := largeAllocAligned_returns s (k := 4) (by decide) hfit
  exact ⟨p, s', he⟩

/-- The slot of the bin of a size holds that size. -/
theorem slotSizeOf_ge {size : Nat} (hpos : 0 < size) (hle : size ≤ mediumMax) :
    size ≤ slotSizeOf (sizeToBin sizeTables size) := by
  have h₁ := (sizeToBin_fits hpos hle).2
  have h₂ := le_alignUp (show 0 < 16 by decide)
    (max 16 (binToSize sizeTables (sizeToBin sizeTables size)))
  unfold slotSizeOf
  omega

theorem SlowPost.allocPost {t size slot : Nat} {hasTld zeroed : Bool} (hle : size ≤ mediumMax)
    (hpos : 0 < size) (h : SlowPost c s G t (sizeToBin sizeTables size) hasTld slot zeroed s') :
    AllocPost c s G size slot zeroed s' := by
  refine ⟨h.segExt, fun h0 => (h.null h0).2.1, fun h0 => ?_⟩
  obtain ⟨a, r, hg⟩ := h.got h0
  refine ⟨_, _, ?_, hg.alloc, fun _ => hg.zero, fun _ => ⟨rfl, r, by simp [Ghost.take]⟩⟩
  exact slotSizeOf_ge hpos hle

theorem AllocPost.after {s₁ s₂ s₃ : State} {size p : Nat} {zeroed : Bool} (hq : Quiet c s₁ G s₂)
    (hs : s₂.segs = s₁.segs) (hr : s₂.segmentRegistry = s₁.segmentRegistry)
    (hl : s₂.larges = s₁.larges) (h : AllocPost c s₂ G size p zeroed s₃) :
    AllocPost c s₁ G size p zeroed s₃ := by
  refine ⟨h.segExt.after hs hr hl, fun h0 => hq.trans (h.null h0), fun h0 => ?_⟩
  obtain ⟨k, G', hk, ha, hz, hsl⟩ := h.got h0
  exact ⟨k, G', hk, .after hq ha, hz, hsl⟩

/-- The size every allocation function works with. -/
def atLeastOne (size : Nat) : Nat := if size = 0 then 1 else size

theorem atLeastOne_pos (size : Nat) : 0 < atLeastOne size := by
  unfold atLeastOne
  split <;> omega

theorem le_atLeastOne (size : Nat) : size ≤ atLeastOne size := by
  unfold atLeastOne
  split <;> omega

theorem LargeFits.atLeastOne {size : Nat} (h : LargeFits c size 16) :
    LargeFits c (atLeastOne size) 16 := by
  unfold CustomMalloc.atLeastOne
  split
  next => exact largeFits_small (by decide)
  next => exact h

/-- `slab_alloc_inner` for a size its bins serve. -/
theorem slabAllocInner_slab (h : Inv c s G) {t size : Nat} (hpos : 0 < size) (hs : SlabSized size) :
    Ensures (Wrapped s) (slabAllocInner c s t size) fun ((p, zeroed), s') =>
      AllocPost c s G size p zeroed s' := by
  obtain ⟨hle, hslot⟩ := hs
  obtain ⟨hbin, -⟩ := sizeToBin_fits hpos hle
  have hslow : ∀ {s₁ : State} (hasTld : Bool), Quiet c s G s₁ → s₁.segs = s.segs →
      s₁.segmentRegistry = s.segmentRegistry → s₁.larges = s.larges → s₁.arenaNext = s.arenaNext →
      Ensures (Wrapped s) (slowAlloc c s₁ t (sizeToBin sizeTables size) hasTld)
        fun ((p, zeroed), s') => AllocPost c s G size p zeroed s' := by
    intro s₁ hasTld hq hsegs hreg hlarges hnext
    refine ensures_bad (ensures_mono (slowAlloc_spec hq.inv hasTld hbin hslot) ?_) ?_
    · rintro ⟨⟨p, zeroed⟩, s'⟩ hp
      exact (hp.allocPost hle hpos).after hq hsegs hreg hlarges
    · rintro e ⟨he, hlt⟩
      exact ⟨he, hnext ▸ hlt⟩
  unfold slabAllocInner
  simp only [if_neg (show ¬ size = 0 by omega), if_neg (Nat.not_lt.mpr hle),
    if_neg (show ¬ pageSizeAlloc / 2 < binToSize sizeTables (sizeToBin sizeTables size) from
      Nat.not_lt.mpr hslot)]
  rcases htld : tldGet c s t with ⟨o, s₁⟩
  have hp := tldGet_spec h htld
  have hq : Quiet c s G s₁ := .of_same hp.inv hp.keeps hp.ext.same
  have hnext : s₁.arenaNext = s.arenaNext := by
    obtain ⟨_, _, _, _, _, _, rfl⟩ := hp.ext
    rfl
  cases o with
  | none => exact hslow false hq hp.ext.same.segs hp.ext.same.registry hp.ext.same.larges hnext
  | some tld =>
    simp only
    split
    next => exact hslow true hq hp.ext.same.segs hp.ext.same.registry hp.ext.same.larges hnext
    next r hr =>
      have hact := (hp.inv.tlds t tld hp.got _ r hr).2.1
      rw [if_pos hact]
      refine ensures_bind (ensures_bad (cachedAlloc_spec hp.inv hp.got hr) fun _ he => he.elim) ?_
      rintro ⟨found, s₂⟩ hc
      cases found with
      | some found =>
        obtain ⟨slot, zeroed⟩ := found
        obtain ⟨halloc, hz, -⟩ := hc.got slot zeroed rfl
        refine AllocPost.after hq hp.ext.same.segs hp.ext.same.registry hp.ext.same.larges
          ⟨.of_eq hc.on.segs hc.on.registry, fun h0 => ?_, fun _ =>
            ⟨_, _, slotSizeOf_ge hpos hle, halloc, hz, fun _ => ⟨rfl, r, by simp [Ghost.take]⟩⟩⟩
        exact absurd h0 (Nat.ne_of_gt (halloc.inv.blk_align halloc.new).2)
      | none =>
        obtain ⟨hq₂, -⟩ := hc.full rfl
        exact hslow true (hq.trans hq₂) (hc.on.segs.trans hp.ext.same.segs)
          (hc.on.registry.trans hp.ext.same.registry) (hc.on.larges.trans hp.ext.same.larges)
          (hc.on.arenaNext.trans hnext)

/-- A request for nothing is one for a byte. -/
theorem slabAllocInner_atLeastOne (c : Cfg) (s : State) (t size : Nat) :
    slabAllocInner c s t size = slabAllocInner c s t (atLeastOne size) := by
  have hpos := atLeastOne_pos size
  unfold slabAllocInner
  rw [show (if size = 0 then 1 else size) = atLeastOne size from rfl]
  simp only [if_neg (show ¬ atLeastOne size = 0 by omega)]

/-- What no slab page can serve goes to the large allocator. -/
theorem slabAllocInner_large {t size : Nat} (hpos : 0 < size) (hs : ¬ SlabSized size) :
    slabAllocInner c s t size = largeAlloc c s size >>= fun x => .ok ((x.1, false), x.2) := by
  unfold slabAllocInner
  simp only [if_neg (show ¬ size = 0 by omega)]
  split
  next => rfl
  next hle =>
    rw [if_pos]
    · rfl
    · by_contra hc
      exact hs ⟨Nat.not_lt.mp hle, Nat.not_lt.mp hc⟩

/-- `slab_alloc_inner` for any size. -/
theorem slabAllocInner_spec (h : Inv c s G) {t size : Nat} (hfit : LargeFits c size 16) :
    Ensures (Wrapped s) (slabAllocInner c s t size) fun ((p, zeroed), s') =>
      AllocPost c s G (atLeastOne size) p zeroed s' := by
  have hpos := atLeastOne_pos size
  rw [slabAllocInner_atLeastOne]
  by_cases hs : SlabSized (atLeastOne size)
  · exact slabAllocInner_slab h hpos hs
  · obtain ⟨p, s', he⟩ := largeAlloc_returns s hfit.atLeastOne
    rw [slabAllocInner_large hpos hs, he]
    exact (largeAlloc_spec h hfit.atLeastOne hpos he).allocPost hs

/-! ## Freeing -/

/-- The slot `x` of page `r` is taken back. -/
def Ghost.drop (G : Ghost) (r : PageRef) (x : Nat) : Ghost :=
  { G with busy := upd G.busy r ((G.busy r).erase x) }

/-- Taking back a slot of an active page. -/
theorem Inv.release (h : Inv c s G) {r : PageRef} {x : Nat} {p' : PageMeta} {m' : Mem}
    (hx : x ∈ G.busy r) (hshape : SameShape (s.pages r) p')
    (hinv : PageInv c.debug m' r p' ((G.busy r).erase x))
    (hframe : PageFrame s.mem m' r (s.pages r).slotSize ((G.busy r).erase x)) :
    Release c s G x { s with pages := upd s.pages r p', mem := m' } (G.drop r x) := by
  obtain ⟨hd, hpage⟩ := h.busy_active hx
  have hnd := hpage.busy_nodup
  have hreg := h.slab_region hx
  refine ⟨h.setPage hd hpage.geom.active hshape hinv
    fun y hy => ⟨(hframe y hy).1, (hframe y hy).2.1⟩,
    h.setPage_keeps hd hshape hframe fun q hq hne => ?_, fun k hb => ?_, fun q k hb => ?_⟩
  · have hm : q ∈ (G.busy r).erase x := (hnd.mem_erase_iff).mpr ⟨hne, hq⟩
    exact ⟨hm, hm⟩
  · rcases hb.split with ⟨r', hq, -⟩ | ⟨b, la, hl, hu, -⟩
    · by_cases hrr : r' = r
      · subst hrr
        simp only [Ghost.drop, upd_same] at hq
        exact ((hnd.mem_erase_iff).mp hq).1 rfl
      · simp only [Ghost.drop, upd_ne hrr] at hq
        obtain ⟨hd', hpage'⟩ := h.busy_active hq
        obtain ⟨b₁, b₂, -⟩ := hpage.busy_in hx
        obtain ⟨b₁', b₂', -⟩ := hpage'.busy_in hq
        have := hpage.geom.slot_ge
        have := hpage'.geom.slot_ge
        exact hrr (h.page_unique hd' hd b₁' (by omega) b₁ (by omega))
    · exact (h.apart_of_regions (by simp) hreg ((h.larges.each hl).region hl)).1 hu
  · rcases hb.split with ⟨r', hq, rfl⟩ | ⟨b, la, hl, rfl, rfl⟩
    · have hsz := congrFun (upd_proj PageMeta.slotSize hshape.slotSize) r'
      refine .ofSlab ?_ hsz.symm
      by_cases hrr : r' = r
      · subst hrr
        simp only [Ghost.drop, upd_same] at hq
        exact ((hnd.mem_erase_iff).mp hq).2
      · simpa only [Ghost.drop, upd_ne hrr] using hq
    · exact .large hl

theorem mmap_setPage (c : Cfg) (s : State) (r : PageRef) (p : PageMeta) (n : Nat) :
    mmap c (s.setPage r p) n = ((mmap c s n).1, (mmap c s n).2.setPage r p) := by
  unfold mmap
  rw [show (s.setPage r p).answers = s.answers from rfl]
  split
  next => rfl
  next => rfl
  next a rest _ =>
    rw [show canMap c (s.setPage r p) a n = canMap c s a n from rfl]
    split <;> rfl

/-- `tld_get` does not look at pages. -/
theorem tldGet_setPage (c : Cfg) (s : State) (t : Nat) (r : PageRef) (p : PageMeta) :
    tldGet c (s.setPage r p) t = ((tldGet c s t).1, (tldGet c s t).2.setPage r p) := by
  unfold tldGet
  rw [show (s.setPage r p).tls = s.tls from rfl]
  split
  next => rfl
  next =>
    unfold osMmapAligned
    simp only [if_pos (Nat.le_refl c.osPage), mmap_setPage]
    rcases mmap c s c.osPage with ⟨o, s₁⟩
    cases o with
    | none => rfl
    | some a =>
      simp only
      split <;> rfl

/-- A step that gave back a slot of page `r`: nothing else of the heap changed, no
virgin slot was touched, and the calling thread's cache is what it was. -/
structure FreePost (c : Cfg) (s : State) (G : Ghost) (t : Nat) (r : PageRef) (x : Nat)
    (s' : State) :
    Prop where
  release : Release c s G x s' (G.drop r x)
  on : OnPage s t r s'
  bump : (s'.pages r).bumpOffset = (s.pages r).bumpOffset
  cache : ∀ {y}, s.tls t = some y → ∃ y', s'.tls t = some y' ∧ y'.binPage = y.binPage ∧
    y'.threadId = y.threadId ∧ y'.arena = y.arena

/-- A thread that seems to own a page but never got an arena: only wrapped thread
ids lead there. -/
def Orphan (s : State) (t : Nat) (r : PageRef) (e : Halt) : Prop :=
  e = .undefined ∧ ∃ x, s.tls t = some x ∧ x.arena = none ∧ (s.pages r).ownerTid = x.threadId

/-- A step on one page after `tld_get`. -/
theorem OnPage.ofTld {s₁ : State} {t : Nat} {r : PageRef} {o : Option Tld} {q : PageMeta}
    (hp : TldPost c s G t o s₁) (hr : s'.pages r = q) (hshape : SameShape (s.pages r) q)
    (hown : q.ownerTid = (s.pages r).ownerTid) (hsegs : s'.segs = s₁.segs)
    (hreg : s'.segmentRegistry = s₁.segmentRegistry) (hl : s'.larges = s₁.larges)
    (hnext : s'.arenaNext = s₁.arenaNext) (hpages : ∀ q, q ≠ r → s'.pages q = s₁.pages q)
    (htls : ∀ t', t' ≠ t → s'.tls t' = s₁.tls t') : OnPage s t r s' := by
  have hsame := hp.ext.same
  refine ⟨hsegs.trans hsame.segs, hreg.trans hsame.registry, hl.trans hsame.larges,
    fun q hq => by rw [hpages q hq, hsame.pages], by rw [hr]; exact hshape, by rw [hr]; exact hown,
    fun t' ht => (htls t' ht).trans (hp.others t' ht), hnext.trans ?_⟩
  obtain ⟨_, _, _, _, _, _, rfl⟩ := hp.ext
  rfl

theorem slabFree_spec (h : Inv c s G) {t x : Nat} {r : PageRef} (hx : x ∈ G.busy r)
    (hreg : segmentIsRegistered s.segmentRegistry r.seg = true) (hlow : r.start + 65536 ≤ 2 ^ 48) :
    Ensures (Orphan s t r) (slabFree c s t x) fun s' => FreePost c s G t r x s' := by
  obtain ⟨hd, hpage⟩ := h.busy_active hx
  obtain ⟨b₁, b₂, -⟩ := hpage.busy_in hx
  have hge := hpage.geom.slot_ge
  have hact := hpage.geom.active
  obtain ⟨hseg, hptr⟩ := h.ptrToPage_eq (x := x) hd b₁ (by omega)
  rw [if_pos hreg] at hseg hptr
  have hsegpos : r.seg ≠ 0 := by
    obtain ⟨g, hg⟩ := Option.isSome_iff_exists.mp hd.1
    exact Nat.ne_of_gt (h.segOk hg).pos
  rcases htld : tldGet c s t with ⟨o, s₁⟩
  have hp := tldGet_spec h htld
  have hq : Quiet c s G s₁ := .of_same hp.inv hp.keeps hp.ext.same
  have hpages := hp.ext.same.pages
  -- the page is the same after `tld_get`, and its bytes too
  obtain ⟨-, hpage₁⟩ := hp.inv.busy_active hx
  obtain ⟨p', hm, hrel⟩ := hpage₁.release hx
  rw [hpages] at hm
  unfold slabFree
  rw [if_neg (show ¬ x = 0 by have := hpage.geom.start_pos; omega),
    if_neg (by rw [hseg]; exact hsegpos), hptr]
  simp only [hact]
  rw [if_neg (by simp)]
  refine ensures_bind (P := fun q => p' = q) (by rw [hm]; rfl) ?_
  rintro _ rfl
  simp only [tldGet_setPage, htld]
  have hset : ∀ (q : PageMeta) (m : Mem),
    ({ (s₁.setPage r p').setPage r q with mem := m } : State) =
      { s₁ with pages := upd s₁.pages r q, mem := m } := by
    intro q m
    simp only [State.setPage, upd_upd]
  have hbump : p'.bumpOffset = (s.pages r).bumpOffset := by
    rw [← hpages]
    exact hrel.bump
  have hremote : FreePost c s G t r x (freeRemote (s₁.setPage r p') r p' x) := by
    have hshape := hrel.shape.trans (pageFreeSlotRemote_shape s₁.mem p' x)
    have hr := hp.inv.release hx hshape (hrel.remote_inv hlow) hrel.remote_frame
    have hown : (pageFreeSlotRemote s₁.mem p' x).2.ownerTid = (s.pages r).ownerTid := by
      rw [← hpages, (pageFreeSlot_owner ..).2]
      exact hrel.owner
    rw [hpages] at hshape
    unfold freeRemote
    simp only [hset]
    refine ⟨.after hq (hr.before (hr.inv.setArena_quiet rfl rfl rfl)), ?_, ?_, fun {y} hy => ?_⟩
    · exact .ofTld hp (upd_same ..) hshape hown rfl rfl rfl rfl (fun q hq => upd_ne hq)
        fun _ _ => rfl
    · simp only [arenaCreditFree, State.setArena, upd_same]
      exact hbump
    · obtain rfl := hp.old hy
      exact ⟨y, hy, rfl, rfl, rfl⟩
  cases o with
  | none => exact hremote
  | some tld =>
    simp only
    split
    next howner =>
      have hshape := hrel.shape.trans (pageFreeSlotLocal_shape s₁.mem p' x)
      have hr := hp.inv.release hx hshape hrel.local_inv hrel.local_frame
      have hown : (pageFreeSlotLocal s₁.mem p' x).2.ownerTid = (s.pages r).ownerTid := by
        rw [← hpages, (pageFreeSlot_owner ..).1]
        exact hrel.owner
      rw [hpages] at hshape
      unfold freeLocal tldStatFree
      simp only [hset]
      have hbook := tldStatStore_spec hr.inv (t := t) (x := { tld with
        statFreed := (tld.statFreed + p'.slotSize) % 2 ^ 64
        statFreeCount := (tld.statFreeCount + 1) % 2 ^ 64
        statOps := (tld.statOps + 1) % 2 ^ 32 }) hp.got rfl rfl rfl
      refine ensures_bad (ensures_mono hbook ?_) ?_
      · rintro s' ⟨hq', hb⟩
        have hpr : s'.pages r = (pageFreeSlotLocal s₁.mem p' x).2 := by
          rw [hb.same.pages]
          exact upd_same ..
        refine ⟨.after hq (hr.before hq'), ?_, by rw [hpr]; exact hbump, fun {y} hy => ?_⟩
        · exact .ofTld hp hpr hshape hown hb.same.segs hb.same.registry hb.same.larges hb.arenaNext
            (fun q hq => by rw [hb.same.pages]; exact upd_ne hq) hb.others
        · obtain rfl := hp.old hy
          cases hy.symm.trans hp.got
          exact hb.tls
      · rintro e ⟨⟨he, harena⟩, hops⟩
        refine ⟨he, tld, ?_, harena, ?_⟩
        · -- fresh thread-local data have booked nothing yet
          cases hy : s.tls t with
          | none =>
            obtain ⟨-, -, h0, -⟩ := hp.fresh hy tld rfl
            simp only [h0, statFlushInterval] at hops
            omega
          | some y =>
            obtain rfl := hp.old hy
            exact hy.symm.trans hp.got
        · rw [← howner, ← hpages]
          exact hrel.owner.symm
    next => exact hremote

end CustomMalloc

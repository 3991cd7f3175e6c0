import CustomMalloc.Inv.SettledOps
import CustomMalloc.SlabRun

/-!
# Frees, retirement and the kernel in heaps with retired pages

The rest of what happens to a settled heap: large blocks come, slots are given back,
empty pages are retired, clients write into their blocks, and the kernel drops bytes it
was advised to drop.
-/

namespace CustomMalloc

open Lib.Words Lib.Bytes Lib.Chain Lib.Intervals Lib.Post Lib.Relate

variable {c : Cfg} {v : Bool} {s s' s₁ s₂ s₃ : State} {G G' : Ghost} {r q : PageRef} {t p n : Nat}

/-! ## Large blocks -/

theorem Settled.largeAlloc (h : Settled v c s G) {size : Nat} (hfit : LargeFits c size 16)
    (hpos : 0 < size) (he : largeAlloc c s size = .ok (p, s')) :
    (p = 0 → Rested v c s G s') ∧ (p ≠ 0 → ∃ G', Handed v c s G p size s' G') := by
  obtain ⟨m, hsh⟩ := h.shadow
  obtain ⟨⟨p₁, s₂⟩, he₁, hp, hal⟩ := (hsh.alike.largeAlloc (c := c) size).returns he
  obtain rfl : p = p₁ := hp.symm
  have hpost := largeAlloc_spec hsh.inv hfit hpos he₁
  have hsegs : s'.segs = s.segs := hal.same.segs.symm.trans hpost.frame.segs
  have hpages : s'.pages = s.pages := hal.same.pages.symm.trans hpost.frame.pages
  have hcarved : SameCarved s s' := by
    refine .of_page (r := ⟨0, 0⟩) hsegs (fun q _ => by rw [hpages]) ?_ ?_
    · rw [hpages]
    · rw [hpages]
  have hcaches : CachesData s' := by
    obtain ⟨_, _, _, _, _, _, _, _, rfl⟩ := largeAlloc_form he
    exact h.caches
  refine ⟨fun h0 => hsh.rested hal (hpost.null h0) hcarved hcaches, fun h0 => ?_⟩
  obtain ⟨b, ha, -⟩ := hpost.got h0
  refine ⟨_, hsh.handed hal ha (hcarved.carves p size) (fun _ q _ hne hact => ?_) hcaches⟩
  rw [hpages] at hact
  exact absurd hact hne

/-! ## `slab_alloc` -/

/-- The page in the thread's cache for `bin` is active but belongs to another bin. -/
def Stale (s : State) (t bin : Nat) : Prop :=
  ∃ x r, s.tls t = some x ∧ x.binPage bin = some r ∧ (s.pages r).state = .active ∧
    (s.pages r).binIdx ≠ bin

/-- A thread with a cached page had its data before the call. -/
theorem tldGet_cached {x : Tld} {bin : Nat} (he : tldGet c s t = (some x, s₁))
    (hr : x.binPage bin = some r) : s.tls t = some x ∧ s₁ = s := by
  rcases tldGet_cases he with ⟨y, hy, hx, rfl⟩ | ⟨-, hx, -⟩ | ⟨s₂, addr, -, -, hx, -⟩
  · cases hx
    exact ⟨hy, rfl⟩
  · cases hx
  · cases hx
    cases hr

/-- A slot was handed out; unless the cache was stale, it is one of the bin. -/
structure SlotPost (v : Bool) (c : Cfg) (s : State) (G : Ghost) (t bin p : Nat) (zeroed : Bool)
    (s' : State) (r : PageRef) : Prop where
  handed : Handed v c s G p (s'.pages r).slotSize s' (G.take r p)
  binIdx : ¬ Stale s t bin → (s'.pages r).binIdx = bin
  zero : v = false → zeroed = true → ∀ y, p ≤ y → y < p + (s'.pages r).slotSize → s'.mem y = 0

/-- A slot of the slow path has the size of its bin. -/
theorem SlotPost.ofSlow {bin : Nat} {zeroed : Bool} (hrest : Rested v c s G s₁)
    (hhand : Handed v c s₁ G p (slotSizeOf bin) s' (G.take r p)) (hb : (s'.pages r).binIdx = bin)
    (hz : v = false → ∀ y, p ≤ y → y < p + slotSizeOf bin → s'.mem y = 0) :
    SlotPost v c s G t bin p zeroed s' r := by
  obtain ⟨m, hinv, -⟩ := hhand.settled.bare
  obtain ⟨-, hpage⟩ := hinv.busy_active (r := r) (p := p) (by simp [Ghost.take])
  have hsize : slotSizeOf bin = (s'.pages r).slotSize := by
    rw [← hb]
    exact hpage.geom.slot_eq.symm
  rw [hsize] at hhand hz
  exact ⟨hhand.after hrest, fun _ => hb, fun hv _ => hz hv⟩

theorem Settled.slabAllocInner_slab (h : Settled v c s G) {size : Nat} {zeroed : Bool}
    (hpos : 0 < size) (hs : SlabSized size) (hzero : v = false → ∀ a, UsesArena s t a →
      NextZero s a)
    (he : slabAllocInner c s t size = .ok ((p, zeroed), s')) :
    (p = 0 → Rested v c s G s') ∧
      (p ≠ 0 → ∃ r, SlotPost v c s G t (sizeToBin sizeTables size) p zeroed s' r) := by
  obtain ⟨hbin, -⟩ := sizeToBin_fits hpos hs.1
  -- the slow path, after steps that handed out nothing
  have hslow : ∀ {s₁ : State} {hasTld : Bool}, Rested v c s G s₁ → SameNext s s₁ →
      (∀ a, UsesArena s₁ t a → UsesArena s t a) →
      CustomMalloc.slowAlloc c s₁ t (sizeToBin sizeTables size) hasTld = .ok ((p, zeroed), s') →
      (p = 0 → Rested v c s G s') ∧
        (p ≠ 0 → ∃ r, SlotPost v c s G t (sizeToBin sizeTables size) p zeroed s' r) := by
    intro s₁ hasTld hrest hnext huses he
    obtain ⟨hnull, hgot⟩ := hrest.settled.slowAlloc hbin hs.2
      (fun hv a ha => (hzero hv a (huses a ha)).after hnext) he
    refine ⟨fun h0 => hrest.trans (hnull h0), fun h0 => ?_⟩
    obtain ⟨r, hhand, hb, hz⟩ := hgot h0
    exact ⟨r, .ofSlow hrest hhand hb hz⟩
  -- the fast path, on the page that is in the cache
  have hfast : ∀ {x : Tld} {r : PageRef} {s₂ : State} {o : Option (Nat × Bool)},
      s.tls t = some x → x.binPage (sizeToBin sizeTables size) = some r →
      (s.pages r).state = .active →
      CustomMalloc.cachedAlloc c s t x (sizeToBin sizeTables size) r = .ok (o, s₂) →
      FastPost v c s G r o s₂ := by
    intro x r s₂ o hx hr hact hc
    obtain ⟨hd, ha⟩ := h.caches t x hx _ r hr
    exact h.cachedAlloc hx hd hact ha hc
  cases slabAllocInner_cases hpos hs he with
  | cached x r s₁ htld hr hact hc =>
    obtain ⟨hx, rfl⟩ := tldGet_cached htld hr
    have hpost := hfast hx hr hact hc
    obtain ⟨hhand, hz⟩ := hpost.got p zeroed rfl
    rw [← hpost.shape.slotSize] at hhand hz
    refine ⟨fun h0 => ?_, fun _ => ⟨r, hhand, fun hstale => ?_, hz⟩⟩
    · obtain ⟨m, hinv, -⟩ := hhand.settled.bare
      have hblk : Blk (s'.bare m) (G.take r p) p (s'.pages r).slotSize :=
        .slab r (by simp [Ghost.take])
      exact absurd h0 (Nat.ne_of_gt (hinv.blk_align hblk).2)
    · by_contra hne
      rw [hpost.shape.binIdx] at hne
      exact hstale ⟨x, r, hx, hr, hact, hne⟩
  | full x r s₁ s₂ htld hr hact hc hmore =>
    obtain ⟨hx, rfl⟩ := tldGet_cached htld hr
    have hpost := hfast hx hr hact hc
    refine hslow (hpost.full rfl) (hpost.next rfl) (fun a ha b hb => ha b ?_) hmore
    rcases cachedAlloc_cases hc with ⟨-, -, htls⟩ | ⟨ho, -⟩
    · rw [htls, upd_same]
      rw [hx] at hb
      exact hb
    · cases ho
  | missed o s₁ htld hmiss he =>
    obtain ⟨hrest, hsame, hgot⟩ := h.tldGet htld
    refine hslow hrest (h.sameNext hsame (fun a => by rw [tldGet_arenas htld])
      fun y hy => tldGet_mem htld hy) (fun a ha b hb => ha b ?_) he
    rw [hgot]
    exact tldGet_arena htld hb

/-- A block was handed out for a request of `size` bytes. -/
structure ServedPost (v : Bool) (c : Cfg) (s : State) (G : Ghost) (t size p : Nat) (zeroed : Bool)
    (s' : State) : Prop where
  null : p = 0 → Rested v c s G s'
  slab : SlabSized size → p ≠ 0 →
    ∃ r, SlotPost v c s G t (sizeToBin sizeTables size) p zeroed s' r
  large : ¬ SlabSized size → zeroed = false ∧ (p ≠ 0 → ∃ G', Handed v c s G p size s' G')

theorem Settled.slabAllocInner (h : Settled v c s G) {size : Nat} {zeroed : Bool}
    (hfit : LargeFits c size 16) (hzero : v = false → ∀ a, UsesArena s t a → NextZero s a)
    (he : slabAllocInner c s t size = .ok ((p, zeroed), s')) :
    ServedPost v c s G t (atLeastOne size) p zeroed s' := by
  have hpos := atLeastOne_pos size
  rw [slabAllocInner_atLeastOne] at he
  by_cases hs : SlabSized (atLeastOne size)
  · obtain ⟨hnull, hgot⟩ := h.slabAllocInner_slab hpos hs hzero he
    exact ⟨hnull, fun _ => hgot, fun hno => absurd hs hno⟩
  · rw [slabAllocInner_large hpos hs] at he
    obtain ⟨⟨q, s₁⟩, hl, he⟩ := bind_eq_ok he
    obtain ⟨hp, rfl⟩ := Prod.mk.inj (Except.ok.inj he)
    cases hp
    obtain ⟨hnull, hgot⟩ := h.largeAlloc hfit.atLeastOne hpos hl
    exact ⟨hnull, fun hyes => absurd hyes hs, fun _ => ⟨rfl, hgot⟩⟩

/-! ## Frees -/

theorem slabFree_caches (h : CachesData s) (hs : s'.segs = s.segs)
    (he : slabFree c s t p = .ok s') : CachesData s' := by
  cases slabFree_cases he with
  | ignored hs' =>
    rw [hs']
    exact h
  | owned r p' x s₁ hr hm htld hown he =>
    have h₁ : CachesData s₁ := tldGet_caches (s := s.setPage r p') h htld
    obtain ⟨s₂, -, hsame, hbook⟩ := freeLocal_cases he
    have hx : s₁.tls t = some x := by
      rcases tldGet_cases htld with ⟨y, hy, hx, rfl⟩ | ⟨-, hx, -⟩ | ⟨s₃, addr, -, -, hx, rfl⟩
      · rw [hx]
        exact hy
      · cases hx
      · rw [hx]
        exact upd_same ..
    have hsegs₁ : s₁.segs = s.segs := by
      rcases tldGet_cases htld with ⟨y, -, -, rfl⟩ | ⟨-, -, hos⟩ | ⟨s₃, addr, -, hos, -, rfl⟩
      · rfl
      · exact hos.same.segs
      · exact hos.same.segs
    have hcache := (h₁ t x hx)
    have hset : ∀ y : Tld, s'.tls = upd s₁.tls t (some y) → CacheData s₁.segs y →
        CachesData s' := by
      intro y hy hdata
      refine h₁.set (t := t) (fun q hq => by rw [hs, ← hsegs₁]; exact hq)
        (fun u hu => by rw [hy, upd_ne hu]) ?_
      intro z hz
      rw [hy, upd_same] at hz
      cases hz
      rw [hs, ← hsegs₁]
      exact hdata
    unfold tldStatFree at hbook
    rcases tldStatStore_cases hbook with ⟨-, rfl⟩ | ⟨a, -, rfl⟩
    · exact hset _ (congrArg (upd · t _) hsame.tls) (hcache.same rfl rfl)
    · exact hset _ (congrArg (upd · t _) hsame.tls) (hcache.same rfl rfl)
  | remote r p' o s₁ hr hm htld hnot he =>
    have h₁ : CachesData s₁ := tldGet_caches (s := s.setPage r p') h htld
    rw [he]
    exact h₁

/-- A block is given back; a slot of a segment that is not registered stays handed out. -/
theorem Settled.slabFree (h : Settled v c s G) {k : Nat} (hb : Blk s G p k) (hlow : LowPtr s p)
    (he : slabFree c s t p = .ok s') :
    ∃ G', Settled v c s' G' ∧ ∀ q n, Blk s G q n → q ≠ p → Blk s' G' q n := by
  obtain ⟨m, hsh⟩ := h.shadow
  have hsame := hsh.alike.same
  have hignored : ptrToSegment s p = 0 → ∃ G', Settled v c s' G' ∧
      ∀ q n, Blk s G q n → q ≠ p → Blk s' G' q n := by
    intro h0
    rw [slabFree_ignored h0] at he
    cases he
    exact ⟨G, h, fun q n hq _ => hq⟩
  rcases hsh.inv.blk_cases ((hsame.blk p k).mpr hb) with ⟨r, hp, -, -, -⟩ | ⟨b, la, hl, hok, -, -⟩
  · by_cases hreg : segmentIsRegistered s.segmentRegistry r.seg = true
    · obtain ⟨s₂, he₂, hal⟩ := (hsh.alike.slabFree (c := c) (t := t) p).returns he
      have hlow' := hsh.inv.page_low hp (LowPtr.low (s := s.bare m) hlow hsh.inv r hp)
      have hpost := ensures_elim (slabFree_spec hsh.inv hp hreg hlow') he₂
      have hsegs : s'.segs = s.segs := hal.same.segs.symm.trans hpost.on.segs
      have hcarved : SameCarved s s' := by
        refine .of_page (r := r) hsegs (fun q hq => ?_) ?_ ?_
        · rw [← hal.same.pages, hpost.on.pages q hq, hsame.pages]
        · rw [← hal.same.pages, hpost.on.shape.state, hsame.pages]
        · rw [← hal.same.pages, hpost.bump, hsame.pages]
      refine ⟨_, .of_alike hal hpost.release.inv (fun y hy => Or.inl (hcarved.idle (hsh.idle y hy)))
        (slabFree_caches h.caches hsegs he), fun q n hq hne => ?_⟩
      rw [← hal.same.blk]
      exact (hpost.release.keeps q n ((hsame.blk q n).mpr hq) hne).1
    · refine hignored ?_
      obtain ⟨hd, hpage⟩ := hsh.inv.busy_active hp
      obtain ⟨b₁, b₂, -⟩ := hpage.busy_in hp
      have hge := hpage.geom.slot_ge
      have hptr := (hsh.inv.ptrToPage_eq hd b₁ (x := p) (by omega)).1
      exact hptr.trans (if_neg hreg)
  · exact hignored (hsh.inv.ptrToSegment_large hl hok)

/-! ## Retirement -/

/-- An empty data page is active: unused pages have `bump_offset` 0. -/
theorem Inv.empty_active (h : Inv c s G) (hd : IsData s.segs r)
    (hempty : pageIsEmpty (s.pages r) = true) : (s.pages r).state = .active ∧ G.busy r = [] := by
  unfold pageIsEmpty at hempty
  simp only [Bool.and_eq_true, beq_iff_eq, decide_eq_true_eq] at hempty
  obtain ⟨g, hg⟩ := Option.isSome_iff_exists.mp hd.1
  cases h.pages.data hg hd.2.1 hd.2.2 with
  | unused hs h0 hb hz =>
    have := hempty.2
    omega
  | active inv ha =>
    obtain ⟨k, loc, rem, hs⟩ := inv.slots
    refine ⟨inv.geom.active, List.eq_nil_of_length_eq_zero ?_⟩
    rw [← hs.used_eq]
    exact hempty.1

/-- `arena_free` with the page's own arena. -/
theorem Settled.arenaFree (h : Settled v c s G) (hd : IsData s.segs r) :
    Rested v c s G (arenaFree s (s.pages r).arena r) := by
  by_cases hempty : pageIsEmpty (s.pages r) = true
  · obtain ⟨m, hinv, hidle⟩ := h.bare
    obtain ⟨hact, hbusy⟩ := hinv.empty_active (r := r) hd hempty
    obtain ⟨hpage, g, hg, ha⟩ := hinv.active (r := r) hd hact
    obtain ⟨l, hl, hmem⟩ := hinv.bins (s.pages r).arena (s.pages r).binIdx
    have hr : r ∈ l := (hmem r).mpr ⟨hd, hact, rfl, rfl⟩
    rw [arenaFree_eq hempty hpage.geom.segment hg (hl.prev_ne hr) (hl.next_ne hr)]
    have hsame := sameSegs_setUsed (n := sub16 g.pagesUsed 1) hg
    -- the page's bytes become idle
    have hretire := hinv.retire (r := r) (n := sub16 g.pagesUsed 1)
      (m := fun y => if r.start ≤ y ∧ y < r.start + 65536 then 0 else m y) hd hact hbusy
      (fun t x b hx => by
        obtain ⟨x₀, -, rfl⟩ := Option.map_eq_some_iff.mp hx
        rfl)
      hg (fun y h₁ h₂ => if_pos ⟨h₁, h₂⟩) fun y hy => if_neg hy
    refine ⟨⟨⟨_, hretire, fun y hy => ?_⟩, ?_⟩, ?_⟩
    · by_cases hin : r.start ≤ y ∧ y < r.start + 65536
      · refine ⟨r, (hsame.isData r).mpr hd, hin.1, hin.2, Or.inl ?_⟩
        show (retiredPages s.pages r r).state ≠ .active
        rw [retiredPages_self]
        simp [retiredPage]
      · rw [if_neg hin] at hy
        obtain ⟨q, hdq, q₁, q₂, hcase⟩ := hidle y hy
        have hqr : q ≠ r := by
          rintro rfl
          exact hin ⟨q₁, q₂⟩
        obtain ⟨nx, pr, he, -⟩ := retiredPages_ne s.pages hqr
        refine ⟨q, (hsame.isData q).mpr hdq, q₁, q₂, ?_⟩
        unfold carved at hcase ⊢
        simp only [he]
        exact hcase
    · intro t x hx b q hq
      obtain ⟨hdq, harena⟩ := h.caches t x hx b q hq
      exact ⟨(hsame.isData q).mpr hdq, harena⟩
    · intro p n
      have hsize : ∀ q, (retiredPages s.pages r q).slotSize = (s.pages q).slotSize := by
        intro q
        by_cases hqr : q = r
        · rw [hqr, retiredPages_self]
          rfl
        · obtain ⟨nx, pr, he, -⟩ := retiredPages_ne s.pages hqr
          rw [he]
      constructor
      · intro hb
        cases hb with
        | slab q hp => exact .ofSlab hp (hsize q).symm
        | large hl => exact .large hl
      · intro hb
        cases hb with
        | slab q hp => exact .ofSlab hp (hsize q)
        | large hl => exact .large hl
  · unfold CustomMalloc.arenaFree
    rw [if_neg hempty]
    exact .refl h

/-! ## Bytes -/

/-- Clients write into their blocks. -/
theorem Settled.write (h : Settled v c s G) {m : Mem}
    (hm : ∀ y, m y ≠ s.mem y → ∃ p n, Blk s G p n ∧ p ≤ y ∧ y < p + n) :
    Rested v c s G { s with mem := m } := by
  obtain ⟨m₀, hinv, hidle⟩ := h.bare
  have hal : Alike (fun y => m₀ y ≠ m y) { s with mem := m } (s.bare m₀) := by
    refine .mk m₀ _ (fun y hy => Classical.not_not.mp hy) fun t => ?_
    cases s.tls t <;> rfl
  have hsame : SameMeta s { s with mem := m } := ⟨rfl, rfl, rfl, rfl⟩
  refine ⟨.of_alike hal hinv (fun y hy => ?_) h.caches, fun p n => hsame.blk p n⟩
  by_cases hy' : m y = s.mem y
  · rw [hy'] at hy
    exact Or.inl ((SameCarved.of_meta hsame).idle (hidle y hy))
  · obtain ⟨p, n, hb, h₁, h₂⟩ := hm y hy'
    exact Or.inr ⟨p, n, (hsame.blk p n).mpr hb, h₁, h₂⟩

/-- The byte `y` belongs to the link of a free slot. -/
def LinkByte (s : State) (y : Nat) : Prop :=
  ∃ r, IsData s.segs r ∧ (s.pages r).state = .active ∧ ∃ l z,
    (Linked (link s.mem) (ptr (s.pages r).localFree) l ∨
      Linked (link s.mem) (ptr (taggedPtr (s.pages r).remoteFree)) l) ∧
    z ∈ l ∧ z ≤ y ∧ y < z + 8

/-- The kernel drops bytes of data pages. -/
def Dropped (s : State) (m : Mem) : Prop :=
  ∀ y, m y ≠ s.mem y → m y = 0 ∧ ¬ LinkByte s y ∧
    ∃ r, IsData s.segs r ∧ r.start ≤ y ∧ y < r.start + 65536

/-- No link lies in a page that is not in use, so all of it may be dropped. -/
theorem Settled.dropped_unused (h : Settled v c s G) (hd : IsData s.segs q)
    (hne : (s.pages q).state ≠ .active) :
    Dropped s fun y => if q.start ≤ y ∧ y < q.start + 65536 then 0 else s.mem y := by
  obtain ⟨m, hsh⟩ := h.shadow
  intro y hy
  have hin : q.start ≤ y ∧ y < q.start + 65536 := by
    by_contra hnot
    exact hy (if_neg hnot)
  refine ⟨if_pos hin, ?_, q, hd, hin⟩
  rintro ⟨r, hdr, hact, l, z, hl, hz, h₁, h₂⟩
  obtain ⟨hpage, -⟩ := hsh.inv.active (r := r) hdr hact
  obtain ⟨k, loc, rem, hs⟩ := hpage.slots
  have hoff : ∀ z ∈ loc ++ rem, _ := fun z hz => hsh.links_off hdr hact hpage.geom hs hz
  -- the list is the page's own
  have hmem : z ∈ loc ++ rem := by
    rcases hl with hl | hl
    · rw [hl.unique (hsh.alike.agree.linked hs.local_linked fun z hz =>
        (hoff z (List.mem_append_left _ hz)).1)] at hz
      exact List.mem_append_left _ hz
    · rw [hl.unique (hsh.alike.agree.linked hs.remote_linked fun z hz =>
        (hoff z (List.mem_append_right _ hz)).1)] at hz
      exact List.mem_append_right _ hz
  exact (hoff z hmem).2 y h₁ h₂ ⟨q, hd, hin.1, hin.2, Or.inl hne⟩

theorem Settled.drop (h : Settled v c s G) {m : Mem} (hm : Dropped s m) :
    Rested v c s G { s with mem := m } := by
  classical
  obtain ⟨m₀, hsh⟩ := h.shadow
  have hinv := hsh.inv
  -- idle bytes stay what they are in the shadow
  let m₁ : Mem := fun y => if Idle v s y then m₀ y else m y
  have hkeep : ∀ y, ¬ Idle v s y → m₀ y = s.mem y := by
    intro y hy
    by_contra hne
    exact hy (hsh.idle y hne)
  have hpages : PagesOk c.debug m₁ (s.bare m₀).segs (s.bare m₀).pages G.busy := by
    refine ⟨fun {r g} hg h₁ h₂ => ?_, hinv.pages.rest⟩
    have hd : IsData s.segs r := isData_of hg h₁ h₂
    cases hinv.pages.data hg h₁ h₂ with
    | unused hs h0 hb hz =>
      refine .unused hs h0 hb fun y y₁ y₂ => ?_
      have hidle : Idle v s y :=
        ⟨r, hd, y₁, y₂, Or.inl (by rw [show (s.pages r).state = _ from hs]; simp)⟩
      show (if Idle v s y then m₀ y else m y) = 0
      rw [if_pos hidle]
      exact hz y y₁ y₂
    | active inv ha =>
      obtain ⟨k, loc, rem, hs⟩ := inv.slots
      have hact : (s.pages r).state = .active := inv.geom.active
      have hoff : ∀ z ∈ loc ++ rem, _ := fun z hz => hsh.links_off hd hact inv.geom hs hz
      -- the links are in neither set of bytes
      have hlink : ∀ l : List Nat, (∀ z ∈ l, z ∈ loc ++ rem) →
          (Linked (link s.mem) (ptr (s.pages r).localFree) l ∨
            Linked (link s.mem) (ptr (taggedPtr (s.pages r).remoteFree)) l) →
          ∀ z ∈ l, link m₁ z = link m₀ z := by
        intro l hsub hl z hz
        have hread : readWord m₁ z = readWord m₀ z := by
          refine readWord_congr fun y y₁ y₂ => ?_
          have hidle : ¬ Idle v s y := (hoff z (hsub z hz)).2 y y₁ y₂
          have hmy : m y = s.mem y := by
            by_contra hne
            exact (hm y hne).2.1 ⟨r, hd, hact, l, z, hl, hz, y₁, y₂⟩
          show (if Idle v s y then m₀ y else m y) = m₀ y
          rw [if_neg hidle, hmy, hkeep y hidle]
        unfold link
        rw [hread]
      have hlocal := hsh.alike.agree.linked hs.local_linked fun z hz =>
        (hoff z (List.mem_append_left _ hz)).1
      have hremote := hsh.alike.agree.linked hs.remote_linked fun z hz =>
        (hoff z (List.mem_append_right _ hz)).1
      refine .active ⟨inv.geom, ⟨k, loc, rem, { hs with
        local_linked := hs.local_linked.congr
          (hlink loc (fun z hz => List.mem_append_left _ hz) (Or.inl hlocal))
        remote_linked := hs.remote_linked.congr
          (hlink rem (fun z hz => List.mem_append_right _ hz) (Or.inr hremote))
        virgin := fun y y₁ y₂ => ?_ }⟩, inv.bits⟩ ha
      have hz := hs.virgin y y₁ y₂
      show (if Idle v s y then m₀ y else m y) = 0
      split
      next => exact hz
      next hidle =>
        by_cases hmy : m y = s.mem y
        · rw [hmy, ← hkeep y hidle]
          exact hz
        · exact (hm y hmy).1
  have hinv₁ : Inv c (s.bare m₁) G := { hinv with pages := hpages }
  have hsame : SameMeta s { s with mem := m } := ⟨rfl, rfl, rfl, rfl⟩
  refine ⟨⟨⟨m₁, hinv₁, fun y hy => ?_⟩, h.caches⟩, fun p n => hsame.blk p n⟩
  by_contra hidle
  exact hy (if_neg hidle)

end CustomMalloc

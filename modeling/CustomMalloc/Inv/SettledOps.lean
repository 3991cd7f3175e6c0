import CustomMalloc.Inv.Settled
import CustomMalloc.Inv.SlabFrame

/-!
# Slab calls in heaps with retired pages

Every call is compared with the same call in a state that satisfies `Inv` (`Shadow`):
`Rested` is what a call that hands out nothing leaves, `Handed` what one that hands out
a block does. The fast path is the one place where the cache matters: it may run on any
active page, whatever bin that page belongs to by now.
-/

namespace CustomMalloc

open Lib.Words Lib.Bytes Lib.Chain Lib.Intervals Lib.Post Lib.Relate

variable {c : Cfg} {v : Bool} {s s' s₁ s₂ s₃ : State} {G G' : Ghost} {r q : PageRef} {t p n : Nat}

/-- A step that hands out nothing and takes nothing back. -/
structure Rested (v : Bool) (c : Cfg) (s : State) (G : Ghost) (s' : State) : Prop where
  settled : Settled v c s' G
  blocks : ∀ p n, Blk s' G p n ↔ Blk s G p n

/-- A step that hands out the block `p` of `n` bytes. -/
structure Handed (v : Bool) (c : Cfg) (s : State) (G : Ghost) (p n : Nat) (s' : State)
    (G' : Ghost) :
    Prop where
  settled : Settled v c s' G'
  new : Blk s' G' p n
  fresh : ∀ k, ¬ Blk s G p k
  keeps : ∀ q k, Blk s G q k → Blk s' G' q k
  only : ∀ q k, Blk s' G' q k → q ≠ p → Blk s G q k

theorem Handed.after (h' : Handed v c s₁ G p n s' G') (h : Rested v c s G s₁) :
    Handed v c s G p n s' G' :=
  ⟨h'.settled, h'.new, fun k hb => h'.fresh k ((h.blocks p k).mpr hb),
    fun q k hb => h'.keeps q k ((h.blocks q k).mpr hb),
    fun q k hb hne => (h.blocks q k).mp (h'.only q k hb hne)⟩

theorem Handed.before (h : Handed v c s G p n s₁ G') (h' : Rested v c s₁ G' s') :
    Handed v c s G p n s' G' :=
  ⟨h'.settled, (h'.blocks p n).mpr h.new, h.fresh,
    fun q k hb => (h'.blocks q k).mpr (h.keeps q k hb),
    fun q k hb hne => h.only q k ((h'.blocks q k).mp hb) hne⟩

theorem Rested.trans (h : Rested v c s G s₁) (h' : Rested v c s₁ G s') : Rested v c s G s' :=
  ⟨h'.settled, fun p n => (h'.blocks p n).trans (h.blocks p n)⟩

theorem Rested.refl (h : Settled v c s G) : Rested v c s G s := ⟨h, fun _ _ => Iff.rfl⟩

theorem SameMeta.symm (h : SameMeta s s') : SameMeta s' s :=
  ⟨h.segs.symm, h.pages.symm, h.registry.symm, h.larges.symm⟩

theorem SameMeta.blk (h : SameMeta s s') (p n : Nat) : Blk s' G p n ↔ Blk s G p n :=
  ⟨fun hb => hb.same h.symm, fun hb => hb.same h⟩

/-- All caches name data pages. -/
def CachesData (s : State) : Prop := ∀ t x, s.tls t = some x → CacheData s.segs x

/-! ## From the shadow back -/

namespace Shadow

/-- A page that is not in use is zero in the shadow. -/
theorem unused_zero (h : Shadow v c s s₁ G) (hd : IsData s.segs q)
    (hne : (s.pages q).state ≠ .active) {y : Nat} (h₁ : q.start ≤ y) (h₂ : y < q.start + 65536) :
    s₁.mem y = 0 := by
  have hsame := h.alike.same
  rw [← hsame.segs] at hd
  obtain ⟨g, hg⟩ := Option.isSome_iff_exists.mp hd.1
  cases h.inv.pages.data hg hd.2.1 hd.2.2 with
  | unused hs h0 hb hz => exact hz y h₁ h₂
  | active inv ha =>
    refine absurd ?_ hne
    rw [← hsame.pages]
    exact inv.geom.active

/-- With `v = false`, the pages that differ from the shadow are not set up. -/
theorem stays_unused (h : Shadow v c s s₁ G) (hzero : FreshZero s.mem s s') {y : Nat}
    (hy : s₁.mem y ≠ s.mem y) (hd : IsData s.segs q) (hne : (s.pages q).state ≠ .active)
    (h₁ : q.start ≤ y) (h₂ : y < q.start + 65536) : (s'.pages q).state ≠ .active := by
  intro hact
  refine hy ?_
  rw [h.unused_zero hd hne h₁ h₂, hzero q hd hne hact y h₁ h₂]

theorem rested (h : Shadow v c s s₁ G) (hal : Alike (fun y => s₁.mem y ≠ s.mem y) s' s₂)
    (hq : Quiet c s₁ G s₂) (hcarved : SameCarved s s') (hcaches : CachesData s') :
    Rested v c s G s' := by
  refine ⟨.of_alike hal hq.inv (fun y hy => Or.inl (hcarved.idle (h.idle y hy))) hcaches, ?_⟩
  intro p n
  rw [← hal.same.blk, ← h.alike.same.blk]
  exact ⟨hq.only p n, fun hb => (hq.keeps p n hb trivial).1⟩

theorem handed (h : Shadow v c s s₁ G) (hal : Alike (fun y => s₁.mem y ≠ s.mem y) s' s₂)
    (ha : Alloc c s₁ G p n s₂ G') (hcarves : Carves s p n s')
    (hzero : v = false → FreshZero s.mem s s') (hcaches : CachesData s') :
    Handed v c s G p n s' G' := by
  have hblk : ∀ q k, Blk s₂ G' q k ↔ Blk s' G' q k := fun q k => hal.same.blk q k
  have hblk₁ : ∀ q k, Blk s₁ G q k ↔ Blk s G q k := fun q k => h.alike.same.blk q k
  have hnew : Blk s' G' p n := (hblk p n).mp ha.new
  refine ⟨.of_alike hal ha.inv ?_ hcaches, hnew, ?_, ?_, ?_⟩
  · intro y hy
    have hcase := hcarves.idle (h.idle y hy) fun hv q hd hne h₁ h₂ =>
      h.stays_unused (hzero hv) hy hd hne h₁ h₂
    rcases hcase with hidle | ⟨h₁, h₂⟩
    · exact Or.inl hidle
    · exact Or.inr ⟨p, n, hnew, h₁, h₂⟩
  · intro k hb
    exact ha.fresh k ((hblk₁ p k).mpr hb)
  · intro q k hb
    exact (hblk q k).mp (ha.keeps q k ((hblk₁ q k).mpr hb) trivial).1
  · intro q k hb hne
    exact (hblk₁ q k).mp (ha.only q k ((hblk q k).mpr hb) hne)

/-- With `v = false`, a slot that is zero in the shadow is zero. -/
theorem slot_zero (h : Shadow false c s s₁ G) (hal : Alike (fun y => s₁.mem y ≠ s.mem y) s' s₂)
    (hinv : Inv c s₂ G') (hp : p ∈ G'.busy r) (hdata : ∀ q, IsData s.segs q → IsData s'.segs q)
    (hzero : FreshZero s.mem s s') {y : Nat} (h₁ : p ≤ y) (h₂ : y < p + (s'.pages r).slotSize)
    (hz : s₂.mem y = 0) : s'.mem y = 0 := by
  have hsame := hal.same
  rw [← hz]
  refine (hal.agree y fun hy => ?_).symm
  obtain ⟨q, hd, q₁, q₂, hne | ⟨hv, -⟩⟩ := h.idle y hy
  · obtain ⟨hdr, hpage⟩ := hinv.busy_active hp
    obtain ⟨b₁, b₂, -⟩ := hpage.busy_in hp
    rw [hsame.pages] at b₂
    have hdq : IsData s₂.segs q := by
      rw [hsame.segs]
      exact hdata q hd
    obtain rfl := hinv.page_unique hdq hdr q₁ q₂ (by omega) (by omega)
    refine h.stays_unused hzero hy hd hne q₁ q₂ ?_
    rw [← hsame.pages]
    exact hpage.geom.active
  · cases hv

end Shadow

/-! ## `tld_get` -/

theorem CachesData.set (h : CachesData s) (hs : ∀ q, IsData s.segs q → IsData s'.segs q)
    (hothers : ∀ u, u ≠ t → s'.tls u = s.tls u)
    (hx : ∀ x, s'.tls t = some x → CacheData s'.segs x) : CachesData s' := by
  intro u x hu
  by_cases hut : u = t
  · subst hut
    exact hx x hu
  · rw [hothers u hut] at hu
    intro b q hq
    obtain ⟨hd, ha⟩ := h u x hu b q hq
    exact ⟨hs q hd, ha⟩

/-- Bookkeeping keeps a cache. -/
theorem CacheData.same {segs : Nat → Option Segment} {x y : Tld} (h : CacheData segs x)
    (hc : y.binPage = x.binPage) (ha : y.arena = x.arena) : CacheData segs y := by
  intro b q hq
  rw [hc] at hq
  rw [ha]
  exact h b q hq

theorem tldGet_caches (h : CachesData s) {o : Option Tld} (he : tldGet c s t = (o, s')) :
    CachesData s' := by
  rcases tldGet_cases he with ⟨x, -, -, rfl⟩ | ⟨-, -, hos⟩ | ⟨s₁, addr, -, hos, -, rfl⟩
  · exact h
  · intro u x hu
    rw [hos.sameThreads.tls] at hu
    rw [hos.same.segs]
    exact h u x hu
  · refine h.set (t := t) (fun q hq => by rw [← hos.same.segs] at hq; exact hq) ?_ ?_
    · intro u hu
      show upd s₁.tls t _ u = s.tls u
      rw [upd_ne hu, hos.sameThreads.tls]
    · intro x hx
      cases (upd_same ..).symm.trans hx
      intro b q hq
      cases hq

/-- `tld_get` maps memory outside the pages. -/
theorem tldGet_mem {o : Option Tld} (he : tldGet c s t = (o, s')) {y : Nat}
    (hy : Covers s.mapped y) :
    s'.mem y = s.mem y := by
  rcases tldGet_cases he with ⟨x, -, -, rfl⟩ | ⟨-, -, hos⟩ | ⟨s₁, addr, -, hos, -, rfl⟩
  · rfl
  · obtain ⟨ans, mp, m, b, rfl, hk⟩ := hos
    exact (hk y hy).2
  · obtain ⟨ans, mp, m, b, rfl, hk⟩ := hos
    exact (hk y hy).2

theorem Settled.tldGet (h : Settled v c s G) {o : Option Tld} (he : tldGet c s t = (o, s')) :
    Rested v c s G s' ∧ SameMeta s s' ∧ s'.tls t = o := by
  obtain ⟨m, hsh⟩ := h.shadow
  obtain ⟨-, hal⟩ := hsh.alike.tldGet (c := c) t
  rcases he₁ : CustomMalloc.tldGet c (s.bare m) t with ⟨o₁, s₂⟩
  rw [he, he₁] at hal
  have hp := tldGet_spec hsh.inv he₁
  have hq : Quiet c (s.bare m) G s₂ := .of_same hp.inv hp.keeps hp.ext.same
  have hsame : SameMeta s s' := by
    have h₁ := hp.ext.same
    have h₂ := hal.same
    exact ⟨h₂.segs.symm.trans h₁.segs, h₂.pages.symm.trans h₁.pages,
      h₂.registry.symm.trans h₁.registry, h₂.larges.symm.trans h₁.larges⟩
  refine ⟨hsh.rested hal hq (.of_meta hsame) (tldGet_caches h.caches he), hsame, ?_⟩
  rcases tldGet_cases he with ⟨x, hx, rfl, rfl⟩ | ⟨hn, rfl, hos⟩ | ⟨s₁, addr, -, -, rfl, rfl⟩
  · exact hx
  · rw [hos.sameThreads.tls, hn]
  · exact upd_same ..

/-! ## The fast path -/

/-- The shadow in which thread `t` has the page `r` in its cache, under the bin `r` has. -/
theorem Settled.shadowAt (h : Settled v c s G) {x : Tld} (hx : s.tls t = some x)
    (hd : IsData s.segs r) (hact : (s.pages r).state = .active) (ha : x.arena.isSome) :
    ∃ s₁ x₁, Shadow v c s s₁ G ∧ s₁.tls t = some x₁ ∧ x₁.binPage (s.pages r).binIdx = some r ∧
      x₁.bare = x.bare := by
  obtain ⟨m, hinv, hidle⟩ := h.bare
  let x₁ : Tld := { x with binPage := fun b => if b = (s.pages r).binIdx then some r else none }
  have hold : (s.bare m).tls t = some x.bare := by
    show (s.tls t).map Tld.bare = _
    rw [hx]
    rfl
  refine ⟨(s.bare m).setTld t x₁, x₁, ⟨?_, ?_, hidle⟩, upd_same .., if_pos rfl, rfl⟩
  · refine hinv.setTld hold rfl fun b q hq => ?_
    by_cases hb : b = (s.pages r).binIdx
    · cases (if_pos hb).symm.trans hq
      exact ⟨hd, hact, hb.symm, ha⟩
    · cases (if_neg hb).symm.trans hq
  · refine .mk m _ (fun y hy => Classical.not_not.mp hy) fun u => ?_
    show (upd (fun t => (s.tls t).map Tld.bare) t (some x₁) u).map Tld.bare = _
    by_cases hu : u = t
    · subst hu
      rw [upd_same, hx]
      rfl
    · rw [upd_ne hu]
      cases s.tls u <;> rfl

/-- Carved bytes of an active page are not idle. -/
theorem Shadow.not_idle (h : Shadow v c s s₁ G) (hd : IsData s.segs r)
    (hact : (s.pages r).state = .active) {y : Nat} (h₁ : r.start ≤ y)
    (h₂ : y < r.start + (s.pages r).bumpOffset) (h₃ : y < r.start + 65536) : ¬ Idle v s y := by
  rintro ⟨q, hdq, q₁, q₂, hcase⟩
  have hsegs := h.alike.same.segs
  obtain rfl : q = r :=
    h.inv.page_unique (by rw [hsegs]; exact hdq) (by rw [hsegs]; exact hd) q₁ q₂ h₁ h₃
  rcases hcase with hne | ⟨-, hle⟩
  · exact hne hact
  · unfold carved at hle
    rw [if_pos hact] at hle
    omega

/-- Free slots are carved, so their links are the same in the shadow. -/
theorem Shadow.links_off (h : Shadow v c s s₁ G) (hd : IsData s.segs r)
    (hact : (s.pages r).state = .active) {k : Nat} {loc rem busy : List Nat}
    (hgeom : Geom r (s.pages r)) (hs : Slots s₁.mem r (s.pages r) k loc rem busy) {z : Nat}
    (hz : z ∈ loc ++ rem) : WordOff (fun y => s₁.mem y ≠ s.mem y) z ∧ WordOff (Idle v s) z := by
  obtain ⟨hlo, hcut, hin, -⟩ := hs.slot_bounds hgeom (hs.parts.subset (List.mem_append_left _ hz))
  have hge := hgeom.slot_ge
  have hoff : WordOff (Idle v s) z := fun y y₁ y₂ =>
    h.not_idle hd hact (by omega) (by omega) (by omega)
  exact ⟨fun y y₁ y₂ hy => hoff y y₁ y₂ (h.idle y hy), hoff⟩

/-- A free list is a list in both memories. -/
theorem AgreeOff.linked {D : Nat → Prop} {m m₀ : Mem} (hm : AgreeOff D m m₀) {head : Option Nat}
    {l : List Nat} (hl : Linked (link m₀) head l) (hoff : ∀ z ∈ l, WordOff D z) :
    Linked (link m) head l := by
  refine hl.congr fun z hz => ?_
  unfold link
  rw [hm.readWord (hoff z hz)]

theorem walkTail_mem {m : Mem} {l : List Nat} {x k fuel tail j : Nat} (hx : x ≠ 0)
    (hl : Linked (link m) (ptr x) l) (he : walkTail m fuel x k = some (tail, j)) : tail ∈ l := by
  induction fuel generalizing x k l with
  | zero => exact absurd he (by simp [walkTail])
  | succ fuel ih =>
    cases l with
    | nil => exact absurd (ptr_eq_none.mp hl) hx
    | cons z l =>
      obtain ⟨hz, hl⟩ := hl
      obtain ⟨rfl, -⟩ := ptr_eq_some.mp hz
      unfold walkTail at he
      simp only at he
      split at he
      next =>
        obtain ⟨rfl, -⟩ := Prod.mk.inj (Option.some.inj he)
        exact List.mem_cons_self ..
      next hne => exact List.mem_cons_of_mem _ (ih hne hl he)

/-- Collecting writes one link. -/
theorem pageCollectRemote_mem {m m' : Mem} {p p' : PageMeta} {rem : List Nat}
    (hl : Linked (link m) (ptr (taggedPtr p.remoteFree)) rem)
    (he : pageCollectRemote m p = .ok (m', p')) :
    m' = m ∨ ∃ z ∈ rem, m' = writeWord m z p.localFree := by
  unfold pageCollectRemote treiberCollect at he
  simp only at he
  split at he
  next => exact Or.inl (Prod.mk.inj (Except.ok.inj he)).1.symm
  next h0 =>
    split at he
    next => cases he
    next tail count hw =>
      exact Or.inr ⟨tail, walkTail_mem h0 hl hw, (Prod.mk.inj (Except.ok.inj he)).1.symm⟩

theorem tldStatStore_mem {x : Tld} (he : tldStatStore s t x = .ok s') : s'.mem = s.mem := by
  rcases tldStatStore_cases he with ⟨-, rfl⟩ | ⟨a, -, rfl⟩
  · rfl
  · rfl

theorem takeSlot_mem {x : Tld} {p : PageMeta} {slot : Nat}
    (he : takeSlot c s t x r p slot = .ok s') : s'.mem = s.mem := by
  unfold takeSlot at he
  obtain ⟨p', -, he⟩ := bind_eq_ok he
  unfold tldStatAlloc at he
  have hm := tldStatStore_mem he
  exact hm

/-- The fast path writes at most one link. -/
theorem cachedAlloc_mem {x : Tld} {bin : Nat} {o : Option (Nat × Bool)} {rem : List Nat}
    (hl : Linked (link s.mem) (ptr (taggedPtr (s.pages r).remoteFree)) rem)
    (he : cachedAlloc c s t x bin r = .ok (o, s')) :
    s'.mem = s.mem ∨ ∃ z ∈ rem, ∃ w, s'.mem = writeWord s.mem z w := by
  unfold cachedAlloc at he
  simp only at he
  split at he
  next =>
    obtain ⟨s₂, ht, he⟩ := bind_eq_ok he
    obtain ⟨-, rfl⟩ := Prod.mk.inj (Except.ok.inj he)
    exact Or.inl (takeSlot_mem ht)
  next =>
    split at he
    next =>
      obtain ⟨s₂, ht, he⟩ := bind_eq_ok he
      obtain ⟨-, rfl⟩ := Prod.mk.inj (Except.ok.inj he)
      exact Or.inl (takeSlot_mem ht)
    next =>
      obtain ⟨⟨m, p⟩, hcol, he⟩ := bind_eq_ok he
      have hm : m = s.mem ∨ ∃ z ∈ rem, ∃ w, m = writeWord s.mem z w := by
        rcases pageCollectRemote_mem hl hcol with hm | ⟨z, hz, hm⟩
        · exact Or.inl hm
        · exact Or.inr ⟨z, hz, _, hm⟩
      simp only at he
      split at he
      next =>
        obtain ⟨s₂, ht, he⟩ := bind_eq_ok he
        obtain ⟨-, rfl⟩ := Prod.mk.inj (Except.ok.inj he)
        rw [takeSlot_mem ht]
        exact hm
      next =>
        obtain ⟨-, rfl⟩ := Prod.mk.inj (Except.ok.inj he)
        exact hm

theorem cachedAlloc_caches (h : CachesData s) {x : Tld} {bin : Nat} {o : Option (Nat × Bool)}
    (hx : s.tls t = some x) (hs : s'.segs = s.segs)
    (he : cachedAlloc c s t x bin r = .ok (o, s')) : CachesData s' := by
  have hcache := h t x hx
  have hset : ∀ y : Tld, s'.tls = upd s.tls t (some y) → CacheData s.segs y → CachesData s' := by
    intro y hy hdata
    refine h.set (t := t) (fun q hq => by rw [hs]; exact hq) (fun u hu => by rw [hy, upd_ne hu]) ?_
    intro z hz
    rw [hy, upd_same] at hz
    cases hz
    rw [hs]
    exact hdata
  rcases cachedAlloc_cases he with ⟨-, -, htls⟩ | ⟨-, s₁, -, htls, hbook⟩
  · refine hset _ htls fun b q hq => ?_
    by_cases hb : b = bin
    · subst hb
      simp only [upd_same] at hq
      cases hq
    · exact hcache b q ((upd_ne hb).symm.trans hq)
  · unfold tldStatAlloc at hbook
    rcases tldStatStore_cases hbook with ⟨-, rfl⟩ | ⟨a, -, rfl⟩
    · exact hset _ (congrArg (upd · t _) htls) (hcache.same rfl rfl)
    · exact hset _ (congrArg (upd · t _) htls) (hcache.same rfl rfl)

/-- The arenas would set up the same pages next, and their bytes are as before. -/
structure SameNext (s s' : State) : Prop where
  segs : s'.segs = s.segs
  state : ∀ q, (s'.pages q).state = (s.pages q).state
  lists : ∀ a, (s'.arenas a).segments = (s.arenas a).segments
  bytes : ∀ q, IsData s.segs q → (s.pages q).state ≠ .active →
    ∀ y, q.start ≤ y → y < q.start + 65536 → s'.mem y = s.mem y

theorem SameNext.nextPage (h : SameNext s s') (a : Nat) : nextPage s' a = nextPage s a := by
  have hunused : unusedPage s' = unusedPage s := by
    funext seg
    unfold unusedPage
    simp only [h.state]
  unfold CustomMalloc.nextPage
  rw [hunused, h.segs, h.lists]

theorem NextZero.after {a : Nat} (h : NextZero s a) (hn : SameNext s s') : NextZero s' a := by
  intro r hr hd y h₁ h₂
  rw [hn.nextPage] at hr
  rw [hn.segs] at hd
  rw [hn.bytes r hd ?_ y h₁ h₂]
  · exact h r hr hd y h₁ h₂
  · -- the page was found unused
    unfold CustomMalloc.nextPage at hr
    split at hr
    next seg _ =>
      obtain ⟨i, hi, rfl⟩ := Option.map_eq_some_iff.mp hr
      rw [(unusedPage_some hi).2.2]
      simp
    next => cases hr

/-- The fast path on an active page `r`, whichever bin it was asked for. -/
structure FastPost (v : Bool) (c : Cfg) (s : State) (G : Ghost) (r : PageRef)
    (o : Option (Nat × Bool)) (s' : State) : Prop where
  segs : s'.segs = s.segs
  shape : SameShape (s.pages r) (s'.pages r)
  next : o = none → SameNext s s'
  got : ∀ slot zeroed, o = some (slot, zeroed) →
    Handed v c s G slot (s.pages r).slotSize s' (G.take r slot) ∧
      (v = false → zeroed = true → ∀ y, slot ≤ y → y < slot + (s.pages r).slotSize → s'.mem y = 0)
  full : o = none → Rested v c s G s'

theorem Settled.cachedAlloc (h : Settled v c s G) {x : Tld} {bin : Nat} {o : Option (Nat × Bool)}
    (hx : s.tls t = some x) (hd : IsData s.segs r) (hact : (s.pages r).state = .active)
    (ha : x.arena.isSome) (he : cachedAlloc c s t x bin r = .ok (o, s')) :
    FastPost v c s G r o s' := by
  obtain ⟨s₁, x₁, hsh, hx₁, hr₁, hbare⟩ := h.shadowAt hx hd hact ha
  have hsame := hsh.alike.same
  have hd₁ : IsData s₁.segs r := by rw [hsame.segs]; exact hd
  have hact₁ : (s₁.pages r).state = .active := by rw [hsame.pages]; exact hact
  obtain ⟨hpage, -⟩ := hsh.inv.active hd₁ hact₁
  rw [hsame.pages] at hpage
  obtain ⟨k, loc, rem, hs⟩ := hpage.slots
  have hoff : ∀ z ∈ loc ++ rem, WordOff (fun y => s₁.mem y ≠ s.mem y) z :=
    fun z hz => (hsh.links_off hd hact hpage.geom hs hz).1
  -- the same call in the shadow
  obtain ⟨⟨o₁, s₂⟩, he₁, ho, hal⟩ :=
    (hsh.alike.cachedAlloc (c := c) (t := t) hbare hs hoff bin (s.pages r).binIdx).returns he
  obtain rfl : o₁ = o := ho
  have hpost := ensures_elim (cachedAlloc_spec hsh.inv hx₁ hr₁) he₁
  have hsegs : s'.segs = s.segs := by
    rw [← hal.same.segs, hpost.on.segs, hsame.segs]
  have hpages : ∀ q, q ≠ r → s'.pages q = s.pages q := by
    intro q hq
    rw [← hal.same.pages, hpost.on.pages q hq, hsame.pages]
  have hshape : SameShape (s.pages r) (s'.pages r) := by
    rw [← hal.same.pages, ← hsame.pages]
    exact hpost.on.shape
  have hcaches := cachedAlloc_caches h.caches hx hsegs he
  have hlinked := hsh.alike.agree.linked hs.remote_linked fun z hz =>
    hoff z (List.mem_append_right _ hz)
  have hnext : o₁ = none → SameNext s s' := by
    intro ho
    refine ⟨hsegs, fun q => ?_, fun a => ?_, fun q hdq hne y h₁ h₂ => ?_⟩
    · by_cases hq : q = r
      · rw [hq, hshape.state]
      · rw [hpages q hq]
    · rcases cachedAlloc_cases he with ⟨-, ha, -⟩ | ⟨ho', -⟩
      · rw [ha]
      · exact absurd ho' (by rw [ho]; simp)
    have hq : q ≠ r := fun hq => hne (hq ▸ hact)
    rcases cachedAlloc_mem hlinked he with hm | ⟨z, hz, w, hm⟩
    · rw [hm]
    · -- the link lies in `r`
      rw [hm]
      refine writeWord_out ?_
      obtain ⟨hlo, -, hin, -⟩ :=
        hs.slot_bounds hpage.geom (hs.mem_parts.mpr (Or.inr (Or.inl hz)))
      have hge := hpage.geom.slot_ge
      by_contra hnot
      refine hq (hsh.inv.page_unique (y := y) ?_ hd₁ h₁ h₂ (by omega) (by omega))
      rw [hsame.segs]
      exact hdq
  have hcarved : ∀ {slot k}, Carves s₁ slot k s₂ → Carves s slot k s' :=
    fun hc => (hc.after (.of_meta hsame)).before (.of_meta hal.same.symm)
  obtain ⟨hcfull, hcgot⟩ := cachedAlloc_carves hsh.inv hd₁ hact₁ he₁
  have hsize : slotSizeOf (s.pages r).binIdx = (s.pages r).slotSize := hpage.geom.slot_eq.symm
  have hfresh : FreshZero s.mem s s' := by
    intro q hdq hne hact' y h₁ h₂
    by_cases hq : q = r
    · rw [hq] at hne
      exact absurd hact hne
    · rw [hpages q hq] at hact'
      exact absurd hact' hne
  refine ⟨hsegs, hshape, hnext, fun slot zeroed ho => ?_, fun ho => ?_⟩
  · obtain ⟨halloc, hz, -⟩ := hpost.got slot zeroed ho
    have hcut := hcarved (hcgot slot zeroed ho)
    rw [hsize] at halloc hz
    rw [hsame.pages] at hcut
    refine ⟨hsh.handed hal halloc hcut (fun _ => hfresh) hcaches, fun hv hzero y h₁ h₂ => ?_⟩
    subst hv
    refine hsh.slot_zero hal halloc.inv (p := slot) (r := r) (by simp [Ghost.take]) ?_ hfresh h₁ ?_
      (hz hzero y h₁ h₂)
    · intro q hdq
      rw [hsegs]
      exact hdq
    · rw [hshape.slotSize]
      exact h₂
  · obtain ⟨hq, -⟩ := hpost.full ho
    refine hsh.rested hal hq ?_ hcaches
    exact ((SameCarved.of_meta hsame).trans (hcfull ho)).trans (.of_meta hal.same.symm)

/-! ## The slow path -/

/-- Looking for an arena leaves the unused pages alone. -/
theorem Settled.sameNext (h : Settled v c s G) (hsame : SameMeta s s')
    (hlists : ∀ a, (s'.arenas a).segments = (s.arenas a).segments)
    (hm : ∀ y, Covers s.mapped y → s'.mem y = s.mem y) : SameNext s s' := by
  obtain ⟨m, hinv, -⟩ := h.bare
  refine ⟨hsame.segs, fun q => by rw [hsame.pages], hlists, fun q hd _ y h₁ h₂ => hm y ?_⟩
  have hhas : Region.Has c (s.bare m).segs (s.bare m).larges (s.bare m).tls (.seg q.seg) y :=
    IsData.has (s := s.bare m) hd h₁ h₂
  exact hinv.regions.backed hhas

/-- `a` is the arena of thread `t`, or `t` has none yet. -/
def UsesArena (s : State) (t a : Nat) : Prop :=
  ∀ b, (s.tls t).bind Tld.arena = some b → b = a

/-- `tld_get` finds the thread's arena. -/
theorem tldGet_arena {o : Option Tld} {b : Nat} (he : tldGet c s t = (o, s'))
    (hb : (s.tls t).bind Tld.arena = some b) : o.bind Tld.arena = some b := by
  rcases tldGet_cases he with ⟨y, hy, rfl, -⟩ | ⟨hn, -⟩ | ⟨_, _, hn, -⟩
  · rwa [hy] at hb
  · exact absurd hb (by rw [hn]; simp)
  · exact absurd hb (by rw [hn]; simp)

theorem tldGet_arenas {o : Option Tld} (he : tldGet c s t = (o, s')) : s'.arenas = s.arenas := by
  rcases tldGet_cases he with ⟨x, -, -, rfl⟩ | ⟨-, -, hos⟩ | ⟨s₁, addr, -, hos, -, rfl⟩
  · rfl
  · obtain ⟨ans, mp, m, b, rfl, -⟩ := hos
    rfl
  · obtain ⟨ans, mp, m, b, rfl, -⟩ := hos
    rfl

theorem Settled.arenaGet (h : Settled v c s G) {a : Nat} (he : arenaGet c s t = .ok (a, s')) :
    Rested v c s G s' ∧ SameNext s s' ∧ UsesArena s t a ∧
      ∀ x, s'.tls t = some x → x.arena = some a := by
  obtain ⟨m, hsh⟩ := h.shadow
  obtain ⟨⟨a₁, s₂⟩, he₁, ha, hal⟩ := (hsh.alike.arenaGet (c := c) t).returns he
  have hpost := ensures_elim (arenaGet_spec hsh.inv t) he₁
  have hsame : SameMeta s s' := by
    have h₁ := hpost.same
    have h₂ := hal.same
    exact ⟨h₂.segs.symm.trans h₁.segs, h₂.pages.symm.trans h₁.pages,
      h₂.registry.symm.trans h₁.registry, h₂.larges.symm.trans h₁.larges⟩
  have hq : Quiet c (s.bare m) G s₂ := .of_same hpost.inv hpost.keeps hpost.same
  obtain ⟨o, s₁, htld, hcase⟩ := arenaGet_cases he
  obtain ⟨hrest, -, hgot⟩ := h.tldGet htld
  have hcaches : CachesData s₁ := hrest.settled.caches
  have hlists := tldGet_arenas htld
  have hmem : ∀ y, Covers s.mapped y → s₁.mem y = s.mem y := fun y hy => tldGet_mem htld hy
  suffices hcode : CachesData s' ∧ s'.mem = s₁.mem ∧
      (∀ b, (s'.arenas b).segments = (s₁.arenas b).segments) ∧ UsesArena s t a ∧
      ∀ x, s'.tls t = some x → x.arena = some a by
    obtain ⟨hcaches', hm, hl, hcode⟩ := hcode
    refine ⟨hsh.rested hal hq (.of_meta hsame) hcaches', h.sameNext hsame (fun b => ?_)
      (fun y hy => by rw [hm]; exact hmem y hy), hcode⟩
    rw [hl, hlists]
  have hattach : ∀ b, ((attachNext s₁ a).arenas b).segments = (s₁.arenas b).segments := fun b =>
    congrFun (upd_proj Arena.segments (g := s₁.arenas) (a := a)
      (b := { s₁.arenas a with threadCount := wrapInt ((s₁.arenas a).threadCount + 1) }) rfl) b
  rcases hcase with ⟨x, rfl, hx, rfl⟩ | ⟨-, x, rfl, hx, rfl⟩ | ⟨-, rfl, rfl⟩
  · refine ⟨hcaches, rfl, fun _ => rfl, fun b hb => ?_, fun y hy => ?_⟩
    · exact Option.some.inj ((tldGet_arena htld hb).symm.trans hx)
    · cases hgot.symm.trans hy
      exact hx
  · refine ⟨hcaches.set (t := t) (fun q hq => hq) (fun u hu => upd_ne hu) fun y hy => ?_, rfl,
      hattach,
      fun b hb => ?_, fun y hy => ?_⟩
    · cases (upd_same ..).symm.trans hy
      intro b q hq
      exact ⟨(hcaches t x hgot b q hq).1, rfl⟩
    · cases (tldGet_arena htld hb).symm.trans hx
    · cases (upd_same ..).symm.trans hy
      rfl
  · refine ⟨hcaches, rfl, hattach, fun b hb => ?_, fun y hy => ?_⟩
    · exact absurd (tldGet_arena htld hb) (by simp)
    · cases hgot.symm.trans hy

/-- `arena_alloc` does not look at the threads. -/
theorem arenaAlloc_tls {a bin : Nat} {x : Nat × Bool} (he : arenaAlloc c s a bin = .ok (x, s'))
    (t : Nat) : s'.tls t = s.tls t := by
  -- any thread but `t` may be the one that calls
  have hkept := ensures_elim (arenaAlloc_closed (c := c) (othersKept_closed (t + 1)) s a bin) he
  exact hkept t (by omega)

/-- `arena_alloc` on its own. -/
theorem Settled.arenaAlloc (h : Settled v c s G) {a bin slot : Nat} {zeroed : Bool}
    (hbin : bin < binCount) (hsize : binToSize sizeTables bin ≤ 32768)
    (hzero : v = false → NextZero s a)
    (he : arenaAlloc c s a bin = .ok ((slot, zeroed), s')) :
    (slot = 0 → Rested v c s G s') ∧
    (slot ≠ 0 → ∃ r, Handed v c s G slot (slotSizeOf bin) s' (G.take r slot) ∧
      (s'.pages r).binIdx = bin ∧
      (v = false → ∀ y, slot ≤ y → y < slot + slotSizeOf bin → s'.mem y = 0)) := by
  obtain ⟨m, hsh⟩ := h.shadow
  have hsame := hsh.alike.same
  obtain ⟨⟨x₁, s₂⟩, he₁, hx, hal⟩ := (hsh.alike.arenaAlloc (c := c) a bin).returns he
  obtain rfl : x₁ = (slot, zeroed) := hx
  obtain ⟨hnull, hcut, hset⟩ := arenaAlloc_carves hsh.inv hbin hsize he₁
  have hpost := ensures_elim (arenaAlloc_spec hsh.inv hbin hsize) he₁
  have hcarves : Carves s slot (slotSizeOf bin) s' :=
    (hcut.after (.of_meta hsame)).before (.of_meta hal.same.symm)
  have hdata : ∀ q, IsData s.segs q → IsData s'.segs q := fun q hq => (hcarves q hq).1
  have hfresh : v = false → FreshZero s.mem s s' := by
    intro hv q hd hne hact
    rw [← hal.same.pages] at hact
    exact hzero hv q (hset q hd hne hact) hd
  have hcaches : CachesData s' := by
    intro u x hu b q hq
    rw [arenaAlloc_tls he u] at hu
    obtain ⟨hd, ha⟩ := h.caches u x hu b q hq
    exact ⟨hdata q hd, ha⟩
  refine ⟨fun h0 => ?_, fun h0 => ?_⟩
  · obtain ⟨-, hos, -⟩ := hpost.null h0
    have hq : Quiet c (s.bare m) G s₂ :=
      .of_same (hsh.inv.osExt hos) (hsh.inv.osExt_keeps hos _) hos.same
    refine hsh.rested hal hq ?_ hcaches
    exact ((SameCarved.of_meta hsame).trans (hnull h0)).trans (.of_meta hal.same.symm)
  · obtain ⟨r, hb, -⟩ := hpost.got h0
    have hpages := hal.same.pages
    refine ⟨r, hsh.handed hal hb.alloc hcarves hfresh hcaches, ?_, fun hv y h₁ h₂ => ?_⟩
    · rw [← hpages]
      exact hb.binIdx
    · subst hv
      have hbusy : slot ∈ (G.take r slot).busy r := by simp [Ghost.take]
      obtain ⟨-, hpage⟩ := hb.alloc.inv.busy_active hbusy
      refine hsh.slot_zero hal hb.alloc.inv hbusy hdata (hfresh rfl) h₁ ?_ (hb.zero y h₁ h₂)
      rw [← hpages, hpage.geom.slot_eq, hb.binIdx]
      exact h₂

/-- Claiming the page of a slot. -/
theorem Settled.claimPage (h : Settled v c s G) (bin : Nat) {slot : Nat} {x : Tld}
    (hslot : slot ∈ G.busy r) (hx : s.tls t = some x) (ha : x.arena.isSome) :
    Rested v c s G (claimPage s t bin slot x) ∧
      ((claimPage s t bin slot x).pages r).binIdx = (s.pages r).binIdx ∧
      (claimPage s t bin slot x).mem = s.mem := by
  obtain ⟨m, hsh⟩ := h.shadow
  obtain ⟨hd₁, hpage⟩ := hsh.inv.busy_active hslot
  obtain ⟨b₁, b₂, -⟩ := hpage.busy_in hslot
  have hge := hpage.geom.slot_ge
  have hd : IsData s.segs r := hd₁
  have hact : (s.pages r).state = .active := hpage.geom.active
  -- caching the page
  have hcaches : CacheData s.segs { x with binPage := upd x.binPage bin (some r) } := by
    intro b q hq
    by_cases hb : b = bin
    · subst hb
      cases (upd_same ..).symm.trans hq
      exact ⟨hd, ha⟩
    · exact h.caches t x hx b q ((upd_ne hb).symm.trans hq)
  -- the page gets an owner and goes into the cache
  have hmain : ∀ o : Nat, Rested v c s G ((s.setPage r { s.pages r with ownerTid := o }).setTld t
      { x with binPage := upd x.binPage bin (some r) }) := by
    intro o
    have hq : Quiet c (s.bare m) G ((s.bare m).setPage r { s.pages r with ownerTid := o }) :=
      hsh.inv.setPage_quiet _ hd₁ hact ⟨rfl, rfl, rfl, rfl, rfl, rfl, rfl, rfl, rfl, rfl⟩
        (hpage.relink o _ _) PageFrame.refl
    have hold : (s.bare m).tls t = some x.bare := by
      show (s.tls t).map Tld.bare = _
      rw [hx]
      rfl
    have hq' := hq.inv.setTld_quiet (t := t) (x := x.bare) hold rfl
      fun b q hq => absurd hq (by simp [Tld.bare])
    have hal : Alike _ ((s.setPage r { s.pages r with ownerTid := o }).setTld t
          { x with binPage := upd x.binPage bin (some r) })
        (((s.bare m).setPage r { s.pages r with ownerTid := o }).setTld t x.bare) :=
      (hsh.alike.setPage r _).setTld rfl
    refine hsh.rested hal (hq.trans hq') ?_ ?_
    · exact .of_page (r := r) rfl (fun q hq => upd_ne hq) (by simp [State.setTld, State.setPage])
        (by simp [State.setTld, State.setPage])
    · refine CachesData.set (t := t) (s := s) h.caches (fun q hq => hq) (fun u hu => upd_ne hu) ?_
      intro y hy
      cases (upd_same ..).symm.trans hy
      exact hcaches
  have hptr : ptrToPage s slot =
      if segmentIsRegistered s.segmentRegistry r.seg then some r else none :=
    (hsh.inv.ptrToPage_eq hd₁ b₁ (by omega)).2
  unfold CustomMalloc.claimPage
  rw [hptr]
  split
  next => exact ⟨.refl h, rfl, rfl⟩
  next q hq =>
    obtain rfl : r = q := by
      split at hq
      next => exact Option.some.inj hq
      next => cases hq
    split
    next => exact ⟨hmain x.threadId, by simp [State.setTld, State.setPage], rfl⟩
    next =>
      split
      next =>
        have hrest := hmain (s.pages r).ownerTid
        have hself : s.setPage r { s.pages r with ownerTid := (s.pages r).ownerTid } = s := by
          unfold State.setPage
          rw [upd_eta]
        rw [hself] at hrest
        exact ⟨hrest, rfl, rfl⟩
      next => exact ⟨.refl h, rfl, rfl⟩

/-- The slow path: null, or a slot of the bin. -/
theorem Settled.slowAlloc (h : Settled v c s G) {bin slot : Nat} {hasTld zeroed : Bool}
    (hbin : bin < binCount) (hsize : binToSize sizeTables bin ≤ 32768)
    (hzero : v = false → ∀ a, UsesArena s t a → NextZero s a)
    (he : slowAlloc c s t bin hasTld = .ok ((slot, zeroed), s')) :
    (slot = 0 → Rested v c s G s') ∧
    (slot ≠ 0 → ∃ r, Handed v c s G slot (slotSizeOf bin) s' (G.take r slot) ∧
      (s'.pages r).binIdx = bin ∧
      (v = false → ∀ y, slot ≤ y → y < slot + slotSizeOf bin → s'.mem y = 0)) := by
  obtain ⟨a, s₁, s₂, hget, halloc, hcase⟩ := slowAlloc_cases he
  obtain ⟨hrest, hnext, huses, hatt⟩ := h.arenaGet hget
  obtain ⟨hnull, hgot⟩ := hrest.settled.arenaAlloc hbin hsize
    (fun hv => (hzero hv a huses).after hnext) halloc
  refine ⟨fun h0 => ?_, fun h0 => ?_⟩
  · rcases hcase with ⟨-, hne, -⟩ | rfl
    · exact absurd h0 hne
    · exact hrest.trans (hnull h0)
  · obtain ⟨r, hhand, hb, hz⟩ := hgot h0
    rcases hcase with ⟨-, -, x, hx, rfl⟩ | rfl
    · have harena : x.arena = some a := by
        rw [arenaAlloc_tls halloc t] at hx
        exact hatt x hx
      have hslot : slot ∈ (G.take r slot).busy r := by simp [Ghost.take]
      obtain ⟨hclaim, hbin', hmem'⟩ :=
        hhand.settled.claimPage bin hslot hx (by rw [harena]; rfl)
      refine ⟨r, (hhand.after hrest).before hclaim, hbin'.trans hb, fun hv y h₁ h₂ => ?_⟩
      rw [hmem']
      exact hz hv y h₁ h₂
    · exact ⟨r, hhand.after hrest, hb, hz⟩

end CustomMalloc

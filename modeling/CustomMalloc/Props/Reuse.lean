import CustomMalloc.Props.Conservation
import CustomMalloc.Props.Stranded
import CustomMalloc.Inv.Ownership

/-!
# Reuse before growth

A thread serves a request from the page it has cached for the bin. A page that fills up
leaves the cache but keeps its owner, and `arena_alloc` passes over pages that have one:
a page that has left the cache is never allocated from again, whatever is freed into it
later. So a bin gets a new page only when all the thread's pages of the bin are full, as
long as `slab_free` gives back slots of cached pages; what is freed into any other page
of the thread stays unused for good.

The runs here are those of one thread.
-/

namespace CustomMalloc

open Lib.Words Lib.Bytes Lib.Chain Lib.Intervals Lib.Post

variable {c : Cfg} {s s' : State} {G : Ghost} {t : Nat}

/-! ## One thread -/

/-- Thread `t` is the only one so far: it has the first id, and what is owned is its own. -/
structure Lone (t : Nat) (s : State) : Prop where
  counter : s.tls t = none → s.threadIdCounter = 0
  id : ∀ x, s.tls t = some x → x.threadId = 0
  owner : ∀ r, (s.pages r).state = .active → (s.pages r).ownerTid = noOwner ∨
    ∃ x, s.tls t = some x ∧ (s.pages r).ownerTid = x.threadId

theorem Lone.step (h : Lone t s) (hth : ThreadsFrom t s s') (how : OwnersFrom t s s') :
    Lone t s' := by
  constructor
  · intro hn
    cases hx : s.tls t with
    | some x =>
      obtain ⟨y, hy, -⟩ := hth.had x hx
      cases hn.symm.trans hy
    | none =>
      rcases hth.new hx with ⟨-, hc⟩ | ⟨y, hy, -⟩
      · exact hc.trans (h.counter hx)
      · cases hn.symm.trans hy
  · intro y hy
    rcases hth.mine hy with ⟨x, hx, hid, -⟩ | ⟨hn, hid, -⟩
    · exact hid.trans (h.id x hx)
    · exact hid.trans (h.counter hn)
  · intro r hact
    rcases how.owner r hact with hno | ⟨hact', heq⟩ | hmine
    · exact Or.inl hno
    · rcases h.owner r hact' with hno | ⟨x, hx, ho⟩
      · exact Or.inl (heq.trans hno)
      · obtain ⟨y, hy, hid⟩ := how.stays t x hx
        exact Or.inr ⟨y, hy, heq.trans (ho.trans hid.symm)⟩
    · exact Or.inr hmine

theorem lone_initial (c : Cfg) (t : Nat) : Lone t (State.initial c) :=
  ⟨fun _ => rfl, fun _ hx => absurd hx (by simp [State.initial]),
    fun _ hact => absurd hact (by simp [State.initial])⟩

/-- While the thread has no data nothing is owned. -/
theorem Lone.unowned (h : Lone t s) (hn : s.tls t = none) {r : PageRef}
    (hact : (s.pages r).state = .active) : (s.pages r).ownerTid = noOwner := by
  rcases h.owner r hact with hno | ⟨x, hx, -⟩
  · exact hno
  · cases hn.symm.trans hx

theorem Lone.id_ne (h : Lone t s) {x : Tld} (hx : s.tls t = some x) : noOwner ≠ x.threadId := by
  rw [h.id x hx]
  decide

/-- Every update of a slab call keeps the thread alone. -/
theorem lone_closed (t : Nat) : SlabClosed t fun s s' => Lone t s → Lone t s' :=
  have hth := threadsFrom_closed t
  have how := ownersFrom_closed t
  { refl := fun _ h => h
    trans := fun h h' hl => h' (h hl)
    os := fun hos h => h.step (hth.os hos) (how.os hos)
    mem := fun s m h => h.step (hth.mem s m) (how.mem s m)
    setArena := fun s a x h => h.step (hth.setArena s a x) (how.setArena s a x)
    newTld := fun s a hn h => h.step (hth.newTld s a hn) (how.newTld s a hn)
    setTld := fun s x y hx hid h => h.step (hth.setTld s x y hx hid) (how.setTld s x y hx hid)
    setPage := fun s r p hs ho h => h.step (hth.setPage s r p hs ho) (how.setPage s r p hs ho)
    arenaNext := fun s n h => h.step (hth.arenaNext s n) (how.arenaNext s n)
    segs := fun s f h => h.step (hth.segs s f) (how.segs s f)
    initPage := fun s r p hs ho h => h.step (hth.initPage s r p hs ho) (how.initPage s r p hs ho)
    claim := fun s r x hx ho h => h.step (hth.claim s r x hx ho) (how.claim s r x hx ho)
    newSegment := fun s b a reg h => h.step (hth.newSegment s b a reg) (how.newSegment s b a reg) }

/-! ## Pages outside the cache -/

/-- Thread `t` owns the page in use `r`. -/
def Owned (s : State) (t : Nat) (r : PageRef) : Prop :=
  Active s r ∧ ∃ x, s.tls t = some x ∧ (s.pages r).ownerTid = x.threadId

/-- The pages that thread `t` owns and has not cached are full. -/
def Spent (s : State) (t : Nat) : Prop :=
  ∀ x r, s.tls t = some x → Active s r → (s.pages r).ownerTid = x.threadId →
    x.binPage (s.pages r).binIdx ≠ some r → PageFull (s.pages r)

/-- Nothing is spent while nothing is owned. -/
theorem Lone.spent (h : Lone t s') (hno : ∀ r, Active s' r → (s'.pages r).ownerTid = noOwner) :
    Spent s' t := by
  intro x r hx hact hown
  exact absurd ((hno r hact).symm.trans hown) (h.id_ne hx)

/-- The fast path gives up on a page only if it was full when the call began: frees that
wait on the remote stack would have been collected. -/
theorem cachedAlloc_full {x : Tld} {bin : Nat} {r : PageRef}
    (he : cachedAlloc c s t x bin r = .ok (none, s')) : PageFull (s.pages r) := by
  unfold cachedAlloc at he
  simp only at he
  split at he
  next =>
    obtain ⟨s₂, -, he⟩ := bind_eq_ok he
    exact absurd (Prod.mk.inj (Except.ok.inj he)).1 (by simp)
  next hloc =>
    split at he
    next =>
      obtain ⟨s₂, -, he⟩ := bind_eq_ok he
      exact absurd (Prod.mk.inj (Except.ok.inj he)).1 (by simp)
    next hbump =>
      obtain ⟨⟨m, p⟩, hcol, he⟩ := bind_eq_ok he
      simp only at he
      split at he
      next =>
        obtain ⟨s₂, -, he⟩ := bind_eq_ok he
        exact absurd (Prod.mk.inj (Except.ok.inj he)).1 (by simp)
      next hloc' =>
        refine ⟨Classical.not_not.mp hloc, ?_, hbump⟩
        by_contra hrem
        unfold pageCollectRemote treiberCollect at hcol
        simp only [if_neg hrem] at hcol
        split at hcol
        next => cases hcol
        next =>
          obtain ⟨-, rfl⟩ := Prod.mk.inj (Except.ok.inj hcol)
          exact hloc' hrem

/-- The slow path of a request for `bin` starts in `s₁`: nothing is cached for the bin, and
when the call began in `s` the thread's pages of the bin were full. -/
structure SlowStart (c : Cfg) (s : State) (G : Ghost) (t bin : Nat) (hasTld : Bool) (s₁ : State) :
    Prop where
  inv : Inv c s₁ G
  lone : Lone t s₁
  spent : Spent s₁ t
  uncached : ∀ x, s₁.tls t = some x → x.binPage bin = none
  had : hasTld = (s₁.tls t).isSome
  owned : ∀ r, Owned s₁ t r → Owned s t r ∧ (s₁.pages r).binIdx = (s.pages r).binIdx
  full : ∀ r, Owned s t r → (s.pages r).binIdx = bin → PageFull (s.pages r)

/-- Nothing is cached for the bin when the call begins. -/
theorem SlowStart.ofMiss (h : Inv c s G) (hl : Lone t s) (hsp : Spent s t) {bin : Nat}
    {o : Option Tld} {s₁ : State} (htld : tldGet c s t = (o, s₁))
    (hmiss : ∀ x r, o = some x → x.binPage bin = some r → (s₁.pages r).state ≠ .active) :
    SlowStart c s G t bin o.isSome s₁ := by
  have hp := tldGet_spec h htld
  have hl₁ : Lone t s₁ := by
    have hcl := (tldGet_closed (c := c) (lone_closed t).toFreeClosed s).1 hl
    rwa [htld] at hcl
  have hun : ∀ x, s₁.tls t = some x → x.binPage bin = none := by
    intro x hx
    rw [hp.got] at hx
    by_contra hne
    obtain ⟨r, hr⟩ := Option.ne_none_iff_exists'.mp hne
    have hact := (hp.inv.tlds t x (hp.got.trans hx) bin r hr).2.1
    exact hmiss x r hx hr hact
  have hactive : ∀ r, Active s₁ r → Active s r := by
    intro r hact
    unfold Active at hact
    rwa [hp.ext.same.segs, hp.ext.same.pages] at hact
  cases hx : s.tls t with
  | some x =>
    obtain rfl := hp.old hx
    refine ⟨hp.inv, hl, hsp, hun, by rw [hp.got], fun r hr => ⟨hr, rfl⟩, ?_⟩
    rintro r ⟨hact, y, hy, hown⟩ hbin
    refine hsp y r hy hact hown ?_
    rw [hbin, hun y hy]
    simp
  | none =>
    have hno : ∀ r, Active s₁ r → (s₁.pages r).ownerTid = noOwner := by
      intro r hact
      rw [hp.ext.same.pages]
      exact hl.unowned hx (hactive r hact).2
    refine ⟨hp.inv, hl₁, hl₁.spent hno, hun, by rw [hp.got], ?_, ?_⟩
    · rintro r ⟨hact, y, hy, hown⟩
      exact absurd ((hno r hact).symm.trans hown) (hl₁.id_ne hy)
    · rintro r ⟨-, y, hy, -⟩
      cases hx.symm.trans hy

/-- The cached page turned out to be full. -/
theorem SlowStart.ofFull (h : Inv c s G) (hl : Lone t s) (hsp : Spent s t) {bin : Nat} {x : Tld}
    {r : PageRef} {s₁ : State} (hx : s.tls t = some x) (hr : x.binPage bin = some r)
    (he : cachedAlloc c s t x bin r = .ok (none, s₁)) : SlowStart c s G t bin true s₁ := by
  have hc := ensures_elim (Q := fun p => CachedPost c s G t x bin r p.1 p.2)
    (cachedAlloc_spec h hx hr) he
  obtain ⟨hq, hfull, htls⟩ := hc.full rfl
  have hbin := (h.tlds t x hx bin r hr).2.2.1
  have hl₁ := ensures_elim (Q := fun p => Lone t s → Lone t p.2)
    (cachedAlloc_closed (lone_closed t) bin r hx) he hl
  refine ⟨hq.inv, hl₁, ?_, ?_, by rw [htls]; rfl, ?_, ?_⟩
  · intro y q hy hact hown hcache
    cases htls.symm.trans hy
    by_cases hqr : q = r
    · rw [hqr]
      exact hfull
    · rw [hc.on.pages q hqr] at hown hcache ⊢
      refine hsp x q hx (hc.on.active hact) hown fun hin => hcache ?_
      have hne : (s.pages q).binIdx ≠ bin := by
        intro heq
        rw [heq, hr] at hin
        exact hqr (Option.some.inj hin).symm
      exact (upd_ne hne).trans hin
  · intro y hy
    cases htls.symm.trans hy
    exact upd_same ..
  · rintro q ⟨hact, y, hy, hown⟩
    cases htls.symm.trans hy
    exact ⟨⟨hc.on.active hact, x, hx, (hc.on.kept q).ownerTid.symm.trans hown⟩,
      (hc.on.kept q).binIdx⟩
  · rintro q ⟨hact, y, hy, hown⟩ hqbin
    cases hx.symm.trans hy
    by_cases hqr : q = r
    · rw [hqr]
      exact cachedAlloc_full he
    · refine hsp x q hx hact hown fun hin => hqr ?_
      rw [hqbin, hr] at hin
      exact (Option.some.inj hin).symm

/-- A slab request is served from the cached page, or goes through the slow path. -/
theorem AllocPath.cached_or_slow (h : Inv c s G) (hl : Lone t s) (hsp : Spent s t)
    {bin slot : Nat} {zeroed : Bool} (hp : AllocPath c s t bin slot zeroed s') :
    (∃ x r, s.tls t = some x ∧ x.binPage bin = some r ∧
      cachedAlloc c s t x bin r = .ok (some (slot, zeroed), s')) ∨
    ∃ hasTld s₁, SlowStart c s G t bin hasTld s₁ ∧
      slowAlloc c s₁ t bin hasTld = .ok ((slot, zeroed), s') := by
  -- a thread with something in its cache had its data before the call
  have hold : ∀ {x r s₁}, tldGet c s t = (some x, s₁) → x.binPage bin = some r →
      s₁ = s ∧ s.tls t = some x := by
    intro x r s₁ htld hr
    have hpost := tldGet_spec h htld
    cases hx : s.tls t with
    | some y =>
      obtain rfl := hpost.old hx
      exact ⟨rfl, hx.symm.trans hpost.got⟩
    | none =>
      rw [(hpost.fresh hx x rfl).1] at hr
      cases hr
  cases hp with
  | cached x r s₁ htld hr _ he =>
    obtain ⟨rfl, hx⟩ := hold htld hr
    exact Or.inl ⟨x, r, hx, hr, he⟩
  | full x r s₁ s₂ htld hr _ hfull he =>
    obtain ⟨rfl, hx⟩ := hold htld hr
    exact Or.inr ⟨true, s₂, .ofFull h hl hsp hx hr hfull, he⟩
  | missed o s₁ htld hmiss he => exact Or.inr ⟨_, s₁, .ofMiss h hl hsp htld hmiss, he⟩

/-- In `s'` the thread has the page `r` cached for `bin`, and `slot` is one of its slots. -/
structure ServedBy (s' : State) (t bin slot : Nat) (r : PageRef) : Prop where
  cached : ∃ y, s'.tls t = some y ∧ y.binPage bin = some r
  active : Active s' r
  binIdx : (s'.pages r).binIdx = bin
  lo : r.start ≤ slot
  hi : slot < r.start + 65536

/-- What an allocation does to the pages of its thread: the pages outside the cache are
still full, and the only page the thread may own now and did not own before is the one it
got the slot from. -/
structure Reuse (s : State) (t bin slot : Nat) (s' : State) : Prop where
  spent : Spent s' t
  owned : ∀ r, Owned s' t r →
    (Owned s t r ∧ (s'.pages r).binIdx = (s.pages r).binIdx) ∨ slot ≠ 0 ∧ ServedBy s' t bin slot r

theorem SlowStart.reuse {bin slot : Nat} {hasTld zeroed : Bool} {s₁ : State}
    (h : SlowStart c s G t bin hasTld s₁) (hl' : Lone t s')
    (hp : SlowPost c s₁ G t bin hasTld slot zeroed s') : Reuse s t bin slot s' := by
  by_cases h0 : slot = 0
  · obtain ⟨-, -, hsame, htls⟩ := hp.null h0
    have hactive : ∀ r, Active s' r → Active s₁ r := by
      intro r hact
      unfold Active at hact
      rwa [hsame.segs, hsame.pages] at hact
    cases hx : s₁.tls t with
    | some x =>
      obtain ⟨y, hy, hbin, hid, -⟩ := htls hx
      constructor
      · intro z r hz hact hown hcache
        cases hy.symm.trans hz
        rw [hsame.pages] at hown hcache ⊢
        exact h.spent x r hx (hactive r hact) (hown.trans hid) (hbin ▸ hcache)
      · rintro r ⟨hact, z, hz, hown⟩
        cases hy.symm.trans hz
        rw [hsame.pages] at hown ⊢
        exact Or.inl (h.owned r ⟨hactive r hact, x, hx, hown.trans hid⟩)
    | none =>
      have hno : ∀ r, Active s' r → (s'.pages r).ownerTid = noOwner := by
        intro r hact
        rw [hsame.pages]
        exact h.lone.unowned hx (hactive r hact).2
      refine ⟨hl'.spent hno, ?_⟩
      rintro r ⟨hact, z, hz, hown⟩
      exact absurd ((hno r hact).symm.trans hown) (hl'.id_ne hz)
  · obtain ⟨a, r, hg⟩ := hp.got h0
    have hother : ∀ q, q ≠ r → Active s' q → Active s₁ q ∧
        ∃ nx pr, s'.pages q = { s₁.pages q with next := nx, prev := pr } := by
      intro q hqr hact
      obtain ⟨hd, nx, pr, he⟩ := hg.others q hqr hact.1 hact.2
      have hstate := hact.2
      rw [he] at hstate
      exact ⟨⟨hd, hstate⟩, nx, pr, he⟩
    cases hx : s₁.tls t with
    | none =>
      have hno : ∀ q, Active s' q → (s'.pages q).ownerTid = noOwner := by
        intro q hact
        by_cases hqr : q = r
        · rw [hqr]
          refine hg.unclaimed ?_
          rw [h.had, hx]
          rfl
        · obtain ⟨hact₁, nx, pr, he⟩ := hother q hqr hact
          rw [he]
          exact h.lone.unowned hx hact₁.2
      refine ⟨hl'.spent hno, ?_⟩
      rintro q ⟨hact, z, hz, hown⟩
      exact absurd ((hno q hact).symm.trans hown) (hl'.id_ne hz)
    | some x =>
      obtain ⟨y, hy, hid, -, hclaim⟩ := hg.claim hx (by rw [h.had, hx]; rfl)
      have hempty := h.uncached x hx
      -- whatever was cached before still is
      have hcached : ∀ b q, x.binPage b = some q → y.binPage b = some q := by
        intro b q hb
        rcases hclaim with ⟨hbin, -⟩ | ⟨hbin, -⟩
        · have hne : b ≠ bin := by
            rintro rfl
            cases hempty.symm.trans hb
          rw [hbin, upd_ne hne]
          exact hb
        · rw [hbin]
          exact hb
      -- and the page of the slot is cached, if the thread owns it
      have hmine : (s'.pages r).ownerTid = y.threadId → y.binPage bin = some r := by
        intro hown
        rcases hclaim with ⟨hbin, -⟩ | ⟨-, hno, -⟩
        · rw [hbin, upd_same]
        · exact absurd (hno.symm.trans hown) (hl'.id_ne hy)
      constructor
      · intro z q hz hact hown hcache
        cases hy.symm.trans hz
        by_cases hqr : q = r
        · subst hqr
          rw [hg.binIdx] at hcache
          exact absurd (hmine hown) hcache
        · obtain ⟨hact₁, nx, pr, he⟩ := hother q hqr hact
          rw [he] at hown hcache ⊢
          exact h.spent x q hx hact₁ (hown.trans hid) fun hin => hcache (hcached _ q hin)
      · rintro q ⟨hact, z, hz, hown⟩
        cases hy.symm.trans hz
        by_cases hqr : q = r
        · subst hqr
          obtain ⟨-, hinv⟩ := hg.alloc.inv.busy_active (r := q) (p := slot) (by simp [Ghost.take])
          obtain ⟨b₁, b₂, -⟩ := hinv.busy_in (x := slot) (by simp [Ghost.take])
          have hge := hinv.geom.slot_ge
          exact Or.inr ⟨h0, ⟨y, hy, hmine hown⟩, hact, hg.binIdx, b₁, by omega⟩
        · obtain ⟨hact₁, nx, pr, he⟩ := hother q hqr hact
          rw [he] at hown ⊢
          exact Or.inl (h.owned q ⟨hact₁, x, hx, hown.trans hid⟩)

/-- A page was set up. -/
def GetsPage (s s' : State) : Prop := ∃ r, Active s' r ∧ ¬ Active s r

theorem GetsPage.of_state {r : PageRef} (h : Active s' r) (hn : (s.pages r).state ≠ .active) :
    GetsPage s s' := ⟨r, h, fun hact => hn hact.2⟩

theorem slabAlloc_reuse (h : Inv c s G) (hl : Lone t s) (hsp : Spent s t) {size slot : Nat}
    (he : slabAlloc c s t size = .ok (slot, s')) :
    Lone t s' ∧ Reuse s t (sizeToBin sizeTables (atLeastOne size)) slot s' ∧
      (GetsPage s s' → ∀ r, Owned s t r →
        (s.pages r).binIdx = sizeToBin sizeTables (atLeastOne size) → PageFull (s.pages r)) := by
  have hpos := atLeastOne_pos size
  obtain ⟨⟨⟨slot', zeroed⟩, s₀⟩, hin, hret⟩ := bind_eq_ok he
  cases hret
  rw [slabAllocInner_atLeastOne] at hin
  by_cases hs : SlabSized (atLeastOne size)
  · have hl' := ensures_elim (Q := fun p => Lone t s → Lone t p.2)
      (slabAllocInner_closed (lone_closed t) s hpos hs) hin hl
    refine ⟨hl', ?_⟩
    rcases (slabAllocInner_cases hpos hs hin).cached_or_slow h hl hsp with
      ⟨x, r, hx, hr, hc⟩ | ⟨hasTld, s₁, hstart, hslow⟩
    · have hpost := ensures_elim (Q := fun p => CachedPost c s G t x _ r p.1 p.2)
        (cachedAlloc_spec h hx hr) hc
      obtain ⟨-, -, y, hy, hbin, hid, -⟩ := hpost.got _ _ rfl
      have hidx := (h.tlds t x hx _ r hr).2.2.1
      refine ⟨⟨?_, ?_⟩, ?_⟩
      · intro z q hz hact hown hcache
        cases hy.symm.trans hz
        rw [(hpost.on.kept q).binIdx, hbin] at hcache
        by_cases hqr : q = r
        · subst hqr
          exact absurd (hidx.symm ▸ hr) hcache
        · rw [hpost.on.pages q hqr] at hown ⊢
          exact hsp x q hx (hpost.on.active hact) (hown.trans hid) hcache
      · rintro q ⟨hact, z, hz, hown⟩
        cases hy.symm.trans hz
        rw [(hpost.on.kept q).ownerTid] at hown
        exact Or.inl ⟨⟨hpost.on.active hact, x, hx, hown.trans hid⟩, (hpost.on.kept q).binIdx⟩
      · rintro ⟨q, hact, hnot⟩
        exact absurd (hpost.on.active hact) hnot
    · have hpost := ensures_elim (Q := fun p => SlowPost c s₁ G t _ hasTld p.1.1 p.1.2 p.2)
        (slowAlloc_spec hstart.inv hasTld (sizeToBin_fits hpos hs.1).1 hs.2) hslow
      exact ⟨hstart.reuse hl' hpost, fun _ => hstart.full⟩
  · rw [slabAllocInner_large hpos hs] at hin
    obtain ⟨x, hlarge, hin⟩ := bind_eq_ok hin
    obtain ⟨-, rfl⟩ := Prod.mk.inj (Except.ok.inj hin)
    obtain ⟨_, _, _, _, _, _, _, _, hform⟩ := largeAlloc_form hlarge
    rw [hform]
    refine ⟨⟨hl.counter, hl.id, hl.owner⟩, ⟨hsp, fun r hr => Or.inl ⟨hr, rfl⟩⟩, ?_⟩
    rintro ⟨q, hact, hnot⟩
    exact absurd hact hnot

/-! ## Freeing -/

/-- A slot is given back while its page is cached, or to a page the thread does not own. -/
def SlabOp.OnCached (t : Nat) (s : State) : SlabOp → Prop
  | .alloc _ => True
  | .free p => ∀ r x, ptrToPage s p = some r → s.tls t = some x →
      (s.pages r).ownerTid = x.threadId → x.binPage (s.pages r).binIdx = some r

theorem slabFree_reuse {σ : Sys} (h : SlabHolds c σ G) (hl : Lone t σ.heap) (hsp : Spent σ.heap t)
    {p : Nat} (hlow : LowPtr σ.heap p) (hlegal : p = 0 ∨ p ∈ σ.ptrs)
    (hsafe : p = 0 ∨ Findable σ.heap p) (hon : (SlabOp.free p).OnCached t σ.heap)
    (he : slabFree c σ.heap t p = .ok s') :
    Lone t s' ∧ Spent s' t ∧ ∀ r, Owned s' t r →
      Owned σ.heap t r ∧ (s'.pages r).binIdx = (σ.heap.pages r).binIdx := by
  have hl' : Lone t s' := ensures_elim (Q := fun x => Lone t σ.heap → Lone t x)
    (slabFree_closed (lone_closed t).toFreeClosed σ.heap p) he hl
  rcases ensures_elim (h.free_post hlow hlegal hsafe) he with ⟨rfl, -⟩ | ⟨r, -, hptr, hf⟩
  · exact ⟨hl, hsp, fun r hr => ⟨hr, rfl⟩⟩
  refine ⟨hl', ?_⟩
  cases hx : σ.heap.tls t with
  | none =>
    have hno : ∀ q, Active s' q → (s'.pages q).ownerTid = noOwner := by
      intro q hact
      rw [(hf.on.kept q).ownerTid]
      exact hl.unowned hx (hf.on.active hact).2
    refine ⟨hl'.spent hno, ?_⟩
    rintro q ⟨hact, y, hy, hown⟩
    exact absurd ((hno q hact).symm.trans hown) (hl'.id_ne hy)
  | some x =>
    obtain ⟨y, hy, hbin, hid, -⟩ := hf.cache hx
    constructor
    · intro z q hz hact hown hcache
      cases hy.symm.trans hz
      rw [(hf.on.kept q).ownerTid] at hown
      rw [(hf.on.kept q).binIdx, hbin] at hcache
      by_cases hqr : q = r
      · subst hqr
        exact absurd (hon q x hptr hx (hown.trans hid)) hcache
      · rw [hf.on.pages q hqr]
        exact hsp x q hx (hf.on.active hact) (hown.trans hid) hcache
    · rintro q ⟨hact, z, hz, hown⟩
      cases hy.symm.trans hz
      rw [(hf.on.kept q).ownerTid] at hown
      exact ⟨⟨hf.on.active hact, x, hx, hown.trans hid⟩, (hf.on.kept q).binIdx⟩

/-! ## Counting -/

/-- The page an address lies in. -/
def pageAt (x : Nat) : PageRef := ⟨segmentOf x, (x - segmentOf x) / 65536⟩

/-- `x` lies in a page in use of the bin. -/
def slotOfBin (s : State) (bin x : Nat) : Bool :=
  (s.segs (pageAt x).seg).isSome && decide (1 ≤ (pageAt x).idx ∧ (pageAt x).idx < 64) &&
    (s.pages (pageAt x)).state == .active && (s.pages (pageAt x)).binIdx == bin

/-- The number of slots of the bin that clients hold. -/
def liveOfBin (σ : Sys) (bin : Nat) : Nat := σ.ptrs.countP (slotOfBin σ.heap bin)

/-- The number of slots of a page of the bin. -/
def binCapacity (bin : Nat) : Nat := 65536 / slotSizeOf bin

variable {σ σ' : Sys} {bin L : Nat}

theorem mem_liveIn {r : PageRef} {x : Nat} :
    x ∈ liveIn σ r ↔ x ∈ σ.ptrs ∧ r.start ≤ x ∧ x < r.start + 65536 := by
  simp only [liveIn, List.mem_filter, Bool.and_eq_true, decide_eq_true_eq]

theorem Inv.pageAt_eq (h : Inv c s G) {r : PageRef} {x : Nat} (hd : IsData s.segs r)
    (h₁ : r.start ≤ x) (h₂ : x < r.start + 65536) : pageAt x = r := by
  obtain ⟨hseg, hidx⟩ := h.segment_of hd h₁ h₂
  unfold pageAt segmentOf
  rw [hseg, hidx]

/-- The live slots of some pages of a bin are among the live slots of the bin. -/
theorem SlabHolds.sum_liveIn_le (h : SlabHolds c σ G) {R : Finset PageRef}
    (hR : ∀ r ∈ R, Active σ.heap r ∧ (σ.heap.pages r).binIdx = bin) :
    ∑ r ∈ R, (liveIn σ r).length ≤ liveOfBin σ bin := by
  have hat : ∀ r ∈ R, ∀ x ∈ (liveIn σ r).toFinset, x ∈ σ.ptrs ∧ pageAt x = r := by
    intro r hr x hx
    obtain ⟨hmem, h₁, h₂⟩ := mem_liveIn.mp (List.mem_toFinset.mp hx)
    exact ⟨hmem, h.inv.pageAt_eq (hR r hr).1.1 h₁ h₂⟩
  have hdisj : Set.PairwiseDisjoint (R : Set PageRef) fun r => (liveIn σ r).toFinset := by
    intro r hr r' hr' hne
    refine Finset.disjoint_left.mpr fun x hx hx' => hne ?_
    exact (hat r hr x hx).2.symm.trans (hat r' hr' x hx').2
  have hsub : (R.biUnion fun r => (liveIn σ r).toFinset) ⊆
      (σ.ptrs.filter (slotOfBin σ.heap bin)).toFinset := by
    intro x hx
    obtain ⟨r, hr, hx⟩ := Finset.mem_biUnion.mp hx
    obtain ⟨hmem, rfl⟩ := hat r hr x hx
    obtain ⟨⟨⟨hseg, hidx⟩, hact⟩, hbin⟩ := hR _ hr
    refine List.mem_toFinset.mpr (List.mem_filter.mpr ⟨hmem, ?_⟩)
    simp only [slotOfBin, hseg, hidx, hact, hbin, and_self, decide_true, Bool.and_self,
      beq_self_eq_true]
  calc ∑ r ∈ R, (liveIn σ r).length
      = ∑ r ∈ R, (liveIn σ r).toFinset.card := Finset.sum_congr rfl fun r _ =>
        (List.toFinset_card_of_nodup (h.nodup.filter _)).symm
    _ = (R.biUnion fun r => (liveIn σ r).toFinset).card := (Finset.card_biUnion hdisj).symm
    _ ≤ (σ.ptrs.filter (slotOfBin σ.heap bin)).toFinset.card := Finset.card_le_card hsub
    _ ≤ (σ.ptrs.filter (slotOfBin σ.heap bin)).length := List.toFinset_card_le _
    _ = liveOfBin σ bin := List.countP_eq_length_filter.symm

/-- All slots of a full page are live. -/
theorem SlabHolds.liveIn_full (h : SlabHolds c σ G) {r : PageRef} (hact : Active σ.heap r)
    (hfull : PageFull (σ.heap.pages r)) :
    (liveIn σ r).length = binCapacity (σ.heap.pages r).binIdx := by
  obtain ⟨loc, rem, hp⟩ := h.partitioned hact.1 hact.2
  obtain ⟨hinv, -⟩ := h.inv.active hact.1 hact.2
  obtain ⟨hloc, hrem, hbump⟩ := hfull
  have hnil : ∀ {l : List Nat}, Linked (link σ.heap.mem) (ptr 0) l → l = [] := by
    intro l hl
    cases l with
    | nil => rfl
    | cons x l => exact absurd hl.1 (by simp [ptr])
  have hlocal := hp.local_chain
  have hremote := hp.remote_chain
  rw [hloc] at hlocal
  rw [hrem] at hremote
  have htotal := hp.total
  rw [← hp.local_count, ← hp.remote_count, hnil hlocal, hnil hremote,
    show bumpRemaining (σ.heap.pages r) = 0 from if_neg hbump] at htotal
  rw [hp.live_count, binCapacity, ← hinv.geom.slot_eq, ← hinv.geom.cap_eq]
  exact htotal

/-- While the thread works on a page of the bin, all its other pages of the bin are full of
live slots. -/
theorem SlabHolds.pages_le (h : SlabHolds c σ G) (hsp : Spent σ.heap t)
    (hL : liveOfBin σ bin ≤ L) {r : PageRef} {slot : Nat} (hr : ServedBy σ.heap t bin slot r)
    (hslot : slot ∈ σ.ptrs) {R : Finset PageRef}
    (hR : ∀ q ∈ R, Owned σ.heap t q ∧ (σ.heap.pages q).binIdx = bin) :
    R.card ≤ (L + binCapacity bin - 1) / binCapacity bin := by
  obtain ⟨y, hy, hcached⟩ := hr.cached
  obtain ⟨hinv, -⟩ := h.inv.active hr.active.1 hr.active.2
  have hcap : 0 < binCapacity bin := by
    have := hinv.geom.cap_pos
    rw [hinv.geom.cap_eq, hinv.geom.slot_eq, hr.binIdx] at this
    unfold binCapacity
    omega
  have hother : ∀ q ∈ R.erase r, (liveIn σ q).length = binCapacity bin := by
    intro q hq
    obtain ⟨hqr, hq⟩ := Finset.mem_erase.mp hq
    obtain ⟨⟨hact, x, hx, hown⟩, hbin⟩ := hR q hq
    obtain rfl : x = y := Option.some.inj (hx.symm.trans hy)
    have hfull := hsp x q hx hact hown fun hin => hqr (by
      rw [hbin, hcached] at hin
      exact (Option.some.inj hin).symm)
    rw [h.liveIn_full hact hfull, hbin]
  have hone : 0 < (liveIn σ r).length :=
    List.length_pos_of_mem (mem_liveIn.mpr ⟨hslot, hr.lo, hr.hi⟩)
  have hsum : _ ≤ liveOfBin σ bin := h.sum_liveIn_le (R := insert r (R.erase r)) fun q hq => by
    rcases Finset.mem_insert.mp hq with rfl | hq
    · exact ⟨hr.active, hr.binIdx⟩
    · obtain ⟨hown, hbin⟩ := hR q (Finset.mem_of_mem_erase hq)
      exact ⟨hown.1, hbin⟩
  rw [Finset.sum_insert (Finset.notMem_erase r R), Finset.sum_const_nat hother] at hsum
  have hcard : R.card - 1 ≤ (R.erase r).card := Finset.pred_card_le_card_erase
  rw [Nat.le_div_iff_mul_le hcap]
  calc R.card * binCapacity bin
      ≤ ((R.erase r).card + 1) * binCapacity bin := Nat.mul_le_mul_right _ (by omega)
    _ = (R.erase r).card * binCapacity bin + binCapacity bin := Nat.succ_mul ..
    _ ≤ L + binCapacity bin - 1 := by omega

/-! ## Runs -/

/-- The calls are all made by thread `t`, and it frees into cached pages. -/
def ReusesCached (c : Cfg) (t : Nat) : Nat → Sys → SlabOp → Prop :=
  fun t' σ op => t' = t ∧ op.Safe c σ ∧ op.OnCached t σ.heap

/-- The states of such a run. -/
structure Alone (c : Cfg) (t : Nat) (σ : Sys) : Prop where
  holds : ∃ G, SlabHolds c σ G
  lone : Lone t σ.heap
  spent : Spent σ.heap t

/-- A page that the thread owns after a call is one it owned before, or the page of a
live slot that it has cached now. -/
def OwnedFrom (t : Nat) (σ σ' : Sys) : Prop :=
  ∀ r, Owned σ'.heap t r →
    (Owned σ.heap t r ∧ (σ'.heap.pages r).binIdx = (σ.heap.pages r).binIdx) ∨
    ∃ slot ∈ σ'.ptrs, ServedBy σ'.heap t (σ'.heap.pages r).binIdx slot r

theorem Alone.call (h : Alone c t σ) {t' q : Nat} {op : SlabOp} {ans : List (Option Nat)}
    (hlow : op.Low σ.heap) (hlegal : op.Legal σ.live) (hP : ReusesCached c t t' σ op)
    (he : σ.slabCall c t' op ans = .ok (q, σ')) : Alone c t σ' ∧ OwnedFrom t σ σ' := by
  have hholds := slabStep_holds (P := ReusesCached c t) (fun _ _ _ hp => hp.2.1) h.holds
    (.call t' op ans q hlow hlegal hP he)
  obtain ⟨rfl, hsafe, hon⟩ := hP
  obtain ⟨G, hh⟩ := h.holds
  obtain ⟨hexec, hlive⟩ := Sys.slabCall_ok he
  have hl : Lone t' (σ.heap.withAnswers ans) := ⟨h.lone.counter, h.lone.id, h.lone.owner⟩
  cases op with
  | alloc size =>
    obtain ⟨hl', hre, -⟩ := slabAlloc_reuse (hh.withAnswers ans).inv hl h.spent hexec
    refine ⟨⟨hholds, hl', hre.spent⟩, fun r hr => ?_⟩
    rcases hre.owned r hr with hold | ⟨h0, hs⟩
    · exact Or.inl hold
    · refine Or.inr ⟨q, ?_, hs.binIdx.symm ▸ hs⟩
      unfold Sys.ptrs
      rw [hlive, slabLive, addPtr, if_neg h0]
      exact List.mem_cons_self ..
  | free p =>
    obtain ⟨s', hfree, hret⟩ := bind_eq_ok hexec
    obtain ⟨-, rfl⟩ := Prod.mk.inj (Except.ok.inj hret)
    obtain ⟨hl', hsp', hown⟩ := slabFree_reuse (hh.withAnswers ans) hl h.spent hlow hlegal hsafe hon
      hfree
    exact ⟨⟨hholds, hl', hsp'⟩, fun r hr => Or.inl (hown r hr)⟩

/-- The run lemma. -/
theorem alone_run {P : Nat → Sys → SlabOp → Prop}
    (hP : ∀ t' σ op, P t' σ op → ReusesCached c t t' σ op)
    (h : SlabReachable c P σ) : Alone c t σ := by
  induction h with
  | refl =>
    refine ⟨⟨_, initial_slabHolds c⟩, lone_initial c t, ?_⟩
    intro x r hx
    exact absurd hx (by simp [Sys.initial, State.initial])
  | tail _ hs ih =>
    cases hs with
    | call t' op ans q hlow hlegal hcall he => exact (ih.call hlow hlegal (hP t' _ op hcall) he).1
    | write m hm =>
      obtain ⟨G, hh⟩ := ih.holds
      exact ⟨⟨G, hh.toHolds.write hm, hh.exact⟩, ⟨ih.lone.counter, ih.lone.id, ih.lone.owner⟩,
        ih.spent⟩

/-- The thread never owned more pages of the bin than its live slots needed at some time. -/
theorem owned_le (h : SlabReachable c (fun t' σ op => ReusesCached c t t' σ op ∧
      liveOfBin σ bin ≤ L) σ) (hL : liveOfBin σ bin ≤ L) (R : Finset PageRef)
    (hR : ∀ r ∈ R, Owned σ.heap t r ∧ (σ.heap.pages r).binIdx = bin) :
    R.card ≤ (L + binCapacity bin - 1) / binCapacity bin := by
  induction h generalizing R with
  | refl =>
    have hempty : R = ∅ := by
      refine Finset.eq_empty_of_forall_notMem fun r hr => ?_
      obtain ⟨⟨-, x, hx, -⟩, -⟩ := hR r hr
      exact absurd hx (by simp [Sys.initial, State.initial])
    rw [hempty]
    exact Nat.zero_le _
  | @tail σ₁ σ₂ hreach hs ih =>
    have halone := alone_run (fun _ _ _ hp => hp.1) hreach
    cases hs with
    | call t' op ans q hlow hlegal hcall he =>
      obtain ⟨halone', hfrom⟩ := halone.call hlow hlegal hcall.1 he
      by_cases hnew : ∃ r ∈ R, ∃ slot ∈ σ₂.ptrs, ServedBy σ₂.heap t bin slot r
      · obtain ⟨r, -, slot, hslot, hsv⟩ := hnew
        obtain ⟨G, hh⟩ := halone'.holds
        exact hh.pages_le halone'.spent hL hsv hslot hR
      · refine ih hcall.2 R fun r hr => ?_
        obtain ⟨hown, hbin⟩ := hR r hr
        rcases hfrom r hown with ⟨hold, heq⟩ | ⟨slot, hslot, hsv⟩
        · exact ⟨hold, heq.symm.trans hbin⟩
        · exact absurd ⟨r, hr, slot, hslot, hbin ▸ hsv⟩ hnew
    | write m hm => exact ih hL R hR

/-- In a run of one thread that frees only into pages it has cached (or does not own), a page
is set up for a bin only when all the thread's pages of the bin are full, and if never more
than `L` slots of the bin are live, the bin never has more than `L / capacity` pages, rounded
up, besides those nobody could claim. -/
theorem reuse_before_growth (c : Cfg) (t : Nat) :
    (∀ σ, SlabReachable c (ReusesCached c t) σ → ∀ size ans q σ',
      σ.slabCall c t (.alloc size) ans = .ok (q, σ') → GetsPage σ.heap σ'.heap →
      ∀ r, Owned σ.heap t r →
        (σ.heap.pages r).binIdx = sizeToBin sizeTables (atLeastOne size) →
        PageFull (σ.heap.pages r)) ∧
    ∀ bin L σ, SlabReachable c (fun t' σ op => ReusesCached c t t' σ op ∧ liveOfBin σ bin ≤ L) σ →
      liveOfBin σ bin ≤ L → ∀ R : Finset PageRef,
      (∀ r ∈ R, Active σ.heap r ∧ (σ.heap.pages r).binIdx = bin) →
      R.card ≤ (L + binCapacity bin - 1) / binCapacity bin +
        (R.filter fun r => (σ.heap.pages r).ownerTid = noOwner).card := by
  constructor
  · intro σ h size ans q σ' he hnew r hr hbin
    obtain ⟨⟨G, hh⟩, hl, hsp⟩ := alone_run (fun _ _ _ hp => hp) h
    have hl₁ : Lone t (σ.heap.withAnswers ans) := ⟨hl.counter, hl.id, hl.owner⟩
    exact (slabAlloc_reuse (hh.withAnswers ans).inv hl₁ hsp (Sys.slabCall_ok he).1).2.2 hnew r
      hr hbin
  · intro bin L σ h hL R hR
    have hl := (alone_run (fun _ _ _ hp => hp.1) h).lone
    have howned : ∀ r ∈ R.filter (fun r => ¬ (σ.heap.pages r).ownerTid = noOwner),
        Owned σ.heap t r ∧ (σ.heap.pages r).binIdx = bin := by
      intro r hr
      obtain ⟨hr, hne⟩ := Finset.mem_filter.mp hr
      obtain ⟨hact, hbin⟩ := hR r hr
      exact ⟨⟨hact, (hl.owner r hact.2).resolve_left hne⟩, hbin⟩
    have hle := owned_le h hL _ howned
    have hsplit := Finset.card_filter_add_card_filter_not
      (s := R) fun r => (σ.heap.pages r).ownerTid = noOwner
    omega

/-- A slot of 32464 bytes was taken; a page has two of them. -/
def oneTaken : Sys :=
  (Sys.initial (.page4k false)).slabAfter (.page4k false) 0 (.alloc 32000)
    [some 0x10000000, some 0x20000000]

/-- It was given back while its page was cached, and taken again. -/
def retaken : Sys :=
  (oneTaken.slabAfter (.page4k false) 0 (.free 0x20010000) []).slabAfter (.page4k false) 0
    (.alloc 32000) []

/-- Then the page was filled. -/
def filled : Sys := retaken.slabAfter (.page4k false) 0 (.alloc 32000) []

/-- And a second page was set up. -/
def secondPage : Sys := filled.slabAfter (.page4k false) 0 (.alloc 32000) []

theorem oneTaken_onCached : (SlabOp.free 0x20010000).OnCached 0 oneTaken.heap := by
  intro r x hr hx _
  have hpage : ptrToPage oneTaken.heap 0x20010000 = some ⟨0x20000000, 1⟩ := by decide +kernel
  cases hpage.symm.trans hr
  have hbin : (oneTaken.heap.pages ⟨0x20000000, 1⟩).binIdx = 62 := by decide +kernel
  have hcache : (oneTaken.heap.tls 0).map (fun y => y.binPage 62) =
      some (some ⟨0x20000000, 1⟩) := by decide +kernel
  rw [hx, Option.map_some, Option.some.injEq] at hcache
  rw [hbin]
  exact hcache

theorem secondPage_reachable {P : Nat → Sys → SlabOp → Prop}
    (halloc : ∀ σ, liveOfBin σ 62 ≤ 3 → P 0 σ (.alloc 32000))
    (hfree : P 0 oneTaken (.free 0x20010000)) :
    SlabReachable (.page4k false) P filled ∧ SlabReachable (.page4k false) P secondPage := by
  have hsize : (32000 : Nat) < 2 ^ 64 := by decide
  have h₁ : SlabReachable (.page4k false) P oneTaken :=
    SlabReachable.after .refl 0 (.alloc 32000) _ trivial hsize (halloc _ (by decide))
  have h₂ := h₁.after 0 (.free 0x20010000) [] (fun _ _ _ _ => by decide) (by decide +kernel) hfree
  have h₃ : SlabReachable (.page4k false) P retaken :=
    h₂.after 0 (.alloc 32000) [] trivial hsize (halloc _ (by decide +kernel))
  have h₄ : SlabReachable (.page4k false) P filled :=
    h₃.after 0 (.alloc 32000) [] trivial hsize (halloc _ (by decide +kernel))
  exact ⟨h₄, h₄.after 0 (.alloc 32000) [] trivial hsize (halloc _ (by decide +kernel))⟩

theorem active_mk {b i : Nat} (hseg : (s.segs b).isSome) (h₁ : 1 ≤ i) (h₂ : i < 64)
    (hact : (s.pages ⟨b, i⟩).state = .active) : Active s ⟨b, i⟩ := ⟨⟨hseg, h₁, h₂⟩, hact⟩

theorem owned_mk {r : PageRef} (hact : Active s r)
    (hid : (s.tls t).map Tld.threadId = some (s.pages r).ownerTid) : Owned s t r := by
  obtain ⟨x, hx, hown⟩ := Option.map_eq_some_iff.mp hid
  exact ⟨hact, x, hx, hown.symm⟩

/-- The first page is owned by the thread. -/
theorem filled_owned : Owned filled.heap 0 ⟨0x20000000, 1⟩ :=
  owned_mk (active_mk (by decide +kernel) (by decide) (by decide) (by decide +kernel))
    (by decide +kernel)

/-- The second page is set up when the first one is full, and three live slots take two
pages. -/
theorem reuse_before_growth_two_pages :
    GetsPage filled.heap secondPage.heap ∧ PageFull (filled.heap.pages ⟨0x20000000, 1⟩) ∧
      liveOfBin secondPage 62 = 3 ∧
      ({⟨0x20000000, 1⟩, ⟨0x20000000, 2⟩} : Finset PageRef).card ≤ (3 + 2 - 1) / 2 := by
  obtain ⟨hfilled, hsecond⟩ := secondPage_reachable (P := fun t' σ op =>
    ReusesCached (.page4k false) 0 t' σ op ∧ liveOfBin σ 62 ≤ 3)
    (fun _ hle => ⟨⟨rfl, largeFits_small (by decide), trivial⟩, hle⟩)
    ⟨⟨rfl, Or.inr (Or.inr (by decide +kernel)), oneTaken_onCached⟩, by decide +kernel⟩
  obtain ⟨hfull, hcount⟩ := reuse_before_growth (.page4k false) 0
  have hsecondAct : Active secondPage.heap ⟨0x20000000, 2⟩ :=
    active_mk (by decide +kernel) (by decide) (by decide) (by decide +kernel)
  have hnew : GetsPage filled.heap secondPage.heap := .of_state hsecondAct (by decide +kernel)
  obtain ⟨q, he⟩ : ∃ q, filled.slabCall (.page4k false) 0 (.alloc 32000) [] = .ok (q, secondPage) :=
    Sys.slabCall_after (by decide +kernel)
  have hlive : liveOfBin secondPage 62 = 3 := by decide +kernel
  refine ⟨hnew, ?_, hlive, ?_⟩
  · exact hfull filled (hfilled.mono fun _ _ _ hp => hp.1) 32000 [] q secondPage he hnew _
      filled_owned (by decide +kernel)
  · have hle := hcount 62 3 secondPage hsecond (by rw [hlive])
      {⟨0x20000000, 1⟩, ⟨0x20000000, 2⟩} fun r hr => ?_
    · have hcap : binCapacity 62 = 2 := by decide +kernel
      have hnone : (Finset.filter (fun r => (secondPage.heap.pages r).ownerTid = noOwner)
          ({⟨0x20000000, 1⟩, ⟨0x20000000, 2⟩} : Finset PageRef)).card = 0 := by decide +kernel
      rw [hcap, hnone] at hle
      exact hle
    · rcases Finset.mem_insert.mp hr with rfl | hr
      · exact ⟨active_mk (by decide +kernel) (by decide) (by decide) (by decide +kernel),
          by decide +kernel⟩
      · rw [Finset.mem_singleton.mp hr]
        exact ⟨hsecondAct, by decide +kernel⟩

/-- A slot of the first page is given back after the page has left the cache, -/
def leftBehind : Sys := secondPage.slabAfter (.page4k false) 0 (.free 0x20010000) []

/-- the second page is filled, -/
def secondFilled : Sys := leftBehind.slabAfter (.page4k false) 0 (.alloc 32000) []

/-- and the next request sets up a third page. -/
def thirdPage : Sys := secondFilled.slabAfter (.page4k false) 0 (.alloc 32000) []

theorem secondFilled_reachable : SlabReachable (.page4k false)
    (fun t' σ op => t' = 0 ∧ op.Safe (.page4k false) σ ∧ liveOfBin σ 62 ≤ 4) secondFilled := by
  obtain ⟨-, h⟩ := secondPage_reachable (P := fun t' σ op =>
    t' = 0 ∧ op.Safe (.page4k false) σ ∧ liveOfBin σ 62 ≤ 4)
    (fun _ hle => ⟨rfl, largeFits_small (by decide), Nat.le_succ_of_le hle⟩)
    ⟨rfl, Or.inr (Or.inr (by decide +kernel)), by decide +kernel⟩
  have h₁ := SlabReachable.after (σ := secondPage) h 0 (.free 0x20010000) []
    (fun _ _ _ _ => by decide) (by decide +kernel)
    ⟨rfl, Or.inr (Or.inr (by decide +kernel)), by decide +kernel⟩
  exact SlabReachable.after (σ := leftBehind) h₁ 0 (.alloc 32000) [] trivial
    (show 32000 < 2 ^ 64 by decide) ⟨rfl, largeFits_small (by decide), by decide +kernel⟩

/-- One thread, never more than four live slots of two to a page: it gets a third page while its
first one has a slot on the local list. -/
theorem page_left_behind :
    ∃ σ σ' q r, SlabReachable (.page4k false)
        (fun t' σ op => t' = 0 ∧ op.Safe (.page4k false) σ ∧ liveOfBin σ 62 ≤ 4) σ ∧
      σ.slabCall (.page4k false) 0 (.alloc 32000) [] = .ok (q, σ') ∧
      GetsPage σ.heap σ'.heap ∧ Owned σ.heap 0 r ∧
      (σ.heap.pages r).binIdx = sizeToBin sizeTables (atLeastOne 32000) ∧
      ¬ PageFull (σ.heap.pages r) ∧ liveOfBin σ' 62 ≤ 4 ∧
      ∃ R : Finset PageRef, (∀ r ∈ R, Active σ'.heap r ∧ (σ'.heap.pages r).binIdx = 62 ∧
          (σ'.heap.pages r).ownerTid ≠ noOwner) ∧
        (4 + binCapacity 62 - 1) / binCapacity 62 < R.card := by
  obtain ⟨q, he⟩ : ∃ q, secondFilled.slabCall (.page4k false) 0 (.alloc 32000) [] =
      .ok (q, thirdPage) := Sys.slabCall_after (by decide +kernel)
  have hpage : ∀ i, i = 1 ∨ i = 2 ∨ i = 3 → Active thirdPage.heap ⟨0x20000000, i⟩ ∧
      (thirdPage.heap.pages ⟨0x20000000, i⟩).binIdx = 62 ∧
      (thirdPage.heap.pages ⟨0x20000000, i⟩).ownerTid ≠ noOwner := by
    have hseg : (thirdPage.heap.segs 0x20000000).isSome := by decide +kernel
    rintro i (rfl | rfl | rfl)
    · exact ⟨active_mk hseg (by decide) (by decide) (by decide +kernel), by decide +kernel,
        by decide +kernel⟩
    · exact ⟨active_mk hseg (by decide) (by decide) (by decide +kernel), by decide +kernel,
        by decide +kernel⟩
    · exact ⟨active_mk hseg (by decide) (by decide) (by decide +kernel), by decide +kernel,
        by decide +kernel⟩
  have hact : Active secondFilled.heap ⟨0x20000000, 1⟩ :=
    active_mk (by decide +kernel) (by decide) (by decide) (by decide +kernel)
  refine ⟨secondFilled, thirdPage, q, ⟨0x20000000, 1⟩, secondFilled_reachable, he,
    .of_state (hpage 3 (by decide)).1 (by decide +kernel), owned_mk hact (by decide +kernel),
    by decide +kernel, ?_, by decide +kernel,
    {⟨0x20000000, 1⟩, ⟨0x20000000, 2⟩, ⟨0x20000000, 3⟩}, ?_, by decide +kernel⟩
  · intro hfull
    exact absurd hfull.1 (by decide +kernel)
  · intro r hr
    simp only [Finset.mem_insert, Finset.mem_singleton] at hr
    rcases hr with rfl | rfl | rfl
    · exact hpage 1 (by decide)
    · exact hpage 2 (by decide)
    · exact hpage 3 (by decide)

end CustomMalloc

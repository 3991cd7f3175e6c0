import CustomMalloc.Inv.Retire

/-!
# Heaps with retired pages

A retired page may keep its bytes, and may still be in some thread's cache. `Settled`
is the invariant of such heaps: with the caches emptied and other bytes in the idle
parts, the state satisfies `Inv`. Every call of the slab allocator then does what it
does in that state (`Alike`), so its specification carries over.

With `v = true` idle bytes are those no slot has been carved out of; with `v = false`
only those of unused pages, so that virgin bytes of an active page are known to be zero.
-/

namespace CustomMalloc

open Lib.Words Lib.Bytes Lib.Chain Lib.Intervals Lib.Post Lib.Relate

variable {c : Cfg} {v : Bool} {s s' s₁ s₂ : State} {G G' : Ghost} {r q : PageRef} {t : Nat}

/-! ## Idle bytes -/

/-- How far a page is carved; a page that is not in use is not carved at all. -/
def carved (s : State) (q : PageRef) : Nat :=
  if (s.pages q).state = .active then (s.pages q).bumpOffset else 0

/-- The byte `y` belongs to no slot. -/
def Idle (v : Bool) (s : State) (y : Nat) : Prop :=
  ∃ q, IsData s.segs q ∧ q.start ≤ y ∧ y < q.start + 65536 ∧
    ((s.pages q).state ≠ .active ∨ v = true ∧ q.start + carved s q ≤ y)

/-- No page was carved, set up or retired. -/
def SameCarved (s s' : State) : Prop :=
  ∀ q, IsData s.segs q → IsData s'.segs q ∧ carved s' q = carved s q ∧
    ((s'.pages q).state = .active ↔ (s.pages q).state = .active)

/-- The only bytes carved are the `n` at `slot`. -/
def Carves (s : State) (slot n : Nat) (s' : State) : Prop :=
  ∀ q, IsData s.segs q → IsData s'.segs q ∧
    ((carved s' q = carved s q ∧ ((s'.pages q).state = .active ↔ (s.pages q).state = .active)) ∨
      slot = q.start + carved s q ∧ carved s' q = carved s q + n)

theorem SameCarved.trans (h : SameCarved s s₁) (h' : SameCarved s₁ s') : SameCarved s s' := by
  intro q hd
  obtain ⟨hd₁, hc₁, ha₁⟩ := h q hd
  obtain ⟨hd₂, hc₂, ha₂⟩ := h' q hd₁
  exact ⟨hd₂, hc₂.trans hc₁, ha₂.trans ha₁⟩

theorem SameCarved.carves (h : SameCarved s s') (slot n : Nat) : Carves s slot n s' := by
  intro q hd
  obtain ⟨hd', hc, ha⟩ := h q hd
  exact ⟨hd', Or.inl ⟨hc, ha⟩⟩

theorem Carves.after {slot n : Nat} (h' : Carves s₁ slot n s') (h : SameCarved s s₁) :
    Carves s slot n s' := by
  intro q hd
  obtain ⟨hd₁, hc₁, ha₁⟩ := h q hd
  obtain ⟨hd₂, hcase⟩ := h' q hd₁
  rw [hc₁, ha₁] at hcase
  exact ⟨hd₂, hcase⟩

theorem Carves.before {slot n : Nat} (h : Carves s slot n s₁) (h' : SameCarved s₁ s') :
    Carves s slot n s' := by
  intro q hd
  obtain ⟨hd₁, hcase⟩ := h q hd
  obtain ⟨hd₂, hc₂, ha₂⟩ := h' q hd₁
  rw [hc₂, ha₂]
  exact ⟨hd₂, hcase⟩

theorem SameCarved.of_meta (h : SameMeta s s') : SameCarved s s' := by
  intro q hd
  unfold carved
  rw [h.segs, h.pages]
  exact ⟨hd, rfl, Iff.rfl⟩

/-- One page was rewritten, without carving. -/
theorem SameCarved.of_page (hs : s'.segs = s.segs) (hother : ∀ q, q ≠ r → s'.pages q = s.pages q)
    (hstate : (s'.pages r).state = (s.pages r).state)
    (hbump : (s'.pages r).bumpOffset = (s.pages r).bumpOffset) : SameCarved s s' := by
  intro q hd
  unfold carved
  rw [hs]
  by_cases hq : q = r
  · subst hq
    rw [hstate, hbump]
    exact ⟨hd, rfl, Iff.rfl⟩
  · rw [hother q hq]
    exact ⟨hd, rfl, Iff.rfl⟩

theorem SameCarved.idle (h : SameCarved s s') {y : Nat} (hy : Idle v s y) : Idle v s' y := by
  obtain ⟨q, hd, h₁, h₂, hcase⟩ := hy
  obtain ⟨hd', hc, ha⟩ := h q hd
  refine ⟨q, hd', h₁, h₂, ?_⟩
  rw [hc, Ne, ha]
  exact hcase

/-- Every data page that became active between `s` and `s'` reads zero in `m`. -/
def FreshZero (m : Mem) (s s' : State) : Prop :=
  ∀ q, IsData s.segs q → (s.pages q).state ≠ .active → (s'.pages q).state = .active →
    ∀ y, q.start ≤ y → y < q.start + 65536 → m y = 0

/-- The page that would be set up next for arena `a` reads zero. -/
def NextZero (s : State) (a : Nat) : Prop :=
  ∀ r, nextPage s a = some r → IsData s.segs r →
    ∀ y, r.start ≤ y → y < r.start + 65536 → s.mem y = 0

/-- What stays idle when a slot is carved. -/
theorem Carves.idle {slot n : Nat} (h : Carves s slot n s') {y : Nat} (hy : Idle v s y)
    (hold : v = false → ∀ q, IsData s.segs q → (s.pages q).state ≠ .active → q.start ≤ y →
      y < q.start + 65536 → (s'.pages q).state ≠ .active) :
    Idle v s' y ∨ slot ≤ y ∧ y < slot + n := by
  obtain ⟨q, hd, h₁, h₂, hcase⟩ := hy
  obtain ⟨hd', ⟨hc, ha⟩ | ⟨hslot, hc⟩⟩ := h q hd
  · refine Or.inl ⟨q, hd', h₁, h₂, ?_⟩
    rw [hc, Ne, ha]
    exact hcase
  · cases v with
    | false =>
      rcases hcase with hne | ⟨hv, -⟩
      · exact Or.inl ⟨q, hd', h₁, h₂, Or.inl (hold rfl q hd hne h₁ h₂)⟩
      · cases hv
    | true =>
      -- a page that is not in use is carved up to its start
      have hle : q.start + carved s q ≤ y := by
        rcases hcase with hne | ⟨-, hle⟩
        · unfold carved
          rw [if_neg hne]
          omega
        · exact hle
      by_cases hlt : y < slot + n
      · exact Or.inr ⟨by omega, hlt⟩
      · exact Or.inl ⟨q, hd', h₁, h₂, Or.inr ⟨rfl, by omega⟩⟩

/-! ## The invariant -/

/-- The state without caches, with the bytes `m`. -/
def State.bare (s : State) (m : Mem) : State :=
  { s with mem := m, tls := fun t => (s.tls t).map Tld.bare }

/-- A cached page is a data page, active or not, and the thread has an arena. -/
def CacheData (segs : Nat → Option Segment) (x : Tld) : Prop :=
  ∀ b q, x.binPage b = some q → IsData segs q ∧ x.arena.isSome

/-- With empty caches and other bytes in the idle places, the state satisfies the invariant. -/
structure Settled (v : Bool) (c : Cfg) (s : State) (G : Ghost) : Prop where
  bare : ∃ m, Inv c (s.bare m) G ∧ ∀ y, m y ≠ s.mem y → Idle v s y
  caches : ∀ t x, s.tls t = some x → CacheData s.segs x

/-- `s₁` satisfies the invariant and differs from `s` in caches and idle bytes. -/
structure Shadow (v : Bool) (c : Cfg) (s s₁ : State) (G : Ghost) : Prop where
  inv : Inv c s₁ G
  alike : Alike (fun y => s₁.mem y ≠ s.mem y) s s₁
  idle : ∀ y, s₁.mem y ≠ s.mem y → Idle v s y

theorem Alike.same {D : Nat → Prop} (h : Alike D s s₁) : SameMeta s s₁ := by
  obtain ⟨m, T, -, -⟩ := h
  exact ⟨rfl, rfl, rfl, rfl⟩

theorem Alike.agree {D : Nat → Prop} (h : Alike D s s₁) : AgreeOff D s.mem s₁.mem := by
  obtain ⟨m, T, hm, -⟩ := h
  exact hm

theorem alike_bare (s : State) (m : Mem) : Alike (fun y => m y ≠ s.mem y) s (s.bare m) := by
  refine .mk m _ (fun y hy => Classical.not_not.mp hy) fun t => ?_
  cases s.tls t <;> rfl

theorem Settled.shadow (h : Settled v c s G) : ∃ m, Shadow v c s (s.bare m) G := by
  obtain ⟨m, hinv, hidle⟩ := h.bare
  exact ⟨m, hinv, alike_bare s m, hidle⟩

/-- Emptying the caches. -/
theorem Inv.clearCaches (h : Inv c s G) :
    Inv c { s with tls := fun t => (s.tls t).map Tld.bare } G := by
  refine { h with regions := h.regions.mono (fun ρ y hy => ?_) fun _ hy => hy, tlds := ?_ }
  · cases ρ with
    | tld t =>
      obtain ⟨x, hx, hy⟩ := hy
      obtain ⟨x₀, hx₀, rfl⟩ := Option.map_eq_some_iff.mp hx
      exact ⟨x₀, hx₀, hy⟩
    | seg b => exact hy
    | large b => exact hy
    | boot => exact hy
  · intro t x hx b q hq
    obtain ⟨x₀, -, rfl⟩ := Option.map_eq_some_iff.mp hx
    exact absurd hq (by simp [Tld.bare])

/-- A state that shadows `s` and has the invariant makes `s` settled, if it differs only in bytes
that are idle or busy. -/
theorem Settled.of_alike {D : Nat → Prop} (hal : Alike D s s₁) (hinv : Inv c s₁ G)
    (hD : ∀ y, D y → Idle v s y ∨ ∃ p n, Blk s G p n ∧ p ≤ y ∧ y < p + n)
    (hcaches : ∀ t x, s.tls t = some x → CacheData s.segs x) : Settled v c s G := by
  classical
  have hsame := hal.same
  -- idle bytes are taken from `s₁`, all others from `s`
  let m : Mem := fun y => if Idle v s y then s₁.mem y else s.mem y
  have hclear := hinv.clearCaches
  have hwrite : Inv c { s₁ with mem := m, tls := fun t => (s₁.tls t).map Tld.bare } G := by
    refine hclear.write fun y hy => ?_
    by_cases hidle : Idle v s y
    · exact absurd (if_pos hidle) hy
    · have hmy : m y = s.mem y := if_neg hidle
      rw [hmy] at hy
      have hDy : D y := by
        by_contra hno
        exact hy (hal.agree y hno).symm
      obtain ⟨p, n, hb, h₁, h₂⟩ := (hD y hDy).resolve_left hidle
      exact ⟨p, n, hb.same ⟨hsame.segs, hsame.pages, hsame.registry, hsame.larges⟩, h₁, h₂⟩
  refine ⟨⟨m, ?_, ?_⟩, hcaches⟩
  · obtain ⟨m₁, T, hm, hT⟩ := hal
    have htls : (fun t => (T t).map Tld.bare) = fun t => (s.tls t).map Tld.bare := funext hT
    rw [htls] at hwrite
    exact hwrite
  · intro y hy
    by_contra hidle
    exact hy (if_neg hidle)

/-! ## Carving -/

theorem tldStatStore_pages {x : Tld} (he : tldStatStore s t x = .ok s') :
    s'.pages = s.pages ∧ s'.segs = s.segs := by
  rcases tldStatStore_cases he with ⟨-, rfl⟩ | ⟨a, -, rfl⟩
  · exact ⟨rfl, rfl⟩
  · exact ⟨rfl, rfl⟩

theorem takeSlot_pages {x : Tld} {p : PageMeta} {slot : Nat}
    (he : takeSlot c s t x r p slot = .ok s') :
    ∃ bm, s'.pages = upd s.pages r { p with debugBitmap := bm } ∧ s'.segs = s.segs := by
  unfold takeSlot at he
  obtain ⟨p', hm, he⟩ := bind_eq_ok he
  obtain ⟨bm, rfl⟩ := markAllocated_eq hm
  obtain ⟨hp, hs⟩ := tldStatStore_pages he
  exact ⟨bm, hp, hs⟩

/-- The slot at `bump_offset` of an active page is carved. -/
theorem Inv.carved_bump (h : Inv c s G) (hd : IsData s.segs r) (hact : (s.pages r).state = .active)
    (hlt : (s.pages r).bumpOffset < (s.pages r).bumpEnd) {bm : Nat → Nat}
    (hp : s'.pages = upd s.pages r { bumpSlot (s.pages r) with debugBitmap := bm }) :
    pageStart (s.pages r) + (s.pages r).bumpOffset = r.start + carved s r ∧
      carved s' r = carved s r + (s.pages r).slotSize := by
  obtain ⟨hinv, -⟩ := h.active hd hact
  have hle := hinv.geom.slot_le
  have hend := hinv.geom.end_eq
  have hcap := hinv.geom.cap_mul_le
  have hwrap : ((s.pages r).bumpOffset + (s.pages r).slotSize) % 2 ^ 32 =
      (s.pages r).bumpOffset + (s.pages r).slotSize := Nat.mod_eq_of_lt (by omega)
  unfold carved
  rw [hp, upd_same, hinv.geom.pageStart_eq]
  simp only [bumpSlot, hact, if_true, hwrap]
  exact ⟨trivial, trivial⟩

theorem Inv.carves_bump (h : Inv c s G) (hd : IsData s.segs r) (hact : (s.pages r).state = .active)
    (hlt : (s.pages r).bumpOffset < (s.pages r).bumpEnd) {bm : Nat → Nat}
    (hp : s'.pages = upd s.pages r { bumpSlot (s.pages r) with debugBitmap := bm })
    (hs : s'.segs = s.segs) :
    Carves s (pageStart (s.pages r) + (s.pages r).bumpOffset) (s.pages r).slotSize s' := by
  intro q hdq
  rw [hs]
  refine ⟨hdq, ?_⟩
  by_cases hq : q = r
  · subst hq
    exact Or.inr (h.carved_bump hd hact hlt hp)
  · unfold carved
    rw [hp, upd_ne hq]
    exact Or.inl ⟨rfl, Iff.rfl⟩

/-- A slot that was on a free list is carved already. -/
theorem sameCarved_take {p : PageMeta} {bm : Nat → Nat} (hs : s'.segs = s.segs)
    (hp : s'.pages = upd s.pages r { p with debugBitmap := bm })
    (hstate : p.state = (s.pages r).state) (hbump : p.bumpOffset = (s.pages r).bumpOffset) :
    SameCarved s s' := by
  refine .of_page (r := r) hs ?_ ?_ ?_
  · intro q hq
    rw [hp, upd_ne hq]
  · rw [hp, upd_same]
    exact hstate
  · rw [hp, upd_same]
    exact hbump

/-- The fast path carves what it bumps. -/
theorem cachedAlloc_carves (h : Inv c s G) {x : Tld} {bin : Nat} {o : Option (Nat × Bool)}
    (hd : IsData s.segs r) (hact : (s.pages r).state = .active)
    (he : cachedAlloc c s t x bin r = .ok (o, s')) :
    (o = none → SameCarved s s') ∧
      ∀ slot zeroed, o = some (slot, zeroed) → Carves s slot (s.pages r).slotSize s' := by
  unfold cachedAlloc at he
  simp only at he
  split at he
  next =>
    obtain ⟨s₂, ht, he⟩ := bind_eq_ok he
    cases he
    obtain ⟨bm, hp, hs⟩ := takeSlot_pages ht
    refine ⟨fun ho => absurd ho (by simp), fun slot zeroed _ => ?_⟩
    exact (sameCarved_take hs hp rfl rfl).carves _ _
  next =>
    split at he
    next hlt =>
      obtain ⟨s₂, ht, he⟩ := bind_eq_ok he
      cases he
      obtain ⟨bm, hp, hs⟩ := takeSlot_pages ht
      refine ⟨fun ho => absurd ho (by simp), fun slot zeroed ho => ?_⟩
      obtain ⟨rfl, -⟩ := Prod.mk.inj (Option.some.inj ho)
      exact h.carves_bump hd hact hlt hp hs
    next =>
      obtain ⟨⟨m, p⟩, hcol, he⟩ := bind_eq_ok he
      obtain ⟨m', p', hcol', -, hshape, -, hbump, -⟩ := h.collect hd hact
      obtain ⟨rfl, rfl⟩ := Prod.mk.inj (Except.ok.inj (hcol'.symm.trans hcol))
      have hsame : SameCarved s { s.setPage r p' with mem := m' } := by
        refine .of_page (r := r) rfl (fun q hq => upd_ne hq) ?_ ?_
        · show (upd s.pages r p' r).state = _
          rw [upd_same, hshape.state]
        · show (upd s.pages r p' r).bumpOffset = _
          rw [upd_same, hbump]
      simp only at he
      split at he
      next =>
        obtain ⟨s₂, ht, he⟩ := bind_eq_ok he
        cases he
        obtain ⟨bm, hp, hs⟩ := takeSlot_pages ht
        refine ⟨fun ho => absurd ho (by simp), fun slot zeroed _ => ?_⟩
        refine (hsame.trans (sameCarved_take hs hp ?_ ?_)).carves _ _
        · show p'.state = (upd s.pages r p' r).state
          rw [upd_same]
        · show p'.bumpOffset = (upd s.pages r p' r).bumpOffset
          rw [upd_same]
      next =>
        cases he
        exact ⟨fun _ => hsame.trans (.of_meta ⟨rfl, rfl, rfl, rfl⟩),
          fun _ _ ho => absurd ho (by simp)⟩

theorem arenaBump_pages {a slot : Nat} (he : arenaBump c s a r = .ok (slot, s')) :
    slot = pageStart (s.pages r) + (s.pages r).bumpOffset ∧
      ∃ bm, s'.pages = upd s.pages r { bumpSlot (s.pages r) with debugBitmap := bm } ∧
        s'.segs = s.segs := by
  unfold arenaBump at he
  simp only at he
  obtain ⟨p', hm, he⟩ := bind_eq_ok he
  obtain ⟨bm, rfl⟩ := markAllocated_eq hm
  cases he
  exact ⟨rfl, bm, rfl, rfl⟩

/-- A page was set up and nothing was carved out of it yet. -/
theorem NewPage.sameCarved {a bin : Nat} (hn : NewPage c s G a bin r s') {q : PageRef}
    (hd : IsData s.segs q) : IsData s'.segs q ∧ carved s' q = carved s q ∧
      (q ≠ r → ((s'.pages q).state = .active ↔ (s.pages q).state = .active)) := by
  unfold carved
  by_cases hq : q = r
  · subst hq
    refine ⟨hn.data, ?_, fun hne => absurd rfl hne⟩
    rw [if_pos hn.active, hn.virgin, if_neg fun hact => hn.fresh ⟨hd, hact⟩]
  · obtain ⟨hd', nx, pr, he⟩ := hn.kept q hq hd
    rw [he]
    exact ⟨hd', rfl, fun _ => Iff.rfl⟩

/-- `arena_alloc` carves the slot it returns, and sets up the next page of the arena if any. -/
theorem arenaAlloc_carves (h : Inv c s G) {a bin slot : Nat} {zeroed : Bool}
    (hbin : bin < binCount) (hsize : binToSize sizeTables bin ≤ 32768)
    (he : arenaAlloc c s a bin = .ok ((slot, zeroed), s')) :
    (slot = 0 → SameCarved s s') ∧ Carves s slot (slotSizeOf bin) s' ∧
      ∀ q, IsData s.segs q → (s.pages q).state ≠ .active → (s'.pages q).state = .active →
        nextPage s a = some q := by
  rcases arenaAlloc_ways h he with ⟨r, ⟨hd, hact, ha, hbi⟩, htest, hb⟩ | ⟨rfl, hn⟩ | ⟨r, s₁, hn, hb⟩
  · simp only [scanTest, Bool.and_eq_true, beq_iff_eq, decide_eq_true_eq] at htest
    obtain ⟨rfl, bm, hp, hs⟩ := arenaBump_pages hb
    obtain ⟨hinv, -⟩ := h.active hd hact
    have hcarves := h.carves_bump hd hact htest.2 hp hs
    rw [hinv.geom.slot_eq, hbi] at hcarves
    refine ⟨fun h0 => ?_, hcarves, fun q _ hne hact' => ?_⟩
    · rw [hinv.geom.pageStart_eq] at h0
      exact absurd h0 (by have := hinv.geom.start_pos; omega)
    · have hq : q ≠ r := fun hq => hne (hq ▸ hact)
      rw [hp, upd_ne hq] at hact'
      exact absurd hact' hne
  · have hsame := SameCarved.of_meta
      (ensures_elim (arenaNewPage_spec h (a := a) hbin hsize) hn).1.same
    exact ⟨fun _ => hsame, hsame.carves _ _, fun q hd hne hact =>
      absurd ((hsame q hd).2.2.mp hact) hne⟩
  · obtain ⟨-, hnew, hnext⟩ := ensures_elim (arenaNewPage_spec h (a := a) hbin hsize) hn
    obtain ⟨rfl, bm, hp, hs⟩ := arenaBump_pages hb
    have hinv₁ := hnew.quiet.inv
    obtain ⟨hinv, -⟩ := hinv₁.active hnew.data hnew.active
    have hcut := hinv₁.carved_bump hnew.data hnew.active hnew.bump hp
    have hcarves := hinv₁.carves_bump hnew.data hnew.active hnew.bump hp hs
    rw [hinv.geom.slot_eq, hnew.binIdx] at hcut hcarves
    refine ⟨fun h0 => ?_, fun q hd => ?_, fun q hd hne hact => ?_⟩
    · rw [hinv.geom.pageStart_eq] at h0
      exact absurd h0 (by have := hinv.geom.start_pos; omega)
    · obtain ⟨hd₁, hc₁, ha₁⟩ := hnew.sameCarved hd
      obtain ⟨hd₂, hcase⟩ := hcarves q hd₁
      refine ⟨hd₂, ?_⟩
      by_cases hq : q = r
      · subst hq
        rw [hc₁] at hcut
        exact Or.inr hcut
      · rw [hc₁, ha₁ hq] at hcase
        exact hcase
    · by_cases hq : q = r
      · exact hq ▸ hnext (hq ▸ hd)
      · rw [hp, upd_ne hq] at hact
        exact absurd (((hnew.sameCarved hd).2.2 hq).mp hact) hne

end CustomMalloc

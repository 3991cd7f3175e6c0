import CustomMalloc.Inv.Slab

/-!
# The paths through a slab call

For each function of the slab allocator, the ways in which it can return: which
functions it called, in which states, and what they returned. What a call does to any
part of the state is then put together from what those functions do to it, without
looking at their code again.
-/

namespace CustomMalloc

open Lib.Words Lib.Bytes Lib.Chain Lib.Intervals Lib.Post

variable {c : Cfg} {s s' : State} {t : Nat}

/-- The thread has data already, or gets fresh ones, or the kernel refuses the memory. -/
theorem tldGet_cases {o : Option Tld} (he : tldGet c s t = (o, s')) :
    (∃ x, s.tls t = some x ∧ o = some x ∧ s' = s) ∨
    (s.tls t = none ∧ o = none ∧ OsExt s s') ∨
    ∃ s₁ addr, s.tls t = none ∧ OsExt s s₁ ∧
      o = some { addr := addr, threadId := s.threadIdCounter } ∧
      s' = { s₁ with
        tls := upd s₁.tls t (some { addr := addr, threadId := s.threadIdCounter })
        threadIdCounter := (s.threadIdCounter + 1) % 2 ^ 32 } := by
  unfold tldGet at he
  split at he
  next x hx =>
    cases he
    exact Or.inl ⟨x, hx, rfl, rfl⟩
  next hn =>
    rcases hm : osMmapAligned c s c.osPage c.osPage with ⟨addr, s₁⟩
    rw [hm] at he
    obtain ⟨hos, -⟩ := osMmapAligned_spec (k := c.pageShift) (by have := c.pageShift_lt; omega)
      (fun hlt => absurd hlt (Nat.lt_irrefl _)) hm
    simp only at he
    split at he
    next =>
      cases he
      exact Or.inr (Or.inl ⟨hn, rfl, hos⟩)
    next =>
      cases he
      rw [← hos.sameThreads.counter]
      exact Or.inr (Or.inr ⟨s₁, addr, hn, hos, rfl, rfl⟩)

/-- What a large mapping leaves alone, whatever its size. -/
theorem osMmapAligned_form (c : Cfg) (s : State) (n al : Nat) :
    ∃ ans mp m b, (osMmapAligned c s n al).2 =
      { s with answers := ans, mapped := mp, mem := m, mmapBytes := b } := by
  have hmap : ∀ k, ∃ ans mp m,
      (mmap c s k).2 = { s with answers := ans, mapped := mp, mem := m } := by
    intro k
    rcases mmap_cases c s k with ⟨rest, he⟩ | ⟨a, rest, he, -⟩
    · rw [he]
      exact ⟨_, s.mapped, s.mem, rfl⟩
    · rw [he]
      exact ⟨_, _, _, rfl⟩
  unfold osMmapAligned
  split
  next =>
    obtain ⟨ans, mp, m, h⟩ := hmap n
    rcases he : mmap c s n with ⟨o, s₁⟩
    rw [he] at h
    cases o with
    | none => exact ⟨ans, mp, m, s.mmapBytes, h⟩
    | some p =>
      obtain rfl : s₁ = _ := h
      exact ⟨ans, mp, m, _, rfl⟩
  next =>
    simp only
    obtain ⟨ans, mp, m, h⟩ := hmap ((n + al - 1) % 2 ^ 64)
    rcases he : mmap c s ((n + al - 1) % 2 ^ 64) with ⟨o, s₁⟩
    rw [he] at h
    obtain rfl : s₁ = _ := h
    cases o with
    | none => exact ⟨ans, mp, m, s.mmapBytes, rfl⟩
    | some a =>
      simp only [munmap_guard]
      exact ⟨_, _, _, _, rfl⟩

/-- Nothing but the large list and the mapped memory changes. -/
theorem largeAlloc_form {n p : Nat} (he : largeAlloc c s n = .ok (p, s')) :
    ∃ ans mp m b f l k j, s' =
      { s with
        answers := ans, mapped := mp, mem := m, mmapBytes := b, larges := f, largeList := l,
        largeAllocated := k, largeAllocCount := j } := by
  unfold largeAlloc largeAllocAligned at he
  simp only at he
  obtain ⟨ans, mp, m, b, h⟩ := osMmapAligned_form c s
    (largeTotal c n (if minAlign < minAlign then minAlign else minAlign))
    (if (if minAlign < minAlign then minAlign else minAlign) < c.osPage then c.osPage
      else if minAlign < minAlign then minAlign else minAlign)
  rcases hm : osMmapAligned c s _ _ with ⟨base, s₁⟩
  rw [hm] at h he
  obtain rfl : s₁ = _ := h
  simp only at he
  split at he
  next =>
    obtain ⟨-, rfl⟩ := Prod.mk.inj (Except.ok.inj he)
    exact ⟨_, _, _, _, _, _, _, _, rfl⟩
  split at he
  case isFalse => cases he
  next =>
    obtain ⟨-, rfl⟩ := Prod.mk.inj (Except.ok.inj he)
    unfold linkLarge
    simp only
    split <;> exact ⟨_, _, _, _, _, _, _, _, rfl⟩

/-- The arena that `arena_next` names, with one more thread. -/
def attachNext (s : State) (a : Nat) : State :=
  State.setArena { s with arenaNext := wrapInt (s.arenaNext + 1) } a
    { s.arenas a with threadCount := wrapInt ((s.arenas a).threadCount + 1) }

/-- The thread has an arena, or gets the next one, or has no data to write it down in. -/
theorem arenaGet_cases {a : Nat} (he : arenaGet c s t = .ok (a, s')) :
    ∃ o s₁, tldGet c s t = (o, s₁) ∧
      ((∃ x, o = some x ∧ x.arena = some a ∧ s' = s₁) ∨
       (a < numArenas ∧ ∃ x, o = some x ∧ x.arena = none ∧
          s' = (attachNext s₁ a).setTld t { x with arena := some a }) ∨
       (a < numArenas ∧ o = none ∧ s' = attachNext s₁ a)) := by
  unfold arenaGet at he
  rcases hg : tldGet c s t with ⟨o, s₁⟩
  refine ⟨o, s₁, rfl, ?_⟩
  rw [hg] at he
  simp only at he
  split at he
  next b hb =>
    obtain ⟨x, rfl, hx⟩ := Option.bind_eq_some_iff.mp hb
    cases he
    exact Or.inl ⟨x, rfl, hx, rfl⟩
  next hn =>
    split at he
    next => cases he
    next hidx =>
      have hlt : (s₁.arenaNext.tmod numArenas).toNat < numArenas := by
        have := Int.tmod_lt_of_pos s₁.arenaNext (show (0 : Int) < numArenas by decide)
        omega
      cases o with
      | some x =>
        cases he
        exact Or.inr (Or.inl ⟨hlt, x, rfl, hn, rfl⟩)
      | none =>
        cases he
        exact Or.inr (Or.inr ⟨hlt, rfl, rfl⟩)

/-- The thread's counters start again. -/
def Tld.cleared (x : Tld) : Tld :=
  { x with
    statAllocated := 0, statFreed := 0, statAllocCount := 0, statFreeCount := 0, statOps := 0 }

/-- The thread's counters, flushed into arena `a`. -/
def flushed (s : State) (t : Nat) (x : Tld) (a : Nat) : State :=
  (s.setArena a { s.arenas a with
    allocated := ((s.arenas a).allocated + x.statAllocated) % 2 ^ 64
    freed := ((s.arenas a).freed + x.statFreed) % 2 ^ 64
    allocCount := ((s.arenas a).allocCount + x.statAllocCount) % 2 ^ 64
    freeCount := ((s.arenas a).freeCount + x.statFreeCount) % 2 ^ 64 }).setTld t x.cleared

theorem tldStatStore_cases {x : Tld} (he : tldStatStore s t x = .ok s') :
    (x.statOps < statFlushInterval ∧ s' = s.setTld t x) ∨
    ∃ a, x.arena = some a ∧ s' = flushed s t x a := by
  unfold tldStatStore at he
  split at he
  next =>
    unfold tldStatFlush at he
    split at he
    next => cases he
    next a ha => exact Or.inr ⟨a, ha, (Except.ok.inj he).symm⟩
  next hlt => exact Or.inl ⟨Nat.not_le.mp hlt, (Except.ok.inj he).symm⟩

/-- A slot is booked in a state that has the arenas and the threads of `s`. -/
theorem takeSlot_cases {x : Tld} {r : PageRef} {p : PageMeta} {slot n : Nat}
    (he : takeSlot c s t x r p slot = .ok s') (hn : p.slotSize = n) :
    ∃ s₁, s₁.arenas = s.arenas ∧ s₁.tls = s.tls ∧ tldStatAlloc s₁ t x n = .ok s' := by
  unfold takeSlot at he
  obtain ⟨p', hm, he⟩ := bind_eq_ok he
  obtain ⟨bm, rfl⟩ := markAllocated_eq hm
  subst hn
  exact ⟨s.setPage r _, rfl, rfl, he⟩

/-- The fast path books its slot with the thread, or takes the full page out of the
thread's cache. -/
theorem cachedAlloc_cases {x : Tld} {bin : Nat} {r : PageRef} {o : Option (Nat × Bool)}
    (he : cachedAlloc c s t x bin r = .ok (o, s')) :
    (o = none ∧ s'.arenas = s.arenas ∧
      s'.tls = upd s.tls t (some { x with binPage := upd x.binPage bin none })) ∨
    (o.isSome ∧ ∃ s₁, s₁.arenas = s.arenas ∧ s₁.tls = s.tls ∧
      tldStatAlloc s₁ t x (s.pages r).slotSize = .ok s') := by
  unfold cachedAlloc at he
  simp only at he
  split at he
  next =>
    obtain ⟨s₂, ht, he⟩ := bind_eq_ok he
    cases he
    exact Or.inr ⟨rfl, takeSlot_cases ht rfl⟩
  next =>
    split at he
    next =>
      obtain ⟨s₂, ht, he⟩ := bind_eq_ok he
      cases he
      exact Or.inr ⟨rfl, takeSlot_cases ht rfl⟩
    next =>
      obtain ⟨⟨m, p⟩, hcol, he⟩ := bind_eq_ok he
      have hsz : p.slotSize = (s.pages r).slotSize := by
        unfold pageCollectRemote at hcol
        simp only at hcol
        split at hcol
        next => rw [← (Prod.mk.inj (Except.ok.inj hcol)).2]
        next =>
          split at hcol
          next => cases hcol
          next => rw [← (Prod.mk.inj (Except.ok.inj hcol)).2]
      simp only at he
      split at he
      next =>
        obtain ⟨s₂, ht, he⟩ := bind_eq_ok he
        cases he
        obtain ⟨s₁, ha, htls, hb⟩ := takeSlot_cases (n := (s.pages r).slotSize) ht hsz
        exact Or.inr ⟨rfl, s₁, ha, htls, hb⟩
      next =>
        cases he
        exact Or.inl ⟨rfl, rfl, rfl⟩

/-- The slow path: an arena, a slot of it, and the claim if there is something to claim
and somebody to claim it. -/
theorem slowAlloc_cases {bin slot : Nat} {hasTld zeroed : Bool}
    (he : slowAlloc c s t bin hasTld = .ok ((slot, zeroed), s')) :
    ∃ a s₁ s₂, arenaGet c s t = .ok (a, s₁) ∧ arenaAlloc c s₁ a bin = .ok ((slot, zeroed), s₂) ∧
      ((hasTld = true ∧ slot ≠ 0 ∧ ∃ x, s₂.tls t = some x ∧ s' = claimPage s₂ t bin slot x) ∨
       s' = s₂) := by
  unfold slowAlloc at he
  obtain ⟨⟨a, s₁⟩, hget, he⟩ := bind_eq_ok he
  obtain ⟨⟨⟨slot', zeroed'⟩, s₂⟩, halloc, he⟩ := bind_eq_ok he
  simp only at he
  split at he
  next x hcond hx =>
    obtain ⟨hp, rfl⟩ := Prod.mk.inj (Except.ok.inj he)
    cases hp
    simp only [Bool.and_eq_true, bne_iff_ne, ne_eq] at hcond
    exact ⟨a, s₁, s₂, hget, halloc, Or.inl ⟨hcond.1, hcond.2, x, hx, rfl⟩⟩
  next =>
    obtain ⟨hp, rfl⟩ := Prod.mk.inj (Except.ok.inj he)
    cases hp
    exact ⟨a, s₁, _, hget, halloc, Or.inr rfl⟩

/-- The arena `y` has booked what `x` has. -/
structure SameCounts (x y : Arena) : Prop where
  allocated : y.allocated = x.allocated
  freed : y.freed = x.freed
  allocCount : y.allocCount = x.allocCount
  freeCount : y.freeCount = x.freeCount

theorem SameCounts.refl (x : Arena) : SameCounts x x := ⟨rfl, rfl, rfl, rfl⟩

theorem SameCounts.trans {x y z : Arena} (h : SameCounts x y) (h' : SameCounts y z) :
    SameCounts x z :=
  ⟨h'.allocated.trans h.allocated, h'.freed.trans h.freed, h'.allocCount.trans h.allocCount,
    h'.freeCount.trans h.freeCount⟩

/-- One arena was changed in something else. -/
theorem SameCounts.upd {f : Nat → Arena} {a : Nat} {x : Arena} (h : SameCounts (f a) x) (b : Nat) :
    SameCounts (f b) (CustomMalloc.upd f a x b) := by
  by_cases hb : b = a
  · rw [hb, upd_same]
    exact h
  · rw [upd_ne hb]
    exact .refl _

/-- Where `arena_alloc` takes its slot: a page of the bin that passes the scan, or a page
that was not in use; it is bumped in a state whose arenas have booked nothing new. -/
structure ArenaTook (c : Cfg) (s : State) (G : Ghost) (a bin : Nat) (r : PageRef) (slot : Nat)
    (s' : State) : Prop where
  bumped : Bumped c s G a bin r slot s'
  scanned : IsData s.segs r → (s.pages r).state = .active →
    InBin s.segs s.pages a bin r ∧ scanTest s r = true
  booked : ∃ f, (∀ b, SameCounts (s.arenas b) (f b)) ∧ s'.arenas = upd f a { f a with
      allocated := ((f a).allocated + slotSizeOf bin) % 2 ^ 64
      allocCount := ((f a).allocCount + 1) % 2 ^ 64 }

theorem arenaBump_arenas {a slot : Nat} {r : PageRef} (he : arenaBump c s a r = .ok (slot, s')) :
    s'.arenas = upd s.arenas a { s.arenas a with
      allocated := ((s.arenas a).allocated + (s.pages r).slotSize) % 2 ^ 64
      allocCount := ((s.arenas a).allocCount + 1) % 2 ^ 64 } := by
  unfold arenaBump at he
  simp only at he
  obtain ⟨p', hm, he⟩ := bind_eq_ok he
  obtain ⟨bm, rfl⟩ := markAllocated_eq hm
  obtain ⟨-, rfl⟩ := Prod.mk.inj (Except.ok.inj he)
  rfl

/-- Setting up a page books nothing. -/
theorem arenaNewPage_counts {a bin : Nat} {page : Option PageRef}
    (he : arenaNewPage c s a bin = .ok (page, s')) (b : Nat) :
    SameCounts (s.arenas b) (s'.arenas b) := by
  have hpage : ∀ (s : State) (seg : Nat), (segmentAllocPage s seg bin).2.arenas = s.arenas := by
    intro s seg
    unfold segmentAllocPage
    split <;> rfl
  unfold arenaNewPage at he
  split at he
  next => cases he
  next seg _ =>
    have heq := hpage s seg
    rw [Except.ok.inj he] at heq
    rw [heq]
    exact ⟨rfl, rfl, rfl, rfl⟩
  next =>
    rcases hc : segmentCreate c s a with ⟨seg, s₁⟩
    have harenas : s₁.arenas = s.arenas := by
      rcases segmentCreate_spec hc with ⟨-, hos⟩ | ⟨-, s₂, hos, -, -, rfl⟩
      · obtain ⟨_, _, _, _, rfl, -⟩ := hos
        rfl
      · obtain ⟨_, _, _, _, rfl, -⟩ := hos
        rfl
    rw [hc] at he
    simp only at he
    split at he
    next =>
      obtain ⟨-, rfl⟩ := Prod.mk.inj (Except.ok.inj he)
      rw [harenas]
      exact ⟨rfl, rfl, rfl, rfl⟩
    next =>
      have heq := hpage (linkSegment s₁ a seg) seg
      rw [Except.ok.inj he] at heq
      replace heq : s'.arenas = (linkSegment s₁ a seg).arenas := heq
      rw [heq, ← harenas]
      unfold linkSegment
      simp only
      split <;> exact SameCounts.upd (by exact ⟨rfl, rfl, rfl, rfl⟩) b

theorem binInsertPage_counts (s : State) (a b : Nat) (r : PageRef) :
    SameCounts (s.arenas b) ((binInsertPage s a r).arenas b) := by
  unfold binInsertPage
  simp only
  split <;> exact SameCounts.upd (by exact ⟨rfl, rfl, rfl, rfl⟩) b

theorem arenaAlloc_cases {G : Ghost} (h : Inv c s G) {a bin slot : Nat} {zeroed : Bool}
    (hbin : bin < binCount) (hsize : binToSize sizeTables bin ≤ 32768)
    (he : arenaAlloc c s a bin = .ok ((slot, zeroed), s')) :
    (slot = 0 ∧ OsExt s s') ∨ (slot ≠ 0 ∧ ∃ r, ArenaTook c s G a bin r slot s') := by
  rcases arenaAlloc_ways h he with ⟨r, ⟨hd, hact, ha, hbi⟩, htest, hb⟩ | ⟨rfl, hn⟩ | ⟨r, s₁, hn, hb⟩
  · have htest' := htest
    simp only [scanTest, Bool.and_eq_true, beq_iff_eq, decide_eq_true_eq] at htest'
    have hbump := ensures_elim
      (Q := fun x => Bumped c s G (s.pages r).arena (s.pages r).binIdx r x.1 x.2 ∧
      x.2.segs = s.segs ∧ x.2.segmentRegistry = s.segmentRegistry)
      (arenaBump_spec h (a := a) hd hact htest'.1 htest'.2) hb
    obtain ⟨hbump, -⟩ := hbump
    have hsz : (s.pages r).slotSize = slotSizeOf bin := by
      rw [(h.active hd hact).1.geom.slot_eq, hbi]
    rw [ha, hbi] at hbump
    refine Or.inr ⟨?_, r, hbump, fun _ _ => ⟨⟨hd, hact, ha, hbi⟩, htest⟩, s.arenas,
      fun _ => .refl _, ?_⟩
    · exact Nat.ne_of_gt (hbump.alloc.inv.blk_align hbump.alloc.new).2
    · rw [← hsz]
      exact arenaBump_arenas hb
  · exact Or.inl ⟨rfl, (ensures_elim (arenaNewPage_spec h (a := a) hbin hsize) hn).1⟩
  · obtain ⟨-, hnew, -⟩ := ensures_elim (arenaNewPage_spec h (a := a) hbin hsize) hn
    have hbump := ensures_elim (Q := fun x => Bumped c (binInsertPage s₁ a r) G
      ((binInsertPage s₁ a r).pages r).arena ((binInsertPage s₁ a r).pages r).binIdx r x.1 x.2 ∧
      x.2.segs = (binInsertPage s₁ a r).segs ∧
      x.2.segmentRegistry = (binInsertPage s₁ a r).segmentRegistry)
      (arenaBump_spec hnew.quiet.inv (a := a) hnew.data hnew.active hnew.owner hnew.bump) hb
    obtain ⟨hbump, -⟩ := hbump
    have hsz : ((binInsertPage s₁ a r).pages r).slotSize = slotSizeOf bin := by
      rw [(hnew.quiet.inv.active hnew.data hnew.active).1.geom.slot_eq, hnew.binIdx]
    rw [hnew.arena, hnew.binIdx] at hbump
    refine Or.inr ⟨?_, r, hbump.ofNew hnew, fun hd hact => absurd ⟨hd, hact⟩ hnew.fresh,
      (binInsertPage s₁ a r).arenas,
      fun b => (arenaNewPage_counts hn b).trans (binInsertPage_counts s₁ a b r), ?_⟩
    · exact Nat.ne_of_gt (hbump.alloc.inv.blk_align hbump.alloc.new).2
    · rw [← hsz]
      exact arenaBump_arenas hb

/-- How a slab request was served: from the cached page, or through the arena because
nothing was cached, or because the cached page was full. -/
inductive AllocPath (c : Cfg) (s : State) (t bin : Nat) (slot : Nat) (zeroed : Bool) (s' : State) :
    Prop
  | cached (x : Tld) (r : PageRef) (s₁ : State) (htld : tldGet c s t = (some x, s₁))
      (hr : x.binPage bin = some r) (hact : (s₁.pages r).state = .active)
      (he : cachedAlloc c s₁ t x bin r = .ok (some (slot, zeroed), s'))
  | full (x : Tld) (r : PageRef) (s₁ s₂ : State) (htld : tldGet c s t = (some x, s₁))
      (hr : x.binPage bin = some r) (hact : (s₁.pages r).state = .active)
      (hfull : cachedAlloc c s₁ t x bin r = .ok (none, s₂))
      (he : slowAlloc c s₂ t bin true = .ok ((slot, zeroed), s'))
  | missed (o : Option Tld) (s₁ : State) (htld : tldGet c s t = (o, s₁))
      (hmiss : ∀ x r, o = some x → x.binPage bin = some r → (s₁.pages r).state ≠ .active)
      (he : slowAlloc c s₁ t bin o.isSome = .ok ((slot, zeroed), s'))

theorem slabAllocInner_cases {size slot : Nat} {zeroed : Bool} (hpos : 0 < size)
    (hs : SlabSized size) (he : slabAllocInner c s t size = .ok ((slot, zeroed), s')) :
    AllocPath c s t (sizeToBin sizeTables size) slot zeroed s' := by
  obtain ⟨hle, hslot⟩ := hs
  unfold slabAllocInner at he
  simp only [if_neg (show ¬ size = 0 by omega), if_neg (Nat.not_lt.mpr hle),
    if_neg (show ¬ pageSizeAlloc / 2 < binToSize sizeTables (sizeToBin sizeTables size) from
      Nat.not_lt.mpr hslot)] at he
  rcases htld : tldGet c s t with ⟨o, s₁⟩
  rw [htld] at he
  cases o with
  | none => exact .missed none s₁ htld (fun x r h => absurd h (by simp)) he
  | some x =>
    simp only at he
    split at he
    next hn =>
      exact .missed (some x) s₁ htld (fun y r hy hr => by
        cases hy
        exact absurd (hn.symm.trans hr) (by simp)) he
    next r hr =>
      split at he
      next hact =>
        obtain ⟨⟨found, s₂⟩, hc, he⟩ := bind_eq_ok he
        cases found with
        | none => exact .full x r s₁ s₂ htld hr hact hc he
        | some found =>
          cases he
          exact .cached x r s₁ htld hr hact hc
      next hact =>
        exact .missed (some x) s₁ htld (fun y q hy hq => by
          cases hy
          cases hr.symm.trans hq
          exact hact) he

/-- No allocation touches the set of active pages, but for the one it may add. -/
theorem slabAllocInner_kept {G : Ghost} (h : Inv c s G) {size slot : Nat} {zeroed : Bool}
    (he : slabAllocInner c s t size = .ok ((slot, zeroed), s')) : ActiveKept s s' := by
  have hpos := atLeastOne_pos size
  rw [slabAllocInner_atLeastOne] at he
  by_cases hs : SlabSized (atLeastOne size)
  · obtain ⟨hbin, -⟩ := sizeToBin_fits hpos hs.1
    have hslow : ∀ {s₁ : State} {b : Bool}, Inv c s₁ G →
        slowAlloc c s₁ t (sizeToBin sizeTables (atLeastOne size)) b = .ok ((slot, zeroed), s') →
        ActiveKept s₁ s' := by
      intro s₁ b h₁ he
      have hp := ensures_elim (slowAlloc_spec h₁ b hbin hs.2) he
      by_cases h0 : slot = 0
      · exact (hp.null h0).2.2.1.activeKept
      · obtain ⟨a, r, hg⟩ := hp.got h0
        exact hg.kept
    have hcached : ∀ {s₁ s₂ : State} {x : Tld} {r : PageRef} {o : Option (Nat × Bool)},
        TldPost c s G t (some x) s₁ →
        x.binPage (sizeToBin sizeTables (atLeastOne size)) = some r →
        cachedAlloc c s₁ t x (sizeToBin sizeTables (atLeastOne size)) r = .ok (o, s₂) →
        CachedPost c s₁ G t x (sizeToBin sizeTables (atLeastOne size)) r o s₂ := by
      intro s₁ s₂ x r o hp hr he
      have hx := cachedAlloc_spec hp.inv hp.got hr
      exact (ensures_elim hx he :)
    cases slabAllocInner_cases hpos hs he with
    | cached x r s₁ htld hr _ he =>
      have hp := tldGet_spec h htld
      exact hp.ext.same.activeKept.trans (hcached hp hr he).on.activeKept
    | full x r s₁ s₂ htld hr _ hfull he =>
      have hp := tldGet_spec h htld
      have hc := hcached hp hr hfull
      exact (hp.ext.same.activeKept.trans hc.on.activeKept).trans (hslow (hc.full rfl).1.inv he)
    | missed o s₁ htld _ he =>
      have hp := tldGet_spec h htld
      exact hp.ext.same.activeKept.trans (hslow hp.inv he)
  · rw [slabAllocInner_large hpos hs] at he
    obtain ⟨x, hl, he⟩ := bind_eq_ok he
    obtain ⟨-, rfl⟩ := Prod.mk.inj (Except.ok.inj he)
    obtain ⟨_, _, _, _, _, _, _, _, hform⟩ := largeAlloc_form hl
    rw [hform]
    exact fun q hd hact => ⟨hd, hact, rfl, rfl⟩

/-- `slab_alloc` is `slab_alloc_inner` without the flag. -/
theorem slabAlloc_inner {size p : Nat} (he : slabAlloc c s t size = .ok (p, s')) :
    ∃ zeroed, slabAllocInner c s t size = .ok ((p, zeroed), s') := by
  unfold slabAlloc at he
  obtain ⟨⟨⟨p', zeroed⟩, s₁⟩, hi, he⟩ := bind_eq_ok he
  cases he
  exact ⟨zeroed, hi⟩

theorem markFreed_fields {p p' : PageMeta} {slot : Nat} (he : markFreed c p slot = .ok p') :
    p'.slotSize = p.slotSize ∧ p'.arena = p.arena ∧ p'.ownerTid = p.ownerTid := by
  obtain ⟨bm, rfl⟩ := markFreed_eq he
  exact ⟨rfl, rfl, rfl⟩

/-- A local free is booked in a state that has the arenas and the threads of `s`. -/
theorem freeLocal_cases {x : Tld} {r : PageRef} {p : PageMeta} {ptr : Nat}
    (he : freeLocal s t x r p ptr = .ok s') :
    ∃ s₁, s₁.arenas = s.arenas ∧ SameThreads s s₁ ∧ tldStatFree s₁ t x p.slotSize = .ok s' := by
  unfold freeLocal at he
  refine ⟨_, ?_, ?_, he⟩
  · rfl
  · exact ⟨rfl, rfl⟩

/-- How a free ended: ignored, on the local list, or on the remote stack. -/
inductive FreePath (c : Cfg) (s : State) (t p : Nat) (s' : State) : Prop
  | ignored (h : s' = s)
  | owned (r : PageRef) (p' : PageMeta) (x : Tld) (s₁ : State) (hr : ptrToPage s p = some r)
      (hm : markFreed c (s.pages r) p = .ok p')
      (htld : tldGet c (s.setPage r p') t = (some x, s₁)) (hown : p'.ownerTid = x.threadId)
      (he : freeLocal s₁ t x r p' p = .ok s')
  | remote (r : PageRef) (p' : PageMeta) (o : Option Tld) (s₁ : State) (hr : ptrToPage s p = some r)
      (hm : markFreed c (s.pages r) p = .ok p') (htld : tldGet c (s.setPage r p') t = (o, s₁))
      (hnot : ∀ x, o = some x → p'.ownerTid ≠ x.threadId) (he : s' = freeRemote s₁ r p' p)

theorem slabFree_cases {p : Nat} (he : slabFree c s t p = .ok s') : FreePath c s t p s' := by
  unfold slabFree at he
  split at he
  next => exact .ignored (Except.ok.inj he).symm
  next =>
    simp only at he
    split at he
    next => exact .ignored (Except.ok.inj he).symm
    next =>
      split at he
      next => exact .ignored (Except.ok.inj he).symm
      next r hr =>
        split at he
        next => exact .ignored (Except.ok.inj he).symm
        next =>
          obtain ⟨p', hm, he⟩ := bind_eq_ok he
          rcases htld : tldGet c (s.setPage r p') t with ⟨o, s₁⟩
          simp only [htld] at he
          cases o with
          | none =>
            exact .remote r p' none s₁ hr hm htld (fun _ h => absurd h (by simp))
              (Except.ok.inj he).symm
          | some x =>
            simp only at he
            split at he
            next hown => exact .owned r p' x s₁ hr hm htld hown he
            next hown =>
              refine .remote r p' (some x) s₁ hr hm htld (fun y hy => ?_) (Except.ok.inj he).symm
              cases hy
              exact hown

end CustomMalloc

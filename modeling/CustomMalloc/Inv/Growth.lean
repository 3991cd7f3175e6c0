import CustomMalloc.Inv.Malloc

/-!
# What an allocation asks of the kernel

A thread that has its thread-local data and its arena asks for memory only when
no page of the bin can serve it and every segment of its arena is in use, and
then for one segment. So the only reason for `slab_alloc` to return null is that
the kernel refused that segment, and the mapping of that segment is all that a
call adds to the mapped memory (`Served`).
-/

namespace CustomMalloc

open Lib.Words Lib.Bytes Lib.Chain Lib.Intervals Lib.Post

variable {c : Cfg} {s s' : State} {G G' : Ghost}

/-! ## Steps that do not involve the kernel -/

/-- What a step of an attached thread may do to the mapped memory: nothing, or map
one segment. The thread stays attached. -/
structure Served (c : Cfg) (s : State) (t a : Nat) (s' : State) : Prop where
  mapped : s'.mapped = s.mapped ∨
    s'.mapped = (osMmapAligned c s segmentSize segmentSize).2.mapped
  arenaNext : s'.arenaNext = s.arenaNext
  attached : ∃ y, s'.tls t = some y ∧ y.arena = some a

/-- Nothing the kernel knows about changed. -/
structure SameOs (s s' : State) : Prop where
  answers : s'.answers = s.answers
  mapped : s'.mapped = s.mapped
  arenaNext : s'.arenaNext = s.arenaNext

theorem SameOs.refl (s : State) : SameOs s s := ⟨rfl, rfl, rfl⟩

/-- The kernel's answer depends on nothing else. -/
theorem mmap_sameOs (h : SameOs s s') (n : Nat) :
    (mmap c s' n).1 = (mmap c s n).1 ∧ (mmap c s' n).2.mapped = (mmap c s n).2.mapped := by
  have hcan : ∀ a, canMap c s' a n = canMap c s a n := fun a => by
    unfold canMap
    rw [h.mapped]
  unfold mmap
  rw [h.answers]
  split
  next => exact ⟨rfl, h.mapped⟩
  next => exact ⟨rfl, h.mapped⟩
  next a _ _ =>
    rw [hcan a]
    split
    next => exact ⟨rfl, by rw [h.mapped]⟩
    next => exact ⟨rfl, h.mapped⟩

theorem osMmapAligned_sameOs (h : SameOs s s') (n al : Nat) :
    (osMmapAligned c s' n al).1 = (osMmapAligned c s n al).1 ∧
      (osMmapAligned c s' n al).2.mapped = (osMmapAligned c s n al).2.mapped := by
  have hmm := fun k => mmap_sameOs (c := c) h k
  unfold osMmapAligned
  split
  next =>
    have hk := hmm n
    rcases h₁ : mmap c s n with ⟨o, s₁⟩
    rcases h₂ : mmap c s' n with ⟨o', s₁'⟩
    rw [h₁, h₂] at hk
    obtain ⟨rfl, hm⟩ : o' = o ∧ s₁'.mapped = s₁.mapped := hk
    cases o' with
    | none => exact ⟨rfl, hm⟩
    | some a => exact ⟨rfl, hm⟩
  next =>
    have hk := hmm ((n + al - 1) % 2 ^ 64)
    simp only
    rcases h₁ : mmap c s ((n + al - 1) % 2 ^ 64) with ⟨o, s₁⟩
    rcases h₂ : mmap c s' ((n + al - 1) % 2 ^ 64) with ⟨o', s₁'⟩
    rw [h₁, h₂] at hk
    obtain ⟨rfl, hm⟩ : o' = o ∧ s₁'.mapped = s₁.mapped := hk
    cases o' with
    | none => exact ⟨rfl, hm⟩
    | some a =>
      simp only [munmap_guard]
      exact ⟨trivial, by simp only [State.addMmapBytes, munmap, hm]⟩

theorem tldStatStore_sameOs (s : State) (t : Nat) (x : Tld) :
    Ensures (fun _ => True) (tldStatStore s t x) (SameOs s) := by
  unfold tldStatStore tldStatFlush
  split
  next =>
    split
    next => trivial
    next => exact ⟨rfl, rfl, rfl⟩
  next => exact ⟨rfl, rfl, rfl⟩

theorem takeSlot_sameOs (s : State) (t : Nat) (x : Tld) (r : PageRef) (p : PageMeta) (slot : Nat) :
    Ensures (fun _ => True) (takeSlot c s t x r p slot) (SameOs s) := by
  unfold takeSlot tldStatAlloc
  refine ensures_bind (P := fun _ => True) ?_ fun p' _ => ?_
  · rcases markAllocated c p slot with e | p' <;> trivial
  · exact ensures_mono (tldStatStore_sameOs _ t _) fun _ hs => ⟨hs.answers, hs.mapped, hs.arenaNext⟩

theorem cachedAlloc_sameOs (s : State) (t : Nat) (x : Tld) (bin : Nat) (r : PageRef) :
    Ensures (fun _ => True) (cachedAlloc c s t x bin r) fun (_, s') => SameOs s s' := by
  unfold cachedAlloc
  simp only
  split
  next => exact ensures_bind (takeSlot_sameOs s t x r _ _) fun _ hs => hs
  next =>
    split
    next => exact ensures_bind (takeSlot_sameOs s t x r _ _) fun _ hs => hs
    next =>
      refine ensures_bind (P := fun _ => True) ?_ ?_
      · rcases pageCollectRemote s.mem (s.pages r) with e | y <;> trivial
      rintro ⟨m, p⟩ -
      simp only
      split
      next =>
        refine ensures_bind (takeSlot_sameOs _ t x r _ _) fun s' hs => ?_
        exact ⟨hs.answers, hs.mapped, hs.arenaNext⟩
      next => exact ⟨rfl, rfl, rfl⟩

theorem arenaBump_sameOs (s : State) (a : Nat) (r : PageRef) :
    Ensures (fun _ => True) (arenaBump c s a r) fun (_, s') => SameOs s s' ∧ s'.tls = s.tls := by
  unfold arenaBump
  simp only
  refine ensures_bind (P := fun _ => True) ?_ fun p' _ => ⟨⟨rfl, rfl, rfl⟩, rfl⟩
  rcases markAllocated c _ _ with e | p' <;> trivial

theorem binInsertPage_sameOs (s : State) (a : Nat) (r : PageRef) :
    SameOs s (binInsertPage s a r) ∧ (binInsertPage s a r).tls = s.tls := by
  unfold binInsertPage
  simp only
  split <;> exact ⟨⟨rfl, rfl, rfl⟩, rfl⟩

theorem segmentAllocPage_sameOs (s : State) (seg bin : Nat) :
    SameOs s (segmentAllocPage s seg bin).2 ∧ (segmentAllocPage s seg bin).2.tls = s.tls := by
  unfold segmentAllocPage
  split
  next => exact ⟨⟨rfl, rfl, rfl⟩, rfl⟩
  next => exact ⟨.refl s, rfl⟩

theorem linkSegment_sameOs (s : State) (a seg : Nat) :
    SameOs s (linkSegment s a seg) ∧ (linkSegment s a seg).tls = s.tls := by
  unfold linkSegment
  simp only
  split <;> exact ⟨⟨rfl, rfl, rfl⟩, rfl⟩

/-! ## The slow path of an attached thread -/

/-- At most one segment was mapped, and no thread's data changed. -/
structure OneSegment (c : Cfg) (s s' : State) : Prop where
  mapped : s'.mapped = s.mapped ∨
    s'.mapped = (osMmapAligned c s segmentSize segmentSize).2.mapped
  arenaNext : s'.arenaNext = s.arenaNext
  tls : s'.tls = s.tls

theorem OneSegment.then {s₁ s₂ : State} (h : OneSegment c s s₁)
    (hs : SameOs s₁ s₂ ∧ s₂.tls = s₁.tls) : OneSegment c s s₂ := by
  obtain ⟨hos, htls⟩ := hs
  refine ⟨?_, hos.arenaNext.trans h.arenaNext, htls.trans h.tls⟩
  rw [hos.mapped]
  exact h.mapped

theorem segmentCreate_oneSegment (c : Cfg) (s : State) (a : Nat) :
    OneSegment c s (segmentCreate c s a).2 := by
  refine ⟨Or.inr (segmentCreate_os c s a).2, ?_, ?_⟩
  all_goals
    rcases he : segmentCreate c s a with ⟨seg, s₁⟩
    rcases segmentCreate_spec he with ⟨-, _, _, _, _, rfl, -⟩ |
      ⟨-, s₂, ⟨_, _, _, _, rfl, -⟩, -, -, rfl⟩
    · rfl
    · rfl

theorem arenaNewPage_oneSegment (s : State) (a bin : Nat) :
    Ensures (fun _ => True) (arenaNewPage c s a bin) fun (_, s') => OneSegment c s s' := by
  unfold arenaNewPage
  split
  next => trivial
  next seg _ =>
    exact OneSegment.then ⟨Or.inl rfl, rfl, rfl⟩ (segmentAllocPage_sameOs s seg bin)
  next =>
    have hone := segmentCreate_oneSegment c s a
    rcases he : segmentCreate c s a with ⟨seg, s₁⟩
    rw [he] at hone
    simp only
    split
    next => exact hone
    next => exact (hone.then (linkSegment_sameOs s₁ a seg)).then (segmentAllocPage_sameOs _ seg bin)

theorem arenaAlloc_oneSegment (s : State) (a bin : Nat) :
    Ensures (fun _ => True) (arenaAlloc c s a bin) fun (_, s') => OneSegment c s s' := by
  unfold arenaAlloc
  split
  next => trivial
  next r _ =>
    refine ensures_bind (arenaBump_sameOs s a r) ?_
    rintro ⟨slot, s'⟩ hs
    exact OneSegment.then ⟨Or.inl rfl, rfl, rfl⟩ hs
  next =>
    refine ensures_bind (arenaNewPage_oneSegment s a bin) ?_
    rintro ⟨page, s₁⟩ hone
    cases page with
    | none => exact hone
    | some r =>
      refine ensures_bind (arenaBump_sameOs (binInsertPage s₁ a r) a r) ?_
      rintro ⟨slot, s'⟩ hs
      exact (hone.then (binInsertPage_sameOs s₁ a r)).then hs

theorem arenaGet_attached {t a : Nat} {x : Tld} (hx : s.tls t = some x) (ha : x.arena = some a) :
    arenaGet c s t = .ok (a, s) := by
  have htld : tldGet c s t = (some x, s) := by
    unfold tldGet
    rw [hx]
  unfold arenaGet
  rw [htld]
  simp only [Option.bind_some, ha]

theorem claimPage_served (s : State) (t bin slot : Nat) {x : Tld} (hx : s.tls t = some x) :
    SameOs s (claimPage s t bin slot x) ∧
      ∃ y, (claimPage s t bin slot x).tls t = some y ∧ y.arena = x.arena := by
  unfold claimPage
  split
  next => exact ⟨.refl s, x, hx, rfl⟩
  next r _ =>
    split
    next => exact ⟨⟨rfl, rfl, rfl⟩, _, upd_same .., rfl⟩
    next =>
      split
      next => exact ⟨⟨rfl, rfl, rfl⟩, _, upd_same .., rfl⟩
      next => exact ⟨.refl s, x, hx, rfl⟩

theorem slowAlloc_served (h : Inv c s G) {t a bin : Nat} {x : Tld} (hx : s.tls t = some x)
    (ha : x.arena = some a) (hbin : bin < binCount) (hsize : binToSize sizeTables bin ≤ 32768) :
    Ensures (fun _ => False) (slowAlloc c s t bin true) fun ((p, _), s') =>
      Served c s t a s' ∧ (p = 0 → SegmentRefused c s) := by
  unfold slowAlloc
  rw [arenaGet_attached hx ha]
  simp only [bind, Except.bind]
  refine ensures_bind (ensures_and (arenaAlloc_spec (a := a) h hbin hsize)
    (arenaAlloc_oneSegment s a bin)) ?_
  rintro ⟨⟨slot, zeroed⟩, s₁⟩ ⟨hpost, hone⟩
  have hnull : slot = 0 → SegmentRefused c s := fun h0 => (hpost.null h0).2.2
  have hx₁ : s₁.tls t = some x := by
    rw [hone.tls]
    exact hx
  simp only [hx₁]
  split
  next y _ hy =>
    cases hy
    obtain ⟨hos, z, hz, harena⟩ := claimPage_served s₁ t bin slot hx₁
    refine ⟨⟨?_, hos.arenaNext.trans hone.arenaNext, z, hz, harena.trans ha⟩, hnull⟩
    rw [hos.mapped]
    exact hone.mapped
  next => exact ⟨⟨hone.mapped, hone.arenaNext, x, hx₁, ha⟩, hnull⟩

/-! ## Allocation -/

/-- For an attached thread `slab_alloc` returns, and null only when the kernel
refused a segment. -/
theorem slabAllocInner_served (h : Inv c s G) {t a size : Nat} {x : Tld} (hx : s.tls t = some x)
    (ha : x.arena = some a) (hpos : 0 < size) (hs : SlabSized size) :
    Ensures (fun _ => False) (slabAllocInner c s t size) fun ((p, _), s') =>
      Served c s t a s' ∧ (p = 0 → SegmentRefused c s) := by
  obtain ⟨hle, hslot⟩ := hs
  obtain ⟨hbin, -⟩ := sizeToBin_fits hpos hle
  have htld : tldGet c s t = (some x, s) := by
    unfold tldGet
    rw [hx]
  unfold slabAllocInner
  simp only [if_neg (show ¬ size = 0 by omega), if_neg (Nat.not_lt.mpr hle),
    if_neg (show ¬ pageSizeAlloc / 2 < binToSize sizeTables (sizeToBin sizeTables size) from
      Nat.not_lt.mpr hslot), htld]
  split
  next => exact slowAlloc_served h hx ha hbin hslot
  next r hr =>
    rw [if_pos (h.tlds t x hx _ r hr).2.1]
    refine ensures_bind (ensures_and (cachedAlloc_spec h hx hr) (cachedAlloc_sameOs s t x _ r)) ?_
    rintro ⟨found, s₁⟩ ⟨hc, hos⟩
    cases found with
    | some found =>
      obtain ⟨slot, zeroed⟩ := found
      obtain ⟨halloc, -, y, hy, -, -, harena⟩ := hc.got slot zeroed rfl
      refine ⟨⟨Or.inl hos.mapped, hos.arenaNext, y, hy, harena.trans ha⟩, fun h0 => ?_⟩
      exact absurd h0 (Nat.ne_of_gt (halloc.inv.blk_align halloc.new).2)
    | none =>
      -- the kernel is asked in the state after the cache was cleared
      obtain ⟨hq, -, hy⟩ := hc.full rfl
      refine ensures_mono (slowAlloc_served hq.inv hy ha hbin hslot) ?_
      rintro ⟨⟨p, zeroed⟩, s'⟩ ⟨hserved, hnull⟩
      obtain ⟨h₁, h₂⟩ := osMmapAligned_sameOs (c := c) hos segmentSize segmentSize
      refine ⟨⟨?_, hserved.arenaNext.trans hos.arenaNext, hserved.attached⟩, fun h0 => ?_⟩
      · rcases hserved.mapped with hm | hm
        · exact Or.inl (hm.trans hos.mapped)
        · exact Or.inr (hm.trans h₂)
      · rw [SegmentRefused, ← h₁]
        exact hnull h0

end CustomMalloc

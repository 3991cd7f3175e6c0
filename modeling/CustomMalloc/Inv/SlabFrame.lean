import CustomMalloc.Inv.Slab

/-!
# What a slab call writes

`slab.c`, `arena.c`, `segment.c` and `tld.c` change the state by a dozen kinds of
updates. `SlabClosed t R` says that the relation `R` survives each of them when
thread `t` makes it; then it relates the states before and after any call of thread
`t` (`slabAllocInner_closed`, `slabFree_closed`). This holds from any state, so it
needs no invariant, and it is the only walk through the code: what a call leaves alone
is an instance.

The first instance is `LargeKept`: a slab call touches no large header, and all it
does to the mapped memory is to map more.
-/

namespace CustomMalloc

open Lib.Words Lib.Bytes Lib.Chain Lib.Intervals Lib.Post

variable {c : Cfg} {s s' : State} {t : Nat} {R : State → State → Prop}

/-- `R` survives the updates of `slab_free` by thread `t`. -/
structure FreeClosed (t : Nat) (R : State → State → Prop) : Prop where
  refl : ∀ s, R s s
  trans : ∀ {s₁ s₂ s₃}, R s₁ s₂ → R s₂ s₃ → R s₁ s₃
  os : ∀ {s s'}, OsExt s s' → R s s'
  mem : ∀ s m, R s { s with mem := m }
  setArena : ∀ s a x, R s (s.setArena a x)
  /-- a `tld_t` is created -/
  newTld : ∀ s a, s.tls t = none → R s { s with
    tls := upd s.tls t (some { addr := a, threadId := s.threadIdCounter })
    threadIdCounter := (s.threadIdCounter + 1) % 2 ^ 32 }
  /-- and changed in anything but its thread id -/
  setTld : ∀ s x y, s.tls t = some x → y.threadId = x.threadId → R s (s.setTld t y)
  /-- a page keeps its state and its owner -/
  setPage : ∀ s r p, p.state = (s.pages r).state → p.ownerTid = (s.pages r).ownerTid →
    R s (s.setPage r p)

/-- `R` survives the updates of any slab call by thread `t`. -/
structure SlabClosed (t : Nat) (R : State → State → Prop) : Prop extends FreeClosed t R where
  arenaNext : ∀ s n, R s { s with arenaNext := n }
  segs : ∀ s f, R s { s with segs := f }
  /-- a page is set up -/
  initPage : ∀ s r p, (s.pages r).state = .unused → p.ownerTid = noOwner → R s (s.setPage r p)
  /-- or claimed -/
  claim : ∀ s r x, s.tls t = some x → (s.pages r).ownerTid = noOwner →
    R s (s.setPage r { s.pages r with ownerTid := x.threadId })
  newSegment : ∀ s b a reg, R s { s with
    segs := upd s.segs b (some { pagesUsed := 0, arena := a, next := none, prev := none })
    pages := fun r => if r.seg = b then freshPage b a r.idx else s.pages r
    segmentRegistry := reg }

/-! ## Threads and statistics -/

theorem tldGet_closed (h : FreeClosed t R) (s : State) :
    R s (tldGet c s t).2 ∧ (tldGet c s t).2.tls t = (tldGet c s t).1 := by
  unfold tldGet
  split
  next tld ht => exact ⟨h.refl s, ht⟩
  next hn =>
    rcases hm : osMmapAligned c s c.osPage c.osPage with ⟨addr, s₁⟩
    obtain ⟨hos, -⟩ := osMmapAligned_spec (k := c.pageShift) (by have := c.pageShift_lt; omega)
      (fun hlt => absurd hlt (Nat.lt_irrefl _)) hm
    have hn₁ : s₁.tls t = none := by rw [hos.sameThreads.tls, hn]
    simp only
    split
    next => exact ⟨h.os hos, hn₁⟩
    next => exact ⟨h.trans (h.os hos) (h.newTld s₁ addr hn₁), upd_same ..⟩

theorem arenaGet_closed (h : SlabClosed t R) (s : State) :
    Ensures (fun _ => True) (arenaGet c s t) fun (_, s') => R s s' := by
  unfold arenaGet
  obtain ⟨htld, hgot⟩ := tldGet_closed (c := c) h.toFreeClosed s
  rcases he : tldGet c s t with ⟨o, s₁⟩
  rw [he] at htld hgot
  simp only
  split
  next => exact htld
  next =>
    split
    next => trivial
    next =>
      have hnext := h.trans htld (h.arenaNext s₁ (wrapInt (s₁.arenaNext + 1)))
      cases o with
      | some x =>
        refine h.trans (h.trans hnext (h.setArena _ _ _)) (h.setTld _ x _ ?_ rfl)
        exact hgot
      | none => exact h.trans hnext (h.setArena _ _ _)

theorem tldStatStore_closed (h : FreeClosed t R) {x y : Tld} (ht : s.tls t = some x)
    (hid : y.threadId = x.threadId) : Ensures (fun _ => True) (tldStatStore s t y) (R s) := by
  unfold tldStatStore tldStatFlush
  split
  next =>
    split
    next => trivial
    next => exact h.trans (h.setArena _ _ _) (h.setTld _ x _ ht hid)
  next => exact h.setTld _ x _ ht hid

/-! ## Allocation -/

theorem markAllocated_closed (p : PageMeta) (slot : Nat) :
    Ensures (fun _ => True) (markAllocated c p slot) fun p' =>
      p'.state = p.state ∧ p'.ownerTid = p.ownerTid := by
  rcases he : markAllocated c p slot with e | p'
  · trivial
  · obtain ⟨bm, rfl⟩ := markAllocated_eq he
    exact ⟨rfl, rfl⟩

theorem markFreed_closed (p : PageMeta) (slot : Nat) :
    Ensures (fun _ => True) (markFreed c p slot) fun p' =>
      p'.state = p.state ∧ p'.ownerTid = p.ownerTid := by
  rcases he : markFreed c p slot with e | p'
  · trivial
  · obtain ⟨bm, rfl⟩ := markFreed_eq he
    exact ⟨rfl, rfl⟩

theorem takeSlot_closed (h : SlabClosed t R) {x : Tld} {r : PageRef} {p : PageMeta} (slot : Nat)
    (ht : s.tls t = some x) (hs : p.state = (s.pages r).state)
    (ho : p.ownerTid = (s.pages r).ownerTid) :
    Ensures (fun _ => True) (takeSlot c s t x r p slot) (R s) := by
  unfold takeSlot tldStatAlloc
  refine ensures_bind (markAllocated_closed p slot) fun p' hp => ?_
  refine ensures_mono (tldStatStore_closed h.toFreeClosed (x := x) ht rfl) fun _ hr => ?_
  exact h.trans (h.setPage s r p' (hp.1.trans hs) (hp.2.trans ho)) hr

theorem pageCollectRemote_closed (m : Mem) (p : PageMeta) :
    Ensures (fun _ => True) (pageCollectRemote m p) fun (_, p') =>
      p'.state = p.state ∧ p'.ownerTid = p.ownerTid := by
  unfold pageCollectRemote
  simp only
  split
  next => exact ⟨rfl, rfl⟩
  next =>
    split
    next => trivial
    next => exact ⟨rfl, rfl⟩

/-- A full page leaves the cache with the thread's data still in place. -/
theorem cachedAlloc_closed (h : SlabClosed t R) {x : Tld} (bin : Nat) (r : PageRef)
    (ht : s.tls t = some x) :
    Ensures (fun _ => True) (cachedAlloc c s t x bin r) fun (_, s') => R s s' := by
  unfold cachedAlloc
  simp only
  split
  next => exact ensures_bind (takeSlot_closed h _ ht rfl rfl) fun _ hs => hs
  next =>
    split
    next => exact ensures_bind (takeSlot_closed h _ ht rfl rfl) fun _ hs => hs
    next =>
      refine ensures_bind (pageCollectRemote_closed s.mem (s.pages r)) ?_
      rintro ⟨m, p⟩ ⟨hs, ho⟩
      have hcol : R s { s.setPage r p with mem := m } :=
        h.trans (h.setPage s r p hs ho) (h.mem _ m)
      simp only
      split
      next =>
        refine ensures_bind (takeSlot_closed h _ ?_ ?_ ?_) fun _ hr => h.trans hcol hr
        · exact ht
        · simp [State.setPage, popLocalFree]
        · simp [State.setPage, popLocalFree]
      next => exact h.trans hcol (h.setTld _ x _ ht rfl)

theorem arenaBump_closed (h : SlabClosed t R) (s : State) (a : Nat) (r : PageRef) :
    Ensures (fun _ => True) (arenaBump c s a r) fun (_, s') => R s s' := by
  unfold arenaBump
  simp only
  refine ensures_bind (markAllocated_closed _ _) fun p' hp => ?_
  exact h.trans (h.setPage s r p' hp.1 hp.2) (h.setArena _ _ _)

theorem binInsertPage_closed (h : SlabClosed t R) (s : State) (a : Nat) (r : PageRef) :
    R s (binInsertPage s a r) := by
  unfold binInsertPage
  simp only
  have h₁ := h.setPage s r { s.pages r with
    prev := none, next := (s.arenas a).bins (s.pages r).binIdx } rfl rfl
  split
  next =>
    refine h.trans ?_ (h.setArena _ _ _)
    exact h.trans h₁ (h.setPage _ _ _ rfl rfl)
  next => exact h.trans h₁ (h.setArena _ _ _)

theorem segmentAllocPage_closed (h : SlabClosed t R) (s : State) (seg bin : Nat) :
    R s (segmentAllocPage s seg bin).2 := by
  unfold segmentAllocPage
  split
  next g i _ hi =>
    have hun : (s.pages ⟨seg, i⟩).state = .unused := by
      have := List.find?_some hi
      simpa using this
    exact h.trans (h.initPage s ⟨seg, i⟩ _ hun rfl) (h.segs _ _)
  next => exact h.refl s

theorem linkSegment_closed (h : SlabClosed t R) (s : State) (a seg : Nat) :
    R s (linkSegment s a seg) := by
  unfold linkSegment
  simp only
  split
  next => exact h.trans (h.trans (h.segs _ _) (h.segs _ _)) (h.setArena _ _ _)
  next => exact h.trans (h.segs _ _) (h.setArena _ _ _)

theorem segmentCreate_closed (h : SlabClosed t R) (s : State) (a : Nat) :
    R s (segmentCreate c s a).2 := by
  rcases he : segmentCreate c s a with ⟨seg, s₁⟩
  rcases segmentCreate_spec he with ⟨-, hos⟩ | ⟨-, s₂, hos, -, -, rfl⟩
  · exact h.os hos
  · exact h.trans (h.os hos) (h.newSegment s₂ seg a _)

theorem arenaNewPage_closed (h : SlabClosed t R) (s : State) (a bin : Nat) :
    Ensures (fun _ => True) (arenaNewPage c s a bin) fun (_, s') => R s s' := by
  unfold arenaNewPage
  split
  next => trivial
  next seg _ => exact segmentAllocPage_closed h s seg bin
  next =>
    have hc := segmentCreate_closed (c := c) h s a
    rcases he : segmentCreate c s a with ⟨seg, s₁⟩
    rw [he] at hc
    simp only
    split
    next => exact hc
    next =>
      exact h.trans (h.trans hc (linkSegment_closed h s₁ a seg))
        (segmentAllocPage_closed h _ seg bin)

theorem arenaAlloc_closed (h : SlabClosed t R) (s : State) (a bin : Nat) :
    Ensures (fun _ => True) (arenaAlloc c s a bin) fun (_, s') => R s s' := by
  unfold arenaAlloc
  split
  next => trivial
  next r _ => exact ensures_bind (arenaBump_closed h s a r) fun _ hs => hs
  next =>
    refine ensures_bind (arenaNewPage_closed h s a bin) ?_
    rintro ⟨o, s₁⟩ h₁
    cases o with
    | none => exact h₁
    | some r =>
      refine ensures_bind (arenaBump_closed h _ a r) fun x hs => ?_
      exact h.trans (h.trans h₁ (binInsertPage_closed h s₁ a r)) hs

theorem claimPage_closed (h : SlabClosed t R) {tld : Tld} (bin slot : Nat)
    (ht : s.tls t = some tld) : R s (claimPage s t bin slot tld) := by
  unfold claimPage
  split
  next => exact h.refl s
  next r _ =>
    split
    next ho => exact h.trans (h.claim s r tld ht ho) (h.setTld _ tld _ ht rfl)
    next =>
      split
      next => exact h.setTld _ tld _ ht rfl
      next => exact h.refl s

theorem slowAlloc_closed (h : SlabClosed t R) (s : State) (bin : Nat) (hasTld : Bool) :
    Ensures (fun _ => True) (slowAlloc c s t bin hasTld) fun (_, s') => R s s' := by
  unfold slowAlloc
  refine ensures_bind (arenaGet_closed h s) ?_
  rintro ⟨a, s₁⟩ h₁
  refine ensures_bind (arenaAlloc_closed h s₁ a bin) ?_
  rintro ⟨⟨slot, zeroed⟩, s₂⟩ h₂
  have hr := h.trans h₁ h₂
  simp only
  split
  next ht => exact h.trans hr (claimPage_closed h bin slot ht)
  next => exact hr

/-- A request of slab size is served without the large path. -/
theorem slabAllocInner_closed (h : SlabClosed t R) (s : State) {size : Nat} (hpos : 0 < size)
    (hs : SlabSized size) :
    Ensures (fun _ => True) (slabAllocInner c s t size) fun (_, s') => R s s' := by
  obtain ⟨hle, hbin⟩ := hs
  unfold slabAllocInner
  simp only [if_neg (Nat.ne_of_gt hpos), if_neg (Nat.not_lt.mpr hle),
    if_neg (show ¬ pageSizeAlloc / 2 < binToSize sizeTables (sizeToBin sizeTables size) from
      Nat.not_lt.mpr hbin)]
  obtain ⟨htld, hgot⟩ := tldGet_closed (c := c) h.toFreeClosed s
  rcases he : tldGet c s t with ⟨o, s₁⟩
  rw [he] at htld hgot
  have hslow : ∀ {s₂ : State} (b : Bool), R s s₂ →
      Ensures (fun _ => True) (slowAlloc c s₂ t (sizeToBin sizeTables size) b)
        fun (_, s') => R s s' := fun b h₂ =>
    ensures_mono (slowAlloc_closed h _ _ b) fun _ hr => h.trans h₂ hr
  cases o with
  | none => exact hslow false htld
  | some tld =>
    simp only
    split
    next => exact hslow true htld
    next r _ =>
      split
      next =>
        refine ensures_bind (cachedAlloc_closed h _ r hgot) ?_
        rintro ⟨found, s₂⟩ h₂
        cases found with
        | some x => exact h.trans htld h₂
        | none => exact hslow true (h.trans htld h₂)
      next => exact hslow true htld

/-! ## Freeing -/

theorem slabFree_closed (h : FreeClosed t R) (s : State) (ptr : Nat) :
    Ensures (fun _ => True) (slabFree c s t ptr) (R s) := by
  unfold slabFree
  split
  next => exact h.refl s
  next =>
  split
  next => exact h.refl s
  next =>
  split
  next => exact h.refl s
  next r _ =>
  split
  next => exact h.refl s
  next =>
    refine ensures_bind (markFreed_closed (s.pages r) ptr) fun p hp => ?_
    obtain ⟨htld, hgot⟩ := tldGet_closed (c := c) h (s.setPage r p)
    simp only
    -- the page is the marked one in whatever state `tld_get` leaves
    have hpages : (tldGet c (s.setPage r p) t).2.pages r = p := by
      rw [tldGet_setPage]
      exact upd_same ..
    rcases he : tldGet c (s.setPage r p) t with ⟨o, s₁⟩
    rw [he] at htld hgot hpages
    replace hpages : s₁.pages r = p := hpages
    have h₁ : R s s₁ := h.trans (h.setPage s r p hp.1 hp.2) htld
    have hremote : R s (freeRemote s₁ r p ptr) := by
      unfold freeRemote arenaCreditFree
      simp only
      refine h.trans h₁ (h.trans (h.trans (h.setPage s₁ r _ ?_ ?_) (h.mem _ _)) (h.setArena _ _ _))
      · rw [hpages]
        rfl
      · rw [hpages]
        rfl
    cases o with
    | none => exact hremote
    | some tld =>
      simp only
      split
      next =>
        unfold freeLocal tldStatFree
        simp only
        refine ensures_mono (tldStatStore_closed h (x := tld) ?_ rfl) fun _ hr =>
          h.trans h₁ (h.trans (h.trans (h.setPage s₁ r _ ?_ ?_) (h.mem _ _)) hr)
        · exact hgot
        · rw [hpages]
          rfl
        · rw [hpages]
          rfl
      next => exact hremote

/-! ## The other threads -/

/-- The thread-local data of every thread but `t` are what they were. -/
def OthersKept (t : Nat) (s s' : State) : Prop := ∀ t', t' ≠ t → s'.tls t' = s.tls t'

theorem othersKept_closed (t : Nat) : SlabClosed t (OthersKept t) where
  refl := fun _ _ _ => rfl
  trans := fun h h' t' ht => (h' t' ht).trans (h t' ht)
  os := fun hos _ _ => by rw [hos.sameThreads.tls]
  mem := fun _ _ _ _ => rfl
  arenaNext := fun _ _ _ _ => rfl
  setArena := fun _ _ _ _ _ => rfl
  segs := fun _ _ _ _ => rfl
  newTld := fun _ _ _ _ ht => upd_ne ht
  setTld := fun _ _ _ _ _ _ ht => upd_ne ht
  setPage := fun _ _ _ _ _ _ _ => rfl
  initPage := fun _ _ _ _ _ _ _ => rfl
  claim := fun _ _ _ _ _ _ _ => rfl
  newSegment := fun _ _ _ _ _ _ => rfl

/-! ## The large blocks -/

/-- The large blocks are what they were, and what was mapped still is. -/
structure LargeKept (s s' : State) : Prop where
  larges : s'.larges = s.larges
  list : s'.largeList = s.largeList
  allocated : s'.largeAllocated = s.largeAllocated
  count : s'.largeAllocCount = s.largeAllocCount
  mapped : ∀ x, Covers s.mapped x → Covers s'.mapped x

theorem LargeKept.refl (s : State) : LargeKept s s := ⟨rfl, rfl, rfl, rfl, fun _ hx => hx⟩

theorem LargeKept.trans {s₁ s₂ s₃ : State} (h : LargeKept s₁ s₂) (h' : LargeKept s₂ s₃) :
    LargeKept s₁ s₃ :=
  ⟨h'.larges.trans h.larges, h'.list.trans h.list, h'.allocated.trans h.allocated,
    h'.count.trans h.count, fun x hx => h'.mapped x (h.mapped x hx)⟩

theorem OsExt.largeKept (h : OsExt s s') : LargeKept s s' := by
  obtain ⟨_, _, _, _, rfl, hk⟩ := h
  exact ⟨rfl, rfl, rfl, rfl, fun x hx => (hk x hx).1⟩

theorem largeKept_closed (t : Nat) : SlabClosed t LargeKept where
  refl := LargeKept.refl
  trans := LargeKept.trans
  os := OsExt.largeKept
  mem := fun _ _ => ⟨rfl, rfl, rfl, rfl, fun _ hx => hx⟩
  arenaNext := fun _ _ => ⟨rfl, rfl, rfl, rfl, fun _ hx => hx⟩
  setArena := fun _ _ _ => ⟨rfl, rfl, rfl, rfl, fun _ hx => hx⟩
  segs := fun _ _ => ⟨rfl, rfl, rfl, rfl, fun _ hx => hx⟩
  newTld := fun _ _ _ => ⟨rfl, rfl, rfl, rfl, fun _ hx => hx⟩
  setTld := fun _ _ _ _ _ => ⟨rfl, rfl, rfl, rfl, fun _ hx => hx⟩
  setPage := fun _ _ _ _ _ => ⟨rfl, rfl, rfl, rfl, fun _ hx => hx⟩
  initPage := fun _ _ _ _ _ => ⟨rfl, rfl, rfl, rfl, fun _ hx => hx⟩
  claim := fun _ _ _ _ _ => ⟨rfl, rfl, rfl, rfl, fun _ hx => hx⟩
  newSegment := fun _ _ _ _ => ⟨rfl, rfl, rfl, rfl, fun _ hx => hx⟩

end CustomMalloc

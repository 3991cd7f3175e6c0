import CustomMalloc.Inv.Paths
import CustomMalloc.Lib.Relate

/-!
# Bytes and caches that make no difference

A call of the slab allocator reads memory only where a free list has its links, and
looks into the page cache of a thread only to choose its path. Two states that differ
in other bytes and in the caches are therefore taken to such states again, with the
same answer (`Alike`).

`D` is the set of bytes in which the states may differ; it does not grow.
-/

namespace CustomMalloc

open Lib.Words Lib.Bytes Lib.Chain Lib.Relate

/-- A `tld_t` without its page cache. -/
def Tld.bare (x : Tld) : Tld := { x with binPage := fun _ => none }

/-- Two of them that agree are the same up to the cache. -/
theorem Tld.eq_of_bare {x x₀ : Tld} (h : x₀.bare = x.bare) : ∃ f, x₀ = { x with binPage := f } := by
  obtain ⟨a₀, b₀, c₀, f₀, d₀, e₀, g₀, h₀, i₀⟩ := x₀
  unfold Tld.bare at h
  simp only [Tld.mk.injEq, true_and] at h
  obtain ⟨rfl, rfl, rfl, rfl, rfl, rfl, rfl, rfl⟩ := h
  exact ⟨f₀, rfl⟩

/-- The memories agree outside `D`. -/
def AgreeOff (D : Nat → Prop) (m m₀ : Mem) : Prop := ∀ y, ¬ D y → m₀ y = m y

/-- The second state differs from the first in bytes of `D` and in page caches. -/
inductive Alike (D : Nat → Prop) (s : State) : State → Prop
  | mk (m : Mem) (T : Nat → Option Tld) (hm : AgreeOff D s.mem m)
      (hT : ∀ t, (T t).map Tld.bare = (s.tls t).map Tld.bare) :
      Alike D s { s with mem := m, tls := T }

/-- Results with the same value in states that are alike. -/
def SameResult {α : Type} (D : Nat → Prop) (x x₀ : α × State) : Prop :=
  x₀.1 = x.1 ∧ Alike D x.2 x₀.2

variable {c : Cfg} {D : Nat → Prop} {s s₀ : State} {t : Nat}

namespace Alike

theorem setPage (h : Alike D s s₀) (r : PageRef) (p : PageMeta) :
    Alike D (s.setPage r p) (s₀.setPage r p) := by
  obtain ⟨m, T, hm, hT⟩ := h
  exact .mk m T hm hT

theorem setArena (h : Alike D s s₀) (a : Nat) (x : Arena) :
    Alike D (s.setArena a x) (s₀.setArena a x) := by
  obtain ⟨m, T, hm, hT⟩ := h
  exact .mk m T hm hT

theorem setMem (h : Alike D s s₀) {m m₀ : Mem} (hm : AgreeOff D m m₀) :
    Alike D { s with mem := m } { s₀ with mem := m₀ } := by
  obtain ⟨_, T, -, hT⟩ := h
  exact .mk m₀ T hm hT

theorem setTld (h : Alike D s s₀) {x x₀ : Tld} (hx : x₀.bare = x.bare) :
    Alike D (s.setTld t x) (s₀.setTld t x₀) := by
  obtain ⟨m, T, hm, hT⟩ := h
  refine .mk m (upd T t (some x₀)) hm ?_
  intro u
  show (upd T t (some x₀) u).map Tld.bare = (upd s.tls t (some x) u).map Tld.bare
  by_cases hu : u = t
  · subst hu
    simp only [upd_same, Option.map_some, hx]
  · simp only [upd_ne hu]
    exact hT u

/-! ## The kernel -/

theorem mmap (h : Alike D s s₀) (n : Nat) : SameResult D (mmap c s n) (mmap c s₀ n) := by
  obtain ⟨m, T, hm, hT⟩ := h
  unfold CustomMalloc.mmap
  simp only
  split
  next => exact ⟨rfl, .mk m T hm hT⟩
  next => exact ⟨rfl, .mk m T hm hT⟩
  next a rest _ =>
    have hcan : canMap c { s with mem := m, tls := T } a n = canMap c s a n := rfl
    rw [hcan]
    split
    next =>
      refine ⟨rfl, .mk (fillZero m a (roundPage c n)) T ?_ hT⟩
      intro y hy
      show fillZero m a (roundPage c n) y = fillZero s.mem a (roundPage c n) y
      unfold fillZero
      split
      next => rfl
      next => exact hm y hy
    next => exact ⟨rfl, .mk m T hm hT⟩

theorem munmap (h : Alike D s s₀) (a n : Nat) : Alike D (munmap c s a n) (munmap c s₀ a n) := by
  obtain ⟨m, T, hm, hT⟩ := h
  exact .mk m T hm hT

theorem osMmapAligned (h : Alike D s s₀) (n al : Nat) :
    SameResult D (osMmapAligned c s n al) (osMmapAligned c s₀ n al) := by
  have hadd : ∀ {s s₀ : State} (k : Nat), Alike D s s₀ →
      Alike D (s.addMmapBytes k) (s₀.addMmapBytes k) := by
    intro s s₀ k h
    obtain ⟨m, T, hm, hT⟩ := h
    exact .mk m T hm hT
  have htrim : ∀ {s s₀ : State} (b : Prop) [Decidable b] (a k : Nat), Alike D s s₀ →
      Alike D (if b then CustomMalloc.munmap c s a k else s)
        (if b then CustomMalloc.munmap c s₀ a k else s₀) := by
    intro s s₀ b _ a k h
    split
    next => exact h.munmap a k
    next => exact h
  unfold CustomMalloc.osMmapAligned
  split
  next =>
    obtain ⟨h₁, h₂⟩ := h.mmap (c := c) n
    generalize CustomMalloc.mmap c s n = x at h₁ h₂
    generalize CustomMalloc.mmap c s₀ n = x₀ at h₁ h₂
    obtain ⟨o, s₁⟩ := x
    obtain ⟨o₀, s₂⟩ := x₀
    obtain rfl : o₀ = o := h₁
    cases o₀ with
    | none => exact ⟨rfl, h₂⟩
    | some p => exact ⟨rfl, hadd n h₂⟩
  next =>
    simp only
    obtain ⟨h₁, h₂⟩ := h.mmap (c := c) ((n + al - 1) % 2 ^ 64)
    generalize CustomMalloc.mmap c s ((n + al - 1) % 2 ^ 64) = x at h₁ h₂
    generalize CustomMalloc.mmap c s₀ ((n + al - 1) % 2 ^ 64) = x₀ at h₁ h₂
    obtain ⟨o, s₁⟩ := x
    obtain ⟨o₀, s₂⟩ := x₀
    obtain rfl : o₀ = o := h₁
    cases o₀ with
    | none => exact ⟨rfl, h₂⟩
    | some p => exact ⟨rfl, hadd n (htrim _ _ _ (htrim _ _ _ h₂))⟩

/-! ## Threads -/

/-- `tld_get` finds the same thread data, up to the cache. -/
theorem tldGet (h : Alike D s s₀) (t : Nat) :
    (tldGet c s₀ t).1.map Tld.bare = (tldGet c s t).1.map Tld.bare ∧
      Alike D (tldGet c s t).2 (tldGet c s₀ t).2 := by
  have htls : (s₀.tls t).map Tld.bare = (s.tls t).map Tld.bare := by
    obtain ⟨m, T, hm, hT⟩ := h
    exact hT t
  unfold CustomMalloc.tldGet
  cases hx : s.tls t with
  | some x =>
    rw [hx] at htls
    cases hx₀ : s₀.tls t with
    | none => rw [hx₀] at htls; cases htls
    | some x₀ =>
      rw [hx₀] at htls
      exact ⟨htls, h⟩
  | none =>
    rw [hx] at htls
    cases hx₀ : s₀.tls t with
    | some x₀ => rw [hx₀] at htls; cases htls
    | none =>
      simp only
      obtain ⟨h₁, h₂⟩ := h.osMmapAligned (c := c) c.osPage c.osPage
      generalize CustomMalloc.osMmapAligned c s c.osPage c.osPage = y at h₁ h₂
      generalize CustomMalloc.osMmapAligned c s₀ c.osPage c.osPage = y₀ at h₁ h₂
      obtain ⟨addr, s₁⟩ := y
      obtain ⟨addr₀, s₂⟩ := y₀
      obtain rfl : addr₀ = addr := h₁
      simp only
      split
      next => exact ⟨rfl, h₂⟩
      next =>
        obtain ⟨m, T, hm, hT⟩ := h₂
        refine ⟨rfl, .mk m _ hm ?_⟩
        intro u
        by_cases hu : u = t
        · subst hu
          simp only [upd_same]
        · simp only [upd_ne hu]
          exact hT u

theorem arenaGet (h : Alike D s s₀) (t : Nat) :
    Both (SameResult D) (arenaGet c s t) (arenaGet c s₀ t) := by
  obtain ⟨h₁, h₂⟩ := h.tldGet (c := c) t
  unfold CustomMalloc.arenaGet
  generalize CustomMalloc.tldGet c s t = y at h₁ h₂
  generalize CustomMalloc.tldGet c s₀ t = y₀ at h₁ h₂
  obtain ⟨o, s₁⟩ := y
  obtain ⟨o₀, s₂⟩ := y₀
  have harena : o₀.bind Tld.arena = o.bind Tld.arena := by
    have h₁ : o₀.map Tld.bare = o.map Tld.bare := h₁
    have hbare : ∀ z : Option Tld, z.bind Tld.arena = (z.map Tld.bare).bind Tld.arena := by
      intro z
      cases z <;> rfl
    rw [hbare o₀, hbare o, h₁]
  simp only [harena]
  split
  next => exact ⟨rfl, h₂⟩
  next =>
    obtain ⟨m, T, hm, hT⟩ := h₂
    simp only
    split
    next => rfl
    next =>
      cases o with
      | none =>
        cases o₀ with
        | none => exact ⟨rfl, .mk m T hm hT⟩
        | some x₀ => cases h₁
      | some x =>
        cases o₀ with
        | none => cases h₁
        | some x₀ =>
          refine ⟨rfl, ?_⟩
          apply setTld
          · exact .mk m T hm hT
          · obtain ⟨f, rfl⟩ := Tld.eq_of_bare (Option.some.inj h₁)
            rfl

/-! ## Arenas -/

theorem segmentCreate (h : Alike D s s₀) (a : Nat) :
    SameResult D (segmentCreate c s a) (segmentCreate c s₀ a) := by
  obtain ⟨h₁, h₂⟩ := h.osMmapAligned (c := c) segmentSize segmentSize
  unfold CustomMalloc.segmentCreate
  generalize CustomMalloc.osMmapAligned c s segmentSize segmentSize = x at h₁ h₂
  generalize CustomMalloc.osMmapAligned c s₀ segmentSize segmentSize = x₀ at h₁ h₂
  obtain ⟨b, s₁⟩ := x
  obtain ⟨b₀, s₂⟩ := x₀
  obtain rfl : b₀ = b := h₁
  obtain ⟨m, T, hm, hT⟩ := h₂
  simp only
  split
  next => exact ⟨rfl, .mk m T hm hT⟩
  next => exact ⟨rfl, .mk m T hm hT⟩

theorem linkSegment (h : Alike D s s₀) (a b : Nat) :
    Alike D (linkSegment s a b) (linkSegment s₀ a b) := by
  obtain ⟨m, T, hm, hT⟩ := h
  unfold CustomMalloc.linkSegment
  simp only
  split
  next => exact .mk m T hm hT
  next => exact .mk m T hm hT

theorem segmentAllocPage (h : Alike D s s₀) (b bin : Nat) :
    SameResult D (segmentAllocPage s b bin) (segmentAllocPage s₀ b bin) := by
  obtain ⟨m, T, hm, hT⟩ := h
  unfold CustomMalloc.segmentAllocPage
  have hun : unusedPage { s with mem := m, tls := T } b = unusedPage s b := rfl
  simp only [hun]
  split
  next => exact ⟨rfl, .mk m T hm hT⟩
  next => exact ⟨rfl, .mk m T hm hT⟩

theorem arenaNewPage (h : Alike D s s₀) (a bin : Nat) :
    Both (SameResult D) (arenaNewPage c s a bin) (arenaNewPage c s₀ a bin) := by
  have hfind : findFrom (fun b => (s₀.segs b).bind Segment.next)
      (fun b => (unusedPage s₀ b).isSome) walkBound (s₀.arenas a).segments =
      findFrom (fun b => (s.segs b).bind Segment.next) (fun b => (unusedPage s b).isSome)
        walkBound (s.arenas a).segments := by
    obtain ⟨m, T, hm, hT⟩ := h
    rfl
  unfold CustomMalloc.arenaNewPage
  rw [hfind]
  split
  next => rfl
  next b _ => exact h.segmentAllocPage b bin
  next =>
    obtain ⟨h₁, h₂⟩ := h.segmentCreate (c := c) a
    generalize CustomMalloc.segmentCreate c s a = x at h₁ h₂
    generalize CustomMalloc.segmentCreate c s₀ a = x₀ at h₁ h₂
    obtain ⟨b, s₁⟩ := x
    obtain ⟨b₀, s₂⟩ := x₀
    obtain rfl : b₀ = b := h₁
    simp only
    split
    next => exact ⟨rfl, h₂⟩
    next => exact (h₂.linkSegment a b₀).segmentAllocPage b₀ bin

theorem binInsertPage (h : Alike D s s₀) (a : Nat) (r : PageRef) :
    Alike D (binInsertPage s a r) (binInsertPage s₀ a r) := by
  obtain ⟨m, T, hm, hT⟩ := h
  unfold CustomMalloc.binInsertPage
  simp only
  split
  next => exact .mk m T hm hT
  next => exact .mk m T hm hT

theorem arenaBump (h : Alike D s s₀) (a : Nat) (r : PageRef) :
    Both (SameResult D) (arenaBump c s a r) (arenaBump c s₀ a r) := by
  obtain ⟨m, T, hm, hT⟩ := h
  unfold CustomMalloc.arenaBump
  simp only
  cases markAllocated c (bumpSlot (s.pages r)) (pageStart (s.pages r) + (s.pages r).bumpOffset) with
  | error e => rfl
  | ok p => exact ⟨rfl, .mk m T hm hT⟩

theorem arenaAlloc (h : Alike D s s₀) (a bin : Nat) :
    Both (SameResult D) (arenaAlloc c s a bin) (arenaAlloc c s₀ a bin) := by
  have hfind : findFrom (fun r => (s₀.pages r).next) (scanTest s₀) walkBound
      ((s₀.arenas a).bins bin) =
      findFrom (fun r => (s.pages r).next) (scanTest s) walkBound ((s.arenas a).bins bin) := by
    obtain ⟨m, T, hm, hT⟩ := h
    rfl
  have hbump : ∀ {s s₀ : State} (r : PageRef), Alike D s s₀ →
      Both (SameResult D)
        (CustomMalloc.arenaBump c s a r >>= fun x => .ok ((x.1, true), x.2))
        (CustomMalloc.arenaBump c s₀ a r >>= fun x => .ok ((x.1, true), x.2)) := by
    intro s s₀ r h
    refine both_bind (h.arenaBump a r) fun x x₀ hx => ⟨?_, hx.2⟩
    rw [hx.1]
  unfold CustomMalloc.arenaAlloc
  rw [hfind]
  split
  next => rfl
  next r _ => exact hbump r h
  next =>
    refine both_bind (h.arenaNewPage a bin) ?_
    intro x x₀ hx
    obtain ⟨o, s₁⟩ := x
    obtain ⟨o₀, s₂⟩ := x₀
    obtain ⟨h₁, h₂⟩ := hx
    obtain rfl : o₀ = o := h₁
    cases o₀ with
    | none => exact ⟨rfl, h₂⟩
    | some r => exact hbump r (h₂.binInsertPage a r)

/-! ## The cached page -/

theorem tldStatStore (h : Alike D s s₀) {x x₀ : Tld} (hx : x₀.bare = x.bare) :
    Both (Alike D) (tldStatStore s t x) (tldStatStore s₀ t x₀) := by
  have harenas : s₀.arenas = s.arenas := by
    obtain ⟨m, T, hm, hT⟩ := h
    rfl
  obtain ⟨f, rfl⟩ := Tld.eq_of_bare hx
  unfold CustomMalloc.tldStatStore tldStatFlush
  simp only [harenas]
  split
  next =>
    split
    next => rfl
    next a _ => exact (h.setArena a _).setTld rfl
  next => exact h.setTld rfl

theorem takeSlot (h : Alike D s s₀) {x x₀ : Tld} (hx : x₀.bare = x.bare) (r : PageRef)
    (p : PageMeta) (slot : Nat) :
    Both (Alike D) (takeSlot c s t x r p slot) (takeSlot c s₀ t x₀ r p slot) := by
  unfold CustomMalloc.takeSlot tldStatAlloc
  cases markAllocated c p slot with
  | error e => rfl
  | ok p' =>
    obtain ⟨f, rfl⟩ := Tld.eq_of_bare hx
    exact (h.setPage r p').tldStatStore rfl

end Alike

/-! ## Free lists -/

/-- None of the eight bytes at `x` is in `D`. -/
def WordOff (D : Nat → Prop) (x : Nat) : Prop := ∀ y, x ≤ y → y < x + 8 → ¬ D y

variable {m m₀ : Mem} {r : PageRef} {p : PageMeta}

theorem AgreeOff.readWord {x : Nat} (h : AgreeOff D m m₀) (hx : WordOff D x) :
    readWord m₀ x = readWord m x :=
  readWord_congr fun y h₁ h₂ => h y (hx y h₁ h₂)

theorem AgreeOff.writeWord (h : AgreeOff D m m₀) (x v : Nat) :
    AgreeOff D (writeWord m x v) (writeWord m₀ x v) := by
  intro y hy
  unfold Lib.Bytes.writeWord writeLE
  split
  next => rfl
  next => exact h y hy

/-- A walk along links outside `D`. -/
theorem walkTail_agree (hm : AgreeOff D m m₀) {l : List Nat} {x n fuel : Nat} (hx : x ≠ 0)
    (hl : Linked (link m₀) (ptr x) l) (hoff : ∀ z ∈ l, WordOff D z) :
    walkTail m fuel x n = walkTail m₀ fuel x n := by
  induction fuel generalizing x n l with
  | zero => rfl
  | succ fuel ih =>
    cases l with
    | nil => exact absurd (ptr_eq_none.mp hl) hx
    | cons z l =>
      obtain ⟨hz, hl⟩ := hl
      obtain ⟨rfl, -⟩ := ptr_eq_some.mp hz
      have hread := hm.readWord (hoff x (List.mem_cons_self ..))
      unfold walkTail
      simp only [hread]
      split
      next => rfl
      next hne =>
        refine ih hne ?_ fun z hz => hoff z (List.mem_cons_of_mem _ hz)
        rw [← hread]
        exact hl

/-- The remote frees move to the local list in both memories. -/
theorem pageCollectRemote_agree (hm : AgreeOff D m m₀) {rem : List Nat}
    (hl : Linked (link m₀) (ptr (taggedPtr p.remoteFree)) rem) (hoff : ∀ z ∈ rem, WordOff D z) :
    Both (fun x x₀ => x₀.2 = x.2 ∧ AgreeOff D x.1 x₀.1 ∧
        (x.2.localFree = p.localFree ∨ x.2.localFree ∈ rem))
      (pageCollectRemote m p) (pageCollectRemote m₀ p) := by
  unfold pageCollectRemote treiberCollect
  by_cases h0 : taggedPtr p.remoteFree = 0
  · simp only [if_pos h0]
    exact ⟨rfl, hm, Or.inl rfl⟩
  · simp only [if_neg h0, walkTail_agree hm h0 hl hoff]
    cases walkTail m₀ p.capacity (taggedPtr p.remoteFree) 0 with
    | none => rfl
    | some x =>
      refine ⟨rfl, hm.writeWord _ _, Or.inr ?_⟩
      cases rem with
      | nil => exact absurd (ptr_eq_none.mp hl) h0
      | cons z rem =>
        rw [(ptr_eq_some.mp hl.1).1]
        exact List.mem_cons_self ..

/-- The fast path, when the links of the page lie outside `D`. The bin only names the
cache entry that a full page leaves. -/
theorem Alike.cachedAlloc (h : Alike D s s₀) {x x₀ : Tld} (hx : x₀.bare = x.bare) {k : Nat}
    {loc rem busy : List Nat} (hs : Slots s₀.mem r (s.pages r) k loc rem busy)
    (hoff : ∀ z ∈ loc ++ rem, WordOff D z) (bin bin₀ : Nat) :
    Both (SameResult D) (cachedAlloc c s t x bin r) (cachedAlloc c s₀ t x₀ bin₀ r) := by
  have hpages : s₀.pages = s.pages := by
    obtain ⟨m, T, hm, hT⟩ := h
    rfl
  have hmem : AgreeOff D s.mem s₀.mem := by
    obtain ⟨m, T, hm, hT⟩ := h
    exact hm
  have htake : ∀ {s s₀ : State} (q : PageMeta) (slot : Nat) (z : Bool), Alike D s s₀ →
      Both (SameResult D)
        (CustomMalloc.takeSlot c s t x r q slot >>= fun s => .ok (some (slot, z), s))
        (CustomMalloc.takeSlot c s₀ t x₀ r q slot >>= fun s => .ok (some (slot, z), s)) := by
    intro s s₀ q slot z h
    exact both_bind (h.takeSlot hx r q slot) fun s' s₀' hs' => ⟨rfl, hs'⟩
  have hpop : ∀ {m m₀ : Mem} {q : PageMeta}, AgreeOff D m m₀ → WordOff D q.localFree →
      popLocalFree m₀ q = popLocalFree m q := by
    intro m m₀ q hm hw
    unfold popLocalFree
    rw [hm.readWord hw]
  unfold CustomMalloc.cachedAlloc
  rw [hpages]
  simp only
  split
  next hloc =>
    have hword : WordOff D (s.pages r).localFree := by
      have hl := hs.local_linked
      cases loc with
      | nil => exact absurd (ptr_eq_none.mp hl) hloc
      | cons z loc =>
        rw [(ptr_eq_some.mp hl.1).1]
        exact hoff z (List.mem_append_left _ (List.mem_cons_self ..))
    rw [hpop hmem hword]
    exact htake _ _ _ h
  next hloc =>
  split
  next => exact htake _ _ _ h
  next =>
    refine both_bind (pageCollectRemote_agree hmem hs.remote_linked
      fun z hz => hoff z (List.mem_append_right _ hz)) ?_
    intro y y₀ hy
    obtain ⟨m', p'⟩ := y
    obtain ⟨m₀', p₀'⟩ := y₀
    obtain ⟨hp, hm', hfree⟩ := hy
    obtain rfl : p₀' = p' := hp
    have h' : Alike D { s.setPage r p₀' with mem := m' } { s₀.setPage r p₀' with mem := m₀' } :=
      (h.setPage r p₀').setMem hm'
    simp only
    split
    next hne =>
      have hword : WordOff D p₀'.localFree := by
        rcases hfree with hsame | hrem
        · exact absurd (hsame.trans (Classical.not_not.mp hloc)) hne
        · exact hoff _ (List.mem_append_right _ hrem)
      rw [hpop hm' hword]
      exact htake _ _ _ h'
    next =>
      obtain ⟨f, rfl⟩ := Tld.eq_of_bare hx
      exact ⟨rfl, h'.setTld rfl⟩

/-! ## Large blocks and frees -/

theorem Alike.linkLarge (h : Alike D s s₀) (la : LargeAlloc) :
    Alike D (linkLarge s la) (linkLarge s₀ la) := by
  obtain ⟨m, T, hm, hT⟩ := h
  unfold CustomMalloc.linkLarge
  simp only
  split
  next => exact .mk m T hm hT
  next => exact .mk m T hm hT

theorem Alike.largeAlloc (h : Alike D s s₀) (n : Nat) :
    Both (SameResult D) (largeAlloc c s n) (largeAlloc c s₀ n) := by
  unfold CustomMalloc.largeAlloc largeAllocAligned
  simp only [if_neg (Nat.lt_irrefl minAlign)]
  obtain ⟨h₁, h₂⟩ := h.osMmapAligned (c := c) (largeTotal c n minAlign)
    (if minAlign < c.osPage then c.osPage else minAlign)
  generalize CustomMalloc.osMmapAligned c s _ _ = x at h₁ h₂
  generalize CustomMalloc.osMmapAligned c s₀ _ _ = x₀ at h₁ h₂
  obtain ⟨b, s₁⟩ := x
  obtain ⟨b₀, s₂⟩ := x₀
  obtain rfl : b₀ = b := h₁
  have hmapped : headerMapped s₂ b₀ = headerMapped s₁ b₀ := by
    obtain ⟨m, T, hm, hT⟩ := h₂
    rfl
  simp only [hmapped]
  split
  next => exact ⟨rfl, h₂⟩
  split
  case isFalse => rfl
  next =>
    have h₃ := h₂.linkLarge ⟨b₀, largeTotal c n minAlign, n, none, none⟩
    simp only at h₃
    generalize CustomMalloc.linkLarge s₁ _ = s₃ at h₃
    generalize CustomMalloc.linkLarge s₂ _ = s₄ at h₃
    obtain ⟨m, T, hm, hT⟩ := h₃
    exact ⟨rfl, .mk m T hm hT⟩

theorem Alike.slabFree (h : Alike D s s₀) (x : Nat) :
    Both (Alike D) (slabFree c s t x) (slabFree c s₀ t x) := by
  have hsame : ptrToSegment s₀ x = ptrToSegment s x ∧ ptrToPage s₀ x = ptrToPage s x ∧
      s₀.pages = s.pages := by
    obtain ⟨m, T, hm, hT⟩ := h
    exact ⟨rfl, rfl, rfl⟩
  unfold CustomMalloc.slabFree
  rw [hsame.1, hsame.2.1, hsame.2.2]
  split
  next => exact h
  next =>
  split
  next => exact h
  next =>
  split
  next => exact h
  next r _ =>
  split
  next => exact h
  next =>
    cases markFreed c (s.pages r) x with
    | error e => rfl
    | ok p =>
      obtain ⟨h₁, h₂⟩ := (h.setPage r p).tldGet (c := c) t
      have hremote : ∀ {s₁ s₂ : State}, Alike D s₁ s₂ →
          Alike D (freeRemote s₁ r p x) (freeRemote s₂ r p x) := by
        intro s₁ s₂ h
        obtain ⟨m, T, hm, hT⟩ := h
        exact .mk _ T (hm.writeWord _ _) hT
      simp only [bind, Except.bind]
      generalize CustomMalloc.tldGet c (s.setPage r p) t = y at h₁ h₂
      generalize CustomMalloc.tldGet c (s₀.setPage r p) t = y₀ at h₁ h₂
      obtain ⟨o, s₁⟩ := y
      obtain ⟨o₀, s₂⟩ := y₀
      cases o with
      | none =>
        cases o₀ with
        | none => exact hremote h₂
        | some x₀ => cases h₁
      | some z =>
        cases o₀ with
        | none => cases h₁
        | some z₀ =>
          obtain ⟨f, rfl⟩ := Tld.eq_of_bare (Option.some.inj h₁)
          simp only
          split
          next =>
            unfold freeLocal tldStatFree
            refine Alike.tldStatStore ?_ rfl
            obtain ⟨m, T, hm, hT⟩ := h₂
            exact .mk _ T (hm.writeWord _ _) hT
          next => exact hremote h₂

end CustomMalloc

import CustomMalloc.Inv.Update

/-!
# Threads

`tldGet` creates the calling thread's data on first use and `arenaGet` attaches
the thread to an arena. Neither touches the heap: pages, segments and large
mappings stay what they were (`SameMeta`), and so do all blocks.
-/

namespace CustomMalloc

open Lib.Words Lib.Bytes Lib.Chain Lib.Intervals Lib.Regions Lib.Post

variable {c : Cfg} {s s' : State} {G G' : Ghost}

/-- `s'` is `s` with more memory mapped and a thread's data created. -/
def TldExt (s s' : State) : Prop :=
  ∃ ans mp m b tls tc, s' = { s with
    answers := ans, mapped := mp, mem := m, mmapBytes := b, tls := tls, threadIdCounter := tc }

theorem TldExt.same (h : TldExt s s') : SameMeta s s' := by
  obtain ⟨_, _, _, _, _, _, rfl⟩ := h
  exact ⟨rfl, rfl, rfl, rfl⟩

/-- A thread without data still has none, or has fresh data. -/
def FreshTld (s : State) (t : Nat) (s' : State) : Prop :=
  (s'.tls t = none ∧ s'.threadIdCounter = s.threadIdCounter) ∨
    ∃ x, s'.tls t = some x ∧ x.threadId = s.threadIdCounter ∧ x.binPage = fun _ => none

/-- No thread's data changed. -/
structure SameThreads (s s' : State) : Prop where
  tls : s'.tls = s.tls
  counter : s'.threadIdCounter = s.threadIdCounter

theorem SameThreads.trans {s₁ s₂ s₃ : State} (h : SameThreads s₁ s₂) (h' : SameThreads s₂ s₃) :
    SameThreads s₁ s₃ := ⟨h'.tls.trans h.tls, h'.counter.trans h.counter⟩

theorem FreshTld.before {s₁ s₂ : State} {t : Nat} (h : FreshTld s t s₁) (hs : SameThreads s₁ s₂) :
    FreshTld s t s₂ := by
  unfold FreshTld
  rw [hs.tls, hs.counter]
  exact h

theorem OsExt.sameThreads (h : OsExt s s') : SameThreads s s' := by
  obtain ⟨_, _, _, _, rfl, -⟩ := h
  exact ⟨rfl, rfl⟩

/-- What `tld_get` returns is the thread's data from now on; fresh data has an
empty cache and no arena. -/
structure TldPost (c : Cfg) (s : State) (G : Ghost) (t : Nat) (o : Option Tld) (s' : State) :
    Prop where
  ext : TldExt s s'
  inv : Inv c s' G
  keeps : Keeps s G s' G fun _ => True
  got : s'.tls t = o
  old : ∀ {tld}, s.tls t = some tld → s' = s
  fresh : s.tls t = none → ∀ tld, o = some tld →
    tld.binPage = (fun _ => none) ∧ tld.arena = none ∧ tld.statOps = 0 ∧
      tld.threadId = s.threadIdCounter ∧ s'.threadIdCounter = (s.threadIdCounter + 1) % 2 ^ 32
  others : ∀ t', t' ≠ t → s'.tls t' = s.tls t'
  freshTld : s.tls t = none → FreshTld s t s'

theorem OsExt.tldExt (h : OsExt s s') : TldExt s s' := by
  obtain ⟨ans, mp, m, b, rfl, -⟩ := h
  exact ⟨ans, mp, m, b, s.tls, s.threadIdCounter, rfl⟩

/-- A fresh `tld_t` in a mapping of its own. -/
theorem Inv.newTld (h : Inv c s G) (t : Nat) (tld : Tld) (hos : OsExt s s')
    (hfresh : FreshRegion s s' tld.addr c.osPage) (hcache : tld.binPage = fun _ => none)
    (tc : Nat) :
    Inv c { s' with tls := upd s'.tls t (some tld), threadIdCounter := tc } G := by
  have h' := h.osExt hos
  have hregions := hos.layout hfresh h.regions fun _ _ => Region.of_newTld (t := t)
  obtain ⟨ans, mp, m, b, rfl, -⟩ := hos
  refine { h' with regions := hregions, tlds := fun t' y hy b r hr => ?_ }
  by_cases htt : t' = t
  · subst htt
    cases (upd_same ..).symm.trans hy
    rw [hcache] at hr
    cases hr
  · exact h.tlds t' y ((upd_ne htt).symm.trans hy) b r hr

theorem tldGet_spec (h : Inv c s G) {t : Nat} {o : Option Tld} (he : tldGet c s t = (o, s')) :
    TldPost c s G t o s' := by
  unfold tldGet at he
  split at he
  next tld ht =>
    cases he
    exact ⟨(OsExt.refl s).tldExt, h, Keeps.refl, ht, fun _ => rfl,
      fun hn => absurd (hn.symm.trans ht) (by simp), fun _ _ => rfl,
      fun hn => absurd (hn.symm.trans ht) (by simp)⟩
  next hn =>
    split at he
    next addr s₁ hm =>
    obtain ⟨hos, hnew⟩ := osMmapAligned_spec (k := c.pageShift) (by have := c.pageShift_lt; omega)
      (fun hlt => absurd hlt (Nat.lt_irrefl _)) hm
    split at he
    next h0 =>
      obtain ⟨rfl, rfl⟩ := Prod.mk.inj he
      have htls : s₁.tls = s.tls := by
        obtain ⟨_, _, _, _, rfl, -⟩ := hos
        rfl
      exact ⟨hos.tldExt, h.osExt hos, h.osExt_keeps hos _, by rw [htls, hn],
        fun ht => absurd (hn.symm.trans ht) (by simp), fun _ _ ho => absurd ho (by simp),
        fun t' _ => by rw [htls], fun hn => Or.inl ⟨by rw [htls, hn], hos.sameThreads.counter⟩⟩
    next h0 =>
      cases he
      have hkeep := h.osExt_keeps hos fun _ => True
      have hinv := h.newTld t { addr := addr, threadId := s₁.threadIdCounter } hos
        (hnew h0).1 rfl ((s₁.threadIdCounter + 1) % 2 ^ 32)
      refine ⟨?_, hinv, ?_, upd_same .., fun ht => absurd (hn.symm.trans ht) (by simp), ?_, ?_,
        fun _ => Or.inr ⟨_, upd_same .., hos.sameThreads.counter, rfl⟩⟩
      · obtain ⟨ans, mp, m, b, rfl, -⟩ := hos
        exact ⟨ans, mp, m, b, _, _, rfl⟩
      · exact hkeep.same ⟨rfl, rfl, rfl, rfl⟩ rfl
      · obtain ⟨ans, mp, m, b, rfl, -⟩ := hos
        intro _ tld ho
        cases ho
        exact ⟨rfl, rfl, rfl, rfl, rfl⟩
      · obtain ⟨ans, mp, m, b, rfl, -⟩ := hos
        exact fun t' htt => upd_ne htt

/-- `arena_get` leaves the heap alone and attaches the thread. -/
structure AttachPost (c : Cfg) (s : State) (G : Ghost) (t a : Nat) (s' : State) : Prop where
  same : SameMeta s s'
  inv : Inv c s' G
  keeps : Keeps s G s' G fun _ => True
  tls : ∀ {x}, s'.tls t = some x → x.arena = some a ∧
    ((∃ old, s.tls t = some old ∧ x = { old with arena := some a }) ∨
      (s.tls t = none ∧ x.binPage = fun _ => none))
  stays : ∀ {x}, s.tls t = some x → (s'.tls t).isSome
  freshTld : s.tls t = none → FreshTld s t s'
  arena : ∀ {x b}, s.tls t = some x → x.arena = some b → a = b

/-- Where `arena_get` stops: the arena counter has wrapped. -/
def Wrapped (s : State) (e : Halt) : Prop := e = .undefined ∧ s.arenaNext < 0

theorem arenaGet_spec (h : Inv c s G) (t : Nat) :
    Ensures (Wrapped s) (arenaGet c s t) fun (a, s') => AttachPost c s G t a s' := by
  unfold arenaGet
  split
  next o s₁ he =>
  have hp := tldGet_spec h he
  split
  next a ha =>
    obtain ⟨x, rfl, hx⟩ := Option.bind_eq_some_iff.mp ha
    refine ⟨hp.ext.same, hp.inv, hp.keeps, fun {y} hy => ?_, fun _ => by rw [hp.got]; rfl,
      hp.freshTld, fun {y b} hy hb => ?_⟩
    · cases hp.got.symm.trans hy
      refine ⟨hx, ?_⟩
      cases hs : s.tls t with
      | none => cases (hp.fresh hs x rfl).2.1.symm.trans hx
      | some old =>
        obtain rfl := hp.old hs
        cases hs.symm.trans hp.got
        exact Or.inl ⟨_, rfl, by rw [← hx]⟩
    · obtain rfl := hp.old hy
      cases hy.symm.trans hp.got
      exact Option.some.inj (hx.symm.trans hb)
  next ha =>
    have hnot : ∀ {x b}, s.tls t = some x → x.arena = some b → False := by
      intro x b hx hb
      obtain rfl := hp.old hx
      rw [← hp.got, hx] at ha
      cases ha.symm.trans hb
    simp only
    split
    next hneg =>
      have hnext : s₁.arenaNext = s.arenaNext := by
        obtain ⟨_, _, _, _, _, _, rfl⟩ := hp.ext
        rfl
      refine ⟨rfl, ?_⟩
      rw [hnext] at hneg
      by_contra hc
      exact absurd hneg (Int.not_lt.mpr (Int.tmod_nonneg _ (Int.not_lt.mp hc)))
    next hpos =>
      generalize (s₁.arenaNext.tmod numArenas).toNat = i
      have h₁ : Inv c { s₁ with arenaNext := wrapInt (s₁.arenaNext + 1) } G := { hp.inv with }
      have h₂ := h₁.setArena (a := i)
        (x := { s₁.arenas i with threadCount := wrapInt ((s₁.arenas i).threadCount + 1) }) rfl
          rfl rfl
      split
      next x =>
        have h₃ := h₂.setTld (t := t) (x := { x with arena := some i }) hp.got rfl
          fun b r hr => by
            obtain ⟨hd, hact, hb, -⟩ := h₂.tlds t x hp.got b r hr
            exact ⟨hd, hact, hb, rfl⟩
        refine ⟨⟨hp.ext.same.segs, hp.ext.same.pages, hp.ext.same.registry, hp.ext.same.larges⟩, h₃,
          hp.keeps.same ⟨rfl, rfl, rfl, rfl⟩ rfl,
          fun {y} hy => ?_, fun _ => by simp [State.setTld], fun hn => ?_,
          fun hx hb => (hnot hx hb).elim⟩
        · cases (upd_same ..).symm.trans hy
          refine ⟨rfl, ?_⟩
          cases hs : s.tls t with
          | none => exact Or.inr ⟨rfl, (hp.fresh hs x rfl).1⟩
          | some old =>
            obtain rfl := hp.old hs
            cases hs.symm.trans hp.got
            exact Or.inl ⟨_, rfl, rfl⟩
        · rcases hp.freshTld hn with ⟨hnone, -⟩ | ⟨y, hy, htid, hcache⟩
          · cases hp.got.symm.trans hnone
          · cases hp.got.symm.trans hy
            exact Or.inr ⟨_, upd_same .., htid, hcache⟩
      next =>
        have hnone : s₁.tls t = none := hp.got
        refine ⟨⟨hp.ext.same.segs, hp.ext.same.pages, hp.ext.same.registry, hp.ext.same.larges⟩, h₂,
          hp.keeps.same ⟨rfl, rfl, rfl, rfl⟩ rfl, fun {y} hy =>
            absurd (hnone.symm.trans hy) (by simp),
          fun {y} hy => ?_, hp.freshTld, fun hx hb => (hnot hx hb).elim⟩
        obtain rfl := hp.old hy
        cases hnone.symm.trans hy

/-! ## Exits -/

/-- The state after the final flush of thread `t`, before its memory goes away. -/
def exited (s : State) (t : Nat) (x : Tld) : State :=
  let s : State := match x.arena with
    | some a => s.setArena a { s.arenas a with
        allocated := ((s.arenas a).allocated + x.statAllocated) % 2 ^ 64
        freed := ((s.arenas a).freed + x.statFreed) % 2 ^ 64
        allocCount := ((s.arenas a).allocCount + x.statAllocCount) % 2 ^ 64
        freeCount := ((s.arenas a).freeCount + x.statFreeCount) % 2 ^ 64
        threadCount := wrapInt ((s.arenas a).threadCount - 1) }
    | none => s
  { s with tls := upd s.tls t none }

theorem exited_frame (s : State) (t : Nat) (x : Tld) :
    SameMeta s (exited s t x) ∧ (exited s t x).tls = upd s.tls t none ∧
      (exited s t x).threadIdCounter = s.threadIdCounter ∧ (exited s t x).mem = s.mem ∧
      (exited s t x).mapped = s.mapped := by
  unfold exited
  cases x.arena <;> exact ⟨⟨rfl, rfl, rfl, rfl⟩, rfl, rfl, rfl, rfl⟩

theorem tldCleanup_none {t : Nat} (hx : s.tls t = none) : tldCleanup c s t = s := by
  unfold tldCleanup
  rw [hx]

/-- `tld_cleanup` of a thread that has data: the flush, and its page goes unless it lies in
the bootstrap buffer. -/
theorem tldCleanup_eq {t : Nat} {x : Tld} (hx : s.tls t = some x) : tldCleanup c s t =
    if c.bootstrapBuf ≤ x.addr ∧ x.addr < c.bootstrapBuf + bootstrapBufSize then exited s t x
    else osMunmap c (exited s t x) x.addr c.osPage := by
  unfold tldCleanup
  rw [hx]
  rfl

theorem tldCleanup_cases {t : Nat} {x : Tld} (hx : s.tls t = some x) :
    tldCleanup c s t = exited s t x ∨
    ∃ b, tldCleanup c s t =
      { exited s t x with mapped := unmapRange c s.mapped x.addr c.osPage, mmapBytes := b } := by
  rw [tldCleanup_eq hx]
  split
  next => exact Or.inl rfl
  next =>
    unfold osMunmap munmap
    split
    next =>
      rw [← (exited_frame s t x).2.2.2.2]
      exact Or.inr ⟨_, rfl⟩
    next => exact Or.inl rfl

/-- `tld_cleanup` takes the thread's data away and leaves every page as it is. -/
theorem tldCleanup_frame (c : Cfg) (s : State) (t : Nat) :
    SameMeta s (tldCleanup c s t) ∧ (tldCleanup c s t).tls = upd s.tls t none ∧
      (tldCleanup c s t).threadIdCounter = s.threadIdCounter ∧ (tldCleanup c s t).mem = s.mem := by
  cases hx : s.tls t with
  | none =>
    rw [tldCleanup_none hx]
    exact ⟨⟨rfl, rfl, rfl, rfl⟩, by rw [← hx, upd_eta], rfl, rfl⟩
  | some x =>
    obtain ⟨hsame, htls, hc, hm, -⟩ := exited_frame s t x
    rcases tldCleanup_cases (c := c) hx with heq | ⟨b, heq⟩
    · rw [heq]
      exact ⟨hsame, htls, hc, hm⟩
    · rw [heq]
      exact ⟨⟨hsame.segs, hsame.pages, hsame.registry, hsame.larges⟩, htls, hc, hm⟩

/-- The regions that are left are old ones, and none is the thread's. -/
theorem region_exited {t : Nat} {x : Tld} {ρ : Region} {y : Nat}
    (hy : Region.Has c (exited s t x).segs (exited s t x).larges (exited s t x).tls ρ y) :
    Region.Has c s.segs s.larges s.tls ρ y ∧ ρ ≠ .tld t := by
  obtain ⟨hsame, htls, -⟩ := exited_frame s t x
  rw [hsame.segs, hsame.larges, htls] at hy
  exact Region.of_noTld hy

theorem Inv.exit (h : Inv c s G) (t : Nat) (x : Tld) : Inv c (exited s t x) G := by
  have htlds : ∀ {s : State}, Inv c s G → TldsOk s.segs s.pages (upd s.tls t none) := by
    intro s h t' tld ht
    by_cases htt : t' = t
    · rw [htt, upd_same] at ht
      cases ht
    · exact h.tlds t' tld ((upd_ne htt).symm.trans ht)
  have hregions : Layout (Covers (exited s t x).mapped)
      (Region.Has c (exited s t x).segs (exited s t x).larges (exited s t x).tls) :=
    h.regions.mono (fun ρ y hy => (region_exited hy).1) fun y hy => by
      rw [(exited_frame s t x).2.2.2.2]
      exact hy
  revert hregions
  unfold exited
  cases x.arena with
  | none => exact fun hregions => { h with regions := hregions, tlds := htlds h }
  | some a =>
    have ha := h.setArena (a := a) (x := { s.arenas a with
      allocated := ((s.arenas a).allocated + x.statAllocated) % 2 ^ 64
      freed := ((s.arenas a).freed + x.statFreed) % 2 ^ 64
      allocCount := ((s.arenas a).allocCount + x.statAllocCount) % 2 ^ 64
      freeCount := ((s.arenas a).freeCount + x.statFreeCount) % 2 ^ 64
      threadCount := wrapInt ((s.arenas a).threadCount - 1) }) rfl rfl rfl
    exact fun hregions => { ha with regions := hregions, tlds := htlds ha }

/-- A thread may exit: its own memory is all that goes away. -/
theorem Inv.cleanup (h : Inv c s G) (t : Nat) : Inv c (tldCleanup c s t) G := by
  cases hx : s.tls t with
  | none =>
    rw [tldCleanup_none hx]
    exact h
  | some x =>
    have he := h.exit t x
    rcases tldCleanup_cases (c := c) hx with heq | ⟨b, heq⟩
    · rw [heq]
      exact he
    · rw [heq]
      have hregions := layout_unmapRange h.regions (Nat.dvd_refl c.osPage)
        (fun _ _ => region_exited (x := x)) fun y hy => ⟨x, hx, hy⟩
      exact { he with regions := hregions }

end CustomMalloc

import CustomMalloc.Inv.Paths
import CustomMalloc.Run

/-!
# Large requests are backed or refused

`large_alloc_aligned` adds the header space to the size, rounds the sum up to
pages, and `os_mmap_aligned` adds the alignment. None of the three sums is
checked. A request for which a sum wraps is served properly only if the length
that results is one that `mmap` has to refuse; for all others there is a heap and a
kernel with which the call faults at its header, returns a block that is larger than
its mapping, or returns null and leaves a header in the list. `Caught` is the exact
dividing line.
-/

namespace CustomMalloc

open Lib.Words Lib.Bytes Lib.Chain Lib.Intervals Lib.Post

variable {c : Cfg} {s s' : State} {n k : Nat}

/-- `[q, q + n)` lies inside a mapping with a header, all of which was obtained during
the call. -/
def Backed (s s' : State) (n q : Nat) : Prop :=
  ∃ b la, s'.larges b = some la ∧ la.userSize = n ∧ b ≤ q ∧ q + n ≤ b + la.size ∧
    ∀ x, b ≤ x → x < b + la.size → Covers s'.mapped x ∧ ¬ Covers s.mapped x

/-- Null, and no header was created. -/
def Refused (s s' : State) (q : Nat) : Prop :=
  q = 0 ∧ s'.larges = s.larges ∧ s'.largeList = s.largeList

/-- Whatever the heap is and the kernel answers, the call returns, and what it returns is
backed or a refusal. -/
def AlwaysBacked (c : Cfg) (n alignment : Nat) : Prop :=
  ∀ s, ∃ q s', largeAllocAligned c s n alignment = .ok (q, s') ∧
    (Refused s s' q ∨ q ≠ 0 ∧ Backed s s' n q)

/-- The length that reaches `mmap`. -/
def mapLen (c : Cfg) (size alignment : Nat) : Nat :=
  if alignment ≤ c.osPage then size else (size + alignment - 1) % 2 ^ 64

/-- Nothing of this length can be mapped, except at address 0. -/
def Unmappable (c : Cfg) (len : Nat) : Prop := len = 0 ∨ 2 ^ 64 ≤ c.osPage + roundPage c len

/-- No sum wraps, or `mmap` has to refuse what comes of it. -/
def Caught (c : Cfg) (n alignment : Nat) : Prop :=
  LargeFits c n alignment ∨
    Unmappable c (mapLen c (largeTotal c n (raisedAlign alignment)) (raisedAlign alignment))

/-! ## What the call does with a mapping -/

/-- The alignment `large_alloc_aligned` asks of the OS layer. -/
def mapAlign (c : Cfg) (k : Nat) : Nat := 2 ^ max (max k 4) c.pageShift

theorem headerSpace_eq (hk : k ≤ 63) :
    headerSpace (raisedAlign (2 ^ k)) = alignUp (raisedAlign (2 ^ k)) 48 := by
  rw [raisedAlign_pow]
  have hpow : 2 ^ max k 4 ≤ 2 ^ 63 := Nat.pow_le_pow_right (by decide) (by omega)
  exact alignUp64_eq (by omega) (by simp only [largeHeaderSize]; omega)

theorem linkLarge_at (s : State) (la : LargeAlloc) :
    ∃ la', (linkLarge s la).larges la.base = some la' ∧ la'.size = la.size ∧
      la'.userSize = la.userSize := by
  unfold linkLarge
  simp only
  split
  next h _ =>
    by_cases hb : la.base = h
    · subst hb
      simp only [upd_same, Option.map_some]
      exact ⟨_, rfl, rfl, rfl⟩
    · simp only [upd_ne hb, upd_same]
      exact ⟨_, rfl, rfl, rfl⟩
  next =>
    simp only [upd_same]
    exact ⟨_, rfl, rfl, rfl⟩

theorem linkLarge_mapped (s : State) (la : LargeAlloc) : (linkLarge s la).mapped = s.mapped := by
  unfold linkLarge
  simp only
  split <;> rfl

/-- No mapping, or one at address 0. -/
theorem largeAllocAligned_null {s₁ : State}
    (hm : osMmapAligned c s (largeTotal c n (raisedAlign (2 ^ k))) (mapAlign c k) = (0, s₁)) :
    largeAllocAligned c s n (2 ^ k) = .ok (0, s₁) := by
  unfold largeAllocAligned
  simp only [show (if 2 ^ k < minAlign then minAlign else 2 ^ k) = raisedAlign (2 ^ k) from rfl]
  rw [mapAlign_pow, show 2 ^ max (max k 4) c.pageShift = mapAlign c k from rfl, hm]
  exact if_pos rfl

/-- The result in terms of the mapping. -/
theorem largeAllocAligned_at (hk : k ≤ 63) {base q : Nat} {s₁ : State}
    (hm : osMmapAligned c s (largeTotal c n (raisedAlign (2 ^ k))) (mapAlign c k) = (base, s₁))
    (h0 : base ≠ 0) (he : largeAllocAligned c s n (2 ^ k) = .ok (q, s')) :
    q = (base + alignUp (raisedAlign (2 ^ k)) 48) % 2 ^ 64 ∧ s'.mapped = s₁.mapped ∧
      (∃ la, s'.larges base = some la ∧ la.userSize = n ∧
        la.size = largeTotal c n (raisedAlign (2 ^ k))) ∧
      (s₁.largeList = none → ∀ b, b ≠ base → s'.larges b = s₁.larges b) := by
  unfold largeAllocAligned at he
  simp only [show (if 2 ^ k < minAlign then minAlign else 2 ^ k) =
    raisedAlign (2 ^ k) from rfl] at he
  rw [mapAlign_pow, show 2 ^ max (max k 4) c.pageShift = mapAlign c k from rfl, hm,
    headerSpace_eq hk] at he
  simp only [if_neg h0] at he
  split at he
  case isFalse => cases he
  cases he
  refine ⟨rfl, linkLarge_mapped _ _, ?_, fun hlist b hb => ?_⟩
  · obtain ⟨la, hla, hsz, hu⟩ := linkLarge_at s₁
      { base := base, size := largeTotal c n (raisedAlign (2 ^ k)), userSize := n, next := none,
        prev := none }
    exact ⟨la, hla, hu, hsz⟩
  · simp only [linkLarge, hlist, upd_ne hb]

/-! ## Requests that are caught -/

/-- When no sum wraps, the mapping is as large as it should be. -/
theorem backed_of_fits (hk : k ≤ 63) (hfit : LargeFits c n (2 ^ k)) : AlwaysBacked c n (2 ^ k) := by
  intro s
  obtain ⟨q, s', he, ⟨rfl, hos⟩ | ⟨base, s₁, h0, -, hf, -, -, rfl, rfl⟩⟩ :=
    largeAllocAligned_returns s hk hfit
  · obtain ⟨_, _, _, _, rfl, -⟩ := hos
    exact ⟨0, _, he, Or.inl ⟨rfl, rfl, rfl⟩⟩
  · obtain ⟨la, hla, hsz, hu⟩ := linkLarge_at s₁ (newHeader c base n (2 ^ k))
    have hle : alignUp (raisedAlign (2 ^ k)) 48 + n ≤ (newHeader c base n (2 ^ k)).size :=
      le_alignUp c.osPage_pos _
    refine ⟨_, _, he, Or.inr ⟨by omega, base, la, hla, hu, by omega, by omega, fun x h₁ h₂ => ?_⟩⟩
    rw [hsz] at h₂
    rw [show (linkedLarge s₁ (newHeader c base n (2 ^ k))).mapped = s₁.mapped from
      linkLarge_mapped _ _]
    exact ⟨hf.mapped x h₁ h₂, hf.fresh x h₁ h₂⟩

/-- The kernel grants such a length only at address 0. -/
theorem mmap_unmappable {len a : Nat} (h : Unmappable c len) {s₁ : State}
    (hm : mmap c s len = (some a, s₁)) : a = 0 := by
  rcases mmap_cases c s len with ⟨rest, he⟩ | ⟨b, rest, he, hpos, hal, hfit, -⟩
  · cases hm.symm.trans he
  · obtain rfl : a = b := Option.some.inj (Prod.mk.inj (hm.symm.trans he)).1
    by_contra h0
    have hle := Nat.le_of_dvd (Nat.pos_of_ne_zero h0) (Nat.dvd_of_mod_eq_zero hal)
    rcases h with h | h <;> omega

/-- The OS layer returns null, also for a mapping at address 0. -/
theorem osMmapAligned_unmappable {size j : Nat} (hj : j ≤ 63)
    (h : Unmappable c (mapLen c size (2 ^ j))) : (osMmapAligned c s size (2 ^ j)).1 = 0 := by
  unfold osMmapAligned
  unfold mapLen at h
  split at h
  next hle =>
    rw [if_pos hle]
    split
    next => rfl
    next hm => exact mmap_unmappable h hm
  next hle =>
    rw [if_neg hle]
    simp only
    split
    next => rfl
    next hm =>
      obtain rfl := mmap_unmappable h hm
      have hpow : 2 ^ j ≤ 2 ^ 63 := Nat.pow_le_pow_right (by decide) hj
      show alignUp64 (2 ^ j) 0 = 0
      rw [alignUp64_eq (by omega) (by omega)]
      exact alignUp_of_dvd (Nat.two_pow_pos j) (Nat.dvd_zero _)

theorem mapAlign_of_le (h : raisedAlign (2 ^ k) ≤ c.osPage) : mapAlign c k = c.osPage := by
  rw [mapAlign, ← mapAlign_pow]
  split
  next => rfl
  next hge => omega

theorem mapAlign_of_gt (h : c.osPage < raisedAlign (2 ^ k)) :
    mapAlign c k = raisedAlign (2 ^ k) := by
  rw [mapAlign, ← mapAlign_pow]
  exact if_neg (by omega)

theorem mapLen_mapAlign (c : Cfg) (k size : Nat) :
    mapLen c size (mapAlign c k) = mapLen c size (raisedAlign (2 ^ k)) := by
  rcases Nat.lt_or_ge c.osPage (raisedAlign (2 ^ k)) with hgt | hle
  · rw [mapAlign_of_gt hgt]
  · rw [mapAlign_of_le hle, mapLen, mapLen, if_pos (Nat.le_refl _), if_pos hle]

/-- A length that cannot be mapped is a refusal. -/
theorem largeAllocAligned_unmappable (s : State) (hk : k ≤ 63)
    (h : Unmappable c (mapLen c (largeTotal c n (raisedAlign (2 ^ k))) (raisedAlign (2 ^ k)))) :
    ∃ s', largeAllocAligned c s n (2 ^ k) = .ok (0, s') ∧ Refused s s' 0 := by
  have hk' : max (max k 4) c.pageShift ≤ 63 := by
    have := c.pageShift_lt
    omega
  rw [← mapLen_mapAlign] at h
  have hnull := osMmapAligned_unmappable (s := s) hk' h
  obtain ⟨_, _, _, _, hform⟩ := osMmapAligned_form c s (largeTotal c n (raisedAlign (2 ^ k)))
    (mapAlign c k)
  refine ⟨_, largeAllocAligned_null (Prod.ext hnull hform), rfl, rfl, rfl⟩

theorem backed_of_caught (hk : k ≤ 63) (h : Caught c n (2 ^ k)) : AlwaysBacked c n (2 ^ k) := by
  rcases h with hfit | hlen
  · exact backed_of_fits hk hfit
  · intro s
    obtain ⟨s', he, hno⟩ := largeAllocAligned_unmappable s hk hlen
    exact ⟨0, s', he, Or.inl hno⟩

/-! ## Requests that are not -/

/-- The rounded total, when the rounding does not wrap. -/
theorem largeTotal_eq (hk : k ≤ 63)
    (h : alignUp (raisedAlign (2 ^ k)) 48 + n + c.osPage - 1 < 2 ^ 64) :
    largeTotal c n (raisedAlign (2 ^ k)) =
      alignUp c.osPage (alignUp (raisedAlign (2 ^ k)) 48 + n) := by
  have hP := c.osPage_pos
  unfold largeTotal
  rw [headerSpace_eq hk, Nat.mod_eq_of_lt (by omega)]
  unfold Cfg.osPage at h hP ⊢
  exact alignUp64_eq (by have := c.pageShift_lt; omega) (by omega)

/-- When only the rounding wraps, the total is 0. -/
theorem largeTotal_zero (hk : k ≤ 63) (h₁ : alignUp (raisedAlign (2 ^ k)) 48 + n ≤ 2 ^ 64)
    (h₂ : 2 ^ 64 ≤ alignUp (raisedAlign (2 ^ k)) 48 + n + c.osPage - 1) :
    largeTotal c n (raisedAlign (2 ^ k)) = 0 := by
  have hshift := c.pageShift_lt
  unfold largeTotal
  rw [headerSpace_eq hk]
  unfold Cfg.osPage at h₂ ⊢
  rcases Nat.lt_or_eq_of_le h₁ with hlt | heq
  · rw [Nat.mod_eq_of_lt hlt]
    exact alignUp64_wrap (by omega) hlt h₂
  · have hpow : 2 ^ c.pageShift ≤ 2 ^ 30 := Nat.pow_le_pow_right (by decide) (by omega)
    rw [heq, Nat.mod_self, alignUp64_eq (by omega) (by omega)]
    exact alignUp_of_dvd (Nat.two_pow_pos _) (Nat.dvd_zero _)

/-- An empty address space in which the kernel will answer `a`. -/
def emptyHeap (c : Cfg) (a : Nat) : State :=
  { State.initial c with mapped := [], answers := [some a] }

theorem mmap_emptyHeap {a len : Nat} (hlen : 0 < len) (ha : c.osPage ∣ a)
    (hfit : a + roundPage c len < 2 ^ 64) :
    ∃ s₁, mmap c (emptyHeap c a) len = (some a, s₁) ∧ s₁.mapped = [(a, a + roundPage c len)] ∧
      s₁.larges = (fun _ => none) ∧ s₁.largeList = none := by
  have hcan : canMap c (emptyHeap c a) a len = true := by
    unfold canMap
    rw [decide_eq_true hlen, decide_eq_true (Nat.mod_eq_zero_of_dvd ha), decide_eq_true hfit]
    rfl
  refine ⟨{ emptyHeap c a with
    answers := []
    mapped := [(a, a + roundPage c len)]
    mem := fillZero (emptyHeap c a).mem a (roundPage c len) }, ?_, rfl, rfl, rfl⟩
  unfold mmap
  simp only [show (emptyHeap c a).answers = [some a] from rfl, if_pos hcan]
  rfl

theorem covers_of_unmapRange {mp : List (Nat × Nat)} {a len x : Nat}
    (h : Covers (unmapRange c mp a len) x) : Covers mp x := by
  unfold unmapRange at h
  split at h
  next => exact (covers_remove.mp h).1
  next => exact h

/-- In the empty address space the mapping at `a` is trimmed to the base `M`. -/
theorem osMmapAligned_emptyHeap {size M a : Nat} (hP : c.osPage ∣ a) (hlen : 0 < mapLen c size M)
    (hfit : a + roundPage c (mapLen c size M) < 2 ^ 64) (ha : M ≤ c.osPage → a = M)
    (hup : alignUp64 M a = M) :
    ∃ s₁, osMmapAligned c (emptyHeap c a) size M = (M, s₁) ∧
      (∀ x, Covers s₁.mapped x → x < a + roundPage c (mapLen c size M)) ∧
      s₁.larges = (fun _ => none) ∧ s₁.largeList = none := by
  obtain ⟨s₁, hm, hmapped, hlarges, hlist⟩ := mmap_emptyHeap hlen hP hfit
  have hcov : ∀ x, Covers s₁.mapped x → x < a + roundPage c (mapLen c size M) := by
    rintro x ⟨iv, hiv, -, hx⟩
    rw [hmapped, List.mem_singleton] at hiv
    subst hiv
    exact hx
  unfold osMmapAligned
  by_cases hle : M ≤ c.osPage
  · rw [if_pos hle]
    rw [mapLen, if_pos hle] at hm
    obtain rfl := ha hle
    rw [hm]
    exact ⟨_, rfl, hcov, hlarges, hlist⟩
  · rw [if_neg hle]
    rw [mapLen, if_neg hle] at hm
    simp only [hm, munmap_guard, hup]
    exact ⟨_, rfl, fun x hx => hcov x (covers_of_unmapRange (covers_of_unmapRange hx)), hlarges,
      hlist⟩

/-- A request that gets a mapping it does not fit in. -/
theorem not_backed {M : Nat} (hk : k ≤ 62) (hmap : mapAlign c k = M) (hP : c.osPage ∣ M)
    (hlen : 0 < mapLen c (largeTotal c n (raisedAlign (2 ^ k))) M)
    (hfit : M + roundPage c (mapLen c (largeTotal c n (raisedAlign (2 ^ k))) M) < 2 ^ 64)
    (hptr : M + alignUp (raisedAlign (2 ^ k)) 48 < 2 ^ 64)
    (hbad : largeTotal c n (raisedAlign (2 ^ k)) < alignUp (raisedAlign (2 ^ k)) 48 + n ∨
      roundPage c (mapLen c (largeTotal c n (raisedAlign (2 ^ k))) M) <
        largeTotal c n (raisedAlign (2 ^ k))) : ¬ AlwaysBacked c n (2 ^ k) := by
  have hself : alignUp64 M M = M := by
    have := c.pageShift_lt
    have hpow : 2 ^ max (max k 4) c.pageShift ≤ 2 ^ 62 :=
      Nat.pow_le_pow_right (by decide) (by omega)
    rw [← hmap, mapAlign, alignUp64_eq (by omega) (by omega)]
    exact alignUp_of_dvd (Nat.two_pow_pos _) (Nat.dvd_refl _)
  have hpos : 0 < M := hmap ▸ Nat.two_pow_pos _
  intro hback
  obtain ⟨s₁, hm, hcov, hlarges, hlist⟩ := osMmapAligned_emptyHeap hP hlen hfit (fun _ => rfl) hself
  obtain ⟨q, s', he, hq⟩ := hback (emptyHeap c M)
  subst hmap
  obtain ⟨rfl, hmapped, ⟨la', hla', -, hsz⟩, hother⟩ :=
    largeAllocAligned_at (by omega) hm (Nat.ne_of_gt hpos) he
  rw [Nat.mod_eq_of_lt hptr] at hq
  rcases hq with ⟨h0, -⟩ | ⟨-, b, la, hla, -, -, hin, hall⟩
  · omega
  -- the only header is the new one
  have hb : b = mapAlign c k := by
    by_contra hne
    rw [hother hlist b hne, hlarges] at hla
    cases hla
  subst hb
  cases hla.symm.trans hla'
  rw [hsz] at hin hall
  rcases hbad with hbad | hbad
  · omega
  · have := (hall (mapAlign c k + (largeTotal c n (raisedAlign (2 ^ k)) - 1)) (by omega)
      (by omega)).1
    rw [hmapped] at this
    have := hcov _ this
    omega

/-- With alignment `2 ^ 63` the base is `2 ^ 63` and the pointer wraps to null, but the header
stays in the list. -/
theorem not_backed_top (hlen : ¬ Unmappable c (mapLen c (largeTotal c n (raisedAlign (2 ^ 63)))
    (raisedAlign (2 ^ 63)))) : ¬ AlwaysBacked c n (2 ^ 63) := by
  have hP := c.osPage_pos
  have hP' := c.osPage_le
  have hA : raisedAlign (2 ^ 63) = 2 ^ 63 := by decide
  have h48 : alignUp (2 ^ 63) 48 = 2 ^ 63 := by decide
  have hmap : mapAlign c 63 = 2 ^ 63 := by rw [mapAlign_of_gt (by omega), hA]
  have hroom : 0 < mapLen c (largeTotal c n (raisedAlign (2 ^ 63))) (2 ^ 63) ∧
      c.osPage + roundPage c (mapLen c (largeTotal c n (raisedAlign (2 ^ 63))) (2 ^ 63)) <
        2 ^ 64 := by
    rw [Unmappable, not_or] at hlen
    simp only [hA] at hlen ⊢
    omega
  have hup : alignUp64 (2 ^ 63) c.osPage = 2 ^ 63 := by
    rw [alignUp64_eq (by decide) (by omega)]
    refine Nat.le_antisymm (alignUp_le (by decide) (by omega) (Nat.dvd_refl _)) ?_
    exact Nat.le_of_dvd (alignUp_pos (by decide) hP) (dvd_alignUp _ _)
  intro hback
  obtain ⟨s₁, hm, -, -, -⟩ := osMmapAligned_emptyHeap (Nat.dvd_refl c.osPage) hroom.1 hroom.2
    (fun hle => absurd hle (by omega)) hup
  have hm' : osMmapAligned c (emptyHeap c c.osPage) (largeTotal c n (raisedAlign (2 ^ 63)))
      (mapAlign c 63) = (2 ^ 63, s₁) := by
    rw [hmap]
    exact hm
  obtain ⟨q, s', he, hq⟩ := hback (emptyHeap c c.osPage)
  obtain ⟨hptr, -, ⟨la, hla, -⟩, -⟩ := largeAllocAligned_at (by decide) hm' (by decide) he
  rcases hq with ⟨-, hlarges, -⟩ | ⟨hq, -⟩
  · rw [hlarges] at hla
    exact absurd hla (by simp [emptyHeap, State.initial])
  · rw [hA, h48] at hptr
    omega

/-- The total when the sum of header space and size itself wraps. -/
theorem largeTotal_wrapped {x : Nat} (hk : k ≤ 62)
    (h : alignUp (raisedAlign (2 ^ k)) 48 + n = 2 ^ 64 + x)
    (hx : x < alignUp (raisedAlign (2 ^ k)) 48) :
    largeTotal c n (raisedAlign (2 ^ k)) = alignUp c.osPage x := by
  have hP := c.osPage_le
  have hshift := c.pageShift_lt
  have hA : raisedAlign (2 ^ k) ≤ 2 ^ 62 := by
    rw [raisedAlign_pow]
    exact Nat.pow_le_pow_right (by decide) (by omega)
  have hApos : 0 < raisedAlign (2 ^ k) := by
    rw [raisedAlign_pow]
    exact Nat.two_pow_pos _
  have hlt := alignUp_lt hApos 48
  unfold largeTotal
  rw [headerSpace_eq (by omega), h, Nat.add_mod_left, Nat.mod_eq_of_lt (by omega)]
  unfold Cfg.osPage at hP ⊢
  exact alignUp64_eq (by omega) (by omega)

theorem not_backed_small (hn : n < 2 ^ 64) (hk : k ≤ 62) (hle : raisedAlign (2 ^ k) ≤ c.osPage)
    (hsum : 2 ^ 64 < alignUp (raisedAlign (2 ^ k)) 48 + n) : ¬ AlwaysBacked c n (2 ^ k) := by
  have hP := c.osPage_pos
  have hP' := c.osPage_le
  have hApos : 0 < raisedAlign (2 ^ k) := by
    rw [raisedAlign_pow]
    exact Nat.two_pow_pos _
  have hH := alignUp_lt hApos 48
  obtain ⟨x, hx⟩ := Nat.exists_eq_add_of_le (Nat.le_of_lt hsum)
  have htot := largeTotal_wrapped (c := c) hk hx (by omega)
  have hlt := alignUp_lt hP x
  have hpos := alignUp_pos hP (show 0 < x by omega)
  have hround : roundPage c (alignUp c.osPage x) = alignUp c.osPage x :=
    alignUp_of_dvd hP (dvd_alignUp _ _)
  have hlen : mapLen c (largeTotal c n (raisedAlign (2 ^ k))) c.osPage = alignUp c.osPage x := by
    rw [mapLen, if_pos (Nat.le_refl _), htot]
  refine not_backed hk (mapAlign_of_le hle) (Nat.dvd_refl _) ?_ ?_ (by omega) (Or.inl (by omega))
  · rw [hlen]
    exact hpos
  · rw [hlen, hround]
    omega

theorem not_backed_aligned (hn : n < 2 ^ 64) (hk : k ≤ 62) (hgt : c.osPage < raisedAlign (2 ^ k))
    (hsum : 2 ^ 64 < alignUp c.osPage (alignUp (raisedAlign (2 ^ k)) 48 + n) +
      raisedAlign (2 ^ k) - 1) : ¬ AlwaysBacked c n (2 ^ k) := by
  have hP := c.osPage_pos
  have hApow := raisedAlign_pow k
  have hA : raisedAlign (2 ^ k) ≤ 2 ^ 62 := by
    rw [hApow]
    exact Nat.pow_le_pow_right (by decide) (by omega)
  have hPA : c.osPage ∣ raisedAlign (2 ^ k) := by
    rw [hApow] at hgt ⊢
    exact osPage_dvd hgt
  have hApos : 0 < raisedAlign (2 ^ k) := by omega
  have hPH := Nat.dvd_trans hPA (dvd_alignUp (raisedAlign (2 ^ k)) 48)
  have hH := alignUp_lt hApos 48
  have hH' := le_alignUp hApos 48
  have hlen : mapLen c (largeTotal c n (raisedAlign (2 ^ k))) (raisedAlign (2 ^ k)) =
      (largeTotal c n (raisedAlign (2 ^ k)) + raisedAlign (2 ^ k) - 1) % 2 ^ 64 :=
    if_neg (Nat.not_le.mpr hgt)
  rcases Nat.lt_or_ge (2 ^ 64) (alignUp (raisedAlign (2 ^ k)) 48 + n) with hover | hunder
  · -- the first sum wraps: the mapping is at most the header space
    obtain ⟨x, hx⟩ := Nat.exists_eq_add_of_le (Nat.le_of_lt hover)
    have htot := largeTotal_wrapped (c := c) hk hx (by omega)
    have hle := alignUp_le hP (show x ≤ alignUp (raisedAlign (2 ^ k)) 48 by omega) hPH
    have hround := alignUp_le hP
      (show alignUp c.osPage x + raisedAlign (2 ^ k) - 1 ≤
        alignUp c.osPage x + raisedAlign (2 ^ k) by
        omega) (Nat.dvd_add (dvd_alignUp _ _) hPA)
    have hval : mapLen c (largeTotal c n (raisedAlign (2 ^ k))) (raisedAlign (2 ^ k)) =
        alignUp c.osPage x + raisedAlign (2 ^ k) - 1 := by
      rw [hlen, htot, Nat.mod_eq_of_lt (by omega)]
    refine not_backed hk (mapAlign_of_gt hgt) hPA (by omega) ?_ (by omega) (Or.inl (by omega))
    rw [hval]
    unfold roundPage
    omega
  rcases Nat.lt_or_ge (alignUp (raisedAlign (2 ^ k)) 48 + n + c.osPage - 1) (2 ^ 64)
    with hfit | hwrap
  · -- only the last sum wraps: the mapping is shorter than the total
    have htot := largeTotal_eq (c := c) (n := n) (show k ≤ 63 by omega) hfit
    have hlt := alignUp_lt hP (alignUp (raisedAlign (2 ^ k)) 48 + n)
    have hmod : (alignUp c.osPage (alignUp (raisedAlign (2 ^ k)) 48 + n) +
      raisedAlign (2 ^ k) - 1) %
        2 ^ 64 = alignUp c.osPage (alignUp (raisedAlign (2 ^ k)) 48 + n) + raisedAlign (2 ^ k) - 1 -
          2 ^ 64 := by
      rw [Nat.mod_eq_sub_mod (by omega), Nat.mod_eq_of_lt (by omega)]
    rw [htot, hmod, ← htot] at hlen
    have hround := alignUp_le hP
      (show mapLen c (largeTotal c n (raisedAlign (2 ^ k))) (raisedAlign (2 ^ k)) ≤
        raisedAlign (2 ^ k) by omega) hPA
    refine not_backed hk (mapAlign_of_gt hgt) hPA (by omega) ?_ (by omega) (Or.inr ?_)
    · unfold roundPage
      omega
    · unfold roundPage
      omega
  · -- the rounding wraps to 0: there is a mapping but no room in it
    have htot := largeTotal_zero (c := c) (n := n) (show k ≤ 63 by omega) hunder hwrap
    have hval : mapLen c (largeTotal c n (raisedAlign (2 ^ k))) (raisedAlign (2 ^ k)) =
        raisedAlign (2 ^ k) - 1 := by
      rw [hlen, htot, Nat.mod_eq_of_lt (by omega), Nat.zero_add]
    have hround := alignUp_le hP
      (show mapLen c (largeTotal c n (raisedAlign (2 ^ k))) (raisedAlign (2 ^ k)) ≤
        raisedAlign (2 ^ k) by omega) hPA
    refine not_backed hk (mapAlign_of_gt hgt) hPA (by omega) ?_ (by omega) (Or.inl (by omega))
    unfold roundPage
    omega

/-- A wrapped sum that is not caught, with an alignment of at most a page. -/
theorem wraps_small (hk : k ≤ 63) (hle : raisedAlign (2 ^ k) ≤ c.osPage)
    (hwrap : ¬ LargeFits c n (2 ^ k))
    (hlen : ¬ Unmappable c
      (mapLen c (largeTotal c n (raisedAlign (2 ^ k))) (raisedAlign (2 ^ k)))) :
    2 ^ 64 < alignUp (raisedAlign (2 ^ k)) 48 + n := by
  by_contra hno
  have hround : 2 ^ 64 ≤ alignUp (raisedAlign (2 ^ k)) 48 + n + c.osPage - 1 := by
    by_contra hfit
    exact hwrap ⟨Nat.not_le.mp hfit, fun hgt => absurd hle (Nat.not_le.mpr hgt)⟩
  refine hlen (Or.inl ?_)
  rw [mapLen, if_pos hle]
  exact largeTotal_zero hk (Nat.not_lt.mp hno) hround

/-- And with a larger one. -/
theorem wraps_aligned (hk : k ≤ 63) (hgt : c.osPage < raisedAlign (2 ^ k))
    (hwrap : ¬ LargeFits c n (2 ^ k))
    (hlen : ¬ Unmappable c
      (mapLen c (largeTotal c n (raisedAlign (2 ^ k))) (raisedAlign (2 ^ k)))) :
    2 ^ 64 < alignUp c.osPage (alignUp (raisedAlign (2 ^ k)) 48 + n) + raisedAlign (2 ^ k) - 1 := by
  have hP := c.osPage_pos
  have hPA : c.osPage ∣ raisedAlign (2 ^ k) := by
    rw [raisedAlign_pow] at hgt ⊢
    exact osPage_dvd hgt
  obtain ⟨m, hm⟩ := hPA
  have hm2 : 2 ≤ m := by
    by_contra hc
    have : c.osPage * m ≤ c.osPage * 1 := Nat.mul_le_mul_left _ (by omega)
    omega
  have htwice : c.osPage * 2 ≤ raisedAlign (2 ^ k) := hm ▸ Nat.mul_le_mul_left _ hm2
  have hle := le_alignUp hP (alignUp (raisedAlign (2 ^ k)) 48 + n)
  by_contra hno
  have hfit : alignUp (raisedAlign (2 ^ k)) 48 + n + c.osPage - 1 < 2 ^ 64 := by omega
  have heq : alignUp c.osPage (alignUp (raisedAlign (2 ^ k)) 48 + n) + raisedAlign (2 ^ k) - 1 =
      2 ^ 64 := by
    by_contra hne
    exact hwrap ⟨hfit, fun _ => by omega⟩
  refine hlen (Or.inl ?_)
  rw [mapLen, if_neg (Nat.not_le.mpr hgt), largeTotal_eq hk hfit, heq, Nat.mod_self]

/-- A large request is fully backed or refused, whatever the kernel does, exactly when
it is `Caught`. -/
theorem large_backed_iff (c : Cfg) (n k : Nat) (hn : n < 2 ^ 64) (hk : k ≤ 63) :
    AlwaysBacked c n (2 ^ k) ↔ Caught c n (2 ^ k) := by
  refine ⟨fun h => ?_, backed_of_caught hk⟩
  by_contra hno
  rw [Caught, not_or] at hno
  obtain ⟨hwrap, hlen⟩ := hno
  rcases Nat.lt_or_eq_of_le hk with hlt | rfl
  · have hk' : k ≤ 62 := by omega
    rcases Nat.lt_or_ge c.osPage (raisedAlign (2 ^ k)) with hgt | hle
    · exact not_backed_aligned hn hk' hgt (wraps_aligned hk hgt hwrap hlen) h
    · exact not_backed_small hn hk' hle (wraps_small hk hle hwrap hlen) h
  · exact not_backed_top hlen h

/-- An ordinary large request, and one for which `mmap` is asked for nothing. -/
theorem large_backed_iff_ordinary :
    AlwaysBacked (.page4k false) 200000 (2 ^ 4) ∧
      AlwaysBacked (.page4k false) (2 ^ 64 - 48) (2 ^ 4) :=
  ⟨(large_backed_iff (.page4k false) 200000 4 (by decide) (by decide)).mpr (Or.inl (by decide)),
    (large_backed_iff (.page4k false) (2 ^ 64 - 48) 4 (by decide) (by decide)).mpr
      (Or.inr (Or.inl (by decide +kernel)))⟩

/-- `my_malloc(2 ^ 64 - 47)` maps one page and returns a pointer into it. -/
theorem large_unbacked :
    ∃ s', myMalloc (.page4k false) ((State.initial (.page4k false)).withAnswers [some 0x10000000]) 0
        (2 ^ 64 - 47) = .ok (0x10000030, s') ∧
      ¬ Backed ((State.initial (.page4k false)).withAnswers [some 0x10000000]) s' (2 ^ 64 - 47)
        0x10000030 := by
  rcases hm : osMmapAligned (.page4k false)
    ((State.initial (.page4k false)).withAnswers [some 0x10000000])
    (largeTotal (.page4k false) (2 ^ 64 - 47) (raisedAlign (2 ^ 4))) (mapAlign (.page4k false) 4)
    with ⟨base, s₁⟩
  have hbase : base = 0x10000000 := (congrArg Prod.fst hm).symm.trans (by decide +kernel)
  have hfits : AlignedFits (.page4k false)
      (largeTotal (.page4k false) (2 ^ 64 - 47) (raisedAlign (2 ^ 4)))
      (mapAlign (.page4k false) 4) :=
    fun hgt => absurd hgt (by decide)
  obtain ⟨⟨_, _, _, _, hs₁, -⟩, -⟩ := osMmapAligned_spec (by decide) hfits hm
  obtain ⟨⟨q, s'⟩, he, hq⟩ := exists_of_passes (myMalloc (.page4k false)
    ((State.initial (.page4k false)).withAnswers [some 0x10000000]) 0 (2 ^ 64 - 47))
    (fun r => r.1 == 0x10000030) (by decide +kernel)
  obtain rfl := beq_iff_eq.mp hq
  refine ⟨s', he, ?_⟩
  simp only [myMalloc, largeAlloc] at he
  rw [if_pos (by decide), if_neg (by decide)] at he
  subst hbase hs₁
  obtain ⟨-, -, ⟨la', hl', -, hsz⟩, hother⟩ := largeAllocAligned_at (by decide) hm (by decide) he
  rintro ⟨b, la, hl, -, -, hin, -⟩
  by_cases hb : b = 0x10000000
  · rw [hb] at hl hin
    cases hl.symm.trans hl'
    rw [hsz, show largeTotal (.page4k false) (2 ^ 64 - 47) (raisedAlign (2 ^ 4)) = 4096 from by
      decide +kernel] at hin
    omega
  · rw [hother rfl b hb] at hl
    exact absurd hl (by simp [State.withAnswers, State.initial])

end CustomMalloc

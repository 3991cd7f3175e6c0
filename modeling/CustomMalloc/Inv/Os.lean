import CustomMalloc.Os

/-!
# What the OS layer guarantees

A call of `osMmapAligned` only ever adds to what is mapped (`OsExt`): everything
that was mapped stays mapped with its bytes, and no part of the allocator's own
state changes except the byte counter. When it succeeds and no sum wraps, the
region it returns is aligned, was not mapped before, is mapped now and reads as
zero (`FreshRegion`). The trims are the delicate part: the trailing one relies on the
kernel rounding `size + alignment - 1` up to pages to meet the true end of the
mapping. None of this needs the alignment to be a power of two: the start stays on a
page boundary whatever the mask is (`Granted`).
-/

namespace CustomMalloc

open Lib.Words Lib.Bytes Lib.Intervals

/-- `s'` is `s` after the kernel mapped some more memory. -/
def OsExt (s s' : State) : Prop :=
  ∃ ans mp m b, s' = { s with answers := ans, mapped := mp, mem := m, mmapBytes := b } ∧
    ∀ x, Covers s.mapped x → Covers mp x ∧ m x = s.mem x

theorem OsExt.refl (s : State) : OsExt s s :=
  ⟨s.answers, s.mapped, s.mem, s.mmapBytes, rfl, fun _ hx => ⟨hx, rfl⟩⟩

theorem OsExt.covers {s s' : State} (hos : OsExt s s') {x : Nat} (hx : Covers s.mapped x) :
    Covers s'.mapped x := by
  obtain ⟨ans, mp, m, mb, rfl, hk⟩ := hos
  exact (hk x hx).1

/-- `[p, p + n)` is a new region of `s'`. -/
structure FreshRegion (s s' : State) (p n : Nat) : Prop where
  fits : p + n < 2 ^ 64
  fresh : ∀ x, p ≤ x → x < p + n → ¬ Covers s.mapped x
  mapped : ∀ x, p ≤ x → x < p + n → Covers s'.mapped x
  zero : ∀ x, p ≤ x → x < p + n → s'.mem x = 0

/-! ## `mmap` -/

/-- What an answer the kernel can give satisfies. -/
theorem canMap_spec {c : Cfg} {s : State} {a len : Nat} (h : canMap c s a len = true) :
    0 < len ∧ a % c.osPage = 0 ∧ a + roundPage c len < 2 ^ 64 ∧
      ∀ x, a ≤ x → x < a + roundPage c len → ¬ Covers s.mapped x := by
  unfold canMap at h
  simp only [Bool.and_eq_true, decide_eq_true_eq, Bool.not_eq_eq_eq_not, Bool.not_true] at h
  obtain ⟨⟨⟨hlen, hal⟩, hfit⟩, hov⟩ := h
  have hpos : a < a + roundPage c len := by
    have := alignUp_pos c.osPage_pos hlen
    unfold roundPage
    omega
  exact ⟨hlen, hal, hfit, (overlaps_eq_false_iff hpos).mp hov⟩

/-- The kernel's answer, inverted: a refusal changes nothing but the list of
answers; a success maps exactly the rounded range. -/
theorem mmap_cases (c : Cfg) (s : State) (len : Nat) :
    (∃ rest, mmap c s len = (none, { s with answers := rest })) ∨
    (∃ a rest, mmap c s len = (some a, { s with
        answers := rest
        mapped := (a, a + roundPage c len) :: s.mapped
        mem := fillZero s.mem a (roundPage c len) }) ∧
      0 < len ∧ a % c.osPage = 0 ∧ a + roundPage c len < 2 ^ 64 ∧
      ∀ x, a ≤ x → x < a + roundPage c len → ¬ Covers s.mapped x) := by
  unfold mmap
  split
  next h => exact Or.inl ⟨[], by rw [← h]⟩
  next rest h => exact Or.inl ⟨rest, rfl⟩
  next a rest h =>
    split
    next hcan => exact Or.inr ⟨a, rest, rfl, canMap_spec hcan⟩
    next hno => exact Or.inl ⟨rest, rfl⟩

/-- A plain `mmap` of whole pages yields a fresh region. -/
theorem mmap_fresh {c : Cfg} {s s' : State} {len a : Nat} (h : mmap c s len = (some a, s')) :
    OsExt s s' ∧ FreshRegion s s' a len ∧ a % c.osPage = 0 := by
  rcases mmap_cases c s len with ⟨rest, he⟩ | ⟨a', rest, he, hlen, hal, hfit, hfree⟩
  · rw [he] at h
    exact absurd (congrArg Prod.fst h) (by simp)
  · rw [he] at h
    obtain ⟨rfl, rfl⟩ : a' = a ∧ _ = s' := by simpa using h
    have hle : len ≤ roundPage c len := le_alignUp c.osPage_pos len
    refine ⟨⟨rest, _, _, s.mmapBytes, rfl, fun x hx => ⟨covers_cons.mpr (Or.inr hx), ?_⟩⟩,
      ⟨by omega, fun x h₁ h₂ => hfree x h₁ (by omega),
        fun x h₁ h₂ => covers_cons.mpr (Or.inl ⟨h₁, by simp only; omega⟩),
        fun x h₁ h₂ => fillZero_in h₁ (by omega)⟩, hal⟩
    apply fillZero_out
    by_contra hc
    exact hfree x (by omega) (by omega) hx

/-! ## `munmap` -/

/-- The guards of the two trims say nothing: `munmap` of no bytes does nothing. -/
theorem munmap_guard (c : Cfg) (s : State) (a lo hi : Nat) :
    (if lo < hi then munmap c s a (hi - lo) else s) = munmap c s a (hi - lo) := by
  split
  next => rfl
  next h =>
    unfold munmap unmapRange
    rw [if_neg (by omega)]

theorem covers_unmapRange {c : Cfg} {mp : List (Nat × Nat)} {a len x : Nat} (ha : c.osPage ∣ a) :
    Covers (unmapRange c mp a len) x ↔
      Covers mp x ∧ ¬ (a ≤ x ∧ x < a + roundPage c len) := by
  unfold unmapRange
  split
  next => exact covers_remove
  next h =>
    have hlen : len = 0 := by
      have := Nat.mod_eq_zero_of_dvd ha
      omega
    have hz : roundPage c 0 = 0 := alignUp_of_dvd c.osPage_pos (Nat.dvd_zero _)
    rw [hlen, hz]
    constructor
    · exact fun hx => ⟨hx, by omega⟩
    · exact fun hx => hx.1

/-! ## `os_mmap_aligned` -/

/-- The conditions under which no sum of `os_mmap_aligned` wraps. -/
def AlignedFits (c : Cfg) (size alignment : Nat) : Prop :=
  c.osPage < alignment → c.osPage ∣ size ∧ size + alignment - 1 < 2 ^ 64

theorem osPage_dvd {c : Cfg} {k : Nat} (h : c.osPage < 2 ^ k) : c.osPage ∣ 2 ^ k := by
  unfold Cfg.osPage at h ⊢
  exact Nat.pow_dvd_pow 2 (Nat.le_of_lt ((Nat.pow_lt_pow_iff_right (by decide)).mp h))

theorem dvd_osPage {c : Cfg} {k : Nat} (h : 2 ^ k ≤ c.osPage) : 2 ^ k ∣ c.osPage := by
  unfold Cfg.osPage at h ⊢
  exact Nat.pow_dvd_pow 2 ((Nat.pow_le_pow_iff_right (by decide)).mp h)

/-- Rounding the trailing length up to pages reaches exactly the end of the
over-allocated mapping. -/
theorem stop_add_roundPage {c : Cfg} {addr extra stop : Nat} (ha : c.osPage ∣ addr)
    (hs : c.osPage ∣ stop) (h₁ : addr ≤ stop) (h₂ : stop ≤ addr + extra) :
    stop + roundPage c (addr + extra - stop) = addr + roundPage c extra := by
  have hP := c.osPage_pos
  unfold roundPage
  apply Nat.le_antisymm
  · -- the true end is a multiple of the page size above the trailing length
    have hdvd : c.osPage ∣ addr + alignUp c.osPage extra - stop :=
      Nat.dvd_sub (Nat.dvd_add ha (dvd_alignUp _ _)) hs
    have hge := le_alignUp hP extra
    have := alignUp_le hP (show addr + extra - stop ≤ addr + alignUp c.osPage extra - stop by omega)
      hdvd
    omega
  · have hdvd : c.osPage ∣ stop + alignUp c.osPage (addr + extra - stop) - addr :=
      Nat.dvd_sub (Nat.dvd_add hs (dvd_alignUp _ _)) ha
    have hge := le_alignUp hP (addr + extra - stop)
    have := alignUp_le hP
      (show extra ≤ stop + alignUp c.osPage (addr + extra - stop) - addr by omega)
      hdvd
    omega

/-- Over-allocate and trim: what is left of the mapping `[a, a + round(extra))`
after both trims is `[r, r + size)`. -/
theorem trim_spec {c : Cfg} {mp : List (Nat × Nat)} {a r size extra : Nat} (ha : c.osPage ∣ a)
    (hr : c.osPage ∣ r) (hs : c.osPage ∣ size) (h₁ : a ≤ r) (h₂ : r + size ≤ a + extra)
    (hfree : ∀ x, a ≤ x → x < a + roundPage c extra → ¬ Covers mp x) (x : Nat) :
    Covers (unmapRange c (unmapRange c ((a, a + roundPage c extra) :: mp) a (r - a)) (r + size)
      (a + extra - (r + size))) x ↔ (r ≤ x ∧ x < r + size) ∨ Covers mp x := by
  have hlead : roundPage c (r - a) = r - a := alignUp_of_dvd c.osPage_pos (Nat.dvd_sub hr ha)
  have htrail := stop_add_roundPage ha (Nat.dvd_add hr hs) (by omega) h₂
  have hge : extra ≤ roundPage c extra := le_alignUp c.osPage_pos extra
  rw [covers_unmapRange (Nat.dvd_add hr hs), covers_unmapRange ha, htrail, hlead, covers_cons]
  simp only
  constructor
  · rintro ⟨⟨hx | hx, hx₁⟩, hx₂⟩
    · exact Or.inl (by omega)
    · exact Or.inr hx
  · rintro (hx | hx)
    · exact ⟨⟨Or.inl (by omega), by omega⟩, by omega⟩
    · have hout : ¬ (a ≤ x ∧ x < a + roundPage c extra) := fun hc => hfree x hc.1 hc.2 hx
      exact ⟨⟨Or.inr hx, by omega⟩, by omega⟩

/-- A mapping of `size` bytes at `p` was granted and booked. -/
structure Granted (c : Cfg) (s : State) (size alignment p : Nat) (s' : State) : Prop where
  ext : OsExt s s'
  fresh : FreshRegion s s' p size
  page : c.osPage ∣ p
  aligned : ∀ k, k ≤ 64 → alignment = 2 ^ k → 2 ^ k ∣ p
  bytes : s'.mmapBytes = (s.mmapBytes + size) % 2 ^ 64
  /-- a mapping at address 0 is one the kernel chose -/
  null : p = 0 → some 0 ∈ s.answers

theorem mmap_answer {c : Cfg} {s s' : State} {len a : Nat} (h : mmap c s len = (some a, s')) :
    some a ∈ s.answers := by
  unfold mmap at h
  split at h
  next => exact absurd (congrArg Prod.fst h) (by simp)
  next => exact absurd (congrArg Prod.fst h) (by simp)
  next b rest hans =>
    split at h
    next =>
      obtain rfl : b = a := Option.some.inj (Prod.mk.inj h).1
      rw [hans]
      exact List.mem_cons_self ..
    next => exact absurd (congrArg Prod.fst h) (by simp)

/-- The first branch of `os_mmap_aligned`: the kernel's page alignment is enough. -/
theorem osMmapAligned_plain {c : Cfg} {s s' : State} {size alignment p : Nat}
    (hle : alignment ≤ c.osPage) (h : osMmapAligned c s size alignment = (p, s')) :
    (p = 0 ∧ ∃ rest, s' = { s with answers := rest }) ∨ Granted c s size alignment p s' := by
  unfold osMmapAligned at h
  rw [if_pos hle] at h
  split at h
  next s₁ hm =>
    cases h
    rcases mmap_cases c s size with ⟨rest, he⟩ | ⟨a, rest, he, -⟩
    · exact Or.inl ⟨rfl, rest, (Prod.mk.inj (hm.symm.trans he)).2⟩
    · cases congrArg Prod.fst (hm.symm.trans he)
  next a s₁ hm =>
    obtain ⟨rfl, rfl⟩ := Prod.mk.inj h
    have hans := mmap_answer hm
    obtain ⟨⟨ans, mp, m, b, rfl, hkeep⟩, hfresh, hal⟩ := mmap_fresh hm
    have hdvd : c.osPage ∣ a := Nat.dvd_of_mod_eq_zero hal
    have hbytes : b = s.mmapBytes := by
      rcases mmap_cases c s size with ⟨rest, he⟩ | ⟨a', rest, he, -⟩
      · cases congrArg Prod.fst (hm.symm.trans he)
      · exact congrArg State.mmapBytes (Prod.mk.inj (hm.symm.trans he)).2
    refine Or.inr ⟨⟨ans, mp, m, _, rfl, hkeep⟩,
      ⟨hfresh.fits, hfresh.fresh, hfresh.mapped, hfresh.zero⟩, hdvd, ?_, ?_, ?_⟩
    · intro k _ hk
      rw [hk] at hle
      exact Nat.dvd_trans (dvd_osPage hle) hdvd
    · rw [← hbytes]
      rfl
    · intro h0
      rw [← h0]
      exact hans

/-- The second branch after the kernel mapped `[a, a + round(extra))`: none of the three
sums wraps, and both trims are calls of `munmap`. -/
theorem osMmapAligned_over {c : Cfg} {s s₁ : State} {size alignment a : Nat}
    (hgt : c.osPage < alignment) (hsum : size + alignment - 1 < 2 ^ 64)
    (hal : a % c.osPage = 0) (hend : a + roundPage c (size + alignment - 1) < 2 ^ 64)
    (hm : mmap c s (size + alignment - 1) = (some a, s₁)) :
    ∃ r, osMmapAligned c s size alignment = (r, (munmap c (munmap c s₁ a (r - a)) (r + size)
        (a + (size + alignment - 1) - (r + size))).addMmapBytes size) ∧
      a ≤ r ∧ r + size ≤ a + (size + alignment - 1) ∧ c.osPage ∣ r ∧
      ∀ k, k ≤ 64 → alignment = 2 ^ k → 2 ^ k ∣ r := by
  have hround : size + alignment - 1 ≤ roundPage c (size + alignment - 1) :=
    le_alignUp c.osPage_pos _
  have hapos : 0 < alignment := by omega
  have hnowrap : a + alignment - 1 < 2 ^ 64 := by omega
  obtain ⟨hge, hlt⟩ := alignUp64_bounds hapos hnowrap
  have hPr : c.osPage ∣ alignUp64 alignment a :=
    dvd_alignUp64 (k := c.pageShift) hapos hnowrap (Nat.dvd_of_mod_eq_zero hal)
  refine ⟨alignUp64 alignment a, ?_, hge, by omega, hPr, ?_⟩
  · unfold osMmapAligned
    rw [if_neg (Nat.not_le.mpr hgt)]
    simp only [Nat.mod_eq_of_lt hsum, hm, munmap_guard]
    rw [Nat.mod_eq_of_lt (show alignUp64 alignment a + size < 2 ^ 64 by omega),
      Nat.mod_eq_of_lt (show a + (size + alignment - 1) < 2 ^ 64 by omega)]
  · intro k hk hak
    rw [hak] at hnowrap ⊢
    rw [alignUp64_eq hk hnowrap]
    exact dvd_alignUp _ _

/-- The second branch when the kernel refuses. -/
theorem osMmapAligned_over_none {c : Cfg} {s s₁ : State} {size alignment : Nat}
    (hgt : c.osPage < alignment) (hsum : size + alignment - 1 < 2 ^ 64)
    (hm : mmap c s (size + alignment - 1) = (none, s₁)) :
    osMmapAligned c s size alignment = (0, s₁) := by
  unfold osMmapAligned
  rw [if_neg (Nat.not_le.mpr hgt)]
  simp only [Nat.mod_eq_of_lt hsum, hm]

/-- The second branch: over-allocate, and trim at both ends. -/
theorem osMmapAligned_trimmed {c : Cfg} {s s' : State} {size alignment p : Nat}
    (hgt : c.osPage < alignment) (hsize : c.osPage ∣ size) (hsum : size + alignment - 1 < 2 ^ 64)
    (h : osMmapAligned c s size alignment = (p, s')) :
    (p = 0 ∧ ∃ rest, s' = { s with answers := rest }) ∨ Granted c s size alignment p s' := by
  have hround : size + alignment - 1 ≤ roundPage c (size + alignment - 1) :=
    le_alignUp c.osPage_pos _
  rcases mmap_cases c s (size + alignment - 1) with ⟨rest, hm⟩ | ⟨a, rest, hm, -, hal, hend, hfree⟩
  · rw [osMmapAligned_over_none hgt hsum hm] at h
    cases h
    exact Or.inl ⟨rfl, rest, rfl⟩
  · have hans := mmap_answer hm
    obtain ⟨r, he, hge, hle, hPr, hpow⟩ := osMmapAligned_over hgt hsum hal hend hm
    rw [he] at h
    cases h
    have hcov := trim_spec (Nat.dvd_of_mod_eq_zero hal) hPr hsize hge hle hfree
    refine Or.inr ⟨⟨rest, _, fillZero s.mem a _, _, rfl,
      fun x hx => ⟨(hcov x).mpr (Or.inr hx), ?_⟩⟩,
      ⟨by omega, fun x h₁ h₂ => hfree x (by omega) (by omega),
        fun x h₁ h₂ => (hcov x).mpr (Or.inl ⟨h₁, h₂⟩),
        fun x h₁ h₂ => fillZero_in (by omega) (by omega)⟩, hPr, hpow, rfl, ?_⟩
    · apply fillZero_out
      by_contra hc
      exact hfree x (by omega) (by omega) hx
    · intro h0
      obtain rfl : a = 0 := by omega
      exact hans

/-- The whole of `os_mmap_aligned`, for any alignment. -/
theorem osMmapAligned_any {c : Cfg} {s s' : State} {size alignment p : Nat}
    (hfit : AlignedFits c size alignment) (h : osMmapAligned c s size alignment = (p, s')) :
    (p = 0 ∧ ∃ rest, s' = { s with answers := rest }) ∨ Granted c s size alignment p s' := by
  rcases Nat.lt_or_ge c.osPage alignment with hgt | hle
  · obtain ⟨hsize, hsum⟩ := hfit hgt
    exact osMmapAligned_trimmed hgt hsize hsum h
  · exact osMmapAligned_plain hle h

/-- For a power-of-two alignment: it extends the mapped memory, and a non-null result is a
fresh aligned region. -/
theorem osMmapAligned_spec {c : Cfg} {s s' : State} {size k p : Nat} (hk : k ≤ 63)
    (hfit : AlignedFits c size (2 ^ k)) (h : osMmapAligned c s size (2 ^ k) = (p, s')) :
    OsExt s s' ∧ (p ≠ 0 → FreshRegion s s' p size ∧ 2 ^ k ∣ p ∧ c.osPage ∣ p) := by
  rcases osMmapAligned_any hfit h with ⟨rfl, rest, rfl⟩ | hg
  · exact ⟨⟨rest, s.mapped, s.mem, s.mmapBytes, rfl, fun x hx => ⟨hx, rfl⟩⟩,
      fun hp => absurd rfl hp⟩
  · exact ⟨hg.ext, fun _ => ⟨hg.fresh, hg.aligned k (by omega) rfl, hg.page⟩⟩

end CustomMalloc

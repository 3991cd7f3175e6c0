import Mathlib.Data.List.Nodup
import Mathlib.Data.List.Range

/-!
# Open addressing

A table `tab` holds keys, with `empty` marking the free places. A key `k` looks at
the places `probe (n - 1), ..., probe 0` in this order: a lookup stops at the
first free place, and an insertion fills it. While no key is removed, what is
found once is found for good. Emptying a place cuts off exactly the keys that were
found by passing over it (`Found.emptied_iff`).
-/

namespace Lib.Probe

variable {ι α : Type} {empty : α} {probe : Nat → ι} {tab tab' : ι → α} {k k' : α} {n : Nat}

/-- A lookup with `n` probes left finds the key. -/
def Found (empty : α) (probe : Nat → ι) (tab : ι → α) (k : α) (n : Nat) : Prop :=
  ∃ m < n, tab (probe m) = k ∧ ∀ m', m < m' → m' < n → tab (probe m') ≠ empty

/-- An insertion with `n` probes left stores the key. -/
def Put (empty : α) (probe : Nat → ι) (tab : ι → α) (k : α) (n : Nat) (tab' : ι → α) : Prop :=
  ∃ m < n, tab (probe m) = empty ∧ tab' (probe m) = k ∧ (∀ i, i ≠ probe m → tab' i = tab i) ∧
    ∀ m', m < m' → m' < n → tab (probe m') ≠ empty

/-- No probe hits a free place. -/
def Full (empty : α) (probe : Nat → ι) (tab : ι → α) (n : Nat) : Prop :=
  ∀ m < n, tab (probe m) ≠ empty

theorem found_zero : ¬ Found empty probe tab k 0 := by
  rintro ⟨m, hm, -⟩
  omega

/-- One more probe in front. -/
theorem found_succ : Found empty probe tab k (n + 1) ↔
    tab (probe n) = k ∨ (tab (probe n) ≠ empty ∧ Found empty probe tab k n) := by
  constructor
  · rintro ⟨m, hm, hk, hne⟩
    rcases Nat.lt_or_ge m n with hlt | hge
    · exact Or.inr ⟨hne n hlt (by omega), m, hlt, hk, fun m' h₁ h₂ => hne m' h₁ (by omega)⟩
    · obtain rfl : m = n := by omega
      exact Or.inl hk
  · rintro (hk | ⟨hne, m, hm, hk, hrest⟩)
    · exact ⟨n, by omega, hk, fun m' h₁ h₂ => by omega⟩
    · refine ⟨m, by omega, hk, fun m' h₁ h₂ => ?_⟩
      rcases Nat.lt_or_ge m' n with hlt | hge
      · exact hrest m' h₁ hlt
      · obtain rfl : m' = n := by omega
        exact hne

theorem Put.succ (hne : tab (probe n) ≠ empty) (h : Put empty probe tab k n tab') :
    Put empty probe tab k (n + 1) tab' := by
  obtain ⟨m, hm, he, hk, hrest, hfull⟩ := h
  refine ⟨m, by omega, he, hk, hrest, fun m' h₁ h₂ => ?_⟩
  rcases Nat.lt_or_ge m' n with hlt | hge
  · exact hfull m' h₁ hlt
  · obtain rfl : m' = n := by omega
    exact hne

theorem Full.succ (hne : tab (probe n) ≠ empty) (h : Full empty probe tab n) :
    Full empty probe tab (n + 1) := by
  intro m hm
  rcases Nat.lt_or_ge m n with hlt | hge
  · exact h m hlt
  · obtain rfl : m = n := by omega
    exact hne

/-- An insertion keeps what is in the table. -/
theorem Put.keeps {i : ι} (h : Put empty probe tab k n tab') (hi : tab i ≠ empty) :
    tab' i = tab i := by
  obtain ⟨m, -, he, -, hrest, -⟩ := h
  refine hrest i ?_
  rintro rfl
  exact hi he

/-- The inserted key is found. -/
theorem Put.found (h : Put empty probe tab k n tab') : Found empty probe tab' k n := by
  have hkeep : ∀ i, tab i ≠ empty → tab' i = tab i := fun _ hi => h.keeps hi
  obtain ⟨m, hm, -, hk, -, hfull⟩ := h
  refine ⟨m, hm, hk, fun m' h₁ h₂ => ?_⟩
  rw [hkeep _ (hfull m' h₁ h₂)]
  exact hfull m' h₁ h₂

/-- What is found stays found while no entry is removed. -/
theorem Found.mono (h : Found empty probe tab k n) (hk : k ≠ empty)
    (hkeep : ∀ i, tab i ≠ empty → tab' i = tab i) : Found empty probe tab' k n := by
  obtain ⟨m, hm, he, hne⟩ := h
  refine ⟨m, hm, ?_, fun m' h₁ h₂ => ?_⟩
  · rw [hkeep _ (by rw [he]; exact hk), he]
  · rw [hkeep _ (hne m' h₁ h₂)]
    exact hne m' h₁ h₂

/-- Emptying the place `i` of another key leaves `k` found exactly when no probe for `k`
passes over `i`. -/
theorem Found.emptied_iff {i : ι} (h : Found empty probe tab k n) (hk : k ≠ empty)
    (hinj : ∀ m m', m < n → m' < n → probe m = probe m' → m = m')
    (hone : ∀ j j', tab j = k → tab j' = k → j = j') (hi : tab i ≠ k) (he : tab' i = empty)
    (hrest : ∀ j, j ≠ i → tab' j = tab j) :
    Found empty probe tab' k n ↔
      ∀ m < n, tab (probe m) = k → ∀ m', m < m' → m' < n → probe m' ≠ i := by
  constructor
  · intro h' m hm hmk m' h₁ h₂ hmi
    obtain ⟨l, hl, hlk, hne⟩ := h'
    have hli : probe l ≠ i := by
      intro hc
      rw [hc, he] at hlk
      exact hk hlk.symm
    rw [hrest _ hli] at hlk
    -- the lookup stops where `k` is, after passing over the empty place
    obtain rfl := hinj l m hl hm (hone _ _ hlk hmk)
    exact hne m' h₁ h₂ (by rw [hmi, he])
  · intro hpath
    obtain ⟨m, hm, hmk, hne⟩ := h
    have hmi : probe m ≠ i := by
      intro hc
      rw [hc] at hmk
      exact hi hmk
    refine ⟨m, hm, by rw [hrest _ hmi, hmk], fun m' h₁ h₂ => ?_⟩
    rw [hrest _ (hpath m hm hmk m' h₁ h₂)]
    exact hne m' h₁ h₂

/-- A found key is in the table. -/
theorem Found.mem (h : Found empty probe tab k n) : ∃ i, tab i = k := by
  obtain ⟨m, -, he, -⟩ := h
  exact ⟨_, he⟩

/-- Every entry after an insertion is the new key or an old entry in its place. -/
theorem Put.entry (h : Put empty probe tab k n tab') (i : ι) :
    tab' i = tab i ∨ (tab i = empty ∧ tab' i = k) := by
  obtain ⟨m, -, he, hk, hrest, -⟩ := h
  by_cases hi : i = probe m
  · subst hi
    exact Or.inr ⟨he, hk⟩
  · exact Or.inl (hrest i hi)

end Lib.Probe

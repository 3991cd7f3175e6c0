import Mathlib.Algebra.Order.BigOperators.Group.List
import Mathlib.Algebra.Order.Ring.Nat
import Mathlib.Data.List.Perm.Subperm

/-!
# Finite unions of address intervals

A set of addresses is kept as a list of half-open intervals `(lo, hi)`.
`Covers` is its membership predicate, `overlaps` the executable test against a
new range, and `remove` takes a range away, cutting an interval in two where it
has to.

`sum_len_le_of_disjoint` and `card_mul_le_of_disjoint` are the counting facts behind every
"there is only so much address space" argument: disjoint ranges below `N` have at
most `N` bytes together, so `n` of them of at least `w` bytes satisfy `n * w ≤ N`.
-/

namespace Lib.Intervals

/-- `x` lies in one of the intervals. -/
def Covers (l : List (Nat × Nat)) (x : Nat) : Prop := ∃ iv ∈ l, iv.1 ≤ x ∧ x < iv.2

instance (l : List (Nat × Nat)) (x : Nat) : Decidable (Covers l x) :=
  inferInstanceAs (Decidable (∃ iv ∈ l, iv.1 ≤ x ∧ x < iv.2))

/-- Some interval meets `[lo, hi)`. -/
def overlaps (l : List (Nat × Nat)) (lo hi : Nat) : Bool :=
  l.any fun iv => decide (iv.1 < hi) && decide (lo < iv.2) && decide (iv.1 < iv.2)

/-- One interval without `[lo, hi)`. -/
def cut (lo hi : Nat) (iv : Nat × Nat) : List (Nat × Nat) :=
  [(iv.1, min iv.2 lo), (max iv.1 hi, iv.2)].filter fun p => decide (p.1 < p.2)

/-- The union without `[lo, hi)`. -/
def remove (l : List (Nat × Nat)) (lo hi : Nat) : List (Nat × Nat) :=
  l.flatMap (cut lo hi)

@[simp] theorem covers_nil (x : Nat) : ¬ Covers [] x := by
  rintro ⟨iv, hiv, _⟩
  cases hiv

@[simp] theorem covers_cons {iv : Nat × Nat} {l : List (Nat × Nat)} {x : Nat} :
    Covers (iv :: l) x ↔ (iv.1 ≤ x ∧ x < iv.2) ∨ Covers l x := by
  unfold Covers
  simp

/-- The overlap test is exact: it fails only when no covered address is in the range. -/
theorem overlaps_eq_false_iff {l : List (Nat × Nat)} {lo hi : Nat} (h : lo < hi) :
    overlaps l lo hi = false ↔ ∀ x, lo ≤ x → x < hi → ¬ Covers l x := by
  unfold overlaps Covers
  simp only [List.any_eq_false, Bool.and_eq_true, decide_eq_true_eq, not_and, Nat.not_lt,
    not_exists, and_assoc]
  constructor
  · intro hall x hlo hhi iv hiv h₁
    have := hall iv hiv
    omega
  · intro hno iv hiv h₁ h₂
    -- the larger of the two lower ends would be covered
    rcases Nat.le_total lo iv.1 with hle | hle
    · have := hno iv.1 hle h₁ iv hiv (Nat.le_refl _)
      omega
    · have := hno lo (Nat.le_refl _) h iv hiv hle
      omega

theorem mem_cut {lo hi : Nat} {iv : Nat × Nat} {x : Nat} :
    (∃ p ∈ cut lo hi iv, p.1 ≤ x ∧ x < p.2) ↔ (iv.1 ≤ x ∧ x < iv.2) ∧ ¬ (lo ≤ x ∧ x < hi) := by
  unfold cut
  simp only [List.mem_filter, List.mem_cons, List.not_mem_nil, or_false, decide_eq_true_eq]
  constructor
  · rintro ⟨p, ⟨rfl | rfl, hp⟩, h₁, h₂⟩ <;> simp only at hp h₁ h₂ <;> omega
  · rintro ⟨⟨h₁, h₂⟩, hout⟩
    rcases Nat.lt_or_ge x lo with hx | hx
    · exact ⟨(iv.1, min iv.2 lo), ⟨Or.inl rfl, by simp only; omega⟩, by simp only; omega,
        by simp only; omega⟩
    · exact ⟨(max iv.1 hi, iv.2), ⟨Or.inr rfl, by simp only; omega⟩, by simp only; omega,
        by simp only; omega⟩

theorem covers_remove {l : List (Nat × Nat)} {lo hi x : Nat} :
    Covers (remove l lo hi) x ↔ Covers l x ∧ ¬ (lo ≤ x ∧ x < hi) := by
  unfold Covers remove
  constructor
  · rintro ⟨p, hp, hx⟩
    obtain ⟨iv, hiv, hpc⟩ := List.mem_flatMap.mp hp
    obtain ⟨hin, hout⟩ := mem_cut.mp ⟨p, hpc, hx⟩
    exact ⟨⟨iv, hiv, hin⟩, hout⟩
  · rintro ⟨⟨iv, hiv, hin⟩, hout⟩
    obtain ⟨p, hpc, hx⟩ := mem_cut.mpr ⟨hin, hout⟩
    exact ⟨p, List.mem_flatMap.mpr ⟨iv, hiv, hpc⟩, hx⟩

/-! ## Counting -/

/-- Disjoint nonempty ranges that end at or below `N` have at most `N` bytes together.
The induction drops the range with the highest start: everything else ends at or below
it. -/
theorem sum_len_le_of_disjoint {α : Type} {lo len : α → Nat} :
    ∀ (n : Nat) (l : List α) (N : Nat), l.length = n → l.Nodup →
      (∀ a ∈ l, 0 < len a ∧ lo a + len a ≤ N) →
      (∀ a ∈ l, ∀ b ∈ l, a ≠ b → lo a + len a ≤ lo b ∨ lo b + len b ≤ lo a) →
      (l.map len).sum ≤ N
  | 0, l, _, hlen, _, _, _ => by
    rw [List.length_eq_zero_iff.mp hlen]
    exact Nat.zero_le _
  | n + 1, l, N, hlen, hnd, hsz, hdisj => by
    -- the range that starts highest
    obtain ⟨a, ha, hmax⟩ : ∃ a ∈ l, ∀ b ∈ l, lo b ≤ lo a := by
      clear hsz hdisj hnd
      induction l generalizing n with
      | nil => simp at hlen
      | cons c l ih =>
        cases l with
        | nil => exact ⟨c, by simp, by simp⟩
        | cons d l =>
          cases n with
          | zero => simp at hlen
          | succ n =>
            obtain ⟨a, ha, hmax⟩ := ih n (by simpa using hlen)
            rcases Nat.le_total (lo c) (lo a) with hc | hc
            · refine ⟨a, List.mem_cons_of_mem _ ha, fun b hb => ?_⟩
              rcases List.mem_cons.mp hb with rfl | hb
              · exact hc
              · exact hmax b hb
            · refine ⟨c, List.mem_cons_self .., fun b hb => ?_⟩
              rcases List.mem_cons.mp hb with rfl | hb
              · exact Nat.le_refl _
              · exact Nat.le_trans (hmax b hb) hc
    obtain ⟨pre, suf, rfl⟩ := List.append_of_mem ha
    have hnd' : (pre ++ suf).Nodup ∧ a ∉ pre ++ suf := by
      have hp : (pre ++ a :: suf).Perm (a :: (pre ++ suf)) := List.perm_middle
      have := (hp.nodup_iff).mp hnd
      exact ⟨(List.nodup_cons.mp this).2, (List.nodup_cons.mp this).1⟩
    have hsub : ∀ b ∈ pre ++ suf, b ∈ pre ++ a :: suf := by
      intro b hb
      rcases List.mem_append.mp hb with hb | hb
      · exact List.mem_append_left _ hb
      · exact List.mem_append_right _ (List.mem_cons_of_mem _ hb)
    have ih := sum_len_le_of_disjoint n (pre ++ suf) (lo a)
      (by simp at hlen ⊢; omega) hnd'.1
      (fun b hb => by
        have hne : a ≠ b := fun he => hnd'.2 (he ▸ hb)
        have hb' := hmax b (hsub b hb)
        have hwa := (hsz a ha).1
        have hwb := (hsz b (hsub b hb)).1
        refine ⟨hwb, ?_⟩
        rcases hdisj a ha b (hsub b hb) hne with h | h
        · omega
        · exact h)
      (fun b hb b' hb' => hdisj b (hsub b hb) b' (hsub b' hb'))
    have hwa := hsz a ha
    simp only [List.map_append, List.map_cons, List.sum_append, List.sum_cons] at ih ⊢
    omega

/-- Disjoint ranges of at least `w` bytes, all ending at or below `N`, number at
most `N / w`. -/
theorem card_mul_le_of_disjoint {α : Type} {lo len : α → Nat} {w : Nat} (hw : 0 < w)
    (n : Nat) (l : List α) (N : Nat) (hlen : l.length = n) (hnd : l.Nodup)
    (hsz : ∀ a ∈ l, w ≤ len a ∧ lo a + len a ≤ N)
    (hdisj : ∀ a ∈ l, ∀ b ∈ l, a ≠ b → lo a + len a ≤ lo b ∨ lo b + len b ≤ lo a) :
    n * w ≤ N := by
  have hsum := sum_len_le_of_disjoint n l N hlen hnd
    (fun a ha => ⟨Nat.lt_of_lt_of_le hw (hsz a ha).1, (hsz a ha).2⟩) hdisj
  have hcard : (l.map len).length • w ≤ (l.map len).sum :=
    List.card_nsmul_le_sum _ _ fun x hx => by
      obtain ⟨a, ha, rfl⟩ := List.mem_map.mp hx
      exact (hsz a ha).1
  rw [List.length_map, hlen, Nat.nsmul_eq_mul] at hcard
  exact Nat.le_trans hcard hsum

end Lib.Intervals

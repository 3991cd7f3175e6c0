import Mathlib.Logic.ExistsUnique

/-!
# Every item in exactly one place

`A a x` says that item `x` is at place `a`. `Placed S A` says that `A` divides the items
of `S`: each of them is at exactly one place, and nothing else is anywhere. It is kept as
a map from items to places, so a step that carries items from one place to another has
one rule: `move` for a single item, `shift` for everything at a place.
-/

namespace Lib.Places

variable {ι π : Type} {S : ι → Prop} {A A' : π → ι → Prop} {a b : π} {x y : ι}

/-- `A` puts every item of `S`, and nothing else, at exactly one place. -/
def Placed (S : ι → Prop) (A : π → ι → Prop) : Prop :=
  ∃ place : ι → π, ∀ a x, A a x ↔ S x ∧ place x = a

/-- Every item has a place, and no item has two. -/
theorem Placed.of_unique [Nonempty π] (hmem : ∀ a x, A a x → S x) (hex : ∀ x, S x → ∃ a, A a x)
    (hone : ∀ a b x, A a x → A b x → a = b) : Placed S A := by
  classical
  refine ⟨fun x => if h : S x then (hex x h).choose else Classical.choice inferInstance, ?_⟩
  intro a x
  by_cases hS : S x
  · simp only [hS, dif_pos, true_and]
    exact ⟨fun ha => hone _ _ x (hex x hS).choose_spec ha, fun he => he ▸ (hex x hS).choose_spec⟩
  · simp only [hS, false_and, iff_false]
    exact fun ha => hS (hmem a x ha)

theorem Placed.mem (h : Placed S A) (hx : A a x) : S x := by
  obtain ⟨place, hp⟩ := h
  exact ((hp a x).mp hx).1

theorem Placed.only (h : Placed S A) (ha : A a x) (hb : A b x) : a = b := by
  obtain ⟨place, hp⟩ := h
  exact ((hp a x).mp ha).2.symm.trans ((hp b x).mp hb).2

/-- Items at different places are different. -/
theorem Placed.ne (h : Placed S A) (ha : A a x) (hb : A b y) (hab : a ≠ b) : x ≠ y := by
  intro hxy
  subst hxy
  exact hab (h.only ha hb)

theorem Placed.existsUnique (h : Placed S A) (hx : S x) : ∃! a, A a x := by
  obtain ⟨place, hp⟩ := h
  refine ⟨place x, (hp _ x).mpr ⟨hx, rfl⟩, ?_⟩
  intro b hb
  exact ((hp b x).mp hb).2.symm

/-- Nothing moves. -/
theorem Placed.congr (h : Placed S A) (hA : ∀ a x, A' a x ↔ A a x) : Placed S A' := by
  obtain ⟨place, hp⟩ := h
  exact ⟨place, fun a x => (hA a x).trans (hp a x)⟩

/-- One item moves from `a` to `b`. -/
theorem Placed.move [DecidableEq ι] (h : Placed S A) (hab : a ≠ b) (hx : A a x)
    (hfrom : ∀ y, A' a y ↔ A a y ∧ y ≠ x) (hto : ∀ y, A' b y ↔ A b y ∨ y = x)
    (hrest : ∀ c, c ≠ a → c ≠ b → ∀ y, (A' c y ↔ A c y)) : Placed S A' := by
  obtain ⟨place, hp⟩ := h
  obtain ⟨hSx, hxa⟩ := (hp a x).mp hx
  refine ⟨fun y => if y = x then b else place y, ?_⟩
  intro c y
  have hold : A' c y ↔ (A c y ∧ y ≠ x) ∨ (c = b ∧ y = x) := by
    by_cases hca : c = a
    · subst hca
      rw [hfrom y]
      exact (or_iff_left fun hc => hab hc.1).symm
    · have hne : A c y → y ≠ x := fun hc hyx => by
        subst hyx
        exact hca (((hp c y).mp hc).2.symm.trans hxa)
      by_cases hcb : c = b
      · subst hcb
        rw [hto y, and_iff_left_of_imp hne]
        simp only [true_and]
      · rw [hrest c hca hcb y, and_iff_left_of_imp hne]
        exact (or_iff_left fun hc => hcb hc.1).symm
  rw [hold, hp c y]
  by_cases hyx : y = x
  · subst hyx
    simp only [ne_eq, not_true_eq_false, and_false, and_true, false_or, if_pos, hSx, true_and]
    exact eq_comm
  · simp only [hyx, ne_eq, not_false_eq_true, and_true, and_false, or_false, if_neg]

/-- Everything at `a` moves to `b`. -/
theorem Placed.shift [DecidableEq π] (h : Placed S A) (hab : a ≠ b) (hfrom : ∀ y, ¬ A' a y)
    (hto : ∀ y, A' b y ↔ A a y ∨ A b y)
    (hrest : ∀ c, c ≠ a → c ≠ b → ∀ y, (A' c y ↔ A c y)) : Placed S A' := by
  obtain ⟨place, hp⟩ := h
  refine ⟨fun y => if place y = a then b else place y, ?_⟩
  intro c y
  by_cases hca : c = a
  · subst hca
    refine iff_of_false (hfrom y) ?_
    intro hc
    by_cases hpc : place y = c
    · simp only [if_pos hpc] at hc
      exact hab hc.2.symm
    · simp only [if_neg hpc] at hc
      exact hpc hc.2
  · by_cases hcb : c = b
    · subst hcb
      rw [hto y, hp a y, hp c y]
      by_cases hpa : place y = a
      · simp only [hpa, if_pos, and_true]
        exact or_iff_left_of_imp And.left
      · simp only [hpa, and_false, false_or, if_neg, not_false_eq_true]
    · rw [hrest c hca hcb y, hp c y]
      by_cases hpa : place y = a
      · simp only [hpa, if_pos, Ne.symm hca, Ne.symm hcb]
      · simp only [if_neg hpa]

end Lib.Places

import Mathlib.Data.List.Nodup

/-!
# Things with one holder

Some things lie in a common pool and some are in somebody's hand, at most one in each.
`OneHolder pool hand` says that nothing is in two places. A thing moves when somebody picks
it up from the pool (`pick`), puts it there (`put`), brings in a new one (`bring`) or does
away with it (`drop`).
-/

namespace Lib.Hands

variable {ι α : Type} {pool : List α} {hand hand' : ι → Option α} {i : ι} {x y : α}

/-- Nothing is in the pool twice, in two hands, or in the pool and in a hand. -/
structure OneHolder (pool : List α) (hand : ι → Option α) : Prop where
  nodup : pool.Nodup
  apart : ∀ {i x}, hand i = some x → x ∉ pool
  once : ∀ {i j x}, hand i = some x → hand j = some x → i = j

/-- `x` is somewhere. -/
def Somewhere (pool : List α) (hand : ι → Option α) (x : α) : Prop :=
  x ∈ pool ∨ ∃ i, hand i = some x

namespace OneHolder

theorem congr (h : OneHolder pool hand) (he : ∀ j, hand' j = hand j) : OneHolder pool hand' := by
  obtain rfl : hand' = hand := funext he
  exact h

/-- Only the hand of `i` changes. -/
theorem change (h : OneHolder pool hand) (hrest : ∀ j, j ≠ i → hand' j = hand j)
    (hpool : ∀ x, hand' i = some x → x ∉ pool)
    (hnew : ∀ j x, j ≠ i → hand' i = some x → hand j ≠ some x) : OneHolder pool hand' := by
  refine ⟨h.nodup, ?_, ?_⟩
  · intro j x hj
    by_cases hji : j = i
    · exact hpool x (hji ▸ hj)
    · exact h.apart (hrest j hji ▸ hj)
  · intro j k x hj hk
    by_cases hji : j = i
    · by_cases hki : k = i
      · rw [hji, hki]
      · exact absurd (hrest k hki ▸ hk) (hnew k x hki (hji ▸ hj))
    · by_cases hki : k = i
      · exact absurd (hrest j hji ▸ hj) (hnew j x hji (hki ▸ hk))
      · exact h.once (hrest j hji ▸ hj) (hrest k hki ▸ hk)

/-- `i` gets something that was nowhere. -/
theorem bring (h : OneHolder pool hand) (hx : ¬ Somewhere pool hand x) (hi : hand' i = some x)
    (hrest : ∀ j, j ≠ i → hand' j = hand j) : OneHolder pool hand' := by
  refine h.change hrest ?_ ?_
  · intro y hy hmem
    cases hi.symm.trans hy
    exact hx (Or.inl hmem)
  · intro j y _ hy hj
    cases hi.symm.trans hy
    exact hx (Or.inr ⟨j, hj⟩)

/-- `i` lets go of what it had. -/
theorem drop (h : OneHolder pool hand) (hi : hand' i = none)
    (hrest : ∀ j, j ≠ i → hand' j = hand j) :
    OneHolder pool hand' := by
  refine h.change hrest ?_ ?_
  · intro y hy
    cases hi.symm.trans hy
  · intro j y _ hy
    cases hi.symm.trans hy

/-- `i` puts what it has into the pool. -/
theorem put (h : OneHolder pool hand) (hx : hand i = some x) (hi : hand' i = none)
    (hrest : ∀ j, j ≠ i → hand' j = hand j) : OneHolder (x :: pool) hand' := by
  have hd := h.drop hi hrest
  refine ⟨List.nodup_cons.mpr ⟨h.apart hx, h.nodup⟩, ?_, hd.once⟩
  intro j y hj
  have hji : j ≠ i := by
    rintro rfl
    cases hi.symm.trans hj
  have hyx : y ≠ x := by
    rintro rfl
    exact hji (h.once (hrest j hji ▸ hj) hx)
  exact fun hmem => (List.mem_cons.mp hmem).elim hyx (hd.apart hj)

/-- `i` picks something up. -/
theorem pick [DecidableEq α] (h : OneHolder pool hand) (hx : x ∈ pool) (hi : hand' i = some x)
    (hrest : ∀ j, j ≠ i → hand' j = hand j) : OneHolder (pool.erase x) hand' := by
  refine ⟨h.nodup.erase x, ?_, ?_⟩
  · intro j y hj hmem
    by_cases hji : j = i
    · cases hi.symm.trans (hji ▸ hj)
      exact (h.nodup.mem_erase_iff.mp hmem).1 rfl
    · exact h.apart (hrest j hji ▸ hj) (List.mem_of_mem_erase hmem)
  · intro j k y hj hk
    by_cases hji : j = i
    · by_cases hki : k = i
      · rw [hji, hki]
      · cases hi.symm.trans (hji ▸ hj)
        exact absurd hx (h.apart (hrest k hki ▸ hk))
    · by_cases hki : k = i
      · cases hi.symm.trans (hki ▸ hk)
        exact absurd hx (h.apart (hrest j hji ▸ hj))
      · exact h.once (hrest j hji ▸ hj) (hrest k hki ▸ hk)

end OneHolder

/-! ## Nothing gets lost -/

section Somewhere

variable (hrest : ∀ j, j ≠ i → hand' j = hand j)

include hrest

/-- What anybody but `i` has, is still there. -/
theorem somewhere_others {j : ι} (hj : j ≠ i) (hy : hand j = some y) : Somewhere pool hand' y :=
  Or.inr ⟨j, (hrest j hj).trans hy⟩

theorem somewhere_put (hx : hand i = some x) (hi : hand' i = none) :
    Somewhere (x :: pool) hand' y ↔ Somewhere pool hand y := by
  constructor
  · rintro (hy | ⟨j, hj⟩)
    · rcases List.mem_cons.mp hy with rfl | hy
      · exact Or.inr ⟨i, hx⟩
      · exact Or.inl hy
    · have hji : j ≠ i := by
        rintro rfl
        cases hi.symm.trans hj
      exact Or.inr ⟨j, (hrest j hji).symm.trans hj⟩
  · rintro (hy | ⟨j, hj⟩)
    · exact Or.inl (List.mem_cons_of_mem _ hy)
    · by_cases hji : j = i
      · cases hx.symm.trans (hji ▸ hj)
        exact Or.inl (List.mem_cons_self ..)
      · exact somewhere_others hrest hji hj

theorem somewhere_pick [DecidableEq α] (h : OneHolder pool hand) (hx : x ∈ pool)
    (hnone : hand i = none) (hi : hand' i = some x) :
    Somewhere (pool.erase x) hand' y ↔ Somewhere pool hand y := by
  constructor
  · rintro (hy | ⟨j, hj⟩)
    · exact Or.inl (List.mem_of_mem_erase hy)
    · by_cases hji : j = i
      · cases hi.symm.trans (hji ▸ hj)
        exact Or.inl hx
      · exact Or.inr ⟨j, (hrest j hji).symm.trans hj⟩
  · rintro (hy | ⟨j, hj⟩)
    · by_cases hyx : y = x
      · exact Or.inr ⟨i, hyx ▸ hi⟩
      · exact Or.inl (h.nodup.mem_erase_iff.mpr ⟨hyx, hy⟩)
    · have hji : j ≠ i := by
        rintro rfl
        cases hnone.symm.trans hj
      exact somewhere_others hrest hji hj

theorem somewhere_bring (hnone : hand i = none) (hi : hand' i = some x) :
    Somewhere pool hand' y ↔ y = x ∨ Somewhere pool hand y := by
  constructor
  · rintro (hy | ⟨j, hj⟩)
    · exact Or.inr (Or.inl hy)
    · by_cases hji : j = i
      · exact Or.inl (Option.some.inj ((hji ▸ hj).symm.trans hi))
      · exact Or.inr (Or.inr ⟨j, (hrest j hji).symm.trans hj⟩)
  · rintro (rfl | hy | ⟨j, hj⟩)
    · exact Or.inr ⟨i, hi⟩
    · exact Or.inl hy
    · have hji : j ≠ i := by
        rintro rfl
        cases hnone.symm.trans hj
      exact somewhere_others hrest hji hj

theorem somewhere_drop (h : OneHolder pool hand) (hx : hand i = some x) (hi : hand' i = none) :
    Somewhere pool hand' y ↔ y ≠ x ∧ Somewhere pool hand y := by
  constructor
  · rintro (hy | ⟨j, hj⟩)
    · exact ⟨fun he => h.apart hx (he ▸ hy), Or.inl hy⟩
    · have hji : j ≠ i := by
        rintro rfl
        cases hi.symm.trans hj
      have hj' := (hrest j hji).symm.trans hj
      exact ⟨fun he => hji (h.once hj' (he ▸ hx)), Or.inr ⟨j, hj'⟩⟩
  · rintro ⟨hne, hy | ⟨j, hj⟩⟩
    · exact Or.inl hy
    · have hji : j ≠ i := by
        rintro rfl
        exact hne (Option.some.inj (hj.symm.trans hx))
      exact somewhere_others hrest hji hj

end Somewhere

end Lib.Hands

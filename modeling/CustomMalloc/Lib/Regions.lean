import Mathlib.Data.Nat.Basic

/-!
# Named regions of an address space

A layout names the regions of an address space: `has ρ x` says that address `x`
belongs to the region `ρ`. The one law of a layout is that an address has at
most one name, and that everything named is backed by memory the system
actually owns (`covered`). A region is added at addresses that were not covered
before and goes away together with its backing.
-/

namespace Lib.Regions

variable {ι : Type} {covered covered' : Nat → Prop} {has has' : ι → Nat → Prop}

/-- Regions are backed and do not overlap. -/
structure Layout (covered : Nat → Prop) (has : ι → Nat → Prop) : Prop where
  backed : ∀ {i x}, has i x → covered x
  apart : ∀ {i j x}, has i x → has j x → i = j

/-- Two regions that contain whole ranges keep these apart. -/
theorem Layout.ranges_apart (h : Layout covered has) {i j : ι} (hne : i ≠ j) {a m b n : Nat}
    (hm : 0 < m) (hn : 0 < n) (hi : ∀ x, a ≤ x → x < a + m → has i x)
    (hj : ∀ x, b ≤ x → x < b + n → has j x) : a + m ≤ b ∨ b + n ≤ a := by
  by_contra hc
  -- the larger of the two starts would lie in both ranges
  rcases Nat.le_total a b with hab | hab
  · exact hne (h.apart (hi b hab (by omega)) (hj b (by omega) (by omega)))
  · exact hne (h.apart (hi a (by omega) (by omega)) (hj a hab (by omega)))

/-- Fewer regions, more backing. -/
theorem Layout.mono (h : Layout covered has) (hs : ∀ i x, has' i x → has i x)
    (hc : ∀ x, covered x → covered' x) : Layout covered' has' :=
  ⟨fun hx => hc _ (h.backed (hs _ _ hx)), fun hi hj => h.apart (hs _ _ hi) (hs _ _ hj)⟩

/-- A region `k` on fresh addresses `N`. -/
theorem Layout.add (h : Layout covered has) {k : ι} {N : Nat → Prop}
    (hs : ∀ i x, has' i x → has i x ∨ (i = k ∧ N x)) (hc : ∀ x, covered x → covered' x)
    (hfresh : ∀ x, N x → ¬ covered x) (hnew : ∀ x, N x → covered' x) :
    Layout covered' has' := by
  refine ⟨fun {i x} hx => ?_, fun {i j x} hi hj => ?_⟩
  · rcases hs i x hx with hx | ⟨-, hx⟩
    · exact hc x (h.backed hx)
    · exact hnew x hx
  · rcases hs i x hi with hi | ⟨rfl, hi⟩ <;> rcases hs j x hj with hj | ⟨rfl, hj⟩
    · exact h.apart hi hj
    · exact absurd (h.backed hi) (hfresh x hj)
    · exact absurd (h.backed hj) (hfresh x hi)
    · rfl

/-- The region `k` goes away with its backing. -/
theorem Layout.remove (h : Layout covered has) {k : ι}
    (hs : ∀ i x, has' i x → has i x ∧ i ≠ k) (hc : ∀ x, covered x → ¬ has k x → covered' x) :
    Layout covered' has' := by
  refine ⟨fun {i x} hx => ?_, fun hi hj => h.apart (hs _ _ hi).1 (hs _ _ hj).1⟩
  obtain ⟨hx, hne⟩ := hs i x hx
  exact hc x (h.backed hx) fun hk => hne (h.apart hx hk)

end Lib.Regions

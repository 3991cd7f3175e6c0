import Mathlib.Algebra.BigOperators.Group.Finset.Basic

/-!
# Sums and counts that change at one index
-/

namespace Lib.Sums

open Finset

/-- Two sums that differ at one index only. -/
theorem sum_change {ι M : Type} [DecidableEq ι] [AddCommMonoid M] {S : Finset ι} {i : ι}
    (hi : i ∈ S) {f g : ι → M} (h : ∀ j ∈ S, j ≠ i → f j = g j) :
    ∑ j ∈ S, f j + g i = ∑ j ∈ S, g j + f i := by
  have hrest : ∑ j ∈ S.erase i, f j = ∑ j ∈ S.erase i, g j :=
    sum_congr rfl fun j hj => h j (mem_of_mem_erase hj) (ne_of_mem_erase hj)
  rw [← add_sum_erase S f hi, ← add_sum_erase S g hi, hrest, add_right_comm, add_comm (f i),
    add_right_comm (g i)]

/-- Counting with a test that passes one element more. -/
theorem countP_flip {ι : Type} [DecidableEq ι] {l : List ι} (hnd : l.Nodup) {i : ι} (hi : i ∈ l)
    {p q : ι → Bool} (hp : p i = false) (hq : q i = true) (hsame : ∀ j ∈ l, j ≠ i → q j = p j) :
    l.countP q = l.countP p + 1 := by
  have hperm := List.perm_cons_erase hi
  have hrest : (l.erase i).countP q = (l.erase i).countP p := by
    refine List.countP_congr fun j hj => ?_
    obtain ⟨hne, hj⟩ := hnd.mem_erase_iff.mp hj
    rw [hsame j hj hne]
  rw [hperm.countP_eq, hperm.countP_eq, List.countP_cons, List.countP_cons, hrest, hp, hq]
  simp

end Lib.Sums

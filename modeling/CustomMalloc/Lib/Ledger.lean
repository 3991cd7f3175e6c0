import CustomMalloc.Lib.Sums
import Mathlib.Data.Nat.ModEq
import Mathlib.Data.Fintype.Basic

/-!
# A counter with entries still to be made

Several parties change a quantity `N` and keep a counter `V` of it, each in two steps: first the
quantity, then the counter. In between, party `i` still has `plus i` to add or `minus i` to
subtract. The counter wraps at `M`. `Reconciled` is the invariant; a step of one party keeps it if
the step balances for that party (`Reconciled.step`).
-/

namespace Lib.Ledger

open Lib.Sums

variable {ι : Type} [Fintype ι] {M V V' N N' : Nat}
  {plus plus' minus minus' : ι → Nat} {i : ι}

/-- The counter is the quantity, up to what is still to be added and subtracted. -/
def Reconciled (M V : Nat) (plus minus : ι → Nat) (N : Nat) : Prop :=
  V + ∑ i, plus i ≡ N + ∑ i, minus i [MOD M]

/-- Nobody has anything left to do. -/
theorem Reconciled.settled (h : Reconciled M V plus minus N) (hp : ∀ i, plus i = 0)
    (hm : ∀ i, minus i = 0) : V ≡ N [MOD M] := by
  unfold Reconciled at h
  rwa [Finset.sum_eq_zero fun i _ => hp i, Finset.sum_eq_zero fun i _ => hm i] at h

variable [DecidableEq ι]

/-- **Step lemma**: only party `i` changes what it has to do. -/
theorem Reconciled.step (h : Reconciled M V plus minus N) (hp : ∀ j, j ≠ i → plus' j = plus j)
    (hm : ∀ j, j ≠ i → minus' j = minus j)
    (hstep : V' + plus' i + (N + minus i) ≡ V + plus i + (N' + minus' i) [MOD M]) :
    Reconciled M V' plus' minus' N' := by
  have hplus := sum_change (Finset.mem_univ i) fun j _ hj => hp j hj
  have hminus := sum_change (Finset.mem_univ i) fun j _ hj => hm j hj
  unfold Reconciled at h ⊢
  refine Nat.ModEq.add_right_cancel' (plus i + (N + minus i) + ∑ j, minus j) ?_
  calc V' + ∑ j, plus' j + (plus i + (N + minus i) + ∑ j, minus j)
      = V' + plus' i + (N + minus i) + (∑ j, plus j + ∑ j, minus j) := by omega
    _ ≡ V + plus i + (N' + minus' i) + (∑ j, plus j + ∑ j, minus j) [MOD M] := hstep.add_right _
    _ = (V + ∑ j, plus j) + (plus i + N' + minus' i + ∑ j, minus j) := by omega
    _ ≡ (N + ∑ j, minus j) + (plus i + N' + minus' i + ∑ j, minus j) [MOD M] := h.add_right _
    _ = N' + ∑ j, minus' j + (plus i + (N + minus i) + ∑ j, minus j) := by omega

end Lib.Ledger

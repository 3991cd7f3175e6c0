import Mathlib.Algebra.Order.Ring.Nat

/-!
# Unsigned 64-bit arithmetic on `Nat`

Machine words are natural numbers below `2 ^ 64`; an operation that can wrap
says so with an explicit `% 2 ^ 64`. The one idiom with a law of its own is the
C rounding `(x + a - 1) & ~(a - 1)`: `alignUp64` is that expression, wrap
included, and `alignUp` is what it is meant to compute. For a power of two they
agree exactly while the sum fits a word (`alignUp64_eq`), and past that the C
expression is `0` (`alignUp64_wrap`). For an alignment that is no power of two
the mask is not a rounding, but it stays within the alignment above `x`
(`alignUp64_bounds`) and clears no bit that was clear (`dvd_alignUp64`).
-/

namespace Lib.Words

/-- `(x + a - 1) & ~(a - 1)` on 64-bit words. -/
def alignUp64 (a x : Nat) : Nat := (x + a - 1) % 2 ^ 64 &&& (2 ^ 64 - a)

/-- The least multiple of `a` that is at least `x`. -/
def alignUp (a x : Nat) : Nat := (x + a - 1) / a * a

/-- Subtraction modulo `2 ^ 16`, for numbers below `2 ^ 16`. -/
def sub16 (a b : Nat) : Nat := if b ≤ a then a - b else 2 ^ 16 - (b - a)

theorem sub16_of_le {a b : Nat} (h : b ≤ a) : sub16 a b = a - b := if_pos h

theorem sub16_lt {a b : Nat} (ha : a < 2 ^ 16) : sub16 a b < 2 ^ 16 := by
  unfold sub16
  split <;> omega

theorem sub16_eq_mod {a b : Nat} (ha : a < 2 ^ 16) (hb : b < 2 ^ 16) :
    sub16 a b = (a + (2 ^ 16 - b)) % 2 ^ 16 := by
  unfold sub16
  split <;> omega

theorem le_alignUp {a : Nat} (ha : 0 < a) (x : Nat) : x ≤ alignUp a x := by
  unfold alignUp
  have h := Nat.div_add_mod (x + a - 1) a
  have hlt := Nat.mod_lt (x + a - 1) ha
  rw [Nat.mul_comm] at h
  omega

theorem alignUp_lt {a : Nat} (ha : 0 < a) (x : Nat) : alignUp a x < x + a := by
  unfold alignUp
  have h := Nat.div_mul_le_self (x + a - 1) a
  omega

theorem dvd_alignUp (a x : Nat) : a ∣ alignUp a x := Nat.dvd_mul_left _ _

/-- No multiple of `a` at or above `x` is below `alignUp a x`. -/
theorem alignUp_le {a x y : Nat} (ha : 0 < a) (hxy : x ≤ y) (hy : a ∣ y) :
    alignUp a x ≤ y := by
  obtain ⟨q, rfl⟩ := hy
  unfold alignUp
  have hq : (x + a - 1) / a ≤ q := by
    apply Nat.le_of_lt_succ
    rw [Nat.div_lt_iff_lt_mul ha, Nat.succ_mul, Nat.mul_comm q a]
    omega
  rw [Nat.mul_comm a q]
  exact Nat.mul_le_mul_right a hq

theorem alignUp_of_dvd {a x : Nat} (ha : 0 < a) (h : a ∣ x) : alignUp a x = x :=
  Nat.le_antisymm (alignUp_le ha (Nat.le_refl x) h) (le_alignUp ha x)

theorem alignUp_mono {a x y : Nat} (ha : 0 < a) (h : x ≤ y) : alignUp a x ≤ alignUp a y :=
  alignUp_le ha (Nat.le_trans h (le_alignUp ha y)) (dvd_alignUp a y)

theorem alignUp_pos {a x : Nat} (ha : 0 < a) (hx : 0 < x) : 0 < alignUp a x :=
  Nat.lt_of_lt_of_le hx (le_alignUp ha x)

/-- Clearing the low `k` bits of a word rounds down to a multiple of `2 ^ k`. -/
theorem and_highMask {k x : Nat} (hk : k ≤ 64) (hx : x < 2 ^ 64) :
    x &&& (2 ^ 64 - 2 ^ k) = x / 2 ^ k * 2 ^ k := by
  apply Nat.eq_of_testBit_eq
  intro i
  have hmask : 2 ^ 64 - 2 ^ k = (2 ^ (64 - k) - 1) * 2 ^ k := by
    rw [Nat.sub_mul, ← Nat.pow_add, Nat.one_mul, Nat.sub_add_cancel hk]
  rw [Nat.testBit_and, hmask, Nat.testBit_mul_two_pow, Nat.testBit_mul_two_pow,
    Nat.testBit_two_pow_sub_one, Nat.testBit_div_two_pow]
  by_cases hik : k ≤ i
  · rw [Nat.sub_add_cancel hik]
    by_cases hi : i < 64
    · simp [hik, show i - k < 64 - k by omega]
    · have hbig : x.testBit i = false :=
        Nat.testBit_lt_two_pow (Nat.lt_of_lt_of_le hx (Nat.pow_le_pow_right (by decide) (by omega)))
      simp [hbig]
  · simp [hik]

/-- While the sum fits a word, the C rounding is the mathematical one. -/
theorem alignUp64_eq {k x : Nat} (hk : k ≤ 64) (hx : x + 2 ^ k - 1 < 2 ^ 64) :
    alignUp64 (2 ^ k) x = alignUp (2 ^ k) x := by
  unfold alignUp64 alignUp
  rw [Nat.mod_eq_of_lt hx, and_highMask hk hx]

/-- Past the end of the word the C rounding yields `0`. -/
theorem alignUp64_wrap {k x : Nat} (hk : k ≤ 63) (hx : x < 2 ^ 64)
    (hw : 2 ^ 64 ≤ x + 2 ^ k - 1) : alignUp64 (2 ^ k) x = 0 := by
  have hk64 : 2 ^ k ≤ 2 ^ 63 := Nat.pow_le_pow_right (by decide) hk
  have hsmall : (x + 2 ^ k - 1) % 2 ^ 64 = x + 2 ^ k - 1 - 2 ^ 64 := by
    rw [Nat.mod_eq_sub_mod hw, Nat.mod_eq_of_lt (by omega)]
  unfold alignUp64
  rw [hsmall, and_highMask (by omega) (by omega), Nat.div_eq_of_lt (by omega), Nat.zero_mul]

/-! ## Any alignment -/

/-- A word is the bits inside a mask and the bits outside it. -/
theorem and_add_and_compl {y m : Nat} (hy : y < 2 ^ 64) (hm : m < 2 ^ 64) :
    (y &&& m) + (y &&& (2 ^ 64 - 1 - m)) = y := by
  have hdis : (BitVec.ofNat 64 y &&& BitVec.ofNat 64 m) &&&
      (BitVec.ofNat 64 y &&& ~~~BitVec.ofNat 64 m) = 0#64 := by
    ext i hi
    simp only [BitVec.getElem_and, BitVec.getElem_not, BitVec.getElem_zero]
    cases (BitVec.ofNat 64 m)[i] <;> simp
  have hor : (BitVec.ofNat 64 y &&& BitVec.ofNat 64 m) |||
      (BitVec.ofNat 64 y &&& ~~~BitVec.ofNat 64 m) = BitVec.ofNat 64 y := by
    ext i hi
    simp only [BitVec.getElem_and, BitVec.getElem_not, BitVec.getElem_or]
    cases (BitVec.ofNat 64 m)[i] <;> simp
  have hsum := BitVec.toNat_add_of_and_eq_zero hdis
  rw [BitVec.add_eq_or_of_and_eq_zero _ _ hdis, hor] at hsum
  simp only [BitVec.toNat_and, BitVec.toNat_not, BitVec.toNat_ofNat, Nat.mod_eq_of_lt hy,
    Nat.mod_eq_of_lt hm] at hsum
  exact hsum.symm

/-- Whatever the alignment, the C rounding goes up by less than it. -/
theorem alignUp64_bounds {a x : Nat} (ha : 0 < a) (hx : x + a - 1 < 2 ^ 64) :
    x ≤ alignUp64 a x ∧ alignUp64 a x ≤ x + a - 1 := by
  have hsplit := and_add_and_compl hx (m := a - 1) (by omega)
  have hle : x + a - 1 &&& a - 1 ≤ a - 1 := Nat.and_le_right
  unfold alignUp64
  rw [Nat.mod_eq_of_lt hx, show 2 ^ 64 - a = 2 ^ 64 - 1 - (a - 1) by omega]
  omega

/-- Rounding an aligned word keeps it aligned. -/
theorem dvd_alignUp64 {a x k : Nat} (ha : 0 < a) (hx : x + a - 1 < 2 ^ 64) (hk : 2 ^ k ∣ x) :
    2 ^ k ∣ alignUp64 a x := by
  have hlow : (x + a - 1) % 2 ^ k = (a - 1) % 2 ^ k := by
    rw [Nat.add_sub_assoc ha, Nat.add_mod, Nat.mod_eq_zero_of_dvd hk, Nat.zero_add, Nat.mod_mod]
  apply Nat.dvd_of_mod_eq_zero
  apply Nat.eq_of_testBit_eq
  intro i
  unfold alignUp64
  rw [Nat.mod_eq_of_lt hx, show 2 ^ 64 - a = 2 ^ 64 - (a - 1 + 1) by omega, Nat.zero_testBit,
    Nat.testBit_mod_two_pow, Nat.testBit_and, Nat.testBit_two_pow_sub_succ (by omega)]
  by_cases hi : i < k
  · -- below `k` the sum has the bits of the mask
    have hbit : (x + a - 1).testBit i = (a - 1).testBit i := by
      have h₁ := Nat.testBit_mod_two_pow (x + a - 1) k i
      have h₂ := Nat.testBit_mod_two_pow (a - 1) k i
      rw [hlow, h₂] at h₁
      simpa [hi] using h₁.symm
    rw [hbit]
    cases (a - 1).testBit i <;> simp
  · simp [hi]

end Lib.Words

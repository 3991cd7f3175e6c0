import Mathlib.Algebra.Order.Ring.Nat

/-!
# Byte-addressed memory

Memory is a total function from addresses to bytes. A pointer-sized field is
the little-endian word of its eight bytes; `memset`, `memcpy` and the kernel's
zero pages are pointwise descriptions of the bytes they leave behind.

Every law here is a frame law or a read-back law: what a write leaves at the
addresses it covers, and that it leaves everything else alone.
-/

namespace Lib.Bytes

/-- Memory contents. -/
abbrev Mem := Nat → UInt8

/-- The little-endian number in the `n` bytes at `a`. -/
def readLE (m : Mem) (a : Nat) : Nat → Nat
  | 0 => 0
  | n + 1 => (m a).toNat + 256 * readLE m (a + 1) n

/-- `m` with the `n` low bytes of `v` stored at `a`. -/
def writeLE (m : Mem) (a v n : Nat) : Mem := fun x =>
  if a ≤ x ∧ x < a + n then UInt8.ofNat (v / 256 ^ (x - a)) else m x

/-- `*(void **)a`. -/
def readWord (m : Mem) (a : Nat) : Nat := readLE m a 8

/-- `*(void **)a = v`. -/
def writeWord (m : Mem) (a v : Nat) : Mem := writeLE m a v 8

/-- `memset(a, 0, n)`; also what a fresh mapping of `n` bytes at `a` reads as. -/
def fillZero (m : Mem) (a n : Nat) : Mem := fun x =>
  if a ≤ x ∧ x < a + n then 0 else m x

/-- `memcpy(dst, src, n)` for ranges that do not overlap. -/
def copy (m : Mem) (dst src n : Nat) : Mem := fun x =>
  if dst ≤ x ∧ x < dst + n then m (src + (x - dst)) else m x

theorem readLE_congr {m m' : Mem} :
    ∀ {n a : Nat}, (∀ x, a ≤ x → x < a + n → m x = m' x) → readLE m a n = readLE m' a n
  | 0, _, _ => rfl
  | n + 1, a, h => by
    unfold readLE
    rw [h a (Nat.le_refl a) (by omega)]
    have ih : readLE m (a + 1) n = readLE m' (a + 1) n :=
      readLE_congr fun x hx hlt => h x (by omega) (by omega)
    rw [ih]

/-- Reading back what `writeLE` stored, generalised over the part already read:
`a` is the cursor and `v` the digits not yet consumed. -/
theorem readLE_of_digits {m : Mem} :
    ∀ {n a v : Nat}, v < 256 ^ n →
      (∀ i, i < n → (m (a + i)).toNat = v / 256 ^ i % 256) → readLE m a n = v
  | 0, _, v, hv, _ => by
    simp only [Nat.pow_zero] at hv
    unfold readLE
    omega
  | n + 1, a, v, hv, h => by
    unfold readLE
    have hrest : readLE m (a + 1) n = v / 256 := by
      apply readLE_of_digits
      · rw [Nat.pow_succ] at hv
        exact Nat.div_lt_of_lt_mul (by rw [Nat.mul_comm]; exact hv)
      · intro i hi
        have := h (i + 1) (by omega)
        rw [show a + (i + 1) = a + 1 + i by omega, Nat.pow_succ', ← Nat.div_div_eq_div_mul] at this
        exact this
    have hfirst := h 0 (by omega)
    simp only [Nat.add_zero, Nat.pow_zero, Nat.div_one] at hfirst
    rw [hrest, hfirst]
    omega

theorem readLE_writeLE {m : Mem} {a v n : Nat} (hv : v < 256 ^ n) :
    readLE (writeLE m a v n) a n = v := by
  apply readLE_of_digits hv
  intro i hi
  unfold writeLE
  rw [if_pos ⟨by omega, by omega⟩, Nat.add_sub_cancel_left, UInt8.toNat_ofNat']

/-- A number is zero when all its bytes are. -/
theorem readLE_eq_zero_iff {m : Mem} :
    ∀ {n a : Nat}, readLE m a n = 0 ↔ ∀ x, a ≤ x → x < a + n → m x = 0
  | 0, a => by
    simp only [readLE, true_iff]
    intro x h₁ h₂
    omega
  | n + 1, a => by
    have ih := readLE_eq_zero_iff (m := m) (n := n) (a := a + 1)
    have hfirst : (m a).toNat = 0 ↔ m a = 0 := UInt8.toNat_inj (b := 0)
    unfold readLE
    constructor
    · intro h x h₁ h₂
      by_cases hx : x = a
      · rw [hx]
        exact hfirst.mp (by omega)
      · exact ih.mp (by omega) x (by omega) (by omega)
    · intro h
      rw [ih.mpr fun x h₁ h₂ => h x (by omega) (by omega),
        hfirst.mpr (h a (Nat.le_refl a) (by omega))]

theorem readWord_eq_zero_iff {m : Mem} {a : Nat} :
    readWord m a = 0 ↔ ∀ x, a ≤ x → x < a + 8 → m x = 0 := readLE_eq_zero_iff

theorem readWord_congr {m m' : Mem} {a : Nat} (h : ∀ x, a ≤ x → x < a + 8 → m x = m' x) :
    readWord m a = readWord m' a := readLE_congr h

theorem readWord_writeWord {m : Mem} {a v : Nat} (hv : v < 2 ^ 64) :
    readWord (writeWord m a v) a = v := readLE_writeLE hv

theorem writeWord_out {m : Mem} {a v x : Nat} (h : x < a ∨ a + 8 ≤ x) :
    writeWord m a v x = m x := by
  unfold writeWord writeLE
  rw [if_neg (by omega)]

theorem readWord_writeWord_ne {m : Mem} {a b v : Nat} (h : b + 8 ≤ a ∨ a + 8 ≤ b) :
    readWord (writeWord m a v) b = readWord m b :=
  readWord_congr fun x hx hlt => writeWord_out (by omega)

theorem fillZero_in {m : Mem} {a n x : Nat} (h₁ : a ≤ x) (h₂ : x < a + n) :
    fillZero m a n x = 0 := by
  unfold fillZero
  rw [if_pos ⟨h₁, h₂⟩]

theorem fillZero_out {m : Mem} {a n x : Nat} (h : x < a ∨ a + n ≤ x) :
    fillZero m a n x = m x := by
  unfold fillZero
  rw [if_neg (by omega)]

theorem copy_in {m : Mem} {dst src n i : Nat} (h : i < n) :
    copy m dst src n (dst + i) = m (src + i) := by
  unfold copy
  rw [if_pos ⟨by omega, by omega⟩, Nat.add_sub_cancel_left]

theorem copy_out {m : Mem} {dst src n x : Nat} (h : x < dst ∨ dst + n ≤ x) :
    copy m dst src n x = m x := by
  unfold copy
  rw [if_neg (by omega)]

end Lib.Bytes

import CustomMalloc.Config
import CustomMalloc.Lib.Words

/-!
# Size classes (`size_class.c`)

`sizeClassInit` builds the two lookup tables the way `size_class_init` does,
loop by loop. The medium sizes come from a running `double` that is multiplied
by 1.125; `Dbl` is that arithmetic on positive numbers, rounded to 53 bits with
ties to even, so the table is the one the C program computes.

`sizeToBin` and `binToSize` are the lookups; the first one takes the table as
an argument because its binary search is correct for every sorted table.
-/

namespace CustomMalloc

open Lib.Words

/-! ## The running double -/

/-- A positive `double` with value `mant / 2 ^ scale`. -/
structure Dbl where
  mant : Nat
  scale : Nat
  deriving DecidableEq, Repr

/-- `(double)n` for a small integer. -/
def Dbl.ofNat (n : Nat) : Dbl := ⟨n, 0⟩

/-- `1.125`. -/
def Dbl.ninthEighths : Dbl := ⟨9, 3⟩

/-- Round to a 53-bit significand, ties to even. -/
def Dbl.round (x : Dbl) : Dbl :=
  let drop := x.mant.log2 + 1 - 53
  let q := x.mant / 2 ^ drop
  let r := x.mant % 2 ^ drop
  let half := 2 ^ drop / 2
  let q := if drop ≠ 0 ∧ (half < r ∨ r = half ∧ q % 2 = 1) then q + 1 else q
  if drop ≤ x.scale then ⟨q, x.scale - drop⟩ else ⟨q * 2 ^ (drop - x.scale), 0⟩

/-- `x * y` in double precision. -/
def Dbl.mul (x y : Dbl) : Dbl := Dbl.round ⟨x.mant * y.mant, x.scale + y.scale⟩

/-- `(size_t)x`. -/
def Dbl.trunc (x : Dbl) : Nat := x.mant / 2 ^ x.scale

/-- `x < (double)n`. -/
def Dbl.ltNat (x : Dbl) (n : Nat) : Bool := decide (x.mant < n * 2 ^ x.scale)

/-! ## The tables -/

/-- `g_state.bin_size` and `g_state.size_to_bin_small`. -/
structure SizeTables where
  binSize : List Nat
  sizeToBinSmall : List Nat
  deriving DecidableEq, Repr

/-- One medium class: round up to 16, keep above the small classes and strictly
above the previous class, clamp at `MEDIUM_MAX`. -/
def mediumClass (bin prev truncated : Nat) : Nat :=
  let rounded := (truncated + 15) / 16 * 16
  let rounded := if rounded ≤ smallMax then smallMax + 16 else rounded
  let rounded := if smallBinCount < bin ∧ rounded ≤ prev then prev + 16 else rounded
  if mediumMax < rounded then mediumMax else rounded

/-- The medium loop from `bin` on: `prev` is `bin_size[bin - 1]`, and the first
argument counts the bins left, `BIN_COUNT - bin`. -/
def mediumBins : Nat → Nat → Dbl → Nat → List Nat
  | 0, _, _, _ => []
  | left + 1, bin, size, prev =>
    if size.ltNat mediumMax then
      let size := size.mul Dbl.ninthEighths
      let rounded := mediumClass bin prev size.trunc
      -- `if (rounded >= MEDIUM_MAX) break;`
      rounded :: if mediumMax ≤ rounded then [] else mediumBins left (bin + 1) size rounded
    else []

/-- `size_class_init`. -/
def sizeClassInit : SizeTables :=
  let small := (List.range smallBinCount).map fun i => (i + 1) * 8
  let medium := mediumBins (binCount - smallBinCount) smallBinCount (Dbl.ofNat smallMax)
    (small.getLastD 0)
  let filled := small ++ medium
  { binSize := filled ++ List.replicate (binCount - filled.length) (filled.getLastD 0)
    sizeToBinSmall := (List.range (smallMax / 8 + 1)).map fun s => if 0 < s then s - 1 else 0 }

/-- The binary search of `size_to_bin`; `fuel` bounds the number of halvings. -/
def binSearch (binSize : Nat → Nat) (size : Nat) : Nat → Nat → Nat → Nat
  | 0, lo, _ => lo
  | fuel + 1, lo, hi =>
    if lo < hi then
      let mid := (lo + hi) / 2
      if binSize mid < size then binSearch binSize size fuel (mid + 1) hi
      else binSearch binSize size fuel lo mid
    else lo

/-- `size_to_bin`. -/
def sizeToBin (t : SizeTables) (size : Nat) : Nat :=
  let size := if size = 0 then 1 else size
  let size := alignUp64 8 size
  if size ≤ smallMax then t.sizeToBinSmall.getD (size / 8) 0
  else binSearch (fun i => t.binSize.getD i 0) size (binCount - smallBinCount) smallBinCount
    (binCount - 1)

/-- `bin_to_size`. -/
def binToSize (t : SizeTables) (bin : Nat) : Nat :=
  if binCount ≤ bin then mediumMax else t.binSize.getD bin 0

/-- The tables after `malloc_init`; nothing writes them later. -/
def sizeTables : SizeTables := sizeClassInit

theorem sizeTables_binSize : sizeTables.binSize =
    [8, 16, 24, 32, 40, 48, 56, 64, 72, 80, 88, 96, 104, 112, 120, 128, 144, 176, 192, 208, 240,
      272, 304, 336, 384, 416, 480, 528, 592, 672, 752, 848, 960, 1072, 1200, 1360, 1520, 1712,
      1936, 2176, 2432, 2736, 3088, 3472, 3904, 4384, 4944, 5552, 6240, 7024, 7904, 8896, 10000,
      11248, 12656, 14240, 16016, 18016, 20272, 22800, 25664, 28864, 32464, 36528, 41088, 46224,
      52000, 58512, 65824, 74048, 83296, 93712, 105424, 118592, 131072] := by
  decide +kernel

theorem sizeTables_small : sizeTables.sizeToBinSmall =
    [0, 0, 1, 2, 3, 4, 5, 6, 7, 8, 9, 10, 11, 12, 13, 14, 15] := by
  decide +kernel

/-! ## The binary search -/

/-- On a table that is non-decreasing from `lo` to `hi` and whose last entry
fits, the search returns the least fitting bin of the range. -/
theorem binSearch_spec {b : Nat → Nat} {size : Nat} :
    ∀ (fuel lo hi : Nat), lo ≤ hi → hi - lo ≤ fuel →
      (∀ i j, lo ≤ i → i ≤ j → j ≤ hi → b i ≤ b j) → size ≤ b hi →
      lo ≤ binSearch b size fuel lo hi ∧ binSearch b size fuel lo hi ≤ hi ∧
      size ≤ b (binSearch b size fuel lo hi) ∧
      ∀ i, lo ≤ i → i < binSearch b size fuel lo hi → b i < size
  | 0, lo, hi, hle, hf, _, hfit => by
    have he : lo = hi := by omega
    subst he
    exact ⟨Nat.le_refl _, Nat.le_refl _, hfit,
      fun i h₁ h₂ => absurd h₂ (by simp [binSearch]; omega)⟩
  | fuel + 1, lo, hi, hle, hf, hmono, hfit => by
    unfold binSearch
    split
    next hlt =>
      simp only
      split
      next hsmall =>
        -- everything up to `mid` is too small
        obtain ⟨h₁, h₂, h₃, h₄⟩ := binSearch_spec fuel ((lo + hi) / 2 + 1) hi (by omega) (by omega)
          (fun i j hi' hij hj => hmono i j (by omega) hij hj) hfit
        refine ⟨by omega, h₂, h₃, fun i hi₁ hi₂ => ?_⟩
        rcases Nat.lt_or_ge ((lo + hi) / 2) i with hc | hc
        · exact h₄ i hc hi₂
        · exact Nat.lt_of_le_of_lt (hmono i _ hi₁ hc (by omega)) hsmall
      next hbig =>
        obtain ⟨h₁, h₂, h₃, h₄⟩ := binSearch_spec fuel lo ((lo + hi) / 2) (by omega) (by omega)
          (fun i j hi' hij hj => hmono i j hi' hij (by omega)) (Nat.le_of_not_lt hbig)
        exact ⟨h₁, by omega, h₃, h₄⟩
    next hge =>
      have he : lo = hi := by omega
      subst he
      exact ⟨Nat.le_refl _, Nat.le_refl _, hfit, fun i h₁ h₂ => absurd h₂ (by omega)⟩

/-! ## The lookup -/

theorem binSize_mono {i j : Nat} (hij : i ≤ j) (hj : j < binCount) :
    sizeTables.binSize.getD i 0 ≤ sizeTables.binSize.getD j 0 := by
  have hstep : ∀ k < 74, sizeTables.binSize.getD k 0 ≤ sizeTables.binSize.getD (k + 1) 0 := by
    rw [sizeTables_binSize]
    decide
  have hj' : j < 75 := hj
  induction j with
  | zero =>
    rw [Nat.le_zero.mp hij]
  | succ j ih =>
    rcases Nat.lt_or_ge j i with hlt | hge
    · rw [show i = j + 1 by omega]
    · exact Nat.le_trans (ih hge (Nat.lt_of_succ_lt hj) (by omega)) (hstep j (by omega))

theorem binSize_bounds {b : Nat} (hb : b < binCount) :
    8 ≤ sizeTables.binSize.getD b 0 ∧ sizeTables.binSize.getD b 0 ≤ mediumMax := by
  have h : ∀ k < 75, 8 ≤ sizeTables.binSize.getD k 0 ∧
      sizeTables.binSize.getD k 0 ≤ mediumMax := by
    rw [sizeTables_binSize]
    decide
  exact h b hb

theorem binToSize_of_lt {b : Nat} (hb : b < binCount) :
    binToSize sizeTables b = sizeTables.binSize.getD b 0 := by
  unfold binToSize
  rw [if_neg (by omega)]

/-- The direct table for sizes up to 128. -/
theorem sizeToBinSmall_spec {k : Nat} (h₁ : 1 ≤ k) (h₂ : k ≤ 16) :
    sizeTables.sizeToBinSmall.getD k 0 = k - 1 ∧ sizeTables.binSize.getD (k - 1) 0 = 8 * k := by
  have h : ∀ j < 17, 1 ≤ j → sizeTables.sizeToBinSmall.getD j 0 = j - 1 ∧
      sizeTables.binSize.getD (j - 1) 0 = 8 * j := by
    rw [sizeTables_small, sizeTables_binSize]
    decide
  exact h k (by omega) h₁

/-- A size the slab serves gets a bin whose slots are large enough. -/
theorem sizeToBin_fits {n : Nat} (h₁ : 1 ≤ n) (h₂ : n ≤ mediumMax) :
    sizeToBin sizeTables n < binCount ∧ n ≤ binToSize sizeTables (sizeToBin sizeTables n) := by
  have hn : n ≤ 131072 := h₂
  have hround : alignUp64 8 n = alignUp 8 n :=
    alignUp64_eq (k := 3) (by decide) (by omega)
  have hge := le_alignUp (a := 8) (by decide) n
  have hle : alignUp 8 n ≤ 131072 := alignUp_le (by decide) hn (by decide)
  have hmin : 8 ≤ alignUp 8 n := by
    have := Nat.le_of_dvd (alignUp_pos (by decide) h₁) (dvd_alignUp 8 n)
    exact this
  unfold sizeToBin
  simp only [hround, if_neg (show ¬ n = 0 by omega)]
  split
  next hs =>
    obtain ⟨q, hq⟩ := dvd_alignUp 8 n
    have hs' : alignUp 8 n ≤ 128 := hs
    obtain ⟨hb, hsz⟩ := sizeToBinSmall_spec (k := alignUp 8 n / 8) (by omega) (by omega)
    have hlt : alignUp 8 n / 8 - 1 < binCount := by simp only [binCount]; omega
    rw [hb, binToSize_of_lt hlt, hsz]
    exact ⟨hlt, by omega⟩
  next hs =>
    have hfit : alignUp 8 n ≤ sizeTables.binSize.getD (binCount - 1) 0 := by
      rw [sizeTables_binSize]
      exact hle
    obtain ⟨-, hhi, hsz, -⟩ := binSearch_spec (b := fun i => sizeTables.binSize.getD i 0)
      (binCount - smallBinCount) smallBinCount (binCount - 1) (by decide) (by decide)
      (fun i j _ hij hj => binSize_mono hij (Nat.lt_of_le_of_lt hj (by decide))) hfit
    have hlt := Nat.lt_of_le_of_lt hhi (by decide : binCount - 1 < binCount)
    rw [binToSize_of_lt hlt]
    exact ⟨hlt, Nat.le_trans hge hsz⟩

end CustomMalloc

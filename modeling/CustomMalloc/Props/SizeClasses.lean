import CustomMalloc.SizeClass
import Mathlib.Order.Bounds.Basic

/-!
# The size classes

What the lookup tables are for: `size_to_bin` picks the least class that fits
(`size_class_least`). The binary search is correct for every sorted table, and
what it looks for is the request rounded up to 8 bytes; that this is the same as
looking for the request itself needs a table whose entries are multiples of 8
(`search_misses_odd_class` has one that is not). The table of `size_class_init`
is such a table.

`exactTables` is the table with the running `double` replaced by the exact value
`128 * (9 / 8) ^ k`. The 53 bits of the `double` stop being exact at the 17th
class, but no truncated value changes (`exactTables_eq`).
-/

namespace CustomMalloc

open Lib.Words

/-! ## The exact table -/

/-- The medium loop of `size_class_init` with the running size `128 * 9 ^ k / 8 ^ k`. -/
def exactBins : Nat → Nat → Nat → Nat → List Nat
  | 0, _, _, _ => []
  | left + 1, bin, k, prev =>
    if smallMax * 9 ^ k < mediumMax * 8 ^ k then
      let rounded := mediumClass bin prev (smallMax * 9 ^ (k + 1) / 8 ^ (k + 1))
      rounded :: if mediumMax ≤ rounded then [] else exactBins left (bin + 1) (k + 1) rounded
    else []

/-- The medium classes before the rest of the table is filled. -/
def exactMedium : List Nat := exactBins (binCount - smallBinCount) smallBinCount 0 smallMax

/-- The tables of `size_class_init`, computed exactly. -/
def exactTables : SizeTables :=
  let small := (List.range smallBinCount).map fun i => (i + 1) * 8
  let filled := small ++ exactMedium
  { binSize := filled ++ List.replicate (binCount - filled.length) (filled.getLastD 0)
    sizeToBinSmall := (List.range (smallMax / 8 + 1)).map fun s => if 0 < s then s - 1 else 0 }

/-- Rounding to 53 bits never reaches the integer part. -/
theorem exactTables_eq : exactTables = sizeTables := by decide +kernel

theorem exactMedium_length : exactMedium.length = binCount - smallBinCount := by decide +kernel

/-! ## What the table looks like -/

/-- `bin_size` is strictly increasing. -/
theorem binSize_strict {i j : Nat} (hij : i < j) (hj : j < binCount) :
    sizeTables.binSize.getD i 0 < sizeTables.binSize.getD j 0 := by
  have hstep : ∀ k < 74, sizeTables.binSize.getD k 0 < sizeTables.binSize.getD (k + 1) 0 := by
    rw [sizeTables_binSize]
    decide
  have hj' : j < 75 := hj
  exact Nat.lt_of_lt_of_le (hstep i (by omega)) (binSize_mono hij hj)

theorem binSize_medium {b : Nat} (h₁ : smallBinCount ≤ b) (h₂ : b < binCount) :
    16 ∣ sizeTables.binSize.getD b 0 := by
  have h : ∀ k < 75, 16 ≤ k → 16 ∣ sizeTables.binSize.getD k 0 := by
    rw [sizeTables_binSize]
    decide
  exact h b h₂ h₁

theorem binSize_small {b : Nat} (h : b < smallBinCount) :
    sizeTables.binSize.getD b 0 = 8 * (b + 1) := by
  have hb : b < 16 := h
  have h := (sizeToBinSmall_spec (k := b + 1) (by omega) (by omega)).2
  rwa [Nat.add_sub_cancel] at h

theorem binSize_last : sizeTables.binSize.getD (binCount - 1) 0 = mediumMax := by
  rw [sizeTables_binSize]
  rfl

/-! ## The search in an arbitrary table -/

/-- The medium classes of a table, as the search sees them. -/
def SizeTables.Sorted (t : SizeTables) : Prop :=
  ∀ i j, smallBinCount ≤ i → i ≤ j → j ≤ binCount - 1 → t.binSize.getD i 0 ≤ t.binSize.getD j 0

/-- In a sorted table `size_to_bin` finds the least class for the rounded size. -/
theorem sizeToBin_sorted {t : SizeTables} (ht : t.Sorted) {size : Nat}
    (hbig : smallMax < alignUp64 8 size)
    (hfit : alignUp64 8 size ≤ t.binSize.getD (binCount - 1) 0) :
    IsLeast {b | smallBinCount ≤ b ∧ alignUp64 8 size ≤ t.binSize.getD b 0} (sizeToBin t size) := by
  have hpos : size ≠ 0 := by
    rintro rfl
    exact absurd hbig (by decide)
  have he : sizeToBin t size = binSearch (fun i => t.binSize.getD i 0) (alignUp64 8 size)
      (binCount - smallBinCount) smallBinCount (binCount - 1) := by
    unfold sizeToBin
    simp only [if_neg hpos, if_neg (Nat.not_le.mpr hbig)]
  obtain ⟨hlo, -, hsz, hleast⟩ := binSearch_spec (b := fun i => t.binSize.getD i 0)
    (binCount - smallBinCount) smallBinCount (binCount - 1) (by decide) (by decide)
    (fun i j hi hij hj => ht i j hi hij hj) hfit
  rw [he]
  refine ⟨⟨hlo, hsz⟩, ?_⟩
  intro b hb
  by_contra hlt
  exact absurd hb.2 (Nat.not_le.mpr (hleast b hb.1 (Nat.not_le.mp hlt)))

/-- The 8-byte rounding is either the mathematical one or `0`. -/
theorem alignUp64_eight {size : Nat} (hsize : size < 2 ^ 64) (hpos : 0 < alignUp64 8 size) :
    alignUp64 8 size = alignUp 8 size := by
  refine alignUp64_eq (k := 3) (by decide) ?_
  by_contra hw
  have := alignUp64_wrap (k := 3) (by decide) hsize (Nat.not_lt.mp hw)
  exact absurd this (Nat.ne_of_gt hpos)

/-- The same for the size itself, when the classes are multiples of 8. -/
theorem sizeToBin_sorted_eights {t : SizeTables} (ht : t.Sorted)
    (h8 : ∀ b, smallBinCount ≤ b → b ≤ binCount - 1 → 8 ∣ t.binSize.getD b 0) {size : Nat}
    (hsize : size < 2 ^ 64) (hbig : smallMax < alignUp64 8 size)
    (hfit : alignUp64 8 size ≤ t.binSize.getD (binCount - 1) 0) :
    IsLeast {b | smallBinCount ≤ b ∧ size ≤ t.binSize.getD b 0} (sizeToBin t size) := by
  have hround := alignUp64_eight hsize (Nat.lt_of_le_of_lt (Nat.zero_le _) hbig)
  obtain ⟨⟨hlo, hsz⟩, hleast⟩ := sizeToBin_sorted ht hbig hfit
  rw [hround] at hsz
  refine ⟨⟨hlo, Nat.le_trans (le_alignUp (by decide) size) hsz⟩, ?_⟩
  intro b hb
  rcases Nat.lt_or_ge (binCount - 1) b with hlt | hge
  · -- the last class is in reach already
    exact Nat.le_trans (hleast ⟨by decide, hfit⟩) (Nat.le_of_lt hlt)
  · refine hleast ⟨hb.1, ?_⟩
    rw [hround]
    exact alignUp_le (by decide) hb.2 (h8 b hb.1 hge)

/-- A sorted table with a class of 129 bytes, which the search passes over for a request of 129. -/
def oddTable : SizeTables where
  binSize := List.replicate 16 8 ++ 129 :: List.replicate 58 200
  sizeToBinSmall := List.replicate 17 0

/-! ## The lookup in the real table -/

/-- `size_to_bin` returns the least class that fits. -/
theorem sizeToBin_isLeast {s : Nat} (h₁ : 1 ≤ s) (h₂ : s ≤ mediumMax) :
    IsLeast {b | s ≤ binToSize sizeTables b} (sizeToBin sizeTables s) := by
  obtain ⟨hlt, hfit⟩ := sizeToBin_fits h₁ h₂
  refine ⟨hfit, ?_⟩
  intro b hb
  have hb : s ≤ binToSize sizeTables b := hb
  rcases Nat.lt_or_ge b binCount with hbc | hbc
  · rw [binToSize_of_lt hbc] at hb
    have hs : s ≤ 131072 := h₂
    have hround : alignUp64 8 s = alignUp 8 s := alignUp64_eq (k := 3) (by decide) (by omega)
    have hmed : alignUp 8 s ≤ mediumMax := alignUp_le (by decide) h₂ (by decide)
    by_cases hsmall : alignUp 8 s ≤ smallMax
    · -- the direct table
      obtain ⟨q, hq⟩ := dvd_alignUp 8 s
      have hsm : alignUp 8 s ≤ 128 := hsmall
      have hge := le_alignUp (a := 8) (by decide) s
      have he : sizeToBin sizeTables s = alignUp 8 s / 8 - 1 := by
        unfold sizeToBin
        simp only [if_neg (show ¬ s = 0 by omega), hround, if_pos hsmall]
        exact (sizeToBinSmall_spec (by omega) (by omega)).1
      rw [he]
      rcases Nat.lt_or_ge b smallBinCount with hbs | hbs
      · rw [binSize_small hbs] at hb
        have hle : alignUp 8 s ≤ 8 * (b + 1) := alignUp_le (by decide) hb (Nat.dvd_mul_right 8 _)
        omega
      · have hbs : 16 ≤ b := hbs
        omega
    · -- the search; a small class would be too small
      have hbs : smallBinCount ≤ b := by
        by_contra hc
        have hc : b < smallBinCount := Nat.not_le.mp hc
        rw [binSize_small hc] at hb
        have hle : alignUp 8 s ≤ 8 * (b + 1) := alignUp_le (by decide) hb (Nat.dvd_mul_right 8 _)
        have hb16 : b < 16 := hc
        have hbig : ¬ alignUp 8 s ≤ 128 := hsmall
        omega
      have hmono : sizeTables.Sorted :=
        fun i j _ hij hj => binSize_mono hij (Nat.lt_of_le_of_lt hj (by decide))
      have hleast := (sizeToBin_sorted hmono (by rw [hround]; exact Nat.not_le.mp hsmall)
        (by rw [hround, binSize_last]; exact hmed)).2
      refine hleast ⟨hbs, ?_⟩
      rw [hround]
      exact alignUp_le (by decide) hb (Nat.dvd_trans (by decide) (binSize_medium hbs hbc))
  · exact Nat.le_trans (Nat.le_of_lt hlt) hbc

/-- `size_to_bin` undoes `bin_to_size`. -/
theorem sizeToBin_binToSize {b : Nat} (hb : b < binCount) :
    sizeToBin sizeTables (binToSize sizeTables b) = b := by
  have hbounds := binSize_bounds hb
  rw [← binToSize_of_lt hb] at hbounds
  have hl := sizeToBin_isLeast (Nat.le_trans (by decide) hbounds.1) hbounds.2
  refine hl.unique ⟨Nat.le_refl _, ?_⟩
  intro b' hb'
  by_contra hlt
  have hlt : b' < b := Nat.not_le.mp hlt
  have hb' : binToSize sizeTables b ≤ binToSize sizeTables b' := hb'
  rw [binToSize_of_lt hb, binToSize_of_lt (Nat.lt_trans hlt hb)] at hb'
  exact absurd hb' (Nat.not_le.mpr (binSize_strict hlt hb))

/-- Size classes. The search finds the least class of any sorted table that fits the rounded
request; if the classes are multiples of 8, the least that fits the request itself. The exact
table is the computed one: strictly increasing, medium classes multiples of 16, 59 of them, the
last one `MEDIUM_MAX`. So `size_to_bin` is the least fitting bin, monotone, and inverse to
`bin_to_size`. -/
theorem size_class_least :
    (∀ (t : SizeTables) (size : Nat), t.Sorted → size < 2 ^ 64 → smallMax < alignUp64 8 size →
      alignUp64 8 size ≤ t.binSize.getD (binCount - 1) 0 →
      IsLeast {b | smallBinCount ≤ b ∧ alignUp64 8 size ≤ t.binSize.getD b 0} (sizeToBin t size) ∧
      ((∀ b, smallBinCount ≤ b → b ≤ binCount - 1 → 8 ∣ t.binSize.getD b 0) →
        IsLeast {b | smallBinCount ≤ b ∧ size ≤ t.binSize.getD b 0} (sizeToBin t size))) ∧
    exactTables = sizeTables ∧
    exactMedium.length = binCount - smallBinCount ∧
    exactTables.binSize.length = binCount ∧
    exactTables.binSize.getD (binCount - 1) 0 = mediumMax ∧
    (∀ i j, i < j → j < binCount → exactTables.binSize.getD i 0 < exactTables.binSize.getD j 0) ∧
    (∀ b, smallBinCount ≤ b → b < binCount → 16 ∣ exactTables.binSize.getD b 0) ∧
    (∀ s, 1 ≤ s → s ≤ mediumMax → sizeToBin exactTables s < binCount ∧
      IsLeast {b | s ≤ binToSize exactTables b} (sizeToBin exactTables s)) ∧
    (∀ s s', 1 ≤ s → s ≤ s' → s' ≤ mediumMax →
      sizeToBin exactTables s ≤ sizeToBin exactTables s') ∧
    ∀ b, b < binCount → sizeToBin exactTables (binToSize exactTables b) = b := by
  refine ⟨?_, exactTables_eq, exactMedium_length, ?_⟩
  · intro t size ht hsize hbig hfit
    exact ⟨sizeToBin_sorted ht hbig hfit,
      fun h8 => sizeToBin_sorted_eights ht h8 hsize hbig hfit⟩
  rw [exactTables_eq]
  refine ⟨?_, binSize_last, fun i j hij hj => binSize_strict hij hj,
    fun b h₁ h₂ => binSize_medium h₁ h₂, ?_, ?_, fun b hb => sizeToBin_binToSize hb⟩
  · rw [sizeTables_binSize]
    rfl
  · intro s h₁ h₂
    exact ⟨(sizeToBin_fits h₁ h₂).1, sizeToBin_isLeast h₁ h₂⟩
  · intro s s' h₁ hle h₂
    -- what fits the larger size fits the smaller one
    have hfit := (sizeToBin_fits (Nat.le_trans h₁ hle) h₂).2
    exact (sizeToBin_isLeast h₁ (Nat.le_trans hle h₂)).2 (Nat.le_trans hle hfit)

/-- A request of 130 bytes in the real table: class 144. -/
theorem size_class_least_130 :
    sizeTables.Sorted ∧
      IsLeast {b | smallBinCount ≤ b ∧ 130 ≤ sizeTables.binSize.getD b 0}
        (sizeToBin sizeTables 130) ∧
      sizeToBin sizeTables 130 = 16 := by
  have hmono : sizeTables.Sorted :=
    fun i j _ hij hj => binSize_mono hij (Nat.lt_of_le_of_lt hj (by decide))
  have h8 : ∀ b, smallBinCount ≤ b → b ≤ binCount - 1 → 8 ∣ sizeTables.binSize.getD b 0 :=
    fun b h₁ h₂ => Nat.dvd_trans (by decide)
      (binSize_medium h₁ (Nat.lt_of_le_of_lt h₂ (by decide)))
  exact ⟨hmono, (size_class_least.1 sizeTables 130 hmono (by decide) (by decide)
    (by rw [binSize_last]; decide)).2 h8, by decide +kernel⟩

/-- The search does not look for the request itself: in a sorted table with a class of 129 bytes
a request of 129 bytes gets the class after it. -/
theorem search_misses_odd_class : oddTable.Sorted ∧ smallMax < alignUp64 8 129 ∧
    alignUp64 8 129 ≤ oddTable.binSize.getD (binCount - 1) 0 ∧
    ¬ IsLeast {b | smallBinCount ≤ b ∧ 129 ≤ oddTable.binSize.getD b 0}
      (sizeToBin oddTable 129) := by
  have hsorted : ∀ j < 75, ∀ i < 75, 16 ≤ i → i ≤ j →
      oddTable.binSize.getD i 0 ≤ oddTable.binSize.getD j 0 := by decide +kernel
  refine ⟨fun i j hi hij hj => ?_, by decide, by decide, fun h => ?_⟩
  · have hj : j ≤ 74 := hj
    exact hsorted j (by omega) i (by omega) hi hij
  · have h16 : sizeToBin oddTable 129 ≤ 16 := h.2 ⟨by decide, by decide⟩
    exact absurd h16 (by decide +kernel)

end CustomMalloc

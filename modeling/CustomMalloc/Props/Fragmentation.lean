import CustomMalloc.Inv.Slots
import CustomMalloc.Props.SizeClasses

/-!
# Internal fragmentation of the medium classes

The design promises at most 12.5 % waste: consecutive classes are a factor 9/8
apart. Rounding the classes up to 16 bytes widens some of the gaps, though. After
144 comes 176 (162 rounded up), after 208 comes 240 and after 416 comes 480, and the
smallest requests of these three classes waste more than an eighth of their slot.
They are the only ones (`fragmentation_iff`): from 420 bytes on the promise holds.
-/

namespace CustomMalloc

open Lib.Words

/-- The requests whose slot is more than an eighth too large: the low ends of the
classes 176, 240 and 480. -/
def Wasteful (s : Nat) : Prop := 145 ≤ s ∧ s ≤ 153 ∨ s = 209 ∨ 417 ≤ s ∧ s ≤ 419

/-! ## The class of a request -/

/-- The bin of a request is the one whose class is the first to reach it. -/
theorem sizeToBin_eq {s b : Nat} (hb : b + 1 < binCount)
    (h₁ : sizeTables.binSize.getD b 0 < s) (h₂ : s ≤ sizeTables.binSize.getD (b + 1) 0) :
    sizeToBin sizeTables s = b + 1 := by
  have hmax := (binSize_bounds hb).2
  have hleast := sizeToBin_isLeast (Nat.lt_of_le_of_lt (Nat.zero_le _) h₁) (Nat.le_trans h₂ hmax)
  refine hleast.unique ⟨?_, ?_⟩
  · have h₂' : s ≤ binToSize sizeTables (b + 1) := by rwa [binToSize_of_lt hb]
    exact h₂'
  · intro b' hb'
    have hb' : s ≤ binToSize sizeTables b' := hb'
    by_contra hlt
    have hle : b' ≤ b := by omega
    rw [binToSize_of_lt (by omega)] at hb'
    have hmono := binSize_mono hle (Nat.lt_of_succ_lt hb)
    omega

/-- A medium request lies above the class before its own. -/
theorem binSize_pred_lt {s : Nat} (h₁ : 1 ≤ s) (h₂ : s ≤ mediumMax)
    (hpos : 0 < sizeToBin sizeTables s) :
    sizeTables.binSize.getD (sizeToBin sizeTables s - 1) 0 < s := by
  have hlt := (sizeToBin_fits h₁ h₂).1
  by_contra hge
  have hfit : s ≤ binToSize sizeTables (sizeToBin sizeTables s - 1) := by
    rw [binToSize_of_lt (by omega)]
    exact Nat.not_lt.mp hge
  have := (sizeToBin_isLeast h₁ h₂).2 hfit
  omega

/-- A request above `SMALL_MAX` has a medium bin. -/
theorem sizeToBin_medium {s : Nat} (h₁ : smallMax < s) (h₂ : s ≤ mediumMax) :
    smallBinCount ≤ sizeToBin sizeTables s := by
  obtain ⟨hlt, hfit⟩ := sizeToBin_fits (Nat.lt_of_le_of_lt (Nat.zero_le _) h₁) h₂
  by_contra hc
  have hsmall : sizeToBin sizeTables s < smallBinCount := Nat.not_le.mp hc
  rw [binToSize_of_lt hlt, binSize_small hsmall] at hfit
  have h16 : sizeToBin sizeTables s < 16 := hsmall
  have h128 : 128 < s := h₁
  omega

/-! ## The gaps between the classes -/

/-- Outside the three wide gaps even the smallest request of a class wastes at most an eighth. -/
theorem binSize_gap {b : Nat} (h₁ : 16 ≤ b) (h₂ : b < binCount)
    (h₃ : sizeTables.binSize.getD b 0 ≤ 32768) (h17 : b ≠ 17) (h20 : b ≠ 20) (h26 : b ≠ 26) :
    8 * (sizeTables.binSize.getD b 0 - (sizeTables.binSize.getD (b - 1) 0 + 1)) ≤
      sizeTables.binSize.getD b 0 := by
  have h : ∀ k < 75, 16 ≤ k ∧ sizeTables.binSize.getD k 0 ≤ 32768 ∧ k ≠ 17 ∧ k ≠ 20 ∧ k ≠ 26 →
      8 * (sizeTables.binSize.getD k 0 - (sizeTables.binSize.getD (k - 1) 0 + 1)) ≤
        sizeTables.binSize.getD k 0 := by
    rw [sizeTables_binSize]
    decide
  exact h b h₂ ⟨h₁, h₃, h17, h20, h26⟩

/-- `page_init` leaves a medium class as it is. -/
theorem pageInit_slotSize_medium {b : Nat} (old : PageMeta) (seg arena idx : Nat)
    (h₁ : smallBinCount ≤ b) (h₂ : b < binCount) :
    (pageInit old seg arena idx b (binToSize sizeTables b)).slotSize =
      sizeTables.binSize.getD b 0 := by
  have h16 := binSize_medium h₁ h₂
  have hge := (binSize_bounds h₂).1
  rw [binToSize_of_lt h₂]
  generalize sizeTables.binSize.getD b 0 = n at h16 hge ⊢
  unfold pageInit minAlign
  simp only
  rw [if_neg (by omega)]
  omega

/-- The waste in a slot of bin `b`, for a request of that bin. -/
theorem waste_le_iff {s : Nat} (h₁ : smallMax < s) (h₂ : s ≤ mediumMax)
    (h₃ : sizeTables.binSize.getD (sizeToBin sizeTables s) 0 ≤ 32768) :
    8 * (sizeTables.binSize.getD (sizeToBin sizeTables s) 0 - s) ≤
      sizeTables.binSize.getD (sizeToBin sizeTables s) 0 ↔ ¬ Wasteful s := by
  have hmed : 16 ≤ sizeToBin sizeTables s := sizeToBin_medium h₁ h₂
  have hpos : 1 ≤ s := Nat.lt_of_le_of_lt (Nat.zero_le _) h₁
  have hlow := binSize_pred_lt hpos h₂ (by omega)
  obtain ⟨hlt, hfit⟩ := sizeToBin_fits hpos h₂
  rw [binToSize_of_lt hlt] at hfit
  unfold Wasteful
  constructor
  · -- a wasteful request belongs to one of the three classes
    rintro hle (⟨hs₁, hs₂⟩ | rfl | ⟨hs₁, hs₂⟩)
    · rw [sizeToBin_eq (b := 16) (by decide) (by rw [sizeTables_binSize]; exact hs₁)
        (by rw [sizeTables_binSize]; exact Nat.le_trans hs₂ (by decide)), sizeTables_binSize] at hle
      have hle : 8 * (176 - s) ≤ 176 := hle
      omega
    · revert hle
      decide +kernel
    · rw [sizeToBin_eq (b := 25) (by decide) (by rw [sizeTables_binSize]; exact hs₁)
        (by rw [sizeTables_binSize]; exact Nat.le_trans hs₂ (by decide)), sizeTables_binSize] at hle
      have hle : 8 * (480 - s) ≤ 480 := hle
      omega
  · intro hno
    generalize sizeToBin sizeTables s = b at h₃ hmed hlow hlt hfit ⊢
    by_cases h17 : b = 17
    · subst h17
      rw [sizeTables_binSize] at hlow hfit ⊢
      have hlow : 144 < s := hlow
      change 8 * (176 - s) ≤ 176
      omega
    by_cases h20 : b = 20
    · subst h20
      rw [sizeTables_binSize] at hlow hfit ⊢
      have hlow : 208 < s := hlow
      change 8 * (240 - s) ≤ 240
      omega
    by_cases h26 : b = 26
    · subst h26
      rw [sizeTables_binSize] at hlow hfit ⊢
      have hlow : 416 < s := hlow
      change 8 * (480 - s) ≤ 480
      omega
    have hgap := binSize_gap hmed hlt h₃ h17 h20 h26
    omega

/-- Internal fragmentation. A request above `SMALL_MAX` that a slab page serves fits its slot,
and wastes at most an eighth of it exactly if it is none of the 13 wasteful sizes. -/
theorem fragmentation_iff (old : PageMeta) (seg arena idx s : Nat) (h₁ : smallMax < s)
    (h₂ : s ≤ mediumMax)
    (h₃ : binToSize exactTables (sizeToBin exactTables s) ≤ pageSizeAlloc / 2) :
    s ≤ (pageInit old seg arena idx (sizeToBin exactTables s)
      (binToSize exactTables (sizeToBin exactTables s))).slotSize ∧
    (8 * ((pageInit old seg arena idx (sizeToBin exactTables s)
        (binToSize exactTables (sizeToBin exactTables s))).slotSize - s) ≤
      (pageInit old seg arena idx (sizeToBin exactTables s)
        (binToSize exactTables (sizeToBin exactTables s))).slotSize ↔ ¬ Wasteful s) := by
  rw [exactTables_eq] at h₃ ⊢
  obtain ⟨hlt, hfit⟩ := sizeToBin_fits (Nat.lt_of_le_of_lt (Nat.zero_le _) h₁) h₂
  rw [pageInit_slotSize_medium old seg arena idx (sizeToBin_medium h₁ h₂) hlt]
  rw [binToSize_of_lt hlt] at hfit h₃
  exact ⟨hfit, waste_le_iff h₁ h₂ h₃⟩

/-- A request of 1000 bytes gets a slot of 1072. -/
theorem fragmentation_iff_thousand :
    ¬ Wasteful 1000 ∧
    8 * ((pageInit {} 0 0 1 (sizeToBin exactTables 1000)
        (binToSize exactTables (sizeToBin exactTables 1000))).slotSize - 1000) ≤
      (pageInit {} 0 0 1 (sizeToBin exactTables 1000)
        (binToSize exactTables (sizeToBin exactTables 1000))).slotSize := by
  have hno : ¬ Wasteful 1000 := by
    unfold Wasteful
    omega
  exact ⟨hno, (fragmentation_iff {} 0 0 1 1000 (by decide) (by decide)
    (by decide +kernel)).2.mpr hno⟩

/-- A request of 145 bytes gets a slot of 176 and wastes 31 bytes of it. -/
theorem fragmentation_145 :
    smallMax < 145 ∧ 145 ≤ mediumMax ∧
    binToSize exactTables (sizeToBin exactTables 145) ≤ pageSizeAlloc / 2 ∧
    (pageInit {} 0 0 1 (sizeToBin exactTables 145)
      (binToSize exactTables (sizeToBin exactTables 145))).slotSize = 176 ∧
    ¬ 8 * (176 - 145) ≤ 176 := by
  exact ⟨by decide, by decide, by decide +kernel, by decide +kernel, by decide⟩

end CustomMalloc

import CustomMalloc.Segment
import CustomMalloc.Lib.Probe
import Mathlib.Data.Finset.Card
import Mathlib.Data.Finset.Image

/-!
# The segment registry

`segment_is_registered` and `segment_register` are the lookup and the insertion
of an open-addressing set (`Lib.Probe`). The invariant says that the registry
holds only segments, each once and findable, and that a segment is missing only
once all 256 slots are taken: `segment_register` then returns without storing
anything.
-/

namespace CustomMalloc

open Lib.Probe

variable {reg : Nat → Nat} {b idx n : Nat}

theorem segmentIsRegisteredLoop_iff :
    segmentIsRegisteredLoop reg b idx n = true ↔ Found 0 (probeSlot idx) reg b n := by
  induction n with
  | zero => simp [segmentIsRegisteredLoop, found_zero]
  | succ n ih =>
    rw [found_succ]
    unfold segmentIsRegisteredLoop
    simp only
    split
    next h => simp [h]
    next h =>
      split
      next h0 =>
        rw [h0] at h ⊢
        simp [h]
      next h0 => simp [h, h0, ih]

theorem segmentIsRegistered_iff :
    segmentIsRegistered reg b = true ↔ Found 0 (probeSlot (segHash b)) reg b 256 :=
  segmentIsRegisteredLoop_iff

/-- `segment_register` stores the base, unless it is there already or no probe
finds a free slot. -/
theorem segmentRegisterLoop_cases (reg : Nat → Nat) (b idx n : Nat) :
    Put 0 (probeSlot idx) reg b n (segmentRegisterLoop reg b idx n) ∨
    (segmentRegisterLoop reg b idx n = reg ∧
      ((∃ i, reg i = b) ∨ Full 0 (probeSlot idx) reg n)) := by
  induction n with
  | zero => exact Or.inr ⟨rfl, Or.inr fun m hm => absurd hm (Nat.not_lt_zero _)⟩
  | succ n ih =>
    unfold segmentRegisterLoop
    simp only
    split
    next h0 => exact Or.inl ⟨n, by omega, h0, upd_same .., fun i hi => upd_ne hi,
      fun m' _ _ => by omega⟩
    next h0 =>
      split
      next he => exact Or.inr ⟨rfl, Or.inl ⟨_, he⟩⟩
      next =>
        rcases ih with hput | ⟨heq, hin | hfull⟩
        · exact Or.inl (hput.succ h0)
        · exact Or.inr ⟨heq, Or.inl hin⟩
        · exact Or.inr ⟨heq, Or.inr (hfull.succ h0)⟩

/-- All 256 slots are taken. -/
def RegistryFull (reg : Nat → Nat) : Prop := ∀ i < 256, reg i ≠ 0

/-- 256 probes try every slot. -/
theorem probeSlot_surj (idx : Nat) {i : Nat} (hi : i < 256) : ∃ m < 256, probeSlot idx m = i := by
  refine ⟨(255 + idx + (256 - i)) % 256, Nat.mod_lt _ (by decide), ?_⟩
  simp only [probeSlot, segmentRegistrySize]
  omega

theorem probeSlot_lt (idx m : Nat) : probeSlot idx m < 256 := Nat.mod_lt _ (by decide)

/-- The registry holds the segments, as long as it has room. -/
structure RegistryOk (segs : Nat → Option Segment) (reg : Nat → Nat) : Prop where
  seg : ∀ i, reg i ≠ 0 → (segs (reg i)).isSome
  found : ∀ i, reg i ≠ 0 → segmentIsRegistered reg (reg i) = true
  inj : ∀ i j, reg i ≠ 0 → reg i = reg j → i = j
  complete : ∀ b, b ≠ 0 → (segs b).isSome → segmentIsRegistered reg b = true ∨ RegistryFull reg

variable {segs segs' : Nat → Option Segment}

theorem RegistryOk.same (h : RegistryOk segs reg) (hs : ∀ b, (segs' b).isSome = (segs b).isSome) :
    RegistryOk segs' reg :=
  ⟨fun i hi => by rw [hs]; exact h.seg i hi, h.found, h.inj,
    fun b hb hx => h.complete b hb (by rw [← hs]; exact hx)⟩

/-- What is registered stays registered. -/
theorem segmentIsRegistered_mono {reg' : Nat → Nat} (hb : b ≠ 0)
    (hkeep : ∀ i, reg i ≠ 0 → reg' i = reg i) (h : segmentIsRegistered reg b = true) :
    segmentIsRegistered reg' b = true :=
  segmentIsRegistered_iff.mpr ((segmentIsRegistered_iff.mp h).mono hb hkeep)

/-- The two outcomes of registering a new segment. -/
theorem RegistryOk.register_cases (h : RegistryOk segs reg) (hb : b ≠ 0) (hnew : segs b = none) :
    (Put 0 (probeSlot (segHash b)) reg b 256 (segmentRegister reg b)) ∨
      (segmentRegister reg b = reg ∧ RegistryFull reg) := by
  rcases segmentRegisterLoop_cases reg b (segHash b) 256 with hput | ⟨heq, ⟨i, hi⟩ | hfull⟩
  · exact Or.inl hput
  · have := h.seg i (by rw [hi]; exact hb)
    rw [hi, hnew] at this
    cases this
  · refine Or.inr ⟨heq, fun i hi => ?_⟩
    obtain ⟨m, hm, rfl⟩ := probeSlot_surj (segHash b) hi
    exact hfull m hm

/-- Registering a new segment. -/
theorem RegistryOk.register (h : RegistryOk segs reg) (hb : b ≠ 0) (hnew : segs b = none)
    (hdom : ∀ x, (segs' x).isSome ↔ x = b ∨ (segs x).isSome) :
    RegistryOk segs' (segmentRegister reg b) := by
  rcases h.register_cases hb hnew with hput | ⟨heq, hfull⟩
  · have hkeep : ∀ i, reg i ≠ 0 → segmentRegister reg b i = reg i := fun _ hi => hput.keeps hi
    have hself : segmentIsRegistered (segmentRegister reg b) b = true :=
      segmentIsRegistered_iff.mpr hput.found
    have hold : ∀ i, reg i ≠ b := by
      intro i hi
      have := h.seg i (by rw [hi]; exact hb)
      rw [hi, hnew] at this
      cases this
    have hplace := hput
    obtain ⟨m, -, he, hk, hrest, -⟩ := hput
    refine ⟨fun i hi => ?_, fun i hi => ?_, fun i j hi hij => ?_, fun x hx0 hx => ?_⟩
    · rcases hplace.entry i with hi' | ⟨-, hi'⟩
      · rw [hi'] at hi ⊢
        exact (hdom _).mpr (Or.inr (h.seg i hi))
      · rw [hi']
        exact (hdom _).mpr (Or.inl rfl)
    · rcases hplace.entry i with hi' | ⟨-, hi'⟩
      · rw [hi'] at hi ⊢
        exact segmentIsRegistered_mono hi hkeep (h.found i hi)
      · rw [hi']
        exact hself
    · -- the new key is in one place, and no old entry equals it
      by_cases h₁ : i = probeSlot (segHash b) m
      · by_cases h₂ : j = probeSlot (segHash b) m
        · exact h₁.trans h₂.symm
        · rw [h₁, hk, hrest j h₂] at hij
          exact absurd hij.symm (hold j)
      · rw [hrest i h₁] at hi hij
        by_cases h₂ : j = probeSlot (segHash b) m
        · rw [h₂, hk] at hij
          exact absurd hij (hold i)
        · rw [hrest j h₂] at hij
          exact h.inj i j hi hij
    · rcases (hdom x).mp hx with rfl | hx
      · exact Or.inl hself
      · rcases h.complete x hx0 hx with hreg | hfull
        · exact Or.inl (segmentIsRegistered_mono hx0 hkeep hreg)
        · exact absurd he (hfull _ (probeSlot_lt _ _))
  · rw [heq]
    exact ⟨fun i hi => (hdom _).mpr (Or.inr (h.seg i hi)), h.found, h.inj,
      fun _ _ _ => Or.inr hfull⟩

/-! ## Room for 256 segments -/

/-- The contents of the registry. -/
def registryKeys (reg : Nat → Nat) : Finset Nat := (Finset.range 256).image reg

theorem registryKeys_card_le (reg : Nat → Nat) : (registryKeys reg).card ≤ 256 :=
  Finset.card_image_le.trans (Finset.card_range 256).le

theorem mem_registryKeys (h : segmentIsRegistered reg b = true) : b ∈ registryKeys reg := by
  obtain ⟨m, -, he, -⟩ := segmentIsRegistered_iff.mp h
  exact Finset.mem_image.mpr ⟨_, Finset.mem_range.mpr (probeSlot_lt _ _), he⟩

/-- At most `n` segments exist. -/
def SegmentsAtMost (segs : Nat → Option Segment) (n : Nat) : Prop :=
  ∃ S : Finset Nat, S.card ≤ n ∧ ∀ b, (segs b).isSome → b ∈ S

/-- A segment is missing from the registry exactly when there are more than 256 of
them. -/
theorem RegistryOk.registered_iff (h : RegistryOk segs reg) (hpos : segs 0 = none) :
    (∀ b, (segs b).isSome → segmentIsRegistered reg b = true) ↔ SegmentsAtMost segs 256 := by
  have hne : ∀ b, (segs b).isSome → b ≠ 0 := by
    rintro _ hb rfl
    rw [hpos] at hb
    cases hb
  constructor
  · exact fun hall =>
      ⟨registryKeys reg, registryKeys_card_le reg, fun b hb => mem_registryKeys (hall b hb)⟩
  · rintro ⟨S, hcard, hS⟩ b hb
    rcases h.complete b (hne b hb) hb with hreg | hfull
    · exact hreg
    · by_contra hno
      -- 256 different registered segments, and `b`
      have hinj : Set.InjOn reg (Finset.range 256) := fun i hi j _ hij =>
        h.inj i j (hfull i (Finset.mem_range.mp hi)) hij
      have hkeys : (registryKeys reg).card = 256 :=
        (Finset.card_image_of_injOn hinj).trans (Finset.card_range 256)
      have hnot : b ∉ registryKeys reg := by
        intro hmem
        obtain ⟨i, hi, rfl⟩ := Finset.mem_image.mp hmem
        exact hno (h.found i (hfull i (Finset.mem_range.mp hi)))
      have hsub : insert b (registryKeys reg) ⊆ S := by
        refine Finset.insert_subset (hS b hb) fun x hx => ?_
        obtain ⟨i, hi, rfl⟩ := Finset.mem_image.mp hx
        exact hS _ (h.seg i (hfull i (Finset.mem_range.mp hi)))
      have := Finset.card_le_card hsub
      rw [Finset.card_insert_of_notMem hnot] at this
      omega

end CustomMalloc

import CustomMalloc.Inv.Os

/-!
# What is left of an over-allocated mapping

`os_mmap_aligned` asks the kernel for `size + alignment - 1` bytes, which is not
a whole number of pages, and gives back what lies before and behind the aligned
range. The kernel rounds the request up, so the mapping ends behind `base_end`;
the trailing `munmap` stops at `base_end` too and is rounded up as well.
`aligned_mapping_exact` says that the two roundings meet: whatever page-aligned
address the kernel picks, the bytes that stay mapped are `[r, r + size)` and no
other mapping loses a byte.
-/

namespace CustomMalloc

open Lib.Words Lib.Bytes Lib.Intervals

/-- The length `os_mmap_aligned` passes to `mmap`, when the sum does not wrap. -/
def mapLength (c : Cfg) (size alignment : Nat) : Nat :=
  if alignment ≤ c.osPage then size else size + alignment - 1

/-- Of the mapping `[a, b)` exactly `[r, r + size)` is left, and the rest of the address
space is mapped as before. -/
structure LeftExactly (mp mp' : List (Nat × Nat)) (a b r size : Nat) : Prop where
  inside : a ≤ r ∧ r + size ≤ b
  kept : ∀ x, r ≤ x → x < r + size → Covers mp' x
  trimmed : ∀ x, a ≤ x → x < b → ¬ (r ≤ x ∧ x < r + size) → ¬ Covers mp' x
  outside : ∀ x, ¬ (a ≤ x ∧ x < b) → (Covers mp' x ↔ Covers mp x)

/-- A mapping that was free before and of which one range is left over. -/
theorem LeftExactly.of_covers {mp mp' : List (Nat × Nat)} {a b r size : Nat} (h₁ : a ≤ r)
    (h₂ : r + size ≤ b) (hfree : ∀ x, a ≤ x → x < b → ¬ Covers mp x)
    (hcov : ∀ x, Covers mp' x ↔ (r ≤ x ∧ x < r + size) ∨ Covers mp x) :
    LeftExactly mp mp' a b r size := by
  refine ⟨⟨h₁, h₂⟩, fun x hx₁ hx₂ => (hcov x).mpr (Or.inl ⟨hx₁, hx₂⟩), ?_, ?_⟩
  · intro x ha hb hout hx
    rcases (hcov x).mp hx with hin | hold
    · exact hout hin
    · exact hfree x ha hb hold
  · intro x hout
    rw [hcov x]
    constructor
    · rintro (hin | hold)
      · exact absurd (show a ≤ x ∧ x < b by omega) hout
      · exact hold
    · exact Or.inr

/-- An answer the kernel can give is what `mmap` returns. -/
theorem mmap_of_canMap {c : Cfg} {s : State} {a len : Nat} {rest : List (Option Nat)}
    (hans : s.answers = some a :: rest) (hcan : canMap c s a len = true) :
    mmap c s len = (some a, { s with
      answers := rest
      mapped := (a, a + roundPage c len) :: s.mapped
      mem := fillZero s.mem a (roundPage c len) }) := by
  unfold mmap
  rw [hans]
  simp only [hcan, if_true]

/-- Without such an answer `mmap` fails. -/
theorem mmap_of_not_canMap {c : Cfg} {s : State} {len : Nat}
    (h : ∀ a rest, s.answers = some a :: rest → canMap c s a len = false) :
    ∃ rest, mmap c s len = (none, { s with answers := rest }) := by
  unfold mmap
  split
  next hans => exact ⟨[], by rw [← hans]⟩
  next rest hans => exact ⟨rest, rfl⟩
  next a rest hans =>
    rw [h a rest hans]
    exact ⟨rest, rfl⟩

/-- The first branch keeps the whole mapping: `size` is a whole number of pages. -/
theorem plain_leftExactly {c : Cfg} {s : State} {size alignment a : Nat} {rest : List (Option Nat)}
    (hle : alignment ≤ c.osPage) (hsize : c.osPage ∣ size) (hans : s.answers = some a :: rest)
    (hcan : canMap c s a size = true) :
    (osMmapAligned c s size alignment).1 = a ∧
      LeftExactly s.mapped (osMmapAligned c s size alignment).2.mapped a (a + roundPage c size) a
        size := by
  have he : osMmapAligned c s size alignment = (a, State.addMmapBytes { s with
      answers := rest
      mapped := (a, a + roundPage c size) :: s.mapped
      mem := fillZero s.mem a (roundPage c size) } size) := by
    unfold osMmapAligned
    rw [if_pos hle]
    simp only [mmap_of_canMap hans hcan]
  have hround : roundPage c size = size := alignUp_of_dvd c.osPage_pos hsize
  obtain ⟨-, -, -, hfree⟩ := canMap_spec hcan
  rw [he]
  refine ⟨rfl, LeftExactly.of_covers (Nat.le_refl _) (by omega) hfree ?_⟩
  intro x
  have hcons : Covers ((a, a + roundPage c size) :: s.mapped) x ↔
      (a ≤ x ∧ x < a + roundPage c size) ∨ Covers s.mapped x := covers_cons
  rwa [hround] at hcons ⊢

/-- The second branch keeps the aligned range. -/
theorem over_leftExactly {c : Cfg} {s : State} {size alignment a : Nat} {rest : List (Option Nat)}
    (hgt : c.osPage < alignment) (hsize : c.osPage ∣ size) (hsum : size + alignment - 1 < 2 ^ 64)
    (hans : s.answers = some a :: rest) (hcan : canMap c s a (size + alignment - 1) = true) :
    (∀ k, k ≤ 64 → alignment = 2 ^ k → 2 ^ k ∣ (osMmapAligned c s size alignment).1) ∧
      LeftExactly s.mapped (osMmapAligned c s size alignment).2.mapped a
        (a + roundPage c (size + alignment - 1)) (osMmapAligned c s size alignment).1 size := by
  obtain ⟨-, hal, hend, hfree⟩ := canMap_spec hcan
  have hround : size + alignment - 1 ≤ roundPage c (size + alignment - 1) :=
    le_alignUp c.osPage_pos _
  obtain ⟨r, he, hge, hle, hPr, hpow⟩ :=
    osMmapAligned_over hgt hsum hal hend (mmap_of_canMap hans hcan)
  rw [he]
  exact ⟨hpow, LeftExactly.of_covers hge (by omega) hfree
    (trim_spec (Nat.dvd_of_mod_eq_zero hal) hPr hsize hge hle hfree)⟩

/-- Aligned mapping with trimming is exact. For every page size, every multiple of it
and every power-of-two alignment whose sum does not wrap: at every address the kernel may map,
the result is aligned, the mapping keeps exactly the `size` bytes from there on, and nothing
outside the mapping changes. If the kernel refuses, the result is `NULL` and nothing changes. -/
theorem aligned_mapping_exact (c : Cfg) (s : State) (size k : Nat)
    (hsize : c.osPage ∣ size) (hsum : size + 2 ^ k - 1 < 2 ^ 64) :
    (∀ a rest, s.answers = some a :: rest → canMap c s a (mapLength c size (2 ^ k)) = true →
      2 ^ k ∣ (osMmapAligned c s size (2 ^ k)).1 ∧
      LeftExactly s.mapped (osMmapAligned c s size (2 ^ k)).2.mapped a
        (a + roundPage c (mapLength c size (2 ^ k))) (osMmapAligned c s size (2 ^ k)).1 size) ∧
    ((∀ a rest, s.answers = some a :: rest →
        canMap c s a (mapLength c size (2 ^ k)) = false) →
      (osMmapAligned c s size (2 ^ k)).1 = 0 ∧
      (osMmapAligned c s size (2 ^ k)).2.mapped = s.mapped) := by
  have hk : k ≤ 64 := by
    have hlt : 2 ^ k < 2 ^ 65 := by omega
    exact Nat.le_of_lt_succ ((Nat.pow_lt_pow_iff_right (by decide)).mp hlt)
  rcases Nat.lt_or_ge c.osPage (2 ^ k) with hgt | hle
  · have hlen : mapLength c size (2 ^ k) = size + 2 ^ k - 1 := if_neg (Nat.not_le.mpr hgt)
    rw [hlen]
    refine ⟨fun a rest hans hcan => ?_, fun hno => ?_⟩
    · obtain ⟨hpow, hleft⟩ := over_leftExactly hgt hsize hsum hans hcan
      exact ⟨hpow k hk rfl, hleft⟩
    · obtain ⟨rest, hm⟩ := mmap_of_not_canMap hno
      rw [osMmapAligned_over_none hgt hsum hm]
      exact ⟨rfl, rfl⟩
  · have hlen : mapLength c size (2 ^ k) = size := if_pos hle
    rw [hlen]
    refine ⟨fun a rest hans hcan => ?_, fun hno => ?_⟩
    · obtain ⟨hr, hleft⟩ := plain_leftExactly hle hsize hans hcan
      rw [hr]
      -- the kernel's own alignment is a multiple of the one asked for
      exact ⟨Nat.dvd_trans (dvd_osPage hle) (Nat.dvd_of_mod_eq_zero (canMap_spec hcan).2.1), hleft⟩
    · obtain ⟨rest, hm⟩ := mmap_of_not_canMap hno
      unfold osMmapAligned
      rw [if_pos hle, hm]
      exact ⟨rfl, rfl⟩

/-- Two pages on a 64 KB boundary, from a mapping that starts three pages behind one and ends
next to another mapping. -/
def besideState : State :=
  { State.initial (.page4k false) with
    answers := [some 0x10003000]
    mapped := [(0x10015000, 0x10016000)] }

theorem aligned_mapping_exact_beside :
    (osMmapAligned (.page4k false) besideState 8192 (2 ^ 16)).1 = 0x10010000 ∧
      LeftExactly besideState.mapped
        (osMmapAligned (.page4k false) besideState 8192 (2 ^ 16)).2.mapped
        0x10003000 0x10015000 0x10010000 8192 := by
  have hr : (osMmapAligned (.page4k false) besideState 8192 (2 ^ 16)).1 = 0x10010000 := by
    decide +kernel
  have hend : 0x10003000 + roundPage (.page4k false) (mapLength (.page4k false) 8192 (2 ^ 16)) =
      0x10015000 := by
    decide +kernel
  have h := ((aligned_mapping_exact (.page4k false) besideState 8192 16 (by decide) (by decide)).1
    0x10003000 [] rfl (by decide +kernel)).2
  rw [hr, hend] at h
  exact ⟨hr, h⟩

end CustomMalloc

import CustomMalloc.Run
import CustomMalloc.Inv.Growth
import Mathlib.Algebra.Order.BigOperators.Group.Finset

/-!
# Outgrowing the segment registry

A thread that asks for 32000 bytes again and again, under a kernel that always
grants a segment, is never refused (`Growing.step`). Its blocks do not overlap,
so 256 segments have room for 33536 of them at most; once it holds more, one of
them lies in a segment the registry has no place for (`Growing.lost`).
-/

namespace CustomMalloc

open Lib.Words Lib.Bytes Lib.Chain Lib.Intervals Lib.Post

variable {c : Cfg} {σ : Sys} {s s' : State} {G : Ghost} {n B : Nat}

/-- The kernel grants a segment at `B`, above everything that is mapped. -/
theorem osMmapAligned_granted (hP : c.osPage < 2 ^ 22) (hans : s.answers = [some B])
    (hB : 2 ^ 22 ∣ B) (hfree : ∀ x, Covers s.mapped x → x < B) (hfit : B + 2 ^ 23 < 2 ^ 64) :
    (osMmapAligned c s segmentSize segmentSize).1 = B ∧
      ∀ x, Covers (osMmapAligned c s segmentSize segmentSize).2.mapped x → x < B + 2 ^ 23 := by
  have hdvd := osPage_dvd hP
  have hround : roundPage c (2 ^ 23 - 1) ≤ 2 ^ 23 :=
    alignUp_le c.osPage_pos (by decide) (Nat.dvd_trans hdvd (by decide))
  have hlen : 2 ^ 23 - 1 ≤ roundPage c (2 ^ 23 - 1) := le_alignUp c.osPage_pos _
  have hcan : canMap c s B (2 ^ 23 - 1) = true := by
    unfold canMap
    simp only [Bool.and_eq_true, decide_eq_true_eq, Bool.not_eq_eq_eq_not, Bool.not_true]
    refine ⟨⟨⟨by decide, Nat.mod_eq_zero_of_dvd (Nat.dvd_trans hdvd hB)⟩, by omega⟩, ?_⟩
    exact (overlaps_eq_false_iff (by omega)).mpr fun x h₁ _ hx => absurd (hfree x hx) (by omega)
  have hself : alignUp64 (2 ^ 22) B = B := by
    rw [alignUp64_eq (by decide) (by omega)]
    exact alignUp_of_dvd (by decide) hB
  have hm : mmap c s (2 ^ 23 - 1) = (some B, { s with
      answers := []
      mapped := (B, B + roundPage c (2 ^ 23 - 1)) :: s.mapped
      mem := fillZero s.mem B (roundPage c (2 ^ 23 - 1)) }) := by
    unfold mmap
    simp only [hans, if_pos hcan]
  have hcov : ∀ x, Covers ((B, B + roundPage c (2 ^ 23 - 1)) :: s.mapped) x → x < B + 2 ^ 23 := by
    intro x hx
    rcases covers_cons.mp hx with ⟨-, hx⟩ | hx
    · simp only at hx
      omega
    · have := hfree x hx
      omega
  unfold osMmapAligned
  rw [show segmentSize = 2 ^ 22 from rfl, if_neg (Nat.not_le.mpr hP)]
  simp only [show (2 ^ 22 + 2 ^ 22 - 1) % 2 ^ 64 = 2 ^ 23 - 1 from rfl, hm, munmap_guard, hself]
  refine ⟨trivial, fun x hx => hcov x ?_⟩
  unfold State.addMmapBytes munmap unmapRange at hx
  simp only at hx
  split at hx
  next =>
    split at hx
    next => exact (covers_remove.mp (covers_remove.mp hx).1).1
    next => exact (covers_remove.mp hx).1
  next =>
    split at hx
    next => exact (covers_remove.mp hx).1
    next => exact hx

/-- Thread 0 is attached and holds `n` slots for 32000 bytes each; nothing is mapped
from `B` on. -/
structure Growing (c : Cfg) (σ : Sys) (G : Ghost) (n B : Nat) : Prop where
  holds : Holds c σ G
  length : σ.live.length = n
  slots : ∀ x ∈ σ.live, ∃ r, x.1 ∈ G.busy r ∧ 32000 ≤ (σ.heap.pages r).slotSize
  attached : ∃ x a, σ.heap.tls 0 = some x ∧ x.arena = some a
  below : ∀ x, Covers σ.heap.mapped x → x < B

theorem slabSized_32000 : SlabSized 32000 := ⟨by decide, by decide +kernel⟩

theorem SegExt.slab_forward {G' : Ghost} (he : SegExt s s') (h : Inv c s G) (h' : Inv c s' G')
    {p k : Nat} {r : PageRef} (hp : p ∈ G.busy r) (hb : Blk s' G' p k) :
    ∃ r', p ∈ G'.busy r' ∧ k = (s'.pages r').slotSize := by
  obtain ⟨hd, hinv⟩ := h.busy_active hp
  obtain ⟨b₁, b₂, -⟩ := hinv.busy_in hp
  have hge := hinv.geom.slot_ge
  rcases hb.split with hslab | ⟨b, la, hl, hu, -⟩
  · exact hslab
  · have hd' : IsData s'.segs r := ⟨he.seg_mono hd.1, hd.2⟩
    have hok := h'.larges.each hl
    rw [← hu] at hok
    exact absurd (h'.regions.apart (hd'.has b₁ (by omega)) (hok.region hl).1) (by simp)

/-- What `os_mmap_aligned` needs free for one segment, before it trims. -/
def segmentWindow : Nat := 2 ^ 23

/-- One more block. -/
theorem Growing.step (h : Growing c σ G n B) (hP : c.osPage < 2 ^ 22) (hB : 2 ^ 22 ∣ B) (h0 : 0 < B)
    (hfit : B + segmentWindow < 2 ^ 64) :
    ∃ p s' G', slabAlloc c (σ.heap.withAnswers [some B]) 0 32000 = .ok (p, s') ∧ p ≠ 0 ∧
      Growing c ⟨s', (p, 32000) :: σ.live⟩ G' (n + 1) (B + segmentWindow) := by
  obtain ⟨x, a, hx, ha⟩ := h.attached
  have hh := h.holds.withAnswers [some B]
  have hx' : (σ.heap.withAnswers [some B]).tls 0 = some x := hx
  obtain ⟨hgrant, hcov⟩ := osMmapAligned_granted (s := σ.heap.withAnswers [some B]) hP rfl hB
    h.below (by rwa [segmentWindow] at hfit)
  have hspec := ensures_and (slabAllocInner_served hh.inv hx' ha (by decide) slabSized_32000)
    (ensures_bad (slabAllocInner_slab (t := 0) hh.inv (by decide) slabSized_32000)
      fun _ _ => trivial)
  rcases he : slabAllocInner c (σ.heap.withAnswers [some B]) 0 32000 with e | ⟨⟨p, zeroed⟩, s'⟩
  · rw [he] at hspec
    exact hspec.elim
  rw [he] at hspec
  obtain ⟨⟨hserved, hnull⟩, hpost⟩ := hspec
  have hp : p ≠ 0 := fun hp => by
    have := hnull hp
    rw [SegmentRefused, hgrant] at this
    omega
  obtain ⟨k, G', hk, halloc, -, hslab⟩ := hpost.got hp
  obtain ⟨hkeq, r, hr⟩ := hslab slabSized_32000
  refine ⟨p, s', G', ?_, hp, hh.alloc halloc hk, by simp [h.length], ?_, ?_, ?_⟩
  · unfold slabAlloc
    rw [he]
    rfl
  · intro y hy
    rcases List.mem_cons.mp hy with rfl | hy
    · refine ⟨r, hr, ?_⟩
      rw [halloc.inv.blk_size_eq (.slab r hr) halloc.new]
      exact hk
    · obtain ⟨r₁, hr₁, hsz⟩ := h.slots y hy
      have hb := (halloc.keeps _ _ (.slab r₁ hr₁) trivial).1
      obtain ⟨r₂, hr₂, heq⟩ := hpost.segExt.slab_forward hh.inv halloc.inv hr₁ hb
      exact ⟨r₂, hr₂, heq ▸ hsz⟩
  · obtain ⟨y, hy, hya⟩ := hserved.attached
    exact ⟨y, a, hy, hya⟩
  · intro y hy
    rcases hserved.mapped with hm | hm
    · rw [hm] at hy
      exact Nat.lt_of_lt_of_le (h.below y hy) (Nat.le_add_right _ _)
    · rw [hm] at hy
      exact hcov y hy

/-- As many more blocks as there is address space for, along any kind of run that
allows these allocations. -/
theorem Growing.run {R : Sys → Prop} (hP : c.osPage < 2 ^ 22)
    (hR : ∀ σ B p s', R σ → slabAlloc c (σ.heap.withAnswers [some B]) 0 32000 = .ok (p, s') →
      p ≠ 0 → R ⟨s', (p, 32000) :: σ.live⟩)
    (h : Growing c σ G n B) (hσ : R σ) (hB : 2 ^ 22 ∣ B) (h0 : 0 < B) (k : Nat)
    (hfit : B + segmentWindow * k < 2 ^ 64) :
    ∃ σ' G' B', R σ' ∧ Growing c σ' G' (n + k) B' ∧ 2 ^ 22 ∣ B' ∧ 0 < B' ∧
      B' ≤ B + segmentWindow * k := by
  induction k with
  | zero => exact ⟨σ, G, B, hσ, h, hB, h0, Nat.le_add_right _ _⟩
  | succ k ih =>
    rw [Nat.mul_succ, ← Nat.add_assoc] at hfit
    rw [Nat.mul_succ]
    obtain ⟨σ₁, G₁, B₁, hσ₁, hg, hB₁, h0₁, hle⟩ :=
      ih (Nat.lt_of_le_of_lt (Nat.le_add_right _ _) hfit)
    have hle' := Nat.add_le_add_right hle (segmentWindow)
    obtain ⟨p, s', G', he, hp, hg'⟩ := hg.step hP hB₁ h0₁ (Nat.lt_of_le_of_lt hle' hfit)
    exact ⟨_, G', _, hR σ₁ _ p s' hσ₁ he hp, hg', Nat.dvd_add hB₁ (by decide),
      Nat.add_pos_left h0₁ _, by rwa [← Nat.add_assoc]⟩

/-- The segment of a slot. -/
def segmentOf (p : Nat) : Nat := p &&& (2 ^ 64 - segmentSize)

/-- A 4 MB segment has room for 131 blocks of 32000 bytes. -/
theorem Growing.per_segment (h : Growing c σ G n B) (b : Nat) :
    (σ.ptrs.toFinset.filter fun p => segmentOf p = b).card ≤ 131 := by
  have hslot : ∀ p ∈ σ.ptrs, ∃ r, p ∈ G.busy r ∧ 32000 ≤ (σ.heap.pages r).slotSize ∧
      segmentOf p = r.seg ∧ r.seg ≤ p ∧ p + (σ.heap.pages r).slotSize ≤ r.seg + 4194304 := by
    intro p hp
    obtain ⟨y, hy, rfl⟩ := List.mem_map.mp hp
    obtain ⟨r, hr, hsz⟩ := h.slots y hy
    obtain ⟨hd, hinv⟩ := h.holds.inv.busy_active hr
    obtain ⟨b₁, b₂, -⟩ := hinv.busy_in hr
    have hseg := (h.holds.inv.segment_of hd b₁ (by omega)).1
    have hhi := hd.2.2
    unfold PageRef.start at b₁ b₂
    exact ⟨r, hr, hsz, hseg, by omega, by omega⟩
  generalize hF : σ.ptrs.toFinset.filter (fun p => segmentOf p = b) = F
  have hmem : ∀ p ∈ F.toList, p ∈ σ.ptrs ∧ segmentOf p = b := by
    intro p hp
    rw [Finset.mem_toList, ← hF, Finset.mem_filter, List.mem_toFinset] at hp
    exact hp
  have hcard := @card_mul_le_of_disjoint Nat (fun p => p - b) (fun _ => 32000) 32000 (by decide)
    F.toList.length F.toList 4194304 rfl F.nodup_toList
    (fun p hp => by
      obtain ⟨hp, hb⟩ := hmem p hp
      obtain ⟨r, -, hsz, hseg, h₁, h₂⟩ := hslot p hp
      exact ⟨Nat.le_refl _, by omega⟩)
    (fun p hp q hq hne => by
      obtain ⟨hp, hbp⟩ := hmem p hp
      obtain ⟨hq, hbq⟩ := hmem q hq
      obtain ⟨r, hr, hsz, hseg, h₁, -⟩ := hslot p hp
      obtain ⟨r', hr', hsz', hseg', h₁', -⟩ := hslot q hq
      rcases h.holds.inv.blk_apart (.slab r hr) (.slab r' hr') with ⟨he, -⟩ | ⟨-, hap⟩
      · exact absurd he hne
      · omega)
  rw [Finset.length_toList] at hcard
  omega

/-- More than `256 * 131` blocks do not fit into the registered segments. -/
theorem Growing.lost (h : Growing c σ G n B) (hn : 33536 < n) :
    ∃ x ∈ σ.live, Lost σ.heap G x.1 := by
  by_contra hno
  have hmaps : ∀ p ∈ σ.ptrs.toFinset, segmentOf p ∈ registryKeys σ.heap.segmentRegistry := by
    intro p hp
    obtain ⟨y, hy, rfl⟩ := List.mem_map.mp (List.mem_toFinset.mp hp)
    obtain ⟨r, hr, -⟩ := h.slots y hy
    obtain ⟨hd, hinv⟩ := h.holds.inv.busy_active hr
    obtain ⟨b₁, b₂, -⟩ := hinv.busy_in hr
    have hge := hinv.geom.slot_ge
    rw [segmentOf, (h.holds.inv.segment_of hd b₁ (by omega)).1]
    refine mem_registryKeys ?_
    by_contra hreg
    exact hno ⟨y, hy, r, hr, Bool.eq_false_iff.mpr hreg⟩
  have hle := Finset.card_le_mul_card_image_of_maps_to hmaps 131 fun b _ => h.per_segment b
  have hkeys := registryKeys_card_le σ.heap.segmentRegistry
  rw [List.toFinset_card_of_nodup h.holds.nodup, Sys.ptrs, List.length_map, h.length] at hle
  omega

/-! ## The run -/

/-- The first block of the run, with the thread's data and the first segment. -/
theorem growing_first (d : Bool) :
    ∃ p s' G, slabAlloc (.page4k d) ((State.initial (.page4k d)).withAnswers
        [some 0x10000000, some 0x20000000]) 0 32000 = .ok (p, s') ∧ p ≠ 0 ∧
      Growing (.page4k d) ⟨s', [(p, 32000)]⟩ G 1 0x40000000 := by
  obtain ⟨⟨p, s'⟩, he, ht⟩ := exists_of_passes (slabAlloc (.page4k d)
    ((State.initial (.page4k d)).withAnswers [some 0x10000000, some 0x20000000]) 0 32000)
    (fun r => r.1 != 0 && ((r.2.tls 0).bind Tld.arena).isSome &&
      r.2.mapped.all fun iv => decide (iv.2 ≤ 0x40000000)) (by cases d <;> decide +kernel)
  simp only [Bool.and_eq_true, bne_iff_ne, List.all_eq_true, decide_eq_true_eq] at ht
  obtain ⟨⟨hp, harena⟩, hmapped⟩ := ht
  have hh := (initial_holds (.page4k d)).withAnswers [some 0x10000000, some 0x20000000]
  have hspec := slabAlloc_spec (t := 0) hh.inv
    (show LargeFits (.page4k d) 32000 16 from largeFits_small (by decide))
  have hpost := ensures_elim hspec he
  simp only at hpost
  obtain ⟨k, G', hk, halloc, -, hslab⟩ := hpost.got hp
  obtain ⟨-, r, hr⟩ := hslab slabSized_32000
  obtain ⟨a, ha⟩ := Option.isSome_iff_exists.mp harena
  obtain ⟨x, hx, hxa⟩ := Option.bind_eq_some_iff.mp ha
  refine ⟨p, s', G', he, hp, hh.alloc halloc hk, rfl, fun y hy => ?_, ⟨x, a, hx, hxa⟩, ?_⟩
  · obtain rfl := List.mem_singleton.mp hy
    refine ⟨r, hr, ?_⟩
    rw [halloc.inv.blk_size_eq (.slab r hr) halloc.new]
    exact hk
  · rintro y ⟨iv, hiv, -, hlt⟩
    have := hmapped iv hiv
    omega

/-- Along any kind of run that allows these allocations, a block is lost in the end. -/
theorem exists_lost (d : Bool) {R : Sys → Prop} (h0 : R (Sys.initial (.page4k d)))
    (hR : ∀ σ ans p s', R σ → slabAlloc (.page4k d) (σ.heap.withAnswers ans) 0 32000 = .ok (p, s') →
      p ≠ 0 → R ⟨s', (p, 32000) :: σ.live⟩) :
    ∃ σ G, R σ ∧ Holds (.page4k d) σ G ∧ ∃ p ∈ σ.ptrs, p < 2 ^ 48 ∧ Lost σ.heap G p := by
  obtain ⟨p, s', G, he, hp, hg⟩ := growing_first d
  have hR₁ := hR _ _ p s' h0 he hp
  obtain ⟨σ, G', B, hσ, hg', -, -, hle⟩ := hg.run (show (Cfg.page4k d).osPage < 2 ^ 22 by
    cases d <;> decide) (fun σ B => hR σ [some B]) hR₁ (by decide) (by decide) 33536
    (by decide +kernel)
  obtain ⟨x, hx, hlost⟩ := hg'.lost (by decide)
  refine ⟨σ, G', hσ, hg'.holds, x.1, List.mem_map.mpr ⟨x, hx, rfl⟩, ?_, hlost⟩
  obtain ⟨r, hr, -⟩ := hg'.slots x hx
  have hlt := hg'.below x.1 (hg'.holds.inv.regions.backed (hg'.holds.inv.slab_region hr).1)
  refine Nat.lt_of_lt_of_le hlt (Nat.le_trans hle ?_)
  decide +kernel

end CustomMalloc

import CustomMalloc.Run

/-!
# Requested alignments

`my_memalign` rounds a small request up to a multiple of the alignment and takes
a slot of the bin that serves it. The first slot of a page is always aligned; the
others are only if the alignment divides the slot size, and a bin of more than 32 KB
slots is rerouted to `large_alloc`, which aligns to 16. `AlignServed` are the
requests without either problem. The others are aligned only by chance: slot `i` of a
page when the alignment divides `i` slots, a rerouted block never (`BySlot`).
-/

namespace CustomMalloc

open Lib.Words Lib.Bytes Lib.Chain Lib.Intervals Lib.Regions Lib.Post

variable {c : Cfg} {s s' : State} {G : Ghost}

/-- The result `q` of an aligned request: a multiple of the alignment with a block of
at least `size` bytes. -/
def Honoured (alignment size q : Nat) (s' : State) : Prop :=
  alignment ∣ q ∧ ∃ k, Block s' q k ∧ size ≤ k

theorem myMemalign_honoured (h : Inv c s G) {t alignment size q : Nat} (ha : alignment < 2 ^ 64)
    (hfit : ∀ k, alignment = 2 ^ k → LargeFits c size alignment) (hin : PtrInside c alignment size)
    (hserved : AlignServed alignment size)
    (he : myMemalign c s t alignment size = .ok (q, s')) (hq : q ≠ 0) :
    Honoured alignment size q s' := by
  have hp := ensures_elim (myMemalign_spec h ha hfit hin) he
  obtain ⟨k, G', hk, halloc, hal⟩ := hp.got hq
  exact ⟨hal hserved, k, halloc.new.block halloc.inv, hk⟩

/-! ## Requests that are not served as requested -/

/-- What `my_memalign` asks for then. -/
theorem myMemalign_unserved {k size : Nat} (hno : ¬ AlignServed (2 ^ k) size) (t : Nat) :
    4 < k ∧ k ≤ 16 ∧ memalignSize (2 ^ k) size ≤ mediumMax ∧
      myMemalign c s t (2 ^ k) size = slabAlloc c s t (memalignSize (2 ^ k) size) := by
  simp only [AlignServed, not_or] at hno
  obtain ⟨hmin, hsize, hpage, hmed, -⟩ := hno
  have hpow : ¬ (2 ^ k = 0 ∨ 2 ^ k &&& (2 ^ k - 1) ≠ 0) := by simp [Nat.and_two_pow_sub_one_eq_mod]
  refine ⟨?_, ?_, Nat.not_lt.mp hmed, ?_⟩
  · exact (Nat.pow_lt_pow_iff_right (by decide)).mp (show 2 ^ 4 < 2 ^ k from Nat.not_le.mp hmin)
  · exact (Nat.pow_le_pow_iff_right (by decide)).mp (show 2 ^ k ≤ 2 ^ 16 from Nat.not_lt.mp hpage)
  · unfold myMemalign
    rw [if_neg hpow, if_neg hmin, if_neg (not_or.mpr ⟨hsize, hpage⟩)]
    exact if_neg hmed

/-- Where such a request ends up: slot `i` of a page is aligned just when the alignment divides
`i` slots, and a rerouted block is not aligned. -/
structure BySlot (alignment size q : Nat) : Prop where
  slot : SlabSized (memalignSize alignment size) → ∃ i,
    q % pageSizeAlloc = i * slotSizeOf (sizeToBin sizeTables (memalignSize alignment size)) ∧
      (alignment ∣ q ↔
        alignment ∣ i * slotSizeOf (sizeToBin sizeTables (memalignSize alignment size)))
  rerouted : ¬ SlabSized (memalignSize alignment size) → ¬ alignment ∣ q

/-- The header takes 48 bytes, which is no multiple of 32. -/
theorem largeAlloc_misaligned (hpage : 32 ∣ c.osPage) {k n q : Nat} (hk : 4 < k)
    (hfit : LargeFits c n 16) (he : largeAlloc c s n = .ok (q, s')) (hq : q ≠ 0) : ¬ 2 ^ k ∣ q := by
  rcases largeAllocAligned_cases (k := 4) (by decide) hfit he with
    ⟨h0, -⟩ | ⟨base, -, -, -, -, -, hbase, rfl, -⟩
  · exact absurd h0 hq
  · intro hdvd
    have h32 : 2 ^ 5 ∣ base + 48 := Nat.dvd_trans (Nat.pow_dvd_pow 2 hk) hdvd
    have hbase' := Nat.dvd_trans hpage hbase
    omega

theorem myMemalign_bySlot (h : Inv c s G) (hpage : 32 ∣ c.osPage) {t k size q : Nat}
    (hno : ¬ AlignServed (2 ^ k) size) (he : myMemalign c s t (2 ^ k) size = .ok (q, s'))
    (hq : q ≠ 0) : BySlot (2 ^ k) size q := by
  obtain ⟨hk, hk16, hmed, heq⟩ := myMemalign_unserved (c := c) (s := s) hno t
  rw [heq] at he
  have hpos : 0 < memalignSize (2 ^ k) size := by
    refine (memalignSize_bounds hk16 ?_).2.2
    exact Nat.not_lt.mp fun hbig => hno (Or.inr (Or.inl hbig))
  have hfit : LargeFits c (memalignSize (2 ^ k) size) 16 := largeFits_small hmed
  refine ⟨fun hslab => ?_, fun hslab => ?_⟩
  · have hp := ensures_elim (slabAlloc_spec h hfit) he
    rw [atLeastOne_of_pos hpos] at hp
    obtain ⟨j, G', -, halloc, -, hbin⟩ := hp.got hq
    obtain ⟨rfl, r, hr⟩ := hbin hslab
    obtain ⟨-, hinv⟩ := halloc.inv.busy_active hr
    obtain ⟨i, hi, rfl⟩ := hinv.busy_slot hr
    have hsize := halloc.inv.blk_size_eq halloc.new (.slab r hr)
    have hend := (hinv.geom.slot_in hi).2
    have hge := hinv.geom.slot_ge
    have hstart := hinv.geom.start_al
    rw [hsize]
    unfold slotAt at hend ⊢
    refine ⟨i, ?_, Nat.dvd_add_right (Nat.dvd_trans (Nat.pow_dvd_pow (n := 16) 2 hk16) hstart)⟩
    simp only [pageSizeAlloc]
    omega
  · rw [slabAlloc_rerouted c s t hpos hslab] at he
    exact largeAlloc_misaligned hpage hk hfit he hq

/-- `my_posix_memalign` stores what `my_memalign` returns. -/
theorem myPosixMemalign_ok {t alignment size q : Nat}
    (he : myPosixMemalign c s t alignment size = .ok (.ok q, s')) :
    myMemalign c s t alignment size = .ok (q, s') ∧ q ≠ 0 := by
  unfold myPosixMemalign at he
  split at he
  next => exact absurd he (by simp [pure, Except.pure])
  next =>
    rcases hm : myMemalign c s t alignment size with e | ⟨p, s₁⟩
    · rw [hm] at he
      exact absurd he (by simp [bind, Except.bind])
    · rw [hm] at he
      simp only [bind, Except.bind] at he
      split at he
      next => exact absurd he (by simp [pure, Except.pure])
      next h0 =>
        simp only [pure, Except.pure, Except.ok.injEq, Prod.mk.injEq] at he
        obtain ⟨rfl, rfl⟩ := he
        exact ⟨rfl, h0⟩

/-- Requests that are served as requested: the alignment is honoured by every slot, and
the pointer lies inside its mapping. -/
def Aligns (c : Cfg) (alignment size : Nat) : Prop :=
  AlignServed alignment size ∧ PtrInside c alignment size

theorem alignment_honoured (c : Cfg) (σ : Sys) (h : Reachable c (SafeCall c) σ) (t : Nat)
    (ans : List (Option Nat)) :
    (∀ k size q s', k < 64 → LargeFits c size (2 ^ k) → Aligns c (2 ^ k) size →
      myMemalign c (σ.heap.withAnswers ans) t (2 ^ k) size = .ok (q, s') → q ≠ 0 →
      Honoured (2 ^ k) size q s') ∧
    (∀ k size q s', k < 64 → LargeFits c size (2 ^ k) → Aligns c (2 ^ k) size →
      myPosixMemalign c (σ.heap.withAnswers ans) t (2 ^ k) size = .ok (.ok q, s') →
      Honoured (2 ^ k) size q s') ∧
    (∀ size q s', LargeFits c size c.osPage → Aligns c c.osPage size →
      myValloc c (σ.heap.withAnswers ans) t size = .ok (q, s') → q ≠ 0 →
      Honoured c.osPage size q s') ∧
    (∀ k size q s', 32 ∣ c.osPage → ¬ AlignServed (2 ^ k) size →
      myMemalign c (σ.heap.withAnswers ans) t (2 ^ k) size = .ok (q, s') → q ≠ 0 →
      BySlot (2 ^ k) size q) := by
  obtain ⟨G, hh⟩ := reachable_holds (fun _ _ hs => hs) h
  have hinv := (hh.withAnswers ans).inv
  have hmem : ∀ k size q s', k < 64 → LargeFits c size (2 ^ k) → Aligns c (2 ^ k) size →
      myMemalign c (σ.heap.withAnswers ans) t (2 ^ k) size = .ok (q, s') → q ≠ 0 →
      Honoured (2 ^ k) size q s' := fun k size q s' hk hfit ha he hq =>
    myMemalign_honoured hinv (Nat.pow_lt_pow_right (by decide) hk) (fun _ _ => hfit) ha.2 ha.1 he hq
  refine ⟨hmem, fun k size q s' hk hfit ha he => ?_, fun size q s' hfit ha he hq => ?_,
    fun k size q s' hpage hno he hq => myMemalign_bySlot hinv hpage hno he hq⟩
  · obtain ⟨he', hq⟩ := myPosixMemalign_ok he
    exact hmem k size q s' hk hfit ha he' hq
  · exact hmem c.pageShift size q s' (by have := c.pageShift_lt; omega) hfit ha he hq

/-- The heap after one `my_memalign(32, 32)`. -/
def thirtyTwoTaken : Sys :=
  (Sys.initial (.page4k false)).after (.page4k false) 0 (.memalign 32 32)
    [some 0x10000000, some 0x20000000]

/-- 32-byte slots are multiples of 32, the second one too. -/
theorem alignment_honoured_thirtyTwo :
    ∃ s', myMemalign (.page4k false) (thirtyTwoTaken.heap.withAnswers []) 0 (2 ^ 5) 32 =
        .ok (0x20010020, s') ∧ Honoured (2 ^ 5) 32 0x20010020 s' := by
  have h : Reachable (.page4k false) (SafeCall (.page4k false)) thirtyTwoTaken :=
    Reachable.after .refl _ _ _ trivial (by decide) ⟨fun _ _ => by decide, Or.inl (by decide)⟩
  obtain ⟨⟨q, s'⟩, he, hq⟩ := exists_of_passes (myMemalign (.page4k false)
    (thirtyTwoTaken.heap.withAnswers []) 0 (2 ^ 5) 32) (fun r => r.1 == 0x20010020)
    (by decide +kernel)
  simp only [beq_iff_eq] at hq
  subst hq
  refine ⟨s', he, (alignment_honoured (.page4k false) thirtyTwoTaken h 0 []).1 5 32 _ s'
    (by decide) (by decide) ⟨?_, Or.inr (Or.inl (by decide))⟩ he (by decide)⟩
  exact Or.inr (Or.inr
    (Or.inr (Or.inr ⟨⟨by decide +kernel, by decide +kernel⟩, by decide +kernel⟩)))

/-- `my_memalign(64, 200)` takes 272-byte slots, so its second result is off; and
`my_memalign(64, 40000)` is rerouted and ends up 48 bytes into a mapping. -/
theorem alignment_missed :
    (∃ σ, Reachable (.page4k false) (SafeCall (.page4k false)) σ ∧
      ∃ σ', σ.call (.page4k false) 0 (.memalign 64 200) [] = .ok (0x20010110, σ') ∧
        ¬ 64 ∣ 0x20010110) ∧
    ∃ σ', (Sys.initial (.page4k false)).call (.page4k false) 0 (.memalign 64 40000)
      [some 0x10000000] = .ok (0x10000030, σ') ∧ ¬ 64 ∣ 0x10000030 := by
  have hsafe : (Op.memalign 64 200).Safe (.page4k false) :=
    ⟨fun _ _ => by decide, Or.inl (by decide)⟩
  have h : Reachable (.page4k false) (SafeCall (.page4k false)) ((Sys.initial (.page4k false)).after
      (.page4k false) 0 (.memalign 64 200) [some 0x10000000, some 0x20000000]) :=
    Reachable.after .refl _ _ _ trivial (by decide) hsafe
  obtain ⟨⟨q, σ'⟩, he, hq⟩ := exists_of_passes (((Sys.initial (.page4k false)).after
      (.page4k false) 0 (.memalign 64 200) [some 0x10000000, some 0x20000000]).call
      (.page4k false) 0
      (.memalign 64 200) []) (fun r => r.1 == 0x20010110) (by decide +kernel)
  obtain ⟨⟨q', σ''⟩, he', hq'⟩ := exists_of_passes ((Sys.initial (.page4k false)).call
      (.page4k false) 0 (.memalign 64 40000) [some 0x10000000]) (fun r => r.1 == 0x10000030)
      (by decide +kernel)
  simp only [beq_iff_eq] at hq hq'
  subst hq hq'
  exact ⟨⟨_, h, σ', he, by decide⟩, σ'', he', by decide⟩

end CustomMalloc

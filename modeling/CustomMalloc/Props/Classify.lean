import CustomMalloc.Zone
import CustomMalloc.Props.Registry

/-!
# Pointer classification

`my_free`, `zone_claimed_address` and the lookups they use decide by the address alone
what a pointer points into: the bootstrap buffer, a segment, a large mapping, or
nothing of the allocator's. This is a property of a single state, `WellLaid`, in which
every segment is registered and the regions do not overlap; every state of a safe run
with at most 256 segments is one (`Inv.wellLaid`).

An address below 4 MB is masked to 0, which the registry also uses as the empty
marker: the lookup then succeeds at the first empty slot, and `ptr_to_segment`
returns the base 0 all the same, that is, `NULL`.
-/

namespace CustomMalloc

open Lib.Words Lib.Bytes Lib.Chain Lib.Intervals Lib.Post

variable {c : Cfg} {s : State} {G : Ghost} {b x : Nat}

/-- `x` lies in the segment at `b`. -/
def InSegment (s : State) (b x : Nat) : Prop := (s.segs b).isSome ∧ b ≤ x ∧ x < b + 4194304

/-- `x` lies in the large mapping at `b`. -/
def InLarge (s : State) (b x : Nat) : Prop := ∃ la, s.larges b = some la ∧ b ≤ x ∧ x < b + la.size

/-- `x` lies in the bootstrap buffer. -/
def InBoot (c : Cfg) (x : Nat) : Prop := c.bootstrapBuf ≤ x ∧ x < c.bootstrapBuf + 65536

/-- A state whose segments are all registered and whose regions are disjoint. No object
of a C program has the address 0, and the end of a mapping is an address. -/
structure WellLaid (c : Cfg) (s : State) : Prop where
  boot_pos : 0 < c.bootstrapBuf
  seg : ∀ b, (s.segs b).isSome → SegOk b
  registered : ∀ b, (s.segs b).isSome → segmentIsRegistered s.segmentRegistry b = true
  only : ∀ i, s.segmentRegistry i ≠ 0 → (s.segs (s.segmentRegistry i)).isSome
  boot_seg : ∀ b x, InBoot c x → ¬ InSegment s b x
  boot_large : ∀ b x, InBoot c x → ¬ InLarge s b x
  seg_large : ∀ b b' x, InSegment s b x → ¬ InLarge s b' x
  large : ∀ b la, s.larges b = some la → la.base = b ∧ 0 < b ∧ b + la.size < 2 ^ 64
  list : ∃ l, Linked (fun b => (s.larges b).bind LargeAlloc.next) s.largeList l ∧
    (∀ b, b ∈ l ↔ (s.larges b).isSome) ∧ s.largeAllocCount = l.length
  page : ∀ r, IsData s.segs r → (s.pages r).state = .active → Geom r (s.pages r)

/-- The states of the safe runs. -/
theorem Inv.wellLaid (h : Inv c s G) (hboot : 0 < c.bootstrapBuf)
    (hfew : SegmentsAtMost s.segs 256) : WellLaid c s := by
  have hapart : ∀ (ρ ρ' : Region) {x : Nat}, Region.Has c s.segs s.larges s.tls ρ x →
      Region.Has c s.segs s.larges s.tls ρ' x → ρ = ρ' := fun _ _ _ hx hx' =>
    h.regions.apart hx hx'
  refine ⟨hboot, fun b hb => ?_, (h.registry.registered_iff h.segs_zero).mpr hfew, h.registry.seg,
    fun b x hx hx' => ?_, fun b x hx hx' => ?_, fun b b' x hx hx' => ?_, fun b la hb => ?_, ?_,
    fun r hd hact => (h.active hd hact).1.geom⟩
  · obtain ⟨g, hg⟩ := Option.isSome_iff_exists.mp hb
    exact h.segOk hg
  · exact absurd (hapart .boot (.seg b) hx hx') (by simp)
  · exact absurd (hapart .boot (.large b) hx hx') (by simp)
  · exact absurd (hapart (.seg b) (.large b') hx hx') (by simp)
  · have hok := h.larges.each hb
    exact ⟨hok.base, hok.pos, hok.stop⟩
  · obtain ⟨l, hl, hmem, hlen⟩ := h.larges.list
    exact ⟨l, hl.1, hmem, hlen⟩

/-! ## Segments -/

/-- A non-null base is registered exactly when a segment is mapped there. -/
theorem WellLaid.registered_iff (h : WellLaid c s) (hb : b ≠ 0) :
    segmentIsRegistered s.segmentRegistry b = true ↔ (s.segs b).isSome := by
  refine ⟨fun hreg => ?_, h.registered b⟩
  obtain ⟨i, hi⟩ := (segmentIsRegistered_iff.mp hreg).mem
  have := h.only i (by rw [hi]; exact hb)
  rwa [hi] at this

theorem mask_eq (hx : x < 2 ^ 64) : x &&& (2 ^ 64 - segmentSize) = x / 4194304 * 4194304 :=
  and_highMask (k := 22) (by decide) hx

/-- An address of a segment is masked to its base. -/
theorem WellLaid.mask (h : WellLaid c s) (hx : InSegment s b x) : x / 4194304 * 4194304 = b := by
  obtain ⟨q, hq⟩ := (h.seg b hx.1).al
  have h₁ := hx.2.1
  have h₂ := hx.2.2
  omega

theorem WellLaid.ptrToSegment_in (h : WellLaid c s) (hx : x < 2 ^ 64) (hin : InSegment s b x) :
    ptrToSegment s x = b := by
  unfold ptrToSegment
  simp only [mask_eq hx, h.mask hin]
  exact if_pos (h.registered b hin.1)

/-- Outside the segments the lookup fails or finds the base 0. -/
theorem WellLaid.ptrToSegment_out (h : WellLaid c s) (hx : x < 2 ^ 64)
    (hout : ∀ b, ¬ InSegment s b x) : ptrToSegment s x = 0 := by
  unfold ptrToSegment
  simp only [mask_eq hx]
  split
  next hreg =>
    by_contra hne
    have hseg := (h.registered_iff hne).mp hreg
    exact hout _ ⟨hseg, by omega, by omega⟩
  next => rfl

theorem WellLaid.ptrToSegment_iff (h : WellLaid c s) (hx : x < 2 ^ 64) :
    ptrToSegment s x ≠ 0 ↔ ∃ b, InSegment s b x := by
  constructor
  · intro hne
    by_contra hno
    exact hne (h.ptrToSegment_out hx (not_exists.mp hno))
  · intro hin
    obtain ⟨b, hin⟩ := hin
    rw [h.ptrToSegment_in hx hin]
    exact Nat.ne_of_gt (h.seg b hin.1).pos

/-- Every byte of every slot leads back to its page. -/
theorem WellLaid.ptrToPage_slot (h : WellLaid c s) {r : PageRef} (hd : IsData s.segs r)
    (hact : (s.pages r).state = .active) {i d : Nat} (hi : i < (s.pages r).capacity)
    (hlt : d < (s.pages r).slotSize) :
    ptrToPage s (pageStart (s.pages r) + i * (s.pages r).slotSize + d) = some r := by
  have g := h.page r hd hact
  obtain ⟨h₁, h₂⟩ := g.slot_in hi
  have hend := g.start_lt
  have hpos := (h.seg r.seg hd.1).pos
  have hidx := hd.2.2
  unfold slotAt at h₁ h₂
  rw [g.pageStart_eq]
  generalize hy : r.start + i * (s.pages r).slotSize + d = y
  have hy₁ : r.start ≤ y := by omega
  have hy₂ : y < r.start + 65536 := by omega
  unfold PageRef.start at hy₁ hy₂ hend
  have hin : InSegment s r.seg y := ⟨hd.1, by omega, by omega⟩
  have hpage : (y - r.seg) / pageSizeAlloc % 2 ^ 16 = r.idx := by
    rw [show pageSizeAlloc = 65536 from rfl]
    omega
  unfold ptrToPage
  simp only [h.ptrToSegment_in (by omega) hin, hpage]
  rw [if_neg (by omega), if_neg (by simp only [pagesPerSegment]; omega)]

/-! ## Large mappings and the bootstrap buffer -/

theorem WellLaid.largeContains_iff (h : WellLaid c s) :
    largeContains s x b = true ↔ InLarge s b x := by
  unfold largeContains InLarge
  cases hb : s.larges b with
  | none => simp
  | some la =>
    obtain ⟨hbase, -, hstop⟩ := h.large b la hb
    simp only [hbase, Nat.mod_eq_of_lt hstop, Bool.and_eq_true, decide_eq_true_eq,
      Option.some.injEq]
    exact ⟨fun hx => ⟨la, rfl, hx⟩, fun hx => by obtain ⟨_, rfl, hx⟩ := hx; exact hx⟩

/-- `large_find` succeeds exactly inside the large mappings. -/
theorem WellLaid.largeFind_iff (h : WellLaid c s) :
    ∃ o, largeFind s x = .ok o ∧ (o.isSome ↔ ∃ b, InLarge s b x) := by
  obtain ⟨l, hl, hmem, hlen⟩ := h.list
  refine ⟨l.find? (largeContains s x), ?_, ?_⟩
  · unfold largeFind
    rw [findFrom_linked hl (Nat.le_of_eq hlen.symm)]
  · rw [List.find?_isSome]
    constructor
    · intro hb
      obtain ⟨b, -, hb⟩ := hb
      exact ⟨b, h.largeContains_iff.mp hb⟩
    · intro hb
      obtain ⟨b, la, hla, hx⟩ := hb
      exact ⟨b, (hmem b).mpr (by rw [hla]; rfl), h.largeContains_iff.mpr ⟨la, hla, hx⟩⟩

theorem inBootstrap_iff : inBootstrap c x = true ↔ InBoot c x := by
  unfold inBootstrap InBoot
  rw [Bool.and_eq_true, decide_eq_true_eq, decide_eq_true_eq]
  rfl

theorem WellLaid.claimed_iff (h : WellLaid c s) (hx : x < 2 ^ 64) :
    ∃ r, zoneClaimedAddress c s x = .ok r ∧
      (r = true ↔ InBoot c x ∨ (∃ b, InSegment s b x) ∨ ∃ b, InLarge s b x) := by
  unfold zoneClaimedAddress
  by_cases h0 : x = 0
  · -- nothing of the allocator's is at address 0
    rw [if_pos h0]
    refine ⟨false, rfl, fun hf => absurd hf (by simp), fun hin => ?_⟩
    subst h0
    rcases hin with hb | ⟨b, hb⟩ | ⟨b, la, hla, hb⟩
    · exact absurd hb.1 (Nat.not_le.mpr h.boot_pos)
    · exact absurd hb.2.1 (Nat.not_le.mpr (h.seg b hb.1).pos)
    · exact absurd hb.1 (Nat.not_le.mpr (h.large b la hla).2.1)
  rw [if_neg h0]
  by_cases hboot : InBoot c x
  · rw [if_pos (inBootstrap_iff.mpr hboot)]
    exact ⟨true, rfl, fun _ => Or.inl hboot, fun _ => rfl⟩
  rw [if_neg (fun hc => hboot (inBootstrap_iff.mp hc))]
  by_cases hseg : ptrToSegment s x ≠ 0
  · rw [if_pos hseg]
    exact ⟨true, rfl, fun _ => Or.inr (Or.inl ((h.ptrToSegment_iff hx).mp hseg)), fun _ => rfl⟩
  rw [if_neg hseg]
  obtain ⟨o, ho, hiff⟩ := h.largeFind_iff (x := x)
  rw [ho]
  refine ⟨o.isSome, rfl, ?_⟩
  rw [hiff]
  have hno : ¬ ∃ b, InSegment s b x := fun hin => hseg ((h.ptrToSegment_iff hx).mpr hin)
  simp only [hboot, hno, false_or]

/-! ## `my_free` -/

/-- `my_free` in terms of what the address lies in. -/
theorem WellLaid.myFree_cases (h : WellLaid c s) (hx : x < 2 ^ 64) (t : Nat) :
    ((∃ b, InSegment s b x) → myFree c s t x = slabFree c s t x) ∧
    (InBoot c x → myFree c s t x = .ok s) ∧
    (¬ InBoot c x → (∀ b, ¬ InSegment s b x) → myFree c s t x = largeFree c s x) := by
  unfold myFree
  refine ⟨fun hin => ?_, fun hin => ?_, fun hboot hseg => ?_⟩
  · obtain ⟨b, hin⟩ := hin
    have hne := (h.ptrToSegment_iff hx).mpr ⟨b, hin⟩
    have hx0 : x ≠ 0 := by
      have h₁ := (h.seg b hin.1).pos
      have h₂ := hin.2.1
      omega
    rw [if_neg hx0, if_neg (fun hc => h.boot_seg b x (inBootstrap_iff.mp hc) hin), if_pos hne]
  · rw [if_pos (inBootstrap_iff.mpr hin)]
    split <;> rfl
  · by_cases h0 : x = 0
    · rw [if_pos h0, h0]
      rfl
    · rw [if_neg h0, if_neg (fun hc => hboot (inBootstrap_iff.mp hc)),
        if_neg (not_not_intro (h.ptrToSegment_out hx hseg))]

theorem pointers_classified (c : Cfg) (s : State) (h : WellLaid c s) :
    (∀ x, x < 2 ^ 64 →
      (ptrToSegment s x ≠ 0 ↔ ∃ b, InSegment s b x) ∧
      (∀ b, InSegment s b x → ptrToSegment s x = b) ∧
      (∃ r, zoneClaimedAddress c s x = .ok r ∧
        (r = true ↔ InBoot c x ∨ (∃ b, InSegment s b x) ∨ ∃ b, InLarge s b x)) ∧
      ∀ t, ((∃ b, InSegment s b x) → myFree c s t x = slabFree c s t x) ∧
        (InBoot c x → myFree c s t x = .ok s) ∧
        (¬ InBoot c x → (∀ b, ¬ InSegment s b x) → myFree c s t x = largeFree c s x)) ∧
    (∀ r, IsData s.segs r → (s.pages r).state = .active → ∀ i < (s.pages r).capacity,
      ∀ d < (s.pages r).slotSize,
        ptrToPage s (pageStart (s.pages r) + i * (s.pages r).slotSize + d) = some r) := by
  refine ⟨fun x hx => ?_, fun r hd hact i hi d hlt => h.ptrToPage_slot hd hact hi hlt⟩
  exact ⟨h.ptrToSegment_iff hx, fun b hin => h.ptrToSegment_in hx hin, h.claimed_iff hx,
    fun t => h.myFree_cases hx t⟩

/-- After the first allocation: the last byte of the segment is claimed, and address 0 is
not. -/
theorem pointers_classified_first :
    ∃ s, WellLaid (.page4k false) s ∧ ptrToSegment s 0x203FFFFF = 0x20000000 ∧
      zoneClaimedAddress (.page4k false) s 0x203FFFFF = .ok true ∧
      zoneClaimedAddress (.page4k false) s 0 = .ok false := by
  obtain ⟨σ, hreach, -, hd, -, hfew⟩ := exists_firstMalloc
  obtain ⟨G, hh⟩ := reachable_holds (fun _ _ hs => hs) hreach
  have hlaid : WellLaid (.page4k false) σ.heap := hh.inv.wellLaid (by decide) hfew
  have hin : InSegment σ.heap 0x20000000 0x203FFFFF := ⟨hd.1, by decide, by decide⟩
  obtain ⟨hall, -⟩ := pointers_classified (.page4k false) σ.heap hlaid
  obtain ⟨-, hbase, ⟨r, hr, hiff⟩, -⟩ := hall 0x203FFFFF (by decide)
  refine ⟨σ.heap, hlaid, hbase _ hin, ?_, rfl⟩
  rw [hr, hiff.mpr (Or.inr (Or.inl ⟨_, hin⟩))]

end CustomMalloc

import CustomMalloc.Inv.SlabFrame
import CustomMalloc.Props.Align
import CustomMalloc.Props.Contents

/-!
# Freeing an aligned block

`large_alloc_aligned` returns the mapping's start plus the header space, and
`large_free` finds the mapping again by asking which one contains the pointer. With
a size of zero and an alignment of a page or more the header space fills the whole
mapping, so the pointer is the mapping's end: it belongs to nobody, or to the next
mapping, and freeing it frees that one. For all other requests (`PtrInside`) the
pointer leads to the header of the call that returned it.
-/

namespace CustomMalloc

open Lib.Words Lib.Bytes Lib.Chain Lib.Intervals Lib.Regions Lib.Post

variable {c : Cfg} {s s' : State} {G G' : Ghost}

/-! ## What my_free does to a large block -/

/-- `s'` is `s` without the mapping of the header `la` at `b`: exactly its addresses are
unmapped, and every other header is still there, in the list and mapped. -/
structure OnlyUnmaps (s : State) (b : Nat) (la : LargeAlloc) (s' : State) : Prop where
  mapped : ∀ x, Covers s'.mapped x ↔ Covers s.mapped x ∧ ¬ (b ≤ x ∧ x < b + la.size)
  gone : s'.larges b = none
  others : ∀ b' la', b' ≠ b → s.larges b' = some la' →
    (∃ y, s'.larges b' = some y ∧ y.base = la'.base ∧ y.size = la'.size ∧
      y.userSize = la'.userSize) ∧ ∀ x, b' ≤ x → x < b' + la'.size → Covers s'.mapped x
  linked : ∃ l, Linked (fun b => (s'.larges b).bind LargeAlloc.next) s'.largeList l ∧
    ∀ b', b' ∈ l ↔ (s'.larges b').isSome

/-- `p` leads to the header `la` at `b`, and freeing it frees that mapping and nothing
else. -/
structure FreesItself (c : Cfg) (s : State) (p b : Nat) (la : LargeAlloc) : Prop where
  find : largeFind s p = .ok (some b)
  free : ∀ t, ∃ s', myFree c s t p = .ok s' ∧ OnlyUnmaps s b la s'

theorem Inv.onlyUnmaps (h : Inv c s G) {b : Nat} {la : LargeAlloc} (hb : s.larges b = some la) :
    OnlyUnmaps s b la (freedLarge c s b la) := by
  have hok := h.larges.each hb
  have hround : roundPage c la.size = la.size := alignUp_of_dvd c.osPage_pos hok.size_page
  have hmapped : ∀ x, Covers (freedLarge c s b la).mapped x ↔
      Covers s.mapped x ∧ ¬ (b ≤ x ∧ x < b + la.size) := by
    intro x
    show Covers (unmapRange c s.mapped la.base la.size) x ↔ _
    rw [hok.base, covers_unmapRange hok.page, hround]
  refine ⟨hmapped, removedLarges_self, ?_, ?_⟩
  · intro b' la' hne hb'
    refine ⟨⟨_, removedLarges_ne hne hb', rfl, rfl, rfl⟩, ?_⟩
    intro x h₁ h₂
    have hin : Region.Has c s.segs s.larges s.tls (.large b') x := ⟨la', hb', h₁, h₂⟩
    refine (hmapped x).mpr ⟨h.regions.backed hin, fun hx => ?_⟩
    exact hne (Region.large.inj (h.regions.apart hin (j := .large b) ⟨la, hb, hx⟩))
  · obtain ⟨l, hl, hmem, -⟩ := (h.larges.remove hb).list
    exact ⟨l, hl.1, hmem⟩

theorem Inv.freesItself (h : Inv c s G) {b : Nat} {la : LargeAlloc} (hb : s.larges b = some la) :
    FreesItself c s (G.user b) b la := by
  have hok := h.larges.each hb
  have hpos := (h.blk_align (.large hb)).2
  have hfind := h.largeFind_eq (hok.region hb).1
  refine ⟨hfind, fun t => ⟨freedLarge c s b la, ?_, h.onlyUnmaps hb⟩⟩
  have hlt := hok.ptr_lt
  have hge := hok.ptr_ge
  have hbpos := hok.pos
  unfold myFree
  rw [if_neg (Nat.ne_of_gt hpos), h.not_bootstrap (.large hb), if_neg (by simp),
    h.ptrToSegment_large hb hok, if_neg (by simp)]
  exact largeFree_eq (Nat.ne_of_gt hpos) hfind hb (by rw [hok.base]; omega) (by omega)

/-! ## The header a call creates -/

/-- The call from `s` to `s'` created the large header `la` at `b`. -/
def Created (s s' : State) (b : Nat) (la : LargeAlloc) : Prop :=
  s.larges b = none ∧ s'.larges b = some la

theorem linkedLarge_larges (s : State) (la : LargeAlloc) :
    (linkedLarge s la).larges = mapAt (fun x => { x with prev := some la.base }) s.largeList
      (upd s.larges la.base (some { la with next := s.largeList, prev := none })) := by
  unfold linkedLarge linkLarge mapAt
  cases s.largeList <;> rfl

theorem linkedLarge_created {la x : LargeAlloc} {b : Nat} (h : Created s (linkedLarge s la) b x) :
    b = la.base ∧ x.base = la.base ∧ x.size = la.size := by
  obtain ⟨hnone, hb⟩ := h
  rw [linkedLarge_larges, mapAt_apply] at hb
  by_cases hbb : b = la.base
  · subst hbb
    rw [upd_same] at hb
    split at hb
    · cases hb
      exact ⟨rfl, rfl, rfl⟩
    · cases hb
      exact ⟨rfl, rfl, rfl⟩
  · rw [upd_ne hbb, hnone] at hb
    exact absurd hb (by simp)

theorem LargeKept.not_created (h : LargeKept s s') {b : Nat} {la : LargeAlloc} :
    ¬ Created s s' b la := by
  intro hc
  have hb := hc.2
  rw [h.larges, hc.1] at hb
  cases hb

/-- The header `large_alloc_aligned` creates, and where its pointer lies. -/
theorem largeAllocAligned_created {size k p b : Nat} {la : LargeAlloc} (hk : k ≤ 63)
    (hfit : LargeFits c size (2 ^ k)) (he : largeAllocAligned c s size (2 ^ k) = .ok (p, s'))
    (hc : Created s s' b la) :
    la.base = b ∧ la.size = alignUp c.osPage (alignUp (raisedAlign (2 ^ k)) 48 + size) ∧
      p = b + alignUp (raisedAlign (2 ^ k)) 48 ∧ b + la.size < 2 ^ 64 := by
  rcases largeAllocAligned_cases hk hfit he with
    ⟨-, hos⟩ | ⟨base, s₁, -, hos, hf, -, -, rfl, rfl⟩
  · exact absurd hc hos.largeKept.not_created
  · have hc₁ : Created s₁ (linkedLarge s₁ (newHeader c base size (2 ^ k))) b la :=
      ⟨by rw [hos.largeKept.larges]; exact hc.1, hc.2⟩
    obtain ⟨hb, hbase, hsize⟩ := linkedLarge_created hc₁
    have hb : b = base := hb
    subst hb
    exact ⟨hbase, hsize, rfl, by rw [hsize]; exact hf.fits⟩

/-- With room in the mapping the pointer leads back to its header. -/
theorem largeAllocAligned_freesItself (h : Inv c s G) {size k p b : Nat} {la : LargeAlloc}
    (hk : k ≤ 63) (hfit : LargeFits c size (2 ^ k)) (hroom : HasRoom c size (2 ^ k))
    (he : largeAllocAligned c s size (2 ^ k) = .ok (p, s')) (hp : p ≠ 0) (hc : Created s s' b la) :
    FreesItself c s' p b la := by
  obtain ⟨-, hsize, hptr, -⟩ := largeAllocAligned_created hk hfit he hc
  obtain ⟨b₀, halloc, -⟩ := (largeAllocAligned_spec h hk hfit hroom he).got hp
  have hlt := hroom.lt
  have hin : Region.Has c s'.segs s'.larges s'.tls (.large b) p :=
    ⟨la, hc.2, by omega, by omega⟩
  -- the pointer lies in the new mapping only, so it is that mapping's user pointer
  rcases halloc.inv.blk_cases halloc.new with ⟨r, hr, -⟩ | ⟨b₁, la₁, hl₁, hok₁, hu, -⟩
  · exact absurd (halloc.inv.regions.apart (halloc.inv.slab_region hr).1 hin) (by simp)
  · obtain rfl := Region.large.inj (halloc.inv.regions.apart (hok₁.region hl₁).1 hin)
    rw [hu]
    exact halloc.inv.freesItself hc.2

/-- A header `large_find` returns contains the pointer. -/
theorem largeFind_contains {p b : Nat} {la : LargeAlloc} (hf : largeFind s p = .ok (some b))
    (hb : s.larges b = some la) : p < (la.base + la.size) % 2 ^ 64 := by
  unfold largeFind at hf
  split at hf
  next => cases hf
  next r hr =>
    obtain rfl : r = some b := by simpa using hf
    have hc := findFrom_passes hr
    unfold largeContains at hc
    rw [hb] at hc
    simp only [Bool.and_eq_true, decide_eq_true_eq] at hc
    exact hc.2

/-- Without room the pointer is the end of the mapping, which `large_find` does not
count to it. -/
theorem largeAllocAligned_not_found {size k p b : Nat} {la : LargeAlloc} (hk : k ≤ 63)
    (hfit : LargeFits c size (2 ^ k)) (hroom : ¬ HasRoom c size (2 ^ k))
    (he : largeAllocAligned c s size (2 ^ k) = .ok (p, s')) (hc : Created s s' b la) :
    largeFind s' p ≠ .ok (some b) := by
  obtain ⟨hbase, hsize, hptr, hstop⟩ := largeAllocAligned_created hk hfit he hc
  intro hf
  have hlt := largeFind_contains hf hc.2
  rw [hbase, Nat.mod_eq_of_lt hstop] at hlt
  rw [HasRoom, not_or] at hroom
  obtain rfl : size = 0 := by omega
  rw [Nat.add_zero] at hsize
  omega

/-! ## Aligned requests -/

/-- What `my_memalign` does with a power of two: ask for a large block of the requested
size and alignment, or for an ordinary large block, or for a slot. -/
theorem myMemalign_cases (c : Cfg) (s : State) (t : Nat) {k size : Nat}
    (hfit : LargeFits c size (2 ^ k)) :
    (myMemalign c s t (2 ^ k) size = largeAllocAligned c s size (2 ^ k) ∧
      (0 < size ∨ pageSizeAlloc < 2 ^ k)) ∨
    2 ^ k ≤ pageSizeAlloc ∧
      ((∃ n, 0 < n ∧ LargeFits c n 16 ∧ myMemalign c s t (2 ^ k) size = largeAlloc c s n) ∨
        ∃ n, 0 < n ∧ SlabSized n ∧ myMemalign c s t (2 ^ k) size = slabAlloc c s t n) := by
  have hpow : ¬ (2 ^ k = 0 ∨ 2 ^ k &&& (2 ^ k - 1) ≠ 0) := by
    rw [not_or, not_not]
    have h0 := Nat.ne_of_gt (Nat.two_pow_pos k)
    exact ⟨h0, (Nat.and_sub_one_eq_zero_iff_isPowerOfTwo h0).mpr ⟨k, rfl⟩⟩
  unfold myMemalign
  rw [if_neg hpow]
  by_cases hmin : 2 ^ k ≤ minAlign
  · rw [if_pos hmin]
    exact Or.inr ⟨Nat.le_trans hmin (by decide), myMalloc_cases c s t (hfit.sixteen hmin)⟩
  rw [if_neg hmin]
  by_cases hbig : mediumMax < size ∨ pageSizeAlloc < 2 ^ k
  · rw [if_pos hbig]
    exact Or.inl ⟨rfl, hbig.imp_left fun h => Nat.lt_of_le_of_lt (Nat.zero_le _) h⟩
  rw [if_neg hbig]
  rw [not_or, Nat.not_lt, Nat.not_lt] at hbig
  have hk16 : k ≤ 16 :=
    (Nat.pow_le_pow_iff_right (by decide)).mp (show 2 ^ k ≤ 2 ^ 16 from hbig.2)
  simp only [show alignUp64 (2 ^ k) (if size < 2 ^ k then 2 ^ k else size) =
    memalignSize (2 ^ k) size from rfl]
  obtain ⟨-, -, hpos⟩ := memalignSize_bounds hk16 hbig.1
  by_cases hmed : mediumMax < memalignSize (2 ^ k) size
  · rw [if_pos hmed]
    refine Or.inl ⟨rfl, Or.inl (Nat.pos_of_ne_zero ?_)⟩
    rintro rfl
    rw [memalignSize_zero hk16] at hmed
    exact absurd hbig.2 (Nat.not_le.mpr (Nat.lt_trans (by decide) hmed))
  rw [if_neg hmed]
  refine Or.inr ⟨hbig.2, ?_⟩
  by_cases hslab : SlabSized (memalignSize (2 ^ k) size)
  · exact Or.inr ⟨_, hpos, hslab, rfl⟩
  · exact Or.inl ⟨_, hpos, largeFits_small (Nat.not_lt.mp hmed),
      slabAlloc_rerouted c s t hpos hslab⟩

/-- A slot is taken without creating a header. -/
theorem slabAlloc_not_created {t n p b : Nat} {la : LargeAlloc} (hpos : 0 < n) (hn : SlabSized n)
    (he : slabAlloc c s t n = .ok (p, s')) : ¬ Created s s' b la := by
  have hk : Ensures (fun _ => True) (slabAlloc c s t n) fun x => LargeKept s x.2 := by
    unfold slabAlloc
    exact ensures_bind (slabAllocInner_closed (largeKept_closed t) s hpos hn) fun _ h => h
  exact LargeKept.not_created (ensures_elim (Q := fun x => LargeKept s x.2) hk he)

/-- Without room in a mapping for the pointer, and only then, `PtrInside` fails for a
request that `large_alloc_aligned` serves. -/
theorem HasRoom.ptrInside {k size : Nat} (h : HasRoom c size (2 ^ k)) :
    PtrInside c (2 ^ k) size := by
  by_contra hno
  unfold PtrInside at hno
  rw [not_or, not_or, Nat.not_le] at hno
  obtain ⟨hsize, hbig, hpage⟩ := hno
  replace hpage : c.osPage ≤ 2 ^ k := Nat.not_lt.mp hpage
  have h64 : 65536 < 2 ^ k := hbig
  have hraise : raisedAlign (2 ^ k) = 2 ^ k := if_neg (by simp only [minAlign]; omega)
  have hshift : c.pageShift ≤ k :=
    (Nat.pow_le_pow_iff_right (by decide)).mp (show 2 ^ c.pageShift ≤ 2 ^ k from hpage)
  have hdvd : c.osPage ∣ alignUp (2 ^ k) 48 :=
    Nat.dvd_trans (Nat.pow_dvd_pow 2 hshift) (dvd_alignUp (2 ^ k) 48)
  rcases h with h | h
  · exact hsize h
  · rw [hraise, alignUp_of_dvd c.osPage_pos hdvd] at h
    exact absurd h (Nat.lt_irrefl _)

theorem myMemalign_freesItself_iff (h : Inv c s G) {t k size p b : Nat} {la : LargeAlloc}
    (hk : k ≤ 63) (hfit : LargeFits c size (2 ^ k))
    (he : myMemalign c s t (2 ^ k) size = .ok (p, s')) (hp : p ≠ 0) (hc : Created s s' b la) :
    FreesItself c s' p b la ↔ PtrInside c (2 ^ k) size := by
  rcases myMemalign_cases c s t hfit with ⟨heq, hlarge⟩ |
    ⟨hle, ⟨n, hn, hnfit, heq⟩ | ⟨n, hn, hslab, heq⟩⟩
  · rw [heq] at he
    constructor
    · intro hf
      by_contra hno
      have hroom : ¬ HasRoom c size (2 ^ k) := fun hr => hno hr.ptrInside
      exact largeAllocAligned_not_found hk hfit hroom he hc hf.find
    · intro hin
      exact largeAllocAligned_freesItself h hk hfit (hin.hasRoom hlarge) he hp hc
  · rw [heq] at he
    refine iff_of_true ?_ (Or.inr (Or.inl hle))
    exact largeAllocAligned_freesItself h (k := 4) (by decide) hnfit (Or.inl hn) he hp hc
  · rw [heq] at he
    exact absurd hc (slabAlloc_not_created hn hslab he)

theorem aligned_frees_itself_iff (c : Cfg) (σ : Sys) (h : Reachable c (SafeCall c) σ)
    (t k size : Nat)
    (ans : List (Option Nat)) (hk : k < 64) (hfit : LargeFits c size (2 ^ k)) (p b : Nat)
    (la : LargeAlloc) (s' : State) (hc : Created σ.heap s' b la) :
    (myMemalign c (σ.heap.withAnswers ans) t (2 ^ k) size = .ok (p, s') → p ≠ 0 →
      (FreesItself c s' p b la ↔ PtrInside c (2 ^ k) size)) ∧
    (myPosixMemalign c (σ.heap.withAnswers ans) t (2 ^ k) size = .ok (.ok p, s') →
      (FreesItself c s' p b la ↔ PtrInside c (2 ^ k) size)) := by
  obtain ⟨G, hh⟩ := reachable_holds (fun _ _ hs => hs) h
  have hinv := (hh.withAnswers ans).inv
  have hmem : myMemalign c (σ.heap.withAnswers ans) t (2 ^ k) size = .ok (p, s') → p ≠ 0 →
      (FreesItself c s' p b la ↔ PtrInside c (2 ^ k) size) := fun he hp =>
    myMemalign_freesItself_iff hinv (Nat.le_of_lt_succ hk) hfit he hp hc
  refine ⟨hmem, fun he => ?_⟩
  obtain ⟨he', hp⟩ := myPosixMemalign_ok he
  exact hmem he' hp

/-- One byte is enough for the pointer to lie inside. -/
theorem aligned_frees_itself_iff_one_byte :
    ∃ s' la, myMemalign (.page4k false) ((State.initial (.page4k false)).withAnswers
        [some 0x103E0000]) 0 (2 ^ 17) 1 = .ok (0x10400000, s') ∧
      Created (State.initial (.page4k false)) s' 0x103E0000 la ∧
      FreesItself (.page4k false) s' 0x10400000 0x103E0000 la := by
  obtain ⟨⟨p, s'⟩, he, ht⟩ := exists_of_passes (myMemalign (.page4k false)
    ((State.initial (.page4k false)).withAnswers [some 0x103E0000]) 0 (2 ^ 17) 1)
    (fun r => r.1 == 0x10400000 && (r.2.larges 0x103E0000).isSome) (by decide +kernel)
  simp only [Bool.and_eq_true, beq_iff_eq] at ht
  obtain ⟨rfl, hsome⟩ := ht
  obtain ⟨la, hla⟩ := Option.isSome_iff_exists.mp hsome
  have hc : Created (State.initial (.page4k false)) s' 0x103E0000 la := ⟨rfl, hla⟩
  refine ⟨s', la, he, hc, ?_⟩
  exact ((aligned_frees_itself_iff (.page4k false) (Sys.initial (.page4k false)) .refl 0 17 1
    [some 0x103E0000] (by decide) (by decide) 0x10400000 0x103E0000 la s' hc).1 he (by decide)).mpr
    (Or.inl (by decide))

/-- `my_memalign(131072, 0)` creates a header that `large_find` does not find. Once
another large block is mapped right behind, the pointer leads to that block's header,
and freeing it unmaps the block the client still holds and not its own. -/
theorem aligned_free_frees_neighbour :
    (∃ s' la, myMemalign (.page4k false) ((State.initial (.page4k false)).withAnswers
        [some 0x103E0000]) 0 (2 ^ 17) 0 = .ok (0x10400000, s') ∧
      Created (State.initial (.page4k false)) s' 0x103E0000 la ∧
      largeFind s' 0x10400000 = .ok none) ∧
    0x10400030 ∈ afterBadFree.ptrs ∧ afterBadFree.heap.larges 0x10400000 = none ∧
      (afterBadFree.heap.larges 0x103E0000).isSome := by
  obtain ⟨⟨p, s'⟩, he, ht⟩ := exists_of_passes (myMemalign (.page4k false)
    ((State.initial (.page4k false)).withAnswers [some 0x103E0000]) 0 (2 ^ 17) 0)
    (fun r => r.1 == 0x10400000 && (r.2.larges 0x103E0000).isSome &&
      passes (largeFind r.2 0x10400000) (· == none)) (by decide +kernel)
  simp only [Bool.and_eq_true, beq_iff_eq] at ht
  obtain ⟨⟨rfl, hsome⟩, hfind⟩ := ht
  obtain ⟨la, hla⟩ := Option.isSome_iff_exists.mp hsome
  obtain ⟨o, ho, hnone⟩ := exists_of_passes _ _ hfind
  obtain rfl : o = none := by simpa using hnone
  exact ⟨⟨s', la, he, ⟨rfl, hla⟩, ho⟩, by decide +kernel, by decide +kernel, by decide +kernel⟩

end CustomMalloc

import CustomMalloc.Inv.Slots

/-!
# The invariant of one page

`PageInv` bundles the geometry, the division of the slots and, in a
`MALLOC_DEBUG` build, the bitmap: exactly the slots `busy` are handed out. Each
operation of `slab.c` on a page gets one lemma (`takeLocal`, `takeBump`,
`collect`, `release`, `init`) that gives the new metadata, says which slot was
handed out or taken back, and bounds the bytes written (`PageFrame`).
-/

namespace CustomMalloc

open Lib.Words Lib.Bytes Lib.Chain

variable {r : PageRef} {p p' : PageMeta} {m m' : Mem}

/-! ## The debug bitmap -/

/-- A bitmap's bit. -/
def bitAt (bm : Nat → Nat) (i : Nat) : Bool := (bm (i / 8)).testBit (i % 8)

theorem debugSlotIndex_slotAt (g : Geom r p) {i : Nat} (hi : i < p.capacity) :
    debugSlotIndex p (slotAt r p i) = i := by
  have hs := g.slot_ge
  have hcap := g.cap_le
  have hsub : slotAt r p i - r.start = i * p.slotSize := by
    unfold slotAt
    omega
  have hi16 : i % 2 ^ 16 = i := Nat.mod_eq_of_lt (by omega)
  unfold debugSlotIndex
  rw [g.pageStart_eq, if_neg (by have := (g.slot_in hi).1; omega), hsub, Nat.mul_mod_left,
    if_neg (by simp), Nat.mul_div_cancel _ (by omega), hi16]
  exact if_pos hi

theorem testBit_clearMask : ∀ k < 8, ∀ j < 8, (255 - 2 ^ k).testBit j = !decide (j = k) := by
  decide

/-- Setting bit `i`. -/
theorem bitAt_set (bm : Nat → Nat) (i j : Nat) :
    bitAt (upd bm (i / 8) (bm (i / 8) ||| 2 ^ (i % 8))) j = (bitAt bm j || decide (j = i)) := by
  unfold bitAt
  by_cases hd : j / 8 = i / 8
  · rw [hd, upd_same, Nat.testBit_or, Nat.testBit_two_pow]
    congr 1
    exact decide_eq_decide.mpr (by omega)
  · rw [upd_ne hd, decide_eq_false (show ¬ j = i by rintro rfl; exact hd rfl), Bool.or_false]

/-- Clearing bit `i`. -/
theorem bitAt_clear (bm : Nat → Nat) (i j : Nat) :
    bitAt (upd bm (i / 8) (bm (i / 8) &&& (255 - 2 ^ (i % 8)))) j =
      (bitAt bm j && !decide (j = i)) := by
  unfold bitAt
  by_cases hd : j / 8 = i / 8
  · rw [hd, upd_same, Nat.testBit_and, testBit_clearMask _ (by omega) _ (by omega)]
    congr 2
    exact decide_eq_decide.mpr (by omega)
  · rw [upd_ne hd, decide_eq_false (show ¬ j = i by rintro rfl; exact hd rfl)]
    simp

/-- The checks change nothing but the bitmap. -/
theorem markAllocated_eq {c : Cfg} {slot : Nat} (he : markAllocated c p slot = .ok p') :
    ∃ bm, p' = { p with debugBitmap := bm } := by
  unfold markAllocated debugMarkAllocated at he
  split at he
  next =>
    simp only at he
    split at he
    next => cases he
    next =>
      split at he
      next => cases he
      next => exact ⟨_, (Except.ok.inj he).symm⟩
  next => exact ⟨p.debugBitmap, (Except.ok.inj he).symm⟩

theorem markFreed_eq {c : Cfg} {slot : Nat} (he : markFreed c p slot = .ok p') :
    ∃ bm, p' = { p with debugBitmap := bm } := by
  unfold markFreed debugCheckAndMarkFreed at he
  split at he
  next =>
    simp only at he
    split at he
    next => cases he
    next =>
      split at he
      next => exact ⟨_, (Except.ok.inj he).symm⟩
      next => cases he
  next => exact ⟨p.debugBitmap, (Except.ok.inj he).symm⟩

/-! ## The invariant of one page -/

/-- Page `r` is well formed and exactly the slots `busy` are handed out. -/
structure PageInv (d : Bool) (m : Mem) (r : PageRef) (p : PageMeta) (busy : List Nat) : Prop where
  geom : Geom r p
  slots : ∃ k loc rem, Slots m r p k loc rem busy
  bits : d = true → ∀ i, bitAt p.debugBitmap i = true ↔ slotAt r p i ∈ busy

/-- `m'` differs from `m` only in bytes of page `r` that belong to no slot of `busy`. -/
def PageFrame (m m' : Mem) (r : PageRef) (slotSize : Nat) (busy : List Nat) : Prop :=
  ∀ y, m' y ≠ m y →
    r.start ≤ y ∧ y < r.start + 65536 ∧ ∀ b ∈ busy, ¬ (b ≤ y ∧ y < b + slotSize)

theorem PageFrame.refl {n : Nat} {busy : List Nat} :
    PageFrame m m r n busy := fun _ h => absurd rfl h

namespace PageInv

variable {d : Bool} {busy : List Nat} {x : Nat}

theorem busy_slot (h : PageInv d m r p busy) (hx : x ∈ busy) :
    ∃ i, i < p.capacity ∧ x = slotAt r p i := by
  obtain ⟨k, loc, rem, hs⟩ := h.slots
  obtain ⟨i, hi, rfl⟩ := mem_slotList.mp (hs.mem_parts.mpr (Or.inr (Or.inr hx)))
  exact ⟨i, Nat.lt_of_lt_of_le hi hs.carved_le, rfl⟩

theorem busy_nodup (h : PageInv d m r p busy) : busy.Nodup := by
  obtain ⟨k, loc, rem, hs⟩ := h.slots
  exact (List.nodup_append.mp (hs.parts_nodup h.geom)).2.1

/-- A busy slot lies inside the page. -/
theorem busy_in (h : PageInv d m r p busy) (hx : x ∈ busy) :
    r.start ≤ x ∧ x + p.slotSize ≤ r.start + 65536 ∧ 16 ∣ x := by
  obtain ⟨i, hi, rfl⟩ := h.busy_slot hx
  exact ⟨(h.geom.slot_in hi).1, (h.geom.slot_in hi).2, h.geom.slot_dvd i⟩

/-- Different busy slots do not overlap. -/
theorem busy_apart (h : PageInv d m r p busy) {y : Nat} (hx : x ∈ busy) (hy : y ∈ busy)
    (hne : x ≠ y) : x + p.slotSize ≤ y ∨ y + p.slotSize ≤ x := by
  obtain ⟨i, hi, rfl⟩ := h.busy_slot hx
  obtain ⟨j, hj, rfl⟩ := h.busy_slot hy
  exact slotAt_apart fun he => hne (by rw [he])

/-- **Frame rule**: only busy bytes of the page, or bytes elsewhere, changed. -/
theorem frame (h : PageInv d m r p busy)
    (hm : ∀ x, r.start ≤ x → x < r.start + 65536 →
      (∀ b ∈ busy, ¬ (b ≤ x ∧ x < b + p.slotSize)) → m' x = m x) :
    PageInv d m' r p busy := by
  obtain ⟨k, loc, rem, hs⟩ := h.slots
  exact ⟨h.geom, ⟨k, loc, rem, hs.frame h.geom hm⟩, h.bits⟩

/-- Owner and list links are not part of the page's own invariant. -/
theorem relink (h : PageInv d m r p busy) (tid : Nat) (next prev : Option PageRef) :
    PageInv d m r { p with ownerTid := tid, next := next, prev := prev } busy := by
  obtain ⟨k, loc, rem, hs⟩ := h.slots
  obtain ⟨g₁, g₂, g₃, g₄, g₅, g₆, g₇, g₈, g₉, g₁₀, g₁₁, g₁₂, g₁₃⟩ := h.geom
  obtain ⟨s₁, s₂, s₃, s₄, s₅, s₆, s₇, s₈, s₉⟩ := hs
  exact ⟨⟨g₁, g₂, g₃, g₄, g₅, g₆, g₇, g₈, g₉, g₁₀, g₁₁, g₁₂, g₁₃⟩,
    ⟨k, loc, rem, s₁, s₂, s₃, s₄, s₅, s₆, s₇, s₈, s₉⟩, h.bits⟩

/-- `markAllocated` on a slot that just became busy. -/
theorem markAllocated {c : Cfg} {k : Nat} {loc rem : List Nat} {i : Nat} (g : Geom r p)
    (hs : Slots m r p k loc rem (slotAt r p i :: busy)) (hi : i < p.capacity)
    (hbits : c.debug = true → ∀ j, bitAt p.debugBitmap j = true ↔ slotAt r p j ∈ busy) :
    ∃ bm, CustomMalloc.markAllocated c p (slotAt r p i) = .ok { p with debugBitmap := bm } ∧
      PageInv c.debug m r { p with debugBitmap := bm } (slotAt r p i :: busy) := by
  have hnotin : slotAt r p i ∉ busy :=
    (List.nodup_cons.mp (List.nodup_append.mp (hs.parts_nodup g)).2.1).1
  obtain ⟨g₁, g₂, g₃, g₄, g₅, g₆, g₇, g₈, g₉, g₁₀, g₁₁, g₁₂, g₁₃⟩ := id g
  obtain ⟨s₁, s₂, s₃, s₄, s₅, s₆, s₇, s₈, s₉⟩ := id hs
  unfold CustomMalloc.markAllocated
  by_cases hd : c.debug = true
  · have hidx := debugSlotIndex_slotAt g hi
    have hcap := g.cap_le
    have hclear : ¬ p.bit i = true := fun hb => hnotin ((hbits hd i).mp hb)
    refine ⟨upd p.debugBitmap (i / 8) (p.debugBitmap (i / 8) ||| 2 ^ (i % 8)), ?_,
      ⟨g₁, g₂, g₃, g₄, g₅, g₆, g₇, g₈, g₉, g₁₀, g₁₁, g₁₂, g₁₃⟩,
      ⟨k, loc, rem, s₁, s₂, s₃, s₄, s₅, s₆, s₇, s₈, s₉⟩, fun _ j => ?_⟩
    · rw [if_pos hd]
      unfold debugMarkAllocated
      simp only [hidx]
      rw [if_neg (by omega), if_neg hclear]
    · simp only
      rw [bitAt_set, Bool.or_eq_true, hbits hd j, decide_eq_true_eq, List.mem_cons]
      constructor
      · rintro (h | rfl)
        · exact Or.inr h
        · exact Or.inl rfl
      · rintro (h | h)
        · exact Or.inr (g.slotAt_inj h)
        · exact Or.inl h
  · refine ⟨p.debugBitmap, if_neg hd, g,
      ⟨k, loc, rem, s₁, s₂, s₃, s₄, s₅, s₆, s₇, s₈, s₉⟩, fun h => absurd h hd⟩

/-- What `takeSlot` may rely on: metadata `p'` for handing out `x`. -/
structure Taken (c : Cfg) (m : Mem) (r : PageRef) (p p' : PageMeta) (busy : List Nat) (x : Nat) :
    Prop where
  shape : SameShape p p'
  owner : p'.ownerTid = p.ownerTid
  fresh : x ∉ busy
  inv : PageInv c.debug m r p' (x :: busy)

/-- Taking the head of the local free list. -/
theorem takeLocal {c : Cfg} (h : PageInv c.debug m r p busy) (hne : p.localFree ≠ 0) :
    ∃ p', CustomMalloc.markAllocated c (popLocalFree m p) p.localFree = .ok p' ∧
      Taken c m r p p' busy p.localFree ∧ p'.bumpOffset = p.bumpOffset ∧
      p'.remoteFree = p.remoteFree := by
  obtain ⟨k, loc, rem, hs⟩ := h.slots
  obtain ⟨loc', rfl, hs'⟩ := hs.pop h.geom hne
  have hshape := popLocalFree_shape m p
  have hmem : p.localFree ∈ slotList r p k := hs.mem_parts.mpr (Or.inl (List.mem_cons_self ..))
  obtain ⟨i, hi, hx⟩ := mem_slotList.mp hmem
  have hi' : i < p.capacity := Nat.lt_of_lt_of_le hi hs.carved_le
  have hx' : p.localFree = slotAt r (popLocalFree m p) i := hx
  rw [hx'] at hs' ⊢
  obtain ⟨bm, he, hinv⟩ := markAllocated (h.geom.congr hshape) hs' hi' h.bits
  refine ⟨_, he, ⟨⟨rfl, rfl, rfl, rfl, rfl, rfl, rfl, rfl, rfl, rfl⟩, rfl, ?_, hinv⟩, rfl, rfl⟩
  exact (List.nodup_cons.mp hinv.busy_nodup).1

/-- Taking the next virgin slot; its bytes are still zero. -/
theorem takeBump {c : Cfg} (h : PageInv c.debug m r p busy) (hlt : p.bumpOffset < p.bumpEnd) :
    ∃ p', CustomMalloc.markAllocated c (bumpSlot p) (pageStart p + p.bumpOffset) = .ok p' ∧
      Taken c m r p p' busy (pageStart p + p.bumpOffset) ∧
      (∀ y, pageStart p + p.bumpOffset ≤ y → y < pageStart p + p.bumpOffset + p.slotSize →
        m y = 0) ∧
      p'.localFree = p.localFree ∧ p'.remoteFree = p.remoteFree := by
  obtain ⟨k, loc, rem, hs⟩ := h.slots
  obtain ⟨hx, hs'⟩ := hs.bump h.geom hlt
  have hk := (hs.bump_lt_iff h.geom).mp hlt
  rw [h.geom.pageStart_eq, hx]
  have hx' : slotAt r p k = slotAt r (bumpSlot p) k := rfl
  rw [hx'] at hs' ⊢
  obtain ⟨bm, he, hinv⟩ := markAllocated (h.geom.congr (bumpSlot_shape p)) hs' hk h.bits
  refine ⟨_, he, ⟨⟨rfl, rfl, rfl, rfl, rfl, rfl, rfl, rfl, rfl, rfl⟩, rfl, ?_, hinv⟩, ?_, rfl, rfl⟩
  · exact (List.nodup_cons.mp hinv.busy_nodup).1
  · intro y h₁ h₂
    have := (h.geom.slot_in hk).2
    rw [← hx', ← hx] at h₁ h₂
    rw [← hx] at this
    exact hs.virgin y h₁ (by omega)

/-- Collecting the remote frees keeps every busy slot and its bytes. -/
theorem collect (h : PageInv d m r p busy) :
    ∃ m' p', pageCollectRemote m p = .ok (m', p') ∧ SameShape p p' ∧
      p'.ownerTid = p.ownerTid ∧ PageInv d m' r p' busy ∧ PageFrame m m' r p.slotSize busy ∧
      p'.bumpOffset = p.bumpOffset ∧ taggedPtr p'.remoteFree = 0 := by
  obtain ⟨k, loc, rem, hs⟩ := h.slots
  obtain ⟨m', p', he, hshape, hown, hbm, hs', hm⟩ := hs.collect h.geom
  refine ⟨m', p', he, hshape, hown, ⟨h.geom.congr hshape, ⟨k, _, _, hs'⟩, fun hd i => ?_⟩, ?_, ?_,
    ptr_eq_none.mp hs'.remote_linked⟩
  · rw [hbm, slotAt_congr hshape]
    exact h.bits hd i
  · intro y hy
    obtain ⟨t, ht, h₁, h₂⟩ := hm y hy
    have htl : t ∈ slotList r p k := hs.mem_parts.mpr (Or.inr (Or.inl ht))
    have hge := h.geom.slot_ge
    obtain ⟨b₁, -, b₂, -⟩ := hs.slot_bounds h.geom htl
    refine ⟨by omega, by omega, fun b hb hc => ?_⟩
    have hne : t ≠ b := (List.nodup_append.mp (hs.parts_nodup h.geom)).2.2 t
      (List.mem_append_right _ ht) b hb
    rcases slotList_apart htl (hs.mem_parts.mpr (Or.inr (Or.inr hb))) hne with ha | ha <;> omega
  · rw [hs'.bump_eq, hs.bump_eq, hshape.slotSize]

/-- A link written into the busy slot `x` touches no other busy slot. -/
theorem frame_writeWord (h : PageInv d m r p busy) (hx : x ∈ busy) (v : Nat) :
    PageFrame m (writeWord m x v) r p.slotSize (busy.erase x) := by
  intro y hy
  have hin := h.busy_in hx
  have hge := h.geom.slot_ge
  have hxy : x ≤ y ∧ y < x + 8 := by
    by_contra hc
    exact hy (writeWord_out (by omega))
  refine ⟨by omega, by omega, fun b hb hc => ?_⟩
  have hb' := (h.busy_nodup.mem_erase_iff).mp hb
  rcases h.busy_apart hb'.2 hx hb'.1 with ha | ha <;> omega

/-- What `slab_free` may rely on once the bitmap has accepted the slot `x`:
`p'` is the metadata it pushes onto, and either push leaves a well-formed page. -/
structure Released (c : Cfg) (m : Mem) (r : PageRef) (p p' : PageMeta) (busy : List Nat) (x : Nat) :
    Prop where
  shape : SameShape p p'
  owner : p'.ownerTid = p.ownerTid
  bump : p'.bumpOffset = p.bumpOffset
  local_inv : PageInv c.debug (pageFreeSlotLocal m p' x).1 r (pageFreeSlotLocal m p' x).2
    (busy.erase x)
  local_frame : PageFrame m (pageFreeSlotLocal m p' x).1 r p.slotSize (busy.erase x)
  remote_inv : r.start + 65536 ≤ 2 ^ 48 →
    PageInv c.debug (pageFreeSlotRemote m p' x).1 r (pageFreeSlotRemote m p' x).2 (busy.erase x)
  remote_frame : PageFrame m (pageFreeSlotRemote m p' x).1 r p.slotSize (busy.erase x)

/-- The bitmap accepts a busy slot: it is not a double free. -/
theorem markFreed {c : Cfg} (h : PageInv c.debug m r p busy) (hx : x ∈ busy) :
    ∃ bm, CustomMalloc.markFreed c p x = .ok { p with debugBitmap := bm } ∧
      (c.debug = true → ∀ i, bitAt bm i = true ↔ slotAt r p i ∈ busy.erase x) := by
  unfold CustomMalloc.markFreed
  by_cases hd : c.debug = true
  · obtain ⟨i, hi, rfl⟩ := h.busy_slot hx
    have hidx := debugSlotIndex_slotAt h.geom hi
    have hcap := h.geom.cap_le
    have hset : p.bit i = true := (h.bits hd i).mpr hx
    refine ⟨upd p.debugBitmap (i / 8) (p.debugBitmap (i / 8) &&& (255 - 2 ^ (i % 8))), ?_,
      fun _ j => ?_⟩
    · rw [if_pos hd]
      unfold debugCheckAndMarkFreed
      simp only [hidx]
      rw [if_neg (by omega), if_pos hset]
    · rw [bitAt_clear, Bool.and_eq_true, h.bits hd j, h.busy_nodup.mem_erase_iff]
      simp only [Bool.not_eq_eq_eq_not, Bool.not_true, decide_eq_false_iff_not]
      constructor
      · rintro ⟨h₁, h₂⟩
        exact ⟨fun he => h₂ (h.geom.slotAt_inj he), h₁⟩
      · rintro ⟨h₁, h₂⟩
        exact ⟨h₂, fun he => h₁ (by rw [he])⟩
  · exact ⟨p.debugBitmap, if_neg hd, fun h' => absurd h' hd⟩

/-- Freeing the busy slot `x`. -/
theorem release {c : Cfg} (h : PageInv c.debug m r p busy) (hx : x ∈ busy) :
    ∃ p', CustomMalloc.markFreed c p x = .ok p' ∧ Released c m r p p' busy x := by
  obtain ⟨bm, he, hbits⟩ := h.markFreed hx
  obtain ⟨k, loc, rem, hs⟩ := h.slots
  have hshape : SameShape p { p with debugBitmap := bm } :=
    ⟨rfl, rfl, rfl, rfl, rfl, rfl, rfl, rfl, rfl, rfl⟩
  have hg := h.geom.congr hshape
  have hs' : Slots m r { p with debugBitmap := bm } k loc rem (x :: busy.erase x) :=
    (hs.perm (List.perm_cons_erase hx)).congr hshape rfl rfl rfl rfl rfl rfl
  refine ⟨_, he, hshape, rfl, rfl, ⟨?_, ⟨k, _, _, hs'.freeLocal hg⟩, ?_⟩, h.frame_writeWord hx _,
    fun hlow => ⟨?_, ⟨k, _, _, hs'.freeRemote hg hlow⟩, ?_⟩, h.frame_writeWord hx _⟩
  · exact hg.congr (pageFreeSlotLocal_shape m _ x)
  · intro hd i
    rw [slotAt_congr (pageFreeSlotLocal_shape m _ x)]
    exact hbits hd i
  · exact hg.congr (pageFreeSlotRemote_shape m _ x)
  · intro hd i
    rw [slotAt_congr (pageFreeSlotRemote_shape m _ x)]
    exact hbits hd i

/-- A page `page_init` has just set up on zero bytes has no busy slot. -/
theorem init {old : PageMeta} {a bin : Nat} (hbin : bin < binCount)
    (hsize : binToSize sizeTables bin ≤ 32768) (hpos : 0 < r.start)
    (hlt : r.start + 65536 ≤ 2 ^ 64) (hal : 65536 ∣ r.start)
    (hz : ∀ y, r.start ≤ y → y < r.start + 65536 → m y = 0) :
    PageInv d m r (pageInit old r.seg a r.idx bin (binToSize sizeTables bin)) [] := by
  have hsz : (if binToSize sizeTables bin < minAlign then minAlign else binToSize sizeTables bin) =
      max 16 (binToSize sizeTables bin) := by
    unfold minAlign
    split <;> omega
  have hslot : (pageInit old r.seg a r.idx bin (binToSize sizeTables bin)).slotSize =
      slotSizeOf bin := by
    unfold pageInit slotSizeOf alignUp
    simp only [hsz]
    rfl
  generalize hp : pageInit old r.seg a r.idx bin (binToSize sizeTables bin) = p at hslot
  obtain ⟨hge, hle, hdvd⟩ := slotSizeOf_bounds hsize
  have hcap : p.capacity = 65536 / p.slotSize := by
    have hlt : 65536 / p.slotSize < 2 ^ 16 := by
      rw [Nat.div_lt_iff_lt_mul (by omega)]
      omega
    rw [← Nat.mod_eq_of_lt hlt, ← hp]
    rfl
  have hg : Geom r p := by
    refine ⟨hp ▸ rfl, hp ▸ rfl, hp ▸ rfl, ?_, ?_, by omega, by omega, hslot ▸ hdvd, hcap, hp ▸ rfl,
      hpos, hlt, hal⟩
    · rw [← hp]
      exact hbin
    · rw [hslot, ← hp]
      rfl
  refine ⟨hg, ⟨0, [], [], ?_, Nat.zero_le _, hp ▸ rfl, hp ▸ rfl, List.Perm.refl _, hp ▸ rfl,
    hp ▸ rfl, hp ▸ rfl, fun y h₁ h₂ => hz y (by omega) h₂⟩, fun _ i => ?_⟩
  · rw [Nat.zero_mul, ← hp]
    rfl
  · rw [← hp]
    simp [bitAt, pageInit]

end PageInv

end CustomMalloc

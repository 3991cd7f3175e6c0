import CustomMalloc.Page
import Mathlib.Data.List.Nodup

/-!
# The slots of a page

A page's 64 KB are cut into `capacity` slots of `slot_size` bytes. `Geom` is the
fixed part: how the metadata describes that division. `Slots` is the moving
part: the first `k` slots have been handed out at least once, and each of them
is on the local free list, on the remote stack or busy; the bytes from the bump
offset on have never been written. The two lists live in the first words of the
very slots they list, so the invariant is stated about memory and metadata
together.

The frame rule (`Slots.frame`) is that a write inside a busy slot, or outside
the page, cannot disturb any of this. Each page operation gets one lemma that
says which slot moves where.
-/

namespace CustomMalloc

open Lib.Words Lib.Bytes Lib.Chain

/-- Address of the page's data. -/
def PageRef.start (r : PageRef) : Nat := r.seg + r.idx * 65536

/-- A C pointer: `0` is null. -/
def ptr (a : Nat) : Option Nat := if a = 0 then none else some a

/-- The link stored in a free slot. -/
def link (m : Mem) (x : Nat) : Option Nat := ptr (readWord m x)

/-- Slot size of a bin after `page_init` widened it. -/
def slotSizeOf (bin : Nat) : Nat := alignUp 16 (max 16 (binToSize sizeTables bin))

theorem slotSizeOf_bounds {bin : Nat} (h : binToSize sizeTables bin ≤ 32768) :
    16 ≤ slotSizeOf bin ∧ slotSizeOf bin ≤ 32768 ∧ 16 ∣ slotSizeOf bin := by
  unfold slotSizeOf
  have h₁ := le_alignUp (show 0 < 16 by decide) (max 16 (binToSize sizeTables bin))
  exact ⟨by omega, alignUp_le (by decide) (by omega) (by decide), dvd_alignUp _ _⟩

@[simp] theorem ptr_eq_none {a : Nat} : ptr a = none ↔ a = 0 := by
  unfold ptr
  split <;> simp [*]

@[simp] theorem ptr_eq_some {a x : Nat} : ptr a = some x ↔ a = x ∧ x ≠ 0 := by
  unfold ptr
  split
  next h => simp only [reduceCtorEq, false_iff, not_and, ne_eq, not_not]; omega
  next h =>
    rw [Option.some.injEq]
    exact ⟨fun he => ⟨he, he ▸ h⟩, fun he => he.1⟩

/-! ## Geometry -/

/-- How the metadata of an active page describes its slots. -/
structure Geom (r : PageRef) (p : PageMeta) : Prop where
  active : p.state = .active
  segment : p.segment = r.seg
  pageIndex : p.pageIndex = r.idx
  bin_lt : p.binIdx < binCount
  slot_eq : p.slotSize = slotSizeOf p.binIdx
  slot_ge : 16 ≤ p.slotSize
  slot_le : p.slotSize ≤ 32768
  slot_al : 16 ∣ p.slotSize
  cap_eq : p.capacity = 65536 / p.slotSize
  end_eq : p.bumpEnd = p.capacity * p.slotSize
  start_pos : 0 < r.start
  start_lt : r.start + 65536 ≤ 2 ^ 64
  start_al : 65536 ∣ r.start

/-- Address of slot `i`. -/
def slotAt (r : PageRef) (p : PageMeta) (i : Nat) : Nat := r.start + i * p.slotSize

/-- The first `k` slots. -/
def slotList (r : PageRef) (p : PageMeta) (k : Nat) : List Nat := (List.range k).map (slotAt r p)

variable {r : PageRef} {p p' : PageMeta} {m m' : Mem}

theorem mem_slotList {k x : Nat} : x ∈ slotList r p k ↔ ∃ i, i < k ∧ x = slotAt r p i := by
  unfold slotList
  simp only [List.mem_map, List.mem_range]
  constructor
  · rintro ⟨i, hi, rfl⟩
    exact ⟨i, hi, rfl⟩
  · rintro ⟨i, hi, rfl⟩
    exact ⟨i, hi, rfl⟩

/-- Different slots do not overlap. -/
theorem slotAt_apart {i j : Nat} (h : i ≠ j) :
    slotAt r p i + p.slotSize ≤ slotAt r p j ∨ slotAt r p j + p.slotSize ≤ slotAt r p i := by
  unfold slotAt
  rcases Nat.lt_or_gt_of_ne h with h | h
  · have := Nat.mul_le_mul_right p.slotSize h
    rw [Nat.succ_mul] at this
    omega
  · have := Nat.mul_le_mul_right p.slotSize h
    rw [Nat.succ_mul] at this
    omega

/-- Two listed slots are equal or disjoint. -/
theorem slotList_apart {k x y : Nat} (hx : x ∈ slotList r p k) (hy : y ∈ slotList r p k)
    (hne : x ≠ y) : x + p.slotSize ≤ y ∨ y + p.slotSize ≤ x := by
  obtain ⟨i, hi, rfl⟩ := mem_slotList.mp hx
  obtain ⟨j, hj, rfl⟩ := mem_slotList.mp hy
  exact slotAt_apart fun he => hne (by rw [he])

namespace Geom

theorem pageStart_eq (g : Geom r p) : pageStart p = r.start := by
  unfold pageStart PageRef.start
  rw [g.segment, g.pageIndex]
  rfl

theorem cap_mul_le (g : Geom r p) : p.capacity * p.slotSize ≤ 65536 := by
  rw [g.cap_eq]
  exact Nat.div_mul_le_self _ _

theorem cap_le (g : Geom r p) : p.capacity ≤ 4096 := by
  rw [g.cap_eq]
  exact Nat.div_le_of_le_mul (by have := g.slot_ge; omega)

theorem cap_pos (g : Geom r p) : 2 ≤ p.capacity := by
  rw [g.cap_eq, Nat.le_div_iff_mul_le (by have := g.slot_ge; omega)]
  have := g.slot_le
  omega

/-- Every slot lies inside the page. -/
theorem slot_in (g : Geom r p) {i : Nat} (hi : i < p.capacity) :
    r.start ≤ slotAt r p i ∧ slotAt r p i + p.slotSize ≤ r.start + 65536 := by
  have h₁ := Nat.mul_le_mul_right p.slotSize hi
  have h₂ := g.cap_mul_le
  rw [Nat.succ_mul] at h₁
  unfold slotAt
  omega

theorem slot_dvd (g : Geom r p) (i : Nat) : 16 ∣ slotAt r p i :=
  Nat.dvd_add (Nat.dvd_trans (by decide) g.start_al)
    (Nat.dvd_trans g.slot_al (Nat.dvd_mul_left _ _))

theorem slotAt_inj (g : Geom r p) {i j : Nat} (h : slotAt r p i = slotAt r p j) : i = j := by
  by_contra hne
  have := g.slot_ge
  rcases slotAt_apart (r := r) (p := p) hne with h' | h' <;> omega

theorem slotList_nodup (g : Geom r p) (k : Nat) : (slotList r p k).Nodup :=
  List.Nodup.map (fun _ _ h => g.slotAt_inj h) List.nodup_range

end Geom

/-! ## The slots -/

/-- The first `k` slots of the page are `loc` (local free list), `rem` (remote
stack) and `busy`; the rest is virgin. -/
structure Slots (m : Mem) (r : PageRef) (p : PageMeta) (k : Nat) (loc rem busy : List Nat) :
    Prop where
  bump_eq : p.bumpOffset = k * p.slotSize
  carved_le : k ≤ p.capacity
  local_linked : Linked (link m) (ptr p.localFree) loc
  remote_linked : Linked (link m) (ptr (taggedPtr p.remoteFree)) rem
  parts : (loc ++ rem ++ busy).Perm (slotList r p k)
  local_count : p.localFreeCount = loc.length
  remote_count : p.remoteFreeCount = rem.length
  used_eq : p.used = busy.length
  virgin : ∀ x, r.start + p.bumpOffset ≤ x → x < r.start + 65536 → m x = 0

/-- The fields `Geom` and the arena lists look at. -/
structure SameShape (p p' : PageMeta) : Prop where
  arena : p'.arena = p.arena
  segment : p'.segment = p.segment
  pageIndex : p'.pageIndex = p.pageIndex
  binIdx : p'.binIdx = p.binIdx
  state : p'.state = p.state
  slotSize : p'.slotSize = p.slotSize
  capacity : p'.capacity = p.capacity
  bumpEnd : p'.bumpEnd = p.bumpEnd
  next : p'.next = p.next
  prev : p'.prev = p.prev

theorem SameShape.refl (p : PageMeta) : SameShape p p :=
  ⟨rfl, rfl, rfl, rfl, rfl, rfl, rfl, rfl, rfl, rfl⟩

theorem SameShape.trans {p₁ p₂ p₃ : PageMeta} (h : SameShape p₁ p₂) (h' : SameShape p₂ p₃) :
    SameShape p₁ p₃ :=
  ⟨h'.arena.trans h.arena, h'.segment.trans h.segment, h'.pageIndex.trans h.pageIndex,
    h'.binIdx.trans h.binIdx, h'.state.trans h.state, h'.slotSize.trans h.slotSize,
    h'.capacity.trans h.capacity, h'.bumpEnd.trans h.bumpEnd, h'.next.trans h.next,
    h'.prev.trans h.prev⟩

theorem Geom.congr (g : Geom r p) (h : SameShape p p') : Geom r p' :=
  ⟨h.state.trans g.active, h.segment.trans g.segment, h.pageIndex.trans g.pageIndex,
    h.binIdx ▸ g.bin_lt, by rw [h.slotSize, h.binIdx]; exact g.slot_eq, h.slotSize ▸ g.slot_ge,
    h.slotSize ▸ g.slot_le, h.slotSize ▸ g.slot_al, by rw [h.capacity, h.slotSize]; exact g.cap_eq,
    by rw [h.bumpEnd, h.capacity, h.slotSize]; exact g.end_eq, g.start_pos, g.start_lt, g.start_al⟩

theorem slotAt_congr (h : SameShape p p') (i : Nat) : slotAt r p' i = slotAt r p i := by
  unfold slotAt
  rw [h.slotSize]

theorem slotList_congr (h : SameShape p p') (k : Nat) : slotList r p' k = slotList r p k := by
  unfold slotList
  exact List.map_congr_left fun i _ => slotAt_congr h i

theorem pageFreeSlotLocal_shape (m : Mem) (p : PageMeta) (x : Nat) :
    SameShape p (pageFreeSlotLocal m p x).2 := by
  unfold pageFreeSlotLocal
  constructor <;> rfl

theorem pageFreeSlotRemote_shape (m : Mem) (p : PageMeta) (x : Nat) :
    SameShape p (pageFreeSlotRemote m p x).2 := by
  unfold pageFreeSlotRemote
  constructor <;> rfl

theorem pageFreeSlot_owner (m : Mem) (p : PageMeta) (x : Nat) :
    (pageFreeSlotLocal m p x).2.ownerTid = p.ownerTid ∧
      (pageFreeSlotRemote m p x).2.ownerTid = p.ownerTid := by
  unfold pageFreeSlotLocal pageFreeSlotRemote
  exact ⟨rfl, rfl⟩

theorem popLocalFree_shape (m : Mem) (p : PageMeta) : SameShape p (popLocalFree m p) :=
  ⟨rfl, rfl, rfl, rfl, rfl, rfl, rfl, rfl, rfl, rfl⟩

theorem bumpSlot_shape (p : PageMeta) : SameShape p (bumpSlot p) :=
  ⟨rfl, rfl, rfl, rfl, rfl, rfl, rfl, rfl, rfl, rfl⟩

namespace Slots

variable {k x : Nat} {loc rem busy : List Nat}

theorem mem_parts (h : Slots m r p k loc rem busy) :
    x ∈ slotList r p k ↔ x ∈ loc ∨ x ∈ rem ∨ x ∈ busy := by
  rw [← h.parts.mem_iff, List.mem_append, List.mem_append, or_assoc]

theorem parts_nodup (g : Geom r p) (h : Slots m r p k loc rem busy) :
    (loc ++ rem ++ busy).Nodup :=
  (h.parts.nodup_iff).mpr (g.slotList_nodup k)

/-- A listed slot is one of the carved ones, hence inside the page and below the
virgin bytes. -/
theorem slot_bounds (g : Geom r p) (h : Slots m r p k loc rem busy) (hx : x ∈ slotList r p k) :
    r.start ≤ x ∧ x + p.slotSize ≤ r.start + p.bumpOffset ∧ x + p.slotSize ≤ r.start + 65536 ∧
      16 ∣ x ∧ ∃ i, i < k ∧ x = slotAt r p i := by
  obtain ⟨i, hi, rfl⟩ := mem_slotList.mp hx
  have h₁ := g.slot_in (Nat.lt_of_lt_of_le hi h.carved_le)
  have h₂ := Nat.mul_le_mul_right p.slotSize hi
  rw [Nat.succ_mul] at h₂
  refine ⟨h₁.1, ?_, h₁.2, g.slot_dvd i, i, hi, rfl⟩
  rw [h.bump_eq]
  unfold slotAt
  omega

/-- The counts add up to at most `capacity`, so 16 bits never wrap. -/
theorem length_le (g : Geom r p) (h : Slots m r p k loc rem busy) :
    loc.length + rem.length + busy.length = k ∧ k ≤ 4096 := by
  have hlen := h.parts.length_eq
  unfold slotList at hlen
  simp only [List.length_append, List.length_map, List.length_range] at hlen
  exact ⟨hlen, Nat.le_trans h.carved_le g.cap_le⟩

/-- **Frame rule**: memory that agrees on the page outside the busy slots. -/
theorem frame (g : Geom r p) (h : Slots m r p k loc rem busy)
    (hm : ∀ x, r.start ≤ x → x < r.start + 65536 →
      (∀ b ∈ busy, ¬ (b ≤ x ∧ x < b + p.slotSize)) → m' x = m x) :
    Slots m' r p k loc rem busy := by
  have hnd := h.parts_nodup g
  -- a free slot meets no busy slot
  have hfree : ∀ y ∈ loc ++ rem, ∀ x, y ≤ x → x < y + 8 → m' x = m x := by
    intro y hy x h₁ h₂
    have hyl : y ∈ slotList r p k := h.parts.subset (List.mem_append_left _ hy)
    obtain ⟨hlo, -, hhi, -⟩ := h.slot_bounds g hyl
    have hs := g.slot_ge
    refine hm x (by omega) (by omega) fun b hb hc => ?_
    have hbl : b ∈ slotList r p k := h.parts.subset (List.mem_append_right _ hb)
    have hne : y ≠ b := by
      intro he
      exact (List.nodup_append.mp hnd).2.2 y hy b hb he
    rcases slotList_apart hyl hbl hne with ha | ha <;> omega
  have hlink : ∀ y ∈ loc ++ rem, link m' y = link m y := by
    intro y hy
    unfold link
    rw [readWord_congr (hfree y hy)]
  refine ⟨h.bump_eq, h.carved_le,
    h.local_linked.congr fun y hy => hlink y (List.mem_append_left _ hy),
    h.remote_linked.congr fun y hy => hlink y (List.mem_append_right _ hy),
    h.parts, h.local_count, h.remote_count, h.used_eq, ?_⟩
  intro x h₁ h₂
  rw [hm x (by omega) h₂ fun b hb hc => ?_]
  · exact h.virgin x h₁ h₂
  · have := (h.slot_bounds g (h.parts.subset (List.mem_append_right _ hb))).2.1
    omega

/-- The busy list counts only up to order. -/
theorem perm (h : Slots m r p k loc rem busy) {busy' : List Nat} (hp : busy.Perm busy') :
    Slots m r p k loc rem busy' :=
  ⟨h.bump_eq, h.carved_le, h.local_linked, h.remote_linked,
    (List.Perm.append_left _ hp.symm).trans h.parts, h.local_count, h.remote_count,
    h.used_eq.trans hp.length_eq, h.virgin⟩

/-- Metadata that agrees on everything the invariant reads. -/
theorem congr (h : Slots m r p k loc rem busy) (hs : SameShape p p')
    (hb : p'.bumpOffset = p.bumpOffset) (hl : p'.localFree = p.localFree)
    (hlc : p'.localFreeCount = p.localFreeCount) (hr : p'.remoteFree = p.remoteFree)
    (hrc : p'.remoteFreeCount = p.remoteFreeCount) (hu : p'.used = p.used) :
    Slots m r p' k loc rem busy :=
  ⟨by rw [hb, hs.slotSize]; exact h.bump_eq, hs.capacity ▸ h.carved_le, hl ▸ h.local_linked,
    hr ▸ h.remote_linked, by rw [slotList_congr hs]; exact h.parts, hlc ▸ h.local_count,
    hrc ▸ h.remote_count, hu ▸ h.used_eq, by rw [hb]; exact h.virgin⟩

/-! ### The operations -/

/-- Popping the local list: its head becomes busy. -/
theorem pop (g : Geom r p) (h : Slots m r p k loc rem busy) (hne : p.localFree ≠ 0) :
    ∃ loc', loc = p.localFree :: loc' ∧
      Slots m r (popLocalFree m p) k loc' rem (p.localFree :: busy) := by
  obtain ⟨hlen, hk⟩ := h.length_le g
  cases loc with
  | nil => exact absurd (ptr_eq_none.mp h.local_linked) hne
  | cons y loc' =>
    obtain ⟨hy, hrest⟩ := h.local_linked
    obtain ⟨rfl, -⟩ := ptr_eq_some.mp hy
    refine ⟨loc', rfl, h.bump_eq, h.carved_le, hrest, h.remote_linked, ?_, ?_, h.remote_count, ?_,
      h.virgin⟩
    · have hp : (loc' ++ rem ++ p.localFree :: busy).Perm (p.localFree :: loc' ++ rem ++ busy) :=
        List.perm_middle
      exact hp.trans h.parts
    · have := h.local_count
      simp only [List.length_cons] at this hlen
      show sub16 p.localFreeCount 1 = _
      rw [sub16_of_le (by omega)]
      omega
    · have := h.used_eq
      simp only [List.length_cons] at hlen ⊢
      show (p.used + 1) % 2 ^ 16 = _
      omega

/-- There is bump space exactly while a slot is uncarved. -/
theorem bump_lt_iff (g : Geom r p) (h : Slots m r p k loc rem busy) :
    p.bumpOffset < p.bumpEnd ↔ k < p.capacity := by
  rw [h.bump_eq, g.end_eq]
  exact Nat.mul_lt_mul_right (by have := g.slot_ge; omega)

/-- Bumping: slot `k` becomes busy. -/
theorem bump (g : Geom r p) (h : Slots m r p k loc rem busy) (hlt : p.bumpOffset < p.bumpEnd) :
    r.start + p.bumpOffset = slotAt r p k ∧
      Slots m r (bumpSlot p) (k + 1) loc rem (slotAt r p k :: busy) := by
  obtain ⟨hlen, hk⟩ := h.length_le g
  have hcap := (h.bump_lt_iff g).mp hlt
  have hin := g.slot_in hcap
  have hoff : p.bumpOffset + p.slotSize < 2 ^ 32 := by
    have := g.start_pos
    rw [h.bump_eq]
    unfold slotAt at hin
    omega
  have hb : (bumpSlot p).bumpOffset = p.bumpOffset + p.slotSize := Nat.mod_eq_of_lt hoff
  refine ⟨by rw [h.bump_eq]; rfl, ?_, hcap, h.local_linked, h.remote_linked, ?_, h.local_count,
    h.remote_count, ?_, ?_⟩
  · rw [hb, h.bump_eq, Nat.succ_mul]
    rfl
  · have hl : slotList r (bumpSlot p) (k + 1) = slotList r p k ++ [slotAt r p k] := by
      unfold slotList
      rw [List.range_succ, List.map_append]
      rfl
    rw [hl]
    have hp : (loc ++ rem ++ slotAt r p k :: busy).Perm (slotAt r p k :: (loc ++ rem ++ busy)) :=
      List.perm_middle
    exact (hp.trans (h.parts.cons _)).trans (List.perm_append_singleton _ _).symm
  · have := h.used_eq
    simp only [List.length_cons]
    show (p.used + 1) % 2 ^ 16 = _
    omega
  · intro x h₁ h₂
    rw [hb] at h₁
    exact h.virgin x (by omega) h₂

/-- Every listed slot is a proper address. -/
theorem slot_ptr (g : Geom r p) (h : Slots m r p k loc rem busy) (hx : x ∈ slotList r p k) :
    x ≠ 0 ∧ x < 2 ^ 64 := by
  obtain ⟨h₁, -, h₃, -⟩ := h.slot_bounds g hx
  have := g.start_pos
  have := g.start_lt
  have := g.slot_ge
  omega

/-- A link written into one listed slot leaves the links of the others. -/
theorem link_writeWord_ne {v y : Nat} (g : Geom r p) (hx : x ∈ slotList r p k)
    (hy : y ∈ slotList r p k) (hne : y ≠ x) : link (writeWord m x v) y = link m y := by
  have := g.slot_ge
  unfold link
  rw [readWord_writeWord_ne]
  rcases slotList_apart hx hy (Ne.symm hne) with h' | h' <;> omega

theorem virgin_writeWord {v y : Nat} (g : Geom r p) (h : Slots m r p k loc rem busy)
    (hx : x ∈ slotList r p k) (h₁ : r.start + p.bumpOffset ≤ y) :
    writeWord m x v y = m y := by
  have := (h.slot_bounds g hx).2.1
  have := g.slot_ge
  exact writeWord_out (by omega)

theorem link_writeWord_same {v : Nat} (hv : v < 2 ^ 64) : link (writeWord m x v) x = ptr v := by
  unfold link
  rw [readWord_writeWord hv]

/-- The head of a list, as a number. -/
theorem head_lt (g : Geom r p) (h : Slots m r p k loc rem busy) : p.localFree < 2 ^ 64 := by
  cases loc with
  | nil =>
    have := ptr_eq_none.mp h.local_linked
    omega
  | cons y loc' =>
    obtain ⟨hy, -⟩ := ptr_eq_some.mp h.local_linked.1
    have := (h.slot_ptr g ((h.mem_parts).mpr (Or.inl (List.mem_cons_self ..)))).2
    omega

/-- Freeing a busy slot on its own thread: it moves to the front of the local list. -/
theorem freeLocal (g : Geom r p) (h : Slots m r p k loc rem (x :: busy)) :
    Slots (pageFreeSlotLocal m p x).1 r (pageFreeSlotLocal m p x).2 k (x :: loc) rem busy := by
  obtain ⟨hlen, hk⟩ := h.length_le g
  have hnd := h.parts_nodup g
  have hx : x ∈ slotList r p k := h.mem_parts.mpr (Or.inr (Or.inr (List.mem_cons_self ..)))
  have hothers : ∀ y ∈ loc ++ rem, link (writeWord m x p.localFree) y = link m y := by
    intro y hy
    refine link_writeWord_ne g hx (h.parts.subset (List.mem_append_left _ hy)) ?_
    exact (List.nodup_append.mp hnd).2.2 y hy x (List.mem_cons_self ..)
  have hs := pageFreeSlotLocal_shape m p x
  simp only [pageFreeSlotLocal] at hs ⊢
  refine ⟨h.bump_eq, h.carved_le, ?_, ?_, ?_, ?_, h.remote_count, ?_, ?_⟩
  · have hpx : ptr x = some x := ptr_eq_some.mpr ⟨rfl, (h.slot_ptr g hx).1⟩
    show Linked _ (ptr x) _
    rw [hpx]
    exact h.local_linked.push (link_writeWord_same (h.head_lt g))
      fun y hy => hothers y (List.mem_append_left _ hy)
  · exact h.remote_linked.congr fun y hy => hothers y (List.mem_append_right _ hy)
  · have hp : (x :: loc ++ rem ++ busy).Perm (loc ++ rem ++ x :: busy) := List.perm_middle.symm
    rw [slotList_congr hs]
    exact hp.trans h.parts
  · have := h.local_count
    simp only [List.length_cons] at hlen ⊢
    show (p.localFreeCount + 1) % 2 ^ 16 = _
    omega
  · have := h.used_eq
    simp only [List.length_cons] at this hlen
    show sub16 p.used 1 = _
    rw [sub16_of_le (by omega)]
    omega
  · intro y h₁ h₂
    show writeWord m x p.localFree y = 0
    rw [virgin_writeWord g h hx h₁]
    exact h.virgin y h₁ h₂

theorem taggedPtr_make {ptr tag : Nat} (h : ptr < 2 ^ 48) :
    taggedPtr (taggedMake ptr tag) = ptr := by
  unfold taggedPtr taggedMake
  omega

/-- Freeing a busy slot from another thread: it moves to the top of the remote
stack. The tag takes the upper 16 bits, so the page has to lie below `2 ^ 48`. -/
theorem freeRemote (g : Geom r p) (hlow : r.start + 65536 ≤ 2 ^ 48)
    (h : Slots m r p k loc rem (x :: busy)) :
    Slots (pageFreeSlotRemote m p x).1 r (pageFreeSlotRemote m p x).2 k loc (x :: rem) busy := by
  obtain ⟨hlen, hk⟩ := h.length_le g
  have hnd := h.parts_nodup g
  have hx : x ∈ slotList r p k := h.mem_parts.mpr (Or.inr (Or.inr (List.mem_cons_self ..)))
  have hothers : ∀ y ∈ loc ++ rem, link (writeWord m x (taggedPtr p.remoteFree)) y = link m y := by
    intro y hy
    refine link_writeWord_ne g hx (h.parts.subset (List.mem_append_left _ hy)) ?_
    exact (List.nodup_append.mp hnd).2.2 y hy x (List.mem_cons_self ..)
  have hhead : taggedPtr p.remoteFree < 2 ^ 64 := by
    unfold taggedPtr
    omega
  have hs := pageFreeSlotRemote_shape m p x
  simp only [pageFreeSlotRemote, treiberPush] at hs ⊢
  refine ⟨h.bump_eq, h.carved_le, ?_, ?_, ?_, h.local_count, ?_, ?_, ?_⟩
  · exact h.local_linked.congr fun y hy => hothers y (List.mem_append_left _ hy)
  · have hx0 := (h.slot_ptr g hx).1
    have hx48 : x < 2 ^ 48 := by
      have := (h.slot_bounds g hx).2.2.1
      have := g.slot_ge
      omega
    show Linked _ (ptr (taggedPtr (taggedMake x (taggedTag p.remoteFree + 1)))) _
    rw [taggedPtr_make hx48, ptr_eq_some.mpr ⟨rfl, hx0⟩]
    exact h.remote_linked.push (link_writeWord_same hhead)
      fun y hy => hothers y (List.mem_append_right _ hy)
  · have hp : (loc ++ x :: rem ++ busy).Perm (loc ++ rem ++ x :: busy) := by
      have h₁ : (loc ++ x :: rem ++ busy).Perm (x :: (loc ++ rem ++ busy)) := by
        rw [List.append_assoc, List.cons_append, List.append_assoc]
        exact List.perm_middle
      exact h₁.trans List.perm_middle.symm
    rw [slotList_congr hs]
    exact hp.trans h.parts
  · have := h.remote_count
    simp only [List.length_cons] at hlen ⊢
    show (p.remoteFreeCount + 1) % 2 ^ 16 = _
    omega
  · have := h.used_eq
    simp only [List.length_cons] at this hlen
    show sub16 p.used 1 = _
    rw [sub16_of_le (by omega)]
    omega
  · intro y h₁ h₂
    show writeWord m x (taggedPtr p.remoteFree) y = 0
    rw [virgin_writeWord g h hx h₁]
    exact h.virgin y h₁ h₂

/-- The walk of `page_collect_remote` reaches the last slot and counts them all. -/
theorem walkTail_linked {m : Mem} {l : List Nat} {cur : Nat} (fuel count : Nat)
    (h : Linked (link m) (link m cur) l) (hf : l.length < fuel)
    (hc : count + l.length + 1 < 2 ^ 16) :
    ∃ pre t, cur :: l = pre ++ [t] ∧
      walkTail m fuel cur count = some (t, count + l.length + 1) := by
  induction l generalizing cur fuel count with
  | nil =>
    obtain ⟨fuel, rfl⟩ := Nat.exists_eq_add_one_of_ne_zero (Nat.ne_of_gt hf)
    have hcount : (count + 1) % 2 ^ 16 = count + 1 := Nat.mod_eq_of_lt hc
    refine ⟨[], cur, rfl, ?_⟩
    unfold walkTail
    rw [if_pos (ptr_eq_none.mp h), hcount]
    rfl
  | cons y l ih =>
    obtain ⟨fuel, rfl⟩ := Nat.exists_eq_add_one_of_ne_zero (Nat.ne_of_gt (Nat.zero_lt_of_lt hf))
    obtain ⟨hy, hrest⟩ := h
    obtain ⟨hy, hy0⟩ := ptr_eq_some.mp hy
    rw [List.length_cons] at hf hc
    obtain ⟨pre, t, hl, hw⟩ := ih fuel (count + 1) hrest (Nat.lt_of_succ_lt_succ hf)
      (show count + 1 + l.length + 1 < 2 ^ 16 by omega)
    refine ⟨cur :: pre, t, by rw [hl]; rfl, ?_⟩
    have hcount : (count + 1) % 2 ^ 16 = count + 1 := Nat.mod_eq_of_lt (by omega)
    unfold walkTail
    rw [hcount, hy, if_neg hy0, hw, List.length_cons, Nat.add_right_comm count 1]
    rfl

/-- Collecting: the remote stack moves to the front of the local list. Only the
link of the last remote slot is written. -/
theorem collect (g : Geom r p) (h : Slots m r p k loc rem busy) :
    ∃ m' p', pageCollectRemote m p = .ok (m', p') ∧ SameShape p p' ∧
      p'.ownerTid = p.ownerTid ∧ p'.debugBitmap = p.debugBitmap ∧
      Slots m' r p' k (rem ++ loc) [] busy ∧
      (∀ y, m' y ≠ m y → ∃ t ∈ rem, t ≤ y ∧ y < t + 8) := by
  obtain ⟨hlen, hk⟩ := h.length_le g
  have hcap := g.cap_le
  have hnd := h.parts_nodup g
  cases rem with
  | nil =>
    have hz : taggedPtr p.remoteFree = 0 := ptr_eq_none.mp h.remote_linked
    refine ⟨m, p, ?_, SameShape.refl p, rfl, rfl, h, fun y hy => absurd rfl hy⟩
    unfold pageCollectRemote treiberCollect
    rw [if_pos hz, if_pos rfl]
  | cons x rem' =>
    obtain ⟨hx, hrest⟩ := h.remote_linked
    obtain ⟨hx, hx0⟩ := ptr_eq_some.mp hx
    simp only [List.length_cons] at hlen
    obtain ⟨pre, t, hl, hw⟩ := walkTail_linked p.capacity 0 hrest
      (by have := h.carved_le; omega) (by omega)
    have htr : t ∈ x :: rem' := hl ▸ List.mem_append_right _ (List.mem_cons_self ..)
    have ht : t ∈ slotList r p k := h.mem_parts.mpr (Or.inr (Or.inl htr))
    have hremnd : (pre ++ [t]).Nodup := by
      rw [← hl]
      exact ((List.nodup_append.mp (List.nodup_append.mp hnd).1).2.1)
    have hlink : ∀ y ∈ slotList r p k, y ≠ t → link (writeWord m t p.localFree) y = link m y :=
      fun y hy hne => link_writeWord_ne g ht hy hne
    refine ⟨writeWord m t p.localFree, { p with
        remoteFree := taggedMake 0 (taggedTag p.remoteFree + 1)
        localFree := x
        localFreeCount := (p.localFreeCount + (0 + rem'.length + 1)) % 2 ^ 16
        remoteFreeCount := sub16 p.remoteFreeCount (0 + rem'.length + 1) }, ?_, ?_,
      rfl, rfl, ⟨h.bump_eq, h.carved_le, ?_, ?_, ?_, ?_, ?_, h.used_eq, ?_⟩, ?_⟩
    · unfold pageCollectRemote treiberCollect
      simp only [hx, hw, if_neg hx0]
    · constructor <;> rfl
    · -- the remote list, its last link redirected to the old local list
      rw [hl, List.append_assoc]
      have hrem : Linked (link m) (ptr x) (pre ++ [t]) := by
        rw [← hl]
        exact ⟨ptr_eq_some.mpr ⟨rfl, hx0⟩, hrest⟩
      have htpre : t ∉ pre := fun hm =>
        (List.nodup_append.mp hremnd).2.2 t hm t (List.mem_cons_self ..) rfl
      refine hrem.append h.local_linked htpre (link_writeWord_same (h.head_lt g)) ?_ ?_
      · intro y hy
        have hyr : y ∈ x :: rem' := hl ▸ List.mem_append_left _ hy
        exact hlink y (h.mem_parts.mpr (Or.inr (Or.inl hyr))) fun he => htpre (he ▸ hy)
      · intro y hy
        refine hlink y (h.mem_parts.mpr (Or.inl hy)) fun he => ?_
        exact (List.nodup_append.mp (List.nodup_append.mp hnd).1).2.2 y hy t htr he
    · show ptr (taggedPtr (taggedMake 0 _)) = none
      rw [taggedPtr_make (by decide)]
      rfl
    · have hp : ((x :: rem') ++ loc ++ [] ++ busy).Perm (loc ++ (x :: rem') ++ busy) := by
        rw [List.append_nil]
        exact List.perm_append_comm.append_right _
      exact hp.trans h.parts
    · have := h.local_count
      simp only [List.length_append, List.length_cons]
      omega
    · have := h.remote_count
      simp only [List.length_cons, List.length_nil] at this ⊢
      rw [sub16_of_le (by omega)]
      omega
    · intro y h₁ h₂
      rw [virgin_writeWord g h ht h₁]
      exact h.virgin y h₁ h₂
    · intro y hy
      refine ⟨t, htr, ?_⟩
      by_contra hc
      exact hy (writeWord_out (by omega))

end Slots

end CustomMalloc

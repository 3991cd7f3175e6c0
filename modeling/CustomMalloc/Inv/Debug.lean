import CustomMalloc.Debug
import CustomMalloc.Inv.Arena

/-!
# The heap checker is satisfied

In a `MALLOC_DEBUG` build the invariant implies every check of
`debug_heap_check`: bit `i` of a page's bitmap is set exactly when slot `i` is
handed out, so the bits number `used`; the local list runs through slots whose
bits are clear; and the four kinds of slots add up to the capacity.
-/

namespace CustomMalloc

open Lib.Words Lib.Bytes Lib.Chain

variable {c : Cfg} {s : State} {G : Ghost} {m : Mem} {r : PageRef} {p : PageMeta} {busy : List Nat}

/-! ## The bitmap -/

theorem popcount_eq (bm : Nat → Nat) (n : Nat) :
    popcount (bm n) = ((List.range 8).map (8 * n + ·)).countP (bitAt bm) := by
  unfold popcount
  rw [List.countP_map]
  refine List.countP_congr fun j hj => ?_
  have hj := List.mem_range.mp hj
  simp only [bitAt, Function.comp]
  rw [show (8 * n + j) / 8 = n by omega, show (8 * n + j) % 8 = j by omega]

/-- Adding up the bytes counts the bits; the 16-bit sum does not wrap. -/
theorem bitmapFold_eq (bm : Nat → Nat) (n : Nat) (hn : 8 * n < 2 ^ 16) :
    (List.range n).foldl (fun k b => (k + popcount (bm b)) % 2 ^ 16) 0 =
      (List.range (8 * n)).countP (bitAt bm) := by
  induction n with
  | zero => rfl
  | succ n ih =>
    have hle : (List.range (8 * n + 8)).countP (bitAt bm) ≤ 8 * n + 8 :=
      List.countP_le_length.trans (List.length_range).le
    rw [List.range_succ, List.foldl_append, ih (by omega)]
    simp only [List.foldl_cons, List.foldl_nil]
    rw [show 8 * (n + 1) = 8 * n + 8 by omega]
    rw [List.range_add, List.countP_append, ← popcount_eq] at hle ⊢
    exact Nat.mod_eq_of_lt (by omega)

/-- The set bits are the busy slots. -/
theorem PageInv.bitmapCount (h : PageInv true m r p busy) :
    CustomMalloc.bitmapCount p = busy.length := by
  have hcap := h.geom.cap_le
  unfold CustomMalloc.bitmapCount
  rw [bitmapFold_eq p.debugBitmap _ (by omega), List.countP_eq_length_filter,
    ← List.length_map (slotAt r p)]
  refine (List.perm_of_nodup_nodup_toFinset_eq ?_ h.busy_nodup ?_).length_eq
  · exact (List.nodup_range.filter _).map fun _ _ he => h.geom.slotAt_inj he
  · ext x
    simp only [List.mem_toFinset, List.mem_map, List.mem_filter, List.mem_range]
    constructor
    · rintro ⟨i, ⟨-, hbit⟩, rfl⟩
      exact (h.bits rfl i).mp hbit
    · intro hx
      obtain ⟨i, hi, rfl⟩ := h.busy_slot hx
      exact ⟨i, ⟨by omega, (h.bits rfl i).mpr hx⟩, rfl⟩

/-! ## The local free list -/

/-- A walk along free slots ends at the end of the list. -/
theorem walkLocalFree_linked (g : Geom r p) {l : List Nat} {entry fuel n : Nat}
    (hl : Linked (link m) (ptr entry) l)
    (hfree : ∀ x ∈ l, ∃ i, i < p.capacity ∧ x = slotAt r p i ∧ bitAt p.debugBitmap i = false)
    (hlen : n + l.length ≤ p.capacity) (hfuel : l.length < fuel) :
    walkLocalFree m p fuel entry n = (true, n + l.length) := by
  have hcap := g.cap_le
  induction l generalizing entry fuel n with
  | nil =>
    obtain ⟨fuel, rfl⟩ := Nat.exists_eq_add_one_of_ne_zero (Nat.ne_of_gt hfuel)
    have h0 : entry = 0 := ptr_eq_none.mp hl
    simp [walkLocalFree, h0]
  | cons x l ih =>
    obtain ⟨fuel, rfl⟩ :=
      Nat.exists_eq_add_one_of_ne_zero (Nat.ne_of_gt (Nat.lt_of_le_of_lt (Nat.zero_le _) hfuel))
    obtain ⟨hx, hl⟩ := hl
    obtain ⟨rfl, h0⟩ := ptr_eq_some.mp hx
    obtain ⟨i, hi, hslot, hbit⟩ := hfree entry (List.mem_cons_self ..)
    have hidx : debugSlotIndex p entry = i := by
      rw [hslot]
      exact debugSlotIndex_slotAt g hi
    simp only [List.length_cons] at hlen hfuel
    have hrest := ih (n := n + 1) hl (fun y hy => hfree y (List.mem_cons_of_mem _ hy)) (by omega)
      (show l.length < fuel by omega)
    have hn : (n + 1) % 2 ^ 16 = n + 1 := Nat.mod_eq_of_lt (by omega)
    have hclear : p.bit i = false := hbit
    unfold walkLocalFree
    simp only [if_neg h0, hn, hidx, if_neg (show ¬ p.capacity < n + 1 by omega),
      if_neg (show ¬ i = 2 ^ 16 - 1 by omega), hrest, hclear, List.length_cons]
    simp only [Bool.not_false, Bool.and_self, Prod.mk.injEq, true_and]
    omega

/-! ## A page -/

theorem Slots.bumpRemaining {k : Nat} {loc rem : List Nat} (g : Geom r p)
    (h : Slots m r p k loc rem busy) : CustomMalloc.bumpRemaining p = p.capacity - k := by
  have hk := h.bump_lt_iff g
  have hge := g.slot_ge
  have hcap := g.cap_le
  unfold CustomMalloc.bumpRemaining
  split
  next hlt =>
    rw [h.bump_eq, g.end_eq, ← Nat.sub_mul, Nat.mul_div_cancel _ (by omega),
      Nat.mod_eq_of_lt (by omega)]
  next hno =>
    have := h.carved_le
    rw [hk] at hno
    omega

theorem PageInv.debugCheckPage (h : PageInv true m r p busy) :
    CustomMalloc.debugCheckPage m p = true := by
  obtain ⟨k, loc, rem, hs⟩ := h.slots
  obtain ⟨hlen, -⟩ := hs.length_le h.geom
  have hcap := h.geom.cap_le
  have hle := hs.carved_le
  have hfree : ∀ x ∈ loc, ∃ i, i < p.capacity ∧ x = slotAt r p i ∧
      bitAt p.debugBitmap i = false := by
    intro x hx
    obtain ⟨i, hi, rfl⟩ := mem_slotList.mp (hs.mem_parts.mpr (Or.inl hx))
    refine ⟨i, Nat.lt_of_lt_of_le hi hle, rfl, Bool.eq_false_iff.mpr fun hbit => ?_⟩
    -- a set bit would make the slot busy as well as free
    exact (List.nodup_append.mp (hs.parts_nodup h.geom)).2.2 _ (List.mem_append_left _ hx) _
      ((h.bits rfl i).mp hbit) rfl
  have hwalk := walkLocalFree_linked (n := 0) h.geom hs.local_linked hfree (by omega)
    (show loc.length < p.capacity + 1 by omega)
  unfold CustomMalloc.debugCheckPage
  simp only [hwalk, h.bitmapCount, hs.bumpRemaining h.geom, hs.used_eq, hs.local_count,
    hs.remote_count, Nat.zero_add, beq_self_eq_true, Bool.true_and, beq_iff_eq]
  rw [Nat.mod_eq_of_lt (by omega)]
  omega

/-! ## The heap -/

theorem Inv.debugCheckSegment (h : Inv c s G) (hd : c.debug = true) {b : Nat}
    (hb : (s.segs b).isSome) : CustomMalloc.debugCheckSegment s b = true := by
  obtain ⟨g, hg⟩ := Option.isSome_iff_exists.mp hb
  unfold CustomMalloc.debugCheckSegment
  rw [List.all_eq_true]
  intro i hi
  simp only [List.mem_range'_1, pagesDataStart, pagesPerSegment] at hi
  simp only
  cases h.pages.data (r := ⟨b, i⟩) hg (show 1 ≤ i by omega) (show i < 64 by omega) with
  | unused hs _ _ _ => simp [hs]
  | active inv _ =>
    rw [hd] at inv
    rw [if_neg (by simp [inv.geom.active])]
    exact inv.debugCheckPage

theorem debugCheckArena_linked {l : List Nat} {fuel : Nat} {head : Option Nat}
    (hl : Linked (fun b => (s.segs b).bind Segment.next) head l) (hfuel : l.length ≤ fuel)
    (hok : ∀ b ∈ l, debugCheckSegment s b = true) : debugCheckArena s fuel head = .ok true := by
  induction l generalizing fuel head with
  | nil =>
    have h0 : head = none := hl
    subst h0
    cases fuel <;> rfl
  | cons b l ih =>
    obtain ⟨rfl, hl⟩ := hl
    simp only [List.length_cons] at hfuel
    obtain ⟨fuel, rfl⟩ := Nat.exists_eq_add_one_of_ne_zero (show fuel ≠ 0 by omega)
    unfold debugCheckArena
    rw [ih hl (by omega) fun x hx => hok x (List.mem_cons_of_mem _ hx),
      hok b (List.mem_cons_self ..)]
    rfl

/-- In a debug build `debug_heap_check` finds nothing. -/
theorem Inv.debugHeapCheck (h : Inv c s G) (hd : c.debug = true) :
    CustomMalloc.debugHeapCheck s = .ok true := by
  have harena : ∀ a, debugCheckArena s walkBound (s.arenas a).segments = .ok true := by
    intro a
    obtain ⟨l, hl, hmem, -⟩ := h.segLists a
    have hseg : ∀ b ∈ l, (s.segs b).isSome := fun b hb => by
      obtain ⟨g, hg, -⟩ := (hmem b).mp hb
      rw [hg]
      rfl
    exact debugCheckArena_linked hl.1 (h.seg_length_le hl.1.nodup hseg)
      fun b hb => h.debugCheckSegment hd (hseg b hb)
  unfold CustomMalloc.debugHeapCheck
  simp only [harena, show List.range numArenas = [0, 1, 2, 3] from rfl]
  rfl

end CustomMalloc

import CustomMalloc.Debug
import CustomMalloc.Lib.Post

/-!
# What the heap checker follows

`debug_heap_check` walks a page's `local_free` list and asks `debug_slot_index`
about every entry before it reads the entry's link, so that a corrupted list
cannot lead it out of the page. The index is narrowed to 16 bits before it is
compared with the capacity, though: an address `n * 65536` slots behind a slot
has the index of that slot (`Aliased`). Such an entry passes, the checker reads
the word there, and a list that leaves the page through it may end in a clean
report (`checker_follows_alias`).

Everything else is as intended, for every page and every memory: the walk sees
at most `capacity + 1` entries, and unless it comes to an aliased entry it reads
slots of its page only and reports every list that leaves them
(`heap_checker_iff`). `walkVisit` is the walk of the model with the addresses it
reads written down.
-/

namespace CustomMalloc

open Lib.Bytes Lib.Post

variable {m : Mem} {p : PageMeta} {s : State}

/-! ## `debug_slot_index` -/

/-- `x` is the start of a slot of the page. -/
def SlotStart (p : PageMeta) (x : Nat) : Prop :=
  ∃ i, i < p.capacity ∧ x = pageStart p + i * p.slotSize

/-- `x` lies a positive multiple of 65536 slots behind a slot of the page. -/
def Aliased (p : PageMeta) (x : Nat) : Prop :=
  ∃ i n, i < p.capacity ∧ x = pageStart p + (i + (n + 1) * 2 ^ 16) * p.slotSize

/-- `debug_slot_index` is right about `x`: it accepts exactly the slots and returns their
index. -/
def IndexRight (p : PageMeta) (x : Nat) : Prop :=
  (debugSlotIndex p x ≠ 2 ^ 16 - 1 ↔ SlotStart p x) ∧
    ∀ i, i < p.capacity → x = pageStart p + i * p.slotSize → debugSlotIndex p x = i

/-- A page has at most 4096 slots. -/
theorem capacity_le_of_area (hpos : 0 < p.slotSize) (h16 : 16 ∣ p.slotSize)
    (harea : p.capacity * p.slotSize ≤ pageSizeAlloc) : p.capacity ≤ 4096 := by
  have hge : 16 ≤ p.slotSize := Nat.le_of_dvd hpos h16
  have hmul : p.capacity * 16 ≤ p.capacity * p.slotSize := Nat.mul_le_mul_left _ hge
  have harea : p.capacity * p.slotSize ≤ 65536 := harea
  omega

/-- The index of a quotient is the quotient modulo `2 ^ 16`. -/
theorem debugSlotIndex_mul (hpos : 0 < p.slotSize) (q : Nat) :
    debugSlotIndex p (pageStart p + q * p.slotSize) =
      if q % 2 ^ 16 < p.capacity then q % 2 ^ 16 else 2 ^ 16 - 1 := by
  unfold debugSlotIndex
  simp only [if_neg (show ¬ pageStart p + q * p.slotSize < pageStart p by omega),
    Nat.add_sub_cancel_left, Nat.mul_mod_left, ne_eq, not_true_eq_false, if_false,
    Nat.mul_div_cancel _ hpos]

/-- A valid index belongs to a whole number of slots. -/
theorem debugSlotIndex_inv {x : Nat} (h : debugSlotIndex p x ≠ 2 ^ 16 - 1) :
    ∃ q, x = pageStart p + q * p.slotSize ∧ q % 2 ^ 16 < p.capacity := by
  unfold debugSlotIndex at h
  simp only at h
  split at h
  next => exact absurd rfl h
  next hge =>
    split at h
    next => exact absurd rfl h
    next hdvd =>
      split at h
      next hlt =>
        refine ⟨(x - pageStart p) / p.slotSize, ?_, hlt⟩
        rw [Nat.div_mul_cancel (Nat.dvd_of_mod_eq_zero (Decidable.not_not.mp hdvd))]
        omega
      next => exact absurd rfl h

/-- The entries that pass are the slots and their aliases. -/
theorem debugSlotIndex_valid_iff (hpos : 0 < p.slotSize) (hcap : p.capacity ≤ 4096) {x : Nat} :
    debugSlotIndex p x ≠ 2 ^ 16 - 1 ↔ SlotStart p x ∨ Aliased p x := by
  constructor
  · intro h
    obtain ⟨q, rfl, hq⟩ := debugSlotIndex_inv h
    rcases Nat.lt_or_ge q (2 ^ 16) with hlt | hge
    · rw [Nat.mod_eq_of_lt hlt] at hq
      exact Or.inl ⟨q, hq, rfl⟩
    · -- `q = i + (n + 1) * 2 ^ 16`
      refine Or.inr ⟨q % 2 ^ 16, q / 2 ^ 16 - 1, hq, ?_⟩
      rw [show q % 2 ^ 16 + (q / 2 ^ 16 - 1 + 1) * 2 ^ 16 = q by omega]
  · rintro (⟨i, hi, rfl⟩ | ⟨i, n, hi, rfl⟩)
    · rw [debugSlotIndex_mul hpos, Nat.mod_eq_of_lt (by omega), if_pos hi]
      omega
    · rw [debugSlotIndex_mul hpos, Nat.add_mul_mod_self_right, Nat.mod_eq_of_lt (by omega),
        if_pos hi]
      omega

/-- An alias is no slot. -/
theorem Aliased.not_slotStart (hpos : 0 < p.slotSize) (hcap : p.capacity ≤ 4096) {x : Nat}
    (h : Aliased p x) : ¬ SlotStart p x := by
  obtain ⟨i, n, -, rfl⟩ := h
  rintro ⟨j, hj, he⟩
  have hq : i + (n + 1) * 2 ^ 16 = j := Nat.eq_of_mul_eq_mul_right hpos (Nat.add_left_cancel he)
  omega

theorem indexRight_iff (hpos : 0 < p.slotSize) (hcap : p.capacity ≤ 4096) (x : Nat) :
    IndexRight p x ↔ ¬ Aliased p x := by
  have hvalid := debugSlotIndex_valid_iff hpos hcap (x := x)
  constructor
  · intro h hal
    exact hal.not_slotStart hpos hcap (h.1.mp (hvalid.mpr (Or.inr hal)))
  · intro hno
    refine ⟨hvalid.trans (or_iff_left hno), ?_⟩
    intro i hi hx
    rw [hx, debugSlotIndex_mul hpos, Nat.mod_eq_of_lt (by omega), if_pos hi]

/-! ## The walk -/

/-- `walkLocalFree` with the addresses it dereferences. -/
def walkVisit (m : Mem) (p : PageMeta) : Nat → Nat → Nat → Bool × Nat × List Nat
  | 0, _, freeWalk => (false, freeWalk, [])
  | fuel + 1, entry, freeWalk =>
    if entry = 0 then (true, freeWalk, [])
    else
      let freeWalk := (freeWalk + 1) % 2 ^ 16
      if p.capacity < freeWalk then (false, freeWalk, [])
      else
        let idx := debugSlotIndex p entry
        if idx = 2 ^ 16 - 1 then (false, freeWalk, [])
        else
          let rest := walkVisit m p fuel (readWord m entry) freeWalk
          (!p.bit idx && rest.1, rest.2.1, entry :: rest.2.2)

/-- Writing the addresses down changes nothing. -/
theorem walkVisit_walk (m : Mem) (p : PageMeta) (fuel entry n : Nat) :
    walkLocalFree m p fuel entry n =
      ((walkVisit m p fuel entry n).1, (walkVisit m p fuel entry n).2.1) := by
  induction fuel generalizing entry n with
  | zero => rfl
  | succ fuel ih =>
    unfold walkLocalFree walkVisit
    simp only [ih]
    split
    next => rfl
    next =>
      split
      next => rfl
      next =>
        split
        next => rfl
        next => rfl

/-- The four ways a step of the walk can go. -/
inductive WalkCase (m : Mem) (p : PageMeta) (fuel entry n : Nat) : Prop
  | stop (h0 : entry = 0) (he : walkVisit m p (fuel + 1) entry n = (true, n, []))
  | over (h0 : entry ≠ 0) (hn : n = p.capacity)
      (he : walkVisit m p (fuel + 1) entry n = (false, n + 1, []))
  | invalid (h0 : entry ≠ 0) (hn : n < p.capacity) (hidx : debugSlotIndex p entry = 2 ^ 16 - 1)
      (he : walkVisit m p (fuel + 1) entry n = (false, n + 1, []))
  | follow (h0 : entry ≠ 0) (hn : n < p.capacity) (hidx : debugSlotIndex p entry ≠ 2 ^ 16 - 1)
      (he : walkVisit m p (fuel + 1) entry n =
        (!p.bit (debugSlotIndex p entry) && (walkVisit m p fuel (readWord m entry) (n + 1)).1,
          (walkVisit m p fuel (readWord m entry) (n + 1)).2.1,
          entry :: (walkVisit m p fuel (readWord m entry) (n + 1)).2.2))

theorem walkVisit_cases (hcap : p.capacity ≤ 4096) {n : Nat} (hn : n ≤ p.capacity)
    (fuel entry : Nat) : WalkCase m p fuel entry n := by
  have hmod : (n + 1) % 2 ^ 16 = n + 1 := Nat.mod_eq_of_lt (by omega)
  by_cases h0 : entry = 0
  · exact .stop h0 (by simp only [walkVisit, if_pos h0])
  rcases Nat.lt_or_ge n p.capacity with hlt | hge
  · have hin : ¬ p.capacity < n + 1 := by omega
    by_cases hidx : debugSlotIndex p entry = 2 ^ 16 - 1
    · exact .invalid h0 hlt hidx
        (by simp only [walkVisit, if_neg h0, hmod, if_neg hin, if_pos hidx])
    · exact .follow h0 hlt hidx (by simp only [walkVisit, if_neg h0, hmod, if_neg hin, if_neg hidx])
  · exact .over h0 (by omega)
      (by simp only [walkVisit, if_neg h0, hmod, if_pos (show p.capacity < n + 1 by omega)])

/-- The walk ends by itself: more fuel makes no difference. -/
theorem walkVisit_fuel (hcap : p.capacity ≤ 4096) (extra : Nat) {fuel entry n : Nat}
    (hn : n ≤ p.capacity) (hfuel : p.capacity < n + fuel) :
    walkVisit m p (fuel + extra) entry n = walkVisit m p fuel entry n := by
  induction fuel generalizing entry n with
  | zero => omega
  | succ fuel ih =>
    rw [show fuel + 1 + extra = fuel + extra + 1 by omega]
    rcases walkVisit_cases (m := m) hcap hn fuel entry with
      ⟨h0, he⟩ | ⟨h0, hlt, he⟩ | ⟨h0, hlt, hidx, he⟩ | ⟨h0, hlt, hidx, he⟩
    · rw [he]
      simp only [walkVisit, if_pos h0]
    · rw [he]
      simp only [walkVisit, if_neg h0, Nat.mod_eq_of_lt (show n + 1 < 2 ^ 16 by omega),
        if_pos (show p.capacity < n + 1 by omega)]
    · rw [he]
      simp only [walkVisit, if_neg h0, Nat.mod_eq_of_lt (show n + 1 < 2 ^ 16 by omega),
        if_neg (show ¬ p.capacity < n + 1 by omega), if_pos hidx]
    · rw [he, ← ih hlt (by omega)]
      simp only [walkVisit, if_neg h0, Nat.mod_eq_of_lt (show n + 1 < 2 ^ 16 by omega),
        if_neg (show ¬ p.capacity < n + 1 by omega), if_neg hidx]

/-- It sees at most `capacity + 1` entries and follows at most `capacity`. -/
theorem walkVisit_count (hcap : p.capacity ≤ 4096) {fuel entry n : Nat} (hn : n ≤ p.capacity) :
    (walkVisit m p fuel entry n).2.1 ≤ p.capacity + 1 ∧
      n + (walkVisit m p fuel entry n).2.2.length ≤ p.capacity := by
  induction fuel generalizing entry n with
  | zero => exact ⟨Nat.le_succ_of_le hn, hn⟩
  | succ fuel ih =>
    rcases walkVisit_cases (m := m) hcap hn fuel entry with
      ⟨-, he⟩ | ⟨-, rfl, he⟩ | ⟨-, hlt, -, he⟩ | ⟨-, hlt, -, he⟩
    · rw [he]
      exact ⟨Nat.le_succ_of_le hn, hn⟩
    · rw [he]
      exact ⟨Nat.le_refl _, Nat.le_refl _⟩
    · rw [he]
      exact ⟨by simp only; omega, hn⟩
    · have hrest : (walkVisit m p fuel (readWord m entry) (n + 1)).2.1 ≤ p.capacity + 1 ∧
          n + 1 + (walkVisit m p fuel (readWord m entry) (n + 1)).2.2.length ≤ p.capacity := ih hlt
      obtain ⟨h₁, h₂⟩ := hrest
      rw [he]
      refine ⟨h₁, ?_⟩
      simp only [List.length_cons]
      omega

/-! ## Lists that leave the page -/

/-- Among the first `n` entries from `x` on there is an aliased one, with slots only before it. -/
def ReachesAlias (m : Mem) (p : PageMeta) : Nat → Nat → Prop
  | 0, _ => False
  | n + 1, x => x ≠ 0 ∧ (Aliased p x ∨ SlotStart p x ∧ ReachesAlias m p n (readWord m x))

/-- The list from `x` on has an entry that is no slot of the page. -/
inductive Leaves (m : Mem) (p : PageMeta) : Nat → Prop
  | here {x : Nat} (h0 : x ≠ 0) (h : ¬ SlotStart p x) : Leaves m p x
  | later {x : Nat} (h0 : x ≠ 0) (h : Leaves m p (readWord m x)) : Leaves m p x

/-- The walk reads slots only, unless it comes to an alias. -/
theorem walkVisit_slots_iff (hpos : 0 < p.slotSize) (hcap : p.capacity ≤ 4096) {left n entry : Nat}
    (hn : n + left = p.capacity) :
    (∀ x ∈ (walkVisit m p (left + 1) entry n).2.2, SlotStart p x) ↔
      ¬ ReachesAlias m p left entry := by
  induction left generalizing n entry with
  | zero =>
    rcases walkVisit_cases (m := m) hcap (show n ≤ p.capacity by omega) 0 entry with
      ⟨-, he⟩ | ⟨-, -, he⟩ | ⟨-, hlt, -, -⟩ | ⟨-, hlt, -, -⟩
    · simp [he, ReachesAlias]
    · simp [he, ReachesAlias]
    · omega
    · omega
  | succ left ih =>
    rcases walkVisit_cases (m := m) hcap (show n ≤ p.capacity by omega) (left + 1) entry with
      ⟨h0, he⟩ | ⟨-, hlt, -⟩ | ⟨h0, hlt, hidx, he⟩ | ⟨h0, hlt, hidx, he⟩
    · rw [he]
      simp [ReachesAlias, h0]
    · omega
    · -- neither a slot nor an alias
      have hnone := mt (debugSlotIndex_valid_iff hpos hcap).mpr (not_not.mpr hidx)
      rw [not_or] at hnone
      simp [he, ReachesAlias, hnone]
    · rw [he]
      simp only [List.forall_mem_cons, ReachesAlias]
      rw [ih (by omega)]
      rcases (debugSlotIndex_valid_iff hpos hcap).mp hidx with hslot | hal
      · have hno : ¬ Aliased p entry := fun hal => hal.not_slotStart hpos hcap hslot
        simp [h0, hslot, hno]
      · have hno := hal.not_slotStart hpos hcap
        simp [h0, hal, hno]

/-- A list that leaves the page is reported, unless the walk comes to an alias first. -/
theorem walkVisit_leaves (hpos : 0 < p.slotSize) (hcap : p.capacity ≤ 4096) {left n entry : Nat}
    (hn : n + left = p.capacity) (hno : ¬ ReachesAlias m p left entry) (hout : Leaves m p entry) :
    (walkVisit m p (left + 1) entry n).1 = false := by
  induction left generalizing n entry with
  | zero =>
    rcases walkVisit_cases (m := m) hcap (show n ≤ p.capacity by omega) 0 entry with
      ⟨rfl, -⟩ | ⟨-, -, he⟩ | ⟨-, hlt, -, -⟩ | ⟨-, hlt, -, -⟩
    · cases hout <;> contradiction
    · rw [he]
    · omega
    · omega
  | succ left ih =>
    rcases walkVisit_cases (m := m) hcap (show n ≤ p.capacity by omega) (left + 1) entry with
      ⟨rfl, -⟩ | ⟨-, hlt, -⟩ | ⟨-, -, -, he⟩ | ⟨h0, hlt, hidx, he⟩
    · cases hout <;> contradiction
    · omega
    · rw [he]
    · have hslot : SlotStart p entry :=
        ((debugSlotIndex_valid_iff hpos hcap).mp hidx).resolve_right fun hal =>
          hno ⟨h0, Or.inl hal⟩
      have hrest : Leaves m p (readWord m entry) := by
        cases hout with
        | here _ hc => exact absurd hslot hc
        | later _ h => exact h
      have := ih (n := n + 1) (by omega) (fun h => hno ⟨h0, Or.inr ⟨hslot, h⟩⟩) hrest
      rw [he, this, Bool.and_false]

/-! ## The heap -/

/-- A walk that fails fails its page. -/
theorem debugCheckPage_of_walk (h : (walkVisit m p (p.capacity + 1) p.localFree 0).1 = false) :
    debugCheckPage m p = false := by
  unfold debugCheckPage
  simp only [walkVisit_walk, h, Bool.and_false, Bool.false_and]

/-- `seg` is on the list of segments that starts with `head`. -/
inductive OnSegments (s : State) : Option Nat → Nat → Prop
  | head (seg : Nat) : OnSegments s (some seg) seg
  | tail {b seg : Nat} (h : OnSegments s ((s.segs b).bind Segment.next) seg) :
      OnSegments s (some b) seg

/-- A segment that fails fails its arena. -/
theorem debugCheckArena_false {head : Option Nat} {seg fuel : Nat} {ok : Bool}
    (hon : OnSegments s head seg) (hseg : debugCheckSegment s seg = false)
    (h : debugCheckArena s fuel head = .ok ok) : ok = false := by
  induction hon generalizing fuel ok with
  | head seg =>
    cases fuel with
    | zero => exact absurd h (by simp [debugCheckArena])
    | succ fuel =>
      unfold debugCheckArena at h
      obtain ⟨rest, -, h⟩ := bind_eq_ok h
      rw [hseg] at h
      exact (Except.ok.inj h).symm
  | @tail b seg hon ih =>
    cases fuel with
    | zero => exact absurd h (by simp [debugCheckArena])
    | succ fuel =>
      unfold debugCheckArena at h
      obtain ⟨rest, hrest, h⟩ := bind_eq_ok h
      obtain rfl := ih hseg hrest
      rw [Bool.and_false] at h
      exact (Except.ok.inj h).symm

/-- A page that fails fails the heap. -/
theorem debugHeapCheck_false {a seg i : Nat} {ok : Bool} (ha : a < numArenas)
    (hon : OnSegments s (s.arenas a).segments seg) (hi : pagesDataStart ≤ i)
    (hlt : i < pagesPerSegment)
    (hstate : (s.pages ⟨seg, i⟩).state = .active ∨ (s.pages ⟨seg, i⟩).state = .full)
    (hpage : debugCheckPage s.mem (s.pages ⟨seg, i⟩) = false)
    (h : debugHeapCheck s = .ok ok) : ok = false := by
  have hseg : debugCheckSegment s seg = false := by
    rw [Bool.eq_false_iff]
    intro hall
    unfold debugCheckSegment at hall
    rw [List.all_eq_true] at hall
    have hlt : i < 64 := hlt
    have hi : 1 ≤ i := hi
    have := hall i (List.mem_range'_1.mpr
      ⟨hi, by simp only [pagesDataStart, pagesPerSegment]; omega⟩)
    simp only at this
    rw [if_neg (by rcases hstate with hs | hs <;> simp [hs]), hpage] at this
    exact absurd this (by decide)
  unfold debugHeapCheck at h
  obtain ⟨oks, hmap, h⟩ := bind_eq_ok h
  obtain ⟨y, hy, hcheck⟩ := exists_mem_of_mapM hmap (List.mem_range.mpr ha)
  obtain rfl := debugCheckArena_false hon hseg hcheck
  obtain rfl : oks.all id = ok := Except.ok.inj h
  rw [Bool.eq_false_iff]
  intro hall
  exact absurd (List.all_eq_true.mp hall false hy) (by decide)

/-- What the heap checker follows, on any page and any memory. `debug_slot_index` is right about
exactly the addresses that are no alias. The walk of `local_free` always ends after at most
`capacity + 1` entries. It reads slots of the page only and reports every list that leaves them
exactly if it comes to no alias; then `debug_heap_check` reports such a list too. -/
theorem heap_checker_iff (p : PageMeta) (hpos : 0 < p.slotSize) (h16 : 16 ∣ p.slotSize)
    (harea : p.capacity * p.slotSize ≤ pageSizeAlloc) :
    (∀ x, IndexRight p x ↔ ¬ Aliased p x) ∧
    (∀ m, (walkVisit m p (p.capacity + 1) p.localFree 0).2.1 ≤ p.capacity + 1 ∧
      (∀ extra, walkLocalFree m p (p.capacity + 1 + extra) p.localFree 0 =
        walkLocalFree m p (p.capacity + 1) p.localFree 0) ∧
      (((∀ x ∈ (walkVisit m p (p.capacity + 1) p.localFree 0).2.2, SlotStart p x) ∧
          (Leaves m p p.localFree → debugCheckPage m p = false)) ↔
        ¬ ReachesAlias m p p.capacity p.localFree)) ∧
    ∀ s a seg i ok, a < numArenas → OnSegments s (s.arenas a).segments seg →
      pagesDataStart ≤ i → i < pagesPerSegment → s.pages ⟨seg, i⟩ = p →
      (p.state = .active ∨ p.state = .full) →
      ¬ ReachesAlias s.mem p p.capacity p.localFree → Leaves s.mem p p.localFree →
      debugHeapCheck s = .ok ok → ok = false := by
  have hcap := capacity_le_of_area hpos h16 harea
  have hpage : ∀ m, ¬ ReachesAlias m p p.capacity p.localFree → Leaves m p p.localFree →
      debugCheckPage m p = false := fun m hno hout =>
    debugCheckPage_of_walk (walkVisit_leaves hpos hcap (Nat.zero_add _) hno hout)
  refine ⟨indexRight_iff hpos hcap, fun m => ⟨?_, ?_, ?_⟩, ?_⟩
  · exact (walkVisit_count hcap (Nat.zero_le _)).1
  · intro extra
    rw [walkVisit_walk, walkVisit_walk, walkVisit_fuel hcap extra (Nat.zero_le _) (by omega)]
  · rw [walkVisit_slots_iff hpos hcap (Nat.zero_add _)]
    exact and_iff_left_of_imp (hpage m)
  · intro s a seg i ok ha hon hi hlt hp hstate hno hout h
    subst hp
    exact debugHeapCheck_false ha hon hi hlt hstate (hpage s.mem hno hout) h

/-- A page of 16-byte slots with two free ones, the second slot first on the list. -/
def twoFree : PageMeta :=
  { pageInit {} 0x10000000 0 1 1 16 with
    bumpOffset := 32
    localFree := 0x10010010
    localFreeCount := 2 }

/-- A link into the middle of the first slot is reported. -/
theorem heap_checker_iff_middle :
    debugCheckPage (writeWord (fun _ => 0) 0x10010010 0x10010008) twoFree = false := by
  have hlink : readWord (writeWord (fun _ => 0) 0x10010010 0x10010008) 0x10010010 = 0x10010008 :=
    readWord_writeWord (by decide)
  have hmid : ¬ SlotStart twoFree 0x10010008 := by
    rintro ⟨i, -, he⟩
    have he : 0x10010008 = 0x10010000 + i * 16 := he
    omega
  have hnot : ∀ {x}, Aliased twoFree x → 0x10110000 ≤ x := by
    rintro x ⟨i, n, -, rfl⟩
    have : 0x10110000 ≤ 0x10010000 + (i + (n + 1) * 2 ^ 16) * 16 := by omega
    exact this
  refine (((heap_checker_iff twoFree (by decide) (by decide) (by decide)).2.1 _).2.2.mpr ?_).2 ?_
  · rintro ⟨-, hal | ⟨-, hrest⟩⟩
    · exact absurd (hnot hal) (by decide)
    · rw [show twoFree.localFree = 0x10010010 from rfl, hlink] at hrest
      rcases hrest.2 with hal | ⟨hslot, -⟩
      · exact absurd (hnot hal) (by decide)
      · exact hmid hslot
  · refine .later (by decide) ?_
    rw [show twoFree.localFree = 0x10010010 from rfl, hlink]
    exact .here (by decide) hmid

/-- The same page in a heap, its list led to an address 1 MB behind the first slot. -/
def strayHeap : State :=
  { State.initial (.page4k true) with
    mem := writeWord (fun _ => 0) 0x10010010 0x10110000
    segs := upd (fun _ => none) 0x10000000 (some ⟨1, 0, none, none⟩)
    pages := upd (fun _ => {}) ⟨0x10000000, 1⟩ twoFree
    arenas := upd (fun _ => {}) 0 { segments := some 0x10000000, segmentCount := 1 } }

/-- The checker takes the address for the first slot, reads the word there and reports
nothing. -/
theorem checker_follows_alias :
    debugSlotIndex twoFree 0x10110000 = 0 ∧ ¬ SlotStart twoFree 0x10110000 ∧
    Leaves strayHeap.mem twoFree twoFree.localFree ∧
    (walkVisit strayHeap.mem twoFree (twoFree.capacity + 1) twoFree.localFree 0).2.2 =
      [0x10010010, 0x10110000] ∧
    passes (debugHeapCheck strayHeap) id = true := by
  have hlink : readWord strayHeap.mem 0x10010010 = 0x10110000 := readWord_writeWord (by decide)
  have hstray : ¬ SlotStart twoFree 0x10110000 := by
    rintro ⟨i, hi, he⟩
    have hi : i < 4096 := hi
    have he : 0x10110000 = 0x10010000 + i * 16 := he
    omega
  refine ⟨by decide +kernel, hstray, .later (by decide) ?_, by decide +kernel, by decide +kernel⟩
  rw [show twoFree.localFree = 0x10010010 from rfl, hlink]
  exact .here (by decide) hstray

end CustomMalloc

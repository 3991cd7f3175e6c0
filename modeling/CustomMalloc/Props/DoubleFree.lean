import CustomMalloc.SlabRun
import CustomMalloc.Outgrow

/-!
# Double frees are detected exactly

In a `MALLOC_DEBUG` build every page has a bitmap, and `slab_free` looks at it
before it touches anything else. The runs here are not tame: `slab_free` may be
given any pointer, live or not, as long as it does not lie in the header page of a
segment. What the clients hold decides which of these calls get past the check
(`double_free_exact`).

`slabFreeCheck` is the first half of `slab_free` together with the state the check
leaves behind, also when it is about to abort: `debug_check_and_mark_freed` clears
the bit first and looks at its old value afterwards.

The check is part of the page, and `slab_free` finds pages through the registry. In
a segment the registry has no room for nothing is checked (`double_free_missed`).
-/

namespace CustomMalloc

open Lib.Words Lib.Bytes Lib.Post

variable {c : Cfg} {σ σ' : Sys} {s : State} {G : Ghost} {m : Mem} {r : PageRef} {p : PageMeta}
  {busy : List Nat} {x : Nat}

/-! ## The check, and what it leaves behind -/

/-- `debug_check_and_mark_freed`: the page at the end of the call, and the diagnostic
if it aborts. -/
def debugFreed (p : PageMeta) (ptr : Nat) : PageMeta × Option Diag :=
  let idx := debugSlotIndex p ptr
  if idx = 2 ^ 16 - 1 then (p, some .invalidFree)
  else
    -- `atomic_fetch_and` comes before the test of the old value
    ({ p with
        debugBitmap :=
          upd p.debugBitmap (idx / 8) (p.debugBitmap (idx / 8) &&& (255 - 2 ^ (idx % 8))) },
      if p.bit idx then none else some .doubleFree)

theorem debugCheckAndMarkFreed_eq (p : PageMeta) (ptr : Nat) :
    debugCheckAndMarkFreed p ptr =
      match (debugFreed p ptr).2 with
      | none => .ok (debugFreed p ptr).1
      | some d => .error (.abort d) := by
  unfold debugCheckAndMarkFreed debugFreed
  simp only
  split
  next => rfl
  next =>
    cases hbit : p.bit (debugSlotIndex p ptr) <;> rfl

/-- How the first half of `slab_free` ends. -/
inductive CheckResult where
  /-- there is no page to check, and `slab_free` returns -/
  | skipped
  | passed (r : PageRef)
  | aborted (d : Diag)
  deriving DecidableEq, Repr

/-- `slab_free` of a debug build up to the check. -/
def slabFreeCheck (s : State) (ptr : Nat) : State × CheckResult :=
  if ptr = 0 then (s, .skipped)
  else if ptrToSegment s ptr = 0 then (s, .skipped)
  else
    match ptrToPage s ptr with
    | none => (s, .skipped)
    | some r =>
      if (s.pages r).state = .unused then (s, .skipped)
      else
        (s.setPage r (debugFreed (s.pages r) ptr).1,
          match (debugFreed (s.pages r) ptr).2 with
          | none => .passed r
          | some d => .aborted d)

/-- `slab_free` after the check. -/
def slabFreeRest (c : Cfg) (s : State) (t : Nat) (r : PageRef) (ptr : Nat) : Except Halt State :=
  match tldGet c s t with
  | (some tld, s') =>
    if (s.pages r).ownerTid = tld.threadId then freeLocal s' t tld r (s.pages r) ptr
    else .ok (freeRemote s' r (s.pages r) ptr)
  | (none, s') => .ok (freeRemote s' r (s.pages r) ptr)

/-- `slab_free` is its two halves. -/
theorem slabFree_eq_check (hdebug : c.debug = true) (s : State) (t ptr : Nat) :
    slabFree c s t ptr =
      match (slabFreeCheck s ptr).2 with
      | .skipped => .ok s
      | .passed r => slabFreeRest c (slabFreeCheck s ptr).1 t r ptr
      | .aborted d => .error (.abort d) := by
  unfold slabFree slabFreeCheck
  by_cases h0 : ptr = 0
  · simp only [if_pos h0]
    rfl
  by_cases hseg : ptrToSegment s ptr = 0
  · simp only [if_neg h0, if_pos hseg]
    rfl
  simp only [if_neg h0, if_neg hseg]
  rcases hpage : ptrToPage s ptr with _ | r
  · rfl
  by_cases hun : (s.pages r).state = .unused
  · simp only [if_pos hun]
    rfl
  simp only [if_neg hun, markFreed, hdebug, if_true, debugCheckAndMarkFreed_eq]
  rcases hfreed : debugFreed (s.pages r) ptr with ⟨p', _ | d⟩
  · have hsame : (s.setPage r p').pages r = p' := upd_same ..
    simp only [slabFreeRest, hsame]
    rfl
  · rfl

/-! ## One page -/

/-- Inside the page, the valid indices are those of the slots. -/
theorem debugSlotIndex_valid (g : Geom r p) (h₁ : r.start ≤ x) (h₂ : x < r.start + 65536)
    (hidx : debugSlotIndex p x ≠ 2 ^ 16 - 1) : ∃ i, i < p.capacity ∧ x = slotAt r p i := by
  have hge := g.slot_ge
  unfold debugSlotIndex at hidx
  rw [g.pageStart_eq] at hidx
  simp only [if_neg (Nat.not_lt.mpr h₁)] at hidx
  split at hidx
  next => exact absurd rfl hidx
  next hdvd =>
    split at hidx
    next hlt =>
      have hquot : (x - r.start) / p.slotSize < 2 ^ 16 :=
        Nat.lt_of_le_of_lt (Nat.div_le_self ..) (by omega)
      rw [Nat.mod_eq_of_lt hquot] at hlt
      refine ⟨(x - r.start) / p.slotSize, hlt, ?_⟩
      have hmul := Nat.div_mul_cancel (Nat.dvd_of_mod_eq_zero (Decidable.not_not.mp hdvd))
      unfold slotAt
      omega
    next => exact absurd rfl hidx

/-- The check lets exactly the busy slots pass. -/
theorem PageInv.debugFreed_iff (h : PageInv true m r p busy) (h₁ : r.start ≤ x)
    (h₂ : x < r.start + 65536) : (debugFreed p x).2 = none ↔ x ∈ busy := by
  have hcap := h.geom.cap_le
  unfold debugFreed
  constructor
  · intro hpass
    by_cases hidx : debugSlotIndex p x = 2 ^ 16 - 1
    · simp [hidx] at hpass
    · obtain ⟨i, hi, rfl⟩ := debugSlotIndex_valid h.geom h₁ h₂ hidx
      rw [debugSlotIndex_slotAt h.geom hi] at hpass hidx
      simp only [if_neg hidx] at hpass
      refine (h.bits rfl i).mp ?_
      by_contra hclear
      rw [if_neg (show ¬ p.bit i = true from hclear)] at hpass
      cases hpass
  · intro hx
    obtain ⟨i, hi, rfl⟩ := h.busy_slot hx
    have hbit : p.bit i = true := (h.bits rfl i).mpr hx
    rw [debugSlotIndex_slotAt h.geom hi]
    simp only [if_neg (show ¬ i = 2 ^ 16 - 1 by omega), hbit, if_true]

/-- A check that is about to abort has not changed a bit. -/
theorem debugFreed_aborts {d : Diag} (h : (debugFreed p x).2 = some d) :
    ∃ bm, (debugFreed p x).1 = { p with debugBitmap := bm } ∧
      ∀ i, bitAt bm i = bitAt p.debugBitmap i := by
  unfold debugFreed at h ⊢
  simp only at h ⊢
  split at h
  next hidx =>
    rw [if_pos hidx]
    exact ⟨p.debugBitmap, rfl, fun _ => rfl⟩
  next hidx =>
    rw [if_neg hidx]
    refine ⟨_, rfl, ?_⟩
    intro i
    rw [bitAt_clear]
    by_cases hi : i = debugSlotIndex p x
    · -- the bit was clear before
      have hclear : bitAt p.debugBitmap i = false := by
        rw [hi]
        by_contra hset
        have hset : p.bit (debugSlotIndex p x) = true := Bool.not_eq_false _ ▸ hset
        rw [if_pos hset] at h
        cases h
      rw [hclear]
      rfl
    · simp [hi]

/-! ## The runs -/

/-- The clients hold a slot of page `r` exactly if it is busy. -/
theorem SlabHolds.mem_busy_iff (h : SlabHolds c σ G) (hd : IsData σ.heap.segs r)
    (h₁ : r.start ≤ x) (h₂ : x < r.start + 65536) : x ∈ G.busy r ↔ x ∈ σ.ptrs :=
  ⟨h.exact r x, fun hx => h.toHolds.busy hx hd h₁ h₂⟩

/-- No bit of a bitmap and nothing else has changed. -/
def SameBits (s s' : State) (r : PageRef) : Prop :=
  ∃ bm, s' = s.setPage r { s.pages r with debugBitmap := bm } ∧
    ∀ i, bitAt bm i = bitAt (s.pages r).debugBitmap i

/-- The check of a pointer into an active page of a registered segment. -/
structure CheckExact (c : Cfg) (σ : Sys) (r : PageRef) (x : Nat) : Prop where
  passes : x ∈ σ.ptrs → (slabFreeCheck σ.heap x).2 = .passed r ∧
    ∀ t, slabFree c σ.heap t x = slabFreeRest c (slabFreeCheck σ.heap x).1 t r x
  aborts : x ∉ σ.ptrs → ∃ d, (slabFreeCheck σ.heap x).2 = .aborted d ∧
    SameBits σ.heap (slabFreeCheck σ.heap x).1 r ∧ ∀ t, slabFree c σ.heap t x = .error (.abort d)

theorem SlabHolds.checkExact (h : SlabHolds c σ G) (hdebug : c.debug = true)
    (hd : IsData σ.heap.segs r) (hact : (σ.heap.pages r).state = .active)
    (hreg : segmentIsRegistered σ.heap.segmentRegistry r.seg = true) (h₁ : r.start ≤ x)
    (h₂ : x < r.start + 65536) : CheckExact c σ r x := by
  obtain ⟨hinv, -⟩ := h.inv.active hd hact
  rw [hdebug] at hinv
  obtain ⟨hseg, hpage⟩ := h.inv.ptrToPage_eq hd h₁ h₂
  rw [if_pos hreg] at hseg hpage
  obtain ⟨g, hg⟩ := Option.isSome_iff_exists.mp hd.1
  have hpos := (h.inv.segOk hg).pos
  have hstart := hinv.geom.start_pos
  have hcheck : slabFreeCheck σ.heap x =
      (σ.heap.setPage r (debugFreed (σ.heap.pages r) x).1,
        match (debugFreed (σ.heap.pages r) x).2 with
        | none => .passed r
        | some d => .aborted d) := by
    unfold slabFreeCheck
    rw [if_neg (by omega), if_neg (by omega), hpage]
    simp only [hact]
    rfl
  have hiff := hinv.debugFreed_iff h₁ h₂
  rw [h.mem_busy_iff hd h₁ h₂] at hiff
  constructor
  · intro hx
    have hpass : (slabFreeCheck σ.heap x).2 = .passed r := by
      rw [hcheck]
      simp only [hiff.mpr hx]
    refine ⟨hpass, fun t => ?_⟩
    rw [slabFree_eq_check hdebug, hpass]
  · intro hx
    rcases hd' : (debugFreed (σ.heap.pages r) x).2 with _ | d
    · exact absurd (hiff.mp hd') hx
    · obtain ⟨bm, hbm, hsame⟩ := debugFreed_aborts hd'
      have habort : (slabFreeCheck σ.heap x).2 = .aborted d := by
        rw [hcheck]
        simp only [hd']
      refine ⟨d, habort, ⟨bm, ?_, hsame⟩, fun t => ?_⟩
      · rw [hcheck]
        simp only [hbm]
      · rw [slabFree_eq_check hdebug, habort]

/-- A step of a run in which `slab_free` is given any pointer. -/
inductive AnyFreeStep (c : Cfg) (P : Sys → SlabOp → Prop) : Sys → Sys → Prop
  | alloc {σ σ' : Sys} (t size : Nat) (ans : List (Option Nat)) (q : Nat) (hsize : size < 2 ^ 64)
      (hP : P σ (.alloc size)) (he : σ.slabCall c t (.alloc size) ans = .ok (q, σ')) :
      AnyFreeStep c P σ σ'
  | free {σ σ' : Sys} (t x : Nat) (ans : List (Option Nat)) (q : Nat) (hword : x < 2 ^ 64)
      (hlow : LowPtr σ.heap x) (hP : P σ (.free x))
      (he : σ.slabCall c t (.free x) ans = .ok (q, σ')) : AnyFreeStep c P σ σ'
  | write {σ : Sys} (m : Mem) (hm : ∀ y, m y ≠ σ.heap.mem y → σ.Owns y) :
      AnyFreeStep c P σ { σ with heap := { σ.heap with mem := m } }

/-- The states of these runs. -/
def AnyFreeReachable (c : Cfg) (P : Sys → SlabOp → Prop) (σ : Sys) : Prop :=
  Relation.ReflTransGen (AnyFreeStep c P) (Sys.initial c) σ

/-- A pointer into a segment lies in a data page, and the segment is registered. -/
def Tracked (s : State) (x : Nat) : Prop :=
  ∀ b, (s.segs b).isSome → b ≤ x → x < b + segmentSize →
    segmentIsRegistered s.segmentRegistry b = true ∧ b + pageSizeAlloc ≤ x

/-- No size wraps on its way to the large allocator, and freed pointers are tracked. -/
def SlabOp.Tracked (c : Cfg) (σ : Sys) : SlabOp → Prop
  | .alloc size => LargeFits c size 16
  | .free x => CustomMalloc.Tracked σ.heap x

/-- A tracked pointer that `ptr_to_segment` finds lies in a data page. -/
theorem Inv.page_of_tracked (h : Inv c s G) (hword : x < 2 ^ 64) (htr : Tracked s x)
    (hseg : ptrToSegment s x ≠ 0) :
    ∃ r, IsData s.segs r ∧ r.start ≤ x ∧ x < r.start + 65536 ∧
      segmentIsRegistered s.segmentRegistry r.seg = true := by
  have hmask := and_highMask (k := 22) (by decide) hword
  unfold ptrToSegment at hseg
  simp only [show segmentSize = 2 ^ 22 from rfl, hmask] at hseg
  split at hseg
  next hreg =>
    obtain ⟨i, hi⟩ := (segmentIsRegistered_iff.mp hreg).mem
    have hsome := h.registry.seg i (by rw [hi]; exact hseg)
    rw [hi] at hsome
    obtain ⟨-, hdata⟩ := htr _ hsome (by omega) (by simp only [segmentSize]; omega)
    simp only [pageSizeAlloc] at hdata
    refine ⟨⟨x / 2 ^ 22 * 2 ^ 22, (x - x / 2 ^ 22 * 2 ^ 22) / 65536⟩, ⟨hsome, ?_, ?_⟩, ?_, ?_,
      hreg⟩ <;>
      simp only [PageRef.start] <;> omega
  next => exact absurd rfl hseg

/-- A free that returns was given a live block, or did nothing. -/
theorem SlabHolds.free_returns (h : SlabHolds c σ G) (hdebug : c.debug = true) (hword : x < 2 ^ 64)
    (htr : Tracked σ.heap x) {t : Nat} {s' : State} (he : slabFree c σ.heap t x = .ok s') :
    (x ∈ σ.ptrs ∧ Findable σ.heap x) ∨ s' = σ.heap ∧ (x ∉ σ.ptrs ∨ ∀ r, x ∉ G.busy r) := by
  by_cases hseg : ptrToSegment σ.heap x = 0
  · rw [slabFree_ignored hseg] at he
    refine Or.inr ⟨(Except.ok.inj he).symm, Or.inr fun r hx => ?_⟩
    -- a busy slot is found
    obtain ⟨hd, hinv⟩ := h.inv.busy_active hx
    obtain ⟨b₁, b₂, -⟩ := hinv.busy_in hx
    have hge := hinv.geom.slot_ge
    have hidx := hd.2
    obtain ⟨g, hg⟩ := Option.isSome_iff_exists.mp hd.1
    have hpos := (h.inv.segOk hg).pos
    simp only [PageRef.start] at b₁ b₂
    have hreg := (htr r.seg hd.1 (by omega) (by simp only [segmentSize]; omega)).1
    rw [(h.inv.ptrToPage_slab hx).1, if_pos hreg] at hseg
    omega
  · obtain ⟨r, hd, h₁, h₂, hreg⟩ := h.inv.page_of_tracked hword htr hseg
    by_cases hx : x ∈ σ.ptrs
    · exact Or.inl ⟨hx, Or.inr hseg⟩
    refine Or.inr ⟨?_, Or.inl hx⟩
    by_cases hact : (σ.heap.pages r).state = .active
    · obtain ⟨d, -, -, habort⟩ := (h.checkExact hdebug hd hact hreg h₁ h₂).aborts hx
      rw [habort t] at he
      cases he
    · have hun : (σ.heap.pages r).state = .unused := by
        obtain ⟨g, hg⟩ := Option.isSome_iff_exists.mp hd.1
        cases h.inv.pages.data hg hd.2.1 hd.2.2 with
        | unused hs _ _ _ => exact hs
        | active inv _ => exact absurd inv.geom.active hact
      have hskip : slabFreeCheck σ.heap x = (σ.heap, .skipped) := by
        unfold slabFreeCheck
        rw [(h.inv.ptrToPage_eq hd h₁ h₂).2, if_pos hreg]
        simp only [hun, if_neg hseg, if_true, ite_self]
      rw [slabFree_eq_check hdebug, hskip] at he
      exact (Except.ok.inj he).symm

theorem anyFreeStep_holds (hdebug : c.debug = true) (h : ∃ G, SlabHolds c σ G)
    (hs : AnyFreeStep c (fun σ op => op.Tracked c σ) σ σ') : ∃ G, SlabHolds c σ' G := by
  cases hs with
  | alloc t size ans q hsize hP he =>
    exact slabStep_holds (P := fun _ σ op => op.Safe c σ) (fun _ _ _ hs => hs) h
      (.call t (.alloc size) ans q trivial hsize hP he)
  | free t x ans q hword hlow hP he =>
    obtain ⟨G, h⟩ := h
    obtain ⟨hexec, hlive⟩ := Sys.slabCall_ok he
    obtain ⟨s', live'⟩ := σ'
    simp only at hexec hlive
    subst hlive
    have hw := h.withAnswers ans
    obtain ⟨s₁, hfree, heq⟩ := bind_eq_ok hexec
    obtain rfl : s₁ = s' := congrArg Prod.snd (Except.ok.inj heq)
    rcases hw.free_returns hdebug hword hP hfree with ⟨hx, hf⟩ | ⟨hsame, hno⟩
    · have hpost := slabFree_holds hw (t := t) hlow (Or.inr hx) (Or.inr hf)
      exact (ensures_elim hpost hfree :)
    · subst hsame
      refine ⟨G, hw.toHolds.drop hw.inv Keeps.refl, ?_⟩
      intro r y hy
      refine mem_ptrs_dropPtr.mpr ⟨h.exact r y hy, fun hxy => ?_⟩
      subst hxy
      rcases hno with hno | hno
      · exact hno (h.exact r y hy)
      · exact hno r hy
  | write m hm =>
    obtain ⟨G, h⟩ := h
    exact ⟨G, h.toHolds.write hm, h.exact⟩

theorem anyFreeReachable_holds (hdebug : c.debug = true)
    (h : AnyFreeReachable c (fun σ op => op.Tracked c σ) σ) : ∃ G, SlabHolds c σ G := by
  induction h with
  | refl => exact ⟨_, initial_slabHolds c⟩
  | tail _ hs ih => exact anyFreeStep_holds hdebug ih hs

/-! ## Allocation -/

/-- `slab_alloc` never aborts: no mark is set twice. -/
theorem SlabHolds.alloc_never_aborts (h : SlabHolds c σ G) (t size : Nat) (d : Diag) :
    slabAlloc c σ.heap t size ≠ .error (.abort d) := by
  intro he
  by_cases hsize : size ≤ 131072
  · have hspec := slabAlloc_spec h.inv (t := t) (largeFits_small hsize)
    rw [he] at hspec
    cases hspec.1
  · -- the large allocator marks nothing
    rw [slabAlloc_rerouted c _ t (by omega) fun hs => hsize hs.1] at he
    exact absurd (largeAllocAligned_error he) (by simp)

/-! ## The result -/

/-- In every run of a debug build whose frees are tracked, the bits are the live slots. A pointer
into an active page passes the check exactly if it is a live slot, and otherwise `slab_free`
aborts before anything has changed. `slab_alloc` never aborts. -/
theorem double_free_exact (c : Cfg) (hdebug : c.debug = true) (σ : Sys)
    (h : AnyFreeReachable c (fun σ op => op.Tracked c σ) σ) (ans : List (Option Nat)) :
    (∀ r, IsData σ.heap.segs r → (σ.heap.pages r).state = .active →
      (∀ i < (σ.heap.pages r).capacity,
        (σ.heap.pages r).bit i = true ↔ slotAt r (σ.heap.pages r) i ∈ σ.ptrs) ∧
      (segmentIsRegistered σ.heap.segmentRegistry r.seg = true →
        ∀ x, r.start ≤ x → x < r.start + 65536 →
          CheckExact c ⟨σ.heap.withAnswers ans, σ.live⟩ r x)) ∧
    ∀ t size d, slabAlloc c (σ.heap.withAnswers ans) t size ≠ .error (.abort d) := by
  obtain ⟨G, hh⟩ := anyFreeReachable_holds hdebug h
  have hw := hh.withAnswers ans
  refine ⟨?_, fun t size d => hw.alloc_never_aborts t size d⟩
  intro r hd hact
  obtain ⟨hinv, -⟩ := hh.inv.active hd hact
  refine ⟨?_, fun hreg x h₁ h₂ => hw.checkExact hdebug hd hact hreg h₁ h₂⟩
  intro i hi
  have hge := hinv.geom.slot_ge
  obtain ⟨h₁, h₂⟩ := hinv.geom.slot_in hi
  rw [← hh.mem_busy_iff hd h₁ (by omega)]
  exact hinv.bits hdebug i

/-- What `ptr_to_segment` finds, outside the header page, is tracked. -/
theorem Inv.tracked (h : Inv c s G) (hword : x < 2 ^ 64) (hseg : ptrToSegment s x ≠ 0)
    (hpage : ptrToSegment s x + pageSizeAlloc ≤ x) : Tracked s x := by
  intro b hb h₁ h₂
  obtain ⟨g, hg⟩ := Option.isSome_iff_exists.mp hb
  obtain ⟨q, hq⟩ := (h.segOk hg).al
  have hmask := and_highMask (k := 22) (by decide) hword
  unfold ptrToSegment at hseg hpage
  simp only [show segmentSize = 2 ^ 22 from rfl, hmask] at hseg hpage h₂
  have hbase : x / 2 ^ 22 * 2 ^ 22 = b := by omega
  rw [hbase] at hseg hpage
  split at hseg
  next hreg =>
    rw [if_pos hreg] at hpage
    exact ⟨hreg, hpage⟩
  next => exact absurd rfl hseg

theorem AnyFreeReachable.after {P : Sys → SlabOp → Prop} (h : AnyFreeReachable c P σ) (t size : Nat)
    (ans : List (Option Nat)) (hsize : size < 2 ^ 64) (hP : P σ (.alloc size)) :
    AnyFreeReachable c P (σ.slabAfter c t (.alloc size) ans) := by
  unfold Sys.slabAfter
  split
  next q σ' he => exact h.tail (.alloc t size ans q hsize hP he)
  next => exact h

/-- Two slots of a page are handed out. -/
def twoHanded : Sys :=
  let c := Cfg.page4k true
  ((Sys.initial c).slabAfter c 0 (.alloc 32000) [some 0x10000000, some 0x20000000]).slabAfter c 0
    (.alloc 32000) []

/-- The first of them is given back, by another thread. -/
def firstReturned : Sys :=
  twoHanded.slabAfter (.page4k true) 1 (.free 0x20010000) [some 0x30000000]

theorem firstReturned_reachable :
    AnyFreeReachable (.page4k true) (fun σ op => op.Tracked (.page4k true) σ) firstReturned := by
  have h : AnyFreeReachable (.page4k true) (fun σ op => op.Tracked (.page4k true) σ) twoHanded :=
    (AnyFreeReachable.after .refl 0 32000 [some 0x10000000, some 0x20000000] (by decide)
      (largeFits_small (by decide))).after 0 32000 [] (by decide) (largeFits_small (by decide))
  obtain ⟨G, hh⟩ := anyFreeReachable_holds rfl h
  have htr : Tracked twoHanded.heap 0x20010000 :=
    hh.inv.tracked (by decide) (by decide +kernel) (by decide +kernel)
  unfold firstReturned Sys.slabAfter
  split
  next q σ' he =>
    exact h.tail (.free 1 0x20010000 [some 0x30000000] q (by decide)
      (fun _ _ _ _ => by decide) htr he)
  next => exact h

/-- The slot that was given back is refused, the other one is not. -/
theorem double_free_exact_two_slots :
    (∃ d, ∀ t, slabFree (.page4k true) (firstReturned.heap.withAnswers []) t 0x20010000 =
      .error (.abort d)) ∧
    (slabFreeCheck (firstReturned.heap.withAnswers []) 0x20017ED0).2 = .passed ⟨0x20000000, 1⟩ ∧
    (firstReturned.heap.pages ⟨0x20000000, 1⟩).bit 0 = false ∧
    (firstReturned.heap.pages ⟨0x20000000, 1⟩).bit 1 = true := by
  obtain ⟨hpages, -⟩ :=
    double_free_exact (.page4k true) rfl firstReturned firstReturned_reachable []
  obtain ⟨-, hcheck⟩ := hpages ⟨0x20000000, 1⟩ ⟨by decide +kernel, by decide, by decide⟩
    (by decide +kernel)
  have hreg : segmentIsRegistered firstReturned.heap.segmentRegistry 0x20000000 = true := by
    decide +kernel
  obtain ⟨d, -, -, habort⟩ := (hcheck hreg 0x20010000 (by decide) (by decide)).aborts
    (by decide +kernel)
  exact ⟨⟨d, habort⟩,
    ((hcheck hreg 0x20017ED0 (by decide) (by decide)).passes (by decide +kernel)).1,
    by decide +kernel, by decide +kernel⟩

/-- After `slab_alloc(32000)` often enough, some live block lies in a segment that is not
registered. It can be freed twice: both calls return, and its bit stays set. -/
theorem double_free_missed :
    ∃ σ, AnyFreeReachable (.page4k true) (fun _ _ => True) σ ∧ ∃ x r i,
      IsData σ.heap.segs r ∧ (σ.heap.pages r).state = .active ∧ i < (σ.heap.pages r).capacity ∧
      x = slotAt r (σ.heap.pages r) i ∧ x ∉ σ.ptrs ∧ (σ.heap.pages r).bit i = true ∧
      ∀ t, slabFree (.page4k true) σ.heap t x = .ok σ.heap := by
  obtain ⟨σ, G, hσ, hh, x, hx, hlow, hlost⟩ := exists_lost true
    (R := AnyFreeReachable (.page4k true) fun _ _ => True) .refl
    fun σ ans p s' hσ he hp => by
      refine hσ.tail (.alloc 0 32000 ans p (by decide) trivial ?_)
      simp only [Sys.slabCall, slabExec, he, slabLive, addPtr, bind, Except.bind, if_neg hp, pure,
        Except.pure]
  obtain ⟨r, hr, hreg⟩ := hlost
  have hw := hh.withAnswers []
  obtain ⟨hd, hinv⟩ := hw.inv.busy_active hr
  obtain ⟨i, hi, hxi⟩ := hinv.busy_slot hr
  have hseg : ptrToSegment (σ.heap.withAnswers []) x = 0 := by
    rw [(hw.inv.ptrToPage_slab hr).1]
    exact if_neg (Bool.eq_false_iff.mp hreg)
  -- the first free returns and changes nothing
  have hcall : σ.slabCall (.page4k true) 0 (.free x) [] =
      .ok (0, ⟨σ.heap.withAnswers [], dropPtr x σ.live⟩) := by
    simp only [Sys.slabCall, slabExec, slabFree_ignored hseg, bind, Except.bind, pure, Except.pure,
      slabLive]
  refine ⟨_, hσ.tail (.free 0 x [] 0 (by omega) (fun _ _ _ _ => hlow) trivial hcall), x, r, i, hd,
    hinv.geom.active, hi, hxi, ?_, ?_, fun t => slabFree_ignored hseg⟩
  · intro hmem
    exact (mem_ptrs_dropPtr.mp hmem).2 rfl
  · refine (hinv.bits rfl i).mpr ?_
    rw [← hxi]
    exact hr

end CustomMalloc

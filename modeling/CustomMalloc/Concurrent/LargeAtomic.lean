import CustomMalloc.Concurrent.LargeSteps

/-!
# Where a large call takes effect

The abstract object is the list of blocks of `LargeSet`. A call of `large_alloc_aligned` takes
effect with the write to `large_list`, or when `os_mmap_aligned` fails; `large_free` with its write
to `large_list`, and `large_find` when it finds the mapping, or either when the walk ends without
one. Every other step leaves the object alone (`LargeInv.sim`).
-/

namespace CustomMalloc

open Lib.Words Lib.Chain Lib.Regions Lib.Intervals Lib.Hands Lib.Atomic

variable {c : Cfg} {n : Nat} {σ σ' : LargeSys n} {t : Fin n} {pc pc' : LargePc} {b x : Nat}
  {larges larges' : Nat → Option LargeAlloc} {nodes : List Nat} {B : List Range}

/-! ## The object -/

/-- What one call does to the blocks, and what it answers. -/
def LargeSpec (c : Cfg) (B : List Range) : LargeCall → LargeAnswer → List Range → Prop
  | .alloc size alignment, r, B' =>
    ∃ p, r = .ptr p ∧ B' = afterAlloc c B size alignment p ∧ B'.Pairwise Range.Apart
  | .free x, r, B' => r = .none ∧ B' = afterFree B x
  | .find x, r, B' => r = .header ((B.find? fun r => r.contains x).map Prod.fst) ∧ B' = B

/-- The blocks with these headers. -/
def rangesOf (larges : Nat → Option LargeAlloc) (nodes : List Nat) : List Range :=
  nodes.map fun b => (b, fieldAt LargeAlloc.size larges b)

/-- The blocks in the list. -/
def LargeSys.blocks (σ : LargeSys n) : List Range := rangesOf σ.heap.larges σ.nodes

/-- The call of a walker. -/
def Walker.call (x : Nat) : Walker → LargeCall
  | .free => .free x
  | .find => .find x

/-- What a walker that found nothing answers. -/
def Walker.nothing : Walker → LargeAnswer
  | .free => .none
  | .find => .header none

/-- A call that has not taken effect yet, or its answer. -/
def LargePc.status : LargePc → Status LargeCall LargeAnswer
  | .idle => .idle
  | .map size alignment => .pending (.alloc size alignment)
  | .lock k | .setNext k | .setPrev k | .backLink k | .setHead k =>
    .pending (.alloc k.size k.alignment)
  | .unlock k | .addBytes k | .addCount k => .done (.ptr k.ptr)
  | .ret p => .done (.ptr p)
  | .enter x | .unPrev x _ | .unNext x _ | .unHead x _ => .pending (.free x)
  | .walkLock w x | .walkHead w x | .walkTest w x _ | .walkNext w x _ => .pending (w.call x)
  | .walkMiss w _ => .done w.nothing
  | .found _ b => .done (.header (some b))
  | .answer b => .done (.header b)
  | .sizes _ | .freeUnlock .. | .subBytes .. | .subCount .. | .unmap .. | .freed => .done .none

/-- The object that the callers see. -/
def LargeSys.view (σ : LargeSys n) : Object (Fin n) (List Range) LargeCall LargeAnswer :=
  ⟨σ.blocks, fun t => (σ.pcs t).status⟩

/-! ## Blocks -/

theorem rangesOf_frame (h : ∀ y ∈ nodes, larges' y = larges y) :
    rangesOf larges' nodes = rangesOf larges nodes := by
  refine List.map_congr_left fun y hy => ?_
  unfold fieldAt
  rw [h y hy]

theorem rangesOf_relinked (h : Relinked larges larges') :
    rangesOf larges' nodes = rangesOf larges nodes :=
  List.map_congr_left fun y _ => by rw [h.fieldAt linkFree_size]

theorem LargeInv.get (h : LargeInv c σ) (hb : b ∈ σ.nodes) :
    ∃ la, σ.heap.larges b = some la ∧ HeaderOk c b la := by
  obtain ⟨la, hla⟩ := Option.isSome_iff_exists.mp ((h.known b).mpr (Or.inl hb))
  exact ⟨la, hla, h.headers b la hla⟩

/-- A block contains `x` exactly if its mapping does. -/
theorem LargeInv.range_contains (h : LargeInv c σ) (hb : b ∈ σ.nodes) :
    Range.contains (b, fieldAt LargeAlloc.size σ.heap.larges b) x = true ↔
      InMapping σ.heap.larges b x := by
  obtain ⟨la, hla, -⟩ := h.get hb
  rw [Range.contains, Bool.and_eq_true, decide_eq_true_eq, decide_eq_true_eq, fieldAt_of_some hla]
  constructor
  · intro hx
    exact ⟨la, hla, hx⟩
  · rintro ⟨la', hla', hx⟩
    rwa [Option.some.inj (hla.symm.trans hla')]

/-- The blocks do not overlap. -/
theorem LargeInv.blocks_apart (h : LargeInv c σ) : σ.blocks.Pairwise Range.Apart := by
  refine List.pairwise_map.mpr (h.holders.nodup.imp_of_mem fun {b b'} hb hb' hne => ?_)
  obtain ⟨la, hla, hok⟩ := h.get hb
  obtain ⟨la', hla', hok'⟩ := h.get hb'
  have h₁ := hok.fits
  have h₂ := hok'.fits
  rw [Range.Apart, fieldAt_of_some hla, fieldAt_of_some hla']
  exact h.layout.ranges_apart hne (by omega) (by omega) (fun x h₁ h₂ => ⟨la, hla, h₁, h₂⟩)
    fun x h₁ h₂ => ⟨la', hla', h₁, h₂⟩

/-- `large_free` of a pointer into `b` takes `b` away. -/
theorem LargeInv.afterFree_erase (h : LargeInv c σ) (hin : InMapping σ.heap.larges b x) :
    rangesOf σ.heap.larges (σ.nodes.erase b) = afterFree σ.blocks x := by
  have hiff : ∀ y ∈ σ.nodes,
      (!Range.contains (y, fieldAt LargeAlloc.size σ.heap.larges y) x) = (y != b) := by
    intro y hy
    have hyx := h.range_contains hy (x := x)
    by_cases hyb : y = b
    · rw [hyx.mpr (hyb ▸ hin), hyb]
      simp
    · have hout : ¬ InMapping σ.heap.larges y x := fun hc => hyb (h.layout.apart hc hin)
      rw [Bool.eq_false_iff.mpr fun hc => hout (hyx.mp hc)]
      simpa using hyb
  unfold LargeSys.blocks rangesOf afterFree
  rw [List.filter_map, h.holders.nodup.erase_eq_filter]
  exact congrArg _ (List.filter_congr fun y hy => (hiff y hy).symm)

/-- No block contains `x`. -/
theorem LargeInv.none_contains (h : LargeInv c σ)
    (hno : ∀ y ∈ σ.nodes, ¬ InMapping σ.heap.larges y x) :
    ∀ r ∈ σ.blocks, r.contains x = false := by
  intro r hr
  obtain ⟨y, hy, rfl⟩ := List.mem_map.mp hr
  exact Bool.eq_false_iff.mpr fun hc => hno y hy ((h.range_contains hy).mp hc)

/-- Then a walker has nothing to do. -/
theorem LargeInv.spec_nothing (h : LargeInv c σ)
    (hno : ∀ y ∈ σ.nodes, ¬ InMapping σ.heap.larges y x) (w : Walker) :
    LargeSpec c σ.blocks (w.call x) w.nothing σ.blocks := by
  have hall := h.none_contains hno
  cases w with
  | free =>
    refine ⟨rfl, (List.filter_eq_self.mpr fun r hr => ?_).symm⟩
    rw [hall r hr]
    rfl
  | find =>
    refine ⟨?_, rfl⟩
    rw [List.find?_eq_none.mpr fun r hr => by simp [hall r hr]]
    rfl

/-- The walker at `b` has found what `large_find` is asked for. -/
theorem LargeInv.spec_found (h : LargeInv c σ) (hb : b ∈ σ.nodes)
    (hin : InMapping σ.heap.larges b x) :
    LargeSpec c σ.blocks (.find x) (.header (some b)) σ.blocks := by
  refine ⟨?_, rfl⟩
  have hx := (h.range_contains hb).mpr hin
  have hmem : (b, fieldAt LargeAlloc.size σ.heap.larges b) ∈ σ.blocks := List.mem_map_of_mem hb
  have hsome : (σ.blocks.find? fun r => r.contains x).isSome = true :=
    List.find?_isSome.mpr ⟨_, hmem, hx⟩
  obtain ⟨r, hr⟩ := Option.isSome_iff_exists.mp hsome
  obtain ⟨y, hy, rfl⟩ := List.mem_map.mp (List.mem_of_find?_eq_some hr)
  have hyx : InMapping σ.heap.larges y x :=
    (h.range_contains hy).mp (by simpa using List.find?_some hr)
  rw [hr, h.layout.apart hin hyx]
  rfl

/-! ## Steps -/

theorem view_status (hpcs : σ'.pcs = upd σ.pcs t pc') :
    σ'.view.status = Function.update σ.view.status t pc'.status := by
  funext j
  by_cases hj : j = t
  · subst hj
    rw [Function.update_self]
    show (σ'.pcs j).status = _
    rw [hpcs, upd_same]
  · rw [Function.update_of_ne hj]
    show (σ'.pcs j).status = (σ.pcs j).status
    rw [hpcs, upd_ne hj]

section Kinds

variable (hpc : σ.pcs t = pc) (hpcs : σ'.pcs = upd σ.pcs t pc')

include hpc hpcs

/-- A step before or after the effect. -/
theorem view_stays (hst : pc'.status = pc.status) (hv : σ'.blocks = σ.blocks) :
    Lib.Atomic.Step (LargeSpec c) σ.view .tau σ'.view := by
  have hview : σ'.view = σ.view := by
    have hstatus : σ'.view.status = σ.view.status := by
      rw [view_status hpcs, hst, ← hpc]
      exact Function.update_eq_self ..
    exact congrArg₂ Object.mk hv hstatus
  rw [hview]
  exact .stay

/-- The step at which the call takes effect. -/
theorem view_effect {op : LargeCall} {r : LargeAnswer} (hp : pc.status = .pending op)
    (hd : pc'.status = .done r) (hs : LargeSpec c σ.blocks op r σ'.blocks) :
    Lib.Atomic.Step (LargeSpec c) σ.view .tau σ'.view := by
  have hview : σ'.view = ⟨σ'.blocks, Function.update σ.view.status t (.done r)⟩ := by
    rw [← hd, ← view_status hpcs]
    rfl
  rw [hview]
  refine .effect (i := t) ?_ hs
  show (σ.pcs t).status = _
  rw [hpc, hp]

/-- The return. -/
theorem view_returns {r : LargeAnswer} (hd : pc.status = .done r) (hi : pc'.status = .idle)
    (hv : σ'.blocks = σ.blocks) : Lib.Atomic.Step (LargeSpec c) σ.view (.ret t r) σ'.view := by
  have hview : σ'.view = { σ.view with status := Function.update σ.view.status t .idle } := by
    rw [← hi, ← view_status hpcs]
    exact congrArg (Object.mk · _) hv
  rw [hview]
  refine .ret (i := t) ?_
  show (σ.pcs t).status = _
  rw [hpc, hd]

end Kinds

/-- A step at a counter. -/
theorem view_counts (hpc : σ.pcs t = pc) (pc' : LargePc) (count bytes : Nat)
    (hst : pc'.status = pc.status) :
    Lib.Atomic.Step (LargeSpec c) σ.view .tau ((σ.onHeap { σ.heap with
      largeAllocCount := count
      largeAllocated := bytes }).goto t pc').view :=
  view_stays hpc rfl hst rfl

/-- A call starts. -/
theorem view_call {op : LargeCall} (hpc : σ.pcs t = .idle) :
    Lib.Atomic.Step (LargeSpec c) σ.view (.call t op) (σ.goto t op.start).view := by
  have hstart : op.start.status = .pending op := by cases op <;> rfl
  have hpcs : (σ.goto t op.start).pcs = upd σ.pcs t op.start := rfl
  have hview : (σ.goto t op.start).view =
      { σ.view with status := Function.update σ.view.status t (.pending op) } := by
    rw [← hstart, ← view_status hpcs]
    rfl
  rw [hview]
  refine .call ?_
  show (σ.pcs t).status = _
  rw [hpc]
  rfl

/-- The write to `large_list` of `large_alloc_aligned`: the new block is in front. -/
theorem LargeInv.spec_alloc (h : LargeInv c σ) {k : NewLarge} (hpc : σ.pcs t = .setHead k) :
    LargeSpec c σ.blocks (.alloc k.size k.alignment) (.ptr k.ptr)
      (rangesOf σ.heap.larges (k.base :: σ.nodes)) := by
  obtain ⟨hplaced, hsize, -⟩ := h.knowsAt hpc
  have hpos := hplaced.pos
  refine ⟨k.ptr, rfl, ?_, (h.setHead hpc).blocks_apart⟩
  rw [afterAlloc, if_neg (by rw [hplaced.ptr]; omega), hplaced.ptr, Nat.add_sub_cancel]
  show (k.base, fieldAt LargeAlloc.size σ.heap.larges k.base) :: _ = _
  rw [hsize]
  rfl

/-- A walker follows a link. -/
theorem LargeInv.sim_arrive (h : LargeInv c σ) {w : Walker} {o : Option Nat} (hpc : σ.pcs t = pc)
    (hst : pc.status = .pending (w.call x))
    (hno : o = none → ∀ y ∈ σ.nodes, ¬ InMapping σ.heap.larges y x) :
    Lib.Atomic.Step (LargeSpec c) σ.view .tau (σ.goto t (.arrive w x o)).view := by
  cases o with
  | none => exact view_effect hpc rfl hst rfl (h.spec_nothing (hno rfl) w)
  | some b => exact view_stays hpc rfl hst.symm rfl

/-- No mapping contains the null pointer. -/
theorem HeadersOk.not_null (h : HeadersOk c larges) (y : Nat) : ¬ InMapping larges y 0 := by
  rintro ⟨la, hla, hle, -⟩
  have hpos := (h y la hla).pos
  omega

/-- A walker that follows a link to the end of the list has seen every header. -/
theorem LargeInv.arrived {w : Walker} (h' : LargeInv c σ')
    (hpc : σ'.pcs t = .walkMiss w x) (hlarges : σ'.heap.larges = σ.heap.larges)
    (hnodes : σ'.nodes = σ.nodes) : ∀ y ∈ σ.nodes, ¬ InMapping σ.heap.larges y x := by
  have hl := (h'.listAt hpc rfl).2
  rwa [hlarges, hnodes] at hl

/-- **Simulation**: a step is a step of the atomic object. -/
theorem LargeInv.sim (h : LargeInv c σ) (he : σ.step c t = some σ') :
    Lib.Atomic.Step (LargeSpec c) σ.view ((σ.pcs t).event t) σ'.view := by
  have h' := h.step he
  unfold LargeSys.step at he
  cases hpc : σ.pcs t with
  | idle =>
    simp only [hpc] at he
    cases he
  | map size alignment =>
    simp only [hpc] at he
    rcases hm : osMmapAligned c σ.heap (largeTotal c size (raisedAlign alignment))
      (if raisedAlign alignment < c.osPage then c.osPage else raisedAlign alignment) with ⟨base, s₁⟩
    have hos := (newLarge_ext (h.knowsAt hpc) hm).headers.1
    rw [hm] at he
    simp only at he
    split at he
    next h0 =>
      cases he
      have hv : rangesOf s₁.larges σ.nodes = σ.blocks := by rw [hos]; rfl
      refine view_effect hpc rfl rfl rfl ⟨0, rfl, hv, ?_⟩
      exact h'.blocks_apart
    next h0 =>
      cases he
      -- the new header is in nobody's sight
      refine view_stays hpc rfl rfl (rangesOf_frame fun y hy => ?_)
      have hne : y ≠ base := by
        rintro rfl
        exact h'.holders.apart (i := t)
          (by rw [LargeSys.hand]; simp [LargeSys.goto, LargePc.hand]) hy
      exact (upd_ne hne).trans (congrFun hos y)
  | lock k | walkLock w x =>
    simp only [hpc] at he
    unfold LargeSys.locks at he
    split at he
    next =>
      cases he
      exact view_stays hpc rfl rfl rfl
    next => cases he
  | setNext k | setPrev k =>
    simp only [hpc] at he
    obtain ⟨s', hs', rfl⟩ := writes_some he
    obtain ⟨la, hla, rfl⟩ := editLarge_some hs'
    exact view_stays hpc rfl rfl (rangesOf_relinked (relinked_upd hla ⟨rfl, rfl, rfl⟩))
  | backLink k =>
    simp only [hpc] at he
    obtain ⟨s', hs', rfl⟩ := writes_some he
    obtain ⟨larges, rfl, hr, -⟩ := editLink_some hs' fun _ => ⟨rfl, rfl, rfl⟩
    exact view_stays hpc rfl rfl (rangesOf_relinked hr)
  | setHead k =>
    simp only [hpc] at he
    cases he
    exact view_effect hpc rfl rfl rfl (h.spec_alloc hpc)
  | unlock k | found x b | freeUnlock b user total =>
    simp only [hpc] at he
    cases he
    exact view_stays hpc rfl rfl rfl
  | addBytes k =>
    simp only [hpc] at he
    cases he
    exact view_counts hpc (.addCount k) σ.heap.largeAllocCount _ rfl
  | addCount k =>
    simp only [hpc] at he
    cases he
    exact view_counts hpc (.ret k.ptr) _ σ.heap.largeAllocated rfl
  | subBytes b user total =>
    simp only [hpc] at he
    cases he
    exact view_counts hpc (.subCount b total) σ.heap.largeAllocCount _ rfl
  | subCount b total =>
    simp only [hpc] at he
    cases he
    exact view_counts hpc (.unmap b total) _ σ.heap.largeAllocated rfl
  | ret p | freed | answer r =>
    simp only [hpc] at he
    cases he
    exact view_returns hpc rfl rfl rfl rfl
  | enter x =>
    simp only [hpc] at he
    cases he
    split
    next h0 =>
      subst h0
      exact view_effect hpc rfl rfl rfl (h.spec_nothing (fun y _ => h.headers.not_null y) .free)
    next => exact view_stays hpc rfl rfl rfl
  | walkHead w x =>
    simp only [hpc] at he
    cases he
    refine h.sim_arrive hpc rfl fun hnone => ?_
    rw [hnone] at h'
    exact h'.arrived (upd_same ..) rfl rfl
  | walkTest w x b =>
    simp only [hpc] at he
    obtain ⟨la, hla, rfl⟩ := Option.map_eq_some_iff.mp he
    split
    next hc =>
      cases w with
      | free => exact view_stays hpc rfl rfl rfl
      | find =>
        obtain ⟨-, pre, suf, heq, -⟩ := h.listAt hpc rfl
        exact view_effect hpc rfl rfl rfl
          (h.spec_found (by rw [heq]; simp) (h.headers.contains_iff.mp hc))
    next => exact view_stays hpc rfl rfl rfl
  | walkNext w x b =>
    simp only [hpc] at he
    obtain ⟨la, hla, rfl⟩ := Option.map_eq_some_iff.mp he
    refine h.sim_arrive hpc rfl fun hnone => ?_
    rw [hnone] at h'
    exact h'.arrived (upd_same ..) rfl rfl
  | walkMiss w x =>
    simp only [hpc] at he
    cases he
    cases w with
    | free => exact view_stays hpc rfl rfl rfl
    | find => exact view_stays hpc rfl rfl rfl
  | unPrev x b | unNext x b =>
    simp only [hpc] at he
    obtain ⟨la, hla, he⟩ := Option.bind_eq_some_iff.mp he
    obtain ⟨s', hs', rfl⟩ := writes_some he
    obtain ⟨larges, rfl, hr, -⟩ := editLink_some hs' fun _ => ⟨rfl, rfl, rfl⟩
    exact view_stays hpc rfl rfl (rangesOf_relinked hr)
  | unHead x b =>
    simp only [hpc] at he
    obtain ⟨la, hla, rfl⟩ := Option.map_eq_some_iff.mp he
    obtain ⟨-, hin⟩ := h.listAt hpc rfl
    exact view_effect hpc rfl rfl rfl ⟨rfl, h.afterFree_erase hin⟩
  | sizes b =>
    simp only [hpc] at he
    obtain ⟨la, hla, rfl⟩ := Option.map_eq_some_iff.mp he
    exact view_stays hpc rfl rfl rfl
  | unmap b total =>
    simp only [hpc] at he
    obtain ⟨la, hla, rfl⟩ := Option.map_eq_some_iff.mp he
    -- the header is in the hand of `t`, so it is not in the list
    refine view_stays hpc rfl rfl (rangesOf_frame fun y hy => ?_)
    have hne : y ≠ b := by
      rintro rfl
      exact h.holders.apart (handAt hpc) hy
    refine (upd_ne hne).trans ?_
    unfold osMunmap
    split <;> rfl

end CustomMalloc

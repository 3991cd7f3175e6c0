import CustomMalloc.SlabRun
import CustomMalloc.Zone

/-!
# Runs with pressure relief

Whole calls of `slab_alloc` and `slab_free` by any threads, the clients' writes, byte by
byte, and `zone_pressure_relief`. The callback runs as a whole (`relief`), or its test of
a page and its `madvise` of that page are two steps with anything in between (`test`,
`madvise`): it holds the lock of the arena, but the owner of a page does not ask for it.

The kernel replaces advised OS pages by zeros when it likes (`drop`), one or many at
once, but not an OS page that was written since: the advice ends with a client's write
and with a call that changes one of its bytes. A call that stores what is there already
does not end it here, which leaves the kernel more than `MADV_FREE` does.
-/

namespace CustomMalloc

open Lib.Words Lib.Bytes Lib.Chain Lib.Intervals Lib.Post

/-! ## OS pages -/

/-- OS page `n` belongs to page `r`. A range that does not start at an OS page is not
advised at all, so OS pages have at most 64 KB. -/
def OsPageOf (c : Cfg) (r : PageRef) (n : Nat) : Prop :=
  c.osPage ≤ pageSizeAlloc ∧ r.start ≤ n * c.osPage ∧ n * c.osPage < r.start + pageSizeAlloc

instance (c : Cfg) (r : PageRef) (n : Nat) : Decidable (OsPageOf c r n) :=
  inferInstanceAs (Decidable (_ ∧ _ ∧ _))

/-- The OS pages of `D` read as zero. -/
def zeroOn (c : Cfg) (D : Nat → Bool) (m : Mem) : Mem := fun y =>
  if D (y / c.osPage) then 0 else m y

/-! ## States -/

/-- A heap with its clients. `told y v` says that a client wrote `v` to the byte `y`, last,
and still holds the block. The callback has found the pages `tested` empty and not yet
advised them. The OS pages `advised` were advised and not written since. -/
structure ReliefSys extends Sys where
  told : Nat → UInt8 → Prop
  tested : PageRef → Prop
  advised : Nat → Prop

def ReliefSys.initial (c : Cfg) : ReliefSys :=
  { Sys.initial c with
    told := fun _ _ => False
    tested := fun _ => False
    advised := fun _ => False }

/-- After a call that led to `τ`. -/
def ReliefSys.afterCall (σ : ReliefSys) (c : Cfg) (τ : Sys) : ReliefSys :=
  { τ with
    told := fun y v => σ.told y v ∧ τ.Owns y
    tested := σ.tested
    advised := fun n => σ.advised n ∧ ∀ y, y / c.osPage = n → τ.heap.mem y = σ.heap.mem y }

/-- After a client wrote `v` to the byte `y`. -/
def ReliefSys.afterWrite (σ : ReliefSys) (c : Cfg) (y : Nat) (v : UInt8) : ReliefSys :=
  { σ.toSys.poke y v with
    told := fun z w => if z = y then w = v else σ.told z w
    tested := σ.tested
    advised := fun n => σ.advised n ∧ y / c.osPage ≠ n }

/-- After `madvise` of the pages `pages`. -/
def ReliefSys.advise (σ : ReliefSys) (c : Cfg) (pages : List PageRef) : ReliefSys :=
  { σ with advised := fun n => σ.advised n ∨ ∃ r ∈ pages, OsPageOf c r n }

/-- After the callback found page `r` empty. -/
def ReliefSys.find (σ : ReliefSys) (r : PageRef) : ReliefSys :=
  { σ with tested := fun q => q = r ∨ σ.tested q }

/-- After `madvise` of a page that was found empty. -/
def ReliefSys.madvise (σ : ReliefSys) (c : Cfg) (r : PageRef) : ReliefSys :=
  { σ.advise c [r] with tested := fun q => q ≠ r ∧ σ.tested q }

/-- After the kernel dropped the OS pages of `D`. -/
def ReliefSys.drop (σ : ReliefSys) (c : Cfg) (D : Nat → Bool) : ReliefSys :=
  { σ with heap := { σ.heap with mem := zeroOn c D σ.heap.mem } }

/-- After the kernel dropped page `r` as a whole. -/
def ReliefSys.dropPage (σ : ReliefSys) (c : Cfg) (r : PageRef) : ReliefSys :=
  σ.drop c fun n => decide (OsPageOf c r n)

/-! ## Steps -/

/-- The steps a run may restrict. -/
inductive ReliefOp where
  | call (t : Nat) (op : SlabOp)
  | relief (pages : List PageRef)
  | madvise (r : PageRef)
  deriving DecidableEq, Repr

/-- A step of a run in which `P` holds before every call, relief and `madvise`. -/
inductive ReliefStep (c : Cfg) (P : ReliefSys → ReliefOp → Prop) : ReliefSys → ReliefSys → Prop
  | call {σ : ReliefSys} {τ : Sys} (t : Nat) (op : SlabOp) (ans : List (Option Nat)) (q : Nat)
      (hlow : op.Low σ.heap) (hlegal : op.Legal σ.live) (hP : P σ (.call t op))
      (he : σ.slabCall c t op ans = .ok (q, τ)) : ReliefStep c P σ (σ.afterCall c τ)
  | write {σ : ReliefSys} (y : Nat) (v : UInt8) (hy : σ.Owns y) :
      ReliefStep c P σ (σ.afterWrite c y v)
  | relief {σ : ReliefSys} (pages : List PageRef) (hP : P σ (.relief pages))
      (he : zonePressureRelief σ.heap = .ok pages) : ReliefStep c P σ (σ.advise c pages)
  | test {σ : ReliefSys} (r : PageRef) (hd : IsData σ.heap.segs r)
      (hact : (σ.heap.pages r).state = .active) (hempty : pageIsEmpty (σ.heap.pages r) = true) :
      ReliefStep c P σ (σ.find r)
  | madvise {σ : ReliefSys} (r : PageRef) (hr : σ.tested r) (hP : P σ (.madvise r)) :
      ReliefStep c P σ (σ.madvise c r)
  | drop {σ : ReliefSys} (D : Nat → Bool) (hD : ∀ n, D n = true → σ.advised n) :
      ReliefStep c P σ (σ.drop c D)

/-- The states of the runs whose steps satisfy `P`. -/
def ReliefReachable (c : Cfg) (P : ReliefSys → ReliefOp → Prop) (σ : ReliefSys) : Prop :=
  Relation.ReflTransGen (ReliefStep c P) (.initial c) σ

variable {c : Cfg} {P : ReliefSys → ReliefOp → Prop} {σ : ReliefSys} {s : State} {m : Mem}
  {r : PageRef}

/-- The state after a call that returns; for runs that are written out. -/
def ReliefSys.call (σ : ReliefSys) (c : Cfg) (t : Nat) (op : SlabOp) (ans : List (Option Nat)) :
    ReliefSys := σ.afterCall c (σ.slabAfter c t op ans)

theorem ReliefReachable.call (h : ReliefReachable c P σ) (t : Nat) (op : SlabOp)
    (ans : List (Option Nat)) (hlow : op.Low σ.heap) (hlegal : op.Legal σ.live)
    (hP : P σ (.call t op)) (hne : (σ.call c t op ans).ptrs ≠ σ.ptrs) :
    ReliefReachable c P (σ.call c t op ans) := by
  obtain ⟨q, he⟩ := Sys.slabCall_after hne
  exact h.tail (.call t op ans q hlow hlegal hP he)

theorem ReliefReachable.dropPage (h : ReliefReachable c P σ) (r : PageRef)
    (hr : ∀ n, OsPageOf c r n → σ.advised n) : ReliefReachable c P (σ.dropPage c r) :=
  h.tail (.drop _ fun n hn => hr n (of_decide_eq_true hn))

/-! ## The bytes of an OS page -/

/-- The bytes of the OS pages of `r` are the bytes of `r`. -/
theorem osPageOf_iff (hos : c.osPage ≤ pageSizeAlloc) (hal : 65536 ∣ r.start) {y : Nat} :
    OsPageOf c r (y / c.osPage) ↔ r.start ≤ y ∧ y < r.start + 65536 := by
  have hdvd : c.osPage ∣ 65536 :=
    Nat.pow_dvd_pow 2
      ((Nat.pow_le_pow_iff_right (by decide)).mp (show 2 ^ c.pageShift ≤ 2 ^ 16 from hos))
  obtain ⟨b, hb⟩ := hdvd
  obtain ⟨a, ha⟩ := hal
  -- an OS page starts in the 64 KB its bytes lie in
  have hsame : y / c.osPage * c.osPage / 65536 = y / 65536 := by
    rw [hb, ← Nat.div_div_eq_div_mul, ← Nat.div_div_eq_div_mul,
      Nat.mul_div_cancel _ c.osPage_pos]
  unfold OsPageOf
  have hsize : pageSizeAlloc = 65536 := rfl
  rw [and_iff_right hos, hsize]
  omega

theorem OsPageOf.bytes {n y : Nat} (hal : 65536 ∣ r.start) (h : OsPageOf c r n)
    (hy : y / c.osPage = n) : r.start ≤ y ∧ y < r.start + 65536 := by
  subst hy
  exact (osPageOf_iff h.1 hal).mp h

theorem zeroOn_cases (c : Cfg) (D : Nat → Bool) (m : Mem) (y : Nat) :
    zeroOn c D m y = m y ∨ (D (y / c.osPage) = true ∧ zeroOn c D m y = 0) := by
  unfold zeroOn
  split
  next h => exact Or.inr ⟨h, rfl⟩
  next => exact Or.inl rfl

/-- The kernel can drop a page as a whole. -/
theorem drop_page_zero (hos : c.osPage ≤ pageSizeAlloc) (hal : 65536 ∣ r.start) {y : Nat}
    (h₁ : r.start ≤ y) (h₂ : y < r.start + 65536) :
    zeroOn c (fun n => decide (OsPageOf c r n)) m y = 0 := by
  unfold zeroOn
  rw [if_pos (decide_eq_true ((osPageOf_iff hos hal).mpr ⟨h₁, h₂⟩))]

/-! ## The pages the callback advises -/

theorem reliefArena_mem {l : List Nat} {fuel : Nat} {head : Option Nat} {pages : List PageRef}
    (hl : Linked (fun b => (s.segs b).bind Segment.next) head l)
    (he : reliefArena s fuel head = .ok pages) (hr : r ∈ pages) :
    ∃ b ∈ l, r ∈ emptyPages s b := by
  induction l generalizing fuel head pages with
  | nil =>
    obtain rfl : head = none := hl
    have : reliefArena s fuel none = .ok [] := by cases fuel <;> rfl
    obtain rfl := Except.ok.inj (this.symm.trans he)
    exact absurd hr List.not_mem_nil
  | cons b l ih =>
    obtain ⟨rfl, hl⟩ := hl
    cases fuel with
    | zero => exact absurd he (by simp [reliefArena])
    | succ fuel =>
      obtain ⟨rest, hrest, he⟩ := bind_eq_ok he
      cases he
      rcases List.mem_append.mp hr with hr | hr
      · exact ⟨b, List.mem_cons_self .., hr⟩
      · obtain ⟨b', hb', hr'⟩ := ih hl hrest hr
        exact ⟨b', List.mem_cons_of_mem _ hb', hr'⟩

/-- They are active and empty. -/
theorem relief_mem (h : SegListsOk s.segs s.arenas) {pages : List PageRef}
    (he : zonePressureRelief s = .ok pages) (hr : r ∈ pages) :
    IsData s.segs r ∧ (s.pages r).state = .active ∧ pageIsEmpty (s.pages r) = true := by
  obtain ⟨lists, hlists, he⟩ := bind_eq_ok he
  cases he
  obtain ⟨l, hl, hr⟩ := List.mem_flatten.mp hr
  obtain ⟨a, -, hl⟩ := exists_of_mem_mapM hlists hl
  obtain ⟨segs, hsegs, hmem, -⟩ := h a
  obtain ⟨b, hb, hr⟩ := reliefArena_mem hsegs.1 hl hr
  obtain ⟨g, hg, -⟩ := (hmem b).mp hb
  obtain ⟨hin, hcond⟩ := List.mem_filter.mp hr
  obtain ⟨i, hi, rfl⟩ := List.mem_map.mp hin
  simp only [List.mem_range'_1, pagesDataStart, pagesPerSegment] at hi
  simp only [Bool.and_eq_true, beq_iff_eq] at hcond
  exact ⟨isData_of hg (show 1 ≤ i by omega) (show i < 64 by omega), hcond⟩

end CustomMalloc

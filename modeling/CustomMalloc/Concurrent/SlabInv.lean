import CustomMalloc.Concurrent.HeapOk
import CustomMalloc.Concurrent.PageViews
import CustomMalloc.Lib.Hands

/-!
# The invariant of overlapping slab calls

A page of the heap, together with what the threads are doing to it, is a `PageSys`
(`SlabSys.view`): the thread that owns the page is its owner, the threads that free slots
of it remotely are its other threads, and a bump under the arena's lock counts as done as
soon as `bump_offset` is stored. So the invariant of one page holds of every page
(`PageAt`), and what is left to say is who may be where:

* only the thread whose id is in `owner_tid` works on a page as its owner, and ids are
  distinct;
* whoever walks or bumps under the lock of an arena holds that lock;
* between the load of `owner_tid` and the store of `bump_offset` in `arena_alloc`, no owner
  is between its own test and store of `bump_offset` on the same page;
* every slot that is out of its page is in one hand: a client's or a call's.

The third is not a consequence of the code. It is kept by the runs in which no thread
starts its lock-free bump of a page while another one is in that window (`Orderly`).
-/

namespace CustomMalloc

open Lib.Words Lib.Bytes Lib.Chain Lib.Interleave Lib.Hands

variable {n : Nat} {c : Cfg} {σ σ' : SlabSys n} {r : PageRef} {t u : Fin n} {x : Nat}
  {pc pc' : SlabPc}

/-! ## Program counters -/

namespace SlabPc

/-- What a call does as the owner of page `r`. -/
def ownerOf (r : PageRef) : SlabPc → Option OwnerPc
  | .fast _ q pc => if q = r then some (.alloc pc) else none
  | .freeLocal q pc => if q = r then some (.free pc) else none
  | _ => none

/-- What it does to page `r` as another thread. -/
def remoteOf (r : PageRef) : SlabPc → Option FreeRemotePc
  | .freeRemote q pc => if q = r then some pc else none
  | _ => none

/-- The slots of page `r` it took under the lock and has not counted in `used` yet. -/
def owes (r : PageRef) : SlabPc → Nat
  | .bump _ q (.used _) => if q = r then 1 else 0
  | _ => 0

/-- The page it has seen unowned and is about to bump under the lock. -/
def window : SlabPc → Option PageRef
  | .test _ r | .bump _ r .read | .bump _ r (.load _) | .bump _ r (.store _ _) => some r
  | _ => none

/-- The page it is about to bump as the owner. -/
def bumps : SlabPc → Option PageRef
  | .fast _ r (.bump .read) | .fast _ r (.bump (.load _)) | .fast _ r (.bump (.store _ _)) => some r
  | _ => none

/-- The arena whose lock it holds. -/
def locking : SlabPc → Option Nat
  | .head k | .owner k _ | .test k _ | .follow k _ | .grow k | .bump k _ _ | .credit k _ _
  | .unlock k _ _ => some k.arena
  | _ => none

/-- The slot it has in hand: taken from its page and not returned yet, or given back by the
client and not yet on its way into the page. -/
def carries : SlabPc → Option Nat
  | .bump _ _ (.used x) | .book _ x _ | .credit _ _ x | .find _ x _ | .claim _ x _ _
  | .cache _ x _ _ | .freeFind x | .freeTld x _ | .freeOwner x _ => some x
  | .unlock _ x _ | .ret x _ => if x = 0 then none else some x
  | _ => none

/-- It is not working on any page. -/
def plain : SlabPc → Bool
  | .fast .. | .freeLocal .. | .freeRemote .. | .bump _ _ (.used _) => false
  | _ => true

theorem plain_at {pc : SlabPc} (h : pc.plain) (r : PageRef) :
    pc.ownerOf r = none ∧ pc.remoteOf r = none ∧ pc.owes r = 0 := by
  cases pc with
  | fast | freeLocal | freeRemote => exact absurd h (by simp [plain])
  | bump k q pb =>
    cases pb with
    | used => exact absurd h (by simp [plain])
    | read | load | store => exact ⟨rfl, rfl, rfl⟩
  | _ => exact ⟨rfl, rfl, rfl⟩

theorem bumps_ownerOf {pc : SlabPc} {o : OwnerPc} (h : pc.ownerOf r = some o) :
    o.bumping = true ↔ pc.bumps = some r := by
  cases pc with
  | fast bin q pc =>
    simp only [ownerOf, Option.ite_none_right_eq_some, Option.some.injEq] at h
    obtain ⟨rfl, rfl⟩ := h
    cases pc with
    | bump pc => cases pc <;> simp [OwnerPc.bumping, bumps]
    | test | pop | bumpTest | collect | retest => simp [OwnerPc.bumping, bumps]
  | freeLocal q pc =>
    simp only [ownerOf, Option.ite_none_right_eq_some, Option.some.injEq] at h
    obtain ⟨rfl, rfl⟩ := h
    simp [OwnerPc.bumping, bumps]
  | _ => exact absurd h (by simp [ownerOf])

theorem plain_bumps {pc : SlabPc} (h : pc.plain) : pc.bumps = none := by
  cases pc with
  | fast => exact absurd h (by simp [plain])
  | _ => rfl

end SlabPc

/-! ## Pages as one-page systems -/

/-- The bumps of page `r` that `used` does not show yet. -/
def SlabSys.owed (σ : SlabSys n) (r : PageRef) : Nat := ∑ t, (σ.pcs t).owes r

/-- Page `r` and what the threads are doing to it, its owner being at `o`. -/
def SlabSys.view (σ : SlabSys n) (r : PageRef) (o : OwnerPc) : PageSys n where
  mem := σ.heap.mem
  page := (σ.heap.pages r).plus (σ.owed r)
  owner := o
  threads := fun t => (σ.pcs t).remoteOf r
  live := σ.held r
  log := σ.log r

/-- At most one thread works on page `r` as its owner, and it is at `o`. -/
inductive Role (pcs : Fin n → SlabPc) (r : PageRef) : OwnerPc → Prop
  | free (h : ∀ t, (pcs t).ownerOf r = none) : Role pcs r .idle
  | busy (t : Fin n) {o : OwnerPc} (ht : (pcs t).ownerOf r = some o)
      (h : ∀ u, u ≠ t → (pcs u).ownerOf r = none) : Role pcs r o

/-- The invariant of one page holds of page `r`. -/
structure PageAt (σ : SlabSys n) (r : PageRef) : Prop where
  used_lt : (σ.heap.pages r).used < 2 ^ 16
  conserved : ∃ o loc walk, Role σ.pcs r o ∧ Conserved r (σ.view r o).page (σ.view r o) loc walk

theorem Role.eq {o o' : OwnerPc} (h : Role σ.pcs r o) (ht : (σ.pcs t).ownerOf r = some o') :
    o = o' ∧ ∀ u, u ≠ t → (σ.pcs u).ownerOf r = none := by
  cases h with
  | free h => cases (h t).symm.trans ht
  | busy v hv h =>
    by_cases htv : t = v
    · subst htv
      exact ⟨Option.some.inj (hv.symm.trans ht), h⟩
    · cases (h t htv).symm.trans ht

theorem Role.congr {pcs pcs' : Fin n → SlabPc} {o : OwnerPc} (h : Role pcs r o)
    (he : ∀ t, (pcs' t).ownerOf r = (pcs t).ownerOf r) : Role pcs' r o := by
  cases h with
  | free h => exact .free fun t => (he t).trans (h t)
  | busy v hv h => exact .busy v ((he v).trans hv) fun u hu => (he u).trans (h u hu)

/-- The owner goes on. -/
theorem Role.step {pcs : Fin n → SlabPc} {o' : OwnerPc} (h : ∀ u, u ≠ t → (pcs u).ownerOf r = none)
    (hpc : pc'.ownerOf r = some o') : Role (upd pcs t pc') r o' :=
  .busy t (by rw [upd_same]; exact hpc) fun u hu => by rw [upd_ne hu]; exact h u hu

/-- The owner is done. -/
theorem Role.done {pcs : Fin n → SlabPc} (h : ∀ u, u ≠ t → (pcs u).ownerOf r = none)
    (hpc : pc'.ownerOf r = none) : Role (upd pcs t pc') r .idle := by
  refine .free fun u => ?_
  by_cases hu : u = t
  · rw [hu, upd_same]
    exact hpc
  · rw [upd_ne hu]
    exact h u hu

theorem owed_congr (h : ∀ t, (σ'.pcs t).owes r = (σ.pcs t).owes r) : σ'.owed r = σ.owed r :=
  Finset.sum_congr rfl fun t _ => h t

/-- One thread's debt changes. -/
theorem owed_upd (hpcs : σ'.pcs = upd σ.pcs t pc') :
    σ'.owed r + (σ.pcs t).owes r = σ.owed r + pc'.owes r := by
  unfold SlabSys.owed
  rw [hpcs]
  exact sum_upd (SlabPc.owes r) σ.pcs t pc'

/-! ## What a call knows -/

/-- Slot `x` is out of page `r`. -/
def SlabSys.Out (σ : SlabSys n) (r : PageRef) (x : Nat) : Prop := Active σ.heap r ∧ x ∈ σ.held r

/-- Thread `t` owns page `r`. -/
def SlabSys.Mine (σ : SlabSys n) (t : Fin n) (r : PageRef) : Prop :=
  Active σ.heap r ∧ ∃ y, σ.heap.tls t = some y ∧ (σ.heap.pages r).ownerTid = y.threadId

/-- All bytes of slot `x` of page `r` are zero. -/
def SlabSys.Clean (σ : SlabSys n) (r : PageRef) (x : Nat) : Prop :=
  ∀ y, x ≤ y → y < x + (σ.heap.pages r).slotSize → σ.heap.mem y = 0

/-- A bin of the slab allocator. -/
def BinOk (bin : Nat) : Prop := bin < binCount ∧ binToSize sizeTables bin ≤ 32768

/-- The arguments of `arena_alloc` are in order. -/
structure CallOk (σ : SlabSys n) (t : Fin n) (k : ArenaCall) : Prop where
  bin : BinOk k.bin
  arena_lt : k.arena < numArenas
  attached : k.hasTld = true → ∃ y, σ.heap.tls t = some y ∧ y.arena = some k.arena

/-- Page `r` is in the list that `arena_alloc` walks. -/
structure SlabSys.Listed (σ : SlabSys n) (k : ArenaCall) (r : PageRef) : Prop where
  active : Active σ.heap r
  arena : (σ.heap.pages r).arena = k.arena
  binIdx : (σ.heap.pages r).binIdx = k.bin

/-- Slot `x` of page `r` came from the arena of thread `t`. -/
structure SlabSys.Got (σ : SlabSys n) (t : Fin n) (bin x : Nat) (zeroed : Bool) (r : PageRef) :
    Prop where
  ne : x ≠ 0
  out : σ.Out r x
  binIdx : (σ.heap.pages r).binIdx = bin
  attached : ∃ y, σ.heap.tls t = some y ∧ y.arena = some (σ.heap.pages r).arena
  clean : zeroed = true → σ.Clean r x

/-- What a call of thread `t` knows where it stands. -/
def Knows (σ : SlabSys n) (t : Fin n) : SlabPc → Prop
  | .idle => True
  | .enter bin => BinOk bin
  | .look bin | .clear bin => BinOk bin ∧ (σ.heap.tls t).isSome
  | .fast bin r pc => BinOk bin ∧ σ.Mine t r ∧ (σ.heap.pages r).binIdx = bin ∧
      ∀ x, pc = .bump (.used x) → IsSlot r (σ.heap.pages r) x ∧ σ.Clean r x
  | .book r x z => σ.Mine t r ∧ x ≠ 0 ∧ σ.Out r x ∧ (z = true → σ.Clean r x)
  | .again bin hasTld => BinOk bin ∧ (hasTld = true → (σ.heap.tls t).isSome)
  | .next bin hasTld => BinOk bin ∧ (hasTld = true → (σ.heap.tls t).isSome) ∧
      ∀ y, σ.heap.tls t = some y → y.arena = none
  | .join k => BinOk k.bin ∧ k.arena < numArenas ∧ (k.hasTld = true → (σ.heap.tls t).isSome) ∧
      ∀ y, σ.heap.tls t = some y → y.arena = none
  | .lock k | .head k | .grow k => CallOk σ t k
  | .owner k r | .test k r | .follow k r => CallOk σ t k ∧ σ.Listed k r
  | .bump k r pc => CallOk σ t k ∧ σ.Listed k r ∧ BumpOk r (σ.heap.cell r) pc ∧
      ∀ x, pc = .used x → x ≠ 0 ∧ σ.Out r x ∧ σ.Clean r x
  | .credit k r x => CallOk σ t k ∧ σ.Listed k r ∧ x ≠ 0 ∧ σ.Out r x ∧ σ.Clean r x
  | .unlock k x z => CallOk σ t k ∧
      (x ≠ 0 → ∃ r, σ.Listed k r ∧ σ.Out r x ∧ (z = true → σ.Clean r x))
  | .find bin x z => ∃ r, σ.Got t bin x z r
  | .claim bin x z r => σ.Got t bin x z r
  | .cache bin x z r => σ.Got t bin x z r ∧ σ.Mine t r
  | .ret x z => x ≠ 0 → ∃ r, σ.Out r x ∧ (z = true → σ.Clean r x)
  | .freeFind x => ∃ r, σ.Out r x ∧ r.start + 65536 ≤ 2 ^ 48
  | .freeTld x r => σ.Out r x ∧ r.start + 65536 ≤ 2 ^ 48
  | .freeOwner x r => σ.Out r x ∧ r.start + 65536 ≤ 2 ^ 48 ∧ (σ.heap.tls t).isSome
  | .freeLocal r _ | .freeStat r => σ.Mine t r
  | .freeRemote r _ => Active σ.heap r ∧ r.start + 65536 ≤ 2 ^ 48
  | .freeCredit r => Active σ.heap r

/-! ## The invariant -/

/-- What holds in the middle of any number of calls. -/
structure SlabInv (c : Cfg) (σ : SlabSys n) : Prop where
  heap : HeapOk c σ.heap
  locks : ∀ a t, σ.locks a = some t ↔ (σ.pcs t).locking = some a
  pages : ∀ r, Active σ.heap r → PageAt σ r
  pcs : ∀ t, Knows σ t (σ.pcs t)
  apart : ∀ t u r, t ≠ u → (σ.pcs t).window = some r → (σ.pcs u).bumps ≠ some r
  hands : OneHolder σ.live fun t => (σ.pcs t).carries
  out : ∀ x ∈ σ.live, ∃ r, σ.Out r x
  inUse : ∀ {r x}, x ∈ σ.held r → Active σ.heap r

/-! ## What a call relies on -/

/-- What a step of another thread leaves to thread `u`. -/
structure Rely (σ σ' : SlabSys n) (u : Fin n) : Prop where
  tls : σ'.heap.tls u = σ.heap.tls u
  active : ∀ {r}, Active σ.heap r → Active σ'.heap r
  arena : ∀ {r}, Active σ.heap r → (σ'.heap.pages r).arena = (σ.heap.pages r).arena
  binIdx : ∀ {r}, Active σ.heap r → (σ'.heap.pages r).binIdx = (σ.heap.pages r).binIdx
  slotSize : ∀ {r}, Active σ.heap r → (σ'.heap.pages r).slotSize = (σ.heap.pages r).slotSize
  capacity : ∀ {r}, Active σ.heap r → (σ'.heap.pages r).capacity = (σ.heap.pages r).capacity
  owner : ∀ {r y}, Active σ.heap r → σ.heap.tls u = some y →
    (σ.heap.pages r).ownerTid = y.threadId → (σ'.heap.pages r).ownerTid = y.threadId
  held : ∀ {r x}, (σ.pcs u).carries = some x → σ.Out r x → x ∈ σ'.held r
  bytes : ∀ {r x}, Active σ.heap r → IsSlot r (σ.heap.pages r) x →
    ((σ.pcs u).carries = some x ∧ x ∈ σ.held r ∨
      (σ.pcs u).ownerOf r = some (.alloc (.bump (.used x)))) →
    ∀ y, x ≤ y → y < x + (σ.heap.pages r).slotSize → σ'.heap.mem y = σ.heap.mem y
  bump : ∀ {r}, Active σ.heap r → (σ.pcs u).window = some r →
    (σ'.heap.pages r).bumpOffset = (σ.heap.pages r).bumpOffset ∧
      (σ'.heap.pages r).bumpEnd = (σ.heap.pages r).bumpEnd

namespace PageAt

/-- A slot that is out of the page is a slot of it. -/
theorem slot (h : PageAt σ r) (hx : x ∈ σ.held r) : IsSlot r (σ.heap.pages r) x := by
  obtain ⟨-, o, loc, walk, -, hc⟩ := h
  have hat : (σ.view r o).At r (σ.view r o).page loc walk .live x := Or.inl hx
  exact hc.lists.placed.mem hat

end PageAt

namespace Rely

variable (h : Rely σ σ' u)

include h

theorem out (hc : (σ.pcs u).carries = some x) (ho : σ.Out r x) : σ'.Out r x :=
  ⟨h.active ho.1, h.held hc ho⟩

theorem mine (hm : σ.Mine u r) : σ'.Mine u r := by
  obtain ⟨hact, y, hy, hown⟩ := hm
  exact ⟨h.active hact, y, h.tls.trans hy, h.owner hact hy hown⟩

theorem clean (hslot : IsSlot r (σ.heap.pages r) x)
    (hx : (σ.pcs u).carries = some x ∧ x ∈ σ.held r ∨
      (σ.pcs u).ownerOf r = some (.alloc (.bump (.used x)))) (hact : Active σ.heap r)
    (hclean : σ.Clean r x) : σ'.Clean r x := by
  intro y h₁ h₂
  rw [h.slotSize hact] at h₂
  rw [h.bytes hact hslot hx y h₁ h₂]
  exact hclean y h₁ h₂

theorem clean_out (hpages : ∀ r, Active σ.heap r → PageAt σ r) (hc : (σ.pcs u).carries = some x)
    (ho : σ.Out r x) (hclean : σ.Clean r x) : σ'.Clean r x :=
  h.clean ((hpages r ho.1).slot ho.2) (Or.inl ⟨hc, ho.2⟩) ho.1 hclean

theorem callOk {k : ArenaCall} (hk : CallOk σ u k) : CallOk σ' u k :=
  ⟨hk.bin, hk.arena_lt, fun ht => by rw [h.tls]; exact hk.attached ht⟩

theorem listed {k : ArenaCall} (hl : σ.Listed k r) : σ'.Listed k r :=
  ⟨h.active hl.active, (h.arena hl.active).trans hl.arena, (h.binIdx hl.active).trans hl.binIdx⟩

theorem got (hpages : ∀ r, Active σ.heap r → PageAt σ r) {bin : Nat} {z : Bool}
    (hc : (σ.pcs u).carries = some x) (hg : σ.Got u bin x z r) : σ'.Got u bin x z r := by
  obtain ⟨hne, ho, hb, ⟨y, hy, ha⟩, hclean⟩ := hg
  refine ⟨hne, h.out hc ho, (h.binIdx ho.1).trans hb, ⟨y, h.tls.trans hy, ?_⟩, fun hz => ?_⟩
  · rw [h.arena ho.1]
    exact ha
  · exact h.clean_out hpages hc ho (hclean hz)

/-- A call knows what it knew. -/
theorem knows (hpages : ∀ r, Active σ.heap r → PageAt σ r) (hok : Knows σ u (σ.pcs u)) :
    Knows σ' u (σ.pcs u) := by
  cases hpc : σ.pcs u with
  | idle => trivial
  | enter bin =>
    rw [hpc] at hok
    exact hok
  | look bin =>
    rw [hpc] at hok
    exact ⟨hok.1, by rw [h.tls]; exact hok.2⟩
  | clear bin =>
    rw [hpc] at hok
    exact ⟨hok.1, by rw [h.tls]; exact hok.2⟩
  | fast bin r pc =>
    rw [hpc] at hok
    obtain ⟨hbin, hmine, hidx, hzero⟩ := hok
    refine ⟨hbin, h.mine hmine, (h.binIdx hmine.1).trans hidx, fun x hx => ?_⟩
    obtain ⟨hslot, hclean⟩ := hzero x hx
    refine ⟨(isSlot_congr (h.slotSize hmine.1) (h.capacity hmine.1)).mpr hslot, ?_⟩
    refine h.clean hslot (Or.inr ?_) hmine.1 hclean
    rw [hpc, hx]
    exact if_pos rfl
  | book r x z =>
    rw [hpc] at hok
    obtain ⟨hmine, hne, ho, hclean⟩ := hok
    have hc : (σ.pcs u).carries = some x := by rw [hpc]; rfl
    exact ⟨h.mine hmine, hne, h.out hc ho, fun hz => h.clean_out hpages hc ho (hclean hz)⟩
  | again bin hasTld =>
    rw [hpc] at hok
    exact ⟨hok.1, by rw [h.tls]; exact hok.2⟩
  | next bin hasTld =>
    rw [hpc] at hok
    exact ⟨hok.1, by rw [h.tls]; exact hok.2⟩
  | join k =>
    rw [hpc] at hok
    exact ⟨hok.1, hok.2.1, by rw [h.tls]; exact hok.2.2⟩
  | lock k =>
    rw [hpc] at hok
    exact h.callOk hok
  | head k =>
    rw [hpc] at hok
    exact h.callOk hok
  | grow k =>
    rw [hpc] at hok
    exact h.callOk hok
  | owner k r =>
    rw [hpc] at hok
    exact ⟨h.callOk hok.1, h.listed hok.2⟩
  | test k r =>
    rw [hpc] at hok
    exact ⟨h.callOk hok.1, h.listed hok.2⟩
  | follow k r =>
    rw [hpc] at hok
    exact ⟨h.callOk hok.1, h.listed hok.2⟩
  | bump k r pc =>
    rw [hpc] at hok
    obtain ⟨hk, hl, hb, hx⟩ := hok
    refine ⟨h.callOk hk, h.listed hl, ?_, fun x hpx => ?_⟩
    · cases pc with
      | used slot => trivial
      | read =>
        obtain ⟨h₁, h₂⟩ := h.bump hl.active (by rw [hpc]; rfl)
        unfold BumpOk State.cell at hb ⊢
        rw [h₁, h₂]
        exact hb
      | load slot =>
        obtain ⟨h₁, h₂⟩ := h.bump hl.active (by rw [hpc]; rfl)
        unfold BumpOk State.cell at hb ⊢
        rw [h₁, h₂]
        exact hb
      | store slot offset =>
        obtain ⟨h₁, h₂⟩ := h.bump hl.active (by rw [hpc]; rfl)
        unfold BumpOk State.cell at hb ⊢
        rw [h₁, h₂]
        exact hb
    · obtain ⟨hne, ho, hclean⟩ := hx x hpx
      have hc : (σ.pcs u).carries = some x := by rw [hpc, hpx]; rfl
      exact ⟨hne, h.out hc ho, h.clean_out hpages hc ho hclean⟩
  | credit k r x =>
    rw [hpc] at hok
    obtain ⟨hk, hl, hne, ho, hclean⟩ := hok
    have hc : (σ.pcs u).carries = some x := by rw [hpc]; rfl
    exact ⟨h.callOk hk, h.listed hl, hne, h.out hc ho, h.clean_out hpages hc ho hclean⟩
  | unlock k x z =>
    rw [hpc] at hok
    refine ⟨h.callOk hok.1, fun hne => ?_⟩
    obtain ⟨r, hl, ho, hclean⟩ := hok.2 hne
    have hc : (σ.pcs u).carries = some x := by rw [hpc]; exact if_neg hne
    exact ⟨r, h.listed hl, h.out hc ho, fun hz => h.clean_out hpages hc ho (hclean hz)⟩
  | find bin x z =>
    rw [hpc] at hok
    obtain ⟨r, hg⟩ := hok
    exact ⟨r, h.got hpages (by rw [hpc]; rfl) hg⟩
  | claim bin x z r =>
    rw [hpc] at hok
    exact h.got hpages (by rw [hpc]; rfl) hok
  | cache bin x z r =>
    rw [hpc] at hok
    exact ⟨h.got hpages (by rw [hpc]; rfl) hok.1, h.mine hok.2⟩
  | ret x z =>
    rw [hpc] at hok
    intro hne
    obtain ⟨r, ho, hclean⟩ := hok hne
    have hc : (σ.pcs u).carries = some x := by rw [hpc]; exact if_neg hne
    exact ⟨r, h.out hc ho, fun hz => h.clean_out hpages hc ho (hclean hz)⟩
  | freeFind x =>
    rw [hpc] at hok
    obtain ⟨r, ho, hlow⟩ := hok
    exact ⟨r, h.out (by rw [hpc]; rfl) ho, hlow⟩
  | freeTld x r =>
    rw [hpc] at hok
    exact ⟨h.out (by rw [hpc]; rfl) hok.1, hok.2⟩
  | freeOwner x r =>
    rw [hpc] at hok
    exact ⟨h.out (by rw [hpc]; rfl) hok.1, hok.2.1, by rw [h.tls]; exact hok.2.2⟩
  | freeLocal r pc =>
    rw [hpc] at hok
    exact h.mine hok
  | freeStat r =>
    rw [hpc] at hok
    exact h.mine hok
  | freeRemote r pc =>
    rw [hpc] at hok
    exact ⟨h.active hok.1, hok.2⟩
  | freeCredit r =>
    rw [hpc] at hok
    exact h.active hok

end Rely

/-- **Step rule**: one thread goes on at `pc'`, keeping what the others rely on. -/
theorem SlabInv.advance (h : SlabInv c σ) (hpcs : σ'.pcs = upd σ.pcs t pc')
    (hheap : HeapOk c σ'.heap) (hlocks : ∀ a u, σ'.locks a = some u ↔ (σ'.pcs u).locking = some a)
    (hpages : ∀ r, Active σ'.heap r → PageAt σ' r) (hrely : ∀ u, u ≠ t → Rely σ σ' u)
    (hok : Knows σ' t pc') (hwin : ∀ u r, u ≠ t → pc'.window = some r → (σ.pcs u).bumps ≠ some r)
    (hbump : ∀ u r, u ≠ t → pc'.bumps = some r → (σ.pcs u).window ≠ some r)
    (hhands : OneHolder σ'.live fun u => (σ'.pcs u).carries)
    (hout : ∀ x ∈ σ'.live, ∃ r, σ'.Out r x) (huse : ∀ {r x}, x ∈ σ'.held r → Active σ'.heap r) :
    SlabInv c σ' := by
  refine ⟨hheap, hlocks, hpages, fun u => ?_, fun u v r huv hw hb => ?_, hhands, hout, huse⟩
  · rw [hpcs]
    by_cases hu : u = t
    · rw [hu, upd_same]
      exact hok
    · rw [upd_ne hu]
      exact (hrely u hu).knows h.pages (h.pcs u)
  · rw [hpcs] at hw hb
    by_cases hu : u = t
    · have hv : v ≠ t := fun hv => huv (hu.trans hv.symm)
      rw [hu, upd_same] at hw
      rw [upd_ne hv] at hb
      exact hwin v r hv hw hb
    · rw [upd_ne hu] at hw
      by_cases hv : v = t
      · rw [hv, upd_same] at hb
        exact hbump u r hu hb hw
      · rw [upd_ne hv] at hb
        exact h.apart u v r huv hw hb

end CustomMalloc

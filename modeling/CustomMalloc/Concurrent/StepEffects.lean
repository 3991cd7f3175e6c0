import CustomMalloc.Concurrent.SlabSteps

/-!
# What a step does to the heap

`Effect` says once what a step of a call can do to the pages: nothing, a store on the slots
of one page, by its owner or by somebody else, a new page, or a claim. What the allocator
never does is read off from it: it does not write into slots that are out, it does not take
a page away from its owner, and nobody but the owner touches a local free list.
-/

namespace CustomMalloc

open Lib.Words Lib.Bytes Lib.Chain Lib.Interleave Lib.Hands

variable {n : Nat} {c : Cfg} {σ σ' : SlabSys n} {r q : PageRef} {t u : Fin n} {x : Nat}
  {pc pc' : SlabPc}
  {spurious : Bool} {k : ArenaCall} {s' : State}

/-- Memory changed inside slots of page `r` that are not out of it. -/
def TouchesFree (σ : SlabSys n) (r : PageRef) (m : Mem) : Prop :=
  ∀ a, m a ≠ σ.heap.mem a → ∃ y, IsSlot r (σ.heap.pages r) y ∧ y ∉ σ.held r ∧
    y ≤ a ∧ a < y + (σ.heap.pages r).slotSize

/-- What a step of thread `t` does to the heap. -/
inductive Effect (σ : SlabSys n) (t : Fin n) (s' : State) : Prop
  | quiet (hs : SameMeta σ.heap s') (hm : SamePages σ.heap s')
  /-- a step on a page that the thread owns -/
  | owner (r : PageRef) (cell : Cell) (hmine : σ.Mine t r) (he : s' = σ.heap.setCell r cell)
      (hflat : cell.page.flat = (σ.heap.pages r).flat) (ht : TouchesFree σ r cell.mem)
  /-- a remote free, or a bump under the lock -/
  | other (r : PageRef) (cell : Cell) (hact : Active σ.heap r) (he : s' = σ.heap.setCell r cell)
      (hflat : cell.page.flat = (σ.heap.pages r).flat) (ht : TouchesFree σ r cell.mem)
      (hlocal : cell.page.localFree = (σ.heap.pages r).localFree ∧
        cell.page.localFreeCount = (σ.heap.pages r).localFreeCount)
  | opened (a bin : Nat) (r : PageRef) (ho : Opened σ.heap a bin r s')
  | claim (r : PageRef) (y : Tld) (hact : Active σ.heap r) (hy : σ.heap.tls t = some y)
      (hno : (σ.heap.pages r).ownerTid = noOwner)
      (he : s' = σ.heap.setPage r { σ.heap.pages r with ownerTid := y.threadId })

theorem Effect.same (σ : SlabSys n) (t : Fin n) : Effect σ t σ.heap :=
  .quiet ⟨rfl, rfl, rfl, rfl⟩ fun _ _ _ _ _ => rfl

/-! ## What follows -/

namespace Effect

variable (e : Effect σ t s')

include e

/-- A page in use stays in use. -/
theorem active (hact : Active σ.heap r) : Active s' r := by
  cases e with
  | quiet hs _ => exact hs.active_iff.mpr hact
  | owner q cell _ he hflat _ => exact he ▸ (HeapOk.setCell_active hflat r).mpr hact
  | other q cell _ he hflat _ _ => exact he ▸ (HeapOk.setCell_active hflat r).mpr hact
  | opened a bin q ho => exact ho.kept r hact
  | claim q y _ _ _ he =>
    subst he
    refine ⟨hact.1, ?_⟩
    show (upd σ.heap.pages q _ r).state = _
    by_cases hrq : r = q
    · rw [hrq, upd_same]
      exact hrq ▸ hact.2
    · rw [upd_ne hrq]
      exact hact.2

/-- It keeps its shape, and its owner if it has one; else at most the stepping thread takes it. -/
theorem page (hact : Active σ.heap r) :
    (s'.pages r).slotSize = (σ.heap.pages r).slotSize ∧
    (s'.pages r).binIdx = (σ.heap.pages r).binIdx ∧
      (s'.pages r).arena = (σ.heap.pages r).arena ∧
      ((s'.pages r).ownerTid = (σ.heap.pages r).ownerTid ∨ (σ.heap.pages r).ownerTid = noOwner ∧
        ∃ y, σ.heap.tls t = some y ∧ (s'.pages r).ownerTid = y.threadId) := by
  have hcell : ∀ {q : PageRef} {cell : Cell}, cell.page.flat = (σ.heap.pages q).flat →
      s' = σ.heap.setCell q cell → (s'.pages r).slotSize = (σ.heap.pages r).slotSize ∧
        (s'.pages r).binIdx = (σ.heap.pages r).binIdx ∧
        (s'.pages r).arena = (σ.heap.pages r).arena ∧
        (s'.pages r).ownerTid = (σ.heap.pages r).ownerTid := by
    intro q cell hflat he
    have hf := HeapOk.flat_fields (HeapOk.setCell_fields hflat r)
    subst he
    exact ⟨hf.2.2.2.1, hf.2.2.1, hf.2.1, hf.2.2.2.2.1⟩
  cases e with
  | quiet hs _ =>
    rw [hs.pages]
    exact ⟨rfl, rfl, rfl, Or.inl rfl⟩
  | owner q cell _ he hflat _ =>
    obtain ⟨h₁, h₂, h₃, h₄⟩ := hcell hflat he
    exact ⟨h₁, h₂, h₃, Or.inl h₄⟩
  | other q cell _ he hflat _ _ =>
    obtain ⟨h₁, h₂, h₃, h₄⟩ := hcell hflat he
    exact ⟨h₁, h₂, h₃, Or.inl h₄⟩
  | opened a bin q ho =>
    obtain ⟨nx, pr, hlink⟩ := ho.links r hact
    rw [hlink]
    exact ⟨rfl, rfl, rfl, Or.inl rfl⟩
  | claim q y _ hy hno he =>
    subst he
    show (upd σ.heap.pages q _ r).slotSize = _ ∧ (upd σ.heap.pages q _ r).binIdx = _ ∧
      (upd σ.heap.pages q _ r).arena = _ ∧ ((upd σ.heap.pages q _ r).ownerTid = _ ∨ _ ∧
        ∃ y, _ ∧ (upd σ.heap.pages q _ r).ownerTid = _)
    by_cases hrq : r = q
    · rw [hrq, upd_same]
      exact ⟨rfl, rfl, rfl, Or.inr ⟨hno, y, hy, rfl⟩⟩
    · rw [upd_ne hrq]
      exact ⟨rfl, rfl, rfl, Or.inl rfl⟩

/-- A step writes into no slot that is out. -/
theorem bytes (h : SlabInv c σ) (ho : σ.Out r x) {y : Nat} (h₁ : x ≤ y)
    (h₂ : y < x + (σ.heap.pages r).slotSize) : s'.mem y = σ.heap.mem y := by
  have hslot := h.out_slot ho
  have hb := h.heap.slot_range ho.1 hslot
  have hcell : ∀ {q : PageRef} {m : Mem}, Active σ.heap q → TouchesFree σ q m →
      m y = σ.heap.mem y := by
    intro q m hq ht
    by_contra hne
    obtain ⟨z, hz, hheld, h₃, h₄⟩ := ht y hne
    refine h.slots_apart ho.1 hq hslot hz ?_ h₁ h₂ h₃ h₄
    rintro rfl
    obtain rfl := h.slot_page ho.1 hq hslot hz
    exact hheld ho.2
  cases e with
  | quiet _ hm => exact hm r ho.1 y (by omega) (by omega)
  | owner q cell hmine he _ ht =>
    subst he
    exact hcell hmine.1 ht
  | other q cell hact he _ ht _ =>
    subst he
    exact hcell hact ht
  | opened a bin q hop => exact hop.mem r ho.1 y (by omega) (by omega)
  | claim q z _ _ _ he =>
    subst he
    rfl

/-- Only the owner changes a local free list. -/
theorem localList (hact : Active σ.heap r) (hno : ¬ σ.Mine t r) :
    (s'.pages r).localFree = (σ.heap.pages r).localFree ∧
      (s'.pages r).localFreeCount = (σ.heap.pages r).localFreeCount := by
  cases e with
  | quiet hs _ =>
    rw [hs.pages]
    exact ⟨rfl, rfl⟩
  | owner q cell hmine he _ _ =>
    have hrq : r ≠ q := by
      rintro rfl
      exact hno hmine
    subst he
    rw [show (σ.heap.setCell q cell).pages r = σ.heap.pages r from upd_ne hrq]
    exact ⟨rfl, rfl⟩
  | other q cell _ he _ _ hlocal =>
    subst he
    by_cases hrq : r = q
    · subst hrq
      rw [show (σ.heap.setCell r cell).pages r = cell.page from upd_same ..]
      exact hlocal
    · rw [show (σ.heap.setCell q cell).pages r = σ.heap.pages r from upd_ne hrq]
      exact ⟨rfl, rfl⟩
  | opened a bin q ho =>
    obtain ⟨nx, pr, hlink⟩ := ho.links r hact
    rw [hlink]
    exact ⟨rfl, rfl⟩
  | claim q y _ _ _ he =>
    subst he
    show (upd σ.heap.pages q _ r).localFree = _ ∧ (upd σ.heap.pages q _ r).localFreeCount = _
    by_cases hrq : r = q
    · rw [hrq, upd_same]
      exact ⟨rfl, rfl⟩
    · rw [upd_ne hrq]
      exact ⟨rfl, rfl⟩

end Effect

/-! ## Every step has an effect -/

/-- Seen from the whole heap, what a machine wrote. -/
theorem touchesFree_view {o : OwnerPc} {m : Mem} {p₀ : PageMeta} (ht : Touches r p₀ (σ.view r o) m)
    (hs : p₀.slotSize = (σ.heap.pages r).slotSize) (hc : p₀.capacity = (σ.heap.pages r).capacity) :
    TouchesFree σ r m := by
  intro a ha
  obtain ⟨y, hslot, hlive, -, h₁, h₂⟩ := ht a ha
  exact ⟨y, (isSlot_congr hs hc).mp hslot, hlive, h₁, by rw [← hs]; exact h₂⟩

namespace SlabInv

theorem tldGet_effect (h : SlabInv c σ) (hid : HasId σ.heap t) {o : Option Tld}
    (he : CustomMalloc.tldGet c σ.heap t = (o, s')) : Effect σ t s' := by
  obtain ⟨-, hgot⟩ := h.heap.tldGet hid he
  exact .quiet hgot.same fun r hr => hgot.mem r hr.1

theorem fast_effect (h : SlabInv c σ) {bin : Nat} {pc : AllocPc} (hpc : σ.pcs t = .fast bin r pc) :
    Effect σ t (σ.fastStep t spurious bin r pc).heap := by
  have hmine : σ.Mine t r := by
    have hknow := h.knows hpc
    exact hknow.2.1
  obtain ⟨hused, o, loc, walk, hrole, hcons⟩ := h.pages r hmine.1
  obtain ⟨rfl, -⟩ :=
    hrole.eq (show (σ.pcs t).ownerOf r = some (.alloc pc) by rw [hpc]; exact if_pos rfl)
  have htouch := hcons.alloc_touches ((h.heap.geom hmine.1).plus _) spurious rfl
  refine .owner r (allocStep spurious (σ.heap.cell r) pc).1 hmine ?_
    (allocStep_flat spurious (σ.heap.cell r) pc) ?_
  · exact congrArg SlabSys.heap (fastStep_eq σ t bin r pc rfl)
  · have hmem : (allocStep spurious (σ.view r (.alloc pc)).toCell pc).1.mem =
        (allocStep spurious (σ.heap.cell r) pc).1.mem :=
      congrArg (fun z => z.1.mem) (allocStep_plus spurious (σ.heap.cell r) (σ.owed r) pc)
    rw [hmem] at htouch
    exact touchesFree_view htouch rfl rfl

theorem freeLocal_effect (h : SlabInv c σ) {pc : FreeLocalPc} (hpc : σ.pcs t = .freeLocal r pc) :
    Effect σ t (σ.freeLocalStep t r pc).heap := by
  have hmine : σ.Mine t r := h.knows hpc
  obtain ⟨hused, o, loc, walk, hrole, hcons⟩ := h.pages r hmine.1
  obtain ⟨rfl, -⟩ :=
    hrole.eq (show (σ.pcs t).ownerOf r = some (.free pc) by rw [hpc]; exact if_pos rfl)
  have htouch := hcons.freeLocal_touches ((h.heap.geom hmine.1).plus _) rfl
  refine .owner r (CustomMalloc.freeLocalStep (σ.heap.cell r) pc).1 hmine ?_
    (freeLocalStep_flat (σ.heap.cell r) pc) ?_
  · unfold SlabSys.freeLocalStep
    simp only
    split <;> rfl
  · have hmem : (CustomMalloc.freeLocalStep (σ.view r (.free pc)).toCell pc).1.mem =
        (CustomMalloc.freeLocalStep (σ.heap.cell r) pc).1.mem :=
      congrArg (fun z => z.1.mem) (freeLocalStep_plus (σ.heap.cell r) (σ.owed r) hused pc)
    rw [hmem] at htouch
    exact touchesFree_view htouch rfl rfl

theorem freeRemoteStep_local (s : Cell) (pc : FreeRemotePc) :
    (CustomMalloc.freeRemoteStep spurious s pc).1.page.localFree = s.page.localFree ∧
      (CustomMalloc.freeRemoteStep spurious s pc).1.page.localFreeCount =
        s.page.localFreeCount := by
  cases pc with
  | cas y old => simp only [CustomMalloc.freeRemoteStep]; split <;> exact ⟨rfl, rfl⟩
  | load | link | count | used => exact ⟨rfl, rfl⟩

theorem freeRemote_effect (h : SlabInv c σ) {pc : FreeRemotePc} (hpc : σ.pcs t = .freeRemote r pc) :
    Effect σ t (σ.freeRemoteStep t spurious r pc).heap := by
  have hact : Active σ.heap r := by
    have hknow := h.knows hpc
    exact hknow.1
  obtain ⟨hused, o, loc, walk, hrole, hcons⟩ := h.pages r hact
  have hthread : (σ.view r o).threads t = some pc := by
    show (σ.pcs t).remoteOf r = some pc
    rw [hpc]
    exact if_pos rfl
  have htouch := hcons.freeRemote_touches ((h.heap.geom hact).plus _) spurious hthread
  refine .other r (CustomMalloc.freeRemoteStep spurious (σ.heap.cell r) pc).1 hact ?_
    (freeRemoteStep_flat spurious (σ.heap.cell r) pc) ?_ (freeRemoteStep_local (σ.heap.cell r) pc)
  · unfold SlabSys.freeRemoteStep
    simp only
    split <;> rfl
  · have hmem : (CustomMalloc.freeRemoteStep spurious (σ.view r o).toCell pc).1.mem =
        (CustomMalloc.freeRemoteStep spurious (σ.heap.cell r) pc).1.mem :=
      congrArg (fun z => z.1.mem) (freeRemoteStep_plus spurious (σ.heap.cell r) (σ.owed r) hused pc)
    rw [hmem] at htouch
    exact touchesFree_view htouch rfl rfl

theorem bump_effect (h : SlabInv c σ) {pb : BumpPc} (hpc : σ.pcs t = .bump k r pb) :
    Effect σ t (σ.bumpStep t k r pb).heap := by
  have hact : Active σ.heap r := by
    have hknow := h.knows hpc
    exact hknow.2.1.active
  refine .other r (CustomMalloc.bumpStep (σ.heap.cell r) pb).1 hact ?_
    (bumpStep_flat (σ.heap.cell r) pb)
    (fun a ha => absurd (congrFun (bumpStep_mem (σ.heap.cell r) pb) a) ha) ?_
  · cases pb <;> rfl
  · cases pb <;> exact ⟨rfl, rfl⟩

/-- **Inversion**: what a step of a call does to the heap. -/
theorem step_effect (h : SlabInv c σ) (hid : HasId σ.heap t) (he : σ.step c t spurious = some σ') :
    Effect σ t σ'.heap := by
  cases hpc : σ.pcs t with
  | idle =>
    simp only [SlabSys.step, hpc] at he
    cases he
  | enter bin | freeTld x r =>
    simp only [SlabSys.step, hpc] at he
    split at he <;>
    next hget =>
      cases he
      exact h.tldGet_effect hid hget
  | again bin hasTld =>
    simp only [SlabSys.step, hpc] at he
    rcases hget : CustomMalloc.tldGet c σ.heap t with ⟨o, s'⟩
    simp only [hget] at he
    split at he <;>
    · cases he
      exact h.tldGet_effect hid hget
  | book r slot zeroed | freeStat r =>
    simp only [SlabSys.step, hpc] at he
    split at he
    next => cases he
    next y hy =>
      split at he
      next => cases he
      next s' hs' =>
        cases he
        obtain ⟨-, hsame, hm, -⟩ := h.heap.statStore hy hs' rfl rfl rfl rfl
        exact .quiet hsame fun _ _ y _ _ => congrFun hm y
  | clear bin | next bin hasTld | cache bin slot zeroed r =>
    simp only [SlabSys.step, hpc] at he
    split at he
    next => cases he
    next =>
      cases he
      exact .quiet ⟨rfl, rfl, rfl, rfl⟩ fun _ _ _ _ _ => rfl
  | join k =>
    simp only [SlabSys.step, hpc] at he
    split at he <;>
    · cases he
      exact .quiet ⟨rfl, rfl, rfl, rfl⟩ fun _ _ _ _ _ => rfl
  | credit k r slot | freeCredit r =>
    simp only [SlabSys.step, hpc] at he
    cases he
    exact .quiet ⟨rfl, rfl, rfl, rfl⟩ fun _ _ _ _ _ => rfl
  | lock k =>
    simp only [SlabSys.step, hpc] at he
    obtain ⟨-, he⟩ := Option.ite_none_right_eq_some.mp he
    cases he
    exact .same σ t
  | unlock k slot zeroed | ret slot zeroed =>
    simp only [SlabSys.step, hpc] at he
    cases he
    exact .same σ t
  | head k | owner k r | test k r | follow k r | find bin slot zeroed =>
    simp only [SlabSys.step, hpc] at he
    split at he <;>
    · cases he
      exact .same σ t
  | look bin | freeFind x | freeOwner x r =>
    simp only [SlabSys.step, hpc] at he
    (repeat' split at he) <;>
    · cases he
      try exact .same σ t
  | grow k =>
    have hcall : CallOk σ t k := h.knows hpc
    simp only [SlabSys.step, hpc] at he
    split at he
    next => cases he
    next s' hnew =>
      cases he
      obtain ⟨-, hs, -, hm⟩ := h.heap.newPage_none hcall.bin.1 hcall.bin.2 hnew
      exact .quiet hs fun r hr => hm r hr.1
    next r s' hnew =>
      cases he
      exact .opened _ _ r (h.heap.newPage hcall.arena_lt hcall.bin.1 hcall.bin.2 hnew).2
  | claim bin slot zeroed r =>
    have hgot : σ.Got t bin slot zeroed r := h.knows hpc
    simp only [SlabSys.step, hpc] at he
    split at he
    next => cases he
    next y hy =>
      split at he
      next hno =>
        cases he
        exact .claim r y hgot.out.1 hy hno rfl
      next =>
        split at he <;>
        · cases he
          exact .same σ t
  | fast bin r pc =>
    simp only [SlabSys.step, hpc] at he
    cases he
    exact h.fast_effect hpc
  | bump k r pb =>
    simp only [SlabSys.step, hpc] at he
    cases he
    exact h.bump_effect hpc
  | freeLocal r pc =>
    simp only [SlabSys.step, hpc] at he
    cases he
    exact h.freeLocal_effect hpc
  | freeRemote r pc =>
    simp only [SlabSys.step, hpc] at he
    cases he
    exact h.freeRemote_effect hpc

end SlabInv

end CustomMalloc

import CustomMalloc.Concurrent.SlabInv

/-!
# Rules for the steps of overlapping calls

`SlabInv.advance` asks for everything. Most steps are of two kinds, and for these the rules
here ask for what is special about a step:

* it touches no page at all (`SlabInv.calm`, and `SlabInv.quiet` when it also leaves the
  locks and the clients alone);
* it is a step on the slots of one page (`SlabInv.onPage`), taken by the page's machines.

The pages a step does not touch keep their invariant (`PageAt.frame`).
-/

namespace CustomMalloc

open Lib.Words Lib.Bytes Lib.Chain Lib.Interleave Lib.Hands

variable {n : Nat} {c : Cfg} {σ σ' : SlabSys n} {r q : PageRef} {t u : Fin n} {x : Nat}
  {pc pc' : SlabPc}
  {s' : State}

/-! ## Pages a step leaves alone -/

/-- Two program counters do the same to page `r`. -/
structure SlabPc.Alike (r : PageRef) (pc pc' : SlabPc) : Prop where
  ownerOf : pc'.ownerOf r = pc.ownerOf r
  remoteOf : pc'.remoteOf r = pc.remoteOf r
  owes : pc'.owes r = pc.owes r

theorem SlabPc.plain_alike (h : pc.plain) (h' : pc'.plain) (r : PageRef) : pc.Alike r pc' := by
  obtain ⟨h₁, h₂, h₃⟩ := SlabPc.plain_at h r
  obtain ⟨h₁', h₂', h₃'⟩ := SlabPc.plain_at h' r
  exact ⟨h₁'.trans h₁.symm, h₂'.trans h₂.symm, h₃'.trans h₃.symm⟩

/-- From `pc` to `pc'` a call works on no page, and keeps its lock and the slot in its hand. -/
structure SlabPc.Glides (pc pc' : SlabPc) : Prop where
  plain : pc.plain
  plain' : pc'.plain
  lock : pc'.locking = pc.locking
  carry : pc'.carries = pc.carries

/-- All threads do to page `r` what they did. -/
theorem alike_upd (hpcs : σ'.pcs = upd σ.pcs t pc') (h : (σ.pcs t).Alike r pc') (u : Fin n) :
    (σ.pcs u).Alike r (σ'.pcs u) := by
  rw [hpcs]
  by_cases hu : u = t
  · rw [hu, upd_same]
    exact h
  · rw [upd_ne hu]
    exact ⟨rfl, rfl, rfl⟩

theorem SameSlotFields.refl (p : PageMeta) : SameSlotFields p p :=
  ⟨rfl, rfl, rfl, rfl, rfl, rfl, rfl, rfl, rfl⟩

theorem SameSlotFields.plus {p p' : PageMeta} (h : SameSlotFields p p') (k : Nat) :
    SameSlotFields (p.plus k) (p'.plus k) :=
  ⟨h.slotSize, h.capacity, h.bumpOffset, h.bumpEnd, h.localFree, h.localFreeCount, h.remoteFree,
    h.remoteFreeCount, congrArg (fun u => (u + k) % 2 ^ 16) h.used⟩

theorem Geom.plus {p : PageMeta} (h : Geom r p) (k : Nat) : Geom r (p.plus k) :=
  h.congr ⟨rfl, rfl, rfl, rfl, rfl, rfl, rfl, rfl, rfl, rfl⟩

namespace PageAt

/-- The page is as a one-page system says. -/
theorem of_view {v : PageSys n} {p₀ : PageMeta} {loc walk : List Nat}
    (hrole : Role σ'.pcs r v.owner)
    (hused : (σ'.heap.pages r).used < 2 ^ 16) (hmem : σ'.heap.mem = v.mem)
    (hpage : (σ'.heap.pages r).plus (σ'.owed r) = v.page)
    (hthreads : ∀ u, (σ'.pcs u).remoteOf r = v.threads u) (hlive : σ'.held r = v.live)
    (hlog : σ'.log r = v.log) (hc : Conserved r p₀ v loc walk) : PageAt σ' r := by
  have hview : σ'.view r v.owner = v := by
    unfold SlabSys.view
    rw [hmem, hpage, funext hthreads, hlive, hlog]
  refine ⟨hused, v.owner, loc, walk, hrole, ?_⟩
  rw [hview]
  exact hc.relabel (.refl _)

/-- The page, what is out of it and what the threads do to it are as they were. -/
theorem frame (h : PageAt σ r) (g : Geom r (σ.heap.pages r))
    (hp : SameSlotFields (σ.heap.pages r) (σ'.heap.pages r))
    (hm : ∀ y, r.start ≤ y → y < r.start + 65536 → σ'.heap.mem y = σ.heap.mem y)
    (hheld : σ'.held r = σ.held r) (hlog : σ'.log r = σ.log r)
    (hpcs : ∀ u, (σ.pcs u).Alike r (σ'.pcs u)) : PageAt σ' r := by
  obtain ⟨hused, o, loc, walk, hrole, hc⟩ := h
  have howed : σ'.owed r = σ.owed r := owed_congr fun u => (hpcs u).owes
  have hc' := (hc.outside (g.plus _) hm).relabel (hp.plus (σ.owed r))
  refine of_view (hrole.congr fun u => (hpcs u).ownerOf) ?_ rfl ?_
    (fun u => (hpcs u).remoteOf) hheld
    hlog hc'
  · rw [hp.used]
    exact hused
  · rw [howed]

end PageAt

/-! ## Steps that touch no page -/

theorem Rely.of_shared (h : Shared t σ.heap σ'.heap) (hids : Ids σ.heap)
    (htls : σ'.heap.tls u = σ.heap.tls u)
    (hheld : ∀ {r x}, (σ.pcs u).carries = some x → σ.Out r x → x ∈ σ'.held r)
    (hbytes : ∀ {r x}, Active σ.heap r → IsSlot r (σ.heap.pages r) x →
      ((σ.pcs u).carries = some x ∧ x ∈ σ.held r ∨
        (σ.pcs u).ownerOf r = some (.alloc (.bump (.used x)))) →
      ∀ y, x ≤ y → y < x + (σ.heap.pages r).slotSize → σ'.heap.mem y = σ.heap.mem y)
    (hbump : ∀ {r}, Active σ.heap r → (σ.pcs u).window = some r →
      (σ'.heap.pages r).bumpOffset = (σ.heap.pages r).bumpOffset) : Rely σ σ' u := by
  refine ⟨htls, h.active, h.arena, h.binIdx, h.slotSize, h.capacity, ?_,
    hheld, hbytes, fun hact hw => ⟨hbump hact hw, h.bumpEnd hact⟩⟩
  intro r y hact hy hown
  rcases h.owner hact with he | hno
  · exact he.trans hown
  · -- an id in use is not the one that stands for nobody
    have hlt := hids.lt u y hy
    have hle := hids.counter
    omega

/-- The bytes of the pages in use are as they were. -/
def SamePages (s s' : State) : Prop :=
  ∀ r, Active s r → ∀ y, r.start ≤ y → y < r.start + 65536 → s'.mem y = s.mem y

/-- A slot lies in its page. -/
theorem HeapOk.slot_range {s : State} (h : HeapOk c s) (hact : Active s r)
    (hx : IsSlot r (s.pages r) x) : r.start ≤ x ∧ x + (s.pages r).slotSize ≤ r.start + 65536 :=
  isSlot_bounds (h.geom hact) hx

theorem Shared.tls (h : Shared t σ.heap σ'.heap) (hut : u ≠ t) : σ'.heap.tls u = σ.heap.tls u :=
  h.others u fun he => hut (Fin.ext he)

theorem Rely.quiet (h : SlabInv c σ) (hs : Shared t σ.heap σ'.heap)
    (htls : σ'.heap.tls u = σ.heap.tls u) (hheld : σ'.held = σ.held)
    (hm : SamePages σ.heap σ'.heap) (hbump : ∀ {r}, Active σ.heap r →
      (σ'.heap.pages r).bumpOffset = (σ.heap.pages r).bumpOffset) :
    Rely σ σ' u := by
  refine .of_shared hs h.heap.ids htls ?_ ?_ fun hact _ => hbump hact
  · intro r x _ ho
    rw [hheld]
    exact ho.2
  · intro r x hact hslot _ y h₁ h₂
    have hb := h.heap.slot_range hact hslot
    exact hm r hact y (by omega) (by omega)

/-- What a call knows where it stands. -/
theorem SlabInv.knows (h : SlabInv c σ) (hpc : σ.pcs t = pc) : Knows σ t pc := hpc ▸ h.pcs t

/-- A call that is not in the window is in nobody's way. -/
theorem SlabSys.noWindow (σ : SlabSys n) (hnone : pc.window = none) (u : Fin n) (r : PageRef)
    (_ : u ≠ t) (hw : pc.window = some r) : (σ.pcs u).bumps ≠ some r := by
  rw [hnone] at hw
  cases hw

/-- **Rule**: a step that touches no page. -/
theorem SlabInv.calm (h : SlabInv c σ) (hpcs : σ'.pcs = upd σ.pcs t pc') (hheap : HeapOk c σ'.heap)
    (hs : SameMeta σ.heap σ'.heap) (ho : OthersKept t σ.heap σ'.heap)
    (hm : SamePages σ.heap σ'.heap) (hheld : σ'.held = σ.held) (hlog : σ'.log = σ.log)
    (hpc : σ.pcs t = pc) (hplain : pc.plain) (hplain' : pc'.plain)
    (hlocks : ∀ a u, σ'.locks a = some u ↔ (σ'.pcs u).locking = some a) (hok : Knows σ' t pc')
    (hwin : ∀ u r, u ≠ t → pc'.window = some r → (σ.pcs u).bumps ≠ some r)
    (hhands : OneHolder σ'.live fun u => (σ'.pcs u).carries)
    (hout : ∀ x ∈ σ'.live, ∃ r, σ.Out r x) : SlabInv c σ' := by
  have hpages : ∀ r, σ'.heap.pages r = σ.heap.pages r := fun r => by rw [hs.pages]
  refine h.advance hpcs hheap hlocks ?_ ?_ hok hwin ?_ hhands ?_ ?_
  · intro r hr
    have hact := hs.active_iff.mp hr
    refine (h.pages r hact).frame (h.heap.geom hact) ?_ (hm r hact) (by rw [hheld]) (by rw [hlog])
      (alike_upd hpcs (by rw [hpc]; exact SlabPc.plain_alike hplain hplain' r))
    rw [hpages]
    exact .refl _
  · have hshared : Shared t σ.heap σ'.heap := .of_same hs ho
    exact fun u hu => .quiet h hshared (hshared.tls hu) hheld hm fun _ => by rw [hpages]
  · intro u r _ hb
    rw [SlabPc.plain_bumps hplain'] at hb
    cases hb
  · intro x hx
    obtain ⟨r, hact, hmem⟩ := hout x hx
    exact ⟨r, hs.active_iff.mpr hact, by rw [hheld]; exact hmem⟩
  · intro r x hx
    rw [hheld] at hx
    exact hs.active_iff.mpr (h.inUse hx)

/-- Only thread `t` moved, and it holds the same lock. -/
theorem SlabInv.locks_upd (h : SlabInv c σ) (hpcs : σ'.pcs = upd σ.pcs t pc')
    (hlocks : σ'.locks = σ.locks) (hlock : pc'.locking = (σ.pcs t).locking) (a : Nat) (u : Fin n) :
    σ'.locks a = some u ↔ (σ'.pcs u).locking = some a := by
  rw [hlocks, h.locks, hpcs]
  by_cases hu : u = t
  · rw [hu, upd_same, hlock]
  · rw [upd_ne hu]

theorem SlabInv.hands_upd (h : SlabInv c σ) {pcs' : Fin n → SlabPc} (hpcs : pcs' = upd σ.pcs t pc')
    (hcarry : pc'.carries = (σ.pcs t).carries) : OneHolder σ.live fun u => (pcs' u).carries := by
  refine h.hands.congr fun u => ?_
  rw [hpcs]
  by_cases hu : u = t
  · rw [hu, upd_same, hcarry]
  · rw [upd_ne hu]

/-- **Rule**: a step that touches no page, no lock and no client. -/
theorem SlabInv.quiet (h : SlabInv c σ) (hheap : HeapOk c s') (hs : SameMeta σ.heap s')
    (ho : OthersKept t σ.heap s') (hm : SamePages σ.heap s') (hpc : σ.pcs t = pc)
    (hg : pc.Glides pc') (hok : Knows ((σ.onHeap s').goto t pc') t pc')
    (hwin : ∀ u r, u ≠ t → pc'.window = some r → (σ.pcs u).bumps ≠ some r) :
    SlabInv c ((σ.onHeap s').goto t pc') :=
  h.calm rfl hheap hs ho hm rfl rfl hpc hg.plain hg.plain'
    (h.locks_upd rfl rfl (by rw [hpc, hg.lock])) hok hwin
    (h.hands_upd rfl (by rw [hpc, hg.carry])) h.out

/-- A step that only reads. -/
theorem SlabInv.reads (h : SlabInv c σ) (hpc : σ.pcs t = pc) (hg : pc.Glides pc')
    (hok : Knows (σ.goto t pc') t pc')
    (hwin : ∀ u r, u ≠ t → pc'.window = some r → (σ.pcs u).bumps ≠ some r) :
    SlabInv c (σ.goto t pc') :=
  h.quiet h.heap ⟨rfl, rfl, rfl, rfl⟩ (fun _ _ => rfl) (fun _ _ _ _ _ => rfl) hpc hg hok hwin

/-- No thread moves, and every thread keeps what it relies on. -/
theorem SlabInv.still (h : SlabInv c σ) (hpcs : σ'.pcs = σ.pcs) (hlocks : σ'.locks = σ.locks)
    (hlive : σ'.live = σ.live) (hheld : σ'.held = σ.held) (hheap : HeapOk c σ'.heap)
    (hs : SameMeta σ.heap σ'.heap) (hpages : ∀ r, Active σ'.heap r → PageAt σ' r)
    (hrely : ∀ u, Rely σ σ' u) : SlabInv c σ' := by
  refine ⟨hheap, ?_, hpages, fun u => ?_, ?_, ?_, fun x hx => ?_, fun hx => ?_⟩
  · rw [hlocks, hpcs]
    exact h.locks
  · rw [hpcs]
    exact (hrely u).knows h.pages (h.pcs u)
  · rw [hpcs]
    exact h.apart
  · rw [hlive, hpcs]
    exact h.hands
  · rw [hlive] at hx
    obtain ⟨r, hact, hmem⟩ := h.out x hx
    exact ⟨r, hs.active_iff.mpr hact, by rw [hheld]; exact hmem⟩
  · rw [hheld] at hx
    exact hs.active_iff.mpr (h.inUse hx)

/-! ## Where a slot can be -/

/-- What a call carries is out of its page. -/
theorem Knows.carried (h : Knows σ t pc) (hx : pc.carries = some x) : ∃ r, σ.Out r x := by
  cases pc with
  | idle | enter | look | clear | again | next | join | lock | head | grow | owner | test | follow
  | fast | freeLocal | freeStat | freeRemote | freeCredit =>
    exact absurd hx (by simp [SlabPc.carries])
  | book r y z =>
    cases hx
    exact ⟨r, h.2.2.1⟩
  | bump k r pc =>
    cases pc with
    | read | load | store => exact absurd hx (by simp [SlabPc.carries])
    | used y =>
      obtain rfl := Option.some.inj hx
      exact ⟨r, (h.2.2.2 y rfl).2.1⟩
  | credit k r y =>
    cases hx
    exact ⟨r, h.2.2.2.1⟩
  | unlock k y z =>
    obtain ⟨hne, hy⟩ := Option.ite_none_left_eq_some.mp hx
    cases hy
    obtain ⟨r, -, ho, -⟩ := h.2 hne
    exact ⟨r, ho⟩
  | find bin y z =>
    cases hx
    obtain ⟨r, hg⟩ := h
    exact ⟨r, hg.out⟩
  | claim bin y z r =>
    cases hx
    exact ⟨r, h.out⟩
  | cache bin y z r =>
    cases hx
    exact ⟨r, h.1.out⟩
  | ret y z =>
    obtain ⟨hne, hy⟩ := Option.ite_none_left_eq_some.mp hx
    cases hy
    obtain ⟨r, ho, -⟩ := h hne
    exact ⟨r, ho⟩
  | freeFind y =>
    cases hx
    obtain ⟨r, ho, -⟩ := h
    exact ⟨r, ho⟩
  | freeTld y r =>
    cases hx
    exact ⟨r, h.1⟩
  | freeOwner y r =>
    cases hx
    exact ⟨r, h.1⟩

namespace SlabInv

/-- A slot is a slot of one page. -/
theorem slot_page (h : SlabInv c σ) (hr : Active σ.heap r) (hq : Active σ.heap q)
    (hx : IsSlot r (σ.heap.pages r) x) (hx' : IsSlot q (σ.heap.pages q) x) : r = q := by
  have h₁ := h.heap.slot_range hr hx
  have h₂ := h.heap.slot_range hq hx'
  have hge := (h.heap.geom hr).slot_ge
  have hge' := (h.heap.geom hq).slot_ge
  exact h.heap.page_unique hr.1 hq.1 (y := x) h₁.1 (by omega) h₂.1 (by omega)

theorem out_slot (h : SlabInv c σ) (ho : σ.Out r x) : IsSlot r (σ.heap.pages r) x :=
  (h.pages r ho.1).slot ho.2

/-- A slot that has not left its page is in nobody's hand. -/
theorem nowhere (h : SlabInv c σ) (hact : Active σ.heap r) (hslot : IsSlot r (σ.heap.pages r) x)
    (hx : x ∉ σ.held r) : ¬ Somewhere σ.live (fun u => (σ.pcs u).carries) x := by
  have hno : ∀ q, ¬ σ.Out q x := by
    intro q ho
    obtain rfl := h.slot_page hact ho.1 hslot (h.out_slot ho)
    exact hx ho.2
  rintro (hl | ⟨u, hu⟩)
  · obtain ⟨q, ho⟩ := h.out x hl
    exact hno q ho
  · obtain ⟨q, ho⟩ := (h.pcs u).carried hu
    exact hno q ho

/-- Slots of two places share no byte. -/
theorem slots_apart (h : SlabInv c σ) (hr : Active σ.heap r) (hq : Active σ.heap q) {y a : Nat}
    (hx : IsSlot r (σ.heap.pages r) x) (hy : IsSlot q (σ.heap.pages q) y) (hne : x ≠ y)
    (h₁ : x ≤ a) (h₂ : a < x + (σ.heap.pages r).slotSize) (h₃ : y ≤ a)
    (h₄ : a < y + (σ.heap.pages q).slotSize) : False := by
  have hb := h.heap.slot_range hr hx
  have hb' := h.heap.slot_range hq hy
  obtain rfl := h.heap.page_unique hr.1 hq.1 (y := a) (by omega) (by omega)
    (by omega) (by omega)
  rcases slotList_apart hx hy hne with ha | ha <;> omega

end SlabInv

/-! ## Steps on the slots of one page -/

/-- The cell with which a page is left alone. -/
theorem State.setCell_self (s : State) (r : PageRef) : s.setCell r (s.cell r) = s := by
  show { s with pages := upd s.pages r (s.pages r), mem := s.mem } = s
  rw [upd_eta]

/-- **Rule**: thread `t` takes a step on the slots of page `r`. -/
theorem SlabInv.onPage (h : SlabInv c σ) (hact : Active σ.heap r) (cell : Cell)
    (hflat : cell.page.flat = (σ.heap.pages r).flat) (hpcs : σ'.pcs = upd σ.pcs t pc')
    (hheap : σ'.heap = σ.heap.setCell r cell) (hlocks : σ'.locks = σ.locks)
    (hlive : σ'.live = σ.live) (hlock : pc'.locking = (σ.pcs t).locking)
    (hheld : ∀ q, q ≠ r → σ'.held q = σ.held q) (hlog : ∀ q, q ≠ r → σ'.log q = σ.log q)
    (halike : ∀ q, q ≠ r → (σ.pcs t).Alike q pc') (hpage : PageAt σ' r)
    (htouch : ∀ a, cell.mem a ≠ σ.heap.mem a → ∃ y, IsSlot r (σ.heap.pages r) y ∧ y ∉ σ.held r ∧
      (∀ u, u ≠ t → (σ.pcs u).ownerOf r ≠ some (.alloc (.bump (.used y)))) ∧
      y ≤ a ∧ a < y + (σ.heap.pages r).slotSize)
    (hkeep : ∀ y ∈ σ.held r, (σ.pcs t).carries ≠ some y → y ∈ σ'.held r)
    (hbump : ∀ u, u ≠ t → (σ.pcs u).window = some r →
      cell.page.bumpOffset = (σ.heap.pages r).bumpOffset)
    (hok : Knows σ' t pc') (hwin : ∀ u q, u ≠ t → pc'.window = some q → (σ.pcs u).bumps ≠ some q)
    (hbumps : ∀ u q, u ≠ t → pc'.bumps = some q → (σ.pcs u).window ≠ some q)
    (hhands : OneHolder σ.live fun u => (σ'.pcs u).carries) : SlabInv c σ' := by
  have hpageq : ∀ q, q ≠ r → σ'.heap.pages q = σ.heap.pages q := by
    intro q hq
    rw [hheap]
    exact upd_ne hq
  have hpager : σ'.heap.pages r = cell.page := by
    rw [hheap]
    exact upd_same ..
  have hmem : σ'.heap.mem = cell.mem := by rw [hheap]; rfl
  have hactive : ∀ q, Active σ'.heap q ↔ Active σ.heap q := by
    rw [hheap]
    exact HeapOk.setCell_active hflat
  have hrange : ∀ a, cell.mem a ≠ σ.heap.mem a → r.start ≤ a ∧ a < r.start + 65536 := by
    intro a ha
    obtain ⟨y, hslot, -, -, h₁, h₂⟩ := htouch a ha
    have hb := h.heap.slot_range hact hslot
    omega
  have hother : ∀ q, Active σ.heap q → q ≠ r → ∀ y, q.start ≤ y → y < q.start + 65536 →
      σ'.heap.mem y = σ.heap.mem y := by
    intro q hq hqr y h₁ h₂
    rw [hmem]
    by_contra hne
    obtain ⟨h₃, h₄⟩ := hrange y hne
    exact hqr (h.heap.page_unique hq.1 hact.1 h₁ h₂ h₃ h₄)
  have hkept : ∀ {q y}, y ∈ σ.held q → (σ.pcs t).carries ≠ some y → y ∈ σ'.held q := by
    intro q y hy hne
    by_cases hqr : q = r
    · rw [hqr] at hy ⊢
      exact hkeep y hy hne
    · rw [hheld q hqr]
      exact hy
  refine h.advance hpcs ?_ (h.locks_upd hpcs hlocks hlock) ?_ ?_ hok hwin hbumps ?_ ?_ ?_
  · rw [hheap]
    exact h.heap.setCell hact hflat hrange
  · intro q hq
    by_cases hqr : q = r
    · rw [hqr]
      exact hpage
    · have hq' := (hactive q).mp hq
      refine (h.pages q hq').frame (h.heap.geom hq') ?_ (hother q hq' hqr) (hheld q hqr)
        (hlog q hqr)
        (alike_upd hpcs (halike q hqr))
      rw [hpageq q hqr]
      exact .refl _
  · intro u hu
    have hshared : Shared t σ.heap σ'.heap := by
      rw [hheap]
      exact HeapOk.setCell_shared hflat
    refine .of_shared hshared h.heap.ids (hshared.tls hu) ?_ ?_ ?_
    · intro q y hy ho
      exact hkept ho.2 fun ht => hu (h.hands.once hy ht)
    · intro q y hq hslot hy a h₁ h₂
      rw [hmem]
      by_contra hne
      obtain ⟨z, hz, hheldz, howner, h₃, h₄⟩ := htouch a hne
      refine h.slots_apart hq hact hslot hz ?_ h₁ h₂ h₃ h₄
      rintro rfl
      obtain rfl := h.slot_page hq hact hslot hz
      rcases hy with ⟨-, hy⟩ | hy
      · exact hheldz hy
      · exact howner u hu hy
    · intro q _ hw
      by_cases hqr : q = r
      · rw [hqr] at hw ⊢
        rw [hpager]
        exact hbump u hu hw
      · rw [hpageq q hqr]
  · rw [hlive]
    exact hhands
  · intro y hy
    rw [hlive] at hy
    obtain ⟨q, hq, hmemq⟩ := h.out y hy
    exact ⟨q, (hactive q).mpr hq, hkept hmemq fun ht => h.hands.apart ht hy⟩
  · intro q y hy
    refine (hactive q).mpr ?_
    by_cases hqr : q = r
    · rw [hqr]
      exact hact
    · rw [hheld q hqr] at hy
      exact h.inUse hy

end CustomMalloc

import CustomMalloc.ReliefRun
import CustomMalloc.Props.Conservation

/-!
# Pressure relief and the free lists

`zone_pressure_relief` advises the pages with no slot in use. Such a page is not without
contents: its free slots hold the links of the free lists, in the memory that is advised.
The kernel may drop a page without harm to its lists exactly when no link is there to
lose, that is, when each list has at most one slot. Then the first word of every slot is
zero, and it stays so in every OS page that nobody writes (`ReliefHolds.slack`); a later
free writes its link, which ends the advice for the OS page.
-/

namespace CustomMalloc

open Lib.Words Lib.Bytes Lib.Chain Lib.Intervals Lib.Post

variable {c : Cfg} {P : ReliefSys → ReliefOp → Prop} {σ σ' : ReliefSys} {s s' : State}
  {G G' : Ghost}
  {m : Mem} {r : PageRef} {p : PageMeta}

/-- Each free list has at most one slot. -/
def ThinPage (p : PageMeta) : Prop := p.localFreeCount ≤ 1 ∧ p.remoteFreeCount ≤ 1

/-- Whole callbacks find thin pages only, and `slab_free` finds what it is given. -/
def ReliefOp.Thin (c : Cfg) (σ : ReliefSys) : ReliefOp → Prop
  | .call _ op => op.Safe c σ.toSys
  | .relief pages => ∀ r ∈ pages, ThinPage (σ.heap.pages r)
  | .madvise _ => False

/-! ## The first words of the slots -/

/-- The first word of every slot is zero, as far as it lies in OS page `n`. -/
def Slack (c : Cfg) (s : State) (r : PageRef) (n : Nat) : Prop :=
  ∀ x ∈ slotList r (s.pages r) (s.pages r).capacity, ∀ y, x ≤ y → y < x + 8 → y / c.osPage = n →
    s.mem y = 0

/-- An empty page with thin lists has no link in it. -/
theorem PageInv.slack {d : Bool} (h : PageInv d m r p []) (hthin : ThinPage p) :
    ∀ x ∈ slotList r p p.capacity, ∀ y, x ≤ y → y < x + 8 → m y = 0 := by
  obtain ⟨k, loc, rem, hs⟩ := h.slots
  have hlast : ∀ {head : Option Nat} {l : List Nat}, Linked (link m) head l → l.length ≤ 1 →
      ∀ x ∈ l, readWord m x = 0 := fun hl hle x hx =>
    ptr_eq_none.mp (hl.length_le_one_iff.mp hle x hx)
  intro x hx
  obtain ⟨i, hi, rfl⟩ := mem_slotList.mp hx
  by_cases hik : i < k
  · refine readWord_eq_zero_iff.mp ?_
    rcases hs.mem_parts.mp (mem_slotList.mpr ⟨i, hik, rfl⟩) with hx | hx | hx
    · exact hlast hs.local_linked (hs.local_count ▸ hthin.1) _ hx
    · exact hlast hs.remote_linked (hs.remote_count ▸ hthin.2) _ hx
    · exact absurd hx List.not_mem_nil
  · -- a slot that was never carved is zero altogether
    intro y h₁ h₂
    have hin := h.geom.slot_in hi
    have hge := h.geom.slot_ge
    have hle := Nat.mul_le_mul_right p.slotSize (Nat.not_lt.mp hik)
    refine hs.virgin y ?_ (by omega)
    rw [hs.bump_eq]
    unfold slotAt at h₁
    omega

/-- The slots of an active page stay where they are. -/
theorem ActiveKept.slotList (hk : ActiveKept s s') (h : Inv c s G) (h' : Inv c s' G')
    (hd : IsData s.segs r) (hact : (s.pages r).state = .active) :
    CustomMalloc.slotList r (s'.pages r) (s'.pages r).capacity =
      CustomMalloc.slotList r (s.pages r) (s.pages r).capacity := by
  obtain ⟨hd', hact', -, hbin⟩ := hk r hd hact
  obtain ⟨hinv, -⟩ := h.active hd hact
  obtain ⟨hinv', -⟩ := h'.active hd' hact'
  have hsize : (s'.pages r).slotSize = (s.pages r).slotSize := by
    rw [hinv.geom.slot_eq, hinv'.geom.slot_eq, hbin]
  have hcap : (s'.pages r).capacity = (s.pages r).capacity := by
    rw [hinv.geom.cap_eq, hinv'.geom.cap_eq, hsize]
  unfold CustomMalloc.slotList slotAt
  rw [hsize, hcap]

/-! ## The invariant of the runs -/

/-- Every advised OS page belongs to an active page and has no link in it. -/
structure ReliefHolds (c : Cfg) (σ : ReliefSys) (G : Ghost) : Prop
    extends SlabHolds c σ.toSys G where
  slack : ∀ n, σ.advised n → ∃ r, IsData σ.heap.segs r ∧ (σ.heap.pages r).state = .active ∧
    OsPageOf c r n ∧ Slack c σ.heap r n

theorem ReliefHolds.call (h : ReliefHolds c σ G) {t q : Nat} {op : SlabOp} {ans : List (Option Nat)}
    {τ : Sys} (hlow : op.Low σ.heap) (hlegal : op.Legal σ.live) (hsafe : op.Safe c σ.toSys)
    (he : σ.slabCall c t op ans = .ok (q, τ)) : ∃ G', ReliefHolds c (σ.afterCall c τ) G' := by
  obtain ⟨G', h'⟩ := slabStep_holds (P := fun _ σ op => op.Safe c σ) (fun _ _ _ hs => hs)
    ⟨G, h.toSlabHolds⟩ (.call t op ans q hlow hlegal hsafe he)
  have hkept := h.toHolds.call_kept hlow hlegal he
  refine ⟨G', h', ?_⟩
  rintro n ⟨hn, hsame⟩
  obtain ⟨r, hd, hact, hin, hslack⟩ := h.slack n hn
  obtain ⟨hd', hact', -⟩ := hkept r hd hact
  refine ⟨r, hd', hact', hin, fun x hx y h₁ h₂ hy => ?_⟩
  have hslots := hkept.slotList h.inv h'.inv hd hact
  show τ.heap.mem y = 0
  rw [hsame y hy]
  exact hslack x (hslots ▸ hx) y h₁ h₂ hy

theorem ReliefHolds.write (h : ReliefHolds c σ G) {y : Nat} {v : UInt8} (hy : σ.Owns y) :
    ReliefHolds c (σ.afterWrite c y v) G := by
  refine ⟨⟨h.toHolds.write fun z hz => ?_, h.exact⟩, ?_⟩
  · by_cases hzy : z = y
    · rw [hzy]
      exact hy
    · exact absurd (upd_ne hzy) hz
  · rintro n ⟨hn, hne⟩
    obtain ⟨r, hd, hact, hin, hslack⟩ := h.slack n hn
    refine ⟨r, hd, hact, hin, fun x hx z h₁ h₂ hz => ?_⟩
    have hzy : z ≠ y := by
      rintro rfl
      exact hne hz
    exact (upd_ne hzy).trans (hslack x hx z h₁ h₂ hz)

theorem ReliefHolds.relief (h : ReliefHolds c σ G) {pages : List PageRef}
    (he : zonePressureRelief σ.heap = .ok pages) (hthin : ∀ r ∈ pages, ThinPage (σ.heap.pages r)) :
    ReliefHolds c (σ.advise c pages) G := by
  refine ⟨h.toSlabHolds, ?_⟩
  rintro n (hn | ⟨r, hr, hin⟩)
  · exact h.slack n hn
  · obtain ⟨hd, hact, hempty⟩ := relief_mem h.inv.segLists he hr
    obtain ⟨hinv, -⟩ := h.inv.active hd hact
    have hbusy : G.busy r = [] := by
      obtain ⟨k, loc, rem, hs⟩ := hinv.slots
      simp only [pageIsEmpty, Bool.and_eq_true, beq_iff_eq] at hempty
      exact List.length_eq_zero_iff.mp (hs.used_eq.symm.trans hempty.1)
    rw [hbusy] at hinv
    exact ⟨r, hd, hact, hin, fun x hx y h₁ h₂ _ => hinv.slack (hthin r hr) x hx y h₁ h₂⟩

/-- No link of a free list is dropped, because the bytes are zero already. -/
theorem ReliefHolds.drop (h : ReliefHolds c σ G) {D : Nat → Bool}
    (hD : ∀ n, D n = true → σ.advised n) : ReliefHolds c (σ.drop c D) G := by
  have hzero : ∀ y, zeroOn c D σ.heap.mem y = σ.heap.mem y ∨ zeroOn c D σ.heap.mem y = 0 := fun y =>
    (zeroOn_cases c D σ.heap.mem y).imp_right And.right
  have hinv : Inv c (σ.drop c D).heap G := by
    refine h.inv.zeroed hzero fun {r} hd hact x hx => readWord_congr fun y h₁ h₂ => ?_
    rcases zeroOn_cases c D σ.heap.mem y with hsame | ⟨hdrop, hz⟩
    · exact hsame
    · obtain ⟨r', hd', hact', hin, hslack⟩ := h.slack _ (hD _ hdrop)
      obtain ⟨hinv, -⟩ := h.inv.active hd hact
      obtain ⟨i, hi, rfl⟩ := mem_slotList.mp hx
      have hslot := hinv.geom.slot_in hi
      have hge := hinv.geom.slot_ge
      obtain ⟨b₁, b₂⟩ := hin.bytes (h.inv.active hd' hact').1.geom.start_al rfl
      obtain rfl := h.inv.page_unique hd hd' (by omega) (by omega) b₁ b₂
      rw [hz, hslack _ hx y h₁ h₂ rfl]
  refine ⟨⟨⟨hinv, h.nodup, fun x hx => ?_⟩, h.exact⟩, fun n hn => ?_⟩
  · obtain ⟨k, hk, hb⟩ := h.blk x hx
    exact ⟨k, hk, hb.same ⟨rfl, rfl, rfl, rfl⟩⟩
  · obtain ⟨r, hd, hact, hin, hslack⟩ := h.slack n hn
    refine ⟨r, hd, hact, hin, fun x hx y h₁ h₂ hy => ?_⟩
    rcases hzero y with he | he
    · exact he.trans (hslack x hx y h₁ h₂ hy)
    · exact he

theorem reliefStep_holds (hthin : ∀ σ op, P σ op → op.Thin c σ) (h : ∃ G, ReliefHolds c σ G)
    (hs : ReliefStep c P σ σ') : ∃ G, ReliefHolds c σ' G := by
  obtain ⟨G, h⟩ := h
  cases hs with
  | call t op ans q hlow hlegal hP he => exact h.call hlow hlegal (hthin _ _ hP) he
  | write y v hy => exact ⟨G, h.write hy⟩
  | relief pages hP he => exact ⟨G, h.relief he (hthin _ _ hP)⟩
  | test r hd hact hempty => exact ⟨G, h.toSlabHolds, h.slack⟩
  | madvise r hr hP => exact (hthin _ _ hP).elim
  | drop D hD => exact ⟨G, h.drop hD⟩

/-- The run lemma. -/
theorem reliefReachable_holds (hthin : ∀ σ op, P σ op → op.Thin c σ) (h : ReliefReachable c P σ) :
    ∃ G, ReliefHolds c σ G := by
  induction h with
  | refl => exact ⟨_, initial_slabHolds c, fun _ hn => hn.elim⟩
  | tail _ hs ih => exact reliefStep_holds hthin ih hs

/-! ## The condition is needed -/

/-- When a whole page reads as zero, its free lists have no second slot. -/
theorem Partitioned.thin_of_zero {σ : Sys} {loc rem : List Nat} (h : Partitioned σ r loc rem)
    (g : Geom r (σ.heap.pages r))
    (hz : ∀ y, r.start ≤ y → y < r.start + 65536 → σ.heap.mem y = 0) :
    ThinPage (σ.heap.pages r) := by
  have hlink : ∀ x ∈ loc ++ rem, link σ.heap.mem x = none := by
    intro x hx
    have hmem : x ∈ slotList r (σ.heap.pages r) (σ.heap.pages r).capacity := by
      refine h.parts.subset (List.mem_append_left _ ?_)
      rw [List.append_assoc]
      exact List.mem_append_right _ hx
    obtain ⟨i, hi, rfl⟩ := mem_slotList.mp hmem
    have hin := g.slot_in hi
    have hge := g.slot_ge
    exact ptr_eq_none.mpr (readWord_eq_zero_iff.mpr fun y h₁ h₂ => hz y (by omega) (by omega))
  constructor
  · rw [← h.local_count]
    exact h.local_chain.length_le_one_iff.mpr fun x hx => hlink x (List.mem_append_left _ hx)
  · rw [← h.remote_count]
    exact h.remote_chain.length_le_one_iff.mpr fun x hx => hlink x (List.mem_append_right _ hx)

/-- In every run whose reliefs find thin pages, the slots of every active page are
conserved, whatever the kernel drops. At every state of such a run, the relief is
harmless exactly when the pages it advises are thin. -/
theorem relief_keeps_slots (c : Cfg) (σ : ReliefSys)
    (h : ReliefReachable c (fun σ op => op.Thin c σ) σ) :
    (∀ r, IsData σ.heap.segs r → (σ.heap.pages r).state = .active →
      ∃ loc rem, Partitioned σ.toSys r loc rem) ∧
    (c.debug = true → debugHeapCheck σ.heap = .ok true) ∧
    ∀ pages, zonePressureRelief σ.heap = .ok pages → c.osPage ≤ pageSizeAlloc →
      ((∀ D : Nat → Bool, (∀ n, D n = true → (σ.advise c pages).advised n) →
        ∀ r, IsData σ.heap.segs r → (σ.heap.pages r).state = .active →
          ∃ loc rem, Partitioned (σ.drop c D).toSys r loc rem) ↔
      ∀ r ∈ pages, ThinPage (σ.heap.pages r)) := by
  obtain ⟨G, hh⟩ := reliefReachable_holds (fun _ _ hs => hs) h
  refine ⟨fun r hd hact => hh.toSlabHolds.partitioned hd hact,
    fun hdebug => hh.inv.debugHeapCheck hdebug, fun pages he hos => ⟨fun hall r hr => ?_, ?_⟩⟩
  · obtain ⟨hd, hact, -⟩ := relief_mem hh.inv.segLists he hr
    have hgeom := (hh.inv.active hd hact).1.geom
    obtain ⟨loc, rem, hpart⟩ := hall (fun n => decide (OsPageOf c r n))
      (fun n hn => Or.inr ⟨r, hr, of_decide_eq_true hn⟩) r hd hact
    exact hpart.thin_of_zero hgeom fun y h₁ h₂ => drop_page_zero hos hgeom.start_al h₁ h₂
  · intro hthin D hD r hd hact
    exact ((hh.relief he hthin).drop hD).toSlabHolds.partitioned hd hact

/-- A slot was handed out. -/
def slotHeld : ReliefSys :=
  (ReliefSys.initial (.page4k true)).call (.page4k true) 0 (.alloc 32000)
    [some 0x10000000, some 0x20000000]

/-- And came back. -/
def slotReturned : ReliefSys := slotHeld.call (.page4k true) 0 (.free 0x20010000) []

/-- Or the other slot of the page was handed out too. -/
def bothHeld : ReliefSys := slotHeld.call (.page4k true) 0 (.alloc 32000) []

/-- And one came back after the other. -/
def oneLeft : ReliefSys := bothHeld.call (.page4k true) 0 (.free 0x20010000) []

def bothReturned : ReliefSys := oneLeft.call (.page4k true) 0 (.free 0x20017ED0) []

theorem slotHeld_reachable {P : ReliefSys → ReliefOp → Prop}
    (hP : ∀ σ t op, op.Safe (.page4k true) σ.toSys → P σ (.call t op)) :
    ReliefReachable (.page4k true) P slotHeld :=
  ReliefReachable.call .refl 0 (.alloc 32000) [some 0x10000000, some 0x20000000] trivial
    (show 32000 < 2 ^ 64 by decide) (hP _ _ _ (largeFits_small (by decide))) (by decide +kernel)

theorem bothReturned_reachable {P : ReliefSys → ReliefOp → Prop}
    (hP : ∀ σ t op, op.Safe (.page4k true) σ.toSys → P σ (.call t op)) :
    ReliefReachable (.page4k true) P bothReturned := by
  have h : ReliefReachable (.page4k true) P bothHeld :=
    (slotHeld_reachable hP).call 0 (.alloc 32000) [] trivial (show 32000 < 2 ^ 64 by decide)
      (hP _ _ _ (largeFits_small (by decide))) (by decide +kernel)
  have h' : ReliefReachable (.page4k true) P oneLeft :=
    h.call 0 (.free 0x20010000) [] (fun _ _ _ _ => by decide) (by decide +kernel)
      (hP _ _ _ (Or.inr (Or.inr (by decide +kernel)))) (by decide +kernel)
  exact h'.call 0 (.free 0x20017ED0) [] (fun _ _ _ _ => by decide) (by decide +kernel)
    (hP _ _ _ (Or.inr (Or.inr (by decide +kernel)))) (by decide +kernel)

/-- The callback advises one page, and the kernel drops it. -/
def ReliefSys.dropped (σ : ReliefSys) (c : Cfg) (r : PageRef) : ReliefSys :=
  (σ.advise c [r]).dropPage c r

theorem ReliefReachable.dropped {pages : List PageRef} (h : ReliefReachable c P σ)
    (he : zonePressureRelief σ.heap = .ok pages) (hP : P σ (.relief pages)) (hr : pages = [r]) :
    ReliefReachable c P (σ.dropped c r) := by
  subst hr
  exact (ReliefReachable.dropPage (h.tail (.relief [r] hP he)) r) fun n hn =>
    Or.inr ⟨r, List.mem_cons_self .., hn⟩

theorem relief_keeps_slots_one_free :
    ∃ pages, zonePressureRelief slotReturned.heap = .ok pages ∧ pages = [⟨0x20000000, 1⟩] ∧
      ∃ loc rem, Partitioned (slotReturned.dropped (.page4k true) ⟨0x20000000, 1⟩).toSys
        ⟨0x20000000, 1⟩ loc rem := by
  have h₁ : ReliefReachable (.page4k true) (fun σ op => op.Thin (.page4k true) σ) slotReturned :=
    (slotHeld_reachable fun _ _ _ hs => hs).call 0 (.free 0x20010000) [] (fun _ _ _ _ => by decide)
      (by decide +kernel) (Or.inr (Or.inr (by decide +kernel))) (by decide +kernel)
  obtain ⟨pages, he, hpages⟩ := exists_of_passes (zonePressureRelief slotReturned.heap)
    (fun l => l == [⟨0x20000000, 1⟩]) (by decide +kernel)
  obtain rfl := eq_of_beq hpages
  have h₂ := h₁.dropped he (fun r hr => ?_) rfl
  · obtain ⟨hparts, -⟩ := relief_keeps_slots _ _ h₂
    exact ⟨_, he, rfl, hparts ⟨0x20000000, 1⟩ ⟨by decide +kernel, by decide, by decide⟩
      (by decide +kernel)⟩
  · obtain rfl := List.mem_singleton.mp hr
    exact ⟨by decide +kernel, by decide +kernel⟩

/-- A local list of two slots does not survive. -/
theorem ReliefHolds.broken (h : ReliefHolds c σ G) (hos : c.osPage ≤ pageSizeAlloc)
    (hd : IsData σ.heap.segs r) (hact : (σ.heap.pages r).state = .active)
    (hcount : 1 < (σ.heap.pages r).localFreeCount) :
    ∃ q, IsData (σ.dropped c r).heap.segs q ∧ ((σ.dropped c r).heap.pages q).state = .active ∧
      ¬ ∃ loc rem, Partitioned (σ.dropped c r).toSys q loc rem := by
  have hgeom := (h.inv.active hd hact).1.geom
  refine ⟨r, hd, hact, ?_⟩
  rintro ⟨loc, rem, hpart⟩
  obtain ⟨hlocal, -⟩ := hpart.thin_of_zero hgeom fun y h₁ h₂ =>
    drop_page_zero hos hgeom.start_al h₁ h₂
  exact absurd hlocal (Nat.not_le.mpr hcount)

/-- The calls find what they are given, and the reliefs run as a whole. -/
def ReliefOp.Whole (c : Cfg) (σ : ReliefSys) : ReliefOp → Prop
  | .call _ op => op.Safe c σ.toSys
  | .relief _ => True
  | .madvise _ => False

/-- Two slots on the local list, and the kernel drops their page: one of them is lost, and
the heap checker notices. -/
theorem relief_loses_slot :
    ∃ σ, ReliefReachable (.page4k true) (fun σ op => op.Whole (.page4k true) σ) σ ∧
      (∃ r, IsData σ.heap.segs r ∧ (σ.heap.pages r).state = .active ∧
        ¬ ∃ loc rem, Partitioned σ.toSys r loc rem) ∧
      debugHeapCheck σ.heap = .ok false := by
  obtain ⟨pages, he, hpages⟩ := exists_of_passes (zonePressureRelief bothReturned.heap)
    (fun l => l == [⟨0x20000000, 1⟩]) (by decide +kernel)
  obtain rfl := eq_of_beq hpages
  obtain ⟨ok, hcheck, hok⟩ := exists_of_passes
    (debugHeapCheck (bothReturned.dropped (.page4k true) ⟨0x20000000, 1⟩).heap)
    (fun b => b == false)
    (by decide +kernel)
  obtain rfl := eq_of_beq hok
  obtain ⟨G, hh⟩ := reliefReachable_holds (P := fun σ op => op.Thin (.page4k true) σ)
    (fun _ _ hs => hs) (bothReturned_reachable fun _ _ _ hs => hs)
  exact ⟨bothReturned.dropped (.page4k true) ⟨0x20000000, 1⟩,
    (bothReturned_reachable fun _ _ _ hs => hs).dropped he trivial rfl,
    hh.broken (by decide) ⟨by decide +kernel, by decide, by decide⟩ (by decide +kernel)
      (by decide +kernel), hcheck⟩

end CustomMalloc

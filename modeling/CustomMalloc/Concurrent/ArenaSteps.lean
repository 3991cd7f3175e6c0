import CustomMalloc.Concurrent.PageSteps

/-!
# Steps under the arena's lock

A bump of a page seen unowned, a new page, and the compare-and-swap with which a thread
makes the page its own after it has let go of the lock.
-/

namespace CustomMalloc

open Lib.Words Lib.Bytes Lib.Chain Lib.Interleave Lib.Hands

variable {n : Nat} {c : Cfg} {σ σ' : SlabSys n} {r q : PageRef} {t u : Fin n} {x : Nat}
  {pc pc' : SlabPc}

/-! ## Who may bump -/

/-- A call in the window holds the lock of the page's arena. -/
theorem Knows.window (h : Knows σ t pc) (hw : pc.window = some r) :
    ∃ k, pc.locking = some k.arena ∧ σ.Listed k r := by
  cases pc with
  | test k q =>
    cases hw
    exact ⟨k, rfl, h.2⟩
  | bump k q pb =>
    cases pb with
    | read | load | store =>
      cases hw
      exact ⟨k, rfl, h.2.1⟩
    | used y => exact absurd hw (by simp [SlabPc.window])
  | _ => exact absurd hw (by simp [SlabPc.window])

/-- A call that works on a page works on a page in use. -/
theorem Knows.idle_of_unused (h : Knows σ t pc) (hno : ¬ Active σ.heap r) :
    pc.ownerOf r = none ∧ pc.remoteOf r = none ∧ pc.owes r = 0 := by
  cases pc with
  | fast bin q pc =>
    refine ⟨if_neg ?_, rfl, rfl⟩
    rintro rfl
    exact hno h.2.1.1
  | freeLocal q pc =>
    refine ⟨if_neg ?_, rfl, rfl⟩
    rintro rfl
    exact hno h.1
  | freeRemote q pc =>
    refine ⟨rfl, if_neg ?_, rfl⟩
    rintro rfl
    exact hno h.1
  | bump k q pb =>
    cases pb with
    | used y =>
      refine ⟨rfl, rfl, if_neg ?_⟩
      rintro rfl
      exact hno h.2.1.active
    | read | load | store => exact ⟨rfl, rfl, rfl⟩
  | _ => exact ⟨rfl, rfl, rfl⟩

namespace SlabInv

/-- One thread holds a lock. -/
theorem locking_unique (h : SlabInv c σ) {a : Nat} (ht : (σ.pcs t).locking = some a)
    (hu : (σ.pcs u).locking = some a) : t = u :=
  Option.some.inj (((h.locks a t).mpr ht).symm.trans ((h.locks a u).mpr hu))

/-- One thread is about to bump a page under the lock. -/
theorem window_unique (h : SlabInv c σ) (ht : (σ.pcs t).window = some r)
    (hu : (σ.pcs u).window = some r) : t = u := by
  obtain ⟨k, hk, hl⟩ := (h.pcs t).window ht
  obtain ⟨k', hk', hl'⟩ := (h.pcs u).window hu
  refine h.locking_unique hk ?_
  rw [hk', ← hl'.arena, hl.arena]

/-- Whoever is about to bump a page as its owner works on it as its owner. -/
theorem bumps_owner (hb : (σ.pcs u).bumps = some r) : ∃ o, (σ.pcs u).ownerOf r = some o := by
  cases hpc : σ.pcs u with
  | fast bin q pc =>
    rw [hpc] at hb
    cases pc with
    | bump pb =>
      refine ⟨.alloc (.bump pb), if_pos ?_⟩
      cases pb with
      | used y => exact absurd hb (by simp [SlabPc.bumps])
      | read | load | store => exact Option.some.inj hb
    | test | pop | bumpTest | collect | retest => exact absurd hb (by simp [SlabPc.bumps])
  | _ => rw [hpc] at hb; exact absurd hb (by simp [SlabPc.bumps])

/-! ## The bump -/

/-- While a thread is in the window, the page's owner does not rely on `bump_offset`. -/
theorem not_bumping (h : SlabInv c σ) (hw : (σ.pcs t).window = some r)
    (ht : (σ.pcs t).ownerOf r = none) {o : OwnerPc} (hrole : Role σ.pcs r o) :
    o.bumping = false := by
  cases hrole with
  | free hfree => rfl
  | busy v hv _ =>
    have hvt : v ≠ t := by
      rintro rfl
      cases ht.symm.trans hv
    cases hb : o.bumping with
    | false => rfl
    | true => exact absurd ((SlabPc.bumps_ownerOf hv).mp hb) (h.apart t v r (Ne.symm hvt) hw)

/-- **Step**: the store of `bump_offset` under the lock. -/
theorem bumpStore (h : SlabInv c σ) {k : ArenaCall} {slot offset : Nat}
    (hpc : σ.pcs t = .bump k r (.store slot offset)) :
    SlabInv c (σ.bumpStep t k r (.store slot offset)) := by
  obtain ⟨hcall, hlist, hb, -⟩ := h.knows hpc
  obtain ⟨rfl, rfl, hlt⟩ := hb
  have hact := hlist.active
  have g := h.heap.geom hact
  have hwin : (σ.pcs t).window = some r := by rw [hpc]; rfl
  have hidle : (σ.pcs t).ownerOf r = none := by rw [hpc]; rfl
  obtain ⟨hused, o, loc, walk, hrole, hcons⟩ := h.pages r hact
  have hslot := hcons.bumped_clean (g.plus _)
    (show BumpOk r (σ.view r o).toCell (.store (r.start + (σ.heap.pages r).bumpOffset)
      (σ.heap.pages r).bumpOffset) from ⟨rfl, rfl, hlt⟩)
  obtain ⟨hslot, hfresh, hzero⟩ := hslot
  have hne := isSlot_ne_zero g hslot
  generalize hσ : σ.bumpStep t k r _ = σ'
  generalize hx : r.start + (σ.heap.cell r).page.bumpOffset = x at *
  obtain rfl : r.start + (σ.heap.pages r).bumpOffset = x := hx
  generalize hcell : ({ σ.heap.cell r with page := { σ.heap.pages r with
    bumpOffset := ((σ.heap.pages r).bumpOffset + (σ.heap.pages r).slotSize) % 2 ^ 32 } } :
    Cell) = cell
  have hpcs : σ'.pcs = upd σ.pcs t (.bump k r (.used (r.start + (σ.heap.pages r).bumpOffset))) := by
    rw [← hσ]; rfl
  have hheap : σ'.heap = σ.heap.setCell r cell := by rw [← hσ, ← hcell]; rfl
  have hheld : σ'.held = upd σ.held r ((r.start + (σ.heap.pages r).bumpOffset) :: σ.held r) := by
    rw [← hσ]; rfl
  have hflat : cell.page.flat = (σ.heap.pages r).flat := by rw [← hcell]; rfl
  have hpage : σ'.heap.pages r = cell.page := by
    rw [hheap]
    exact upd_same ..
  have hout : σ'.Out r (r.start + (σ.heap.pages r).bumpOffset) := by
    refine ⟨?_, ?_⟩
    · rw [hheap]
      exact (HeapOk.setCell_active hflat r).mpr hact
    · rw [hheld, upd_same]
      exact List.mem_cons_self ..
  refine h.onPage hact cell hflat hpcs hheap (by rw [← hσ]; rfl) (by rw [← hσ]; rfl) ?_
    (fun q hq => by rw [hheld]; exact upd_ne hq) (fun q _ => by rw [← hσ]; rfl) ?_ ?_ ?_ ?_ ?_ ?_
      ?_ ?_ ?_
  · rw [hpc]
    rfl
  · intro q hq
    rw [hpc]
    exact ⟨rfl, rfl, if_neg (Ne.symm hq)⟩
  · refine .of_view (v := (σ.view r o).bumped r) (hrole.congr fun u => ?_) ?_ ?_ ?_
      (fun u => ?_) ?_ ?_
      (hcons.bumpNow (g.plus _) (h.not_bumping hwin hidle hrole) hlt)
    · rw [hpcs]
      by_cases hu : u = t
      · rw [hu, upd_same, hidle]
        rfl
      · rw [upd_ne hu]
    · rw [hpage, ← hcell]
      exact hused
    · rw [hheap, ← hcell]
      rfl
    · -- the page owes one more slot to `used`
      have howed : σ'.owed r = σ.owed r + 1 := by
        have := owed_upd (r := r) hpcs
        rw [hpc] at this
        simp only [SlabPc.owes, if_pos] at this
        omega
      rw [hpage, howed, ← hcell]
      have harith : ((σ.heap.pages r).used + (σ.owed r + 1)) % 2 ^ 16 =
          (((σ.heap.pages r).used + σ.owed r) % 2 ^ 16 + 1) % 2 ^ 16 := by omega
      unfold PageMeta.plus PageSys.bumped SlabSys.view PageMeta.plus
      simp only [harith]
    · rw [hpcs]
      exact remoteOf_upd _ (by rw [hpc]; rfl) u
    · rw [hheld]
      exact upd_same ..
    · rw [← hσ]
      rfl
  · intro a ha
    rw [← hcell] at ha
    exact absurd rfl ha
  · intro y hy _
    rw [hheld, upd_same]
    exact List.mem_cons_of_mem _ hy
  · exact fun u hu hw => absurd (h.window_unique hw hwin) hu
  · refine ⟨⟨hcall.bin, hcall.arena_lt, ?_⟩, ⟨hout.1, ?_, ?_⟩, trivial, ?_⟩
    · rw [hheap]
      exact hcall.attached
    · rw [hpage, ← hcell]
      exact hlist.arena
    · rw [hpage, ← hcell]
      exact hlist.binIdx
    · intro y hy
      obtain rfl := BumpPc.used.inj hy
      refine ⟨hne, hout, fun z h₁ h₂ => ?_⟩
      rw [hpage, ← hcell] at h₂
      rw [hheap, ← hcell]
      exact hzero z h₁ h₂
  · exact σ.noWindow rfl
  · exact fun u q _ hb => absurd hb (by simp [SlabPc.bumps])
  · refine h.hands.bring (i := t) (h.nowhere hact hslot hfresh) ?_ fun u hu => ?_
    · rw [hpcs, upd_same]
      rfl
    · rw [hpcs, upd_ne hu]

/-- **Step**: the addition to `used` under the lock. -/
theorem bumpUsed (h : SlabInv c σ) {k : ArenaCall} {slot : Nat}
    (hpc : σ.pcs t = .bump k r (.used slot)) : SlabInv c (σ.bumpStep t k r (.used slot)) := by
  obtain ⟨hcall, hlist, -, hslot⟩ := h.knows hpc
  obtain ⟨hne, hout, hclean⟩ := hslot slot rfl
  have hact := hlist.active
  obtain ⟨hused, o, loc, walk, hrole, hcons⟩ := h.pages r hact
  generalize hσ : σ.bumpStep t k r _ = σ'
  generalize hcell : ({ σ.heap.cell r with page := { σ.heap.pages r with
    used := ((σ.heap.pages r).used + 1) % 2 ^ 16 } } : Cell) = cell
  have hpcs : σ'.pcs = upd σ.pcs t (.credit k r slot) := by rw [← hσ]; rfl
  have hheap : σ'.heap = σ.heap.setCell r cell := by rw [← hσ, ← hcell]; rfl
  have hheld : σ'.held = σ.held := by rw [← hσ]; rfl
  have hlog : σ'.log = σ.log := by rw [← hσ]; rfl
  have hflat : cell.page.flat = (σ.heap.pages r).flat := by rw [← hcell]; rfl
  have hpage : σ'.heap.pages r = cell.page := by
    rw [hheap]
    exact upd_same ..
  have hact' : Active σ'.heap r := by
    rw [hheap]
    exact (HeapOk.setCell_active hflat r).mpr hact
  refine h.onPage hact cell hflat hpcs hheap (by rw [← hσ]; rfl) (by rw [← hσ]; rfl) ?_
    (fun q _ => by rw [hheld]) (fun q _ => by rw [hlog]) ?_ ?_ ?_
    (fun y hy _ => by rw [hheld]; exact hy)
    (fun _ _ _ => by rw [← hcell]) ?_ ?_ ?_ ?_
  · rw [hpc]
    rfl
  · intro q hq
    rw [hpc]
    exact ⟨rfl, rfl, (if_neg (Ne.symm hq)).symm⟩
  · refine .of_view (v := σ.view r o) (hrole.congr fun u => ?_) ?_ ?_ ?_ (fun u => ?_)
      (by rw [hheld]; rfl)
      (by rw [hlog]; rfl) hcons
    · rw [hpcs]
      by_cases hu : u = t
      · rw [hu, upd_same, hpc]
        rfl
      · rw [upd_ne hu]
    · rw [hpage, ← hcell]
      exact Nat.mod_lt _ (by decide)
    · rw [hheap, ← hcell]
      rfl
    · have howed : σ.owed r = σ'.owed r + 1 := by
        have := owed_upd (r := r) hpcs
        rw [hpc] at this
        simp only [SlabPc.owes, if_pos] at this
        omega
      have harith : (((σ.heap.pages r).used + 1) % 2 ^ 16 + σ'.owed r) % 2 ^ 16 =
          ((σ.heap.pages r).used + (σ'.owed r + 1)) % 2 ^ 16 := by omega
      unfold SlabSys.view
      rw [hpage, howed, ← hcell]
      unfold PageMeta.plus
      simp only [harith]
    · rw [hpcs]
      exact remoteOf_upd _ (by rw [hpc]; rfl) u
  · intro a ha
    rw [← hcell] at ha
    exact absurd rfl ha
  · refine ⟨⟨hcall.bin, hcall.arena_lt, ?_⟩, ⟨hact', ?_, ?_⟩, hne, ⟨hact', ?_⟩, fun z h₁ h₂ => ?_⟩
    · rw [hheap]
      exact hcall.attached
    · rw [hpage, ← hcell]
      exact hlist.arena
    · rw [hpage, ← hcell]
      exact hlist.binIdx
    · rw [hheld]
      exact hout.2
    · rw [hpage, ← hcell] at h₂
      rw [hheap, ← hcell]
      exact hclean z h₁ h₂
  · exact σ.noWindow rfl
  · exact fun u q _ hb => absurd hb (by simp [SlabPc.bumps])
  · exact h.hands_upd hpcs (by rw [hpc]; rfl)

/-- **Step**: the two loads of `bump_offset` under the lock. -/
theorem bumpLoad (h : SlabInv c σ) {k : ArenaCall} {pb pb' : BumpPc} (hpc : σ.pcs t = .bump k r pb)
    (hw : (σ.pcs t).window = some r) (hg : (SlabPc.bump k r pb).Glides (.bump k r pb'))
    (hok : BumpOk r (σ.heap.cell r) pb') (hused : ∀ y, pb' ≠ .used y) :
    SlabInv c (σ.goto t (.bump k r pb')) := by
  obtain ⟨hcall, hlist, -, -⟩ := h.knows hpc
  refine h.reads hpc hg
    ⟨⟨hcall.bin, hcall.arena_lt, hcall.attached⟩, ⟨hlist.active, hlist.arena, hlist.binIdx⟩, hok,
      fun y hy => absurd hy (hused y)⟩ fun u q hu hwin => ?_
  have hq : q = r := by
    cases pb' with
    | used y => exact absurd rfl (hused y)
    | read | load | store => exact (Option.some.inj hwin).symm
  rw [hq]
  exact h.apart t u r (Ne.symm hu) hw

/-- **Step**: a bump under the lock. -/
theorem bump (h : SlabInv c σ) {k : ArenaCall} {pb : BumpPc} (hpc : σ.pcs t = .bump k r pb) :
    SlabInv c (σ.bumpStep t k r pb) := by
  obtain ⟨-, hlist, hb, -⟩ := h.knows hpc
  cases pb with
  | read =>
    have hstep : σ.bumpStep t k r .read =
        σ.goto t (.bump k r
          (.load (pageStart (σ.heap.pages r) + (σ.heap.pages r).bumpOffset))) := by
      show (σ.onHeap (σ.heap.setCell r (σ.heap.cell r))).goto t _ = _
      rw [State.setCell_self]
      rfl
    rw [hstep, (h.heap.geom hlist.active).pageStart_eq]
    exact h.bumpLoad hpc (by rw [hpc]; rfl) ⟨rfl, rfl, rfl, rfl⟩ ⟨rfl, hb⟩ (by simp)
  | load slot =>
    have hstep : σ.bumpStep t k r (.load slot) =
        σ.goto t (.bump k r (.store slot (σ.heap.pages r).bumpOffset)) := by
      show (σ.onHeap (σ.heap.setCell r (σ.heap.cell r))).goto t _ = _
      rw [State.setCell_self]
      rfl
    rw [hstep]
    exact h.bumpLoad hpc (by rw [hpc]; rfl) ⟨rfl, rfl, rfl, rfl⟩ ⟨hb.1, rfl, hb.2⟩ (by simp)
  | store slot offset => exact h.bumpStore hpc
  | used slot => exact h.bumpUsed hpc

/-! ## New pages -/

/-- **Step**: `arena_alloc` sets up a page and goes on to bump it. -/
theorem opened (h : SlabInv c σ) {k : ArenaCall} {s' : State} (hpc : σ.pcs t = .grow k)
    (hheap : HeapOk c s') (ho : Opened σ.heap k.arena k.bin r s') :
    SlabInv c (((σ.onHeap s').opens r).goto t (.bump k r .read)) := by
  have hcall : CallOk σ t k := h.knows hpc
  have hne : ∀ {q}, Active σ.heap q → q ≠ r := by
    rintro q hq rfl
    exact ho.fresh hq
  have hidle : ∀ u, (σ.pcs u).ownerOf r = none ∧ (σ.pcs u).remoteOf r = none ∧
      (σ.pcs u).owes r = 0 :=
    fun u => (h.pcs u).idle_of_unused ho.fresh
  generalize hσ : ((σ.onHeap s').opens r).goto t (.bump k r .read) = σ'
  have hpcs : σ'.pcs = upd σ.pcs t (.bump k r .read) := by rw [← hσ]; rfl
  obtain rfl : s' = σ'.heap := by rw [← hσ]; rfl
  have hheld : σ'.held = upd σ.held r [] := by rw [← hσ]; rfl
  have hlog : σ'.log = upd σ.log r [] := by rw [← hσ]; rfl
  have halike : ∀ q u, (σ.pcs u).Alike q (σ'.pcs u) := fun q => by
    refine alike_upd hpcs ?_
    rw [hpc]
    exact SlabPc.plain_alike rfl rfl q
  have hshared : Shared t σ.heap σ'.heap := ho.shared
  refine h.advance hpcs hheap (h.locks_upd hpcs (by rw [← hσ]; rfl) (by rw [hpc]; rfl)) ?_ ?_ ?_ ?_
    ?_ ?_ ?_ ?_
  · intro q hq
    by_cases hqr : q = r
    · subst hqr
      have hvirgin := ho.virgin
      have howed : σ'.owed q = 0 :=
        Finset.sum_eq_zero fun u _ => (halike q u).owes.trans (hidle u).2.2
      have hplus : (σ'.heap.pages q).plus (σ'.owed q) = σ'.heap.pages q := by
        rw [howed, ← hvirgin]
        rfl
      have hc : Conserved q (σ'.heap.pages q)
          { σ'.view q .idle with page := σ'.heap.pages q, live := [], log := [] } [] [] := by
        exact Conserved.fresh (σ := { σ'.view q .idle with
          page := σ'.heap.pages q, live := [], log := [] }) (hheap.geom hq)
          (congrArg PageMeta.bumpOffset hvirgin).symm (congrArg PageMeta.localFree hvirgin).symm
          (congrArg PageMeta.localFreeCount hvirgin).symm
          (congrArg PageMeta.remoteFree hvirgin).symm
          (congrArg PageMeta.remoteFreeCount hvirgin).symm (congrArg PageMeta.used hvirgin).symm
          ho.zero rfl (fun u => (halike q u).remoteOf.trans (hidle u).2.1) rfl rfl
      refine .of_view (.free fun u => (halike q u).ownerOf.trans (hidle u).1) ?_ rfl hplus
        (fun _ => rfl)
        (by rw [hheld]; exact upd_same ..) (by rw [hlog]; exact upd_same ..) hc
      rw [← hvirgin]
      exact Nat.two_pow_pos 16
    · have hq' := ho.back q hqr hq
      obtain ⟨nx, pr, hlink⟩ := ho.links q hq'
      refine (h.pages q hq').frame (h.heap.geom hq') ?_ (ho.mem q hq')
        (by rw [hheld]; exact upd_ne hqr)
        (by rw [hlog]; exact upd_ne hqr) (halike q)
      rw [hlink]
      exact ⟨rfl, rfl, rfl, rfl, rfl, rfl, rfl, rfl, rfl⟩
  · intro u hu
    refine .of_shared hshared h.heap.ids (hshared.tls hu) ?_ ?_ ?_
    · intro q y _ hy
      rw [hheld, upd_ne (hne hy.1)]
      exact hy.2
    · intro q y hq hslot _ a h₁ h₂
      have hb := h.heap.slot_range hq hslot
      exact ho.mem q hq a (by omega) (by omega)
    · intro q hq _
      obtain ⟨nx, pr, hlink⟩ := ho.links q hq
      rw [hlink]
  · refine ⟨⟨hcall.bin, hcall.arena_lt, ?_⟩, ⟨ho.active, ho.arena, ho.binIdx⟩, ho.bump,
      fun y hy => absurd hy (by simp)⟩
    rw [ho.threads.tls]
    exact hcall.attached
  · intro u q _ hw hb
    cases hw
    obtain ⟨o, hown⟩ := bumps_owner hb
    cases (hidle u).1.symm.trans hown
  · exact fun u q _ hb => absurd hb (by simp [SlabPc.bumps])
  · have hlive : σ'.live = σ.live := by rw [← hσ]; rfl
    rw [hlive]
    exact h.hands_upd hpcs (by rw [hpc]; rfl)
  · intro y hy
    have hlive : σ'.live = σ.live := by rw [← hσ]; rfl
    rw [hlive] at hy
    obtain ⟨q, hq, hmem⟩ := h.out y hy
    refine ⟨q, ho.kept q hq, ?_⟩
    rw [hheld, upd_ne (hne hq)]
    exact hmem
  · intro q y hy
    rw [hheld] at hy
    by_cases hqr : q = r
    · rw [hqr, upd_same] at hy
      cases hy
    · rw [upd_ne hqr] at hy
      exact ho.kept q (h.inUse hy)

/-! ## Claiming a page -/

/-- **Step**: the compare-and-swap of `owner_tid` succeeds. -/
theorem claimed (h : SlabInv c σ) {bin slot : Nat} {zeroed : Bool} {y : Tld}
    (hpc : σ.pcs t = .claim bin slot zeroed r) (hy : σ.heap.tls t = some y)
    (hno : (σ.heap.pages r).ownerTid = noOwner) :
    SlabInv c ((σ.onHeap (σ.heap.setPage r { σ.heap.pages r with ownerTid := y.threadId })).goto t
      (.cache bin slot zeroed r)) := by
  have hgot : σ.Got t bin slot zeroed r := h.knows hpc
  have hact := hgot.out.1
  have harena : y.arena = some (σ.heap.pages r).arena := by
    obtain ⟨z, hz, ha⟩ := hgot.attached
    cases hy.symm.trans hz
    exact ha
  obtain ⟨hheap, hshared⟩ := h.heap.claim hact hy hno harena
  generalize hσ : (σ.onHeap
    (σ.heap.setPage r { σ.heap.pages r with ownerTid := y.threadId })).goto t
    (.cache bin slot zeroed r) = σ'
  have hpcs : σ'.pcs = upd σ.pcs t (.cache bin slot zeroed r) := by rw [← hσ]; rfl
  have hs' : σ'.heap = σ.heap.setPage r { σ.heap.pages r with ownerTid := y.threadId } := by
    rw [← hσ]; rfl
  rw [← hs'] at hheap hshared
  have hheld : σ'.held = σ.held := by rw [← hσ]; rfl
  have hpages : ∀ q, ∃ o, σ'.heap.pages q = { σ.heap.pages q with ownerTid := o } := by
    intro q
    rw [hs']
    show ∃ o, upd σ.heap.pages r _ q = _
    by_cases hq : q = r
    · rw [hq, upd_same]
      exact ⟨_, rfl⟩
    · rw [upd_ne hq]
      exact ⟨_, rfl⟩
  have hback : ∀ q, Active σ'.heap q → Active σ.heap q := by
    intro q hq
    obtain ⟨o, hq'⟩ := hpages q
    unfold Active at hq ⊢
    rw [hq'] at hq
    rw [hs'] at hq
    exact hq
  have hm : SamePages σ.heap σ'.heap := fun q _ z _ _ => by rw [hs']; rfl
  have hrely : ∀ u : Fin n, σ'.heap.tls u = σ.heap.tls u → Rely σ σ' u := by
    intro u htls
    refine .quiet h hshared htls hheld hm fun {q} _ => ?_
    obtain ⟨o, hq⟩ := hpages q
    rw [hq]
  refine h.advance hpcs hheap (h.locks_upd hpcs (by rw [← hσ]; rfl) (by rw [hpc]; rfl)) ?_
    (fun u hu => hrely u (hshared.tls hu)) ?_ ?_ ?_ ?_ ?_ ?_
  · intro q hq
    have hq' := hback q hq
    obtain ⟨o, hpage⟩ := hpages q
    refine (h.pages q hq').frame (h.heap.geom hq') ?_ (hm q hq') (by rw [hheld]) (by rw [← hσ]; rfl)
      (alike_upd hpcs (by rw [hpc]; exact ⟨rfl, rfl, rfl⟩))
    rw [hpage]
    exact ⟨rfl, rfl, rfl, rfl, rfl, rfl, rfl, rfl, rfl⟩
  · have htls : σ'.heap.tls t = σ.heap.tls t := by rw [hs']; rfl
    refine ⟨(hrely t htls).got h.pages (by rw [hpc]; rfl) hgot, hshared.active hact, y,
      htls.trans hy, ?_⟩
    rw [hs']
    show (upd σ.heap.pages r _ r).ownerTid = _
    rw [upd_same]
  · exact σ.noWindow rfl
  · exact fun u q _ hb => absurd hb (by simp [SlabPc.bumps])
  · have hlive : σ'.live = σ.live := by rw [← hσ]; rfl
    rw [hlive]
    exact h.hands_upd hpcs (by rw [hpc]; rfl)
  · intro z hz
    have hlive : σ'.live = σ.live := by rw [← hσ]; rfl
    rw [hlive] at hz
    obtain ⟨q, hq, hmem⟩ := h.out z hz
    exact ⟨q, hshared.active hq, by rw [hheld]; exact hmem⟩
  · intro q z hz
    rw [hheld] at hz
    exact hshared.active (h.inUse hz)

end SlabInv

end CustomMalloc

import CustomMalloc.Concurrent.StepRules
import CustomMalloc.Inv.SettledOps

/-!
# A call without interference

The steps of `SlabMachine` are `slab_alloc_inner` and `slab_free` taken apart. Here they are put
together again: if one thread takes all the steps and the locks it needs are free, its call ends
where the whole function does, with the same heap and the same result. So the functions the
claims about whole calls are about, and the steps that overlapping calls are made of, are two
views of one program.
-/

namespace CustomMalloc

open Lib.Words Lib.Bytes Lib.Chain Lib.Interleave Lib.Post

variable {n : Nat} {c : Cfg} {σ σ' σ₁ : SlabSys n} {r : PageRef} {t : Fin n} {s s' : State}
  {L L' : Nat → Option (Fin n)} {pc pc' : SlabPc}

/-! ## Runs of one thread -/

/-- Where thread `t` got to from `σ`: the heap, the locks, and its program counter. -/
structure Went (t : Fin n) (σ : SlabSys n) (s : State) (L : Nat → Option (Fin n)) (pc : SlabPc)
    (σ' : SlabSys n) : Prop where
  heap : σ'.heap = s
  locks : σ'.locks = L
  pcs : σ'.pcs = upd σ.pcs t pc
  live : σ'.live = σ.live

/-- Steps of thread `t` only, in which no compare-and-swap fails spuriously. -/
def Solo (c : Cfg) (t : Fin n) : SlabSys n → SlabSys n → Prop :=
  Relation.ReflTransGen fun σ σ' => σ.step c t false = some σ'

/-- Thread `t` gets from `σ` to `pc`, leaving heap `s` and locks `L`. -/
def Goes (c : Cfg) (t : Fin n) (σ : SlabSys n) (s : State) (L : Nat → Option (Fin n))
    (pc : SlabPc) :
    Prop :=
  ∃ σ', Solo c t σ σ' ∧ Went t σ s L pc σ'

theorem Went.refl (hpc : σ.pcs t = pc) : Went t σ σ.heap σ.locks pc σ :=
  ⟨rfl, rfl, by rw [← hpc, upd_eta], rfl⟩

theorem Went.at (h : Went t σ s L pc σ') : σ'.pcs t = pc := by
  rw [h.pcs, upd_same]

theorem Went.trans (h : Went t σ s L pc σ₁) (h' : Went t σ₁ s' L' pc' σ') :
    Went t σ s' L' pc' σ' := by
  refine ⟨h'.heap, h'.locks, ?_, h'.live.trans h.live⟩
  rw [h'.pcs, h.pcs]
  funext u
  by_cases hu : u = t
  · rw [hu, upd_same, upd_same]
  · rw [upd_ne hu, upd_ne hu, upd_ne hu]

namespace Goes

theorem refl (hpc : σ.pcs t = pc) : Goes c t σ σ.heap σ.locks pc := ⟨σ, .refl, .refl hpc⟩

/-- One step. -/
theorem step (σ' : SlabSys n) (he : σ.step c t false = some σ') (hw : Went t σ s L pc σ') :
    Goes c t σ s L pc :=
  ⟨σ', .single he, hw⟩

/-- And then. -/
theorem andThen (h : Goes c t σ s L pc)
    (h' : ∀ τ : SlabSys n, τ.pcs t = pc → τ.heap = s → τ.locks = L → Goes c t τ s' L' pc') :
    Goes c t σ s' L' pc' := by
  obtain ⟨τ, hrun, hw⟩ := h
  obtain ⟨τ', hrun', hw'⟩ := h' τ hw.at hw.heap hw.locks
  exact ⟨τ', hrun.trans hrun', hw.trans hw'⟩

/-- A step that only moves the thread. -/
theorem move (pc : SlabPc) (he : σ.step c t false = some (σ.goto t pc)) :
    Goes c t σ σ.heap σ.locks pc :=
  step _ he ⟨rfl, rfl, rfl, rfl⟩

/-- A step that writes outside the slots. -/
theorem store (s : State) (pc : SlabPc)
    (he : σ.step c t false = some ((σ.onHeap s).goto t pc)) : Goes c t σ s σ.locks pc :=
  step _ he ⟨rfl, rfl, rfl, rfl⟩

end Goes

/-! ## The machines -/

theorem setCell_setCell (s : State) (r : PageRef) (x y : Cell) :
    (s.setCell r x).setCell r y = s.setCell r y := by
  have : upd (upd s.pages r x.page) r y.page = upd s.pages r y.page := by
    funext q
    by_cases hq : q = r
    · rw [hq, upd_same, upd_same]
    · rw [upd_ne hq, upd_ne hq, upd_ne hq]
  show { s with pages := upd (upd s.pages r x.page) r y.page, mem := y.mem } = _
  rw [this]
  rfl

theorem cell_setCell (s : State) (r : PageRef) (x : Cell) : (s.setCell r x).cell r = x := by
  show ({ mem := x.mem, page := upd s.pages r x.page r } : Cell) = x
  rw [upd_same]

section Machine

variable {κ β : Type} {call : Cell → κ → Cell × Next κ β} {wrap : κ → SlabPc} {after : β → SlabPc}

/-- The steps of a call at `wrap` are those of a machine on page `r`. -/
def Runs (c : Cfg) (t : Fin n) (r : PageRef) (call : Cell → κ → Cell × Next κ β) (wrap : κ → SlabPc)
    (after : β → SlabPc) : Prop :=
  ∀ (σ : SlabSys n) pc, σ.pcs t = wrap pc → ∃ σ', σ.step c t false = some σ' ∧
    Went t σ (σ.heap.setCell r (call (σ.heap.cell r) pc).1) σ.locks
      (match (call (σ.heap.cell r) pc).2 with
        | .goto pc' => wrap pc'
        | .done b => after b) σ'

/-- A machine that ends on its own ends here. -/
theorem Runs.goes (h : Runs c t r call wrap after) {fuel : Nat} {pc : κ} {cell : Cell} {b : β}
    (hpc : σ.pcs t = wrap pc) (he : alone call fuel (σ.heap.cell r) pc = some (cell, b)) :
    Goes c t σ (σ.heap.setCell r cell) σ.locks (after b) := by
  induction fuel generalizing σ pc with
  | zero => exact absurd he (by simp [alone])
  | succ fuel ih =>
    obtain ⟨τ, hstep, hw⟩ := h σ pc hpc
    unfold alone at he
    rcases hc : call (σ.heap.cell r) pc with ⟨cell', next⟩
    rw [hc] at he hw
    cases next with
    | done b' =>
      obtain ⟨rfl, rfl⟩ := Prod.mk.inj (Option.some.inj he)
      exact .step _ hstep hw
    | goto pc' =>
      refine (Goes.step _ hstep hw).andThen fun ρ hat hheap hlocks => ?_
      have hcell : ρ.heap.cell r = cell' := by rw [hheap, cell_setCell]
      have := ih hat (by rw [hcell]; exact he)
      rwa [hheap, setCell_setCell, hlocks] at this

end Machine

/-- The pop of the fast path. -/
theorem runs_pop (c : Cfg) (t : Fin n) (bin : Nat) (r : PageRef) :
    Runs c t r popStep (fun pc => .fast bin r (.pop pc)) fun x => .book r x false := by
  intro σ pc hpc
  refine ⟨_, by simp only [SlabSys.step, hpc]; rfl, ?_⟩
  unfold SlabSys.fastStep
  simp only [allocStep]
  cases (popStep (σ.heap.cell r) pc).2 <;> exact ⟨rfl, rfl, rfl, rfl⟩

/-- The bump of the fast path. -/
theorem runs_bump (c : Cfg) (t : Fin n) (bin : Nat) (r : PageRef) :
    Runs c t r bumpStep (fun pc => .fast bin r (.bump pc)) fun x => .book r x true := by
  intro σ pc hpc
  refine ⟨_, by simp only [SlabSys.step, hpc]; rfl, ?_⟩
  unfold SlabSys.fastStep
  simp only [allocStep]
  cases (bumpStep (σ.heap.cell r) pc).2 <;> exact ⟨rfl, rfl, rfl, rfl⟩

/-- The collect of the fast path. -/
theorem runs_collect (c : Cfg) (t : Fin n) (bin : Nat) (r : PageRef) :
    Runs c t r (collectStep false) (fun pc => .fast bin r (.collect pc)) fun _ =>
      .fast bin r .retest := by
  intro σ pc hpc
  refine ⟨_, by simp only [SlabSys.step, hpc]; rfl, ?_⟩
  unfold SlabSys.fastStep
  simp only [allocStep]
  cases (collectStep false (σ.heap.cell r) pc).2 <;> exact ⟨rfl, rfl, rfl, rfl⟩

/-- The bump of `arena_alloc`. -/
theorem runs_arenaBump (c : Cfg) (t : Fin n) (k : ArenaCall) (r : PageRef) :
    Runs c t r bumpStep (fun pc => .bump k r pc) fun x => .credit k r x := by
  intro σ pc hpc
  refine ⟨_, by simp only [SlabSys.step, hpc]; rfl, ?_⟩
  cases pc <;> exact ⟨rfl, rfl, rfl, rfl⟩

theorem runs_freeLocal (c : Cfg) (t : Fin n) (r : PageRef) :
    Runs c t r freeLocalStep (fun pc => .freeLocal r pc) fun _ => .freeStat r := by
  intro σ pc hpc
  refine ⟨_, by simp only [SlabSys.step, hpc]; rfl, ?_⟩
  cases pc <;> exact ⟨rfl, rfl, rfl, rfl⟩

theorem runs_freeRemote (c : Cfg) (t : Fin n) (r : PageRef) :
    Runs c t r (freeRemoteStep false) (fun pc => .freeRemote r pc) fun _ => .freeCredit r := by
  intro σ pc hpc
  refine ⟨_, by simp only [SlabSys.step, hpc]; rfl, ?_⟩
  unfold SlabSys.freeRemoteStep
  simp only
  cases (freeRemoteStep false (σ.heap.cell r) pc).2 <;> exact ⟨rfl, rfl, rfl, rfl⟩

/-! ## The fast path -/

/-- A slot that the fast path found is booked and returned. -/
theorem book_goes {slot : Nat} {zeroed : Bool} {y : Tld} (hpc : σ.pcs t = .book r slot zeroed)
    (hy : σ.heap.tls t = some y)
    (he : tldStatAlloc σ.heap t y (σ.heap.pages r).slotSize = .ok s') :
    Goes c t σ s' σ.locks (.ret slot zeroed) :=
  .store _ _ (by simp only [SlabSys.step, hpc, hy, he])

/-- Taking a slot off the page and booking it. -/
theorem take_goes (hdebug : c.debug = false) {p : PageMeta} {m : Mem} {slot : Nat} {zeroed : Bool}
    {y : Tld} (hrun : Goes c t σ (s.setCell r ⟨m, p⟩) L (.book r slot zeroed))
    (hy : s.tls t = some y)
    (he : takeSlot c { s with mem := m } t y r p slot = .ok s') :
    Goes c t σ s' L (.ret slot zeroed) := by
  refine hrun.andThen fun τ hpc hheap hlocks => ?_
  unfold takeSlot markAllocated at he
  rw [hdebug] at he
  have hpage : τ.heap.pages r = p := by
    rw [hheap]
    exact upd_same ..
  have := book_goes (c := c) hpc (y := y) (by rw [hheap]; exact hy) (by rw [hpage, hheap]; exact he)
  rwa [hlocks] at this

/-- A step of the fast path that only tests. -/
theorem fastTest_goes {bin : Nat} {pc : AllocPc} (pc' : AllocPc) (hpc : σ.pcs t = .fast bin r pc)
    (hgo : allocStep false (σ.heap.cell r) pc = (σ.heap.cell r, .goto pc')) :
    Goes c t σ σ.heap σ.locks (.fast bin r pc') := by
  refine .step (σ.fastStep t false bin r pc) (by simp only [SlabSys.step, hpc]) ?_
  unfold SlabSys.fastStep
  rw [hgo]
  exact ⟨State.setCell_self σ.heap r, rfl, rfl, rfl⟩

theorem pop_goes (hdebug : c.debug = false) {bin : Nat} {y : Tld}
    (hpc : σ.pcs t = .fast bin r (.pop .head)) (hy : σ.heap.tls t = some y)
    (he : takeSlot c σ.heap t y r (popLocalFree σ.heap.mem (σ.heap.pages r))
      (σ.heap.pages r).localFree = .ok s') :
    Goes c t σ s' σ.locks (.ret (σ.heap.pages r).localFree false) :=
  take_goes hdebug ((runs_pop c t bin r).goes hpc (pop_alone _ _)) hy he

/-- The fast path on a cached page. -/
theorem cached_goes (hdebug : c.debug = false) {bin : Nat} {y : Tld}
    (hpc : σ.pcs t = .fast bin r .test)
    (hy : σ.heap.tls t = some y) {found : Option (Nat × Bool)}
    (he : cachedAlloc c σ.heap t y bin r = .ok (found, s')) :
    Goes c t σ s' σ.locks (found.elim (.again bin true) fun x => .ret x.1 x.2) := by
  unfold cachedAlloc at he
  simp only at he
  split at he
  next hlocal =>
    obtain ⟨s₂, ht, he⟩ := bind_eq_ok he
    cases he
    refine (fastTest_goes (.pop .head) hpc ?_).andThen fun τ hat hheap hlocks => ?_
    · exact congrArg (fun pc => (_, Next.goto pc)) (if_pos hlocal)
    · have := pop_goes (c := c) hdebug hat (y := y) (by rw [hheap]; exact hy)
        (by rw [hheap]; exact ht)
      rwa [hheap, hlocks] at this
  next hlocal =>
    refine (fastTest_goes .bumpTest hpc ?_).andThen fun τ hat hheap hlocks => ?_
    · exact congrArg (fun pc => (_, Next.goto pc)) (if_neg hlocal)
    rw [← hheap] at he hy
    rw [← hlocks]
    split at he
    next hbump =>
      obtain ⟨s₂, ht, he⟩ := bind_eq_ok he
      cases he
      refine (fastTest_goes (.bump .read) hat ?_).andThen fun ρ hat hheap hlocks => ?_
      · exact congrArg (fun pc => (_, Next.goto pc)) (if_pos hbump)
      · have hrun := (runs_bump c t bin r).goes hat (bump_alone _ _)
        rw [hheap, hlocks] at hrun
        exact take_goes hdebug hrun hy ht
    next hbump =>
      obtain ⟨⟨m, p⟩, hcol, he⟩ := bind_eq_ok he
      refine (fastTest_goes (.collect .load) hat ?_).andThen fun ρ hat hheap hlocks => ?_
      · exact congrArg (fun pc => (_, Next.goto pc)) (if_neg hbump)
      rw [← hheap] at he hy hcol
      rw [← hlocks]
      refine ((runs_collect c t bin r).goes hat (collect_alone hcol)).andThen
        fun κ hat hheap hlocks => ?_
      have hpage : κ.heap.pages r = p := by
        rw [hheap]
        exact upd_same ..
      have hmem : κ.heap.mem = m := by rw [hheap]; rfl
      replace hy : κ.heap.tls t = some y := by rw [hheap]; exact hy
      rw [← hlocks]
      split at he
      next hlocal =>
        obtain ⟨s₂, ht, he⟩ := bind_eq_ok he
        cases he
        refine (fastTest_goes (.pop .head) hat ?_).andThen fun ω hat hheap' hlocks => ?_
        · exact congrArg (Prod.mk _) (if_pos (by rw [← hpage] at hlocal; exact hlocal))
        · have := pop_goes (c := c) hdebug hat (y := y) (by rw [hheap']; exact hy)
            (by rw [hheap', hpage, hmem, hheap]; exact ht)
          rwa [hheap', hlocks, hpage] at this
      next hlocal =>
        cases he
        -- the page is full: the call ends on the page and clears the cache entry
        have hstep : κ.step c t false = some (κ.fastStep t false bin r .retest) := by
          simp only [SlabSys.step, hat]
        refine (show Goes c t κ κ.heap κ.locks (.clear bin) from .step _ hstep ?_).andThen
          fun ω hat hheap' hlocks => ?_
        · unfold SlabSys.fastStep
          simp only [allocStep]
          rw [if_neg (by rw [← hpage] at hlocal; exact hlocal)]
          exact ⟨State.setCell_self κ.heap r, rfl, rfl, rfl⟩
        · have hy' : ω.heap.tls t = some y := by rw [hheap']; exact hy
          have : Goes c t ω (ω.heap.setTld t { y with binPage := upd y.binPage bin none }) ω.locks
              (.again bin true) := .store _ _ (by simp only [SlabSys.step, hat, hy'])
          rwa [hheap', hheap, hlocks] at this

/-! ## The slow path -/

theorem tldGet_tls {u : Nat} {o : Option Tld} (he : tldGet c s u = (o, s')) : s'.tls u = o := by
  rcases tldGet_cases he with ⟨x, hx, rfl, rfl⟩ | ⟨hn, rfl, hos⟩ | ⟨s₁, addr, hn, hos, rfl, rfl⟩
  · exact hx
  · rw [hos.sameThreads.tls, hn]
  · exact upd_same ..

/-- The arena gets its thread, and the thread its arena if it has where to write it down. -/
theorem join_goes {k : ArenaCall} {o : Option Tld} (hpc : σ.pcs t = .join k)
    (htls : σ.heap.tls t = o) {s₁ : State}
    (hs : s₁ = σ.heap.setArena k.arena { σ.heap.arenas k.arena with
      threadCount := wrapInt ((σ.heap.arenas k.arena).threadCount + 1) }) :
    Goes c t σ (o.elim s₁ fun x => s₁.setTld t { x with arena := some k.arena }) σ.locks
      (.lock k) := by
  subst hs
  refine .store _ _ ?_
  simp only [SlabSys.step, hpc]
  rw [show (σ.heap.setArena k.arena _).tls t = o from htls]
  cases o <;> rfl

theorem arenaGet_goes {bin a : Nat} {hasTld : Bool} (hpc : σ.pcs t = .again bin hasTld)
    (he : arenaGet c σ.heap t = .ok (a, s')) : Goes c t σ s' σ.locks (.lock ⟨bin, hasTld, a⟩) := by
  unfold arenaGet at he
  rcases hg : tldGet c σ.heap t with ⟨o, s₁⟩
  rw [hg] at he
  simp only at he
  split at he
  next b hb =>
    cases he
    exact .store _ _ (by simp only [SlabSys.step, hpc, hg, hb])
  next hn =>
    split at he
    next => cases he
    next hidx =>
      have hnext : Goes c t σ s₁ σ.locks (.next bin hasTld) :=
        .store _ _ (by simp only [SlabSys.step, hpc, hg, hn])
      refine hnext.andThen fun τ hat hheap hlocks => ?_
      rw [← hlocks]
      rw [← hheap] at hidx
      refine (Goes.store ({ τ.heap with arenaNext := wrapInt (τ.heap.arenaNext + 1) })
        (.join ⟨bin, hasTld, (τ.heap.arenaNext.tmod numArenas).toNat⟩)
        (by simp only [SlabSys.step, hat, if_neg hidx])).andThen fun ρ hat hheap' hlocks => ?_
      have htls : ρ.heap.tls t = o := by
        rw [hheap']
        show τ.heap.tls t = o
        rw [hheap]
        exact tldGet_tls hg
      have hjoin := join_goes (c := c) hat htls rfl
      rw [hlocks, hheap'] at hjoin
      rw [← hheap] at he
      cases o with
      | some x =>
        cases he
        exact hjoin
      | none =>
        cases he
        exact hjoin

/-- Where the walk along the bin list goes on. -/
def SlabPc.cursor (k : ArenaCall) : Option PageRef → SlabPc
  | some r => .owner k r
  | none => .grow k

/-- The walk finds what `findFrom` does. The induction is on the length of the walk. -/
theorem walk_goes {k : ArenaCall} {fuel : Nat} {cur found : Option PageRef}
    (hpc : σ.pcs t = .cursor k cur)
    (he : findFrom (fun r => (σ.heap.pages r).next) (scanTest σ.heap) fuel cur = some found) :
    Goes c t σ σ.heap σ.locks (found.elim (.grow k) fun r => .bump k r .read) := by
  induction fuel generalizing σ cur with
  | zero =>
    cases cur with
    | none =>
      cases he
      exact .refl hpc
    | some r => exact absurd he (by simp [findFrom])
  | succ fuel ih =>
    cases cur with
    | none =>
      cases he
      exact .refl hpc
    | some r =>
      -- the walk goes on behind `r`
      have hon : ∀ τ : SlabSys n, τ.pcs t = .follow k r → τ.heap = σ.heap → τ.locks = σ.locks →
          scanTest σ.heap r = false →
          Goes c t τ σ.heap σ.locks (found.elim (.grow k) fun r => .bump k r .read) := by
        intro τ hat hheap hlocks hfail
        have hmove : Goes c t τ τ.heap τ.locks (.cursor k (τ.heap.pages r).next) := by
          refine .move _ ?_
          simp only [SlabSys.step, hat]
          cases (τ.heap.pages r).next <;> rfl
        rw [← hheap, ← hlocks]
        refine hmove.andThen fun ρ hat hheap' hlocks' => ?_
        unfold findFrom at he
        rw [hfail, if_neg (by simp), ← hheap] at he
        replace hat : ρ.pcs t = .cursor k (ρ.heap.pages r).next := by rw [hheap']; exact hat
        rw [← hheap'] at he
        rw [← hheap', ← hlocks']
        exact ih hat he
      by_cases hown : (σ.heap.pages r).ownerTid = noOwner
      · refine (Goes.move (.test k r)
          (by simp only [SlabSys.step, hpc, SlabPc.cursor, if_pos hown])).andThen
          fun τ hat hheap hlocks => ?_
        by_cases hbump : (σ.heap.pages r).bumpOffset < (σ.heap.pages r).bumpEnd
        · have htest : scanTest σ.heap r = true := by simp [scanTest, hown, hbump]
          unfold findFrom at he
          rw [if_pos htest] at he
          cases he
          rw [← hheap, ← hlocks]
          rw [← hheap] at hbump
          exact .move _ (by simp only [SlabSys.step, hat, if_pos hbump, Option.elim_some])
        · rw [← hheap] at hbump
          refine (Goes.move (.follow k r)
            (by simp only [SlabSys.step, hat, if_neg hbump])).andThen fun ρ hat hheap' hlocks' => ?_
          rw [hheap] at hbump
          exact hon ρ hat (hheap'.trans hheap) (hlocks'.trans hlocks) (by simp [scanTest, hbump])
      · refine (Goes.move (.follow k r)
          (by simp only [SlabSys.step, hpc, SlabPc.cursor, if_neg hown])).andThen
          fun ρ hat hheap hlocks => ?_
        exact hon ρ hat hheap hlocks (by simp [scanTest, hown])

/-- Bumping a page under the lock and giving the lock back. -/
theorem arenaBump_goes (hdebug : c.debug = false) {k : ArenaCall} {slot : Nat}
    (hpc : σ.pcs t = .bump k r .read) (he : arenaBump c σ.heap k.arena r = .ok (slot, s')) :
    Goes c t σ s' σ.locks (.unlock k slot true) := by
  refine ((runs_arenaBump c t k r).goes hpc (bump_alone _ _)).andThen fun τ hat hheap hlocks => ?_
  unfold arenaBump markAllocated at he
  rw [hdebug] at he
  cases he
  have hpage : τ.heap.pages r = bumpSlot (σ.heap.pages r) := by
    rw [hheap]
    exact upd_same ..
  have : Goes c t τ (arenaCredit τ.heap k.arena (τ.heap.pages r).slotSize) τ.locks
      (.unlock k (pageStart (σ.heap.pages r) + (σ.heap.pages r).bumpOffset) true) :=
    .store _ _ (by simp only [SlabSys.step, hat])
  rwa [hpage, hheap, hlocks] at this

/-- `arena_alloc` between the lock and the unlock. -/
theorem arenaBody_goes (hdebug : c.debug = false) {k : ArenaCall} {slot : Nat} {zeroed : Bool}
    (hpc : σ.pcs t = .head k)
    (he : arenaAlloc c σ.heap k.arena k.bin = .ok ((slot, zeroed), s')) :
    Goes c t σ s' σ.locks (.unlock k slot zeroed) := by
  have hstart : Goes c t σ σ.heap σ.locks (.cursor k ((σ.heap.arenas k.arena).bins k.bin)) := by
    refine .move _ ?_
    simp only [SlabSys.step, hpc]
    cases (σ.heap.arenas k.arena).bins k.bin <;> rfl
  refine hstart.andThen fun τ hat hheap hlocks => ?_
  rw [← hheap] at he hat
  rw [← hlocks]
  unfold arenaAlloc at he
  split at he
  next => cases he
  next r hfind =>
    obtain ⟨⟨slot', s₁⟩, hb, he⟩ := bind_eq_ok he
    obtain ⟨hp, rfl⟩ := Prod.mk.inj (Except.ok.inj he)
    cases hp
    refine (walk_goes hat hfind).andThen fun ρ hat hheap hlocks => ?_
    rw [← hlocks]
    exact arenaBump_goes hdebug hat (by rw [hheap]; exact hb)
  next hfind =>
    obtain ⟨⟨page, s₁⟩, hnew, he⟩ := bind_eq_ok he
    refine (walk_goes hat hfind).andThen fun ρ hat hheap hlocks => ?_
    rw [← hheap] at hnew
    rw [← hlocks]
    cases page with
    | none =>
      obtain ⟨hp, rfl⟩ := Prod.mk.inj (Except.ok.inj he)
      cases hp
      exact .store _ _ (by simp only [SlabSys.step, hat, Option.elim_none, hnew])
    | some r =>
      obtain ⟨⟨slot', s₂⟩, hb, he⟩ := bind_eq_ok he
      obtain ⟨hp, rfl⟩ := Prod.mk.inj (Except.ok.inj he)
      cases hp
      have hgrow : Goes c t ρ (binInsertPage s₁ k.arena r) ρ.locks (.bump k r .read) :=
        .step (((ρ.onHeap (binInsertPage s₁ k.arena r)).opens r).goto t (.bump k r .read))
          (by simp only [SlabSys.step, hat, Option.elim_none, hnew]) ⟨rfl, rfl, rfl, rfl⟩
      refine hgrow.andThen fun κ hat hheap hlocks => ?_
      rw [← hlocks]
      exact arenaBump_goes hdebug hat (by rw [hheap]; exact hb)

/-- Where a call goes on after `arena_alloc` returned. -/
def SlabPc.afterArena (k : ArenaCall) (slot : Nat) (zeroed : Bool) : SlabPc :=
  if k.hasTld = true ∧ slot ≠ 0 then .find k.bin slot zeroed else .ret slot zeroed

theorem arenaAlloc_goes (hdebug : c.debug = false) {k : ArenaCall} {slot : Nat} {zeroed : Bool}
    (hpc : σ.pcs t = .lock k) (hfree : σ.locks k.arena = none)
    (he : arenaAlloc c σ.heap k.arena k.bin = .ok ((slot, zeroed), s')) :
    Goes c t σ s' σ.locks (.afterArena k slot zeroed) := by
  have hlock : Goes c t σ σ.heap (upd σ.locks k.arena (some t)) (.head k) :=
    .step ({ σ with locks := upd σ.locks k.arena (some t) }.goto t (.head k))
      (by simp only [SlabSys.step, hpc, if_pos hfree]) ⟨rfl, rfl, rfl, rfl⟩
  refine hlock.andThen fun τ hat hheap hlocks => ?_
  refine (arenaBody_goes hdebug hat (by rw [hheap]; exact he)).andThen fun ρ hat hheap hlocks' => ?_
  have hback : upd ρ.locks k.arena none = σ.locks := by
    rw [hlocks', hlocks]
    funext a
    by_cases ha : a = k.arena
    · rw [ha, upd_same, hfree]
    · rw [upd_ne ha, upd_ne ha]
  rw [← hback, ← hheap]
  exact .step ({ ρ with locks := upd ρ.locks k.arena none }.goto t (.afterArena k slot zeroed))
    (by simp only [SlabSys.step, hat, SlabPc.afterArena]) ⟨rfl, rfl, rfl, rfl⟩

/-- The claim and the cache entry. -/
theorem claim_goes {bin slot : Nat} {zeroed : Bool} {y : Tld}
    (hpc : σ.pcs t = .find bin slot zeroed)
    (hy : σ.heap.tls t = some y) :
    Goes c t σ (claimPage σ.heap t bin slot y) σ.locks (.ret slot zeroed) := by
  have hcache : ∀ (τ : SlabSys n) r, τ.pcs t = .cache bin slot zeroed r → τ.heap.tls t = some y →
      Goes c t τ (τ.heap.setTld t { y with binPage := upd y.binPage bin (some r) }) τ.locks
        (.ret slot zeroed) :=
    fun τ r hat hy => .store _ _ (by simp only [SlabSys.step, hat, hy])
  unfold claimPage
  split
  next hp => exact .move _ (by simp only [SlabSys.step, hpc, hp])
  next r hp =>
    refine (Goes.move (.claim bin slot zeroed r)
      (by simp only [SlabSys.step, hpc, hp])).andThen fun τ hat hheap hlocks => ?_
    rw [← hheap] at hy ⊢
    rw [← hlocks]
    split
    next hown =>
      refine (Goes.store (τ.heap.setPage r { τ.heap.pages r with ownerTid := y.threadId })
        (.cache bin slot zeroed r)
        (by simp only [SlabSys.step, hat, hy, if_pos hown])).andThen fun ρ hat hheap hlocks => ?_
      have := hcache ρ r hat (by rw [hheap]; exact hy)
      rwa [hheap, hlocks] at this
    next hown =>
      split
      next hmine =>
        refine (Goes.move (.cache bin slot zeroed r)
          (by simp only [SlabSys.step, hat, hy, if_neg hown, if_pos hmine])).andThen
          fun ρ hat hheap hlocks => ?_
        have := hcache ρ r hat (by rw [hheap]; exact hy)
        rwa [hheap, hlocks] at this
      next hmine =>
        exact .move _ (by simp only [SlabSys.step, hat, hy, if_neg hown, if_neg hmine])

/-- A thread with data still has them after `arena_get`. -/
theorem arenaGet_isSome {u a : Nat} (hsome : (s.tls u).isSome) (he : arenaGet c s u = .ok (a, s')) :
    (s'.tls u).isSome := by
  obtain ⟨o, s₁, hg, hcase⟩ := arenaGet_cases he
  obtain ⟨x, hx⟩ := Option.isSome_iff_exists.mp hsome
  have htls := tldGet_tls hg
  rcases hcase with ⟨y, rfl, -, rfl⟩ | ⟨-, y, rfl, -, rfl⟩ | ⟨-, rfl, -⟩
  · rw [htls]
    rfl
  · exact congrArg Option.isSome (upd_same ..)
  · rcases tldGet_cases hg with ⟨y, -, hno, -⟩ | ⟨hn, -⟩ | ⟨s₂, addr, -, -, hno, -⟩
    · cases hno
    · cases hx.symm.trans hn
    · cases hno

/-- The slow path. -/
theorem slow_goes (hdebug : c.debug = false) {bin slot : Nat} {hasTld zeroed : Bool}
    (hpc : σ.pcs t = .again bin hasTld) (htld : hasTld = true → (σ.heap.tls t).isSome)
    (hfree : ∀ a, σ.locks a = none)
    (he : slowAlloc c σ.heap t bin hasTld = .ok ((slot, zeroed), s')) :
    Goes c t σ s' σ.locks (.ret slot zeroed) := by
  unfold slowAlloc at he
  obtain ⟨⟨a, s₁⟩, hget, he⟩ := bind_eq_ok he
  obtain ⟨⟨⟨slot', zeroed'⟩, s₂⟩, halloc, he⟩ := bind_eq_ok he
  refine (arenaGet_goes hpc hget).andThen fun τ hat hheap hlocks => ?_
  rw [← hlocks]
  refine (arenaAlloc_goes hdebug hat (by rw [hlocks]; exact hfree a)
    (by rw [hheap]; exact halloc)).andThen fun ρ hat hheap' hlocks' => ?_
  rw [← hlocks']
  simp only at he
  split at he
  next x hcond hx =>
    obtain ⟨hp, rfl⟩ := Prod.mk.inj (Except.ok.inj he)
    obtain ⟨rfl, rfl⟩ := Prod.mk.inj hp
    have hgo : hasTld = true ∧ slot' ≠ 0 := by simpa using hcond
    rw [SlabPc.afterArena, if_pos hgo] at hat
    rw [← hheap'] at hx ⊢
    exact claim_goes hat hx
  next hno =>
    obtain ⟨hp, rfl⟩ := Prod.mk.inj (Except.ok.inj he)
    obtain ⟨rfl, rfl⟩ := Prod.mk.inj hp
    have hret : ¬ (hasTld = true ∧ slot' ≠ 0) := by
      rintro ⟨ht, hslot⟩
      have hsome := arenaGet_isSome (htld ht) hget
      rw [← arenaAlloc_tls halloc t] at hsome
      obtain ⟨x, hx⟩ := Option.isSome_iff_exists.mp hsome
      exact hno x (by simp [ht, hslot]) hx
    rw [SlabPc.afterArena, if_neg hret] at hat
    rw [← hheap']
    exact .refl hat

/-- `slab_alloc_inner` for a size of the slab allocator. -/
theorem alloc_goes (hdebug : c.debug = false) {size bin slot : Nat} {zeroed : Bool}
    (hbin : slabBin size = some bin) (hpc : σ.pcs t = .enter bin) (hfree : ∀ a, σ.locks a = none)
    (he : slabAllocInner c σ.heap t size = .ok ((slot, zeroed), s')) :
    Goes c t σ s' σ.locks (.ret slot zeroed) := by
  unfold slabBin at hbin
  simp only [Option.ite_none_left_eq_some, not_or, Option.some.injEq] at hbin
  obtain ⟨⟨hmedium, hhalf⟩, hbin⟩ := hbin
  rw [hbin] at hhalf
  unfold slabAllocInner at he
  simp only [if_neg hmedium, if_neg hhalf, hbin] at he
  rcases hg : tldGet c σ.heap t with ⟨o, s₁⟩
  rw [hg] at he
  have htls := tldGet_tls hg
  cases o with
  | none =>
    refine (Goes.store s₁ (.again bin false) (by simp only [SlabSys.step, hpc, hg])).andThen
      fun τ hat hheap hlocks => ?_
    rw [← hlocks]
    exact slow_goes hdebug hat (by simp) (by rw [hlocks]; exact hfree) (by rw [hheap]; exact he)
  | some y =>
    refine (Goes.store s₁ (.look bin) (by simp only [SlabSys.step, hpc, hg])).andThen
      fun τ hat hheap hlocks => ?_
    rw [← hheap] at htls he
    rw [← hlocks] at hfree ⊢
    -- from here on the slow path
    have hslow : ∀ ρ : SlabSys n, ρ.pcs t = .again bin true →
        ρ.locks = τ.locks → (ρ.heap.tls t).isSome →
        slowAlloc c ρ.heap t bin true = .ok ((slot, zeroed), s') →
        Goes c t ρ s' τ.locks (.ret slot zeroed) := by
      intro ρ hat hlocks hsome he
      rw [← hlocks] at hfree ⊢
      exact slow_goes hdebug hat (fun _ => hsome) hfree he
    have hmiss : ∀ ρ : SlabSys n, ρ.pcs t = .again bin true →
        ρ.heap = τ.heap → ρ.locks = τ.locks →
        slowAlloc c τ.heap t bin true = .ok ((slot, zeroed), s') →
        Goes c t ρ s' τ.locks (.ret slot zeroed) := by
      intro ρ hat hheap hlocks he
      exact hslow ρ hat hlocks (by rw [hheap, htls]; rfl) (by rw [hheap]; exact he)
    simp only at he
    split at he
    next hnone =>
      exact (Goes.move (.again bin true) (by simp only [SlabSys.step, hat, htls, hnone])).andThen
        fun ρ hat hheap hlocks => hmiss ρ hat hheap hlocks he
    next r hr =>
      split at he
      next hact =>
        obtain ⟨⟨found, s₂⟩, hcached, he⟩ := bind_eq_ok he
        refine (Goes.move (.fast bin r .test)
          (by simp only [SlabSys.step, hat, htls, hr, if_pos hact])).andThen
          fun ρ hat hheap hlocks => ?_
        rw [← hheap] at htls hcached
        have hfast := cached_goes hdebug hat htls hcached
        rw [hlocks] at hfast
        cases found with
        | some x =>
          cases he
          exact hfast
        | none =>
          refine hfast.andThen fun κ hat hheap' hlocks' =>
            hslow κ hat hlocks' ?_ (by rw [hheap']; exact he)
          rw [hheap']
          rcases cachedAlloc_cases hcached with ⟨-, -, htls'⟩ | ⟨hno, -⟩
          · rw [htls', upd_same]
            rfl
          · cases hno
      next hact =>
        exact (Goes.move (.again bin true)
          (by simp only [SlabSys.step, hat, htls, hr, if_neg hact])).andThen
          fun ρ hat hheap hlocks => hmiss ρ hat hheap hlocks he

/-! ## Freeing -/

theorem freeRemote_goes {ptr : Nat} (hpc : σ.pcs t = .freeRemote r (.load ptr)) :
    Goes c t σ (freeRemote σ.heap r (σ.heap.pages r) ptr) σ.locks .idle := by
  refine ((runs_freeRemote c t r).goes hpc (freeRemote_alone _ _ _)).andThen
    fun τ hat hheap hlocks => ?_
  have hpage : τ.heap.pages r = (pageFreeSlotRemote σ.heap.mem (σ.heap.pages r) ptr).2 := by
    rw [hheap]
    exact upd_same ..
  have : Goes c t τ (arenaCreditFree τ.heap (τ.heap.pages r).arena (τ.heap.pages r).slotSize)
    τ.locks
      .idle := .store _ _ (by simp only [SlabSys.step, hat])
  rwa [hpage, hheap, hlocks] at this

theorem freeLocal_goes {ptr : Nat} {y : Tld} (hpc : σ.pcs t = .freeLocal r (.load ptr))
    (hy : σ.heap.tls t = some y) (he : freeLocal σ.heap t y r (σ.heap.pages r) ptr = .ok s') :
    Goes c t σ s' σ.locks .idle := by
  refine ((runs_freeLocal c t r).goes hpc (freeLocal_alone _ _ _)).andThen
    fun τ hat hheap hlocks => ?_
  have hpage : τ.heap.pages r = (pageFreeSlotLocal σ.heap.mem (σ.heap.pages r) ptr).2 := by
    rw [hheap]
    exact upd_same ..
  have hy' : τ.heap.tls t = some y := by rw [hheap]; exact hy
  have hstat : tldStatFree τ.heap t y (τ.heap.pages r).slotSize = .ok s' := by
    rw [hpage, hheap]
    exact he
  rw [← hlocks]
  exact .store _ _ (by simp only [SlabSys.step, hat, hy', hstat])

theorem tldGet_pages {u : Nat} {o : Option Tld} (he : tldGet c s u = (o, s')) :
    s'.pages = s.pages := by
  rcases tldGet_cases he with ⟨x, -, -, rfl⟩ | ⟨-, -, hos⟩ | ⟨s₁, addr, -, hos, -, rfl⟩
  · rfl
  · exact hos.same.pages
  · exact hos.same.pages

/-- `slab_free`. -/
theorem free_goes (hdebug : c.debug = false) {ptr : Nat} (hptr : ptr ≠ 0)
    (hpc : σ.pcs t = .freeFind ptr) (he : slabFree c σ.heap t ptr = .ok s') :
    Goes c t σ s' σ.locks .idle := by
  unfold slabFree at he
  rw [if_neg hptr] at he
  split at he
  next hseg =>
    cases he
    exact .move _ (by simp only [SlabSys.step, hpc, if_pos hseg])
  next hseg =>
    split at he
    next hp =>
      cases he
      exact .move _ (by simp only [SlabSys.step, hpc, if_neg hseg, hp])
    next r hp =>
      split at he
      next hst =>
        cases he
        exact .move _ (by simp only [SlabSys.step, hpc, if_neg hseg, hp, if_pos hst])
      next hst =>
        obtain ⟨p, hmark, he⟩ := bind_eq_ok he
        unfold markFreed at hmark
        rw [hdebug] at hmark
        obtain rfl : σ.heap.pages r = p := Except.ok.inj hmark
        have hself : σ.heap.setPage r (σ.heap.pages r) = σ.heap := State.setCell_self σ.heap r
        simp only [hself] at he
        refine (Goes.move (.freeTld ptr r)
          (by simp only [SlabSys.step, hpc, if_neg hseg, hp, if_neg hst])).andThen
          fun τ hat hheap hlocks => ?_
        rw [← hheap] at he
        rw [← hlocks]
        rcases hg : tldGet c τ.heap t with ⟨o, s₁⟩
        rw [hg] at he
        have htls := tldGet_tls hg
        have hpages := tldGet_pages hg
        cases o with
        | none =>
          have hgive : Goes c t τ s₁ τ.locks (.freeRemote r (.load ptr)) :=
            .step (((τ.onHeap s₁).gives r ptr).goto t (.freeRemote r (.load ptr)))
              (by simp only [SlabSys.step, hat, hg]) ⟨rfl, rfl, rfl, rfl⟩
          cases he
          refine hgive.andThen fun ρ hat hheap hlocks => ?_
          rw [← hpages, ← hlocks, ← hheap]
          exact freeRemote_goes hat
        | some y =>
          refine (Goes.store s₁ (.freeOwner ptr r) (by simp only [SlabSys.step, hat, hg])).andThen
            fun ρ hat hheap hlocks => ?_
          rw [← hheap] at htls hpages he
          rw [← hpages] at he
          rw [← hlocks]
          simp only at he
          split at he
          next hown =>
            have hgive : Goes c t ρ ρ.heap ρ.locks (.freeLocal r (.load ptr)) :=
              .step ((ρ.gives r ptr).goto t (.freeLocal r (.load ptr)))
                (by simp only [SlabSys.step, hat, htls, if_pos hown]) ⟨rfl, rfl, rfl, rfl⟩
            refine hgive.andThen fun κ hat hheap hlocks => ?_
            rw [← hheap] at he htls
            rw [← hlocks]
            exact freeLocal_goes hat htls he
          next hown =>
            have hgive : Goes c t ρ ρ.heap ρ.locks (.freeRemote r (.load ptr)) :=
              .step ((ρ.gives r ptr).goto t (.freeRemote r (.load ptr)))
                (by simp only [SlabSys.step, hat, htls, if_neg hown]) ⟨rfl, rfl, rfl, rfl⟩
            cases he
            refine hgive.andThen fun κ hat hheap hlocks => ?_
            rw [← hlocks, ← hheap]
            exact freeRemote_goes hat

end CustomMalloc

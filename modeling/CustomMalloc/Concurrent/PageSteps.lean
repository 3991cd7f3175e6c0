import CustomMalloc.Concurrent.StepRules

/-!
# Steps on a page

The steps of overlapping calls that move slots: the fast path and a local free, which only
the page's owner takes, a remote free, a bump under the arena's lock, and setting up and
claiming a page. Each is a step of the one-page system that `SlabSys.view` shows, so the
page's own invariant is not looked into again.
-/

namespace CustomMalloc

open Lib.Words Lib.Bytes Lib.Chain Lib.Interleave Lib.Hands

variable {n : Nat} {c : Cfg} {σ σ' : SlabSys n} {r q : PageRef} {t u : Fin n} {x : Nat}
  {pc pc' : SlabPc}
  {s : Cell} {spurious : Bool}

/-! ## What the machines keep -/

theorem popStep_used (h : s.page.used < 2 ^ 16) (pc : PopPc) :
    (popStep s pc).1.page.used < 2 ^ 16 := by
  cases pc with
  | used slot => exact Nat.mod_lt _ (by decide)
  | head | read | unlink | count | recount => exact h

theorem bumpStep_used (h : s.page.used < 2 ^ 16) (pc : BumpPc) :
    (bumpStep s pc).1.page.used < 2 ^ 16 := by
  cases pc with
  | used slot => exact Nat.mod_lt _ (by decide)
  | read | load | store => exact h

/-- A collect changes neither `used` nor `bump_offset`. -/
theorem collectStep_kept (spurious : Bool) (s : Cell) (pc : CollectPc) :
    (collectStep spurious s pc).1.page.used = s.page.used ∧
      (collectStep spurious s pc).1.page.bumpOffset = s.page.bumpOffset := by
  cases pc with
  | load => simp only [collectStep]; split <;> exact ⟨rfl, rfl⟩
  | cas old => simp only [collectStep]; split <;> exact ⟨rfl, rfl⟩
  | walk list current count => simp only [collectStep]; split <;> exact ⟨rfl, rfl⟩
  | rest | splice | head | count | recount | settle => exact ⟨rfl, rfl⟩

theorem allocStep_used (h : s.page.used < 2 ^ 16) (pc : AllocPc) :
    (allocStep spurious s pc).1.page.used < 2 ^ 16 := by
  cases pc with
  | test | bumpTest | retest => exact h
  | pop pc => exact popStep_used h pc
  | bump pc => exact bumpStep_used h pc
  | collect pc =>
    show (collectStep spurious s pc).1.page.used < 2 ^ 16
    rw [(collectStep_kept spurious s pc).1]
    exact h

theorem freeLocalStep_used (h : s.page.used < 2 ^ 16) (pc : FreeLocalPc) :
    (freeLocalStep s pc).1.page.used < 2 ^ 16 := by
  cases pc with
  | used => exact sub16_lt h
  | load | link | head | count | recount => exact h

theorem freeRemoteStep_used (h : s.page.used < 2 ^ 16) (pc : FreeRemotePc) :
    (freeRemoteStep spurious s pc).1.page.used < 2 ^ 16 := by
  cases pc with
  | used => exact sub16_lt h
  | cas y old => simp only [freeRemoteStep]; split <;> exact h
  | load | link | count => exact h

/-- Only the store of a bump changes `bump_offset`. -/
theorem allocStep_bumpOffset {pc : AllocPc} (hpc : ∀ slot offset, pc ≠ .bump (.store slot offset)) :
    (allocStep spurious s pc).1.page.bumpOffset = s.page.bumpOffset := by
  cases pc with
  | test | bumpTest | retest => rfl
  | pop pc => cases pc <;> rfl
  | bump pc =>
    cases pc with
    | store slot offset => exact absurd rfl (hpc slot offset)
    | read | load | used => rfl
  | collect pc => exact (collectStep_kept spurious s pc).2

theorem freeLocalStep_bumpOffset (s : Cell) (pc : FreeLocalPc) :
    (freeLocalStep s pc).1.page.bumpOffset = s.page.bumpOffset := by
  cases pc <;> rfl

theorem freeRemoteStep_bumpOffset (s : Cell) (pc : FreeRemotePc) :
    (freeRemoteStep spurious s pc).1.page.bumpOffset = s.page.bumpOffset := by
  cases pc with
  | cas y old => simp only [freeRemoteStep]; split <;> rfl
  | load | link | count | used => rfl

/-! ## The fast path -/

/-- Where `slab_alloc_inner` goes on. -/
def fastNext (bin : Nat) (r : PageRef) (pc : AllocPc) : Next AllocPc (Option Nat) → SlabPc
  | .goto pc' => .fast bin r pc'
  | .done none => .clear bin
  | .done (some x) => .book r x pc.zeroed

/-- Where the owner is then. -/
def ownerNext : Next AllocPc (Option Nat) → OwnerPc
  | .goto pc' => .alloc pc'
  | .done _ => .idle

/-- The slot that leaves the page. -/
def takenNext : Next AllocPc (Option Nat) → List Nat
  | .done (some x) => [x]
  | _ => []

/-- A returned slot is the one the owner has just taken, and only a bumped one is said to be
zeroed. -/
theorem allocStep_done {pc : AllocPc} (he : (allocStep spurious s pc).2 = .done (some x)) :
    (OwnerPc.alloc pc).taking = some x ∧ (pc.zeroed = true → pc = .bump (.used x)) := by
  cases pc with
  | test | bumpTest => exact absurd he (by simp [allocStep])
  | retest =>
    simp only [allocStep] at he
    split at he <;> cases he
  | pop pc =>
    cases pc with
    | used slot =>
      simp only [allocStep, popStep, Next.within, Next.done.injEq, Option.some.injEq] at he
      exact ⟨congrArg some he, fun hz => absurd hz (by simp [AllocPc.zeroed])⟩
    | head | read | unlink | count | recount =>
      exact absurd he (by simp [allocStep, popStep, Next.within])
  | bump pc =>
    cases pc with
    | used slot =>
      simp only [allocStep, bumpStep, Next.within, Next.done.injEq, Option.some.injEq] at he
      exact ⟨congrArg some he, fun _ => by rw [he]⟩
    | read | load | store => exact absurd he (by simp [allocStep, bumpStep, Next.within])
  | collect pc =>
    simp only [allocStep] at he
    cases hc : (collectStep spurious s pc).2 with
    | goto pc' => rw [hc] at he; exact absurd he (by simp [Next.within])
    | done b => rw [hc] at he; exact absurd he (by simp [Next.within])

/-- How the owner gets to bump. -/
theorem allocStep_goto_bump {pc : AllocPc} {pb : BumpPc}
    (he : (allocStep spurious s pc).2 = .goto (.bump pb)) :
    pc = .bumpTest ∧ pb = .read ∨ ∃ pb₀, pc = .bump pb₀ ∧ (bumpStep s pb₀).2 = .goto pb := by
  cases pc with
  | test =>
    simp only [allocStep] at he
    split at he <;> cases he
  | bumpTest =>
    simp only [allocStep] at he
    split at he
    · simp only [Next.goto.injEq, AllocPc.bump.injEq] at he
      exact Or.inl ⟨rfl, he.symm⟩
    · cases he
  | retest =>
    simp only [allocStep] at he
    split at he <;> cases he
  | pop pc =>
    simp only [allocStep] at he
    cases hp : (popStep s pc).2 with
    | goto pc' => rw [hp] at he; exact absurd he (by simp [Next.within])
    | done b => rw [hp] at he; exact absurd he (by simp [Next.within])
  | bump pb₀ =>
    simp only [allocStep] at he
    cases hp : (bumpStep s pb₀).2 with
    | goto pc' =>
      rw [hp] at he
      simp only [Next.within, Next.goto.injEq, AllocPc.bump.injEq] at he
      exact Or.inr ⟨pb₀, rfl, hp.trans (congrArg _ he)⟩
    | done b => rw [hp] at he; exact absurd he (by simp [Next.within])
  | collect pc =>
    simp only [allocStep] at he
    cases hc : (collectStep spurious s pc).2 with
    | goto pc' => rw [hc] at he; exact absurd he (by simp [Next.within])
    | done b => rw [hc] at he; exact absurd he (by simp [Next.within])

theorem bumpStep_goto_used {pb : BumpPc} (he : (bumpStep s pb).2 = .goto (.used x)) :
    ∃ offset, pb = .store x offset := by
  cases pb with
  | store slot offset =>
    simp only [bumpStep, Next.goto.injEq, BumpPc.used.injEq] at he
    exact ⟨offset, by rw [he]⟩
  | read | load | used => exact absurd he (by simp [bumpStep])

/-- A page's owner in the middle of a bump was there before, or has just tested. -/
theorem allocStep_bumps {pc pc' : AllocPc} {bin : Nat}
    (he : (allocStep spurious s pc).2 = .goto pc')
    (hb : (SlabPc.fast bin r pc').bumps = some q) :
    q = r ∧ (pc = .bumpTest ∨ (SlabPc.fast bin r pc).bumps = some r) := by
  cases pc' with
  | test | pop | bumpTest | collect | retest => exact absurd hb (by simp [SlabPc.bumps])
  | bump pb =>
    cases pb with
    | used slot => exact absurd hb (by simp [SlabPc.bumps])
    | read =>
      refine ⟨(Option.some.inj hb).symm, ?_⟩
      rcases allocStep_goto_bump he with ⟨rfl, -⟩ | ⟨pb₀, -, hp⟩
      · exact Or.inl rfl
      · exact absurd hp (by cases pb₀ <;> simp [bumpStep])
    | load slot =>
      refine ⟨(Option.some.inj hb).symm, Or.inr ?_⟩
      rcases allocStep_goto_bump he with ⟨-, hp⟩ | ⟨pb₀, rfl, hp⟩
      · cases hp
      · cases pb₀ with
        | read => rfl
        | load | store | used => exact absurd hp (by simp [bumpStep])
    | store slot offset =>
      refine ⟨(Option.some.inj hb).symm, Or.inr ?_⟩
      rcases allocStep_goto_bump he with ⟨-, hp⟩ | ⟨pb₀, rfl, hp⟩
      · cases hp
      · cases pb₀ with
        | load => rfl
        | read | store | used => exact absurd hp (by simp [bumpStep])

/-- A step of the fast path, in one piece. -/
theorem fastStep_eq (σ : SlabSys n) (t : Fin n) (bin : Nat) (r : PageRef) (pc : AllocPc)
    {cell : Cell}
    {next : Next AllocPc (Option Nat)} (he : allocStep spurious (σ.heap.cell r) pc = (cell, next)) :
    σ.fastStep t spurious bin r pc =
      { σ with
        heap := σ.heap.setCell r cell
        pcs := upd σ.pcs t (fastNext bin r pc next)
        held := upd σ.held r (takenNext next ++ σ.held r)
        log := upd σ.log r (pc.event spurious (σ.heap.cell r) ++ σ.log r) } := by
  unfold SlabSys.fastStep
  rw [he]
  cases next with
  | goto pc' =>
    show _ = { σ with heap := _, pcs := _, held := upd σ.held r (σ.held r), log := _ }
    rw [upd_eta]
    rfl
  | done o =>
    cases o with
    | none =>
      show _ = { σ with heap := _, pcs := _, held := upd σ.held r (σ.held r), log := _ }
      rw [upd_eta]
      rfl
    | some x => rfl

/-- A step of the owner's allocation in the one-page system. -/
theorem PageSys.own_alloc (v : PageSys n) {pc : AllocPc} {cell : Cell}
    {next : Next AllocPc (Option Nat)} (howner : v.owner = .alloc pc)
    (he : allocStep spurious v.toCell pc = (cell, next)) :
    v.own spurious = some { v with
      toCell := cell
      owner := ownerNext next
      live := takenNext next ++ v.live
      log := pc.event spurious v.toCell ++ v.log } := by
  unfold PageSys.own
  rw [howner]
  simp only [he]
  cases next with
  | goto pc' => cases pc <;> rfl
  | done o => cases o <;> cases pc <;> rfl

/-- What a step does to the remote stack does not depend on `used`. -/
theorem AllocPc.event_plus (pc : AllocPc) (cell : Cell) (k : Nat) :
    pc.event spurious (cell.plus k) = pc.event spurious cell := by
  cases pc with
  | collect pc =>
    show pc.event (collectStep spurious (cell.plus k) pc).2 =
      pc.event (collectStep spurious cell pc).2
    rw [collectStep_plus]
  | test | pop | bumpTest | bump | retest => rfl

/-- The same step of the one-page system. -/
theorem view_own_alloc (σ : SlabSys n) (r : PageRef) (pc : AllocPc) {cell : Cell}
    {next : Next AllocPc (Option Nat)} (he : allocStep spurious (σ.heap.cell r) pc = (cell, next)) :
    (σ.view r (.alloc pc)).own spurious = some { σ.view r (ownerNext next) with
      toCell := cell.plus (σ.owed r)
      live := takenNext next ++ σ.held r
      log := pc.event spurious (σ.heap.cell r) ++ σ.log r } := by
  have hstep : allocStep spurious (σ.view r (.alloc pc)).toCell pc =
      (cell.plus (σ.owed r), next) := by
    have := allocStep_plus spurious (σ.heap.cell r) (σ.owed r) pc
    rwa [he] at this
  rw [PageSys.own_alloc _ rfl hstep]
  have hlog : pc.event spurious (σ.view r (.alloc pc)).toCell = pc.event spurious (σ.heap.cell r) :=
    pc.event_plus (σ.heap.cell r) (σ.owed r)
  rw [hlog]
  rfl

/-- Working on the slots of a page takes it from nobody. -/
theorem SlabSys.Mine.setCell {cell : Cell} (h : σ.Mine t q)
    (hflat : cell.page.flat = (σ.heap.pages r).flat) (hheap : σ'.heap = σ.heap.setCell r cell) :
    σ'.Mine t q := by
  obtain ⟨hact, y, hy, hown⟩ := h
  refine ⟨?_, y, ?_, ?_⟩
  · rw [hheap]
    exact (HeapOk.setCell_active hflat q).mpr hact
  · rw [hheap]
    exact hy
  · rw [hheap, (HeapOk.flat_fields (HeapOk.setCell_fields hflat q)).2.2.2.2.1]
    exact hown

/-- A call that works on a page as its owner owns it. -/
theorem Knows.mine {o : OwnerPc} (h : Knows σ t pc) (ho : pc.ownerOf r = some o) : σ.Mine t r := by
  cases pc with
  | fast bin q pc =>
    obtain ⟨rfl, -⟩ := Option.ite_none_right_eq_some.mp ho
    exact h.2.1
  | freeLocal q pc =>
    obtain ⟨rfl, -⟩ := Option.ite_none_right_eq_some.mp ho
    exact h
  | _ => exact absurd ho (by simp [SlabPc.ownerOf])

namespace SlabInv

/-- A page has one owner. -/
theorem mine_unique (h : SlabInv c σ) (ht : σ.Mine t r) (hu : σ.Mine u r) : t = u := by
  obtain ⟨-, y, hy, hown⟩ := ht
  obtain ⟨-, z, hz, hown'⟩ := hu
  exact Fin.ext (h.heap.ids.distinct t u y z hy hz (hown.symm.trans hown'))

/-- The owner of a page that is not working on it finds it idle. -/
theorem role_idle (h : SlabInv c σ) (ht : σ.Mine t r) (hpc : (σ.pcs t).ownerOf r = none)
    {o : OwnerPc}
    (hrole : Role σ.pcs r o) : o = .idle ∧ ∀ u, (σ.pcs u).ownerOf r = none := by
  cases hrole with
  | free hfree => exact ⟨rfl, hfree⟩
  | busy v hv _ =>
    obtain rfl := h.mine_unique ht ((h.pcs v).mine hv)
    cases hpc.symm.trans hv

/-- A page nobody owns is idle. -/
theorem unowned_idle (h : SlabInv c σ) (hno : (σ.heap.pages r).ownerTid = noOwner) (u : Fin n) :
    (σ.pcs u).ownerOf r = none := by
  cases ho : (σ.pcs u).ownerOf r with
  | none => rfl
  | some o =>
    obtain ⟨-, y, hy, hown⟩ := (h.pcs u).mine ho
    have hlt := h.heap.ids.lt u y hy
    have hle := h.heap.ids.counter
    omega

end SlabInv

/-- The remote frees of page `r` when one thread, which is not at one, moves. -/
theorem remoteOf_upd (pcs : Fin n → SlabPc) (h : pc'.remoteOf r = (pcs t).remoteOf r) (u : Fin n) :
    (upd pcs t pc' u).remoteOf r = (pcs u).remoteOf r := by
  by_cases hu : u = t
  · rw [hu, upd_same]
    exact h
  · rw [upd_ne hu]

theorem owed_same (hpcs : σ'.pcs = upd σ.pcs t pc') (h : pc'.owes r = (σ.pcs t).owes r) :
    σ'.owed r = σ.owed r := by
  have := owed_upd (r := r) hpcs
  omega

/-- The page after a step of the fast path. -/
theorem PageAt.fast (h : PageAt σ r) (g : Geom r (σ.heap.pages r)) {bin : Nat} {pc : AllocPc}
    (hpc : σ.pcs t = .fast bin r pc) {cell : Cell} {next : Next AllocPc (Option Nat)}
    (he : allocStep spurious (σ.heap.cell r) pc = (cell, next))
    (hpcs : σ'.pcs = upd σ.pcs t (fastNext bin r pc next))
    (hheap : σ'.heap = σ.heap.setCell r cell) (hheld : σ'.held r = takenNext next ++ σ.held r)
    (hlog : σ'.log r = pc.event spurious (σ.heap.cell r) ++ σ.log r) : PageAt σ' r := by
  obtain ⟨hused, o, loc, walk, hrole, hcons⟩ := h
  have hown : (σ.pcs t).ownerOf r = some (.alloc pc) := by
    rw [hpc]
    exact if_pos rfl
  obtain ⟨rfl, hrest⟩ := hrole.eq hown
  obtain ⟨loc', walk', hc⟩ := hcons.own (g.plus _) (view_own_alloc σ r pc he)
  have hpage : σ'.heap.pages r = cell.page := by
    rw [hheap]
    exact upd_same ..
  have howed : σ'.owed r = σ.owed r := by
    refine owed_same hpcs ?_
    rw [hpc]
    cases next with
    | goto pc' => rfl
    | done o => cases o <;> rfl
  refine .of_view (v := { σ.view r (ownerNext next) with
      toCell := cell.plus (σ.owed r)
      live := takenNext next ++ σ.held r
      log := pc.event spurious (σ.heap.cell r) ++ σ.log r }) ?_ ?_ (by rw [hheap]; rfl) ?_ ?_ hheld
      hlog hc
  · rw [hpcs]
    cases next with
    | goto pc' => exact .step hrest (if_pos rfl)
    | done o => cases o <;> exact .done hrest rfl
  · rw [hpage, show cell = (allocStep spurious (σ.heap.cell r) pc).1 by rw [he]]
    exact allocStep_used hused pc
  · rw [hpage, howed]
    rfl
  · intro u
    rw [hpcs]
    refine remoteOf_upd _ ?_ u
    rw [hpc]
    cases next with
    | goto pc' => rfl
    | done o => cases o <;> rfl

/-- The slot that the owner has just bumped is zero. -/
theorem Conserved.bumped_clean {v : PageSys n} {p₀ : PageMeta} {loc walk : List Nat} {offset : Nat}
    (g : Geom r p₀) (h : Conserved r p₀ v loc walk) (hpc : BumpOk r v.toCell (.store x offset)) :
    IsSlot r p₀ x ∧ x ∉ v.live ∧ ∀ y, x ≤ y → y < x + p₀.slotSize → v.mem y = 0 := by
  obtain ⟨rfl, rfl, hlt⟩ := hpc
  obtain ⟨hx, -, -⟩ := h.next_virgin g hlt
  have hslot := h.lists.placed.mem hx
  have hb := isSlot_bounds g hslot
  refine ⟨hslot, ?_, fun y h₁ h₂ => h.lists.virgin y h₁ (by omega)⟩
  intro hl
  have hat : v.At r p₀ loc walk .live (r.start + v.page.bumpOffset) := Or.inl hl
  exact absurd (h.lists.placed.only hx hat) (by simp)

/-- **Step**: the fast path. The owner may start to bump only while nobody is about to bump the
page under the arena's lock. -/
theorem SlabInv.fast (h : SlabInv c σ) {bin : Nat} {pc : AllocPc} (hpc : σ.pcs t = .fast bin r pc)
    (horder : pc = .bumpTest → ∀ u, u ≠ t → (σ.pcs u).window ≠ some r) :
    SlabInv c (σ.fastStep t spurious bin r pc) := by
  obtain ⟨hbin, hmine, hidx, hzero⟩ := h.knows hpc
  have hact := hmine.1
  have g := h.heap.geom hact
  have hat := h.pages r hact
  obtain ⟨hused, o, loc, walk, hrole, hcons⟩ := hat
  have hown : (σ.pcs t).ownerOf r = some (.alloc pc) := by
    rw [hpc]
    exact if_pos rfl
  obtain ⟨rfl, hrest⟩ := hrole.eq hown
  rcases he : allocStep spurious (σ.heap.cell r) pc with ⟨cell, next⟩
  have hcell : cell = (allocStep spurious (σ.heap.cell r) pc).1 := by rw [he]
  have hnext : (allocStep spurious (σ.heap.cell r) pc).2 = next := by rw [he]
  have hflat : cell.page.flat = (σ.heap.pages r).flat := by
    rw [hcell]
    exact allocStep_flat spurious (σ.heap.cell r) pc
  have htaking : ∀ y, (OwnerPc.alloc pc).taking = some y → IsSlot r (σ.heap.pages r) y ∧
      y ∉ σ.held r := by
    intro y hy
    have hlive : (σ.view r (.alloc pc)).At r (σ.view r (.alloc pc)).page loc walk .live y :=
      Or.inr hy
    exact ⟨hcons.lists.placed.mem hlive, hcons.lists.taking_new y hy⟩
  rw [fastStep_eq σ t bin r pc he]
  generalize hσ : ({ σ with
      heap := σ.heap.setCell r cell
      pcs := upd σ.pcs t (fastNext bin r pc next)
      held := upd σ.held r (takenNext next ++ σ.held r)
      log := upd σ.log r (pc.event spurious (σ.heap.cell r) ++ σ.log r) } : SlabSys n) = σ'
  have hpcs : σ'.pcs = upd σ.pcs t (fastNext bin r pc next) := by rw [← hσ]
  have hheap : σ'.heap = σ.heap.setCell r cell := by rw [← hσ]
  have hheld : σ'.held = upd σ.held r (takenNext next ++ σ.held r) := by rw [← hσ]
  have hheldr : σ'.held r = takenNext next ++ σ.held r := by
    rw [hheld]
    exact upd_same ..
  have hpage : σ'.heap.pages r = cell.page := by
    rw [hheap]
    exact upd_same ..
  have hfields := HeapOk.flat_fields hflat
  have hmine' : σ'.Mine t r := hmine.setCell hflat hheap
  have hclean : ∀ y, σ.Clean r y → cell.mem = σ.heap.mem → σ'.Clean r y := by
    intro y hy hm z h₁ h₂
    rw [hpage, hfields.2.2.2.1] at h₂
    rw [hheap]
    exact (congrFun hm z).trans (hy z h₁ h₂)
  refine h.onPage hact cell hflat hpcs hheap (by rw [← hσ]) (by rw [← hσ]) ?_ ?_ ?_ ?_ ?_ ?_ ?_ ?_
    ?_ ?_ ?_ ?_
  · rw [hpc]
    cases next with
    | goto pc' => rfl
    | done o => cases o <;> rfl
  · intro q hq
    rw [hheld]
    exact upd_ne hq
  · intro q hq
    rw [← hσ]
    exact upd_ne hq
  · intro q hq
    rw [hpc]
    cases next with
    | goto pc' => exact ⟨(if_neg (Ne.symm hq)).trans (if_neg (Ne.symm hq)).symm, rfl, rfl⟩
    | done o => cases o <;> exact ⟨(if_neg (Ne.symm hq)).symm, rfl, rfl⟩
  · exact (h.pages r hact).fast g hpc he hpcs hheap hheldr (by rw [← hσ]; exact upd_same ..)
  · intro a ha
    have htouch := hcons.alloc_touches (g.plus _) spurious rfl
    have hmem : (allocStep spurious (σ.view r (.alloc pc)).toCell pc).1.mem = cell.mem := by
      rw [hcell]
      exact congrArg (fun z => z.1.mem) (allocStep_plus spurious (σ.heap.cell r) (σ.owed r) pc)
    rw [hmem] at htouch
    obtain ⟨y, hslot, hlive, -, h₁, h₂⟩ := htouch a ha
    refine ⟨y, hslot, hlive, fun u hu => ?_, h₁, h₂⟩
    rw [hrest u hu]
    simp
  · intro y hy _
    rw [hheldr]
    exact List.mem_append_right _ hy
  · intro u hu hw
    rw [hcell]
    refine allocStep_bumpOffset fun slot offset hstore => ?_
    refine h.apart u t r hu hw ?_
    rw [hpc, hstore]
    rfl
  · -- what the call knows next
    cases next with
    | goto pc' =>
      refine ⟨hbin, hmine', by rw [hpage, hfields.2.2.1]; exact hidx, fun y hy => ?_⟩
      subst hy
      rcases allocStep_goto_bump hnext with ⟨-, hp⟩ | ⟨pb, rfl, hp⟩
      · cases hp
      · obtain ⟨offset, rfl⟩ := bumpStep_goto_used hp
        obtain ⟨hslot, -, hz⟩ := hcons.bumped_clean (g.plus _) hcons.owner.2
        refine ⟨?_, hclean y hz (by rw [hcell]; rfl)⟩
        rw [hpage]
        exact (isSlot_congr hfields.2.2.2.1 hfields.2.2.2.2.2.2).mpr hslot
    | done o =>
      cases o with
      | none =>
        obtain ⟨-, y, hy, -⟩ := hmine'
        exact ⟨hbin, by rw [hy]; rfl⟩
      | some y =>
        obtain ⟨htake, hz⟩ := allocStep_done hnext
        obtain ⟨hslot, -⟩ := htaking y htake
        refine ⟨hmine', isSlot_ne_zero g hslot, ⟨hmine'.1, ?_⟩, fun hzero' => ?_⟩
        · rw [hheldr]
          exact List.mem_cons_self ..
        · obtain rfl := hz hzero'
          exact hclean y (hzero y rfl).2 (by rw [hcell]; rfl)
  · intro u q _ hw
    cases next with
    | goto pc' => exact absurd hw (by simp [fastNext, SlabPc.window])
    | done o => cases o <;> exact absurd hw (by simp [fastNext, SlabPc.window])
  · intro u q hu hb hw
    cases next with
    | goto pc' =>
      obtain ⟨rfl, hfrom⟩ := allocStep_bumps hnext hb
      rcases hfrom with hfrom | hfrom
      · exact horder hfrom u hu hw
      · exact h.apart u t q hu hw (by rw [hpc]; exact hfrom)
    | done o => cases o <;> exact absurd hb (by simp [fastNext, SlabPc.bumps])
  · cases next with
    | goto pc' => exact h.hands_upd hpcs (by rw [hpc]; rfl)
    | done o =>
      cases o with
      | none => exact h.hands_upd hpcs (by rw [hpc]; rfl)
      | some y =>
        obtain ⟨hslot, hfresh⟩ := htaking y (allocStep_done hnext).1
        refine h.hands.bring (i := t) (h.nowhere hact hslot hfresh) ?_ ?_
        · rw [hpcs, upd_same]
          rfl
        · intro u hu
          rw [hpcs, upd_ne hu]

/-- **Step**: the cached page is in use, so its owner starts the fast path on it. -/
theorem SlabInv.startFast (h : SlabInv c σ) {bin : Nat} (hpc : σ.pcs t = .look bin)
    (hmine : σ.Mine t r) (hidx : (σ.heap.pages r).binIdx = bin) :
    SlabInv c (σ.goto t (.fast bin r .test)) := by
  have hknow := h.knows hpc
  have hact := hmine.1
  have hidle : (σ.pcs t).ownerOf r = none := by rw [hpc]; rfl
  obtain ⟨hused, o, loc, walk, hrole, hcons⟩ := h.pages r hact
  obtain ⟨rfl, hrest⟩ := h.role_idle hmine hidle hrole
  refine h.onPage hact (σ.heap.cell r) rfl rfl (State.setCell_self _ _).symm rfl rfl ?_
    (fun _ _ => rfl) (fun _ _ => rfl) ?_ ?_ (fun a ha => absurd rfl ha) (fun y hy _ => hy)
    (fun _ _ _ => rfl) ?_ ?_ ?_ ?_
  · rw [hpc]
    rfl
  · intro q hq
    rw [hpc]
    exact ⟨if_neg (Ne.symm hq), rfl, rfl⟩
  · refine .of_view (v := σ.view r (.alloc .test)) (.step (fun u _ => hrest u) (if_pos rfl)) hused
      rfl ?_ ?_
      rfl rfl (hcons.ownGoto rfl rfl rfl rfl rfl rfl rfl hcons.owner)
    · rw [owed_same (σ := σ) rfl (by rw [hpc]; rfl)]
      rfl
    · exact remoteOf_upd _ (by rw [hpc]; rfl)
  · exact ⟨hknow.1, hmine, hidx, fun y hy => absurd hy (by simp)⟩
  · exact σ.noWindow rfl
  · exact fun u q _ hb => absurd hb (by simp [SlabPc.bumps])
  · exact h.hands_upd rfl (by rw [hpc]; rfl)

/-! ## Local frees -/

/-- Where `slab_free` goes on, and where the owner is then. -/
def localNext (r : PageRef) : Next FreeLocalPc Unit → SlabPc
  | .goto pc' => .freeLocal r pc'
  | .done _ => .freeStat r

def ownerFreeNext : Next FreeLocalPc Unit → OwnerPc
  | .goto pc' => .free pc'
  | .done _ => .idle

theorem view_own_free (σ : SlabSys n) (r : PageRef) (spurious : Bool) (pc : FreeLocalPc)
    (hused : (σ.heap.pages r).used < 2 ^ 16) {cell : Cell} {next : Next FreeLocalPc Unit}
    (he : CustomMalloc.freeLocalStep (σ.heap.cell r) pc = (cell, next)) :
    (σ.view r (.free pc)).own spurious =
      some { σ.view r (ownerFreeNext next) with toCell := cell.plus (σ.owed r) } := by
  have hstep : CustomMalloc.freeLocalStep (σ.view r (.free pc)).toCell pc =
      (cell.plus (σ.owed r), next) := by
    have := freeLocalStep_plus (σ.heap.cell r) (σ.owed r) hused pc
    rwa [he] at this
  show (match (CustomMalloc.freeLocalStep (σ.view r (.free pc)).toCell pc).2 with
    | .goto pc' => some { σ.view r (.free pc') with
        toCell := (CustomMalloc.freeLocalStep (σ.view r (.free pc)).toCell pc).1 }
    | .done _ => some { σ.view r .idle with
        toCell := (CustomMalloc.freeLocalStep (σ.view r (.free pc)).toCell pc).1 }) = _
  rw [hstep]
  cases next <;> rfl

/-- **Step**: a local free. -/
theorem SlabInv.freeLocal (h : SlabInv c σ) {pc : FreeLocalPc} (hpc : σ.pcs t = .freeLocal r pc) :
    SlabInv c (σ.freeLocalStep t r pc) := by
  have hmine : σ.Mine t r := h.knows hpc
  have hact := hmine.1
  have g := h.heap.geom hact
  obtain ⟨hused, o, loc, walk, hrole, hcons⟩ := h.pages r hact
  have hown : (σ.pcs t).ownerOf r = some (.free pc) := by
    rw [hpc]
    exact if_pos rfl
  obtain ⟨rfl, hrest⟩ := hrole.eq hown
  rcases he : CustomMalloc.freeLocalStep (σ.heap.cell r) pc with ⟨cell, next⟩
  have hcell : cell = (CustomMalloc.freeLocalStep (σ.heap.cell r) pc).1 := by rw [he]
  have hflat : cell.page.flat = (σ.heap.pages r).flat := by
    rw [hcell]
    exact freeLocalStep_flat (σ.heap.cell r) pc
  have hstep : σ.freeLocalStep t r pc = (σ.onHeap (σ.heap.setCell r cell)).goto t
      (localNext r next) := by
    unfold SlabSys.freeLocalStep
    rw [he]
    cases next <;> rfl
  rw [hstep]
  generalize hσ : (σ.onHeap (σ.heap.setCell r cell)).goto t (localNext r next) = σ'
  have hpcs : σ'.pcs = upd σ.pcs t (localNext r next) := by rw [← hσ]; rfl
  have hheap : σ'.heap = σ.heap.setCell r cell := by rw [← hσ]; rfl
  have hheld : σ'.held = σ.held := by rw [← hσ]; rfl
  have hlog : σ'.log = σ.log := by rw [← hσ]; rfl
  have hpage : σ'.heap.pages r = cell.page := by
    rw [hheap]
    exact upd_same ..
  refine h.onPage hact cell hflat hpcs hheap (by rw [← hσ]; rfl) (by rw [← hσ]; rfl) ?_
    (fun q _ => by rw [hheld]) (fun q _ => by rw [hlog]) ?_ ?_ ?_
    (fun y hy _ => by rw [hheld]; exact hy)
    ?_ ?_ ?_ ?_ ?_
  · rw [hpc]
    cases next <;> rfl
  · intro q hq
    rw [hpc]
    cases next with
    | goto pc' => exact ⟨(if_neg (Ne.symm hq)).trans (if_neg (Ne.symm hq)).symm, rfl, rfl⟩
    | done o => exact ⟨(if_neg (Ne.symm hq)).symm, rfl, rfl⟩
  · obtain ⟨loc', walk', hc⟩ := hcons.own (g.plus _) (view_own_free σ r false pc hused he)
    refine .of_view (v :=
      { σ.view r (ownerFreeNext next) with toCell := cell.plus (σ.owed r) }) ?_ ?_
      (by rw [hheap]; rfl) ?_ ?_ (by rw [hheld]; rfl) (by rw [hlog]; rfl) hc
    · rw [hpcs]
      cases next with
      | goto pc' => exact .step hrest (if_pos rfl)
      | done o => exact .done hrest rfl
    · rw [hpage, hcell]
      exact freeLocalStep_used hused pc
    · rw [hpage, owed_same hpcs (by rw [hpc]; cases next <;> rfl)]
      rfl
    · intro u
      rw [hpcs]
      exact remoteOf_upd _ (by rw [hpc]; cases next <;> rfl) u
  · intro a ha
    have htouch := hcons.freeLocal_touches (g.plus _) rfl
    have hmem : (CustomMalloc.freeLocalStep (σ.view r (.free pc)).toCell pc).1.mem = cell.mem := by
      rw [hcell]
      exact congrArg (fun z => z.1.mem) (freeLocalStep_plus (σ.heap.cell r) (σ.owed r) hused pc)
    rw [hmem] at htouch
    obtain ⟨y, hslot, hlive, -, h₁, h₂⟩ := htouch a ha
    refine ⟨y, hslot, hlive, fun u hu => ?_, h₁, h₂⟩
    rw [hrest u hu]
    simp
  · intro u _ _
    rw [hcell]
    exact freeLocalStep_bumpOffset (σ.heap.cell r) pc
  · cases next <;> exact hmine.setCell hflat hheap
  · intro u q _ hw
    cases next <;> exact absurd hw (by simp [localNext, SlabPc.window])
  · intro u q _ hb
    cases next <;> exact absurd hb (by simp [localNext, SlabPc.bumps])
  · exact h.hands_upd hpcs (by rw [hpc]; cases next <;> rfl)

/-- The hands after a thread has let go of what it carried. -/
theorem SlabInv.hands_drop (h : SlabInv c σ) {pcs' : Fin n → SlabPc} (hpcs : pcs' = upd σ.pcs t pc')
    (hcarry : pc'.carries = none) : OneHolder σ.live fun u => (pcs' u).carries := by
  refine h.hands.drop (i := t) ?_ fun u hu => ?_
  · rw [hpcs, upd_same]
    exact hcarry
  · rw [hpcs, upd_ne hu]

/-- **Step**: `slab_free` found the page to be its own and starts a local free. -/
theorem SlabInv.startFree (h : SlabInv c σ) (hpc : σ.pcs t = .freeOwner x r) (hmine : σ.Mine t r) :
    SlabInv c ((σ.gives r x).goto t (.freeLocal r (.load x))) := by
  have hout : σ.Out r x := by
    have hknow := h.knows hpc
    exact hknow.1
  have hact := hmine.1
  have hidle : (σ.pcs t).ownerOf r = none := by rw [hpc]; rfl
  obtain ⟨hused, o, loc, walk, hrole, hcons⟩ := h.pages r hact
  obtain ⟨rfl, hrest⟩ := h.role_idle hmine hidle hrole
  refine h.onPage hact (σ.heap.cell r) rfl rfl (State.setCell_self _ _).symm rfl rfl ?_
    (fun q hq => upd_ne hq) (fun _ _ => rfl) ?_ ?_ (fun a ha => absurd rfl ha) ?_
    (fun _ _ _ => rfl) hmine ?_ ?_ ?_
  · rw [hpc]
    rfl
  · intro q hq
    rw [hpc]
    exact ⟨if_neg (Ne.symm hq), rfl, rfl⟩
  · refine .of_view (v := { σ.view r (.free (.load x)) with live := (σ.held r).erase x })
      (.step (fun u _ => hrest u) (if_pos rfl)) hused rfl ?_ ?_ (upd_same ..) rfl
      (hcons.startFree rfl hout.2)
    · rw [owed_same (σ := σ) rfl (by rw [hpc]; rfl)]
      rfl
    · exact remoteOf_upd σ.pcs (by rw [hpc]; rfl)
  · intro y hy hne
    show y ∈ upd σ.held r _ r
    rw [upd_same]
    refine (List.mem_erase_of_ne ?_).mpr hy
    rintro rfl
    exact hne (by rw [hpc]; rfl)
  · exact σ.noWindow rfl
  · exact fun u q _ hb => absurd hb (by simp [SlabPc.bumps])
  · exact h.hands_drop rfl rfl

/-! ## Remote frees -/

def remoteNext (r : PageRef) : Next FreeRemotePc Unit → SlabPc
  | .goto pc' => .freeRemote r pc'
  | .done _ => .freeCredit r

/-- What the page sees of thread `t` then. -/
def threadNext : Next FreeRemotePc Unit → Option FreeRemotePc
  | .goto pc' => some pc'
  | .done _ => none

theorem view_thread (σ : SlabSys n) (r : PageRef) (o : OwnerPc) (pc : FreeRemotePc)
    (hpc : σ.pcs t = .freeRemote r pc) (hused : (σ.heap.pages r).used < 2 ^ 16) {cell : Cell}
    {next : Next FreeRemotePc Unit}
    (he : CustomMalloc.freeRemoteStep spurious (σ.heap.cell r) pc = (cell, next)) :
    (σ.view r o).thread t spurious = some { σ.view r o with
      toCell := cell.plus (σ.owed r)
      threads := upd (σ.view r o).threads t (threadNext next)
      log := pc.event next ++ σ.log r } := by
  have hstep : CustomMalloc.freeRemoteStep spurious (σ.view r o).toCell pc =
      (cell.plus (σ.owed r), next) := by
    have := freeRemoteStep_plus spurious (σ.heap.cell r) (σ.owed r) hused pc
    rwa [he] at this
  have hthread : (σ.view r o).threads t = some pc := by
    show (σ.pcs t).remoteOf r = some pc
    rw [hpc]
    exact if_pos rfl
  unfold PageSys.thread
  rw [hthread]
  simp only [hstep]
  cases next with
  | goto pc' => rfl
  | done b =>
    have hnone : pc.event (.done b) = [] := by cases pc <;> rfl
    rw [hnone]
    rfl

/-- What the threads do to page `r` when thread `t` moves. -/
theorem remoteOf_view {o : OwnerPc} (hpcs : σ'.pcs = upd σ.pcs t pc') {p : Option FreeRemotePc}
    (h : pc'.remoteOf r = p) (u : Fin n) :
    (σ'.pcs u).remoteOf r = upd (σ.view r o).threads t p u := by
  rw [hpcs]
  by_cases hu : u = t
  · rw [hu, upd_same, upd_same]
    exact h
  · rw [upd_ne hu, upd_ne hu]
    rfl

/-- **Step**: a remote free. -/
theorem SlabInv.freeRemote (h : SlabInv c σ) {pc : FreeRemotePc}
    (hpc : σ.pcs t = .freeRemote r pc) :
    SlabInv c (σ.freeRemoteStep t spurious r pc) := by
  obtain ⟨hact, hlow⟩ := h.knows hpc
  have g := h.heap.geom hact
  obtain ⟨hused, o, loc, walk, hrole, hcons⟩ := h.pages r hact
  rcases he : CustomMalloc.freeRemoteStep spurious (σ.heap.cell r) pc with ⟨cell, next⟩
  have hcell : cell = (CustomMalloc.freeRemoteStep spurious (σ.heap.cell r) pc).1 := by rw [he]
  have hflat : cell.page.flat = (σ.heap.pages r).flat := by
    rw [hcell]
    exact freeRemoteStep_flat spurious (σ.heap.cell r) pc
  have hstep : σ.freeRemoteStep t spurious r pc =
      ((σ.onHeap (σ.heap.setCell r cell)).logs r (pc.event next)).goto t (remoteNext r next) := by
    unfold SlabSys.freeRemoteStep
    rw [he]
    cases next <;> rfl
  rw [hstep]
  generalize hσ : ((σ.onHeap (σ.heap.setCell r cell)).logs r (pc.event next)).goto t
    (remoteNext r next) = σ'
  have hpcs : σ'.pcs = upd σ.pcs t (remoteNext r next) := by rw [← hσ]; rfl
  have hheap : σ'.heap = σ.heap.setCell r cell := by rw [← hσ]; rfl
  have hheld : σ'.held = σ.held := by rw [← hσ]; rfl
  have hlog : σ'.log = upd σ.log r (pc.event next ++ σ.log r) := by rw [← hσ]; rfl
  have hpage : σ'.heap.pages r = cell.page := by
    rw [hheap]
    exact upd_same ..
  have howner : ∀ q, (remoteNext r next).ownerOf q = none := fun q => by cases next <;> rfl
  refine h.onPage hact cell hflat hpcs hheap (by rw [← hσ]; rfl) (by rw [← hσ]; rfl) ?_
    (fun q _ => by rw [hheld]) (fun q hq => by rw [hlog]; exact upd_ne hq) ?_ ?_ ?_
    (fun y hy _ => by rw [hheld]; exact hy) ?_ ?_ ?_ ?_ ?_
  · rw [hpc]
    cases next <;> rfl
  · intro q hq
    rw [hpc]
    cases next with
    | goto pc' => exact ⟨rfl, (if_neg (Ne.symm hq)).trans (if_neg (Ne.symm hq)).symm, rfl⟩
    | done b => exact ⟨rfl, (if_neg (Ne.symm hq)).symm, rfl⟩
  · have hc := hcons.thread (g.plus _) hlow (view_thread σ r o pc hpc hused he)
    refine .of_view (v := { σ.view r o with
      toCell := cell.plus (σ.owed r)
      threads := upd (σ.view r o).threads t (threadNext next)
      log := pc.event next ++ σ.log r }) ?_ ?_ (by rw [hheap]; rfl) ?_ ?_ (by rw [hheld]; rfl)
      (by rw [hlog]; exact upd_same ..) hc
    · refine hrole.congr fun u => ?_
      rw [hpcs]
      by_cases hu : u = t
      · rw [hu, upd_same, hpc]
        exact howner r
      · rw [upd_ne hu]
    · rw [hpage, hcell]
      exact freeRemoteStep_used hused pc
    · rw [hpage, owed_same hpcs (by rw [hpc]; cases next <;> rfl)]
      rfl
    · refine remoteOf_view hpcs ?_
      cases next with
      | goto pc' => exact if_pos rfl
      | done b => rfl
  · intro a ha
    have hthread : (σ.view r o).threads t = some pc := by
      show (σ.pcs t).remoteOf r = some pc
      rw [hpc]
      exact if_pos rfl
    have htouch := hcons.freeRemote_touches (g.plus _) spurious hthread
    have hmem : (CustomMalloc.freeRemoteStep spurious (σ.view r o).toCell pc).1.mem = cell.mem := by
      rw [hcell]
      exact congrArg (fun z => z.1.mem)
        (freeRemoteStep_plus spurious (σ.heap.cell r) (σ.owed r) hused pc)
    rw [hmem] at htouch
    obtain ⟨y, hslot, hlive, htaking, h₁, h₂⟩ := htouch a ha
    refine ⟨y, hslot, hlive, fun u _ hown => ?_, h₁, h₂⟩
    obtain ⟨rfl, -⟩ := hrole.eq hown
    exact htaking rfl
  · intro u _ _
    rw [hcell]
    exact freeRemoteStep_bumpOffset (σ.heap.cell r) pc
  · have hact' : Active σ'.heap r := by
      rw [hheap]
      exact (HeapOk.setCell_active hflat r).mpr hact
    cases next with
    | goto pc' => exact ⟨hact', hlow⟩
    | done b => exact hact'
  · intro u q _ hw
    cases next <;> exact absurd hw (by simp [remoteNext, SlabPc.window])
  · intro u q _ hb
    cases next <;> exact absurd hb (by simp [remoteNext, SlabPc.bumps])
  · exact h.hands_upd hpcs (by rw [hpc]; cases next <;> rfl)

/-- **Step**: `slab_free` starts a remote free. -/
theorem SlabInv.startPush (h : SlabInv c σ) (hcarry : (σ.pcs t).carries = some x)
    (hplain : (σ.pcs t).plain) (hlock : (σ.pcs t).locking = none) (hout : σ.Out r x)
    (hlow : r.start + 65536 ≤ 2 ^ 48) :
    SlabInv c ((σ.gives r x).goto t (.freeRemote r (.load x))) := by
  have hact := hout.1
  have hidle := SlabPc.plain_at hplain
  obtain ⟨hused, o, loc, walk, hrole, hcons⟩ := h.pages r hact
  refine h.onPage hact (σ.heap.cell r) rfl rfl (State.setCell_self _ _).symm rfl rfl
    hlock.symm (fun q hq => upd_ne hq) (fun _ _ => rfl) ?_ ?_ (fun a ha => absurd rfl ha) ?_
    (fun _ _ _ => rfl) ⟨hact, hlow⟩ ?_ ?_ ?_
  · intro q hq
    exact ⟨(hidle q).1.symm, (if_neg (Ne.symm hq)).trans (hidle q).2.1.symm, (hidle q).2.2.symm⟩
  · refine .of_view (v := { σ.view r o with
        threads := upd (σ.view r o).threads t (some (.load x))
        live := (σ.held r).erase x }) ?_ hused rfl ?_ ?_ (upd_same ..) rfl
      (hcons.startPush (hidle r).2.1 hout.2)
    · refine hrole.congr fun u => ?_
      by_cases hu : u = t
      · show (upd σ.pcs t _ u).ownerOf r = _
        rw [hu, upd_same, (hidle r).1]
        rfl
      · show (upd σ.pcs t _ u).ownerOf r = _
        rw [upd_ne hu]
    · have howes : (SlabPc.freeRemote r (.load x)).owes r = (σ.pcs t).owes r := (hidle r).2.2.symm
      rw [owed_same (σ := σ) rfl howes]
      rfl
    · exact remoteOf_view rfl (show (SlabPc.freeRemote r (.load x)).remoteOf r = _ from if_pos rfl)
  · intro y hy hne
    show y ∈ upd σ.held r _ r
    rw [upd_same]
    refine (List.mem_erase_of_ne ?_).mpr hy
    rintro rfl
    exact hne hcarry
  · exact σ.noWindow rfl
  · exact fun u q _ hb => absurd hb (by simp [SlabPc.bumps])
  · exact h.hands_drop rfl rfl

end CustomMalloc

import CustomMalloc.Inv.Paths
import CustomMalloc.Inv.SlabFrame
import CustomMalloc.ThreadRun

/-!
# The pages of threads that exit

A thread owns the pages it claimed, and only the owner allocates from them; everybody
else can at most push remote frees. `tld_cleanup` flushes the statistics and unmaps the
`tld_t`, but leaves `owner_tid` of the thread's pages as it is. So every active page
with an owner is owned by a thread that is still there as long as threads exit only
while they own nothing, and not otherwise.
-/

namespace CustomMalloc

open Lib.Words Lib.Bytes Lib.Chain Lib.Intervals Lib.Post

variable {c : Cfg} {s s' : State} {t : Nat}

/-! ## Owners across a call -/

/-- No thread goes away, and an active page has no owner, the owner it had, or thread
`t`. -/
structure OwnersFrom (t : Nat) (s s' : State) : Prop where
  stays : ∀ t' x, s.tls t' = some x → ∃ y, s'.tls t' = some y ∧ y.threadId = x.threadId
  owner : ∀ r, (s'.pages r).state = .active →
    (s'.pages r).ownerTid = noOwner ∨
    ((s.pages r).state = .active ∧ (s'.pages r).ownerTid = (s.pages r).ownerTid) ∨
    ∃ x, s'.tls t = some x ∧ (s'.pages r).ownerTid = x.threadId

/-- The same threads and the same pages. -/
theorem OwnersFrom.of_eq (htls : s'.tls = s.tls) (hpages : s'.pages = s.pages) :
    OwnersFrom t s s' := by
  constructor
  · intro t' x hx
    exact ⟨x, by rw [htls]; exact hx, rfl⟩
  · intro r hact
    rw [hpages] at hact ⊢
    exact Or.inr (Or.inl ⟨hact, rfl⟩)

theorem OwnersFrom.trans {s₁ s₂ s₃ : State} (h : OwnersFrom t s₁ s₂) (h' : OwnersFrom t s₂ s₃) :
    OwnersFrom t s₁ s₃ := by
  constructor
  · intro t' x hx
    obtain ⟨y, hy, hid⟩ := h.stays t' x hx
    obtain ⟨z, hz, hid'⟩ := h'.stays t' y hy
    exact ⟨z, hz, hid'.trans hid⟩
  · intro r hact
    rcases h'.owner r hact with hno | ⟨hact₂, heq⟩ | hmine
    · exact Or.inl hno
    · rcases h.owner r hact₂ with hno | ⟨hact₁, heq'⟩ | ⟨x, hx, heq'⟩
      · exact Or.inl (heq.trans hno)
      · exact Or.inr (Or.inl ⟨hact₁, heq.trans heq'⟩)
      · obtain ⟨y, hy, hid⟩ := h'.stays t x hx
        exact Or.inr (Or.inr ⟨y, hy, (heq.trans heq').trans hid.symm⟩)
    · exact Or.inr (Or.inr hmine)

/-- A page that is rewritten is inactive, has no owner or the one it had, or is claimed
by `t`. -/
theorem OwnersFrom.setPage (s : State) (r : PageRef) (p : PageMeta)
    (hp : p.state = .active → p.ownerTid = noOwner ∨
      ((s.pages r).state = .active ∧ p.ownerTid = (s.pages r).ownerTid) ∨
      ∃ x, s.tls t = some x ∧ p.ownerTid = x.threadId) : OwnersFrom t s (s.setPage r p) := by
  constructor
  · exact fun t' x hx => ⟨x, hx, rfl⟩
  · intro q hact
    by_cases hqr : q = r
    · subst hqr
      simp only [State.setPage, upd_same] at hact ⊢
      exact hp hact
    · simp only [State.setPage, upd_ne hqr] at hact ⊢
      exact Or.inr (Or.inl ⟨hact, trivial⟩)

/-- Rewriting a thread's data keeps its id, or gives it one. -/
theorem OwnersFrom.setTls {tls : Nat → Option Tld} {n : Nat}
    (h : ∀ t' x, s.tls t' = some x → ∃ y, tls t' = some y ∧ y.threadId = x.threadId) :
    OwnersFrom t s { s with tls := tls, threadIdCounter := n } :=
  ⟨h, fun _ hact => Or.inr (Or.inl ⟨hact, rfl⟩)⟩

theorem ownersFrom_closed (t : Nat) : SlabClosed t (OwnersFrom t) where
  refl := fun _ => .of_eq rfl rfl
  trans := OwnersFrom.trans
  os := fun hos => .of_eq hos.sameThreads.tls hos.same.pages
  mem := fun _ _ => .of_eq rfl rfl
  arenaNext := fun _ _ => .of_eq rfl rfl
  setArena := fun _ _ _ => .of_eq rfl rfl
  segs := fun _ _ => .of_eq rfl rfl
  newTld := fun s a hn => .setTls fun t' x hx => by
    have htt : t' ≠ t := by
      rintro rfl
      cases hn.symm.trans hx
    exact ⟨x, by rw [upd_ne htt]; exact hx, rfl⟩
  setTld := fun s x y hx hid => .setTls (n := s.threadIdCounter) fun t' z hz => by
    by_cases htt : t' = t
    · subst htt
      cases hx.symm.trans hz
      exact ⟨y, upd_same .., hid⟩
    · exact ⟨z, by rw [upd_ne htt]; exact hz, rfl⟩
  setPage := fun s r p hs ho => .setPage s r p fun hact =>
    Or.inr (Or.inl ⟨hs.symm.trans hact, ho⟩)
  initPage := fun s r p _ ho => .setPage s r p fun _ => Or.inl ho
  claim := fun s r x hx _ => .setPage s r _ fun _ => Or.inr (Or.inr ⟨x, hx, rfl⟩)
  newSegment := fun s b a reg => by
    constructor
    · exact fun t' x hx => ⟨x, hx, rfl⟩
    · intro r hact
      by_cases hrb : r.seg = b
      · simp only [if_pos hrb, freshPage] at hact
        split at hact <;> cases hact
      · simp only [if_neg hrb] at hact ⊢
        exact Or.inr (Or.inl ⟨hact, trivial⟩)

/-- The large path touches neither threads nor pages, whatever the size. -/
theorem largeAlloc_pages {s s' : State} {n p : Nat} (he : largeAlloc c s n = .ok (p, s')) :
    s'.pages = s.pages ∧ s'.tls = s.tls := by
  obtain ⟨_, _, _, _, _, _, _, _, rfl⟩ := largeAlloc_form he
  exact ⟨rfl, rfl⟩

/-- Every call of thread `t`, for a relation that also survives the large path. -/
theorem slabExec_closed {R : State → State → Prop} (h : SlabClosed t R)
    (hlarge : ∀ s n p s', largeAlloc c s n = .ok (p, s') → R s s') (s : State) (op : SlabOp) :
    Ensures (fun _ => True) (slabExec c s t op) fun (_, s') => R s s' := by
  cases op with
  | free ptr => exact ensures_bind (slabFree_closed h.toFreeClosed s ptr) fun _ h => h
  | alloc size =>
    have hpos := atLeastOne_pos size
    have heq : slabAlloc c s t size = slabAlloc c s t (atLeastOne size) := by
      unfold slabAlloc slabAllocInner
      rw [if_neg (Nat.ne_of_gt hpos)]
      rfl
    show Ensures _ (slabAlloc c s t size) _
    rw [heq]
    by_cases hslab : SlabSized (atLeastOne size)
    · exact ensures_bind (slabAllocInner_closed h s hpos hslab) fun _ h => h
    · rw [slabAlloc_rerouted c s t hpos hslab]
      rcases he : largeAlloc c s _ with e | ⟨p, s'⟩
      · trivial
      · exact hlarge s _ p s' he

theorem slabCall_ownersFrom {σ σ' : Sys} {op : SlabOp} {ans : List (Option Nat)} {q : Nat}
    (he : σ.slabCall c t op ans = .ok (q, σ')) :
    OwnersFrom t σ.heap σ'.heap ∧ OthersKept t σ.heap σ'.heap := by
  have hexec := (Sys.slabCall_ok he).1
  have hfrom := ensures_elim (Q := fun x => OwnersFrom t (σ.heap.withAnswers ans) x.2)
    (slabExec_closed (ownersFrom_closed t)
      (fun _ _ _ _ hl => .of_eq (largeAlloc_pages hl).2 (largeAlloc_pages hl).1) _ op) hexec
  have hothers := ensures_elim (Q := fun x => OthersKept t (σ.heap.withAnswers ans) x.2)
    (slabExec_closed (othersKept_closed t)
      (fun _ _ _ _ hl t' _ => by rw [(largeAlloc_pages hl).2]) _ op) hexec
  exact ⟨⟨hfrom.stays, hfrom.owner⟩, hothers⟩

/-! ## Exits -/

/-- Every active page with an owner is owned by a thread that has not exited. -/
def OwnersAlive (s : State) : Prop :=
  ∀ r, (s.pages r).state = .active → (s.pages r).ownerTid ≠ noOwner →
    ∃ t x, s.tls t = some x ∧ x.threadId = (s.pages r).ownerTid

/-- Thread `t` owns no active page. -/
def OwnsNothing (s : State) (t : Nat) : Prop :=
  ∀ x, s.tls t = some x → ∀ r, (s.pages r).state = .active → (s.pages r).ownerTid ≠ noOwner →
    (s.pages r).ownerTid ≠ x.threadId

theorem OwnersFrom.ownersAlive (h : OwnersFrom t s s') (ha : OwnersAlive s) : OwnersAlive s' := by
  intro r hact hown
  rcases h.owner r hact with hno | ⟨hact', heq⟩ | ⟨x, hx, heq⟩
  · exact absurd hno hown
  · obtain ⟨t', x, hx, hid⟩ := ha r hact' (heq ▸ hown)
    obtain ⟨y, hy, hid'⟩ := h.stays t' x hx
    exact ⟨t', y, hy, (hid'.trans hid).trans heq.symm⟩
  · exact ⟨t, x, hx, heq.symm⟩

theorem OwnersAlive.exit (h : OwnersAlive s) (hno : OwnsNothing s t) :
    OwnersAlive (tldCleanup c s t) := by
  obtain ⟨⟨-, hpages, -, -⟩, htls, -⟩ := tldCleanup_frame c s t
  intro r hact hown
  rw [hpages] at hact hown ⊢
  obtain ⟨t', x, hx, hid⟩ := h r hact hown
  have htt : t' ≠ t := by
    rintro rfl
    exact hno x hx r hact hown hid.symm
  exact ⟨t', x, by rw [htls, upd_ne htt]; exact hx, hid⟩

/-- While thread ids are distinct, an exit keeps the owners alive exactly if the thread
owned nothing. -/
theorem OwnersAlive.exit_iff (h : OwnersAlive s)
    (hids : ∀ t₁ t₂ x₁ x₂, s.tls t₁ = some x₁ → s.tls t₂ = some x₂ →
      x₁.threadId = x₂.threadId → t₁ = t₂) :
    OwnersAlive (tldCleanup c s t) ↔ OwnsNothing s t := by
  refine ⟨fun ha x hx r hact hown heq => ?_, fun hno => h.exit hno⟩
  obtain ⟨⟨-, hpages, -, -⟩, htls, -⟩ := tldCleanup_frame c s t
  obtain ⟨t', y, hy, hid⟩ := ha r (by rw [hpages]; exact hact) (by rw [hpages]; exact hown)
  rw [hpages, heq] at hid
  rw [htls] at hy
  by_cases htt : t' = t
  · rw [htt, upd_same] at hy
    cases hy
  · rw [upd_ne htt] at hy
    exact htt (hids t' t y x hy hx hid)

/-- The steps of the runs in which threads exit only while they own nothing. -/
def ExitsEmpty (t : Nat) (σ : Sys) : ThreadOp → Prop
  | .call _ => True
  | .exit => OwnsNothing σ.heap t

theorem owners_alive (c : Cfg) (σ : Sys) (h : ThreadReachable c ExitsEmpty σ) :
    OwnersAlive σ.heap := by
  induction h with
  | refl =>
    intro r hact
    exact absurd hact (by simp [Sys.initial, State.initial])
  | tail _ hs ih =>
    cases hs with
    | call t op ans q _ _ _ he => exact (slabCall_ownersFrom he).1.ownersAlive ih
    | write m _ => exact ih
    | exit t hP => exact ih.exit hP

/-- Every page keeps its state and its owner. -/
def OwnersKept (s s' : State) : Prop :=
  ∀ r, (s'.pages r).state = (s.pages r).state ∧ (s'.pages r).ownerTid = (s.pages r).ownerTid

theorem ownersKept_closed (t : Nat) : FreeClosed t OwnersKept where
  refl := fun _ _ => ⟨rfl, rfl⟩
  trans := fun h h' r => ⟨(h' r).1.trans (h r).1, (h' r).2.trans (h r).2⟩
  os := fun hos r => by
    rw [hos.same.pages]
    exact ⟨rfl, rfl⟩
  mem := fun _ _ _ => ⟨rfl, rfl⟩
  setArena := fun _ _ _ _ => ⟨rfl, rfl⟩
  newTld := fun _ _ _ _ => ⟨rfl, rfl⟩
  setTld := fun _ _ _ _ _ _ => ⟨rfl, rfl⟩
  setPage := fun s r p hs ho q => by
    by_cases hqr : q = r
    · subst hqr
      simp only [State.setPage, upd_same]
      exact ⟨hs, ho⟩
    · simp only [State.setPage, upd_ne hqr]
      exact ⟨trivial, trivial⟩

theorem slabAfter_ownersFrom (c : Cfg) (σ : Sys) (t : Nat) (op : SlabOp) (ans : List (Option Nat)) :
    OwnersFrom t σ.heap (σ.slabAfter c t op ans).heap ∧
      OthersKept t σ.heap (σ.slabAfter c t op ans).heap := by
  unfold Sys.slabAfter
  split
  next q σ' he => exact slabCall_ownersFrom he
  next => exact ⟨.of_eq rfl rfl, fun _ _ => rfl⟩

theorem slabAfter_ownersKept (c : Cfg) (σ : Sys) (t p : Nat) (ans : List (Option Nat)) :
    OwnersKept σ.heap (σ.slabAfter c t (.free p) ans).heap := by
  unfold Sys.slabAfter
  split
  next q σ' he =>
    have hfree : Ensures (fun _ => True) (slabExec c (σ.heap.withAnswers ans) t (.free p))
        fun x => OwnersKept σ.heap x.2 :=
      ensures_bind (slabFree_closed (ownersKept_closed t) _ p) fun _ h => h
    exact ensures_elim (Q := fun x => OwnersKept σ.heap x.2) hfree (Sys.slabCall_ok he).1
  next => exact fun _ => ⟨rfl, rfl⟩

/-- A thread that only freed owns nothing, if all pages are another thread's. -/
theorem OwnersFrom.ownsNothing {s₀ s₁ s₂ : State} {t' i i' : Nat} (h : OwnersFrom t s₀ s₁)
    (hk : OwnersKept s₁ s₂) (h₀ : ∀ r, (s₀.pages r).state ≠ .active)
    (hi : (s₁.tls t).map Tld.threadId = some i) (hi' : (s₂.tls t').map Tld.threadId = some i')
    (hne : i' ≠ i) : OwnsNothing s₂ t' := by
  intro x hx r hact hown heq
  obtain ⟨hs, ho⟩ := hk r
  rcases h.owner r (hs.symm.trans hact) with hno | ⟨hinit, -⟩ | ⟨y, hy, howner⟩
  · exact hown (ho.trans hno)
  · exact h₀ r hinit
  · rw [hx, Option.map_some, Option.some.injEq] at hi'
    rw [hy, Option.map_some, Option.some.injEq] at hi
    exact hne (hi'.symm.trans ((heq.symm.trans (ho.trans howner)).trans hi))

/-- Thread 1 has one block. -/
def oneBlock : Sys :=
  (Sys.initial (.page4k false)).slabAfter (.page4k false) 1 (.alloc 16)
    [some 0x10000000, some 0x20000000]

/-- Thread 0 frees it, which gives thread 0 its thread-local data. -/
def oneFreedRemote : Sys :=
  oneBlock.slabAfter (.page4k false) 0 (.free 0x20010000) [some 0x30000000]

theorem oneBlock_from :
    OwnersFrom 1 (Sys.initial (.page4k false)).heap oneBlock.heap ∧
      OthersKept 1 (Sys.initial (.page4k false)).heap oneBlock.heap := by
  unfold oneBlock
  exact slabAfter_ownersFrom ..

theorem oneBlock_reachable (P : Nat → Sys → ThreadOp → Prop) (hP : ∀ σ op, P 1 σ (.call op)) :
    ThreadReachable (.page4k false) P oneBlock := by
  unfold oneBlock
  exact ThreadReachable.after .refl 1 (.alloc 16) _ trivial (by decide) (hP _ _)

theorem oneFreedRemote_ownsNothing : OwnsNothing oneFreedRemote.heap 0 := by
  have hkept : OwnersKept oneBlock.heap oneFreedRemote.heap := by
    unfold oneFreedRemote
    exact slabAfter_ownersKept (.page4k false) oneBlock 0 0x20010000 _
  have hid₁ : (oneBlock.heap.tls 1).map Tld.threadId = some 0 := by decide +kernel
  have hid₂ : (oneFreedRemote.heap.tls 0).map Tld.threadId = some 1 := by decide +kernel
  exact oneBlock_from.1.ownsNothing hkept (fun _ => by simp [Sys.initial, State.initial])
    hid₁ hid₂ (by decide)

/-- Thread 0 exits: it never owned a page. -/
theorem owners_alive_visitor :
    ∃ σ, ThreadReachable (.page4k false) ExitsEmpty σ ∧ σ.heap.threadIdCounter = 2 ∧
      (σ.heap.tls 0).isNone ∧ (σ.heap.pages ⟨0x20000000, 1⟩).state = .active ∧
      (σ.heap.pages ⟨0x20000000, 1⟩).ownerTid = 0 ∧ OwnersAlive σ.heap := by
  have h : ThreadReachable (.page4k false) ExitsEmpty oneFreedRemote := by
    unfold oneFreedRemote
    refine (oneBlock_reachable _ fun _ _ => trivial).after 0 (.free 0x20010000) _ ?_
      (by decide +kernel) trivial
    intro r _ _ _
    decide
  have hexit := h.exit 0 oneFreedRemote_ownsNothing
  exact ⟨oneFreedRemote.exit (.page4k false) 0, hexit, by decide +kernel, by decide +kernel,
    by decide +kernel, by decide +kernel, owners_alive _ _ hexit⟩

/-- Nobody is left once the only thread has gone. -/
theorem Sys.exit_tls {σ σ' : Sys} (h : OthersKept t σ.heap σ'.heap) (h₀ : ∀ u, σ.heap.tls u = none)
    (u : Nat) : (σ'.exit c t).heap.tls u = none := by
  refine (congrFun (tldCleanup_frame c σ'.heap t).2.1 u).trans ?_
  by_cases hu : u = t
  · rw [hu, upd_same]
  · rw [upd_ne hu, h u hu]
    exact h₀ u

/-- Thread 1 exits: its page, with one slot taken and the rest virgin, keeps it as owner. -/
theorem owner_exits :
    ∃ σ, ThreadReachable (.page4k false) (fun _ _ _ => True) σ ∧ ¬ OwnersAlive σ.heap ∧
      (σ.heap.pages ⟨0x20000000, 1⟩).ownerTid = 0 ∧
      (σ.heap.pages ⟨0x20000000, 1⟩).bumpOffset = 16 := by
  have h := (oneBlock_reachable (fun _ _ _ => True) fun _ _ => trivial).exit 1 trivial
  have hact : ((oneBlock.exit (.page4k false) 1).heap.pages ⟨0x20000000, 1⟩).state = .active := by
    decide +kernel
  have hown : ((oneBlock.exit (.page4k false) 1).heap.pages ⟨0x20000000, 1⟩).ownerTid ≠
      noOwner := by
    decide +kernel
  refine ⟨oneBlock.exit (.page4k false) 1, h, ?_, by decide +kernel, by decide +kernel⟩
  intro ha
  obtain ⟨t, x, hx, -⟩ := ha ⟨0x20000000, 1⟩ hact hown
  cases (Sys.exit_tls oneBlock_from.2 (fun _ => rfl) t).symm.trans hx

end CustomMalloc

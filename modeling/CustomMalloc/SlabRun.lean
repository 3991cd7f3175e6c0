import CustomMalloc.Run
import CustomMalloc.Inv.Paths

/-!
# Runs of the slab allocator

The same as `Run`, one level down: whole calls of `slab_alloc` and `slab_free` by
any threads, and writes into the blocks. Here the clients' list is exact: a slot is
handed out when and only when some client holds it (`SlabHolds.exact`), as long as
`slab_free` finds every slot it is given.
-/

namespace CustomMalloc

open Lib.Words Lib.Bytes Lib.Chain Lib.Intervals Lib.Post

/-! ## Calls -/

/-- The calls of the slab allocator. -/
inductive SlabOp where
  | alloc (size : Nat)
  | free (ptr : Nat)
  deriving DecidableEq, Repr

/-- Run one call; `slab_free` has no result. -/
def slabExec (c : Cfg) (s : State) (t : Nat) : SlabOp → Except Halt (Nat × State)
  | .alloc size => slabAlloc c s t size
  | .free ptr => do
    let s ← slabFree c s t ptr
    return (0, s)

/-- What the clients hold after a call with result `q`. -/
def slabLive (live : List (Nat × Nat)) (q : Nat) : SlabOp → List (Nat × Nat)
  | .alloc size => addPtr q size live
  | .free ptr => dropPtr ptr live

/-- One call by thread `t`, with the kernel's answers. -/
def Sys.slabCall (c : Cfg) (σ : Sys) (t : Nat) (op : SlabOp) (ans : List (Option Nat)) :
    Except Halt (Nat × Sys) := do
  let (q, s) ← slabExec c (σ.heap.withAnswers ans) t op
  return (q, ⟨s, slabLive σ.live q op⟩)

theorem Sys.slabCall_ok {c : Cfg} {σ σ' : Sys} {t q : Nat} {op : SlabOp} {ans : List (Option Nat)}
    (h : σ.slabCall c t op ans = .ok (q, σ')) :
    slabExec c (σ.heap.withAnswers ans) t op = .ok (q, σ'.heap) ∧
      σ'.live = slabLive σ.live q op := by
  unfold Sys.slabCall at h
  rcases hexec : slabExec c (σ.heap.withAnswers ans) t op with e | ⟨q', s'⟩
  · rw [hexec] at h
    exact absurd h (by simp [bind, Except.bind])
  · rw [hexec] at h
    simp only [bind, Except.bind, pure, Except.pure, Except.ok.injEq, Prod.mk.injEq] at h
    obtain ⟨rfl, rfl⟩ := h
    exact ⟨rfl, rfl⟩

/-- Sizes are 64-bit words, and only held pointers are given back. -/
def SlabOp.Legal (live : List (Nat × Nat)) : SlabOp → Prop
  | .alloc size => size < 2 ^ 64
  | .free ptr => ptr = 0 ∨ ptr ∈ live.map Prod.fst

instance (live : List (Nat × Nat)) : (op : SlabOp) → Decidable (op.Legal live)
  | .alloc _ => inferInstanceAs (Decidable (_ < _))
  | .free _ => inferInstanceAs (Decidable (_ ∨ _))

/-- A slot that is given back has an address below `2 ^ 48`. -/
def SlabOp.Low (s : State) : SlabOp → Prop
  | .alloc _ => True
  | .free ptr => LowPtr s ptr

/-- A step of a run; the calls of thread `t` satisfy `P t`. -/
inductive SlabStep (c : Cfg) (P : Nat → Sys → SlabOp → Prop) : Sys → Sys → Prop
  | call {σ σ' : Sys} (t : Nat) (op : SlabOp) (ans : List (Option Nat)) (q : Nat)
      (hlow : op.Low σ.heap) (hlegal : op.Legal σ.live) (hP : P t σ op)
      (he : σ.slabCall c t op ans = .ok (q, σ')) : SlabStep c P σ σ'
  | write {σ : Sys} (m : Mem) (hm : ∀ y, m y ≠ σ.heap.mem y → σ.Owns y) :
      SlabStep c P σ { σ with heap := { σ.heap with mem := m } }

/-- The states of the runs whose calls satisfy `P`. -/
def SlabReachable (c : Cfg) (P : Nat → Sys → SlabOp → Prop) (σ : Sys) : Prop :=
  Relation.ReflTransGen (SlabStep c P) (Sys.initial c) σ

/-- The state after a call that returns; for runs that are written out. -/
def Sys.slabAfter (c : Cfg) (σ : Sys) (t : Nat) (op : SlabOp) (ans : List (Option Nat)) : Sys :=
  match σ.slabCall c t op ans with
  | .ok (_, σ') => σ'
  | .error _ => σ

variable {c : Cfg} {P : Nat → Sys → SlabOp → Prop} {σ σ' : Sys} {s s' : State} {G G' : Ghost}

theorem SlabReachable.after (h : SlabReachable c P σ) (t : Nat) (op : SlabOp)
    (ans : List (Option Nat)) (hlow : op.Low σ.heap) (hlegal : op.Legal σ.live) (hP : P t σ op) :
    SlabReachable c P (σ.slabAfter c t op ans) := by
  unfold Sys.slabAfter
  split
  next q σ' he => exact h.tail (.call t op ans q hlow hlegal hP he)
  next => exact h

theorem SlabReachable.mono {Q : Nat → Sys → SlabOp → Prop} (hPQ : ∀ t σ op, P t σ op → Q t σ op)
    (h : SlabReachable c P σ) : SlabReachable c Q σ := by
  refine Relation.ReflTransGen.mono (fun _ _ hs => ?_) _ _ h
  cases hs with
  | call t op ans q hlow hlegal hP he => exact .call t op ans q hlow hlegal (hPQ t _ _ hP) he
  | write m hm => exact .write m hm

/-- A call after which the clients hold something else did return. -/
theorem Sys.slabCall_after {t : Nat} {op : SlabOp} {ans : List (Option Nat)}
    (h : (σ.slabAfter c t op ans).ptrs ≠ σ.ptrs) :
    ∃ q, σ.slabCall c t op ans = .ok (q, σ.slabAfter c t op ans) := by
  unfold Sys.slabAfter at h ⊢
  split at h
  next q σ' he => exact ⟨q, he⟩
  next => exact absurd rfl h

/-! ## The invariant of the runs -/

/-- The clients hold blocks, and every slot that is handed out is theirs. -/
structure SlabHolds (c : Cfg) (σ : Sys) (G : Ghost) : Prop extends Holds c σ G where
  exact : ∀ r x, x ∈ G.busy r → x ∈ σ.ptrs

/-- No size wraps on its way to the large allocator, and `slab_free` finds what it is
given. -/
def SlabOp.Safe (c : Cfg) (σ : Sys) : SlabOp → Prop
  | .alloc size => LargeFits c size 16
  | .free ptr => ptr = 0 ∨ Findable σ.heap ptr

theorem initial_slabHolds (c : Cfg) : SlabHolds c (Sys.initial c) Ghost.empty :=
  ⟨initial_holds c, fun _ _ hx => absurd hx List.not_mem_nil⟩

theorem SlabHolds.withAnswers (h : SlabHolds c σ G) (ans : List (Option Nat)) :
    SlabHolds c ⟨σ.heap.withAnswers ans, σ.live⟩ G :=
  ⟨h.toHolds.withAnswers ans, h.exact⟩

/-- A busy slot after a call that created no block but `p` was busy before. -/
theorem SlabHolds.exact_of (h : SlabHolds c σ G) (he : SegExt σ.heap s') (h' : Inv c s' G')
    {p : Nat}
    (honly : ∀ q k, Blk s' G' q k → q ≠ p → Blk σ.heap G q k) {r : PageRef} {x : Nat}
    (hx : x ∈ G'.busy r) (hne : x ≠ p) : x ∈ σ.ptrs := by
  obtain ⟨r', hr', -⟩ := he.slab_back h.inv h' (honly x _ (.slab r hx) hne) hx
  exact h.exact r' x hr'

theorem slabAlloc_holds (h : SlabHolds c σ G) {t size : Nat} (hfit : LargeFits c size 16) :
    Ensures (· = .undefined) (slabAlloc c σ.heap t size) fun (q, s') =>
      ∃ G', SlabHolds c ⟨s', addPtr q size σ.live⟩ G' := by
  refine ensures_bad (ensures_mono (slabAlloc_spec h.inv hfit) ?_) fun _ he => he.1
  rintro ⟨q, s'⟩ hp
  simp only
  unfold addPtr
  split
  next h0 =>
    have hq := hp.null h0
    refine ⟨G, h.toHolds.quiet hq, fun r x hx => h.exact r x hx⟩
  next h0 =>
    obtain ⟨k, G', hk, ha, -⟩ := hp.got h0
    refine ⟨G', h.toHolds.alloc ha (Nat.le_trans (le_atLeastOne size) hk), fun r x hx => ?_⟩
    by_cases hxq : x = q
    · rw [hxq]
      exact List.mem_cons_self ..
    · exact List.mem_cons_of_mem _ (h.exact_of hp.segExt ha.inv ha.only hx hxq)

/-- `slab_free` ignores what lies in no registered segment. -/
theorem slabFree_ignored {t p : Nat} (h : ptrToSegment s p = 0) : slabFree c s t p = .ok s := by
  unfold slabFree
  by_cases hp : p = 0
  · rw [if_pos hp]
    rfl
  · rw [if_neg hp, if_pos h]
    rfl

theorem mem_ptrs_dropPtr {live : List (Nat × Nat)} {p x : Nat} :
    x ∈ (dropPtr p live).map Prod.fst ↔ x ∈ live.map Prod.fst ∧ x ≠ p := by
  simp only [List.mem_map, mem_dropPtr]
  constructor
  · rintro ⟨y, ⟨hy, hne⟩, rfl⟩
    exact ⟨⟨y, hy, rfl⟩, hne⟩
  · rintro ⟨⟨y, hy, rfl⟩, hne⟩
    exact ⟨y, ⟨hy, hne⟩, rfl⟩

/-- `slab_free` takes every slot back that it finds, and ignores the rest. -/
theorem Holds.free_cases (h : Holds c σ G) {t p : Nat} (hlow : LowPtr σ.heap p)
    (hlegal : p = 0 ∨ p ∈ σ.ptrs) :
    Ensures (· = .undefined) (slabFree c σ.heap t p) fun s' =>
      (s' = σ.heap ∧ ∀ r, p ∈ G.busy r → Lost σ.heap G p) ∨
      ∃ r, p ∈ G.busy r ∧ ptrToPage σ.heap p = some r ∧ FreePost c σ.heap G t r p s' := by
  by_cases h0 : p = 0
  · subst h0
    rw [show slabFree c σ.heap t 0 = .ok σ.heap from rfl]
    refine Or.inl ⟨rfl, fun r hr => ?_⟩
    exact absurd rfl (Nat.ne_of_gt (h.inv.blk_align (.slab r hr)).2)
  obtain ⟨-, k, -, -, hb⟩ := h.exists_blk (hlegal.resolve_left h0)
  rcases h.inv.blk_cases hb with ⟨r, hp, -, -, rfl⟩ | ⟨b, la, hl, hok, -, -⟩
  · obtain ⟨hseg, hpage⟩ := h.inv.ptrToPage_slab hp
    by_cases hreg : segmentIsRegistered σ.heap.segmentRegistry r.seg = true
    · refine ensures_bad (ensures_mono (slabFree_spec h.inv hp hreg
        (h.inv.page_low hp (hlow.low h.inv r hp))) ?_) fun _ he => he.1
      intro s' hf
      refine Or.inr ⟨r, hp, ?_, hf⟩
      rw [hpage, if_pos hreg]
    · rw [slabFree_ignored (by rw [hseg, if_neg hreg])]
      exact Or.inl ⟨rfl, fun _ _ => ⟨r, hp, Bool.eq_false_iff.mpr hreg⟩⟩
  · rw [slabFree_ignored (h.inv.ptrToSegment_large hl hok)]
    refine Or.inl ⟨rfl, fun r hp => ?_⟩
    exact absurd (h.inv.regions.apart (h.inv.slab_region hp).1 (hok.region hl).1) (by simp)

/-- What `slab_free` ignores is no slot, if it can find the slots it is given. -/
theorem SlabHolds.free_post (h : SlabHolds c σ G) {t p : Nat} (hlow : LowPtr σ.heap p)
    (hlegal : p = 0 ∨ p ∈ σ.ptrs) (hsafe : p = 0 ∨ Findable σ.heap p) :
    Ensures (· = .undefined) (slabFree c σ.heap t p) fun s' =>
      (s' = σ.heap ∧ ∀ r, p ∉ G.busy r) ∨
      ∃ r, p ∈ G.busy r ∧ ptrToPage σ.heap p = some r ∧ FreePost c σ.heap G t r p s' := by
  refine ensures_mono (h.toHolds.free_cases hlow hlegal) ?_
  rintro s' (⟨rfl, hno⟩ | hf)
  · refine Or.inl ⟨rfl, fun r hr => ?_⟩
    rcases hsafe with rfl | hsafe
    · exact absurd rfl (Nat.ne_of_gt (h.inv.blk_align (.slab r hr)).2)
    · exact hsafe.not_lost h.inv (hno r hr)
  · exact Or.inr hf

theorem slabFree_holds (h : SlabHolds c σ G) {t p : Nat} (hlow : LowPtr σ.heap p)
    (hlegal : p = 0 ∨ p ∈ σ.ptrs) (hsafe : p = 0 ∨ Findable σ.heap p) :
    Ensures (· = .undefined) (slabFree c σ.heap t p) fun s' =>
      ∃ G', SlabHolds c ⟨s', dropPtr p σ.live⟩ G' := by
  refine ensures_mono (h.free_post hlow hlegal hsafe) ?_
  rintro s' (⟨rfl, hno⟩ | ⟨r, hp, -, hf⟩)
  · refine ⟨G, h.toHolds.drop h.inv Keeps.refl, fun r x hx => ?_⟩
    exact mem_ptrs_dropPtr.mpr ⟨h.exact r x hx, fun he => hno r (he ▸ hx)⟩
  · refine ⟨_, h.toHolds.drop hf.release.inv hf.release.keeps, fun r' x hx => ?_⟩
    have hxp : x ≠ p := by
      rintro rfl
      exact hf.release.gone _ (.slab r' hx)
    have hext : SegExt σ.heap s' := .of_eq hf.on.segs hf.on.registry
    exact mem_ptrs_dropPtr.mpr
      ⟨h.exact_of hext hf.release.inv (fun q k hq _ => hf.release.only q k hq) hx hxp, hxp⟩

/-- A call gives or takes. -/
theorem slabLive_subset (live : List (Nat × Nat)) (q : Nat) (op : SlabOp) :
    live ⊆ slabLive live q op ∨ slabLive live q op ⊆ live := by
  cases op with
  | alloc size =>
    refine Or.inl fun x hx => ?_
    simp only [slabLive, addPtr]
    split
    next => exact hx
    next => exact List.mem_cons_of_mem _ hx
  | free p => exact Or.inr fun x hx => (mem_dropPtr.mp hx).1

/-- A call keeps what it does not take, and gives nothing away twice. -/
theorem Holds.call_keeps (h : Holds c σ G) {t q : Nat} {op : SlabOp} {ans : List (Option Nat)}
    (hlow : op.Low σ.heap) (hlegal : op.Legal σ.live)
    (hfits : ∀ size, op = .alloc size → LargeFits c size 16)
    (he : σ.slabCall c t op ans = .ok (q, σ')) :
    ∃ G', Holds c σ' G' ∧
      Keeps σ.heap G σ'.heap G' (fun x => x ∉ σ.ptrs ∨ x ∈ σ'.ptrs) ∧
      ∀ x ∈ σ'.ptrs, x ∈ σ.ptrs ∨ ∀ k, ¬ Blk σ.heap G x k := by
  obtain ⟨hexec, hl⟩ := Sys.slabCall_ok he
  obtain ⟨s', live'⟩ := σ'
  simp only at hexec hl
  subst hl
  have hw := h.withAnswers ans
  have hinto : ∀ {x k}, Blk σ.heap G x k → Blk (σ.heap.withAnswers ans) G x k := fun hb =>
    hb.same ⟨rfl, rfl, rfl, rfl⟩
  cases op with
  | alloc size =>
    have hx := slabAlloc_spec hw.inv (t := t) (hfits size rfl)
    have hp : AllocPost c (σ.heap.withAnswers ans) G (atLeastOne size) q false s' :=
      (ensures_elim hx hexec :)
    simp only [slabLive, addPtr]
    by_cases h0 : q = 0
    · rw [if_pos h0]
      have hq := hp.null h0
      exact ⟨G, hw.quiet hq, fun x k hb _ => hq.keeps x k (hinto hb) trivial, fun x hx => Or.inl hx⟩
    · rw [if_neg h0]
      obtain ⟨k, G', hk, ha, -⟩ := hp.got h0
      refine ⟨G', hw.alloc ha (Nat.le_trans (le_atLeastOne size) hk),
        fun x k hb _ => ha.keeps x k (hinto hb) trivial, fun x hx => ?_⟩
      rcases List.mem_cons.mp hx with rfl | hx
      · exact Or.inr fun k hb => ha.fresh k (hinto hb)
      · exact Or.inl hx
  | free p =>
    obtain ⟨s₁, hfree, hret⟩ := bind_eq_ok hexec
    obtain ⟨-, rfl⟩ := Prod.mk.inj (Except.ok.inj hret)
    have hsub : ∀ x ∈ (⟨s₁, dropPtr p σ.live⟩ : Sys).ptrs, x ∈ σ.ptrs ∧ x ≠ p := fun x hx =>
      mem_ptrs_dropPtr.mp hx
    rcases ensures_elim (hw.free_cases hlow hlegal) hfree with ⟨rfl, -⟩ | ⟨r, hp, -, hf⟩
    · exact ⟨G, hw.drop hw.inv Keeps.refl, fun x k hb _ => ⟨hinto hb, fun _ _ _ => rfl⟩,
        fun x hx => Or.inl (hsub x hx).1⟩
    · refine ⟨_, hw.drop hf.release.inv hf.release.keeps, fun x k hb hx => ?_,
        fun x hx => Or.inl (hsub x hx).1⟩
      refine hf.release.keeps x k (hinto hb) ?_
      rintro rfl
      rcases hx with hx | hx
      · rcases hlegal with rfl | hlegal
        · exact absurd rfl (Nat.ne_of_gt (h.inv.blk_align hb).2)
        · exact hx hlegal
      · exact (hsub x hx).2 rfl

/-- A byte the clients hold on to keeps its value. -/
theorem Holds.call_byte (h : Holds c σ G) (h' : Holds c σ' G')
    (hk : Keeps σ.heap G σ'.heap G' (fun x => x ∉ σ.ptrs ∨ x ∈ σ'.ptrs))
    (hsub : σ.ptrs ⊆ σ'.ptrs ∨ σ'.ptrs ⊆ σ.ptrs) {y : Nat} (hy : σ.Owns y) (hy' : σ'.Owns y) :
    σ'.heap.mem y = σ.heap.mem y := by
  rcases hsub with hsub | hsub
  · obtain ⟨p, hp, k, hb, h₁, h₂⟩ := h.owns hy
    exact (hk p k hb (Or.inr (hsub hp))).2 y h₁ h₂
  · obtain ⟨p, hp, k, hb, h₁, h₂⟩ := h'.owns hy'
    obtain ⟨-, j, -, -, hj⟩ := h.exists_blk (hsub hp)
    obtain ⟨hj', hmem⟩ := hk p j hj (Or.inr hp)
    have : k = j := h'.inv.block_eq hj' (hb.block h'.inv)
    exact hmem y h₁ (by omega)

/-- A call keeps the active pages. -/
theorem Holds.call_kept (h : Holds c σ G) {t q : Nat} {op : SlabOp} {ans : List (Option Nat)}
    (hlow : op.Low σ.heap) (hlegal : op.Legal σ.live) (he : σ.slabCall c t op ans = .ok (q, σ')) :
    ActiveKept σ.heap σ'.heap := by
  obtain ⟨hexec, -⟩ := Sys.slabCall_ok he
  have hw := h.withAnswers ans
  cases op with
  | alloc size =>
    obtain ⟨zeroed, hinner⟩ := slabAlloc_inner hexec
    have hkept := slabAllocInner_kept hw.inv hinner
    exact hkept
  | free p =>
    obtain ⟨s₁, hfree, hret⟩ := bind_eq_ok hexec
    obtain ⟨-, hs₁⟩ := Prod.mk.inj (Except.ok.inj hret)
    rw [← hs₁]
    rcases ensures_elim (hw.free_cases hlow hlegal) hfree with ⟨rfl, -⟩ | ⟨r, -, -, hf⟩
    · exact fun q hd hact => ⟨hd, hact, rfl, rfl⟩
    · exact hf.on.activeKept

theorem slabStep_holds (hsafe : ∀ t σ op, P t σ op → op.Safe c σ) (h : ∃ G, SlabHolds c σ G)
    (hs : SlabStep c P σ σ') : ∃ G, SlabHolds c σ' G := by
  obtain ⟨G, h⟩ := h
  cases hs with
  | call t op ans q hlow hlegal hP he =>
    obtain ⟨hexec, hl⟩ := Sys.slabCall_ok he
    obtain ⟨s', live'⟩ := σ'
    simp only at hexec hl
    subst hl
    have hsafe := hsafe t σ op hP
    have hw := h.withAnswers ans
    cases op with
    | alloc size =>
      have hx := slabAlloc_holds hw (t := t) hsafe
      exact (ensures_elim hx hexec :)
    | free p =>
      have hx : Ensures (· = .undefined) (slabExec c (σ.heap.withAnswers ans) t (.free p))
          fun (q, s') => ∃ G', SlabHolds c ⟨s', dropPtr p σ.live⟩ G' :=
        ensures_bind (slabFree_holds hw hlow hlegal hsafe) fun s' hs' => hs'
      exact (ensures_elim hx hexec :)
  | write m hm => exact ⟨G, h.toHolds.write hm, h.exact⟩

/-- The run lemma. -/
theorem slabReachable_holds (hsafe : ∀ t σ op, P t σ op → op.Safe c σ) (h : SlabReachable c P σ) :
    ∃ G, SlabHolds c σ G := by
  induction h with
  | refl => exact ⟨_, initial_slabHolds c⟩
  | tail _ hs ih => exact slabStep_holds hsafe ih hs

/-- Frees that `slab_free` ignores break no more than the account of the busy slots. -/
theorem SlabReachable.holds (hfits : ∀ t σ size, P t σ (.alloc size) → LargeFits c size 16)
    (h : SlabReachable c P σ) : ∃ G, Holds c σ G := by
  induction h with
  | refl => exact ⟨_, initial_holds c⟩
  | tail _ hs ih =>
    obtain ⟨G, h⟩ := ih
    cases hs with
    | call t op ans q hlow hlegal hP he =>
      obtain ⟨G', h', -⟩ := h.call_keeps hlow hlegal (fun size ho => hfits t _ size (ho ▸ hP)) he
      exact ⟨G', h'⟩
    | write m hm => exact ⟨G, h.write hm⟩

end CustomMalloc

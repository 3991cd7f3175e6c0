import CustomMalloc.Inv.SettledFree

/-!
# Runs with page retirement

Whole calls of `slab_alloc` and `slab_free` by any threads, as in `SlabRun`, and between
them calls of `arena_alloc` and `arena_free` for any arena and any page. The clients
write into the slots they hold. The kernel, advised by `segment_free_page`, drops bytes
when it likes.

A byte that was written since the last advice is not dropped, and in particular no link
of a free list is: it was written after its page was last set up, which makes its OS
page dirty. The model lets the kernel drop all other bytes of the data pages, which is
more than `MADV_FREE` allows as long as OS pages are no larger than 64 KB.
-/

namespace CustomMalloc

open Lib.Words Lib.Bytes Lib.Chain Lib.Intervals Lib.Post

/-! ## Steps -/

/-- The calls of a run. -/
inductive RetireOp where
  | call (t : Nat) (op : SlabOp)
  | arenaAlloc (a bin : Nat)
  deriving DecidableEq, Repr

/-- A mapped byte of a slot or large block that a client holds. -/
def Sys.InBlock (σ : Sys) (y : Nat) : Prop :=
  Covers σ.heap.mapped y ∧ ∃ x ∈ σ.live, x.1 ≤ y ∧ ∃ n, Block σ.heap x.1 n ∧ y < x.1 + n

/-- A step of a run; the calls satisfy `P` in the state before them. -/
inductive RetireStep (c : Cfg) (P : Sys → RetireOp → Prop) : Sys → Sys → Prop
  | call {σ σ' : Sys} (t : Nat) (op : SlabOp) (ans : List (Option Nat)) (q : Nat)
      (hlow : op.Low σ.heap) (hlegal : op.Legal σ.live) (hP : P σ (.call t op))
      (he : σ.slabCall c t op ans = .ok (q, σ')) : RetireStep c P σ σ'
  | arenaAlloc {σ : Sys} {s' : State} (a bin : Nat) (ans : List (Option Nat)) (slot : Nat)
      (zeroed : Bool) (hbin : bin < binCount) (hP : P σ (.arenaAlloc a bin))
      (he : arenaAlloc c (σ.heap.withAnswers ans) a bin = .ok ((slot, zeroed), s')) :
      RetireStep c P σ ⟨s', addPtr slot (binToSize sizeTables bin) σ.live⟩
  | arenaFree {σ : Sys} (r : PageRef) (hd : IsData σ.heap.segs r) :
      RetireStep c P σ { σ with heap := arenaFree σ.heap (σ.heap.pages r).arena r }
  | write {σ : Sys} (m : Mem) (hm : ∀ y, m y ≠ σ.heap.mem y → σ.InBlock y) :
      RetireStep c P σ { σ with heap := { σ.heap with mem := m } }
  | drop {σ : Sys} (m : Mem) (hos : c.osPage ≤ pageSizeAlloc) (hm : Dropped σ.heap m) :
      RetireStep c P σ { σ with heap := { σ.heap with mem := m } }

/-- The states of the runs whose calls satisfy `P`. -/
def RetireReachable (c : Cfg) (P : Sys → RetireOp → Prop) (σ : Sys) : Prop :=
  Relation.ReflTransGen (RetireStep c P) (Sys.initial c) σ

variable {c : Cfg} {v : Bool} {P : Sys → RetireOp → Prop} {σ σ' : Sys} {s s' : State}
  {G G' : Ghost}

/-- A call that returns, in a run that is written out. -/
theorem RetireReachable.after (h : RetireReachable c P σ) (t : Nat) (op : SlabOp)
    (ans : List (Option Nat)) (hlow : op.Low σ.heap) (hlegal : op.Legal σ.live)
    (hP : P σ (.call t op)) : RetireReachable c P (σ.slabAfter c t op ans) := by
  unfold Sys.slabAfter
  split
  next q σ' he => exact h.tail (.call t op ans q hlow hlegal hP he)
  next => exact h

/-- `arena_free`, in a run that is written out. -/
def Sys.retire (σ : Sys) (r : PageRef) : Sys :=
  { σ with heap := arenaFree σ.heap (σ.heap.pages r).arena r }

theorem RetireReachable.retire (h : RetireReachable c P σ) (r : PageRef)
    (hd : IsData σ.heap.segs r) : RetireReachable c P (σ.retire r) := h.tail (.arenaFree r hd)

/-- The result of a call that returns. -/
def Sys.slabResult (c : Cfg) (σ : Sys) (t : Nat) (op : SlabOp) (ans : List (Option Nat)) :
    Option Nat :=
  match σ.slabCall c t op ans with
  | .ok (q, _) => some q
  | .error _ => none

theorem Sys.slabCall_of_result {t q : Nat} {op : SlabOp} {ans : List (Option Nat)}
    (h : σ.slabResult c t op ans = some q) :
    σ.slabCall c t op ans = .ok (q, σ.slabAfter c t op ans) := by
  unfold Sys.slabResult at h
  unfold Sys.slabAfter
  split at h
  next q' σ' he =>
    cases h
    rw [he]
  next => cases h

/-! ## The invariant of the runs -/

/-- The heap is settled and the clients hold blocks. -/
structure RetireHolds (v : Bool) (c : Cfg) (σ : Sys) (G : Ghost) : Prop where
  settled : Settled v c σ.heap G
  blk : ∀ x ∈ σ.live, ∃ k, Blk σ.heap G x.1 k

/-- What the invariant asks of a call. A size must not wrap on its way to the large
allocator, and `arena_alloc` is called for bins with at least two slots to a page. -/
def RetireOp.Sound (v : Bool) (c : Cfg) (σ : Sys) : RetireOp → Prop
  | .call t (.alloc size) =>
    LargeFits c size 16 ∧ (v = false → ∀ a, UsesArena σ.heap t a → NextZero σ.heap a)
  | .call _ (.free _) => True
  | .arenaAlloc a bin => binToSize sizeTables bin ≤ 32768 ∧ (v = false → NextZero σ.heap a)

theorem Settled.withAnswers (h : Settled v c s G) (ans : List (Option Nat)) :
    Rested v c s G (s.withAnswers ans) := by
  obtain ⟨m, hinv, hidle⟩ := h.bare
  have hsame : SameMeta s (s.withAnswers ans) := ⟨rfl, rfl, rfl, rfl⟩
  exact ⟨⟨⟨m, { hinv with }, hidle⟩, h.caches⟩, fun p n => hsame.blk p n⟩

theorem RetireHolds.rested (h : RetireHolds v c σ G) (hr : Rested v c σ.heap G s') :
    RetireHolds v c ⟨s', σ.live⟩ G := by
  refine ⟨hr.settled, fun x hx => ?_⟩
  obtain ⟨k, hb⟩ := h.blk x hx
  exact ⟨k, (hr.blocks x.1 k).mpr hb⟩

theorem RetireHolds.handed (h : RetireHolds v c σ G) {p k n : Nat}
    (hh : Handed v c σ.heap G p k s' G') : RetireHolds v c ⟨s', (p, n) :: σ.live⟩ G' := by
  refine ⟨hh.settled, fun x hx => ?_⟩
  rcases List.mem_cons.mp hx with rfl | hx
  · exact ⟨k, hh.new⟩
  · obtain ⟨k', hb⟩ := h.blk x hx
    exact ⟨k', hh.keeps x.1 k' hb⟩

/-- Null or a new block. -/
theorem RetireHolds.addPtr (h : RetireHolds v c σ G) {p n : Nat}
    (hnull : p = 0 → Rested v c σ.heap G s')
    (hgot : p ≠ 0 → ∃ k G', Handed v c σ.heap G p k s' G') :
    ∃ G', RetireHolds v c ⟨s', addPtr p n σ.live⟩ G' := by
  unfold CustomMalloc.addPtr
  split
  next h0 => exact ⟨G, h.rested (hnull h0)⟩
  next h0 =>
    obtain ⟨k, G', hh⟩ := hgot h0
    exact ⟨G', h.handed hh⟩

theorem ServedPost.handed {t size p : Nat} {zeroed : Bool}
    (h : ServedPost v c s G t size p zeroed s') (h0 : p ≠ 0) :
    ∃ k G', Handed v c s G p k s' G' := by
  by_cases hs : SlabSized size
  · obtain ⟨r, hr⟩ := h.slab hs h0
    exact ⟨_, _, hr.handed⟩
  · obtain ⟨G', hh⟩ := (h.large hs).2 h0
    exact ⟨_, G', hh⟩

theorem Block.same {p n : Nat} (h : Block s p n) (hs : SameMeta s s') : Block s' p n := by
  cases h with
  | slab r hd hact h₁ h₂ =>
    rw [← hs.pages]
    exact .slab r (by rw [hs.segs]; exact hd) (by rw [hs.pages]; exact hact) h₁ h₂
  | large b la hl h₁ h₂ => exact .large b la (by rw [hs.larges]; exact hl) h₁ h₂

/-- A held pointer has one block. -/
theorem Settled.block_eq (h : Settled v c s G) {p n k : Nat} (hb : Blk s G p n) (hk : Block s p k) :
    k = n := by
  obtain ⟨m, hsh⟩ := h.shadow
  have hsame := hsh.alike.same
  exact hsh.inv.block_eq ((hsame.blk p n).mpr hb) (hk.same hsame)

theorem retireStep_holds (hsound : ∀ σ op, P σ op → op.Sound v c σ)
    (h : ∃ G, RetireHolds v c σ G) (hs : RetireStep c P σ σ') : ∃ G, RetireHolds v c σ' G := by
  obtain ⟨G, h⟩ := h
  cases hs with
  | call t op ans q hlow hlegal hP he =>
    obtain ⟨hexec, hl⟩ := Sys.slabCall_ok he
    obtain ⟨s', live'⟩ := σ'
    simp only at hexec hl
    subst hl
    have hw := h.rested (h.settled.withAnswers ans)
    cases op with
    | alloc size =>
      obtain ⟨hfit, hzero⟩ := hsound _ _ hP
      obtain ⟨zeroed, hinner⟩ := slabAlloc_inner hexec
      have hpost := hw.settled.slabAllocInner hfit hzero hinner
      exact hw.addPtr hpost.null hpost.handed
    | free p =>
      have hexec : slabExec c (σ.heap.withAnswers ans) t (.free p) = .ok (q, s') := hexec
      obtain ⟨s₁, hfree, hret⟩ := bind_eq_ok hexec
      obtain ⟨-, rfl⟩ := Prod.mk.inj (Except.ok.inj hret)
      have hlive : ∀ x ∈ dropPtr p σ.live, x ∈ σ.live ∧ x.1 ≠ p := fun x hx => mem_dropPtr.mp hx
      rcases hlegal with rfl | hp
      · cases hfree
        exact ⟨G, hw.settled, fun x hx => hw.blk x (hlive x hx).1⟩
      · obtain ⟨x, hx, rfl⟩ := List.mem_map.mp hp
        obtain ⟨k, hb⟩ := hw.blk x hx
        obtain ⟨G', hset, hkeep⟩ := hw.settled.slabFree hb hlow hfree
        refine ⟨G', hset, fun y hy => ?_⟩
        obtain ⟨hy, hne⟩ := hlive y hy
        obtain ⟨k', hb'⟩ := hw.blk y hy
        exact ⟨k', hkeep y.1 k' hb' hne⟩
  | arenaAlloc a bin ans slot zeroed hbin hP he =>
    obtain ⟨hsize, hzero⟩ := hsound _ _ hP
    have hw := h.rested (h.settled.withAnswers ans)
    obtain ⟨hnull, hgot⟩ := hw.settled.arenaAlloc hbin hsize hzero he
    refine hw.addPtr hnull fun h0 => ?_
    obtain ⟨r, hh, -⟩ := hgot h0
    exact ⟨_, _, hh⟩
  | arenaFree r hd => exact ⟨G, h.rested (h.settled.arenaFree hd)⟩
  | write m hm =>
    refine ⟨G, h.rested (h.settled.write fun y hy => ?_)⟩
    obtain ⟨-, x, hx, h₁, n, hn, h₂⟩ := hm y hy
    obtain ⟨k, hb⟩ := h.blk x hx
    obtain rfl := h.settled.block_eq hb hn
    exact ⟨x.1, n, hb, h₁, h₂⟩
  | drop m hos hm => exact ⟨G, h.rested (h.settled.drop hm)⟩

theorem Inv.settled (h : Inv c s G) : Settled v c s G := by
  refine ⟨⟨s.mem, h.clearCaches, fun y hy => absurd rfl hy⟩, fun t x hx b q hq => ?_⟩
  obtain ⟨hd, -, -, ha⟩ := h.tlds t x hx b q hq
  exact ⟨hd, ha⟩

/-- The run lemma. -/
theorem retireReachable_holds (hsound : ∀ σ op, P σ op → op.Sound v c σ)
    (h : RetireReachable c P σ) : ∃ G, RetireHolds v c σ G := by
  induction h with
  | refl => exact ⟨_, (initial_holds c).inv.settled, fun x hx => absurd hx List.not_mem_nil⟩
  | tail _ hs ih => exact retireStep_holds hsound ih hs

/-- The kernel drops a page that is not in use, in a run that is written out. -/
def Sys.dropPage (σ : Sys) (r : PageRef) : Sys :=
  { σ with heap := { σ.heap with
      mem := fun y => if r.start ≤ y ∧ y < r.start + 65536 then 0 else σ.heap.mem y } }

theorem RetireReachable.dropPage (hsound : ∀ σ op, P σ op → op.Sound v c σ)
    (h : RetireReachable c P σ) (hos : c.osPage ≤ pageSizeAlloc) {r : PageRef}
    (hd : IsData σ.heap.segs r) (hne : (σ.heap.pages r).state ≠ .active) :
    RetireReachable c P (σ.dropPage r) := by
  obtain ⟨G, hh⟩ := retireReachable_holds hsound h
  exact h.tail (.drop _ hos (hh.settled.dropped_unused hd hne))

end CustomMalloc

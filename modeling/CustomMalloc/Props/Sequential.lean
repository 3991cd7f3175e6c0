import CustomMalloc.Concurrent.SlabAlone
import CustomMalloc.Props.Overlap

/-!
# Whole calls as runs

`SlabRun` runs whole calls of `slab_alloc` and `slab_free`, one after the other; `SlabMachine`
runs the steps of calls that overlap. Every run of whole calls is a run of the steps, with the
same heap and the same blocks in the clients' hands after each call: the threads just take
turns. Such runs are `Orderly`, so nothing that was proved of overlapping calls is about
machines that do something else than the functions.
-/

namespace CustomMalloc

open Lib.Words Lib.Bytes Lib.Chain Lib.Interleave Lib.Post

variable {n : Nat} {c : Cfg} {τ τ' : SlabSys n} {σ σ' : Sys} {t : Fin n} {s s' : State}
  {spurious : Bool}

/-! ## One thread at a time -/

theorem ThreadsFrom.hasId {u : Nat} (h : ThreadsFrom u s s') (hid : HasId s u) : HasId s' u := by
  intro hn
  cases hx : s.tls u with
  | some x =>
    obtain ⟨y, hy, -⟩ := h.had x hx
    cases hn.symm.trans hy
  | none =>
    rcases h.new hx with ⟨-, hc⟩ | ⟨y, hy, -⟩
    · rw [hc]
      exact hid hx
    · cases hn.symm.trans hy

theorem ThreadsFrom.stat {u : Nat} {x y : Tld} (hx : s.tls u = some x)
    (he : tldStatStore s u y = .ok s') (hid : y.threadId = x.threadId) : ThreadsFrom u s s' :=
  ensures_elim (tldStatStore_closed (threadsFrom_closed u).toFreeClosed hx hid) he

theorem ThreadsFrom.tldGet {u : Nat} {o : Option Tld} (he : CustomMalloc.tldGet c s u = (o, s')) :
    ThreadsFrom u s s' := by
  have := (tldGet_closed (c := c) (threadsFrom_closed u).toFreeClosed s).1
  rwa [he] at this

/-- What a step of thread `t` does to the threads. -/
structure Turn (t : Fin n) (τ τ' : SlabSys n) : Prop where
  pcs : ∀ u, u ≠ t → τ'.pcs u = τ.pcs u
  threads : ThreadsFrom t τ.heap τ'.heap

theorem Turn.of_same {pc : SlabPc} (hpcs : τ'.pcs = upd τ.pcs t pc)
    (hs : SameThreads τ.heap τ'.heap) :
    Turn t τ τ' :=
  ⟨fun _ hu => by rw [hpcs, upd_ne hu], .of_eq hs⟩

theorem Turn.store {pc : SlabPc} (h : ThreadsFrom t τ.heap s) : Turn t τ ((τ.onHeap s).goto t pc) :=
  ⟨fun _ hu => upd_ne hu, h⟩

/-- A thread rewrites its data. -/
theorem Turn.setTld {pc : SlabPc} {x y : Tld} (hx : τ.heap.tls t = some x)
    (hid : y.threadId = x.threadId) : Turn t τ ((τ.onHeap (τ.heap.setTld t y)).goto t pc) :=
  .store ((threadsFrom_closed t).setTld τ.heap x y hx hid)

theorem fastStep_turn {bin : Nat} {r : PageRef} {pc : AllocPc} :
    Turn t τ (τ.fastStep t spurious bin r pc) := by
  unfold SlabSys.fastStep
  simp only
  split <;> exact .of_same rfl ⟨rfl, rfl⟩

theorem bumpStep_turn {k : ArenaCall} {r : PageRef} {pc : BumpPc} :
    Turn t τ (τ.bumpStep t k r pc) := by
  cases pc <;> exact .of_same rfl ⟨rfl, rfl⟩

theorem freeLocalStep_turn {r : PageRef} {pc : FreeLocalPc} :
    Turn t τ (τ.freeLocalStep t r pc) := by
  cases pc <;> exact .of_same rfl ⟨rfl, rfl⟩

theorem freeRemoteStep_turn {r : PageRef} {pc : FreeRemotePc} :
    Turn t τ (τ.freeRemoteStep t spurious r pc) := by
  unfold SlabSys.freeRemoteStep
  simp only
  split <;> exact .of_same rfl ⟨rfl, rfl⟩

/-- Every step is a turn. -/
theorem step_turn (he : τ.step c t spurious = some τ') : Turn t τ τ' := by
  -- where the step only moves the thread, or touches no thread's data
  have hplain : ∀ {τ₁ : SlabSys n} {pc : SlabPc}, some τ₁ = some τ' → τ₁.pcs = upd τ.pcs t pc →
      SameThreads τ.heap τ₁.heap → Turn t τ τ' := by
    intro τ₁ pc he hpcs hs
    cases he
    exact .of_same hpcs hs
  cases hpc : τ.pcs t with
  | idle =>
    simp only [SlabSys.step, hpc] at he
    cases he
  | enter bin | freeTld ptr r =>
    rcases hg : tldGet c τ.heap t with ⟨o, s₁⟩
    cases o <;>
    · simp only [SlabSys.step, hpc, hg] at he
      cases he
      exact ⟨fun _ hu => upd_ne hu, .tldGet hg⟩
  | look bin | claim bin slot zeroed r =>
    simp only [SlabSys.step, hpc] at he
    split at he
    next => cases he
    next =>
      split at he
      next => exact hplain he rfl ⟨rfl, rfl⟩
      next => split at he <;> exact hplain he rfl ⟨rfl, rfl⟩
  | fast bin r pc =>
    simp only [SlabSys.step, hpc] at he
    cases he
    exact fastStep_turn
  | book r slot zeroed | freeStat r =>
    simp only [SlabSys.step, hpc] at he
    split at he
    next => cases he
    next y hy =>
      split at he
      next => cases he
      next s₁ hs =>
        cases he
        exact .store (.stat hy hs rfl)
  | clear bin | cache bin slot zeroed r =>
    simp only [SlabSys.step, hpc] at he
    split at he
    next => cases he
    next y hy =>
      cases he
      exact .setTld hy rfl
  | again bin hasTld =>
    rcases hg : tldGet c τ.heap t with ⟨o, s₁⟩
    simp only [SlabSys.step, hpc, hg] at he
    split at he <;>
    · cases he
      exact .store (.tldGet hg)
  | next bin hasTld =>
    simp only [SlabSys.step, hpc] at he
    split at he
    next => cases he
    next => exact hplain he rfl ⟨rfl, rfl⟩
  | join k =>
    simp only [SlabSys.step, hpc] at he
    split at he
    next y hy =>
      cases he
      exact .store ((threadsFrom_closed t).trans ((threadsFrom_closed t).setArena _ _ _)
        ((threadsFrom_closed t).setTld _ y _ hy rfl))
    next => exact hplain he rfl ⟨rfl, rfl⟩
  | lock k =>
    simp only [SlabSys.step, hpc] at he
    split at he
    next => exact hplain he rfl ⟨rfl, rfl⟩
    next => cases he
  | head k | owner k r | test k r | follow k r | find bin slot zeroed =>
    simp only [SlabSys.step, hpc] at he
    split at he <;> exact hplain he rfl ⟨rfl, rfl⟩
  | grow k =>
    simp only [SlabSys.step, hpc] at he
    have hnew : ∀ o s₁, arenaNewPage c τ.heap k.arena k.bin = .ok (o, s₁) →
        ThreadsFrom t τ.heap s₁ := fun o s₁ hs =>
      ensures_elim (Q := fun y => ThreadsFrom t τ.heap y.2)
        (arenaNewPage_closed (threadsFrom_closed t) τ.heap k.arena k.bin) hs
    split at he
    next => cases he
    next s₁ hs =>
      cases he
      exact .store (hnew _ _ hs)
    next r s₁ hs =>
      cases he
      refine ⟨fun _ hu => upd_ne hu, (threadsFrom_closed t).trans (hnew _ _ hs) ?_⟩
      exact binInsertPage_closed (threadsFrom_closed t) s₁ k.arena r
  | bump k r pc =>
    simp only [SlabSys.step, hpc] at he
    cases he
    exact bumpStep_turn
  | credit k r slot | unlock k slot zeroed | ret slot zeroed | freeCredit r =>
    simp only [SlabSys.step, hpc] at he
    exact hplain he rfl ⟨rfl, rfl⟩
  | freeFind ptr =>
    simp only [SlabSys.step, hpc] at he
    split at he
    next => exact hplain he rfl ⟨rfl, rfl⟩
    next =>
      split at he
      next => exact hplain he rfl ⟨rfl, rfl⟩
      next => split at he <;> exact hplain he rfl ⟨rfl, rfl⟩
  | freeOwner ptr r =>
    simp only [SlabSys.step, hpc] at he
    split at he
    next => cases he
    next => split at he <;> exact hplain he rfl ⟨rfl, rfl⟩
  | freeLocal r pc =>
    simp only [SlabSys.step, hpc] at he
    cases he
    exact freeLocalStep_turn
  | freeRemote r pc =>
    simp only [SlabSys.step, hpc] at he
    cases he
    exact freeRemoteStep_turn

/-- What one thread does while the others wait is orderly. -/
theorem Solo.reaches {τ₀ : SlabSys n} (h : Solo c t τ τ') (hid : HasId τ.heap t)
    (hwait : ∀ u, u ≠ t → τ.pcs u = .idle) (h₀ : Reaches (SlabSys.act c) Orderly τ₀ τ) :
    Reaches (SlabSys.act c) Orderly τ₀ τ' ∧ HasId τ'.heap t ∧ ∀ u, u ≠ t → τ'.pcs u = .idle := by
  induction h with
  | refl => exact ⟨h₀, hid, hwait⟩
  | @tail τ₁ τ₂ _ hstep ih =>
    obtain ⟨hr, hid, hwait⟩ := ih
    have hturn := step_turn hstep
    refine ⟨hr.next (.step t false τ₁.heap.answers) ⟨hid, fun bin r _ u hu => ?_⟩ hstep,
      hturn.threads.hasId hid, fun u hu => (hturn.pcs u hu).trans (hwait u hu)⟩
    rw [hwait u hu]
    simp [SlabPc.window]

/-- A call that starts with the kernel's answers `ans`. -/
theorem Goes.reaches {τ₀ : SlabSys n} {ans : List (Option Nat)} {L : Nat → Option (Fin n)}
    {pc pc' : SlabPc} (hpc : τ.pcs t = pc) (hne : pc ≠ pc')
    (h : Goes c t (τ.onHeap (τ.heap.withAnswers ans)) s L pc')
    (hid : HasId τ.heap t) (hwait : ∀ u, u ≠ t → τ.pcs u = .idle)
    (h₀ : Reaches (SlabSys.act c) Orderly τ₀ τ) :
    ∃ τ', Reaches (SlabSys.act c) Orderly τ₀ τ' ∧ HasId τ'.heap t ∧ Went t τ s L pc' τ' := by
  obtain ⟨τ', hrun, hw⟩ := h
  rcases hrun.cases_head with heq | ⟨τ₁, hstep, hrest⟩
  · have := hw.at
    rw [← heq] at this
    exact absurd (hpc.symm.trans this) hne
  · have hturn := step_turn hstep
    have hfirst : Reaches (SlabSys.act c) Orderly τ₀ τ₁ := by
      refine h₀.next (.step t false ans) ⟨hid, fun bin r _ u hu => ?_⟩ hstep
      rw [hwait u hu]
      simp [SlabPc.window]
    obtain ⟨hreach, hid', -⟩ := Solo.reaches hrest (hturn.threads.hasId hid)
      (fun u hu => (hturn.pcs u hu).trans (hwait u hu)) hfirst
    exact ⟨τ', hreach, hid', hw.heap, hw.locks, hw.pcs, hw.live⟩

/-! ## Whole calls -/

/-- Between two calls, the steps have led where the whole calls have. What the kernel will
answer to the next call is not part of it. -/
structure Rests (σ : Sys) (τ : SlabSys n) : Prop where
  heap : σ.heap = τ.heap.withAnswers σ.heap.answers
  live : τ.live = σ.ptrs
  idle : ∀ t, τ.pcs t = .idle
  locks : ∀ a, τ.locks a = none

/-- One of `n` threads calls; it finds an id if it needs one, and the size is one for the slab
allocator. -/
def OneOf (n : Nat) (t : Nat) (σ : Sys) (op : SlabOp) : Prop :=
  t < n ∧ HasId σ.heap t ∧ ∀ size, op = .alloc size → (slabBin size).isSome

theorem OneOf.fits {u size : Nat} (h : OneOf n u σ (.alloc size)) : LargeFits c size 16 := by
  obtain ⟨bin, hbin⟩ := Option.isSome_iff_exists.mp (h.2.2 size rfl)
  unfold slabBin at hbin
  obtain ⟨hno, -⟩ := Option.ite_none_left_eq_some.mp hbin
  refine largeFits_small (Nat.le_trans ?_ (Nat.not_lt.mp (not_or.mp hno).1))
  split <;> omega

section Calls

variable {τ₀ : SlabSys n} (hdebug : c.debug = false) (h₀ : Reaches (SlabSys.act c) Orderly τ₀ τ)
  (hr : Rests σ τ)

include hdebug h₀ hr

theorem alloc_sim {size q : Nat} {ans : List (Option Nat)} (hid : HasId σ.heap t)
    (hbin : (slabBin size).isSome) (he : σ.slabCall c t (.alloc size) ans = .ok (q, σ')) :
    ∃ τ' : SlabSys n, Reaches (SlabSys.act c) Orderly τ₀ τ' ∧ Rests σ' τ' := by
  obtain ⟨bin, hbin⟩ := Option.isSome_iff_exists.mp hbin
  obtain ⟨hexec, hlive⟩ := Sys.slabCall_ok he
  obtain ⟨⟨⟨p, zeroed⟩, s₁⟩, hinner, hexec⟩ := bind_eq_ok hexec
  obtain ⟨rfl, rfl⟩ := Prod.mk.inj (Except.ok.inj hexec)
  -- the call starts
  have hstart : Reaches (SlabSys.act c) Orderly τ₀ (τ.goto t (.enter bin)) :=
    h₀.next (.alloc t size) trivial (by simp only [SlabSys.act, hbin, if_pos (hr.idle t)])
  rw [hr.heap] at hinner
  have hgo : Goes c t ((τ.goto t (.enter bin)).onHeap (τ.heap.withAnswers ans)) σ'.heap τ.locks
      (.ret p zeroed) :=
    alloc_goes hdebug hbin (upd_same ..) hr.locks hinner
  obtain ⟨τ₁, hreach, hid', hw⟩ := Goes.reaches (upd_same ..) SlabPc.noConfusion hgo
    (by rw [hr.heap] at hid; exact hid) (fun u hu => (upd_ne hu).trans (hr.idle u)) hstart
  -- and returns
  have hret : τ₁.step c t false =
      some ({ τ₁ with live := if p = 0 then τ₁.live else p :: τ₁.live }.goto t .idle) := by
    simp only [SlabSys.step, hw.at]
  refine ⟨_, hreach.next (.step t false τ₁.heap.answers) ⟨hid', fun bin r hfast => ?_⟩ hret, ?_⟩
  · exact absurd (hw.at.symm.trans hfast) SlabPc.noConfusion
  · refine ⟨congrArg (·.withAnswers σ'.heap.answers) hw.heap.symm, ?_, fun u => ?_, ?_⟩
    · show (if p = 0 then τ₁.live else p :: τ₁.live) = σ'.live.map Prod.fst
      rw [hlive, hw.live, show (τ.goto t (.enter bin)).live = σ.ptrs from hr.live]
      show _ = (addPtr p size σ.live).map Prod.fst
      unfold addPtr
      split <;> rfl
    · show upd τ₁.pcs t .idle u = .idle
      by_cases hu : u = t
      · rw [hu, upd_same]
      · rw [upd_ne hu, hw.pcs, upd_ne hu]
        exact (upd_ne hu).trans (hr.idle u)
    · show ∀ a, τ₁.locks a = none
      rw [hw.locks]
      exact hr.locks

theorem free_sim {ptr q : Nat} {ans : List (Option Nat)} (hid : HasId σ.heap t)
    (hlow : LowPtr σ.heap ptr) (hlegal : (SlabOp.free ptr).Legal σ.live) (hnodup : σ.ptrs.Nodup)
    (hpos : 0 ∉ σ.ptrs) (he : σ.slabCall c t (.free ptr) ans = .ok (q, σ')) :
    ∃ τ' : SlabSys n, Reaches (SlabSys.act c) Orderly τ₀ τ' ∧ Rests σ' τ' := by
  obtain ⟨hexec, hlive⟩ := Sys.slabCall_ok he
  obtain ⟨s₁, hfree, hexec⟩ := bind_eq_ok hexec
  cases hexec
  have hptrs : σ'.ptrs = σ.ptrs.erase ptr := by
    rw [hnodup.erase_eq_filter]
    show σ'.live.map Prod.fst = (σ.live.map Prod.fst).filter (· != ptr)
    rw [hlive, List.filter_map]
    rfl
  by_cases h0 : ptr = 0
  · -- nothing happens
    refine ⟨τ, h₀, ?_, ?_, hr.idle, hr.locks⟩
    · unfold slabFree at hfree
      rw [if_pos h0] at hfree
      rw [← Except.ok.inj hfree, hr.heap]
      rfl
    · rw [hptrs, h0, List.erase_of_not_mem hpos]
      exact hr.live
  · have hmem : ptr ∈ τ.live := by
      rw [hr.live]
      exact hlegal.resolve_left h0
    rw [hr.heap] at hfree hlow
    have hstart : Reaches (SlabSys.act c) Orderly τ₀
        ({ τ with live := τ.live.erase ptr }.goto t (.freeFind ptr)) :=
      h₀.next (.free t ptr) hlow (by simp only [SlabSys.act]; rw [if_pos ⟨hr.idle t, hmem⟩])
    have hgo : Goes c t ({ τ with live := τ.live.erase ptr }.goto t (.freeFind ptr) |>.onHeap
        (τ.heap.withAnswers ans)) σ'.heap τ.locks .idle :=
      free_goes hdebug h0 (upd_same ..) hfree
    obtain ⟨τ₁, hreach, -, hw⟩ := Goes.reaches (upd_same ..) SlabPc.noConfusion hgo
      (by rw [hr.heap] at hid; exact hid) (fun u hu => (upd_ne hu).trans (hr.idle u)) hstart
    refine ⟨τ₁, hreach, congrArg (·.withAnswers σ'.heap.answers) hw.heap.symm, ?_, fun u => ?_, ?_⟩
    · rw [hw.live, hptrs, ← hr.live]
      rfl
    · rw [hw.pcs]
      by_cases hu : u = t
      · rw [hu, upd_same]
      · rw [upd_ne hu]
        exact (upd_ne hu).trans (hr.idle u)
    · rw [hw.locks]
      exact hr.locks

end Calls

/-! ## Writes -/

/-- Clients that hold the slots write what they like into them, byte by byte. The induction is on
the addresses below which the memory has its new contents. -/
theorem writes_sim {τ₀ : SlabSys n} (h₀ : Reaches (SlabSys.act c) Orderly τ₀ τ) {m : Mem}
    (hm : ∀ y, m y ≠ τ.heap.mem y → ∃ r x i, x ∈ τ.live ∧ x ∈ τ.held r ∧
      i < (τ.heap.pages r).slotSize ∧ x + i = y) (k : Nat) :
    Reaches (SlabSys.act c) Orderly τ₀
      (τ.onHeap { τ.heap with mem := fun y => if y < k then m y else τ.heap.mem y }) := by
  induction k with
  | zero => exact h₀
  | succ k ih =>
    by_cases hk : m k = τ.heap.mem k
    · have : (fun y => if y < k + 1 then m y else τ.heap.mem y) =
          fun y => if y < k then m y else τ.heap.mem y := by
        funext y
        by_cases hy : y = k
        · rw [hy, if_pos (Nat.lt_succ_self k), if_neg (Nat.lt_irrefl k), hk]
        · simp only [Nat.lt_succ_iff_lt_or_eq, hy, or_false]
      rw [this]
      exact ih
    · obtain ⟨r, x, i, hlive, hheld, hi, hxi⟩ := hm k hk
      refine ih.next (.write r x i (m k)) trivial ?_
      have hguard : x ∈ τ.live ∧ x ∈ τ.held r ∧ i < (τ.heap.pages r).slotSize := ⟨hlive, hheld, hi⟩
      simp only [SlabSys.act, SlabSys.onHeap, if_pos hguard, hxi]
      have : upd (fun y => if y < k then m y else τ.heap.mem y) k (m k) =
          fun y => if y < k + 1 then m y else τ.heap.mem y := by
        funext y
        by_cases hy : y = k
        · rw [hy, upd_same, if_pos (Nat.lt_succ_self k)]
        · rw [upd_ne hy]
          simp only [Nat.lt_succ_iff_lt_or_eq, hy, or_false]
      rw [this]

/-- A byte that a client may write is one of a slot it holds. -/
theorem SlabInv.owns_slot {G : Ghost} (h : SlabInv c τ) (hr : Rests σ τ) (hσ : Holds c σ G)
    {y : Nat} (hy : σ.Owns y) :
    y < 2 ^ 64 ∧
      ∃ r x i, x ∈ τ.live ∧ x ∈ τ.held r ∧ i < (τ.heap.pages r).slotSize ∧ x + i = y := by
  obtain ⟨-, x, hx, hle, hlt⟩ := hy
  have hlive : x.1 ∈ τ.live := by
    rw [hr.live]
    exact List.mem_map_of_mem hx
  obtain ⟨r, hact, hheld⟩ := h.out x.1 hlive
  obtain ⟨h₁, h₂⟩ := h.heap.slot_range hact (h.out_slot ⟨hact, hheld⟩)
  have g := h.heap.geom hact
  have := g.slot_ge
  have := g.start_lt
  -- the whole calls agree that the block is the slot
  obtain ⟨k, hk, hblk⟩ := hσ.blk x hx
  have hblock : Block σ.heap x.1 (τ.heap.pages r).slotSize := by
    rw [hr.heap]
    exact .slab r hact.1 hact.2 h₁ (by omega)
  have heq := hσ.inv.block_eq hblk hblock
  have hin : y < x.1 + (τ.heap.pages r).slotSize := by
    rcases hlt with hlt | ⟨m, hm, hlt⟩
    · omega
    · have := hσ.inv.block_eq hblk hm
      omega
  exact ⟨by omega, r, x.1, y - x.1, hlive, hheld, by omega, by omega⟩

/-! ## Runs -/

/-- Whole calls, by any of `n` threads, and writes in between: wherever they lead, the steps of the
threads lead there too when the threads take turns, and in an orderly way. The heap is the same
but for the kernel's answers that are left over, the clients hold the same blocks, and no call is
under way. -/
theorem sequential_runs (hdebug : c.debug = false) (h : SlabReachable c (OneOf n) σ) :
    ∃ τ : SlabSys n, Reaches (SlabSys.act c) Orderly (SlabSys.initial c n) τ ∧
      σ.heap = τ.heap.withAnswers σ.heap.answers ∧ τ.live = σ.ptrs ∧ (∀ t, τ.pcs t = .idle) ∧
      ∀ a, τ.locks a = none := by
  suffices hsim : ∃ τ : SlabSys n, Reaches (SlabSys.act c) Orderly (SlabSys.initial c n) τ ∧
      Rests σ τ by
    obtain ⟨τ, hreach, hr⟩ := hsim
    exact ⟨τ, hreach, hr.heap, hr.live, hr.idle, hr.locks⟩
  induction h with
  | refl => exact ⟨_, .init, rfl, rfl, fun _ => rfl, fun _ => rfl⟩
  | @tail σ₁ σ₂ hrun hstep ih =>
    obtain ⟨τ, hreach, hr⟩ := ih
    have hinv := slabInv_of_reaches hreach
    obtain ⟨G, hσ⟩ := SlabReachable.holds (fun _ _ _ hP => hP.fits) hrun
    cases hstep with
    | call t op ans q hlow hlegal hP he =>
      obtain ⟨ht, hid, hsize⟩ := hP
      cases op with
      | alloc size => exact alloc_sim (t := ⟨t, ht⟩) hdebug hreach hr hid (hsize size rfl) he
      | free ptr =>
        refine free_sim (t := ⟨t, ht⟩) hdebug hreach hr hid hlow hlegal hσ.nodup (fun h0 => ?_) he
        rw [← hr.live] at h0
        obtain ⟨r, ho⟩ := hinv.out 0 h0
        exact isSlot_ne_zero (hinv.heap.geom ho.1) (hinv.out_slot ho) rfl
    | write m hm =>
      have hheap : ∀ y, m y ≠ τ.heap.mem y → m y ≠ σ₁.heap.mem y := by
        intro y hy
        rw [hr.heap]
        exact hy
      refine ⟨_, writes_sim hreach
        (fun y hy => (hinv.owns_slot hr hσ (hm y (hheap y hy))).2) (2 ^ 64), ?_, hr.live, hr.idle,
        hr.locks⟩
      have hmem : (fun y => if y < 2 ^ 64 then m y else τ.heap.mem y) = m := by
        funext y
        by_cases hy : m y = τ.heap.mem y
        · rw [← hy, ite_self]
        · exact if_pos (hinv.owns_slot hr hσ (hm y (hheap y hy))).1
      rw [hmem]
      show { σ₁.heap with mem := m } = _
      rw [hr.heap]
      rfl

/-- Thread 0 allocates a block and frees it. -/
theorem sequential_runs_free :
    ∃ τ : SlabSys 1, Reaches (SlabSys.act (.page4k false)) Orderly
      (SlabSys.initial (.page4k false) 1) τ ∧
      τ.live = ((((Sys.initial (.page4k false)).slabAfter (.page4k false) 0 (.alloc 16)
        [some 0x10000000, some 0x20000000]).slabAfter (.page4k false) 0
        (.free 0x20010000) []).ptrs) := by
  have halloc : SlabReachable (.page4k false) (OneOf 1)
      ((Sys.initial (.page4k false)).slabAfter (.page4k false) 0 (.alloc 16)
        [some 0x10000000, some 0x20000000]) :=
    SlabReachable.after .refl 0 (.alloc 16) _ trivial (by decide)
      ⟨by decide, fun _ => by decide, fun size he => by
        obtain rfl := SlabOp.alloc.inj he
        decide⟩
  have hfree := halloc.after 0 (.free 0x20010000) [] (fun _ _ _ _ => by decide) (by decide +kernel)
    ⟨by decide, fun hn => absurd hn (by decide +kernel), fun size he => SlabOp.noConfusion he⟩
  obtain ⟨τ, hreach, -, hlive, -⟩ := sequential_runs rfl hfree
  exact ⟨τ, hreach, hlive⟩

end CustomMalloc

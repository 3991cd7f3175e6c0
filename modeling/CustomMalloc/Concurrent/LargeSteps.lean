import CustomMalloc.Concurrent.LargeInv
import CustomMalloc.Inv.Os

/-!
# Every step of a large call keeps the invariant

There are four kinds of steps: those that change nothing but a counter or the lock, those that write
a link of a header, the two writes to `large_list` that put a header into the list or take it out,
and those that map and unmap a block. `LargeInv.step` puts them together.
-/

namespace CustomMalloc

open Lib.Words Lib.Chain Lib.Regions Lib.Intervals Lib.Hands Lib.Ledger

variable {c : Cfg} {n : Nat} {σ σ' : LargeSys n} {t : Fin n} {pc pc' : LargePc} {b : Nat}
  {la : LargeAlloc}

/-! ## Threads and the lock -/

theorem holder_of_lock (h : σ.lock = some t) : σ.holder = σ.pcs t := by
  rw [LargeSys.holder, h]
  rfl

theorem holder_of_free (h : σ.lock = none) : σ.holder = .idle := by
  rw [LargeSys.holder, h]
  rfl

theorem hand_upd (hpcs : σ'.pcs = upd σ.pcs t pc') : σ'.hand t = pc'.hand := by
  rw [LargeSys.hand, hpcs, upd_same]

theorem hand_upd_ne (hpcs : σ'.pcs = upd σ.pcs t pc') (j : Fin n) (hj : j ≠ t) :
    σ'.hand j = σ.hand j := by
  rw [LargeSys.hand, hpcs, upd_ne hj]
  rfl

/-- The hand of `t` does not change. -/
theorem hand_same (hpcs : σ'.pcs = upd σ.pcs t pc') (hhand : pc'.hand = σ.hand t) :
    σ'.hand = σ.hand := by
  funext j
  by_cases hj : j = t
  · rw [hj, hand_upd hpcs, hhand]
  · exact hand_upd_ne hpcs j hj

/-- How a step moves the lock. -/
inductive LockMove (σ σ' : LargeSys n) (t : Fin n) (pc pc' : LargePc) : Prop
  | stays (hlock : σ'.lock = σ.lock) (hin : pc'.inside = pc.inside)
  | acquires (hfree : σ.lock = none) (hlock : σ'.lock = some t) (hin : pc'.inside = true)
  | releases (hhad : pc.inside = true) (hlock : σ'.lock = none) (hin : pc'.inside = false)

theorem LockMove.locked (hm : LockMove σ σ' t pc pc') (h : LargeInv c σ) (hpc : σ.pcs t = pc)
    (hpcs : σ'.pcs = upd σ.pcs t pc') (j : Fin n) :
    (σ'.pcs j).inside = true ↔ σ'.lock = some j := by
  rw [hpcs]
  have hj := h.locked j
  cases hm with
  | stays hlock hin =>
    rw [hlock]
    by_cases hjt : j = t
    · subst hjt
      rw [upd_same, hin, ← hpc]
      exact hj
    · rwa [upd_ne hjt]
  | acquires hfree hlock hin =>
    rw [hlock]
    rw [hfree] at hj
    by_cases hjt : j = t
    · subst hjt
      simp [hin]
    · rw [upd_ne hjt, hj]
      simp [Ne.symm hjt]
  | releases hhad hlock hin =>
    rw [hlock]
    rw [(h.locked t).mp (hpc ▸ hhad)] at hj
    by_cases hjt : j = t
    · subst hjt
      simp [hin]
    · rw [upd_ne hjt, hj]
      simp [Ne.symm hjt]

/-- What the list looks like after the step: it is enough to look at `t`, unless `t` is outside. -/
theorem LockMove.listAt (hm : LockMove σ σ' t pc pc') (h : LargeInv c σ) (hpc : σ.pcs t = pc)
    (hpcs : σ'.pcs = upd σ.pcs t pc') {larges : Nat → Option LargeAlloc} {head : Option Nat}
    {nodes : List Nat} (hin : pc.inside = true ∨ pc'.inside = true →
      ListAt larges head nodes pc' ∧ (pc'.inside = false → Whole larges head nodes))
    (hout : pc.inside = false → ListAt larges head nodes σ.holder) :
    ListAt larges head nodes σ'.holder := by
  have hpc' : σ'.pcs t = pc' := by rw [hpcs, upd_same]
  cases hm with
  | stays hlock hsame =>
    cases hi : pc'.inside with
    | true =>
      have hl := (h.locked t).mp (hpc ▸ hsame.symm.trans hi)
      rw [holder_of_lock (hlock.trans hl), hpc']
      exact (hin (Or.inr hi)).1
    | false =>
      have hi' := hsame.symm.trans hi
      have hholder : σ'.holder = σ.holder := by
        unfold LargeSys.holder
        rw [hlock]
        cases hl : σ.lock with
        | none => rfl
        | some j =>
          have hjt : j ≠ t := by
            rintro rfl
            rw [← hpc, (h.locked j).mpr hl] at hi'
            cases hi'
          simp only [Option.map_some, Option.getD_some, hpcs, upd_ne hjt]
      rw [hholder]
      exact hout hi'
  | acquires hfree hlock hi =>
    rw [holder_of_lock hlock, hpc']
    exact (hin (Or.inr hi)).1
  | releases hhad hlock hi =>
    rw [holder_of_free hlock]
    exact (hin (Or.inl hhad)).2 hi

/-- The list is whole when nobody holds the lock. -/
theorem LargeInv.whole (h : LargeInv c σ) (hfree : σ.lock = none) :
    Whole σ.heap.larges σ.heap.largeList σ.nodes := by
  have := h.list
  rwa [holder_of_free hfree] at this

/-- Where the list stands for a thread inside. -/
theorem LargeInv.listAt (h : LargeInv c σ) (hpc : σ.pcs t = pc) (hin : pc.inside = true) :
    ListAt σ.heap.larges σ.heap.largeList σ.nodes pc := by
  have := h.list
  rwa [holder_of_lock ((h.locked t).mp (hpc ▸ hin)), hpc] at this

theorem LargeInv.knowsAt (h : LargeInv c σ) (hpc : σ.pcs t = pc) : LargeKnows c σ.heap.larges pc :=
  hpc ▸ h.knows t

theorem handAt (hpc : σ.pcs t = pc) : σ.hand t = pc.hand := by rw [LargeSys.hand, hpc]

/-! ## The counters -/

/-- **Step lemma** of the counters: it is enough to look at `t`. -/
theorem LargeSys.Booked.step (h : σ.Booked) (hpc : σ.pcs t = pc) (hpcs : σ'.pcs = upd σ.pcs t pc')
    (hother : ∀ j, j ≠ t →
      (σ.pcs j).bytesMinus σ'.heap.larges = (σ.pcs j).bytesMinus σ.heap.larges)
    (hcount : σ'.heap.largeAllocCount + pc'.countPlus + (σ.nodes.length + pc.countMinus) ≡
      σ.heap.largeAllocCount + pc.countPlus + (σ'.nodes.length + pc'.countMinus) [MOD 2 ^ 64])
    (hbytes : σ'.heap.largeAllocated + pc'.bytesPlus +
        (listBytes σ.heap.larges σ.nodes + pc.bytesMinus σ.heap.larges) ≡
      σ.heap.largeAllocated + pc.bytesPlus +
        (listBytes σ'.heap.larges σ'.nodes + pc'.bytesMinus σ'.heap.larges) [MOD 2 ^ 64]) :
    σ'.Booked := by
  have hpc' : σ'.pcs t = pc' := by rw [hpcs, upd_same]
  have hne : ∀ j, j ≠ t → σ'.pcs j = σ.pcs j := fun j hj => by rw [hpcs, upd_ne hj]
  refine ⟨h.count.step (i := t) (fun j hj => by rw [hne j hj]) (fun j hj => by rw [hne j hj]) ?_,
    h.bytes.step (i := t) (fun j hj => by rw [hne j hj])
      (fun j hj => by rw [hne j hj, hother j hj]) ?_⟩
  · rw [hpc', hpc]
    exact hcount
  · rw [hpc', hpc]
    exact hbytes

/-- The same entries are still to be made. -/
structure SameEntries (larges : Nat → Option LargeAlloc) (pc pc' : LargePc) : Prop where
  countPlus : pc'.countPlus = pc.countPlus
  countMinus : pc'.countMinus = pc.countMinus
  bytesPlus : pc'.bytesPlus = pc.bytesPlus
  bytesMinus : pc'.bytesMinus larges = pc.bytesMinus larges

/-! ## Steps that change no header -/

/-- A step that changes at most the lock and a counter. -/
theorem LargeInv.quiet (h : LargeInv c σ) (hpc : σ.pcs t = pc) (hpcs : σ'.pcs = upd σ.pcs t pc')
    (hlarges : σ'.heap.larges = σ.heap.larges) (hmapped : σ'.heap.mapped = σ.heap.mapped)
    (hhead : σ'.heap.largeList = σ.heap.largeList) (hnodes : σ'.nodes = σ.nodes)
    (hm : LockMove σ σ' t pc pc') (hhand : pc'.hand = pc.hand)
    (hknows : LargeKnows c σ.heap.larges pc')
    (hin : pc.inside = true ∨ pc'.inside = true →
      ListAt σ.heap.larges σ.heap.largeList σ.nodes pc' ∧
        (pc'.inside = false → Whole σ.heap.larges σ.heap.largeList σ.nodes))
    (hbooked : σ'.Booked) : LargeInv c σ' := by
  have hhands := hand_same hpcs (hhand.trans (handAt hpc).symm)
  refine ⟨hlarges ▸ h.headers, by rw [hlarges, hmapped]; exact h.layout,
    by rw [hnodes, hhands]; exact h.holders,
    fun b => by rw [hlarges, hnodes, hhands]; exact h.known b,
    hm.locked h hpc hpcs, fun j => ?_, ?_, hbooked⟩
  · rw [hlarges, hpcs]
    by_cases hj : j = t
    · rw [hj, upd_same]
      exact hknows
    · rw [upd_ne hj]
      exact h.knows j
  · rw [hlarges, hhead, hnodes]
    exact hm.listAt h hpc hpcs hin fun _ => h.list

/-- A step that changes at most the lock. -/
theorem LargeInv.moves (h : LargeInv c σ) (hpc : σ.pcs t = pc) (hpcs : σ'.pcs = upd σ.pcs t pc')
    (hheap : σ'.heap = σ.heap) (hnodes : σ'.nodes = σ.nodes) (hm : LockMove σ σ' t pc pc')
    (hhand : pc'.hand = pc.hand) (hknows : LargeKnows c σ.heap.larges pc')
    (hin : pc.inside = true ∨ pc'.inside = true →
      ListAt σ.heap.larges σ.heap.largeList σ.nodes pc' ∧
        (pc'.inside = false → Whole σ.heap.larges σ.heap.largeList σ.nodes))
    (he : SameEntries σ.heap.larges pc pc') : LargeInv c σ' := by
  refine h.quiet hpc hpcs (by rw [hheap]) (by rw [hheap]) (by rw [hheap]) hnodes hm hhand hknows
    hin ?_
  refine h.booked.step hpc hpcs (fun j _ => by rw [hheap]) ?_ ?_
  · rw [hheap, hnodes, he.countPlus, he.countMinus]
  · rw [hheap, hnodes, he.bytesPlus, he.bytesMinus]

/-- A thread goes on outside of the lock. -/
theorem LargeInv.outside (h : LargeInv c σ) (hpc : σ.pcs t = pc) (hout : pc.inside = false)
    (hout' : pc'.inside = false) (hhand : pc'.hand = pc.hand)
    (hknows : LargeKnows c σ.heap.larges pc')
    (he : SameEntries σ.heap.larges pc pc') : LargeInv c (σ.goto t pc') := by
  refine h.moves hpc rfl rfl rfl (.stays rfl (hout'.trans hout.symm)) hhand hknows (fun hc => ?_) he
  rw [hout, hout'] at hc
  exact absurd hc (by simp)

/-- The holder of the lock goes on. -/
theorem LargeInv.inside (h : LargeInv c σ) (hpc : σ.pcs t = pc) (hin : pc.inside = true)
    (hin' : pc'.inside = true) (hhand : pc'.hand = pc.hand)
    (hknows : LargeKnows c σ.heap.larges pc')
    (hlist : ListAt σ.heap.larges σ.heap.largeList σ.nodes pc')
    (he : SameEntries σ.heap.larges pc pc') : LargeInv c (σ.goto t pc') := by
  refine h.moves hpc rfl rfl rfl (.stays rfl (hin'.trans hin.symm)) hhand hknows
    (fun _ => ⟨hlist, fun hc => ?_⟩) he
  rw [hin'] at hc
  cases hc

/-- `pthread_mutex_lock`. -/
theorem LargeInv.acquire (h : LargeInv c σ) (hpc : σ.pcs t = pc) (hlocks : σ.locks t pc' = some σ')
    (hin' : pc'.inside = true) (hhand : pc'.hand = pc.hand)
    (hknows : LargeKnows c σ.heap.larges pc')
    (hlist : Whole σ.heap.larges σ.heap.largeList σ.nodes →
      ListAt σ.heap.larges σ.heap.largeList σ.nodes pc')
    (he : SameEntries σ.heap.larges pc pc') : LargeInv c σ' := by
  unfold LargeSys.locks at hlocks
  split at hlocks
  next hfree =>
    cases hlocks
    refine h.moves hpc rfl rfl rfl (.acquires hfree rfl hin') hhand hknows
      (fun _ => ⟨hlist (h.whole hfree), fun hc => ?_⟩) he
    rw [hin'] at hc
    cases hc
  next => cases hlocks

/-- `pthread_mutex_unlock`. -/
theorem LargeInv.release (h : LargeInv c σ) (hpc : σ.pcs t = pc) (hin : pc.inside = true)
    (hout' : pc'.inside = false) (hhand : pc'.hand = pc.hand)
    (hknows : LargeKnows c σ.heap.larges pc')
    (hlist : ListAt σ.heap.larges σ.heap.largeList σ.nodes pc')
    (hwhole : Whole σ.heap.larges σ.heap.largeList σ.nodes)
    (he : SameEntries σ.heap.larges pc pc') : LargeInv c (σ.unlocks t pc') :=
  h.moves hpc rfl rfl rfl (.releases hin rfl hout') hhand hknows
    (fun _ => ⟨hlist, fun _ => hwhole⟩) he

/-- A counter changes. -/
theorem LargeInv.counts (h : LargeInv c σ) (hpc : σ.pcs t = pc) (pc' : LargePc) (count bytes : Nat)
    (hout : pc.inside = false) (hout' : pc'.inside = false) (hhand : pc'.hand = pc.hand)
    (hknows : LargeKnows c σ.heap.larges pc')
    (hcount : count + pc'.countPlus + pc.countMinus ≡
      σ.heap.largeAllocCount + pc.countPlus + pc'.countMinus [MOD 2 ^ 64])
    (hbytes : bytes + pc'.bytesPlus + pc.bytesMinus σ.heap.larges ≡
      σ.heap.largeAllocated + pc.bytesPlus + pc'.bytesMinus σ.heap.larges [MOD 2 ^ 64]) :
    LargeInv c ((σ.onHeap { σ.heap with largeAllocCount := count, largeAllocated := bytes }).goto t
      pc') := by
  refine h.quiet hpc rfl rfl rfl rfl rfl (.stays rfl (hout'.trans hout.symm)) hhand hknows
    (fun hc => ?_) (h.booked.step hpc rfl (fun _ _ => rfl) ?_ ?_)
  · rw [hout, hout'] at hc
    exact absurd hc (by simp)
  · have := hcount.add_right σ.nodes.length
    convert this using 1 <;> simp only [LargeSys.goto, LargeSys.onHeap] <;> omega
  · have := hbytes.add_right (listBytes σ.heap.larges σ.nodes)
    convert this using 1 <;> simp only [LargeSys.goto, LargeSys.onHeap] <;> omega

/-! ## Writes to links -/

/-- The holder of the lock writes a link. -/
theorem LargeInv.relinks (h : LargeInv c σ) (hpc : σ.pcs t = pc)
    {larges : Nat → Option LargeAlloc} (hr : Relinked σ.heap.larges larges) (hin : pc.inside = true)
    (hin' : pc'.inside = true) (hhand : pc'.hand = pc.hand)
    (hknows : LargeKnows c σ.heap.larges pc')
    (hlist : ListAt larges σ.heap.largeList σ.nodes pc')
    (he : SameEntries σ.heap.larges pc pc') :
    LargeInv c ((σ.onHeap { σ.heap with larges := larges }).goto t pc') := by
  have hhands : ((σ.onHeap { σ.heap with larges := larges }).goto t pc').hand = σ.hand :=
    hand_same rfl (hhand.trans (handAt hpc).symm)
  have hm : LockMove σ ((σ.onHeap { σ.heap with larges := larges }).goto t pc') t pc pc' :=
    .stays rfl (hin'.trans hin.symm)
  refine ⟨h.headers.relinked hr, h.layout.mono (fun _ _ hx => hr.inMapping hx) fun _ hx => hx,
    by rw [hhands]; exact h.holders, fun b => ?_, hm.locked h hpc rfl, fun j => ?_,
    hm.listAt h hpc rfl (fun _ => ⟨hlist, fun hc => ?_⟩) fun hc => ?_, ?_⟩
  · rw [hhands]
    show (larges b).isSome = true ↔ Somewhere σ.nodes σ.hand b
    rw [hr.isSome b]
    exact h.known b
  · refine LargeKnows.relinked ?_ hr
    by_cases hj : j = t
    · simp only [LargeSys.goto, hj, upd_same]
      exact hknows
    · simp only [LargeSys.goto, upd_ne hj]
      exact h.knows j
  · rw [hin'] at hc
    cases hc
  · rw [hin] at hc
    cases hc
  · have hpcs : ((σ.onHeap { σ.heap with larges := larges }).goto t pc').pcs =
        upd σ.pcs t pc' := rfl
    refine h.booked.step hpc hpcs (fun j _ => bytesMinus_relinked hr) ?_ ?_
    · rw [he.countPlus, he.countMinus]
      rfl
    · show _ ≡ _ + _ + (listBytes larges σ.nodes + pc'.bytesMinus larges) [MOD 2 ^ 64]
      rw [listBytes_relinked hr, bytesMinus_relinked hr, he.bytesPlus, he.bytesMinus]
      rfl

/-! ## Writes to the head of the list -/

/-- `g_state.large_list = la`: the header goes from the thread's hand into the list. -/
theorem LargeInv.setHead (h : LargeInv c σ) {k : NewLarge} (hpc : σ.pcs t = .setHead k) :
    LargeInv c ({ σ.onHeap { σ.heap with largeList := some k.base } with
      nodes := k.base :: σ.nodes }.goto t (.unlock k)) := by
  have hlist := h.listAt hpc rfl
  have hk := h.knowsAt hpc
  have hhand : σ.hand t = some k.base := handAt hpc
  generalize hσ : ({ σ.onHeap { σ.heap with largeList := some k.base } with
    nodes := k.base :: σ.nodes }.goto t (.unlock k) : LargeSys n) = σ'
  have hpcs : σ'.pcs = upd σ.pcs t (.unlock k) := by rw [← hσ]; rfl
  have hm : LockMove σ σ' t (.setHead k) (.unlock k) := .stays (by rw [← hσ]; rfl) rfl
  have hrest : ∀ j, j ≠ t → σ'.hand j = σ.hand j := hand_upd_ne hpcs
  have hnone : σ'.hand t = none := hand_upd hpcs
  have hlarges : σ'.heap.larges = σ.heap.larges := by rw [← hσ]; rfl
  have hnodes : σ'.nodes = k.base :: σ.nodes := by rw [← hσ]; rfl
  have hhead : σ'.heap.largeList = some k.base := by rw [← hσ]; rfl
  have hmapped : σ'.heap.mapped = σ.heap.mapped := by rw [← hσ]; rfl
  refine ⟨hlarges ▸ h.headers, by rw [hlarges, hmapped]; exact h.layout,
    by rw [hnodes]; exact h.holders.put hhand hnone hrest, fun b => ?_,
    hm.locked h hpc hpcs, fun j => ?_, ?_,
    h.booked.step hpc hpcs (fun j _ => by rw [hlarges]) ?_ ?_⟩
  · rw [hlarges, hnodes, somewhere_put hrest hhand hnone]
    exact h.known b
  · rw [hlarges, hpcs]
    by_cases hj : j = t
    · rw [hj, upd_same]
      trivial
    · rw [upd_ne hj]
      exact h.knows j
  · rw [hlarges, hhead, hnodes]
    exact hm.listAt h hpc hpcs (fun _ => ⟨hlist.done, fun _ => hlist.done⟩)
      fun hc => absurd hc (by simp [LargePc.inside])
  · rw [hnodes, ← hσ]
    simp only [LargePc.countPlus, LargePc.countMinus, List.length_cons]
    exact congrArg (· % 2 ^ 64) (by simp only [LargeSys.goto, LargeSys.onHeap]; omega)
  · rw [hlarges, hnodes, ← hσ]
    simp only [LargePc.bytesPlus, LargePc.bytesMinus, listBytes, List.map_cons, List.sum_cons,
      hk.2.2]
    exact congrArg (· % 2 ^ 64) (by simp only [LargeSys.goto, LargeSys.onHeap]; omega)

/-- `if (g_state.large_list == la) g_state.large_list = la->next`: the header goes from the list
into the thread's hand. -/
theorem LargeInv.unHead (h : LargeInv c σ) {x b : Nat} {la : LargeAlloc}
    (hpc : σ.pcs t = .unHead x b)
    (hb : σ.heap.larges b = some la) :
    LargeInv c ({ σ.onHeap { σ.heap with
      largeList := if σ.heap.largeList = some b then la.next else σ.heap.largeList } with
        nodes := σ.nodes.erase b }.goto t (.sizes b)) := by
  have hlist := h.listAt hpc rfl
  have hmem : b ∈ σ.nodes := hlist.1.mem
  have hnone : σ.hand t = none := handAt hpc
  generalize hσ : ({ σ.onHeap { σ.heap with
    largeList := if σ.heap.largeList = some b then la.next else σ.heap.largeList } with
      nodes := σ.nodes.erase b }.goto t (.sizes b) : LargeSys n) = σ'
  have hpcs : σ'.pcs = upd σ.pcs t (.sizes b) := by rw [← hσ]; rfl
  have hm : LockMove σ σ' t (.unHead x b) (.sizes b) := .stays (by rw [← hσ]; rfl) rfl
  have hrest : ∀ j, j ≠ t → σ'.hand j = σ.hand j := hand_upd_ne hpcs
  have hhand : σ'.hand t = some b := hand_upd hpcs
  have hlarges : σ'.heap.larges = σ.heap.larges := by rw [← hσ]; rfl
  have hnodes : σ'.nodes = σ.nodes.erase b := by rw [← hσ]; rfl
  have hhead : σ'.heap.largeList =
      if σ.heap.largeList = some b then la.next else σ.heap.largeList := by rw [← hσ]; rfl
  have hmapped : σ'.heap.mapped = σ.heap.mapped := by rw [← hσ]; rfl
  have hwhole : Whole σ.heap.larges
      (if σ.heap.largeList = some b then la.next else σ.heap.largeList) (σ.nodes.erase b) := by
    rw [← nextIn_of_some hb]
    exact hlist.1.done
  refine ⟨hlarges ▸ h.headers, by rw [hlarges, hmapped]; exact h.layout,
    by rw [hnodes]; exact h.holders.pick hmem hhand hrest, fun y => ?_,
    hm.locked h hpc hpcs, fun j => ?_, ?_,
    h.booked.step hpc hpcs (fun j _ => by rw [hlarges]) ?_ ?_⟩
  · rw [hlarges, hnodes, somewhere_pick hrest h.holders hmem hnone hhand]
    exact h.known y
  · rw [hlarges, hpcs]
    by_cases hj : j = t
    · rw [hj, upd_same]
      trivial
    · rw [upd_ne hj]
      exact h.knows j
  · rw [hlarges, hhead, hnodes]
    exact hm.listAt h hpc hpcs (fun _ => ⟨hwhole, fun _ => hwhole⟩)
      fun hc => absurd hc (by simp [LargePc.inside])
  · have hpos := List.length_pos_of_mem hmem
    rw [hnodes, List.length_erase_of_mem hmem, ← hσ]
    simp only [LargePc.countPlus, LargePc.countMinus]
    exact congrArg (· % 2 ^ 64) (by simp only [LargeSys.goto, LargeSys.onHeap]; omega)
  · have hsum := List.sum_map_erase (fieldAt LargeAlloc.userSize σ.heap.larges) hmem
    rw [hlarges, hnodes, ← hσ]
    simp only [LargePc.bytesPlus, LargePc.bytesMinus, listBytes]
    exact congrArg (· % 2 ^ 64) (by simp only [LargeSys.goto, LargeSys.onHeap]; omega)

/-! ## Blocks that come and go -/

/-- A thread outside of the lock changes headers that nobody else sees. -/
theorem LargeInv.privately (h : LargeInv c σ) (hpc : σ.pcs t = pc) (hpcs : σ'.pcs = upd σ.pcs t pc')
    (hnodes : σ'.nodes = σ.nodes) (hhead : σ'.heap.largeList = σ.heap.largeList)
    (hlock : σ'.lock = σ.lock) (hout : pc.inside = false) (hout' : pc'.inside = false)
    (hsame : ∀ y, y ∈ σ.nodes ∨ (∃ j, j ≠ t ∧ σ.hand j = some y) →
      σ'.heap.larges y = σ.heap.larges y)
    (hheaders : HeadersOk c σ'.heap.larges)
    (hlayout : Layout (Covers σ'.heap.mapped) (InMapping σ'.heap.larges))
    (hholders : OneHolder σ'.nodes σ'.hand)
    (hknown : ∀ b, (σ'.heap.larges b).isSome = true ↔ Somewhere σ'.nodes σ'.hand b)
    (hknows : LargeKnows c σ'.heap.larges pc')
    (hcounters : σ'.heap.largeAllocCount = σ.heap.largeAllocCount ∧
      σ'.heap.largeAllocated = σ.heap.largeAllocated)
    (hpend : pc.countPlus = 0 ∧ pc.countMinus = 0 ∧ pc.bytesPlus = 0 ∧
      pc.bytesMinus σ.heap.larges = 0)
    (hpend' : pc'.countPlus = 0 ∧ pc'.countMinus = 0 ∧ pc'.bytesPlus = 0 ∧
      pc'.bytesMinus σ'.heap.larges = 0) : LargeInv c σ' := by
  have hm : LockMove σ σ' t pc pc' := .stays hlock (hout'.trans hout.symm)
  have hother : ∀ j, j ≠ t → ∀ b, (σ.pcs j).hand = some b → σ'.heap.larges b = σ.heap.larges b :=
    fun j hj b hb => hsame b (Or.inr ⟨j, hj, hb⟩)
  have hin : ∀ y ∈ σ.nodes, σ'.heap.larges y = σ.heap.larges y := fun y hy => hsame y (Or.inl hy)
  refine ⟨hheaders, hlayout, hholders, hknown, hm.locked h hpc hpcs, fun j => ?_, ?_,
    h.booked.step hpc hpcs (fun j hj => bytesMinus_frame (hother j hj)) ?_ ?_⟩
  · rw [hpcs]
    by_cases hj : j = t
    · rw [hj, upd_same]
      exact hknows
    · rw [upd_ne hj]
      exact (h.knows j).frame (hother j hj)
  · rw [hhead, hnodes]
    refine hm.listAt h hpc hpcs (fun hc => ?_) fun _ => h.list.frame hin fun b hb => ?_
    · rw [hout, hout'] at hc
      exact absurd hc (by simp)
    · -- the holder of the lock is another thread
      unfold LargeSys.holder at hb
      cases hl : σ.lock with
      | none =>
        rw [hl] at hb
        exact absurd hb (by simp [LargePc.hand])
      | some j =>
        rw [hl] at hb
        have hj : j ≠ t := by
          rintro rfl
          rw [← hpc, (h.locked j).mpr hl] at hout
          cases hout
        exact hother j hj b hb
  · rw [hcounters.1, hnodes, hpend.1, hpend.2.1, hpend'.1, hpend'.2.1]
  · rw [hcounters.2, hnodes, hpend.2.2.1, hpend.2.2.2, hpend'.2.2.1, hpend'.2.2.2,
      listBytes_frame hin]

/-- What `os_mmap_aligned` is asked for is a whole number of pages, and no sum wraps. -/
theorem LargeNoWrap.aligned {size alignment : Nat} (hfit : LargeNoWrap c size alignment) :
    c.osPage ∣ largeTotal c size (raisedAlign alignment) ∧
      AlignedFits c (largeTotal c size (raisedAlign alignment))
        (if raisedAlign alignment < c.osPage then c.osPage else raisedAlign alignment) := by
  have hdvd : c.osPage ∣ largeTotal c size (raisedAlign alignment) := by
    rw [hfit.total]
    exact dvd_alignUp _ _
  refine ⟨hdvd, fun hgt => ⟨hdvd, ?_⟩⟩
  split at hgt
  next => exact absurd hgt (Nat.lt_irrefl _)
  next hge =>
    rw [if_neg hge]
    exact hfit.2.2 hgt

section Mapping

variable {s s₁ : State} {size alignment base : Nat} (hfit : LargeNoWrap c size alignment)
  (hm : osMmapAligned c s (largeTotal c size (raisedAlign alignment))
    (if raisedAlign alignment < c.osPage then c.osPage else raisedAlign alignment) = (base, s₁))

include hfit hm

theorem newLarge_ext : OsExt s s₁ := by
  rcases osMmapAligned_any hfit.aligned.2 hm with ⟨-, rest, rfl⟩ | hg
  · exact OsExt.answers s rest
  · exact hg.ext

/-- A fresh mapping with its header. -/
theorem newLarge_header (h0 : base ≠ 0) :
    FreshRegion s s₁ base (largeTotal c size (raisedAlign alignment)) ∧
      HeaderOk c base (NewLarge.header c ⟨base, size, alignment⟩) ∧
      NewLarge.Placed ⟨base, size, alignment⟩ := by
  have hhead := hfit.header
  have hle : headerSpace (raisedAlign alignment) + size ≤
      largeTotal c size (raisedAlign alignment) := by
    rw [hfit.total]
    exact le_alignUp c.osPage_pos _
  rcases osMmapAligned_any hfit.aligned.2 hm with ⟨rfl, -⟩ | hg
  · exact absurd rfl h0
  · have hstop := hg.fresh.fits
    refine ⟨hg.fresh, ⟨rfl, Nat.pos_of_ne_zero h0, hg.page, hfit.aligned.1, hstop, ?_⟩,
      Nat.pos_of_ne_zero h0, Nat.mod_eq_of_lt ?_⟩
    · show 48 + size ≤ largeTotal c size (raisedAlign alignment)
      omega
    · show base + headerSpace (raisedAlign alignment) < 2 ^ 64
      omega

end Mapping

/-- No header lies in memory that was not mapped. -/
theorem LargeInv.fresh (h : LargeInv c σ) {s₁ : State} {base size : Nat} (hsize : 0 < size)
    (hf : FreshRegion σ.heap s₁ base size) : σ.heap.larges base = none := by
  by_contra hc
  obtain ⟨y, hy⟩ := Option.ne_none_iff_exists'.mp hc
  have hfits := (h.headers base y hy).fits
  exact hf.fresh base (by omega) (by omega)
    (h.layout.backed (i := base) ⟨y, hy, by omega, by omega⟩)

/-- `os_mmap_aligned` gave a mapping. -/
theorem LargeInv.mapped (h : LargeInv c σ) {size alignment base : Nat} {s₁ : State}
    (hpc : σ.pcs t = .map size alignment)
    (hm : osMmapAligned c σ.heap (largeTotal c size (raisedAlign alignment))
      (if raisedAlign alignment < c.osPage then c.osPage else raisedAlign alignment) = (base, s₁))
    (h0 : base ≠ 0) :
    LargeInv c ((σ.onHeap { s₁ with
      larges := upd s₁.larges base (some (NewLarge.header c ⟨base, size, alignment⟩)) }).goto t
        (.lock ⟨base, size, alignment⟩)) := by
  have hos := newLarge_ext (h.knowsAt hpc) hm
  obtain ⟨hf, hok, hplaced⟩ := newLarge_header (h.knowsAt hpc) hm h0
  obtain ⟨hlarges, hlist, hbytes, hcount⟩ := hos.headers
  have htotal : 0 < largeTotal c size (raisedAlign alignment) := by
    have : 48 + size ≤ largeTotal c size (raisedAlign alignment) := hok.fits
    omega
  have hnone := h.fresh htotal hf
  have hnowhere : ¬ Somewhere σ.nodes σ.hand base := by
    rw [← h.known base, hnone]
    simp
  have hhand : σ.hand t = none := handAt hpc
  generalize hσ : ((σ.onHeap { s₁ with
    larges := upd s₁.larges base (some (NewLarge.header c ⟨base, size, alignment⟩)) }).goto t
      (.lock ⟨base, size, alignment⟩) : LargeSys n) = σ'
  have hpcs : σ'.pcs = upd σ.pcs t (.lock ⟨base, size, alignment⟩) := by rw [← hσ]; rfl
  have hrest : ∀ j, j ≠ t → σ'.hand j = σ.hand j := hand_upd_ne hpcs
  have hhand' : σ'.hand t = some base := hand_upd hpcs
  have hnew : σ'.heap.larges =
      upd σ.heap.larges base (some (NewLarge.header c ⟨base, size, alignment⟩)) := by
    rw [← hσ, ← hlarges]
    rfl
  have hnodes : σ'.nodes = σ.nodes := by rw [← hσ]; rfl
  have hmapped : σ'.heap.mapped = s₁.mapped := by rw [← hσ]; rfl
  have hself : σ'.heap.larges base = some (NewLarge.header c ⟨base, size, alignment⟩) := by
    rw [hnew, upd_same]
  refine h.privately hpc hpcs hnodes (by rw [← hσ]; exact hlist) (by rw [← hσ]; rfl) rfl rfl
    (fun y hy => ?_) (fun y la hy => ?_) ?_ ?_ (fun y => ?_) ?_
    (by rw [← hσ]; exact ⟨hcount, hbytes⟩)
    ⟨rfl, rfl, rfl, rfl⟩ ⟨rfl, rfl, rfl, rfl⟩
  · have hne : y ≠ base := by
      rintro rfl
      exact hnowhere (hy.imp id fun ⟨j, _, hj⟩ => ⟨j, hj⟩)
    rw [hnew, upd_ne hne]
  · rw [hnew] at hy
    by_cases hyb : y = base
    · subst hyb
      rw [upd_same] at hy
      cases hy
      exact hok
    · rw [upd_ne hyb] at hy
      exact h.headers y la hy
  · rw [hmapped]
    refine hos.layout (k := base) hf h.layout fun y x hx => ?_
    obtain ⟨la, hla, hx⟩ := hx
    by_cases hyb : y = base
    · subst hyb
      cases hself.symm.trans hla
      exact Or.inr ⟨rfl, hx⟩
    · rw [hnew, upd_ne hyb] at hla
      exact Or.inl ⟨la, hla, hx⟩
  · rw [hnodes]
    exact h.holders.bring hnowhere hhand' hrest
  · rw [hnodes, somewhere_bring hrest hhand hhand', ← h.known y, hnew]
    by_cases hyb : y = base
    · simp [hyb]
    · simp [hyb]
  · exact ⟨hplaced, fieldAt_of_some hself, fieldAt_of_some hself⟩

/-- `os_munmap(la->base, mmap_size)`. -/
theorem LargeInv.unmap (h : LargeInv c σ) {b total : Nat} {la : LargeAlloc}
    (hpc : σ.pcs t = .unmap b total) (hb : σ.heap.larges b = some la) :
    LargeInv c ((σ.onHeap { osMunmap c σ.heap la.base total with
      larges := upd (osMunmap c σ.heap la.base total).larges b none }).goto t .freed) := by
  have hok := h.headers b la hb
  have hhand : σ.hand t = some b := handAt hpc
  have htotal : la.size = total := (fieldAt_of_some hb).symm.trans (h.knowsAt hpc)
  have hmunmap : osMunmap c σ.heap la.base total = { σ.heap with
      mapped := unmapRange c σ.heap.mapped b la.size
      mmapBytes := (σ.heap.mmapBytes + 2 ^ 64 - la.size) % 2 ^ 64 } := by
    have hpos := hok.pos
    have hfits := hok.fits
    unfold osMunmap
    rw [← htotal, hok.base, if_pos ⟨by omega, by omega⟩]
    rfl
  rw [hmunmap]
  generalize hσ : ((σ.onHeap { σ.heap with
      mapped := unmapRange c σ.heap.mapped b la.size
      mmapBytes := (σ.heap.mmapBytes + 2 ^ 64 - la.size) % 2 ^ 64
      larges := upd σ.heap.larges b none }).goto t .freed : LargeSys n) = σ'
  have hpcs : σ'.pcs = upd σ.pcs t .freed := by rw [← hσ]; rfl
  have hrest : ∀ j, j ≠ t → σ'.hand j = σ.hand j := hand_upd_ne hpcs
  have hnone : σ'.hand t = none := hand_upd hpcs
  have hnew : σ'.heap.larges = upd σ.heap.larges b none := by rw [← hσ]; rfl
  have hnodes : σ'.nodes = σ.nodes := by rw [← hσ]; rfl
  have hold : ∀ {y la'}, σ'.heap.larges y = some la' → y ≠ b ∧ σ.heap.larges y = some la' := by
    intro y la' hy
    rw [hnew] at hy
    by_cases hyb : y = b
    · rw [hyb, upd_same] at hy
      cases hy
    · rw [upd_ne hyb] at hy
      exact ⟨hyb, hy⟩
  refine h.privately hpc hpcs hnodes (by rw [← hσ]; rfl) (by rw [← hσ]; rfl) rfl rfl
    (fun y hy => ?_) (fun y la' hy => h.headers y la' (hold hy).2) ?_ ?_ (fun y => ?_) trivial
    (by rw [← hσ]; exact ⟨rfl, rfl⟩) ⟨rfl, rfl, rfl, rfl⟩ ⟨rfl, rfl, rfl, rfl⟩
  · have hne : y ≠ b := by
      rintro rfl
      rcases hy with hy | ⟨j, hj, hy⟩
      · exact h.holders.apart hhand hy
      · exact hj (h.holders.once hy hhand)
    rw [hnew, upd_ne hne]
  · have hmapped : σ'.heap.mapped = unmapRange c σ.heap.mapped b la.size := by rw [← hσ]; rfl
    rw [hmapped]
    refine layout_unmapRange h.layout hok.size_page (fun y x hx => ?_) fun x hx => ⟨la, hb, hx⟩
    obtain ⟨la', hla', hx⟩ := hx
    obtain ⟨hne, hla'⟩ := hold hla'
    exact ⟨⟨la', hla', hx⟩, hne⟩
  · rw [hnodes]
    exact h.holders.drop hnone hrest
  · rw [hnodes, somewhere_drop hrest h.holders hhand hnone, ← h.known y, hnew]
    by_cases hyb : y = b
    · simp [hyb]
    · simp [hyb]

/-! ## All steps -/

/-- The rest of the allocator maps more memory. -/
theorem LargeInv.osExt (h : LargeInv c σ) {s' : State} (hos : OsExt σ.heap s') :
    LargeInv c (σ.onHeap s') := by
  obtain ⟨ans, mp, m, mb, rfl, hk⟩ := hos
  exact ⟨h.headers, h.layout.mono (fun _ _ hx => hx) fun x hx => (hk x hx).1, h.holders, h.known,
    h.locked, h.knows, h.list, h.booked.count, h.booked.bytes⟩

theorem editLarge_some {s s' : State} {f : LargeAlloc → LargeAlloc}
    (h : s.editLarge b f = some s') :
    ∃ la, s.larges b = some la ∧ s' = { s with larges := upd s.larges b (some (f la)) } := by
  obtain ⟨la, hla, rfl⟩ := Option.map_eq_some_iff.mp h
  exact ⟨la, hla, rfl⟩

theorem writes_some {o : Option State} (h : σ.writes t o pc' = some σ') :
    ∃ s', o = some s' ∧ σ' = (σ.onHeap s').goto t pc' := by
  obtain ⟨s', hs', rfl⟩ := Option.map_eq_some_iff.mp h
  exact ⟨s', hs', rfl⟩

/-- A write through a link that may be null. -/
theorem editLink_some {s s' : State} {o : Option Nat} {f : LargeAlloc → LargeAlloc}
    (h : s.editLink o f = some s')
    (hf : ∀ la, (f la).base = la.base ∧ (f la).size = la.size ∧ (f la).userSize = la.userSize) :
    ∃ larges, s' = { s with larges := larges } ∧ Relinked s.larges larges ∧
      (∀ y, o = some y → ∃ la, s.larges y = some la ∧ larges y = some (f la)) ∧
      ∀ y, o ≠ some y → larges y = s.larges y := by
  cases o with
  | none =>
    cases h
    exact ⟨s.larges, rfl, fun _ => rfl, fun y hy => absurd hy (by simp), fun _ _ => rfl⟩
  | some b =>
    obtain ⟨la, hla, rfl⟩ := editLarge_some h
    refine ⟨_, rfl, relinked_upd hla (hf la), fun y hy => ?_,
      fun y hy => upd_ne fun he => hy (he ▸ rfl)⟩
    cases hy
    exact ⟨la, hla, upd_same ..⟩

/-- A write through a link that leaves the `next` links alone, -/
theorem nextIn_link {larges larges' : Nat → Option LargeAlloc} {o : Option Nat}
    {f : LargeAlloc → LargeAlloc}
    (hw : ∀ y, o = some y → ∃ la, larges y = some la ∧ larges' y = some (f la))
    (hrest : ∀ y, o ≠ some y → larges' y = larges y) (hf : ∀ la, (f la).next = la.next) :
    nextIn larges' = nextIn larges := by
  funext y
  by_cases hy : o = some y
  · obtain ⟨la, hla, hla'⟩ := hw y hy
    rw [nextIn_of_some hla, nextIn_of_some hla', hf]
  · exact nextIn_congr (hrest y hy)

/-- or the `prev` links. -/
theorem prevIn_link {larges larges' : Nat → Option LargeAlloc} {o : Option Nat}
    {f : LargeAlloc → LargeAlloc}
    (hw : ∀ y, o = some y → ∃ la, larges y = some la ∧ larges' y = some (f la))
    (hrest : ∀ y, o ≠ some y → larges' y = larges y) (hf : ∀ la, (f la).prev = la.prev) :
    prevIn larges' = prevIn larges := by
  funext y
  by_cases hy : o = some y
  · obtain ⟨la, hla, hla'⟩ := hw y hy
    rw [prevIn_of_some hla, prevIn_of_some hla', hf]
  · exact prevIn_congr (hrest y hy)

/-- `la->next = g_state.large_list`. -/
theorem LargeInv.setNext (h : LargeInv c σ) {k : NewLarge} (hpc : σ.pcs t = .setNext k)
    (hla : σ.heap.larges k.base = some la) :
    LargeInv c ((σ.onHeap { σ.heap with
      larges := upd σ.heap.larges k.base (some { la with next := σ.heap.largeList }) }).goto t
        (.setPrev k)) := by
  have hk := h.knowsAt hpc
  refine h.relinks hpc (relinked_upd hla ⟨rfl, rfl, rfl⟩) rfl rfl rfl hk ?_ ⟨rfl, rfl, rfl, rfl⟩
  have hp : prevIn (upd σ.heap.larges k.base (some { la with next := σ.heap.largeList })) =
      prevIn σ.heap.larges := prevIn_upd hla rfl
  show Linking _ (prevIn (upd σ.heap.larges k.base _)) _ _ _ true false false
  rw [hp]
  exact (h.listAt hpc rfl).setNext (nextIn_of_some (upd_same ..)) fun y hy =>
    nextIn_congr (upd_ne hy)

/-- `la->prev = NULL`. -/
theorem LargeInv.setPrev (h : LargeInv c σ) {k : NewLarge} (hpc : σ.pcs t = .setPrev k)
    (hla : σ.heap.larges k.base = some la) :
    LargeInv c ((σ.onHeap { σ.heap with
      larges := upd σ.heap.larges k.base (some { la with prev := none }) }).goto t
        (.backLink k)) := by
  have hk := h.knowsAt hpc
  refine h.relinks hpc (relinked_upd hla ⟨rfl, rfl, rfl⟩) rfl rfl rfl hk ?_ ⟨rfl, rfl, rfl, rfl⟩
  have hn : nextIn (upd σ.heap.larges k.base (some { la with prev := none })) =
      nextIn σ.heap.larges := nextIn_upd hla rfl
  show Linking (nextIn (upd σ.heap.larges k.base _)) _ _ _ _ true true false
  rw [hn]
  exact (h.listAt hpc rfl).setPrev (prevIn_of_some (upd_same ..)) fun y hy =>
    prevIn_congr (upd_ne hy)

/-- `if (g_state.large_list) g_state.large_list->prev = la`. -/
theorem LargeInv.backLink (h : LargeInv c σ) {k : NewLarge} (hpc : σ.pcs t = .backLink k)
    {s' : State}
    (hs : σ.heap.editLink σ.heap.largeList (fun la => { la with prev := some k.base }) = some s') :
    LargeInv c ((σ.onHeap s').goto t (.setHead k)) := by
  obtain ⟨larges, rfl, hr, hw, hrest⟩ := editLink_some hs fun _ => ⟨rfl, rfl, rfl⟩
  have hk := h.knowsAt hpc
  refine h.relinks hpc hr rfl rfl rfl hk ?_ ⟨rfl, rfl, rfl, rfl⟩
  show Linking (nextIn larges) _ _ _ _ true true true
  rw [nextIn_link hw hrest fun _ => rfl]
  refine (h.listAt hpc rfl).setBack (fun y hy => ?_) fun y hy => prevIn_congr (hrest y hy)
  obtain ⟨la, -, hla⟩ := hw y hy
  rw [prevIn_of_some hla]

/-- `if (la->prev) la->prev->next = la->next`. -/
theorem LargeInv.unPrev (h : LargeInv c σ) {x : Nat} (hpc : σ.pcs t = .unPrev x b)
    (hb : σ.heap.larges b = some la) {s' : State}
    (hs : σ.heap.editLink la.prev (fun y => { y with next := la.next }) = some s') :
    LargeInv c ((σ.onHeap s').goto t (.unNext x b)) := by
  obtain ⟨larges, rfl, hr, hw, hrest⟩ := editLink_some hs fun _ => ⟨rfl, rfl, rfl⟩
  obtain ⟨hu, hin⟩ := h.listAt hpc rfl
  refine h.relinks hpc hr rfl rfl rfl trivial ⟨?_, hr.symm.inMapping hin⟩ ⟨rfl, rfl, rfl, rfl⟩
  rw [prevIn_link hw hrest fun _ => rfl]
  refine hu.setFwd (fun y hy => ?_) fun y hy => ?_
  · rw [prevIn_of_some hb] at hy
    obtain ⟨la', -, hla'⟩ := hw y hy
    rw [nextIn_of_some hla', nextIn_of_some hb]
  · rw [prevIn_of_some hb] at hy
    exact nextIn_congr (hrest y hy)

/-- `if (la->next) la->next->prev = la->prev`. -/
theorem LargeInv.unNext (h : LargeInv c σ) {x : Nat} (hpc : σ.pcs t = .unNext x b)
    (hb : σ.heap.larges b = some la) {s' : State}
    (hs : σ.heap.editLink la.next (fun y => { y with prev := la.prev }) = some s') :
    LargeInv c ((σ.onHeap s').goto t (.unHead x b)) := by
  obtain ⟨larges, rfl, hr, hw, hrest⟩ := editLink_some hs fun _ => ⟨rfl, rfl, rfl⟩
  obtain ⟨hu, hin⟩ := h.listAt hpc rfl
  refine h.relinks hpc hr rfl rfl rfl trivial ⟨?_, hr.symm.inMapping hin⟩ ⟨rfl, rfl, rfl, rfl⟩
  rw [nextIn_link hw hrest fun _ => rfl]
  refine hu.setBwd (fun y hy => ?_) fun y hy => ?_
  · rw [nextIn_of_some hb] at hy
    obtain ⟨la', -, hla'⟩ := hw y hy
    rw [prevIn_of_some hla', prevIn_of_some hb]
  · rw [nextIn_of_some hb] at hy
    exact prevIn_congr (hrest y hy)

/-! ## Walking -/

/-- A walker that follows a link is at a header or at the end of the list. -/
theorem Whole.arrive {larges : Nat → Option LargeAlloc} {head : Option Nat} {pre suf : List Nat}
    {o : Option Nat} {x : Nat} (h : Whole larges head (pre ++ suf))
    (hs : Linked (nextIn larges) o suf)
    (hpre : ∀ y ∈ pre, ¬ InMapping larges y x) (w : Walker) :
    ListAt larges head (pre ++ suf) (.arrive w x o) := by
  cases suf with
  | nil =>
    obtain rfl : o = none := hs
    rw [List.append_nil] at h ⊢
    exact ⟨h, hpre⟩
  | cons b suf =>
    obtain rfl : o = some b := hs.1
    exact ⟨h, pre, suf, rfl, hpre⟩

theorem arrive_inside (w : Walker) (x : Nat) (o : Option Nat) :
    (LargePc.arrive w x o).inside = true ∧ (LargePc.arrive w x o).hand = none := by
  cases o <;> exact ⟨rfl, rfl⟩

theorem arrive_knows (w : Walker) (x : Nat) (o : Option Nat) (larges : Nat → Option LargeAlloc) :
    LargeKnows c larges (.arrive w x o) ∧
      ∀ pc, pc.countPlus = 0 → pc.countMinus = 0 → pc.bytesPlus = 0 → pc.bytesMinus larges = 0 →
        SameEntries larges pc (.arrive w x o) := by
  cases o <;> exact ⟨trivial, fun pc h₁ h₂ h₃ h₄ => ⟨h₁.symm, h₂.symm, h₃.symm, h₄.symm⟩⟩

/-- `la = g_state.large_list`. -/
theorem LargeInv.walkHead (h : LargeInv c σ) {w : Walker} {x : Nat}
    (hpc : σ.pcs t = .walkHead w x) :
    LargeInv c (σ.goto t (.arrive w x σ.heap.largeList)) := by
  have hwhole : Whole σ.heap.larges σ.heap.largeList σ.nodes := h.listAt hpc rfl
  obtain ⟨hin, hhand⟩ := arrive_inside w x σ.heap.largeList
  obtain ⟨hk, he⟩ := arrive_knows (c := c) w x σ.heap.largeList σ.heap.larges
  have hlist : ListAt σ.heap.larges σ.heap.largeList ([] ++ σ.nodes)
      (.arrive w x σ.heap.largeList) :=
    Whole.arrive hwhole hwhole.1 (fun y hy => absurd hy (by simp)) w
  exact h.inside hpc rfl hin hhand hk hlist (he _ rfl rfl rfl rfl)

/-- `la = la->next`. -/
theorem LargeInv.walkNext (h : LargeInv c σ) {w : Walker} {x : Nat}
    (hpc : σ.pcs t = .walkNext w x b)
    (hb : σ.heap.larges b = some la) : LargeInv c (σ.goto t (.arrive w x la.next)) := by
  obtain ⟨hwhole, ⟨pre, suf, heq, hpre⟩, hno⟩ := h.listAt hpc rfl
  obtain ⟨hin, hhand⟩ := arrive_inside w x la.next
  obtain ⟨hk, he⟩ := arrive_knows (c := c) w x la.next σ.heap.larges
  refine h.inside hpc rfl hin hhand hk ?_ (he _ rfl rfl rfl rfl)
  have hsplit : σ.nodes = (pre ++ [b]) ++ suf := by rw [heq, List.append_assoc]; rfl
  have hs : Linked (nextIn σ.heap.larges) la.next suf := by
    rw [← nextIn_of_some hb]
    exact Linked.drop (heq ▸ hwhole.1)
  rw [hsplit] at hwhole ⊢
  refine hwhole.arrive hs (fun y hy => ?_) w
  rcases List.mem_append.mp hy with hy | hy
  · exact hpre y hy
  · rw [List.mem_singleton.mp hy]
    exact hno

/-- The test of one header. -/
theorem LargeInv.walkTest (h : LargeInv c σ) {w : Walker} {x : Nat}
    (hpc : σ.pcs t = .walkTest w x b) :
    LargeInv c (if largeContains σ.heap x b then σ.goto t (.hit x b w)
      else σ.goto t (.walkNext w x b)) := by
  obtain ⟨hwhole, hpassed⟩ := h.listAt hpc rfl
  have hmem : b ∈ σ.nodes := by
    obtain ⟨pre, suf, heq, -⟩ := hpassed
    rw [heq]
    simp
  split
  next hc =>
    have hin := h.headers.contains_iff.mp hc
    cases w with
    | free => exact h.inside hpc rfl rfl rfl trivial ⟨.start hwhole hmem, hin⟩ ⟨rfl, rfl, rfl, rfl⟩
    | find => exact h.inside hpc rfl rfl rfl trivial ⟨hwhole, hmem, hin⟩ ⟨rfl, rfl, rfl, rfl⟩
  next hc =>
    exact h.inside hpc rfl rfl rfl trivial
      ⟨hwhole, hpassed, fun hin => hc (h.headers.contains_iff.mpr hin)⟩ ⟨rfl, rfl, rfl, rfl⟩

/-! ## All steps -/

/-- `la->user_size` of a header in a thread's hand. -/
theorem LargeInv.user_lt (h : LargeInv c σ) (hb : σ.hand t = some b) :
    fieldAt LargeAlloc.userSize σ.heap.larges b < 2 ^ 64 := by
  obtain ⟨la, hla⟩ := Option.isSome_iff_exists.mp ((h.known b).mpr (Or.inr ⟨t, hb⟩))
  have hok := h.headers b la hla
  have h₁ := hok.fits
  have h₂ := hok.stop
  rw [fieldAt_of_some hla]
  omega

section Counters

variable {k : NewLarge} {user total : Nat}

/-- An entry is made in a counter that wraps at `M`: it is added, -/
theorem add_entry (M v u : Nat) : (v + u) % M + 0 + 0 ≡ v + u + 0 [MOD M] := Nat.mod_modEq _ _

/-- or subtracted. -/
theorem sub_entry {M u : Nat} (v : Nat) (hu : u ≤ M) :
    (v + M - u) % M + 0 + u ≡ v + 0 + 0 [MOD M] := by
  have h := (Nat.mod_modEq (v + M - u) M).add_right u
  rw [Nat.sub_add_cancel (Nat.le_trans hu (Nat.le_add_left ..))] at h
  exact h.trans (Nat.add_modEq_right)

/-- `large_allocated += size`. -/
theorem LargeInv.addBytes (h : LargeInv c σ) (hpc : σ.pcs t = .addBytes k) :
    LargeInv c ((σ.onHeap { σ.heap with
      largeAllocated := (σ.heap.largeAllocated + k.size) % 2 ^ 64 }).goto t (.addCount k)) :=
  h.counts hpc (.addCount k) σ.heap.largeAllocCount _ rfl rfl rfl trivial (Nat.ModEq.refl _)
    (add_entry (2 ^ 64) σ.heap.largeAllocated k.size)

/-- `large_alloc_count += 1`. -/
theorem LargeInv.addCount (h : LargeInv c σ) (hpc : σ.pcs t = .addCount k) :
    LargeInv c ((σ.onHeap { σ.heap with
      largeAllocCount := (σ.heap.largeAllocCount + 1) % 2 ^ 64 }).goto t (.ret k.ptr)) :=
  h.counts hpc (.ret k.ptr) _ σ.heap.largeAllocated rfl rfl rfl trivial
    (add_entry (2 ^ 64) σ.heap.largeAllocCount 1) (Nat.ModEq.refl _)

/-- `large_allocated -= user_size`. -/
theorem LargeInv.subBytes (h : LargeInv c σ) (hpc : σ.pcs t = .subBytes b user total) :
    LargeInv c ((σ.onHeap { σ.heap with
      largeAllocated := (σ.heap.largeAllocated + 2 ^ 64 - user) % 2 ^ 64 }).goto t
        (.subCount b total)) := by
  obtain ⟨hsize, huser⟩ := h.knowsAt hpc
  have hlt := h.user_lt (handAt hpc)
  have hminus : (LargePc.subBytes b user total).bytesMinus σ.heap.larges = user := huser
  rw [huser] at hlt
  refine h.counts hpc (.subCount b total) σ.heap.largeAllocCount _ rfl rfl rfl hsize
    (Nat.ModEq.refl _) ?_
  rw [hminus]
  exact sub_entry σ.heap.largeAllocated (Nat.le_of_lt hlt)

/-- `large_alloc_count -= 1`. -/
theorem LargeInv.subCount (h : LargeInv c σ) (hpc : σ.pcs t = .subCount b total) :
    LargeInv c ((σ.onHeap { σ.heap with
      largeAllocCount := (σ.heap.largeAllocCount + 2 ^ 64 - 1) % 2 ^ 64 }).goto t
      (.unmap b total)) := by
  have hk := h.knowsAt hpc
  exact h.counts hpc (.unmap b total) _ σ.heap.largeAllocated rfl rfl rfl hk
    (sub_entry σ.heap.largeAllocCount Nat.one_le_two_pow) (Nat.ModEq.refl _)

end Counters

/-- **Step lemma**. -/
theorem LargeInv.step (h : LargeInv c σ) (he : σ.step c t = some σ') : LargeInv c σ' := by
  unfold LargeSys.step at he
  cases hpc : σ.pcs t with
  | idle =>
    simp only [hpc] at he
    cases he
  | map size alignment =>
    simp only [hpc] at he
    rcases hm : osMmapAligned c σ.heap (largeTotal c size (raisedAlign alignment))
      (if raisedAlign alignment < c.osPage then c.osPage else raisedAlign alignment) with ⟨base, s₁⟩
    rw [hm] at he
    simp only at he
    split at he
    next h0 =>
      cases he
      exact (h.osExt (newLarge_ext (h.knowsAt hpc) hm)).outside hpc rfl rfl rfl trivial
        ⟨rfl, rfl, rfl, rfl⟩
    next h0 =>
      cases he
      exact h.mapped hpc hm h0
  | lock k =>
    simp only [hpc] at he
    have hk := h.knowsAt hpc
    exact h.acquire hpc he rfl rfl hk (fun hw => .start hw (h.holders.apart (handAt hpc)))
      ⟨rfl, rfl, rfl, rfl⟩
  | setNext k =>
    simp only [hpc] at he
    obtain ⟨s', hs', rfl⟩ := writes_some he
    obtain ⟨la, hla, rfl⟩ := editLarge_some hs'
    exact h.setNext hpc hla
  | setPrev k =>
    simp only [hpc] at he
    obtain ⟨s', hs', rfl⟩ := writes_some he
    obtain ⟨la, hla, rfl⟩ := editLarge_some hs'
    exact h.setPrev hpc hla
  | backLink k =>
    simp only [hpc] at he
    obtain ⟨s', hs', rfl⟩ := writes_some he
    exact h.backLink hpc hs'
  | setHead k =>
    simp only [hpc] at he
    cases he
    exact h.setHead hpc
  | unlock k =>
    simp only [hpc] at he
    cases he
    have hw : Whole σ.heap.larges σ.heap.largeList σ.nodes := h.listAt hpc rfl
    exact h.release hpc rfl rfl rfl trivial hw hw ⟨rfl, rfl, rfl, rfl⟩
  | addBytes k =>
    simp only [hpc] at he
    cases he
    exact h.addBytes hpc
  | addCount k =>
    simp only [hpc] at he
    cases he
    exact h.addCount hpc
  | ret p | freed | answer r =>
    simp only [hpc] at he
    cases he
    exact h.outside hpc rfl rfl rfl trivial ⟨rfl, rfl, rfl, rfl⟩
  | enter x =>
    simp only [hpc] at he
    cases he
    split
    next => exact h.outside hpc rfl rfl rfl trivial ⟨rfl, rfl, rfl, rfl⟩
    next => exact h.outside hpc rfl rfl rfl trivial ⟨rfl, rfl, rfl, rfl⟩
  | walkLock w x =>
    simp only [hpc] at he
    exact h.acquire hpc he rfl rfl trivial id ⟨rfl, rfl, rfl, rfl⟩
  | walkHead w x =>
    simp only [hpc] at he
    cases he
    exact h.walkHead hpc
  | walkTest w x b =>
    simp only [hpc] at he
    obtain ⟨la, hla, rfl⟩ := Option.map_eq_some_iff.mp he
    exact h.walkTest hpc
  | walkNext w x b =>
    simp only [hpc] at he
    obtain ⟨la, hla, rfl⟩ := Option.map_eq_some_iff.mp he
    exact h.walkNext hpc hla
  | walkMiss w x =>
    simp only [hpc] at he
    cases he
    obtain ⟨hw, -⟩ := h.listAt hpc rfl
    cases w with
    | free => exact h.release hpc rfl rfl rfl trivial hw hw ⟨rfl, rfl, rfl, rfl⟩
    | find => exact h.release hpc rfl rfl rfl trivial hw hw ⟨rfl, rfl, rfl, rfl⟩
  | found x b =>
    simp only [hpc] at he
    cases he
    obtain ⟨hw, -⟩ := h.listAt hpc rfl
    exact h.release hpc rfl rfl rfl trivial hw hw ⟨rfl, rfl, rfl, rfl⟩
  | unPrev x b =>
    simp only [hpc] at he
    obtain ⟨la, hla, he⟩ := Option.bind_eq_some_iff.mp he
    obtain ⟨s', hs', rfl⟩ := writes_some he
    exact h.unPrev hpc hla hs'
  | unNext x b =>
    simp only [hpc] at he
    obtain ⟨la, hla, he⟩ := Option.bind_eq_some_iff.mp he
    obtain ⟨s', hs', rfl⟩ := writes_some he
    exact h.unNext hpc hla hs'
  | unHead x b =>
    simp only [hpc] at he
    obtain ⟨la, hla, rfl⟩ := Option.map_eq_some_iff.mp he
    exact h.unHead hpc hla
  | sizes b =>
    simp only [hpc] at he
    obtain ⟨la, hla, rfl⟩ := Option.map_eq_some_iff.mp he
    have hw : Whole σ.heap.larges σ.heap.largeList σ.nodes := h.listAt hpc rfl
    exact h.inside hpc rfl rfl rfl ⟨fieldAt_of_some hla, fieldAt_of_some hla⟩ hw
      ⟨rfl, rfl, rfl, rfl⟩
  | freeUnlock b user total =>
    simp only [hpc] at he
    cases he
    have hw : Whole σ.heap.larges σ.heap.largeList σ.nodes := h.listAt hpc rfl
    have hk := h.knowsAt hpc
    exact h.release hpc rfl rfl rfl hk hw hw ⟨rfl, rfl, rfl, rfl⟩
  | subBytes b user total =>
    simp only [hpc] at he
    cases he
    exact h.subBytes hpc
  | subCount b total =>
    simp only [hpc] at he
    cases he
    exact h.subCount hpc
  | unmap b total =>
    simp only [hpc] at he
    obtain ⟨la, hla, rfl⟩ := Option.map_eq_some_iff.mp he
    exact h.unmap hpc hla

end CustomMalloc

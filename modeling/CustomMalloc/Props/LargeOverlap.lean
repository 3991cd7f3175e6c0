import CustomMalloc.Concurrent.LargeAtomic

/-!
# Large calls of many threads

Threads call `large_alloc_aligned`, `large_free` and `large_find` at the same time, and every
statement of theirs that touches the shared state is a step of its own. What the callers see is what
one sequential run of the calls on the list of blocks would show them (`large_linearizable`). No
step on the way goes through a link to where no header is, and only `large_lock` makes a thread wait
(`large_overlap_safe`). When the calls have returned, the list and both counters are what the
sequential development says (`large_at_rest`).
-/

namespace CustomMalloc

open Lib.Words Lib.Chain Lib.Regions Lib.Intervals Lib.Hands Lib.Ledger Lib.Atomic Lib.Trace

variable {c : Cfg} {n : Nat} {σ σ' : LargeSys n} {t : Fin n} {b x : Nat}
  {tr : List (Event (Fin n) LargeCall LargeAnswer)} {e : Event (Fin n) LargeCall LargeAnswer}

/-! ## Runs -/

theorem LargeInv.withAnswers (h : LargeInv c σ) (answers : List (Option Nat)) :
    LargeInv c (σ.onHeap (σ.heap.withAnswers answers)) :=
  h.osExt (OsExt.answers σ.heap answers)

/-- A call starts. -/
theorem LargeInv.call (h : LargeInv c σ) {op : LargeCall} (hfit : op.Fits c)
    (hpc : σ.pcs t = .idle) :
    LargeInv c (σ.goto t op.start) := by
  cases op with
  | alloc size alignment => exact h.outside hpc rfl rfl rfl hfit ⟨rfl, rfl, rfl, rfl⟩
  | free x | find x => exact h.outside hpc rfl rfl rfl trivial ⟨rfl, rfl, rfl, rfl⟩

theorem act_call {op : LargeCall} (he : σ.act c (.call t op) = some σ') :
    σ.pcs t = .idle ∧ σ' = σ.goto t op.start := by
  simp only [LargeSys.act] at he
  split at he
  next hpc => exact ⟨hpc, (Option.some.inj he).symm⟩
  next => cases he

/-- **Step lemma**. -/
theorem LargeInv.keeps (h : LargeInv c σ) (hs : LargeStep c σ e σ') : LargeInv c σ' := by
  cases hs with
  | call t op hfit he =>
    obtain ⟨hpc, rfl⟩ := act_call he
    exact h.call hfit hpc
  | step t answers he => exact (h.withAnswers answers).step he

theorem LargeInv.simulates (h : LargeInv c σ) (hs : LargeStep c σ e σ') :
    Lib.Atomic.Step (LargeSpec c) σ.view e σ'.view := by
  cases hs with
  | call t op hfit he =>
    obtain ⟨hpc, rfl⟩ := act_call he
    exact view_call hpc
  | step t answers he => exact (h.withAnswers answers).sim he

/-- **Run lemma**: the invariant, and the run of the atomic object. -/
theorem largeRun_refines (h : Run (LargeStep c) (LargeSys.initial c n) tr σ) :
    LargeInv c σ ∧ Run (Lib.Atomic.Step (LargeSpec c)) (Object.fresh []) tr σ.view :=
  Run.refines (f := LargeSys.view) h (LargeInv.initial c n) (fun _ _ _ => LargeInv.keeps)
    fun _ _ _ => LargeInv.simulates

/-- The steps of a schedule, with what is seen of them. -/
def LargeSys.trace (c : Cfg) (σ : LargeSys n) :
    List (LargeAct n) → Option (LargeSys n × List (Event (Fin n) LargeCall LargeAnswer))
  | [] => some (σ, [])
  | a :: acts =>
    (σ.act c a).bind fun σ' => (σ'.trace c acts).map fun r =>
      (r.1, (match a with
        | .call t op => .call t op
        | .step t _ => (σ.pcs t).event t) :: r.2)

/-- The calls of the schedule fit. -/
def LargeAct.Fits (c : Cfg) : LargeAct n → Prop
  | .call _ op => op.Fits c
  | .step .. => True

instance (c : Cfg) : (a : LargeAct n) → Decidable (a.Fits c)
  | .call _ op => inferInstanceAs (Decidable (op.Fits c))
  | .step .. => inferInstanceAs (Decidable True)

theorem run_of_trace {acts : List (LargeAct n)} (h : σ.trace c acts = some (σ', tr))
    (hfit : ∀ a ∈ acts, a.Fits c) : Run (LargeStep c) σ tr σ' := by
  induction acts generalizing σ tr with
  | nil =>
    obtain ⟨rfl, rfl⟩ := Prod.mk.inj (Option.some.inj h)
    exact .nil
  | cons a acts ih =>
    obtain ⟨σ₁, h₁, h⟩ := Option.bind_eq_some_iff.mp h
    obtain ⟨⟨σ₂, tr₂⟩, h₂, heq⟩ := Option.map_eq_some_iff.mp h
    cases heq
    have hrest := ih h₂ fun a' ha' => hfit a' (List.mem_cons_of_mem _ ha')
    cases a with
    | call t op =>
      exact (Run.nil.snoc (.call t op (hfit _ (List.mem_cons_self ..)) h₁)).append hrest
    | step t answers => exact (Run.nil.snoc (.step t answers h₁)).append hrest

/-- Where a schedule leads, and what is seen on the way. -/
def LargeSys.after (c : Cfg) (σ : LargeSys n) (acts : List (LargeAct n)) :
    LargeSys n × List (Event (Fin n) LargeCall LargeAnswer) :=
  (σ.trace c acts).getD (σ, [])

theorem after_run {acts : List (LargeAct n)} (hgoes : (σ.trace c acts).isSome = true)
    (hfit : ∀ a ∈ acts, a.Fits c) :
    Run (LargeStep c) σ (σ.after c acts).2 (σ.after c acts).1 := by
  obtain ⟨r, hr⟩ := Option.isSome_iff_exists.mp hgoes
  rw [LargeSys.after, hr]
  exact run_of_trace hr hfit

/-! ## Progress -/

/-- At `pthread_mutex_lock`. -/
def LargePc.waits : LargePc → Bool
  | .lock _ | .walkLock .. => true
  | _ => false

theorem LargeInv.live (h : LargeInv c σ) (hb : b ∈ σ.nodes) : ∃ la, σ.heap.larges b = some la := by
  obtain ⟨la, hla, -⟩ := h.get hb
  exact ⟨la, hla⟩

theorem LargeInv.held (h : LargeInv c σ) (hb : σ.hand t = some b) :
    ∃ la, σ.heap.larges b = some la :=
  Option.isSome_iff_exists.mp ((h.known b).mpr (Or.inr ⟨t, hb⟩))

/-- A write through a link that is null or leads to a header. -/
theorem editLink_ok {s : State} {o : Option Nat} (f : LargeAlloc → LargeAlloc)
    (ho : ∀ y, o = some y → ∃ la, s.larges y = some la) : ∃ s', s.editLink o f = some s' := by
  cases o with
  | none => exact ⟨s, rfl⟩
  | some y =>
    obtain ⟨la, hla⟩ := ho y rfl
    exact ⟨_, by rw [State.editLink, State.editLarge, hla]; rfl⟩

/-- A thread in a call can go on, unless it is at a lock that somebody has. -/
theorem LargeInv.can_step (h : LargeInv c σ) (hpc : σ.pcs t ≠ .idle)
    (hfree : (σ.pcs t).waits = true → σ.lock = none) : ∃ σ', σ.step c t = some σ' := by
  unfold LargeSys.step
  cases hp : σ.pcs t with
  | idle => exact absurd hp hpc
  | map size alignment =>
    rcases hm : osMmapAligned c σ.heap (largeTotal c size (raisedAlign alignment))
      (if raisedAlign alignment < c.osPage then c.osPage else raisedAlign alignment) with ⟨base, s₁⟩
    simp only [hm]
    by_cases h0 : base = 0
    · exact ⟨_, if_pos h0⟩
    · exact ⟨_, if_neg h0⟩
  | lock k | walkLock w x =>
    simp only [LargeSys.locks]
    rw [if_pos (hfree (by rw [hp]; rfl))]
    exact ⟨_, rfl⟩
  | setNext k | setPrev k =>
    obtain ⟨la, hla⟩ := h.held (handAt hp)
    simp only [State.editLarge, hla]
    exact ⟨_, rfl⟩
  | backLink k =>
    have hlink := h.listAt hp rfl
    obtain ⟨s', hs'⟩ := editLink_ok (s := σ.heap) (fun la => { la with prev := some k.base })
      fun y hy => h.live (hlink.linked.head_mem hy)
    simp only [hs']
    exact ⟨_, rfl⟩
  | walkTest w x b =>
    obtain ⟨-, pre, suf, heq, -⟩ := h.listAt hp rfl
    obtain ⟨la, hla⟩ := h.live (b := b) (by rw [heq]; simp)
    simp only [hla]
    exact ⟨_, rfl⟩
  | walkNext w x b =>
    obtain ⟨-, ⟨pre, suf, heq, -⟩, -⟩ := h.listAt hp rfl
    obtain ⟨la, hla⟩ := h.live (b := b) (by rw [heq]; simp)
    simp only [hla]
    exact ⟨_, rfl⟩
  | unPrev x b =>
    obtain ⟨hu, -⟩ := h.listAt hp rfl
    obtain ⟨la, hla⟩ := h.live hu.mem
    obtain ⟨s', hs'⟩ := editLink_ok (s := σ.heap) (fun y => { y with next := la.next })
      fun y hy => h.live (hu.neighbours.2 y ((prevIn_of_some hla).trans hy))
    simp only [hla, Option.bind_some, hs']
    exact ⟨_, rfl⟩
  | unNext x b =>
    obtain ⟨hu, -⟩ := h.listAt hp rfl
    obtain ⟨la, hla⟩ := h.live hu.mem
    obtain ⟨s', hs'⟩ := editLink_ok (s := σ.heap) (fun y => { y with prev := la.prev })
      fun y hy => h.live (hu.neighbours.1 y ((nextIn_of_some hla).trans hy))
    simp only [hla, Option.bind_some, hs']
    exact ⟨_, rfl⟩
  | unHead x b =>
    obtain ⟨la, hla⟩ := h.live (h.listAt hp rfl).1.mem
    simp only [hla]
    exact ⟨_, rfl⟩
  | sizes b | unmap b =>
    obtain ⟨la, hla⟩ := h.held (handAt hp)
    simp only [hla]
    exact ⟨_, rfl⟩
  | _ => exact ⟨_, rfl⟩

/-- Whoever has the lock is not at it. -/
theorem LargeInv.holder_goes (h : LargeInv c σ) (hl : σ.lock = some t) :
    σ.pcs t ≠ .idle ∧ (σ.pcs t).waits = false := by
  have hin := (h.locked t).mpr hl
  refine ⟨fun hidle => ?_, ?_⟩
  · rw [hidle] at hin
    exact absurd hin (by simp [LargePc.inside])
  · cases hp : σ.pcs t with
    | lock k | walkLock w x =>
      rw [hp] at hin
      exact absurd hin (by simp [LargePc.inside])
    | _ => rfl

/-- A call under way can go on, or it waits for somebody who can. -/
theorem LargeInv.goes_on (h : LargeInv c σ) (ht : σ.pcs t ≠ .idle) :
    ∃ u, (u = t ∨ (σ.pcs t).waits = true ∧ σ.lock = some u) ∧
      ∀ answers, ∃ σ', σ.act c (.step u answers) = some σ' := by
  by_cases hwait : ∃ u, (σ.pcs t).waits = true ∧ σ.lock = some u
  · obtain ⟨u, hw, hu⟩ := hwait
    obtain ⟨hidle, hgo⟩ := h.holder_goes hu
    refine ⟨u, Or.inr ⟨hw, hu⟩, fun answers => (h.withAnswers answers).can_step hidle fun hc => ?_⟩
    cases hgo.symm.trans hc
  · refine ⟨t, Or.inl rfl, fun answers => (h.withAnswers answers).can_step ht fun hw => ?_⟩
    exact Option.eq_none_iff_forall_ne_some.mpr fun u hu => hwait ⟨u, hw, hu⟩

/-! ## The results -/

/-- Large calls are linearizable: the calls and returns of any run of the threads are those of a
run in which every call takes effect at once, somewhere between its start and its return. So one
sequential run of the calls on the list of blocks gives every answer, and it ends with the blocks
that are in the list. -/
theorem large_linearizable (h : Run (LargeStep c) (LargeSys.initial c n) tr σ) :
    Run (Lib.Atomic.Step (LargeSpec c)) (Object.fresh []) tr σ.view ∧
      ∃ seq, Run (Sequential (LargeSpec c)) [] seq σ.blocks ∧
        ∀ t r, Event.ret t r ∈ tr → ∃ op, (op, r) ∈ seq := by
  have hrun := (largeRun_refines h).2
  obtain ⟨seq, hseq, -, hret⟩ := run_sequential hrun
  exact ⟨hrun, seq, hseq, hret⟩

def largeA : Fin 2 := ⟨0, Nat.zero_lt_two⟩

def largeB : Fin 2 := ⟨1, Nat.one_lt_two⟩

/-- `k` steps of `t` that do not ask the kernel for memory. -/
def goes (t : Fin 2) (k : Nat) : List (LargeAct 2) := List.replicate k (.step t [])

/-- `large_alloc_aligned(200000, 16)` and `large_alloc_aligned(300000, 24)` at the same time. The
second waits for the lock, and takes it before the first has changed the counters. -/
def bothLarge : List (LargeAct 2) :=
  [.call largeA (.alloc 200000 16), .call largeB (.alloc 300000 24),
    .step largeA [some 0x10000000], .step largeB [some 0x20000000]] ++
  goes largeA 6 ++ goes largeB 2 ++ goes largeA 1 ++ goes largeB 2 ++ goes largeA 2 ++ goes largeB 5

/-- Then one thread frees the older block while the other looks for it, and finds nothing. -/
def freeAndFind : List (LargeAct 2) :=
  [.call largeB (.find 0x10000030), .call largeA (.free 0x10000030)] ++
  goes largeA 11 ++ goes largeB 4 ++ goes largeA 3 ++ goes largeB 2 ++ goes largeA 1

def freedAndFound : LargeSys 2 × List (Event (Fin 2) LargeCall LargeAnswer) :=
  (LargeSys.initial (.page4k false) 2).after (.page4k false) (bothLarge ++ freeAndFind)

theorem freedAndFound_run : Run (LargeStep (.page4k false)) (LargeSys.initial (.page4k false) 2)
    freedAndFound.2 freedAndFound.1 :=
  after_run (by decide +kernel) (by decide +kernel)

/-- The block is found by nobody although it was not unmapped yet. -/
theorem large_linearizable_freeAndFind : ∃ tr σ,
    Run (LargeStep (.page4k false)) (LargeSys.initial (.page4k false) 2) tr σ ∧
    Event.ret largeB (.ptr 0x20000040) ∈ tr ∧ Event.ret largeB (.header none) ∈ tr ∧
    σ.blocks = [(0x20000000, 303104)] ∧
    Run (Lib.Atomic.Step (LargeSpec (.page4k false))) (Object.fresh []) tr σ.view :=
  ⟨_, _, freedAndFound_run, by decide +kernel, by decide +kernel, by decide +kernel,
    (large_linearizable freedAndFound_run).1⟩

/-- In every state of every run the blocks in the list are mapped and do not overlap, and at most
one thread is between lock and unlock. A thread in a call can take its next step, which includes
that every link it follows leads to a header; or it waits for `large_lock`, and the thread that has
it can take its next step. -/
theorem large_overlap_safe (h : Run (LargeStep c) (LargeSys.initial c n) tr σ) :
    σ.blocks.Pairwise Range.Apart ∧
    (∀ r ∈ σ.blocks, ∀ x, r.contains x = true → Covers σ.heap.mapped x) ∧
    (∀ t u, (σ.pcs t).inside = true → (σ.pcs u).inside = true → t = u) ∧
    ∀ t, σ.pcs t ≠ .idle → ∃ u, (u = t ∨ (σ.pcs t).waits = true ∧ σ.lock = some u) ∧
      ∀ answers, ∃ σ', σ.act c (.step u answers) = some σ' := by
  have hinv := (largeRun_refines h).1
  refine ⟨hinv.blocks_apart, fun r hr x hx => ?_, fun t u ht hu => ?_, fun t ht => hinv.goes_on ht⟩
  · obtain ⟨y, hy, rfl⟩ := List.mem_map.mp hr
    exact hinv.layout.backed ((hinv.range_contains hy).mp hx)
  · exact Option.some.inj (((hinv.locked t).mp ht).symm.trans ((hinv.locked u).mp hu))

/-- One thread is about to set the links of its header, the other waits for the lock. -/
def bothCalled : LargeSys 2 × List (Event (Fin 2) LargeCall LargeAnswer) :=
  (LargeSys.initial (.page4k false) 2).after (.page4k false) (bothLarge.take 6)

theorem bothCalled_run : Run (LargeStep (.page4k false)) (LargeSys.initial (.page4k false) 2)
    bothCalled.2 bothCalled.1 :=
  after_run (by decide +kernel) (by decide +kernel)

theorem large_overlap_safe_waiting : ∃ tr σ,
    Run (LargeStep (.page4k false)) (LargeSys.initial (.page4k false) 2) tr σ ∧
    (σ.pcs largeA).inside = true ∧ (σ.pcs largeB).waits = true ∧
    ∃ u, σ.lock = some u ∧ ∀ answers, ∃ σ', σ.act (.page4k false) (.step u answers) = some σ' := by
  obtain ⟨-, -, -, hgo⟩ := large_overlap_safe bothCalled_run
  obtain ⟨u, hu, hstep⟩ := hgo largeA (by decide +kernel)
  refine ⟨_, _, bothCalled_run, by decide +kernel, by decide +kernel, u, ?_, hstep⟩
  rcases hu with rfl | ⟨-, hu⟩
  · decide +kernel
  · exact hu

/-- When no call is under way, `large_list` is the doubly linked list of exactly the blocks there
are, and the two counters, which threads change without the lock, are right. -/
theorem large_at_rest (h : Run (LargeStep c) (LargeSys.initial c n) tr σ)
    (hrest : ∀ t, σ.pcs t = .idle) :
    Represents σ.heap σ.blocks ∧
      σ.heap.largeAllocCount ≡ σ.blocks.length [MOD 2 ^ 64] ∧
      σ.heap.largeAllocated ≡ listBytes σ.heap.larges σ.nodes [MOD 2 ^ 64] := by
  have hinv := (largeRun_refines h).1
  have hlock : σ.lock = none := by
    refine Option.eq_none_iff_forall_ne_some.mpr fun t ht => (hinv.holder_goes ht).1 (hrest t)
  have hwhole := hinv.whole hlock
  have hfst : σ.blocks.map Prod.fst = σ.nodes := by
    simp [LargeSys.blocks, rangesOf, Function.comp_def]
  have hmem : ∀ r ∈ σ.blocks, r.1 ∈ σ.nodes := fun r hr => hfst ▸ List.mem_map_of_mem hr
  refine ⟨⟨?_, fun r hr r' hr' => hwhole.next_iff_prev (hmem r hr) (hmem r' hr'), ?_,
    fun r hr => ?_,
    fun b hb => ?_⟩, ?_, ?_⟩
  · rw [hfst]
    exact hwhole
  · rw [hfst]
    exact hinv.holders.nodup
  · obtain ⟨y, hy, rfl⟩ := List.mem_map.mp hr
    obtain ⟨la, hla, hok⟩ := hinv.get hy
    exact ⟨la, hla, hok.base, (fieldAt_of_some hla).symm⟩
  · -- nobody has a header in hand
    rw [hfst]
    rcases (hinv.known b).mp hb with hb | ⟨t, ht⟩
    · exact hb
    · rw [LargeSys.hand, hrest t] at ht
      exact absurd ht (by simp [LargePc.hand])
  · have hlen : σ.blocks.length = σ.nodes.length := List.length_map ..
    rw [hlen]
    exact hinv.booked.count.settled (fun t => by rw [hrest t]; rfl) fun t => by rw [hrest t]; rfl
  · exact hinv.booked.bytes.settled (fun t => by rw [hrest t]; rfl) fun t => by rw [hrest t]; rfl

theorem large_at_rest_freeAndFind : ∃ tr σ,
    Run (LargeStep (.page4k false)) (LargeSys.initial (.page4k false) 2) tr σ ∧
    (∀ t, σ.pcs t = .idle) ∧ Represents σ.heap [(0x20000000, 303104)] ∧
    σ.heap.largeAllocCount ≡ 1 [MOD 2 ^ 64] := by
  have hidle : ∀ t, freedAndFound.1.pcs t = .idle := by
    decide +kernel
  have hblocks : freedAndFound.1.blocks =
      [(0x20000000, 303104)] := by
    decide +kernel
  obtain ⟨hrep, hcount, -⟩ := large_at_rest freedAndFound_run hidle
  rw [hblocks] at hrep hcount
  exact ⟨_, _, freedAndFound_run, hidle, hrep, hcount⟩

end CustomMalloc

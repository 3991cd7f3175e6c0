import CustomMalloc.Concurrent.StepEffects
import CustomMalloc.Props.RemoteFrees

/-!
# Overlapping calls

What every orderly run of overlapping `slab_alloc`, `slab_free` and thread exits keeps, access
by access: the blocks that are out are apart from each other and lie in their pages, nobody
writes into a block but its client, a slot that is said to be zeroed is, a page has one owner
for good, and some call can always go on. When all calls have returned, the heap is one that
whole calls could have left.
-/

namespace CustomMalloc

open Lib.Words Lib.Bytes Lib.Chain Lib.Interleave Lib.Places Lib.Hands

variable {n : Nat} {c : Cfg} {σ σ' : SlabSys n} {r q : PageRef} {t u : Fin n} {x y : Nat}
  {a : SlabAct n}

/-- `x` is a block of `k` bytes: a slot of a page in use. -/
def SlabSys.Block (σ : SlabSys n) (x k : Nat) : Prop :=
  ∃ r, Active σ.heap r ∧ IsSlot r (σ.heap.pages r) x ∧ k = (σ.heap.pages r).slotSize

/-- Somebody has `x`: a client, or a call that is about to return it or to free it. -/
def SlabSys.Handed (σ : SlabSys n) (x : Nat) : Prop :=
  Somewhere σ.live (fun t => (σ.pcs t).carries) x

namespace SlabInv

theorem handed_out (h : SlabInv c σ) (hx : σ.Handed x) : ∃ r, σ.Out r x := by
  rcases hx with hx | ⟨u, hu⟩
  · exact h.out x hx
  · exact (h.pcs u).carried hu

theorem bump_le (h : SlabInv c σ) (hact : Active σ.heap r) :
    (σ.heap.pages r).bumpOffset ≤ (σ.heap.pages r).bumpEnd := by
  obtain ⟨-, o, loc, walk, -, hcons⟩ := h.pages r hact
  obtain ⟨k, hk, hb⟩ := hcons.lists.carved
  rw [(h.heap.geom hact).end_eq]
  exact hb ▸ Nat.mul_le_mul_right _ hk

end SlabInv

/-! ## Actions -/

/-- What an action can be: a call starts, a call takes a step, a thread exits, or a client
writes. -/
theorem act_cases (he : σ.act c a = some σ') :
    (σ'.heap = σ.heap ∧
      (σ'.live = σ.live ∨ ∃ t ptr, a = .free t ptr ∧ σ'.live = σ.live.erase ptr)) ∨
    (∃ t spurious answers, a = .step t spurious answers ∧
      (σ.onHeap (σ.heap.withAnswers answers)).step c t spurious = some σ') ∨
    (∃ t, σ' = σ.onHeap (tldCleanup c σ.heap t)) ∨
    ∃ r x i b, a = .write r x i b ∧
      σ' = σ.onHeap { σ.heap with mem := upd σ.heap.mem (x + i) b } := by
  cases a with
  | alloc t size =>
    simp only [SlabSys.act] at he
    split at he
    next =>
      obtain ⟨-, he⟩ := Option.ite_none_right_eq_some.mp he
      cases he
      exact Or.inl ⟨rfl, Or.inl rfl⟩
    next => cases he
  | free t ptr =>
    obtain ⟨-, he⟩ := Option.ite_none_right_eq_some.mp he
    cases he
    exact Or.inl ⟨rfl, Or.inr ⟨t, ptr, rfl, rfl⟩⟩
  | step t spurious answers => exact Or.inr (Or.inl ⟨t, spurious, answers, rfl, he⟩)
  | exit t =>
    obtain ⟨-, he⟩ := Option.ite_none_right_eq_some.mp he
    cases he
    exact Or.inr (Or.inr (Or.inl ⟨t, rfl⟩))
  | write r x i b =>
    obtain ⟨-, he⟩ := Option.ite_none_right_eq_some.mp he
    cases he
    exact Or.inr (Or.inr (Or.inr ⟨r, x, i, b, rfl, rfl⟩))

namespace SlabInv

/-- What an action keeps of a page in use. -/
theorem act_page (h : SlabInv c σ) (ho : Orderly σ a) (he : σ.act c a = some σ')
    (hact : Active σ.heap r) :
    Active σ'.heap r ∧ (σ'.heap.pages r).slotSize = (σ.heap.pages r).slotSize ∧
      ((σ'.heap.pages r).ownerTid = (σ.heap.pages r).ownerTid ∨
        (σ.heap.pages r).ownerTid = noOwner ∧ ∃ t spurious answers y,
          a = .step t spurious answers ∧ σ.heap.tls t = some y ∧
          (σ'.heap.pages r).ownerTid = y.threadId) := by
  rcases act_cases he with ⟨hheap, -⟩ | ⟨t, spurious, answers, rfl, hstep⟩ | ⟨t, rfl⟩ |
    ⟨q, x, i, b, -, rfl⟩
  · rw [hheap]
    exact ⟨hact, rfl, Or.inl rfl⟩
  · have e := (h.withAnswers answers).step_effect ho.1 hstep
    obtain ⟨h₁, -, -, h₂⟩ := e.page hact
    refine ⟨e.active hact, h₁, h₂.imp id ?_⟩
    rintro ⟨hno, y, hy, hown⟩
    exact ⟨hno, t, spurious, answers, y, rfl, hy, hown⟩
  · obtain ⟨hs, -⟩ := tldCleanup_frame c σ.heap t
    have hpages : (σ.onHeap (tldCleanup c σ.heap t)).heap.pages = σ.heap.pages := hs.pages
    rw [hpages]
    exact ⟨hs.active_iff.mpr hact, rfl, Or.inl rfl⟩
  · exact ⟨hact, rfl, Or.inl rfl⟩

/-- Who writes into a slot that is out: a client, at the byte it names. -/
theorem act_bytes (h : SlabInv c σ) (ho : Orderly σ a) (he : σ.act c a = some σ') (hout : σ.Out r x)
    (h₁ : x ≤ y) (h₂ : y < x + (σ.heap.pages r).slotSize)
    (hw : ∀ q z i b, a = .write q z i b → z + i ≠ y) : σ'.heap.mem y = σ.heap.mem y := by
  rcases act_cases he with ⟨hheap, -⟩ | ⟨t, spurious, answers, rfl, hstep⟩ | ⟨t, rfl⟩ |
    ⟨q, z, i, b, rfl, rfl⟩
  · rw [hheap]
  · have h' := h.withAnswers answers
    exact (h'.step_effect ho.1 hstep).bytes h' hout h₁ h₂
  · exact congrFun (tldCleanup_frame c σ.heap t).2.2.2 y
  · exact upd_ne (Ne.symm (hw q z i b rfl))

/-- Who changes a local free list: the page's owner. -/
theorem act_local (h : SlabInv c σ) (ho : Orderly σ a) (he : σ.act c a = some σ')
    (hact : Active σ.heap r) (hne : (σ'.heap.pages r).localFree ≠ (σ.heap.pages r).localFree ∨
      (σ'.heap.pages r).localFreeCount ≠ (σ.heap.pages r).localFreeCount) :
    ∃ t spurious answers, a = .step t spurious answers ∧ σ.Mine t r := by
  have hsame : σ'.heap.pages = σ.heap.pages → False := by
    intro heq
    rw [heq] at hne
    exact hne.elim (fun hn => hn rfl) fun hn => hn rfl
  rcases act_cases he with ⟨hheap, -⟩ | ⟨t, spurious, answers, rfl, hstep⟩ | ⟨t, rfl⟩ |
    ⟨q, x, i, b, -, rfl⟩
  · exact absurd (congrArg State.pages hheap) hsame
  · refine ⟨t, spurious, answers, rfl, ?_⟩
    by_contra hno
    obtain ⟨e₁, e₂⟩ := ((h.withAnswers answers).step_effect ho.1 hstep).localList hact hno
    exact hne.elim (fun hn => hn e₁) fun hn => hn e₂
  · exact absurd (tldCleanup_frame c σ.heap t).1.pages hsame
  · exact absurd rfl hsame

end SlabInv

/-! ## Schedules that are written out -/

/-- `k` steps of thread `t` in a row, with no memory from the kernel. -/
def steps (t : Fin n) (k : Nat) : List (SlabAct n) := List.replicate k (.step t false [])

def threadA : Fin 2 := ⟨0, Nat.zero_lt_two⟩

def threadB : Fin 2 := ⟨1, Nat.one_lt_two⟩

/-- Two threads allocate at the same time, step by step in turn, each in an arena of its own. The
second one has its block when the first one is about to return. -/
def bothAlloc : List (SlabAct 2) :=
  [.alloc threadA 16, .alloc threadB 16] ++
    [.step threadA false [some 0x10000000], .step threadB false [some 0x10001000]] ++
    (List.replicate 6 [SlabAct.step threadA false [], .step threadB false []]).flatten ++
    [.step threadA false [some 0x20000000], .step threadB false [some 0x30000000]] ++
    steps threadA 9 ++ steps threadB 10

/-- The first one allocates again, and is in the middle of its bump when the second one is about
to push the first one's first block on the remote stack of the same page. -/
def crossFree : List (SlabAct 2) :=
  [.step threadA false [], .alloc threadA 16] ++ steps threadA 4 ++
    [.free threadB 0x20010000] ++ steps threadB 5

/-- Both return. -/
def bothReturn : List (SlabAct 2) := steps threadA 6 ++ steps threadB 4

/-! ## Blocks -/

/-- Nothing is handed out twice: whatever is in a client's or a call's hand is a whole slot of a
page in use, with an aligned address that is not null, two of them never overlap, and no page is
carved beyond its end. -/
theorem overlap_blocks (h : Reaches (SlabSys.act c) Orderly (SlabSys.initial c n) σ) :
    OneHolder σ.live (fun t => (σ.pcs t).carries) ∧
      (∀ x, σ.Handed x → x ≠ 0 ∧ 16 ∣ x ∧ ∃ k, σ.Block x k ∧ 16 ≤ k) ∧
      (∀ x y k l, x ≠ y → σ.Block x k → σ.Block y l → x + k ≤ y ∨ y + l ≤ x) ∧
      ∀ r, Active σ.heap r → (σ.heap.pages r).bumpOffset ≤ (σ.heap.pages r).bumpEnd := by
  have hinv := slabInv_of_reaches h
  refine ⟨hinv.hands, ?_, ?_, fun r hr => hinv.bump_le hr⟩
  · intro x hx
    obtain ⟨r, ho⟩ := hinv.handed_out hx
    have hslot := hinv.out_slot ho
    have g := hinv.heap.geom ho.1
    refine ⟨isSlot_ne_zero g hslot, ?_, _, ⟨r, ho.1, hslot, rfl⟩, g.slot_ge⟩
    obtain ⟨i, -, rfl⟩ := mem_slotList.mp hslot
    have h₁ : 16 ∣ r.start := Nat.dvd_trans (by decide) g.start_al
    exact Nat.dvd_add h₁ (Nat.dvd_mul_left_of_dvd g.slot_al i)
  · rintro x y k l hne ⟨r, hr, hslot, rfl⟩ ⟨q, hq, hslot', rfl⟩
    by_contra hover
    have hge := (hinv.heap.geom hr).slot_ge
    have hge' := (hinv.heap.geom hq).slot_ge
    have ha : max x y < x + (σ.heap.pages r).slotSize ∧
        max x y < y + (σ.heap.pages q).slotSize := by
      omega
    exact hinv.slots_apart hr hq hslot hslot' hne (Nat.le_max_left x y) ha.1
      (Nat.le_max_right x y) ha.2

theorem overlap_blocks_crossFree :
    (SlabSys.scheduled (.page4k false) (bothAlloc ++ crossFree)).Handed 0x30010000 ∧
      ∃ k, (SlabSys.scheduled (.page4k false) (bothAlloc ++ crossFree)).Block 0x30010000 k ∧
        16 ≤ k := by
  have hlive : 0x30010000 ∈ (SlabSys.scheduled (.page4k false) (bothAlloc ++ crossFree)).live := by
    decide +kernel
  exact ⟨Or.inl hlive,
    ((overlap_blocks (scheduled_reaches _ (bothAlloc ++ crossFree))).2.1 _ (Or.inl hlive)).2.2⟩

/-- A slot that a call is about to return with `*zeroed` set has only zero bytes, whatever the
other threads have been doing. -/
theorem overlap_zeroed (h : Reaches (SlabSys.act c) Orderly (SlabSys.initial c n) σ)
    (hpc : σ.pcs t = .ret x true) (hx : x ≠ 0) :
    ∃ k, σ.Block x k ∧ ∀ i < k, σ.heap.mem (x + i) = 0 := by
  have hinv := slabInv_of_reaches h
  have hknow := hinv.pcs t
  rw [hpc] at hknow
  obtain ⟨r, ho, hclean⟩ := hknow hx
  exact ⟨_, ⟨r, ho.1, hinv.out_slot ho, rfl⟩, fun i hi => hclean rfl (x + i) (by omega) (by omega)⟩

theorem overlap_zeroed_bothAlloc :
    ∃ k, (SlabSys.scheduled (.page4k false) bothAlloc).Block 0x20010000 k ∧
      ∀ i < k, (SlabSys.scheduled (.page4k false) bothAlloc).heap.mem (0x20010000 + i) = 0 :=
  overlap_zeroed (t := threadA) (scheduled_reaches _ bothAlloc) (by decide +kernel) (by decide)

/-! ## Contents -/

/-- The action neither frees `x` nor writes into it. -/
def SlabAct.Spares (x : Nat) : SlabAct n → Prop
  | .free _ p => p ≠ x
  | .write _ y _ _ => y ≠ x
  | _ => True

instance (x : Nat) : (a : SlabAct n) → Decidable (a.Spares x)
  | .free .. | .write .. => inferInstanceAs (Decidable (_ ≠ _))
  | .alloc .. | .step .. | .exit .. => inferInstanceAs (Decidable True)

theorem fastStep_live (σ : SlabSys n) (t : Fin n) (spurious : Bool) (bin : Nat) (r : PageRef)
    (pc : AllocPc) : (σ.fastStep t spurious bin r pc).live = σ.live := by
  unfold SlabSys.fastStep
  simp only
  split <;> rfl

theorem bumpStep_live (σ : SlabSys n) (t : Fin n) (k : ArenaCall) (r : PageRef) (pc : BumpPc) :
    (σ.bumpStep t k r pc).live = σ.live := by
  cases pc <;> rfl

theorem freeLocalStep_live (σ : SlabSys n) (t : Fin n) (r : PageRef) (pc : FreeLocalPc) :
    (σ.freeLocalStep t r pc).live = σ.live := by
  cases pc <;> rfl

theorem freeRemoteStep_live (σ : SlabSys n) (t : Fin n) (spurious : Bool) (r : PageRef)
    (pc : FreeRemotePc) : (σ.freeRemoteStep t spurious r pc).live = σ.live := by
  unfold SlabSys.freeRemoteStep
  simp only
  split <;> rfl

/-- Of the steps of a call only the return hands anything to a client. -/
theorem step_live {spurious : Bool} (he : σ.step c t spurious = some σ') :
    σ'.live = σ.live ∨ ∃ slot zeroed, σ.pcs t = .ret slot zeroed ∧
      σ'.live = if slot = 0 then σ.live else slot :: σ.live := by
  by_cases hret : ∃ slot zeroed, σ.pcs t = .ret slot zeroed
  · obtain ⟨slot, zeroed, hpc⟩ := hret
    simp only [SlabSys.step, hpc] at he
    cases he
    exact Or.inr ⟨slot, zeroed, hpc, rfl⟩
  · refine Or.inl ?_
    unfold SlabSys.step at he
    simp only at he
    split at he
    all_goals first | exact absurd ⟨_, _, ‹_›⟩ hret | skip
    all_goals (repeat' split at he)
    all_goals cases he
    all_goals first
      | rfl
      | exact fastStep_live ..
      | exact bumpStep_live ..
      | exact freeLocalStep_live ..
      | exact freeRemoteStep_live ..

/-- A client keeps what it does not free. -/
theorem act_live (he : σ.act c a = some σ') (hs : a.Spares x) (hx : x ∈ σ.live) : x ∈ σ'.live := by
  rcases act_cases he with ⟨-, hl | ⟨t, ptr, rfl, hl⟩⟩ | ⟨t, spurious, answers, rfl, hstep⟩ |
    ⟨t, rfl⟩ | ⟨q, z, i, b, -, rfl⟩
  · rwa [hl]
  · rw [hl]
    exact (List.mem_erase_of_ne (Ne.symm hs)).mpr hx
  · rcases step_live hstep with hl | ⟨slot, zeroed, -, hl⟩
    · rw [hl]
      exact hx
    · rw [hl]
      split
      · exact hx
      · exact List.mem_cons_of_mem _ hx
  · exact hx
  · exact hx

/-- From the moment a client has a block, and for as long as it neither frees nor writes it, the
block stays the client's with the bytes it had: no other call, no other client and no thread exit
touches it. -/
theorem overlap_contents (h : Reaches (SlabSys.act c) Orderly (SlabSys.initial c n) σ)
    (hx : x ∈ σ.live)
    (hrun : Reaches (SlabSys.act c) (fun τ a => Orderly τ a ∧ a.Spares x) σ σ') :
    x ∈ σ'.live ∧ ∃ k, σ.Block x k ∧ σ'.Block x k ∧
      ∀ i < k, σ'.heap.mem (x + i) = σ.heap.mem (x + i) := by
  have hinv := slabInv_of_reaches h
  obtain ⟨r, hout⟩ := hinv.out x hx
  have hrun' : SlabInv c σ' ∧ x ∈ σ'.live ∧ Active σ'.heap r ∧
      (σ'.heap.pages r).slotSize = (σ.heap.pages r).slotSize ∧
      ∀ y, x ≤ y → y < x + (σ.heap.pages r).slotSize → σ'.heap.mem y = σ.heap.mem y := by
    refine hrun.invariant (I := fun τ => SlabInv c τ ∧ x ∈ τ.live ∧ Active τ.heap r ∧
      (τ.heap.pages r).slotSize = (σ.heap.pages r).slotSize ∧
      ∀ y, x ≤ y → y < x + (σ.heap.pages r).slotSize → τ.heap.mem y = σ.heap.mem y)
      ⟨hinv, hx, hout.1, rfl, fun _ _ _ => rfl⟩ ?_
    rintro τ a τ' ⟨hτ, hlive, hact, hsize, hmem⟩ ⟨ho, hs⟩ he
    -- the block is still out of its page
    have houtτ : τ.Out r x := by
      obtain ⟨q, hq⟩ := hτ.out x hlive
      have hbq := hτ.heap.slot_range hq.1 (hτ.out_slot hq)
      have hgq := (hτ.heap.geom hq.1).slot_ge
      have hb := hinv.heap.slot_range hout.1 (hinv.out_slot hout)
      have hg := (hinv.heap.geom hout.1).slot_ge
      obtain rfl := hτ.heap.page_unique hq.1.1 hact.1 (y := x) hbq.1 (by omega) hb.1 (by omega)
      exact hq
    obtain ⟨hact', hsize', -⟩ := hτ.act_page ho he hact
    refine ⟨hτ.act ho he, act_live he hs hlive, hact', hsize'.trans hsize, fun y h₁ h₂ => ?_⟩
    rw [hτ.act_bytes ho he houtτ h₁ (by rw [hsize]; exact h₂) ?_]
    · exact hmem y h₁ h₂
    · rintro q z i b rfl heq
      obtain ⟨⟨hz, hzq, hi⟩, -⟩ := Option.ite_none_right_eq_some.mp he
      have hactq := hτ.inUse hzq
      exact hτ.slots_apart hactq houtτ.1 (hτ.out_slot ⟨hactq, hzq⟩) (hτ.out_slot houtτ) hs (a := y)
        (by omega)
        (by omega) h₁ (by rw [hsize]; exact h₂)
  obtain ⟨hinv', hlive, hact, hsize, hmem⟩ := hrun'
  refine ⟨hlive, _, ⟨r, hout.1, hinv.out_slot hout, rfl⟩, ⟨r, hact, ?_, hsize.symm⟩,
    fun i hi => hmem (x + i) (by omega) (by omega)⟩
  have g := hinv.heap.geom hout.1
  have g' := hinv'.heap.geom hact
  exact (isSlot_congr hsize (by rw [g.cap_eq, g'.cap_eq, hsize])).mpr (hinv.out_slot hout)

/-- `Orderly`, and no action on `x`, as a test. -/
def keepsOff (x : Nat) (σ : SlabSys n) (a : SlabAct n) : Bool :=
  keepsOrder σ a && decide (a.Spares x)

theorem keepsOff_sound (x : Nat) (σ : SlabSys n) (a : SlabAct n) (h : keepsOff x σ a = true) :
    Orderly σ a ∧ a.Spares x := by
  obtain ⟨ho, hs⟩ := Bool.and_eq_true_iff.mp h
  exact ⟨keepsOrder_sound σ a ho, of_decide_eq_true hs⟩

theorem overlap_contents_crossFree :
    0x30010000 ∈ (replayed (SlabSys.act (.page4k false)) (keepsOff 0x30010000)
      (SlabSys.scheduled (.page4k false) bothAlloc) (crossFree ++ bothReturn)).live :=
  (overlap_contents (x := 0x30010000) (scheduled_reaches _ bothAlloc) (by decide +kernel)
    (reaches_replayed (keepsOff_sound 0x30010000) _ (crossFree ++ bothReturn))).1

/-! ## At rest -/

theorem plus_zero {p : PageMeta} (h : p.used < 2 ^ 16) : p.plus 0 = p := by
  unfold PageMeta.plus
  rw [Nat.add_zero, Nat.mod_eq_of_lt h]

/-- With no call in progress a page is divided as between two whole calls. -/
theorem SlabInv.slots_idle (h : SlabInv c σ) (hidle : ∀ t, σ.pcs t = .idle)
    (hact : Active σ.heap r) :
    ∃ k loc rem, Slots σ.heap.mem r (σ.heap.pages r) k loc rem (σ.held r) := by
  obtain ⟨hused, o, loc, walk, hrole, hcons⟩ := h.pages r hact
  have howed : σ.owed r = 0 := Finset.sum_eq_zero fun t _ => by rw [hidle t]; rfl
  have hquiet : (σ.view r o).Quiet := by
    refine ⟨?_, fun t => ?_⟩
    · cases hrole with
      | free => rfl
      | busy t ht => rw [hidle t] at ht; exact absurd ht (by simp [SlabPc.ownerOf])
    · show (σ.pcs t).remoteOf r = none
      rw [hidle t]
      rfl
  obtain ⟨k, hs⟩ := hcons.slots ((h.heap.geom hact).plus _) hquiet
  rw [show (σ.view r o).page = σ.heap.pages r by
    show (σ.heap.pages r).plus (σ.owed r) = _
    rw [howed, plus_zero hused]] at hs
  exact ⟨k, loc, _, hs⟩

/-- When every call has returned, the heap is as whole calls leave it: it satisfies the invariant
of whole calls with the slots that are out as the busy ones. In each page in use the local list,
the remote stack, the slots that are out and the untouched rest make up the page, and all three
counters are right. -/
theorem overlap_at_rest (h : Reaches (SlabSys.act c) Orderly (SlabSys.initial c n) σ)
    (hdebug : c.debug = false) (hidle : ∀ t, σ.pcs t = .idle) :
    Inv c σ.heap ⟨σ.held, fun _ => 0⟩ ∧ (∀ x ∈ σ.live, ∃ r, x ∈ σ.held r) ∧
      ∀ r, Active σ.heap r → ∃ k loc rem, Slots σ.heap.mem r (σ.heap.pages r) k loc rem
        (σ.held r) := by
  have hinv := slabInv_of_reaches h
  have hflat := hinv.heap.inv
  refine ⟨⟨hflat.regions, hflat.segOk, ⟨?_, ?_⟩, hflat.bins, hflat.segLists, hflat.tlds,
    hflat.registry,
    hflat.larges⟩, fun x hx => ?_, fun r hr => hinv.slots_idle hidle hr⟩
  · intro r g hg h₁ h₂
    have hd : IsData σ.heap.segs r := ⟨by rw [hg]; rfl, h₁, h₂⟩
    cases hflat.pages.data (r := r) hg h₁ h₂ with
    | unused hs _ _ _ =>
      obtain ⟨hb, hz⟩ := hinv.heap.zero r hd hs
      refine .unused hs hb ?_ hz
      refine List.eq_nil_iff_forall_not_mem.mpr fun x hx => ?_
      cases (hinv.inUse hx).2.symm.trans hs
    | active hpage ha =>
      have hact : Active σ.heap r := ⟨hd, hpage.geom.active⟩
      exact .active ⟨hinv.heap.geom hact, hinv.slots_idle hidle hact,
        fun hd => absurd (hdebug.symm.trans hd) (by simp)⟩ ha
  · intro r hno
    exact List.eq_nil_iff_forall_not_mem.mpr fun x hx => hno (hinv.inUse hx).1
  · obtain ⟨r, ho⟩ := hinv.out x hx
    exact ⟨r, ho.2⟩

theorem overlap_at_rest_bothReturn :
    Inv (.page4k false)
      (SlabSys.scheduled (.page4k false) (bothAlloc ++ crossFree ++ bothReturn)).heap
      ⟨(SlabSys.scheduled (.page4k false) (bothAlloc ++ crossFree ++ bothReturn)).held,
        fun _ => 0⟩ :=
  (overlap_at_rest (scheduled_reaches _ (bothAlloc ++ crossFree ++ bothReturn)) rfl
    (by decide +kernel)).1

/-! ## Ownership -/

theorem SlabInv.cached (h : SlabInv c σ) {y : Tld} {t b : Nat} (hy : σ.heap.tls t = some y)
    (hr : y.binPage b = some r) : Active σ.heap r ∧ (σ.heap.pages r).ownerTid = y.threadId ∧
      (σ.heap.pages r).binIdx = b ∧ y.arena = some (σ.heap.pages r).arena := by
  obtain ⟨hd, hst, hb, -⟩ := h.heap.cache hy b r hr
  have ho := h.heap.homes.cached t y b r hy hr
  exact ⟨⟨hd, hst⟩, ho, hb, h.heap.homes.home t y r hy ⟨hd, hst⟩ ho⟩

theorem SlabInv.cached_once (h : SlabInv c σ) {y z : Tld} {t u b b' : Nat}
    (hy : σ.heap.tls t = some y) (hz : σ.heap.tls u = some z) (hr : y.binPage b = some r)
    (hr' : z.binPage b' = some r) : t = u :=
  h.heap.ids.distinct t u y z hy hz ((h.cached hy hr).2.1.symm.trans (h.cached hz hr').2.1)

/-- A page that a thread caches is in use, has the thread's id in `owner_tid`, the right bin and
the thread's arena, which the thread has; no page is cached by two threads; and whatever happens
later, a page in use stays in use and its owner, once there is one, stays the owner. -/
theorem overlap_ownership (h : Reaches (SlabSys.act c) Orderly (SlabSys.initial c n) σ)
    (hrun : Reaches (SlabSys.act c) Orderly σ σ') :
    (∀ t y b r, σ.heap.tls t = some y → y.binPage b = some r → Active σ.heap r ∧
      (σ.heap.pages r).ownerTid = y.threadId ∧ (σ.heap.pages r).binIdx = b ∧
      y.arena = some (σ.heap.pages r).arena) ∧
    (∀ t u y z b b' r, σ.heap.tls t = some y → σ.heap.tls u = some z → y.binPage b = some r →
      z.binPage b' = some r → t = u) ∧
    ∀ r, Active σ.heap r → Active σ'.heap r ∧ ((σ.heap.pages r).ownerTid ≠ noOwner →
      (σ'.heap.pages r).ownerTid = (σ.heap.pages r).ownerTid) := by
  have hinv := slabInv_of_reaches h
  refine ⟨fun t y b r hy hr => ?_, fun t u y z b b' r hy hz hr hr' => ?_, fun r hact => ?_⟩
  · exact hinv.cached hy hr
  · exact hinv.cached_once hy hz hr hr'
  · have hrun' : SlabInv c σ' ∧ Active σ'.heap r ∧ ((σ.heap.pages r).ownerTid ≠ noOwner →
        (σ'.heap.pages r).ownerTid = (σ.heap.pages r).ownerTid) := by
      refine hrun.invariant (I := fun τ => SlabInv c τ ∧ Active τ.heap r ∧
        ((σ.heap.pages r).ownerTid ≠ noOwner →
          (τ.heap.pages r).ownerTid = (σ.heap.pages r).ownerTid)) ⟨hinv, hact, fun _ => rfl⟩ ?_
      rintro τ a τ' ⟨hτ, hactτ, hstay⟩ ho he
      obtain ⟨hact', -, howner⟩ := hτ.act_page ho he hactτ
      refine ⟨hτ.act ho he, hact', fun hne => ?_⟩
      rcases howner with heq | ⟨hno, -⟩
      · exact heq.trans (hstay hne)
      · exact absurd ((hstay hne).symm.trans hno) hne
    exact hrun'.2

theorem overlap_ownership_crossFree :
    Active (replayed (SlabSys.act (.page4k false)) keepsOrder
        (SlabSys.scheduled (.page4k false) bothAlloc) (crossFree ++ bothReturn)).heap
        ⟨0x30000000, 1⟩ ∧
      ((replayed (SlabSys.act (.page4k false)) keepsOrder
        (SlabSys.scheduled (.page4k false) bothAlloc) (crossFree ++ bothReturn)).heap.pages
          ⟨0x30000000, 1⟩).ownerTid =
        ((SlabSys.scheduled (.page4k false) bothAlloc).heap.pages ⟨0x30000000, 1⟩).ownerTid := by
  have hact : Active (SlabSys.scheduled (.page4k false) bothAlloc).heap ⟨0x30000000, 1⟩ :=
    ⟨⟨by decide +kernel, by decide, by decide⟩, by decide +kernel⟩
  obtain ⟨hact', hown⟩ := (overlap_ownership (scheduled_reaches _ bothAlloc)
    (reaches_replayed keepsOrder_sound _ (crossFree ++ bothReturn))).2.2 _ hact
  exact ⟨hact', hown (by decide +kernel)⟩

/-- A step that changes `local_free` or `local_free_count` of a page in use is one of the thread
whose id is in `owner_tid`. -/
theorem overlap_local_writer (h : Reaches (SlabSys.act c) Orderly (SlabSys.initial c n) σ)
    (ho : Orderly σ a) (he : σ.act c a = some σ') (hact : Active σ.heap r)
    (hne : (σ'.heap.pages r).localFree ≠ (σ.heap.pages r).localFree ∨
      (σ'.heap.pages r).localFreeCount ≠ (σ.heap.pages r).localFreeCount) :
    ∃ t spurious answers y, a = .step t spurious answers ∧ σ.heap.tls t = some y ∧
      (σ.heap.pages r).ownerTid = y.threadId := by
  obtain ⟨t, spurious, answers, rfl, -, y, hy, hown⟩ :=
    (slabInv_of_reaches h).act_local ho he hact hne
  exact ⟨t, spurious, answers, y, rfl, hy, hown⟩

/-- The second thread frees its block and is about to store `local_free`. -/
def ownFree : List (SlabAct 2) := bothAlloc ++ [.free threadB 0x30010000] ++ steps threadB 5

theorem overlap_local_writer_ownFree :
    ∃ (t : Fin 2) (y : Tld), (SlabSys.scheduled (.page4k false) ownFree).heap.tls t = some y ∧
      ((SlabSys.scheduled (.page4k false) ownFree).heap.pages ⟨0x30000000, 1⟩).ownerTid =
        y.threadId := by
  have hstep : ((SlabSys.scheduled (.page4k false) ownFree).act (.page4k false)
      (.step threadB false [])).any (fun σ' => decide ((σ'.heap.pages ⟨0x30000000, 1⟩).localFree ≠
        ((SlabSys.scheduled (.page4k false) ownFree).heap.pages
          ⟨0x30000000, 1⟩).localFree)) = true := by
    decide +kernel
  obtain ⟨σ', he, hne⟩ := (Option.any_eq_true ..).mp hstep
  have hact : Active (SlabSys.scheduled (.page4k false) ownFree).heap ⟨0x30000000, 1⟩ :=
    ⟨⟨by decide +kernel, by decide, by decide⟩, by decide +kernel⟩
  have ho := keepsOrder_sound (SlabSys.scheduled (.page4k false) ownFree) (.step threadB false [])
    (by decide +kernel)
  obtain ⟨t, -, -, y, -, hy, hown⟩ :=
    overlap_local_writer (scheduled_reaches _ ownFree) ho he hact (Or.inl (of_decide_eq_true hne))
  exact ⟨t, y, hy, hown⟩

end CustomMalloc

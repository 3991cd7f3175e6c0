import CustomMalloc.Props.Overlap

/-!
# No deadlock

A call is held up only by an arena's lock, and whoever holds a lock waits for nothing: between
`pthread_mutex_lock` and `pthread_mutex_unlock` no step is undefined and no other lock is taken.
-/

namespace CustomMalloc

open Lib.Words Lib.Bytes Lib.Chain Lib.Interleave Lib.Post

variable {n : Nat} {c : Cfg} {σ σ' : SlabSys n} {r q : PageRef} {t u : Fin n} {x : Nat}

/-- The statistics of a thread that has an arena can always be stored. -/
theorem tldStatStore_ok (s : State) (t : Nat) {y : Tld} {a : Nat} (ha : y.arena = some a) :
    ∃ s', tldStatStore s t y = .ok s' := by
  unfold tldStatStore tldStatFlush
  rw [ha]
  split
  · exact ⟨_, rfl⟩
  · exact ⟨_, rfl⟩

/-- `arena_alloc` gets a page or learns that there is no memory. -/
theorem HeapOk.newPage_ok {s : State} (h : HeapOk c s) {a bin : Nat} (hbin : BinOk bin) :
    ∃ o s', arenaNewPage c s a bin = .ok (o, s') := by
  have hspec := arenaNewPage_spec (a := a) h.inv hbin.1 hbin.2
  rw [arenaNewPage_flat] at hspec
  cases he : arenaNewPage c s a bin with
  | error e =>
    rw [he] at hspec
    exact hspec.elim
  | ok p => exact ⟨p.1, p.2, rfl⟩

namespace SlabInv

/-- A thread that owns a page has an arena. -/
theorem mine_arena (h : SlabInv c σ) (hm : σ.Mine t r) :
    ∃ y a, σ.heap.tls t = some y ∧ y.arena = some a := by
  obtain ⟨hact, y, hy, hown⟩ := hm
  exact ⟨y, _, hy, h.heap.homes.home t y r hy hact hown⟩

/-- A call that does not wait for a lock can go on. -/
theorem can_step (h : SlabInv c σ) (hnext : 0 ≤ σ.heap.arenaNext) (hpc : σ.pcs t ≠ .idle)
    (hfree : ∀ k, σ.pcs t = .lock k → σ.locks k.arena = none) (spurious : Bool) :
    ∃ σ', σ.step c t spurious = some σ' := by
  have hknow := h.pcs t
  unfold SlabSys.step
  cases hp : σ.pcs t with
  | idle => exact absurd hp hpc
  | look bin =>
    rw [hp] at hknow
    obtain ⟨y, hy⟩ := Option.isSome_iff_exists.mp hknow.2
    simp only [hy]
    split
    · exact ⟨_, rfl⟩
    · split <;> exact ⟨_, rfl⟩
  | book r slot zeroed =>
    rw [hp] at hknow
    obtain ⟨y, a, hy, ha⟩ := h.mine_arena hknow.1
    obtain ⟨s', hs'⟩ := tldStatStore_ok σ.heap t (y := { y with
      statAllocated := (y.statAllocated + (σ.heap.pages r).slotSize) % 2 ^ 64
      statAllocCount := (y.statAllocCount + 1) % 2 ^ 64
      statOps := (y.statOps + 1) % 2 ^ 32 }) ha
    simp only [hy, tldStatAlloc, hs']
    exact ⟨_, rfl⟩
  | clear bin =>
    rw [hp] at hknow
    obtain ⟨y, hy⟩ := Option.isSome_iff_exists.mp hknow.2
    simp only [hy]
    exact ⟨_, rfl⟩
  | enter bin | again bin hasTld | join k | head k | owner k r | test k r | follow k r
  | find bin slot zeroed | freeTld x r =>
    simp only
    split <;> exact ⟨_, rfl⟩
  | next bin hasTld =>
    have hidx : ¬ σ.heap.arenaNext.tmod numArenas < 0 :=
      Int.not_lt.mpr (Int.tmod_nonneg _ hnext)
    simp only [if_neg hidx]
    exact ⟨_, rfl⟩
  | lock k =>
    simp only [if_pos (hfree k hp)]
    exact ⟨_, rfl⟩
  | grow k =>
    rw [hp] at hknow
    have hcall : CallOk σ t k := hknow
    obtain ⟨o, s', he⟩ := h.heap.newPage_ok (a := k.arena) hcall.bin
    simp only [he]
    cases o with
    | none => exact ⟨_, rfl⟩
    | some r => exact ⟨_, rfl⟩
  | claim bin slot zeroed r =>
    rw [hp] at hknow
    have hgot : σ.Got t bin slot zeroed r := hknow
    obtain ⟨y, hy, -⟩ := hgot.attached
    simp only [hy]
    split
    · exact ⟨_, rfl⟩
    · split <;> exact ⟨_, rfl⟩
  | cache bin slot zeroed r =>
    rw [hp] at hknow
    obtain ⟨y, hy, -⟩ := hknow.1.attached
    simp only [hy]
    exact ⟨_, rfl⟩
  | freeFind x =>
    simp only
    split
    · exact ⟨_, rfl⟩
    · split
      · exact ⟨_, rfl⟩
      · split <;> exact ⟨_, rfl⟩
  | freeOwner x r =>
    rw [hp] at hknow
    obtain ⟨y, hy⟩ := Option.isSome_iff_exists.mp hknow.2.2
    simp only [hy]
    split <;> exact ⟨_, rfl⟩
  | freeStat r =>
    rw [hp] at hknow
    obtain ⟨y, a, hy, ha⟩ := h.mine_arena hknow
    obtain ⟨s', hs'⟩ := tldStatStore_ok σ.heap t (y := { y with
      statFreed := (y.statFreed + (σ.heap.pages r).slotSize) % 2 ^ 64
      statFreeCount := (y.statFreeCount + 1) % 2 ^ 64
      statOps := (y.statOps + 1) % 2 ^ 32 }) ha
    simp only [hy, tldStatFree, hs']
    exact ⟨_, rfl⟩
  | fast | bump | credit | unlock | ret | freeLocal | freeRemote | freeCredit => exact ⟨_, rfl⟩

/-- A step is possible whatever the kernel is going to answer. -/
theorem can_act (h : SlabInv c σ) (hnext : 0 ≤ σ.heap.arenaNext) (hpc : σ.pcs t ≠ .idle)
    (hfree : ∀ k, σ.pcs t = .lock k → σ.locks k.arena = none) (spurious : Bool)
    (answers : List (Option Nat)) : ∃ σ', σ.act c (.step t spurious answers) = some σ' :=
  (h.withAnswers answers).can_step hnext hpc hfree spurious

end SlabInv

/-- At most one thread is between the lock and the unlock of an arena, and calls never get stuck:
a call can go on, or it waits for an arena's lock whose holder can go on. Nothing else holds a
call up, and no step on the way is undefined, as long as `arena_next` has not passed `INT_MAX`. -/
theorem overlap_progress (h : Reaches (SlabSys.act c) Orderly (SlabSys.initial c n) σ)
    (hnext : 0 ≤ σ.heap.arenaNext) (hpc : σ.pcs t ≠ .idle) :
    (∀ u v a, (σ.pcs u).locking = some a → (σ.pcs v).locking = some a → u = v) ∧
      ∃ u, (u = t ∨ ∃ k, σ.pcs t = .lock k ∧ σ.locks k.arena = some u) ∧
        ∀ spurious answers, ∃ σ', σ.act c (.step u spurious answers) = some σ' := by
  have hinv := slabInv_of_reaches h
  refine ⟨fun u v a hu hv => hinv.locking_unique hu hv, ?_⟩
  by_cases hwait : ∃ k u, σ.pcs t = .lock k ∧ σ.locks k.arena = some u
  · obtain ⟨k, u, hk, hu⟩ := hwait
    refine ⟨u, Or.inr ⟨k, hk, hu⟩, fun spurious answers => ?_⟩
    -- the holder is past the lock, so it is at none
    have hlocking := (hinv.locks k.arena u).mp hu
    refine hinv.can_act hnext ?_ ?_ spurious answers
    · intro hidle
      rw [hidle] at hlocking
      exact absurd hlocking (by simp [SlabPc.locking])
    · intro k' hk'
      rw [hk'] at hlocking
      exact absurd hlocking (by simp [SlabPc.locking])
  · refine ⟨t, Or.inl rfl, hinv.can_act hnext hpc fun k hk => ?_⟩
    cases hl : σ.locks k.arena with
    | none => rfl
    | some u => exact absurd ⟨k, u, hk, hl⟩ hwait

theorem overlap_progress_crossFree :
    ∃ u : Fin 2, ∀ spurious answers, ∃ σ',
      (SlabSys.scheduled (.page4k false) (bothAlloc ++ crossFree)).act (.page4k false)
        (.step u spurious answers) = some σ' := by
  obtain ⟨-, u, -, hgo⟩ := overlap_progress (t := threadB)
    (scheduled_reaches (.page4k false) (bothAlloc ++ crossFree)) (by decide +kernel)
    (by decide +kernel)
  exact ⟨u, hgo⟩

end CustomMalloc

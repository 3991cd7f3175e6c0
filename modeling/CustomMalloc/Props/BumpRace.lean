import CustomMalloc.Props.Sequential

/-!
# The race for the bump

`arena_alloc` bumps pages that have no owner, under the arena's lock; the owner of a page bumps
it without the lock. A thread claims a page after it has left the lock, so it can do so while
another one is inside, past its look at `owner_tid`. Then two threads bump one page.

In the runs where that does not happen (`Orderly`) no slot is handed out twice and pages keep
their owner, bin and arena. The schedules of this module show what happens otherwise: a slot
goes to two callers; and at the end of a page whose slots fill it exactly, a caller gets the
first bytes of the next page, which it then takes for its own and caches.
-/

namespace CustomMalloc

open Lib.Words Lib.Bytes Lib.Chain Lib.Interleave Lib.Hands

variable {n : Nat} {c : Cfg} {σ σ' τ τ' τ₀ : SlabSys n} {r : PageRef} {t : Fin n} {s s' : State}
  {a : SlabAct n}

/-! ## Slots -/

/-- No two calls return or are about to return the same slot, no page is bumped beyond its end, and
what is out of a page lies in it. -/
theorem single_writer (h : Reaches (SlabSys.act c) Orderly (SlabSys.initial c n) σ) :
    σ.live.Nodup ∧ (∀ t x, (σ.pcs t).carries = some x → x ∉ σ.live) ∧
      (∀ t u x, (σ.pcs t).carries = some x → (σ.pcs u).carries = some x → t = u) ∧
      ∀ r, Active σ.heap r → (σ.heap.pages r).bumpOffset ≤ (σ.heap.pages r).bumpEnd ∧
        ∀ x ∈ σ.held r, r.start ≤ x ∧ x + (σ.heap.pages r).slotSize ≤ r.start + 65536 := by
  have hinv := slabInv_of_reaches h
  refine ⟨hinv.hands.nodup, fun t x => hinv.hands.apart, fun t u x => hinv.hands.once,
    fun r hr => ?_⟩
  exact ⟨hinv.bump_le hr, fun x hx => hinv.heap.slot_range hr (hinv.out_slot ⟨hr, hx⟩)⟩

theorem single_writer_bothAlloc :
    (SlabSys.scheduled (.page4k false) bothAlloc).live = [0x30010000] ∧
      (SlabSys.scheduled (.page4k false) bothAlloc).live.Nodup :=
  ⟨by decide +kernel, (single_writer (scheduled_reaches _ bothAlloc)).1⟩

/-- The thread that takes a step has an id or gets one that is free. Nothing is said about the
order of the steps. -/
def Numbered (σ : SlabSys n) (a : SlabAct n) : Prop :=
  ∀ t spurious answers, a = .step t spurious answers → HasId σ.heap t

/-- `Numbered` as a test. -/
def findsId (σ : SlabSys n) : SlabAct n → Bool
  | .step t _ _ => (σ.heap.tls t).isSome || decide (σ.heap.threadIdCounter < noOwner)
  | _ => true

theorem findsId_sound (σ : SlabSys n) (a : SlabAct n) (h : findsId σ a = true) : Numbered σ a := by
  rintro t spurious answers rfl hn
  simp only [findsId, hn] at h
  exact of_decide_eq_true h

/-- Thread 4 sets up a page and claims it, and in between thread 0 takes `k` steps, in which it
sees the page unowned under the lock. -/
def raceStart (size k : Nat) : List (SlabAct 5) :=
  -- threads 1 to 3 only take their arenas, so that thread 4 gets that of thread 0
  ([0, 1, 2, 3].map fun t : Fin 5 =>
    [SlabAct.alloc t size, .step t false [some (0x10000000 + 0x1000 * t.val)]] ++
      steps t 3).flatten ++
    [.alloc 4 size, .step 4 false [some 0x10004000]] ++ steps 4 6 ++
    [.step 4 false [some 0x20000000]] ++ steps 4 6 ++ steps 0 k ++ steps 4 4

/-- Without the order on the bumps, a slot is handed out twice: the lock keeps two threads in
`arena_alloc` apart, and `owner_tid` two threads on the fast path, but neither keeps a thread in
`arena_alloc` apart from the one that claims the page behind it. Thread 0 has computed the slot it
will take when thread 4 takes it. -/
theorem raceForBump_twice :
    ∃ σ : SlabSys 5, Reaches (SlabSys.act (.page4k false)) Numbered
      (SlabSys.initial (.page4k false) 5) σ ∧ σ.live = [0x20010010, 0x20010010, 0x20010000] :=
  ⟨_, reaches_replayed findsId_sound _
    (raceStart 16 6 ++ [.alloc 4 16] ++ steps 4 10 ++ steps 0 8), by decide +kernel⟩

/-! ## Ownership -/

/-- A cached page is owned by the thread, of the right bin and of the thread's arena, and no other
thread caches it. An action that changes `owner_tid` of a page in use is the claim of a page without
owner, and one that changes its local list is a step of the owner. -/
theorem page_ownership (h : Reaches (SlabSys.act c) Orderly (SlabSys.initial c n) σ) :
    (∀ t y b r, σ.heap.tls t = some y → y.binPage b = some r →
      (σ.heap.pages r).ownerTid = y.threadId ∧ (σ.heap.pages r).binIdx = b ∧
        y.arena = some (σ.heap.pages r).arena ∧
        ∀ u z b', σ.heap.tls u = some z → z.binPage b' = some r → u = t) ∧
    ∀ a σ' r, Orderly σ a → σ.act c a = some σ' → Active σ.heap r →
      Active σ'.heap r ∧
      ((σ'.heap.pages r).ownerTid ≠ (σ.heap.pages r).ownerTid →
        (σ.heap.pages r).ownerTid = noOwner ∧ ∃ t spurious answers y,
          a = .step t spurious answers ∧ σ.heap.tls t = some y ∧
          (σ'.heap.pages r).ownerTid = y.threadId ∧ y.threadId < noOwner) ∧
      ((σ'.heap.pages r).localFree ≠ (σ.heap.pages r).localFree ∨
        (σ'.heap.pages r).localFreeCount ≠ (σ.heap.pages r).localFreeCount →
        ∃ t spurious answers y, a = .step t spurious answers ∧ σ.heap.tls t = some y ∧
          (σ.heap.pages r).ownerTid = y.threadId) := by
  have hinv := slabInv_of_reaches h
  refine ⟨fun t y b r hy hr => ?_, fun a σ' r ho he hact => ?_⟩
  · obtain ⟨-, hmine, hb, ha⟩ := hinv.cached hy hr
    exact ⟨hmine, hb, ha, fun u z b' hz hr' => hinv.cached_once hz hy hr' hr⟩
  · obtain ⟨hact', -, howner⟩ := hinv.act_page ho he hact
    refine ⟨hact', fun hne => ?_, fun hne => ?_⟩
    · obtain ⟨hno, t, spurious, answers, y, rfl, hy, hnew⟩ := howner.resolve_left hne
      refine ⟨hno, t, spurious, answers, y, rfl, hy, hnew, ?_⟩
      exact Nat.lt_of_lt_of_le (hinv.heap.ids.lt t y hy) hinv.heap.ids.counter
    · obtain ⟨t, spurious, answers, rfl, -, y, hy, hmine⟩ := hinv.act_local ho he hact hne
      exact ⟨t, spurious, answers, y, rfl, hy, hmine⟩

theorem page_ownership_bothAlloc :
    ∃ y, (SlabSys.scheduled (.page4k false) bothAlloc).heap.tls 0 = some y ∧
      y.binPage 1 = some ⟨0x20000000, 1⟩ ∧
      ((SlabSys.scheduled (.page4k false) bothAlloc).heap.pages ⟨0x20000000, 1⟩).ownerTid =
        y.threadId := by
  obtain ⟨y, hy, hr⟩ := (Option.any_eq_true ..).mp (show
    ((SlabSys.scheduled (.page4k false) bothAlloc).heap.tls 0).any
      (fun y => decide (y.binPage 1 = some ⟨0x20000000, 1⟩)) = true by decide +kernel)
  have hr := of_decide_eq_true hr
  exact ⟨y, hy, hr, ((page_ownership (scheduled_reaches _ bothAlloc)).1 0 y 1 _ hy hr).1⟩

/-! ## Beyond the end of a page -/

/-- What one thread does in any state of the others. -/
theorem Solo.numbered (h : Solo c t τ τ') (hid : HasId τ.heap t)
    (h₀ : Reaches (SlabSys.act c) Numbered τ₀ τ) :
    Reaches (SlabSys.act c) Numbered τ₀ τ' ∧ HasId τ'.heap t := by
  induction h with
  | refl => exact ⟨h₀, hid⟩
  | @tail τ₁ τ₂ _ hstep ih =>
    obtain ⟨hr, hid⟩ := ih
    refine ⟨hr.next (.step t false τ₁.heap.answers) ?_ hstep, (step_turn hstep).threads.hasId hid⟩
    intro u spurious answers he
    cases he
    exact hid

/-- A call that finds room in the cached page needs no lock. -/
theorem fastCall (hdebug : c.debug = false) (h₀ : Reaches (SlabSys.act c) Numbered τ₀ σ) {y : Tld}
    {size bin slot : Nat} {zeroed : Bool} (hidle : σ.pcs t = .idle) (hbin : slabBin size = some bin)
    (hy : σ.heap.tls t = some y) (hr : y.binPage bin = some r)
    (hact : (σ.heap.pages r).state = .active)
    (he : cachedAlloc c σ.heap t y bin r = .ok (some (slot, zeroed), s')) :
    ∃ σ', Reaches (SlabSys.act c) Numbered τ₀ σ' ∧ σ'.heap = s' ∧ σ'.pcs = upd σ.pcs t .idle := by
  have hstart : Reaches (SlabSys.act c) Numbered τ₀ (σ.goto t (.enter bin)) :=
    h₀.next (.alloc t size) (fun _ _ _ he => by cases he)
      (by simp only [SlabSys.act, hbin, if_pos hidle])
  have hgot : tldGet c σ.heap t = (some y, σ.heap) := by simp only [tldGet, hy]
  have hgo : Goes c t (σ.goto t (.enter bin)) s' σ.locks (.ret slot zeroed) := by
    refine (Goes.store σ.heap (.look bin) ?_).andThen fun ρ hat hheap hlocks => ?_
    · simp only [SlabSys.step, SlabSys.goto, upd_same, hgot]
    rw [← hheap] at hy he hact
    refine (Goes.move (.fast bin r .test) ?_).andThen fun κ hat hheap' hlocks' => ?_
    · simp only [SlabSys.step, hat, hy, hr, if_pos hact]
    rw [← hheap'] at hy he
    have := cached_goes hdebug hat hy he
    rwa [hlocks', hlocks] at this
  obtain ⟨ρ, hrun, hw⟩ := hgo
  obtain ⟨hreach, hid⟩ := hrun.numbered (fun hn => absurd (hn.symm.trans hy) (by simp)) hstart
  refine ⟨{ ρ with live := if slot = 0 then ρ.live else slot :: ρ.live }.goto t .idle,
    hreach.next (.step t false ρ.heap.answers) (fun u _ _ he => by cases he; exact hid) ?_,
    hw.heap, ?_⟩
  · show ρ.step c t false = _
    simp only [SlabSys.step, hw.at]
  · show upd ρ.pcs t .idle = _
    rw [hw.pcs]
    funext u
    by_cases hu : u = t
    · rw [hu, upd_same, upd_same]
    · rw [upd_ne hu, upd_ne hu, upd_ne hu]
      exact upd_ne hu

/-- The fast path bumps the cached page. -/
theorem cachedAlloc_bumps (hdebug : c.debug = false) {y : Tld} {a : Nat} (u bin : Nat)
    (hlocal : (s.pages r).localFree = 0) (hbump : (s.pages r).bumpOffset < (s.pages r).bumpEnd)
    (ha : y.arena = some a) :
    ∃ s' y', cachedAlloc c s u y bin r =
        .ok (some (pageStart (s.pages r) + (s.pages r).bumpOffset, true), s') ∧
      s'.pages = upd s.pages r (bumpSlot (s.pages r)) ∧ s'.segmentRegistry = s.segmentRegistry ∧
      s'.tls = upd s.tls u (some y') ∧ y'.binPage = y.binPage ∧ y'.arena = some a := by
  unfold cachedAlloc takeSlot markAllocated tldStatAlloc tldStatStore tldStatFlush
  simp only [hdebug, hlocal, ha, if_pos hbump]
  by_cases hflush : statFlushInterval ≤ (y.statOps + 1) % 2 ^ 32
  · simp only [if_pos hflush]
    exact ⟨_, _, rfl, rfl, rfl, rfl, rfl, rfl⟩
  · simp only [if_neg hflush]
    exact ⟨_, _, rfl, rfl, rfl, rfl, rfl, rfl⟩

/-- Thread 4 has taken `j` slots of its page since thread 0 saw the page unowned. The page is full
after 512, and the next page has never been set up. -/
structure Filling (j : Nat) (σ : SlabSys 5) : Prop where
  paused : σ.pcs 0 = .bump ⟨15, true, 0⟩ ⟨0x20000000, 1⟩ .read
  idle : σ.pcs 4 = .idle
  registry : segmentIsRegistered σ.heap.segmentRegistry 0x20000000 = true
  waiting : ∃ z, σ.heap.tls 0 = some z ∧ z.threadId = 0
  caching : ∃ y, σ.heap.tls 4 = some y ∧ y.binPage 15 = some ⟨0x20000000, 1⟩ ∧ y.arena = some 0
  active : (σ.heap.pages ⟨0x20000000, 1⟩).state = .active
  start : pageStart (σ.heap.pages ⟨0x20000000, 1⟩) = 0x20010000
  noLocal : (σ.heap.pages ⟨0x20000000, 1⟩).localFree = 0
  bump : (σ.heap.pages ⟨0x20000000, 1⟩).bumpOffset = 128 * j ∧
    (σ.heap.pages ⟨0x20000000, 1⟩).bumpEnd = 65536 ∧ (σ.heap.pages ⟨0x20000000, 1⟩).slotSize = 128
  beyond : (σ.heap.pages ⟨0x20000000, 2⟩).state = .unused ∧
    (σ.heap.pages ⟨0x20000000, 2⟩).ownerTid = 0 ∧ (σ.heap.pages ⟨0x20000000, 2⟩).binIdx = 0

section Overrun

variable {σ₀ σ σ' : SlabSys 5} {j : Nat}

/-- One more. -/
theorem Filling.next (h : Filling j σ) (hj : j < 512)
    (h₀ : Reaches (SlabSys.act (.page4k false)) Numbered σ₀ σ) :
    ∃ σ', Reaches (SlabSys.act (.page4k false)) Numbered σ₀ σ' ∧ Filling (j + 1) σ' := by
  obtain ⟨y, hy, hr, ha⟩ := h.caching
  obtain ⟨hoff, hend, hsize⟩ := h.bump
  obtain ⟨s', y', he, hpages, hreg, htls, hbin, ha'⟩ := cachedAlloc_bumps (c := .page4k false) rfl
    4 15 h.noLocal (by omega) ha
  obtain ⟨σ', hreach, rfl, hpcs⟩ := fastCall rfl h₀ h.idle
    (show slabBin 128 = some 15 by decide +kernel) hy hr h.active he
  refine ⟨σ', hreach, ?_, ?_, by rw [hreg]; exact h.registry, ?_, ⟨y', ?_, by rw [hbin]; exact hr,
    ha'⟩, ?_, ?_, ?_, ?_, ?_⟩
  · rw [hpcs, upd_ne (by decide)]
    exact h.paused
  · rw [hpcs, upd_same]
  · rw [htls, upd_ne (by decide)]
    exact h.waiting
  · rw [htls]
    exact upd_same ..
  · rw [hpages, upd_same]
    exact h.active
  · rw [hpages, upd_same]
    exact h.start
  · rw [hpages, upd_same]
    exact h.noLocal
  · rw [hpages, upd_same]
    refine ⟨?_, hend, hsize⟩
    simp only [bumpSlot]
    omega
  · rw [hpages, upd_ne (by decide)]
    exact h.beyond

/-- Until the page is full. -/
theorem Filling.fill (h : Filling j σ) (h₀ : Reaches (SlabSys.act (.page4k false)) Numbered σ₀ σ) :
    ∀ k, j + k ≤ 512 → ∃ σ', Reaches (SlabSys.act (.page4k false)) Numbered σ₀ σ' ∧
      Filling (j + k) σ'
  | 0, _ => ⟨σ, h₀, h⟩
  | k + 1, hk => by
    obtain ⟨σ', hreach, h'⟩ := h.fill h₀ k (by omega)
    exact h'.next (by omega) hreach

/-- Then thread 0 goes on: it takes the slot behind the last one, and finds the next page as the
page of that slot. -/
theorem Filling.overrun (h : Filling 512 σ)
    (h₀ : Reaches (SlabSys.act (.page4k false)) Numbered σ₀ σ) :
    ∃ σ', Reaches (SlabSys.act (.page4k false)) Numbered σ₀ σ' ∧
      (σ'.heap.pages ⟨0x20000000, 1⟩).bumpEnd < (σ'.heap.pages ⟨0x20000000, 1⟩).bumpOffset ∧
      ∃ y, σ'.heap.tls 0 = some y ∧ y.binPage 15 = some ⟨0x20000000, 2⟩ ∧
        (σ'.heap.pages ⟨0x20000000, 2⟩).state = .unused ∧
        (σ'.heap.pages ⟨0x20000000, 2⟩).binIdx ≠ 15 := by
  obtain ⟨z, hz, hid⟩ := h.waiting
  obtain ⟨hoff, hend, hsize⟩ := h.bump
  obtain ⟨hunused, hown, hidx⟩ := h.beyond
  have hslot : pageStart (σ.heap.pages ⟨0x20000000, 1⟩) +
      (σ.heap.pages ⟨0x20000000, 1⟩).bumpOffset = 0x20020000 := by
    rw [h.start, hoff]
  have hbump : arenaBump (.page4k false) σ.heap 0 ⟨0x20000000, 1⟩ =
      .ok (pageStart (σ.heap.pages ⟨0x20000000, 1⟩) +
          (σ.heap.pages ⟨0x20000000, 1⟩).bumpOffset, arenaCredit (σ.heap.setPage ⟨0x20000000, 1⟩
        (bumpSlot (σ.heap.pages ⟨0x20000000, 1⟩))) 0 (σ.heap.pages ⟨0x20000000, 1⟩).slotSize) := rfl
  rw [hslot] at hbump
  generalize hs : arenaCredit _ _ _ = s₁ at hbump
  have hpages : s₁.pages = upd σ.heap.pages ⟨0x20000000, 1⟩
      (bumpSlot (σ.heap.pages ⟨0x20000000, 1⟩)) := by rw [← hs]; rfl
  have htls : s₁.tls 0 = some z := by rw [← hs]; exact hz
  have hbeyond : s₁.pages ⟨0x20000000, 2⟩ = σ.heap.pages ⟨0x20000000, 2⟩ := by
    rw [hpages, upd_ne (by decide)]
  have hfound : ptrToPage s₁ 0x20020000 = some ⟨0x20000000, 2⟩ := by
    have hseg : ptrToSegment s₁ 0x20020000 = 0x20000000 := by
      rw [← hs]
      exact if_pos h.registry
    simp only [ptrToPage, hseg]
    decide
  have hclaim : claimPage s₁ 0 15 0x20020000 z =
      s₁.setTld 0 { z with binPage := upd z.binPage 15 (some ⟨0x20000000, 2⟩) } := by
    simp only [claimPage, hfound, hbeyond, hown, hid]
    rfl
  have hgo : Goes (.page4k false) 0 σ (claimPage s₁ 0 15 0x20020000 z) (upd σ.locks 0 none)
      (.ret 0x20020000 true) := by
    refine (arenaBump_goes rfl h.paused hbump).andThen fun ρ hat hheap hlocks => ?_
    have hunlock : Goes (.page4k false) 0 ρ ρ.heap (upd ρ.locks 0 none)
        (.find 15 0x20020000 true) :=
      .step ({ ρ with locks := upd ρ.locks 0 none }.goto 0 (.find 15 0x20020000 true))
        (by simp only [SlabSys.step, hat]; rfl) ⟨rfl, rfl, rfl, rfl⟩
    refine hunlock.andThen fun κ hat hheap' hlocks' => ?_
    have := claim_goes (c := .page4k false) hat (by rw [hheap', hheap]; exact htls)
    rwa [hheap', hheap, hlocks', hlocks] at this
  obtain ⟨σ', hrun, hw⟩ := hgo
  have hheap := hw.heap.trans hclaim
  have hcached : upd z.binPage 15 (some ⟨0x20000000, 2⟩) 15 = some ⟨0x20000000, 2⟩ := upd_same ..
  have hz' : σ'.heap.tls 0 =
      some { z with binPage := upd z.binPage 15 (some ⟨0x20000000, 2⟩) } := by
    rw [hheap]
    exact upd_same s₁.tls 0 _
  refine ⟨σ', (hrun.numbered (fun hn => absurd (hn.symm.trans hz) (by simp)) h₀).1, ?_,
    _, hz', hcached, ?_, ?_⟩
  · rw [hheap]
    show (s₁.pages ⟨0x20000000, 1⟩).bumpEnd < (s₁.pages ⟨0x20000000, 1⟩).bumpOffset
    rw [hpages, upd_same]
    simp only [bumpSlot]
    omega
  · rw [hheap]
    exact (congrArg PageMeta.state hbeyond).trans hunused
  · rw [hheap]
    show (s₁.pages ⟨0x20000000, 2⟩).binIdx ≠ 15
    rw [hbeyond, hidx]
    decide

end Overrun

/-- Thread 0 has seen a page of 128-byte slots unowned and with room, and thread 4 has claimed
it. -/
def racing : SlabSys 5 :=
  replayed (SlabSys.act (.page4k false)) findsId (SlabSys.initial (.page4k false) 5)
    (raceStart 128 5)

theorem racing_filling : Filling 1 racing := by
  have hwait : (racing.heap.tls 0).any (fun z => z.threadId == 0) = true := by decide +kernel
  have hcache : (racing.heap.tls 4).any (fun y =>
      decide (y.binPage 15 = some ⟨0x20000000, 1⟩ ∧ y.arena = some 0)) = true := by decide +kernel
  obtain ⟨z, hz, hid⟩ := (Option.any_eq_true ..).mp hwait
  obtain ⟨y, hy, hr⟩ := (Option.any_eq_true ..).mp hcache
  exact ⟨by decide +kernel, by decide +kernel, by decide +kernel, ⟨z, hz, beq_iff_eq.mp hid⟩,
    ⟨y, hy, of_decide_eq_true hr⟩, by decide +kernel, by decide +kernel, by decide +kernel,
    by decide +kernel, by decide +kernel⟩

/-- A thread caches a page that is not of the bin, and not even in use: the page behind the one
whose last slot it raced for. -/
theorem cached_beyond_page :
    ∃ σ : SlabSys 5, Reaches (SlabSys.act (.page4k false)) Numbered
      (SlabSys.initial (.page4k false) 5) σ ∧
      (∃ r, (σ.heap.pages r).bumpEnd < (σ.heap.pages r).bumpOffset) ∧
      ∃ t y b r, σ.heap.tls t = some y ∧ y.binPage b = some r ∧
        (σ.heap.pages r).state = .unused ∧ (σ.heap.pages r).binIdx ≠ b := by
  obtain ⟨σ₁, hreach, hfull⟩ :=
    racing_filling.fill (reaches_replayed findsId_sound _ _) 511 (by decide)
  obtain ⟨σ₂, hreach, hover, y, hy, hr, hunused, hidx⟩ := hfull.overrun hreach
  exact ⟨σ₂, hreach, ⟨_, hover⟩, 0, y, 15, _, hy, hr, hunused, hidx⟩

end CustomMalloc

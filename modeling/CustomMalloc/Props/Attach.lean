import CustomMalloc.Run
import CustomMalloc.Inv.Paths

/-!
# Thread ids and arena indices

A thread gets its id from `thread_id_counter` when it first needs thread-local data and
its arena from `arena_next` when it first allocates. Both counters only ever move on, one
step per thread, and both wrap: `thread_id_counter` as an unsigned and `arena_next` as a
signed 32-bit number.

`AttachRun c n m s`: calls of `tld_get` and `arena_get` by any threads, and exits of
threads, lead to `s`; `n` ids have been handed out on the way and `m` threads have been
attached. The counters are then `n` and `m`, wrapped (`Attach`), and every question about
ids and indices is one about `n` and `m`.
-/

namespace CustomMalloc

open Lib.Bytes Lib.Intervals

variable {c : Cfg} {s s' : State} {n m t : Nat}

/-! ## Runs -/

/-- The ids that went to thread `t` between `s` and `s'`. -/
def born (s : State) (t : Nat) (s' : State) : Nat :=
  if (s.tls t).isNone && (s'.tls t).isSome then 1 else 0

/-- The number of times `arena_get` of thread `t` moves `arena_next` on. -/
def joins (s : State) (t : Nat) : Nat := if ((s.tls t).bind Tld.arena).isSome then 0 else 1

/-- Threads come, ask for an arena and go; `n` ids and `m` arenas have been given out. -/
inductive AttachRun (c : Cfg) : Nat → Nat → State → Prop
  | init : AttachRun c 0 0 (State.initial c)
  | tldGet {n m : Nat} {s s' : State} (h : AttachRun c n m s) (t : Nat) (ans : List (Option Nat))
      (o : Option Tld) (he : tldGet c (s.withAnswers ans) t = (o, s')) :
      AttachRun c (n + born s t s') m s'
  | arenaGet {n m : Nat} {s s' : State} (h : AttachRun c n m s) (t : Nat) (ans : List (Option Nat))
      (a : Nat) (he : arenaGet c (s.withAnswers ans) t = .ok (a, s')) :
      AttachRun c (n + born s t s') (m + joins s t) s'
  | exit {n m : Nat} {s : State} (h : AttachRun c n m s) (t : Nat) :
      AttachRun c n m (tldCleanup c s t)

/-! ## The counters -/

theorem wrapInt_succ (x : Int) : wrapInt (wrapInt x + 1) = wrapInt (x + 1) := by
  unfold wrapInt
  omega

/-- `arena_next` names an arena until it has moved on more than `2 ^ 31` times. -/
theorem index_nonneg_iff (hm : m ≤ 2 ^ 31 + 1) :
    0 ≤ (wrapInt m).tmod numArenas ↔ m ≤ 2 ^ 31 := by
  rcases Nat.lt_or_ge m (2 ^ 31) with hlt | hge
  · have hw : wrapInt m = m := by
      unfold wrapInt
      omega
    rw [hw]
    exact iff_of_true (Int.tmod_nonneg _ (by omega)) (by omega)
  · rcases (by omega : m = 2 ^ 31 ∨ m = 2 ^ 31 + 1) with rfl | rfl
    · exact iff_of_true (by decide) (by decide)
    · exact iff_of_false (by decide) (by decide)

/-- The counters have come as far as the numbers say. A live thread has the id of its birth,
and no two were born at the same time. -/
structure Attach (n m : Nat) (s : State) : Prop where
  counter : s.threadIdCounter = n % 2 ^ 32
  next : s.arenaNext = wrapInt m
  joined : m ≤ 2 ^ 31 + 1
  births : ∃ birth : Nat → Nat,
    (∀ t x, s.tls t = some x → birth t < n ∧ x.threadId = birth t % 2 ^ 32) ∧
    ∀ t t', (s.tls t).isSome → (s.tls t').isSome → birth t = birth t' → t = t'
  arenas : ∀ t x a, s.tls t = some x → x.arena = some a → a < numArenas

theorem attach_initial (c : Cfg) : Attach 0 0 (State.initial c) :=
  ⟨rfl, rfl, by decide, ⟨fun _ => 0, fun t x hx => absurd hx (by simp [State.initial]),
    fun t t' ht => absurd ht (by simp [State.initial])⟩,
    fun t x a hx => absurd hx (by simp [State.initial])⟩

/-- A step that leaves the counters alone and gives nobody new data. -/
theorem Attach.same (h : Attach n m s) (hc : s'.threadIdCounter = s.threadIdCounter)
    (hn : s'.arenaNext = s.arenaNext) (htls : ∀ t x, s'.tls t = some x → s.tls t = some x) :
    Attach n m s' := by
  obtain ⟨birth, hid, hinj⟩ := h.births
  have hsome : ∀ t, (s'.tls t).isSome → (s.tls t).isSome := by
    intro t ht
    obtain ⟨x, hx⟩ := Option.isSome_iff_exists.mp ht
    rw [htls t x hx]
    rfl
  exact ⟨hc.trans h.counter, hn.trans h.next, h.joined,
    ⟨birth, fun t x hx => hid t x (htls t x hx),
      fun t t' ht ht' he => hinj t t' (hsome t ht) (hsome t' ht') he⟩,
    fun t x a hx => h.arenas t x a (htls t x hx)⟩

/-- Thread `t` gets data of its own, with the next id. -/
theorem Attach.create (h : Attach n m s) {x : Tld} (hx : x.threadId = s.threadIdCounter)
    (harena : x.arena = none) (htls : s'.tls = upd s.tls t (some x))
    (hc : s'.threadIdCounter = (s.threadIdCounter + 1) % 2 ^ 32)
    (hn : s'.arenaNext = s.arenaNext) : Attach (n + 1) m s' := by
  obtain ⟨birth, hid, hinj⟩ := h.births
  have hlt : ∀ t', t' ≠ t → (s'.tls t').isSome → (s.tls t').isSome ∧ birth t' < n := by
    intro t' htt hs
    rw [htls, upd_ne htt] at hs
    obtain ⟨y, hy⟩ := Option.isSome_iff_exists.mp hs
    exact ⟨hs, (hid t' y hy).1⟩
  refine ⟨?_, hn.trans h.next, h.joined, ⟨upd birth t n, ?_, ?_⟩, ?_⟩
  · rw [hc, h.counter]
    omega
  · intro t' y hy
    rw [htls] at hy
    by_cases htt : t' = t
    · subst htt
      rw [upd_same] at hy ⊢
      cases hy
      exact ⟨Nat.lt_succ_self n, hx.trans h.counter⟩
    · rw [upd_ne htt] at hy ⊢
      exact ⟨Nat.lt_succ_of_lt (hid t' y hy).1, (hid t' y hy).2⟩
  · -- the newcomer was born after all the others
    intro t₁ t₂ h₁ h₂ he
    by_cases ht₁ : t₁ = t
    · by_cases ht₂ : t₂ = t
      · exact ht₁.trans ht₂.symm
      · rw [ht₁, upd_same, upd_ne ht₂] at he
        exact absurd (hlt t₂ ht₂ h₂).2 (by omega)
    · by_cases ht₂ : t₂ = t
      · rw [ht₂, upd_same, upd_ne ht₁] at he
        exact absurd (hlt t₁ ht₁ h₁).2 (by omega)
      · rw [upd_ne ht₁, upd_ne ht₂] at he
        exact hinj t₁ t₂ (hlt t₁ ht₁ h₁).1 (hlt t₂ ht₂ h₂).1 he
  · intro t' y a hy ha
    rw [htls] at hy
    by_cases htt : t' = t
    · subst htt
      rw [upd_same] at hy
      cases hy
      cases harena.symm.trans ha
    · rw [upd_ne htt] at hy
      exact h.arenas t' y a hy ha

/-- `tld_get`. -/
theorem Attach.tldGet (h : Attach n m s) {ans : List (Option Nat)} {o : Option Tld}
    (he : tldGet c (s.withAnswers ans) t = (o, s')) :
    Attach (n + born s t s') m s' ∧ s'.tls t = o := by
  unfold born
  rcases tldGet_cases he with ⟨x, hx, rfl, rfl⟩ | ⟨hn, rfl, hos⟩ | ⟨s₁, addr, hn, hos, rfl, rfl⟩
  · have hx : s.tls t = some x := hx
    rw [hx]
    exact ⟨h.same rfl rfl fun t' y hy => hy, hx⟩
  · obtain ⟨ans', mp, mm, b, rfl, -⟩ := hos
    have hn : s.tls t = none := hn
    simp only [State.withAnswers, hn, Option.isSome_none, Bool.and_false, Bool.false_eq_true,
      if_false]
    exact ⟨h.same rfl rfl fun t' y hy => hy, trivial⟩
  · obtain ⟨ans', mp, mm, b, rfl, -⟩ := hos
    have hn : s.tls t = none := hn
    simp only [hn, upd_same]
    exact ⟨h.create (t := t) (by rfl) rfl rfl rfl rfl, trivial⟩

/-- `arena_next` moves on while it names an arena. -/
theorem Attach.joinNext (h : Attach n m s) {a : Nat}
    (hidx : 0 ≤ s.arenaNext.tmod numArenas) : Attach n (m + 1) (attachNext s a) := by
  rw [h.next, index_nonneg_iff h.joined] at hidx
  refine ⟨h.counter, ?_, by omega, h.births, h.arenas⟩
  show wrapInt (s.arenaNext + 1) = wrapInt ((m + 1 : Nat) : Int)
  rw [h.next, wrapInt_succ]
  rfl

/-- A thread writes down its arena. -/
theorem Attach.setArena (h : Attach n m s) {x : Tld} {a : Nat} (hx : s.tls t = some x)
    (ha : a < numArenas) : Attach n m (s.setTld t { x with arena := some a }) := by
  obtain ⟨birth, hid, hinj⟩ := h.births
  have hold : ∀ t' y, upd s.tls t (some { x with arena := some a }) t' = some y →
      ∃ z, s.tls t' = some z ∧ z.threadId = y.threadId ∧
        (z.arena = y.arena ∨ y.arena = some a) := by
    intro t' y hy
    by_cases htt : t' = t
    · subst htt
      rw [upd_same] at hy
      cases hy
      exact ⟨x, hx, rfl, Or.inr rfl⟩
    · rw [upd_ne htt] at hy
      exact ⟨y, hy, rfl, Or.inl rfl⟩
  have hsome : ∀ t', (upd s.tls t (some { x with arena := some a }) t').isSome →
      (s.tls t').isSome := by
    intro t' ht
    obtain ⟨y, hy⟩ := Option.isSome_iff_exists.mp ht
    obtain ⟨z, hz, -⟩ := hold t' y hy
    rw [hz]
    rfl
  refine ⟨h.counter, h.next, h.joined, ⟨birth, ?_, ?_⟩, ?_⟩
  · intro t' y hy
    obtain ⟨z, hz, hid', -⟩ := hold t' y hy
    rw [← hid']
    exact hid t' z hz
  · exact fun t₁ t₂ h₁ h₂ he => hinj t₁ t₂ (hsome t₁ h₁) (hsome t₂ h₂) he
  · intro t' y b hy hb
    obtain ⟨z, hz, -, harena⟩ := hold t' y hy
    rcases harena with harena | harena
    · exact h.arenas t' z b hz (harena.trans hb)
    · rw [hb] at harena
      rwa [Option.some.inj harena]

/-- Where `tld_get` found or made data, `arena_get` joins an arena unless it knows one. -/
theorem joins_eq {ans : List (Option Nat)} {o : Option Tld}
    (he : tldGet c (s.withAnswers ans) t = (o, s')) :
    joins s t = if (o.bind Tld.arena).isSome then 0 else 1 := by
  unfold joins
  rcases tldGet_cases he with ⟨x, hx, rfl, -⟩ | ⟨hn, rfl, -⟩ | ⟨s₁, addr, hn, -, rfl, -⟩
  · have hx : s.tls t = some x := hx
    rw [hx]
  · have hn : s.tls t = none := hn
    rw [hn]
  · have hn : s.tls t = none := hn
    rw [hn]
    rfl

/-- The index of `arena_get` was not negative. -/
theorem arenaGet_index {a : Nat} {o : Option Tld} {s₁ : State} (hg : tldGet c s t = (o, s₁))
    (he : arenaGet c s t = .ok (a, s')) (hno : o.bind Tld.arena = none) :
    0 ≤ s₁.arenaNext.tmod numArenas := by
  unfold arenaGet at he
  rw [hg] at he
  simp only [hno] at he
  by_contra hneg
  rw [if_pos (Int.not_le.mp hneg)] at he
  cases he

/-- `arena_get`. -/
theorem Attach.arenaGet (h : Attach n m s) {ans : List (Option Nat)} {a : Nat}
    (he : arenaGet c (s.withAnswers ans) t = .ok (a, s')) :
    Attach (n + born s t s') (m + joins s t) s' ∧ a < numArenas := by
  obtain ⟨o, s₁, hg, hcases⟩ := arenaGet_cases he
  obtain ⟨h₁, hgot⟩ := h.tldGet hg
  rw [joins_eq hg]
  rcases hcases with ⟨x, rfl, hx, rfl⟩ | ⟨ha, x, rfl, hx, rfl⟩ | ⟨ha, rfl, rfl⟩
  · rw [show (some x).bind Tld.arena = some a from hx]
    exact ⟨h₁, h₁.arenas t x a hgot hx⟩
  · have hnone : (some x).bind Tld.arena = none := hx
    rw [hnone]
    have hborn :
        born s t ((attachNext s₁ a).setTld t { x with arena := some a }) = born s t s₁ := by
      unfold born
      rw [hgot, show ((attachNext s₁ a).setTld t { x with arena := some a }).tls t =
        some { x with arena := some a } from upd_same ..]
      rfl
    rw [hborn]
    exact ⟨(h₁.joinNext (arenaGet_index hg he hnone)).setArena hgot ha, ha⟩
  · exact ⟨h₁.joinNext (arenaGet_index hg he rfl), ha⟩

theorem tldCleanup_arenaNext (c : Cfg) (s : State) (t : Nat) :
    (tldCleanup c s t).arenaNext = s.arenaNext := by
  have hexit : ∀ x, (exited s t x).arenaNext = s.arenaNext := by
    intro x
    unfold exited
    cases x.arena <;> rfl
  cases hx : s.tls t with
  | none => rw [tldCleanup_none hx]
  | some x =>
    rcases tldCleanup_cases (c := c) hx with heq | ⟨b, heq⟩
    · rw [heq, hexit]
    · rw [heq]
      exact hexit x

/-- The run lemma. -/
theorem AttachRun.attach (h : AttachRun c n m s) : Attach n m s := by
  induction h with
  | init => exact attach_initial c
  | tldGet _ t ans o he ih => exact (ih.tldGet he).1
  | arenaGet _ t ans a he ih => exact (ih.arenaGet he).1
  | exit _ t ih =>
    obtain ⟨-, htls, hc, -⟩ := tldCleanup_frame c _ t
    refine ih.same hc (tldCleanup_arenaNext c _ t) fun t' x hx => ?_
    rw [htls] at hx
    by_cases htt : t' = t
    · rw [htt, upd_same] at hx
      cases hx
    · rwa [upd_ne htt] at hx

/-! ## What the counters give -/

/-- `arena_get` of a thread that has no arena yet returns exactly if at most `2 ^ 31` threads have
been attached before it. -/
theorem Attach.arenaGet_iff (h : Attach n m s) (ans : List (Option Nat)) :
    (∃ a s', CustomMalloc.arenaGet c (s.withAnswers ans) t = .ok (a, s')) ↔
      joins s t = 0 ∨ m ≤ 2 ^ 31 := by
  rcases hg : CustomMalloc.tldGet c (s.withAnswers ans) t with ⟨o, s₁⟩
  obtain ⟨h₁, -⟩ := h.tldGet hg
  have hidx := index_nonneg_iff h₁.joined
  rw [← h₁.next] at hidx
  rw [joins_eq hg, ← hidx]
  unfold CustomMalloc.arenaGet
  rw [hg]
  cases hb : o.bind Tld.arena with
  | some a => exact iff_of_true ⟨a, s₁, by simp only [hb]⟩ (Or.inl rfl)
  | none =>
    simp only [hb, Option.isSome_none, Bool.false_eq_true, if_false, Nat.one_ne_zero, false_or]
    by_cases hneg : s₁.arenaNext.tmod numArenas < 0
    · simp only [if_pos hneg]
      exact iff_of_false (by simp) (Int.not_le.mpr hneg)
    · simp only [if_neg hneg]
      refine iff_of_true ?_ (Int.not_lt.mp hneg)
      cases o with
      | some x => exact ⟨_, _, rfl⟩
      | none => exact ⟨_, _, rfl⟩

/-- Attaching threads. While fewer than `2 ^ 32` threads have been created, no two live threads
have the same id and none has the id `UINT32_MAX`. `arena_get` of a thread that has no arena yet
finds an index inside the array exactly if at most `2 ^ 31` threads have been attached before;
a thread that has an arena keeps it. -/
theorem attachment_safe (h : AttachRun c n m s) (hn : n < 2 ^ 32) :
    (∀ t t' x x', s.tls t = some x → s.tls t' = some x' → x.threadId = x'.threadId → t = t') ∧
    (∀ t x, s.tls t = some x → x.threadId ≠ noOwner) ∧
    ∀ t ans, ((∃ a s', arenaGet c (s.withAnswers ans) t = .ok (a, s')) ↔
        joins s t = 0 ∨ m ≤ 2 ^ 31) ∧
      ∀ a s', arenaGet c (s.withAnswers ans) t = .ok (a, s') → a < numArenas := by
  have hat := h.attach
  obtain ⟨birth, hid, hinj⟩ := hat.births
  -- below `2 ^ 32` births the id is the birth itself
  have heq : ∀ t x, s.tls t = some x → x.threadId = birth t ∧ birth t < n := by
    intro t x hx
    obtain ⟨hlt, he⟩ := hid t x hx
    exact ⟨he.trans (Nat.mod_eq_of_lt (by omega)), hlt⟩
  refine ⟨?_, ?_, ?_⟩
  · intro t t' x x' hx hx' he
    rw [(heq t x hx).1, (heq t' x' hx').1] at he
    exact hinj t t' (by rw [hx]; rfl) (by rw [hx']; rfl) he
  · intro t x hx
    obtain ⟨he, hlt⟩ := heq t x hx
    unfold noOwner
    omega
  · exact fun t ans => ⟨hat.arenaGet_iff ans, fun a s' he => (hat.arenaGet he).2⟩

/-! ## Threads that come and go

What a thread leaves behind when it exits is the counters: its memory is unmapped, and the next
thread may get the same memory. So there are runs as long as one likes.
-/

/-- Thread `t` has no data, and the OS page at `A` is free for them. -/
structure Room (c : Cfg) (s : State) (t A : Nat) : Prop where
  none : s.tls t = none
  free : ∀ x, A ≤ x → x < A + c.osPage → ¬ Covers s.mapped x

/-- `A` is the address of an OS page that the kernel may hand out. -/
structure PageAddr (c : Cfg) (A : Nat) : Prop where
  pos : A ≠ 0
  dvd : c.osPage ∣ A
  fits : A + c.osPage < 2 ^ 64
  off : A < c.bootstrapBuf ∨ c.bootstrapBuf + bootstrapBufSize ≤ A

/-- The kernel grants the page at `A`. -/
theorem osMmapAligned_page {A : Nat} (hA : PageAddr c A) (hans : s.answers = [some A])
    (hfree : ∀ x, A ≤ x → x < A + c.osPage → ¬ Covers s.mapped x) :
    osMmapAligned c s c.osPage c.osPage =
      (A, ({ s with
        answers := [], mapped := (A, A + c.osPage) :: s.mapped,
        mem := fillZero s.mem A c.osPage } : State).addMmapBytes c.osPage) := by
  have hround : roundPage c c.osPage = c.osPage :=
    Lib.Words.alignUp_of_dvd c.osPage_pos (Nat.dvd_refl _)
  have hcan : canMap c s A c.osPage = true := by
    have hover : overlaps s.mapped A (A + c.osPage) = false :=
      (overlaps_eq_false_iff (by have := c.osPage_pos; omega)).mpr hfree
    have hfits := hA.fits
    unfold canMap
    simp only [hround, hover, Nat.mod_eq_zero_of_dvd hA.dvd, decide_eq_true c.osPage_pos,
      decide_eq_true hfits, decide_true, Bool.and_true, Bool.not_false]
  unfold osMmapAligned mmap
  simp only [Nat.le_refl, if_true, hans, hcan, hround]

/-- The data of a thread that starts at `A`. -/
def newTld (s : State) (A : Nat) : Tld := { addr := A, threadId := s.threadIdCounter }

/-- The state after `tld_get` of thread `t` got the page at `A`. -/
def started (c : Cfg) (s : State) (t A : Nat) : State :=
  { s.addMmapBytes c.osPage with
    answers := []
    mapped := (A, A + c.osPage) :: s.mapped
    mem := fillZero s.mem A c.osPage
    tls := upd s.tls t (some (newTld s A))
    threadIdCounter := (s.threadIdCounter + 1) % 2 ^ 32 }

theorem started_tls (c : Cfg) (s : State) (t A : Nat) :
    (started c s t A).tls t = some (newTld s A) := upd_same ..

/-- `tld_get` when the kernel grants the page. -/
theorem tldGet_granted {A : Nat} (hA : PageAddr c A) (hr : Room c s t A) :
    CustomMalloc.tldGet c (s.withAnswers [some A]) t = (some (newTld s A), started c s t A) := by
  have hmap := osMmapAligned_page (s := s.withAnswers [some A]) hA rfl hr.free
  unfold CustomMalloc.tldGet
  simp only [show (s.withAnswers [some A]).tls t = none from hr.none, hmap, if_neg hA.pos]
  rfl

/-- An exit unmaps the thread's page. -/
theorem tldCleanup_mapped {A : Nat} (hA : PageAddr c A) {x : Tld} (hx : s.tls t = some x)
    (haddr : x.addr = A) : (tldCleanup c s t).mapped = unmapRange c s.mapped A c.osPage := by
  have hout : ¬ (c.bootstrapBuf ≤ x.addr ∧ x.addr < c.bootstrapBuf + bootstrapBufSize) := by
    have := hA.off
    omega
  have hmap : (exited s t x).mapped = s.mapped := (exited_frame s t x).2.2.2.2
  rw [tldCleanup_eq hx, if_neg hout]
  unfold osMunmap
  rw [haddr, if_pos ⟨hA.pos, c.osPage_pos⟩, ← hmap]
  rfl

/-- Thread `t` comes, and goes again: everybody else is where they were. -/
theorem Room.exit {s₁ : State} {A : Nat} (hA : PageAddr c A) (hr : Room c s t A) {x : Tld}
    (hx : x.addr = A) (htls : s₁.tls = upd s.tls t (some x))
    (hmap : s₁.mapped = (A, A + c.osPage) :: s.mapped) :
    (tldCleanup c s₁ t).tls = s.tls ∧
      ∀ y, Covers (tldCleanup c s₁ t).mapped y → Covers s.mapped y := by
  obtain ⟨-, htls', -, -⟩ := tldCleanup_frame c s₁ t
  have hx₁ : s₁.tls t = some x := by rw [htls, upd_same]
  refine ⟨?_, ?_⟩
  · rw [htls', htls, upd_upd, ← hr.none, upd_eta]
  · intro y hy
    have hround : roundPage c c.osPage = c.osPage :=
      Lib.Words.alignUp_of_dvd c.osPage_pos (Nat.dvd_refl _)
    rw [tldCleanup_mapped hA hx₁ hx, covers_unmapRange hA.dvd, hmap, hround] at hy
    rcases covers_cons.mp hy.1 with hin | hin
    · exact absurd hin hy.2
    · exact hin

/-- The state some later thread finds. -/
def SamePlaces (s s' : State) : Prop :=
  s'.tls = s.tls ∧ ∀ y, Covers s'.mapped y → Covers s.mapped y

theorem SamePlaces.room {A : Nat} (h : SamePlaces s s') (hr : Room c s t A) : Room c s' t A :=
  ⟨by rw [h.1]; exact hr.none, fun x h₁ h₂ hx => hr.free x h₁ h₂ (h.2 x hx)⟩

theorem Room.born {A : Nat} (hr : Room c s t A) (hs : (s'.tls t).isSome) : born s t s' = 1 := by
  unfold CustomMalloc.born
  rw [hr.none, hs]
  rfl

theorem Room.joins {A : Nat} (hr : Room c s t A) : joins s t = 1 := by
  unfold CustomMalloc.joins
  rw [hr.none]
  rfl

/-- `k` threads come and go, one after the other. -/
theorem AttachRun.visits (h : AttachRun c n m s) {A : Nat} (hA : PageAddr c A)
    (hr : Room c s t A) (k : Nat) : ∃ s', AttachRun c (n + k) m s' ∧ SamePlaces s s' := by
  induction k with
  | zero => exact ⟨s, h, rfl, fun _ hy => hy⟩
  | succ k ih =>
    obtain ⟨s₁, h₁, hun⟩ := ih
    have hr₁ := hun.room hr
    have hrun := (h₁.tldGet t _ _ (tldGet_granted hA hr₁)).exit t
    rw [hr₁.born (by rw [started_tls]; rfl)] at hrun
    have hmap : (started c s₁ t A).mapped = (A, A + c.osPage) :: s₁.mapped := rfl
    obtain ⟨hexit, hcov⟩ := hr₁.exit hA rfl rfl hmap
    exact ⟨_, hrun, hexit.trans hun.1, fun y hy => hun.2 y (hcov y hy)⟩

/-- `k` threads come, are attached and go. -/
theorem AttachRun.joinings (h : AttachRun c n m s) {A : Nat} (hA : PageAddr c A)
    (hr : Room c s t A) (k : Nat) (hk : m + k ≤ 2 ^ 31 + 1) :
    ∃ s', AttachRun c (n + k) (m + k) s' ∧ SamePlaces s s' := by
  induction k with
  | zero => exact ⟨s, h, rfl, fun _ hy => hy⟩
  | succ k ih =>
    obtain ⟨s₁, h₁, hun⟩ := ih (by omega)
    have hr₁ := hun.room hr
    obtain ⟨a, s₂, he⟩ := (h₁.attach.arenaGet_iff (c := c) (t := t) [some A]).mpr
      (Or.inr (by omega))
    have hrun := (h₁.arenaGet t _ a he).exit t
    -- the thread is new, so it is attached now
    obtain ⟨o, s₃, hg, hcases⟩ := arenaGet_cases he
    obtain ⟨rfl, rfl⟩ := Prod.mk.inj ((tldGet_granted hA hr₁).symm.trans hg)
    rcases hcases with ⟨x, hx, harena, -⟩ | ⟨-, x, hx, -, rfl⟩ | ⟨-, hx, -⟩
    · rw [← Option.some.inj hx] at harena
      exact absurd harena (by simp [newTld])
    · cases hx
      have htls : ((attachNext (started c s₁ t A) a).setTld t
          { newTld s₁ A with arena := some a }).tls = upd s₁.tls t
            (some { newTld s₁ A with arena := some a }) := upd_upd ..
      rw [hr₁.born (by rw [htls, upd_same]; rfl), hr₁.joins] at hrun
      obtain ⟨hexit, hcov⟩ := hr₁.exit hA rfl htls rfl
      exact ⟨_, hrun, hexit.trans hun.1, fun y hy => hun.2 y (hcov y hy)⟩
    · cases hx

/-- The state after `malloc_init` has room anywhere but in the program's own data. -/
theorem room_initial {A : Nat}
    (hoff : A + c.osPage ≤ c.bootstrapBuf ∨ c.bootstrapBuf + bootstrapBufSize ≤ A) :
    Room c (State.initial c) t A := by
  refine ⟨rfl, ?_⟩
  intro x h₁ h₂ hx
  rcases covers_cons.mp hx with ⟨hlo, hhi⟩ | hx
  · simp only at hlo hhi
    omega
  · exact absurd hx (covers_nil x)

/-- The pages used below. -/
theorem pageAddr_page4k : PageAddr (Cfg.page4k false) 0x10000000 ∧
    PageAddr (Cfg.page4k false) 0x20000000 := by
  have hP : (Cfg.page4k false).osPage = 4096 := rfl
  refine ⟨⟨by decide, ?_, ?_, by decide⟩, ⟨by decide, ?_, ?_, by decide⟩⟩ <;> rw [hP] <;> decide

/-- Thread 0 has started, and there is a page for thread 1. -/
theorem first_thread (hA : PageAddr (Cfg.page4k false) 0x10000000) :
    AttachRun (Cfg.page4k false) 1 0
      (started (Cfg.page4k false) (State.initial (Cfg.page4k false)) 0 0x10000000) ∧
    Room (Cfg.page4k false)
      (started (Cfg.page4k false) (State.initial (Cfg.page4k false)) 0 0x10000000) 1
        0x20000000 := by
  have hP : (Cfg.page4k false).osPage = 4096 := rfl
  have hr : Room (Cfg.page4k false) (State.initial _) 0 0x10000000 :=
    room_initial (Or.inr (by decide))
  have hrun := AttachRun.init.tldGet 0 _ _ (tldGet_granted hA hr)
  rw [hr.born rfl] at hrun
  refine ⟨hrun, rfl, ?_⟩
  intro x h₁ h₂ hx
  rcases covers_cons.mp hx with ⟨hlo, hhi⟩ | hx
  · simp only [hP] at hlo hhi h₂
    omega
  · exact (room_initial (t := 1) (Or.inr (by decide))).free x h₁ h₂ hx

/-- All three parts fail once enough threads have come and gone. After `2 ^ 31 + 1` attachments
`arena_next % 4` is -3; the thread after `2 ^ 32 - 1` others has the id `UINT32_MAX`; and a thread
that stays while `2 ^ 32 - 1` others come and go meets its own id again. -/
theorem attachment_wraps :
    (∃ n m s, AttachRun (Cfg.page4k false) n m s ∧ s.tls 0 = none ∧
      s.arenaNext.tmod numArenas = -3 ∧ ∀ ans, ¬ ∃ a s',
        arenaGet (Cfg.page4k false) (s.withAnswers ans) 0 = .ok (a, s')) ∧
    (∃ n m s x, AttachRun (Cfg.page4k false) n m s ∧ s.tls 0 = some x ∧ x.threadId = noOwner) ∧
    ∃ n m s x y, AttachRun (Cfg.page4k false) n m s ∧ s.tls 0 = some x ∧ s.tls 1 = some y ∧
      x.threadId = y.threadId := by
  obtain ⟨hA, hB⟩ := pageAddr_page4k
  have hroom : ∀ t, Room (Cfg.page4k false) (State.initial _) t 0x10000000 :=
    fun t => room_initial (Or.inr (by decide))
  refine ⟨?_, ?_, ?_⟩
  · obtain ⟨s, hrun, hun⟩ := AttachRun.init.joinings hA (hroom 0) (2 ^ 31 + 1) (by decide)
    have hr := hun.room (hroom 0)
    refine ⟨_, _, s, hrun, hr.none, ?_, fun ans => ?_⟩
    · rw [hrun.attach.next]
      decide
    · rw [hrun.attach.arenaGet_iff, hr.joins]
      decide
  · obtain ⟨s, hrun, hun⟩ := AttachRun.init.visits hA (hroom 0) (2 ^ 32 - 1)
    refine ⟨_, _, _, _, hrun.tldGet 0 _ _ (tldGet_granted hA (hun.room (hroom 0))),
      started_tls .., ?_⟩
    show s.threadIdCounter = noOwner
    rw [hrun.attach.counter]
    decide
  · -- thread 0 stays, at the first page; the others use the second one
    obtain ⟨hfirst, hr₁⟩ := first_thread hA
    obtain ⟨s, hrun, hun⟩ := hfirst.visits hB hr₁ (2 ^ 32 - 1)
    refine ⟨_, _, _, newTld (State.initial (Cfg.page4k false)) 0x10000000, _,
      hrun.tldGet 1 _ _ (tldGet_granted hB (hun.room hr₁)), ?_, started_tls .., ?_⟩
    · show upd s.tls 1 (some (newTld s 0x20000000)) 0 = _
      rw [upd_ne (by decide), hun.1]
      exact started_tls ..
    · show 0 = s.threadIdCounter
      rw [hrun.attach.counter]
      decide

/-- Two threads at the same time have different ids, and the second one gets an arena. -/
theorem attachment_safe_two : ∃ n m s x y, AttachRun (Cfg.page4k false) n m s ∧
    s.tls 0 = some x ∧ s.tls 1 = some y ∧ x.threadId ≠ y.threadId ∧
    ∃ a s', arenaGet (Cfg.page4k false) (s.withAnswers []) 1 = .ok (a, s') ∧ a < numArenas := by
  obtain ⟨hA, hB⟩ := pageAddr_page4k
  obtain ⟨hfirst, hr₁⟩ := first_thread hA
  have hrun := hfirst.tldGet 1 _ _ (tldGet_granted hB hr₁)
  rw [hr₁.born rfl] at hrun
  obtain ⟨hids, -, harena⟩ := attachment_safe hrun (by decide)
  obtain ⟨a, s', he⟩ := (harena 1 []).1.mpr (Or.inr (by decide))
  refine ⟨_, _, _, _, _, hrun, rfl, rfl, fun heq => ?_, a, s', he, (harena 1 []).2 a s' he⟩
  exact absurd (hids 0 1 _ _ rfl rfl heq) (by decide)

end CustomMalloc

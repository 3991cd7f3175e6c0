import CustomMalloc.Inv.Ownership
import CustomMalloc.Lib.Sums
import Mathlib.Algebra.BigOperators.Group.Finset.Basic
import Mathlib.Algebra.BigOperators.Ring.Finset
import Mathlib.Algebra.Order.Ring.Int

/-!
# The books

An arena counts what was taken from it and what was given back, in bytes and in blocks.
A thread counts locally first and adds its counts to its arena's every 64 operations.
`Balanced` is the law of both together: for each arena, what it has counted and what its
threads have not yet passed on make up the slots that are handed out of its pages.

The counters wrap. `Tally` is what the arenas' counters would be if they did not; the law
is about the tally, and the counters are the tally modulo `2 ^ 64` (`Counted`).
-/

namespace CustomMalloc

open Lib.Words Lib.Bytes Lib.Chain Lib.Intervals Lib.Post Lib.Sums

variable {c : Cfg} {s s' : State} {G G' : Ghost} {t : Nat}

/-! ## Counters -/

/-- What is counted. -/
inductive Measure where
  | bytes
  | blocks
  deriving DecidableEq, Repr

/-- A slot of `n` bytes. -/
def Measure.of (n : Nat) : Measure → Nat
  | .bytes => n
  | .blocks => 1

def Arena.taken (x : Arena) : Measure → Nat
  | .bytes => x.allocated
  | .blocks => x.allocCount

def Arena.given (x : Arena) : Measure → Nat
  | .bytes => x.freed
  | .blocks => x.freeCount

def Tld.taken (x : Tld) : Measure → Nat
  | .bytes => x.statAllocated
  | .blocks => x.statAllocCount

def Tld.given (x : Tld) : Measure → Nat
  | .bytes => x.statFreed
  | .blocks => x.statFreeCount

/-- What the counters of the arenas would be if they did not wrap. -/
structure Tally where
  taken : Measure → Nat → Nat
  given : Measure → Nat → Nat

/-- The arenas' counters are the tally. -/
def Counted (Z : Tally) (f : Nat → Arena) : Prop :=
  ∀ u a, (f a).taken u = Z.taken u a % 2 ^ 64 ∧ (f a).given u = Z.given u a % 2 ^ 64

theorem Counted.same {Z : Tally} {f f' : Nat → Arena} (h : Counted Z f)
    (hs : ∀ a, SameCounts (f a) (f' a)) : Counted Z f' := by
  intro u a
  obtain ⟨h₁, h₂, h₃, h₄⟩ := hs a
  rw [← (h u a).1, ← (h u a).2]
  cases u with
  | bytes => exact ⟨h₁, h₂⟩
  | blocks => exact ⟨h₃, h₄⟩

/-- Arena `a` counts `k` more taken and `l` more given back. -/
def Tally.add (Z : Tally) (a : Nat) (k l : Measure → Nat) : Tally where
  taken := fun u b => if b = a then Z.taken u b + k u else Z.taken u b
  given := fun u b => if b = a then Z.given u b + l u else Z.given u b

/-- What is out, by the tally. -/
def Tally.net (Z : Tally) (u : Measure) (a : Nat) : Int := (Z.taken u a : Int) - Z.given u a

theorem Tally.net_add (Z : Tally) (a : Nat) (k l : Measure → Nat) (u : Measure) (b : Nat) :
    (Z.add a k l).net u b = Z.net u b + if b = a then (k u : Int) - l u else 0 := by
  unfold Tally.net Tally.add
  simp only
  split
  next => omega
  next => omega

theorem Counted.add {Z : Tally} {f : Nat → Arena} (h : Counted Z f) {a : Nat} {x : Arena}
    {k l : Measure → Nat} (hk : ∀ u, x.taken u = ((f a).taken u + k u) % 2 ^ 64)
    (hl : ∀ u, x.given u = ((f a).given u + l u) % 2 ^ 64) :
    Counted (Z.add a k l) (CustomMalloc.upd f a x) := by
  intro u b
  obtain ⟨ht, hg⟩ := h u b
  unfold Tally.add
  simp only
  by_cases hb : b = a
  · subst hb
    rw [upd_same, if_pos rfl, if_pos rfl, hk u, hl u, ht, hg, Nat.mod_add_mod, Nat.mod_add_mod]
    exact ⟨rfl, rfl⟩
  · rw [upd_ne hb, if_neg hb, if_neg hb]
    exact ⟨ht, hg⟩

/-- One booking: no counter goes around more than once. -/
def Tally.Grows (Z Z' : Tally) : Prop :=
  ∀ u a, (Z.taken u a ≤ Z'.taken u a ∧ Z'.taken u a < Z.taken u a + 2 ^ 64) ∧
    Z.given u a ≤ Z'.given u a ∧ Z'.given u a < Z.given u a + 2 ^ 64

theorem Tally.Grows.refl (Z : Tally) : Z.Grows Z := by
  intro u a
  omega

theorem Tally.grows_add (Z : Tally) (a : Nat) {k l : Measure → Nat} (hk : ∀ u, k u < 2 ^ 64)
    (hl : ∀ u, l u < 2 ^ 64) : Z.Grows (Z.add a k l) := by
  intro u b
  have h₁ := hk u
  have h₂ := hl u
  unfold Tally.add
  simp only
  split
  next => omega
  next => omega

/-! ## What a thread has not passed on -/

/-- The thread's local counters. -/
structure StatsOk (x : Tld) : Prop where
  ops : x.statOps = x.statAllocCount + x.statFreeCount
  taken : x.statAllocated ≤ 32768 * x.statAllocCount
  given : x.statFreed ≤ 32768 * x.statFreeCount
  idle : x.arena = none → x.statOps = 0

/-- What thread data hold back from the counters of arena `a`. -/
def Tld.pending (x : Tld) (u : Measure) (a : Nat) : Int :=
  if x.arena = some a then (x.taken u : Int) - x.given u else 0

def pendingOf (o : Option Tld) (u : Measure) (a : Nat) : Int :=
  match o with
  | none => 0
  | some x => x.pending u a

theorem StatsOk.zero {x : Tld} (h : StatsOk x) (h0 : x.statOps = 0) (u : Measure) :
    x.taken u = 0 ∧ x.given u = 0 := by
  obtain ⟨hops, ht, hg, -⟩ := h
  cases u with
  | bytes =>
    unfold Tld.taken Tld.given
    simp only
    omega
  | blocks =>
    unfold Tld.taken Tld.given
    simp only
    omega

theorem StatsOk.pending_idle {x : Tld} (h : StatsOk x) (h0 : x.statOps = 0) (u : Measure)
    (a : Nat) :
    x.pending u a = 0 := by
  obtain ⟨ht, hg⟩ := h.zero h0 u
  unfold Tld.pending
  rw [ht, hg]
  split <;> rfl

theorem StatsOk.lt {x : Tld} (h : StatsOk x) (hops : x.statOps ≤ 64) (u : Measure) :
    x.taken u < 2 ^ 64 ∧ x.given u < 2 ^ 64 := by
  obtain ⟨ho, ht, hg, -⟩ := h
  cases u with
  | bytes =>
    unfold Tld.taken Tld.given
    simp only
    omega
  | blocks =>
    unfold Tld.taken Tld.given
    simp only
    omega

/-! ## The law -/

/-- The part of page `r` that is handed out, as a part of arena `a`. -/
def weight (s : State) (G : Ghost) (u : Measure) (a : Nat) (r : PageRef) : Int :=
  if (s.pages r).arena = a then (((G.busy r).length * u.of (s.pages r).slotSize : Nat) : Int) else 0

theorem weight_nil {u : Measure} {a : Nat} {r : PageRef} (h : G.busy r = []) :
    weight s G u a r = 0 := by
  unfold weight
  rw [h]
  simp

/-- What the arenas have counted and what their threads hold back make up what is
handed out. -/
structure Balanced (Z : Tally) (s : State) (G : Ghost) : Prop where
  counted : Counted Z s.arenas
  law : ∃ (T : Finset Nat) (R : Finset PageRef), (∀ t, s.tls t ≠ none → t ∈ T) ∧
    (∀ r, G.busy r ≠ [] → r ∈ R) ∧
    ∀ u a, Z.net u a + ∑ t ∈ T, pendingOf (s.tls t) u a = ∑ r ∈ R, weight s G u a r

/-- A step that changes one thread's data and one page. -/
theorem Balanced.step {Z Z' : Tally} (h : Balanced Z s G) (r : PageRef) (hc : Counted Z' s'.arenas)
    (hothers : OthersKept t s s') (hbusy : ∀ q, q ≠ r → G'.busy q = G.busy q)
    (hpages : ∀ q, q ≠ r → G.busy q ≠ [] → (s'.pages q).arena = (s.pages q).arena ∧
      (s'.pages q).slotSize = (s.pages q).slotSize)
    (hlocal : ∀ u a, Z'.net u a + pendingOf (s'.tls t) u a + weight s G u a r =
      Z.net u a + pendingOf (s.tls t) u a + weight s' G' u a r) : Balanced Z' s' G' := by
  classical
  obtain ⟨T, R, hT, hR, hlaw⟩ := h.law
  refine ⟨hc, insert t T, insert r R, fun t' ht' => ?_, fun q hq => ?_, fun u a => ?_⟩
  · by_cases htt : t' = t
    · exact htt ▸ Finset.mem_insert_self ..
    · rw [hothers t' htt] at ht'
      exact Finset.mem_insert_of_mem (hT t' ht')
  · by_cases hqr : q = r
    · exact hqr ▸ Finset.mem_insert_self ..
    · rw [hbusy q hqr] at hq
      exact Finset.mem_insert_of_mem (hR q hq)
  · -- the old law over the larger sets
    have hT₁ : ∑ t' ∈ insert t T, pendingOf (s.tls t') u a =
        ∑ t' ∈ T, pendingOf (s.tls t') u a := by
      refine Finset.sum_insert_of_eq_zero_if_notMem fun hn => ?_
      rw [Classical.not_not.mp (mt (hT t) hn)]
      rfl
    have hR₁ : ∑ q ∈ insert r R, weight s G u a q = ∑ q ∈ R, weight s G u a q :=
      Finset.sum_insert_of_eq_zero_if_notMem fun hn =>
        weight_nil (Classical.not_not.mp (mt (hR r) hn))
    have hsumT := sum_change (Finset.mem_insert_self t T)
      (f := fun t' => pendingOf (s'.tls t') u a) (g := fun t' => pendingOf (s.tls t') u a)
      fun t' _ htt => by rw [hothers t' htt]
    have hsumR := sum_change (Finset.mem_insert_self r R)
      (f := weight s' G' u a) (g := weight s G u a) fun q _ hqr => by
        by_cases hnil : G.busy q = []
        · rw [weight_nil hnil, weight_nil ((hbusy q hqr).trans hnil)]
        · obtain ⟨ha, hsz⟩ := hpages q hqr hnil
          unfold weight
          rw [ha, hsz, hbusy q hqr]
    have hold := hlaw u a
    have hl := hlocal u a
    rw [← hT₁, ← hR₁] at hold
    omega

/-- A step that changes one thread's data and hands out nothing. -/
theorem Balanced.still {Z Z' : Tally} (h : Balanced Z s G) (hc : Counted Z' s'.arenas)
    (hothers : OthersKept t s s')
    (hpages : ∀ q, G.busy q ≠ [] → (s'.pages q).arena = (s.pages q).arena ∧
      (s'.pages q).slotSize = (s.pages q).slotSize)
    (hlocal : ∀ u a, Z'.net u a + pendingOf (s'.tls t) u a = Z.net u a + pendingOf (s.tls t) u a) :
    Balanced Z' s' G := by
  refine h.step ⟨0, 0⟩ hc hothers (fun _ _ => rfl) (fun q _ => hpages q) fun u a => ?_
  have hw : weight s' G u a ⟨0, 0⟩ = weight s G u a ⟨0, 0⟩ := by
    by_cases hnil : G.busy ⟨0, 0⟩ = []
    · rw [weight_nil hnil, weight_nil hnil]
    · obtain ⟨ha, hsz⟩ := hpages _ hnil
      unfold weight
      rw [ha, hsz]
  rw [hw, hlocal u a]

/-! ## The steps of a call -/

/-- The allocator's invariant, its threads' homes, and balanced books. -/
structure Books (c : Cfg) (Z : Tally) (s : State) (G : Ghost) : Prop where
  inv : Inv c s G
  ids : Ids s
  homes : Homes s
  stats : ∀ t x, s.tls t = some x → StatsOk x ∧ x.statOps < statFlushInterval
  bal : Balanced Z s G

variable {Z Z' : Tally}

/-- The counters of the other threads are theirs alone. -/
theorem Books.stats_step (h : Books c Z s G) (hothers : OthersKept t s s')
    (hmine : ∀ y, s'.tls t = some y → StatsOk y ∧ y.statOps < statFlushInterval) :
    ∀ t' x, s'.tls t' = some x → StatsOk x ∧ x.statOps < statFlushInterval := by
  intro t' x hx
  by_cases htt : t' = t
  · exact hmine x (htt ▸ hx)
  · rw [hothers t' htt] at hx
    exact h.stats t' x hx

theorem Books.tldGet (h : Books c Z s G) (hid : HasId s t) {o : Option Tld}
    (he : tldGet c s t = (o, s')) : Books c Z s' G ∧ HasId s' t := by
  have hp := tldGet_spec h.inv he
  have hth : ThreadsFrom t s s' := by
    have hcl := (tldGet_closed (c := c) (threadsFrom_closed t).toFreeClosed s).1
    rw [he] at hcl
    exact hcl
  cases hx : s.tls t with
  | some x =>
    obtain rfl := hp.old hx
    exact ⟨h, hid⟩
  | none =>
    -- whatever the thread has now is fresh
    have hnew : ∀ y, s'.tls t = some y →
        ∃ addr, y = { addr := addr, threadId := s.threadIdCounter } := by
      intro y hy
      rw [hp.got] at hy
      rcases tldGet_cases he with ⟨x, hx', -⟩ | ⟨-, rfl, -⟩ | ⟨s₁, addr, -, -, rfl, -⟩
      · cases hx.symm.trans hx'
      · cases hy
      · exact ⟨addr, (Option.some.inj hy).symm⟩
    have harenas : s'.arenas = s.arenas := by
      obtain ⟨_, _, _, _, _, _, rfl⟩ := hp.ext
      rfl
    refine ⟨⟨hp.inv, h.ids.step hid hth, ?_, ?_, ?_⟩, ?_⟩
    · refine h.homes.still h.ids hid hth hp.ext.same fun y hy => ?_
      obtain ⟨addr, rfl⟩ := hnew y hy
      exact ⟨fun x a hx' => absurd (hx.symm.trans hx') (by simp), fun a ha => absurd ha (by simp),
        fun b r hr => absurd hr (by simp)⟩
    · refine h.stats_step hth.others fun y hy => ?_
      obtain ⟨addr, rfl⟩ := hnew y hy
      exact ⟨⟨rfl, Nat.zero_le _, Nat.zero_le _, fun _ => rfl⟩, show 0 < 64 by decide⟩
    · refine h.bal.still (by rw [harenas]; exact h.bal.counted) hth.others (fun q _ => ?_)
        fun u a => ?_
      · rw [hp.ext.same.pages]
        exact ⟨rfl, rfl⟩
      · rw [hx]
        cases hy : s'.tls t with
        | none => rfl
        | some y =>
          obtain ⟨addr, rfl⟩ := hnew y hy
          rfl
    · intro hn
      rcases hth.new hx with ⟨-, hc⟩ | ⟨y, hy, -⟩
      · rw [hc]
        exact hid hx
      · cases hn.symm.trans hy

/-- One more thread of an arena does not change the counters. -/
theorem attachNext_counts (s : State) (a b : Nat) :
    SameCounts (s.arenas b) ((attachNext s a).arenas b) := by
  unfold attachNext
  exact SameCounts.upd (by exact ⟨rfl, rfl, rfl, rfl⟩) b

theorem Books.arenaGet (h : Books c Z s G) (hid : HasId s t) {a : Nat}
    (he : arenaGet c s t = .ok (a, s')) :
    Books c Z s' G ∧ HasId s' t ∧ a < numArenas ∧ ∀ y, s'.tls t = some y → y.arena = some a := by
  have hpost : AttachPost c s G t a s' :=
    ensures_elim (Q := fun x => AttachPost c s G t x.1 x.2) (arenaGet_spec h.inv t) he
  obtain ⟨o, s₁, hget, hcases⟩ := arenaGet_cases he
  obtain ⟨h₁, hid₁⟩ := h.tldGet hid hget
  have hgot := (tldGet_spec h.inv hget).got
  have har : ∀ y, s'.tls t = some y → y.arena = some a := fun y hy => (hpost.tls hy).1
  rcases hcases with ⟨x, rfl, hx, rfl⟩ | ⟨ha, x, rfl, hx, rfl⟩ | ⟨ha, rfl, rfl⟩
  · exact ⟨h₁, hid₁, h₁.homes.arena_lt t x a hgot hx, har⟩
  · have hth : ThreadsFrom t s₁ ((attachNext s₁ a).setTld t { x with arena := some a }) :=
      (threadsFrom_closed t).trans
        ((threadsFrom_closed t).trans ((threadsFrom_closed t).arenaNext s₁ _)
          ((threadsFrom_closed t).setArena _ a _))
        ((threadsFrom_closed t).setTld _ x _ hgot rfl)
    obtain ⟨hok, hops⟩ := h₁.stats t x hgot
    refine ⟨⟨hpost.inv, h₁.ids.step hid₁ hth, ?_, ?_, ?_⟩, ?_, ha, har⟩
    · refine h₁.homes.still h₁.ids hid₁ hth ⟨rfl, rfl, rfl, rfl⟩ fun y hy => ?_
      cases (upd_same ..).symm.trans hy
      refine ⟨fun z b hz hb => ?_, fun b hb => ?_, fun b r hr => h₁.homes.cached t x b r hgot hr⟩
      · cases hgot.symm.trans hz
        cases hx.symm.trans hb
      · rw [← Option.some.inj hb]
        exact ha
    · refine h₁.stats_step hth.others fun y hy => ?_
      cases (upd_same ..).symm.trans hy
      exact ⟨⟨hok.ops, hok.taken, hok.given, fun hf => absurd hf (by simp)⟩, hops⟩
    · refine h₁.bal.still (h₁.bal.counted.same (attachNext_counts s₁ a)) hth.others
        (fun _ _ => ⟨rfl, rfl⟩) fun u b => ?_
      -- nothing is held back before the thread has an arena
      have h0 := hok.idle hx
      have hok' : StatsOk { x with arena := some a } :=
        ⟨hok.ops, hok.taken, hok.given, fun hf => absurd hf (by simp)⟩
      have htls : ((attachNext s₁ a).setTld t { x with arena := some a }).tls t =
          some { x with arena := some a } := upd_same ..
      rw [htls, hgot]
      unfold pendingOf
      simp only [hok.pending_idle h0, hok'.pending_idle h0]
    · intro hn
      cases (upd_same ..).symm.trans hn
  · refine ⟨⟨hpost.inv, ?_, ?_, ?_, ?_⟩, hid₁, ha, har⟩
    · exact ⟨h₁.ids.counter, h₁.ids.lt, h₁.ids.distinct⟩
    · exact ⟨h₁.homes.arena_lt, h₁.homes.page_lt, h₁.homes.cached, h₁.homes.owner, h₁.homes.home⟩
    · exact h₁.stats
    · exact h₁.bal.still (t := t) (h₁.bal.counted.same (attachNext_counts s₁ a)) (fun _ _ => rfl)
        (fun _ _ => ⟨rfl, rfl⟩) fun _ _ => rfl

/-- `y` is `x` with its counters stored. -/
structure TldStored (x y : Tld) : Prop where
  arena : y.arena = x.arena
  binPage : y.binPage = x.binPage
  ok : StatsOk y
  ops : y.statOps < statFlushInterval

/-- Storing the thread's counters moves counts from the thread to its arena at most. -/
theorem tldStatStore_books {x : Tld} (hok : StatsOk x) (hops : x.statOps ≤ 64)
    (hc : Counted Z s.arenas) (he : tldStatStore s t x = .ok s') :
    ∃ Z' y, Counted Z' s'.arenas ∧ Z.Grows Z' ∧ s'.tls t = some y ∧ TldStored x y ∧
      ∀ u a, Z'.net u a + y.pending u a = Z.net u a + x.pending u a := by
  rcases tldStatStore_cases he with ⟨hlt, rfl⟩ | ⟨a, ha, rfl⟩
  · exact ⟨Z, x, hc, .refl Z, upd_same .., ⟨rfl, rfl, hok, hlt⟩, fun _ _ => rfl⟩
  · refine ⟨Z.add a x.taken x.given, x.cleared, hc.add (fun u => ?_) (fun u => ?_),
      Z.grows_add a (fun u => (hok.lt hops u).1) (fun u => (hok.lt hops u).2), upd_same ..,
      ⟨rfl, rfl, ⟨rfl, Nat.zero_le _, Nat.zero_le _, fun _ => rfl⟩, show 0 < 64 by decide⟩,
      fun u b => ?_⟩
    · cases u <;> rfl
    · cases u <;> rfl
    · have hzero : x.cleared.pending u b = 0 := by
        unfold Tld.pending
        split
        next => cases u <;> rfl
        next => rfl
      rw [Z.net_add, hzero]
      unfold Tld.pending
      simp only [ha, Option.some.injEq]
      by_cases hab : a = b
      · rw [if_pos hab, if_pos hab.symm]
        omega
      · rw [if_neg hab, if_neg (Ne.symm hab)]
        omega

/-- What the thread holds back changes as its counters do. -/
theorem Tld.pending_shift {x x' : Tld} {a : Nat} {m m' : Measure → Nat → Int} {d : Measure → Int}
    (hnet : ∀ u b, m' u b = m u b + x'.pending u b) (hx : x.arena = some a)
    (hx' : x'.arena = some a)
    (hd : ∀ u, (x'.taken u : Int) - x'.given u = x.taken u - x.given u + d u) (u : Measure)
    (b : Nat) : m' u b = m u b + x.pending u b + if a = b then d u else 0 := by
  rw [hnet u b]
  unfold Tld.pending
  simp only [hx, hx', Option.some.injEq]
  by_cases hab : a = b
  · rw [if_pos hab, if_pos hab, if_pos hab, hd u, Int.add_assoc]
  · rw [if_neg hab, if_neg hab, if_neg hab, Int.add_zero, Int.add_zero]

/-- Booking a slot of `n` bytes with a thread of arena `a`. -/
theorem tldStatAlloc_books {x : Tld} {n a : Nat} (hok : StatsOk x)
    (hops : x.statOps < statFlushInterval) (hx : x.arena = some a) (hn : n ≤ 32768)
    (hc : Counted Z s.arenas) (he : tldStatAlloc s t x n = .ok s') :
    ∃ Z' y, Counted Z' s'.arenas ∧ Z.Grows Z' ∧ s'.tls t = some y ∧ TldStored x y ∧
      ∀ u b, Z'.net u b + y.pending u b = Z.net u b + x.pending u b +
        if a = b then (u.of n : Int) else 0 := by
  obtain ⟨h₁, h₂, h₃, -⟩ := hok
  unfold statFlushInterval at hops
  -- the local counters are far from wrapping
  have e₁ : (x.statAllocated + n) % 2 ^ 64 = x.statAllocated + n := Nat.mod_eq_of_lt (by omega)
  have e₂ : (x.statAllocCount + 1) % 2 ^ 64 = x.statAllocCount + 1 := Nat.mod_eq_of_lt (by omega)
  have e₃ : (x.statOps + 1) % 2 ^ 32 = x.statOps + 1 := Nat.mod_eq_of_lt (by omega)
  unfold tldStatAlloc at he
  rw [e₁, e₂, e₃] at he
  obtain ⟨Z', y, hc', hg, hy, hst, hnet⟩ := tldStatStore_books (x := { x with
    statAllocated := x.statAllocated + n
    statAllocCount := x.statAllocCount + 1
    statOps := x.statOps + 1 })
    ⟨by simp only; omega, by simp only; omega, by simp only; omega,
      fun hf => absurd (hx.symm.trans hf) (by simp)⟩ (by simp only; omega) hc he
  refine ⟨Z', y, hc', hg, hy, ⟨hst.arena, hst.binPage, hst.ok, hst.ops⟩, fun u b => ?_⟩
  refine Tld.pending_shift (d := fun u => u.of n) hnet hx hx (fun u => ?_) u b
  cases u <;> simp only [Tld.taken, Tld.given, Measure.of] <;> omega

/-- Booking it as given back. -/
theorem tldStatFree_books {x : Tld} {n a : Nat} (hok : StatsOk x)
    (hops : x.statOps < statFlushInterval) (hx : x.arena = some a) (hn : n ≤ 32768)
    (hc : Counted Z s.arenas) (he : tldStatFree s t x n = .ok s') :
    ∃ Z' y, Counted Z' s'.arenas ∧ Z.Grows Z' ∧ s'.tls t = some y ∧ TldStored x y ∧
      ∀ u b, Z'.net u b + y.pending u b + (if a = b then (u.of n : Int) else 0) =
        Z.net u b + x.pending u b := by
  obtain ⟨h₁, h₂, h₃, -⟩ := hok
  unfold statFlushInterval at hops
  have e₁ : (x.statFreed + n) % 2 ^ 64 = x.statFreed + n := Nat.mod_eq_of_lt (by omega)
  have e₂ : (x.statFreeCount + 1) % 2 ^ 64 = x.statFreeCount + 1 := Nat.mod_eq_of_lt (by omega)
  have e₃ : (x.statOps + 1) % 2 ^ 32 = x.statOps + 1 := Nat.mod_eq_of_lt (by omega)
  unfold tldStatFree at he
  rw [e₁, e₂, e₃] at he
  obtain ⟨Z', y, hc', hg, hy, hst, hnet⟩ := tldStatStore_books (x := { x with
    statFreed := x.statFreed + n
    statFreeCount := x.statFreeCount + 1
    statOps := x.statOps + 1 })
    ⟨by simp only; omega, by simp only; omega, by simp only; omega,
      fun hf => absurd (hx.symm.trans hf) (by simp)⟩ (by simp only; omega) hc he
  refine ⟨Z', y, hc', hg, hy, ⟨hst.arena, hst.binPage, hst.ok, hst.ops⟩, fun u b => ?_⟩
  have hshift := Tld.pending_shift (d := fun u => -u.of n) hnet hx hx (fun u => by
    cases u <;> simp only [Tld.taken, Tld.given, Measure.of] <;> omega) u b
  by_cases hab : a = b
  · rw [if_pos hab] at hshift ⊢
    omega
  · rw [if_neg hab] at hshift ⊢
    omega

/-! ### Slots -/

/-- One more slot of a page is out. -/
theorem weight_take {r : PageRef} {slot : Nat} (u : Measure) (a : Nat)
    (ha : (s'.pages r).arena = (s.pages r).arena)
    (hsz : (s'.pages r).slotSize = (s.pages r).slotSize) :
    weight s' (G.take r slot) u a r =
      weight s G u a r +
        if (s.pages r).arena = a then (u.of (s.pages r).slotSize : Int) else 0 := by
  unfold weight Ghost.take
  simp only [upd_same, ha, hsz, List.length_cons]
  split
  next =>
    rw [Nat.succ_mul]
    omega
  next => omega

/-- And one less. -/
theorem weight_drop {r : PageRef} {slot : Nat} (u : Measure) (a : Nat) (hslot : slot ∈ G.busy r)
    (ha : (s'.pages r).arena = (s.pages r).arena)
    (hsz : (s'.pages r).slotSize = (s.pages r).slotSize) :
    weight s' (G.drop r slot) u a r +
      (if (s.pages r).arena = a then (u.of (s.pages r).slotSize : Int) else 0) =
      weight s G u a r := by
  have hpos := List.length_pos_of_mem hslot
  unfold weight Ghost.drop
  simp only [upd_same, ha, hsz, List.length_erase_of_mem hslot]
  split
  next =>
    obtain ⟨n, hn⟩ : ∃ n, (G.busy r).length = n + 1 := ⟨_, (Nat.sub_add_cancel hpos).symm⟩
    rw [hn, Nat.succ_mul, Nat.add_sub_cancel]
    omega
  next => omega

/-- The books of a step on one page. -/
theorem Books.onPage (h : Books c Z s G) {r : PageRef} (hinv : Inv c s' G') (hid : HasId s t)
    (hon : OnPage s t r s') (hth : ThreadsFrom t s s')
    (hmine : ∀ y, s'.tls t = some y → ∃ x, s.tls t = some x ∧ y.arena = x.arena ∧
      (∀ b q, y.binPage b = some q → x.binPage b = some q) ∧ StatsOk y ∧
      y.statOps < statFlushInterval)
    (hc : Counted Z' s'.arenas) (hbusy : ∀ q, q ≠ r → G'.busy q = G.busy q)
    (hlocal : ∀ u a, Z'.net u a + pendingOf (s'.tls t) u a + weight s G u a r =
      Z.net u a + pendingOf (s.tls t) u a + weight s' G' u a r) : Books c Z' s' G' := by
  refine ⟨hinv, h.ids.step hid hth, ?_, ?_, ?_⟩
  · refine h.homes.onPage h.ids hid hth hon fun y hy => ?_
    obtain ⟨x, hx, harena, hcache, -⟩ := hmine y hy
    refine ⟨fun w a hw ha => ?_, fun a ha => ?_, fun b q hq => ?_⟩
    · cases hx.symm.trans hw
      exact harena.trans ha
    · exact h.homes.arena_lt t x a hx (harena.symm.trans ha)
    · obtain ⟨w, hw, hid', -⟩ := hth.had x hx
      cases hy.symm.trans hw
      rw [hid']
      have hown := h.homes.cached t x b q hx (hcache b q hq)
      by_cases hqr : q = r
      · rw [hqr] at hown ⊢
        exact hon.owner.trans hown
      · rw [hon.pages q hqr]
        exact hown
  · refine h.stats_step hth.others fun y hy => ?_
    obtain ⟨-, -, -, -, hok, hops⟩ := hmine y hy
    exact ⟨hok, hops⟩
  · refine h.bal.step r hc hth.others hbusy (fun q hqr _ => ?_) hlocal
    rw [hon.pages q hqr]
    exact ⟨rfl, rfl⟩

theorem HasId.of_some {x : Tld} (hx : s.tls t = some x) : HasId s t :=
  fun hn => absurd (hn.symm.trans hx) (by simp)

/-- The fast path: a slot of the cached page, or nothing. -/
theorem Books.cachedAlloc (h : Books c Z s G) {x : Tld} {bin : Nat} {r : PageRef}
    {o : Option (Nat × Bool)} (hx : s.tls t = some x) (hr : x.binPage bin = some r)
    (he : cachedAlloc c s t x bin r = .ok (o, s')) :
    (o = none ∧ HasId s' t ∧ Quiet c s G s' ∧ Books c Z s' G) ∨
      ∃ slot zeroed Z', o = some (slot, zeroed) ∧ Z.Grows Z' ∧
        Alloc c s G slot (slotSizeOf bin) s' (G.take r slot) ∧ Books c Z' s' (G.take r slot) := by
  have hpost : CachedPost c s G t x bin r o s' :=
    ensures_elim (Q := fun y => CachedPost c s G t x bin r y.1 y.2)
      (cachedAlloc_spec h.inv hx hr) he
  have hth : ThreadsFrom t s s' :=
    ensures_elim (Q := fun y => ThreadsFrom t s y.2)
      (cachedAlloc_closed (threadsFrom_closed t) bin r hx) he
  obtain ⟨hd, hact, -, -⟩ := h.inv.tlds t x hx bin r hr
  have hgeom := (h.inv.active hd hact).1.geom
  have hhome := h.homes.home t x r hx ⟨hd, hact⟩ (h.homes.cached t x bin r hx hr)
  obtain ⟨hok, hops⟩ := h.stats t x hx
  rcases cachedAlloc_cases he with ⟨rfl, harenas, htls⟩ | ⟨hsome, s₁, harenas, htls, hstat⟩
  · obtain ⟨hq, -, hy⟩ := hpost.full rfl
    refine Or.inl ⟨rfl, .of_some hy, hq, h.onPage hq.inv (.of_some hx) hpost.on hth (fun z hz => ?_)
      (by rw [harenas]; exact h.bal.counted) (fun _ _ => rfl) fun u a => ?_⟩
    · cases hy.symm.trans hz
      refine ⟨x, hx, rfl, fun b q hbq => ?_, ⟨hok.ops, hok.taken, hok.given, hok.idle⟩, hops⟩
      by_cases hb : b = bin
      · rw [hb] at hbq
        simp only [upd_same] at hbq
        cases hbq
      · simpa only [upd_ne hb] using hbq
    · have hw : weight s' G u a r = weight s G u a r := by
        unfold weight
        rw [hpost.on.shape.arena, hpost.on.shape.slotSize]
      rw [hw, hx, hy]
      rfl
  · obtain ⟨⟨slot, zeroed⟩, rfl⟩ := Option.isSome_iff_exists.mp hsome
    obtain ⟨halloc, -⟩ := hpost.got slot zeroed rfl
    obtain ⟨Z', y, hc', hg, hy, hst, hnet⟩ := tldStatAlloc_books hok hops hhome
      hgeom.slot_le (by rw [harenas]; exact h.bal.counted) hstat
    refine Or.inr ⟨slot, zeroed, Z', rfl, hg, halloc, h.onPage halloc.inv (.of_some hx) hpost.on hth
      (fun z hz => ?_) hc' (fun q hqr => upd_ne hqr) fun u a => ?_⟩
    · cases hy.symm.trans hz
      exact ⟨x, hx, hst.arena, fun b q hbq => hst.binPage ▸ hbq, hst.ok, hst.ops⟩
    · rw [weight_take u a hpost.on.shape.arena hpost.on.shape.slotSize, hx, hy]
      unfold pendingOf
      simp only
      rw [hnet u a]
      omega

/-- A step that changes no page, no thread and no count. -/
theorem Books.same (h : Books c Z s G) (hinv : Inv c s' G') (hbusy : G'.busy = G.busy)
    (hsame : SameMeta s s') (hth : SameThreads s s') (harenas : s'.arenas = s.arenas) :
    Books c Z s' G' := by
  have hact : ∀ r, Active s' r ↔ Active s r := by
    intro r
    unfold Active
    rw [hsame.segs, hsame.pages]
  refine ⟨hinv, ⟨?_, ?_, ?_⟩, ⟨?_, ?_, ?_, ?_, ?_⟩, ?_, ?_⟩
  · rw [hth.counter]
    exact h.ids.counter
  · rw [hth.counter, hth.tls]
    exact h.ids.lt
  · rw [hth.tls]
    exact h.ids.distinct
  · rw [hth.tls]
    exact h.homes.arena_lt
  · intro r hr
    rw [hsame.pages]
    exact h.homes.page_lt r ((hact r).mp hr)
  · rw [hth.tls, hsame.pages]
    exact h.homes.cached
  · intro r hr
    rw [hsame.pages, hth.counter]
    exact h.homes.owner r ((hact r).mp hr)
  · rw [hth.tls, hsame.pages]
    exact fun t x r hx hr => h.homes.home t x r hx ((hact r).mp hr)
  · rw [hth.tls]
    exact h.stats
  · have hstill : Balanced Z s' G := h.bal.still (t := 0) (by rw [harenas]; exact h.bal.counted)
      (fun t _ => by rw [hth.tls]) (fun q _ => by rw [hsame.pages]; exact ⟨rfl, rfl⟩)
      fun u a => by rw [hth.tls]
    obtain ⟨hc, T, R, hT, hR, hlaw⟩ := hstill
    refine ⟨hc, T, R, hT, fun r hr => hR r (hbusy ▸ hr), fun u a => ?_⟩
    rw [hlaw u a]
    unfold weight
    rw [hbusy]

theorem Books.osExt (h : Books c Z s G) (hos : OsExt s s') : Books c Z s' G := by
  refine h.same (h.inv.osExt hos) rfl hos.same hos.sameThreads ?_
  obtain ⟨_, _, _, _, rfl, -⟩ := hos
  rfl

/-- The arena's own slot: booked directly. -/
theorem Books.arenaAlloc (h : Books c Z s G) (hid : HasId s t) {a bin slot : Nat} {zeroed : Bool}
    (ha : a < numArenas) (hbin : bin < binCount) (hsize : binToSize sizeTables bin ≤ 32768)
    (he : arenaAlloc c s a bin = .ok ((slot, zeroed), s')) :
    (slot = 0 ∧ Quiet c s G s' ∧ Books c Z s' G) ∨ (slot ≠ 0 ∧ ∃ r Z', Z.Grows Z' ∧
      Bumped c s G a bin r slot s' ∧ Books c Z' s' (G.take r slot)) := by
  rcases arenaAlloc_cases h.inv hbin hsize he with ⟨h0, hos⟩ | ⟨h0, r, htook⟩
  · exact Or.inl ⟨h0, .of_same (h.inv.osExt hos) (h.inv.osExt_keeps hos _) hos.same, h.osExt hos⟩
  obtain ⟨hb, hscan, f, hf, harenas⟩ := htook
  have hinv := hb.alloc.inv
  have hth : ThreadsFrom t s s' := .of_eq hb.threads
  obtain ⟨hd, hpage⟩ := hinv.busy_active (r := r) (p := slot) (by simp [Ghost.take])
  have hsz : (s'.pages r).slotSize = slotSizeOf bin := by rw [hpage.geom.slot_eq, hb.binIdx]
  have hle : slotSizeOf bin ≤ 32768 := hsz ▸ hpage.geom.slot_le
  -- a cached page has an owner, so it is not the one that was bumped
  have hkept : ∀ t' x b q, s.tls t' = some x → x.binPage b = some q →
      (s'.pages q).ownerTid = (s.pages q).ownerTid := by
    intro t' x b q hx hq
    obtain ⟨hdq, hactq, -⟩ := h.inv.tlds t' x hx b q hq
    have hqr : q ≠ r := by
      intro hqr
      have htest := (hscan (hqr ▸ hdq) (hqr ▸ hactq)).2
      simp only [scanTest, Bool.and_eq_true, beq_iff_eq] at htest
      have hown := h.homes.cached t' x b q hx hq
      rw [hqr, htest.1] at hown
      have := h.ids.lt t' x hx
      have := h.ids.counter
      omega
    obtain ⟨hdq', hactq', -⟩ := hinv.tlds t' x (by rw [hb.threads.tls]; exact hx) b q hq
    obtain ⟨-, nx, pr, hpq⟩ := hb.others q hqr hdq' hactq'
    rw [hpq]
  refine Or.inr ⟨h0, r, Z.add a (fun u => u.of (slotSizeOf bin)) fun _ => 0, ?_, hb, hinv,
    h.ids.step hid hth, ?_, ?_, ?_⟩
  · refine Z.grows_add a (fun u => ?_) fun u => by omega
    cases u with
    | bytes => exact Nat.lt_of_le_of_lt hle (by decide)
    | blocks => exact (by decide : 1 < 2 ^ 64)
  · refine h.homes.step h.ids hid hth (fun y hy => ?_) (fun q hq => ?_)
      fun t' x b q _ hx hq => hkept t' x b q hx hq
    · rw [hb.threads.tls] at hy
      refine ⟨fun x b hx hb => ?_, fun b hb => h.homes.arena_lt t y b hy hb, fun b q hq => ?_⟩
      · cases hx.symm.trans hy
        exact hb
      · rw [hkept t y b q hy hq]
        exact h.homes.cached t y b q hy hq
    · by_cases hqr : q = r
      · rw [hqr]
        exact Or.inr ⟨by rw [hb.arena]; exact ha, Or.inl hb.owner⟩
      · obtain ⟨hdq, nx, pr, hpq⟩ := hb.others q hqr hq.1 hq.2
        have hactq := hq.2
        rw [hpq] at hactq
        exact Or.inl ⟨⟨hdq, hactq⟩, by rw [hpq], by rw [hpq]⟩
  · rw [hb.threads.tls]
    exact h.stats
  · have hc := h.bal.counted.same hf
    refine h.bal.step (t := t) r ?_ hth.others (fun q hqr => upd_ne hqr) (fun q hqr hne => ?_)
      fun u b => ?_
    · rw [harenas]
      refine hc.add (fun u => ?_) fun u => ?_
      · cases u <;> rfl
      · have hg := (hc u a).2
        have hmod : (f a).given u % 2 ^ 64 = (f a).given u := by
          rw [hg]
          exact Nat.mod_mod ..
        cases u with
        | bytes => exact hmod.symm
        | blocks => exact hmod.symm
    · obtain ⟨p, hp⟩ := List.exists_mem_of_ne_nil _ hne
      obtain ⟨hdq, hinvq⟩ := hinv.busy_active (r := q) (p := p)
        (by simp only [Ghost.take, upd_ne hqr]; exact hp)
      obtain ⟨-, nx, pr, hpq⟩ := hb.others q hqr hdq hinvq.geom.active
      rw [hpq]
      exact ⟨rfl, rfl⟩
    · -- the page had the same shape, or nothing of it was out
      have hold : weight s G u b r =
          if a = b then (((G.busy r).length * u.of (slotSizeOf bin) : Nat) : Int) else 0 := by
        by_cases hnil : G.busy r = []
        · rw [weight_nil hnil, hnil]
          simp
        · obtain ⟨p, hp⟩ := List.exists_mem_of_ne_nil _ hnil
          obtain ⟨hdr, hinvr⟩ := h.inv.busy_active hp
          obtain ⟨-, -, har, hbr⟩ := (hscan hdr hinvr.geom.active).1
          unfold weight
          rw [har, hinvr.geom.slot_eq, hbr]
      rw [hold, hb.threads.tls, Z.net_add]
      unfold weight Ghost.take
      simp only [upd_same, hb.arena, hsz, List.length_cons]
      by_cases hab : a = b
      · rw [if_pos hab, if_pos hab, if_pos hab.symm, Nat.succ_mul]
        omega
      · rw [if_neg hab, if_neg hab, if_neg (Ne.symm hab)]
        omega

/-- The thread claims the page of the slot it got from its arena. -/
theorem Books.claim {s₀ : State} {x : Tld} {a bin slot : Nat} {r : PageRef}
    (h : Books c Z s (G.take r slot)) (hb : Bumped c s₀ G a bin r slot s) (hx : s.tls t = some x)
    (ha : x.arena = some a) : Books c Z (claimPage s t bin slot x) (G.take r slot) := by
  have hq := claimPage_quiet hb hx (by rw [ha]; rfl)
  have hth := claimPage_closed (threadsFrom_closed t) bin slot hx
  have hid : HasId s t := .of_some hx
  rw [claimPage_eq hb] at hq hth ⊢
  split
  next hreg =>
    rw [if_pos hreg] at hq hth
    -- nobody had the page in its cache
    have hfree : ∀ t' y b q, s.tls t' = some y → y.binPage b = some q → q ≠ r := by
      intro t' y b q hy hq hqr
      have hown := h.homes.cached t' y b q hy hq
      rw [hqr, hb.owner] at hown
      have := h.ids.lt t' y hy
      have := h.ids.counter
      omega
    refine ⟨hq.inv, h.ids.step hid hth, ?_, ?_, ?_⟩
    · refine h.homes.step h.ids hid hth (fun y hy => ?_) (fun q hact => ?_)
        fun t' y b q _ hy hq => ?_
      · cases (upd_same ..).symm.trans hy
        refine ⟨fun w b hw hb => ?_, fun b hb => h.homes.arena_lt t x b hx hb, fun b q hbq => ?_⟩
        · cases hx.symm.trans hw
          exact hb
        · by_cases hbb : b = bin
          · subst hbb
            cases (upd_same ..).symm.trans hbq
            simp [State.setTld, State.setPage]
          · have hbq' : x.binPage b = some q := (upd_ne hbb).symm.trans hbq
            simp only [State.setTld, State.setPage, upd_ne (hfree t x b q hx hbq')]
            exact h.homes.cached t x b q hx hbq'
      · by_cases hqr : q = r
        · subst hqr
          refine Or.inr ⟨?_, Or.inr ⟨_, upd_same .., ?_, ?_⟩⟩
          · simp only [State.setTld, State.setPage, upd_same, hb.arena]
            exact h.homes.arena_lt t x a hx ha
          · simp [State.setTld, State.setPage]
          · simp only [State.setTld, State.setPage, upd_same, hb.arena]
            exact ha
        · unfold Active at hact
          simp only [State.setTld, State.setPage, upd_ne hqr] at hact
          refine Or.inl ⟨hact, ?_, ?_⟩
          · simp only [State.setTld, State.setPage, upd_ne hqr]
          · simp only [State.setTld, State.setPage, upd_ne hqr]
      · simp only [State.setTld, State.setPage, upd_ne (hfree t' y b q hy hq)]
    · refine h.stats_step hth.others fun y hy => ?_
      cases (upd_same ..).symm.trans hy
      obtain ⟨hok, hops⟩ := h.stats t x hx
      exact ⟨⟨hok.ops, hok.taken, hok.given, hok.idle⟩, hops⟩
    · refine h.bal.still h.bal.counted hth.others (fun q _ => ?_) fun u b => ?_
      · by_cases hqr : q = r
        · subst hqr
          simp [State.setTld, State.setPage]
        · simp [State.setTld, State.setPage, upd_ne hqr]
      · simp only [State.setTld, State.setPage, upd_same, hx]
        rfl
  next => exact h

/-! ### Whole calls -/

/-- A slot of `n` bytes more is out, or none if the call returned null. -/
def BooksGrow (c : Cfg) (Z : Tally) (s : State) (G : Ghost) (slot n : Nat) (s' : State) : Prop :=
  (slot = 0 ∧ Quiet c s G s' ∧ Books c Z s' G) ∨
    (slot ≠ 0 ∧ ∃ r Z', Z.Grows Z' ∧ Alloc c s G slot n s' (G.take r slot) ∧
      Books c Z' s' (G.take r slot))

theorem BooksGrow.after {s₁ : State} {slot n : Nat} (h : BooksGrow c Z s₁ G slot n s')
    (hq : Quiet c s G s₁) : BooksGrow c Z s G slot n s' := by
  rcases h with ⟨h0, hq', hb⟩ | ⟨h0, r, Z', hg, ha, hb⟩
  · exact Or.inl ⟨h0, hq.trans hq', hb⟩
  · exact Or.inr ⟨h0, r, Z', hg, .after hq ha, hb⟩

theorem Books.slowAlloc (h : Books c Z s G) (hid : HasId s t) {bin slot : Nat}
    {hasTld zeroed : Bool} (hbin : bin < binCount) (hsize : binToSize sizeTables bin ≤ 32768)
    (he : slowAlloc c s t bin hasTld = .ok ((slot, zeroed), s')) :
    BooksGrow c Z s G slot (slotSizeOf bin) s' := by
  obtain ⟨a, s₁, s₂, hget, halloc, hlast⟩ := slowAlloc_cases he
  have hpost : AttachPost c s G t a s₁ :=
    ensures_elim (Q := fun x => AttachPost c s G t x.1 x.2) (arenaGet_spec h.inv t) hget
  obtain ⟨h₁, hid₁, ha, har⟩ := h.arenaGet hid hget
  refine BooksGrow.after ?_ (.of_same hpost.inv hpost.keeps hpost.same)
  rcases h₁.arenaAlloc hid₁ ha hbin hsize halloc with ⟨h0, hq, h₂⟩ | ⟨h0, r, Z', hg, hb, h₂⟩
  · rcases hlast with ⟨-, hne, -⟩ | rfl
    · exact absurd h0 hne
    · exact Or.inl ⟨h0, hq, h₂⟩
  · rcases hlast with ⟨-, -, x, hx, rfl⟩ | rfl
    · have hxa : x.arena = some a := by
        refine har x ?_
        rw [← hb.threads.tls]
        exact hx
      exact Or.inr ⟨h0, r, Z', hg, hb.alloc.before (claimPage_quiet hb hx (by rw [hxa]; rfl)),
        h₂.claim hb hx hxa⟩
    · exact Or.inr ⟨h0, r, Z', hg, hb.alloc, h₂⟩

theorem Books.slabAllocInner (h : Books c Z s G) (hid : HasId s t) {size slot : Nat} {zeroed : Bool}
    (hpos : 0 < size) (hs : SlabSized size)
    (he : slabAllocInner c s t size = .ok ((slot, zeroed), s')) :
    BooksGrow c Z s G slot (slotSizeOf (sizeToBin sizeTables size)) s' := by
  obtain ⟨hbin, -⟩ := sizeToBin_fits hpos hs.1
  cases slabAllocInner_cases hpos hs he with
  | cached x r s₁ htld hr hact he =>
    obtain ⟨h₁, hid₁⟩ := h.tldGet hid htld
    have hp := tldGet_spec h.inv htld
    refine BooksGrow.after ?_ (.of_same hp.inv hp.keeps hp.ext.same)
    rcases h₁.cachedAlloc hp.got hr he with ⟨hf, -⟩ | ⟨slot', zeroed', Z', heq, hg, ha, h₂⟩
    · cases hf
    · obtain ⟨rfl, rfl⟩ := Prod.mk.inj (Option.some.inj heq)
      exact Or.inr ⟨Nat.ne_of_gt (h₂.inv.blk_align ha.new).2, r, Z', hg, ha, h₂⟩
  | full x r s₁ s₂ htld hr hact hfull he =>
    obtain ⟨h₁, hid₁⟩ := h.tldGet hid htld
    have hp := tldGet_spec h.inv htld
    refine BooksGrow.after ?_ (.of_same hp.inv hp.keeps hp.ext.same)
    rcases h₁.cachedAlloc hp.got hr hfull with ⟨-, hid₂, hq, h₂⟩ | ⟨_, _, _, heq, -⟩
    · exact (h₂.slowAlloc hid₂ hbin hs.2 he).after hq
    · cases heq
  | missed o s₁ htld hmiss he =>
    obtain ⟨h₁, hid₁⟩ := h.tldGet hid htld
    have hp := tldGet_spec h.inv htld
    exact (h₁.slowAlloc hid₁ hbin hs.2 he).after (.of_same hp.inv hp.keeps hp.ext.same)

/-- Handing out a large block is not in the arenas' books. -/
theorem Books.largeAlloc (h : Books c Z s G) {size p : Nat} (he : largeAlloc c s size = .ok (p, s'))
    (hp : LargePost c s G size 16 p s') :
    (p = 0 ∧ Books c Z s' G) ∨ (p ≠ 0 ∧ ∃ b, Alloc c s G p size s' (G.takeLarge b p) ∧
      Books c Z s' (G.takeLarge b p)) := by
  obtain ⟨_, _, _, _, _, _, _, _, heq⟩ := largeAlloc_form he
  have hbooks : ∀ {G'}, Inv c s' G' → G'.busy = G.busy → Books c Z s' G' := by
    intro G' hinv hbusy
    refine ⟨hinv, ?_, ?_, ?_, ?_⟩
    all_goals rw [heq]
    · exact ⟨h.ids.counter, h.ids.lt, h.ids.distinct⟩
    · exact ⟨h.homes.arena_lt, h.homes.page_lt, h.homes.cached, h.homes.owner, h.homes.home⟩
    · exact h.stats
    · obtain ⟨hc, T, R, hT, hR, hlaw⟩ := h.bal
      refine ⟨hc, T, R, hT, fun r hr => hR r (hbusy ▸ hr), fun u a => (hlaw u a).trans ?_⟩
      unfold weight
      rw [hbusy]
  by_cases h0 : p = 0
  · exact Or.inl ⟨h0, hbooks (hp.null h0).inv rfl⟩
  · obtain ⟨b, ha, -⟩ := hp.got h0
    exact Or.inr ⟨h0, b, ha, hbooks ha.inv rfl⟩

/-- A free, as seen from after `tld_get`. -/
theorem OnPage.fromTld {s₁ : State} {r : PageRef} {o : Option Tld} (hp : TldPost c s G t o s₁)
    (hon : OnPage s t r s') : OnPage s₁ t r s' := by
  have hsame := hp.ext.same
  have hnext : s₁.arenaNext = s.arenaNext := by
    obtain ⟨_, _, _, _, _, _, rfl⟩ := hp.ext
    rfl
  refine ⟨hon.segs.trans hsame.segs.symm, hon.registry.trans hsame.registry.symm,
    hon.larges.trans hsame.larges.symm, fun q hq => ?_, ?_, ?_, fun t' ht => ?_,
    hon.arenaNext.trans hnext.symm⟩
  · rw [hsame.pages]
    exact hon.pages q hq
  · rw [hsame.pages]
    exact hon.shape
  · rw [hsame.pages]
    exact hon.owner
  · rw [hp.others t' ht]
    exact hon.others t' ht

theorem Books.slabFree (h : Books c Z s G) (hid : HasId s t) {p : Nat} {r : PageRef}
    (hp : p ∈ G.busy r) (hreg : segmentIsRegistered s.segmentRegistry r.seg = true)
    (hlow : r.start + 65536 ≤ 2 ^ 48) (he : slabFree c s t p = .ok s') :
    ∃ Z', Z.Grows Z' ∧ Release c s G p s' (G.drop r p) ∧ Books c Z' s' (G.drop r p) := by
  have hf : FreePost c s G t r p s' := ensures_elim (slabFree_spec h.inv hp hreg hlow) he
  obtain ⟨hd, hpage⟩ := h.inv.busy_active hp
  obtain ⟨b₁, b₂, -⟩ := hpage.busy_in hp
  have hge := hpage.geom.slot_ge
  have hptr : ptrToPage s p = some r := by
    rw [(h.inv.ptrToPage_eq hd b₁ (by omega)).2, if_pos hreg]
  -- the thread's data first, then the slot
  rcases htld : CustomMalloc.tldGet c s t with ⟨o, s₁⟩
  have hpost := tldGet_spec h.inv htld
  obtain ⟨h₁, hid₁⟩ := h.tldGet hid htld
  have hpages := hpost.ext.same.pages
  have hact₁ : Active s₁ r :=
    ⟨by rw [hpost.ext.same.segs]; exact hd, by rw [hpages]; exact hpage.geom.active⟩
  have hon := hf.on.fromTld hpost
  have hdrop : ∀ q, q ≠ r → (G.drop r p).busy q = G.busy q := fun q hqr => upd_ne hqr
  have hweight : ∀ u a, weight s' (G.drop r p) u a r +
      (if (s.pages r).arena = a then (u.of (s.pages r).slotSize : Int) else 0) =
        weight s₁ G u a r := by
    intro u a
    have hw := weight_drop (s := s₁) u a hp hon.shape.arena hon.shape.slotSize
    rwa [hpages] at hw
  cases slabFree_cases he with
  | ignored hs =>
    -- `used` would count the slot and not count it
    subst hs
    obtain ⟨k, loc, rem, hslots⟩ := hpage.slots
    obtain ⟨hpage', -⟩ := hf.release.inv.active (r := r) hd hpage.geom.active
    obtain ⟨k', loc', rem', hslots'⟩ := hpage'.slots
    have h₁ := hslots.used_eq.symm.trans hslots'.used_eq
    simp only [Ghost.drop, upd_same, List.length_erase_of_mem hp] at h₁
    have := List.length_pos_of_mem hp
    omega
  | owned r' p' x s₂ hr hm htld' hown hfree =>
    cases hptr.symm.trans hr
    obtain ⟨hsz, -, hpo⟩ := markFreed_fields hm
    rw [tldGet_setPage, htld] at htld'
    cases htld'
    have hx : s₁.tls t = some x := hpost.got
    have hhome := h₁.homes.home t x r hx hact₁ (by rw [hpages, ← hpo, hown])
    rw [hpages] at hhome
    obtain ⟨hok, hops⟩ := h₁.stats t x hx
    obtain ⟨s₂, harenas, hsame, hstat⟩ := freeLocal_cases hfree
    rw [hsz] at hstat
    obtain ⟨Z', y, hc', hg, hy, hst, hnet⟩ := tldStatFree_books hok hops hhome hpage.geom.slot_le
      (by rw [harenas]; exact h₁.bal.counted) hstat
    have hth : ThreadsFrom t s₁ s' := by
      refine ThreadsFrom.trans (.of_eq ⟨hsame.tls, hsame.counter⟩) (ensures_elim
        (tldStatStore_closed (threadsFrom_closed t).toFreeClosed (x := x) ?_ ?_) hstat)
      · rw [hsame.tls]
        exact hx
      · rfl
    refine ⟨Z', hg, hf.release, h₁.onPage hf.release.inv hid₁ hon hth (fun z hz => ?_) hc' hdrop
      fun u a => ?_⟩
    · cases hy.symm.trans hz
      exact ⟨x, hx, hst.arena, fun b q hbq => hst.binPage ▸ hbq, hst.ok, hst.ops⟩
    · rw [hx, hy, ← hweight u a]
      have := hnet u a
      unfold pendingOf
      simp only
      omega
  | remote r' p' o' s₂ hr hm htld' hnot hs =>
    cases hptr.symm.trans hr
    obtain ⟨hsz, har, -⟩ := markFreed_fields hm
    rw [tldGet_setPage, htld] at htld'
    cases htld'
    have hth : ThreadsFrom t s₁ s' := by
      rw [hs]
      exact .of_eq ⟨rfl, rfl⟩
    have htls : s'.tls = s₁.tls := by
      rw [hs]
      rfl
    refine ⟨Z.add (s.pages r).arena (fun _ => 0) fun u => u.of (s.pages r).slotSize, ?_,
      hf.release, h₁.onPage hf.release.inv hid₁ hon hth (fun y hy => ?_) ?_ hdrop fun u a => ?_⟩
    · refine Z.grows_add _ (fun u => by omega) fun u => ?_
      cases u with
      | bytes => exact Nat.lt_of_le_of_lt hpage.geom.slot_le (by decide)
      | blocks => exact (by decide : 1 < 2 ^ 64)
    · rw [htls] at hy
      obtain ⟨hok, hops⟩ := h₁.stats t y hy
      exact ⟨y, hy, rfl, fun _ _ hbq => hbq, hok, hops⟩
    · have hc := h₁.bal.counted
      rw [hs, ← har, ← hsz]
      refine hc.add (fun u => ?_) fun u => ?_
      · have hmod : (s₁.arenas p'.arena).taken u % 2 ^ 64 = (s₁.arenas p'.arena).taken u := by
          rw [(hc u p'.arena).1]
          exact Nat.mod_mod ..
        cases u with
        | bytes => exact hmod.symm
        | blocks => exact hmod.symm
      · cases u <;> rfl
    · rw [htls, Z.net_add, ← hweight u a]
      by_cases hab : (s.pages r).arena = a
      · rw [if_pos hab, if_pos hab.symm]
        omega
      · rw [if_neg hab, if_neg (Ne.symm hab)]
        omega

/-- A thread's exit passes on what it held back. -/
theorem Books.exit (h : Books c Z s G) (t : Nat) :
    ∃ Z', Z.Grows Z' ∧ Books c Z' (tldCleanup c s t) G := by
  obtain ⟨hsame, htls, hcount, -⟩ := tldCleanup_frame c s t
  have hold : ∀ t' y, (tldCleanup c s t).tls t' = some y → t' ≠ t ∧ s.tls t' = some y := by
    intro t' y hy
    rw [htls] at hy
    by_cases htt : t' = t
    · rw [htt, upd_same] at hy
      cases hy
    · exact ⟨htt, (upd_ne htt).symm.trans hy⟩
  have hact : ∀ r, Active (tldCleanup c s t) r ↔ Active s r := by
    intro r
    unfold Active
    rw [hsame.segs, hsame.pages]
  have hids : Ids (tldCleanup c s t) := by
    refine ⟨by rw [hcount]; exact h.ids.counter, fun t' y hy => ?_, fun t₁ t₂ y₁ y₂ h₁ h₂ heq => ?_⟩
    · rw [hcount]
      exact h.ids.lt t' y (hold t' y hy).2
    · exact h.ids.distinct t₁ t₂ y₁ y₂ (hold _ _ h₁).2 (hold _ _ h₂).2 heq
  have hhomes : Homes (tldCleanup c s t) := by
    refine ⟨fun t' y a hy => h.homes.arena_lt t' y a (hold t' y hy).2, fun r hr => ?_,
      fun t' y b r hy hr => ?_, fun r hr => ?_, fun t' y r hy hr hown => ?_⟩
    · rw [hsame.pages]
      exact h.homes.page_lt r ((hact r).mp hr)
    · rw [hsame.pages]
      exact h.homes.cached t' y b r (hold t' y hy).2 hr
    · rw [hsame.pages, hcount]
      exact h.homes.owner r ((hact r).mp hr)
    · rw [hsame.pages] at hown ⊢
      exact h.homes.home t' y r (hold t' y hy).2 ((hact r).mp hr) hown
  have hstats : ∀ t' y, (tldCleanup c s t).tls t' = some y → StatsOk y ∧
      y.statOps < statFlushInterval :=
    fun t' y hy => h.stats t' y (hold t' y hy).2
  have hothers : OthersKept t s (tldCleanup c s t) := fun t' ht => by rw [htls, upd_ne ht]
  have hpages : ∀ q, G.busy q ≠ [] → ((tldCleanup c s t).pages q).arena = (s.pages q).arena ∧
      ((tldCleanup c s t).pages q).slotSize = (s.pages q).slotSize := fun q _ => by
    rw [hsame.pages]
    exact ⟨rfl, rfl⟩
  cases hx : s.tls t with
  | none =>
    rw [tldCleanup_none hx]
    exact ⟨Z, .refl Z, h⟩
  | some x =>
    obtain ⟨hok, hops⟩ := h.stats t x hx
    have harenas : (tldCleanup c s t).arenas = (exited s t x).arenas := by
      rcases tldCleanup_cases (c := c) hx with heq | ⟨b, heq⟩
      · rw [heq]
      · rw [heq]
    have hnone : (tldCleanup c s t).tls t = none := by rw [htls, upd_same]
    unfold exited at harenas
    cases ha : x.arena with
    | none =>
      -- nothing was held back
      rw [ha] at harenas
      refine ⟨Z, .refl Z, h.inv.cleanup t, hids, hhomes, hstats, h.bal.still
        (by rw [harenas]; exact h.bal.counted) hothers hpages fun u a => ?_⟩
      rw [hnone, hx]
      unfold pendingOf
      simp only
      rw [hok.pending_idle (hok.idle ha)]
    | some a =>
      rw [ha] at harenas
      have hlt := hok.lt (Nat.le_of_lt hops)
      refine ⟨Z.add a x.taken x.given, Z.grows_add a (fun u => (hlt u).1) (fun u => (hlt u).2),
        h.inv.cleanup t, hids, hhomes, hstats, h.bal.still ?_ hothers hpages fun u b => ?_⟩
      · rw [harenas]
        refine h.bal.counted.add (fun u => ?_) fun u => ?_
        · cases u <;> rfl
        · cases u <;> rfl
      · rw [hnone, hx, Z.net_add]
        unfold pendingOf Tld.pending
        simp only [ha, Option.some.injEq]
        by_cases hab : a = b
        · rw [if_pos hab, if_pos hab.symm]
          omega
        · rw [if_neg hab, if_neg (Ne.symm hab)]
          omega

end CustomMalloc

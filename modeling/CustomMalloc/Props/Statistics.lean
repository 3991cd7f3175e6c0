import CustomMalloc.Inv.Books
import CustomMalloc.Props.Conservation
import CustomMalloc.ThreadRun
import CustomMalloc.Zone
import Mathlib.Data.Int.ModEq
import Mathlib.Algebra.Order.BigOperators.Group.Finset
import Mathlib.Algebra.Order.Group.Abs

/-!
# The statistics count every allocation

Along every run of calls, thread starts and thread exits the books are balanced: for each
arena, its counters and the counters its threads have not flushed yet add up to the slots
that are out, in bytes and in blocks, modulo `2 ^ 64`. As long as no counter wraps,
`blocks_in_use` of `zone_statistics` is off by at most 63 for every thread.

It takes that `slab_free` finds the slots it is given, since a slot of a segment the
registry has no room for stays in the books when it is freed, and that thread ids are not
handed out twice, since a free by a namesake of the owner is booked in the wrong arena.
-/

namespace CustomMalloc

open Lib.Words Lib.Bytes Lib.Chain Lib.Intervals Lib.Post Lib.Sums

variable {c : Cfg} {σ σ' : Sys} {s s' : State} {G G' : Ghost} {Z Z' : Tally} {t : Nat}

/-! ## The blocks that are out -/

/-- `n` blocks are out: the busy slots and `k` large ones. -/
def LiveCount (n : Nat) (G : Ghost) (k : Nat) : Prop :=
  ∃ R : Finset PageRef, (∀ r, G.busy r ≠ [] → r ∈ R) ∧
    (n : Int) = ∑ r ∈ R, ((G.busy r).length : Int) + k

/-- One page has `d` more busy slots. -/
theorem LiveCount.change {n n' k : Nat} (h : LiveCount n G k) (r : PageRef)
    (hbusy : ∀ q, q ≠ r → G'.busy q = G.busy q)
    (hn : (n' : Int) + (G.busy r).length = n + (G'.busy r).length) : LiveCount n' G' k := by
  classical
  obtain ⟨R, hR, hsum⟩ := h
  refine ⟨insert r R, fun q hq => ?_, ?_⟩
  · by_cases hqr : q = r
    · exact hqr ▸ Finset.mem_insert_self ..
    · rw [hbusy q hqr] at hq
      exact Finset.mem_insert_of_mem (hR q hq)
  · have hR₁ : ∑ q ∈ insert r R, ((G.busy q).length : Int) = ∑ q ∈ R, ((G.busy q).length : Int) :=
      Finset.sum_insert_of_eq_zero_if_notMem fun hn => by
        rw [Classical.not_not.mp (mt (hR r) hn)]
        rfl
    have hch := sum_change (Finset.mem_insert_self r R)
      (f := fun q => ((G'.busy q).length : Int)) (g := fun q => ((G.busy q).length : Int))
      fun q _ hqr => by rw [hbusy q hqr]
    omega

/-! ## The runs -/

/-- The conditions on a step: no size wraps, `slab_free` finds what it is given, and a
thread that starts gets an id of its own. -/
def Accountable (c : Cfg) (t : Nat) (σ : Sys) : ThreadOp → Prop
  | .call (.alloc size) => HasId σ.heap t ∧ LargeFits c size 16
  | .call (.free ptr) => HasId σ.heap t ∧ (ptr = 0 ∨ ptrToSegment σ.heap ptr ≠ 0)
  | .exit => True

/-- The books are balanced, and the blocks that are out are the clients'. -/
structure Accounts (c : Cfg) (Z : Tally) (σ : Sys) (G : Ghost) : Prop where
  books : Books c Z σ.heap G
  holds : Holds c σ G
  all : ∀ p k, Blk σ.heap G p k → p ∈ σ.ptrs
  count : LiveCount σ.live.length G σ.heap.largeAllocCount

theorem Accounts.slabHolds (h : Accounts c Z σ G) : SlabHolds c σ G :=
  ⟨h.holds, fun r x hx => h.all x _ (.slab r hx)⟩

theorem Books.withAnswers (h : Books c Z s G) (ans : List (Option Nat)) :
    Books c Z (s.withAnswers ans) G :=
  h.same (h.inv.withAnswers ans).inv rfl ⟨rfl, rfl, rfl, rfl⟩ ⟨rfl, rfl⟩ rfl

theorem Accounts.withAnswers (h : Accounts c Z σ G) (ans : List (Option Nat)) :
    Accounts c Z ⟨σ.heap.withAnswers ans, σ.live⟩ G :=
  ⟨h.books.withAnswers ans, h.holds.withAnswers ans,
    fun p k hb => h.all p k ((h.books.inv.withAnswers ans).only p k hb), h.count⟩

theorem initial_accounts (c : Cfg) :
    Accounts c ⟨fun _ _ => 0, fun _ _ => 0⟩ (Sys.initial c) Ghost.empty := by
  have hh := initial_slabHolds c
  have hno : ∀ p k, ¬ Blk (Sys.initial c).heap Ghost.empty p k := by
    intro p k hb
    rcases hb.split with ⟨r, hr, -⟩ | ⟨b, la, hl, -⟩
    · exact absurd hr List.not_mem_nil
    · exact absurd hl (by simp [Sys.initial, State.initial])
  refine ⟨⟨hh.inv, ⟨Nat.zero_le _, ?_, ?_⟩, ⟨?_, ?_, ?_, ?_, ?_⟩, ?_,
    ⟨fun u a => ?_, ∅, ∅, ?_, ?_, ?_⟩⟩,
    hh.toHolds, fun p k hb => absurd hb (hno p k), ∅, ?_, rfl⟩
  · exact fun t x hx => absurd hx (by simp [Sys.initial, State.initial])
  · exact fun t t' x x' hx => absurd hx (by simp [Sys.initial, State.initial])
  · exact fun t x a hx => absurd hx (by simp [Sys.initial, State.initial])
  · exact fun r hr => absurd hr.2 (by simp [Sys.initial, State.initial])
  · exact fun t x b r hx => absurd hx (by simp [Sys.initial, State.initial])
  · exact fun r hr => absurd hr.2 (by simp [Sys.initial, State.initial])
  · exact fun t x r hx => absurd hx (by simp [Sys.initial, State.initial])
  · exact fun t x hx => absurd hx (by simp [Sys.initial, State.initial])
  · cases u <;> exact ⟨rfl, rfl⟩
  · exact fun t ht => absurd rfl ht
  · exact fun r hr => absurd rfl hr
  · exact fun u a => rfl
  · exact fun r hr => absurd rfl hr

/-- A new block. -/
theorem Accounts.alloc {p n k : Nat} (h : Accounts c Z σ G) (hb : Books c Z' s' G')
    (ha : Alloc c σ.heap G p k s' G') (hk : n ≤ k)
    (hcount : LiveCount (σ.live.length + 1) G' s'.largeAllocCount) :
    Accounts c Z' ⟨s', (p, n) :: σ.live⟩ G' := by
  refine ⟨hb, h.holds.alloc ha hk, fun q j hq => ?_, hcount⟩
  by_cases hqp : q = p
  · rw [hqp]
    exact List.mem_cons_self ..
  · exact List.mem_cons_of_mem _ (h.all q j (ha.only q j hq hqp))

theorem Accounts.quiet (h : Accounts c Z σ G) (hb : Books c Z s' G) (hq : Quiet c σ.heap G s')
    (hcount : s'.largeAllocCount = σ.heap.largeAllocCount) : Accounts c Z ⟨s', σ.live⟩ G :=
  ⟨hb, h.holds.quiet hq, fun q j hq' => h.all q j (hq.only q j hq'), by rw [hcount]; exact h.count⟩

/-- The count of large blocks after one more was mapped. -/
theorem Inv.largeAlloc_count (h : Inv c s G) {size p : Nat} (hfit : LargeFits c size 16)
    (he : largeAlloc c s size = .ok (p, s')) :
    s'.largeAllocCount = if p = 0 then s.largeAllocCount else s.largeAllocCount + 1 := by
  obtain ⟨l, hl, hmem, hlen⟩ := h.larges.list
  have hlt := h.larges.length_lt hl.1.nodup fun b hb => (hmem b).mp hb
  have hsame : ∀ {s₁}, OsExt s s₁ → s₁.largeAllocCount = s.largeAllocCount := by
    rintro s₁ ⟨_, _, _, _, rfl, -⟩
    rfl
  rcases largeAllocAligned_cases (k := 4) (by decide) hfit he with
    ⟨h0, hos⟩ | ⟨base, s₁, hbase, hos, -, -, -, hp, rfl⟩
  · rw [if_pos h0]
    exact hsame hos
  · rw [if_neg (by omega)]
    have hlink : (linkLarge s₁ (newHeader c base size (2 ^ 4))).largeAllocCount =
        s.largeAllocCount := by
      rw [← hsame hos]
      unfold linkLarge
      simp only
      split <;> rfl
    show ((linkLarge s₁ (newHeader c base size (2 ^ 4))).largeAllocCount + 1) % 2 ^ 64 = _
    rw [hlink, hlen]
    exact Nat.mod_eq_of_lt (by omega)

theorem dropPtr_length {live : List (Nat × Nat)} {p : Nat} (hnd : (live.map Prod.fst).Nodup)
    (hp : p ∈ live.map Prod.fst) : (dropPtr p live).length + 1 = live.length := by
  have hmap : (dropPtr p live).map Prod.fst = (live.map Prod.fst).erase p := by
    rw [hnd.erase_eq_filter, dropPtr, List.filter_map]
    rfl
  have hlen := congrArg List.length hmap
  rw [List.length_map, List.length_erase_of_mem hp, List.length_map] at hlen
  have := List.length_pos_of_mem hp
  rw [List.length_map] at this
  omega

/-- One call. -/
theorem Accounts.slabAlloc (h : Accounts c Z σ G) (hid : HasId σ.heap t) {size p : Nat}
    (hfit : LargeFits c size 16) (he : slabAlloc c σ.heap t size = .ok (p, s')) :
    ∃ Z' G', Z.Grows Z' ∧ Accounts c Z' ⟨s', addPtr p size σ.live⟩ G' := by
  have hpos := atLeastOne_pos size
  have heq : CustomMalloc.slabAlloc c σ.heap t size =
      CustomMalloc.slabAlloc c σ.heap t (atLeastOne size) := by
    unfold CustomMalloc.slabAlloc CustomMalloc.slabAllocInner
    rw [if_neg (Nat.ne_of_gt hpos)]
    rfl
  rw [heq] at he
  unfold addPtr
  by_cases hslab : SlabSized (atLeastOne size)
  · have hlarge : LargeKept σ.heap s' := by
      obtain ⟨⟨⟨q, z⟩, s₁⟩, hin, hret⟩ := bind_eq_ok he
      obtain ⟨-, rfl⟩ := Prod.mk.inj (Except.ok.inj hret)
      exact ensures_elim (Q := fun x => LargeKept σ.heap x.2)
        (slabAllocInner_closed (largeKept_closed t) _ hpos hslab) hin
    obtain ⟨⟨⟨q, z⟩, s₁⟩, hin, hret⟩ := bind_eq_ok he
    cases hret
    rcases h.books.slabAllocInner hid hpos hslab hin with ⟨h0, hq, hb⟩ | ⟨h0, r, Z', hg, ha, hb⟩
    · rw [if_pos h0]
      exact ⟨Z, G, .refl Z, h.quiet hb hq hlarge.count⟩
    · rw [if_neg h0]
      refine ⟨Z', _, hg, h.alloc hb ha ?_ ?_⟩
      · exact Nat.le_trans (le_atLeastOne size) (slotSizeOf_ge hpos hslab.1)
      · rw [hlarge.count]
        refine h.count.change r (fun q hqr => upd_ne hqr) ?_
        simp only [Ghost.take, upd_same, List.length_cons]
        omega
  · rw [slabAlloc_rerouted c _ t hpos hslab] at he
    have hcount := h.books.inv.largeAlloc_count hfit.atLeastOne he
    have hp := largeAlloc_spec h.books.inv hfit.atLeastOne hpos he
    rcases h.books.largeAlloc he hp with ⟨h0, hb⟩ | ⟨h0, b, ha, hb⟩
    · rw [if_pos h0] at hcount ⊢
      exact ⟨Z, G, .refl Z, h.quiet hb (hp.null h0) hcount⟩
    · rw [if_neg h0] at hcount ⊢
      refine ⟨Z, _, .refl Z, h.alloc hb ha (le_atLeastOne size) ?_⟩
      obtain ⟨R, hR, hsum⟩ := h.count
      refine ⟨R, hR, ?_⟩
      rw [hcount]
      show ((σ.live.length + 1 : Nat) : Int) = ∑ r ∈ R, ((G.busy r).length : Int) + _
      omega

theorem Accounts.slabFree (h : Accounts c Z σ G) (hid : HasId σ.heap t) {p : Nat}
    (hlow : LowPtr σ.heap p) (hlegal : p = 0 ∨ p ∈ σ.ptrs)
    (hfind : p = 0 ∨ ptrToSegment σ.heap p ≠ 0) (he : slabFree c σ.heap t p = .ok s') :
    ∃ Z' G', Z.Grows Z' ∧ Accounts c Z' ⟨s', dropPtr p σ.live⟩ G' := by
  by_cases h0 : p = 0
  · subst h0
    obtain rfl : σ.heap = s' := Except.ok.inj he
    have hnone : dropPtr 0 σ.live = σ.live := by
      refine List.filter_eq_self.mpr fun x hx => ?_
      obtain ⟨k, -, hb⟩ := h.holds.blk x hx
      have := (h.books.inv.blk_align hb).2
      simp only [bne_iff_ne, ne_eq]
      omega
    rw [hnone]
    exact ⟨Z, G, .refl Z, h⟩
  have hp := hlegal.resolve_left h0
  have hseg := hfind.resolve_left h0
  obtain ⟨-, k, -, -, hb⟩ := h.holds.exists_blk hp
  rcases h.books.inv.blk_cases hb with ⟨r, hr, -, -, -⟩ | ⟨b, la, hl, hok, -, -⟩
  · have hreg : segmentIsRegistered σ.heap.segmentRegistry r.seg = true := by
      by_contra hreg
      rw [(h.books.inv.ptrToPage_slab hr).1, if_neg hreg] at hseg
      exact hseg rfl
    obtain ⟨Z', hg, hrel, hbooks⟩ := h.books.slabFree hid hr hreg
      (h.books.inv.page_low hr (hlow.low h.books.inv r hr)) he
    have hlarge : LargeKept σ.heap s' :=
      ensures_elim (slabFree_closed (largeKept_closed t).toFreeClosed σ.heap p) he
    refine ⟨Z', _, hg, hbooks, h.holds.drop hrel.inv hrel.keeps, fun q j hq => ?_, ?_⟩
    · refine mem_ptrs_dropPtr.mpr ⟨h.all q j (hrel.only q j hq), fun hqp => ?_⟩
      exact hrel.gone j (hqp ▸ hq)
    · rw [hlarge.count]
      refine h.count.change r (fun q hqr => upd_ne hqr) ?_
      have hlen := dropPtr_length h.holds.nodup hp
      have hpos := List.length_pos_of_mem hr
      simp only [Ghost.drop, upd_same, List.length_erase_of_mem hr]
      omega
  · exact absurd (h.books.inv.ptrToSegment_large hl hok) hseg

theorem Accounts.write (h : Accounts c Z σ G) {m : Mem} (hm : ∀ y, m y ≠ σ.heap.mem y → σ.Owns y) :
    Accounts c Z { σ with heap := { σ.heap with mem := m } } G := by
  have hh := h.holds.write hm
  refine ⟨h.books.same hh.inv rfl ⟨rfl, rfl, rfl, rfl⟩ ⟨rfl, rfl⟩ rfl, hh, fun p k hb => ?_,
    h.count⟩
  exact h.all p k (hb.same ⟨rfl, rfl, rfl, rfl⟩)

theorem Accounts.exit (h : Accounts c Z σ G) (t : Nat) :
    ∃ Z', Z.Grows Z' ∧ Accounts c Z' (σ.exit c t) G := by
  obtain ⟨Z', hg, hb⟩ := h.books.exit t
  obtain ⟨hsame, -, -, hmem⟩ := tldCleanup_frame c σ.heap t
  have hkeep : Keeps σ.heap G (tldCleanup c σ.heap t) G fun _ => True := Keeps.refl.same hsame hmem
  have hq : Quiet c σ.heap G (tldCleanup c σ.heap t) := .of_same hb.inv hkeep hsame
  have hcount : (tldCleanup c σ.heap t).largeAllocCount = σ.heap.largeAllocCount := by
    cases hx : σ.heap.tls t with
    | none => rw [tldCleanup_none hx]
    | some x =>
      have hex : (exited σ.heap t x).largeAllocCount = σ.heap.largeAllocCount := by
        unfold exited
        cases x.arena <;> rfl
      rcases tldCleanup_cases (c := c) hx with heq | ⟨b, heq⟩
      · rw [heq]
        exact hex
      · rw [heq]
        exact hex
  refine ⟨Z', hg, hb, h.holds.quiet hq, fun p k hp => h.all p k (hq.only p k hp), ?_⟩
  show LiveCount _ _ (tldCleanup c σ.heap t).largeAllocCount
  rw [hcount]
  exact h.count

/-- The step lemma. -/
theorem Accounts.step (h : Accounts c Z σ G) (hs : ThreadStep c (Accountable c) σ σ') :
    ∃ Z' G', Z.Grows Z' ∧ Accounts c Z' σ' G' := by
  cases hs with
  | call t op ans q hlow hlegal hP he =>
    obtain ⟨hexec, hl⟩ := Sys.slabCall_ok he
    obtain ⟨s', live'⟩ := σ'
    simp only at hexec hl
    subst hl
    have hw := h.withAnswers ans
    cases op with
    | alloc size => exact hw.slabAlloc hP.1 hP.2 hexec
    | free p =>
      obtain ⟨s₁, hfree, hret⟩ := bind_eq_ok hexec
      cases hret
      exact hw.slabFree hP.1 hlow hlegal hP.2 hfree
  | write m hm => exact ⟨Z, G, .refl Z, h.write hm⟩
  | exit t _ =>
    obtain ⟨Z', hg, h'⟩ := h.exit t
    exact ⟨Z', G, hg, h'⟩

/-- The run lemma. -/
theorem threadReachable_accounts (h : ThreadReachable c (Accountable c) σ) :
    ∃ Z G, Accounts c Z σ G := by
  induction h with
  | refl => exact ⟨_, _, initial_accounts c⟩
  | tail _ hs ih =>
    obtain ⟨Z, G, h⟩ := ih
    obtain ⟨Z', G', -, h'⟩ := h.step hs
    exact ⟨Z', G', h'⟩

/-! ## The law, arena by arena -/

/-- The sum of a counter over the threads in `T`. -/
def statSum (s : State) (T : Finset Nat) (f : Tld → Nat) : Int :=
  ∑ t ∈ T, ((s.tls t).elim 0 f : Nat)

/-- The books of arena `a`: `T` are the threads attached to it and `R` its pages in use. -/
structure ArenaBooks (σ : Sys) (a : Nat) (T : Finset Nat) (R : Finset PageRef) : Prop where
  threads : ∀ t, t ∈ T ↔ ∃ x, σ.heap.tls t = some x ∧ x.arena = some a
  pages : ∀ r, r ∈ R ↔ Active σ.heap r ∧ (σ.heap.pages r).arena = a
  bytes : (σ.heap.arenas a).allocated + statSum σ.heap T Tld.statAllocated -
      (σ.heap.arenas a).freed - statSum σ.heap T Tld.statFreed ≡
    ∑ r ∈ R, (((σ.heap.pages r).used * (σ.heap.pages r).slotSize : Nat) : Int) [ZMOD 2 ^ 64]
  blocks : (σ.heap.arenas a).allocCount + statSum σ.heap T Tld.statAllocCount -
      (σ.heap.arenas a).freeCount - statSum σ.heap T Tld.statFreeCount ≡
    ∑ r ∈ R, ((liveIn σ r).length : Int) [ZMOD 2 ^ 64]

/-- An arena has finitely many pages in use. -/
theorem Inv.exists_pages (h : Inv c s G) (a : Nat) :
    ∃ R : Finset PageRef, ∀ r, r ∈ R ↔ Active s r ∧ (s.pages r).arena = a := by
  classical
  obtain ⟨l, hl, hmem, -⟩ := h.segLists a
  refine ⟨((l.toFinset ×ˢ Finset.range 64).image fun x => (⟨x.1, x.2⟩ : PageRef)).filter
    fun r => Active s r ∧ (s.pages r).arena = a, fun r => ?_⟩
  rw [Finset.mem_filter]
  refine ⟨fun hr => hr.2, fun hr => ⟨?_, hr⟩⟩
  obtain ⟨⟨hd, hact⟩, ha⟩ := hr
  obtain ⟨-, g, hg, hga⟩ := h.active hd hact
  refine Finset.mem_image.mpr ⟨(r.seg, r.idx), Finset.mem_product.mpr ⟨?_, ?_⟩, rfl⟩
  · exact List.mem_toFinset.mpr ((hmem r.seg).mpr ⟨g, hg, hga.symm.trans ha⟩)
  · exact Finset.mem_range.mpr hd.2.2

/-- Only the pages in use of an arena weigh anything in it. -/
theorem Inv.sum_weight (h : Inv c s G) {a : Nat} {R₀ R : Finset PageRef} (u : Measure)
    (h₀ : ∀ r, G.busy r ≠ [] → r ∈ R₀) (hR : ∀ r, r ∈ R ↔ Active s r ∧ (s.pages r).arena = a) :
    ∑ r ∈ R₀, weight s G u a r =
      ∑ r ∈ R, (((G.busy r).length * u.of (s.pages r).slotSize : Nat) : Int) := by
  classical
  have hsame : ∀ r ∈ R, weight s G u a r =
      (((G.busy r).length * u.of (s.pages r).slotSize : Nat) : Int) := by
    intro r hr
    unfold weight
    rw [if_pos ((hR r).mp hr).2]
  rw [← Finset.sum_congr rfl hsame]
  have hout : ∀ r, r ∉ R₀ → weight s G u a r = 0 := fun r hr =>
    weight_nil (Classical.not_not.mp (mt (h₀ r) hr))
  have hout' : ∀ r, r ∉ R → weight s G u a r = 0 := by
    intro r hr
    by_cases hnil : G.busy r = []
    · exact weight_nil hnil
    · obtain ⟨p, hp⟩ := List.exists_mem_of_ne_nil _ hnil
      obtain ⟨hd, hinv⟩ := h.busy_active hp
      unfold weight
      exact if_neg fun ha => hr ((hR r).mpr ⟨⟨hd, hinv.geom.active⟩, ha⟩)
  rw [Finset.sum_subset (@Finset.subset_union_left _ _ R₀ R) fun r _ hr => hout r hr,
    Finset.sum_subset (@Finset.subset_union_right _ _ R₀ R) fun r _ hr => hout' r hr]

/-- What the threads of an arena hold back. -/
theorem sum_pending {a : Nat} {T₀ T : Finset Nat} (u : Measure) (h₀ : ∀ t, s.tls t ≠ none → t ∈ T₀)
    (hT : ∀ t, t ∈ T ↔ ∃ x, s.tls t = some x ∧ x.arena = some a) :
    ∑ t ∈ T₀, pendingOf (s.tls t) u a =
      statSum s T (fun x => x.taken u) - statSum s T fun x => x.given u := by
  classical
  have hsub : T ⊆ T₀ := by
    intro t ht
    obtain ⟨x, hx, -⟩ := (hT t).mp ht
    exact h₀ t (by rw [hx]; simp)
  have hout : ∀ t ∈ T₀, t ∉ T → pendingOf (s.tls t) u a = 0 := by
    intro t _ ht
    cases hx : s.tls t with
    | none => rfl
    | some x =>
      unfold pendingOf Tld.pending
      exact if_neg fun ha => ht ((hT t).mpr ⟨x, hx, ha⟩)
  rw [← Finset.sum_subset hsub hout]
  unfold statSum
  rw [← Finset.sum_sub_distrib]
  refine Finset.sum_congr rfl fun t ht => ?_
  obtain ⟨x, hx, ha⟩ := (hT t).mp ht
  rw [hx]
  unfold pendingOf Tld.pending
  simp only [if_pos ha, Option.elim_some]

theorem Counted.net {f : Nat → Arena} (h : Counted Z f) (u : Measure) (a : Nat) :
    ((f a).taken u : Int) - (f a).given u ≡ Z.net u a [ZMOD 2 ^ 64] := by
  obtain ⟨h₁, h₂⟩ := h u a
  rw [h₁, h₂]
  unfold Tally.net
  refine Int.ModEq.sub ?_ ?_
  · exact Int.natCast_modEq_iff.mpr (Nat.mod_modEq _ _)
  · exact Int.natCast_modEq_iff.mpr (Nat.mod_modEq _ _)

/-- Balanced books, in one measure. -/
theorem Accounts.law (h : Accounts c Z σ G) (a : Nat) (u : Measure) {T : Finset Nat}
    {R : Finset PageRef} (hT : ∀ t, t ∈ T ↔ ∃ x, σ.heap.tls t = some x ∧ x.arena = some a)
    (hR : ∀ r, r ∈ R ↔ Active σ.heap r ∧ (σ.heap.pages r).arena = a) :
    ((σ.heap.arenas a).taken u : Int) + statSum σ.heap T (fun x => x.taken u) -
      (σ.heap.arenas a).given u - statSum σ.heap T (fun x => x.given u) ≡
    ∑ r ∈ R, (((G.busy r).length * u.of (σ.heap.pages r).slotSize : Nat) : Int) [ZMOD 2 ^ 64] := by
  obtain ⟨hc, T₀, R₀, hT₀, hR₀, hlaw⟩ := h.books.bal
  have hl := hlaw u a
  rw [sum_pending u hT₀ hT, h.books.inv.sum_weight u hR₀ hR] at hl
  rw [← hl]
  have hnet := (hc.net u a).add_right
    (statSum σ.heap T (fun x => x.taken u) - statSum σ.heap T fun x => x.given u)
  convert hnet using 1
  omega

theorem Accounts.arenaBooks (h : Accounts c Z σ G) (a : Nat) : ∃ T R, ArenaBooks σ a T R := by
  classical
  obtain ⟨R, hR⟩ := h.books.inv.exists_pages a
  obtain ⟨-, T₀, -, hT₀, -⟩ := h.books.bal
  have hT : ∀ t, t ∈ T₀.filter (fun t => ∃ x, σ.heap.tls t = some x ∧ x.arena = some a) ↔
      ∃ x, σ.heap.tls t = some x ∧ x.arena = some a := by
    intro t
    rw [Finset.mem_filter]
    refine ⟨fun ht => ht.2, fun ht => ⟨?_, ht⟩⟩
    obtain ⟨x, hx, -⟩ := ht
    exact hT₀ t (by rw [hx]; simp)
  refine ⟨_, R, hT, hR, ?_, ?_⟩
  · have hl := h.law a .bytes hT hR
    rw [Finset.sum_congr rfl fun r hr => ?_] at hl
    · exact hl
    · obtain ⟨⟨hd, hact⟩, -⟩ := (hR r).mp hr
      obtain ⟨k, loc, rem, hs⟩ := (h.books.inv.active hd hact).1.slots
      rw [← hs.used_eq]
      rfl
  · have hl := h.law a .blocks hT hR
    rw [Finset.sum_congr rfl fun r hr => ?_] at hl
    · exact hl
    · obtain ⟨⟨hd, hact⟩, -⟩ := (hR r).mp hr
      rw [(h.slabHolds.liveIn_perm hd (h.books.inv.active hd hact).1).length_eq]
      simp [Measure.of]

/-! ## The lag of `blocks_in_use` -/

/-- No arena's counter of blocks wrapped in the step. -/
def CountsGrow (s s' : State) : Prop :=
  ∀ a, (s.arenas a).allocCount ≤ (s'.arenas a).allocCount ∧
    (s.arenas a).freeCount ≤ (s'.arenas a).freeCount

/-- The states of the runs in which no counter of blocks wraps. -/
def UnwrappedRun (c : Cfg) (σ : Sys) : Prop :=
  Relation.ReflTransGen (fun σ σ' => ThreadStep c (Accountable c) σ σ' ∧ CountsGrow σ.heap σ'.heap)
    (Sys.initial c) σ

/-- `blocks` of `zone_statistics` before it is truncated. -/
def bookedBlocks (s : State) : Nat :=
  ∑ a ∈ Finset.range numArenas, clampSub (s.arenas a).allocCount (s.arenas a).freeCount +
    s.largeAllocCount

/-- Without wraps the counters are the tally. -/
theorem unwrappedRun_accounts (h : UnwrappedRun c σ) :
    ∃ Z G, Accounts c Z σ G ∧ ∀ a, Z.taken .blocks a = (σ.heap.arenas a).allocCount ∧
      Z.given .blocks a = (σ.heap.arenas a).freeCount := by
  induction h with
  | refl => exact ⟨_, _, initial_accounts c, fun a => ⟨rfl, rfl⟩⟩
  | tail _ hs ih =>
    obtain ⟨Z, G, h, heq⟩ := ih
    obtain ⟨Z', G', hg, h'⟩ := h.step hs.1
    refine ⟨Z', G', h', fun a => ?_⟩
    obtain ⟨heq₁, heq₂⟩ := heq a
    obtain ⟨⟨g₁, g₂⟩, g₃, g₄⟩ := hg .blocks a
    obtain ⟨m₁, m₂⟩ := hs.2 a
    obtain ⟨c₁, c₂⟩ := h.books.bal.counted .blocks a
    obtain ⟨c₁', c₂'⟩ := h'.books.bal.counted .blocks a
    simp only [Arena.taken, Arena.given] at c₁ c₂ c₁' c₂'
    omega

theorem statBlocks_eq (s : State) (h : bookedBlocks s < 2 ^ 32) (peak : Nat) :
    (zoneStatistics s peak).1.blocksInUse = bookedBlocks s := by
  unfold bookedBlocks at h ⊢
  unfold zoneStatistics statBlocks
  simp only [numArenas, Finset.sum_range_succ, Finset.sum_range_zero, List.range_succ,
    List.range_zero,
    List.nil_append, List.cons_append, List.foldl_cons, List.foldl_nil] at h ⊢
  omega

/-- A thread holds back at most 63 blocks, and all from one arena. -/
theorem StatsOk.pending_sum {x : Tld} (h : StatsOk x) (hops : x.statOps < statFlushInterval) :
    ∑ a ∈ Finset.range numArenas, |x.pending .blocks a| ≤ 63 := by
  have hops' := h.ops
  unfold statFlushInterval at hops
  have hbound : |(x.taken .blocks : Int) - x.given .blocks| ≤ 63 := by
    unfold Tld.taken Tld.given
    simp only
    rw [abs_le]
    omega
  cases ha : x.arena with
  | none =>
    have hzero : ∀ a, x.pending .blocks a = 0 := h.pending_idle (h.idle ha) .blocks
    simp [hzero]
  | some b =>
    have hsingle : ∀ a, |x.pending .blocks a| =
        if a = b then |(x.taken .blocks : Int) - x.given .blocks| else 0 := by
      intro a
      unfold Tld.pending
      simp only [ha, Option.some.injEq]
      by_cases hab : b = a
      · rw [if_pos hab, if_pos hab.symm]
      · rw [if_neg hab, if_neg (Ne.symm hab), abs_zero]
    simp only [hsingle, Finset.sum_ite_eq']
    split
    next => exact hbound
    next => omega

/-- Clamping at zero does not make the error worse. -/
theorem clampSub_off {x y : Nat} {w p : Int} (hw : 0 ≤ w) (h : (x : Int) - y + p = w) :
    |(clampSub x y : Int) - w| ≤ |p| := by
  have h₁ := le_abs_self p
  have h₂ := neg_abs_le p
  unfold clampSub
  rw [abs_le]
  split
  next => omega
  next => omega

theorem Accounts.lag (h : Accounts c Z σ G)
    (hZ : ∀ a, Z.taken .blocks a = (σ.heap.arenas a).allocCount ∧
      Z.given .blocks a = (σ.heap.arenas a).freeCount) :
    ∃ T : Finset Nat, (∀ t, t ∈ T ↔ (σ.heap.tls t).isSome) ∧
      |(bookedBlocks σ.heap : Int) - σ.live.length| ≤ 63 * T.card := by
  classical
  obtain ⟨-, T₀, R₀, hT₀, hR₀, hlaw⟩ := h.books.bal
  obtain ⟨R₁, hR₁, hcount⟩ := h.count
  have hT : ∀ t, t ∈ T₀.filter (fun t => (σ.heap.tls t).isSome) ↔ (σ.heap.tls t).isSome := by
    intro t
    rw [Finset.mem_filter]
    refine ⟨fun ht => ht.2, fun ht => ⟨hT₀ t fun hn => ?_, ht⟩⟩
    rw [hn] at ht
    cases ht
  refine ⟨_, hT, ?_⟩
  generalize hTd : T₀.filter (fun t => (σ.heap.tls t).isSome) = T at hT ⊢
  -- what is out of each arena, and how far the arena's counters are off
  have hsum : ∀ a, ∑ t ∈ T₀, pendingOf (σ.heap.tls t) .blocks a =
      ∑ t ∈ T, pendingOf (σ.heap.tls t) .blocks a := by
    intro a
    rw [← hTd]
    symm
    refine Finset.sum_filter_of_ne fun t _ hne => ?_
    cases hx : σ.heap.tls t with
    | none =>
      rw [hx] at hne
      exact absurd rfl hne
    | some x => rfl
  have hoff : ∀ a, |(clampSub (σ.heap.arenas a).allocCount (σ.heap.arenas a).freeCount : Int) -
      ∑ r ∈ R₀, weight σ.heap G .blocks a r| ≤ ∑ t ∈ T, |pendingOf (σ.heap.tls t) .blocks a| := by
    intro a
    obtain ⟨z₁, z₂⟩ := hZ a
    have hl := hlaw .blocks a
    unfold Tally.net at hl
    rw [z₁, z₂, hsum a] at hl
    have hpos : 0 ≤ ∑ r ∈ R₀, weight σ.heap G .blocks a r := by
      refine Finset.sum_nonneg fun r _ => ?_
      unfold weight
      split
      next => exact Int.natCast_nonneg _
      next => exact Int.le_refl _
    exact Int.le_trans (clampSub_off hpos hl) (Finset.abs_sum_le_sum_abs _ _)
  -- over all arenas
  have hpend : ∑ a ∈ Finset.range numArenas, ∑ t ∈ T, |pendingOf (σ.heap.tls t) .blocks a| ≤
      63 * T.card := by
    rw [Finset.sum_comm]
    refine Int.le_trans (Finset.sum_le_card_nsmul T _ 63 fun t ht => ?_) ?_
    · obtain ⟨x, hx⟩ := Option.isSome_iff_exists.mp ((hT t).mp ht)
      rw [hx]
      obtain ⟨hok, hops⟩ := h.books.stats t x hx
      exact hok.pending_sum hops
    · rw [nsmul_eq_mul]
      omega
  have hlive : ∑ a ∈ Finset.range numArenas, ∑ r ∈ R₀, weight σ.heap G .blocks a r =
      ∑ r ∈ R₁, ((G.busy r).length : Int) := by
    rw [Finset.sum_comm]
    have hone : ∀ r, ∑ a ∈ Finset.range numArenas, weight σ.heap G .blocks a r =
        ((G.busy r).length : Int) := by
      intro r
      by_cases hnil : G.busy r = []
      · simp only [weight_nil hnil, Finset.sum_const_zero, hnil]
        rfl
      · obtain ⟨p, hp⟩ := List.exists_mem_of_ne_nil _ hnil
        obtain ⟨hd, hinv⟩ := h.books.inv.busy_active hp
        have hlt := h.books.homes.page_lt r ⟨hd, hinv.geom.active⟩
        unfold weight
        rw [Finset.sum_ite_eq, if_pos (Finset.mem_range.mpr hlt)]
        simp [Measure.of]
    simp only [hone]
    have hout : ∀ {R : Finset PageRef}, (∀ r, G.busy r ≠ [] → r ∈ R) → ∀ r, r ∉ R →
        ((G.busy r).length : Int) = 0 := by
      intro R hR r hr
      rw [Classical.not_not.mp (mt (hR r) hr)]
      rfl
    rw [Finset.sum_subset (@Finset.subset_union_left _ _ R₀ R₁) fun r _ hr => hout hR₀ r hr,
      Finset.sum_subset (@Finset.subset_union_right _ _ R₀ R₁) fun r _ hr => hout hR₁ r hr]
  have htotal := Finset.abs_sum_le_sum_abs (fun a =>
    (clampSub (σ.heap.arenas a).allocCount (σ.heap.arenas a).freeCount : Int) -
      ∑ r ∈ R₀, weight σ.heap G .blocks a r) (Finset.range numArenas)
  rw [Finset.sum_sub_distrib, hlive] at htotal
  have hbooked : (bookedBlocks σ.heap : Int) - σ.live.length =
      ∑ a ∈ Finset.range numArenas,
        (clampSub (σ.heap.arenas a).allocCount (σ.heap.arenas a).freeCount : Int) -
        ∑ r ∈ R₁, ((G.busy r).length : Int) := by
    unfold bookedBlocks
    push_cast
    omega
  rw [hbooked]
  exact Int.le_trans htotal (Int.le_trans (Finset.sum_le_sum fun a _ => hoff a) hpend)

/-- In every accountable run the books of every arena are balanced, every thread's counters
are in step, and without wraps `blocks_in_use` lags behind by at most 63 for every thread. -/
theorem statistics_conserved (c : Cfg) (σ : Sys) (h : ThreadReachable c (Accountable c) σ) :
    (∀ a, ∃ T R, ArenaBooks σ a T R) ∧
    (∀ t x, σ.heap.tls t = some x → x.statOps < 64 ∧
      x.statOps = x.statAllocCount + x.statFreeCount) ∧
    (UnwrappedRun c σ → bookedBlocks σ.heap < 2 ^ 32 → ∃ T : Finset Nat,
      (∀ t, t ∈ T ↔ (σ.heap.tls t).isSome) ∧ ∀ peak,
        |((zoneStatistics σ.heap peak).1.blocksInUse : Int) - σ.live.length| ≤ 63 * T.card) := by
  obtain ⟨Z, G, ha⟩ := threadReachable_accounts h
  refine ⟨ha.arenaBooks, fun t x hx => ?_, fun hu hlt => ?_⟩
  · obtain ⟨hok, hops⟩ := ha.books.stats t x hx
    exact ⟨hops, hok.ops⟩
  · obtain ⟨Z', G', hb, hZ⟩ := unwrappedRun_accounts hu
    obtain ⟨T, hT, hlag⟩ := hb.lag hZ
    refine ⟨T, hT, fun peak => ?_⟩
    rw [statBlocks_eq σ.heap hlt peak]
    exact hlag

/-- Two blocks: the first was booked by the arena, the second is still with the thread. -/
def twoBlocks : Sys :=
  let c := Cfg.page4k false
  ((Sys.initial c).slabAfter c 0 (.alloc 16) [some 0x10000000, some 0x20000000]).slabAfter c 0
    (.alloc 16) []

theorem statistics_conserved_two_blocks :
    twoBlocks.ptrs = [0x20010010, 0x20010000] ∧ (twoBlocks.heap.arenas 0).allocCount = 1 ∧
      (twoBlocks.heap.tls 0).map Tld.statAllocCount = some 1 ∧
      ∃ T R, ArenaBooks twoBlocks 0 T R := by
  have h : ThreadReachable (.page4k false) (Accountable (.page4k false)) twoBlocks :=
    (ThreadReachable.after .refl 0 (.alloc 16) [some 0x10000000, some 0x20000000] trivial
      (show 16 < 2 ^ 64 by decide)
        ⟨fun _ => by decide +kernel, largeFits_small (by decide)⟩).after 0
      (.alloc 16) [] trivial (show 16 < 2 ^ 64 by decide)
      ⟨fun _ => by decide +kernel, largeFits_small (by decide)⟩
  exact ⟨by decide +kernel, by decide +kernel, by decide +kernel,
    (statistics_conserved (.page4k false) twoBlocks h).1 0⟩

/-- Giving up a pointer takes it out of its page's live slots. -/
theorem liveIn_drop {p : Nat} (hnd : σ.ptrs.Nodup) (r : PageRef) :
    liveIn ⟨s, dropPtr p σ.live⟩ r = (liveIn σ r).erase p := by
  have hptrs : (⟨s, dropPtr p σ.live⟩ : Sys).ptrs = σ.ptrs.erase p := by
    rw [hnd.erase_eq_filter]
    unfold Sys.ptrs dropPtr
    rw [List.filter_map]
    rfl
  unfold liveIn
  rw [hptrs, hnd.erase_eq_filter, (hnd.filter _).erase_eq_filter, List.filter_filter,
    List.filter_filter]
  congr 1
  funext x
  exact Bool.and_comm ..

/-- After `slab_alloc(32000)` often enough, some live block cannot be found; when it is
freed, its arena still books it. -/
theorem freed_block_stays_booked :
    ∃ σ a, ThreadReachable (.page4k false) (fun _ _ _ => True) σ ∧ ¬ ∃ T R, ArenaBooks σ a T R := by
  obtain ⟨σ, G₀, ⟨hσ, -⟩, hh, p, hp, hlt, r, hr, hreg⟩ := exists_lost false
    (R := fun σ => ThreadReachable (.page4k false) (Accountable (.page4k false)) σ ∧ HasId σ.heap 0)
    ⟨.refl, fun _ => by decide +kernel⟩ fun σ ans p s' hσ he hp => by
      refine ⟨hσ.1.tail (.call 0 (.alloc 32000) ans p trivial (show 32000 < 2 ^ 64 by decide)
        ⟨hσ.2, largeFits_small (by decide)⟩ ?_), fun hn => ?_⟩
      · simp only [Sys.slabCall, slabExec, he, slabLive, addPtr, bind, Except.bind, if_neg hp, pure,
          Except.pure]
      · obtain ⟨⟨⟨q, z⟩, s₁⟩, hin, hret⟩ := bind_eq_ok he
        obtain ⟨-, rfl⟩ := Prod.mk.inj (Except.ok.inj hret)
        have hth := ensures_elim (Q := fun x => ThreadsFrom 0 (σ.heap.withAnswers ans) x.2)
          (slabAllocInner_closed (threadsFrom_closed 0) _ (by decide) slabSized_32000) hin
        cases hx : σ.heap.tls 0 with
        | none =>
          rcases hth.new hx with ⟨-, hc⟩ | ⟨y, hy, -⟩
          · exact hc ▸ hσ.2 hx
          · cases hn.symm.trans hy
        | some x =>
          obtain ⟨y, hy, -⟩ := hth.had x hx
          cases hn.symm.trans hy
  obtain ⟨Z, G, ha⟩ := threadReachable_accounts hσ
  -- the free is ignored
  have hw := hh.withAnswers []
  have hseg : ptrToSegment (σ.heap.withAnswers []) p = 0 := by
    rw [(hw.inv.ptrToPage_slab hr).1]
    exact if_neg (Bool.eq_false_iff.mp hreg)
  obtain ⟨hd, hinv₀⟩ := hh.inv.busy_active hr
  obtain ⟨b₁, b₂, -⟩ := hinv₀.busy_in hr
  have hge := hinv₀.geom.slot_ge
  refine ⟨⟨σ.heap.withAnswers [], dropPtr p σ.live⟩, (σ.heap.pages r).arena,
    (hσ.mono fun _ _ _ _ => trivial).tail (.call 0 (.free p) [] 0 (fun _ _ _ _ => hlt) (Or.inr hp)
      trivial ?_), ?_⟩
  · simp only [Sys.slabCall, slabExec, slabFree_ignored hseg, bind, Except.bind, pure, Except.pure,
      slabLive]
  · rintro ⟨T', R', hbooks'⟩
    obtain ⟨T, R, hbooks⟩ := ha.arenaBooks (σ.heap.pages r).arena
    obtain rfl : T' = T := Finset.ext fun t => (hbooks'.threads t).trans (hbooks.threads t).symm
    obtain rfl : R' = R := Finset.ext fun q => (hbooks'.pages q).trans (hbooks.pages q).symm
    have hmod := hbooks.blocks.symm.trans hbooks'.blocks
    -- one client less holds a slot of the page, and the books are the same
    have hpin : p ∈ liveIn σ r := by
      simp only [liveIn, List.mem_filter, Bool.and_eq_true, decide_eq_true_eq]
      exact ⟨hp, b₁, by omega⟩
    have hr' : r ∈ R' := (hbooks.pages r).mpr ⟨⟨hd, hinv₀.geom.active⟩, rfl⟩
    have hchange := sum_change hr' (f := fun q => ((liveIn σ q).length : Int))
      (g := fun q => ((liveIn ⟨σ.heap.withAnswers [], dropPtr p σ.live⟩ q).length : Int))
      fun q hq hqr => ?_
    · simp only [liveIn_drop hh.nodup, List.length_erase_of_mem hpin] at hchange hmod
      have hpos := List.length_pos_of_mem hpin
      have hone : ∑ q ∈ R', ((liveIn σ q).length : Int) =
          ∑ q ∈ R', (((liveIn σ q).erase p).length : Int) + 1 := by omega
      rw [hone] at hmod
      have := hmod.dvd
      omega
    · have hno : p ∉ liveIn σ q := fun hpq => by
        simp only [liveIn, List.mem_filter, Bool.and_eq_true, decide_eq_true_eq] at hpq
        exact hqr (hh.inv.page_unique ((hbooks.pages q).mp hq).1.1 hd hpq.2.1 hpq.2.2 b₁ (by omega))
      simp only [liveIn_drop hh.nodup, List.erase_of_not_mem hno]

end CustomMalloc

import CustomMalloc.Run

/-!
# What is in the blocks

`my_calloc` returns zeros although it skips the `memset` for fresh slots, and
`my_realloc` keeps the contents of its block and of every other block, also when
it fails. Both hold in every run whose calls keep the heap intact: no size
wraps, and `my_memalign` never returns the end of its own mapping. With
`my_memalign(131072, 0)` it does, `my_free` of that pointer unmaps whatever large
block comes next, and both properties break.
-/

namespace CustomMalloc

open Lib.Words Lib.Bytes Lib.Chain Lib.Intervals Lib.Regions Lib.Post

variable {c : Cfg} {σ σ' : Sys} {s s' : State} {G G' : Ghost}

/-! ## `my_calloc` -/

/-- An overflowing product is refused without a change; otherwise every requested
byte is zero. -/
theorem calloc_zeros (c : Cfg) (σ : Sys) (h : Reachable c (SafeCall c) σ) (t count size : Nat)
    (ans : List (Option Nat)) :
    (2 ^ 64 ≤ count * size →
      σ.call c t (.calloc count size) ans = .ok (0, ⟨σ.heap.withAnswers ans, σ.live⟩)) ∧
    (count * size < 2 ^ 64 → LargeFits c (count * size) 16 → ∀ q σ',
      σ.call c t (.calloc count size) ans = .ok (q, σ') → q ≠ 0 →
        ∀ i, i < count * size → σ'.heap.mem (q + i) = 0) := by
  refine ⟨fun hover => ?_, fun hlt hfit q σ' he hq i hi => ?_⟩
  · unfold Sys.call
    simp only [exec]
    rw [myCalloc_overflow hover]
    rfl
  · obtain ⟨G, hh⟩ := reachable_holds (fun _ _ hp => hp) h
    have hp := ensures_elim (myCalloc_spec (hh.withAnswers ans).inv hlt hfit) (Sys.call_ok he).1
    obtain ⟨k, G', -, -, hz⟩ := hp.got hq
    have := le_atLeastOne (count * size)
    exact hz (q + i) (by omega) (by omega)

/-- 16 bytes were requested and one was written. -/
def afterWrite : Sys :=
  let c := Cfg.page4k false
  ((Sys.initial c).after c 0 (.malloc 16) [some 0x10000000, some 0x20000000]).poke 0x20010000 7

theorem afterWrite_reachable :
    Reachable (.page4k false) (SafeCall (.page4k false)) afterWrite := by
  have h₁ : Reachable (.page4k false) (SafeCall (.page4k false))
      ((Sys.initial (.page4k false)).after (.page4k false) 0 (.malloc 16)
        [some 0x10000000, some 0x20000000]) :=
    Reachable.after .refl _ _ _ trivial (by decide) ⟨show LargeFits _ 16 16 by decide, trivial⟩
  have hlive : ((Sys.initial (.page4k false)).after (.page4k false) 0 (.malloc 16)
      [some 0x10000000, some 0x20000000]).live = [(0x20010000, 16)] := by decide +kernel
  exact h₁.poke 0x20010000 7
    ⟨by decide +kernel, (0x20010000, 16), by rw [hlive]; simp, by decide, Or.inl (by decide)⟩

/-- The slot is freed and handed out again. -/
theorem calloc_zeros_reused_slot :
    ∃ σ', (afterWrite.after (.page4k false) 0 (.free 0x20010000) []).call (.page4k false) 0
        (.calloc 1 16) [] = .ok (0x20010000, σ') ∧
      ∀ i, i < 16 → σ'.heap.mem (0x20010000 + i) = 0 := by
  have h := afterWrite_reachable.after 0 (.free 0x20010000) [] (fun _ _ _ _ => by decide)
    (by decide +kernel) ⟨trivial, trivial⟩
  obtain ⟨⟨q, σ'⟩, he, hq⟩ := exists_of_passes ((afterWrite.after (.page4k false) 0
    (.free 0x20010000) []).call (.page4k false) 0 (.calloc 1 16) []) (fun r => r.1 == 0x20010000)
    (by decide +kernel)
  simp only [beq_iff_eq] at hq
  subst hq
  exact ⟨σ', he, (calloc_zeros _ _ h 0 1 16 []).2 (by decide) (by decide) _ _ he (by decide)⟩

/-- A run that ends badly: an aligned request of size zero, a large block behind it,
and the first pointer freed. -/
def afterBadFree : Sys :=
  let c := Cfg.page4k false
  (((Sys.initial c).after c 0 (.memalign 131072 0) [some 0x103E0000]).after c 0 (.malloc 200000)
    [some 0x10400000]).after c 0 (.free 0x10400000) []

/-- Every call of this run computes its sizes without a wrap. -/
theorem afterBadFree_reachable :
    Reachable (.page4k false) (fun _ op => op.NoWrap (.page4k false)) afterBadFree := by
  have h₁ : Reachable (.page4k false) (fun _ op => op.NoWrap (.page4k false))
      ((Sys.initial (.page4k false)).after (.page4k false) 0 (.memalign 131072 0)
        [some 0x103E0000]) :=
    Reachable.after .refl _ _ _ trivial (by decide) fun _ _ => by decide
  have h₂ := h₁.after 0 (.malloc 200000) [some 0x10400000] trivial (by decide)
    (show LargeFits _ 200000 16 by decide)
  exact h₂.after 0 (.free 0x10400000) [] (fun _ _ _ _ => by decide) (by decide +kernel) trivial

/-- The large block's mapping is gone, a segment takes its place, and what the client
writes into its block turns up in a fresh slot. -/
theorem calloc_dirty : ∃ σ, Reachable (.page4k false) (fun _ op => op.NoWrap (.page4k false)) σ ∧
    ∃ q σ', σ.call (.page4k false) 0 (.calloc 1 16) [] = .ok (q, σ') ∧ q ≠ 0 ∧
      σ'.heap.mem q = 7 := by
  have h₁ := afterBadFree_reachable.after 0 (.malloc 16) [some 0x20000000, some 0x10400000]
    trivial (by decide) (show LargeFits _ 16 16 by decide)
  have hlive : (afterBadFree.after (.page4k false) 0 (.malloc 16)
      [some 0x20000000, some 0x10400000]).live = [(0x10410000, 16), (0x10400030, 200000)] := by
    decide +kernel
  have h₂ := h₁.poke 0x10410010 7
    ⟨by decide +kernel, (0x10400030, 200000), by rw [hlive]; simp, by decide, Or.inl (by decide)⟩
  obtain ⟨⟨q, σ'⟩, he, hq⟩ := exists_of_passes ((Sys.poke (afterBadFree.after (.page4k false) 0
      (.malloc 16) [some 0x20000000, some 0x10400000]) 0x10410010 7).call (.page4k false) 0
      (.calloc 1 16) []) (fun r => r.1 != 0 && r.2.heap.mem r.1 == 7) (by decide +kernel)
  simp only [Bool.and_eq_true, bne_iff_ne, beq_iff_eq] at hq
  exact ⟨_, h₂, q, σ', he, hq⟩

/-! ## `my_realloc` -/

/-- The block at `p` has the usable size and the bytes it had. -/
structure Unchanged (s s' : State) (p : Nat) : Prop where
  usable : myMallocUsableSize s' p = myMallocUsableSize s p
  bytes : ∀ k, Block s p k → Block s' p k ∧ ∀ y, p ≤ y → y < p + k → s'.mem y = s.mem y

/-- Blocks that a step keeps are unchanged. -/
theorem Keeps.unchanged {Q : Nat → Prop} (hk : Keeps s G s' G' Q) (he : SegExt s s')
    (h : Inv c s G) (h' : Inv c s' G') {p n : Nat} (hb : Blk s G p n) (hp : Q p) :
    Unchanged s s' p := by
  obtain ⟨hb', hm⟩ := hk p n hb hp
  refine ⟨he.usableSize h h' hb hb', fun k hblock => ?_⟩
  rw [h.block_eq hb hblock]
  exact ⟨hb'.block h', hm⟩

/-- The result of `my_realloc(p, n)` in the clients' terms. `given` is what the
allocator counts as handed out. -/
structure Reallocated (c : Cfg) (σ : Sys) (p n q : Nat) (σ' : Sys) : Prop where
  failed : q = 0 → p ∈ σ'.ptrs ∧ Unchanged σ.heap σ'.heap p
  room : q ≠ 0 → ∃ k, Block σ'.heap q k ∧ n ≤ k ∧
    (Findable σ'.heap q → myMallocUsableSize σ'.heap q = .ok k)
  copied : q ≠ 0 → ∃ old, myMallocUsableSize σ.heap p = .ok old ∧
    ∀ i, i < old → i < n → σ'.heap.mem (q + i) = σ.heap.mem (p + i)
  live : q ≠ 0 → (p ∈ σ'.ptrs ↔ q = p)
  given : q ≠ 0 → ∃ G', Holds c σ' G' ∧ ((∃ k, Blk σ'.heap G' p k) ↔ q = p)
  others : ∀ x ∈ σ.ptrs, x ≠ p → x ∈ σ'.ptrs ∧ Unchanged σ.heap σ'.heap x

theorem mem_ptrs_drop {p n q x : Nat} {live : List (Nat × Nat)} :
    x ∈ ((q, n) :: dropPtr p live).map Prod.fst ↔ x = q ∨ (x ∈ live.map Prod.fst ∧ x ≠ p) := by
  rw [List.map_cons, List.mem_cons, List.mem_map, List.mem_map]
  refine or_congr Iff.rfl ⟨?_, ?_⟩
  · rintro ⟨y, hy, rfl⟩
    exact ⟨⟨y, (mem_dropPtr.mp hy).1, rfl⟩, (mem_dropPtr.mp hy).2⟩
  · rintro ⟨⟨y, hy, rfl⟩, hne⟩
    exact ⟨y, mem_dropPtr.mpr ⟨hy, hne⟩, rfl⟩

theorem realloc_keeps_contents (c : Cfg) (σ : Sys) (h : Reachable c (SafeCall c) σ) (t p n : Nat)
    (ans : List (Option Nat)) (hp : p ∈ σ.ptrs) (hfind : Findable σ.heap p) (hlow : LowPtr σ.heap p)
    (hn : 0 < n) (hfit : LargeFits c n 16) (q : Nat) (σ' : Sys)
    (he : σ.call c t (.realloc p n) ans = .ok (q, σ')) : Reallocated c σ p n q σ' := by
  obtain ⟨G, hh⟩ := reachable_holds (fun _ _ hs => hs) h
  obtain ⟨-, old, -, -, hb⟩ := hh.exists_blk hp
  have hpos := (hh.inv.blk_align hb).2
  have hq₀ := hh.inv.withAnswers ans
  obtain ⟨hexec, hl⟩ := Sys.call_ok he
  simp only [liveAfter, if_neg (Nat.ne_of_gt hpos), if_neg (Nat.ne_of_gt hn)] at hl
  have hr := ensures_elim
    (myRealloc_spec hq₀.inv (hq₀.keeps p old hb trivial).1 (hlow.low hh.inv) hfit hn) hexec
  have hseg : SegExt σ.heap σ'.heap := hr.segExt.after rfl rfl rfl
  have hold := hh.inv.usableSize hb (hfind.not_lost hh.inv)
  -- the other pointers, once it is known which blocks the call keeps
  have hothers : ∀ {G' : Ghost} {Q : Nat → Prop}, Inv c σ'.heap G' →
      Keeps (σ.heap.withAnswers ans) G σ'.heap G' Q → ∀ x ∈ σ.ptrs, Q x →
      Unchanged σ.heap σ'.heap x := by
    intro G' Q hi hk x hx hQ
    obtain ⟨-, k, -, -, hbx⟩ := hh.exists_blk hx
    exact ((hq₀.keeps.mono fun _ _ => trivial).trans hk).unchanged hseg hh.inv hi hbx hQ
  by_cases h0 : q = 0
  · rw [if_pos h0] at hl
    have hquiet := hr.null h0
    have hptrs : σ'.ptrs = σ.ptrs := congrArg (List.map Prod.fst) hl
    have hall : ∀ x ∈ σ.ptrs, x ∈ σ'.ptrs ∧ Unchanged σ.heap σ'.heap x := fun x hx =>
      ⟨hptrs ▸ hx, hothers hquiet.inv hquiet.keeps x hx trivial⟩
    exact ⟨fun _ => hall p hp, fun hne => absurd h0 hne, fun hne => absurd h0 hne,
      fun hne => absurd h0 hne, fun hne => absurd h0 hne, fun x hx _ => hall x hx⟩
  rw [if_neg h0] at hl
  have hmem : ∀ x, x ∈ σ'.ptrs ↔ x = q ∨ (x ∈ σ.ptrs ∧ x ≠ p) := fun x => by
    rw [Sys.ptrs, hl]
    exact mem_ptrs_drop
  by_cases hqp : q = p
  · obtain ⟨k, hk, hin⟩ := hr.same hqp
    subst hqp
    have hh' : Holds c σ' G := by
      have := (hh.withAnswers ans).replace hin.inv hin.keeps hin.block hk (Or.inl rfl)
      rwa [← hl] at this
    refine ⟨fun hc => absurd hc h0, fun _ => ⟨k, hin.block.block hin.inv, hk, fun hf =>
      hin.inv.usableSize hin.block (hf.not_lost hin.inv)⟩, fun _ => ⟨old, hold, fun i _ _ => ?_⟩,
      fun _ => ⟨fun _ => rfl, fun _ => (hmem q).mpr (Or.inl rfl)⟩,
      fun _ => ⟨G, hh', fun _ => rfl, fun _ => ⟨k, hin.block⟩⟩,
      fun x hx hne => ⟨(hmem x).mpr (Or.inr ⟨hx, hne⟩), hothers hin.inv hin.keeps x hx hne⟩⟩
    rw [hin.mem]
    rfl
  · obtain ⟨k, G', hk, hm⟩ := hr.moved h0 hqp
    have hh' : Holds c σ' G' := by
      have := (hh.withAnswers ans).replace hm.inv hm.keeps hm.block hk (Or.inr hm.fresh)
      rwa [← hl] at this
    refine ⟨fun hc => absurd hc h0, fun _ => ⟨k, hm.block.block hm.inv, hk, fun hf =>
      hm.inv.usableSize hm.block (hf.not_lost hm.inv)⟩, fun _ => ⟨old, hold, hm.copied⟩,
      fun _ => ⟨fun hc => ?_, fun hc => absurd hc hqp⟩,
      fun _ => ⟨G', hh', fun hex => hex.elim fun j hj => absurd hj (hm.gone j),
        fun hc => absurd hc hqp⟩,
      fun x hx hne => ⟨(hmem x).mpr (Or.inr ⟨hx, hne⟩), hothers hm.inv hm.keeps x hx hne⟩⟩
    rcases (hmem p).mp hc with hc | ⟨-, hc⟩
    · exact hc.symm
    · exact absurd rfl hc

/-- A move to a larger slot. -/
theorem realloc_keeps_contents_grow :
    ∃ q σ', afterWrite.call (.page4k false) 0 (.realloc 0x20010000 100) [] = .ok (q, σ') ∧
      q = 0x20020000 ∧ Reallocated (.page4k false) afterWrite 0x20010000 100 q σ' := by
  obtain ⟨⟨q, σ'⟩, he, hq⟩ := exists_of_passes (afterWrite.call (.page4k false) 0
    (.realloc 0x20010000 100) []) (fun r => r.1 == 0x20020000) (by decide +kernel)
  refine ⟨q, σ', he, by simpa using hq, ?_⟩
  exact realloc_keeps_contents _ _ afterWrite_reachable 0 0x20010000 100 [] (by decide +kernel)
    (Or.inr (by decide +kernel)) (fun _ _ _ _ => by decide) (by decide) (by decide) q σ' he

/-- After the bad free a segment takes the place of the large block, and the client writes into
its block where the next page of the segment starts. -/
def afterNeighbour : Sys :=
  let c := Cfg.page4k false
  (afterBadFree.after c 0 (.malloc 16) [some 0x20000000, some 0x10400000]).poke 0x10420000 9

theorem afterNeighbour_reachable :
    Reachable (.page4k false) (fun _ op => op.NoWrap (.page4k false)) afterNeighbour := by
  have h := afterBadFree_reachable.after 0 (.malloc 16) [some 0x20000000, some 0x10400000] trivial
    (by decide) (show LargeFits _ 16 16 by decide)
  exact h.poke 0x10420000 9
    ⟨by decide +kernel, (0x10400030, 200000), by decide +kernel, by decide, Or.inl (by decide)⟩

/-- Growing the slot moves it to that page, over the byte the client wrote. -/
theorem realloc_clobbers_neighbour :
    ∃ σ, Reachable (.page4k false) (fun _ op => op.NoWrap (.page4k false)) σ ∧
      ∃ p n q σ', p ∈ σ.ptrs ∧ Findable σ.heap p ∧ LowPtr σ.heap p ∧ 0 < n ∧
        LargeFits (.page4k false) n 16 ∧
        σ.call (.page4k false) 0 (.realloc p n) [] = .ok (q, σ') ∧ q ≠ 0 ∧
        ∃ x ∈ σ.live, x.1 ≠ p ∧ ∃ i, i < x.2 ∧ σ'.heap.mem (x.1 + i) ≠ σ.heap.mem (x.1 + i) := by
  obtain ⟨⟨q, σ'⟩, he, hq⟩ := exists_of_passes (afterNeighbour.call (.page4k false) 0
    (.realloc 0x10410000 100) [])
    (fun r => r.1 == 0x10420000 && r.2.heap.mem 0x10420000 == 0) (by decide +kernel)
  simp only [Bool.and_eq_true, beq_iff_eq] at hq
  have hbyte : afterNeighbour.heap.mem 0x10420000 = 9 := by decide +kernel
  refine ⟨afterNeighbour, afterNeighbour_reachable, 0x10410000, 100, q, σ', by decide +kernel,
    Or.inr (by decide +kernel), fun _ _ _ _ => by decide, by decide, by decide, he,
    by rw [hq.1]; decide, (0x10400030, 200000), by decide +kernel, by decide, 0x1FFD0,
    by decide, ?_⟩
  show σ'.heap.mem 0x10420000 ≠ afterNeighbour.heap.mem 0x10420000
  rw [hq.2, hbyte]
  decide

end CustomMalloc

import CustomMalloc.RetireRun

/-!
# Retired pages and page caches

A thread's cache entry is guarded by the page's state alone. After the page was retired
and set up again, perhaps for another bin, the entry still names it, and the state is
`PAGE_ACTIVE` again. The slot that `slab_alloc` then takes is a free one, so no two
clients ever share a slot. But it has the size of the page's new bin, which may be
smaller than the request.
-/

namespace CustomMalloc

open Lib.Words Lib.Bytes Lib.Chain Lib.Intervals Lib.Post

variable {c : Cfg} {v : Bool} {σ σ' : Sys} {s s' : State} {G G' : Ghost}

/-- No size wraps, and no cache entry that is used names a page of another bin. -/
def RetireOp.FreshCache (c : Cfg) (σ : Sys) : RetireOp → Prop
  | .call t (.alloc size) =>
    LargeFits c size 16 ∧ ¬ Stale σ.heap t (sizeToBin sizeTables (atLeastOne size))
  | .call _ (.free _) => True
  | .arenaAlloc _ bin => binToSize sizeTables bin ≤ 32768

theorem RetireOp.FreshCache.sound {op : RetireOp} (h : op.FreshCache c σ) : op.Sound true c σ := by
  cases op with
  | call t op =>
    cases op with
    | alloc size => exact ⟨h.1, fun hv => absurd hv (by simp)⟩
    | free p => trivial
  | arenaAlloc a bin => exact ⟨h, fun hv => absurd hv (by simp)⟩

/-- `p` is a slot of the active page `r`. -/
structure SlotOf (s : State) (r : PageRef) (p : Nat) : Prop where
  data : IsData s.segs r
  active : (s.pages r).state = .active
  slot : ∃ i, i < (s.pages r).capacity ∧ p = slotAt r (s.pages r) i

theorem Settled.slotOf (h : Settled v c s G) {r : PageRef} {p : Nat} (hp : p ∈ G.busy r) :
    SlotOf s r p := by
  obtain ⟨m, hinv, -⟩ := h.bare
  obtain ⟨hd, hpage⟩ := hinv.busy_active hp
  exact ⟨hd, hpage.geom.active, hpage.busy_slot hp⟩

/-- The block of `k` bytes at `p` meets no block the clients held before. -/
def ApartFromLive (σ : Sys) (s' : State) (p k : Nat) : Prop :=
  ∀ x ∈ σ.live, ∀ n, Block s' x.1 n → p + k ≤ x.1 ∨ x.1 + n ≤ p

/-- A block that was handed out is apart from those that were held. -/
theorem Handed.apart {p k : Nat} (h : RetireHolds v c σ G) (hh : Handed v c σ.heap G p k s' G') :
    Block s' p k ∧ ApartFromLive σ s' p k := by
  obtain ⟨m, hsh⟩ := hh.settled.shadow
  have hsame := hsh.alike.same
  have hnew := (hsame.blk p k).mpr hh.new
  refine ⟨(hnew.block hsh.inv).same hsame.symm, fun x hx n hn => ?_⟩
  obtain ⟨j, hb⟩ := h.blk x hx
  have hb' := hh.keeps x.1 j hb
  obtain rfl := hh.settled.block_eq hb' hn
  have hne : p ≠ x.1 := by
    intro he
    rw [← he] at hb
    exact hh.fresh n hb
  rcases hsh.inv.blk_apart hnew ((hsame.blk x.1 n).mpr hb') with ⟨he, -⟩ | ⟨-, hapart⟩
  · exact absurd he hne
  · exact hapart

/-- What `slab_alloc(size)` owes its caller: room for `size` bytes that nobody else holds, and
for a size that slab pages serve, a slot of an active page of its bin. -/
structure OwnSlot (σ : Sys) (size p : Nat) (s' : State) : Prop where
  room : ∃ k, size ≤ k ∧ Block s' p k ∧ ApartFromLive σ s' p k
  page : SlabSized size → ∃ r, SlotOf s' r p ∧ (s'.pages r).binIdx = sizeToBin sizeTables size

theorem ServedPost.ownSlot {t size p : Nat} {zeroed : Bool} (h : RetireHolds v c σ G)
    (hpost : ServedPost v c σ.heap G t size p zeroed s') (hpos : 0 < size) (hp : p ≠ 0)
    (hcache : ¬ Stale σ.heap t (sizeToBin sizeTables size)) : OwnSlot σ size p s' := by
  by_cases hs : SlabSized size
  · obtain ⟨r, hslot⟩ := hpost.slab hs hp
    have hbusy : p ∈ (G.take r p).busy r := by simp [Ghost.take]
    have hbin := hslot.binIdx hcache
    obtain ⟨hblock, hapart⟩ := hslot.handed.apart h
    refine ⟨⟨_, ?_, hblock, hapart⟩, fun _ => ⟨r, hslot.handed.settled.slotOf hbusy, hbin⟩⟩
    obtain ⟨m, hinv, -⟩ := hslot.handed.settled.bare
    obtain ⟨-, hpage⟩ := hinv.busy_active hbusy
    calc size ≤ slotSizeOf (sizeToBin sizeTables size) := slotSizeOf_ge hpos hs.1
      _ = slotSizeOf (s'.pages r).binIdx := by rw [hbin]
      _ = (s'.pages r).slotSize := hpage.geom.slot_eq.symm
  · obtain ⟨G', hh⟩ := (hpost.large hs).2 hp
    obtain ⟨hblock, hapart⟩ := hh.apart h
    exact ⟨⟨size, Nat.le_refl _, hblock, hapart⟩, fun hyes => absurd hyes hs⟩

/-- Retirement is safe as long as no `slab_alloc` finds a page of another bin in its cache. -/
theorem slab_alloc_own_slot (c : Cfg) (σ σ' : Sys) (t size p : Nat) (ans : List (Option Nat))
    (h : RetireReachable c (fun σ op => op.FreshCache c σ) σ)
    (hcall : (RetireOp.call t (.alloc size)).FreshCache c σ)
    (he : σ.slabCall c t (.alloc size) ans = .ok (p, σ')) (hp : p ≠ 0) :
    OwnSlot σ (atLeastOne size) p σ'.heap := by
  obtain ⟨G, hh⟩ := retireReachable_holds (v := true) (fun σ op hop => hop.sound) h
  have hw := hh.rested (hh.settled.withAnswers ans)
  obtain ⟨hexec, -⟩ := Sys.slabCall_ok he
  obtain ⟨zeroed, hinner⟩ := slabAlloc_inner hexec
  have hpost := hw.settled.slabAllocInner hcall.1 (fun hv => absurd hv (by simp)) hinner
  have hown := hpost.ownSlot hw (atLeastOne_pos size) hp hcall.2
  exact ⟨hown.room, hown.page⟩

/-! ## A stale cache -/

/-- Without the debug checks and away from a flush, a cached page with bump space is bumped. The
page's bin is not looked at. -/
theorem slabAlloc_bump {t size : Nat} {x : Tld} {r : PageRef} (hdebug : c.debug = false)
    (hpos : 0 < size) (hs : SlabSized size) (hx : s.tls t = some x)
    (hr : x.binPage (sizeToBin sizeTables size) = some r) (hact : (s.pages r).state = .active)
    (hloc : (s.pages r).localFree = 0) (hlt : (s.pages r).bumpOffset < (s.pages r).bumpEnd)
    (hops : (x.statOps + 1) % 2 ^ 32 < statFlushInterval) :
    ∃ s', slabAlloc c s t size = .ok (pageStart (s.pages r) + (s.pages r).bumpOffset, s') ∧
      (∃ bm, s'.pages = upd s.pages r { bumpSlot (s.pages r) with debugBitmap := bm }) ∧
      s'.segs = s.segs := by
  have htld : tldGet c s t = (some x, s) := by
    unfold tldGet
    rw [hx]
  have htake : ∃ s', takeSlot c s t x r (bumpSlot (s.pages r))
      (pageStart (s.pages r) + (s.pages r).bumpOffset) = .ok s' := by
    unfold takeSlot tldStatAlloc tldStatStore markAllocated
    rw [if_neg (by rw [hdebug]; decide)]
    exact ⟨_, if_neg (Nat.not_le.mpr hops)⟩
  obtain ⟨s', he⟩ := htake
  obtain ⟨bm, hpages, hsegs⟩ := takeSlot_pages he
  refine ⟨s', ?_, ⟨bm, hpages⟩, hsegs⟩
  unfold slabAlloc slabAllocInner cachedAlloc
  simp only [if_neg (show ¬ size = 0 by omega), if_neg (Nat.not_lt.mpr hs.1),
    if_neg (show ¬ pageSizeAlloc / 2 < binToSize sizeTables (sizeToBin sizeTables size) from
      Nat.not_lt.mpr hs.2), htld, hr, if_pos hact, hloc, ne_eq, not_true_eq_false, if_false,
    if_pos hlt, he]
  rfl

/-- The same call in a run. -/
theorem Sys.slabCall_bump {t size : Nat} {x : Tld} {r : PageRef} (ans : List (Option Nat))
    (hdebug : c.debug = false) (hpos : 0 < size) (hs : SlabSized size) (hx : σ.heap.tls t = some x)
    (hr : x.binPage (sizeToBin sizeTables size) = some r) (hact : (σ.heap.pages r).state = .active)
    (hloc : (σ.heap.pages r).localFree = 0)
    (hlt : (σ.heap.pages r).bumpOffset < (σ.heap.pages r).bumpEnd)
    (hops : (x.statOps + 1) % 2 ^ 32 < statFlushInterval) :
    ∃ σ', σ.slabCall c t (.alloc size) ans =
        .ok (pageStart (σ.heap.pages r) + (σ.heap.pages r).bumpOffset, σ') ∧
      SameShape (σ.heap.pages r) (σ'.heap.pages r) ∧ σ'.heap.segs = σ.heap.segs := by
  obtain ⟨s', he, ⟨bm, hpages⟩, hsegs⟩ :=
    slabAlloc_bump (s := σ.heap.withAnswers ans) hdebug hpos hs
    hx hr hact hloc hlt hops
  refine ⟨⟨s', addPtr (pageStart (σ.heap.pages r) + (σ.heap.pages r).bumpOffset) size σ.live⟩,
    ?_, ?_,
    hsegs⟩
  · unfold Sys.slabCall
    simp only [slabExec]
    rw [he]
    rfl
  · show SameShape (σ.heap.pages r) (s'.pages r)
    rw [hpages, upd_same]
    exact ⟨rfl, rfl, rfl, rfl, rfl, rfl, rfl, rfl, rfl, rfl⟩

/-- One slot for 1000 bytes, in the first page of the first segment. -/
def thousandHeld : Sys :=
  (Sys.initial (.page4k false)).slabAfter (.page4k false) 0 (.alloc 1000)
    [some 0x10000000, some 0x20000000]

/-- It is given back, and its page is retired. -/
def thousandRetired : Sys :=
  (thousandHeld.slabAfter (.page4k false) 0 (.free 0x20010000) []).retire ⟨0x20000000, 1⟩

theorem thousandRetired_reachable {P : Sys → RetireOp → Prop}
    (h₁ : P (Sys.initial (.page4k false)) (.call 0 (.alloc 1000)))
    (h₂ : P thousandHeld (.call 0 (.free 0x20010000))) :
    RetireReachable (.page4k false) P thousandRetired := by
  have hone : RetireReachable (.page4k false) P thousandHeld :=
    RetireReachable.after .refl 0 (.alloc 1000) _ trivial (by decide) h₁
  have hfree := hone.after 0 (.free 0x20010000) [] (fun _ _ _ _ => by decide) (by decide +kernel) h₂
  exact hfree.retire ⟨0x20000000, 1⟩ ⟨by decide +kernel, by decide, by decide⟩

/-- The cache entry of the retired page does no harm as long as the page is unused. -/
theorem thousandRetired_not_stale :
    ¬ Stale thousandRetired.heap 0 (sizeToBin sizeTables (atLeastOne 1000)) := by
  rintro ⟨x, r, hx, hr, hact, -⟩
  have hcached : ((thousandRetired.heap.tls 0).bind
      (·.binPage (sizeToBin sizeTables (atLeastOne 1000)))) = some ⟨0x20000000, 1⟩ := by
    decide +kernel
  rw [hx, Option.bind_some, hr] at hcached
  cases hcached
  have hunused : (thousandRetired.heap.pages ⟨0x20000000, 1⟩).state = .unused := by decide +kernel
  cases hunused.symm.trans hact

/-- The next request for 1000 bytes gets the page back. -/
theorem slab_alloc_own_slot_retired :
    OwnSlot thousandRetired (atLeastOne 1000) 0x20010000
      (thousandRetired.slabAfter (.page4k false) 0 (.alloc 1000) []).heap := by
  refine slab_alloc_own_slot (.page4k false) thousandRetired _ 0 1000 0x20010000 []
    (thousandRetired_reachable ⟨largeFits_small (by decide), ?_⟩ trivial)
    ⟨largeFits_small (by decide), thousandRetired_not_stale⟩
    (Sys.slabCall_of_result (by decide +kernel)) (by decide)
  rintro ⟨x, r, hx, -⟩
  exact absurd hx (by simp [Sys.initial, State.initial])

/-- The page is set up for the bin of 16 bytes instead. -/
def sixteenHeld : Sys := thousandRetired.slabAfter (.page4k false) 0 (.alloc 16) []

/-- The request for 1000 bytes then gets a slot of 16. -/
theorem stale_cache_slot_too_small :
    ∃ σ σ' r p, RetireReachable (.page4k false) (fun _ _ => True) σ ∧
      σ.slabCall (.page4k false) 0 (.alloc 1000) [] = .ok (p, σ') ∧ p ≠ 0 ∧
      SlotOf σ'.heap r p ∧ (σ'.heap.pages r).slotSize = 16 ∧
      (σ'.heap.pages r).binIdx ≠ sizeToBin sizeTables 1000 := by
  have hretired : RetireReachable (.page4k false) (fun _ _ => True) thousandRetired :=
    thousandRetired_reachable trivial trivial
  have hreach : RetireReachable (.page4k false) (fun _ _ => True) sixteenHeld :=
    hretired.after 0 (.alloc 16) [] trivial (by decide) trivial
  have htls : (sixteenHeld.heap.tls 0).map (fun x =>
      (x.binPage (sizeToBin sizeTables 1000), (x.statOps + 1) % 2 ^ 32)) =
      some (some ⟨0x20000000, 1⟩, 2) := by
    decide +kernel
  obtain ⟨x, hx, hcached⟩ := Option.map_eq_some_iff.mp htls
  obtain ⟨hr, hops⟩ := Prod.mk.inj hcached
  have hact : (sixteenHeld.heap.pages ⟨0x20000000, 1⟩).state = .active := by decide +kernel
  have hloc : (sixteenHeld.heap.pages ⟨0x20000000, 1⟩).localFree = 0 := by decide +kernel
  have hbump : (sixteenHeld.heap.pages ⟨0x20000000, 1⟩).bumpOffset = 16 := by decide +kernel
  have hend : (sixteenHeld.heap.pages ⟨0x20000000, 1⟩).bumpEnd = 65536 := by decide +kernel
  have hsize : (sixteenHeld.heap.pages ⟨0x20000000, 1⟩).slotSize = 16 := by decide +kernel
  have hcap : (sixteenHeld.heap.pages ⟨0x20000000, 1⟩).capacity = 4096 := by decide +kernel
  have hbin : (sixteenHeld.heap.pages ⟨0x20000000, 1⟩).binIdx = 1 := by decide +kernel
  have hstart : pageStart (sixteenHeld.heap.pages ⟨0x20000000, 1⟩) = 0x20010000 := by decide +kernel
  have hlt : (sixteenHeld.heap.pages ⟨0x20000000, 1⟩).bumpOffset <
      (sixteenHeld.heap.pages ⟨0x20000000, 1⟩).bumpEnd := by
    rw [hbump, hend]
    decide
  obtain ⟨σ', he, hshape, hsegs⟩ := Sys.slabCall_bump (c := .page4k false) (σ := sixteenHeld) []
    rfl (by decide) ⟨by decide, by decide +kernel⟩ hx hr hact hloc hlt (by rw [hops]; decide)
  refine ⟨sixteenHeld, σ', ⟨0x20000000, 1⟩, _, hreach, he, ?_,
    ⟨⟨?_, by decide, by decide⟩, ?_, 1, ?_, ?_⟩,
    ?_, ?_⟩
  · rw [hstart]
    omega
  · rw [hsegs]
    decide +kernel
  · rw [hshape.state, hact]
  · rw [hshape.capacity, hcap]
    decide
  · unfold slotAt
    rw [hshape.slotSize, hstart, hbump, hsize]
    decide
  · rw [hshape.slotSize, hsize]
  · rw [hshape.binIdx, hbin]
    decide +kernel

end CustomMalloc

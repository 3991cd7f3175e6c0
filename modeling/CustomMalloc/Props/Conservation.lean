import CustomMalloc.SlabRun
import CustomMalloc.Outgrow
import CustomMalloc.Inv.Debug

/-!
# Slots are conserved

Between any two calls of the slab allocator every slot of a page is in one of four
places: with a client, on the local list, on the remote stack, or not yet carved
out of the page. The counters count them, and in a debug build
`debug_heap_check` agrees. It takes that `slab_free` finds the slots it is given:
a slot of a segment the registry has no room for vanishes when it is freed.
-/

namespace CustomMalloc

open Lib.Words Lib.Bytes Lib.Chain Lib.Intervals Lib.Post

variable {c : Cfg} {σ : Sys} {G : Ghost} {m : Mem} {r : PageRef} {p : PageMeta}

/-- The slots of page `r` that clients hold. -/
def liveIn (σ : Sys) (r : PageRef) : List Nat :=
  σ.ptrs.filter fun x => decide (r.start ≤ x) && decide (x < r.start + 65536)

/-- The slots at offsets in `[bump_offset, bump_end)`. -/
def virginSlots (r : PageRef) (p : PageMeta) : List Nat :=
  (slotList r p p.capacity).filter fun x =>
    decide (p.bumpOffset ≤ x - r.start) && decide (x - r.start < p.bumpEnd)

/-- The slots of page `r` are the live ones, `loc`, `rem` and the virgin ones, each
once, and the counters say how many there are. -/
structure Partitioned (σ : Sys) (r : PageRef) (loc rem : List Nat) : Prop where
  local_chain : Linked (link σ.heap.mem) (ptr (σ.heap.pages r).localFree) loc
  remote_chain : Linked (link σ.heap.mem) (ptr (taggedPtr (σ.heap.pages r).remoteFree)) rem
  distinct : (liveIn σ r ++ loc ++ rem ++ virginSlots r (σ.heap.pages r)).Nodup
  parts : (liveIn σ r ++ loc ++ rem ++ virginSlots r (σ.heap.pages r)).Perm
    (slotList r (σ.heap.pages r) (σ.heap.pages r).capacity)
  live_count : (liveIn σ r).length = (σ.heap.pages r).used
  local_count : loc.length = (σ.heap.pages r).localFreeCount
  remote_count : rem.length = (σ.heap.pages r).remoteFreeCount
  total : (σ.heap.pages r).used + (σ.heap.pages r).localFreeCount +
    (σ.heap.pages r).remoteFreeCount + bumpRemaining (σ.heap.pages r) = (σ.heap.pages r).capacity

/-- The slots from the `k`-th on are the virgin ones. -/
theorem Slots.virginSlots {k : Nat} {loc rem busy : List Nat} (g : Geom r p)
    (h : Slots m r p k loc rem busy) :
    slotList r p p.capacity = slotList r p k ++ CustomMalloc.virginSlots r p := by
  have hge := g.slot_ge
  have hle := h.carved_le
  have hsplit : slotList r p p.capacity =
      slotList r p k ++ (List.range' k (p.capacity - k)).map (slotAt r p) := by
    unfold slotList
    rw [← List.map_append, List.range_eq_range', List.range_eq_range']
    have := List.range'_append_1 (s := 0) (m := k) (n := p.capacity - k)
    rw [Nat.zero_add, Nat.add_sub_cancel' hle] at this
    rw [this]
  unfold CustomMalloc.virginSlots
  rw [hsplit, List.filter_append]
  congr 1
  have hfirst : (slotList r p k).filter (fun x =>
      decide (p.bumpOffset ≤ x - r.start) && decide (x - r.start < p.bumpEnd)) = [] := by
    refine List.filter_eq_nil_iff.mpr fun x hx => ?_
    obtain ⟨h₁, h₂, -⟩ := h.slot_bounds g hx
    simp only [Bool.and_eq_true, decide_eq_true_eq, not_and]
    omega
  have hrest : ((List.range' k (p.capacity - k)).map (slotAt r p)).filter (fun x =>
      decide (p.bumpOffset ≤ x - r.start) && decide (x - r.start < p.bumpEnd)) =
        (List.range' k (p.capacity - k)).map (slotAt r p) := by
    refine List.filter_eq_self.mpr fun x hx => ?_
    obtain ⟨i, hi, rfl⟩ := List.mem_map.mp hx
    obtain ⟨hlo, hhi⟩ := List.mem_range'_1.mp hi
    have hsub : slotAt r p i - r.start = i * p.slotSize := by
      unfold slotAt
      omega
    rw [hsub, h.bump_eq, g.end_eq, Bool.and_eq_true, decide_eq_true_eq, decide_eq_true_eq]
    exact ⟨Nat.mul_le_mul_right _ hlo, Nat.mul_lt_mul_of_pos_right (by omega) (by omega)⟩
  rw [hfirst, hrest, List.nil_append]

/-- The live slots of a page are the busy ones. -/
theorem SlabHolds.liveIn_perm (h : SlabHolds c σ G) (hd : IsData σ.heap.segs r)
    (hinv : PageInv c.debug σ.heap.mem r (σ.heap.pages r) (G.busy r)) :
    (liveIn σ r).Perm (G.busy r) := by
  refine (List.perm_ext_iff_of_nodup (h.nodup.filter _) hinv.busy_nodup).mpr fun x => ?_
  simp only [List.mem_filter, Bool.and_eq_true, decide_eq_true_eq]
  constructor
  · rintro ⟨hx, h₁, h₂⟩
    exact h.toHolds.busy hx hd h₁ h₂
  · intro hx
    obtain ⟨h₁, h₂, -⟩ := hinv.busy_in hx
    have hge := hinv.geom.slot_ge
    exact ⟨h.exact r x hx, h₁, by omega⟩

theorem SlabHolds.partitioned (h : SlabHolds c σ G) (hd : IsData σ.heap.segs r)
    (hact : (σ.heap.pages r).state = .active) : ∃ loc rem, Partitioned σ r loc rem := by
  obtain ⟨hinv, -⟩ := h.inv.active hd hact
  obtain ⟨k, loc, rem, hs⟩ := hinv.slots
  obtain ⟨hlen, -⟩ := hs.length_le hinv.geom
  have hlive := h.liveIn_perm hd hinv
  have hvirgin := hs.virginSlots hinv.geom
  have hperm : (liveIn σ r ++ loc ++ rem ++ virginSlots r (σ.heap.pages r)).Perm
      (slotList r (σ.heap.pages r) (σ.heap.pages r).capacity) := by
    rw [hvirgin, List.append_assoc (liveIn σ r)]
    refine List.Perm.append_right _ (List.Perm.trans ?_ hs.parts)
    exact List.perm_append_comm.trans (List.Perm.append_left _ hlive)
  have hle := hs.carved_le
  refine ⟨loc, rem, hs.local_linked, hs.remote_linked, ?_, hperm, ?_, hs.local_count.symm,
    hs.remote_count.symm, ?_⟩
  · exact hperm.nodup_iff.mpr (hinv.geom.slotList_nodup _)
  · rw [hlive.length_eq, hs.used_eq]
  · rw [hs.used_eq, hs.local_count, hs.remote_count, hs.bumpRemaining hinv.geom]
    omega

/-- In every run whose frees find their slots, every active page is partitioned and the
heap checker finds nothing. -/
theorem slots_conserved (c : Cfg) (σ : Sys)
    (h : SlabReachable c (fun _ σ op => op.Safe c σ) σ) :
    (∀ r, IsData σ.heap.segs r → (σ.heap.pages r).state = .active →
      ∃ loc rem, Partitioned σ r loc rem) ∧
    (c.debug = true → debugHeapCheck σ.heap = .ok true) := by
  obtain ⟨G, hh⟩ := slabReachable_holds (fun _ _ _ hs => hs) h
  exact ⟨fun r hd hact => hh.partitioned hd hact, fun hdebug => hh.inv.debugHeapCheck hdebug⟩

/-- Two slots of a page were handed out, and one came back. -/
def oneFreed : Sys :=
  let c := Cfg.page4k true
  (((Sys.initial c).slabAfter c 0 (.alloc 32000) [some 0x10000000, some 0x20000000]).slabAfter c 0
    (.alloc 32000) []).slabAfter c 0 (.free 0x20010000) []

theorem slots_conserved_one_freed :
    ∃ loc rem, Partitioned oneFreed ⟨0x20000000, 1⟩ loc rem ∧
      oneFreed.ptrs = [0x20017ED0] ∧ debugHeapCheck oneFreed.heap = .ok true := by
  have h₁ : SlabReachable (.page4k true) (fun _ σ op => op.Safe (.page4k true) σ) oneFreed :=
    ((SlabReachable.after .refl 0 (.alloc 32000) [some 0x10000000, some 0x20000000] trivial
      (by decide) (largeFits_small (by decide))).after 0 (.alloc 32000) [] trivial
      (show 32000 < 2 ^ 64 by decide) (largeFits_small (by decide))).after 0 (.free 0x20010000) []
      (fun _ _ _ _ => by decide) (by decide +kernel) (Or.inr (Or.inr (by decide +kernel)))
  obtain ⟨hpages, hcheck⟩ := slots_conserved (.page4k true) oneFreed h₁
  obtain ⟨loc, rem, hpart⟩ := hpages ⟨0x20000000, 1⟩
    ⟨by decide +kernel, by decide, by decide⟩ (by decide +kernel)
  exact ⟨loc, rem, hpart, by decide +kernel, hcheck rfl⟩

/-- After `slab_alloc(32000)` often enough, some live block cannot be found; when it is
freed, its slot is in none of the four places. -/
theorem slot_vanishes :
    ∃ σ, SlabReachable (.page4k true) (fun _ σ op => op.Safe (.page4k true) σ) σ ∧
      ∃ p ∈ σ.ptrs, ∃ σ', σ.slabCall (.page4k true) 0 (.free p) [] = .ok (0, σ') ∧
        ∃ r, IsData σ'.heap.segs r ∧ (σ'.heap.pages r).state = .active ∧
          ¬ ∃ loc rem, Partitioned σ' r loc rem := by
  obtain ⟨σ, G, hσ, hh, p, hp, -, hlost⟩ := exists_lost true
    (R := SlabReachable (.page4k true) fun _ σ op => op.Safe (.page4k true) σ) .refl
    fun σ ans p s' hσ he hp => by
      refine hσ.tail (.call 0 (.alloc 32000) ans p trivial (show 32000 < 2 ^ 64 by decide)
        (largeFits_small (by decide)) ?_)
      simp only [Sys.slabCall, slabExec, he, slabLive, addPtr, bind, Except.bind, if_neg hp, pure,
        Except.pure]
  obtain ⟨r, hr, hreg⟩ := hlost
  have hw := hh.withAnswers []
  have hseg : ptrToSegment (σ.heap.withAnswers []) p = 0 := by
    rw [(hw.inv.ptrToPage_slab hr).1]
    exact if_neg (Bool.eq_false_iff.mp hreg)
  obtain ⟨hd, hinv⟩ := hw.inv.busy_active hr
  refine ⟨σ, hσ, p, hp, ⟨σ.heap.withAnswers [], dropPtr p σ.live⟩, ?_, r, hd, hinv.geom.active, ?_⟩
  · simp only [Sys.slabCall, slabExec, slabFree_ignored hseg, bind, Except.bind, pure, Except.pure,
      slabLive]
  · rintro ⟨loc, rem, hpart⟩
    -- one client less holds a slot of the page, and `used` did not change
    have hsub : liveIn ⟨σ.heap.withAnswers [], dropPtr p σ.live⟩ r ⊆ (G.busy r).erase p := by
      intro x hx
      simp only [liveIn, List.mem_filter, Bool.and_eq_true, decide_eq_true_eq] at hx
      obtain ⟨hmem, hne⟩ := mem_ptrs_dropPtr.mp hx.1
      exact (hinv.busy_nodup.mem_erase_iff).mpr ⟨hne, hw.busy hmem hd hx.2.1 hx.2.2⟩
    have hnd : (liveIn ⟨σ.heap.withAnswers [], dropPtr p σ.live⟩ r).Nodup :=
      (dropPtr_nodup hh.nodup).filter _
    have hle := (hnd.subperm hsub).length_le
    obtain ⟨k, loc', rem', hs⟩ := hinv.slots
    have hlen := hpart.live_count.trans hs.used_eq
    rw [List.length_erase_of_mem hr, hlen] at hle
    have hpos := List.length_pos_of_mem hr
    omega

end CustomMalloc

import CustomMalloc.Concurrent.RemoteFree

/-!
# The steps of the owner

The owner's stores to `local_free` move slots: off the list when it pops, onto it when it
frees, and the whole collected chain when it is done walking it. Nobody else writes
`local_free` or the links of the slots on it, so what the owner has read stays true.
-/

namespace CustomMalloc

open Lib.Words Lib.Bytes Lib.Chain Lib.Interleave Lib.Places Lib.Sums

variable {n : Nat} {r : PageRef} {p₀ : PageMeta} {σ σ' : PageSys n} {loc walk : List Nat} {x : Nat}
  {t : Fin n} {spurious : Bool}

namespace Conserved

/-- The owner goes on without moving a slot. -/
theorem ownStill (h : Conserved r p₀ σ loc walk) {pc pc' : OwnerPc} {p' : PageMeta}
    (hpc : σ.owner = pc) (hshape : SameShape σ.page p')
    (hbump : p'.bumpOffset = σ.page.bumpOffset) (hlocal : p'.localFree = σ.page.localFree)
    (hremote : p'.remoteFree = σ.page.remoteFree) (htake : pc'.taking = pc.taking)
    (hfree : pc'.freeing = pc.freeing) (hok : OwnerOk r ⟨σ.mem, p'⟩ loc walk pc')
    (howe : Owing p' pc' (callsOf σ.threads) (uncountedOf σ.threads) σ.live.length
      (pushedSince σ.log).length walk.length loc.length) :
    Conserved r p₀ { σ with page := p', owner := pc' } loc walk := by
  subst hpc
  refine ⟨?_, h.threads, hok, howe⟩
  exact h.lists.still (fun _ _ => rfl) (fun _ _ => rfl) hshape hbump hlocal hremote rfl rfl
    htake hfree
    fun _ => rfl

/-- The owner goes on without writing anything. -/
theorem ownGoto (h : Conserved r p₀ σ loc walk) {pc pc' : OwnerPc} (hpc : σ.owner = pc)
    (htake : pc'.taking = pc.taking) (hfree : pc'.freeing = pc.freeing)
    (hu : pc'.owesUsed = pc.owesUsed) (hs : pc'.settling = pc.settling)
    (hl : pc'.owesLocal = pc.owesLocal) (hp : pc'.popped = pc.popped)
    (hok : OwnerOk r σ.toCell loc walk pc') :
    Conserved r p₀ { σ with owner := pc' } loc walk := by
  refine h.ownStill hpc (.refl _) rfl rfl rfl htake hfree hok ?_
  have ho := h.owing
  rw [hpc] at ho
  exact ⟨ho.used_lt, ho.remote_lt, ho.local_lt, hu ▸ ho.used, hs ▸ ho.remote,
    hl ▸ hp ▸ ho.local_count⟩

/-- `atomic_fetch_add(&page->used, 1)`, the end of an allocation. -/
theorem ownTake (h : Conserved r p₀ σ loc walk) {pc : OwnerPc} (hpc : σ.owner = pc)
    (htake : pc.taking = some x) (hfree : pc.freeing = none) (hu : pc.owesUsed = 0)
    (hs : pc.settling = 0) (hl : pc.owesLocal = 0) (hp : pc.popped = 0) (hwalk : walk = []) :
    Conserved r p₀ { σ with
      page := { σ.page with used := (σ.page.used + 1) % 2 ^ 16 }
      owner := .idle
      live := x :: σ.live } loc walk := by
  subst hpc
  refine ⟨⟨h.lists.shape.trans ⟨rfl, rfl, rfl, rfl, rfl, rfl, rfl, rfl, rfl, rfl⟩, h.lists.carved,
    h.lists.placed.congr ?_,
    List.nodup_cons.mpr ⟨h.lists.taking_new x htake, h.lists.live_nodup⟩, ?_,
    h.lists.local_linked, h.lists.stack_linked, h.lists.chain, h.lists.virgin⟩, h.threads,
    hwalk, ?_⟩
  · intro pl y
    cases pl with
    | live =>
      show (y ∈ x :: σ.live ∨ none = some y) ↔ (y ∈ σ.live ∨ σ.owner.taking = some y)
      simp only [htake, List.mem_cons, reduceCtorEq, or_false, Option.some.injEq]
      rw [or_comm, eq_comm]
    | pushing t' =>
      cases t' with
      | none =>
        show none = some y ↔ σ.owner.freeing = some y
        rw [hfree]
      | some t' => simp only [PageSys.At]
    | onRemote | onWalk | onLocal | virgin => simp only [PageSys.At]
  · intro y hy
    exact absurd hy (by simp [OwnerPc.taking])
  · obtain ⟨h₁, h₂, h₃, h₄, h₅, h₆⟩ := h.owing
    rw [hu] at h₄
    rw [hs] at h₅
    rw [hl, hp] at h₆
    refine ⟨Nat.mod_lt _ (by decide), h₂, h₃, ?_, ?_, ?_⟩ <;>
      simp only [List.length_cons, OwnerPc.owesUsed, OwnerPc.settling, OwnerPc.owesLocal,
        OwnerPc.popped] <;> omega

/-- A pop takes the head off `local_free`. -/
theorem popUnlink (h : Conserved r p₀ σ loc walk) {next : Nat}
    (hpc : σ.owner = .alloc (.pop (.unlink x next))) :
    ∃ loc', Conserved r p₀ { σ with
      page := { σ.page with localFree := next }
      owner := .alloc (.pop (.count x)) } loc' walk := by
  have hok := h.owner
  rw [hpc] at hok
  obtain ⟨hwalk, hhead, hne, hnext⟩ := hok
  have hl := h.lists.local_linked
  rw [← hhead] at hl
  cases loc with
  | nil => exact absurd (ptr_eq_none.mp hl) hne
  | cons y loc' =>
    obtain ⟨rfl, -⟩ := ptr_eq_some.mp hl.1
    have hx : σ.At r p₀ (x :: loc') walk .onLocal x := List.mem_cons_self ..
    have hnd := hl.nodup
    have hrest : Linked (link σ.mem) (ptr next) loc' := by
      rw [hnext]
      exact hl.2
    refine ⟨loc', ⟨⟨h.lists.shape.trans ⟨rfl, rfl, rfl, rfl, rfl, rfl, rfl, rfl, rfl, rfl⟩,
      h.lists.carved, ?_, h.lists.live_nodup, ?_, hrest, h.lists.stack_linked, h.lists.chain,
      h.lists.virgin⟩, h.threads, ⟨hwalk, trivial⟩, ?_⟩⟩
    · refine h.lists.placed.move (a := .onLocal) (b := .live) (by simp) hx ?_ ?_ ?_
      · intro z
        simp only [PageSys.At, List.mem_cons]
        refine ⟨fun hz => ⟨Or.inr hz, ?_⟩, fun hz => hz.1.resolve_left hz.2⟩
        intro hzx
        exact (List.nodup_cons.mp hnd).1 (hzx ▸ hz)
      · intro z
        simp only [PageSys.At, hpc, OwnerPc.taking, reduceCtorEq, or_false, Option.some.injEq]
        rw [eq_comm]
      · intro c hca hcb z
        cases c with
        | live => exact absurd rfl hcb
        | onLocal => exact absurd rfl hca
        | pushing t' =>
          cases t' with
          | none => simp only [PageSys.At, hpc, OwnerPc.freeing]
          | some t' => simp only [PageSys.At]
        | onRemote | onWalk | virgin => simp only [PageSys.At]
    · intro z hz hlive
      cases hz
      have hl' : σ.At r p₀ (x :: loc') walk .live x := Or.inl hlive
      exact absurd (h.lists.placed.only hx hl') (by simp)
    · obtain ⟨h₁, h₂, h₃, h₄, h₅, h₆⟩ := h.owing
      rw [hpc] at h₄ h₅ h₆
      simp only [List.length_cons, OwnerPc.owesUsed, OwnerPc.settling, OwnerPc.owesLocal,
        OwnerPc.popped] at h₄ h₅ h₆
      refine ⟨h₁, h₂, h₃, ?_, ?_, ?_⟩ <;>
        simp only [OwnerPc.owesUsed, OwnerPc.settling, OwnerPc.owesLocal, OwnerPc.popped] <;> omega

/-- A bump takes the first virgin slot. -/
theorem bumpStore (g : Geom r p₀) (h : Conserved r p₀ σ loc walk) {offset : Nat}
    (hpc : σ.owner = .alloc (.bump (.store x offset))) :
    Conserved r p₀ { σ with
      page := { σ.page with bumpOffset := (offset + σ.page.slotSize) % 2 ^ 32 }
      owner := .alloc (.bump (.used x)) } loc walk := by
  have hok := h.owner
  rw [hpc] at hok
  obtain ⟨hwalk, rfl, rfl, hlt⟩ := hok
  obtain ⟨k, hk, hbump⟩ := h.lists.carved
  have hsize := h.lists.shape.slotSize
  have hge := g.slot_ge
  have hcap : k < p₀.capacity := by
    rw [h.lists.shape.bumpEnd, hbump, g.end_eq] at hlt
    exact Nat.lt_of_mul_lt_mul_right hlt
  have hin := g.slot_in hcap
  have hslot : r.start + σ.page.bumpOffset = slotAt r p₀ k := by rw [hbump]; rfl
  have hx : σ.At r p₀ loc walk .virgin (r.start + σ.page.bumpOffset) := by
    refine ⟨?_, Nat.le_refl _⟩
    rw [hslot]
    exact mem_slotList.mpr ⟨k, hcap, rfl⟩
  have hnew : (σ.page.bumpOffset + σ.page.slotSize) % 2 ^ 32 = σ.page.bumpOffset + p₀.slotSize := by
    have := g.start_pos
    rw [hsize]
    exact Nat.mod_eq_of_lt (by omega)
  rw [hnew]
  refine ⟨⟨h.lists.shape.trans ⟨rfl, rfl, rfl, rfl, rfl, rfl, rfl, rfl, rfl, rfl⟩,
    ⟨k + 1, hcap, ?_⟩, ?_, h.lists.live_nodup, ?_, h.lists.local_linked, h.lists.stack_linked,
    h.lists.chain, ?_⟩, h.threads, ⟨hwalk, trivial⟩, ?_⟩
  · rw [Nat.succ_mul, ← hbump]
  · refine h.lists.placed.move (a := .virgin) (b := .live) (by simp) hx ?_ ?_ ?_
    · intro y
      simp only [PageSys.At]
      refine ⟨fun hy => ⟨⟨hy.1, by omega⟩, by omega⟩, fun hy => ⟨hy.1.1, ?_⟩⟩
      -- two slots are a slot size apart
      have hxs := h.lists.placed.mem hx
      rcases slotList_apart hxs hy.1.1 (Ne.symm hy.2) with ha | ha
      · omega
      · have := hy.1.2
        omega
    · intro y
      simp only [PageSys.At, hpc, OwnerPc.taking, reduceCtorEq, or_false, Option.some.injEq]
      rw [eq_comm]
    · intro c hca hcb y
      cases c with
      | live => exact absurd rfl hcb
      | virgin => exact absurd rfl hca
      | pushing t' =>
        cases t' with
        | none => simp only [PageSys.At, hpc, OwnerPc.freeing]
        | some t' => simp only [PageSys.At]
      | onRemote | onWalk | onLocal => simp only [PageSys.At]
  · intro y hy hlive
    cases hy
    have hl : σ.At r p₀ loc walk .live (r.start + σ.page.bumpOffset) := Or.inl hlive
    exact absurd (h.lists.placed.only hx hl) (by simp)
  · intro a h₁ h₂
    exact h.lists.virgin a (by dsimp only at h₁; omega) h₂
  · obtain ⟨h₁, h₂, h₃, h₄, h₅, h₆⟩ := h.owing
    rw [hpc] at h₄ h₅ h₆
    exact ⟨h₁, h₂, h₃, h₄, h₅, h₆⟩

/-- The owner is told to free a slot. -/
theorem startFree (h : Conserved r p₀ σ loc walk) (hpc : σ.owner = .idle) (hx : x ∈ σ.live) :
    Conserved r p₀ { σ with owner := .free (.load x), live := σ.live.erase x } loc walk := by
  have hok := h.owner
  rw [hpc] at hok
  refine ⟨⟨h.lists.shape, h.lists.carved, ?_, h.lists.live_nodup.erase x, ?_, h.lists.local_linked,
    h.lists.stack_linked, h.lists.chain, h.lists.virgin⟩, h.threads, ⟨hok, trivial⟩, ?_⟩
  · refine h.lists.placed.move (a := .live) (b := .pushing none) (x := x) (by simp)
      (Or.inl hx) ?_ ?_ ?_
    · intro y
      simp only [PageSys.At, hpc]
      exact live_erase h.lists.live_nodup (fun y hy => h.lists.taking_new y (hpc ▸ hy)) hx y
    · intro y
      simp only [PageSys.At, hpc, OwnerPc.freeing, Option.some.injEq, reduceCtorEq, false_or]
      exact eq_comm
    · intro c hca hcb y
      cases c with
      | live => exact absurd rfl hca
      | pushing t' =>
        cases t' with
        | none => exact absurd rfl hcb
        | some t' => simp only [PageSys.At]
      | onRemote | onWalk | onLocal | virgin => simp only [PageSys.At]
  · intro y hy
    exact absurd hy (by simp [OwnerPc.taking])
  · have hlen := List.length_erase_of_mem hx
    have hpos := List.length_pos_of_mem hx
    obtain ⟨h₁, h₂, h₃, h₄, h₅, h₆⟩ := h.owing
    rw [hpc] at h₄ h₅ h₆
    simp only [OwnerPc.owesUsed, OwnerPc.settling, OwnerPc.owesLocal, OwnerPc.popped] at h₄ h₅ h₆
    refine ⟨h₁, h₂, h₃, ?_, ?_, ?_⟩ <;>
      simp only [OwnerPc.owesUsed, OwnerPc.settling, OwnerPc.owesLocal, OwnerPc.popped] <;> omega

/-- The owner writes into a slot of the walked chain or into the one it frees. -/
theorem ownWrite (g : Geom r p₀) (h : Conserved r p₀ σ loc walk) {pc pc' : OwnerPc} {pl : Place n}
    {v : Nat} (hpc : σ.owner = pc) (hx : σ.At r p₀ loc walk pl x) (hl : pl ≠ .onLocal)
    (hr : pl ≠ .onRemote) (hv : pl ≠ .virgin) (hp : ∀ t, pl ≠ .pushing (some t))
    (htake : pc'.taking = pc.taking) (hfree : pc'.freeing = pc.freeing)
    (hu : pc'.owesUsed = pc.owesUsed) (hs : pc'.settling = pc.settling)
    (hlc : pc'.owesLocal = pc.owesLocal) (hpop : pc'.popped = pc.popped)
    (hok : OwnerOk r ⟨writeWord σ.mem x v, σ.page⟩ loc walk pc') :
    Conserved r p₀ { σ with mem := writeWord σ.mem x v, owner := pc' } loc walk := by
  subst hpc
  have hm := writeWord_touch g σ.mem x v
  have hbelow := h.lists.below hx hv
  have ho := h.owing
  refine ⟨?_, ?_, hok, ⟨ho.used_lt, ho.remote_lt, ho.local_lt, hu ▸ ho.used, hs ▸ ho.remote,
    hlc ▸ hpop ▸ ho.local_count⟩⟩
  · refine h.lists.still (fun y hy => h.lists.word_of_place g hx hl hr hm hy) ?_
      (.refl _) rfl rfl rfl
      rfl rfl htake hfree fun _ => rfl
    intro a ha
    exact hm a (by omega)
  · intro t y old ht
    exact h.casSees g hx hm ht (hp t)

theorem localFree_lt (g : Geom r p₀) (h : Conserved r p₀ σ loc walk) :
    σ.page.localFree < 2 ^ 64 := by
  by_cases h0 : σ.page.localFree = 0
  · omega
  · have hl : σ.At r p₀ loc walk .onLocal σ.page.localFree := head_mem h.lists.local_linked h0
    have := isSlot_bounds g (h.lists.placed.mem hl)
    have := g.start_lt
    have := g.slot_ge
    omega

/-- `page->local_free = ptr`. -/
theorem freeHead (g : Geom r p₀) (h : Conserved r p₀ σ loc walk) (hpc : σ.owner = .free (.head x)) :
    Conserved r p₀ { σ with
      page := { σ.page with localFree := x }
      owner := .free .count } (x :: loc) walk := by
  have hok := h.owner
  rw [hpc] at hok
  obtain ⟨hwalk, hlink⟩ := hok
  have hx : σ.At r p₀ loc walk (.pushing none) x := by
    show σ.owner.freeing = some x
    rw [hpc]
    rfl
  refine ⟨⟨h.lists.shape.trans ⟨rfl, rfl, rfl, rfl, rfl, rfl, rfl, rfl, rfl, rfl⟩,
    h.lists.carved, ?_,
    h.lists.live_nodup, ?_, ⟨?_, ?_⟩, h.lists.stack_linked, h.lists.chain, h.lists.virgin⟩,
    h.threads,
    ⟨hwalk, trivial⟩, ?_⟩
  · refine h.lists.placed.move (a := .pushing none) (b := .onLocal) (by simp) hx ?_ ?_ ?_
    · intro y
      simp only [PageSys.At, hpc, OwnerPc.freeing, reduceCtorEq, Option.some.injEq, false_iff,
        not_and,
        not_not]
      exact fun hxy => hxy.symm
    · intro y
      simp only [PageSys.At, List.mem_cons]
      exact or_comm
    · intro c hca hcb y
      cases c with
      | live => simp only [PageSys.At, hpc, OwnerPc.taking]
      | pushing t' =>
        cases t' with
        | none => exact absurd rfl hca
        | some t' => simp only [PageSys.At]
      | onLocal => exact absurd rfl hcb
      | onRemote | onWalk | virgin => simp only [PageSys.At]
  · intro y hy
    exact absurd hy (by simp [OwnerPc.taking])
  · exact ptr_eq_some.mpr ⟨rfl, isSlot_ne_zero g (h.lists.placed.mem hx)⟩
  · have : link σ.mem x = ptr σ.page.localFree := congrArg ptr hlink
    rw [this]
    exact h.lists.local_linked
  · obtain ⟨h₁, h₂, h₃, h₄, h₅, h₆⟩ := h.owing
    rw [hpc] at h₄ h₅ h₆
    simp only [OwnerPc.owesUsed, OwnerPc.settling, OwnerPc.owesLocal, OwnerPc.popped] at h₄ h₅ h₆
    refine ⟨h₁, h₂, h₃, ?_, ?_, ?_⟩ <;>
      simp only [List.length_cons, OwnerPc.owesUsed, OwnerPc.settling, OwnerPc.owesLocal,
        OwnerPc.popped] <;> omega

/-! ### Collecting -/

end Conserved

/-- A collect is part of an allocation or a call of its own; `back` is where the owner goes on
after it. -/
structure Wraps (wrap : CollectPc → OwnerPc) (back : OwnerPc) : Prop where
  taking : ∀ pc, (wrap pc).taking = none
  freeing : ∀ pc, (wrap pc).freeing = none
  owesUsed : ∀ pc, (wrap pc).owesUsed = 0
  settling : ∀ pc, (wrap pc).settling = pc.settling
  owesLocal : ∀ pc, (wrap pc).owesLocal = pc.owesLocal
  popped : ∀ pc, (wrap pc).popped = 0
  ok : ∀ r s loc walk pc, OwnerOk r s loc walk (wrap pc) ↔ CollectOk s loc walk pc
  back_taking : back.taking = none
  back_freeing : back.freeing = none
  back_owes : back.owesUsed = 0 ∧ back.settling = 0 ∧ back.owesLocal = 0 ∧ back.popped = 0
  back_ok : ∀ r s loc walk, OwnerOk r s loc walk back ↔ walk = []

theorem wraps_alloc : Wraps (fun pc => .alloc (.collect pc)) (.alloc .retest) :=
  ⟨fun _ => rfl, fun _ => rfl, fun _ => rfl, fun _ => rfl, fun _ => rfl, fun _ => rfl,
    fun _ _ _ _ _ => Iff.rfl, rfl, rfl, ⟨rfl, rfl, rfl, rfl⟩, fun _ _ _ _ => Iff.rfl⟩

theorem wraps_collect : Wraps .collect .idle :=
  ⟨fun _ => rfl, fun _ => rfl, fun _ => rfl, fun _ => rfl, fun _ => rfl, fun _ => rfl,
    fun _ _ _ _ _ => Iff.rfl, rfl, rfl, ⟨rfl, rfl, rfl, rfl⟩, fun _ _ _ _ => Iff.rfl⟩

namespace Conserved

section Collect

variable {wrap : CollectPc → OwnerPc} {back : OwnerPc}

theorem collectOk (h : Conserved r p₀ σ loc walk) (hw : Wraps wrap back) {pc : CollectPc}
    (hpc : σ.owner = wrap pc) : CollectOk σ.toCell loc walk pc := by
  have hok := h.owner
  rw [hpc] at hok
  exact (hw.ok ..).mp hok

/-- The counters while the owner collects. -/
theorem collectOwing (h : Conserved r p₀ σ loc walk) (hw : Wraps wrap back) {pc : CollectPc}
    (hpc : σ.owner = wrap pc) :
    σ.page.used = (σ.live.length + callsOf σ.threads) % 2 ^ 16 ∧
    (σ.page.remoteFreeCount + uncountedOf σ.threads) % 2 ^ 16 =
      ((pushedSince σ.log).length + walk.length + pc.settling) % 2 ^ 16 ∧
    (σ.page.localFreeCount + pc.owesLocal) % 2 ^ 16 = loc.length % 2 ^ 16 := by
  have ho := h.owing
  rw [hpc] at ho
  obtain ⟨-, -, -, h₄, h₅, h₆⟩ := ho
  rw [hw.owesUsed] at h₄
  rw [hw.settling] at h₅
  rw [hw.owesLocal, hw.popped] at h₆
  exact ⟨h₄, h₅, h₆⟩

/-- A collect goes on without writing anything. -/
theorem collectGoto (h : Conserved r p₀ σ loc walk) (hw : Wraps wrap back) {pc pc' : CollectPc}
    (hpc : σ.owner = wrap pc) (hs : pc'.settling = pc.settling) (hl : pc'.owesLocal = pc.owesLocal)
    (hok : CollectOk σ.toCell loc walk pc') :
    Conserved r p₀ { σ with owner := wrap pc' } loc walk := by
  refine h.ownGoto hpc ?_ ?_ ?_ ?_ ?_ ?_ ((hw.ok ..).mpr hok)
  · rw [hw.taking, hw.taking]
  · rw [hw.freeing, hw.freeing]
  · rw [hw.owesUsed, hw.owesUsed]
  · rw [hw.settling, hw.settling, hs]
  · rw [hw.owesLocal, hw.owesLocal, hl]
  · rw [hw.popped, hw.popped]

/-- There was nothing to collect. -/
theorem collectNone (h : Conserved r p₀ σ loc walk) (hw : Wraps wrap back)
    (hpc : σ.owner = wrap .load) : Conserved r p₀ { σ with owner := back } loc walk := by
  obtain ⟨hb₁, hb₂, hb₃, hb₄⟩ := hw.back_owes
  refine h.ownGoto hpc ?_ ?_ ?_ ?_ ?_ ?_ ((hw.back_ok ..).mpr (h.collectOk hw hpc))
  · rw [hw.taking, hw.back_taking]
  · rw [hw.freeing, hw.back_freeing]
  · rw [hw.owesUsed, hb₁]
  · rw [hw.settling, hb₂]
    rfl
  · rw [hw.owesLocal, hb₃]
    rfl
  · rw [hw.popped, hb₄]

/-- The compare-and-swap of a collect takes the whole stack. -/
theorem collectCas (h : Conserved r p₀ σ loc walk) (hw : Wraps wrap back)
    (hpc : σ.owner = wrap (.cas σ.page.remoteFree)) :
    ∃ walk', Conserved r p₀ { σ with
      page := { σ.page with remoteFree := taggedMake 0 (taggedTag σ.page.remoteFree + 1) }
      owner := wrap (.walk (taggedPtr σ.page.remoteFree) (taggedPtr σ.page.remoteFree) 0)
      log := .collected :: σ.log } loc walk' := by
  obtain ⟨rfl, hne⟩ := h.collectOk hw hpc
  have hstack := h.lists.stack_linked
  refine ⟨pushedSince σ.log,
    ⟨⟨h.lists.shape.trans ⟨rfl, rfl, rfl, rfl, rfl, rfl, rfl, rfl, rfl, rfl⟩,
    h.lists.carved, ?_, h.lists.live_nodup, ?_, h.lists.local_linked, ?_, Or.inr rfl,
    h.lists.virgin⟩, h.threads, (hw.ok ..).mpr ⟨hstack, ?_⟩, ?_⟩⟩
  · refine h.lists.placed.shift (a := .onRemote) (b := .onWalk) (by simp) ?_ ?_ ?_
    · intro y
      simp only [PageSys.At, pushedSince, List.not_mem_nil, not_false_eq_true]
    · intro y
      simp only [PageSys.At, List.not_mem_nil, or_false]
    · intro c hca hcb y
      cases c with
      | live => simp only [PageSys.At, hpc, hw.taking]
      | pushing t' =>
        cases t' with
        | none => simp only [PageSys.At, hpc, hw.freeing]
        | some t' => simp only [PageSys.At]
      | onRemote => exact absurd rfl hca
      | onWalk => exact absurd rfl hcb
      | onLocal | virgin => simp only [PageSys.At]
  · intro y hy
    rw [hw.taking] at hy
    cases hy
  · show Linked _ (ptr (taggedPtr (taggedMake 0 _))) []
    rw [taggedPtr_make (by decide)]
    exact ptr_eq_none.mpr rfl
  · cases hlog : pushedSince σ.log with
    | nil =>
      rw [hlog] at hstack
      exact absurd (ptr_eq_none.mp hstack) hne
    | cons y l =>
      rw [hlog] at hstack
      obtain ⟨rfl, -⟩ := ptr_eq_some.mp hstack.1
      exact ⟨[], l, rfl, rfl⟩
  · obtain ⟨h₄, h₅, h₆⟩ := h.collectOwing hw hpc
    simp only [CollectPc.settling, CollectPc.owesLocal, List.length_nil] at h₅ h₆
    refine ⟨h.owing.used_lt, h.owing.remote_lt, h.owing.local_lt, ?_, ?_, ?_⟩ <;>
      simp only [hw.owesUsed, hw.settling, hw.owesLocal, hw.popped, CollectPc.settling,
        CollectPc.owesLocal, pushedSince, List.length_nil] <;> omega

/-- One more slot of the chain. -/
theorem collectWalk (h : Conserved r p₀ σ loc walk) (hw : Wraps wrap back)
    {list current count : Nat} (hpc : σ.owner = wrap (.walk list current count)) :
    (readWord σ.mem current = 0 →
      Conserved r p₀ { σ with owner := wrap (.rest list current ((count + 1) % 2 ^ 16)) } loc
        walk) ∧
    (readWord σ.mem current ≠ 0 →
      Conserved r p₀ { σ with
        owner := wrap (.walk list (readWord σ.mem current) ((count + 1) % 2 ^ 16)) } loc walk) := by
  obtain ⟨hlinked, pre, suf, rfl, hcount⟩ := h.collectOk hw hpc
  have hsuf : Linked (link σ.mem) (ptr (readWord σ.mem current)) suf := hlinked.drop
  have hnext : (count + 1) % 2 ^ 16 = (pre ++ [current]).length % 2 ^ 16 := by
    rw [hcount, List.length_append, List.length_singleton]
    omega
  constructor
  · intro h0
    rw [h0] at hsuf
    cases suf with
    | nil =>
      have hok : CollectOk σ.toCell loc (pre ++ [current])
          (.rest list current ((count + 1) % 2 ^ 16)) := ⟨hlinked, ⟨pre, rfl⟩, hnext⟩
      exact h.collectGoto hw hpc rfl rfl hok
    | cons y l => exact absurd hsuf.1 (by simp [ptr])
  · intro h0
    cases suf with
    | nil => exact absurd (ptr_eq_none.mp hsuf) h0
    | cons y l =>
      obtain ⟨rfl, -⟩ := ptr_eq_some.mp hsuf.1
      have hok : CollectOk σ.toCell loc (pre ++ current :: readWord σ.mem current :: l)
          (.walk list (readWord σ.mem current) ((count + 1) % 2 ^ 16)) :=
        ⟨hlinked, pre ++ [current], l, by simp, hnext⟩
      exact h.collectGoto hw hpc (Eq.refl 0) (Eq.refl 0) hok

/-- `*(void **)tail = page->local_free`. -/
theorem collectSplice (g : Geom r p₀) (h : Conserved r p₀ σ loc walk) (hw : Wraps wrap back)
    {list tail count head : Nat} (hpc : σ.owner = wrap (.splice list tail count head)) :
    Conserved r p₀ { σ with
      mem := writeWord σ.mem tail head
      owner := wrap (.head list count) } loc walk := by
  obtain ⟨hlinked, ⟨pre, rfl⟩, rfl, rfl⟩ := h.collectOk hw hpc
  have htail : σ.At r p₀ loc (pre ++ [tail]) .onWalk tail := by
    show tail ∈ pre ++ [tail]
    simp
  have hm := writeWord_touch g σ.mem tail σ.page.localFree
  have hts := h.lists.placed.mem htail
  refine h.ownWrite g hpc htail (by simp) (by simp) (by simp) (by simp) ?_ ?_ ?_ ?_ ?_ ?_
    ((hw.ok ..).mpr ⟨?_, by simp, rfl⟩)
  · rw [hw.taking, hw.taking]
  · rw [hw.freeing, hw.freeing]
  · rw [hw.owesUsed, hw.owesUsed]
  · rw [hw.settling, hw.settling]
    rfl
  · rw [hw.owesLocal, hw.owesLocal]
    rfl
  · rw [hw.popped, hw.popped]
  · have hpre : tail ∉ pre := by
      intro hmem
      have := hlinked.nodup
      rw [List.nodup_append] at this
      exact this.2.2 tail hmem tail (by simp) rfl
    have hword : ∀ y, IsSlot r p₀ y → y ≠ tail →
        link (writeWord σ.mem tail σ.page.localFree) y = link σ.mem y :=
      fun y hy hne => congrArg ptr (link_touch g hts hy hne hm)
    have hlt := h.localFree_lt g
    rw [List.append_assoc]
    refine hlinked.append h.lists.local_linked hpre ?_ ?_ ?_
    · show ptr (readWord (writeWord _ _ _) _) = _
      rw [readWord_writeWord hlt]
    · intro y hy
      have hyw : σ.At r p₀ loc (pre ++ [tail]) .onWalk y := List.mem_append_left _ hy
      exact hword y (h.lists.placed.mem hyw) fun hyt => hpre (hyt ▸ hy)
    · intro y hy
      have hyl : σ.At r p₀ loc (pre ++ [tail]) .onLocal y := hy
      exact hword y (h.lists.placed.mem hyl) (h.lists.placed.ne hyl htail (by simp))

/-- `page->local_free = list`. -/
theorem collectHead (h : Conserved r p₀ σ loc walk) (hw : Wraps wrap back) {list count : Nat}
    (hpc : σ.owner = wrap (.head list count)) :
    Conserved r p₀ { σ with
      page := { σ.page with localFree := list }
      owner := wrap (.count count) } (walk ++ loc) [] := by
  obtain ⟨hlinked, hne, rfl⟩ := h.collectOk hw hpc
  refine ⟨⟨h.lists.shape.trans ⟨rfl, rfl, rfl, rfl, rfl, rfl, rfl, rfl, rfl, rfl⟩,
    h.lists.carved, ?_,
    h.lists.live_nodup, ?_, hlinked, h.lists.stack_linked, Or.inl rfl, h.lists.virgin⟩, h.threads,
    (hw.ok ..).mpr ⟨rfl, Nat.mod_lt _ (by decide)⟩, ?_⟩
  · refine h.lists.placed.shift (a := .onWalk) (b := .onLocal) (by simp) ?_ ?_ ?_
    · intro y
      simp only [PageSys.At, List.not_mem_nil, not_false_eq_true]
    · intro y
      simp only [PageSys.At, List.mem_append]
    · intro c hca hcb y
      cases c with
      | live => simp only [PageSys.At, hpc, hw.taking]
      | pushing t' =>
        cases t' with
        | none => simp only [PageSys.At, hpc, hw.freeing]
        | some t' => simp only [PageSys.At]
      | onWalk => exact absurd rfl hca
      | onLocal => exact absurd rfl hcb
      | onRemote | virgin => simp only [PageSys.At]
  · intro y hy
    rw [hw.taking] at hy
    cases hy
  · obtain ⟨h₄, h₅, h₆⟩ := h.collectOwing hw hpc
    simp only [CollectPc.settling, CollectPc.owesLocal] at h₅ h₆
    refine ⟨h.owing.used_lt, h.owing.remote_lt, h.owing.local_lt, ?_, ?_, ?_⟩ <;>
      simp only [hw.owesUsed, hw.settling, hw.owesLocal, hw.popped, CollectPc.settling,
        CollectPc.owesLocal, List.length_append, List.length_nil] <;> omega

/-- `page->local_free_count += count`. -/
theorem collectRecount (h : Conserved r p₀ σ loc walk) (hw : Wraps wrap back) {count k : Nat}
    (hpc : σ.owner = wrap (.recount count k)) :
    Conserved r p₀ { σ with
      page := { σ.page with localFreeCount := (k + count) % 2 ^ 16 }
      owner := wrap (.settle count) } loc walk := by
  obtain ⟨hwalk, hlt, rfl⟩ := h.collectOk hw hpc
  refine h.ownStill hpc ⟨rfl, rfl, rfl, rfl, rfl, rfl, rfl, rfl, rfl, rfl⟩ rfl rfl rfl ?_ ?_
    ((hw.ok ..).mpr ⟨hwalk, hlt⟩) ?_
  · rw [hw.taking, hw.taking]
  · rw [hw.freeing, hw.freeing]
  · obtain ⟨h₄, h₅, h₆⟩ := h.collectOwing hw hpc
    simp only [CollectPc.settling, CollectPc.owesLocal] at h₅ h₆
    refine ⟨h.owing.used_lt, h.owing.remote_lt, Nat.mod_lt _ (by decide), ?_, ?_, ?_⟩ <;>
      simp only [hw.owesUsed, hw.settling, hw.owesLocal, hw.popped, CollectPc.settling,
        CollectPc.owesLocal] <;> omega

/-- `atomic_fetch_sub(&page->remote_free_count, count)`, the end of a collect. -/
theorem collectSettle (h : Conserved r p₀ σ loc walk) (hw : Wraps wrap back) {count : Nat}
    (hpc : σ.owner = wrap (.settle count)) :
    Conserved r p₀ { σ with
      page := { σ.page with remoteFreeCount := sub16 σ.page.remoteFreeCount count }
      owner := back } loc walk := by
  obtain ⟨hwalk, hlt⟩ := h.collectOk hw hpc
  obtain ⟨hb₁, hb₂, hb₃, hb₄⟩ := hw.back_owes
  refine h.ownStill hpc ⟨rfl, rfl, rfl, rfl, rfl, rfl, rfl, rfl, rfl, rfl⟩ rfl rfl rfl ?_ ?_
    ((hw.back_ok ..).mpr hwalk) ?_
  · rw [hw.taking, hw.back_taking]
  · rw [hw.freeing, hw.back_freeing]
  · obtain ⟨h₄, h₅, h₆⟩ := h.collectOwing hw hpc
    simp only [CollectPc.settling, CollectPc.owesLocal] at h₅ h₆
    have hr := h.owing.remote_lt
    refine ⟨h.owing.used_lt, sub16_lt hr, h.owing.local_lt, ?_, ?_, ?_⟩ <;>
      simp only [hb₁, hb₂, hb₃, hb₄, sub16_eq_mod hr hlt] <;> omega

/-- A step of a collect. -/
theorem collectStep (g : Geom r p₀) (h : Conserved r p₀ σ loc walk) (hw : Wraps wrap back)
    {pc : CollectPc} (hpc : σ.owner = wrap pc) {cell : Cell} {next : Next CollectPc Unit}
    (he : CustomMalloc.collectStep spurious σ.toCell pc = (cell, next)) :
    ∃ loc' walk', Conserved r p₀ { σ with
      toCell := cell
      owner := match next with
        | .goto pc' => wrap pc'
        | .done _ => back
      log := pc.event next ++ σ.log } loc' walk' := by
  cases pc with
  | load =>
    simp only [CustomMalloc.collectStep] at he
    by_cases h0 : taggedPtr σ.page.remoteFree = 0
    · rw [if_pos h0] at he
      cases he
      exact ⟨loc, walk, h.collectNone hw hpc⟩
    · rw [if_neg h0] at he
      cases he
      exact ⟨loc, walk, h.collectGoto hw hpc rfl rfl ⟨h.collectOk hw hpc, h0⟩⟩
  | cas old =>
    simp only [CustomMalloc.collectStep] at he
    by_cases hold : spurious = false ∧ σ.page.remoteFree = old
    · rw [if_pos hold] at he
      obtain ⟨-, rfl⟩ := hold
      cases he
      exact ⟨loc, h.collectCas hw hpc⟩
    · rw [if_neg hold] at he
      cases he
      exact ⟨loc, walk, h.collectGoto hw hpc rfl rfl (h.collectOk hw hpc).1⟩
  | walk list current count =>
    obtain ⟨hend, hgo⟩ := h.collectWalk hw hpc
    by_cases h0 : readWord σ.mem current = 0
    · rw [collectStep_walked σ.toCell spurious list count h0] at he
      cases he
      exact ⟨loc, walk, hend h0⟩
    · rw [collectStep_walk σ.toCell spurious list count h0] at he
      cases he
      exact ⟨loc, walk, hgo h0⟩
  | rest list tail count =>
    cases he
    obtain ⟨h₁, h₂, h₃⟩ := h.collectOk hw hpc
    exact ⟨loc, walk, h.collectGoto hw hpc rfl rfl ⟨h₁, h₂, h₃, rfl⟩⟩
  | splice list tail count head =>
    cases he
    exact ⟨loc, walk, h.collectSplice g hw hpc⟩
  | head list count =>
    cases he
    exact ⟨walk ++ loc, [], h.collectHead hw hpc⟩
  | count count =>
    cases he
    obtain ⟨h₁, h₂⟩ := h.collectOk hw hpc
    exact ⟨loc, walk, h.collectGoto hw hpc rfl rfl ⟨h₁, h₂, rfl⟩⟩
  | recount count k =>
    cases he
    exact ⟨loc, walk, h.collectRecount hw hpc⟩
  | settle count =>
    cases he
    exact ⟨loc, walk, h.collectSettle hw hpc⟩

end Collect

/-! ### The owner's calls -/

theorem pop (h : Conserved r p₀ σ loc walk) {pc : PopPc} (hpc : σ.owner = .alloc (.pop pc))
    (he : σ.own spurious = some σ') : ∃ loc' walk', Conserved r p₀ σ' loc' walk' := by
  have hok := h.owner
  rw [hpc] at hok
  obtain ⟨hwalk, hpop⟩ := hok
  unfold PageSys.own at he
  rw [hpc] at he
  cases pc with
  | head =>
    cases he
    exact ⟨loc, walk, h.ownGoto hpc rfl rfl rfl rfl rfl rfl ⟨hwalk, rfl, hpop⟩⟩
  | read slot =>
    cases he
    exact ⟨loc, walk, h.ownGoto hpc rfl rfl rfl rfl rfl rfl ⟨hwalk, hpop.1, hpop.2, rfl⟩⟩
  | unlink slot next =>
    cases he
    obtain ⟨loc', h'⟩ := h.popUnlink hpc
    exact ⟨loc', walk, h'⟩
  | count slot =>
    cases he
    exact ⟨loc, walk, h.ownGoto hpc rfl rfl rfl rfl rfl rfl ⟨hwalk, rfl⟩⟩
  | recount slot k =>
    cases he
    refine ⟨loc, walk, h.ownStill hpc ⟨rfl, rfl, rfl, rfl, rfl, rfl, rfl, rfl, rfl, rfl⟩ rfl rfl
      rfl rfl
      rfl ⟨hwalk, trivial⟩ ?_⟩
    obtain ⟨h₁, h₂, h₃, h₄, h₅, h₆⟩ := h.owing
    rw [hpc] at h₄ h₅ h₆
    obtain rfl : k = σ.page.localFreeCount := hpop
    simp only [OwnerPc.owesUsed, OwnerPc.settling, OwnerPc.owesLocal, OwnerPc.popped] at h₄ h₅ h₆
    refine ⟨h₁, h₂, sub16_lt h₃, ?_, ?_, ?_⟩ <;>
      simp only [OwnerPc.owesUsed, OwnerPc.settling, OwnerPc.owesLocal, OwnerPc.popped,
        sub16_eq_mod h₃ (show 1 < 2 ^ 16 by decide)] <;> omega
  | used slot =>
    cases he
    exact ⟨loc, walk, h.ownTake hpc rfl rfl rfl rfl rfl rfl hwalk⟩

theorem bump (g : Geom r p₀) (h : Conserved r p₀ σ loc walk) {pc : BumpPc}
    (hpc : σ.owner = .alloc (.bump pc)) (he : σ.own spurious = some σ') :
    ∃ loc' walk', Conserved r p₀ σ' loc' walk' := by
  have hok := h.owner
  rw [hpc] at hok
  obtain ⟨hwalk, hbump⟩ := hok
  unfold PageSys.own at he
  rw [hpc] at he
  cases pc with
  | read =>
    cases he
    have hstart := (g.congr h.lists.shape).pageStart_eq
    exact ⟨loc, walk, h.ownGoto hpc rfl rfl rfl rfl rfl rfl ⟨hwalk, by rw [hstart], hbump⟩⟩
  | load slot =>
    cases he
    exact ⟨loc, walk, h.ownGoto hpc rfl rfl rfl rfl rfl rfl ⟨hwalk, hbump.1, rfl, hbump.2⟩⟩
  | store slot offset =>
    cases he
    exact ⟨loc, walk, h.bumpStore g hpc⟩
  | used slot =>
    cases he
    exact ⟨loc, walk, h.ownTake hpc rfl rfl rfl rfl rfl rfl hwalk⟩

theorem free (g : Geom r p₀) (h : Conserved r p₀ σ loc walk) {pc : FreeLocalPc}
    (hpc : σ.owner = .free pc) (he : σ.own spurious = some σ') :
    ∃ loc' walk', Conserved r p₀ σ' loc' walk' := by
  have hok := h.owner
  rw [hpc] at hok
  obtain ⟨hwalk, hfree⟩ := hok
  obtain ⟨h₁, h₂, h₃, h₄, h₅, h₆⟩ := h.owing
  rw [hpc] at h₄ h₅ h₆
  unfold PageSys.own at he
  rw [hpc] at he
  cases pc with
  | load x =>
    cases he
    exact ⟨loc, walk, h.ownGoto hpc rfl rfl rfl rfl rfl rfl ⟨hwalk, rfl⟩⟩
  | link x head =>
    cases he
    obtain rfl : head = σ.page.localFree := hfree
    have hx : σ.At r p₀ loc walk (.pushing none) x := by
      show σ.owner.freeing = some x
      rw [hpc]
      rfl
    have hlt : σ.page.localFree < 2 ^ 64 := h.localFree_lt g
    exact ⟨loc, walk, h.ownWrite g hpc hx (by simp) (by simp) (by simp)
      (by simp) rfl rfl rfl rfl rfl rfl
      ⟨hwalk, readWord_writeWord hlt⟩⟩
  | head x =>
    cases he
    exact ⟨x :: loc, walk, h.freeHead g hpc⟩
  | count =>
    cases he
    exact ⟨loc, walk, h.ownGoto hpc rfl rfl rfl rfl rfl rfl ⟨hwalk, rfl⟩⟩
  | recount k =>
    cases he
    obtain rfl : k = σ.page.localFreeCount := hfree
    refine ⟨loc, walk, h.ownStill hpc ⟨rfl, rfl, rfl, rfl, rfl, rfl, rfl, rfl, rfl, rfl⟩ rfl rfl
      rfl rfl
      rfl ⟨hwalk, trivial⟩ ?_⟩
    simp only [OwnerPc.owesUsed, OwnerPc.settling, OwnerPc.owesLocal, OwnerPc.popped] at h₄ h₅ h₆
    refine ⟨h₁, h₂, Nat.mod_lt _ (by decide), ?_, ?_, ?_⟩ <;>
      simp only [OwnerPc.owesUsed, OwnerPc.settling, OwnerPc.owesLocal, OwnerPc.popped] <;> omega
  | used =>
    cases he
    refine ⟨loc, walk, h.ownStill hpc ⟨rfl, rfl, rfl, rfl, rfl, rfl, rfl, rfl, rfl, rfl⟩ rfl rfl
      rfl rfl
      rfl hwalk ?_⟩
    simp only [OwnerPc.owesUsed, OwnerPc.settling, OwnerPc.owesLocal, OwnerPc.popped] at h₄ h₅ h₆
    refine ⟨sub16_lt h₁, h₂, h₃, ?_, ?_, ?_⟩ <;>
      simp only [OwnerPc.owesUsed, OwnerPc.settling, OwnerPc.owesLocal, OwnerPc.popped,
        sub16_eq_mod h₁ (show 1 < 2 ^ 16 by decide)] <;> omega

/-- A step of the owner. -/
theorem own (g : Geom r p₀) (h : Conserved r p₀ σ loc walk) (he : σ.own spurious = some σ') :
    ∃ loc' walk', Conserved r p₀ σ' loc' walk' := by
  cases hpc : σ.owner with
  | idle =>
    unfold PageSys.own at he
    rw [hpc] at he
    cases he
  | alloc pc =>
    have hok := h.owner
    rw [hpc] at hok
    cases pc with
    | pop pc => exact h.pop hpc he
    | bump pc => exact h.bump g hpc he
    | collect pc =>
      unfold PageSys.own at he
      rw [hpc] at he
      rcases hc : CustomMalloc.collectStep spurious σ.toCell pc with ⟨cell, next⟩
      have h' := h.collectStep g wraps_alloc hpc hc
      simp only [allocStep, hc] at he
      cases next with
      | goto pc' =>
        cases he
        exact h'
      | done u =>
        cases he
        exact h'
    | test =>
      unfold PageSys.own at he
      rw [hpc] at he
      cases he
      refine ⟨loc, walk, ?_⟩
      by_cases h0 : σ.page.localFree ≠ 0
      · simp only [allocStep, if_pos h0]
        exact h.ownGoto hpc rfl rfl rfl rfl rfl rfl ⟨hok, h0⟩
      · simp only [allocStep, if_neg h0]
        exact h.ownGoto hpc rfl rfl rfl rfl rfl rfl hok
    | bumpTest =>
      unfold PageSys.own at he
      rw [hpc] at he
      cases he
      refine ⟨loc, walk, ?_⟩
      by_cases hlt : σ.page.bumpOffset < σ.page.bumpEnd
      · simp only [allocStep, if_pos hlt]
        exact h.ownGoto hpc rfl rfl rfl rfl rfl rfl ⟨hok, hlt⟩
      · simp only [allocStep, if_neg hlt]
        exact h.ownGoto hpc rfl rfl rfl rfl rfl rfl hok
    | retest =>
      unfold PageSys.own at he
      rw [hpc] at he
      by_cases h0 : σ.page.localFree ≠ 0
      · simp only [allocStep, if_pos h0] at he
        cases he
        exact ⟨loc, walk, h.ownGoto hpc rfl rfl rfl rfl rfl rfl ⟨hok, h0⟩⟩
      · simp only [allocStep, if_neg h0] at he
        cases he
        exact ⟨loc, walk, h.ownGoto hpc rfl rfl rfl rfl rfl rfl hok⟩
  | collect pc =>
    unfold PageSys.own at he
    rw [hpc] at he
    rcases hc : CustomMalloc.collectStep spurious σ.toCell pc with ⟨cell, next⟩
    have h' := h.collectStep g wraps_collect hpc hc
    simp only [hc] at he
    cases next with
    | goto pc' =>
      cases he
      exact h'
    | done u =>
      cases he
      have hnone : pc.event (.done u) = [] := by cases pc <;> rfl
      rw [hnone] at h'
      exact h'
  | free pc => exact h.free g hpc he

/-- **Step lemma**: every step keeps the invariant. -/
theorem act (g : Geom r p₀) (hlow : r.start + 65536 ≤ 2 ^ 48) (h : Conserved r p₀ σ loc walk)
    {a : PageAct n} (he : σ.act a = some σ') : ∃ loc' walk', Conserved r p₀ σ' loc' walk' := by
  cases a with
  | alloc =>
    obtain ⟨hpc, he⟩ := Option.ite_none_right_eq_some.mp he
    cases he
    have hok := h.owner
    rw [hpc] at hok
    exact ⟨loc, walk, h.ownGoto hpc rfl rfl rfl rfl rfl rfl hok⟩
  | collect =>
    obtain ⟨hpc, he⟩ := Option.ite_none_right_eq_some.mp he
    cases he
    have hok := h.owner
    rw [hpc] at hok
    exact ⟨loc, walk, h.ownGoto hpc rfl rfl rfl rfl rfl rfl hok⟩
  | free x =>
    obtain ⟨⟨hpc, hx⟩, he⟩ := Option.ite_none_right_eq_some.mp he
    cases he
    exact ⟨loc, walk, h.startFree hpc hx⟩
  | own spurious => exact h.own g he
  | push t x =>
    obtain ⟨⟨ht, hx⟩, he⟩ := Option.ite_none_right_eq_some.mp he
    cases he
    exact ⟨loc, walk, h.startPush ht hx⟩
  | thread t spurious => exact ⟨loc, walk, h.thread g hlow he⟩
  | write x i b =>
    obtain ⟨⟨hx, hi⟩, he⟩ := Option.ite_none_right_eq_some.mp he
    cases he
    exact ⟨loc, walk, h.write g hx hi b⟩

end Conserved

end CustomMalloc

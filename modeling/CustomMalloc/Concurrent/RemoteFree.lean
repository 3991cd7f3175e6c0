import CustomMalloc.Concurrent.PageSys

/-!
# The steps of a remote free

A free by another thread moves its slot with the one compare-and-swap that succeeds. The
tag of the head is not needed for this: the stack is only pushed and emptied, so a head
that comes back, with whatever tag, has the same slot on top of the right rest.
-/

namespace CustomMalloc

open Lib.Words Lib.Bytes Lib.Chain Lib.Interleave Lib.Places Lib.Sums

variable {n : Nat} {r : PageRef} {p₀ : PageMeta} {σ σ' : PageSys n} {loc walk : List Nat} {x : Nat}

variable {t : Fin n} {spurious : Bool}

theorem taggedPtr_make {a tag : Nat} (ha : a < 2 ^ 48) : taggedPtr (taggedMake a tag) = a := by
  unfold taggedPtr taggedMake
  omega

/-- A pusher that keeps its slot. -/
theorem pushing_upd {threads : Fin n → Option FreeRemotePc} {pc : Option FreeRemotePc}
    (h : pc.bind FreeRemotePc.pushing = (threads t).bind FreeRemotePc.pushing) (t' : Fin n) :
    (upd threads t pc t').bind FreeRemotePc.pushing = (threads t').bind FreeRemotePc.pushing := by
  by_cases ht : t' = t
  · rw [ht, upd_same, h]
  · rw [upd_ne ht]

/-- Only the pushers that are about to swap rely on memory. -/
theorem cas_upd {threads : Fin n → Option FreeRemotePc} {m : Mem} {pc : Option FreeRemotePc}
    (h : ∀ t' x old, t' ≠ t → threads t' = some (.cas x old) → readWord m x = taggedPtr old)
    (hpc : ∀ x old, pc = some (.cas x old) → readWord m x = taggedPtr old) :
    ∀ t' x old, upd threads t pc t' = some (.cas x old) → readWord m x = taggedPtr old := by
  intro t' x old ht
  by_cases htt : t' = t
  · rw [htt, upd_same] at ht
    exact hpc x old ht
  · rw [upd_ne htt] at ht
    exact h t' x old htt ht

namespace Conserved

/-- The slot of a pusher. -/
theorem at_pushing {pc : FreeRemotePc} (hpc : σ.threads t = some pc) (hx : pc.pushing = some x) :
    σ.At r p₀ loc walk (.pushing (some t)) x := by
  show (σ.threads t).bind FreeRemotePc.pushing = some x
  rw [hpc]
  exact hx

/-- A thread goes on without touching anything. -/
theorem goto (h : Conserved r p₀ σ loc walk) {pc pc' : FreeRemotePc} (hpc : σ.threads t = some pc)
    (hpush : pc'.pushing = pc.pushing) (hc : FreeRemotePc.owesCount (some pc') =
      FreeRemotePc.owesCount (some pc))
    (hcas : ∀ x old, pc' ≠ .cas x old) :
    Conserved r p₀ { σ with threads := upd σ.threads t (some pc') } loc walk := by
  refine ⟨?_, ?_, h.owner, ?_⟩
  · refine h.lists.still (fun _ _ => rfl) (fun _ _ => rfl) (.refl _) rfl rfl rfl rfl rfl rfl rfl ?_
    apply pushing_upd
    rw [hpc]
    exact hpush
  · apply cas_upd fun t' x old _ ht => h.threads t' x old ht
    intro x old hx
    exact absurd (Option.some.inj hx) (hcas x old)
  · rw [Nat.add_right_cancel (callsOf_upd hpc (some pc')),
      Nat.add_right_cancel ((uncountedOf_upd hpc (some pc')).trans (by rw [hc]))]
    exact h.owing

/-- Memory changes inside a slot that a client or another thread holds. -/
theorem ownerSees (g : Geom r p₀) (h : Conserved r p₀ σ loc walk) {pl : Place n} {m' : Mem}
    (hx : σ.At r p₀ loc walk pl x) (hl : pl ≠ .onLocal) (hw : pl ≠ .onWalk)
    (hf : pl ≠ .pushing none)
    (hm : ∀ a, ¬ (x ≤ a ∧ a < x + p₀.slotSize) → m' a = σ.mem a) :
    OwnerSees σ.toCell ⟨m', σ.page⟩ loc walk σ.owner.freeing := by
  refine ⟨rfl, rfl, rfl, rfl, ?_⟩
  have hkeep : ∀ (pl' : Place n) (y : Nat), σ.At r p₀ loc walk pl' y → pl' ≠ pl →
      readWord m' y = readWord σ.mem y := fun _ _ hy hne =>
    link_touch g (h.lists.placed.mem hx) (h.lists.placed.mem hy) (h.lists.placed.ne hy hx hne) hm
  intro y hy
  rcases hy with hy | hy | hy
  · exact hkeep .onLocal y hy (Ne.symm hl)
  · exact hkeep .onWalk y hy (Ne.symm hw)
  · exact hkeep (.pushing none) y hy (Ne.symm hf)

/-- The other pushers' links survive a write inside the slot of `t`, or of a client. -/
theorem casSees (g : Geom r p₀) (h : Conserved r p₀ σ loc walk) {pl : Place n} {m' : Mem}
    (hx : σ.At r p₀ loc walk pl x) (hm : ∀ a, ¬ (x ≤ a ∧ a < x + p₀.slotSize) → m' a = σ.mem a)
    {t' : Fin n} {y old : Nat} (ht : σ.threads t' = some (.cas y old))
    (hne : pl ≠ .pushing (some t')) : readWord m' y = taggedPtr old := by
  have hy : σ.At r p₀ loc walk (.pushing (some t')) y := at_pushing ht rfl
  rw [link_touch g (h.lists.placed.mem hx) (h.lists.placed.mem hy)
    (h.lists.placed.ne hy hx (Ne.symm hne)) hm]
  exact h.threads t' y old ht

/-- `*node_next = old_ptr`. -/
theorem pushLink (g : Geom r p₀) (h : Conserved r p₀ σ loc walk) {old : Nat}
    (hpc : σ.threads t = some (.link x old)) :
    Conserved r p₀ { σ with
      mem := writeWord σ.mem x (taggedPtr old)
      threads := upd σ.threads t (some (.cas x old)) } loc walk := by
  have hx : σ.At r p₀ loc walk (.pushing (some t)) x := at_pushing hpc rfl
  have hm := writeWord_touch g σ.mem x (taggedPtr old)
  have hbelow := h.lists.below hx (by simp)
  refine ⟨?_, ?_, h.owner.frame h.lists.local_linked
    (h.ownerSees g hx (by simp) (by simp) (by simp) hm), ?_⟩
  · refine h.lists.still (fun y hy => h.lists.word_of_place g hx (by simp) (by simp) hm hy) ?_
      (.refl _)
      rfl rfl rfl rfl rfl rfl rfl ?_
    · intro a ha
      exact hm a (by omega)
    · apply pushing_upd
      rw [hpc]
      rfl
  · apply cas_upd fun t' y old' htt ht => h.casSees g hx hm ht (by simp [Ne.symm htt])
    intro y old' hy
    obtain ⟨rfl, rfl⟩ := FreeRemotePc.cas.inj (Option.some.inj hy)
    exact readWord_writeWord (by unfold taggedPtr; omega)
  · rw [Nat.add_right_cancel (callsOf_upd hpc (some (.cas x old))),
      Nat.add_right_cancel (uncountedOf_upd hpc (some (.cas x old)))]
    exact h.owing

/-- The compare-and-swap of a push puts its slot on the stack. -/
theorem pushCas (g : Geom r p₀) (hlow : r.start + 65536 ≤ 2 ^ 48) (h : Conserved r p₀ σ loc walk)
    (hpc : σ.threads t = some (.cas x σ.page.remoteFree)) :
    Conserved r p₀ { σ with
      page := { σ.page with remoteFree := taggedMake x (taggedTag σ.page.remoteFree + 1) }
      threads := upd σ.threads t (some .count)
      log := .pushed x :: σ.log } loc walk := by
  have hx : σ.At r p₀ loc walk (.pushing (some t)) x := at_pushing hpc rfl
  have hslot := h.lists.placed.mem hx
  have hbounds := isSlot_bounds g hslot
  have hge := g.slot_ge
  refine ⟨⟨h.lists.shape.trans ⟨rfl, rfl, rfl, rfl, rfl, rfl, rfl, rfl, rfl, rfl⟩,
    h.lists.carved, ?_,
    h.lists.live_nodup, h.lists.taking_new, h.lists.local_linked, ?_, h.lists.chain,
    h.lists.virgin⟩, ?_, ?_, ?_⟩
  · refine h.lists.placed.move (a := .pushing (some t)) (b := .onRemote) (by simp) hx ?_ ?_ ?_
    · intro y
      simp only [PageSys.At, upd_same, hpc, Option.bind_some, FreeRemotePc.pushing, reduceCtorEq,
        Option.some.injEq, false_iff, not_and, not_not]
      exact fun hxy => hxy.symm
    · intro y
      simp only [PageSys.At, pushedSince, List.mem_cons]
      exact or_comm
    · intro c hca hcb y
      cases c with
      | pushing t' =>
        cases t' with
        | none => simp only [PageSys.At]
        | some t' =>
          have htt : t' ≠ t := fun ht => hca (by rw [ht])
          simp only [PageSys.At, upd_ne htt]
      | onRemote => exact absurd rfl hcb
      | live | onWalk | onLocal | virgin => simp only [PageSys.At]
  · show Linked _ (ptr (taggedPtr (taggedMake x _))) (x :: pushedSince σ.log)
    rw [taggedPtr_make (by omega)]
    refine ⟨ptr_eq_some.mpr ⟨rfl, isSlot_ne_zero g hslot⟩, ?_⟩
    have hlink : link σ.mem x = ptr (taggedPtr σ.page.remoteFree) :=
      congrArg ptr (h.threads t x _ hpc)
    rw [hlink]
    exact h.lists.stack_linked
  · apply cas_upd fun t' y old _ ht => h.threads t' y old ht
    intro y old hy
    exact absurd (Option.some.inj hy) (by simp)
  · exact h.owner.frame h.lists.local_linked ⟨rfl, rfl, rfl, rfl, fun _ _ => rfl⟩
  · have hc := callsOf_upd hpc (some .count)
    have hu := uncountedOf_upd hpc (some .count)
    obtain ⟨h₁, h₂, h₃, h₄, h₅, h₆⟩ := h.owing
    simp only [FreeRemotePc.owesUsed, FreeRemotePc.owesCount] at hc hu
    refine ⟨h₁, h₂, h₃, ?_, ?_, h₆⟩ <;> simp only [pushedSince, List.length_cons] <;> omega

/-- `atomic_fetch_add(&page->remote_free_count, 1)`. -/
theorem pushCount (h : Conserved r p₀ σ loc walk) (hpc : σ.threads t = some .count) :
    Conserved r p₀ { σ with
      page := { σ.page with remoteFreeCount := (σ.page.remoteFreeCount + 1) % 2 ^ 16 }
      threads := upd σ.threads t (some .used) } loc walk := by
  refine ⟨?_, ?_, h.owner.frame h.lists.local_linked ⟨rfl, rfl, rfl, rfl, fun _ _ => rfl⟩, ?_⟩
  · refine h.lists.still (fun _ _ => rfl) (fun _ _ => rfl)
      ⟨rfl, rfl, rfl, rfl, rfl, rfl, rfl, rfl, rfl, rfl⟩ rfl rfl rfl rfl rfl rfl rfl ?_
    apply pushing_upd
    rw [hpc]
    rfl
  · apply cas_upd fun t' x old _ ht => h.threads t' x old ht
    intro x old hx
    exact absurd (Option.some.inj hx) (by simp)
  · have hc := callsOf_upd hpc (some .used)
    have hu := uncountedOf_upd hpc (some .used)
    obtain ⟨h₁, h₂, h₃, h₄, h₅, h₆⟩ := h.owing
    simp only [FreeRemotePc.owesUsed, FreeRemotePc.owesCount] at hc hu
    refine ⟨h₁, Nat.mod_lt _ (by decide), h₃, ?_, ?_, h₆⟩ <;> dsimp only <;> omega

/-- `atomic_fetch_sub(&page->used, 1)`, the end of a remote free. -/
theorem pushUsed (h : Conserved r p₀ σ loc walk) (hpc : σ.threads t = some .used) :
    Conserved r p₀ { σ with
      page := { σ.page with used := sub16 σ.page.used 1 }
      threads := upd σ.threads t none } loc walk := by
  refine ⟨?_, ?_, h.owner.frame h.lists.local_linked ⟨rfl, rfl, rfl, rfl, fun _ _ => rfl⟩, ?_⟩
  · refine h.lists.still (fun _ _ => rfl) (fun _ _ => rfl)
      ⟨rfl, rfl, rfl, rfl, rfl, rfl, rfl, rfl, rfl, rfl⟩ rfl rfl rfl rfl rfl rfl rfl ?_
    apply pushing_upd
    rw [hpc]
    rfl
  · apply cas_upd fun t' x old _ ht => h.threads t' x old ht
    intro x old hx
    cases hx
  · have hc := callsOf_upd hpc none
    have hu := uncountedOf_upd hpc none
    obtain ⟨h₁, h₂, h₃, h₄, h₅, h₆⟩ := h.owing
    simp only [FreeRemotePc.owesUsed, FreeRemotePc.owesCount] at hc hu
    refine ⟨sub16_lt h₁, h₂, h₃, ?_, ?_, h₆⟩ <;> dsimp only
    · rw [sub16_eq_mod h₁ (by decide)]
      omega
    · omega

/-- A step of a remote free. -/
theorem thread (g : Geom r p₀) (hlow : r.start + 65536 ≤ 2 ^ 48) (h : Conserved r p₀ σ loc walk)
    (he : σ.thread t spurious = some σ') : Conserved r p₀ σ' loc walk := by
  unfold PageSys.thread at he
  cases hpc : σ.threads t with
  | none =>
    rw [hpc] at he
    cases he
  | some pc =>
    rw [hpc] at he
    cases pc with
    | load x =>
      cases he
      exact h.goto hpc rfl rfl (by simp)
    | link x old =>
      cases he
      exact h.pushLink g hpc
    | cas x old =>
      simp only [freeRemoteStep] at he
      by_cases hold : spurious = false ∧ σ.page.remoteFree = old
      · obtain ⟨hsp, rfl⟩ := hold
        rw [if_pos ⟨hsp, rfl⟩] at he
        cases he
        exact h.pushCas g hlow hpc
      · rw [if_neg hold] at he
        cases he
        exact h.goto hpc rfl rfl (by simp)
    | count =>
      cases he
      exact h.pushCount hpc
    | used =>
      cases he
      exact h.pushUsed hpc

/-- A slot leaves the clients. -/
theorem live_erase {live : List Nat} {o : Option Nat} (hnd : live.Nodup)
    (hnew : ∀ y, o = some y → y ∉ live) (hx : x ∈ live) (y : Nat) :
    (y ∈ live.erase x ∨ o = some y) ↔ (y ∈ live ∨ o = some y) ∧ y ≠ x := by
  rw [hnd.mem_erase_iff, or_and_right, and_comm]
  refine or_congr_right (Iff.symm (and_iff_left_of_imp ?_))
  intro hy hyx
  exact hnew y hy (hyx ▸ hx)

/-- Another thread is told to free a slot. -/
theorem startPush (h : Conserved r p₀ σ loc walk) (ht : σ.threads t = none) (hx : x ∈ σ.live) :
    Conserved r p₀ { σ with
      threads := upd σ.threads t (some (.load x))
      live := σ.live.erase x } loc walk := by
  refine ⟨⟨h.lists.shape, h.lists.carved, ?_, h.lists.live_nodup.erase x, ?_, h.lists.local_linked,
    h.lists.stack_linked, h.lists.chain, h.lists.virgin⟩, ?_, h.owner, ?_⟩
  · refine h.lists.placed.move (a := .live) (b := .pushing (some t)) (x := x) (by simp)
      (Or.inl hx) (live_erase h.lists.live_nodup h.lists.taking_new hx) ?_ ?_
    · intro y
      simp only [PageSys.At, upd_same, ht, Option.bind_some, FreeRemotePc.pushing, Option.bind_none,
        Option.some.injEq, reduceCtorEq, false_or]
      exact eq_comm
    · intro c hca hcb y
      cases c with
      | pushing t' =>
        cases t' with
        | none => simp only [PageSys.At]
        | some t' =>
          have htt : t' ≠ t := fun ht => hcb (by rw [ht])
          simp only [PageSys.At, upd_ne htt]
      | live => exact absurd rfl hca
      | onRemote | onWalk | onLocal | virgin => simp only [PageSys.At]
  · intro y hy hmem
    exact h.lists.taking_new y hy (List.mem_of_mem_erase hmem)
  · apply cas_upd fun t' y old _ ht => h.threads t' y old ht
    intro y old hy
    exact absurd (Option.some.inj hy) (by simp)
  · have hc := callsOf_upd ht (some (.load x))
    have hu := uncountedOf_upd ht (some (.load x))
    obtain ⟨h₁, h₂, h₃, h₄, h₅, h₆⟩ := h.owing
    simp only [FreeRemotePc.owesUsed, FreeRemotePc.owesCount] at hc hu
    have hlen := List.length_erase_of_mem hx
    have hpos := List.length_pos_of_mem hx
    refine ⟨h₁, h₂, h₃, ?_, ?_, h₆⟩ <;> dsimp only <;> omega

/-- A client writes into its slot. -/
theorem write (g : Geom r p₀) (h : Conserved r p₀ σ loc walk) (hx : x ∈ σ.live) {i : Nat}
    (hi : i < σ.page.slotSize) (b : UInt8) :
    Conserved r p₀ { σ with mem := upd σ.mem (x + i) b } loc walk := by
  have hat : σ.At r p₀ loc walk .live x := Or.inl hx
  have hm : ∀ a, ¬ (x ≤ a ∧ a < x + p₀.slotSize) → upd σ.mem (x + i) b a = σ.mem a := by
    intro a ha
    rw [h.lists.shape.slotSize] at hi
    exact upd_ne (by omega)
  have hbelow := h.lists.below hat (by simp)
  refine ⟨?_, ?_, h.owner.frame h.lists.local_linked
    (h.ownerSees g hat (by simp) (by simp) (by simp) hm), h.owing⟩
  · refine h.lists.still (fun y hy => h.lists.word_of_place g hat (by simp) (by simp) hm hy) ?_
      (.refl _) rfl rfl rfl rfl rfl rfl rfl fun _ => rfl
    intro a ha
    exact hm a (by omega)
  · intro t' y old ht
    exact h.casSees g hat hm ht (by simp)

end Conserved

end CustomMalloc

import CustomMalloc.Concurrent.OwnerSteps

/-!
# One page among others

`PageSys` is one page on its own. In the whole allocator a page is one of many: memory
changes in the other pages (`Conserved.outside`), the arena relinks and claims it
(`Conserved.relabel`), and while it is unowned another thread may take a virgin slot of it
under the arena's lock (`Conserved.bumpNow`). None of these disturbs the page's invariant,
and its own steps write only into slots that no client holds (`Conserved.own_touches`,
`Conserved.thread_touches`).

Between the two stores of a bump under the lock, `used` lags behind by one. `plus` makes up
for it, and the machines do not notice, since they only ever add to `used`.
-/

namespace CustomMalloc

open Lib.Words Lib.Bytes Lib.Chain Lib.Interleave Lib.Places Lib.Sums

variable {n : Nat} {r : PageRef} {p₀ p' : PageMeta} {σ σ' : PageSys n} {loc walk : List Nat}
  {x : Nat}
  {t : Fin n} {spurious : Bool}

/-! ## Relabelling -/

/-- The fields that say where the slots are. -/
structure SameSlotFields (p p' : PageMeta) : Prop where
  slotSize : p'.slotSize = p.slotSize
  capacity : p'.capacity = p.capacity
  bumpOffset : p'.bumpOffset = p.bumpOffset
  bumpEnd : p'.bumpEnd = p.bumpEnd
  localFree : p'.localFree = p.localFree
  localFreeCount : p'.localFreeCount = p.localFreeCount
  remoteFree : p'.remoteFree = p.remoteFree
  remoteFreeCount : p'.remoteFreeCount = p.remoteFreeCount
  used : p'.used = p.used

theorem isSlot_congr (hs : p'.slotSize = p₀.slotSize) (hc : p'.capacity = p₀.capacity) :
    IsSlot r p' x ↔ IsSlot r p₀ x := by
  unfold IsSlot slotList slotAt
  rw [hs, hc]

namespace Conserved

/-- The page's links, owner and arena do not matter. -/
theorem relabel (h : Conserved r p₀ σ loc walk) (hp : SameSlotFields σ.page p') :
    Conserved r p' { σ with page := p' } loc walk := by
  have hs : p'.slotSize = p₀.slotSize := hp.slotSize.trans h.lists.shape.slotSize
  have hc : p'.capacity = p₀.capacity := hp.capacity.trans h.lists.shape.capacity
  refine ⟨⟨.refl _, ?_, ?_, h.lists.live_nodup, h.lists.taking_new, ?_, ?_, h.lists.chain, ?_⟩,
    h.threads, ?_, ?_⟩
  · obtain ⟨k, hk, hb⟩ := h.lists.carved
    exact ⟨k, hc ▸ hk, by rw [hs, ← hb]; exact hp.bumpOffset⟩
  · have hS : IsSlot r p' = IsSlot r p₀ := funext fun x => propext (isSlot_congr hs hc)
    rw [hS]
    refine h.lists.placed.congr ?_
    intro pl y
    cases pl with
    | virgin => simp only [PageSys.At, hS, hp.bumpOffset]
    | pushing t => cases t <;> simp only [PageSys.At]
    | live | onRemote | onWalk | onLocal => simp only [PageSys.At]
  · show Linked _ (ptr p'.localFree) _
    rw [hp.localFree]
    exact h.lists.local_linked
  · show Linked _ (ptr (taggedPtr p'.remoteFree)) _
    rw [hp.remoteFree]
    exact h.lists.stack_linked
  · intro x h₁ h₂
    exact h.lists.virgin x (by rw [← hp.bumpOffset]; exact h₁) h₂
  · exact h.owner.frame h.lists.local_linked
      ⟨hp.localFree, hp.localFreeCount, hp.bumpOffset, hp.bumpEnd, fun _ _ => rfl⟩
  · obtain ⟨h₁, h₂, h₃, h₄, h₅, h₆⟩ := h.owing
    refine ⟨?_, ?_, ?_, ?_, ?_, ?_⟩
    · rw [hp.used]; exact h₁
    · rw [hp.remoteFreeCount]; exact h₂
    · rw [hp.localFreeCount]; exact h₃
    · rw [hp.used]; exact h₄
    · rw [hp.remoteFreeCount]; exact h₅
    · rw [hp.localFreeCount]; exact h₆

/-! ## Memory elsewhere -/

/-- A slot that is somewhere keeps its link when the page keeps its bytes. -/
theorem word_outside (g : Geom r p₀) (h : Conserved r p₀ σ loc walk) {m : Mem}
    (hm : ∀ y, r.start ≤ y → y < r.start + 65536 → m y = σ.mem y) {pl : Place n}
    (hx : σ.At r p₀ loc walk pl x) : readWord m x = readWord σ.mem x := by
  have hb := isSlot_bounds g (h.lists.placed.mem hx)
  have hge := g.slot_ge
  exact readWord_congr fun y h₁ h₂ => hm y (by omega) (by omega)

/-- Memory changes outside the page only. -/
theorem outside (g : Geom r p₀) (h : Conserved r p₀ σ loc walk) {m : Mem}
    (hm : ∀ y, r.start ≤ y → y < r.start + 65536 → m y = σ.mem y) :
    Conserved r p₀ { σ with mem := m } loc walk := by
  have hword : ∀ (pl : Place n) {y : Nat}, σ.At r p₀ loc walk pl y →
      readWord m y = readWord σ.mem y :=
    fun _ _ hy => h.word_outside g hm hy
  refine ⟨⟨h.lists.shape, h.lists.carved, h.lists.placed.congr ?_, h.lists.live_nodup,
    h.lists.taking_new, ?_, ?_, h.lists.chain, ?_⟩, ?_, ?_, h.owing⟩
  · intro pl y
    cases pl with
    | pushing t => cases t <;> simp only [PageSys.At]
    | live | onRemote | onWalk | onLocal | virgin => simp only [PageSys.At]
  · exact h.lists.local_linked.congr fun y hy => congrArg ptr (hword .onLocal hy)
  · exact h.lists.stack_linked.congr fun y hy => congrArg ptr (hword .onRemote hy)
  · intro y h₁ h₂
    exact (hm y (by omega) h₂).trans (h.lists.virgin y h₁ h₂)
  · intro t y old ht
    exact (hword _ (at_pushing ht rfl)).trans (h.threads t y old ht)
  · refine h.owner.frame h.lists.local_linked ⟨rfl, rfl, rfl, rfl, ?_⟩
    intro y hy
    rcases hy with hy | hy | hy
    · exact hword .onLocal hy
    · exact hword .onWalk hy
    · exact hword (.pushing none) hy

/-! ## A bump by another thread -/

end Conserved

/-- The owner relies on `bump_offset`: it is between its test and its store. -/
def OwnerPc.bumping : OwnerPc → Bool
  | .alloc (.bump .read) | .alloc (.bump (.load _)) | .alloc (.bump (.store _ _)) => true
  | _ => false

/-- The owner does not rely on `bump_offset`. -/
theorem OwnerOk.setBump {s : Cell} {pc : OwnerPc} (h : OwnerOk r s loc walk pc)
    (hpc : pc.bumping = false) (b u : Nat) :
    OwnerOk r ⟨s.mem, { s.page with bumpOffset := b, used := u }⟩ loc walk pc := by
  cases pc with
  | idle => exact h
  | alloc pc =>
    cases pc with
    | test | bumpTest | retest => exact h
    | pop pc => cases pc <;> exact h
    | bump pc =>
      cases pc with
      | used slot => exact h
      | read | load slot | store slot offset => exact absurd hpc (by simp [OwnerPc.bumping])
    | collect pc => cases pc <;> exact h
  | collect pc => cases pc <;> exact h
  | free pc => cases pc <;> exact h

/-- The state after another thread has taken the next virgin slot of the page, seen as one
step. -/
def PageSys.bumped (σ : PageSys n) (r : PageRef) : PageSys n :=
  { σ with
    page := { σ.page with
      bumpOffset := (σ.page.bumpOffset + σ.page.slotSize) % 2 ^ 32
      used := (σ.page.used + 1) % 2 ^ 16 }
    live := (r.start + σ.page.bumpOffset) :: σ.live }

namespace Conserved

/-- The first virgin slot. -/
theorem next_virgin (g : Geom r p₀) (h : Conserved r p₀ σ loc walk)
    (hlt : σ.page.bumpOffset < σ.page.bumpEnd) :
    σ.At r p₀ loc walk .virgin (r.start + σ.page.bumpOffset) ∧
      (σ.page.bumpOffset + σ.page.slotSize) % 2 ^ 32 = σ.page.bumpOffset + p₀.slotSize ∧
      ∃ k < p₀.capacity, σ.page.bumpOffset = k * p₀.slotSize := by
  obtain ⟨k, hk, hbump⟩ := h.lists.carved
  have hcap : k < p₀.capacity := by
    rw [h.lists.shape.bumpEnd, hbump, g.end_eq] at hlt
    exact Nat.lt_of_mul_lt_mul_right hlt
  have hin := g.slot_in hcap
  have hslot : r.start + σ.page.bumpOffset = slotAt r p₀ k := by rw [hbump]; rfl
  refine ⟨⟨?_, Nat.le_refl _⟩, ?_, k, hcap, hbump⟩
  · rw [hslot]
    exact mem_slotList.mpr ⟨k, hcap, rfl⟩
  · have := g.start_pos
    rw [h.lists.shape.slotSize]
    exact Nat.mod_eq_of_lt (by omega)

/-- Another thread takes the next virgin slot while the owner is not about to. -/
theorem bumpNow (g : Geom r p₀) (h : Conserved r p₀ σ loc walk) (hpc : σ.owner.bumping = false)
    (hlt : σ.page.bumpOffset < σ.page.bumpEnd) : Conserved r p₀ (σ.bumped r) loc walk := by
  obtain ⟨hx, hnew, k, hcap, hbump⟩ := h.next_virgin g hlt
  have hge := g.slot_ge
  have hfresh : r.start + σ.page.bumpOffset ∉ σ.live ∧
      σ.owner.taking ≠ some (r.start + σ.page.bumpOffset) := by
    have hno : ¬ σ.At r p₀ loc walk .live (r.start + σ.page.bumpOffset) := fun hl =>
      absurd (h.lists.placed.only hx hl) (by simp)
    exact not_or.mp hno
  unfold PageSys.bumped
  rw [hnew]
  refine ⟨⟨h.lists.shape.trans ⟨rfl, rfl, rfl, rfl, rfl, rfl, rfl, rfl, rfl, rfl⟩,
    ⟨k + 1, hcap, ?_⟩, ?_, List.nodup_cons.mpr ⟨hfresh.1, h.lists.live_nodup⟩, ?_,
    h.lists.local_linked, h.lists.stack_linked, h.lists.chain, ?_⟩, h.threads,
    h.owner.setBump hpc _ _, ?_⟩
  · rw [Nat.succ_mul, ← hbump]
  · refine h.lists.placed.move (a := .virgin) (b := .live) (by simp) hx ?_ ?_ ?_
    · intro y
      simp only [PageSys.At]
      refine ⟨fun hy => ⟨⟨hy.1, by omega⟩, by omega⟩, fun hy => ⟨hy.1.1, ?_⟩⟩
      -- two slots are a slot size apart
      rcases slotList_apart (h.lists.placed.mem hx) hy.1.1 (Ne.symm hy.2) with ha | ha
      · omega
      · have := hy.1.2
        omega
    · intro y
      simp only [PageSys.At, List.mem_cons]
      tauto
    · intro c hca hcb y
      cases c with
      | live => exact absurd rfl hcb
      | virgin => exact absurd rfl hca
      | pushing t' => cases t' <;> simp only [PageSys.At]
      | onRemote | onWalk | onLocal => simp only [PageSys.At]
  · intro y hy
    simp only [List.mem_cons, not_or]
    refine ⟨?_, h.lists.taking_new y hy⟩
    rintro rfl
    exact hfresh.2 hy
  · intro a h₁ h₂
    exact h.lists.virgin a (by dsimp only at h₁; omega) h₂
  · obtain ⟨h₁, h₂, h₃, h₄, h₅, h₆⟩ := h.owing
    refine ⟨Nat.mod_lt _ (by decide), h₂, h₃, ?_, h₅, h₆⟩
    simp only [List.length_cons]
    omega

end Conserved

namespace Conserved

/-- A page no slot of which was ever taken. -/
theorem fresh (g : Geom r σ.page) (hb : σ.page.bumpOffset = 0) (hl : σ.page.localFree = 0)
    (hlc : σ.page.localFreeCount = 0) (hr : σ.page.remoteFree = 0)
    (hrc : σ.page.remoteFreeCount = 0)
    (hu : σ.page.used = 0) (hz : ∀ y, r.start ≤ y → y < r.start + 65536 → σ.mem y = 0)
    (hown : σ.owner = .idle) (hthr : ∀ t, σ.threads t = none) (hlive : σ.live = [])
    (hlog : σ.log = []) : Conserved r σ.page σ [] [] := by
  have hcalls : callsOf σ.threads = 0 ∧ uncountedOf σ.threads = 0 := by
    simp [callsOf, uncountedOf, hthr, FreeRemotePc.owesUsed, FreeRemotePc.owesCount]
  refine ⟨⟨.refl _, ⟨0, Nat.zero_le _, by rw [hb, Nat.zero_mul]⟩, ?_, ?_, ?_, ?_, ?_,
    Or.inl rfl, ?_⟩,
    ?_, ?_, ?_⟩
  · have : Nonempty (Place n) := ⟨.live⟩
    -- every slot is virgin
    have hat : ∀ pl y, σ.At r σ.page [] [] pl y → pl = .virgin ∧ IsSlot r σ.page y := by
      intro pl y hy
      cases pl with
      | pushing t => cases t <;> simp [PageSys.At, hown, hthr, OwnerPc.freeing] at hy
      | virgin => exact ⟨rfl, hy.1⟩
      | live | onRemote | onWalk | onLocal =>
        simp [PageSys.At, hlive, hlog, hown, OwnerPc.taking, pushedSince] at hy
    refine Placed.of_unique (fun pl y hy => (hat pl y hy).2) (fun y hy => ⟨.virgin, hy, ?_⟩)
      fun pl pl' y hy hy' => ?_
    · have := (isSlot_bounds g hy).1
      rw [hb]
      omega
    · rw [(hat pl y hy).1, (hat pl' y hy').1]
  · rw [hlive]
    exact List.nodup_nil
  · intro y hy
    rw [hown] at hy
    exact absurd hy (by simp [OwnerPc.taking])
  · rw [hl]
    exact ptr_eq_none.mpr rfl
  · rw [hr, hlog]
    exact ptr_eq_none.mpr rfl
  · intro y h₁ h₂
    exact hz y (by omega) h₂
  · intro t y old ht
    rw [hthr] at ht
    cases ht
  · rw [hown]
    rfl
  · rw [hcalls.1, hcalls.2, hown, hlive, hlog]
    refine ⟨by omega, by omega, by omega, ?_, ?_, ?_⟩ <;>
      simp only [OwnerPc.owesUsed, OwnerPc.settling, OwnerPc.owesLocal, OwnerPc.popped,
        List.length_nil, pushedSince] <;> omega

end Conserved

/-! ## Where the machines write -/

theorem popStep_mem (s : Cell) (pc : PopPc) : (popStep s pc).1.mem = s.mem := by
  cases pc <;> rfl

theorem bumpStep_mem (s : Cell) (pc : BumpPc) : (bumpStep s pc).1.mem = s.mem := by
  cases pc <;> rfl

theorem collectStep_mem (spurious : Bool) (s : Cell) (pc : CollectPc) :
    (collectStep spurious s pc).1.mem = s.mem ∨
      ∃ list tail count head, pc = .splice list tail count head ∧
        (collectStep spurious s pc).1.mem = writeWord s.mem tail head := by
  cases pc with
  | load => exact Or.inl (by simp only [collectStep]; split <;> rfl)
  | cas old => exact Or.inl (by simp only [collectStep]; split <;> rfl)
  | walk list current count => exact Or.inl (by simp only [collectStep]; split <;> rfl)
  | splice list tail count head => exact Or.inr ⟨list, tail, count, head, rfl, rfl⟩
  | rest | head | count | recount | settle => exact Or.inl rfl

theorem allocStep_mem (spurious : Bool) (s : Cell) (pc : AllocPc) :
    (allocStep spurious s pc).1.mem = s.mem ∨
      ∃ list tail count head, pc = .collect (.splice list tail count head) ∧
        (allocStep spurious s pc).1.mem = writeWord s.mem tail head := by
  cases pc with
  | test | bumpTest | retest => exact Or.inl rfl
  | pop pc => exact Or.inl (popStep_mem s pc)
  | bump pc => exact Or.inl (bumpStep_mem s pc)
  | collect pc =>
    rcases collectStep_mem spurious s pc with h | ⟨list, tail, count, head, rfl, h⟩
    · exact Or.inl h
    · exact Or.inr ⟨list, tail, count, head, rfl, h⟩

theorem freeLocalStep_mem (s : Cell) (pc : FreeLocalPc) :
    (freeLocalStep s pc).1.mem = s.mem ∨
      ∃ x head, pc = .link x head ∧ (freeLocalStep s pc).1.mem = writeWord s.mem x head := by
  cases pc with
  | link x head => exact Or.inr ⟨x, head, rfl, rfl⟩
  | load | head | count | recount | used => exact Or.inl rfl

theorem freeRemoteStep_mem (spurious : Bool) (s : Cell) (pc : FreeRemotePc) :
    (freeRemoteStep spurious s pc).1.mem = s.mem ∨
      ∃ x old, pc = .link x old ∧
        (freeRemoteStep spurious s pc).1.mem = writeWord s.mem x (taggedPtr old) := by
  cases pc with
  | link x old => exact Or.inr ⟨x, old, rfl, rfl⟩
  | cas x old => exact Or.inl (by simp only [freeRemoteStep]; split <;> rfl)
  | load | count | used => exact Or.inl rfl

/-- Memory changed inside slots of the page that no client holds or is being handed. -/
def Touches (r : PageRef) (p₀ : PageMeta) (σ : PageSys n) (m : Mem) : Prop :=
  ∀ a, m a ≠ σ.mem a → ∃ y, IsSlot r p₀ y ∧ y ∉ σ.live ∧ σ.owner.taking ≠ some y ∧
    y ≤ a ∧ a < y + p₀.slotSize

theorem Touches.same (h : σ'.mem = σ.mem) : Touches r p₀ σ σ'.mem :=
  fun a ha => absurd (congrFun h a) ha

namespace Conserved

/-- A link is written into a slot that is not live. -/
theorem touches_word (g : Geom r p₀) (h : Conserved r p₀ σ loc walk) {pl : Place n} {v : Nat}
    (hx : σ.At r p₀ loc walk pl x) (hpl : pl ≠ .live) : Touches r p₀ σ (writeWord σ.mem x v) := by
  intro a ha
  have hno : ¬ σ.At r p₀ loc walk .live x := fun hl => hpl (h.lists.placed.only hx hl)
  refine ⟨x, h.lists.placed.mem hx, (not_or.mp hno).1, (not_or.mp hno).2, ?_⟩
  by_contra hc
  exact ha (writeWord_touch g σ.mem x v a hc)

/-- A step of the fast path. -/
theorem alloc_touches (g : Geom r p₀) (h : Conserved r p₀ σ loc walk) (spurious : Bool)
    {pc : AllocPc}
    (hpc : σ.owner = .alloc pc) : Touches r p₀ σ (allocStep spurious σ.toCell pc).1.mem := by
  rcases allocStep_mem spurious σ.toCell pc with hm | ⟨list, tail, count, head, rfl, hm⟩
  · rw [hm]
    exact Touches.same rfl
  · rw [hm]
    have hok := h.owner
    rw [hpc] at hok
    obtain ⟨-, ⟨pre, hwalk⟩, -⟩ := hok
    have htail : σ.At r p₀ loc walk .onWalk tail := by
      show tail ∈ walk
      rw [hwalk]
      simp
    exact h.touches_word g htail (by simp)

/-- A step of a local free. -/
theorem freeLocal_touches (g : Geom r p₀) (h : Conserved r p₀ σ loc walk) {pc : FreeLocalPc}
    (hpc : σ.owner = .free pc) : Touches r p₀ σ (CustomMalloc.freeLocalStep σ.toCell pc).1.mem := by
  rcases freeLocalStep_mem σ.toCell pc with hm | ⟨x, head, rfl, hm⟩
  · rw [hm]
    exact Touches.same rfl
  · rw [hm]
    have hx : σ.At r p₀ loc walk (.pushing none) x := by
      show σ.owner.freeing = some x
      rw [hpc]
      rfl
    exact h.touches_word g hx (by simp)

/-- A step of a remote free. -/
theorem freeRemote_touches (g : Geom r p₀) (h : Conserved r p₀ σ loc walk) (spurious : Bool)
    {pc : FreeRemotePc} (hpc : σ.threads t = some pc) :
    Touches r p₀ σ (CustomMalloc.freeRemoteStep spurious σ.toCell pc).1.mem := by
  rcases freeRemoteStep_mem spurious σ.toCell pc with hm | ⟨x, old, rfl, hm⟩
  · rw [hm]
    exact Touches.same rfl
  · rw [hm]
    exact h.touches_word g (at_pushing hpc rfl) (by simp)

end Conserved

/-! ## `used` lagging behind -/

def PageMeta.plus (p : PageMeta) (k : Nat) : PageMeta := { p with used := (p.used + k) % 2 ^ 16 }

/-- The cell with `k` more slots in use. -/
def Cell.plus (s : Cell) (k : Nat) : Cell := ⟨s.mem, s.page.plus k⟩

theorem plus_add (p : PageMeta) (k : Nat) :
    ({ p with used := (p.used + 1) % 2 ^ 16 } : PageMeta).plus k =
      { p.plus k with used := ((p.plus k).used + 1) % 2 ^ 16 } := by
  have : ((p.used + 1) % 2 ^ 16 + k) % 2 ^ 16 = ((p.used + k) % 2 ^ 16 + 1) % 2 ^ 16 := by omega
  unfold PageMeta.plus
  simp only [this]

theorem plus_sub (p : PageMeta) (k : Nat) (hu : p.used < 2 ^ 16) :
    ({ p with used := sub16 p.used 1 } : PageMeta).plus k =
      { p.plus k with used := sub16 (p.plus k).used 1 } := by
  have hp : (p.used + k) % 2 ^ 16 < 2 ^ 16 := Nat.mod_lt _ (by decide)
  have : (sub16 p.used 1 + k) % 2 ^ 16 = sub16 ((p.used + k) % 2 ^ 16) 1 := by
    rw [sub16_eq_mod hu (by decide), sub16_eq_mod hp (by decide)]
    omega
  unfold PageMeta.plus
  simp only [this]

theorem popStep_plus (s : Cell) (k : Nat) (pc : PopPc) :
    popStep (s.plus k) pc = ((popStep s pc).1.plus k, (popStep s pc).2) := by
  cases pc with
  | used slot => exact congrArg (fun p => ((⟨s.mem, p⟩ : Cell), _)) (plus_add s.page k).symm
  | head | read | unlink | count | recount => rfl

theorem bumpStep_plus (s : Cell) (k : Nat) (pc : BumpPc) :
    bumpStep (s.plus k) pc = ((bumpStep s pc).1.plus k, (bumpStep s pc).2) := by
  cases pc with
  | used slot => exact congrArg (fun p => ((⟨s.mem, p⟩ : Cell), _)) (plus_add s.page k).symm
  | read | load | store => rfl

theorem collectStep_plus (spurious : Bool) (s : Cell) (k : Nat) (pc : CollectPc) :
    collectStep spurious (s.plus k) pc =
      ((collectStep spurious s pc).1.plus k, (collectStep spurious s pc).2) := by
  cases pc with
  | load =>
    show (if taggedPtr s.page.remoteFree = 0 then _ else _) = _
    simp only [collectStep]
    split <;> rfl
  | cas old =>
    show (if spurious = false ∧ s.page.remoteFree = old then _ else _) = _
    simp only [collectStep]
    split <;> rfl
  | walk list current count =>
    by_cases h0 : readWord s.mem current = 0
    · rw [collectStep_walked s spurious list count h0,
        collectStep_walked (s.plus k) spurious list count h0]
    · rw [collectStep_walk s spurious list count h0,
        collectStep_walk (s.plus k) spurious list count h0]
      rfl
  | rest | splice | head | count | recount | settle => rfl

theorem allocStep_plus (spurious : Bool) (s : Cell) (k : Nat) (pc : AllocPc) :
    allocStep spurious (s.plus k) pc =
      ((allocStep spurious s pc).1.plus k, (allocStep spurious s pc).2) := by
  cases pc with
  | test | bumpTest | retest => rfl
  | pop pc => simp only [allocStep, popStep_plus]
  | bump pc => simp only [allocStep, bumpStep_plus]
  | collect pc => simp only [allocStep, collectStep_plus]

theorem freeLocalStep_plus (s : Cell) (k : Nat) (hu : s.page.used < 2 ^ 16) (pc : FreeLocalPc) :
    freeLocalStep (s.plus k) pc = ((freeLocalStep s pc).1.plus k, (freeLocalStep s pc).2) := by
  cases pc with
  | used => exact congrArg (fun p => ((⟨s.mem, p⟩ : Cell), _)) (plus_sub s.page k hu).symm
  | load | link | head | count | recount => rfl

theorem freeRemoteStep_plus (spurious : Bool) (s : Cell) (k : Nat) (hu : s.page.used < 2 ^ 16)
    (pc : FreeRemotePc) :
    freeRemoteStep spurious (s.plus k) pc =
      ((freeRemoteStep spurious s pc).1.plus k, (freeRemoteStep spurious s pc).2) := by
  cases pc with
  | used => exact congrArg (fun p => ((⟨s.mem, p⟩ : Cell), _)) (plus_sub s.page k hu).symm
  | cas x old =>
    show (if spurious = false ∧ s.page.remoteFree = old then _ else _) = _
    simp only [freeRemoteStep]
    split <;> rfl
  | load | link | count => rfl

end CustomMalloc

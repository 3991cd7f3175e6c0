import CustomMalloc.Concurrent.OwnerSteps
import CustomMalloc.Inv.Page

/-!
# Remote frees are neither lost nor duplicated

From any page at rest, whatever the owner and the other threads do, each slot is in exactly
one place at every moment, a collect takes exactly the slots pushed since the previous one,
and when all calls have returned the page is at rest again: its counters are the lengths of
its lists (`Conserved.slots` gives back the whole-call invariant).
-/

namespace CustomMalloc

open Lib.Words Lib.Bytes Lib.Chain Lib.Interleave Lib.Places

variable {n : Nat} {r : PageRef} {p₀ : PageMeta} {σ σ₀ : PageSys n} {loc walk : List Nat}
  {x k : Nat}

/-- No call is in progress. -/
def PageSys.Quiet (σ : PageSys n) : Prop := σ.owner = .idle ∧ ∀ t, σ.threads t = none

/-- A page at rest, with addresses that fit beside a tag. -/
structure PageSys.AtRest (r : PageRef) (σ : PageSys n) : Prop where
  quiet : σ.Quiet
  geom : Geom r σ.page
  low : r.start + 65536 ≤ 2 ^ 48
  slots : ∃ k loc, Slots σ.mem r σ.page k loc (pushedSince σ.log) σ.live

/-- The slots handed out at least once are the ones below the bump offset. -/
theorem mem_carved (g : Geom r p₀) (hk : k ≤ p₀.capacity) :
    x ∈ slotList r p₀ k ↔ IsSlot r p₀ x ∧ x < r.start + k * p₀.slotSize := by
  have hge := g.slot_ge
  unfold IsSlot
  rw [mem_slotList, mem_slotList]
  constructor
  · intro hx
    obtain ⟨i, hi, rfl⟩ := hx
    refine ⟨⟨i, by omega, rfl⟩, ?_⟩
    have := Nat.mul_lt_mul_of_pos_right hi (show 0 < p₀.slotSize by omega)
    unfold slotAt
    omega
  · intro hx
    obtain ⟨⟨i, -, rfl⟩, hlt⟩ := hx
    refine ⟨i, ?_, rfl⟩
    unfold slotAt at hlt
    exact Nat.lt_of_mul_lt_mul_right (show i * p₀.slotSize < k * p₀.slotSize by omega)

/-! ## From rest and back to rest -/

/-- A page at rest satisfies the invariant. -/
theorem PageSys.AtRest.conserved (h : σ.AtRest r) : ∃ loc, Conserved r σ.page σ loc [] := by
  obtain ⟨⟨hown, hthr⟩, g, hlow, k, loc, hs⟩ := h
  obtain ⟨hlr, hlive, hdis⟩ := List.nodup_append.mp (hs.parts_nodup g)
  obtain ⟨-, -, hdis'⟩ := List.nodup_append.mp hlr
  have hcarved : ∀ y, y ∈ loc ∨ y ∈ pushedSince σ.log ∨ y ∈ σ.live ↔
      IsSlot r σ.page y ∧ y < r.start + σ.page.bumpOffset := by
    intro y
    rw [← hs.mem_parts, mem_carved g hs.carved_le, hs.bump_eq]
  have hcalls : callsOf σ.threads = 0 ∧ uncountedOf σ.threads = 0 := by
    simp [callsOf, uncountedOf, hthr, FreeRemotePc.owesUsed, FreeRemotePc.owesCount]
  refine ⟨loc, ⟨⟨.refl _, ⟨k, hs.carved_le, hs.bump_eq⟩, ?_, hlive, fun y hy => ?_, hs.local_linked,
    hs.remote_linked, Or.inl rfl, hs.virgin⟩, fun t y old ht => ?_, ?_, ?_⟩⟩
  · have : Nonempty (Place n) := ⟨.live⟩
    -- at rest only four places are taken
    have hat : ∀ pl y, σ.At r σ.page loc [] pl y → (pl = .live ∧ y ∈ σ.live) ∨
        (pl = .onRemote ∧ y ∈ pushedSince σ.log) ∨ (pl = .onLocal ∧ y ∈ loc) ∨
        (pl = .virgin ∧ IsSlot r σ.page y ∧ r.start + σ.page.bumpOffset ≤ y) := by
      intro pl y hy
      cases pl with
      | pushing t => cases t <;> simp [PageSys.At, hown, hthr, OwnerPc.freeing] at hy
      | live | onRemote | onWalk | onLocal | virgin => simp_all [PageSys.At, OwnerPc.taking]
    apply Placed.of_unique
    · intro pl y hy
      have := hcarved y
      rcases hat pl y hy with h | h | h | h <;> tauto
    · intro y hy
      have := hcarved y
      by_cases hlt : y < r.start + σ.page.bumpOffset
      · rcases this.mpr ⟨hy, hlt⟩ with h | h | h
        · exact ⟨.onLocal, h⟩
        · exact ⟨.onRemote, h⟩
        · exact ⟨.live, Or.inl h⟩
      · exact ⟨.virgin, hy, by omega⟩
    · intro pl pl' y hy hy'
      have hcy := hcarved y
      have h₁ : y ∈ loc → y ∉ σ.live := fun h h' => hdis y (List.mem_append_left _ h) y h' rfl
      have h₂ : y ∈ pushedSince σ.log → y ∉ σ.live := fun h h' =>
        hdis y (List.mem_append_right _ h) y h' rfl
      have h₃ : y ∈ loc → y ∉ pushedSince σ.log := fun h h' => hdis' y h y h' rfl
      have h₄ : r.start + σ.page.bumpOffset ≤ y → ¬ y < r.start + σ.page.bumpOffset := by omega
      have hy₁ := hat pl y hy
      have hy₂ := hat pl' y hy'
      grind
  · rw [hown] at hy
    exact absurd hy (by simp [OwnerPc.taking])
  · rw [hthr] at ht
    cases ht
  · rw [hown]
    rfl
  · obtain ⟨hlen, hk⟩ := hs.length_le g
    rw [hcalls.1, hcalls.2, hown]
    have h₁ := hs.used_eq
    have h₂ := hs.remote_count
    have h₃ := hs.local_count
    refine ⟨by omega, by omega, by omega, ?_, ?_, ?_⟩ <;>
      simp only [OwnerPc.owesUsed, OwnerPc.settling, OwnerPc.owesLocal, OwnerPc.popped,
        List.length_nil] <;> omega

/-- When no call is in progress the page is divided as between two whole calls. -/
theorem Conserved.slots (g : Geom r p₀) (h : Conserved r p₀ σ loc walk) (hq : σ.Quiet) :
    ∃ k, Slots σ.mem r σ.page k loc (pushedSince σ.log) σ.live := by
  obtain ⟨hown, hthr⟩ := hq
  have hcalls : callsOf σ.threads = 0 ∧ uncountedOf σ.threads = 0 := by
    simp [callsOf, uncountedOf, hthr, FreeRemotePc.owesUsed, FreeRemotePc.owesCount]
  obtain rfl : walk = [] := by
    have hok := h.owner
    rwa [hown] at hok
  obtain ⟨k, hk, hbump⟩ := h.lists.carved
  have hshape := h.lists.shape
  have hpl := h.lists.placed
  have hat : ∀ y, σ.At r p₀ loc [] .live y ↔ y ∈ σ.live := by
    intro y
    simp only [PageSys.At, hown, OwnerPc.taking, reduceCtorEq, or_false]
  have hatLocal : ∀ y, y ∈ loc → σ.At r p₀ loc [] .onLocal y := fun _ hy => hy
  have hatRemote : ∀ y, y ∈ pushedSince σ.log → σ.At r p₀ loc [] .onRemote y := fun _ hy => hy
  -- the three lists are disjoint and make up the carved slots
  have hnd : (loc ++ pushedSince σ.log ++ σ.live).Nodup := by
    refine List.nodup_append.mpr ⟨List.nodup_append.mpr ⟨h.lists.local_linked.nodup,
      h.lists.stack_linked.nodup, ?_⟩, h.lists.live_nodup, ?_⟩
    · intro y hy z hz
      exact hpl.ne (hatLocal y hy) (hatRemote z hz) (by simp)
    · intro y hy z hz
      rcases List.mem_append.mp hy with hy | hy
      · exact hpl.ne (hatLocal y hy) ((hat z).mpr hz) (by simp)
      · exact hpl.ne (hatRemote y hy) ((hat z).mpr hz) (by simp)
  have hmem : ∀ y, y ∈ loc ++ pushedSince σ.log ++ σ.live ↔ y ∈ slotList r p₀ k := by
    intro y
    rw [mem_carved g hk, ← hbump]
    constructor
    · intro hy
      have hbelow : ∀ pl, pl ≠ .virgin → σ.At r p₀ loc [] pl y →
          IsSlot r p₀ y ∧ y < r.start + σ.page.bumpOffset := by
        intro pl hne hpy
        have := h.lists.below hpy hne
        have := g.slot_ge
        exact ⟨hpl.mem hpy, by omega⟩
      rcases List.mem_append.mp hy with hy | hy
      · rcases List.mem_append.mp hy with hy | hy
        · exact hbelow .onLocal (by simp) (hatLocal y hy)
        · exact hbelow .onRemote (by simp) (hatRemote y hy)
      · exact hbelow .live (by simp) ((hat y).mpr hy)
    · intro hy
      obtain ⟨pl, hpy, -⟩ := hpl.existsUnique hy.1
      cases pl with
      | live => exact List.mem_append_right _ ((hat y).mp hpy)
      | pushing t => cases t <;> simp [PageSys.At, hown, hthr, OwnerPc.freeing] at hpy
      | onRemote => exact List.mem_append_left _ (List.mem_append_right _ hpy)
      | onWalk => exact absurd hpy (by simp [PageSys.At])
      | onLocal => exact List.mem_append_left _ (List.mem_append_left _ hpy)
      | virgin => exact absurd hpy.2 (by omega)
  have hperm : (loc ++ pushedSince σ.log ++ σ.live).Perm (slotList r p₀ k) :=
    (List.perm_ext_iff_of_nodup hnd (g.slotList_nodup k)).mpr hmem
  have hlen := hperm.length_eq
  have hcap := g.cap_le
  simp only [slotList, List.length_append, List.length_map, List.length_range] at hlen
  obtain ⟨h₁, h₂, h₃, h₄, h₅, h₆⟩ := h.owing
  rw [hcalls.1, hown] at h₄
  rw [hcalls.2, hown] at h₅
  rw [hown] at h₆
  simp only [OwnerPc.owesUsed, OwnerPc.settling, OwnerPc.owesLocal, OwnerPc.popped,
    List.length_nil] at h₄ h₅ h₆
  refine ⟨k, ?_, ?_, h.lists.local_linked, h.lists.stack_linked, ?_, by omega, by omega, by omega,
    h.lists.virgin⟩
  · rw [hbump, hshape.slotSize]
  · rw [hshape.capacity]
    exact hk
  · rw [slotList_congr hshape]
    exact hperm

/-! ## Every interleaving -/

/-- **Run lemma**: the invariant holds in every state of every interleaving. -/
theorem reaches_conserved (h₀ : σ₀.AtRest r) (h : Reaches PageSys.act (fun _ _ => True) σ₀ σ) :
    ∃ loc walk, Conserved r σ₀.page σ loc walk := by
  refine h.invariant (I := fun σ => ∃ loc walk, Conserved r σ₀.page σ loc walk) ?_ ?_
  · obtain ⟨loc, hc⟩ := h₀.conserved
    exact ⟨loc, [], hc⟩
  · intro s a s' hs _ he
    obtain ⟨loc, walk, hc⟩ := hs
    exact hc.act h₀.geom h₀.low he

/-- The list a collect has taken, and whether `local_free` hangs at its end already. -/
def CollectPc.chain : CollectPc → Option (Nat × Bool)
  | .walk list _ _ | .rest list _ _ | .splice list _ _ _ => some (list, false)
  | .head list _ => some (list, true)
  | _ => none

def OwnerPc.chain : OwnerPc → Option (Nat × Bool)
  | .alloc (.collect pc) | .collect pc => pc.chain
  | _ => none

/-- `walk` is the chain the owner is walking: the pushes since the previous collect, latest
first, linked in this order. -/
def PageSys.Walks (σ : PageSys n) (loc walk : List Nat) : Prop :=
  match σ.owner.chain with
  | none => walk = []
  | some (list, spliced) => walk = lastCollected σ.log ∧
    Linked (link σ.mem) (ptr list) (if spliced then walk ++ loc else walk)

theorem Conserved.walks (h : Conserved r p₀ σ loc walk) : σ.Walks loc walk := by
  have hok := h.owner
  have hcollect : ∀ pc : CollectPc, CollectOk σ.toCell loc walk pc →
      match pc.chain with
      | none => walk = []
      | some (list, spliced) => walk = lastCollected σ.log ∧
        Linked (link σ.mem) (ptr list) (if spliced then walk ++ loc else walk) := by
    intro pc hpc
    have hlast : walk ≠ [] → walk = lastCollected σ.log := h.lists.chain.resolve_left
    cases pc with
    | load => exact hpc
    | cas old => exact hpc.1
    | walk list current count =>
      obtain ⟨hl, pre, suf, rfl, -⟩ := hpc
      exact ⟨hlast (by simp), hl⟩
    | rest list tail count =>
      obtain ⟨hl, ⟨pre, rfl⟩, -⟩ := hpc
      exact ⟨hlast (by simp), hl⟩
    | splice list tail count head =>
      obtain ⟨hl, ⟨pre, rfl⟩, -⟩ := hpc
      exact ⟨hlast (by simp), hl⟩
    | head list count => exact ⟨hlast hpc.2.1, hpc.1⟩
    | count count => exact hpc.1
    | recount count k => exact hpc.1
    | settle count => exact hpc.1
  unfold PageSys.Walks
  cases hown : σ.owner with
  | idle => rw [hown] at hok; exact hok
  | alloc pc =>
    rw [hown] at hok
    cases pc with
    | test => exact hok
    | pop pc => exact hok.1
    | bumpTest => exact hok
    | bump pc => exact hok.1
    | collect pc => exact hcollect pc hok
    | retest => exact hok
  | collect pc => rw [hown] at hok; exact hcollect pc hok
  | free pc => rw [hown] at hok; exact hok.1

/-- In every interleaving, at every moment, each slot is in exactly one place, the lists are
intact, a collected chain is the pushes since the previous collect, and when no call is in
progress the counters are exact. -/
theorem remote_frees_exact (r : PageRef) (σ₀ σ : PageSys n) (h₀ : σ₀.AtRest r)
    (h : Reaches PageSys.act (fun _ _ => True) σ₀ σ) :
    ∃ loc walk,
      Linked (link σ.mem) (ptr σ.page.localFree) loc ∧
      Linked (link σ.mem) (ptr (taggedPtr σ.page.remoteFree)) (pushedSince σ.log) ∧
      σ.Walks loc walk ∧
      (∀ x, IsSlot r σ₀.page x → ∃! pl, σ.At r σ₀.page loc walk pl x) ∧
      (σ.Quiet → σ.page.used = σ.live.length ∧
        σ.page.remoteFreeCount = (pushedSince σ.log).length) := by
  obtain ⟨loc, walk, hc⟩ := reaches_conserved h₀ h
  refine ⟨loc, walk, hc.lists.local_linked, hc.lists.stack_linked, hc.walks, ?_, ?_⟩
  · intro x hx
    exact hc.lists.placed.existsUnique hx
  · intro hq
    obtain ⟨k, hs⟩ := hc.slots h₀.geom hq
    exact ⟨hs.used_eq, hs.remote_count⟩

/-- A fresh page of 32 KB slots, with two threads beside the owner. -/
def pairPage : PageSys 2 :=
  { mem := fun _ => 0
    page := pageInit {} 0x400000 0 1 62 (binToSize sizeTables 62)
    live := []
    log := [] }

theorem pairPage_atRest : pairPage.AtRest ⟨0x400000, 1⟩ := by
  have hinv : PageInv false pairPage.mem ⟨0x400000, 1⟩ pairPage.page [] :=
    @PageInv.init ⟨0x400000, 1⟩ _ _ {} 0 62 (by decide) (by decide +kernel) (by decide) (by decide)
      (by decide) fun _ _ _ => rfl
  obtain ⟨k, loc, rem, hs⟩ := hinv.slots
  obtain rfl : rem = [] := hs.remote_linked.unique (ptr_eq_none.mpr rfl)
  exact ⟨⟨rfl, fun _ => rfl⟩, hinv.geom, by decide, k, loc, hs⟩

/-- The owner takes both slots; two threads free them, the second one losing the race for
the head once; the owner collects and takes a slot again before either thread has updated a
counter. -/
def raceForHead : List (PageAct 2) :=
  let alloc := PageAct.alloc :: List.replicate 6 (.own false)
  alloc ++ alloc ++
    [.push 0 0x410000, .push 1 0x417ED0, .thread 0 false, .thread 1 false, .thread 0 false,
      .thread 1 false, .thread 0 false, .thread 1 false, .thread 1 false, .thread 1 false,
      .thread 1 true, .thread 1 false, .thread 1 false, .thread 1 false] ++
    PageAct.alloc :: List.replicate 19 (.own false)

theorem remote_frees_exact_race :
    ∃ σ, replay PageSys.act (fun _ _ => true) pairPage raceForHead = some σ ∧
      σ.live = [0x417ED0] ∧ σ.page.used = 3 ∧ σ.page.remoteFreeCount = 65534 ∧
      ∃ loc walk, σ.Walks loc walk ∧
        ∃! pl, σ.At ⟨0x400000, 1⟩ pairPage.page loc walk pl 0x417ED0 := by
  have hend : (replay PageSys.act (fun _ _ => true) pairPage raceForHead).map
      (fun σ => (σ.live, σ.page.used, σ.page.remoteFreeCount)) = some ([0x417ED0], 3, 65534) := by
    decide +kernel
  obtain ⟨σ, hσ, hend⟩ := Option.map_eq_some_iff.mp hend
  obtain ⟨hlive, hused, hremote⟩ : σ.live = [0x417ED0] ∧ σ.page.used = 3 ∧
    σ.page.remoteFreeCount = 65534 := by simpa using hend
  have hreach := reaches_of_replay (P := fun _ _ => True) (fun _ _ _ => trivial) .init hσ
  obtain ⟨loc, walk, -, -, hwalks, hplace, -⟩ :=
    remote_frees_exact ⟨0x400000, 1⟩ pairPage σ pairPage_atRest hreach
  exact ⟨σ, hσ, hlive, hused, hremote, loc, walk, hwalks,
    hplace 0x417ED0 (mem_slotList.mpr ⟨1, by decide +kernel, by decide +kernel⟩)⟩

end CustomMalloc

import CustomMalloc.Run

/-!
# Live blocks do not overlap

In every run without a wrapped size and without zero-size aligned requests, each
pointer the clients hold is 16-byte aligned, its block has room for the request
and lies inside one slot of a data page or inside its large mapping after the
header, and it meets no other held block and no header.
-/

namespace CustomMalloc

open Lib.Words Lib.Bytes Lib.Chain Lib.Intervals Lib.Regions Lib.Post

variable {c : Cfg} {σ : Sys} {s : State} {G : Ghost}

/-- The ranges `[p, p + n)` and `[q, q + k)` have no byte in common. -/
def Apart (p n q k : Nat) : Prop := p + n ≤ q ∨ q + k ≤ p

/-- Where the `k` bytes at `p` lie: they are a slot of a data page, or they are in a
large mapping after its header. -/
inductive Placed (s : State) (p k : Nat) : Prop
  | slot (r : PageRef) (i : Nat) (hd : IsData s.segs r) (hact : (s.pages r).state = .active)
      (hi : i < (s.pages r).capacity) (hp : p = r.start + i * (s.pages r).slotSize)
      (hk : k = (s.pages r).slotSize) (hfit : p + k ≤ r.start + 65536)
  | large (b : Nat) (la : LargeAlloc) (hl : s.larges b = some la) (hp : b + 48 ≤ p)
      (hk : k = la.userSize) (hfit : p + k ≤ b + la.size)

/-- A block for a request of `n` bytes. -/
structure WellPlaced (s : State) (p n : Nat) : Prop where
  aligned : 16 ∣ p
  nonnull : p ≠ 0
  block : ∃ k, Block s p k ∧ n ≤ k ∧ Placed s p k ∧
    (∀ b, (s.segs b).isSome → Apart p k b 65536) ∧ (∀ b, (s.larges b).isSome → Apart p k b 48)

theorem Inv.placed (h : Inv c s G) {p k : Nat} (hb : Blk s G p k) : Placed s p k := by
  rcases h.blk_cases hb with ⟨r, hp, hd, hinv, rfl⟩ | ⟨b, la, hl, hok, rfl, rfl⟩
  · obtain ⟨-, b₂, -⟩ := hinv.busy_in hp
    obtain ⟨i, hi, rfl⟩ := hinv.busy_slot hp
    exact .slot r i hd hinv.geom.active hi rfl rfl b₂
  · exact .large b la hl hok.ptr_ge rfl hok.fits

/-- No block meets the header page of a segment. -/
theorem Inv.apart_segment (h : Inv c s G) {p k b : Nat} (hb : Blk s G p k)
    (hs : (s.segs b).isSome) : Apart p k b 65536 := by
  have hhead : InRegion c s (.seg b) b 65536 :=
    ⟨⟨hs, by omega, by omega⟩, fun y _ _ => ⟨hs, by omega, by omega⟩⟩
  rcases h.blk_cases hb with ⟨r, hp, hd, hinv, rfl⟩ | ⟨b', la, hl, hok, rfl, rfl⟩
  · by_cases hrb : r.seg = b
    · obtain ⟨b₁, -, -⟩ := hinv.busy_in hp
      have := hd.2.1
      unfold PageRef.start at b₁
      exact Or.inr (by omega)
    · exact (h.apart_of_regions (by simpa using hrb) (h.slab_region hp) hhead).2
  · exact (h.apart_of_regions (by simp) (hok.region hl) hhead).2

/-- No block meets a large header. -/
theorem Inv.apart_header (h : Inv c s G) {p k b : Nat} (hb : Blk s G p k)
    (hs : (s.larges b).isSome) : Apart p k b 48 := by
  obtain ⟨la, hla⟩ := Option.isSome_iff_exists.mp hs
  have hok := h.larges.each hla
  have hge := hok.ptr_ge
  have hlt := hok.ptr_lt
  have hhead : InRegion c s (.large b) b 48 :=
    ⟨⟨la, hla, by omega, by omega⟩, fun y _ _ => ⟨la, hla, by omega, by omega⟩⟩
  rcases h.blk_cases hb with ⟨r, hp, hd, hinv, rfl⟩ | ⟨b', la', hl', hok', rfl, rfl⟩
  · exact (h.apart_of_regions (by simp) (h.slab_region hp) hhead).2
  · by_cases hbb : b' = b
    · subst hbb
      exact Or.inr hok'.ptr_ge
    · exact (h.apart_of_regions (by simpa using hbb) (hok'.region hl') hhead).2

theorem Holds.wellPlaced (h : Holds c σ G) {x : Nat × Nat} (hx : x ∈ σ.live) :
    WellPlaced σ.heap x.1 x.2 := by
  obtain ⟨k, hk, hb⟩ := h.blk x hx
  obtain ⟨hal, hpos⟩ := h.inv.blk_align hb
  exact ⟨hal, Nat.ne_of_gt hpos, k, hb.block h.inv, hk, h.inv.placed hb,
    fun _ hs => h.inv.apart_segment hb hs, fun _ hs => h.inv.apart_header hb hs⟩

/-- Two held blocks do not overlap. -/
theorem Holds.apart (h : Holds c σ G) {x y : Nat × Nat} {j k : Nat} (hx : x ∈ σ.live)
    (hy : y ∈ σ.live) (hne : x.1 ≠ y.1) (hj : Block σ.heap x.1 j) (hk : Block σ.heap y.1 k) :
    Apart x.1 j y.1 k := by
  obtain ⟨j', -, hbx⟩ := h.blk x hx
  obtain ⟨k', -, hby⟩ := h.blk y hy
  rw [h.inv.block_eq hbx hj, h.inv.block_eq hby hk]
  rcases h.inv.blk_apart hbx hby with ⟨he, -⟩ | ⟨-, ha⟩
  · exact absurd he hne
  · exact ha

/-- The calls of these runs: nothing wraps, and aligned requests are for at least one
byte. -/
def PositiveCall (c : Cfg) (_ : Sys) (op : Op) : Prop :=
  op.NoWrap c ∧ ∀ alignment size, op = .memalign alignment size → 1 ≤ size

theorem PositiveCall.safe {op : Op} (h : PositiveCall c σ op) : op.Safe c := by
  refine ⟨h.1, ?_⟩
  cases op with
  | memalign alignment size => exact Or.inl (h.2 alignment size rfl)
  | malloc => trivial
  | calloc => trivial
  | realloc => trivial
  | free => trivial

/-- No two live blocks ever overlap, and what a call returns is a well-placed block
for its request. -/
theorem live_blocks_disjoint (c : Cfg) (σ : Sys) (h : Reachable c (PositiveCall c) σ) :
    (∀ x ∈ σ.live, WellPlaced σ.heap x.1 x.2) ∧
    (∀ x ∈ σ.live, ∀ y ∈ σ.live, x ≠ y → ∀ j k, Block σ.heap x.1 j → Block σ.heap y.1 k →
      x.1 ≠ y.1 ∧ Apart x.1 j y.1 k) ∧
    ∀ t op ans q σ', op.Low σ.heap → op.Legal σ.live → PositiveCall c σ op →
      σ.call c t op ans = .ok (q, σ') → q ≠ 0 →
      (q, op.request) ∈ σ'.live ∧ WellPlaced σ'.heap q op.request ∧
        ∀ y ∈ σ'.live, y ≠ (q, op.request) → ∀ j k, Block σ'.heap q j → Block σ'.heap y.1 k →
          Apart q j y.1 k := by
  -- held pointers are distinct, so different entries are different pointers
  have hdistinct : ∀ {σ : Sys} {G : Ghost}, Holds c σ G → ∀ {x y}, x ∈ σ.live → y ∈ σ.live →
      x ≠ y → x.1 ≠ y.1 :=
    fun hh _ _ hx hy hne he => hne (List.inj_on_of_nodup_map hh.nodup hx hy he)
  have hsafe : ∀ σ op, PositiveCall c σ op → op.Safe c := fun _ _ hp => hp.safe
  obtain ⟨G, hh⟩ := reachable_holds hsafe h
  refine ⟨fun x hx => hh.wellPlaced hx, fun x hx y hy hne j k hj hk => ?_,
    fun t op ans q σ' hlow hlegal hP he hq => ?_⟩
  · have hne' := hdistinct hh hx hy hne
    exact ⟨hne', hh.apart hx hy hne' hj hk⟩
  · obtain ⟨G', hh'⟩ := step_holds hsafe ⟨G, hh⟩ (.call t op ans q hlow hlegal hP he)
    have hmem := Sys.request_mem he hq
    exact ⟨hmem, hh'.wellPlaced hmem,
      fun y hy hne j k hj hk => hh'.apart hmem hy (hdistinct hh' hmem hy hne.symm) hj hk⟩

/-- Two threads, one slab block and one large block. -/
theorem live_blocks_disjoint_two_threads :
    ∃ σ, Reachable (.page4k false) (PositiveCall (.page4k false)) σ ∧
      σ.live = [(0x30000030, 200000), (0x20010000, 100)] ∧ WellPlaced σ.heap 0x20010000 100 ∧
      WellPlaced σ.heap 0x30000030 200000 := by
  have h₁ : Reachable (.page4k false) (PositiveCall (.page4k false))
    ((Sys.initial (.page4k false)).after
      (.page4k false) 0 (.malloc 100) [some 0x10000000, some 0x20000000]) :=
    Reachable.after .refl 0 (.malloc 100) _ trivial (by decide)
      ⟨largeFits_small (by decide), by simp⟩
  have h₂ := h₁.after 1 (.malloc 200000) [some 0x30000000] trivial (by decide)
    ⟨show LargeFits _ 200000 16 by decide, by simp⟩
  have hlive : (((Sys.initial (.page4k false)).after (.page4k false) 0 (.malloc 100)
      [some 0x10000000, some 0x20000000]).after (.page4k false) 1 (.malloc 200000)
      [some 0x30000000]).live = [(0x30000030, 200000), (0x20010000, 100)] := by decide +kernel
  have hp := (live_blocks_disjoint _ _ h₂).1
  rw [hlive] at hp
  exact ⟨_, h₂, hlive, hp (0x20010000, 100) (by simp), hp (0x30000030, 200000) (by simp)⟩

end CustomMalloc

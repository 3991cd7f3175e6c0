import CustomMalloc.Props.Retirement

/-!
# The `zeroed` flag and reused pages

`arena_alloc` and the bump branch of `slab_alloc_inner` report a slot as zero because
it lies above `bump_offset`, which `page_init` resets. For a page that was retired and
set up again this is a guess: `MADV_FREE` lets the kernel keep the old bytes. The flag
tells the truth as long as every page that is set up reads zero.
-/

namespace CustomMalloc

open Lib.Words Lib.Bytes Lib.Chain Lib.Intervals Lib.Post

variable {c : Cfg} {v : Bool} {σ σ' : Sys} {s s' : State} {G G' : Ghost}

/-- No size wraps, and the page that the arena would set up next reads zero. -/
def RetireOp.FreshPages (c : Cfg) (σ : Sys) : RetireOp → Prop
  | .call t (.alloc size) => LargeFits c size 16 ∧ ∀ a, UsesArena σ.heap t a → NextZero σ.heap a
  | .call _ (.free _) => True
  | .arenaAlloc a bin => binToSize sizeTables bin ≤ 32768 ∧ NextZero σ.heap a

theorem RetireOp.FreshPages.sound {op : RetireOp} (h : op.FreshPages c σ) :
    op.Sound false c σ := by
  cases op with
  | call t op =>
    cases op with
    | alloc size => exact ⟨h.1, fun _ => h.2⟩
    | free p => trivial
  | arenaAlloc a bin => exact ⟨h.1, fun _ => h.2⟩

/-! ## A page that comes back -/

/-- A client writes the ninth byte of a 16-byte slot. -/
def ninthWritten : Sys :=
  ((Sys.initial (.page4k false)).slabAfter (.page4k false) 0 (.alloc 16)
    [some 0x10000000, some 0x20000000]).poke 0x20010008 7

/-- The slot is given back and its page retired. -/
def ninthRetired : Sys :=
  (ninthWritten.slabAfter (.page4k false) 0 (.free 0x20010000) []).retire ⟨0x20000000, 1⟩

theorem RetireReachable.poke {P : Sys → RetireOp → Prop} (h : RetireReachable c P σ) (y : Nat)
    (b : UInt8) (hy : σ.InBlock y) : RetireReachable c P (σ.poke y b) := by
  refine h.tail (.write _ fun z hz => ?_)
  by_cases hzy : z = y
  · rw [hzy]
    exact hy
  · exact absurd (upd_ne hzy) hz

theorem ninthRetired_reachable {P : Sys → RetireOp → Prop}
    (h₁ : P (Sys.initial (.page4k false)) (.call 0 (.alloc 16)))
    (h₂ : P ninthWritten (.call 0 (.free 0x20010000))) :
    RetireReachable (.page4k false) P ninthRetired := by
  have hone : RetireReachable (.page4k false) P
      ((Sys.initial (.page4k false)).slabAfter (.page4k false) 0 (.alloc 16)
        [some 0x10000000, some 0x20000000]) :=
    RetireReachable.after .refl 0 (.alloc 16) _ trivial (by decide) h₁
  have hwrite := hone.poke 0x20010008 7 ⟨by decide +kernel, (0x20010000, 16), by decide +kernel,
    by decide, _, .slab ⟨0x20000000, 1⟩ ⟨by decide +kernel, by decide, by decide⟩
      (by decide +kernel) (by decide) (by decide), by decide +kernel⟩
  have hfree := hwrite.after 0 (.free 0x20010000) [] (fun _ _ _ _ => by decide)
    (by decide +kernel) h₂
  exact hfree.retire ⟨0x20000000, 1⟩ ⟨by decide +kernel, by decide, by decide⟩

/-- The kernel drops the retired page. -/
def ninthDropped : Sys := ninthRetired.dropPage ⟨0x20000000, 1⟩

theorem ninthDropped_nextZero {a : Nat} (ha : UsesArena ninthDropped.heap 0 a) :
    NextZero ninthDropped.heap a := by
  have harena : (ninthDropped.heap.tls 0).bind Tld.arena = some 0 := by decide +kernel
  obtain rfl := ha 0 harena
  have hnext : nextPage ninthDropped.heap 0 = some ⟨0x20000000, 1⟩ := by decide +kernel
  intro r hr _ y h₁ h₂
  cases hnext.symm.trans hr
  exact if_pos ⟨h₁, h₂⟩

/-! ## The flag -/

/-- `p` is a slot and all its bytes are zero. -/
def ZeroSlot (s : State) (p : Nat) : Prop :=
  ∃ r, SlotOf s r p ∧ ∀ y, p ≤ y → y < p + (s.pages r).slotSize → s.mem y = 0

/-- The flag is truthful as long as every page that is set up reads zero. -/
theorem zeroed_flag_truthful (c : Cfg) (σ : Sys) (ans : List (Option Nat))
    (h : RetireReachable c (fun σ op => op.FreshPages c σ) σ) :
    (∀ a bin slot zeroed s', bin < binCount → (RetireOp.arenaAlloc a bin).FreshPages c σ →
      arenaAlloc c (σ.heap.withAnswers ans) a bin = .ok ((slot, zeroed), s') → slot ≠ 0 →
      zeroed = true → ZeroSlot s' slot) ∧
    (∀ t size p zeroed s', (RetireOp.call t (.alloc size)).FreshPages c σ →
      slabAllocInner c (σ.heap.withAnswers ans) t size = .ok ((p, zeroed), s') → p ≠ 0 →
      zeroed = true → ZeroSlot s' p) := by
  obtain ⟨G, hh⟩ := retireReachable_holds (v := false) (fun σ op hop => hop.sound) h
  have hw := (hh.rested (hh.settled.withAnswers ans)).settled
  refine ⟨fun a bin slot zeroed s' hbin hfresh he h0 hz => ?_,
    fun t size p zeroed s' hfresh he h0 hz => ?_⟩
  · obtain ⟨r, hhand, hb, hzero⟩ := (hw.arenaAlloc hbin hfresh.1 (fun _ => hfresh.2) he).2 h0
    have hslot : SlotPost false c _ G 0 bin slot zeroed s' r := .ofSlow (.refl hw) hhand hb hzero
    exact ⟨r, hslot.handed.settled.slotOf (by simp [Ghost.take]), hslot.zero rfl hz⟩
  · have hpost := hw.slabAllocInner hfresh.1 (fun _ => hfresh.2) he
    by_cases hs : SlabSized (atLeastOne size)
    · obtain ⟨r, hslot⟩ := hpost.slab hs h0
      exact ⟨r, hslot.handed.settled.slotOf (by simp [Ghost.take]), hslot.zero rfl hz⟩
    · cases (hpost.large hs).1.symm.trans hz

/-- The page that was written, retired and dropped is set up again: its slot is zero, and the flag
says so. -/
theorem zeroed_flag_truthful_reused :
    ∃ s', slabAllocInner (.page4k false) (ninthDropped.heap.withAnswers []) 0 16 =
      .ok ((0x20010000, true), s') ∧ ZeroSlot s' 0x20010000 := by
  have he := eq_ok_of_returned (s := ninthDropped.heap) (e := slabAllocInner (.page4k false)
    (ninthDropped.heap.withAnswers []) 0 16) (a := (0x20010000, true)) (by decide +kernel)
  have hretired : RetireReachable (.page4k false) (fun σ op => op.FreshPages (.page4k false) σ)
      ninthRetired := by
    refine ninthRetired_reachable ⟨largeFits_small (by decide), fun a _ r _ hd => ?_⟩ trivial
    -- there are no pages yet
    exact absurd hd.1 (by simp [Sys.initial, State.initial])
  have hdropped : RetireReachable (.page4k false) (fun σ op => op.FreshPages (.page4k false) σ)
      ninthDropped :=
    hretired.dropPage (v := false) (fun _ _ hop => hop.sound) (by decide)
      ⟨by decide +kernel, by decide, by decide⟩ (by decide +kernel)
  exact ⟨_, he, (zeroed_flag_truthful (.page4k false) ninthDropped [] hdropped).2 0 16 0x20010000
    true _ ⟨largeFits_small (by decide), fun _ => ninthDropped_nextZero⟩ he (by decide) rfl⟩

/-! ## Old bytes -/

/-- What the next request for 16 bytes returns. -/
def ninthAgain : Option (Nat × Bool) × State :=
  returned ninthRetired.heap
    (slabAllocZeroed (.page4k false) (ninthRetired.heap.withAnswers []) 0 16)

/-- The slot comes back with the flag set and the old byte in it. -/
theorem zeroed_flag_old_byte :
    ∃ σ s' p r, RetireReachable (.page4k false) (fun _ _ => True) σ ∧
      slabAllocZeroed (.page4k false) (σ.heap.withAnswers []) 0 16 = .ok ((p, true), s') ∧
      SlotOf s' r p ∧ p + 8 < p + (s'.pages r).slotSize ∧ s'.mem (p + 8) ≠ 0 := by
  have hres : ninthAgain.1 = some (0x20010000, true) := by decide +kernel
  refine ⟨ninthRetired, ninthAgain.2, 0x20010000, ⟨0x20000000, 1⟩,
    ninthRetired_reachable trivial trivial,
    eq_ok_of_returned hres, ⟨⟨?_, by decide, by decide⟩, ?_, 0, ?_, ?_⟩, ?_, ?_⟩
  · decide +kernel
  · decide +kernel
  · decide +kernel
  · decide +kernel
  · decide +kernel
  · decide +kernel

end CustomMalloc

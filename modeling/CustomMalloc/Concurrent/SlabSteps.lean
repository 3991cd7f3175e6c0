import CustomMalloc.Concurrent.ArenaSteps

/-!
# Every step of overlapping slab calls

The remaining steps read, or write what only the thread itself looks at: its `tld_t`, an
arena's counters, a lock. With them every step of `SlabSys` keeps `SlabInv`, and so does
every run in which no thread starts to bump its own page while another one is about to bump
it under the arena's lock (`Orderly`).
-/

namespace CustomMalloc

open Lib.Words Lib.Bytes Lib.Chain Lib.Interleave Lib.Hands

variable {n : Nat} {c : Cfg} {σ σ' : SlabSys n} {r q : PageRef} {t u : Fin n} {x : Nat}
  {pc pc' : SlabPc}
  {spurious : Bool} {k : ArenaCall}

/-! ## Facts that survive -/

theorem CallOk.same (h : CallOk σ t k) (htls : σ'.heap.tls t = σ.heap.tls t) : CallOk σ' t k :=
  ⟨h.bin, h.arena_lt, by rw [htls]; exact h.attached⟩

theorem SlabSys.Listed.same (h : σ.Listed k r) (hs : SameMeta σ.heap σ'.heap) : σ'.Listed k r :=
  ⟨hs.active_iff.mpr h.active, by rw [hs.pages]; exact h.arena, by rw [hs.pages]; exact h.binIdx⟩

theorem SlabSys.Out.same (h : σ.Out r x) (hs : SameMeta σ.heap σ'.heap) (hheld : σ'.held = σ.held) :
    σ'.Out r x :=
  ⟨hs.active_iff.mpr h.1, by rw [hheld]; exact h.2⟩

theorem SlabInv.clean_same (h : SlabInv c σ) (ho : σ.Out r x) (hs : SameMeta σ.heap σ'.heap)
    (hm : SamePages σ.heap σ'.heap) (hclean : σ.Clean r x) : σ'.Clean r x := by
  have hb := h.heap.slot_range ho.1 (h.out_slot ho)
  intro y h₁ h₂
  rw [hs.pages] at h₂
  rw [hm r ho.1 y (by omega) (by omega)]
  exact hclean y h₁ h₂

theorem SlabSys.Got.goto {bin : Nat} {z : Bool} (h : σ.Got t bin x z r) :
    (σ.goto t pc).Got t bin x z r :=
  ⟨h.ne, h.out, h.binIdx, h.attached, h.clean⟩

/-- A `tld_t` that only thread `t` sees was rewritten. -/
theorem othersKept_setTld (s : State) (t : Nat) (y : Tld) : OthersKept t s (s.setTld t y) :=
  fun _ hu => upd_ne hu

namespace SlabInv

/-! ## `tld_get` and the thread's data -/

/-- **Step**: a call asks for its thread's data. -/
theorem tldGet (h : SlabInv c σ) (hid : HasId σ.heap t) {o : Option Tld} {s' : State}
    (he : CustomMalloc.tldGet c σ.heap t = (o, s')) (hpc : σ.pcs t = pc) (hg : pc.Glides pc')
    (hwin : pc'.window = none)
    (hok : HeapOk.GotTld t σ.heap o s' → HeapOk c s' → Knows ((σ.onHeap s').goto t pc') t pc') :
    SlabInv c ((σ.onHeap s').goto t pc') := by
  obtain ⟨hheap, hgot⟩ := h.heap.tldGet hid he
  exact h.quiet hheap hgot.same hgot.others (fun r hr => hgot.mem r hr.1) hpc hg (hok hgot hheap)
    (σ.noWindow hwin)

/-- **Step**: a call rewrites its thread's data. -/
theorem ownTld (h : SlabInv c σ) {s' : State} (hheap : HeapOk c s') (hs : SameMeta σ.heap s')
    (ho : OthersKept t σ.heap s') (hm : s'.mem = σ.heap.mem) (hpc : σ.pcs t = pc)
    (hg : pc.Glides pc') (hwin : pc'.window = none)
    (hok : Knows ((σ.onHeap s').goto t pc') t pc') : SlabInv c ((σ.onHeap s').goto t pc') :=
  h.quiet hheap hs ho (fun _ _ y _ _ => by rw [hm]) hpc hg hok (σ.noWindow hwin)

theorem enter (h : SlabInv c σ) (hid : HasId σ.heap t) {bin : Nat} (hpc : σ.pcs t = .enter bin)
    (he : σ.step c t spurious = some σ') : SlabInv c σ' := by
  have hbin : BinOk bin := h.knows hpc
  simp only [SlabSys.step, hpc] at he
  rcases hget : CustomMalloc.tldGet c σ.heap t with ⟨o, s'⟩
  rw [hget] at he
  cases o with
  | some y =>
    cases he
    refine h.tldGet hid hget hpc ⟨rfl, rfl, rfl, rfl⟩ rfl
      fun hgot _ => ⟨hbin, ?_⟩
    show (s'.tls t).isSome
    rw [hgot.got]
    rfl
  | none =>
    cases he
    exact h.tldGet hid hget hpc ⟨rfl, rfl, rfl, rfl⟩ rfl
      fun _ _ => ⟨hbin, fun hf => absurd hf (by simp)⟩

theorem look (h : SlabInv c σ) {bin : Nat} (hpc : σ.pcs t = .look bin)
    (he : σ.step c t spurious = some σ') : SlabInv c σ' := by
  have hknow := h.knows hpc
  have hagain : SlabInv c (σ.goto t (.again bin true)) :=
    h.reads hpc ⟨rfl, rfl, rfl, rfl⟩ ⟨hknow.1, fun _ => hknow.2⟩ (σ.noWindow rfl)
  simp only [SlabSys.step, hpc] at he
  split at he
  next => cases he
  next y hy =>
    split at he
    next =>
      cases he
      exact hagain
    next r hr =>
      split at he
      next =>
        cases he
        obtain ⟨hd, hst, hidx, -⟩ := h.heap.cache hy bin r hr
        exact h.startFast hpc ⟨⟨hd, hst⟩, y, hy, h.heap.homes.cached t y bin r hy hr⟩ hidx
      next =>
        cases he
        exact hagain

theorem book (h : SlabInv c σ) {slot : Nat} {zeroed : Bool} (hpc : σ.pcs t = .book r slot zeroed)
    (he : σ.step c t spurious = some σ') : SlabInv c σ' := by
  obtain ⟨-, hne, hout, hclean⟩ := h.knows hpc
  simp only [SlabSys.step, hpc] at he
  split at he
  next => cases he
  next y hy =>
    split at he
    next => cases he
    next s' hs' =>
      cases he
      obtain ⟨hheap, hsame, hm, ho, -⟩ := h.heap.statStore hy hs' rfl rfl rfl rfl
      refine h.ownTld hheap hsame ho hm hpc ⟨rfl, rfl, rfl, if_neg hne⟩ rfl
        fun _ => ⟨r, hout.same hsame rfl, fun hz => ?_⟩
      exact h.clean_same hout hsame (fun _ _ y _ _ => congrFun hm y) (hclean hz)

theorem clear (h : SlabInv c σ) {bin : Nat} (hpc : σ.pcs t = .clear bin)
    (he : σ.step c t spurious = some σ') : SlabInv c σ' := by
  have hknow := h.knows hpc
  simp only [SlabSys.step, hpc] at he
  split at he
  next => cases he
  next y hy =>
    cases he
    -- what is left in the cache was there before
    have hsub : ∀ b r, upd y.binPage bin none b = some r → y.binPage b = some r := by
      intro b r hr
      by_cases hb : b = bin
      · rw [hb, upd_same] at hr
        cases hr
      · rwa [upd_ne hb] at hr
    refine h.ownTld (h.heap.setTld hy rfl rfl ?_ (fun _ ha => ha)
      (fun a => h.heap.homes.arena_lt t y a hy)
      fun b r hr => h.heap.homes.cached t y b r hy (hsub b r hr)) ⟨rfl, rfl, rfl, rfl⟩
      (othersKept_setTld _ _ _) rfl hpc ⟨rfl, rfl, rfl, rfl⟩ rfl ⟨hknow.1, fun _ => ?_⟩
    · exact fun b r hr => h.heap.cache hy b r (hsub b r hr)
    · show (upd σ.heap.tls t _ t).isSome
      rw [upd_same]
      rfl

/-! ## `arena_get` -/

theorem again (h : SlabInv c σ) (hid : HasId σ.heap t) {bin : Nat} {hasTld : Bool}
    (hpc : σ.pcs t = .again bin hasTld) (he : σ.step c t spurious = some σ') : SlabInv c σ' := by
  obtain ⟨hbin, htls⟩ := h.knows hpc
  simp only [SlabSys.step, hpc] at he
  rcases hget : CustomMalloc.tldGet c σ.heap t with ⟨o, s'⟩
  simp only [hget] at he
  split at he
  next a ha =>
    cases he
    obtain ⟨y, rfl, hya⟩ := Option.bind_eq_some_iff.mp ha
    exact h.tldGet hid hget hpc ⟨rfl, rfl, rfl, rfl⟩ rfl
      fun hgot hheap => ⟨hbin, hheap.homes.arena_lt t y a hgot.got hya, fun _ => ⟨y, hgot.got, hya⟩⟩
  next hnone =>
    cases he
    refine h.tldGet hid hget hpc ⟨rfl, rfl, rfl, rfl⟩ rfl
      fun hgot _ => ⟨hbin, fun hh => ?_, fun y hy => ?_⟩
    · obtain ⟨y, hy⟩ := Option.isSome_iff_exists.mp (htls hh)
      obtain rfl := hgot.old y hy
      exact htls hh
    · obtain rfl : o = some y := hgot.got.symm.trans hy
      exact hnone

theorem next (h : SlabInv c σ) {bin : Nat} {hasTld : Bool} (hpc : σ.pcs t = .next bin hasTld)
    (he : σ.step c t spurious = some σ') : SlabInv c σ' := by
  obtain ⟨hbin, htls, hnone⟩ := h.knows hpc
  simp only [SlabSys.step, hpc] at he
  split at he
  next => cases he
  next hidx =>
    cases he
    have hlt : (σ.heap.arenaNext.tmod numArenas).toNat < numArenas := by
      have := Int.tmod_lt_of_pos σ.heap.arenaNext (show (0 : Int) < (numArenas : Nat) by decide)
      omega
    exact h.ownTld (h.heap.arenaNext _) ⟨rfl, rfl, rfl, rfl⟩ (fun _ _ => rfl) rfl
      hpc ⟨rfl, rfl, rfl, rfl⟩ rfl ⟨hbin, hlt, htls, hnone⟩

theorem join (h : SlabInv c σ) (hpc : σ.pcs t = .join k) (he : σ.step c t spurious = some σ') :
    SlabInv c σ' := by
  obtain ⟨hbin, hlt, htls, hnone⟩ := h.knows hpc
  have hbooks := h.heap.setArena (a := k.arena) (x := { σ.heap.arenas k.arena with
    threadCount := wrapInt ((σ.heap.arenas k.arena).threadCount + 1) }) rfl rfl rfl
  simp only [SlabSys.step, hpc] at he
  split at he
  next y hy =>
    cases he
    have hy' : σ.heap.tls t = some y := hy
    refine h.ownTld (hbooks.setTld (x := { y with arena := some k.arena }) hy rfl rfl ?_ ?_ ?_ ?_)
      ⟨rfl, rfl, rfl, rfl⟩ (fun _ hu => upd_ne hu) rfl hpc ⟨rfl, rfl, rfl, rfl⟩ rfl
        ⟨hbin, hlt, fun _ => ⟨_, upd_same .., rfl⟩⟩
    · intro b r hr
      obtain ⟨h₁, h₂, h₃, -⟩ := h.heap.cache hy' b r hr
      exact ⟨h₁, h₂, h₃, rfl⟩
    · intro a ha
      rw [hnone y hy'] at ha
      cases ha
    · intro a ha
      exact Option.some.inj ha ▸ hlt
    · exact fun b r hr => h.heap.homes.cached t y b r hy' hr
  next hy =>
    cases he
    refine h.ownTld hbooks ⟨rfl, rfl, rfl, rfl⟩ (fun _ _ => rfl) rfl hpc ⟨rfl, rfl, rfl, rfl⟩ rfl
      ⟨hbin, hlt, fun hh => ?_⟩
    have hsome := htls hh
    rw [show σ.heap.tls t = none from hy] at hsome
    cases hsome

/-! ## The lock -/

theorem lock (h : SlabInv c σ) (hpc : σ.pcs t = .lock k) (he : σ.step c t spurious = some σ') :
    SlabInv c σ' := by
  have hcall : CallOk σ t k := h.knows hpc
  simp only [SlabSys.step, hpc] at he
  obtain ⟨hfree, he⟩ := Option.ite_none_right_eq_some.mp he
  cases he
  have hpcs : (SlabSys.goto { σ with locks := upd σ.locks k.arena (some t) } t (.head k)).pcs =
      upd σ.pcs t (.head k) := rfl
  refine h.calm hpcs h.heap ⟨rfl, rfl, rfl, rfl⟩ (fun _ _ => rfl) (fun _ _ _ _ _ => rfl) rfl rfl
    hpc rfl rfl ?_ (hcall.same rfl)
    (σ.noWindow rfl)
    (h.hands_upd hpcs (by rw [hpc]; rfl)) h.out
  intro a u
  show upd σ.locks k.arena (some t) a = some u ↔ (upd σ.pcs t (.head k) u).locking = some a
  by_cases ha : a = k.arena
  · rw [ha, upd_same]
    by_cases hu : u = t
    · rw [hu, upd_same]
      exact iff_of_true rfl rfl
    · rw [upd_ne hu]
      refine iff_of_false (fun heq => hu (Option.some.inj heq).symm) fun hl => ?_
      rw [← h.locks, hfree] at hl
      cases hl
  · rw [upd_ne ha, h.locks]
    by_cases hu : u = t
    · rw [hu, upd_same, hpc]
      exact iff_of_false (by simp [SlabPc.locking]) fun hl => ha (Option.some.inj hl).symm
    · rw [upd_ne hu]

theorem unlock (h : SlabInv c σ) {slot : Nat} {zeroed : Bool}
    (hpc : σ.pcs t = .unlock k slot zeroed)
    (he : σ.step c t spurious = some σ') : SlabInv c σ' := by
  obtain ⟨hcall, hslot⟩ := h.knows hpc
  have hlocking : (σ.pcs t).locking = some k.arena := by rw [hpc]; rfl
  simp only [SlabSys.step, hpc] at he
  cases he
  generalize hpc' : (if k.hasTld = true ∧ slot ≠ 0 then SlabPc.find k.bin slot zeroed
    else .ret slot zeroed) = pc'
  have hkind : pc' = .find k.bin slot zeroed ∧ k.hasTld = true ∧ slot ≠ 0 ∨
      pc' = .ret slot zeroed := by
    by_cases hc : k.hasTld = true ∧ slot ≠ 0
    · rw [if_pos hc] at hpc'
      exact Or.inl ⟨hpc'.symm, hc⟩
    · rw [if_neg hc] at hpc'
      exact Or.inr hpc'.symm
  have hpcs : (SlabSys.goto { σ with locks := upd σ.locks k.arena none } t pc').pcs =
      upd σ.pcs t pc' := rfl
  have hnolock : pc'.locking = none := by
    rcases hkind with ⟨rfl, -⟩ | rfl <;> rfl
  refine h.calm hpcs h.heap ⟨rfl, rfl, rfl, rfl⟩ (fun _ _ => rfl) (fun _ _ _ _ _ => rfl) rfl rfl
    hpc rfl ?_ ?_ ?_ ?_ (h.hands_upd hpcs ?_) h.out
  · rcases hkind with ⟨rfl, -⟩ | rfl <;> rfl
  · intro a u
    show upd σ.locks k.arena none a = some u ↔ (upd σ.pcs t pc' u).locking = some a
    by_cases hu : u = t
    · rw [hu, upd_same, hnolock]
      refine iff_of_false (fun hl => ?_) (by simp)
      by_cases ha : a = k.arena
      · rw [ha, upd_same] at hl
        cases hl
      · rw [upd_ne ha, h.locks, hlocking] at hl
        exact ha (Option.some.inj hl).symm
    · rw [upd_ne hu]
      by_cases ha : a = k.arena
      · rw [ha, upd_same]
        exact iff_of_false (by simp) fun hl => hu (h.locking_unique hl hlocking)
      · rw [upd_ne ha]
        exact h.locks a u
  · rcases hkind with ⟨rfl, hh, hne⟩ | rfl
    · obtain ⟨r, hlist, hout, hclean⟩ := hslot hne
      obtain ⟨y, hy, hya⟩ := hcall.attached hh
      exact ⟨r, hne, hout, hlist.binIdx, ⟨y, hy, hya.trans (congrArg some hlist.arena.symm)⟩,
        hclean⟩
    · intro hne
      obtain ⟨r, -, hout, hclean⟩ := hslot hne
      exact ⟨r, hout, hclean⟩
  · rcases hkind with ⟨rfl, -⟩ | rfl <;> exact σ.noWindow rfl
  · rcases hkind with ⟨rfl, -, hne⟩ | rfl
    · rw [hpc]
      exact (if_neg hne).symm
    · rw [hpc]
      rfl

/-! ## Walking the bin list -/

/-- The pages in a bin list are the pages of the bin. -/
theorem listed_head (h : SlabInv c σ) (hr : (σ.heap.arenas k.arena).bins k.bin = some r) :
    σ.Listed k r := by
  obtain ⟨l, hl, hmem⟩ := h.heap.inv.bins k.arena k.bin
  obtain ⟨hd, hst, ha, hb⟩ := (hmem r).mp (hl.head_mem hr)
  exact ⟨⟨hd, hst⟩, ha, hb⟩

theorem listed_next (h : SlabInv c σ) (hlist : σ.Listed k r) (hq : (σ.heap.pages r).next = some q) :
    σ.Listed k q := by
  obtain ⟨l, hl, hmem⟩ := h.heap.inv.bins k.arena k.bin
  have hr : r ∈ l := (hmem r).mpr ⟨hlist.active.1, hlist.active.2, hlist.arena, hlist.binIdx⟩
  obtain ⟨hd, hst, ha, hb⟩ := (hmem q).mp (hl.1.mem_next hr hq)
  exact ⟨⟨hd, hst⟩, ha, hb⟩

/-- A read under the lock. -/
theorem walks (h : SlabInv c σ) (hpc : σ.pcs t = pc) (hg : pc.Glides pc')
    (hok : Knows (σ.goto t pc') t pc') (hwin : pc'.window = none) : SlabInv c (σ.goto t pc') :=
  h.reads hpc hg hok (σ.noWindow hwin)

theorem head (h : SlabInv c σ) (hpc : σ.pcs t = .head k) (he : σ.step c t spurious = some σ') :
    SlabInv c σ' := by
  have hcall : CallOk σ t k := h.knows hpc
  simp only [SlabSys.step, hpc] at he
  split at he
  next r hr =>
    cases he
    exact h.walks hpc ⟨rfl, rfl, rfl, rfl⟩
      ⟨hcall.same rfl, (h.listed_head hr).same ⟨rfl, rfl, rfl, rfl⟩⟩ rfl
  next =>
    cases he
    exact h.walks hpc ⟨rfl, rfl, rfl, rfl⟩
      (hcall.same rfl) rfl

theorem owner (h : SlabInv c σ) (hpc : σ.pcs t = .owner k r) (he : σ.step c t spurious = some σ') :
    SlabInv c σ' := by
  obtain ⟨hcall, hlist⟩ := h.knows hpc
  simp only [SlabSys.step, hpc] at he
  split at he
  next hno =>
    cases he
    refine h.reads hpc ⟨rfl, rfl, rfl, rfl⟩
      ⟨hcall.same rfl, hlist.same ⟨rfl, rfl, rfl, rfl⟩⟩ fun u q _ hw hb => ?_
    -- whoever bumps a page as its owner owns it
    cases hw
    obtain ⟨o, hown⟩ := bumps_owner hb
    cases (h.unowned_idle hno u).symm.trans hown
  next =>
    cases he
    exact h.walks hpc ⟨rfl, rfl, rfl, rfl⟩
      ⟨hcall.same rfl, hlist.same ⟨rfl, rfl, rfl, rfl⟩⟩ rfl

theorem test (h : SlabInv c σ) (hpc : σ.pcs t = .test k r) (he : σ.step c t spurious = some σ') :
    SlabInv c σ' := by
  obtain ⟨hcall, hlist⟩ := h.knows hpc
  simp only [SlabSys.step, hpc] at he
  split at he
  next hlt =>
    cases he
    refine h.reads hpc ⟨rfl, rfl, rfl, rfl⟩
      ⟨hcall.same rfl, hlist.same ⟨rfl, rfl, rfl, rfl⟩, hlt, fun y hy => absurd hy (by simp)⟩
      fun u q hu hw => ?_
    cases hw
    exact h.apart t u r (Ne.symm hu) (by rw [hpc]; rfl)
  next =>
    cases he
    exact h.walks hpc ⟨rfl, rfl, rfl, rfl⟩
      ⟨hcall.same rfl, hlist.same ⟨rfl, rfl, rfl, rfl⟩⟩ rfl

theorem follow (h : SlabInv c σ) (hpc : σ.pcs t = .follow k r)
    (he : σ.step c t spurious = some σ') :
    SlabInv c σ' := by
  obtain ⟨hcall, hlist⟩ := h.knows hpc
  simp only [SlabSys.step, hpc] at he
  split at he
  next q hq =>
    cases he
    exact h.walks hpc ⟨rfl, rfl, rfl, rfl⟩
      ⟨hcall.same rfl, (h.listed_next hlist hq).same ⟨rfl, rfl, rfl, rfl⟩⟩ rfl
  next =>
    cases he
    exact h.walks hpc ⟨rfl, rfl, rfl, rfl⟩
      (hcall.same rfl) rfl

theorem grow (h : SlabInv c σ) (hpc : σ.pcs t = .grow k) (he : σ.step c t spurious = some σ') :
    SlabInv c σ' := by
  have hcall : CallOk σ t k := h.knows hpc
  simp only [SlabSys.step, hpc] at he
  split at he
  next => cases he
  next s' hnew =>
    cases he
    obtain ⟨hheap, hs, hth, hm⟩ := h.heap.newPage_none hcall.bin.1 hcall.bin.2 hnew
    exact h.quiet hheap hs (fun u _ => by rw [hth.tls]) (fun r hr => hm r hr.1)
      hpc ⟨rfl, rfl, rfl, rfl⟩ ⟨hcall.same (congrFun hth.tls t), fun hne => absurd rfl hne⟩
      (σ.noWindow rfl)
  next r s' hnew =>
    cases he
    obtain ⟨hheap, ho⟩ := h.heap.newPage hcall.arena_lt hcall.bin.1 hcall.bin.2 hnew
    exact h.opened hpc hheap ho

theorem credit (h : SlabInv c σ) {slot : Nat} (hpc : σ.pcs t = .credit k r slot)
    (he : σ.step c t spurious = some σ') : SlabInv c σ' := by
  obtain ⟨hcall, hlist, hne, hout, hclean⟩ := h.knows hpc
  simp only [SlabSys.step, hpc] at he
  cases he
  exact h.ownTld (h.heap.setArena rfl rfl rfl) ⟨rfl, rfl, rfl, rfl⟩ (fun _ _ => rfl) rfl
    hpc ⟨rfl, rfl, rfl, if_neg hne⟩ rfl
    ⟨hcall.same rfl, fun _ => ⟨r, hlist.same ⟨rfl, rfl, rfl, rfl⟩, hout, fun _ => hclean⟩⟩

/-! ## Claiming and caching the page -/

theorem find (h : SlabInv c σ) {bin slot : Nat} {zeroed : Bool}
    (hpc : σ.pcs t = .find bin slot zeroed)
    (he : σ.step c t spurious = some σ') : SlabInv c σ' := by
  obtain ⟨r, hgot⟩ := h.knows hpc
  simp only [SlabSys.step, hpc] at he
  split at he
  next =>
    cases he
    exact h.walks hpc ⟨rfl, rfl, rfl, if_neg hgot.ne⟩ (fun _ => ⟨r, hgot.out, hgot.clean⟩) rfl
  next q hq =>
    cases he
    have hb := h.heap.slot_range hgot.out.1 (h.out_slot hgot.out)
    have hge := (h.heap.geom hgot.out.1).slot_ge
    have hpage : ptrToPage σ.heap slot = _ :=
      (h.heap.inv.ptrToPage_eq (r := r) (x := slot) hgot.out.1.1 hb.1 (by omega)).2
    rw [hq] at hpage
    obtain rfl : q = r := (Option.some.inj (Option.ite_none_right_eq_some.mp hpage.symm).2).symm
    exact h.walks hpc ⟨rfl, rfl, rfl, rfl⟩ hgot.goto rfl

theorem claim (h : SlabInv c σ) {bin slot : Nat} {zeroed : Bool}
    (hpc : σ.pcs t = .claim bin slot zeroed r) (he : σ.step c t spurious = some σ') :
    SlabInv c σ' := by
  have hgot : σ.Got t bin slot zeroed r := h.knows hpc
  simp only [SlabSys.step, hpc] at he
  split at he
  next => cases he
  next y hy =>
    split at he
    next hno =>
      cases he
      exact h.claimed hpc hy hno
    next =>
      split at he
      next hown =>
        cases he
        exact h.walks hpc ⟨rfl, rfl, rfl, rfl⟩
          ⟨hgot.goto, hgot.out.1, y, hy, hown⟩ rfl
      next =>
        cases he
        exact h.walks hpc ⟨rfl, rfl, rfl, if_neg hgot.ne⟩ (fun _ => ⟨r, hgot.out, hgot.clean⟩) rfl

theorem cache (h : SlabInv c σ) {bin slot : Nat} {zeroed : Bool}
    (hpc : σ.pcs t = .cache bin slot zeroed r) (he : σ.step c t spurious = some σ') :
    SlabInv c σ' := by
  obtain ⟨hgot, hact, z, hz, hown⟩ := h.knows hpc
  simp only [SlabSys.step, hpc] at he
  split at he
  next => cases he
  next y hy =>
    cases he
    obtain rfl : y = z := Option.some.inj (hy.symm.trans hz)
    have harena : y.arena = some (σ.heap.pages r).arena := by
      obtain ⟨w, hw, ha⟩ := hgot.attached
      obtain rfl : y = w := Option.some.inj (hy.symm.trans hw)
      exact ha
    -- the cache holds the page just claimed, or what it held
    have hcases : ∀ b q, upd y.binPage bin (some r) b = some q → b = bin ∧ q = r ∨
        y.binPage b = some q := by
      intro b q hq
      by_cases hb : b = bin
      · rw [hb, upd_same] at hq
        exact Or.inl ⟨hb, (Option.some.inj hq).symm⟩
      · rw [upd_ne hb] at hq
        exact Or.inr hq
    refine h.ownTld (h.heap.setTld hy rfl rfl ?_ (fun _ ha => ha)
      (fun a => h.heap.homes.arena_lt t y a hy)
      ?_) ⟨rfl, rfl, rfl, rfl⟩ (othersKept_setTld _ _ _) rfl hpc ⟨rfl, rfl, rfl, if_neg hgot.ne⟩ rfl
      fun _ => ⟨r, hgot.out, hgot.clean⟩
    · intro b q hq
      rcases hcases b q hq with ⟨rfl, rfl⟩ | hold
      · exact ⟨hact.1, hact.2, hgot.binIdx, by rw [harena]; rfl⟩
      · exact h.heap.cache hy b q hold
    · intro b q hq
      rcases hcases b q hq with ⟨-, rfl⟩ | hold
      · exact hown
      · exact h.heap.homes.cached t y b q hy hold

theorem ret (h : SlabInv c σ) {slot : Nat} {zeroed : Bool} (hpc : σ.pcs t = .ret slot zeroed)
    (he : σ.step c t spurious = some σ') : SlabInv c σ' := by
  have hknow := h.knows hpc
  simp only [SlabSys.step, hpc] at he
  cases he
  generalize hlive : (if slot = 0 then σ.live else slot :: σ.live) = live'
  have hpcs : (SlabSys.goto { σ with live := live' } t .idle).pcs = upd σ.pcs t .idle := rfl
  refine h.calm hpcs h.heap ⟨rfl, rfl, rfl, rfl⟩ (fun _ _ => rfl) (fun _ _ _ _ _ => rfl) rfl rfl
    hpc rfl rfl
    (h.locks_upd hpcs rfl (by rw [hpc]; rfl)) trivial
    (σ.noWindow rfl) ?_ ?_
  · by_cases h0 : slot = 0
    · rw [if_pos h0] at hlive
      subst hlive
      exact h.hands_drop hpcs rfl
    · rw [if_neg h0] at hlive
      subst hlive
      refine h.hands.put (i := t) (by rw [hpc]; exact if_neg h0) ?_ fun u hu => ?_
      · rw [hpcs, upd_same]
        rfl
      · rw [hpcs, upd_ne hu]
  · intro y hy
    have hy' : y ∈ live' := hy
    by_cases h0 : slot = 0
    · rw [← hlive, if_pos h0] at hy'
      exact h.out y hy'
    · rw [← hlive, if_neg h0] at hy'
      rcases List.mem_cons.mp hy' with rfl | hy'
      · obtain ⟨r, ho, -⟩ := hknow h0
        exact ⟨r, ho⟩
      · exact h.out y hy'

/-! ## Freeing -/

theorem freeFind (h : SlabInv c σ) (hpc : σ.pcs t = .freeFind x)
    (he : σ.step c t spurious = some σ') :
    SlabInv c σ' := by
  obtain ⟨r, hout, hlow⟩ := h.knows hpc
  -- a pointer that is not found is dropped
  have hdrop : SlabInv c (σ.goto t .idle) :=
    h.calm rfl h.heap ⟨rfl, rfl, rfl, rfl⟩ (fun _ _ => rfl) (fun _ _ _ _ _ => rfl) rfl rfl hpc rfl
      rfl (h.locks_upd rfl rfl (by rw [hpc]; rfl)) trivial
      (σ.noWindow rfl)
      (h.hands_drop rfl rfl) h.out
  simp only [SlabSys.step, hpc] at he
  split at he
  next =>
    cases he
    exact hdrop
  next =>
    split at he
    next =>
      cases he
      exact hdrop
    next q hq =>
      split at he
      next =>
        cases he
        exact hdrop
      next =>
        cases he
        have hb := h.heap.slot_range hout.1 (h.out_slot hout)
        have hge := (h.heap.geom hout.1).slot_ge
        have hpage : ptrToPage σ.heap x = _ :=
          (h.heap.inv.ptrToPage_eq (r := r) (x := x) hout.1.1 hb.1 (by omega)).2
        rw [hq] at hpage
        obtain rfl : q = r := (Option.some.inj (Option.ite_none_right_eq_some.mp hpage.symm).2).symm
        exact h.walks hpc ⟨rfl, rfl, rfl, rfl⟩
          ⟨hout, hlow⟩ rfl

theorem freeTld (h : SlabInv c σ) (hid : HasId σ.heap t) (hpc : σ.pcs t = .freeTld x r)
    (he : σ.step c t spurious = some σ') : SlabInv c σ' := by
  obtain ⟨hout, hlow⟩ := h.knows hpc
  simp only [SlabSys.step, hpc] at he
  rcases hget : CustomMalloc.tldGet c σ.heap t with ⟨o, s'⟩
  rw [hget] at he
  obtain ⟨-, hgot⟩ := h.heap.tldGet hid hget
  cases o with
  | some y =>
    cases he
    refine h.tldGet hid hget hpc ⟨rfl, rfl, rfl, rfl⟩ rfl
      fun _ _ => ⟨hout.same hgot.same rfl, hlow, ?_⟩
    show (s'.tls t).isSome
    rw [hgot.got]
    rfl
  | none =>
    cases he
    -- first the `tld_get`, at the same place, then the push
    have hstay : (σ.onHeap s').pcs = upd (σ.onHeap s').pcs t (.freeTld x r) := by
      rw [← hpc]
      exact (upd_eta _ _).symm
    have hmid : SlabInv c ((σ.onHeap s').goto t (.freeTld x r)) :=
      h.tldGet hid hget hpc ⟨rfl, rfl, rfl, rfl⟩ rfl
        fun _ _ => ⟨hout.same hgot.same rfl, hlow⟩
    rw [show (σ.onHeap s').goto t (.freeTld x r) = σ.onHeap s' by
      unfold SlabSys.goto
      rw [← hstay]] at hmid
    have hpc' : (σ.onHeap s').pcs t = .freeTld x r := hpc
    exact hmid.startPush (by rw [hpc']; rfl) (by rw [hpc']; rfl)
      (by rw [hpc']; rfl) (hout.same hgot.same rfl) hlow

theorem freeOwner (h : SlabInv c σ) (hpc : σ.pcs t = .freeOwner x r)
    (he : σ.step c t spurious = some σ') : SlabInv c σ' := by
  obtain ⟨hout, hlow, -⟩ := h.knows hpc
  simp only [SlabSys.step, hpc] at he
  split at he
  next => cases he
  next y hy =>
    split at he
    next hown =>
      cases he
      exact h.startFree hpc ⟨hout.1, y, hy, hown⟩
    next =>
      cases he
      exact h.startPush (by rw [hpc]; rfl) (by rw [hpc]; rfl) (by rw [hpc]; rfl)
        hout hlow

theorem freeStat (h : SlabInv c σ) (hpc : σ.pcs t = .freeStat r)
    (he : σ.step c t spurious = some σ') : SlabInv c σ' := by
  simp only [SlabSys.step, hpc] at he
  split at he
  next => cases he
  next y hy =>
    split at he
    next => cases he
    next s' hs' =>
      cases he
      obtain ⟨hheap, hsame, hm, ho, -⟩ := h.heap.statStore hy hs' rfl rfl rfl rfl
      exact h.ownTld hheap hsame ho hm hpc ⟨rfl, rfl, rfl, rfl⟩ rfl trivial

theorem freeCredit (h : SlabInv c σ) (hpc : σ.pcs t = .freeCredit r)
    (he : σ.step c t spurious = some σ') : SlabInv c σ' := by
  simp only [SlabSys.step, hpc] at he
  cases he
  exact h.ownTld (h.heap.setArena rfl rfl rfl) ⟨rfl, rfl, rfl, rfl⟩ (fun _ _ => rfl) rfl
    hpc ⟨rfl, rfl, rfl, rfl⟩ rfl trivial

/-! ## All steps -/

/-- **Step lemma**: a step of a call. -/
theorem step (h : SlabInv c σ) (hid : HasId σ.heap t)
    (horder : ∀ bin r, σ.pcs t = .fast bin r .bumpTest → ∀ u, u ≠ t → (σ.pcs u).window ≠ some r)
    (he : σ.step c t spurious = some σ') : SlabInv c σ' := by
  cases hpc : σ.pcs t with
  | idle =>
    simp only [SlabSys.step, hpc] at he
    cases he
  | enter bin => exact h.enter hid hpc he
  | look bin => exact h.look hpc he
  | fast bin r pc =>
    simp only [SlabSys.step, hpc] at he
    cases he
    exact h.fast hpc fun hb => horder bin r (by rw [hpc, hb])
  | book r slot zeroed => exact h.book hpc he
  | clear bin => exact h.clear hpc he
  | again bin hasTld => exact h.again hid hpc he
  | next bin hasTld => exact h.next hpc he
  | join k => exact h.join hpc he
  | lock k => exact h.lock hpc he
  | head k => exact h.head hpc he
  | owner k r => exact h.owner hpc he
  | test k r => exact h.test hpc he
  | follow k r => exact h.follow hpc he
  | grow k => exact h.grow hpc he
  | bump k r pb =>
    simp only [SlabSys.step, hpc] at he
    cases he
    exact h.bump hpc
  | credit k r slot => exact h.credit hpc he
  | unlock k slot zeroed => exact h.unlock hpc he
  | find bin slot zeroed => exact h.find hpc he
  | claim bin slot zeroed r => exact h.claim hpc he
  | cache bin slot zeroed r => exact h.cache hpc he
  | ret slot zeroed => exact h.ret hpc he
  | freeFind x => exact h.freeFind hpc he
  | freeTld x r => exact h.freeTld hid hpc he
  | freeOwner x r => exact h.freeOwner hpc he
  | freeLocal r pc =>
    simp only [SlabSys.step, hpc] at he
    cases he
    exact h.freeLocal hpc
  | freeStat r => exact h.freeStat hpc he
  | freeRemote r pc =>
    simp only [SlabSys.step, hpc] at he
    cases he
    exact h.freeRemote hpc
  | freeCredit r => exact h.freeCredit hpc he

/-- The kernel's next answers are nobody's business. -/
theorem withAnswers (h : SlabInv c σ) (answers : List (Option Nat)) :
    SlabInv c (σ.onHeap (σ.heap.withAnswers answers)) := by
  have hsame : SameMeta σ.heap (σ.heap.withAnswers answers) := ⟨rfl, rfl, rfl, rfl⟩
  refine h.still rfl rfl rfl rfl (h.heap.withAnswers answers) hsame (fun r hr => ?_) fun u => ?_
  · exact (h.pages r hr).frame (h.heap.geom hr) (.refl _) (fun _ _ _ => rfl) rfl rfl
      fun u => ⟨rfl, rfl, rfl⟩
  · exact .quiet (t := u) h (.of_same hsame fun _ _ => rfl) rfl rfl (fun _ _ _ _ _ => rfl)
      fun _ => rfl

/-- A thread between two calls exits. -/
theorem exit (h : SlabInv c σ) (hpc : σ.pcs t = .idle) :
    SlabInv c (σ.onHeap (tldCleanup c σ.heap t)) := by
  obtain ⟨hs, htls, -, hm⟩ := tldCleanup_frame c σ.heap t
  have hpcs : (σ.onHeap (tldCleanup c σ.heap t)).pcs = upd σ.pcs t .idle := by
    rw [← hpc]
    exact (upd_eta _ _).symm
  refine h.calm hpcs (h.heap.cleanup t) hs (fun u hu => ?_) (fun _ _ y _ _ => congrFun hm y) rfl rfl
    hpc rfl rfl
    (h.locks_upd hpcs rfl (by rw [hpc])) trivial
    (σ.noWindow rfl) (h.hands_upd hpcs (by rw [hpc])) h.out
  exact (congrFun htls u).trans (upd_ne hu)

/-- A client writes into a slot it holds. -/
theorem write (h : SlabInv c σ) (hlive : x ∈ σ.live) (hx : x ∈ σ.held r) {i : Nat}
    (hi : i < (σ.heap.pages r).slotSize) (b : UInt8) :
    SlabInv c (σ.onHeap { σ.heap with mem := upd σ.heap.mem (x + i) b }) := by
  have hact := h.inUse hx
  have hslot := h.out_slot (r := r) (x := x) ⟨hact, hx⟩
  have hb := h.heap.slot_range hact hslot
  have hm : ∀ a, a ≠ x + i → upd σ.heap.mem (x + i) b a = σ.heap.mem a := fun a ha => upd_ne ha
  have hsame : SameMeta σ.heap { σ.heap with mem := upd σ.heap.mem (x + i) b } :=
    ⟨rfl, rfl, rfl, rfl⟩
  refine h.still rfl rfl rfl rfl (h.heap.setMem fun a ha => ⟨r, hact, ?_⟩) hsame (fun q hq => ?_)
    fun u => ?_
  · have ha' : a = x + i := by
      by_contra hne
      exact ha (hm a hne)
    omega
  · by_cases hqr : q = r
    · subst hqr
      obtain ⟨hused, o, loc, walk, hrole, hcons⟩ := h.pages q hact
      exact .of_view (v := { σ.view q o with mem := upd σ.heap.mem (x + i) b }) hrole hused rfl rfl
        (fun _ => rfl) rfl rfl (hcons.write ((h.heap.geom hact).plus _) hx hi b)
    · refine (h.pages q hq).frame (h.heap.geom hq) (.refl _) (fun a h₁ h₂ => hm a ?_) rfl rfl
        fun u => ⟨rfl, rfl, rfl⟩
      rintro rfl
      exact hqr (h.heap.page_unique hq.1 hact.1 h₁ h₂ (by omega) (by omega))
  · refine .of_shared (t := u) (.of_same hsame fun _ _ => rfl) h.heap.ids rfl (fun _ ho => ho.2) ?_
      fun _ _ => rfl
    intro q y hq hy hwho a h₁ h₂
    refine hm a fun ha => h.slots_apart hact hq hslot hy ?_ (a := a) (by omega) (by omega) h₁ h₂
    rintro rfl
    obtain rfl := h.slot_page hact hq hslot hy
    rcases hwho with ⟨hc, -⟩ | hown
    · exact h.hands.apart hc hlive
    · -- the owner has taken the slot and not handed it out
      obtain ⟨-, o, loc, walk, hrole, hcons⟩ := h.pages r hact
      obtain ⟨rfl, -⟩ := hrole.eq hown
      exact hcons.lists.taking_new x rfl hx

end SlabInv

/-! ## Runs -/

/-- The bin that `slab_alloc_inner` looks up is one of the slab allocator's. -/
theorem slabBin_ok {size bin : Nat} (h : slabBin size = some bin) : BinOk bin := by
  unfold slabBin at h
  simp only at h
  obtain ⟨hno, hbin⟩ := Option.ite_none_left_eq_some.mp h
  cases hbin
  obtain ⟨hmed, hhalf⟩ := not_or.mp hno
  have hpos : 1 ≤ (if size = 0 then 1 else size) := by split <;> omega
  refine ⟨(sizeToBin_fits hpos (Nat.not_lt.mp hmed)).1, ?_⟩
  exact Nat.not_lt.mp hhalf

/-- What a run is assumed to keep to: a thread that has no id yet finds the id counter short of
the value that stands for no owner, freed slots have 48-bit addresses, and no thread tests
`bump_offset` of the page it owns while another thread, which has seen the page unowned, is
about to bump it under the arena's lock. -/
def Orderly (σ : SlabSys n) : SlabAct n → Prop
  | .step t _ _ => HasId σ.heap t ∧
      ∀ bin r, σ.pcs t = .fast bin r .bumpTest → ∀ u, u ≠ t → (σ.pcs u).window ≠ some r
  | .free _ ptr => LowPtr σ.heap ptr
  | _ => True

/-- `Orderly` as a test. -/
def keepsOrder (σ : SlabSys n) : SlabAct n → Bool
  | .step t _ _ => ((σ.heap.tls t).isSome || decide (σ.heap.threadIdCounter < noOwner)) &&
      match σ.pcs t with
      | .fast _ r .bumpTest => decide (∀ u, u ≠ t → (σ.pcs u).window ≠ some r)
      | _ => true
  | .free _ ptr => decide (ptr < 2 ^ 48)
  | _ => true

theorem keepsOrder_sound (σ : SlabSys n) (a : SlabAct n) (h : keepsOrder σ a = true) :
    Orderly σ a := by
  cases a with
  | alloc | exit | write => trivial
  | free t ptr => exact fun _ _ _ _ => of_decide_eq_true h
  | step t spurious answers =>
    obtain ⟨hid, hwin⟩ := Bool.and_eq_true_iff.mp h
    refine ⟨fun hn => ?_, fun bin r hpc => ?_⟩
    · rw [hn] at hid
      exact of_decide_eq_true hid
    · rw [hpc] at hwin
      exact of_decide_eq_true hwin

/-- Where a schedule leads that is written out, from the start. -/
def SlabSys.scheduled (c : Cfg) (as : List (SlabAct n)) : SlabSys n :=
  replayed (SlabSys.act c) keepsOrder (SlabSys.initial c n) as

theorem scheduled_reaches (c : Cfg) (as : List (SlabAct n)) :
    Reaches (SlabSys.act c) Orderly (SlabSys.initial c n) (SlabSys.scheduled c as) :=
  reaches_replayed keepsOrder_sound _ as

/-- **Step lemma**: every action. -/
theorem SlabInv.act (h : SlabInv c σ) {a : SlabAct n} (ho : Orderly σ a)
    (he : σ.act c a = some σ') :
    SlabInv c σ' := by
  cases a with
  | alloc t size =>
    simp only [SlabSys.act] at he
    split at he
    next bin hbin =>
      obtain ⟨hpc, he⟩ := Option.ite_none_right_eq_some.mp he
      cases he
      exact h.walks hpc ⟨rfl, rfl, rfl, rfl⟩ (slabBin_ok hbin) rfl
    next => cases he
  | free t ptr =>
    obtain ⟨⟨hpc, hptr⟩, he⟩ := Option.ite_none_right_eq_some.mp he
    cases he
    obtain ⟨r, hout⟩ := h.out ptr hptr
    have g := h.heap.geom hout.1
    have hb := h.heap.slot_range hout.1 (h.out_slot hout)
    have hge := g.slot_ge
    have hlow : r.start + 65536 ≤ 2 ^ 48 := by
      have hlt : ptr < 2 ^ 48 := ho r hout.1.1 hb.1 (by omega)
      obtain ⟨m, hm⟩ := g.start_al
      omega
    have hpcs : (SlabSys.goto { σ with live := σ.live.erase ptr } t (.freeFind ptr)).pcs =
        upd σ.pcs t (.freeFind ptr) := rfl
    refine h.calm hpcs h.heap ⟨rfl, rfl, rfl, rfl⟩ (fun _ _ => rfl) (fun _ _ _ _ _ => rfl) rfl rfl
      hpc rfl rfl
      (h.locks_upd hpcs rfl (by rw [hpc]; rfl)) ⟨r, hout, hlow⟩
      (σ.noWindow rfl) ?_
      fun y hy => h.out y (List.mem_of_mem_erase hy)
    refine h.hands.pick (i := t) hptr ?_ fun u hu => ?_
    · rw [hpcs, upd_same]
      rfl
    · rw [hpcs, upd_ne hu]
  | step t spurious answers => exact (h.withAnswers answers).step ho.1 ho.2 he
  | exit t =>
    obtain ⟨hpc, he⟩ := Option.ite_none_right_eq_some.mp he
    cases he
    exact h.exit hpc
  | write r x i b =>
    obtain ⟨⟨hlive, hx, hi⟩, he⟩ := Option.ite_none_right_eq_some.mp he
    cases he
    exact h.write hlive hx hi b

theorem initial_slabInv (c : Cfg) (n : Nat) : SlabInv c (SlabSys.initial c n) := by
  have hno : ∀ r, ¬ Active (State.initial c) r :=
    fun r hr => absurd hr.1.1 (by simp [State.initial])
  refine ⟨initial_heapOk c, ?_, fun r hr => absurd hr (hno r), fun t => trivial, ?_,
    ⟨List.nodup_nil, ?_, ?_⟩,
    ?_, ?_⟩
  · exact fun a t => iff_of_false (by simp [SlabSys.initial])
      (by simp [SlabSys.initial, SlabPc.locking])
  · exact fun t u r _ hw => absurd hw (by simp [SlabSys.initial, SlabPc.window])
  · exact fun hx => absurd hx (by simp [SlabSys.initial, SlabPc.carries])
  · exact fun hx => absurd hx (by simp [SlabSys.initial, SlabPc.carries])
  · exact fun x hx => absurd hx (by simp [SlabSys.initial])
  · exact fun hx => absurd hx (by simp [SlabSys.initial])

/-- **Run lemma**: whatever the threads do, in whatever order. -/
theorem slabInv_of_reaches (h : Reaches (SlabSys.act c) Orderly (SlabSys.initial c n) σ) :
    SlabInv c σ :=
  h.invariant (initial_slabInv c n) fun _ _ _ hinv ho he => hinv.act ho he

end CustomMalloc

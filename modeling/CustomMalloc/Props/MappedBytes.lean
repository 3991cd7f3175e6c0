import CustomMalloc.Init
import CustomMalloc.Inv.Mappings
import CustomMalloc.Run

/-!
# The mapped bytes

`mmap_bytes` goes up in `os_mmap_aligned` and down in `os_munmap`, by sizes that
different callers compute: a segment is 4 MB, a large block is its rounded total on
the way in and the stored `la->size` on the way out, a `tld_t` is one OS page
unless it lies in the bootstrap buffer, which is not mapped at all. `MapBooks` says
that the counter is the sum over what is there.

The kernel may refuse any request. What it does not do is place a mapping at
address 0 of its own choice; `os_mmap_aligned` would take it for a failure after
it has counted it.
-/

namespace CustomMalloc

open Lib.Words Lib.Chain Lib.Regions Lib.Intervals

variable {c : Cfg} {s s' : State} {g l T : List Nat}

/-- `mmap_bytes` and `large_alloc_count` are what the lists say. -/
structure MapBooks (c : Cfg) (s : State) (g l T : List Nat) : Prop where
  maps : Mappings c s g l T
  bytes : s.mmapBytes = mappedTotal c s.larges g l T
  count : s.largeAllocCount = l.length
  lists : SegListsOk s.segs s.arenas
  arenas : ∀ b x, s.segs b = some x → x.arena < numArenas

theorem MapBooks.initial (c : Cfg) : MapBooks c (State.initial c) [] [] [] where
  maps :=
    { layout := (initial_holds c).inv.regions
      segs := ⟨List.nodup_nil, fun b => by simp [State.initial]⟩
      segEnd := fun b hb => absurd hb List.not_mem_nil
      headers := (LargeNodes.initial c).each
      list := (LargeNodes.initial c).list
      tlds := ⟨List.nodup_nil, fun t => by simp [State.initial, mappedTls]⟩
      tldPage := fun t x hx => absurd hx (by simp [State.initial, mappedTls]) }
  bytes := rfl
  count := rfl
  lists := (initial_holds c).inv.segLists
  arenas := fun b x hx => absurd hx (by simp [State.initial])

theorem MapBooks.answers (h : MapBooks c s g l T) (ans : List (Option Nat)) :
    MapBooks c { s with answers := ans } g l T :=
  ⟨{ h.maps with }, h.bytes, h.count, h.lists, h.arenas⟩

/-! ## Segments -/

/-- `segment_create`, and the linking that follows it in `arena_alloc`. -/
def growArena (c : Cfg) (s : State) (a : Nat) : State :=
  match segmentCreate c s a with
  | (seg, s) => if seg = 0 then s else linkSegment s a seg

theorem MapBooks.growArena (h : MapBooks c s g l T) {a : Nat} (ha : a < numArenas)
    (hans : some 0 ∉ s.answers) : ∃ g', MapBooks c (growArena c s a) g' l T := by
  unfold CustomMalloc.growArena
  rcases he : segmentCreate c s a with ⟨seg, s'⟩
  rcases segmentCreate_any he with ⟨rfl, ⟨rest, rfl⟩ | ⟨hzero, -⟩⟩ | ⟨h0, s₁, hg, rfl⟩
  · exact ⟨g, h.answers rest⟩
  · exact absurd hzero hans
  · obtain ⟨hnone, hmaps⟩ := h.maps.newSegment (a := a) hg
    have hlt := hmaps.total_lt
    have hsegs : s₁.segs = s.segs ∧ s₁.arenas = s.arenas ∧ s₁.larges = s.larges ∧
        s₁.largeAllocCount = s.largeAllocCount := by
      obtain ⟨_, _, _, _, rfl, -⟩ := hg.ext
      exact ⟨rfl, rfl, rfl, rfl⟩
    obtain ⟨hsegs, harenas, hlarges, hcount⟩ := hsegs
    have hhead : (s₁.arenas a).segments ≠ some seg := by
      intro hc
      obtain ⟨m, hm, hmem, -⟩ := h.lists a
      rw [harenas] at hc
      obtain ⟨x, hx, -⟩ := (hmem seg).mp (hm.head_mem hc)
      cases hnone.symm.trans hx
    simp only [if_neg h0]
    rw [linkSegment_created hhead]
    refine ⟨seg :: g, hmaps, ?_, ?_, ?_, ?_⟩
    · show s₁.mmapBytes = mappedTotal c s₁.larges (seg :: g) l T
      have hlt : mappedTotal c s₁.larges (seg :: g) l T < 2 ^ 64 := hlt
      have hbytes := h.bytes
      unfold mappedTotal at hlt hbytes ⊢
      rw [hg.bytes, hbytes, hlarges]
      rw [hlarges, List.length_cons] at hlt
      rw [List.length_cons, Nat.mod_eq_of_lt (by omega)]
      omega
    · exact hcount.trans h.count
    · have hlists := h.lists.insert (b := seg) (a := a) hnone
      rw [← hsegs, ← harenas] at hlists
      exact hlists
    · intro b x hx
      have hx : insertedSegs s₁.segs seg a (s₁.arenas a).segments b = some x := hx
      by_cases hb : b = seg
      · subst hb
        rw [insertedSegs_self] at hx
        cases hx
        exact ha
      · rw [hsegs] at hx
        cases hy : s.segs b with
        | none => cases (insertedSegs_none _ _ _ _ hb hy).symm.trans hx
        | some y =>
          obtain ⟨pr, hins, -⟩ := insertedSegs_ne s.segs seg a (s₁.arenas a).segments hb hy
          cases hins.symm.trans hx
          exact h.arenas b y hy

/-! ## Large blocks -/

theorem MapBooks.largeAlloc (h : MapBooks c s g l T) {size alignment : Nat}
    (hfit : LargeNoWrap c size alignment) (hans : some 0 ∉ s.answers) {p : Nat}
    (he : largeAllocAligned c s size alignment = .ok (p, s')) : ∃ l', MapBooks c s' g l' T := by
  rcases largeAllocAligned_any hfit he with ⟨-, rest, rfl⟩ | ⟨A, base, s₁, hg, hcases⟩
  · exact ⟨l, h.answers rest⟩
  · rcases hcases with ⟨h0, -⟩ | ⟨hok, -, rfl⟩
    · exact absurd (hg.null h0) hans
    · have hmaps := h.maps.linkLarge (largeHeader c base size alignment) hg.ext hg.fresh hok
      obtain ⟨hnone, hne, hnodes⟩ :=
        h.maps.nodes.link (largeHeader c base size alignment) hg.ext hg.fresh hok
      have hlt := hmaps.total_lt
      have hlen := h.maps.nodes.length_lt
      have hadd := sum_insertedLarges linkFree_size (h.maps.nodes.osExt hg.ext).list hnone
      obtain ⟨hlarges, -, -, hcount⟩ := hg.ext.headers
      have hsame : s₁.segs = s.segs ∧ s₁.arenas = s.arenas := by
        obtain ⟨_, _, _, _, rfl, -⟩ := hg.ext
        exact ⟨rfl, rfl⟩
      refine ⟨(largeHeader c base size alignment).base :: l, hmaps, ?_, ?_, ?_, ?_⟩
      all_goals rw [linkedLarge_eq hne]
      · rw [linkedLarge_eq hne] at hlt
        have hbytes := h.bytes
        unfold mappedTotal at hlt hbytes ⊢
        rw [hadd] at hlt ⊢
        rw [hlarges] at hlt ⊢
        show s₁.mmapBytes = _
        rw [hg.bytes, hbytes, Nat.mod_eq_of_lt (by omega)]
        omega
      · show (s₁.largeAllocCount + 1) % 2 ^ 64 = _
        rw [hcount, h.count, List.length_cons, Nat.mod_eq_of_lt hlen]
      · show SegListsOk s₁.segs s₁.arenas
        rw [hsame.1, hsame.2]
        exact h.lists
      · show ∀ b x, s₁.segs b = some x → _
        rw [hsame.1]
        exact h.arenas

theorem MapBooks.largeFree (h : MapBooks c s g l T) (x : Nat) :
    ∃ s' l', largeFree c s x = .ok s' ∧ MapBooks c s' g l' T := by
  rcases h.maps.nodes.largeFree h.count x with ⟨b, la, hb, -, he⟩ | ⟨-, he⟩
  · have hlt := h.maps.total_lt
    have hlen := h.maps.nodes.length_lt
    have hbl : b ∈ l := (h.maps.list.2 b).mpr (by rw [hb]; rfl)
    have hpos := List.length_pos_of_mem hbl
    have hsub := sum_removedLarges linkFree_size h.maps.list hb
    refine ⟨_, l.erase b, he, h.maps.freed hb, ?_, ?_, h.lists, h.arenas⟩
    · show (s.mmapBytes + 2 ^ 64 - la.size) % 2 ^ 64 =
        mappedTotal c (removedLarges s.larges b la) g (l.erase b) T
      have hbytes := h.bytes
      unfold mappedTotal at hlt hbytes ⊢
      omega
    · show (s.largeAllocCount + 2 ^ 64 - 1) % 2 ^ 64 = _
      rw [h.count, List.length_erase_of_mem hbl]
      omega
  · exact ⟨s, l, he, h⟩

/-! ## Threads -/

theorem MapBooks.tldGet (h : MapBooks c s g l T) {t : Nat} (hnone : s.tls t = none)
    (hans : some 0 ∉ s.answers) : ∃ T', MapBooks c (tldGet c s t).2 g l T' := by
  unfold CustomMalloc.tldGet
  rw [hnone]
  rcases hm : osMmapAligned c s c.osPage c.osPage with ⟨addr, s₁⟩
  simp only
  have hfit : AlignedFits c c.osPage c.osPage := fun hlt => absurd hlt (Nat.lt_irrefl _)
  rcases osMmapAligned_any hfit hm with ⟨rfl, rest, rfl⟩ | hg
  · exact ⟨T, h.answers rest⟩
  · have h0 : addr ≠ 0 := fun h0 => hans (hg.null h0)
    rw [if_neg h0]
    have hmaps := h.maps.newTld { addr := addr, threadId := s₁.threadIdCounter } hnone hg h0
      ((s₁.threadIdCounter + 1) % 2 ^ 32)
    have hlt := hmaps.total_lt
    refine ⟨t :: T, hmaps, ?_, ?_, ?_, ?_⟩
    · have hbytes := h.bytes
      obtain ⟨hlarges, -⟩ := hg.ext.headers
      show s₁.mmapBytes = mappedTotal c s₁.larges g l (t :: T)
      have hlt : mappedTotal c s₁.larges g l (t :: T) < 2 ^ 64 := hlt
      rw [hlarges] at hlt ⊢
      unfold mappedTotal at hlt hbytes ⊢
      rw [List.length_cons, Nat.mul_add, Nat.mul_one] at hlt ⊢
      rw [hg.bytes, hbytes, Nat.mod_eq_of_lt (by omega)]
      omega
    · exact hg.ext.headers.2.2.2.trans h.count
    · obtain ⟨_, _, _, _, rfl, -⟩ := hg.ext
      exact h.lists
    · obtain ⟨_, _, _, _, rfl, -⟩ := hg.ext
      exact h.arenas

/-- `tld_get` fails when the kernel refuses the page. -/
theorem tldGet_refused {t : Nat} (hans : some 0 ∉ s.answers)
    (he : tldGet c s t = (none, s')) : ∃ rest, s' = { s with answers := rest } := by
  unfold tldGet at he
  split at he
  next => exact absurd (congrArg Prod.fst he) (by simp)
  next =>
    split at he
    next addr s₁ hm =>
      have hfit : AlignedFits c c.osPage c.osPage := fun hlt => absurd hlt (Nat.lt_irrefl _)
      rcases osMmapAligned_any hfit hm with ⟨rfl, hrest⟩ | hg
      · obtain rfl := (Prod.mk.inj he).2
        exact hrest
      · rw [if_neg fun h0 => hans (hg.null h0)] at he
        exact absurd (congrArg Prod.fst he) (by simp)

/-- The final flush touches the statistics of one arena. -/
theorem exited_lists {t : Nat} {x : Tld} (h : SegListsOk s.segs s.arenas) :
    SegListsOk (exited s t x).segs (exited s t x).arenas := by
  intro a
  have hsame : ((exited s t x).arenas a).segments = (s.arenas a).segments ∧
      ((exited s t x).arenas a).segmentCount = (s.arenas a).segmentCount := by
    unfold exited
    cases x.arena with
    | none => exact ⟨rfl, rfl⟩
    | some b =>
      by_cases hab : a = b
      · subst hab
        simp [State.setArena]
      · simp [State.setArena, upd_ne hab]
  rw [hsame.1, hsame.2, (exited_frame s t x).1.segs]
  exact h a

theorem exited_books (s : State) (t : Nat) (x : Tld) :
    (exited s t x).largeList = s.largeList ∧ (exited s t x).mmapBytes = s.mmapBytes ∧
      (exited s t x).largeAllocCount = s.largeAllocCount := by
  unfold exited
  cases x.arena <;> exact ⟨rfl, rfl, rfl⟩

theorem MapBooks.tldCleanup (h : MapBooks c s g l T) (t : Nat) :
    ∃ T', MapBooks c (tldCleanup c s t) g l T' := by
  cases hx : s.tls t with
  | none =>
    rw [tldCleanup_none hx]
    exact ⟨T, h⟩
  | some x =>
    obtain ⟨hmeta, htls, -, -, hmapped⟩ := exited_frame s t x
    obtain ⟨hlist, hbytes, hcount⟩ := exited_books s t x
    have harenas : ∀ b y, (exited s t x).segs b = some y → y.arena < numArenas := by
      rw [hmeta.segs]
      exact h.arenas
    rw [tldCleanup_eq hx]
    split
    next hin =>
      -- the data stay where they are, in the bootstrap buffer
      have hnone : mappedTls c s.tls t = none := by
        unfold mappedTls
        rw [hx]
        simp [Option.filter, inBootstrap, hin.1, hin.2]
      have hsame : mappedTls c (exited s t x).tls = mappedTls c s.tls := by
        rw [htls, mappedTls_upd, show (none : Option Tld).filter _ = none from rfl, ← hnone,
          upd_eta]
      refine ⟨T, h.maps.congr hmapped hmeta.segs hmeta.larges hlist hsame, ?_, hcount.trans h.count,
        exited_lists h.lists, harenas⟩
      rw [hbytes, hmeta.larges]
      exact h.bytes
    next hout =>
      have hown : mappedTls c s.tls t = some x := by
        unfold mappedTls
        rw [hx]
        have hfalse : inBootstrap c x.addr = false := by
          unfold inBootstrap
          rw [Bool.and_eq_false_iff, decide_eq_false_iff_not, decide_eq_false_iff_not]
          exact not_and_or.mp hout
        simp [Option.filter, hfalse]
      obtain ⟨hpos, -, -⟩ := h.maps.tldPage t x hown
      have htT : t ∈ T := (h.maps.tlds.2 t).mpr (by rw [hown]; rfl)
      have hlen := List.length_pos_of_mem htT
      have hlt := h.maps.total_lt
      have hmaps := h.maps.exit hown
      have heq : osMunmap c (exited s t x) x.addr c.osPage = { exited s t x with
          mapped := unmapRange c (exited s t x).mapped x.addr c.osPage
          mmapBytes := ((exited s t x).mmapBytes + 2 ^ 64 - c.osPage) % 2 ^ 64 } :=
        if_pos ⟨Nat.ne_of_gt hpos, c.osPage_pos⟩
      rw [heq]
      refine ⟨T.erase t, hmaps.congr (by rw [hmapped]) hmeta.segs hmeta.larges hlist (by rw [htls]),
        ?_, hcount.trans h.count, exited_lists (t := t) h.lists, harenas⟩
      show ((exited s t x).mmapBytes + 2 ^ 64 - c.osPage) % 2 ^ 64 =
        mappedTotal c (exited s t x).larges g l (T.erase t)
      have hold := h.bytes
      rw [hbytes, hmeta.larges]
      unfold mappedTotal at hlt hold ⊢
      rw [List.length_erase_of_mem htT, Nat.mul_sub, Nat.mul_one]
      have hle := Nat.le_mul_of_pos_right c.osPage hlen
      omega

/-! ## Start-up -/

theorem bootstrapAlloc_heap (c : Cfg) (β : Boot) (size : Nat) :
    (bootstrapAlloc c β size).2.heap = β.heap := by
  unfold bootstrapAlloc
  simp only
  split <;> rfl

/-- `bootstrap_alloc` hands out a part of the buffer. -/
theorem bootstrapAlloc_in {β : Boot} (hfit : β.bootstrapUsed + tldSize < 2 ^ 64)
    (h0 : (bootstrapAlloc c β tldSize).1 ≠ 0) :
    inBootstrap c (bootstrapAlloc c β tldSize).1 = true := by
  have hsize : alignUp64 minAlign tldSize = 656 := by decide
  have hfit : β.bootstrapUsed + 656 < 2 ^ 64 := hfit
  unfold bootstrapAlloc at h0 ⊢
  simp only [hsize, Nat.mod_eq_of_lt hfit] at h0 ⊢
  split at h0
  next => exact absurd rfl h0
  next hle =>
    rw [if_neg hle]
    simp only [inBootstrap, Bool.and_eq_true, decide_eq_true_eq]
    simp only [bootstrapBufSize] at hle ⊢
    omega

theorem MapBooks.bootTldGet {β : Boot} (h : MapBooks c β.heap g l T) (t : Nat)
    (hans : some 0 ∉ β.heap.answers)
    (hfit : β.ready = false → β.bootstrapUsed + tldSize < 2 ^ 64) :
    ∃ T', MapBooks c (bootTldGet c β t).2.heap g l T' := by
  unfold CustomMalloc.bootTldGet
  cases hx : β.heap.tls t with
  | some x => exact ⟨T, h⟩
  | none =>
    simp only
    split
    next => exact h.tldGet hx hans
    next hready =>
      have hheap := bootstrapAlloc_heap c β tldSize
      have hin := bootstrapAlloc_in (c := c) (hfit (by simpa using hready))
      generalize bootstrapAlloc c β tldSize = r at hheap hin ⊢
      obtain ⟨addr, β'⟩ := r
      simp only at hheap hin ⊢
      split
      next =>
        rw [hheap]
        exact ⟨T, h⟩
      next h0 =>
        have hnone : mappedTls c β.heap.tls t = none := by
          unfold mappedTls
          rw [hx]
          rfl
        refine ⟨T, h.maps.congr ?_ ?_ ?_ ?_ ?_, ?_, ?_, ?_, ?_⟩
        all_goals simp only [hheap]
        · rw [mappedTls_upd]
          simp only [Option.filter, hin h0, Bool.not_true]
          rw [if_neg (by simp), ← hnone, upd_eta]
        · exact h.bytes
        · exact h.count
        · exact h.lists
        · exact h.arenas

/-- Nothing is mapped yet for segments and large blocks. -/
def Boot.Empty (β : Boot) : Prop :=
  (∀ b, β.heap.segs b = none) ∧ ∀ b, β.heap.larges b = none

theorem MapBooks.mallocInit {β : Boot} (h : MapBooks c β.heap g l T) (hempty : β.Empty) :
    ∃ l', MapBooks c (mallocInit β).heap g l' T := by
  unfold CustomMalloc.mallocInit
  split
  next => exact ⟨l, h⟩
  next =>
    obtain ⟨hsegs, hlarges⟩ := hempty
    have hl : l = [] := by
      refine List.eq_nil_iff_forall_not_mem.mpr fun b hb => ?_
      have := (h.maps.list.2 b).mp hb
      rw [hlarges b] at this
      cases this
    subst hl
    refine ⟨[], { h.maps with list := ⟨⟨rfl, trivial⟩, h.maps.list.2⟩ }, h.bytes, h.count, ?_,
      h.arenas⟩
    intro a
    obtain ⟨m, hm, hmem, hlen⟩ := h.lists a
    have hm0 : m = [] := by
      refine List.eq_nil_iff_forall_not_mem.mpr fun b hb => ?_
      obtain ⟨x, hx, -⟩ := (hmem b).mp hb
      cases (hsegs b).symm.trans hx
    subst hm0
    refine ⟨[], ?_, hmem, ?_⟩
    · simp only
      split
      next => exact ⟨rfl, trivial⟩
      next => exact hm
    · simp only
      split
      next => rfl
      next => exact hlen

/-! ## Runs -/

/-- The kernel answers, for the next call. -/
def Boot.withAnswers (β : Boot) (ans : List (Option Nat)) : Boot :=
  { β with heap := β.heap.withAnswers ans }

/-- One call by any thread, with any answers of the kernel but address 0. No sum wraps, and
`malloc_init` comes before the first segment and the first large block, as
`malloc_ensure_init` in every public function sees to. -/
inductive MapStep (c : Cfg) : Boot → Boot → Prop
  | segmentCreate {β : Boot} (a : Nat) (ans : List (Option Nat)) (ha : a < numArenas)
      (hans : some 0 ∉ ans) :
      MapStep c β { β with heap := growArena c (β.heap.withAnswers ans) a }
  | largeAlloc {β : Boot} {s' : State} (size alignment p : Nat) (ans : List (Option Nat))
      (hfit : LargeNoWrap c size alignment) (hans : some 0 ∉ ans)
      (he : largeAllocAligned c (β.heap.withAnswers ans) size alignment = .ok (p, s')) :
      MapStep c β { β with heap := s' }
  | largeFree {β : Boot} {s' : State} (x : Nat) (he : largeFree c β.heap x = .ok s') :
      MapStep c β { β with heap := s' }
  | tldGet {β : Boot} (t : Nat) (ans : List (Option Nat)) (hans : some 0 ∉ ans)
      (hfit : β.ready = false → β.bootstrapUsed + tldSize < 2 ^ 64) :
      MapStep c β (bootTldGet c (β.withAnswers ans) t).2
  | tldCleanup {β : Boot} (t : Nat) : MapStep c β { β with heap := tldCleanup c β.heap t }
  | init {β : Boot} (hempty : β.Empty) : MapStep c β (mallocInit β)

/-- The states between two calls. -/
def MapReachable (c : Cfg) (β : Boot) : Prop := Relation.ReflTransGen (MapStep c) (Boot.start c) β

theorem MapReachable.books {β : Boot} (h : MapReachable c β) :
    ∃ g l T, MapBooks c β.heap g l T := by
  induction h with
  | refl => exact ⟨[], [], [], .initial c⟩
  | tail _ hs ih =>
    obtain ⟨g, l, T, hb⟩ := ih
    cases hs with
    | segmentCreate a ans ha hans =>
      obtain ⟨g', hg'⟩ := (hb.answers ans).growArena ha hans
      exact ⟨g', l, T, hg'⟩
    | largeAlloc size alignment p ans hfit hans he =>
      obtain ⟨l', hl'⟩ := (hb.answers ans).largeAlloc hfit hans he
      exact ⟨g, l', T, hl'⟩
    | largeFree x he =>
      obtain ⟨s', l', he', hl'⟩ := hb.largeFree x
      obtain rfl := Except.ok.inj (he'.symm.trans he)
      exact ⟨g, l', T, hl'⟩
    | tldGet t ans hans hfit =>
      obtain ⟨T', hT'⟩ :=
        MapBooks.bootTldGet (β := Boot.withAnswers _ ans) (hb.answers ans) t hans hfit
      exact ⟨g, l, T', hT'⟩
    | tldCleanup t =>
      obtain ⟨T', hT'⟩ := hb.tldCleanup t
      exact ⟨g, l, T', hT'⟩
    | init hempty =>
      obtain ⟨l', hl'⟩ := hb.mallocInit hempty
      exact ⟨g, l', T, hl'⟩

/-- A thread whose `tld_t` was mapped, not taken from the bootstrap buffer. -/
def HasPage (c : Cfg) (s : State) (t : Nat) : Prop :=
  ∃ x, s.tls t = some x ∧ inBootstrap c x.addr = false

theorem hasPage_iff {t : Nat} : HasPage c s t ↔ (mappedTls c s.tls t).isSome := by
  unfold HasPage mappedTls
  cases s.tls t with
  | none => simp
  | some x => simp [Option.filter]

/-- The lists of the four arenas hold every segment once. -/
theorem MapBooks.segment_count (h : MapBooks c s g l T) {L : Nat → List Nat}
    (hL : ∀ a, DList (fun b => (s.segs b).bind Segment.next) (fun b => (s.segs b).bind Segment.prev)
      (s.arenas a).segments (L a) ∧ ∀ b, b ∈ L a ↔ ∃ x, s.segs b = some x ∧ x.arena = a) :
    ((List.range numArenas).map fun a => (L a).length).sum = g.length := by
  rw [← List.length_flatMap]
  refine (List.Perm.length_eq ?_)
  refine (List.perm_ext_iff_of_nodup ?_ h.maps.segs.1).mpr fun b => ?_
  · refine List.nodup_flatMap.mpr ⟨fun a _ => (hL a).1.1.nodup, ?_⟩
    refine List.Pairwise.imp ?_ List.nodup_range
    intro a a' hne b hb hb'
    obtain ⟨x, hx, rfl⟩ := ((hL a).2 b).mp hb
    obtain ⟨x', hx', rfl⟩ := ((hL a').2 b).mp hb'
    exact hne (by rw [Option.some.inj (hx.symm.trans hx')])
  · rw [h.maps.segs.2 b, List.mem_flatMap]
    constructor
    · intro hb
      obtain ⟨a, -, hb⟩ := hb
      obtain ⟨x, hx, -⟩ := ((hL a).2 b).mp hb
      rw [hx]
      rfl
    · intro hb
      obtain ⟨x, hx⟩ := Option.isSome_iff_exists.mp hb
      exact ⟨x.arena, List.mem_range.mpr (h.arenas b x hx), ((hL _).2 b).mpr ⟨x, hx, rfl⟩⟩

/-- The counters are what they were. -/
def SameBooks (s s' : State) : Prop :=
  s'.mmapBytes = s.mmapBytes ∧ s'.largeAllocCount = s.largeAllocCount

/-- Between two calls `mmap_bytes` is 4 MB for each segment in the arenas' lists, the size of each
large block in `large_list` and one OS page for each thread that has one, and
`large_alloc_count` is the length of the list. A call that fails changes neither. -/
theorem mapped_bytes_exact (c : Cfg) (β : Boot) (h : MapReachable c β) :
    (∃ (L : Nat → List Nat) (l T : List Nat),
      (∀ a, Linked (fun b => (β.heap.segs b).bind Segment.next) (β.heap.arenas a).segments (L a)) ∧
      Linked (fun b => (β.heap.larges b).bind LargeAlloc.next) β.heap.largeList l ∧
      (T.Nodup ∧ ∀ t, t ∈ T ↔ HasPage c β.heap t) ∧
      β.heap.mmapBytes = segmentSize * ((List.range numArenas).map fun a => (L a).length).sum +
        (l.map (fieldAt LargeAlloc.size β.heap.larges)).sum + c.osPage * T.length ∧
      β.heap.largeAllocCount = l.length) ∧
    ∀ ans, some 0 ∉ ans →
      (∀ a s', segmentCreate c (β.heap.withAnswers ans) a = (0, s') → SameBooks β.heap s') ∧
      (∀ size alignment s', LargeNoWrap c size alignment →
        largeAllocAligned c (β.heap.withAnswers ans) size alignment = .ok (0, s') →
          SameBooks β.heap s') ∧
      ∀ t β', bootTldGet c (β.withAnswers ans) t = (none, β') → SameBooks β.heap β'.heap := by
  obtain ⟨g, l, T, hb⟩ := h.books
  refine ⟨?_, fun ans hans => ⟨?_, ?_, ?_⟩⟩
  · choose L hL hmem hlen using hb.lists
    refine ⟨L, l, T, fun a => (hL a).1, hb.maps.list.1.1,
      ⟨hb.maps.tlds.1, fun t => (hb.maps.tlds.2 t).trans hasPage_iff.symm⟩, ?_, hb.count⟩
    rw [hb.segment_count fun a => ⟨hL a, hmem a⟩]
    exact hb.bytes
  · intro a s' he
    rcases segmentCreate_any he with ⟨-, ⟨rest, rfl⟩ | ⟨hzero, -⟩⟩ | ⟨h0, -⟩
    · exact ⟨rfl, rfl⟩
    · exact absurd hzero hans
    · exact absurd rfl h0
  · intro size alignment s' hfit he
    rcases largeAllocAligned_any hfit he with ⟨-, rest, rfl⟩ | ⟨A, base, s₁, hg, hcases⟩
    · exact ⟨rfl, rfl⟩
    · rcases hcases with ⟨h0, -⟩ | ⟨hok, hp, -⟩
      · exact absurd (hg.null h0) hans
      · have hpos := hok.pos
        omega
  · intro t β' he
    unfold CustomMalloc.bootTldGet at he
    split at he
    next => exact absurd (congrArg Prod.fst he) (by simp)
    next hx =>
    split at he
    next =>
      rcases hg : CustomMalloc.tldGet c (β.withAnswers ans).heap t with ⟨o, s₁⟩
      rw [hg] at he
      cases he
      obtain ⟨rest, rfl⟩ := tldGet_refused hans hg
      exact ⟨rfl, rfl⟩
    next =>
      have hheap := bootstrapAlloc_heap c (β.withAnswers ans) tldSize
      generalize bootstrapAlloc c (β.withAnswers ans) tldSize = r at hheap he
      obtain ⟨addr, β₁⟩ := r
      simp only at hheap he
      split at he
      next =>
        obtain rfl := (Prod.mk.inj he).2
        rw [hheap]
        exact ⟨rfl, rfl⟩
      next => exact absurd (congrArg Prod.fst he) (by simp)

/-- Thread 0 starts before `malloc_init` and thread 1 after it. -/
def twoThreads : Boot :=
  (bootTldGet (.page4k false) ((mallocInit (bootTldGet (.page4k false)
    ((Boot.start (.page4k false)).withAnswers []) 0).2).withAnswers [some 0x10000000]) 1).2

/-- Then arena 0 grows. -/
def grownHeap : State :=
  growArena (.page4k false) (twoThreads.heap.withAnswers [some 0x20000000]) 0

/-- A large block is allocated, and thread 0 exits. -/
def mixedHeap : State :=
  tldCleanup (.page4k false) (returned grownHeap (largeAllocAligned (.page4k false)
    (grownHeap.withAnswers [some 0x30000000]) 200000 16)).2 0

theorem mixedHeap_reachable :
    MapReachable (.page4k false) { twoThreads with heap := mixedHeap } := by
  have h₀ : MapReachable (.page4k false) (bootTldGet (.page4k false)
      ((Boot.start (.page4k false)).withAnswers []) 0).2 :=
    .tail .refl (.tldGet 0 [] List.not_mem_nil fun _ => by decide)
  have h₁ := h₀.tail (.init ⟨fun _ => rfl, fun _ => rfl⟩)
  have h₂ : MapReachable (.page4k false) twoThreads :=
    h₁.tail (.tldGet 1 [some 0x10000000] (by decide) fun h => absurd h (by decide +kernel))
  have h₃ := h₂.tail (.segmentCreate 0 [some 0x20000000] (by decide) (by decide))
  have h₄ := h₃.tail (.largeAlloc 200000 16 0x30000030 [some 0x30000000] (by decide) (by decide)
    (eq_ok_of_returned (s := grownHeap) (by decide +kernel)))
  exact h₄.tail (.tldCleanup 0)

/-- One segment, one large block of 49 OS pages and the page of thread 1. -/
theorem mapped_bytes_exact_mixed :
    mixedHeap.mmapBytes = 4194304 + 200704 + 4096 ∧
    MapReachable (.page4k false) { twoThreads with heap := mixedHeap } ∧
    ∃ (L : Nat → List Nat) (l T : List Nat),
      mixedHeap.mmapBytes = segmentSize * ((List.range numArenas).map fun a => (L a).length).sum +
        (l.map (fieldAt LargeAlloc.size mixedHeap.larges)).sum + 4096 * T.length := by
  refine ⟨by decide +kernel, mixedHeap_reachable, ?_⟩
  obtain ⟨⟨L, l, T, -, -, -, hbytes, -⟩, -⟩ :=
    mapped_bytes_exact (.page4k false) { twoThreads with heap := mixedHeap } mixedHeap_reachable
  exact ⟨L, l, T, hbytes⟩

end CustomMalloc

import CustomMalloc.Inv.LargeNodes
import CustomMalloc.Run

/-!
# The large list is a set of blocks

`LargeRun c s B`: calls of `large_alloc_aligned` and `large_free` led to the state
`s`, and `B` are the blocks that were allocated and not freed since, newest first.
`B` is what the calls say, not what the headers say: a call that returns `p` adds
the range the header space puts below `p`, and `large_free(x)` takes away the range
that contains `x`.

`large_list` is that list (`Represents`), so `large_find` is a search in it and
`large_free` removes one element (`large_list_faithful`).
-/

namespace CustomMalloc

open Lib.Words Lib.Chain Lib.Regions Lib.Intervals

variable {c : Cfg} {s s' : State} {l : List Nat}

/-- A block: its base and the size of its mapping. -/
abbrev Range := Nat × Nat

/-- `base <= x && x < base + size`. -/
def Range.contains (r : Range) (x : Nat) : Bool := decide (r.1 ≤ x) && decide (x < r.1 + r.2)

/-- Two ranges have no address in common. -/
def Range.Apart (r r' : Range) : Prop := r.1 + r.2 ≤ r'.1 ∨ r'.1 + r'.2 ≤ r.1

/-- The blocks after a call of `large_alloc_aligned` that returned `p`. -/
def afterAlloc (c : Cfg) (B : List Range) (size alignment p : Nat) : List Range :=
  if p = 0 then B
  else (p - headerSpace (raisedAlign alignment), largeTotal c size (raisedAlign alignment)) :: B

/-- The blocks after `large_free(x)`. -/
def afterFree (B : List Range) (x : Nat) : List Range := B.filter fun r => !r.contains x

/-- The states of the runs of `large_alloc_aligned` and `large_free` in which no size computation
wraps, with the blocks. -/
inductive LargeRun (c : Cfg) : State → List Range → Prop
  | init : LargeRun c (State.initial c) []
  | alloc {s s' : State} {B : List Range} (h : LargeRun c s B) (size alignment p : Nat)
      (ans : List (Option Nat)) (hfit : LargeNoWrap c size alignment)
      (he : largeAllocAligned c (s.withAnswers ans) size alignment = .ok (p, s')) :
      LargeRun c s' (afterAlloc c B size alignment p)
  | free {s s' : State} {B : List Range} (h : LargeRun c s B) (x : Nat)
      (he : largeFree c s x = .ok s') : LargeRun c s' (afterFree B x)

/-- `large_list` holds exactly the blocks `B`, in this order. -/
structure Represents (s : State) (B : List Range) : Prop where
  /-- following `next` from the head visits the blocks and ends; `prev` goes back -/
  list : DList (fun b => (s.larges b).bind LargeAlloc.next)
    (fun b => (s.larges b).bind LargeAlloc.prev) s.largeList (B.map Prod.fst)
  inverse : ∀ r ∈ B, ∀ r' ∈ B, (s.larges r.1).bind LargeAlloc.next = some r'.1 ↔
    (s.larges r'.1).bind LargeAlloc.prev = some r.1
  once : (B.map Prod.fst).Nodup
  node : ∀ r ∈ B, ∃ la, s.larges r.1 = some la ∧ la.base = r.1 ∧ la.size = r.2
  only : ∀ b, (s.larges b).isSome → b ∈ B.map Prod.fst

/-! ## The invariant -/

/-- The nodes are the blocks, and they are counted. -/
structure LargeSet (c : Cfg) (s : State) (B : List Range) : Prop where
  nodes : LargeNodes c s (B.map Prod.fst)
  count : s.largeAllocCount = B.length
  size : ∀ r ∈ B, fieldAt LargeAlloc.size s.larges r.1 = r.2

variable {B : List Range}

theorem LargeSet.initial (c : Cfg) : LargeSet c (State.initial c) [] :=
  ⟨.initial c, rfl, fun _ hr => absurd hr List.not_mem_nil⟩

theorem LargeSet.osExt (h : LargeSet c s B) (hos : OsExt s s') : LargeSet c s' B := by
  obtain ⟨hlarges, -, -, hcount⟩ := hos.headers
  exact ⟨h.nodes.osExt hos, hcount.trans h.count, by rw [hlarges]; exact h.size⟩

theorem OsExt.answers (s : State) (ans : List (Option Nat)) : OsExt s { s with answers := ans } :=
  ⟨ans, s.mapped, s.mem, s.mmapBytes, rfl, fun _ hx => ⟨hx, rfl⟩⟩

/-- A block of the list contains `x` exactly if its mapping does. -/
theorem LargeSet.contains_iff (h : LargeSet c s B) {r : Range} (hr : r ∈ B) {x : Nat} :
    r.contains x = true ↔ InMapping s.larges r.1 x := by
  obtain ⟨la, hla, -⟩ := h.nodes.get (List.mem_map_of_mem hr)
  have hsize := h.size r hr
  rw [fieldAt_of_some hla] at hsize
  unfold Range.contains
  rw [Bool.and_eq_true, decide_eq_true_eq, decide_eq_true_eq, ← hsize]
  constructor
  · intro hx
    exact ⟨la, hla, hx⟩
  · intro hx
    obtain ⟨la', hla', hx⟩ := hx
    rw [Option.some.inj (hla.symm.trans hla')]
    exact hx

theorem LargeSet.mem_iff (h : LargeSet c s B) {b : Nat} :
    (s.larges b).isSome ↔ ∃ r ∈ B, r.1 = b := by
  rw [← h.nodes.list.2 b, List.mem_map]

/-- A successful call puts its block in front; any other leaves the list alone. -/
theorem LargeSet.alloc (h : LargeSet c s B) {size alignment p : Nat}
    (hfit : LargeNoWrap c size alignment)
    (he : largeAllocAligned c s size alignment = .ok (p, s')) :
    LargeSet c s' (afterAlloc c B size alignment p) := by
  rcases largeAllocAligned_any hfit he with ⟨rfl, rest, rfl⟩ | ⟨A, base, s₁, hg, hcases⟩
  · exact h.osExt (.answers s rest)
  · rcases hcases with ⟨-, rfl, rfl⟩ | ⟨hok, rfl, rfl⟩
    · exact h.osExt hg.ext
    · have hpos := hok.pos
      obtain ⟨hnone, hne, hnodes⟩ := h.nodes.link (largeHeader c base size alignment) hg.ext
        hg.fresh hok
      have h₁ := h.osExt hg.ext
      unfold afterAlloc
      rw [if_neg (by omega), Nat.add_sub_cancel]
      refine ⟨hnodes, ?_, ?_⟩
      · -- the count does not wrap
        have hlen := h.nodes.length_lt
        rw [List.length_map] at hlen
        rw [linkedLarge_eq hne, List.length_cons]
        show (s₁.largeAllocCount + 1) % 2 ^ 64 = _
        rw [h₁.count, Nat.mod_eq_of_lt hlen]
      · rw [linkedLarge_eq hne]
        intro r hr
        rcases List.mem_cons.mp hr with rfl | hr
        · exact fieldAt_of_some (insertedLarges_self s₁.larges _ s₁.largeList)
        · obtain ⟨y, hy⟩ := Option.isSome_iff_exists.mp (h₁.mem_iff.mpr ⟨r, hr, rfl⟩)
          have hbb : r.1 ≠ (largeHeader c base size alignment).base := by
            intro hbb
            rw [hbb, hnone] at hy
            cases hy
          obtain ⟨pr, hins, -⟩ := insertedLarges_ne s₁.larges _ s₁.largeList hbb hy
          have hsize := h₁.size r hr
          rw [fieldAt_of_some hy] at hsize
          exact Eq.trans (fieldAt_of_some hins) hsize

/-- What `large_free` of any pointer does: the block that contains it goes, and the others
keep their places; or no block contains it and nothing changes. -/
theorem LargeSet.free (h : LargeSet c s B) (x : Nat) :
    ∃ s', largeFree c s x = .ok s' ∧ LargeSet c s' (afterFree B x) ∧
      ((∀ r ∈ B, r.contains x = false) → s' = s) := by
  have hcount : s.largeAllocCount = (B.map Prod.fst).length := by rw [List.length_map, h.count]
  rcases h.nodes.largeFree hcount x with ⟨b, la, hb, hin, he⟩ | ⟨hno, he⟩
  · refine ⟨_, he, ?_, ?_⟩
    · have hiff : ∀ r ∈ B, (!r.contains x) = (r.1 != b) := by
        intro r hr
        have hri := h.contains_iff hr (x := x)
        by_cases hrb : r.1 = b
        · rw [hri.mpr (by rw [hrb]; exact hin), hrb]
          simp
        · have hout : r.contains x = false := by
            by_contra hc
            exact hrb (h.nodes.apart.apart (hri.mp (by simpa using hc)) hin)
          rw [hout]
          simpa using hrb
      have hmap : (afterFree B x).map Prod.fst = (B.map Prod.fst).erase b := by
        unfold afterFree
        rw [List.filter_congr hiff, h.nodes.list.1.1.nodup.erase_eq_filter, List.filter_map]
        rfl
      have hnodes := h.nodes.freed hb
      rw [← hmap] at hnodes
      refine ⟨hnodes, ?_, ?_⟩
      · have hbl : b ∈ B.map Prod.fst := (h.nodes.list.2 b).mpr (by rw [hb]; rfl)
        have hlen := h.nodes.length_lt
        have hpos := List.length_pos_of_mem hbl
        have hrest : (afterFree B x).length = (B.map Prod.fst).length - 1 := by
          rw [← List.length_map (f := Prod.fst), hmap, List.length_erase_of_mem hbl]
        show (s.largeAllocCount + 2 ^ 64 - 1) % 2 ^ 64 = _
        rw [hrest, hcount]
        omega
      · intro r hr
        obtain ⟨hrB, hout⟩ := List.mem_filter.mp hr
        have hne : r.1 ≠ b := by
          rw [hiff r hrB] at hout
          simpa using hout
        obtain ⟨y, hy⟩ := Option.isSome_iff_exists.mp (h.mem_iff.mpr ⟨r, hrB, rfl⟩)
        have hsize := h.size r hrB
        rw [fieldAt_of_some hy] at hsize
        exact Eq.trans (fieldAt_of_some (removedLarges_ne hne hy)) hsize
    · intro hall
      obtain ⟨r, hr, rfl⟩ := h.mem_iff.mp (by rw [hb]; rfl)
      have := (h.contains_iff hr (x := x)).mpr hin
      rw [hall r hr] at this
      cases this
  · have hall : ∀ r ∈ B, r.contains x = false := by
      intro r hr
      by_contra hc
      exact hno r.1 ((h.contains_iff hr).mp (by simpa using hc))
    refine ⟨s, he, ?_, fun _ => rfl⟩
    have hsame : afterFree B x = B := by
      unfold afterFree
      rw [List.filter_eq_self]
      intro r hr
      rw [hall r hr]
      rfl
    rw [hsame]
    exact h

theorem LargeRun.set (h : LargeRun c s B) : LargeSet c s B := by
  induction h with
  | init => exact .initial c
  | alloc _ size alignment p ans hfit he ih => exact (ih.osExt (.answers _ ans)).alloc hfit he
  | free _ x he ih =>
    obtain ⟨s₁, he₁, hset, -⟩ := ih.free x
    obtain rfl := Except.ok.inj (he₁.symm.trans he)
    exact hset

/-! ## What the list is -/

theorem LargeSet.represents (h : LargeSet c s B) : Represents s B where
  list := h.nodes.list.1
  inverse := fun r hr r' hr' =>
    h.nodes.list.1.next_iff_prev (List.mem_map_of_mem hr) (List.mem_map_of_mem hr')
  once := h.nodes.list.1.1.nodup
  node := fun r hr => by
    obtain ⟨la, hla, hok⟩ := h.nodes.get (List.mem_map_of_mem hr)
    have hsize := h.size r hr
    rw [fieldAt_of_some hla] at hsize
    exact ⟨la, hla, hok.base, hsize⟩
  only := fun b hb => (h.nodes.list.2 b).mpr hb

theorem LargeSet.pairwise (h : LargeSet c s B) : B.Pairwise Range.Apart := by
  refine List.Pairwise.imp_of_mem ?_ (List.pairwise_map.mp h.nodes.list.1.1.nodup)
  intro r r' hr hr' hne
  obtain ⟨la, hla, -, hsize⟩ := h.represents.node r hr
  obtain ⟨la', hla', -, hsize'⟩ := h.represents.node r' hr'
  unfold Range.Apart
  rw [← hsize, ← hsize']
  exact h.nodes.disjoint hla hla' hne

/-- `large_find` is the search for the block that contains the pointer; there is only one. -/
theorem LargeSet.find (h : LargeSet c s B) (x : Nat) :
    (∀ r ∈ B, r.contains x = true → largeFind s x = .ok (some r.1) ∧
      ∀ r' ∈ B, r'.contains x = true → r' = r) ∧
    ((∀ r ∈ B, r.contains x = false) → largeFind s x = .ok none) := by
  have hcount : s.largeAllocCount = (B.map Prod.fst).length := by rw [List.length_map, h.count]
  refine ⟨fun r hr hx => ⟨?_, fun r' hr' hx' => ?_⟩, fun hno => ?_⟩
  · rw [h.nodes.largeFind hcount, h.nodes.find_eq ((h.contains_iff hr).mp hx)]
  · have hb := h.nodes.apart.apart ((h.contains_iff hr').mp hx') ((h.contains_iff hr).mp hx)
    have hsize := h.size r hr
    have hsize' := h.size r' hr'
    rw [hb] at hsize'
    exact Prod.ext hb (hsize'.symm.trans hsize)
  · rw [h.nodes.largeFind hcount, h.nodes.find_none]
    intro b hb
    obtain ⟨r, hr, rfl⟩ := h.mem_iff.mp (by rw [hb.choose_spec.1]; rfl)
    have := (h.contains_iff hr).mpr hb
    rw [hno r hr] at this
    cases this

/-- The large list. It is the doubly linked list of the blocks, which do not overlap;
`large_find` returns the one that contains the pointer; and `large_free` removes it and leaves
the others in order, or does nothing. -/
theorem large_list_faithful (c : Cfg) (s : State) (B : List Range) (h : LargeRun c s B) :
    Represents s B ∧ B.Pairwise Range.Apart ∧
    (∀ x, (∀ r ∈ B, r.contains x = true → largeFind s x = .ok (some r.1) ∧
        ∀ r' ∈ B, r'.contains x = true → r' = r) ∧
      ((∀ r ∈ B, r.contains x = false) → largeFind s x = .ok none)) ∧
    ∀ x, ∃ s', largeFree c s x = .ok s' ∧ Represents s' (afterFree B x) ∧
      ((∀ r ∈ B, r.contains x = false) → s' = s) := by
  refine ⟨h.set.represents, h.set.pairwise, h.set.find, ?_⟩
  intro x
  obtain ⟨s', he, hset, hsame⟩ := h.set.free x
  exact ⟨s', he, hset.represents, hsame⟩

/-- One more `large_alloc_aligned`, for runs that are written out. -/
theorem LargeRun.allocated (h : LargeRun c s B) (size alignment p : Nat) (ans : List (Option Nat))
    (hfit : LargeNoWrap c size alignment)
    (hp : (returned s (largeAllocAligned c (s.withAnswers ans) size alignment)).1 = some p) :
    LargeRun c (returned s (largeAllocAligned c (s.withAnswers ans) size alignment)).2
      (afterAlloc c B size alignment p) :=
  h.alloc size alignment p ans hfit (eq_ok_of_returned hp)

/-- The heap after `large_alloc_aligned(200000, 16)`. -/
def firstLarge : State :=
  (returned (State.initial (.page4k false)) (largeAllocAligned (.page4k false)
    ((State.initial (.page4k false)).withAnswers [some 0x10000000]) 200000 16)).2

/-- And after `large_alloc_aligned(300000, 24)`. -/
def twoLarges : State :=
  (returned firstLarge (largeAllocAligned (.page4k false)
    (firstLarge.withAnswers [some 0x20000000]) 300000 24)).2

theorem twoLarges_run :
    LargeRun (.page4k false) twoLarges [(0x20000000, 303104), (0x10000000, 200704)] := by
  have h₁ : LargeRun (.page4k false) firstLarge _ :=
    LargeRun.init.allocated 200000 16 0x10000030 [some 0x10000000] (by decide) (by decide +kernel)
  exact h₁.allocated 300000 24 0x20000040 [some 0x20000000] (by decide) (by decide +kernel)

/-- The older of two blocks is freed through a pointer into its middle. -/
theorem large_list_faithful_tail : ∃ s, LargeRun (.page4k false) s [(0x20000000, 303104)] ∧
    Represents s [(0x20000000, 303104)] ∧ largeFind s 0x20000040 = .ok (some 0x20000000) ∧
    largeFind s 0x10000030 = .ok none := by
  obtain ⟨s, he, -⟩ := twoLarges_run.set.free 0x10001000
  have hrun : LargeRun (.page4k false) s [(0x20000000, 303104)] := twoLarges_run.free 0x10001000 he
  obtain ⟨hrep, -, hfind, -⟩ := large_list_faithful (.page4k false) s _ hrun
  exact ⟨s, hrun, hrep, ((hfind 0x20000040).1 _ (List.mem_singleton.mpr rfl) (by decide)).1,
    (hfind 0x10000030).2 (by decide)⟩

end CustomMalloc

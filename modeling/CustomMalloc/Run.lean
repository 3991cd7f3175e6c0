import CustomMalloc.Inv.Malloc
import Mathlib.Logic.Relation

/-!
# Runs of the allocator and its clients

A run is a sequence of whole calls of the public API, by any threads in any
order, and of writes by the clients into their blocks. `Sys` adds to the heap
what the clients know: the pointers they hold, each with the size it was
requested with. Before every call the kernel picks what `mmap` will answer.

The clients keep to the contract of the API (`Op.Legal`): they free and
reallocate only what they hold. `Reachable c P` are the states of the runs all of
whose calls satisfy `P`. `Holds` is the invariant of the runs, and `step_holds`
its step lemma.
-/

namespace CustomMalloc

open Lib.Words Lib.Bytes Lib.Chain Lib.Intervals Lib.Regions Lib.Post

/-! ## Calls -/

/-- The calls of the public API. -/
inductive Op where
  | malloc (size : Nat)
  | calloc (count size : Nat)
  | realloc (ptr size : Nat)
  | free (ptr : Nat)
  | memalign (alignment size : Nat)
  deriving DecidableEq, Repr

/-- Run one call; `my_free` has no result. -/
def exec (c : Cfg) (s : State) (t : Nat) : Op → Except Halt (Nat × State)
  | .malloc size => myMalloc c s t size
  | .calloc count size => myCalloc c s t count size
  | .realloc ptr size => myRealloc c s t ptr size
  | .free ptr => do
    let s ← myFree c s t ptr
    return (0, s)
  | .memalign alignment size => myMemalign c s t alignment size

/-- The heap and the pointers the clients hold, with the sizes they asked for. -/
structure Sys where
  heap : State
  live : List (Nat × Nat)

/-- The pointers the clients hold. -/
def Sys.ptrs (σ : Sys) : List Nat := σ.live.map Prod.fst

/-- The state before the first call. -/
def Sys.initial (c : Cfg) : Sys := ⟨State.initial c, []⟩

/-- `live` without the pointer `p`. -/
def dropPtr (p : Nat) (live : List (Nat × Nat)) : List (Nat × Nat) :=
  live.filter fun x => x.1 != p

/-- `live` with the result of a request, if there is one. -/
def addPtr (q n : Nat) (live : List (Nat × Nat)) : List (Nat × Nat) :=
  if q = 0 then live else (q, n) :: live

/-- What the clients hold after a call with result `q`. -/
def liveAfter (live : List (Nat × Nat)) (q : Nat) : Op → List (Nat × Nat)
  | .malloc size => addPtr q size live
  | .calloc count size => addPtr q (count * size) live
  | .realloc ptr size =>
    if ptr = 0 then addPtr q size live
    else if size = 0 then dropPtr ptr live
    else if q = 0 then live
    else (q, size) :: dropPtr ptr live
  | .free ptr => dropPtr ptr live
  | .memalign _ size => addPtr q size live

/-- The heap before a call during which the kernel will give these answers. -/
def State.withAnswers (s : State) (ans : List (Option Nat)) : State := { s with answers := ans }

/-- The value and the state that a call returns; for runs that are written out. -/
def returned {α : Type} (s : State) : Except Halt (α × State) → Option α × State
  | .ok (a, s') => (some a, s')
  | .error _ => (none, s)

theorem eq_ok_of_returned {α : Type} {s : State} {e : Except Halt (α × State)} {a : α}
    (h : (returned s e).1 = some a) : e = .ok (a, (returned s e).2) := by
  cases e with
  | error e => exact absurd h (by simp [returned])
  | ok x =>
    obtain ⟨b, s'⟩ := x
    obtain rfl : b = a := Option.some.inj h
    rfl

/-- One call by thread `t`, with the kernel's answers. -/
def Sys.call (c : Cfg) (σ : Sys) (t : Nat) (op : Op) (ans : List (Option Nat)) :
    Except Halt (Nat × Sys) := do
  let (q, s) ← exec c (σ.heap.withAnswers ans) t op
  return (q, ⟨s, liveAfter σ.live q op⟩)

/-- A call that returns. -/
theorem Sys.call_ok {c : Cfg} {σ σ' : Sys} {t q : Nat} {op : Op} {ans : List (Option Nat)}
    (h : σ.call c t op ans = .ok (q, σ')) :
    exec c (σ.heap.withAnswers ans) t op = .ok (q, σ'.heap) ∧
      σ'.live = liveAfter σ.live q op := by
  unfold Sys.call at h
  rcases hexec : exec c (σ.heap.withAnswers ans) t op with e | ⟨q', s'⟩
  · rw [hexec] at h
    exact absurd h (by simp [bind, Except.bind])
  · rw [hexec] at h
    simp only [bind, Except.bind, pure, Except.pure, Except.ok.injEq, Prod.mk.injEq] at h
    obtain ⟨rfl, rfl⟩ := h
    exact ⟨rfl, rfl⟩

/-- The number of bytes a call asks for. -/
def Op.request : Op → Nat
  | .malloc size => size
  | .calloc count size => count * size
  | .realloc _ size => size
  | .free _ => 0
  | .memalign _ size => size

theorem mem_addPtr {q n : Nat} {live : List (Nat × Nat)} (h : q ≠ 0) :
    (q, n) ∈ addPtr q n live := by
  unfold addPtr
  rw [if_neg h]
  exact List.mem_cons_self ..

/-- `my_free` and `my_realloc(ptr, 0)` return nothing. -/
theorem exec_free_null {c : Cfg} {s s' : State} {t ptr q : Nat}
    (h : exec c s t (.free ptr) = .ok (q, s')) : q = 0 := by
  simp only [exec] at h
  rcases hf : myFree c s t ptr with e | s₁
  · rw [hf] at h
    exact absurd h (by simp [bind, Except.bind])
  · rw [hf] at h
    simp only [bind, Except.bind, pure, Except.pure, Except.ok.injEq, Prod.mk.injEq] at h
    exact h.1.symm

theorem exec_realloc_zero {c : Cfg} {s : State} {t ptr : Nat} (h : ptr ≠ 0) :
    exec c s t (.realloc ptr 0) = exec c s t (.free ptr) := by
  show myRealloc c s t ptr 0 = _
  unfold myRealloc
  rw [if_neg h, if_pos rfl]
  rfl

/-- What a call returns, the clients hold. -/
theorem Sys.request_mem {c : Cfg} {σ σ' : Sys} {t q : Nat} {op : Op} {ans : List (Option Nat)}
    (h : σ.call c t op ans = .ok (q, σ')) (hq : q ≠ 0) : (q, op.request) ∈ σ'.live := by
  obtain ⟨he, hl⟩ := Sys.call_ok h
  rw [hl]
  cases op with
  | malloc size => exact mem_addPtr hq
  | calloc count size => exact mem_addPtr hq
  | memalign alignment size => exact mem_addPtr hq
  | free ptr => exact absurd (exec_free_null he) hq
  | realloc ptr size =>
    simp only [liveAfter]
    split
    next => exact mem_addPtr hq
    next hp =>
      split
      next h0 =>
        subst h0
        rw [exec_realloc_zero hp] at he
        exact absurd (exec_free_null he) hq
      next => exact List.mem_cons_self ..

/-! ## The contract -/

/-- The arguments are 64-bit words, and only held pointers are given back. -/
def Op.Legal (live : List (Nat × Nat)) : Op → Prop
  | .malloc size => size < 2 ^ 64
  | .calloc count size => count < 2 ^ 64 ∧ size < 2 ^ 64
  | .realloc ptr size => size < 2 ^ 64 ∧ (ptr = 0 ∨ ptr ∈ live.map Prod.fst)
  | .free ptr => ptr = 0 ∨ ptr ∈ live.map Prod.fst
  | .memalign alignment size => alignment < 2 ^ 64 ∧ size < 2 ^ 64

instance (live : List (Nat × Nat)) : (op : Op) → Decidable (op.Legal live)
  | .malloc _ => inferInstanceAs (Decidable (_ < _))
  | .calloc _ _ => inferInstanceAs (Decidable (_ ∧ _))
  | .realloc _ _ => inferInstanceAs (Decidable (_ ∧ _))
  | .free _ => inferInstanceAs (Decidable (_ ∨ _))
  | .memalign _ _ => inferInstanceAs (Decidable (_ ∧ _))

/-- A slot that is given back has an address below `2 ^ 48`. -/
def Op.Low (s : State) : Op → Prop
  | .realloc ptr _ => LowPtr s ptr
  | .free ptr => LowPtr s ptr
  | _ => True

/-- No size computation of the large path wraps. -/
def Op.NoWrap (c : Cfg) : Op → Prop
  | .malloc size => LargeFits c size 16
  | .calloc count size => count * size < 2 ^ 64 → LargeFits c (count * size) 16
  | .realloc _ size => LargeFits c size 16
  | .free _ => True
  | .memalign alignment size => ∀ k, alignment = 2 ^ k → LargeFits c size alignment

/-- `my_memalign` does not return the end of its own mapping. -/
def Op.Inside (c : Cfg) : Op → Prop
  | .memalign alignment size => PtrInside c alignment size
  | _ => True

/-! ## Blocks -/

/-- The block at `p`: the slot size of the page around `p`, or the user size of the
large mapping around it. -/
inductive Block (s : State) (p : Nat) : Nat → Prop
  | slab (r : PageRef) (hd : IsData s.segs r) (hact : (s.pages r).state = .active)
      (h₁ : r.start ≤ p) (h₂ : p < r.start + 65536) : Block s p (s.pages r).slotSize
  | large (b : Nat) (la : LargeAlloc) (hl : s.larges b = some la) (h₁ : b ≤ p)
      (h₂ : p < b + la.size) : Block s p la.userSize

/-- A byte the clients can write: one they asked for, or one of the rest of the
block they got, if it is mapped. A write to a byte that is not mapped faults. -/
def Sys.Owns (σ : Sys) (y : Nat) : Prop :=
  Covers σ.heap.mapped y ∧
    ∃ x ∈ σ.live, x.1 ≤ y ∧ (y < x.1 + x.2 ∨ ∃ n, Block σ.heap x.1 n ∧ y < x.1 + n)

/-- The contents do not matter. -/
theorem Block.setMem {s : State} {p n : Nat} (h : Block s p n) (m : Mem) :
    Block { s with mem := m } p n := by
  cases h with
  | slab r hd hact h₁ h₂ => exact .slab r hd hact h₁ h₂
  | large b la hl h₁ h₂ => exact .large b la hl h₁ h₂

theorem Sys.Owns.mono {s s' : State} {live : List (Nat × Nat)} {y : Nat}
    (h : (⟨s, live⟩ : Sys).Owns y) (hmap : s'.mapped = s.mapped)
    (hb : ∀ p n, Block s p n → Block s' p n) : (⟨s', live⟩ : Sys).Owns y := by
  obtain ⟨hy, x, hx, h₁, h₂⟩ := h
  refine ⟨hmap ▸ hy, x, hx, h₁, h₂.imp_right ?_⟩
  rintro ⟨n, hn, h₂⟩
  exact ⟨n, hb _ n hn, h₂⟩

/-- A step of a run whose calls satisfy `P`. -/
inductive Step (c : Cfg) (P : Sys → Op → Prop) : Sys → Sys → Prop
  | call {σ σ' : Sys} (t : Nat) (op : Op) (ans : List (Option Nat)) (q : Nat)
      (hlow : op.Low σ.heap) (hlegal : op.Legal σ.live) (hP : P σ op)
      (he : σ.call c t op ans = .ok (q, σ')) : Step c P σ σ'
  | write {σ : Sys} (m : Mem) (hm : ∀ y, m y ≠ σ.heap.mem y → σ.Owns y) :
      Step c P σ { σ with heap := { σ.heap with mem := m } }

/-- The states of the runs whose calls satisfy `P`. -/
def Reachable (c : Cfg) (P : Sys → Op → Prop) (σ : Sys) : Prop :=
  Relation.ReflTransGen (Step c P) (Sys.initial c) σ

/-- The state after a call that returns; for runs that are written out. -/
def Sys.after (c : Cfg) (σ : Sys) (t : Nat) (op : Op) (ans : List (Option Nat)) : Sys :=
  match σ.call c t op ans with
  | .ok (_, σ') => σ'
  | .error _ => σ

theorem Reachable.after {c : Cfg} {P : Sys → Op → Prop} {σ : Sys} (h : Reachable c P σ) (t : Nat)
    (op : Op) (ans : List (Option Nat)) (hlow : op.Low σ.heap) (hlegal : op.Legal σ.live)
    (hP : P σ op) : Reachable c P (σ.after c t op ans) := by
  unfold Sys.after
  split
  next q σ' he => exact h.tail (.call t op ans q hlow hlegal hP he)
  next => exact h

/-- The state after a client wrote one byte. -/
def Sys.poke (σ : Sys) (y : Nat) (v : UInt8) : Sys :=
  { σ with heap := { σ.heap with mem := upd σ.heap.mem y v } }

theorem Reachable.poke {c : Cfg} {P : Sys → Op → Prop} {σ : Sys} (h : Reachable c P σ) (y : Nat)
    (v : UInt8) (hy : σ.Owns y) : Reachable c P (σ.poke y v) := by
  refine h.tail (.write _ fun z hz => ?_)
  by_cases hzy : z = y
  · rw [hzy]
    exact hy
  · exact absurd (upd_ne hzy) hz

/-! ## The invariant of the runs -/

variable {c : Cfg} {P : Sys → Op → Prop} {σ σ' : Sys} {s s' : State} {G G' : Ghost}

/-- The clients hold blocks, each large enough for its request. -/
structure Holds (c : Cfg) (σ : Sys) (G : Ghost) : Prop where
  inv : Inv c σ.heap G
  nodup : σ.ptrs.Nodup
  blk : ∀ x ∈ σ.live, ∃ k, x.2 ≤ k ∧ Blk σ.heap G x.1 k

theorem Blk.block (h : Inv c s G) {p n : Nat} (hb : Blk s G p n) : Block s p n := by
  rcases h.blk_cases hb with ⟨r, hp, hd, hinv, rfl⟩ | ⟨b, la, hl, hok, rfl, rfl⟩
  · obtain ⟨b₁, b₂, -⟩ := hinv.busy_in hp
    have := hinv.geom.slot_ge
    exact .slab r hd hinv.geom.active b₁ (by omega)
  · have := hok.ptr_ge
    exact .large b la hl (by omega) hok.ptr_lt

/-- A held pointer has one block. -/
theorem Inv.block_eq (h : Inv c s G) {p n k : Nat} (hb : Blk s G p n) (hk : Block s p k) :
    k = n := by
  rcases h.blk_cases hb with ⟨r, hp, hd, hinv, rfl⟩ | ⟨b, la, hl, hok, rfl, rfl⟩
  · obtain ⟨b₁, b₂, -⟩ := hinv.busy_in hp
    have hge := hinv.geom.slot_ge
    cases hk with
    | slab r' hd' _ h₁ h₂ => rw [h.page_unique hd hd' b₁ (by omega) h₁ h₂]
    | large b' la' hl' h₁ h₂ =>
      exact absurd (h.regions.apart (h.slab_region hp).1 (j := .large b') ⟨la', hl', h₁, h₂⟩)
        (by simp)
  · cases hk with
    | slab r' hd' _ h₁ h₂ =>
      exact absurd (h.regions.apart (hd'.has h₁ h₂) (hok.region hl).1) (by simp)
    | large b' la' hl' h₁ h₂ =>
      have hbb := h.regions.apart (hok.region hl).1 (j := .large b') ⟨la', hl', h₁, h₂⟩
      obtain rfl := Region.large.inj hbb
      rw [Option.some.inj (hl.symm.trans hl')]

theorem Holds.exists_blk (h : Holds c σ G) {p : Nat} (hp : p ∈ σ.ptrs) :
    ∃ n k, (p, n) ∈ σ.live ∧ n ≤ k ∧ Blk σ.heap G p k := by
  obtain ⟨⟨p', n⟩, hx, rfl⟩ := List.mem_map.mp hp
  obtain ⟨k, hk, hb⟩ := h.blk _ hx
  exact ⟨n, k, hx, hk, hb⟩

/-- A block in a data page is a busy slot of it. -/
theorem Inv.blk_busy (h : Inv c s G) {p k : Nat} {r : PageRef} (hb : Blk s G p k)
    (hd : IsData s.segs r) (h₁ : r.start ≤ p) (h₂ : p < r.start + 65536) : p ∈ G.busy r := by
  rcases h.blk_cases hb with ⟨r', hp', hd', hinv, -⟩ | ⟨b, la, hl, hok, -⟩
  · obtain ⟨b₁, b₂, -⟩ := hinv.busy_in hp'
    have hge := hinv.geom.slot_ge
    rwa [h.page_unique hd hd' h₁ h₂ b₁ (by omega)]
  · exact absurd (h.regions.apart (hd.has h₁ h₂) (hok.region hl).1) (by simp)

/-- A pointer the clients hold into a data page is a busy slot of it. -/
theorem Holds.busy (h : Holds c σ G) {p : Nat} {r : PageRef} (hp : p ∈ σ.ptrs)
    (hd : IsData σ.heap.segs r) (h₁ : r.start ≤ p) (h₂ : p < r.start + 65536) : p ∈ G.busy r := by
  obtain ⟨_, k, -, -, hb⟩ := h.exists_blk hp
  exact h.inv.blk_busy hb hd h₁ h₂

/-- A byte the clients may write lies in a block of theirs. -/
theorem Holds.owns (h : Holds c σ G) {y : Nat} (hy : σ.Owns y) :
    ∃ p ∈ σ.ptrs, ∃ k, Blk σ.heap G p k ∧ p ≤ y ∧ y < p + k := by
  obtain ⟨-, x, hx, h₁, h₂⟩ := hy
  obtain ⟨k, hn, hk⟩ := h.blk x hx
  refine ⟨x.1, List.mem_map_of_mem hx, k, hk, h₁, ?_⟩
  rcases h₂ with h₂ | ⟨n, hb, h₂⟩
  · omega
  · rwa [h.inv.block_eq hk hb] at h₂

/-- The heap changed without a block going away. -/
theorem Holds.quiet (h : Holds c σ G) (hq : Quiet c σ.heap G s') : Holds c ⟨s', σ.live⟩ G :=
  ⟨hq.inv, h.nodup, fun x hx => by
    obtain ⟨k, hk, hb⟩ := h.blk x hx
    exact ⟨k, hk, (hq.keeps _ _ hb trivial).1⟩⟩

/-- A pointer was added. -/
theorem Holds.alloc (h : Holds c σ G) {p n k : Nat} (ha : Alloc c σ.heap G p k s' G') (hn : n ≤ k) :
    Holds c ⟨s', (p, n) :: σ.live⟩ G' := by
  refine ⟨ha.inv, List.nodup_cons.mpr ⟨fun hp => ?_, h.nodup⟩, fun x hx => ?_⟩
  · obtain ⟨_, j, -, -, hb⟩ := h.exists_blk hp
    exact ha.fresh j hb
  · rcases List.mem_cons.mp hx with rfl | hx
    · exact ⟨k, hn, ha.new⟩
    · obtain ⟨j, hj, hb⟩ := h.blk x hx
      exact ⟨j, hj, (ha.keeps _ _ hb trivial).1⟩

theorem mem_dropPtr {p : Nat} {live : List (Nat × Nat)} {x : Nat × Nat} :
    x ∈ dropPtr p live ↔ x ∈ live ∧ x.1 ≠ p := by
  unfold dropPtr
  rw [List.mem_filter, bne_iff_ne]

theorem dropPtr_nodup {p : Nat} {live : List (Nat × Nat)} (h : (live.map Prod.fst).Nodup) :
    ((dropPtr p live).map Prod.fst).Nodup :=
  h.sublist (List.filter_sublist.map _)

/-- Every pointer but `p` is still there. -/
theorem Holds.drop (h : Holds c σ G) {p : Nat} (hi : Inv c s' G')
    (hk : Keeps σ.heap G s' G' (· ≠ p)) : Holds c ⟨s', dropPtr p σ.live⟩ G' :=
  ⟨hi, dropPtr_nodup h.nodup, fun x hx => by
    obtain ⟨hx, hne⟩ := mem_dropPtr.mp hx
    obtain ⟨k, hn, hb⟩ := h.blk x hx
    exact ⟨k, hn, (hk _ _ hb hne).1⟩⟩

/-- The pointer `p` was replaced by `q`. -/
theorem Holds.replace (h : Holds c σ G) {p q n k : Nat} (hi : Inv c s' G')
    (hk : Keeps σ.heap G s' G' (· ≠ p)) (hb : Blk s' G' q k) (hn : n ≤ k)
    (hq : q = p ∨ ∀ j, ¬ Blk σ.heap G q j) : Holds c ⟨s', (q, n) :: dropPtr p σ.live⟩ G' := by
  have hd := h.drop hi hk
  refine ⟨hi, List.nodup_cons.mpr ⟨fun hp => ?_, hd.nodup⟩, fun x hx => ?_⟩
  · obtain ⟨x, hx, hxq⟩ := List.mem_map.mp hp
    have hxq : x.1 = q := hxq
    obtain ⟨hx, hne⟩ := mem_dropPtr.mp hx
    obtain ⟨j, -, hb'⟩ := h.blk x hx
    rw [hxq] at hb' hne
    exact hq.elim hne fun hq => hq j hb'
  · rcases List.mem_cons.mp hx with rfl | hx
    · exact ⟨k, hn, hb⟩
    · exact hd.blk x hx

/-! ## The step lemma -/

/-- The ghost of the empty heap. -/
def Ghost.empty : Ghost := ⟨fun _ => [], fun _ => 0⟩

theorem initial_inv (c : Cfg) : Inv c (State.initial c) Ghost.empty where
  regions := by
    have hboot : ∀ {ρ : Region} {x : Nat}, Region.Has c (fun _ => none) (fun _ => none)
        (fun _ => none) ρ x → ρ = .boot ∧ c.bootstrapBuf ≤ x ∧ x < c.bootstrapBuf + 65536 := by
      intro ρ x hx
      cases ρ with
      | seg b => cases hx.1
      | large b => cases hx.choose_spec.1
      | tld t => cases hx.choose_spec.1
      | boot => exact ⟨rfl, hx⟩
    refine ⟨fun {ρ x} hx => ?_, fun {ρ ρ' x} hx hx' => (hboot hx).1.trans (hboot hx').1.symm⟩
    exact ⟨_, List.mem_singleton.mpr rfl, (hboot hx).2⟩
  segOk := fun hb => absurd hb (by simp [State.initial])
  pages := ⟨fun hg => absurd hg (by simp [State.initial]), fun _ => rfl⟩
  bins := fun a b => ⟨[], ⟨rfl, trivial⟩, fun r => by simp [InBin, IsData, State.initial]⟩
  segLists := fun a => ⟨[], ⟨rfl, trivial⟩, fun b => by simp [State.initial], rfl⟩
  tlds := fun t tld ht => absurd ht (by simp [State.initial])
  registry := ⟨fun i hi => absurd rfl hi, fun i hi => absurd rfl hi, fun i j hi => absurd rfl hi,
    fun b _ hb => absurd hb (by simp [State.initial])⟩
  larges := ⟨fun hb => absurd hb (by simp [State.initial]), [], ⟨rfl, trivial⟩,
    fun b => by simp [State.initial], rfl⟩

theorem initial_holds (c : Cfg) : Holds c (Sys.initial c) Ghost.empty :=
  ⟨initial_inv c, List.nodup_nil, fun _ hx => absurd hx List.not_mem_nil⟩

/-- Telling the kernel what to answer changes nothing. -/
theorem Inv.withAnswers (h : Inv c s G) (ans : List (Option Nat)) :
    Quiet c s G (s.withAnswers ans) := by
  have hos : OsExt s (s.withAnswers ans) :=
    ⟨ans, s.mapped, s.mem, s.mmapBytes, rfl, fun _ hx => ⟨hx, rfl⟩⟩
  exact .of_same (h.osExt hos) (h.osExt_keeps hos _) hos.same

/-- The calls the invariant survives. -/
def Op.Safe (c : Cfg) (op : Op) : Prop := op.NoWrap c ∧ op.Inside c

/-- The runs with safe calls only. -/
def SafeCall (c : Cfg) (_ : Sys) (op : Op) : Prop := op.Safe c

theorem addPtr_holds (h : Holds c σ G) {q n : Nat} (hnull : q = 0 → Quiet c σ.heap G s')
    (hgot : q ≠ 0 → ∃ k G', n ≤ k ∧ Alloc c σ.heap G q k s' G') :
    ∃ G', Holds c ⟨s', addPtr q n σ.live⟩ G' := by
  unfold addPtr
  split
  next h0 => exact ⟨G, h.quiet (hnull h0)⟩
  next h0 =>
    obtain ⟨k, G', hk, ha⟩ := hgot h0
    exact ⟨G', h.alloc ha hk⟩

theorem AllocPost.holds (h : Holds c σ G) {n q : Nat} {zeroed : Bool}
    (hp : AllocPost c σ.heap G (atLeastOne n) q zeroed s') :
    ∃ G', Holds c ⟨s', addPtr q n σ.live⟩ G' :=
  addPtr_holds h hp.null fun h0 => by
    obtain ⟨k, G', hk, ha, -⟩ := hp.got h0
    exact ⟨k, G', Nat.le_trans (le_atLeastOne n) hk, ha⟩

theorem FreedPost.holds (h : Holds c σ G) {p : Nat} (hp : FreedPost c σ.heap G p s') :
    ∃ G', Holds c ⟨s', dropPtr p σ.live⟩ G' := by
  by_cases hlost : Lost σ.heap G p
  · rw [hp.lost hlost]
    exact ⟨G, h.drop h.inv Keeps.refl⟩
  · obtain ⟨G', hrel⟩ := hp.freed hlost
    exact ⟨G', h.drop hrel.inv hrel.keeps⟩

theorem exec_free_holds (h : Holds c σ G) {t p : Nat} (hlow : LowPtr σ.heap p)
    (hlegal : p = 0 ∨ p ∈ σ.ptrs) :
    Ensures (· = .undefined) (myFree c σ.heap t p) fun s' =>
      ∃ G', Holds c ⟨s', dropPtr p σ.live⟩ G' := by
  rcases hlegal with rfl | hp
  · exact ⟨G, h.drop h.inv Keeps.refl⟩
  · obtain ⟨-, k, -, -, hb⟩ := h.exists_blk hp
    exact ensures_mono (myFree_spec h.inv hb (hlow.low h.inv)) fun s' hf => hf.holds h

theorem exec_realloc_holds (h : Holds c σ G) {t p n : Nat} (hlow : LowPtr σ.heap p)
    (hlegal : p = 0 ∨ p ∈ σ.ptrs) (hfit : LargeFits c n 16) :
    Ensures (· = .undefined) (myRealloc c σ.heap t p n) fun (q, s') =>
      ∃ G', Holds c ⟨s', liveAfter σ.live q (.realloc p n)⟩ G' := by
  unfold liveAfter
  by_cases hp0 : p = 0
  · simp only [if_pos hp0]
    unfold myRealloc
    rw [if_pos hp0]
    refine ensures_bad (ensures_mono (myMalloc_spec h.inv hfit) ?_) fun _ he => he.1
    rintro ⟨q, s'⟩ hp
    exact hp.holds h
  simp only [if_neg hp0]
  by_cases hn : n = 0
  · simp only [if_pos hn]
    unfold myRealloc
    rw [if_neg hp0, if_pos hn]
    refine ensures_bind (exec_free_holds h hlow hlegal) ?_
    exact fun s' hs' => hs'
  · simp only [if_neg hn]
    obtain ⟨-, k, -, -, hb⟩ := h.exists_blk (hlegal.resolve_left hp0)
    refine ensures_mono (myRealloc_spec h.inv hb (hlow.low h.inv) hfit (Nat.pos_of_ne_zero hn)) ?_
    rintro ⟨q, s'⟩ hr
    simp only
    split
    next h0 => exact ⟨G, h.quiet (hr.null h0)⟩
    next h0 =>
      by_cases hqp : q = p
      · obtain ⟨j, hj, hin⟩ := hr.same hqp
        subst hqp
        exact ⟨G, h.replace hin.inv hin.keeps hin.block hj (Or.inl rfl)⟩
      · obtain ⟨j, G', hj, hm⟩ := hr.moved h0 hqp
        exact ⟨G', h.replace hm.inv hm.keeps hm.block hj (Or.inr hm.fresh)⟩

theorem exec_holds (h : Holds c σ G) (t : Nat) (op : Op) (hlow : op.Low σ.heap)
    (hlegal : op.Legal σ.live) (hsafe : op.Safe c) :
    Ensures (· = .undefined) (exec c σ.heap t op) fun (q, s') =>
      ∃ G', Holds c ⟨s', liveAfter σ.live q op⟩ G' := by
  obtain ⟨hfit, hin⟩ := hsafe
  cases op with
  | malloc size =>
    refine ensures_bad (ensures_mono (myMalloc_spec h.inv hfit) ?_) fun _ he => he.1
    rintro ⟨q, s'⟩ hp
    exact hp.holds h
  | calloc count size =>
    by_cases hlt : count * size < 2 ^ 64
    · refine ensures_bad (ensures_mono (myCalloc_spec h.inv hlt (hfit hlt)) ?_) fun _ he => he.1
      rintro ⟨q, s'⟩ hp
      refine addPtr_holds h hp.null fun h0 => ?_
      obtain ⟨k, G', hk, ha, -⟩ := hp.got h0
      exact ⟨k, G', Nat.le_trans (le_atLeastOne _) hk, ha⟩
    · show Ensures _ (myCalloc c σ.heap t count size) _
      rw [myCalloc_overflow (Nat.not_lt.mp hlt)]
      exact addPtr_holds h (fun _ => Quiet.refl h.inv) fun h0 => absurd rfl h0
  | realloc ptr size => exact exec_realloc_holds h hlow hlegal.2 hfit
  | free ptr => exact ensures_bind (exec_free_holds h hlow hlegal) fun s' hs' => hs'
  | memalign alignment size =>
    refine ensures_bad (ensures_mono (myMemalign_spec h.inv hlegal.1 hfit hin) ?_) fun _ he => he.1
    rintro ⟨q, s'⟩ hp
    refine addPtr_holds h hp.null fun h0 => ?_
    obtain ⟨k, G', hk, ha, -⟩ := hp.got h0
    exact ⟨k, G', hk, ha⟩

/-- The clients' writes. -/
theorem Holds.write (h : Holds c σ G) {m : Mem} (hm : ∀ y, m y ≠ σ.heap.mem y → σ.Owns y) :
    Holds c { σ with heap := { σ.heap with mem := m } } G := by
  refine ⟨h.inv.write fun y hy => ?_, h.nodup, fun x hx => ?_⟩
  · obtain ⟨p, -, k, hb⟩ := h.owns (hm y hy)
    exact ⟨p, k, hb⟩
  · obtain ⟨k, hn, hb⟩ := h.blk x hx
    exact ⟨k, hn, hb.same ⟨rfl, rfl, rfl, rfl⟩⟩

theorem Holds.withAnswers (h : Holds c σ G) (ans : List (Option Nat)) :
    Holds c ⟨σ.heap.withAnswers ans, σ.live⟩ G := h.quiet (h.inv.withAnswers ans)

theorem step_holds (hsafe : ∀ σ op, P σ op → op.Safe c) (h : ∃ G, Holds c σ G)
    (hs : Step c P σ σ') : ∃ G, Holds c σ' G := by
  obtain ⟨G, h⟩ := h
  cases hs with
  | call t op ans q hlow hlegal hP he =>
    have hx := exec_holds (h.withAnswers ans) t op hlow hlegal (hsafe _ _ hP)
    obtain ⟨hexec, hl⟩ := Sys.call_ok he
    obtain ⟨G', h'⟩ := ensures_elim hx hexec
    exact ⟨G', h'.inv, by rw [Sys.ptrs, hl]; exact h'.nodup, by rw [hl]; exact h'.blk⟩
  | write m hm => exact ⟨G, h.write hm⟩

/-- The run lemma. -/
theorem reachable_holds (hsafe : ∀ σ op, P σ op → op.Safe c) (h : Reachable c P σ) :
    ∃ G, Holds c σ G := by
  induction h with
  | refl => exact ⟨_, initial_holds c⟩
  | tail _ hs ih => exact step_holds hsafe ih hs

end CustomMalloc

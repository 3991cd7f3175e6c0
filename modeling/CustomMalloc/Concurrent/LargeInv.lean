import CustomMalloc.Concurrent.LargeMachine
import CustomMalloc.Lib.Splice
import CustomMalloc.Lib.Hands
import CustomMalloc.Lib.Ledger

/-!
# What holds between two steps of large calls

Every header is in the list or in the hand of one thread, which is linking it or has unlinked it
(`LargeInv.holders`, `LargeInv.known`). While a thread holds `large_lock`, what `large_list` looks
like depends on where that thread stands (`ListAt`); everybody else sees a header only through its
own hand, so a step of one thread does not disturb the others (`ListAt.frame`, `LargeKnows.frame`).
-/

namespace CustomMalloc

open Lib.Words Lib.Chain Lib.Regions Lib.Intervals Lib.Hands Lib.Ledger

variable {c : Cfg} {n : Nat} {larges larges' : Nat → Option LargeAlloc} {head : Option Nat}
  {nodes : List Nat} {b x y : Nat} {la la' : LargeAlloc} {pc : LargePc}

/-! ## Links and the rest of a header -/

/-- `la->next`. -/
def nextIn (larges : Nat → Option LargeAlloc) (b : Nat) : Option Nat :=
  (larges b).bind LargeAlloc.next

/-- `la->prev`. -/
def prevIn (larges : Nat → Option LargeAlloc) (b : Nat) : Option Nat :=
  (larges b).bind LargeAlloc.prev

theorem nextIn_of_some (h : larges b = some la) : nextIn larges b = la.next := by
  rw [nextIn, h]
  rfl

theorem prevIn_of_some (h : larges b = some la) : prevIn larges b = la.prev := by
  rw [prevIn, h]
  rfl

theorem nextIn_congr (h : larges' y = larges y) : nextIn larges' y = nextIn larges y := by
  rw [nextIn, nextIn, h]

theorem prevIn_congr (h : larges' y = larges y) : prevIn larges' y = prevIn larges y := by
  rw [prevIn, prevIn, h]

/-- A write that leaves the `next` link of the header alone. -/
theorem nextIn_upd (h : larges b = some la) (hn : la'.next = la.next) :
    nextIn (upd larges b (some la')) = nextIn larges := by
  funext y
  by_cases hy : y = b
  · subst hy
    rw [nextIn_of_some (upd_same ..), nextIn_of_some h, hn]
  · exact nextIn_congr (upd_ne hy)

theorem prevIn_upd (h : larges b = some la) (hp : la'.prev = la.prev) :
    prevIn (upd larges b (some la')) = prevIn larges := by
  funext y
  by_cases hy : y = b
  · subst hy
    rw [prevIn_of_some (upd_same ..), prevIn_of_some h, hp]
  · exact prevIn_congr (upd_ne hy)

/-- The headers are the same but for their links. -/
def Relinked (larges larges' : Nat → Option LargeAlloc) : Prop :=
  ∀ b, (larges' b).map (fun la => ({ la with next := none, prev := none } : LargeAlloc)) =
    (larges b).map fun la => { la with next := none, prev := none }

theorem Relinked.symm (h : Relinked larges larges') : Relinked larges' larges := fun b => (h b).symm

theorem Relinked.some (h : Relinked larges larges') (hb : larges' b = some la') :
    ∃ la, larges b = some la ∧ la'.base = la.base ∧ la'.size = la.size ∧
      la'.userSize = la.userSize := by
  have hb' := h b
  rw [hb] at hb'
  obtain ⟨la, hla, heq⟩ := Option.map_eq_some_iff.mp hb'.symm
  simp only [LargeAlloc.mk.injEq] at heq
  exact ⟨la, hla, heq.1.symm, heq.2.1.symm, heq.2.2.1.symm⟩

theorem Relinked.isSome (h : Relinked larges larges') (b : Nat) :
    (larges' b).isSome = (larges b).isSome := by
  rw [← Option.isSome_map, h b, Option.isSome_map]

theorem Relinked.fieldAt (h : Relinked larges larges') {f : LargeAlloc → Nat} (hf : LinkFree f)
    (b : Nat) : fieldAt f larges' b = fieldAt f larges b := by
  have hstrip : ∀ o : Option LargeAlloc,
      o.map f = (o.map fun la => ({ la with next := none, prev := none } : LargeAlloc)).map f := by
    rintro (_ | la)
    · rfl
    · exact congrArg Option.some (hf la none none).symm
  unfold CustomMalloc.fieldAt
  rw [hstrip, h b, ← hstrip]

theorem Relinked.inMapping (h : Relinked larges larges') (hin : InMapping larges' b x) :
    InMapping larges b x := by
  obtain ⟨la', hla', hx⟩ := hin
  obtain ⟨la, hla, -, hsz, -⟩ := h.some hla'
  rw [hsz] at hx
  exact ⟨la, hla, hx⟩

theorem HeadersOk.relinked (h : HeadersOk c larges) (hr : Relinked larges larges') :
    HeadersOk c larges' := by
  intro b la' hb
  obtain ⟨la, hla, h₁, h₂, h₃⟩ := hr.some hb
  have ho := h b la hla
  exact ⟨h₁.trans ho.base, ho.pos, ho.page, h₂ ▸ ho.size_page, h₂ ▸ ho.stop,
    by rw [h₂, h₃]; exact ho.fits⟩

/-- A write to the links of a header. -/
theorem relinked_upd (h : larges b = some la)
    (hcore : la'.base = la.base ∧ la'.size = la.size ∧ la'.userSize = la.userSize) :
    Relinked larges (upd larges b (some la')) := by
  intro y
  by_cases hy : y = b
  · subst hy
    rw [upd_same, h]
    simp [hcore]
  · rw [upd_ne hy]

/-- The test of the walks. -/
theorem HeadersOk.contains_iff {s : State} (h : HeadersOk c s.larges) :
    largeContains s x b = true ↔ InMapping s.larges b x := by
  unfold largeContains InMapping
  cases hb : s.larges b with
  | none => simp
  | some la =>
    have hok := h b la hb
    simp only [hok.base, Nat.mod_eq_of_lt hok.stop]
    simp

/-! ## What the threads know -/

/-- The header in a thread's hand. -/
def LargePc.hand : LargePc → Option Nat
  | .lock k | .setNext k | .setPrev k | .backLink k | .setHead k => some k.base
  | .sizes b | .freeUnlock b _ _ | .subBytes b _ _ | .subCount b _ | .unmap b _ => some b
  | _ => none

/-- Between `pthread_mutex_lock` and `pthread_mutex_unlock`. -/
def LargePc.inside : LargePc → Bool
  | .setNext _ | .setPrev _ | .backLink _ | .setHead _ | .unlock _ => true
  | .walkHead .. | .walkTest .. | .walkNext .. | .walkMiss .. | .found .. => true
  | .unPrev .. | .unNext .. | .unHead .. | .sizes _ | .freeUnlock .. => true
  | _ => false

/-- The new block is where `large_alloc_aligned` says. -/
structure NewLarge.Placed (k : NewLarge) : Prop where
  pos : 0 < k.base
  ptr : k.ptr = k.base + headerSpace (raisedAlign k.alignment)

/-- What a thread knows about the header in its hand. -/
def LargeKnows (c : Cfg) (larges : Nat → Option LargeAlloc) : LargePc → Prop
  | .map size alignment => LargeNoWrap c size alignment
  | .lock k | .setNext k | .setPrev k | .backLink k | .setHead k =>
    k.Placed ∧ fieldAt LargeAlloc.size larges k.base = k.total c ∧
      fieldAt LargeAlloc.userSize larges k.base = k.size
  | .freeUnlock b user total | .subBytes b user total =>
    fieldAt LargeAlloc.size larges b = total ∧ fieldAt LargeAlloc.userSize larges b = user
  | .subCount b total | .unmap b total => fieldAt LargeAlloc.size larges b = total
  | _ => True

theorem LargeKnows.of_fields (h : LargeKnows c larges pc)
    (hf : ∀ f, LinkFree f → ∀ b, pc.hand = some b → fieldAt f larges' b = fieldAt f larges b) :
    LargeKnows c larges' pc := by
  have hsize := hf _ linkFree_size
  have huser := hf _ linkFree_userSize
  cases pc with
  | lock k | setNext k | setPrev k | backLink k | setHead k =>
    exact ⟨h.1, (hsize _ rfl).trans h.2.1, (huser _ rfl).trans h.2.2⟩
  | freeUnlock b | subBytes b => exact ⟨(hsize _ rfl).trans h.1, (huser _ rfl).trans h.2⟩
  | subCount b | unmap b => exact (hsize _ rfl).trans h
  | _ => exact h

/-- Only the header in its hand matters. -/
theorem LargeKnows.frame (h : LargeKnows c larges pc)
    (hsame : ∀ b, pc.hand = some b → larges' b = larges b) : LargeKnows c larges' pc :=
  h.of_fields fun f _ b hb => by rw [fieldAt, fieldAt, hsame b hb]

theorem LargeKnows.relinked (h : LargeKnows c larges pc) (hr : Relinked larges larges') :
    LargeKnows c larges' pc :=
  h.of_fields fun _ hf b _ => hr.fieldAt hf b

/-! ## The list -/

/-- The list when nobody is changing it. -/
def Whole (larges : Nat → Option LargeAlloc) (head : Option Nat) (nodes : List Nat) : Prop :=
  DList (nextIn larges) (prevIn larges) head nodes

/-- A walker at `b` has passed the headers before it. -/
def Passed (larges : Nat → Option LargeAlloc) (nodes : List Nat) (x b : Nat) : Prop :=
  ∃ pre suf, nodes = pre ++ b :: suf ∧ ∀ y ∈ pre, ¬ InMapping larges y x

/-- What `large_list` looks like while a thread at `pc` holds the lock, or if nobody does. -/
def ListAt (larges : Nat → Option LargeAlloc) (head : Option Nat) (nodes : List Nat) :
    LargePc → Prop
  | .setNext k => Linking (nextIn larges) (prevIn larges) head nodes k.base false false false
  | .setPrev k => Linking (nextIn larges) (prevIn larges) head nodes k.base true false false
  | .backLink k => Linking (nextIn larges) (prevIn larges) head nodes k.base true true false
  | .setHead k => Linking (nextIn larges) (prevIn larges) head nodes k.base true true true
  | .unPrev x b =>
    Unlinking (nextIn larges) (prevIn larges) head nodes b false false ∧ InMapping larges b x
  | .unNext x b =>
    Unlinking (nextIn larges) (prevIn larges) head nodes b true false ∧ InMapping larges b x
  | .unHead x b =>
    Unlinking (nextIn larges) (prevIn larges) head nodes b true true ∧ InMapping larges b x
  | .walkTest _ x b => Whole larges head nodes ∧ Passed larges nodes x b
  | .walkNext _ x b => Whole larges head nodes ∧ Passed larges nodes x b ∧ ¬ InMapping larges b x
  | .walkMiss _ x => Whole larges head nodes ∧ ∀ y ∈ nodes, ¬ InMapping larges y x
  | .found x b => Whole larges head nodes ∧ b ∈ nodes ∧ InMapping larges b x
  | _ => Whole larges head nodes

section Frame

variable (hnodes : ∀ y ∈ nodes, larges' y = larges y)

include hnodes

theorem Whole.frame (h : Whole larges head nodes) : Whole larges' head nodes :=
  h.congr (fun y hy => nextIn_congr (hnodes y hy)) fun y hy => prevIn_congr (hnodes y hy)

theorem not_inMapping_frame (hy : y ∈ nodes) (h : ¬ InMapping larges y x) :
    ¬ InMapping larges' y x := by
  unfold InMapping at h ⊢
  rwa [hnodes y hy]

theorem Passed.frame (h : Passed larges nodes x b) : Passed larges' nodes x b := by
  obtain ⟨pre, suf, rfl, hpre⟩ := h
  exact ⟨pre, suf, rfl, fun y hy => not_inMapping_frame hnodes (List.mem_append_left _ hy)
    (hpre y hy)⟩

theorem inMapping_frame (hb : b ∈ nodes) (h : InMapping larges b x) : InMapping larges' b x := by
  unfold InMapping at h ⊢
  rwa [hnodes b hb]

/-- Only the headers in the list and the one in the holder's hand matter. -/
theorem ListAt.frame (h : ListAt larges head nodes pc)
    (hhand : ∀ b, pc.hand = some b → larges' b = larges b) : ListAt larges' head nodes pc := by
  have hlink : ∀ {k : NewLarge} {f g i : Bool}, pc.hand = some k.base →
      Linking (nextIn larges) (prevIn larges) head nodes k.base f g i →
      Linking (nextIn larges') (prevIn larges') head nodes k.base f g i := by
    intro k f g i hk hl
    have hsame : ∀ y ∈ k.base :: nodes, larges' y = larges y := by
      intro y hy
      rcases List.mem_cons.mp hy with rfl | hy
      · exact hhand _ hk
      · exact hnodes y hy
    exact hl.congr (fun y hy => nextIn_congr (hsame y hy)) fun y hy => prevIn_congr (hsame y hy)
  have hunlink : ∀ {x b : Nat} {f g : Bool},
      Unlinking (nextIn larges) (prevIn larges) head nodes b f g ∧ InMapping larges b x →
      Unlinking (nextIn larges') (prevIn larges') head nodes b f g ∧ InMapping larges' b x := by
    rintro x b f g ⟨hu, hin⟩
    exact ⟨hu.congr (fun y hy => nextIn_congr (hnodes y hy)) fun y hy => prevIn_congr (hnodes y hy),
      inMapping_frame hnodes hu.mem hin⟩
  cases pc with
  | setNext k | setPrev k | backLink k | setHead k => exact hlink rfl h
  | unPrev x b | unNext x b | unHead x b => exact hunlink h
  | walkTest w x b => exact ⟨h.1.frame hnodes, h.2.frame hnodes⟩
  | walkNext w x b =>
    obtain ⟨pre, suf, heq, -⟩ := h.2.1
    exact ⟨h.1.frame hnodes, h.2.1.frame hnodes,
      not_inMapping_frame hnodes (by rw [heq]; simp) h.2.2⟩
  | walkMiss w x => exact ⟨h.1.frame hnodes, fun y hy => not_inMapping_frame hnodes hy (h.2 y hy)⟩
  | found x b => exact ⟨h.1.frame hnodes, h.2.1, inMapping_frame hnodes h.2.1 h.2.2⟩
  | _ => exact Whole.frame hnodes h

end Frame

/-! ## The counters -/

/-- What a thread still has to add to `large_alloc_count`. -/
def LargePc.countPlus : LargePc → Nat
  | .unlock _ | .addBytes _ | .addCount _ => 1
  | _ => 0

/-- What it has to subtract. -/
def LargePc.countMinus : LargePc → Nat
  | .sizes _ | .freeUnlock .. | .subBytes .. | .subCount .. => 1
  | _ => 0

/-- What a thread still has to add to `large_allocated`. -/
def LargePc.bytesPlus : LargePc → Nat
  | .unlock k | .addBytes k => k.size
  | _ => 0

/-- What it has to subtract. -/
def LargePc.bytesMinus (larges : Nat → Option LargeAlloc) : LargePc → Nat
  | .sizes b | .freeUnlock b _ _ | .subBytes b _ _ => fieldAt LargeAlloc.userSize larges b
  | _ => 0

theorem bytesMinus_frame (hsame : ∀ b, pc.hand = some b → larges' b = larges b) :
    pc.bytesMinus larges' = pc.bytesMinus larges := by
  cases pc with
  | sizes b | freeUnlock b | subBytes b =>
    simp only [LargePc.bytesMinus, fieldAt, hsame b rfl]
  | _ => rfl

theorem bytesMinus_relinked (hr : Relinked larges larges') :
    pc.bytesMinus larges' = pc.bytesMinus larges := by
  cases pc with
  | sizes b | freeUnlock b | subBytes b => exact hr.fieldAt linkFree_userSize b
  | _ => rfl

/-- `la->user_size` of the blocks in the list. -/
def listBytes (larges : Nat → Option LargeAlloc) (nodes : List Nat) : Nat :=
  (nodes.map (fieldAt LargeAlloc.userSize larges)).sum

theorem listBytes_frame (hnodes : ∀ y ∈ nodes, larges' y = larges y) :
    listBytes larges' nodes = listBytes larges nodes := by
  refine congrArg List.sum (List.map_congr_left fun y hy => ?_)
  unfold fieldAt
  rw [hnodes y hy]

theorem listBytes_relinked (hr : Relinked larges larges') (nodes : List Nat) :
    listBytes larges' nodes = listBytes larges nodes :=
  congrArg List.sum (List.map_congr_left fun y _ => hr.fieldAt linkFree_userSize y)

/-! ## The invariant -/

namespace LargeSys

/-- The header in the hand of `t`. -/
def hand (σ : LargeSys n) (t : Fin n) : Option Nat := (σ.pcs t).hand

/-- Where the holder of the lock stands. -/
def holder (σ : LargeSys n) : LargePc := (σ.lock.map σ.pcs).getD .idle

/-- Both counters are exact, up to what the threads still have to do. -/
structure Booked (σ : LargeSys n) : Prop where
  count : Reconciled (2 ^ 64) σ.heap.largeAllocCount (fun t => (σ.pcs t).countPlus)
    (fun t => (σ.pcs t).countMinus) σ.nodes.length
  bytes : Reconciled (2 ^ 64) σ.heap.largeAllocated (fun t => (σ.pcs t).bytesPlus)
    (fun t => (σ.pcs t).bytesMinus σ.heap.larges) (listBytes σ.heap.larges σ.nodes)

end LargeSys

/-- What holds in every state of every interleaving. -/
structure LargeInv (c : Cfg) (σ : LargeSys n) : Prop where
  headers : HeadersOk c σ.heap.larges
  layout : Layout (Covers σ.heap.mapped) (InMapping σ.heap.larges)
  holders : OneHolder σ.nodes σ.hand
  known : ∀ b, (σ.heap.larges b).isSome = true ↔ Somewhere σ.nodes σ.hand b
  locked : ∀ t, (σ.pcs t).inside = true ↔ σ.lock = some t
  knows : ∀ t, LargeKnows c σ.heap.larges (σ.pcs t)
  list : ListAt σ.heap.larges σ.heap.largeList σ.nodes σ.holder
  booked : σ.Booked

theorem LargeInv.initial (c : Cfg) (n : Nat) : LargeInv c (LargeSys.initial c n) where
  headers := fun b la hb => absurd hb (by simp [LargeSys.initial, State.initial])
  layout := (LargeNodes.initial c).apart
  holders := ⟨List.nodup_nil,
    fun h => absurd h (by simp [LargeSys.hand, LargeSys.initial, LargePc.hand]),
    fun h => absurd h (by simp [LargeSys.hand, LargeSys.initial, LargePc.hand])⟩
  known := fun b => by
    simp [LargeSys.initial, State.initial, Somewhere, LargeSys.hand, LargePc.hand]
  locked := fun t => by simp [LargeSys.initial, LargePc.inside]
  knows := fun t => trivial
  list := ⟨rfl, trivial⟩
  booked := ⟨rfl, rfl⟩

end CustomMalloc

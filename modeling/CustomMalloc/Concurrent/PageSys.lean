import CustomMalloc.Concurrent.Machines
import CustomMalloc.Inv.Slots
import CustomMalloc.Lib.Places
import CustomMalloc.Lib.Sums
import Mathlib.Data.Fintype.BigOperators

/-!
# Remote frees against the owner

One page: its owner takes slots, frees slots and collects the remote stack, and any
number of other threads free slots of the page at the same time, access by access.

A slot is moved by one step of one thread: into the stack by the compare-and-swap of its
push, out of it by the compare-and-swap of a collect, onto `local_free` and off it by a
store of the owner. Everything between these steps leaves all slots where they are, and
the counters, which are updated later, are off by what the threads still owe them
(`Owing`). The tag is never needed: the stack is only pushed and emptied, so a head that
comes back, with whatever tag, still has the same slot on top of the right rest.
-/

namespace CustomMalloc

open Lib.Words Lib.Bytes Lib.Chain Lib.Interleave Lib.Places Lib.Sums

/-! ## The system -/

/-- What the owner is doing. -/
inductive OwnerPc where
  | idle
  /-- `page_alloc_slot` -/
  | alloc (pc : AllocPc)
  /-- `page_collect_remote` on its own -/
  | collect (pc : CollectPc)
  /-- `page_free_slot_local` -/
  | free (pc : FreeLocalPc)
  deriving DecidableEq, Repr

/-- What happened to the remote stack. -/
inductive StackEvent where
  | pushed (x : Nat)
  | collected
  deriving DecidableEq, Repr

/-- The page, its owner, `n` other threads, the slots that clients hold, and the history of
the remote stack, latest event first. -/
structure PageSys (n : Nat) extends Cell where
  owner : OwnerPc := .idle
  threads : Fin n → Option FreeRemotePc := fun _ => none
  live : List Nat
  log : List StackEvent

/-- A thread starts a call or takes the next step of its call, or a client writes a byte. -/
inductive PageAct (n : Nat) where
  | alloc
  | collect
  | free (x : Nat)
  | own (spurious : Bool)
  | push (t : Fin n) (x : Nat)
  | thread (t : Fin n) (spurious : Bool)
  | write (x i : Nat) (b : UInt8)
  deriving DecidableEq, Repr

/-- What a step of a push does to the stack. -/
def FreeRemotePc.event : FreeRemotePc → Next FreeRemotePc Unit → List StackEvent
  | .cas x _, .goto .count => [.pushed x]
  | _, _ => []

/-- What a step of a collect does to the stack. -/
def CollectPc.event : CollectPc → Next CollectPc Unit → List StackEvent
  | .cas _, .goto (.walk ..) => [.collected]
  | _, _ => []

/-- The owner goes on. -/
def PageSys.own {n : Nat} (σ : PageSys n) (spurious : Bool) : Option (PageSys n) :=
  match σ.owner with
  | .idle => none
  | .alloc pc =>
    let next := allocStep spurious σ.toCell pc
    let log := match pc with
      | .collect pc => pc.event (collectStep spurious σ.toCell pc).2 ++ σ.log
      | _ => σ.log
    match next.2 with
    | .goto pc' => some { σ with toCell := next.1, owner := .alloc pc', log := log }
    | .done none => some { σ with toCell := next.1, owner := .idle, log := log }
    | .done (some x) =>
      some { σ with toCell := next.1, owner := .idle, live := x :: σ.live, log := log }
  | .collect pc =>
    let next := collectStep spurious σ.toCell pc
    match next.2 with
    | .goto pc' =>
      some { σ with toCell := next.1, owner := .collect pc', log := pc.event next.2 ++ σ.log }
    | .done _ => some { σ with toCell := next.1, owner := .idle }
  | .free pc =>
    let next := freeLocalStep σ.toCell pc
    match next.2 with
    | .goto pc' => some { σ with toCell := next.1, owner := .free pc' }
    | .done _ => some { σ with toCell := next.1, owner := .idle }

/-- Another thread goes on. -/
def PageSys.thread {n : Nat} (σ : PageSys n) (t : Fin n) (spurious : Bool) : Option (PageSys n) :=
  match σ.threads t with
  | none => none
  | some pc =>
    let next := freeRemoteStep spurious σ.toCell pc
    match next.2 with
    | .goto pc' =>
      some { σ with toCell := next.1, threads := upd σ.threads t (some pc'),
                    log := pc.event next.2 ++ σ.log }
    | .done _ => some { σ with toCell := next.1, threads := upd σ.threads t none }

/-- The step function. A slot is freed by a thread that is not in a call, and only by one
thread; a client writes only into a slot it holds. -/
def PageSys.act {n : Nat} (σ : PageSys n) : PageAct n → Option (PageSys n)
  | .alloc => if σ.owner = .idle then some { σ with owner := .alloc .test } else none
  | .collect => if σ.owner = .idle then some { σ with owner := .collect .load } else none
  | .free x =>
    if σ.owner = .idle ∧ x ∈ σ.live then
      some { σ with owner := .free (.load x), live := σ.live.erase x }
    else none
  | .own spurious => σ.own spurious
  | .push t x =>
    if σ.threads t = none ∧ x ∈ σ.live then
      some { σ with threads := upd σ.threads t (some (.load x)), live := σ.live.erase x }
    else none
  | .thread t spurious => σ.thread t spurious
  | .write x i b =>
    if x ∈ σ.live ∧ i < σ.page.slotSize then some { σ with mem := upd σ.mem (x + i) b } else none

/-! ## What the history says -/

/-- The pushes since the last collect, latest first. -/
def pushedSince : List StackEvent → List Nat
  | [] => []
  | .pushed x :: log => x :: pushedSince log
  | .collected :: _ => []

/-- The pushes before the last collect, back to the one before it, latest first. -/
def lastCollected : List StackEvent → List Nat
  | [] => []
  | .pushed _ :: log => lastCollected log
  | .collected :: log => pushedSince log

/-- The slot a pending push is about to put on the stack. -/
def FreeRemotePc.pushing : FreeRemotePc → Option Nat
  | .load x | .link x _ | .cas x _ => some x
  | .count | .used => none

/-- The slot the owner has taken and not returned yet. -/
def OwnerPc.taking : OwnerPc → Option Nat
  | .alloc (.pop (.count x)) | .alloc (.pop (.recount x _)) | .alloc (.pop (.used x))
  | .alloc (.bump (.used x)) => some x
  | _ => none

/-- The slot the owner is about to put on `local_free`. -/
def OwnerPc.freeing : OwnerPc → Option Nat
  | .free (.load x) | .free (.link x _) | .free (.head x) => some x
  | _ => none

/-- The places a slot can be in. -/
inductive Place (n : Nat) where
  | live
  /-- being pushed by the owner or by one of the other threads -/
  | pushing (t : Option (Fin n))
  | onRemote
  /-- on the chain the owner is walking -/
  | onWalk
  | onLocal
  | virgin
  deriving DecidableEq, Repr

/-- A slot of the page. -/
def IsSlot (r : PageRef) (p : PageMeta) (x : Nat) : Prop := x ∈ slotList r p p.capacity

/-- Slot `x` of the page `p₀` describes is at a place, where `loc` is the list at `local_free`
and `walk` the chain the owner has collected and not yet put there. -/
def PageSys.At {n : Nat} (r : PageRef) (p₀ : PageMeta) (σ : PageSys n) (loc walk : List Nat) :
    Place n → Nat → Prop
  | .live, x => x ∈ σ.live ∨ σ.owner.taking = some x
  | .pushing none, x => σ.owner.freeing = some x
  | .pushing (some t), x => (σ.threads t).bind FreeRemotePc.pushing = some x
  | .onRemote, x => x ∈ pushedSince σ.log
  | .onWalk, x => x ∈ walk
  | .onLocal, x => x ∈ loc
  | .virgin, x => IsSlot r p₀ x ∧ r.start + σ.page.bumpOffset ≤ x

/-! ## The invariant -/

/-- What a pop knows: nobody else changes `local_free` or the links of its slots. -/
def PopOk (s : Cell) : PopPc → Prop
  | .head => s.page.localFree ≠ 0
  | .read slot => slot = s.page.localFree ∧ slot ≠ 0
  | .unlink slot next => slot = s.page.localFree ∧ slot ≠ 0 ∧ next = readWord s.mem slot
  | .recount _ n => n = s.page.localFreeCount
  | .count _ | .used _ => True

/-- What a bump knows. -/
def BumpOk (r : PageRef) (s : Cell) : BumpPc → Prop
  | .read => s.page.bumpOffset < s.page.bumpEnd
  | .load slot => slot = r.start + s.page.bumpOffset ∧ s.page.bumpOffset < s.page.bumpEnd
  | .store slot offset =>
    slot = r.start + offset ∧ offset = s.page.bumpOffset ∧ s.page.bumpOffset < s.page.bumpEnd
  | .used _ => True

/-- What a collect knows: the collected chain is intact, and `count` of its slots have been
passed. -/
def CollectOk (s : Cell) (loc walk : List Nat) : CollectPc → Prop
  | .load => walk = []
  | .cas old => walk = [] ∧ taggedPtr old ≠ 0
  | .walk list current count =>
    Linked (link s.mem) (ptr list) walk ∧
      ∃ pre suf, walk = pre ++ current :: suf ∧ count = pre.length % 2 ^ 16
  | .rest list tail count =>
    Linked (link s.mem) (ptr list) walk ∧ (∃ pre, walk = pre ++ [tail]) ∧
      count = walk.length % 2 ^ 16
  | .splice list tail count head =>
    Linked (link s.mem) (ptr list) walk ∧ (∃ pre, walk = pre ++ [tail]) ∧
      count = walk.length % 2 ^ 16 ∧ head = s.page.localFree
  | .head list count =>
    Linked (link s.mem) (ptr list) (walk ++ loc) ∧ walk ≠ [] ∧ count = walk.length % 2 ^ 16
  | .count count | .settle count => walk = [] ∧ count < 2 ^ 16
  | .recount count n => walk = [] ∧ count < 2 ^ 16 ∧ n = s.page.localFreeCount

/-- What a local free knows. -/
def FreeLocalOk (s : Cell) : FreeLocalPc → Prop
  | .link _ head => head = s.page.localFree
  | .head x => readWord s.mem x = s.page.localFree
  | .recount n => n = s.page.localFreeCount
  | .load _ | .count | .used => True

/-- What the owner knows. -/
def OwnerOk (r : PageRef) (s : Cell) (loc walk : List Nat) : OwnerPc → Prop
  | .alloc (.pop pc) => walk = [] ∧ PopOk s pc
  | .alloc (.bump pc) => walk = [] ∧ BumpOk r s pc
  | .alloc (.collect pc) | .collect pc => CollectOk s loc walk pc
  | .free pc => walk = [] ∧ FreeLocalOk s pc
  | .idle | .alloc .test | .alloc .bumpTest | .alloc .retest => walk = []

/-- A call that has not decremented `used` yet. -/
def FreeRemotePc.owesUsed : Option FreeRemotePc → Nat
  | none => 0
  | some _ => 1

/-- A call that has pushed its slot and not counted it yet. -/
def FreeRemotePc.owesCount : Option FreeRemotePc → Nat
  | some .count => 1
  | _ => 0

def OwnerPc.owesUsed : OwnerPc → Nat
  | .free _ => 1
  | _ => 0

/-- What a collect will still add to `local_free_count`. -/
def CollectPc.owesLocal : CollectPc → Nat
  | .count k | .recount k _ => k
  | _ => 0

/-- What a collect will still subtract from `remote_free_count`, apart from the chain it is
walking. -/
def CollectPc.settling : CollectPc → Nat
  | .count k | .recount k _ | .settle k => k
  | _ => 0

/-- What the owner will still add to `local_free_count`. -/
def OwnerPc.owesLocal : OwnerPc → Nat
  | .free .count | .free (.recount _) => 1
  | .alloc (.collect pc) | .collect pc => pc.owesLocal
  | _ => 0

/-- What the owner will still subtract from `local_free_count`. -/
def OwnerPc.popped : OwnerPc → Nat
  | .alloc (.pop (.count _)) | .alloc (.pop (.recount _ _)) => 1
  | _ => 0

def OwnerPc.settling : OwnerPc → Nat
  | .alloc (.collect pc) | .collect pc => pc.settling
  | _ => 0

/-- The remote frees in progress. -/
def callsOf {n : Nat} (threads : Fin n → Option FreeRemotePc) : Nat :=
  ∑ t, FreeRemotePc.owesUsed (threads t)

/-- The remote frees whose slot is on the stack and not counted. -/
def uncountedOf {n : Nat} (threads : Fin n → Option FreeRemotePc) : Nat :=
  ∑ t, FreeRemotePc.owesCount (threads t)

/-- Every counter is what it should be, up to what the threads still owe it. The arguments are
the numbers of remote frees in progress and not counted, of live slots, and the lengths of the
remote stack, the chain that is walked and the local list. -/
structure Owing (p : PageMeta) (pc : OwnerPc) (calls uncounted live stack walk loc : Nat) :
    Prop where
  used_lt : p.used < 2 ^ 16
  remote_lt : p.remoteFreeCount < 2 ^ 16
  local_lt : p.localFreeCount < 2 ^ 16
  used : p.used = (live + calls + pc.owesUsed) % 2 ^ 16
  remote : (p.remoteFreeCount + uncounted) % 2 ^ 16 = (stack + walk + pc.settling) % 2 ^ 16
  local_count : (p.localFreeCount + pc.owesLocal) % 2 ^ 16 = (loc + pc.popped) % 2 ^ 16

/-- Where the slots are, and the lists that say so. `p₀` describes the page's slots. -/
structure Lists {n : Nat} (r : PageRef) (p₀ : PageMeta) (σ : PageSys n) (loc walk : List Nat) :
    Prop where
  shape : SameShape p₀ σ.page
  carved : ∃ k ≤ p₀.capacity, σ.page.bumpOffset = k * p₀.slotSize
  placed : Placed (IsSlot r p₀) (σ.At r p₀ loc walk)
  live_nodup : σ.live.Nodup
  taking_new : ∀ x, σ.owner.taking = some x → x ∉ σ.live
  local_linked : Linked (link σ.mem) (ptr σ.page.localFree) loc
  stack_linked : Linked (link σ.mem) (ptr (taggedPtr σ.page.remoteFree)) (pushedSince σ.log)
  chain : walk = [] ∨ walk = lastCollected σ.log
  virgin : ∀ x, r.start + σ.page.bumpOffset ≤ x → x < r.start + 65536 → σ.mem x = 0

/-- What holds in every state of every interleaving. -/
structure Conserved {n : Nat} (r : PageRef) (p₀ : PageMeta) (σ : PageSys n) (loc walk : List Nat) :
    Prop where
  lists : Lists r p₀ σ loc walk
  threads : ∀ t x old, σ.threads t = some (.cas x old) → readWord σ.mem x = taggedPtr old
  owner : OwnerOk r σ.toCell loc walk σ.owner
  owing : Owing σ.page σ.owner (callsOf σ.threads) (uncountedOf σ.threads) σ.live.length
    (pushedSince σ.log).length walk.length loc.length

variable {n : Nat} {r : PageRef} {p₀ : PageMeta} {σ σ' : PageSys n} {loc walk : List Nat} {x : Nat}

theorem sum_upd {α : Type} (f : α → Nat) (g : Fin n → α) (t : Fin n) (a : α) :
    ∑ i, f (upd g t a i) + f (g t) = ∑ i, f (g i) + f a := by
  have h := sum_change (Finset.mem_univ t) (f := fun i => f (upd g t a i)) (g := fun i => f (g i))
    fun j _ hj => by rw [upd_ne hj]
  rwa [upd_same] at h

section Calls

variable {threads : Fin n → Option FreeRemotePc} {t : Fin n} {pc : Option FreeRemotePc}

theorem callsOf_upd (ht : threads t = pc) (pc' : Option FreeRemotePc) :
    callsOf (upd threads t pc') + FreeRemotePc.owesUsed pc =
      callsOf threads + FreeRemotePc.owesUsed pc' := by
  have := sum_upd FreeRemotePc.owesUsed threads t pc'
  rwa [ht] at this

theorem uncountedOf_upd (ht : threads t = pc) (pc' : Option FreeRemotePc) :
    uncountedOf (upd threads t pc') + FreeRemotePc.owesCount pc =
      uncountedOf threads + FreeRemotePc.owesCount pc' := by
  have := sum_upd FreeRemotePc.owesCount threads t pc'
  rwa [ht] at this

end Calls

/-! ## Slots and memory -/

theorem isSlot_bounds (g : Geom r p₀) (hx : IsSlot r p₀ x) :
    r.start ≤ x ∧ x + p₀.slotSize ≤ r.start + 65536 := by
  obtain ⟨i, hi, rfl⟩ := mem_slotList.mp hx
  exact g.slot_in hi

theorem isSlot_ne_zero (g : Geom r p₀) (hx : IsSlot r p₀ x) : x ≠ 0 := by
  have := isSlot_bounds g hx
  have := g.start_pos
  omega

/-- A write inside one slot leaves the links of the other slots. -/
theorem link_touch {m m' : Mem} {y : Nat} (g : Geom r p₀) (hx : IsSlot r p₀ x) (hy : IsSlot r p₀ y)
    (hne : y ≠ x) (hm : ∀ a, ¬ (x ≤ a ∧ a < x + p₀.slotSize) → m' a = m a) :
    readWord m' y = readWord m y := by
  have hge := g.slot_ge
  apply readWord_congr
  intro a h₁ h₂
  apply hm
  rcases slotList_apart hx hy (Ne.symm hne) with h | h <;> omega

/-- A write of a link stays inside its slot. -/
theorem writeWord_touch (g : Geom r p₀) (m : Mem) (x v : Nat) :
    ∀ a, ¬ (x ≤ a ∧ a < x + p₀.slotSize) → writeWord m x v a = m a := by
  intro a ha
  have := g.slot_ge
  exact writeWord_out (by omega)

namespace Lists

/-- A slot that is not virgin lies below the bump offset. -/
theorem below (h : Lists r p₀ σ loc walk) {pl : Place n} (hx : σ.At r p₀ loc walk pl x)
    (hpl : pl ≠ .virgin) : x + p₀.slotSize ≤ r.start + σ.page.bumpOffset := by
  have hs := h.placed.mem hx
  have hlt : x < r.start + σ.page.bumpOffset := by
    by_contra hge
    have hv : σ.At r p₀ loc walk .virgin x := ⟨hs, by omega⟩
    exact hpl (h.placed.only hx hv)
  obtain ⟨i, hi, rfl⟩ := mem_slotList.mp hs
  obtain ⟨k, hk, hb⟩ := h.carved
  unfold slotAt at hlt ⊢
  rw [hb] at hlt ⊢
  have hik : i < k := by
    by_contra hge
    have := Nat.mul_le_mul_right p₀.slotSize (Nat.le_of_not_lt hge)
    omega
  have := Nat.mul_le_mul_right p₀.slotSize hik
  rw [Nat.succ_mul] at this
  omega

/-- Nothing moves; memory changes at most where no list looks. -/
theorem still (h : Lists r p₀ σ loc walk)
    (hmem : ∀ y, y ∈ loc ∨ y ∈ pushedSince σ.log → readWord σ'.mem y = readWord σ.mem y)
    (hvirgin : ∀ a, r.start + σ.page.bumpOffset ≤ a → σ'.mem a = σ.mem a)
    (hshape : SameShape σ.page σ'.page) (hbump : σ'.page.bumpOffset = σ.page.bumpOffset)
    (hlocal : σ'.page.localFree = σ.page.localFree)
    (hremote : σ'.page.remoteFree = σ.page.remoteFree) (hlive : σ'.live = σ.live)
    (hlog : σ'.log = σ.log) (htake : σ'.owner.taking = σ.owner.taking)
    (hfree : σ'.owner.freeing = σ.owner.freeing)
    (hpush : ∀ t, (σ'.threads t).bind FreeRemotePc.pushing =
      (σ.threads t).bind FreeRemotePc.pushing) : Lists r p₀ σ' loc walk := by
  refine ⟨h.shape.trans hshape, ?_, ?_, ?_, ?_, ?_, ?_, ?_, ?_⟩
  · rw [hbump]
    exact h.carved
  · refine h.placed.congr ?_
    intro pl y
    cases pl with
    | live => simp only [PageSys.At, hlive, htake]
    | pushing t =>
      cases t with
      | none => simp only [PageSys.At, hfree]
      | some t => simp only [PageSys.At, hpush]
    | onRemote => simp only [PageSys.At, hlog]
    | onWalk => exact Iff.rfl
    | onLocal => exact Iff.rfl
    | virgin => simp only [PageSys.At, hbump]
  · rw [hlive]
    exact h.live_nodup
  · rw [htake, hlive]
    exact h.taking_new
  · rw [hlocal]
    exact h.local_linked.congr fun y hy => congrArg ptr (hmem y (Or.inl hy))
  · rw [hremote, hlog]
    exact h.stack_linked.congr fun y hy => congrArg ptr (hmem y (Or.inr hy))
  · rw [hlog]
    exact h.chain
  · intro a h₁ h₂
    rw [hbump] at h₁
    rw [hvirgin a h₁]
    exact h.virgin a h₁ h₂

/-- A slot is moved by its pusher, which stays where it was. -/
theorem word_of_place (g : Geom r p₀) (h : Lists r p₀ σ loc walk) {pl : Place n} {m' : Mem}
    (hx : σ.At r p₀ loc walk pl x) (hl : pl ≠ .onLocal) (hr : pl ≠ .onRemote)
    (hm : ∀ a, ¬ (x ≤ a ∧ a < x + p₀.slotSize) → m' a = σ.mem a) {y : Nat}
    (hy : y ∈ loc ∨ y ∈ pushedSince σ.log) : readWord m' y = readWord σ.mem y := by
  rcases hy with hy | hy
  · have hyl : σ.At r p₀ loc walk .onLocal y := hy
    exact link_touch g (h.placed.mem hx) (h.placed.mem hyl) (h.placed.ne hyl hx (Ne.symm hl)) hm
  · have hyr : σ.At r p₀ loc walk .onRemote y := hy
    exact link_touch g (h.placed.mem hx) (h.placed.mem hyr) (h.placed.ne hyr hx (Ne.symm hr)) hm

end Lists

/-! ## What the owner knows survives the others' steps -/

section Frame

variable {s s' : Cell}

/-- The fields and words the owner relies on are unchanged. -/
structure OwnerSees (s s' : Cell) (loc walk : List Nat) (own : Option Nat) : Prop where
  localFree : s'.page.localFree = s.page.localFree
  localFreeCount : s'.page.localFreeCount = s.page.localFreeCount
  bumpOffset : s'.page.bumpOffset = s.page.bumpOffset
  bumpEnd : s'.page.bumpEnd = s.page.bumpEnd
  word : ∀ y, y ∈ loc ∨ y ∈ walk ∨ own = some y → readWord s'.mem y = readWord s.mem y

/-- A list that is not null starts with its head. -/
theorem head_mem {m : Mem} {a : Nat} (h : Linked (link m) (ptr a) loc) (ha : a ≠ 0) : a ∈ loc := by
  cases loc with
  | nil => exact absurd (ptr_eq_none.mp h) ha
  | cons y l =>
    obtain ⟨rfl, -⟩ := ptr_eq_some.mp h.1
    exact List.mem_cons_self ..

theorem PopOk.frame {own : Option Nat} {pc : PopPc} (h : PopOk s pc)
    (hl : Linked (link s.mem) (ptr s.page.localFree) loc) (hs : OwnerSees s s' loc walk own) :
    PopOk s' pc := by
  cases pc with
  | head => exact fun h0 => h (hs.localFree.symm.trans h0)
  | read slot => exact ⟨h.1.trans hs.localFree.symm, h.2⟩
  | unlink slot next =>
    obtain ⟨hslot, hne, hnext⟩ := h
    rw [← hslot] at hl
    have hw := hs.word slot (Or.inl (head_mem hl hne))
    exact ⟨hslot.trans hs.localFree.symm, hne, hnext.trans hw.symm⟩
  | count slot => trivial
  | recount slot n => exact Eq.trans h hs.localFreeCount.symm
  | used slot => trivial

theorem BumpOk.frame {own : Option Nat} {pc : BumpPc} (h : BumpOk r s pc)
    (hs : OwnerSees s s' loc walk own) : BumpOk r s' pc := by
  cases pc with
  | read => unfold BumpOk; rw [hs.bumpOffset, hs.bumpEnd]; exact h
  | load slot => unfold BumpOk; rw [hs.bumpOffset, hs.bumpEnd]; exact h
  | store slot offset => unfold BumpOk; rw [hs.bumpOffset, hs.bumpEnd]; exact h
  | used slot => trivial

theorem CollectOk.frame {own : Option Nat} {pc : CollectPc} (h : CollectOk s loc walk pc)
    (hs : OwnerSees s s' loc walk own) : CollectOk s' loc walk pc := by
  have hwalk : ∀ {a : Nat}, Linked (link s.mem) (ptr a) walk → Linked (link s'.mem) (ptr a) walk :=
    fun hw => hw.congr fun y hy => congrArg ptr (hs.word y (Or.inr (Or.inl hy)))
  cases pc with
  | load => exact h
  | cas old => exact h
  | walk list current count => exact ⟨hwalk h.1, h.2⟩
  | rest list tail count => exact ⟨hwalk h.1, h.2⟩
  | splice list tail count head => exact ⟨hwalk h.1, h.2.1, h.2.2.1, hs.localFree ▸ h.2.2.2⟩
  | head list count =>
    refine ⟨h.1.congr ?_, h.2⟩
    intro y hy
    rcases List.mem_append.mp hy with hy | hy
    · exact congrArg ptr (hs.word y (Or.inr (Or.inl hy)))
    · exact congrArg ptr (hs.word y (Or.inl hy))
  | count count => exact h
  | recount count n => exact ⟨h.1, h.2.1, hs.localFreeCount ▸ h.2.2⟩
  | settle count => exact h

theorem FreeLocalOk.frame {pc : FreeLocalPc} (h : FreeLocalOk s pc)
    (hs : OwnerSees s s' loc walk (OwnerPc.free pc).freeing) : FreeLocalOk s' pc := by
  cases pc with
  | load x => trivial
  | link x head => exact Eq.trans h hs.localFree.symm
  | head x =>
    have hw := hs.word x (Or.inr (Or.inr rfl))
    exact (hw.trans h).trans hs.localFree.symm
  | count => trivial
  | recount n => exact Eq.trans h hs.localFreeCount.symm
  | used => trivial

theorem OwnerOk.frame {pc : OwnerPc} (h : OwnerOk r s loc walk pc)
    (hl : Linked (link s.mem) (ptr s.page.localFree) loc)
    (hs : OwnerSees s s' loc walk pc.freeing) : OwnerOk r s' loc walk pc := by
  cases pc with
  | idle => exact h
  | alloc pc =>
    cases pc with
    | test => exact h
    | pop pc => exact ⟨h.1, h.2.frame hl hs⟩
    | bumpTest => exact h
    | bump pc => exact ⟨h.1, h.2.frame hs⟩
    | collect pc => exact CollectOk.frame h hs
    | retest => exact h
  | collect pc => exact CollectOk.frame h hs
  | free pc => exact ⟨h.1, h.2.frame hs⟩

end Frame

end CustomMalloc

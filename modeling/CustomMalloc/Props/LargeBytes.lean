import CustomMalloc.Inv.LargeNodes
import CustomMalloc.Inv.SlabFrame
import CustomMalloc.Run

/-!
# The bytes in large blocks

`large_allocated` is meant to be the sum of `user_size` over `large_list`. Allocating
and freeing keep it so; `my_realloc` does too where it moves the block, but where the
new size fits the old mapping it writes `user_size` and leaves the counter alone. The
law holds in every run in which no size computation wraps and such a resize leaves the
size what it was (`LargeOp.KeepsBooks`).

The invariant is about the headers only: it does not matter what the pointers are, and
nothing is assumed about the slabs a moving `my_realloc` may use.
-/

namespace CustomMalloc

open Lib.Words Lib.Bytes Lib.Chain Lib.Intervals Lib.Regions Lib.Post

variable {c : Cfg} {s s' : State}

/-! ## The invariant -/

/-- `user_size` of the header at `b`. -/
def userSizeAt (larges : Nat → Option LargeAlloc) (b : Nat) : Nat :=
  ((larges b).map LargeAlloc.userSize).getD 0

/-- The headers are in the list, their mappings are mapped and apart, and their user
sizes add up to `large_allocated`. -/
structure LargeBooks (c : Cfg) (s : State) : Prop where
  each : ∀ {b la}, s.larges b = some la → HeaderOk c b la
  apart : Layout (Covers s.mapped) (InMapping s.larges)
  exact : ∃ l, LargeList s.larges s.largeList l ∧
    s.largeAllocated = (l.map (userSizeAt s.larges)).sum

theorem LargeBooks.initial (c : Cfg) : LargeBooks c (State.initial c) where
  each := fun hb => absurd hb (by simp [State.initial])
  apart := ⟨fun hx => absurd hx.choose_spec.1 (by simp [State.initial]),
    fun hx => absurd hx.choose_spec.1 (by simp [State.initial])⟩
  exact := ⟨[], ⟨⟨rfl, trivial⟩, fun b => by simp [State.initial]⟩, rfl⟩

theorem LargeBooks.kept (h : LargeBooks c s) (hk : LargeKept s s') : LargeBooks c s' where
  each := fun hb => h.each (by rw [← hk.larges]; exact hb)
  apart := by
    rw [hk.larges]
    exact h.apart.mono (fun _ _ hx => hx) hk.mapped
  exact := by
    rw [hk.larges, hk.list, hk.allocated]
    exact h.exact

/-- The nodes behind the books. -/
theorem LargeBooks.nodes (h : LargeBooks c s) {l : List Nat}
    (hl : LargeList s.larges s.largeList l) : LargeNodes c s l :=
  ⟨fun _ _ hb => h.each hb, h.apart, hl⟩

/-! ## Allocating and freeing -/

/-- A new header is linked and counted. -/
theorem LargeBooks.link (h : LargeBooks c s) {la : LargeAlloc} (hos : OsExt s s')
    (hf : FreshRegion s s' la.base la.size) (hok : HeaderOk c la.base la) :
    LargeBooks c (linkedLarge s' la) := by
  obtain ⟨l, hl, hsum⟩ := h.exact
  obtain ⟨hnone, hne, hnodes⟩ := (h.nodes hl).link la hos hf hok
  have hlt := hnodes.sum_userSize_lt
  have hadd := sum_insertedLarges linkFree_userSize ((h.nodes hl).osExt hos).list hnone
  obtain ⟨hlarges, -, hallocated, -⟩ := hos.headers
  refine ⟨fun {b y} => hnodes.each b y, hnodes.apart, la.base :: l, hnodes.list, ?_⟩
  rw [linkedLarge_eq hne] at hlt ⊢
  show (s'.largeAllocated + la.userSize) % 2 ^ 64 =
    ((la.base :: l).map (fieldAt LargeAlloc.userSize _)).sum
  rw [hadd] at hlt ⊢
  rw [hallocated, hsum, hlarges]
  rw [hlarges] at hlt
  exact (Nat.mod_eq_of_lt (by rw [Nat.add_comm]; exact hlt)).trans (Nat.add_comm ..)

theorem LargeBooks.largeAllocAligned (h : LargeBooks c s) {size k : Nat} (hk : k ≤ 63)
    (hfit : LargeFits c size (2 ^ k)) :
    Ensures (fun _ => True) (largeAllocAligned c s size (2 ^ k)) fun (_, s') =>
      LargeBooks c s' := by
  obtain ⟨p, s', he, hcase⟩ := largeAllocAligned_returns s hk hfit
  rw [he]
  rcases hcase with ⟨-, hos⟩ | ⟨base, s₁, h0, hos, hf, -, hPp, -, rfl⟩
  · exact h.kept hos.largeKept
  · have h48 : 48 ≤ alignUp (raisedAlign (2 ^ k)) 48 := by
      refine le_alignUp ?_ 48
      rw [raisedAlign_pow]
      exact Nat.two_pow_pos _
    have hle := le_alignUp c.osPage_pos (alignUp (raisedAlign (2 ^ k)) 48 + size)
    exact h.link hos hf ⟨rfl, Nat.pos_of_ne_zero h0, hPp, dvd_alignUp _ _, hf.fits,
      Nat.le_trans (Nat.add_le_add_right h48 size) hle⟩

/-- The header `large_find` found is unlinked and its mapping goes away. -/
theorem LargeBooks.freed (h : LargeBooks c s) {b : Nat} {la : LargeAlloc}
    (hb : s.larges b = some la) : LargeBooks c (freedLarge c s b la) := by
  obtain ⟨l, hl, hsum⟩ := h.exact
  have hnodes := (h.nodes hl).freed hb
  have hlt := (h.nodes hl).sum_userSize_lt
  have hsub := sum_removedLarges linkFree_userSize hl hb
  refine ⟨fun {b y} => hnodes.each b y, hnodes.apart, l.erase b, hnodes.list, ?_⟩
  show (s.largeAllocated + 2 ^ 64 - la.userSize) % 2 ^ 64 =
    ((l.erase b).map (fieldAt LargeAlloc.userSize (removedLarges s.larges b la))).sum
  have hsum : s.largeAllocated = (l.map (fieldAt LargeAlloc.userSize s.larges)).sum := hsum
  omega

theorem LargeBooks.largeFree (h : LargeBooks c s) (p : Nat) :
    Ensures (fun _ => True) (largeFree c s p) (LargeBooks c) := by
  by_cases h0 : p = 0
  · unfold CustomMalloc.largeFree
    rw [if_pos h0]
    exact h
  cases hf : largeFind s p with
  | error e =>
    unfold CustomMalloc.largeFree
    rw [if_neg h0, hf]
    trivial
  | ok o =>
    cases hb : o.bind s.larges with
    | none =>
      unfold CustomMalloc.largeFree
      rw [if_neg h0, hf]
      cases o with
      | none => exact h
      | some b =>
        have hb : s.larges b = none := hb
        simp only [bind, Except.bind, hb]
        exact h
    | some la =>
      obtain ⟨b, rfl, hb⟩ := Option.bind_eq_some_iff.mp hb
      have hok := h.each hb
      have hfits := hok.fits
      have hpos := hok.pos
      rw [largeFree_eq h0 hf hb (by rw [hok.base]; omega) (by omega)]
      exact h.freed hb

/-! ## `my_realloc` -/

theorem LargeBooks.myFree (h : LargeBooks c s) (t p : Nat) :
    Ensures (fun _ => True) (myFree c s t p) (LargeBooks c) := by
  unfold CustomMalloc.myFree
  split
  next => exact h
  next =>
  split
  next => exact h
  next =>
  split
  next => exact ensures_mono (slabFree_closed (largeKept_closed t).toFreeClosed s p) fun _ hk =>
    h.kept hk
  next => exact h.largeFree p

theorem LargeBooks.myMalloc (h : LargeBooks c s) (t : Nat) {size : Nat}
    (hfit : LargeFits c size 16) :
    Ensures (fun _ => True) (myMalloc c s t size) fun (_, s') => LargeBooks c s' := by
  rcases myMalloc_cases c s t hfit with ⟨n, -, hn, he⟩ | ⟨n, hpos, hn, he⟩
  · rw [he]
    exact h.largeAllocAligned (k := 4) (by decide) hn
  · rw [he]
    unfold slabAlloc
    exact ensures_bind (slabAllocInner_closed (largeKept_closed t) s hpos hn) fun _ hk => h.kept hk

theorem LargeBooks.write (h : LargeBooks c s) (m : Mem) : LargeBooks c { s with mem := m } :=
  h.kept ⟨rfl, rfl, rfl, rfl, fun _ hx => hx⟩

theorem LargeBooks.reallocMove (h : LargeBooks c s) (t p old : Nat) {n : Nat}
    (hfit : LargeFits c n 16) :
    Ensures (fun _ => True) (reallocMove c s t p old n) fun (_, s') => LargeBooks c s' := by
  unfold CustomMalloc.reallocMove
  refine ensures_bind (h.myMalloc t hfit) ?_
  rintro ⟨q, s₁⟩ h₁
  simp only
  split
  next => exact h₁
  next =>
    refine ensures_bind (LargeBooks.myFree (h₁.write _) t p) ?_
    exact fun s' hs' => hs'

/-- `my_realloc(p, n)` resizes the block of the header `la` where it is. -/
def Resizes (s : State) (p n : Nat) (la : LargeAlloc) : Prop :=
  n ≠ 0 ∧ ptrToPage s p = none ∧ ∃ b, largeFind s p = .ok (some b) ∧ s.larges b = some la ∧
    n ≤ la.size - (p - la.base)

theorem LargeBooks.myRealloc (h : LargeBooks c s) (t p : Nat) {n : Nat} (hfit : LargeFits c n 16)
    (hsame : ∀ la, Resizes s p n la → n = la.userSize) :
    Ensures (fun _ => True) (myRealloc c s t p n) fun (_, s') => LargeBooks c s' := by
  unfold CustomMalloc.myRealloc
  split
  next => exact h.myMalloc t hfit
  next =>
  split
  next => exact ensures_bind (LargeBooks.myFree h t p) fun s' hs' => hs'
  next hn =>
  split
  next =>
    refine ensures_bind (h.myMalloc t hfit) ?_
    rintro ⟨q, s₁⟩ h₁
    simp only
    split
    next => exact h₁
    next => exact LargeBooks.write h₁ _
  next =>
  split
  next r hr =>
    simp only
    split
    next => exact h
    next => exact h.reallocMove t p _ hfit
  next hnone =>
    unfold reallocLarge
    cases hf : largeFind s p with
    | error e => trivial
    | ok o =>
      cases o with
      | none => exact h
      | some b =>
        simp only [bind, Except.bind]
        split
        next => exact h
        next la hb =>
          split
          next hle =>
            -- the size is what it was, so the header is too
            have heq := hsame la ⟨hn, hnone, b, hf, hb, hle⟩
            have hla : upd s.larges b (some { la with userSize := n }) = s.larges := by
              rw [heq, ← hb, upd_eta]
            show LargeBooks c { s with larges := upd s.larges b (some { la with userSize := n }) }
            rw [hla]
            exact h
          next => exact h.reallocMove t p _ hfit

/-! ## Runs -/

/-- The operations on large blocks. The alignment of `large_alloc_aligned` is a power of
two. -/
inductive LargeOp where
  | allocAligned (size k : Nat)
  | free (ptr : Nat)
  | realloc (ptr size : Nat)
  deriving DecidableEq, Repr

/-- Run one operation. -/
def LargeOp.exec (c : Cfg) (s : State) (t : Nat) : LargeOp → Except Halt State
  | .allocAligned size k => do
    let (_, s) ← largeAllocAligned c s size (2 ^ k)
    return s
  | .free ptr => largeFree c s ptr
  | .realloc ptr size => do
    let (_, s) ← myRealloc c s t ptr size
    return s

/-- The alignment is a 64-bit word. -/
def LargeOp.Legal : LargeOp → Prop
  | .allocAligned _ k => k ≤ 63
  | _ => True

/-- No size computation wraps, and a resize in place leaves the size what it was. -/
def LargeOp.KeepsBooks (c : Cfg) (s : State) : LargeOp → Prop
  | .allocAligned size k => LargeFits c size (2 ^ k)
  | .free _ => True
  | .realloc ptr size => LargeFits c size 16 ∧ ∀ la, Resizes s ptr size la → size = la.userSize

/-- The states of the runs whose operations satisfy `P`, by any threads. -/
inductive LargeReachable (c : Cfg) (P : State → LargeOp → Prop) : State → Prop
  | init : LargeReachable c P (State.initial c)
  | step {s s' : State} (t : Nat) (op : LargeOp) (ans : List (Option Nat))
      (h : LargeReachable c P s) (hlegal : op.Legal) (hP : P s op)
      (he : op.exec c (s.withAnswers ans) t = .ok s') : LargeReachable c P s'

theorem LargeBooks.step (h : LargeBooks c s) {t : Nat} {op : LargeOp} {ans : List (Option Nat)}
    (hlegal : op.Legal) (hP : op.KeepsBooks c s)
    (he : op.exec c (s.withAnswers ans) t = .ok s') : LargeBooks c s' := by
  have h' : LargeBooks c (s.withAnswers ans) := h.kept ⟨rfl, rfl, rfl, rfl, fun _ hx => hx⟩
  cases op with
  | allocAligned size k =>
    have hr : Ensures (fun _ => True)
        ((LargeOp.allocAligned size k).exec c (s.withAnswers ans) t) (LargeBooks c) :=
      ensures_bind (h'.largeAllocAligned hlegal hP) fun x hx => hx
    exact ensures_elim hr he
  | free ptr => exact ensures_elim (h'.largeFree ptr) he
  | realloc ptr size =>
    have hr : Ensures (fun _ => True) ((LargeOp.realloc ptr size).exec c (s.withAnswers ans) t)
        (LargeBooks c) :=
      ensures_bind (h'.myRealloc t ptr hP.1 hP.2) fun x hx => hx
    exact ensures_elim hr he

theorem LargeReachable.books (h : LargeReachable c (fun s op => op.KeepsBooks c s) s) :
    LargeBooks c s := by
  induction h with
  | init => exact .initial c
  | step t op ans _ hlegal hP he ih => exact ih.step hlegal hP he

/-- `large_allocated` is the sum of the user sizes over `large_list`. -/
def BytesExact (s : State) : Prop :=
  ∃ l, Linked (fun b => (s.larges b).bind LargeAlloc.next) s.largeList l ∧
    s.largeAllocated = (l.map (userSizeAt s.larges)).sum

/-- One resize in place keeps the law exactly if it keeps the size. -/
theorem LargeBooks.resize_exact_iff (h : LargeBooks c s) {b n : Nat} {la : LargeAlloc}
    (hb : s.larges b = some la) :
    BytesExact { s with larges := upd s.larges b (some { la with userSize := n }) } ↔
      n = la.userSize := by
  obtain ⟨l, hl, hsum⟩ := h.exact
  have hbl : b ∈ l := (hl.2 b).mpr (by rw [hb]; rfl)
  have hnext := upd_proj (fun o : Option LargeAlloc => o.bind LargeAlloc.next) (g := s.larges)
    (a := b) (b := some { la with userSize := n }) (by rw [hb]; rfl)
  have hold : userSizeAt s.larges b = la.userSize := by
    simp only [userSizeAt, hb, Option.map_some, Option.getD_some]
  have hnew : userSizeAt (upd s.larges b (some { la with userSize := n })) b = n := by
    simp only [userSizeAt, upd_same, Option.map_some, Option.getD_some]
  have hsame : (l.erase b).map (userSizeAt (upd s.larges b (some { la with userSize := n }))) =
      (l.erase b).map (userSizeAt s.larges) := by
    refine List.map_congr_left fun x hx => ?_
    have hne := ((hl.1.1.nodup.mem_erase_iff).mp hx).1
    simp only [userSizeAt, upd_ne hne]
  have hsum₁ := List.sum_map_erase (userSizeAt s.larges) hbl
  have hsum₂ := List.sum_map_erase
    (userSizeAt (upd s.larges b (some { la with userSize := n }))) hbl
  rw [hold] at hsum₁
  rw [hnew, hsame] at hsum₂
  have hlinked : Linked (fun x => (upd s.larges b (some { la with userSize := n }) x).bind
      LargeAlloc.next) s.largeList l := by
    rw [hnext]
    exact hl.1.1
  constructor
  · rintro ⟨l', hl', hsum'⟩
    obtain rfl := Linked.unique hlinked hl'
    have hsum' : s.largeAllocated =
        (l.map (userSizeAt (upd s.larges b (some { la with userSize := n })))).sum := hsum'
    omega
  · intro hn
    refine ⟨l, hlinked, ?_⟩
    show s.largeAllocated =
      (l.map (userSizeAt (upd s.larges b (some { la with userSize := n })))).sum
    omega

theorem large_bytes_exact (c : Cfg) (s : State)
    (h : LargeReachable c (fun s op => op.KeepsBooks c s) s) :
    BytesExact s ∧ (s.largeList = none → s.largeAllocated = 0) := by
  obtain ⟨l, hl, hsum⟩ := h.books.exact
  refine ⟨⟨l, hl.1.1, hsum⟩, fun hnone => ?_⟩
  have hnil : l = [] := Linked.unique (hnone ▸ hl.1.1) (linked_nil.mpr rfl)
  rw [hsum, hnil]
  rfl

/-- The state after an operation that returns; for runs that are written out. -/
def LargeOp.after (c : Cfg) (s : State) (t : Nat) (op : LargeOp)
    (ans : List (Option Nat)) : State :=
  match op.exec c (s.withAnswers ans) t with
  | .ok s' => s'
  | .error _ => s

theorem LargeReachable.after {P : State → LargeOp → Prop} (h : LargeReachable c P s) (t : Nat)
    (op : LargeOp) (ans : List (Option Nat)) (hlegal : op.Legal) (hP : P s op) :
    LargeReachable c P (op.after c s t ans) := by
  unfold LargeOp.after
  split
  next s' he => exact h.step t op ans hlegal hP he
  next => exact h

/-- A large block of 200000 bytes. -/
def oneLarge : State :=
  (LargeOp.allocAligned 200000 4).after (.page4k false) (State.initial (.page4k false)) 0
    [some 0x10000000]

theorem oneLarge_find : largeFind oneLarge 0x10000030 = .ok (some 0x10000000) := by decide +kernel

theorem oneLarge_header : oneLarge.larges 0x10000000 = some
    { base := 0x10000000, size := 200704, userSize := 200000, next := none, prev := none } := by
  decide +kernel

/-- A block that grows out of its mapping is moved and booked. -/
theorem large_bytes_exact_moved :
    ∃ s, LargeReachable (.page4k false) (fun s op => op.KeepsBooks (.page4k false) s) s ∧
      s.largeAllocated = 300000 ∧ BytesExact s ∧ (s.largeList = none → s.largeAllocated = 0) := by
  have h₁ : LargeReachable (.page4k false) (fun s op => op.KeepsBooks (.page4k false) s) oneLarge :=
    LargeReachable.after .init 0 (.allocAligned 200000 4) _ (show 4 ≤ 63 by decide)
      (show LargeFits _ 200000 (2 ^ 4) by decide)
  have hgrow : (LargeOp.realloc 0x10000030 300000).KeepsBooks (.page4k false) oneLarge := by
    refine ⟨by decide, fun la hla => ?_⟩
    obtain ⟨-, -, b, hf, hb, hle⟩ := hla
    cases Except.ok.inj (oneLarge_find.symm.trans hf)
    cases oneLarge_header.symm.trans hb
    exact absurd hle (by decide)
  have h₂ := h₁.after 0 (.realloc 0x10000030 300000) [some 0x20000000] trivial hgrow
  exact ⟨_, h₂, by decide +kernel, large_bytes_exact _ _ h₂⟩

/-- The operations whose sizes do not wrap. -/
def LargeOp.NoWrap (c : Cfg) : LargeOp → Prop
  | .allocAligned size k => LargeFits c size (2 ^ k)
  | .free _ => True
  | .realloc _ size => LargeFits c size 16

/-- 200000 bytes shrunk to 150000 in place are still booked as 200000. And two blocks
whose sizes wrapped add up to more than the counter holds. -/
theorem large_bytes_drift :
    (∃ s, LargeReachable (.page4k false) (fun _ op => op.NoWrap (.page4k false)) s ∧
      ¬ BytesExact s) ∧
    ∃ s, LargeReachable (.page4k false) (fun _ op => ∃ size k, op = .allocAligned size k) s ∧
      ¬ BytesExact s := by
  constructor
  · have h₁ : LargeReachable (.page4k false) (fun _ op => op.NoWrap (.page4k false)) oneLarge :=
      LargeReachable.after .init 0 (.allocAligned 200000 4) _ (show 4 ≤ 63 by decide)
        (show LargeFits _ 200000 (2 ^ 4) by decide)
    have h₂ := h₁.after 0 (.realloc 0x10000030 150000) [] trivial
      (show LargeFits _ 150000 16 by decide)
    refine ⟨_, h₂, ?_⟩
    rintro ⟨l, hl, hsum⟩
    have hone : l = [0x10000000] :=
      Linked.unique hl ⟨by decide +kernel, linked_nil.mpr (by decide +kernel)⟩
    rw [hone] at hsum
    exact absurd hsum (by decide +kernel)
  · have h₁ : LargeReachable (.page4k false) (fun _ op => ∃ size k, op = .allocAligned size k)
        ((LargeOp.allocAligned (2 ^ 64 - 10) 4).after (.page4k false)
          (State.initial (.page4k false)) 0 [some 0x10000000]) :=
      LargeReachable.after .init 0 _ _ (show 4 ≤ 63 by decide) ⟨_, _, rfl⟩
    have h₂ := h₁.after 0 (.allocAligned (2 ^ 64 - 10) 4) [some 0x20000000] (show 4 ≤ 63 by decide)
      ⟨_, _, rfl⟩
    refine ⟨_, h₂, ?_⟩
    rintro ⟨l, hl, hsum⟩
    have htwo : l = [0x20000000, 0x10000000] :=
      Linked.unique hl ⟨by decide +kernel, by decide +kernel, linked_nil.mpr (by decide +kernel)⟩
    rw [htwo] at hsum
    exact absurd hsum (by decide +kernel)

end CustomMalloc

import CustomMalloc.Lib.Chain

/-!
# A doubly linked list while it is being changed

A cell is put in front of a doubly linked list, or taken out of it, by several writes. The two
predicates here say what holds between them. `Linking` has a flag for each link that is already
set, `Unlinking` one for each neighbour that is already redirected; when all flags are set, the
write to the head of the list gives a doubly linked list again (`Linking.done`, `Unlinking.done`).

Both depend only on the links of the cells concerned (`congr`), so whoever writes elsewhere does
not disturb them.
-/

namespace Lib.Chain

variable {κ : Type} {next prev next' prev' : κ → Option κ} {head : Option κ} {l : List κ} {x y : κ}
  {fwd bwd back : Bool}

theorem Linked.head_mem (h : Linked next head l) (hx : head = some x) : x ∈ l := by
  cases l with
  | nil => cases h.symm.trans hx
  | cons y l =>
    cases h.1.symm.trans hx
    exact List.mem_cons_self ..

/-! ## Putting a cell in front -/

/-- `x` is about to be the first cell. Its `next` link (`fwd`) and its `prev` link (`bwd`) are set,
and the old first cell points back at it (`back`). -/
structure Linking (next prev : κ → Option κ) (head : Option κ) (l : List κ) (x : κ)
    (fwd bwd back : Bool) : Prop where
  out : x ∉ l
  linked : Linked next head l
  backLinked : BackLinked prev (if back then some x else none) l
  fwd : fwd = true → next x = head
  bwd : bwd = true → prev x = none

theorem Linking.start (h : DList next prev head l) (hx : x ∉ l) :
    Linking next prev head l x false false false :=
  ⟨hx, h.1, h.2, fun hf => absurd hf (by simp), fun hf => absurd hf (by simp)⟩

theorem Linking.congr (h : Linking next prev head l x fwd bwd back)
    (hn : ∀ y ∈ x :: l, next' y = next y) (hp : ∀ y ∈ x :: l, prev' y = prev y) :
    Linking next' prev' head l x fwd bwd back where
  out := h.out
  linked := h.linked.congr fun y hy => hn y (List.mem_cons_of_mem _ hy)
  backLinked := h.backLinked.congr fun y hy => hp y (List.mem_cons_of_mem _ hy)
  fwd := fun hf => (hn x (List.mem_cons_self ..)).trans (h.fwd hf)
  bwd := fun hf => (hp x (List.mem_cons_self ..)).trans (h.bwd hf)

/-- `x->next = head`. -/
theorem Linking.setNext (h : Linking next prev head l x fwd bwd back) (hx : next' x = head)
    (hn : ∀ y, y ≠ x → next' y = next y) : Linking next' prev head l x true bwd back where
  out := h.out
  linked := h.linked.congr fun y hy => hn y fun he => h.out (he ▸ hy)
  backLinked := h.backLinked
  fwd := fun _ => hx
  bwd := h.bwd

/-- `x->prev = NULL`. -/
theorem Linking.setPrev (h : Linking next prev head l x fwd bwd back) (hx : prev' x = none)
    (hp : ∀ y, y ≠ x → prev' y = prev y) : Linking next prev' head l x fwd true back where
  out := h.out
  linked := h.linked
  backLinked := h.backLinked.congr fun y hy => hp y fun he => h.out (he ▸ hy)
  fwd := h.fwd
  bwd := fun _ => hx

/-- `head->prev = x`, if there is a first cell. -/
theorem Linking.setBack (h : Linking next prev head l x fwd bwd back)
    (hhead : ∀ y, head = some y → prev' y = some x)
    (hp : ∀ y, head ≠ some y → prev' y = prev y) : Linking next prev' head l x fwd bwd true := by
  refine ⟨h.out, h.linked, ?_, h.fwd, fun hb => ?_⟩
  · have hlinked := h.linked
    have hback := h.backLinked
    have hnd := h.linked.nodup
    cases l with
    | nil => trivial
    | cons z l =>
      refine ⟨hhead z hlinked.1, hback.2.congr fun y hy => hp y fun he => ?_⟩
      cases hlinked.1.symm.trans he
      exact (List.nodup_cons.mp hnd).1 hy
  · rw [hp x fun he => h.out (h.linked.head_mem he)]
    exact h.bwd hb

/-- `head = x`. -/
theorem Linking.done (h : Linking next prev head l x true true true) :
    DList next prev (some x) (x :: l) :=
  ⟨⟨rfl, by rw [h.fwd rfl]; exact h.linked⟩, h.bwd rfl, h.backLinked⟩

/-! ## Taking a cell out -/

variable [DecidableEq κ]

/-- `x` is being taken out of the list that has the links `next₀` and `prev₀`. The `next` link of
its predecessor (`fwd`) and the `prev` link of its successor (`bwd`) pass over it. -/
structure UnlinkingFrom (next₀ prev₀ next prev : κ → Option κ) (head : Option κ) (l : List κ)
    (x : κ)
    (fwd bwd : Bool) : Prop where
  whole : DList next₀ prev₀ head l
  mem : x ∈ l
  next : ∀ y ∈ l, next y = if fwd = true ∧ prev₀ x = some y then next₀ x else next₀ y
  prev : ∀ y ∈ l, prev y = if bwd = true ∧ next₀ x = some y then prev₀ x else prev₀ y

/-- `x` is being taken out. -/
def Unlinking (next prev : κ → Option κ) (head : Option κ) (l : List κ) (x : κ) (fwd bwd : Bool) :
    Prop :=
  ∃ next₀ prev₀, UnlinkingFrom next₀ prev₀ next prev head l x fwd bwd

section From

variable {next₀ prev₀ : κ → Option κ}

/-- The links of `x` itself are what they were. -/
theorem UnlinkingFrom.next_self (h : UnlinkingFrom next₀ prev₀ next prev head l x fwd bwd) :
    next x = next₀ x := by
  rw [h.next x h.mem, if_neg fun hc => h.whole.prev_ne h.mem hc.2]

theorem UnlinkingFrom.prev_self (h : UnlinkingFrom next₀ prev₀ next prev head l x fwd bwd) :
    prev x = prev₀ x := by
  rw [h.prev x h.mem, if_neg fun hc => h.whole.next_ne h.mem hc.2]

end From

theorem Unlinking.start (h : DList next prev head l) (hx : x ∈ l) :
    Unlinking next prev head l x false false :=
  ⟨next, prev, h, hx, fun y _ => by simp, fun y _ => by simp⟩

theorem Unlinking.mem (h : Unlinking next prev head l x fwd bwd) : x ∈ l := by
  obtain ⟨_, _, hf⟩ := h
  exact hf.mem

theorem Unlinking.congr (h : Unlinking next prev head l x fwd bwd)
    (hn : ∀ y ∈ l, next' y = next y) (hp : ∀ y ∈ l, prev' y = prev y) :
    Unlinking next' prev' head l x fwd bwd := by
  obtain ⟨next₀, prev₀, hf⟩ := h
  exact ⟨next₀, prev₀, hf.whole, hf.mem, fun y hy => (hn y hy).trans (hf.next y hy),
    fun y hy => (hp y hy).trans (hf.prev y hy)⟩

/-- What `x` points at, in either direction, is in the list. -/
theorem Unlinking.neighbours (h : Unlinking next prev head l x fwd bwd) :
    (∀ y, next x = some y → y ∈ l) ∧ ∀ y, prev x = some y → y ∈ l := by
  obtain ⟨next₀, prev₀, hf⟩ := h
  rw [hf.next_self, hf.prev_self]
  refine ⟨fun y hy => hf.whole.1.mem_next hf.mem hy, fun y hy => ?_⟩
  rcases hf.whole.2.mem_prev hf.mem with hp | ⟨w, hw, hp⟩
  · cases hp.symm.trans hy
  · cases hp.symm.trans hy
    exact hw

/-- `x->prev->next = x->next`, if `x` has a predecessor. -/
theorem Unlinking.setFwd (h : Unlinking next prev head l x false bwd)
    (hw : ∀ y, prev x = some y → next' y = next x)
    (hn : ∀ y, prev x ≠ some y → next' y = next y) : Unlinking next' prev head l x true bwd := by
  obtain ⟨next₀, prev₀, hf⟩ := h
  rw [hf.prev_self, hf.next_self] at hw
  rw [hf.prev_self] at hn
  refine ⟨next₀, prev₀, hf.whole, hf.mem, fun y hy => ?_, hf.prev⟩
  by_cases hc : prev₀ x = some y
  · rw [if_pos ⟨rfl, hc⟩, hw y hc]
  · rw [if_neg fun hc' => hc hc'.2, hn y hc, hf.next y hy, if_neg fun hc' => hc hc'.2]

/-- `x->next->prev = x->prev`, if `x` has a successor. -/
theorem Unlinking.setBwd (h : Unlinking next prev head l x fwd false)
    (hw : ∀ y, next x = some y → prev' y = prev x)
    (hp : ∀ y, next x ≠ some y → prev' y = prev y) : Unlinking next prev' head l x fwd true := by
  obtain ⟨next₀, prev₀, hf⟩ := h
  rw [hf.next_self, hf.prev_self] at hw
  rw [hf.next_self] at hp
  refine ⟨next₀, prev₀, hf.whole, hf.mem, hf.next, fun y hy => ?_⟩
  by_cases hc : next₀ x = some y
  · rw [if_pos ⟨rfl, hc⟩, hw y hc]
  · rw [if_neg fun hc' => hc hc'.2, hp y hc, hf.prev y hy, if_neg fun hc' => hc hc'.2]

/-- `if (head == x) head = x->next`. -/
theorem Unlinking.done (h : Unlinking next prev head l x true true) :
    DList next prev (if head = some x then next x else head) (l.erase x) := by
  obtain ⟨next₀, prev₀, hf⟩ := h
  rw [hf.next_self]
  refine hf.whole.remove hf.mem (fun y hy _ => ?_) fun y hy _ => ?_
  · rw [hf.next y hy]
    simp
  · rw [hf.prev y hy]
    simp

end Lib.Chain

import Mathlib.Data.List.Perm.Subperm

/-!
# Linked lists in a heap of cells

`next : κ → Option κ` is the link field of every cell. `Linked next head l` says
that the list starting at `head` runs through exactly the cells `l`, in order,
and then ends. Everything about an intrusive list follows from this one
predicate:

* it determines `l` (`Linked.unique`), so a finite list has no repetition
  (`Linked.nodup`) and a bounded walk visits `l` and stops (`findFrom_linked`);
* it depends only on the links of `l` itself (`Linked.congr`), which is the
  frame rule for every write elsewhere.

`BackLinked` is the matching predicate for the `prev` field of a doubly linked
list, and `DList` the pair of both.
-/

namespace Lib.Chain

variable {κ : Type}

/-- The list at `head` is exactly `l`. -/
def Linked (next : κ → Option κ) : Option κ → List κ → Prop
  | head, [] => head = none
  | head, x :: l => head = some x ∧ Linked next (next x) l

/-- Every cell of `l` points back at its predecessor, the first one at `p`. -/
def BackLinked (prev : κ → Option κ) : Option κ → List κ → Prop
  | _, [] => True
  | p, x :: l => prev x = p ∧ BackLinked prev (some x) l

/-- A doubly linked list with a null `prev` at its head. -/
def DList (next prev : κ → Option κ) (head : Option κ) (l : List κ) : Prop :=
  Linked next head l ∧ BackLinked prev none l

@[simp] theorem linked_nil {next : κ → Option κ} {head : Option κ} :
    Linked next head [] ↔ head = none := Iff.rfl

@[simp] theorem linked_cons {next : κ → Option κ} {head : Option κ} {x : κ} {l : List κ} :
    Linked next head (x :: l) ↔ head = some x ∧ Linked next (next x) l := Iff.rfl

theorem Linked.congr {next next' : κ → Option κ} :
    ∀ {l : List κ} {head : Option κ}, (∀ x ∈ l, next' x = next x) →
      Linked next head l → Linked next' head l
  | [], _, _, h => h
  | x :: _, _, hn, h => by
    refine ⟨h.1, ?_⟩
    rw [hn x (List.mem_cons_self ..)]
    exact Linked.congr (fun y hy => hn y (List.mem_cons_of_mem _ hy)) h.2

theorem BackLinked.congr {prev prev' : κ → Option κ} :
    ∀ {l : List κ} {p : Option κ}, (∀ x ∈ l, prev' x = prev x) →
      BackLinked prev p l → BackLinked prev' p l
  | [], _, _, _ => trivial
  | x :: _, _, hn, h => by
    refine ⟨?_, BackLinked.congr (fun y hy => hn y (List.mem_cons_of_mem _ hy)) h.2⟩
    rw [hn x (List.mem_cons_self ..)]
    exact h.1

theorem Linked.unique {next : κ → Option κ} :
    ∀ {l l' : List κ} {head : Option κ}, Linked next head l → Linked next head l' → l = l'
  | [], [], _, _, _ => rfl
  | [], _ :: _, _, h, h' => by
    rw [linked_nil] at h
    cases h.symm.trans h'.1
  | _ :: _, [], _, h, h' => by
    rw [linked_nil] at h'
    cases h'.symm.trans h.1
  | x :: l, y :: l', _, h, h' => by
    have hxy : x = y := Option.some.inj (h.1.symm.trans h'.1)
    subst hxy
    rw [Linked.unique h.2 h'.2]

/-- A list of at most one cell is one whose cells all point nowhere. -/
theorem Linked.length_le_one_iff {next : κ → Option κ} {l : List κ} {head : Option κ}
    (h : Linked next head l) : l.length ≤ 1 ↔ ∀ x ∈ l, next x = none := by
  match l, h with
  | [], _ => simp
  | [x], h => simpa using h.2
  | x :: y :: l, h =>
    have hx : next x = some y := h.2.1
    simp [hx]

/-- The list from any of its cells on is the corresponding suffix. -/
theorem Linked.suffix {next : κ → Option κ} :
    ∀ {l : List κ} {head : Option κ} {x : κ}, Linked next head l → x ∈ l →
      ∃ pre suf, l = pre ++ x :: suf ∧ Linked next (next x) suf
  | y :: l, _, x, h, hx => by
    rcases List.mem_cons.mp hx with rfl | hx
    · exact ⟨[], l, rfl, h.2⟩
    · obtain ⟨pre, suf, hl, hs⟩ := h.2.suffix hx
      exact ⟨y :: pre, suf, by rw [hl]; rfl, hs⟩

/-- The list after a given prefix. -/
theorem Linked.drop {next : κ → Option κ} :
    ∀ {pre suf : List κ} {head : Option κ} {x : κ}, Linked next head (pre ++ x :: suf) →
      Linked next (next x) suf
  | [], _, _, _, h => h.2
  | _ :: _, _, _, _, h => Linked.drop h.2

/-- A list some of whose links are gone ends at the first of them. -/
theorem Linked.cut {next next' : κ → Option κ} :
    ∀ {l : List κ} {head : Option κ}, Linked next head l →
      (∀ x ∈ l, next' x = next x ∨ next' x = none) →
      ∃ l' rest, l = l' ++ rest ∧ Linked next' head l'
  | [], _, h, _ => ⟨[], [], rfl, h⟩
  | x :: l, _, h, hn => by
    rcases hn x (List.mem_cons_self ..) with hx | hx
    · obtain ⟨l', rest, rfl, hl⟩ := Linked.cut h.2 fun y hy => hn y (List.mem_cons_of_mem _ hy)
      exact ⟨x :: l', rest, rfl, h.1, by rwa [hx]⟩
    · exact ⟨[x], l, rfl, h.1, hx⟩

theorem Linked.nodup {next : κ → Option κ} :
    ∀ {l : List κ} {head : Option κ}, Linked next head l → l.Nodup
  | [], _, _ => List.nodup_nil
  | x :: l, _, h => by
    refine List.nodup_cons.mpr ⟨fun hx => ?_, h.2.nodup⟩
    -- a second occurrence would make the suffix after `x` shorter than itself
    obtain ⟨pre, suf, hl, hs⟩ := h.2.suffix hx
    have heq := Linked.unique h.2 hs
    rw [hl] at heq
    have := congrArg List.length heq
    simp at this
    omega

/-- Pushing a cell in front. -/
theorem Linked.push {next next' : κ → Option κ} {head : Option κ} {l : List κ} {x : κ}
    (h : Linked next head l) (hx : next' x = head) (hl : ∀ y ∈ l, next' y = next y) :
    Linked next' (some x) (x :: l) :=
  ⟨rfl, by rw [hx]; exact h.congr hl⟩

/-- Splicing one list in front of another by redirecting the last link. -/
theorem Linked.append {next next' : κ → Option κ} :
    ∀ {l : List κ} {head head' : Option κ} {l' : List κ} {t : κ},
      Linked next head (l ++ [t]) → Linked next head' l' → t ∉ l →
      next' t = head' → (∀ y ∈ l, next' y = next y) → (∀ y ∈ l', next' y = next y) →
      Linked next' head (l ++ t :: l')
  | [], _, _, l', t, h, h', _, ht, _, hl' => by
    refine ⟨h.1, ?_⟩
    rw [ht]
    exact h'.congr hl'
  | x :: l, _, _, l', t, h, h', htl, ht, hl, hl' => by
    refine ⟨h.1, ?_⟩
    rw [hl x (List.mem_cons_self ..)]
    exact Linked.append h.2 h' (fun hm => htl (List.mem_cons_of_mem _ hm)) ht
      (fun y hy => hl y (List.mem_cons_of_mem _ hy)) hl'

theorem DList.congr {next prev next' prev' : κ → Option κ} {head : Option κ} {l : List κ}
    (h : DList next prev head l) (hn : ∀ x ∈ l, next' x = next x)
    (hp : ∀ x ∈ l, prev' x = prev x) : DList next' prev' head l :=
  ⟨h.1.congr hn, h.2.congr hp⟩

theorem DList.head_mem {next prev : κ → Option κ} {head : Option κ} {l : List κ} {x : κ}
    (h : DList next prev head l) (hx : head = some x) : x ∈ l := by
  cases l with
  | nil =>
    have := linked_nil.mp h.1
    rw [this] at hx
    cases hx
  | cons y l =>
    cases h.1.1.symm.trans hx
    exact List.mem_cons_self ..

/-- Insertion at the head of a doubly linked list. -/
theorem DList.push {next prev next' prev' : κ → Option κ} {head : Option κ} {l : List κ} {x : κ}
    (h : DList next prev head l) (hnx : next' x = head) (hpx : prev' x = none)
    (hn : ∀ y ∈ l, next' y = next y) (hph : ∀ y, head = some y → prev' y = some x)
    (hp : ∀ y ∈ l, head ≠ some y → prev' y = prev y) :
    DList next' prev' (some x) (x :: l) := by
  refine ⟨h.1.push hnx hn, hpx, ?_⟩
  cases l with
  | nil => trivial
  | cons y l =>
    refine ⟨hph y h.1.1, h.2.2.congr fun z hz => hp z (List.mem_cons_of_mem _ hz) ?_⟩
    intro he
    have hzy : z = y := Option.some.inj (he.symm.trans h.1.1)
    have := h.1.nodup
    rw [hzy] at hz
    exact (List.nodup_cons.mp this).1 hz

/-! ## Removal -/

theorem BackLinked.mem_prev {prev : κ → Option κ} {l : List κ} {p : Option κ} {x : κ}
    (h : BackLinked prev p l) (hx : x ∈ l) : prev x = p ∨ ∃ w ∈ l, prev x = some w := by
  induction l generalizing p with
  | nil => cases hx
  | cons y l ih =>
    rcases List.mem_cons.mp hx with rfl | hx
    · exact Or.inl h.1
    · rcases ih h.2 hx with hp | ⟨w, hw, hp⟩
      · exact Or.inr ⟨y, List.mem_cons_self .., hp⟩
      · exact Or.inr ⟨w, List.mem_cons_of_mem _ hw, hp⟩

theorem Linked.mem_next {next : κ → Option κ} {l : List κ} {head : Option κ} {x y : κ}
    (h : Linked next head l) (hx : x ∈ l) (hy : next x = some y) : y ∈ l := by
  obtain ⟨pre, suf, rfl, hs⟩ := h.suffix hx
  cases suf with
  | nil =>
    rw [linked_nil] at hs
    cases hs.symm.trans hy
  | cons z suf =>
    cases hs.1.symm.trans hy
    simp

theorem BackLinked.after {prev : κ → Option κ} {pre suf : List κ} {p : Option κ} {x y : κ}
    (h : BackLinked prev p (pre ++ x :: y :: suf)) : prev y = some x := by
  induction pre generalizing p with
  | nil => exact h.2.1
  | cons z pre ih => exact ih h.2

/-- In a doubly linked list `next` and `prev` are inverse to each other. -/
theorem DList.next_iff_prev {next prev : κ → Option κ} {head : Option κ} {l : List κ} {x y : κ}
    (h : DList next prev head l) (hx : x ∈ l) (hy : y ∈ l) :
    next x = some y ↔ prev y = some x := by
  constructor
  · intro hn
    obtain ⟨pre, suf, rfl, hs⟩ := h.1.suffix hx
    cases suf with
    | nil =>
      rw [linked_nil] at hs
      cases hs.symm.trans hn
    | cons z suf =>
      cases hs.1.symm.trans hn
      exact h.2.after
  · intro hp
    obtain ⟨pre, suf, rfl⟩ := List.append_of_mem hy
    rcases List.eq_nil_or_concat pre with rfl | ⟨pre, w, rfl⟩
    · cases h.2.1.symm.trans hp
    · rw [List.concat_eq_append, List.append_assoc] at h
      cases h.2.after.symm.trans hp
      exact (Linked.drop h.1).1

/-- No cell is its own successor, -/
theorem DList.next_ne {next prev : κ → Option κ} {head : Option κ} {l : List κ} {x : κ}
    (h : DList next prev head l) (hx : x ∈ l) : next x ≠ some x := by
  intro hn
  obtain ⟨pre, suf, rfl, hs⟩ := h.1.suffix hx
  have hmem : x ∈ suf := by
    cases suf with
    | nil =>
      rw [linked_nil] at hs
      cases hs.symm.trans hn
    | cons z suf =>
      cases hs.1.symm.trans hn
      exact List.mem_cons_self ..
  exact (List.nodup_cons.mp (List.nodup_append.mp h.1.nodup).2.1).1 hmem

/-- or its own predecessor. -/
theorem DList.prev_ne {next prev : κ → Option κ} {head : Option κ} {l : List κ} {x : κ}
    (h : DList next prev head l) (hx : x ∈ l) : prev x ≠ some x := fun hp =>
  h.next_ne hx ((h.next_iff_prev hx hx).mpr hp)

/-- Taking `x` out: its neighbours are joined and the head moves if it was `x`.
Generalised over the `prev` of the first cell, the induction is on the list. -/
theorem remove_aux [DecidableEq κ] {next prev next' prev' : κ → Option κ} {x : κ} :
    ∀ {l : List κ} {head p : Option κ}, Linked next head l → BackLinked prev p l → l.Nodup →
      (∀ z ∈ l, p ≠ some z) → x ∈ l →
      (∀ y ∈ l, y ≠ x → next' y = if prev x = some y then next x else next y) →
      (∀ y ∈ l, y ≠ x → prev' y = if next x = some y then prev x else prev y) →
      Linked next' (if head = some x then next x else head) (l.erase x) ∧
        BackLinked prev' p (l.erase x)
  | y :: l, head, p, hl, hb, hnd, hp, hx, hn, hv => by
    have hyl : y ∉ l := (List.nodup_cons.mp hnd).1
    by_cases hyx : y = x
    · subst hyx
      rw [if_pos hl.1, List.erase_cons_head]
      constructor
      · refine hl.2.congr fun z hz => ?_
        rw [hn z (List.mem_cons_of_mem _ hz) fun he => hyl (he ▸ hz), if_neg]
        rw [hb.1]
        exact hp z (List.mem_cons_of_mem _ hz)
      · cases l with
        | nil => trivial
        | cons z l =>
          have hzl := (List.nodup_cons.mp (List.nodup_cons.mp hnd).2).1
          refine ⟨?_, hb.2.2.congr fun w hw => ?_⟩
          · rw [hv z (by simp) fun he => hyl (by simp [he]), if_pos hl.2.1, hb.1]
          · rw [hv w (by simp [hw]) fun he => hyl (by simp [← he, hw]), if_neg]
            intro he
            have hzw : z = w := Option.some.inj (hl.2.1.symm.trans he)
            exact hzl (hzw ▸ hw)
    · have hxl : x ∈ l := (List.mem_cons.mp hx).resolve_left fun he => hyx he.symm
      obtain ⟨ih₁, ih₂⟩ := remove_aux hl.2 hb.2 (List.nodup_cons.mp hnd).2
        (fun z hz he => hyl (Option.some.inj he ▸ hz)) hxl
        (fun z hz => hn z (List.mem_cons_of_mem _ hz)) fun z hz => hv z (List.mem_cons_of_mem _ hz)
      -- `y` points at `x` exactly if `x` points back at `y`
      have hiff : prev x = some y ↔ next y = some x := by
        constructor
        · intro hpx
          cases l with
          | nil => cases hxl
          | cons z l =>
            rcases List.mem_cons.mp hxl with rfl | hxl
            · exact hl.2.1
            · rcases hb.2.2.mem_prev hxl with h' | ⟨w, hw, h'⟩
              · exact absurd (Option.some.inj (hpx.symm.trans h')) fun he => hyl (by simp [he])
              · exact absurd (Option.some.inj (hpx.symm.trans h')) fun he => hyl (by simp [he, hw])
        · intro hny
          cases l with
          | nil => cases hxl
          | cons z l =>
            cases hl.2.1.symm.trans hny
            exact hb.2.1
      have hhead : ¬ head = some x := fun he => hyx (Option.some.inj (hl.1.symm.trans he))
      have hnext : next' y = if next y = some x then next x else next y := by
        rw [hn y (by simp) hyx]
        by_cases hc : next y = some x
        · rw [if_pos (hiff.mpr hc), if_pos hc]
        · rw [if_neg fun h' => hc (hiff.mp h'), if_neg hc]
      have hprev : prev' y = p := by
        rw [hv y (by simp) hyx, if_neg fun he => hyl (hl.2.mem_next hxl he), hb.1]
      rw [if_neg hhead, List.erase_cons_tail (by simpa using hyx)]
      exact ⟨⟨hl.1, by rw [hnext]; exact ih₁⟩, hprev, ih₂⟩

/-- Removal from a doubly linked list. -/
theorem DList.remove [DecidableEq κ] {next prev next' prev' : κ → Option κ}
    {head : Option κ} {l : List κ} {x : κ} (h : DList next prev head l) (hx : x ∈ l)
    (hn : ∀ y ∈ l, y ≠ x → next' y = if prev x = some y then next x else next y)
    (hp : ∀ y ∈ l, y ≠ x → prev' y = if next x = some y then prev x else prev y) :
    DList next' prev' (if head = some x then next x else head) (l.erase x) :=
  remove_aux h.1 h.2 h.1.nodup (fun _ _ => by simp) hx hn hp

/-! ## Bounded walks -/

/-- Walk at most `fuel` cells from `head`, looking for one that satisfies `p`.
The outer `none` means the walk was cut short. -/
def findFrom (next : κ → Option κ) (p : κ → Bool) : Nat → Option κ → Option (Option κ)
  | _, none => some none
  | 0, some _ => none
  | fuel + 1, some x => if p x then some (some x) else findFrom next p fuel (next x)

/-- With fuel for the whole list, the walk is `List.find?`. -/
theorem findFrom_linked {next : κ → Option κ} {p : κ → Bool} :
    ∀ {fuel : Nat} {l : List κ} {head : Option κ}, Linked next head l → l.length ≤ fuel →
      findFrom next p fuel head = some (l.find? p)
  | fuel, [], _, h, _ => by
    rw [linked_nil] at h
    subst h
    cases fuel <;> rfl
  | 0, _ :: _, _, _, hf => by simp at hf
  | fuel + 1, x :: l, _, h, hf => by
    rw [h.1]
    unfold findFrom
    by_cases hp : p x = true
    · rw [if_pos hp, List.find?_cons_of_pos hp]
    · rw [if_neg hp, List.find?_cons_of_neg hp]
      exact findFrom_linked h.2 (by simpa using hf)

/-- What a walk returns passes the test. -/
theorem findFrom_passes {next : κ → Option κ} {p : κ → Bool} {fuel : Nat} {head : Option κ} {x : κ}
    (h : findFrom next p fuel head = some (some x)) : p x = true := by
  induction fuel generalizing head with
  | zero => cases head <;> exact absurd h (by simp [findFrom])
  | succ fuel ih =>
    cases head with
    | none => exact absurd h (by simp [findFrom])
    | some y =>
      unfold findFrom at h
      split at h
      next hy =>
        obtain rfl : y = x := by simpa using h
        exact hy
      next => exact ih h

end Lib.Chain

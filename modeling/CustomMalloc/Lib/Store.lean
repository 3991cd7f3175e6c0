import CustomMalloc.Lib.Trace

/-!
# What an allocator is for

The abstract allocator knows nothing of pages, free lists or mappings. Its state is the set of
blocks that are out, each at an address and with its contents. A request is refused, which
changes nothing, or answered with an address that no block reaches; a block is taken back when
it is given back; resizing a block keeps the contents that fit; and only the clients change
what is in the blocks (`Allowed`). The answers are the allocator's choice.

Whatever the choices, no two blocks overlap, and a block that nobody gives back, resizes or
writes to is what it was (`run_apart`, `run_kept`).
-/

namespace Lib.Store

open Lib.Trace

/-- The blocks that are out: their addresses and their contents. -/
abbrev Blocks (β : Type) := Nat → Option (List β)

variable {β : Type}

/-- The block `bs` is out at `p`. -/
def place (S : Blocks β) (p : Nat) (bs : List β) : Blocks β :=
  fun q => if q = p then some bs else S q

/-- The block at `p` is not out any more. -/
def remove (S : Blocks β) (p : Nat) : Blocks β :=
  fun q => if q = p then none else S q

/-- There are `n` units at `p` that no block reaches. -/
structure Room (S : Blocks β) (p n : Nat) : Prop where
  new : S p = none
  apart : ∀ q bs, S q = some bs → p + n ≤ q ∨ q + bs.length ≤ p

/-- What is seen of a step. The address `0` stands for a refusal. -/
inductive Label where
  /-- a request for `n` units at a multiple of `al`, cleared or not, answered with `q` -/
  | get (al n : Nat) (cleared : Bool) (q : Nat)
  /-- the block at `p` is to have `n` units from now on, answered with `q` -/
  | resize (p n q : Nat)
  /-- the block at `p` is given back -/
  | give (p : Nat)
  /-- the clients write to the blocks at `ps` -/
  | edit (ps : List Nat)
  /-- nothing -/
  | skip
  deriving DecidableEq, Repr

/-- A step of the abstract allocator and its clients; `z` is what cleared units contain. -/
inductive Allowed (z : β) : Blocks β → Label → Blocks β → Prop
  | refuse {S : Blocks β} (al n : Nat) (cleared : Bool) : Allowed z S (.get al n cleared 0) S
  | get {S : Blocks β} {al n q : Nat} {cleared : Bool} {bs : List β} (hq : q ≠ 0) (hal : al ∣ q)
      (hroom : Room S q n) (hlen : bs.length = n)
      (hz : cleared = true → bs = List.replicate n z) :
      Allowed z S (.get al n cleared q) (place S q bs)
  | stay {S : Blocks β} {p : Nat} {bs : List β} (n : Nat) (hp : S p = some bs) :
      Allowed z S (.resize p n 0) S
  | resize {S : Blocks β} {p n q : Nat} {bs bs' : List β} (hq : q ≠ 0) (hp : S p = some bs)
      (hroom : Room (remove S p) q n) (hlen : bs'.length = n)
      (hkeep : bs'.take bs.length = bs.take n) :
      Allowed z S (.resize p n q) (place (remove S p) q bs')
  | give {S : Blocks β} {p : Nat} {bs : List β} (hp : S p = some bs) :
    Allowed z S (.give p) (remove S p)
  | edit {S S' : Blocks β} {ps : List Nat}
      (hlen : ∀ p, (S' p).map List.length = (S p).map List.length)
      (hsame : ∀ p, p ∉ ps → S' p = S p) : Allowed z S (.edit ps) S'
  | skip {S : Blocks β} : Allowed z S .skip S

variable {z : β} {S S' : Blocks β} {p q n : Nat} {bs : List β}

@[simp] theorem place_same (S : Blocks β) (p : Nat) (bs : List β) : place S p bs p = some bs :=
  if_pos rfl

theorem place_ne (S : Blocks β) (bs : List β) (h : q ≠ p) : place S p bs q = S q := if_neg h

@[simp] theorem remove_same (S : Blocks β) (p : Nat) : remove S p p = none := if_pos rfl

theorem remove_ne (S : Blocks β) (h : q ≠ p) : remove S p q = S q := if_neg h

theorem remove_none (h : S p = none) : remove S p = S := by
  funext q
  by_cases hqp : q = p
  · rw [hqp, remove_same, h]
  · rw [remove_ne S hqp]

theorem of_remove (h : remove S p q = some bs) : q ≠ p ∧ S q = some bs := by
  by_cases hqp : q = p
  · rw [hqp, remove_same] at h
    cases h
  · exact ⟨hqp, (remove_ne S hqp).symm.trans h⟩

theorem Room.ne (h : Room S q n) (hp : S p = some bs) : p ≠ q := by
  rintro rfl
  cases h.new.symm.trans hp

/-! ## No overlap -/

/-- Two blocks never overlap, and none is at the null address. -/
structure Apart (S : Blocks β) : Prop where
  null : S 0 = none
  apart : ∀ p q bs bs', p ≠ q → S p = some bs → S q = some bs' →
    p + bs.length ≤ q ∨ q + bs'.length ≤ p

theorem Apart.place (h : Apart S) (hq : q ≠ 0) (hroom : Room S q bs.length) :
    Apart (place S q bs) := by
  refine ⟨by rw [place_ne S bs (Ne.symm hq), h.null], fun p₁ p₂ b₁ b₂ hne h₁ h₂ => ?_⟩
  by_cases e₁ : p₁ = q
  · have e₂ : p₂ ≠ q := fun e₂ => hne (e₁.trans e₂.symm)
    subst e₁
    rw [place_same] at h₁
    rw [place_ne S bs e₂] at h₂
    cases h₁
    exact hroom.apart p₂ b₂ h₂
  · rw [place_ne S bs e₁] at h₁
    by_cases e₂ : p₂ = q
    · subst e₂
      rw [place_same] at h₂
      cases h₂
      exact (hroom.apart p₁ b₁ h₁).symm
    · rw [place_ne S bs e₂] at h₂
      exact h.apart p₁ p₂ b₁ b₂ hne h₁ h₂

theorem Apart.remove (h : Apart S) (p : Nat) : Apart (remove S p) := by
  refine ⟨?_, fun p₁ p₂ b₁ b₂ hne h₁ h₂ => h.apart p₁ p₂ b₁ b₂ hne (of_remove h₁).2
    (of_remove h₂).2⟩
  by_cases h0 : 0 = p
  · rw [h0, remove_same]
  · rw [remove_ne S h0, h.null]

/-- **Step lemma**. -/
theorem Apart.step {a : Label} (h : Apart S) (hs : Allowed z S a S') : Apart S' := by
  cases hs with
  | refuse | stay | skip => exact h
  | get hq _ hroom hlen => exact h.place hq (hlen ▸ hroom)
  | resize hq _ hroom hlen => exact (h.remove _).place hq (hlen ▸ hroom)
  | give => exact h.remove _
  | edit hlen =>
    -- the blocks are where they were and as long as they were
    have hback : ∀ {p bs'}, S' p = some bs' → ∃ bs, S p = some bs ∧ bs.length = bs'.length := by
      intro p bs' hp
      have := hlen p
      rw [hp] at this
      obtain ⟨bs, hbs, hl⟩ := Option.map_eq_some_iff.mp this.symm
      exact ⟨bs, hbs, hl⟩
    refine ⟨?_, fun p₁ p₂ b₁ b₂ hne h₁ h₂ => ?_⟩
    · cases h0 : S' 0 with
      | none => rfl
      | some bs' =>
        obtain ⟨bs, hbs, -⟩ := hback h0
        cases h.null.symm.trans hbs
    · obtain ⟨c₁, hc₁, e₁⟩ := hback h₁
      obtain ⟨c₂, hc₂, e₂⟩ := hback h₂
      rw [← e₁, ← e₂]
      exact h.apart p₁ p₂ c₁ c₂ hne hc₁ hc₂

/-- **Run lemma**: from no blocks at all. -/
theorem run_apart {tr : List Label} (h : Run (Allowed z) (fun _ => none) tr S) : Apart S :=
  h.invariant (P := fun _ => True) ⟨rfl, fun _ _ _ _ _ h₁ => absurd h₁ (by simp)⟩
    (fun _ _ => trivial) fun _ _ _ hS _ hs => hS.step hs

/-! ## Contents -/

/-- The label is not about the block at `p`. -/
def Label.Spares (p : Nat) : Label → Prop
  | .resize q _ _ | .give q => q ≠ p
  | .edit ps => p ∉ ps
  | .get .. | .skip => True

instance (p : Nat) : (a : Label) → Decidable (a.Spares p)
  | .resize .. | .give .. => inferInstanceAs (Decidable (_ ≠ _))
  | .edit _ => inferInstanceAs (Decidable (_ ∉ _))
  | .get .. | .skip => inferInstanceAs (Decidable True)

/-- **Step lemma**. -/
theorem Allowed.kept {a : Label} (hs : Allowed z S a S') (ha : a.Spares p) (hp : S p = some bs) :
    S' p = some bs := by
  cases hs with
  | refuse | stay | skip => exact hp
  | get _ _ hroom => exact (place_ne S _ (hroom.ne hp)).trans hp
  | resize _ _ hroom =>
    have hdrop := (remove_ne S (Ne.symm ha)).trans hp
    exact (place_ne _ _ (hroom.ne hdrop)).trans hdrop
  | give =>
    rw [remove_ne S (Ne.symm ha)]
    exact hp
  | edit _ hsame => exact (hsame p ha).trans hp

/-- **Run lemma**: a block that is left alone is what it was. -/
theorem run_kept {tr : List Label} (h : Run (Allowed z) S tr S') (htr : ∀ a ∈ tr, a.Spares p)
    (hp : S p = some bs) : S' p = some bs :=
  h.invariant (I := fun S => S p = some bs) hp htr fun _ _ _ hS ha hs => hs.kept ha hS

end Lib.Store

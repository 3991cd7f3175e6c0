import Mathlib.Data.Nat.Basic

/-!
# Postconditions of computations that can stop

`Ensures bad r Q`: if `r` returns, its result satisfies `Q`; if it stops, it
stops for a reason in `bad`. The rule for `bind` is that of sequential
composition.
-/

namespace Lib.Post

variable {ε α β : Type} {bad : ε → Prop}

/-- `r` returns a result in `Q` or stops with an error in `bad`. -/
def Ensures (bad : ε → Prop) (r : Except ε α) (Q : α → Prop) : Prop :=
  match r with
  | .ok a => Q a
  | .error e => bad e

@[simp] theorem ensures_ok {a : α} {Q : α → Prop} : Ensures bad (.ok a) Q ↔ Q a := Iff.rfl

@[simp] theorem ensures_pure {a : α} {Q : α → Prop} :
    Ensures bad (pure a : Except ε α) Q ↔ Q a := Iff.rfl

@[simp] theorem ensures_error {e : ε} {Q : α → Prop} :
    Ensures bad (.error e : Except ε α) Q ↔ bad e := Iff.rfl

theorem ensures_bind {r : Except ε α} {f : α → Except ε β} {P : α → Prop} {Q : β → Prop}
    (hr : Ensures bad r P) (hf : ∀ a, P a → Ensures bad (f a) Q) : Ensures bad (r >>= f) Q := by
  cases r with
  | error e => exact hr
  | ok a => exact hf a hr

theorem ensures_mono {r : Except ε α} {P Q : α → Prop} (hr : Ensures bad r P)
    (h : ∀ a, P a → Q a) : Ensures bad r Q := by
  cases r with
  | error e => exact hr
  | ok a => exact h a hr

theorem ensures_bad {bad' : ε → Prop} {r : Except ε α} {Q : α → Prop} (hr : Ensures bad r Q)
    (h : ∀ e, bad e → bad' e) : Ensures bad' r Q := by
  cases r with
  | error e => exact h e hr
  | ok a => exact hr

theorem ensures_and {r : Except ε α} {P Q : α → Prop} (hP : Ensures bad r P)
    (hQ : Ensures (fun _ => True) r Q) : Ensures bad r fun a => P a ∧ Q a := by
  cases r with
  | error e => exact hP
  | ok a => exact ⟨hP, hQ⟩

theorem ensures_elim {r : Except ε α} {Q : α → Prop} {a : α} (hr : Ensures bad r Q)
    (h : r = .ok a) : Q a := by
  rw [h] at hr
  exact hr

/-- A sequence that returns: both of its parts do. -/
theorem bind_eq_ok {r : Except ε α} {f : α → Except ε β} {b : β} (h : r >>= f = .ok b) :
    ∃ a, r = .ok a ∧ f a = .ok b := by
  cases r with
  | error e => exact absurd h (by simp [bind, Except.bind])
  | ok a => exact ⟨a, rfl, h⟩

/-- Every element of a list that was mapped without an error has its result among the results. -/
theorem exists_mem_of_mapM {f : α → Except ε β} {l : List α} {r : List β} {x : α}
    (h : l.mapM f = .ok r) (hx : x ∈ l) : ∃ y ∈ r, f x = .ok y := by
  induction l generalizing r with
  | nil => exact absurd hx List.not_mem_nil
  | cons a l ih =>
    rw [List.mapM_cons] at h
    obtain ⟨b, hb, h⟩ := bind_eq_ok h
    obtain ⟨bs, hbs, h⟩ := bind_eq_ok h
    obtain rfl : b :: bs = r := Except.ok.inj h
    rcases List.mem_cons.mp hx with rfl | hx
    · exact ⟨b, List.mem_cons_self .., hb⟩
    · obtain ⟨y, hy, hfy⟩ := ih hbs hx
      exact ⟨y, List.mem_cons_of_mem _ hy, hfy⟩

/-- And every result is the result of an element. -/
theorem exists_of_mem_mapM {f : α → Except ε β} {l : List α} {r : List β} {y : β}
    (h : l.mapM f = .ok r) (hy : y ∈ r) : ∃ x ∈ l, f x = .ok y := by
  induction l generalizing r with
  | nil =>
    obtain rfl : [] = r := Except.ok.inj h
    exact absurd hy List.not_mem_nil
  | cons a l ih =>
    rw [List.mapM_cons] at h
    obtain ⟨b, hb, h⟩ := bind_eq_ok h
    obtain ⟨bs, hbs, h⟩ := bind_eq_ok h
    obtain rfl : b :: bs = r := Except.ok.inj h
    rcases List.mem_cons.mp hy with rfl | hy
    · exact ⟨a, List.mem_cons_self .., hb⟩
    · obtain ⟨x, hx, hfx⟩ := ih hbs hy
      exact ⟨x, List.mem_cons_of_mem _ hx, hfx⟩

/-- The computation returns and its result passes the test. -/
def passes (r : Except ε α) (test : α → Bool) : Bool :=
  match r with
  | .ok a => test a
  | .error _ => false

theorem exists_of_passes (r : Except ε α) (test : α → Bool) (h : passes r test = true) :
    ∃ a, r = .ok a ∧ test a = true := by
  cases r with
  | error e => exact absurd h (by simp [passes])
  | ok a => exact ⟨a, rfl, h⟩

end Lib.Post

import CustomMalloc.Inv.Paths
import CustomMalloc.Inv.SlabFrame

/-!
# Threads and the pages they own

Thread ids are handed out in order, so as long as `thread_id_counter` has not reached
`UINT32_MAX` the ids of the threads are distinct and no id is `UINT32_MAX`, which marks
an unowned page (`Ids`). Then a page that is owned by the id of a thread is one that this
very thread claimed, and it belongs to the thread's arena (`Homes`).
-/

namespace CustomMalloc

open Lib.Words Lib.Bytes Lib.Chain Lib.Intervals Lib.Post

variable {c : Cfg} {s s' : State} {G G' : Ghost} {t : Nat}

/-! ## Thread ids -/

/-- What a call of thread `t` does to the threads: it keeps its id, or gets the next. -/
structure ThreadsFrom (t : Nat) (s s' : State) : Prop where
  others : OthersKept t s s'
  had : ∀ x, s.tls t = some x → ∃ y, s'.tls t = some y ∧ y.threadId = x.threadId ∧
    s'.threadIdCounter = s.threadIdCounter
  new : s.tls t = none → (s'.tls t = none ∧ s'.threadIdCounter = s.threadIdCounter) ∨
    ∃ y, s'.tls t = some y ∧ y.threadId = s.threadIdCounter ∧
      s'.threadIdCounter = (s.threadIdCounter + 1) % 2 ^ 32

theorem ThreadsFrom.of_eq (h : SameThreads s s') : ThreadsFrom t s s' := by
  constructor
  · intro t' _
    rw [h.tls]
  · intro x hx
    exact ⟨x, by rw [h.tls]; exact hx, rfl, h.counter⟩
  · intro hn
    exact Or.inl ⟨by rw [h.tls]; exact hn, h.counter⟩

theorem ThreadsFrom.trans {s₁ s₂ s₃ : State} (h : ThreadsFrom t s₁ s₂) (h' : ThreadsFrom t s₂ s₃) :
    ThreadsFrom t s₁ s₃ := by
  constructor
  · intro t' ht
    exact (h'.others t' ht).trans (h.others t' ht)
  · intro x hx
    obtain ⟨y, hy, hid, hc⟩ := h.had x hx
    obtain ⟨z, hz, hid', hc'⟩ := h'.had y hy
    exact ⟨z, hz, hid'.trans hid, hc'.trans hc⟩
  · intro hn
    rcases h.new hn with ⟨hn₂, hc⟩ | ⟨y, hy, hid, hc⟩
    · rw [← hc]
      exact h'.new hn₂
    · obtain ⟨z, hz, hid', hc'⟩ := h'.had y hy
      exact Or.inr ⟨z, hz, hid'.trans hid, hc'.trans hc⟩

theorem threadsFrom_closed (t : Nat) : SlabClosed t (ThreadsFrom t) where
  refl := fun _ => .of_eq ⟨rfl, rfl⟩
  trans := ThreadsFrom.trans
  os := fun hos => .of_eq hos.sameThreads
  mem := fun _ _ => .of_eq ⟨rfl, rfl⟩
  arenaNext := fun _ _ => .of_eq ⟨rfl, rfl⟩
  setArena := fun _ _ _ => .of_eq ⟨rfl, rfl⟩
  segs := fun _ _ => .of_eq ⟨rfl, rfl⟩
  newTld := fun s a hn =>
    ⟨fun _ ht => upd_ne ht, fun x hx => absurd (hn.symm.trans hx) (by simp),
      fun _ => Or.inr ⟨_, upd_same .., rfl, rfl⟩⟩
  setTld := fun s x y hx hid =>
    ⟨fun _ ht => upd_ne ht, fun z hz => by
      cases hx.symm.trans hz
      exact ⟨y, upd_same .., hid, rfl⟩,
      fun hn => absurd (hn.symm.trans hx) (by simp)⟩
  setPage := fun _ _ _ _ _ => .of_eq ⟨rfl, rfl⟩
  initPage := fun _ _ _ _ _ => .of_eq ⟨rfl, rfl⟩
  claim := fun _ _ _ _ _ => .of_eq ⟨rfl, rfl⟩
  newSegment := fun _ _ _ _ => .of_eq ⟨rfl, rfl⟩

/-- Thread ids are distinct, and none is the mark of an unowned page. -/
structure Ids (s : State) : Prop where
  counter : s.threadIdCounter ≤ noOwner
  lt : ∀ t x, s.tls t = some x → x.threadId < s.threadIdCounter
  distinct : ∀ t t' x x', s.tls t = some x → s.tls t' = some x' → x.threadId = x'.threadId → t = t'

/-- There is an id left for thread `t`, if it needs one. -/
def HasId (s : State) (t : Nat) : Prop := s.tls t = none → s.threadIdCounter < noOwner

theorem HasId.succ (h : HasId s t) (hn : s.tls t = none) :
    (s.threadIdCounter + 1) % 2 ^ 32 = s.threadIdCounter + 1 := by
  have := h hn
  unfold noOwner at this
  exact Nat.mod_eq_of_lt (by omega)

/-- The data of thread `t` after a step: its old id, or the counter's value. -/
theorem ThreadsFrom.mine (h : ThreadsFrom t s s') {y : Tld} (hy : s'.tls t = some y) :
    (∃ x, s.tls t = some x ∧ y.threadId = x.threadId ∧ s'.threadIdCounter = s.threadIdCounter) ∨
      (s.tls t = none ∧ y.threadId = s.threadIdCounter ∧
        s'.threadIdCounter = (s.threadIdCounter + 1) % 2 ^ 32) := by
  cases hx : s.tls t with
  | some x =>
    obtain ⟨z, hz, hid, hc⟩ := h.had x hx
    cases hz.symm.trans hy
    exact Or.inl ⟨x, rfl, hid, hc⟩
  | none =>
    rcases h.new hx with ⟨hn, -⟩ | ⟨z, hz, hid, hc⟩
    · cases hn.symm.trans hy
    · cases hz.symm.trans hy
      exact Or.inr ⟨rfl, hid, hc⟩

theorem ThreadsFrom.counter_ge (h : ThreadsFrom t s s') (hid : HasId s t) :
    s.threadIdCounter ≤ s'.threadIdCounter := by
  cases hx : s.tls t with
  | some x =>
    obtain ⟨-, -, -, hc⟩ := h.had x hx
    omega
  | none =>
    rcases h.new hx with ⟨-, hc⟩ | ⟨-, -, -, hc⟩
    · omega
    · rw [hid.succ hx] at hc
      omega

theorem Ids.step (h : Ids s) (hid : HasId s t) (hth : ThreadsFrom t s s') : Ids s' := by
  have hge := hth.counter_ge hid
  -- every thread has its old id, or the one after all of them
  have hold : ∀ t' y, s'.tls t' = some y → y.threadId < s.threadIdCounter ∧
      (∃ x, s.tls t' = some x ∧ x.threadId = y.threadId) ∨
      t' = t ∧ y.threadId = s.threadIdCounter ∧ s'.threadIdCounter = s.threadIdCounter + 1 := by
    intro t' y hy
    by_cases htt : t' = t
    · subst htt
      rcases hth.mine hy with ⟨x, hx, hxy, -⟩ | ⟨hn, hxy, hc⟩
      · exact Or.inl ⟨hxy ▸ h.lt _ x hx, x, hx, hxy.symm⟩
      · exact Or.inr ⟨rfl, hxy, hc.trans (hid.succ hn)⟩
    · rw [hth.others t' htt] at hy
      exact Or.inl ⟨h.lt t' y hy, y, hy, rfl⟩
  constructor
  · cases hx : s.tls t with
    | some x =>
      obtain ⟨-, -, -, hc⟩ := hth.had x hx
      exact hc ▸ h.counter
    | none =>
      have hlt := hid hx
      rcases hth.new hx with ⟨-, hc⟩ | ⟨-, -, -, hc⟩
      · omega
      · rw [hid.succ hx] at hc
        omega
  · intro t' y hy
    rcases hold t' y hy with ⟨hlt, -⟩ | ⟨-, heq, hc⟩
    · omega
    · omega
  · intro t₁ t₂ y₁ y₂ hy₁ hy₂ heq
    rcases hold t₁ y₁ hy₁ with ⟨hlt, x₁, hx₁, hid₁⟩ | ⟨rfl, hid₁, -⟩
    · rcases hold t₂ y₂ hy₂ with ⟨-, x₂, hx₂, hid₂⟩ | ⟨rfl, hid₂, -⟩
      · exact h.distinct t₁ t₂ x₁ x₂ hx₁ hx₂ (hid₁.trans (heq.trans hid₂.symm))
      · omega
    · rcases hold t₂ y₂ hy₂ with ⟨hlt, -⟩ | ⟨rfl, -⟩
      · omega
      · rfl

/-! ## Owned pages -/

/-- `r` is a page in use. -/
def Active (s : State) (r : PageRef) : Prop := IsData s.segs r ∧ (s.pages r).state = .active

/-- A step on one page sets up no page. -/
theorem OnPage.active {r q : PageRef} (h : OnPage s t r s') (hact : Active s' q) : Active s q := by
  unfold Active at hact
  rwa [h.segs, (h.kept q).state] at hact

/-- A page that a thread owns belongs to the thread's arena, and threads cache pages
they own. -/
structure Homes (s : State) : Prop where
  arena_lt : ∀ t x a, s.tls t = some x → x.arena = some a → a < numArenas
  page_lt : ∀ r, Active s r → (s.pages r).arena < numArenas
  cached : ∀ t x b r, s.tls t = some x → x.binPage b = some r → (s.pages r).ownerTid = x.threadId
  owner : ∀ r, Active s r →
    (s.pages r).ownerTid = noOwner ∨ (s.pages r).ownerTid < s.threadIdCounter
  home : ∀ t x r, s.tls t = some x → Active s r → (s.pages r).ownerTid = x.threadId →
    x.arena = some (s.pages r).arena

/-- A page in use is one that was, with its owner and its arena, or an unowned one, or
one that thread `t` claimed. -/
def PageFrom (t : Nat) (s s' : State) (r : PageRef) : Prop :=
  (Active s r ∧ (s'.pages r).arena = (s.pages r).arena ∧
    (s'.pages r).ownerTid = (s.pages r).ownerTid) ∨
  ((s'.pages r).arena < numArenas ∧ ((s'.pages r).ownerTid = noOwner ∨
    ∃ y, s'.tls t = some y ∧ (s'.pages r).ownerTid = y.threadId ∧
      y.arena = some (s'.pages r).arena))

/-- What a step does to the data of thread `t` itself: an arena is never given up, and
pages in the cache are the thread's own. -/
structure MineFrom (t : Nat) (s s' : State) (y : Tld) : Prop where
  arena : ∀ x a, s.tls t = some x → x.arena = some a → y.arena = some a
  arena_lt : ∀ a, y.arena = some a → a < numArenas
  cached : ∀ b r, y.binPage b = some r → (s'.pages r).ownerTid = y.threadId

theorem Homes.step (h : Homes s) (hi : Ids s) (hid : HasId s t) (hth : ThreadsFrom t s s')
    (hmine : ∀ y, s'.tls t = some y → MineFrom t s s' y)
    (hpages : ∀ r, Active s' r → PageFrom t s s' r)
    (hkept : ∀ t' x b r, t' ≠ t → s.tls t' = some x → x.binPage b = some r →
      (s'.pages r).ownerTid = (s.pages r).ownerTid) : Homes s' := by
  have hi' := hi.step hid hth
  have hge := hth.counter_ge hid
  constructor
  · intro t' y a hy ha
    by_cases htt : t' = t
    · exact (hmine y (htt ▸ hy)).arena_lt a ha
    · rw [hth.others t' htt] at hy
      exact h.arena_lt t' y a hy ha
  · intro r hact
    rcases hpages r hact with ⟨hr, ha, -⟩ | ⟨ha, -⟩
    · exact ha ▸ h.page_lt r hr
    · exact ha
  · intro t' y b r hy hr
    by_cases htt : t' = t
    · exact (hmine y (htt ▸ hy)).cached b r hr
    · rw [hth.others t' htt] at hy
      exact (hkept t' y b r htt hy hr).trans (h.cached t' y b r hy hr)
  · intro r hact
    rcases hpages r hact with ⟨hr, -, ho⟩ | ⟨-, ho | ⟨y, hy, ho, -⟩⟩
    · rw [ho]
      rcases h.owner r hr with hno | hlt
      · exact Or.inl hno
      · exact Or.inr (by omega)
    · exact Or.inl ho
    · exact Or.inr (ho ▸ hi'.lt t y hy)
  · intro t' y r hy hact hown
    rcases hpages r hact with ⟨hr, ha, ho⟩ | ⟨-, ho | ⟨z, hz, ho, ha⟩⟩
    · -- an old page: its owner is an old thread
      rw [ha]
      rw [ho] at hown
      by_cases htt : t' = t
      · subst htt
        rcases hth.mine hy with ⟨x, hx, hxy, -⟩ | ⟨hn, hxy, -⟩
        · exact (hmine y hy).arena x _ hx (h.home _ x r hx hr (hown.trans hxy))
        · have := hid hn
          rcases h.owner r hr with hno | hlt
          · omega
          · omega
      · rw [hth.others t' htt] at hy
        exact h.home t' y r hy hr hown
    · have h₁ := hi'.lt t' y hy
      have h₂ := hi'.counter
      omega
    · have htt := hi'.distinct t' t y z hy hz (hown.symm.trans ho)
      subst htt
      cases hy.symm.trans hz
      exact ha

/-- A step that changes no page. -/
theorem Homes.still (h : Homes s) (hi : Ids s) (hid : HasId s t) (hth : ThreadsFrom t s s')
    (hsame : SameMeta s s') (hmine : ∀ y, s'.tls t = some y → MineFrom t s s' y) : Homes s' := by
  refine h.step hi hid hth hmine (fun r hact => Or.inl ?_) fun t' x b r _ _ _ => ?_
  · unfold Active at hact ⊢
    rw [hsame.segs, hsame.pages] at hact
    rw [hsame.pages]
    exact ⟨hact, rfl, rfl⟩
  · rw [hsame.pages]

/-- A step on one page that keeps its shape and its owner. -/
theorem Homes.onPage (h : Homes s) (hi : Ids s) (hid : HasId s t) (hth : ThreadsFrom t s s')
    {r : PageRef} (hon : OnPage s t r s') (hmine : ∀ y, s'.tls t = some y → MineFrom t s s' y) :
    Homes s' :=
  h.step hi hid hth hmine
    (fun q hact => Or.inl ⟨hon.active hact, (hon.kept q).arena, (hon.kept q).ownerTid⟩)
    fun _ _ _ q _ _ _ => (hon.kept q).ownerTid

end CustomMalloc

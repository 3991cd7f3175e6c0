import CustomMalloc.Props.RegistrySet
import CustomMalloc.Lib.Interleave

/-!
# Registration without a lock

Threads of different arenas register their segments at the same time, and lookups run
against them. Every compare-and-swap of `segment_register` and every load of
`segment_is_registered` is one step; what happens in between is whatever the other
threads do. Nothing is unregistered.

The table only grows, so a slot that was taken when a thread looked at it stays
taken by the same base. This gives the invariant `Races`: a thread that is still
probing for its base has only taken slots behind it, hence a base is stored with no
gap before it, and a lookup that comes later cannot stop short of it.
-/

namespace CustomMalloc

open Lib.Interleave

/-- What a thread is doing: it is about to try slot `i` of its probe path. A lookup
remembers whether the registration of its base was complete when it started. -/
inductive RegPc where
  | idle
  | registering (base i : Nat)
  | probing (base i : Nat) (late : Bool)
  deriving DecidableEq, Repr

/-- The result of a lookup. -/
structure RegAnswer where
  base : Nat
  late : Bool
  result : Bool
  deriving DecidableEq, Repr

/-- The table, the threads and what happened so far. -/
structure RegSys where
  reg : Nat → Nat := fun _ => 0
  threads : Nat → RegPc := fun _ => .idle
  /-- the bases `segment_register` was called with -/
  started : List Nat := []
  /-- the bases for which it returned -/
  done : List Nat := []
  answers : List RegAnswer := []

/-- A thread starts a call, or takes the next step of its call. -/
inductive RegAct where
  | register (t base : Nat)
  | lookup (t base : Nat)
  | advance (t : Nat)
  deriving DecidableEq, Repr

/-- `slot = (idx + i) & (SEGMENT_REGISTRY_SIZE - 1)`. -/
def probeAt (base i : Nat) : Nat := (segHash base + i) % segmentRegistrySize

/-- The thread `t` goes on at `pc`. -/
def RegSys.goto (σ : RegSys) (t : Nat) (pc : RegPc) : RegSys :=
  { σ with threads := upd σ.threads t pc }

/-- `segment_register` of `t` returns. -/
def RegSys.finish (σ : RegSys) (t base : Nat) : RegSys :=
  { σ.goto t .idle with done := base :: σ.done }

/-- `segment_is_registered` of `t` returns. -/
def RegSys.answer (σ : RegSys) (t base : Nat) (late result : Bool) : RegSys :=
  { σ.goto t .idle with answers := ⟨base, late, result⟩ :: σ.answers }

/-- The next step of `t`. -/
def RegSys.advance (σ : RegSys) (t : Nat) : Option RegSys :=
  match σ.threads t with
  | .idle => none
  | .registering base i =>
    if i < segmentRegistrySize then
      if σ.reg (probeAt base i) = 0 then
        some ({ σ with reg := upd σ.reg (probeAt base i) base }.finish t base)
      else if σ.reg (probeAt base i) = base then some (σ.finish t base)
      else some (σ.goto t (.registering base (i + 1)))
    else some (σ.finish t base)
  | .probing base i late =>
    if i < segmentRegistrySize then
      if σ.reg (probeAt base i) = base then some (σ.answer t base late true)
      else if σ.reg (probeAt base i) = 0 then some (σ.answer t base late false)
      else some (σ.goto t (.probing base (i + 1) late))
    else some (σ.answer t base late false)

/-- One step. At most 256 different bases are registered, each once. -/
def regAct (σ : RegSys) : RegAct → Option RegSys
  | .register t base =>
    if σ.threads t = .idle ∧ base ≠ 0 ∧ base ∉ σ.started ∧ σ.started.length < 256 then
      some { σ.goto t (.registering base 0) with started := base :: σ.started }
    else none
  | .lookup t base =>
    if σ.threads t = .idle ∧ base ≠ 0 then
      some (σ.goto t (.probing base 0 (decide (base ∈ σ.done))))
    else none
  | .advance t => σ.advance t

/-- The states of all interleavings. -/
def RegReachable (σ : RegSys) : Prop := Reaches regAct (fun _ _ => True) {} σ

/-! ## The invariant -/

variable {σ σ' : RegSys} {reg reg' : Nat → Nat} {started done : List Nat} {t b i : Nat}

/-- The base is on its probe path, with no gap before it. -/
def Stored (reg : Nat → Nat) (b : Nat) : Prop :=
  ∃ i < 256, reg (probeAt b i) = b ∧ ∀ d < i, reg (probeAt b d) ≠ 0

/-- The table holds bases that were started, each once, and all that are done. -/
structure TableOk (reg : Nat → Nat) (started done : List Nat) : Prop where
  nodup : started.Nodup
  few : started.length ≤ 256
  nonzero : ∀ b ∈ started, b ≠ 0
  slot : ∀ i, reg i ≠ 0 → i < 256 ∧ reg i ∈ started
  inj : ∀ i j, reg i ≠ 0 → reg i = reg j → i = j
  stored : ∀ b ∈ done, b ∈ started ∧ Stored reg b

/-- A thread that registers has only taken slots behind it, and its base is nowhere yet.
A lookup that came late has not passed its base. -/
def ThreadOk (reg : Nat → Nat) (started done : List Nat) : RegPc → Prop
  | .idle => True
  | .registering b i => b ∈ started ∧ (∀ j, reg j ≠ b) ∧ ∀ d < i, reg (probeAt b d) ≠ 0
  | .probing b i late => b ≠ 0 ∧ (late = true → b ∈ done ∧ ∀ d < i, reg (probeAt b d) ≠ b)

/-- A late lookup succeeds, and a lookup only succeeds for a base that was started. -/
def AnswerOk (started : List Nat) (a : RegAnswer) : Prop :=
  (a.late = true → a.result = true) ∧ (a.result = true → a.base ∈ started)

/-- What holds in every state of every interleaving. -/
structure Races (σ : RegSys) : Prop where
  table : TableOk σ.reg σ.started σ.done
  threads : ∀ t, ThreadOk σ.reg σ.started σ.done (σ.threads t)
  unique : ∀ t t' b i i', σ.threads t = .registering b i → σ.threads t' = .registering b i' → t = t'
  answers : ∀ a ∈ σ.answers, AnswerOk σ.started a

theorem probeAt_lt (b i : Nat) : probeAt b i < 256 := Nat.mod_lt _ (by decide)

/-- The probe path visits every slot. -/
theorem probeAt_surj (b : Nat) {j : Nat} (hj : j < 256) : ∃ i < 256, probeAt b i = j := by
  refine ⟨(j + 256 - segHash b % 256) % 256, Nat.mod_lt _ (by decide), ?_⟩
  simp only [probeAt, segmentRegistrySize]
  omega

/-- The bases in a table with no free slot are 256 many. -/
theorem TableOk.full (h : TableOk reg started done) (hfull : ∀ j < 256, reg j ≠ 0)
    (hb : b ∈ started) (hout : ∀ j, reg j ≠ b) : False := by
  have hsub : (List.range 256).map reg ⊆ started.erase b := by
    intro x hx
    obtain ⟨j, hj, rfl⟩ := List.mem_map.mp hx
    exact (h.nodup.mem_erase_iff).mpr ⟨hout j, (h.slot j (hfull j (List.mem_range.mp hj))).2⟩
  have hnd : ((List.range 256).map reg).Nodup := by
    refine List.Nodup.map_on ?_ List.nodup_range
    intro j hj j' _ hjj
    exact h.inj j j' (hfull j (List.mem_range.mp hj)) hjj
  have hle := (hnd.subperm hsub).length_le
  have hfew := h.few
  rw [List.length_map, List.length_range, List.length_erase_of_mem hb] at hle
  have := List.length_pos_of_mem hb
  omega

/-! ## Steps -/

/-- More bases were started. -/
theorem TableOk.start (h : TableOk reg started done) (hb : b ≠ 0) (hnew : b ∉ started)
    (hroom : started.length < 256) : TableOk reg (b :: started) done := by
  refine ⟨List.nodup_cons.mpr ⟨hnew, h.nodup⟩, hroom, ?_, ?_, h.inj, ?_⟩
  · intro x hx
    rcases List.mem_cons.mp hx with rfl | hx
    · exact hb
    · exact h.nonzero x hx
  · intro j hj
    exact ⟨(h.slot j hj).1, List.mem_cons_of_mem _ (h.slot j hj).2⟩
  · intro x hx
    exact ⟨List.mem_cons_of_mem _ (h.stored x hx).1, (h.stored x hx).2⟩

theorem ThreadOk.start {pc : RegPc} (h : ThreadOk reg started done pc) :
    ThreadOk reg (b :: started) done pc := by
  cases pc with
  | idle => trivial
  | registering k i => exact ⟨List.mem_cons_of_mem _ h.1, h.2⟩
  | probing k i late => exact h

/-- Storing `b` in a free slot keeps the taken slots. -/
theorem upd_keeps {j j' : Nat} (hfree : reg j = 0) (h : reg j' ≠ 0) : upd reg j b j' = reg j' := by
  refine upd_ne fun hj => h ?_
  rw [hj, hfree]

theorem Stored.store {k j : Nat} (h : Stored reg k) (hk : k ≠ 0) (hfree : reg j = 0) :
    Stored (upd reg j b) k := by
  obtain ⟨i, hi, hik, hgap⟩ := h
  refine ⟨i, hi, ?_, fun d hd => ?_⟩
  · rw [upd_keeps hfree (by rw [hik]; exact hk), hik]
  · rw [upd_keeps hfree (hgap d hd)]
    exact hgap d hd

/-- A thread stores its base in the free slot it found. -/
theorem TableOk.store (h : TableOk reg started done) (hi : i < 256)
    (ht : ThreadOk reg started done (.registering b i)) (hfree : reg (probeAt b i) = 0) :
    TableOk (upd reg (probeAt b i) b) started (b :: done) := by
  obtain ⟨hb, hout, hbehind⟩ := ht
  have hval : ∀ j, upd reg (probeAt b i) b j = if j = probeAt b i then b else reg j := fun _ => rfl
  refine ⟨h.nodup, h.few, h.nonzero, fun j hj => ?_, fun j j' hj hjj => ?_, fun k hk => ?_⟩
  · rw [hval] at hj ⊢
    split at hj
    next he =>
      rw [if_pos he, he]
      exact ⟨probeAt_lt b i, hb⟩
    next he =>
      rw [if_neg he]
      exact h.slot j hj
  · rw [hval] at hj
    rw [hval, hval] at hjj
    split at hjj
    next he =>
      split at hjj
      next he' => exact he.trans he'.symm
      next => exact absurd hjj.symm (hout j')
    next he =>
      rw [if_neg he] at hj
      split at hjj
      next => exact absurd hjj (hout j)
      next => exact h.inj j j' hj hjj
  · rcases List.mem_cons.mp hk with rfl | hk
    · refine ⟨hb, i, hi, upd_same .., fun d hd => ?_⟩
      rw [upd_keeps hfree (hbehind d hd)]
      exact hbehind d hd
    · obtain ⟨hs, hst⟩ := h.stored k hk
      exact ⟨hs, hst.store (h.nonzero k hs) hfree⟩

/-- The other threads after `b` was stored. -/
theorem ThreadOk.store {pc : RegPc} (h : ThreadOk reg started done pc) {j : Nat}
    (htab : TableOk reg started done) (hfree : reg j = 0) (hout : ∀ j, reg j ≠ b)
    (hother : ∀ i, pc ≠ .registering b i) : ThreadOk (upd reg j b) started (b :: done) pc := by
  cases pc with
  | idle => trivial
  | registering k i =>
    obtain ⟨hk, hkout, hbehind⟩ := h
    refine ⟨hk, fun j' hj' => ?_, fun d hd => ?_⟩
    · by_cases hjj : j' = j
      · rw [hjj, upd_same] at hj'
        exact hother i (by rw [hj'])
      · rw [upd_ne hjj] at hj'
        exact hkout j' hj'
    · rw [upd_keeps hfree (hbehind d hd)]
      exact hbehind d hd
  | probing k i late =>
    refine ⟨h.1, fun hl => ⟨List.mem_cons_of_mem _ (h.2 hl).1, fun d hd hdk => ?_⟩⟩
    obtain ⟨hdone, hpassed⟩ := h.2 hl
    by_cases hjj : probeAt k d = j
    · -- `b` is not in the table, and `k` is
      rw [hjj, upd_same] at hdk
      obtain ⟨-, i', -, hi', -⟩ := htab.stored k hdone
      exact hout _ (hi'.trans hdk.symm)
    · rw [upd_ne hjj] at hdk
      exact hpassed d hd hdk

/-- A lookup of a base that is stored does not miss it. -/
theorem ThreadOk.late_hit {late : Bool} (h : ThreadOk reg started done (.probing b i late))
    (htab : TableOk reg started done) (hl : late = true)
    (hstop : i < 256 → reg (probeAt b i) ≠ b ∧ reg (probeAt b i) = 0) : False := by
  obtain ⟨hdone, hpassed⟩ := h.2 hl
  obtain ⟨-, i', hi', hbi, hgap⟩ := htab.stored b hdone
  rcases Nat.lt_trichotomy i i' with hlt | heq | hgt
  · exact hgap i hlt (hstop (by omega)).2
  · exact (hstop (by omega)).1 (heq ▸ hbi)
  · exact hpassed i' hgt hbi

/-- Thread `t` moves on and the rest stays. -/
theorem Races.goto {pc : RegPc} (h : Races σ) (hpc : ThreadOk σ.reg σ.started σ.done pc)
    (hsame : ∀ b i, pc = .registering b i → ∃ i', σ.threads t = .registering b i') :
    Races (σ.goto t pc) := by
  have hother : ∀ t' b i, upd σ.threads t pc t' = .registering b i →
      ∃ i', σ.threads t' = .registering b i' := by
    intro t' b i ht'
    by_cases htt : t' = t
    · rw [htt, upd_same] at ht'
      rw [htt]
      exact hsame b i ht'
    · rw [upd_ne htt] at ht'
      exact ⟨i, ht'⟩
  refine ⟨h.table, fun t' => ?_, fun t₁ t₂ b i₁ i₂ h₁ h₂ => ?_, h.answers⟩
  · show ThreadOk σ.reg σ.started σ.done (upd σ.threads t pc t')
    by_cases htt : t' = t
    · rw [htt, upd_same]
      exact hpc
    · rw [upd_ne htt]
      exact h.threads t'
  · obtain ⟨_, h₁'⟩ := hother t₁ b i₁ h₁
    obtain ⟨_, h₂'⟩ := hother t₂ b i₂ h₂
    exact h.unique t₁ t₂ b _ _ h₁' h₂'

theorem Races.answer (h : Races σ) {late result : Bool}
    (hok : AnswerOk σ.started ⟨b, late, result⟩) : Races (σ.answer t b late result) := by
  have hidle : ThreadOk σ.reg σ.started σ.done .idle := trivial
  have hg := h.goto (t := t) hidle fun _ _ hc => absurd hc (by simp)
  refine ⟨hg.table, hg.threads, hg.unique, fun a ha => ?_⟩
  rcases List.mem_cons.mp ha with rfl | ha
  · exact hok
  · exact h.answers a ha

theorem Races.register (h : Races σ) (hb : b ≠ 0) (hnew : b ∉ σ.started)
    (hroom : σ.started.length < 256) :
    Races { σ.goto t (.registering b 0) with started := b :: σ.started } := by
  have hout : ∀ j, σ.reg j ≠ b := by
    intro j hj
    exact hnew (hj ▸ (h.table.slot j (by rw [hj]; exact hb)).2)
  have hnone : ∀ t' i, σ.threads t' ≠ .registering b i := by
    intro t' i ht'
    have := h.threads t'
    rw [ht'] at this
    exact hnew this.1
  refine ⟨h.table.start hb hnew hroom, fun t' => ?_, fun t₁ t₂ k i₁ i₂ h₁ h₂ => ?_, fun a ha => ?_⟩
  · show ThreadOk σ.reg (b :: σ.started) σ.done (upd σ.threads t (.registering b 0) t')
    by_cases htt : t' = t
    · rw [htt, upd_same]
      exact ⟨List.mem_cons_self .., hout, fun d hd => absurd hd (Nat.not_lt_zero d)⟩
    · rw [upd_ne htt]
      exact (h.threads t').start
  · -- only `t` registers `b`
    have hwho : ∀ t' i, upd σ.threads t (.registering b 0) t' = .registering k i →
        (t' = t ∧ k = b) ∨ σ.threads t' = .registering k i := by
      intro t' i ht'
      by_cases htt : t' = t
      · rw [htt, upd_same] at ht'
        exact Or.inl ⟨htt, (RegPc.registering.inj ht').1.symm⟩
      · exact Or.inr ((upd_ne htt).symm.trans ht')
    rcases hwho t₁ i₁ h₁ with ⟨rfl, rfl⟩ | h₁'
    · rcases hwho t₂ i₂ h₂ with ⟨rfl, -⟩ | h₂'
      · rfl
      · exact absurd h₂' (hnone t₂ i₂)
    · rcases hwho t₂ i₂ h₂ with ⟨rfl, rfl⟩ | h₂'
      · exact absurd h₁' (hnone t₁ i₁)
      · exact h.unique t₁ t₂ k i₁ i₂ h₁' h₂'
  · exact ⟨(h.answers a ha).1, fun hr => List.mem_cons_of_mem _ ((h.answers a ha).2 hr)⟩

theorem Races.store (h : Races σ) (ht : σ.threads t = .registering b i) (hi : i < 256)
    (hfree : σ.reg (probeAt b i) = 0) :
    Races ({ σ with reg := upd σ.reg (probeAt b i) b }.finish t b) := by
  have hpc := h.threads t
  rw [ht] at hpc
  have hwho : ∀ t' k i', upd σ.threads t .idle t' = .registering k i' →
      t' ≠ t ∧ σ.threads t' = .registering k i' := by
    intro t' k i' ht'
    by_cases htt : t' = t
    · rw [htt, upd_same] at ht'
      cases ht'
    · exact ⟨htt, (upd_ne htt).symm.trans ht'⟩
  refine ⟨h.table.store hi hpc hfree, fun t' => ?_, fun t₁ t₂ k i₁ i₂ h₁ h₂ => ?_, h.answers⟩
  · show ThreadOk _ _ _ (upd σ.threads t .idle t')
    by_cases htt : t' = t
    · rw [htt, upd_same]
      trivial
    · rw [upd_ne htt]
      exact (h.threads t').store h.table hfree hpc.2.1 fun i' ht' =>
        htt (h.unique t' t b i' i ht' ht)
  · exact h.unique t₁ t₂ k i₁ i₂ (hwho t₁ k i₁ h₁).2 (hwho t₂ k i₂ h₂).2

/-- One step of one thread. -/
theorem Races.advance (h : Races σ) (he : σ.advance t = some σ') : Races σ' := by
  have hpc := h.threads t
  unfold RegSys.advance at he
  split at he
  next => cases he
  next b i ht =>
    rw [ht] at hpc
    split at he
    next hi =>
      split at he
      next hfree =>
        cases he
        exact h.store ht hi hfree
      next htaken =>
        rw [if_neg (hpc.2.1 _)] at he
        cases he
        refine h.goto ⟨hpc.1, hpc.2.1, fun d hd => ?_⟩ fun k j hk => ⟨i, ?_⟩
        · rcases Nat.lt_or_ge d i with hlt | hge
          · exact hpc.2.2 d hlt
          · obtain rfl : d = i := by omega
            exact htaken
        · rw [ht, (RegPc.registering.inj hk).1]
    next hi =>
      -- 256 taken slots, none of them by `b`: too many bases
      refine (h.table.full (fun j hj => ?_) hpc.1 hpc.2.1).elim
      obtain ⟨d, hd, rfl⟩ := probeAt_surj b hj
      exact hpc.2.2 d (Nat.lt_of_lt_of_le hd (Nat.not_lt.mp hi))
  next b i late ht =>
    rw [ht] at hpc
    split at he
    next hi =>
      split at he
      next hhit =>
        cases he
        refine h.answer ⟨fun _ => rfl, fun _ => ?_⟩
        have := (h.table.slot (probeAt b i) (by rw [hhit]; exact hpc.1)).2
        rwa [hhit] at this
      next hmiss =>
        split at he
        next hfree =>
          cases he
          exact h.answer ⟨fun hl => (hpc.late_hit h.table hl fun _ => ⟨hmiss, hfree⟩).elim,
            fun hr => absurd hr (by simp)⟩
        next =>
          cases he
          refine h.goto ⟨hpc.1, fun hl => ⟨(hpc.2 hl).1, fun d hd => ?_⟩⟩ fun _ _ hc =>
            absurd hc (by simp)
          rcases Nat.lt_or_ge d i with hlt | hge
          · exact (hpc.2 hl).2 d hlt
          · obtain rfl : d = i := by omega
            exact hmiss
    next hi =>
      cases he
      exact h.answer ⟨fun hl => (hpc.late_hit h.table hl fun hi' => absurd hi' hi).elim,
        fun hr => absurd hr (by simp)⟩

theorem Races.step (h : Races σ) {a : RegAct} (he : regAct σ a = some σ') : Races σ' := by
  cases a with
  | register t b =>
    simp only [regAct] at he
    split at he
    next hc =>
      cases he
      exact h.register hc.2.1 hc.2.2.1 hc.2.2.2
    next => cases he
  | lookup t b =>
    simp only [regAct] at he
    split at he
    next hc =>
      cases he
      refine h.goto ⟨hc.2, fun hl => ⟨of_decide_eq_true hl, fun d hd => ?_⟩⟩ fun _ _ hcon => ?_
      · exact absurd hd (Nat.not_lt_zero d)
      · exact absurd hcon (by simp)
    next => exact absurd he (by simp)
  | advance t => exact h.advance he

theorem regReachable_races (h : RegReachable σ) : Races σ := by
  refine h.invariant ?_ fun s a s' hs _ he => hs.step he
  exact ⟨⟨List.nodup_nil, by decide, fun _ hb => absurd hb List.not_mem_nil,
    fun i hi => absurd rfl hi,
    fun i j hi => absurd rfl hi, fun _ hb => absurd hb List.not_mem_nil⟩, fun _ => trivial,
    fun _ _ _ _ _ hc => absurd hc (by simp), fun _ ha => absurd ha List.not_mem_nil⟩

/-! ## Nothing is lost -/

/-- Every completed registration left its base in exactly one slot with no gap before it,
every lookup that started after it succeeded, and a lookup of a base nobody registers
failed. -/
theorem registration_lossless (σ : RegSys) (h : RegReachable σ) :
    (∀ b ∈ σ.done, ∃ i, (i < 256 ∧ σ.reg i = b ∧ ∀ j, σ.reg j = b → j = i) ∧
      ∀ d < probeDist (segHash b) i, σ.reg ((segHash b + d) % 256) ≠ 0) ∧
    (∀ a ∈ σ.answers, a.late = true → a.result = true) ∧
    (∀ a ∈ σ.answers, a.base ∉ σ.started → a.result = false) := by
  have hr := regReachable_races h
  refine ⟨fun b hb => ?_, fun a ha => (hr.answers a ha).1, fun a ha hnot => ?_⟩
  · obtain ⟨hs, i, hi, hib, hgap⟩ := hr.table.stored b hb
    have hb0 := hr.table.nonzero b hs
    refine ⟨probeAt b i, ⟨probeAt_lt b i, hib, fun j hj => ?_⟩, fun d hd => hgap d ?_⟩
    · exact hr.table.inj j _ (by rw [hj]; exact hb0) (hj.trans hib.symm)
    · have hash : segHash b < 256 := Nat.mod_lt _ (by decide)
      simp only [probeDist, probeAt, segmentRegistrySize] at hd
      omega
  · exact Bool.eq_false_iff.mpr fun hres => hnot ((hr.answers a ha).2 hres)

/-- Two threads race for the same slot; the loser takes the next one, and a later lookup
finds it there. -/
def raceForSlot : List RegAct :=
  [.register 0 0x400000, .register 1 0x40400000, .advance 1, .advance 0, .advance 0,
    .lookup 2 0x400000, .advance 2, .advance 2, .lookup 3 0x800000, .advance 3, .advance 3,
    .lookup 4 0xC00000, .advance 4]

theorem registration_lossless_race :
    ∃ σ, replay regAct (fun _ _ => true) {} raceForSlot = some σ ∧
      σ.done = [0x400000, 0x40400000] ∧
      (∃ i, i < 256 ∧ σ.reg i = 0x400000 ∧ ∀ j, σ.reg j = 0x400000 → j = i) ∧
      ∀ a ∈ σ.answers, a.late = true → a.result = true := by
  have hdone : (replay regAct (fun _ _ => true) {} raceForSlot).map RegSys.done =
      some [0x400000, 0x40400000] := by decide +kernel
  obtain ⟨σ, hσ, hdone⟩ := Option.map_eq_some_iff.mp hdone
  have hreach : RegReachable σ := reaches_of_replay (fun _ _ _ => trivial) .init hσ
  obtain ⟨hslots, hlate, -⟩ := registration_lossless σ hreach
  obtain ⟨i, hi, -⟩ := hslots 0x400000 (by rw [hdone]; simp)
  exact ⟨σ, hσ, hdone, ⟨i, hi⟩, hlate⟩

end CustomMalloc

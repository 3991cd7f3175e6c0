import CustomMalloc.Zone
import CustomMalloc.Lib.Interleave

/-!
# The peak under concurrent queries

`zone_statistics` keeps `g_state.peak_in_use` with one load and one compare-and-swap
that is not tried again. Here any number of calls run at the same time, and the load, the
compare-and-swap and the return of a call are steps of their own. What a call has added up,
`bytes_in_use`, is arbitrary: the counters move while it reads them.

The peak never decreases (`SwapsUp.run`). That a call leaves it at least at the size the
call reports is another matter: the compare-and-swap fails when another call moved the peak
since the load, and then the larger value is dropped (`peak_loses_update`). `Undisturbed` is
the exact condition under which one compare-and-swap does its job (`swap_covers_iff`), and in
the runs in which all of them meet it the reported peak never goes backwards.
-/

namespace CustomMalloc

open Lib.Interleave

/-- `size_in_use` and `max_size_in_use`. -/
structure PeakReport where
  sizeInUse : Nat
  maxSizeInUse : Nat
  deriving DecidableEq, Repr

/-- Where a call of `zone_statistics` is, with its `bytes_in_use` and `prev_peak`. -/
inductive PeakPc where
  | load (bytes : Nat)
  | swap (bytes prev : Nat)
  | fill (bytes prev : Nat)
  deriving DecidableEq, Repr

/-- One step of a call; the shared state is `peak_in_use`. A compare-and-swap that fails
stores what it found in `prev_peak`. -/
def peakStep (peak : Nat) : PeakPc → Nat × Next PeakPc PeakReport
  | .load bytes => (peak, .goto (if peak < bytes then .swap bytes peak else .fill bytes peak))
  | .swap bytes prev =>
    if peak = prev then (bytes, .goto (.fill bytes prev)) else (peak, .goto (.fill bytes peak))
  | .fill bytes prev => (peak, .done ⟨bytes, if prev < bytes then bytes else prev⟩)

/-- A call on its own is `zone_statistics`. -/
theorem peakStep_alone (s : State) (peak : Nat) :
    alone peakStep 3 peak (.load (statBytes s)) =
      some ((zoneStatistics s peak).2,
        ⟨(zoneStatistics s peak).1.sizeInUse, (zoneStatistics s peak).1.maxSizeInUse⟩) := by
  by_cases h : peak < statBytes s
  · simp [alone, peakStep, zoneStatistics, h]
  · simp [alone, peakStep, zoneStatistics, h]

/-- A call in progress, and what had been reported when it started. -/
structure PeakCall where
  pc : PeakPc
  earlier : List PeakReport
  deriving DecidableEq, Repr

/-- A call that has returned: its report, and the reports that were there when it started. -/
structure PeakReturn where
  report : PeakReport
  earlier : List PeakReport
  deriving DecidableEq, Repr

/-- The peak, the calls in progress and the calls that have returned. -/
structure PeakSys where
  peak : Nat := 0
  calls : Nat → Option PeakCall := fun _ => none
  returned : List PeakReturn := []

/-- Call `t` starts, or takes its next step. -/
inductive PeakAct where
  | start (t bytes : Nat)
  | advance (t : Nat)
  deriving DecidableEq, Repr

/-- The reports made so far. -/
def PeakSys.reports (σ : PeakSys) : List PeakReport := σ.returned.map PeakReturn.report

/-- Call `t` is at `pc` now, and the peak is `peak`. -/
def PeakSys.goto (σ : PeakSys) (t : Nat) (call : PeakCall) (peak : Nat) (pc : PeakPc) : PeakSys :=
  { σ with peak := peak, calls := upd σ.calls t (some { call with pc := pc }) }

/-- Call `t` returns. -/
def PeakSys.finish (σ : PeakSys) (t : Nat) (call : PeakCall) (report : PeakReport) : PeakSys :=
  { σ with calls := upd σ.calls t none, returned := ⟨report, call.earlier⟩ :: σ.returned }

/-- One step. -/
def PeakSys.act (σ : PeakSys) : PeakAct → Option PeakSys
  | .start t bytes =>
    if σ.calls t = none then
      some { σ with calls := upd σ.calls t (some ⟨.load bytes, σ.reports⟩) }
    else none
  | .advance t => (σ.calls t).map fun call =>
    match peakStep σ.peak call.pc with
    | (peak, .goto pc) => σ.goto t call peak pc
    | (peak, .done report) => { σ with peak := peak }.finish t call report

/-- The compare-and-swap will find the peak its call loaded, or one that is large enough. -/
def Undisturbed (σ : PeakSys) : PeakAct → Prop
  | .start _ _ => True
  | .advance t => ∀ call bytes prev, σ.calls t = some call → call.pc = .swap bytes prev →
      σ.peak = prev ∨ bytes ≤ σ.peak

/-! ## What one step does -/

/-- The steps of the system, one by one. -/
inductive PeakStep (σ : PeakSys) : PeakAct → PeakSys → Prop
  | start (t bytes : Nat) : PeakStep σ (.start t bytes)
      { σ with calls := upd σ.calls t (some ⟨.load bytes, σ.reports⟩) }
  | above (t bytes : Nat) (call : PeakCall) (hc : σ.calls t = some call)
      (hpc : call.pc = .load bytes) (hlt : σ.peak < bytes) :
      PeakStep σ (.advance t) (σ.goto t call σ.peak (.swap bytes σ.peak))
  | below (t bytes : Nat) (call : PeakCall) (hc : σ.calls t = some call)
      (hpc : call.pc = .load bytes) (hle : bytes ≤ σ.peak) :
      PeakStep σ (.advance t) (σ.goto t call σ.peak (.fill bytes σ.peak))
  | hit (t bytes : Nat) (call : PeakCall) (hc : σ.calls t = some call)
      (hpc : call.pc = .swap bytes σ.peak) :
      PeakStep σ (.advance t) (σ.goto t call bytes (.fill bytes σ.peak))
  | miss (t bytes prev : Nat) (call : PeakCall) (hc : σ.calls t = some call)
      (hpc : call.pc = .swap bytes prev) (hne : σ.peak ≠ prev) :
      PeakStep σ (.advance t) (σ.goto t call σ.peak (.fill bytes σ.peak))
  | fill (t bytes prev : Nat) (call : PeakCall) (hc : σ.calls t = some call)
      (hpc : call.pc = .fill bytes prev) : PeakStep σ (.advance t)
        (σ.finish t call ⟨bytes, if prev < bytes then bytes else prev⟩)

variable {σ σ' σ₀ : PeakSys} {a : PeakAct} {t : Nat} {call : PeakCall}

theorem PeakSys.act_cases (he : σ.act a = some σ') : PeakStep σ a σ' := by
  cases a with
  | start t bytes =>
    simp only [PeakSys.act] at he
    obtain ⟨-, he⟩ := Option.ite_none_right_eq_some.mp he
    cases he
    exact .start t bytes
  | advance t =>
    simp only [PeakSys.act] at he
    obtain ⟨call, hc, rfl⟩ := Option.map_eq_some_iff.mp he
    cases hpc : call.pc with
    | load bytes =>
      by_cases hlt : σ.peak < bytes
      · simp only [peakStep, if_pos hlt]
        exact .above t bytes call hc hpc hlt
      · simp only [peakStep, if_neg hlt]
        exact .below t bytes call hc hpc (Nat.not_lt.mp hlt)
    | swap bytes prev =>
      by_cases heq : σ.peak = prev
      · subst heq
        simp only [peakStep, if_true]
        exact .hit t bytes call hc hpc
      · simp only [peakStep, if_neg heq]
        exact .miss t bytes prev call hc hpc heq
    | fill bytes prev => exact .fill t bytes prev call hc hpc

/-- After a step of call `t`, a call in progress is `t` itself or one that was there before. -/
theorem upd_some {f : Nat → Option PeakCall} {o : Option PeakCall} {t' : Nat}
    (h : upd f t o t' = some call) : o = some call ∨ f t' = some call := by
  by_cases ht : t' = t
  · rw [ht, upd_same] at h
    exact Or.inl h
  · rw [upd_ne ht] at h
    exact Or.inr h

/-! ## The peak never decreases -/

/-- A call waits for its compare-and-swap only with a larger value than it loaded. -/
def SwapsUp (σ : PeakSys) : Prop :=
  ∀ t call bytes prev, σ.calls t = some call → call.pc = .swap bytes prev → prev < bytes

theorem SwapsUp.goto (h : SwapsUp σ) {peak : Nat} {pc : PeakPc}
    (hpc : ∀ bytes prev, pc = .swap bytes prev → prev < bytes) :
    SwapsUp (σ.goto t call peak pc) := by
  intro t' call' bytes prev hc hs
  rcases upd_some hc with ho | ho
  · rw [← Option.some.inj ho] at hs
    exact hpc bytes prev hs
  · exact h t' call' bytes prev ho hs

theorem SwapsUp.act (h : SwapsUp σ) (he : σ.act a = some σ') : SwapsUp σ' := by
  cases PeakSys.act_cases he with
  | start t bytes =>
    intro t' call' b prev hc hs
    rcases upd_some hc with ho | ho
    · rw [← Option.some.inj ho] at hs
      cases hs
    · exact h t' call' b prev ho hs
  | above t bytes call hc hpc hlt =>
    refine h.goto fun b prev hs => ?_
    obtain ⟨rfl, rfl⟩ := PeakPc.swap.inj hs
    exact hlt
  | below t bytes call hc hpc hle => exact h.goto fun b prev hs => absurd hs (by simp)
  | hit t bytes call hc hpc => exact h.goto fun b prev hs => absurd hs (by simp)
  | miss t bytes prev call hc hpc hne => exact h.goto fun b prev hs => absurd hs (by simp)
  | fill t bytes prev call hc hpc =>
    intro t' call' b prev' hc' hs
    rcases upd_some hc' with ho | ho
    · cases ho
    · exact h t' call' b prev' ho hs

theorem SwapsUp.peak_le (h : SwapsUp σ) (he : σ.act a = some σ') : σ.peak ≤ σ'.peak := by
  cases PeakSys.act_cases he with
  | hit t bytes call hc hpc => exact Nat.le_of_lt (h t call bytes σ.peak hc hpc)
  | start | above | below | miss | fill => exact Nat.le_refl _

/-- From any state of any run on. -/
theorem SwapsUp.run {P : PeakSys → PeakAct → Prop} (h : SwapsUp σ)
    (hr : Reaches PeakSys.act P σ σ') : σ.peak ≤ σ'.peak := by
  have hinv : SwapsUp σ' ∧ σ.peak ≤ σ'.peak := by
    refine hr.invariant (I := fun τ => SwapsUp τ ∧ σ.peak ≤ τ.peak) ⟨h, Nat.le_refl _⟩ ?_
    intro τ a τ' hτ _ he
    exact ⟨hτ.1.act he, Nat.le_trans hτ.2 (hτ.1.peak_le he)⟩
  exact hinv.2

/-! ## The reports never go backwards -/

/-- Every report of the list is covered by `n`. -/
def Covered (n : Nat) (qs : List PeakReport) : Prop :=
  ∀ q ∈ qs, q.sizeInUse ≤ n ∧ q.maxSizeInUse ≤ n

theorem Covered.mono {n k : Nat} {qs : List PeakReport} (h : Covered n qs) (hle : n ≤ k) :
    Covered k qs := fun q hq => ⟨Nat.le_trans (h q hq).1 hle, Nat.le_trans (h q hq).2 hle⟩

/-- A call in progress. The peak it has loaded is no larger than the present one and covers
what had been reported when the call started; once it is past its compare-and-swap, the peak
covers its own size too. -/
def PcOk (peak : Nat) (earlier : List PeakReport) : PeakPc → Prop
  | .load _ => Covered peak earlier
  | .swap _ prev => prev ≤ peak ∧ Covered prev earlier
  | .fill bytes prev => bytes ≤ peak ∧ prev ≤ peak ∧ Covered prev earlier

theorem PcOk.mono {peak peak' : Nat} {earlier : List PeakReport} {pc : PeakPc}
    (h : PcOk peak earlier pc) (hle : peak ≤ peak') : PcOk peak' earlier pc := by
  cases pc with
  | load bytes => exact Covered.mono h hle
  | swap bytes prev => exact ⟨Nat.le_trans h.1 hle, h.2⟩
  | fill bytes prev => exact ⟨Nat.le_trans h.1 hle, Nat.le_trans h.2.1 hle, h.2.2⟩

/-- What holds in every state of the undisturbed runs. -/
structure PeakOk (σ : PeakSys) : Prop where
  up : SwapsUp σ
  calls : ∀ t call, σ.calls t = some call → PcOk σ.peak call.earlier call.pc
  reports : Covered σ.peak σ.reports
  earlier : ∀ ret ∈ σ.returned, Covered ret.report.maxSizeInUse ret.earlier

theorem PeakOk.goto (h : PeakOk σ) {peak : Nat} {pc : PeakPc}
    (hup : SwapsUp (σ.goto t call peak pc)) (hle : σ.peak ≤ peak)
    (hpc : PcOk peak call.earlier pc) : PeakOk (σ.goto t call peak pc) := by
  refine ⟨hup, ?_, h.reports.mono hle, h.earlier⟩
  intro t' call' hc
  rcases upd_some hc with ho | ho
  · rw [← Option.some.inj ho]
    exact hpc
  · exact (h.calls t' call' ho).mono hle

/-- The step lemma. -/
theorem PeakOk.act (h : PeakOk σ) (hu : Undisturbed σ a) (he : σ.act a = some σ') : PeakOk σ' := by
  have hup := h.up.act he
  have hle := h.up.peak_le he
  cases PeakSys.act_cases he with
  | start t bytes =>
    refine ⟨hup, ?_, h.reports, h.earlier⟩
    intro t' call' hc
    rcases upd_some hc with ho | ho
    · rw [← Option.some.inj ho]
      exact h.reports
    · exact h.calls t' call' ho
  | above t bytes call hc hpc hlt =>
    have hcall := h.calls t call hc
    rw [hpc] at hcall
    exact h.goto hup hle ⟨Nat.le_refl _, hcall⟩
  | below t bytes call hc hpc hbelow =>
    have hcall := h.calls t call hc
    rw [hpc] at hcall
    exact h.goto hup hle ⟨hbelow, Nat.le_refl _, hcall⟩
  | hit t bytes call hc hpc =>
    have hcall := h.calls t call hc
    rw [hpc] at hcall
    exact h.goto hup hle ⟨Nat.le_refl _, hle, hcall.2⟩
  | miss t bytes prev call hc hpc hne =>
    -- the value it found is large enough, so dropping its own one does no harm
    have hcall := h.calls t call hc
    rw [hpc] at hcall
    have hbytes := (hu call bytes prev hc hpc).resolve_left hne
    exact h.goto hup hle ⟨hbytes, Nat.le_refl _, hcall.2.mono hcall.1⟩
  | fill t bytes prev call hc hpc =>
    have hcall := h.calls t call hc
    rw [hpc] at hcall
    obtain ⟨hb, hp, hcov⟩ := hcall
    refine ⟨hup, ?_, ?_, ?_⟩
    · intro t' call' hc'
      rcases upd_some hc' with ho | ho
      · cases ho
      · exact h.calls t' call' ho
    · intro q hq
      rcases List.mem_cons.mp hq with rfl | hq
      · simp only
        split <;> exact ⟨hb, by assumption⟩
      · exact h.reports q hq
    · intro ret hret
      rcases List.mem_cons.mp hret with rfl | hret
      · refine hcov.mono ?_
        simp only
        split <;> omega
      · exact h.earlier ret hret

/-- A compare-and-swap leaves the peak at least at the size of its call exactly if nobody has
moved the peak since the load, or has moved it far enough. -/
theorem swap_covers_iff {bytes prev : Nat} (hc : σ.calls t = some call)
    (hpc : call.pc = .swap bytes prev) (he : σ.act (.advance t) = some σ') :
    bytes ≤ σ'.peak ↔ σ.peak = prev ∨ bytes ≤ σ.peak := by
  simp only [PeakSys.act, hc, hpc, Option.map_some, peakStep] at he
  by_cases heq : σ.peak = prev
  · simp only [if_pos heq] at he
    cases he
    exact ⟨fun _ => Or.inl heq, fun _ => Nat.le_refl _⟩
  · simp only [if_neg heq] at he
    cases he
    exact ⟨Or.inr, fun h => h.resolve_left heq⟩

/-- The peak never decreases, in any run. In the runs whose compare-and-swaps are undisturbed it
covers what every returned call reported, and a call reports at least what the calls reported
that had returned before it started. -/
theorem peak_never_falls (σ : PeakSys) (h : Reaches PeakSys.act (fun _ _ => True) {} σ) :
    (∀ σ', Reaches PeakSys.act (fun _ _ => True) σ σ' → σ.peak ≤ σ'.peak) ∧
    (Reaches PeakSys.act Undisturbed {} σ →
      (∀ ret ∈ σ.returned, ret.report.sizeInUse ≤ σ.peak) ∧
      ∀ ret ∈ σ.returned, ∀ q ∈ ret.earlier,
        q.sizeInUse ≤ ret.report.maxSizeInUse ∧ q.maxSizeInUse ≤ ret.report.maxSizeInUse) := by
  have hstart : SwapsUp {} := fun t call bytes prev hc => absurd hc (by simp)
  refine ⟨?_, ?_⟩
  · intro σ' hr'
    have hup : SwapsUp σ := h.invariant hstart fun τ a τ' hτ _ he => hτ.act he
    exact hup.run hr'
  · intro hr
    have hok : PeakOk σ := by
      refine hr.invariant ⟨hstart, fun t call hc => absurd hc (by simp),
        fun q hq => absurd hq List.not_mem_nil, fun ret hret => absurd hret List.not_mem_nil⟩ ?_
      intro τ a τ' hτ hu he
      exact hτ.act hu he
    refine ⟨?_, hok.earlier⟩
    intro ret hret
    exact (hok.reports ret.report (List.mem_map_of_mem hret)).1

/-! ## Schedules -/

/-- Test `Undisturbed`. -/
def undisturbed (σ : PeakSys) : PeakAct → Bool
  | .start _ _ => true
  | .advance t =>
    match σ.calls t with
    | some ⟨.swap bytes prev, _⟩ => σ.peak == prev || decide (bytes ≤ σ.peak)
    | _ => true

theorem undisturbed_sound (σ : PeakSys) (a : PeakAct) (h : undisturbed σ a = true) :
    Undisturbed σ a := by
  cases a with
  | start t bytes => trivial
  | advance t =>
    intro call bytes prev hc hpc
    obtain ⟨pc, earlier⟩ := call
    obtain rfl : pc = .swap bytes prev := hpc
    simpa [undisturbed, hc] using h

/-- Two queries at the same time, the smaller one in between, and a third one afterwards. -/
def overtaken : List PeakAct :=
  [.start 0 10, .start 1 5, .advance 0, .advance 1, .advance 1, .advance 1, .advance 0, .advance 0,
    .start 2 3, .advance 2, .advance 2]

/-- The same queries with the larger one first: the compare-and-swap of the smaller one fails. -/
def inOrder : List PeakAct :=
  [.start 0 10, .start 1 5, .advance 1, .advance 0, .advance 0, .advance 0, .advance 1, .advance 1,
    .start 2 3, .advance 2, .advance 2]

/-- The peak covers a call whose compare-and-swap failed, because a larger one was faster. -/
theorem peak_never_falls_in_order : ∃ σ, Reaches PeakSys.act Undisturbed {} σ ∧
    σ.reports = [⟨3, 10⟩, ⟨5, 10⟩, ⟨10, 10⟩] ∧
      ∀ ret ∈ σ.returned, ret.report.sizeInUse ≤ σ.peak := by
  have hrun : (replay PeakSys.act undisturbed {} inOrder).map PeakSys.reports =
      some [⟨3, 10⟩, ⟨5, 10⟩, ⟨10, 10⟩] := by decide
  obtain ⟨σ, hσ, hreports⟩ := Option.map_eq_some_iff.mp hrun
  have hr := reaches_of_replay undisturbed_sound .init hσ
  have hany := hr.invariant (I := Reaches PeakSys.act (fun _ _ => True) {}) .init
    fun _ a _ hτ _ he => hτ.next a trivial he
  exact ⟨σ, hr, hreports, ((peak_never_falls σ hany).2 hr).1⟩

/-- A query that finds the peak moved drops its own larger value: 10 bytes have been reported, the
peak is 5, and a later query reports a maximum of 5. -/
theorem peak_loses_update : ∃ σ, Reaches PeakSys.act (fun _ _ => True) {} σ ∧ σ.peak = 5 ∧
    ∃ ret ∈ σ.returned, ret.report.maxSizeInUse = 5 ∧ ⟨10, 10⟩ ∈ ret.earlier := by
  have hrun : (replay PeakSys.act (fun _ _ => true) {} overtaken).map
      (fun σ => (σ.peak, σ.returned.head?)) =
      some (5, some ⟨⟨3, 5⟩, [⟨10, 10⟩, ⟨5, 5⟩]⟩) := by decide
  obtain ⟨σ, hσ, hend⟩ := Option.map_eq_some_iff.mp hrun
  obtain ⟨hpeak, hlast⟩ := Prod.mk.inj hend
  exact ⟨σ, reaches_of_replay (fun _ _ _ => trivial) .init hσ, hpeak, _,
    List.mem_of_mem_head? hlast, rfl, List.mem_cons_self ..⟩

end CustomMalloc

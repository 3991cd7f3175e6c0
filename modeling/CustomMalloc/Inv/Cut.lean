import CustomMalloc.Inv.Recount

/-!
# Lists that lost their links

The free lists of a page live in its free slots. When the kernel replaces some of their
links by zeros, each list ends at the first link it lost. What is left is a page in
order again, with other counters, in which the slots behind the cut are handed out and
nobody has them (`PageInv.cut`).
-/

namespace CustomMalloc

open Lib.Words Lib.Bytes Lib.Chain Lib.Intervals Lib.Post

variable {c : Cfg} {s : State} {G : Ghost} {m m' : Mem} {r : PageRef} {p : PageMeta}

/-- Some bytes of `m` are gone, and of an aligned word none or all. -/
structure Erased (m m' : Mem) : Prop where
  byte : ∀ y, m' y = m y ∨ m' y = 0
  word : ∀ x, 16 ∣ x → readWord m' x = readWord m x ∨ readWord m' x = 0

theorem Erased.zero (h : Erased m m') {y : Nat} (hy : m y = 0) : m' y = 0 := by
  rcases h.byte y with he | he
  · rw [he, hy]
  · exact he

theorem Erased.link (h : Erased m m') {x : Nat} (hx : 16 ∣ x) :
    link m' x = link m x ∨ link m' x = none := by
  unfold CustomMalloc.link
  rcases h.word x hx with he | he
  · exact Or.inl (by rw [he])
  · exact Or.inr (ptr_eq_none.mpr he)

/-- The slots behind the cuts are lost. -/
theorem PageInv.cut {d : Bool} {busy : List Nat} (h : PageInv d m r p busy)
    (he : Erased m m') :
    ∃ x lost, PageInv false m' r (p.recount x) (busy ++ lost) ∧
      x.used = p.used + lost.length := by
  obtain ⟨k, loc, rem, hs⟩ := h.slots
  have hlink : ∀ x ∈ loc ++ rem, link m' x = link m x ∨ link m' x = none := by
    intro x hx
    obtain ⟨i, hi, rfl⟩ := mem_slotList.mp (hs.parts.subset (List.mem_append_left _ hx))
    exact he.link (h.geom.slot_dvd i)
  obtain ⟨loc', lost₁, rfl, hloc⟩ := hs.local_linked.cut fun x hx =>
    hlink x (List.mem_append_left _ hx)
  obtain ⟨rem', lost₂, rfl, hrem⟩ := hs.remote_linked.cut fun x hx =>
    hlink x (List.mem_append_right _ hx)
  have hparts : (loc' ++ rem' ++ (busy ++ (lost₁ ++ lost₂))).Perm
      (loc' ++ lost₁ ++ (rem' ++ lost₂) ++ busy) := by
    refine List.perm_iff_count.mpr fun a => ?_
    simp only [List.count_append]
    omega
  have hused : p.used + (lost₁ ++ lost₂).length = (busy ++ (lost₁ ++ lost₂)).length := by
    rw [hs.used_eq, ← List.length_append]
  refine ⟨⟨p.used + (lost₁ ++ lost₂).length, loc'.length, rem'.length, p.debugBitmap⟩,
    lost₁ ++ lost₂, ⟨h.geom.congr ⟨rfl, rfl, rfl, rfl, rfl, rfl, rfl, rfl, rfl, rfl⟩,
      ⟨k, loc', rem', ?_⟩, fun hd => absurd hd (by simp)⟩, rfl⟩
  exact ⟨hs.bump_eq, hs.carved_le, hloc, hrem, hparts.trans hs.parts, rfl, rfl, hused,
    fun y h₁ h₂ => he.zero (hs.virgin y h₁ h₂)⟩

/-- All pages at once. -/
theorem Inv.cut (h : Inv c s G) (hdebug : c.debug = false) (he : Erased s.mem m') :
    ∃ (L : PageRef → Counters) (lost : PageRef → List Nat),
      Inv c ({ s with mem := m' }.setPages fun r => (s.pages r).recount (L r))
        { G with busy := fun r => G.busy r ++ lost r } ∧
      (∀ r, lost r ≠ [] → IsData s.segs r ∧ (s.pages r).state = .active) ∧
      ∀ r, (L r).used = (s.pages r).used + (lost r).length := by
  have hpage : ∀ r, ∃ (x : Counters) (lost : List Nat),
      (IsData s.segs r ∧ (s.pages r).state = .active →
        PageInv false m' r ((s.pages r).recount x) (G.busy r ++ lost)) ∧
      (¬ (IsData s.segs r ∧ (s.pages r).state = .active) → lost = []) ∧
      x.used = (s.pages r).used + lost.length := by
    intro r
    by_cases hr : IsData s.segs r ∧ (s.pages r).state = .active
    · obtain ⟨x, lost, hinv, hused⟩ := (h.active hr.1 hr.2).1.cut he
      exact ⟨x, lost, fun _ => hinv, fun hn => absurd hr hn, hused⟩
    · exact ⟨(s.pages r).counters, [], fun hn => absurd hn hr, fun _ => rfl, rfl⟩
  choose L lost hinv hnone hused using hpage
  refine ⟨L, lost, ?_, fun r hr => Classical.byContradiction fun hn => hr (hnone r hn), hused⟩
  have hpages : PagesOk c.debug m' s.segs (fun r => (s.pages r).recount (L r))
      fun r => G.busy r ++ lost r := by
    refine ⟨fun {r g} hg h₁ h₂ => ?_, fun {r} hr => ?_⟩
    · cases h.pages.data hg h₁ h₂ with
      | unused hs h0 hb hzero =>
        have hlost := hnone r fun hr => absurd (hs.symm.trans hr.2) (by simp)
        refine .unused hs h0 (by rw [hb, hlost]; rfl) fun y y₁ y₂ => he.zero (hzero y y₁ y₂)
      | active inv ha =>
        rw [hdebug]
        exact .active (hinv r ⟨isData_of hg h₁ h₂, inv.geom.active⟩) ha
    · rw [h.pages.rest hr, hnone r fun hn => hr hn.1]
      rfl
  exact { h with pages := hpages }

theorem Inv.busy_nodup (h : Inv c s G) (r : PageRef) : (G.busy r).Nodup := by
  rcases List.eq_nil_or_concat (G.busy r) with hn | ⟨l, x, hl⟩
  · rw [hn]
    exact List.nodup_nil
  · have hx : x ∈ G.busy r := by simp [hl]
    exact (h.busy_active hx).2.busy_nodup

end CustomMalloc

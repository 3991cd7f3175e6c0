import CustomMalloc.Inv.Arena
import CustomMalloc.Inv.LargeNodes

/-!
# What is mapped

`Mappings c s g l T`: besides the bootstrap buffer there are the segments `g`, the
large blocks `l` and the pages of the threads `T`, and no two of them overlap. A
`tld_t` in the bootstrap buffer has no page of its own. Nothing is said about the
contents, so every alignment and every size of a large block is covered.

Regions that do not overlap have room in the address space, so a counter of their
bytes does not wrap (`Mappings.total_lt`).
-/

namespace CustomMalloc

open Lib.Words Lib.Chain Lib.Regions Lib.Intervals

variable {c : Cfg} {s s' : State} {g l T : List Nat}

/-- The thread data that have a page of their own. -/
def mappedTls (c : Cfg) (tls : Nat → Option Tld) (t : Nat) : Option Tld :=
  (tls t).filter fun x => !inBootstrap c x.addr

theorem mappedTls_upd (tls : Nat → Option Tld) (t : Nat) (o : Option Tld) :
    mappedTls c (upd tls t o) = upd (mappedTls c tls) t
      (o.filter fun x => !inBootstrap c x.addr) := by
  funext u
  unfold mappedTls upd
  split <;> rfl

/-! ## What is mapped -/

/-- The segments `g`, the large blocks `l` and the pages of the threads `T` are what is mapped
besides the bootstrap buffer. -/
structure Mappings (c : Cfg) (s : State) (g l T : List Nat) : Prop where
  layout : Layout (Covers s.mapped) (Region.Has c s.segs s.larges (mappedTls c s.tls))
  segs : g.Nodup ∧ ∀ b, b ∈ g ↔ (s.segs b).isSome
  segEnd : ∀ b ∈ g, b + 4194304 < 2 ^ 64
  headers : HeadersOk c s.larges
  list : LargeList s.larges s.largeList l
  tlds : T.Nodup ∧ ∀ t, t ∈ T ↔ (mappedTls c s.tls t).isSome
  tldPage : ∀ t x, mappedTls c s.tls t = some x →
    0 < x.addr ∧ c.osPage ∣ x.addr ∧ x.addr + c.osPage < 2 ^ 64

/-- The bytes of these mappings. -/
def mappedTotal (c : Cfg) (larges : Nat → Option LargeAlloc) (g l T : List Nat) : Nat :=
  4194304 * g.length + (l.map (fieldAt LargeAlloc.size larges)).sum + c.osPage * T.length

/-- Where a region starts, and its size. -/
def Region.lo (c : Cfg) (s : State) : Region → Nat
  | .seg b => b
  | .large b => b
  | .tld t => ((mappedTls c s.tls t).map Tld.addr).getD 0
  | .boot => c.bootstrapBuf

def Region.len (c : Cfg) (s : State) : Region → Nat
  | .seg _ => 4194304
  | .large b => fieldAt LargeAlloc.size s.larges b
  | .tld _ => c.osPage
  | .boot => bootstrapBufSize

/-- The regions of the books. -/
def bookedRegions (g l T : List Nat) : List Region :=
  g.map .seg ++ (l.map .large ++ T.map .tld)

theorem sum_bookedRegions (c : Cfg) (s : State) (g l T : List Nat) :
    ((bookedRegions g l T).map (Region.len c s)).sum = mappedTotal c s.larges g l T := by
  have hconst : ∀ (n : Nat) (m : List Nat), (m.map fun _ => n).sum = n * m.length := by
    intro n m
    rw [List.map_const', List.sum_replicate, Nat.nsmul_eq_mul, Nat.mul_comm]
  unfold bookedRegions mappedTotal
  simp only [List.map_append, List.map_map, List.sum_append]
  rw [show (Region.len c s ∘ Region.seg) = fun _ => 4194304 from rfl,
    show (Region.len c s ∘ Region.tld) = fun _ => c.osPage from rfl,
    show (Region.len c s ∘ Region.large) = fieldAt LargeAlloc.size s.larges from rfl,
    hconst, hconst, Nat.add_assoc]

/-- A booked region is a nonempty range below the end of the address space. -/
theorem Mappings.range (h : Mappings c s g l T) {ρ : Region} (hρ : ρ ∈ bookedRegions g l T) :
    0 < ρ.len c s ∧ ρ.lo c s + ρ.len c s ≤ 2 ^ 64 - 1 ∧
      ∀ x, ρ.lo c s ≤ x → x < ρ.lo c s + ρ.len c s →
        ρ.Has c s.segs s.larges (mappedTls c s.tls) x := by
  unfold bookedRegions at hρ
  simp only [List.mem_append, List.mem_map] at hρ
  rcases hρ with ⟨b, hb, rfl⟩ | ⟨b, hb, rfl⟩ | ⟨t, ht, rfl⟩
  · have hend := h.segEnd b hb
    refine ⟨(by decide : 0 < 4194304), ?_, fun x h₁ h₂ => ⟨(h.segs.2 b).mp hb, h₁, h₂⟩⟩
    show b + 4194304 ≤ _
    omega
  · obtain ⟨la, hla⟩ := Option.isSome_iff_exists.mp ((h.list.2 b).mp hb)
    have hok := h.headers b la hla
    have hfits := hok.fits
    have hstop := hok.stop
    have hlen : Region.len c s (.large b) = la.size := fieldAt_of_some hla
    rw [hlen]
    refine ⟨by omega, ?_, fun x h₁ h₂ => ⟨la, hla, h₁, h₂⟩⟩
    show b + la.size ≤ _
    omega
  · obtain ⟨x, hx⟩ := Option.isSome_iff_exists.mp ((h.tlds.2 t).mp ht)
    obtain ⟨-, -, hend⟩ := h.tldPage t x hx
    have hlo : Region.lo c s (.tld t) = x.addr := by
      show ((mappedTls c s.tls t).map Tld.addr).getD 0 = x.addr
      rw [hx]
      rfl
    rw [hlo]
    refine ⟨c.osPage_pos, ?_, fun y h₁ h₂ => ⟨x, hx, h₁, h₂⟩⟩
    show x.addr + c.osPage ≤ _
    omega

/-- Regions that do not overlap have room in the address space, so the counter does not wrap. -/
theorem Mappings.total_lt (h : Mappings c s g l T) :
    mappedTotal c s.larges g l T < 2 ^ 64 := by
  have hnd : (bookedRegions g l T).Nodup := by
    unfold bookedRegions
    refine List.nodup_append.mpr ⟨h.segs.1.map fun _ _ => Region.seg.inj,
      List.nodup_append.mpr ⟨h.list.1.1.nodup.map fun _ _ => Region.large.inj,
        h.tlds.1.map fun _ _ => Region.tld.inj, ?_⟩, ?_⟩
    · simp only [List.mem_map]
      rintro _ ⟨b, -, rfl⟩ _ ⟨t, -, rfl⟩ he
      exact Region.noConfusion he
    · simp only [List.mem_append, List.mem_map]
      rintro _ ⟨b, -, rfl⟩ _ (⟨b', -, rfl⟩ | ⟨t, -, rfl⟩) he
      · exact Region.noConfusion he
      · exact Region.noConfusion he
  have hsum := @sum_len_le_of_disjoint Region (Region.lo c s) (Region.len c s) _
    (bookedRegions g l T) (2 ^ 64 - 1) rfl hnd
    (fun ρ hρ => ⟨(h.range hρ).1, (h.range hρ).2.1⟩) fun ρ hρ ρ' hρ' hne => ?_
  · rw [sum_bookedRegions] at hsum
    omega
  · exact h.layout.ranges_apart hne (h.range hρ).1 (h.range hρ').1 (h.range hρ).2.2
      (h.range hρ').2.2

/-- The large headers among the mappings. -/
theorem Mappings.nodes (h : Mappings c s g l T) : LargeNodes c s l :=
  ⟨h.headers, ⟨fun {b _} hx => h.layout.backed (i := .large b) hx,
    fun {b b' _} hx hx' =>
      Region.large.inj (h.layout.apart (i := .large b) (j := .large b') hx hx')⟩,
    h.list⟩

/-! ## What comes and goes -/

/-- A fresh segment. -/
theorem Mappings.newSegment (h : Mappings c s g l T) {a b A : Nat}
    (hg : Granted c s 4194304 A b s') : s.segs b = none ∧
      Mappings c (CustomMalloc.newSegment s' a b) (b :: g) l T := by
  have hf := hg.fresh
  have hnone : s.segs b = none := by
    by_contra hc
    obtain ⟨x, hx⟩ := Option.ne_none_iff_exists'.mp hc
    exact hf.fresh b (by omega) (by omega)
      (h.layout.backed (i := .seg b) ⟨by rw [hx]; rfl, by omega, by omega⟩)
  refine ⟨hnone, ?_⟩
  have hbg : b ∉ g := fun hb => by
    have := (h.segs.2 b).mp hb
    rw [hnone] at this
    cases this
  have hlayout := hg.ext.layout hf h.layout fun _ _ =>
    Region.of_insertedSegs a (s.arenas a).segments
  obtain ⟨ans, mp, m, mb, rfl, -⟩ := hg.ext
  refine { h with
    layout := hlayout
    segs := ⟨List.nodup_cons.mpr ⟨hbg, h.segs.1⟩, fun x => ?_⟩
    segEnd := ?_ }
  · exact (List.mem_cons.trans (or_congr Iff.rfl (h.segs.2 x))).trans
      (insertedSegs_isSome s.segs b a _).symm
  · intro x hx
    rcases List.mem_cons.mp hx with rfl | hx
    · exact hf.fits
    · exact h.segEnd x hx

/-- A new large mapping with its header in the list. -/
theorem Mappings.linkLarge (h : Mappings c s g l T) (la : LargeAlloc) (hos : OsExt s s')
    (hf : FreshRegion s s' la.base la.size) (hok : HeaderOk c la.base la) :
    Mappings c (linkedLarge s' la) g (la.base :: l) T := by
  obtain ⟨hnone, hne, hnodes⟩ := h.nodes.link la hos hf hok
  rw [linkedLarge_eq hne] at hnodes ⊢
  have hlayout := hos.layout hf h.layout fun _ _ => Region.of_insertedLarges s.largeList
  obtain ⟨ans, mp, m, mb, rfl, -⟩ := hos
  exact { h with layout := hlayout, headers := hnodes.each, list := hnodes.list }

/-- A large mapping is gone. -/
theorem Mappings.freed (h : Mappings c s g l T) {b : Nat} {la : LargeAlloc}
    (hb : s.larges b = some la) : Mappings c (freedLarge c s b la) g (l.erase b) T := by
  have hnodes := h.nodes.freed hb
  have hok := h.headers b la hb
  have hlayout := layout_unmapRange h.layout hok.size_page
    (fun _ _ => Region.of_removedLarges (b := b) la) fun x hx => ⟨la, hb, hok.base ▸ hx⟩
  exact { h with layout := hlayout, headers := hnodes.each, list := hnodes.list }

/-- An address outside everything that is mapped is not in the bootstrap buffer. -/
theorem Mappings.not_bootstrap (h : Mappings c s g l T) {p n : Nat} (hn : 0 < n)
    (hf : FreshRegion s s' p n) : inBootstrap c p = false := by
  by_contra hc
  have hc : inBootstrap c p = true := by simpa using hc
  simp only [inBootstrap, Bool.and_eq_true, decide_eq_true_eq] at hc
  exact hf.fresh p (by omega) (by omega) (h.layout.backed (i := .boot) hc)

/-- A thread gets a page. -/
theorem Mappings.newTld (h : Mappings c s g l T) {t : Nat} (x : Tld) {A : Nat}
    (hnone : s.tls t = none) (hg : Granted c s c.osPage A x.addr s') (h0 : x.addr ≠ 0) (n : Nat) :
    Mappings c { s' with tls := upd s'.tls t (some x), threadIdCounter := n } g l (t :: T) := by
  have hf := hg.fresh
  have hout := h.not_bootstrap c.osPage_pos hf
  have hown : (some x).filter (fun x => !inBootstrap c x.addr) = some x := by
    simp [Option.filter, hout]
  have hold : mappedTls c s.tls t = none := by
    unfold mappedTls
    rw [hnone]
    rfl
  have htT : t ∉ T := fun ht => by
    have := (h.tlds.2 t).mp ht
    rw [hold] at this
    cases this
  have htls : mappedTls c (upd s.tls t (some x)) = upd (mappedTls c s.tls) t (some x) := by
    rw [mappedTls_upd, hown]
  have hlayout := hg.ext.layout hf h.layout fun _ _ => Region.of_newTld (t := t)
  obtain ⟨ans, mp, m, mb, rfl, -⟩ := hg.ext
  refine { h with
    layout := htls ▸ hlayout
    tlds := ⟨List.nodup_cons.mpr ⟨htT, h.tlds.1⟩, fun u => ?_⟩
    tldPage := ?_ }
  · show u ∈ t :: T ↔ (mappedTls c (upd s.tls t (some x)) u).isSome
    rw [htls, List.mem_cons, h.tlds.2 u]
    by_cases hu : u = t
    · simp [hu]
    · simp [hu]
  · intro u z hz
    have hz : mappedTls c (upd s.tls t (some x)) u = some z := hz
    rw [htls] at hz
    by_cases hu : u = t
    · subst hu
      cases (upd_same _ _ _).symm.trans hz
      exact ⟨Nat.pos_of_ne_zero h0, hg.page, hf.fits⟩
    · exact h.tldPage u z ((upd_ne hu).symm.trans hz)

/-- The mappings are a matter of these fields. -/
theorem Mappings.congr (h : Mappings c s g l T) (hmapped : s'.mapped = s.mapped)
    (hsegs : s'.segs = s.segs) (hlarges : s'.larges = s.larges)
    (hlist : s'.largeList = s.largeList) (htls : mappedTls c s'.tls = mappedTls c s.tls) :
    Mappings c s' g l T := by
  refine ⟨?_, ?_, h.segEnd, ?_, ?_, ?_, ?_⟩
  · rw [hmapped, hsegs, hlarges, htls]
    exact h.layout
  · rw [hsegs]
    exact h.segs
  · rw [hlarges]
    exact h.headers
  · rw [hlarges, hlist]
    exact h.list
  · rw [htls]
    exact h.tlds
  · rw [htls]
    exact h.tldPage

/-- The page of thread `t` is unmapped. -/
theorem Mappings.exit (h : Mappings c s g l T) {t : Nat} {x : Tld}
    (hx : mappedTls c s.tls t = some x) :
    Mappings c { s with mapped := unmapRange c s.mapped x.addr c.osPage, tls := upd s.tls t none }
      g l (T.erase t) := by
  have htls : mappedTls c (upd s.tls t none) = upd (mappedTls c s.tls) t none := mappedTls_upd ..
  have hlayout := layout_unmapRange h.layout (Nat.dvd_refl _) (fun _ _ => Region.of_noTld (t := t))
    fun y hy => ⟨x, hx, hy⟩
  refine { h with
    layout := htls ▸ hlayout
    tlds := ⟨h.tlds.1.erase t, fun u => ?_⟩
    tldPage := ?_ }
  · rw [htls, h.tlds.1.mem_erase_iff, h.tlds.2 u]
    by_cases hu : u = t
    · simp [hu]
    · simp [hu]
  · intro u z hz
    have hz : mappedTls c (upd s.tls t none) u = some z := hz
    rw [htls] at hz
    by_cases hu : u = t
    · subst hu
      cases (upd_same _ _ _).symm.trans hz
    · exact h.tldPage u z ((upd_ne hu).symm.trans hz)

end CustomMalloc

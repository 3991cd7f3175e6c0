import CustomMalloc.Inv.State

/-!
# Elementary updates

Every step of the allocator is one of a few kinds of update of the state:
writing bytes, mapping more memory, rewriting one active page, booking numbers
in an arena, rewriting a thread's cache. Each kind preserves the invariant under
conditions about the updated part alone, and keeps every block it does not name.
-/

namespace CustomMalloc

open Lib.Words Lib.Bytes Lib.Chain Lib.Intervals Lib.Regions

variable {c : Cfg} {s s' : State} {G G' : Ghost}

/-- A field that an update does not change. -/
theorem upd_proj {α β γ : Type} [DecidableEq α] (f : β → γ) {g : α → β} {a : α} {b : β}
    (h : f b = f (g a)) : (fun x => f (upd g a b x)) = fun x => f (g x) := by
  funext x
  by_cases hx : x = a
  · rw [hx, upd_same, h]
  · rw [upd_ne hx]

/-! ## Bytes -/

/-- Writing only busy bytes, or bytes outside the data pages. -/
theorem Inv.setMem (h : Inv c s G) {m' : Mem}
    (hm : ∀ {r}, IsData s.segs r → ∀ y, r.start ≤ y → y < r.start + 65536 →
      (∀ b ∈ G.busy r, ¬ (b ≤ y ∧ y < b + (s.pages r).slotSize)) → m' y = s.mem y) :
    Inv c { s with mem := m' } G := by
  refine { h with pages := ⟨fun {r g} hg h₁ h₂ => ?_, h.pages.rest⟩ }
  have hd : IsData s.segs r := isData_of hg h₁ h₂
  cases h.pages.data hg h₁ h₂ with
  | unused hs h0 hb hz =>
    exact .unused hs h0 hb fun y hy₁ hy₂ =>
      (hm hd y hy₁ hy₂ (by simp [hb])).trans (hz y hy₁ hy₂)
  | active inv ha => exact .active (inv.frame (hm hd)) ha

/-- The client's writes: only bytes of blocks change. -/
theorem Inv.write (h : Inv c s G) {m' : Mem}
    (hm : ∀ y, m' y ≠ s.mem y → ∃ p n, Blk s G p n ∧ p ≤ y ∧ y < p + n) :
    Inv c { s with mem := m' } G := by
  refine h.setMem fun {r} hd y h₁ h₂ hfree => ?_
  by_contra hne
  obtain ⟨p, n, hb, hy₁, hy₂⟩ := hm y hne
  cases hb with
  | slab r' hp =>
    obtain ⟨hd', hinv'⟩ := h.busy_active hp
    obtain ⟨b₁, b₂, -⟩ := hinv'.busy_in hp
    obtain rfl := h.page_unique hd hd' h₁ h₂ (by omega) (by omega)
    exact hfree p hp ⟨hy₁, hy₂⟩
  | large hl =>
    have := h.regions.apart (hd.has h₁ h₂) (((h.larges.each hl).region hl).2 y hy₁ hy₂)
    cases this

/-- Bytes become zero, and every slot keeps its first word. -/
theorem Inv.zeroed (h : Inv c s G) {m' : Mem} (hz : ∀ y, m' y = s.mem y ∨ m' y = 0)
    (hword : ∀ {r}, IsData s.segs r → (s.pages r).state = .active →
      ∀ x ∈ slotList r (s.pages r) (s.pages r).capacity, readWord m' x = readWord s.mem x) :
    Inv c { s with mem := m' } G := by
  have hzero : ∀ y, s.mem y = 0 → m' y = 0 := by
    intro y hy
    rcases hz y with he | he
    · rw [he, hy]
    · exact he
  refine { h with pages := ⟨fun {r g} hg h₁ h₂ => ?_, h.pages.rest⟩ }
  cases h.pages.data hg h₁ h₂ with
  | unused hs h0 hb hzr => exact .unused hs h0 hb fun y y₁ y₂ => hzero y (hzr y y₁ y₂)
  | active inv ha =>
    obtain ⟨k, loc, rem, hs⟩ := inv.slots
    have hlink : ∀ x ∈ loc ++ rem, link m' x = link s.mem x := by
      intro x hx
      obtain ⟨i, hi, rfl⟩ := mem_slotList.mp (hs.parts.subset (List.mem_append_left _ hx))
      unfold link
      rw [hword (isData_of hg h₁ h₂) inv.geom.active _
        (mem_slotList.mpr ⟨i, Nat.lt_of_lt_of_le hi hs.carved_le, rfl⟩)]
    refine .active ⟨inv.geom, ⟨k, loc, rem, { hs with
      local_linked := hs.local_linked.congr fun x hx => hlink x (List.mem_append_left _ hx)
      remote_linked := hs.remote_linked.congr fun x hx => hlink x (List.mem_append_right _ hx)
      virgin := fun y y₁ y₂ => hzero y (hs.virgin y y₁ y₂) }⟩, inv.bits⟩ ha

/-! ## More memory -/

theorem Inv.osExt (h : Inv c s G) (he : OsExt s s') : Inv c s' G := by
  obtain ⟨ans, mp, m, b, rfl, hk⟩ := he
  have hm : Inv c { s with mem := m } G :=
    h.setMem fun hd y h₁ h₂ _ => (hk y (h.regions.backed (hd.has h₁ h₂))).2
  exact { hm with regions := h.regions.mono (fun _ _ hx => hx) fun x hx => (hk x hx).1 }

theorem Inv.osExt_keeps (h : Inv c s G) (he : OsExt s s') (P : Nat → Prop) :
    Keeps s G s' G P := by
  obtain ⟨ans, mp, m, b, rfl, hk⟩ := he
  intro p n hb _
  obtain ⟨ρ, -, hin⟩ := h.blk_region hb
  refine ⟨?_, fun y h₁ h₂ => (hk y (h.regions.backed (hin y h₁ h₂))).2⟩
  cases hb with
  | slab r h => exact .slab r h
  | large h => exact .large h

/-! ## One active page -/

/-- Rewriting an active page and its bytes. -/
theorem Inv.setPage (h : Inv c s G) {r : PageRef} {p' : PageMeta} {m' : Mem} {busy' : List Nat}
    (hd : IsData s.segs r) (hact : (s.pages r).state = .active) (hshape : SameShape (s.pages r) p')
    (hinv : PageInv c.debug m' r p' busy')
    (hm : ∀ y, m' y ≠ s.mem y → r.start ≤ y ∧ y < r.start + 65536) :
    Inv c { s with pages := upd s.pages r p', mem := m' }
      { G with busy := upd G.busy r busy' } := by
  have hstate := upd_proj PageMeta.state hshape.state
  have hbin := upd_proj PageMeta.binIdx hshape.binIdx
  refine { h with pages := ⟨fun {q g} hg h₁ h₂ => ?_, fun {q} hq => ?_⟩, bins := ?_, tlds := ?_ }
  · by_cases hqr : q = r
    · subst hqr
      obtain ⟨-, g', hg', ha⟩ := h.active hd hact
      simp only [upd_same]
      refine .active hinv ?_
      rw [hshape.arena, ha, Option.some.inj (hg'.symm.trans hg)]
    · -- no byte of another page changed
      have hsame : ∀ y, q.start ≤ y → y < q.start + 65536 → m' y = s.mem y := by
        intro y y₁ y₂
        by_contra hne
        obtain ⟨r₁, r₂⟩ := hm y hne
        exact hqr (h.page_unique (isData_of hg h₁ h₂) hd y₁ y₂ r₁ r₂)
      simp only [upd_ne hqr]
      cases h.pages.data hg h₁ h₂ with
      | unused hs h0 hb hz =>
        exact .unused hs h0 hb fun y y₁ y₂ => (hsame y y₁ y₂).trans (hz y y₁ y₂)
      | active inv ha => exact .active (inv.frame fun y y₁ y₂ _ => hsame y y₁ y₂) ha
  · have hqr : q ≠ r := by
      rintro rfl
      exact hq hd
    simp only [upd_ne hqr]
    exact h.pages.rest hq
  · intro a b
    obtain ⟨l, hl, hmem⟩ := h.bins a b
    refine ⟨l, ?_, fun q => ?_⟩
    · show DList (fun q => (upd s.pages r p' q).next) (fun q => (upd s.pages r p' q).prev) _ _
      rw [upd_proj PageMeta.next hshape.next, upd_proj PageMeta.prev hshape.prev]
      exact hl
    · rw [hmem q]
      show InBin s.segs s.pages a b q ↔ InBin s.segs (upd s.pages r p') a b q
      unfold InBin
      rw [congrFun hstate q, congrFun hbin q, congrFun (upd_proj PageMeta.arena hshape.arena) q]
  · intro t tld ht b q hq
    obtain ⟨hdq, hs, hb, ha⟩ := h.tlds t tld ht b q hq
    exact ⟨hdq, (congrFun hstate q).trans hs, (congrFun hbin q).trans hb, ha⟩

/-- Rewriting an active page keeps the blocks whose slots it keeps. -/
theorem Inv.setPage_keeps (h : Inv c s G) {r : PageRef} {p' : PageMeta} {m' : Mem}
    {busy' K : List Nat} {P : Nat → Prop} (hd : IsData s.segs r)
    (hshape : SameShape (s.pages r) p') (hm : PageFrame s.mem m' r (s.pages r).slotSize K)
    (hK : ∀ p ∈ G.busy r, P p → p ∈ K ∧ p ∈ busy') :
    Keeps s G { s with pages := upd s.pages r p', mem := m' }
      { G with busy := upd G.busy r busy' } P := by
  have hsize := upd_proj PageMeta.slotSize hshape.slotSize
  intro p n hb hP
  cases hb with
  | slab q hp =>
    refine ⟨?_, fun y h₁ h₂ => ?_⟩
    · rw [← congrFun hsize q]
      refine .slab q ?_
      show p ∈ upd G.busy r busy' q
      by_cases hqr : q = r
      · subst hqr
        rw [upd_same]
        exact (hK p hp hP).2
      · rw [upd_ne hqr]
        exact hp
    · by_contra hne
      obtain ⟨r₁, r₂, hout⟩ := hm y hne
      obtain ⟨hdq, hinv⟩ := h.busy_active hp
      obtain ⟨b₁, b₂, -⟩ := hinv.busy_in hp
      obtain rfl := h.page_unique hdq hd (by omega) (by omega) r₁ r₂
      exact hout p (hK p hp hP).1 ⟨h₁, h₂⟩
  | large hl =>
    refine ⟨.large hl, fun y h₁ h₂ => ?_⟩
    by_contra hne
    obtain ⟨r₁, r₂, -⟩ := hm y hne
    have := h.regions.apart (hd.has r₁ r₂) (((h.larges.each hl).region hl).2 y h₁ h₂)
    cases this

/-! ## Arenas and thread-local data -/

theorem SegListsOk.setArena {segs : Nat → Option Segment} {arenas : Nat → Arena} {a : Nat}
    {x : Arena} (h : SegListsOk segs arenas) (hs : x.segments = (arenas a).segments)
    (hn : x.segmentCount = (arenas a).segmentCount) : SegListsOk segs (upd arenas a x) := by
  intro a'
  obtain ⟨l, hl, hmem, hlen⟩ := h a'
  refine ⟨l, ?_, hmem, (congrFun (upd_proj Arena.segmentCount hn) a').trans hlen⟩
  rw [congrFun (upd_proj Arena.segments hs) a']
  exact hl

/-- Booking numbers in an arena. -/
theorem Inv.setArena (h : Inv c s G) {a : Nat} {x : Arena} (hb : x.bins = (s.arenas a).bins)
    (hs : x.segments = (s.arenas a).segments)
    (hn : x.segmentCount = (s.arenas a).segmentCount) : Inv c (s.setArena a x) G := by
  refine { h with bins := fun a' b => ?_, segLists := h.segLists.setArena hs hn }
  obtain ⟨l, hl, hmem⟩ := h.bins a' b
  refine ⟨l, ?_, hmem⟩
  show DList _ _ ((upd s.arenas a x a').bins b) l
  rw [congrFun (upd_proj Arena.bins hb) a']
  exact hl

/-- Rewriting a thread's data at the same address with a sound cache. -/
theorem Inv.setTld (h : Inv c s G) {t : Nat} {old x : Tld} (hold : s.tls t = some old)
    (ha : x.addr = old.addr)
    (hx : CacheOk s.segs s.pages x) :
    Inv c (s.setTld t x) G := by
  refine { h with regions := h.regions.mono (fun ρ y hy => ?_) fun _ hy => hy, tlds := ?_ }
  · cases ρ with
    | tld t' =>
      obtain ⟨tld, ht, hy⟩ := hy
      by_cases htt : t' = t
      · subst htt
        cases (upd_same ..).symm.trans ht
        rw [ha] at hy
        exact ⟨old, hold, hy⟩
      · exact ⟨tld, (upd_ne htt).symm.trans ht, hy⟩
    | seg b => exact hy
    | large b => exact hy
    | boot => exact hy
  · intro t' tld ht
    by_cases htt : t' = t
    · subst htt
      cases (upd_same ..).symm.trans ht
      exact hx
    · exact h.tlds t' tld ((upd_ne htt).symm.trans ht)

/-! ## Blocks that come and go -/

/-- The same pages, segments and large mappings. -/
structure SameMeta (s s' : State) : Prop where
  segs : s'.segs = s.segs
  pages : s'.pages = s.pages
  registry : s'.segmentRegistry = s.segmentRegistry
  larges : s'.larges = s.larges

/-- The blocks depend only on the metadata. -/
theorem Blk.same {p n : Nat} (h : Blk s G p n) (hs : SameMeta s s') : Blk s' G p n := by
  cases h with
  | slab r hp =>
    rw [← hs.pages]
    exact .slab r hp
  | large hl =>
    rw [← hs.larges] at hl
    exact .large hl

theorem Keeps.same {s₁ : State} {P : Nat → Prop} (h : Keeps s G s₁ G' P) (hs : SameMeta s₁ s')
    (hm : s'.mem = s₁.mem) : Keeps s G s' G' P := by
  intro p n hb hP
  obtain ⟨hb', hm'⟩ := h p n hb hP
  exact ⟨hb'.same hs, fun y h₁ h₂ => by rw [hm]; exact hm' y h₁ h₂⟩

theorem OsExt.same (h : OsExt s s') : SameMeta s s' := by
  obtain ⟨_, _, _, _, rfl, -⟩ := h
  exact ⟨rfl, rfl, rfl, rfl⟩

/-- A step that hands out nothing and takes nothing back. -/
structure Quiet (c : Cfg) (s : State) (G : Ghost) (s' : State) : Prop where
  inv : Inv c s' G
  keeps : Keeps s G s' G fun _ => True
  only : ∀ q k, Blk s' G q k → Blk s G q k

/-- A step that hands out the block `p` of `n` bytes. -/
structure Alloc (c : Cfg) (s : State) (G : Ghost) (p n : Nat) (s' : State) (G' : Ghost) :
    Prop where
  inv : Inv c s' G'
  keeps : Keeps s G s' G' fun _ => True
  new : Blk s' G' p n
  fresh : ∀ k, ¬ Blk s G p k
  only : ∀ q k, Blk s' G' q k → q ≠ p → Blk s G q k

/-- A step that takes the block `p` back. -/
structure Release (c : Cfg) (s : State) (G : Ghost) (p : Nat) (s' : State) (G' : Ghost) :
    Prop where
  inv : Inv c s' G'
  keeps : Keeps s G s' G' (· ≠ p)
  gone : ∀ k, ¬ Blk s' G' p k
  only : ∀ q k, Blk s' G' q k → Blk s G q k

theorem Quiet.refl (h : Inv c s G) : Quiet c s G s := ⟨h, Keeps.refl, fun _ _ hb => hb⟩

theorem Quiet.of_same (h : Inv c s' G) (hk : Keeps s G s' G fun _ => True)
    (hs : SameMeta s s') : Quiet c s G s' :=
  ⟨h, hk, fun _ _ hb => hb.same ⟨hs.segs.symm, hs.pages.symm, hs.registry.symm, hs.larges.symm⟩⟩

theorem Quiet.trans {s₁ s₂ s₃ : State} (h : Quiet c s₁ G s₂) (h' : Quiet c s₂ G s₃) :
    Quiet c s₁ G s₃ :=
  ⟨h'.inv, h.keeps.trans h'.keeps, fun q k hb => h.only q k (h'.only q k hb)⟩

theorem Alloc.after {s₁ s₂ s₃ : State} {p n : Nat} (h : Quiet c s₁ G s₂)
    (h' : Alloc c s₂ G p n s₃ G') : Alloc c s₁ G p n s₃ G' :=
  ⟨h'.inv, h.keeps.trans h'.keeps, h'.new,
    fun k hb => h'.fresh k (h.keeps _ _ hb trivial).1,
    fun q k hb hne => h.only q k (h'.only q k hb hne)⟩

theorem Alloc.before {s₁ s₂ s₃ : State} {p n : Nat} (h : Alloc c s₁ G p n s₂ G')
    (h' : Quiet c s₂ G' s₃) : Alloc c s₁ G p n s₃ G' :=
  ⟨h'.inv, h.keeps.trans h'.keeps, (h'.keeps _ _ h.new trivial).1, h.fresh,
    fun q k hb hne => h.only q k (h'.only q k hb) hne⟩

theorem Release.after {s₁ s₂ s₃ : State} {p : Nat} (h : Quiet c s₁ G s₂)
    (h' : Release c s₂ G p s₃ G') : Release c s₁ G p s₃ G' :=
  ⟨h'.inv, (h.keeps.mono fun _ _ => trivial).trans h'.keeps, h'.gone,
    fun q k hb => h.only q k (h'.only q k hb)⟩

theorem Release.before {s₁ s₂ s₃ : State} {p : Nat} (h : Release c s₁ G p s₂ G')
    (h' : Quiet c s₂ G' s₃) : Release c s₁ G p s₃ G' :=
  ⟨h'.inv, h.keeps.trans (h'.keeps.mono fun _ _ => trivial), fun k hb => h.gone k (h'.only _ k hb),
    fun q k hb => h.only q k (h'.only q k hb)⟩

/-- Booking numbers is quiet. -/
theorem Inv.setArena_quiet (h : Inv c s G) {a : Nat} {x : Arena}
    (hb : x.bins = (s.arenas a).bins) (hs : x.segments = (s.arenas a).segments)
    (hn : x.segmentCount = (s.arenas a).segmentCount) : Quiet c s G (s.setArena a x) :=
  .of_same (h.setArena hb hs hn) (Keeps.refl.same ⟨rfl, rfl, rfl, rfl⟩ rfl) ⟨rfl, rfl, rfl, rfl⟩

theorem Inv.setTld_quiet (h : Inv c s G) {t : Nat} {old x : Tld} (hold : s.tls t = some old)
    (ha : x.addr = old.addr)
    (hx : CacheOk s.segs s.pages x) :
    Quiet c s G (s.setTld t x) :=
  .of_same (h.setTld hold ha hx) (Keeps.refl.same ⟨rfl, rfl, rfl, rfl⟩ rfl) ⟨rfl, rfl, rfl, rfl⟩

/-- The slot `x` of page `r` is handed out. -/
def Ghost.take (G : Ghost) (r : PageRef) (x : Nat) : Ghost :=
  { G with busy := upd G.busy r (x :: G.busy r) }

/-- Handing out a slot of an active page. -/
theorem Inv.take (h : Inv c s G) {r : PageRef} {p' : PageMeta} {x : Nat} (hd : IsData s.segs r)
    (hact : (s.pages r).state = .active)
    (ht : PageInv.Taken c s.mem r (s.pages r) p' (G.busy r) x) :
    Alloc c s G x (s.pages r).slotSize (s.setPage r p') (G.take r x) := by
  have hin := ht.inv.busy_in (List.mem_cons_self ..)
  have hge := ht.inv.geom.slot_ge
  refine ⟨h.setPage hd hact ht.shape ht.inv fun y hy => absurd rfl hy,
    h.setPage_keeps hd ht.shape PageFrame.refl
      fun p hp _ => ⟨hp, List.mem_cons_of_mem _ hp⟩, ?_, ?_, ?_⟩
  · have : Blk (s.setPage r p') (G.take r x) x ((s.setPage r p').pages r).slotSize :=
      .slab r (by simp [Ghost.take])
    have hsz : ((s.setPage r p').pages r).slotSize = (s.pages r).slotSize := by
      simp [State.setPage, ht.shape.slotSize]
    rwa [hsz] at this
  · intro k hb
    rcases h.blk_cases hb with ⟨q, hq, hdq, hinv, -⟩ | ⟨b, la, hl, hok, -, -⟩
    · obtain ⟨b₁, b₂, -⟩ := hinv.busy_in hq
      have := hinv.geom.slot_ge
      obtain rfl := h.page_unique hd hdq hin.1 (by omega) b₁ (by omega)
      exact ht.fresh hq
    · have := h.regions.apart (hd.has hin.1 (by omega)) (hok.region hl).1
      cases this
  · intro q k hb hne
    cases hb with
    | slab r' hq =>
      have hsz := congrFun (upd_proj PageMeta.slotSize ht.shape.slotSize) r'
      have : Blk s G q (s.pages r').slotSize := by
        refine .slab r' ?_
        by_cases hrr : r' = r
        · subst hrr
          simp only [Ghost.take, upd_same] at hq
          exact (List.mem_cons.mp hq).resolve_left hne
        · simpa only [Ghost.take, upd_ne hrr] using hq
      rw [← hsz] at this
      exact this
    | large hl => exact .large hl

end CustomMalloc

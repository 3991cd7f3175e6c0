import CustomMalloc.ReliefRun
import CustomMalloc.Inv.Cut

/-!
# Pressure relief and the clients' bytes

The callback tests a page and then advises it, and the owner of the page does not ask for
the lock that the callback holds in between. What matters is what the page holds when it is
advised: if nothing but zeros was written into the blocks of the page, the kernel can drop it
without harm, and otherwise it can do harm.

The free lists do not matter here, although the kernel may cut them (`Props.Relief`). A page
whose lists are cut is a page in order with other counters, in which the slots behind the cut
are handed out to nobody (`Inv.cut`), and the slab allocator does not look at the counters
(`Inv.Recount`). So behind every state of a run there is one in order, its stand-in, with the same
blocks and the same bytes.
-/

namespace CustomMalloc

open Lib.Words Lib.Bytes Lib.Chain Lib.Intervals Lib.Relate Lib.Post

variable {c : Cfg} {P : ReliefSys → ReliefOp → Prop} {σ σ' : ReliefSys} {s s₀ : State} {G : Ghost}
  {k : PageRef → Nat} {r : PageRef}

/-- No client has anything but zeros in page `r`. -/
def ReliefSys.Blank (σ : ReliefSys) (r : PageRef) : Prop :=
  ∀ y v, σ.told y v → r.start ≤ y → y < r.start + 65536 → v = 0

/-- No size wraps on its way to the large allocator. -/
def ReliefOp.Fits (c : Cfg) : ReliefOp → Prop
  | .call _ (.alloc size) => LargeFits c size 16
  | _ => True

/-- The pages advised after a test of their own are blank. -/
def ReliefOp.Harmless (c : Cfg) (σ : ReliefSys) (op : ReliefOp) : Prop :=
  op.Fits c ∧ ∀ r, op = .madvise r → σ.Blank r

/-! ## Dropped OS pages -/

/-- An aligned word lies in one OS page. -/
theorem zeroOn_erased (hos : 16 ≤ c.osPage) (D : Nat → Bool) (m : Mem) :
    Erased m (zeroOn c D m) := by
  obtain ⟨j, hj⟩ : 16 ∣ c.osPage :=
    Nat.pow_dvd_pow 2
      ((Nat.pow_le_pow_iff_right (by decide)).mp (show 2 ^ 4 ≤ 2 ^ c.pageShift from hos))
  refine ⟨fun y => (zeroOn_cases c D m y).imp_right And.right, ?_⟩
  rintro x ⟨i, rfl⟩
  have hpage : ∀ y, 16 * i ≤ y → y < 16 * i + 8 → y / c.osPage = i / j := by
    intro y h₁ h₂
    rw [hj, ← Nat.div_div_eq_div_mul, show y / 16 = i by omega]
  by_cases hD : D (i / j) = true
  · refine Or.inr (readWord_eq_zero_iff.mpr fun y h₁ h₂ => ?_)
    unfold zeroOn
    rw [hpage y h₁ h₂, if_pos hD]
  · refine Or.inl (readWord_congr fun y h₁ h₂ => ?_)
    unfold zeroOn
    rw [hpage y h₁ h₂, if_neg hD]

/-! ## Stand-ins -/

/-- `s₀` is in order, has the blocks and the bytes of `σ`, and counts the slots as handed out
that were lost. -/
structure StandIn (c : Cfg) (σ : Sys) (k : PageRef → Nat) (s₀ : State) (G : Ghost) : Prop where
  recounted : Recounted k σ.heap s₀
  holds : Holds (c.withDebug false) ⟨s₀, σ.live⟩ G
  lost : ∀ r, ∃ lost : List Nat, lost.Nodup ∧ lost.length = k r ∧
    ∀ x ∈ lost, x ∈ G.busy r ∧ x ∉ σ.ptrs

theorem Recounted.withAnswers (h : Recounted k s s₀) (ans : List (Option Nat)) :
    Recounted k (s.withAnswers ans) (s₀.withAnswers ans) := by
  obtain ⟨P, rfl⟩ := h.eq
  exact h.same (w := s.withAnswers ans) rfl fun _ hx => hx

theorem Recounted.slabExec (hos : 16 ≤ c.osPage) (h : Recounted k s s₀) (t : Nat) (op : SlabOp) :
    Into (Recounts k) (slabExec c s t op) (slabExec (c.withDebug false) s₀ t op) := by
  cases op with
  | alloc size =>
    refine into_bind (h.slabAllocInner hos t size) ?_
    rintro ⟨⟨p, z⟩, s₁⟩ ⟨⟨p₀, z₀⟩, s₁₀⟩ ⟨he, h₁⟩
    cases he
    exact into_ok ⟨rfl, h₁⟩
  | free p => exact into_bind (h.slabFree t p) fun _ _ h₁ => into_ok ⟨rfl, h₁⟩

theorem Recounted.owns (h : Recounted k s s₀) {live : List (Nat × Nat)} {y : Nat}
    (hy : (⟨s, live⟩ : Sys).Owns y) : (⟨s₀, live⟩ : Sys).Owns y := by
  obtain ⟨L, -, -⟩ := h
  refine hy.mono rfl fun p n hb => ?_
  cases hb with
  | slab r hd hact b₁ b₂ => exact .slab r hd hact b₁ b₂
  | large b la hl b₁ b₂ => exact .large b la hl b₁ b₂

theorem Recounted.mem (h : Recounted k s s₀) : s₀.mem = s.mem := by
  obtain ⟨L, -, -⟩ := h
  rfl

namespace StandIn

theorem call {σ τ : Sys} (hos : 16 ≤ c.osPage) (h : StandIn c σ k s₀ G) {t q : Nat} {op : SlabOp}
    {ans : List (Option Nat)} (hlow : op.Low σ.heap) (hlegal : op.Legal σ.live)
    (hfits : ∀ size, op = .alloc size → LargeFits c size 16)
    (he : σ.slabCall c t op ans = .ok (q, τ)) :
    (∃ s₀' G', StandIn c τ k s₀' G') ∧ ActiveKept σ.heap τ.heap ∧
      ∀ y, σ.Owns y → τ.Owns y → τ.heap.mem y = σ.heap.mem y := by
  obtain ⟨hexec, hlive⟩ := Sys.slabCall_ok he
  obtain ⟨⟨q₀, s₀'⟩, hexec₀, hq, hrec⟩ := (h.recounted.withAnswers ans).slabExec hos t op _ hexec
  obtain ⟨s', live'⟩ := τ
  obtain rfl : q = q₀ := hq.symm
  obtain rfl : live' = slabLive σ.live q op := hlive
  -- the same call of the stand-in
  have he₀ : (⟨s₀, σ.live⟩ : Sys).slabCall (c.withDebug false) t op ans =
      .ok (q, ⟨s₀', slabLive σ.live q op⟩) := by
    unfold Sys.slabCall
    rw [hexec₀]
    rfl
  have hlow₀ : op.Low s₀ := by
    obtain ⟨P, hP⟩ := h.recounted.eq
    rw [hP]
    exact hlow
  obtain ⟨G', hholds, hkeeps, hnew⟩ := h.holds.call_keeps hlow₀ hlegal hfits he₀
  have hkept := h.holds.call_kept hlow₀ hlegal he₀
  refine ⟨⟨s₀', G', hrec, hholds, fun r => ?_⟩, ?_, fun y hy hy' => ?_⟩
  · obtain ⟨lost, hnodup, hlen, hl⟩ := h.lost r
    refine ⟨lost, hnodup, hlen, fun x hx => ?_⟩
    obtain ⟨hbusy, hout⟩ := hl x hx
    have hb : Blk s₀ G x (s₀.pages r).slotSize := .slab r hbusy
    obtain ⟨hd, hinv⟩ := h.holds.inv.busy_active hbusy
    obtain ⟨b₁, b₂, -⟩ := hinv.busy_in hbusy
    have hge := hinv.geom.slot_ge
    refine ⟨hholds.inv.blk_busy (hkeeps x _ hb (Or.inl hout)).1
      (hkept r hd hinv.geom.active).1 b₁ (by omega), fun hx' => ?_⟩
    rcases hnew x hx' with hin | hfresh
    · exact hout hin
    · exact hfresh _ hb
  · intro r hd hact
    obtain ⟨L, -, -⟩ := h.recounted
    obtain ⟨L', -, -⟩ := hrec
    exact hkept r hd hact
  · have hbyte := h.holds.call_byte hholds hkeeps
      ((slabLive_subset σ.live q op).imp (List.map_subset _) (List.map_subset _))
      (h.recounted.owns hy) (hrec.owns hy')
    have hmem : s₀'.mem y = s₀.mem y := hbyte
    rwa [hrec.mem, h.recounted.mem] at hmem

theorem write {σ : Sys} (h : StandIn c σ k s₀ G) {y : Nat} {v : UInt8} (hy : σ.Owns y) :
    StandIn c (σ.poke y v) k { s₀ with mem := upd σ.heap.mem y v } G := by
  refine ⟨h.recounted.setMem _, ?_, h.lost⟩
  refine h.holds.write fun z hz => ?_
  by_cases hzy : z = y
  · rw [hzy]
    exact h.recounted.owns hy
  · refine absurd ?_ hz
    rw [upd_ne hzy]
    exact (congrFun h.recounted.mem z).symm

/-- The lists are cut where the kernel dropped a link. -/
theorem drop {σ : Sys} (hos : 16 ≤ c.osPage) (h : StandIn c σ k s₀ G) (D : Nat → Bool) :
    ∃ k' s₀' G', StandIn c ⟨{ σ.heap with mem := zeroOn c D σ.heap.mem }, σ.live⟩ k' s₀' G' := by
  obtain ⟨L, hu, hk⟩ := h.recounted
  obtain ⟨L', lost, hinv, hact, hused⟩ := h.holds.inv.cut rfl (zeroOn_erased hos D σ.heap.mem)
  refine ⟨fun r => k r + (lost r).length, _, _, .mk L' (fun r => ?_) fun r h0 => ?_,
    ⟨hinv, h.holds.nodup, fun x hx => ?_⟩, fun r => ?_⟩
  · have h₁ : ((σ.heap.pages r).used + k r) % 2 ^ 16 = (L r).used % 2 ^ 16 := hu r
    have h₂ : (L' r).used = (L r).used + (lost r).length := hused r
    show ((σ.heap.pages r).used + (k r + (lost r).length)) % 2 ^ 16 = (L' r).used % 2 ^ 16
    omega
  · by_cases hk0 : k r = 0
    · have hl : lost r ≠ [] := fun hn => h0 (by rw [hn, hk0]; rfl)
      obtain ⟨hd, ha⟩ := hact r hl
      exact ⟨ha, h.holds.inv.regions.backed (i := .seg r.seg) ⟨hd.1, by omega, by omega⟩⟩
    · exact hk r hk0
  · obtain ⟨n, hn, hb⟩ := h.holds.blk x hx
    refine ⟨n, hn, ?_⟩
    generalize x.1 = p at hb
    cases hb with
    | slab r hp => exact .slab r (List.mem_append_left _ hp)
    | large hl => exact .large hl
  · obtain ⟨old, hold₀, hlen, hold⟩ := h.lost r
    obtain ⟨-, hlost, hapart⟩ := List.nodup_append.mp (hinv.busy_nodup r)
    refine ⟨old ++ lost r, ?_, by rw [List.length_append, hlen], fun x hx => ?_⟩
    · exact List.nodup_append.mpr ⟨hold₀, hlost, fun x hx => hapart x (hold x hx).1⟩
    · rcases List.mem_append.mp hx with hx | hx
      · exact ⟨List.mem_append_left _ (hold x hx).1, (hold x hx).2⟩
      · refine ⟨List.mem_append_right _ hx, fun hp => ?_⟩
        obtain ⟨hd, hinv⟩ := hinv.busy_active (List.mem_append_right (G.busy r) hx)
        obtain ⟨b₁, b₂, -⟩ := hinv.busy_in (List.mem_append_right _ hx)
        have hge := hinv.geom.slot_ge
        exact hapart x (h.holds.busy hp hd b₁ (by omega)) x hx rfl

/-- A page with no slot in use has no byte of a client. -/
theorem empty {σ : Sys} (h : StandIn c σ k s₀ G) (hd : IsData σ.heap.segs r)
    (hact : (σ.heap.pages r).state = .active) (hempty : (σ.heap.pages r).used = 0) {y : Nat}
    (hy : σ.Owns y) (h₁ : r.start ≤ y) (h₂ : y < r.start + 65536) : False := by
  obtain ⟨p, hp, n, hb, b₁, b₂⟩ := h.holds.owns (h.recounted.owns hy)
  obtain ⟨L, hu, -⟩ := h.recounted
  obtain ⟨hinv, -⟩ := h.holds.inv.active hd hact
  have hbusy : p ∈ G.busy r := by
    rcases h.holds.inv.blk_cases hb with ⟨r', hp', hd', hinv', rfl⟩ | ⟨b, la, hl, hok, rfl, rfl⟩
    · obtain ⟨a₁, a₂, -⟩ := hinv'.busy_in hp'
      rwa [h.holds.inv.page_unique hd hd' h₁ h₂ (by omega) (by omega)]
    · exact absurd (h.holds.inv.regions.apart (hd.has h₁ h₂) ((hok.region hl).2 y b₁ b₂)) (by simp)
  obtain ⟨lost, hnodup, hlen, hl⟩ := h.lost r
  -- a client's slot is not lost, so there is one more in use than was lost
  have hle : (p :: lost).length ≤ (G.busy r).length := by
    have hnodup' : (p :: lost).Nodup := List.nodup_cons.mpr ⟨fun hx => (hl p hx).2 hp, hnodup⟩
    refine (List.subperm_of_subset hnodup' fun x hx => ?_).length_le
    rcases List.mem_cons.mp hx with rfl | hx
    · exact hbusy
    · exact (hl x hx).1
  obtain ⟨j, loc, rem, hs⟩ := hinv.slots
  have hused : (L r).used = (G.busy r).length := hs.used_eq
  have hmore : ((σ.heap.pages r).used + k r) % 2 ^ 16 = (L r).used % 2 ^ 16 := hu r
  have hcap := hs.length_le hinv.geom
  rw [hempty, hused, ← hlen] at hmore
  rw [List.length_cons] at hle
  omega

end StandIn

/-! ## The invariant of the runs -/

/-- Bytes that were told are there, and zero in the OS pages the kernel may drop. -/
structure DataHolds (c : Cfg) (σ : ReliefSys) : Prop where
  standIn : ∃ k s₀ G, StandIn c σ.toSys k s₀ G
  told : ∀ y v, σ.told y v → σ.Owns y ∧ σ.heap.mem y = v ∧ (σ.advised (y / c.osPage) → v = 0)
  tested : ∀ r, σ.tested r → IsData σ.heap.segs r ∧ (σ.heap.pages r).state = .active

namespace DataHolds

theorem inOrder (h : DataHolds c σ) :
    SegListsOk σ.heap.segs σ.heap.arenas ∧ ∀ {r}, IsData σ.heap.segs r → 65536 ∣ r.start := by
  obtain ⟨k, s₀, G, hs⟩ := h.standIn
  have hinv := hs.holds.inv
  obtain ⟨L, -, -⟩ := hs.recounted
  refine ⟨hinv.segLists, fun {r} hd => ?_⟩
  obtain ⟨g, hg⟩ := Option.isSome_iff_exists.mp hd.1
  have hal := (hinv.segOk hg).al
  unfold PageRef.start
  omega

theorem call (hos : 16 ≤ c.osPage) (h : DataHolds c σ) {t q : Nat} {op : SlabOp}
    {ans : List (Option Nat)} {τ : Sys} (hlow : op.Low σ.heap) (hlegal : op.Legal σ.live)
    (hfits : ReliefOp.Fits c (.call t op)) (he : σ.slabCall c t op ans = .ok (q, τ)) :
    DataHolds c (σ.afterCall c τ) := by
  obtain ⟨k, s₀, G, hs⟩ := h.standIn
  obtain ⟨⟨s₀', G', hs'⟩, hkept, hbyte⟩ := hs.call hos hlow hlegal
    (fun size hop => by subst hop; exact hfits) he
  refine ⟨⟨k, s₀', G', hs'⟩, ?_, fun r hr => ?_⟩
  · rintro y v ⟨hv, hy'⟩
    obtain ⟨hy, hmem, hadv⟩ := h.told y v hv
    exact ⟨hy', (hbyte y hy hy').trans hmem, fun ha => hadv ha.1⟩
  · obtain ⟨hd, hact⟩ := h.tested r hr
    obtain ⟨hd', hact', -⟩ := hkept r hd hact
    exact ⟨hd', hact'⟩

theorem write (h : DataHolds c σ) {y : Nat} {v : UInt8} (hy : σ.Owns y) :
    DataHolds c (σ.afterWrite c y v) := by
  obtain ⟨k, s₀, G, hs⟩ := h.standIn
  refine ⟨⟨k, _, G, hs.write hy⟩, fun z w hz => ?_, h.tested⟩
  by_cases hzy : z = y
  · subst hzy
    have hw : w = v := by simpa [ReliefSys.afterWrite] using hz
    exact ⟨hy.mono rfl fun _ _ hb => hb.setMem _, (upd_same ..).trans hw.symm,
      fun ha => absurd rfl ha.2⟩
  · have hz : σ.told z w := by simpa [ReliefSys.afterWrite, hzy] using hz
    obtain ⟨ho, hmem, hadv⟩ := h.told z w hz
    exact ⟨ho.mono rfl fun _ _ hb => hb.setMem _, (upd_ne hzy).trans hmem, fun ha => hadv ha.1⟩

/-- Blank pages can be advised. -/
theorem advise (h : DataHolds c σ) {pages : List PageRef}
    (hpages : ∀ r ∈ pages, IsData σ.heap.segs r ∧ σ.Blank r) : DataHolds c (σ.advise c pages) := by
  refine ⟨h.standIn, fun y v hv => ?_, h.tested⟩
  obtain ⟨hy, hmem, hadv⟩ := h.told y v hv
  refine ⟨hy, hmem, ?_⟩
  rintro (ha | ⟨r, hr, hin⟩)
  · exact hadv ha
  · obtain ⟨hd, hblank⟩ := hpages r hr
    obtain ⟨b₁, b₂⟩ := hin.bytes (h.inOrder.2 hd) rfl
    exact hblank y v hv b₁ b₂

/-- A page without a slot in use is blank. -/
theorem blank_of_empty (h : DataHolds c σ) (hd : IsData σ.heap.segs r)
    (hact : (σ.heap.pages r).state = .active) (hempty : pageIsEmpty (σ.heap.pages r) = true) :
    σ.Blank r := by
  obtain ⟨k, s₀, G, hs⟩ := h.standIn
  simp only [pageIsEmpty, Bool.and_eq_true, beq_iff_eq] at hempty
  intro y v hv h₁ h₂
  exact (hs.empty hd hact hempty.1 (h.told y v hv).1 h₁ h₂).elim

theorem drop (hos : 16 ≤ c.osPage) (h : DataHolds c σ) {D : Nat → Bool}
    (hD : ∀ n, D n = true → σ.advised n) : DataHolds c (σ.drop c D) := by
  obtain ⟨k, s₀, G, hs⟩ := h.standIn
  refine ⟨hs.drop hos D, fun y v hv => ?_, h.tested⟩
  obtain ⟨hy, hmem, hadv⟩ := h.told y v hv
  refine ⟨hy.mono rfl fun _ _ hb => hb.setMem _, ?_, hadv⟩
  rcases zeroOn_cases c D σ.heap.mem y with he | ⟨hd, he⟩
  · exact he.trans hmem
  · exact he.trans (hadv (hD _ hd)).symm

end DataHolds

theorem reliefStep_dataHolds (hos : 16 ≤ c.osPage) (hP : ∀ σ op, P σ op → op.Harmless c σ)
    (h : DataHolds c σ) (hs : ReliefStep c P σ σ') : DataHolds c σ' := by
  cases hs with
  | call t op ans q hlow hlegal hop he => exact h.call hos hlow hlegal (hP _ _ hop).1 he
  | write y v hy => exact h.write hy
  | relief pages hop he =>
    refine h.advise fun r hr => ?_
    obtain ⟨hd, hact, hempty⟩ := relief_mem h.inOrder.1 he hr
    exact ⟨hd, h.blank_of_empty hd hact hempty⟩
  | test r hd hact hempty =>
    refine ⟨h.standIn, h.told, ?_⟩
    rintro q (rfl | hq)
    · exact ⟨hd, hact⟩
    · exact h.tested q hq
  | madvise r hr hop =>
    have ha : DataHolds c (σ.advise c [r]) := h.advise fun q hq => by
      obtain rfl := List.mem_singleton.mp hq
      exact ⟨(h.tested q hr).1, (hP _ _ hop).2 q rfl⟩
    exact ⟨ha.standIn, ha.told, fun q hq => h.tested q hq.2⟩
  | drop D hD => exact h.drop hos hD

/-- The run lemma. -/
theorem reliefReachable_dataHolds (hos : 16 ≤ c.osPage) (hP : ∀ σ op, P σ op → op.Harmless c σ)
    (h : ReliefReachable c P σ) : DataHolds c σ := by
  induction h with
  | refl =>
    refine ⟨⟨fun _ => 0, _, _, .mk (fun r => ((State.initial c).pages r).counters) (fun _ => rfl)
      fun _ h0 => absurd rfl h0, initial_holds (c.withDebug false), fun _ => ⟨[], ?_⟩⟩, ?_, ?_⟩
    · exact ⟨List.nodup_nil, rfl, fun _ hx => absurd hx List.not_mem_nil⟩
    · exact fun _ _ hv => hv.elim
    · exact fun _ hr => hr.elim
  | tail _ hs ih => exact reliefStep_dataHolds hos hP ih hs

/-! ## Main result -/

/-- In every run whose pages are blank when they are advised, every byte a client wrote reads
back. A tested page can be advised without harm exactly when it is blank, and it is blank as
long as nobody took a slot of it since the test. -/
theorem relief_keeps_data (c : Cfg) (hos : 16 ≤ c.osPage) (σ : ReliefSys)
    (h : ReliefReachable c (fun σ op => op.Harmless c σ) σ) :
    (∀ y v, σ.told y v → σ.heap.mem y = v) ∧
    (∀ r, σ.tested r → c.osPage ≤ pageSizeAlloc →
      ((∀ D : Nat → Bool, (∀ n, D n = true → (σ.advise c [r]).advised n) →
        ∀ y v, σ.told y v → (σ.drop c D).heap.mem y = v) ↔ σ.Blank r)) ∧
    ∀ r, σ.tested r → pageIsEmpty (σ.heap.pages r) = true → σ.Blank r := by
  have hh := reliefReachable_dataHolds hos (fun _ _ hop => hop) h
  refine ⟨fun y v hv => (hh.told y v hv).2.1, fun r hr hle => ⟨fun hall => ?_, fun hblank => ?_⟩,
    fun r hr hempty => ?_⟩
  · intro y v hv h₁ h₂
    have hread := hall (fun n => decide (OsPageOf c r n))
      (fun n hn => Or.inr ⟨r, List.mem_cons_self .., of_decide_eq_true hn⟩) y v hv
    exact hread.symm.trans (drop_page_zero hle (hh.inOrder.2 (hh.tested r hr).1) h₁ h₂)
  · intro D hD y v hv
    have ha : DataHolds c (σ.advise c [r]) := hh.advise fun q hq => by
      obtain rfl := List.mem_singleton.mp hq
      exact ⟨(hh.tested q hr).1, hblank⟩
    exact ((ha.drop hos hD).told y v hv).2.1
  · obtain ⟨hd, hact⟩ := hh.tested r hr
    exact hh.blank_of_empty hd hact hempty

/-- A slot was handed out. -/
def lent : ReliefSys :=
  (ReliefSys.initial (.page4k false)).call (.page4k false) 0 (.alloc 32000)
    [some 0x10000000, some 0x20000000]

/-- And came back. -/
def givenBack : ReliefSys := lent.call (.page4k false) 0 (.free 0x20010000) []

/-- The callback finds the page empty. -/
def foundEmpty : ReliefSys := givenBack.find ⟨0x20000000, 1⟩

/-- It advises the page, and the kernel drops it. -/
def relieved : ReliefSys :=
  (foundEmpty.madvise (.page4k false) ⟨0x20000000, 1⟩).dropPage (.page4k false) ⟨0x20000000, 1⟩

/-- The slot is handed out again. -/
def lentAnew : ReliefSys := relieved.call (.page4k false) 0 (.alloc 32000) []

/-- Or it is handed out again before the callback goes on. -/
def lentBetween : ReliefSys := foundEmpty.call (.page4k false) 0 (.alloc 32000) []

theorem foundEmpty_reachable {P : ReliefSys → ReliefOp → Prop}
    (hP : ∀ σ t op, (∀ q, ¬ σ.tested q) → ReliefOp.Fits (.page4k false) (.call t op) →
      P σ (.call t op)) :
    ReliefReachable (.page4k false) P foundEmpty := by
  have h₁ : ReliefReachable (.page4k false) P lent :=
    ReliefReachable.call .refl 0 (.alloc 32000) [some 0x10000000, some 0x20000000] trivial
      (show 32000 < 2 ^ 64 by decide) (hP _ _ _ (fun _ hq => hq) (largeFits_small (by decide)))
      (by decide +kernel)
  have h₂ : ReliefReachable (.page4k false) P givenBack :=
    h₁.call 0 (.free 0x20010000) [] (fun _ _ _ _ => by decide) (by decide +kernel)
      (hP _ _ _ (fun _ hq => hq) trivial) (by decide +kernel)
  exact h₂.tail (.test ⟨0x20000000, 1⟩ ⟨by decide +kernel, by decide, by decide⟩ (by decide +kernel)
    (by decide +kernel))

/-- Nothing was written yet. -/
theorem foundEmpty_blank (r : PageRef) : foundEmpty.Blank r := fun _ _ hv => hv.1.1.elim

theorem relieved_reachable {P : ReliefSys → ReliefOp → Prop}
    (h : ReliefReachable (.page4k false) P foundEmpty)
    (hP : P foundEmpty (.madvise ⟨0x20000000, 1⟩)) :
    ReliefReachable (.page4k false) P relieved := by
  have h₁ := h.tail (.madvise ⟨0x20000000, 1⟩ (Or.inl rfl) hP)
  exact ReliefReachable.dropPage h₁ ⟨0x20000000, 1⟩ fun n hn =>
    Or.inr ⟨_, List.mem_cons_self .., hn⟩

theorem ReliefSys.told_afterWrite (σ : ReliefSys) (c : Cfg) (y : Nat) (v : UInt8) :
    (σ.afterWrite c y v).told y v := by
  simp [ReliefSys.afterWrite]

/-- The callback advises a page nobody has written to, and what is written later stays. -/
theorem relief_keeps_data_later :
    ∃ σ, ReliefReachable (.page4k false) (fun σ op => op.Harmless (.page4k false) σ) σ ∧
      σ.told 0x20010000 1 ∧ σ.heap.mem 0x20010000 = 1 := by
  have h₁ := foundEmpty_reachable (P := fun σ op => op.Harmless (.page4k false) σ)
    fun _ _ _ _ hfits => ⟨hfits, fun _ hop => absurd hop (by simp)⟩
  have h₂ := relieved_reachable h₁ ⟨trivial, fun r _ => foundEmpty_blank r⟩
  have h₃ : ReliefReachable (.page4k false) (fun σ op => op.Harmless (.page4k false) σ) lentAnew :=
    h₂.call 0 (.alloc 32000) [] trivial (show 32000 < 2 ^ 64 by decide)
      ⟨largeFits_small (by decide), fun _ hop => absurd hop (by simp)⟩ (by decide +kernel)
  have h₄ := h₃.tail
    (.write 0x20010000 1 ⟨by decide +kernel, (0x20010000, 32000), by decide +kernel,
    Nat.le_refl _, Or.inl (by decide)⟩)
  have htold := lentAnew.told_afterWrite (.page4k false) 0x20010000 1
  exact ⟨_, h₄, htold, (relief_keeps_data _ (by decide) _ h₄).1 _ _ htold⟩

/-! ## The failing interleaving -/

/-- Thread `t` has a page cached that serves the request; it does not ask for a lock. -/
def popsCached (s : State) (t size : Nat) : Bool :=
  match s.tls t with
  | none => false
  | some x =>
    match x.binPage (sizeToBin sizeTables size) with
    | none => false
    | some r => (s.pages r).localFree != 0

/-- While the callback is on its way from a test to the `madvise`, with the lock of the arena,
no other thread needs a lock. -/
def ReliefOp.Unlocked (σ : ReliefSys) : ReliefOp → Prop
  | .call t (.alloc size) => (∃ r, σ.tested r) → popsCached σ.heap t size = true
  | .call _ (.free _) => ∀ r, ¬ σ.tested r
  | _ => True

/-- A byte written between the test and the `madvise` can be lost. -/
theorem ReliefReachable.discards (h : ReliefReachable c P σ) (hr : σ.tested r) {y : Nat} {v : UInt8}
    (hy : σ.Owns y) (hin : OsPageOf c r (y / c.osPage)) (hv : v ≠ 0)
    (hP : P (σ.afterWrite c y v) (.madvise r)) :
    ∃ τ, ReliefReachable c P τ ∧ ∃ y v, τ.told y v ∧ τ.heap.mem y ≠ v := by
  have h₁ := h.tail (.write y v hy)
  have h₂ := h₁.tail (.madvise r hr hP)
  refine ⟨_, ReliefReachable.dropPage h₂ r fun n hn => Or.inr ⟨r, List.mem_cons_self .., hn⟩, y, v,
    σ.told_afterWrite c y v, ?_⟩
  show zeroOn c (fun n => decide (OsPageOf c r n)) _ y ≠ v
  unfold zeroOn
  rw [if_pos (decide_eq_true hin)]
  exact hv.symm

/-- The callback finds the page empty; its owner takes the slot back without the lock and writes
to it; then the callback advises the page. -/
theorem relief_discards_data :
    ∃ σ, ReliefReachable (.page4k false) (fun σ op => op.Fits (.page4k false) ∧ op.Unlocked σ) σ ∧
      ∃ y v, σ.told y v ∧ σ.heap.mem y ≠ v := by
  have h₁ := foundEmpty_reachable (P := fun σ op => op.Fits (.page4k false) ∧ op.Unlocked σ)
    fun σ t op hno hfits => by
      refine ⟨hfits, ?_⟩
      cases op with
      | alloc size =>
        rintro ⟨r, hr⟩
        exact absurd hr (hno r)
      | free p => exact hno
  have h₂ : ReliefReachable (.page4k false)
      (fun σ op => op.Fits (.page4k false) ∧ op.Unlocked σ) lentBetween :=
    h₁.call 0 (.alloc 32000) [] trivial (show 32000 < 2 ^ 64 by decide)
      ⟨largeFits_small (by decide), fun _ => by decide +kernel⟩ (by decide +kernel)
  exact h₂.discards (r := ⟨0x20000000, 1⟩) (y := 0x20010000) (v := 1) (Or.inl rfl)
    ⟨by decide +kernel, (0x20010000, 32000), by decide +kernel, Nat.le_refl _, Or.inl (by decide)⟩
    (by decide) (by decide) ⟨trivial, trivial⟩

end CustomMalloc

import CustomMalloc.Run
import CustomMalloc.Lib.Store

/-!
# The allocator refines what an allocator is for

`Lib.Store` says what the clients of an allocator may rely on: blocks with contents, and nothing
of how they are kept. Here every run of the public API, by any threads and with any answers of
the kernel, is a run of that abstract allocator with the same requests and the same answers
(`api_refines`). The abstraction forgets everything but the bytes the clients asked for.

As for the invariant of the runs, no size may wrap and `my_memalign` may not return the end of
its own mapping.
-/

namespace CustomMalloc

open Lib.Words Lib.Bytes Lib.Chain Lib.Intervals Lib.Post Lib.Trace Lib.Store

variable {c : Cfg} {σ σ' : Sys} {s s' : State} {G G' : Ghost} {p q n k : Nat}
  {live : List (Nat × Nat)} {m m' : Mem}

/-! ## The abstraction -/

/-- The `n` bytes from `p` on. -/
def contents (m : Mem) (p n : Nat) : List UInt8 := (List.range n).map fun i => m (p + i)

/-- The blocks that are out, as the clients see them: the bytes they asked for. -/
def Sys.blocks (σ : Sys) : Blocks UInt8 := fun p => (σ.live.lookup p).map (contents σ.heap.mem p)

instance (alignment size : Nat) : Decidable (AlignServed alignment size) := by
  unfold AlignServed SlabSized
  infer_instance

/-- The alignment that the clients of `my_memalign` get: always that of `my_malloc`, and the one
they asked for if it is served. -/
def alignOf (alignment size : Nat) : Nat :=
  if AlignServed alignment size then Nat.lcm 16 alignment else 16

/-- The clients write to the blocks at `ps` only. -/
def Sys.OwnsIn (σ : Sys) (ps : List Nat) (y : Nat) : Prop :=
  (⟨σ.heap, σ.live.filter fun x => x.1 ∈ ps⟩ : Sys).Owns y

/-- What is seen of a call that is answered with `q`. -/
def Op.label (q : Nat) : Op → Label
  | .malloc size => .get 16 size false q
  | .calloc count size => .get 16 (count * size) true q
  | .realloc ptr size =>
    if ptr = 0 then .get 16 size false q
    else if size = 0 then .give ptr
    else .resize ptr size q
  | .free ptr => if ptr = 0 then .skip else .give ptr
  | .memalign alignment size => .get (alignOf alignment size) size false q

/-- A step of a run, with what is seen of it. -/
inductive ApiStep (c : Cfg) : Sys → Label → Sys → Prop
  | call {σ σ' : Sys} (t : Nat) (op : Op) (ans : List (Option Nat)) (q : Nat)
      (hlow : op.Low σ.heap) (hlegal : op.Legal σ.live) (hsafe : op.Safe c)
      (he : σ.call c t op ans = .ok (q, σ')) : ApiStep c σ (op.label q) σ'
  | write {σ : Sys} (m : Mem) (ps : List Nat) (hm : ∀ y, m y ≠ σ.heap.mem y → σ.OwnsIn ps y) :
      ApiStep c σ (.edit ps) { σ with heap := { σ.heap with mem := m } }

/-- Every state of a run has a trace that leads to it. -/
theorem Reachable.trace (h : Reachable c (SafeCall c) σ) :
    ∃ tr, Run (ApiStep c) (Sys.initial c) tr σ := by
  induction h with
  | refl => exact ⟨[], .nil⟩
  | @tail σ _ _ hs ih =>
    obtain ⟨tr, hrun⟩ := ih
    cases hs with
    | call t op ans q hlow hlegal hP he => exact ⟨_, hrun.snoc (.call t op ans q hlow hlegal hP he)⟩
    | write m hm =>
      refine ⟨_, hrun.snoc (.write m σ.ptrs fun y hy => ?_)⟩
      obtain ⟨hmap, x, hx, hin⟩ := hm y hy
      exact ⟨hmap, x, List.mem_filter.mpr ⟨hx, decide_eq_true (List.mem_map_of_mem hx)⟩, hin⟩

theorem Sys.OwnsIn.owns {ps : List Nat} {y : Nat} (h : σ.OwnsIn ps y) : σ.Owns y := by
  obtain ⟨hmap, x, hx, hin⟩ := h
  exact ⟨hmap, x, (List.mem_filter.mp hx).1, hin⟩

theorem ApiStep.holds {a : Label} (h : ∃ G, Holds c σ G) (hs : ApiStep c σ a σ') :
    ∃ G, Holds c σ' G := by
  refine step_holds (P := SafeCall c) (fun _ _ hp => hp) h ?_
  cases hs with
  | call t op ans q hlow hlegal hsafe he => exact .call t op ans q hlow hlegal hsafe he
  | write m ps hm => exact .write m fun y hy => (hm y hy).owns

/-- A run goes on with a call; for runs that are written out. -/
theorem run_call {σ₀ : Sys} {tr : List Label} (h : Run (ApiStep c) σ₀ tr σ) (t : Nat) (op : Op)
    (ans : List (Option Nat)) (q : Nat) (hlow : op.Low σ.heap) (hlegal : op.Legal σ.live)
    (hsafe : op.Safe c) (hq : passes (σ.call c t op ans) (fun r => r.1 == q) = true) :
    Run (ApiStep c) σ₀ (tr ++ [op.label q]) (σ.after c t op ans) := by
  refine h.snoc (.call t op ans q hlow hlegal hsafe ?_)
  unfold Sys.after
  cases he : σ.call c t op ans with
  | error e => exact absurd hq (by rw [he]; simp [passes])
  | ok r =>
    rw [he] at hq
    have : r.1 = q := beq_iff_eq.mp hq
    rw [← this]

/-- A run goes on with a byte that is written to a block. -/
theorem run_poke {σ₀ : Sys} {tr : List Label} (h : Run (ApiStep c) σ₀ tr σ) (y : Nat) (v : UInt8)
    {p n : Nat} (hy : Covers σ.heap.mapped y) (hp : (p, n) ∈ σ.live) (h₁ : p ≤ y) (h₂ : y < p + n) :
    Run (ApiStep c) σ₀ (tr ++ [.edit [p]]) (σ.poke y v) := by
  refine h.snoc (.write _ [p] fun z hz => ?_)
  by_cases hzy : z = y
  · subst hzy
    exact ⟨hy, (p, n), List.mem_filter.mpr ⟨hp, by simp⟩, h₁, Or.inl h₂⟩
  · exact absurd (upd_ne hzy) hz

/-! ## Bytes and pointers -/

@[simp] theorem contents_length (m : Mem) (p n : Nat) : (contents m p n).length = n := by
  simp [contents]

theorem contents_congr (h : ∀ i, i < n → m' (q + i) = m (p + i)) :
    contents m' q n = contents m p n := by
  refine List.map_congr_left fun i hi => h i (List.mem_range.mp hi)

theorem contents_inj (h : contents m p n = contents m' q n) (i : Nat) (hi : i < n) :
    m (p + i) = m' (q + i) :=
  List.map_inj_left.mp h i (List.mem_range.mpr hi)

theorem contents_take (m : Mem) (p n k : Nat) :
    (contents m p n).take k = contents m p (min k n) := by
  unfold contents
  rw [← List.map_take, List.take_range]

theorem contents_zero (h : ∀ i, i < n → m (p + i) = 0) : contents m p n = List.replicate n 0 := by
  refine List.eq_replicate_iff.mpr ⟨contents_length .., fun b hb => ?_⟩
  obtain ⟨i, hi, rfl⟩ := List.mem_map.mp hb
  exact h i (List.mem_range.mp hi)

theorem lookup_mem (h : live.lookup p = some n) : (p, n) ∈ live := by
  induction live with
  | nil => cases h
  | cons x live ih =>
    obtain ⟨q, k⟩ := x
    rw [List.lookup_cons] at h
    by_cases hpq : p = q
    · simp only [hpq, beq_self_eq_true, Option.some.injEq] at h
      rw [hpq, h]
      exact List.mem_cons_self ..
    · simp only [beq_eq_false_iff_ne.mpr hpq] at h
      exact List.mem_cons_of_mem _ (ih h)

theorem lookup_cons_ne (h : p ≠ q) : ((q, n) :: live).lookup p = live.lookup p := by
  rw [List.lookup_cons, beq_eq_false_iff_ne.mpr h]

theorem lookup_cons_same : ((q, n) :: live).lookup q = some n := by
  rw [List.lookup_cons, beq_self_eq_true]

theorem lookup_drop_ne (h : p ≠ q) : (dropPtr q live).lookup p = live.lookup p := by
  induction live with
  | nil => rfl
  | cons x live ih =>
    obtain ⟨q', k⟩ := x
    unfold dropPtr at ih ⊢
    by_cases hq : q' = q
    · rw [List.filter_cons_of_neg (by simp [hq]), ih, hq, lookup_cons_ne h]
    · rw [List.filter_cons_of_pos (by simp [hq]), List.lookup_cons, List.lookup_cons, ih]

theorem lookup_drop_same : (dropPtr q live).lookup q = none := by
  cases h : (dropPtr q live).lookup q with
  | none => rfl
  | some n => exact absurd rfl (mem_dropPtr.mp (lookup_mem h)).2

theorem exists_lookup (h : p ∈ live.map Prod.fst) : ∃ n, live.lookup p = some n := by
  induction live with
  | nil => cases h
  | cons x live ih =>
    obtain ⟨q, k⟩ := x
    by_cases hpq : p = q
    · exact ⟨k, by rw [hpq, lookup_cons_same]⟩
    · rw [lookup_cons_ne hpq]
      rcases List.mem_cons.mp h with he | hmem
      · exact absurd he hpq
      · exact ih hmem

theorem Sys.blocks_some {bs : List UInt8} (h : σ.blocks p = some bs) :
    ∃ n, σ.live.lookup p = some n ∧ bs = contents σ.heap.mem p n := by
  obtain ⟨n, hn, rfl⟩ := Option.map_eq_some_iff.mp h
  exact ⟨n, hn, rfl⟩

/-- A block that is out is one that the allocator counts as handed out. -/
theorem Holds.lookup_blk (h : Holds c σ G) (hp : σ.live.lookup p = some n) :
    ∃ k, n ≤ k ∧ Blk σ.heap G p k := h.blk (p, n) (lookup_mem hp)

/-- The bytes of a block that a call keeps. -/
theorem Holds.contents_kept (h : Holds c σ G) {Q : Nat → Prop} (hk : Keeps σ.heap G s' G' Q)
    (hp : σ.live.lookup p = some n) (hQ : Q p) :
    contents s'.mem p n = contents σ.heap.mem p n := by
  obtain ⟨k, hn, hb⟩ := h.lookup_blk hp
  obtain ⟨-, hm⟩ := hk p k hb hQ
  exact contents_congr fun i hi => hm (p + i) (by omega) (by omega)

/-- If a call keeps every block, and the clients' list is the same, the abstraction is. -/
theorem Holds.blocks_same (h : Holds c σ G) (hk : Keeps σ.heap G s' G' fun _ => True) :
    (⟨s', σ.live⟩ : Sys).blocks = σ.blocks := by
  funext p
  unfold Sys.blocks
  cases hp : σ.live.lookup p with
  | none => rfl
  | some n => exact congrArg some (h.contents_kept hk hp trivial)

/-- All blocks but `p` are what they were, and `p` is not out any more. -/
theorem Holds.blocks_remove (h : Holds c σ G) (hk : Keeps σ.heap G s' G' (· ≠ p)) :
    (⟨s', dropPtr p σ.live⟩ : Sys).blocks = remove σ.blocks p := by
  funext x
  by_cases hx : x = p
  · subst hx
    rw [remove_same]
    unfold Sys.blocks
    rw [lookup_drop_same]
    rfl
  · rw [remove_ne _ hx]
    unfold Sys.blocks
    simp only
    rw [lookup_drop_ne hx]
    cases hl : σ.live.lookup x with
    | none => rfl
    | some n => exact congrArg some (h.contents_kept hk hl hx)

theorem Sys.blocks_cons (s : State) (live : List (Nat × Nat)) (q n : Nat) :
    (⟨s, (q, n) :: live⟩ : Sys).blocks = place (⟨s, live⟩ : Sys).blocks q (contents s.mem q n) := by
  funext x
  by_cases hx : x = q
  · subst hx
    rw [place_same]
    unfold Sys.blocks
    rw [lookup_cons_same]
    rfl
  · rw [place_ne _ _ hx]
    unfold Sys.blocks
    rw [lookup_cons_ne hx]

/-- Nothing is out at the null address. -/
theorem Holds.blocks_null (h : Holds c σ G) : σ.blocks 0 = none := by
  cases h0 : σ.blocks 0 with
  | none => rfl
  | some bs =>
    obtain ⟨n, hn, -⟩ := Sys.blocks_some h0
    obtain ⟨k, -, hb⟩ := h.lookup_blk hn
    exact absurd (h.inv.blk_align hb).2 (Nat.lt_irrefl 0)

/-- A new block has room among blocks that are still there. -/
theorem Inv.room (h : Inv c s' G') (hb : Blk s' G' q k) (hn : n ≤ k) {S : Blocks UInt8}
    (hnew : S q = none) (hold : ∀ x bs, S x = some bs → ∃ j, bs.length ≤ j ∧ Blk s' G' x j) :
    Lib.Store.Room S q n := by
  refine ⟨hnew, fun x bs hx => ?_⟩
  obtain ⟨j, hj, hbx⟩ := hold x bs hx
  rcases h.blk_apart hb hbx with ⟨he, -⟩ | ⟨-, hapart⟩
  · rw [← he, hnew] at hx
    cases hx
  · omega

/-! ## The calls -/

/-- A request. -/
theorem Holds.get_sim (h : Holds c σ G) {al : Nat} {cleared : Bool}
    (hnull : q = 0 → Quiet c σ.heap G s')
    (hgot : q ≠ 0 → ∃ k G', n ≤ k ∧ Alloc c σ.heap G q k s' G' ∧ (16 ∣ q → al ∣ q) ∧
      (cleared = true → ∀ i, i < n → s'.mem (q + i) = 0)) :
    Allowed 0 σ.blocks (.get al n cleared q) (⟨s', addPtr q n σ.live⟩ : Sys).blocks := by
  unfold addPtr
  split
  next h0 =>
    rw [h.blocks_same (hnull h0).keeps, h0]
    exact .refuse ..
  next h0 =>
    obtain ⟨k, G', hk, ha, hal, hz⟩ := hgot h0
    rw [Sys.blocks_cons, h.blocks_same ha.keeps]
    refine .get h0 (hal (ha.inv.blk_align ha.new).1) (ha.inv.room ha.new hk ?_ fun x bs hx => ?_)
      (contents_length ..) fun hc => contents_zero (hz hc)
    · cases hq : σ.blocks q with
      | none => rfl
      | some bs =>
        obtain ⟨j, hj, -⟩ := Sys.blocks_some hq
        obtain ⟨j', -, hb⟩ := h.lookup_blk hj
        exact absurd hb (ha.fresh j')
    · obtain ⟨j, hj, rfl⟩ := Sys.blocks_some hx
      obtain ⟨j', hle, hb⟩ := h.lookup_blk hj
      exact ⟨j', by rw [contents_length]; exact hle, (ha.keeps x j' hb trivial).1⟩

theorem Holds.malloc_sim (h : Holds c σ G)
    (hp : AllocPost c σ.heap G (atLeastOne n) q false s') :
    Allowed 0 σ.blocks (.get 16 n false q) (⟨s', addPtr q n σ.live⟩ : Sys).blocks := by
  refine h.get_sim hp.null fun h0 => ?_
  obtain ⟨k, G', hk, ha, -⟩ := hp.got h0
  exact ⟨k, G', Nat.le_trans (le_atLeastOne n) hk, ha, id, fun hf => absurd hf (by simp)⟩

/-- A block is given back. -/
theorem Holds.give_sim (h : Holds c σ G) (hp : p ∈ σ.ptrs) (hf : FreedPost c σ.heap G p s') :
    Allowed 0 σ.blocks (.give p) (⟨s', dropPtr p σ.live⟩ : Sys).blocks := by
  have hkeeps : ∃ G', Keeps σ.heap G s' G' (· ≠ p) := by
    by_cases hlost : Lost σ.heap G p
    · exact ⟨G, hf.lost hlost ▸ Keeps.refl⟩
    · obtain ⟨G', hrel⟩ := hf.freed hlost
      exact ⟨G', hrel.keeps⟩
  obtain ⟨G', hk⟩ := hkeeps
  obtain ⟨n, hn⟩ := exists_lookup hp
  have hout : σ.blocks p = some (contents σ.heap.mem p n) := by
    unfold Sys.blocks
    rw [hn]
    rfl
  rw [h.blocks_remove hk]
  exact .give hout

/-- A block is resized, in place or by a move. -/
theorem Holds.resize_sim (h : Holds c σ G) (hinv : Inv c s' G')
    (hkeeps : Keeps σ.heap G s' G' (· ≠ p))
    (hb : Blk s' G' q k) (hn : n ≤ k) (hq : q = p ∨ ∀ j, ¬ Blk σ.heap G q j) {old : Nat}
    (hold : σ.live.lookup p = some old)
    (hcopy : ∀ i, i < old → i < n → s'.mem (q + i) = σ.heap.mem (p + i)) :
    Allowed 0 σ.blocks (.resize p n q) (⟨s', (q, n) :: dropPtr p σ.live⟩ : Sys).blocks := by
  have hp : σ.blocks p = some (contents σ.heap.mem p old) := by
    unfold Sys.blocks
    rw [hold]
    rfl
  rw [Sys.blocks_cons, h.blocks_remove hkeeps]
  refine .resize (Nat.ne_of_gt (hinv.blk_align hb).2) hp (hinv.room hb hn ?_ fun x bs hx => ?_)
    (contents_length ..) ?_
  · rcases hq with rfl | hq
    · exact remove_same ..
    · cases hd : remove σ.blocks p q with
      | none => rfl
      | some bs =>
        obtain ⟨j, hj, -⟩ := Sys.blocks_some (of_remove hd).2
        obtain ⟨j', -, hbq⟩ := h.lookup_blk hj
        exact absurd hbq (hq j')
  · obtain ⟨hne, hx⟩ := of_remove hx
    obtain ⟨j, hj, rfl⟩ := Sys.blocks_some hx
    obtain ⟨j', hle, hbx⟩ := h.lookup_blk hj
    exact ⟨j', by rw [contents_length]; exact hle, (hkeeps x j' hbx hne).1⟩
  · rw [contents_length, contents_take, contents_take, Nat.min_comm n old]
    exact contents_congr fun i hi => hcopy i (by omega) (by omega)

/-- `my_realloc` of a block that is out, to a size that is not zero. -/
theorem Holds.realloc_sim (h : Holds c σ G) {old : Nat} (hold : σ.live.lookup p = some old)
    (hblk : old ≤ k) (hr : ReallocPost c σ.heap G p k n q s') :
    Allowed 0 σ.blocks (.resize p n q)
      (⟨s', if q = 0 then σ.live else (q, n) :: dropPtr p σ.live⟩ : Sys).blocks := by
  have hp : σ.blocks p = some (contents σ.heap.mem p old) := by
    unfold Sys.blocks
    rw [hold]
    rfl
  by_cases h0 : q = 0
  · rw [if_pos h0, h.blocks_same (hr.null h0).keeps, h0]
    exact .stay n hp
  · rw [if_neg h0]
    by_cases hqp : q = p
    · obtain ⟨j, hj, hin⟩ := hr.same hqp
      subst hqp
      exact h.resize_sim hin.inv hin.keeps hin.block hj (Or.inl rfl) hold
        fun i _ _ => by rw [hin.mem]
    · obtain ⟨j, G', hj, hm⟩ := hr.moved h0 hqp
      exact h.resize_sim hm.inv hm.keeps hm.block hj (Or.inr hm.fresh) hold
        fun i h₁ h₂ => hm.copied i (by omega) h₂

/-- **Step lemma**: a call. -/
theorem Holds.exec_sim (h : Holds c σ G) {t : Nat} {op : Op} (hlow : op.Low σ.heap)
    (hlegal : op.Legal σ.live) (hsafe : op.Safe c) (he : exec c σ.heap t op = .ok (q, s')) :
    Allowed 0 σ.blocks (op.label q) (⟨s', liveAfter σ.live q op⟩ : Sys).blocks := by
  obtain ⟨hfit, hin⟩ := hsafe
  -- `my_free`, also as `my_realloc(p, 0)`
  have hfree : ∀ {p}, p ≠ 0 → p ∈ σ.ptrs → LowPtr σ.heap p → myFree c σ.heap t p = .ok s' →
      Allowed 0 σ.blocks (.give p) (⟨s', dropPtr p σ.live⟩ : Sys).blocks := by
    intro p _ hp hlow he
    obtain ⟨-, j, -, -, hb⟩ := h.exists_blk hp
    exact h.give_sim hp (ensures_elim (myFree_spec h.inv hb (hlow.low h.inv)) he)
  cases op with
  | malloc size =>
    have hp := ensures_elim (myMalloc_spec h.inv hfit) he
    exact h.malloc_sim hp
  | calloc count size =>
    by_cases hlt : count * size < 2 ^ 64
    · have hp := ensures_elim (myCalloc_spec h.inv hlt (hfit hlt)) he
      refine h.get_sim hp.null fun h0 => ?_
      obtain ⟨k, G', hk, ha, hz⟩ := hp.got h0
      have := le_atLeastOne (count * size)
      exact ⟨k, G', by omega, ha, id, fun _ i hi => hz (q + i) (by omega) (by omega)⟩
    · rw [exec, myCalloc_overflow (Nat.not_lt.mp hlt)] at he
      cases he
      exact h.get_sim (fun _ => Quiet.refl h.inv) fun h0 => absurd rfl h0
  | memalign alignment size =>
    have hp := ensures_elim (myMemalign_spec h.inv hlegal.1 hfit hin) he
    refine h.get_sim hp.null fun h0 => ?_
    obtain ⟨k, G', hk, ha, hal⟩ := hp.got h0
    refine ⟨k, G', hk, ha, fun h16 => ?_, fun hf => absurd hf (by simp)⟩
    unfold alignOf
    split
    next hserved => exact Nat.lcm_dvd h16 (hal hserved)
    next => exact h16
  | free ptr =>
    simp only [Op.label, liveAfter]
    obtain ⟨s₁, hf, he⟩ := bind_eq_ok he
    cases he
    by_cases h0 : ptr = 0
    · rw [if_pos h0]
      rw [h0] at hf
      cases hf
      rw [h0, h.blocks_remove Keeps.refl, remove_none h.blocks_null]
      exact .skip
    · rw [if_neg h0]
      exact hfree h0 (hlegal.resolve_left h0) hlow hf
  | realloc ptr size =>
    simp only [Op.label, liveAfter]
    by_cases hp0 : ptr = 0
    · rw [if_pos hp0, if_pos hp0]
      rw [exec, myRealloc, if_pos hp0] at he
      have hp := ensures_elim (myMalloc_spec h.inv hfit) he
      exact h.malloc_sim hp
    · rw [if_neg hp0, if_neg hp0]
      have hmem := hlegal.2.resolve_left hp0
      by_cases hn : size = 0
      · rw [if_pos hn, if_pos hn]
        rw [hn, exec_realloc_zero hp0] at he
        obtain ⟨s₁, hf, he⟩ := bind_eq_ok he
        cases he
        exact hfree hp0 hmem hlow hf
      · rw [if_neg hn, if_neg hn]
        obtain ⟨old, hold⟩ := exists_lookup hmem
        obtain ⟨k, hk, hb⟩ := h.lookup_blk hold
        have hr := ensures_elim
          (myRealloc_spec h.inv hb (hlow.low h.inv) hfit (Nat.pos_of_ne_zero hn)) he
        exact h.realloc_sim hold hk hr

/-- **Step lemma**: the clients' writes. -/
theorem Holds.edit_sim (h : Holds c σ G) {ps : List Nat}
    (hm : ∀ y, m y ≠ σ.heap.mem y → σ.OwnsIn ps y) :
    Allowed 0 σ.blocks (.edit ps) ({ σ with heap := { σ.heap with mem := m } } : Sys).blocks := by
  refine .edit (fun p => ?_) fun p hp => ?_
  · unfold Sys.blocks
    cases σ.live.lookup p with
    | none => rfl
    | some n => simp
  · unfold Sys.blocks
    cases hl : σ.live.lookup p with
    | none => rfl
    | some n =>
      refine congrArg some (contents_congr fun i hi => Classical.byContradiction fun hne => ?_)
      obtain ⟨j, hj, hb⟩ := h.lookup_blk hl
      obtain ⟨-, x, hx, h₁, h₂⟩ := hm _ hne
      obtain ⟨hx, hxps⟩ := List.mem_filter.mp hx
      have hxp : x.1 ≠ p := fun he => hp (he ▸ of_decide_eq_true hxps)
      -- the byte is in the block at `p` and in that of another pointer
      obtain ⟨k, hk, hbx⟩ := h.blk x hx
      have h₂ : p + i < x.1 + k := by
        rcases h₂ with h₂ | ⟨n', hb', h₂⟩
        · omega
        · rwa [h.inv.block_eq hbx hb'] at h₂
      rcases h.inv.blk_apart hbx hb with ⟨he, -⟩ | ⟨-, hapart⟩
      · exact hxp he
      · omega

/-- **Step lemma**. -/
theorem ApiStep.sim {a : Label} (h : ∃ G, Holds c σ G) (hs : ApiStep c σ a σ') :
    Allowed 0 σ.blocks a σ'.blocks := by
  obtain ⟨G, h⟩ := h
  cases hs with
  | call t op ans q hlow hlegal hsafe he =>
    obtain ⟨hexec, hl⟩ := Sys.call_ok he
    have hsim := (h.withAnswers ans).exec_sim hlow hlegal hsafe hexec
    rw [← hl] at hsim
    exact hsim
  | write m ps hm => exact h.edit_sim hm

/-! ## Runs -/

/-- **Run lemma**, from any state of the invariant. -/
theorem Holds.run_sim {tr : List Label} (h : ∃ G, Holds c σ G) (hr : Run (ApiStep c) σ tr σ') :
    (∃ G, Holds c σ' G) ∧ Run (Allowed 0) σ.blocks tr σ'.blocks :=
  hr.refines (f := Sys.blocks) h (fun _ _ _ hI hs => hs.holds hI) fun _ _ _ hI hs => hs.sim hI

/-- Every run of the public API is a run of the abstract allocator: the same requests get the same
answers, and what the clients hold, and what is in it, is the same at the end. -/
theorem api_refines {tr : List Label} (h : Run (ApiStep c) (Sys.initial c) tr σ) :
    Run (Allowed 0) (fun _ => none) tr σ.blocks :=
  (Holds.run_sim ⟨_, initial_holds c⟩ h).2

/-- A block is requested, written and moved, and another thread requests one with an alignment. -/
def beforeMove : Sys :=
  ((Sys.initial (.page4k false)).after (.page4k false) 0 (.malloc 24)
    [some 0x10000000, some 0x20000000]).poke 0x20010001 7

theorem beforeMove_run : Run (ApiStep (.page4k false)) (Sys.initial (.page4k false))
    [.get 16 24 false 0x20010000, .edit [0x20010000]] beforeMove := by
  have h₀ : Run (ApiStep (.page4k false)) (Sys.initial (.page4k false)) [] _ := .nil
  have h := run_call h₀ 0 (.malloc 24) [some 0x10000000, some 0x20000000] 0x20010000 trivial
    (by decide) ⟨show LargeFits _ 24 16 by decide, trivial⟩ (by decide +kernel)
  exact run_poke h 0x20010001 7 (p := 0x20010000) (n := 24) (by decide +kernel) (by decide +kernel)
    (by decide) (by decide)

/-- The trace of such a run. -/
def moveTrace : List Label :=
  [.get 16 24 false 0x20010000, .edit [0x20010000], .resize 0x20010000 100 0x20020000,
    .get 64 64 false 0x30010000]

theorem api_refines_moved : ∃ σ, Run (ApiStep (.page4k false)) (Sys.initial (.page4k false))
    moveTrace σ ∧ Run (Allowed 0) (fun _ => none) moveTrace σ.blocks := by
  have h₁ := run_call beforeMove_run 0 (.realloc 0x20010000 100) [] 0x20020000
    (fun _ _ _ _ => by decide) (by decide +kernel) ⟨show LargeFits _ 100 16 by decide, trivial⟩
    (by decide +kernel)
  have h₂ := run_call h₁ 1 (.memalign 64 64) [some 0x11000000, some 0x30000000] 0x30010000 trivial
    (by decide) ⟨fun _ _ => by decide, Or.inl (by decide)⟩ (by decide +kernel)
  have htrace : ([.get 16 24 false 0x20010000, .edit [0x20010000]] ++
      [(Op.realloc 0x20010000 100).label 0x20020000]) ++
      [(Op.memalign 64 64).label 0x30010000] = moveTrace := by decide +kernel
  rw [htrace] at h₂
  exact ⟨_, h₂, api_refines h₂⟩

/-- What the abstract allocator promises, its clients get. At any time the requested bytes of two
blocks are apart; and along any further run in which nobody gives a block back, resizes it or
writes to it, the block stays out and its bytes are what they were. -/
theorem api_blocks {tr tr' : List Label} (h : Run (ApiStep c) (Sys.initial c) tr σ)
    (h' : Run (ApiStep c) σ tr' σ') :
    (∀ p q n k, p ≠ q → σ.live.lookup p = some n → σ.live.lookup q = some k →
      p + n ≤ q ∨ q + k ≤ p) ∧
    ∀ p n, (∀ a ∈ tr', a.Spares p) → σ.live.lookup p = some n → σ'.live.lookup p = some n ∧
      ∀ i, i < n → σ'.heap.mem (p + i) = σ.heap.mem (p + i) := by
  have hin : ∀ {p n}, σ.live.lookup p = some n → σ.blocks p = some (contents σ.heap.mem p n) :=
    fun hp => by rw [Sys.blocks, hp]; rfl
  obtain ⟨hG, hrun⟩ := Holds.run_sim ⟨_, initial_holds c⟩ h
  refine ⟨fun p q n k hne hp hq => ?_, fun p n hsp hp => ?_⟩
  · have hapart := (run_apart hrun).apart p q _ _ hne (hin hp) (hin hq)
    rwa [contents_length, contents_length] at hapart
  · have hkept := run_kept (Holds.run_sim hG h').2 hsp (hin hp)
    obtain ⟨n', hn', heq⟩ := Sys.blocks_some hkept
    have hlen := congrArg List.length heq
    rw [contents_length, contents_length] at hlen
    subst hlen
    exact ⟨hn', fun i hi => (contents_inj heq i hi).symm⟩

/-- The written byte survives another thread's requests. -/
theorem api_blocks_kept : ∃ σ, Run (ApiStep (.page4k false)) beforeMove
      [.get 16 24 false 0x30010000, .give 0x30010000] σ ∧ σ.live.lookup 0x20010000 = some 24 ∧
    σ.heap.mem (0x20010000 + 1) = 7 := by
  have h₀ : Run (ApiStep (.page4k false)) beforeMove [] _ := .nil
  have h₁ := run_call h₀ 1 (.malloc 24) [some 0x11000000, some 0x30000000] 0x30010000 trivial
    (by decide) ⟨show LargeFits _ 24 16 by decide, trivial⟩ (by decide +kernel)
  have h₂ := run_call h₁ 1 (.free 0x30010000) [] 0 (fun _ _ _ _ => by decide) (by decide +kernel)
    ⟨trivial, trivial⟩ (by decide +kernel)
  have htrace : ([] ++ [(Op.malloc 24).label 0x30010000]) ++ [(Op.free 0x30010000).label 0] =
      [.get 16 24 false 0x30010000, .give 0x30010000] := by decide +kernel
  rw [htrace] at h₂
  obtain ⟨hlive, hmem⟩ :=
    (api_blocks beforeMove_run h₂).2 0x20010000 24 (by decide) (by decide +kernel)
  have h7 : beforeMove.heap.mem (0x20010000 + 1) = 7 := by decide +kernel
  exact ⟨_, h₂, hlive, (hmem 1 (by decide)).trans h7⟩

end CustomMalloc

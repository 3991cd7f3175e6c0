import CustomMalloc.Inv.Registry
import Mathlib.Data.List.Induction

/-!
# The registry as a set

`segment_register` and `segment_unregister` are meant to be insertion into and
deletion from a set of bases, with `segment_is_registered` as membership. Insertion
is: while the table has room, a base goes to the first free slot of its probe path,
and the slots before it stay taken. Deletion is not: it empties the slot, and a
base whose probe path passes over that slot is cut off.

`registry_set_iff` says that this is the only thing that can go wrong. The
invariant `RegInv` relates the table to the set; registering keeps it, and
unregistering keeps it exactly when the removed base lies on no other path.
-/

namespace CustomMalloc

open Lib.Probe

/-- A call on the registry. -/
inductive RegOp where
  | register (base : Nat)
  | unregister (base : Nat)
  deriving DecidableEq, Repr

/-- The base a call is about. -/
def RegOp.base : RegOp → Nat
  | .register b => b
  | .unregister b => b

/-- The table after a call. -/
def regStep (reg : Nat → Nat) : RegOp → Nat → Nat
  | .register b => segmentRegister reg b
  | .unregister b => segmentUnregister reg b

/-- The table after a sequence of calls, from the empty table on. -/
def regRun (ops : List RegOp) : Nat → Nat := ops.foldl regStep fun _ => 0

/-! ## The set the calls describe -/

/-- The set after a call. -/
def setStep (S : Finset Nat) : RegOp → Finset Nat
  | .register b => insert b S
  | .unregister b => S.erase b

/-- The set after a sequence of calls. -/
def setRun (ops : List RegOp) : Finset Nat := ops.foldl setStep ∅

/-- The last call on `b` registered it. -/
def LastRegisters (ops : List RegOp) (b : Nat) : Prop :=
  ∃ pre post, ops = pre ++ .register b :: post ∧ ∀ op ∈ post, op.base ≠ b

theorem regRun_append (ops : List RegOp) (op : RegOp) :
    regRun (ops ++ [op]) = regStep (regRun ops) op := List.foldl_concat ..

theorem setRun_append (ops : List RegOp) (op : RegOp) :
    setRun (ops ++ [op]) = setStep (setRun ops) op := List.foldl_concat ..

/-- A call on another base changes nothing for `b`, a call on `b` decides. -/
theorem lastRegisters_append {ops : List RegOp} {op : RegOp} {b : Nat} :
    LastRegisters (ops ++ [op]) b ↔ op = .register b ∨ (op.base ≠ b ∧ LastRegisters ops b) := by
  constructor
  · intro h
    obtain ⟨pre, post, heq, hpost⟩ := h
    rcases List.eq_nil_or_concat post with rfl | ⟨post, last, rfl⟩
    · obtain ⟨-, hop⟩ := List.append_inj' heq rfl
      exact Or.inl (List.head_eq_of_cons_eq hop)
    · have heq' : ops ++ [op] = (pre ++ .register b :: post) ++ [last] := by simpa using heq
      obtain ⟨hops, hop⟩ := List.append_inj' heq' rfl
      obtain rfl := List.head_eq_of_cons_eq hop
      exact Or.inr ⟨hpost _ (by simp), pre, post, hops, fun x hx => hpost x (by simp [hx])⟩
  · intro h
    rcases h with rfl | ⟨hne, pre, post, rfl, hpost⟩
    · exact ⟨ops, [], rfl, fun _ hx => absurd hx List.not_mem_nil⟩
    · refine ⟨pre, post ++ [op], by simp, fun x hx => ?_⟩
      rcases List.mem_append.mp hx with hx | hx
      · exact hpost x hx
      · rw [List.mem_singleton.mp hx]
        exact hne

theorem mem_setRun {ops : List RegOp} {b : Nat} : b ∈ setRun ops ↔ LastRegisters ops b := by
  induction ops using List.reverseRecOn with
  | nil =>
    refine ⟨fun h => absurd h (Finset.notMem_empty b), fun h => ?_⟩
    obtain ⟨pre, post, heq, -⟩ := h
    exact absurd heq (by simp)
  | append_singleton ops op ih =>
    rw [setRun_append, lastRegisters_append]
    cases op with
    | register k =>
      rw [show setStep (setRun ops) (.register k) = insert k (setRun ops) from rfl,
        Finset.mem_insert, ih, RegOp.register.injEq]
      by_cases hbk : b = k
      · simp [hbk]
      · simp [hbk, Ne.symm hbk, RegOp.base]
    | unregister k =>
      rw [show setStep (setRun ops) (.unregister k) = (setRun ops).erase k from rfl,
        Finset.mem_erase, ih]
      by_cases hbk : b = k
      · simp [hbk, RegOp.base]
      · simp [hbk, Ne.symm hbk, RegOp.base]

theorem setRun_card_le (ops : List RegOp) : (setRun ops).card ≤ ops.length := by
  induction ops using List.reverseRecOn with
  | nil => exact Nat.le_refl _
  | append_singleton ops op ih =>
    rw [setRun_append, List.length_append]
    cases op with
    | register b => exact (Finset.card_insert_le b _).trans (Nat.succ_le_succ ih)
    | unregister b => exact (Finset.card_erase_le.trans ih).trans (Nat.le_add_right ..)

/-! ## The table represents the set -/

variable {reg : Nat → Nat} {S : Finset Nat} {b k idx n : Nat}

/-- The table holds the elements of `S`, each in one slot and findable. -/
structure RegInv (reg : Nat → Nat) (S : Finset Nat) : Prop where
  slot : ∀ i, reg i ≠ 0 → i < 256
  inj : ∀ i j, reg i ≠ 0 → reg i = reg j → i = j
  mem : ∀ b, b ≠ 0 → ((∃ i, reg i = b) ↔ b ∈ S)
  found : ∀ i, reg i ≠ 0 → segmentIsRegistered reg (reg i) = true

theorem RegInv.registered (h : RegInv reg S) (hb : b ≠ 0) :
    segmentIsRegistered reg b = true ↔ b ∈ S := by
  rw [← h.mem b hb]
  refine ⟨fun hreg => (segmentIsRegistered_iff.mp hreg).mem, fun hin => ?_⟩
  obtain ⟨i, rfl⟩ := hin
  exact h.found i hb

theorem RegInv.empty : RegInv (fun _ => 0) ∅ := by
  refine ⟨fun i hi => absurd rfl hi, fun i j hi => absurd rfl hi, fun b hb => ?_,
    fun i hi => absurd rfl hi⟩
  refine ⟨fun h => ?_, fun h => absurd h (Finset.notMem_empty b)⟩
  obtain ⟨i, hi⟩ := h
  exact absurd hi.symm hb

/-- Different probes look at different slots. -/
theorem probeSlot_inj {m m' : Nat} (hm : m < 256) (hm' : m' < 256)
    (h : probeSlot idx m = probeSlot idx m') : m = m' := by
  simp only [probeSlot, segmentRegistrySize] at h
  omega

/-! ## Registering -/

/-- A base that is found is not stored again. -/
theorem segmentRegisterLoop_found (hb : b ≠ 0) (h : Found 0 (probeSlot idx) reg b n) :
    segmentRegisterLoop reg b idx n = reg := by
  induction n with
  | zero => rfl
  | succ n ih =>
    unfold segmentRegisterLoop
    simp only
    rcases found_succ.mp h with hk | ⟨hne, hrest⟩
    · rw [if_neg (by rw [hk]; exact hb), if_pos hk]
    · rw [if_neg hne]
      split
      next => rfl
      next => exact ih hrest

/-- A full table holds 256 bases. -/
theorem RegInv.card_of_full (h : RegInv reg S) (hfull : ∀ i < 256, reg i ≠ 0) : 256 ≤ S.card := by
  have hinj : Set.InjOn reg (Finset.range 256) := by
    intro i hi j _ hij
    exact h.inj i j (hfull i (Finset.mem_range.mp hi)) hij
  have hcard : (registryKeys reg).card = 256 :=
    (Finset.card_image_of_injOn hinj).trans (Finset.card_range 256)
  rw [← hcard]
  refine Finset.card_le_card fun x hx => ?_
  obtain ⟨i, hi, rfl⟩ := Finset.mem_image.mp hx
  exact (h.mem _ (hfull i (Finset.mem_range.mp hi))).mp ⟨i, rfl⟩

theorem RegInv.register (h : RegInv reg S) (hb : b ≠ 0) (hroom : (insert b S).card ≤ 256) :
    RegInv (segmentRegister reg b) (insert b S) := by
  by_cases hin : b ∈ S
  · have hfound := segmentIsRegistered_iff.mp ((h.registered hb).mpr hin)
    have hsame : segmentRegister reg b = reg := segmentRegisterLoop_found hb hfound
    rw [Finset.insert_eq_of_mem hin, hsame]
    exact h
  have hout : ∀ i, reg i ≠ b := by
    intro i hi
    exact hin ((h.mem b hb).mp ⟨i, hi⟩)
  rcases segmentRegisterLoop_cases reg b (segHash b) 256 with hput | ⟨-, ⟨i, hi⟩ | hfull⟩
  · have hkeep : ∀ i, reg i ≠ 0 → segmentRegister reg b i = reg i := fun _ hi => hput.keeps hi
    have hentry := hput.entry
    have hself := segmentIsRegistered_iff.mpr hput.found
    obtain ⟨m, hm, he, hk, hrest, -⟩ := hput
    refine ⟨fun i hi => ?_, fun i j hi hij => ?_, fun x hx => ?_, fun i hi => ?_⟩
    · by_cases him : i = probeSlot (segHash b) m
      · rw [him]
        exact probeSlot_lt _ _
      · exact h.slot i (by rw [← hrest i him]; exact hi)
    · -- the new base is in one slot, and no old entry equals it
      by_cases him : i = probeSlot (segHash b) m
      · by_cases hjm : j = probeSlot (segHash b) m
        · exact him.trans hjm.symm
        · exact absurd (((hrest j hjm).symm.trans hij.symm).trans (him ▸ hk)) (hout j)
      · have hi' := hrest i him
        by_cases hjm : j = probeSlot (segHash b) m
        · exact absurd ((hi'.symm.trans hij).trans (hjm ▸ hk)) (hout i)
        · exact h.inj i j (by rw [← hi']; exact hi) ((hi'.symm.trans hij).trans (hrest j hjm))
    · rw [Finset.mem_insert, ← h.mem x hx]
      constructor
      · intro hxi
        obtain ⟨i, rfl⟩ := hxi
        rcases hentry i with hi | ⟨-, hi⟩
        · exact Or.inr ⟨i, hi.symm⟩
        · exact Or.inl hi
      · intro hxi
        rcases hxi with rfl | ⟨i, rfl⟩
        · exact ⟨_, hk⟩
        · exact ⟨i, hkeep i hx⟩
    · rcases hentry i with hi' | ⟨-, hi'⟩
      · have hi'' : reg i ≠ 0 := by
          rw [← hi']
          exact hi
        exact (congrArg _ hi').trans (segmentIsRegistered_mono hi'' hkeep (h.found i hi''))
      · exact (congrArg _ hi').trans hself
  · exact absurd hi (hout i)
  · have hcard := h.card_of_full fun i hi => by
      obtain ⟨m, hm, rfl⟩ := probeSlot_surj (segHash b) hi
      exact hfull m hm
    rw [Finset.card_insert_of_notMem hin] at hroom
    omega

/-! ## Unregistering -/

/-- A base that is not found is not removed. -/
theorem segmentUnregisterLoop_absent (h : ∀ i, reg i ≠ b) :
    segmentUnregisterLoop reg b idx n = reg := by
  induction n with
  | zero => rfl
  | succ n ih =>
    unfold segmentUnregisterLoop
    simp only
    rw [if_neg (h _)]
    split
    next => rfl
    next => exact ih

/-- A base that is found is removed from its slot. -/
theorem segmentUnregisterLoop_found (h : Found 0 (probeSlot idx) reg b n) :
    ∃ i, reg i = b ∧ segmentUnregisterLoop reg b idx n = upd reg i 0 := by
  induction n with
  | zero => exact absurd h found_zero
  | succ n ih =>
    unfold segmentUnregisterLoop
    simp only
    split
    next hk => exact ⟨_, hk, rfl⟩
    next hk =>
      obtain ⟨hne, hrest⟩ := (found_succ.mp h).resolve_left hk
      rw [if_neg hne]
      exact ih hrest

/-- How many slots after its own hash position slot `i` comes, cyclically. -/
def probeDist (h i : Nat) : Nat := (i + 256 - h) % 256

/-- No registered base other than `b` is found by passing over the slot of `b`. -/
def OffPaths (reg : Nat → Nat) (b : Nat) : Prop :=
  ∀ i < 256, reg i ≠ 0 → reg i ≠ b →
    ∀ d < probeDist (segHash (reg i)) i, reg ((segHash (reg i) + d) % 256) ≠ b

theorem probeDist_probeSlot {m : Nat} (hidx : idx < 256) (hm : m < 256) :
    probeDist idx (probeSlot idx m) = 255 - m := by
  simp only [probeDist, probeSlot, segmentRegistrySize]
  omega

/-- The same in terms of the probes for a base stored at probe `m`. -/
theorem offPaths_iff : OffPaths reg b ↔
    ∀ k, k ≠ 0 → k ≠ b → ∀ m < 256, reg (probeSlot (segHash k) m) = k →
      ∀ m', m < m' → m' < 256 → reg (probeSlot (segHash k) m') ≠ b := by
  have hash : ∀ k, segHash k < 256 := fun k => Nat.mod_lt _ (by decide)
  constructor
  · intro hoff k hk hkb m hm hmk m' h₁ h₂
    have hd := hoff (probeSlot (segHash k) m) (probeSlot_lt _ _) (by rw [hmk]; exact hk)
      (by rw [hmk]; exact hkb) (255 - m')
    rw [hmk] at hd
    exact hd (by rw [probeDist_probeSlot (hash k) hm]; omega)
  · intro hprobes i hi hi0 hib d hd
    obtain ⟨m, hm, hmi⟩ := probeSlot_surj (segHash (reg i)) hi
    have hdist := probeDist_probeSlot (hash (reg i)) hm
    rw [hmi] at hdist
    have hslot : probeSlot (segHash (reg i)) (255 - d) = (segHash (reg i) + d) % 256 := by
      simp only [probeSlot, segmentRegistrySize]
      omega
    rw [← hslot]
    exact hprobes (reg i) hi0 hib m hm (by rw [hmi]) (255 - d) (by omega) (by omega)

/-- What unregistering a registered base does to the table. -/
theorem RegInv.unregister_eq (h : RegInv reg S) (hb : b ≠ 0) (hin : b ∈ S) :
    ∃ i, reg i = b ∧ segmentUnregister reg b = upd reg i 0 :=
  segmentUnregisterLoop_found (segmentIsRegistered_iff.mp ((h.registered hb).mpr hin))

/-- After `b` is gone, another base is found exactly when `b` was not on its path. -/
theorem RegInv.found_iff (h : RegInv reg S) (hb : b ≠ 0) (hin : b ∈ S) (hk : k ≠ 0) (hkb : k ≠ b)
    (hkS : k ∈ S) : segmentIsRegistered (segmentUnregister reg b) k = true ↔
      ∀ m < 256, reg (probeSlot (segHash k) m) = k →
        ∀ m', m < m' → m' < 256 → reg (probeSlot (segHash k) m') ≠ b := by
  obtain ⟨i, hi, heq⟩ := h.unregister_eq hb hin
  have hfound := segmentIsRegistered_iff.mp ((h.registered hk).mpr hkS)
  have hone : ∀ j j', reg j = k → reg j' = k → j = j' := by
    intro j j' hj hj'
    exact h.inj j j' (by rw [hj]; exact hk) (hj.trans hj'.symm)
  rw [heq, segmentIsRegistered_iff, hfound.emptied_iff (i := i) hk
    (fun m m' hm hm' => probeSlot_inj hm hm') hone (by rw [hi]; exact Ne.symm hkb) (upd_same ..)
    fun j hj => upd_ne hj]
  -- a slot holds `b` exactly when it is the slot of `b`
  have hslot : ∀ j, reg j = b ↔ j = i := by
    intro j
    refine ⟨fun hj => h.inj j i (by rw [hj]; exact hb) (hj.trans hi.symm), fun hj => ?_⟩
    rw [hj, hi]
  simp only [ne_eq, hslot]

theorem RegInv.unregister (h : RegInv reg S) (hb : b ≠ 0) (hoff : OffPaths reg b) :
    RegInv (segmentUnregister reg b) (S.erase b) := by
  by_cases hin : b ∈ S
  · obtain ⟨i, hi, heq⟩ := h.unregister_eq hb hin
    have hval : ∀ j, segmentUnregister reg b j ≠ 0 → j ≠ i ∧ segmentUnregister reg b j = reg j := by
      intro j hj
      rw [heq] at hj ⊢
      have hji : j ≠ i := by
        intro hji
        rw [hji, upd_same] at hj
        exact hj rfl
      exact ⟨hji, upd_ne hji⟩
    refine ⟨fun j hj => ?_, fun j j' hj hjj => ?_, fun x hx => ?_, fun j hj => ?_⟩
    · exact h.slot j (by rw [← (hval j hj).2]; exact hj)
    · have hj' := (hval j' (by rw [← hjj]; exact hj)).2
      have hj₂ := (hval j hj).2
      exact h.inj j j' (by rw [← hj₂]; exact hj) (by rw [← hj₂, ← hj']; exact hjj)
    · rw [Finset.mem_erase, ← h.mem x hx]
      constructor
      · intro hxj
        obtain ⟨j, rfl⟩ := hxj
        obtain ⟨hji, hj⟩ := hval j hx
        refine ⟨fun hjb => hji ?_, j, hj.symm⟩
        exact h.inj j i (by rw [← hj]; exact hx) ((hj.symm.trans hjb).trans hi.symm)
      · intro hxj
        obtain ⟨hxb, j, rfl⟩ := hxj
        refine ⟨j, ?_⟩
        rw [heq]
        exact upd_ne fun hji => hxb (by rw [hji, hi])
    · obtain ⟨hji, hj'⟩ := hval j hj
      rw [hj'] at hj ⊢
      have hjb : reg j ≠ b := fun hjb => hji (h.inj j i hj (hjb.trans hi.symm))
      exact (h.found_iff hb hin hj hjb ((h.mem _ hj).mp ⟨j, rfl⟩)).mpr fun m hm hmk =>
        offPaths_iff.mp hoff _ hj hjb m hm hmk
  · have hsame : segmentUnregister reg b = reg := by
      refine segmentUnregisterLoop_absent fun i hi => hin ?_
      exact (h.mem b hb).mp ⟨i, hi⟩
    rw [hsame, Finset.erase_eq_of_notMem hin]
    exact h

/-- A base whose path passed over `b` is cut off. -/
theorem RegInv.cut_off (h : RegInv reg S) (hb : b ≠ 0) (hoff : ¬ OffPaths reg b) :
    ∃ k ∈ S.erase b, k ≠ 0 ∧ segmentIsRegistered (segmentUnregister reg b) k = false := by
  rw [offPaths_iff] at hoff
  push Not at hoff
  obtain ⟨k, hk, hkb, m, hm, hmk, m', h₁, h₂, hpath⟩ := hoff
  have hin : b ∈ S := (h.mem b hb).mp ⟨_, hpath⟩
  have hkS : k ∈ S := (h.mem k hk).mp ⟨_, hmk⟩
  refine ⟨k, Finset.mem_erase.mpr ⟨hkb, hkS⟩, hk, Bool.eq_false_iff.mpr fun hreg => ?_⟩
  exact (h.found_iff hb hin hk hkb hkS).mp hreg m hm hmk m' h₁ h₂ hpath

/-! ## Sequences of calls -/

/-- The table and the set agree while every removed base lies on no other path. -/
theorem regRun_inv {ops : List RegOp} (hbase : ∀ op ∈ ops, op.base ≠ 0)
    (hroom : ∀ pre, pre <+: ops → (setRun pre).card ≤ 256)
    (hoff : ∀ pre b, pre ++ [.unregister b] <+: ops → OffPaths (regRun pre) b) :
    RegInv (regRun ops) (setRun ops) := by
  induction ops using List.reverseRecOn with
  | nil => exact RegInv.empty
  | append_singleton ops op ih =>
    have hsub : ops <+: ops ++ [op] := List.prefix_append ..
    have h := ih (fun x hx => hbase x (List.mem_append_left _ hx))
      (fun pre hpre => hroom pre (hpre.trans hsub)) fun pre b hpre => hoff pre b (hpre.trans hsub)
    have hop := hbase op (by simp)
    rw [regRun_append, setRun_append]
    cases op with
    | register b =>
      have hcard := hroom _ List.prefix_rfl
      rw [setRun_append] at hcard
      exact h.register hop hcard
    | unregister b => exact h.unregister hop (hoff ops b List.prefix_rfl)

/-- After these calls the registry is the set they describe. -/
structure IsSet (ops : List RegOp) : Prop where
  registered : ∀ b, b ≠ 0 → (segmentIsRegistered (regRun ops) b = true ↔ LastRegisters ops b)
  one_slot : ∀ b, b ≠ 0 → LastRegisters ops b → ∃! i, i < 256 ∧ regRun ops i = b
  others : ∀ pre b, ops = pre ++ [.unregister b] → ∀ k, k ≠ 0 → k ≠ b →
    segmentIsRegistered (regRun ops) k = segmentIsRegistered (regRun pre) k

theorem RegInv.one_slot (h : RegInv reg S) (hb : b ≠ 0) (hin : b ∈ S) :
    ∃! i, i < 256 ∧ reg i = b := by
  obtain ⟨i, hi⟩ := (h.mem b hb).mpr hin
  refine ⟨i, ⟨h.slot i (by rw [hi]; exact hb), hi⟩, fun j hj => ?_⟩
  exact h.inj j i (by rw [hj.2]; exact hb) (hj.2.trans hi.symm)

/-- If the registry is a set all along, every removed base was on no other path. -/
theorem offPaths_of_isSet {ops : List RegOp} (hbase : ∀ op ∈ ops, op.base ≠ 0)
    (hroom : ∀ pre, pre <+: ops → (setRun pre).card ≤ 256)
    (hset : ∀ pre, pre <+: ops → IsSet pre) :
    ∀ pre b, pre ++ [.unregister b] <+: ops → OffPaths (regRun pre) b := by
  induction ops using List.reverseRecOn with
  | nil =>
    intro pre b hpre
    exact absurd (List.prefix_nil.mp hpre) (by simp)
  | append_singleton ops op ih =>
    have hsub : ops <+: ops ++ [op] := List.prefix_append ..
    have hbase' : ∀ x ∈ ops, x.base ≠ 0 := fun x hx => hbase x (List.mem_append_left _ hx)
    have hroom' : ∀ pre, pre <+: ops → (setRun pre).card ≤ 256 :=
      fun pre hpre => hroom pre (hpre.trans hsub)
    have hrest := ih hbase' hroom' fun pre hpre => hset pre (hpre.trans hsub)
    intro pre b hpre
    rcases List.prefix_concat_iff.mp hpre with heq | hpre
    · obtain ⟨rfl, hop⟩ := List.append_inj' heq rfl
      obtain rfl := List.head_eq_of_cons_eq hop
      by_contra hoff
      -- some other base is cut off by this call, although it is still registered
      have h := regRun_inv hbase' hroom' hrest
      obtain ⟨k, hk, hk0, hcut⟩ := h.cut_off (hbase (.unregister b) (by simp)) hoff
      have hlast := mem_setRun.mp (show k ∈ setRun (pre ++ [.unregister b]) by
        rw [setRun_append]
        exact hk)
      have hreg := ((hset _ List.prefix_rfl).registered k hk0).mpr hlast
      rw [regRun_append] at hreg
      cases hcut.symm.trans hreg
    · exact hrest pre b hpre

/-- The registry is a set after every one of the calls exactly when no base is
unregistered while another one is found by passing over its slot. -/
theorem registry_set_iff (ops : List RegOp) (hbase : ∀ op ∈ ops, op.base ≠ 0)
    (hroom : ∀ pre, pre <+: ops → (setRun pre).card ≤ 256) :
    (∀ pre, pre <+: ops → IsSet pre) ↔
      ∀ pre b, pre ++ [.unregister b] <+: ops → OffPaths (regRun pre) b := by
  refine ⟨offPaths_of_isSet hbase hroom, fun hoff pre hpre => ?_⟩
  have hinv : ∀ pre, pre <+: ops → RegInv (regRun pre) (setRun pre) := by
    intro pre hpre
    exact regRun_inv (fun op hop => hbase op (hpre.subset hop))
      (fun pre' hpre' => hroom pre' (hpre'.trans hpre)) fun pre' b hpre' =>
        hoff pre' b (hpre'.trans hpre)
  have h := hinv pre hpre
  refine ⟨fun b hb => ?_, fun b hb hlast => ?_, fun pre' b hpre' k hk hkb => ?_⟩
  · rw [h.registered hb, mem_setRun]
  · exact h.one_slot hb (mem_setRun.mpr hlast)
  · have h' := hinv pre' ((hpre' ▸ List.prefix_append ..).trans hpre)
    rw [Bool.eq_iff_iff, h.registered hk, h'.registered hk, hpre', setRun_append]
    exact ⟨fun hin => (Finset.mem_erase.mp hin).2, fun hin => Finset.mem_erase.mpr ⟨hkb, hin⟩⟩

/-- Two bases with the same hash, the later one removed first. -/
def lastInFirstOut : List RegOp :=
  [.register 0x400000, .register 0x40400000, .unregister 0x40400000, .unregister 0x400000]

theorem registry_set_iff_last_in_first_out :
    segHash 0x400000 = segHash 0x40400000 ∧ ∀ pre, pre <+: lastInFirstOut → IsSet pre := by
  refine ⟨by decide, ?_⟩
  refine (registry_set_iff lastInFirstOut (by decide) fun pre hpre => ?_).mpr fun pre b hpre => ?_
  · have hlen : pre.length ≤ 4 := hpre.length_le
    exact (setRun_card_le pre).trans (by omega)
  · obtain ⟨post, hpost⟩ := hpre
    rcases pre with _ | ⟨x₁, _ | ⟨x₂, _ | ⟨x₃, _ | ⟨x₄, pre⟩⟩⟩⟩
    · exact absurd hpost (by simp [lastInFirstOut])
    · exact absurd hpost (by simp [lastInFirstOut])
    · simp only [lastInFirstOut, List.cons_append, List.nil_append, List.cons.injEq,
        RegOp.unregister.injEq] at hpost
      obtain ⟨rfl, rfl, rfl, -⟩ := hpost
      unfold OffPaths
      decide +kernel
    · simp only [lastInFirstOut, List.cons_append, List.nil_append, List.cons.injEq,
        RegOp.unregister.injEq] at hpost
      obtain ⟨rfl, rfl, rfl, rfl, -⟩ := hpost
      unfold OffPaths
      decide +kernel
    · exact absurd (congrArg List.length hpost) (by simp [lastInFirstOut])

/-- Two bases with the same hash: when the first one is unregistered, the second one is
no longer found, though nobody unregistered it. -/
theorem registry_loses_key :
    segHash 0x400000 = segHash 0x40400000 ∧
    LastRegisters [.register 0x400000, .register 0x40400000, .unregister 0x400000] 0x40400000 ∧
    segmentIsRegistered
      (regRun [.register 0x400000, .register 0x40400000, .unregister 0x400000])
        0x40400000 = false := by
  refine ⟨by decide, ⟨[.register 0x400000], [.unregister 0x400000], rfl, ?_⟩, by decide +kernel⟩
  intro op hop
  rw [List.mem_singleton.mp hop]
  decide

end CustomMalloc

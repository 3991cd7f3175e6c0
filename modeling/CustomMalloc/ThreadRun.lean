import CustomMalloc.SlabRun

/-!
# Runs with thread exits

The runs of `SlabRun`, in which threads also come and go. A thread starts with its first
call, which creates its `tld_t`; when it exits, `tld_cleanup` runs.
-/

namespace CustomMalloc

/-- What a thread does next: call the slab allocator, or exit. -/
inductive ThreadOp where
  | call (op : SlabOp)
  | exit
  deriving DecidableEq, Repr

/-- The state after thread `t` exited. -/
def Sys.exit (c : Cfg) (σ : Sys) (t : Nat) : Sys := { σ with heap := tldCleanup c σ.heap t }

/-- A step of a run; what thread `t` does satisfies `P t`. -/
inductive ThreadStep (c : Cfg) (P : Nat → Sys → ThreadOp → Prop) : Sys → Sys → Prop
  | call {σ σ' : Sys} (t : Nat) (op : SlabOp) (ans : List (Option Nat)) (q : Nat)
      (hlow : op.Low σ.heap) (hlegal : op.Legal σ.live) (hP : P t σ (.call op))
      (he : σ.slabCall c t op ans = .ok (q, σ')) : ThreadStep c P σ σ'
  | write {σ : Sys} (m : Lib.Bytes.Mem) (hm : ∀ y, m y ≠ σ.heap.mem y → σ.Owns y) :
      ThreadStep c P σ { σ with heap := { σ.heap with mem := m } }
  | exit {σ : Sys} (t : Nat) (hP : P t σ .exit) : ThreadStep c P σ (σ.exit c t)

/-- The states of the runs whose steps satisfy `P`. -/
def ThreadReachable (c : Cfg) (P : Nat → Sys → ThreadOp → Prop) (σ : Sys) : Prop :=
  Relation.ReflTransGen (ThreadStep c P) (Sys.initial c) σ

variable {c : Cfg} {P : Nat → Sys → ThreadOp → Prop} {σ : Sys}

theorem ThreadStep.mono {Q : Nat → Sys → ThreadOp → Prop} (hPQ : ∀ t σ op, P t σ op → Q t σ op)
    {σ' : Sys} (h : ThreadStep c P σ σ') : ThreadStep c Q σ σ' := by
  cases h with
  | call t op ans q hlow hlegal hP he => exact .call t op ans q hlow hlegal (hPQ t _ _ hP) he
  | write m hm => exact .write m hm
  | exit t hP => exact .exit t (hPQ t _ _ hP)

theorem ThreadReachable.mono {Q : Nat → Sys → ThreadOp → Prop}
    (hPQ : ∀ t σ op, P t σ op → Q t σ op) (h : ThreadReachable c P σ) : ThreadReachable c Q σ :=
  Relation.ReflTransGen.mono (fun _ _ hs => ThreadStep.mono hPQ hs) _ _ h

theorem ThreadReachable.after (h : ThreadReachable c P σ) (t : Nat) (op : SlabOp)
    (ans : List (Option Nat)) (hlow : op.Low σ.heap) (hlegal : op.Legal σ.live)
    (hP : P t σ (.call op)) : ThreadReachable c P (σ.slabAfter c t op ans) := by
  unfold Sys.slabAfter
  split
  next q σ' he => exact h.tail (.call t op ans q hlow hlegal hP he)
  next => exact h

theorem ThreadReachable.exit (h : ThreadReachable c P σ) (t : Nat) (hP : P t σ .exit) :
    ThreadReachable c P (σ.exit c t) := h.tail (.exit t hP)

end CustomMalloc

import CustomMalloc.Props.LargeSet
import CustomMalloc.Lib.Atomic

/-!
# Large blocks, statement by statement

`Large` has `large_alloc_aligned`, `large_free` and `large_find` as whole functions. Here a call of
theirs is a program counter, and a step of a thread is one statement that touches something another
thread can reach: `large_lock`, the head of `large_list`, a link of a header, a counter.
`large_free` and `large_find` walk the list alike.

What is still one step: `os_mmap_aligned` together with the first three fields of the header, which
is in memory that no other thread has yet, and `os_munmap`.

`nodes` is history: the headers that are in the list. It changes with the write to `large_list`
that ends a call's work on the links. Following a link to where no header is cannot be a step.
-/

namespace CustomMalloc

open Lib.Words Lib.Atomic

/-! ## Program counters -/

/-- The calls. -/
inductive LargeCall where
  | alloc (size alignment : Nat)
  | free (x : Nat)
  | find (x : Nat)
  deriving DecidableEq, Repr

/-- Their answers. -/
inductive LargeAnswer where
  | ptr (p : Nat)
  | none
  | header (b : Option Nat)
  deriving DecidableEq, Repr

/-- What a call of `large_alloc_aligned` knows when it has its mapping. -/
structure NewLarge where
  base : Nat
  size : Nat
  alignment : Nat
  deriving DecidableEq, Repr

/-- What the call is going to return. -/
def NewLarge.ptr (k : NewLarge) : Nat := (k.base + headerSpace (raisedAlign k.alignment)) % 2 ^ 64

/-- `la->size`. -/
def NewLarge.total (c : Cfg) (k : NewLarge) : Nat := largeTotal c k.size (raisedAlign k.alignment)

/-- Who walks the list. -/
inductive Walker where
  | free
  | find
  deriving DecidableEq, Repr

/-- Where a thread stands in a call. -/
inductive LargePc where
  | idle
  /-- `large_alloc_aligned`: `os_mmap_aligned` and the header -/
  | map (size alignment : Nat)
  /-- `pthread_mutex_lock(&g_state.large_lock)` -/
  | lock (k : NewLarge)
  /-- `la->next = g_state.large_list` -/
  | setNext (k : NewLarge)
  /-- `la->prev = NULL` -/
  | setPrev (k : NewLarge)
  /-- `if (g_state.large_list) g_state.large_list->prev = la` -/
  | backLink (k : NewLarge)
  /-- `g_state.large_list = la` -/
  | setHead (k : NewLarge)
  /-- `pthread_mutex_unlock(&g_state.large_lock)` -/
  | unlock (k : NewLarge)
  /-- `large_allocated += size` -/
  | addBytes (k : NewLarge)
  /-- `large_alloc_count += 1` -/
  | addCount (k : NewLarge)
  /-- return the pointer (`0` is `NULL`) -/
  | ret (p : Nat)
  /-- `large_free`: `if (!ptr) return` -/
  | enter (x : Nat)
  /-- `large_free` or `large_find`: `pthread_mutex_lock` -/
  | walkLock (w : Walker) (x : Nat)
  /-- `la = g_state.large_list` -/
  | walkHead (w : Walker) (x : Nat)
  /-- does the mapping at `b` contain the pointer? -/
  | walkTest (w : Walker) (x b : Nat)
  /-- `la = la->next` -/
  | walkNext (w : Walker) (x b : Nat)
  /-- the list ended: `pthread_mutex_unlock` -/
  | walkMiss (w : Walker) (x : Nat)
  /-- `large_find` has it: `pthread_mutex_unlock` -/
  | found (x b : Nat)
  /-- `large_find` returns -/
  | answer (b : Option Nat)
  /-- `if (la->prev) la->prev->next = la->next` -/
  | unPrev (x b : Nat)
  /-- `if (la->next) la->next->prev = la->prev` -/
  | unNext (x b : Nat)
  /-- `if (g_state.large_list == la) g_state.large_list = la->next` -/
  | unHead (x b : Nat)
  /-- `user_size = la->user_size`, `mmap_size = la->size` -/
  | sizes (b : Nat)
  /-- `pthread_mutex_unlock` -/
  | freeUnlock (b user total : Nat)
  /-- `large_allocated -= user_size` -/
  | subBytes (b user total : Nat)
  /-- `large_alloc_count -= 1` -/
  | subCount (b total : Nat)
  /-- `os_munmap(la->base, mmap_size)` -/
  | unmap (b total : Nat)
  /-- `large_free` returns -/
  | freed
  deriving DecidableEq, Repr

/-! ## The system -/

/-- The heap, the lock, the threads and the headers that are in the list. -/
structure LargeSys (n : Nat) where
  heap : State
  lock : Option (Fin n) := none
  pcs : Fin n → LargePc := fun _ => .idle
  nodes : List Nat := []

/-- The state `malloc_init` leaves, with `n` threads that have not called yet. -/
def LargeSys.initial (c : Cfg) (n : Nat) : LargeSys n := { heap := State.initial c }

/-- A thread starts a call, or takes the next step of its call, for which the kernel has these
answers ready. -/
inductive LargeAct (n : Nat) where
  | call (t : Fin n) (op : LargeCall)
  | step (t : Fin n) (answers : List (Option Nat))
  deriving DecidableEq, Repr

/-- Write to the header at `b`. -/
def State.editLarge (s : State) (b : Nat) (f : LargeAlloc → LargeAlloc) : Option State :=
  (s.larges b).map fun la => { s with larges := upd s.larges b (some (f la)) }

/-- Write to the header that a link points at, if it points at one. -/
def State.editLink (s : State) (o : Option Nat) (f : LargeAlloc → LargeAlloc) : Option State :=
  match o with
  | some b => s.editLarge b f
  | none => some s

variable {n : Nat}

namespace LargeSys

/-- Thread `t` goes on at `pc`. -/
def goto (σ : LargeSys n) (t : Fin n) (pc : LargePc) : LargeSys n :=
  { σ with pcs := upd σ.pcs t pc }

/-- The same threads over another heap. -/
def onHeap (σ : LargeSys n) (s : State) : LargeSys n := { σ with heap := s }

/-- Thread `t` goes on at `pc` after a write, if the write is possible. -/
def writes (σ : LargeSys n) (t : Fin n) (s : Option State) (pc : LargePc) : Option (LargeSys n) :=
  s.map fun s => (σ.onHeap s).goto t pc

/-- `pthread_mutex_lock(&g_state.large_lock)`. -/
def locks (σ : LargeSys n) (t : Fin n) (pc : LargePc) : Option (LargeSys n) :=
  if σ.lock = none then some ({ σ with lock := some t }.goto t pc) else none

/-- `pthread_mutex_unlock(&g_state.large_lock)`. -/
def unlocks (σ : LargeSys n) (t : Fin n) (pc : LargePc) : LargeSys n :=
  { σ with lock := none }.goto t pc

end LargeSys

/-- A walker follows a link. -/
def LargePc.arrive (w : Walker) (x : Nat) : Option Nat → LargePc
  | some b => .walkTest w x b
  | none => .walkMiss w x

/-- A walker found the mapping. -/
def LargePc.hit (x b : Nat) : Walker → LargePc
  | .free => .unPrev x b
  | .find => .found x b

/-- A walker that found nothing returns. -/
def LargePc.missed : Walker → LargePc
  | .free => .freed
  | .find => .answer none

/-- The header that `large_alloc_aligned` writes; its links are still the zeros of the mapping. -/
def NewLarge.header (c : Cfg) (k : NewLarge) : LargeAlloc :=
  { base := k.base, size := k.total c, userSize := k.size, next := none, prev := none }

/-- Thread `t` takes the next step of its call. -/
def LargeSys.step (c : Cfg) (σ : LargeSys n) (t : Fin n) : Option (LargeSys n) :=
  let s := σ.heap
  match σ.pcs t with
  | .idle => none
  | .map size alignment =>
    let A := raisedAlign alignment
    match osMmapAligned c s (largeTotal c size A) (if A < c.osPage then c.osPage else A) with
    | (base, s) =>
      if base = 0 then some ((σ.onHeap s).goto t (.ret 0))
      else
        let k : NewLarge := ⟨base, size, alignment⟩
        some ((σ.onHeap { s with larges := upd s.larges base (some (k.header c)) }).goto t
          (.lock k))
  | .lock k => σ.locks t (.setNext k)
  | .setNext k =>
    σ.writes t (s.editLarge k.base fun la => { la with next := s.largeList }) (.setPrev k)
  | .setPrev k => σ.writes t (s.editLarge k.base fun la => { la with prev := none }) (.backLink k)
  | .backLink k =>
    σ.writes t (s.editLink s.largeList fun la => { la with prev := some k.base }) (.setHead k)
  | .setHead k =>
    some ({ σ.onHeap { s with largeList := some k.base } with nodes := k.base :: σ.nodes }.goto t
      (.unlock k))
  | .unlock k => some (σ.unlocks t (.addBytes k))
  | .addBytes k =>
    some ((σ.onHeap { s with largeAllocated := (s.largeAllocated + k.size) % 2 ^ 64 }).goto t
      (.addCount k))
  | .addCount k =>
    some ((σ.onHeap { s with largeAllocCount := (s.largeAllocCount + 1) % 2 ^ 64 }).goto t
      (.ret k.ptr))
  | .ret _ | .answer _ | .freed => some (σ.goto t .idle)
  | .enter x => some (σ.goto t (if x = 0 then .freed else .walkLock .free x))
  | .walkLock w x => σ.locks t (.walkHead w x)
  | .walkHead w x => some (σ.goto t (.arrive w x s.largeList))
  | .walkTest w x b =>
    (s.larges b).map fun _ =>
      if largeContains s x b then σ.goto t (.hit x b w) else σ.goto t (.walkNext w x b)
  | .walkNext w x b => (s.larges b).map fun la => σ.goto t (.arrive w x la.next)
  | .walkMiss w _ => some (σ.unlocks t (.missed w))
  | .found _ b => some (σ.unlocks t (.answer (some b)))
  | .unPrev x b =>
    (s.larges b).bind fun la =>
      σ.writes t (s.editLink la.prev fun y => { y with next := la.next }) (.unNext x b)
  | .unNext x b =>
    (s.larges b).bind fun la =>
      σ.writes t (s.editLink la.next fun y => { y with prev := la.prev }) (.unHead x b)
  | .unHead _ b =>
    (s.larges b).map fun la =>
      let head := if s.largeList = some b then la.next else s.largeList
      { σ.onHeap { s with largeList := head } with nodes := σ.nodes.erase b }.goto t (.sizes b)
  | .sizes b => (s.larges b).map fun la => σ.goto t (.freeUnlock b la.userSize la.size)
  | .freeUnlock b user total => some (σ.unlocks t (.subBytes b user total))
  | .subBytes b user total =>
    some ((σ.onHeap { s with largeAllocated := (s.largeAllocated + 2 ^ 64 - user) % 2 ^ 64 }).goto t
      (.subCount b total))
  | .subCount b total =>
    some ((σ.onHeap { s with largeAllocCount := (s.largeAllocCount + 2 ^ 64 - 1) % 2 ^ 64 }).goto t
      (.unmap b total))
  | .unmap b total =>
    (s.larges b).map fun la =>
      let s := osMunmap c s la.base total
      (σ.onHeap { s with larges := upd s.larges b none }).goto t .freed

/-- Where a call starts. -/
def LargeCall.start : LargeCall → LargePc
  | .alloc size alignment => .map size alignment
  | .free x => .enter x
  | .find x => .walkLock .find x

/-- The step function. -/
def LargeSys.act (c : Cfg) (σ : LargeSys n) : LargeAct n → Option (LargeSys n)
  | .call t op => if σ.pcs t = .idle then some (σ.goto t op.start) else none
  | .step t answers => (σ.onHeap (σ.heap.withAnswers answers)).step c t

/-! ## What is seen -/

/-- What a step of a thread at `pc` shows: the return of its call, or nothing. -/
def LargePc.event (t : Fin n) : LargePc → Event (Fin n) LargeCall LargeAnswer
  | .ret p => .ret t (.ptr p)
  | .freed => .ret t .none
  | .answer b => .ret t (.header b)
  | _ => .tau

/-- No size computation of the call wraps. -/
def LargeCall.Fits (c : Cfg) : LargeCall → Prop
  | .alloc size alignment => LargeNoWrap c size alignment
  | .free _ | .find _ => True

instance (c : Cfg) : (op : LargeCall) → Decidable (op.Fits c)
  | .alloc _ _ => inferInstanceAs (Decidable (LargeNoWrap ..))
  | .free _ | .find _ => inferInstanceAs (Decidable True)

/-- The steps of the threads, with what is seen of them. -/
inductive LargeStep (c : Cfg) :
    LargeSys n → Event (Fin n) LargeCall LargeAnswer → LargeSys n → Prop
  | call {σ σ' : LargeSys n} (t : Fin n) (op : LargeCall) (hfit : op.Fits c)
      (he : σ.act c (.call t op) = some σ') : LargeStep c σ (.call t op) σ'
  | step {σ σ' : LargeSys n} (t : Fin n) (answers : List (Option Nat))
      (he : σ.act c (.step t answers) = some σ') : LargeStep c σ ((σ.pcs t).event t) σ'

end CustomMalloc

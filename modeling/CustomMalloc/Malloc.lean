import CustomMalloc.Slab

/-!
# The public API (`malloc.c`)

Every function takes the calling thread `t`. `malloc_ensure_init` has run: the
states start from `State.initial`.
-/

namespace CustomMalloc

open Lib.Words Lib.Bytes

/-- `my_malloc`. -/
def myMalloc (c : Cfg) (s : State) (t size : Nat) : Except Halt (Nat × State) :=
  let size := if size = 0 then 1 else size
  if mediumMax < size then largeAlloc c s size else slabAlloc c s t size

/-- `ptr` points into `g_state.bootstrap_buf`. -/
def inBootstrap (c : Cfg) (ptr : Nat) : Bool :=
  decide (c.bootstrapBuf ≤ ptr) && decide (ptr < c.bootstrapBuf + bootstrapBufSize)

/-- `my_free`. -/
def myFree (c : Cfg) (s : State) (t ptr : Nat) : Except Halt State :=
  if ptr = 0 then .ok s
  else if inBootstrap c ptr then .ok s
  else if ptrToSegment s ptr ≠ 0 then slabFree c s t ptr
  else largeFree c s ptr

/-- `my_calloc`. -/
def myCalloc (c : Cfg) (s : State) (t count size : Nat) : Except Halt (Nat × State) :=
  if 2 ^ 64 ≤ count * size then .ok (0, s)
  else
    let total := if count * size = 0 then 1 else count * size
    if mediumMax < total then largeAlloc c s total
    else do
      let ((p, zeroed), s) ← slabAllocZeroed c s t total
      if p ≠ 0 ∧ zeroed = false then return (p, { s with mem := fillZero s.mem p total })
      else return (p, s)

/-- The moving part of `my_realloc`: allocate, copy what fits, free the old block. -/
def reallocMove (c : Cfg) (s : State) (t ptr oldSize newSize : Nat) :
    Except Halt (Nat × State) := do
  let (q, s) ← myMalloc c s t newSize
  if q = 0 then return (0, s)
  let s := { s with mem := copy s.mem q ptr (if oldSize < newSize then oldSize else newSize) }
  let s ← myFree c s t ptr
  return (q, s)

/-- The large branch of `my_realloc`. -/
def reallocLarge (c : Cfg) (s : State) (t ptr newSize : Nat) : Except Halt (Nat × State) := do
  match ← largeFind s ptr with
  | none => return (0, s)
  | some b =>
    match s.larges b with
    | none => return (0, s)
    | some la =>
      if newSize ≤ la.size - (ptr - la.base) then
        -- fits in the existing mapping
        return (ptr, { s with larges := upd s.larges b (some { la with userSize := newSize }) })
      else reallocMove c s t ptr la.userSize newSize

/-- `my_realloc`. -/
def myRealloc (c : Cfg) (s : State) (t ptr newSize : Nat) : Except Halt (Nat × State) := do
  if ptr = 0 then myMalloc c s t newSize
  else if newSize = 0 then
    let s ← myFree c s t ptr
    return (0, s)
  else if inBootstrap c ptr then
    let (q, s) ← myMalloc c s t newSize
    if q = 0 then return (0, s)
    else return (q, { s with mem := copy s.mem q ptr newSize })
  else
    match ptrToPage s ptr with
    | some r =>
      let p := s.pages r
      if newSize ≤ p.slotSize ∧ sizeToBin sizeTables newSize = p.binIdx then return (ptr, s)
      else reallocMove c s t ptr p.slotSize newSize
    | none => reallocLarge c s t ptr newSize

/-- `my_memalign`. -/
def myMemalign (c : Cfg) (s : State) (t alignment size : Nat) : Except Halt (Nat × State) :=
  if alignment = 0 ∨ alignment &&& (alignment - 1) ≠ 0 then .ok (0, s)
  else if alignment ≤ minAlign then myMalloc c s t size
  else if mediumMax < size ∨ pageSizeAlloc < alignment then
    largeAllocAligned c s size alignment
  else
    let allocSize := if size < alignment then alignment else size
    let allocSize := alignUp64 alignment allocSize
    if mediumMax < allocSize then largeAllocAligned c s size alignment
    else slabAlloc c s t allocSize

/-- The error codes of `my_posix_memalign`. -/
inductive Errno where
  | einval
  | enomem
  deriving DecidableEq, Repr

/-- `my_posix_memalign`: the pointer stored in `*memptr`, or the error. -/
def myPosixMemalign (c : Cfg) (s : State) (t alignment size : Nat) :
    Except Halt (Except Errno Nat × State) := do
  if alignment < 8 ∨ alignment &&& (alignment - 1) ≠ 0 then return (.error .einval, s)
  let (p, s) ← myMemalign c s t alignment size
  if p = 0 then return (.error .enomem, s) else return (.ok p, s)

/-- `my_valloc`. -/
def myValloc (c : Cfg) (s : State) (t size : Nat) : Except Halt (Nat × State) :=
  myMemalign c s t c.osPage size

/-- `my_malloc_usable_size`. -/
def myMallocUsableSize (s : State) (ptr : Nat) : Except Halt Nat :=
  if ptr = 0 then .ok 0
  else
    match ptrToPage s ptr with
    | some r => .ok (s.pages r).slotSize
    | none => largeUsableSize s ptr

end CustomMalloc

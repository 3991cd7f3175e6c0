import CustomMalloc.Large
import CustomMalloc.Arena

/-!
# Start-up (`init.c`)

Until `malloc_init` has run, `tld_get` takes its memory from a static buffer;
`Boot` is the allocator together with the two fields of `g_state` this needs. The
rest of the model starts where `malloc_init` ends, which is `State.initial`.
-/

namespace CustomMalloc

open Lib.Words

/-- `sizeof(tld_t)`: the arena, the id, 75 cached pages and five counters. -/
def tldSize : Nat := 656

/-- The allocator from the start of the program on. -/
structure Boot where
  heap : State
  /-- `malloc_is_initialized()` -/
  ready : Bool
  /-- `g_state.bootstrap_used` -/
  bootstrapUsed : Nat

/-- `g_state` as the loader leaves it: all zero. -/
def Boot.start (c : Cfg) : Boot := ⟨State.initial c, false, 0⟩

/-- `bootstrap_alloc`; the result `0` is `NULL`. -/
def bootstrapAlloc (c : Cfg) (β : Boot) (size : Nat) : Nat × Boot :=
  let size := alignUp64 minAlign size
  let offset := β.bootstrapUsed
  let β := { β with bootstrapUsed := (offset + size) % 2 ^ 64 }
  if bootstrapBufSize < (offset + size) % 2 ^ 64 then (0, β) else (c.bootstrapBuf + offset, β)

/-- `tld_get`, before and after `malloc_init`. -/
def bootTldGet (c : Cfg) (β : Boot) (t : Nat) : Option Tld × Boot :=
  match β.heap.tls t with
  | some tld => (some tld, β)
  | none =>
    if β.ready then
      match tldGet c β.heap t with
      | (tld, s) => (tld, { β with heap := s })
    else
      match bootstrapAlloc c β tldSize with
      | (addr, β) =>
        if addr = 0 then (none, β)
        else
          let tld : Tld := { addr := addr, threadId := β.heap.threadIdCounter }
          (some tld, { β with heap := { β.heap with
            tls := upd β.heap.tls t (some tld)
            threadIdCounter := (β.heap.threadIdCounter + 1) % 2 ^ 32 } })

/-- `malloc_init`. The size class tables are constants of the model. -/
def mallocInit (β : Boot) : Boot :=
  if β.ready then β
  else
    { heap := { β.heap with
        segmentRegistry := fun _ => 0
        arenas := fun a => if a < numArenas then {} else β.heap.arenas a
        arenaNext := 0
        largeList := none }
      ready := true
      bootstrapUsed := 0 }

end CustomMalloc

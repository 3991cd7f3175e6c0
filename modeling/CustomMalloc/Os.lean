import CustomMalloc.Types

/-!
# The OS layer (`os.c`)

`mmap` and `munmap` are the kernel. The kernel may refuse; what it may not do is
hand out memory that is not page aligned, that overlaps something still mapped
or whose end is not an address (C lets a pointer stand one past the end), so an
answer of that kind counts as a refusal. Lengths are rounded up to whole OS
pages, a mapping of length 0 fails, fresh memory reads as zero, and `munmap`
wants an aligned start.

`osMmapAligned` over-allocates and trims. Its three sums wrap at `2 ^ 64` as in
C.
-/

namespace CustomMalloc

open Lib.Words Lib.Bytes Lib.Intervals

/-- The kernel rounds a length up to whole OS pages. -/
def roundPage (c : Cfg) (len : Nat) : Nat := alignUp c.osPage len

/-- The kernel can map `len` bytes at `a`. -/
def canMap (c : Cfg) (s : State) (a len : Nat) : Bool :=
  decide (0 < len) && decide (a % c.osPage = 0) && decide (a + roundPage c len < 2 ^ 64) &&
    !overlaps s.mapped a (a + roundPage c len)

/-- `mmap(NULL, len, ...)`; `none` is `MAP_FAILED`. -/
def mmap (c : Cfg) (s : State) (len : Nat) : Option Nat × State :=
  match s.answers with
  | [] => (none, s)
  | none :: rest => (none, { s with answers := rest })
  | some a :: rest =>
    if canMap c s a len then
      (some a, { s with
        answers := rest
        mapped := (a, a + roundPage c len) :: s.mapped
        mem := fillZero s.mem a (roundPage c len) })
    else (none, { s with answers := rest })

/-- What `munmap(a, len)` leaves of the mapped intervals. -/
def unmapRange (c : Cfg) (mapped : List (Nat × Nat)) (a len : Nat) : List (Nat × Nat) :=
  if 0 < len ∧ a % c.osPage = 0 then remove mapped a (a + roundPage c len) else mapped

/-- `munmap(a, len)`. -/
def munmap (c : Cfg) (s : State) (a len : Nat) : State :=
  { s with mapped := unmapRange c s.mapped a len }

/-- Add to `g_state.mmap_bytes`. -/
def State.addMmapBytes (s : State) (n : Nat) : State :=
  { s with mmapBytes := (s.mmapBytes + n) % 2 ^ 64 }

/-- `os_mmap_aligned`; the result `0` is `NULL`. -/
def osMmapAligned (c : Cfg) (s : State) (size alignment : Nat) : Nat × State :=
  if alignment ≤ c.osPage then
    match mmap c s size with
    | (none, s) => (0, s)
    | (some p, s) => (p, s.addMmapBytes size)
  else
    let extra := (size + alignment - 1) % 2 ^ 64
    match mmap c s extra with
    | (none, s) => (0, s)
    | (some addr, s) =>
      let aligned := alignUp64 alignment addr
      -- trim leading waste
      let s := if addr < aligned then munmap c s addr (aligned - addr) else s
      -- trim trailing waste
      let stop := (aligned + size) % 2 ^ 64
      let baseEnd := (addr + extra) % 2 ^ 64
      let s := if stop < baseEnd then munmap c s stop (baseEnd - stop) else s
      (aligned, s.addMmapBytes size)

/-- `os_munmap`. -/
def osMunmap (c : Cfg) (s : State) (addr size : Nat) : State :=
  if addr ≠ 0 ∧ 0 < size then
    let s := munmap c s addr size
    { s with mmapBytes := (s.mmapBytes + 2 ^ 64 - size) % 2 ^ 64 }
  else s

end CustomMalloc

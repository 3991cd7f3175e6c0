import Mathlib.Algebra.Order.Ring.Nat

/-!
# Constants and build parameters (`malloc_config.h`)

The compile-time constants keep the header's words. `Cfg` collects what the
build and the platform fix for a whole run: the OS page size, the address of
`g_state.bootstrap_buf` in the data segment, and whether the library was built
with `MALLOC_DEBUG`.
-/

namespace CustomMalloc

/-- `SEGMENT_SIZE`: a segment is a 4 MB aligned mapping. -/
def segmentSize : Nat := 4194304

/-- `PAGE_SIZE_ALLOC`: a logical page is 64 KB. -/
def pageSizeAlloc : Nat := 65536

/-- `PAGES_PER_SEGMENT`; page 0 is the segment header. -/
def pagesPerSegment : Nat := 64

/-- `PAGES_DATA_START`. -/
def pagesDataStart : Nat := 1

/-- `SMALL_MAX`. -/
def smallMax : Nat := 128

/-- `MEDIUM_MAX`, also `LARGE_THRESHOLD`: 128 KB. -/
def mediumMax : Nat := 131072

/-- `SMALL_BIN_COUNT`. -/
def smallBinCount : Nat := 16

/-- `BIN_COUNT`. -/
def binCount : Nat := 75

/-- `SEGMENT_REGISTRY_SIZE`. -/
def segmentRegistrySize : Nat := 256

/-- `MIN_ALIGN`. -/
def minAlign : Nat := 16

/-- `BOOTSTRAP_BUF_SIZE`. -/
def bootstrapBufSize : Nat := 65536

/-- `STAT_FLUSH_INTERVAL`. -/
def statFlushInterval : Nat := 64

/-- `LARGE_HEADER_SIZE`: the five words of `large_alloc_t`, rounded up to `MIN_ALIGN`. -/
def largeHeaderSize : Nat := 48

/-- `UINT32_MAX`, the `owner_tid` of a page without an owner. -/
def noOwner : Nat := 4294967295

/-- The number of arenas `malloc_init` creates. -/
def numArenas : Nat := 4

/-- What is fixed for a whole run. `getpagesize` returns an `int`, so its value
is a power of two below `2 ^ 31`. -/
structure Cfg where
  /-- log2 of `getpagesize()` -/
  pageShift : Nat
  pageShift_lt : pageShift < 31
  /-- address of `g_state.bootstrap_buf` -/
  bootstrapBuf : Nat
  bootstrap_fits : bootstrapBuf + bootstrapBufSize ≤ 2 ^ 64
  /-- `MALLOC_DEBUG` -/
  debug : Bool

/-- `os_page_size()`. -/
def Cfg.osPage (c : Cfg) : Nat := 2 ^ c.pageShift

theorem Cfg.osPage_pos (c : Cfg) : 0 < c.osPage := Nat.two_pow_pos _

theorem Cfg.osPage_le (c : Cfg) : c.osPage ≤ 2 ^ 30 :=
  Nat.pow_le_pow_right (by decide) (Nat.le_of_lt_succ c.pageShift_lt)

/-- A platform with 4 KB pages; the runs that are written out use it. -/
def Cfg.page4k (debug : Bool) : Cfg where
  pageShift := 12
  pageShift_lt := by decide
  bootstrapBuf := 0x600000
  bootstrap_fits := by decide
  debug := debug

end CustomMalloc

-- The page allocator of alloc.c. The bitmap and the headers of the blocks are
-- bytes of the memory that the clients write to.
import Vibeos.Bitmap

namespace vibeos.alloc

open vibeos.Mem

/-- Where the linker put the heap, and which board the kernel is built for. -/
class HeapConfig where
  HEAP_START : Nat
  HEAP_SIZE : Nat
  FPGA_MINIMAL : Bool
  aligned : HEAP_START % 4096 = 0
  start_pos : 0 < HEAP_START
  -- the application region lies above the heap
  fits : HEAP_START + HEAP_SIZE + 4096 ≤ 2 ^ 32

export HeapConfig (HEAP_START HEAP_SIZE FPGA_MINIMAL)

def PAGE_SIZE : Nat := 4096
def PAGE_ORDER : Nat := 12
def PAGE_MASK : Nat := PAGE_SIZE - 1
def ALLOC_HEADER_SIZE : Nat := 16
def ALLOC_MAGIC : Nat := 0x4d415030

def FPGA_USB_DMA_CPU_BASE : Nat := 0x851da000
def FPGA_USB_DMA_CPU_SIZE : Nat := 0x00010000
def FPGA_MINIMAL_HEAP_SIZE : Nat := 32 * 1024 * 1024

structure AllocHeader where
  magic : Nat
  npages : Nat
  req_size : Nat
  reserved : Nat
deriving DecidableEq

def header (m : Mem) (a : Nat) : AllocHeader where
  magic := readLE m a 4
  npages := readLE m (a + 4) 4
  req_size := readLE m (a + 8) 4
  reserved := readLE m (a + 12) 4

def set_header (m : Mem) (a : Nat) (hdr : AllocHeader) : Mem :=
  writeLE (writeLE (writeLE (writeLE m a 4 hdr.magic) (a + 4) 4 hdr.npages)
    (a + 8) 4 hdr.req_size) (a + 12) 4 hdr.reserved

/-- The memory and the static variables of the allocator. -/
structure Heap where
  mem : Mem
  alloc_start : Nat
  alloc_end : Nat
  heap_total_pages : Nat
  alloc_pages : Nat
  bitmap_bytes : Nat
  bitmap : Nat
  malloc_calls : Nat
  free_calls : Nat

def align_page (address : Nat) : Nat := (address + PAGE_MASK) / PAGE_SIZE * PAGE_SIZE

section Pages

variable [HeapConfig]

def page_index_from_addr (address : Nat) : Nat := (address - HEAP_START) >>> PAGE_ORDER

def page_is_used (s : Heap) (page_index : Nat) : Bool := Bitmap.test s.mem s.bitmap page_index

/-- `_reserve_page_range`, for the bitmap at `HEAP_START`. -/
def reserve_page_range (m : Mem) (alloc_end start stop : Nat) : Mem :=
  if stop ≤ start ∨ alloc_end ≤ HEAP_START then m
  else
    let s := start / PAGE_SIZE * PAGE_SIZE
    let e := align_page stop
    if e ≤ HEAP_START ∨ s ≥ alloc_end then m
    else
      let s := if s < HEAP_START then HEAP_START else s
      let e := if e > alloc_end then alloc_end else e
      let first := (s - HEAP_START) >>> PAGE_ORDER
      let last := (e - HEAP_START) >>> PAGE_ORDER
      Bitmap.setFrom m HEAP_START first (last - first)

def pages_for_size (size : Nat) : Nat := ((size + PAGE_SIZE - 1) % 2 ^ 32) >>> PAGE_ORDER

/-- The bytes that the allocator manages: the smaller board caps them. -/
def heap_size : Nat :=
  if FPGA_MINIMAL ∧ HEAP_SIZE > FPGA_MINIMAL_HEAP_SIZE then FPGA_MINIMAL_HEAP_SIZE else HEAP_SIZE

/-- `page_init`, `none` when it stops the machine. -/
def page_init (m : Mem) : Option Heap :=
  let total_pages := heap_size / PAGE_SIZE
  let bitmap_bytes := (total_pages + 7) / 8
  let alloc_start := align_page (HEAP_START + bitmap_bytes)
  let alloc_end := HEAP_START + total_pages * PAGE_SIZE
  let alloc_pages := (alloc_end - alloc_start) / PAGE_SIZE
  if alloc_start ≥ alloc_end ∨ alloc_pages = 0 then none
  else
    let first_page := (alloc_start - HEAP_START) / PAGE_SIZE
    let m := fill m HEAP_START 0xff bitmap_bytes
    let m := Bitmap.clearFrom m HEAP_START first_page (total_pages - first_page)
    let m :=
      if FPGA_MINIMAL then
        reserve_page_range m alloc_end FPGA_USB_DMA_CPU_BASE
          (FPGA_USB_DMA_CPU_BASE + FPGA_USB_DMA_CPU_SIZE)
      else m
    some { mem := m
           alloc_start := alloc_start
           alloc_end := alloc_end
           heap_total_pages := total_pages
           alloc_pages := alloc_pages
           bitmap_bytes := bitmap_bytes
           bitmap := HEAP_START
           malloc_calls := 0
           free_calls := 0 }

def first_page (s : Heap) : Nat := (s.alloc_start - HEAP_START) / PAGE_SIZE

def last_page (s : Heap) : Nat := first_page s + s.alloc_pages

/-! ## `malloc` -/

/-- The inner loop of `malloc`: the first used page among the `n` pages from `page + j` on,
counted from `page`. -/
def first_used (s : Heap) (page j : Nat) : Nat → Option Nat
  | 0 => none
  | n + 1 => if page_is_used s (page + j) then some j else first_used s page (j + 1) n

/-- The outer loop of `malloc`. The page grows in each round, so that `alloc_pages + 1` rounds
are enough. -/
def find_pages (s : Heap) (npages : Nat) : Nat → Nat → Option Nat
  | 0, _ => none
  | rounds + 1, page =>
    if page + npages ≤ last_page s then
      match first_used s page 0 npages with
      | none => some page
      | some j => find_pages s npages rounds (page + j + 1)
    else none

/-- The pages are marked and the header is written. -/
def take_pages (s : Heap) (page npages size : Nat) : Heap :=
  { s with mem := set_header (Bitmap.setFrom s.mem s.bitmap page npages)
             (HEAP_START + page * PAGE_SIZE) ⟨ALLOC_MAGIC, npages, size, 0⟩ }

def malloc (s : Heap) (size : Nat) : Nat × Heap :=
  let s := { s with malloc_calls := (s.malloc_calls + 1) % 2 ^ 32 }
  let size := if size = 0 then 1 else size
  if size > 0xffffffff - ALLOC_HEADER_SIZE then (0, s)
  else
    let npages := pages_for_size (size + ALLOC_HEADER_SIZE)
    if npages = 0 ∨ npages > s.alloc_pages then (0, s)
    else
      match find_pages s npages (s.alloc_pages + 1) (first_page s) with
      | none => (0, s)
      | some page =>
        (HEAP_START + page * PAGE_SIZE + ALLOC_HEADER_SIZE, take_pages s page npages size)

/-! ## `free` -/

/-- The loop of `free`. It reads `hdr->npages` again in each round. -/
def clear_pages (bitmap hdr start_page : Nat) : Nat → Nat → Mem → Mem
  | 0, _, m => m
  | rounds + 1, i, m =>
    if i < (header m hdr).npages then
      clear_pages bitmap hdr start_page rounds (i + 1)
        (Bitmap.clear m bitmap ((start_page + i) % 2 ^ 32))
    else m

def free (s : Heap) (p : Nat) : Heap :=
  let s := { s with free_calls := (s.free_calls + 1) % 2 ^ 32 }
  if p = 0 then s
  else if p < HEAP_START + ALLOC_HEADER_SIZE ∨ p ≥ s.alloc_end then s
  else
    let hdr := p - ALLOC_HEADER_SIZE
    if (header s.mem hdr).magic ≠ ALLOC_MAGIC then s
    else if hdr < s.alloc_start ∨ hdr ≥ s.alloc_end then s
    else if (hdr - s.alloc_start) &&& PAGE_MASK ≠ 0 then s
    else
      let start_page := page_index_from_addr hdr
      if start_page < first_page s ∨ start_page ≥ last_page s then s
      else if (start_page + (header s.mem hdr).npages) % 2 ^ 32 > last_page s ∨
          (header s.mem hdr).npages = 0 then s
      else
        let m := clear_pages s.bitmap hdr start_page (2 ^ 32) 0 s.mem
        { s with mem := set_header m hdr ⟨0, 0, 0, 0⟩ }

end Pages

end vibeos.alloc

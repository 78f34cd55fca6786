-- The blocks of the kernel heap. The clients hold the blocks that `malloc` gave them
-- and write inside of them, and the bitmap says at any time which pages they have.
import Vibeos.KernelHeap
import Mathlib.Data.List.Pairwise

namespace vibeos.alloc

open vibeos.Mem

/-! ## Headers -/

def AllocHeader.Fits (h : AllocHeader) : Prop :=
  h.magic < 2 ^ 32 ∧ h.npages < 2 ^ 32 ∧ h.req_size < 2 ^ 32 ∧ h.reserved < 2 ^ 32

theorem sameOutside_set_header (m : Mem) (a : Nat) (h : AllocHeader) :
    SameOutside a (a + ALLOC_HEADER_SIZE) m (set_header m a h) := by
  unfold set_header ALLOC_HEADER_SIZE
  intro x hx
  rw [writeLE_out (by omega), writeLE_out (by omega), writeLE_out (by omega),
    writeLE_out (by omega)]

theorem header_set_header (m : Mem) (a : Nat) {h : AllocHeader} (hfits : h.Fits) :
    header (set_header m a h) a = h := by
  obtain ⟨h1, h2, h3, h4⟩ := hfits
  unfold header set_header
  rw [readLE_writeLE_out (by omega), readLE_writeLE_out (by omega),
    readLE_writeLE_out (by omega), readLE_writeLE_of_lt (by omega),
    readLE_writeLE_out (by omega), readLE_writeLE_out (by omega), readLE_writeLE_of_lt (by omega),
    readLE_writeLE_out (by omega), readLE_writeLE_of_lt (by omega),
    readLE_writeLE_of_lt (by omega)]

theorem header_eq_of_bytes {m m' : Mem} {a : Nat}
    (h : ∀ x, a ≤ x → x < a + ALLOC_HEADER_SIZE → m' x = m x) : header m' a = header m a := by
  unfold ALLOC_HEADER_SIZE at h
  unfold header
  rw [readLE_congr fun i hi => h _ (by omega) (by omega),
    readLE_congr fun i hi => h _ (by omega) (by omega),
    readLE_congr fun i hi => h _ (by omega) (by omega),
    readLE_congr fun i hi => h _ (by omega) (by omega)]

theorem header_congr {m m' : Mem} {lo hi a : Nat} (h : SameOutside lo hi m m')
    (ha : a + ALLOC_HEADER_SIZE ≤ lo ∨ hi ≤ a) : header m' a = header m a :=
  header_eq_of_bytes fun x _ _ => h x (by omega)

/-! ## The static variables -/

theorem align_page_spec (a : Nat) :
    a ≤ align_page a ∧ align_page a < a + PAGE_SIZE ∧ align_page a % PAGE_SIZE = 0 := by
  unfold align_page PAGE_MASK PAGE_SIZE
  omega

theorem test_fresh_bitmap (m : Mem) (base first : Nat) {total k page : Nat} (hpage : page < total)
    (hk : total ≤ 8 * k) :
    Bitmap.test (Bitmap.clearFrom (fill m base 0xff k) base first (total - first)) base page =
      true ↔ page < first := by
  have hones : Bitmap.test (fill m base 0xff k) base page = true :=
    Bitmap.test_of_ones (patch_add (by omega))
  rw [Bitmap.test_clearFrom, hones, Bool.and_true, Bool.not_eq_true', decide_eq_false_iff_not]
  omega

theorem room_of_pages {n : Nat} (h : n < 2 ^ 32) (hpages : pages_for_size n ≠ 0) :
    n ≤ pages_for_size n * PAGE_SIZE := by
  unfold pages_for_size PAGE_ORDER PAGE_SIZE at *
  rw [Nat.shiftRight_eq_div_pow] at *
  omega

theorem unused_of_first_used_none {s : Heap} {page j n : Nat}
    (h : first_used s page j n = none) {i : Nat} (hj : j ≤ i) (hn : i < j + n) :
    page_is_used s (page + i) = false := by
  induction n generalizing j with
  | zero => omega
  | succ n ih =>
    unfold first_used at h
    split at h
    · exact nomatch h
    · rename_i hfree
      rcases Nat.eq_or_lt_of_le hj with rfl | hlt
      · exact Bool.eq_false_of_not_eq_true hfree
      · exact ih h hlt (by omega)

theorem clear_pages_eq {bitmap hdr start k n rounds i : Nat} {m : Mem}
    (hn : (header m hdr).npages = n) (hrounds : n ≤ i + rounds) (hbits : start + n ≤ 8 * k)
    (hfits : start + n < 2 ^ 32) (hhdr : bitmap + k ≤ hdr) (hi : i ≤ n) :
    clear_pages bitmap hdr start rounds i m = Bitmap.clearFrom m bitmap (start + i) (n - i) := by
  induction rounds generalizing i m with
  | zero =>
    rw [clear_pages, (by omega : n - i = 0)]
    rfl
  | succ rounds ih =>
    rw [clear_pages, hn]
    split
    · rename_i hlt
      have hframe : SameOutside bitmap (bitmap + k) m (Bitmap.clear m bitmap (start + i)) :=
        Bitmap.sameOutside_clear (by omega)
      rw [Nat.mod_eq_of_lt (by omega), ih (by rw [header_congr hframe (Or.inr hhdr), hn])
        (by omega) (by omega), (by omega : n - i = n - (i + 1) + 1)]
      rfl
    · rw [(by omega : n - i = 0)]
      rfl

section World

variable [HeapConfig]

/-- Pages that `page_init` keeps from the clients: those of the USB buffers on the smaller
board. -/
def Reserved (page : Nat) : Prop :=
  FPGA_MINIMAL = true ∧ HEAP_START + page * PAGE_SIZE < FPGA_USB_DMA_CPU_BASE + FPGA_USB_DMA_CPU_SIZE ∧
    FPGA_USB_DMA_CPU_BASE < HEAP_START + (page + 1) * PAGE_SIZE

/-- The pool of pages lies behind the bitmap and has its end in the address space. -/
structure Layout (s : Heap) : Prop where
  bitmap : s.bitmap = HEAP_START
  start : s.alloc_start = HEAP_START + first_page s * PAGE_SIZE
  stop : s.alloc_end = HEAP_START + last_page s * PAGE_SIZE
  bits : last_page s ≤ 8 * s.bitmap_bytes
  behind : HEAP_START + s.bitmap_bytes ≤ s.alloc_start
  total : s.heap_total_pages = last_page s
  fits : s.alloc_end < 2 ^ 32

theorem layout_page_init {m : Mem} {s : Heap} (h : page_init m = some s) : Layout s := by
  unfold page_init at h
  have haligned := HeapConfig.aligned
  have hfits := HeapConfig.fits
  have hsize : heap_size ≤ HEAP_SIZE := by
    unfold heap_size
    split <;> omega
  obtain ⟨hle, _, hmod⟩ := align_page_spec (HEAP_START + (heap_size / PAGE_SIZE + 7) / 8)
  simp only [Option.ite_none_left_eq_some, Option.some.injEq] at h
  obtain ⟨hsome, rfl⟩ := h
  generalize align_page (HEAP_START + (heap_size / PAGE_SIZE + 7) / 8) = start at *
  unfold PAGE_SIZE at *
  constructor <;> simp only [last_page, first_page, PAGE_SIZE] <;> omega

theorem test_reserve_page_range {m : Mem} {last start stop page : Nat} (hpage : page < last)
    (hrange : start < stop) :
    Bitmap.test (reserve_page_range m (HEAP_START + last * PAGE_SIZE) start stop) HEAP_START page =
        true ↔
      (HEAP_START + page * PAGE_SIZE < stop ∧ start < HEAP_START + (page + 1) * PAGE_SIZE) ∨
        Bitmap.test m HEAP_START page = true := by
  have haligned := HeapConfig.aligned
  obtain ⟨hle, hlt, hmod⟩ := align_page_spec stop
  unfold reserve_page_range
  simp only [PAGE_ORDER, Nat.shiftRight_eq_div_pow]
  generalize align_page stop = e at *
  unfold PAGE_SIZE at *
  rw [if_neg (by omega)]
  by_cases hmeet : e ≤ HEAP_START ∨ start / 4096 * 4096 ≥ HEAP_START + last * 4096
  · rw [if_pos hmeet, or_iff_right (by omega)]
  · rw [if_neg hmeet, Bitmap.test_setFrom, Bool.or_eq_true, decide_eq_true_eq]
    refine or_congr_left ?_
    split <;> split <;> omega

theorem used_page_init {m : Mem} {s : Heap} (h : page_init m = some s) {page : Nat}
    (hpage : page < last_page s) :
    page_is_used s page = true ↔ page < first_page s ∨ Reserved page := by
  rw [← (layout_page_init h).total] at hpage
  unfold page_init at h
  simp only [Option.ite_none_left_eq_some, Option.some.injEq] at h
  obtain ⟨-, rfl⟩ := h
  have hfresh := test_fresh_bitmap m HEAP_START
    ((align_page (HEAP_START + (heap_size / PAGE_SIZE + 7) / 8) - HEAP_START) / PAGE_SIZE)
    hpage (by omega : heap_size / PAGE_SIZE ≤ 8 * ((heap_size / PAGE_SIZE + 7) / 8))
  unfold page_is_used Reserved
  dsimp only [first_page]
  split
  · rename_i hfpga
    rw [test_reserve_page_range hpage (by decide), hfresh, or_comm]
    simp only [hfpga, true_and]
  · rename_i hfpga
    rw [hfresh]
    exact (or_iff_left fun hres => hfpga hres.1).symm

theorem frame_reserve_page_range {m : Mem} {last k start stop : Nat} (hk : last ≤ 8 * k) :
    SameOutside HEAP_START (HEAP_START + k) m
      (reserve_page_range m (HEAP_START + last * PAGE_SIZE) start stop) := by
  unfold reserve_page_range
  simp only [PAGE_ORDER, Nat.shiftRight_eq_div_pow]
  split
  · exact SameOutside.refl _ _ m
  · split
    · exact SameOutside.refl _ _ m
    · apply Bitmap.sameOutside_setFrom
      unfold PAGE_SIZE at *
      split <;> split <;> omega

theorem frame_page_init {m : Mem} {s : Heap} (h : page_init m = some s) :
    SameOutside HEAP_START (HEAP_START + s.bitmap_bytes) m s.mem := by
  have hfirst : first_page s ≤ last_page s := Nat.le_add_right _ _
  rw [← (layout_page_init h).total] at hfirst
  unfold page_init at h
  simp only [Option.ite_none_left_eq_some, Option.some.injEq] at h
  obtain ⟨-, rfl⟩ := h
  dsimp only [first_page] at hfirst ⊢
  have hbits : heap_size / PAGE_SIZE ≤ 8 * ((heap_size / PAGE_SIZE + 7) / 8) := by omega
  have hfill : SameOutside HEAP_START (HEAP_START + (heap_size / PAGE_SIZE + 7) / 8) m
      (fill m HEAP_START 0xff ((heap_size / PAGE_SIZE + 7) / 8)) :=
    SameOutside.of_patch (Or.inr (by omega))
  apply hfill.trans
  split
  · apply SameOutside.trans (Bitmap.sameOutside_clearFrom _) (frame_reserve_page_range hbits)
    omega
  · apply Bitmap.sameOutside_clearFrom
    omega

/-! ## The client and the heap -/

def req_size (size : Nat) : Nat := if size = 0 then 1 else size

/-- A block that a client holds: the pointer it got and the size it asked for. -/
structure Block where
  ptr : Nat
  size : Nat
deriving DecidableEq

namespace Block

def start (b : Block) : Nat := b.ptr - ALLOC_HEADER_SIZE

def page (b : Block) : Nat := page_index_from_addr b.start

/-- The pages that `malloc` takes for the size. -/
def npages (b : Block) : Nat := pages_for_size (req_size b.size + ALLOC_HEADER_SIZE)

def stop (b : Block) : Nat := b.start + b.npages * PAGE_SIZE

def Has (b : Block) (page : Nat) : Prop := b.page ≤ page ∧ page < b.page + b.npages

end Block

/-- The heap and the blocks that the clients hold. -/
structure World where
  heap : Heap
  live : List Block

/-- A call of a client, or its write of `n` bytes. -/
inductive Act where
  | malloc (size : UInt32)
  | free (p : UInt32)
  | write (a n : Nat) (bytes : Nat → UInt8)

def World.step (w : World) : Act → World
  | .malloc size =>
    let r := malloc w.heap size.toNat
    ⟨r.2, if r.1 = 0 then w.live else ⟨r.1, size.toNat⟩ :: w.live⟩
  | .free p => ⟨free w.heap p.toNat, w.live.filter fun b => b.ptr ≠ p.toNat⟩
  | .write a n bytes => ⟨{ w.heap with mem := patch w.heap.mem a n bytes }, w.live⟩

/-- A client writes inside a block that it holds. -/
def World.Owns (w : World) (a n : Nat) : Prop := ∃ b ∈ w.live, b.ptr ≤ a ∧ a + n ≤ b.stop

def World.Live (w : World) (p : Nat) : Prop := ∃ b ∈ w.live, b.ptr = p

/-- The memory has `ALLOC_MAGIC` where a block that begins at `p` has its header. -/
def HeaderAt (s : Heap) (p : Nat) : Prop :=
  s.alloc_start + ALLOC_HEADER_SIZE ≤ p ∧ p < s.alloc_end ∧
    (p - ALLOC_HEADER_SIZE - s.alloc_start) % PAGE_SIZE = 0 ∧
    (header s.mem (p - ALLOC_HEADER_SIZE)).magic = ALLOC_MAGIC

/-- Worlds that acts with a law reach from `page_init`. -/
inductive Reaches (ok : World → Act → Prop) (m : Mem) : World → Prop where
  | init {s : Heap} : page_init m = some s → Reaches ok m ⟨s, []⟩
  | step {w : World} (a : Act) : Reaches ok m w → ok w a → Reaches ok m (w.step a)

/-- Clients write inside their blocks. -/
def InBlocks (w : World) : Act → Prop
  | .write a n _ => w.Owns a n
  | _ => True

/-- A pointer that a client frees is that of a block, or has no header in front of it. -/
def Careful (w : World) (a : Act) : Prop :=
  InBlocks w a ∧ ∀ p, a = .free p → w.Live p.toNat ∨ ¬ HeaderAt w.heap p.toNat

/-- No write of a client makes a header. -/
def Clean (w : World) (a : Act) : Prop :=
  InBlocks w a ∧ ∀ x n bytes, a = .write x n bytes →
    ∀ p, HeaderAt (w.step a).heap p → HeaderAt w.heap p

/-- `free` counts the call and changes nothing else. -/
def Ignores (w : World) (p : UInt32) : Prop :=
  w.step (.free p) =
    ⟨{ w.heap with free_calls := (w.heap.free_calls + 1) % 2 ^ 32 }, w.live⟩

/-- What the heap promises its clients. -/
structure Safe (w : World) : Prop where
  disjoint : w.live.Pairwise fun b c => b.stop ≤ c.start ∨ c.stop ≤ b.start
  inside : ∀ b ∈ w.live, w.heap.alloc_start ≤ b.start ∧ b.stop ≤ w.heap.alloc_end
  aligned : ∀ b ∈ w.live, b.start % PAGE_SIZE = 0
  large : ∀ b ∈ w.live, b.ptr + b.size ≤ b.stop
  used : ∀ page, first_page w.heap ≤ page → page < last_page w.heap →
    (page_is_used w.heap page = true ↔ Reserved page ∨ ∃ b ∈ w.live, b.Has page)

/-! ## What `malloc` does -/

theorem find_pages_spec {s : Heap} {npages rounds page q : Nat}
    (h : find_pages s npages rounds page = some q) :
    page ≤ q ∧ q + npages ≤ last_page s ∧ ∀ i < npages, page_is_used s (q + i) = false := by
  induction rounds generalizing page with
  | zero => exact nomatch h
  | succ rounds ih =>
    unfold find_pages at h
    split at h
    · rename_i hfit
      split at h
      · rename_i hnone
        obtain rfl : page = q := Option.some.inj h
        refine ⟨Nat.le_refl page, hfit, fun i hi => ?_⟩
        exact unused_of_first_used_none hnone (Nat.zero_le i) (by omega)
      · obtain ⟨hle, hlast, hfree⟩ := ih h
        exact ⟨by omega, hlast, hfree⟩
    · exact nomatch h

theorem malloc_spec (s : Heap) (size : Nat) :
    malloc s size = (0, { s with malloc_calls := (s.malloc_calls + 1) % 2 ^ 32 }) ∨
      ∃ page n, n = pages_for_size (req_size size + ALLOC_HEADER_SIZE) ∧
        malloc s size = (HEAP_START + page * PAGE_SIZE + ALLOC_HEADER_SIZE,
          take_pages { s with malloc_calls := (s.malloc_calls + 1) % 2 ^ 32 } page n
            (req_size size)) ∧
        0 < n ∧ req_size size + ALLOC_HEADER_SIZE ≤ n * PAGE_SIZE ∧
        first_page s ≤ page ∧ page + n ≤ last_page s ∧
        ∀ i < n, page_is_used s (page + i) = false := by
  unfold malloc
  simp only [← req_size.eq_1 size]
  split
  · exact Or.inl rfl
  · rename_i hsize
    split
    · exact Or.inl rfl
    · rename_i hpages
      push Not at hpages
      split
      · exact Or.inl rfl
      · rename_i page hfind
        obtain ⟨hfirst, hlast, hfree⟩ := find_pages_spec hfind
        have hroom := room_of_pages (by unfold ALLOC_HEADER_SIZE at *; omega) hpages.1
        exact Or.inr ⟨page, _, rfl, rfl, Nat.pos_of_ne_zero hpages.1, hroom, hfirst, hlast, hfree⟩

/-! ## What `free` does -/

theorem first_page_counted (s : Heap) (n : Nat) :
    first_page { s with free_calls := n } = first_page s := rfl

theorem last_page_counted (s : Heap) (n : Nat) :
    last_page { s with free_calls := n } = last_page s := rfl

theorem free_of_no_header {s : Heap} {p : Nat} (hlayout : Layout s) (h : ¬ HeaderAt s p) :
    free s p = { s with free_calls := (s.free_calls + 1) % 2 ^ 32 } := by
  have hmask : ∀ n, n &&& PAGE_MASK = n % PAGE_SIZE := fun n =>
    Nat.and_two_pow_sub_one_eq_mod n 12
  have hstart := hlayout.start
  unfold HeaderAt at h
  unfold free
  simp only [hmask]
  split_ifs with h1 h2 h3 h4 h5 h6 h7
  all_goals try rfl
  exact absurd ⟨by unfold ALLOC_HEADER_SIZE at *; omega, by omega, by omega,
    Decidable.not_not.mp h3⟩ h

theorem start_of_ptr {b : Block}
    (h : b.ptr = HEAP_START + b.page * PAGE_SIZE + ALLOC_HEADER_SIZE) :
    b.start = HEAP_START + b.page * PAGE_SIZE := by
  unfold Block.start
  rw [h]
  exact Nat.add_sub_cancel _ _

theorem Layout.bit_before {s : Heap} (hlayout : Layout s) {b : Block}
    (hfirst : first_page s ≤ b.page) (hstart : b.start = HEAP_START + b.page * PAGE_SIZE)
    {page : Nat} (hpage : page < last_page s) : s.bitmap + page / 8 < b.start := by
  have hbits := hlayout.bits
  have hbehind := hlayout.behind
  have hbitmap := hlayout.bitmap
  have hpool := hlayout.start
  unfold PAGE_SIZE at *
  omega

/-- A block that the heap holds: its header and its pages in the pool. -/
structure Held (s : Heap) (b : Block) : Prop where
  ptr : b.ptr = HEAP_START + b.page * PAGE_SIZE + ALLOC_HEADER_SIZE
  first : first_page s ≤ b.page
  last : b.page + b.npages ≤ last_page s
  pos : 0 < b.npages
  room : req_size b.size + ALLOC_HEADER_SIZE ≤ b.npages * PAGE_SIZE
  header : header s.mem b.start = ⟨ALLOC_MAGIC, b.npages, req_size b.size, 0⟩

theorem Held.start {s : Heap} {b : Block} (h : Held s b) :
    b.start = HEAP_START + b.page * PAGE_SIZE :=
  start_of_ptr h.ptr

theorem free_of_held {s : Heap} {b : Block} (hlayout : Layout s) (h : Held s b) :
    free s b.ptr = { s with
      free_calls := (s.free_calls + 1) % 2 ^ 32
      mem := set_header (Bitmap.clearFrom s.mem s.bitmap b.page b.npages) b.start ⟨0, 0, 0, 0⟩ } := by
  have hmask : ∀ n, n &&& PAGE_MASK = n % PAGE_SIZE := fun n =>
    Nat.and_two_pow_sub_one_eq_mod n 12
  have hptr := h.ptr
  have hstart := h.start
  have hfirst := h.first
  have hlast := h.last
  have hpos := h.pos
  have hlo := hlayout.start
  have hhi := hlayout.stop
  have hfits := hlayout.fits
  have hlen := HeapConfig.start_pos
  have hclear : clear_pages s.bitmap b.start b.page (2 ^ 32) 0 s.mem =
      Bitmap.clearFrom s.mem s.bitmap b.page b.npages := by
    unfold PAGE_SIZE at *
    refine clear_pages_eq (n := b.npages) (k := s.bitmap_bytes) (by rw [h.header]) (by omega) ?_
      (by omega) ?_ (Nat.zero_le _)
    · exact Nat.le_trans hlast hlayout.bits
    · have hbehind := hlayout.behind
      have hbitmap := hlayout.bitmap
      omega
  unfold free
  simp only [← Block.start.eq_1, ← Block.page.eq_1, h.header, hmask, hclear, first_page_counted,
    last_page_counted]
  unfold PAGE_SIZE ALLOC_HEADER_SIZE at *
  rw [if_neg (by omega), if_neg (by omega), if_neg (by simp), if_neg (by omega),
    if_neg (by omega), if_neg (by omega), if_neg (by omega)]

/-! ## What a client can rely on -/

def Block.Apart (b c : Block) : Prop := b.page + b.npages ≤ c.page ∨ c.page + c.npages ≤ b.page

instance : Std.Symm Block.Apart := ⟨fun _ _ => Or.symm⟩

/-- The heap holds the blocks of the clients, and its bitmap knows of no others. -/
structure HeapInv (w : World) : Prop where
  layout : Layout w.heap
  held : ∀ b ∈ w.live, Held w.heap b
  disjoint : w.live.Pairwise Block.Apart
  used : ∀ page, first_page w.heap ≤ page → page < last_page w.heap →
    (page_is_used w.heap page = true ↔ Reserved page ∨ ∃ b ∈ w.live, b.Has page)
  unreserved : ∀ b ∈ w.live, ∀ page, b.Has page → ¬ Reserved page

theorem HeapInv.safe {w : World} (h : HeapInv w) : Safe w where
  disjoint := by
    refine h.disjoint.imp_of_mem fun {b c} hb hc hpages => ?_
    unfold Block.stop
    rw [(h.held b hb).start, (h.held c hc).start]
    unfold Block.Apart at hpages
    unfold PAGE_SIZE
    omega
  inside b hb := by
    have hheld := h.held b hb
    have hfirst := hheld.first
    have hlast := hheld.last
    unfold Block.stop
    rw [hheld.start, h.layout.start, h.layout.stop]
    unfold PAGE_SIZE
    omega
  aligned b hb := by
    have haligned := HeapConfig.aligned
    rw [(h.held b hb).start]
    unfold PAGE_SIZE
    omega
  large b hb := by
    have hheld := h.held b hb
    have hroom := hheld.room
    have hsize : b.size ≤ req_size b.size := by
      unfold req_size
      split <;> omega
    unfold Block.stop
    rw [hheld.ptr, hheld.start]
    omega
  used := h.used

theorem heapInv_init {m : Mem} {s : Heap} (h : page_init m = some s) : HeapInv ⟨s, []⟩ where
  layout := layout_page_init h
  held := by simp
  disjoint := List.Pairwise.nil
  used page hfirst hlast := by
    rw [used_page_init h hlast]
    simp [Nat.not_lt.mpr hfirst]
  unreserved := by simp

theorem Layout.used_congr {s : Heap} (h : Layout s) {m : Mem} {lo hi page : Nat}
    (hframe : SameOutside lo hi s.mem m) (hlo : s.alloc_start ≤ lo) (hpage : page < last_page s) :
    Bitmap.test m s.bitmap page = page_is_used s page := by
  have hbits := h.bits
  have hbehind := h.behind
  have hbitmap := h.bitmap
  exact Bitmap.test_congr (hframe _ (by omega))

theorem Held.ptr_eq {s : Heap} {b : Block} (h : Held s b) : b.ptr = b.start + ALLOC_HEADER_SIZE := by
  rw [h.ptr, h.start]

theorem HeapInv.of_frame {w : World} (h : HeapInv w) {m : Mem} {lo hi : Nat}
    (hframe : SameOutside lo hi w.heap.mem m) (hlo : w.heap.alloc_start ≤ lo)
    (hheaders : ∀ b ∈ w.live, b.ptr ≤ lo ∨ hi ≤ b.start) :
    HeapInv ⟨{ w.heap with mem := m }, w.live⟩ where
  layout := { h.layout with }
  held b hb := by
    have hheld := h.held b hb
    refine { hheld with header := ?_ }
    rw [← hheld.header]
    refine header_congr hframe ?_
    rw [← hheld.ptr_eq]
    exact hheaders b hb
  disjoint := h.disjoint
  used page hfirst hlast := by
    rw [← h.used page hfirst hlast, ← h.layout.used_congr hframe hlo hlast]
    rfl
  unreserved := h.unreserved

theorem HeapInv.counted {w : World} (h : HeapInv w) (k n : Nat) :
    HeapInv ⟨{ w.heap with malloc_calls := k, free_calls := n }, w.live⟩ where
  layout := { h.layout with }
  held b hb := { h.held b hb with }
  disjoint := h.disjoint
  used := h.used
  unreserved := h.unreserved

theorem HeapInv.eq_of_ptr {w : World} (h : HeapInv w) {b c : Block} (hb : b ∈ w.live)
    (hc : c ∈ w.live) (hptr : b.ptr = c.ptr) : b = c := by
  by_contra hne
  have hpage : b.page = c.page := by
    unfold Block.page Block.start
    rw [hptr]
  have hbpos := (h.held b hb).pos
  have hcpos := (h.held c hc).pos
  rcases h.disjoint.forall hb hc hne with hle | hle <;> omega

theorem HeapInv.write {w : World} (h : HeapInv w) {a n : Nat} (bytes : Nat → UInt8)
    (hown : w.Owns a n) : HeapInv ⟨{ w.heap with mem := patch w.heap.mem a n bytes }, w.live⟩ := by
  obtain ⟨b, hb, hlo, hhi⟩ := hown
  have hheld := h.held b hb
  have hstart := hheld.start
  have hfirst := hheld.first
  have hpool := h.layout.start
  have hptr := hheld.ptr_eq
  unfold Block.stop PAGE_SIZE at *
  have hframe : SameOutside a (a + n) w.heap.mem (patch w.heap.mem a n bytes) :=
    SameOutside.of_patch (Or.inr (by omega))
  refine h.of_frame hframe (by omega) fun c hc => ?_
  by_cases hbc : b = c
  · exact Or.inl (hbc ▸ hlo)
  · have hcstart := (h.held c hc).start
    have hcptr := (h.held c hc).ptr_eq
    unfold PAGE_SIZE ALLOC_HEADER_SIZE at *
    have hcpos := (h.held c hc).pos
    rcases h.disjoint.forall hb hc hbc with hle | hle
    · exact Or.inr (by omega)
    · exact Or.inl (by omega)

theorem Block.Apart.headers {b c : Block} (h : b.Apart c)
    (hb : b.start = HEAP_START + b.page * PAGE_SIZE)
    (hc : c.start = HEAP_START + c.page * PAGE_SIZE) (hbpos : 0 < b.npages)
    (hcpos : 0 < c.npages) :
    c.start + ALLOC_HEADER_SIZE ≤ b.start ∨ b.start + ALLOC_HEADER_SIZE ≤ c.start := by
  unfold Block.Apart PAGE_SIZE ALLOC_HEADER_SIZE at *
  omega

theorem Layout.frame_free {s : Heap} {b : Block} (hlayout : Layout s) (hb : Held s b) {x : Nat}
    (hx : s.alloc_start ≤ x) (hout : x < b.start ∨ b.start + ALLOC_HEADER_SIZE ≤ x) :
    (alloc.free s b.ptr).mem x = s.mem x := by
  have hbits : SameOutside s.bitmap (s.bitmap + s.bitmap_bytes) s.mem
      (Bitmap.clearFrom s.mem s.bitmap b.page b.npages) :=
    Bitmap.sameOutside_clearFrom (Nat.le_trans hb.last hlayout.bits)
  have hbehind := hlayout.behind
  have hbitmap := hlayout.bitmap
  rw [free_of_held hlayout hb]
  dsimp only
  rw [sameOutside_set_header _ _ _ x hout, hbits x (by omega)]

theorem Held.of_free {s : Heap} {b c : Block} (hlayout : Layout s) (hb : Held s b) (hc : Held s c)
    (hapart : b.Apart c) : Held (alloc.free s b.ptr) c := by
  have hpool : s.alloc_start ≤ c.start := by
    rw [hlayout.start, hc.start]
    exact Nat.add_le_add_left (Nat.mul_le_mul_right _ hc.first) _
  have hheaders := hapart.headers hb.start hc.start hb.pos hc.pos
  have hsame : alloc.header (alloc.free s b.ptr).mem c.start = alloc.header s.mem c.start :=
    header_eq_of_bytes fun x hlo hhi => hlayout.frame_free hb (by omega) (by omega)
  rw [free_of_held hlayout hb] at hsame ⊢
  exact { hc with header := hsame.trans hc.header }

theorem used_free {s : Heap} {b : Block} (hlayout : Layout s) (hb : Held s b) {page : Nat}
    (hpage : page < last_page s) :
    page_is_used (alloc.free s b.ptr) page = true ↔ ¬ b.Has page ∧ page_is_used s page = true := by
  have hbit := hlayout.bit_before hb.first hb.start hpage
  have hframe := sameOutside_set_header (Bitmap.clearFrom s.mem s.bitmap b.page b.npages) b.start
    ⟨0, 0, 0, 0⟩
  rw [free_of_held hlayout hb]
  unfold page_is_used
  dsimp only
  rw [Bitmap.test_congr (hframe _ (Or.inl hbit)), Bitmap.test_clearFrom, Bool.and_eq_true,
    Bool.not_eq_true', decide_eq_false_iff_not]
  rfl

theorem Layout.free {s : Heap} {b : Block} (hlayout : Layout s) (hb : Held s b) :
    Layout (alloc.free s b.ptr) := by
  rw [free_of_held hlayout hb]
  exact { hlayout with }

theorem HeapInv.free {w : World} (h : HeapInv w) {b : Block} (hb : b ∈ w.live) :
    HeapInv ⟨alloc.free w.heap b.ptr, w.live.filter fun c => c.ptr ≠ b.ptr⟩ := by
  have hother : ∀ c ∈ w.live.filter fun c => c.ptr ≠ b.ptr, c ∈ w.live ∧ b ≠ c := by
    intro c hc
    obtain ⟨hlive, hptr⟩ := List.mem_filter.mp hc
    refine ⟨hlive, ?_⟩
    rintro rfl
    exact of_decide_eq_true hptr rfl
  have hheld := h.held b hb
  have hfirst : first_page (alloc.free w.heap b.ptr) = first_page w.heap := by
    rw [free_of_held h.layout hheld]
    rfl
  have hlast : last_page (alloc.free w.heap b.ptr) = last_page w.heap := by
    rw [free_of_held h.layout hheld]
    rfl
  refine ⟨h.layout.free hheld, fun c hc => ?_, h.disjoint.filter _, fun page hlo hhi => ?_,
    fun c hc => h.unreserved c (hother c hc).1⟩
  · obtain ⟨hlive, hne⟩ := hother c hc
    exact hheld.of_free h.layout (h.held c hlive) (h.disjoint.forall hb hlive hne)
  · rw [hfirst] at hlo
    rw [hlast] at hhi
    rw [used_free h.layout hheld hhi, h.used page hlo hhi]
    constructor
    · rintro ⟨hout, hres | ⟨c, hc, hhas⟩⟩
      · exact Or.inl hres
      · refine Or.inr ⟨c, List.mem_filter.mpr ⟨hc, decide_eq_true fun hptr => hout ?_⟩, hhas⟩
        rwa [← h.eq_of_ptr hc hb hptr]
    · rintro (hres | ⟨c, hc, hhas⟩)
      · exact ⟨fun hin => h.unreserved b hb page hin hres, Or.inl hres⟩
      · obtain ⟨hlive, hne⟩ := hother c hc
        refine ⟨fun hin => ?_, Or.inr ⟨c, hlive, hhas⟩⟩
        have hapart := h.disjoint.forall hb hlive hne
        unfold Block.Apart Block.Has at *
        omega

/-- Free pages of the pool that `malloc` takes for a block. -/
structure Hole (s : Heap) (b : Block) : Prop where
  ptr : b.ptr = HEAP_START + b.page * PAGE_SIZE + ALLOC_HEADER_SIZE
  first : first_page s ≤ b.page
  last : b.page + b.npages ≤ last_page s
  pos : 0 < b.npages
  room : req_size b.size + ALLOC_HEADER_SIZE ≤ b.npages * PAGE_SIZE
  unused : ∀ page, b.Has page → page_is_used s page = false

theorem Hole.start {s : Heap} {b : Block} (h : Hole s b) :
    b.start = HEAP_START + b.page * PAGE_SIZE :=
  start_of_ptr h.ptr

/-- The heap after `malloc` took the pages of a hole. -/
def Block.taken (b : Block) (s : Heap) : Heap :=
  take_pages { s with malloc_calls := (s.malloc_calls + 1) % 2 ^ 32 } b.page b.npages
    (req_size b.size)

theorem malloc_cases (s : Heap) (size : Nat) :
    malloc s size = (0, { s with malloc_calls := (s.malloc_calls + 1) % 2 ^ 32 }) ∨
      ∃ b, b.size = size ∧ Hole s b ∧ malloc s size = (b.ptr, b.taken s) := by
  rcases malloc_spec s size with hnull | ⟨page, n, rfl, htake, hpos, hroom, hfirst, hlast, hfree⟩
  · exact Or.inl hnull
  · have hpage : Block.page ⟨HEAP_START + page * PAGE_SIZE + ALLOC_HEADER_SIZE, size⟩ = page := by
      unfold Block.page Block.start page_index_from_addr PAGE_ORDER PAGE_SIZE
      rw [Nat.add_sub_cancel, Nat.add_sub_cancel_left, Nat.shiftRight_eq_div_pow]
      omega
    refine Or.inr ⟨⟨HEAP_START + page * PAGE_SIZE + ALLOC_HEADER_SIZE, size⟩, rfl, ?_,
      htake.trans ?_⟩
    · refine ⟨?_, ?_, ?_, hpos, hroom, fun q hq => ?_⟩
      · rw [hpage]
      · rwa [hpage]
      · rwa [hpage]
      · unfold Block.Has at hq
        rw [hpage] at hq
        obtain ⟨i, rfl⟩ := Nat.exists_eq_add_of_le hq.1
        exact hfree i (Nat.lt_of_add_lt_add_left hq.2)
    · unfold Block.taken
      rw [hpage]
      rfl

theorem req_size_lt {s : Heap} {b : Block} (hlayout : Layout s) (h : Hole s b) :
    b.npages < 2 ^ 32 ∧ req_size b.size < 2 ^ 32 := by
  have hroom := h.room
  have hlast := h.last
  have hstop := hlayout.stop
  have hfits := hlayout.fits
  unfold PAGE_SIZE at *
  omega

theorem Layout.frame_taken {s : Heap} {b : Block} (hlayout : Layout s) (h : Hole s b) {x : Nat}
    (hx : s.alloc_start ≤ x) (hout : x < b.start ∨ b.start + ALLOC_HEADER_SIZE ≤ x) :
    (b.taken s).mem x = s.mem x := by
  have hbits : SameOutside s.bitmap (s.bitmap + s.bitmap_bytes) s.mem
      (Bitmap.setFrom s.mem s.bitmap b.page b.npages) :=
    Bitmap.sameOutside_setFrom (Nat.le_trans h.last hlayout.bits)
  have hbehind := hlayout.behind
  have hbitmap := hlayout.bitmap
  unfold Block.taken take_pages
  dsimp only
  rw [← h.start, sameOutside_set_header _ _ _ x hout, hbits x (by omega)]

theorem Hole.held {s : Heap} {b : Block} (hlayout : Layout s) (h : Hole s b) :
    Held (b.taken s) b := by
  obtain ⟨hpages, hsize⟩ := req_size_lt hlayout h
  refine ⟨h.ptr, h.first, h.last, h.pos, h.room, ?_⟩
  unfold Block.taken take_pages
  rw [← h.start]
  exact header_set_header _ _ ⟨(by decide : ALLOC_MAGIC < 2 ^ 32), hpages, hsize, Nat.two_pow_pos 32⟩

theorem Held.of_taken {s : Heap} {b c : Block} (hlayout : Layout s) (hb : Hole s b) (hc : Held s c)
    (hapart : b.Apart c) : Held (b.taken s) c := by
  refine { hc with header := ?_ }
  have hpool : s.alloc_start ≤ c.start := by
    rw [hlayout.start, hc.start]
    exact Nat.add_le_add_left (Nat.mul_le_mul_right _ hc.first) _
  have hheaders := hapart.headers hb.start hc.start hb.pos hc.pos
  rw [← hc.header]
  exact header_eq_of_bytes fun x hlo hhi => hlayout.frame_taken hb (by omega) (by omega)

theorem used_taken {s : Heap} {b : Block} (hlayout : Layout s) (h : Hole s b) {page : Nat}
    (hpage : page < last_page s) :
    page_is_used (b.taken s) page = true ↔ b.Has page ∨ page_is_used s page = true := by
  have hbit := hlayout.bit_before h.first h.start hpage
  have hframe := sameOutside_set_header (Bitmap.setFrom s.mem s.bitmap b.page b.npages) b.start
    ⟨ALLOC_MAGIC, b.npages, req_size b.size, 0⟩
  unfold page_is_used Block.taken take_pages
  rw [← h.start]
  dsimp only
  rw [Bitmap.test_congr (hframe _ (Or.inl hbit)), Bitmap.test_setFrom, Bool.or_eq_true,
    decide_eq_true_eq]
  rfl

theorem HeapInv.apart_of_hole {w : World} (h : HeapInv w) {b c : Block} (hb : Hole w.heap b)
    (hc : c ∈ w.live) : b.Apart c := by
  have hheld := h.held c hc
  have hfirst := hheld.first
  have hlast := hheld.last
  have hpos := hheld.pos
  have hbpos := hb.pos
  by_contra hmeet
  -- the later one of the two first pages is in both
  have hboth : b.Has (max b.page c.page) ∧ c.Has (max b.page c.page) := by
    unfold Block.Apart Block.Has at *
    omega
  have hused := (h.used _ (by omega) (by have := hboth.2; unfold Block.Has at this; omega)).mpr
    (Or.inr ⟨c, hc, hboth.2⟩)
  rw [hb.unused _ hboth.1] at hused
  exact nomatch hused

theorem HeapInv.malloc {w : World} (h : HeapInv w) (size : UInt32) :
    HeapInv (w.step (.malloc size)) := by
  simp only [World.step]
  rcases malloc_cases w.heap size.toNat with hnull | ⟨b, hsize, hhole, htake⟩
  · rw [hnull]
    exact h.counted _ _
  · have hptr : b.ptr ≠ 0 := by
      have hstart := HeapConfig.start_pos
      rw [hhole.ptr]
      omega
    have hblock : (⟨b.ptr, size.toNat⟩ : Block) = b := by rw [← hsize]
    rw [htake]
    dsimp only
    rw [if_neg hptr, hblock]
    refine ⟨{ h.layout with }, fun c hc => ?_, ?_, fun page hlo hhi => ?_, fun c hc page hhas => ?_⟩
    · rcases List.mem_cons.mp hc with rfl | hc
      · exact hhole.held h.layout
      · exact (h.held c hc).of_taken h.layout hhole (h.apart_of_hole hhole hc)
    · exact List.Pairwise.cons (fun c hc => h.apart_of_hole hhole hc) h.disjoint
    · rw [used_taken h.layout hhole hhi, h.used page hlo hhi]
      simp only [List.mem_cons, exists_eq_or_imp]
      tauto
    · rcases List.mem_cons.mp hc with rfl | hc
      · intro hres
        have hfirst := hhole.first
        have hlast := hhole.last
        have hused := (h.used page (by unfold Block.Has at hhas; omega)
          (by unfold Block.Has at hhas; omega)).mpr (Or.inl hres)
        rw [hhole.unused page hhas] at hused
        exact nomatch hused
      · exact h.unreserved c hc page hhas

/-! ## Runs -/

theorem ignores_of_no_header {w : World} (hlayout : Layout w.heap) {p : UInt32}
    (hlive : ¬ w.Live p.toNat) (hheader : ¬ HeaderAt w.heap p.toNat) : Ignores w p := by
  have hkept : w.live.filter (fun b => b.ptr ≠ p.toNat) = w.live :=
    List.filter_eq_self.mpr fun b hb => decide_eq_true fun hptr => hlive ⟨b, hb, hptr⟩
  unfold Ignores
  simp only [World.step]
  rw [free_of_no_header hlayout hheader, hkept]

theorem HeapInv.step {w : World} (h : HeapInv w) {a : Act} (ha : Careful w a) :
    HeapInv (w.step a) := by
  obtain ⟨hwrites, hfrees⟩ := ha
  cases a with
  | malloc size => exact h.malloc size
  | free p =>
    by_cases hlive : w.Live p.toNat
    · obtain ⟨b, hb, hptr⟩ := hlive
      simp only [World.step, ← hptr]
      exact h.free hb
    · have hheader := (hfrees p rfl).resolve_left hlive
      rw [(ignores_of_no_header h.layout hlive hheader : w.step (.free p) = _)]
      exact h.counted _ _
  | write x n bytes => exact h.write bytes hwrites

theorem heapInv_of_reaches {m : Mem} {w : World} (h : Reaches Careful m w) : HeapInv w := by
  induction h with
  | init hinit => exact heapInv_init hinit
  | step a _ hok ih => exact ih.step hok

/-- Headers stand in front of blocks only. -/
def HeadersLive (w : World) : Prop := ∀ p, HeaderAt w.heap p → w.Live p

theorem HeaderAt.apart {s : Heap} {p page : Nat} (hlayout : Layout s) (h : HeaderAt s p)
    (hne : p ≠ HEAP_START + page * PAGE_SIZE + ALLOC_HEADER_SIZE) :
    p ≤ HEAP_START + page * PAGE_SIZE ∨
      HEAP_START + page * PAGE_SIZE + ALLOC_HEADER_SIZE ≤ p - ALLOC_HEADER_SIZE := by
  obtain ⟨hlo, -, hmod, -⟩ := h
  have hstart := hlayout.start
  unfold PAGE_SIZE ALLOC_HEADER_SIZE at *
  omega

theorem HeadersLive.malloc {w : World} (hinv : HeapInv w) (h : HeadersLive w) (size : UInt32) :
    HeadersLive (w.step (.malloc size)) := by
  simp only [World.step]
  rcases malloc_cases w.heap size.toNat with hnull | ⟨b, hsize, hhole, htake⟩
  · rw [hnull]
    exact h
  · have hptr : b.ptr ≠ 0 := by
      have hstart := HeapConfig.start_pos
      rw [hhole.ptr]
      omega
    rw [htake]
    dsimp only
    rw [if_neg hptr]
    intro p hp
    by_cases hpb : p = b.ptr
    · exact ⟨_, List.mem_cons_self, hpb.symm⟩
    · have hlayout : Layout (b.taken w.heap) := { hinv.layout with }
      have hapart := HeaderAt.apart hlayout hp (hhole.ptr ▸ hpb)
      rw [← hhole.start] at hapart
      obtain ⟨hlo, hhi, hmod, hmagic⟩ := hp
      have hsame : header (b.taken w.heap).mem (p - ALLOC_HEADER_SIZE) =
          header w.heap.mem (p - ALLOC_HEADER_SIZE) :=
        header_eq_of_bytes fun x hxlo hxhi => hinv.layout.frame_taken hhole
          (Nat.le_trans (Nat.le_sub_of_add_le hlo) hxlo) (by omega)
      obtain ⟨c, hc, hcp⟩ := h p ⟨hlo, hhi, hmod, by rw [← hsame, hmagic]⟩
      exact ⟨c, List.mem_cons_of_mem _ hc, hcp⟩

theorem HeadersLive.free {w : World} (hinv : HeapInv w) (h : HeadersLive w) {b : Block}
    (hb : b ∈ w.live) :
    HeadersLive ⟨alloc.free w.heap b.ptr, w.live.filter fun c => c.ptr ≠ b.ptr⟩ := by
  have hheld := hinv.held b hb
  intro p hp
  by_cases hpb : p = b.ptr
  · -- the magic word of the freed block is 0
    have hmagic := hp.2.2.2
    rw [free_of_held hinv.layout hheld, hpb] at hmagic
    dsimp only at hmagic
    have hzero : (0 : Nat) < 2 ^ 32 := Nat.two_pow_pos 32
    rw [← Block.start.eq_1, header_set_header _ _ ⟨hzero, hzero, hzero, hzero⟩] at hmagic
    exact absurd hmagic (by decide)
  · have hapart := hp.apart (hinv.layout.free hheld) (hheld.ptr ▸ hpb)
    rw [← hheld.start] at hapart
    obtain ⟨hlo, hhi, hmod, hmagic⟩ := hp
    have hpool : (alloc.free w.heap b.ptr).alloc_start = w.heap.alloc_start ∧
        (alloc.free w.heap b.ptr).alloc_end = w.heap.alloc_end := by
      rw [free_of_held hinv.layout hheld]
      exact ⟨rfl, rfl⟩
    rw [hpool.1] at hlo hmod
    rw [hpool.2] at hhi
    have hsame : header (alloc.free w.heap b.ptr).mem (p - ALLOC_HEADER_SIZE) =
        header w.heap.mem (p - ALLOC_HEADER_SIZE) :=
      header_eq_of_bytes fun x hxlo hxhi => hinv.layout.frame_free hheld
        (Nat.le_trans (Nat.le_sub_of_add_le hlo) hxlo) (by omega)
    obtain ⟨c, hc, hcp⟩ := h p ⟨hlo, hhi, hmod, by rw [← hsame, hmagic]⟩
    refine ⟨c, List.mem_filter.mpr ⟨hc, decide_eq_true ?_⟩, hcp⟩
    rwa [hcp]

theorem Careful.of_clean {w : World} (h : HeadersLive w) {a : Act} (ha : Clean w a) :
    Careful w a := by
  refine ⟨ha.1, fun p _ => ?_⟩
  by_cases hlive : w.Live p.toNat
  · exact Or.inl hlive
  · exact Or.inr fun hheader => hlive (h _ hheader)

theorem HeadersLive.step {w : World} (hinv : HeapInv w) (h : HeadersLive w) {a : Act}
    (ha : Clean w a) : HeadersLive (w.step a) := by
  cases a with
  | malloc size => exact h.malloc hinv size
  | free p =>
    by_cases hlive : w.Live p.toNat
    · obtain ⟨b, hb, hptr⟩ := hlive
      simp only [World.step, ← hptr]
      exact h.free hinv hb
    · have hign := ignores_of_no_header hinv.layout hlive fun hheader => hlive (h _ hheader)
      rw [(hign : w.step (.free p) = _)]
      exact h
  | write x n bytes => exact fun p hp => h p (ha.2 x n bytes rfl p hp)

theorem clean_reaches {m : Mem}
    (hfresh : ∀ s, page_init m = some s → ∀ p, ¬ HeaderAt s p) {w : World}
    (h : Reaches Clean m w) : HeapInv w ∧ HeadersLive w := by
  induction h with
  | init hinit => exact ⟨heapInv_init hinit, fun p hp => absurd hp (hfresh _ hinit p)⟩
  | step a _ hok ih =>
    obtain ⟨hinv, hheaders⟩ := ih
    exact ⟨hinv.step (.of_clean hheaders hok), hheaders.step hinv hok⟩

/-- In every run in which the clients write inside their blocks and free no forged header, the
blocks are disjoint parts of the pool with room for what was asked, the bitmap has exactly
their pages and the reserved ones, and `free` ignores a pointer that is no block's and has no
header in front of it. When the memory holds no header at the start and no write makes one,
`free` ignores every pointer that is no block's. -/
theorem kernel_heap_safe (m : Mem) :
    (∀ w, Reaches Careful m w → Safe w ∧
      ∀ p : UInt32, ¬ w.Live p.toNat → ¬ HeaderAt w.heap p.toNat → Ignores w p) ∧
    ((∀ s, page_init m = some s → ∀ p, ¬ HeaderAt s p) →
      ∀ w, Reaches Clean m w → Safe w ∧ ∀ p : UInt32, ¬ w.Live p.toNat → Ignores w p) := by
  refine ⟨fun w hw => ?_, fun hfresh w hw => ?_⟩
  · have hinv := heapInv_of_reaches hw
    exact ⟨hinv.safe, fun p hlive hheader => ignores_of_no_header hinv.layout hlive hheader⟩
  · obtain ⟨hinv, hheaders⟩ := clean_reaches hfresh hw
    refine ⟨hinv.safe, fun p hlive => ignores_of_no_header hinv.layout hlive fun hheader => ?_⟩
    exact hlive (hheaders _ hheader)

theorem fresh_of_zero {s : Heap} (h : page_init (fun _ => 0) = some s) (p : Nat) :
    ¬ HeaderAt s p := by
  rintro ⟨hlo, -, -, hmagic⟩
  have hlayout := layout_page_init h
  have hbehind := hlayout.behind
  rw [header_congr (frame_page_init h) (Or.inr (by omega))] at hmagic
  simp [header, readLE, ALLOC_MAGIC] at hmagic

end World

@[reducible]
def smallHeap : HeapConfig where
  HEAP_START := 0x80400000
  HEAP_SIZE := 0x10000
  FPGA_MINIMAL := false
  aligned := by decide
  start_pos := by decide
  fits := by decide

/-- The bytes of a header with the magic word and one page. -/
def forged (i : Nat) : UInt8 := [0x30, 0x50, 0x41, 0x4d, 1, 0, 0, 0].getD i 0

theorem small_fresh : (@page_init smallHeap fun _ => 0).isSome := by decide

def freshWorld : World := ⟨(@page_init smallHeap fun _ => 0).get small_fresh, []⟩

/-- A client has a block of two pages. -/
def heldWorld : World := @World.step smallHeap freshWorld (.malloc 8176)

/-- It wrote a header into its second page. -/
def forgedWorld : World := @World.step smallHeap heldWorld (.write 0x80402000 8 forged)

theorem heldWorld_live : heldWorld.live = [⟨0x80401010, 8176⟩] := by decide

theorem forgedWorld_live : forgedWorld.live = [⟨0x80401010, 8176⟩] := by decide

/-- The client wrote inside its block only and frees a pointer that `malloc` never returned,
and the second page of its block is free. -/
theorem forged_header_frees_page :
    @Reaches smallHeap InBlocks (fun _ => 0) forgedWorld ∧
      forgedWorld.live = [⟨0x80401010, 8176⟩] ∧
      ¬ forgedWorld.Live 0x80402010 ∧
      page_is_used forgedWorld.heap 2 = true ∧
      page_is_used (@World.step smallHeap forgedWorld (.free 0x80402010)).heap 2 = false := by
  refine ⟨?_, forgedWorld_live, ?_, by decide, by decide⟩
  · have hfresh : @Reaches smallHeap InBlocks (fun _ => 0) freshWorld :=
      @Reaches.init smallHeap InBlocks (fun _ => 0) _ (Option.some_get small_fresh).symm
    have hheld : @Reaches smallHeap InBlocks (fun _ => 0) heldWorld :=
      @Reaches.step smallHeap InBlocks _ freshWorld (.malloc 8176) hfresh trivial
    have hown : heldWorld.Owns 0x80402000 8 := by
      refine ⟨⟨0x80401010, 8176⟩, ?_, by decide⟩
      rw [heldWorld_live]
      exact List.mem_singleton.mpr rfl
    exact @Reaches.step smallHeap InBlocks _ heldWorld (.write 0x80402000 8 forged) hheld hown
  · rintro ⟨b, hb, hptr⟩
    rw [forgedWorld_live, List.mem_singleton] at hb
    subst hb
    exact absurd hptr (by decide)

theorem kernel_heap_safe_held :
    @Safe smallHeap heldWorld ∧
      ∀ p : UInt32, ¬ heldWorld.Live p.toNat → @Ignores smallHeap heldWorld p := by
  have hfresh : @Reaches smallHeap (@Clean smallHeap) (fun _ => 0) freshWorld :=
    @Reaches.init smallHeap (@Clean smallHeap) (fun _ => 0) _ (Option.some_get small_fresh).symm
  have hheld : @Reaches smallHeap (@Clean smallHeap) (fun _ => 0) heldWorld :=
    @Reaches.step smallHeap (@Clean smallHeap) _ freshWorld (.malloc 8176) hfresh
      ⟨trivial, fun _ _ _ h => nomatch h⟩
  exact (@kernel_heap_safe smallHeap fun _ => 0).2 (@fresh_of_zero smallHeap) heldWorld hheld

end vibeos.alloc

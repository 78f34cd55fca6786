-- When `malloc` finds a place: the scan for free pages jumps over the used pages that it meets, but
-- over no run that would do, and a size near the end of the words is refused. Then `calloc` and
-- `realloc` of user_utils.c over the page allocator. `realloc` keeps what its block holds; `calloc`
-- multiplies in 32 bits and gives a block that is too small when the product wraps.
import Vibeos.KernelHeapSafety

namespace vibeos.alloc

open vibeos.Mem

section Complete

variable [HeapConfig]

/-! ## Runs of free pages -/

/-- The pages that a request needs with its header. An empty request takes one byte. -/
def pagesNeeded (size : UInt32) : Nat :=
  (req_size size.toNat + ALLOC_HEADER_SIZE + PAGE_SIZE - 1) / PAGE_SIZE

/-- The pages of the request do not fit into the address space. -/
def TooLarge (size : UInt32) : Prop := 2 ^ 32 ≤ pagesNeeded size * PAGE_SIZE

/-- `n` pages of the pool from `page` on, all of them free. -/
structure FreeRun (s : Heap) (page n : Nat) : Prop where
  first : first_page s ≤ page
  last : page + n ≤ last_page s
  free : ∀ i < n, page_is_used s (page + i) = false

/-- The run of `n` free pages with the lowest address. -/
structure FirstRun (s : Heap) (page n : Nat) : Prop extends FreeRun s page n where
  least : ∀ q < page, ¬ FreeRun s q n

omit [HeapConfig] in
theorem used_of_first_used {s : Heap} {page j k n : Nat} (h : first_used s page j n = some k) :
    j ≤ k ∧ k < j + n ∧ page_is_used s (page + k) = true := by
  induction n generalizing j with
  | zero => exact nomatch h
  | succ n ih =>
    unfold first_used at h
    split at h
    · rename_i hused
      obtain rfl := Option.some.inj h
      exact ⟨Nat.le_refl j, by omega, hused⟩
    · obtain ⟨hle, hlt, hused⟩ := ih h
      exact ⟨by omega, by omega, hused⟩

theorem no_run_of_first_used {s : Heap} {page j n q : Nat}
    (h : first_used s page 0 n = some j) (hq : page ≤ q) (hskip : q ≤ page + j) :
    ¬ FreeRun s q n := by
  obtain ⟨-, hlt, hused⟩ := used_of_first_used h
  intro hrun
  have hfree := hrun.free (page + j - q) (by omega)
  rw [Nat.add_sub_of_le hskip, hused] at hfree
  cases hfree

theorem find_pages_complete {s : Heap} {n rounds page q : Nat}
    (hrounds : last_page s < page + rounds) (hpos : 0 < n) (hq : page ≤ q)
    (hrun : FreeRun s q n) : ∃ p ≤ q, find_pages s n rounds page = some p := by
  have hlast := hrun.last
  induction rounds generalizing page with
  | zero => omega
  | succ rounds ih =>
    unfold find_pages
    rw [if_pos (by omega)]
    cases hfirst : first_used s page 0 n with
    | none => exact ⟨page, hq, rfl⟩
    | some j =>
      rcases Nat.lt_or_ge (page + j) q with hbehind | hskip
      · exact ih (by omega) hbehind
      · exact absurd hrun (no_run_of_first_used hfirst hq hskip)

/-! ## The rounding -/

omit [HeapConfig] in
theorem pages_for_size_eq (size : UInt32) :
    (TooLarge size ∧ (req_size size.toNat > 0xffffffff - ALLOC_HEADER_SIZE ∨
      pages_for_size (req_size size.toNat + ALLOC_HEADER_SIZE) = 0)) ∨
    (¬ TooLarge size ∧ ¬ req_size size.toNat > 0xffffffff - ALLOC_HEADER_SIZE ∧
      pages_for_size (req_size size.toNat + ALLOC_HEADER_SIZE) = pagesNeeded size) := by
  have hsize : size.toNat < 2 ^ 32 := size.toNat_lt
  have hreq : req_size size.toNat < 2 ^ 32 := by
    unfold req_size
    split <;> omega
  unfold TooLarge pagesNeeded pages_for_size PAGE_ORDER PAGE_SIZE ALLOC_HEADER_SIZE
  simp only [Nat.shiftRight_eq_div_pow]
  omega

omit [HeapConfig] in
theorem pagesNeeded_pos (size : UInt32) : 0 < pagesNeeded size := by
  unfold pagesNeeded ALLOC_HEADER_SIZE PAGE_SIZE
  omega

theorem no_run_of_few {s : Heap} {n : Nat} (h : n > s.alloc_pages) (page : Nat) :
    ¬ FreeRun s page n := by
  intro hrun
  have hfirst := hrun.first
  have hlast := hrun.last
  unfold last_page at hlast
  omega

/-! ## `malloc` -/

/-- No run of free pages holds the request, or its pages do not fit into the address space. -/
def NoRoom (s : Heap) (size : UInt32) : Prop :=
  TooLarge size ∨ ∀ page, ¬ FreeRun s page (pagesNeeded size)

theorem malloc_first_run (s : Heap) (size : UInt32) :
    ((malloc s size.toNat).1 = 0 ∧ NoRoom s size) ∨
      (¬ NoRoom s size ∧ ∃ page, FirstRun s page (pagesNeeded size) ∧
        (malloc s size.toNat).1 = HEAP_START + page * PAGE_SIZE + ALLOC_HEADER_SIZE) := by
  have hpos := pagesNeeded_pos size
  unfold malloc
  simp only [← req_size.eq_1 size.toNat]
  rcases pages_for_size_eq size with ⟨hlarge, hrefused⟩ | ⟨hfits, hsize, hpages⟩
  · -- the rounding wraps to no page, if the size is not refused before
    have hnull : ∀ r : Nat × Heap, (if req_size size.toNat > 0xffffffff - ALLOC_HEADER_SIZE then
        (0, { s with malloc_calls := (s.malloc_calls + 1) % 2 ^ 32 }) else
        if pages_for_size (req_size size.toNat + ALLOC_HEADER_SIZE) = 0 ∨
          pages_for_size (req_size size.toNat + ALLOC_HEADER_SIZE) > s.alloc_pages then
        (0, { s with malloc_calls := (s.malloc_calls + 1) % 2 ^ 32 }) else r).1 = 0 := by
      intro r
      rcases hrefused with hbig | hzero
      · rw [if_pos hbig]
      · rw [if_pos (Or.inl hzero)]
        split <;> rfl
    exact Or.inl ⟨hnull _, Or.inl hlarge⟩
  rw [if_neg hsize, hpages]
  by_cases hfew : pagesNeeded size > s.alloc_pages
  · rw [if_pos (Or.inr hfew)]
    exact Or.inl ⟨rfl, Or.inr (no_run_of_few hfew)⟩
  rw [if_neg (not_or.mpr ⟨hpos.ne', hfew⟩)]
  generalize hcounted : { s with malloc_calls := (s.malloc_calls + 1) % 2 ^ 32 } = t
  have hrounds : last_page t < first_page t + (t.alloc_pages + 1) := by
    unfold last_page
    omega
  have hrun : ∀ page, FreeRun t page (pagesNeeded size) ↔ FreeRun s page (pagesNeeded size) := by
    intro page
    rw [← hcounted]
    exact ⟨fun h => ⟨h.first, h.last, h.free⟩, fun h => ⟨h.first, h.last, h.free⟩⟩
  have hpages : s.alloc_pages = t.alloc_pages := by rw [← hcounted]
  have hplace : ∀ q, FreeRun s q (pagesNeeded size) → ∃ p ≤ q,
      find_pages t (pagesNeeded size) (t.alloc_pages + 1) (first_page t) = some p := by
    intro q hq
    have hq := (hrun q).mpr hq
    exact find_pages_complete hrounds hpos hq.first hq
  rw [hpages]
  cases hfind : find_pages t (pagesNeeded size) (t.alloc_pages + 1) (first_page t) with
  | none =>
    refine Or.inl ⟨rfl, Or.inr fun page hpage => ?_⟩
    obtain ⟨p, -, hp⟩ := hplace page hpage
    cases hfind.symm.trans hp
  | some page =>
    obtain ⟨hfirst, hlast, hfree⟩ := find_pages_spec hfind
    have hpage := (hrun page).mp ⟨hfirst, hlast, hfree⟩
    refine Or.inr ⟨?_, page, ⟨hpage, fun q hq hq' => ?_⟩, rfl⟩
    · exact not_or.mpr ⟨hfits, fun hnone => hnone page hpage⟩
    · obtain ⟨p, hp, hp'⟩ := hplace q hq'
      cases hfind.symm.trans hp'
      omega

theorem malloc_null_iff (s : Heap) (size : UInt32) :
    (malloc s size.toNat).1 = 0 ↔ NoRoom s size := by
  have hstart := HeapConfig.start_pos
  rcases malloc_first_run s size with ⟨hnull, hroom⟩ | ⟨hroom, page, -, hptr⟩
  · exact iff_of_true hnull hroom
  · exact iff_of_false (by omega) hroom

/-- In every state of the bitmap `malloc` gives the first run of free pages that holds the request
and its header, and it refuses only where there is none, or where the pages would not fit into
the address space. -/
theorem malloc_complete (s : Heap) (size : UInt32) :
    ((malloc s size.toNat).1 = 0 ↔ TooLarge size ∨ ∀ page, ¬ FreeRun s page (pagesNeeded size)) ∧
      ((malloc s size.toNat).1 ≠ 0 → ∃ page, FirstRun s page (pagesNeeded size) ∧
        (malloc s size.toNat).1 = HEAP_START + page * PAGE_SIZE + ALLOC_HEADER_SIZE) := by
  refine ⟨malloc_null_iff s size, fun hne => ?_⟩
  rcases malloc_first_run s size with ⟨hnull, -⟩ | ⟨-, hfirst⟩
  · exact absurd hnull hne
  · exact hfirst

end Complete

section Resize

variable [HeapConfig]

/-! ## The functions -/

def total (nmemb size : UInt32) : UInt32 := nmemb * size

def calloc (s : Heap) (nmemb size : UInt32) : Nat × Heap :=
  let r := malloc s (total nmemb size).toNat
  if r.1 = 0 then r else (r.1, { r.2 with mem := fill r.2.mem r.1 0 (total nmemb size).toNat })

def realloc (s : Heap) (ptr : Nat) (size : UInt32) : Nat × Heap :=
  if ptr = 0 then malloc s size.toNat
  else
    let h := header s.mem (ptr - 16)
    let old_size := if h.magic = 0x4d415030 then h.req_size else 1024
    if size.toNat ≤ old_size then (ptr, s)
    else
      let r := malloc s size.toNat
      if r.1 = 0 then r
      else (r.1, free { r.2 with mem := copy r.2.mem r.1 ptr old_size } ptr)

/-! ## What they promise -/

/-- The heap behind a `calloc`, with its block. -/
def World.calloc (w : World) (nmemb size : UInt32) : World :=
  let r := alloc.calloc w.heap nmemb size
  ⟨r.2, if r.1 = 0 then w.live else ⟨r.1, (total nmemb size).toNat⟩ :: w.live⟩

/-- The heap behind a `realloc` of the block at `ptr`: another block takes its place. -/
def World.realloc (w : World) (ptr : Nat) (size : UInt32) : World :=
  let r := alloc.realloc w.heap ptr size
  ⟨r.2, if r.1 = 0 ∨ r.1 = ptr then w.live
    else ⟨r.1, size.toNat⟩ :: w.live.filter fun b => b.ptr ≠ ptr⟩

/-- A block is live in both worlds, and none of its bytes differs. -/
def BlockKept (w w' : World) (b : Block) : Prop :=
  b ∈ w'.live ∧ ∀ x, b.start ≤ x → x < b.stop → w'.heap.mem x = w.heap.mem x

/-- `n` bytes from `ptr` on lie in a live block that begins there. -/
def World.Gives (w : World) (ptr n : Nat) : Prop := ∃ b ∈ w.live, b.ptr = ptr ∧ ptr + n ≤ b.stop

/-- NULL and the block as it was, or room for the new size with the bytes of the block. -/
structure Reallocs (w : World) (b : Block) (size : UInt32) : Prop where
  safe : Safe (w.realloc b.ptr size)
  null : (realloc w.heap b.ptr size).1 = 0 → BlockKept w (w.realloc b.ptr size) b
  room : (realloc w.heap b.ptr size).1 ≠ 0 →
    (w.realloc b.ptr size).Gives (realloc w.heap b.ptr size).1 size.toNat
  bytes : (realloc w.heap b.ptr size).1 ≠ 0 → ∀ i < min (req_size b.size) size.toNat,
    (w.realloc b.ptr size).heap.mem ((realloc w.heap b.ptr size).1 + i) =
      w.heap.mem (b.ptr + i)
  others : ∀ c ∈ w.live, c ≠ b → BlockKept w (w.realloc b.ptr size) c

/-- NULL, or room for all members, and zeros there. -/
structure Callocs (w : World) (nmemb size : UInt32) : Prop where
  safe : Safe (w.calloc nmemb size)
  room : (calloc w.heap nmemb size).1 ≠ 0 →
    (w.calloc nmemb size).Gives (calloc w.heap nmemb size).1 (nmemb.toNat * size.toNat)
  zeros : (calloc w.heap nmemb size).1 ≠ 0 → ∀ i < nmemb.toNat * size.toNat,
    (w.calloc nmemb size).heap.mem ((calloc w.heap nmemb size).1 + i) = 0
  others : ∀ c ∈ w.live, BlockKept w (w.calloc nmemb size) c

/-! ## Bytes that stay -/

variable {w : World} {b c : Block}

omit [HeapConfig] in
theorem BlockKept.trans {w1 w2 w3 : World} (h : BlockKept w1 w2 b) (h' : BlockKept w2 w3 b) :
    BlockKept w1 w3 b :=
  ⟨h'.1, fun x hlo hhi => (h'.2 x hlo hhi).trans (h.2 x hlo hhi)⟩

omit [HeapConfig] in
theorem le_req_size (size : Nat) : size ≤ req_size size := by
  unfold req_size
  split <;> omega

theorem HeapInv.inside (h : HeapInv w) (hb : b ∈ w.live) :
    w.heap.alloc_start ≤ b.start ∧ b.start + ALLOC_HEADER_SIZE = b.ptr ∧
      b.ptr + req_size b.size ≤ b.stop ∧ b.stop < 2 ^ 32 := by
  have hheld := h.held b hb
  obtain ⟨hlo, hhi⟩ := h.safe.inside b hb
  have hptr := hheld.ptr_eq
  have hroom := hheld.room
  have hfits := h.layout.fits
  refine ⟨hlo, hptr.symm, ?_, by omega⟩
  unfold Block.stop at *
  omega

theorem HeapInv.apart (h : HeapInv w) (hb : b ∈ w.live) (hc : c ∈ w.live) (hne : b ≠ c) :
    b.stop ≤ c.start ∨ c.stop ≤ b.start := by
  have hpages := h.disjoint.forall hb hc hne
  unfold Block.stop
  rw [(h.held b hb).start, (h.held c hc).start]
  unfold Block.Apart at hpages
  unfold PAGE_SIZE
  omega

theorem HeapInv.malloc_step (h : HeapInv w) (size : UInt32) :
    HeapInv (w.step (.malloc size)) ∧ (∀ c ∈ w.live, BlockKept w (w.step (.malloc size)) c) ∧
      ((alloc.malloc w.heap size.toNat).1 = 0 ∧ (w.step (.malloc size)).live = w.live ∨
        (alloc.malloc w.heap size.toNat).1 ≠ 0 ∧
          (w.step (.malloc size)).live = ⟨(alloc.malloc w.heap size.toNat).1, size.toNat⟩ :: w.live ∧
          ∀ c ∈ w.live, c ≠ ⟨(alloc.malloc w.heap size.toNat).1, size.toNat⟩) := by
  have hinv := h.malloc size
  refine ⟨hinv, ?_⟩
  simp only [World.step] at hinv ⊢
  rcases malloc_cases w.heap size.toNat with hnull | ⟨b, hsize, hhole, htake⟩
  · rw [hnull]
    exact ⟨fun c hc => ⟨hc, fun x _ _ => rfl⟩, Or.inl ⟨rfl, rfl⟩⟩
  · have hptr : b.ptr ≠ 0 := by
      have hstart := HeapConfig.start_pos
      rw [hhole.ptr]
      omega
    have hblock : (⟨b.ptr, size.toNat⟩ : Block) = b := by rw [← hsize]
    rw [htake] at hinv ⊢
    dsimp only at hinv ⊢
    rw [if_neg hptr, hblock] at hinv ⊢
    have hnew : ∀ c ∈ w.live, c ≠ b := by
      rintro c hc rfl
      have hapart := h.apart_of_hole hhole hc
      have hpos := hhole.pos
      unfold Block.Apart at hapart
      omega
    refine ⟨fun c hc => ⟨List.mem_cons_of_mem _ hc, fun x hlo hhi => ?_⟩,
      Or.inr ⟨hptr, rfl, hnew⟩⟩
    have hbmem : b ∈ b :: w.live := List.mem_cons_self
    obtain ⟨hinside, -, -, -⟩ := h.inside hc
    obtain ⟨-, hbptr, hbroom, -⟩ := hinv.inside hbmem
    have hapart := hinv.apart hbmem (List.mem_cons_of_mem _ hc) (hnew c hc).symm
    exact h.layout.frame_taken hhole (by omega) (by omega)

theorem HeapInv.write_step (h : HeapInv w) (hb : b ∈ w.live) {n : Nat} (hn : b.ptr + n ≤ b.stop)
    (f : Nat → UInt8) :
    HeapInv (w.step (.write b.ptr n f)) ∧
      ∀ c ∈ w.live, c ≠ b → BlockKept w (w.step (.write b.ptr n f)) c := by
  refine ⟨h.write f ⟨b, hb, Nat.le_refl _, hn⟩, fun c hc hne => ⟨hc, fun x hlo hhi => ?_⟩⟩
  have hapart := h.apart hb hc hne.symm
  obtain ⟨-, hbptr, -, -⟩ := h.inside hb
  exact patch_out (by omega)

theorem HeapInv.free_step (h : HeapInv w) (hb : b ∈ w.live) :
    HeapInv ⟨alloc.free w.heap b.ptr, w.live.filter fun c => c.ptr ≠ b.ptr⟩ ∧
      ∀ c ∈ w.live, c ≠ b →
        BlockKept w ⟨alloc.free w.heap b.ptr, w.live.filter fun c => c.ptr ≠ b.ptr⟩ c := by
  refine ⟨h.free hb, fun c hc hne => ⟨?_, fun x hlo hhi => ?_⟩⟩
  · refine List.mem_filter.mpr ⟨hc, decide_eq_true fun hptr => hne ?_⟩
    exact h.eq_of_ptr hc hb hptr
  · have hapart := h.apart hb hc hne.symm
    obtain ⟨hinside, -, -, -⟩ := h.inside hc
    obtain ⟨-, hbptr, hbroom, -⟩ := h.inside hb
    exact h.layout.frame_free (h.held b hb) (by omega) (by omega)

/-! ## `realloc` -/

theorem HeapInv.realloc_eq (h : HeapInv w) (hb : b ∈ w.live) (size : UInt32) :
    alloc.realloc w.heap b.ptr size =
      if size.toNat ≤ req_size b.size then (b.ptr, w.heap)
      else
        let r := alloc.malloc w.heap size.toNat
        if r.1 = 0 then r
        else (r.1, alloc.free { r.2 with mem := copy r.2.mem r.1 b.ptr (req_size b.size) } b.ptr) := by
  have hheader := (h.held b hb).header
  obtain ⟨-, hptr, -, -⟩ := h.inside hb
  have hstart : b.ptr - 16 = b.start := rfl
  have hpos : b.ptr ≠ 0 := by
    unfold ALLOC_HEADER_SIZE at hptr
    omega
  unfold alloc.realloc
  dsimp only
  rw [if_neg hpos, hstart, hheader]
  simp only [ALLOC_MAGIC, if_true]

theorem HeapInv.realloc_fits (h : HeapInv w) (hb : b ∈ w.live) {size : UInt32}
    (hsize : size.toNat ≤ req_size b.size) : Reallocs w b size := by
  have heq := h.realloc_eq hb size
  rw [if_pos hsize] at heq
  have hworld : w.realloc b.ptr size = w := by
    unfold World.realloc
    rw [heq]
    simp
  obtain ⟨-, -, hroom, -⟩ := h.inside hb
  constructor
  · rw [hworld]
    exact h.safe
  · rw [hworld]
    exact fun _ => ⟨hb, fun x _ _ => rfl⟩
  · rw [hworld, heq]
    exact fun _ => ⟨b, hb, rfl, by omega⟩
  · rw [hworld, heq]
    exact fun _ i _ => rfl
  · rw [hworld]
    exact fun c hc _ => ⟨hc, fun x _ _ => rfl⟩

theorem HeapInv.realloc_null (h : HeapInv w) (hb : b ∈ w.live) {size : UInt32}
    (hsize : ¬ size.toNat ≤ req_size b.size) (hnull : (alloc.malloc w.heap size.toNat).1 = 0) :
    Reallocs w b size := by
  have heq := h.realloc_eq hb size
  dsimp only at heq
  rw [if_neg hsize, if_pos hnull] at heq
  have hworld : w.realloc b.ptr size = w.step (.malloc size) := by
    unfold World.realloc World.step
    dsimp only
    rw [heq, if_pos (Or.inl hnull), if_pos hnull]
  obtain ⟨hinv, hkept, -⟩ := h.malloc_step size
  constructor
  · rw [hworld]
    exact hinv.safe
  · rw [hworld]
    exact fun _ => hkept b hb
  · rw [heq]
    exact fun hne => absurd hnull hne
  · rw [heq]
    exact fun hne => absurd hnull hne
  · rw [hworld]
    exact fun c hc _ => hkept c hc

theorem HeapInv.realloc_moves (h : HeapInv w) (hb : b ∈ w.live) {size : UInt32}
    (hsize : ¬ size.toNat ≤ req_size b.size) (hptr : (alloc.malloc w.heap size.toNat).1 ≠ 0) :
    Reallocs w b size := by
  have heq := h.realloc_eq hb size
  dsimp only at heq
  rw [if_neg hsize, if_neg hptr] at heq
  obtain ⟨hinv1, hkept1, hcase⟩ := h.malloc_step size
  obtain ⟨-, hlive, hnew⟩ := hcase.resolve_left fun hnull => hptr hnull.1
  obtain ⟨w1, hw1⟩ : ∃ w1, w1 = w.step (.malloc size) := ⟨_, rfl⟩
  obtain ⟨d, hd⟩ : ∃ d : Block, d = ⟨(alloc.malloc w.heap size.toNat).1, size.toNat⟩ := ⟨_, rfl⟩
  rw [← hw1] at hinv1 hkept1
  rw [← hw1, ← hd] at hlive
  rw [← hd] at hnew
  have hd1 : d ∈ w1.live := by
    rw [hlive]
    exact List.mem_cons_self
  have hb1 : b ∈ w1.live := (hkept1 b hb).1
  have hdb : d.ptr ≠ b.ptr := fun hptr => hnew b hb (hinv1.eq_of_ptr hd1 hb1 hptr).symm
  obtain ⟨-, hdptr, hdroom, -⟩ := hinv1.inside hd1
  obtain ⟨-, hbptr, hbroom, -⟩ := h.inside hb
  have hdsize : size.toNat ≤ req_size d.size := by
    rw [hd]
    exact le_req_size _
  obtain ⟨w2, hw2⟩ : ∃ w2, w2 = w1.step (.write d.ptr (req_size b.size)
    fun i => w1.heap.mem (b.ptr + i)) := ⟨_, rfl⟩
  obtain ⟨hinv2, hkept2⟩ := hinv1.write_step hd1 (n := req_size b.size) (by omega)
    fun i => w1.heap.mem (b.ptr + i)
  rw [← hw2] at hinv2 hkept2
  have hlive2 : w2.live = w1.live := by
    rw [hw2]
    rfl
  have hb2 : b ∈ w2.live := hlive2 ▸ hb1
  obtain ⟨hinv3, hkept3⟩ := hinv2.free_step hb2
  have hworld : w.realloc b.ptr size =
      ⟨alloc.free w2.heap b.ptr, w2.live.filter fun c => c.ptr ≠ b.ptr⟩ := by
    have hfilter : w2.live.filter (fun c => c.ptr ≠ b.ptr) =
        d :: w.live.filter fun c => c.ptr ≠ b.ptr := by
      rw [hlive2, hlive]
      exact List.filter_cons_of_pos (decide_eq_true hdb)
    rw [hfilter, hw2, hw1, hd]
    unfold World.realloc
    rw [heq]
    rw [hd] at hdb
    dsimp only at hdb ⊢
    rw [if_neg (not_or.mpr ⟨hptr, hdb⟩)]
    rfl
  have hdkept := hkept3 d (hlive2 ▸ hd1) (hnew b hb).symm
  constructor
  · rw [hworld]
    exact hinv3.safe
  · rw [heq]
    exact fun hnull => absurd hnull hptr
  · rw [hworld, heq]
    refine fun _ => ⟨d, hdkept.1, by rw [hd], ?_⟩
    rw [hd] at hdroom hdsize ⊢
    dsimp only at hdroom hdsize ⊢
    omega
  · rw [hworld, heq]
    intro _ i hi
    have hq : (alloc.malloc w.heap size.toNat).1 = d.ptr := by rw [hd]
    dsimp only
    rw [hq]
    have hcopied : w2.heap.mem (d.ptr + i) = w1.heap.mem (b.ptr + i) := by
      rw [hw2]
      simp only [World.step]
      rw [patch_add (by omega)]
    have hkept := hdkept.2 (d.ptr + i) (by omega) (by omega)
    have hsource := (hkept1 b hb).2 (b.ptr + i) (by omega) (by omega)
    exact hkept.trans (hcopied.trans hsource)
  · rw [hworld]
    intro c hc hne
    have hc1 := hkept1 c hc
    have hc2 := hkept2 c hc1.1 (hnew c hc)
    exact (hc1.trans hc2).trans (hkept3 c hc2.1 hne)

theorem HeapInv.reallocs (h : HeapInv w) (hb : b ∈ w.live) (size : UInt32) :
    Reallocs w b size := by
  by_cases hsize : size.toNat ≤ req_size b.size
  · exact h.realloc_fits hb hsize
  by_cases hptr : (alloc.malloc w.heap size.toNat).1 = 0
  · exact h.realloc_null hb hsize hptr
  · exact h.realloc_moves hb hsize hptr

/-! ## `calloc` -/

omit [HeapConfig] in
theorem toNat_total (nmemb size : UInt32) :
    (total nmemb size).toNat = nmemb.toNat * size.toNat % 2 ^ 32 := UInt32.toNat_mul nmemb size

theorem calloc_of_ptr {s : Heap} {nmemb size : UInt32}
    (hptr : (malloc s (total nmemb size).toNat).1 ≠ 0) :
    calloc s nmemb size = ((malloc s (total nmemb size).toNat).1,
      { (malloc s (total nmemb size).toNat).2 with
        mem := (fill (malloc s (total nmemb size).toNat).2.mem
          (malloc s (total nmemb size).toNat).1 0 (total nmemb size).toNat) }) :=
  if_neg hptr

theorem HeapInv.callocs (h : HeapInv w) {nmemb size : UInt32}
    (hfits : nmemb.toNat * size.toNat < 2 ^ 32 ∨ NoRoom w.heap (total nmemb size)) :
    Callocs w nmemb size := by
  obtain ⟨hinv1, hkept1, hcase⟩ := h.malloc_step (total nmemb size)
  rcases hcase with ⟨hnull, hlive⟩ | ⟨hptr, hlive, hnew⟩
  · have heq : alloc.calloc w.heap nmemb size = alloc.malloc w.heap (total nmemb size).toNat :=
      if_pos hnull
    have hworld : w.calloc nmemb size = w.step (.malloc (total nmemb size)) := by
      unfold World.calloc World.step
      rw [heq]
    constructor
    · rw [hworld]
      exact hinv1.safe
    · rw [heq]
      exact fun hne => absurd hnull hne
    · rw [heq]
      exact fun hne => absurd hnull hne
    · rw [hworld]
      exact hkept1
  have hproduct : nmemb.toNat * size.toNat < 2 ^ 32 :=
    hfits.resolve_right fun hroom => hptr ((malloc_null_iff _ _).mpr hroom)
  have htotal : (total nmemb size).toNat = nmemb.toNat * size.toNat := by
    rw [toNat_total, Nat.mod_eq_of_lt hproduct]
  obtain ⟨d, hd⟩ : ∃ d : Block, d = ⟨(alloc.malloc w.heap (total nmemb size).toNat).1,
    (total nmemb size).toNat⟩ := ⟨_, rfl⟩
  rw [← hd] at hlive hnew
  have hd1 : d ∈ (w.step (.malloc (total nmemb size))).live := by
    rw [hlive]
    exact List.mem_cons_self
  obtain ⟨-, -, hdroom, -⟩ := hinv1.inside hd1
  have hdsize := le_req_size d.size
  obtain ⟨hinv2, hkept2⟩ := @HeapInv.write_step _ _ d hinv1 hd1 d.size (by omega) fun _ => 0
  have heq : (alloc.calloc w.heap nmemb size).1 = d.ptr := by
    rw [hd, calloc_of_ptr hptr]
  have hworld : w.calloc nmemb size =
      (w.step (.malloc (total nmemb size))).step (.write d.ptr d.size fun _ => 0) := by
    unfold World.calloc World.step
    dsimp only
    rw [calloc_of_ptr hptr, if_neg hptr, hd]
    rfl
  have hsize : d.size = nmemb.toNat * size.toNat := by rw [hd, htotal]
  constructor
  · rw [hworld]
    exact hinv2.safe
  · rw [hworld, heq, ← hsize]
    exact fun _ => ⟨d, hd1, rfl, by omega⟩
  · rw [hworld, heq, ← hsize]
    intro _ i hi
    simp only [World.step]
    rw [patch_add hi]
  · rw [hworld]
    intro c hc
    exact (hkept1 c hc).trans (hkept2 c (hkept1 c hc).1 (hnew c hc))

theorem not_callocs {nmemb size : UInt32} (hwraps : 2 ^ 32 ≤ nmemb.toNat * size.toNat)
    (hroom : ¬ NoRoom w.heap (total nmemb size)) (hinv : HeapInv w) : ¬ Callocs w nmemb size := by
  intro h
  have hptr : (alloc.malloc w.heap (total nmemb size).toNat).1 ≠ 0 :=
    fun hnull => hroom ((malloc_null_iff _ _).mp hnull)
  have heq : (alloc.calloc w.heap nmemb size).1 =
      (alloc.malloc w.heap (total nmemb size).toNat).1 := by
    rw [calloc_of_ptr hptr]
  obtain ⟨d, hd, -, hlarge⟩ := h.room (by rw [heq]; exact hptr)
  have hinside := (h.safe.inside d hd).2
  have hend : (w.calloc nmemb size).heap.alloc_end = w.heap.alloc_end := by
    unfold World.calloc
    dsimp only
    rw [calloc_of_ptr hptr]
    dsimp only
    rcases malloc_cases w.heap (total nmemb size).toNat with hnull | ⟨b, -, -, htake⟩
    · exact absurd (by rw [hnull]) hptr
    · rw [htake]
      rfl
  have hfits := hinv.layout.fits
  omega

/-- In every heap that careful clients reach, `realloc` keeps what its block holds and every other
block, and `calloc` gives zeros for all members, exactly when the product of its arguments is a
32-bit word or there is no room for what is left of the product. -/
theorem realloc_calloc_iff {m : Mem} (hw : Reaches Careful m w) (hb : b ∈ w.live)
    (size nmemb member : UInt32) :
    Reallocs w b size ∧ Callocs w nmemb member ↔
      nmemb.toNat * member.toNat < 2 ^ 32 ∨ NoRoom w.heap (total nmemb member) := by
  have h := heapInv_of_reaches hw
  constructor
  · rintro ⟨-, hcallocs⟩
    by_contra hnot
    obtain ⟨hwraps, hroom⟩ := not_or.mp hnot
    exact not_callocs (Nat.le_of_not_lt hwraps) hroom h hcallocs
  · exact fun hfits => ⟨h.reallocs hb size, h.callocs hfits⟩

end Resize

theorem heldWorld_reached : @Reaches smallHeap Careful (fun _ => 0) heldWorld := by
  have hfresh : @Reaches smallHeap Careful (fun _ => 0) freshWorld :=
    @Reaches.init smallHeap _ (fun _ => 0) _ (Option.some_get small_fresh).symm
  exact @Reaches.step smallHeap _ _ freshWorld (.malloc 8176) hfresh
    ⟨trivial, fun _ h => nomatch h⟩

/-- The block of two pages grows, and there are zeros for four members of 8 bytes. -/
theorem realloc_calloc_iff_held :
    @Reallocs smallHeap heldWorld ⟨0x80401010, 8176⟩ 10000 ∧
      @Callocs smallHeap heldWorld 4 8 := by
  have hb : (⟨0x80401010, 8176⟩ : Block) ∈ heldWorld.live := by
    rw [heldWorld_live]
    exact List.mem_singleton.mpr rfl
  exact (@realloc_calloc_iff smallHeap _ _ _ heldWorld_reached hb 10000 4 8).mpr
    (Or.inl (by decide))

/-- Two members of 2 ^ 31 bytes: the product is 0, and `calloc` gives one page. -/
theorem calloc_wraps :
    @Reaches smallHeap Careful (fun _ => 0) heldWorld ∧
      (@calloc smallHeap heldWorld.heap 2 0x80000000).1 = 0x80403010 ∧
      ¬ @Callocs smallHeap heldWorld 2 0x80000000 := by
  have hroom : ¬ @NoRoom smallHeap heldWorld.heap (total 2 0x80000000) := by
    intro hroom
    have hnull := (@malloc_null_iff smallHeap _ _).mpr hroom
    have hptr : (@malloc smallHeap heldWorld.heap (total 2 0x80000000).toNat).1 = 0x80403010 := by
      decide
    rw [hptr] at hnull
    cases hnull
  exact ⟨heldWorld_reached, by decide, @not_callocs smallHeap _ _ _ (by decide) hroom
    (@heapInv_of_reaches smallHeap _ _ heldWorld_reached)⟩

end vibeos.alloc

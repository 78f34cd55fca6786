-- The heap of a JIT job, of tcc_glue.c: a list of blocks in the bytes of the job, with
-- the headers in the memory that the job writes to.
import Vibeos.ByteMem

namespace vibeos.tcc_glue

open vibeos.Mem

/-- The board that the kernel is built for. -/
class JitConfig where
  FPGA_MINIMAL : Bool

def JIT_UHEAP_SIZE [JitConfig] : Nat :=
  if JitConfig.FPGA_MINIMAL then 1024 * 1024 else 16 * 1024 * 1024

def JIT_UHEAP_MAGIC : Nat := 0x55484d30

structure UBlock where
  magic : Nat
  size : Nat
  free : Nat
  next : Nat
deriving DecidableEq

def UBLOCK_SIZE : Nat := 16

/-- The block header in memory at an address. -/
def ublock (m : Mem) (b : Nat) : UBlock where
  magic := readLE m b 4
  size := readLE m (b + 4) 4
  free := readLE m (b + 8) 4
  next := readLE m (b + 12) 4

def set_size (m : Mem) (b v : Nat) : Mem := writeLE m (b + 4) 4 v
def set_free (m : Mem) (b v : Nat) : Mem := writeLE m (b + 8) 4 v
def set_next (m : Mem) (b v : Nat) : Mem := writeLE m (b + 12) 4 v

def set_ublock (m : Mem) (b : Nat) (u : UBlock) : Mem :=
  set_next (set_free (set_size (writeLE m b 4 u.magic) b u.size) b u.free) b u.next

/-- What the heap functions use of `struct jit_job`. Another task may ask for the job to be
cancelled while it yields: `cancels n` says whether one does in the yield number `n`. -/
structure JitJob where
  mem : Mem
  uheap : Nat
  uheap_head : Nat
  cancel_requested : Bool
  cancels : Nat → Bool
  yields : Nat

def jit_align8 (n : Nat) : Nat := (n + 7) % 2 ^ 32 / 8 * 8

/-- `jit_maybe_yield`, as far as the job can tell. -/
def jit_maybe_yield (job : JitJob) : JitJob :=
  { job with
    cancel_requested := job.cancel_requested || job.cancels job.yields
    yields := job.yields + 1 }

section Heap

variable [JitConfig]

def jit_uheap_reset (job : JitJob) : JitJob :=
  { job with
    uheap_head := job.uheap
    mem := set_ublock job.mem job.uheap ⟨JIT_UHEAP_MAGIC, JIT_UHEAP_SIZE - UBLOCK_SIZE, 1, 0⟩ }

/-- The loop of `jit_uheap_coalesce`, `none` when the list does not end. -/
def coalesce_loop : Nat → Nat → Mem → Option Mem
  | 0, _, _ => none
  | rounds + 1, b, m =>
    if b = 0 ∨ (ublock m b).next = 0 then some m
    else
      let next := (ublock m b).next
      if (ublock m b).free ≠ 0 ∧ (ublock m next).free ≠ 0 then
        let m := set_size m b
          (((ublock m b).size + (UBLOCK_SIZE + (ublock m next).size)) % 2 ^ 32)
        coalesce_loop rounds b (set_next m b (ublock m next).next)
      else coalesce_loop rounds next m

def jit_uheap_coalesce (job : JitJob) : Option JitJob :=
  (coalesce_loop JIT_UHEAP_SIZE job.uheap_head job.mem).map fun m => { job with mem := m }

/-- The block `b` is taken for `need` bytes; what is left becomes a block of its own. -/
def take_block (m : Mem) (b need : Nat) : Mem :=
  let remain := (ublock m b).size - need
  let m :=
    if remain > UBLOCK_SIZE + 8 then
      let n := (b + UBLOCK_SIZE + need) % 2 ^ 32
      let m := set_ublock m n ⟨JIT_UHEAP_MAGIC, remain - UBLOCK_SIZE, 1, (ublock m b).next⟩
      set_size (set_next m b n) b need
    else m
  set_free m b 0

/-- The loop of `umalloc`, `none` when the list does not end. -/
def umalloc_loop (need : Nat) : Nat → Nat → Mem → Option (Nat × Mem)
  | 0, _, _ => none
  | rounds + 1, b, m =>
    if b = 0 then some (0, m)
    else if (ublock m b).magic ≠ JIT_UHEAP_MAGIC then some (0, m)
    else if (ublock m b).free ≠ 0 ∧ (ublock m b).size ≥ need then
      some (b + UBLOCK_SIZE, take_block m b need)
    else umalloc_loop need rounds (ublock m b).next m

def umalloc (job : JitJob) (size : Nat) : Option (Nat × JitJob) :=
  if job.cancel_requested then some (0, job)
  else
    let job := jit_maybe_yield job
    let job := if job.uheap_head = 0 then jit_uheap_reset job else job
    let need := jit_align8 (if size ≠ 0 then size else 1)
    (umalloc_loop need JIT_UHEAP_SIZE job.uheap_head job.mem).map fun r =>
      (r.1, { job with mem := r.2 })

def ufree (job : JitJob) (p : Nat) : Option JitJob :=
  if p = 0 then some job
  else if job.cancel_requested then some job
  else
    let job := jit_maybe_yield job
    if p < job.uheap + UBLOCK_SIZE ∨ p ≥ job.uheap + JIT_UHEAP_SIZE then some job
    else
      let b := p - UBLOCK_SIZE
      if (ublock job.mem b).magic ≠ JIT_UHEAP_MAGIC ∨ (ublock job.mem b).free ≠ 0 then some job
      else jit_uheap_coalesce { job with mem := set_free job.mem b 1 }

def ucalloc (job : JitJob) (nmemb size : Nat) : Option (Nat × JitJob) :=
  if job.cancel_requested then some (0, job)
  else
    let job := jit_maybe_yield job
    let total := nmemb * size % 2 ^ 32
    if size ≠ 0 ∧ total / size ≠ nmemb then some (0, job)
    else
      (umalloc job (if total ≠ 0 then total else 1)).map fun r =>
        if r.1 ≠ 0 then (r.1, { r.2 with mem := fill r.2.mem r.1 0 total }) else r

def urealloc (job : JitJob) (ptr size : Nat) : Option (Nat × JitJob) :=
  if job.cancel_requested then some (0, job)
  else
    let job := jit_maybe_yield job
    if ptr = 0 then umalloc job size
    else if size = 0 then (ufree job ptr).map fun job => (0, job)
    else if ptr < job.uheap + UBLOCK_SIZE ∨ ptr ≥ job.uheap + JIT_UHEAP_SIZE then some (0, job)
    else
      let b := ptr - UBLOCK_SIZE
      if (ublock job.mem b).magic ≠ JIT_UHEAP_MAGIC ∨ (ublock job.mem b).free ≠ 0 then
        some (0, job)
      else if (ublock job.mem b).size ≥ size then some (ptr, job)
      else
        (umalloc job size).bind fun r =>
          if r.1 ≠ 0 then
            let job := { r.2 with mem := copy r.2.mem r.1 ptr (ublock r.2.mem b).size }
            (ufree job ptr).map fun job => (r.1, job)
          else some r

end Heap

end vibeos.tcc_glue

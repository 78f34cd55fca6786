-- The pointers of an application in its calls: the dispatcher touches what the arguments name,
-- wherever it lies.
import Vibeos.Ecall

namespace vibeos.trap

open vibeos.fs vibeos.app_runtime

/-! ## Reads and writes of files -/

theorem appfs_read_bytes {s s' : AppFs} {fd_no : Int} {size : Nat} {rc : Int}
    {bytes : List UInt8} (h : appfs_read s fd_no size = .returns rc (s', bytes)) :
    bytes.length ≤ size ∧ (bytes ≠ [] → OpenFor s fd_no APP_O_READ) := by
  unfold appfs_read at h
  cases hfd : app_fd s fd_no with
  | none =>
    rw [hfd] at h
    cases h
    exact ⟨Nat.zero_le _, fun hne => absurd rfl hne⟩
  | some p =>
    obtain ⟨i, fd⟩ := p
    rw [hfd] at h
    simp only at h
    split at h
    · cases h
      exact ⟨Nat.zero_le _, fun hne => absurd rfl hne⟩
    · rename_i hperm
      rw [not_not] at hperm
      split at h
      · cases h
        exact ⟨Nat.zero_le _, fun hne => absurd rfl hne⟩
      · have hchunk : (if fd.size - fd.pos < size then fd.size - fd.pos else size) ≤ size := by
          split
          · omega
          · omega
        generalize (if fd.size - fd.pos < size then fd.size - fd.pos else size) = chunk at h hchunk
        split at h
        · cases h
          refine ⟨?_, fun _ => ⟨i, fd, hfd, hperm⟩⟩
          rw [List.length_take]
          omega
        · cases h

theorem appfs_read_overruns {s : AppFs} {fd_no : Int} {size : Nat}
    (h : appfs_read s fd_no size = .overruns) : OpenFor s fd_no APP_O_READ := by
  unfold appfs_read at h
  cases hfd : app_fd s fd_no with
  | none =>
    rw [hfd] at h
    cases h
  | some p =>
    obtain ⟨i, fd⟩ := p
    rw [hfd] at h
    simp only at h
    split at h
    · cases h
    · rename_i hperm
      exact ⟨i, fd, hfd, not_not.mp hperm⟩

theorem appfs_write_open {heap : Heap} {s : AppFs} {fd_no : Int} {data : List UInt8}
    {r : Outcome AppFs} (hwrite : appfs_write heap s fd_no data = r)
    (h : ∀ s', r ≠ .returns (-1) s') : OpenFor s fd_no APP_O_WRITE := by
  rw [← hwrite] at h
  unfold appfs_write at h
  cases hfd : app_fd s fd_no with
  | none =>
    rw [hfd] at h
    exact absurd rfl (h s)
  | some p =>
    obtain ⟨i, fd⟩ := p
    rw [hfd] at h
    simp only at h
    by_cases hperm : hasFlag fd.flags APP_O_WRITE = true
    · exact ⟨i, fd, hfd, hperm⟩
    · rw [if_pos hperm] at h
      exact absurd rfl (h s)

/-! ## The footprint of a call -/

variable {env : Env} {k : Kernel} {epc : BitVec 32} {regs : Frame}

theorem Called.touches_reads {e : Ended} {k : Kernel} {p : BitVec 32} {n x : Nat} :
    Called.Touches ⟨e, k, [(p, n)], []⟩ x ↔ x ∈ bufferOf p n := by
  simp [Called.Touches]

theorem Called.touches_writes {e : Ended} {k : Kernel} {p : BitVec 32} {n x : Nat} :
    Called.Touches ⟨e, k, [], [(p, n)]⟩ x ↔ x ∈ bufferOf p n := by
  simp [Called.Touches]

theorem Called.touches_none {e : Ended} {k : Kernel} {x : Nat} :
    ¬ Called.Touches ⟨e, k, [], []⟩ x := by
  simp [Called.Touches]

theorem bufferOf_mono {p : BitVec 32} {n n' x : Nat} (hle : n ≤ n') (hx : x ∈ bufferOf p n) :
    x ∈ bufferOf p n' := by
  obtain ⟨i, hi, hx⟩ := hx
  exact ⟨i, by omega, hx⟩

/-- What a call of each number touches is what its arguments name, and other bytes keep their
values. -/
structure Within (k : Kernel) (regs : Frame) (c : Called) : Prop where
  touches : ∀ x, c.Touches x → x ∈ Named k regs
  mem : ∀ x, x ∉ Named k regs → c.kernel.mem x = k.mem x

theorem Within.of_none {e : Ended} {k' : Kernel} (h : k'.mem = k.mem) :
    Within k regs ⟨e, k', [], []⟩ :=
  ⟨fun _ hx => absurd hx Called.touches_none, fun _ _ => by rw [h]⟩

theorem sys_puts_reads {k' : Kernel} {n : Nat} {s : BitVec 32}
    (h : sys_puts env k s = some (k', n)) :
    k'.mem = k.mem ∧ ∀ x, x ∈ bufferOf s n → x ∈ stringOf k.mem s := by
  have hzero : ∀ x, x ∈ bufferOf s 0 → x ∈ stringOf k.mem s := by
    intro x ⟨i, hi, _⟩
    omega
  unfold sys_puts at h
  split at h
  · split at h
    · cases h
      exact ⟨rfl, hzero⟩
    · split at h
      · cases h
        exact ⟨rfl, hzero⟩
      · obtain ⟨n', hn, heq⟩ := Option.map_eq_some_iff.mp h
        cases heq
        refine ⟨rfl, ?_⟩
        intro x hx
        unfold string_size at hn
        apply puts_reads (f := fun _ => true)
        rw [hn]
        exact hx
  · obtain ⟨n', hn, heq⟩ := Option.map_eq_some_iff.mp h
    cases heq
    refine ⟨rfl, ?_⟩
    intro x hx
    apply puts_reads (f := env.uart_takes)
    rw [hn]
    exact hx

theorem sys_puts_diverges {s : BitVec 32} (h : sys_puts env k s = none) :
    ∀ x, x ∈ bufferOf s 4294967296 → x ∈ stringOf k.mem s := by
  intro x hx
  unfold sys_puts at h
  split at h
  · split at h
    · cases h
    · split at h
      · cases h
      · rw [Option.map_eq_none_iff, string_size] at h
        apply puts_reads (f := fun _ => true)
        rw [h]
        exact hx
  · rw [Option.map_eq_none_iff] at h
    apply puts_reads (f := env.uart_takes)
    rw [h]
    exact hx

theorem sys_putc_mem (ch : UInt8) : (sys_putc env k ch).mem = k.mem := by
  unfold sys_putc
  split
  · split
    · rfl
    · rfl
  · split
    · rfl
    · rfl

theorem app_heap_alloc_mem (size : BitVec 32) : (app_heap_alloc k size).2.mem = k.mem := by
  unfold app_heap_alloc
  simp only
  rw [apply_ite Prod.snd, apply_ite Kernel.mem]
  exact ite_self _

section

variable [BuildConfig]

theorem within_puts (h2 : (regs a7).toNat = 2) : Within k regs (ecall env k epc regs) := by
  have hnamed : Named k regs = stringOf k.mem (regs a0) := by
    unfold Named
    rw [h2]
    rfl
  unfold ecall
  rw [h2]
  simp only
  cases hputs : sys_puts env k (regs a0) with
  | none =>
    refine ⟨?_, fun _ _ => rfl⟩
    intro x hx
    rw [hnamed]
    exact sys_puts_diverges hputs x (Called.touches_reads.mp hx)
  | some r =>
    obtain ⟨k', n⟩ := r
    obtain ⟨hmem, hreads⟩ := sys_puts_reads hputs
    refine ⟨?_, fun _ _ => by rw [hmem]⟩
    intro x hx
    rw [hnamed]
    exact hreads x (Called.touches_reads.mp hx)

theorem within_open (h7 : (regs a7).toNat = 7) : Within k regs (ecall env k epc regs) := by
  have hnamed : ∀ x, x ∈ Named k regs ↔ regs a0 ≠ 0 ∧ appfs_find_fd k.fs ≠ none ∧
      x ∈ stringOf k.mem (regs a0) := by
    intro x
    unfold Named
    rw [h7]
    rfl
  have hreads : ∀ (e : Ended) (k' : Kernel), k'.mem = k.mem → Within k regs ⟨e, k',
      if regs a0 = 0 ∨ appfs_find_fd k.fs = none then []
      else [(regs a0, (string_size k.mem (regs a0)).getD 4294967296)], []⟩ := by
    intro e k' hmem
    by_cases hnone : regs a0 = 0 ∨ appfs_find_fd k.fs = none
    · rw [if_pos hnone]
      exact Within.of_none hmem
    · rw [if_neg hnone]
      rw [not_or] at hnone
      refine ⟨?_, fun _ _ => by rw [hmem]⟩
      intro x hx
      exact (hnamed x).mpr ⟨hnone.1, hnone.2, puts_reads (Called.touches_reads.mp hx)⟩
  unfold ecall
  rw [h7]
  simp only
  split
  · exact hreads _ _ rfl
  · split
    · exact hreads _ _ rfl
    · exact hreads _ _ rfl
    · exact hreads _ _ rfl

theorem within_read (h8 : (regs a7).toNat = 8) : Within k regs (ecall env k epc regs) := by
  have hnamed : ∀ x, x ∈ Named k regs ↔ regs a1 ≠ 0 ∧
      OpenFor k.fs (regs a0).toInt APP_O_READ ∧ x ∈ bufferOf (regs a1) (regs a2).toNat := by
    intro x
    unfold Named
    rw [h8]
    rfl
  unfold ecall
  rw [h8]
  simp only
  by_cases hnull : regs a1 = 0
  · rw [if_pos hnull]
    exact Within.of_none rfl
  rw [if_neg hnull]
  split
  · rename_i rc fs bytes hread
    obtain ⟨hlen, hopen⟩ := appfs_read_bytes hread
    -- without bytes nothing is written
    have hin : ∀ x, x ∈ bufferOf (regs a1) bytes.length → x ∈ Named k regs := by
      intro x hx
      have hbytes : bytes ≠ [] := by
        intro hnil
        obtain ⟨i, hi, _⟩ := hx
        rw [hnil] at hi
        exact Nat.not_lt_zero i hi
      exact (hnamed x).mpr ⟨hnull, hopen hbytes, bufferOf_mono hlen hx⟩
    refine ⟨?_, ?_⟩
    · intro x hx
      exact hin x (Called.touches_writes.mp hx)
    · intro x hx
      exact storeAt_outside fun hmem => hx (hin x hmem)
  · exact Within.of_none rfl
  · rename_i hread
    refine ⟨?_, fun _ _ => rfl⟩
    intro x hx
    exact (hnamed x).mpr ⟨hnull, appfs_read_overruns hread, Called.touches_writes.mp hx⟩

theorem within_write (h9 : (regs a7).toNat = 9) : Within k regs (ecall env k epc regs) := by
  have hnamed : ∀ x, x ∈ Named k regs ↔ regs a1 ≠ 0 ∧
      OpenFor k.fs (regs a0).toInt APP_O_WRITE ∧ x ∈ bufferOf (regs a1) (regs a2).toNat := by
    intro x
    unfold Named
    rw [h9]
    rfl
  unfold ecall
  rw [h9]
  simp only
  by_cases hnull : regs a1 = 0
  · rw [if_pos hnull]
    exact Within.of_none rfl
  rw [if_neg hnull]
  -- a write that reads the buffer is not refused
  have hreads : ∀ (e : Ended) (k' : Kernel) (r : Outcome AppFs), k'.mem = k.mem →
      appfs_write env.heap k.fs (regs a0).toInt (bytesAt k.mem (regs a1) (regs a2).toNat) = r →
      (∀ s', r ≠ .returns (-1) s') →
      Within k regs ⟨e, k', [(regs a1, (regs a2).toNat)], []⟩ := by
    intro e k' r hmem hwrite hr
    refine ⟨?_, fun _ _ => by rw [hmem]⟩
    intro x hx
    exact (hnamed x).mpr ⟨hnull, appfs_write_open hwrite hr, Called.touches_reads.mp hx⟩
  split
  · rename_i rc fs hwrite
    by_cases hrc : rc = -1
    · rw [if_pos hrc]
      exact Within.of_none rfl
    · rw [if_neg hrc]
      apply hreads _ { k with fs := fs } _ rfl hwrite
      intro s' hfail
      cases hfail
      exact hrc rfl
  · exact Within.of_none rfl
  · rename_i hwrite
    apply hreads _ k _ rfl hwrite
    intro s' hfail
    cases hfail

theorem ecall_within (env : Env) (k : Kernel) (epc : BitVec 32) (regs : Frame) :
    Within k regs (ecall env k epc regs) := by
  by_cases h2 : (regs a7).toNat = 2
  · exact within_puts h2
  by_cases h7 : (regs a7).toNat = 7
  · exact within_open h7
  by_cases h8 : (regs a7).toNat = 8
  · exact within_read h8
  by_cases h9 : (regs a7).toNat = 9
  · exact within_write h9
  unfold ecall
  simp only
  split
  · exact Within.of_none (sys_putc_mem _)
  · exact absurd ‹_› h2
  · exact Within.of_none (app_heap_alloc_mem _)
  · exact Within.of_none rfl
  · exact Within.of_none rfl
  · exact Within.of_none rfl
  · exact absurd ‹_› h7
  · exact absurd ‹_› h8
  · exact absurd ‹_› h9
  · exact Within.of_none rfl
  · split
    · exact Within.of_none rfl
    · exact Within.of_none rfl
    · exact Within.of_none rfl
  · exact Within.of_none rfl

/-! ## The application region -/

def InApp [AppConfig] (x : Nat) : Prop := APP_START ≤ x ∧ x < APP_END

def HasByte (s : AppFs) (fd_no : Int) (j : Nat) : Prop :=
  ∃ i fd, app_fd s fd_no = some (i, fd) ∧ hasFlag fd.flags APP_O_READ = true ∧
    j < fd.size - fd.pos

theorem read_touches (h8 : (regs a7).toNat = 8) (hnull : regs a1 ≠ 0) {j : Nat}
    (hj : j < (regs a2).toNat) (hfile : HasByte k.fs (regs a0).toInt j) :
    (ecall env k epc regs).Touches (at_ (regs a1) j) := by
  obtain ⟨i, fd, hfd, hperm, hbyte⟩ := hfile
  unfold ecall
  rw [h8]
  simp only
  rw [if_neg hnull]
  unfold appfs_read
  simp only [hfd, hperm, not_true_eq_false, if_false]
  rw [if_neg (by omega)]
  have hchunk : j < if fd.size - fd.pos < (regs a2).toNat then fd.size - fd.pos
      else (regs a2).toNat := by
    split
    · exact hbyte
    · exact hj
  generalize (if fd.size - fd.pos < (regs a2).toNat then fd.size - fd.pos
      else (regs a2).toNat) = chunk at hchunk ⊢
  by_cases hcap : fd.pos + chunk ≤ fd.cap
  · rw [if_pos hcap]
    have hbuf : fd.buf.length = fd.cap := rfl
    refine Called.touches_writes.mpr ⟨j, ?_, rfl⟩
    rw [List.length_take, List.length_drop]
    omega
  · rw [if_neg hcap]
    exact Called.touches_writes.mpr ⟨j, hj, rfl⟩

/-- A call touches what its arguments name and nothing else, so it stays in the application region
if they do. No range is checked: a read writes to its buffer also outside of the region. -/
theorem ecall_region [AppConfig] (env : Env) (k : Kernel) (epc : BitVec 32) (regs : Frame) :
    (∀ x, (ecall env k epc regs).Touches x → x ∈ Named k regs) ∧
    (∀ x, x ∉ Named k regs → (ecall env k epc regs).kernel.mem x = k.mem x) ∧
    ((∀ x, x ∈ Named k regs → InApp x) → ∀ x, (ecall env k epc regs).Touches x → InApp x) ∧
    ((regs a7).toNat = 8 → regs a1 ≠ 0 → ∀ j < (regs a2).toNat,
      HasByte k.fs (regs a0).toInt j → (ecall env k epc regs).Touches (at_ (regs a1) j)) := by
  have hwithin := ecall_within env k epc regs
  refine ⟨hwithin.touches, hwithin.mem, ?_, ?_⟩
  · intro hregion x hx
    exact hregion x (hwithin.touches x hx)
  · intro h8 hnull j hj hfile
    exact read_touches h8 hnull hj hfile

end

section

attribute [local instance] fpgaBuild qemuApps

/-- An application whose file "f" has the bytes "hi", and a buffer at the start of the memory of
the kernel. -/
def readingKernel : Kernel where
  mem := fun _ => 0
  fs := writtenFs 0
  wins := []
  app_owner_win_id := -1
  uart := []
  loaded_app_heap_lo := 0
  loaded_app_heap_hi := 0
  loaded_app_heap_cur := 0
  loaded_app_exit_code := 0
  need_resched := false
  satp := 0
  mstatus := 0

def idleEnv : Env where
  heap := zeroHeap
  now := 0
  get_millisecond_timer := 0
  uart_takes := fun _ => true
  app_exit_stack_top := 0
  app_exit_resume_pc := 0

def readKernel : Frame := fun r =>
  if r = a0 then 3 else if r = a1 then 0x80000000 else if r = a2 then 2
  else if r = a7 then 8 else 0

/-- A read writes to memory of the kernel. -/
theorem read_leaves_region :
    ∃ x, (ecall idleEnv readingKernel 0 readKernel).Touches x ∧ ¬ InApp x ∧
      (ecall idleEnv readingKernel 0 readKernel).kernel.mem x ≠ readingKernel.mem x := by
  refine ⟨2147483648, ?_, by unfold InApp; decide, ?_⟩
  · exact read_touches (j := 0) rfl (by decide) (by decide)
      ⟨firstSlot, sampleEntry 0 2 (lit ['h', 'i'] ++ List.replicate 254 0), rfl, rfl, by decide⟩
  · decide +kernel

end

end vibeos.trap

-- The calls of an application in trap.c, with the addresses that the dispatcher reads and
-- writes through the pointers of the caller.
import Vibeos.AppFsRuns
import Vibeos.ElfLoad

namespace vibeos.trap

open vibeos.fs vibeos.app_runtime

/-- The saved registers, `x1` first. -/
abbrev Frame := Fin 32 → BitVec 32

def a0 : Fin 32 := 9
def a1 : Fin 32 := 10
def a2 : Fin 32 := 11
def a7 : Fin 32 := 16
def sp : Fin 32 := 1

/-- The address of byte `i` behind a pointer. -/
def at_ (p : BitVec 32) (i : Nat) : Nat := (p.toNat + i) % 4294967296

def bytesAt (m : Mem) (p : BitVec 32) (n : Nat) : List UInt8 :=
  (List.range n).map fun i => m (at_ p i)

def storeAt (m : Mem) (p : BitVec 32) (d : List UInt8) : Mem := fun x =>
  match d[(x + (4294967296 - p.toNat)) % 4294967296]? with
  | some b => if x < 4294967296 then b else m x
  | none => m x

/-! ## The output of an application -/

def OUT_BUF_SIZE : Nat := 2048

/-- A window, with the text that the application gave it. `lines` are the texts for
`append_terminal_line`, the last one first. -/
structure Terminal where
  active : Bool
  terminal : Bool
  app_stdout : List UInt8
  lines : List (List UInt8)

def terminal_app_stdout_flush (w : Terminal) : Terminal :=
  if w.terminal = false ∨ w.app_stdout = [] then w
  else { w with lines := w.app_stdout :: w.lines, app_stdout := [] }

def terminal_app_stdout_putc (w : Terminal) (ch : UInt8) : Terminal :=
  if w.active = false ∨ w.terminal = false then w
  else if ch = '\r'.toUInt8 then w
  else if ch = '\n'.toUInt8 then terminal_app_stdout_flush w
  else
    let w := if OUT_BUF_SIZE - 1 ≤ w.app_stdout.length then terminal_app_stdout_flush w else w
    if w.app_stdout.length < OUT_BUF_SIZE - 1 then { w with app_stdout := w.app_stdout ++ [ch] }
    else w

/-- The loop over a string: it ends at the NUL, or at a byte that `sent` does not take, and gives
the number of bytes that it read. -/
def puts_loop (sent : Nat → Bool) (m : Mem) (s : BitVec 32) : Nat → Nat → Option Nat
  | 0, _ => none
  | rounds + 1, i =>
    if m (at_ s i) = 0 ∨ sent i = false then some (i + 1) else puts_loop sent m s rounds (i + 1)

/-- The number of bytes of a string, its NUL included. A memory without a NUL has none. -/
def string_size (m : Mem) (s : BitVec 32) : Option Nat :=
  puts_loop (fun _ => true) m s 4294967296 0

def stringAt (m : Mem) (s : BitVec 32) : List UInt8 :=
  (bytesAt m s ((string_size m s).getD 4294967296)).takeWhile (· ≠ 0)

/-! ## The dispatcher -/

structure Kernel where
  mem : Mem
  fs : AppFs
  wins : List Terminal
  app_owner_win_id : Int
  uart : List UInt8
  loaded_app_heap_lo : BitVec 32
  loaded_app_heap_hi : BitVec 32
  loaded_app_heap_cur : BitVec 32
  loaded_app_exit_code : BitVec 32
  need_resched : Bool
  satp : BitVec 32
  mstatus : BitVec 32

/-- What the rest of the machine gives during a call: memory, time, how far the UART takes the
bytes of a string, and where the loader waits for the end of the application. -/
structure Env where
  heap : Heap
  now : Nat
  get_millisecond_timer : BitVec 32
  uart_takes : Nat → Bool
  app_exit_stack_top : BitVec 32
  app_exit_resume_pc : BitVec 32

inductive Ended where
  | resumes (pc : BitVec 32) (regs : Frame)
  | panics
  | diverges
  | overruns

/-- A call: its end, the state behind it, and the ranges behind pointers of the caller. -/
structure Called where
  ended : Ended
  kernel : Kernel
  reads : List (BitVec 32 × Nat)
  writes : List (BitVec 32 × Nat)

def align_up_reg (v align : BitVec 32) : BitVec 32 := (v + align - 1) &&& ~~~(align - 1)

def app_heap_alloc (k : Kernel) (size : BitVec 32) : BitVec 32 × Kernel :=
  let need := align_up_reg size 16
  let cur := align_up_reg k.loaded_app_heap_cur 16
  let need := if need = 0 then 16 else need
  let cur := if cur < k.loaded_app_heap_lo then align_up_reg k.loaded_app_heap_lo 16 else cur
  if k.loaded_app_heap_hi ≤ cur ∨ k.loaded_app_heap_hi - cur < need then (0, k)
  else (cur, { k with loaded_app_heap_cur := cur + need })

def MSTATUS_MPP_MASK : BitVec 32 := 3 <<< 11
def MSTATUS_MPP_M : BitVec 32 := 3 <<< 11

/-- The window that owns the application, if its number is one of a window. -/
def Kernel.owner (k : Kernel) : Option Terminal :=
  if 0 ≤ k.app_owner_win_id then k.wins[k.app_owner_win_id.toNat]? else none

def Kernel.setOwner (k : Kernel) (w : Terminal) : Kernel :=
  { k with wins := k.wins.set k.app_owner_win_id.toNat w }

/-- The byte goes to the window that owns the application, or to the UART. -/
def sys_putc (env : Env) (k : Kernel) (ch : UInt8) : Kernel :=
  if 0 ≤ k.app_owner_win_id then
    match k.owner with
    | none => k
    | some w => k.setOwner (terminal_app_stdout_putc w ch)
  else if env.uart_takes 0 then { k with uart := k.uart ++ [ch] }
  else k

/-- `terminal_app_stdout_puts` or `lib_puts`: the state, and the number of bytes that are read. -/
def sys_puts (env : Env) (k : Kernel) (s : BitVec 32) : Option (Kernel × Nat) :=
  if 0 ≤ k.app_owner_win_id then
    match k.owner with
    | none => some (k, 0)
    | some w =>
      if s = 0 then some (k, 0)
      else
        (string_size k.mem s).map fun n =>
          (k.setOwner (terminal_app_stdout_flush
            ((bytesAt k.mem s (n - 1)).foldl terminal_app_stdout_putc w)), n)
  else
    (puts_loop env.uart_takes k.mem s 4294967296 0).map fun n =>
      ({ k with uart := k.uart ++ bytesAt k.mem s (n - 1) }, n)

section

variable [BuildConfig]

/-- The path of `appfs_open`. A null pointer is no path, as the empty string. -/
def pathAt (m : Mem) (p : BitVec 32) : CString where
  bytes := if p = 0 then [] else stringAt m p
  nul_free := by
    split
    · simp
    · intro h
      have := List.mem_takeWhile_imp h
      simp at this

def resume (epc : BitVec 32) (regs : Frame) (rc : BitVec 32) : Ended :=
  .resumes (epc + 4) (Function.update regs a0 rc)

/-- `trap_handler` for a call of the application. -/
def ecall (env : Env) (k : Kernel) (epc : BitVec 32) (regs : Frame) : Called :=
  let arg0 := regs a0
  let arg1 := regs a1
  let arg2 := regs a2
  match (regs a7).toNat with
  | 1 => ⟨.resumes (epc + 4) regs, sys_putc env k (arg0.setWidth 8).toNat.toUInt8, [], []⟩
  | 2 =>
    match sys_puts env k arg0 with
    | none => ⟨.diverges, k, [(arg0, 4294967296)], []⟩
    | some (k, n) => ⟨.resumes (epc + 4) regs, k, [(arg0, n)], []⟩
  | 3 =>
    let (p, k) := app_heap_alloc k arg0
    ⟨resume epc regs p, k, [], []⟩
  | 4 => ⟨resume epc regs 0, k, [], []⟩
  | 5 => ⟨resume epc regs env.get_millisecond_timer, k, [], []⟩
  | 6 => ⟨.resumes (epc + 4) regs, { k with need_resched := true }, [], []⟩
  | 7 =>
    let reads :=
      if arg0 = 0 ∨ appfs_find_fd k.fs = none then []
      else [(arg0, (string_size k.mem arg0).getD 4294967296)]
    if arg0 ≠ 0 ∧ appfs_find_fd k.fs ≠ none ∧ string_size k.mem arg0 = none then
      ⟨.diverges, k, reads, []⟩
    else
      match appfs_open env.heap k.fs (pathAt k.mem arg0) arg1 with
      | .returns rc fs => ⟨resume epc regs (BitVec.ofInt 32 rc), { k with fs := fs }, reads, []⟩
      | .diverges => ⟨.diverges, k, reads, []⟩
      | .overruns => ⟨.overruns, k, reads, []⟩
  | 8 =>
    if arg1 = 0 then ⟨resume epc regs (-1), k, [], []⟩
    else
      match appfs_read k.fs arg0.toInt arg2.toNat with
      | .returns rc (fs, bytes) =>
        ⟨resume epc regs (BitVec.ofInt 32 rc),
          { k with fs := fs, mem := storeAt k.mem arg1 bytes }, [], [(arg1, bytes.length)]⟩
      | .diverges => ⟨.diverges, k, [], []⟩
      | .overruns => ⟨.overruns, k, [], [(arg1, arg2.toNat)]⟩
  | 9 =>
    if arg1 = 0 then ⟨resume epc regs (-1), k, [], []⟩
    else
      match appfs_write env.heap k.fs arg0.toInt (bytesAt k.mem arg1 arg2.toNat) with
      | .returns rc fs =>
        ⟨resume epc regs (BitVec.ofInt 32 rc), { k with fs := fs },
          if rc = -1 then [] else [(arg1, arg2.toNat)], []⟩
      | .diverges => ⟨.diverges, k, [], []⟩
      | .overruns => ⟨.overruns, k, [(arg1, arg2.toNat)], []⟩
  | 10 =>
    ⟨.resumes env.app_exit_resume_pc (Function.update regs sp env.app_exit_stack_top),
      { k with
        loaded_app_exit_code := arg0
        satp := 0
        mstatus := k.mstatus &&& ~~~MSTATUS_MPP_MASK ||| MSTATUS_MPP_M }, [], []⟩
  | 11 =>
    match appfs_close k.fs arg0.toInt env.now with
    | .returns rc fs => ⟨resume epc regs (BitVec.ofInt 32 rc), { k with fs := fs }, [], []⟩
    | .diverges => ⟨.diverges, k, [], []⟩
    | .overruns => ⟨.overruns, k, [], []⟩
  | _ => ⟨.panics, k, [], []⟩

/-! ## What a call may touch -/

def bufferOf (p : BitVec 32) (n : Nat) : Set Nat := fun x => ∃ i, i < n ∧ x = at_ p i

/-- The addresses of a string, with its NUL. -/
def stringOf (m : Mem) (p : BitVec 32) : Set Nat :=
  fun x => ∃ i, x = at_ p i ∧ ∀ j < i, m (at_ p j) ≠ 0

/-- The call reads or writes an address through a pointer of the caller. -/
def Called.Touches (c : Called) (x : Nat) : Prop := ∃ r ∈ c.reads ++ c.writes, x ∈ bufferOf r.1 r.2

/-- The descriptor is open with a permission. -/
def OpenFor (s : AppFs) (fd_no : Int) (bit : BitVec 32) : Prop :=
  ∃ i fd, app_fd s fd_no = some (i, fd) ∧ hasFlag fd.flags bit = true

/-- The addresses that the arguments of a call name, if the call is not rejected. -/
def Named (k : Kernel) (regs : Frame) : Set Nat :=
  match (regs a7).toNat with
  | 2 => stringOf k.mem (regs a0)
  | 7 => fun x => regs a0 ≠ 0 ∧ appfs_find_fd k.fs ≠ none ∧ x ∈ stringOf k.mem (regs a0)
  | 8 => fun x => regs a1 ≠ 0 ∧ OpenFor k.fs (regs a0).toInt APP_O_READ ∧
      x ∈ bufferOf (regs a1) (regs a2).toNat
  | 9 => fun x => regs a1 ≠ 0 ∧ OpenFor k.fs (regs a0).toInt APP_O_WRITE ∧
      x ∈ bufferOf (regs a1) (regs a2).toNat
  | _ => ∅

end

/-! ## Strings -/

variable {m : Mem} {s : BitVec 32} {f : Nat → Bool}

theorem puts_loop_some {rounds i n : Nat} (h : puts_loop f m s rounds i = some n) :
    ∀ j, i ≤ j → j + 1 < n → m (at_ s j) ≠ 0 := by
  induction rounds generalizing i with
  | zero => cases h
  | succ rounds ih =>
    rw [puts_loop] at h
    by_cases hstop : m (at_ s i) = 0 ∨ f i = false
    · rw [if_pos hstop] at h
      cases h
      intro j hj hlt
      omega
    · rw [if_neg hstop] at h
      intro j hj hlt
      rcases Nat.eq_or_lt_of_le hj with heq | hlt'
      · rw [← heq]
        exact fun h0 => hstop (Or.inl h0)
      · exact ih h j hlt' hlt

theorem puts_loop_none {rounds i : Nat} (h : puts_loop f m s rounds i = none) :
    ∀ j, i ≤ j → j < i + rounds → m (at_ s j) ≠ 0 := by
  induction rounds generalizing i with
  | zero =>
    intro j hj hlt
    omega
  | succ rounds ih =>
    rw [puts_loop] at h
    by_cases hstop : m (at_ s i) = 0 ∨ f i = false
    · rw [if_pos hstop] at h
      cases h
    · rw [if_neg hstop] at h
      intro j hj hlt
      rcases Nat.eq_or_lt_of_le hj with heq | hlt'
      · rw [← heq]
        exact fun h0 => hstop (Or.inl h0)
      · exact ih h j hlt' (by omega)

theorem bufferOf_subset_stringOf {n : Nat} (h : ∀ j, j + 1 < n → m (at_ s j) ≠ 0) {x : Nat}
    (hx : x ∈ bufferOf s n) : x ∈ stringOf m s := by
  obtain ⟨i, hi, hx⟩ := hx
  refine ⟨i, hx, ?_⟩
  intro j hj
  exact h j (by omega)

theorem puts_reads {x : Nat}
    (hx : x ∈ bufferOf s ((puts_loop f m s 4294967296 0).getD 4294967296)) :
    x ∈ stringOf m s := by
  apply bufferOf_subset_stringOf _ hx
  intro j hj
  cases hloop : puts_loop f m s 4294967296 0 with
  | none =>
    rw [hloop] at hj
    exact puts_loop_none hloop j (Nat.zero_le j) (by simp only [Option.getD_none] at hj; omega)
  | some n =>
    rw [hloop] at hj
    exact puts_loop_some hloop j (Nat.zero_le j) hj

theorem storeAt_outside {d : List UInt8} {p : BitVec 32} {x : Nat}
    (hx : x ∉ bufferOf p d.length) : storeAt m p d x = m x := by
  unfold storeAt
  split
  · rename_i b hb
    split
    · rename_i hlt
      exfalso
      apply hx
      obtain ⟨hi, _⟩ := List.getElem?_eq_some_iff.mp hb
      refine ⟨_, hi, ?_⟩
      have hp := p.isLt
      unfold at_
      omega
    · rfl
  · rfl

end vibeos.trap

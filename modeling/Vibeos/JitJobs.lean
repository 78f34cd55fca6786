-- The jobs of the in-kernel compiler in tcc_glue.c: the table of jobs, the tasks that run them
-- and wait for them, and the files and blocks of memory that their code holds.
import Vibeos.AppFs
import Vibeos.JitHeap

namespace vibeos.tcc_glue

open vibeos.fs

def JIT_MAX_KPTRS : Nat := 32
def JIT_MAX_FDS : Nat := 32
def MAX_TASKS : Nat := 16

inductive JobState where
  | empty
  | compiling
  | ready
  | running
  | done
  | failed
deriving DecidableEq

/-- `struct jit_job`. `tcc` and `main_func` are the code of the job with that number. -/
structure jit_job where
  id : Nat
  state : JobState
  bg : Bool
  owner_win_id : Int
  task_id : Int
  waiter_task_id : Int
  cancel_requested : Bool
  exit_code : Int
  tcc : Option Nat
  main_func : Option Nat
  kptrs : Fin JIT_MAX_KPTRS → Nat
  fds : Fin JIT_MAX_FDS → Int

/-- The job waits for its task, or is run by it. -/
def jit_job.Active (job : jit_job) : Prop := job.state = .ready ∨ job.state = .running

instance (job : jit_job) : Decidable job.Active := inferInstanceAs (Decidable (_ ∨ _))

section

variable [JitConfig]

def JIT_MAX_JOBS : Nat := if JitConfig.FPGA_MINIMAL then 1 else 4

/-- What an exported function has done and not noted yet, or noted and not done yet. -/
inductive Pending where
  | opened (fd : Int)
  | closing (fd : Int)
  | allocated (p : Nat)
  | freeing (p : Nat)

/-- Where a task is: in code that has no part in this, in the loop of `os_jit_run` for the job
`id`, in the loop of `jit_task_entry_idx`, asleep at the end of `jit_job_execute`, in the code of
the job `id`, or in `os_jit_cancel_trampoline`. -/
inductive Place where
  | outside
  | waiting (slot : Fin JIT_MAX_JOBS) (id : Nat)
  | entry (slot : Fin JIT_MAX_JOBS)
  | ended (slot : Fin JIT_MAX_JOBS)
  | main (slot : Fin JIT_MAX_JOBS) (id : Nat)
  | trampoline (slot : Fin JIT_MAX_JOBS)

/-- A task, with the rest of the exported function that it is in. -/
structure Task where
  runnable : Bool
  place : Place
  call : Option Pending

/-- Who opened a descriptor. A job opens with `appfs_open`, which notes it, or with `open` and
`fopen`. -/
inductive Opener where
  | job (id : Nat) (noted : Bool)
  | elsewhere
deriving DecidableEq

/-- An access of a job to a descriptor, with its opener, or a block that is freed for a job, with
the job that holds it. -/
inductive Access where
  | fd (id : Nat) (opener : Option Opener)
  | free (id : Nat) (holder : Option Nat)
deriving DecidableEq

/-- The jobs, the tasks, and the open files. `opener`, `holder` and `log` only record what
happens: a block is held by a job that got it from `kmalloc`, which notes it, or from `fopen`.
`files` are the descriptors that the blocks of `fopen` have in them. -/
structure JitSys where
  jit_jobs : Fin JIT_MAX_JOBS → jit_job
  jit_next_id : Nat
  tasks : Nat → Task
  taskTop : Nat
  fs : AppFs
  files : Nat → Int
  opener : Fin APP_MAX_FDS → Option Opener
  holder : Nat → Option (Nat × Bool)
  log : List Access

namespace JitSys

/-! ## Tasks -/

def setTask (s : JitSys) (t : Nat) (task : Task) : JitSys :=
  { s with tasks := Function.update s.tasks t task }

def setJob (s : JitSys) (slot : Fin JIT_MAX_JOBS) (job : jit_job) : JitSys :=
  { s with jit_jobs := Function.update s.jit_jobs slot job }

section

variable (s : JitSys) (t : Nat) (task : Task) (slot : Fin JIT_MAX_JOBS) (job : jit_job)

@[simp] theorem setTask_jobs : (s.setTask t task).jit_jobs = s.jit_jobs := rfl
@[simp] theorem setTask_next : (s.setTask t task).jit_next_id = s.jit_next_id := rfl
@[simp] theorem setTask_tasks : (s.setTask t task).tasks = Function.update s.tasks t task := rfl
@[simp] theorem setTask_top : (s.setTask t task).taskTop = s.taskTop := rfl
@[simp] theorem setTask_fs : (s.setTask t task).fs = s.fs := rfl
@[simp] theorem setTask_opener : (s.setTask t task).opener = s.opener := rfl
@[simp] theorem setTask_holder : (s.setTask t task).holder = s.holder := rfl
@[simp] theorem setTask_log : (s.setTask t task).log = s.log := rfl
@[simp] theorem setJob_jobs : (s.setJob slot job).jit_jobs = Function.update s.jit_jobs slot job :=
  rfl
@[simp] theorem setJob_next : (s.setJob slot job).jit_next_id = s.jit_next_id := rfl
@[simp] theorem setJob_tasks : (s.setJob slot job).tasks = s.tasks := rfl
@[simp] theorem setJob_top : (s.setJob slot job).taskTop = s.taskTop := rfl
@[simp] theorem setJob_fs : (s.setJob slot job).fs = s.fs := rfl
@[simp] theorem setJob_opener : (s.setJob slot job).opener = s.opener := rfl
@[simp] theorem setJob_holder : (s.setJob slot job).holder = s.holder := rfl
@[simp] theorem setJob_log : (s.setJob slot job).log = s.log := rfl

end

def taskAt (s : JitSys) (task_id : Int) : Option Nat :=
  if 0 ≤ task_id ∧ task_id < s.taskTop then some task_id.toNat else none

def task_wake (s : JitSys) (task_id : Int) : JitSys :=
  match s.taskAt task_id with
  | none => s
  | some t => s.setTask t { s.tasks t with runnable := true }

def task_sleep (s : JitSys) (task_id : Int) : JitSys :=
  match s.taskAt task_id with
  | none => s
  | some t => s.setTask t { s.tasks t with runnable := false }

/-- A task with the entry of a slot, or a panic. -/
def task_create (s : JitSys) (slot : Fin JIT_MAX_JOBS) : Option (Nat × JitSys) :=
  if MAX_TASKS ≤ s.taskTop then none
  else
    some (s.taskTop, { s.setTask s.taskTop ⟨true, .entry slot, none⟩ with taskTop := s.taskTop + 1 })

def task_reset (s : JitSys) (task_id : Int) (slot : Fin JIT_MAX_JOBS) : JitSys :=
  match s.taskAt task_id with
  | none => s
  | some t => s.setTask t ⟨true, .entry slot, none⟩

/-! ## Descriptors and blocks -/

/-- The open files after a call: a descriptor that is new was opened by `who`. -/
def withFs (s : JitSys) (who : Opener) (fs : AppFs) : JitSys :=
  { s with
    fs := fs
    opener := fun i =>
      match fs.fds i, s.fs.fds i with
      | none, _ => none
      | some _, none => some who
      | some _, some _ => s.opener i }

def openerOf (s : JitSys) (fd : Int) : Option Opener :=
  (app_fd s.fs fd).bind fun (i, _) => s.opener i

def touch (s : JitSys) (id : Nat) (fd : Int) : JitSys :=
  { s with log := .fd id (s.openerOf fd) :: s.log }

def free (s : JitSys) (id : Nat) (p : Nat) : JitSys :=
  if p = 0 then s
  else
    { s with
      holder := Function.update s.holder p none
      log := .free id ((s.holder p).map Prod.fst) :: s.log }

section

variable [BuildConfig]

def close (s : JitSys) (id : Nat) (fd : Int) (now : Nat) : Option (Int × JitSys) :=
  match appfs_close s.fs fd now with
  | .returns rc fs => some (rc, (s.touch id fd).withFs (.job id true) fs)
  | _ => none

def closeAll (now : Nat) (id : Nat) : List Int → JitSys → Option JitSys
  | [], s => some s
  | fd :: fds, s =>
    if 0 ≤ fd then (s.close id fd now).bind fun r => closeAll now id fds r.2
    else closeAll now id fds s

def freeAll (id : Nat) : List Nat → JitSys → JitSys
  | [], s => s
  | p :: ps, s => if p ≠ 0 then freeAll id ps (s.free id p) else freeAll id ps s

def jit_cleanup_resources (now : Nat) (s : JitSys) (slot : Fin JIT_MAX_JOBS) : Option JitSys :=
  let job := s.jit_jobs slot
  (closeAll now job.id (List.ofFn job.fds) s).map fun s =>
    (freeAll job.id (List.ofFn job.kptrs) s).setJob slot
      { s.jit_jobs slot with fds := fun _ => -1, kptrs := fun _ => 0 }

def jit_job_cleanup (now : Nat) (s : JitSys) (slot : Fin JIT_MAX_JOBS) : Option JitSys :=
  (jit_cleanup_resources now s slot).map fun s =>
    s.setJob slot { s.jit_jobs slot with tcc := none }

/-! ## Jobs -/

def freeSlot (s : JitSys) : Option (Fin JIT_MAX_JOBS) :=
  Fin.find? fun i => (s.jit_jobs i).state = .empty ∨ (s.jit_jobs i).state = .done ∨
    (s.jit_jobs i).state = .failed

def jit_alloc_job (s : JitSys) (bg : Bool) (owner_win_id : Int) :
    Option (Fin JIT_MAX_JOBS × JitSys) :=
  s.freeSlot.map fun slot =>
    (slot, { s.setJob slot {
        id := s.jit_next_id
        state := .compiling
        bg := bg
        owner_win_id := owner_win_id
        task_id := (s.jit_jobs slot).task_id
        waiter_task_id := -1
        cancel_requested := false
        exit_code := 0
        tcc := none
        main_func := none
        kptrs := fun _ => 0
        fds := fun _ => -1 } with jit_next_id := s.jit_next_id + 1 })

/-- The end of `jit_compile_job`, where the source compiles or does not. -/
def jit_compile_job (s : JitSys) (slot : Fin JIT_MAX_JOBS) (compiles : Bool) : JitSys :=
  let job := s.jit_jobs slot
  if compiles then
    s.setJob slot { job with state := .ready, tcc := some job.id, main_func := some job.id }
  else s.setJob slot { job with state := .failed, tcc := some job.id }

/-- `os_jit_run` by the task `t`, up to its first sleep. -/
def os_jit_run (now : Nat) (s : JitSys) (t : Nat) (owner_win_id : Int) (compiles : Bool) :
    Option JitSys :=
  match s.jit_alloc_job false owner_win_id with
  | none => some s
  | some (slot, s) =>
    let s := s.jit_compile_job slot compiles
    if compiles = false then s.jit_job_cleanup now slot
    else
      let s := s.setJob slot
        { s.jit_jobs slot with bg := false, owner_win_id := owner_win_id, waiter_task_id := t }
      let job := s.jit_jobs slot
      let started :=
        if job.task_id < 0 ∨ job.task_id = t then
          (s.task_create slot).map fun (id, s) =>
            s.setJob slot { s.jit_jobs slot with task_id := id }
        else some (s.task_reset job.task_id slot)
      started.map fun s =>
        (s.task_wake (s.jit_jobs slot).task_id).setTask t ⟨false, .waiting slot job.id, none⟩

def os_jit_run_bg (now : Nat) (s : JitSys) (owner_win_id : Int) (compiles : Bool) :
    Option JitSys :=
  match s.jit_alloc_job true owner_win_id with
  | none => some s
  | some (slot, s) =>
    let s := s.jit_compile_job slot compiles
    if compiles = false then s.jit_job_cleanup now slot
    else
      let job := s.jit_jobs slot
      let started :=
        if job.task_id < 0 then
          (s.task_create slot).map fun (id, s) =>
            s.setJob slot { s.jit_jobs slot with task_id := id }
        else some (s.task_reset job.task_id slot)
      started.map fun s => s.task_wake (s.jit_jobs slot).task_id

/-- The end of `jit_job_execute`: the resources, the waiter, and the sleep of the task `t`. -/
def finish (now : Nat) (s : JitSys) (t : Nat) (slot : Fin JIT_MAX_JOBS) : Option JitSys :=
  (s.jit_job_cleanup now slot).map fun s =>
    let job := s.jit_jobs slot
    if job.bg = false ∧ 0 ≤ job.waiter_task_id then
      (s.task_wake job.waiter_task_id).setTask t ⟨false, .ended slot, none⟩
    else s.setTask t ⟨false, .entry slot, none⟩

/-- The start of `jit_job_execute` in the loop of the task `t`, with code that has a valid entry
or not. -/
def jit_task_entry_idx (now : Nat) (s : JitSys) (t : Nat) (slot : Fin JIT_MAX_JOBS)
    (valid : Bool) : Option JitSys :=
  let job := s.jit_jobs slot
  if job.state ≠ .ready then some (s.setTask t ⟨false, .entry slot, none⟩)
  else
    match job.main_func with
    | none => some (s.setTask t ⟨false, .entry slot, none⟩)
    | some code =>
      let job := { job with task_id := t, state := .running, cancel_requested := false }
      if valid then some ((s.setJob slot job).setTask t ⟨true, .main slot code, none⟩)
      else finish now (s.setJob slot { job with exit_code := -3, state := .failed }) t slot

/-- The rest of `jit_job_execute`, when `main` returned `rc`. -/
def mainReturns (now : Nat) (s : JitSys) (t : Nat) (slot : Fin JIT_MAX_JOBS) (rc : Int) :
    Option JitSys :=
  let job := s.jit_jobs slot
  let job :=
    if job.cancel_requested ∨ job.state = .failed then
      { job with exit_code := -2, state := .failed }
    else { job with exit_code := rc, state := .done }
  finish now (s.setJob slot job) t slot

/-! ## Cancelling -/

/-- What `os_jit_kill` and the cancel functions do to a job: its task starts again and sleeps, and
its resources go back. -/
def stop (now : Nat) (s : JitSys) (slot : Fin JIT_MAX_JOBS) (exit_code : Int) : Option JitSys :=
  let s := s.setJob slot { s.jit_jobs slot with cancel_requested := true }
  let job := s.jit_jobs slot
  let s := if 0 ≤ job.task_id then (s.task_reset job.task_id slot).task_sleep job.task_id else s
  jit_job_cleanup now (s.setJob slot { s.jit_jobs slot with state := .failed, exit_code := exit_code })
    slot

def killSlot (s : JitSys) (id : Nat) : Option (Fin JIT_MAX_JOBS) :=
  Fin.find? fun i => (s.jit_jobs i).state ≠ .empty ∧ (s.jit_jobs i).id = id

def os_jit_kill (now : Nat) (s : JitSys) (id : Nat) : Option JitSys :=
  match s.killSlot id with
  | none => some s
  | some slot =>
    (s.stop now slot (-1)).map fun s =>
      let job := s.jit_jobs slot
      if job.bg = false ∧ 0 ≤ job.waiter_task_id then s.task_wake job.waiter_task_id else s

def cancelSlot (s : JitSys) (task_id : Int) : Option (Fin JIT_MAX_JOBS) :=
  Fin.find? fun i => (s.jit_jobs i).state ≠ .empty ∧
    ((s.jit_jobs i).task_id = task_id ∨ (s.jit_jobs i).waiter_task_id = task_id)

/-- A job is stopped with the code -2, and its waiter is woken if it is not the caller `me`. -/
def cancel (now : Nat) (s : JitSys) (me : Int) (slot : Fin JIT_MAX_JOBS) : Option JitSys :=
  let waiter := (s.jit_jobs slot).waiter_task_id
  (s.stop now slot (-2)).map fun s =>
    if 0 ≤ waiter ∧ waiter ≠ me then s.task_wake waiter else s

def os_jit_cancel_task (now : Nat) (s : JitSys) (me task_id : Int) : Option JitSys :=
  match s.cancelSlot task_id with
  | none => some s
  | some slot => s.cancel now me slot

def cancelOwned (now : Nat) (me owner_win_id : Int) :
    List (Fin JIT_MAX_JOBS) → JitSys → Option JitSys
  | [], s => some s
  | slot :: slots, s =>
    let job := s.jit_jobs slot
    if job.owner_win_id ≠ owner_win_id then cancelOwned now me owner_win_id slots s
    else if job.state ≠ .compiling ∧ job.state ≠ .ready ∧ job.state ≠ .running then
      cancelOwned now me owner_win_id slots s
    else (s.cancel now me slot).bind (cancelOwned now me owner_win_id slots)

def os_jit_cancel_by_owner (now : Nat) (s : JitSys) (me owner_win_id : Int) : Option JitSys :=
  cancelOwned now me owner_win_id (List.finRange JIT_MAX_JOBS) s

def trapSlot (s : JitSys) (current owner_win_id : Int) : Option (Fin JIT_MAX_JOBS) :=
  Fin.find? fun i => (s.jit_jobs i).state = .running ∧
    (s.jit_jobs i).owner_win_id = owner_win_id ∧ (s.jit_jobs i).task_id = current

/-- `os_jit_cancel_running_owner_from_trap` while the task `current` runs, and the trampoline. -/
def os_jit_cancel_running_owner_from_trap (now : Nat) (s : JitSys) (current : Nat)
    (owner_win_id : Int) : Option JitSys :=
  match s.trapSlot current owner_win_id with
  | none => some s
  | some slot =>
    let job := s.jit_jobs slot
    (jit_job_cleanup now
      (s.setJob slot { job with cancel_requested := true, state := .failed, exit_code := -2 })
      slot).map fun s =>
        let s := if 0 ≤ job.waiter_task_id ∧ job.waiter_task_id ≠ current then
          s.task_wake job.waiter_task_id else s
        s.setTask current ⟨true, .trampoline slot, none⟩

end

end JitSys

end

end vibeos.tcc_glue

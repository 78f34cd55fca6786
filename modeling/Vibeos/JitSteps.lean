-- The steps of the system around the jobs: the exported functions that their code calls, the
-- tasks that go on, and the calls that start and cancel jobs.
import Vibeos.JitJobs
import Vibeos.AppFsKeep

namespace vibeos.tcc_glue

open vibeos.fs

/-! ## What a job holds -/

def jit_track_fd (job : jit_job) (fd : Int) : Option jit_job :=
  if fd < 0 then none
  else
    (Fin.find? fun i => job.fds i < 0).map fun i =>
      { job with fds := Function.update job.fds i fd }

def jit_untrack_fd (job : jit_job) (fd : Int) : Option jit_job :=
  if fd < 0 then none
  else
    (Fin.find? fun i => job.fds i = fd).map fun i =>
      { job with fds := Function.update job.fds i (-1) }

def jit_track_kptr (job : jit_job) (p : Nat) : Option jit_job :=
  if p = 0 then none
  else
    (Fin.find? fun i => job.kptrs i = 0).map fun i =>
      { job with kptrs := Function.update job.kptrs i p }

def jit_untrack_kptr (job : jit_job) (p : Nat) : Option jit_job :=
  if p = 0 then none
  else
    (Fin.find? fun i => job.kptrs i = p).map fun i =>
      { job with kptrs := Function.update job.kptrs i 0 }

/-- A call of the code of a job, up to what it has to note or to do at last. `block` is what
`malloc` gives. -/
inductive JitCall where
  | appfs_open (heap : Heap) (path : CString) (flags : BitVec 32)
  | appfs_close (fd : Int)
  | appfs_read (fd : Int) (size : Nat)
  | appfs_write (heap : Heap) (fd : Int) (data : List UInt8)
  | kmalloc (block : Option Nat)
  | kfree (p : Nat)
  | open (heap : Heap) (path : CString) (flags : BitVec 32)
  | close (fd : Int)
  | fopen (heap : Heap) (path : CString) (mode : List UInt8) (block : Option Nat)
  | fclose (p : Nat)

/-- What happens next. `me` is the task that calls, or -1 in the loop of the OS. -/
inductive Event where
  | run (t : Nat) (owner_win_id : Int) (compiles : Bool)
  | runBg (me owner_win_id : Int) (compiles : Bool)
  | resume (t : Nat) (valid : Bool)
  | yield (t : Nat)
  | call (t : Nat) (c : JitCall)
  | settle (t : Nat)
  | pause (t : Nat)
  | returns (t : Nat) (rc : Int)
  | kill (me : Int) (id : Nat)
  | cancelTask (me task_id : Int)
  | cancelByOwner (me owner_win_id : Int)
  | trapCancel (t : Nat) (owner_win_id : Int)
  | wake (task_id : Int)
  | spawn
  | elsewhere (fs : AppFs)

section

variable [JitConfig]

namespace JitSys

def jit_current_job (s : JitSys) (t : Nat) : Option (Fin JIT_MAX_JOBS) :=
  Fin.find? fun i => (s.jit_jobs i).state ≠ .empty ∧ (s.jit_jobs i).task_id = t

/-- The job of the task, if nobody asked for it to be cancelled. -/
def liveJob (s : JitSys) (t : Nat) : Option (Fin JIT_MAX_JOBS) :=
  (s.jit_current_job t).filter fun k => !(s.jit_jobs k).cancel_requested

/-- `malloc` gives a block that nobody holds. -/
def hold (s : JitSys) (id p : Nat) (noted : Bool) : Option JitSys :=
  if p ≠ 0 ∧ s.holder p = none then
    some { s with holder := Function.update s.holder p (some (id, noted)) }
  else none

section

variable [BuildConfig]

def fopen (now : Nat) (s : JitSys) (id : Nat) (heap : Heap) (path : CString) (mode : List UInt8)
    (block : Option Nat) : Option JitSys :=
  match jit_stdio_mode_to_flags mode with
  | none => some s
  | some flags =>
    match appfs_open heap s.fs path flags with
    | .returns fd fs =>
      let s := s.withFs (.job id false) fs
      if fd < 0 then some s
      else
        let seek := if mode.head? = some 'a'.toUInt8 then appfs_seek heap s.fs fd 0 2
          else .returns 0 s.fs
        match seek with
        | .returns rc fs =>
          let s := s.withFs (.job id false) fs
          if rc < 0 then (s.close id fd now).map Prod.snd
          else
            match block with
            | none => (s.close id fd now).map Prod.snd
            | some p => (s.hold id p false).map fun s =>
                { s with files := Function.update s.files p fd }
        | _ => none
    | _ => none

/-- The task `t` in the code of job `id` calls a function. -/
def call (now : Nat) (s : JitSys) (t : Nat) (slot : Fin JIT_MAX_JOBS) (id : Nat) :
    JitCall → Option JitSys
  | .appfs_open heap path flags =>
    match s.liveJob t with
    | none => some s
    | some _ =>
      match appfs_open heap s.fs path flags with
      | .returns fd fs =>
        let s := s.withFs (.job id true) fs
        some (if fd < 0 then s else s.setTask t ⟨true, .main slot id, some (.opened fd)⟩)
      | _ => none
  | .appfs_close fd =>
    let s := match s.jit_current_job t with
      | none => s
      | some k => s.setJob k ((jit_untrack_fd (s.jit_jobs k) fd).getD (s.jit_jobs k))
    some (s.setTask t ⟨true, .main slot id, some (.closing fd)⟩)
  | .appfs_read fd size =>
    match s.liveJob t with
    | none => some s
    | some _ =>
      match appfs_read s.fs fd size with
      | .returns _ (fs, _) => some ((s.touch id fd).withFs (.job id true) fs)
      | _ => none
  | .appfs_write heap fd data =>
    match s.liveJob t with
    | none => some s
    | some _ =>
      match appfs_write heap s.fs fd data with
      | .returns _ fs => some ((s.touch id fd).withFs (.job id true) fs)
      | _ => none
  | .kmalloc block =>
    match s.liveJob t, block with
    | none, _ => some s
    | _, none => some s
    | some _, some p =>
      (s.hold id p true).map fun s => s.setTask t ⟨true, .main slot id, some (.allocated p)⟩
  | .kfree p =>
    match s.jit_current_job t with
    | none => some s
    | some k =>
      match jit_untrack_kptr (s.jit_jobs k) p with
      | none => some s
      | some job =>
        some ((s.setJob k job).setTask t ⟨true, .main slot id, some (.freeing p)⟩)
  | .open heap path flags =>
    match appfs_open heap s.fs path flags with
    | .returns _ fs => some (s.withFs (.job id false) fs)
    | _ => none
  | .close fd => (s.close id fd now).map Prod.snd
  | .fopen heap path mode block => s.fopen now id heap path mode block
  | .fclose p =>
    if p = 0 then some s else (s.close id (s.files p) now).map fun r => r.2.free id p

def settle (now : Nat) (s : JitSys) (t : Nat) (slot : Fin JIT_MAX_JOBS) (id : Nat) :
    Pending → Option JitSys
  | .opened fd =>
    match (s.jit_current_job t).bind fun k => (jit_track_fd (s.jit_jobs k) fd).map (k, ·) with
    | some (k, job) => some ((s.setJob k job).setTask t ⟨true, .main slot id, none⟩)
    | none => (s.close id fd now).map fun r => r.2.setTask t ⟨true, .main slot id, none⟩
  | .closing fd => (s.close id fd now).map fun r => r.2.setTask t ⟨true, .main slot id, none⟩
  | .allocated p =>
    match (s.jit_current_job t).bind fun k => (jit_track_kptr (s.jit_jobs k) p).map (k, ·) with
    | some (k, job) => some ((s.setJob k job).setTask t ⟨true, .main slot id, none⟩)
    | none => some ((s.free id p).setTask t ⟨true, .main slot id, none⟩)
  | .freeing p => some ((s.free id p).setTask t ⟨true, .main slot id, none⟩)

/-- `jit_yield`, as far as the job can tell. -/
def jit_yield (s : JitSys) (t : Nat) : JitSys :=
  match s.jit_current_job t with
  | none => s
  | some k =>
    let job := s.jit_jobs k
    if job.cancel_requested then
      let s := s.setJob k { job with exit_code := -2, state := .failed }
      if job.bg then s.task_sleep t else s
    else s

def resume (now : Nat) (s : JitSys) (t : Nat) (valid : Bool) : Option JitSys :=
  match (s.tasks t).place with
  | .waiting slot id =>
    if (s.jit_jobs slot).Active then some (s.setTask t ⟨false, .waiting slot id, none⟩)
    else some (s.setTask t ⟨true, .outside, none⟩)
  | .entry slot => jit_task_entry_idx now s t slot valid
  | .ended slot => some (s.setTask t ⟨false, .entry slot, none⟩)
  | .trampoline slot => some (s.setTask t ⟨false, .trampoline slot, none⟩)
  | _ => none

/-- The task can run: no other task is in the middle of a call, where it does not yield. -/
def CanRun (s : JitSys) (t : Nat) : Prop :=
  t < s.taskTop ∧ (s.tasks t).runnable = true ∧
    ∀ t' < s.taskTop, t' ≠ t → (s.tasks t').call.isNone = true

instance (s : JitSys) (t : Nat) : Decidable (s.CanRun t) :=
  inferInstanceAs (Decidable (_ ∧ _ ∧ _))

/-- No task is in the middle of a call. -/
def AtYield (s : JitSys) : Prop := ∀ t < s.taskTop, (s.tasks t).call.isNone = true

instance (s : JitSys) : Decidable s.AtYield := inferInstanceAs (Decidable (∀ t < _, _))

/-- The loop of the OS, or a task that is in no code of a job. -/
def mayCall (s : JitSys) (me : Int) : Bool :=
  decide s.AtYield && match s.taskAt me with
  | none => me < 0
  | some t => match (s.tasks t).place with
    | .outside => true
    | _ => false

/-- The open files after the rest of the system used them: it leaves the descriptors of the jobs
alone. -/
def elsewhere (s : JitSys) (fs : AppFs) : JitSys :=
  s.withFs .elsewhere { fs with
    fds := fun i => match s.opener i with
      | some (.job _ _) => s.fs.fds i
      | _ => fs.fds i }

def step (now : Nat) (s : JitSys) : Event → Option JitSys
  | .run t owner_win_id compiles =>
    if s.CanRun t ∧ s.mayCall t then s.os_jit_run now t owner_win_id compiles else none
  | .runBg me owner_win_id compiles =>
    if s.mayCall me then s.os_jit_run_bg now owner_win_id compiles else none
  | .resume t valid =>
    match (s.tasks t).call with
    | none => if s.CanRun t then s.resume now t valid else none
    | some _ => none
  | .yield t =>
    match (s.tasks t).place, (s.tasks t).call with
    | .main _ _, none => if s.CanRun t then some (s.jit_yield t) else none
    | _, _ => none
  | .call t c =>
    match (s.tasks t).place, (s.tasks t).call with
    | .main slot id, none => if s.CanRun t then s.call now t slot id c else none
    | _, _ => none
  | .settle t =>
    match (s.tasks t).place, (s.tasks t).call with
    | .main slot id, some p => if s.CanRun t then s.settle now t slot id p else none
    | _, _ => none
  | .pause t =>
    match (s.tasks t).place, (s.tasks t).call with
    | .main _ _, none =>
      if s.CanRun t then some (s.setTask t { s.tasks t with runnable := false }) else none
    | _, _ => none
  | .returns t rc =>
    match (s.tasks t).place, (s.tasks t).call with
    | .main slot _, none => if s.CanRun t then s.mainReturns now t slot rc else none
    | _, _ => none
  | .kill me id => if s.mayCall me then s.os_jit_kill now id else none
  | .cancelTask me task_id =>
    if s.mayCall me then s.os_jit_cancel_task now me task_id else none
  | .cancelByOwner me owner_win_id =>
    if s.mayCall me then s.os_jit_cancel_by_owner now me owner_win_id else none
  | .trapCancel t owner_win_id =>
    if s.CanRun t then s.os_jit_cancel_running_owner_from_trap now t owner_win_id else none
  | .wake task_id => some (s.task_wake task_id)
  | .spawn =>
    if MAX_TASKS ≤ s.taskTop ∨ ¬ s.AtYield then none
    else some { s.setTask s.taskTop ⟨true, .outside, none⟩ with taskTop := s.taskTop + 1 }
  | .elsewhere fs => if s.AtYield then some (s.elsewhere fs) else none

end

/-- The table after `os_jit_init`, with the tasks of the rest of the system. -/
structure Started (s : JitSys) : Prop where
  empty : ∀ k, (s.jit_jobs k).state = .empty
  task_id : ∀ k, (s.jit_jobs k).task_id = -1
  fds : ∀ k i, (s.jit_jobs k).fds i = -1
  kptrs : ∀ k i, (s.jit_jobs k).kptrs i = 0
  outside : ∀ t < s.taskTop, (s.tasks t).place = .outside
  opener : ∀ i, s.opener i = (s.fs.fds i).map fun _ => .elsewhere
  holder : ∀ p, s.holder p = none
  log : s.log = []

end JitSys

end

end vibeos.tcc_glue

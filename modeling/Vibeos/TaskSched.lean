-- The tasks of task.c: the lists of runnable tasks, one for each level, the flags
-- of the tasks, and the calls that move tasks in and out of the lists and pick
-- the next one. A call gives the state after it; `none` is a panic.
import Mathlib.Logic.Function.Basic
import Mathlib.Data.List.Nodup
import Mathlib.Algebra.Group.Nat.Defs

namespace vibeos.task

def MAX_TASKS : Nat := 16
def MAX_TASKLEVELS : Nat := 4
def STACK_SIZE : Nat := 65536
def LEVEL0_QUOTA : Nat := 3

/-- `TASK_UNUSED`, `TASK_SLEEPING` and `TASK_RUNNING`. -/
inductive TaskFlags where
  | unused
  | sleeping
  | running
deriving DecidableEq

/-- `struct task_level`. The ids of a level are the first `running` of its array. -/
structure TaskLevel where
  tasks : Nat → Nat
  running : Nat
  now : Nat

def TaskLevel.stored (tl : TaskLevel) : List Nat := (List.range tl.running).map tl.tasks

structure TaskMeta where
  flags : TaskFlags
  level : Nat
  priority : Int

/-- What the scheduler reads of a `struct context`. -/
structure Context where
  ra : Nat
  sp : Nat

/-- What `sys_switch` saves of a task: it is inside a call, and on a stack. -/
structure SavedRegs where
  ra : Nat
  sp : Nat
  ra_pos : 0 < ra
  sp_pos : 0 < sp

/-- Where the linker put the stacks: inside of the address space. -/
class StackConfig where
  task_stack : Nat
  fits : task_stack + MAX_TASKS * STACK_SIZE < 2 ^ 32

export StackConfig (task_stack)

/-- Stacks in the memory of the emulated board. -/
@[reducible]
def qemuStacks : StackConfig where
  task_stack := 0x80100000
  fits := by decide

structure TaskState where
  task_levels : Nat → TaskLevel
  task_meta : Nat → TaskMeta
  ctx_tasks : Nat → Context
  current_task_id : Option Nat
  current_level : Nat
  current_level_quota : Nat
  taskTop : Nat

def task_init : TaskState where
  task_levels := fun _ => ⟨fun _ => 0, 0, 0⟩
  task_meta := fun _ => ⟨.unused, 0, 0⟩
  ctx_tasks := fun _ => ⟨0, 0⟩
  current_task_id := none
  current_level := 0
  current_level_quota := LEVEL0_QUOTA
  taskTop := 0

/-! ## The lists -/

def task_add (s : TaskState) (task_id : Nat) : Option TaskState :=
  let m := s.task_meta task_id
  let level := if MAX_TASKLEVELS ≤ m.level then 0 else m.level
  let tl := s.task_levels level
  let tl := if MAX_TASKS < tl.running then { tl with running := 0, now := 0 } else tl
  if MAX_TASKS ≤ tl.running then none
  else
    some { s with
      task_levels := Function.update s.task_levels level { tl with
        tasks := Function.update tl.tasks tl.running task_id
        running := tl.running + 1 }
      task_meta := Function.update s.task_meta task_id { m with
        level := level, flags := .running } }

def find_task (tl : TaskLevel) (task_id : Nat) : Option Nat :=
  (List.range tl.running).find? fun i => tl.tasks i == task_id

/-- The second loop of `task_remove`: the ids behind `i` move down, up to `running`. -/
def shift_down (taskTop : Nat) (tasks : Nat → Nat) (i running : Nat) : Nat → Nat :=
  (List.range' i (running - i)).foldl
    (fun tasks i =>
      let next := tasks (i + 1)
      Function.update tasks i (if taskTop ≤ next then 0 else next))
    tasks

def TaskLevel.drop (tl : TaskLevel) (taskTop i : Nat) : TaskLevel :=
  let running := tl.running - 1
  let now := if i < tl.now then tl.now - 1 else tl.now
  { tasks := shift_down taskTop tl.tasks i running
    running := running
    now := if running ≤ now then 0 else now }

def task_remove (s : TaskState) (task_id : Nat) : TaskState :=
  let m := s.task_meta task_id
  if MAX_TASKLEVELS ≤ m.level then
    { s with
      task_meta := Function.update s.task_meta task_id { m with level := 0, flags := .sleeping } }
  else
    let tl := s.task_levels m.level
    if MAX_TASKS < tl.running then
      { s with
        task_levels := Function.update s.task_levels m.level { tl with running := 0, now := 0 }
        task_meta := Function.update s.task_meta task_id { m with flags := .sleeping } }
    else
      match find_task tl task_id with
      | none => s
      | some i =>
        { s with
          task_levels := Function.update s.task_levels m.level (tl.drop s.taskTop i)
          task_meta := Function.update s.task_meta task_id { m with flags := .sleeping } }

/-- The first level with a task, the lowest number first. -/
def first_level (s : TaskState) : Option Nat :=
  (List.range MAX_TASKLEVELS).find? fun i => 0 < (s.task_levels i).running

def task_switchsub (s : TaskState) : TaskState :=
  match first_level s with
  | some i =>
    { s with
      current_level := i, current_level_quota := if i = 0 then LEVEL0_QUOTA else 1 }
  | none => { s with current_level := 0, current_level_quota := LEVEL0_QUOTA }

/-! ## The calls -/

/-- `task_run`: a task gets a level and a priority, and is runnable from then on. -/
def task_run (s : TaskState) (task_id level priority : Int) : Option TaskState :=
  if task_id < 0 ∨ s.taskTop ≤ task_id then some s
  else
    let id := task_id.toNat
    let level := if level < 0 then (s.task_meta id).level else level.toNat
    let level := if MAX_TASKLEVELS ≤ level then MAX_TASKLEVELS - 1 else level
    let priority := if priority ≤ 0 then 1 else priority
    let s :=
      if (s.task_meta id).flags = .running ∧ (s.task_meta id).level ≠ level then task_remove s id
      else s
    let s := { s with
      task_meta := Function.update s.task_meta id { s.task_meta id with
        level := level, priority := priority } }
    let added := if (s.task_meta id).flags ≠ .running then task_add s id else some s
    added.map task_switchsub

section

variable [StackConfig]

/-- The context of a new task: it starts at `task`, with an empty stack. -/
def new_context (i task : Nat) : Context where
  ra := task
  sp := (task_stack + (i + 1) * STACK_SIZE) / 16 * 16

/-- The fields that `task_create` and `task_reset` set before `task_run`. -/
def fresh_task (s : TaskState) (i task : Nat) : TaskState := { s with
  ctx_tasks := Function.update s.ctx_tasks i (new_context i task)
  task_meta := Function.update s.task_meta i ⟨.sleeping, 0, 1⟩ }

/-- `task_create`: the id of the task, and the state after it. -/
def task_create (s : TaskState) (task : Nat) (level priority : Int) :
    Option (Nat × TaskState) :=
  if MAX_TASKS ≤ s.taskTop then none
  else
    let i := s.taskTop
    let s := fresh_task { s with taskTop := s.taskTop + 1 } i task
    (task_run s i level priority).map fun s => (i, s)

def task_reset (s : TaskState) (task_id : Int) (task : Nat) (level priority : Int) :
    Option TaskState :=
  if task_id < 0 ∨ s.taskTop ≤ task_id then some s
  else
    let id := task_id.toNat
    let s := if (s.task_meta id).flags = .running then task_remove s id else s
    task_run (fresh_task s id task) task_id level priority

end

/-- `task_os`: the switch back to the kernel, with the registers `regs` of the task. -/
def task_os (s : TaskState) (regs : SavedRegs) : TaskState :=
  match s.current_task_id with
  | none => s
  | some id =>
    if s.taskTop ≤ id then s
    else
      { s with
        current_task_id := none
        ctx_tasks := Function.update s.ctx_tasks id ⟨regs.ra, regs.sp⟩ }

/-- `task_sleep`. A task that puts itself to sleep switches to the kernel. -/
def task_sleep (s : TaskState) (task_id : Int) (regs : SavedRegs) : TaskState :=
  if task_id < 0 ∨ s.taskTop ≤ task_id then s
  else
    let id := task_id.toNat
    if (s.task_meta id).flags ≠ .running then s
    else
      let self := s.current_task_id = some id
      let s := task_switchsub (task_remove s id)
      if self then task_os s regs else s

def task_wake (s : TaskState) (task_id : Int) : Option TaskState :=
  if task_id < 0 ∨ s.taskTop ≤ task_id then some s
  else
    let id := task_id.toNat
    if (s.task_meta id).flags = .running then some s
    else (task_add s id).map task_switchsub

/-- The level that `task_next` takes a task from, and the quota after it: the current level
while it has quota, else the next one around that has a task. -/
def next_level (s : TaskState) : Option (Nat × Nat) :=
  if s.current_level < MAX_TASKLEVELS ∧ 0 < (s.task_levels s.current_level).running ∧
      0 < s.current_level_quota then
    some (s.current_level, s.current_level_quota - 1)
  else
    let around := (List.range' 1 MAX_TASKLEVELS).map fun step =>
      (s.current_level + step) % MAX_TASKLEVELS
    let chosen := around.find? fun level => 0 < (s.task_levels level).running
    let chosen := chosen.or (first_level s)
    chosen.map fun level => (level, if level = 0 then LEVEL0_QUOTA - 1 else 0)

/-- `task_next`: the id of the task, or -1. -/
def task_next (s : TaskState) : Int × TaskState :=
  match next_level s with
  | none => (-1, s)
  | some (level, quota) =>
    let tl := s.task_levels level
    let s := { s with current_level := level, current_level_quota := quota }
    if tl.running = 0 then (-1, s)
    else
      let now := if tl.running ≤ tl.now then 0 else tl.now
      let task_id := tl.tasks now
      let s := { s with
        task_levels := Function.update s.task_levels level { tl with
          now := if tl.running ≤ now + 1 then 0 else now + 1 } }
      if s.taskTop ≤ task_id then (-1, s)
      else if (s.task_meta task_id).flags ≠ .running then (-1, s)
      else if (s.ctx_tasks task_id).ra = 0 ∨ (s.ctx_tasks task_id).sp = 0 then
        (-1, task_remove s task_id)
      else (task_id, s)

/-- `task_go`, up to the switch to the task. -/
def task_go (s : TaskState) (i : Int) : TaskState :=
  if i < 0 ∨ s.taskTop ≤ i then s
  else
    let id := i.toNat
    if (s.task_meta id).flags ≠ .running then s
    else if (s.ctx_tasks id).ra = 0 ∨ (s.ctx_tasks id).sp = 0 then task_remove s id
    else { s with current_task_id := some id }

/-! ## Runs -/

inductive Call where
  | create (task : Nat) (level priority : Int)
  | reset (task_id : Int) (task : Nat) (level priority : Int)
  | run (task_id level priority : Int)
  | sleep (task_id : Int) (regs : SavedRegs)
  | wake (task_id : Int)
  | next
  | go (task_id : Int)
  | os (regs : SavedRegs)

variable [StackConfig]

/-- The state after a call; `none` when it panics. -/
def step (s : TaskState) : Call → Option TaskState
  | .create task level priority => (task_create s task level priority).map Prod.snd
  | .reset task_id task level priority => task_reset s task_id task level priority
  | .run task_id level priority => task_run s task_id level priority
  | .sleep task_id regs => some (task_sleep s task_id regs)
  | .wake task_id => task_wake s task_id
  | .next => some (task_next s).2
  | .go task_id => some (task_go s task_id)
  | .os regs => some (task_os s regs)

def run (s : TaskState) : List Call → Option TaskState
  | [] => some s
  | call :: calls => (step s call).bind fun s => run s calls

/-- A state that calls from `task_init` on lead to. -/
def Reached (s : TaskState) : Prop := ∃ calls, run task_init calls = some s

end vibeos.task

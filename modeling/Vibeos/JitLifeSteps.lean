-- What one step can do to the table of jobs and to the tasks.
import Vibeos.JitLifeInv

namespace vibeos.tcc_glue

open vibeos.fs

variable [JitConfig]

namespace JitSys

variable {s s' : JitSys} {now : Nat}

/-! ## Kinds of changes -/

def bare (job : jit_job) : jit_job := { job with kptrs := fun _ => 0, fds := fun _ => -1 }

/-- Two jobs that differ in what they hold. -/
structure SameLife (job job' : jit_job) : Prop where
  id : job'.id = job.id
  state : job'.state = job.state
  task_id : job'.task_id = job.task_id
  waiter : job'.waiter_task_id = job.waiter_task_id
  bg : job'.bg = job.bg
  cancel : job'.cancel_requested = job.cancel_requested
  exit_code : job'.exit_code = job.exit_code
  tcc : job'.tcc = job.tcc
  main_func : job'.main_func = job.main_func

omit [JitConfig] in
theorem SameLife.of_bare {job job' : jit_job} (h : bare job' = bare job) : SameLife job job' := by
  unfold bare at h
  rw [jit_job.mk.injEq] at h
  obtain ⟨hid, hstate, hbg, _, htask, hwaiter, hcancel, hexit, htcc, hmain, _⟩ := h
  exact ⟨hid, hstate, htask, hwaiter, hbg, hcancel, hexit, htcc, hmain⟩

/-- Jobs that run take and give resources, and tasks sleep and wake where they are; a waiter
sleeps only while its job is active. -/
structure Works (s s' : JitSys) : Prop where
  jobs : ∀ k, bare (s'.jit_jobs k) = bare (s.jit_jobs k)
  idle : ∀ k, (s.jit_jobs k).state ≠ .running → s'.jit_jobs k = s.jit_jobs k
  jit_next_id : s'.jit_next_id = s.jit_next_id
  taskTop : s'.taskTop = s.taskTop
  place : ∀ t, (s'.tasks t).place = (s.tasks t).place
  asleep : ∀ t slot id, (s.tasks t).place = .waiting slot id → (s'.tasks t).runnable = false →
    (s.tasks t).runnable = false ∨ (s.jit_jobs slot).Active

/-- The job that is ready runs in its task. -/
structure Begins (s s' : JitSys) (slot : Fin JIT_MAX_JOBS) (t : Nat) : Prop where
  top : t < s.taskTop
  place : (s.tasks t).place = .entry slot
  ready : (s.jit_jobs slot).state = .ready
  jobs : s'.jit_jobs = Function.update s.jit_jobs slot
    { s.jit_jobs slot with task_id := t, state := .running, cancel_requested := false }
  jit_next_id : s'.jit_next_id = s.jit_next_id
  taskTop : s'.taskTop = s.taskTop
  tasks : s'.tasks = Function.update s.tasks t ⟨true, .main slot (s.jit_jobs slot).id, none⟩

/-- A task goes on outside, or to its entry, or is new. -/
structure Leaves (s s' : JitSys) (t : Nat) (task : Task) : Prop where
  jobs : s'.jit_jobs = s.jit_jobs
  jit_next_id : s'.jit_next_id = s.jit_next_id
  tasks : s'.tasks = Function.update s.tasks t task
  moves : (s'.taskTop = s.taskTop ∧ t < s.taskTop ∧
      ((∃ slot id, (s.tasks t).place = .waiting slot id ∧ task.place = .outside) ∨
        ∃ slot, (s.tasks t).place = .ended slot ∧ task.place = .entry slot)) ∨
    (s'.taskTop = s.taskTop + 1 ∧ t = s.taskTop ∧ task.place = .outside)

/-- No task is in `os_jit_run` for a job of this slot. -/
def NoWaiter (s : JitSys) (slot : Fin JIT_MAX_JOBS) : Prop :=
  ∀ t < s.taskTop, ∀ id, (s.tasks t).place ≠ .waiting slot id

/-- What a step does to the table and to the tasks, but for the cancelling of all jobs of a
window. Where it `fits`, no job that is done stops again, and no slot with a waiter is taken. -/
inductive Change (s : JitSys) (fits : Prop) (s' : JitSys) : Prop
  | works (h : Works s s')
  | leaves (t : Nat) (task : Task) (h : Leaves s s' t task)
  | begins (slot : Fin JIT_MAX_JOBS) (t : Nat) (h : Begins s s' slot t)
  | stops (slot : Fin JIT_MAX_JOBS) (job : jit_job) (h : Stops s s' slot job)
      (state : (s.jit_jobs slot).state ≠ .empty)
      (unended : fits → (s.jit_jobs slot).state ≠ .done)
  | launches (slot : Fin JIT_MAX_JOBS) (job : jit_job) (me : Option Nat)
      (h : Launches s s' slot job me) (quiet : fits → s.NoWaiter slot)
  | discards (slot : Fin JIT_MAX_JOBS) (job : jit_job) (h : Discards s s' slot job)
      (quiet : fits → s.NoWaiter slot)

theorem Works.of_untouched (h : Untouched s s') : Works s s' := by
  obtain ⟨hjobs, htasks, htop, hnext⟩ := h
  refine ⟨?_, ?_, hnext, htop, ?_, ?_⟩
  · intro k
    rw [hjobs]
  · intro k _
    rw [hjobs]
  · intro t
    rw [htasks]
  · intro t _ _ _ hrun
    rw [htasks] at hrun
    exact Or.inl hrun

theorem Works.refl (s : JitSys) : Works s s := Works.of_untouched (Untouched.refl s)

theorem Works.wake (s : JitSys) (task_id : Int) : Works s (s.task_wake task_id) := by
  obtain ⟨hjobs, htop, hnext⟩ := task_wake_rest s task_id
  refine ⟨?_, ?_, hnext, htop, fun t => task_wake_place s task_id t, ?_⟩
  · intro k
    rw [hjobs]
  · intro k _
    rw [hjobs]
  · intro t _ _ _ hrun
    left
    by_contra hnot
    rw [Bool.not_eq_false] at hnot
    rw [task_wake_runnable s task_id t (Or.inl hnot)] at hrun
    cases hrun

theorem Works.setTask {t : Nat} {task : Task} (hplace : task.place = (s.tasks t).place)
    (hwait : ∀ slot id, (s.tasks t).place = .waiting slot id → task.runnable = false →
      (s.jit_jobs slot).Active) : Works s (s.setTask t task) := by
  refine ⟨fun _ => rfl, fun _ _ => rfl, rfl, rfl, ?_, ?_⟩
  · intro t'
    by_cases ht : t' = t
    · rw [ht, setTask_tasks, Function.update_self, hplace]
    · rw [setTask_tasks, Function.update_of_ne ht]
  · intro t' slot id hw hrun
    by_cases ht : t' = t
    · rw [ht, setTask_tasks, Function.update_self] at hrun
      rw [ht] at hw
      exact Or.inr (hwait slot id hw hrun)
    · rw [setTask_tasks, Function.update_of_ne ht] at hrun
      exact Or.inl hrun

theorem Works.state (h : Works s s') (k : Fin JIT_MAX_JOBS) :
    (s'.jit_jobs k).state = (s.jit_jobs k).state := (SameLife.of_bare (h.jobs k)).state

theorem Works.trans {s₁ s₂ s₃ : JitSys} (h : Works s₁ s₂) (h' : Works s₂ s₃) : Works s₁ s₃ := by
  have hstate := h.state
  refine ⟨?_, ?_, h'.jit_next_id.trans h.jit_next_id, h'.taskTop.trans h.taskTop, ?_, ?_⟩
  · intro k
    exact (h'.jobs k).trans (h.jobs k)
  · intro k hk
    rw [h'.idle k (by rw [hstate]; exact hk), h.idle k hk]
  · intro t
    exact (h'.place t).trans (h.place t)
  · intro t slot id hw hrun
    rcases h'.asleep t slot id ((h.place t).trans hw) hrun with hrun' | hactive
    · exact h.asleep t slot id hw hrun'
    · right
      unfold jit_job.Active at hactive ⊢
      rw [hstate] at hactive
      exact hactive

/-! ## Every change keeps the invariant -/

theorem Runs.of_bare {job job' : jit_job} {slot : Fin JIT_MAX_JOBS} {p : Place}
    (h : Runs job slot p) (hbare : bare job' = bare job) : Runs job' slot p := by
  obtain ⟨hid, hstate, _, _, _, hcancel, _, htcc, hmain⟩ := SameLife.of_bare hbare
  cases h with
  | entry idle code =>
    apply Runs.entry
    · rw [hstate]
      exact idle
    · rw [hstate, hmain, hid, htcc]
      exact code
  | ended idle =>
    apply Runs.ended
    rw [jit_job.Active, hstate]
    exact idle
  | main running wanted code =>
    rw [← hid]
    apply Runs.main
    · rw [hstate, running]
    · rw [hcancel, wanted]
    · rw [htcc, code, hid]
  | trampoline idle =>
    apply Runs.trampoline
    rw [jit_job.Active, hstate]
    exact idle

theorem LifeInv.of_works (h : s.LifeInv) (hs : Works s s') : s'.LifeInv := by
  have hid : ∀ k, (s'.jit_jobs k).id = (s.jit_jobs k).id :=
    fun k => (SameLife.of_bare (hs.jobs k)).id
  have htask : ∀ k, (s'.jit_jobs k).task_id = (s.jit_jobs k).task_id :=
    fun k => (SameLife.of_bare (hs.jobs k)).task_id
  refine ⟨?_, ?_, ?_, ?_, ?_, ?_⟩
  · intro k
    rw [htask, hs.taskTop]
    rcases h.job k with ⟨hnone, hidle⟩ | ⟨t, ht, hk, hruns⟩
    · refine Or.inl ⟨hnone, ?_⟩
      rw [jit_job.Active, hs.state]
      exact hidle
    · refine Or.inr ⟨t, ht, hk, ?_⟩
      rw [hs.place]
      exact Runs.of_bare hruns (hs.jobs k)
  · intro t ht k hk
    rw [hs.place] at hk
    rw [htask]
    exact h.task t (by rw [← hs.taskTop]; exact ht) k hk
  · intro k
    rw [hs.state]
    exact h.compiled k
  · intro k hk
    rw [hid, hs.jit_next_id]
    exact h.id_lt k (by rw [← hs.state]; exact hk)
  · intro k l hkl hk hl
    rw [hid, hid]
    exact h.id_ne k l hkl (by rw [← hs.state]; exact hk) (by rw [← hs.state]; exact hl)
  · intro k hk
    rw [hs.state] at hk
    rw [hs.idle k hk]
    exact h.released k hk

theorem LifeInv.of_leaves {t : Nat} {task : Task} (h : s.LifeInv) (hs : Leaves s s' t task) :
    s'.LifeInv := by
  apply h.of_retasks
  have hself : (s'.tasks t).place = task.place := by
    rw [hs.tasks, Function.update_self]
  have hother : ∀ t', t' ≠ t → s'.tasks t' = s.tasks t' := by
    intro t' ht'
    rw [hs.tasks, Function.update_of_ne ht']
  refine ⟨hs.jobs, hs.jit_next_id, ?_, ?_⟩
  · rcases hs.moves with ⟨htop, _⟩ | ⟨htop, _⟩
    · rw [htop]
    · omega
  · intro t' ht'
    by_cases heq : t' = t
    · rw [heq, hself]
      rcases hs.moves with ⟨_, hlt, hmove⟩ | ⟨_, hnew, hout⟩
      · rcases hmove with ⟨slot, id, hwait, hout⟩ | ⟨slot, hended, hentry⟩
        · right
          rw [hout, hwait]
          exact ⟨rfl, fun _ => rfl⟩
        · exact Or.inl ⟨hlt, Or.inr ⟨slot, hended, hentry⟩⟩
      · right
        rw [hout]
        exact ⟨rfl, fun hlt => by omega⟩
    · left
      rw [hother t' heq]
      refine ⟨?_, Or.inl rfl⟩
      rcases hs.moves with ⟨htop, _⟩ | ⟨htop, hnew, _⟩
      · omega
      · omega

theorem LifeInv.of_begins {slot : Fin JIT_MAX_JOBS} {t : Nat} (h : s.LifeInv)
    (hs : Begins s s' slot t) : s'.LifeInv := by
  have htask := h.task t hs.top slot (by rw [hs.place]; rfl)
  have hruns := h.runs htask
  rw [hs.place] at hruns
  cases hruns with
  | entry idle code =>
    obtain ⟨_, htcc⟩ := code hs.ready
    have hstate : (s.jit_jobs slot).state ≠ .empty := by
      rw [hs.ready]
      decide
    apply h.of_rejobs
    refine ⟨hs.jobs, Or.inl htask.symm, hs.taskTop, ?_, ?_, ?_, ?_, ?_, ?_, Or.inl ⟨rfl, hstate⟩,
      ?_⟩
    · intro t' _ hne
      have hne' : t' ≠ t := by
        rintro rfl
        exact hne rfl
      rw [hs.tasks, Function.update_of_ne hne']
      exact Or.inl rfl
    · intro t' _ heq
      have htt : t' = t := by
        have : (t : Int) = t' := heq
        omega
      rw [hs.tasks, htt, Function.update_self]
      exact Runs.main rfl rfl htcc
    · intro hnone
      have : (t : Int) = -1 := hnone
      omega
    · simp
    · rw [hs.jit_next_id]
    · intro _
      rw [hs.jit_next_id]
      exact h.id_lt slot hstate
    · intro hne
      exact absurd rfl hne

theorem LifeInv.of_change {fits : Prop} (h : s.LifeInv) (hs : Change s fits s') : s'.LifeInv := by
  cases hs with
  | works hs => exact h.of_works hs
  | leaves _ _ hs => exact h.of_leaves hs
  | begins _ _ hs => exact h.of_begins hs
  | stops _ _ hs state => exact h.of_stops hs state
  | launches _ _ _ hs => exact h.of_launches hs
  | discards _ _ hs => exact h.of_discards hs

end JitSys

end vibeos.tcc_glue

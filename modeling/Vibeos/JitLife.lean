-- The life of a job: what the calls on jobs do to the table and to the tasks, and what holds of
-- them after every step.
import Vibeos.JitSteps

namespace vibeos.tcc_glue

open vibeos.fs

variable [JitConfig]

namespace JitSys

variable {s s' : JitSys} {now : Nat}

/-! ## Steps that leave the table alone -/

/-- The table of jobs and the tasks are as they were. -/
structure Untouched (s s' : JitSys) : Prop where
  jobs : s'.jit_jobs = s.jit_jobs
  tasks : s'.tasks = s.tasks
  taskTop : s'.taskTop = s.taskTop
  jit_next_id : s'.jit_next_id = s.jit_next_id

theorem Untouched.refl (s : JitSys) : Untouched s s := ⟨rfl, rfl, rfl, rfl⟩

theorem Untouched.trans {s₁ s₂ s₃ : JitSys} (h : Untouched s₁ s₂) (h' : Untouched s₂ s₃) :
    Untouched s₁ s₃ :=
  ⟨h'.jobs.trans h.jobs, h'.tasks.trans h.tasks, h'.taskTop.trans h.taskTop,
    h'.jit_next_id.trans h.jit_next_id⟩

theorem free_untouched (s : JitSys) (id p : Nat) : Untouched s (s.free id p) := by
  unfold free
  split
  · exact Untouched.refl s
  · exact ⟨rfl, rfl, rfl, rfl⟩

theorem freeAll_untouched (id : Nat) (ps : List Nat) (s : JitSys) :
    Untouched s (freeAll id ps s) := by
  induction ps generalizing s with
  | nil => exact Untouched.refl s
  | cons p ps ih =>
    rw [freeAll]
    split
    · exact (free_untouched s id p).trans (ih _)
    · exact ih s

section

variable [BuildConfig]

theorem close_untouched {id : Nat} {fd : Int} {r : Int × JitSys}
    (h : s.close id fd now = some r) : Untouched s r.2 := by
  unfold close at h
  split at h
  · cases h
    exact ⟨rfl, rfl, rfl, rfl⟩
  · cases h

theorem closeAll_untouched {id : Nat} {fds : List Int} (h : closeAll now id fds s = some s') :
    Untouched s s' := by
  induction fds generalizing s with
  | nil =>
    cases h
    exact Untouched.refl _
  | cons fd fds ih =>
    rw [closeAll] at h
    split at h
    · obtain ⟨r, hr, h⟩ := Option.bind_eq_some_iff.mp h
      exact (close_untouched hr).trans (ih h)
    · exact ih h

/-- The job without its resources and its code. -/
def cleaned (job : jit_job) : jit_job :=
  { job with tcc := none, kptrs := fun _ => 0, fds := fun _ => -1 }

theorem jit_job_cleanup_eq {slot : Fin JIT_MAX_JOBS} (h : jit_job_cleanup now s slot = some s') :
    s'.jit_jobs = Function.update s.jit_jobs slot (cleaned (s.jit_jobs slot)) ∧
      s'.tasks = s.tasks ∧ s'.taskTop = s.taskTop ∧ s'.jit_next_id = s.jit_next_id := by
  unfold jit_job_cleanup jit_cleanup_resources at h
  obtain ⟨s₁, h, heq⟩ := Option.map_eq_some_iff.mp h
  obtain ⟨s₂, hclose, heq'⟩ := Option.map_eq_some_iff.mp h
  have hfree := (closeAll_untouched hclose).trans
    (freeAll_untouched (s.jit_jobs slot).id (List.ofFn (s.jit_jobs slot).kptrs) s₂)
  have hjobs := (closeAll_untouched hclose).jobs
  rw [← heq, ← heq']
  refine ⟨?_, hfree.tasks, hfree.taskTop, hfree.jit_next_id⟩
  simp only [setJob, Function.update_self, Function.update_idem]
  rw [hfree.jobs, hjobs]
  rfl

end

/-! ## Wakes and sleeps -/

theorem taskAt_eq_some {task_id : Int} {t : Nat} :
    s.taskAt task_id = some t ↔ task_id = t ∧ t < s.taskTop := by
  unfold taskAt
  split
  · rw [Option.some.injEq]
    omega
  · rename_i h
    constructor
    · intro hn
      cases hn
    · omega

theorem task_wake_place (s : JitSys) (task_id : Int) (t : Nat) :
    ((s.task_wake task_id).tasks t).place = (s.tasks t).place := by
  unfold task_wake
  split
  · rfl
  · rename_i t' _
    by_cases ht : t = t'
    · rw [setTask_tasks, ht, Function.update_self]
    · rw [setTask_tasks, Function.update_of_ne ht]

theorem task_wake_runnable (s : JitSys) (task_id : Int) (t : Nat)
    (h : (s.tasks t).runnable = true ∨ (task_id = t ∧ t < s.taskTop)) :
    ((s.task_wake task_id).tasks t).runnable = true := by
  unfold task_wake
  split
  · rename_i hnone
    rcases h with h | h
    · exact h
    · rw [taskAt_eq_some.mpr h] at hnone
      cases hnone
  · rename_i t' hsome
    by_cases ht : t = t'
    · rw [setTask_tasks, ht, Function.update_self]
    · rw [setTask_tasks, Function.update_of_ne ht]
      refine h.resolve_right ?_
      rintro ⟨h, hlt⟩
      rw [taskAt_eq_some.mpr ⟨h, hlt⟩] at hsome
      exact ht (Option.some.inj hsome)

theorem task_wake_rest (s : JitSys) (task_id : Int) :
    (s.task_wake task_id).jit_jobs = s.jit_jobs ∧ (s.task_wake task_id).taskTop = s.taskTop ∧
      (s.task_wake task_id).jit_next_id = s.jit_next_id := by
  unfold task_wake
  split
  · exact ⟨rfl, rfl, rfl⟩
  · exact ⟨rfl, rfl, rfl⟩

/-! ## Jobs that stop -/

/-- The job in a slot stops and becomes `job`: its task is in none of its code, and its waiter is
woken if it is asleep in `os_jit_run`. -/
structure Stops (s s' : JitSys) (slot : Fin JIT_MAX_JOBS) (job : jit_job) : Prop where
  jobs : s'.jit_jobs = Function.update s.jit_jobs slot job
  id : job.id = (s.jit_jobs slot).id
  task_id : job.task_id = (s.jit_jobs slot).task_id
  waiter : job.waiter_task_id = (s.jit_jobs slot).waiter_task_id
  bg : job.bg = (s.jit_jobs slot).bg
  state : job.state = .done ∨ job.state = .failed
  released : job.tcc = none ∧ (∀ i, job.fds i = -1) ∧ ∀ i, job.kptrs i = 0
  taskTop : s'.taskTop = s.taskTop
  jit_next_id : s'.jit_next_id = s.jit_next_id
  place : ∀ t : Nat, job.task_id ≠ t → (s'.tasks t).place = (s.tasks t).place
  runnable : ∀ t : Nat, job.task_id ≠ t → (s.tasks t).runnable = true →
    (s'.tasks t).runnable = true
  own : ∀ t : Nat, t < s.taskTop → job.task_id = t → (s'.tasks t).place = .entry slot ∨
    (s'.tasks t).place = .ended slot ∨ (s'.tasks t).place = .trampoline slot
  woken : ∀ t : Nat, t < s.taskTop → job.bg = false → job.waiter_task_id = t →
    job.task_id ≠ t → (s.tasks t).place ≠ .outside → (s'.tasks t).runnable = true

theorem reset_sleep_spec (s : JitSys) (task_id : Int) (slot : Fin JIT_MAX_JOBS) :
    ∃ tasks, (if 0 ≤ task_id then (s.task_reset task_id slot).task_sleep task_id else s) =
        { s with tasks := tasks } ∧
      (∀ t : Nat, task_id ≠ t → tasks t = s.tasks t) ∧
      ∀ t : Nat, t < s.taskTop → task_id = t → (tasks t).place = .entry slot := by
  cases hat : s.taskAt task_id with
  | none =>
    refine ⟨s.tasks, ?_, fun _ _ => rfl, ?_⟩
    · have hreset : s.task_reset task_id slot = s := by
        rw [task_reset, hat]
      have hsleep : s.task_sleep task_id = s := by
        rw [task_sleep, hat]
      rw [hreset, hsleep]
      exact ite_self s
    · intro t hlt ht
      rw [taskAt_eq_some.mpr ⟨ht, hlt⟩] at hat
      cases hat
  | some t =>
    obtain ⟨ht, hlt⟩ := taskAt_eq_some.mp hat
    refine ⟨Function.update s.tasks t ⟨false, .entry slot, none⟩, ?_, ?_, ?_⟩
    · have hreset : s.task_reset task_id slot = s.setTask t ⟨true, .entry slot, none⟩ := by
        rw [task_reset, hat]
      have hsame : (s.setTask t ⟨true, .entry slot, none⟩).taskAt task_id = some t := hat
      rw [if_pos (by omega), hreset, task_sleep, hsame]
      simp only [setTask, Function.update_self, Function.update_idem]
    · intro t' hne
      have hne' : t' ≠ t := by
        intro heq
        rw [heq] at hne
        exact hne ht
      rw [Function.update_of_ne hne']
    · intro t' _ ht'
      have heq : t' = t := by omega
      rw [heq, Function.update_self]

section

variable [BuildConfig]

theorem stop_eq {slot : Fin JIT_MAX_JOBS} {exit_code : Int}
    (h : s.stop now slot exit_code = some s') :
    s'.jit_jobs = Function.update s.jit_jobs slot (cleaned { s.jit_jobs slot with
        cancel_requested := true, state := .failed, exit_code := exit_code }) ∧
      s'.taskTop = s.taskTop ∧ s'.jit_next_id = s.jit_next_id ∧
      (∀ t : Nat, (s.jit_jobs slot).task_id ≠ t → s'.tasks t = s.tasks t) ∧
      ∀ t : Nat, t < s.taskTop → (s.jit_jobs slot).task_id = t →
        (s'.tasks t).place = .entry slot := by
  unfold stop at h
  simp only [setJob_jobs, Function.update_self] at h
  obtain ⟨tasks, htasks, hother, hown⟩ := reset_sleep_spec
    (s.setJob slot { s.jit_jobs slot with cancel_requested := true })
    (s.jit_jobs slot).task_id slot
  rw [htasks] at h
  obtain ⟨hjobs, htasks', htop, hnext⟩ := jit_job_cleanup_eq h
  simp only [setJob_jobs, setJob_tasks, setJob_top, setJob_next, Function.update_self,
    Function.update_idem] at hjobs htasks' htop hnext
  refine ⟨hjobs, htop, hnext, ?_, ?_⟩
  · intro t ht
    rw [htasks']
    exact hother t ht
  · intro t hlt ht
    rw [htasks']
    exact hown t hlt ht

/-- The waiter is woken or not; nothing else happens. -/
structure Wakes (s s' : JitSys) (wakes : Prop) (waiter : Int) : Prop where
  jobs : s'.jit_jobs = s.jit_jobs
  top : s'.taskTop = s.taskTop
  next : s'.jit_next_id = s.jit_next_id
  place : ∀ t, (s'.tasks t).place = (s.tasks t).place
  runs : ∀ t, (s.tasks t).runnable = true → (s'.tasks t).runnable = true
  woken : wakes → ∀ t : Nat, waiter = t → t < s.taskTop → (s'.tasks t).runnable = true

omit [BuildConfig] in
theorem wakes_ite (s : JitSys) (wakes : Prop) [Decidable wakes] (waiter : Int) :
    Wakes s (if wakes then s.task_wake waiter else s) wakes waiter := by
  split
  · obtain ⟨hjobs, htop, hnext⟩ := task_wake_rest s waiter
    exact ⟨hjobs, htop, hnext, task_wake_place s waiter,
      fun _ hrun => task_wake_runnable _ _ _ (Or.inl hrun),
      fun _ _ hw hlt => task_wake_runnable _ _ _ (Or.inr ⟨hw, hlt⟩)⟩
  · rename_i hno
    exact ⟨rfl, rfl, rfl, fun _ => rfl, fun _ hrun => hrun, fun hwakes => absurd hwakes hno⟩

variable {slot : Fin JIT_MAX_JOBS}

theorem finish_stops {t : Nat} {job : jit_job}
    (h : finish now (s.setJob slot job) t slot = some s')
    (hid : job.id = (s.jit_jobs slot).id) (htask : job.task_id = (s.jit_jobs slot).task_id)
    (hwaiter : job.waiter_task_id = (s.jit_jobs slot).waiter_task_id)
    (hbg : job.bg = (s.jit_jobs slot).bg) (hstate : job.state = .done ∨ job.state = .failed)
    (ht : job.task_id = t) : Stops s s' slot (cleaned job) := by
  unfold finish at h
  obtain ⟨s₁, hclean, heq⟩ := Option.map_eq_some_iff.mp h
  obtain ⟨hjobs, htasks, htop, hnext⟩ := jit_job_cleanup_eq hclean
  simp only [setJob_jobs, setJob_tasks, setJob_top, setJob_next, Function.update_self,
    Function.update_idem] at hjobs htasks htop hnext
  have hslot : s₁.jit_jobs slot = cleaned job := by
    rw [hjobs, Function.update_self]
  dsimp only at heq
  rw [hslot] at heq
  have hne : ∀ t' : Nat, (cleaned job).task_id ≠ t' → t' ≠ t := by
    intro t' hne heq
    rw [heq] at hne
    exact hne ht
  obtain ⟨s₂, place, hs₂, hplace, hw⟩ : ∃ s₂ place, s' = s₂.setTask t ⟨false, place, none⟩ ∧
      (place = .entry slot ∨ place = .ended slot) ∧
      Wakes s₁ s₂ ((cleaned job).bg = false ∧ 0 ≤ (cleaned job).waiter_task_id)
        (cleaned job).waiter_task_id := by
    have hw := wakes_ite s₁ ((cleaned job).bg = false ∧ 0 ≤ (cleaned job).waiter_task_id)
      (cleaned job).waiter_task_id
    split at heq
    · rename_i hwake
      rw [if_pos hwake] at hw
      exact ⟨_, _, heq.symm, Or.inr rfl, hw⟩
    · rename_i hnowake
      rw [if_neg hnowake] at hw
      exact ⟨_, _, heq.symm, Or.inl rfl, hw⟩
  rw [hs₂]
  refine ⟨hw.jobs.trans hjobs, hid, htask, hwaiter, hbg, hstate, ⟨rfl, fun _ => rfl, fun _ => rfl⟩,
    hw.top.trans htop, hw.next.trans hnext, ?_, ?_, ?_, ?_⟩
  · intro t' ht'
    rw [setTask_tasks, Function.update_of_ne (hne t' ht'), hw.place, htasks]
  · intro t' ht' hrun
    rw [setTask_tasks, Function.update_of_ne (hne t' ht')]
    exact hw.runs t' (by rw [htasks]; exact hrun)
  · intro t' _ ht'
    have hself : t' = t := by
      have : job.task_id = t' := ht'
      omega
    rw [setTask_tasks, hself, Function.update_self]
    exact hplace.imp_right Or.inl
  · intro t' hlt hb hwt ht' _
    rw [setTask_tasks, Function.update_of_ne (hne t' ht')]
    exact hw.woken ⟨hb, by rw [hwt]; exact Int.natCast_nonneg t'⟩ t' hwt (by omega)

theorem stop_stops {exit_code waiter : Int} {s₁ : JitSys} {wakes : Prop} [Decidable wakes]
    (h : s.stop now slot exit_code = some s₁)
    (hs' : s' = if wakes then s₁.task_wake waiter else s₁)
    (hwaiter : waiter = (s.jit_jobs slot).waiter_task_id)
    (hwakes : ∀ t : Nat, t < s.taskTop → (s.jit_jobs slot).bg = false → waiter = t →
      (s.tasks t).place ≠ .outside → wakes) :
    Stops s s' slot (cleaned { s.jit_jobs slot with
      cancel_requested := true, state := .failed, exit_code := exit_code }) := by
  obtain ⟨hjobs, htop, hnext, hother, hown⟩ := stop_eq h
  have hw := wakes_ite s₁ wakes waiter
  rw [← hs'] at hw
  refine ⟨hw.jobs.trans hjobs, rfl, rfl, rfl, rfl, Or.inr rfl, ⟨rfl, fun _ => rfl, fun _ => rfl⟩,
    hw.top.trans htop, hw.next.trans hnext, ?_, ?_, ?_, ?_⟩
  · intro t ht
    rw [hw.place, hother t ht]
  · intro t ht hrun
    exact hw.runs t (by rw [hother t ht]; exact hrun)
  · intro t hlt ht
    rw [hw.place]
    exact Or.inl (hown t hlt ht)
  · intro t hlt hb hwt _ hplace
    have heq := hwaiter.trans hwt
    exact hw.woken (hwakes t hlt hb heq hplace) t heq (by omega)

theorem os_jit_kill_stops {id : Nat} (hslot : s.killSlot id = some slot)
    (h : s.os_jit_kill now id = some s') :
    Stops s s' slot (cleaned { s.jit_jobs slot with
      cancel_requested := true, state := .failed, exit_code := -1 }) := by
  unfold os_jit_kill at h
  rw [hslot] at h
  obtain ⟨s₁, hstop, heq⟩ := Option.map_eq_some_iff.mp h
  have hjob := congrFun (stop_eq hstop).1 slot
  rw [Function.update_self] at hjob
  rw [hjob] at heq
  apply stop_stops hstop heq.symm rfl
  intro t _ hb hw _
  have hw' : (s.jit_jobs slot).waiter_task_id = t := hw
  exact ⟨hb, by rw [hw]; exact Int.natCast_nonneg t⟩

/-- The caller is in no code of a job and waits for none. -/
def Calls (s : JitSys) (me : Int) : Prop := ∀ t : Nat, t < s.taskTop → me = t →
  (s.tasks t).place = .outside

theorem cancel_stops {me : Int} (hme : s.Calls me) (h : s.cancel now me slot = some s') :
    Stops s s' slot (cleaned { s.jit_jobs slot with
      cancel_requested := true, state := .failed, exit_code := -2 }) := by
  unfold cancel at h
  obtain ⟨s₁, hstop, heq⟩ := Option.map_eq_some_iff.mp h
  apply stop_stops hstop heq.symm rfl
  intro t hlt _ hw hplace
  refine ⟨by rw [hw]; exact Int.natCast_nonneg t, ?_⟩
  intro hwme
  exact hplace (hme t hlt (hwme.symm.trans hw))

theorem trap_stops {t : Nat} {owner_win_id : Int} (hslot : s.trapSlot t owner_win_id = some slot)
    (h : s.os_jit_cancel_running_owner_from_trap now t owner_win_id = some s') :
    Stops s s' slot (cleaned { s.jit_jobs slot with
      cancel_requested := true, state := .failed, exit_code := -2 }) := by
  have htask : (s.jit_jobs slot).task_id = t := by
    unfold trapSlot at hslot
    rw [Fin.find?_eq_some_iff] at hslot
    exact (of_decide_eq_true hslot.1).2.2
  unfold os_jit_cancel_running_owner_from_trap at h
  rw [hslot] at h
  obtain ⟨s₁, hclean, heq⟩ := Option.map_eq_some_iff.mp h
  obtain ⟨hjobs, htasks, htop, hnext⟩ := jit_job_cleanup_eq hclean
  simp only [setJob_jobs, setJob_tasks, setJob_top, setJob_next, Function.update_self,
    Function.update_idem] at hjobs htasks htop hnext
  have hne : ∀ t' : Nat, (s.jit_jobs slot).task_id ≠ t' → t' ≠ t := by
    intro t' hne heq
    rw [heq] at hne
    exact hne htask
  have hw := wakes_ite s₁ ((s.jit_jobs slot).waiter_task_id ≥ 0 ∧
    (s.jit_jobs slot).waiter_task_id ≠ t) (s.jit_jobs slot).waiter_task_id
  rw [← heq]
  refine ⟨hw.jobs.trans hjobs, rfl, rfl, rfl, rfl, Or.inr rfl, ⟨rfl, fun _ => rfl, fun _ => rfl⟩,
    hw.top.trans htop, hw.next.trans hnext, ?_, ?_, ?_, ?_⟩
  · intro t' ht'
    rw [setTask_tasks, Function.update_of_ne (hne t' ht'), hw.place, htasks]
  · intro t' ht' hrun
    rw [setTask_tasks, Function.update_of_ne (hne t' ht')]
    exact hw.runs t' (by rw [htasks]; exact hrun)
  · intro t' _ ht'
    have hself : t' = t := by
      have : (s.jit_jobs slot).task_id = t' := ht'
      omega
    rw [setTask_tasks, hself, Function.update_self]
    exact Or.inr (Or.inr rfl)
  · intro t' hlt _ hwt ht' _
    rw [setTask_tasks, Function.update_of_ne (hne t' ht')]
    have hne' := hne t' ht'
    have hwt' : (s.jit_jobs slot).waiter_task_id = t' := hwt
    exact hw.woken ⟨by omega, by omega⟩ t' hwt (by omega)

end

end JitSys

end vibeos.tcc_glue

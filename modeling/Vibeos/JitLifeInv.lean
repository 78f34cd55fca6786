-- What holds of the table of jobs and of the tasks in every run, and that every step keeps it.
import Vibeos.JitLife

namespace vibeos.tcc_glue

open vibeos.fs

variable [JitConfig]

def Place.slot : Place → Option (Fin JIT_MAX_JOBS)
  | .outside => none
  | .waiting _ _ => none
  | .entry slot => some slot
  | .ended slot => some slot
  | .main slot _ => some slot
  | .trampoline slot => some slot

/-- Where the task of a job is, for the state of the job. -/
inductive Runs (job : jit_job) (slot : Fin JIT_MAX_JOBS) : Place → Prop
  | entry (idle : job.state ≠ .running)
      (code : job.state = .ready → job.main_func = some job.id ∧ job.tcc = some job.id) :
      Runs job slot (.entry slot)
  | ended (idle : ¬ job.Active) : Runs job slot (.ended slot)
  | main (running : job.state = .running) (wanted : job.cancel_requested = false)
      (code : job.tcc = some job.id) : Runs job slot (.main slot job.id)
  | trampoline (idle : ¬ job.Active) : Runs job slot (.trampoline slot)

theorem Runs.slot_eq {job : jit_job} {slot : Fin JIT_MAX_JOBS} {p : Place} (h : Runs job slot p) :
    p.slot = some slot := by
  cases h with
  | entry => rfl
  | ended => rfl
  | main => rfl
  | trampoline => rfl

namespace JitSys

structure LifeInv (s : JitSys) : Prop where
  job : ∀ k, ((s.jit_jobs k).task_id = -1 ∧ ¬ (s.jit_jobs k).Active) ∨
    ∃ t, t < s.taskTop ∧ (s.jit_jobs k).task_id = t ∧ Runs (s.jit_jobs k) k (s.tasks t).place
  task : ∀ t < s.taskTop, ∀ k, (s.tasks t).place.slot = some k → (s.jit_jobs k).task_id = t
  compiled : ∀ k, (s.jit_jobs k).state ≠ .compiling
  id_lt : ∀ k, (s.jit_jobs k).state ≠ .empty → (s.jit_jobs k).id < s.jit_next_id
  id_ne : ∀ k l, k ≠ l → (s.jit_jobs k).state ≠ .empty → (s.jit_jobs l).state ≠ .empty →
    (s.jit_jobs k).id ≠ (s.jit_jobs l).id
  released : ∀ k, (s.jit_jobs k).state ≠ .running →
    (∀ i, (s.jit_jobs k).fds i = -1) ∧ ∀ i, (s.jit_jobs k).kptrs i = 0

variable {s s' : JitSys}

theorem Started.lifeInv (h : s.Started) : s.LifeInv := by
  refine ⟨?_, ?_, ?_, ?_, ?_, ?_⟩
  · intro k
    refine Or.inl ⟨h.task_id k, ?_⟩
    rw [jit_job.Active, h.empty]
    decide
  · intro t ht k hk
    rw [h.outside t ht] at hk
    cases hk
  · intro k
    rw [h.empty]
    decide
  · intro k hk
    exact absurd (h.empty k) hk
  · intro k _ _ hk
    exact absurd (h.empty k) hk
  · intro k _
    exact ⟨h.fds k, h.kptrs k⟩

theorem LifeInv.runs (h : s.LifeInv) {k : Fin JIT_MAX_JOBS} {t : Nat}
    (htask : (s.jit_jobs k).task_id = t) : Runs (s.jit_jobs k) k (s.tasks t).place := by
  rcases h.job k with ⟨hnone, _⟩ | ⟨t', _, ht', hruns⟩
  · omega
  · have heq : t = t' := by omega
    rw [heq]
    exact hruns

theorem LifeInv.task_ne (h : s.LifeInv) {k l : Fin JIT_MAX_JOBS} (hkl : l ≠ k) {t : Nat}
    (htask : (s.jit_jobs l).task_id = t) : (s.jit_jobs k).task_id ≠ t := by
  intro hk
  have hl := (h.runs htask).slot_eq
  rw [(h.runs hk).slot_eq] at hl
  exact hkl (Option.some.inj hl).symm

theorem LifeInv.task_of_none (h : s.LifeInv) {t : Nat}
    (hnone : (s.tasks t).place.slot = none) (k : Fin JIT_MAX_JOBS) :
    (s.jit_jobs k).task_id ≠ t := by
  intro hk
  rw [(h.runs hk).slot_eq] at hnone
  cases hnone

theorem LifeInv.main (h : s.LifeInv) {t id : Nat} {k : Fin JIT_MAX_JOBS} (ht : t < s.taskTop)
    (hplace : (s.tasks t).place = .main k id) :
    (s.jit_jobs k).task_id = t ∧ (s.jit_jobs k).id = id ∧ (s.jit_jobs k).state = .running ∧
      (s.jit_jobs k).cancel_requested = false ∧ (s.jit_jobs k).tcc = some id := by
  have htask := h.task t ht k (by rw [hplace]; rfl)
  have hruns := h.runs htask
  rw [hplace] at hruns
  cases hruns with
  | main hrun hwanted hcode => exact ⟨htask, rfl, hrun, hwanted, hcode⟩

/-! ## Steps -/

theorem LifeInv.of_untouched (h : s.LifeInv) (hs : Untouched s s') : s'.LifeInv := by
  obtain ⟨hjobs, htasks, htop, hnext⟩ := hs
  refine ⟨?_, ?_, ?_, ?_, ?_, ?_⟩
  · rw [hjobs, htasks, htop]
    exact h.job
  · rw [hjobs, htasks, htop]
    exact h.task
  · rw [hjobs]
    exact h.compiled
  · rw [hjobs, hnext]
    exact h.id_lt
  · rw [hjobs]
    exact h.id_ne
  · rw [hjobs]
    exact h.released

/-- Only tasks that work for no slot go elsewhere, and none of them comes to work for one; a task
whose job has ended may go back to its entry. -/
structure Retasks (s s' : JitSys) : Prop where
  jobs : s'.jit_jobs = s.jit_jobs
  jit_next_id : s'.jit_next_id = s.jit_next_id
  taskTop : s.taskTop ≤ s'.taskTop
  place : ∀ t < s'.taskTop, (t < s.taskTop ∧ ((s'.tasks t).place = (s.tasks t).place ∨
      ∃ k, (s.tasks t).place = .ended k ∧ (s'.tasks t).place = .entry k)) ∨
    ((s'.tasks t).place.slot = none ∧ (t < s.taskTop → (s.tasks t).place.slot = none))

theorem LifeInv.of_retasks (h : s.LifeInv) (hs : Retasks s s') : s'.LifeInv := by
  obtain ⟨hjobs, hnext, htop, hplace⟩ := hs
  refine ⟨?_, ?_, ?_, ?_, ?_, ?_⟩
  · intro k
    rw [hjobs]
    rcases h.job k with hnone | ⟨t, ht, htask, hruns⟩
    · exact Or.inl hnone
    · refine Or.inr ⟨t, by omega, htask, ?_⟩
      rcases hplace t (by omega) with ⟨_, heq | ⟨l, hended, hentry⟩⟩ | ⟨_, hnone⟩
      · rw [heq]
        exact hruns
      · rw [hentry]
        rw [hended] at hruns
        cases hruns with
        | ended idle =>
          exact Runs.entry (fun hrun => idle (Or.inr hrun)) fun hready => absurd (Or.inl hready) idle
      · rw [hruns.slot_eq] at hnone
        cases hnone ht
  · intro t ht k hk
    rw [hjobs]
    rcases hplace t ht with ⟨hlt, heq | ⟨l, hended, hentry⟩⟩ | ⟨hnone, _⟩
    · rw [heq] at hk
      exact h.task t hlt k hk
    · rw [hentry] at hk
      apply h.task t hlt k
      rw [hended]
      exact hk
    · rw [hnone] at hk
      cases hk
  · rw [hjobs]
    exact h.compiled
  · rw [hjobs, hnext]
    exact h.id_lt
  · rw [hjobs]
    exact h.id_ne
  · rw [hjobs]
    exact h.released

/-- The job of one slot becomes `job`, and only the task of this slot moves. A slot without a task
may get one that works for no slot. -/
structure Rejobs (s s' : JitSys) (slot : Fin JIT_MAX_JOBS) (job : jit_job) : Prop where
  jobs : s'.jit_jobs = Function.update s.jit_jobs slot job
  task_id : job.task_id = (s.jit_jobs slot).task_id ∨ ((s.jit_jobs slot).task_id = -1 ∧
    ∃ t < s.taskTop, job.task_id = t ∧ (s.tasks t).place.slot = none)
  taskTop : s'.taskTop = s.taskTop
  place : ∀ t < s.taskTop, job.task_id ≠ t → (s'.tasks t).place = (s.tasks t).place ∨
    ((s'.tasks t).place.slot = none ∧ (s.tasks t).place.slot = none)
  own : ∀ t < s.taskTop, job.task_id = t → Runs job slot (s'.tasks t).place
  idle : job.task_id = -1 → ¬ job.Active
  compiled : job.state ≠ .compiling
  next : s.jit_next_id ≤ s'.jit_next_id
  id_lt : job.state ≠ .empty → job.id < s'.jit_next_id
  id : (job.id = (s.jit_jobs slot).id ∧ (s.jit_jobs slot).state ≠ .empty) ∨ job.id = s.jit_next_id
  released : job.state ≠ .running → (∀ i, job.fds i = -1) ∧ ∀ i, job.kptrs i = 0

theorem LifeInv.of_rejobs (h : s.LifeInv) {slot : Fin JIT_MAX_JOBS} {job : jit_job}
    (hs : Rejobs s s' slot job) : s'.LifeInv := by
  have hself : s'.jit_jobs slot = job := by
    rw [hs.jobs, Function.update_self]
  have hother : ∀ l, l ≠ slot → s'.jit_jobs l = s.jit_jobs l := by
    intro l hl
    rw [hs.jobs, Function.update_of_ne hl]
  have hid : ∀ l, l ≠ slot → (s.jit_jobs l).state ≠ .empty → job.id ≠ (s.jit_jobs l).id := by
    intro l hl hstate
    rcases hs.id with ⟨heq, hstate'⟩ | heq
    · rw [heq]
      exact h.id_ne slot l hl.symm hstate' hstate
    · have := h.id_lt l hstate
      omega
  refine ⟨?_, ?_, ?_, ?_, ?_, ?_⟩
  · intro k
    by_cases hk : k = slot
    · rw [hk, hself, hs.taskTop]
      rcases hs.task_id with hsame | ⟨_, t, ht, htask, _⟩
      · rcases h.job slot with ⟨hnone, _⟩ | ⟨t, ht, htask, _⟩
        · exact Or.inl ⟨hsame.trans hnone, hs.idle (hsame.trans hnone)⟩
        · have htask' := hsame.trans htask
          exact Or.inr ⟨t, ht, htask', hs.own t ht htask'⟩
      · exact Or.inr ⟨t, ht, htask, hs.own t ht htask⟩
    · rw [hother k hk]
      rcases h.job k with hnone | ⟨t, ht, htask, hruns⟩
      · exact Or.inl hnone
      · refine Or.inr ⟨t, by rw [hs.taskTop]; exact ht, htask, ?_⟩
        have hne : job.task_id ≠ t := by
          rcases hs.task_id with hsame | ⟨_, t', ht', htask', hnone⟩
          · rw [hsame]
            exact h.task_ne hk htask
          · intro heq
            have htt : t' = t := by omega
            rw [htt] at hnone
            exact h.task_of_none hnone k htask
        rcases hs.place t ht hne with heq | ⟨_, hnone⟩
        · rw [heq]
          exact hruns
        · rw [hruns.slot_eq] at hnone
          cases hnone
  · intro t ht k hk
    rw [hs.taskTop] at ht
    by_cases htask : job.task_id = t
    · rw [(hs.own t ht htask).slot_eq] at hk
      rw [← Option.some.inj hk, hself]
      exact htask
    · have hplace : (s.tasks t).place.slot = some k := by
        rcases hs.place t ht htask with heq | ⟨hnone, _⟩
        · rw [← heq]
          exact hk
        · rw [hnone] at hk
          cases hk
      have hks : k ≠ slot := by
        intro heq
        rw [heq] at hplace
        have hold := h.task t ht slot hplace
        rcases hs.task_id with hsame | ⟨hnone, _⟩
        · exact htask (hsame.trans hold)
        · omega
      rw [hother k hks]
      exact h.task t ht k hplace
  · intro k
    by_cases hk : k = slot
    · rw [hk, hself]
      exact hs.compiled
    · rw [hother k hk]
      exact h.compiled k
  · intro k hstate
    by_cases hk : k = slot
    · rw [hk, hself] at hstate ⊢
      exact hs.id_lt hstate
    · rw [hother k hk] at hstate ⊢
      have := h.id_lt k hstate
      have := hs.next
      omega
  · intro k l hkl hk hl
    by_cases hks : k = slot
    · have hls : l ≠ slot := fun heq => hkl (hks.trans heq.symm)
      rw [hother l hls] at hl ⊢
      rw [hks, hself]
      exact hid l hls hl
    · by_cases hls : l = slot
      · rw [hother k hks] at hk ⊢
        rw [hls, hself]
        exact (hid k hks hk).symm
      · rw [hother k hks] at hk ⊢
        rw [hother l hls] at hl ⊢
        exact h.id_ne k l hkl hk hl
  · intro k hstate
    by_cases hk : k = slot
    · rw [hk, hself] at hstate ⊢
      exact hs.released hstate
    · rw [hother k hk] at hstate ⊢
      exact h.released k hstate

theorem Stops.not_running {slot : Fin JIT_MAX_JOBS} {job : jit_job} (hs : Stops s s' slot job) :
    job.state ≠ .running := by
  rcases hs.state with hst | hst
  · rw [hst]
    decide
  · rw [hst]
    decide

theorem Stops.rejobs {slot : Fin JIT_MAX_JOBS} {job : jit_job} (hs : Stops s s' slot job)
    (h : s.LifeInv) (hslot : (s.jit_jobs slot).state ≠ .empty) : Rejobs s s' slot job := by
  have hidle : ¬ job.Active := by
    intro hactive
    rcases hs.state with hst | hst
    · rw [jit_job.Active, hst] at hactive
      exact absurd hactive (by decide)
    · rw [jit_job.Active, hst] at hactive
      exact absurd hactive (by decide)
  have hlt := h.id_lt slot hslot
  refine ⟨hs.jobs, Or.inl hs.task_id, hs.taskTop, fun t _ ht => Or.inl (hs.place t ht), ?_,
    fun _ => hidle, ?_, by rw [hs.jit_next_id], ?_, Or.inl ⟨hs.id, hslot⟩,
    fun _ => hs.released.2⟩
  · intro t ht htask
    rcases hs.own t ht htask with hp | hp | hp
    · rw [hp]
      refine Runs.entry ?_ ?_
      · intro hrun
        exact hidle (Or.inr hrun)
      · intro hready
        exact absurd (Or.inl hready) hidle
    · rw [hp]
      exact Runs.ended hidle
    · rw [hp]
      exact Runs.trampoline hidle
  · intro hcomp
    rcases hs.state with hst | hst
    · rw [hst] at hcomp
      cases hcomp
    · rw [hst] at hcomp
      cases hcomp
  · intro _
    rw [hs.id, hs.jit_next_id]
    exact hlt

theorem LifeInv.of_stops {slot : Fin JIT_MAX_JOBS} {job : jit_job} (h : s.LifeInv)
    (hs : Stops s s' slot job) (hslot : (s.jit_jobs slot).state ≠ .empty) : s'.LifeInv :=
  h.of_rejobs (hs.rejobs h hslot)

/-! ## Jobs that start -/

theorem freeSlot_state {slot : Fin JIT_MAX_JOBS} (h : s.freeSlot = some slot) :
    (s.jit_jobs slot).state ≠ .running ∧ (s.jit_jobs slot).state ≠ .ready := by
  unfold freeSlot at h
  rw [Fin.find?_eq_some_iff] at h
  rcases of_decide_eq_true h.1 with h | h | h
  · rw [h]
    decide
  · rw [h]
    decide
  · rw [h]
    decide

/-- The slot is taken for a job with a new number, whose task is at its entry and whose waiter,
if `me` is one, sleeps in `os_jit_run`. -/
structure Launches (s s' : JitSys) (slot : Fin JIT_MAX_JOBS) (job : jit_job) (me : Option Nat) :
    Prop where
  free : s.freeSlot = some slot
  jobs : s'.jit_jobs = Function.update s.jit_jobs slot job
  id : job.id = s.jit_next_id
  jit_next_id : s'.jit_next_id = s.jit_next_id + 1
  state : job.state = .ready
  code : job.main_func = some job.id ∧ job.tcc = some job.id
  released : (∀ i, job.fds i = -1) ∧ ∀ i, job.kptrs i = 0
  taskTop : s.taskTop ≤ s'.taskTop
  task : ∃ t < s'.taskTop, job.task_id = t ∧ (s'.tasks t).place = .entry slot ∧
    (((s.jit_jobs slot).task_id = t ∧ s'.taskTop = s.taskTop) ∨
      ((s.jit_jobs slot).task_id = -1 ∧ t = s.taskTop ∧ s'.taskTop = s.taskTop + 1)) ∧
    ∀ t', t' ≠ t → me ≠ some t' → s'.tasks t' = s.tasks t'
  waiter : ∀ t, me = some t → t < s.taskTop ∧ (s.tasks t).place = .outside ∧
    s'.tasks t = ⟨false, .waiting slot job.id, none⟩ ∧ job.waiter_task_id = t ∧ job.bg = false

theorem LifeInv.of_launches {slot : Fin JIT_MAX_JOBS} {job : jit_job} {me : Option Nat}
    (h : s.LifeInv) (hs : Launches s s' slot job me) : s'.LifeInv := by
  obtain ⟨t, ht, htask, hentry, hnew, hother⟩ := hs.task
  have hready : job.state ≠ .running ∧ job.state ≠ .compiling ∧ job.state ≠ .empty := by
    rw [hs.state]
    decide
  have hruns : Runs job slot (.entry slot) := Runs.entry hready.1 fun _ => hs.code
  have hplace : ∀ t' < s.taskTop, t' ≠ t → (s'.tasks t').place = (s.tasks t').place ∨
      ((s'.tasks t').place.slot = none ∧ (s.tasks t').place.slot = none) := by
    intro t' _ hne
    by_cases hme : me = some t'
    · obtain ⟨_, hout, hwait, _⟩ := hs.waiter t' hme
      rw [hwait, hout]
      exact Or.inr ⟨rfl, rfl⟩
    · rw [hother t' hne hme]
      exact Or.inl rfl
  have hown : ∀ t' : Nat, job.task_id = t' → Runs job slot (s'.tasks t').place := by
    intro t' ht'
    have heq : t' = t := by omega
    rw [heq, hentry]
    exact hruns
  have hidle : job.task_id = -1 → ¬ job.Active := by omega
  have hid : job.state ≠ .empty → job.id < s'.jit_next_id := by
    intro _
    rw [hs.id, hs.jit_next_id]
    exact Nat.lt_succ_self _
  have hnext : s.jit_next_id ≤ s'.jit_next_id := by
    rw [hs.jit_next_id]
    exact Nat.le_succ _
  rcases hnew with ⟨hold, htop⟩ | ⟨hold, htt, htop⟩
  · apply h.of_rejobs
    refine ⟨hs.jobs, Or.inl (htask.trans hold.symm), htop, ?_, fun t' _ => hown t', hidle,
      hready.2.1, hnext, hid, Or.inr hs.id, fun _ => hs.released⟩
    intro t' ht' hne
    exact hplace t' ht' (by rintro rfl; exact hne htask)
  · -- the new task first waits outside
    have hspawn : Retasks s { s with
        taskTop := s.taskTop + 1, tasks := Function.update s.tasks s.taskTop ⟨true, .outside, none⟩ } := by
      refine ⟨rfl, rfl, Nat.le_succ _, ?_⟩
      intro t' ht'
      by_cases heq : t' = s.taskTop
      · right
        simp only [heq, Function.update_self]
        exact ⟨rfl, fun hlt => absurd hlt (Nat.lt_irrefl _)⟩
      · left
        have hlt : t' < s.taskTop := by
          have : t' < s.taskTop + 1 := ht'
          omega
        simp only [Function.update_of_ne heq]
        exact ⟨hlt, Or.inl trivial⟩
    apply (h.of_retasks hspawn).of_rejobs
    refine ⟨hs.jobs, Or.inr ⟨hold, s.taskTop, Nat.lt_succ_self _, ?_, ?_⟩, htop, ?_,
      fun t' _ => hown t', hidle, hready.2.1, hnext, hid, Or.inr hs.id, fun _ => hs.released⟩
    · rw [← htt]
      exact htask
    · simp only [Function.update_self]
      rfl
    · intro t' ht' hne
      have hne' : t' ≠ s.taskTop := by
        rintro rfl
        exact hne (htt ▸ htask)
      have hlt : t' < s.taskTop := by
        have : t' < s.taskTop + 1 := ht'
        omega
      simp only [Function.update_of_ne hne']
      exact hplace t' hlt (by omega)

/-- The slot is taken for a job that does not compile. -/
structure Discards (s s' : JitSys) (slot : Fin JIT_MAX_JOBS) (job : jit_job) : Prop where
  free : s.freeSlot = some slot
  jobs : s'.jit_jobs = Function.update s.jit_jobs slot job
  id : job.id = s.jit_next_id
  jit_next_id : s'.jit_next_id = s.jit_next_id + 1
  state : job.state = .failed
  task_id : job.task_id = (s.jit_jobs slot).task_id
  released : (∀ i, job.fds i = -1) ∧ ∀ i, job.kptrs i = 0
  taskTop : s'.taskTop = s.taskTop
  tasks : s'.tasks = s.tasks

theorem LifeInv.of_discards {slot : Fin JIT_MAX_JOBS} {job : jit_job} (h : s.LifeInv)
    (hs : Discards s s' slot job) : s'.LifeInv := by
  have hidle : ¬ job.Active := by
    rw [jit_job.Active, hs.state]
    decide
  apply h.of_rejobs
  refine ⟨hs.jobs, Or.inl hs.task_id, hs.taskTop, ?_, ?_, fun _ => hidle, ?_, ?_, ?_,
    Or.inr hs.id, fun _ => hs.released⟩
  · intro t _ _
    rw [hs.tasks]
    exact Or.inl rfl
  · intro t ht htask
    have hold := h.runs (hs.task_id.symm.trans htask)
    rw [hs.tasks]
    generalize hp : (s.tasks t).place = p at hold ⊢
    cases hold with
    | entry => exact Runs.entry (fun hr => hidle (Or.inr hr)) fun hr => absurd (Or.inl hr) hidle
    | ended => exact Runs.ended hidle
    | main hrun => exact absurd hrun (freeSlot_state hs.free).1
    | trampoline => exact Runs.trampoline hidle
  · rw [hs.state]
    decide
  · rw [hs.jit_next_id]
    exact Nat.le_succ _
  · intro _
    rw [hs.id, hs.jit_next_id]
    exact Nat.lt_succ_self _

end JitSys

end vibeos.tcc_glue

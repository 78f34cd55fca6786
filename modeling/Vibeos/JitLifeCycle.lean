-- The life of the jobs over whole runs: when a job that is done stays done, and when a task that
-- waits for a job is woken.
import Vibeos.JitLifeEffects

namespace vibeos.tcc_glue

open vibeos.fs

section

variable [JitConfig]

namespace JitSys

variable {s s' : JitSys} {now t : Nat} {slot : Fin JIT_MAX_JOBS}

/-! ## Cancelling the jobs of a window -/

/-- Jobs that have not ended stop, one after the other. -/
inductive Cancels : JitSys → JitSys → Prop
  | done (s : JitSys) : Cancels s s
  | stops {s s₁ s' : JitSys} (slot : Fin JIT_MAX_JOBS) (job : jit_job) (h : Stops s s₁ slot job)
      (state : (s.jit_jobs slot).state ≠ .empty ∧ (s.jit_jobs slot).state ≠ .done)
      (rest : Cancels s₁ s') : Cancels s s'

theorem calls_of_mayCall {me : Int} (h : s.mayCall me = true) : s.Calls me := by
  intro t ht hme
  unfold mayCall at h
  have hout := (Bool.and_eq_true_iff.mp h).2
  rw [taskAt_eq_some.mpr ⟨hme, ht⟩] at hout
  dsimp only at hout
  split at hout
  · assumption
  · cases hout

theorem LifeInv.calls_of_stops {me : Int} {job : jit_job} (h : s.LifeInv) (hme : s.Calls me)
    (hs : Stops s s' slot job) : s'.Calls me := by
  intro t ht heq
  rw [hs.taskTop] at ht
  have hout := hme t ht heq
  rw [hs.place t]
  · exact hout
  · rw [hs.task_id]
    exact h.task_of_none (by rw [hout]; rfl) slot

section

variable [BuildConfig]

theorem cancelOwned_cancels {me owner_win_id : Int} {slots : List (Fin JIT_MAX_JOBS)}
    (h : s.LifeInv) (hme : s.Calls me) (hs : cancelOwned now me owner_win_id slots s = some s') :
    Cancels s s' := by
  induction slots generalizing s with
  | nil =>
    cases hs
    exact Cancels.done _
  | cons slot slots ih =>
    rw [cancelOwned] at hs
    split at hs
    · exact ih h hme hs
    · split at hs
      · exact ih h hme hs
      · rename_i hstate
        obtain ⟨s₁, hcancel, hrest⟩ := Option.bind_eq_some_iff.mp hs
        have hstops := cancel_stops hme hcancel
        have hlive : (s.jit_jobs slot).state ≠ .empty ∧ (s.jit_jobs slot).state ≠ .done := by
          constructor
          · intro heq
            rw [heq] at hstate
            exact hstate (by decide)
          · intro heq
            rw [heq] at hstate
            exact hstate (by decide)
        exact Cancels.stops slot _ hstops hlive
          (ih (h.of_stops hstops hlive.1) (h.calls_of_stops hme hstops) hrest)

end

/-! ## Steps -/

/-- The slot that a new job takes has no waiter of its last job, and a job that is killed or
cancelled by its task is not done. -/
def Fits (s : JitSys) : Event → Prop
  | .run _ _ _ => ∀ slot, s.freeSlot = some slot → s.NoWaiter slot
  | .runBg _ _ _ => ∀ slot, s.freeSlot = some slot → s.NoWaiter slot
  | .kill _ id => ∀ slot, s.killSlot id = some slot → (s.jit_jobs slot).state ≠ .done
  | .cancelTask _ task_id =>
    ∀ slot, s.cancelSlot task_id = some slot → (s.jit_jobs slot).state ≠ .done
  | _ => True

theorem killSlot_state {id : Nat} (h : s.killSlot id = some slot) :
    (s.jit_jobs slot).state ≠ .empty := by
  unfold killSlot at h
  rw [Fin.find?_eq_some_iff] at h
  exact (of_decide_eq_true h.1).1

theorem cancelSlot_state {task_id : Int} (h : s.cancelSlot task_id = some slot) :
    (s.jit_jobs slot).state ≠ .empty := by
  unfold cancelSlot at h
  rw [Fin.find?_eq_some_iff] at h
  exact (of_decide_eq_true h.1).1

theorem trapSlot_state {owner_win_id : Int} (h : s.trapSlot t owner_win_id = some slot) :
    (s.jit_jobs slot).state = .running := by
  unfold trapSlot at h
  rw [Fin.find?_eq_some_iff] at h
  exact (of_decide_eq_true h.1).1

section

variable [BuildConfig]

theorem LifeInv.step_change (h : s.LifeInv) {e : Event} (hs : s.step now e = some s') :
    Change s (s.Fits e) s' ∨ Cancels s s' := by
  unfold step at hs
  cases e with
  | run t owner_win_id compiles =>
    dsimp only at hs
    split at hs
    · rename_i hok
      have hout := calls_of_mayCall hok.2 t hok.1.1 rfl
      exact Or.inl (Change.of_starts (fun hfits => hfits) (h.run_starts hok.1.1 hout hs))
    · cases hs
  | runBg me owner_win_id compiles =>
    dsimp only at hs
    split at hs
    · exact Or.inl (Change.of_starts (fun hfits => hfits) (h.runBg_starts hs))
    · cases hs
  | resume t valid =>
    dsimp only at hs
    split at hs
    · split at hs
      · rename_i hok
        exact Or.inl (h.resume_change hok.1 hs)
      · cases hs
    · cases hs
  | yield t =>
    dsimp only at hs
    split at hs
    · rename_i hplace _
      split at hs
      · rename_i hok
        rw [h.jit_yield hok.1 hplace] at hs
        cases hs
        exact Or.inl (Change.works (Works.refl _))
      · cases hs
    · cases hs
  | call t c =>
    dsimp only at hs
    split at hs
    · rename_i hplace _
      split at hs
      · rename_i hok
        exact Or.inl (Change.works (h.call_works hok.1 hplace hs))
      · cases hs
    · cases hs
  | settle t =>
    dsimp only at hs
    split at hs
    · rename_i hplace _
      split at hs
      · rename_i hok
        exact Or.inl (Change.works (h.settle_works hok.1 hplace hs))
      · cases hs
    · cases hs
  | pause t =>
    dsimp only at hs
    split at hs
    · rename_i hplace _
      split at hs
      · cases hs
        refine Or.inl (Change.works (Works.setTask rfl ?_))
        intro _ _ hw
        rw [hplace] at hw
        cases hw
      · cases hs
    · cases hs
  | returns t rc =>
    dsimp only at hs
    split at hs
    · rename_i slot id hplace _
      split at hs
      · rename_i hok
        obtain ⟨job, hstops⟩ := h.mainReturns_stops hok.1 hplace hs
        obtain ⟨_, _, hrun, _⟩ := h.main hok.1 hplace
        refine Or.inl (Change.stops slot job hstops ?_ fun _ => ?_)
        · rw [hrun]
          decide
        · rw [hrun]
          decide
      · cases hs
    · cases hs
  | kill me id =>
    dsimp only at hs
    split at hs
    · cases hslot : s.killSlot id with
      | none =>
        unfold os_jit_kill at hs
        rw [hslot] at hs
        cases hs
        exact Or.inl (Change.works (Works.refl _))
      | some slot =>
        exact Or.inl (Change.stops slot _ (os_jit_kill_stops hslot hs)
          (killSlot_state hslot) fun hfits => hfits slot hslot)
    · cases hs
  | cancelTask me task_id =>
    dsimp only at hs
    split at hs
    · rename_i hok
      unfold os_jit_cancel_task at hs
      split at hs
      · cases hs
        exact Or.inl (Change.works (Works.refl _))
      · rename_i slot hslot
        exact Or.inl (Change.stops slot _ (cancel_stops (calls_of_mayCall hok) hs)
          (cancelSlot_state hslot) fun hfits => hfits slot hslot)
    · cases hs
  | cancelByOwner me owner_win_id =>
    dsimp only at hs
    split at hs
    · rename_i hok
      exact Or.inr (cancelOwned_cancels h (calls_of_mayCall hok) hs)
    · cases hs
  | trapCancel t owner_win_id =>
    dsimp only at hs
    split at hs
    · cases hslot : s.trapSlot t owner_win_id with
      | none =>
        unfold os_jit_cancel_running_owner_from_trap at hs
        rw [hslot] at hs
        cases hs
        exact Or.inl (Change.works (Works.refl _))
      | some slot =>
        refine Or.inl (Change.stops slot _ (trap_stops hslot hs) ?_ fun _ => ?_)
        · rw [trapSlot_state hslot]
          decide
        · rw [trapSlot_state hslot]
          decide
    · cases hs
  | wake task_id =>
    cases hs
    exact Or.inl (Change.works (Works.wake s task_id))
  | spawn =>
    dsimp only at hs
    split at hs
    · cases hs
    · cases hs
      exact Or.inl (Change.leaves s.taskTop _ ⟨rfl, rfl, rfl, Or.inr ⟨rfl, rfl, rfl⟩⟩)
  | elsewhere fs =>
    dsimp only at hs
    split at hs
    · cases hs
      exact Or.inl (Change.works (Works.of_untouched ⟨rfl, rfl, rfl, rfl⟩))
    · cases hs

end

/-! ## Waiters -/

/-- A task that waits for a job is the waiter of this job, and sleeps only while it is active. -/
def Waits (s : JitSys) : Prop :=
  ∀ t < s.taskTop, ∀ slot id, (s.tasks t).place = .waiting slot id →
    (s.jit_jobs slot).id = id ∧ (s.jit_jobs slot).state ≠ .empty ∧
      (s.jit_jobs slot).waiter_task_id = t ∧ (s.jit_jobs slot).bg = false ∧
      ((s.tasks t).runnable = false → (s.jit_jobs slot).Active)

theorem Waits.of_works (h : s.Waits) (hs : Works s s') : s'.Waits := by
  intro t ht slot id hplace
  rw [hs.taskTop] at ht
  rw [hs.place] at hplace
  obtain ⟨hid, hstate, hwaiter, hbg, hasleep⟩ := h t ht slot id hplace
  obtain ⟨hid', hstate', _, hwaiter', hbg', _⟩ := SameLife.of_bare (hs.jobs slot)
  rw [jit_job.Active, hid', hstate', hwaiter', hbg']
  refine ⟨hid, hstate, hwaiter, hbg, ?_⟩
  intro hrun
  rcases hs.asleep t slot id hplace hrun with hold | hactive
  · exact hasleep hold
  · exact hactive

theorem Waits.of_leaves {task : Task} (h : s.Waits) (hs : Leaves s s' t task) : s'.Waits := by
  intro t' ht' slot id hplace
  rw [hs.tasks] at hplace ⊢
  rw [hs.jobs]
  by_cases heq : t' = t
  · rw [heq, Function.update_self] at hplace
    rcases hs.moves with ⟨_, _, ⟨_, _, _, hout⟩ | ⟨_, _, hentry⟩⟩ | ⟨_, _, hout⟩
    · rw [hout] at hplace
      cases hplace
    · rw [hentry] at hplace
      cases hplace
    · rw [hout] at hplace
      cases hplace
  · rw [Function.update_of_ne heq] at hplace ⊢
    have hlt : t' < s.taskTop := by
      rcases hs.moves with ⟨htop, _⟩ | ⟨htop, hnew, _⟩
      · omega
      · omega
    exact h t' hlt slot id hplace

theorem Waits.of_begins (h : s.Waits) (hs : Begins s s' slot t) : s'.Waits := by
  intro t' ht' slot' id hplace
  rw [hs.taskTop] at ht'
  rw [hs.tasks] at hplace ⊢
  by_cases heq : t' = t
  · rw [heq, Function.update_self] at hplace
    cases hplace
  · rw [Function.update_of_ne heq] at hplace ⊢
    obtain ⟨hid, hstate, hwaiter, hbg, hasleep⟩ := h t' ht' slot' id hplace
    rw [hs.jobs]
    by_cases hslot : slot' = slot
    · rw [hslot] at hid hwaiter hbg ⊢
      rw [Function.update_self]
      exact ⟨hid, by simp, hwaiter, hbg, fun _ => Or.inr rfl⟩
    · rw [Function.update_of_ne hslot]
      exact ⟨hid, hstate, hwaiter, hbg, hasleep⟩

theorem Waits.of_stops {job : jit_job} (h : s.Waits) (hs : Stops s s' slot job) : s'.Waits := by
  intro t ht slot' id hplace
  rw [hs.taskTop] at ht
  have hne : job.task_id ≠ t := by
    intro heq
    rcases hs.own t ht heq with hown | hown | hown
    · rw [hown] at hplace
      cases hplace
    · rw [hown] at hplace
      cases hplace
    · rw [hown] at hplace
      cases hplace
  rw [hs.place t hne] at hplace
  obtain ⟨hid, hstate, hwaiter, hbg, hasleep⟩ := h t ht slot' id hplace
  rw [hs.jobs]
  by_cases hslot : slot' = slot
  · rw [hslot] at hid hwaiter hbg ⊢
    rw [Function.update_self]
    refine ⟨hs.id.trans hid, ?_, hs.waiter.trans hwaiter, hs.bg.trans hbg, ?_⟩
    · rcases hs.state with hdone | hfailed
      · rw [hdone]
        decide
      · rw [hfailed]
        decide
    · intro hrun
      have hout : (s.tasks t).place ≠ .outside := by
        rw [hplace]
        simp
      rw [hs.woken t ht (hs.bg.trans hbg) (hs.waiter.trans hwaiter) hne hout] at hrun
      cases hrun
  · rw [Function.update_of_ne hslot]
    refine ⟨hid, hstate, hwaiter, hbg, ?_⟩
    intro hrun
    apply hasleep
    by_contra hold
    rw [Bool.not_eq_false] at hold
    rw [hs.runnable t hne hold] at hrun
    cases hrun

theorem Waits.of_launches {job : jit_job} {me : Option Nat} (h : s.Waits)
    (hs : Launches s s' slot job me) (hquiet : s.NoWaiter slot) : s'.Waits := by
  obtain ⟨t', _, _, hentry, hnew, hother⟩ := hs.task
  intro t ht slot' id hplace
  by_cases hme : me = some t
  · obtain ⟨_, _, hwait, hwaiter, hbg⟩ := hs.waiter t hme
    rw [hwait] at hplace
    cases hplace
    rw [hs.jobs, Function.update_self]
    refine ⟨rfl, ?_, hwaiter, hbg, fun _ => Or.inl hs.state⟩
    rw [hs.state]
    decide
  · by_cases htt : t = t'
    · rw [htt, hentry] at hplace
      cases hplace
    · have hlt : t < s.taskTop := by
        rcases hnew with ⟨_, htop⟩ | ⟨_, _, htop⟩
        · omega
        · omega
      rw [hother t htt hme] at hplace ⊢
      have hslot : slot' ≠ slot := by
        rintro rfl
        exact hquiet t hlt id hplace
      rw [hs.jobs, Function.update_of_ne hslot]
      exact h t hlt slot' id hplace

theorem Waits.of_discards {job : jit_job} (h : s.Waits) (hs : Discards s s' slot job)
    (hquiet : s.NoWaiter slot) : s'.Waits := by
  intro t ht slot' id hplace
  rw [hs.taskTop] at ht
  rw [hs.tasks] at hplace ⊢
  have hslot : slot' ≠ slot := by
    rintro rfl
    exact hquiet t ht id hplace
  rw [hs.jobs, Function.update_of_ne hslot]
  exact h t ht slot' id hplace

theorem Waits.of_change {fits : Prop} (h : s.Waits) (hs : Change s fits s') (hfits : fits) :
    s'.Waits := by
  cases hs with
  | works hs => exact h.of_works hs
  | leaves _ _ hs => exact h.of_leaves hs
  | begins _ _ hs => exact h.of_begins hs
  | stops _ _ hs => exact h.of_stops hs
  | launches _ _ _ hs quiet => exact h.of_launches hs (quiet hfits)
  | discards _ _ hs quiet => exact h.of_discards hs (quiet hfits)

theorem LifeInv.of_cancels (h : s.LifeInv) (hs : Cancels s s') : s'.LifeInv := by
  induction hs with
  | done => exact h
  | stops _ _ hs state _ ih => exact ih (h.of_stops hs state.1)

theorem Waits.of_cancels (h : s.Waits) (hs : Cancels s s') : s'.Waits := by
  induction hs with
  | done => exact h
  | stops _ _ hs _ _ ih => exact ih (h.of_stops hs)

/-! ## Jobs that are done -/

/-- A job that is done keeps its state and its exit code or its slot is taken for a new job, and no
slot is taken while a task is in the code of its job. -/
structure Keeps (s s' : JitSys) : Prop where
  done : ∀ k, (s.jit_jobs k).state = .done →
    ((s'.jit_jobs k).id = (s.jit_jobs k).id ∧ (s'.jit_jobs k).state = .done ∧
      (s'.jit_jobs k).exit_code = (s.jit_jobs k).exit_code) ∨ (s'.jit_jobs k).id = s.jit_next_id
  code : ∀ t < s.taskTop, ∀ k id, (s.tasks t).place = .main k id → (s'.jit_jobs k).id = id

theorem LifeInv.keeps {job : jit_job} (h : s.LifeInv)
    (hjobs : s'.jit_jobs = Function.update s.jit_jobs slot job)
    (hend : ((s.jit_jobs slot).state ≠ .done ∧ job.id = (s.jit_jobs slot).id) ∨
      ((s.jit_jobs slot).state ≠ .running ∧ job.id = s.jit_next_id)) : Keeps s s' := by
  constructor
  · intro k hk
    rw [hjobs]
    by_cases heq : k = slot
    · rw [heq, Function.update_self]
      rcases hend with ⟨hne, _⟩ | ⟨_, hid⟩
      · rw [heq] at hk
        exact absurd hk hne
      · exact Or.inr hid
    · rw [Function.update_of_ne heq]
      exact Or.inl ⟨rfl, hk, rfl⟩
  · intro t ht k id hplace
    obtain ⟨_, hid, hrun, _⟩ := h.main ht hplace
    rw [hjobs]
    by_cases heq : k = slot
    · rw [heq, Function.update_self]
      rw [heq] at hrun hid
      rcases hend with ⟨_, hsame⟩ | ⟨hne, _⟩
      · exact hsame.trans hid
      · exact absurd hrun hne
    · rw [Function.update_of_ne heq]
      exact hid

theorem LifeInv.keeps_of_change {fits : Prop} (h : s.LifeInv) (hs : Change s fits s')
    (hfits : fits) : Keeps s s' := by
  cases hs with
  | works hs =>
    constructor
    · intro k hk
      obtain ⟨hid, hstate, _, _, _, _, hexit, _⟩ := SameLife.of_bare (hs.jobs k)
      exact Or.inl ⟨hid, hstate.trans hk, hexit⟩
    · intro t ht k id hplace
      exact (SameLife.of_bare (hs.jobs k)).id.trans (h.main ht hplace).2.1
  | leaves _ _ hs =>
    constructor
    · intro k hk
      rw [hs.jobs]
      exact Or.inl ⟨rfl, hk, rfl⟩
    · intro t ht k id hplace
      rw [hs.jobs]
      exact (h.main ht hplace).2.1
  | begins slot _ hs =>
    apply h.keeps hs.jobs
    left
    rw [hs.ready]
    exact ⟨by decide, rfl⟩
  | stops slot job hs _ unended => exact h.keeps hs.jobs (Or.inl ⟨unended hfits, hs.id⟩)
  | launches slot job _ hs =>
    exact h.keeps hs.jobs (Or.inr ⟨(freeSlot_state hs.free).1, hs.id⟩)
  | discards slot job hs =>
    exact h.keeps hs.jobs (Or.inr ⟨(freeSlot_state hs.free).1, hs.id⟩)

theorem Cancels.same (hs : Cancels s s') (k : Fin JIT_MAX_JOBS) :
    (s'.jit_jobs k).id = (s.jit_jobs k).id ∧
      ((s.jit_jobs k).state = .done → s'.jit_jobs k = s.jit_jobs k) := by
  induction hs with
  | done => exact ⟨rfl, fun _ => rfl⟩
  | stops slot job hs state _ ih =>
    by_cases heq : k = slot
    · rw [hs.jobs, heq, Function.update_self] at ih
      rw [heq]
      exact ⟨ih.1.trans hs.id, fun hdone => absurd hdone state.2⟩
    · rw [hs.jobs, Function.update_of_ne heq] at ih
      exact ih

theorem LifeInv.keeps_of_cancels (h : s.LifeInv) (hs : Cancels s s') : Keeps s s' := by
  constructor
  · intro k hk
    rw [(hs.same k).2 hk]
    exact Or.inl ⟨rfl, hk, rfl⟩
  · intro t ht k id hplace
    exact (hs.same k).1.trans (h.main ht hplace).2.1

/-! ## Runs -/

/-- What holds of the jobs between two steps: a task in the code of a job has its job and its code
in the slot, jobs that are active have tasks of their own, and a task is asleep in `os_jit_run`
only while its job is active. -/
structure LifeCycle (s : JitSys) : Prop where
  code : ∀ t < s.taskTop, ∀ k id, (s.tasks t).place = .main k id →
    (s.jit_jobs k).id = id ∧ (s.jit_jobs k).state = .running ∧ (s.jit_jobs k).tcc = some id
  tasks : ∀ k l, k ≠ l → (s.jit_jobs k).Active → (s.jit_jobs l).Active →
    (s.jit_jobs k).task_id ≠ (s.jit_jobs l).task_id
  waiters : ∀ t < s.taskTop, ∀ k id, (s.tasks t).place = .waiting k id →
    (s.tasks t).runnable = false → (s.jit_jobs k).id = id ∧ (s.jit_jobs k).Active

theorem LifeInv.lifeCycle (h : s.LifeInv) (hw : s.Waits) : s.LifeCycle := by
  refine ⟨?_, ?_, ?_⟩
  · intro t ht k id hplace
    obtain ⟨_, hid, hrun, _, hcode⟩ := h.main ht hplace
    exact ⟨hid, hrun, hcode⟩
  · intro k l hkl hk _ heq
    rcases h.job k with ⟨_, hidle⟩ | ⟨t, _, htask, _⟩
    · exact hidle hk
    · exact h.task_ne hkl htask (heq.symm.trans htask)
  · intro t ht k id hplace hrun
    obtain ⟨hid, _, _, _, hasleep⟩ := hw t ht k id hplace
    exact ⟨hid, hasleep hrun⟩

section

variable [BuildConfig]

inductive FittingRun : JitSys → Prop
  | start {s : JitSys} (h : s.Started) : FittingRun s
  | step {s s' : JitSys} (h : FittingRun s) (now : Nat) (e : Event) (fits : s.Fits e)
      (hs : s.step now e = some s') : FittingRun s'

theorem LifeInv.of_step (h : s.LifeInv) {e : Event} (hs : s.step now e = some s') :
    s'.LifeInv := by
  rcases h.step_change hs with hchange | hcancels
  · exact h.of_change hchange
  · exact h.of_cancels hcancels

theorem FittingRun.inv (h : FittingRun s) : s.LifeInv ∧ s.Waits := by
  induction h with
  | start h =>
    refine ⟨h.lifeInv, ?_⟩
    intro t ht slot id hplace
    rw [h.outside t ht] at hplace
    cases hplace
  | step _ now e fits hs ih =>
    refine ⟨ih.1.of_step hs, ?_⟩
    rcases ih.1.step_change hs with hchange | hcancels
    · exact ih.2.of_change hchange fits
    · exact ih.2.of_cancels hcancels

/-- In every run in which no job that is done is killed or cancelled and no slot is taken from
under its waiter, the jobs live as they should. -/
theorem fitting_run_life_cycle (h : FittingRun s) :
    s.LifeCycle ∧ ∀ now e s', s.Fits e → s.step now e = some s' → Keeps s s' := by
  obtain ⟨hinv, hwaits⟩ := h.inv
  refine ⟨hinv.lifeCycle hwaits, ?_⟩
  intro now e s' fits hs
  rcases hinv.step_change hs with hchange | hcancels
  · exact hinv.keeps_of_change hchange fits
  · exact hinv.keeps_of_cancels hcancels

def steps (s : JitSys) (es : List Event) : Option JitSys := es.foldlM (fun s e => s.step 0 e) s

theorem steps_keep {P : JitSys → Prop} {es : List Event}
    (hkeep : ∀ e ∈ es, ∀ {s s'}, P s → s.step 0 e = some s' → P s') (h : P s)
    (hs : s.steps es = some s') : P s' := by
  unfold steps at hs
  induction es generalizing s with
  | nil =>
    cases hs
    exact h
  | cons e es ih =>
    rw [List.foldlM_cons] at hs
    obtain ⟨s₁, hstep, hrest⟩ := Option.bind_eq_some_iff.mp hs
    exact ih (fun e he => hkeep e (List.mem_cons_of_mem _ he))
      (hkeep e List.mem_cons_self h hstep) hrest

theorem FittingRun.steps {es : List Event} (h : FittingRun s) (fits : ∀ e ∈ es, ∀ s, Fits s e)
    (hs : s.steps es = some s') : FittingRun s' :=
  steps_keep (fun e he {_ _} hrun hstep => .step hrun 0 e (fits e he _) hstep) h hs

end

end JitSys

end

/-! ## Runs of two tasks -/

@[reducible] def qemuJit : JitConfig := ⟨false⟩

section

attribute [local instance] fpgaBuild qemuJit

/-- No job has run, and two tasks are in the rest of the system. -/
def freshJobs : JitSys where
  jit_jobs := fun _ =>
    ⟨0, .empty, false, 0, -1, -1, false, 0, none, none, fun _ => 0, fun _ => -1⟩
  jit_next_id := 1
  tasks := fun _ => ⟨true, .outside, none⟩
  taskTop := 2
  fs := freshFs
  files := fun _ => 0
  opener := fun _ => none
  holder := fun _ => none
  log := []

theorem freshJobs_started : freshJobs.Started :=
  ⟨fun _ => rfl, fun _ => rfl, fun _ _ => rfl, fun _ _ => rfl, fun _ _ => rfl, fun _ => rfl,
    fun _ => rfl, rfl⟩

/-- The task 0 runs a job in the task 2, whose code returns 7. -/
def runEvents : List Event := [.run 0 0 true, .resume 2 true, .returns 2 7]

def firstJob : Fin JIT_MAX_JOBS := ⟨0, by decide⟩

/-- The number, the state and the exit code of the first job. -/
def firstOf (s : JitSys) : Nat × JobState × Int :=
  ((s.jit_jobs firstJob).id, (s.jit_jobs firstJob).state, (s.jit_jobs firstJob).exit_code)

/-- The job for which the task 0 sleeps in `os_jit_run`. -/
def sleepsFor (s : JitSys) : Option Nat :=
  match (s.tasks 0).place with
  | .waiting _ id => if (s.tasks 0).runnable then none else some id
  | _ => none

theorem life_cycle_of_a_job : ∃ s, freshJobs.steps runEvents = some s ∧ s.LifeCycle ∧
    ∀ now e s', s.Fits e → s.step now e = some s' → s.Keeps s' := by
  obtain ⟨s₁, hrun⟩ : ∃ s₁, freshJobs.step 0 (.run 0 0 true) = some s₁ :=
    Option.isSome_iff_exists.mp (by decide)
  obtain ⟨s, hs⟩ : ∃ s, freshJobs.steps runEvents = some s :=
    Option.isSome_iff_exists.mp (by decide)
  have hfits : freshJobs.Fits (.run 0 0 true) := by
    intro slot _ t _ id
    simp [freshJobs]
  have hrest : s₁.steps [.resume 2 true, .returns 2 7] = some s := by
    rw [JitSys.steps, runEvents, List.foldlM_cons, hrun] at hs
    exact hs
  have hfirst := JitSys.FittingRun.step (JitSys.FittingRun.start freshJobs_started) 0 _ hfits hrun
  refine ⟨s, hs, JitSys.fitting_run_life_cycle (hfirst.steps ?_ hrest)⟩
  intro e he s
  rcases List.mem_cons.mp he with rfl | he
  · trivial
  · rw [List.mem_singleton.mp he]
    trivial

/-- A job that is done is killed and fails; and a task sleeps for a job that has ended, when its
slot was taken before the task went on. -/
theorem done_job_fails_and_waiter_sleeps_on : freshJobs.Started ∧
    (freshJobs.steps runEvents).map firstOf = some (1, .done, 7) ∧
    (freshJobs.steps (runEvents ++ [.kill (-1) 1])).map firstOf = some (1, .failed, -1) ∧
    (freshJobs.steps (runEvents ++ [.runBg (-1) 0 true, .resume 0 true, .resume 2 true,
      .returns 2 0])).map (fun s => (sleepsFor s, firstOf s)) = some (some 1, 2, .done, 0) := by
  refine ⟨freshJobs_started, ?_, ?_, ?_⟩
  · decide
  · decide
  · decide

end

end vibeos.tcc_glue

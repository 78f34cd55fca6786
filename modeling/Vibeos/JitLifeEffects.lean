-- Every step is one of the changes, or stops jobs that have not ended.
import Vibeos.JitLifeSteps

namespace vibeos.tcc_glue

open vibeos.fs

variable [JitConfig]

namespace JitSys

variable {s s' : JitSys} {now t : Nat} {slot : Fin JIT_MAX_JOBS} {fits : Prop}

/-! ## The code of a job -/

theorem LifeInv.jit_current_job (h : s.LifeInv) {id : Nat} (ht : t < s.taskTop)
    (hplace : (s.tasks t).place = .main slot id) : s.jit_current_job t = some slot := by
  obtain ⟨htask, _, hrun, _⟩ := h.main ht hplace
  unfold JitSys.jit_current_job
  rw [Fin.find?_eq_some_iff]
  constructor
  · apply decide_eq_true
    refine ⟨?_, htask⟩
    rw [hrun]
    decide
  · intro l hl
    apply decide_eq_false
    rintro ⟨_, hl'⟩
    exact h.task_ne (ne_of_lt hl) hl' htask

theorem LifeInv.liveJob (h : s.LifeInv) {id : Nat} (ht : t < s.taskTop)
    (hplace : (s.tasks t).place = .main slot id) : s.liveJob t = some slot := by
  obtain ⟨_, _, _, hwanted, _⟩ := h.main ht hplace
  unfold JitSys.liveJob
  rw [h.jit_current_job ht hplace]
  simp [Option.filter, hwanted]

theorem LifeInv.jit_yield (h : s.LifeInv) {id : Nat} (ht : t < s.taskTop)
    (hplace : (s.tasks t).place = .main slot id) : s.jit_yield t = s := by
  obtain ⟨_, _, _, hwanted, _⟩ := h.main ht hplace
  unfold JitSys.jit_yield
  rw [h.jit_current_job ht hplace]
  dsimp only
  rw [hwanted]
  rfl

theorem Works.setJob {job : jit_job} (hrun : (s.jit_jobs slot).state = .running)
    (hbare : bare job = bare (s.jit_jobs slot)) : Works s (s.setJob slot job) := by
  refine ⟨?_, ?_, rfl, rfl, fun _ => rfl, fun _ _ _ _ hsleep => Or.inl hsleep⟩
  · intro k
    by_cases hk : k = slot
    · rw [hk, setJob_jobs, Function.update_self, hbare]
    · rw [setJob_jobs, Function.update_of_ne hk]
  · intro k hk
    have hne : k ≠ slot := by
      rintro rfl
      exact hk hrun
    rw [setJob_jobs, Function.update_of_ne hne]

theorem Works.setMain {id : Nat} {p : Option Pending}
    (hplace : (s.tasks t).place = .main slot id) :
    Works s (s.setTask t ⟨true, .main slot id, p⟩) := by
  apply Works.setTask hplace.symm
  intro _ _ hw
  rw [hplace] at hw
  cases hw

omit [JitConfig] in
theorem jit_track_fd_bare {job job' : jit_job} {fd : Int} (h : jit_track_fd job fd = some job') :
    bare job' = bare job := by
  unfold jit_track_fd at h
  split at h
  · cases h
  · obtain ⟨i, _, rfl⟩ := Option.map_eq_some_iff.mp h
    rfl

omit [JitConfig] in
theorem jit_untrack_fd_bare {job job' : jit_job} {fd : Int}
    (h : jit_untrack_fd job fd = some job') : bare job' = bare job := by
  unfold jit_untrack_fd at h
  split at h
  · cases h
  · obtain ⟨i, _, rfl⟩ := Option.map_eq_some_iff.mp h
    rfl

omit [JitConfig] in
theorem jit_track_kptr_bare {job job' : jit_job} {p : Nat}
    (h : jit_track_kptr job p = some job') : bare job' = bare job := by
  unfold jit_track_kptr at h
  split at h
  · cases h
  · obtain ⟨i, _, rfl⟩ := Option.map_eq_some_iff.mp h
    rfl

omit [JitConfig] in
theorem jit_untrack_kptr_bare {job job' : jit_job} {p : Nat}
    (h : jit_untrack_kptr job p = some job') : bare job' = bare job := by
  unfold jit_untrack_kptr at h
  split at h
  · cases h
  · obtain ⟨i, _, rfl⟩ := Option.map_eq_some_iff.mp h
    rfl

theorem hold_untouched {id p : Nat} {noted : Bool} (h : s.hold id p noted = some s') : Untouched s s' := by
  unfold hold at h
  split at h
  · cases h
    exact ⟨rfl, rfl, rfl, rfl⟩
  · cases h

theorem withFs_untouched (s : JitSys) (who : Opener) (fs : AppFs) :
    Untouched s (s.withFs who fs) := ⟨rfl, rfl, rfl, rfl⟩

theorem touch_untouched (s : JitSys) (id : Nat) (fd : Int) : Untouched s (s.touch id fd) :=
  ⟨rfl, rfl, rfl, rfl⟩

section

variable [BuildConfig]

theorem closed_untouched {id : Nat} {fd : Int}
    (h : (s.close id fd now).map Prod.snd = some s') : Untouched s s' := by
  obtain ⟨r, hr, rfl⟩ := Option.map_eq_some_iff.mp h
  exact close_untouched hr

theorem fopen_untouched {id : Nat} {heap : Heap} {path : CString} {mode : List UInt8}
    {block : Option Nat} (h : s.fopen now id heap path mode block = some s') :
    Untouched s s' := by
  unfold fopen at h
  split at h
  · cases h
    exact Untouched.refl s
  · split at h
    · rename_i fd fs _
      have hopen := withFs_untouched s (.job id false) fs
      dsimp only at h
      split at h
      · cases h
        exact hopen
      · generalize (if mode.head? = some 'a'.toUInt8 then
          appfs_seek heap (s.withFs (.job id false) fs).fs fd 0 2
          else .returns 0 (s.withFs (.job id false) fs).fs) = seek at h
        cases seek with
        | returns rc fs' =>
          have hseek := hopen.trans (withFs_untouched (s.withFs (.job id false) fs) (.job id false) fs')
          dsimp only at h
          split at h
          · exact hseek.trans (closed_untouched h)
          · split at h
            · exact hseek.trans (closed_untouched h)
            · rename_i p
              obtain ⟨s₁, hhold, rfl⟩ := Option.map_eq_some_iff.mp h
              have hfile : Untouched s₁ { s₁ with files := Function.update s₁.files p fd } :=
                ⟨rfl, rfl, rfl, rfl⟩
              exact (hseek.trans (hold_untouched hhold)).trans hfile
        | _ => cases h
    · cases h

theorem LifeInv.call_works (h : s.LifeInv) {id : Nat} (ht : t < s.taskTop)
    (hplace : (s.tasks t).place = .main slot id) {c : JitCall}
    (hs : s.call now t slot id c = some s') : Works s s' := by
  have hcurrent := h.jit_current_job ht hplace
  have hlive := h.liveJob ht hplace
  obtain ⟨_, _, hrun, _⟩ := h.main ht hplace
  cases c with
  | appfs_open heap path flags =>
    rw [call.eq_def] at hs
    dsimp only at hs
    generalize appfs_open heap s.fs path flags = r at hs
    rw [hlive] at hs
    cases r with
    | returns fd fs =>
      have hopen := Works.of_untouched (withFs_untouched s (.job id true) fs)
      have hs' := Option.some.inj hs
      rw [← hs']
      split
      · exact hopen
      · exact hopen.trans (Works.setMain hplace)
    | diverges => cases hs
    | overruns => cases hs
  | appfs_close fd =>
    rw [call.eq_def, hcurrent] at hs
    dsimp only at hs
    have hbare : bare ((jit_untrack_fd (s.jit_jobs slot) fd).getD (s.jit_jobs slot)) =
        bare (s.jit_jobs slot) := by
      cases hfd : jit_untrack_fd (s.jit_jobs slot) fd with
      | none => rfl
      | some job => exact jit_untrack_fd_bare hfd
    have hs' := Option.some.inj hs
    rw [← hs']
    exact (Works.setJob hrun hbare).trans (Works.setMain hplace)
  | appfs_read fd size =>
    rw [call.eq_def] at hs
    dsimp only at hs
    generalize appfs_read s.fs fd size = r at hs
    rw [hlive] at hs
    cases r with
    | returns rc a =>
      have hs' := Option.some.inj hs
      rw [← hs']
      exact Works.of_untouched ((touch_untouched s id fd).trans (withFs_untouched _ _ _))
    | diverges => cases hs
    | overruns => cases hs
  | appfs_write heap fd data =>
    rw [call.eq_def] at hs
    dsimp only at hs
    generalize appfs_write heap s.fs fd data = r at hs
    rw [hlive] at hs
    cases r with
    | returns rc fs =>
      have hs' := Option.some.inj hs
      rw [← hs']
      exact Works.of_untouched ((touch_untouched s id fd).trans (withFs_untouched _ _ _))
    | diverges => cases hs
    | overruns => cases hs
  | kmalloc block =>
    rw [call.eq_def] at hs
    dsimp only at hs
    split at hs
    · cases hs
      exact Works.refl s
    · cases hs
      exact Works.refl s
    · obtain ⟨s₁, hhold, rfl⟩ := Option.map_eq_some_iff.mp hs
      have hheld := hold_untouched hhold
      refine (Works.of_untouched hheld).trans (Works.setMain ?_)
      rw [hheld.tasks, hplace]
  | kfree p =>
    rw [call.eq_def, hcurrent] at hs
    dsimp only at hs
    split at hs
    · cases hs
      exact Works.refl s
    · rename_i job hjob
      cases hs
      exact (Works.setJob hrun (jit_untrack_kptr_bare hjob)).trans (Works.setMain hplace)
  | «open» heap path flags =>
    rw [call.eq_def] at hs
    dsimp only at hs
    generalize appfs_open heap s.fs path flags = r at hs
    cases r with
    | returns fd fs =>
      have hs' := Option.some.inj hs
      rw [← hs']
      exact Works.of_untouched (withFs_untouched _ _ _)
    | diverges => cases hs
    | overruns => cases hs
  | close fd =>
    exact Works.of_untouched (closed_untouched hs)
  | fopen heap path mode block =>
    exact Works.of_untouched (fopen_untouched hs)
  | fclose p =>
    rw [call.eq_def] at hs
    dsimp only at hs
    split at hs
    · cases hs
      exact Works.refl s
    · obtain ⟨r, hr, rfl⟩ := Option.map_eq_some_iff.mp hs
      exact Works.of_untouched ((close_untouched hr).trans (free_untouched _ _ _))

theorem LifeInv.settle_works (h : s.LifeInv) {id : Nat} (ht : t < s.taskTop)
    (hplace : (s.tasks t).place = .main slot id) {p : Pending}
    (hs : s.settle now t slot id p = some s') : Works s s' := by
  obtain ⟨_, _, hrun, _⟩ := h.main ht hplace
  have hclose : ∀ fd, (s.close id fd now).map
      (fun r => r.2.setTask t ⟨true, .main slot id, none⟩) = some s' → Works s s' := by
    intro fd hs
    obtain ⟨r, hr, rfl⟩ := Option.map_eq_some_iff.mp hs
    have hclosed := close_untouched hr
    refine (Works.of_untouched hclosed).trans (Works.setMain ?_)
    rw [hclosed.tasks, hplace]
  have hfree : ∀ p, Works s ((s.free id p).setTask t ⟨true, .main slot id, none⟩) := by
    intro p
    have hfreed := free_untouched s id p
    refine (Works.of_untouched hfreed).trans (Works.setMain ?_)
    rw [hfreed.tasks, hplace]
  cases p with
  | opened fd =>
    rw [settle, h.jit_current_job ht hplace, Option.bind_some] at hs
    cases hfd : jit_track_fd (s.jit_jobs slot) fd with
    | none =>
      rw [hfd] at hs
      exact hclose fd hs
    | some job =>
      rw [hfd] at hs
      cases hs
      exact (Works.setJob hrun (jit_track_fd_bare hfd)).trans (Works.setMain hplace)
  | closing fd => exact hclose fd hs
  | allocated p =>
    rw [settle, h.jit_current_job ht hplace, Option.bind_some] at hs
    cases hp : jit_track_kptr (s.jit_jobs slot) p with
    | none =>
      rw [hp] at hs
      cases hs
      exact hfree p
    | some job =>
      rw [hp] at hs
      cases hs
      exact (Works.setJob hrun (jit_track_kptr_bare hp)).trans (Works.setMain hplace)
  | freeing p =>
    cases hs
    exact hfree p

/-! ## Tasks that go on -/

theorem LifeInv.mainReturns_stops (h : s.LifeInv) {id : Nat} {rc : Int} (ht : t < s.taskTop)
    (hplace : (s.tasks t).place = .main slot id) (hs : s.mainReturns now t slot rc = some s') :
    ∃ job, Stops s s' slot job := by
  obtain ⟨htask, _⟩ := h.main ht hplace
  unfold mainReturns at hs
  dsimp only at hs
  split at hs
  · exact ⟨_, finish_stops hs rfl rfl rfl rfl (Or.inr rfl) htask⟩
  · exact ⟨_, finish_stops hs rfl rfl rfl rfl (Or.inl rfl) htask⟩

theorem LifeInv.entry_change (h : s.LifeInv) {valid : Bool} (ht : t < s.taskTop)
    (hplace : (s.tasks t).place = .entry slot)
    (hs : s.jit_task_entry_idx now t slot valid = some s') : Change s fits s' := by
  have htask := h.task t ht slot (by rw [hplace]; rfl)
  have hsleeps : Works s (s.setTask t ⟨false, .entry slot, none⟩) := by
    apply Works.setTask hplace.symm
    intro _ _ hw
    rw [hplace] at hw
    cases hw
  have hruns := h.runs htask
  rw [hplace] at hruns
  unfold jit_task_entry_idx at hs
  dsimp only at hs
  split at hs
  · cases hs
    exact Change.works hsleeps
  · rename_i hready
    rw [not_not] at hready
    cases hruns with
    | entry idle code =>
      obtain ⟨hmain, _⟩ := code hready
      split at hs
      · rename_i hnone
        rw [hmain] at hnone
        cases hnone
      · rename_i id hid
        rw [hmain] at hid
        split at hs
        · cases hs
          cases hid
          exact Change.begins slot t ⟨ht, hplace, hready, rfl, rfl, rfl, rfl⟩
        · refine Change.stops slot _
            (finish_stops hs rfl htask.symm rfl rfl (Or.inr rfl) rfl) ?_ ?_
          · rw [hready]
            decide
          · intro _
            rw [hready]
            decide

theorem LifeInv.resume_change (h : s.LifeInv) {valid : Bool} (ht : t < s.taskTop)
    (hs : s.resume now t valid = some s') : Change s fits s' := by
  unfold resume at hs
  split at hs
  · rename_i slot id hplace
    split at hs
    · rename_i hactive
      cases hs
      apply Change.works
      apply Works.setTask hplace.symm
      intro slot' id' hw _
      rw [hplace] at hw
      cases hw
      exact hactive
    · cases hs
      exact Change.leaves t _ ⟨rfl, rfl, rfl, Or.inl ⟨rfl, ht, Or.inl ⟨slot, id, hplace, rfl⟩⟩⟩
  · rename_i slot hplace
    exact h.entry_change ht hplace hs
  · rename_i slot hplace
    cases hs
    exact Change.leaves t _ ⟨rfl, rfl, rfl, Or.inl ⟨rfl, ht, Or.inr ⟨slot, hplace, rfl⟩⟩⟩
  · rename_i slot hplace
    cases hs
    apply Change.works
    apply Works.setTask hplace.symm
    intro _ _ hw
    rw [hplace] at hw
    cases hw
  · cases hs

end

/-! ## Jobs that start -/

/-- The slot is taken for a job with a new number. -/
structure Takes (s s₀ : JitSys) (slot : Fin JIT_MAX_JOBS) (job : jit_job) : Prop where
  free : s.freeSlot = some slot
  jobs : s₀.jit_jobs = Function.update s.jit_jobs slot job
  id : job.id = s.jit_next_id
  task_id : job.task_id = (s.jit_jobs slot).task_id
  released : (∀ i, job.fds i = -1) ∧ ∀ i, job.kptrs i = 0
  tasks : s₀.tasks = s.tasks
  taskTop : s₀.taskTop = s.taskTop
  jit_next_id : s₀.jit_next_id = s.jit_next_id + 1

theorem alloc_takes {s₀ : JitSys} {bg : Bool} {owner_win_id : Int}
    (h : s.jit_alloc_job bg owner_win_id = some (slot, s₀)) :
    Takes s s₀ slot (s₀.jit_jobs slot) := by
  unfold jit_alloc_job at h
  obtain ⟨slot', hfree, heq⟩ := Option.map_eq_some_iff.mp h
  cases heq
  simp only [setJob_jobs, Function.update_self]
  exact ⟨hfree, rfl, rfl, rfl, ⟨fun _ => rfl, fun _ => rfl⟩, rfl, rfl, rfl⟩

theorem Takes.setJob {s₀ : JitSys} {job : jit_job} (h : Takes s s₀ slot job) (job' : jit_job)
    (hid : job'.id = job.id) (htask : job'.task_id = job.task_id)
    (hreleased : (∀ i, job'.fds i = -1) ∧ ∀ i, job'.kptrs i = 0) :
    Takes s (s₀.setJob slot job') slot job' := by
  refine ⟨h.free, ?_, hid.trans h.id, htask.trans h.task_id, hreleased, h.tasks, h.taskTop,
    h.jit_next_id⟩
  rw [setJob_jobs, h.jobs, Function.update_idem]

theorem LifeInv.starts {s₀ s₁ : JitSys} {wantsNew : Prop} [Decidable wantsNew] (h : s.LifeInv)
    {job : jit_job} (htakes : Takes s s₀ slot job) (hready : job.state = .ready)
    (hcode : job.main_func = some job.id ∧ job.tcc = some job.id)
    (hnew : wantsNew ↔ job.task_id < 0)
    (hs : (if wantsNew then (s₀.task_create slot).map fun (id, s) =>
        s.setJob slot { s.jit_jobs slot with task_id := id }
      else some (s₀.task_reset job.task_id slot)) = some s₁) :
    ∃ task_id : Int, Launches s (s₁.task_wake (s₁.jit_jobs slot).task_id) slot
      { job with task_id := task_id } none := by
  obtain ⟨hfree, hjobs, hid, htask, hreleased, htasks, htop, hnext⟩ := htakes
  by_cases hw : wantsNew
  · rw [if_pos hw] at hs
    rcases h.job slot with ⟨hnone, _⟩ | ⟨t', _, ht', _⟩
    · obtain ⟨⟨t', s₂⟩, hcreate, rfl⟩ := Option.map_eq_some_iff.mp hs
      unfold task_create at hcreate
      split at hcreate
      · cases hcreate
      · cases hcreate
        dsimp only
        have hat : ∀ s₃ : JitSys, s₃.taskTop = s.taskTop + 1 →
            s₃.taskAt (s₀.taskTop : Int) = some s.taskTop := by
          intro s₃ h₃
          rw [htop, taskAt_eq_some, h₃]
          exact ⟨rfl, Nat.lt_succ_self _⟩
        refine ⟨s.taskTop, ?_⟩
        simp only [setJob_jobs, Function.update_self, setTask_jobs, hjobs]
        rw [task_wake, hat _ (by simp [htop])]
        refine ⟨hfree, ?_, hid, hnext, hready, hcode, hreleased, ?_, ?_, ?_⟩
        · simp [htop]
        · simp [htop]
        · refine ⟨s.taskTop, by simp [htop], rfl, by simp [htop], Or.inr ⟨hnone, rfl, by simp [htop]⟩,
            ?_⟩
          intro t'' hne _
          simp [htop, htasks, Function.update_of_ne hne]
        · intro _ hme
          cases hme
    · have := hnew.mp hw
      omega
  · rw [if_neg hw] at hs
    rcases h.job slot with ⟨hnone, _⟩ | ⟨t', hlt, ht', _⟩
    · have hnonneg : ¬ job.task_id < 0 := fun hneg => hw (hnew.mpr hneg)
      omega
    · cases hs
      have htask' : job.task_id = t' := htask.trans ht'
      have hat : ∀ s₃ : JitSys, s₃.taskTop = s.taskTop → s₃.taskAt job.task_id = some t' := by
        intro s₃ h₃
        rw [htask', taskAt_eq_some, h₃]
        exact ⟨rfl, hlt⟩
      refine ⟨job.task_id, ?_⟩
      rw [task_reset, hat s₀ htop]
      simp only [setTask_jobs, hjobs, Function.update_self]
      rw [task_wake, hat _ (by simp [htop])]
      refine ⟨hfree, ?_, hid, hnext, hready, hcode, hreleased, ?_, ?_, ?_⟩
      · simp [hjobs]
      · simp [htop]
      · refine ⟨t', by simp [htop, hlt], htask', by simp, Or.inl ⟨ht', by simp [htop]⟩, ?_⟩
        intro t'' hne _
        simp [htasks, Function.update_of_ne hne]
      · intro _ hme
        cases hme

theorem Launches.waits {job : jit_job} (h : Launches s s' slot job none) (hlt : t < s.taskTop)
    (hout : (s.tasks t).place = .outside) (hne : job.task_id ≠ t) (hwaiter : job.waiter_task_id = t)
    (hbg : job.bg = false) :
    Launches s (s'.setTask t ⟨false, .waiting slot job.id, none⟩) slot job (some t) := by
  obtain ⟨t', ht', htask, hentry, hnew, hother⟩ := h.task
  have htt : t' ≠ t := by
    rintro rfl
    exact hne htask
  refine ⟨h.free, h.jobs, h.id, h.jit_next_id, h.state, h.code, h.released, h.taskTop, ?_, ?_⟩
  · refine ⟨t', ht', htask, ?_, hnew, ?_⟩
    · rw [setTask_tasks, Function.update_of_ne htt]
      exact hentry
    · intro t'' hne' hme
      have htt' : t'' ≠ t := by
        rintro rfl
        exact hme rfl
      rw [setTask_tasks, Function.update_of_ne htt']
      apply hother t'' hne'
      simp
  · intro t'' hme
    cases hme
    refine ⟨hlt, hout, ?_, hwaiter, hbg⟩
    rw [setTask_tasks, Function.update_self]

theorem Launches.task_ne {job : jit_job} (h : s.LifeInv) (hs : Launches s s' slot job none)
    (hlt : t < s.taskTop) (hout : (s.tasks t).place = .outside) : job.task_id ≠ t := by
  obtain ⟨t', _, htask, _, hnew, _⟩ := hs.task
  have hold := h.task_of_none (by rw [hout]; rfl) slot
  rcases hnew with ⟨hsame, _⟩ | ⟨_, htt, _⟩
  · omega
  · omega

section

variable [BuildConfig]

theorem Takes.discards {s₀ : JitSys} {job : jit_job} (h : Takes s s₀ slot job)
    (hstate : job.state = .failed) (hs : s₀.jit_job_cleanup now slot = some s') :
    Discards s s' slot (cleaned job) := by
  obtain ⟨hjobs, htasks, htop, hnext⟩ := jit_job_cleanup_eq hs
  rw [h.jobs, Function.update_self, Function.update_idem] at hjobs
  exact ⟨h.free, hjobs, h.id, hnext.trans h.jit_next_id, hstate, h.task_id,
    ⟨fun _ => rfl, fun _ => rfl⟩, htop.trans h.taskTop, htasks.trans h.tasks⟩

/-- A new job starts, or is discarded, or there is no slot for it. -/
inductive Starts (s s' : JitSys) : Prop
  | full (h : s' = s)
  | launches (slot : Fin JIT_MAX_JOBS) (job : jit_job) (me : Option Nat)
      (h : Launches s s' slot job me)
  | discards (slot : Fin JIT_MAX_JOBS) (job : jit_job) (h : Discards s s' slot job)

omit [BuildConfig] in
theorem Change.of_starts (hquiet : fits → ∀ slot, s.freeSlot = some slot → s.NoWaiter slot)
    (h : Starts s s') : Change s fits s' := by
  cases h with
  | full h =>
    rw [h]
    exact Change.works (Works.refl s)
  | launches slot job me h => exact Change.launches slot job me h fun hf => hquiet hf slot h.free
  | discards slot job h => exact Change.discards slot job h fun hf => hquiet hf slot h.free

theorem Takes.not_compiled {s₀ : JitSys} (h : Takes s s₀ slot (s₀.jit_jobs slot))
    (hs : (s₀.jit_compile_job slot false).jit_job_cleanup now slot = some s') : Starts s s' := by
  rw [jit_compile_job, if_neg (by decide)] at hs
  have hfailed := h.setJob { s₀.jit_jobs slot with
    state := .failed, tcc := some (s₀.jit_jobs slot).id } rfl rfl h.released
  exact Starts.discards slot _ (hfailed.discards rfl hs)

theorem LifeInv.runBg_starts (h : s.LifeInv) {owner_win_id : Int} {compiles : Bool}
    (hs : s.os_jit_run_bg now owner_win_id compiles = some s') : Starts s s' := by
  unfold os_jit_run_bg at hs
  split at hs
  · cases hs
    exact Starts.full rfl
  · rename_i slot s₀ halloc
    have htakes := alloc_takes halloc
    cases compiles with
    | false =>
      rw [if_pos rfl] at hs
      exact htakes.not_compiled hs
    | true =>
      rw [if_neg (by decide), jit_compile_job, if_pos rfl] at hs
      obtain ⟨s₁, hstart, rfl⟩ := Option.map_eq_some_iff.mp hs
      have hcompiled := htakes.setJob { s₀.jit_jobs slot with
        state := .ready, tcc := some (s₀.jit_jobs slot).id
        main_func := some (s₀.jit_jobs slot).id } rfl rfl htakes.released
      rw [setJob_jobs, Function.update_self] at hstart
      obtain ⟨task_id, hlaunch⟩ := h.starts hcompiled rfl ⟨rfl, rfl⟩ Iff.rfl hstart
      exact Starts.launches slot _ none hlaunch

theorem LifeInv.run_starts (h : s.LifeInv) {owner_win_id : Int} {compiles : Bool}
    (ht : t < s.taskTop) (hout : (s.tasks t).place = .outside)
    (hs : s.os_jit_run now t owner_win_id compiles = some s') : Starts s s' := by
  unfold os_jit_run at hs
  split at hs
  · cases hs
    exact Starts.full rfl
  · rename_i slot s₀ halloc
    have htakes := alloc_takes halloc
    cases compiles with
    | false =>
      rw [if_pos rfl] at hs
      exact htakes.not_compiled hs
    | true =>
      rw [if_neg (by decide), jit_compile_job, if_pos rfl] at hs
      dsimp only at hs
      have hcompiled := (htakes.setJob { s₀.jit_jobs slot with
        state := .ready, tcc := some (s₀.jit_jobs slot).id
        main_func := some (s₀.jit_jobs slot).id } rfl rfl htakes.released).setJob
        { s₀.jit_jobs slot with
          state := .ready, tcc := some (s₀.jit_jobs slot).id
          main_func := some (s₀.jit_jobs slot).id, bg := false, owner_win_id := owner_win_id
          waiter_task_id := t } rfl rfl htakes.released
      simp only [setJob_jobs, Function.update_self] at hs
      obtain ⟨s₁, hstart, heq⟩ := Option.map_eq_some_iff.mp hs
      have hme := h.task_of_none (by rw [hout]; rfl) slot
      have hnew : (s₀.jit_jobs slot).task_id < 0 ∨ (s₀.jit_jobs slot).task_id = t ↔
          (s₀.jit_jobs slot).task_id < 0 := by
        rw [htakes.task_id]
        omega
      obtain ⟨task_id, hlaunch⟩ := h.starts hcompiled rfl ⟨rfl, rfl⟩ hnew hstart
      have hwaits := hlaunch.waits ht hout (hlaunch.task_ne h ht hout) rfl rfl
      rw [← heq]
      exact Starts.launches slot _ (some t) hwaits

end

end JitSys

end vibeos.tcc_glue

-- A job that stops gives back all that it has noted.
import Vibeos.JitHoldCalls

namespace vibeos.tcc_glue

open vibeos.fs

variable [JitConfig]

namespace JitSys

variable {s s' : JitSys} {slot : Fin JIT_MAX_JOBS} {t id now : Nat}

section

variable [BuildConfig]

omit [JitConfig] in
/-- The files after the descriptors are closed one after the other, if every close returns 0. -/
def closesAll (now : Nat) : List Int → AppFs → Option AppFs
  | [], fs => some fs
  | fd :: fds, fs =>
    if 0 ≤ fd then
      match appfs_close fs fd now with
      | .returns rc fs => if rc = 0 then closesAll now fds fs else none
      | _ => none
    else closesAll now fds fs

omit [JitConfig] in
theorem closesAll_append (fds fds' : List Int) (fs : AppFs) :
    closesAll now (fds ++ fds') fs = (closesAll now fds fs).bind (closesAll now fds') := by
  induction fds generalizing fs with
  | nil => rfl
  | cons fd fds ih =>
    rw [List.cons_append, closesAll, closesAll]
    split
    · split
      · split
        · exact ih _
        · rfl
      · rfl
    · exact ih fs

/-- What closes and frees do: descriptors and blocks are given back, and the rest stays. -/
structure Returns (s s' : JitSys) (fds : List Int) (blocks : List Nat) : Prop where
  untouched : Untouched s s'
  known : s'.Known
  log : ∀ a ∈ s'.log, a.Own
  opener : ∀ i, s'.opener i = if ∃ fd ∈ fds, fdKey fd = some i then none else s.opener i
  holder : ∀ p, s'.holder p = if ∃ q ∈ blocks, blockKey q = some p then none else s.holder p

theorem closeAll_returns {fds : List Int} {fs : AppFs} (hk : s.Known) (hlog : ∀ a ∈ s.log, a.Own)
    (hown : ∀ fd ∈ fds, 0 ≤ fd → s.OwnOrClosed id fd) (hok : closesAll now fds s.fs = some fs)
    (hs : closeAll now id fds s = some s') : Returns s s' fds [] ∧ s'.fs = fs := by
  induction fds generalizing s with
  | nil =>
    cases hs
    cases hok
    refine ⟨⟨Untouched.refl _, hk, hlog, ?_, ?_⟩, rfl⟩
    · intro i
      simp
    · intro p
      simp
  | cons fd fds ih =>
    rw [closeAll] at hs
    rw [closesAll] at hok
    have hrest : ∀ {s₁ : JitSys}, (∀ fd, s.OwnOrClosed id fd → s₁.OwnOrClosed id fd) →
        ∀ fd' ∈ fds, 0 ≤ fd' → s₁.OwnOrClosed id fd' :=
      fun h fd' hmem hnonneg => h fd' (hown fd' (List.mem_cons_of_mem _ hmem) hnonneg)
    split at hs
    · rename_i hnonneg
      rw [if_pos hnonneg] at hok
      obtain ⟨r, hr, hs⟩ := Option.bind_eq_some_iff.mp hs
      unfold JitSys.close at hr
      split at hr
      · rename_i rc fs₁ hclose
        cases hr
        rw [hclose] at hok
        dsimp only at hok
        split at hok
        · rename_i hrc
          rcases appfs_close_open hclose with ⟨hne, _⟩ | ⟨i, hkey, hopen, _, hclosed⟩
          · exact absurd hrc hne
          · have hopener : ((s.touch id fd).withFs (.job id true) fs₁).opener =
                Function.update s.opener i none := withFs_closed hk _ hclosed
            have hknown : ((s.touch id fd).withFs (.job id true) fs₁).Known :=
              withFs_known (s := s.touch id fd) hk _ fs₁
            have hlog₁ : ∀ a ∈ ((s.touch id fd).withFs (.job id true) fs₁).log, a.Own := by
              intro a ha
              rcases List.mem_cons.mp ha with rfl | ha
              · exact hown fd List.mem_cons_self hnonneg
              · exact hlog a ha
            have hstep : ∀ fd', s.OwnOrClosed id fd' →
                ((s.touch id fd).withFs (.job id true) fs₁).OwnOrClosed id fd' := by
              intro fd' hfd'
              unfold OwnOrClosed at hfd' ⊢
              rw [hk.openerOf] at hfd'
              rw [hknown.openerOf, hopener]
              cases hkey' : fdKey fd' with
              | none => exact Or.inl rfl
              | some i' =>
                rw [hkey', Option.bind_some] at hfd'
                rw [Option.bind_some]
                by_cases hi : i' = i
                · rw [hi, Function.update_self]
                  exact Or.inl rfl
                · rw [Function.update_of_ne hi]
                  exact hfd'
            obtain ⟨hret, hfs⟩ := ih hknown hlog₁ (hrest hstep) hok hs
            refine ⟨⟨?_, hret.known, hret.log, ?_, hret.holder⟩, hfs⟩
            · exact ((touch_untouched s id fd).trans (withFs_untouched _ _ fs₁)).trans
                hret.untouched
            · intro i'
              rw [hret.opener, hopener]
              by_cases hi : i' = i
              · rw [hi, Function.update_self, ite_self, if_pos]
                exact ⟨fd, List.mem_cons_self, hkey⟩
              · rw [Function.update_of_ne hi]
                have hiff : (∃ fd' ∈ fds, fdKey fd' = some i') ↔
                    ∃ fd' ∈ fd :: fds, fdKey fd' = some i' := by
                  simp [hkey, Ne.symm hi]
                simp only [hiff]
        · cases hok
      · cases hr
    · rename_i hneg
      rw [if_neg hneg] at hok
      obtain ⟨hret, hfs⟩ := ih hk hlog (hrest fun _ h => h) hok hs
      refine ⟨⟨hret.untouched, hret.known, hret.log, ?_, hret.holder⟩, hfs⟩
      intro i'
      rw [hret.opener]
      have hiff : (∃ fd' ∈ fds, fdKey fd' = some i') ↔
          ∃ fd' ∈ fd :: fds, fdKey fd' = some i' := by
        simp [fdKey_neg (by omega : fd < 0)]
      simp only [hiff]

end

theorem freeAll_returns {ps : List Nat} (hk : s.Known) (hlog : ∀ a ∈ s.log, a.Own)
    (hown : ∀ p ∈ ps, p ≠ 0 → s.holder p = some (id, true))
    (honce : ps.Pairwise fun p q => p = q → p = 0) :
    Returns s (freeAll id ps s) [] ps ∧ (freeAll id ps s).fs = s.fs := by
  induction ps generalizing s with
  | nil =>
    refine ⟨⟨Untouched.refl s, hk, hlog, ?_, ?_⟩, rfl⟩
    · intro i
      simp [freeAll]
    · intro p
      simp [freeAll]
  | cons p ps ih =>
    rw [freeAll]
    obtain ⟨hne, hrest⟩ := List.pairwise_cons.mp honce
    split
    · rename_i hp
      have hfree : s.free id p = { s with
          holder := Function.update s.holder p none
          log := .free id ((s.holder p).map Prod.fst) :: s.log } := by
        rw [free, if_neg hp]
      have hholder : (s.free id p).holder = Function.update s.holder p none := by
        rw [hfree]
      have hlog₁ : ∀ a ∈ (s.free id p).log, a.Own := by
        intro a ha
        rw [hfree] at ha
        rcases List.mem_cons.mp ha with rfl | ha
        · rw [hown p List.mem_cons_self hp]
          rfl
        · exact hlog a ha
      obtain ⟨hret, hfs⟩ := ih (s := s.free id p) (by rw [hfree]; exact hk) hlog₁ (by
        intro q hq hq0
        have hpq : q ≠ p := fun heq => hp (hne q hq heq.symm)
        rw [hholder, Function.update_of_ne hpq]
        exact hown q (List.mem_cons_of_mem _ hq) hq0) hrest
      refine ⟨⟨(free_untouched s id p).trans hret.untouched, hret.known, hret.log, ?_, ?_⟩, ?_⟩
      · intro i
        rw [hret.opener, hfree]
      · intro q
        rw [hret.holder, hholder]
        by_cases hq : q = p
        · rw [hq, Function.update_self, ite_self, if_pos]
          exact ⟨p, List.mem_cons_self, by rw [blockKey, if_neg hp]⟩
        · rw [Function.update_of_ne hq]
          have hiff : (∃ q' ∈ ps, blockKey q' = some q) ↔
              ∃ q' ∈ p :: ps, blockKey q' = some q := by
            simp [blockKey, hp, Ne.symm hq]
          simp only [hiff]
      · rw [hfs, hfree]
    · rename_i hp
      rw [not_not] at hp
      obtain ⟨hret, hfs⟩ := ih hk hlog
        (fun q hq => hown q (List.mem_cons_of_mem _ hq)) hrest
      refine ⟨⟨hret.untouched, hret.known, hret.log, hret.opener, ?_⟩, hfs⟩
      intro q
      rw [hret.holder]
      have hiff : (∃ q' ∈ ps, blockKey q' = some q) ↔ ∃ q' ∈ p :: ps, blockKey q' = some q := by
        simp [blockKey, hp]
      simp only [hiff]

/-! ## Jobs that stop -/

/-- Jobs and tasks change, but neither files nor blocks, and no call begins. -/
structure Aside (s s' : JitSys) : Prop where
  fs : s'.fs = s.fs
  opener : s'.opener = s.opener
  holder : s'.holder = s.holder
  log : s'.log = s.log
  call : ∀ t, (t < s.taskTop → (s.tasks t).call = none) → t < s'.taskTop →
    (s'.tasks t).call = none

theorem Aside.refl (s : JitSys) : Aside s s := ⟨rfl, rfl, rfl, rfl, fun _ h => h⟩

theorem Aside.trans {s₁ s₂ s₃ : JitSys} (h : Aside s₁ s₂) (h' : Aside s₂ s₃) : Aside s₁ s₃ :=
  ⟨h'.fs.trans h.fs, h'.opener.trans h.opener, h'.holder.trans h.holder, h'.log.trans h.log,
    fun t ht => h'.call t (h.call t ht)⟩

theorem Aside.setJob (s : JitSys) (slot : Fin JIT_MAX_JOBS) (job : jit_job) :
    Aside s (s.setJob slot job) := ⟨rfl, rfl, rfl, rfl, fun _ h => h⟩

theorem Aside.setTask {task : Task} (h : (s.tasks t).call = none → task.call = none) :
    Aside s (s.setTask t task) := by
  refine ⟨rfl, rfl, rfl, rfl, ?_⟩
  intro t' ht' hlt
  by_cases heq : t' = t
  · rw [heq] at ht' hlt
    rw [setTask_tasks, heq, Function.update_self]
    exact h (ht' hlt)
  · rw [setTask_tasks, Function.update_of_ne heq]
    exact ht' hlt

theorem Aside.wake (s : JitSys) (task_id : Int) : Aside s (s.task_wake task_id) := by
  unfold task_wake
  split
  · exact Aside.refl s
  · exact Aside.setTask fun h => h

theorem Aside.sleep (s : JitSys) (task_id : Int) : Aside s (s.task_sleep task_id) := by
  unfold task_sleep
  split
  · exact Aside.refl s
  · exact Aside.setTask fun h => h

theorem Aside.reset (s : JitSys) (task_id : Int) (slot : Fin JIT_MAX_JOBS) :
    Aside s (s.task_reset task_id slot) := by
  unfold task_reset
  split
  · exact Aside.refl s
  · exact Aside.setTask fun _ => rfl

theorem Aside.atYield (ha : Aside s s') (hy : s.AtYield) : s'.AtYield := by
  intro t ht
  rw [ha.call t (fun hlt => Option.isNone_iff_eq_none.mp (hy t hlt)) ht]
  rfl

/-- What the job in a slot has noted is given back, and the files are `fs` then. -/
structure Released (s s' : JitSys) (slot : Fin JIT_MAX_JOBS) (fs : AppFs) : Prop where
  fs : s'.fs = fs
  known : s'.Known
  log : ∀ a ∈ s'.log, a.Own
  opener : ∀ i, s'.opener i =
    if ∃ j, s.fdLedger.tab slot j = some i then none else s.opener i
  holder : ∀ p, s'.holder p =
    if ∃ j, s.blockLedger.tab slot j = some p then none else s.holder p
  quiet : s.AtYield → s'.AtYield

theorem Released.aside {s₁ s₂ : JitSys} {fs : AppFs} (h : Released s s₁ slot fs)
    (ha : Aside s₁ s₂) : Released s s₂ slot fs := by
  refine ⟨ha.fs.trans h.fs, ?_, ?_, ?_, ?_, ?_⟩
  · unfold Known
    rw [ha.fs, ha.opener]
    exact h.known
  · rw [ha.log]
    exact h.log
  · rw [ha.opener]
    exact h.opener
  · rw [ha.holder]
    exact h.holder
  · intro hy
    exact ha.atYield (h.quiet hy)

section

variable [BuildConfig] {fs : AppFs}

theorem Holds.cleanup_released {s₁ : JitSys} (h : s.Holds) (ha : Aside s s₁)
    (hid : (s₁.jit_jobs slot).id = (s.jit_jobs slot).id)
    (hfds : (s₁.jit_jobs slot).fds = (s.jit_jobs slot).fds)
    (hkptrs : (s₁.jit_jobs slot).kptrs = (s.jit_jobs slot).kptrs)
    (hok : closesAll now (List.ofFn (s.jit_jobs slot).fds) s.fs = some fs)
    (hs : jit_job_cleanup now s₁ slot = some s') : Released s s' slot fs := by
  unfold jit_job_cleanup jit_cleanup_resources at hs
  obtain ⟨s₂, hs₂, heq⟩ := Option.map_eq_some_iff.mp hs
  obtain ⟨s₃, hclose, heq'⟩ := Option.map_eq_some_iff.mp hs₂
  rw [← heq, ← heq']
  have hnoted : ∀ fd ∈ List.ofFn (s₁.jit_jobs slot).fds, 0 ≤ fd →
      s₁.OwnOrClosed (s₁.jit_jobs slot).id fd := by
    intro fd hfd _
    obtain ⟨j, hj⟩ := List.mem_ofFn.mp hfd
    have hknown : s₁.Known := by
      unfold Known
      rw [ha.fs, ha.opener]
      exact h.known
    unfold OwnOrClosed
    rw [hknown.openerOf, ha.opener, hid]
    cases hkey : fdKey fd with
    | none => exact Or.inl rfl
    | some i =>
      have hown := (h.fds.noted slot j i (by
        simp only [fdLedger, ← hfds, hj, hkey])).2
      have hown' : openerName (s.opener i) = some ((s.jit_jobs slot).id, true) := hown
      right
      refine ⟨true, ?_⟩
      rw [Option.bind_some]
      unfold openerName at hown'
      split at hown'
      · cases hown'
        assumption
      · cases hown'
  have hknown : s₁.Known := by
    unfold Known
    rw [ha.fs, ha.opener]
    exact h.known
  have hlog : ∀ a ∈ s₁.log, a.Own := by
    rw [ha.log]
    exact h.log
  obtain ⟨hclosed, hfs⟩ := closeAll_returns hknown hlog hnoted (by
    rw [hfds, ha.fs]
    exact hok) hclose
  have hholder : s₃.holder = s.holder := by
    funext p
    rw [hclosed.holder, ← ha.holder]
    simp
  have hown : ∀ p ∈ List.ofFn (s₁.jit_jobs slot).kptrs, p ≠ 0 →
      s₃.holder p = some ((s₁.jit_jobs slot).id, true) := by
    intro p hp hp0
    obtain ⟨j, hj⟩ := List.mem_ofFn.mp hp
    rw [hholder, hid]
    exact (h.blocks.noted slot j p (by
      simp only [blockLedger, ← hkptrs, hj, blockKey, if_neg hp0])).2
  have honce : (List.ofFn (s₁.jit_jobs slot).kptrs).Pairwise fun p q => p = q → p = 0 := by
    rw [List.pairwise_ofFn]
    intro i j hij heq
    by_contra hp0
    have hsame := h.blocks.once slot i j ((s₁.jit_jobs slot).kptrs i)
    simp only [blockLedger, ← hkptrs, ← heq, blockKey, if_neg hp0] at hsame
    exact absurd (hsame trivial trivial) (ne_of_lt hij)
  obtain ⟨hfreed, hfs'⟩ := freeAll_returns hclosed.known hclosed.log hown honce
  have hun := hclosed.untouched.trans hfreed.untouched
  refine ⟨hfs'.trans hfs, hfreed.known, hfreed.log, ?_, ?_, ?_⟩
  · intro i
    have hiff : (∃ fd ∈ List.ofFn (s₁.jit_jobs slot).fds, fdKey fd = some i) ↔
        ∃ j, s.fdLedger.tab slot j = some i := by
      simp [List.mem_ofFn, fdLedger, hfds]
    have hclosed' := hclosed.opener i
    simp only [hiff, ha.opener] at hclosed'
    rw [setJob_opener, setJob_opener, hfreed.opener, hclosed']
    simp
  · intro p
    have hiff : (∃ q ∈ List.ofFn (s₁.jit_jobs slot).kptrs, blockKey q = some p) ↔
        ∃ j, s.blockLedger.tab slot j = some p := by
      simp [List.mem_ofFn, blockLedger, hkptrs]
    have hfreed' := hfreed.holder p
    simp only [hiff, hholder] at hfreed'
    rw [setJob_holder, setJob_holder, hfreed']
  · intro hy t ht
    rw [setJob_tasks, setJob_tasks, hun.tasks]
    rw [setJob_top, setJob_top, hun.taskTop] at ht
    exact ha.atYield hy t ht

theorem Holds.stop_released (h : s.Holds) {exit_code : Int}
    (hok : closesAll now (List.ofFn (s.jit_jobs slot).fds) s.fs = some fs)
    (hs : s.stop now slot exit_code = some s') : Released s s' slot fs := by
  unfold stop at hs
  simp only [setJob_jobs, Function.update_self] at hs
  generalize hs₁ : (if 0 ≤ (s.jit_jobs slot).task_id then
    ((s.setJob slot { s.jit_jobs slot with cancel_requested := true }).task_reset
      (s.jit_jobs slot).task_id slot).task_sleep (s.jit_jobs slot).task_id
    else s.setJob slot { s.jit_jobs slot with cancel_requested := true }) = s₁ at hs
  have haside : Aside s s₁ := by
    rw [← hs₁]
    split
    · exact ((Aside.setJob _ _ _).trans (Aside.reset _ _ _)).trans (Aside.sleep _ _)
    · exact Aside.setJob _ _ _
  have hjob : s₁.jit_jobs slot = { s.jit_jobs slot with cancel_requested := true } := by
    rw [← hs₁]
    obtain ⟨tasks, htasks, _⟩ := reset_sleep_spec
      (s.setJob slot { s.jit_jobs slot with cancel_requested := true })
      (s.jit_jobs slot).task_id slot
    rw [htasks]
    simp
  apply h.cleanup_released (haside.trans (Aside.setJob s₁ slot _)) ?_ ?_ ?_ hok hs
  · simp [hjob]
  · simp [hjob]
  · simp [hjob]

theorem Holds.os_jit_kill_released (h : s.Holds) (hslot : s.killSlot id = some slot)
    (hok : closesAll now (List.ofFn (s.jit_jobs slot).fds) s.fs = some fs)
    (hs : s.os_jit_kill now id = some s') : Released s s' slot fs := by
  unfold os_jit_kill at hs
  rw [hslot] at hs
  obtain ⟨s₁, hstop, heq⟩ := Option.map_eq_some_iff.mp hs
  apply (h.stop_released hok hstop).aside
  rw [← heq]
  dsimp only
  split
  · exact Aside.wake _ _
  · exact Aside.refl _

theorem Holds.cancel_released (h : s.Holds) {me : Int}
    (hok : closesAll now (List.ofFn (s.jit_jobs slot).fds) s.fs = some fs)
    (hs : s.cancel now me slot = some s') : Released s s' slot fs := by
  unfold cancel at hs
  obtain ⟨s₁, hstop, heq⟩ := Option.map_eq_some_iff.mp hs
  apply (h.stop_released hok hstop).aside
  rw [← heq]
  split
  · exact Aside.wake _ _
  · exact Aside.refl _

theorem Holds.trap_released (h : s.Holds) {owner_win_id : Int}
    (hslot : s.trapSlot t owner_win_id = some slot)
    (hok : closesAll now (List.ofFn (s.jit_jobs slot).fds) s.fs = some fs)
    (hs : s.os_jit_cancel_running_owner_from_trap now t owner_win_id = some s') :
    Released s s' slot fs := by
  unfold os_jit_cancel_running_owner_from_trap at hs
  rw [hslot] at hs
  obtain ⟨s₁, hclean, heq⟩ := Option.map_eq_some_iff.mp hs
  have hreleased := h.cleanup_released (Aside.setJob s slot _) (by simp) (by simp) (by simp) hok
    hclean
  apply hreleased.aside
  rw [← heq]
  dsimp only
  split
  · exact (Aside.wake _ _).trans (Aside.setTask fun _ => rfl)
  · exact Aside.setTask fun _ => rfl

theorem Holds.finish_released (h : s.Holds) {job : jit_job}
    (hs : finish now (s.setJob slot job) t slot = some s')
    (hok : closesAll now (List.ofFn (s.jit_jobs slot).fds) s.fs = some fs)
    (hid : job.id = (s.jit_jobs slot).id) (hfds : job.fds = (s.jit_jobs slot).fds)
    (hkptrs : job.kptrs = (s.jit_jobs slot).kptrs) : Released s s' slot fs := by
  unfold finish at hs
  obtain ⟨s₁, hclean, heq⟩ := Option.map_eq_some_iff.mp hs
  have hreleased := h.cleanup_released (Aside.setJob s slot job) (by simp [hid]) (by simp [hfds])
    (by simp [hkptrs]) hok hclean
  apply hreleased.aside
  rw [← heq]
  dsimp only
  split
  · exact (Aside.wake _ _).trans (Aside.setTask fun _ => rfl)
  · exact Aside.setTask fun _ => rfl

end

/-! ## What the jobs hold then -/

theorem LifeInv.quiet_of_atYield (h : s.LifeInv) (hy : s.AtYield) (k : Fin JIT_MAX_JOBS) :
    s.pendingOf k = none := by
  by_cases hk : (s.jit_jobs k).state = .running
  · rw [pendingOf_running hk]
    rcases h.job k with ⟨_, hidle⟩ | ⟨t, ht, htask, _⟩
    · exact absurd (Or.inr hk) hidle
    · rw [htask, Int.toNat_natCast]
      exact Option.isNone_iff_eq_none.mp (hy t ht)
  · exact pendingOf_idle hk

theorem LifeInv.names (h : s.LifeInv) (k k' : Fin JIT_MAX_JOBS)
    (hk : (s.jit_jobs k).state = .running) (hk' : (s.jit_jobs k').state = .running)
    (hid : (s.jit_jobs k).id = (s.jit_jobs k').id) : k = k' := by
  by_contra hne
  refine h.id_ne k k' hne ?_ ?_ hid
  · rw [hk]
    decide
  · rw [hk']
    decide

/-- Nothing that the job has got from `open` and `fopen` is left. -/
def NothingElse (s : JitSys) (id : Nat) : Prop :=
  (∀ i, s.opener i ≠ some (.job id false)) ∧ ∀ p, s.holder p ≠ some (id, false)

theorem Holds.of_released {job : jit_job} {fs : AppFs} (h : s.Holds) (hl : s.LifeInv)
    (hl' : s'.LifeInv) (hy : s.AtYield) (hs : Stops s s' slot job) (hr : Released s s' slot fs)
    (helse : s.NothingElse (s.jit_jobs slot).id) : s'.Holds := by
  have hquiet := hl.quiet_of_atYield hy
  have hquiet' := hl'.quiet_of_atYield (hr.quiet hy)
  have hother : ∀ k, k ≠ slot → s'.jit_jobs k = s.jit_jobs k := by
    intro k hk
    rw [hs.jobs, Function.update_of_ne hk]
  have hself : s'.jit_jobs slot = job := by
    rw [hs.jobs, Function.update_self]
  have hidle := hs.not_running
  have hname : ∀ k, (s'.jit_jobs k).id = (s.jit_jobs k).id := by
    intro k
    by_cases hk : k = slot
    · rw [hk, hself, hs.id]
    · rw [hother k hk]
  have hlive : ∀ k, (s'.jit_jobs k).state = .running ↔
      k ≠ slot ∧ (s.jit_jobs k).state = .running := by
    intro k
    by_cases hk : k = slot
    · rw [hk, hself]
      exact ⟨fun hrun => absurd hrun hidle, fun hrun => absurd rfl hrun.1⟩
    · rw [hother k hk]
      exact ⟨fun hrun => ⟨hk, hrun⟩, fun hrun => hrun.2⟩
  have hfds : s'.fdLedger = s.fdLedger.stop slot := by
    ext1
    · funext i
      simp only [fdLedger, Ledger.stop]
      rw [hr.opener, apply_ite openerName]
      rfl
    · exact funext hname
    · exact funext fun k => propext (hlive k)
    · funext k j
      simp only [fdLedger, Ledger.stop]
      by_cases hk : k = slot
      · rw [hk, Function.update_self, hself, hs.released.2.1 j]
        exact fdKey_neg (by decide)
      · rw [Function.update_of_ne hk, hother k hk]
    · funext k
      simp only [fdLedger, Ledger.stop, hquiet', hquiet, Option.bind_none]
      by_cases hk : k = slot
      · rw [hk, Function.update_self]
      · rw [Function.update_of_ne hk]
  have hblocks : s'.blockLedger = s.blockLedger.stop slot := by
    ext1
    · funext p
      simp only [blockLedger, Ledger.stop]
      rw [hr.holder]
      rfl
    · exact funext hname
    · exact funext fun k => propext (hlive k)
    · funext k j
      simp only [blockLedger, Ledger.stop]
      by_cases hk : k = slot
      · rw [hk, Function.update_self, hself, hs.released.2.2 j]
        rfl
      · rw [Function.update_of_ne hk, hother k hk]
    · funext k
      simp only [blockLedger, Ledger.stop, hquiet', hquiet, Option.bind_none]
      by_cases hk : k = slot
      · rw [hk, Function.update_self]
      · rw [Function.update_of_ne hk]
  refine ⟨?_, ?_, hr.known, hr.log⟩
  · rw [hfds]
    apply h.fds.stop
    · simp only [fdLedger, hquiet, Option.bind_none]
    · intro i hi
      have hi' : openerName (s.opener i) = some ((s.jit_jobs slot).id, false) := hi
      unfold openerName at hi'
      split at hi'
      · cases hi'
        exact helse.1 i (by assumption)
      · cases hi'
  · rw [hblocks]
    apply h.blocks.stop
    · simp only [blockLedger, hquiet, Option.bind_none]
    · exact helse.2

end JitSys

end vibeos.tcc_glue

-- What the calls of a job do to what the jobs hold.
import Vibeos.JitLedger

namespace vibeos.tcc_glue

open vibeos.fs

variable [JitConfig]

namespace JitSys

variable {s s' : JitSys} {slot : Fin JIT_MAX_JOBS} {t id now : Nat}

/-! ## Changes of the ledgers -/

theorem pendingOf_running {k : Fin JIT_MAX_JOBS} (h : (s.jit_jobs k).state = .running) :
    s.pendingOf k = (s.tasks (s.jit_jobs k).task_id.toNat).call := by
  unfold pendingOf
  rw [if_pos h]

theorem pendingOf_idle {k : Fin JIT_MAX_JOBS} (h : (s.jit_jobs k).state ≠ .running) :
    s.pendingOf k = none := by
  unfold pendingOf
  rw [if_neg h]

theorem LifeInv.pendingOf_setTask (h : s.LifeInv) (ht : t < s.taskTop)
    (hplace : (s.tasks t).place = .main slot id) (task : Task) :
    (s.setTask t task).pendingOf = Function.update s.pendingOf slot task.call := by
  obtain ⟨htask, _, hrun, _⟩ := h.main ht hplace
  funext k
  by_cases heq : k = slot
  · rw [heq, Function.update_self, pendingOf_running (by rw [setTask_jobs, hrun])]
    rw [setTask_jobs, setTask_tasks, htask, Int.toNat_natCast, Function.update_self]
  · rw [Function.update_of_ne heq]
    by_cases hk : (s.jit_jobs k).state = .running
    · rw [pendingOf_running hk, pendingOf_running (by rw [setTask_jobs, hk])]
      rw [setTask_jobs, setTask_tasks, Function.update_of_ne]
      rcases h.job k with ⟨_, hidle⟩ | ⟨t', _, ht', _⟩
      · exact absurd (Or.inr hk) hidle
      · have hne := h.task_ne (Ne.symm heq) htask
        omega
    · rw [pendingOf_idle hk, pendingOf_idle (by rw [setTask_jobs]; exact hk)]

theorem LifeInv.fdLedger_setTask (h : s.LifeInv) (ht : t < s.taskTop)
    (hplace : (s.tasks t).place = .main slot id) (task : Task) :
    (s.setTask t task).fdLedger = s.fdLedger.setPend slot (task.call.bind fdPend) := by
  have hpend := h.pendingOf_setTask ht hplace task
  ext1
  · rfl
  · rfl
  · rfl
  · rfl
  · funext k
    simp only [fdLedger, Ledger.setPend, hpend]
    by_cases heq : k = slot
    · rw [heq, Function.update_self, Function.update_self]
    · rw [Function.update_of_ne heq, Function.update_of_ne heq]

theorem LifeInv.blockLedger_setTask (h : s.LifeInv) (ht : t < s.taskTop)
    (hplace : (s.tasks t).place = .main slot id) (task : Task) :
    (s.setTask t task).blockLedger = s.blockLedger.setPend slot (task.call.bind blockPend) := by
  have hpend := h.pendingOf_setTask ht hplace task
  ext1
  · rfl
  · rfl
  · rfl
  · rfl
  · funext k
    simp only [blockLedger, Ledger.setPend, hpend]
    by_cases heq : k = slot
    · rw [heq, Function.update_self, Function.update_self]
    · rw [Function.update_of_ne heq, Function.update_of_ne heq]

theorem setJob_bare {job : jit_job} (hbare : bare job = bare (s.jit_jobs slot)) :
    (∀ k, SameLife (s.jit_jobs k) ((s.setJob slot job).jit_jobs k)) ∧
      (s.setJob slot job).pendingOf = s.pendingOf := by
  have hsame : ∀ k, SameLife (s.jit_jobs k) ((s.setJob slot job).jit_jobs k) := by
    intro k
    apply SameLife.of_bare
    by_cases heq : k = slot
    · rw [heq, setJob_jobs, Function.update_self, hbare]
    · rw [setJob_jobs, Function.update_of_ne heq]
  refine ⟨hsame, ?_⟩
  funext k
  unfold pendingOf
  rw [(hsame k).state, (hsame k).task_id]
  rfl

theorem setJob_row {α : Type} {job : jit_job} (row : jit_job → α) :
    (fun k => row ((s.setJob slot job).jit_jobs k)) =
      Function.update (fun k => row (s.jit_jobs k)) slot (row job) :=
  Function.comp_update row s.jit_jobs slot job

theorem fdLedger_setJob {job : jit_job} (hbare : bare job = bare (s.jit_jobs slot)) :
    (s.setJob slot job).fdLedger = { s.fdLedger with
      tab := Function.update s.fdLedger.tab slot fun j => fdKey (job.fds j) } := by
  obtain ⟨hsame, hpend⟩ := setJob_bare hbare
  ext1
  · rfl
  · funext k
    exact (hsame k).id
  · funext k
    exact congrArg (· = JobState.running) (hsame k).state
  · exact setJob_row (fun j i => fdKey (j.fds i))
  · simp only [fdLedger, hpend]

theorem blockLedger_setJob {job : jit_job} (hbare : bare job = bare (s.jit_jobs slot)) :
    (s.setJob slot job).blockLedger = { s.blockLedger with
      tab := Function.update s.blockLedger.tab slot fun j => blockKey (job.kptrs j) } := by
  obtain ⟨hsame, hpend⟩ := setJob_bare hbare
  ext1
  · rfl
  · funext k
    exact (hsame k).id
  · funext k
    exact congrArg (· = JobState.running) (hsame k).state
  · exact setJob_row (fun j i => blockKey (j.kptrs i))
  · simp only [blockLedger, hpend]

theorem setFd_ledgers (s : JitSys) (slot : Fin JIT_MAX_JOBS) (j : Fin JIT_MAX_FDS) (fd : Int) :
    (s.setJob slot { s.jit_jobs slot with
      fds := Function.update (s.jit_jobs slot).fds j fd }).fdLedger =
        s.fdLedger.setTab slot j (fdKey fd) ∧
    (s.setJob slot { s.jit_jobs slot with
      fds := Function.update (s.jit_jobs slot).fds j fd }).blockLedger = s.blockLedger := by
  constructor
  · refine (fdLedger_setJob (by rfl)).trans ?_
    simp only [Ledger.setTab]
    congr 2
    funext i
    by_cases hij : i = j
    · simp [hij]
    · simp [hij, fdLedger]
  · refine (blockLedger_setJob (by rfl)).trans ?_
    have htab : Function.update s.blockLedger.tab slot
        (fun j => blockKey ((s.jit_jobs slot).kptrs j)) = s.blockLedger.tab :=
      Function.update_eq_self slot _
    simp only [htab]

theorem setKptr_ledgers (s : JitSys) (slot : Fin JIT_MAX_JOBS) (j : Fin JIT_MAX_KPTRS) (p : Nat) :
    (s.setJob slot { s.jit_jobs slot with
      kptrs := Function.update (s.jit_jobs slot).kptrs j p }).blockLedger =
        s.blockLedger.setTab slot j (blockKey p) ∧
    (s.setJob slot { s.jit_jobs slot with
      kptrs := Function.update (s.jit_jobs slot).kptrs j p }).fdLedger = s.fdLedger := by
  constructor
  · refine (blockLedger_setJob (by rfl)).trans ?_
    simp only [Ledger.setTab]
    congr 2
    funext i
    by_cases hij : i = j
    · simp [hij]
    · simp [hij, blockLedger]
  · refine (fdLedger_setJob (by rfl)).trans ?_
    have htab : Function.update s.fdLedger.tab slot
        (fun j => fdKey ((s.jit_jobs slot).fds j)) = s.fdLedger.tab :=
      Function.update_eq_self slot _
    simp only [htab]

section

variable {i : Fin APP_MAX_FDS} {p : Nat} {noted : Bool}

theorem Untouched.pendingOf (h : Untouched s s') : s'.pendingOf = s.pendingOf := by
  funext k
  unfold JitSys.pendingOf
  rw [h.jobs, h.tasks]

theorem Untouched.fdLedger (h : Untouched s s') :
    s'.fdLedger = { s.fdLedger with own := fun i => openerName (s'.opener i) } := by
  ext1
  · rfl
  · simp only [JitSys.fdLedger, h.jobs]
  · simp only [JitSys.fdLedger, h.jobs]
  · simp only [JitSys.fdLedger, h.jobs]
  · simp only [JitSys.fdLedger, h.pendingOf]

theorem Untouched.blockLedger (h : Untouched s s') :
    s'.blockLedger = { s.blockLedger with own := s'.holder } := by
  ext1
  · rfl
  · simp only [JitSys.blockLedger, h.jobs]
  · simp only [JitSys.blockLedger, h.jobs]
  · simp only [JitSys.blockLedger, h.jobs]
  · simp only [JitSys.blockLedger, h.pendingOf]

theorem Holds.of_same {fs : AppFs} (h : s.Holds) (who : Opener) (hs : SameOpen s.fs fs) :
    (s.withFs who fs).Holds := by
  have hopener := withFs_same h.known who hs
  refine ⟨?_, ?_, withFs_known h.known who fs, h.log⟩
  · rw [(withFs_untouched s who fs).fdLedger, hopener]
    exact h.fds
  · rw [(withFs_untouched s who fs).blockLedger]
    exact h.blocks

theorem fdLedger_opened {fs : AppFs} {e : app_fd_entry} (h : s.Known) (hfree : s.fs.fds i = none)
    (hs : fs.fds = Function.update s.fs.fds i (some e)) :
    (s.withFs (.job id noted) fs).fdLedger = s.fdLedger.setOwn i (some (id, noted)) := by
  rw [(withFs_untouched s _ fs).fdLedger, withFs_opened h _ hfree hs]
  simp only [Ledger.setOwn]
  congr 1
  funext i'
  by_cases heq : i' = i
  · rw [heq, Function.update_self, Function.update_self, openerName]
  · rw [Function.update_of_ne heq, Function.update_of_ne heq, fdLedger]

theorem fdLedger_closed {who : Opener} {fs : AppFs} (h : s.Known)
    (hs : fs.fds = Function.update s.fs.fds i none) :
    (s.withFs who fs).fdLedger = s.fdLedger.setOwn i none := by
  rw [(withFs_untouched s _ fs).fdLedger, withFs_closed h _ hs]
  simp only [Ledger.setOwn]
  congr 1
  funext i'
  by_cases heq : i' = i
  · rw [heq, Function.update_self, Function.update_self]
    rfl
  · rw [Function.update_of_ne heq, Function.update_of_ne heq, fdLedger]

/-- A use of a descriptor that is the job's own or not open. -/
def OwnOrClosed (s : JitSys) (id : Nat) (fd : Int) : Prop :=
  s.openerOf fd = none ∨ ∃ noted, s.openerOf fd = some (.job id noted)

theorem Holds.touch {fd : Int} (h : s.Holds) (hfd : s.OwnOrClosed id fd) :
    (s.touch id fd).Holds := by
  refine ⟨?_, ?_, h.known, ?_⟩
  · rw [(touch_untouched s id fd).fdLedger]
    exact h.fds
  · rw [(touch_untouched s id fd).blockLedger]
    exact h.blocks
  · intro a ha
    rcases List.mem_cons.mp ha with rfl | ha
    · exact hfd
    · exact h.log a ha

theorem Holds.close [BuildConfig] {fd : Int} {r : Int × JitSys} (h : s.Holds)
    (hown : s.OwnOrClosed id fd) (hs : s.close id fd now = some r) :
    r.2.Known ∧ (∀ a ∈ r.2.log, a.Own) ∧ r.2.blockLedger = s.blockLedger ∧
      ((r.1 ≠ 0 ∧ r.2.fdLedger = s.fdLedger) ∨ ∃ i b, fdKey fd = some i ∧ r.1 = 0 ∧
        s.fdLedger.own i = some (id, b) ∧ r.2.fdLedger = s.fdLedger.setOwn i none) := by
  unfold JitSys.close at hs
  split at hs
  · rename_i rc fs hclose
    cases hs
    have htouch := h.touch hown
    have hused := (touch_untouched s id fd).trans (withFs_untouched _ (.job id true) fs)
    refine ⟨withFs_known htouch.known _ fs, htouch.log, ?_, ?_⟩
    · rw [hused.blockLedger]
      rfl
    · have hfd : (s.touch id fd).fdLedger = s.fdLedger := by
        rw [(touch_untouched s id fd).fdLedger]
        rfl
      rcases appfs_close_open hclose with ⟨hrc, hsame⟩ | ⟨i, hkey, hopen, hrc, hclosed⟩
      · left
        refine ⟨hrc, ?_⟩
        have hopener : ((s.touch id fd).withFs (.job id true) fs).opener = s.opener :=
          withFs_same htouch.known _ (SameOpen.of_fds hsame)
        rw [hused.fdLedger, hopener]
        rfl
      · right
        have hopener : s.openerOf fd = s.opener i := by
          rw [h.known.openerOf, hkey, Option.bind_some]
        have hsome : s.opener i ≠ none := fun hnone => hopen ((h.known i).mp hnone)
        rcases hown with hnone | ⟨b, hb⟩
        · rw [hopener] at hnone
          exact absurd hnone hsome
        · refine ⟨i, b, hkey, hrc, ?_, ?_⟩
          · rw [hopener] at hb
            simp only [JitSys.fdLedger, hb, openerName]
          · exact (fdLedger_closed htouch.known hclosed).trans (by rw [hfd])
  · cases hs

theorem free_ledgers (s : JitSys) (id : Nat) (hp : p ≠ 0) :
    (s.free id p).fdLedger = s.fdLedger ∧
      (s.free id p).blockLedger = s.blockLedger.setOwn p none ∧
      (s.free id p).log = .free id ((s.holder p).map Prod.fst) :: s.log := by
  have hfree : s.free id p = { s with
      holder := Function.update s.holder p none
      log := .free id ((s.holder p).map Prod.fst) :: s.log } := by
    unfold free
    rw [if_neg hp]
  rw [hfree]
  exact ⟨rfl, rfl, rfl⟩

end

/-! ## Calls -/

theorem LifeInv.quiet (h : s.LifeInv) (hrun : s.CanRun t) (hcall : (s.tasks t).call = none)
    (k : Fin JIT_MAX_JOBS) : s.pendingOf k = none := by
  by_cases hk : (s.jit_jobs k).state = .running
  · rw [pendingOf_running hk]
    rcases h.job k with ⟨_, hidle⟩ | ⟨t', ht', htask, _⟩
    · exact absurd (Or.inr hk) hidle
    · rw [htask, Int.toNat_natCast]
      by_cases heq : t' = t
      · rw [heq, hcall]
      · exact Option.isNone_iff_eq_none.mp (hrun.2.2 t' ht' heq)
  · exact pendingOf_idle hk

/-- The calls that a job may make: on descriptors that are its own or not open, and with `close`
and `fclose` only on what `appfs_open` has not noted. -/
def CallTidy (s : JitSys) (slot : Fin JIT_MAX_JOBS) (id : Nat) : JitCall → Prop
  | .appfs_close fd => s.OwnOrClosed id fd
  | .appfs_read fd _ => s.OwnOrClosed id fd
  | .appfs_write _ fd _ => s.OwnOrClosed id fd
  | .close fd => s.OwnOrClosed id fd ∧ ∀ j, (s.jit_jobs slot).fds j ≠ fd
  | .fclose p => p ≠ 0 → s.holder p = some (id, false) ∧ s.OwnOrClosed id (s.files p) ∧
    ∀ j, (s.jit_jobs slot).fds j ≠ s.files p
  | _ => True

end JitSys

end vibeos.tcc_glue

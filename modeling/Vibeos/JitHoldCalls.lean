-- Every call of a job keeps what the jobs hold.
import Vibeos.JitHolds

namespace vibeos.tcc_glue

open vibeos.fs

variable [JitConfig]

namespace JitSys

variable {s s' : JitSys} {slot : Fin JIT_MAX_JOBS} {t id now : Nat}

/-- The task of a job is between two calls, and no other is in the middle of one. -/
structure InMain (s : JitSys) (t : Nat) (slot : Fin JIT_MAX_JOBS) (id : Nat) : Prop where
  life : s.LifeInv
  canRun : s.CanRun t
  place : (s.tasks t).place = .main slot id
  call : (s.tasks t).call = none

theorem InMain.id_eq (h : s.InMain t slot id) : (s.jit_jobs slot).id = id :=
  (h.life.main h.canRun.1 h.place).2.1

theorem InMain.running (h : s.InMain t slot id) : (s.jit_jobs slot).state = .running :=
  (h.life.main h.canRun.1 h.place).2.2.1

theorem InMain.fdQuiet (h : s.InMain t slot id) (k : Fin JIT_MAX_JOBS) :
    s.fdLedger.pend k = none := by
  simp only [fdLedger, h.life.quiet h.canRun h.call k, Option.bind_none]

theorem InMain.blockQuiet (h : s.InMain t slot id) (k : Fin JIT_MAX_JOBS) :
    s.blockLedger.pend k = none := by
  simp only [blockLedger, h.life.quiet h.canRun h.call k, Option.bind_none]

theorem InMain.fds_kept (hm : s.InMain t slot id) (h : s.Holds) :
    (s.fdLedger.setPend slot none).Kept := by
  rw [Ledger.setPend_none (hm.fdQuiet slot)]
  exact h.fds

theorem InMain.blocks_kept (hm : s.InMain t slot id) (h : s.Holds) :
    (s.blockLedger.setPend slot none).Kept := by
  rw [Ledger.setPend_none (hm.blockQuiet slot)]
  exact h.blocks

theorem ledgers_setTask {p : Option Pending} (hlife : s.LifeInv) (ht : t < s.taskTop)
    (hplace : (s.tasks t).place = .main slot id) :
    (s.setTask t ⟨true, .main slot id, p⟩).fdLedger = s.fdLedger.setPend slot (p.bind fdPend) ∧
      (s.setTask t ⟨true, .main slot id, p⟩).blockLedger =
        s.blockLedger.setPend slot (p.bind blockPend) :=
  ⟨hlife.fdLedger_setTask ht hplace _, hlife.blockLedger_setTask ht hplace _⟩

theorem Holds.setMain {p : Option Pending} (hlife : s.LifeInv) (ht : t < s.taskTop)
    (hplace : (s.tasks t).place = .main slot id)
    (hfds : (s.fdLedger.setPend slot (p.bind fdPend)).Kept)
    (hblocks : (s.blockLedger.setPend slot (p.bind blockPend)).Kept) (hknown : s.Known)
    (hlog : ∀ a ∈ s.log, a.Own) : (s.setTask t ⟨true, .main slot id, p⟩).Holds := by
  obtain ⟨hf, hb⟩ := ledgers_setTask (p := p) hlife ht hplace
  refine ⟨?_, ?_, hknown, hlog⟩
  · rw [hf]
    exact hfds
  · rw [hb]
    exact hblocks

theorem InMain.not_noted (hm : s.InMain t slot id) (h : s.Holds) {i : Fin APP_MAX_FDS}
    (hnot : ∀ j, s.fdLedger.tab slot j ≠ some i) : s.fdLedger.own i ≠ some (id, true) := by
  intro hown
  obtain ⟨k, hk, hname, hplace⟩ := h.fds.owned i id true hown
  have hks : k = slot := h.fds.names k slot hk hm.running (hname.trans hm.id_eq.symm)
  rcases hplace rfl with ⟨j, hj⟩ | ⟨sure, hp⟩
  · rw [hks] at hj
    exact hnot j hj
  · rw [hm.fdQuiet] at hp
    cases hp

omit [JitConfig] in
theorem jit_untrack_fd_eq (job : jit_job) (fd : Int) :
    (∃ j, job.fds j = fd ∧ jit_untrack_fd job fd =
      some { job with fds := Function.update job.fds j (-1) }) ∨
    (jit_untrack_fd job fd = none ∧ (0 ≤ fd → ∀ j, job.fds j ≠ fd)) := by
  unfold jit_untrack_fd
  split
  · exact Or.inr ⟨rfl, fun h => by omega⟩
  · cases hj : Fin.find? (fun i => decide (job.fds i = fd)) with
    | none =>
      right
      refine ⟨rfl, fun _ j => ?_⟩
      exact of_decide_eq_false (Fin.find?_eq_none_iff.mp hj j)
    | some j =>
      left
      refine ⟨j, ?_, rfl⟩
      rw [Fin.find?_eq_some_iff] at hj
      exact of_decide_eq_true hj.1

omit [JitConfig] in
theorem jit_track_fd_eq {job job' : jit_job} {fd : Int} (h : jit_track_fd job fd = some job') :
    ∃ j, job.fds j < 0 ∧ job' = { job with fds := Function.update job.fds j fd } := by
  unfold jit_track_fd at h
  split at h
  · cases h
  · obtain ⟨j, hj, rfl⟩ := Option.map_eq_some_iff.mp h
    rw [Fin.find?_eq_some_iff] at hj
    exact ⟨j, of_decide_eq_true hj.1, rfl⟩

omit [JitConfig] in
theorem jit_untrack_kptr_eq {job job' : jit_job} {p : Nat} (h : jit_untrack_kptr job p = some job') :
    p ≠ 0 ∧ ∃ j, job.kptrs j = p ∧ job' = { job with kptrs := Function.update job.kptrs j 0 } := by
  unfold jit_untrack_kptr at h
  split at h
  · cases h
  · rename_i hp
    obtain ⟨j, hj, rfl⟩ := Option.map_eq_some_iff.mp h
    rw [Fin.find?_eq_some_iff] at hj
    exact ⟨hp, j, of_decide_eq_true hj.1, rfl⟩

omit [JitConfig] in
theorem jit_track_kptr_eq {job job' : jit_job} {p : Nat} (h : jit_track_kptr job p = some job') :
    p ≠ 0 ∧ ∃ j, job.kptrs j = 0 ∧ job' = { job with kptrs := Function.update job.kptrs j p } := by
  unfold jit_track_kptr at h
  split at h
  · cases h
  · rename_i hp
    obtain ⟨j, hj, rfl⟩ := Option.map_eq_some_iff.mp h
    rw [Fin.find?_eq_some_iff] at hj
    exact ⟨hp, j, of_decide_eq_true hj.1, rfl⟩

theorem Holds.own_of (h : s.Holds) {fd : Int} {i : Fin APP_MAX_FDS} (hkey : fdKey fd = some i)
    (hown : s.OwnOrClosed id fd) :
    s.fdLedger.own i = none ∨ ∃ b, s.fdLedger.own i = some (id, b) := by
  unfold OwnOrClosed at hown
  rw [h.known.openerOf, hkey, Option.bind_some] at hown
  rcases hown with hnone | ⟨b, hb⟩
  · left
    simp only [fdLedger, hnone, openerName]
  · right
    refine ⟨b, ?_⟩
    simp only [fdLedger, hb, openerName]

theorem hold_eq {p : Nat} {noted : Bool} (hs : s.hold id p noted = some s') :
    p ≠ 0 ∧ s.holder p = none ∧ s'.fdLedger = s.fdLedger ∧
      s'.blockLedger = s.blockLedger.setOwn p (some (id, noted)) ∧ (s.Known → s'.Known) ∧
      s'.log = s.log := by
  unfold hold at hs
  split at hs
  · rename_i hp
    cases hs
    exact ⟨hp.1, hp.2, rfl, rfl, fun hk => hk, rfl⟩
  · cases hs

section

variable [BuildConfig]

theorem Holds.call_appfs_open (h : s.Holds) (hm : s.InMain t slot id) {heap : Heap}
    {path : CString} {flags : BitVec 32}
    (hs : s.call now t slot id (.appfs_open heap path flags) = some s') : s'.Holds := by
  rw [call.eq_def, hm.life.liveJob hm.canRun.1 hm.place] at hs
  dsimp only at hs
  split at hs
  · rename_i fd fs hopen
    have hs' := Option.some.inj hs
    rw [← hs']
    rcases appfs_open_fds hopen with ⟨hneg, hsame⟩ | ⟨i, e, hfree, hfd, hnew⟩
    · rw [if_pos hneg]
      exact h.of_same _ (SameOpen.of_fds hsame)
    · have hlife := hm.life.of_untouched (withFs_untouched s (.job id true) fs)
      rw [if_neg (by omega)]
      apply Holds.setMain hlife hm.canRun.1 hm.place ?_ ?_ (withFs_known h.known _ fs) h.log
      · rw [fdLedger_opened h.known hfree hnew]
        have hkey : (some (Pending.opened fd)).bind fdPend = some (i, true) := by
          rw [Option.bind_some, fdPend, hfd, fdKey_add]
          rfl
        rw [hkey, ← hm.id_eq]
        apply h.fds.take hm.running ?_ hm.fdQuiet
        simp only [fdLedger, (h.known i).mpr hfree, openerName]
      · rw [(withFs_untouched s _ fs).blockLedger]
        exact hm.blocks_kept h
  · cases hs

theorem Holds.call_appfs_close (h : s.Holds) (hm : s.InMain t slot id) {fd : Int}
    (hown : s.OwnOrClosed id fd) (hs : s.call now t slot id (.appfs_close fd) = some s') :
    s'.Holds := by
  rw [call.eq_def, hm.life.jit_current_job hm.canRun.1 hm.place] at hs
  dsimp only at hs
  have hs' := Option.some.inj hs
  rw [← hs']
  rcases jit_untrack_fd_eq (s.jit_jobs slot) fd with ⟨j, hj, hjob⟩ | ⟨hjob, hnot⟩
  · rw [hjob, Option.getD_some]
    have hworks : Works s (s.setJob slot { s.jit_jobs slot with
        fds := Function.update (s.jit_jobs slot).fds j (-1) }) := Works.setJob hm.running (by rfl)
    have hlife := hm.life.of_works hworks
    obtain ⟨hfds, hblocks⟩ := s.setFd_ledgers slot j (-1)
    apply Holds.setMain hlife hm.canRun.1 hm.place ?_ ?_ h.known h.log
    · rw [hfds, fdKey_neg (by decide), Option.bind_some, fdPend]
      cases hkey : fdKey fd with
      | none =>
        have htab : s.fdLedger.tab slot j = none := by
          simp only [fdLedger, hj, hkey]
        rw [Ledger.setTab_none htab]
        exact hm.fds_kept h
      | some i =>
        apply h.fds.unnote ?_ (hm.fdQuiet slot)
        simp only [fdLedger, hj, hkey]
    · rw [hblocks]
      exact hm.blocks_kept h
  · rw [hjob, Option.getD_none]
    have hself : s.setJob slot (s.jit_jobs slot) = s := by
      simp only [setJob, Function.update_eq_self]
    rw [hself]
    apply Holds.setMain hm.life hm.canRun.1 hm.place ?_ ?_ h.known h.log
    · rw [Option.bind_some, fdPend]
      cases hkey : fdKey fd with
      | none => exact hm.fds_kept h
      | some i =>
        have hfd := fdKey_eq hkey
        have hfree := hm.not_noted h (i := i) (by
          intro j hj
          exact hnot (by omega) j ((fdKey_eq hj).trans hfd.symm))
        apply h.fds.expect hm.running ?_ (hm.fdQuiet slot)
        rcases h.own_of hkey hown with hnone | ⟨b, hb⟩
        · exact Or.inl hnone
        · cases b with
          | false =>
            right
            rw [hb, ← hm.id_eq]
            rfl
          | true => exact absurd hb hfree
    · exact hm.blocks_kept h

theorem Holds.call_appfs_read (h : s.Holds) (hm : s.InMain t slot id) {fd : Int} {size : Nat}
    (hown : s.OwnOrClosed id fd) (hs : s.call now t slot id (.appfs_read fd size) = some s') :
    s'.Holds := by
  rw [call.eq_def, hm.life.liveJob hm.canRun.1 hm.place] at hs
  dsimp only at hs
  split at hs
  · rename_i hread
    have hs' := Option.some.inj hs
    rw [← hs']
    exact (h.touch hown).of_same _ (appfs_read_open hread)
  · cases hs

theorem Holds.call_appfs_write (h : s.Holds) (hm : s.InMain t slot id) {heap : Heap} {fd : Int}
    {data : List UInt8} (hown : s.OwnOrClosed id fd)
    (hs : s.call now t slot id (.appfs_write heap fd data) = some s') : s'.Holds := by
  rw [call.eq_def, hm.life.liveJob hm.canRun.1 hm.place] at hs
  dsimp only at hs
  split at hs
  · rename_i hwrite
    have hs' := Option.some.inj hs
    rw [← hs']
    exact (h.touch hown).of_same _ (appfs_write_open hwrite)
  · cases hs

theorem Holds.call_kmalloc (h : s.Holds) (hm : s.InMain t slot id) {block : Option Nat}
    (hs : s.call now t slot id (.kmalloc block) = some s') : s'.Holds := by
  rw [call.eq_def, hm.life.liveJob hm.canRun.1 hm.place] at hs
  cases block with
  | none =>
    have hs' := Option.some.inj hs
    rw [← hs']
    exact h
  | some p =>
    obtain ⟨s₁, hhold, rfl⟩ := Option.map_eq_some_iff.mp hs
    obtain ⟨hp, hfree, hfds, hblocks, hknown, hlog⟩ := hold_eq hhold
    have hheld := hold_untouched hhold
    apply Holds.setMain (hm.life.of_untouched hheld) ?_ ?_ ?_ ?_ (hknown h.known) (hlog ▸ h.log)
    · rw [hheld.taskTop]
      exact hm.canRun.1
    · rw [hheld.tasks]
      exact hm.place
    · rw [hfds]
      exact hm.fds_kept h
    · have hpend : (some (Pending.allocated p)).bind blockPend = some (p, true) := by
        rw [Option.bind_some, blockPend, blockKey, if_neg hp]
        rfl
      rw [hblocks, hpend, ← hm.id_eq]
      exact h.blocks.take hm.running hfree hm.blockQuiet

theorem Holds.call_kfree (h : s.Holds) (hm : s.InMain t slot id) {p : Nat}
    (hs : s.call now t slot id (.kfree p) = some s') : s'.Holds := by
  rw [call.eq_def, hm.life.jit_current_job hm.canRun.1 hm.place] at hs
  dsimp only at hs
  split at hs
  · cases hs
    exact h
  · rename_i job hjob
    obtain ⟨hp, j, hj, rfl⟩ := jit_untrack_kptr_eq hjob
    have hs' := Option.some.inj hs
    rw [← hs']
    have hworks : Works s (s.setJob slot { s.jit_jobs slot with
        kptrs := Function.update (s.jit_jobs slot).kptrs j 0 }) := Works.setJob hm.running (by rfl)
    have hlife := hm.life.of_works hworks
    obtain ⟨hblocks, hfds⟩ := s.setKptr_ledgers slot j 0
    apply Holds.setMain hlife hm.canRun.1 hm.place ?_ ?_ h.known h.log
    · rw [hfds]
      exact hm.fds_kept h
    · have hpend : (some (Pending.freeing p)).bind blockPend = some (p, true) := by
        rw [Option.bind_some, blockPend, blockKey, if_neg hp]
        rfl
      rw [hblocks, hpend]
      apply h.blocks.unnote ?_ (hm.blockQuiet slot)
      simp only [blockLedger, hj, blockKey, if_neg hp]

omit [BuildConfig] in
theorem InMain.of_untouched (hm : s.InMain t slot id) (hu : Untouched s s') :
    s'.InMain t slot id := by
  refine ⟨hm.life.of_untouched hu, ?_, ?_, ?_⟩
  · unfold CanRun
    rw [hu.taskTop, hu.tasks]
    exact hm.canRun
  · rw [hu.tasks]
    exact hm.place
  · rw [hu.tasks]
    exact hm.call

theorem Holds.opened (h : s.Holds) (hm : s.InMain t slot id) {heap : Heap} {path : CString}
    {flags : BitVec 32} {fd : Int} {fs : AppFs}
    (hopen : appfs_open heap s.fs path flags = .returns fd fs) :
    (s.withFs (.job id false) fs).Holds ∧ (0 ≤ fd → ∃ i, fdKey fd = some i ∧
      (s.withFs (.job id false) fs).opener i = some (.job id false)) := by
  rcases appfs_open_fds hopen with ⟨hneg, hsame⟩ | ⟨i, e, hfree, hfd, hnew⟩
  · exact ⟨h.of_same _ (SameOpen.of_fds hsame), fun hnonneg => by omega⟩
  · refine ⟨⟨?_, ?_, withFs_known h.known _ fs, h.log⟩, fun _ => ⟨i, ?_, ?_⟩⟩
    · rw [fdLedger_opened h.known hfree hnew, ← hm.id_eq]
      apply h.fds.lend hm.running ?_ hm.fdQuiet
      simp only [fdLedger, (h.known i).mpr hfree, openerName]
    · rw [(withFs_untouched s _ fs).blockLedger]
      exact h.blocks
    · rw [hfd, fdKey_add]
    · rw [withFs_opened h.known _ hfree hnew, Function.update_self]

theorem Holds.call_open (h : s.Holds) (hm : s.InMain t slot id) {heap : Heap} {path : CString}
    {flags : BitVec 32} (hs : s.call now t slot id (.open heap path flags) = some s') :
    s'.Holds := by
  rw [call.eq_def] at hs
  dsimp only at hs
  split at hs
  · rename_i hopen
    have hs' := Option.some.inj hs
    rw [← hs']
    exact (h.opened hm hopen).1
  · cases hs

theorem Holds.closed (h : s.Holds) (hm : s.InMain t slot id) {fd : Int} {r : Int × JitSys}
    (hown : s.OwnOrClosed id fd) (hnot : ∀ j, (s.jit_jobs slot).fds j ≠ fd)
    (hs : s.close id fd now = some r) : r.2.Holds := by
  obtain ⟨hknown, hlog, hblocks, hfds⟩ := h.close hown hs
  refine ⟨?_, ?_, hknown, hlog⟩
  · rcases hfds with ⟨_, hsame⟩ | ⟨i, b, hkey, _, hi, hback⟩
    · rw [hsame]
      exact h.fds
    · have hfd := fdKey_eq hkey
      rw [hback]
      refine h.fds.handBack (k := slot) ?_ hm.running ?_ hm.fdQuiet
      · intro a b' ha
        rw [hi] at ha
        cases ha
        exact hm.id_eq
      · intro j hj
        exact hnot j ((fdKey_eq hj).trans hfd.symm)
  · rw [hblocks]
    exact h.blocks

theorem Holds.call_close (h : s.Holds) (hm : s.InMain t slot id) {fd : Int}
    (htidy : s.CallTidy slot id (.close fd))
    (hs : s.call now t slot id (.close fd) = some s') : s'.Holds := by
  rw [call.eq_def] at hs
  obtain ⟨r, hr, rfl⟩ := Option.map_eq_some_iff.mp hs
  exact h.closed hm htidy.1 htidy.2 hr

omit [BuildConfig] in
theorem Holds.freed (h : s.Holds) (hm : s.InMain t slot id) {p : Nat}
    (hown : p ≠ 0 → s.holder p = some (id, false)) : (s.free id p).Holds := by
  by_cases hp : p = 0
  · have hself : s.free id p = s := by
      rw [free, if_pos hp]
    rw [hself]
    exact h
  · obtain ⟨hfds, hblocks, hlog⟩ := free_ledgers s id hp
    have hholder := hown hp
    refine ⟨?_, ?_, ?_, ?_⟩
    · rw [hfds]
      exact h.fds
    · rw [hblocks]
      refine h.blocks.handBack (k := slot) ?_ hm.running
        (h.blocks.not_noted (by simp [blockLedger, hholder]) slot) hm.blockQuiet
      intro a b ha
      simp only [blockLedger, hholder] at ha
      cases ha
      exact hm.id_eq
    · unfold free
      rw [if_neg hp]
      exact h.known
    · intro a ha
      rw [hlog, hholder] at ha
      rcases List.mem_cons.mp ha with rfl | ha
      · rfl
      · exact h.log a ha

theorem Holds.call_fclose (h : s.Holds) (hm : s.InMain t slot id) {p : Nat}
    (htidy : s.CallTidy slot id (.fclose p))
    (hs : s.call now t slot id (.fclose p) = some s') : s'.Holds := by
  rw [call.eq_def] at hs
  dsimp only at hs
  split at hs
  · cases hs
    exact h
  · rename_i hp
    obtain ⟨hholder, hown, hnot⟩ := htidy hp
    obtain ⟨r, hr, rfl⟩ := Option.map_eq_some_iff.mp hs
    have hclosed := h.closed hm hown hnot hr
    apply hclosed.freed (hm.of_untouched (close_untouched hr))
    intro _
    have hblocks := congrFun (congrArg Ledger.own (h.close hown hr).2.2.1) p
    exact hblocks.trans hholder

theorem Holds.call_fopen (h : s.Holds) (hm : s.InMain t slot id) {heap : Heap} {path : CString}
    {mode : List UInt8} {block : Option Nat}
    (hs : s.call now t slot id (.fopen heap path mode block) = some s') : s'.Holds := by
  rw [call.eq_def] at hs
  dsimp only at hs
  unfold fopen at hs
  split at hs
  · cases hs
    exact h
  · split at hs
    · rename_i fd fs hopen
      obtain ⟨hopened, hfd⟩ := h.opened hm hopen
      have hm₁ := hm.of_untouched (withFs_untouched s (.job id false) fs)
      dsimp only at hs
      split at hs
      · cases hs
        exact hopened
      · rename_i hnonneg
        obtain ⟨i, hkey, hopener⟩ := hfd (by omega)
        generalize s.withFs (.job id false) fs = s₁ at hs hopened hm₁ hopener
        split at hs
        · rename_i rc fs' hseek
          have hsame : SameOpen s₁.fs fs' := by
            split at hseek
            · exact appfs_seek_open hseek
            · cases hseek
              exact SameOpen.of_fds rfl
          have hsought := hopened.of_same (.job id false) hsame
          have hm₂ := hm₁.of_untouched (withFs_untouched s₁ (.job id false) fs')
          have hopener₂ := withFs_same hopened.known (.job id false) hsame
          generalize s₁.withFs (.job id false) fs' = s₂ at hs hsought hm₂ hopener₂
          rw [← hopener₂] at hopener
          have hown : s₂.OwnOrClosed id fd := by
            unfold OwnOrClosed
            rw [hsought.known.openerOf, hkey, Option.bind_some]
            exact Or.inr ⟨false, hopener⟩
          have hnot : ∀ j, (s₂.jit_jobs slot).fds j ≠ fd := by
            intro j hj
            have hnoted := (hsought.fds.noted slot j i (by
              simp only [fdLedger, hj, hkey])).2
            simp only [fdLedger, hopener, openerName] at hnoted
            cases hnoted
          split at hs
          · obtain ⟨r, hr, rfl⟩ := Option.map_eq_some_iff.mp hs
            exact hsought.closed hm₂ hown hnot hr
          · split at hs
            · obtain ⟨r, hr, rfl⟩ := Option.map_eq_some_iff.mp hs
              exact hsought.closed hm₂ hown hnot hr
            · obtain ⟨s₃, hhold, rfl⟩ := Option.map_eq_some_iff.mp hs
              obtain ⟨_, hfree, hfds, hblocks, hknown, hlog⟩ := hold_eq hhold
              have hlent := hsought.blocks.lend hm₂.running hfree hm₂.blockQuiet
              refine ⟨?_, ?_, hknown hsought.known, fun a ha => hsought.log a (hlog ▸ ha)⟩
              · exact hfds.symm ▸ hsought.fds
              · have hname : s₂.blockLedger.name slot = id := hm₂.id_eq
                rw [hname, ← hblocks] at hlent
                exact hlent
        · cases hs
    · cases hs

theorem Holds.of_call (h : s.Holds) (hm : s.InMain t slot id) {c : JitCall}
    (htidy : s.CallTidy slot id c) (hs : s.call now t slot id c = some s') : s'.Holds := by
  cases c with
  | appfs_open => exact h.call_appfs_open hm hs
  | appfs_close => exact h.call_appfs_close hm htidy hs
  | appfs_read => exact h.call_appfs_read hm htidy hs
  | appfs_write => exact h.call_appfs_write hm htidy hs
  | kmalloc => exact h.call_kmalloc hm hs
  | kfree => exact h.call_kfree hm hs
  | «open» => exact h.call_open hm hs
  | close => exact h.call_close hm htidy hs
  | fopen => exact h.call_fopen hm hs
  | fclose => exact h.call_fclose hm htidy hs

/-! ## The rest of a call -/

omit [BuildConfig] in
/-- The task of a job is in the middle of a call, and no other is. -/
structure InCall (s : JitSys) (t : Nat) (slot : Fin JIT_MAX_JOBS) (id : Nat) (p : Pending) :
    Prop where
  life : s.LifeInv
  canRun : s.CanRun t
  place : (s.tasks t).place = .main slot id
  call : (s.tasks t).call = some p

/-- What a job may do at the end of a call: close what is its own or not open, and what it notes
without an error. -/
def SettleTidy (s : JitSys) (now : Nat) (slot : Fin JIT_MAX_JOBS) (id : Nat) : Pending → Prop
  | .opened fd => jit_track_fd (s.jit_jobs slot) fd = none →
    ∃ fs, appfs_close s.fs fd now = .returns 0 fs
  | .closing fd => s.OwnOrClosed id fd ∧ (s.openerOf fd = some (.job id true) →
    ∃ fs, appfs_close s.fs fd now = .returns 0 fs)
  | _ => True

section

variable {p : Pending}

omit [BuildConfig]

theorem InCall.running (h : s.InCall t slot id p) : (s.jit_jobs slot).state = .running :=
  (h.life.main h.canRun.1 h.place).2.2.1

theorem InCall.id_eq (h : s.InCall t slot id p) : (s.jit_jobs slot).id = id :=
  (h.life.main h.canRun.1 h.place).2.1

theorem InCall.pendingOf (h : s.InCall t slot id p) : s.pendingOf slot = some p := by
  have htask := (h.life.main h.canRun.1 h.place).1
  rw [pendingOf_running h.running, htask, Int.toNat_natCast, h.call]

theorem InCall.quiet (h : s.InCall t slot id p) {k : Fin JIT_MAX_JOBS} (hk : k ≠ slot) :
    s.pendingOf k = none := by
  have htask := (h.life.main h.canRun.1 h.place).1
  by_cases hrun : (s.jit_jobs k).state = .running
  · rw [pendingOf_running hrun]
    rcases h.life.job k with ⟨_, hidle⟩ | ⟨t', ht', htask', _⟩
    · exact absurd (Or.inr hrun) hidle
    · rw [htask', Int.toNat_natCast]
      have hne := h.life.task_ne hk.symm htask
      exact Option.isNone_iff_eq_none.mp (h.canRun.2.2 t' ht' (by omega))
  · exact pendingOf_idle hrun

theorem InCall.fdLedger_pend (h : s.InCall t slot id p) : s.fdLedger.pend slot = fdPend p := by
  simp only [fdLedger, h.pendingOf, Option.bind_some]

theorem InCall.blockLedger_pend (h : s.InCall t slot id p) : s.blockLedger.pend slot = blockPend p := by
  simp only [blockLedger, h.pendingOf, Option.bind_some]

theorem InCall.of_untouched (h : s.InCall t slot id p) (hu : Untouched s s') :
    s'.InCall t slot id p := by
  refine ⟨h.life.of_untouched hu, ?_, ?_, ?_⟩
  · unfold CanRun
    rw [hu.taskTop, hu.tasks]
    exact h.canRun
  · rw [hu.tasks]
    exact h.place
  · rw [hu.tasks]
    exact h.call

theorem Holds.endCall (hm : s.InCall t slot id p)
    (hfds : (s.fdLedger.setPend slot none).Kept) (hblocks : (s.blockLedger.setPend slot none).Kept)
    (hknown : s.Known) (hlog : ∀ a ∈ s.log, a.Own) :
    (s.setTask t ⟨true, .main slot id, none⟩).Holds :=
  Holds.setMain hm.life hm.canRun.1 hm.place hfds hblocks hknown hlog

theorem InCall.fdBack (hm : s.InCall t slot id p) (h : s.Holds) {i : Fin APP_MAX_FDS} {b : Bool}
    (hpend : ∃ sure, fdPend p = some (i, sure)) (hi : s.fdLedger.own i = some (id, b)) :
    ((s.fdLedger.setOwn i none).setPend slot none).Kept := by
  obtain ⟨sure, hsure⟩ := hpend
  rw [← hm.fdLedger_pend] at hsure
  obtain ⟨_, hnot, _, _⟩ := h.fds.pending slot i sure hsure
  apply h.fds.giveBack ?_ hm.running hnot ?_ ?_
  · intro a b' ha
    rw [hi] at ha
    cases ha
    exact hm.id_eq
  · intro k' hk'
    simp only [fdLedger, hm.quiet hk', Option.bind_none]
  · intro r' sure' hp
    rw [hsure] at hp
    cases hp
    rfl

theorem InCall.blockBack (hm : s.InCall t slot id p) (h : s.Holds) {b : Nat}
    (hpend : blockPend p = some (b, true)) :
    ((s.blockLedger.setOwn b none).setPend slot none).Kept ∧ s.holder b = some (id, true) := by
  rw [← hm.blockLedger_pend] at hpend
  obtain ⟨_, hnot, _, hsure⟩ := h.blocks.pending slot b true hpend
  have hown : s.holder b = some (id, true) := by
    have hname : s.blockLedger.name slot = id := hm.id_eq
    rw [← hname]
    exact hsure rfl
  refine ⟨?_, hown⟩
  apply h.blocks.giveBack ?_ hm.running hnot ?_ ?_
  · intro a b' ha
    simp only [blockLedger, hown] at ha
    cases ha
    exact hm.id_eq
  · intro k' hk'
    simp only [blockLedger, hm.quiet hk', Option.bind_none]
  · intro r' sure' hp
    rw [hpend] at hp
    cases hp
    rfl

theorem Holds.settle_free (h : s.Holds) (hm : s.InCall t slot id p) {b : Nat}
    (hpend : blockPend p = (blockKey b).map (·, true)) (hfd : fdPend p = none) :
    ((s.free id b).setTask t ⟨true, .main slot id, none⟩).Holds := by
  have hquiet : s.fdLedger.pend slot = none := by
    rw [hm.fdLedger_pend, hfd]
  have hfds : (s.fdLedger.setPend slot none).Kept := by
    rw [Ledger.setPend_none hquiet]
    exact h.fds
  have hm' := hm.of_untouched (free_untouched s id b)
  by_cases hb : b = 0
  · have hself : s.free id b = s := by
      rw [free, if_pos hb]
    have hblock : s.blockLedger.pend slot = none := by
      rw [hm.blockLedger_pend, hpend, blockKey, if_pos hb]
      rfl
    rw [hself]
    apply Holds.endCall hm hfds ?_ h.known h.log
    rw [Ledger.setPend_none hblock]
    exact h.blocks
  · obtain ⟨hfds', hblocks', hlog⟩ := free_ledgers s id hb
    obtain ⟨hback, hown⟩ := hm.blockBack h (b := b) (by
      rw [hpend, blockKey, if_neg hb]
      rfl)
    apply Holds.endCall hm' ?_ ?_ ?_ ?_
    · rw [hfds']
      exact hfds
    · rw [hblocks']
      exact hback
    · unfold free
      rw [if_neg hb]
      exact h.known
    · intro a ha
      rw [hlog, hown] at ha
      rcases List.mem_cons.mp ha with rfl | ha
      · rfl
      · exact h.log a ha

end

theorem Holds.settle_close (h : s.Holds) {p : Pending} (hm : s.InCall t slot id p) {fd : Int}
    {sure : Bool} (hpend : fdPend p = (fdKey fd).map (·, sure)) (hblock : blockPend p = none)
    (hown : s.OwnOrClosed id fd) (hok : s.openerOf fd = some (.job id true) →
      ∃ fs, appfs_close s.fs fd now = .returns 0 fs) {r : Int × JitSys}
    (hs : s.close id fd now = some r) : (r.2.setTask t ⟨true, .main slot id, none⟩).Holds := by
  obtain ⟨hknown, hlog, hblocks, hfds⟩ := h.close hown hs
  have hm' := hm.of_untouched (close_untouched hs)
  apply Holds.endCall hm' ?_ ?_ hknown hlog
  · rcases hfds with ⟨hrc, hsame⟩ | ⟨i, b, hkey, _, hi, hback⟩
    · rw [hsame]
      cases hkey : fdKey fd with
      | none =>
        have hquiet : s.fdLedger.pend slot = none := by
          rw [hm.fdLedger_pend, hpend, hkey]
          rfl
        rw [Ledger.setPend_none hquiet]
        exact h.fds
      | some i =>
        have hp : s.fdLedger.pend slot = some (i, sure) := by
          rw [hm.fdLedger_pend, hpend, hkey]
          rfl
        apply h.fds.forget hp
        · intro hi
          have hname : s.fdLedger.name slot = id := hm.id_eq
          rw [hname] at hi
          have hopener : s.openerOf fd = some (.job id true) := by
            rw [h.known.openerOf, hkey, Option.bind_some]
            have hi' : openerName (s.opener i) = some (id, true) := hi
            unfold openerName at hi'
            split at hi'
            · cases hi'
              assumption
            · cases hi'
          obtain ⟨fs, hclose⟩ := hok hopener
          unfold JitSys.close at hs
          rw [hclose] at hs
          cases hs
          exact hrc rfl
    · rw [hback]
      apply hm.fdBack h ⟨sure, ?_⟩ hi
      rw [hpend, hkey]
      rfl
  · rw [hblocks]
    have hquiet : s.blockLedger.pend slot = none := by
      rw [hm.blockLedger_pend, hblock]
    rw [Ledger.setPend_none hquiet]
    exact h.blocks

theorem Holds.of_settle (h : s.Holds) {p : Pending} (hm : s.InCall t slot id p)
    (htidy : s.SettleTidy now slot id p) (hs : s.settle now t slot id p = some s') : s'.Holds := by
  have hcurrent := hm.life.jit_current_job hm.canRun.1 hm.place
  cases p with
  | opened fd =>
    rw [settle, hcurrent, Option.bind_some] at hs
    have hpend : s.fdLedger.pend slot = (fdKey fd).map (·, true) := hm.fdLedger_pend
    have hblock : s.blockLedger.pend slot = none := hm.blockLedger_pend
    cases htrack : jit_track_fd (s.jit_jobs slot) fd with
    | none =>
      rw [htrack] at hs
      obtain ⟨r, hr, rfl⟩ := Option.map_eq_some_iff.mp hs
      obtain ⟨fs, hclose⟩ := htidy htrack
      apply h.settle_close hm rfl rfl ?_ (fun _ => ⟨fs, hclose⟩) hr
      unfold OwnOrClosed
      rw [h.known.openerOf]
      cases hkey : fdKey fd with
      | none => exact Or.inl rfl
      | some i =>
        rw [hkey] at hpend
        have hown := (h.fds.pending slot i true hpend).2.2.2 rfl
        have hname : s.fdLedger.name slot = id := hm.id_eq
        rw [hname] at hown
        have hown' : openerName (s.opener i) = some (id, true) := hown
        right
        refine ⟨true, ?_⟩
        rw [Option.bind_some]
        unfold openerName at hown'
        split at hown'
        · cases hown'
          assumption
        · cases hown'
    | some job =>
      rw [htrack] at hs
      cases hs
      obtain ⟨j, hj, rfl⟩ := jit_track_fd_eq htrack
      have hworks : Works s (s.setJob slot { s.jit_jobs slot with
          fds := Function.update (s.jit_jobs slot).fds j fd }) :=
        Works.setJob hm.running (by rfl)
      obtain ⟨hfds, hblocks⟩ := s.setFd_ledgers slot j fd
      have htab : s.fdLedger.tab slot j = none := fdKey_neg hj
      apply Holds.setMain (hm.life.of_works hworks) hm.canRun.1 hm.place ?_ ?_ h.known h.log
      · rw [hfds, Option.bind_none]
        cases hkey : fdKey fd with
        | none =>
          rw [hkey] at hpend
          rw [Ledger.setTab_none htab, Ledger.setPend_none hpend]
          exact h.fds
        | some i =>
          rw [hkey] at hpend
          exact h.fds.note hpend htab
      · rw [hblocks, Option.bind_none, Ledger.setPend_none hblock]
        exact h.blocks
  | closing fd =>
    obtain ⟨r, hr, rfl⟩ := Option.map_eq_some_iff.mp hs
    exact h.settle_close hm rfl rfl htidy.1 htidy.2 hr
  | allocated b =>
    rw [settle, hcurrent, Option.bind_some] at hs
    cases htrack : jit_track_kptr (s.jit_jobs slot) b with
    | none =>
      rw [htrack] at hs
      cases hs
      exact h.settle_free hm rfl rfl
    | some job =>
      rw [htrack] at hs
      cases hs
      obtain ⟨hb, j, hj, rfl⟩ := jit_track_kptr_eq htrack
      have hworks : Works s (s.setJob slot { s.jit_jobs slot with
          kptrs := Function.update (s.jit_jobs slot).kptrs j b }) :=
        Works.setJob hm.running (by rfl)
      obtain ⟨hblocks, hfds⟩ := s.setKptr_ledgers slot j b
      have hkey : blockKey b = some b := by
        rw [blockKey, if_neg hb]
      have hpend : s.blockLedger.pend slot = some (b, true) := by
        rw [hm.blockLedger_pend, blockPend, hkey]
        rfl
      have htab : s.blockLedger.tab slot j = none := by
        simp only [blockLedger, hj]
        rfl
      have hquiet : s.fdLedger.pend slot = none := hm.fdLedger_pend
      apply Holds.setMain (hm.life.of_works hworks) hm.canRun.1 hm.place ?_ ?_ h.known h.log
      · rw [hfds, Option.bind_none, Ledger.setPend_none hquiet]
        exact h.fds
      · rw [hblocks, hkey, Option.bind_none]
        exact h.blocks.note hpend htab
  | freeing b =>
    cases hs
    exact h.settle_free hm rfl rfl

end

end JitSys

end vibeos.tcc_glue

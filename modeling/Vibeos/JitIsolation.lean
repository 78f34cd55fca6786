-- Whole runs: the jobs give back what they hold before they end, and use only what is their own.
import Vibeos.JitHoldStops

namespace vibeos.tcc_glue

open vibeos.fs

section

variable [JitConfig]

namespace JitSys

variable {s s' : JitSys} {slot : Fin JIT_MAX_JOBS} {t id now : Nat}

/-! ## Steps that leave what the jobs hold alone -/

/-- Jobs that run stay as they are, and a job that begins to run has the tables that it had. -/
structure Frame (s s' : JitSys) : Prop where
  aside : Aside s s'
  kept : ∀ k, (s.jit_jobs k).state = .running → s'.jit_jobs k = s.jit_jobs k
  begun : ∀ k, (s'.jit_jobs k).state = .running →
    (s'.jit_jobs k).fds = (s.jit_jobs k).fds ∧ (s'.jit_jobs k).kptrs = (s.jit_jobs k).kptrs

theorem LifeInv.empty_tabs (h : s.LifeInv) {k : Fin JIT_MAX_JOBS}
    (hk : (s.jit_jobs k).state ≠ .running) :
    (∀ j, s.fdLedger.tab k j = none) ∧ ∀ j, s.blockLedger.tab k j = none := by
  obtain ⟨hfds, hkptrs⟩ := h.released k hk
  constructor
  · intro j
    simp only [fdLedger, hfds j]
    exact fdKey_neg (by decide)
  · intro j
    simp only [blockLedger, hkptrs j]
    rfl

theorem Holds.of_frame (h : s.Holds) (hl : s.LifeInv) (hl' : s'.LifeInv) (hy : s.AtYield)
    (hf : Frame s s') : s'.Holds := by
  have hquiet := hl.quiet_of_atYield hy
  have hquiet' := hl'.quiet_of_atYield (hf.aside.atYield hy)
  have hdead : ∀ k, (s.jit_jobs k).state ≠ .running →
      (∀ j, s'.fdLedger.tab k j = none) ∧ ∀ j, s'.blockLedger.tab k j = none := by
    intro k hk
    by_cases hk' : (s'.jit_jobs k).state = .running
    · obtain ⟨hfds, hkptrs⟩ := hf.begun k hk'
      obtain ⟨hold, hold'⟩ := hl.empty_tabs hk
      constructor
      · intro j
        rw [← hold j]
        simp only [fdLedger, hfds]
      · intro j
        rw [← hold' j]
        simp only [blockLedger, hkptrs]
    · exact hl'.empty_tabs hk'
  refine ⟨?_, ?_, ?_, ?_⟩
  · apply h.fds.frame ?_ ?_ ?_ hl'.names
    · simp only [fdLedger, hf.aside.opener]
    · intro k hk
      have hsame := hf.kept k hk
      simp only [fdLedger, hsame, hquiet, hquiet']
      exact ⟨hk, trivial, trivial, trivial⟩
    · intro k hk
      refine ⟨(hdead k hk).1, ?_⟩
      simp only [fdLedger, hquiet', Option.bind_none]
  · apply h.blocks.frame ?_ ?_ ?_ hl'.names
    · simp only [blockLedger, hf.aside.holder]
    · intro k hk
      have hsame := hf.kept k hk
      simp only [blockLedger, hsame, hquiet, hquiet']
      exact ⟨hk, trivial, trivial, trivial⟩
    · intro k hk
      refine ⟨(hdead k hk).2, ?_⟩
      simp only [blockLedger, hquiet', Option.bind_none]
  · unfold Known
    rw [hf.aside.fs, hf.aside.opener]
    exact h.known
  · rw [hf.aside.log]
    exact h.log

theorem Frame.of_jobs (ha : Aside s s') (hjobs : s'.jit_jobs = s.jit_jobs) : Frame s s' := by
  refine ⟨ha, ?_, ?_⟩
  · intro k _
    rw [hjobs]
  · intro k _
    rw [hjobs]
    exact ⟨rfl, rfl⟩

theorem Frame.of_slot {job : jit_job} (ha : Aside s s')
    (hjobs : s'.jit_jobs = Function.update s.jit_jobs slot job)
    (hslot : (s.jit_jobs slot).state ≠ .running) (hidle : job.state ≠ .running) : Frame s s' := by
  refine ⟨ha, ?_, ?_⟩
  · intro k hk
    have hne : k ≠ slot := by
      rintro rfl
      exact hslot hk
    rw [hjobs, Function.update_of_ne hne]
  · intro k hk
    have hne : k ≠ slot := by
      rintro rfl
      rw [hjobs, Function.update_self] at hk
      exact hidle hk
    rw [hjobs, Function.update_of_ne hne]
    exact ⟨rfl, rfl⟩

theorem Aside.create {r : Nat × JitSys} (h : s.task_create slot = some r) : Aside s r.2 := by
  unfold task_create at h
  split at h
  · cases h
  · cases h
    refine ⟨rfl, rfl, rfl, rfl, ?_⟩
    intro t ht hlt
    dsimp only at hlt ⊢
    by_cases heq : t = s.taskTop
    · rw [heq, setTask_tasks, Function.update_self]
    · rw [setTask_tasks, Function.update_of_ne heq]
      exact ht (by omega)

theorem Aside.alloc {bg : Bool} {owner_win_id : Int} {s₀ : JitSys}
    (h : s.jit_alloc_job bg owner_win_id = some (slot, s₀)) : Aside s s₀ := by
  unfold jit_alloc_job at h
  obtain ⟨slot', _, heq⟩ := Option.map_eq_some_iff.mp h
  cases heq
  exact ⟨rfl, rfl, rfl, rfl, fun _ h => h⟩

section

variable [BuildConfig]

theorem cleanup_empty (hfds : ∀ j, (s.jit_jobs slot).fds j = -1)
    (hkptrs : ∀ j, (s.jit_jobs slot).kptrs j = 0) (hs : jit_job_cleanup now s slot = some s') :
    Aside s s' := by
  have hclose : ∀ (fds : List Int), (∀ fd ∈ fds, fd = -1) → ∀ id, closeAll now id fds s = some s := by
    intro fds
    induction fds with
    | nil => exact fun _ _ => rfl
    | cons fd fds ih =>
      intro hall id
      rw [closeAll, hall fd List.mem_cons_self, if_neg (by decide)]
      exact ih (fun fd' h => hall fd' (List.mem_cons_of_mem _ h)) id
  have hfree : ∀ (ps : List Nat), (∀ p ∈ ps, p = 0) → ∀ id, freeAll id ps s = s := by
    intro ps
    induction ps with
    | nil => exact fun _ _ => rfl
    | cons p ps ih =>
      intro hall id
      rw [freeAll, hall p List.mem_cons_self, if_neg (by decide)]
      exact ih (fun p' h => hall p' (List.mem_cons_of_mem _ h)) id
  unfold jit_job_cleanup jit_cleanup_resources at hs
  dsimp only at hs
  have hps := hfree (List.ofFn (s.jit_jobs slot).kptrs) (by simpa [List.mem_ofFn] using hkptrs)
    (s.jit_jobs slot).id
  rw [hclose _ (by simpa [List.mem_ofFn] using hfds), Option.map_some, hps, Option.map_some] at hs
  rw [← Option.some.inj hs]
  exact (Aside.setJob s slot _).trans (Aside.setJob _ _ _)

theorem Aside.finish {job : jit_job} (hfds : ∀ j, job.fds j = -1) (hkptrs : ∀ j, job.kptrs j = 0)
    (hs : finish now (s.setJob slot job) t slot = some s') : Aside s s' := by
  unfold JitSys.finish at hs
  obtain ⟨s₁, hclean, heq⟩ := Option.map_eq_some_iff.mp hs
  have ha := (Aside.setJob s slot job).trans
    (cleanup_empty (by simpa using hfds) (by simpa using hkptrs) hclean)
  apply ha.trans
  rw [← heq]
  dsimp only
  split
  · exact (Aside.wake _ _).trans (Aside.setTask fun _ => rfl)
  · exact Aside.setTask fun _ => rfl

theorem LifeInv.resume_frame (h : s.LifeInv) {valid : Bool} (ht : t < s.taskTop)
    (hs : s.resume now t valid = some s') : Frame s s' := by
  have hmoves : ∀ place runnable, Frame s (s.setTask t ⟨runnable, place, none⟩) :=
    fun _ _ => Frame.of_jobs (Aside.setTask fun _ => rfl) rfl
  unfold resume at hs
  split at hs
  · split at hs
    · cases hs
      exact hmoves _ _
    · cases hs
      exact hmoves _ _
  · rename_i slot hplace
    unfold jit_task_entry_idx at hs
    dsimp only at hs
    split at hs
    · cases hs
      exact hmoves _ _
    · rename_i hready
      rw [not_not] at hready
      have hslot : (s.jit_jobs slot).state ≠ .running := by
        rw [hready]
        decide
      split at hs
      · cases hs
        exact hmoves _ _
      · split at hs
        · cases hs
          refine ⟨(Aside.setJob _ _ _).trans (Aside.setTask fun _ => rfl), ?_, ?_⟩
          · intro k hk
            have hne : k ≠ slot := by
              rintro rfl
              exact hslot hk
            rw [setTask_jobs, setJob_jobs, Function.update_of_ne hne]
          · intro k _
            rw [setTask_jobs, setJob_jobs]
            by_cases hk : k = slot
            · rw [hk, Function.update_self]
              exact ⟨rfl, rfl⟩
            · rw [Function.update_of_ne hk]
              exact ⟨rfl, rfl⟩
        · obtain ⟨hfds, hkptrs⟩ := h.released slot hslot
          have htask := h.task t ht slot (by rw [hplace]; rfl)
          have hstops := finish_stops hs rfl htask.symm rfl rfl (Or.inr rfl) rfl
          refine Frame.of_slot (Aside.finish ?_ ?_ hs) hstops.jobs hslot hstops.not_running
          · exact hfds
          · exact hkptrs
  · cases hs
    exact hmoves _ _
  · cases hs
    exact hmoves _ _
  · cases hs

omit [BuildConfig] in
theorem Starts.frame (hs : Starts s s') (ha : Aside s s') : Frame s s' := by
  cases hs with
  | full h => exact Frame.of_jobs ha (by rw [h])
  | launches slot job me h =>
    apply Frame.of_slot ha h.jobs (freeSlot_state h.free).1
    rw [h.state]
    decide
  | discards slot job h =>
    apply Frame.of_slot ha h.jobs (freeSlot_state h.free).1
    rw [h.state]
    decide

theorem Takes.not_compiled_aside {s₀ : JitSys} (h : Takes s s₀ slot (s₀.jit_jobs slot))
    (hs : (s₀.jit_compile_job slot false).jit_job_cleanup now slot = some s') : Aside s₀ s' := by
  rw [jit_compile_job, if_neg (by decide)] at hs
  apply (Aside.setJob s₀ slot _).trans (cleanup_empty ?_ ?_ hs)
  · simpa using h.released.1
  · simpa using h.released.2

omit [BuildConfig] in
theorem Aside.started {slot : Fin JIT_MAX_JOBS} {fresh : Prop} [Decidable fresh] {id : Int}
    (hs : (if fresh then (s.task_create slot).map fun (id, s) =>
      s.setJob slot { s.jit_jobs slot with task_id := id }
      else some (s.task_reset id slot)) = some s') : Aside s s' := by
  split at hs
  · obtain ⟨r, hr, rfl⟩ := Option.map_eq_some_iff.mp hs
    exact (Aside.create hr).trans (Aside.setJob _ _ _)
  · cases hs
    exact Aside.reset _ _ _

theorem runBg_aside {owner_win_id : Int} {compiles : Bool}
    (hs : s.os_jit_run_bg now owner_win_id compiles = some s') : Aside s s' := by
  unfold os_jit_run_bg at hs
  split at hs
  · cases hs
    exact Aside.refl _
  · rename_i slot s₀ halloc
    apply (Aside.alloc halloc).trans
    cases compiles with
    | false =>
      rw [if_pos rfl] at hs
      exact (alloc_takes halloc).not_compiled_aside hs
    | true =>
      rw [if_neg (by decide), jit_compile_job, if_pos rfl] at hs
      obtain ⟨s₁, hstart, rfl⟩ := Option.map_eq_some_iff.mp hs
      apply (Aside.setJob s₀ slot _).trans
      refine Aside.trans ?_ (Aside.wake s₁ _)
      exact Aside.started hstart

theorem run_aside {owner_win_id : Int} {compiles : Bool}
    (hs : s.os_jit_run now t owner_win_id compiles = some s') : Aside s s' := by
  unfold os_jit_run at hs
  split at hs
  · cases hs
    exact Aside.refl _
  · rename_i slot s₀ halloc
    apply (Aside.alloc halloc).trans
    cases compiles with
    | false =>
      rw [if_pos rfl] at hs
      exact (alloc_takes halloc).not_compiled_aside hs
    | true =>
      rw [if_neg (by decide), jit_compile_job, if_pos rfl] at hs
      dsimp only at hs
      obtain ⟨s₁, hstart, heq⟩ := Option.map_eq_some_iff.mp hs
      rw [← heq]
      apply (Aside.setJob s₀ slot _).trans
      apply (Aside.setJob _ slot _).trans
      refine Aside.trans ?_ ((Aside.wake s₁ _).trans (Aside.setTask fun _ => rfl))
      exact Aside.started hstart

/-! ## Steps that are tidy -/

def stopped (s : JitSys) : Event → List (Fin JIT_MAX_JOBS)
  | .returns t _ => (s.tasks t).place.slot.toList
  | .kill _ id => (s.killSlot id).toList
  | .cancelTask _ task_id => (s.cancelSlot task_id).toList
  | .cancelByOwner _ owner_win_id => (List.finRange JIT_MAX_JOBS).filter fun k =>
    (s.jit_jobs k).owner_win_id = owner_win_id ∧ ((s.jit_jobs k).state = .compiling ∨
      (s.jit_jobs k).state = .ready ∨ (s.jit_jobs k).state = .running)
  | .trapCancel t owner_win_id => (s.trapSlot t owner_win_id).toList
  | _ => []

/-- The jobs in these slots can stop: every descriptor that they have noted closes without an
error, and they have given back what they got from `open` and `fopen`. -/
def StopTidy (s : JitSys) (now : Nat) (slots : List (Fin JIT_MAX_JOBS)) : Prop :=
  (closesAll now (slots.flatMap fun k => List.ofFn (s.jit_jobs k).fds) s.fs).isSome ∧
    ∀ k ∈ slots, s.NothingElse (s.jit_jobs k).id

/-- The steps after which no job holds what it should not. The trap stops no job in the middle of a
call. -/
def Tidy (s : JitSys) (now : Nat) (e : Event) : Prop :=
  s.StopTidy now (s.stopped e) ∧
    match e with
    | .call t c => ∀ slot id, (s.tasks t).place = .main slot id → s.CallTidy slot id c
    | .settle t => ∀ slot id p, (s.tasks t).place = .main slot id → (s.tasks t).call = some p →
      s.SettleTidy now slot id p
    | .trapCancel t owner_win_id => s.trapSlot t owner_win_id ≠ none → (s.tasks t).call = none
    | _ => True

/-! ## Every tidy step -/

omit [BuildConfig] in
theorem atYield_of_mayCall {me : Int} (h : s.mayCall me = true) : s.AtYield := by
  unfold mayCall at h
  exact of_decide_eq_true (Bool.and_eq_true_iff.mp h).1

omit [BuildConfig] in
theorem CanRun.atYield (h : s.CanRun t) (hcall : (s.tasks t).call = none) : s.AtYield := by
  intro t' ht'
  by_cases heq : t' = t
  · rw [heq, hcall]
    rfl
  · exact h.2.2 t' ht' heq

theorem StopTidy.one (h : s.StopTidy now [slot]) :
    (∃ fs, closesAll now (List.ofFn (s.jit_jobs slot).fds) s.fs = some fs) ∧
      s.NothingElse (s.jit_jobs slot).id := by
  obtain ⟨hok, helse⟩ := h
  rw [List.flatMap_singleton] at hok
  exact ⟨Option.isSome_iff_exists.mp hok, helse slot (List.mem_singleton_self slot)⟩

omit [BuildConfig] in
theorem Holds.of_wake (h : s.Holds) (task_id : Int) : (s.task_wake task_id).Holds := by
  unfold task_wake
  split
  · exact h
  · rename_i t _
    have hpend : (s.setTask t { s.tasks t with runnable := true }).pendingOf = s.pendingOf := by
      funext k
      by_cases hk : (s.jit_jobs k).state = .running
      · rw [pendingOf_running hk, pendingOf_running (by rw [setTask_jobs, hk])]
        rw [setTask_jobs, setTask_tasks]
        by_cases heq : (s.jit_jobs k).task_id.toNat = t
        · rw [heq, Function.update_self]
        · rw [Function.update_of_ne heq]
      · rw [pendingOf_idle hk, pendingOf_idle (by rw [setTask_jobs]; exact hk)]
    have hfds : (s.setTask t { s.tasks t with runnable := true }).fdLedger = s.fdLedger := by
      unfold fdLedger
      rw [hpend]
      rfl
    have hblocks : (s.setTask t { s.tasks t with runnable := true }).blockLedger =
        s.blockLedger := by
      unfold blockLedger
      rw [hpend]
      rfl
    refine ⟨?_, ?_, h.known, h.log⟩
    · rw [hfds]
      exact h.fds
    · rw [hblocks]
      exact h.blocks

omit [BuildConfig] in
theorem Holds.of_elsewhere (h : s.Holds) (fs : AppFs) : (s.elsewhere fs).Holds := by
  have hown : ∀ i, openerName ((s.elsewhere fs).opener i) = openerName (s.opener i) := by
    intro i
    unfold elsewhere withFs
    dsimp only
    cases hopener : s.opener i with
    | none =>
      have hfree := (h.known i).mp hopener
      rw [hfree]
      cases fs.fds i with
      | none => rfl
      | some e => rfl
    | some o =>
      have hopen : s.fs.fds i ≠ none := by
        intro hnone
        rw [(h.known i).mpr hnone] at hopener
        cases hopener
      cases o with
      | job id noted =>
        dsimp only
        split
        · exact absurd ‹_› hopen
        · exact absurd ‹_› hopen
        · rfl
      | elsewhere =>
        dsimp only
        split
        · rfl
        · rfl
        · rfl
  have hun : Untouched s (s.elsewhere fs) := ⟨rfl, rfl, rfl, rfl⟩
  refine ⟨?_, ?_, withFs_known h.known _ _, h.log⟩
  · rw [hun.fdLedger]
    have hsame : (fun i => openerName ((s.elsewhere fs).opener i)) = s.fdLedger.own :=
      funext hown
    rw [hsame]
    exact h.fds
  · rw [hun.blockLedger]
    exact h.blocks

theorem Holds.of_cancelOwned {me owner_win_id : Int} {slots : List (Fin JIT_MAX_JOBS)}
    (h : s.Holds) (hl : s.LifeInv) (hme : s.Calls me) (hy : s.AtYield) (hnodup : slots.Nodup)
    (htidy : s.StopTidy now (slots.filter fun k => (s.jit_jobs k).owner_win_id = owner_win_id ∧
      ((s.jit_jobs k).state = .compiling ∨ (s.jit_jobs k).state = .ready ∨
        (s.jit_jobs k).state = .running)))
    (hs : cancelOwned now me owner_win_id slots s = some s') : s'.Holds := by
  induction slots generalizing s with
  | nil =>
    cases hs
    exact h
  | cons slot slots ih =>
    obtain ⟨hnotin, hnodup'⟩ := List.nodup_cons.mp hnodup
    rw [cancelOwned] at hs
    split at hs
    · rename_i howner
      rw [List.filter_cons_of_neg (by simp [howner])] at htidy
      exact ih h hl hme hy hnodup' htidy hs
    · rename_i howner
      rw [not_not] at howner
      split at hs
      · rename_i hstate
        rw [List.filter_cons_of_neg (by simp [hstate])] at htidy
        exact ih h hl hme hy hnodup' htidy hs
      · rename_i hstate
        have hlive : (s.jit_jobs slot).state = .compiling ∨ (s.jit_jobs slot).state = .ready ∨
            (s.jit_jobs slot).state = .running := by
          by_contra hnot
          rw [not_or, not_or] at hnot
          exact hstate hnot
        rw [List.filter_cons_of_pos (by simp [howner, hlive])] at htidy
        obtain ⟨hok, helse⟩ := htidy
        rw [List.flatMap_cons, closesAll_append] at hok
        obtain ⟨fs₂, hok⟩ := Option.isSome_iff_exists.mp hok
        obtain ⟨fs, hfs, hrest⟩ := Option.bind_eq_some_iff.mp hok
        obtain ⟨s₁, hcancel, hs⟩ := Option.bind_eq_some_iff.mp hs
        have hstops := cancel_stops hme hcancel
        have hreleased := h.cancel_released hfs hcancel
        have hne : (s.jit_jobs slot).state ≠ .empty := by
          rcases hlive with hst | hst | hst
          · rw [hst]
            decide
          · rw [hst]
            decide
          · rw [hst]
            decide
        have hl₁ := hl.of_stops hstops hne
        have hholds := h.of_released hl hl₁ hy hstops hreleased (helse slot List.mem_cons_self)
        have hother : ∀ k ∈ slots, s₁.jit_jobs k = s.jit_jobs k := by
          intro k hk
          have hks : k ≠ slot := by
            rintro rfl
            exact hnotin hk
          rw [hstops.jobs, Function.update_of_ne hks]
        apply ih hholds hl₁ (hl.calls_of_stops hme hstops) (hreleased.quiet hy) hnodup' ?_ hs
        have hfilter : (slots.filter fun k => (s₁.jit_jobs k).owner_win_id = owner_win_id ∧
            ((s₁.jit_jobs k).state = .compiling ∨ (s₁.jit_jobs k).state = .ready ∨
              (s₁.jit_jobs k).state = .running)) =
            slots.filter fun k => (s.jit_jobs k).owner_win_id = owner_win_id ∧
              ((s.jit_jobs k).state = .compiling ∨ (s.jit_jobs k).state = .ready ∨
                (s.jit_jobs k).state = .running) := by
          apply List.filter_congr
          intro k hk
          rw [hother k hk]
        rw [hfilter]
        constructor
        · rw [hreleased.fs]
          have hmap : ∀ l : List (Fin JIT_MAX_JOBS), (∀ k ∈ l, k ∈ slots) →
              (l.flatMap fun k => List.ofFn (s₁.jit_jobs k).fds) =
                l.flatMap fun k => List.ofFn (s.jit_jobs k).fds := by
            intro l hl
            apply List.flatMap_congr
            intro k hk
            rw [hother k (hl k hk)]
          rw [hmap _ fun k hk => List.mem_of_mem_filter hk, hrest]
          rfl
        · intro k hk
          have hmem := List.mem_of_mem_filter hk
          rw [hother k hmem]
          obtain ⟨hnofd, hnoblock⟩ := helse k (List.mem_cons_of_mem _ hk)
          constructor
          · intro i hi
            rw [hreleased.opener] at hi
            split at hi
            · cases hi
            · exact hnofd i hi
          · intro p hp
            rw [hreleased.holder] at hp
            split at hp
            · cases hp
            · exact hnoblock p hp

theorem Holds.of_step (h : s.Holds) (hl : s.LifeInv) {e : Event} (htidy : s.Tidy now e)
    (hs : s.step now e = some s') : s'.Holds := by
  have hl' := hl.of_step hs
  unfold step at hs
  cases e with
  | run t owner_win_id compiles =>
    dsimp only at hs
    split at hs
    · rename_i hok
      have hout := calls_of_mayCall hok.2 t hok.1.1 rfl
      exact h.of_frame hl hl' (atYield_of_mayCall hok.2)
        ((hl.run_starts hok.1.1 hout hs).frame (run_aside hs))
    · cases hs
  | runBg me owner_win_id compiles =>
    dsimp only at hs
    split at hs
    · rename_i hok
      exact h.of_frame hl hl' (atYield_of_mayCall hok)
        ((hl.runBg_starts hs).frame (runBg_aside hs))
    · cases hs
  | resume t valid =>
    dsimp only at hs
    split at hs
    · rename_i hcall
      split at hs
      · rename_i hok
        exact h.of_frame hl hl' (hok.atYield hcall) (hl.resume_frame hok.1 hs)
      · cases hs
    · cases hs
  | yield t =>
    dsimp only at hs
    split at hs
    · rename_i hplace _
      split at hs
      · rename_i hok
        rw [hl.jit_yield hok.1 hplace] at hs
        cases hs
        exact h
      · cases hs
    · cases hs
  | call t c =>
    dsimp only at hs
    split at hs
    · rename_i slot id hplace hcall
      split at hs
      · rename_i hok
        exact h.of_call ⟨hl, hok, hplace, hcall⟩ (htidy.2 slot id hplace) hs
      · cases hs
    · cases hs
  | settle t =>
    dsimp only at hs
    split at hs
    · rename_i slot id p hplace hcall
      split at hs
      · rename_i hok
        exact h.of_settle ⟨hl, hok, hplace, hcall⟩ (htidy.2 slot id p hplace hcall) hs
      · cases hs
    · cases hs
  | pause t =>
    dsimp only at hs
    split at hs
    · rename_i hcall
      split at hs
      · rename_i hok
        cases hs
        exact h.of_frame hl hl' (hok.atYield hcall)
          (Frame.of_jobs (Aside.setTask fun hnone => hnone) rfl)
      · cases hs
    · cases hs
  | returns t rc =>
    dsimp only at hs
    split at hs
    · rename_i slot id hplace hcall
      split at hs
      · rename_i hok
        have hstop : s.StopTidy now [slot] := by
          have hstop := htidy.1
          simp only [stopped, hplace, Place.slot, Option.toList_some] at hstop
          exact hstop
        obtain ⟨⟨fs, hfs⟩, helse⟩ := hstop.one
        obtain ⟨htask, _⟩ := hl.main hok.1 hplace
        have hy := hok.atYield hcall
        unfold mainReturns at hs
        dsimp only at hs
        split at hs
        · have hstops := finish_stops hs rfl rfl rfl rfl (Or.inr rfl) htask
          exact h.of_released hl hl' hy hstops (h.finish_released hs hfs rfl rfl rfl) helse
        · have hstops := finish_stops hs rfl rfl rfl rfl (Or.inl rfl) htask
          exact h.of_released hl hl' hy hstops (h.finish_released hs hfs rfl rfl rfl) helse
      · cases hs
    · cases hs
  | kill me id =>
    dsimp only at hs
    split at hs
    · rename_i hok
      cases hslot : s.killSlot id with
      | none =>
        unfold os_jit_kill at hs
        rw [hslot] at hs
        cases hs
        exact h
      | some slot =>
        have hstop := htidy.1
        simp only [stopped, hslot, Option.toList_some] at hstop
        obtain ⟨⟨fs, hfs⟩, helse⟩ := hstop.one
        exact h.of_released hl hl' (atYield_of_mayCall hok) (os_jit_kill_stops hslot hs)
          (h.os_jit_kill_released hslot hfs hs) helse
    · cases hs
  | cancelTask me task_id =>
    dsimp only at hs
    split at hs
    · rename_i hok
      unfold os_jit_cancel_task at hs
      split at hs
      · cases hs
        exact h
      · rename_i slot hslot
        have hstop := htidy.1
        simp only [stopped, hslot, Option.toList_some] at hstop
        obtain ⟨⟨fs, hfs⟩, helse⟩ := hstop.one
        exact h.of_released hl hl' (atYield_of_mayCall hok)
          (cancel_stops (calls_of_mayCall hok) hs) (h.cancel_released hfs hs) helse
    · cases hs
  | cancelByOwner me owner_win_id =>
    dsimp only at hs
    split at hs
    · rename_i hok
      exact h.of_cancelOwned hl (calls_of_mayCall hok) (atYield_of_mayCall hok)
        (List.nodup_finRange _) htidy.1 hs
    · cases hs
  | trapCancel t owner_win_id =>
    dsimp only at hs
    split at hs
    · rename_i hok
      cases hslot : s.trapSlot t owner_win_id with
      | none =>
        unfold os_jit_cancel_running_owner_from_trap at hs
        rw [hslot] at hs
        cases hs
        exact h
      | some slot =>
        have hstop := htidy.1
        simp only [stopped, hslot, Option.toList_some] at hstop
        obtain ⟨⟨fs, hfs⟩, helse⟩ := hstop.one
        have hcall := htidy.2 (by simp [hslot])
        exact h.of_released hl hl' (hok.atYield hcall) (trap_stops hslot hs)
          (h.trap_released hslot hfs hs) helse
    · cases hs
  | wake task_id =>
    cases hs
    exact h.of_wake task_id
  | spawn =>
    dsimp only at hs
    split at hs
    · cases hs
    · rename_i hok
      rw [not_or, not_not] at hok
      cases hs
      apply h.of_frame hl hl' hok.2
      refine Frame.of_jobs ⟨rfl, rfl, rfl, rfl, ?_⟩ rfl
      intro t ht hlt
      dsimp only at hlt ⊢
      by_cases heq : t = s.taskTop
      · rw [heq, setTask_tasks, Function.update_self]
      · rw [setTask_tasks, Function.update_of_ne heq]
        exact ht (by omega)
  | elsewhere fs =>
    dsimp only at hs
    split at hs
    · cases hs
      exact h.of_elsewhere fs
    · cases hs

/-! ## Runs -/

inductive TidyRun : JitSys → Prop
  | start {s : JitSys} (h : s.Started) : TidyRun s
  | step {s s' : JitSys} (h : TidyRun s) (now : Nat) (e : Event) (tidy : s.Tidy now e)
      (hs : s.step now e = some s') : TidyRun s'

omit [BuildConfig] in
theorem Started.holds (h : s.Started) : s.Holds := by
  have hidle : ∀ k, (s.jit_jobs k).state ≠ .running := by
    intro k
    rw [h.empty]
    decide
  have hfd : ∀ i, openerName (s.opener i) = none := by
    intro i
    rw [h.opener]
    cases s.fs.fds i with
    | none => rfl
    | some e => rfl
  have htabs := fun k => h.lifeInv.empty_tabs (hidle k)
  have hpend : ∀ k, s.pendingOf k = none := fun k => pendingOf_idle (hidle k)
  refine ⟨⟨?_, ?_, ?_, ?_, ?_⟩, ⟨?_, ?_, ?_, ?_, ?_⟩, ?_, ?_⟩
  · intro i a b hi
    have hi' : openerName (s.opener i) = some (a, b) := hi
    rw [hfd] at hi'
    cases hi'
  · intro k j i hj
    rw [(htabs k).1] at hj
    cases hj
  · intro k i j r hi
    rw [(htabs k).1] at hi
    cases hi
  · intro k r sure hp
    simp only [fdLedger, hpend, Option.bind_none] at hp
    cases hp
  · exact fun k _ hk => absurd hk (hidle k)
  · intro p a b hp
    have hp' : s.holder p = some (a, b) := hp
    rw [h.holder] at hp'
    cases hp'
  · intro k j p hj
    rw [(htabs k).2] at hj
    cases hj
  · intro k i j r hi
    rw [(htabs k).2] at hi
    cases hi
  · intro k r sure hp
    simp only [blockLedger, hpend, Option.bind_none] at hp
    cases hp
  · exact fun k _ hk => absurd hk (hidle k)
  · intro i
    rw [h.opener]
    exact Option.map_eq_none_iff
  · rw [h.log]
    exact fun a ha => absurd ha List.not_mem_nil

theorem TidyRun.inv (h : TidyRun s) : s.LifeInv ∧ s.Holds := by
  induction h with
  | start h => exact ⟨h.lifeInv, h.holds⟩
  | step _ now e tidy hs ih => exact ⟨ih.1.of_step hs, ih.2.of_step ih.1 tidy hs⟩

theorem TidyRun.steps {es : List Event} (h : TidyRun s) (tidy : ∀ e ∈ es, ∀ s, Tidy s 0 e)
    (hs : s.steps es = some s') : TidyRun s' :=
  steps_keep (fun e he {_ _} hrun hstep => .step hrun 0 e (tidy e he _) hstep) h hs

end

end JitSys

end

/-! ## Runs of one task -/

section

attribute [local instance] fpgaBuild qemuJit

end

end vibeos.tcc_glue

-- The scheduler invariant: a task is runnable exactly when the list of its level
-- has its id, and no list has an id twice. Every call keeps it, so the flags and
-- the lists never disagree.
import Mathlib.Data.List.Perm.Subperm
import Vibeos.TaskSched

namespace vibeos.task

/-! ## The ids of a level -/

section

variable {tl : TaskLevel} {i j id taskTop : Nat}

@[simp]
theorem TaskLevel.length_stored (tl : TaskLevel) : tl.stored.length = tl.running := by
  simp [TaskLevel.stored]

theorem TaskLevel.getElem_stored (tl : TaskLevel) {i : Nat} (h : i < tl.stored.length) :
    tl.stored[i] = tl.tasks i := by
  simp [TaskLevel.stored]

theorem TaskLevel.mem_stored : id ∈ tl.stored ↔ ∃ i < tl.running, tl.tasks i = id := by
  simp [TaskLevel.stored]

theorem stored_push (tl : TaskLevel) (id : Nat) :
    TaskLevel.stored { tl with
      tasks := Function.update tl.tasks tl.running id, running := tl.running + 1 } =
      tl.stored ++ [id] := by
  simp only [TaskLevel.stored, List.range_succ, List.map_append, List.map_cons, List.map_nil,
    Function.update_self]
  congr 1
  refine List.map_congr_left fun j hj => ?_
  rw [List.mem_range] at hj
  rw [Function.update_of_ne (by omega)]

theorem find_task_eq_some : find_task tl id = some i ↔
    i < tl.running ∧ tl.tasks i = id ∧ ∀ j < i, tl.tasks j ≠ id := by
  simp [find_task, List.find?_range_eq_some]
  tauto

theorem find_task_eq_none : find_task tl id = none ↔ id ∉ tl.stored := by
  simp [find_task, TaskLevel.stored]

theorem shift_down_apply (taskTop : Nat) (tasks : Nat → Nat) (i running j : Nat) :
    shift_down taskTop tasks i running j =
      if i ≤ j ∧ j < running then (if taskTop ≤ tasks (j + 1) then 0 else tasks (j + 1))
      else tasks j := by
  unfold shift_down
  generalize hn : running - i = n
  induction n generalizing i tasks with
  | zero =>
    have hempty : ¬ (i ≤ j ∧ j < running) := by omega
    simp [hempty]
  | succ n ih =>
    have hn' : running - (i + 1) = n := by omega
    rw [List.range'_succ, List.foldl_cons, ih _ (i + 1) hn']
    by_cases hj : j = i
    · subst hj
      have hlt : j < running := by omega
      simp [hlt]
    · have hiff : i + 1 ≤ j ∧ j < running ↔ i ≤ j ∧ j < running := by omega
      rw [Function.update_of_ne hj]
      simp only [hiff]
      split
      · rw [Function.update_of_ne (by omega)]
      · rfl

theorem stored_drop (hi : i < tl.running) (htop : ∀ id ∈ tl.stored, id < taskTop) :
    (tl.drop taskTop i).stored = tl.stored.eraseIdx i := by
  refine List.ext_getElem ?_ fun j h1 h2 => ?_
  · rw [List.length_eraseIdx_of_lt (by simpa using hi)]
    simp [TaskLevel.drop]
  · have hj : j + 1 < tl.running := by
      rw [TaskLevel.length_stored] at h1
      have : (tl.drop taskTop i).running = tl.running - 1 := rfl
      omega
    have hlt := htop _ (TaskLevel.mem_stored.mpr ⟨j + 1, hj, rfl⟩)
    rw [TaskLevel.getElem_stored, List.getElem_eraseIdx]
    show shift_down taskTop tl.tasks i (tl.running - 1) j = _
    rw [shift_down_apply]
    by_cases hij : j < i
    · rw [if_neg (by omega), dif_pos hij, TaskLevel.getElem_stored]
    · rw [if_pos (by omega), if_neg (by omega), dif_neg hij, TaskLevel.getElem_stored]

theorem drop_cursor (h : tl.now = 0 ∨ tl.now < tl.running) (i : Nat) :
    (tl.drop taskTop i).now = 0 ∨ (tl.drop taskTop i).now < (tl.drop taskTop i).running := by
  simp only [TaskLevel.drop]
  rcases h with h | h
  · rw [h]
    exact Or.inl (by simp)
  · split <;> split <;> omega

end

/-! ## The invariant -/

/-- A task is runnable exactly when the list of its level has its id. -/
structure Inv (s : TaskState) : Prop where
  top : s.taskTop ≤ MAX_TASKS
  level_lt : ∀ id, (s.task_meta id).level < MAX_TASKLEVELS
  running_lt : ∀ {id}, (s.task_meta id).flags = .running → id < s.taskTop
  nodup : ∀ l, (s.task_levels l).stored.Nodup
  mem_iff : ∀ {l id}, id ∈ (s.task_levels l).stored ↔
    (s.task_meta id).flags = .running ∧ (s.task_meta id).level = l
  cursor : ∀ l, (s.task_levels l).now = 0 ∨ (s.task_levels l).now < (s.task_levels l).running
  level : s.current_level < MAX_TASKLEVELS
  quota : s.current_level_quota ≤ LEVEL0_QUOTA

variable {s s' : TaskState} {id : Nat}

theorem Inv.stored_lt (h : Inv s) {l : Nat} (hid : id ∈ (s.task_levels l).stored) :
    id < s.taskTop :=
  h.running_lt (h.mem_iff.mp hid).1

theorem Inv.running_le (h : Inv s) (l : Nat) : (s.task_levels l).running ≤ s.taskTop := by
  have hsub : (s.task_levels l).stored ⊆ List.range s.taskTop := fun id hid =>
    List.mem_range.mpr (h.stored_lt hid)
  have := (List.subperm_of_subset (h.nodup l) hsub).length_le
  simpa using this

theorem Inv.room (h : Inv s) {l : Nat} (hid : id < s.taskTop)
    (hn : id ∉ (s.task_levels l).stored) : (s.task_levels l).running < MAX_TASKS := by
  have hsub : id :: (s.task_levels l).stored ⊆ List.range s.taskTop := by
    intro x hx
    rcases List.mem_cons.mp hx with rfl | hx
    · exact List.mem_range.mpr hid
    · exact List.mem_range.mpr (h.stored_lt hx)
  have hnodup : (id :: (s.task_levels l).stored).Nodup := List.nodup_cons.mpr ⟨hn, h.nodup l⟩
  have hlen := (List.subperm_of_subset hnodup hsub).length_le
  have htop := h.top
  simp only [List.length_cons, TaskLevel.length_stored, List.length_range] at hlen
  omega

theorem inv_init : Inv task_init where
  top := by decide
  level_lt := fun _ => (by decide : 0 < MAX_TASKLEVELS)
  running_lt := fun h => by cases h
  nodup := fun _ => List.nodup_nil
  mem_iff := by
    intro l id
    simp [task_init, TaskLevel.stored]
  cursor := fun _ => Or.inl rfl
  level := by decide
  quota := Nat.le_refl _

/-! ## The steps of the calls -/

/-- The fields that only `task_create`, `task_go` and `task_os` set. -/
structure SameRest (s s' : TaskState) : Prop where
  ctx_tasks : s'.ctx_tasks = s.ctx_tasks
  taskTop : s'.taskTop = s.taskTop
  current : s'.current_task_id = s.current_task_id

theorem Inv.of_meta (h : Inv s) {m : Nat → TaskMeta} (hl : ∀ id, (m id).level < MAX_TASKLEVELS)
    (hm : ∀ id, (m id).flags = .running ↔ (s.task_meta id).flags = .running)
    (hlevel : ∀ id, (m id).flags = .running → (m id).level = (s.task_meta id).level) :
    Inv { s with task_meta := m } :=
  { h with
    level_lt := hl
    running_lt := fun hid => h.running_lt ((hm _).mp hid)
    mem_iff := by
      intro l id
      rw [h.mem_iff]
      constructor
      · rintro ⟨h1, h2⟩
        have h3 := (hm id).mpr h1
        exact ⟨h3, (hlevel id h3).trans h2⟩
      · rintro ⟨h1, h2⟩
        exact ⟨(hm id).mp h1, (hlevel id h1).symm.trans h2⟩ }

theorem Inv.of_level (h : Inv s) {l : Nat} {tl : TaskLevel} {m : Nat → TaskMeta}
    (hnodup : tl.stored.Nodup) (hcur : tl.now = 0 ∨ tl.now < tl.running)
    (hlt : ∀ x, (m x).level < MAX_TASKLEVELS) (htop : ∀ x ∈ tl.stored, x < s.taskTop)
    (hmem : ∀ x, x ∈ tl.stored ↔ (m x).flags = .running ∧ (m x).level = l)
    (hother : ∀ x l', l' ≠ l → ((m x).flags = .running ∧ (m x).level = l' ↔
      (s.task_meta x).flags = .running ∧ (s.task_meta x).level = l')) :
    Inv { s with task_levels := Function.update s.task_levels l tl, task_meta := m } where
  top := h.top
  level := h.level
  quota := h.quota
  level_lt := hlt
  running_lt := by
    intro x hx
    by_cases hl : (m x).level = l
    · exact htop x ((hmem x).mpr ⟨hx, hl⟩)
    · exact h.running_lt ((hother x _ hl).mp ⟨hx, rfl⟩).1
  nodup := by
    intro l'
    by_cases hl : l' = l
    · subst hl
      simpa using hnodup
    · simpa [Function.update_of_ne hl] using h.nodup l'
  mem_iff := by
    intro l' x
    by_cases hl : l' = l
    · subst hl
      simpa using hmem x
    · rw [hother x l' hl, ← h.mem_iff]
      simp [Function.update_of_ne hl]
  cursor := by
    intro l'
    by_cases hl : l' = l
    · subst hl
      simpa using hcur
    · simpa [Function.update_of_ne hl] using h.cursor l'

/-- The tasks after a change of the flags of one. -/
def setFlags (s : TaskState) (id : Nat) (flags : TaskFlags) : Nat → TaskMeta :=
  Function.update s.task_meta id { s.task_meta id with flags := flags }

theorem setFlags_level (s : TaskState) (id : Nat) (flags : TaskFlags) (x : Nat) :
    (setFlags s id flags x).level = (s.task_meta x).level := by
  unfold setFlags
  by_cases hx : x = id
  · subst hx
    rw [Function.update_self]
  · rw [Function.update_of_ne hx]

theorem setFlags_flags (s : TaskState) (id : Nat) (flags : TaskFlags) (x : Nat) :
    (setFlags s id flags x).flags = if x = id then flags else (s.task_meta x).flags := by
  unfold setFlags
  by_cases hx : x = id
  · subst hx
    rw [Function.update_self, if_pos rfl]
  · rw [Function.update_of_ne hx, if_neg hx]

theorem setFlags_other (s : TaskState) (id : Nat) (flags : TaskFlags) (x : Nat) {l : Nat}
    (hl : l ≠ (s.task_meta id).level) :
    (setFlags s id flags x).flags = .running ∧ (setFlags s id flags x).level = l ↔
      (s.task_meta x).flags = .running ∧ (s.task_meta x).level = l := by
  rw [setFlags_flags, setFlags_level]
  by_cases hx : x = id
  · subst hx
    simp [hl.symm]
  · simp [hx]

theorem Inv.task_remove (h : Inv s) (hrun : (s.task_meta id).flags = .running) :
    Inv (task_remove s id) ∧ SameRest s (task_remove s id) ∧
      (task_remove s id).task_meta = setFlags s id .sleeping := by
  have hl := h.level_lt id
  have hle := h.running_le (s.task_meta id).level
  have htop := h.top
  obtain ⟨i, hfind⟩ : ∃ i, find_task (s.task_levels (s.task_meta id).level) id = some i := by
    rw [← Option.ne_none_iff_exists', Ne, find_task_eq_none, not_not]
    exact h.mem_iff.mpr ⟨hrun, rfl⟩
  obtain ⟨hi, htask, _⟩ := find_task_eq_some.mp hfind
  have heq : vibeos.task.task_remove s id = { s with
      task_levels := Function.update s.task_levels (s.task_meta id).level
        ((s.task_levels (s.task_meta id).level).drop s.taskTop i)
      task_meta := setFlags s id .sleeping } := by
    unfold vibeos.task.task_remove
    dsimp only
    rw [if_neg (by omega), if_neg (by omega), hfind]
    rfl
  have hstored : ((s.task_levels (s.task_meta id).level).drop s.taskTop i).stored =
      (s.task_levels (s.task_meta id).level).stored.erase id := by
    rw [stored_drop hi fun x hx => h.stored_lt hx]
    have hlen : i < (s.task_levels (s.task_meta id).level).stored.length := by simpa using hi
    rw [← (h.nodup _).erase_getElem i hlen, TaskLevel.getElem_stored, htask]
  rw [heq]
  refine ⟨h.of_level ?_ (drop_cursor (h.cursor _) i) ?_ ?_ ?_ ?_, ⟨rfl, rfl, rfl⟩, rfl⟩
  · rw [hstored]
    exact (h.nodup _).erase id
  · intro x
    rw [setFlags_level]
    exact h.level_lt x
  · intro x hx
    rw [hstored] at hx
    exact h.stored_lt (List.mem_of_mem_erase hx)
  · intro x
    rw [hstored, (h.nodup _).mem_erase_iff, h.mem_iff, setFlags_flags, setFlags_level]
    by_cases hx : x = id
    · simp [hx]
    · simp [hx]
  · exact fun x l' => setFlags_other s id _ x

theorem Inv.task_add (h : Inv s) (hid : id < s.taskTop)
    (hrun : (s.task_meta id).flags ≠ .running) :
    ∃ s', task_add s id = some s' ∧ Inv s' ∧ SameRest s s' ∧
      s'.task_meta = setFlags s id .running := by
  have hl := h.level_lt id
  have hnot : ∀ l, id ∉ (s.task_levels l).stored := fun l hn => hrun (h.mem_iff.mp hn).1
  have hroom := h.room hid (hnot (s.task_meta id).level)
  have heq : vibeos.task.task_add s id = some { s with
      task_levels := Function.update s.task_levels (s.task_meta id).level
        { s.task_levels (s.task_meta id).level with
          tasks := Function.update (s.task_levels (s.task_meta id).level).tasks
            (s.task_levels (s.task_meta id).level).running id
          running := (s.task_levels (s.task_meta id).level).running + 1 }
      task_meta := setFlags s id .running } := by
    unfold vibeos.task.task_add
    simp only [if_neg (Nat.not_le.mpr hl), if_neg (Nat.not_lt.mpr (Nat.le_of_lt hroom)),
      if_neg (Nat.not_le.mpr hroom)]
    rfl
  refine ⟨_, heq, h.of_level ?_ ?_ ?_ ?_ ?_ ?_, ⟨rfl, rfl, rfl⟩, rfl⟩
  · rw [stored_push]
    exact (h.nodup _).append (List.nodup_singleton id) (by simpa using hnot _)
  · have := h.cursor (s.task_meta id).level
    dsimp only
    omega
  · intro x
    rw [setFlags_level]
    exact h.level_lt x
  · intro x hx
    rw [stored_push, List.mem_append, List.mem_singleton] at hx
    rcases hx with hx | rfl
    · exact h.stored_lt hx
    · exact hid
  · intro x
    rw [stored_push, List.mem_append, List.mem_singleton, h.mem_iff, setFlags_flags,
      setFlags_level]
    by_cases hx : x = id
    · simp [hx]
    · simp [hx]
  · exact fun x l' => setFlags_other s id _ x

/-! ## Every call keeps the invariant -/

theorem Inv.task_switchsub (h : Inv s) : Inv (task_switchsub s) := by
  unfold vibeos.task.task_switchsub
  split
  · rename_i i hi
    have hlt : i < MAX_TASKLEVELS := by
      unfold first_level at hi
      simpa using List.mem_of_find?_eq_some hi
    refine { h with level := hlt, quota := ?_ }
    dsimp only
    split
    · exact Nat.le_refl _
    · decide
  · have hlt : 0 < MAX_TASKLEVELS := by decide
    exact { h with level := hlt, quota := Nat.le_refl _ }

theorem sameRest_switchsub (s : TaskState) : SameRest s (task_switchsub s) := by
  unfold task_switchsub
  split <;> exact ⟨rfl, rfl, rfl⟩

theorem SameRest.trans {s₁ s₂ s₃ : TaskState} (h₁ : SameRest s₁ s₂) (h₂ : SameRest s₂ s₃) :
    SameRest s₁ s₃ :=
  ⟨h₂.ctx_tasks.trans h₁.ctx_tasks, h₂.taskTop.trans h₁.taskTop, h₂.current.trans h₁.current⟩

theorem Inv.of_stopped (h : Inv s) {m : TaskMeta} (hl : m.level < MAX_TASKLEVELS)
    (hrun : (s.task_meta id).flags ≠ .running) (hm : m.flags ≠ .running) :
    Inv { s with task_meta := Function.update s.task_meta id m } := by
  refine h.of_meta (fun x => ?_) (fun x => ?_) fun x hx => ?_
  · by_cases hxi : x = id
    · subst hxi
      simpa using hl
    · simpa [hxi] using h.level_lt x
  · by_cases hxi : x = id
    · subst hxi
      simp [hrun, hm]
    · simp [hxi]
  · by_cases hxi : x = id
    · subst hxi
      simp [hm] at hx
    · simp [hxi]

/-- The tasks after a change of the level and the priority of one. -/
def setLevel (s : TaskState) (id level : Nat) (priority : Int) : Nat → TaskMeta :=
  Function.update s.task_meta id { s.task_meta id with level := level, priority := priority }

theorem Inv.task_run (h : Inv s) (task_id level priority : Int) :
    ∃ s', task_run s task_id level priority = some s' ∧ Inv s' ∧ SameRest s s' := by
  unfold vibeos.task.task_run
  by_cases hid : task_id < 0 ∨ (s.taskTop : Int) ≤ task_id
  · exact ⟨s, if_pos hid, h, rfl, rfl, rfl⟩
  rw [if_neg hid]
  dsimp only
  have htop : task_id.toNat < s.taskTop := by omega
  generalize task_id.toNat = id at htop
  generalize (if level < 0 then (s.task_meta id).level else level.toNat) = l₀
  have hl : (if MAX_TASKLEVELS ≤ l₀ then MAX_TASKLEVELS - 1 else l₀) < MAX_TASKLEVELS := by
    have : 0 < MAX_TASKLEVELS := by decide
    split <;> omega
  generalize (if MAX_TASKLEVELS ≤ l₀ then MAX_TASKLEVELS - 1 else l₀) = l at hl
  generalize (if priority ≤ 0 then (1 : Int) else priority) = prio
  -- the task is out of the lists, or stays on its level
  obtain ⟨s₁, hs₁, h₁, hrest₁, hkeep⟩ : ∃ s₁, (if (s.task_meta id).flags = .running ∧
      (s.task_meta id).level ≠ l then vibeos.task.task_remove s id else s) = s₁ ∧ Inv s₁ ∧
      SameRest s s₁ ∧ ((s₁.task_meta id).flags = .running → (s₁.task_meta id).level = l) := by
    refine ⟨_, rfl, ?_⟩
    split
    · rename_i hmove
      obtain ⟨hinv, hrest, hmeta⟩ := h.task_remove hmove.1
      refine ⟨hinv, hrest, fun hrun => ?_⟩
      rw [hmeta, setFlags_flags, if_pos rfl] at hrun
      cases hrun
    · rename_i hmove
      exact ⟨h, ⟨rfl, rfl, rfl⟩, fun hrun => by_contra fun hne => hmove ⟨hrun, hne⟩⟩
  rw [hs₁]
  -- the new level and priority
  have h₂ : Inv { s₁ with task_meta := setLevel s₁ id l prio } := by
    unfold setLevel
    by_cases hrun : (s₁.task_meta id).flags = .running
    · refine h₁.of_meta (fun x => ?_) (fun x => ?_) fun x _ => ?_
      · by_cases hx : x = id
        · subst hx
          simpa using hl
        · simpa [hx] using h₁.level_lt x
      · by_cases hx : x = id
        · subst hx
          simp
        · simp [hx]
      · by_cases hx : x = id
        · subst hx
          simp [hkeep hrun]
        · simp [hx]
    · exact h₁.of_stopped hl hrun hrun
  split
  · rename_i hrun
    have hid₁ : id < s₁.taskTop := by
      rw [hrest₁.taskTop]
      exact htop
    obtain ⟨s₃, hs₃, h₃, hrest₃, _⟩ := h₂.task_add hid₁ hrun
    unfold setLevel at hs₃
    rw [hs₃]
    exact ⟨_, rfl, h₃.task_switchsub,
      (hrest₁.trans ⟨hrest₃.ctx_tasks, hrest₃.taskTop, hrest₃.current⟩).trans
        (sameRest_switchsub s₃)⟩
  · have hrest₂ : SameRest s₁ { s₁ with task_meta := setLevel s₁ id l prio } := ⟨rfl, rfl, rfl⟩
    exact ⟨_, rfl, h₂.task_switchsub,
      (hrest₁.trans hrest₂).trans (sameRest_switchsub _)⟩

section

variable [StackConfig]

theorem Inv.fresh_task (h : Inv s) (hrun : (s.task_meta id).flags ≠ .running) (task : Nat) :
    Inv (fresh_task s id task) := by
  have h' : Inv { s with ctx_tasks := Function.update s.ctx_tasks id (new_context id task) } :=
    { h with }
  unfold vibeos.task.fresh_task
  exact h'.of_stopped (by decide) hrun (by decide)

theorem Inv.task_create (h : Inv s) {task i : Nat} {level priority : Int}
    (hs : task_create s task level priority = some (i, s')) :
    ∃ s₁, Inv s₁ ∧ s₁ = vibeos.task.fresh_task { s with taskTop := s.taskTop + 1 } s.taskTop task ∧
      SameRest s₁ s' ∧ Inv s' := by
  unfold vibeos.task.task_create at hs
  split at hs
  · cases hs
  · rename_i htop
    have h₀ : Inv { s with taskTop := s.taskTop + 1 } :=
      { h with
        top := Nat.lt_of_not_le htop
        running_lt := fun hrun => Nat.lt_succ_of_lt (h.running_lt hrun) }
    have hrun : (s.task_meta s.taskTop).flags ≠ .running := fun hrun =>
      absurd (h.running_lt hrun) (Nat.lt_irrefl _)
    have h₁ := h₀.fresh_task hrun task
    obtain ⟨s₂, hs₂, h₂, hrest⟩ := h₁.task_run s.taskTop level priority
    dsimp only at hs hs₂
    rw [hs₂] at hs
    cases hs
    exact ⟨_, h₁, rfl, hrest, h₂⟩

theorem Inv.task_reset (h : Inv s) (task_id : Int) (task : Nat) (level priority : Int) :
    ∃ s', task_reset s task_id task level priority = some s' ∧ Inv s' := by
  unfold vibeos.task.task_reset
  by_cases hid : task_id < 0 ∨ (s.taskTop : Int) ≤ task_id
  · exact ⟨s, if_pos hid, h⟩
  rw [if_neg hid]
  dsimp only
  generalize task_id.toNat = id
  have hfresh : Inv (vibeos.task.fresh_task (if (s.task_meta id).flags = .running then
      vibeos.task.task_remove s id else s) id task) := by
    split
    · rename_i hrun
      obtain ⟨hinv, _, hmeta⟩ := h.task_remove hrun
      apply hinv.fresh_task
      rw [hmeta, setFlags_flags, if_pos rfl]
      decide
    · rename_i hrun
      exact h.fresh_task hrun task
  obtain ⟨s', hs', h', _⟩ := hfresh.task_run task_id level priority
  exact ⟨s', hs', h'⟩

end

theorem Inv.task_os (h : Inv s) (regs : SavedRegs) : Inv (task_os s regs) := by
  unfold vibeos.task.task_os
  split
  · exact h
  · split
    · exact h
    · exact { h with }

theorem Inv.task_sleep (h : Inv s) (task_id : Int) (regs : SavedRegs) :
    Inv (task_sleep s task_id regs) := by
  unfold vibeos.task.task_sleep
  split
  · exact h
  dsimp only
  split
  · exact h
  rename_i hrun
  have h' := (h.task_remove (not_not.mp hrun)).1.task_switchsub
  split
  · exact h'.task_os regs
  · exact h'

theorem Inv.task_wake (h : Inv s) (task_id : Int) :
    ∃ s', task_wake s task_id = some s' ∧ Inv s' := by
  unfold vibeos.task.task_wake
  by_cases hid : task_id < 0 ∨ (s.taskTop : Int) ≤ task_id
  · exact ⟨s, if_pos hid, h⟩
  rw [if_neg hid]
  dsimp only
  split
  · exact ⟨s, rfl, h⟩
  · rename_i hrun
    obtain ⟨s', hs', h', _⟩ := h.task_add (by omega) hrun
    exact ⟨_, by rw [hs']; rfl, h'.task_switchsub⟩

theorem Inv.task_go (h : Inv s) (i : Int) : Inv (task_go s i) := by
  unfold vibeos.task.task_go
  split
  · exact h
  dsimp only
  split
  · exact h
  rename_i hrun
  split
  · exact (h.task_remove (not_not.mp hrun)).1
  · exact { h with }

/-! ## The next task -/

theorem first_level_eq_some {l : Nat} (h : first_level s = some l) :
    l < MAX_TASKLEVELS ∧ 0 < (s.task_levels l).running := by
  unfold first_level at h
  have hmem := List.mem_of_find?_eq_some h
  have hp := List.find?_some h
  exact ⟨List.mem_range.mp hmem, by simpa using hp⟩

theorem next_level_eq_some {l q : Nat} (h : next_level s = some (l, q)) :
    l < MAX_TASKLEVELS ∧ 0 < (s.task_levels l).running := by
  unfold next_level at h
  split at h
  · rename_i hc
    cases h
    exact ⟨hc.1, hc.2.1⟩
  · simp only [Option.map_eq_some_iff] at h
    obtain ⟨l', hl', heq⟩ := h
    cases heq
    rcases Option.or_eq_some_iff.mp hl' with hl' | ⟨_, hl'⟩
    · obtain ⟨step, _, hstep⟩ := List.mem_map.mp (List.mem_of_find?_eq_some hl')
      have hp := List.find?_some hl'
      refine ⟨?_, by simpa using hp⟩
      rw [← hstep]
      exact Nat.mod_lt _ (by decide)
    · exact first_level_eq_some hl'

theorem next_level_quota {l q : Nat} (hq : s.current_level_quota ≤ LEVEL0_QUOTA)
    (h : next_level s = some (l, q)) : q ≤ LEVEL0_QUOTA := by
  unfold next_level at h
  split at h
  · cases h
    omega
  · simp only [Option.map_eq_some_iff] at h
    obtain ⟨l', _, heq⟩ := h
    cases heq
    split <;> decide

/-- The state after `task_next` took a task from level `l`. -/
def advance (s : TaskState) (l q : Nat) : TaskState := { s with
  current_level := l
  current_level_quota := q
  task_levels := Function.update s.task_levels l { s.task_levels l with
    now := if (s.task_levels l).running ≤ (s.task_levels l).now + 1 then 0
      else (s.task_levels l).now + 1 } }

theorem Inv.advance (h : Inv s) {l q : Nat} (hl : l < MAX_TASKLEVELS) (hq : q ≤ LEVEL0_QUOTA) :
    Inv (advance s l q) where
  top := h.top
  level_lt := h.level_lt
  running_lt := h.running_lt
  level := hl
  quota := hq
  nodup := by
    intro l'
    by_cases hl' : l' = l
    · subst hl'
      simpa [vibeos.task.advance, TaskLevel.stored] using h.nodup l'
    · simpa [vibeos.task.advance, hl'] using h.nodup l'
  mem_iff := by
    intro l' id
    rw [show (vibeos.task.advance s l q).task_meta = s.task_meta from rfl, ← h.mem_iff]
    by_cases hl' : l' = l
    · subst hl'
      simp [vibeos.task.advance, TaskLevel.stored]
    · simp [vibeos.task.advance, hl']
  cursor := by
    intro l'
    by_cases hl' : l' = l
    · subst hl'
      simp only [vibeos.task.advance, Function.update_self]
      split <;> omega
    · simpa [vibeos.task.advance, hl'] using h.cursor l'

/-- Everything that `task_next` does: with no level to take from it gives -1, else it moves
the cursor of the level and gives the task, unless that has no context. -/
theorem Inv.task_next_cases (h : Inv s) :
    (next_level s = none ∧ task_next s = (-1, s)) ∨
    ∃ l q id, next_level s = some (l, q) ∧ l < MAX_TASKLEVELS ∧
      (s.task_levels l).now < (s.task_levels l).running ∧
      (s.task_levels l).tasks (s.task_levels l).now = id ∧
      (s.task_meta id).flags = .running ∧
      task_next s =
        if (s.ctx_tasks id).ra = 0 ∨ (s.ctx_tasks id).sp = 0 then
          (-1, vibeos.task.task_remove (vibeos.task.advance s l q) id)
        else ((id : Int), vibeos.task.advance s l q) := by
  cases hnext : next_level s with
  | none =>
    refine Or.inl ⟨rfl, ?_⟩
    unfold task_next
    rw [hnext]
  | some lq =>
    obtain ⟨l, q⟩ := lq
    obtain ⟨hl, hpos⟩ := next_level_eq_some hnext
    have hnow : (s.task_levels l).now < (s.task_levels l).running := by
      have := h.cursor l
      omega
    have hmem : (s.task_levels l).tasks (s.task_levels l).now ∈ (s.task_levels l).stored :=
      TaskLevel.mem_stored.mpr ⟨_, hnow, rfl⟩
    have hrun := (h.mem_iff.mp hmem).1
    have hlt := h.running_lt hrun
    refine Or.inr ⟨l, q, _, rfl, hl, hnow, rfl, hrun, ?_⟩
    unfold task_next
    rw [hnext]
    simp only [if_neg (Nat.ne_of_gt hpos), if_neg (Nat.not_le.mpr hnow), if_neg (Nat.not_le.mpr hlt),
      if_neg (not_not.mpr hrun)]
    rfl

theorem Inv.task_next (h : Inv s) : Inv (task_next s).2 := by
  rcases h.task_next_cases with ⟨_, heq⟩ | ⟨l, q, id, hnext, hl, _, _, hrun, heq⟩
  · rw [heq]
    exact h
  · have h' := h.advance hl (next_level_quota h.quota hnext)
    rw [heq]
    split
    · exact (h'.task_remove hrun).1
    · exact h'

/-! ## Runs -/

variable [StackConfig]

theorem Inv.step (h : Inv s) {call : Call} (hs : step s call = some s') : Inv s' := by
  cases call with
  | create task level priority =>
    obtain ⟨⟨i, s₁⟩, hcreate, heq⟩ := Option.map_eq_some_iff.mp hs
    obtain ⟨_, _, _, _, h'⟩ := h.task_create hcreate
    exact heq ▸ h'
  | reset task_id task level priority =>
    obtain ⟨s₁, hreset, h'⟩ := h.task_reset task_id task level priority
    exact Option.some_inj.mp (hreset.symm.trans hs) ▸ h'
  | run task_id level priority =>
    obtain ⟨s₁, hrun, h', _⟩ := h.task_run task_id level priority
    exact Option.some_inj.mp (hrun.symm.trans hs) ▸ h'
  | sleep task_id regs => exact Option.some_inj.mp hs ▸ h.task_sleep task_id regs
  | wake task_id =>
    obtain ⟨s₁, hwake, h'⟩ := h.task_wake task_id
    exact Option.some_inj.mp (hwake.symm.trans hs) ▸ h'
  | next => exact Option.some_inj.mp hs ▸ h.task_next
  | go task_id => exact Option.some_inj.mp hs ▸ h.task_go task_id
  | os regs => exact Option.some_inj.mp hs ▸ h.task_os regs

theorem Inv.run (h : Inv s) {calls : List Call} (hs : run s calls = some s') : Inv s' := by
  induction calls generalizing s with
  | nil =>
    cases hs
    exact h
  | cons call calls ih =>
    obtain ⟨s₁, hstep, hrest⟩ := Option.bind_eq_some_iff.mp hs
    exact ih (h.step hstep) hrest

theorem Reached.inv (h : Reached s) : Inv s := by
  obtain ⟨calls, hrun⟩ := h
  exact inv_init.run hrun

/-- The flags of the tasks and the lists of the levels agree. -/
structure ListsAgree (s : TaskState) : Prop where
  runnable : ∀ id, (s.task_meta id).flags = .running ↔
    (s.task_meta id).level < MAX_TASKLEVELS ∧
      (s.task_levels (s.task_meta id).level).stored.count id = 1 ∧
      ∀ l < MAX_TASKLEVELS, l ≠ (s.task_meta id).level → id ∉ (s.task_levels l).stored
  stopped : ∀ id, (s.task_meta id).flags ≠ .running →
    ∀ l < MAX_TASKLEVELS, id ∉ (s.task_levels l).stored
  running : ∀ l < MAX_TASKLEVELS, (s.task_levels l).running = (s.task_levels l).stored.length ∧
    (s.task_levels l).running ≤ MAX_TASKS
  cursor : ∀ l < MAX_TASKLEVELS,
    (s.task_levels l).now = 0 ∨ (s.task_levels l).now < (s.task_levels l).running
  below_top : ∀ l < MAX_TASKLEVELS, ∀ id ∈ (s.task_levels l).stored, id < s.taskTop

/-- The flags and the lists agree after any calls, in any order. -/
theorem lists_agree (h : Reached s) : ListsAgree s where
  runnable := by
    intro id
    have hinv := h.inv
    constructor
    · intro hrun
      have hmem := hinv.mem_iff.mpr ⟨hrun, rfl⟩
      refine ⟨hinv.level_lt id, List.count_eq_one_of_mem (hinv.nodup _) hmem, ?_⟩
      intro l _ hl hmem'
      exact hl (hinv.mem_iff.mp hmem').2.symm
    · intro ⟨_, hcount, _⟩
      have hmem : id ∈ (s.task_levels (s.task_meta id).level).stored :=
        List.count_pos_iff.mp (by omega)
      exact (hinv.mem_iff.mp hmem).1
  stopped := fun _ hrun _ _ hmem => hrun (h.inv.mem_iff.mp hmem).1
  running := fun l _ => ⟨(TaskLevel.length_stored _).symm,
    Nat.le_trans (h.inv.running_le l) h.inv.top⟩
  cursor := fun l _ => h.inv.cursor l
  below_top := fun _ _ _ hid => h.inv.stored_lt hid

omit [StackConfig] in
theorem lists_agree_two : ∃ s, @Reached qemuStacks s ∧ s.taskTop = 2 ∧ ListsAgree s := by
  let _ := qemuStacks
  let calls : List Call := [.create 64 0 1, .create 128 1 1, .run 0 2 1, .next, .wake 1, .next]
  obtain ⟨s, hs⟩ : ∃ s, run task_init calls = some s := Option.isSome_iff_exists.mp (by decide)
  have htop : (run task_init calls).map TaskState.taskTop = some 2 := by decide
  rw [hs] at htop
  exact ⟨s, ⟨calls, hs⟩, Option.some_inj.mp htop, lists_agree ⟨calls, hs⟩⟩

end vibeos.task

-- Fairness of the scheduler. `task_next` gives -1 only when no task is runnable, and
-- each runnable task comes within ten calls for each runnable task that there is.
import Vibeos.Loops
import Vibeos.TaskInv

namespace vibeos.task

variable [StackConfig] {s s' : TaskState} {id : Nat}

/-! ## Contexts that can run -/

/-- A call with an entry function that is not null. -/
def Call.Entered : Call → Prop
  | .create task _ _ => task ≠ 0
  | .reset _ task _ _ => task ≠ 0
  | _ => True

/-- A state that calls lead to, each task with an entry function. -/
def ReachedEntered (s : TaskState) : Prop :=
  ∃ calls : List Call, (∀ call ∈ calls, call.Entered) ∧ run task_init calls = some s

/-- Each task has an address to start at and a stack. -/
def Startable (s : TaskState) : Prop :=
  ∀ id < s.taskTop, (s.ctx_tasks id).ra ≠ 0 ∧ (s.ctx_tasks id).sp ≠ 0

omit [StackConfig] in
theorem Startable.of_rest (h : Startable s) (hrest : SameRest s s') : Startable s' := by
  intro id hid
  rw [hrest.ctx_tasks]
  rw [hrest.taskTop] at hid
  exact h id hid

theorem startable_fresh {i task : Nat} (htask : task ≠ 0)
    (h : ∀ id < s.taskTop, id ≠ i → (s.ctx_tasks id).ra ≠ 0 ∧ (s.ctx_tasks id).sp ≠ 0) :
    Startable (fresh_task s i task) := by
  intro id hid
  simp only [fresh_task]
  by_cases hi : id = i
  · subst hi
    rw [Function.update_self]
    refine ⟨htask, ?_⟩
    simp only [new_context, STACK_SIZE]
    omega
  · rw [Function.update_of_ne hi]
    exact h id hid hi

omit [StackConfig] in
theorem Startable.task_os (h : Startable s) (regs : SavedRegs) : Startable (task_os s regs) := by
  unfold vibeos.task.task_os
  split
  · exact h
  split
  · exact h
  · rename_i id _ _
    intro x hx
    dsimp only at hx ⊢
    by_cases hxi : x = id
    · subst hxi
      rw [Function.update_self]
      exact ⟨Nat.ne_of_gt regs.ra_pos, Nat.ne_of_gt regs.sp_pos⟩
    · rw [Function.update_of_ne hxi]
      exact h x hx

omit [StackConfig] in
theorem Startable.task_run (h : Startable s) (hinv : Inv s) {task_id level priority : Int}
    (hs : task_run s task_id level priority = some s') : Startable s' := by
  obtain ⟨s₁, hrun, _, hrest⟩ := hinv.task_run task_id level priority
  rw [hs] at hrun
  exact Option.some_inj.mp hrun ▸ h.of_rest hrest

theorem Startable.task_reset (h : Startable s) (hinv : Inv s) {task_id : Int} {task : Nat}
    {level priority : Int} (htask : task ≠ 0)
    (hs : task_reset s task_id task level priority = some s') : Startable s' := by
  unfold vibeos.task.task_reset at hs
  split at hs
  · cases hs
    exact h
  dsimp only at hs
  generalize task_id.toNat = id at hs
  split at hs
  · rename_i hrun
    obtain ⟨hremove, hrest, hmeta⟩ := hinv.task_remove hrun
    have hstop : ((task_remove s id).task_meta id).flags ≠ .running := by
      rw [hmeta, setFlags_flags, if_pos rfl]
      decide
    refine (startable_fresh htask fun x hx _ => ?_).task_run (hremove.fresh_task hstop task) hs
    exact h.of_rest hrest x hx
  · rename_i hrun
    exact (startable_fresh htask fun x hx _ => h x hx).task_run (hinv.fresh_task hrun task) hs

theorem Startable.step (h : Startable s) (hinv : Inv s) {call : Call} (hcall : call.Entered)
    (hs : step s call = some s') : Startable s' := by
  cases call with
  | create task level priority =>
    obtain ⟨⟨i, s₁⟩, hcreate, heq⟩ := Option.map_eq_some_iff.mp hs
    obtain ⟨s₂, _, hfresh, hrest, _⟩ := hinv.task_create hcreate
    have h₂ : Startable s₂ := by
      rw [hfresh]
      refine startable_fresh hcall fun x hx hne => h x ?_
      dsimp only at hx
      omega
    exact heq ▸ h₂.of_rest hrest
  | reset task_id task level priority => exact h.task_reset hinv hcall hs
  | run task_id level priority => exact h.task_run hinv hs
  | sleep task_id regs =>
    rw [← Option.some_inj.mp hs]
    unfold task_sleep
    split
    · exact h
    dsimp only
    split
    · exact h
    rename_i hrun
    have hrest := (hinv.task_remove (not_not.mp hrun)).2.1
    have h' := h.of_rest (hrest.trans (sameRest_switchsub _))
    split
    · exact h'.task_os regs
    · exact h'
  | wake task_id =>
    change task_wake s task_id = some s' at hs
    unfold task_wake at hs
    split at hs
    · cases hs
      exact h
    dsimp only at hs
    split at hs
    · cases hs
      exact h
    · rename_i hid hrun
      obtain ⟨s₁, hadd, _, hrest, _⟩ := hinv.task_add (by omega) hrun
      rw [hadd] at hs
      exact Option.some_inj.mp hs ▸ h.of_rest (hrest.trans (sameRest_switchsub s₁))
  | next =>
    rw [← Option.some_inj.mp hs]
    rcases hinv.task_next_cases with ⟨_, heq⟩ | ⟨l, q, id, hnext, hl, _, _, hrun, heq⟩
    · rw [heq]
      exact h
    · have hadv : Startable (advance s l q) := h
      rw [heq]
      split
      · have hinv' := hinv.advance hl (next_level_quota hinv.quota hnext)
        exact hadv.of_rest (hinv'.task_remove hrun).2.1
      · exact hadv
  | go task_id =>
    rw [← Option.some_inj.mp hs]
    unfold task_go
    split
    · exact h
    dsimp only
    split
    · exact h
    rename_i hrun
    split
    · exact h.of_rest (hinv.task_remove (not_not.mp hrun)).2.1
    · exact h
  | os regs => exact Option.some_inj.mp hs ▸ h.task_os regs

theorem Startable.run (h : Startable s) (hinv : Inv s) {calls : List Call}
    (hcalls : ∀ call ∈ calls, call.Entered) (hs : run s calls = some s') :
    Inv s' ∧ Startable s' := by
  induction calls generalizing s with
  | nil =>
    cases hs
    exact ⟨hinv, h⟩
  | cons call calls ih =>
    obtain ⟨s₁, hstep, hrest⟩ := Option.bind_eq_some_iff.mp hs
    have hcall := hcalls call List.mem_cons_self
    exact ih (h.step hinv hcall hstep) (hinv.step hstep)
      (fun c hc => hcalls c (List.mem_cons_of_mem _ hc)) hrest

theorem ReachedEntered.startable (h : ReachedEntered s) : Inv s ∧ Startable s := by
  obtain ⟨calls, hcalls, hrun⟩ := h
  have hinit : Startable task_init := fun id hid => absurd hid (Nat.not_lt_zero id)
  exact hinit.run inv_init hcalls hrun

omit [StackConfig]

/-! ## The next task -/

theorem task_next_eq (hinv : Inv s) (h : Startable s) {l q : Nat}
    (hnext : next_level s = some (l, q)) :
    (s.task_levels l).now < (s.task_levels l).running ∧
      task_next s = (((s.task_levels l).tasks (s.task_levels l).now : Int), advance s l q) := by
  rcases hinv.task_next_cases with ⟨hnone, _⟩ | ⟨l', q', id, hsome, _, hnow, hid, hrun, heq⟩
  · rw [hnext] at hnone
    cases hnone
  · rw [hnext] at hsome
    cases hsome
    obtain ⟨hra, hsp⟩ := h id (hinv.running_lt hrun)
    refine ⟨hnow, ?_⟩
    rw [heq, if_neg (by tauto), hid]

theorem next_level_cases (hinv : Inv s) {L : Nat} (hL : L < MAX_TASKLEVELS)
    (hpos : 0 < (s.task_levels L).running) :
    (0 < s.current_level_quota ∧
      next_level s = some (s.current_level, s.current_level_quota - 1)) ∨
    ∃ d q, 1 ≤ d ∧ d ≤ MAX_TASKLEVELS ∧ q < LEVEL0_QUOTA ∧
      next_level s = some ((s.current_level + d) % MAX_TASKLEVELS, q) ∧
      (∀ e, 1 ≤ e → e < d → (s.current_level + e) % MAX_TASKLEVELS ≠ L) ∧
      (s.current_level = L → s.current_level_quota = 0) := by
  by_cases hstay : s.current_level < MAX_TASKLEVELS ∧
      0 < (s.task_levels s.current_level).running ∧ 0 < s.current_level_quota
  · refine Or.inl ⟨hstay.2.2, ?_⟩
    unfold next_level
    rw [if_pos hstay]
  · right
    have hcur : s.current_level < 4 := hinv.level
    have hL' : L < 4 := hL
    -- the search meets level `L` at the latest
    obtain ⟨l, hl⟩ : ∃ l, ((List.range' 1 MAX_TASKLEVELS).map fun step =>
        (s.current_level + step) % MAX_TASKLEVELS).find?
          (fun level => 0 < (s.task_levels level).running) = some l := by
      rw [← Option.isSome_iff_exists, List.find?_isSome]
      refine ⟨L, List.mem_map.mpr ⟨(L + 3 - s.current_level) % 4 + 1, ?_, ?_⟩, by simpa using hpos⟩
      · simp only [List.mem_range'_1, MAX_TASKLEVELS]
        omega
      · simp only [MAX_TASKLEVELS]
        omega
    obtain ⟨_, i, hi, hget, hbefore⟩ := List.find?_eq_some_iff_getElem.mp hl
    simp only [List.getElem_map, List.getElem_range', List.length_map, List.length_range'] at hi hget
    refine ⟨i + 1, if l = 0 then LEVEL0_QUOTA - 1 else 0, by omega, by omega, ?_, ?_, ?_, ?_⟩
    · split <;> decide
    · unfold next_level
      rw [if_neg hstay]
      dsimp only
      rw [hl, ← hget]
      simp [Nat.add_comm]
    · intro e he1 hei heq
      have := hbefore (e - 1) (by omega)
      simp only [List.getElem_map, List.getElem_range'] at this
      rw [show 1 + 1 * (e - 1) = e by omega, heq] at this
      simp [hpos] at this
    · intro heq
      rw [heq] at hstay
      by_contra hq
      exact hstay ⟨hL, hpos, by omega⟩

theorem next_level_of_pos (hinv : Inv s) {L : Nat} (hL : L < MAX_TASKLEVELS)
    (hpos : 0 < (s.task_levels L).running) : ∃ l q, next_level s = some (l, q) := by
  rcases next_level_cases hinv hL hpos with ⟨_, hnext⟩ | ⟨_, _, _, _, _, hnext, _⟩
  · exact ⟨_, _, hnext⟩
  · exact ⟨_, _, hnext⟩

theorem task_next_runnable (hinv : Inv s) (h : Startable s) :
    ((task_next s).1 = -1 ∧ ∀ id, (s.task_meta id).flags ≠ .running) ∨
    ∃ id : Nat, (task_next s).1 = id ∧ (s.task_meta id).flags = .running := by
  cases hnext : next_level s with
  | none =>
    left
    constructor
    · rcases hinv.task_next_cases with ⟨_, heq⟩ | ⟨_, _, _, hsome, _⟩
      · rw [heq]
      · rw [hnext] at hsome
        cases hsome
    · intro id hrun
      obtain ⟨i, hi, _⟩ := TaskLevel.mem_stored.mp (hinv.mem_iff.mpr ⟨hrun, rfl⟩)
      obtain ⟨l, q, hsome⟩ := next_level_of_pos hinv (hinv.level_lt id) (by omega)
      rw [hnext] at hsome
      cases hsome
  | some lq =>
    right
    obtain ⟨hnow, heq⟩ := task_next_eq hinv h hnext
    rw [heq]
    exact ⟨_, rfl, (hinv.mem_iff.mp (TaskLevel.mem_stored.mpr ⟨_, hnow, rfl⟩)).1⟩

/-! ## The wait of a task -/

/-- The most calls before level `L` has its turn, with `q` left of the quota of level `cur`. -/
def wait (L cur q : Nat) : Nat :=
  if cur = L ∧ 0 < q then 0 else q + LEVEL0_QUOTA * ((L + 3 - cur) % MAX_TASKLEVELS)

theorem wait_eq {L cur q : Nat} (h : cur = L → q = 0) :
    wait L cur q = q + 3 * ((L + 3 - cur) % 4) := by
  unfold wait
  rw [if_neg (by omega)]
  rfl

theorem wait_lt {L cur q : Nat} (hcur : cur < MAX_TASKLEVELS) (hL : L < MAX_TASKLEVELS)
    (hq : q ≤ LEVEL0_QUOTA) : wait L cur q < 10 := by
  simp only [MAX_TASKLEVELS, LEVEL0_QUOTA] at hcur hL hq
  simp only [wait, LEVEL0_QUOTA, MAX_TASKLEVELS]
  split <;> omega

theorem wait_drops (hinv : Inv s) {L l q : Nat} (hL : L < MAX_TASKLEVELS)
    (hpos : 0 < (s.task_levels L).running) (hnext : next_level s = some (l, q)) (hl : l ≠ L) :
    wait L l q < wait L s.current_level s.current_level_quota := by
  have hcur : s.current_level < 4 := hinv.level
  have hquota : s.current_level_quota ≤ 3 := hinv.quota
  have hL' : L < 4 := hL
  rcases next_level_cases hinv hL hpos with ⟨hq, hstay⟩ | ⟨d, q', hd1, hd4, hq', haround, hfirst, hzero⟩
  · rw [hnext] at hstay
    cases hstay
    rw [wait_eq (fun heq => absurd heq hl), wait_eq (fun heq => absurd heq hl)]
    omega
  · rw [hnext] at haround
    cases haround
    rw [wait_eq (fun heq => absurd heq hl), wait_eq hzero]
    simp only [MAX_TASKLEVELS, LEVEL0_QUOTA] at hd4 hq' hl hfirst ⊢
    have hturn : d < (L + 3 - s.current_level) % 4 + 1 := by
      by_contra hge
      rcases Nat.lt_or_ge ((L + 3 - s.current_level) % 4 + 1) d with hlt | hle
      · exact hfirst _ (by omega) hlt (by omega)
      · exact hl (by omega)
    omega

/-! ## Fairness -/

def runnable (s : TaskState) : Nat :=
  (List.range s.taskTop).countP fun id => (s.task_meta id).flags = .running

theorem running_le_runnable (hinv : Inv s) (l : Nat) : (s.task_levels l).running ≤ runnable s := by
  have hsub : (s.task_levels l).stored ⊆
      (List.range s.taskTop).filter fun id => (s.task_meta id).flags = .running := by
    intro id hid
    have hrun := (hinv.mem_iff.mp hid).1
    simpa [hrun] using hinv.running_lt hrun
  have hlen := (List.subperm_of_subset (hinv.nodup l) hsub).length_le
  rw [TaskLevel.length_stored, ← List.countP_eq_length_filter] at hlen
  exact hlen

/-- How far the cursor of a level is from position `j`, going around. -/
def distance (tl : TaskLevel) (j : Nat) : Nat := (j + tl.running - tl.now) % tl.running

/-- The most calls before the task at position `j` of level `L` has its turn. -/
def rank (L j : Nat) (s : TaskState) : Nat :=
  10 * distance (s.task_levels L) j + wait L s.current_level s.current_level_quota

theorem distance_drops {r now j : Nat} (hj : j < r) (hnow : now < r) (hne : now ≠ j) :
    (j + r - (if r ≤ now + 1 then 0 else now + 1)) % r + 1 = (j + r - now) % r := by
  rcases Nat.lt_or_gt_of_ne hne with hlt | hgt
  · rw [if_neg (by omega), show j + r - (now + 1) = (j - now - 1) + r by omega,
      show j + r - now = (j - now) + r by omega, Nat.add_mod_right, Nat.add_mod_right,
      Nat.mod_eq_of_lt (by omega), Nat.mod_eq_of_lt (by omega)]
    omega
  · rw [Nat.mod_eq_of_lt (by omega : j + r - now < r)]
    split
    · rw [Nat.sub_zero, Nat.add_mod_right, Nat.mod_eq_of_lt hj]
      omega
    · rw [Nat.mod_eq_of_lt (by omega)]
      omega

/-- What the calls of `task_next` keep: the place of a runnable task in its list. -/
structure Placed (L j id : Nat) (s : TaskState) : Prop where
  inv : Inv s
  startable : Startable s
  level_lt : L < MAX_TASKLEVELS
  lt : j < (s.task_levels L).running
  at_place : (s.task_levels L).tasks j = id

theorem ranking (L j id : Nat) :
    Ranking (fun s => (task_next s).2) (Placed L j id) (fun s => (task_next s).1 = id)
      (rank L j) where
  keeps := by
    intro s h
    rcases h.inv.task_next_cases with ⟨_, heq⟩ | ⟨l, q, _, hnext, hl, _, _, _, _⟩
    · rw [heq]
      exact h
    · rw [(task_next_eq h.inv h.startable hnext).2]
      refine ⟨h.inv.advance hl (next_level_quota h.inv.quota hnext), h.startable, h.level_lt,
        ?_, ?_⟩
      · by_cases hl : L = l
        · subst hl
          simpa [advance] using h.lt
        · simpa [advance, hl] using h.lt
      · by_cases hl : L = l
        · subst hl
          simpa [advance] using h.at_place
        · simpa [advance, hl] using h.at_place
  drops := by
    intro s h
    have hpos : 0 < (s.task_levels L).running := Nat.lt_of_le_of_lt (Nat.zero_le j) h.lt
    obtain ⟨l, q, hnext⟩ := next_level_of_pos h.inv h.level_lt hpos
    have hq := next_level_quota h.inv.quota hnext
    obtain ⟨hnow, heq⟩ := task_next_eq h.inv h.startable hnext
    rw [heq]
    by_cases hl : l = L
    · subst hl
      by_cases hj : (s.task_levels l).now = j
      · -- the cursor is at the task
        left
        rw [hj, h.at_place]
      · right
        have hwait := wait_lt h.level_lt h.level_lt hq
        have hdrop := distance_drops h.lt hnow hj
        simp only [rank, distance, advance, Function.update_self]
        omega
    · right
      have hwait := wait_drops h.inv h.level_lt hpos hnext hl
      simp only [rank, advance]
      rw [Function.update_of_ne (Ne.symm hl)]
      omega

theorem rank_lt (hinv : Inv s) {L j : Nat} (hL : L < MAX_TASKLEVELS)
    (hj : j < (s.task_levels L).running) : rank L j s < 10 * runnable s := by
  have hwait := wait_lt hinv.level hL hinv.quota
  have hdist : distance (s.task_levels L) j < (s.task_levels L).running :=
    Nat.mod_lt _ (Nat.lt_of_le_of_lt (Nat.zero_le j) hj)
  have hrun := running_le_runnable hinv L
  unfold rank
  omega

section

variable [StackConfig]

/-- `task_next` gives -1 only when no task is runnable, else a runnable task; and one call
after another, each runnable task comes within ten calls for each runnable task. -/
theorem task_next_fair (h : ReachedEntered s) :
    ((task_next s).1 = -1 ↔ ∀ id, (s.task_meta id).flags ≠ .running) ∧
    ((task_next s).1 ≠ -1 →
      ∃ id : Nat, (task_next s).1 = id ∧ (s.task_meta id).flags = .running) ∧
    ∀ id : Nat, (s.task_meta id).flags = .running →
      ∃ n < 10 * runnable s, (task_next ((fun s => (task_next s).2)^[n] s)).1 = id := by
  obtain ⟨hinv, hstart⟩ := h.startable
  refine ⟨?_, ?_, ?_⟩
  · rcases task_next_runnable hinv hstart with ⟨hnone, hall⟩ | ⟨id, hid, hrun⟩
    · exact ⟨fun _ => hall, fun _ => hnone⟩
    · refine ⟨fun hnone => ?_, fun hall => absurd hrun (hall id)⟩
      rw [hid] at hnone
      omega
  · intro hne
    rcases task_next_runnable hinv hstart with ⟨hnone, _⟩ | hsome
    · exact absurd hnone hne
    · exact hsome
  · intro id hrun
    obtain ⟨j, hj, htask⟩ := TaskLevel.mem_stored.mp (hinv.mem_iff.mpr ⟨hrun, rfl⟩)
    have hL := hinv.level_lt id
    obtain ⟨n, hn, hgoal⟩ := (ranking (s.task_meta id).level j id).exists_goal
      ⟨hinv, hstart, hL, hj, htask⟩
    exact ⟨n, Nat.lt_of_le_of_lt hn (rank_lt hinv hL hj), hgoal⟩

end

theorem task_next_fair_two : ∃ s, @ReachedEntered qemuStacks s ∧ (s.task_meta 1).flags = .running ∧
    ∃ n < 10 * runnable s, (task_next ((fun s => (task_next s).2)^[n] s)).1 = (1 : Nat) := by
  let _ := qemuStacks
  let calls : List Call := [.create 64 0 1, .create 128 1 1, .next]
  obtain ⟨s, hs⟩ : ∃ s, run task_init calls = some s := Option.isSome_iff_exists.mp (by decide)
  have hrun : (run task_init calls).map (fun s => (s.task_meta 1).flags) = some .running := by
    decide
  rw [hs] at hrun
  have hreached : ReachedEntered s := ⟨calls, by simp [calls, Call.Entered], hs⟩
  have hflags := Option.some_inj.mp hrun
  exact ⟨s, hreached, hflags, (task_next_fair hreached).2.2 1 hflags⟩

end vibeos.task

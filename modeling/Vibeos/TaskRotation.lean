-- The order of the tasks of a level. From the cursor on, and around, the ids of a
-- level come one after another; a task that is removed leaves the order of the
-- others as it was.
import Mathlib.Data.List.Rotate
import Vibeos.TaskFair

namespace vibeos.task

/-! ## The rotation of a level -/

/-- Where `task_next` looks: a cursor behind the ids counts as 0. -/
def TaskLevel.cursor (tl : TaskLevel) : Nat := if tl.running ≤ tl.now then 0 else tl.now

/-- The ids of a level in the order of their turns. -/
def TaskLevel.rotation (tl : TaskLevel) : List Nat := tl.stored.rotate tl.cursor

theorem TaskLevel.mem_rotation {tl : TaskLevel} {id : Nat} : id ∈ tl.rotation ↔ id ∈ tl.stored :=
  List.mem_rotate

theorem TaskLevel.cursor_lt {tl : TaskLevel} (h : 0 < tl.running) : tl.cursor < tl.running := by
  unfold TaskLevel.cursor
  split <;> omega

theorem filter_ne_of_notMem {xs : List Nat} {x : Nat} (h : x ∉ xs) : xs.filter (· ≠ x) = xs := by
  rw [List.filter_eq_self]
  intro y hy
  have : y ≠ x := fun heq => h (heq ▸ hy)
  simpa using this

section

variable {as bs : List Nat} {x c : Nat}

theorem rotate_without_before (has : x ∉ as) (hbs : x ∉ bs) (hc : as.length < c)
    (hlen : c ≤ as.length + bs.length) :
    (as ++ bs).rotate (c - 1) = ((as ++ x :: bs).rotate c).filter (· ≠ x) := by
  obtain ⟨k, rfl⟩ : ∃ k, c = as.length + (k + 1) := ⟨c - as.length - 1, by omega⟩
  have hdrop : x ∉ bs.drop k := fun hx => hbs (List.mem_of_mem_drop hx)
  have htake : x ∉ bs.take k := fun hx => hbs (List.mem_of_mem_take hx)
  rw [List.rotate_eq_drop_append_take (by simp; omega), List.rotate_eq_drop_append_take (by simp; omega),
    ← Nat.add_assoc, Nat.add_sub_cancel, Nat.add_assoc]
  simp only [List.drop_length_add_append, List.take_length_add_append, List.drop_succ_cons,
    List.take_succ_cons, List.filter_append, List.filter_cons, filter_ne_of_notMem has,
    filter_ne_of_notMem hdrop, filter_ne_of_notMem htake]
  simp

theorem rotate_without_behind (has : x ∉ as) (hbs : x ∉ bs) (hc : c ≤ as.length) :
    (as ++ bs).rotate (if as.length + bs.length ≤ c then 0 else c) =
      ((as ++ x :: bs).rotate c).filter (· ≠ x) := by
  have hdrop : x ∉ as.drop c := fun hx => has (List.mem_of_mem_drop hx)
  have htake : x ∉ as.take c := fun hx => has (List.mem_of_mem_take hx)
  have hsame : (as ++ bs).rotate (if as.length + bs.length ≤ c then 0 else c) =
      (as ++ bs).rotate c := by
    split
    · have hnone : c = (as ++ bs).length := by
        rw [List.length_append]
        omega
      rw [hnone, List.rotate_length, List.rotate_zero]
    · rfl
  rw [hsame, List.rotate_eq_drop_append_take (by simp; omega),
    List.rotate_eq_drop_append_take (by simp; omega)]
  simp only [List.drop_append_of_le_length hc, List.take_append_of_le_length hc,
    List.filter_append, List.filter_cons, filter_ne_of_notMem hbs, filter_ne_of_notMem hdrop,
    filter_ne_of_notMem htake]
  simp

end

theorem TaskLevel.rotation_drop {tl : TaskLevel} {i taskTop : Nat} (hi : i < tl.running)
    (hnodup : tl.stored.Nodup) (htop : ∀ id ∈ tl.stored, id < taskTop) :
    (tl.drop taskTop i).rotation = tl.rotation.filter (· ≠ tl.tasks i) := by
  have hlen : i < tl.stored.length := by simpa using hi
  have hget : tl.stored[i] = tl.tasks i := TaskLevel.getElem_stored tl hlen
  -- the ids before the removed one, and the ids behind it
  obtain ⟨as, bs, hsplit, has⟩ : ∃ as bs, tl.stored = as ++ tl.tasks i :: bs ∧ as.length = i :=
    ⟨tl.stored.take i, tl.stored.drop (i + 1), by rw [← hget]; simp, by simp; omega⟩
  have hrunning : tl.running = as.length + bs.length + 1 := by
    rw [← TaskLevel.length_stored, hsplit]
    simp
    omega
  have hrest : (tl.drop taskTop i).stored = as ++ bs := by
    rw [stored_drop hi htop, hsplit, ← has]
    simp [List.eraseIdx_append_of_length_le]
  have hnot : tl.tasks i ∉ as ∧ tl.tasks i ∉ bs := by
    rw [hsplit, List.nodup_middle, List.nodup_cons] at hnodup
    simpa using hnodup.1
  have hcursor : (tl.drop taskTop i).cursor =
      if i < tl.cursor then tl.cursor - 1
      else if as.length + bs.length ≤ tl.cursor then 0 else tl.cursor := by
    simp only [TaskLevel.cursor, TaskLevel.drop, hrunning]
    split_ifs <;> omega
  unfold TaskLevel.rotation
  rw [hrest, hsplit, hcursor]
  split
  · rename_i hlt
    have hcur : tl.cursor < _ := TaskLevel.cursor_lt (by omega)
    exact rotate_without_before hnot.1 hnot.2 (by omega) (by omega)
  · exact rotate_without_behind hnot.1 hnot.2 (by omega)

theorem TaskLevel.rotation_turn {tl : TaskLevel} (h : tl.now < tl.running) :
    ∃ rest, tl.rotation = tl.tasks tl.now :: rest ∧
      TaskLevel.rotation { tl with now := if tl.running ≤ tl.now + 1 then 0 else tl.now + 1 } =
        rest ++ [tl.tasks tl.now] := by
  have hcur : tl.cursor = tl.now := if_neg (Nat.not_le.mpr h)
  have hlen : tl.now < tl.stored.length := by simpa using h
  obtain ⟨rest, hrest⟩ : ∃ rest, tl.rotation = tl.tasks tl.now :: rest := by
    rw [← List.head?_eq_some_iff, TaskLevel.rotation, hcur, List.head?_rotate hlen,
      List.getElem?_eq_getElem hlen, TaskLevel.getElem_stored]
  refine ⟨rest, hrest, ?_⟩
  have hnext : TaskLevel.rotation
      { tl with now := if tl.running ≤ tl.now + 1 then 0 else tl.now + 1 } =
      tl.stored.rotate (tl.now + 1) := by
    simp only [TaskLevel.rotation, TaskLevel.cursor, TaskLevel.stored]
    by_cases hend : tl.running ≤ tl.now + 1
    · have hall : tl.now + 1 = ((List.range tl.running).map tl.tasks).length := by
        simp
        omega
      rw [if_pos hend, hall, List.rotate_length]
      simp
    · simp [hend]
  rw [hnext, ← List.rotate_rotate, ← hcur]
  change tl.rotation.rotate 1 = _
  rw [hrest, hcur]
  simp

/-! ## A call of `task_next` -/

variable {s s' : TaskState} {id l : Nat}

theorem rotation_task_remove (h : Inv s) (id l : Nat) :
    ((task_remove s id).task_levels l).rotation =
      (s.task_levels l).rotation.filter (· ≠ id) := by
  have hsame : id ∉ (s.task_levels l).stored →
      (s.task_levels l).rotation = (s.task_levels l).rotation.filter (· ≠ id) := fun hnot =>
    (filter_ne_of_notMem fun hid => hnot (TaskLevel.mem_rotation.mp hid)).symm
  have hl := h.level_lt id
  have hle := h.running_le (s.task_meta id).level
  have htop := h.top
  unfold task_remove
  dsimp only
  rw [if_neg (by omega), if_neg (by omega)]
  cases hfind : find_task (s.task_levels (s.task_meta id).level) id with
  | none =>
    refine hsame fun hid => ?_
    have hlevel := (h.mem_iff.mp hid).2
    rw [find_task_eq_none, hlevel] at hfind
    exact hfind hid
  | some i =>
    obtain ⟨hi, htask, _⟩ := find_task_eq_some.mp hfind
    by_cases hll : l = (s.task_meta id).level
    · subst hll
      simp only [Function.update_self]
      rw [TaskLevel.rotation_drop hi (h.nodup _) fun x hx => h.stored_lt hx, htask]
    · simp only [Function.update_of_ne hll]
      exact hsame fun hid => hll (h.mem_iff.mp hid).2.symm

/-- A context with an address to start at and a stack. -/
def Context.live (ctx : Context) : Bool := ctx.ra ≠ 0 ∧ ctx.sp ≠ 0

theorem Context.live_iff {ctx : Context} : ctx.live ↔ ¬ (ctx.ra = 0 ∨ ctx.sp = 0) := by
  simp [Context.live]

/-- The tasks of a level in the order of their turns. `task_next` takes a task that has
no context out of its list. -/
def turns (s : TaskState) (l : Nat) : List Nat :=
  (s.task_levels l).rotation.filter fun id => (s.ctx_tasks id).live

theorem sameRest_remove (s : TaskState) (id : Nat) : SameRest s (task_remove s id) := by
  unfold task_remove
  dsimp only
  split
  · exact ⟨rfl, rfl, rfl⟩
  split
  · exact ⟨rfl, rfl, rfl⟩
  split <;> exact ⟨rfl, rfl, rfl⟩

theorem Inv.remove (h : Inv s) (id : Nat) : Inv (vibeos.task.task_remove s id) := by
  by_cases hrun : (s.task_meta id).flags = .running
  · exact (h.task_remove hrun).1
  · have hl := h.level_lt id
    have hle := h.running_le (s.task_meta id).level
    have htop := h.top
    have hnone : find_task (s.task_levels (s.task_meta id).level) id = none :=
      find_task_eq_none.mpr fun hid => hrun (h.mem_iff.mp hid).1
    unfold vibeos.task.task_remove
    dsimp only
    rw [if_neg (by omega), if_neg (by omega), hnone]
    exact h

theorem turns_task_remove (h : Inv s) (id l : Nat) :
    turns (task_remove s id) l = (turns s l).filter (· ≠ id) := by
  unfold turns
  rw [rotation_task_remove h, (sameRest_remove s id).ctx_tasks, List.filter_comm]

theorem turns_advance (h : (s.task_levels l).now < (s.task_levels l).running) (q : Nat) :
    ∃ rest, (s.task_levels l).rotation = (s.task_levels l).tasks (s.task_levels l).now :: rest ∧
      turns (advance s l q) l =
        (rest ++ [(s.task_levels l).tasks (s.task_levels l).now]).filter fun id => (s.ctx_tasks id).live := by
  obtain ⟨rest, hrest, hturn⟩ := TaskLevel.rotation_turn h
  refine ⟨rest, hrest, ?_⟩
  rw [← hturn]
  simp [turns, advance]

theorem turns_advance_of_ne {l' : Nat} (h : l ≠ l') (q : Nat) :
    turns (advance s l' q) l = turns s l := by
  simp [turns, advance, h]

theorem turns_task_next (h : Inv s) (l : Nat) :
    (∃ (id : Nat) (rest : List Nat), (task_next s).1 = id ∧ (s.task_meta id).level = l ∧
      turns s l = id :: rest ∧ turns (task_next s).2 l = rest ++ [id]) ∨
    ((∀ id : Nat, (task_next s).1 = id → (s.task_meta id).level ≠ l) ∧
      turns (task_next s).2 l = turns s l) := by
  rcases h.task_next_cases with ⟨_, heq⟩ | ⟨l', q, id, hnext, hl', hnow, hid, hrun, heq⟩
  · right
    rw [heq]
    exact ⟨fun id hid => by omega, rfl⟩
  have hmem : id ∈ (s.task_levels l').stored := TaskLevel.mem_stored.mpr ⟨_, hnow, hid⟩
  have hlevel := (h.mem_iff.mp hmem).2
  by_cases hstart : (s.ctx_tasks id).live = true
  · rw [heq, if_neg (Context.live_iff.mp hstart)]
    by_cases hll : l = l'
    · subst hll
      obtain ⟨rest, hrest, hturn⟩ := turns_advance hnow q
      rw [hid] at hrest hturn
      refine Or.inl ⟨id, rest.filter fun id => (s.ctx_tasks id).live, rfl, hlevel, ?_, ?_⟩
      · simp [turns, hrest, hstart]
      · simpa [hstart] using hturn
    · refine Or.inr ⟨fun x hx => ?_, turns_advance_of_ne hll q⟩
      have hx' : id = x := Int.ofNat_inj.mp hx
      rw [← hx', hlevel]
      exact Ne.symm hll
  · -- a task without a context is in no turn, and leaves its list
    right
    have hinv := h.advance hl' (next_level_quota h.quota hnext)
    have hnot : id ∉ turns s l := by
      intro hin
      simpa [hstart] using (List.mem_filter.mp hin).2
    rw [heq, if_pos (not_not.mp fun hno => hstart (Context.live_iff.mpr hno))]
    refine ⟨fun x hx => by omega, ?_⟩
    rw [turns_task_remove hinv]
    by_cases hll : l = l'
    · subst hll
      obtain ⟨rest, hrest, hturn⟩ := turns_advance hnow q
      rw [hid] at hrest hturn
      have hturns : turns s l = rest.filter fun id => (s.ctx_tasks id).live := by simp [turns, hrest, hstart]
      rw [hturns] at hnot ⊢
      rw [hturn, List.filter_append]
      simpa [hstart] using filter_ne_of_notMem hnot
    · rw [turns_advance_of_ne hll, filter_ne_of_notMem hnot]

/-! ## One call after another -/

/-- The tasks of level `l` that the next calls of `task_next` give, in order. -/
def served (l : Nat) : Nat → TaskState → List Nat
  | 0, _ => []
  | n + 1, s =>
    let id := (task_next s).1
    if 0 ≤ id ∧ (s.task_meta id.toNat).level = l then id.toNat :: served l n (task_next s).2
    else served l n (task_next s).2

theorem served_of_turn (hid : (task_next s).1 = id) (hl : (s.task_meta id).level = l) (n : Nat) :
    served l (n + 1) s = id :: served l n (task_next s).2 := by
  simp [served, hid, hl]

theorem served_of_other (h : ∀ id : Nat, (task_next s).1 = id → (s.task_meta id).level ≠ l)
    (n : Nat) : served l (n + 1) s = served l n (task_next s).2 := by
  rw [served]
  apply if_neg
  rintro ⟨hpos, hl⟩
  exact h _ (Int.toNat_of_nonneg hpos).symm hl

theorem cons_flatten_replicate (x : Nat) (xs : List Nat) (n : Nat) :
    x :: (List.replicate n (xs ++ [x])).flatten = (List.replicate n (x :: xs)).flatten ++ [x] := by
  induction n with
  | zero => rfl
  | succ n ih => simp [List.replicate_succ, ih]

theorem served_prefix (h : Inv s) (l n : Nat) :
    served l n s <+: (List.replicate n (turns s l)).flatten := by
  induction n generalizing s with
  | zero => exact List.prefix_refl _
  | succ n ih =>
    rcases turns_task_next h l with ⟨id, rest, hid, hl, hturns, hturns'⟩ | ⟨hother, hturns'⟩
    · have hrest := ih h.task_next
      rw [hturns'] at hrest
      rw [served_of_turn hid hl, hturns, List.replicate_succ', List.flatten_append]
      refine List.IsPrefix.trans ((List.prefix_cons_inj id).mpr hrest) ?_
      rw [cons_flatten_replicate]
      exact (List.prefix_append_right_inj _).mpr (by simp)
    · have hrest := ih h.task_next
      rw [hturns'] at hrest
      rw [served_of_other hother, List.replicate_succ', List.flatten_append]
      exact hrest.trans (List.prefix_append _ _)

theorem served_add (l m n : Nat) (s : TaskState) :
    served l (m + n) s = served l m s ++ served l n ((fun s => (task_next s).2)^[m] s) := by
  induction m generalizing s with
  | zero => simp [served]
  | succ m ih =>
    rw [Nat.add_right_comm]
    simp only [served, Function.iterate_succ_apply, ih]
    split <;> simp

/-! ## Each level has its turn -/

theorem task_remove_level (s : TaskState) (id : Nat) :
    (task_remove s id).current_level = s.current_level ∧
      (task_remove s id).current_level_quota = s.current_level_quota := by
  unfold task_remove
  dsimp only
  split
  · exact ⟨rfl, rfl⟩
  split
  · exact ⟨rfl, rfl⟩
  split <;> exact ⟨rfl, rfl⟩

@[simp]
theorem TaskLevel.length_rotation (tl : TaskLevel) : tl.rotation.length = tl.running := by
  simp [TaskLevel.rotation]

theorem running_task_remove_le (h : Inv s) (id l : Nat) :
    ((task_remove s id).task_levels l).running ≤ (s.task_levels l).running := by
  rw [← TaskLevel.length_rotation, ← TaskLevel.length_rotation, rotation_task_remove h]
  apply List.length_filter_le

theorem running_task_remove_lt (h : Inv s) (hid : id ∈ (s.task_levels l).stored) :
    ((task_remove s id).task_levels l).running < (s.task_levels l).running := by
  rw [← TaskLevel.length_rotation, ← TaskLevel.length_rotation, rotation_task_remove h]
  apply List.length_filter_lt_length_iff_exists.mpr
  exact ⟨id, TaskLevel.mem_rotation.mpr hid, by simp⟩

theorem mem_stored_advance {q l' : Nat} :
    id ∈ ((advance s l' q).task_levels l).stored ↔ id ∈ (s.task_levels l).stored := by
  by_cases hll : l = l'
  · subst hll
    simp [advance, TaskLevel.stored]
  · simp [advance, hll]

theorem running_advance {q l' : Nat} :
    ((advance s l' q).task_levels l).running = (s.task_levels l).running := by
  by_cases hll : l = l'
  · subst hll
    simp [advance]
  · simp [advance, hll]

theorem turn_nears (l : Nat) :
    Ranking (fun s => (task_next s).2)
      (fun s => Inv s ∧ l < MAX_TASKLEVELS ∧ turns s l ≠ [])
      (fun s => ∃ id : Nat, (task_next s).1 = id ∧ (s.task_meta id).level = l)
      (fun s => 10 * (s.task_levels l).running + wait l s.current_level s.current_level_quota) where
  keeps := by
    rintro s ⟨hinv, hl, hne⟩
    refine ⟨hinv.task_next, hl, ?_⟩
    rcases turns_task_next hinv l with ⟨id, rest, _, _, _, hturns⟩ | ⟨_, hturns⟩
    · simp [hturns]
    · rw [hturns]
      exact hne
  drops := by
    rintro s ⟨hinv, hl, hne⟩
    have hpos : 0 < (s.task_levels l).running := by
      rw [← TaskLevel.length_rotation]
      apply List.length_pos_of_ne_nil
      intro hnil
      exact hne (by simp [turns, hnil])
    rcases hinv.task_next_cases with ⟨hnone, _⟩ | ⟨l', q, id, hnext, hl', hnow, hid, hrun, heq⟩
    · obtain ⟨_, _, hsome⟩ := next_level_of_pos hinv hl hpos
      rw [hnone] at hsome
      cases hsome
    have hmem : id ∈ (s.task_levels l').stored := TaskLevel.mem_stored.mpr ⟨_, hnow, hid⟩
    have hquota := next_level_quota hinv.quota hnext
    have hinv' := hinv.advance hl' hquota
    rw [heq]
    by_cases hll : l' = l
    · subst hll
      split
      · -- its first task has no context, and is dropped
        right
        have hlt := running_task_remove_lt hinv' (mem_stored_advance.mpr hmem)
        rw [running_advance] at hlt
        obtain ⟨hcur, hq⟩ := task_remove_level (advance s l' q) id
        have hwait := wait_lt hl' hl' hquota
        dsimp only
        rw [hcur, hq]
        change _ + wait l' l' q < _
        omega
      · exact Or.inl ⟨id, rfl, (hinv.mem_iff.mp hmem).2⟩
    · right
      have hwait := wait_drops hinv hl hpos hnext hll
      split
      · have hle := running_task_remove_le hinv' id l
        rw [running_advance] at hle
        obtain ⟨hcur, hq⟩ := task_remove_level (advance s l' q) id
        dsimp only
        rw [hcur, hq]
        change _ + wait l l' q < _
        omega
      · dsimp only
        rw [running_advance]
        change _ + wait l l' q < _
        omega

theorem served_grows (h : Inv s) (hl : l < MAX_TASKLEVELS) (hne : turns s l ≠ []) (k : Nat) :
    ∃ n, k ≤ (served l n s).length := by
  induction k generalizing s with
  | zero => exact ⟨0, Nat.zero_le _⟩
  | succ k ih =>
    obtain ⟨n, _, id, hid, hlevel⟩ := (turn_nears l).exists_goal ⟨h, hl, hne⟩
    obtain ⟨hinv, _, hne'⟩ := (turn_nears l).iterate ⟨h, hl, hne⟩ (n + 1)
    obtain ⟨m, hm⟩ := ih hinv hne'
    refine ⟨n + (1 + m), ?_⟩
    rw [served_add, Nat.add_comm 1 m, served_of_turn hid hlevel]
    rw [Function.iterate_succ_apply'] at hm
    simp only [List.length_append, List.length_cons]
    omega

/-! ## After a removal -/

/-- One call after another gives the tasks of a level in the order of `ids`, around and
around. -/
structure InTurn (l : Nat) (s : TaskState) (ids : List Nat) : Prop where
  order : ∀ n, served l n s <+: (List.replicate n ids).flatten
  comes : ids ≠ [] → ∀ k, ∃ n, k ≤ (served l n s).length

theorem in_turn (h : Inv s) (hl : l < MAX_TASKLEVELS) : InTurn l s (turns s l) where
  order := served_prefix h l
  comes := served_grows h hl

theorem switchsub_lists (s : TaskState) :
    (task_switchsub s).task_levels = s.task_levels ∧
      (task_switchsub s).ctx_tasks = s.ctx_tasks := by
  unfold task_switchsub
  split <;> exact ⟨rfl, rfl⟩

/-- After a removal the tasks of each level come in the order that they had before, only
without the removed one; also where a new level is chosen right behind it. -/
theorem remove_keeps_rotation (h : Inv s) (id : Nat) {l : Nat} (hl : l < MAX_TASKLEVELS)
    (hs' : s' = task_remove s id ∨ s' = task_switchsub (task_remove s id)) :
    (s'.task_levels l).rotation = (s.task_levels l).rotation.filter (· ≠ id) ∧
      InTurn l s (turns s l) ∧ InTurn l s' ((turns s l).filter (· ≠ id)) := by
  obtain ⟨hlists, hctx⟩ : s'.task_levels = (task_remove s id).task_levels ∧
      s'.ctx_tasks = (task_remove s id).ctx_tasks := by
    rcases hs' with rfl | rfl
    · exact ⟨rfl, rfl⟩
    · exact switchsub_lists _
  have hinv : Inv s' := by
    rcases hs' with rfl | rfl
    · exact h.remove id
    · exact (h.remove id).task_switchsub
  have hturns : turns s' l = (turns s l).filter (· ≠ id) := by
    rw [← turns_task_remove h]
    simp [turns, hlists, hctx]
  refine ⟨?_, in_turn h hl, ?_⟩
  · rw [hlists, rotation_task_remove h]
  · rw [← hturns]
    exact in_turn hinv hl

theorem remove_keeps_rotation_three : ∃ s, @Reached qemuStacks s ∧
    (s.task_levels 0).rotation = [1, 2, 0] ∧
    ((task_remove s 1).task_levels 0).rotation = [2, 0] := by
  let _ := qemuStacks
  let calls : List Call := [.create 64 0 1, .create 128 0 1, .create 192 0 1, .next]
  obtain ⟨s, hs⟩ : ∃ s, run task_init calls = some s := Option.isSome_iff_exists.mp (by decide)
  have hrot : (run task_init calls).map (fun s => (s.task_levels 0).rotation) = some [1, 2, 0] := by
    decide +kernel
  rw [hs] at hrot
  have hreached : Reached s := ⟨calls, hs⟩
  have h : (s.task_levels 0).rotation = [1, 2, 0] := Option.some_inj.mp hrot
  refine ⟨s, hreached, h, ?_⟩
  rw [(remove_keeps_rotation hreached.inv 1 (by decide) (Or.inl rfl)).1, h]
  rfl

end vibeos.task

-- The tables of variables and aliases of a window as finite maps. Names are compared in full and
-- stored cut, so a name of more than 19 characters makes a row that is not found under it.
import Vibeos.AssocRows
import Vibeos.BashRc
import Vibeos.EventRuns
import Mathlib.Logic.Function.Basic

namespace vibeos.terminal

open AssocRows Runs
open ssh (Text)

/-! ## Calls -/

def terminal_env_get (w : Window) (name : Text) : Text := w.env.get name
def terminal_alias_get (w : Window) (name : Text) : Text := w.aliases.get name

inductive Which where
  | env
  | aliases
deriving DecidableEq

inductive Call where
  | set (name value : Text)
  | unset (name : Text)
  | get (name : Text)

/-- A call on one of the two tables of a window. -/
structure TableOp where
  which : Which
  call : Call

/-- The window after the call, and did it succeed. -/
def TableOp.apply (op : TableOp) (w : Window) : Window × Bool :=
  match op with
  | ⟨.env, .set name value⟩ => terminal_env_set w name value
  | ⟨.env, .unset name⟩ => terminal_env_unset w name
  | ⟨.aliases, .set name value⟩ => terminal_alias_set w name value
  | ⟨.aliases, .unset name⟩ => terminal_alias_unset w name
  | ⟨_, .get _⟩ => (w, true)

def Window.lookup (w : Window) : Which → Text → Text
  | .env, name => terminal_env_get w name
  | .aliases, name => terminal_alias_get w name

def Window.rows (w : Window) : Which → List (Text × Text)
  | .env => w.env.rows
  | .aliases => w.aliases.rows

/-! ## The maps that the tables stand for -/

/-- What a table should hold: for each name the value of its latest setting, if it was not unset
since. -/
abbrev Settings := Text → Option Text

/-- The settings after a call. A setting that failed is none. -/
def Settings.after (m : Settings) (done : Bool) : Call → Settings
  | .set name value =>
    if done then Function.update m name (some (value.take (ENV_VALUE_LEN - 1))) else m
  | .unset name => Function.update m name none
  | .get _ => m

/-- A window, and what its tables should hold. -/
structure Tracked where
  w : Window
  settings : Which → Settings

def Tracked.step (s : Tracked) (op : TableOp) : Tracked :=
  let r := op.apply s.w
  ⟨r.1, Function.update s.settings op.which ((s.settings op.which).after r.2 op.call)⟩

/-- The window after `terminal_env_reset` and `terminal_alias_reset`. -/
def Tracked.start : Tracked where
  w := ⟨⟨[], Nat.zero_le _⟩, ⟨[], Nat.zero_le _⟩⟩
  settings := fun _ _ => none

/-- Every lookup gives what the table should hold, and no name is in two rows. -/
structure Tracked.IsMap (s : Tracked) : Prop where
  env_lookup : ∀ name, terminal_env_get s.w name = (s.settings .env name).getD []
  env_nodup : (keys s.w.env.rows).Nodup
  alias_lookup : ∀ name, terminal_alias_get s.w name = (s.settings .aliases name).getD []
  alias_nodup : (keys s.w.aliases.rows).Nodup

variable {max : Nat} {t : Table max} {m : Settings}

/-- A name that is set is not cut; or the setting fails; or it stores an empty value under a cut
name that was free, and that is as good as none. -/
def Table.Whole (t : Table max) : Call → Prop
  | .set name value =>
    name.length ≤ ENV_NAME_LEN - 1 ∨ terminal_env_name_ok name = false ∨ max ≤ t.rows.length ∨
      value = [] ∧ name.take (ENV_NAME_LEN - 1) ∉ keys t.rows
  | _ => True

def Window.Whole (w : Window) (op : TableOp) : Prop :=
  match op.which with
  | .env => w.env.Whole op.call
  | .aliases => w.aliases.Whole op.call

/-! ## One table -/

def Table.call (t : Table max) : Call → Table max × Bool
  | .set name value =>
    match t.set name value with
    | some t' => (t', true)
    | none => (t, false)
  | .unset name =>
    match t.unset name with
    | some t' => (t', true)
    | none => (t, false)
  | .get _ => (t, true)

/-- The names in the rows are cut, and none is empty. -/
def Table.Stored (t : Table max) : Prop :=
  ∀ name ∈ keys t.rows, name ≠ [] ∧ name.length ≤ ENV_NAME_LEN - 1

structure Table.IsMap (t : Table max) (m : Settings) : Prop where
  lookup : ∀ name, t.get name = (m name).getD []
  nodup : (keys t.rows).Nodup

theorem Table.Stored.find_eq (h : t.Stored) (name : Text) : t.find name = rowOf t.rows name := by
  unfold Table.find
  split
  case isTrue hempty =>
    rw [hempty]
    exact (rowOf_eq_none_iff.mpr fun hmem => (h [] hmem).1 rfl).symm
  case isFalse => rfl

theorem Table.Stored.get_eq (h : t.Stored) (name : Text) :
    t.get name = (t.rows.lookup name).getD [] := by
  rw [Table.get, h.find_eq]
  cases hrow : rowOf t.rows name with
  | none =>
    rw [lookup_of_notMem (rowOf_eq_none_iff.mp hrow)]
    rfl
  | some i =>
    rw [lookup_of_rowOf hrow]
    dsimp only
    rw [List.getD_eq_getElem?_getD]
    cases t.rows[i]? <;> rfl

theorem ok_ne_nil {name : Text} (h : terminal_env_name_ok name = true) : name ≠ [] := by
  rintro rfl
  cases h

theorem Table.Stored.set_cases (h : t.Stored) (name value : Text) :
    (t.set name value = none ∧ (terminal_env_name_ok name = false ∨ max ≤ t.rows.length)) ∨
    (terminal_env_name_ok name = true ∧ ∃ i t', rowOf t.rows name = some i ∧
      t.set name value = some t' ∧ t'.rows = t.rows.set i (Table.row name value)) ∨
    (terminal_env_name_ok name = true ∧ name ∉ keys t.rows ∧ t.rows.length < max ∧
      ∃ t', t.set name value = some t' ∧ t'.rows = t.rows ++ [Table.row name value]) := by
  unfold Table.set
  rw [h.find_eq]
  by_cases hok : terminal_env_name_ok name = true
  · rw [if_neg (by simp [hok])]
    cases hrow : rowOf t.rows name with
    | some i => exact .inr (.inl ⟨hok, i, _, rfl, rfl, rfl⟩)
    | none =>
      dsimp only
      by_cases hfull : t.rows.length ≥ max
      · exact .inl ⟨dif_pos hfull, .inr hfull⟩
      · exact .inr (.inr ⟨hok, rowOf_eq_none_iff.mp hrow, Nat.lt_of_not_le hfull, _,
          dif_neg hfull, rfl⟩)
  · rw [if_pos (by simp [hok])]
    exact .inl ⟨rfl, .inl (Bool.eq_false_of_not_eq_true hok)⟩

theorem Table.Stored.unset_cases (h : t.Stored) (name : Text) :
    (t.unset name = none ∧ name ∉ keys t.rows) ∨
    ∃ i t', rowOf t.rows name = some i ∧ t.unset name = some t' ∧
      t'.rows = t.rows.eraseIdx i := by
  unfold Table.unset
  rw [h.find_eq]
  cases hrow : rowOf t.rows name with
  | none => exact .inl ⟨rfl, rowOf_eq_none_iff.mp hrow⟩
  | some i => exact .inr ⟨i, _, rfl, rfl, rfl⟩

theorem take_name_stored {name : Text} (h : terminal_env_name_ok name = true) :
    name.take (ENV_NAME_LEN - 1) ≠ [] ∧
      (name.take (ENV_NAME_LEN - 1)).length ≤ ENV_NAME_LEN - 1 := by
  refine ⟨fun h0 => ?_, List.length_take_le _ _⟩
  rcases List.take_eq_nil_iff.mp h0 with h0 | h0
  · cases h0
  · exact ok_ne_nil h h0

theorem Table.Stored.call (h : t.Stored) (c : Call) : (t.call c).1.Stored := by
  cases c with
  | get => exact h
  | set name value =>
    rw [Table.call]
    obtain ⟨hset, -⟩ | ⟨hok, i, t', hrow, hset, hrows⟩ | ⟨hok, -, -, t', hset, hrows⟩ :=
      h.set_cases name value
    · rw [hset]
      exact h
    · rw [hset]
      intro n hn
      rw [hrows] at hn
      obtain ⟨r, hr, rfl⟩ := List.mem_map.mp hn
      rcases List.mem_or_eq_of_mem_set hr with hr | rfl
      · exact h _ (List.mem_map_of_mem hr)
      · exact take_name_stored hok
    · rw [hset]
      intro n hn
      rw [hrows, Table.row, keys_snoc, List.mem_append, List.mem_singleton] at hn
      rcases hn with hn | rfl
      · exact h n hn
      · exact take_name_stored hok
  | unset name =>
    rw [Table.call]
    obtain ⟨hunset, -⟩ | ⟨i, t', -, hunset, hrows⟩ := h.unset_cases name
    · rw [hunset]
      exact h
    · rw [hunset]
      intro n hn
      rw [hrows] at hn
      exact h n ((keys_eraseIdx_sublist t.rows i).subset hn)

theorem Table.IsMap.set_row {t' : Table max} {name value : Text} (h : t.Stored)
    (h' : t'.Stored) (hmap : t.IsMap m)
    (hlookup : ∀ n, t'.rows.lookup n = if n == name then some value else t.rows.lookup n)
    (hnodup : (keys t'.rows).Nodup) : t'.IsMap (Function.update m name (some value)) where
  lookup n := by
    have hold := hmap.lookup n
    rw [h.get_eq] at hold
    rw [h'.get_eq, hlookup, Function.update_apply]
    by_cases heq : n = name
    · rw [if_pos heq, if_pos (beq_iff_eq.mpr heq)]
    · rw [if_neg heq, if_neg (by simpa using heq), hold]
  nodup := hnodup

theorem Table.IsMap.cut_row_iff {t' : Table max} {name value : Text} (h : t.Stored)
    (h' : t'.Stored) (hmap : t.IsMap m) (hfree : name ∉ keys t.rows)
    (hlong : ENV_NAME_LEN - 1 < name.length)
    (hrows : t'.rows = t.rows ++ [Table.row name value]) :
    t'.IsMap (Function.update m name (some (value.take (ENV_VALUE_LEN - 1)))) ↔
      value = [] ∧ name.take (ENV_NAME_LEN - 1) ∉ keys t.rows := by
  have hcut : name ≠ name.take (ENV_NAME_LEN - 1) := by
    intro heq
    have hlen := congrArg List.length heq
    rw [List.length_take] at hlen
    omega
  constructor
  · intro hmap'
    have hnodup := hmap'.nodup
    rw [hrows, Table.row, nodup_snoc_iff hmap.nodup] at hnodup
    have hlookup := hmap'.lookup name
    rw [h'.get_eq, hrows, Table.row, lookup_snoc hnodup, if_neg (by simpa using hcut),
      lookup_of_notMem hfree, Function.update_self] at hlookup
    refine ⟨?_, hnodup⟩
    rcases List.take_eq_nil_iff.mp hlookup.symm with h0 | h0
    · cases h0
    · exact h0
  · rintro ⟨rfl, hnew⟩
    refine ⟨fun n => ?_, by rw [hrows, Table.row, nodup_snoc_iff hmap.nodup]; exact hnew⟩
    have hold := hmap.lookup n
    rw [h.get_eq] at hold
    rw [h'.get_eq, hrows, Table.row, lookup_snoc hnew, Function.update_apply, List.take_nil]
    by_cases hthis : n = name
    · rw [if_pos hthis, hthis, if_neg (by simpa using hcut), lookup_of_notMem hfree]
      rfl
    · rw [if_neg hthis, ← hold]
      by_cases hrow : n = name.take (ENV_NAME_LEN - 1)
      · rw [if_pos (beq_iff_eq.mpr hrow), hrow, lookup_of_notMem hnew]
        rfl
      · rw [if_neg (by simpa using hrow)]

theorem Table.IsMap.set_iff (h : t.Stored) (hmap : t.IsMap m) (name value : Text) :
    (t.call (.set name value)).1.IsMap
        (m.after (t.call (.set name value)).2 (.set name value)) ↔
      t.Whole (.set name value) := by
  have h' := h.call (.set name value)
  rw [Table.call] at h' ⊢
  unfold Table.Whole Settings.after
  obtain ⟨hset, hfails⟩ | ⟨hok, i, t', hrow, hset, hrows⟩ | ⟨hok, hfree, hroom, t', hset, hrows⟩ :=
    h.set_cases name value
  · rw [hset]
    exact iff_of_true hmap (.inr (hfails.imp_right .inl))
  · -- the name is in a row, so it is short
    have hmem : name ∈ keys t.rows := by
      by_contra hno
      cases hrow.symm.trans (rowOf_eq_none_iff.mpr hno)
    have hshort := (h name hmem).2
    rw [hset] at h' ⊢
    refine iff_of_true ?_ (.inl hshort)
    dsimp only
    rw [if_pos rfl]
    rw [Table.row, List.take_of_length_le hshort] at hrows
    refine hmap.set_row h h' (fun n => ?_) ?_
    · rw [hrows, lookup_set hrow]
    · rw [hrows, keys_set hrow]
      exact hmap.nodup
  · rw [hset] at h' ⊢
    dsimp only
    rw [if_pos rfl]
    by_cases hshort : name.length ≤ ENV_NAME_LEN - 1
    · refine iff_of_true ?_ (.inl hshort)
      rw [Table.row, List.take_of_length_le hshort] at hrows
      refine hmap.set_row h h' (fun n => ?_) ?_
      · rw [hrows, lookup_snoc hfree]
      · rw [hrows, nodup_snoc_iff hmap.nodup]
        exact hfree
    · rw [hmap.cut_row_iff h h' hfree (Nat.lt_of_not_le hshort) hrows]
      constructor
      · exact fun hempty => .inr (.inr (.inr hempty))
      · rintro (hle | hbad | hfull | hempty)
        · exact absurd hle hshort
        · rw [hok] at hbad
          cases hbad
        · omega
        · exact hempty

theorem Table.IsMap.unset (h : t.Stored) (hmap : t.IsMap m) (name : Text) :
    (t.call (.unset name)).1.IsMap (Function.update m name none) := by
  have h' := h.call (.unset name)
  rw [Table.call] at h' ⊢
  obtain ⟨hunset, hfree⟩ | ⟨i, t', hrow, hunset, hrows⟩ := h.unset_cases name
  · rw [hunset]
    refine ⟨fun n => ?_, hmap.nodup⟩
    rw [Function.update_apply]
    by_cases heq : n = name
    · rw [if_pos heq, heq, h.get_eq, lookup_of_notMem hfree]
    · rw [if_neg heq]
      exact hmap.lookup n
  · rw [hunset] at h' ⊢
    refine ⟨fun n => ?_, ?_⟩
    · have hold := hmap.lookup n
      rw [h.get_eq] at hold
      rw [h'.get_eq, hrows, lookup_eraseIdx hmap.nodup hrow, Function.update_apply]
      by_cases heq : n = name
      · rw [if_pos heq, if_pos (beq_iff_eq.mpr heq)]
      · rw [if_neg heq, if_neg (by simpa using heq), hold]
    · rw [hrows]
      exact (keys_eraseIdx_sublist t.rows i).nodup hmap.nodup

theorem Table.IsMap.call_iff (h : t.Stored) (hmap : t.IsMap m) (c : Call) :
    (t.call c).1.IsMap (m.after (t.call c).2 c) ↔ t.Whole c := by
  cases c with
  | set name value => exact hmap.set_iff h name value
  | unset name => exact iff_of_true (hmap.unset h name) trivial
  | get name => exact iff_of_true hmap trivial

/-! ## A window -/

theorem apply_env (w : Window) (c : Call) : (⟨.env, c⟩ : TableOp).apply w =
    ({ w with env := (w.env.call c).1 }, (w.env.call c).2) := by
  cases c with
  | set name value =>
    rw [TableOp.apply, terminal_env_set, Table.call]
    cases w.env.set name value <;> rfl
  | unset name =>
    rw [TableOp.apply, terminal_env_unset, Table.call]
    cases w.env.unset name <;> rfl
  | get name => rfl

theorem apply_aliases (w : Window) (c : Call) : (⟨.aliases, c⟩ : TableOp).apply w =
    ({ w with aliases := (w.aliases.call c).1 }, (w.aliases.call c).2) := by
  cases c with
  | set name value =>
    rw [TableOp.apply, terminal_alias_set, Table.call]
    cases w.aliases.set name value <;> rfl
  | unset name =>
    rw [TableOp.apply, terminal_alias_unset, Table.call]
    cases w.aliases.unset name <;> rfl
  | get name => rfl

theorem Tracked.isMap_iff (s : Tracked) : s.IsMap ↔
    s.w.env.IsMap (s.settings .env) ∧ s.w.aliases.IsMap (s.settings .aliases) :=
  ⟨fun h => ⟨⟨h.env_lookup, h.env_nodup⟩, ⟨h.alias_lookup, h.alias_nodup⟩⟩,
    fun h => ⟨h.1.lookup, h.1.nodup, h.2.lookup, h.2.nodup⟩⟩

/-- The tables are maps, and their names are cut. -/
structure Tracked.Inv (s : Tracked) : Prop where
  isMap : s.IsMap
  env : s.w.env.Stored
  aliases : s.w.aliases.Stored

theorem isMap_empty (max : Nat) :
    (⟨[], Nat.zero_le _⟩ : Table max).IsMap fun _ => none where
  lookup name := by
    have hstored : (⟨[], Nat.zero_le _⟩ : Table max).Stored := fun n hn => nomatch hn
    rw [hstored.get_eq]
    rfl
  nodup := .nil

theorem Tracked.Inv.start : Tracked.start.Inv where
  isMap := (isMap_iff _).mpr ⟨isMap_empty _, isMap_empty _⟩
  env := fun _ hn => nomatch hn
  aliases := fun _ hn => nomatch hn

variable {s : Tracked} {op : TableOp}

theorem Tracked.Inv.step_iff (h : s.Inv) : (s.step op).IsMap ↔ s.w.Whole op := by
  obtain ⟨henv, haliases⟩ := (isMap_iff s).mp h.isMap
  rw [isMap_iff, Tracked.step, Window.Whole]
  obtain ⟨_ | _, c⟩ := op
  · rw [apply_env, ← henv.call_iff h.env c]
    dsimp only
    rw [Function.update_self, Function.update_of_ne (by decide)]
    exact and_iff_left haliases
  · rw [apply_aliases, ← haliases.call_iff h.aliases c]
    dsimp only
    rw [Function.update_self, Function.update_of_ne (by decide)]
    exact and_iff_right henv

theorem Tracked.Inv.step (h : s.Inv) (hop : s.w.Whole op) : (s.step op).Inv := by
  refine ⟨h.step_iff.mpr hop, ?_, ?_⟩
  all_goals
    rw [Tracked.step]
    obtain ⟨_ | _, c⟩ := op
  · rw [apply_env]
    exact h.env.call c
  · rw [apply_aliases]
    exact h.env
  · rw [apply_env]
    exact h.aliases
  · rw [apply_aliases]
    exact h.aliases.call c

/-- In a run from empty tables, the tables are maps at every time exactly when every name that is
set is whole. -/
theorem tables_are_maps_iff (ops : List TableOp) :
    (∀ done rest, ops = done ++ rest → (done.foldl Tracked.step Tracked.start).IsMap) ↔
      Each (fun done op => (done.foldl Tracked.step Tracked.start).w.Whole op) ops := by
  have hsteps := @Runs.each_iff _ _ Tracked.step Tracked.Inv (fun s op => (s.step op).IsMap)
    (fun s op => s.w.Whole op) _ .start (fun h => h.step_iff) (fun h hop => h.step hop) ops
  rw [forall_states_iff, and_iff_right Tracked.Inv.start.isMap]
  exact hsteps

/-- A name of twenty letters is set twice and unset. -/
def longName : List TableOp :=
  [⟨.env, .set (List.replicate 20 65) [49]⟩, ⟨.env, .set (List.replicate 20 65) [50]⟩,
    ⟨.env, .unset (List.replicate 20 65)⟩]

/-- The name is never found, and leaves two rows with the same name. -/
theorem long_name_leaves_rows :
    terminal_env_get ((longName.take 1).foldl Tracked.step Tracked.start).w
      (List.replicate 20 65) = [] ∧
    (longName.foldl Tracked.step Tracked.start).w.env.rows =
      [(List.replicate 19 65, [49]), (List.replicate 19 65, [50])] ∧
    ¬ ∀ done rest, longName = done ++ rest → (done.foldl Tracked.step Tracked.start).IsMap := by
  have hlost : terminal_env_get ((longName.take 1).foldl Tracked.step Tracked.start).w
      (List.replicate 20 65) = [] := by decide
  refine ⟨hlost, by decide, fun h => ?_⟩
  have hmap := h (longName.take 1) (longName.drop 1) (by rw [List.take_append_drop])
  have hget := hlost.symm.trans (hmap.env_lookup (List.replicate 20 65))
  revert hget
  decide

end vibeos.terminal

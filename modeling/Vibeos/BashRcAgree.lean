-- Lines of `~/.bashrc` against typed commands. A variable is set alike by both; an alias
-- line sets a variable `alias` instead of an alias.
import Vibeos.BashRc
import Vibeos.SshSeal

namespace vibeos.terminal

open wget (ascii)
open ssh (Text COLS isBlank isDigit behindPrefix)

/-! ## Names -/

theorem plain_letter (c : UInt8) : isLetter c = true ∨ isDigit c = true ∨ c = 95 →
    c ≠ 61 ∧ c ≠ 32 ∧ isBlank c = false ∧ c ≠ 35 := by
  revert c
  intro c
  have hall : ∀ n : Fin 256, (isLetter (UInt8.ofNat n) = true ∨ isDigit (UInt8.ofNat n) = true ∨
      UInt8.ofNat n = 95) → UInt8.ofNat n ≠ 61 ∧ UInt8.ofNat n ≠ 32 ∧
        isBlank (UInt8.ofNat n) = false ∧ UInt8.ofNat n ≠ 35 := by decide +kernel
  have h := hall ⟨c.toNat, UInt8.toNat_lt c⟩
  rwa [UInt8.ofNat_toNat] at h

theorem plain_of_name_ok {name : Text} (h : terminal_env_name_ok name = true) :
    name ≠ [] ∧ ∀ c ∈ name, c ≠ 61 ∧ c ≠ 32 ∧ isBlank c = false ∧ c ≠ 35 := by
  cases name with
  | nil => cases h
  | cons c cs =>
    simp only [terminal_env_name_ok, Bool.and_eq_true, Bool.or_eq_true, beq_iff_eq,
      List.all_eq_true] at h
    refine ⟨List.cons_ne_nil c cs, fun d hd => plain_letter d ?_⟩
    rcases List.mem_cons.mp hd with rfl | hd
    · rcases h.1 with h1 | h1
      · exact Or.inl h1
      · exact Or.inr (Or.inr h1)
    · rcases h.2 d hd with (h2 | h2) | h2
      · exact Or.inl h2
      · exact Or.inr (Or.inl h2)
      · exact Or.inr (Or.inr h2)

theorem splitEq_append {name value : Text} (h : ∀ c ∈ name, c ≠ 61) :
    splitEq (name ++ 61 :: value) = some (name, value) := by
  have hdrop : (name ++ 61 :: value).dropWhile (· != 61) = 61 :: value := by
    rw [List.dropWhile_append, List.dropWhile_eq_nil_iff.mpr fun c hc => by simpa using h c hc]
    rfl
  have htake : (name ++ 61 :: value).takeWhile (· != 61) = name := by
    rw [List.takeWhile_append_of_pos fun c hc => by simpa using h c hc]
    simp
  rw [splitEq, hdrop]
  simp only [htake]

theorem dropWhile_name {name rest : Text} {p : UInt8 → Bool} (hne : name ≠ [])
    (h : ∀ c ∈ name, p c = false) : (name ++ rest).dropWhile p = name ++ rest := by
  obtain ⟨c, cs, rfl⟩ := List.exists_cons_of_ne_nil hne
  rw [List.cons_append, List.dropWhile_cons_of_neg]
  rw [h c List.mem_cons_self]
  exact Bool.false_ne_true

theorem bashrc_assignment (w : Window) {name value : Text}
    (hok : terminal_env_name_ok name = true) :
    (let before := ((name.dropWhile (· == 32)).takeWhile fun c => !isBlank c).take
      (ENV_NAME_LEN - 1)
    if before ≠ [] then (terminal_env_set w before value).1 else w) =
      (terminal_env_set w (name.take (ENV_NAME_LEN - 1)) value).1 := by
  obtain ⟨hne, hplain⟩ := plain_of_name_ok hok
  have hdrop : name.dropWhile (· == 32) = name := by
    have h : (name ++ []).dropWhile (· == 32) = name ++ [] := dropWhile_name hne fun c hc => by
      simpa using (hplain c hc).2.1
    rwa [List.append_nil] at h
  have htake : (name.takeWhile fun c => !isBlank c) = name :=
    List.takeWhile_eq_self_iff.mpr fun c hc => by simp [(hplain c hc).2.2.1]
  have hcut : name.take (ENV_NAME_LEN - 1) ≠ [] := by
    obtain ⟨c, cs, rfl⟩ := List.exists_cons_of_ne_nil hne
    simp [ENV_NAME_LEN]
  simp only [hdrop, htake, if_pos hcut]

/-! ## Lines and commands -/

inductive Form where
  | aliasLine
  | exportLine
  | assignment
  deriving DecidableEq, Repr

def Form.line (form : Form) (name value : Text) : Text :=
  match form with
  | .aliasLine => ascii "alias " ++ (name ++ 61 :: value)
  | .exportLine => ascii "export " ++ (name ++ 61 :: value)
  | .assignment => name ++ 61 :: value

/-- The command to type: a variable is set by `export`. -/
def Form.typed (form : Form) (name value : Text) : Text :=
  match form with
  | .aliasLine => ascii "alias " ++ (name ++ 61 :: value)
  | .exportLine => ascii "export " ++ (name ++ 61 :: value)
  | .assignment => ascii "export " ++ (name ++ 61 :: value)

theorem ascii_alias : ascii "alias" = [97, 108, 105, 97, 115] := by decide
theorem ascii_alias_blank : ascii "alias " = [97, 108, 105, 97, 115, 32] := by decide
theorem ascii_export : ascii "export" = [101, 120, 112, 111, 114, 116] := by decide
theorem ascii_export_blank : ascii "export " = [101, 120, 112, 111, 114, 116, 32] := by decide

theorem bashrc_export (sh : Shell) (w : Window) {name value : Text}
    (hok : terminal_env_name_ok name = true)
    (hlen : (Form.exportLine.line name value).length ≤ COLS - 1) :
    terminal_apply_bashrc_line sh w (Form.exportLine.line name value) =
      (terminal_env_set w (name.take (ENV_NAME_LEN - 1))
        ((value.dropWhile (· == 32)).take (ENV_VALUE_LEN - 1))).1 := by
  have hplain := plain_of_name_ok hok
  have hfirst : (Form.exportLine.line name value).dropWhile isBlank =
      Form.exportLine.line name value := by
    rw [Form.line, ascii_export_blank]
    rfl
  have hstart : ¬ (Form.exportLine.line name value = [] ∨
      (Form.exportLine.line name value).head? = some 35) := by
    rw [Form.line, ascii_export_blank]
    simp
  rw [terminal_apply_bashrc_line]
  simp only [hfirst, if_neg hstart, List.take_of_length_le hlen]
  rw [Form.line, ssh.behindPrefix_append, Option.getD_some,
    splitEq_append fun c hc => (hplain.2 c hc).1]
  exact bashrc_assignment w hok

theorem behindPrefix_name {name value : Text} (hok : terminal_env_name_ok name = true) :
    behindPrefix (ascii "export ") (name ++ 61 :: value) = none := by
  obtain ⟨-, hplain⟩ := plain_of_name_ok hok
  rw [behindPrefix, if_neg]
  rw [List.isPrefixOf_iff_prefix, ascii_export_blank, List.prefix_iff_eq_take]
  intro htake
  rw [List.take_append] at htake
  by_cases hlen : name.length < 7
  · have hmem : (61 : UInt8) ∈ [101, 120, 112, 111, 114, 116, 32] := by
      rw [htake]
      refine List.mem_append_right _ ?_
      have hpos : 0 < [101, 120, 112, 111, 114, 116, (32 : UInt8)].length - name.length := by
        simp only [List.length_cons, List.length_nil]
        omega
      obtain ⟨k, hk⟩ := Nat.exists_eq_succ_of_ne_zero hpos.ne'
      rw [hk, List.take_succ_cons]
      exact List.mem_cons_self
    exact absurd hmem (by decide)
  · have hzero : [101, 120, 112, 111, 114, 116, (32 : UInt8)].length - name.length = 0 := by
      simp only [List.length_cons, List.length_nil]
      omega
    rw [hzero, List.take_zero, List.append_nil] at htake
    have hmem : (32 : UInt8) ∈ [101, 120, 112, 111, 114, 116, (32 : UInt8)] := by decide
    rw [htake] at hmem
    exact (hplain 32 (List.mem_of_mem_take hmem)).2.1 rfl

theorem bashrc_assign (sh : Shell) (w : Window) {name value : Text}
    (hok : terminal_env_name_ok name = true)
    (hlen : (Form.assignment.line name value).length ≤ COLS - 1) :
    terminal_apply_bashrc_line sh w (Form.assignment.line name value) =
      (terminal_env_set w (name.take (ENV_NAME_LEN - 1))
        ((value.dropWhile (· == 32)).take (ENV_VALUE_LEN - 1))).1 := by
  obtain ⟨hne, hplain⟩ := plain_of_name_ok hok
  have hfirst : (name ++ 61 :: value).dropWhile isBlank = name ++ 61 :: value :=
    dropWhile_name hne fun c hc => (hplain c hc).2.2.1
  have hstart : ¬ (name ++ 61 :: value = [] ∨ (name ++ 61 :: value).head? = some 35) := by
    obtain ⟨c, cs, rfl⟩ := List.exists_cons_of_ne_nil hne
    simpa using (hplain c List.mem_cons_self).2.2.2
  rw [Form.line] at hlen ⊢
  rw [terminal_apply_bashrc_line]
  simp only [hfirst, if_neg hstart, List.take_of_length_le hlen, behindPrefix_name hok,
    Option.getD_none, splitEq_append fun c hc => (hplain c hc).1]
  exact bashrc_assignment w hok

theorem bashrc_alias (sh : Shell) (w : Window) {name value : Text}
    (hok : terminal_env_name_ok name = true)
    (hlen : (Form.aliasLine.line name value).length ≤ COLS - 1) :
    terminal_apply_bashrc_line sh w (Form.aliasLine.line name value) =
      (terminal_env_set w (ascii "alias")
        ((value.dropWhile (· == 32)).take (ENV_VALUE_LEN - 1))).1 := by
  obtain ⟨-, hplain⟩ := plain_of_name_ok hok
  have hjoin : Form.aliasLine.line name value =
      ([97, 108, 105, 97, 115, 32] ++ name) ++ 61 :: value := by
    rw [Form.line, ascii_alias_blank, List.append_assoc]
  have hbefore : ∀ c ∈ [97, 108, 105, 97, 115, 32] ++ name, c ≠ 61 := by
    intro c hc
    rcases List.mem_append.mp hc with hc | hc
    · have hword : ∀ d ∈ [97, 108, 105, 97, 115, (32 : UInt8)], d ≠ 61 := by decide +kernel
      exact hword c hc
    · exact (hplain c hc).1
  have hfirst : (Form.aliasLine.line name value).dropWhile isBlank =
      Form.aliasLine.line name value := by
    rw [hjoin]
    rfl
  have hstart : ¬ (Form.aliasLine.line name value = [] ∨
      (Form.aliasLine.line name value).head? = some 35) := by
    rw [hjoin]
    simp
  have hexport : behindPrefix (ascii "export ") (Form.aliasLine.line name value) = none := by
    rw [hjoin, ascii_export_blank]
    rfl
  rw [terminal_apply_bashrc_line]
  simp only [hfirst, if_neg hstart, List.take_of_length_le hlen, hexport, Option.getD_none]
  rw [hjoin, splitEq_append hbefore, ascii_alias]
  rfl

theorem commandWord_append {word rest : Text} :
    commandWord word (word ++ 32 :: rest) = some (rest.dropWhile (· == 32)) := by
  rw [commandWord, ssh.behindPrefix_append]
  simp

theorem dropWhile_blank_name {name value : Text} (hok : terminal_env_name_ok name = true) :
    (name ++ 61 :: value).dropWhile (· == 32) = name ++ 61 :: value :=
  dropWhile_name (plain_of_name_ok hok).1 fun c hc => by
    simpa using ((plain_of_name_ok hok).2 c hc).2.1

theorem wantsUsage_name {name value : Text} (hok : terminal_env_name_ok name = true) :
    wantsUsage (name ++ 61 :: value) = false := by
  obtain ⟨hne, hplain⟩ := plain_of_name_ok hok
  obtain ⟨c, cs, rfl⟩ := List.exists_cons_of_ne_nil hne
  rw [List.cons_append]
  unfold wantsUsage
  split
  · next rest heq =>
    obtain ⟨-, rfl⟩ := List.cons.inj heq
    cases cs with
    | nil => rfl
    | cons d ds => simpa using (hplain d (by simp)).2.1
  · rfl

theorem typed_export (other : Window → Text → Window × Text) (w : Window) {name value : Text}
    (hok : terminal_env_name_ok name = true) :
    (exec_single_cmd other w (Form.exportLine.typed name value)).1 =
      (terminal_env_set w (name.take (ENV_NAME_LEN - 1))
        ((value.dropWhile (· == 32)).take (ENV_VALUE_LEN - 1))).1 := by
  have hjoin : Form.exportLine.typed name value =
      ascii "export" ++ 32 :: (name ++ 61 :: value) := by
    rw [Form.typed, ascii_export_blank, ascii_export]
    rfl
  have halias : commandWord (ascii "alias") (Form.exportLine.typed name value) = none := by
    rw [hjoin, ascii_alias, ascii_export]
    rfl
  have hword : commandWord (ascii "export") (Form.exportLine.typed name value) =
      some (name ++ 61 :: value) := by
    rw [hjoin, commandWord_append, dropWhile_blank_name hok]
  have hne : name ++ 61 :: value ≠ [] := by simp
  rw [exec_single_cmd]
  simp only [halias, hword]
  rw [exec_export, wantsUsage_name hok, if_neg Bool.false_ne_true, if_neg hne,
    splitEq_append fun c hc => ((plain_of_name_ok hok).2 c hc).1]

theorem typed_alias (other : Window → Text → Window × Text) (w : Window) {name value : Text}
    (hok : terminal_env_name_ok name = true) :
    (exec_single_cmd other w (Form.aliasLine.typed name value)).1 =
      if value.dropWhile (· == 32) = [] then w
      else (terminal_alias_set w name (value.dropWhile (· == 32))).1 := by
  have hjoin : Form.aliasLine.typed name value =
      ascii "alias" ++ 32 :: (name ++ 61 :: value) := by
    rw [Form.typed, ascii_alias_blank, ascii_alias]
    rfl
  have hword : commandWord (ascii "alias") (Form.aliasLine.typed name value) =
      some (name ++ 61 :: value) := by
    rw [hjoin, commandWord_append, dropWhile_blank_name hok]
  have hne : name ++ 61 :: value ≠ [] := by simp
  have hname := (plain_of_name_ok hok).1
  rw [exec_single_cmd]
  simp only [hword]
  rw [exec_alias, wantsUsage_name hok, if_neg Bool.false_ne_true, if_neg hne,
    splitEq_append fun c hc => ((plain_of_name_ok hok).2 c hc).1]
  simp only [hname, false_or]
  split <;> rfl

/-! ## Tables that a call leaves alone -/

/-- The table has the row already, or it is full and has no row of that name. -/
def Table.Settled {max : Nat} (t : Table max) (name value : Text) : Prop :=
  match t.find name with
  | some i => t.rows[i]? = some (Table.row name value)
  | none => max ≤ t.rows.length

instance {max : Nat} (t : Table max) (name value : Text) : Decidable (t.Settled name value) := by
  unfold Table.Settled
  split <;> infer_instance

theorem Table.set_eq_self {max : Nat} (t : Table max) {name : Text} (value : Text)
    (hok : terminal_env_name_ok name = true) :
    (t.set name value).getD t = t ↔ t.Settled name value := by
  obtain ⟨rows, fits⟩ := t
  have hne := (plain_of_name_ok hok).1
  rw [Table.set, Table.Settled, hok]
  cases hfind : (⟨rows, fits⟩ : Table max).find name with
  | some i =>
    simp only [Bool.not_true, Bool.false_eq_true, if_false, Option.getD_some]
    rw [Table.find, if_neg hne, List.findIdx?_eq_some_iff_getElem] at hfind
    obtain ⟨hi, -⟩ := hfind
    dsimp only at hi
    constructor
    · intro h
      have hrows : rows.set i (Table.row name value) = rows := congrArg Table.rows h
      rw [← hrows, List.getElem?_set_self hi]
    · intro h
      have hrows : rows.set i (Table.row name value) = rows := by
        refine List.ext_getElem? fun j => ?_
        by_cases hij : i = j
        · rw [← hij, List.getElem?_set_self hi, h]
        · rw [List.getElem?_set_ne hij]
      simp only [hrows]
  | none =>
    simp only [Bool.not_true, Bool.false_eq_true, if_false]
    split
    · next hfull => exact iff_of_true rfl hfull
    · next hroom =>
      refine iff_of_false (fun h => ?_) hroom
      have hrows : rows ++ [Table.row name value] = rows := congrArg Table.rows h
      simp at hrows

theorem terminal_env_set_fst (w : Window) (name value : Text) :
    (terminal_env_set w name value).1 = { w with env := (w.env.set name value).getD w.env } := by
  rw [terminal_env_set]
  cases w.env.set name value <;> rfl

theorem terminal_alias_set_fst (w : Window) (name value : Text) :
    (terminal_alias_set w name value).1 =
      { w with aliases := (w.aliases.set name value).getD w.aliases } := by
  rw [terminal_alias_set]
  cases w.aliases.set name value <;> rfl

/-! ## When a line and a command agree -/

/-- A line of a script and the command typed at the prompt leave the same tables. -/
def Agree (sh : Shell) (other : Window → Text → Window × Text) (w : Window) (form : Form)
    (name value : Text) : Prop :=
  terminal_apply_bashrc_line sh w (form.line name value) =
    (exec_single_cmd other w (form.typed name value)).1

/-- Lines that set a variable always agree with `export`. A line `alias N=V` does if and only
if the variable `alias` that it sets is settled, and so is the alias `N` unless the value is
blank. -/
theorem agree_iff (sh : Shell) (other : Window → Text → Window × Text) (w : Window) (form : Form)
    (name value : Text) (hok : terminal_env_name_ok name = true)
    (hprompt : (form.typed name value).length ≤ COLS - PROMPT_LEN - 1) :
    Agree sh other w form name value ↔ (form = .aliasLine →
      w.env.Settled (ascii "alias") (value.dropWhile (· == 32)) ∧
        (value.dropWhile (· == 32) = [] ∨ w.aliases.Settled name (value.dropWhile (· == 32)))) := by
  have hlen : (form.line name value).length ≤ COLS - 1 := by
    have hle : (form.line name value).length ≤ (form.typed name value).length := by
      cases form with
      | aliasLine => exact le_refl _
      | exportLine => exact le_refl _
      | assignment => simp [Form.line, Form.typed]
    exact hle.trans (hprompt.trans (by decide))
  unfold Agree
  cases form with
  | exportLine =>
    rw [bashrc_export sh w hok hlen, typed_export other w hok]
    simp
  | assignment =>
    rw [bashrc_assign sh w hok hlen]
    have htyped := @typed_export other w _ value hok
    simp only [Form.typed] at htyped ⊢
    rw [htyped]
    simp
  | aliasLine =>
    have hshort : (value.dropWhile (· == 32)).take (ENV_VALUE_LEN - 1) =
        value.dropWhile (· == 32) := by
      refine List.take_of_length_le (((List.dropWhile_suffix _).length_le).trans ?_)
      have hvalue : value.length ≤ (Form.aliasLine.typed name value).length := by
        simp only [Form.typed, List.length_append, List.length_cons]
        omega
      exact hvalue.trans (hprompt.trans (by decide))
    rw [bashrc_alias sh w hok hlen, typed_alias other w hok, hshort, terminal_env_set_fst,
      terminal_alias_set_fst, ← Table.set_eq_self _ _ (by decide), ← Table.set_eq_self _ _ hok]
    obtain ⟨env, aliases⟩ := w
    by_cases hnil : value.dropWhile (· == 32) = []
    · rw [if_pos hnil]
      simp [hnil]
    · rw [if_neg hnil]
      simp only [Window.mk.injEq, hnil, false_or, true_imp_iff]
      exact and_congr_right fun _ => eq_comm

/-- A window without variables and aliases, and a shell whose other commands do nothing. -/
def emptyWindow : Window := ⟨⟨[], by decide⟩, ⟨[], by decide⟩⟩

def idleShell : Shell := ⟨fun w _ => w, fun w _ => w⟩

def otherCommand (w : Window) (_ : Text) : Window × Text := (w, ascii "Invalid signal.")

theorem export_agrees :
    Agree idleShell otherCommand emptyWindow .exportLine (ascii "LANG") (ascii "C") :=
  (agree_iff idleShell otherCommand emptyWindow .exportLine (ascii "LANG") (ascii "C")
    (by decide) (by decide)).mpr (by decide)

/-- The line `alias c=clear` sets a variable and no alias. -/
theorem alias_line_sets_variable :
    terminal_apply_bashrc_line idleShell emptyWindow (ascii "alias c=clear") =
        ⟨⟨[(ascii "alias", ascii "clear")], by decide⟩, ⟨[], by decide⟩⟩ ∧
      (exec_single_cmd otherCommand emptyWindow (ascii "alias c=clear")).1 =
        ⟨⟨[], by decide⟩, ⟨[(ascii "c", ascii "clear")], by decide⟩⟩ ∧
      ¬ Agree idleShell otherCommand emptyWindow .aliasLine (ascii "c") (ascii "clear") := by
  refine ⟨by decide, by decide, fun h => ?_⟩
  unfold Agree at h
  exact absurd h (by decide)

end vibeos.terminal

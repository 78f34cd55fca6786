-- The tables of a terminal window, the lines of `~/.bashrc`, and the commands `alias` and
-- `export` (user_terminal.c, user_cmd.c).
import Vibeos.SshBoot

namespace vibeos.terminal

open wget (ascii)
open ssh (Text COLS isBlank isDigit behindPrefix)

def ENV_NAME_LEN : Nat := 20
def ENV_VALUE_LEN : Nat := 96
def MAX_ENV_VARS : Nat := 12
def MAX_ALIAS_VARS : Nat := 12
def PROMPT_LEN : Nat := 12
def OUT_BUF_SIZE : Nat := 2048

/-! ## Tables -/

/-- The used rows of a table with `max` places: names and values. -/
structure Table (max : Nat) where
  rows : List (Text × Text)
  fits : rows.length ≤ max
  deriving DecidableEq, Repr

def isLetter (c : UInt8) : Bool := (65 ≤ c && c ≤ 90) || (97 ≤ c && c ≤ 122)

def terminal_env_name_ok : Text → Bool
  | [] => false
  | c :: cs => (isLetter c || c == 95) && cs.all fun c => isLetter c || isDigit c || c == 95

namespace Table

variable {max : Nat}

def find (t : Table max) (name : Text) : Option Nat :=
  if name = [] then none else t.rows.findIdx? fun r => r.1 == name

/-- What is kept of a name and a value: `copy_name20` and `terminal_env_copy_value` cut them. -/
def row (name value : Text) : Text × Text :=
  (name.take (ENV_NAME_LEN - 1), value.take (ENV_VALUE_LEN - 1))

theorem set_fits (t : Table max) (i : Nat) (r : Text × Text) : (t.rows.set i r).length ≤ max := by
  simpa using t.fits

theorem snoc_fits {t : Table max} (r : Text × Text) (h : ¬ t.rows.length ≥ max) :
    (t.rows ++ [r]).length ≤ max := by
  simp
  omega

/-- A new value for a name; nothing if the name is not allowed or there is no room. -/
def set (t : Table max) (name value : Text) : Option (Table max) :=
  if !terminal_env_name_ok name then none
  else
    match t.find name with
    | some i => some ⟨t.rows.set i (row name value), set_fits t i _⟩
    | none =>
      if h : t.rows.length ≥ max then none
      else some ⟨t.rows ++ [row name value], snoc_fits _ h⟩

def unset (t : Table max) (name : Text) : Option (Table max) :=
  match t.find name with
  | some i => some ⟨t.rows.eraseIdx i, (t.rows.length_eraseIdx_le i).trans t.fits⟩
  | none => none

def get (t : Table max) (name : Text) : Text :=
  match t.find name with
  | some i => (t.rows.getD i ([], [])).2
  | none => []

end Table

structure Window where
  env : Table MAX_ENV_VARS
  aliases : Table MAX_ALIAS_VARS
  deriving DecidableEq, Repr

def terminal_env_set (w : Window) (name value : Text) : Window × Bool :=
  match w.env.set name value with
  | some env => ({ w with env }, true)
  | none => (w, false)

def terminal_env_unset (w : Window) (name : Text) : Window × Bool :=
  match w.env.unset name with
  | some env => ({ w with env }, true)
  | none => (w, false)

def terminal_alias_set (w : Window) (name value : Text) : Window × Bool :=
  match w.aliases.set name value with
  | some aliases => ({ w with aliases }, true)
  | none => (w, false)

def terminal_alias_unset (w : Window) (name : Text) : Window × Bool :=
  match w.aliases.unset name with
  | some aliases => ({ w with aliases }, true)
  | none => (w, false)

/-! ## A line of a script -/

/-- What `source` and `cd` do to the tables: they read files and directories. -/
structure Shell where
  terminal_source_script : Window → Text → Window
  change_dir : Window → Text → Window

/-- The text behind a command word that ends or is followed by a blank. -/
def commandWord (word cmd : Text) : Option Text :=
  match behindPrefix word cmd with
  | some rest => if rest = [] ∨ rest.head? = some 32 then some (rest.dropWhile (· == 32)) else none
  | none => none

/-- What is before and behind the first `=`. -/
def splitEq (s : Text) : Option (Text × Text) :=
  match s.dropWhile (· != 61) with
  | [] => none
  | _ :: value => some (s.takeWhile (· != 61), value)

def stripQuotes (val : Text) : Text :=
  if val.length ≥ 2 ∧ ((val.head? = some 39 ∧ val.getLast? = some 39) ∨
      (val.head? = some 34 ∧ val.getLast? = some 34)) then val.tail.dropLast
  else val

def apply_bashrc_command (sh : Shell) (w : Window) (buf : Text) : Window :=
  let w :=
    if let some spec := commandWord (ascii "alias") buf then
      match splitEq spec with
      | none => w
      | some (name, value) =>
        let val := stripQuotes (value.dropWhile isBlank)
        if name ≠ [] ∧ val ≠ [] then (terminal_alias_set w name val).1 else w
    else if let some namep := behindPrefix (ascii "unalias ") buf then
      let namep := namep.dropWhile (· == 32)
      if namep ≠ [] then (terminal_alias_unset w namep).1 else w
    else if let some src := behindPrefix (ascii "source ") buf then
      let src := src.dropWhile (· == 32)
      if src ≠ [] then sh.terminal_source_script w src else w
    else if buf = ascii "." then w
    else if let some src := behindPrefix (ascii ". ") buf then
      let src := src.dropWhile (· == 32)
      if src ≠ [] then sh.terminal_source_script w src else w
    else if let some dir := behindPrefix (ascii "cd ") buf then
      sh.change_dir w (dir.dropWhile (· == 32))
    else w
  if let some namep := behindPrefix (ascii "unset ") buf then
    let namep := namep.dropWhile (· == 32)
    if namep ≠ [] then (terminal_env_unset w namep).1 else w
  else w

/-- The loop that should trim the end of `buf` starts at its front and does nothing. A line
with an `=` is an assignment, whatever word it starts with. -/
def terminal_apply_bashrc_line (sh : Shell) (w : Window) (line : Text) : Window :=
  let line := line.dropWhile isBlank
  if line = [] ∨ line.head? = some 35 then w
  else
    let buf := line.take (COLS - 1)
    let p := (behindPrefix (ascii "export ") buf).getD buf
    match splitEq p with
    | none => apply_bashrc_command sh w buf
    | some (before, eq) =>
      let name := (((before.dropWhile (· == 32)).takeWhile fun c => !isBlank c)).take
        (ENV_NAME_LEN - 1)
      let value := (eq.dropWhile (· == 32)).take (ENV_VALUE_LEN - 1)
      if name ≠ [] then (terminal_env_set w name value).1 else w

/-! ## Typed commands -/

/-- `h` alone asks for the usage. -/
def wantsUsage (spec : Text) : Bool :=
  match spec with
  | 104 :: rest => rest.isEmpty || rest.head? == some 32
  | _ => false

def aliasRow (r : Text × Text) : Text := ascii "alias " ++ r.1 ++ ascii "='" ++ r.2 ++ ascii "'"

/-- `alias`, with the text behind the word. -/
def exec_alias (w : Window) (spec : Text) : Window × Text :=
  if wantsUsage spec then (w, ascii "usage: alias name=value | alias (to list all)")
  else if spec = [] then
    (w, if w.aliases.rows = [] then ascii "(empty)"
      else ((w.aliases.rows.map aliasRow).intersperse [10]).flatten.take (OUT_BUF_SIZE - 1))
  else
    match splitEq spec with
    | none =>
      let val := w.aliases.get spec
      (w, if val ≠ [] then aliasRow (spec, val) else ascii "ERR: alias not found.")
    | some (name, eq) =>
      let eq := eq.dropWhile (· == 32)
      if name = [] ∨ eq = [] then (w, ascii "ERR: alias name=value.")
      else
        let r := terminal_alias_set w name eq
        (r.1, if r.2 then [] else ascii "ERR: alias failed.")

/-- `export`, with the text behind the word. -/
def exec_export (w : Window) (spec : Text) : Window × Text :=
  if wantsUsage spec then (w, ascii "usage: export NAME=value")
  else if spec = [] then (w, ascii "ERR: export NAME=value.")
  else
    let (name, value) :=
      match splitEq spec with
      | none => ((spec.takeWhile (· != 32)).take (ENV_NAME_LEN - 1), [])
      | some (name, eq) =>
        (name.take (ENV_NAME_LEN - 1), (eq.dropWhile (· == 32)).take (ENV_VALUE_LEN - 1))
    let r := terminal_env_set w name value
    (r.1, if r.2 then [] else ascii "ERR: export failed.")

/-- The dispatch of a typed command; `other` stands for the commands that are neither. -/
def exec_single_cmd (other : Window → Text → Window × Text) (w : Window) (cmd : Text) :
    Window × Text :=
  if let some spec := commandWord (ascii "alias") cmd then exec_alias w spec
  else if let some spec := commandWord (ascii "export") cmd then exec_export w spec
  else other w cmd

end vibeos.terminal

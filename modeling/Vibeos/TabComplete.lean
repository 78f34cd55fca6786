-- The completion of a word at the prompt: user.c from `is_name_completion_cmd` to
-- `try_tab_complete`, with the listings that it shows. A write behind the end of a buffer gives
-- nothing.
import Vibeos.CopyBound
import Vibeos.FsPath
import Vibeos.LineEdit

namespace vibeos.tab

open wget (ascii)
open ssh (Text COLS isBlank behindPrefix)
open terminal (Prompt Table MAX_ALIAS_VARS ENV_NAME_LEN OUT_BUF_SIZE word_start word_end)
open fs (slash cstr FsState DirBlock MAX_DIR_ENTRIES BuildConfig find_entry_index)
open Copy (into scan)

/-- What the completion reads of a terminal window. -/
structure TabWindow where
  dirs : fs.Window
  aliases : Table MAX_ALIAS_VARS

/-- What the completion does with a word. `listed` is anything that it shows below the prompt. -/
inductive Tab where
  | declined
  | listed
  | replaced (replacement : Text)
deriving DecidableEq

def Tab.apply (p : Prompt) (token_start token_end : Nat) : Tab → Prompt
  | replaced replacement => terminal.apply_completion p token_start token_end replacement
  | _ => p

/-! ## Commands -/

def is_name_completion_cmd (cmd : Text) : Bool :=
  cmd ∈ ["cd", "ls", "find", "cat", "env", "echo", "open", "export", "alias", "unalias", "source",
    "run", "jit", "ssh", "sftp", "wget", "unset", "wrp", "write", "mkdir", "gbemu", "netsurf", "rm",
    "touch", "vim", "mv", "rename"].map ascii

def terminal_command_uses_path_completion (cmd : Text) : Bool :=
  cmd ≠ [] ∧ (is_name_completion_cmd cmd ∨
    cmd ∈ ["vim", "cat", "cd", "mkdir", "rm", "touch", "write", "open", "run", "jit", "gbemu",
      "netsurf", "source"].map ascii)

def terminal_first_token (line : Text) : Text :=
  ((line.dropWhile (· == 32)).takeWhile (· != 32)).take (COLS - 1)

def terminal_expand_alias_command (aliases : Table MAX_ALIAS_VARS) (src : Text) : Text :=
  let rest := src.dropWhile isBlank
  let token := (rest.takeWhile fun c => !isBlank c).take (ENV_NAME_LEN - 1)
  let expansion := aliases.get token
  if expansion = [] then src.take (COLS - 1)
  else
    let rest := (rest.drop token.length).dropWhile isBlank
    (expansion ++ (if rest ≠ [] then [32] else []) ++ rest).take (COLS - 1)

def tolower (c : UInt8) : UInt8 := if 65 ≤ c ∧ c ≤ 90 then c + 32 else c

/-- The letters of the pattern occur in this order. -/
def fuzzy_match_loop : Text → Text → Bool
  | _, [] => true
  | [], _ :: _ => false
  | c :: cand, q :: pat =>
    if tolower c = tolower q then fuzzy_match_loop cand pat else fuzzy_match_loop cand (q :: pat)

def fuzzy_match_ordered (cand pat : Text) : Bool := pat ≠ [] ∧ fuzzy_match_loop cand pat

def cmds : List Text :=
  ["pwd", "format", "cd", "ls", "sd", "sdls", "mkdir", "rm", "touch", "write", "cat", "wget",
    "open", "run", "jit", "gbemu", "demo3d", "frankenstein", "help", "clear", "mv", "rename",
    "netsurf", "ssh", "sftp", "wrp", "find", "mem", "df", "du", "alias", "unalias", "export",
    "unset", "source"].map ascii

def shortest : List Text → Option Text
  | [] => none
  | c :: cs => some (cs.foldl (fun best c => if c.length < best.length then c else best) c)

def tab_complete_command (word : Text) : Option Tab := do
  let found ← scan COLS (cmds.filter fun c => word.isPrefixOf c)
  if found.count > 0 then
    return .replaced (if found.count = 1 then found.best else found.common)
  else
    match shortest (cmds.filter fun c => !word.isPrefixOf c && fuzzy_match_ordered c word) with
    | some fuzzy_best => return .replaced fuzzy_best
    | none => return .declined

/-! ## Names of the server -/

/-- What stands up to the last slash, and what behind it. -/
def strrchr_split (s : Text) : Option (Text × Text) :=
  if slash ∈ s then
    some ((s.reverse.dropWhile (· != slash)).reverse, (s.reverse.takeWhile (· != slash)).reverse)
  else none

/-- The path is the name, or begins with the name and a slash. -/
def isMount (name path : Text) : Bool :=
  match behindPrefix name path with
  | some rest => rest = [] ∨ rest.head? = some slash
  | none => false

def path_is_sftp (path : Text) : Bool :=
  ["/sftp", "/sftpd", "./sftp", "./sftpd", "sftp", "sftpd"].any fun name =>
    isMount (ascii name) path

def sftp_subpath (path : Text) : Text :=
  if !path_is_sftp path then path
  else
    let path :=
      if (ascii "/sftpd").isPrefixOf path then path.drop 6
      else if (ascii "/sftp").isPrefixOf path then path.drop 5
      else if (ascii "./sftpd").isPrefixOf path then path.drop 7
      else if (ascii "./sftp").isPrefixOf path then path.drop 6
      else if (ascii "sftpd").isPrefixOf path then path.drop 5
      else path.drop 4
    let path := if path.head? = some slash then path.tail else path
    if path = [] then ascii "." else path

/-- A name of a remote directory. `libssh2_sftp_readdir` gives no name that is empty or that does
not fit its buffer of 95 bytes. -/
structure RemoteName where
  is_dir : Bool
  name : Text
  nonempty : name ≠ []
  fits : name.length < 95

def RemoteName.row (r : RemoteName) : Text :=
  (if r.is_dir then 'd'.toUInt8 else 'f'.toUInt8) :: 32 :: cstr r.name ++ [10]

/-- `ssh_client_sftp_ls` of the names that the server gives, in a buffer of `OUT_BUF_SIZE` bytes. -/
def ssh_client_sftp_ls (names : List RemoteName) : Text :=
  let shown := names.filter fun r => cstr r.name ≠ ascii "." ∧ cstr r.name ≠ ascii ".."
  let out := (shown.flatMap RemoteName.row).take (OUT_BUF_SIZE - 1)
  if out = [] then ascii "(empty)" else out

/-- The names of each remote directory; none if the server does not answer. -/
abbrev Remote := Text → Option (List RemoteName)

/-- The lines that name a file or a directory. -/
def isEntryLine : Text → Bool
  | t :: b :: _ => (t = 'd'.toUInt8 ∨ t = 'f'.toUInt8) ∧ b = 32
  | _ => false

/-- The lines of a listing whose name starts with a leaf. -/
def lines_with (list_out leaf_prefix : Text) : List Text :=
  (list_out.splitOn 10).filter fun line =>
    isEntryLine line && leaf_prefix.isPrefixOf (line.drop 2)

/-- The type in the first line with this name. -/
def is_dir_line (list_out best : Text) : Bool :=
  match (list_out.splitOn 10).find? fun line => isEntryLine line && line.drop 2 == best with
  | some line => line.head? = some 'd'.toUInt8
  | none => false

def sftp_title : Text := ascii "SFTP possibilities:\n"

def sftp_split (word : Text) : Option (Text × Text) :=
  match strrchr_split word with
  | some (dir, leaf) =>
    if dir.length = 1 then some (ascii "/sftpd/", [])
    else do
      let leaf_prefix ← into 64 leaf
      return (dir.take (128 - 1), leaf_prefix)
  | none => some (ascii "/sftpd/", [])

def tab_complete_sftp_name (remote : Remote) (word : Text) : Option Tab :=
  if word = ascii "/sftp" ∨ word = ascii "/sftpd" then do
    let repl ← into 16 word
    let repl ← into 16 (repl ++ [slash])
    return .replaced repl
  else if !path_is_sftp word then return .declined
  else do
    let (dir_part, leaf_prefix) ← sftp_split word
    let remote_dir ← into 128 (sftp_subpath dir_part)
    match remote remote_dir with
    | none => return .listed
    | some names =>
      let list_out := ssh_client_sftp_ls names
      if list_out = ascii "(empty)" then return .listed
      else if leaf_prefix = [] then
        let _shown ← into OUT_BUF_SIZE (sftp_title ++ list_out)
        return .listed
      else
        let lines := lines_with list_out leaf_prefix
        let found ← scan 96 (lines.map (·.drop 2))
        if found.count > 1 then
          let _shown ← into OUT_BUF_SIZE (sftp_title ++ lines.flatMap (· ++ [10]))
          return .listed
        else if found.count = 1 then
          let replacement ← into 192 dir_part
          let replacement ← into 192 (replacement ++ found.best)
          if is_dir_line list_out found.best then
            let replacement ← into 192 (replacement ++ [slash])
            return .replaced replacement
          else return .replaced replacement
        else return .declined

/-! ## Names of a directory -/

/-- The entries of a type that start with a prefix. -/
def matching (db : DirBlock) ( name_prefix : Text) (type_filter : Option Nat) :
    List (Fin MAX_DIR_ENTRIES) :=
  (List.finRange MAX_DIR_ENTRIES).filter fun i =>
    (db.entries i).inUse && (type_filter.all fun t => (db.entries i).type == t) &&
      name_prefix.isPrefixOf (db.entries i).nameStr

/-- The rows that there is room for, up to the first that does not fit. -/
def append_rows (out : Text) : List Text → Text
  | [] => out
  | row :: rows =>
    if out.length + row.length < OUT_BUF_SIZE - 2 then append_rows (out ++ row) rows else out

def append_dir_entries_sorted (db : DirBlock) (title name_prefix : Text)
    (type_filter : Option Nat) : Text :=
  let entries (want_type : Nat) :=
    (matching db name_prefix type_filter).filter fun i => (db.entries i).type == want_type
  let row (t : Char) (i : Fin MAX_DIR_ENTRIES) : Text :=
    (ascii "  " ++ [t.toUInt8, 32] ++ (db.entries i).nameStr ++ [10]).take 63
  let rows := (entries 1).map (row 'd') ++ (entries 0).map (row 'f')
  if rows = [] then title ++ ascii " (empty)" else append_rows title rows

/-- A row of the listing of the root that is in no directory block. -/
def append_virtual (out row : Text) : Text :=
  if out.length + row.length < OUT_BUF_SIZE - 2 then out ++ row else out

def list_dir_contents (db : DirBlock) (bno : Nat) : Text :=
  let out := append_dir_entries_sorted db (ascii "Directory contents:\n") [] none
  if bno = 1 then
    let out :=
      if out = ascii "Directory contents:\n (empty)" then ascii "Directory contents:\n" else out
    append_virtual (append_virtual out (ascii "d sd\n")) (ascii "d sftpd\n")
  else out

/-- The directory part of a word, and its leaf. -/
def split_word (word : Text) : Option (Text × Text) :=
  match strrchr_split word with
  | some (dir, leaf) => do
    let dir_part ← into 128 dir
    let leaf_prefix ← into 32 leaf
    return (dir_part, leaf_prefix)
  | none =>
    if word.head? = some '~'.toUInt8 then do
      let dir_part ← into 128 (ascii "~/")
      let leaf_prefix ← into 32 word.tail
      return (dir_part, leaf_prefix)
    else do
      let leaf_prefix ← into 32 word
      return ([], leaf_prefix)

/-- The name `sftpd` in the root, which is in no directory block. -/
def virtual_names (bno : Nat) ( leaf_prefix : Text) (type_filter : Option Nat) : List Text :=
  if bno = 1 ∧ (type_filter = none ∨ type_filter = some 1) ∧
      leaf_prefix.isPrefixOf (ascii "sftpd") then [ascii "sftpd"]
  else []

/-- The part of `tab_complete_name` that has the directory block. -/
def complete_in (db : DirBlock) (bno : Nat) (dir_part leaf_prefix : Text)
    (type_filter : Option Nat) : Option Tab :=
  if leaf_prefix = [] then do
    let _list_out ← into OUT_BUF_SIZE (list_dir_contents db bno)
    return .listed
  else do
    let names := (matching db leaf_prefix type_filter).map fun i => (db.entries i).nameStr
    let found ← scan 20 (names ++ virtual_names bno leaf_prefix type_filter)
    if found.count > 1 then
      let _list_out ← into OUT_BUF_SIZE
        (append_dir_entries_sorted db (ascii "Possibilities:\n") leaf_prefix type_filter)
      return .listed
    else if found.count = 1 then
      let full_replacement ← into 160 dir_part
      let full_replacement ← into 160 (full_replacement ++ found.best)
      if (find_entry_index db found.best (some 1)).isSome ∨
          (bno = 1 ∧ found.best = ascii "sftpd") then
        let full_replacement ← into 160 (full_replacement ++ [slash])
        return .replaced full_replacement
      else return .replaced full_replacement
    else if (find_entry_index db leaf_prefix (some 1)).isSome then
      let full_replacement ← into 160 dir_part
      let full_replacement ← into 160 (full_replacement ++ leaf_prefix)
      let full_replacement ← into 160 (full_replacement ++ [slash])
      return .replaced full_replacement
    else return .declined

section

variable [BuildConfig]

/-- The directory that the directory part of a word resolves to, with its path in `p_cwd`. -/
def target_dir (st : FsState) (w : TabWindow) (dir_part : Text) :
    FsState × Option (Nat × Text) :=
  if dir_part = [] then (st, some (w.dirs.cwd_bno, []))
  else
    let expanded := fs.terminal_expand_home_path w.dirs.home.bytes dir_part 128
    match fs.resolve_editor_target st w.dirs expanded with
    | (st, none) => (st, none)
    | (st, some (p_bno, p_cwd, _)) => (st, some (p_bno, p_cwd))

/-- The part of `tab_complete_name` behind the names of the server. -/
def tab_complete_local (st : FsState) (w : TabWindow) (word : Text) (type_filter : Option Nat) :
    Option (FsState × Tab) := do
  let (dir_part, leaf_prefix) ← split_word word
  match target_dir st w dir_part with
  | (st, none) => return (st, .declined)
  | (st, some (target_dir_bno, p_cwd)) =>
    let _p_cwd ← into 128 p_cwd
    match fs.load_current_dir st target_dir_bno with
    | (st, none) => return (st, .declined)
    | (st, some db) =>
      let tab ← complete_in db target_dir_bno dir_part leaf_prefix type_filter
      return (st, tab)

/-- The next completion, after one that declined. -/
def orNext (first : Option (FsState × Tab)) (next : FsState → Option (FsState × Tab)) :
    Option (FsState × Tab) :=
  match first with
  | none => none
  | some (st, .declined) => next st
  | some done => some done

def tab_complete_name (st : FsState) (w : TabWindow) (remote : Remote) (word : Text)
    (type_filter : Option Nat) : Option (FsState × Tab) :=
  orNext
    (if path_is_sftp word ∨ word = ascii "/sftp" ∨ word = ascii "/sftpd" then
      (tab_complete_sftp_name remote word).map fun tab => (st, tab)
    else some (st, .declined))
    fun st => tab_complete_local st w word type_filter

/-! ## Tab -/

def isPath (word : Text) : Bool :=
  slash ∈ word ∨ word.head? = some '~'.toUInt8 ∨ word.head? = some '.'.toUInt8

/-- The characters between two places, as far as they fit. -/
def wordAt (p : Prompt) (token_start token_end : Nat) : Text :=
  (List.range (min (token_end - token_start) (COLS - 1))).map fun i => p.cmd_buf (token_start + i)

/-- The command of the line takes a path behind it. -/
def takesPath (w : TabWindow) (p : Prompt) : Bool :=
  terminal_command_uses_path_completion (terminal_first_token
    (terminal_expand_alias_command w.aliases (terminal.stringFrom p.cmd_buf 0)))

/-- `first` and `second` are the server at the two calls of `tab_complete_name`. -/
def try_tab_complete (st : FsState) (w : TabWindow) (first second : Remote) (p : Prompt) :
    Option (FsState × Tab) :=
  if p.cursor_pos > p.edit_len then some (st, .declined)
  else
    let token_start := word_start p.cmd_buf p.cursor_pos
    let token_end := word_end p.cmd_buf (p.edit_len - p.cursor_pos) p.cursor_pos
    let word := wordAt p token_start token_end
    orNext
      (if 0 < token_start ∧ (takesPath w p ∨ isPath word) then
        tab_complete_name st w first word none
      else some (st, .declined))
      fun st => orNext
        (if isPath word then tab_complete_name st w second word none else some (st, .declined))
        fun st =>
          let first_end := word_end p.cmd_buf p.edit_len 0
          if token_start < first_end ∨ token_start = 0 then
            (tab_complete_command word).map fun tab => (st, tab)
          else some (st, .declined)

end

end vibeos.tab

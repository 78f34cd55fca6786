-- The status line of a window: tool_editor.c, user_editor.c and jit_debugger.c as far as they write
-- Window.editor_status, with the messages of trap.c that the debugger copies there.
import Vibeos.LibPrint
import Vibeos.SshBoot

namespace vibeos.editor

open wget (ascii)
open ssh (Text COLS isBlank isDigit behindPrefix)

def EDITOR_STATUS_LEN : Nat := 64
def OUT_BUF_SIZE : Nat := 2048
def JIT_DEBUG_MAX_BREAKPOINTS : Nat := 64

inductive WindowKind where
  | WINDOW_KIND_EDITOR
  | WINDOW_KIND_JIT_DEBUGGER
deriving DecidableEq

inductive SaveResult where
  | saved
  | readonly
  | tooBig
  | failed
deriving DecidableEq

/-- What a key finds outside of the status line: the text of the editor, and the debugged program
with the messages of the JIT about it. -/
structure Outside where
  editor_dirty : Bool
  save : SaveResult
  reloads : Bool
  room : Bool
  paused : Bool
  breakpoints : List (Text × BitVec 32)
  run_msg : Text
  si_msg : Text

/-- A window, with every string that was copied to its status line. -/
structure StatusWin where
  kind : WindowKind
  active : Bool
  editor_mode : Nat
  editor_pending_d : Bool
  editor_cmd : Text
  saved_cmd : Text
  editor_status : Text
  copied : List Text

namespace StatusWin

def set_status (w : StatusWin) (msg : Text) : StatusWin :=
  { w with editor_status := msg, copied := w.copied ++ [msg] }

/-- `lib_strcat` of the command to the status line. -/
def cat_cmd (w : StatusWin) : StatusWin := w.set_status (w.editor_status ++ w.editor_cmd)

def close_window (w : StatusWin) : StatusWin := { w with active := false }

/-! ## The editor -/

def help : Text := ascii "i=insert  :wq=save+quit  :q=quit"
def large_file : Text := ascii "Large file: lazy read-only view"

/-- The lines of a large file around another place. -/
def editor_load_file_window (w : StatusWin) : StatusWin :=
  { w with editor_mode := 0, editor_cmd := [], editor_pending_d := false }.set_status large_file

def open_text_editor (w : StatusWin) (lazy : Bool) : StatusWin :=
  let w : StatusWin := ⟨.WINDOW_KIND_EDITOR, true, 0, false, [], [], [], w.copied⟩
  if lazy then w.editor_load_file_window.set_status large_file else w.set_status help

def editor_save_file (w : StatusWin) : SaveResult → StatusWin
  | .readonly => w.set_status (ascii "Read-only truncated view")
  | .tooBig => w.set_status (ascii "File too big")
  | .failed => w.set_status (ascii "Save failed")
  | .saved => w.set_status (ascii "Saved")

def editor_open_insert_mode (w : StatusWin) : StatusWin :=
  { w with editor_pending_d := false, editor_mode := 1 }.set_status (ascii "-- INSERT --")

def editor_open_command_mode (w : StatusWin) : StatusWin :=
  { w with editor_pending_d := false, editor_mode := 2, editor_cmd := [] }.set_status (ascii ":")

/-- The digits between blanks, as a number of 32 bits. -/
def editor_parse_positive_int (s : Text) : Option (BitVec 32) :=
  let s := s.dropWhile (· == 32)
  let digits := s.takeWhile isDigit
  let rest := (s.dropWhile isDigit).dropWhile (· == 32)
  if digits = [] ∨ rest ≠ [] then none
  else some (digits.foldl (fun v c => v * 10 + BitVec.ofNat 32 (c.toNat - 48)) 0)

def editor_apply_command (w : StatusWin) (o : Outside) : StatusWin :=
  let w :=
    if w.editor_cmd = ascii "w" then w.editor_save_file o.save
    else if w.editor_cmd = ascii "wq" ∨ w.editor_cmd = ascii "x" then
      let w := w.editor_save_file o.save
      if o.save = .saved then w.close_window else w
    else if w.editor_cmd = ascii "q" then
      if !o.editor_dirty then w.close_window
      else w.set_status (ascii "No write since last change")
    else if w.editor_cmd = ascii "q!" then w.close_window
    else if w.editor_cmd ≠ [] then
      match editor_parse_positive_int w.editor_cmd with
      | some line_no =>
        if line_no ≠ 0 then if o.reloads then w.editor_load_file_window else w
        else w.set_status (ascii "Unknown command")
      | none => w.set_status (ascii "Unknown command")
    else w
  if w.active then { w with editor_mode := 0, editor_cmd := [] } else w

def editor_echo (w : StatusWin) : StatusWin :=
  (w.set_status (if w.editor_mode = 3 then ascii "/" else ascii ":")).cat_cmd

/-- A key in command mode or in search mode. -/
def editor_command_key (w : StatusWin) (key : UInt8) (o : Outside) : StatusWin :=
  let w := { w with editor_pending_d := false }
  if key = 27 then { w with editor_mode := 0, editor_cmd := [] }.set_status help
  else if key = 10 ∨ key = 13 then
    if w.editor_mode = 3 then { w with editor_mode := 0 } else w.editor_apply_command o
  else if key = 8 ∨ key = 127 then { w with editor_cmd := w.editor_cmd.dropLast }.editor_echo
  else if 32 ≤ key ∧ key < 127 ∧ w.editor_cmd.length < COLS - 2 then
    { w with editor_cmd := w.editor_cmd ++ [key] }.editor_echo
  else w

/-- A key that may move the view to other lines of a large file. -/
def movesView (key : UInt8) : Bool :=
  key ∈ [0x10, 0x11, 0x17, 0x18]

def editor_normal_key (w : StatusWin) (key : UInt8) (o : Outside) : StatusWin :=
  if w.editor_pending_d then { w with editor_pending_d := false }
  else if key = 'i'.toUInt8 then w.editor_open_insert_mode
  else if key = ':'.toUInt8 then w.editor_open_command_mode
  else if key = '/'.toUInt8 then
    { w with editor_mode := 3, editor_cmd := [] }.set_status (ascii "/")
  else if key = 'k'.toUInt8 ∨ key = 'j'.toUInt8 ∨ movesView key then
    if o.reloads then w.editor_load_file_window else w
  else if key = 'o'.toUInt8 ∨ key = 'O'.toUInt8 then
    if o.room then w.editor_open_insert_mode else w
  else if key = 'd'.toUInt8 then
    { w with editor_pending_d := true }.set_status (ascii "dd=delete line")
  else if key = 0x19 then w.editor_open_insert_mode
  else w

def editor_handle_key (w : StatusWin) (key : UInt8) (o : Outside) : StatusWin :=
  if w.editor_mode = 2 ∨ w.editor_mode = 3 then w.editor_command_key key o
  else if key = 27 then
    { w with editor_mode := 0, editor_pending_d := false }.set_status help
  else if w.editor_mode = 0 then w.editor_normal_key key o
  else if movesView key then if o.reloads then w.editor_load_file_window else w
  else w

/-! ## The debugger -/

def debugger_open_help : Text :=
  ascii ":b file.c line  :watch addr len  :si step  :c continue  :r rerun"
def debugger_help : Text := ascii ":b file.c line  :watch addr len  :si step  :c continue"

def atoi (s : Text) : BitVec 32 :=
  let s := s.dropWhile isBlank
  let v (s : Text) : BitVec 32 :=
    (s.takeWhile isDigit).foldl (fun v c => v * 10 + BitVec.ofNat 32 (c.toNat - 48)) 0
  match s with
  | 45 :: s => -v s
  | 43 :: s => v s
  | s => v s

def hex_digit (c : UInt8) : Option Nat :=
  if 48 ≤ c ∧ c ≤ 57 then some (c.toNat - 48)
  else if 97 ≤ c ∧ c ≤ 102 then some (c.toNat - 97 + 10)
  else if 65 ≤ c ∧ c ≤ 70 then some (c.toNat - 65 + 10)
  else none

/-- The number, and what stands behind its digits. -/
def dbg_parse_hex_u32 (s : Text) : Option (BitVec 32 × Text) :=
  let s := s.dropWhile isBlank
  let s := match s with
    | 48 :: 120 :: rest => rest
    | 48 :: 88 :: rest => rest
    | s => s
  let digits := s.takeWhile fun c => (hex_digit c).isSome
  if digits = [] then none
  else some (digits.foldl (fun v c => v <<< 4 ||| BitVec.ofNat 32 ((hex_digit c).getD 0)) 0,
    s.dropWhile fun c => (hex_digit c).isSome)

def message (s : Text) : Text := s.take (OUT_BUF_SIZE - 1)

/-- The file and the line of a breakpoint command. The name of the command is taken for one letter,
also where it is written out. -/
def break_words (cmd : Text) : Text × BitVec 32 :=
  let p := (cmd.drop 1).dropWhile isBlank
  let file := (p.takeWhile fun c => !isBlank c).take 127
  (file, atoi ((p.drop file.length).dropWhile isBlank))

def file_line (file : Text) (line : BitVec 32) : Text :=
  file ++ ascii ":" ++ lib.print_signed line.toNat 32

instance : LawfulBEq (Text × BitVec 32) := inferInstance

def jit_debug_add_breakpoint (o : Outside) (file : Text) (line : BitVec 32) : Text :=
  if file = [] ∨ line.toInt ≤ 0 then ascii "usage: :b <file.c> <line>"
  else if (file, line) ∈ o.breakpoints then
    message (ascii "breakpoint exists: " ++ file_line file line)
  else if o.breakpoints.length < JIT_DEBUG_MAX_BREAKPOINTS then
    message (ascii "breakpoint " ++ file_line file line)
  else ascii "breakpoint table full"

def jit_debug_set_watch (addr len : BitVec 32) : Text :=
  let len : BitVec 32 := if len = 0 then 64 else len
  let len : BitVec 32 := if len > 256 then 256 else len
  message (ascii "watch " ++ lib.print_unsigned addr.toNat 16 false ++ ascii " len=" ++
    lib.print_unsigned len.toNat 10 false)

def not_paused : Text := ascii "JIT debug: not paused."

def jit_debug_continue (o : Outside) : Text :=
  if o.paused then ascii "JIT debug: continue." else not_paused

def jit_debug_step (o : Outside) : Text :=
  if o.paused then ascii "JIT debug: step." else not_paused

def jit_debug_step_instruction (o : Outside) : Text := if o.paused then o.si_msg else not_paused

def watch_message (cmd : Text) : Text :=
  let p := (cmd.drop (if cmd.getD 1 0 = 32 then 1 else 5)).dropWhile isBlank
  match dbg_parse_hex_u32 p with
  | some (addr, rest) =>
    let p := rest.dropWhile isBlank
    jit_debug_set_watch addr (if p ≠ [] then atoi p else 64)
  | none => ascii "usage: :watch <hex_addr> [len]"

inductive DebugCmd where
  | close
  | clear
  | run
  | cont
  | si
  | next
  | break
  | watch
  | empty
  | unknown
deriving DecidableEq

def debugCmd (cmd : Text) : DebugCmd :=
  if cmd = ascii "q" ∨ cmd = ascii "q!" then .close
  else if cmd = ascii "cls" ∨ cmd = ascii "clear" then .clear
  else if cmd = ascii "r" ∨ cmd = ascii "run" then .run
  else if cmd = ascii "c" ∨ cmd = ascii "cont" then .cont
  else if cmd = ascii "si" then .si
  else if cmd = ascii "ni" ∨ cmd = ascii "ns" ∨ cmd = ascii "sn" then .next
  else if (behindPrefix (ascii "b ") cmd).isSome ∨ (behindPrefix (ascii "break ") cmd).isSome then
    .break
  else if (behindPrefix (ascii "watch ") cmd).isSome ∨ (behindPrefix (ascii "w ") cmd).isSome then
    .watch
  else if cmd = [] then .empty
  else .unknown

/-- The status after a command that leaves the window open. -/
def command_status (cmd : Text) (o : Outside) : Text :=
  match debugCmd cmd with
  | .close => []
  | .clear => ascii "console cleared"
  | .run => o.run_msg
  | .cont => jit_debug_continue o
  | .si => jit_debug_step_instruction o
  | .next => jit_debug_step o
  | .break => jit_debug_add_breakpoint o (break_words cmd).1 (break_words cmd).2
  | .watch => watch_message cmd
  | .empty => debugger_help
  | .unknown => ascii "unknown debugger command"

/-- The command of Enter: the typed one, or else the last one. -/
def recalled (w : StatusWin) : Text := if w.editor_cmd ≠ [] then w.editor_cmd else w.saved_cmd

def jit_debugger_apply_command (w : StatusWin) (o : Outside) : StatusWin :=
  let w := { w with editor_cmd := w.recalled, saved_cmd := w.recalled }
  if debugCmd w.editor_cmd = .close then w.close_window
  else { w.set_status (command_status w.editor_cmd o) with editor_mode := 0, editor_cmd := [] }

def jit_debugger_handle_key (w : StatusWin) (key : UInt8) (o : Outside) : StatusWin :=
  if w.editor_mode = 2 then
    if key = 27 then { w with editor_mode := 0, editor_cmd := [] }.set_status debugger_help
    else if key = 10 ∨ key = 13 then w.jit_debugger_apply_command o
    else if key = 8 ∨ key = 127 then { w with editor_cmd := w.editor_cmd.dropLast }
    else if 32 ≤ key ∧ key < 127 ∧ w.editor_cmd.length < COLS - 2 then
      { w with editor_cmd := w.editor_cmd ++ [key] }
    else w
  else if key = ':'.toUInt8 then { w with editor_mode := 2, editor_cmd := [] }
  else if key = 10 ∨ key = 13 then
    if w.saved_cmd ≠ [] then { w with editor_cmd := [] }.jit_debugger_apply_command o else w
  else w

def open_jit_debugger_window (w : StatusWin) : StatusWin :=
  StatusWin.set_status ⟨.WINDOW_KIND_JIT_DEBUGGER, true, 0, false, [], [], [], w.copied⟩
    debugger_open_help

/-- A redraw of the debugger that loads another source. -/
def dbg_load_source_path (w : StatusWin) : StatusWin :=
  { w with editor_mode := 0, editor_cmd := [], editor_pending_d := false, editor_status := [] }

/-- A redraw of the debugger that does not find the source of the program. -/
def dbg_reload_source_failed (w : StatusWin) : StatusWin :=
  w.set_status (ascii "debug source load failed")

end StatusWin

/-! ## Runs -/

inductive StatusEvent where
  | openEditor (lazy : Bool)
  | openDebugger
  | sourceLoaded
  | sourceMissing
  | key (key : UInt8) (o : Outside)

namespace StatusWin

def step (w : StatusWin) : StatusEvent → StatusWin
  | .openEditor lazy => w.open_text_editor lazy
  | .openDebugger => w.open_jit_debugger_window
  | .sourceLoaded => w.dbg_load_source_path
  | .sourceMissing => w.dbg_reload_source_failed
  | .key key o =>
    if !w.active then w
    else
      match w.kind with
      | .WINDOW_KIND_EDITOR => w.editor_handle_key key o
      | .WINDOW_KIND_JIT_DEBUGGER => w.jit_debugger_handle_key key o

def closed : StatusWin := ⟨.WINDOW_KIND_EDITOR, false, 0, false, [], [], [], []⟩

def run (events : List StatusEvent) : StatusWin := events.foldl step closed

end StatusWin

end vibeos.editor

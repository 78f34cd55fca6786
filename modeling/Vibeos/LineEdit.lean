-- The line editor of the prompt: the keys that `handle_window_mailbox` handles while no
-- command runs, and the completion of a word (user_terminal.c, user.c).
import Vibeos.BashRc
import Vibeos.ByteMem

namespace vibeos.terminal

open fs (cstr)
open ssh (Text COLS)

/-- The edit buffer and the history of a terminal window; `hist_idx` is `none` for -1. -/
structure Prompt where
  cmd_buf : Mem
  edit_len : Nat
  cursor_pos : Nat
  history : List Text
  hist_idx : Option Nat
  saved_cmd : Text
  has_saved_cmd : Bool

/-- The characters that fit behind the prompt. -/
def LINE_MAX : Nat := COLS - PROMPT_LEN - 1

/-- The C string at `a` in the buffer of `COLS` bytes. -/
def stringFrom (m : Mem) (a : Nat) : Text := cstr ((List.range (COLS - a)).map fun i => m (a + i))

/-- The bytes of a list and a zero byte, from the front of the buffer on. -/
def storeString (m : Mem) (s : Text) : Mem := m.patch 0 (s.length + 1) fun i => s.getD i 0

def load_edit_buffer (p : Prompt) (src : Text) : Prompt :=
  let s := src.take LINE_MAX
  { p with cmd_buf := storeString p.cmd_buf s, edit_len := s.length, cursor_pos := s.length }

def clear_prompt_input (p : Prompt) : Prompt :=
  { p with
    cmd_buf := Function.update p.cmd_buf 0 0
    edit_len := 0
    cursor_pos := 0
    has_saved_cmd := false }

/-- The loop `buf[i + 1] = buf[i]` for `n` values of `i`, down to `a`. -/
def shift_up (a : Nat) : Nat → Mem → Mem
  | 0, m => m
  | n + 1, m => shift_up a n (Function.update m (a + n + 1) (m (a + n)))

/-- The loop `buf[i] = buf[i + 1]` for `n` values of `i`, from `a` up. -/
def shift_down : Nat → Nat → Mem → Mem
  | 0, _, m => m
  | n + 1, a, m => shift_down n (a + 1) (Function.update m a (m (a + 1)))

/-! ## Completion -/

/-- The loop that steps back to the start of a word. -/
def word_start (m : Mem) : Nat → Nat
  | 0 => 0
  | i + 1 => if m i ≠ 32 then word_start m i else i + 1

/-- The loop that steps to the end of a word, at most `n` places. -/
def word_end (m : Mem) : Nat → Nat → Nat
  | 0, i => i
  | n + 1, i => if m i ≠ 32 then word_end m n (i + 1) else i

def apply_completion (p : Prompt) (token_start token_end : Nat) (replacement : Text) : Prompt :=
  let newbuf := ((List.range token_start).map p.cmd_buf ++ replacement ++
    stringFrom p.cmd_buf token_end).take (COLS - 1)
  { load_edit_buffer p (cstr newbuf) with cursor_pos := token_start + replacement.length }

/-- `completion` is the word that the commands, the directory or the server offer, if any. -/
def try_tab_complete (p : Prompt) (completion : Option Text) : Prompt :=
  if p.cursor_pos > p.edit_len then p
  else
    match completion with
    | none => p
    | some replacement =>
      apply_completion p (word_start p.cmd_buf p.cursor_pos)
        (word_end p.cmd_buf (p.edit_len - p.cursor_pos) p.cursor_pos) replacement

/-! ## Keys -/

/-- A key at the prompt, other than Enter, with the word that would complete the line. -/
structure Press where
  key : UInt8
  completion : Option Text
  not_enter : key ≠ 10
  plain : ∀ r ∈ completion, 0 ∉ r

/-- Arrow up: an older line of the history. -/
def key_older (p : Prompt) : Prompt :=
  match p.hist_idx with
  | none =>
    if 0 < p.history.length then
      load_edit_buffer { p with
        saved_cmd := stringFrom p.cmd_buf 0
        has_saved_cmd := true
        hist_idx := some 0 } (p.history.getD 0 [])
    else p
  | some i =>
    if i + 1 < p.history.length then
      load_edit_buffer { p with hist_idx := some (i + 1) } (p.history.getD (i + 1) [])
    else p

/-- Arrow down: a newer line, or the one that was saved. -/
def key_newer (p : Prompt) : Prompt :=
  match p.hist_idx with
  | some (i + 1) => load_edit_buffer { p with hist_idx := some i } (p.history.getD i [])
  | some 0 =>
    { load_edit_buffer { p with hist_idx := none } (if p.has_saved_cmd then p.saved_cmd else [])
      with has_saved_cmd := false }
  | none => p

def key_delete (p : Prompt) : Prompt :=
  if p.cursor_pos < p.edit_len then
    { p with
      cmd_buf := shift_down (p.edit_len - p.cursor_pos) p.cursor_pos p.cmd_buf
      edit_len := p.edit_len - 1 }
  else p

def key_backspace (p : Prompt) : Prompt :=
  if p.cursor_pos > 0 ∧ p.edit_len > 0 then
    { p with
      cmd_buf := shift_down (p.edit_len - (p.cursor_pos - 1)) (p.cursor_pos - 1) p.cmd_buf
      edit_len := p.edit_len - 1
      cursor_pos := p.cursor_pos - 1 }
  else p

def key_insert (p : Prompt) (key : UInt8) : Prompt :=
  if p.edit_len < LINE_MAX then
    { p with
      cmd_buf := Function.update
        (shift_up p.cursor_pos (p.edit_len + 1 - p.cursor_pos) p.cmd_buf) p.cursor_pos key
      edit_len := p.edit_len + 1
      cursor_pos := p.cursor_pos + 1 }
  else p

/-- The check at the start of each call: a length that is no length is set to zero. -/
def check_edit_len (p : Prompt) : Prompt :=
  if p.edit_len ≥ COLS then
    { p with edit_len := 0, cursor_pos := 0, cmd_buf := Function.update p.cmd_buf 0 0 }
  else p

def handle_key (p : Prompt) (press : Press) : Prompt :=
  let p := check_edit_len p
  let key := press.key
  if key = 3 then clear_prompt_input p
  else if key = 0x10 then key_older p
  else if key = 0x11 then key_newer p
  else if key = 0x12 then
    if p.cursor_pos > 0 then { p with cursor_pos := p.cursor_pos - 1 } else p
  else if key = 0x13 then
    if p.cursor_pos < p.edit_len then { p with cursor_pos := p.cursor_pos + 1 } else p
  else if key = 0x15 then { p with cursor_pos := 0 }
  else if key = 0x16 then { p with cursor_pos := p.edit_len }
  else if key = 0x14 then key_delete p
  else if key = 8 then key_backspace p
  else if key = 9 then try_tab_complete p press.completion
  else if key ≥ 32 then key_insert p key
  else p

/-- The keys of a list, one after the other. -/
def handle_keys (p : Prompt) (presses : List Press) : Prompt := presses.foldl handle_key p

end vibeos.terminal

-- The rows of a terminal window: the lines that are appended, the prompts, the output of the
-- commands, and the scroll offset (user_terminal.c).
import Vibeos.BashRc
import Vibeos.Desktop
import Vibeos.EventRuns
import Vibeos.RowLog
import Mathlib.Algebra.Order.Group.Int

namespace vibeos.scrollback

open gui (DesktopConfig WIDTH DESKTOP_H)
open ssh (Text COLS isBlank behindPrefix)
open terminal (PROMPT_LEN)
open wget (ascii)

/-! ## The window -/

def ROWS : Nat := 64

def PROMPT : Text := ascii "matrix:~$ > "

def newline : UInt8 := 10

structure Geometry where
  w : Int
  h : Int
  maximized : Bool
  term_font_scale : Int

structure Window where
  geometry : Geometry
  lines : Nat → Text
  total_rows : Nat
  cur_col : Nat
  v_offset : Int

/-- The window as the start of the desktop fills it in. -/
def Window.start (g : Geometry) : Window where
  geometry := g
  lines := fun i => if i = 0 then PROMPT else []
  total_rows := 1
  cur_col := 12
  v_offset := 0

def Window.stored (w : Window) : List Text := (List.range w.total_rows).map w.lines

def Geometry.font_scale (g : Geometry) : Int :=
  if g.term_font_scale < 1 then 1 else if 3 < g.term_font_scale then 3 else g.term_font_scale

def Geometry.char_w (g : Geometry) : Int := 8 * g.font_scale

def Geometry.line_h (g : Geometry) : Int := 16 * g.font_scale + 2

section

variable [DesktopConfig]

def terminal_visible_rows (w : Window) : Int :=
  let wh := if w.geometry.maximized then DESKTOP_H else w.geometry.h
  let rv := (wh - 50).tdiv w.geometry.line_h
  if rv < 1 then 1 else rv

def terminal_visible_cols (w : Window) : Nat :=
  let ww := if w.geometry.maximized then WIDTH else w.geometry.w
  let has_scroll := terminal_visible_rows w < w.total_rows
  let cols := (ww - 20 - if has_scroll then 12 else 0).tdiv w.geometry.char_w
  if cols < 1 then 1 else if COLS - 1 < cols then COLS - 1 else cols.toNat

def terminal_scroll_max (w : Window) : Int :=
  let max_off := w.total_rows - terminal_visible_rows w
  if max_off < 0 then 0 else max_off

def terminal_clamp_v_offset (w : Window) : Window :=
  let v_offset := if w.v_offset < 0 then 0 else w.v_offset
  { w with v_offset := if terminal_scroll_max w < v_offset then terminal_scroll_max w else v_offset }

def terminal_scroll_to_bottom (w : Window) : Window := { w with v_offset := terminal_scroll_max w }

end

/-! ## Rows -/

/-- The loop that copies every row to the one before it, and the count after it. -/
def shift_rows (w : Window) : Window :=
  { w with
    lines := fun i => if i + 1 < ROWS then w.lines (i + 1) else w.lines i
    total_rows := ROWS - 1 }

/-- What every place does before it writes a row. -/
def make_room (w : Window) : Window :=
  if ROWS ≤ w.total_rows then
    { shift_rows w with v_offset := if 0 < w.v_offset then w.v_offset - 1 else w.v_offset }
  else w

def put_row (w : Window) (row : Text) : Window :=
  { w with lines := Function.update w.lines w.total_rows row, total_rows := w.total_rows + 1 }

def terminal_append_prompt (w : Window) : Window :=
  let w := make_room w
  if w.total_rows < ROWS then { put_row w PROMPT with cur_col := PROMPT_LEN } else w

/-- The row is the prompt and the edit buffer, whose cursor is at its end. -/
def redraw_prompt_line (w : Window) (row : Nat) (cmd_buf : Text) : Window :=
  { w with
    lines := Function.update w.lines row (PROMPT ++ cmd_buf)
    cur_col := PROMPT_LEN + cmd_buf.length }

section

variable [DesktopConfig]

/-- A row of `append_terminal_line`, which scrolls to it. -/
def append_row (w : Window) (row : Text) : Window :=
  let w := put_row (make_room w) row
  let rv := terminal_visible_rows w
  if rv < w.total_rows then { w with v_offset := w.total_rows - rv } else w

/-- The loop of `append_terminal_line`, with the row so far. -/
def append_loop (w : Window) (line_buf : Text) : Text → Window
  | [] => if line_buf = [] then w else append_row w line_buf
  | c :: p =>
    if c = newline then append_loop (append_row w line_buf) [] p
    else append_loop w (if line_buf.length < COLS - 1 then line_buf ++ [c] else line_buf) p

def append_terminal_line (w : Window) (text : Text) : Window := append_loop w [] text

/-- The loop of `run_command` over the output. A round takes at least one character. -/
def output_loop (max_c : Nat) : Nat → Window → Text → Window
  | 0, w, _ => w
  | rounds + 1, w, res =>
    if res = [] then w
    else
      let t := min max_c (res.takeWhile (· != newline)).length
      let w := make_room w
      let w := if w.total_rows < ROWS then put_row w (res.take t) else w
      output_loop max_c rounds w (res.drop (if res[t]? = some newline then t + 1 else t))

/-! ## Commands -/

/-- No app runs, or one of this window, or one of another window. -/
inductive App
  | none | own | other
deriving DecidableEq

/-- What `exec_single_cmd` does to the window: the lines that it appends, the text in `out_buf`,
whether the command is a download, and the app that runs when it returns. -/
structure Exec where
  appended : List Text
  out_buf : Text
  waiting_wget : Bool
  app : App

/-- The command line when Enter is pressed, whether it was cancelled, and what it does. -/
structure Command where
  cmd_buf : Text
  cancel_requested : Bool
  exec : Exec

/-- The prompts for a secret, and what they show. -/
def secretPrompt (cmd : Text) : Option Text :=
  let request := fun name => (behindPrefix name (cmd.dropWhile isBlank)).any fun p =>
    p.dropWhile isBlank = []
  if request (ascii "ssh auth") then some (ascii "ssh auth ")
  else if request (ascii "ssh boot seal") then some (ascii "ssh boot seal ")
  else none

def is_clear (cmd : Text) : Bool := (ascii "clear").isPrefixOf cmd

def terminal_begin_ssh_secret (w : Window) (display : Text) : Window :=
  terminal_scroll_to_bottom
    (if 0 < w.total_rows then redraw_prompt_line w (w.total_rows - 1) display else w)

def terminal_unlock_after_cancel (w : Window) : Window :=
  terminal_scroll_to_bottom (terminal_append_prompt w)

def Command.executes (c : Command) : Bool :=
  secretPrompt c.cmd_buf = none && !is_clear c.cmd_buf && !c.cancel_requested

/-- The start of `run_command`: a full window loses its first row. -/
def run_start (w : Window) : Window := if ROWS ≤ w.total_rows then shift_rows w else w

/-- The window while `exec_single_cmd` runs and has appended these lines. -/
def executing (w : Window) (appended : List Text) : Window :=
  appended.foldl append_terminal_line (run_start w)

def run_command (w : Window) (c : Command) : Window :=
  match secretPrompt c.cmd_buf with
  | some display => terminal_begin_ssh_secret (run_start w) display
  | none =>
    if is_clear c.cmd_buf then
      { run_start w with
        total_rows := 1
        v_offset := 0
        lines := Function.update (run_start w).lines 0 PROMPT
        cur_col := PROMPT_LEN }
    else if c.cancel_requested then
      terminal_unlock_after_cancel
        (append_terminal_line (run_start w) (ascii "Command cancelled."))
    else
      let w := executing w c.exec.appended
      let res := c.exec.out_buf
      terminal_scroll_to_bottom (output_loop (terminal_visible_cols w) res.length w res)

/-- The end of the Enter branch of `handle_window_mailbox`. It writes the prompt out as
`terminal_append_prompt` does. -/
def restore_prompt (w : Window) (c : Command) : Window :=
  terminal_scroll_to_bottom
    (if !is_clear c.cmd_buf && decide (c.exec.app = .none) then terminal_append_prompt w
    else if is_clear c.cmd_buf then redraw_prompt_line w 0 [] else w)

/-- The Enter branch of `handle_window_mailbox`. -/
def enter (w : Window) (c : Command) : Window :=
  if c.cmd_buf = [] then restore_prompt w c
  else
    match secretPrompt c.cmd_buf with
    | some display => terminal_begin_ssh_secret w display
    | none =>
      let w := run_command w c
      if c.executes && c.exec.waiting_wget then w else restore_prompt w c

/-! ## Runs -/

/-- What happens to the window. An edit of the command line fits behind the prompt, and a window
keeps its offset when it is maximized. -/
inductive Op
  | append (text : Text)
  | prompt
  | command (c : Command)
  | edit (cmd_buf : Text) (fits : cmd_buf.length ≤ COLS - PROMPT_LEN - 1)
  | scroll (wheel : Int)
  | reshape (g : Geometry)

def handle (w : Window) : Op → Window
  | .append text => append_terminal_line w text
  | .prompt => terminal_append_prompt w
  | .command c => enter w c
  | .edit cmd_buf _ => redraw_prompt_line w (w.total_rows - 1) cmd_buf
  | .scroll wheel => terminal_clamp_v_offset { w with v_offset := w.v_offset - wheel }
  | .reshape g => { w with geometry := g }

/-! ## The rows that are produced -/

def cutRows (text : Text) : List Text :=
  (RowLog.lines newline text).map fun line => line.take (COLS - 1)

def wrapRows (cols : Nat) (text : Text) : List Text :=
  RowLog.wrap newline cols text

/-- The command does not go on in a download or in an app of this window. -/
def Command.Over (c : Command) : Prop :=
  c.executes = true → c.exec.waiting_wget = false ∧ c.exec.app ≠ .own

instance (c : Command) : Decidable c.Over := inferInstanceAs (Decidable (_ → _))

/-- The rows after a command line, with the prompt that follows a command that is over. -/
def commandRows (cols : Nat) (rows : List Text) (c : Command) : List Text :=
  let again := if c.exec.app = .none then [PROMPT] else []
  if c.cmd_buf = [] then rows ++ again
  else
    match secretPrompt c.cmd_buf with
    | some display => rows.dropLast ++ [PROMPT ++ display]
    | none =>
      if is_clear c.cmd_buf then [PROMPT]
      else if c.cancel_requested then
        rows ++ cutRows (ascii "Command cancelled.") ++ [PROMPT] ++ again
      else
        rows ++ c.exec.appended.flatMap cutRows ++ wrapRows cols c.exec.out_buf ++
          if c.Over then [PROMPT] else []

/-- All rows so far. Output is wrapped at the columns of the window. -/
def produce (w : Window) (rows : List Text) : Op → List Text
  | .append text => rows ++ cutRows text
  | .prompt => rows ++ [PROMPT]
  | .command c => commandRows (terminal_visible_cols (executing w c.exec.appended)) rows c
  | .edit cmd_buf _ => rows.dropLast ++ [PROMPT ++ cmd_buf]
  | .scroll _ => rows
  | .reshape _ => rows

/-- The window, and all rows that were produced. -/
structure State where
  win : Window
  rows : List Text

def step (s : State) (op : Op) : State := ⟨handle s.win op, produce s.win s.rows op⟩

def run (g : Geometry) (ops : List Op) : State := ops.foldl step ⟨.start g, [PROMPT]⟩

/-! ## What is asked of the rows -/

/-- The last rows are stored, 63 of them at least, each fits its line, and the offset is one of a
stored row. -/
structure Right (s : State) : Prop where
  count : s.win.total_rows ≤ ROWS
  kept : RowLog.Keeps (ROWS - 1) s.win.stored s.rows
  short : ∀ row ∈ s.win.stored, row.length < COLS
  offset : 0 ≤ s.win.v_offset ∧ s.win.v_offset < s.win.total_rows

def PromptLast (w : Window) : Prop := ∃ row, w.stored.getLast? = some row ∧ PROMPT <+: row

/-- A prompt, an edit of its row, or a command that is over. -/
def Op.EndsInPrompt : Op → Prop
  | .prompt => True
  | .command c => c.cmd_buf ≠ [] ∧ c.Over
  | .edit _ _ => True
  | _ => False

/-- The windows that are seen while a command runs are right. -/
def RightWhile (s : State) : Op → Prop
  | .command c => c.cmd_buf ≠ [] → c.executes = true → ∀ front rest,
    c.exec.appended = front ++ rest →
      Right ⟨executing s.win front, s.rows ++ front.flatMap cutRows⟩
  | _ => True

/-- Every window of the run is right, those inside of commands too, and the prompt is last
wherever it has to be. -/
def ScrollbackRight (g : Geometry) (ops : List Op) : Prop :=
  Right (run g []) ∧ Runs.Each (fun h op => RightWhile (run g h) op ∧ Right (step (run g h) op) ∧
    (op.EndsInPrompt → PromptLast (step (run g h) op).win)) ops

/-- A command does not start in a full window that shows only the last row, and none is over while
an app of another window runs. -/
def Fine (s : State) : Op → Prop
  | .command c => c.cmd_buf ≠ [] → c.executes = true →
    ¬ (s.win.total_rows = ROWS ∧ s.win.v_offset = (ROWS : Int) - 1) ∧
      (c.exec.waiting_wget = false → c.exec.app ≠ .other)
  | _ => True

end

end vibeos.scrollback

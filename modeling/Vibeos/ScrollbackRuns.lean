-- Every way to write a row keeps the last rows, so they stay over whole runs.
import Vibeos.Scrollback

namespace vibeos.scrollback

open gui (DesktopConfig)
open ssh (Text COLS)
open terminal (PROMPT_LEN)
open wget (ascii)
open RowLog (Keeps)

/-! ## The stored rows -/

variable {w : Window} {rows : List Text}

theorem stored_put_row (w : Window) (row : Text) : (put_row w row).stored = w.stored ++ [row] := by
  unfold Window.stored put_row
  dsimp only
  rw [List.range_succ, List.map_append, List.map_singleton, Function.update_self]
  congr 1
  refine List.map_congr_left fun i hi => ?_
  rw [Function.update_of_ne (Nat.ne_of_lt (List.mem_range.mp hi))]

theorem length_stored (w : Window) : w.stored.length = w.total_rows := by
  rw [Window.stored, List.length_map, List.length_range]

theorem stored_shift_rows (h : w.total_rows = ROWS) : (shift_rows w).stored = w.stored.tail := by
  unfold Window.stored shift_rows
  dsimp only
  rw [h, ← List.map_tail, List.tail_range, List.range'_eq_map_range, List.map_map]
  refine List.map_congr_left fun i hi => ?_
  have hlt := List.mem_range.mp hi
  rw [if_pos (by omega), Function.comp_apply, Nat.add_comm]

theorem stored_redraw_last (hpos : 0 < w.total_rows) (cmd_buf : Text) :
    (redraw_prompt_line w (w.total_rows - 1) cmd_buf).stored =
      w.stored.dropLast ++ [PROMPT ++ cmd_buf] := by
  obtain ⟨n, hn⟩ := Nat.exists_eq_succ_of_ne_zero hpos.ne'
  unfold Window.stored redraw_prompt_line
  dsimp only
  rw [hn, Nat.succ_sub_one, List.range_succ, List.map_append, List.map_append, List.map_singleton,
    List.map_singleton, Function.update_self, List.dropLast_concat]
  congr 1
  refine List.map_congr_left fun i hi => ?_
  rw [Function.update_of_ne (Nat.ne_of_lt (List.mem_range.mp hi))]

/-! ## One row -/

theorem Right.pos (h : Right ⟨w, rows⟩) : 0 < w.total_rows := by
  have := h.offset
  dsimp only at this
  omega

theorem right_shift (h : Right ⟨w, rows⟩) (hfull : w.total_rows = ROWS) {v : Int}
    (hv : 0 ≤ v ∧ v < ROWS - 1) : Right ⟨{ shift_rows w with v_offset := v }, rows⟩ := by
  have hstored : ({ shift_rows w with v_offset := v } : Window).stored = w.stored.tail :=
    stored_shift_rows hfull
  refine ⟨Nat.sub_le _ _, ?_, ?_, hv⟩
  · rw [hstored]
    refine h.kept.tail ?_
    rw [length_stored, hfull]
    decide
  · rw [hstored]
    exact fun row hrow => h.short row (List.mem_of_mem_tail hrow)

theorem right_make_room (h : Right ⟨w, rows⟩) :
    Right ⟨make_room w, rows⟩ ∧ (make_room w).total_rows < ROWS := by
  unfold make_room
  split
  case isTrue hfull =>
    have hoffset := h.offset
    have hcount : w.total_rows = ROWS := Nat.le_antisymm h.count hfull
    dsimp only at hoffset
    rw [hcount] at hoffset
    have hrows : (ROWS : Int) = 64 := rfl
    refine ⟨right_shift h hcount ?_, Nat.sub_lt (by decide) (by decide)⟩
    split <;> omega
  case isFalse hroom => exact ⟨h, Nat.lt_of_not_le hroom⟩

theorem right_put_row (h : Right ⟨w, rows⟩) (hroom : w.total_rows < ROWS) {row : Text}
    (hrow : row.length < COLS) : Right ⟨put_row w row, rows ++ [row]⟩ := by
  have hoffset := h.offset
  refine ⟨hroom, ?_, ?_, ?_⟩
  · rw [stored_put_row]
    exact h.kept.push row
  · rw [stored_put_row]
    exact List.forall_mem_append.mpr ⟨h.short, fun r hr => List.mem_singleton.mp hr ▸ hrow⟩
  · dsimp only [put_row] at hoffset ⊢
    push_cast
    omega

theorem Right.congr {w' : Window} (h : Right ⟨w, rows⟩) (hlines : w'.lines = w.lines)
    (htotal : w'.total_rows = w.total_rows)
    (hoffset : 0 ≤ w'.v_offset ∧ w'.v_offset < w'.total_rows) : Right ⟨w', rows⟩ := by
  have hstored : w'.stored = w.stored := by rw [Window.stored, hlines, htotal, Window.stored]
  refine ⟨htotal ▸ h.count, ?_, ?_, hoffset⟩
  · rw [hstored]
    exact h.kept
  · rw [hstored]
    exact h.short

theorem prompt_short : PROMPT.length < COLS := by decide

theorem right_prompt (h : Right ⟨w, rows⟩) :
    Right ⟨terminal_append_prompt w, rows ++ [PROMPT]⟩ := by
  obtain ⟨hroom, hlt⟩ := right_make_room h
  have hput := right_put_row hroom hlt prompt_short
  unfold terminal_append_prompt
  dsimp only
  rw [if_pos hlt]
  exact hput.congr rfl rfl hput.offset

theorem right_redraw (h : Right ⟨w, rows⟩) {cmd_buf : Text}
    (hfits : cmd_buf.length ≤ COLS - PROMPT_LEN - 1) :
    Right ⟨redraw_prompt_line w (w.total_rows - 1) cmd_buf,
      rows.dropLast ++ [PROMPT ++ cmd_buf]⟩ := by
  have hne : w.stored ≠ [] := List.ne_nil_of_length_pos (by rw [length_stored]; exact h.pos)
  refine ⟨h.count, ?_, ?_, h.offset⟩
  · rw [stored_redraw_last h.pos]
    exact h.kept.setLast hne _
  · rw [stored_redraw_last h.pos]
    refine List.forall_mem_append.mpr ⟨fun r hr => h.short r (List.mem_of_mem_dropLast hr), ?_⟩
    intro r hr
    have hlen : PROMPT.length = PROMPT_LEN := by decide
    have hcols : PROMPT_LEN < COLS := by decide
    rw [List.mem_singleton.mp hr, List.length_append, hlen]
    omega

/-! ## Texts -/

theorem right_foldl {put : Window → Text → Window}
    (hput : ∀ {w rows row}, Right ⟨w, rows⟩ → row.length < COLS → Right ⟨put w row, rows ++ [row]⟩)
    (h : Right ⟨w, rows⟩) {more : List Text} (hmore : ∀ row ∈ more, row.length < COLS) :
    Right ⟨more.foldl put w, rows ++ more⟩ := by
  induction more generalizing w rows with
  | nil => rwa [List.append_nil]
  | cons row more ih =>
    rw [List.foldl_cons, ← List.singleton_append, ← List.append_assoc]
    exact ih (hput h (hmore row List.mem_cons_self)) fun r hr =>
      hmore r (List.mem_cons_of_mem _ hr)

section

variable [DesktopConfig]

theorem visible_rows_pos (w : Window) : 1 ≤ terminal_visible_rows w := by
  unfold terminal_visible_rows
  dsimp only
  split <;> omega

theorem visible_cols_bounds (w : Window) :
    0 < terminal_visible_cols w ∧ terminal_visible_cols w < COLS := by
  have hcols : COLS = 100 := rfl
  unfold terminal_visible_cols
  dsimp only
  generalize Int.tdiv _ w.geometry.char_w = cols
  split
  · omega
  · split <;> omega

theorem scroll_max_bounds (hpos : 0 < w.total_rows) :
    0 ≤ terminal_scroll_max w ∧ terminal_scroll_max w < w.total_rows := by
  have hrows := visible_rows_pos w
  unfold terminal_scroll_max
  dsimp only
  split <;> omega

theorem right_scroll_to_bottom (h : Right ⟨w, rows⟩) :
    Right ⟨terminal_scroll_to_bottom w, rows⟩ :=
  h.congr rfl rfl (scroll_max_bounds h.pos)

theorem right_append_row (h : Right ⟨w, rows⟩) {row : Text} (hrow : row.length < COLS) :
    Right ⟨append_row w row, rows ++ [row]⟩ := by
  obtain ⟨hroom, hlt⟩ := right_make_room h
  have hput := right_put_row hroom hlt hrow
  have hrows := visible_rows_pos (put_row (make_room w) row)
  unfold append_row
  dsimp only
  split
  · refine hput.congr rfl rfl ?_
    dsimp only
    omega
  · exact hput

theorem append_loop_eq {line text : Text} (hline : newline ∉ line) :
    append_loop w (line.take (COLS - 1)) text =
      ((RowLog.lines newline (line ++ text)).map fun l => l.take (COLS - 1)).foldl append_row w := by
  induction text generalizing w line with
  | nil =>
    rw [append_loop, List.append_nil, RowLog.lines_of_notMem hline]
    by_cases hnil : line = []
    · rw [if_pos (by rw [hnil]; rfl), if_pos hnil]
      rfl
    · rw [if_neg (by rw [List.take_eq_nil_iff]; exact fun h => h.elim (by decide) hnil), if_neg hnil]
      rfl
  | cons c text ih =>
    rw [append_loop]
    by_cases hc : c = newline
    · have hrest := @ih (append_row w (line.take (COLS - 1))) [] List.not_mem_nil
      rw [if_pos hc, hc, RowLog.lines_append_sep hline, List.map_cons, List.foldl_cons]
      exact hrest
    · have hnext : (if (line.take (COLS - 1)).length < COLS - 1 then line.take (COLS - 1) ++ [c]
          else line.take (COLS - 1)) = (line ++ [c]).take (COLS - 1) := by
        rw [List.length_take]
        split
        case isTrue hlt =>
          rw [List.take_of_length_le (by omega), List.take_of_length_le (by simp; omega)]
        case isFalse hge => rw [List.take_append_of_le_length (by omega)]
      have hplain : newline ∉ line ++ [c] := by
        rw [List.mem_append, List.mem_singleton]
        exact fun h => h.elim hline (Ne.symm hc)
      rw [if_neg hc, hnext, ih hplain, List.append_assoc, List.singleton_append]

theorem append_line_eq (w : Window) (text : Text) :
    append_terminal_line w text = (cutRows text).foldl append_row w :=
  @append_loop_eq w _ [] text List.not_mem_nil

omit [DesktopConfig] in
theorem cutRows_short (text : Text) : ∀ row ∈ cutRows text, row.length < COLS := by
  intro row hrow
  obtain ⟨line, -, rfl⟩ := List.mem_map.mp hrow
  exact lt_of_le_of_lt (List.length_take_le _ _) (by decide)

theorem right_append_line (h : Right ⟨w, rows⟩) (text : Text) :
    Right ⟨append_terminal_line w text, rows ++ cutRows text⟩ := by
  rw [append_line_eq]
  exact right_foldl (fun h hrow => right_append_row h hrow) h (cutRows_short text)

theorem right_append_lines (h : Right ⟨w, rows⟩) (appended : List Text) :
    Right ⟨appended.foldl append_terminal_line w, rows ++ appended.flatMap cutRows⟩ := by
  induction appended generalizing w rows with
  | nil => rwa [List.flatMap_nil, List.append_nil]
  | cons text appended ih =>
    rw [List.foldl_cons, List.flatMap_cons, ← List.append_assoc]
    exact ih (right_append_line h text)

/-! ## The output of a command -/

def outputRow (w : Window) (row : Text) : Window :=
  let w := make_room w
  if w.total_rows < ROWS then put_row w row else w

omit [DesktopConfig] in
theorem right_outputRow (h : Right ⟨w, rows⟩) {row : Text} (hrow : row.length < COLS) :
    Right ⟨outputRow w row, rows ++ [row]⟩ := by
  obtain ⟨hroom, hlt⟩ := right_make_room h
  unfold outputRow
  dsimp only
  rw [if_pos hlt]
  exact right_put_row hroom hlt hrow

omit [DesktopConfig] in
theorem line_split (res : Text) : ∃ line rest, res = line ++ rest ∧ newline ∉ line ∧
    res.takeWhile (· != newline) = line ∧ (rest = [] ∨ ∃ more, rest = newline :: more) := by
  refine ⟨res.takeWhile (· != newline), res.dropWhile (· != newline),
    List.takeWhile_append_dropWhile.symm, ?_, rfl, ?_⟩
  · intro hmem
    simpa using List.mem_takeWhile_imp hmem
  · cases hrest : res.dropWhile (· != newline) with
    | nil => exact .inl rfl
    | cons c more =>
      have hstop := List.head?_dropWhile_not (· != newline) res
      rw [hrest] at hstop
      have hc : c = newline := by simpa using hstop
      exact .inr ⟨more, by rw [hc]⟩

omit [DesktopConfig] in
theorem output_loop_eq {max_c rounds : Nat} (hpos : 0 < max_c) {res : Text}
    (h : res.length ≤ rounds) :
    output_loop max_c rounds w res = (wrapRows max_c res).foldl outputRow w := by
  induction rounds generalizing w res with
  | zero =>
    obtain rfl := List.eq_nil_of_length_eq_zero (Nat.le_zero.mp h)
    rfl
  | succ rounds ih =>
    rw [output_loop]
    by_cases hnil : res = []
    · rw [if_pos hnil, hnil]
      rfl
    rw [if_neg hnil]
    obtain ⟨line, rest, rfl, hline, htake, hrest⟩ := line_split res
    dsimp only
    rw [htake]
    change output_loop max_c rounds (outputRow w _) _ = _
    rcases Nat.lt_or_ge max_c line.length with hlong | hshort
    · -- the row ends inside of the line
      have hmark : (line ++ rest)[max_c]? ≠ some newline := by
        rw [List.getElem?_append_left hlong]
        exact fun heq => hline (List.mem_of_getElem? heq)
      have hdrop : (line ++ rest).drop max_c = line.drop max_c ++ rest := by
        rw [List.drop_append_of_le_length (by omega)]
      rw [Nat.min_eq_left hlong.le, if_neg hmark, hdrop, wrapRows,
        RowLog.wrap_long hpos hlong hline hrest, List.foldl_cons,
        List.take_append_of_le_length hlong.le]
      exact ih (by
        rw [List.length_append, List.length_drop]
        rw [List.length_append] at h
        omega)
    · -- the row is the whole line
      rw [Nat.min_eq_right hshort, List.take_left, List.getElem?_append_right (le_refl _),
        Nat.sub_self]
      rcases hrest with rfl | ⟨more, rfl⟩
      · rw [List.append_nil] at hnil ⊢
        rw [List.getElem?_nil, if_neg (by simp), List.drop_length, wrapRows,
          RowLog.wrap_last hline hnil, RowLog.chunks_short hshort]
        exact ih (Nat.zero_le _)
      · rw [List.getElem?_cons_zero, if_pos rfl, ← List.drop_drop, List.drop_left, List.drop_one, List.tail_cons, wrapRows,
          RowLog.wrap_line hline, RowLog.chunks_short hshort, List.singleton_append,
          List.foldl_cons]
        exact ih (by
          rw [List.length_append, List.length_cons] at h
          omega)

theorem right_output (h : Right ⟨w, rows⟩) (res : Text) :
    Right ⟨output_loop (terminal_visible_cols w) res.length w res,
      rows ++ wrapRows (terminal_visible_cols w) res⟩ := by
  obtain ⟨hpos, hlt⟩ := visible_cols_bounds w
  rw [output_loop_eq hpos (le_refl _)]
  exact right_foldl (fun h hrow => right_outputRow h hrow) h fun row hrow =>
    lt_of_le_of_lt (RowLog.length_of_mem_wrap hpos hrow) hlt

/-! ## A command that is cancelled -/

omit [DesktopConfig] in
theorem make_room_offset (w : Window) (v : Int) : ∃ v',
    make_room { w with v_offset := v } = { make_room w with v_offset := v' } := by
  unfold make_room
  by_cases hfull : ROWS ≤ w.total_rows
  · rw [if_pos hfull, if_pos hfull]
    exact ⟨_, rfl⟩
  · rw [if_neg hfull, if_neg hfull]
    exact ⟨_, rfl⟩

theorem append_row_offset (w : Window) (v : Int) (row : Text) : ∃ v',
    append_row { w with v_offset := v } row = { append_row w row with v_offset := v' } := by
  obtain ⟨v', hroom⟩ := make_room_offset w v
  have hview : terminal_visible_rows (put_row { make_room w with v_offset := v' } row) =
      terminal_visible_rows (put_row (make_room w) row) := rfl
  unfold append_row
  rw [hroom]
  dsimp only
  by_cases hmore : terminal_visible_rows (put_row (make_room w) row) <
      (put_row (make_room w) row).total_rows
  · rw [if_pos hmore, if_pos (hview ▸ hmore)]
    exact ⟨_, rfl⟩
  · rw [if_neg hmore, if_neg (hview ▸ hmore)]
    exact ⟨_, rfl⟩

theorem append_line_offset (w : Window) (v : Int) (text : Text) : ∃ v',
    append_terminal_line { w with v_offset := v } text =
      { append_terminal_line w text with v_offset := v' } := by
  rw [append_line_eq, append_line_eq]
  induction cutRows text generalizing w v with
  | nil => exact ⟨v, rfl⟩
  | cons row rest ih =>
    obtain ⟨v', hrow⟩ := append_row_offset w v row
    rw [List.foldl_cons, List.foldl_cons, hrow]
    exact ih _ _

theorem unlock_offset (w : Window) (v : Int) :
    terminal_unlock_after_cancel { w with v_offset := v } = terminal_unlock_after_cancel w := by
  obtain ⟨v', hroom⟩ := make_room_offset w v
  unfold terminal_unlock_after_cancel terminal_append_prompt
  dsimp only
  rw [hroom]
  dsimp only
  split <;> rfl

/-! ## A command -/

omit [DesktopConfig] in
theorem right_run_start (h : Right ⟨w, rows⟩)
    (hfine : ¬ (w.total_rows = ROWS ∧ w.v_offset = (ROWS : Int) - 1)) :
    Right ⟨run_start w, rows⟩ := by
  unfold run_start
  split
  case isTrue hfull =>
    have hcount : w.total_rows = ROWS := Nat.le_antisymm h.count hfull
    have hoffset := h.offset
    dsimp only at hoffset
    rw [hcount] at hoffset
    have hshift := @right_shift w rows h hcount w.v_offset ⟨hoffset.1, by
      have hne : w.v_offset ≠ (ROWS : Int) - 1 := fun heq => hfine ⟨hcount, heq⟩
      omega⟩
    exact hshift
  case isFalse => exact h

theorem right_cancelled (h : Right ⟨w, rows⟩) :
    Right ⟨terminal_unlock_after_cancel
      (append_terminal_line (run_start w) (ascii "Command cancelled.")),
      rows ++ cutRows (ascii "Command cancelled.") ++ [PROMPT]⟩ := by
  have hzero : Right ⟨{ w with v_offset := 0 }, rows⟩ :=
    h.congr rfl rfl ⟨le_refl _, Int.natCast_pos.mpr h.pos⟩
  have hstart := right_run_start hzero fun hboth =>
    absurd (show (0 : Int) = (ROWS : Int) - 1 from hboth.2) (by decide)
  have hsame : run_start { w with v_offset := 0 } = { run_start w with v_offset := 0 } := by
    unfold run_start
    dsimp only
    split <;> rfl
  rw [hsame] at hstart
  have happend := right_append_line hstart (ascii "Command cancelled.")
  obtain ⟨v, hv⟩ := append_line_offset (run_start w) 0 (ascii "Command cancelled.")
  have hprompt := right_scroll_to_bottom (right_prompt happend)
  rw [hv] at hprompt
  rw [← unlock_offset _ v]
  exact hprompt

theorem right_clear (w' : Window) (hlines : w'.lines 0 = PROMPT) (htotal : w'.total_rows = 1) :
    Right ⟨terminal_scroll_to_bottom w', [PROMPT]⟩ := by
  have hstored : (terminal_scroll_to_bottom w').stored = [PROMPT] := by
    have hrows : w'.stored = [PROMPT] := by
      rw [Window.stored, htotal, List.range_one, List.map_singleton, hlines]
    exact hrows
  refine ⟨?_, ?_, ?_, scroll_max_bounds (by omega)⟩
  · change w'.total_rows ≤ ROWS
    rw [htotal]
    decide
  · rw [hstored]
    exact Keeps.refl _ _
  · rw [hstored]
    exact fun row hrow => List.mem_singleton.mp hrow ▸ prompt_short

theorem right_restore {c : Command} (hclear : is_clear c.cmd_buf = false) (h : Right ⟨w, rows⟩) :
    Right ⟨restore_prompt w c, rows ++ if c.exec.app = .none then [PROMPT] else []⟩ := by
  unfold restore_prompt
  rw [hclear, Bool.not_false, Bool.true_and]
  by_cases happ : c.exec.app = .none
  · rw [if_pos happ, if_pos (decide_eq_true happ)]
    exact right_scroll_to_bottom (right_prompt h)
  · rw [if_neg happ, if_neg (by simpa using happ), if_neg Bool.false_ne_true, List.append_nil]
    exact right_scroll_to_bottom h

omit [DesktopConfig] in
theorem secret_fits {cmd display : Text} (h : secretPrompt cmd = some display) :
    display.length ≤ COLS - PROMPT_LEN - 1 := by
  unfold secretPrompt at h
  dsimp only at h
  split at h
  · cases h
    decide
  · split at h
    · cases h
      decide
    · cases h

variable {c : Command}

omit [DesktopConfig] in
theorem executes_iff (c : Command) : c.executes = true ↔
    secretPrompt c.cmd_buf = none ∧ is_clear c.cmd_buf = false ∧ c.cancel_requested = false := by
  simp [Command.executes, and_assoc]

theorem right_executed (h : Right ⟨w, rows⟩) (hcmd : c.cmd_buf ≠ []) (hexec : c.executes = true)
    (hfine : Fine ⟨w, rows⟩ (.command c)) :
    Right ⟨enter w c, rows ++ c.exec.appended.flatMap cutRows ++
      wrapRows (terminal_visible_cols (executing w c.exec.appended)) c.exec.out_buf ++
        if c.Over then [PROMPT] else []⟩ := by
  obtain ⟨hsecret, hclear, hcancel⟩ := (executes_iff c).mp hexec
  obtain ⟨hoffset, happ⟩ := hfine hcmd hexec
  have hdone := right_scroll_to_bottom
    (right_output (right_append_lines (right_run_start h hoffset) c.exec.appended) c.exec.out_buf)
  have hrun : run_command w c = terminal_scroll_to_bottom
      (output_loop (terminal_visible_cols (executing w c.exec.appended)) c.exec.out_buf.length
        (executing w c.exec.appended) c.exec.out_buf) := by
    unfold run_command
    rw [hsecret]
    dsimp only
    rw [hclear, hcancel, if_neg Bool.false_ne_true, if_neg Bool.false_ne_true]
  have henter : enter w c =
      if c.exec.waiting_wget = true then run_command w c else restore_prompt (run_command w c) c := by
    unfold enter
    rw [if_neg hcmd, hsecret, hexec, Bool.true_and]
  rw [henter, hrun]
  by_cases hwait : c.exec.waiting_wget = true
  · have hgoes : ¬ c.Over := fun hover => by
      have := (hover hexec).1
      rw [hwait] at this
      cases this
    rw [if_pos hwait, if_neg hgoes, List.append_nil]
    exact hdone
  · have hover : c.Over ↔ c.exec.app = .none := by
      have hfalse := Bool.eq_false_of_not_eq_true hwait
      have hother := happ hfalse
      constructor
      · intro hover
        have hown := (hover hexec).2
        cases hcase : c.exec.app with
        | none => rfl
        | own => exact absurd hcase hown
        | other => exact absurd hcase hother
      · intro hnone _
        exact ⟨hfalse, by rw [hnone]; decide⟩
    rw [if_neg hwait, if_congr hover rfl rfl]
    exact right_restore hclear hdone

theorem right_enter (h : Right ⟨w, rows⟩) (hfine : Fine ⟨w, rows⟩ (.command c)) :
    Right ⟨enter w c,
      commandRows (terminal_visible_cols (executing w c.exec.appended)) rows c⟩ := by
  unfold commandRows
  dsimp only
  by_cases hcmd : c.cmd_buf = []
  · have hclear : is_clear c.cmd_buf = false := by rw [hcmd]; rfl
    unfold enter
    rw [if_pos hcmd, if_pos hcmd]
    exact right_restore hclear h
  rw [if_neg hcmd]
  cases hsecret : secretPrompt c.cmd_buf with
  | some display =>
    dsimp only
    unfold enter terminal_begin_ssh_secret
    rw [if_neg hcmd, hsecret]
    dsimp only
    rw [if_pos h.pos]
    exact right_scroll_to_bottom (right_redraw h (secret_fits hsecret))
  | none =>
    dsimp only
    by_cases hclear : is_clear c.cmd_buf = true
    · rw [if_pos hclear]
      have hexec : c.executes = false := by simp [Command.executes, hclear]
      unfold enter run_command restore_prompt
      rw [if_neg hcmd, hsecret, hexec, hclear]
      dsimp only
      rw [Bool.false_and, if_neg Bool.false_ne_true, Bool.not_true, Bool.false_and,
        if_neg Bool.false_ne_true, if_pos rfl, if_pos rfl]
      refine right_clear _ ?_ rfl
      unfold redraw_prompt_line
      dsimp only
      rw [Function.update_self, List.append_nil]
    rw [if_neg hclear]
    have hplain := Bool.eq_false_of_not_eq_true hclear
    by_cases hcancel : c.cancel_requested = true
    · rw [if_pos hcancel]
      have hexec : c.executes = false := by simp [Command.executes, hcancel]
      unfold enter run_command
      rw [if_neg hcmd, hsecret, hexec]
      dsimp only
      rw [hplain, hcancel, if_neg Bool.false_ne_true, if_pos rfl, Bool.false_and,
        if_neg Bool.false_ne_true]
      exact right_restore hplain (right_cancelled h)
    · rw [if_neg hcancel]
      exact right_executed h hcmd
        ((executes_iff c).mpr ⟨hsecret, hplain, Bool.eq_false_of_not_eq_true hcancel⟩) hfine

omit [DesktopConfig] in
theorem promptLast_of_right (h : Right ⟨w, rows⟩) {front : List Text} {row : Text}
    (hrows : rows = front ++ [row]) (hprompt : PROMPT <+: row) : PromptLast w := by
  obtain ⟨before, hkept⟩ := h.kept.1
  dsimp only at hkept
  have hne : w.stored ≠ [] := List.ne_nil_of_length_pos (by rw [length_stored]; exact h.pos)
  refine ⟨row, ?_, hprompt⟩
  have hlast := congrArg List.getLast? (hkept.trans hrows)
  rwa [List.getLast?_append_of_ne_nil _ hne, List.getLast?_concat] at hlast

/-! ## Runs -/

theorem right_step {s : State} {op : Op} (h : Right s) (hfine : Fine s op) :
    Right (step s op) := by
  cases op with
  | append text => exact right_append_line h text
  | prompt => exact right_prompt h
  | command c => exact right_enter h hfine
  | edit cmd_buf fits => exact right_redraw h fits
  | scroll wheel =>
    have hmax := scroll_max_bounds (w := { s.win with v_offset := s.win.v_offset - wheel }) h.pos
    refine h.congr rfl rfl ?_
    unfold handle terminal_clamp_v_offset
    dsimp only at hmax ⊢
    split <;> split <;> omega
  | reshape g => exact h.congr rfl rfl h.offset

theorem right_while {s : State} {op : Op} (h : Right s) (hfine : Fine s op) : RightWhile s op := by
  cases op with
  | command c =>
    intro hcmd hexec front rest _
    exact right_append_lines (right_run_start h (hfine hcmd hexec).1) front
  | _ => trivial

omit [DesktopConfig] in
theorem commandRows_last {cols : Nat} {c : Command} (hcmd : c.cmd_buf ≠ []) (hover : c.Over) :
    ∃ front row, commandRows cols rows c = front ++ [row] ∧ PROMPT <+: row := by
  unfold commandRows
  dsimp only
  rw [if_neg hcmd, if_pos hover]
  split
  · exact ⟨_, _, rfl, List.prefix_append _ _⟩
  · split
    · exact ⟨[], PROMPT, rfl, List.prefix_refl _⟩
    · split
      · split
        · exact ⟨_, PROMPT, rfl, List.prefix_refl _⟩
        · exact ⟨_, PROMPT, List.append_nil _, List.prefix_refl _⟩
      · exact ⟨_, PROMPT, rfl, List.prefix_refl _⟩

theorem promptLast_step {s : State} {op : Op} (h : Right (step s op)) (hends : op.EndsInPrompt) :
    PromptLast (step s op).win := by
  cases op with
  | prompt => exact promptLast_of_right h rfl (List.prefix_refl _)
  | command c =>
    obtain ⟨front, row, hrows, hprompt⟩ := commandRows_last hends.1 hends.2
    exact promptLast_of_right h hrows hprompt
  | edit cmd_buf fits => exact promptLast_of_right h rfl (List.prefix_append _ _)
  | append text => exact hends.elim
  | scroll wheel => exact hends.elim
  | reshape g => exact hends.elim

omit [DesktopConfig] in
theorem right_start (g : Geometry) : Right ⟨.start g, [PROMPT]⟩ := by
  refine ⟨(by decide : 1 ≤ ROWS), Keeps.refl _ _, ?_, le_refl 0, Int.zero_lt_one⟩
  exact fun row hrow => List.mem_singleton.mp hrow ▸ prompt_short

/-- In every run whose commands are fine, the last rows are stored, the prompt is the last one and
the offset stays in them. -/
theorem scrollback_right (g : Geometry) {ops : List Op}
    (h : Runs.Each (fun before op => Fine (run g before) op) ops) : ScrollbackRight g ops := by
  refine ⟨right_start g, fun before op after hops => ?_⟩
  have hbefore : Right (run g before) :=
    Runs.inv_of_each (right_start g) right_step (h.front hops)
  have hfine := h before op after hops
  have hstep := right_step hbefore hfine
  exact ⟨right_while hbefore hfine, hstep, promptLast_step hstep⟩

end

/-- The command line `ls` with the given lines and text, and the app that runs at its end. -/
def lsCommand (appended : List Text) (out_buf : Text) (app : App) : Command :=
  ⟨ascii "ls", false, ⟨appended, out_buf, false, app⟩⟩

def qemuGeometry : Geometry := ⟨640, 400, false, 1⟩

/-- A window of the least height, with the largest font: one row is visible. -/
def smallGeometry : Geometry := ⟨640, 140, false, 3⟩

/-- An edit, the command, and a line of an app. -/
def listing : List Op :=
  [.edit (ascii "ls") (by decide), .command (lsCommand [ascii "f a"] (ascii "one\ntwo") .none),
    .append (ascii "done")]

theorem scrollback_right_listing :
    Runs.Each (fun before op => @Fine (@run gui.fpgaDesktop qemuGeometry before) op) listing ∧
      @ScrollbackRight gui.fpgaDesktop qemuGeometry listing := by
  have hfine : Runs.Each
      (fun before op => @Fine (@run gui.fpgaDesktop qemuGeometry before) op) listing := by
    refine Runs.each_cons trivial (Runs.each_cons ?_ (Runs.each_cons trivial (Runs.each_nil _)))
    exact fun _ _ => ⟨by decide, fun _ => by decide⟩
  exact ⟨hfine, @scrollback_right gui.fpgaDesktop qemuGeometry listing hfine⟩

/-- The output of a command while an app of another window runs. -/
def otherApp : List Op := [.command (lsCommand [] (ascii "one") .other)]

/-- A full window at its end, and a command. -/
def fullWindow : List Op :=
  List.replicate 63 (.append (ascii "x")) ++ [.command (lsCommand [] [] .none)]

/-- The other window gets no prompt, and in the full one the offset is behind the rows while the
command runs. -/
theorem scrollback_wrong : ¬ @ScrollbackRight gui.fpgaDesktop qemuGeometry otherApp ∧
    ¬ @ScrollbackRight gui.fpgaDesktop smallGeometry fullWindow := by
  let _ := gui.fpgaDesktop
  constructor
  · intro h
    obtain ⟨row, hlast, hprompt⟩ := (h.2 [] _ [] rfl).2.2 ⟨by decide, fun _ => by decide⟩
    have hrow : (step (run qemuGeometry []) (.command (lsCommand [] (ascii "one") .other))
        ).win.stored.getLast? = some (ascii "one") := by decide
    rw [hrow] at hlast
    obtain rfl := Option.some.inj hlast
    exact absurd hprompt (by decide)
  · intro h
    have hwhile := (h.2 (List.replicate 63 (.append (ascii "x"))) _ [] rfl).1
    have hoffset := (hwhile (by decide) (by decide) [] [] rfl).offset
    have hboth : (executing (run smallGeometry (List.replicate 63 (.append (ascii "x")))).win []
        ).v_offset = 63 ∧ (executing (run smallGeometry (List.replicate 63 (.append (ascii "x")))
          ).win []).total_rows = 63 := by decide +kernel
    rw [hboth.1, hboth.2] at hoffset
    exact absurd hoffset.2 (by decide)

end vibeos.scrollback

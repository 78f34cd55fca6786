-- The lazy view of a large file: `editor_load_file_window` of user_editor.c, and the paging of
-- tool_editor.c. Which lines of the file a view shows, and when it says that they are the last.
import Vibeos.FsOps

namespace vibeos.editor

open fs (Disk Block FS_DATA_PAYLOAD BSIZE load_loop load_loop_nil length_load_loop_le)

def EDITOR_MAX_LINES : Nat := 128
def EDITOR_LINE_LEN : Nat := 64

/-- The file of a lazy editor window. The size is a 32-bit word. -/
structure LazyFile where
  editor_file_bno : Nat
  editor_file_size : Nat
  size_lt : editor_file_size < 2 ^ 32

/-- What a lazy load leaves in the window: `editor_line_count` rows. -/
structure LazyView where
  editor_lines : List (List UInt8)
  editor_loaded_start_line : Nat
  editor_loaded_complete : Bool

/-! ## The load -/

/-- The loop's variables: `rows` are the rows that are finished, `cur` holds the `col` characters of
the row in work. -/
structure Scan where
  line_no : Nat
  rows : List (List UInt8)
  cur : List UInt8

def Scan.put (start_line : Nat) (s : Scan) (ch : UInt8) : Scan :=
  if ch = 13 then s
  else if ch = 10 then
    if start_line ≤ s.line_no then ⟨s.line_no + 1, s.rows ++ [s.cur], []⟩
    else { s with line_no := s.line_no + 1 }
  else if start_line ≤ s.line_no ∧ s.cur.length < EDITOR_LINE_LEN - 1 then
    { s with cur := s.cur ++ [ch] }
  else s

def Scan.chunk (start_line : Nat) (s : Scan) : List UInt8 → Scan
  | [] => s
  | ch :: data =>
    if s.rows.length < EDITOR_MAX_LINES then (s.put start_line ch).chunk start_line data else s

/-- The number of bytes of a block that the loop takes, these bytes, and the next block. -/
def take_chunk (b : Block) (remaining : Nat) : Nat × List UInt8 × Nat :=
  match b with
  | .data d =>
    let chunk := min remaining FS_DATA_PAYLOAD
    (chunk, d.data.val.take chunk, d.next_bno)
  | b =>
    let chunk := min remaining BSIZE
    (chunk, b.bytes.take chunk, 0)

theorem take_chunk_pos (b : Block) {remaining : Nat} (h : 0 < remaining) :
    0 < (take_chunk b remaining).1 := by
  cases b <;> simp only [take_chunk, FS_DATA_PAYLOAD, BSIZE] <;> omega

theorem take_chunk_le (b : Block) (remaining : Nat) : (take_chunk b remaining).1 ≤ remaining := by
  cases b <;> exact Nat.min_le_left _ _

/-- The outer loop: the variables at its end, and `remaining == 0 || bno == 0`. -/
def window_loop (disk : Disk) (start_line remaining bno : Nat) (s : Scan) : Scan × Bool :=
  if _h : 0 < remaining ∧ bno ≠ 0 ∧ s.rows.length < EDITOR_MAX_LINES then
    let c := take_chunk (disk bno) remaining
    window_loop disk start_line (remaining - c.1) c.2.2 (s.chunk start_line c.2.1)
  else (s, remaining = 0 || bno = 0)
termination_by remaining
decreasing_by
  have := take_chunk_pos (disk bno) _h.1
  have := take_chunk_le (disk bno) remaining
  omega

/-- The row in work becomes a row of the view, and a view has a row. -/
def Scan.finish (start_line : Nat) (s : Scan) : List (List UInt8) :=
  let rows := if s.rows.length < EDITOR_MAX_LINES ∧ (0 < s.cur.length ∨ start_line ≤ s.line_no)
    then s.rows ++ [s.cur] else s.rows
  if rows = [] then [[]] else rows

/-- `editor_load_file_window`; `none` is its return code -1. -/
def editor_load_file_window (disk : Disk) (f : LazyFile) (start_line : Nat) : Option LazyView :=
  if f.editor_file_bno = 0 then none
  else
    let r := window_loop disk start_line f.editor_file_size f.editor_file_bno ⟨0, [], []⟩
    some ⟨r.1.finish start_line, start_line, r.2⟩

/-- The views that `editor_page_down` and `editor_move_down` go through from the first one on; the
start line is a 32-bit word. -/
inductive PagedTo (disk : Disk) (f : LazyFile) : LazyView → Prop
  | first {v : LazyView} (h : editor_load_file_window disk f 0 = some v) : PagedTo disk f v
  | down {v v' : LazyView} (hv : PagedTo disk f v) (hc : v.editor_loaded_complete = false)
      (h : editor_load_file_window disk f
        ((v.editor_loaded_start_line + v.editor_lines.length) % 2 ^ 32) = some v') : PagedTo disk f v'

/-! ## A view that is right -/

/-- The lines of a text, without its carriage returns. -/
def linesOf (bytes : List UInt8) : List (List UInt8) := (bytes.filter (· ≠ 13)).splitOn 10

def cutLine (line : List UInt8) : List UInt8 := line.take (EDITOR_LINE_LEN - 1)

def LazyFile.text (disk : Disk) (f : LazyFile) : List UInt8 :=
  load_loop disk f.editor_file_size f.editor_file_bno

def LazyFile.lines (disk : Disk) (f : LazyFile) : List (List UInt8) := linesOf (f.text disk)

/-- The rows of a view; without a line to show it has one empty row. -/
def shownLines (lines : List (List UInt8)) (start_line : Nat) : List (List UInt8) :=
  let rows := ((lines.drop start_line).take EDITOR_MAX_LINES).map cutLine
  if rows = [] then [[]] else rows

/-- The load shows the lines from `start_line` on, and says that the view is complete iff the file
has no line behind them. -/
def ViewRight (disk : Disk) (f : LazyFile) (start_line : Nat) : Prop :=
  ∃ v, editor_load_file_window disk f start_line = some v ∧
    v.editor_lines = shownLines (f.lines disk) start_line ∧
    (v.editor_loaded_complete = true ↔ (f.lines disk).length ≤ start_line + EDITOR_MAX_LINES)

/-- Paging down from the first line comes to each line of the file. -/
def PagesShowAll (disk : Disk) (f : LazyFile) : Prop :=
  ∀ (n : Nat) (line : List UInt8), (f.lines disk)[n]? = some line →
    ∃ v, PagedTo disk f v ∧ v.editor_loaded_start_line ≤ n ∧
      v.editor_lines[n - v.editor_loaded_start_line]? = some (cutLine line)

/-! ## The chunks of a file -/

/-- The chunks that the loop reads when nothing stops it. -/
def fileChunks (disk : Disk) (remaining bno : Nat) : List (List UInt8) :=
  if _h : 0 < remaining ∧ bno ≠ 0 then
    let c := take_chunk (disk bno) remaining
    c.2.1 :: fileChunks disk (remaining - c.1) c.2.2
  else []
termination_by remaining
decreasing_by
  have := take_chunk_pos (disk bno) _h.1
  have := take_chunk_le (disk bno) remaining
  omega

theorem flatten_fileChunks (disk : Disk) (remaining bno : Nat) :
    (fileChunks disk remaining bno).flatten = load_loop disk remaining bno := by
  induction remaining using Nat.strongRecOn generalizing bno with
  | ind remaining ih =>
    rw [fileChunks, load_loop]
    by_cases h : 0 < remaining ∧ bno ≠ 0
    · have hlt : remaining - (take_chunk (disk bno) remaining).1 < remaining := by
        have := take_chunk_pos (disk bno) h.1
        omega
      rw [dif_pos h, dif_neg (by omega), List.flatten_cons, ih _ hlt]
      cases hb : disk bno with
      | data d => rfl
      | dir d =>
        change _ ++ load_loop disk _ 0 = _
        rw [load_loop_nil, List.append_nil]
        rfl
      | raw r =>
        change _ ++ load_loop disk _ 0 = _
        rw [load_loop_nil, List.append_nil]
        rfl
    · rw [dif_neg h, dif_pos (by omega), List.flatten_nil]

/-! ## A scan of the whole text -/

/-- The rows are full: the loop takes no more characters. -/
def Scan.Full (s : Scan) : Prop := EDITOR_MAX_LINES ≤ s.rows.length

theorem Scan.chunk_of_full {s : Scan} (h : s.Full) (start_line : Nat) (data : List UInt8) :
    s.chunk start_line data = s := by
  cases data with
  | nil => rfl
  | cons ch data => exact if_neg (Nat.not_lt.mpr h)

theorem Scan.chunk_cons {s : Scan} (h : ¬ s.Full) (start_line : Nat) (ch : UInt8)
    (data : List UInt8) :
    s.chunk start_line (ch :: data) = (s.put start_line ch).chunk start_line data :=
  if_pos (Nat.not_le.mp h)

theorem Scan.chunk_append (start_line : Nat) (s : Scan) (l m : List UInt8) :
    s.chunk start_line (l ++ m) = (s.chunk start_line l).chunk start_line m := by
  induction l generalizing s with
  | nil => rfl
  | cons ch l ih =>
    by_cases h : s.Full
    · rw [chunk_of_full h, chunk_of_full h, chunk_of_full h]
    · rw [List.cons_append, chunk_cons h, chunk_cons h, ih]

def newlines (l : List UInt8) : Nat := l.count 10

theorem Scan.length_chunk (start_line : Nat) (s : Scan) (l : List UInt8)
    (h : s.rows.length ≤ EDITOR_MAX_LINES) :
    (s.chunk start_line l).rows.length =
      min EDITOR_MAX_LINES (s.rows.length + (newlines l - (start_line - s.line_no))) := by
  unfold newlines
  induction l generalizing s with
  | nil =>
    simp only [chunk, List.count_nil]
    omega
  | cons ch l ih =>
    by_cases hf : s.Full
    · rw [chunk_of_full hf]
      unfold Full at hf
      omega
    rw [chunk_cons hf]
    unfold Full at hf
    by_cases hcr : ch = 13
    · rw [put, if_pos hcr, ih s h, hcr, List.count_cons_of_ne (by decide)]
    by_cases hnl : ch = 10
    · rw [put, if_neg hcr, if_pos hnl, hnl, List.count_cons_self]
      split
      · rw [ih _ (by simp only [List.length_append, List.length_singleton]; omega)]
        simp only [List.length_append, List.length_singleton]
        omega
      · rw [ih { s with line_no := s.line_no + 1 } h]
        dsimp only
        omega
    · rw [put, if_neg hcr, if_neg hnl, List.count_cons_of_ne hnl]
      split
      · exact ih _ h
      · exact ih _ h

theorem Scan.full_chunk_iff (start_line : Nat) (l : List UInt8) :
    (Scan.chunk start_line ⟨0, [], []⟩ l).Full ↔ start_line + EDITOR_MAX_LINES ≤ newlines l := by
  unfold Full
  rw [length_chunk start_line ⟨0, [], []⟩ l (Nat.zero_le _)]
  simp only [List.length_nil, EDITOR_MAX_LINES]
  omega

/-! ## The lines of a text -/

theorem linesOf_nil : linesOf [] = [[]] := rfl

theorem linesOf_cr (l : List UInt8) : linesOf (13 :: l) = linesOf l := rfl

theorem linesOf_newline (l : List UInt8) : linesOf (10 :: l) = [] :: linesOf l := by
  unfold linesOf
  rw [List.filter_cons_of_pos (by decide), List.splitOn_cons_eq_if_modifyHead,
    if_pos (beq_self_eq_true 10)]

theorem linesOf_cons {ch : UInt8} (hcr : ch ≠ 13) (hnl : ch ≠ 10) (l : List UInt8) :
    linesOf (ch :: l) = (linesOf l).modifyHead (ch :: ·) := by
  unfold linesOf
  rw [List.filter_cons_of_pos (by simpa using hcr), List.splitOn_cons_eq_if_modifyHead,
    if_neg (by simpa using hnl)]

theorem linesOf_eq_cons (l : List UInt8) : ∃ line rest, linesOf l = line :: rest := by
  cases h : linesOf l with
  | nil => exact absurd h (List.splitOn_ne_nil 10 _)
  | cons line rest => exact ⟨line, rest, rfl⟩

theorem length_linesOf (l : List UInt8) : (linesOf l).length = newlines l + 1 := by
  unfold newlines
  induction l with
  | nil => rfl
  | cons ch l ih =>
    by_cases hcr : ch = 13
    · rw [hcr, linesOf_cr, ih, List.count_cons_of_ne (by decide)]
    by_cases hnl : ch = 10
    · rw [hnl, linesOf_newline, List.length_cons, ih, List.count_cons_self]
    · rw [linesOf_cons hcr hnl, List.length_modifyHead, ih, List.count_cons_of_ne hnl]

/-! ## The rows of a view -/

/-- The rows that the rest of the text adds, when it has these lines. -/
def Scan.pending (start_line : Nat) (s : Scan) : List (List UInt8) → List (List UInt8)
  | [] => []
  | line :: rest =>
    if start_line ≤ s.line_no then cutLine (s.cur ++ line) :: rest.map cutLine
    else (rest.drop (start_line - s.line_no - 1)).map cutLine

/-- The rows fit the window and the row in work fits a row; it is empty before the first line of the
view. -/
structure Scan.Fits (start_line : Nat) (s : Scan) : Prop where
  rows_le : s.rows.length ≤ EDITOR_MAX_LINES
  cur_le : s.cur.length ≤ EDITOR_LINE_LEN - 1
  before : s.line_no < start_line → s.cur = []

theorem Scan.Fits.put {start_line : Nat} {s : Scan} (h : s.Fits start_line) (hf : ¬ s.Full)
    (ch : UInt8) : (s.put start_line ch).Fits start_line := by
  have hrows := h.rows_le
  unfold Full at hf
  unfold Scan.put
  split
  · exact h
  split
  · split
    · refine ⟨?_, Nat.zero_le _, fun _ => rfl⟩
      rw [List.length_append, List.length_singleton]
      omega
    · exact ⟨hrows, h.cur_le, fun hlt => h.before (by simp only at hlt; omega)⟩
  · split
    · rename_i hin
      refine ⟨hrows, ?_, fun hlt => absurd hin.1 (Nat.not_le.mpr hlt)⟩
      rw [List.length_append, List.length_singleton]
      omega
    · exact h

/-- The rows before the rule that a view has a row. -/
def Scan.closed (start_line : Nat) (s : Scan) : List (List UInt8) :=
  if s.rows.length < EDITOR_MAX_LINES ∧ (0 < s.cur.length ∨ start_line ≤ s.line_no)
  then s.rows ++ [s.cur] else s.rows

theorem Scan.closed_chunk {start_line : Nat} {s : Scan} (h : s.Fits start_line) (l : List UInt8) :
    (s.chunk start_line l).closed start_line =
      (s.rows ++ s.pending start_line (linesOf l)).take EDITOR_MAX_LINES := by
  induction l generalizing s with
  | nil =>
    have hrows := h.rows_le
    have hcur : cutLine (s.cur ++ []) = s.cur := by
      rw [List.append_nil]
      exact List.take_of_length_le h.cur_le
    rw [linesOf_nil]
    unfold chunk closed pending
    dsimp only
    rw [hcur, List.map_nil, List.drop_nil, List.map_nil]
    by_cases hin : start_line ≤ s.line_no
    · rw [if_pos hin]
      by_cases hf : s.rows.length < EDITOR_MAX_LINES
      · rw [if_pos ⟨hf, Or.inr hin⟩, List.take_of_length_le]
        rw [List.length_append, List.length_singleton]
        omega
      · rw [if_neg (fun hc => hf hc.1), List.take_append_of_le_length (by omega),
          List.take_of_length_le hrows]
    · have hnone : ¬ 0 < s.cur.length := by
        rw [h.before (by omega)]
        exact Nat.lt_irrefl 0
      rw [if_neg hin, if_neg (fun hc => hc.2.elim hnone hin), List.append_nil,
        List.take_of_length_le hrows]
  | cons ch l ih =>
    by_cases hf : s.Full
    · have hrows := h.rows_le
      unfold Full at hf
      rw [chunk_of_full hf, closed, if_neg (fun hc => Nat.not_le.mpr hc.1 hf),
        List.take_append_of_le_length hf, List.take_of_length_le hrows]
    rw [chunk_cons hf, ih (h.put hf ch)]
    congr 1
    obtain ⟨line, rest, hl⟩ := linesOf_eq_cons l
    by_cases hcr : ch = 13
    · rw [put, if_pos hcr, hcr, linesOf_cr]
    by_cases hnl : ch = 10
    · rw [put, if_neg hcr, if_pos hnl, hnl, linesOf_newline, hl]
      by_cases hin : start_line ≤ s.line_no
      · have hcur : cutLine (s.cur ++ []) = s.cur := by
          rw [List.append_nil]
          exact List.take_of_length_le h.cur_le
        simp only [pending, if_pos hin, if_pos (Nat.le_succ_of_le hin), hcur, List.nil_append,
          List.append_assoc, List.singleton_append, List.map_cons]
      · rw [if_neg hin]
        simp only [pending, if_neg hin, h.before (by omega), List.nil_append]
        by_cases hnext : start_line ≤ s.line_no + 1
        · rw [if_pos hnext, show start_line - s.line_no - 1 = 0 by omega, List.drop_zero,
            List.map_cons]
        · rw [if_neg hnext, show start_line - s.line_no - 1 =
            start_line - (s.line_no + 1) - 1 + 1 by omega, List.drop_succ_cons]
    · rw [linesOf_cons hcr hnl, hl, List.modifyHead_cons, put, if_neg hcr, if_neg hnl]
      by_cases hin : start_line ≤ s.line_no
      · by_cases hcol : s.cur.length < EDITOR_LINE_LEN - 1
        · rw [if_pos ⟨hin, hcol⟩]
          simp only [pending, if_pos hin, List.append_assoc, List.singleton_append]
        · have hfull : s.cur.length = EDITOR_LINE_LEN - 1 := by
            have := h.cur_le
            omega
          rw [if_neg (fun hc => hcol hc.2)]
          simp only [pending, if_pos hin, cutLine, ← hfull, List.take_left]
      · rw [if_neg (fun hc => hin hc.1)]
        simp only [pending, if_neg hin]

theorem Scan.finish_eq (start_line : Nat) (s : Scan) :
    s.finish start_line = if s.closed start_line = [] then [[]] else s.closed start_line := rfl

theorem Scan.finish_chunk (start_line : Nat) (l : List UInt8) :
    (Scan.chunk start_line ⟨0, [], []⟩ l).finish start_line = shownLines (linesOf l) start_line := by
  have hfits : Scan.Fits start_line ⟨0, [], []⟩ := ⟨Nat.zero_le _, Nat.zero_le _, fun _ => rfl⟩
  obtain ⟨line, rest, hl⟩ := linesOf_eq_cons l
  rw [finish_eq, closed_chunk hfits, hl]
  unfold shownLines
  cases start_line with
  | zero => simp only [pending, Nat.le_refl, if_true, List.nil_append, List.drop_zero, List.map_take,
      List.map_cons]
  | succ n =>
    simp only [pending, if_neg (Nat.not_succ_le_zero n), List.nil_append, List.drop_succ_cons,
      Nat.sub_zero, Nat.add_sub_cancel, List.map_take]

/-! ## The loop over the chunks -/

/-- Scan the chunks one after the other, and say whether all of them were taken. -/
def Scan.chunks (start_line : Nat) (s : Scan) : List (List UInt8) → Scan × Bool
  | [] => (s, true)
  | c :: cs =>
    if s.rows.length < EDITOR_MAX_LINES then (s.chunk start_line c).chunks start_line cs
    else (s, false)

theorem window_loop_eq (disk : Disk) (start_line remaining bno : Nat) (s : Scan) :
    window_loop disk start_line remaining bno s =
      s.chunks start_line (fileChunks disk remaining bno) := by
  induction remaining using Nat.strongRecOn generalizing bno s with
  | ind remaining ih =>
    rw [window_loop, fileChunks]
    by_cases hmore : 0 < remaining ∧ bno ≠ 0
    · rw [dif_pos hmore]
      by_cases hrow : s.rows.length < EDITOR_MAX_LINES
      · have hlt : remaining - (take_chunk (disk bno) remaining).1 < remaining := by
          have := take_chunk_pos (disk bno) hmore.1
          omega
        rw [dif_pos ⟨hmore.1, hmore.2, hrow⟩, Scan.chunks, if_pos hrow]
        exact ih _ hlt _ _
      · rw [dif_neg (fun h => hrow h.2.2), Scan.chunks, if_neg hrow, decide_eq_false (by omega),
          decide_eq_false hmore.2]
        rfl
    · rw [dif_neg (fun h => hmore ⟨h.1, h.2.1⟩), dif_neg hmore, Scan.chunks]
      have : remaining = 0 ∨ bno = 0 := by omega
      simp only [Prod.mk.injEq, true_and, Bool.or_eq_true, decide_eq_true_eq]
      exact this

theorem Scan.chunks_fst (start_line : Nat) (s : Scan) (cs : List (List UInt8)) :
    (s.chunks start_line cs).1 = s.chunk start_line cs.flatten := by
  induction cs generalizing s with
  | nil => rfl
  | cons c cs ih =>
    rw [chunks]
    split
    · rw [ih, List.flatten_cons, chunk_append]
    · rename_i hf
      exact (chunk_of_full (Nat.not_lt.mp hf) _ _).symm

theorem Scan.chunks_snd (start_line : Nat) (s : Scan) (cs : List (List UInt8)) :
    (s.chunks start_line cs).2 = true ↔
      cs = [] ∨ ¬ (s.chunk start_line cs.dropLast.flatten).Full := by
  induction cs generalizing s with
  | nil => simp [chunks]
  | cons c cs ih =>
    rw [chunks]
    by_cases hf : s.Full
    · rw [if_neg (Nat.not_lt.mpr hf), chunk_of_full hf]
      simp [hf]
    · rw [if_pos (Nat.not_le.mp hf), ih]
      cases cs with
      | nil => simpa [chunk] using hf
      | cons c' cs =>
        rw [List.dropLast_cons_of_ne_nil (List.cons_ne_nil c' cs), List.flatten_cons, chunk_append]
        simp

/-! ## One view -/

/-- The text before the last block of the file. -/
def LazyFile.beforeLast (disk : Disk) (f : LazyFile) : List UInt8 :=
  (fileChunks disk f.editor_file_size f.editor_file_bno).dropLast.flatten

theorem editor_load_file_window_eq (disk : Disk) {f : LazyFile} (h : f.editor_file_bno ≠ 0)
    (start_line : Nat) :
    editor_load_file_window disk f start_line =
      some ⟨shownLines (f.lines disk) start_line, start_line,
        newlines (f.beforeLast disk) < start_line + EDITOR_MAX_LINES⟩ := by
  have hdone := Scan.chunks_snd start_line ⟨0, [], []⟩
    (fileChunks disk f.editor_file_size f.editor_file_bno)
  rw [Scan.full_chunk_iff, Nat.not_le] at hdone
  unfold editor_load_file_window
  rw [if_neg h, window_loop_eq]
  dsimp only
  rw [Scan.chunks_fst, flatten_fileChunks, Scan.finish_chunk]
  congr 2
  rw [Bool.eq_iff_iff, hdone, decide_eq_true_eq]
  unfold LazyFile.beforeLast
  refine or_iff_right_of_imp fun hnil => ?_
  rw [hnil]
  exact Nat.lt_of_lt_of_le (by decide) (Nat.le_add_left EDITOR_MAX_LINES start_line)

theorem newlines_beforeLast_le (disk : Disk) (f : LazyFile) :
    newlines (f.beforeLast disk) ≤ newlines (f.text disk) := by
  unfold newlines LazyFile.beforeLast LazyFile.text
  rw [← flatten_fileChunks]
  generalize fileChunks disk f.editor_file_size f.editor_file_bno = cs
  cases cs using List.reverseRec with
  | nil => exact Nat.le_refl _
  | append_singleton cs c =>
    rw [List.dropLast_concat, List.flatten_append, List.count_append]
    exact Nat.le_add_right _ _

theorem length_lines (disk : Disk) (f : LazyFile) :
    (f.lines disk).length = newlines (f.text disk) + 1 :=
  length_linesOf _

theorem viewRight_iff (disk : Disk) (f : LazyFile) (start_line : Nat) :
    ViewRight disk f start_line ↔
      f.editor_file_bno ≠ 0 ∧
        (newlines (f.text disk) < start_line + EDITOR_MAX_LINES ∨
          start_line + EDITOR_MAX_LINES ≤ newlines (f.beforeLast disk)) := by
  have hle := newlines_beforeLast_le disk f
  unfold ViewRight
  by_cases h : f.editor_file_bno = 0
  · unfold editor_load_file_window
    rw [if_pos h]
    simp [h]
  · rw [editor_load_file_window_eq disk h, length_lines]
    simp only [Option.some.injEq, exists_eq_left', true_and, decide_eq_true_eq, ne_eq, h,
      not_false_eq_true]
    omega

/-! ## Paging -/

theorem length_shownLines_le (lines : List (List UInt8)) (start_line : Nat) :
    (shownLines lines start_line).length ≤ EDITOR_MAX_LINES := by
  unfold shownLines
  dsimp only
  split
  · decide
  · rw [List.length_map, List.length_take]
    exact Nat.min_le_left _ _

theorem length_shownLines {lines : List (List UInt8)} {start_line : Nat}
    (h : start_line + EDITOR_MAX_LINES ≤ lines.length) :
    (shownLines lines start_line).length = EDITOR_MAX_LINES := by
  have hlen : (((lines.drop start_line).take EDITOR_MAX_LINES).map cutLine).length =
      EDITOR_MAX_LINES := by
    rw [List.length_map, List.length_take, List.length_drop]
    omega
  unfold shownLines
  dsimp only
  rw [if_neg, hlen]
  intro hnil
  rw [hnil] at hlen
  exact absurd hlen (by decide)

theorem getElem?_shownLines {lines : List (List UInt8)} {start_line i : Nat} {line : List UInt8}
    (hi : i < EDITOR_MAX_LINES) (h : lines[start_line + i]? = some line) :
    (shownLines lines start_line)[i]? = some (cutLine line) := by
  have hrow : (((lines.drop start_line).take EDITOR_MAX_LINES).map cutLine)[i]? =
      some (cutLine line) := by
    rw [List.getElem?_map, List.getElem?_take_of_lt hi, List.getElem?_drop, h]
    rfl
  unfold shownLines
  dsimp only
  rw [if_neg, hrow]
  intro hnil
  rw [hnil] at hrow
  exact absurd hrow (by simp)

def pageView (disk : Disk) (f : LazyFile) (k : Nat) : LazyView :=
  ⟨shownLines (f.lines disk) (EDITOR_MAX_LINES * k), EDITOR_MAX_LINES * k,
    newlines (f.beforeLast disk) < EDITOR_MAX_LINES * k + EDITOR_MAX_LINES⟩

theorem pageView_next {disk : Disk} {f : LazyFile} {k : Nat}
    (h : EDITOR_MAX_LINES * (k + 1) ≤ newlines (f.beforeLast disk)) :
    ((pageView disk f k).editor_loaded_start_line + (pageView disk f k).editor_lines.length) %
      2 ^ 32 = EDITOR_MAX_LINES * (k + 1) := by
  have hle := newlines_beforeLast_le disk f
  have hsize : newlines (f.text disk) ≤ f.editor_file_size :=
    Nat.le_trans List.count_le_length (length_load_loop_le disk _ _)
  have hlt := f.size_lt
  rw [Nat.mul_succ] at h ⊢
  unfold pageView
  dsimp only
  rw [length_shownLines (by rw [length_lines]; omega), Nat.mod_eq_of_lt (by omega)]

theorem pagedTo_iff {disk : Disk} {f : LazyFile} (h : f.editor_file_bno ≠ 0) (v : LazyView) :
    PagedTo disk f v ↔
      ∃ k, EDITOR_MAX_LINES * k ≤ newlines (f.beforeLast disk) ∧ v = pageView disk f k := by
  constructor
  · intro hv
    induction hv with
    | first hload =>
      rw [editor_load_file_window_eq disk h, Option.some.injEq] at hload
      exact ⟨0, Nat.zero_le _, hload.symm⟩
    | down hv hc hload ih =>
      obtain ⟨k, hk, rfl⟩ := ih
      have hnext : EDITOR_MAX_LINES * (k + 1) ≤ newlines (f.beforeLast disk) :=
        Nat.not_lt.mp (of_decide_eq_false hc)
      rw [pageView_next hnext, editor_load_file_window_eq disk h, Option.some.injEq] at hload
      exact ⟨k + 1, hnext, hload.symm⟩
  · rintro ⟨k, hk, rfl⟩
    induction k with
    | zero => exact .first (editor_load_file_window_eq disk h 0)
    | succ k ih =>
      rw [Nat.mul_succ] at hk
      refine .down (ih (by omega)) (decide_eq_false (by omega)) ?_
      rw [pageView_next (by rw [Nat.mul_succ]; exact hk)]
      exact editor_load_file_window_eq disk h _

theorem pagesShowAll_iff (disk : Disk) (f : LazyFile) :
    PagesShowAll disk f ↔
      f.editor_file_bno ≠ 0 ∧ newlines (f.beforeLast disk) / EDITOR_MAX_LINES =
        newlines (f.text disk) / EDITOR_MAX_LINES := by
  have hle := newlines_beforeLast_le disk f
  have hlen := length_lines disk f
  constructor
  · intro hall
    have hlast : newlines (f.text disk) < (f.lines disk).length := by omega
    obtain ⟨v, hv, hstart, hrow⟩ := hall _ _ (List.getElem?_eq_getElem hlast)
    have hbno : f.editor_file_bno ≠ 0 := by
      intro h0
      have hnone : ∀ start_line, editor_load_file_window disk f start_line = none :=
        fun _ => if_pos h0
      cases hv with
      | first hload => exact absurd hload (by rw [hnone]; exact nofun)
      | down _ _ hload => exact absurd hload (by rw [hnone]; exact nofun)
    obtain ⟨k, hk, rfl⟩ := (pagedTo_iff hbno v).mp hv
    refine ⟨hbno, ?_⟩
    obtain ⟨hi, -⟩ := List.getElem?_eq_some_iff.mp hrow
    have hin := Nat.lt_of_lt_of_le hi (length_shownLines_le _ _)
    simp only [pageView, EDITOR_MAX_LINES] at *
    omega
  · rintro ⟨hbno, heq⟩ n line hn
    obtain ⟨hlt, -⟩ := List.getElem?_eq_some_iff.mp hn
    refine ⟨pageView disk f (n / EDITOR_MAX_LINES), (pagedTo_iff hbno _).mpr ⟨_, ?_, rfl⟩,
      Nat.mul_div_le n _, getElem?_shownLines ?_ ?_⟩
    · simp only [EDITOR_MAX_LINES] at *
      omega
    · simp only [pageView, EDITOR_MAX_LINES]
      omega
    · rwa [pageView, Nat.add_sub_cancel' (Nat.mul_div_le n _)]

/-- A view is right iff its last line is also the last line of the file, or lies before the last
block; and paging comes to the end of the file iff no line of the last block starts a page. -/
theorem lazy_view_iff (disk : Disk) (f : LazyFile) :
    (∀ start_line, ViewRight disk f start_line ↔
      f.editor_file_bno ≠ 0 ∧
        (newlines (f.text disk) < start_line + EDITOR_MAX_LINES ∨
          start_line + EDITOR_MAX_LINES ≤ newlines (f.beforeLast disk))) ∧
    (PagesShowAll disk f ↔
      f.editor_file_bno ≠ 0 ∧ newlines (f.beforeLast disk) / EDITOR_MAX_LINES =
        newlines (f.text disk) / EDITOR_MAX_LINES) :=
  ⟨viewRight_iff disk f, pagesShowAll_iff disk f⟩

/-- A file of two blocks: one long line that fills the first, and newlines in the second. -/
def twoBlocks : Disk := fun bno =>
  if bno = 60 then .data ⟨61, fs.fillPayload (List.replicate FS_DATA_PAYLOAD 97)⟩
  else .data ⟨0, fs.fillPayload (List.replicate FS_DATA_PAYLOAD 10)⟩

def twoBlocksFile : LazyFile := ⟨60, 2 * FS_DATA_PAYLOAD, by decide⟩

theorem fillPayload_replicate (ch : UInt8) :
    (fs.fillPayload (List.replicate FS_DATA_PAYLOAD ch)).val.take FS_DATA_PAYLOAD =
      List.replicate FS_DATA_PAYLOAD ch := by
  have h := @fs.take_fillPayload (List.replicate FS_DATA_PAYLOAD ch) (by simp)
  rwa [List.length_replicate] at h

theorem fileChunks_twoBlocks :
    fileChunks twoBlocks twoBlocksFile.editor_file_size twoBlocksFile.editor_file_bno =
      [List.replicate FS_DATA_PAYLOAD 97, List.replicate FS_DATA_PAYLOAD 10] := by
  have h60 : twoBlocks 60 = .data ⟨61, fs.fillPayload (List.replicate FS_DATA_PAYLOAD 97)⟩ := rfl
  have h61 : twoBlocks 61 = .data ⟨0, fs.fillPayload (List.replicate FS_DATA_PAYLOAD 10)⟩ := rfl
  have hfst : min (2 * FS_DATA_PAYLOAD) FS_DATA_PAYLOAD = FS_DATA_PAYLOAD := by decide
  have hsnd : min (2 * FS_DATA_PAYLOAD - FS_DATA_PAYLOAD) FS_DATA_PAYLOAD = FS_DATA_PAYLOAD := by
    decide
  unfold twoBlocksFile
  dsimp only
  rw [fileChunks, dif_pos (by decide), h60]
  dsimp only [take_chunk]
  rw [hfst, fillPayload_replicate, fileChunks, dif_pos (by decide), h61]
  dsimp only [take_chunk]
  rw [hsnd, fillPayload_replicate, fileChunks, dif_neg (by decide)]

/-- The first view shows 128 of the 4089 lines and calls itself complete, and paging stops there. -/
theorem second_block_hidden :
    ¬ ViewRight twoBlocks twoBlocksFile 0 ∧ ¬ PagesShowAll twoBlocks twoBlocksFile := by
  have hlast : newlines (twoBlocksFile.beforeLast twoBlocks) = 0 := by
    unfold LazyFile.beforeLast newlines
    rw [fileChunks_twoBlocks, List.dropLast_cons_of_ne_nil (List.cons_ne_nil _ _),
      List.dropLast_singleton, List.flatten_singleton, List.count_replicate, if_neg (by decide)]
  have hall : newlines (twoBlocksFile.text twoBlocks) = FS_DATA_PAYLOAD := by
    unfold LazyFile.text newlines
    rw [← flatten_fileChunks, fileChunks_twoBlocks, List.flatten_cons, List.flatten_singleton,
      List.count_append, List.count_replicate, List.count_replicate, if_neg (by decide),
      if_pos (by decide), Nat.zero_add]
  rw [viewRight_iff, pagesShowAll_iff, hlast, hall]
  decide

end vibeos.editor

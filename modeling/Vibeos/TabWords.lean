-- The word at the cursor, what the completion makes of it, and how long its listings get.
import Vibeos.LineRefine
import Vibeos.LoadSpecs
import Vibeos.TabComplete

namespace vibeos.tab

open wget (ascii)
open ssh (Text COLS)
open terminal (Prompt Holds LINE_MAX OUT_BUF_SIZE word_start word_end)
open fs (slash cstr FsState DirBlock MAX_DIR_ENTRIES BuildConfig find_entry_index)
open Copy (into scan into_of_lt into_bind_of_lt)

/-! ## The command line -/

/-- A prompt whose buffer has a line that the prompt takes. The cursor may be anywhere. -/
structure CommandLine where
  prompt : Prompt
  text : Text
  holds : Holds prompt.cmd_buf text
  len : prompt.edit_len = text.length
  fits : text.length ≤ LINE_MAX

/-- The lines of the editor are such lines. -/
def CommandLine.ofShows {p : Prompt} {e : terminal.Editor} (h : terminal.Shows p e) : CommandLine :=
  ⟨p, e.line.text, h.holds, h.len, h.len ▸ h.length_le⟩

namespace CommandLine

variable (l : CommandLine)

def start : Nat := word_start l.prompt.cmd_buf l.prompt.cursor_pos

def stop : Nat :=
  word_end l.prompt.cmd_buf (l.prompt.edit_len - l.prompt.cursor_pos) l.prompt.cursor_pos

def word : Text := wordAt l.prompt l.start l.stop

def Inside : Prop := l.prompt.cursor_pos ≤ l.prompt.edit_len

variable {l}

theorem start_le (h : l.Inside) : l.start ≤ l.text.length := by
  have hcursor : l.prompt.cursor_pos ≤ l.text.length := by rw [← l.len]; exact h
  unfold start
  rw [terminal.word_start_eq l.holds hcursor]
  have hdrop := (List.rdropWhile_prefix (fun c => !terminal.isSpace c)
    (l.text.take l.prompt.cursor_pos)).length_le
  rw [List.length_take] at hdrop
  omega

theorem stop_le (h : l.Inside) : l.stop ≤ l.text.length := by
  have hcursor : l.prompt.cursor_pos ≤ l.text.length := by rw [← l.len]; exact h
  unfold stop
  rw [terminal.word_end_eq l.holds (by rw [l.len]; omega)]
  have htake := (List.takeWhile_prefix (l := l.text.drop l.prompt.cursor_pos)
    fun c => !terminal.isSpace c).length_le
  rw [List.length_drop] at htake
  omega

theorem length_word_le (h : l.Inside) : l.word.length ≤ LINE_MAX := by
  have hstop := stop_le h
  have hfits := l.fits
  unfold word wordAt
  rw [List.length_map, List.length_range]
  omega

theorem nul_not_mem_word (h : l.Inside) : 0 ∉ l.word := by
  have hstop := stop_le h
  unfold word wordAt
  intro hmem
  obtain ⟨i, hi, hnul⟩ := List.mem_map.mp hmem
  have hrange := List.mem_range.mp hi
  rw [l.holds.bytes _ (by omega), List.getD_eq_getElem?_getD,
    List.getElem?_eq_getElem (by omega), Option.getD_some] at hnul
  exact l.holds.plain (hnul ▸ List.getElem_mem _)

theorem apply_completion_line (h : l.Inside) {replacement : Text} (hplain : 0 ∉ replacement) :
    terminal.stringFrom
        (terminal.apply_completion l.prompt l.start l.stop replacement).cmd_buf 0 =
      (l.text.take l.start ++ replacement ++ l.text.drop l.stop).take LINE_MAX := by
  have hstart := start_le h
  have hfits := l.fits
  have hmax : l.text.length < COLS := lt_of_le_of_lt l.fits terminal.line_max_lt
  have hfront : (List.range l.start).map l.prompt.cmd_buf = l.text.take l.start := by
    refine List.ext_getElem (by rw [List.length_map, List.length_range, List.length_take,
      Nat.min_eq_left hstart]) fun i hi hi' => ?_
    rw [List.length_map, List.length_range] at hi
    rw [List.getElem_map, List.getElem_range, List.getElem_take, l.holds.bytes i (by omega),
      List.getD_eq_getElem?_getD, List.getElem?_eq_getElem (by omega), Option.getD_some]
  have hback : terminal.stringFrom l.prompt.cmd_buf l.stop = l.text.drop l.stop :=
    l.holds.stringFrom (stop_le h) hmax
  have hline : 0 ∉ l.text.take l.start ++ replacement ++ l.text.drop l.stop := by
    intro hmem
    rcases List.mem_append.mp hmem with hmem | hmem
    · rcases List.mem_append.mp hmem with hmem | hmem
      · exact l.holds.plain (List.mem_of_mem_take hmem)
      · exact hplain hmem
    · exact l.holds.plain (List.mem_of_mem_drop hmem)
  unfold terminal.apply_completion terminal.load_edit_buffer
  dsimp only
  rw [hfront, hback]
  generalize l.text.take l.start ++ replacement ++ l.text.drop l.stop = line at hline ⊢
  have hcstr : cstr (line.take (COLS - 1)) = line.take (COLS - 1) :=
    fs.cstr_eq_self fun hmem => hline (List.mem_of_mem_take hmem)
  have hcut : (line.take (COLS - 1)).take LINE_MAX = line.take LINE_MAX := by
    rw [List.take_take]
    rfl
  rw [hcstr, hcut]
  have hshort : (line.take LINE_MAX).length < COLS :=
    lt_of_le_of_lt (List.length_take_le _ _) terminal.line_max_lt
  rw [(terminal.holds_storeString _ fun hmem => hline (List.mem_of_mem_take hmem)).stringFrom
    (Nat.zero_le _) hshort, List.drop_zero]

end CommandLine

/-! ## The parts of a word -/

theorem strrchr_split_spec {s dir leaf : Text} (h : strrchr_split s = some (dir, leaf)) :
    dir ++ leaf = s := by
  unfold strrchr_split at h
  split at h
  · cases h
    rw [← List.reverse_append, List.takeWhile_append_dropWhile, List.reverse_reverse]
  · cases h

theorem length_of_split {s dir leaf : Text} (h : strrchr_split s = some (dir, leaf)) :
    dir.length + leaf.length = s.length := by
  rw [← strrchr_split_spec h, List.length_append]

/-- The directory part of a word, which ends with a slash or is empty, and its leaf. -/
def wordParts (word : Text) : Text × Text :=
  match strrchr_split word with
  | some parts => parts
  | none => if word.head? = some '~'.toUInt8 then (ascii "~/", word.tail) else ([], word)

theorem length_dir_le (word : Text) : (wordParts word).1.length ≤ word.length + 1 := by
  unfold wordParts
  split
  · next parts h =>
    have := @length_of_split word parts.1 parts.2 h
    omega
  · split
    · rename_i h
      cases word with
      | nil => cases h
      | cons c cs => exact Nat.succ_le_succ (Nat.succ_le_succ (Nat.zero_le _))
    · exact Nat.zero_le _

theorem nul_not_mem_dir {word : Text} (h : 0 ∉ word) : 0 ∉ (wordParts word).1 := by
  unfold wordParts
  split
  · next parts hsplit =>
    have happend := @strrchr_split_spec word parts.1 parts.2 hsplit
    exact fun hmem => h (happend ▸ List.mem_append_left _ hmem)
  · split
    · exact (by decide : (0 : UInt8) ∉ ascii "~/")
    · exact List.not_mem_nil

theorem split_word_eq {word : Text} (h : word.length ≤ LINE_MAX) :
    split_word word =
      if (wordParts word).2.length < 32 then some (wordParts word) else none := by
  have hmax : LINE_MAX = 87 := rfl
  have hleaf : ∀ dir leaf : Text, (do
      let leaf_prefix ← into 32 leaf
      return (dir, leaf_prefix) : Option (Text × Text)) =
        if leaf.length < 32 then some (dir, leaf) else none := by
    intro dir leaf
    unfold into
    split <;> rfl
  unfold split_word wordParts
  cases hsplit : strrchr_split word with
  | some parts =>
    have hdir := @length_of_split word parts.1 parts.2 hsplit
    dsimp only
    rw [into_bind_of_lt (by omega)]
    exact hleaf parts.1 parts.2
  | none =>
    dsimp only
    split
    · rw [into_bind_of_lt (by decide)]
      exact hleaf _ _
    · exact hleaf _ _

/-! ## The lines of a listing -/

theorem length_le_of_mem_splitOn {a : UInt8} {s piece : Text} (h : piece ∈ s.splitOn a) :
    piece.length ≤ s.length := by
  induction s generalizing piece with
  | nil =>
    rw [List.splitOn_nil, List.mem_singleton] at h
    rw [h]
  | cons c s ih =>
    rw [List.splitOn_cons_eq_if_modifyHead] at h
    split at h
    · rcases List.mem_cons.mp h with rfl | h
      · exact Nat.zero_le _
      · exact Nat.le_succ_of_le (ih h)
    · cases hs : s.splitOn a with
      | nil => exact absurd hs (List.splitOn_ne_nil a s)
      | cons first rest =>
        rw [hs, List.modifyHead_cons] at h
        rw [hs] at ih
        rcases List.mem_cons.mp h with rfl | h
        · exact Nat.succ_le_succ (ih List.mem_cons_self)
        · exact Nat.le_succ_of_le (ih (List.mem_cons_of_mem _ h))

theorem length_le_of_mem_lines {rows : List Text} {k : Nat} (hrows : ∀ r ∈ rows, r.length ≤ k)
    (n : Nat) {line : Text} (h : line ∈ ((rows.flatMap (· ++ [10])).take n).splitOn 10) :
    line.length ≤ k := by
  induction rows generalizing n with
  | nil =>
    rw [List.flatMap_nil, List.take_nil, List.splitOn_nil, List.mem_singleton] at h
    rw [h]
    exact Nat.zero_le _
  | cons r rows ih =>
    have hr := hrows r List.mem_cons_self
    rw [List.flatMap_cons, List.append_assoc, List.take_append] at h
    by_cases hn : n ≤ r.length
    · rw [Nat.sub_eq_zero_of_le hn, List.take_zero, List.append_nil] at h
      exact (length_le_of_mem_splitOn h).trans ((List.length_take_le' _ _).trans hr)
    · obtain ⟨m, hm⟩ : ∃ m, n - r.length = m + 1 := ⟨n - r.length - 1, by omega⟩
      rw [List.take_of_length_le (by omega), hm, List.singleton_append, List.take_succ_cons,
        List.splitOn_append_cons_self] at h
      rcases List.mem_append.mp h with h | h
      · exact (length_le_of_mem_splitOn h).trans hr
      · exact ih (fun r hr => hrows r (List.mem_cons_of_mem _ hr)) m h

theorem length_line_lt {names : List RemoteName} {leaf line : Text}
    (h : line ∈ lines_with (ssh_client_sftp_ls names) leaf) : (line.drop 2).length < 96 := by
  have hline := (List.mem_filter.mp h).1
  rw [List.length_drop]
  suffices hlen : line.length ≤ 96 by omega
  unfold ssh_client_sftp_ls at hline
  dsimp only at hline
  split at hline
  · exact (length_le_of_mem_splitOn hline).trans (by decide)
  · have hrow : RemoteName.row = fun r : RemoteName =>
        (if r.is_dir then 'd'.toUInt8 else 'f'.toUInt8) :: 32 :: cstr r.name ++ [10] := rfl
    rw [hrow, ← List.flatMap_map (f := fun r : RemoteName =>
      (if r.is_dir then 'd'.toUInt8 else 'f'.toUInt8) :: 32 :: cstr r.name)
      (g := fun row : Text => row ++ [10])] at hline
    refine length_le_of_mem_lines (fun row hrow => ?_) _ hline
    obtain ⟨r, -, rfl⟩ := List.mem_map.mp hrow
    have hfits := r.fits
    have hcstr : (cstr r.name).length ≤ r.name.length := (List.takeWhile_prefix _).length_le
    rw [List.length_cons, List.length_cons]
    omega

/-! ## The listings of directories -/

theorem length_append_rows (out : Text) (rows : List Text) (h : out.length < OUT_BUF_SIZE - 2) :
    (append_rows out rows).length < OUT_BUF_SIZE - 2 := by
  induction rows generalizing out with
  | nil => exact h
  | cons row rows ih =>
    unfold append_rows
    split
    · exact ih _ (by rw [List.length_append]; assumption)
    · exact h

theorem length_dir_entries (db : DirBlock) (title name_prefix : Text) (type_filter : Option Nat)
    (h : title.length ≤ 20) :
    (append_dir_entries_sorted db title name_prefix type_filter).length < OUT_BUF_SIZE - 2 := by
  have hsize : OUT_BUF_SIZE = 2048 := rfl
  unfold append_dir_entries_sorted
  dsimp only
  split
  · rw [List.length_append]
    have hempty : (ascii " (empty)").length = 8 := rfl
    omega
  · exact length_append_rows _ _ (by omega)

theorem length_append_virtual (out row : Text) (h : out.length < OUT_BUF_SIZE - 2) :
    (append_virtual out row).length < OUT_BUF_SIZE - 2 := by
  unfold append_virtual
  split
  · rw [List.length_append]
    assumption
  · exact h

theorem length_list_dir (db : DirBlock) (bno : Nat) :
    (list_dir_contents db bno).length < OUT_BUF_SIZE := by
  have hsize : OUT_BUF_SIZE = 2048 := rfl
  have hdir := length_dir_entries db (ascii "Directory contents:\n") [] none (by decide)
  unfold list_dir_contents
  dsimp only
  split
  · have htitle : ∀ out : Text, out.length < OUT_BUF_SIZE - 2 →
        (if out = ascii "Directory contents:\n (empty)" then ascii "Directory contents:\n"
          else out).length < OUT_BUF_SIZE - 2 := by
      intro out hout
      split
      · decide
      · exact hout
    have := length_append_virtual _ (ascii "d sftpd\n")
      (length_append_virtual _ (ascii "d sd\n") (htitle _ hdir))
    omega
  · omega

end vibeos.tab

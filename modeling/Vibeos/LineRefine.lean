-- The editor of the prompt is a zipper over a bounded line, as long as no completion reaches
-- past the bound.
import Vibeos.LineEdit
import Vibeos.LineZipper
import Mathlib.Data.List.GetD

namespace vibeos.terminal

open fs (cstr cstr_append_nul cstr_eq_self)
open ssh (Text COLS)

/-! ## Strings in the buffer -/

/-- The buffer has the text and then a zero byte. -/
structure Holds (m : Mem) (t : Text) : Prop where
  plain : 0 ∉ t
  bytes : ∀ i ≤ t.length, m i = t.getD i 0

section

variable {m : Mem} {t s : Text} {i a n x : Nat} {c : UInt8}

theorem getD_append_eq (t s : Text) (i : Nat) :
    (t ++ s).getD i 0 = if i < t.length then t.getD i 0 else s.getD (i - t.length) 0 := by
  split
  · next h => exact List.getD_append _ _ _ _ h
  · next h => exact List.getD_append_right _ _ _ _ (not_lt.mp h)

theorem holds_storeString (m : Mem) (h : 0 ∉ s) : Holds (storeString m s) s where
  plain := h
  bytes i hi := by
    rw [storeString, Mem.patch_in (Nat.zero_le _) (by omega), Nat.sub_zero]

theorem holds_empty (m : Mem) : Holds (Function.update m 0 0) [] where
  plain := List.not_mem_nil
  bytes i hi := by
    rw [Nat.le_zero.mp hi, Function.update_self]
    rfl

theorem Holds.stringFrom (h : Holds m t) (ha : a ≤ t.length) (hlen : t.length < COLS) :
    stringFrom m a = t.drop a := by
  have hrest : ∃ rest, (List.range (COLS - a)).map (fun i => m (a + i)) = t.drop a ++ 0 :: rest := by
    refine ⟨((List.range (COLS - a)).map fun i => m (a + i)).drop (t.length - a + 1), ?_⟩
    refine List.ext_getElem? fun i => ?_
    by_cases hi : i < t.length - a
    · rw [List.getElem?_append_left (by simpa using hi), List.getElem?_drop, List.getElem?_map,
        List.getElem?_range (by omega), Option.map_some, h.bytes _ (by omega),
        List.getD_eq_getElem?_getD, List.getElem?_eq_getElem (by omega)]
      rfl
    · rw [List.getElem?_append_right (by simpa using not_lt.mp hi), List.length_drop]
      by_cases heq : i = t.length - a
      · subst heq
        rw [Nat.sub_self, List.getElem?_cons_zero, List.getElem?_map,
          List.getElem?_range (by omega), Option.map_some, h.bytes _ (by omega),
          List.getD_eq_default _ _ (by omega)]
      · obtain ⟨k, hk⟩ : ∃ k, i - (t.length - a) = k + 1 := ⟨i - (t.length - a) - 1, by omega⟩
        rw [hk, List.getElem?_cons_succ, List.getElem?_drop]
        congr 1
        omega
  obtain ⟨rest, hrest⟩ := hrest
  rw [terminal.stringFrom, hrest, cstr_append_nul fun hmem => h.plain (List.mem_of_mem_drop hmem)]

/-! ## Loops over the buffer -/

theorem shift_up_eq (a n : Nat) (m : Mem) (x : Nat) :
    shift_up a n m x = if a < x ∧ x ≤ a + n then m (x - 1) else m x := by
  induction n generalizing m with
  | zero =>
    rw [shift_up, if_neg (by omega)]
  | succ n ih =>
    rw [shift_up, ih]
    by_cases hx : x = a + n + 1
    · subst hx
      rw [if_neg (by omega), if_pos (by omega), Function.update_self, Nat.add_sub_cancel]
    · rw [Function.update_of_ne hx]
      by_cases hin : a < x ∧ x ≤ a + n
      · rw [if_pos hin, if_pos (by omega), Function.update_of_ne (by omega)]
      · rw [if_neg hin, if_neg (by omega)]

theorem shift_down_eq (n a : Nat) (m : Mem) (x : Nat) :
    shift_down n a m x = if a ≤ x ∧ x < a + n then m (x + 1) else m x := by
  induction n generalizing a m with
  | zero => rw [shift_down, if_neg (by omega)]
  | succ n ih =>
    rw [shift_down, ih]
    by_cases hx : x = a
    · subst hx
      rw [if_neg (by omega), if_pos (by omega), Function.update_self]
    · by_cases hin : a + 1 ≤ x ∧ x < a + 1 + n
      · rw [if_pos hin, if_pos (by omega), Function.update_of_ne (by omega)]
      · rw [if_neg hin, if_neg (by omega), Function.update_of_ne hx]

theorem Holds.insert (h : Holds m (t ++ s)) (hc : c ≠ 0) :
    Holds (Function.update (shift_up t.length (s.length + 1) m) t.length c) (t ++ c :: s) where
  plain hmem := by
    rcases List.mem_append.mp hmem with hmem | hmem
    · exact h.plain (List.mem_append_left _ hmem)
    · rcases List.mem_cons.mp hmem with hmem | hmem
      · exact hc hmem.symm
      · exact h.plain (List.mem_append_right _ hmem)
  bytes i hi := by
    rw [List.length_append, List.length_cons] at hi
    rw [getD_append_eq]
    by_cases heq : i = t.length
    · rw [heq, Function.update_self, if_neg (lt_irrefl _), Nat.sub_self]
      rfl
    · rw [Function.update_of_ne heq, shift_up_eq]
      by_cases hlt : i < t.length
      · rw [if_neg (by omega), if_pos hlt, h.bytes i (by rw [List.length_append]; omega),
          getD_append_eq, if_pos hlt]
      · rw [if_pos (by omega), if_neg hlt, h.bytes _ (by rw [List.length_append]; omega),
          getD_append_eq, if_neg (by omega)]
        obtain ⟨k, hk⟩ : ∃ k, i - t.length = k + 1 := ⟨i - t.length - 1, by omega⟩
        rw [hk, List.getD_cons_succ]
        congr 1
        omega

theorem Holds.remove (h : Holds m (t ++ c :: s)) :
    Holds (shift_down (s.length + 1) t.length m) (t ++ s) where
  plain hmem := h.plain (by
    rcases List.mem_append.mp hmem with hmem | hmem
    · exact List.mem_append_left _ hmem
    · exact List.mem_append_right _ (List.mem_cons_of_mem _ hmem))
  bytes i hi := by
    have hbytes := h.bytes
    rw [List.length_append] at hi
    rw [List.length_append, List.length_cons] at hbytes
    rw [shift_down_eq, getD_append_eq]
    by_cases hlt : i < t.length
    · rw [if_neg (by omega), if_pos hlt, hbytes i (by omega), getD_append_eq, if_pos hlt]
    · rw [if_neg hlt]
      by_cases hin : t.length ≤ i ∧ i < t.length + (s.length + 1)
      · rw [if_pos hin, hbytes _ (by omega), getD_append_eq, if_neg (by omega)]
        obtain ⟨k, hk⟩ : ∃ k, i + 1 - t.length = k + 1 := ⟨i - t.length, by omega⟩
        rw [hk, List.getD_cons_succ]
        congr 1
        omega
      · omega

/-! ## The word at the cursor -/

def isSpace (c : UInt8) : Bool := c == 32

theorem word_start_eq (h : Holds m t) (hi : i ≤ t.length) :
    word_start m i = ((t.take i).rdropWhile fun c => !isSpace c).length := by
  induction i with
  | zero => rfl
  | succ i ih =>
    have hget : t.take (i + 1) = t.take i ++ [t.getD i 0] := by
      rw [List.take_add_one, List.getD_eq_getElem?_getD, List.getElem?_eq_getElem (by omega)]
      rfl
    rw [word_start, h.bytes i (by omega), hget]
    by_cases hblank : t.getD i 0 = 32
    · rw [if_neg (not_not.mpr hblank), List.rdropWhile_concat_neg _ _ _ (by rw [hblank]; decide),
        List.length_append, List.length_take, List.length_singleton]
      omega
    · rw [if_pos hblank, List.rdropWhile_concat_pos _ _ _ (by simpa [isSpace] using hblank),
        ih (by omega)]

theorem word_end_eq (h : Holds m t) (hi : i + n = t.length) :
    word_end m n i = i + ((t.drop i).takeWhile fun c => !isSpace c).length := by
  induction n generalizing i with
  | zero =>
    rw [List.drop_of_length_le (by omega)]
    rfl
  | succ n ih =>
    have hget : t.drop i = t.getD i 0 :: t.drop (i + 1) := by
      rw [List.drop_eq_getElem_cons (by omega), List.getD_eq_getElem?_getD,
        List.getElem?_eq_getElem (by omega)]
      rfl
    rw [word_end, h.bytes i (by omega), hget]
    by_cases hblank : t.getD i 0 = 32
    · rw [if_neg (not_not.mpr hblank), List.takeWhile_cons_of_neg (by rw [hblank]; decide)]
      rfl
    · rw [if_pos hblank, List.takeWhile_cons_of_pos (by simpa [isSpace] using hblank), ih (by omega),
        List.length_cons]
      omega

end

/-! ## The editor as it should be -/

/-- A line with its cursor, the lines of the history, the one that is recalled, and the line
that was being edited before. -/
structure Editor where
  line : LineZipper UInt8 LINE_MAX
  history : List Text
  recalled : Option Nat
  saved : Option Text

namespace Editor

def edit (e : Editor) (f : LineZipper UInt8 LINE_MAX → LineZipper UInt8 LINE_MAX) : Editor :=
  { e with line := f e.line }

/-- An older line of the history; the first one saves the line. -/
def older (e : Editor) : Editor :=
  match e.recalled with
  | none =>
    match e.history[0]? with
    | some l => { e with line := .load l, recalled := some 0, saved := some e.line.text }
    | none => e
  | some i =>
    match e.history[i + 1]? with
    | some l => { e with line := .load l, recalled := some (i + 1) }
    | none => e

/-- A newer line of the history; behind the newest the saved line comes back. -/
def newer (e : Editor) : Editor :=
  match e.recalled with
  | some (i + 1) => { e with line := .load (e.history.getD i []), recalled := some i }
  | some 0 => { e with line := .load (e.saved.getD []), recalled := none, saved := none }
  | none => e

def press (e : Editor) (p : Press) : Editor :=
  if p.key = 3 then { e with line := .empty, saved := none }
  else if p.key = 0x10 then e.older
  else if p.key = 0x11 then e.newer
  else if p.key = 0x12 then e.edit .left
  else if p.key = 0x13 then e.edit .right
  else if p.key = 0x15 then e.edit .home
  else if p.key = 0x16 then e.edit .toEnd
  else if p.key = 0x14 then e.edit .delete
  else if p.key = 8 then e.edit .backspace
  else if p.key = 9 then
    match p.completion with
    | some r => e.edit (.replaceWord isSpace r)
    | none => e
  else if p.key ≥ 32 then e.edit (.insert p.key)
  else e

end Editor

/-! ## The refinement -/

/-- The prompt shows the editor. -/
structure Shows (p : Prompt) (e : Editor) : Prop where
  holds : Holds p.cmd_buf e.line.text
  len : p.edit_len = e.line.text.length
  cursor : p.cursor_pos = e.line.cursor
  history : p.history = e.history
  recalled : p.hist_idx = e.recalled
  saved : (if p.has_saved_cmd then some p.saved_cmd else none) = e.saved
  plain : ∀ l ∈ e.history, 0 ∉ l
  savedPlain : ∀ l ∈ e.saved, 0 ∉ l

/-- A completion does not reach past the bound. -/
def FitsLine (p : Prompt) (press : Press) : Prop :=
  press.key = 9 → ∀ r ∈ press.completion,
    word_start p.cmd_buf p.cursor_pos + r.length ≤ LINE_MAX

theorem nul_not_mem_getD {ls : List Text} (h : ∀ l ∈ ls, 0 ∉ l) (i : Nat) : 0 ∉ ls.getD i [] := by
  rw [List.getD_eq_getElem?_getD]
  cases hl : ls[i]? with
  | none => exact List.not_mem_nil
  | some l => exact h l (List.mem_of_getElem? hl)

section

variable {p : Prompt} {e : Editor}

theorem line_max_lt : LINE_MAX < COLS := by decide

theorem Shows.length_le (h : Shows p e) : p.edit_len ≤ LINE_MAX :=
  h.len ▸ e.line.length_text_le

theorem holds_load (p : Prompt) {s : Text} (hs : 0 ∉ s) :
    Holds (load_edit_buffer p s).cmd_buf (LineZipper.load s : LineZipper UInt8 LINE_MAX).text ∧
      (load_edit_buffer p s).edit_len =
        (LineZipper.load s : LineZipper UInt8 LINE_MAX).text.length ∧
      (load_edit_buffer p s).cursor_pos =
        (LineZipper.load s : LineZipper UInt8 LINE_MAX).cursor := by
  rw [LineZipper.text_load]
  exact ⟨holds_storeString _ fun h => hs (List.mem_of_mem_take h), rfl, rfl⟩

theorem Shows.move (h : Shows p e) {f : LineZipper UInt8 LINE_MAX → LineZipper UInt8 LINE_MAX}
    {cursor : Nat} (htext : (f e.line).text = e.line.text) (hcursor : cursor = (f e.line).cursor) :
    Shows { p with cursor_pos := cursor } (e.edit f) where
  holds := by
    rw [Editor.edit, htext]
    exact h.holds
  len := by
    rw [Editor.edit, htext]
    exact h.len
  cursor := hcursor
  history := h.history
  recalled := h.recalled
  saved := h.saved
  plain := h.plain
  savedPlain := h.savedPlain

theorem Shows.older (h : Shows p e) : Shows (key_older p) e.older := by
  have hload (i : Nat) (hi : i < e.history.length) :
      e.history[i]? = some (e.history.getD i []) := by
    rw [List.getD_eq_getElem?_getD, List.getElem?_eq_getElem hi]
    rfl
  have htext : stringFrom p.cmd_buf 0 = e.line.text := by
    rw [h.holds.stringFrom (Nat.zero_le _)
      (lt_of_le_of_lt e.line.length_text_le line_max_lt), List.drop_zero]
  have hsaved : ∀ l ∈ some e.line.text, 0 ∉ l := by
    intro l hl
    rw [← Option.mem_some_iff.mp hl]
    exact h.holds.plain
  rw [key_older, h.recalled, h.history, Editor.older]
  cases e.recalled with
  | none =>
    dsimp only
    split
    · next hpos =>
      rw [hload 0 hpos]
      obtain ⟨hholds, hlen, hcursor⟩ := holds_load p (nul_not_mem_getD h.plain 0)
      exact ⟨hholds, hlen, hcursor, rfl, rfl, congrArg some htext, h.plain, hsaved⟩
    · next hpos =>
      rw [List.getElem?_eq_none (not_lt.mp hpos)]
      exact h
  | some i =>
    dsimp only
    split
    · next hpos =>
      rw [hload (i + 1) hpos]
      obtain ⟨hholds, hlen, hcursor⟩ := holds_load p (nul_not_mem_getD h.plain (i + 1))
      exact ⟨hholds, hlen, hcursor, rfl, rfl, h.saved, h.plain, h.savedPlain⟩
    · next hpos =>
      rw [List.getElem?_eq_none (not_lt.mp hpos)]
      exact h

theorem Shows.newer (h : Shows p e) : Shows (key_newer p) e.newer := by
  rw [key_newer, h.recalled, h.history, Editor.newer]
  rcases hrec : e.recalled with _ | _ | i
  · exact h
  · have hsaved : (if p.has_saved_cmd then p.saved_cmd else []) = e.saved.getD [] := by
      rw [← h.saved]
      split <;> rfl
    have hplain : 0 ∉ e.saved.getD [] := by
      cases hs : e.saved with
      | none => exact List.not_mem_nil
      | some l => exact h.savedPlain l hs
    obtain ⟨hholds, hlen, hcursor⟩ := holds_load p hplain
    dsimp only
    rw [hsaved]
    exact ⟨hholds, hlen, hcursor, rfl, rfl, rfl, h.plain, fun l hl => by cases hl⟩
  · obtain ⟨hholds, hlen, hcursor⟩ := holds_load p (nul_not_mem_getD h.plain i)
    exact ⟨hholds, hlen, hcursor, rfl, rfl, h.saved, h.plain, h.savedPlain⟩

theorem Shows.around {before after : Text} {fits} {history recalled saved}
    (h : Shows p ⟨⟨before, after, fits⟩, history, recalled, saved⟩) :
    p.edit_len = (before ++ after).length ∧ p.cursor_pos = before.length ∧
      Holds p.cmd_buf (before ++ after) := ⟨h.len, h.cursor, h.holds⟩

theorem Shows.delete (h : Shows p e) : Shows (key_delete p) (e.edit .delete) := by
  obtain ⟨⟨before, after, fits⟩, history, recalled, saved⟩ := e
  obtain ⟨hlen, hcursor, hholds⟩ := h.around
  rw [List.length_append] at hlen
  rw [key_delete]
  cases after with
  | nil =>
    rw [if_neg (by rw [hlen, hcursor]; simp)]
    exact h
  | cons c cs =>
    rw [List.length_cons] at hlen
    have hn : p.edit_len - p.cursor_pos = cs.length + 1 := by omega
    rw [if_pos (by omega), hn, hcursor]
    refine ⟨hholds.remove, ?_, rfl, h.history, h.recalled, h.saved, h.plain, h.savedPlain⟩
    change p.edit_len - 1 = (before ++ cs).length
    rw [hlen, List.length_append]
    omega

theorem Shows.backspace (h : Shows p e) : Shows (key_backspace p) (e.edit .backspace) := by
  obtain ⟨⟨before, after, fits⟩, history, recalled, saved⟩ := e
  obtain ⟨hlen, hcursor, hholds⟩ := h.around
  rw [List.length_append] at hlen
  rw [key_backspace]
  cases before using List.reverseRecOn with
  | nil =>
    rw [if_neg (by rw [hcursor]; simp)]
    exact h
  | append_singleton bs c =>
    have hdrop : ((⟨⟨bs ++ [c], after, fits⟩, history, recalled, saved⟩ : Editor).edit
        .backspace).line.before = bs := List.dropLast_concat
    rw [List.length_append, List.length_singleton] at hlen hcursor
    rw [List.append_assoc] at hholds
    have hn : p.edit_len - (p.cursor_pos - 1) = after.length + 1 := by omega
    have hc : p.cursor_pos - 1 = bs.length := by omega
    rw [if_pos (by omega), hn, hc]
    refine ⟨?_, ?_, ?_, h.history, h.recalled, h.saved, h.plain, h.savedPlain⟩
    · rw [LineZipper.text, hdrop]
      exact hholds.remove
    · rw [LineZipper.text, hdrop, List.length_append]
      change p.edit_len - 1 = bs.length + after.length
      omega
    · rw [LineZipper.cursor, hdrop]

theorem Shows.insert (h : Shows p e) {c : UInt8} (hc : c ≠ 0) :
    Shows (key_insert p c) (e.edit (.insert c)) := by
  obtain ⟨⟨before, after, fits⟩, history, recalled, saved⟩ := e
  obtain ⟨hlen, hcursor, hholds⟩ := h.around
  rw [key_insert, Editor.edit]
  by_cases hroom : (before ++ after).length < LINE_MAX
  · have hn : p.edit_len + 1 - p.cursor_pos = after.length + 1 := by
      rw [hlen, hcursor, List.length_append]
      omega
    have hins : LineZipper.insert c (⟨before, after, fits⟩ : LineZipper UInt8 LINE_MAX) =
        ⟨before ++ [c], after, _⟩ := dif_pos hroom
    dsimp only
    rw [if_pos (hlen ▸ hroom), hn, hcursor, hins]
    refine ⟨?_, ?_, ?_, h.history, h.recalled, h.saved, h.plain, h.savedPlain⟩
    · rw [LineZipper.text, List.append_assoc]
      exact hholds.insert hc
    · rw [LineZipper.text]
      change p.edit_len + 1 = (before ++ [c] ++ after).length
      rw [hlen]
      simp only [List.length_append, List.length_singleton]
      omega
    · rw [LineZipper.cursor, List.length_append, List.length_singleton]
  · have hins : LineZipper.insert c (⟨before, after, fits⟩ : LineZipper UInt8 LINE_MAX) =
        ⟨before, after, fits⟩ := dif_neg hroom
    dsimp only
    rw [if_neg (hlen ▸ hroom), hins]
    exact h

theorem Shows.word (h : Shows p e) :
    word_start p.cmd_buf p.cursor_pos = (e.line.beforeWord isSpace).length ∧
      e.line.text.take (word_start p.cmd_buf p.cursor_pos) = e.line.beforeWord isSpace ∧
      e.line.text.drop (word_end p.cmd_buf (p.edit_len - p.cursor_pos) p.cursor_pos) =
        e.line.afterWord isSpace ∧
      word_end p.cmd_buf (p.edit_len - p.cursor_pos) p.cursor_pos ≤ e.line.text.length := by
  obtain ⟨⟨before, after, fits⟩, history, recalled, saved⟩ := e
  obtain ⟨hlen, hcursor, hholds⟩ := h.around
  have hstart : word_start p.cmd_buf p.cursor_pos =
      (before.rdropWhile fun c => !isSpace c).length := by
    rw [word_start_eq hholds (by rw [hcursor, List.length_append]; omega), hcursor,
      List.take_left]
  have hend : word_end p.cmd_buf (p.edit_len - p.cursor_pos) p.cursor_pos =
      before.length + (after.takeWhile fun c => !isSpace c).length := by
    rw [word_end_eq hholds (by rw [hlen, hcursor, List.length_append]; omega), hcursor,
      List.drop_left]
  have hprefix := List.rdropWhile_prefix (fun c => !isSpace c) before
  have hsplit := List.takeWhile_append_dropWhile (p := fun c => !isSpace c) (l := after)
  refine ⟨hstart, ?_, ?_, ?_⟩
  · change (before ++ after).take _ = before.rdropWhile _
    rw [hstart, List.take_append_of_le_length hprefix.length_le]
    exact (List.prefix_iff_eq_take.mp hprefix).symm
  · change (before ++ after).drop _ = after.dropWhile _
    rw [hend, List.drop_append, List.drop_of_length_le (Nat.le_add_right _ _), List.nil_append,
      Nat.add_sub_cancel_left]
    nth_rewrite 2 [← hsplit]
    exact List.drop_left
  · change _ ≤ (before ++ after).length
    rw [hend, List.length_append]
    exact Nat.add_le_add_left (List.takeWhile_prefix _).length_le _

theorem Shows.complete (h : Shows p e) {r : Text} (hr : 0 ∉ r)
    (hfits : word_start p.cmd_buf p.cursor_pos + r.length ≤ LINE_MAX) :
    Shows (try_tab_complete p (some r)) (e.edit (.replaceWord isSpace r)) := by
  obtain ⟨hstart, htake, hdrop, hend⟩ := h.word
  have hmax : e.line.text.length < COLS := lt_of_le_of_lt e.line.length_text_le line_max_lt
  obtain ⟨htext, hcursor⟩ := LineZipper.text_replaceWord (hstart ▸ hfits)
  have hfront : (List.range (word_start p.cmd_buf p.cursor_pos)).map p.cmd_buf =
      e.line.beforeWord isSpace := by
    rw [← htake]
    have hle : word_start p.cmd_buf p.cursor_pos ≤ e.line.text.length := by
      rw [hstart]
      exact ((List.rdropWhile_prefix _ _).length_le).trans e.line.cursor_le
    refine List.ext_getElem (by rw [List.length_map, List.length_range, List.length_take,
      Nat.min_eq_left hle]) fun i hi hi' => ?_
    rw [List.length_map, List.length_range] at hi
    rw [List.getElem_map, List.getElem_range, List.getElem_take, h.holds.bytes i (by omega),
      List.getD_eq_getElem?_getD, List.getElem?_eq_getElem (by omega), Option.getD_some]
  have hback : stringFrom p.cmd_buf
      (word_end p.cmd_buf (p.edit_len - p.cursor_pos) p.cursor_pos) =
      e.line.afterWord isSpace := by
    rw [h.holds.stringFrom hend hmax, hdrop]
  have hplain : 0 ∉ e.line.beforeWord isSpace ++ r ++ e.line.afterWord isSpace := by
    intro hmem
    rcases List.mem_append.mp hmem with hmem | hmem
    · rcases List.mem_append.mp hmem with hmem | hmem
      · exact h.holds.plain (List.mem_of_mem_take (htake ▸ hmem))
      · exact hr hmem
    · exact h.holds.plain (List.mem_of_mem_drop (hdrop ▸ hmem))
  have hcstr : cstr ((e.line.beforeWord isSpace ++ r ++ e.line.afterWord isSpace).take
      (COLS - 1)) = (e.line.beforeWord isSpace ++ r ++ e.line.afterWord isSpace).take
        (COLS - 1) := cstr_eq_self fun hmem => hplain (List.mem_of_mem_take hmem)
  have hcut : ((e.line.beforeWord isSpace ++ r ++ e.line.afterWord isSpace).take
      (COLS - 1)).take LINE_MAX =
      (e.line.beforeWord isSpace ++ r ++ e.line.afterWord isSpace).take LINE_MAX := by
    rw [List.take_take]
    rfl
  rw [try_tab_complete, if_neg (by rw [h.len, h.cursor]; exact not_lt.mpr e.line.cursor_le)]
  rw [apply_completion, hfront, hback, hcstr]
  refine ⟨?_, ?_, ?_, h.history, h.recalled, h.saved, h.plain, h.savedPlain⟩
  · rw [Editor.edit, htext, ← hcut]
    exact holds_storeString _ fun hmem =>
      hplain (List.mem_of_mem_take (List.mem_of_mem_take hmem))
  · rw [Editor.edit, htext, ← hcut]
    rfl
  · rw [Editor.edit, hcursor, ← hstart]

theorem Shows.press (h : Shows p e) (k : Press) (hf : FitsLine p k) :
    Shows (handle_key p k) (e.press k) := by
  have hcheck : check_edit_len p = p :=
    if_neg (not_le.mpr (lt_of_le_of_lt h.length_le line_max_lt))
  rw [handle_key, hcheck, Editor.press]
  by_cases hclear : k.key = 3
  · rw [if_pos hclear, if_pos hclear]
    exact ⟨holds_empty p.cmd_buf, rfl, rfl, h.history, h.recalled, rfl, h.plain,
      fun l hl => by cases hl⟩
  rw [if_neg hclear, if_neg hclear]
  by_cases hup : k.key = 0x10
  · rw [if_pos hup, if_pos hup]
    exact h.older
  rw [if_neg hup, if_neg hup]
  by_cases hdown : k.key = 0x11
  · rw [if_pos hdown, if_pos hdown]
    exact h.newer
  rw [if_neg hdown, if_neg hdown]
  by_cases hleft : k.key = 0x12
  · rw [if_pos hleft, if_pos hleft]
    have hmove := h.move (LineZipper.text_left e.line) (e.line.cursor_left.symm)
    rw [← h.cursor] at hmove
    by_cases h0 : p.cursor_pos > 0
    · rwa [if_pos h0]
    · have hzero : p.cursor_pos - 1 = p.cursor_pos := by omega
      rw [hzero] at hmove
      rwa [if_neg h0]
  rw [if_neg hleft, if_neg hleft]
  by_cases hright : k.key = 0x13
  · rw [if_pos hright, if_pos hright]
    have hmove := h.move (LineZipper.text_right e.line) (e.line.cursor_right.symm)
    rw [← h.cursor, ← h.len] at hmove
    by_cases hlt : p.cursor_pos < p.edit_len
    · rw [if_pos hlt] at hmove ⊢
      exact hmove
    · rw [if_neg hlt] at hmove ⊢
      exact hmove
  rw [if_neg hright, if_neg hright]
  by_cases hhome : k.key = 0x15
  · rw [if_pos hhome, if_pos hhome]
    exact h.move (LineZipper.text_home e.line) (e.line.cursor_home.symm)
  rw [if_neg hhome, if_neg hhome]
  by_cases hend : k.key = 0x16
  · rw [if_pos hend, if_pos hend]
    have hmove := h.move (LineZipper.text_toEnd e.line) (e.line.cursor_toEnd.symm)
    rwa [← h.len] at hmove
  rw [if_neg hend, if_neg hend]
  by_cases hdelete : k.key = 0x14
  · rw [if_pos hdelete, if_pos hdelete]
    exact h.delete
  rw [if_neg hdelete, if_neg hdelete]
  by_cases hback : k.key = 8
  · rw [if_pos hback, if_pos hback]
    exact h.backspace
  rw [if_neg hback, if_neg hback]
  by_cases htab : k.key = 9
  · rw [if_pos htab, if_pos htab]
    cases hc : k.completion with
    | none =>
      rw [try_tab_complete]
      split <;> exact h
    | some r => exact h.complete (k.plain r hc) (hf htab r hc)
  rw [if_neg htab, if_neg htab]
  by_cases hprint : k.key ≥ 32
  · rw [if_pos hprint, if_pos hprint]
    refine h.insert fun h0 => ?_
    rw [h0] at hprint
    exact absurd hprint (by decide)
  rw [if_neg hprint, if_neg hprint]
  exact h

theorem Shows.overrun (h : Shows p e) {k : Press} (hf : ¬ FitsLine p k) :
    (handle_key p k).edit_len < (handle_key p k).cursor_pos := by
  obtain ⟨hkey, r, hr, hlong⟩ : k.key = 9 ∧ ∃ r ∈ k.completion,
      LINE_MAX < word_start p.cmd_buf p.cursor_pos + r.length := by
    simpa [FitsLine] using hf
  have hcheck : check_edit_len p = p :=
    if_neg (not_le.mpr (lt_of_le_of_lt h.length_le line_max_lt))
  have hcompletion : k.completion = some r := hr
  have htab : handle_key p k = try_tab_complete p (some r) := by
    rw [handle_key, hcheck]
    simp [hkey, hcompletion]
  rw [htab, try_tab_complete,
    if_neg (by rw [h.len, h.cursor]; exact not_lt.mpr e.line.cursor_le)]
  rw [apply_completion]
  refine lt_of_le_of_lt ?_ hlong
  exact List.length_take_le _ _

/-- In each key of the run the completion fits. -/
def FitsRun : Prompt → List Press → Prop
  | _, [] => True
  | p, k :: ks => FitsLine p k ∧ FitsRun (handle_key p k) ks

theorem Shows.run (h : Shows p e) {ks : List Press} (hf : FitsRun p ks) :
    Shows (handle_keys p ks) (ks.foldl Editor.press e) := by
  induction ks generalizing p e with
  | nil => exact h
  | cons k ks ih => exact ih (h.press k hf.1) hf.2

/-- In each state that a run reaches whose completions fit, the buffer, its length and the
cursor are those of the zipper, and they are in their bounds. -/
theorem prompt_run_refines (h : Shows p e) (ks : List Press) (hf : FitsRun p ks) :
    let p' := handle_keys p ks
    let e' := ks.foldl Editor.press e
    stringFrom p'.cmd_buf 0 = e'.line.text ∧ p'.edit_len = e'.line.text.length ∧
      p'.cursor_pos = e'.line.cursor ∧ p'.cursor_pos ≤ p'.edit_len ∧ p'.edit_len ≤ LINE_MAX ∧
      (stringFrom p'.cmd_buf 0).length = p'.edit_len := by
  have hrun := h.run hf
  have hmax := lt_of_le_of_lt (ks.foldl Editor.press e).line.length_text_le line_max_lt
  have htext := hrun.holds.stringFrom (Nat.zero_le _) hmax
  rw [List.drop_zero] at htext
  refine ⟨htext, hrun.len, hrun.cursor, ?_, hrun.length_le, ?_⟩
  · rw [hrun.len, hrun.cursor]
    exact LineZipper.cursor_le _
  · rw [htext, hrun.len]

end

/-! ## Runs -/

def Prompt.fresh (history : List Text) : Prompt := ⟨fun _ => 0, 0, 0, history, none, [], false⟩

def Editor.fresh (history : List Text) : Editor := ⟨.empty, history, none, none⟩

theorem holds_empty_fresh : Holds (fun _ => 0) [] where
  plain := List.not_mem_nil
  bytes i hi := by
    rw [Nat.le_zero.mp hi]
    rfl

theorem shows_fresh {history : List Text} (h : ∀ l ∈ history, 0 ∉ l) :
    Shows (Prompt.fresh history) (Editor.fresh history) :=
  ⟨holds_empty_fresh, rfl, rfl, rfl, rfl, rfl, h, fun l hl => by cases hl⟩

def plainKey (key : UInt8) (h : key ≠ 10) : Press := ⟨key, none, h, fun r hr => by cases hr⟩

/-- `ls`, with the cursor moved to the left. -/
theorem prompt_run_ls :
    let p := handle_keys (Prompt.fresh [])
      [plainKey 108 (by decide), plainKey 115 (by decide), plainKey 0x12 (by decide)]
    let e := [plainKey 108 (by decide), plainKey 115 (by decide), plainKey 0x12 (by decide)].foldl
      Editor.press (Editor.fresh [])
    stringFrom p.cmd_buf 0 = e.line.text ∧ p.edit_len = e.line.text.length ∧
      p.cursor_pos = e.line.cursor ∧ p.cursor_pos ≤ p.edit_len ∧ p.edit_len ≤ LINE_MAX ∧
      (stringFrom p.cmd_buf 0).length = p.edit_len :=
  prompt_run_refines (shows_fresh fun _ hl => absurd hl List.not_mem_nil)
    [plainKey 108 (by decide), plainKey 115 (by decide), plainKey 0x12 (by decide)]
    ⟨fun h => absurd h (by decide), fun h => absurd h (by decide), fun h => absurd h (by decide),
      trivial⟩

/-- A line of 81 characters that ends with the word `a`. -/
def longLine : Text := wget.ascii "cat " ++ List.replicate 75 120 ++ wget.ascii " a"

/-- The line is recalled, and its last word is completed to a name of 19 characters. -/
def overrunKeys : List Press :=
  [plainKey 0x10 (by decide),
    ⟨9, some (wget.ascii "abcdefghijklmnopqrs"), by decide, by decide⟩]

/-- The cursor is at 99 in a line of 87 characters; a backspace then shortens the length but
not the line. -/
theorem completion_moves_cursor_behind_line :
    (handle_keys (Prompt.fresh [longLine]) overrunKeys).edit_len = 87 ∧
      (handle_keys (Prompt.fresh [longLine]) overrunKeys).cursor_pos = 99 ∧
      (handle_keys (Prompt.fresh [longLine])
        (overrunKeys ++ [plainKey 8 (by decide)])).edit_len = 86 ∧
      (stringFrom (handle_keys (Prompt.fresh [longLine])
        (overrunKeys ++ [plainKey 8 (by decide)])).cmd_buf 0).length = 87 := by
  refine ⟨by decide, by decide, by decide, by decide⟩

end vibeos.terminal

-- The rows of a text, and a log of rows of which only the last ones are kept.
import Mathlib.Data.List.Basic
import Mathlib.Data.List.Infix

namespace vibeos.RowLog

variable {α : Type*}

/-! ## The lines of a text -/

section

variable [DecidableEq α] {sep : α} {s t : List α}

/-- The pieces that the separators end, and what follows the last separator if it is not empty. -/
def lines (sep : α) (s : List α) : List (List α) :=
  if (s.splitOn sep).getLast? = some [] then (s.splitOn sep).dropLast else s.splitOn sep

theorem lines_of_notMem (h : sep ∉ s) : lines sep s = if s = [] then [] else [s] := by
  rw [lines, List.splitOn_eq_singleton h]
  by_cases hs : s = []
  · rw [if_pos hs, hs]
    rfl
  · rw [if_neg hs, if_neg]
    · rintro ⟨⟩
      exact hs rfl

theorem lines_append_sep (h : sep ∉ s) (t : List α) :
    lines sep (s ++ sep :: t) = s :: lines sep t := by
  rw [lines, lines, List.splitOn_append_cons_of_beq s t (beq_self_eq_true sep),
    List.splitOn_eq_singleton h, List.singleton_append]
  cases hrest : t.splitOn sep with
  | nil => exact absurd hrest (List.splitOn_ne_nil sep t)
  | cons first more =>
    rw [List.getLast?_cons_cons, List.dropLast_cons_cons]
    split <;> rfl

end

/-! ## The rows of a line -/

/-- The pieces of `cols` symbols, and the rest. An empty line is one row. -/
def chunks (cols : Nat) (line : List α) : List (List α) :=
  if _h : line.length ≤ cols ∨ cols = 0 then [line]
  else line.take cols :: chunks cols (line.drop cols)
termination_by line.length
decreasing_by
  rw [List.length_drop]
  omega

theorem chunks_short {cols : Nat} {line : List α} (h : line.length ≤ cols) :
    chunks cols line = [line] := by
  rw [chunks, dif_pos (.inl h)]

theorem chunks_long {cols : Nat} {line : List α} (hpos : 0 < cols) (h : cols < line.length) :
    chunks cols line = line.take cols :: chunks cols (line.drop cols) := by
  rw [chunks, dif_neg (by omega)]

theorem length_of_mem_chunks {cols : Nat} (hpos : 0 < cols) {line row : List α}
    (h : row ∈ chunks cols line) : row.length ≤ cols := by
  induction hlen : line.length using Nat.strong_induction_on generalizing line with
  | _ n ih =>
    rcases Nat.lt_or_ge cols line.length with hlong | hshort
    · rw [chunks_long hpos hlong, List.mem_cons] at h
      rcases h with rfl | hrest
      · exact List.length_take_le _ _
      · exact ih _ (by rw [List.length_drop]; omega) hrest rfl
    · rw [chunks_short hshort, List.mem_singleton] at h
      rwa [h]

/-! ## The rows of a text -/

section

variable [DecidableEq α] {sep : α} {cols : Nat} {line more rest : List α}

/-- Each line of the text, wrapped at `cols` symbols. -/
def wrap (sep : α) (cols : Nat) (s : List α) : List (List α) :=
  (lines sep s).flatMap (chunks cols)

theorem wrap_line (h : sep ∉ line) (more : List α) :
    wrap sep cols (line ++ sep :: more) = chunks cols line ++ wrap sep cols more := by
  rw [wrap, lines_append_sep h, List.flatMap_cons, wrap]

theorem wrap_last (h : sep ∉ line) (hne : line ≠ []) : wrap sep cols line = chunks cols line := by
  rw [wrap, lines_of_notMem h, if_neg hne, List.flatMap_singleton]

theorem wrap_long (hpos : 0 < cols) (hlong : cols < line.length) (h : sep ∉ line)
    (hrest : rest = [] ∨ ∃ more, rest = sep :: more) :
    wrap sep cols (line ++ rest) = line.take cols :: wrap sep cols (line.drop cols ++ rest) := by
  have hdrop : sep ∉ line.drop cols := fun hmem => h (List.mem_of_mem_drop hmem)
  rcases hrest with rfl | ⟨more, rfl⟩
  · have hne : line.drop cols ≠ [] := fun hnil => by
      have := List.drop_eq_nil_iff.mp hnil
      omega
    have hline : line ≠ [] := List.ne_nil_of_length_pos (by omega)
    rw [List.append_nil, List.append_nil, wrap_last h hline, wrap_last hdrop hne,
      chunks_long hpos hlong]
  · rw [wrap_line h, wrap_line hdrop, chunks_long hpos hlong, List.cons_append]

theorem length_of_mem_wrap (hpos : 0 < cols) {s row : List α} (h : row ∈ wrap sep cols s) :
    row.length ≤ cols := by
  obtain ⟨line, -, hrow⟩ := List.mem_flatMap.mp h
  exact length_of_mem_chunks hpos hrow

end

/-! ## The kept rows -/

/-- The last rows are kept, at least `least` of them. -/
def Keeps (least : Nat) (kept all : List α) : Prop :=
  kept <:+ all ∧ min least all.length ≤ kept.length

variable {least : Nat} {kept all : List α}

theorem Keeps.refl (least : Nat) (all : List α) : Keeps least all all :=
  ⟨List.suffix_refl _, Nat.min_le_right _ _⟩

theorem Keeps.push (h : Keeps least kept all) (row : α) :
    Keeps least (kept ++ [row]) (all ++ [row]) := by
  obtain ⟨⟨front, rfl⟩, hlen⟩ := h
  refine ⟨⟨front, by rw [List.append_assoc]⟩, ?_⟩
  simp only [List.length_append, List.length_singleton] at hlen ⊢
  omega

theorem Keeps.tail (h : Keeps least kept all) (hlen : least < kept.length) :
    Keeps least kept.tail all := by
  refine ⟨(List.tail_suffix kept).trans h.1, ?_⟩
  rw [List.length_tail]
  omega

theorem Keeps.setLast (h : Keeps least kept all) (hne : kept ≠ []) (row : α) :
    Keeps least (kept.dropLast ++ [row]) (all.dropLast ++ [row]) := by
  obtain ⟨⟨front, rfl⟩, hlen⟩ := h
  refine ⟨⟨front, by rw [List.dropLast_append_of_ne_nil hne, List.append_assoc]⟩, ?_⟩
  have hpos := List.length_pos_of_ne_nil hne
  rw [List.dropLast_append_of_ne_nil hne]
  simp only [List.length_append, List.length_singleton, List.length_dropLast] at hlen ⊢
  omega

end vibeos.RowLog

-- The words of a list: what lies between its separators, without the empty pieces.
import Mathlib.Data.List.Basic

namespace vibeos.Words

variable {α : Type*} [DecidableEq α] {sep : α} {s t : List α}

def words (sep : α) (s : List α) : List (List α) := (s.splitOn sep).filter (· ≠ [])

theorem words_append_sep (s t : List α) : words sep (s ++ sep :: t) = words sep s ++ words sep t := by
  rw [words, List.splitOn_append_cons_of_beq s t (beq_self_eq_true sep), List.filter_append]
  rfl

@[simp]
theorem words_nil : words sep [] = [] := by simp [words]

@[simp]
theorem words_sep_cons : words sep (sep :: t) = words sep t := by
  have h : words sep ([] ++ sep :: t) = _ := words_append_sep [] t
  rwa [List.nil_append, words_nil, List.nil_append] at h

theorem words_of_notMem (h : sep ∉ s) (hne : s ≠ []) : words sep s = [s] := by
  rw [words, List.splitOn_eq_singleton h, List.filter_cons_of_pos (by simpa using hne),
    List.filter_nil]

theorem words_dropWhile : words sep (s.dropWhile (· == sep)) = words sep s := by
  induction s with
  | nil => rfl
  | cons c s ih =>
    rw [List.dropWhile_cons]
    split
    case isTrue h => rw [ih, beq_iff_eq.mp h, words_sep_cons]
    case isFalse => rfl

theorem notMem_takeWhile (s : List α) : sep ∉ s.takeWhile (· != sep) := by
  intro hmem
  have hall := List.all_takeWhile (p := (· != sep)) (l := s)
  have hsep := List.all_eq_true.mp hall sep hmem
  simp at hsep

theorem words_of_head (h : s ≠ []) (hhead : s.head? ≠ some sep) :
    words sep s = s.takeWhile (· != sep) :: words sep (s.dropWhile (· != sep)).tail := by
  have hword : sep ∉ s.takeWhile (· != sep) := notMem_takeWhile s
  have hne : s.takeWhile (· != sep) ≠ [] := by
    cases s with
    | nil => exact absurd rfl h
    | cons c s =>
      have hc : c ≠ sep := fun heq => hhead (by rw [heq]; rfl)
      simp [hc]
  have hsplit := List.takeWhile_append_dropWhile (p := (· != sep)) (l := s)
  cases hrest : s.dropWhile (· != sep) with
  | nil =>
    rw [hrest, List.append_nil] at hsplit
    rw [hsplit] at hword ⊢
    rw [words_of_notMem hword h]
    simp
  | cons c rest =>
    have hc : c = sep := by
      have hstop := List.head?_dropWhile_not (· != sep) s
      rw [hrest] at hstop
      simpa using hstop
    rw [hrest, hc] at hsplit
    conv_lhs => rw [← hsplit]
    rw [words_append_sep, words_of_notMem hword hne]
    rfl

/-! ## The symbols of the words -/

theorem flatten_splitOn (s : List α) : (s.splitOn sep).flatten = s.filter (· ≠ sep) := by
  induction s with
  | nil => simp
  | cons c s ih =>
    rw [List.splitOn_cons_eq_if_modifyHead, List.filter_cons]
    by_cases hc : c = sep
    · simpa [hc] using ih
    · rw [if_neg (by simpa using hc), if_pos (by simpa using hc), ← ih]
      obtain ⟨w, ws, hws⟩ := List.exists_cons_of_ne_nil (List.splitOn_ne_nil sep s)
      rw [hws]
      rfl

theorem flatten_words (s : List α) : (words sep s).flatten = s.filter (· ≠ sep) := by
  rw [words, ← flatten_splitOn s]
  exact List.flatten_filter_ne_nil

theorem mem_of_mem_words {w : List α} (h : w ∈ words sep s) {c : α} (hc : c ∈ w) : c ∈ s := by
  have hmem : c ∈ (words sep s).flatten := List.mem_flatten_of_mem h hc
  rw [flatten_words] at hmem
  exact (List.mem_filter.mp hmem).1

theorem words_of_blank (h : ∀ c ∈ t, c = sep) : words sep t = [] := by
  induction t with
  | nil => exact words_nil
  | cons c t ih =>
    rw [h c List.mem_cons_self, words_sep_cons]
    exact ih fun c hc => h c (List.mem_cons_of_mem _ hc)

theorem words_append_eq_iff : words sep (s ++ t) = words sep s ↔ ∀ c ∈ t, c = sep := by
  constructor
  · intro h
    have hflat := congrArg List.flatten h
    rw [flatten_words, flatten_words, List.filter_append, List.append_right_eq_self] at hflat
    intro c hc
    by_contra hne
    exact absurd (List.filter_eq_nil_iff.mp hflat c hc) (by simpa using hne)
  · intro h
    cases t with
    | nil => rw [List.append_nil]
    | cons c t =>
      rw [h c List.mem_cons_self, words_append_sep,
        words_of_blank fun c hc => h c (List.mem_cons_of_mem _ hc), List.append_nil]

end vibeos.Words

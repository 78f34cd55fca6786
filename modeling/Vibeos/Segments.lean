-- A stream of symbols that arrives in pieces: where the pieces end, and the first
-- place where a mark ends in the stream.
import Mathlib.Data.List.Infix
import Mathlib.Tactic.Common

namespace vibeos.Segments

variable {α : Type}

/-! ## The ends of the pieces -/

/-- Some first pieces have `n` symbols together. -/
def Ends (ps : List (List α)) (n : Nat) : Prop :=
  ∃ pre, pre <+: ps ∧ pre.flatten.length = n

theorem ends_zero (ps : List (List α)) : Ends ps 0 := ⟨[], List.nil_prefix, rfl⟩

theorem ends_all (ps : List (List α)) : Ends ps ps.flatten.length := ⟨ps, List.prefix_refl ps, rfl⟩

@[simp]
theorem ends_nil {n : Nat} : Ends ([] : List (List α)) n ↔ n = 0 := by
  constructor
  · intro ⟨pre, hpre, hn⟩
    rw [List.prefix_nil.mp hpre] at hn
    exact hn.symm
  · intro h
    rw [h]
    exact ends_zero []

theorem ends_cons {p : List α} {ps : List (List α)} {n : Nat} :
    Ends (p :: ps) n ↔ n = 0 ∨ ∃ m, n = p.length + m ∧ Ends ps m := by
  constructor
  · intro ⟨pre, hpre, hn⟩
    cases pre with
    | nil => exact Or.inl hn.symm
    | cons q pre =>
      rw [List.cons_prefix_cons] at hpre
      refine Or.inr ⟨pre.flatten.length, ?_, pre, hpre.2, rfl⟩
      rw [← hn, hpre.1, List.flatten_cons, List.length_append]
  · intro h
    rcases h with h | ⟨m, hm, pre, hpre, hlen⟩
    · rw [h]
      exact ends_zero _
    · refine ⟨p :: pre, List.cons_prefix_cons.mpr ⟨rfl, hpre⟩, ?_⟩
      rw [List.flatten_cons, List.length_append, hlen, hm]

theorem Ends.le {ps : List (List α)} {n : Nat} (h : Ends ps n) : n ≤ ps.flatten.length := by
  obtain ⟨pre, ⟨suf, rfl⟩, rfl⟩ := h
  rw [List.flatten_append, List.length_append]
  exact Nat.le_add_right _ _

theorem Ends.append {ps : List (List α)} {n : Nat} (h : Ends ps n) (qs : List (List α)) :
    Ends (ps ++ qs) n := by
  obtain ⟨pre, hpre, hn⟩ := h
  exact ⟨pre, hpre.trans (List.prefix_append ps qs), hn⟩

theorem ends_append {ps qs : List (List α)} {n : Nat} :
    Ends (ps ++ qs) n ↔ Ends ps n ∨ ∃ m, n = ps.flatten.length + m ∧ Ends qs m := by
  induction ps generalizing n with
  | nil =>
    simp only [List.nil_append, ends_nil, List.flatten_nil, List.length_nil, Nat.zero_add,
      exists_eq_left']
    constructor
    · exact Or.inr
    · rintro (h | h)
      · rw [h]
        exact ends_zero qs
      · exact h
  | cons p ps ih =>
    rw [List.cons_append, ends_cons, ends_cons, List.flatten_cons, List.length_append]
    constructor
    · rintro (h | ⟨m, hm, h⟩)
      · exact Or.inl (Or.inl h)
      · rcases ih.mp h with h | ⟨k, hk, h⟩
        · exact Or.inl (Or.inr ⟨m, hm, h⟩)
        · exact Or.inr ⟨k, by omega, h⟩
    · rintro ((h | ⟨m, hm, h⟩) | ⟨k, hk, h⟩)
      · exact Or.inl h
      · exact Or.inr ⟨m, hm, ih.mpr (Or.inl h)⟩
      · exact Or.inr ⟨ps.flatten.length + k, by omega, ih.mpr (Or.inr ⟨k, rfl, h⟩)⟩

/-! ## The first end of a mark -/

variable [DecidableEq α] {mark : List α}

/-- The mark ends where `hdr` ends, and nowhere before. -/
def EndsFirst (mark hdr : List α) : Prop :=
  mark <:+ hdr ∧ ∀ pre, pre <+: hdr → mark <:+ pre → pre = hdr

/-- What is in front of the first end of the mark, with the mark, and what is behind it.
The symbols of `h` were read before. -/
def splitMark (mark : List α) : List α → List α → Option (List α × List α)
  | _, [] => none
  | h, c :: rest =>
    if mark <:+ h ++ [c] then some (h ++ [c], rest) else splitMark mark (h ++ [c]) rest

omit [DecidableEq α] in
theorem EndsFirst.not_suffix {hdr pre : List α} (h : EndsFirst mark hdr) (hpre : pre <+: hdr)
    (hlt : pre.length < hdr.length) : ¬ mark <:+ pre := by
  intro hm
  rw [h.2 pre hpre hm] at hlt
  omega

theorem splitMark_of_endsFirst {hdr h x : List α} (hfirst : EndsFirst mark hdr)
    (hhdr : h ++ x = hdr) (hx : x ≠ []) (rest : List α) :
    splitMark mark h (x ++ rest) = some (hdr, rest) := by
  induction x generalizing h with
  | nil => exact absurd rfl hx
  | cons c x ih =>
    rw [List.cons_append, splitMark]
    cases x with
    | nil => rw [hhdr, if_pos hfirst.1, List.nil_append]
    | cons d x =>
      rw [if_neg]
      · exact ih (by simpa using hhdr) (by simp)
      · apply hfirst.not_suffix
        · rw [← hhdr]
          simp
        · rw [← hhdr]
          simp

theorem splitMark_of_short {hdr h x : List α} (hfirst : EndsFirst mark hdr)
    (hpre : h ++ x <+: hdr) (hlt : (h ++ x).length < hdr.length) : splitMark mark h x = none := by
  induction x generalizing h with
  | nil => rfl
  | cons c x ih =>
    rw [splitMark, if_neg]
    · exact ih (by simpa using hpre) (by simpa using hlt)
    · apply hfirst.not_suffix
      · exact List.IsPrefix.trans ⟨x, by simp⟩ hpre
      · simp only [List.length_append, List.length_cons, List.length_nil] at hlt ⊢
        omega

theorem splitMark_eq_some {h x hdr rest : List α} (hs : splitMark mark h x = some (hdr, rest)) :
    hdr ++ rest = h ++ x ∧ mark <:+ hdr ∧ h <+: hdr ∧ h.length < hdr.length ∧
      ∀ pre, pre <+: hdr → h.length < pre.length → mark <:+ pre → pre = hdr := by
  induction x generalizing h with
  | nil => cases hs
  | cons c x ih =>
    rw [splitMark] at hs
    split at hs
    · rename_i hc
      simp only [Option.some.injEq, Prod.mk.injEq] at hs
      obtain ⟨rfl, rfl⟩ := hs
      refine ⟨by simp, hc, ⟨[c], rfl⟩, by simp, ?_⟩
      intro pre hpre hlen _
      apply hpre.eq_of_length
      have := hpre.length_le
      simp only [List.length_append, List.length_cons, List.length_nil] at this ⊢
      omega
    · rename_i hc
      obtain ⟨heq, hm, hpre, hlen, hfirst⟩ := ih hs
      simp only [List.length_append, List.length_cons, List.length_nil] at hlen hfirst
      refine ⟨by rw [heq]; simp, hm, (List.prefix_append h [c]).trans hpre, by omega, ?_⟩
      intro p hp hlt hmp
      rcases Nat.lt_or_ge (h.length + 1) p.length with hp' | hp'
      · exact hfirst p hp (by omega) hmp
      · -- `p` is `h` and one symbol, where the mark does not end
        have hsame : p = h ++ [c] := by
          apply (List.prefix_of_prefix_length_le hp hpre _).eq_of_length
          · simp only [List.length_append, List.length_cons, List.length_nil]
            omega
          · simp only [List.length_append, List.length_cons, List.length_nil]
            omega
        rw [hsame] at hmp
        exact absurd hmp hc

theorem splitMark_append {h x hdr rest : List α} (hs : splitMark mark h x = some (hdr, rest))
    (y : List α) : splitMark mark h (x ++ y) = some (hdr, rest ++ y) := by
  induction x generalizing h with
  | nil => cases hs
  | cons c x ih =>
    rw [splitMark] at hs
    rw [List.cons_append, splitMark]
    split at hs
    · rename_i hc
      simp only [Option.some.injEq, Prod.mk.injEq] at hs
      rw [if_pos hc, hs.1, hs.2]
    · rename_i hc
      rw [if_neg hc]
      exact ih hs

theorem splitMark_append_none {h x : List α} (hs : splitMark mark h x = none) (y : List α) :
    splitMark mark h (x ++ y) = splitMark mark (h ++ x) y := by
  induction x generalizing h with
  | nil => simp
  | cons c x ih =>
    rw [splitMark] at hs
    rw [List.cons_append, splitMark]
    split at hs
    · cases hs
    · rename_i hc
      rw [if_neg hc, ih hs]
      simp

theorem splitMark_nil_eq_some {x hdr rest : List α} (hmark : mark ≠ [])
    (hs : splitMark mark [] x = some (hdr, rest)) : hdr ++ rest = x ∧ EndsFirst mark hdr := by
  obtain ⟨heq, hm, _, _, hfirst⟩ := splitMark_eq_some hs
  refine ⟨heq, hm, ?_⟩
  intro pre hpre hmp
  apply hfirst pre hpre _ hmp
  cases pre with
  | nil => exact absurd (List.suffix_nil.mp hmp) hmark
  | cons c pre => simp

omit [DecidableEq α] in
theorem EndsFirst.unique {hdr hdr' rest rest' : List α} (h : EndsFirst mark hdr)
    (h' : EndsFirst mark hdr') (heq : hdr ++ rest = hdr' ++ rest') :
    hdr = hdr' ∧ rest = rest' := by
  have hsame : hdr = hdr' := by
    rcases List.prefix_or_prefix_of_prefix (List.prefix_append hdr rest)
        (heq ▸ List.prefix_append hdr' rest') with hp | hp
    · exact h'.2 hdr hp h.1
    · exact (h.2 hdr' hp h'.1).symm
  refine ⟨hsame, ?_⟩
  rw [hsame] at heq
  exact List.append_cancel_left heq

end vibeos.Segments

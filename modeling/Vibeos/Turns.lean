-- A list whose elements take turns: the current one goes to the front, and the last one is next.
-- As many turns as there are elements visit each of them once.
import Mathlib.Data.List.Perm.Basic
import Mathlib.Data.List.Nodup
import Mathlib.Data.List.Induction

namespace vibeos.Turns

variable {α : Type} [DecidableEq α]

/-- The current element goes to the front. -/
def shift (l : List α) (cur : α) : List α := if cur ∈ l then cur :: l.erase cur else l

/-- The last elements of the lists that the next `n` turns come to. -/
def visits : Nat → List α → α → List α
  | 0, _, _ => []
  | n + 1, l, cur =>
    let next := (shift l cur).getLastD cur
    next :: visits n (shift l cur) next

theorem shift_perm (l : List α) (cur : α) : (shift l cur).Perm l := by
  unfold shift
  split
  · exact (List.perm_cons_erase (by assumption)).symm
  · exact List.Perm.refl l

theorem shift_last {l : List α} {a : α} (h : (l ++ [a]).Nodup) : shift (l ++ [a]) a = a :: l := by
  have hnot : a ∉ l := fun hmem =>
    (List.nodup_append.mp h).2.2 a hmem a (List.mem_singleton_self a) rfl
  rw [shift, if_pos (by simp), List.erase_append_right _ hnot]
  simp

theorem visits_rest (moved rest : List α) (a : α) (h : (moved ++ (rest ++ [a])).Nodup) :
    visits rest.length (moved ++ (rest ++ [a])) a = rest.reverse := by
  induction rest using List.reverseRecOn generalizing moved a with
  | nil => rfl
  | append_singleton rest b ih =>
    have hshift : shift (moved ++ (rest ++ [b] ++ [a])) a = a :: moved ++ (rest ++ [b]) := by
      rw [← List.append_assoc] at h ⊢
      rw [shift_last h]
      rfl
    have hnodup : (a :: moved ++ (rest ++ [b])).Nodup := by
      rw [← hshift]
      exact (shift_perm _ _).nodup_iff.mpr h
    have hnext : (a :: moved ++ (rest ++ [b])).getLastD a = b := by
      rw [← List.append_assoc]
      exact List.getLastD_concat
    rw [List.length_append, List.length_singleton, visits]
    rw [hshift, hnext, ih (a :: moved) b hnodup, List.reverse_append]
    rfl

theorem visits_perm {l : List α} (h : l.Nodup) (cur : α) : (visits l.length l cur).Perm l := by
  have hperm := shift_perm l cur
  have hnodup : (shift l cur).Nodup := hperm.nodup_iff.mpr h
  rcases List.eq_nil_or_concat (shift l cur) with hnil | ⟨rest, a, hlast⟩
  · rw [hnil] at hperm
    rw [List.nil_perm.mp hperm]
    exact List.Perm.refl _
  · rw [List.concat_eq_append] at hlast
    have hlen : l.length = rest.length + 1 := by
      rw [← hperm.length_eq, hlast]
      simp
    have hrest : visits rest.length (shift l cur) a = rest.reverse := by
      rw [hlast] at hnodup ⊢
      exact visits_rest [] rest a hnodup
    have hnext : (shift l cur).getLastD cur = a := by
      rw [hlast]
      exact List.getLastD_concat
    rw [hlen, visits]
    rw [hnext, hrest]
    have hreverse : a :: rest.reverse = (shift l cur).reverse := by
      rw [hlast]
      simp
    rw [hreverse]
    exact (List.reverse_perm _).trans hperm

end vibeos.Turns

-- Association lists that are changed in place: the first row with a key is overwritten or taken
-- out, and new rows go to the end. Such a list is a finite map as long as no key is in it twice.
import Mathlib.Data.List.Nodup

namespace vibeos.AssocRows

variable {K V : Type*} [BEq K] [LawfulBEq K] {rows : List (K × V)} {k k' : K} {v : V} {i : Nat}

def keys (rows : List (K × V)) : List K := rows.map Prod.fst

/-- The number of the first row with this key. -/
def rowOf (rows : List (K × V)) (k : K) : Option Nat := rows.findIdx? fun r => r.1 == k

theorem rowOf_eq_none_iff : rowOf rows k = none ↔ k ∉ keys rows := by
  rw [rowOf, List.findIdx?_eq_none_iff, keys, List.mem_map]
  constructor
  · rintro h ⟨r, hr, rfl⟩
    simpa using h r hr
  · intro h r hr
    exact beq_eq_false_iff_ne.mpr fun heq => h ⟨r, hr, heq⟩

theorem split_of_rowOf (h : rowOf rows k = some i) :
    ∃ a v b, rows = a ++ (k, v) :: b ∧ a.length = i ∧ k ∉ keys a := by
  obtain ⟨hlt, hkey, hbefore⟩ := List.findIdx?_eq_some_iff_getElem.mp h
  have hfst : rows[i].1 = k := beq_iff_eq.mp hkey
  refine ⟨rows.take i, rows[i].2, rows.drop (i + 1), ?_, ?_, ?_⟩
  · rw [← hfst, List.getElem_cons_drop, List.take_append_drop]
  · exact List.length_take_of_le (Nat.le_of_lt hlt)
  · intro hmem
    obtain ⟨r, hr, heq⟩ := List.mem_map.mp hmem
    obtain ⟨j, hj, rfl⟩ := List.getElem_of_mem hr
    rw [List.length_take] at hj
    refine hbefore j (by omega) ?_
    rw [List.getElem_take] at heq
    exact beq_iff_eq.mpr heq

theorem lookup_of_notMem (h : k ∉ keys rows) : rows.lookup k = none := by
  rw [List.lookup_eq_none_iff]
  intro r hr
  exact bne_iff_ne.mpr fun heq => h (List.mem_map.mpr ⟨r, hr, heq.symm⟩)

theorem lookup_split {a b : List (K × V)} (h : k ∉ keys a) :
    (a ++ (k, v) :: b).lookup k' = if k' == k then some v else (a ++ b).lookup k' := by
  rw [List.lookup_append, List.lookup_append, List.lookup_cons]
  by_cases heq : k' = k
  · rw [heq, lookup_of_notMem h, beq_self_eq_true]
    rfl
  · rw [beq_eq_false_iff_ne.mpr heq]
    rfl

theorem lookup_of_rowOf (h : rowOf rows k = some i) :
    rows.lookup k = (rows[i]?).map Prod.snd := by
  obtain ⟨a, v, b, rfl, rfl, hfirst⟩ := split_of_rowOf h
  rw [lookup_split hfirst, beq_self_eq_true]
  simp

/-! ## Overwriting a row -/

theorem lookup_set (h : rowOf rows k = some i) :
    (rows.set i (k, v)).lookup k' = if k' == k then some v else rows.lookup k' := by
  obtain ⟨a, old, b, rfl, rfl, hfirst⟩ := split_of_rowOf h
  rw [List.set_append_right _ _ (Nat.le_refl _), Nat.sub_self, List.set_cons_zero,
    lookup_split hfirst, lookup_split hfirst]
  split <;> rfl

theorem keys_set (h : rowOf rows k = some i) : keys (rows.set i (k, v)) = keys rows := by
  obtain ⟨a, old, b, rfl, rfl, -⟩ := split_of_rowOf h
  rw [List.set_append_right _ _ (Nat.le_refl _), Nat.sub_self, List.set_cons_zero, keys, keys,
    List.map_append, List.map_append]
  rfl

/-! ## A new row -/

theorem lookup_snoc (h : k ∉ keys rows) :
    (rows ++ [(k, v)]).lookup k' = if k' == k then some v else rows.lookup k' := by
  rw [lookup_split h, List.append_nil]

omit [BEq K] [LawfulBEq K] in
theorem keys_snoc : keys (rows ++ [(k, v)]) = keys rows ++ [k] := List.map_append

omit [BEq K] [LawfulBEq K] in
theorem nodup_snoc_iff (h : (keys rows).Nodup) :
    (keys (rows ++ [(k, v)])).Nodup ↔ k ∉ keys rows := by
  rw [keys_snoc, ← List.concat_eq_append, List.nodup_concat]
  exact and_iff_left h

/-! ## Taking a row out -/

theorem lookup_eraseIdx (hn : (keys rows).Nodup) (h : rowOf rows k = some i) :
    (rows.eraseIdx i).lookup k' = if k' == k then none else rows.lookup k' := by
  obtain ⟨a, v, b, rfl, rfl, hfirst⟩ := split_of_rowOf h
  rw [List.eraseIdx_append_of_length_le (Nat.le_refl _), Nat.sub_self, List.eraseIdx_cons_zero,
    lookup_split hfirst]
  by_cases heq : k' = k
  · -- the key was in one row only
    rw [keys, List.map_append, List.nodup_append] at hn
    have hlater : k ∉ keys b := (List.nodup_cons.mp hn.2.1).1
    rw [heq, beq_self_eq_true, List.lookup_append, lookup_of_notMem hfirst,
      lookup_of_notMem hlater]
    rfl
  · rw [beq_eq_false_iff_ne.mpr heq]
    rfl

omit [BEq K] [LawfulBEq K] in
theorem keys_eraseIdx_sublist (rows : List (K × V)) (i : Nat) :
    List.Sublist (keys (rows.eraseIdx i)) (keys rows) := (rows.eraseIdx_sublist i).map Prod.fst

end vibeos.AssocRows

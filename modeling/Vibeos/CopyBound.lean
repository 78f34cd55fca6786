-- Copies of strings into buffers of a fixed size, without a bounds check. A copy that reaches
-- behind the end of the buffer gives nothing.
import Mathlib.Data.List.Basic
import Mathlib.Tactic.SplitIfs

namespace vibeos.Copy

variable {α β : Type}

/-- The string in a buffer of `size` places, one of which its end takes. -/
def into (size : Nat) (s : List α) : Option (List α) := if s.length < size then some s else none

section

variable {size : Nat} {s : List α}

theorem into_of_lt (h : s.length < size) : into size s = some s := if_pos h

theorem into_of_le (h : size ≤ s.length) : into size s = none := if_neg (Nat.not_lt.mpr h)

theorem into_bind_of_lt (h : s.length < size) (f : List α → Option β) :
    (into size s >>= f) = f s := by
  rw [into_of_lt h]
  rfl

end

/-! ## Common starts -/

def commonStart [DecidableEq α] : List α → List α → List α
  | a :: s, b :: t => if a = b then a :: commonStart s t else []
  | _, _ => []

/-- What a search over names has found: how many, the first, and what they have in common. -/
structure Found (α : Type) where
  count : Nat
  best : List α
  common : List α
deriving DecidableEq

/-- One more name: the first is copied into two buffers. -/
def Found.add [DecidableEq α] (size : Nat) (f : Found α) (name : List α) : Option (Found α) :=
  if f.count = 0 then do
    let common ← into size name
    let best ← into size name
    return ⟨1, best, common⟩
  else some ⟨f.count + 1, f.best, commonStart f.common name⟩

def scan [DecidableEq α] (size : Nat) (names : List (List α)) : Option (Found α) :=
  names.foldlM (Found.add size) ⟨0, [], []⟩

section

variable [DecidableEq α] {size : Nat}

theorem add_more (f : Found α) (hf : f.count ≠ 0) (names : List (List α)) :
    names.foldlM (Found.add size) f =
      some ⟨f.count + names.length, f.best, names.foldl commonStart f.common⟩ := by
  induction names generalizing f with
  | nil => rfl
  | cons name names ih =>
    have hadd : Found.add size f name =
        some ⟨f.count + 1, f.best, commonStart f.common name⟩ := if_neg hf
    rw [List.foldlM_cons, hadd]
    have hnext := ih ⟨f.count + 1, f.best, commonStart f.common name⟩ (Nat.succ_ne_zero _)
    rw [List.length_cons, Nat.add_comm names.length, ← Nat.add_assoc]
    exact hnext

theorem scan_cons {name : List α} (names : List (List α)) (h : name.length < size) :
    scan size (name :: names) = some ⟨names.length + 1, name, names.foldl commonStart name⟩ := by
  have hadd : Found.add size ⟨0, [], []⟩ name = some ⟨1, name, name⟩ := by
    unfold Found.add
    rw [if_pos rfl, into_bind_of_lt h, into_bind_of_lt h]
    rfl
  unfold scan
  rw [List.foldlM_cons, hadd, Nat.add_comm]
  exact add_more ⟨1, name, name⟩ Nat.one_ne_zero names

theorem scan_cons_of_le {name : List α} (names : List (List α)) (h : size ≤ name.length) :
    scan size (name :: names) = none := by
  have hadd : Found.add size ⟨0, [], []⟩ name = none := by
    unfold Found.add
    rw [if_pos rfl, into_of_le h]
    rfl
  unfold scan
  rw [List.foldlM_cons, hadd]
  rfl

end

end vibeos.Copy

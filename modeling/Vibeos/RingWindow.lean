-- A ring of places as a queue: the elements between two counters that only grow, and how a write
-- behind the last or a step past the first changes them. At the end a cell that holds one message: a
-- put replaces what stands in it, and a take empties it.
import Mathlib.Data.List.Basic
import Mathlib.Data.Nat.ModEq
import Mathlib.Data.List.Induction

namespace vibeos.Ring

variable {α : Type}

/-- The ring, whose places repeat after `size`, holds the elements from the counter on. -/
def Window (size : Nat) (ring : Nat → α) (first : Nat) (l : List α) : Prop :=
  l.length ≤ size ∧ ∀ i (h : i < l.length), ring ((first + i) % size) = l[i]

def write (ring : Nat → α) (place : Nat) (x : α) : Nat → α :=
  fun i => if i = place then x else ring i

theorem Window.nil (size : Nat) (ring : Nat → α) (first : Nat) : Window size ring first [] :=
  ⟨Nat.zero_le _, fun _ h => absurd h (Nat.not_lt_zero _)⟩

theorem Window.pop {size first : Nat} {ring : Nat → α} {x : α} {l : List α}
    (h : Window size ring first (x :: l)) :
    ring (first % size) = x ∧ Window size ring (first + 1) l := by
  obtain ⟨hlen, hat⟩ := h
  refine ⟨hat 0 (Nat.zero_lt_succ _), ?_, fun i hi => ?_⟩
  · rw [List.length_cons] at hlen
    omega
  · have := hat (i + 1) (by rw [List.length_cons]; omega)
    rw [Nat.add_assoc, Nat.add_comm 1 i]
    simpa using this

theorem place_ne {size i j : Nat} (hlt : i < j) (hround : j < i + size) : i % size ≠ j % size := by
  intro heq
  have hdvd : size ∣ j - i := (Nat.modEq_iff_dvd' hlt.le).mp heq
  exact absurd (Nat.le_of_dvd (by omega) hdvd) (by omega)

theorem Window.push {size first : Nat} {ring : Nat → α} {l : List α}
    (h : Window size ring first l) (hroom : l.length < size) (x : α) :
    Window size (write ring ((first + l.length) % size) x) first (l ++ [x]) := by
  obtain ⟨-, hat⟩ := h
  refine ⟨by rw [List.length_append]; exact hroom, fun i hi => ?_⟩
  have hi' : i < l.length + 1 := by simpa using hi
  by_cases hlast : i = l.length
  · subst hlast
    simp [write]
  · have hbefore : i < l.length := by omega
    have hne := @place_ne size (first + i) (first + l.length) (by omega)
      (by omega)
    rw [write, if_neg hne, hat i hbefore, List.getElem_append_left hbefore]

theorem place_wrap {size width : Nat} (hdvd : size ∣ width) (n : Nat) :
    n % width % size = n % size := Nat.mod_mod_of_dvd n hdvd

theorem wrap_eq_iff {width first last : Nat} (hle : first ≤ last) (hlt : last < first + width) :
    first % width = last % width ↔ first = last := by
  constructor
  · intro heq
    by_contra hne
    exact place_ne (by omega) hlt heq
  · rintro rfl
    rfl

end vibeos.Ring

/-! ## A cell for one message -/

namespace vibeos.Mail

variable {α : Type}

/-- What happens to the cell; a take has the value that the reader got. -/
inductive Op (α : Type) where
  | put (v : α)
  | take (v : α)
deriving DecidableEq

def standing (empty : α) (log : List (Op α)) : α :=
  match log.getLast? with
  | some (.put v) => v
  | _ => empty

/-- Every take got what stood in the cell. -/
def Served (empty : α) (log : List (Op α)) : Prop :=
  ∀ a r b, log = a ++ .take r :: b → r = standing empty a

@[simp]
theorem standing_put (empty : α) (log : List (Op α)) (v : α) :
    standing empty (log ++ [.put v]) = v := by
  simp [standing]

@[simp]
theorem standing_take (empty : α) (log : List (Op α)) (v : α) :
    standing empty (log ++ [.take v]) = empty := by
  simp [standing]

theorem served_nil (empty : α) : Served empty [] := by
  intro a r b h
  exact absurd h.symm (List.append_ne_nil_of_right_ne_nil _ (List.cons_ne_nil _ _))

theorem served_snoc {empty : α} {log : List (Op α)} {op : Op α} (h : Served empty log)
    (hop : ∀ r, op = .take r → r = standing empty log) : Served empty (log ++ [op]) := by
  intro a r b hsplit
  rcases List.eq_nil_or_concat b with rfl | ⟨b', last, rfl⟩
  · obtain ⟨rfl, hlast⟩ := List.append_inj' hsplit rfl
    exact hop r (List.cons.inj hlast).1
  · rw [List.concat_eq_append, ← List.cons_append, ← List.append_assoc] at hsplit
    exact h a r b' (List.append_inj' hsplit rfl).1

theorem Served.put {empty : α} {log : List (Op α)} (h : Served empty log) (v : Option α) :
    Served empty (log ++ v.toList.map .put) := by
  cases v with
  | none => rwa [Option.toList_none, List.map_nil, List.append_nil]
  | some v => exact served_snoc h fun r hr => (nomatch hr)

theorem Served.take {empty : α} {log : List (Op α)} (h : Served empty log) {r : α}
    (hr : r = standing empty log) : Served empty (log ++ [.take r]) :=
  served_snoc h fun _ htake => (Op.take.inj htake) ▸ hr

theorem standing_puts (empty : α) (log : List (Op α)) (v : Option α) :
    standing empty (log ++ v.toList.map .put) = v.getD (standing empty log) := by
  cases v with
  | none => rw [Option.toList_none, List.map_nil, List.append_nil, Option.getD_none]
  | some v => exact standing_put empty log v

end vibeos.Mail

-- A line of bounded length with a cursor in it: the elements before the cursor and those
-- behind it. Every operation keeps the bound.
import Mathlib.Data.List.Basic
import Mathlib.Data.List.DropRight
import Mathlib.Tactic.Common

namespace vibeos

/-- A line of at most `cap` elements, split at its cursor. -/
structure LineZipper (α : Type) (cap : Nat) where
  before : List α
  after : List α
  fits : before.length + after.length ≤ cap

namespace LineZipper

variable {α : Type} {cap : Nat}

def text (z : LineZipper α cap) : List α := z.before ++ z.after

/-- The number of elements before the cursor. -/
def cursor (z : LineZipper α cap) : Nat := z.before.length

@[simp]
theorem length_text (z : LineZipper α cap) : z.text.length = z.before.length + z.after.length :=
  List.length_append

theorem length_text_le (z : LineZipper α cap) : z.text.length ≤ cap :=
  z.length_text ▸ z.fits

theorem cursor_le (z : LineZipper α cap) : z.cursor ≤ z.text.length := by
  rw [length_text]
  exact Nat.le_add_right _ _

def empty : LineZipper α cap := ⟨[], [], Nat.zero_le _⟩

/-- A line in place of the old one, cut to the bound, with the cursor at its end. -/
def load (l : List α) : LineZipper α cap := ⟨l.take cap, [], by
    rw [List.length_nil, Nat.add_zero]
    exact List.length_take_le _ _⟩

/-- A new element before the cursor, if there is room. -/
def insert (c : α) (z : LineZipper α cap) : LineZipper α cap :=
  if h : z.text.length < cap then
    ⟨z.before ++ [c], z.after, by
      rw [length_text] at h
      simp only [List.length_append, List.length_singleton]
      omega⟩
  else z

def backspace (z : LineZipper α cap) : LineZipper α cap :=
  ⟨z.before.dropLast, z.after, by
    have := z.fits
    rw [List.length_dropLast]
    omega⟩

def delete (z : LineZipper α cap) : LineZipper α cap :=
  ⟨z.before, z.after.tail, by
    have := z.fits
    rw [List.length_tail]
    omega⟩

def left (z : LineZipper α cap) : LineZipper α cap :=
  match h : z.before.getLast? with
  | none => z
  | some c => ⟨z.before.dropLast, c :: z.after, by
      have hne : z.before ≠ [] := by
        rintro hnil
        simp [hnil] at h
      have hpos := List.length_pos_of_ne_nil hne
      have := z.fits
      rw [List.length_dropLast, List.length_cons]
      omega⟩

def right (z : LineZipper α cap) : LineZipper α cap :=
  match h : z.after with
  | [] => z
  | c :: cs => ⟨z.before ++ [c], cs, by
      have := z.fits
      rw [h, List.length_cons] at this
      simp only [List.length_append, List.length_singleton]
      omega⟩

def home (z : LineZipper α cap) : LineZipper α cap :=
  ⟨[], z.text, by simpa using z.fits⟩

def toEnd (z : LineZipper α cap) : LineZipper α cap :=
  ⟨z.text, [], by simpa using z.fits⟩

/-- The line before the word at the cursor. -/
def beforeWord (blank : α → Bool) (z : LineZipper α cap) : List α :=
  z.before.rdropWhile fun c => !blank c

/-- The line behind the word at the cursor. -/
def afterWord (blank : α → Bool) (z : LineZipper α cap) : List α :=
  z.after.dropWhile fun c => !blank c

/-- Another word in place of the one at the cursor; what does not fit is cut off. -/
def replaceWord (blank : α → Bool) (r : List α) (z : LineZipper α cap) : LineZipper α cap :=
  ⟨(z.beforeWord blank ++ r).take cap,
    (z.afterWord blank).take (cap - (z.beforeWord blank ++ r).length), by
      simp only [List.length_take]
      omega⟩

theorem text_replaceWord {blank : α → Bool} {r : List α} {z : LineZipper α cap}
    (h : (z.beforeWord blank).length + r.length ≤ cap) :
    (z.replaceWord blank r).text =
        (z.beforeWord blank ++ r ++ z.afterWord blank).take cap ∧
      (z.replaceWord blank r).cursor = (z.beforeWord blank).length + r.length := by
  have hlen : (z.beforeWord blank ++ r).length ≤ cap := by
    rw [List.length_append]
    exact h
  constructor
  · exact List.take_append.symm
  · change ((z.beforeWord blank ++ r).take cap).length = _
    rw [List.take_of_length_le hlen, List.length_append]

@[simp]
theorem text_load (l : List α) : (load l : LineZipper α cap).text = l.take cap := by
  simp [text, load]

@[simp]
theorem text_left (z : LineZipper α cap) : z.left.text = z.text := by
  unfold left
  split
  · rfl
  · next c h =>
    rw [text, text, List.append_cons, List.dropLast_append_getLast? c h]

theorem cursor_left (z : LineZipper α cap) : z.left.cursor = z.cursor - 1 := by
  unfold left
  split
  · next h =>
    rw [List.getLast?_eq_none_iff] at h
    simp [cursor, h]
  · simp [cursor]

@[simp]
theorem text_right (z : LineZipper α cap) : z.right.text = z.text := by
  unfold right
  split
  · rfl
  · next c cs h => simp [text, h]

theorem cursor_right (z : LineZipper α cap) :
    z.right.cursor = if z.cursor < z.text.length then z.cursor + 1 else z.cursor := by
  unfold right
  split
  · next h => simp [cursor, h]
  · next c cs h => simp [cursor, h]

@[simp]
theorem text_home (z : LineZipper α cap) : z.home.text = z.text := rfl

@[simp]
theorem cursor_home (z : LineZipper α cap) : z.home.cursor = 0 := rfl

@[simp]
theorem text_toEnd (z : LineZipper α cap) : z.toEnd.text = z.text := List.append_nil _

@[simp]
theorem cursor_toEnd (z : LineZipper α cap) : z.toEnd.cursor = z.text.length := rfl

end LineZipper

end vibeos

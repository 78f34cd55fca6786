-- A file that is open: its bytes and a cursor. Reads and writes are at the cursor, and a
-- write goes over what is there and then extends the file.
import Mathlib.Data.List.Basic
import Mathlib.Tactic.Common

namespace vibeos

variable {α : Type}

/-- The list with `d` over the elements from `i` on. -/
def overwrite (l : List α) (i : Nat) (d : List α) : List α := l.take i ++ d ++ l.drop (i + d.length)

theorem length_overwrite {l d : List α} {i : Nat} (h : i ≤ l.length) :
    (overwrite l i d).length = max l.length (i + d.length) := by
  simp only [overwrite, List.length_append, List.length_take, List.length_drop]
  omega

structure ByteFile (α : Type) where
  bytes : List α
  cursor : Nat
  inside : cursor ≤ bytes.length

namespace ByteFile

/-- What a read of at most `n` bytes gives. -/
def next (f : ByteFile α) (n : Nat) : List α := (f.bytes.drop f.cursor).take n

theorem length_next (f : ByteFile α) (n : Nat) :
    (f.next n).length = min n (f.bytes.length - f.cursor) := by
  simp [next]

def read (f : ByteFile α) (n : Nat) : ByteFile α :=
  ⟨f.bytes, f.cursor + (f.next n).length, by
    have := f.inside
    rw [length_next]
    omega⟩

def write (f : ByteFile α) (d : List α) : ByteFile α :=
  ⟨overwrite f.bytes f.cursor d, f.cursor + d.length, by
    rw [length_overwrite f.inside]
    exact Nat.le_max_right _ _⟩

/-- A position behind the end fills the gap with `z`. -/
def seek (f : ByteFile α) (z : α) (target : Nat) : ByteFile α :=
  ⟨f.bytes ++ List.replicate (target - f.bytes.length) z, target, by
    rw [List.length_append, List.length_replicate]
    omega⟩

end ByteFile

end vibeos

-- A write-back cache in front of a memory: lines of cells that are fetched, changed and written back
-- as a whole, while the memory changes behind them.
import Mathlib.Data.Nat.Basic

namespace vibeos.Lines

/-- A memory of cells and the lines of it that are cached. A line has a value for each of its own
cells, under the number that the cell has in the memory. -/
structure Cached (α : Type) where
  mem : Nat → α
  line : Nat → Option (Nat → α)

variable {α : Type}

namespace Cached

/-- The line is dropped, with what was written to it. -/
def invalidate (c : Cached α) (l : Nat) : Cached α :=
  { c with line := fun k => if k = l then none else c.line k }

/-- A line that is not cached is read from the memory. -/
def fetch (c : Cached α) (l : Nat) : Cached α :=
  match c.line l with
  | some _ => c
  | none => { c with line := fun k => if k = l then some c.mem else c.line k }

variable (size : Nat)

def get (c : Cached α) (i : Nat) : α := (c.line (i / size)).elim (c.mem i) fun cells => cells i

def load (c : Cached α) (i : Nat) : Cached α := c.fetch (i / size)

def store (c : Cached α) (i : Nat) (f : α → α) : Cached α :=
  let c := c.fetch (i / size)
  { c with
    line := fun k =>
      if k = i / size then (c.line k).map fun cells a => if a = i then f (cells a) else cells a
      else c.line k }

/-- All cells of a cached line are copied to the memory. -/
def writeback (c : Cached α) (l : Nat) : Cached α :=
  match c.line l with
  | some cells => { c with mem := fun a => if a / size = l then cells a else c.mem a }
  | none => c

/-- A cell of the memory changes behind the cache. -/
def behind (c : Cached α) (i : Nat) (x : α) : Cached α :=
  { c with mem := fun a => if a = i then x else c.mem a }

/-! ## What the operations do to a line that is known -/

/-- The line is cached with these cells. -/
def Holds (c : Cached α) (l : Nat) (cells : Nat → α) : Prop := c.line l = some cells

theorem fetch_of_holds {c : Cached α} {l : Nat} {cells : Nat → α} (h : c.Holds l cells) :
    c.fetch l = c := by
  unfold fetch
  rw [h]

theorem holds_fetch {c : Cached α} {l : Nat} (h : c.line l = none) :
    (c.fetch l).Holds l c.mem := by
  unfold fetch Holds
  rw [h]
  exact if_pos rfl

theorem mem_fetch (c : Cached α) (l : Nat) : (c.fetch l).mem = c.mem := by
  unfold fetch
  cases c.line l <;> rfl

theorem line_invalidate (c : Cached α) (l : Nat) : (c.invalidate l).line l = none := if_pos rfl

variable {size}

theorem get_of_holds {c : Cached α} {i : Nat} {cells : Nat → α}
    (h : c.Holds (i / size) cells) : c.get size i = cells i := by
  unfold get
  rw [h]
  rfl

theorem holds_store {c : Cached α} {i : Nat} {cells : Nat → α} (h : c.Holds (i / size) cells)
    (f : α → α) :
    (c.store size i f).Holds (i / size) fun a => if a = i then f (cells a) else cells a := by
  unfold store Holds
  rw [fetch_of_holds h]
  dsimp only
  rw [if_pos rfl, h]
  rfl

theorem mem_store (c : Cached α) (i : Nat) (f : α → α) : (c.store size i f).mem = c.mem := by
  unfold store
  exact mem_fetch c _

theorem mem_writeback {c : Cached α} {l : Nat} {cells : Nat → α} (h : c.Holds l cells) (a : Nat) :
    (c.writeback size l).mem a = if a / size = l then cells a else c.mem a := by
  unfold writeback
  rw [h]

theorem mem_writeback_ne (c : Cached α) {l a : Nat} (hne : a / size ≠ l) :
    (c.writeback size l).mem a = c.mem a := by
  unfold writeback
  cases c.line l with
  | none => rfl
  | some _ => exact if_neg hne

/-! ## Cells that were stored -/

/-- The value of a cell in its line, if the line is cached. -/
def cell (size : Nat) (c : Cached α) (i : Nat) : Option α :=
  (c.line (i / size)).map fun cells => cells i

theorem cell_fetch {c : Cached α} {i : Nat} {x : α} (h : c.cell size i = some x) (l : Nat) :
    (c.fetch l).cell size i = some x := by
  unfold cell fetch at *
  cases hl : c.line l with
  | some _ => exact h
  | none =>
    have hne : i / size ≠ l := fun heq => by
      rw [heq, hl] at h
      cases h
    dsimp only
    rw [if_neg hne]
    exact h

theorem cell_store_self (c : Cached α) (i : Nat) (x : α) :
    (c.store size i fun _ => x).cell size i = some x := by
  unfold store cell
  dsimp only
  rw [if_pos rfl]
  have hline : ∃ cells, (c.fetch (i / size)).line (i / size) = some cells := by
    cases hl : c.line (i / size) with
    | some cells => exact ⟨cells, by rw [fetch_of_holds hl]; exact hl⟩
    | none => exact ⟨_, holds_fetch hl⟩
  obtain ⟨cells, hcells⟩ := hline
  rw [hcells]
  exact congrArg some (if_pos rfl)

theorem cell_store_ne {c : Cached α} {i j : Nat} (hne : j ≠ i) (f : α → α) {x : α}
    (h : c.cell size j = some x) : (c.store size i f).cell size j = some x := by
  have hfetched := cell_fetch h (i / size)
  unfold store cell at *
  dsimp only
  by_cases hl : j / size = i / size
  · rw [if_pos hl, Option.map_map, ← hfetched]
    refine congrArg (fun g => Option.map g _) ?_
    funext cells
    exact if_neg hne
  · rw [if_neg hl]
    exact hfetched

theorem line_writeback (c : Cached α) (l : Nat) : (c.writeback size l).line = c.line := by
  unfold writeback
  cases c.line l <;> rfl

theorem mem_writebacks {c : Cached α} {i : Nat} {x : α} (h : c.cell size i = some x) {n : Nat}
    (hn : i / size < n) :
    ((List.range n).foldl (fun r l => r.writeback size l) c).mem i = x := by
  have hline (n : Nat) : ((List.range n).foldl (fun r l => r.writeback size l) c).line = c.line := by
    induction n with
    | zero => rfl
    | succ n ih =>
      rw [List.range_succ, List.foldl_append]
      exact (line_writeback _ n).trans ih
  obtain ⟨cells, hcells, hx⟩ := Option.map_eq_some_iff.mp h
  induction n with
  | zero => exact absurd hn (Nat.not_lt_zero _)
  | succ n ih =>
    rw [List.range_succ, List.foldl_append]
    change (Cached.writeback size _ n).mem i = x
    by_cases hlast : i / size = n
    · have hholds : Holds ((List.range n).foldl (fun r l => r.writeback size l) c) n cells := by
        unfold Holds
        rw [hline, ← hlast]
        exact hcells
      rw [mem_writeback hholds, if_pos hlast]
      exact hx
    · rw [mem_writeback_ne _ hlast]
      exact ih (by omega)

end Cached

end vibeos.Lines

-- A ring with a head and a tail that leaves one place free, and drops its oldest item when a push
-- finds it full.
import Vibeos.QueueLedger
import Vibeos.RingWindow

namespace vibeos.Ring

open Queue (Machine Loss)

/-- Both indices stay below the size, and the item at the head is the oldest. -/
structure Drop (α : Type) where
  head : Nat
  tail : Nat
  slots : Nat → α

namespace Drop

variable {α : Type} (size : Nat)

def Full (q : Drop α) : Prop := (q.tail + 1) % size = q.head

instance (q : Drop α) : Decidable (q.Full size) := inferInstanceAs (Decidable (_ = _))

def push (q : Drop α) (x : α) : Drop α where
  head := if q.Full size then (q.head + 1) % size else q.head
  tail := (q.tail + 1) % size
  slots := write q.slots q.tail x

def pop (q : Drop α) : Option (α × Drop α) :=
  if q.head = q.tail then none
  else some (q.slots q.head, { q with head := (q.head + 1) % size })

def items (q : Drop α) : List α :=
  (List.range ((q.tail + size - q.head) % size)).map fun i => q.slots ((q.head + i) % size)

/-! ## The ring holds a list -/

structure Holds (q : Drop α) (l : List α) : Prop where
  head_lt : q.head < size
  room : l.length < size
  tail : q.tail = (q.head + l.length) % size
  window : Window size q.slots q.head l

variable {size} {q : Drop α} {l : List α}

theorem window_mod {ring : Nat → α} {first : Nat} (h : Window size ring first l) :
    Window size ring (first % size) l :=
  ⟨h.1, fun i hi => by rw [Nat.mod_add_mod, h.2 i hi]⟩

theorem Holds.length (h : Holds size q l) : (q.tail + size - q.head) % size = l.length := by
  have hhead := h.head_lt
  have hroom := h.room
  rw [h.tail]
  rcases Nat.lt_or_ge (q.head + l.length) size with hlt | hge
  · rw [Nat.mod_eq_of_lt hlt, show q.head + l.length + size - q.head = l.length + size by omega,
      Nat.add_mod_right, Nat.mod_eq_of_lt hroom]
  · have hwrap : (q.head + l.length) % size = q.head + l.length - size := by
      rw [Nat.mod_eq_sub_mod hge, Nat.mod_eq_of_lt (by omega)]
    rw [hwrap, show q.head + l.length - size + size - q.head = l.length by omega,
      Nat.mod_eq_of_lt hroom]

theorem Holds.items (h : Holds size q l) : q.items size = l := by
  rw [Drop.items, h.length]
  apply List.ext_getElem
  · simp
  · intro i hi hi'
    simpa using h.window.2 i hi'

theorem Holds.full_iff (h : Holds size q l) : q.Full size ↔ l.length + 1 = size := by
  have hhead := h.head_lt
  have hroom := h.room
  rw [Full, h.tail, Nat.mod_add_mod, Nat.add_assoc]
  constructor
  · intro heq
    by_contra hne
    have hdiff := @place_ne size q.head (q.head + (l.length + 1)) (by omega) (by omega)
    rw [Nat.mod_eq_of_lt hhead] at hdiff
    exact hdiff heq.symm
  · intro heq
    rw [heq, Nat.add_mod_right, Nat.mod_eq_of_lt hhead]

theorem Holds.empty_iff (h : Holds size q l) : q.head = q.tail ↔ l = [] := by
  have hhead := h.head_lt
  have hroom := h.room
  rw [h.tail]
  constructor
  · intro heq
    by_contra hne
    have hpos := List.length_pos_iff.mpr hne
    have hdiff := @place_ne size q.head (q.head + l.length) (by omega) (by omega)
    rw [Nat.mod_eq_of_lt hhead] at hdiff
    exact hdiff heq
  · rintro rfl
    rw [List.length_nil, Nat.add_zero, Nat.mod_eq_of_lt hhead]

/-! ## The operations on the list -/

theorem Holds.push_room (h : Holds size q l) (hroom : l.length + 1 < size) (x : α) :
    Holds size (q.push size x) (l ++ [x]) := by
  have hfull : ¬ q.Full size := fun hfull => by
    have := h.full_iff.mp hfull
    omega
  have hhead : (q.push size x).head = q.head := if_neg hfull
  refine ⟨hhead ▸ h.head_lt, by simpa using hroom, ?_, ?_⟩
  · rw [hhead, List.length_append, List.length_singleton, push, h.tail, Nat.mod_add_mod,
      Nat.add_assoc]
  · rw [hhead, push, h.tail]
    exact h.window.push (by omega) x

theorem Holds.drop_oldest {y : α} (h : Holds size q (y :: l)) :
    q.slots q.head = y ∧ Holds size { q with head := (q.head + 1) % size } l := by
  obtain ⟨hfirst, hrest⟩ := h.window.pop
  have hroom := h.room
  rw [Nat.mod_eq_of_lt h.head_lt] at hfirst
  rw [List.length_cons] at hroom
  refine ⟨hfirst, Nat.mod_lt _ (by omega), by omega, ?_, window_mod hrest⟩
  show q.tail = _
  rw [h.tail, List.length_cons, Nat.mod_add_mod, Nat.add_assoc, Nat.add_comm 1]

theorem Holds.push_full {y : α} (h : Holds size q (y :: l)) (hfull : l.length + 2 = size)
    (x : α) : Holds size (q.push size x) (l ++ [x]) := by
  have hpush : q.push size x = push size { q with head := (q.head + 1) % size } x := by
    have hrest : ¬ Full size { q with head := (q.head + 1) % size } := by
      rw [h.drop_oldest.2.full_iff]
      omega
    have hall : q.Full size := by
      rw [h.full_iff, List.length_cons, hfull]
    rw [push, push, if_pos hall, if_neg hrest]
  rw [hpush]
  exact h.drop_oldest.2.push_room (by omega) x

theorem Holds.pop_nil (h : Holds size q []) : q.pop size = none :=
  if_pos (h.empty_iff.mpr rfl)

theorem Holds.pop_cons {y : α} (h : Holds size q (y :: l)) :
    ∃ q', q.pop size = some (y, q') ∧ Holds size q' l := by
  obtain ⟨hfirst, hrest⟩ := h.drop_oldest
  have hne : q.head ≠ q.tail := fun heq => List.cons_ne_nil _ _ (h.empty_iff.mp heq)
  exact ⟨_, by rw [pop, if_neg hne, hfirst], hrest⟩

theorem Holds.clear (h : Holds size q l) : Holds size { q with head := q.tail } [] := by
  have hroom := h.room
  have htail : q.tail < size := by
    rw [h.tail]
    exact Nat.mod_lt _ (by omega)
  exact ⟨htail, by simp; omega, (Nat.mod_eq_of_lt htail).symm, Window.nil _ _ _⟩

/-! ## The ring as a queue -/

inductive Op (α : Type) where
  | push (x : α)
  | pop

def Op.item : Op α → Option α
  | .push x => some x
  | .pop => none

def step (size : Nat) (q : Drop α) : Op α → Drop α
  | .push x => q.push size x
  | .pop => ((q.pop size).map Prod.snd).getD q

def popped (size : Nat) (q : Drop α) : Op α → Option α
  | .push _ => none
  | .pop => (q.pop size).map Prod.fst

/-- A push drops the first item of a full ring. -/
def loss (size : Nat) (q : Drop α) : Op α → Loss
  | .push _ => if q.Full size then .place 0 else .none
  | .pop => .none

def machine (α : Type) (size : Nat) : Machine (Drop α) (Op α) α where
  step := step size
  input := Op.item
  output := popped size
  loss := loss size
  items := items size

theorem Holds.push (h : Holds size q l) (hsize : 2 ≤ size) (x : α) :
    Holds size (q.push size x) ((loss size q (.push x)).from l ++ [x]) := by
  have hroom := h.room
  by_cases hfull : l.length + 1 = size
  · obtain ⟨y, l, rfl⟩ : ∃ y l', l = y :: l' := by
      cases l with
      | nil => simp at hfull; omega
      | cons y l => exact ⟨y, l, rfl⟩
    rw [loss, if_pos (h.full_iff.mpr hfull)]
    exact h.push_full hfull x
  · rw [loss, if_neg (mt h.full_iff.mp hfull)]
    exact h.push_room (by omega) x

theorem isQueue (hsize : 2 ≤ size) : (machine α size).IsQueue fun q => ∃ l, Holds size q l where
  step := by
    rintro q ⟨l, h⟩ (x | _)
    · exact ⟨_, h.push hsize x⟩
    · show ∃ l, Holds size (((q.pop size).map Prod.snd).getD q) l
      cases l with
      | nil =>
        rw [h.pop_nil]
        exact ⟨[], h⟩
      | cons y l =>
        obtain ⟨q', hpop, h'⟩ := h.pop_cons
        rw [hpop]
        exact ⟨l, h'⟩
  push := by
    rintro q ⟨l, h⟩ (x | _) y hin <;> cases hin
    refine ⟨rfl, ?_⟩
    show (q.push size x).items size = (loss size q (.push x)).from (q.items size) ++ [x]
    rw [h.items, (h.push hsize x).items]
  pop := by
    rintro q ⟨l, h⟩ (x | _) hin
    · cases hin
    show q.items size = ((q.pop size).map Prod.fst).toList ++
      Drop.items size (((q.pop size).map Prod.snd).getD q)
    cases l with
    | nil =>
      rw [h.pop_nil, h.items]
      exact h.items.symm
    | cons y l =>
      obtain ⟨q', hpop, h'⟩ := h.pop_cons
      rw [hpop, h.items]
      exact congrArg (y :: ·) h'.items.symm

theorem loses_first (size : Nat) (q : Drop α) (o : Op α) :
    loss size q o = .none ∨ loss size q o = .place 0 := by
  cases o with
  | push x =>
    rw [loss]
    split
    · exact .inr rfl
    · exact .inl rfl
  | pop => exact .inl rfl

theorem Holds.losesOldest (h : Holds size q []) (hsize : 2 ≤ size) (ops : List (Op α)) :
    (machine α size).LosesOldest q ops :=
  (isQueue hsize).losesOldest ⟨[], h⟩ h.items (loses_first size) ops

theorem Holds.serves (h : Holds size q []) (hsize : 2 ≤ size) (ops : List (Op α)) :
    (machine α size).Serves q ops .pop := by
  obtain ⟨⟨l, h'⟩, -⟩ := (isQueue hsize).ledger ⟨[], h⟩ h.items ops
  show (((machine α size).run q ops).pop size).map Prod.fst =
    (((machine α size).run q ops).items size).head?
  rw [h'.items]
  cases l with
  | nil => rw [h'.pop_nil, Option.map_none, List.head?_nil]
  | cons y l =>
    obtain ⟨q', hpop, -⟩ := h'.pop_cons
    rw [hpop, Option.map_some, List.head?_cons]

end Drop

end vibeos.Ring

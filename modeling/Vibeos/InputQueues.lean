-- The four queues between the interrupts and the windows: uart_input of lib.c, the mailbox of a
-- window in user_terminal.c, and the raw events and the keys of virtio_input.c. All are rings that
-- drop their oldest item.
import Vibeos.DropRing
import Vibeos.KeyTracking

namespace vibeos.input

open Queue (Machine Loss)
open vibeos.Ring (Drop)

/-- A ring in memory that is zero at the start. -/
def zeroed {α : Type} (zero : α) : Drop α := ⟨0, 0, fun _ => zero⟩

/-! ## The bytes of the serial line -/

def UART_INPUT_QUEUE_SIZE : Nat := 1024

def uart_input_push (q : Drop UInt8) (c : UInt8) : Drop UInt8 := q.push UART_INPUT_QUEUE_SIZE c

def uart_input_pop (q : Drop UInt8) : Int × Drop UInt8 :=
  match q.pop UART_INPUT_QUEUE_SIZE with
  | none => (-1, q)
  | some (c, q) => (c.toNat, q)

def uart : Machine (Drop UInt8) (Drop.Op UInt8) UInt8 where
  step
    | q, .push c => uart_input_push q c
    | q, .pop => (uart_input_pop q).2
  input := Drop.Op.item
  output
    | _, .push _ => none
    | q, .pop => if (uart_input_pop q).1 < 0 then none else some (uart_input_pop q).1.toNat.toUInt8
  loss := Drop.loss UART_INPUT_QUEUE_SIZE
  items := Drop.items UART_INPUT_QUEUE_SIZE

/-! ## The mailbox of a window -/

def INPUT_MAILBOX_SIZE : Nat := 256

def window_input_push (w : Drop UInt8) (key : UInt8) : Drop UInt8 := w.push INPUT_MAILBOX_SIZE key

def window_input_pop (w : Drop UInt8) : Option (UInt8 × Drop UInt8) := w.pop INPUT_MAILBOX_SIZE

def mailbox : Machine (Drop UInt8) (Drop.Op UInt8) UInt8 where
  step
    | w, .push key => window_input_push w key
    | w, .pop => ((window_input_pop w).map Prod.snd).getD w
  input := Drop.Op.item
  output
    | _, .push _ => none
    | w, .pop => (window_input_pop w).map Prod.fst
  loss := Drop.loss INPUT_MAILBOX_SIZE
  items := Drop.items INPUT_MAILBOX_SIZE

/-! ## The raw events -/

/-- `input_events` with its indices, and the call of `virtio_input_poll` that is in its loop. -/
structure Events where
  ring : Drop raw_input_event
  input_poll_busy : Bool
  event_budget : Nat

/-- An interrupt may put events in between any two turns of the loop, and a timer interrupt may
call `virtio_input_poll` again. -/
inductive EventOp where
  | enqueue (ev : raw_input_event)
  | poll
  | turn

namespace Events

def enqueue_input_event (s : Events) (ev : raw_input_event) : Events :=
  { s with ring := s.ring.push INPUT_EVENT_QUEUE_SIZE ev }

/-- The call goes into its loop unless another one is there. -/
def virtio_input_poll (s : Events) : Events :=
  if s.input_poll_busy then s else { s with input_poll_busy := true, event_budget := 32 }

/-- The event that the next turn of the loop takes. -/
def taken (s : Events) : Option raw_input_event :=
  if s.input_poll_busy ∧ s.ring.head ≠ s.ring.tail ∧ 0 < s.event_budget then
    some (s.ring.slots s.ring.head)
  else none

/-- A turn takes an event, or it is the end of the call. -/
def turn (s : Events) : Events :=
  if s.input_poll_busy then
    if s.ring.head ≠ s.ring.tail ∧ 0 < s.event_budget then
      { s with
        ring := { s.ring with head := (s.ring.head + 1) % INPUT_EVENT_QUEUE_SIZE }
        event_budget := s.event_budget - 1 }
    else { s with input_poll_busy := false }
  else s

end Events

def events : Machine Events EventOp raw_input_event where
  step
    | s, .enqueue ev => s.enqueue_input_event ev
    | s, .poll => s.virtio_input_poll
    | s, .turn => s.turn
  input
    | .enqueue ev => some ev
    | _ => none
  output
    | s, .turn => s.taken
    | _, _ => none
  loss
    | s, .enqueue ev => Drop.loss INPUT_EVENT_QUEUE_SIZE s.ring (.push ev)
    | _, _ => .none
  items s := s.ring.items INPUT_EVENT_QUEUE_SIZE

/-! ## The keys -/

/-- `gui_key`, in front of the ring `gui_key_queue`. -/
structure Keys where
  gui_key : UInt8
  ring : Drop UInt8

/-- A reader of `gui_key` sets it to 0. -/
inductive KeyOp where
  | submit (key : UInt8)
  | pull_next
  | take

namespace Keys

def gui_key_submit (s : Keys) (key : UInt8) : Keys :=
  if key = 0 then s
  else if key = 3 then { gui_key := key, ring := { s.ring with head := s.ring.tail } }
  else if s.gui_key = 0 ∧ s.ring.head = s.ring.tail then { s with gui_key := key }
  else { s with ring := s.ring.push GUI_KEY_QUEUE_SIZE key }

def gui_key_pull_next (s : Keys) : Bool × Keys :=
  if s.gui_key ≠ 0 then (true, s)
  else if s.ring.head = s.ring.tail then (false, s)
  else
    let key := s.ring.slots s.ring.head
    (key != 0, ⟨key, { s.ring with head := (s.ring.head + 1) % GUI_KEY_QUEUE_SIZE }⟩)

/-- A key 3 discards all, and a full ring drops its first key, which is behind `gui_key`. -/
def loss (s : Keys) (key : UInt8) : Loss :=
  if key = 3 then .all
  else if s.gui_key = 0 ∧ s.ring.head = s.ring.tail then .none
  else if s.ring.Full GUI_KEY_QUEUE_SIZE then .place (if s.gui_key = 0 then 0 else 1)
  else .none

def items (s : Keys) : List UInt8 :=
  (if s.gui_key = 0 then [] else [s.gui_key]) ++ s.ring.items GUI_KEY_QUEUE_SIZE

end Keys

def keys : Machine Keys KeyOp UInt8 where
  step
    | s, .submit key => s.gui_key_submit key
    | s, .pull_next => s.gui_key_pull_next.2
    | s, .take => { s with gui_key := 0 }
  input
    | .submit key => if key = 0 then none else some key
    | _ => none
  output
    | s, .take => if s.gui_key = 0 then none else some s.gui_key
    | _, _ => none
  loss
    | s, .submit key => s.loss key
    | _, _ => .none
  items := Keys.items

/-! ## Plain rings -/

theorem holds_zeroed {α : Type} (zero : α) {size : Nat} (hsize : 0 < size) :
    Drop.Holds size (zeroed zero) [] :=
  ⟨hsize, hsize, (Nat.zero_mod size).symm, Ring.Window.nil _ _ _⟩

theorem uart_eq : uart = Drop.machine UInt8 UART_INPUT_QUEUE_SIZE := by
  have hstep : uart.step = Drop.step UART_INPUT_QUEUE_SIZE := by
    funext q o
    cases o with
    | push c => rfl
    | pop =>
      show (uart_input_pop q).2 = ((q.pop UART_INPUT_QUEUE_SIZE).map Prod.snd).getD q
      rw [uart_input_pop]
      cases q.pop UART_INPUT_QUEUE_SIZE <;> rfl
  have houtput : uart.output = Drop.popped UART_INPUT_QUEUE_SIZE := by
    funext q o
    cases o with
    | push c => rfl
    | pop =>
      show (if (uart_input_pop q).1 < 0 then none else some (uart_input_pop q).1.toNat.toUInt8) =
        (q.pop UART_INPUT_QUEUE_SIZE).map Prod.fst
      rw [uart_input_pop]
      cases q.pop UART_INPUT_QUEUE_SIZE with
      | none => rfl
      | some r =>
        have hpos : ¬ (r.1.toNat : Int) < 0 := by omega
        simp [hpos]
  rw [Drop.machine, ← hstep, ← houtput]
  rfl

theorem mailbox_eq : mailbox = Drop.machine UInt8 INPUT_MAILBOX_SIZE := by
  have hstep : mailbox.step = Drop.step INPUT_MAILBOX_SIZE := by
    funext q o
    cases o <;> rfl
  have houtput : mailbox.output = Drop.popped INPUT_MAILBOX_SIZE := by
    funext q o
    cases o <;> rfl
  rw [Drop.machine, ← hstep, ← houtput]
  rfl

/-! ## The events -/

namespace Events

/-- Whether the next turn takes an event. -/
def Takes (s : Events) : Prop :=
  s.input_poll_busy ∧ s.ring.head ≠ s.ring.tail ∧ 0 < s.event_budget

theorem turn_takes {s : Events} (h : s.Takes) : s.taken = some (s.ring.slots s.ring.head) ∧
    s.turn.ring = { s.ring with head := (s.ring.head + 1) % INPUT_EVENT_QUEUE_SIZE } := by
  refine ⟨if_pos h, ?_⟩
  rw [turn, if_pos h.1, if_pos h.2]

theorem turn_idle {s : Events} (h : ¬ s.Takes) : s.taken = none ∧ s.turn.ring = s.ring := by
  refine ⟨if_neg h, ?_⟩
  rw [turn]
  split
  · rw [if_neg fun h' => h ⟨‹_›, h'⟩]
  · rfl

theorem poll_ring (s : Events) : s.virtio_input_poll.ring = s.ring := by
  rw [virtio_input_poll]
  split <;> rfl

end Events

theorem event_pop {s : Events} {l : List raw_input_event}
    (h : s.ring.Holds INPUT_EVENT_QUEUE_SIZE l) :
    ∃ l', l = s.taken.toList ++ l' ∧ s.turn.ring.Holds INPUT_EVENT_QUEUE_SIZE l' := by
  by_cases htake : s.Takes
  · obtain ⟨htaken, hring⟩ := Events.turn_takes htake
    cases l with
    | nil => exact absurd (h.empty_iff.mpr rfl) htake.2.1
    | cons y l =>
      obtain ⟨hfirst, hrest⟩ := h.drop_oldest
      rw [htaken, hring, hfirst]
      exact ⟨l, rfl, hrest⟩
  · obtain ⟨htaken, hring⟩ := Events.turn_idle htake
    rw [htaken, hring]
    exact ⟨l, rfl, h⟩

theorem events_isQueue :
    events.IsQueue fun s => ∃ l, s.ring.Holds INPUT_EVENT_QUEUE_SIZE l where
  step := by
    rintro s ⟨l, h⟩ (ev | _ | _)
    · exact ⟨_, h.push (by decide) ev⟩
    · show ∃ l, s.virtio_input_poll.ring.Holds INPUT_EVENT_QUEUE_SIZE l
      rw [s.poll_ring]
      exact ⟨l, h⟩
    · obtain ⟨l', -, h'⟩ := event_pop h
      exact ⟨l', h'⟩
  push := by
    rintro s ⟨l, h⟩ (ev | _ | _) y hin <;> cases hin
    have hitems := (Ring.Drop.isQueue (by decide)).push (m := Drop.machine _ _) ⟨l, h⟩
      (o := .push ev) rfl
    exact ⟨rfl, hitems.2⟩
  pop := by
    rintro s ⟨l, h⟩ (ev | _ | _) hin
    · cases hin
    · show s.ring.items _ = [] ++ s.virtio_input_poll.ring.items _
      rw [s.poll_ring, List.nil_append]
    · obtain ⟨l', hl, h'⟩ := event_pop h
      show s.ring.items _ = s.taken.toList ++ s.turn.ring.items _
      rw [h.items, h'.items]
      exact hl

theorem events_loses_first (s : Events) (o : EventOp) :
    events.loss s o = .none ∨ events.loss s o = .place 0 := by
  cases o with
  | enqueue ev => exact Drop.loses_first _ s.ring (.push ev)
  | _ => exact .inl rfl

theorem events_serves {s : Events} {l : List raw_input_event}
    (h : s.ring.Holds INPUT_EVENT_QUEUE_SIZE l) (hbusy : s.input_poll_busy)
    (hbudget : 0 < s.event_budget) :
    events.output s .turn = (events.items s).head? := by
  show s.taken = (s.ring.items _).head?
  rw [h.items]
  cases l with
  | nil => exact if_neg fun htake => htake.2.1 (h.empty_iff.mpr rfl)
  | cons y l =>
    have htake : s.Takes :=
      ⟨hbusy, fun heq => List.cons_ne_nil _ _ (h.empty_iff.mp heq), hbudget⟩
    rw [(Events.turn_takes htake).1, h.drop_oldest.1, List.head?_cons]

/-- A call of `virtio_input_poll` that nothing comes in between: at most 32 turns that take an event,
and the one that ends the loop. -/
def whole_call : List EventOp := .poll :: List.replicate 33 .turn

theorem idle_turns {s : Events} (h : s.input_poll_busy = false) (n : Nat) :
    events.outputs s (List.replicate n .turn) = [] ∧ events.run s (List.replicate n .turn) = s := by
  have htaken : s.taken = none := if_neg fun htake => by simp [h] at htake
  have hturn : s.turn = s := if_neg (by simp [h])
  induction n with
  | zero => exact ⟨rfl, rfl⟩
  | succ n ih =>
    rw [List.replicate_succ]
    show s.taken.toList ++ events.outputs s.turn _ = [] ∧ events.run s.turn _ = s
    rw [htaken, hturn]
    exact ih

theorem turns_take {s : Events} {l : List raw_input_event}
    (h : s.ring.Holds INPUT_EVENT_QUEUE_SIZE l) (hbusy : s.input_poll_busy = true) {budget : Nat}
    (hbudget : s.event_budget = budget) :
    events.outputs s (List.replicate (budget + 1) .turn) = l.take budget ∧
      (events.run s (List.replicate (budget + 1) .turn)).ring.Holds INPUT_EVENT_QUEUE_SIZE
        (l.drop budget) ∧
      (events.run s (List.replicate (budget + 1) .turn)).input_poll_busy = false := by
  induction budget generalizing s l with
  | zero =>
    have hidle : ¬ s.Takes := fun htake => absurd htake.2.2 (by omega)
    obtain ⟨htaken, hring⟩ := Events.turn_idle hidle
    have hend : s.turn.input_poll_busy = false := by
      rw [Events.turn, if_pos hbusy, if_neg fun h' => hidle ⟨hbusy, h'⟩]
    show s.taken.toList ++ [] = [] ∧ s.turn.ring.Holds _ l ∧ _
    rw [htaken, hring]
    exact ⟨rfl, h, hend⟩
  | succ budget ih =>
    rw [List.replicate_succ]
    show s.taken.toList ++ events.outputs s.turn _ = _ ∧ (events.run s.turn _).ring.Holds _ _ ∧
      (events.run s.turn _).input_poll_busy = false
    cases l with
    | nil =>
      -- the ring is empty: the loop ends here
      have hidle : ¬ s.Takes := fun htake => htake.2.1 (h.empty_iff.mpr rfl)
      obtain ⟨htaken, hring⟩ := Events.turn_idle hidle
      have hend : s.turn.input_poll_busy = false := by
        rw [Events.turn, if_pos hbusy, if_neg fun h' => hidle ⟨hbusy, h'⟩]
      obtain ⟨hout, hrun⟩ := idle_turns hend (budget + 1)
      rw [htaken, hout, hrun, hring]
      exact ⟨rfl, h, hend⟩
    | cons y l =>
      have htake : s.Takes :=
        ⟨hbusy, fun heq => List.cons_ne_nil _ _ (h.empty_iff.mp heq), by omega⟩
      obtain ⟨htaken, hring⟩ := Events.turn_takes htake
      obtain ⟨hfirst, hrest⟩ := h.drop_oldest
      have hnext : s.turn.input_poll_busy = true ∧ s.turn.event_budget = budget := by
        rw [Events.turn, if_pos hbusy, if_pos htake.2]
        exact ⟨hbusy, by dsimp only; omega⟩
      rw [← hring] at hrest
      obtain ⟨hout, hleft⟩ := ih hrest hnext.1 hnext.2
      rw [htaken, hout, hfirst]
      exact ⟨rfl, hleft⟩

theorem call_takes {s : Events} {l : List raw_input_event}
    (h : s.ring.Holds INPUT_EVENT_QUEUE_SIZE l) (hidle : s.input_poll_busy = false) :
    events.outputs s whole_call = l.take 32 ∧
      (events.run s whole_call).ring.Holds INPUT_EVENT_QUEUE_SIZE (l.drop 32) ∧
      (events.run s whole_call).input_poll_busy = false := by
  have hpoll : s.virtio_input_poll = { s with input_poll_busy := true, event_budget := 32 } :=
    if_neg (by simp [hidle])
  show events.outputs s.virtio_input_poll _ = _ ∧ (events.run s.virtio_input_poll _).ring.Holds _ _ ∧
    (events.run s.virtio_input_poll _).input_poll_busy = false
  rw [hpoll]
  exact @turns_take { s with input_poll_busy := true, event_budget := 32 } l h rfl 32 rfl

/-! ## The keys -/

def register (key : UInt8) : List UInt8 := if key = 0 then [] else [key]

structure Keys.Holds (s : Keys) (l : List UInt8) : Prop where
  ring : s.ring.Holds GUI_KEY_QUEUE_SIZE l
  nonzero : 0 ∉ l

theorem Keys.Holds.items {s : Keys} {l : List UInt8} (h : s.Holds l) :
    s.items = register s.gui_key ++ l := by
  rw [Keys.items, h.ring.items]
  rfl

theorem register_from (key : UInt8) (l : List UInt8) :
    (Loss.place (if key = 0 then 0 else 1)).from (register key ++ l) =
      register key ++ (Loss.place 0).from l := by
  unfold register
  split <;> rfl

theorem Keys.Holds.submit {s : Keys} {l : List UInt8} (h : s.Holds l) {key : UInt8}
    (hkey : key ≠ 0) :
    ∃ l', (s.gui_key_submit key).Holds l' ∧
      register (s.gui_key_submit key).gui_key ++ l' =
        (s.loss key).from (register s.gui_key ++ l) ++ [key] := by
  have hring := h.ring
  unfold gui_key_submit Keys.loss
  rw [if_neg hkey]
  by_cases h3 : key = 3
  · rw [if_pos h3, if_pos h3]
    subst h3
    exact ⟨[], ⟨hring.clear, List.not_mem_nil⟩, rfl⟩
  rw [if_neg h3, if_neg h3]
  by_cases hfirst : s.gui_key = 0 ∧ s.ring.head = s.ring.tail
  · rw [if_pos hfirst, if_pos hfirst]
    obtain rfl := hring.empty_iff.mp hfirst.2
    refine ⟨[], ⟨hring, List.not_mem_nil⟩, ?_⟩
    simp [register, hfirst.1, hkey, Loss.from]
  rw [if_neg hfirst, if_neg hfirst]
  refine ⟨_, ⟨hring.push (by decide) key, ?_⟩, ?_⟩
  · rw [List.mem_append, List.mem_singleton, not_or]
    exact ⟨fun hmem => h.nonzero ((Loss.from_sublist _ l).subset hmem), Ne.symm hkey⟩
  · show register s.gui_key ++ _ = _
    rw [Drop.loss, ← List.append_assoc]
    congr 1
    split <;> rename_i hfull
    · rw [register_from]
    · rfl

theorem Keys.Holds.pull_next {s : Keys} {l : List UInt8} (h : s.Holds l) :
    ∃ l', s.gui_key_pull_next.2.Holds l' ∧
      register s.gui_key_pull_next.2.gui_key ++ l' = register s.gui_key ++ l ∧
      register s.gui_key_pull_next.2.gui_key = (register s.gui_key ++ l).take 1 := by
  unfold gui_key_pull_next
  by_cases hkey : s.gui_key = 0
  · rw [if_neg (not_not.mpr hkey)]
    cases l with
    | nil =>
      rw [if_pos (h.ring.empty_iff.mpr rfl)]
      exact ⟨[], h, rfl, by simp [register, hkey]⟩
    | cons y l =>
      have hne : s.ring.head ≠ s.ring.tail :=
        fun heq => List.cons_ne_nil _ _ (h.ring.empty_iff.mp heq)
      obtain ⟨hfirst, hrest⟩ := h.ring.drop_oldest
      obtain ⟨hy, hl⟩ := not_or.mp (mt List.mem_cons.mpr h.nonzero)
      rw [if_neg hne]
      refine ⟨l, ⟨hrest, hl⟩, ?_⟩
      simp [register, hfirst, hkey, Ne.symm hy]
  · rw [if_pos hkey]
    exact ⟨l, h, rfl, by simp [register, hkey]⟩

theorem keys_isQueue : keys.IsQueue fun s => ∃ l, s.Holds l where
  step := by
    rintro s ⟨l, h⟩ (key | _ | _)
    · show ∃ l, (s.gui_key_submit key).Holds l
      by_cases hkey : key = 0
      · rw [Keys.gui_key_submit, if_pos hkey]
        exact ⟨l, h⟩
      · obtain ⟨l', h', -⟩ := h.submit hkey
        exact ⟨l', h'⟩
    · obtain ⟨l', h', -⟩ := h.pull_next
      exact ⟨l', h'⟩
    · exact ⟨l, h.ring, h.nonzero⟩
  push := by
    rintro s ⟨l, h⟩ (key | _ | _) x hin
    · have hkey : key ≠ 0 := fun h0 => by
        rw [show keys.input (.submit key) = none from if_pos h0] at hin
        cases hin
      rw [show keys.input (.submit key) = some key from if_neg hkey] at hin
      cases hin
      obtain ⟨l', h', hitems⟩ := h.submit hkey
      refine ⟨rfl, ?_⟩
      show (s.gui_key_submit key).items = (s.loss key).from s.items ++ [key]
      rw [h.items, h'.items, hitems]
    · cases hin
    · cases hin
  pop := by
    rintro s ⟨l, h⟩ (key | _ | _) hin
    · have hkey : key = 0 := by
        by_contra hne
        rw [show keys.input (.submit key) = some key from if_neg hne] at hin
        cases hin
      show s.items = [] ++ (s.gui_key_submit key).items
      rw [Keys.gui_key_submit, if_pos hkey, List.nil_append]
    · obtain ⟨l', h', hsame, -⟩ := h.pull_next
      show s.items = [] ++ s.gui_key_pull_next.2.items
      rw [h.items, h'.items, hsame, List.nil_append]
    · show s.items = (if s.gui_key = 0 then none else some s.gui_key).toList ++
        s.ring.items GUI_KEY_QUEUE_SIZE
      rw [Keys.items]
      split <;> rfl

theorem submit_ctrl_c {s : Keys} {l : List UInt8} (h : s.Holds l) :
    (s.gui_key_submit 3).items = [3] := by
  obtain ⟨l', h', hitems⟩ := h.submit (show (3 : UInt8) ≠ 0 by decide)
  rw [h'.items, hitems]
  rfl

theorem keys_serves {s : Keys} {l : List UInt8} (h : s.Holds l) :
    keys.output s.gui_key_pull_next.2 .take = (keys.items s).head? := by
  obtain ⟨l', -, -, hfirst⟩ := h.pull_next
  show (if s.gui_key_pull_next.2.gui_key = 0 then none else some s.gui_key_pull_next.2.gui_key) =
    s.items.head?
  have hhead : (register s.gui_key ++ l).head? = ((register s.gui_key ++ l).take 1).head? := by
    rw [List.head?_take, if_neg Nat.one_ne_zero]
  rw [h.items, hhead, ← hfirst]
  unfold register
  split <;> rfl

/-! ## The rings as lists -/

theorem holds_push_list {α : Type} {size : Nat} {q : Drop α} {l : List α} (h : q.Holds size l)
    (hsize : 2 ≤ size) (x : α) :
    (q.push size x).Holds size (if l.length + 1 = size then l.tail ++ [x] else l ++ [x]) := by
  have hpush := h.push hsize x
  rw [Drop.loss] at hpush
  by_cases hfull : l.length + 1 = size
  · rw [if_pos (h.full_iff.mpr hfull)] at hpush
    rw [if_pos hfull, ← List.eraseIdx_zero]
    exact hpush
  · rw [if_neg (mt h.full_iff.mp hfull)] at hpush
    rw [if_neg hfull]
    exact hpush

theorem enqueue_refines {e : Events} {s : Input} (h : e.ring.Holds INPUT_EVENT_QUEUE_SIZE
    s.input_events) (ev : raw_input_event) :
    (e.enqueue_input_event ev).ring.Holds INPUT_EVENT_QUEUE_SIZE
      (enqueue_input_event s ev).input_events := by
  have hpush := holds_push_list h (by decide) ev
  unfold enqueue_input_event
  split <;> rename_i hfull
  · rwa [if_pos hfull] at hpush
  · rwa [if_neg hfull] at hpush

theorem submit_refines {k : Keys} {s : Input} (h : k.ring.Holds GUI_KEY_QUEUE_SIZE s.gui_key_queue)
    (hkey : k.gui_key = s.gui_key) (key : UInt8) :
    (k.gui_key_submit key).ring.Holds GUI_KEY_QUEUE_SIZE (gui_key_submit s key).gui_key_queue ∧
      (k.gui_key_submit key).gui_key = (gui_key_submit s key).gui_key := by
  have hfirst : (k.gui_key = 0 ∧ k.ring.head = k.ring.tail) ↔
      (s.gui_key = 0 ∧ s.gui_key_queue = []) := by
    rw [hkey, h.empty_iff]
  have hpush := holds_push_list h (by decide) key
  unfold Keys.gui_key_submit gui_key_submit
  simp only [hfirst]
  split_ifs with h0 h3 hfree hfull
  · exact ⟨h, hkey⟩
  · exact ⟨h.clear, rfl⟩
  · exact ⟨h, rfl⟩
  · rw [if_pos hfull] at hpush
    exact ⟨hpush, hkey⟩
  · rw [if_neg hfull] at hpush
    exact ⟨hpush, hkey⟩

/-! ## The four queues -/

def idleEvents : Events := ⟨zeroed ⟨0, 0, 0, 0⟩, false, 0⟩
def idleKeys : Keys := ⟨0, zeroed 0⟩

/-- Along any run of pushes and pops each ring brings its items in the order of the pushes, none
twice, and an item is missing only when a push behind it found the ring full and dropped it as the
oldest. The keys come in the order in which they were submitted; a Ctrl-C discards those before
it. Where something waits, the next pop brings it, and a call of `virtio_input_poll` brings the 32
oldest events. -/
theorem input_queues_fifo (bytes typed : List (Drop.Op UInt8)) (raw : List EventOp)
    (pressed : List KeyOp) :
    (uart.LosesOldest (zeroed 0) bytes ∧ uart.Serves (zeroed 0) bytes .pop) ∧
    (mailbox.LosesOldest (zeroed 0) typed ∧ mailbox.Serves (zeroed 0) typed .pop) ∧
    (events.LosesOldest idleEvents raw ∧
      ((events.run idleEvents raw).input_poll_busy → 0 < (events.run idleEvents raw).event_budget →
        events.Serves idleEvents raw .turn) ∧
      ((events.run idleEvents raw).input_poll_busy = false →
        (events.run idleEvents (raw ++ [.poll])).input_poll_busy = true ∧
        (events.run idleEvents (raw ++ [.poll])).event_budget = 32 ∧
        events.outputs (events.run idleEvents raw) whole_call =
          (events.items (events.run idleEvents raw)).take 32 ∧
        events.items (events.run idleEvents (raw ++ whole_call)) =
          (events.items (events.run idleEvents raw)).drop 32 ∧
        (events.run idleEvents (raw ++ whole_call)).input_poll_busy = false)) ∧
    keys.Fifo idleKeys pressed ∧
    keys.items (keys.run idleKeys (pressed ++ [.submit 3])) = [3] ∧
    keys.output (keys.run idleKeys (pressed ++ [.pull_next])) .take =
      (keys.items (keys.run idleKeys pressed)).head? := by
  have hbyte (size : Nat) (hsize : 2 ≤ size) : Drop.Holds size (zeroed (0 : UInt8)) [] :=
    holds_zeroed 0 (by omega)
  have hevents : idleEvents.ring.Holds INPUT_EVENT_QUEUE_SIZE [] := holds_zeroed _ (by decide)
  have hkeys : idleKeys.Holds [] := ⟨holds_zeroed _ (by decide), List.not_mem_nil⟩
  obtain ⟨⟨l, hraw⟩, -⟩ := events_isQueue.ledger ⟨[], hevents⟩ hevents.items raw
  obtain ⟨⟨l', hpressed⟩, -⟩ := keys_isQueue.ledger ⟨[], hkeys⟩ hkeys.items pressed
  refine ⟨?_, ?_, ⟨?_, ?_, fun hidle => ?_⟩, ?_, ?_, ?_⟩
  · rw [uart_eq]
    exact ⟨(hbyte _ (by decide)).losesOldest (by decide) bytes,
      (hbyte _ (by decide)).serves (by decide) bytes⟩
  · rw [mailbox_eq]
    exact ⟨(hbyte _ (by decide)).losesOldest (by decide) typed,
      (hbyte _ (by decide)).serves (by decide) typed⟩
  · exact events_isQueue.losesOldest ⟨[], hevents⟩ hevents.items events_loses_first raw
  · exact events_serves hraw
  · have hpoll : (events.run idleEvents raw).virtio_input_poll =
        { events.run idleEvents raw with input_poll_busy := true, event_budget := 32 } :=
      if_neg (by simp [hidle])
    obtain ⟨hout, hleft, hend⟩ := call_takes hraw hidle
    have hrun : events.run idleEvents (raw ++ whole_call) =
        events.run (events.run idleEvents raw) whole_call := List.foldl_append ..
    have hstart : events.run idleEvents (raw ++ [.poll]) =
        (events.run idleEvents raw).virtio_input_poll := events.run_concat ..
    rw [hstart, hpoll, hrun, hout, show events.items (events.run idleEvents raw) = l from hraw.items]
    exact ⟨rfl, rfl, rfl, hleft.items, hend⟩
  · exact keys_isQueue.fifo ⟨[], hkeys⟩ hkeys.items pressed
  · rw [Machine.run_concat]
    exact submit_ctrl_c hpressed
  · rw [Machine.run_concat]
    exact keys_serves hpressed

/-! ## A call of the driver -/

section

variable [InputConfig]

/-- Where the ring holds the events of the driver, a call takes the 32 oldest of them out of the ring
in the order in which they were queued, handles them in this order, and leaves the others there. -/
theorem poll_ring_eq_run {raw : List EventOp} {s : Input}
    (hidle : (events.run idleEvents raw).input_poll_busy = false)
    (hs : s.input_poll_busy = false)
    (hsame : s.input_events = events.items (events.run idleEvents raw)) :
    events.LosesOldest idleEvents (raw ++ whole_call) ∧
      events.outputs (events.run idleEvents raw) whole_call =
        (events.items (events.run idleEvents raw)).take 32 ∧
      events.items (events.run idleEvents (raw ++ whole_call)) =
        (events.items (events.run idleEvents raw)).drop 32 ∧
      (virtio_input_poll s).latches =
        (run s (events.outputs (events.run idleEvents raw) whole_call)).latches ∧
      (virtio_input_poll s).pending =
        (run s (events.outputs (events.run idleEvents raw) whole_call)).pending ∧
      (virtio_input_poll s).input_events =
        events.items (events.run idleEvents (raw ++ whole_call)) ∧
      (virtio_input_poll s).input_poll_busy =
        (events.run idleEvents (raw ++ whole_call)).input_poll_busy := by
  have hempty : idleEvents.ring.Holds INPUT_EVENT_QUEUE_SIZE [] := holds_zeroed _ (by decide)
  obtain ⟨⟨l, hraw⟩, -⟩ := events_isQueue.ledger ⟨[], hempty⟩ hempty.items raw
  obtain ⟨hout, hleft, hend⟩ := call_takes hraw hidle
  have hrun : events.run idleEvents (raw ++ whole_call) =
      events.run (events.run idleEvents raw) whole_call := List.foldl_append ..
  refine ⟨events_isQueue.losesOldest ⟨[], hempty⟩ hempty.items events_loses_first _, ?_, ?_, ?_⟩
  · rw [hout, show events.items _ = l from hraw.items]
  · rw [hrun, show events.items _ = l.drop 32 from hleft.items, show events.items _ = l from hraw.items]
  have hl : s.input_events = l := hsame.trans hraw.items
  rw [hrun, hout, hend, show events.items _ = l.drop 32 from hleft.items, ← hl]
  unfold virtio_input_poll
  rw [if_neg (by simp [hs])]
  dsimp only
  -- the tick of the keypad moves the pointer only
  have hpoll (t : Input) (hlatches : t.latches = s.latches) (hpending : t.pending = s.pending)
      (hevents : t.input_events = s.input_events) :
      (poll_events 32 t).latches = (run s (s.input_events.take 32)).latches ∧
        (poll_events 32 t).pending = (run s (s.input_events.take 32)).pending ∧
        (poll_events 32 t).input_events = s.input_events.drop 32 := by
    obtain ⟨hl, hp, hrest⟩ := poll_events_eq_run 32 t
    obtain ⟨hl', hp'⟩ := run_congr hlatches hpending (s.input_events.take 32)
    rw [hl, hp, hrest, hevents]
    exact ⟨hl', hp', rfl⟩
  split
  · obtain ⟨h1, h2, h3⟩ := hpoll { s with
      input_poll_busy := true, pointer := fpga_keyboard_mouse_tick s.pointer } rfl rfl rfl
    exact ⟨h1, h2, h3, rfl⟩
  · obtain ⟨h1, h2, h3⟩ := hpoll { s with input_poll_busy := true } rfl rfl rfl
    exact ⟨h1, h2, h3, rfl⟩

end

/-- An `a` that waits in the ring is typed by the next call, and the ring is empty then. -/
theorem poll_ring_types_a :
    (@virtio_input_poll emulator { Input.fresh with input_events := [keyEvent 0x1E 1] }).pending =
        (@run emulator { Input.fresh with input_events := [keyEvent 0x1E 1] }
          [keyEvent 0x1E 1]).pending ∧
      (@virtio_input_poll emulator
        { Input.fresh with input_events := [keyEvent 0x1E 1] }).input_events = [] := by
  have h := @poll_ring_eq_run emulator [.enqueue (keyEvent 0x1E 1)]
    { Input.fresh with input_events := [keyEvent 0x1E 1] } rfl rfl (by decide +kernel)
  exact ⟨h.2.2.2.2.1, h.2.2.2.2.2.1⟩

end vibeos.input

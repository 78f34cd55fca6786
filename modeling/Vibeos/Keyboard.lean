-- virtio_input_poll of virtio_input.c: the queue of raw input events, the state of the modifier
-- keys, and the key that each event submits.
import Mathlib.Data.List.Basic
import Mathlib.Algebra.Group.Int.Defs
import Mathlib.Algebra.Group.Nat.Defs

namespace vibeos.input

/-! ## The state -/

structure raw_input_event where
  device : Nat
  type : Nat
  code : Nat
  value : Nat
deriving DecidableEq

inductive Button where
  | a
  | b
  | start
  | select
  | up
  | down
  | left
  | right
deriving DecidableEq

/-- The mouse, and the keypad that stands in for it on the board. -/
structure Pointer where
  gui_mx : Int
  gui_my : Int
  gui_clicked : Bool
  gui_click_pending : Bool
  gui_right_clicked : Bool
  gui_right_click_pending : Bool
  gui_wheel : Int
  dir_x : Int
  dir_y : Int
  fast : Bool
  div : Nat

/-- The globals of the file and the statics of `virtio_input_poll`. The rings `input_events` and
`gui_key_queue` are the lists of what is between their heads and tails. -/
structure Input where
  caps_lock : Bool
  shift_pressed : Bool
  ctrl_l_pressed : Bool
  ctrl_r_pressed : Bool
  gui_ctrl_pressed : Bool
  gui_key : UInt8
  gui_key_queue : List UInt8
  gui_shortcut_switch_task : Bool
  gui_shortcut_new_task : Bool
  gui_shortcut_close_task : Bool
  gui_prev_regs_pressed : Bool
  gui_redraw_needed : Bool
  gbemu_btn : Button → Bool
  pointer : Pointer
  input_events : List raw_input_event
  input_poll_busy : Bool

class InputConfig where
  FPGA_MINIMAL : Bool

section

variable [InputConfig]

open InputConfig (FPGA_MINIMAL)

def WIDTH : Nat := if FPGA_MINIMAL then 512 else 1024
def HEIGHT : Nat := if FPGA_MINIMAL then 384 else 768
def INPUT_VISIBLE_HEIGHT : Int := 300
def INPUT_EVENT_QUEUE_SIZE : Nat := 512
def GUI_KEY_QUEUE_SIZE : Nat := 64

/-! ## The keys -/

def kmap (code : Nat) : UInt8 :=
  match code with
  | 1 => 27 | 2 => 49 | 3 => 50 | 4 => 51 | 5 => 52 | 6 => 53 | 7 => 54 | 8 => 55
  | 9 => 56 | 10 => 57 | 11 => 48 | 0x0C => 45 | 0x0D => 61 | 0x0E => 8 | 0x0F => 9
  | 0x10 => 113 | 0x11 => 119 | 0x12 => 101 | 0x13 => 114 | 0x14 => 116 | 0x15 => 121
  | 0x16 => 117 | 0x17 => 105 | 0x18 => 111 | 0x19 => 112 | 0x1A => 91 | 0x1B => 93
  | 0x1C => 10 | 0x1E => 97 | 0x1F => 115 | 0x20 => 100 | 0x21 => 102 | 0x22 => 103
  | 0x23 => 104 | 0x24 => 106 | 0x25 => 107 | 0x26 => 108 | 0x27 => 59 | 0x28 => 39
  | 0x29 => 96 | 0x2B => 92 | 0x2C => 122 | 0x2D => 120 | 0x2E => 99 | 0x2F => 118
  | 0x30 => 98 | 0x31 => 110 | 0x32 => 109 | 0x33 => 44 | 0x34 => 46 | 0x35 => 47
  | 0x39 => 32 | 0x47 => 55 | 0x48 => 56 | 0x49 => 57 | 0x4A => 45 | 0x4B => 52
  | 0x4C => 53 | 0x4D => 54 | 0x4E => 43 | 0x4F => 49 | 0x50 => 50 | 0x51 => 51
  | 0x52 => 48 | 0x53 => 46 | 0x60 => 10 | 0x62 => 47
  | _ => 0

def smap (code : Nat) : UInt8 :=
  match code with
  | 2 => 33 | 3 => 64 | 4 => 35 | 5 => 36 | 6 => 37 | 7 => 94 | 8 => 38 | 9 => 42
  | 10 => 40 | 11 => 41 | 0x0C => 95 | 0x0D => 43 | 0x1A => 123 | 0x1B => 125
  | 0x27 => 58 | 0x28 => 34 | 0x29 => 126 | 0x2B => 124 | 0x33 => 60 | 0x34 => 62
  | 0x35 => 63
  | _ => 0

/-- `gui_key_submit`. The ring holds one key less than it has places, and drops the oldest. -/
def gui_key_submit (s : Input) (key : UInt8) : Input :=
  if key = 0 then s
  else if key = 3 then { s with gui_key := key, gui_key_queue := [] }
  else if s.gui_key = 0 ∧ s.gui_key_queue = [] then { s with gui_key := key }
  else if s.gui_key_queue.length + 1 = GUI_KEY_QUEUE_SIZE then
    { s with gui_key_queue := s.gui_key_queue.tail ++ [key] }
  else { s with gui_key_queue := s.gui_key_queue ++ [key] }

/-- What a key does when it goes down or repeats. -/
inductive KeyAction where
  | switchTask
  | newTask
  | closeTask
  | toggleCaps
  | submit (key : UInt8)
  | nothing
deriving DecidableEq

/-- The chain of cases for a key that is down, by the state of the modifiers. -/
def key_action (ctrl shift caps : Bool) (code : Nat) : KeyAction :=
  if ctrl && code == 15 then .switchTask
  else if ctrl && code == 20 then .newTask
  else if ctrl && code == 16 then .closeTask
  else if ctrl && code == 46 then .submit 3
  else if code == 0x3A then .toggleCaps
  else if code == 103 then .submit 0x10
  else if code == 108 then .submit 0x11
  else if code == 105 then .submit 0x12
  else if code == 106 then .submit 0x13
  else if code == 111 then .submit 0x14
  else if code == 102 then .submit 0x15
  else if code == 107 then .submit 0x16
  else if code == 104 then .submit 0x17
  else if code == 109 then .submit 0x18
  else if code == 110 then .submit 0x19
  else if code < 128 then
    let k := kmap code
    if shift && smap code != 0 then .submit (smap code)
    else if (97 ≤ k && k ≤ 122) && (caps ^^ shift) then .submit (k - 97 + 65)
    else .submit k
  else .nothing

def perform (s : Input) : KeyAction → Input
  | .switchTask => { s with gui_shortcut_switch_task := true }
  | .newTask => { s with gui_shortcut_new_task := true }
  | .closeTask => { s with gui_shortcut_close_task := true }
  | .toggleCaps => { s with caps_lock := !s.caps_lock }
  | .submit key => gui_key_submit s key
  | .nothing => s

/-- The button of the game that a key stands for. -/
def button_of (code : Nat) : Option Button :=
  match code with
  | 0x2C => some .a
  | 0x2D => some .b
  | 0x1C | 0x60 => some .start
  | 0x0F => some .select
  | 103 => some .up
  | 108 => some .down
  | 105 => some .left
  | 106 => some .right
  | _ => none

def set_button (s : Input) (code : Nat) (pressed : Bool) : Input :=
  match button_of code with
  | some button =>
    { s with gbemu_btn := fun other => if other = button then pressed else s.gbemu_btn other }
  | none => s

/-! ## The keypad of the board -/

def fpga_keyboard_mouse_set_axis (p : Pointer) (code : Nat) (down : Bool) : Pointer :=
  let x : Int :=
    match code with
    | 75 | 71 | 79 => -1
    | 77 | 73 | 81 => 1
    | _ => 0
  let y : Int :=
    match code with
    | 72 | 71 | 73 => -1
    | 80 | 79 | 81 => 1
    | _ => 0
  let turn (axis dir : Int) : Int :=
    if axis < 0 then if down then -1 else if dir < 0 then 0 else dir
    else if axis > 0 then if down then 1 else if dir > 0 then 0 else dir
    else dir
  { p with dir_x := turn x p.dir_x, dir_y := turn y p.dir_y }

/-- Whether the key is taken as one of the mouse, and what it does. -/
def fpga_keyboard_mouse_handle_key (s : Input) (code : Nat) (down : Bool) : Bool × Input :=
  match code with
  | 42 | 54 => (false, { s with pointer := { s.pointer with fast := down } })
  | 71 | 72 | 73 | 75 | 77 | 79 | 80 | 81 =>
    (true, { s with pointer := fpga_keyboard_mouse_set_axis s.pointer code down })
  | 76 | 96 =>
    (true, { s with
      gui_redraw_needed := true
      pointer := { s.pointer with
        gui_clicked := down, gui_click_pending := s.pointer.gui_click_pending || down } })
  | 78 | 83 =>
    (true, { s with
      gui_redraw_needed := true
      pointer := { s.pointer with
        gui_right_clicked := down
        gui_right_click_pending := s.pointer.gui_right_click_pending || down } })
  | 55 =>
    (true, if down then
      { s with gui_redraw_needed := true, pointer := { s.pointer with gui_wheel := -1 } } else s)
  | 74 =>
    (true, if down then
      { s with gui_redraw_needed := true, pointer := { s.pointer with gui_wheel := 1 } } else s)
  | _ => (false, s)

def fpga_keyboard_mouse_tick (p : Pointer) : Pointer :=
  if p.dir_x = 0 ∧ p.dir_y = 0 then { p with div := 0 }
  else if p.div + 1 < 2 then { p with div := p.div + 1 }
  else
    let step : Int := if p.fast then 12 else 6
    let mx := max (p.gui_mx + p.dir_x * step) 0
    let my := max (p.gui_my + p.dir_y * step) 0
    { p with
      div := 0
      gui_mx := min mx (WIDTH - 1)
      gui_my := min my (INPUT_VISIBLE_HEIGHT - 1) }

/-! ## The events -/

/-- The branches for the shift and control keys. -/
def handle_modifier (s : Input) (ev : raw_input_event) : Input :=
  if ev.code = 0x2A ∨ ev.code = 0x36 then { s with shift_pressed := ev.value == 1 }
  else if ev.code = 29 then
    { s with
      ctrl_l_pressed := ev.value == 1
      gui_ctrl_pressed := ev.value == 1 || s.ctrl_r_pressed }
  else if ev.code = 97 then
    { s with
      ctrl_r_pressed := ev.value == 1
      gui_ctrl_pressed := s.ctrl_l_pressed || ev.value == 1 }
  else s

/-- The branches for a key that goes down or repeats, and for one that goes up. -/
def handle_key (s : Input) (ev : raw_input_event) : Input :=
  if ev.value = 1 ∨ ev.value = 2 then
    let s :=
      if ev.code = 25 then { s with gui_prev_regs_pressed := true, gui_redraw_needed := true }
      else s
    let action :=
      key_action (s.ctrl_l_pressed || s.ctrl_r_pressed) s.shift_pressed s.caps_lock ev.code
    set_button (perform s action) ev.code true
  else if ev.value = 0 then
    let s :=
      if ev.code = 25 then { s with gui_prev_regs_pressed := false, gui_redraw_needed := true }
      else s
    set_button s ev.code false
  else s

def handle_mouse (p : Pointer) (ev : raw_input_event) : Pointer :=
  if ev.type = 3 then
    let p :=
      if ev.code = 0 then { p with gui_mx := ev.value * WIDTH % 2 ^ 32 / 32768 } else p
    if ev.code = 1 then { p with gui_my := ev.value * HEIGHT % 2 ^ 32 / 32768 } else p
  else if ev.type = 2 ∧ ev.code = 8 then { p with gui_wheel := (ev.value : Int).bmod (2 ^ 32) }
  else if ev.type = 1 ∧ ev.code = 0x110 then
    { p with
      gui_clicked := ev.value == 1, gui_click_pending := p.gui_click_pending || ev.value == 1 }
  else if ev.type = 1 ∧ ev.code = 0x111 then
    { p with
      gui_right_clicked := ev.value == 1
      gui_right_click_pending := p.gui_right_click_pending || ev.value == 1 }
  else p

def handle_event (s : Input) (ev : raw_input_event) : Input :=
  if ev.device = 0 then
    if ev.type ≠ 1 then s
    else
      let s := handle_modifier s ev
      if FPGA_MINIMAL then
        let (taken, s) := fpga_keyboard_mouse_handle_key s ev.code (ev.value != 0)
        if taken then s else handle_key s ev
      else handle_key s ev
  else if ev.device = 1 then { s with pointer := handle_mouse s.pointer ev }
  else s

/-- `enqueue_input_event`. A full ring drops its oldest event. -/
def enqueue_input_event (s : Input) (ev : raw_input_event) : Input :=
  if s.input_events.length + 1 = INPUT_EVENT_QUEUE_SIZE then
    { s with input_events := s.input_events.tail ++ [ev] }
  else { s with input_events := s.input_events ++ [ev] }

/-- The loop of `virtio_input_poll`, with the budget that is left. -/
def poll_events : Nat → Input → Input
  | 0, s => s
  | budget + 1, s =>
    match s.input_events with
    | [] => s
    | ev :: rest => poll_events budget (handle_event { s with input_events := rest } ev)

def virtio_input_poll (s : Input) : Input :=
  if s.input_poll_busy then s
  else
    let s := { s with input_poll_busy := true }
    let s := if FPGA_MINIMAL then
      { s with pointer := fpga_keyboard_mouse_tick s.pointer } else s
    { poll_events 32 s with input_poll_busy := false }

end

end vibeos.input

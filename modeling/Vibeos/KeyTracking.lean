-- What virtio_input_poll makes of a history of keyboard events: the modifier keys it takes for
-- held, against those that are.
import Vibeos.Keyboard
import Mathlib.Data.List.Induction

namespace vibeos.input

/-! ## The history of events -/

def IsKey (ev : raw_input_event) : Prop := ev.device = 0 ∧ ev.type = 1

instance (ev : raw_input_event) : Decidable (IsKey ev) := inferInstanceAs (Decidable (_ ∧ _))

/-- The key is down after the events: its last one is a press or a repeat. -/
def keyDown (code : Nat) (h : List raw_input_event) : Bool :=
  h.foldl (fun d ev => if IsKey ev ∧ ev.code = code then ev.value != 0 else d) false

def shiftDown (h : List raw_input_event) : Bool := keyDown 0x2A h || keyDown 0x36 h

def ctrlDown (h : List raw_input_event) : Bool := keyDown 29 h || keyDown 97 h

/-- Caps lock is on after the events: it has been pressed an odd number of times. -/
def capsOn (h : List raw_input_event) : Bool :=
  h.foldl (fun c ev => if IsKey ev ∧ ev.code = 0x3A ∧ ev.value = 1 then !c else c) false

theorem keyDown_snoc (code : Nat) (h : List raw_input_event) (ev : raw_input_event) :
    keyDown code (h ++ [ev]) =
      if IsKey ev ∧ ev.code = code then ev.value != 0 else keyDown code h := by
  simp [keyDown, List.foldl_append]

theorem capsOn_snoc (h : List raw_input_event) (ev : raw_input_event) :
    capsOn (h ++ [ev]) =
      if IsKey ev ∧ ev.code = 0x3A ∧ ev.value = 1 then !capsOn h else capsOn h := by
  simp [capsOn, List.foldl_append]

/-! ## What an event changes -/

/-- The state of the modifier keys and of caps lock. -/
structure Latches where
  caps_lock : Bool
  shift_pressed : Bool
  ctrl_l_pressed : Bool
  ctrl_r_pressed : Bool
deriving DecidableEq

def Input.latches (s : Input) : Latches :=
  ⟨s.caps_lock, s.shift_pressed, s.ctrl_l_pressed, s.ctrl_r_pressed⟩

theorem latches_submit (s : Input) (key : UInt8) : (gui_key_submit s key).latches = s.latches := by
  unfold gui_key_submit
  split_ifs <;> rfl

theorem latches_button (s : Input) (code : Nat) (pressed : Bool) :
    (set_button s code pressed).latches = s.latches := by
  unfold set_button
  split <;> rfl

theorem latches_perform (s : Input) (action : KeyAction) :
    (perform s action).latches =
      { s.latches with
        caps_lock := if action = .toggleCaps then !s.caps_lock else s.caps_lock } := by
  cases action with
  | submit key => exact latches_submit s key
  | toggleCaps => rfl
  | _ => rfl

theorem latches_mouse_key (s : Input) (code : Nat) (down : Bool) :
    (fpga_keyboard_mouse_handle_key s code down).2.latches = s.latches := by
  unfold fpga_keyboard_mouse_handle_key
  split <;> (try split) <;> rfl

theorem mouse_key_taken (s : Input) (code : Nat) (down : Bool) :
    (fpga_keyboard_mouse_handle_key s code down).1 = true ↔
      code ∈ [71, 72, 73, 75, 77, 79, 80, 81, 76, 96, 78, 83, 55, 74] := by
  unfold fpga_keyboard_mouse_handle_key
  split <;> simp_all

/-- The keys that are waiting, and the shortcuts that have been asked for. -/
structure Pending where
  gui_key : UInt8
  gui_key_queue : List UInt8
  switch_task : Bool
  new_task : Bool
  close_task : Bool

def Input.pending (s : Input) : Pending :=
  ⟨s.gui_key, s.gui_key_queue, s.gui_shortcut_switch_task, s.gui_shortcut_new_task,
    s.gui_shortcut_close_task⟩

theorem pending_button (s : Input) (code : Nat) (pressed : Bool) :
    (set_button s code pressed).pending = s.pending := by
  unfold set_button
  split <;> rfl

theorem pending_modifier (s : Input) (ev : raw_input_event) :
    (handle_modifier s ev).pending = s.pending := by
  unfold handle_modifier
  split_ifs <;> rfl

theorem pending_mouse_key (s : Input) (code : Nat) (down : Bool) :
    (fpga_keyboard_mouse_handle_key s code down).2.pending = s.pending := by
  unfold fpga_keyboard_mouse_handle_key
  split <;> (try split) <;> rfl

theorem pending_perform {s s' : Input} (h : s.pending = s'.pending) (action : KeyAction) :
    (perform s action).pending = (perform s' action).pending := by
  simp only [Input.pending, Pending.mk.injEq] at h
  obtain ⟨hkey, hqueue, hswitch, hnew, hclose⟩ := h
  cases action with
  | submit key =>
    simp only [perform, gui_key_submit, hkey, hqueue]
    split_ifs <;> simp [Input.pending, hkey, hqueue, hswitch, hnew, hclose]
  | _ => simp [perform, Input.pending, hkey, hqueue, hswitch, hnew, hclose]

section

variable [InputConfig]

open InputConfig (FPGA_MINIMAL)

/-- The key is one of the mouse, on the board. -/
def Taken (code : Nat) : Prop :=
  FPGA_MINIMAL = true ∧
    code ∈ [71, 72, 73, 75, 77, 79, 80, 81, 76, 96, 78, 83, 55, 74]

instance (code : Nat) : Decidable (Taken code) := inferInstanceAs (Decidable (_ ∧ _))

/-- The event types: it is the press or the repeat of a key that is not the mouse's. -/
def Types (ev : raw_input_event) : Prop :=
  IsKey ev ∧ (ev.value = 1 ∨ ev.value = 2) ∧ ¬ Taken ev.code

instance (ev : raw_input_event) : Decidable (Types ev) := inferInstanceAs (Decidable (_ ∧ _ ∧ _))

/-- What the event does by the modifiers as the code has them. -/
def typed (s : Input) (ev : raw_input_event) : KeyAction :=
  if Types ev then
    let s := handle_modifier s ev
    key_action (s.ctrl_l_pressed || s.ctrl_r_pressed) s.shift_pressed s.caps_lock ev.code
  else .nothing

/-- What the event should do by the keys that are down: a character key gives its character or
its control action by them, and caps lock turns over when it is pressed. -/
def intended (h : List raw_input_event) (ev : raw_input_event) : KeyAction :=
  if Types ev then
    if ev.code = 0x3A ∧ ev.value = 2 then .nothing
    else key_action (ctrlDown h) (shiftDown h) (capsOn h) ev.code
  else .nothing

def run (s : Input) (evs : List raw_input_event) : Input := evs.foldl handle_event s

/-! ## One event -/

/-- The latches after the branches for the shift and control keys. -/
def Latches.modified (l : Latches) (ev : raw_input_event) : Latches :=
  { l with
    shift_pressed :=
      if ev.code = 0x2A ∨ ev.code = 0x36 then ev.value == 1 else l.shift_pressed
    ctrl_l_pressed := if ev.code = 29 then ev.value == 1 else l.ctrl_l_pressed
    ctrl_r_pressed := if ev.code = 97 then ev.value == 1 else l.ctrl_r_pressed }

omit [InputConfig] in
theorem latches_modifier (s : Input) (ev : raw_input_event) :
    (handle_modifier s ev).latches = s.latches.modified ev := by
  unfold handle_modifier Latches.modified
  split_ifs <;> simp_all [Input.latches]

def Latches.action (l : Latches) (code : Nat) : KeyAction :=
  key_action (l.ctrl_l_pressed || l.ctrl_r_pressed) l.shift_pressed l.caps_lock code

omit [InputConfig] in
theorem handle_key_down (s : Input) (ev : raw_input_event) (hv : ev.value = 1 ∨ ev.value = 2) :
    (handle_key s ev).latches =
        { s.latches with
          caps_lock := if s.latches.action ev.code = .toggleCaps then !s.caps_lock
            else s.caps_lock } ∧
      (handle_key s ev).pending = (perform s (s.latches.action ev.code)).pending := by
  unfold handle_key
  rw [if_pos hv]
  dsimp only
  have hsame (t : Input) (ht : t.latches = s.latches ∧ t.pending = s.pending) :
      (set_button (perform t (s.latches.action ev.code)) ev.code true).latches =
          { s.latches with
            caps_lock := if s.latches.action ev.code = .toggleCaps then !s.caps_lock
              else s.caps_lock } ∧
        (set_button (perform t (s.latches.action ev.code)) ev.code true).pending =
          (perform s (s.latches.action ev.code)).pending := by
    have hcaps : t.caps_lock = s.caps_lock := congrArg Latches.caps_lock ht.1
    rw [latches_button, latches_perform, pending_button, ht.1, hcaps]
    exact ⟨rfl, pending_perform ht.2 _⟩
  by_cases hcode : ev.code = 25
  · rw [if_pos hcode]
    exact hsame _ ⟨rfl, rfl⟩
  · rw [if_neg hcode]
    exact hsame _ ⟨rfl, rfl⟩

omit [InputConfig] in
theorem handle_key_up (s : Input) (ev : raw_input_event) (hv : ¬ (ev.value = 1 ∨ ev.value = 2)) :
    (handle_key s ev).latches = s.latches ∧ (handle_key s ev).pending = s.pending := by
  unfold handle_key
  rw [if_neg hv]
  split
  · dsimp only
    rw [latches_button, pending_button]
    split <;> exact ⟨rfl, rfl⟩
  · exact ⟨rfl, rfl⟩

theorem handle_event_spec (s : Input) (ev : raw_input_event) :
    (handle_event s ev).latches =
        { (if IsKey ev then s.latches.modified ev else s.latches) with
          caps_lock := if typed s ev = .toggleCaps then !s.caps_lock else s.caps_lock } ∧
      (handle_event s ev).pending = (perform s (typed s ev)).pending := by
  by_cases hkey : IsKey ev
  · obtain ⟨hdev, htype⟩ := id hkey
    -- the state in which the cases for the key are tried
    have htry (t : Input) (hl : t.latches = s.latches.modified ev) (hp : t.pending = s.pending)
        (htaken : ¬ Taken ev.code) :
        (handle_key t ev).latches =
            { s.latches.modified ev with
              caps_lock := if typed s ev = .toggleCaps then !s.caps_lock else s.caps_lock } ∧
          (handle_key t ev).pending = (perform s (typed s ev)).pending := by
      by_cases hv : ev.value = 1 ∨ ev.value = 2
      · have hact : typed s ev = t.latches.action ev.code := by
          rw [typed, if_pos ⟨hkey, hv, htaken⟩, hl, ← latches_modifier]
          rfl
        have hcaps : t.caps_lock = s.caps_lock := congrArg Latches.caps_lock hl
        obtain ⟨hlatches, hpending⟩ := handle_key_down t ev hv
        rw [hlatches, hpending, hl, hact, hcaps, hl]
        exact ⟨rfl, pending_perform hp _⟩
      · have hact : typed s ev = .nothing := if_neg fun h => hv h.2.1
        obtain ⟨hlatches, hpending⟩ := handle_key_up t ev hv
        rw [hlatches, hpending, hl, hp, hact]
        exact ⟨rfl, rfl⟩
    unfold handle_event
    rw [if_pos hdev, if_neg (not_not.mpr htype), if_pos hkey]
    dsimp only
    by_cases hfpga : FPGA_MINIMAL = true
    · rw [if_pos hfpga]
      have hl := latches_mouse_key (handle_modifier s ev) ev.code (ev.value != 0)
      have hp := pending_mouse_key (handle_modifier s ev) ev.code (ev.value != 0)
      rw [latches_modifier] at hl
      rw [pending_modifier] at hp
      by_cases htaken : (fpga_keyboard_mouse_handle_key (handle_modifier s ev) ev.code
          (ev.value != 0)).1 = true
      · rw [if_pos htaken]
        have hact : typed s ev = .nothing :=
          if_neg fun h => h.2.2 ⟨hfpga, (mouse_key_taken _ _ _).mp htaken⟩
        rw [hl, hp, hact]
        exact ⟨rfl, rfl⟩
      · rw [if_neg htaken]
        exact htry _ hl hp fun h => htaken ((mouse_key_taken _ _ _).mpr h.2)
    · rw [if_neg hfpga]
      exact htry _ (latches_modifier s ev) (pending_modifier s ev) fun h => hfpga h.1
  · have hact : typed s ev = .nothing := if_neg fun h => hkey h.1
    rw [hact, if_neg hkey]
    have hsame : (handle_event s ev).latches = s.latches ∧
        (handle_event s ev).pending = s.pending := by
      unfold handle_event
      split_ifs with hdev htype hmouse
      · exact ⟨rfl, rfl⟩
      · exact absurd ⟨hdev, not_not.mp htype⟩ hkey
      · exact absurd ⟨hdev, not_not.mp htype⟩ hkey
      · exact ⟨rfl, rfl⟩
      · exact ⟨rfl, rfl⟩
    rw [hsame.1, hsame.2]
    exact ⟨rfl, rfl⟩

/-! ## The loop over the queue -/

theorem typed_congr {s t : Input} (h : s.latches = t.latches) (ev : raw_input_event) :
    typed s ev = typed t ev := by
  have hact (u : Input) : (if Types ev then
      let v := handle_modifier u ev
      key_action (v.ctrl_l_pressed || v.ctrl_r_pressed) v.shift_pressed v.caps_lock ev.code
      else KeyAction.nothing) =
        if Types ev then (u.latches.modified ev).action ev.code else .nothing := by
    rw [← latches_modifier]
    rfl
  unfold typed
  rw [hact, hact, h]

theorem handle_event_congr {s t : Input} (hl : s.latches = t.latches) (hp : s.pending = t.pending)
    (ev : raw_input_event) :
    (handle_event s ev).latches = (handle_event t ev).latches ∧
      (handle_event s ev).pending = (handle_event t ev).pending := by
  have hcaps : s.caps_lock = t.caps_lock := congrArg Latches.caps_lock hl
  obtain ⟨hls, hps⟩ := handle_event_spec s ev
  obtain ⟨hlt, hpt⟩ := handle_event_spec t ev
  rw [hls, hlt, hps, hpt, hl, typed_congr hl, hcaps]
  exact ⟨rfl, pending_perform hp _⟩

theorem run_congr {s t : Input} (hl : s.latches = t.latches) (hp : s.pending = t.pending)
    (evs : List raw_input_event) :
    (run s evs).latches = (run t evs).latches ∧ (run s evs).pending = (run t evs).pending := by
  induction evs generalizing s t with
  | nil => exact ⟨hl, hp⟩
  | cons ev evs ih =>
    obtain ⟨hl, hp⟩ := handle_event_congr hl hp ev
    exact ih hl hp

theorem events_handle_event (s : Input) (ev : raw_input_event) :
    (handle_event s ev).input_events = s.input_events := by
  have hbutton (t : Input) (code : Nat) (pressed : Bool) :
      (set_button t code pressed).input_events = t.input_events := by
    unfold set_button
    split <;> rfl
  have hperform (t : Input) (action : KeyAction) :
      (perform t action).input_events = t.input_events := by
    cases action with
    | submit key =>
      rw [perform, gui_key_submit]
      split_ifs <;> rfl
    | _ => rfl
  have hkey (t : Input) : (handle_key t ev).input_events = t.input_events := by
    unfold handle_key
    split_ifs
    · rw [hbutton, hperform]
    · rw [hbutton, hperform]
    · rw [hbutton]
    · rw [hbutton]
    · rfl
  have hmodifier : (handle_modifier s ev).input_events = s.input_events := by
    unfold handle_modifier
    split_ifs <;> rfl
  have hmouse (t : Input) (code : Nat) (down : Bool) :
      (fpga_keyboard_mouse_handle_key t code down).2.input_events = t.input_events := by
    unfold fpga_keyboard_mouse_handle_key
    split <;> (try split) <;> rfl
  unfold handle_event
  dsimp only
  split_ifs
  · rfl
  · rw [hmouse, hmodifier]
  · rw [hkey, hmouse, hmodifier]
  · rw [hkey, hmodifier]
  · rfl
  · rfl

theorem poll_events_eq_run (budget : Nat) (s : Input) :
    (poll_events budget s).latches = (run s (s.input_events.take budget)).latches ∧
      (poll_events budget s).pending = (run s (s.input_events.take budget)).pending ∧
      (poll_events budget s).input_events = s.input_events.drop budget := by
  induction budget generalizing s with
  | zero => exact ⟨rfl, rfl, rfl⟩
  | succ budget ih =>
    rw [poll_events]
    cases hq : s.input_events with
    | nil => exact ⟨rfl, rfl, hq⟩
    | cons ev rest =>
      have hkeep : (handle_event { s with input_events := rest } ev).input_events = rest := by
        rw [events_handle_event]
      obtain ⟨hl, hp, hrest⟩ := ih (handle_event { s with input_events := rest } ev)
      rw [hkeep] at hl hp hrest
      obtain ⟨hl', hp'⟩ := @handle_event_congr _ { s with input_events := rest } s rfl rfl ev
      obtain ⟨hlr, hpr⟩ := run_congr hl' hp' (rest.take budget)
      exact ⟨hl.trans hlr, hp.trans hpr, hrest⟩

/-! ## What the keys are for -/

/-- A key that types a character, and another one under shift. -/
structure CharacterKey where
  code : Nat
  plain : UInt8
  shifted : UInt8
deriving DecidableEq

/-- Caps lock works on the letters. -/
def CharacterKey.letter (k : CharacterKey) : Bool :=
  'a'.toUInt8 ≤ k.plain && k.plain ≤ 'z'.toUInt8

/-- A row of the keyboard from the key `code` on. -/
def keyRow (code : Nat) : List (Char × Char) → List CharacterKey
  | [] => []
  | (plain, shifted) :: row => ⟨code, plain.toUInt8, shifted.toUInt8⟩ :: keyRow (code + 1) row

/-- The keys of a US keyboard that type a character. -/
def characterKeys : List CharacterKey :=
  keyRow 2 [('1', '!'), ('2', '@'), ('3', '#'), ('4', '$'), ('5', '%'), ('6', '^'), ('7', '&'),
    ('8', '*'), ('9', '('), ('0', ')'), ('-', '_'), ('=', '+')] ++
  keyRow 16 [('q', 'Q'), ('w', 'W'), ('e', 'E'), ('r', 'R'), ('t', 'T'), ('y', 'Y'), ('u', 'U'),
    ('i', 'I'), ('o', 'O'), ('p', 'P'), ('[', '\x7b'), (']', '\x7d')] ++
  keyRow 30 [('a', 'A'), ('s', 'S'), ('d', 'D'), ('f', 'F'), ('g', 'G'), ('h', 'H'), ('j', 'J'),
    ('k', 'K'), ('l', 'L'), (';', ':'), ('\x27', '\x22'), ('\x60', '~')] ++
  keyRow 43 [('\x5c', '|'), ('z', 'Z'), ('x', 'X'), ('c', 'C'), ('v', 'V'), ('b', 'B'), ('n', 'N'),
    ('m', 'M'), (',', '<'), ('.', '>'), ('/', '?')]

def Pending.newest (p : Pending) : UInt8 := p.gui_key_queue.getLastD p.gui_key

/-- What a key event does by the keys that are down after the events `h`: its keys and shortcuts are
the intended ones; a character key without a control action gives its shifted character exactly when
one of shift, and for a letter caps lock, is in force; control makes a Ctrl-C of `c` and a shortcut
of tab, `t` and `q`; and caps lock is on after an odd number of presses. -/
structure TypesAsHeld (h : List raw_input_event) (ev : raw_input_event) (s s' : Input) : Prop where
  queued : s'.pending = (perform s (intended h ev)).pending
  character : ∀ k ∈ characterKeys, Types ev → ev.code = k.code →
    ¬ (ctrlDown h = true ∧ k.code ∈ [16, 20, 46]) →
    s'.pending.newest = if shiftDown h ^^ (k.letter && capsOn h) then k.shifted else k.plain
  interrupt : Types ev → ctrlDown h = true → ev.code = 46 → s'.pending.newest = 3
  switch_task : s'.pending.switch_task =
    (s.pending.switch_task || decide (Types ev) && ctrlDown h && ev.code == 15)
  new_task : s'.pending.new_task =
    (s.pending.new_task || decide (Types ev) && ctrlDown h && ev.code == 20)
  close_task : s'.pending.close_task =
    (s.pending.close_task || decide (Types ev) && ctrlDown h && ev.code == 16)
  caps : s'.caps_lock = capsOn (h ++ [ev])

omit [InputConfig] in
theorem key_action_cases (ctrl shift caps : Bool) (code : Nat) :
    ctrl = true ∧ code = 15 ∧ key_action ctrl shift caps code = .switchTask ∨
    ctrl = true ∧ code = 20 ∧ key_action ctrl shift caps code = .newTask ∨
    ctrl = true ∧ code = 16 ∧ key_action ctrl shift caps code = .closeTask ∨
    code = 0x3A ∧ key_action ctrl shift caps code = .toggleCaps ∨
    ((ctrl = true → code ∉ [15, 20, 16]) ∧ code ≠ 0x3A ∧
      ((∃ key, key_action ctrl shift caps code = .submit key) ∨
        key_action ctrl shift caps code = .nothing)) := by
  unfold key_action
  by_cases hswitch : (ctrl && code == 15) = true
  · exact Or.inl (by simp_all)
  by_cases hnew : (ctrl && code == 20) = true
  · exact Or.inr (Or.inl (by simp_all))
  by_cases hclose : (ctrl && code == 16) = true
  · exact Or.inr (Or.inr (Or.inl (by simp_all)))
  rw [if_neg hswitch, if_neg hnew, if_neg hclose]
  by_cases hcaps : code = 0x3A
  · refine Or.inr (Or.inr (Or.inr (Or.inl ⟨hcaps, ?_⟩)))
    simp [hcaps]
  refine Or.inr (Or.inr (Or.inr (Or.inr ⟨fun hctrl => by simp_all, hcaps, ?_⟩)))
  have hif {p : Prop} [Decidable p] {x y : KeyAction}
      (hx : (∃ key, x = .submit key) ∨ x = .nothing)
      (hy : (∃ key, y = .submit key) ∨ y = .nothing) :
      (∃ key, (if p then x else y) = .submit key) ∨ (if p then x else y) = .nothing := by
    split
    · exact hx
    · exact hy
  have hno : ¬ (code == 0x3A) = true := fun hbeq => hcaps (eq_of_beq hbeq)
  rw [if_neg hno]
  dsimp only
  repeat' apply hif
  all_goals first | exact Or.inl ⟨_, rfl⟩ | exact Or.inr rfl

omit [InputConfig] in
theorem newest_submit (s : Input) {key : UInt8} (h : key ≠ 0) :
    (gui_key_submit s key).pending.newest = key := by
  unfold gui_key_submit
  rw [if_neg h]
  split_ifs with _ hfree
  · rfl
  · change s.gui_key_queue.getLastD key = key
    rw [hfree.2]
    rfl
  · simp [Input.pending, Pending.newest, List.getLastD_eq_getLast?]
  · simp [Input.pending, Pending.newest, List.getLastD_eq_getLast?]

omit [InputConfig] in
theorem key_action_character : ∀ k ∈ characterKeys, ∀ ctrl shift caps : Bool,
    ¬ (ctrl = true ∧ k.code ∈ [16, 20, 46]) → k.plain ≠ 0 ∧ k.shifted ≠ 0 ∧ k.code ≠ 0x3A ∧
      key_action ctrl shift caps k.code =
        .submit (if shift ^^ (k.letter && caps) then k.shifted else k.plain) := by
  decide +kernel

omit [InputConfig] in
theorem shortcuts_perform (s : Input) (action : KeyAction) :
    (perform s action).pending.switch_task =
        (s.pending.switch_task || decide (action = .switchTask)) ∧
      (perform s action).pending.new_task =
        (s.pending.new_task || decide (action = .newTask)) ∧
      (perform s action).pending.close_task =
        (s.pending.close_task || decide (action = .closeTask)) := by
  cases action with
  | submit key =>
    obtain ⟨k, q, h⟩ : ∃ k q, gui_key_submit s key = { s with gui_key := k, gui_key_queue := q } := by
      unfold gui_key_submit
      split_ifs <;> exact ⟨_, _, rfl⟩
    simp [perform, h, Input.pending]
  | _ => simp [perform, Input.pending]

theorem intended_shortcut (h : List raw_input_event) (ev : raw_input_event) :
    decide (intended h ev = .switchTask) = (decide (Types ev) && ctrlDown h && ev.code == 15) ∧
      decide (intended h ev = .newTask) = (decide (Types ev) && ctrlDown h && ev.code == 20) ∧
      decide (intended h ev = .closeTask) = (decide (Types ev) && ctrlDown h && ev.code == 16) := by
  unfold intended
  by_cases htypes : Types ev
  · by_cases hcaps : ev.code = 0x3A ∧ ev.value = 2
    · simp [htypes, hcaps]
    rcases key_action_cases (ctrlDown h) (shiftDown h) (capsOn h) ev.code with
      ⟨hctrl, hcode, hact⟩ | ⟨hctrl, hcode, hact⟩ | ⟨hctrl, hcode, hact⟩ | ⟨hcode, hact⟩ |
      ⟨hother, -, ⟨key, hact⟩ | hact⟩
    all_goals
      rw [if_pos htypes, if_neg hcaps, hact]
      cases hc : ctrlDown h
      all_goals simp_all
  · simp [htypes]

theorem typesAsHeld_of_queued {h : List raw_input_event} {ev : raw_input_event} {s s' : Input}
    (hq : s'.pending = (perform s (intended h ev)).pending)
    (hcaps : s'.caps_lock = capsOn (h ++ [ev])) : TypesAsHeld h ev s s' := by
  obtain ⟨hswitch, hnew, hclose⟩ := shortcuts_perform s (intended h ev)
  obtain ⟨iswitch, inew, iclose⟩ := intended_shortcut h ev
  refine ⟨hq, fun k hk htypes hcode hplain => ?_, fun htypes hctrl hcode => ?_, ?_, ?_, ?_, hcaps⟩
  · obtain ⟨hplain0, hshift0, hne, hact⟩ :=
      key_action_character k hk (ctrlDown h) (shiftDown h) (capsOn h) hplain
    rw [hq, intended, if_pos htypes, hcode, if_neg fun hc => hne hc.1, hact]
    refine newest_submit s ?_
    split
    · exact hshift0
    · exact hplain0
  · have hact : key_action (ctrlDown h) (shiftDown h) (capsOn h) 46 = .submit 3 := by
      rw [hctrl]
      rfl
    rw [hq, intended, if_pos htypes, hcode, if_neg fun hc => absurd hc.1 (by decide), hact]
    exact newest_submit s (by decide)
  · rw [hq, hswitch, iswitch]
  · rw [hq, hnew, inew]
  · rw [hq, hclose, iclose]

/-! ## Runs -/

/-- No modifier key and not caps lock repeats, and no shift key goes up while the other one is
down. -/
def Regular (h : List raw_input_event) (ev : raw_input_event) : Prop :=
  IsKey ev →
    (ev.value = 2 → ev.code ∉ [0x2A, 0x36, 29, 97, 0x3A]) ∧
      (ev.value = 0 → (ev.code = 0x2A → keyDown 0x36 h = false) ∧
        (ev.code = 0x36 → keyDown 0x2A h = false))

instance (h : List raw_input_event) (ev : raw_input_event) : Decidable (Regular h ev) :=
  inferInstanceAs (Decidable (_ → _))

/-- The latches say which keys are down. -/
def Tracks (s : Input) (h : List raw_input_event) : Prop :=
  s.latches = ⟨capsOn h, shiftDown h, keyDown 29 h, keyDown 97 h⟩

omit [InputConfig] in
theorem key_action_modifier (ctrl shift caps : Bool) {code : Nat}
    (h : code ∈ [0x2A, 0x36, 29, 97]) : key_action ctrl shift caps code = .submit 0 := by
  simp only [List.mem_cons, List.not_mem_nil, or_false] at h
  rcases h with rfl | rfl | rfl | rfl <;> cases ctrl <;> cases shift <;> cases caps <;> rfl

omit [InputConfig] in
theorem key_action_caps (ctrl shift caps : Bool) :
    key_action ctrl shift caps 0x3A = .toggleCaps := by
  cases ctrl <;> cases shift <;> cases caps <;> rfl

omit [InputConfig] in
theorem modified_other (l : Latches) {ev : raw_input_event}
    (h : ev.code ∉ [0x2A, 0x36, 29, 97]) : l.modified ev = l := by
  simp only [List.mem_cons, List.not_mem_nil, or_false, not_or] at h
  simp [Latches.modified, h]

theorem typed_eq {s : Input} {h : List raw_input_event} {ev : raw_input_event}
    (hs : Tracks s h) (hreg : Regular h ev) : typed s ev = intended h ev := by
  unfold typed intended
  by_cases htypes : Types ev
  · rw [if_pos htypes, if_pos htypes]
    have hrepeat : ¬ (ev.code = 0x3A ∧ ev.value = 2) := by
      rintro ⟨hcode, hv⟩
      exact (hreg htypes.1).1 hv (by simp [hcode])
    rw [if_neg hrepeat]
    change (handle_modifier s ev).latches.action ev.code = _
    by_cases hmod : ev.code ∈ [0x2A, 0x36, 29, 97]
    · rw [Latches.action, key_action_modifier _ _ _ hmod, key_action_modifier _ _ _ hmod]
    · rw [latches_modifier, modified_other _ hmod, hs]
      rfl
  · rw [if_neg htypes, if_neg htypes]

theorem typed_toggles_iff (s : Input) (ev : raw_input_event) :
    typed s ev = .toggleCaps ↔
      IsKey ev ∧ ev.code = 0x3A ∧ (ev.value = 1 ∨ ev.value = 2) := by
  unfold typed
  constructor
  · intro h
    split_ifs at h with htypes
    refine ⟨htypes.1, ?_, htypes.2.1⟩
    rcases key_action_cases ((handle_modifier s ev).ctrl_l_pressed ||
      (handle_modifier s ev).ctrl_r_pressed) (handle_modifier s ev).shift_pressed
      (handle_modifier s ev).caps_lock ev.code with
      ⟨-, -, h'⟩ | ⟨-, -, h'⟩ | ⟨-, -, h'⟩ | ⟨hcode, -⟩ | ⟨-, -, ⟨key, h'⟩ | h'⟩
    · cases h.symm.trans h'
    · cases h.symm.trans h'
    · cases h.symm.trans h'
    · exact hcode
    · cases h.symm.trans h'
    · cases h.symm.trans h'
  · rintro ⟨hkey, hcode, hv⟩
    have htaken : ¬ Taken ev.code := by
      rintro ⟨-, hmem⟩
      rw [hcode] at hmem
      exact absurd hmem (by decide)
    rw [if_pos ⟨hkey, hv, htaken⟩]
    dsimp only
    rw [hcode, key_action_caps]

theorem tracks_step {s : Input} {h : List raw_input_event} {ev : raw_input_event}
    (hs : Tracks s h) (hreg : Regular h ev) (hvalue : IsKey ev → ev.value ≤ 2) :
    Tracks (handle_event s ev) (h ++ [ev]) := by
  unfold Tracks at hs ⊢
  rw [(handle_event_spec s ev).1]
  have hcaps : s.caps_lock = capsOn h := congrArg Latches.caps_lock hs
  have hnew : (if typed s ev = .toggleCaps then !s.caps_lock else s.caps_lock) =
      capsOn (h ++ [ev]) := by
    rw [capsOn_snoc, hcaps]
    refine if_congr ?_ rfl rfl
    rw [typed_toggles_iff]
    constructor
    · rintro ⟨hkey, hcode, hv⟩
      refine ⟨hkey, hcode, hv.resolve_right fun hv => ?_⟩
      exact (hreg hkey).1 hv (by simp [hcode])
    · rintro ⟨hkey, hcode, hv⟩
      exact ⟨hkey, hcode, Or.inl hv⟩
  rw [hnew, hs]
  by_cases hkey : IsKey ev
  · have hle := hvalue hkey
    obtain ⟨hrepeat, hrelease⟩ := hreg hkey
    rw [if_pos hkey]
    have hshift : (if ev.code = 0x2A ∨ ev.code = 0x36 then ev.value == 1 else shiftDown h) =
        shiftDown (h ++ [ev]) := by
      simp only [shiftDown, keyDown_snoc, hkey, true_and]
      by_cases hleft : ev.code = 0x2A
      · have hright : ev.code ≠ 0x36 := by omega
        have hv : ev.value = 0 ∨ ev.value = 1 := by
          have hne : ev.value ≠ 2 := fun hv => hrepeat hv (by simp [hleft])
          omega
        rcases hv with hv | hv
        · simp [hleft, hv, (hrelease hv).1 hleft]
        · simp [hleft, hv]
      · by_cases hright : ev.code = 0x36
        · have hv : ev.value = 0 ∨ ev.value = 1 := by
            have hne : ev.value ≠ 2 := fun hv => hrepeat hv (by simp [hright])
            omega
          rcases hv with hv | hv
          · simp [hright, hv, (hrelease hv).2 hright]
          · simp [hright, hv]
        · simp [hleft, hright]
    have hctrl (code : Nat) (hcode : code ∈ [29, 97]) :
        (if ev.code = code then ev.value == 1 else keyDown code h) =
          keyDown code (h ++ [ev]) := by
      simp only [keyDown_snoc, hkey, true_and]
      by_cases heq : ev.code = code
      · have hv : ev.value = 0 ∨ ev.value = 1 := by
          have hmem : ev.code ∈ [0x2A, 0x36, 29, 97, 0x3A] := by
            rw [heq]
            simp only [List.mem_cons, List.not_mem_nil, or_false] at hcode
            rcases hcode with rfl | rfl <;> decide
          have hne : ev.value ≠ 2 := fun hv => hrepeat hv hmem
          omega
        rcases hv with hv | hv <;> simp [heq, hv]
      · simp [heq]
    simp only [Latches.modified, hshift, hctrl 29 (by simp), hctrl 97 (by simp)]
  · rw [if_neg hkey]
    simp [shiftDown, keyDown_snoc, hkey]

/-- In a run of regular events every key types as the keys that are down have it, and caps lock
is on when it has been pressed an odd number of times. -/
theorem keys_type_as_held (s : Input) (hs : s.latches = ⟨false, false, false, false⟩)
    (evs : List raw_input_event) (hvalue : ∀ ev ∈ evs, IsKey ev → ev.value ≤ 2)
    (hreg : ∀ h ev t, evs = h ++ ev :: t → Regular h ev) :
    ∀ h ev t, evs = h ++ ev :: t →
      TypesAsHeld h ev (run s h) (handle_event (run s h) ev) := by
  have htracks (h t : List raw_input_event) (hevs : evs = h ++ t) : Tracks (run s h) h := by
    induction h using List.reverseRecOn generalizing t with
    | nil => exact hs
    | append_singleton h ev ih =>
      have hsplit : evs = h ++ ev :: t := by rw [hevs, List.append_assoc]; rfl
      have hstep := tracks_step (ih (ev :: t) hsplit) (hreg h ev t hsplit)
        (hvalue ev (by rw [hsplit]; simp))
      unfold run at hstep ⊢
      rw [List.foldl_append]
      exact hstep
  intro h ev t hevs
  have hhere := htracks h (ev :: t) hevs
  have hnext := htracks (h ++ [ev]) t (by rw [hevs, List.append_assoc]; rfl)
  refine typesAsHeld_of_queued ?_ ?_
  · rw [← typed_eq hhere (hreg h ev t hevs)]
    exact (handle_event_spec (run s h) ev).2
  · unfold run at hnext ⊢
    rw [List.foldl_append] at hnext
    exact congrArg Latches.caps_lock hnext

end

/-- The keyboard before the first event. -/
def Input.fresh : Input where
  caps_lock := false
  shift_pressed := false
  ctrl_l_pressed := false
  ctrl_r_pressed := false
  gui_ctrl_pressed := false
  gui_key := 0
  gui_key_queue := []
  gui_shortcut_switch_task := false
  gui_shortcut_new_task := false
  gui_shortcut_close_task := false
  gui_prev_regs_pressed := false
  gui_redraw_needed := false
  gbemu_btn := fun _ => false
  pointer := ⟨512, 384, false, false, false, false, 0, 0, 0, false, 0⟩
  input_events := []
  input_poll_busy := false

def keyEvent (code value : Nat) : raw_input_event := ⟨0, 1, code, value⟩

abbrev emulator : InputConfig := ⟨false⟩

def shiftA : List raw_input_event := [keyEvent 0x2A 1, keyEvent 0x1E 1, keyEvent 0x2A 0]

theorem shiftA_regular (h : List raw_input_event) (ev : raw_input_event)
    (t : List raw_input_event) (hevs : shiftA = h ++ ev :: t) : Regular h ev := by
  unfold shiftA at hevs
  rcases h with _ | ⟨a, _ | ⟨b, _ | ⟨c, h⟩⟩⟩
  all_goals
    simp at hevs
  · obtain ⟨rfl, -⟩ := hevs
    decide
  · obtain ⟨rfl, rfl, -⟩ := hevs
    decide
  · obtain ⟨rfl, rfl, rfl, -⟩ := hevs
    decide

/-- Left shift goes down, and `a` is typed. -/
theorem shift_a_types_held :
    @TypesAsHeld emulator [keyEvent 0x2A 1] (keyEvent 0x1E 1)
        (@run emulator Input.fresh [keyEvent 0x2A 1])
        (@handle_event emulator (@run emulator Input.fresh [keyEvent 0x2A 1])
          (keyEvent 0x1E 1)) ∧
      (@handle_event emulator (@run emulator Input.fresh [keyEvent 0x2A 1])
        (keyEvent 0x1E 1)).pending.newest = 'A'.toUInt8 :=
  ⟨@keys_type_as_held emulator Input.fresh rfl shiftA (by decide) shiftA_regular
    [keyEvent 0x2A 1] (keyEvent 0x1E 1) [keyEvent 0x2A 0] rfl, by decide⟩

/-- Left shift goes down and repeats, and `a` is typed in lower case while shift is down. -/
theorem shift_repeat_types_unshifted :
    shiftDown [keyEvent 0x2A 1, keyEvent 0x2A 2] = true ∧
      (@run emulator Input.fresh
        [keyEvent 0x2A 1, keyEvent 0x2A 2, keyEvent 0x1E 1]).pending.newest = 'a'.toUInt8 ∧
      ¬ @TypesAsHeld emulator [keyEvent 0x2A 1, keyEvent 0x2A 2] (keyEvent 0x1E 1)
        (@run emulator Input.fresh [keyEvent 0x2A 1, keyEvent 0x2A 2])
        (@run emulator Input.fresh [keyEvent 0x2A 1, keyEvent 0x2A 2, keyEvent 0x1E 1]) := by
  refine ⟨by decide, by decide, fun h => ?_⟩
  have hnewest := @TypesAsHeld.character emulator _ _ _ _ h ⟨0x1E, 'a'.toUInt8, 'A'.toUInt8⟩
    (by decide) (by decide) rfl (by decide)
  exact absurd hnewest (by decide)

end vibeos.input

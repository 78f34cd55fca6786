-- usb_keyboard_apply_report of virtio_input.c: the reports of a USB boot keyboard, and the events
-- that their differences are turned into.
import Vibeos.KeyTracking
import Mathlib.Data.List.FinRange
import Mathlib.Algebra.GroupWithZero.Nat

namespace vibeos.input

/-! ## The code -/

/-- An 8-byte boot report: the modifier bits, a reserved byte and six keys. -/
abbrev Report := Fin 8 → UInt8

def usb_hid_key_to_linux (usage : Nat) : Nat :=
  match usage with
  | 0x04 => 30 | 0x05 => 48 | 0x06 => 46 | 0x07 => 32 | 0x08 => 18 | 0x09 => 33
  | 0x0a => 34 | 0x0b => 35 | 0x0c => 23 | 0x0d => 36 | 0x0e => 37 | 0x0f => 38
  | 0x10 => 50 | 0x11 => 49 | 0x12 => 24 | 0x13 => 25 | 0x14 => 16 | 0x15 => 19
  | 0x16 => 31 | 0x17 => 20 | 0x18 => 22 | 0x19 => 47 | 0x1a => 17 | 0x1b => 45
  | 0x1c => 21 | 0x1d => 44
  | 0x1e => 2 | 0x1f => 3 | 0x20 => 4 | 0x21 => 5 | 0x22 => 6 | 0x23 => 7
  | 0x24 => 8 | 0x25 => 9 | 0x26 => 10 | 0x27 => 11
  | 0x28 => 28 | 0x29 => 1 | 0x2a => 14 | 0x2b => 15 | 0x2c => 57
  | 0x2d => 12 | 0x2e => 13 | 0x2f => 26 | 0x30 => 27 | 0x31 => 43
  | 0x33 => 39 | 0x34 => 40 | 0x35 => 41 | 0x36 => 51 | 0x37 => 52 | 0x38 => 53
  | 0x39 => 58
  | 0x4f => 106 | 0x50 => 105 | 0x51 => 108 | 0x52 => 103
  | 0x49 => 110 | 0x4a => 102 | 0x4b => 104 | 0x4c => 111 | 0x4d => 107 | 0x4e => 109
  | 0x54 => 98 | 0x55 => 55 | 0x56 => 74 | 0x57 => 78 | 0x58 => 96
  | 0x59 => 79 | 0x5a => 80 | 0x5b => 81 | 0x5c => 75 | 0x5d => 76
  | 0x5e => 77 | 0x5f => 71 | 0x60 => 72 | 0x61 => 73 | 0x62 => 82
  | 0x63 => 83
  | _ => 0

instance instNeZero8 : NeZero 8 := ⟨by decide⟩

def usb_key_in_report (key : UInt8) (report : Report) : Bool :=
  [2, 3, 4, 5, 6, 7].any fun i => report i == key

def usb_keyboard_usage_is_pointer (usage : UInt8) : Bool :=
  0x54 ≤ usage && usage ≤ 0x63

def mod_code (i : Fin 8) : Nat := [29, 42, 56, 125, 97, 54, 100, 126].get i

def EHCI_QTD_HALTED : Nat := 0x40

def USB_KBD_POINTER_RELEASE_GRACE_MS : Nat := 160

/-- The fields of `usb_mouse` and the statics that the keyboard uses. -/
structure UsbKeyboard where
  kbd_prev_report : Report
  last_modifiers : UInt8
  pointer_held : UInt8 → Bool
  pointer_release_at : UInt8 → Nat
  current_repeat_key : UInt8
  next_repeat_ms : Nat
  repeat_phase : Bool
  gui_redraw_needed : Bool

def pointer_usages : List UInt8 :=
  [0x54, 0x55, 0x56, 0x57, 0x58, 0x59, 0x5a, 0x5b, 0x5c, 0x5d, 0x5e, 0x5f, 0x60, 0x61, 0x62, 0x63]

def usb_keyboard_pointer_update_holds (k : UsbKeyboard) (report : Report) (now : Nat) :
    UsbKeyboard :=
  pointer_usages.foldl
    (fun k usage =>
      if usb_key_in_report usage report then
        { k with
          pointer_held := fun u => if u = usage then true else k.pointer_held u
          pointer_release_at := fun u => if u = usage then 0 else k.pointer_release_at u }
      else if k.pointer_held usage && k.pointer_release_at usage == 0 then
        { k with
          pointer_release_at := fun u =>
            if u = usage then (now + USB_KBD_POINTER_RELEASE_GRACE_MS) % 2 ^ 32
            else k.pointer_release_at u }
      else k)
    k

def modifier (mods : UInt8) (i : Fin 8) : Bool := mods.toNat.testBit i

def modifier_events (prev_mods mods : UInt8) : List raw_input_event :=
  (List.finRange 8).filterMap fun i =>
    if modifier mods i != modifier prev_mods i then
      some ⟨0, 1, mod_code i, if modifier mods i then 1 else 0⟩
    else none

/-- The loops over the keys of one report that the other one lacks. -/
def key_events (value : Nat) (report other : Report) : List raw_input_event :=
  ([2, 3, 4, 5, 6, 7] : List (Fin 8)).filterMap fun i =>
    let key := report i
    if key ≥ 4 && !usb_key_in_report key other then
      let code := usb_hid_key_to_linux key.toNat
      if code ≠ 0 ∧ usb_keyboard_usage_is_pointer key = false then some ⟨0, 1, code, value⟩
      else none
    else none

/-- The keys that begin to repeat, in the order of the loop. -/
def repeat_keys (report other : Report) : List UInt8 :=
  (([2, 3, 4, 5, 6, 7] : List (Fin 8)).map report).filter fun key =>
    key ≥ 4 && !usb_key_in_report key other && !usb_keyboard_usage_is_pointer key

/-- `usb_keyboard_apply_report` for a report in `kbd_report`, with the events it enqueues. The
timer is read twice. -/
def usb_keyboard_apply_report (k : UsbKeyboard) (token : Nat) (report : Report)
    (now later : Nat) : UsbKeyboard × List raw_input_event :=
  if token &&& EHCI_QTD_HALTED ≠ 0 then (k, [])
  else
    let k := usb_keyboard_pointer_update_holds k report now
    let events := modifier_events k.last_modifiers (report 0) ++
      key_events 0 k.kbd_prev_report report ++ key_events 1 report k.kbd_prev_report
    let k := match (repeat_keys report k.kbd_prev_report).getLast? with
      | some key =>
        { k with
          current_repeat_key := key, next_repeat_ms := (later + 400) % 2 ^ 32, repeat_phase := true }
      | none => k
    let k :=
      if k.current_repeat_key ≠ 0 ∧ usb_key_in_report k.current_repeat_key report = false then
        { k with current_repeat_key := 0, repeat_phase := false }
      else k
    ({ k with
        last_modifiers := report 0
        kbd_prev_report := report
        gui_redraw_needed := k.gui_redraw_needed || !events.isEmpty },
      events)

/-! ## What a report holds -/

/-- The keys that a report has down: its modifiers, and its keys that are mapped and not the
pointer's. -/
def Holds (report : Report) (code : Nat) : Prop :=
  (∃ i, modifier (report 0) i = true ∧ mod_code i = code) ∨
    ∃ key, usb_key_in_report key report = true ∧ usb_keyboard_usage_is_pointer key = false ∧
      code ≠ 0 ∧ usb_hid_key_to_linux key.toNat = code

theorem mod_code_inj : ∀ i j, mod_code i = mod_code j → i = j := by decide

def hid_of (code : Nat) : Option Nat :=
  (List.range 128).find? fun usage => usb_hid_key_to_linux usage == code

theorem hid_of_key : ∀ a : Fin 128, usb_hid_key_to_linux a ≠ 0 →
    hid_of (usb_hid_key_to_linux a) = some a ∧ ∀ i, mod_code i ≠ usb_hid_key_to_linux a := by
  decide +kernel

theorem usage_lt {usage : Nat} (h : usb_hid_key_to_linux usage ≠ 0) : usage < 128 := by
  by_contra hle
  obtain ⟨k, rfl⟩ := Nat.exists_eq_add_of_le' (Nat.le_of_not_lt hle)
  exact h rfl

theorem hid_key_inj {a b : UInt8} {code : Nat} (hcode : code ≠ 0)
    (ha : usb_hid_key_to_linux a.toNat = code) (hb : usb_hid_key_to_linux b.toNat = code) :
    a = b := by
  have hfind {c : UInt8} (hc : usb_hid_key_to_linux c.toNat = code) :
      hid_of code = some c.toNat := by
    have hne : usb_hid_key_to_linux c.toNat ≠ 0 := by rwa [hc]
    have := (hid_of_key ⟨c.toNat, usage_lt hne⟩ hne).1
    rwa [hc] at this
  have heq := (hfind ha).symm.trans (hfind hb)
  exact UInt8.toNat_inj.mp (Option.some.inj heq)

theorem mod_code_ne_key {usage : Nat} (h : usb_hid_key_to_linux usage ≠ 0) (i : Fin 8) :
    mod_code i ≠ usb_hid_key_to_linux usage :=
  (hid_of_key ⟨usage, usage_lt h⟩ h).2 i

/-! ## The events of one report -/

theorem mem_modifier_events {prev_mods mods : UInt8} {ev : raw_input_event} :
    ev ∈ modifier_events prev_mods mods ↔
      ∃ i, modifier mods i ≠ modifier prev_mods i ∧
        ev = ⟨0, 1, mod_code i, if modifier mods i then 1 else 0⟩ := by
  unfold modifier_events
  rw [List.mem_filterMap]
  constructor
  · rintro ⟨i, -, hi⟩
    split at hi
    · rename_i hne
      exact ⟨i, by simpa using hne, (Option.some.inj hi).symm⟩
    · cases hi
  · rintro ⟨i, hne, rfl⟩
    refine ⟨i, List.mem_finRange i, ?_⟩
    rw [if_pos (by simpa using hne)]

theorem usb_key_in_report_iff {key : UInt8} {report : Report} :
    usb_key_in_report key report = true ↔
      ∃ i ∈ ([2, 3, 4, 5, 6, 7] : List (Fin 8)), report i = key := by
  unfold usb_key_in_report
  rw [List.any_eq_true]
  simp only [beq_iff_eq]

theorem le_key {key : UInt8} (h : usb_hid_key_to_linux key.toNat ≠ 0) : 4 ≤ key := by
  rw [UInt8.le_iff_toNat_le]
  by_contra hlt
  have hsmall : ∀ a : Fin 4, usb_hid_key_to_linux a = 0 := by decide
  exact h (hsmall ⟨key.toNat, by simpa using hlt⟩)

theorem mem_key_events {value : Nat} {report other : Report} {ev : raw_input_event} :
    ev ∈ key_events value report other ↔
      ∃ key, usb_key_in_report key report = true ∧ usb_key_in_report key other = false ∧
        usb_keyboard_usage_is_pointer key = false ∧ usb_hid_key_to_linux key.toNat ≠ 0 ∧
        ev = ⟨0, 1, usb_hid_key_to_linux key.toNat, value⟩ := by
  unfold key_events
  rw [List.mem_filterMap]
  constructor
  · rintro ⟨i, hi, hev⟩
    dsimp only at hev
    split at hev
    · rename_i hnew
      split at hev
      · rename_i hcode
        have hother : usb_key_in_report (report i) other = false := by
          simpa using (Bool.and_eq_true_iff.mp hnew).2
        exact ⟨report i, usb_key_in_report_iff.mpr ⟨i, hi, rfl⟩, hother, hcode.2, hcode.1,
          (Option.some.inj hev).symm⟩
      · cases hev
    · cases hev
  · rintro ⟨key, hin, hother, hpointer, hcode, rfl⟩
    obtain ⟨i, hi, rfl⟩ := usb_key_in_report_iff.mp hin
    refine ⟨i, hi, ?_⟩
    dsimp only
    rw [if_pos (by simp [le_key hcode, hother]), if_pos ⟨hcode, hpointer⟩]

/-! ## What events leave held -/

theorem keyDown_append {code : Nat} {h evs : List raw_input_event} {down : Bool}
    (hkeys : ∀ ev ∈ evs, ev.code = code → IsKey ev ∧ (ev.value != 0) = down) :
    keyDown code (h ++ evs) =
      if ∃ ev ∈ evs, ev.code = code then down else keyDown code h := by
  induction evs using List.reverseRecOn with
  | nil => simp
  | append_singleton evs ev ih =>
    have hbefore := ih fun ev' hev' => hkeys ev' (List.mem_append_left _ hev')
    rw [← List.append_assoc, keyDown_snoc, hbefore]
    by_cases hcode : ev.code = code
    · obtain ⟨hkey, hdown⟩ := hkeys ev (by simp) hcode
      rw [if_pos ⟨hkey, hcode⟩, hdown, if_pos ⟨ev, by simp, hcode⟩]
    · rw [if_neg fun hc => hcode hc.2]
      refine if_congr ?_ rfl rfl
      constructor
      · rintro ⟨ev', hev', hc⟩
        exact ⟨ev', List.mem_append_left _ hev', hc⟩
      · rintro ⟨ev', hev', hc⟩
        rcases List.mem_append.mp hev' with hev' | hev'
        · exact ⟨ev', hev', hc⟩
        · rw [List.mem_singleton.mp hev'] at hc
          exact absurd hc hcode

theorem holds_modifier (report : Report) (i : Fin 8) :
    Holds report (mod_code i) ↔ modifier (report 0) i = true := by
  constructor
  · rintro (⟨j, hj, hcode⟩ | ⟨key, -, -, hne, hcode⟩)
    · rwa [← mod_code_inj _ _ hcode]
    · exact absurd hcode.symm (mod_code_ne_key (by rwa [hcode]) i)
  · intro hi
    exact Or.inl ⟨i, hi, rfl⟩

theorem holds_key (report : Report) {key : UInt8} (hne : usb_hid_key_to_linux key.toNat ≠ 0)
    (hpointer : usb_keyboard_usage_is_pointer key = false) :
    Holds report (usb_hid_key_to_linux key.toNat) ↔ usb_key_in_report key report = true := by
  constructor
  · rintro (⟨i, -, hcode⟩ | ⟨key', hin, -, -, hcode⟩)
    · exact absurd hcode (mod_code_ne_key hne i)
    · rwa [hid_key_inj hne hcode rfl] at hin
  · intro hin
    exact Or.inr ⟨key, hin, hpointer, hne, rfl⟩

theorem modifier_all : ∀ i, modifier 255 i = true := by decide

theorem code_cases (code : Nat) :
    (∃ i, code = mod_code i) ∨
      (∃ key : UInt8, usb_hid_key_to_linux key.toNat ≠ 0 ∧
        usb_keyboard_usage_is_pointer key = false ∧ code = usb_hid_key_to_linux key.toNat) ∨
      ∀ report, ¬ Holds report code := by
  by_cases hmod : ∃ i, code = mod_code i
  · exact Or.inl hmod
  · right
    by_cases hkey : ∃ key : UInt8, usb_hid_key_to_linux key.toNat ≠ 0 ∧
        usb_keyboard_usage_is_pointer key = false ∧ code = usb_hid_key_to_linux key.toNat
    · exact Or.inl hkey
    · right
      rintro report (⟨i, -, hcode⟩ | ⟨key, -, hpointer, hne, hcode⟩)
      · exact hmod ⟨i, hcode.symm⟩
      · exact hkey ⟨key, by rwa [hcode], hpointer, hcode.symm⟩

def between (prev report : Report) : List raw_input_event :=
  modifier_events (prev 0) (report 0) ++ key_events 0 prev report ++ key_events 1 report prev

theorem no_event_of_both {prev report : Report} {code : Nat} (hprev : Holds prev code)
    (hreport : Holds report code) : ∀ ev ∈ between prev report, ev.code ≠ code := by
  intro ev hev hcode
  subst hcode
  rw [between, List.mem_append, List.mem_append] at hev
  rcases hev with (hev | hev) | hev
  · obtain ⟨i, hne, rfl⟩ := mem_modifier_events.mp hev
    exact hne (((holds_modifier report i).mp hreport).trans
      ((holds_modifier prev i).mp hprev).symm)
  · obtain ⟨key, -, hother, hpointer, hne, rfl⟩ := mem_key_events.mp hev
    rw [(holds_key report hne hpointer).mp hreport] at hother
    cases hother
  · obtain ⟨key, -, hother, hpointer, hne, rfl⟩ := mem_key_events.mp hev
    rw [(holds_key prev hne hpointer).mp hprev] at hother
    cases hother

theorem between_holds {prev report : Report} {h : List raw_input_event}
    (hprev : ∀ code, keyDown code h = true ↔ Holds prev code) (code : Nat) :
    keyDown code (h ++ between prev report) = true ↔ Holds report code := by
  have hmods (down : Bool)
      (hdown : ∀ i, mod_code i = code → modifier (report 0) i = down) :
      ∀ ev ∈ modifier_events (prev 0) (report 0), ev.code = code →
        IsKey ev ∧ (ev.value != 0) = down := by
    intro ev hev hcode
    obtain ⟨i, -, rfl⟩ := mem_modifier_events.mp hev
    refine ⟨⟨rfl, rfl⟩, ?_⟩
    rw [← hdown i hcode]
    cases modifier (report 0) i <;> rfl
  have hkeys (value : Nat) (r other : Report) : ∀ ev ∈ key_events value r other, ev.code = code →
      IsKey ev ∧ (ev.value != 0) = (value != 0) := by
    intro ev hev _
    obtain ⟨key, -, -, -, -, rfl⟩ := mem_key_events.mp hev
    exact ⟨⟨rfl, rfl⟩, rfl⟩
  rw [between, ← List.append_assoc, ← List.append_assoc, keyDown_append (hkeys 1 report prev),
    keyDown_append (hkeys 0 prev report)]
  obtain ⟨i, rfl⟩ | ⟨key, hne, hpointer, rfl⟩ | hno := code_cases code
  · -- a modifier: only the first loop tells of it
    have hnokey (value : Nat) (r other : Report) :
        ¬ ∃ ev ∈ key_events value r other, ev.code = mod_code i := by
      rintro ⟨ev, hev, hcode⟩
      obtain ⟨key, -, -, -, hne, rfl⟩ := mem_key_events.mp hev
      exact mod_code_ne_key hne i hcode.symm
    rw [if_neg (hnokey 1 report prev), if_neg (hnokey 0 prev report),
      keyDown_append (hmods (modifier (report 0) i) fun j hj => by rw [mod_code_inj _ _ hj]),
      holds_modifier]
    split_ifs with hchanged
    · rfl
    · have hsame : modifier (report 0) i = modifier (prev 0) i := by
        by_contra hdiff
        exact hchanged ⟨_, mem_modifier_events.mpr ⟨i, hdiff, rfl⟩, rfl⟩
      rw [hprev, holds_modifier, hsame]
  · -- a key: it is released, pressed or neither
    have hnomod : ¬ ∃ ev ∈ modifier_events (prev 0) (report 0),
        ev.code = usb_hid_key_to_linux key.toNat := by
      rintro ⟨ev, hev, hcode⟩
      obtain ⟨i, -, rfl⟩ := mem_modifier_events.mp hev
      exact mod_code_ne_key hne i hcode
    have hevent (value : Nat) (r other : Report) :
        (∃ ev ∈ key_events value r other, ev.code = usb_hid_key_to_linux key.toNat) ↔
          usb_key_in_report key r = true ∧ usb_key_in_report key other = false := by
      constructor
      · rintro ⟨ev, hev, hcode⟩
        obtain ⟨key', hin, hother, -, -, rfl⟩ := mem_key_events.mp hev
        rw [hid_key_inj hne hcode rfl] at hin hother
        exact ⟨hin, hother⟩
      · rintro ⟨hin, hother⟩
        exact ⟨_, mem_key_events.mpr ⟨key, hin, hother, hpointer, hne, rfl⟩, rfl⟩
    have hmodfalse := hmods false fun i hi => absurd hi (mod_code_ne_key hne i)
    rw [keyDown_append hmodfalse, if_neg hnomod, holds_key report hne hpointer]
    simp only [hevent]
    have hbefore := (hprev _).trans (holds_key prev hne hpointer)
    cases hnow : usb_key_in_report key report with
    | true =>
      cases hthen : usb_key_in_report key prev with
      | true => simp [hthen, hbefore]
      | false => simp
    | false =>
      cases hthen : usb_key_in_report key prev with
      | true => simp
      | false =>
        have : ¬ keyDown (usb_hid_key_to_linux key.toNat) h = true := by
          rw [hbefore, hthen]
          simp
        simpa using this
  · -- no report holds it, and no event tells of it
    have hnokey (value : Nat) (r other : Report) :
        ¬ ∃ ev ∈ key_events value r other, ev.code = code := by
      rintro ⟨ev, hev, rfl⟩
      obtain ⟨key, hin, -, hpointer, hne, rfl⟩ := mem_key_events.mp hev
      exact hno r ((holds_key r hne hpointer).mpr hin)
    have hnomod : ¬ ∃ ev ∈ modifier_events (prev 0) (report 0), ev.code = code := by
      rintro ⟨ev, hev, rfl⟩
      obtain ⟨i, -, rfl⟩ := mem_modifier_events.mp hev
      exact hno (fun _ => 255) ((holds_modifier _ i).mpr (modifier_all i))
    have hmodfalse := hmods false fun i hi =>
      absurd ((holds_modifier (fun _ => 255) i).mpr (modifier_all i)) (hi ▸ hno _)
    rw [if_neg (hnokey 1 report prev), if_neg (hnokey 0 prev report), keyDown_append hmodfalse,
      if_neg hnomod, hprev]
    exact iff_of_false (hno prev) (hno report)

/-! ## Sequences of reports -/

/-- One transfer: its status, the report it left in `kbd_report`, and the timer. -/
structure Transfer where
  token : Nat
  report : Report
  now : Nat
  later : Nat

def Transfer.halted (t : Transfer) : Prop := t.token &&& EHCI_QTD_HALTED ≠ 0

instance (t : Transfer) : Decidable t.halted := inferInstanceAs (Decidable (_ ≠ _))

/-- The transfers in their order, with the events of all. -/
def apply_reports (k : UsbKeyboard) (ts : List Transfer) : UsbKeyboard × List raw_input_event :=
  ts.foldl
    (fun r t =>
      let n := usb_keyboard_apply_report r.1 t.token t.report t.now t.later
      (n.1, r.2 ++ n.2))
    (k, [])

def noKeys : Report := fun _ => 0

/-- The last report that came with no error. -/
def lastReport (ts : List Transfer) : Report :=
  ts.foldl (fun r t => if t.halted then r else t.report) noKeys

def UsbKeyboard.fresh : UsbKeyboard :=
  ⟨noKeys, 0, fun _ => false, fun _ => 0, 0, 0, false, false⟩

theorem holds_noKeys (code : Nat) : ¬ Holds noKeys code := by
  rintro (⟨i, hi, -⟩ | ⟨key, hin, -, hne, hcode⟩)
  · revert i
    decide
  · obtain ⟨i, -, hkey⟩ := usb_key_in_report_iff.mp hin
    subst hkey
    exact hne hcode.symm

theorem update_holds_prev (k : UsbKeyboard) (report : Report) (now : Nat) :
    (usb_keyboard_pointer_update_holds k report now).kbd_prev_report = k.kbd_prev_report ∧
      (usb_keyboard_pointer_update_holds k report now).last_modifiers = k.last_modifiers := by
  unfold usb_keyboard_pointer_update_holds
  induction pointer_usages generalizing k with
  | nil => exact ⟨rfl, rfl⟩
  | cons usage rest ih =>
    rw [List.foldl_cons]
    refine (ih _).imp (fun h => h.trans ?_) (fun h => h.trans ?_) <;> split_ifs <;> rfl

theorem apply_report_eq (k : UsbKeyboard) {t : Transfer} (hok : ¬ t.halted)
    (hmods : k.last_modifiers = k.kbd_prev_report 0) :
    let n := usb_keyboard_apply_report k t.token t.report t.now t.later
    n.2 = between k.kbd_prev_report t.report ∧ n.1.kbd_prev_report = t.report ∧
      n.1.last_modifiers = t.report 0 := by
  obtain ⟨hprev, hlast⟩ := update_holds_prev k t.report t.now
  have hgo : ¬ (t.token &&& EHCI_QTD_HALTED ≠ 0) := hok
  unfold usb_keyboard_apply_report
  dsimp only
  rw [if_neg hgo]
  refine ⟨?_, rfl, rfl⟩
  rw [hprev, hlast, hmods]
  rfl

/-- The events of the transfers leave held what the last report holds, and what is held by two
reports in a row has no event between them. -/
theorem reports_leave_held (ts : List Transfer) :
    (∀ code, keyDown code (apply_reports .fresh ts).2 = true ↔ Holds (lastReport ts) code) ∧
      ∀ before t after, ts = before ++ t :: after →
        ∀ code, Holds (lastReport before) code → Holds (lastReport (before ++ [t])) code →
          ∀ ev ∈ (usb_keyboard_apply_report (apply_reports .fresh before).1 t.token t.report t.now
            t.later).2, ev.code ≠ code := by
  have hinv (ts : List Transfer) :
      (apply_reports .fresh ts).1.kbd_prev_report = lastReport ts ∧
        (apply_reports .fresh ts).1.last_modifiers = lastReport ts 0 ∧
        ∀ code, keyDown code (apply_reports .fresh ts).2 = true ↔ Holds (lastReport ts) code := by
    induction ts using List.reverseRecOn with
    | nil =>
      refine ⟨rfl, rfl, fun code => iff_of_false ?_ (holds_noKeys code)⟩
      simp [apply_reports, keyDown]
    | append_singleton ts t ih =>
      obtain ⟨hprev, hmods, hheld⟩ := ih
      have hlast : lastReport (ts ++ [t]) = if t.halted then lastReport ts else t.report := by
        simp [lastReport, List.foldl_append]
      have hstep : apply_reports .fresh (ts ++ [t]) =
          ((usb_keyboard_apply_report (apply_reports .fresh ts).1 t.token t.report t.now t.later).1,
            (apply_reports .fresh ts).2 ++ (usb_keyboard_apply_report (apply_reports .fresh ts).1
              t.token t.report t.now t.later).2) := by
        simp [apply_reports, List.foldl_append]
      rw [hstep, hlast]
      by_cases hhalt : t.halted
      · have hnone : usb_keyboard_apply_report (apply_reports .fresh ts).1 t.token t.report t.now
            t.later = ((apply_reports .fresh ts).1, []) := if_pos hhalt
        rw [hnone, if_pos hhalt, List.append_nil]
        exact ⟨hprev, hmods, hheld⟩
      · obtain ⟨hevents, hreport, hmods'⟩ := apply_report_eq (apply_reports .fresh ts).1 hhalt
          (by rw [hmods, hprev])
        rw [if_neg hhalt, hevents, hprev]
        exact ⟨hreport, hmods', between_holds hheld⟩
  refine ⟨(hinv ts).2.2, ?_⟩
  intro before t after _ code hbefore hafter
  obtain ⟨hprev, hmods, -⟩ := hinv before
  by_cases hhalt : t.halted
  · have hnone : usb_keyboard_apply_report (apply_reports .fresh before).1 t.token t.report t.now
        t.later = ((apply_reports .fresh before).1, []) := if_pos hhalt
    rw [hnone]
    simp
  · have hlast : lastReport (before ++ [t]) = t.report := by
      simp [lastReport, List.foldl_append, hhalt]
    rw [hlast] at hafter
    obtain ⟨hevents, -, -⟩ := apply_report_eq (apply_reports .fresh before).1 hhalt
      (by rw [hmods, hprev])
    rw [hevents, hprev]
    exact no_event_of_both hbefore hafter

end vibeos.input

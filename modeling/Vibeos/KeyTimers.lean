-- The timers of the USB keyboard in virtio_input.c: when a held key repeats and when a key of the
-- pointer is let go, by a counter of milliseconds that wraps.
import Vibeos.EventRuns
import Vibeos.UsbKeyboard

namespace vibeos.input

/-! ## The code -/

/-- What `get_millisecond_timer` returns `ms` milliseconds after the start. -/
def counter (ms : Nat) : Nat := ms % 2 ^ 32

def usb_time_reached (now deadline : Nat) : Bool :=
  deadline != 0 && (now + 2 ^ 32 - deadline) % 2 ^ 32 < 0x80000000

def usb_keyboard_pointer_down (k : UsbKeyboard) (usage : UInt8) (now : Nat) : UsbKeyboard × Bool :=
  if usage ≥ 128 then (k, false)
  else
    let k :=
      if usb_time_reached now (k.pointer_release_at usage) then
        { k with
          pointer_held := fun u => if u = usage then false else k.pointer_held u
          pointer_release_at := fun u => if u = usage then 0 else k.pointer_release_at u }
      else k
    (k, k.pointer_held usage)

/-- A key is held and begins to repeat, or goes on. -/
def Armed (k : UsbKeyboard) : Prop :=
  k.current_repeat_key ≠ 0 ∧ k.repeat_phase = true ∧
    usb_keyboard_usage_is_pointer k.current_repeat_key = false

instance (k : UsbKeyboard) : Decidable (Armed k) := by unfold Armed; infer_instance

/-- The key repeat of `usb_mouse_poll_inner`. -/
def poll_repeat (k : UsbKeyboard) (now : Nat) : UsbKeyboard × List raw_input_event :=
  if Armed k then
    if now ≥ k.next_repeat_ms then
      let code := usb_hid_key_to_linux k.current_repeat_key.toNat
      ({ k with next_repeat_ms := (now + 50) % 2 ^ 32 },
        if code ≠ 0 then [⟨0, 1, code, 1⟩, ⟨0, 1, code, 0⟩] else [])
    else (k, [])
  else (k, [])

/-! ## Runs -/

/-- What a poll of the port calls, with the times that no wrap cuts short. -/
inductive Call
  | report (t : Transfer)
  | poll (now : Nat)
  | down (usage : UInt8) (now : Nat)

def Call.start : Call → Nat
  | .report t => t.now
  | .poll now => now
  | .down _ now => now

def Call.stop : Call → Nat
  | .report t => t.later
  | .poll now => now
  | .down _ now => now

/-- The keyboard beside the times that a clock without a wrap would keep: that of the last call,
that from which the key repeats, and for each key of the pointer when the reports began to lack
it and when it is let go. -/
structure Timed where
  k : UsbKeyboard
  clock : Nat
  due : Nat
  away : UInt8 → Nat
  leaves : UInt8 → Nat

def Lacks (t : Transfer) (usage : UInt8) : Prop :=
  ¬ t.halted ∧ usb_key_in_report usage t.report = false

instance (t : Transfer) (usage : UInt8) : Decidable (Lacks t usage) := by
  unfold Lacks
  infer_instance

def Timed.step (s : Timed) : Call → Timed
  | .report t =>
    { k := (usb_keyboard_apply_report s.k t.token t.report (counter t.now) (counter t.later)).1
      clock := t.later
      due :=
        if t.halted ∨ repeat_keys t.report s.k.kbd_prev_report = [] then s.due else t.later + 400
      away := fun usage =>
        if Lacks t usage ∧ usb_key_in_report usage s.k.kbd_prev_report = true then t.now
        else s.away usage
      leaves := fun usage =>
        if Lacks t usage ∧ s.k.pointer_release_at usage = 0 then t.now + 160 else s.leaves usage }
  | .poll now =>
    { s with
      k := (poll_repeat s.k (counter now)).1
      clock := now
      due := if Armed s.k ∧ counter now ≥ s.k.next_repeat_ms then now + 50 else s.due }
  | .down usage now =>
    { s with k := (usb_keyboard_pointer_down s.k usage (counter now)).1, clock := now }

def Timed.fresh : Timed := ⟨.fresh, 0, 0, fun _ => 0, fun _ => 0⟩

def Timed.run (calls : List Call) : Timed := calls.foldl Timed.step .fresh

theorem Timed.run_snoc (calls : List Call) (c : Call) :
    Timed.run (calls ++ [c]) = (Timed.run calls).step c := by
  simp [Timed.run]

/-! ## What the timers are for -/

/-- The report has a key down that the one before it has not. -/
def Presses (prev : Report) (t : Transfer) (key : UInt8) : Prop :=
  ¬ t.halted ∧ 4 ≤ key ∧ usb_key_in_report key t.report = true ∧ usb_key_in_report key prev = false

/-- The poll enqueues a repeat of the key. -/
def Repeats (k : UsbKeyboard) (now : Nat) (key : UInt8) : Prop :=
  (poll_repeat k (counter now)).2 ≠ [] ∧ k.current_repeat_key = key

def PressedAt (calls : List Call) (key : UInt8) (time : Nat) : Prop :=
  ∃ before t after, calls = before ++ .report t :: after ∧
    Presses (Timed.run before).k.kbd_prev_report t key ∧ t.later = time

def RepeatedAt (calls : List Call) (key : UInt8) (time : Nat) : Prop :=
  ∃ before now after, calls = before ++ .poll now :: after ∧
    Repeats (Timed.run before).k now key ∧ now = time

/-- A report lacks the key, and so does each that came after it. -/
def AbsentSince (calls : List Call) (usage : UInt8) (time : Nat) : Prop :=
  ∃ before t after, calls = before ++ .report t :: after ∧ Lacks t usage ∧ t.now = time ∧
    ∀ t', .report t' ∈ after → t'.halted ∨ Lacks t' usage

/-- A key repeats 400 ms after its press and then every 50 ms, no earlier, and a key of the
pointer is up when the reports have lacked it for 160 ms. -/
def Timely (calls : List Call) : Call → Prop
  | .report _ => True
  | .poll now => ∀ key, Repeats (Timed.run calls).k now key →
      (∃ time, PressedAt calls key time) ∧ (∀ time, PressedAt calls key time → time + 400 ≤ now) ∧
        ∀ time, RepeatedAt calls key time → time + 50 ≤ now
  | .down usage now => (usb_keyboard_pointer_down (Timed.run calls).k usage (counter now)).2 = true →
      ∀ time, AbsentSince calls usage time → now ≤ time + 160

def InOrder (calls : List Call) (c : Call) : Prop :=
  (Timed.run calls).clock ≤ c.start ∧ c.start ≤ c.stop

instance (calls : List Call) (c : Call) : Decidable (InOrder calls c) :=
  inferInstanceAs (Decidable (_ ∧ _))

/-- No wrap of the counter comes between a poll and the later time that its key waits for, and a
key of the pointer that is due to be let go has a deadline, not 0, that lies less than half a
turn of the counter back. -/
def Meets (s : Timed) : Call → Prop
  | .report _ => True
  | .poll now => Armed s.k → usb_hid_key_to_linux s.k.current_repeat_key.toNat ≠ 0 → now < s.due →
      s.due / 2 ^ 32 ≤ now / 2 ^ 32
  | .down usage now => s.k.pointer_held usage = true →
      usb_key_in_report usage s.k.kbd_prev_report = false → s.away usage + 160 < now →
        s.leaves usage ≤ now ∧ counter (s.leaves usage) ≠ 0 ∧
          (now - s.leaves usage) % 2 ^ 32 < 2 ^ 31

instance (s : Timed) : (c : Call) → Decidable (Meets s c)
  | .report _ => inferInstanceAs (Decidable True)
  | .poll _ => by dsimp only [Meets]; infer_instance
  | .down _ _ => by dsimp only [Meets]; infer_instance

/-! ## What each call does -/

/-- What a report says of one key of the pointer: whether it is held, and its deadline. -/
def hold (report : Report) (now : Nat) (usage : UInt8) (st : Bool × Nat) : Bool × Nat :=
  if usb_key_in_report usage report then (true, 0)
  else if st.1 && st.2 == 0 then (st.1, (now + USB_KBD_POINTER_RELEASE_GRACE_MS) % 2 ^ 32)
  else st

def UsbKeyboard.pointer (k : UsbKeyboard) (usage : UInt8) : Bool × Nat :=
  (k.pointer_held usage, k.pointer_release_at usage)

theorem hold_hold (report : Report) (now : Nat) (usage : UInt8) (st : Bool × Nat) :
    hold report now usage (hold report now usage st) = hold report now usage st := by
  unfold hold
  grind

theorem hold_of_lacks {report : Report} {now release : Nat} {usage : UInt8} {st : Bool × Nat}
    (h : usb_key_in_report usage report = false)
    (hst : hold report now usage st = (true, release)) :
    st.1 = true ∧
      release = if st.2 = 0 then (now + USB_KBD_POINTER_RELEASE_GRACE_MS) % 2 ^ 32 else st.2 := by
  unfold hold at hst
  rw [h] at hst
  grind

theorem update_holds_pointer (k : UsbKeyboard) (report : Report) (now : Nat) (usage : UInt8) :
    (usb_keyboard_pointer_update_holds k report now).pointer usage =
      if usage ∈ pointer_usages then hold report now usage (k.pointer usage)
      else k.pointer usage := by
  unfold usb_keyboard_pointer_update_holds
  induction pointer_usages generalizing k with
  | nil => rfl
  | cons u rest ih =>
    rw [List.foldl_cons, ih]
    have hstep : (if usb_key_in_report u report then
        { k with
          pointer_held := fun v => if v = u then true else k.pointer_held v
          pointer_release_at := fun v => if v = u then 0 else k.pointer_release_at v }
      else if k.pointer_held u && k.pointer_release_at u == 0 then
        { k with
          pointer_release_at := fun v =>
            if v = u then (now + USB_KBD_POINTER_RELEASE_GRACE_MS) % 2 ^ 32
            else k.pointer_release_at v }
      else k : UsbKeyboard).pointer usage =
        if usage = u then hold report now usage (k.pointer usage) else k.pointer usage := by
      unfold hold UsbKeyboard.pointer
      by_cases hu : usage = u
      · subst hu
        split_ifs <;> simp_all
      · split_ifs <;> simp [hu]
    rw [hstep]
    by_cases hu : usage = u
    · subst hu
      simp [hold_hold]
    · simp [hu]

/-- The part of the keyboard that repeats. -/
def UsbKeyboard.repeating (k : UsbKeyboard) : UInt8 × Nat × Bool :=
  (k.current_repeat_key, k.next_repeat_ms, k.repeat_phase)

theorem update_holds_repeating (k : UsbKeyboard) (report : Report) (now : Nat) :
    (usb_keyboard_pointer_update_holds k report now).repeating = k.repeating := by
  unfold usb_keyboard_pointer_update_holds
  induction pointer_usages generalizing k with
  | nil => rfl
  | cons usage rest ih =>
    rw [List.foldl_cons]
    refine (ih _).trans ?_
    split_ifs <;> rfl

theorem apply_report_halted (k : UsbKeyboard) {t : Transfer} (h : t.halted) (now later : Nat) :
    (usb_keyboard_apply_report k t.token t.report now later).1 = k := by
  unfold usb_keyboard_apply_report
  rw [if_pos (by exact h)]

theorem apply_report_prev (k : UsbKeyboard) {t : Transfer} (h : ¬ t.halted) (now later : Nat) :
    (usb_keyboard_apply_report k t.token t.report now later).1.kbd_prev_report = t.report := by
  unfold usb_keyboard_apply_report
  rw [if_neg (by exact h)]

theorem apply_report_pointer (k : UsbKeyboard) {t : Transfer} (h : ¬ t.halted) (now later : Nat)
    (usage : UInt8) :
    (usb_keyboard_apply_report k t.token t.report now later).1.pointer usage =
      if usage ∈ pointer_usages then hold t.report now usage (k.pointer usage)
      else k.pointer usage := by
  rw [← update_holds_pointer]
  unfold usb_keyboard_apply_report
  rw [if_neg (by exact h)]
  dsimp only
  unfold UsbKeyboard.pointer
  grind

theorem apply_report_repeating (k : UsbKeyboard) {t : Transfer} (h : ¬ t.halted) (now later : Nat)
    (harmed : Armed (usb_keyboard_apply_report k t.token t.report now later).1) :
    let k' := (usb_keyboard_apply_report k t.token t.report now later).1
    (k'.current_repeat_key ∈ repeat_keys t.report k.kbd_prev_report ∧
        k'.next_repeat_ms = (later + 400) % 2 ^ 32) ∨
      repeat_keys t.report k.kbd_prev_report = [] ∧ k'.repeating = k.repeating ∧ Armed k := by
  have hgo : ¬ (t.token &&& EHCI_QTD_HALTED ≠ 0) := h
  have hprev := (update_holds_prev k t.report now).1
  have hsame := update_holds_repeating k t.report now
  unfold usb_keyboard_apply_report at harmed ⊢
  rw [if_neg hgo] at harmed ⊢
  dsimp only at harmed ⊢
  generalize usb_keyboard_pointer_update_holds k t.report now = u at hprev hsame harmed ⊢
  rw [hprev] at harmed ⊢
  unfold UsbKeyboard.repeating at hsame ⊢
  simp only [Prod.mk.injEq] at hsame
  obtain ⟨hkey, hnext, hphase⟩ := hsame
  cases hlast : (repeat_keys t.report k.kbd_prev_report).getLast? with
  | none =>
    right
    simp only [hlast] at harmed ⊢
    split_ifs at harmed ⊢
    · exact absurd rfl harmed.1
    · unfold Armed at harmed ⊢
      simp only [hkey, hnext, hphase] at harmed ⊢
      exact ⟨List.getLast?_eq_none_iff.mp hlast, trivial, harmed⟩
  | some key =>
    left
    have hmem := List.mem_of_getLast? hlast
    simp only [hlast] at harmed ⊢
    split_ifs at harmed ⊢
    · exact absurd rfl harmed.1
    · exact ⟨hmem, rfl⟩

theorem mem_repeat_keys {report prev : Report} {key : UInt8} :
    key ∈ repeat_keys report prev ↔ 4 ≤ key ∧ usb_key_in_report key report = true ∧
      usb_key_in_report key prev = false ∧ usb_keyboard_usage_is_pointer key = false := by
  unfold repeat_keys
  rw [List.mem_filter, List.mem_map, ← usb_key_in_report_iff]
  simp only [Bool.and_eq_true, decide_eq_true_eq, Bool.not_eq_true', ge_iff_le]
  tauto

theorem poll_repeat_keeps (k : UsbKeyboard) (now : Nat) :
    (poll_repeat k now).1 = { k with next_repeat_ms := (poll_repeat k now).1.next_repeat_ms } := by
  unfold poll_repeat
  split_ifs <;> rfl

theorem poll_repeat_next (k : UsbKeyboard) (now : Nat) :
    (poll_repeat k now).1.next_repeat_ms =
      if Armed k ∧ now ≥ k.next_repeat_ms then (now + 50) % 2 ^ 32 else k.next_repeat_ms := by
  unfold poll_repeat
  split_ifs <;> simp_all

theorem repeats_iff_due (k : UsbKeyboard) (now : Nat) (key : UInt8) :
    Repeats k now key ↔ Armed k ∧ k.next_repeat_ms ≤ counter now ∧
      usb_hid_key_to_linux k.current_repeat_key.toNat ≠ 0 ∧ k.current_repeat_key = key := by
  unfold Repeats poll_repeat
  split_ifs <;> simp_all

theorem pointer_down_keeps (k : UsbKeyboard) (usage : UInt8) (now : Nat) :
    (usb_keyboard_pointer_down k usage now).1.repeating = k.repeating ∧
      (usb_keyboard_pointer_down k usage now).1.kbd_prev_report = k.kbd_prev_report := by
  unfold usb_keyboard_pointer_down
  split_ifs <;> exact ⟨rfl, rfl⟩

theorem pointer_down_pointer (k : UsbKeyboard) (usage u : UInt8) (now : Nat) :
    (usb_keyboard_pointer_down k usage now).1.pointer u =
      if u = usage ∧ usage < 128 ∧ usb_time_reached now (k.pointer_release_at usage) = true then
        (false, 0)
      else k.pointer u := by
  unfold usb_keyboard_pointer_down UsbKeyboard.pointer
  grind

theorem pointer_down_answer (k : UsbKeyboard) (usage : UInt8) (now : Nat) :
    (usb_keyboard_pointer_down k usage now).2 = true ↔ usage < 128 ∧
      k.pointer_held usage = true ∧ usb_time_reached now (k.pointer_release_at usage) = false := by
  unfold usb_keyboard_pointer_down
  grind

/-! ## What has happened -/

theorem pressedAt_snoc {calls : List Call} {c : Call} {key : UInt8} {time : Nat} :
    PressedAt (calls ++ [c]) key time ↔
      (∃ t, c = .report t ∧ Presses (Timed.run calls).k.kbd_prev_report t key ∧ t.later = time) ∨
        PressedAt calls key time :=
  Runs.exists_snoc

theorem repeatedAt_snoc {calls : List Call} {c : Call} {key : UInt8} {time : Nat} :
    RepeatedAt (calls ++ [c]) key time ↔
      (∃ now, c = .poll now ∧ Repeats (Timed.run calls).k now key ∧ now = time) ∨
        RepeatedAt calls key time :=
  Runs.exists_snoc

theorem absentSince_snoc {calls : List Call} {c : Call} {usage : UInt8} {time : Nat} :
    AbsentSince (calls ++ [c]) usage time ↔
      (∃ t, c = .report t ∧ Lacks t usage ∧ t.now = time) ∨
        AbsentSince calls usage time ∧ ∀ t, c = .report t → t.halted ∨ Lacks t usage := by
  refine (Runs.exists_snoc (f := Call.report)).trans (or_congr (by simp) ?_)
  constructor
  · rintro ⟨before, t, after, hcalls, hlacks, htime, hafter⟩
    refine ⟨⟨before, t, after, hcalls, hlacks, htime, fun t' ht' => ?_⟩, fun t' hc => ?_⟩
    · exact hafter t' (List.mem_append_left _ ht')
    · exact hafter t' (by simp [hc])
  · rintro ⟨⟨before, t, after, hcalls, hlacks, htime, hafter⟩, hlast⟩
    refine ⟨before, t, after, hcalls, hlacks, htime, fun t' ht' => ?_⟩
    rcases List.mem_append.mp ht' with ht' | ht'
    · exact hafter t' ht'
    · exact hlast t' (List.mem_singleton.mp ht').symm

/-- The deadline of the key that repeats is that of its last press or repeat. -/
structure Awaits (calls : List Call) (s : Timed) : Prop where
  pressed : ∀ key time, PressedAt calls key time → time ≤ s.clock
  repeated : ∀ key time, RepeatedAt calls key time → time ≤ s.clock
  next : Armed s.k → s.k.next_repeat_ms = counter s.due ∧ s.due ≤ s.clock + 400
  press : Armed s.k → ∃ time, PressedAt calls s.k.current_repeat_key time
  late : Armed s.k → usb_hid_key_to_linux s.k.current_repeat_key.toNat ≠ 0 →
    (∀ time, PressedAt calls s.k.current_repeat_key time → time + 400 ≤ s.due) ∧
      ∀ time, RepeatedAt calls s.k.current_repeat_key time → time + 50 ≤ s.due
  early : Armed s.k → usb_hid_key_to_linux s.k.current_repeat_key.toNat ≠ 0 →
    ∃ time, PressedAt calls s.k.current_repeat_key time ∧ s.due = time + 400 ∨
      RepeatedAt calls s.k.current_repeat_key time ∧ s.due = time + 50

/-- A key of the pointer that the last report lacks has the deadline of a report that lacked it. -/
structure Watches (calls : List Call) (s : Timed) : Prop where
  absent : ∀ usage time, AbsentSince calls usage time → time ≤ s.clock
  held : ∀ usage, s.k.pointer_held usage = true → usage ∈ pointer_usages
  there : ∀ usage, usb_key_in_report usage s.k.kbd_prev_report = true →
    (∀ time, ¬ AbsentSince calls usage time) ∧
      (s.k.pointer_held usage = true → s.k.pointer_release_at usage = 0)
  gone : ∀ usage, s.k.pointer_held usage = true →
    usb_key_in_report usage s.k.kbd_prev_report = false →
      AbsentSince calls usage (s.away usage) ∧
        (∀ time, AbsentSince calls usage time → s.away usage ≤ time) ∧
        s.k.pointer_release_at usage = counter (s.leaves usage) ∧
        s.away usage + 160 ≤ s.leaves usage ∧ s.leaves usage ≤ s.clock + 160

theorem Awaits.mono {calls calls' : List Call} {s s' : Timed} (h : Awaits calls s)
    (hp : ∀ key time, PressedAt calls' key time ↔ PressedAt calls key time)
    (hr : ∀ key time, RepeatedAt calls' key time ↔ RepeatedAt calls key time)
    (hk : s'.k.repeating = s.k.repeating) (hdue : s'.due = s.due) (hclock : s.clock ≤ s'.clock) :
    Awaits calls' s' := by
  unfold UsbKeyboard.repeating at hk
  simp only [Prod.mk.injEq] at hk
  obtain ⟨hkey, hnext, hphase⟩ := hk
  have harmed : Armed s'.k ↔ Armed s.k := by simp [Armed, hkey, hphase]
  constructor <;> simp only [hp, hr, harmed, hkey, hnext, hdue]
  · exact fun key time hpressed => (h.pressed key time hpressed).trans hclock
  · exact fun key time hrepeated => (h.repeated key time hrepeated).trans hclock
  · exact fun ha => (h.next ha).imp_right fun hdue => hdue.trans (by omega)
  · exact h.press
  · exact h.late
  · exact h.early

theorem Watches.mono {calls calls' : List Call} {s s' : Timed} (h : Watches calls s)
    (ha : ∀ usage time, AbsentSince calls' usage time ↔ AbsentSince calls usage time)
    (hk : ∀ usage, s'.k.pointer usage = s.k.pointer usage)
    (hprev : s'.k.kbd_prev_report = s.k.kbd_prev_report) (haway : s'.away = s.away)
    (hleaves : s'.leaves = s.leaves) (hclock : s.clock ≤ s'.clock) : Watches calls' s' := by
  unfold UsbKeyboard.pointer at hk
  simp only [Prod.mk.injEq] at hk
  constructor <;> simp only [ha, hk, hprev, haway, hleaves]
  · exact fun usage time habsent => (h.absent usage time habsent).trans hclock
  · exact h.held
  · exact h.there
  · intro usage hheld hgone
    obtain ⟨hsince, hfirst, hrelease, hlate, hsoon⟩ := h.gone usage hheld hgone
    exact ⟨hsince, hfirst, hrelease, hlate, hsoon.trans (by omega)⟩

theorem counter_add (now n : Nat) : (counter now + n) % 2 ^ 32 = counter (now + n) := by
  unfold counter
  omega

theorem due_le_of_counter {due now : Nat} (h : counter due ≤ counter now)
    (hwrap : now < due → due / 2 ^ 32 ≤ now / 2 ^ 32) : due ≤ now := by
  unfold counter at h
  omega

section

variable {calls : List Call}

theorem Awaits.poll (h : Awaits calls (Timed.run calls)) {now : Nat}
    (hnow : (Timed.run calls).clock ≤ now) (hmeets : Meets (Timed.run calls) (.poll now)) :
    Awaits (calls ++ [.poll now]) ((Timed.run calls).step (.poll now)) := by
  have hp (key : UInt8) (time : Nat) : PressedAt (calls ++ [.poll now]) key time ↔
      PressedAt calls key time := by
    simp [pressedAt_snoc]
  have hr (key : UInt8) (time : Nat) : RepeatedAt (calls ++ [.poll now]) key time ↔
      (now = time ∧ Repeats (Timed.run calls).k time key) ∨ RepeatedAt calls key time := by
    simp [repeatedAt_snoc]
  generalize Timed.run calls = s at h hnow hmeets hr ⊢
  have hkeeps := poll_repeat_keeps s.k (counter now)
  have hnext := poll_repeat_next s.k (counter now)
  by_cases hfires : Armed s.k ∧ counter now ≥ s.k.next_repeat_ms
  · obtain ⟨harmed, hge⟩ := hfires
    obtain ⟨hsame, hsoon⟩ := h.next harmed
    rw [if_pos ⟨harmed, hge⟩, counter_add] at hnext
    have harmed' : Armed (poll_repeat s.k (counter now)).1 := by
      rw [hkeeps]
      exact harmed
    have hkey : (poll_repeat s.k (counter now)).1.current_repeat_key = s.k.current_repeat_key := by
      rw [hkeeps]
    constructor <;> simp only [Timed.step, hp, hr, hkey, hnext, if_pos (And.intro harmed hge)]
    · exact fun key time hpressed => (h.pressed key time hpressed).trans hnow
    · rintro key time (⟨rfl, -⟩ | hrepeated)
      · exact le_rfl
      · exact (h.repeated key time hrepeated).trans hnow
    · exact fun _ => ⟨trivial, by omega⟩
    · exact fun _ => h.press harmed
    · intro _ hcode
      obtain ⟨hpresses, hrepeats⟩ := h.late harmed hcode
      have hdue : s.due ≤ now := due_le_of_counter (hsame ▸ hge) (hmeets harmed hcode)
      constructor
      · intro time hpressed
        have := hpresses time hpressed
        omega
      · rintro time (⟨rfl, -⟩ | hrepeated)
        · exact le_rfl
        · have := hrepeats time hrepeated
          omega
    · intro _ hcode
      have hrepeats : Repeats s.k now s.k.current_repeat_key :=
        (repeats_iff_due _ _ _).mpr ⟨harmed, hge, hcode, rfl⟩
      exact ⟨now, .inr ⟨.inl ⟨rfl, hrepeats⟩, rfl⟩⟩
  · rw [if_neg hfires] at hnext
    refine h.mono hp (fun key time => ?_) ?_ (if_neg hfires) hnow
    · rw [hr]
      apply or_iff_right
      rintro ⟨rfl, hrep⟩
      obtain ⟨harmed, hge, -⟩ := (repeats_iff_due _ _ _).mp hrep
      exact hfires ⟨harmed, hge⟩
    · simp only [Timed.step]
      rw [hkeeps, hnext]

theorem Watches.poll {s : Timed} (h : Watches calls s) {now : Nat} (hnow : s.clock ≤ now) :
    Watches (calls ++ [.poll now]) (s.step (.poll now)) := by
  have hkeeps := poll_repeat_keeps s.k (counter now)
  refine h.mono (fun usage time => by simp [absentSince_snoc]) (fun usage => ?_) ?_ rfl rfl hnow
  · simp only [Timed.step]
    rw [hkeeps]
    rfl
  · simp only [Timed.step]
    rw [hkeeps]

theorem Awaits.down {s : Timed} (h : Awaits calls s) {usage : UInt8} {now : Nat}
    (hnow : s.clock ≤ now) :
    Awaits (calls ++ [.down usage now]) (s.step (.down usage now)) :=
  h.mono (fun key time => by simp [pressedAt_snoc]) (fun key time => by simp [repeatedAt_snoc])
    (pointer_down_keeps s.k usage (counter now)).1 rfl hnow

theorem Watches.down {s : Timed} (h : Watches calls s) {usage : UInt8} {now : Nat}
    (hnow : s.clock ≤ now) :
    Watches (calls ++ [.down usage now]) (s.step (.down usage now)) := by
  have ha (u : UInt8) (time : Nat) : AbsentSince (calls ++ [.down usage now]) u time ↔
      AbsentSince calls u time := by
    simp [absentSince_snoc]
  have hprev := (pointer_down_keeps s.k usage (counter now)).2
  have hpointer (u : UInt8) := pointer_down_pointer s.k usage u (counter now)
  unfold UsbKeyboard.pointer at hpointer
  -- The key that is let go is not held, and all others are as they were.
  have hheld {u : UInt8}
      (hu : (usb_keyboard_pointer_down s.k usage (counter now)).1.pointer_held u = true) :
      s.k.pointer_held u = true ∧
        (usb_keyboard_pointer_down s.k usage (counter now)).1.pointer_release_at u =
          s.k.pointer_release_at u := by
    have := hpointer u
    split_ifs at this <;> simp_all
  constructor <;> simp only [Timed.step, ha, hprev]
  · exact fun u time habsent => (h.absent u time habsent).trans hnow
  · exact fun u hu => h.held u (hheld hu).1
  · intro u hin
    refine ⟨(h.there u hin).1, fun hu => ?_⟩
    rw [(hheld hu).2]
    exact (h.there u hin).2 (hheld hu).1
  · intro u hu hout
    obtain ⟨hsince, hfirst, hrelease, hlate, hsoon⟩ := h.gone u (hheld hu).1 hout
    rw [(hheld hu).2]
    exact ⟨hsince, hfirst, hrelease, hlate, hsoon.trans (by omega)⟩

theorem Awaits.report (h : Awaits calls (Timed.run calls)) {t : Transfer}
    (hnow : (Timed.run calls).clock ≤ t.later) :
    Awaits (calls ++ [.report t]) ((Timed.run calls).step (.report t)) := by
  have hp (key : UInt8) (time : Nat) : PressedAt (calls ++ [.report t]) key time ↔
      (Presses (Timed.run calls).k.kbd_prev_report t key ∧ t.later = time) ∨
        PressedAt calls key time := by
    simp [pressedAt_snoc]
  have hr (key : UInt8) (time : Nat) : RepeatedAt (calls ++ [.report t]) key time ↔
      RepeatedAt calls key time := by
    simp [repeatedAt_snoc]
  generalize Timed.run calls = s at h hnow hp ⊢
  by_cases hhalt : t.halted
  · refine h.mono (fun key time => ?_) hr ?_ (by simp [Timed.step, hhalt]) hnow
    · rw [hp]
      exact or_iff_right fun hpress => hpress.1.1 hhalt
    · simp only [Timed.step]
      rw [apply_report_halted s.k hhalt]
  · have hcases := apply_report_repeating s.k hhalt (counter t.now) (counter t.later)
    generalize hk : (usb_keyboard_apply_report s.k t.token t.report (counter t.now)
      (counter t.later)).1 = k' at hcases
    dsimp only at hcases
    have hpress {key : UInt8} (hkey : key ∈ repeat_keys t.report s.k.kbd_prev_report) :
        PressedAt (calls ++ [.report t]) key t.later := by
      obtain ⟨hle, hin, hprev, -⟩ := mem_repeat_keys.mp hkey
      exact (hp key t.later).mpr (.inl ⟨⟨hhalt, hle, hin, hprev⟩, rfl⟩)
    -- A key that repeats on was not pressed by this report.
    have hold {key : UInt8} {time : Nat} (hnone : repeat_keys t.report s.k.kbd_prev_report = [])
        (hpointer : usb_keyboard_usage_is_pointer key = false) :
        PressedAt (calls ++ [.report t]) key time ↔ PressedAt calls key time := by
      rw [hp]
      apply or_iff_right
      rintro ⟨⟨-, hle, hin, hprev⟩, -⟩
      have hmem := mem_repeat_keys.mpr ⟨hle, hin, hprev, hpointer⟩
      rw [hnone] at hmem
      cases hmem
    have hsplit (harmed : Armed k') :
        (k'.current_repeat_key ∈ repeat_keys t.report s.k.kbd_prev_report ∧
          k'.next_repeat_ms = counter (t.later + 400) ∧
          ((Timed.step s (.report t)).due = t.later + 400)) ∨
        (repeat_keys t.report s.k.kbd_prev_report = [] ∧ Armed s.k ∧
          k'.current_repeat_key = s.k.current_repeat_key ∧
          k'.next_repeat_ms = s.k.next_repeat_ms ∧ (Timed.step s (.report t)).due = s.due) := by
      rcases hcases harmed with ⟨hmem, hnext⟩ | ⟨hnone, hsame, harmed'⟩
      · refine .inl ⟨hmem, hnext.trans (counter_add t.later 400), if_neg ?_⟩
        rintro (hh | hnone)
        · exact hhalt hh
        · rw [hnone] at hmem
          cases hmem
      · unfold UsbKeyboard.repeating at hsame
        simp only [Prod.mk.injEq] at hsame
        exact .inr ⟨hnone, harmed', hsame.1, hsame.2.1, if_pos (.inr hnone)⟩
    have hk' : (Timed.step s (.report t)).k = k' := hk
    have hclock : (Timed.step s (.report t)).clock = t.later := rfl
    constructor <;> simp only [hk', hclock, hr]
    · intro key time hpressed
      rcases (hp key time).mp hpressed with ⟨-, rfl⟩ | hpressed
      · exact le_rfl
      · exact (h.pressed key time hpressed).trans hnow
    · exact fun key time hrepeated => (h.repeated key time hrepeated).trans hnow
    · intro harmed
      rcases hsplit harmed with ⟨-, hnext, hdue⟩ | ⟨-, harmed', -, hnext, hdue⟩
      · exact ⟨hdue ▸ hnext, hdue.le⟩
      · obtain ⟨hcounter, hsoon⟩ := h.next harmed'
        exact ⟨hnext.trans (hdue ▸ hcounter), by omega⟩
    · intro harmed
      rcases hsplit harmed with ⟨hmem, -⟩ | ⟨hnone, harmed', hkey, -⟩
      · exact ⟨t.later, hpress hmem⟩
      · obtain ⟨time, hpressed⟩ := h.press harmed'
        exact ⟨time, (hp _ time).mpr (.inr (hkey ▸ hpressed))⟩
    · intro harmed hcode
      rcases hsplit harmed with ⟨-, -, hdue⟩ | ⟨hnone, harmed', hkey, -, hdue⟩
      · constructor
        · intro time hpressed
          rcases (hp _ time).mp hpressed with ⟨-, rfl⟩ | hpressed
          · exact hdue.ge
          · have := h.pressed _ time hpressed
            omega
        · intro time hrepeated
          have := h.repeated _ time hrepeated
          omega
      · rw [hkey] at hcode ⊢
        simp only [hold hnone harmed'.2.2, hdue]
        exact h.late harmed' hcode
    · intro harmed hcode
      rcases hsplit harmed with ⟨hmem, -, hdue⟩ | ⟨hnone, harmed', hkey, -, hdue⟩
      · exact ⟨t.later, .inl ⟨hpress hmem, hdue⟩⟩
      · rw [hkey] at hcode ⊢
        simp only [hold hnone harmed'.2.2, hdue]
        exact h.early harmed' hcode

theorem Watches.report {s : Timed} (h : Watches calls s) {t : Transfer} (hnow : s.clock ≤ t.now)
    (hlater : t.now ≤ t.later) : Watches (calls ++ [.report t]) (s.step (.report t)) := by
  have ha (usage : UInt8) (time : Nat) : AbsentSince (calls ++ [.report t]) usage time ↔
      (Lacks t usage ∧ t.now = time) ∨
        AbsentSince calls usage time ∧ (t.halted ∨ Lacks t usage) := by
    simp [absentSince_snoc]
  by_cases hhalt : t.halted
  · have hlacks (usage : UInt8) : ¬ Lacks t usage := fun hl => hl.1 hhalt
    refine h.mono (fun usage time => ?_) (fun usage => ?_) ?_ ?_ ?_ (hnow.trans hlater)
    · simp [ha, hlacks, hhalt]
    · simp only [Timed.step]
      rw [apply_report_halted s.k hhalt]
    · simp only [Timed.step]
      rw [apply_report_halted s.k hhalt]
    · simp [Timed.step, hlacks]
    · simp [Timed.step, hlacks]
  · have hprev := apply_report_prev s.k hhalt (counter t.now) (counter t.later)
    have hpointer := apply_report_pointer s.k hhalt (counter t.now) (counter t.later)
    have hheld (usage : UInt8) (hu : (Timed.step s (.report t)).k.pointer_held usage = true) :
        usage ∈ pointer_usages := by
      by_contra hmem
      have hsame := hpointer usage
      rw [if_neg hmem] at hsame
      exact hmem (h.held usage ((congrArg Prod.fst hsame).symm.trans hu))
    have hhold (usage : UInt8) (hu : (Timed.step s (.report t)).k.pointer_held usage = true) :
        (true, (Timed.step s (.report t)).k.pointer_release_at usage) =
          hold t.report (counter t.now) usage (s.k.pointer usage) := by
      rw [← hu]
      exact (hpointer usage).trans (if_pos (hheld usage hu))
    have hgone {usage : UInt8}
        (hout : usb_key_in_report usage (Timed.step s (.report t)).k.kbd_prev_report = false) :
        Lacks t usage :=
      ⟨hhalt, hprev ▸ hout⟩
    constructor
    · intro usage time habsent
      rcases (ha usage time).mp habsent with ⟨-, rfl⟩ | ⟨habsent, -⟩
      · exact hlater
      · exact (h.absent usage time habsent).trans (hnow.trans hlater)
    · exact hheld
    · intro usage hin
      have hreport : usb_key_in_report usage t.report = true := hprev ▸ hin
      constructor
      · intro time habsent
        have hno : ¬ Lacks t usage := by simp [Lacks, hreport]
        simp [ha, hno, hhalt] at habsent
      · intro hu
        have := hhold usage hu
        simpa [hold, hreport] using this
    · intro usage hu hout
      have hlacks := hgone hout
      obtain ⟨hwas, hrelease⟩ := hold_of_lacks hlacks.2 (hhold usage hu).symm
      rw [USB_KBD_POINTER_RELEASE_GRACE_MS, counter_add] at hrelease
      unfold UsbKeyboard.pointer at hwas hrelease
      dsimp only at hwas hrelease
      have hleaves : (Timed.step s (.report t)).leaves usage =
          if s.k.pointer_release_at usage = 0 then t.now + 160 else s.leaves usage := by
        simp [Timed.step, hlacks]
      have haway : (Timed.step s (.report t)).away usage =
          if usb_key_in_report usage s.k.kbd_prev_report = true then t.now
          else s.away usage := by
        simp [Timed.step, hlacks]
      have hclock : (Timed.step s (.report t)).clock = t.later := rfl
      rw [hrelease, hleaves, haway, hclock]
      simp only [ha, hlacks, true_and, or_true, and_true]
      by_cases hin : usb_key_in_report usage s.k.kbd_prev_report = true
      · obtain ⟨hnone, hzero⟩ := h.there usage hin
        rw [if_pos (hzero hwas), if_pos (hzero hwas), if_pos hin]
        simp only [hnone, or_false, forall_eq', le_refl, true_and]
        omega
      · obtain ⟨hsince, hfirst, hcounter, hlate, hsoon⟩ :=
          h.gone usage hwas (Bool.eq_false_of_not_eq_true hin)
        have hbefore := h.absent usage _ hsince
        rw [if_neg hin]
        refine ⟨.inr hsince, ?_, ?_⟩
        · rintro time (rfl | htime)
          · exact hbefore.trans hnow
          · exact hfirst time htime
        · split_ifs
          · exact ⟨rfl, by omega, by omega⟩
          · exact ⟨hcounter, hlate, by omega⟩

/-! ## Runs that meet the condition -/

theorem time_reached_iff {leaves now : Nat} (h : leaves ≤ now + 160) :
    usb_time_reached (counter now) (counter leaves) = true ↔
      leaves ≤ now ∧ counter leaves ≠ 0 ∧ (now - leaves) % 2 ^ 32 < 2 ^ 31 := by
  unfold usb_time_reached counter
  simp only [Bool.and_eq_true, bne_iff_ne, decide_eq_true_eq]
  omega

theorem kept_of_meets (hord : Runs.Each InOrder calls)
    (hmeets : Runs.Each (fun h c => Meets (Timed.run h) c) calls) :
    Awaits calls (Timed.run calls) ∧ Watches calls (Timed.run calls) := by
  induction calls using List.reverseRecOn with
  | nil =>
    constructor
    · constructor <;> simp [PressedAt, RepeatedAt, Timed.run, Timed.fresh, UsbKeyboard.fresh, Armed]
    · constructor <;> simp [AbsentSince, Timed.run, Timed.fresh, UsbKeyboard.fresh]
  | append_singleton calls c ih =>
    obtain ⟨hord, hstart, hstop⟩ := Runs.each_snoc.mp hord
    obtain ⟨hmeets, hlast⟩ := Runs.each_snoc.mp hmeets
    obtain ⟨hawaits, hwatches⟩ := ih hord hmeets
    rw [Timed.run_snoc]
    cases c with
    | report t => exact ⟨hawaits.report (hstart.trans hstop), hwatches.report hstart hstop⟩
    | poll now => exact ⟨hawaits.poll hstart hlast, hwatches.poll hstart⟩
    | down usage now => exact ⟨hawaits.down hstart, hwatches.down hstart⟩

theorem timely_poll_iff (h : Awaits calls (Timed.run calls)) {now : Nat}
    (hnow : (Timed.run calls).clock ≤ now) :
    Timely calls (.poll now) ↔ Meets (Timed.run calls) (.poll now) := by
  simp only [Timely, Meets]
  generalize Timed.run calls = s at h hnow ⊢
  constructor
  · intro htimely harmed hcode hlt
    obtain ⟨hcounter, hsoon⟩ := h.next harmed
    by_contra hwrap
    -- The deadline has wrapped and the counter has not, so that the comparison holds.
    have hge : s.k.next_repeat_ms ≤ counter now := by
      rw [hcounter]
      unfold counter
      omega
    obtain ⟨-, hpresses, hrepeats⟩ :=
      htimely _ ((repeats_iff_due s.k now _).mpr ⟨harmed, hge, hcode, rfl⟩)
    obtain ⟨time, ⟨hpressed, hdue⟩ | ⟨hrepeated, hdue⟩⟩ := h.early harmed hcode
    · have := hpresses time hpressed
      omega
    · have := hrepeats time hrepeated
      omega
  · rintro hmeets key hrep
    obtain ⟨harmed, hge, hcode, rfl⟩ := (repeats_iff_due s.k now key).mp hrep
    have hdue : s.due ≤ now :=
      due_le_of_counter ((h.next harmed).1 ▸ hge) (hmeets harmed hcode)
    obtain ⟨hpresses, hrepeats⟩ := h.late harmed hcode
    exact ⟨h.press harmed, fun time hpressed => (hpresses time hpressed).trans hdue,
      fun time hrepeated => (hrepeats time hrepeated).trans hdue⟩

theorem pointer_usage_lt : ∀ usage ∈ pointer_usages, usage < 128 := by decide +kernel

theorem timely_down_iff (h : Watches calls (Timed.run calls)) {usage : UInt8} {now : Nat}
    (hnow : (Timed.run calls).clock ≤ now) :
    Timely calls (.down usage now) ↔ Meets (Timed.run calls) (.down usage now) := by
  simp only [Timely, Meets, pointer_down_answer]
  generalize Timed.run calls = s at h hnow ⊢
  constructor
  · intro htimely hheld hout hpast
    obtain ⟨hsince, -, hrelease, -, hsoon⟩ := h.gone usage hheld hout
    rw [← time_reached_iff (by omega), ← hrelease]
    by_contra hno
    have hup := htimely ⟨pointer_usage_lt usage (h.held usage hheld), hheld,
      Bool.eq_false_of_not_eq_true hno⟩ _ hsince
    omega
  · rintro hmeets ⟨-, hheld, hnot⟩ time habsent
    by_contra hpast
    cases hin : usb_key_in_report usage s.k.kbd_prev_report with
    | true => exact (h.there usage hin).1 time habsent
    | false =>
      obtain ⟨-, hfirst, hrelease, -, hsoon⟩ := h.gone usage hheld hin
      have hbefore := hfirst time habsent
      have hreached := (time_reached_iff (by omega)).mpr (hmeets hheld hin (by omega))
      rw [← hrelease, hnot] at hreached
      cases hreached

/-- In a run the timers are right at each call if and only if each call meets the condition. -/
theorem each_timely_iff (calls : List Call) (hord : Runs.Each InOrder calls) :
    Runs.Each Timely calls ↔ Runs.Each (fun h c => Meets (Timed.run h) c) calls := by
  induction calls using List.reverseRecOn with
  | nil => exact iff_of_true (Runs.each_nil _) (Runs.each_nil _)
  | append_singleton calls c ih =>
    obtain ⟨hord, hstart, -⟩ := Runs.each_snoc.mp hord
    rw [Runs.each_snoc, Runs.each_snoc, ih hord]
    refine and_congr_right fun hmeets => ?_
    obtain ⟨hawaits, hwatches⟩ := kept_of_meets hord hmeets
    cases c with
    | report t => exact iff_of_true trivial trivial
    | poll now => exact timely_poll_iff hawaits hstart
    | down usage now => exact timely_down_iff hwatches hstart

end

/-- A transfer of a report with one key, or with none for 0. -/
def transfer (key : UInt8) (ms : Nat) : Transfer := ⟨0, fun i => if i = 2 then key else 0, ms, ms⟩

/-- A key of the pointer is pressed, let go 100 ms later, and asked for 200 ms after that. -/
def pointerCalls : List Call :=
  [.report (transfer 0x54 1000), .report (transfer 0 1100), .down 0x54 1300]

theorem press_then_repeat :
    Runs.Each Timely [.report (transfer 4 1000), .poll 1400] ∧ Runs.Each Timely pointerCalls ∧
      (usb_keyboard_pointer_down (Timed.run (pointerCalls.take 2)).k 0x54 1200).2 = true ∧
      (usb_keyboard_pointer_down (Timed.run (pointerCalls.take 2)).k 0x54 1300).2 = false := by
  refine ⟨?_, ?_, by decide +kernel, by decide +kernel⟩
  · have hone : Runs.Each InOrder [.report (transfer 4 1000)] :=
      Runs.each_snoc.mpr ⟨Runs.each_nil _, by decide⟩
    have hmeets : Runs.Each (fun h c => Meets (Timed.run h) c) [.report (transfer 4 1000)] :=
      Runs.each_snoc.mpr ⟨Runs.each_nil _, by decide⟩
    exact (each_timely_iff _ (Runs.each_snoc.mpr ⟨hone, by decide⟩)).mpr
      (Runs.each_snoc.mpr ⟨hmeets, by decide⟩)
  · have hone : Runs.Each InOrder [.report (transfer 0x54 1000)] :=
      Runs.each_snoc.mpr ⟨Runs.each_nil _, by decide⟩
    have htwo : Runs.Each InOrder [.report (transfer 0x54 1000), .report (transfer 0 1100)] :=
      Runs.each_snoc.mpr ⟨hone, by decide⟩
    have hmeets : Runs.Each (fun h c => Meets (Timed.run h) c) [.report (transfer 0x54 1000)] :=
      Runs.each_snoc.mpr ⟨Runs.each_nil _, by decide⟩
    have hmeets' : Runs.Each (fun h c => Meets (Timed.run h) c)
        [.report (transfer 0x54 1000), .report (transfer 0 1100)] :=
      Runs.each_snoc.mpr ⟨hmeets, by decide⟩
    exact (each_timely_iff pointerCalls (Runs.each_snoc.mpr ⟨htwo, by decide⟩)).mpr
      (Runs.each_snoc.mpr ⟨hmeets', by decide +kernel⟩)

/-- A key that is pressed 100 ms before the wrap repeats at once, and a key of the pointer that
is let go 160 ms before it is still down a second later. -/
theorem wrap_not_survived :
    (∃ calls, Runs.Each InOrder calls ∧ ¬ Runs.Each Timely calls ∧
      calls = [.report (transfer 4 4294967196), .poll 4294967196]) ∧
    ∃ calls, Runs.Each InOrder calls ∧ ¬ Runs.Each Timely calls ∧
      calls = [.report (transfer 0x54 4294967000), .report (transfer 0 4294967136),
        .down 0x54 4294968136] := by
  constructor
  · have hone : Runs.Each InOrder [.report (transfer 4 4294967196)] :=
      Runs.each_snoc.mpr ⟨Runs.each_nil _, by decide⟩
    refine ⟨_, Runs.each_snoc.mpr ⟨hone, by decide⟩, fun h => ?_, rfl⟩
    have hrep : Repeats (Timed.run [.report (transfer 4 4294967196)]).k 4294967196 4 :=
      ⟨by decide, by decide⟩
    have hpressed : PressedAt [.report (transfer 4 4294967196)] 4 4294967196 :=
      ⟨[], _, [], rfl, ⟨by decide, by decide, by decide, by decide⟩, rfl⟩
    have := (h _ _ [] rfl 4 hrep).2.1 _ hpressed
    omega
  · have hone : Runs.Each InOrder [.report (transfer 0x54 4294967000)] :=
      Runs.each_snoc.mpr ⟨Runs.each_nil _, by decide⟩
    have htwo : Runs.Each InOrder
        [.report (transfer 0x54 4294967000), .report (transfer 0 4294967136)] :=
      Runs.each_snoc.mpr ⟨hone, by decide⟩
    refine ⟨_, Runs.each_snoc.mpr ⟨htwo, by decide⟩, fun h => ?_, rfl⟩
    have habsent : AbsentSince
        [.report (transfer 0x54 4294967000), .report (transfer 0 4294967136)] 0x54 4294967136 :=
      ⟨[_], _, [], rfl, by decide, rfl, by simp⟩
    have := h _ _ [] rfl (by decide +kernel) _ habsent
    omega

end vibeos.input

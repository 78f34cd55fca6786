-- Which keys and which messages keep the status line inside of its 64 bytes.
import Vibeos.EditorStatus
import Vibeos.EventRuns

namespace vibeos.editor

open wget (ascii)
open ssh (Text COLS)
open Runs (Each each_nil each_snoc)

/-- The string fits into the status line with its terminator. -/
def Fits (msg : Text) : Prop := msg.length + 1 ≤ EDITOR_STATUS_LEN

instance (msg : Text) : Decidable (Fits msg) := inferInstanceAs (Decidable (_ ≤ _))

namespace StatusWin

def AllFit (w : StatusWin) : Prop := ∀ m ∈ w.copied, Fits m

theorem allFit_set_status (w : StatusWin) (msg : Text) :
    (w.set_status msg).AllFit ↔ w.AllFit ∧ Fits msg := by
  unfold AllFit set_status
  simp only [List.mem_append, List.mem_singleton]
  constructor
  · exact fun h => ⟨fun m hm => h m (Or.inl hm), h msg (Or.inr rfl)⟩
  · rintro ⟨h, hmsg⟩ m (hm | rfl)
    · exact h m hm
    · exact hmsg

theorem allFit_constant (w : StatusWin) {msg : Text} (hmsg : Fits msg) :
    (w.set_status msg).AllFit ↔ w.AllFit := by
  rw [allFit_set_status, and_iff_left hmsg]

/-! ## The editor -/

theorem allFit_load_window (w : StatusWin) : w.editor_load_file_window.AllFit ↔ w.AllFit :=
  allFit_constant _ (by decide)

theorem allFit_insert_mode (w : StatusWin) : w.editor_open_insert_mode.AllFit ↔ w.AllFit :=
  allFit_constant _ (by decide)

theorem allFit_save (w : StatusWin) (r : SaveResult) :
    (w.editor_save_file r).AllFit ↔ w.AllFit := by
  cases r <;> exact allFit_constant _ (by decide)

theorem allFit_open_editor (w : StatusWin) (lazy : Bool) :
    (w.open_text_editor lazy).AllFit ↔ w.AllFit := by
  cases lazy with
  | true => exact (allFit_constant _ (by decide)).trans (allFit_load_window _)
  | false => exact allFit_constant _ (by decide)

theorem allFit_apply_command (w : StatusWin) (o : Outside) :
    (w.editor_apply_command o).AllFit ↔ w.AllFit := by
  have hunknown : (w.set_status (ascii "Unknown command")).AllFit ↔ w.AllFit :=
    allFit_constant _ (by decide)
  have hleave : ∀ v : StatusWin,
      (if v.active then { v with editor_mode := 0, editor_cmd := [] } else v).AllFit ↔
        v.AllFit := by
    intro v
    split <;> exact Iff.rfl
  unfold editor_apply_command
  rw [hleave]
  by_cases hw : w.editor_cmd = ascii "w"
  · rw [if_pos hw]
    exact allFit_save w o.save
  by_cases hx : w.editor_cmd = ascii "wq" ∨ w.editor_cmd = ascii "x"
  · rw [if_neg hw, if_pos hx]
    dsimp only
    split <;> exact allFit_save w o.save
  by_cases hq : w.editor_cmd = ascii "q"
  · rw [if_neg hw, if_neg hx, if_pos hq]
    split
    · exact Iff.rfl
    · exact allFit_constant _ (by decide)
  by_cases hforce : w.editor_cmd = ascii "q!"
  · rw [if_neg hw, if_neg hx, if_neg hq, if_pos hforce]
    exact Iff.rfl
  by_cases hsome : w.editor_cmd ≠ []
  · rw [if_neg hw, if_neg hx, if_neg hq, if_neg hforce, if_pos hsome]
    split
    · split_ifs
      · exact allFit_load_window w
      · exact Iff.rfl
      · exact hunknown
    · exact hunknown
  · rw [if_neg hw, if_neg hx, if_neg hq, if_neg hforce, if_neg hsome]

theorem allFit_echo (w : StatusWin) :
    w.editor_echo.AllFit ↔ w.AllFit ∧ w.editor_cmd.length ≤ 62 := by
  have hsign : (if w.editor_mode = 3 then ascii "/" else ascii ":").length = 1 := by
    split <;> rfl
  unfold editor_echo cat_cmd
  rw [allFit_set_status, allFit_constant _ (by
    unfold Fits
    rw [hsign]
    decide)]
  apply and_congr_right'
  unfold Fits EDITOR_STATUS_LEN set_status
  dsimp only
  rw [List.length_append, hsign]
  omega

theorem allFit_command_key (w : StatusWin) (key : UInt8) (o : Outside) :
    (w.editor_command_key key o).AllFit ↔ w.AllFit ∧
      ((key = 8 ∨ key = 127) → w.editor_cmd.length ≤ 63) ∧
      (32 ≤ key → key < 127 → w.editor_cmd.length < COLS - 2 → w.editor_cmd.length ≤ 61) := by
  unfold editor_command_key
  by_cases hesc : key = 27
  · rw [if_pos hesc]
    subst hesc
    have hother : ((27 : UInt8) = 8 ∨ (27 : UInt8) = 127 → w.editor_cmd.length ≤ 63) ∧
        ((32 : UInt8) ≤ 27 → (27 : UInt8) < 127 → w.editor_cmd.length < COLS - 2 →
          w.editor_cmd.length ≤ 61) :=
      ⟨fun h => absurd h (by decide), fun h => absurd h (by decide)⟩
    exact (allFit_constant _ (by decide)).trans (and_iff_left hother).symm
  by_cases henter : key = 10 ∨ key = 13
  · rw [if_neg hesc, if_pos henter]
    have hother : (key = 8 ∨ key = 127 → w.editor_cmd.length ≤ 63) ∧
        (32 ≤ key → key < 127 → w.editor_cmd.length < COLS - 2 → w.editor_cmd.length ≤ 61) := by
      rcases henter with rfl | rfl <;>
        exact ⟨fun h => absurd h (by decide), fun h => absurd h (by decide)⟩
    rw [and_iff_left hother]
    split
    · exact Iff.rfl
    · exact allFit_apply_command _ o
  by_cases hback : key = 8 ∨ key = 127
  · rw [if_neg hesc, if_neg henter, if_pos hback, allFit_echo, List.length_dropLast]
    have htyped : 32 ≤ key → key < 127 → w.editor_cmd.length < COLS - 2 →
        w.editor_cmd.length ≤ 61 := by
      rcases hback with rfl | rfl
      · exact fun h => absurd h (by decide)
      · exact fun _ h => absurd h (by decide)
    dsimp only
    apply and_congr_right'
    constructor
    · exact fun h => ⟨fun _ => by omega, htyped⟩
    · exact fun h => by have := h.1 hback; omega
  by_cases htype : 32 ≤ key ∧ key < 127 ∧ w.editor_cmd.length < COLS - 2
  · rw [if_neg hesc, if_neg henter, if_neg hback, if_pos htype, allFit_echo, List.length_append]
    dsimp only
    apply and_congr_right'
    rw [List.length_singleton]
    constructor
    · exact fun h => ⟨fun hkey => absurd hkey hback, fun _ _ _ => by omega⟩
    · exact fun h => by have := h.2 htype.1 htype.2.1 htype.2.2; omega
  · rw [if_neg hesc, if_neg henter, if_neg hback, if_neg htype]
    exact (and_iff_left ⟨fun hkey => absurd hkey hback, fun h1 h2 h3 =>
      absurd ⟨h1, h2, h3⟩ htype⟩).symm

theorem allFit_normal_key (w : StatusWin) (key : UInt8) (o : Outside) :
    (w.editor_normal_key key o).AllFit ↔ w.AllFit := by
  unfold editor_normal_key
  split_ifs
  · exact Iff.rfl
  · exact allFit_insert_mode w
  · exact allFit_constant _ (by decide)
  · exact allFit_constant _ (by decide)
  · exact allFit_load_window w
  · exact Iff.rfl
  · exact allFit_insert_mode w
  · exact Iff.rfl
  · exact allFit_constant _ (by decide)
  · exact allFit_insert_mode w
  · exact Iff.rfl

/-! ## The debugger -/

theorem fits_message (s : Text) : Fits (message s) ↔ Fits s := by
  unfold Fits message EDITOR_STATUS_LEN OUT_BUF_SIZE
  rw [List.length_take]
  omega

theorem fits_set_watch (addr len : BitVec 32) : Fits (jit_debug_set_watch addr len) := by
  have hlen : ∀ l : BitVec 32, (if l > 256 then 256 else l).toNat < 10 ^ 3 := by
    intro l
    split
    · decide
    · rename_i h
      rw [gt_iff_lt, BitVec.lt_def] at h
      change ¬ 256 < _ at h
      omega
  have haddr : (lib.print_unsigned addr.toNat 16 false).length ≤ 8 :=
    lib.length_print_unsigned (by decide : 1 < 16) (by decide : 0 < 8) addr.isLt false
  have hnum := fun l : BitVec 32 =>
    lib.length_print_unsigned (by decide : 1 < 10) (by decide : 0 < 3) (hlen l) false
  have hwatch : (ascii "watch ").length = 6 := rfl
  have hlength : (ascii " len=").length = 5 := rfl
  unfold jit_debug_set_watch
  rw [fits_message]
  unfold Fits EDITOR_STATUS_LEN
  rw [List.length_append, List.length_append, List.length_append, hwatch, hlength]
  have hl := hnum (if len = 0 then 64 else len)
  omega

/-- What the status after a command needs to fit. -/
def MessageFits (cmd : Text) (o : Outside) : Prop :=
  match debugCmd cmd with
  | .run => Fits o.run_msg
  | .si => o.paused = true → Fits o.si_msg
  | .break =>
    let file := (break_words cmd).1
    let line := (break_words cmd).2
    file ≠ [] → 0 < line.toInt →
      if (file, line) ∈ o.breakpoints then (file_line file line).length ≤ 44
      else o.breakpoints.length < JIT_DEBUG_MAX_BREAKPOINTS → (file_line file line).length ≤ 52
  | _ => True

theorem fits_breakpoint (o : Outside) (file : Text) (line : BitVec 32) :
    Fits (jit_debug_add_breakpoint o file line) ↔
      (file ≠ [] → 0 < line.toInt →
        if (file, line) ∈ o.breakpoints then (file_line file line).length ≤ 44
        else o.breakpoints.length < JIT_DEBUG_MAX_BREAKPOINTS →
          (file_line file line).length ≤ 52) := by
  unfold jit_debug_add_breakpoint
  by_cases husage : file = [] ∨ line.toInt ≤ 0
  · rw [if_pos husage]
    refine iff_of_true (by decide) fun hne hpos => ?_
    rcases husage with heq | hle
    · exact absurd heq hne
    · omega
  · rw [if_neg husage]
    obtain ⟨hne, hpos⟩ := not_or.mp husage
    by_cases hexists : (file, line) ∈ o.breakpoints
    · rw [if_pos hexists, if_pos hexists, fits_message]
      have hlen : (ascii "breakpoint exists: ").length = 19 := rfl
      unfold Fits EDITOR_STATUS_LEN
      rw [List.length_append, hlen]
      exact ⟨fun h _ _ => by omega, fun h => by have := h hne (by omega); omega⟩
    · rw [if_neg hexists, if_neg hexists]
      by_cases hroom : o.breakpoints.length < JIT_DEBUG_MAX_BREAKPOINTS
      · rw [if_pos hroom, fits_message]
        have hlen : (ascii "breakpoint ").length = 11 := rfl
        unfold Fits EDITOR_STATUS_LEN
        rw [List.length_append, hlen]
        exact ⟨fun h _ _ _ => by omega, fun h => by have := h hne (by omega) hroom; omega⟩
      · rw [if_neg hroom]
        exact iff_of_true (by decide) fun _ _ h => absurd h hroom

theorem fits_watch (cmd : Text) : Fits (watch_message cmd) := by
  unfold watch_message
  dsimp only
  split
  · exact fits_set_watch _ _
  · decide

theorem fits_command_status (cmd : Text) (o : Outside) :
    Fits (command_status cmd o) ↔ MessageFits cmd o := by
  unfold command_status MessageFits
  cases debugCmd cmd with
  | close => exact iff_of_true (show Fits [] by decide) trivial
  | clear => exact iff_of_true (show Fits (ascii "console cleared") by decide) trivial
  | run => exact Iff.rfl
  | cont =>
    have h : ∀ paused : Bool,
        Fits (if paused then ascii "JIT debug: continue." else not_paused) := by decide
    exact iff_of_true (h o.paused) trivial
  | si =>
    unfold jit_debug_step_instruction
    cases o.paused with
    | true => exact ⟨fun h _ => h, fun h => h rfl⟩
    | false =>
      exact iff_of_true (show Fits not_paused by decide) fun h => absurd h Bool.false_ne_true
  | next =>
    have h : ∀ paused : Bool,
        Fits (if paused then ascii "JIT debug: step." else not_paused) := by decide
    exact iff_of_true (h o.paused) trivial
  | «break» => exact fits_breakpoint o _ _
  | watch => exact iff_of_true (fits_watch cmd) trivial
  | empty => exact iff_of_true (show Fits debugger_help by decide +kernel) trivial
  | unknown =>
    exact iff_of_true (show Fits (ascii "unknown debugger command") by decide) trivial

theorem allFit_debugger_command (w : StatusWin) (o : Outside) :
    (w.jit_debugger_apply_command o).AllFit ↔ w.AllFit ∧ MessageFits w.recalled o := by
  unfold jit_debugger_apply_command
  dsimp only
  by_cases hclose : debugCmd w.recalled = .close
  · rw [if_pos hclose]
    have hfits : MessageFits w.recalled o := by
      unfold MessageFits
      rw [hclose]
      trivial
    exact (and_iff_left hfits).symm
  · rw [if_neg hclose]
    exact (allFit_set_status _ _).trans (and_congr_right' (fits_command_status _ o))

theorem allFit_debugger_key (w : StatusWin) (key : UInt8) (o : Outside) :
    (w.jit_debugger_handle_key key o).AllFit ↔ w.AllFit ∧
      ((key = 10 ∨ key = 13) →
        if w.editor_mode = 2 then MessageFits w.recalled o
        else w.saved_cmd ≠ [] → MessageFits w.saved_cmd o) := by
  unfold jit_debugger_handle_key
  by_cases hmode : w.editor_mode = 2
  · rw [if_pos hmode, if_pos hmode]
    by_cases hesc : key = 27
    · rw [if_pos hesc]
      subst hesc
      exact (allFit_constant _ (by decide)).trans
        (and_iff_left fun h => absurd h (by decide)).symm
    by_cases henter : key = 10 ∨ key = 13
    · rw [if_neg hesc, if_pos henter, allFit_debugger_command]
      exact and_congr_right' ⟨fun h _ => h, fun h => h henter⟩
    · rw [if_neg hesc, if_neg henter]
      have hsame : ∀ c : Text, ({ w with editor_cmd := c } : StatusWin).AllFit ↔ w.AllFit :=
        fun _ => Iff.rfl
      split_ifs <;> exact (and_iff_left fun h => absurd h henter).symm
  · rw [if_neg hmode, if_neg hmode]
    by_cases hcolon : key = ':'.toUInt8
    · rw [if_pos hcolon]
      subst hcolon
      exact (and_iff_left fun h => absurd h (by decide)).symm
    by_cases henter : key = 10 ∨ key = 13
    · rw [if_neg hcolon, if_pos henter]
      by_cases hsaved : w.saved_cmd ≠ []
      · rw [if_pos hsaved, allFit_debugger_command]
        exact and_congr_right' ⟨fun h _ _ => h, fun h => h henter hsaved⟩
      · rw [if_neg hsaved]
        exact (and_iff_left fun _ h => absurd h hsaved).symm
    · rw [if_neg hcolon, if_neg henter]
      exact (and_iff_left fun h => absurd h henter).symm

/-! ## Runs -/

/-- The debugger is not opened, the editor is given command lines of at most 62 characters, and what
the debugger has to say fits. -/
def Short (w : StatusWin) : StatusEvent → Prop
  | .openEditor _ => True
  | .openDebugger => False
  | .sourceLoaded => True
  | .sourceMissing => True
  | .key key o => w.active = true →
    match w.kind with
    | .WINDOW_KIND_EDITOR => (w.editor_mode = 2 ∨ w.editor_mode = 3) →
        ((key = 8 ∨ key = 127) → w.editor_cmd.length ≤ 63) ∧
        (32 ≤ key → key < 127 → w.editor_cmd.length < COLS - 2 → w.editor_cmd.length ≤ 61)
    | .WINDOW_KIND_JIT_DEBUGGER => (key = 10 ∨ key = 13) →
        if w.editor_mode = 2 then MessageFits w.recalled o
        else w.saved_cmd ≠ [] → MessageFits w.saved_cmd o

theorem allFit_editor_key (w : StatusWin) (key : UInt8) (o : Outside) :
    (w.editor_handle_key key o).AllFit ↔ w.AllFit ∧
      ((w.editor_mode = 2 ∨ w.editor_mode = 3) →
        ((key = 8 ∨ key = 127) → w.editor_cmd.length ≤ 63) ∧
        (32 ≤ key → key < 127 → w.editor_cmd.length < COLS - 2 → w.editor_cmd.length ≤ 61)) := by
  unfold editor_handle_key
  by_cases hmode : w.editor_mode = 2 ∨ w.editor_mode = 3
  · rw [if_pos hmode, allFit_command_key]
    exact and_congr_right' ⟨fun h _ => h, fun h => h hmode⟩
  · rw [if_neg hmode, and_iff_left (fun h => absurd h hmode)]
    split_ifs
    · exact allFit_constant _ (by decide)
    · exact allFit_normal_key w key o
    · exact allFit_load_window w
    · exact Iff.rfl
    · exact Iff.rfl

theorem allFit_step (w : StatusWin) (e : StatusEvent) :
    (w.step e).AllFit ↔ w.AllFit ∧ Short w e := by
  cases e with
  | openEditor lazy => exact (allFit_open_editor w lazy).trans (and_iff_left trivial).symm
  | openDebugger =>
    refine iff_of_false (fun h => ?_) (fun h => h.2)
    exact absurd ((allFit_set_status _ _).mp h).2 (by decide +kernel)
  | sourceLoaded => exact (and_iff_left trivial).symm
  | sourceMissing => exact (allFit_constant w (by decide)).trans (and_iff_left trivial).symm
  | key key o =>
    unfold step Short
    dsimp only
    cases w.active with
    | false => exact (and_iff_left fun h => absurd h Bool.false_ne_true).symm
    | true =>
      rw [Bool.not_true, if_neg Bool.false_ne_true]
      cases w.kind with
      | WINDOW_KIND_EDITOR =>
        exact (allFit_editor_key w key o).trans
          (and_congr_right' ⟨fun h _ => h, fun h => h rfl⟩)
      | WINDOW_KIND_JIT_DEBUGGER =>
        exact (allFit_debugger_key w key o).trans
          (and_congr_right' ⟨fun h _ => h, fun h => h rfl⟩)

theorem run_snoc (events : List StatusEvent) (e : StatusEvent) :
    run (events ++ [e]) = (run events).step e := by
  unfold run
  rw [List.foldl_append]
  rfl

/-- Every string that a run copies to the status line fits if and only if no step of the run opens
the debugger, types more than 62 characters into a command line of the editor, or gets a message of
more than 63 characters. -/
theorem run_fits_iff (events : List StatusEvent) :
    (run events).AllFit ↔ Each (fun h e => Short (run h) e) events := by
  induction events using List.reverseRecOn with
  | nil => exact iff_of_true (fun m hm => (nomatch hm)) (each_nil _)
  | append_singleton events e ih => rw [run_snoc, allFit_step, each_snoc, ih]

/-- The help that the debugger opens with has 64 characters. -/
theorem debugger_help_too_long : ¬ (run [.openDebugger]).AllFit := by
  intro h
  exact absurd (h debugger_open_help (by decide)) (by decide +kernel)

end StatusWin

end vibeos.editor

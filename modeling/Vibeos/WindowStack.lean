-- The order of the windows and the focus: what every run of the desktop keeps, and which windows
-- the focus comes to when it is passed on.
import Vibeos.Desktop
import Vibeos.EventRuns
import Vibeos.Turns

namespace vibeos.gui

open Runs (Each)

variable [DesktopConfig]

def visible (s : Desktop) : List Int := indices.filter (shown s)

/-- What `active_win_idx` is after each of `n` calls of `cycle_active_window`. -/
def activations : Nat → Desktop → List Int
  | 0, _ => []
  | n + 1, s => (cycle_active_window s).active_win_idx :: activations n (cycle_active_window s)

structure StackGood (s : Desktop) : Prop where
  order : s.z_order.Perm indices
  focus : s.active_win_idx = -1 ∨ active_window_valid s = true
  cycles : (activations (visible s).length s).Perm (visible s)

/-- No window is brought to the front that is not open. -/
def FrontActive (s : Desktop) : Op → Prop
  | .bring_to_front idx => outside idx = false → (s.wins idx).active = true
  | _ => True

/-! ## The table of windows -/

theorem outside_eq_false {idx : Int} : outside idx = false ↔ 0 ≤ idx ∧ idx < MAX_WINDOWS := by
  rw [outside, Bool.or_eq_false_iff, decide_eq_false_iff_not, decide_eq_false_iff_not]
  omega

theorem mem_indices {idx : Int} : idx ∈ indices ↔ outside idx = false := by
  rw [outside_eq_false, indices, List.mem_map]
  constructor
  · rintro ⟨n, hn, rfl⟩
    rw [List.mem_range] at hn
    rw [Int.ofNat_eq_natCast]
    omega
  · rintro ⟨hpos, hlt⟩
    refine ⟨idx.toNat, List.mem_range.mpr (by omega), ?_⟩
    rw [Int.ofNat_eq_natCast]
    omega

theorem indices_nodup : indices.Nodup :=
  List.Nodup.map (fun _ _ h => Int.ofNat.inj h) List.nodup_range

theorem firstFree_spec {s : Desktop} {i : Int} (h : firstFree s = some i) :
    outside i = false ∧ (s.wins i).active = false := by
  have hactive := List.find?_some h
  exact ⟨mem_indices.mp (List.mem_of_find?_eq_some h), by simpa using hactive⟩

theorem shown_eq (s : Desktop) (idx : Int) :
    shown s idx = (!outside idx && (s.wins idx).active && !(s.wins idx).minimized) := by
  have hrange : (decide (idx ≥ 0) && decide (idx < MAX_WINDOWS)) = !outside idx := by
    rw [Bool.eq_iff_iff, Bool.and_eq_true, decide_eq_true_eq, decide_eq_true_eq,
      Bool.not_eq_true', outside_eq_false]
  rw [shown, hrange]

theorem open_of_shown (s : Desktop) (idx : Int) (h : shown s idx = true) :
    (s.wins idx).active = true ∧ (s.wins idx).minimized = false := by
  rw [shown_eq] at h
  simpa [and_assoc] using And.intro (Bool.and_eq_true_iff.mp (Bool.and_eq_true_iff.mp h).1).2
    (Bool.and_eq_true_iff.mp h).2

theorem active_window_valid_eq (s : Desktop) :
    active_window_valid s = shown s s.active_win_idx := (shown_eq s _).symm

/-! ## Passing the focus on -/

theorem shown_of_topmost {s : Desktop} (h : topmost s ≠ -1) : shown s (topmost s) = true := by
  rw [topmost] at *
  cases hfind : s.z_order.reverse.find? (shown s) with
  | none => simp [hfind] at h
  | some i => exact List.find?_some hfind

theorem topmost_eq (s : Desktop) {d : Int} (h : s.z_order.filter (shown s) ≠ []) :
    topmost s = (s.z_order.filter (shown s)).getLastD d := by
  obtain ⟨l, a, hlast⟩ := (List.eq_nil_or_concat _).resolve_left h
  rw [List.concat_eq_append] at hlast
  rw [topmost, ← List.head?_filter, List.filter_reverse, hlast, List.getLastD_concat]
  simp

theorem cycle_spec {s : Desktop} (horder : s.z_order.Perm indices) :
    (cycle_active_window s).wins = s.wins ∧
      (cycle_active_window s).z_order.Perm indices ∧
      (cycle_active_window s).active_win_idx = topmost (cycle_active_window s) ∧
      (cycle_active_window s).z_order.filter (shown s) =
        Turns.shift (s.z_order.filter (shown s)) s.active_win_idx := by
  unfold cycle_active_window Turns.shift
  by_cases hmem : s.active_win_idx ∈ s.z_order
  · have hinside := mem_indices.mp (horder.mem_iff.mp hmem)
    rw [if_pos hmem]
    dsimp only
    rw [if_neg (by simp [hinside])]
    refine ⟨rfl, (List.perm_cons_erase hmem).symm.trans horder, rfl, ?_⟩
    rw [List.filter_cons, ← List.erase_filter]
    by_cases hshown : shown s s.active_win_idx = true
    · rw [if_pos hshown, if_pos (List.mem_filter.mpr ⟨hmem, hshown⟩)]
    · have hnot : s.active_win_idx ∉ s.z_order.filter (shown s) := fun h =>
        hshown (List.mem_filter.mp h).2
      rw [if_neg hshown, if_neg hnot, List.erase_of_not_mem hnot]
  · have hnot : s.active_win_idx ∉ s.z_order.filter (shown s) := fun h =>
      hmem (List.mem_of_mem_filter h)
    rw [if_neg hmem, if_neg hnot]
    exact ⟨rfl, horder, rfl, rfl⟩

theorem shown_congr {s s' : Desktop} (h : s'.wins = s.wins) : shown s' = shown s := by
  funext idx
  rw [shown, shown, h]

theorem activations_eq (n : Nat) {s : Desktop} (horder : s.z_order.Perm indices)
    (hsome : s.z_order.filter (shown s) ≠ []) :
    activations n s = Turns.visits n (s.z_order.filter (shown s)) s.active_win_idx := by
  induction n generalizing s with
  | zero => rfl
  | succ n ih =>
    obtain ⟨hwins, hperm, hactive, hshift⟩ := cycle_spec horder
    have hshown := shown_congr hwins
    rw [← hshown] at hshift
    have hsome' : (cycle_active_window s).z_order.filter (shown (cycle_active_window s)) ≠ [] := by
      rw [hshift]
      intro hnil
      rw [hshown] at hnil
      exact hsome (List.nil_perm.mp (hnil ▸ Turns.shift_perm _ _))
    rw [activations, Turns.visits, ih hperm hsome', hactive, topmost_eq _ hsome', hshift, hshown]

theorem activations_perm {s : Desktop} (horder : s.z_order.Perm indices) :
    (activations (visible s).length s).Perm (visible s) := by
  have hfilter : (s.z_order.filter (shown s)).Perm (visible s) := horder.filter _
  by_cases hnone : s.z_order.filter (shown s) = []
  · rw [hnone] at hfilter
    rw [List.nil_perm.mp hfilter]
    exact List.Perm.refl _
  · rw [activations_eq _ horder hnone, ← hfilter.length_eq]
    exact (Turns.visits_perm (horder.nodup_iff.mpr indices_nodup |>.filter _) _).trans hfilter

/-! ## What every operation keeps -/

structure Stack (s : Desktop) : Prop where
  order : s.z_order.Perm indices
  focus : s.active_win_idx = -1 ∨ active_window_valid s = true

theorem Stack.good {s : Desktop} (h : Stack s) : StackGood s :=
  ⟨h.order, h.focus, activations_perm h.order⟩

theorem StackGood.stack {s : Desktop} (h : StackGood s) : Stack s := ⟨h.order, h.focus⟩

omit [DesktopConfig] in
theorem toEnd_perm (z_order : List Int) (idx : Int) : (toEnd z_order idx).Perm z_order := by
  unfold toEnd
  split
  · rename_i hmem
    exact List.perm_append_comm.trans (List.perm_cons_erase hmem).symm
  · exact List.Perm.refl _

omit [DesktopConfig] in
@[simp] theorem put_active_win_idx (s : Desktop) (idx : Int) (w : Window) :
    (s.put idx w).active_win_idx = s.active_win_idx := rfl

omit [DesktopConfig] in
@[simp] theorem put_wins_self (s : Desktop) (idx : Int) (w : Window) :
    (s.put idx w).wins idx = w := if_pos rfl

omit [DesktopConfig] in
theorem put_wins_ne (s : Desktop) {idx i : Int} (w : Window) (h : i ≠ idx) :
    (s.put idx w).wins i = s.wins i := if_neg h

theorem Stack.put {s : Desktop} (h : Stack s) {idx : Int} {w : Window}
    (hkeep : shown s idx = true → w.active = true ∧ w.minimized = false) :
    Stack (s.put idx w) := by
  refine ⟨h.order, ?_⟩
  rcases h.focus with hnone | hvalid
  · exact Or.inl hnone
  · right
    rw [active_window_valid_eq] at hvalid
    rw [active_window_valid_eq, put_active_win_idx]
    by_cases hself : s.active_win_idx = idx
    · subst hself
      obtain ⟨hactive, hmin⟩ := hkeep hvalid
      rw [shown_eq] at hvalid ⊢
      rw [put_wins_self, hactive, hmin]
      simp only [Bool.and_eq_true] at hvalid
      rw [hvalid.1.1]
      rfl
    · rw [shown_eq] at hvalid ⊢
      rwa [put_wins_ne _ _ hself]

theorem Stack.cycle {s : Desktop} (h : s.z_order.Perm indices) : Stack (cycle_active_window s) := by
  obtain ⟨-, horder, hactive, -⟩ := cycle_spec h
  refine ⟨horder, ?_⟩
  by_cases hnone : (cycle_active_window s).active_win_idx = -1
  · exact Or.inl hnone
  · right
    rw [active_window_valid_eq, hactive]
    exact shown_of_topmost (hactive ▸ hnone)

theorem Stack.close {s : Desktop} (h : Stack s) (idx : Int) : Stack (close_window s idx) := by
  unfold close_window
  by_cases hout : outside idx = true
  · rwa [if_pos hout]
  · rw [if_neg hout]
    dsimp only
    by_cases hself : s.active_win_idx = idx
    · rw [if_pos hself]
      exact Stack.cycle ((toEnd_perm _ _).trans h.order)
    · rw [if_neg hself]
      by_cases hnone : s.active_win_idx = -1
      · rw [if_pos (by exact hnone)]
        exact Stack.cycle ((toEnd_perm _ _).trans h.order)
      · rw [if_neg (by exact hnone)]
        refine ⟨(toEnd_perm _ _).trans h.order, Or.inr ?_⟩
        have hvalid := h.focus.resolve_left hnone
        rw [active_window_valid_eq, shown_eq] at hvalid ⊢
        rwa [put_active_win_idx, put_wins_ne _ _ hself]

theorem Stack.front {s : Desktop} (h : s.z_order.Perm indices) {idx : Int}
    (hactive : (s.wins idx).active = true) (hin : outside idx = false) :
    Stack (bring_to_front s idx) := by
  have hmem : idx ∈ s.z_order := h.mem_iff.mpr (mem_indices.mpr hin)
  unfold bring_to_front
  rw [if_neg (by simp [hin]), if_pos hmem]
  refine ⟨(toEnd_perm _ _).trans h, Or.inr ?_⟩
  rw [active_window_valid_eq, shown_eq, put_active_win_idx]
  dsimp only
  rw [put_wins_self, hin, hactive]
  rfl

theorem Stack.openWindow {s : Desktop} (h : Stack s) {fresh : Int → Window}
    (hfresh : ∀ i, (fresh i).active = true) : Stack (openWindow s fresh) := by
  unfold gui.openWindow
  cases hfree : firstFree s with
  | none => exact h
  | some i =>
    refine @Stack.front _ (s.put i (fresh i)) h.order i ?_ (firstFree_spec hfree).1
    rw [put_wins_self]
    exact hfresh i

theorem Stack.change {s : Desktop} (h : Stack s) (idx : Int) {ok : Window → Bool}
    {f : Window → Window} (hf : ∀ w, (f w).active = w.active ∧ (w.minimized = false →
      (f w).minimized = false)) : Stack (change s idx ok f) := by
  unfold gui.change
  by_cases hout : outside idx = true
  · rwa [if_pos hout]
  · rw [if_neg hout]
    by_cases hok : ok (s.wins idx) = true
    · rw [if_pos hok]
      apply h.put
      intro hshown
      rw [shown_eq] at hshown
      simp only [Bool.and_eq_true, Bool.not_eq_true'] at hshown
      exact ⟨(hf _).1.trans hshown.1.2, (hf _).2 hshown.2⟩
    · rwa [if_neg hok]

theorem Stack.minimize {s : Desktop} (h : Stack s) (idx : Int) : Stack (minimize_window s idx) := by
  unfold minimize_window
  by_cases hout : outside idx = true
  · rwa [if_pos hout]
  · rw [if_neg hout]
    by_cases hactive : (s.wins idx).active = true
    · rw [if_pos hactive]
      by_cases hself : s.active_win_idx = idx
      · rw [if_pos (by exact hself)]
        exact ⟨h.order, Or.inl rfl⟩
      · rw [if_neg (by exact hself)]
        refine ⟨h.order, h.focus.imp id fun hvalid => ?_⟩
        rw [active_window_valid_eq, shown_eq] at hvalid ⊢
        rwa [put_active_win_idx, put_wins_ne _ _ hself]
    · rwa [if_neg hactive]

theorem front_focus {s : Desktop} (h : s.z_order.Perm indices) {idx : Int}
    (hin : outside idx = false) : (bring_to_front s idx).active_win_idx = idx := by
  unfold bring_to_front
  rw [if_neg (by simp [hin]), if_pos (h.mem_iff.mpr (mem_indices.mpr hin))]
  rfl

omit [DesktopConfig] in
theorem refocus {s : Desktop} {i : Int} (h : s.active_win_idx = i) :
    { s with active_win_idx := i } = s := by
  subst h
  rfl

theorem create_new_task_eq {s : Desktop} (h : s.z_order.Perm indices) :
    create_new_task s = openWindow s newTask := by
  unfold create_new_task openWindow
  cases hfree : firstFree s with
  | none => rfl
  | some i => exact refocus (@front_focus _ (s.put i (newTask i)) h i (firstFree_spec hfree).1)

theorem Stack.open_image_file {s : Desktop} (h : Stack s) (decoded : Option (Nat × Nat)) :
    Stack (open_image_file s decoded) := by
  cases decoded with
  | some size => exact h.openWindow fun _ => rfl
  | none =>
    unfold gui.open_image_file
    cases hfree : firstFree s with
    | none => exact h
    | some i =>
      apply h.put
      intro hshown
      rw [shown_eq, (firstFree_spec hfree).2] at hshown
      simp at hshown

theorem Stack.closeGbemu {s : Desktop} (h : Stack s) : Stack (closeGbemu s) := by
  apply List.foldlRecOn indices _ h
  intro s h i _
  split
  · exact h.close i
  · exact h

theorem Stack.open_gbemu_window {s : Desktop} (h : Stack s) (loads : Bool) :
    Stack (open_gbemu_window s loads) := by
  have hopen := h.closeGbemu.openWindow fun i => show (newGbemu i).active = true from rfl
  unfold gui.openWindow at hopen
  unfold gui.open_gbemu_window
  dsimp only
  cases hfree : firstFree (gui.closeGbemu s) with
  | none => exact h.closeGbemu
  | some i =>
    rw [hfree] at hopen
    cases loads with
    | false => exact Stack.close hopen i
    | true => exact hopen

omit [DesktopConfig] in
theorem save_keeps (w : Window) : w.save.active = w.active ∧ w.save.minimized = w.minimized := by
  unfold Window.save
  split <;> exact ⟨rfl, rfl⟩

theorem snap_keeps (w : Window) (key : Nat) :
    (w.snap key).active = w.active ∧ (w.snap key).minimized = w.minimized := by
  unfold Window.snap
  split <;> exact save_keeps w

theorem Stack.step {s : Desktop} (h : Stack s) (op : Op) (hop : FrontActive s op) :
    Stack (step s op) := by
  cases op with
  | create_new_task =>
    rw [gui.step, create_new_task_eq h.order]
    exact h.openWindow fun _ => rfl
  | open_text_editor => exact h.openWindow fun _ => rfl
  | open_jit_debugger_window => exact h.openWindow fun _ => rfl
  | open_image_file decoded => exact h.open_image_file decoded
  | open_netsurf => exact h.openWindow fun _ => rfl
  | open_demo3d_window => exact h.openWindow fun _ => rfl
  | open_frankenstein_window => exact h.openWindow fun _ => rfl
  | open_gbemu_window loads => exact h.open_gbemu_window loads
  | close_window idx => exact h.close idx
  | bring_to_front idx =>
    rw [gui.step]
    by_cases hout : outside idx = true
    · rwa [bring_to_front, if_pos hout]
    · have hin : outside idx = false := by simpa using hout
      exact Stack.front h.order (hop hin) hin
  | maximize_window idx =>
    rw [gui.step, maximize_window]
    apply h.change
    intro w
    exact ⟨(save_keeps w).1, (save_keeps w).2.trans⟩
  | restore_window idx =>
    apply h.change
    intro w
    unfold Window.restore
    dsimp only
    split <;> exact ⟨rfl, fun _ => rfl⟩
  | minimize_window idx => exact h.minimize idx
  | snap_window_by_key idx key =>
    rw [gui.step, snap_window_by_key]
    apply h.change
    intro w
    exact ⟨(snap_keeps w key).1, (snap_keeps w key).2.trans⟩
  | cycle_active_window => exact Stack.cycle h.order
  | grab idx mx my =>
    rw [gui.step, grab]
    split
    · exact h.put (open_of_shown s idx)
    · exact h
  | drag mx my =>
    rw [gui.step, drag]
    split
    · exact h.put (open_of_shown s s.active_win_idx)
    · exact h
  | release => exact ⟨h.order, h.focus⟩

theorem frontActive_of_stack {s : Desktop} (h : Stack s) {op : Op} (hgood : Stack (step s op)) :
    FrontActive s op := by
  cases op with
  | bring_to_front idx =>
    intro hin
    have hfocus := front_focus h.order hin
    rcases hgood.focus with hnone | hvalid
    · rw [gui.step, hfocus] at hnone
      subst hnone
      cases hin
    · rw [active_window_valid_eq, gui.step, hfocus] at hvalid
      have hactive := (open_of_shown _ _ hvalid).1
      rwa [bring_to_front, if_neg (by simp [hin]),
        if_pos (h.order.mem_iff.mpr (mem_indices.mpr hin)), put_wins_self] at hactive
  | _ => trivial

/-- Every state of a run has the order and the focus right exactly when no window is brought to
the front that is not open. -/
theorem window_stack_iff (ops : List Op) :
    (∀ h t, ops = h ++ t → StackGood (run h)) ↔ Each (fun h op => FrontActive (run h) op) ops := by
  have hstart : Stack boot := ⟨List.Perm.refl _, Or.inl rfl⟩
  have hstates := @Runs.forall_states_iff _ _ step StackGood boot ops
  have hsteps := @Runs.each_iff _ _ step Stack (fun s op => StackGood (step s op)) FrontActive boot
    hstart (fun hs => ⟨fun hgood => frontActive_of_stack hs hgood.stack, fun hop =>
      (hs.step _ hop).good⟩) (fun hs hop => hs.step _ hop) ops
  unfold run
  rw [hstates, hsteps]
  exact ⟨fun h => h.2, fun h => ⟨hstart.good, h⟩⟩

/-! ## The window that is closed and clicked in one frame -/

omit [DesktopConfig] in
/-- The click is handled before the desktop is drawn again. -/
theorem closed_window_focused :
    ¬ @StackGood fpgaDesktop
      (@run fpgaDesktop [.create_new_task, .close_window 0, .bring_to_front 0]) := by
  intro hgood
  rcases @StackGood.focus fpgaDesktop _ hgood with hnone | hvalid
  · exact absurd hnone (by decide)
  · exact absurd hvalid (by decide)

end vibeos.gui

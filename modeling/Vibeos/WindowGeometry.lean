-- The geometry of the windows over whole runs: which steps leave a window outside of the desktop
-- or move an edge that is not dragged.
import Vibeos.WindowStack
import Vibeos.Stretch

namespace vibeos.gui

open Runs (Each)
open Stretch (Segment Inside Still Reaches stretch)

/-! ## Places -/

def Window.across (w : Window) : Segment := ⟨w.x, w.w⟩
def Window.down (w : Window) : Segment := ⟨w.y, w.h⟩

def Window.savedAcross (w : Window) : Segment := ⟨w.prev_x, w.prev_w⟩
def Window.savedDown (w : Window) : Segment := ⟨w.prev_y, w.prev_h⟩

def Window.startAcross (w : Window) : Segment := ⟨w.resize_start_x, w.resize_start_w⟩
def Window.startDown (w : Window) : Segment := ⟨w.resize_start_y, w.resize_start_h⟩

/-- The edges that the mouse does not hold are where they were. -/
def EdgesStill (w w' : Window) : Prop :=
  Still (w.pulls RESIZE_LEFT) (w.pulls RESIZE_RIGHT) w.across w'.across ∧
    Still (w.pulls RESIZE_TOP) (w.pulls RESIZE_BOTTOM) w.down w'.down

variable [DesktopConfig]

/-- `MIN_WIN_W <= w <= WIDTH`, `0 <= x <= WIDTH - w`, and so on. -/
def OnDesktop (across down : Segment) : Prop :=
  Inside WIDTH MIN_WIN_W across ∧ Inside DESKTOP_H MIN_WIN_H down

/-- Every active window that is not maximised lies on the desktop. -/
def Bounded (s : Desktop) : Prop :=
  ∀ idx, outside idx = false → (s.wins idx).active = true → (s.wins idx).maximized = false →
    OnDesktop (s.wins idx).across (s.wins idx).down

/-- Every state of the run is bounded, and no call of `apply_resize` moves an edge that is not
dragged. -/
def GeometryHolds (ops : List Op) : Prop :=
  (∀ h t, ops = h ++ t → Bounded (run h)) ∧
    ∀ h mx my t, ops = h ++ Op.drag mx my :: t →
      EdgesStill ((run h).wins (run h).active_win_idx)
        ((drag (run h) mx my).wins (run h).active_win_idx)

/-! ## When it holds -/

/-- The mouse reaches no further than the desktop. -/
def MouseFits (w : Window) (mx my : Int) : Prop :=
  Reaches WIDTH (w.pulls RESIZE_LEFT) (w.pulls RESIZE_RIGHT) w.startAcross
      (mx - w.resize_start_mx) ∧
    Reaches DESKTOP_H (w.pulls RESIZE_TOP) (w.pulls RESIZE_BOTTOM) w.startDown
      (my - w.resize_start_my)

def Room (s : Desktop) : Prop := ∃ idx, outside idx = false ∧ (s.wins idx).active = false

/-- A window with a place of its own is small enough for the desktop, a window that is restored
was on the desktop before it was maximised, the lower half of the desktop is high enough for a
window that is snapped to it, and the mouse reaches no further than the desktop. -/
def Fits (s : Desktop) : Op → Prop
  | .open_image_file (some (img_w, img_h)) =>
    Room s → (img_w : Int) + 20 ≤ WIDTH ∧ (img_h : Int) + 46 ≤ DESKTOP_H
  | .open_netsurf => Room s → 450 ≤ WIDTH ∧ 470 ≤ DESKTOP_H
  | .open_demo3d_window => Room s → 360 ≤ WIDTH ∧ 280 ≤ DESKTOP_H
  | .open_gbemu_window true =>
    (∃ idx, outside idx = false ∧
      ((s.wins idx).active = false ∨ (s.wins idx).kind = .WINDOW_KIND_GBEMU)) →
      660 ≤ WIDTH ∧ 616 ≤ DESKTOP_H
  | .restore_window idx => outside idx = false → (s.wins idx).active = true →
    (s.wins idx).maximized = true →
      OnDesktop (s.wins idx).savedAcross (s.wins idx).savedDown
  | .snap_window_by_key idx key => outside idx = false → (s.wins idx).active = true →
    (s.wins idx).minimized = false → key = 0x11 → MIN_WIN_H ≤ DESKTOP_H - DESKTOP_H / 2
  | .drag mx my => active_window_valid s = true → (s.wins s.active_win_idx).resizing = true →
    MouseFits (s.wins s.active_win_idx) mx my
  | _ => True

/-! ## What holds of the windows -/

/-- A window that is being resized lies where the start and the edges of the mouse allow. -/
structure Held (w : Window) : Prop where
  floats : w.maximized = false
  start : OnDesktop w.startAcross w.startDown
  across_one : ¬ (w.pulls RESIZE_LEFT = true ∧ w.pulls RESIZE_RIGHT = true)
  down_one : ¬ (w.pulls RESIZE_TOP = true ∧ w.pulls RESIZE_BOTTOM = true)
  across_still : Still (w.pulls RESIZE_LEFT) (w.pulls RESIZE_RIGHT) w.startAcross w.across
  down_still : Still (w.pulls RESIZE_TOP) (w.pulls RESIZE_BOTTOM) w.startDown w.down

structure Placed (w : Window) : Prop where
  inside : w.maximized = false → OnDesktop w.across w.down
  held : w.resizing = true → Held w

def AllPlaced (s : Desktop) : Prop :=
  ∀ idx, outside idx = false → (s.wins idx).active = true → Placed (s.wins idx)

theorem AllPlaced.bounded {s : Desktop} (h : AllPlaced s) : Bounded s :=
  fun idx hin hactive => (h idx hin hactive).inside

theorem sizes :
    (WIDTH = 512 ∧ HEIGHT = 384 ∧ DESKTOP_H = 270 ∧ MAX_WINDOWS = 4) ∨
      (WIDTH = 1024 ∧ HEIGHT = 768 ∧ DESKTOP_H = 738 ∧ MAX_WINDOWS = 12) := by
  unfold WIDTH HEIGHT DESKTOP_H GUI_VISIBLE_H TASKBAR_H HEIGHT MAX_WINDOWS
  cases FPGA_MINIMAL
  · exact Or.inr ⟨rfl, rfl, rfl, rfl⟩
  · exact Or.inl ⟨rfl, rfl, rfl, rfl⟩

/-! ## Dragging an edge -/

theorem apply_resize_across (w : Window) (mx my : Int) :
    (apply_resize w mx my).across = stretch WIDTH MIN_WIN_W (w.pulls RESIZE_LEFT)
      (w.pulls RESIZE_RIGHT) w.startAcross (mx - w.resize_start_mx) := by
  unfold apply_resize stretch Stretch.pull Stretch.fit Window.across Window.startAcross
  dsimp only
  cases w.pulls RESIZE_LEFT
  · rfl
  · simp only [if_true]
    split <;> rfl

theorem apply_resize_down (w : Window) (mx my : Int) :
    (apply_resize w mx my).down = stretch DESKTOP_H MIN_WIN_H (w.pulls RESIZE_TOP)
      (w.pulls RESIZE_BOTTOM) w.startDown (my - w.resize_start_my) := by
  unfold apply_resize stretch Stretch.pull Stretch.fit Window.down Window.startDown
  dsimp only
  cases w.pulls RESIZE_TOP
  · rfl
  · simp only [if_true]
    split <;> rfl

theorem apply_resize_inside (w : Window) (mx my : Int) :
    OnDesktop (apply_resize w mx my).across (apply_resize w mx my).down := by
  rw [apply_resize_across, apply_resize_down]
  have hsizes := @sizes _
  constructor
  · apply Stretch.stretch_inside
    unfold MIN_WIN_W
    omega
  · apply Stretch.stretch_inside
    unfold MIN_WIN_H
    omega

theorem Held.still_iff {w : Window} (h : Held w) (mx my : Int) :
    EdgesStill w (apply_resize w mx my) ↔ MouseFits w mx my := by
  unfold EdgesStill MouseFits
  rw [h.across_still.iff_of_still, h.down_still.iff_of_still, apply_resize_across,
    apply_resize_down, Stretch.stretch_still h.start.1 h.across_one,
    Stretch.stretch_still h.start.2 h.down_one]

theorem Held.drag {w : Window} (h : Held w) {mx my : Int} (hfits : MouseFits w mx my) :
    Held (apply_resize w mx my) := by
  have hstill := (h.still_iff mx my).mpr hfits
  exact ⟨h.floats, h.start, h.across_one, h.down_one, h.across_still.iff_of_still.mp hstill.1,
    h.down_still.iff_of_still.mp hstill.2⟩

/-! ## What a step does to the windows -/

omit [DesktopConfig] in
theorem put_wins (s : Desktop) (idx : Int) (w : Window) (i : Int) :
    (s.put idx w).wins i = if i = idx then w else s.wins i := rfl

theorem bring_to_front_wins (s : Desktop) (idx i : Int) :
    (bring_to_front s idx).wins i = s.wins i ∨
      (bring_to_front s idx).wins i =
        { s.wins i with minimized := false, taskbar_anim := 8 } := by
  unfold bring_to_front
  split
  · exact Or.inl rfl
  · split
    · dsimp only
      rw [put_wins]
      by_cases hi : i = idx
      · subst hi
        rw [if_pos rfl]
        exact Or.inr rfl
      · rw [if_neg hi]
        exact Or.inl rfl
    · exact Or.inl rfl

theorem cycle_wins (s : Desktop) : (cycle_active_window s).wins = s.wins := by
  unfold cycle_active_window
  split
  · dsimp only
    split <;> rfl
  · rfl

theorem close_window_wins (s : Desktop) (idx i : Int) :
    (close_window s idx).wins i =
      if outside idx = false ∧ i = idx then reset_window else s.wins i := by
  unfold close_window
  cases hout : outside idx with
  | true => simp
  | false =>
    dsimp only
    rw [if_neg Bool.false_ne_true]
    have hwins : ∀ s' : Desktop, (if s'.active_win_idx = -1 then cycle_active_window s'
        else s').wins = s'.wins := by
      intro s'
      split
      · exact cycle_wins s'
      · rfl
    rw [hwins, put_wins]
    by_cases hi : i = idx
    · rw [if_pos hi]
      simp [hi]
    · have hother : (if false = false ∧ i = idx then reset_window else s.wins i) = s.wins i :=
        if_neg fun h => hi h.2
      rw [if_neg hi, hother]
      dsimp only
      split <;> rfl

theorem AllPlaced.put {s : Desktop} (h : AllPlaced s) {idx : Int} {w : Window}
    (hw : w.active = true → Placed w) : AllPlaced (s.put idx w) := by
  intro i hin
  rw [put_wins]
  split
  · exact hw
  · exact h i hin

theorem front_placed {s : Desktop} {i : Int} (h : (s.wins i).active = true → Placed (s.wins i))
    (idx : Int) (hactive : ((bring_to_front s idx).wins i).active = true) :
    Placed ((bring_to_front s idx).wins i) := by
  rcases bring_to_front_wins s idx i with hsame | hraised
  · rw [hsame] at hactive ⊢
    exact h hactive
  · rw [hraised] at hactive ⊢
    have hplaced := h hactive
    exact ⟨hplaced.inside, fun hheld => by
      have hold := hplaced.held hheld
      exact ⟨hold.floats, hold.start, hold.across_one, hold.down_one, hold.across_still,
        hold.down_still⟩⟩

theorem AllPlaced.front {s : Desktop} (h : AllPlaced s) (idx : Int) :
    AllPlaced (bring_to_front s idx) := fun i hin => front_placed (h i hin) idx

theorem AllPlaced.close {s : Desktop} (h : AllPlaced s) (idx : Int) :
    AllPlaced (close_window s idx) := by
  intro i hin
  rw [close_window_wins]
  split
  · intro hactive
    cases hactive
  · exact h i hin

theorem AllPlaced.change {s : Desktop} (h : AllPlaced s) {idx : Int} {ok : Window → Bool}
    {f : Window → Window} (hf : outside idx = false → ok (s.wins idx) = true →
      (f (s.wins idx)).active = true → Placed (f (s.wins idx))) : AllPlaced (change s idx ok f) := by
  unfold gui.change
  by_cases hout : outside idx = true
  · rwa [if_pos hout]
  · rw [if_neg hout]
    split
    · rename_i hok
      exact h.put (hf (by simpa using hout) hok)
    · exact h

/-! ## Opening a window -/

theorem room_iff {s : Desktop} : Room s ↔ ∃ i, firstFree s = some i := by
  constructor
  · rintro ⟨idx, hin, hactive⟩
    cases hfree : firstFree s with
    | some i => exact ⟨i, rfl⟩
    | none =>
      have hnone := List.find?_eq_none.mp hfree idx (mem_indices.mpr hin)
      rw [hactive] at hnone
      exact absurd rfl hnone
  · rintro ⟨i, hfree⟩
    exact ⟨i, firstFree_spec hfree⟩

theorem AllPlaced.openWindow {s : Desktop} (h : AllPlaced s) {fresh : Int → Window}
    (hfresh : Room s → ∀ i, outside i = false → Placed (fresh i)) :
    AllPlaced (openWindow s fresh) := by
  unfold gui.openWindow
  cases hfree : firstFree s with
  | none => exact h
  | some i =>
    exact (h.put fun _ => hfresh (room_iff.mpr ⟨i, hfree⟩) i (firstFree_spec hfree).1).front i

theorem openWindow_bounded {s : Desktop} {fresh : Int → Window} (hroom : Room s)
    (hactive : ∀ i, (fresh i).active = true) (hfloats : ∀ i, (fresh i).maximized = false)
    (h : Bounded (openWindow s fresh)) :
    ∃ i, outside i = false ∧ OnDesktop (fresh i).across (fresh i).down := by
  obtain ⟨i, hfree⟩ := room_iff.mp hroom
  have hin := (firstFree_spec hfree).1
  have hi := h i hin
  rw [gui.openWindow, hfree] at hi
  dsimp only at hi
  refine ⟨i, hin, ?_⟩
  rcases bring_to_front_wins (s.put i (fresh i)) i i with hsame | hraised
  · rw [hsame, put_wins_self] at hi
    exact hi (hactive i) (hfloats i)
  · rw [hraised, put_wins_self] at hi
    exact hi (hactive i) (hfloats i)

theorem placed_of_free {w : Window} (hfree : w.resizing = false)
    (hinside : w.maximized = false → OnDesktop w.across w.down) : Placed w :=
  ⟨hinside, fun hheld => absurd hheld (by rw [hfree]; exact Bool.false_ne_true)⟩

theorem newTask_placed {i : Int} : Placed (newTask i) := by
  apply placed_of_free rfl
  intro _
  have hw : MIN_WIN_W ≤ default_w ∧ default_w ≤ WIDTH := by
    have hsizes := @sizes _
    simp only [default_w, MIN_WIN_W]
    omega
  have hh : MIN_WIN_H ≤ default_h ∧ default_h ≤ DESKTOP_H := by
    have hsizes := @sizes _
    simp only [default_h, MIN_WIN_H]
    omega
  have hx := @Stretch.clamp_mem (WIDTH / 16 + i * (WIDTH / 16 / 2)) 0 (WIDTH - default_w) (by omega)
  have hy := @Stretch.clamp_mem (HEIGHT / 10 + i * (WIDTH / 16 / 2)) 0 (DESKTOP_H - default_h)
    (by omega)
  exact ⟨⟨hw.1, hw.2, hx.1, hx.2⟩, ⟨hh.1, hh.2, hy.1, hy.2⟩⟩

omit [DesktopConfig] in
theorem middle_iff {size least len : Int} (h : least ≤ len) :
    Inside size least ⟨Int.tdiv (size - len) 2, len⟩ ↔ len ≤ size := by
  refine ⟨fun hin => hin.len_le, fun hlen => ?_⟩
  have hmiddle : Int.tdiv (size - len) 2 = (size - len) / 2 :=
    Int.tdiv_eq_ediv_of_nonneg (by omega)
  rw [hmiddle]
  exact ⟨h, hlen, by dsimp only; omega, by dsimp only; omega⟩

omit [DesktopConfig] in
theorem centred_iff {size least len : Int} (h : least ≤ len) :
    Inside size least ⟨if Int.tdiv (size - len) 2 < 0 then 0 else Int.tdiv (size - len) 2, len⟩ ↔
      len ≤ size := by
  refine ⟨fun hin => hin.len_le, fun hlen => ?_⟩
  have hin := (@middle_iff size least len h).mpr hlen
  rwa [if_neg (by have := hin.pos_nonneg; dsimp only at this; omega)]

omit [DesktopConfig] in
theorem le_raise (a lo : Int) : lo ≤ if a < lo then lo else a := by
  split <;> omega

omit [DesktopConfig] in
theorem raise_le_iff {a lo size : Int} (h : lo ≤ size) :
    (if a < lo then lo else a) ≤ size ↔ a ≤ size := by
  split <;> omega

theorem newImage_iff (img_w img_h : Nat) (i : Int) :
    OnDesktop (newImage img_w img_h i).across (newImage img_w img_h i).down ↔
      (img_w : Int) + 20 ≤ WIDTH ∧ (img_h : Int) + 46 ≤ DESKTOP_H := by
  have hsizes := @sizes _
  have hiff := and_congr (@centred_iff WIDTH MIN_WIN_W _ (le_raise (img_w + 20) 220))
    (@centred_iff DESKTOP_H MIN_WIN_H _ (le_raise (img_h + 46) 140))
  rw [raise_le_iff (by omega), raise_le_iff (by omega)] at hiff
  unfold newImage OnDesktop Window.across Window.down
  dsimp only
  rw [hiff]

theorem netsurf_iff : OnDesktop ⟨50, 400⟩ ⟨50, 420⟩ ↔ 450 ≤ WIDTH ∧ 470 ≤ DESKTOP_H := by
  constructor
  · rintro ⟨⟨-, -, -, hx⟩, -, -, -, hy⟩
    dsimp only at hx hy
    omega
  · rintro ⟨hx, hy⟩
    refine ⟨⟨?_, ?_, ?_, ?_⟩, ?_, ?_, ?_, ?_⟩ <;> simp only [MIN_WIN_W, MIN_WIN_H] <;> omega

/-! ## The other changes of a window -/

omit [DesktopConfig] in
theorem restore_of_max {w : Window} (h : w.maximized = true) :
    w.restore.maximized = false ∧ w.restore.resizing = false ∧
      w.restore.across = w.savedAcross ∧ w.restore.down = w.savedDown := by
  unfold Window.restore
  dsimp only
  rw [if_pos h]
  exact ⟨rfl, rfl, rfl, rfl⟩

omit [DesktopConfig] in
theorem restore_active {w : Window} (h : w.active = true) : w.restore.active = true := by
  unfold Window.restore
  dsimp only
  split <;> exact h

omit [DesktopConfig] in
theorem restore_of_float {w : Window} (h : w.maximized = false) :
    w.restore.maximized = false ∧ w.restore.resizing = false ∧
      w.restore.across = w.across ∧ w.restore.down = w.down := by
  unfold Window.restore
  dsimp only
  rw [if_neg (by rw [h]; exact Bool.false_ne_true)]
  exact ⟨h, rfl, rfl, rfl⟩

theorem snapRect_iff {key : Nat} {x y w h : Int} (hkey : snapRect key = some (x, y, w, h)) :
    OnDesktop ⟨x, clamp_int w MIN_WIN_W WIDTH⟩ ⟨y, clamp_int h MIN_WIN_H DESKTOP_H⟩ ↔
      (key = 0x11 → MIN_WIN_H ≤ DESKTOP_H - DESKTOP_H / 2) := by
  have hsizes := @sizes _
  have hrects : (key = 0x12 ∧ (x, y, w, h) = (0, 0, WIDTH / 2, DESKTOP_H)) ∨
      (key = 0x13 ∧ (x, y, w, h) = (WIDTH / 2, 0, WIDTH - WIDTH / 2, DESKTOP_H)) ∨
      (key = 0x10 ∧ (x, y, w, h) = (0, 0, WIDTH, DESKTOP_H / 2)) ∨
      (key = 0x11 ∧ (x, y, w, h) = (0, DESKTOP_H / 2, WIDTH, DESKTOP_H - DESKTOP_H / 2)) := by
    unfold snapRect at hkey
    dsimp only at hkey
    split at hkey
    · exact Or.inl ⟨by assumption, (Option.some.inj hkey).symm⟩
    · split at hkey
      · exact Or.inr (Or.inl ⟨by assumption, (Option.some.inj hkey).symm⟩)
      · split at hkey
        · exact Or.inr (Or.inr (Or.inl ⟨by assumption, (Option.some.inj hkey).symm⟩))
        · split at hkey
          · exact Or.inr (Or.inr (Or.inr ⟨by assumption, (Option.some.inj hkey).symm⟩))
          · cases hkey
  have hiff : OnDesktop ⟨x, clamp_int w MIN_WIN_W WIDTH⟩ ⟨y, clamp_int h MIN_WIN_H DESKTOP_H⟩ ↔
      0 ≤ x ∧ x ≤ WIDTH - clamp_int w MIN_WIN_W WIDTH ∧
        0 ≤ y ∧ y ≤ DESKTOP_H - clamp_int h MIN_WIN_H DESKTOP_H := by
    have hw := @Stretch.clamp_mem w MIN_WIN_W WIDTH (by unfold MIN_WIN_W; omega)
    have hh := @Stretch.clamp_mem h MIN_WIN_H DESKTOP_H (by unfold MIN_WIN_H; omega)
    exact ⟨fun ⟨hx, hy⟩ => ⟨hx.pos_nonneg, hx.end_le, hy.pos_nonneg, hy.end_le⟩,
      fun ⟨hx, hx', hy, hy'⟩ => ⟨⟨hw.1, hw.2, hx, hx'⟩, hh.1, hh.2, hy, hy'⟩⟩
  rw [hiff]
  unfold clamp_int MIN_WIN_W MIN_WIN_H
  rcases hrects with ⟨rfl, hrect⟩ | ⟨rfl, hrect⟩ | ⟨rfl, hrect⟩ | ⟨rfl, hrect⟩ <;>
    (simp only [Prod.mk.injEq] at hrect; obtain ⟨rfl, rfl, rfl, rfl⟩ := hrect)
  · split_ifs <;> omega
  · split_ifs <;> omega
  · split_ifs <;> omega
  · split_ifs <;> omega

theorem save_placed {w : Window} (h : Placed w) : Placed w.save := by
  unfold Window.save
  split
  · exact h
  · exact ⟨h.inside, fun hheld => by
      have hold := h.held hheld
      exact ⟨hold.floats, hold.start, hold.across_one, hold.down_one, hold.across_still,
        hold.down_still⟩⟩

theorem snap_placed {w : Window} (h : Placed w) {key : Nat}
    (hkey : key = 0x11 → MIN_WIN_H ≤ DESKTOP_H - DESKTOP_H / 2) : Placed (w.snap key) := by
  unfold Window.snap
  split
  · exact save_placed h
  · rename_i hrect
    exact placed_of_free rfl fun _ => (snapRect_iff hrect).mpr hkey

theorem snap_down (w : Window) :
    (w.snap 0x11).maximized = false ∧
      (OnDesktop (w.snap 0x11).across (w.snap 0x11).down ↔
        (0x11 = 0x11 → MIN_WIN_H ≤ DESKTOP_H - DESKTOP_H / 2)) := by
  have hrect : snapRect 0x11 = some (0, DESKTOP_H / 2, WIDTH, DESKTOP_H - DESKTOP_H / 2) := rfl
  have hiff := snapRect_iff hrect
  unfold Window.snap
  rw [hrect]
  exact ⟨rfl, hiff⟩

omit [DesktopConfig] in
theorem hit_resize_zone_one (w : Window) (mx my : Int) :
    ¬ ((hit_resize_zone w mx my &&& RESIZE_LEFT != 0) = true ∧
        (hit_resize_zone w mx my &&& RESIZE_RIGHT != 0) = true) ∧
      ¬ ((hit_resize_zone w mx my &&& RESIZE_TOP != 0) = true ∧
        (hit_resize_zone w mx my &&& RESIZE_BOTTOM != 0) = true) := by
  unfold hit_resize_zone
  dsimp only
  split
  · decide
  · split
    · decide
    · split
      · split
        · decide
        · split <;> decide
      · split
        · split
          · decide
          · split <;> decide
        · split
          · decide
          · split <;> decide

omit [DesktopConfig] in
theorem floats_of_zone {w : Window} {mx my : Int} (h : hit_resize_zone w mx my ≠ RESIZE_NONE) :
    w.maximized = false := by
  cases hmax : w.maximized with
  | false => rfl
  | true =>
    unfold hit_resize_zone at h
    rw [if_pos (by rw [hmax]; rfl)] at h
    exact absurd rfl h

theorem begin_resize_placed {w : Window} (h : Placed w) {mx my : Int}
    (hdir : hit_resize_zone w mx my ≠ RESIZE_NONE) :
    Placed (begin_resize w (hit_resize_zone w mx my) mx my) := by
  have hfloats := floats_of_zone hdir
  have hone := hit_resize_zone_one w mx my
  exact ⟨h.inside, fun _ => ⟨hfloats, h.inside hfloats, hone.1, hone.2, Still.refl _ _ _,
    Still.refl _ _ _⟩⟩

/-! ## One step -/

def isGbemu (w : Window) : Bool := w.active && w.kind == .WINDOW_KIND_GBEMU

theorem foldl_close_wins (l : List Int) (s : Desktop) (i : Int) (hl : ∀ j ∈ l, outside j = false) :
    (l.foldl (fun s i => if isGbemu (s.wins i) then close_window s i else s) s).wins i =
      if i ∈ l ∧ isGbemu (s.wins i) = true then reset_window else s.wins i := by
  induction l generalizing s with
  | nil => simp
  | cons j l ih =>
    have hstep : (if isGbemu (s.wins j) then close_window s j else s).wins i =
        if i = j ∧ isGbemu (s.wins i) = true then reset_window else s.wins i := by
      by_cases hj : isGbemu (s.wins j) = true
      · rw [if_pos hj, close_window_wins]
        by_cases hi : i = j
        · subst hi
          rw [if_pos ⟨hl i List.mem_cons_self, rfl⟩, if_pos ⟨rfl, hj⟩]
        · rw [if_neg fun h => hi h.2, if_neg fun h => hi h.1]
      · rw [if_neg hj, if_neg]
        rintro ⟨rfl, hi⟩
        exact hj hi
    rw [List.foldl_cons, ih _ fun k hk => hl k (List.mem_cons_of_mem j hk), hstep]
    by_cases hi : i = j
    · subst hi
      cases hg : isGbemu (s.wins i) <;> simp [hg]
    · simp [hi]

theorem closeGbemu_wins (s : Desktop) (i : Int) :
    (closeGbemu s).wins i =
      if outside i = false ∧ isGbemu (s.wins i) = true then reset_window else s.wins i := by
  have hwins := foldl_close_wins indices s i fun j hj => mem_indices.mp hj
  simp only [mem_indices] at hwins
  exact hwins

theorem AllPlaced.closeGbemu {s : Desktop} (h : AllPlaced s) : AllPlaced (closeGbemu s) := by
  intro i hin
  rw [closeGbemu_wins]
  split
  · intro hactive
    cases hactive
  · exact h i hin

theorem room_closeGbemu (s : Desktop) :
    Room (closeGbemu s) ↔ ∃ idx, outside idx = false ∧
      ((s.wins idx).active = false ∨ (s.wins idx).kind = .WINDOW_KIND_GBEMU) := by
  have hfree : ∀ idx, outside idx = false → (((closeGbemu s).wins idx).active = false ↔
      (s.wins idx).active = false ∨ (s.wins idx).kind = .WINDOW_KIND_GBEMU) := by
    intro idx hin
    rw [closeGbemu_wins]
    cases hg : isGbemu (s.wins idx) with
    | true =>
      unfold isGbemu at hg
      simp only [Bool.and_eq_true, beq_iff_eq] at hg
      rw [if_pos ⟨hin, rfl⟩]
      simp [hg.2, reset_window]
    | false =>
      unfold isGbemu at hg
      rw [if_neg fun h => Bool.false_ne_true h.2]
      cases hactive : (s.wins idx).active with
      | true => simpa [hactive] using hg
      | false => simp
  exact exists_congr fun idx => and_congr_right fun hin => hfree idx hin

def StepHolds (s : Desktop) (op : Op) : Prop :=
  Bounded (step s op) ∧ ∀ mx my, op = .drag mx my →
    EdgesStill (s.wins s.active_win_idx) ((drag s mx my).wins s.active_win_idx)

theorem whole_placed (kind : Kind) (i : Int) : Placed (whole kind i) :=
  placed_of_free rfl fun hfloats => by cases hfloats

theorem AllPlaced.create {s : Desktop} (h : AllPlaced s) : AllPlaced (create_new_task s) := by
  have hopen := h.openWindow fun _ i _ => @newTask_placed _ i
  unfold gui.openWindow at hopen
  unfold gui.create_new_task
  cases hfree : firstFree s with
  | none => exact h
  | some i =>
    rw [hfree] at hopen
    exact hopen

theorem AllPlaced.image {s : Desktop} (h : AllPlaced s) {decoded : Option (Nat × Nat)}
    (hfits : Fits s (.open_image_file decoded)) : AllPlaced (open_image_file s decoded) := by
  cases decoded with
  | some size =>
    exact h.openWindow fun hroom i _ => placed_of_free rfl fun _ =>
      (newImage_iff size.1 size.2 i).mpr (hfits hroom)
  | none =>
    unfold gui.open_image_file
    cases firstFree s with
    | none => exact h
    | some i => exact h.put fun hactive => nomatch hactive

theorem gbemu_iff (i : Int) :
    OnDesktop (newGbemu i).across (newGbemu i).down ↔ 660 ≤ WIDTH ∧ 616 ≤ DESKTOP_H :=
  and_congr (middle_iff (by decide)) (middle_iff (by decide))

theorem demo3d_iff :
    OnDesktop ⟨Int.tdiv (WIDTH - 360) 2, 360⟩ ⟨Int.tdiv (DESKTOP_H - 280) 2, 280⟩ ↔
      360 ≤ WIDTH ∧ 280 ≤ DESKTOP_H :=
  and_congr (middle_iff (by decide)) (middle_iff (by decide))

theorem open_gbemu_window_loads (s : Desktop) :
    open_gbemu_window s true = openWindow (closeGbemu s) newGbemu := by
  unfold open_gbemu_window openWindow
  dsimp only
  cases firstFree (closeGbemu s) <;> rfl

theorem AllPlaced.gbemu_fails {s : Desktop} (h : AllPlaced s) :
    AllPlaced (open_gbemu_window s false) := by
  unfold open_gbemu_window
  dsimp only
  cases hfree : firstFree (gui.closeGbemu s) with
  | none => exact h.closeGbemu
  | some i =>
    intro j hin
    dsimp only
    rw [if_neg Bool.false_ne_true, close_window_wins]
    by_cases hj : j = i
    · subst hj
      rw [if_pos ⟨hin, rfl⟩]
      exact fun hactive => nomatch hactive
    · rw [if_neg fun hclosed => hj hclosed.2]
      apply front_placed
      rw [put_wins_ne _ _ hj]
      exact h.closeGbemu j hin

theorem AllPlaced.release {s : Desktop} (h : AllPlaced s) :
    AllPlaced { s with wins := fun i => (s.wins i).letGo } :=
  fun i hin hactive => placed_of_free rfl (h i hin hactive).inside

theorem AllPlaced.minimize {s : Desktop} (h : AllPlaced s) (idx : Int) :
    AllPlaced (minimize_window s idx) := by
  unfold minimize_window
  split
  · exact h
  · rename_i hout
    split
    · rename_i hactive
      have hput : AllPlaced (s.put idx (s.wins idx).minimize) := h.put fun _ =>
        placed_of_free rfl (h idx (by simpa using hout) hactive).inside
      dsimp only
      split
      · exact hput
      · exact hput
    · exact h

theorem AllPlaced.restore {s : Desktop} (h : AllPlaced s) {idx : Int}
    (hfits : Fits s (.restore_window idx)) : AllPlaced (restore_window s idx) := by
  apply h.change
  intro hin hactive _
  have hplaced := h idx hin hactive
  cases hmax : (s.wins idx).maximized with
  | true =>
    obtain ⟨-, hfree, hacross, hdown⟩ := restore_of_max hmax
    refine placed_of_free hfree fun _ => ?_
    rw [hacross, hdown]
    exact hfits hin hactive hmax
  | false =>
    obtain ⟨-, hfree, hacross, hdown⟩ := restore_of_float hmax
    refine placed_of_free hfree fun _ => ?_
    rw [hacross, hdown]
    exact hplaced.inside hmax

theorem AllPlaced.snap {s : Desktop} (h : AllPlaced s) {idx : Int} {key : Nat}
    (hfits : Fits s (.snap_window_by_key idx key)) : AllPlaced (snap_window_by_key s idx key) := by
  apply h.change
  intro hin hok _
  simp only [Bool.and_eq_true, Bool.not_eq_true'] at hok
  exact snap_placed (h idx hin hok.1) (hfits hin hok.1 hok.2)

theorem AllPlaced.grab {s : Desktop} (h : AllPlaced s) (idx mx my : Int) :
    AllPlaced (grab s idx mx my) := by
  unfold gui.grab
  dsimp only
  split
  · rename_i hdir
    intro i hin hactive
    rw [put_wins] at hactive ⊢
    by_cases hi : i = idx
    · subst hi
      rw [if_pos rfl] at hactive ⊢
      exact begin_resize_placed (h i hin hactive) (by simpa using hdir)
    · rw [if_neg hi] at hactive ⊢
      exact h i hin hactive
  · exact h

theorem open_of_valid {s : Desktop} (h : active_window_valid s = true) :
    outside s.active_win_idx = false ∧ (s.wins s.active_win_idx).active = true := by
  unfold active_window_valid at h
  simp only [Bool.and_eq_true, Bool.not_eq_true'] at h
  exact h.1

theorem drag_eq {s : Desktop} {mx my : Int} (hvalid : active_window_valid s = true)
    (hheld : (s.wins s.active_win_idx).resizing = true) :
    drag s mx my = s.put s.active_win_idx (apply_resize (s.wins s.active_win_idx) mx my) := by
  unfold drag
  rw [if_pos (by rw [hvalid, hheld]; rfl)]

theorem drag_none {s : Desktop} {mx my : Int} (h : ¬ (active_window_valid s = true ∧
    (s.wins s.active_win_idx).resizing = true)) : drag s mx my = s := by
  unfold drag
  rw [if_neg (by rwa [Bool.and_eq_true])]

theorem AllPlaced.drag {s : Desktop} (h : AllPlaced s) {mx my : Int}
    (hfits : Fits s (.drag mx my)) : AllPlaced (drag s mx my) := by
  by_cases hboth : active_window_valid s = true ∧ (s.wins s.active_win_idx).resizing = true
  · obtain ⟨hvalid, hheld⟩ := hboth
    rw [drag_eq hvalid hheld]
    obtain ⟨hin, hactive⟩ := open_of_valid hvalid
    exact h.put fun _ => ⟨fun _ => apply_resize_inside _ mx my, fun _ =>
      ((h _ hin hactive).held hheld).drag (hfits hvalid hheld)⟩
  · rwa [drag_none hboth]

theorem AllPlaced.step {s : Desktop} (h : AllPlaced s) {op : Op} (hfits : Fits s op) :
    AllPlaced (step s op) := by
  cases op with
  | create_new_task => exact h.create
  | open_text_editor => exact h.openWindow fun _ i _ => whole_placed _ i
  | open_jit_debugger_window => exact h.openWindow fun _ i _ => whole_placed _ i
  | open_image_file decoded => exact h.image hfits
  | open_netsurf =>
    exact h.openWindow fun hroom i _ => placed_of_free rfl fun _ => netsurf_iff.mpr (hfits hroom)
  | open_demo3d_window =>
    exact h.openWindow fun hroom i _ => placed_of_free rfl fun _ => demo3d_iff.mpr (hfits hroom)
  | open_frankenstein_window =>
    exact h.openWindow fun _ i _ => placed_of_free rfl fun hfloats => by cases hfloats
  | open_gbemu_window loads =>
    cases loads with
    | false => exact h.gbemu_fails
    | true =>
      rw [gui.step, open_gbemu_window_loads]
      exact h.closeGbemu.openWindow fun hroom i _ => placed_of_free rfl fun _ =>
        (gbemu_iff i).mpr (hfits ((room_closeGbemu s).mp hroom))
  | close_window idx => exact h.close idx
  | bring_to_front idx => exact h.front idx
  | maximize_window idx =>
    exact h.change fun _ _ _ => placed_of_free rfl fun hfloats => by cases hfloats
  | restore_window idx => exact h.restore hfits
  | minimize_window idx => exact h.minimize idx
  | snap_window_by_key idx key => exact h.snap hfits
  | cycle_active_window =>
    intro i
    rw [gui.step, cycle_wins]
    exact h i
  | grab idx mx my => exact h.grab idx mx my
  | drag mx my => exact h.drag hfits
  | release => exact h.release

theorem drag_still_iff {s : Desktop} (h : AllPlaced s) (mx my : Int) :
    EdgesStill (s.wins s.active_win_idx) ((drag s mx my).wins s.active_win_idx) ↔
      Fits s (.drag mx my) := by
  by_cases hboth : active_window_valid s = true ∧ (s.wins s.active_win_idx).resizing = true
  · obtain ⟨hvalid, hheld⟩ := hboth
    obtain ⟨hin, hactive⟩ := open_of_valid hvalid
    rw [drag_eq hvalid hheld, put_wins_self, ((h _ hin hactive).held hheld).still_iff mx my]
    exact ⟨fun hfits _ _ => hfits, fun hfits => hfits hvalid hheld⟩
  · rw [drag_none hboth]
    exact ⟨fun _ hvalid hheld => absurd ⟨hvalid, hheld⟩ hboth,
      fun _ => ⟨Still.refl _ _ _, Still.refl _ _ _⟩⟩

theorem holds_of_fits {s : Desktop} (h : AllPlaced s) {op : Op} (hfits : Fits s op) :
    StepHolds s op := by
  refine ⟨(h.step hfits).bounded, fun mx my hop => ?_⟩
  subst hop
  exact (drag_still_iff h mx my).mpr hfits

theorem bounded_change {s : Desktop} {idx : Int} {ok : Window → Bool} {f : Window → Window}
    (h : Bounded (change s idx ok f)) (hin : outside idx = false) (hok : ok (s.wins idx) = true)
    (hactive : (f (s.wins idx)).active = true) (hfloats : (f (s.wins idx)).maximized = false) :
    OnDesktop (f (s.wins idx)).across (f (s.wins idx)).down := by
  have hidx := h idx hin
  unfold gui.change at hidx
  rw [if_neg (by rw [hin]; exact Bool.false_ne_true), if_pos hok, put_wins_self] at hidx
  exact hidx hactive hfloats

theorem fits_of_holds {s : Desktop} (h : AllPlaced s) {op : Op} (hholds : StepHolds s op) :
    Fits s op := by
  obtain ⟨hbounded, hedges⟩ := hholds
  cases op with
  | open_image_file decoded =>
    cases decoded with
    | none => trivial
    | some size =>
      intro hroom
      obtain ⟨i, -, hinside⟩ := openWindow_bounded hroom (fun _ => rfl) (fun _ => rfl) hbounded
      exact (newImage_iff size.1 size.2 i).mp hinside
  | open_netsurf =>
    intro hroom
    obtain ⟨i, -, hinside⟩ := openWindow_bounded hroom (fun _ => rfl) (fun _ => rfl) hbounded
    exact netsurf_iff.mp hinside
  | open_demo3d_window =>
    intro hroom
    obtain ⟨i, -, hinside⟩ := openWindow_bounded hroom (fun _ => rfl) (fun _ => rfl) hbounded
    exact demo3d_iff.mp hinside
  | open_gbemu_window loads =>
    cases loads with
    | false => trivial
    | true =>
      intro hroom
      rw [step, open_gbemu_window_loads] at hbounded
      obtain ⟨i, -, hinside⟩ := openWindow_bounded ((room_closeGbemu s).mpr hroom)
        (fun _ => rfl) (fun _ => rfl) hbounded
      exact (gbemu_iff i).mp hinside
  | restore_window idx =>
    intro hin hactive hmax
    obtain ⟨hfloats, -, hacross, hdown⟩ := restore_of_max hmax
    have hinside := bounded_change hbounded hin hactive (restore_active hactive) hfloats
    rwa [hacross, hdown] at hinside
  | snap_window_by_key idx key =>
    rintro hin hactive hmin rfl
    obtain ⟨hfloats, hiff⟩ := snap_down (s.wins idx)
    have hinside := bounded_change hbounded hin (by rw [hactive, hmin]; rfl)
      ((snap_keeps _ _).1.trans hactive) hfloats
    exact hiff.mp hinside rfl
  | drag mx my => exact (drag_still_iff h mx my).mp (hedges mx my rfl)
  | _ => trivial

/-! ## Whole runs -/

/-- In a run, all windows stay on the desktop and `apply_resize` moves no edge that is not dragged
exactly when every step fits. -/
theorem geometry_iff (ops : List Op) :
    GeometryHolds ops ↔ Each (fun h op => Fits (run h) op) ops := by
  have hstart : AllPlaced boot := fun _ _ hactive => nomatch hactive
  have hsteps := @Runs.each_iff _ _ step AllPlaced StepHolds Fits boot hstart
    (fun hs => ⟨fits_of_holds hs, holds_of_fits hs⟩) (fun hs hfits => hs.step hfits) ops
  have hstates := @Runs.forall_states_iff _ _ step Bounded boot ops
  unfold GeometryHolds run
  rw [← hsteps, hstates]
  constructor
  · rintro ⟨⟨-, hbounded⟩, hedges⟩ h op t hops
    exact ⟨hbounded h op t hops, fun mx my hop => hedges h mx my t (hop ▸ hops)⟩
  · intro hall
    exact ⟨⟨hstart.bounded, fun h op t hops => (hall h op t hops).1⟩,
      fun h mx my t hops => (hall h _ t hops).2 mx my rfl⟩

omit [DesktopConfig] in
/-- The editor opens its window maximised and saves no place for it, so restoring it leaves a
window without width and height. -/
theorem restored_editor_vanishes :
    ¬ @GeometryHolds fpgaDesktop [.open_text_editor, .restore_window 0] := by
  rintro ⟨hbounded, -⟩
  have hwindow := hbounded _ [] (List.append_nil _).symm 0 (by decide) (by decide) (by decide)
  exact absurd (@Inside.least_le _ _ _ hwindow.1) (by decide)

end vibeos.gui

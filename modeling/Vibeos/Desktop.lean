-- The windows of the desktop in user_gui.c: their order, their geometry, and the functions that
-- open and close them, bring them to the front, size them and pass the focus on.
import Mathlib.Data.List.Basic

namespace vibeos.gui

/-- The sizes are set at compile time. -/
class DesktopConfig where
  FPGA_MINIMAL : Bool

export DesktopConfig (FPGA_MINIMAL)

@[reducible] def fpgaDesktop : DesktopConfig := ⟨true⟩

variable [DesktopConfig]

def MAX_WINDOWS : Int := if FPGA_MINIMAL then 4 else 12
def WIDTH : Int := if FPGA_MINIMAL then 512 else 1024
def HEIGHT : Int := if FPGA_MINIMAL then 384 else 768
def GUI_VISIBLE_H : Int := if FPGA_MINIMAL then 300 else HEIGHT
def TASKBAR_H : Int := 30
def DESKTOP_H : Int := GUI_VISIBLE_H - TASKBAR_H
def MIN_WIN_W : Int := 220
def MIN_WIN_H : Int := 140

def RESIZE_NONE : Nat := 0
def RESIZE_LEFT : Nat := 1
def RESIZE_RIGHT : Nat := 2
def RESIZE_TOP : Nat := 4
def RESIZE_BOTTOM : Nat := 8
def RESIZE_MARGIN : Int := 10

inductive Kind where
  | WINDOW_KIND_TERMINAL
  | WINDOW_KIND_IMAGE
  | WINDOW_KIND_DEMO3D
  | WINDOW_KIND_FPS_GAME
  | WINDOW_KIND_EDITOR
  | WINDOW_KIND_NETSURF
  | WINDOW_KIND_GBEMU
  | WINDOW_KIND_JIT_DEBUGGER
deriving DecidableEq

/-- A window, as far as its place on the screen goes. -/
structure Window where
  active : Bool
  maximized : Bool
  minimized : Bool
  kind : Kind
  x : Int
  y : Int
  w : Int
  h : Int
  prev_x : Int
  prev_y : Int
  prev_w : Int
  prev_h : Int
  dragging : Bool
  scroll_dragging : Bool
  resizing : Bool
  resize_dir : Nat
  resize_start_mx : Int
  resize_start_my : Int
  resize_start_x : Int
  resize_start_y : Int
  resize_start_w : Int
  resize_start_h : Int
  taskbar_anim : Nat
deriving DecidableEq

def reset_window : Window where
  active := false
  maximized := false
  minimized := false
  kind := .WINDOW_KIND_TERMINAL
  x := 0
  y := 0
  w := 0
  h := 0
  prev_x := 0
  prev_y := 0
  prev_w := 0
  prev_h := 0
  dragging := false
  scroll_dragging := false
  resizing := false
  resize_dir := 0
  resize_start_mx := 0
  resize_start_my := 0
  resize_start_x := 0
  resize_start_y := 0
  resize_start_w := 0
  resize_start_h := 0
  taskbar_anim := 0

structure Desktop where
  wins : Int → Window
  z_order : List Int
  active_win_idx : Int

omit [DesktopConfig] in
def Desktop.put (s : Desktop) (idx : Int) (w : Window) : Desktop :=
  { s with wins := fun i => if i = idx then w else s.wins i }

def indices : List Int := (List.range MAX_WINDOWS.toNat).map Int.ofNat

def boot : Desktop where
  wins := fun _ => reset_window
  z_order := indices
  active_win_idx := -1

def clamp_int (v lo hi : Int) : Int := if v < lo then lo else if v > hi then hi else v

/-- The bounds check at the start of the functions. -/
def outside (idx : Int) : Bool := idx < 0 || idx ≥ MAX_WINDOWS

/-! ## The order of the windows -/

omit [DesktopConfig] in
/-- The loops that shift the entries behind the one of a window, and put it at the end. -/
def toEnd (z_order : List Int) (idx : Int) : List Int :=
  if idx ∈ z_order then z_order.erase idx ++ [idx] else z_order

/-- The test that the scans of `cycle_active_window` make. -/
def shown (s : Desktop) (cid : Int) : Bool :=
  cid ≥ 0 && cid < MAX_WINDOWS && (s.wins cid).active && !(s.wins cid).minimized

def topmost (s : Desktop) : Int := (s.z_order.reverse.find? (shown s)).getD (-1)

def cycle_active_window (s : Desktop) : Desktop :=
  if s.active_win_idx ∈ s.z_order then
    let current := s.active_win_idx
    if outside current then { s with active_win_idx := -1 }
    else
      -- rotate the current top window to the back
      let s := { s with z_order := current :: s.z_order.erase current }
      { s with active_win_idx := topmost s }
  else { s with active_win_idx := topmost s }

def close_window (s : Desktop) (idx : Int) : Desktop :=
  if outside idx then s
  else
    let s := if s.active_win_idx = idx then { s with active_win_idx := -1 } else s
    let s := { s with z_order := toEnd s.z_order idx }
    let s := s.put idx reset_window
    if s.active_win_idx = -1 then cycle_active_window s else s

def bring_to_front (s : Desktop) (idx : Int) : Desktop :=
  if outside idx then s
  else if idx ∈ s.z_order then
    let s := { s with z_order := toEnd s.z_order idx, active_win_idx := idx }
    s.put idx { s.wins idx with minimized := false, taskbar_anim := 8 }
  else s

def active_window_valid (s : Desktop) : Bool :=
  !outside s.active_win_idx && (s.wins s.active_win_idx).active &&
    !(s.wins s.active_win_idx).minimized

/-! ## Sizes -/

omit [DesktopConfig] in
/-- No button of the mouse holds the window any more. -/
def Window.letGo (w : Window) : Window :=
  { w with dragging := false, scroll_dragging := false, resizing := false,
           resize_dir := RESIZE_NONE }

def hit_resize_zone (w : Window) (mx my : Int) : Nat :=
  if w.maximized || w.minimized then RESIZE_NONE
  else if mx < w.x ∨ mx ≥ w.x + w.w ∨ my < w.y ∨ my ≥ w.y + w.h then RESIZE_NONE
  else
    let dir := RESIZE_NONE
    let dir := if mx < w.x + RESIZE_MARGIN then dir ||| RESIZE_LEFT
      else if mx ≥ w.x + w.w - RESIZE_MARGIN then dir ||| RESIZE_RIGHT else dir
    if my < w.y + RESIZE_MARGIN then dir ||| RESIZE_TOP
    else if my ≥ w.y + w.h - RESIZE_MARGIN then dir ||| RESIZE_BOTTOM else dir

def begin_resize (w : Window) (dir : Nat) (mx my : Int) : Window :=
  { w with resizing := true, resize_dir := dir, resize_start_mx := mx, resize_start_my := my,
           resize_start_x := w.x, resize_start_y := w.y, resize_start_w := w.w,
           resize_start_h := w.h }

def Window.pulls (w : Window) (edge : Nat) : Bool := w.resize_dir &&& edge != 0

def apply_resize (w : Window) (mx my : Int) : Window :=
  let dx := mx - w.resize_start_mx
  let dy := my - w.resize_start_my
  let new_x := w.resize_start_x
  let new_y := w.resize_start_y
  let new_w := if w.pulls RESIZE_RIGHT then w.resize_start_w + dx else w.resize_start_w
  let new_h := if w.pulls RESIZE_BOTTOM then w.resize_start_h + dy else w.resize_start_h
  let (new_x, new_w) :=
    if w.pulls RESIZE_LEFT then
      let new_x := w.resize_start_x + dx
      let new_w := w.resize_start_w - dx
      if new_w < MIN_WIN_W then (new_x - (MIN_WIN_W - new_w), MIN_WIN_W) else (new_x, new_w)
    else (new_x, new_w)
  let (new_y, new_h) :=
    if w.pulls RESIZE_TOP then
      let new_y := w.resize_start_y + dy
      let new_h := w.resize_start_h - dy
      if new_h < MIN_WIN_H then (new_y - (MIN_WIN_H - new_h), MIN_WIN_H) else (new_y, new_h)
    else (new_y, new_h)
  let new_w := clamp_int new_w MIN_WIN_W WIDTH
  let new_h := clamp_int new_h MIN_WIN_H DESKTOP_H
  let new_x := clamp_int new_x 0 (WIDTH - new_w)
  let new_y := clamp_int new_y 0 (DESKTOP_H - new_h)
  { w with x := new_x, y := new_y, w := new_w, h := new_h }

/-- The checks of the index and of the window, and the change that they guard. -/
def change (s : Desktop) (idx : Int) (ok : Window → Bool) (f : Window → Window) : Desktop :=
  if outside idx then s
  else if ok (s.wins idx) then s.put idx (f (s.wins idx)) else s

omit [DesktopConfig] in
/-- The place that `restore_window` goes back to. -/
def Window.save (w : Window) : Window :=
  if w.maximized then w
  else { w with prev_x := w.x, prev_y := w.y, prev_w := w.w, prev_h := w.h }

omit [DesktopConfig] in
def Window.maximize (w : Window) : Window := { w.save with maximized := true }.letGo

def maximize_window (s : Desktop) (idx : Int) : Desktop :=
  change s idx (fun w => w.active && !w.minimized) Window.maximize

omit [DesktopConfig] in
def Window.restore (w : Window) : Window :=
  let w := { w with minimized := false }
  let w := if w.maximized then
      { w with x := w.prev_x, y := w.prev_y, w := w.prev_w, h := w.prev_h, maximized := false }
    else w
  w.letGo

def restore_window (s : Desktop) (idx : Int) : Desktop := change s idx Window.active Window.restore

omit [DesktopConfig] in
def Window.minimize (w : Window) : Window := { w with minimized := true }.letGo

def minimize_window (s : Desktop) (idx : Int) : Desktop :=
  if outside idx then s
  else if (s.wins idx).active then
    let s := s.put idx (s.wins idx).minimize
    if s.active_win_idx = idx then { s with active_win_idx := -1 } else s
  else s

/-- The half of the desktop that a key stands for, as x, y, w and h. -/
def snapRect (key : Nat) : Option (Int × Int × Int × Int) :=
  let half_w := WIDTH / 2
  let half_h := DESKTOP_H / 2
  if key = 0x12 then some (0, 0, half_w, DESKTOP_H)
  else if key = 0x13 then some (half_w, 0, WIDTH - half_w, DESKTOP_H)
  else if key = 0x10 then some (0, 0, WIDTH, half_h)
  else if key = 0x11 then some (0, half_h, WIDTH, DESKTOP_H - half_h)
  else none

/-- Any other key leaves the window where it is. -/
def Window.snap (w : Window) (key : Nat) : Window :=
  match snapRect key with
  | none => w.save
  | some (new_x, new_y, new_w, new_h) =>
    { w.save with x := new_x, y := new_y, w := clamp_int new_w MIN_WIN_W WIDTH,
                  h := clamp_int new_h MIN_WIN_H DESKTOP_H, maximized := false }.letGo

def snap_window_by_key (s : Desktop) (idx : Int) (key : Nat) : Desktop :=
  change s idx (fun w => w.active && !w.minimized) fun w => w.snap key

/-! ## New windows -/

def firstFree (s : Desktop) : Option Int := indices.find? fun i => !(s.wins i).active

/-- The loop that the other functions share which open a window. -/
def openWindow (s : Desktop) (fresh : Int → Window) : Desktop :=
  match firstFree s with
  | none => s
  | some i => bring_to_front (s.put i (fresh i)) i

def default_w : Int :=
  let margin := WIDTH / 16
  let default_w := WIDTH - margin * 2
  let default_w := if default_w > 520 then 520 else default_w
  if default_w < MIN_WIN_W then WIDTH else default_w

def default_h : Int :=
  let margin := WIDTH / 16
  let title_y := HEIGHT / 10
  let default_h := DESKTOP_H - title_y - margin
  let default_h := if default_h > 320 then 320 else default_h
  if default_h < MIN_WIN_H then DESKTOP_H else default_h

def newTask (i : Int) : Window :=
  let margin := WIDTH / 16
  let title_y := HEIGHT / 10
  { reset_window with
    active := true
    x := clamp_int (margin + i * (margin / 2)) 0 (WIDTH - default_w)
    y := clamp_int (title_y + i * (margin / 2)) 0 (DESKTOP_H - default_h)
    w := default_w
    h := default_h }

def create_new_task (s : Desktop) : Desktop :=
  match firstFree s with
  | none => s
  | some i => { bring_to_front (s.put i (newTask i)) i with active_win_idx := i }

def whole (kind : Kind) (_i : Int) : Window :=
  { reset_window with active := true, kind, maximized := true, w := WIDTH, h := DESKTOP_H }

def open_text_editor (s : Desktop) : Desktop := openWindow s (whole .WINDOW_KIND_EDITOR)

def open_jit_debugger_window (s : Desktop) : Desktop :=
  openWindow s (whole .WINDOW_KIND_JIT_DEBUGGER)

def newImage (img_w img_h : Nat) (_i : Int) : Window :=
  let w : Int := if (img_w : Int) + 20 < 220 then 220 else img_w + 20
  let h : Int := if (img_h : Int) + 46 < 140 then 140 else img_h + 46
  let x := Int.tdiv (WIDTH - w) 2
  let y := Int.tdiv (DESKTOP_H - h) 2
  { reset_window with
    active := true
    kind := .WINDOW_KIND_IMAGE
    x := if x < 0 then 0 else x
    y := if y < 0 then 0 else y
    w
    h }

/-- A file that is no image leaves its window reset. -/
def open_image_file (s : Desktop) (decoded : Option (Nat × Nat)) : Desktop :=
  match decoded with
  | some (img_w, img_h) => openWindow s (newImage img_w img_h)
  | none =>
    match firstFree s with
    | none => s
    | some i => s.put i reset_window

/-- The window that the netsurf command opens. -/
def open_netsurf (s : Desktop) : Desktop :=
  openWindow s fun _ => { reset_window with
    active := true, kind := .WINDOW_KIND_NETSURF, x := 50, y := 50, w := 400, h := 420 }

def open_demo3d_window (s : Desktop) : Desktop :=
  openWindow s fun _ => { reset_window with
    active := true, kind := .WINDOW_KIND_DEMO3D, w := 360, h := 280,
    x := Int.tdiv (WIDTH - 360) 2, y := Int.tdiv (DESKTOP_H - 280) 2 }

def open_frankenstein_window (s : Desktop) : Desktop :=
  openWindow s fun _ => { reset_window with
    active := true, kind := .WINDOW_KIND_FPS_GAME, maximized := true, w := 320, h := 240 }

def newGbemu (_i : Int) : Window :=
  { reset_window with
    active := true, kind := .WINDOW_KIND_GBEMU, w := 660, h := 616,
    x := Int.tdiv (WIDTH - 660) 2, y := Int.tdiv (DESKTOP_H - 616) 2 }

/-- The windows of the emulator are closed first. -/
def closeGbemu (s : Desktop) : Desktop :=
  indices.foldl (fun s i =>
    if (s.wins i).active && (s.wins i).kind == .WINDOW_KIND_GBEMU then close_window s i else s) s

/-- The new window is closed again if the game does not load. -/
def open_gbemu_window (s : Desktop) (loads : Bool) : Desktop :=
  let s := closeGbemu s
  match firstFree s with
  | none => s
  | some i =>
    let s := bring_to_front (s.put i (newGbemu i)) i
    if loads then s else close_window s i

/-! ## What users do -/

inductive Op where
  | create_new_task
  | open_text_editor
  | open_jit_debugger_window
  | open_image_file (decoded : Option (Nat × Nat))
  | open_netsurf
  | open_demo3d_window
  | open_frankenstein_window
  | open_gbemu_window (loads : Bool)
  | close_window (idx : Int)
  | bring_to_front (idx : Int)
  | maximize_window (idx : Int)
  | restore_window (idx : Int)
  | minimize_window (idx : Int)
  | snap_window_by_key (idx : Int) (key : Nat)
  | cycle_active_window
  | grab (idx mx my : Int)
  | drag (mx my : Int)
  | release

def grab (s : Desktop) (idx mx my : Int) : Desktop :=
  let dir := hit_resize_zone (s.wins idx) mx my
  if dir != RESIZE_NONE then s.put idx (begin_resize (s.wins idx) dir mx my) else s

def drag (s : Desktop) (mx my : Int) : Desktop :=
  if active_window_valid s && (s.wins s.active_win_idx).resizing then
    s.put s.active_win_idx (apply_resize (s.wins s.active_win_idx) mx my)
  else s

def step (s : Desktop) : Op → Desktop
  | .create_new_task => create_new_task s
  | .open_text_editor => open_text_editor s
  | .open_jit_debugger_window => open_jit_debugger_window s
  | .open_image_file decoded => open_image_file s decoded
  | .open_netsurf => open_netsurf s
  | .open_demo3d_window => open_demo3d_window s
  | .open_frankenstein_window => open_frankenstein_window s
  | .open_gbemu_window loads => open_gbemu_window s loads
  | .close_window idx => close_window s idx
  | .bring_to_front idx => bring_to_front s idx
  | .maximize_window idx => maximize_window s idx
  | .restore_window idx => restore_window s idx
  | .minimize_window idx => minimize_window s idx
  | .snap_window_by_key idx key => snap_window_by_key s idx key
  | .cycle_active_window => cycle_active_window s
  | .grab idx mx my => grab s idx mx my
  | .drag mx my => drag s mx my
  | .release => { s with wins := fun i => (s.wins i).letGo }

def run (ops : List Op) : Desktop := ops.foldl step boot

end vibeos.gui

-- vga.c of the FPGA_MINIMAL build: the frame buffer, the video memory with its shadow, and the mouse
-- cursor that is composited over it.
import Vibeos.ShadowWords

namespace vibeos.vga

open Shadow (pack setBytes)

def WIDTH : Int := 512
def HEIGHT : Int := 384
def VGA_WORDS : Nat := 512 * 384 / 4

abbrev CInt := { v : Int // -2147483648 ≤ v ∧ v < 2147483648 }

/-- The value that an `int` takes where a sum leaves its range. -/
def int (v : Int) : Int := (v + 2147483648) % 4294967296 - 2147483648

/-- The position, the mode and the clip height of a call of `vga_present_cursor`. -/
structure Cursor where
  x : CInt
  y : CInt
  mode : CInt
  clip_h : CInt

/-- The buffers, and the static variables of `vga_present_cursor`. -/
structure Vga extends Shadow.Mem where
  vbuf : Nat → BitVec 8
  cursor_valid : Bool
  cursor_x : Int
  cursor_y : Int
  cursor_w : Int
  cursor_h : Int

/-! ## The cursor -/

def clipHeight (clip_h : Int) : Int := if clip_h ≤ 0 ∨ clip_h > HEIGHT then HEIGHT else clip_h

structure Bounds where
  rx : Int
  ry : Int
  rw : Int
  rh : Int

def vga_cursor_bounds (x y clip_h : Int) : Bounds :=
  let x0 := int (x - 12)
  let y0 := int (y - 12)
  let x1 := int (x + 20)
  let y1 := int (y + 20)
  let x0 := if x0 < 0 then 0 else x0
  let y0 := if y0 < 0 then 0 else y0
  let x1 := if x1 > WIDTH then WIDTH else x1
  let y1 := if y1 > clipHeight clip_h then clipHeight clip_h else y1
  ⟨x0, y0, int (x1 - x0), int (y1 - y0)⟩

def cursor : List String :=
  ["X...........",
    "XX..........",
    "XOX.........",
    "XOOX........",
    "XOOOX.......",
    "XOOOOX......",
    "XOOOOOX.....",
    "XOOOOOOX....",
    "XOOOOOOOX...",
    "XOOOOX......",
    "XOOXOX......",
    "XOX..OX.....",
    "XX...OX.....",
    "X.....OX....",
    "......OX....",
    ".......XX..."]

def vga_cursor_normal_pixel_kind (dx dy : Int) : Nat :=
  if dx < 0 ∨ dx ≥ 12 ∨ dy < 0 ∨ dy ≥ 16 then 0
  else
    match (cursor[dy.toNat]?).bind fun row => row.toList[dx.toNat]? with
    | some 'O' => 2
    | some 'X' => 1
    | _ => 0

def CURSOR_SIZE_H : Int := 1
def CURSOR_SIZE_V : Int := 2
def CURSOR_SIZE_D1 : Int := 3
def CURSOR_SIZE_D2 : Int := 4

/-- The two arms of a straight arrow, along `u`. -/
def straight (u v : Int) : Bool :=
  (v = 0 && -7 ≤ u && u ≤ 7) || [-3, -2, -1, 0, 1, 2, 3].any fun i : Int =>
    (u = -7 + i && (v = i || v = -i)) || (u = 7 - i && (v = i || v = -i))

def vga_cursor_pixel_kind (dx dy mode : Int) : Nat :=
  if mode = CURSOR_SIZE_H then if straight dx dy then 2 else 0
  else if mode = CURSOR_SIZE_V then if straight dy dx then 2 else 0
  else if mode = CURSOR_SIZE_D1 then
    if dx = dy ∧ dx ≥ -6 ∧ dx ≤ 6 then 2
    else if [0, 1, 2, 3].any fun i : Int =>
        (dx = -6 + i && dy = -6) || (dx = -6 && dy = -6 + i) || (dx = 6 - i && dy = 6) ||
          (dx = 6 && dy = 6 - i) then 2
    else 0
  else if mode = CURSOR_SIZE_D2 then
    if dx = -dy ∧ dx ≥ -6 ∧ dx ≤ 6 then 2
    else if [0, 1, 2, 3].any fun i : Int =>
        (dx = -6 + i && dy = 6) || (dx = -6 && dy = 6 - i) || (dx = 6 - i && dy = -6) ||
          (dx = 6 && dy = -6 + i) then 2
    else 0
  else vga_cursor_normal_pixel_kind dx dy

/-! ## Flushes -/

structure Rect where
  x0 : Int
  y0 : Int
  x1 : Int
  y1 : Int

/-- The places of the words that a flush of the rectangle visits, with the pixel that each starts. -/
def words (x0 y0 x1 y1 : Int) : List (Int × Int) :=
  let word_x0 := x0 - x0 % 4
  let word_x1 := x1 + 3 - (x1 + 3) % 4
  let word_x1 := if word_x1 > WIDTH then WIDTH else word_x1
  (List.range (y1 - y0).toNat).flatMap fun (row : Nat) =>
    (List.range ((word_x1 - word_x0) / 4).toNat).map fun (col : Nat) =>
      (word_x0 + 4 * (col : Int), y0 + (row : Int))

namespace Vga

/-- The word of the frame buffer at a place. -/
def vga_pack4 (s : Vga) (p : Nat) : BitVec 32 := pack s.vbuf p

/-- The words at these places go to the video memory, where they differ from the shadow. -/
def flush (s : Vga) (places : List (Int × Int)) (word : Int → Int → BitVec 32) : Vga :=
  { s with
    toMem := places.foldl (fun m w => Shadow.put m (w.2 * WIDTH + w.1).toNat (word w.1 w.2)) s.toMem }

def vga_update (s : Vga) : Vga :=
  { s with
    toMem := (List.range VGA_WORDS).foldl (fun m i => Shadow.put m (4 * i) (s.vga_pack4 (4 * i)))
      s.toMem }

def vga_update_rect (s : Vga) (x y w h : Int) : Vga :=
  if w ≤ 0 ∨ h ≤ 0 then s
  else
    let x0 := if x < 0 then 0 else x
    let y0 := if y < 0 then 0 else y
    let x1 := if int (x + w) > WIDTH then WIDTH else int (x + w)
    let y1 := if int (y + h) > HEIGHT then HEIGHT else int (y + h)
    if x0 ≥ x1 ∨ y0 ≥ y1 then s
    else s.flush (words x0 y0 x1 y1) fun xx yy => s.vga_pack4 (yy * WIDTH + xx).toNat

/-- The pixel of the cursor over a pixel between `x0` and `x1`, if there is one. -/
def cursorByte (x0 x1 cx cy : Int) (color : BitVec 8) (mode xx yy : Int) (b : Nat) :
    Option (BitVec 8) :=
  let px := xx + (b : Int)
  if px < x0 ∨ px ≥ x1 then none
  else
    let cursor_pixel := vga_cursor_pixel_kind (int (px - cx)) (int (yy - cy)) mode
    if cursor_pixel ≠ 0 then some (if cursor_pixel = 1 then 0 else color) else none

def vga_flush_cursor_composite (s : Vga) (x0 y0 x1 y1 cx cy : Int) (color : BitVec 8)
    (mode clip_h : Int) (draw_new : Bool) : Vga :=
  let x0 := if x0 < 0 then 0 else x0
  let y0 := if y0 < 0 then 0 else y0
  let x1 := if x1 > WIDTH then WIDTH else x1
  let y1 := if y1 > clipHeight clip_h then clipHeight clip_h else y1
  if x0 ≥ x1 ∨ y0 ≥ y1 then s
  else
    s.flush (words x0 y0 x1 y1) fun xx yy =>
      let word := s.vga_pack4 (yy * WIDTH + xx).toNat
      if draw_new then setBytes (cursorByte x0 x1 cx cy color mode xx yy) word [0, 1, 2, 3]
      else word

/-- The rectangle around the last cursor, if it is valid, and the new one, if there is one. -/
def union (s : Vga) (n : Bounds) (have_new : Bool) : Rect :=
  let ux0 := if s.cursor_valid then s.cursor_x else n.rx
  let uy0 := if s.cursor_valid then s.cursor_y else n.ry
  let ux1 := if s.cursor_valid then int (s.cursor_x + s.cursor_w) else int (n.rx + n.rw)
  let uy1 := if s.cursor_valid then int (s.cursor_y + s.cursor_h) else int (n.ry + n.rh)
  if have_new then
    { x0 := if n.rx < ux0 then n.rx else ux0
      y0 := if n.ry < uy0 then n.ry else uy0
      x1 := if int (n.rx + n.rw) > ux1 then int (n.rx + n.rw) else ux1
      y1 := if int (n.ry + n.rh) > uy1 then int (n.ry + n.rh) else uy1 }
  else ⟨ux0, uy0, ux1, uy1⟩

def vga_present_cursor (s : Vga) (x y mode clip_h : Int) : Vga :=
  let n := vga_cursor_bounds x y clip_h
  let have_new : Bool := n.rw > 0 && n.rh > 0
  if !s.cursor_valid && !have_new then s
  else
    let u := s.union n have_new
    let s := s.vga_flush_cursor_composite u.x0 u.y0 u.x1 u.y1 x y 14 mode clip_h have_new
    if have_new then
      { s with cursor_valid := true, cursor_x := n.rx, cursor_y := n.ry, cursor_w := n.rw,
               cursor_h := n.rh }
    else { s with cursor_valid := false }

end Vga

/-! ## Calls -/

inductive Op where
  | draw (vbuf : Nat → BitVec 8)
  | update
  | update_rect (x y w h : CInt)
  | present (c : Cursor)

namespace Vga

/-- Drawing may change any pixel of the frame buffer. -/
def apply (s : Vga) : Op → Vga
  | .draw vbuf => { s with vbuf := vbuf }
  | .update => s.vga_update
  | .update_rect x y w h => s.vga_update_rect x y w h
  | .present c => s.vga_present_cursor c.x c.y c.mode c.clip_h

def run (s : Vga) (ops : List Op) : Vga := ops.foldl apply s

end Vga

end vibeos.vga

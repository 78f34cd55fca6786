-- The video memory keeps to its shadow, and shows the frame buffer with the cursor at its last place
-- as long as no call clips away pixels of the cursor before it.
import Vibeos.EventRuns
import Vibeos.Vga

namespace vibeos.vga

open Runs (Each)
open Shadow (byte Coherent putAll)

/-! ## The pixels of the cursor -/

theorem straight_bounds {u v : Int} (h : straight u v = true) :
    -10 ≤ u ∧ u ≤ 10 ∧ -7 ≤ v ∧ v ≤ 7 := by
  unfold straight at h
  simp only [List.any_cons, List.any_nil, Bool.or_false, Bool.or_eq_true, Bool.and_eq_true,
    decide_eq_true_eq] at h
  omega

theorem normal_bounds {dx dy : Int} (h : vga_cursor_normal_pixel_kind dx dy ≠ 0) :
    0 ≤ dx ∧ dx < 12 ∧ 0 ≤ dy ∧ dy < 16 := by
  unfold vga_cursor_normal_pixel_kind at h
  split at h
  · exact absurd rfl h
  · omega

theorem pixel_kind_bounds {dx dy mode : Int} (h : vga_cursor_pixel_kind dx dy mode ≠ 0) :
    -12 ≤ dx ∧ dx < 20 ∧ -12 ≤ dy ∧ dy < 20 := by
  unfold vga_cursor_pixel_kind at h
  split at h
  · split at h
    · have := straight_bounds ‹_›
      omega
    · exact absurd rfl h
  split at h
  · split at h
    · have := straight_bounds ‹_›
      omega
    · exact absurd rfl h
  simp only [List.any_cons, List.any_nil, Bool.or_false, Bool.or_eq_true, Bool.and_eq_true,
    decide_eq_true_eq] at h
  split at h
  · split at h
    · omega
    split at h
    · omega
    · exact absurd rfl h
  split at h
  · split at h
    · omega
    split at h
    · omega
    · exact absurd rfl h
  · have := normal_bounds h
    omega

theorem pixel_kind_int {px py : Int} (hpx : 0 ≤ px ∧ px < WIDTH) (hpy : 0 ≤ py ∧ py < HEIGHT)
    (x y : CInt) (mode : Int) :
    vga_cursor_pixel_kind (int (px - x)) (int (py - y)) mode =
      vga_cursor_pixel_kind (px - x) (py - y) mode := by
  obtain ⟨x, hx⟩ := x
  obtain ⟨y, hy⟩ := y
  unfold WIDTH at hpx
  unfold HEIGHT at hpy
  dsimp only
  by_cases hboth : int (px - x) = px - x ∧ int (py - y) = py - y
  · rw [hboth.1, hboth.2]
  · have hfar : ¬ vga_cursor_pixel_kind (int (px - x)) (int (py - y)) mode ≠ 0 := fun hne => by
      have hb := pixel_kind_bounds hne
      unfold int at hb hboth
      omega
    have hfar' : ¬ vga_cursor_pixel_kind (px - x) (py - y) mode ≠ 0 := fun hne => by
      have hb := pixel_kind_bounds hne
      unfold int at hboth
      omega
    rw [Decidable.not_not.mp hfar, Decidable.not_not.mp hfar']

/-! ## Flushes -/

def address (w : Int × Int) : Nat := (w.2 * WIDTH + w.1).toNat

theorem mem_words {x0 y0 x1 y1 xx yy : Int} :
    (xx, yy) ∈ words x0 y0 x1 y1 ↔
      (y0 ≤ yy ∧ yy < y1) ∧ x0 - x0 % 4 ≤ xx ∧ xx % 4 = 0 ∧
        xx < if x1 + 3 - (x1 + 3) % 4 > WIDTH then WIDTH else x1 + 3 - (x1 + 3) % 4 := by
  have hend : (if x1 + 3 - (x1 + 3) % 4 > WIDTH then WIDTH else x1 + 3 - (x1 + 3) % 4) % 4 = 0 := by
    unfold WIDTH
    split <;> omega
  unfold words
  dsimp only
  generalize (if x1 + 3 - (x1 + 3) % 4 > WIDTH then WIDTH else x1 + 3 - (x1 + 3) % 4) = word_x1
    at hend
  simp only [List.mem_flatMap, List.mem_map, List.mem_range, Prod.mk.injEq]
  constructor
  · rintro ⟨row, hrow, col, hcol, rfl, rfl⟩
    omega
  · rintro ⟨hy, hx, hmod, hlt⟩
    refine ⟨(yy - y0).toNat, by omega, ((xx - (x0 - x0 % 4)) / 4).toNat, by omega, by omega,
      by omega⟩

section Flush

variable {s : Vga} {word : Int → Int → BitVec 32}

theorem flush_eq {places : List (Int × Int)}
    (hon : ∀ w ∈ places, 0 ≤ w.1 ∧ w.1 < WIDTH ∧ 0 ≤ w.2) :
    (s.flush places word).toMem =
      putAll (fun p => word (p % 512 : Nat) (p / 512 : Nat)) (places.map address) s.toMem := by
  unfold Vga.flush putAll
  dsimp only
  generalize s.toMem = m
  induction places generalizing m with
  | nil => rfl
  | cons w places ih =>
    obtain ⟨hx, hlt, hy⟩ := hon w List.mem_cons_self
    have hcol : ((address w % 512 : Nat) : Int) = w.1 := by
      unfold address WIDTH at *
      omega
    have hrow : ((address w / 512 : Nat) : Int) = w.2 := by
      unfold address WIDTH at *
      omega
    rw [List.foldl_cons, List.map_cons, List.foldl_cons, hcol, hrow]
    exact ih (fun v hv => hon v (List.mem_cons_of_mem w hv)) _

theorem places_aligned {places : List (Int × Int)}
    (hon : ∀ w ∈ places, 0 ≤ w.1 ∧ w.1 % 4 = 0 ∧ 0 ≤ w.2) :
    ∀ p ∈ places.map address, p % 4 = 0 := by
  intro p hp
  obtain ⟨w, hw, rfl⟩ := List.mem_map.mp hp
  have h := hon w hw
  unfold address WIDTH
  omega

theorem flush_bytes (h : Coherent s.toMem) {x0 y0 x1 y1 : Int} (hx0 : 0 ≤ x0) (hy0 : 0 ≤ y0) :
    Coherent (s.flush (words x0 y0 x1 y1) word).toMem ∧
      ∀ q : Nat, (s.flush (words x0 y0 x1 y1) word).bytes q =
        if (((4 * (q / 4) % 512 : Nat) : Int), ((q / 512 : Nat) : Int)) ∈ words x0 y0 x1 y1 then
          byte (word (4 * (q / 4) % 512 : Nat) (q / 512 : Nat)) (q % 4)
        else s.bytes q := by
  have hon : ∀ w ∈ words x0 y0 x1 y1, 0 ≤ w.1 ∧ w.1 < WIDTH ∧ 0 ≤ w.2 ∧ w.1 % 4 = 0 := by
    rintro ⟨xx, yy⟩ hw
    have hmem := mem_words.mp hw
    have hle : (if x1 + 3 - (x1 + 3) % 4 > WIDTH then WIDTH
        else x1 + 3 - (x1 + 3) % 4) ≤ WIDTH := by
      split <;> omega
    dsimp only
    omega
  have halign : ∀ p ∈ (words x0 y0 x1 y1).map address, p % 4 = 0 := places_aligned fun w hw =>
    ⟨(hon w hw).1, (hon w hw).2.2.2, (hon w hw).2.2.1⟩
  have heq : (s.flush (words x0 y0 x1 y1) word).toMem = _ := flush_eq fun w hw =>
    ⟨(hon w hw).1, (hon w hw).2.1, (hon w hw).2.2.1⟩
  rw [heq]
  refine ⟨Shadow.putAll_coherent _ halign h, fun q => ?_⟩
  rw [Shadow.putAll_bytes _ halign h]
  have hdiv : 4 * (q / 4) / 512 = q / 512 := by omega
  have hmem : 4 * (q / 4) ∈ (words x0 y0 x1 y1).map address ↔
      (((4 * (q / 4) % 512 : Nat) : Int), ((q / 512 : Nat) : Int)) ∈ words x0 y0 x1 y1 := by
    rw [List.mem_map]
    constructor
    · rintro ⟨⟨xx, yy⟩, hw, haddr⟩
      obtain ⟨hx, hlt, hy, -⟩ := hon _ hw
      unfold address WIDTH at haddr
      unfold WIDTH at hlt
      dsimp only at haddr hx hlt hy
      have hxx : xx = ((4 * (q / 4) % 512 : Nat) : Int) := by omega
      have hyy : yy = ((q / 512 : Nat) : Int) := by omega
      rwa [← hxx, ← hyy]
    · intro hw
      refine ⟨_, hw, ?_⟩
      unfold address WIDTH
      dsimp only
      omega
  simp only [hmem, hdiv]

theorem update_bytes (h : Coherent s.toMem) :
    Coherent s.vga_update.toMem ∧
      ∀ q : Nat, s.vga_update.bytes q = if q / 4 < VGA_WORDS then s.vbuf q else s.bytes q := by
  have heq : s.vga_update.toMem =
      putAll s.vga_pack4 ((List.range VGA_WORDS).map fun i => 4 * i) s.toMem := by
    unfold Vga.vga_update putAll
    rw [List.foldl_map]
  have halign : ∀ p ∈ (List.range VGA_WORDS).map fun i => 4 * i, p % 4 = 0 := by
    intro p hp
    obtain ⟨i, -, rfl⟩ := List.mem_map.mp hp
    omega
  rw [heq]
  refine ⟨Shadow.putAll_coherent _ halign h, fun q => ?_⟩
  rw [Shadow.putAll_bytes _ halign h]
  have hmem : 4 * (q / 4) ∈ (List.range VGA_WORDS).map (fun i => 4 * i) ↔ q / 4 < VGA_WORDS := by
    rw [List.mem_map]
    constructor
    · rintro ⟨i, hi, hq⟩
      rw [List.mem_range] at hi
      omega
    · exact fun hq => ⟨q / 4, List.mem_range.mpr hq, rfl⟩
  simp only [hmem]
  split
  · unfold Vga.vga_pack4
    rw [Shadow.byte_pack _ _ (Nat.mod_lt q (by omega))]
    exact congrArg _ (by omega)
  · rfl

theorem zero_le_clamp (v : Int) : 0 ≤ if v < 0 then 0 else v := by split <;> omega

theorem update_rect_coherent (h : Coherent s.toMem) (x y w h' : Int) :
    Coherent (s.vga_update_rect x y w h').toMem := by
  have hx0 := zero_le_clamp x
  have hy0 := zero_le_clamp y
  unfold Vga.vga_update_rect
  dsimp only
  generalize (if x < 0 then 0 else x) = x0 at hx0
  generalize (if y < 0 then 0 else y) = y0 at hy0
  generalize (if int (x + w) > WIDTH then WIDTH else int (x + w)) = x1
  generalize (if int (y + h') > HEIGHT then HEIGHT else int (y + h')) = y1
  split
  · exact h
  split
  · exact h
  · exact (flush_bytes h hx0 hy0).1

end Flush

/-! ## The cursor over the frame buffer -/

def overlay (cursor_pixel : Nat) (v : BitVec 8) : BitVec 8 :=
  if cursor_pixel = 0 then v else if cursor_pixel = 1 then 0 else 14

/-- The pixel of the cursor at a place of the screen; below the clip height there is none. -/
def Cursor.pixel (c : Cursor) (px py : Int) : Nat :=
  if py < clipHeight c.clip_h then vga_cursor_pixel_kind (px - c.x) (py - c.y) c.mode else 0

/-- The frame buffer with the cursor, if there is one. -/
def shown (vbuf : Nat → BitVec 8) (c : Option Cursor) (q : Nat) : BitVec 8 :=
  match c with
  | some c => overlay (c.pixel (q % 512 : Nat) (q / 512 : Nat)) (vbuf q)
  | none => vbuf q

theorem clipHeight_le (clip_h : Int) : 0 < clipHeight clip_h ∧ clipHeight clip_h ≤ HEIGHT := by
  unfold clipHeight HEIGHT
  split <;> omega

theorem bounds_cover {c : Cursor} {px py : Int} (hpx : 0 ≤ px ∧ px < WIDTH) (hpy : 0 ≤ py)
    (h : c.pixel px py ≠ 0) :
    ((vga_cursor_bounds c.x c.y c.clip_h).rx ≤ px ∧
      px < int ((vga_cursor_bounds c.x c.y c.clip_h).rx +
        (vga_cursor_bounds c.x c.y c.clip_h).rw)) ∧
    ((vga_cursor_bounds c.x c.y c.clip_h).ry ≤ py ∧
      py < int ((vga_cursor_bounds c.x c.y c.clip_h).ry +
        (vga_cursor_bounds c.x c.y c.clip_h).rh)) ∧
    (vga_cursor_bounds c.x c.y c.clip_h).rw > 0 ∧ (vga_cursor_bounds c.x c.y c.clip_h).rh > 0 := by
  obtain ⟨⟨x, hx⟩, ⟨y, hy⟩, mode, clip_h⟩ := c
  unfold Cursor.pixel at h
  have hclip := clipHeight_le clip_h
  split at h
  · have hb := pixel_kind_bounds h
    unfold vga_cursor_bounds
    dsimp only at *
    generalize clipHeight clip_h = clip at *
    unfold WIDTH HEIGHT at *
    have hx0 : int (x - 12) = x - 12 := by unfold int; omega
    have hy0 : int (y - 12) = y - 12 := by unfold int; omega
    have hx1 : int (x + 20) = x + 20 := by unfold int; omega
    have hy1 : int (y + 20) = y + 20 := by unfold int; omega
    rw [hx0, hy0, hx1, hy1]
    unfold int
    refine ⟨⟨?_, ?_⟩, ⟨?_, ?_⟩, ?_, ?_⟩ <;> split <;> omega
  · exact absurd rfl h

theorem cursor_word_byte (s : Vga) {x0 x1 : Int} (x y : CInt) (mode : Int) (draw_new : Bool) {q : Nat}
    (hq : q < 512 * 384) :
    byte (if draw_new = true then
        Shadow.setBytes (Vga.cursorByte x0 x1 x y 14 mode (4 * (q / 4) % 512 : Nat) (q / 512 : Nat))
          (s.vga_pack4 (((q / 512 : Nat) : Int) * WIDTH + (4 * (q / 4) % 512 : Nat)).toNat)
          [0, 1, 2, 3]
      else s.vga_pack4 (((q / 512 : Nat) : Int) * WIDTH + (4 * (q / 4) % 512 : Nat)).toNat) (q % 4) =
    if draw_new = true ∧ x0 ≤ (q % 512 : Nat) ∧ (q % 512 : Nat) < x1 then
      overlay (vga_cursor_pixel_kind ((q % 512 : Nat) - x) ((q / 512 : Nat) - y) mode) (s.vbuf q)
    else s.vbuf q := by
  have hb : q % 4 < 4 := Nat.mod_lt q (by omega)
  have haddr : (((q / 512 : Nat) : Int) * WIDTH + (4 * (q / 4) % 512 : Nat)).toNat = 4 * (q / 4) := by
    unfold WIDTH
    omega
  have hbyte : byte (s.vga_pack4 (4 * (q / 4))) (q % 4) = s.vbuf q := by
    unfold Vga.vga_pack4
    rw [Shadow.byte_pack _ _ hb]
    exact congrArg _ (by omega)
  have hpx : ((4 * (q / 4) % 512 : Nat) : Int) + (q % 4 : Nat) = (q % 512 : Nat) := by omega
  have hmem : q % 4 ∈ [0, 1, 2, 3] := by
    simp only [List.mem_cons, List.not_mem_nil, or_false]
    omega
  have hkind := @pixel_kind_int (q % 512 : Nat) (q / 512 : Nat)
    (by unfold WIDTH; omega) (by unfold HEIGHT; omega) x y mode
  rw [haddr]
  cases draw_new with
  | false => exact hbyte
  | true =>
    rw [if_pos rfl, Shadow.byte_setBytes _ _ _ hb, if_pos hmem, hbyte]
    unfold Vga.cursorByte overlay
    dsimp only
    rw [hpx, hkind]
    by_cases hin : x0 ≤ (q % 512 : Nat) ∧ (q % 512 : Nat) < x1
    · have hrange : ¬ (((q % 512 : Nat) : Int) < x0 ∨ ((q % 512 : Nat) : Int) ≥ x1) := by omega
      rw [if_neg hrange]
      generalize vga_cursor_pixel_kind ((q % 512 : Nat) - x) ((q / 512 : Nat) - y) mode = kind
      rw [if_pos (show true = true ∧ x0 ≤ (q % 512 : Nat) ∧ (q % 512 : Nat) < x1 from ⟨rfl, hin⟩)]
      by_cases hkind : kind = 0
      · rw [if_pos hkind, if_neg (not_not_intro hkind)]
        rfl
      · rw [if_neg hkind, if_pos hkind]
        rfl
    · have hrange : ((q % 512 : Nat) : Int) < x0 ∨ ((q % 512 : Nat) : Int) ≥ x1 := by omega
      rw [if_pos hrange, if_neg (fun hand => hin hand.2)]
      rfl

theorem composite_bytes {s : Vga} (h : Coherent s.toMem) (x0 y0 x1 y1 : Int) (x y : CInt)
    (mode clip_h : Int) (draw_new : Bool) {q : Nat} (hq : q < 512 * 384) :
    ((q / 512 : Nat) < clipHeight clip_h ∧
      (s.vga_flush_cursor_composite x0 y0 x1 y1 x y 14 mode clip_h draw_new).bytes q =
        if draw_new = true ∧ x0 ≤ (q % 512 : Nat) ∧ (q % 512 : Nat) < x1 then
          overlay (vga_cursor_pixel_kind ((q % 512 : Nat) - x) ((q / 512 : Nat) - y) mode) (s.vbuf q)
        else s.vbuf q) ∨
    (¬ (x0 ≤ (q % 512 : Nat) ∧ (q % 512 : Nat) < x1 ∧ y0 ≤ (q / 512 : Nat) ∧
        (q / 512 : Nat) < y1 ∧ (q / 512 : Nat) < clipHeight clip_h) ∧
      (s.vga_flush_cursor_composite x0 y0 x1 y1 x y 14 mode clip_h draw_new).bytes q =
        s.bytes q) := by
  have hx0 := zero_le_clamp x0
  have hy0 := zero_le_clamp y0
  have hxle : x0 ≤ (q % 512 : Nat) ↔ (if x0 < 0 then 0 else x0) ≤ ((q % 512 : Nat) : Int) := by
    split <;> omega
  have hyle : y0 ≤ (q / 512 : Nat) ↔ (if y0 < 0 then 0 else y0) ≤ ((q / 512 : Nat) : Int) := by
    split <;> omega
  have hxlt : (q % 512 : Nat) < x1 ↔ ((q % 512 : Nat) : Int) < if x1 > WIDTH then WIDTH else x1 := by
    unfold WIDTH
    split <;> omega
  have hylt : (q / 512 : Nat) < y1 ∧ (q / 512 : Nat) < clipHeight clip_h ↔
      ((q / 512 : Nat) : Int) < if y1 > clipHeight clip_h then clipHeight clip_h else y1 := by
    split <;> omega
  have hclip : (if y1 > clipHeight clip_h then clipHeight clip_h else y1) ≤ clipHeight clip_h := by
    split <;> omega
  have hwidth : (if x1 > WIDTH then WIDTH else x1) ≤ WIDTH := by
    split <;> omega
  unfold Vga.vga_flush_cursor_composite
  dsimp only
  simp only [hxle, hyle, hxlt, hylt]
  generalize (if x0 < 0 then 0 else x0) = x0' at hx0
  generalize (if y0 < 0 then 0 else y0) = y0' at hy0
  generalize (if x1 > WIDTH then WIDTH else x1) = x1' at hwidth
  generalize (if y1 > clipHeight clip_h then clipHeight clip_h else y1) = y1' at hclip
  split
  · exact .inr ⟨by omega, rfl⟩
  · have hbytes := (@flush_bytes s (fun xx yy =>
      if draw_new = true then
        Shadow.setBytes (Vga.cursorByte x0' x1' x y 14 mode xx yy)
          (s.vga_pack4 (yy * WIDTH + xx).toNat) [0, 1, 2, 3]
      else s.vga_pack4 (yy * WIDTH + xx).toNat) h x0' y0' x1' y1' hx0 hy0).2 q
    by_cases hin : (((4 * (q / 4) % 512 : Nat) : Int), ((q / 512 : Nat) : Int)) ∈
        words x0' y0' x1' y1'
    · rw [if_pos hin] at hbytes
      have hmem := mem_words.mp hin
      exact .inl ⟨by omega, hbytes.trans (cursor_word_byte s x y mode draw_new hq)⟩
    · rw [if_neg hin] at hbytes
      refine .inr ⟨fun hand => hin (mem_words.mpr ⟨⟨hand.2.2.1, hand.2.2.2⟩, ?_⟩), hbytes⟩
      have hle := hand.1
      have hlt := hand.2.1
      unfold WIDTH at *
      refine ⟨by omega, by omega, ?_⟩
      split <;> omega

theorem composite_cases (s : Vga) (x0 y0 x1 y1 cx cy : Int) (color : BitVec 8)
    (mode clip_h : Int) (draw_new : Bool) :
    s.vga_flush_cursor_composite x0 y0 x1 y1 cx cy color mode clip_h draw_new = s ∨
      ∃ a0 b0 a1 b1 word, 0 ≤ a0 ∧ 0 ≤ b0 ∧
        s.vga_flush_cursor_composite x0 y0 x1 y1 cx cy color mode clip_h draw_new =
          s.flush (words a0 b0 a1 b1) word := by
  have hx0 := zero_le_clamp x0
  have hy0 := zero_le_clamp y0
  unfold Vga.vga_flush_cursor_composite
  dsimp only
  generalize (if x0 < 0 then 0 else x0) = a0 at hx0
  generalize (if y0 < 0 then 0 else y0) = b0 at hy0
  generalize (if x1 > WIDTH then WIDTH else x1) = a1
  generalize (if y1 > clipHeight clip_h then clipHeight clip_h else y1) = b1
  split
  · exact .inl rfl
  · exact .inr ⟨a0, b0, a1, b1, _, hx0, hy0, rfl⟩

theorem composite_coherent {s : Vga} (h : Coherent s.toMem) (x0 y0 x1 y1 cx cy : Int)
    (color : BitVec 8) (mode clip_h : Int) (draw_new : Bool) :
    Coherent
      (s.vga_flush_cursor_composite x0 y0 x1 y1 cx cy color mode clip_h draw_new).toMem := by
  rcases composite_cases s x0 y0 x1 y1 cx cy color mode clip_h draw_new with
    heq | ⟨a0, b0, a1, b1, word, ha0, hb0, heq⟩ <;> rw [heq]
  · exact h
  · exact (flush_bytes h ha0 hb0).1

theorem composite_vbuf (s : Vga) (x0 y0 x1 y1 cx cy : Int) (color : BitVec 8) (mode clip_h : Int)
    (draw_new : Bool) :
    (s.vga_flush_cursor_composite x0 y0 x1 y1 cx cy color mode clip_h draw_new).vbuf = s.vbuf := by
  rcases composite_cases s x0 y0 x1 y1 cx cy color mode clip_h draw_new with
    heq | ⟨a0, b0, a1, b1, word, -, -, heq⟩ <;> rw [heq]
  rfl

/-! ## A call of `vga_present_cursor` -/

def Cursor.bounds (c : Cursor) : Bounds := vga_cursor_bounds c.x c.y c.clip_h

/-- The call has something to draw. -/
def Cursor.have_new (c : Cursor) : Bool := c.bounds.rw > 0 && c.bounds.rh > 0

/-- The state that a call leaves behind its flush. -/
def remember (s : Vga) (c : Cursor) : Vga :=
  if c.have_new then
    { s with
      cursor_valid := true
      cursor_x := c.bounds.rx
      cursor_y := c.bounds.ry
      cursor_w := c.bounds.rw
      cursor_h := c.bounds.rh }
  else { s with cursor_valid := false }

theorem union_old {s : Vga} (n : Bounds) (have_new : Bool) (h : s.cursor_valid = true) :
    (s.union n have_new).x0 ≤ s.cursor_x ∧ (s.union n have_new).y0 ≤ s.cursor_y ∧
      int (s.cursor_x + s.cursor_w) ≤ (s.union n have_new).x1 ∧
      int (s.cursor_y + s.cursor_h) ≤ (s.union n have_new).y1 := by
  unfold Vga.union
  rw [h]
  cases have_new with
  | false => exact ⟨Int.le_refl _, Int.le_refl _, Int.le_refl _, Int.le_refl _⟩
  | true =>
    dsimp only
    refine ⟨?_, ?_, ?_, ?_⟩ <;> simp only [if_true] <;> split <;> omega

theorem union_new (s : Vga) (n : Bounds) :
    (s.union n true).x0 ≤ n.rx ∧ (s.union n true).y0 ≤ n.ry ∧
      int (n.rx + n.rw) ≤ (s.union n true).x1 ∧ int (n.ry + n.rh) ≤ (s.union n true).y1 := by
  unfold Vga.union
  dsimp only
  rw [if_pos rfl]
  refine ⟨?_, ?_, ?_, ?_⟩ <;> dsimp only <;> split <;> omega

theorem present_cases (s : Vga) (c : Cursor) :
    (s.cursor_valid = false ∧ c.have_new = false ∧ s.apply (.present c) = s) ∨
      s.apply (.present c) = remember (s.vga_flush_cursor_composite
        (s.union c.bounds c.have_new).x0 (s.union c.bounds c.have_new).y0
        (s.union c.bounds c.have_new).x1 (s.union c.bounds c.have_new).y1 c.x c.y 14
        c.mode c.clip_h c.have_new) c := by
  have hdef : s.apply (.present c) = s.vga_present_cursor c.x c.y c.mode c.clip_h := rfl
  rw [hdef]
  unfold Vga.vga_present_cursor
  dsimp only
  rw [show vga_cursor_bounds c.x c.y c.clip_h = c.bounds from rfl,
    show (decide (c.bounds.rw > 0) && decide (c.bounds.rh > 0)) = c.have_new from rfl]
  by_cases hnone : (!s.cursor_valid && !c.have_new) = true
  · obtain ⟨hvalid, hnew⟩ := Bool.and_eq_true_iff.mp hnone
    rw [if_pos hnone]
    exact .inl ⟨(Bool.not_eq_true' _).mp hvalid, (Bool.not_eq_true' _).mp hnew, rfl⟩
  · rw [if_neg hnone]
    exact .inr rfl

theorem remember_screen (s : Vga) (c : Cursor) :
    (remember s c).toMem = s.toMem ∧ (remember s c).vbuf = s.vbuf := by
  unfold remember
  split <;> exact ⟨rfl, rfl⟩

theorem apply_coherent {s : Vga} (h : Coherent s.toMem) (op : Op) : Coherent (s.apply op).toMem := by
  cases op with
  | draw vbuf => exact h
  | update => exact (update_bytes h).1
  | update_rect x y w h' => exact update_rect_coherent h x y w h'
  | present c =>
    rcases present_cases s c with ⟨-, -, heq⟩ | heq <;> rw [heq]
    · exact h
    · rw [(remember_screen _ c).1]
      exact composite_coherent h _ _ _ _ _ _ _ _ _ _

theorem run_coherent {s : Vga} (h : Coherent s.toMem) (ops : List Op) :
    Coherent (s.run ops).toMem := by
  induction ops generalizing s with
  | nil => exact h
  | cons op ops ih => exact ih (apply_coherent h op)

/-! ## What the screen shows -/

/-- The screen shows the frame buffer with this cursor, which is within the bounds remembered. -/
structure Shown (s : Vga) (c : Option Cursor) : Prop where
  coherent : Coherent s.toMem
  bytes : ∀ q : Nat, q < 512 * 384 → s.bytes q = shown s.vbuf c q
  covers : ∀ d, c = some d → ∀ px py : Int, 0 ≤ px ∧ px < WIDTH → 0 ≤ py → d.pixel px py ≠ 0 →
    s.cursor_valid = true ∧ (s.cursor_x ≤ px ∧ px < int (s.cursor_x + s.cursor_w)) ∧
      s.cursor_y ≤ py ∧ py < int (s.cursor_y + s.cursor_h)

/-- Below the clip height of the call, the cursor before it changes no pixel. -/
def Clears (vbuf : Nat → BitVec 8) (c : Option Cursor) (d : Cursor) : Prop :=
  ∀ q : Nat, q < 512 * 384 → clipHeight d.clip_h ≤ (q / 512 : Nat) → shown vbuf c q = vbuf q

theorem shown_of_none {vbuf : Nat → BitVec 8} {c : Option Cursor} {q : Nat}
    (h : ∀ d, c = some d → d.pixel (q % 512 : Nat) (q / 512 : Nat) = 0) :
    shown vbuf c q = vbuf q := by
  cases c with
  | none => rfl
  | some d =>
    unfold shown
    dsimp only
    rw [h d rfl]
    rfl

section Present

variable {s : Vga} {c : Option Cursor} {d : Cursor}

theorem have_new_of_pixel {px py : Int} (hpx : 0 ≤ px ∧ px < WIDTH) (hpy : 0 ≤ py)
    (h : d.pixel px py ≠ 0) : d.have_new = true := by
  obtain ⟨-, -, hw, hh⟩ := bounds_cover hpx hpy h
  exact Bool.and_eq_true_iff.mpr ⟨decide_eq_true hw, decide_eq_true hh⟩

theorem pixel_below {px py : Int} (h : clipHeight d.clip_h ≤ py) : d.pixel px py = 0 :=
  if_neg (Int.not_lt.mpr h)

theorem shown_outside (h : Shown s c) (hclears : Clears s.vbuf c d) {q : Nat} (hq : q < 512 * 384)
    (hout : ¬ ((s.union d.bounds d.have_new).x0 ≤ (q % 512 : Nat) ∧
      (q % 512 : Nat) < (s.union d.bounds d.have_new).x1 ∧
      (s.union d.bounds d.have_new).y0 ≤ (q / 512 : Nat) ∧
      (q / 512 : Nat) < (s.union d.bounds d.have_new).y1 ∧
      (q / 512 : Nat) < clipHeight d.clip_h)) :
    d.pixel (q % 512 : Nat) (q / 512 : Nat) = 0 ∧ shown s.vbuf c q = s.vbuf q := by
  have hpx : 0 ≤ ((q % 512 : Nat) : Int) ∧ ((q % 512 : Nat) : Int) < WIDTH := by
    unfold WIDTH
    omega
  have hpy : 0 ≤ ((q / 512 : Nat) : Int) := by omega
  by_cases hclip : clipHeight d.clip_h ≤ ((q / 512 : Nat) : Int)
  · exact ⟨pixel_below hclip, hclears q hq hclip⟩
  constructor
  · by_contra hne
    have hnew := have_new_of_pixel hpx hpy hne
    obtain ⟨hx, hy, -⟩ := bounds_cover hpx hpy hne
    have hunion := union_new s d.bounds
    rw [hnew] at hout
    unfold Cursor.bounds at *
    omega
  · refine shown_of_none fun e he => ?_
    by_contra hne
    obtain ⟨hvalid, hx, hy⟩ := h.covers e he _ _ hpx hpy hne
    have hunion := union_old d.bounds d.have_new hvalid
    omega

theorem present_shown (h : Shown s c) (hclears : Clears s.vbuf c d) :
    Shown (s.apply (.present d)) (some d) := by
  refine ⟨apply_coherent h.coherent _, fun q hq => ?_, fun e he px py hpx hpy hne => ?_⟩
  · have hpx : 0 ≤ ((q % 512 : Nat) : Int) ∧ ((q % 512 : Nat) : Int) < WIDTH := by
      unfold WIDTH
      omega
    have hpy : 0 ≤ ((q / 512 : Nat) : Int) := by omega
    rcases present_cases s d with ⟨hvalid, hnew, heq⟩ | heq <;> rw [heq]
    · rw [h.bytes q hq, shown_of_none, shown_of_none]
      · intro e he
        cases he
        by_contra hne
        exact Bool.noConfusion (hnew.symm.trans (have_new_of_pixel hpx hpy hne))
      · intro e he
        by_contra hne
        exact Bool.noConfusion (hvalid.symm.trans (h.covers e he _ _ hpx hpy hne).1)
    · rw [(remember_screen _ d).1, (remember_screen _ d).2, composite_vbuf]
      rcases composite_bytes h.coherent (s.union d.bounds d.have_new).x0
        (s.union d.bounds d.have_new).y0 (s.union d.bounds d.have_new).x1
        (s.union d.bounds d.have_new).y1 d.x d.y d.mode d.clip_h d.have_new hq with
        ⟨hclip, hbytes⟩ | ⟨hout, hbytes⟩
      · rw [hbytes]
        have hpixel : d.pixel (q % 512 : Nat) (q / 512 : Nat) =
            vga_cursor_pixel_kind ((q % 512 : Nat) - d.x) ((q / 512 : Nat) - d.y) d.mode :=
          if_pos hclip
        unfold shown
        dsimp only
        rw [← hpixel]
        by_cases hzero : d.pixel (q % 512 : Nat) (q / 512 : Nat) = 0
        · rw [hzero]
          exact ite_self _
        · have hnew := have_new_of_pixel hpx hpy hzero
          obtain ⟨hx, -, -⟩ := bounds_cover hpx hpy hzero
          have hunion := union_new s d.bounds
          rw [hnew]
          refine if_pos ⟨rfl, ?_⟩
          unfold Cursor.bounds at *
          omega
      · obtain ⟨hnew, hold⟩ := shown_outside h hclears hq hout
        rw [hbytes, h.bytes q hq, hold, shown_of_none]
        intro e he
        cases he
        exact hnew
  · cases he
    have hnew := have_new_of_pixel hpx hpy hne
    obtain ⟨hx, hy, -⟩ := bounds_cover hpx hpy hne
    rcases present_cases s d with ⟨-, hnone, -⟩ | heq
    · exact absurd (hnone.symm.trans hnew) Bool.noConfusion
    · rw [heq]
      unfold remember
      rw [hnew]
      exact ⟨rfl, hx, hy⟩

theorem clears_of_bytes (h : Shown s c)
    (hbytes : ∀ q : Nat, q < 512 * 384 → (s.apply (.present d)).bytes q = shown s.vbuf (some d) q) :
    Clears s.vbuf c d := by
  intro q hq hclip
  have hkept : (s.apply (.present d)).bytes q = s.bytes q := by
    rcases present_cases s d with ⟨-, -, heq⟩ | heq <;> rw [heq]
    rw [(remember_screen _ d).1]
    rcases composite_bytes h.coherent (s.union d.bounds d.have_new).x0
      (s.union d.bounds d.have_new).y0 (s.union d.bounds d.have_new).x1
      (s.union d.bounds d.have_new).y1 d.x d.y d.mode d.clip_h d.have_new hq with
      ⟨habove, -⟩ | ⟨-, hkept⟩
    · exact absurd habove (Int.not_lt.mpr hclip)
    · exact hkept
  have hnone : shown s.vbuf (some d) q = s.vbuf q := by
    refine shown_of_none fun e he => ?_
    cases he
    exact pixel_below hclip
  rw [← h.bytes q hq, ← hkept, hbytes q hq, hnone]

end Present

theorem present_vbuf (s : Vga) (c : Cursor) : (s.apply (.present c)).vbuf = s.vbuf := by
  rcases present_cases s c with ⟨-, -, heq⟩ | heq <;> rw [heq]
  rw [(remember_screen _ c).2, composite_vbuf]

theorem update_vbuf (s : Vga) : s.vga_update.vbuf = s.vbuf := by
  unfold Vga.vga_update
  rfl

theorem update_shown {s : Vga} (h : Coherent s.toMem) : Shown s.vga_update none := by
  obtain ⟨hcoherent, hbytes⟩ := update_bytes h
  refine ⟨hcoherent, fun q hq => ?_, fun d hd => (nomatch hd)⟩
  have hword : q / 4 < VGA_WORDS := by
    unfold VGA_WORDS
    omega
  rw [hbytes q, if_pos hword, update_vbuf]
  rfl

theorem run_append (s : Vga) (ops more : List Op) :
    s.run (ops ++ more) = (s.run ops).run more := by
  unfold Vga.run
  rw [List.foldl_append]

theorem run_update (s : Vga) (ops : List Op) : s.run (.update :: ops) = s.vga_update.run ops := by
  unfold Vga.run
  rw [List.foldl_cons]
  rfl

/-- The screen with the cursor of the last call, if there was one. -/
def call (x : Vga × Option Cursor) (c : Cursor) : Vga × Option Cursor :=
  (x.1.apply (.present c), some c)

theorem foldl_call (s : Vga) (calls : List Cursor) :
    calls.foldl call (s, none) = (s.run (calls.map .present), calls.getLast?) := by
  induction calls using List.reverseRecOn with
  | nil => rfl
  | append_singleton calls c ih =>
    rw [List.foldl_append, ih, List.map_append, run_append, List.getLast?_append,
      List.getLast?_singleton, Option.some_or]
    rfl

/-- The shadow keeps to the video memory over any calls. Behind an update the screen shows the frame
buffer with the cursor of the last call alone, after each of the calls, exactly when each of them
has in reach what the cursor before it changed. -/
theorem screen_shows {s : Vga} (hstart : Coherent s.toMem) :
    (∀ ops, Coherent (s.run ops).toMem) ∧
      ∀ (ops : List Op) (calls : List Cursor),
        (∀ before more, calls = before ++ more → ∀ q : Nat, q < 512 * 384 →
          (s.run (ops ++ .update :: before.map .present)).bytes q =
            shown (s.run ops).vbuf before.getLast? q) ↔
        Each (fun before c => Clears (s.run ops).vbuf before.getLast? c) calls := by
  refine ⟨run_coherent hstart, fun ops calls => ?_⟩
  have hrun (before : List Cursor) : s.run (ops ++ .update :: before.map .present) =
      (s.run ops).vga_update.run (before.map .present) := by
    rw [run_append, run_update]
  have hupdate := update_shown (run_coherent hstart ops)
  have hvbuf := update_vbuf (s.run ops)
  simp only [hrun]
  generalize (s.run ops).vga_update = t at hupdate hvbuf
  rw [← hvbuf]
  have hstates := @Runs.forall_states_iff _ _ call
    (fun x => ∀ q : Nat, q < 512 * 384 → x.1.bytes q = shown t.vbuf x.2 q) (t, none) calls
  have hsteps := @Runs.each_iff _ _ call (fun x => Shown x.1 x.2 ∧ x.1.vbuf = t.vbuf)
    (fun x c => ∀ q : Nat, q < 512 * 384 → (call x c).1.bytes q = shown t.vbuf (call x c).2 q)
    (fun x c => Clears t.vbuf x.2 c) (t, none) ⟨hupdate, rfl⟩
    (by
      rintro ⟨u, last⟩ c ⟨hshown, hu⟩
      dsimp only at hshown hu ⊢
      rw [← hu]
      constructor
      · exact clears_of_bytes hshown
      · intro hclears q hq
        have hbytes := (present_shown hshown hclears).bytes q hq
        rwa [present_vbuf] at hbytes)
    (by
      rintro ⟨u, last⟩ c ⟨hshown, hu⟩ hclears
      dsimp only at hshown hu hclears
      rw [← hu] at hclears
      exact ⟨present_shown hshown hclears, (present_vbuf u c).trans hu⟩)
    calls
  simp only [foldl_call] at hstates hsteps
  rw [hstates, and_iff_right hupdate.bytes]
  exact hsteps

/-! ## Two calls -/

def blank : Vga := ⟨⟨fun _ => 0, fun _ => 0⟩, fun _ => 0, false, 0, 0, 0, 0⟩

theorem blank_coherent : Coherent blank.toMem := by
  intro i
  change (0 : BitVec 32) = 0#8 ++ 0#8 ++ 0#8 ++ 0#8
  decide

theorem zero_fits : (-2147483648 : Int) ≤ 0 ∧ (0 : Int) < 2147483648 := by decide

def arrow (x y clip_h : CInt) : Cursor := ⟨x, y, ⟨0, zero_fits⟩, clip_h⟩

def tall : Cursor := arrow ⟨100, by decide⟩ ⟨100, by decide⟩ ⟨300, by decide⟩
def moved : Cursor := arrow ⟨200, by decide⟩ ⟨90, by decide⟩ ⟨300, by decide⟩
def clipped : Cursor := arrow ⟨100, by decide⟩ ⟨100, by decide⟩ ⟨105, by decide⟩

theorem moved_shown : ¬ ∃ q : Nat, q < 512 * 384 ∧
    (blank.run ([] ++ .update :: [tall, moved].map .present)).bytes q ≠
      shown (blank.run []).vbuf [tall, moved].getLast? q := by
  rintro ⟨q, hq, hne⟩
  refine hne (((screen_shows blank_coherent).2 [] [tall, moved]).mpr ?_ [tall, moved] [] rfl q hq)
  refine Runs.each_cons (fun _ _ _ => rfl) <| Runs.each_cons (fun q hq hclip => ?_) <|
    Runs.each_nil _
  refine shown_of_none fun e he => ?_
  cases he
  exact pixel_below hclip

/-- A pixel below the smaller clip height stays behind. -/
theorem clipped_leaves_trail :
    ¬ ∀ q : Nat, q < 512 * 384 →
      (blank.run ([] ++ .update :: [tall, clipped].map .present)).bytes q =
        shown (blank.run []).vbuf [tall, clipped].getLast? q := by
  intro hall
  have htall := present_shown (d := tall) (update_shown blank_coherent) fun _ _ _ => rfl
  generalize hs : blank.vga_update.apply (.present tall) = s at htall
  have hvbuf : s.vbuf = fun _ => 0 := by
    rw [← hs, present_vbuf, update_vbuf]
    rfl
  have hrun : blank.run ([] ++ .update :: [tall, clipped].map .present) =
      s.apply (.present clipped) := by
    rw [List.nil_append, run_update, ← hs]
    rfl
  -- The pixel is the second of the eleventh row of the arrow.
  have hq : 110 * 512 + 101 < 512 * 384 := by decide
  have hpixel := hall _ hq
  rcases present_cases s clipped with ⟨-, hnone, -⟩ | heq
  · exact absurd hnone (by decide)
  · rw [hrun, heq, (remember_screen _ clipped).1] at hpixel
    rcases composite_bytes htall.coherent _ _ _ _ clipped.x clipped.y clipped.mode clipped.clip_h
      clipped.have_new hq with ⟨hclip, -⟩ | ⟨-, hbytes⟩
    · exact absurd hclip (by decide)
    · rw [hbytes, htall.bytes _ hq, hvbuf] at hpixel
      exact absurd hpixel (by decide)

end vibeos.vga

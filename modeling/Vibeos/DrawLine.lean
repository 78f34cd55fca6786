-- draw_line_clipped of user_graphics.c, with putpixel of vga.c: which points the loop comes to, and
-- which of them it draws.
import Vibeos.Desktop
import Vibeos.LineWalk
import Vibeos.Loops
import Vibeos.Vga

namespace vibeos.graphics

open gui (DesktopConfig WIDTH HEIGHT fpgaDesktop)
open vga (CInt int)
open LineWalk (across down)

/-! ## The code -/

/-- The frame buffer, one byte for each pixel. -/
abbrev Vbuf := Nat → BitVec 8

section

variable [DesktopConfig]

def putpixel (vbuf : Vbuf) (x y color : Int) : Vbuf :=
  if x ≥ 0 ∧ x < WIDTH ∧ y ≥ 0 ∧ y < HEIGHT then
    Function.update vbuf (x + y * WIDTH).toNat (BitVec.ofInt 8 color)
  else vbuf

end

structure Args where
  x0 : CInt
  y0 : CInt
  x1 : CInt
  y1 : CInt
  color : CInt
  clip_x0 : CInt
  clip_y0 : CInt
  clip_x1 : CInt
  clip_y1 : CInt

def magnitude (d : Int) : Int := if d < 0 then int (-d) else d

namespace Args

variable (l : Args)

def dx : Int := magnitude (int (l.x1 - l.x0))
def sx : Int := if int (l.x1 - l.x0) ≥ 0 then 1 else -1
def dy : Int := magnitude (int (l.y1 - l.y0))
def sy : Int := if int (l.y1 - l.y0) ≥ 0 then 1 else -1

end Args

structure Pen where
  x0 : Int
  y0 : Int
  err : Int
  vbuf : Vbuf

def Pen.point (s : Pen) : Int × Int := (s.x0, s.y0)

section

variable [DesktopConfig]

/-- The pixel of one turn, if it is inside of the clip rectangle. -/
def Args.plot (l : Args) (vbuf : Vbuf) (x0 y0 : Int) : Vbuf :=
  if x0 ≥ l.clip_x0 ∧ x0 < l.clip_x1 ∧ y0 ≥ l.clip_y0 ∧ y0 < l.clip_y1 then
    putpixel vbuf x0 y0 l.color
  else vbuf

/-- The end of a turn: the next point. -/
def Args.move (l : Args) (s : Pen) : Pen :=
  let e2 := s.err
  let s :=
    if e2 > int (-l.dx) then { s with err := int (s.err - l.dy), x0 := int (s.x0 + l.sx) } else s
  if e2 < l.dy then { s with err := int (s.err + l.dx), y0 := int (s.y0 + l.sy) } else s

/-- One turn of `for (;;)`: it goes on with the next point or breaks. -/
def Args.turn (l : Args) (s : Pen) : Pen ⊕ Pen :=
  let s := { s with vbuf := l.plot s.vbuf s.x0 s.y0 }
  if s.x0 = (l.x1 : Int) ∧ s.y0 = (l.y1 : Int) then .inr s else .inl (l.move s)

end

def Args.start (l : Args) (vbuf : Vbuf) : Pen where
  x0 := l.x0
  y0 := l.y0
  err := Int.tdiv (if l.dx > l.dy then l.dx else int (-l.dy)) 2
  vbuf := vbuf

/-- `draw_line_clipped`: the points that the loop visits, and the frame buffer after it. A loop
that does not end has none. -/
def draw_line_clipped [DesktopConfig] (l : Args) (vbuf : Vbuf) (visited : List (Int × Int))
    (vbuf' : Vbuf) : Prop :=
  ∃ turns last, Loop l.turn (l.start vbuf) turns last ∧
    visited = (turns ++ [last]).map Pen.point ∧ vbuf' = last.vbuf

/-! ## What it is to draw a line -/

/-- The point is no further than a pixel from the ideal line between the end points. -/
def NearLine (p q r : Int × Int) : Prop :=
  ∃ t : ℚ, 0 ≤ t ∧ t ≤ 1 ∧
    (r.1 - (p.1 + t * (q.1 - p.1))) ^ 2 + (r.2 - (p.2 + t * (q.2 - p.2))) ^ 2 ≤ 1

def Adjacent (p q : Int × Int) : Prop := |q.1 - p.1| ≤ 1 ∧ |q.2 - p.2| ≤ 1

/-- The points lead from `p` to `q` along the line, one for each place of the longer axis. -/
structure Traces (p q : Int × Int) (points : List (Int × Int)) : Prop where
  length_eq : (points.length : Int) = max |q.1 - p.1| |q.2 - p.2| + 1
  first : points.head? = some p
  last : points.getLast? = some q
  adjacent : points.IsChain Adjacent
  near : ∀ r ∈ points, NearLine p q r

/-- The point is inside of the clip rectangle. -/
def Args.Clips (l : Args) (p : Int × Int) : Prop :=
  (l.clip_x0 : Int) ≤ p.1 ∧ p.1 < l.clip_x1 ∧ (l.clip_y0 : Int) ≤ p.2 ∧ p.2 < l.clip_y1

instance (l : Args) (p : Int × Int) : Decidable (l.Clips p) :=
  inferInstanceAs (Decidable (_ ∧ _ ∧ _ ∧ _))

section

variable [DesktopConfig]

def OnScreen (p : Int × Int) : Prop := 0 ≤ p.1 ∧ p.1 < WIDTH ∧ 0 ≤ p.2 ∧ p.2 < HEIGHT

instance (p : Int × Int) : Decidable (OnScreen p) := inferInstanceAs (Decidable (_ ∧ _ ∧ _ ∧ _))

def address (p : Int × Int) : Nat := (p.1 + p.2 * WIDTH).toNat

/-- The pixels of these points that the clip rectangle has got the color, and no other byte of
the frame buffer has changed. -/
def Draws (l : Args) (points : List (Int × Int)) (vbuf vbuf' : Vbuf) : Prop :=
  (∀ p, OnScreen p →
    vbuf' (address p) = if p ∈ points ∧ l.Clips p then BitVec.ofInt 8 l.color else vbuf (address p)) ∧
  ∀ i : Nat, WIDTH * HEIGHT ≤ i → vbuf' i = vbuf i

end

/-! ## The points of a line -/

theorem int_of_mem {v : Int} (h : -2147483648 ≤ v ∧ v < 2147483648) : int v = v := by
  unfold int
  omega

/-- The ends of the line are `a` and `b` places apart, and none of the sums of the loop leaves
the range of an `int`. -/
structure Args.Spans (l : Args) (a b : Nat) : Prop where
  dx_eq : l.dx = a
  dy_eq : l.dy = b
  x1_eq : (l.x1 : Int) = l.x0 + l.sx * a
  y1_eq : (l.y1 : Int) = l.y0 + l.sy * b
  sx_one : l.sx = 1 ∨ l.sx = -1
  sy_one : l.sy = 1 ∨ l.sy = -1
  a_lt : a < 2 ^ 29
  b_lt : b < 2 ^ 29

theorem spans (l : Args) (hx : |(l.x1 : Int) - l.x0| < 2 ^ 29)
    (hy : |(l.y1 : Int) - l.y0| < 2 ^ 29) :
    l.Spans ((l.x1 : Int) - l.x0).natAbs ((l.y1 : Int) - l.y0).natAbs := by
  have hdiff {d : Int} (h : |d| < 2 ^ 29) : int d = d ∧ magnitude (int d) = d.natAbs ∧
      ((if int d ≥ 0 then (1 : Int) else -1) = 1 ∨ (if int d ≥ 0 then (1 : Int) else -1) = -1) ∧
      (if int d ≥ 0 then (1 : Int) else -1) * (d.natAbs : Int) = d := by
    rw [abs_lt] at h
    have heq : int d = d := int_of_mem (by omega)
    rw [heq]
    unfold magnitude
    by_cases hd : 0 ≤ d
    · rw [if_neg (by omega), if_pos hd]
      omega
    · rw [if_pos (by omega), if_neg hd, int_of_mem (by omega)]
      omega
  obtain ⟨-, hdx, hsx, hx1⟩ := hdiff hx
  obtain ⟨-, hdy, hsy, hy1⟩ := hdiff hy
  rw [abs_lt] at hx hy
  refine ⟨hdx, hdy, ?_, ?_, hsx, hsy, by omega, by omega⟩
  · rw [Args.sx, hx1]
    omega
  · rw [Args.sy, hy1]
    omega

variable [DesktopConfig] {l : Args} {a b k : Nat}

def Args.pointAt (l : Args) (a b k : Nat) : Int × Int :=
  (l.x0 + l.sx * across a b k, l.y0 + l.sy * down a b k)

/-- The frame buffer with the pixels of these points. -/
def Args.plotAll (l : Args) (vbuf : Vbuf) (points : List (Int × Int)) : Vbuf :=
  points.foldl (fun vbuf p => l.plot vbuf p.1 p.2) vbuf

def Args.penAt (l : Args) (vbuf : Vbuf) (a b k : Nat) : Pen where
  x0 := (l.pointAt a b k).1
  y0 := (l.pointAt a b k).2
  err := LineWalk.err a b k
  vbuf := l.plotAll vbuf ((List.range k).map (l.pointAt a b))

theorem Args.Spans.start_eq (h : l.Spans a b) (vbuf : Vbuf) : l.start vbuf = l.penAt vbuf a b 0 := by
  have herr : Int.tdiv (if l.dx > l.dy then l.dx else int (-l.dy)) 2 = LineWalk.err a b 0 := by
    have hb := h.b_lt
    rw [h.dx_eq, h.dy_eq, int_of_mem (by omega), LineWalk.err_zero]
    congr 1
    split
    · rw [if_pos (by omega)]
    · rw [if_neg (by omega)]
  simp [Args.start, Args.penAt, Args.pointAt, Args.plotAll, herr]

omit [DesktopConfig] in
theorem between {p q s : Int} {m n : Nat} (hs : s = 1 ∨ s = -1) (hq : q = p + s * n) (hm : m ≤ n) :
    (p ≤ p + s * m ∧ p + s * m ≤ q) ∨ (q ≤ p + s * m ∧ p + s * m ≤ p) := by
  rcases hs with rfl | rfl
  · left
    omega
  · right
    omega

omit [DesktopConfig] in
theorem int_succ {p q : CInt} {s : Int} {m n : Nat} (hs : s = 1 ∨ s = -1)
    (hq : (q : Int) = p + s * n) (hm : m + 1 ≤ n) :
    int (p + s * m + s) = p + s * (m + 1 : Nat) := by
  have hplace : (p : Int) + s * m + s = p + s * (m + 1 : Nat) := by
    push_cast
    ring
  have hp := p.2
  have hq' := q.2
  have hmem := between hs hq hm
  rw [hplace, int_of_mem (by omega)]

omit [DesktopConfig] in
theorem Args.move_eq (l : Args) (x0 y0 err : Int) (vbuf : Vbuf) : l.move ⟨x0, y0, err, vbuf⟩ =
    { x0 := if int (-l.dx) < err then int (x0 + l.sx) else x0
      y0 := if err < l.dy then int (y0 + l.sy) else y0
      err :=
        let err' := if int (-l.dx) < err then int (err - l.dy) else err
        if err < l.dy then int (err' + l.dx) else err'
      vbuf := vbuf } := by
  unfold Args.move
  dsimp only [gt_iff_lt]
  split_ifs <;> rfl

theorem Args.Spans.move_penAt (h : l.Spans a b) (vbuf vbuf' : Vbuf) (hk : k < max a b) :
    l.move { l.penAt vbuf a b k with vbuf := vbuf' } =
      { l.penAt vbuf a b (k + 1) with vbuf := vbuf' } := by
  obtain ⟨hacross, hdown, herr⟩ := LineWalk.step hk
  have hxle := LineWalk.across_le (a := a) (b := b) (k := k + 1) hk
  have hyle := LineWalk.down_le (a := a) (b := b) (k := k + 1) hk
  have hmem := abs_le.mp (LineWalk.abs_err_le (a := a) (b := b) (k := k))
  have ha := h.a_lt
  have hb := h.b_lt
  rw [hacross] at hxle
  rw [hdown] at hyle
  simp only [Args.penAt, Args.pointAt, hacross, hdown, herr]
  rw [Args.move_eq, h.dx_eq, h.dy_eq, int_of_mem (v := -(a : Int)) (by omega)]
  by_cases hx : -(a : Int) < LineWalk.err a b k <;> by_cases hy : LineWalk.err a b k < b
  · simp only [if_pos hx, if_pos hy] at hxle hyle ⊢
    rw [int_succ h.sx_one h.x1_eq hxle, int_succ h.sy_one h.y1_eq hyle,
      int_of_mem (v := LineWalk.err a b k - b) (by omega), int_of_mem (by omega)]
  · simp only [if_pos hx, if_neg hy] at hxle ⊢
    rw [int_succ h.sx_one h.x1_eq hxle, int_of_mem (by omega)]
    simp
  · simp only [if_neg hx, if_pos hy] at hyle ⊢
    rw [int_succ h.sy_one h.y1_eq hyle, int_of_mem (by omega)]
    simp
  · simp [if_neg hx, if_neg hy]

theorem Args.Spans.turn_penAt (h : l.Spans a b) (vbuf : Vbuf) (hk : k < max a b) :
    l.turn (l.penAt vbuf a b k) = .inl (l.penAt vbuf a b (k + 1)) := by
  have hend : ¬ ((l.penAt vbuf a b k).x0 = (l.x1 : Int) ∧
      (l.penAt vbuf a b k).y0 = (l.y1 : Int)) := by
    rintro ⟨hx, hy⟩
    simp only [Args.penAt, Args.pointAt, h.x1_eq, h.y1_eq] at hx hy
    refine LineWalk.not_at_end hk ⟨?_, ?_⟩
    · rcases h.sx_one with hs | hs <;> rw [hs] at hx <;> omega
    · rcases h.sy_one with hs | hs <;> rw [hs] at hy <;> omega
  have hplot : l.plot (l.penAt vbuf a b k).vbuf (l.pointAt a b k).1 (l.pointAt a b k).2 =
      (l.penAt vbuf a b (k + 1)).vbuf := by
    simp [Args.penAt, Args.plotAll, List.range_succ]
  unfold Args.turn
  dsimp only
  rw [if_neg hend, h.move_penAt vbuf _ hk]
  exact congrArg (fun v => Sum.inl { l.penAt vbuf a b (k + 1) with vbuf := v }) hplot

theorem Args.Spans.turn_last (h : l.Spans a b) (vbuf : Vbuf) :
    l.turn (l.penAt vbuf a b (max a b)) = .inr { l.penAt vbuf a b (max a b) with
      vbuf := l.plotAll vbuf ((List.range (max a b + 1)).map (l.pointAt a b)) } := by
  have hx : (l.pointAt a b (max a b)).1 = (l.x1 : Int) := by
    rw [Args.pointAt, LineWalk.across_max, h.x1_eq]
  have hy : (l.pointAt a b (max a b)).2 = (l.y1 : Int) := by
    rw [Args.pointAt, LineWalk.down_max, h.y1_eq]
  unfold Args.turn
  dsimp only
  rw [if_pos ⟨hx, hy⟩]
  simp [Args.penAt, Args.plotAll, List.range_succ]

def Args.points (l : Args) (a b : Nat) : List (Int × Int) :=
  (List.range (max a b + 1)).map (l.pointAt a b)

theorem Args.Spans.draw_iff (h : l.Spans a b) (vbuf : Vbuf) (visited : List (Int × Int))
    (vbuf' : Vbuf) : draw_line_clipped l vbuf visited vbuf' ↔
      visited = l.points a b ∧ vbuf' = l.plotAll vbuf (l.points a b) := by
  have hloop := Loop.of_states (l.penAt vbuf a b) (fun k hk => h.turn_penAt vbuf hk)
    (h.turn_last vbuf)
  have hvisited : ((List.range (max a b)).map (l.penAt vbuf a b) ++
      [{ l.penAt vbuf a b (max a b) with
        vbuf := l.plotAll vbuf ((List.range (max a b + 1)).map (l.pointAt a b)) }]).map Pen.point =
      l.points a b := by
    rw [Args.points, List.range_succ, List.map_append, List.map_append, List.map_map]
    rfl
  rw [← h.start_eq] at hloop
  constructor
  · rintro ⟨turns, last, hrun, rfl, rfl⟩
    obtain ⟨rfl, rfl⟩ := hrun.det hloop
    exact ⟨hvisited, rfl⟩
  · rintro ⟨rfl, rfl⟩
    exact ⟨_, _, hloop, hvisited.symm, rfl⟩

/-! ## Their place and their pixels -/

omit [DesktopConfig] in
theorem Args.Spans.near (h : l.Spans a b) (hk : k ≤ max a b) :
    NearLine (l.x0, l.y0) (l.x1, l.y1) (l.pointAt a b k) := by
  obtain ⟨t, ht0, ht1, hnear⟩ := LineWalk.near hk
  have hsq {s : Int} (hs : s = 1 ∨ s = -1) : (s : ℚ) ^ 2 = 1 := by
    rcases hs with rfl | rfl <;> norm_num
  refine ⟨t, ht0, ht1, ?_⟩
  have hx : ((l.pointAt a b k).1 - ((l.x0 : Int) + t * ((l.x1 : Int) - (l.x0 : Int))) : ℚ) =
      l.sx * (across a b k - t * a) := by
    rw [Args.pointAt, h.x1_eq]
    push_cast
    ring
  have hy : ((l.pointAt a b k).2 - ((l.y0 : Int) + t * ((l.y1 : Int) - (l.y0 : Int))) : ℚ) =
      l.sy * (down a b k - t * b) := by
    rw [Args.pointAt, h.y1_eq]
    push_cast
    ring
  rw [hx, hy, mul_pow, mul_pow, hsq h.sx_one, hsq h.sy_one, one_mul, one_mul]
  exact hnear

omit [DesktopConfig] in
theorem Args.Spans.adjacent (h : l.Spans a b) (hk : k < max a b) :
    Adjacent (l.pointAt a b k) (l.pointAt a b (k + 1)) := by
  obtain ⟨hacross, hdown, -⟩ := LineWalk.step hk
  have hplace {p s : Int} {m n : Nat} (hs : s = 1 ∨ s = -1) (hmn : m = n ∨ m = n + 1) :
      |p + s * m - (p + s * n)| ≤ 1 := by
    rw [abs_le]
    rcases hs with rfl | rfl <;> omega
  refine ⟨hplace h.sx_one ?_, hplace h.sy_one ?_⟩
  · rw [hacross]
    split <;> simp
  · rw [hdown]
    split <;> simp

omit [DesktopConfig] in
theorem Args.Spans.traces (h : l.Spans a b) :
    Traces (l.x0, l.y0) (l.x1, l.y1) (l.points a b) where
  length_eq := by
    have hdist {p q s : Int} {n : Nat} (hs : s = 1 ∨ s = -1) (hq : q = p + s * n) : |q - p| = n := by
      rcases hs with rfl | rfl
      · rw [abs_of_nonneg (by omega)]
        omega
      · rw [abs_of_nonpos (by omega)]
        omega
    rw [hdist h.sx_one h.x1_eq, hdist h.sy_one h.y1_eq]
    simp [Args.points]
  first := by
    rw [Args.points, List.range_succ_eq_map]
    simp [Args.pointAt]
  last := by
    rw [Args.points, List.range_succ]
    simp [Args.pointAt, LineWalk.across_max, LineWalk.down_max, h.x1_eq, h.y1_eq]
  adjacent := by
    rw [Args.points, List.isChain_map, List.isChain_range_succ]
    exact fun k hk => h.adjacent hk
  near := by
    intro r hr
    obtain ⟨k, hk, rfl⟩ := List.mem_map.mp hr
    exact h.near (Nat.lt_succ_iff.mp (List.mem_range.mp hk))

theorem width_cases : WIDTH = 512 ∨ WIDTH = 1024 := by
  unfold WIDTH
  split
  · exact Or.inl rfl
  · exact Or.inr rfl

theorem address_inj {p q : Int × Int} (hp : OnScreen p) (hq : OnScreen q)
    (h : address p = address q) : p = q := by
  obtain ⟨hp0, hp1, hp2, -⟩ := hp
  obtain ⟨hq0, hq1, hq2, -⟩ := hq
  unfold address at h
  rcases width_cases with hw | hw <;>
  · rw [hw] at h hp1 hq1
    exact Prod.ext (by omega) (by omega)

theorem address_lt {p : Int × Int} (hp : OnScreen p) : (address p : Int) < WIDTH * HEIGHT := by
  obtain ⟨hp0, hp1, hp2, hp3⟩ := hp
  have hrows : p.2 * WIDTH + WIDTH ≤ WIDTH * HEIGHT := by
    rcases width_cases with hw | hw <;>
    · rw [hw]
      omega
  unfold address
  rcases width_cases with hw | hw <;>
  · rw [hw] at hp1 hrows ⊢
    omega

theorem draws_plot (l : Args) (vbuf : Vbuf) (p : Int × Int) :
    Draws l [p] vbuf (l.plot vbuf p.1 p.2) := by
  by_cases hclip : l.Clips p
  · rw [Args.plot, if_pos (show _ ∧ _ from hclip)]
    by_cases hp : OnScreen p
    · rw [putpixel, if_pos (show _ ∧ _ from hp)]
      constructor
      · intro q hq
        by_cases hqp : q = p
        · subst hqp
          rw [if_pos ⟨by simp, hclip⟩]
          exact Function.update_self ..
        · rw [if_neg (by simp [hqp])]
          exact Function.update_of_ne (fun h => hqp (address_inj hq hp h)) ..
      · intro i hi
        have := address_lt hp
        exact Function.update_of_ne (by rintro rfl; exact absurd hi (not_le.mpr this)) ..
    · rw [putpixel, if_neg (show ¬ (_ ∧ _) from hp)]
      refine ⟨fun q hq => ?_, fun i _ => rfl⟩
      rw [if_neg]
      rintro ⟨hqp, -⟩
      rw [List.mem_singleton.mp hqp] at hq
      exact hp hq
  · rw [Args.plot, if_neg (show ¬ (_ ∧ _) from hclip)]
    refine ⟨fun q _ => ?_, fun i _ => rfl⟩
    rw [if_neg]
    rintro ⟨hqp, hq⟩
    rw [List.mem_singleton.mp hqp] at hq
    exact hclip hq

theorem Draws.append {points more : List (Int × Int)} {vbuf vbuf' vbuf'' : Vbuf}
    (h : Draws l points vbuf vbuf') (h' : Draws l more vbuf' vbuf'') :
    Draws l (points ++ more) vbuf vbuf'' := by
  constructor
  · intro p hp
    rw [h'.1 p hp, h.1 p hp]
    by_cases hclip : l.Clips p
    · by_cases hmore : p ∈ more <;> simp [hclip, hmore]
    · simp [hclip]
  · intro i hi
    rw [h'.2 i hi, h.2 i hi]

theorem draws_plotAll (l : Args) (vbuf : Vbuf) (points : List (Int × Int)) :
    Draws l points vbuf (l.plotAll vbuf points) := by
  induction points generalizing vbuf with
  | nil => exact ⟨fun p _ => by simp [Args.plotAll], fun i _ => rfl⟩
  | cons p points ih => exact (draws_plot l vbuf p).append (ih (l.plot vbuf p.1 p.2))

/-- The call ends on every line whose ends are less than 2^29 apart along each axis. The points
that it visits lead from the one end to the other, and it draws those of them that are inside of
the clip rectangle and of the screen. -/
theorem draw_line_exact (l : Args) (vbuf : Vbuf) (hx : |(l.x1 : Int) - l.x0| < 2 ^ 29)
    (hy : |(l.y1 : Int) - l.y0| < 2 ^ 29) :
    ∃ visited vbuf', (∀ v b, draw_line_clipped l vbuf v b ↔ v = visited ∧ b = vbuf') ∧
      Traces (l.x0, l.y0) (l.x1, l.y1) visited ∧ Draws l visited vbuf vbuf' := by
  have h := spans l hx hy
  exact ⟨_, _, h.draw_iff vbuf, h.traces, draws_plotAll l vbuf _⟩

/-- From (3, 1) to (-4, 4), in a clip rectangle of 10 by 10 pixels. -/
def shortLine : Args where
  x0 := ⟨3, by decide⟩
  y0 := ⟨1, by decide⟩
  x1 := ⟨-4, by decide⟩
  y1 := ⟨4, by decide⟩
  color := ⟨15, by decide⟩
  clip_x0 := ⟨0, by decide⟩
  clip_y0 := ⟨0, by decide⟩
  clip_x1 := ⟨10, by decide⟩
  clip_y1 := ⟨10, by decide⟩

omit [DesktopConfig] in
theorem draw_short_line : ∃ visited vbuf',
    (∀ v b, @draw_line_clipped fpgaDesktop shortLine (fun _ => 0) v b ↔
      v = visited ∧ b = vbuf') ∧
    Traces (3, 1) (-4, 4) visited ∧ @Draws fpgaDesktop shortLine visited (fun _ => 0) vbuf' :=
  @draw_line_exact fpgaDesktop shortLine (fun _ => 0) (by decide) (by decide)

end vibeos.graphics

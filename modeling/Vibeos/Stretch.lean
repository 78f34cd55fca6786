-- A segment inside of a range, one or the other end of which is pulled: it stays inside of the
-- range, and the end that is not pulled stays where it is unless the pull goes past the range.
import Mathlib.Tactic.SplitIfs

namespace vibeos.Stretch

/-- A segment from `pos` on. -/
structure Segment where
  pos : Int
  len : Int
deriving DecidableEq

/-- The segment lies in `[0, size]` and is not too short. -/
structure Inside (size least : Int) (seg : Segment) : Prop where
  least_le : least ≤ seg.len
  len_le : seg.len ≤ size
  pos_nonneg : 0 ≤ seg.pos
  end_le : seg.pos ≤ size - seg.len

instance (size least : Int) (seg : Segment) : Decidable (Inside size least seg) :=
  decidable_of_iff (least ≤ seg.len ∧ seg.len ≤ size ∧ 0 ≤ seg.pos ∧ seg.pos ≤ size - seg.len)
    ⟨fun h => ⟨h.1, h.2.1, h.2.2.1, h.2.2.2⟩,
      fun h => ⟨h.least_le, h.len_le, h.pos_nonneg, h.end_le⟩⟩

def clamp (v lo hi : Int) : Int := if v < lo then lo else if v > hi then hi else v

theorem clamp_mem {v lo hi : Int} (h : lo ≤ hi) : lo ≤ clamp v lo hi ∧ clamp v lo hi ≤ hi := by
  unfold clamp
  split
  · omega
  · split <;> omega

/-- The length first, then the place. -/
def fit (size least : Int) (seg : Segment) : Segment :=
  let len := clamp seg.len least size
  ⟨clamp seg.pos 0 (size - len), len⟩

/-- The near end or the far end is pulled by `d`, the near end no further than the least length
allows. -/
def pull (least : Int) (near far : Bool) (seg : Segment) (d : Int) : Segment :=
  let len := if far then seg.len + d else seg.len
  if near then
    if seg.len - d < least then ⟨seg.pos + d - (least - (seg.len - d)), least⟩
    else ⟨seg.pos + d, seg.len - d⟩
  else ⟨seg.pos, len⟩

def stretch (size least : Int) (near far : Bool) (seg : Segment) (d : Int) : Segment :=
  fit size least (pull least near far seg d)

/-- An end that is not pulled is where it was. -/
def Still (near far : Bool) (seg seg' : Segment) : Prop :=
  (near = false → seg'.pos = seg.pos) ∧
    (far = false → seg'.pos + seg'.len = seg.pos + seg.len)

/-- The pull ends inside of the range, or the other end is at its border. -/
def Reaches (size : Int) (near far : Bool) (seg : Segment) (d : Int) : Prop :=
  (near = true → 0 ≤ seg.pos + d ∨ seg.pos + seg.len = size) ∧
    (far = true → seg.pos + seg.len + d ≤ size ∨ seg.pos = 0)

variable {size least : Int} {near far : Bool} {seg : Segment} {d : Int}

theorem fit_inside (h : least ≤ size) : Inside size least (fit size least seg) := by
  have hlen := @clamp_mem seg.len _ _ h
  have hpos := @clamp_mem seg.pos 0 (size - clamp seg.len least size) (by omega)
  exact ⟨hlen.1, hlen.2, hpos.1, hpos.2⟩

theorem stretch_inside (h : least ≤ size) :
    Inside size least (stretch size least near far seg d) := fit_inside h

theorem clamp_of_mem {v lo hi : Int} (hlo : lo ≤ v) (hhi : v ≤ hi) : clamp v lo hi = v := by
  rw [clamp, if_neg (by omega), if_neg (by omega)]

theorem fit_of_inside (h : Inside size least seg) : fit size least seg = seg := by
  simp only [fit, clamp_of_mem h.least_le h.len_le, clamp_of_mem h.pos_nonneg h.end_le]

theorem stretch_far (h : Inside size least seg) :
    (stretch size least false true seg d).pos = seg.pos ↔
      seg.pos + seg.len + d ≤ size ∨ seg.pos = 0 := by
  obtain ⟨hleast, hlen, hpos, hend⟩ := h
  unfold stretch pull fit clamp
  simp only [if_true, Bool.false_eq_true, if_false]
  split_ifs <;> omega

theorem stretch_near (h : Inside size least seg) :
    (stretch size least true false seg d).pos + (stretch size least true false seg d).len =
      seg.pos + seg.len ↔ 0 ≤ seg.pos + d ∨ seg.pos + seg.len = size := by
  obtain ⟨hleast, hlen, hpos, hend⟩ := h
  unfold stretch pull fit clamp
  simp only [if_true, Bool.false_eq_true, if_false]
  by_cases hleast' : seg.len - d < least
  · simp only [if_pos hleast']
    split_ifs <;> omega
  · simp only [if_neg hleast']
    split_ifs <;> omega

theorem stretch_still (h : Inside size least seg) (hone : ¬ (near = true ∧ far = true)) :
    Still near far seg (stretch size least near far seg d) ↔ Reaches size near far seg d := by
  cases near <;> cases far
  · have hsame : stretch size least false false seg d = seg := fit_of_inside h
    simp [Still, Reaches, hsame]
  · simpa [Still, Reaches] using stretch_far h
  · simpa [Still, Reaches] using stretch_near h
  · exact absurd ⟨rfl, rfl⟩ hone

theorem Still.refl (near far : Bool) (seg : Segment) : Still near far seg seg :=
  ⟨fun _ => rfl, fun _ => rfl⟩

theorem Still.iff_of_still {seg' seg'' : Segment} (h : Still near far seg seg') :
    Still near far seg' seg'' ↔ Still near far seg seg'' := by
  constructor
  · exact fun h' => ⟨fun hn => (h'.1 hn).trans (h.1 hn), fun hf => (h'.2 hf).trans (h.2 hf)⟩
  · exact fun h' => ⟨fun hn => (h'.1 hn).trans (h.1 hn).symm,
      fun hf => (h'.2 hf).trans (h.2 hf).symm⟩

end vibeos.Stretch

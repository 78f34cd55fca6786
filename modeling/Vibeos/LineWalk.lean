-- A straight line that goes `a` places along one axis and `b ≤ a` places along the other, on a
-- grid: the place along the second axis is a rounded quotient, and a walk that keeps the slack of
-- the rounding finds each place from the one before.
import Mathlib.Data.Rat.Defs
import Mathlib.Tactic.FieldSimp
import Mathlib.Tactic.Linarith
import Mathlib.Tactic.Positivity
import Mathlib.Tactic.Ring

namespace vibeos.LineWalk

/-- The place along the second axis after `k` of `a` places: `k * b / a`, rounded. -/
def minor (a b k : Nat) : Nat := (k * b + (a - 1) / 2) / a

/-- How far the line may still go on before the place changes. -/
def slack (a b k : Nat) : Nat := a - 1 - (k * b + (a - 1) / 2) % a

variable {a b k : Nat}

theorem slack_lt (ha : 0 < a) : slack a b k < a := by
  unfold slack
  omega

theorem slack_add_mul_minor (ha : 0 < a) : slack a b k + k * b = a / 2 + a * minor a b k := by
  have hdiv := Nat.div_add_mod (k * b + (a - 1) / 2) a
  have hmod := Nat.mod_lt (k * b + (a - 1) / 2) ha
  unfold slack minor
  omega

@[simp] theorem minor_zero : minor a b 0 = 0 := by
  unfold minor
  rcases Nat.eq_zero_or_pos a with rfl | ha
  · simp
  · exact Nat.div_eq_of_lt (by omega)

@[simp] theorem minor_self (ha : 0 < a) : minor a b a = b := by
  have hround : (a - 1) / 2 < a := by omega
  rw [minor, Nat.mul_add_div ha, Nat.div_eq_of_lt hround, Nat.add_zero]

theorem slack_zero (ha : 0 < a) : slack a b 0 = a / 2 := by
  have h := slack_add_mul_minor (b := b) (k := 0) ha
  simpa using h

theorem walk_succ (ha : 0 < a) (hb : b ≤ a) :
    if slack a b k < b then
      minor a b (k + 1) = minor a b k + 1 ∧ slack a b (k + 1) + b = slack a b k + a
    else minor a b (k + 1) = minor a b k ∧ slack a b (k + 1) + b = slack a b k := by
  have hnow := slack_add_mul_minor (b := b) (k := k) ha
  have hnext := slack_add_mul_minor (b := b) (k := k + 1) ha
  have hlt := slack_lt (b := b) (k := k) ha
  have hlt' := slack_lt (b := b) (k := k + 1) ha
  rw [Nat.succ_mul] at hnext
  -- both places differ by a whole number of `a`
  have hplaces (m : Nat) (h : slack a b k + a * m = slack a b (k + 1) + b + a * minor a b k) :
      minor a b (k + 1) = m := by
    have : a * minor a b (k + 1) = a * m := by omega
    exact Nat.eq_of_mul_eq_mul_left ha this
  split
  · rename_i hused
    have hone : minor a b (k + 1) = minor a b k + 1 := by
      rcases Nat.lt_trichotomy (minor a b (k + 1)) (minor a b k + 1) with h | h | h
      · have := Nat.mul_le_mul_left a (Nat.lt_succ_iff.mp h)
        omega
      · exact h
      · have := Nat.mul_le_mul_left a h
        rw [Nat.mul_succ, Nat.mul_succ] at this
        omega
    refine ⟨hone, ?_⟩
    rw [hone, Nat.mul_succ] at hnext
    omega
  · rename_i hleft
    have hsame : minor a b (k + 1) = minor a b k := by
      rcases Nat.lt_trichotomy (minor a b (k + 1)) (minor a b k) with h | h | h
      · have := Nat.mul_le_mul_left a h
        rw [Nat.mul_succ] at this
        omega
      · exact h
      · have := Nat.mul_le_mul_left a h
        rw [Nat.mul_succ] at this
        omega
    refine ⟨hsame, ?_⟩
    rw [hsame] at hnext
    omega

theorem minor_near (ha : 0 < a) :
    |(minor a b k : ℚ) - (k / a : ℚ) * b| ≤ 1 / 2 := by
  have hsum := slack_add_mul_minor (b := b) (k := k) ha
  have hlt := slack_lt (b := b) (k := k) ha
  have hpos : (0 : ℚ) < a := by exact_mod_cast ha
  have hlow : a * minor a b k ≤ k * b + a / 2 := by omega
  have hhigh : k * b ≤ a * minor a b k + a / 2 := by omega
  have hlow' : (2 * (a * minor a b k) : ℚ) ≤ 2 * (k * b) + a := by
    exact_mod_cast (by omega : 2 * (a * minor a b k) ≤ 2 * (k * b) + a)
  have hhigh' : (2 * (k * b) : ℚ) ≤ 2 * (a * minor a b k) + a := by
    exact_mod_cast (by omega : 2 * (k * b) ≤ 2 * (a * minor a b k) + a)
  have hdiff : (minor a b k : ℚ) - (k / a : ℚ) * b = (a * minor a b k - k * b) / a := by
    field_simp
  rw [hdiff, abs_le, le_div_iff₀ hpos, div_le_iff₀ hpos]
  constructor
  · linarith
  · linarith

theorem minor_le (hk : k ≤ a) : minor a b k ≤ b := by
  rcases Nat.eq_zero_or_pos a with rfl | ha
  · obtain rfl : k = 0 := Nat.le_zero.mp hk
    simp
  · calc minor a b k ≤ minor a b a :=
          Nat.div_le_div_right (Nat.add_le_add_right (Nat.mul_le_mul_right b hk) _)
      _ = b := minor_self ha

/-! ## Lines of any slope -/

/-- The places along the first axis after `k` steps of a line that goes `a` places along it and
`b` places along the second one. A step always goes on along the longer axis. -/
def across (a b k : Nat) : Nat := if b < a then k else minor b a k

/-- The places along the second axis. -/
def down (a b k : Nat) : Nat := if b < a then minor a b k else k

/-- The error term of a walk: the slack, with a sign that says which axis is the longer one. -/
def err (a b k : Nat) : Int := if b < a then slack a b k else -slack b a k

theorem across_le (hk : k ≤ max a b) : across a b k ≤ a := by
  unfold across
  split
  · omega
  · exact minor_le (by omega)

theorem down_le (hk : k ≤ max a b) : down a b k ≤ b := by
  unfold down
  split
  · exact minor_le (by omega)
  · omega

@[simp] theorem across_zero : across a b 0 = 0 := by simp [across]

@[simp] theorem down_zero : down a b 0 = 0 := by simp [down]

theorem across_max : across a b (max a b) = a := by
  unfold across
  split
  · omega
  · rw [Nat.max_eq_right (by omega)]
    rcases Nat.eq_zero_or_pos b with rfl | hb
    · obtain rfl : a = 0 := by omega
      simp
    · exact minor_self hb

theorem down_max : down a b (max a b) = b := by
  unfold down
  split
  · rw [Nat.max_eq_left (by omega)]
    exact minor_self (by omega)
  · omega

theorem not_at_end (hk : k < max a b) : ¬ (across a b k = a ∧ down a b k = b) := by
  unfold across down
  split
  · omega
  · omega

theorem err_zero : err a b 0 = Int.tdiv (if b < a then a else -b) 2 := by
  unfold err
  split
  · rename_i h
    rw [slack_zero (by omega)]
    rfl
  · rw [Int.neg_tdiv]
    rcases Nat.eq_zero_or_pos b with rfl | hb
    · simp [slack]
    · rw [slack_zero hb]
      rfl

theorem abs_err_le : |err a b k| ≤ max a b := by
  have hslack (c d : Nat) : slack c d k ≤ c := by
    unfold slack
    omega
  unfold err
  split
  · have := hslack a b
    rw [abs_of_nonneg (by omega)]
    omega
  · have := hslack b a
    rw [abs_neg, abs_of_nonneg (by omega)]
    omega

theorem step (hk : k < max a b) :
    (across a b (k + 1) = across a b k + if -a < err a b k then 1 else 0) ∧
    (down a b (k + 1) = down a b k + if err a b k < b then 1 else 0) ∧
    err a b (k + 1) =
      err a b k - (if -a < err a b k then b else 0) + if err a b k < b then a else 0 := by
  by_cases hwide : b < a
  · have hlt := slack_lt (b := b) (k := k) (show 0 < a by omega)
    have hwalk := walk_succ (k := k) (show 0 < a by omega) (Nat.le_of_lt hwide)
    simp only [across, down, err, if_pos hwide]
    rw [if_pos (by omega : -(a : Int) < slack a b k), if_pos (by omega : -(a : Int) < slack a b k)]
    split at hwalk
    · rename_i hused
      rw [if_pos (by omega : (slack a b k : Int) < b), if_pos (by omega : (slack a b k : Int) < b)]
      omega
    · rename_i hleft
      rw [if_neg (by omega : ¬ (slack a b k : Int) < b),
        if_neg (by omega : ¬ (slack a b k : Int) < b)]
      omega
  · have hlt := slack_lt (b := a) (k := k) (show 0 < b by omega)
    have hwalk := walk_succ (k := k) (show 0 < b by omega) (show a ≤ b by omega)
    simp only [across, down, err, if_neg hwide]
    rw [if_pos (by omega : -(slack b a k : Int) < b), if_pos (by omega : -(slack b a k : Int) < b)]
    split at hwalk
    · rename_i hused
      rw [if_pos (by omega : -(a : Int) < -slack b a k),
        if_pos (by omega : -(a : Int) < -slack b a k)]
      omega
    · rename_i hleft
      rw [if_neg (by omega : ¬ -(a : Int) < -slack b a k),
        if_neg (by omega : ¬ -(a : Int) < -slack b a k)]
      omega

theorem near (hk : k ≤ max a b) : ∃ t : ℚ, 0 ≤ t ∧ t ≤ 1 ∧
    (across a b k - t * a) ^ 2 + (down a b k - t * b) ^ 2 ≤ 1 := by
  have hsq {q : ℚ} (h : |q| ≤ 1 / 2) : q ^ 2 ≤ 1 := by
    rw [abs_le] at h
    nlinarith [h.1, h.2]
  -- along the longer axis the walk is where the line is
  have hlong {c : Nat} (hc : 0 < c) : (k : ℚ) - (k / c : ℚ) * c = 0 := by
    have : (c : ℚ) ≠ 0 := by exact_mod_cast hc.ne'
    field_simp
    ring
  have ht {c : Nat} (hkc : k ≤ c) : (0 : ℚ) ≤ k / c ∧ (k / c : ℚ) ≤ 1 := by
    refine ⟨by positivity, div_le_one_of_le₀ (by exact_mod_cast hkc) (by positivity)⟩
  by_cases hwide : b < a
  · refine ⟨k / a, (ht (by omega)).1, (ht (by omega)).2, ?_⟩
    have hnear := hsq (minor_near (b := b) (k := k) (show 0 < a by omega))
    simp only [across, down, if_pos hwide]
    rw [hlong (by omega)]
    linarith
  · rcases Nat.eq_zero_or_pos b with rfl | hb
    · obtain rfl : a = 0 := by omega
      obtain rfl : k = 0 := by simpa using hk
      exact ⟨0, le_refl 0, zero_le_one, by simp⟩
    · refine ⟨k / b, (ht (by omega)).1, (ht (by omega)).2, ?_⟩
      have hnear := hsq (minor_near (b := a) (k := k) hb)
      simp only [across, down, if_neg hwide]
      rw [hlong hb]
      linarith

end vibeos.LineWalk

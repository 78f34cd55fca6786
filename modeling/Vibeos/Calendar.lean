-- The Gregorian calendar as a count of days: the days before a year and before a month, and the
-- years that begin in March, whose months have regular lengths.
import Mathlib.Order.Monotone.Basic
import Mathlib.Tactic.IntervalCases

namespace vibeos.Calendar

def leap (year : Nat) : Bool := (year % 4 == 0 && year % 100 != 0) || year % 400 == 0

def leapDay (year : Nat) : Nat := if leap year then 1 else 0

def yearLength (year : Nat) : Nat := 365 + leapDay year

/-- The days from the first of January of year 0 to that of the year. -/
def daysBefore (year : Nat) : Nat :=
  365 * year + (year + 3) / 4 + (year + 399) / 400 - (year + 99) / 100

def monthLengths : List Nat := [31, 28, 31, 30, 31, 30, 31, 31, 30, 31, 30, 31]

def monthLength (year month : Nat) : Nat :=
  monthLengths.getD month 0 + if month = 1 then leapDay year else 0

/-- The days from the first of January to the first of a month. -/
def daysBeforeMonth (year : Nat) : Nat → Nat
  | 0 => 0
  | month + 1 => daysBeforeMonth year month + monthLength year month

theorem leapDay_le (year : Nat) : leapDay year ≤ 1 := by
  unfold leapDay
  split <;> decide

theorem leapDay_congr {a b : Nat} (h : leap a = leap b) : leapDay a = leapDay b := by
  rw [leapDay, leapDay, h]

/-! ## Years -/

theorem leapDay_add (year : Nat) :
    leapDay year + (if year % 100 = 0 then 1 else 0) =
      (if year % 4 = 0 then 1 else 0) + if year % 400 = 0 then 1 else 0 := by
  have h100 : year % 400 = 0 → year % 100 = 0 := by omega
  have h4 : year % 100 = 0 → year % 4 = 0 := by omega
  simp only [leapDay, leap, Bool.or_eq_true, Bool.and_eq_true, beq_iff_eq, bne_iff_ne]
  by_cases hcycle : year % 400 = 0
  · simp [hcycle, h100 hcycle, h4 (h100 hcycle)]
  · by_cases hcentury : year % 100 = 0
    · simp [hcycle, hcentury, h4 hcentury]
    · by_cases hfourth : year % 4 = 0 <;> simp [hcycle, hcentury, hfourth]

theorem daysBefore_add (year : Nat) :
    daysBefore year + (year + 99) / 100 = 365 * year + (year + 3) / 4 + (year + 399) / 400 := by
  rw [daysBefore]
  omega

theorem daysBefore_succ (year : Nat) :
    daysBefore (year + 1) = daysBefore year + yearLength year := by
  have hnow := daysBefore_add year
  have hnext := daysBefore_add (year + 1)
  have h4 : (year + 1 + 3) / 4 = (year + 3) / 4 + if year % 4 = 0 then 1 else 0 := by
    split <;> omega
  have h100 : (year + 1 + 99) / 100 = (year + 99) / 100 + if year % 100 = 0 then 1 else 0 := by
    split <;> omega
  have h400 : (year + 1 + 399) / 400 = (year + 399) / 400 + if year % 400 = 0 then 1 else 0 := by
    split <;> omega
  rw [h4, h100, h400] at hnext
  have hleap := leapDay_add year
  rw [yearLength]
  omega

theorem daysBefore_strictMono : StrictMono daysBefore := by
  apply strictMono_nat_of_lt_succ
  intro year
  rw [daysBefore_succ, yearLength]
  omega

theorem monthLength_le {year month : Nat} (h : month < 12) : monthLength year month ≤ 31 := by
  have hday := leapDay_le year
  interval_cases month <;> simp [monthLength, monthLengths]
  omega

theorem daysBeforeMonth_mono {year month later : Nat} (h : month ≤ later) :
    daysBeforeMonth year month ≤ daysBeforeMonth year later := by
  apply monotone_nat_of_le_succ _ h
  intro n
  exact Nat.le_add_right _ _

theorem daysBeforeMonth_end (year : Nat) : daysBeforeMonth year 12 = yearLength year := by
  simp [daysBeforeMonth, monthLength, monthLengths, yearLength]
  omega

theorem inside_year {year month d : Nat} (hmonth : month < 12) (hd : d < monthLength year month) :
    daysBeforeMonth year month + d < yearLength year := by
  rw [← daysBeforeMonth_end]
  have hmono : daysBeforeMonth year (month + 1) ≤ daysBeforeMonth year 12 :=
    daysBeforeMonth_mono (by omega)
  exact lt_of_lt_of_le (Nat.add_lt_add_left hd _) hmono

theorem year_between {first last days year r : Nat} (hdays : daysBefore first + days =
    daysBefore year + r) (hr : r < yearLength year)
    (hlast : daysBefore first + days < daysBefore last) : first ≤ year ∧ year < last := by
  have hsucc := daysBefore_succ year
  constructor
  · have hlt : first < year + 1 := daysBefore_strictMono.lt_iff_lt.mp (by omega)
    omega
  · apply daysBefore_strictMono.lt_iff_lt.mp
    omega

theorem monthLength_pos {year month : Nat} (h : month < 12) : 0 < monthLength year month := by
  interval_cases month <;> simp [monthLength, monthLengths]

theorem exists_date (day : Nat) : ∃ year month d, month < 12 ∧ d < monthLength year month ∧
    day = daysBefore year + daysBeforeMonth year month + d := by
  induction day with
  | zero => exact ⟨0, 0, 0, by decide, by decide, by decide⟩
  | succ day ih =>
    obtain ⟨year, month, d, hmonth, hd, rfl⟩ := ih
    by_cases hlast : d + 1 < monthLength year month
    · exact ⟨year, month, d + 1, hmonth, hlast, by omega⟩
    have hnext : daysBeforeMonth year (month + 1) =
      daysBeforeMonth year month + monthLength year month := rfl
    by_cases hdecember : month + 1 < 12
    · exact ⟨year, month + 1, 0, hdecember, monthLength_pos hdecember, by omega⟩
    · obtain rfl : month = 11 := by omega
      have hend := daysBeforeMonth_end year
      have hsucc := daysBefore_succ year
      exact ⟨year + 1, 0, 0, by decide, monthLength_pos (by decide),
        by simp only [daysBeforeMonth] at *; omega⟩

/-- The day of the week from Sunday on. The first of January of year 0 is a Saturday. -/
def weekday (day : Nat) : Nat := (day + 6) % 7

/-! ## Years from March to February -/

/-- The days from the first of March of year 0 to that of the year. -/
def daysBeforeMarch (year : Nat) : Nat := 365 * year + year / 4 + year / 400 - year / 100

theorem daysBeforeMarch_add (year : Nat) :
    daysBeforeMarch year + year / 100 = 365 * year + year / 4 + year / 400 := by
  rw [daysBeforeMarch]
  omega

theorem daysBeforeMarch_succ (year : Nat) :
    daysBeforeMarch (year + 1) = daysBeforeMarch year + yearLength (year + 1) := by
  have hnow := daysBeforeMarch_add year
  have hnext := daysBeforeMarch_add (year + 1)
  have hleap := leapDay_add (year + 1)
  have h4 : (year + 1) / 4 = year / 4 + if (year + 1) % 4 = 0 then 1 else 0 := by
    split <;> omega
  have h100 : (year + 1) / 100 = year / 100 + if (year + 1) % 100 = 0 then 1 else 0 := by
    split <;> omega
  have h400 : (year + 1) / 400 = year / 400 + if (year + 1) % 400 = 0 then 1 else 0 := by
    split <;> omega
  rw [h4, h100, h400] at hnext
  rw [yearLength]
  omega

theorem daysBeforeMarch_eq (year : Nat) :
    daysBeforeMarch year + 60 = daysBefore year + 59 + leapDay year := by
  induction year with
  | zero => rfl
  | succ year ih =>
    rw [daysBeforeMarch_succ, daysBefore_succ, yearLength, yearLength]
    omega

/-- The days from the first of March to that of a month, counted from March on. -/
def marchMonth (month : Nat) : Nat := (153 * month + 2) / 5

theorem daysBeforeMonth_of_march {month : Nat} (h : month < 10) (year : Nat) :
    daysBeforeMonth year (month + 2) = 59 + leapDay year + marchMonth month := by
  interval_cases month <;>
    simp [daysBeforeMonth, monthLength, monthLengths, marchMonth] <;> omega

theorem daysBeforeMonth_behind {month : Nat} (h : month < 2) (year : Nat) :
    daysBeforeMonth year month + 306 = marchMonth (month + 10) := by
  interval_cases month <;> simp [daysBeforeMonth, monthLength, monthLengths, marchMonth]

theorem marchMonth_succ {month : Nat} (h : month < 10) (year : Nat) :
    marchMonth (month + 1) = marchMonth month + monthLength year (month + 2) := by
  interval_cases month <;> simp [monthLength, monthLengths, marchMonth]

theorem marchMonth_january (year : Nat) :
    marchMonth 11 = marchMonth 10 + monthLength year 0 := by
  simp [monthLength, monthLengths, marchMonth]

theorem marchMonth_february (year : Nat) :
    yearLength year = marchMonth 11 + monthLength year 1 := by
  simp [yearLength, monthLength, monthLengths, marchMonth]
  omega

/-! ## The year of a day, by division -/

/-- The year of an era of 400 years that a day of it lies in. -/
def yearOfEra (day : Nat) : Nat := (day - day / 1460 + day / 36524 - day / 146096) / 365

/-- The days of an era are those of centuries, of four years each, and of what is left. Only at
the end of the era is a century a day longer. -/
theorem yearOfEra_eq {c q s : Nat} (hc : c ≤ 3) (hq : q ≤ 24) (hs : s ≤ 1460)
    (hend : c < 3 → q = 24 → s < 1460) :
    yearOfEra (36524 * c + 1461 * q + s) = 100 * c + 4 * q + min 3 (s / 365) := by
  have h1460 : (36524 * c + 1461 * q + s) / 1460 = 25 * c + q + (24 * c + q + s) / 1460 := by
    omega
  have h36524 : (36524 * c + 1461 * q + s) / 36524 = c + (1461 * q + s) / 36524 := by omega
  have h146096 : (36524 * c + 1461 * q + s) / 146096 = (1461 * q + s) / 36524 := by
    interval_cases c <;> omega
  rw [yearOfEra, h1460, h36524, h146096]
  generalize (1461 * q + s) / 36524 = last
  omega

theorem exists_parts {day : Nat} (h : day < 146097) :
    ∃ c q s, c ≤ 3 ∧ q ≤ 24 ∧ s ≤ 1460 ∧ (c < 3 → q = 24 → s < 1460) ∧
      day = 36524 * c + 1461 * q + s := by
  refine ⟨min 3 (day / 36524), (day - 36524 * min 3 (day / 36524)) / 1461,
    (day - 36524 * min 3 (day / 36524)) % 1461, ?_, ?_, ?_, ?_, ?_⟩ <;> omega

theorem daysBeforeMarch_parts {c q y : Nat} (hc : c ≤ 3) (hq : q ≤ 24) (hy : y ≤ 3) :
    daysBeforeMarch (100 * c + 4 * q + y) = 36524 * c + 1461 * q + 365 * y := by
  have hfourths : (100 * c + 4 * q + y) / 4 = 25 * c + q := by omega
  have hcenturies : (100 * c + 4 * q + y) / 100 = c := by omega
  have hcycles : (100 * c + 4 * q + y) / 400 = 0 := by omega
  rw [daysBeforeMarch, hfourths, hcenturies, hcycles]
  omega

theorem leapDay_parts {c q y : Nat} (hc : c ≤ 3) (hq : q ≤ 24) (hy : y ≤ 3) :
    leapDay (100 * c + 4 * q + y + 1) = if y = 3 ∧ (q = 24 → c = 3) then 1 else 0 := by
  have h4 : (100 * c + 4 * q + y + 1) % 4 = 0 ↔ y = 3 := by omega
  have h100 : (100 * c + 4 * q + y + 1) % 100 = 0 ↔ y = 3 ∧ q = 24 := by omega
  have h400 : (100 * c + 4 * q + y + 1) % 400 = 0 ↔ y = 3 ∧ q = 24 ∧ c = 3 := by omega
  have hleap := leapDay_add (100 * c + 4 * q + y + 1)
  simp only [h4, h100, h400] at hleap
  by_cases hy : y = 3 <;> by_cases hq : q = 24 <;> by_cases hc : c = 3 <;>
    simpa [hy, hq, hc] using hleap

theorem yearOfEra_spec {day : Nat} (h : day < 146097) :
    yearOfEra day < 400 ∧ daysBeforeMarch (yearOfEra day) ≤ day ∧
      day < daysBeforeMarch (yearOfEra day) + yearLength (yearOfEra day + 1) := by
  obtain ⟨c, q, s, hc, hq, hs, hend, rfl⟩ := exists_parts h
  have hy : min 3 (s / 365) ≤ 3 := Nat.min_le_left 3 _
  rw [yearOfEra_eq hc hq hs hend, daysBeforeMarch_parts hc hq hy, yearLength,
    leapDay_parts hc hq hy]
  refine ⟨by omega, by omega, ?_⟩
  split <;> omega

/-! Every era has the same days. -/

theorem daysBeforeMarch_era (year era : Nat) :
    daysBeforeMarch (year + 400 * era) = daysBeforeMarch year + 146097 * era := by
  have hnow := daysBeforeMarch_add year
  have hlater := daysBeforeMarch_add (year + 400 * era)
  omega

theorem leapDay_era (year era : Nat) : leapDay (year + 400 * era) = leapDay year := by
  have h4 : (year + 400 * era) % 4 = year % 4 := by omega
  have h100 : (year + 400 * era) % 100 = year % 100 := by omega
  have h400 : (year + 400 * era) % 400 = year % 400 := by omega
  apply leapDay_congr
  rw [leap, leap, h4, h100, h400]

/-- The year from March on that a day lies in. -/
def marchYear (day : Nat) : Nat := yearOfEra (day % 146097) + 400 * (day / 146097)

def marchDay (day : Nat) : Nat := day - daysBeforeMarch (marchYear day)

theorem march_spec (day : Nat) :
    daysBeforeMarch (marchYear day) ≤ day ∧ marchDay day < yearLength (marchYear day + 1) := by
  have hera : day % 146097 < 146097 := Nat.mod_lt _ (by decide)
  obtain ⟨-, hle, hlt⟩ := yearOfEra_spec hera
  rw [marchDay, marchYear, Nat.add_right_comm, yearLength, leapDay_era, ← yearLength,
    daysBeforeMarch_era]
  have hsplit := Nat.mod_add_div day 146097
  omega

theorem march_add (day : Nat) : daysBeforeMarch (marchYear day) + marchDay day = day := by
  have hle := (march_spec day).1
  rw [marchDay]
  omega

theorem marchDay_eq (day : Nat) :
    marchDay day + (365 * yearOfEra (day % 146097) + yearOfEra (day % 146097) / 4) =
      day % 146097 + yearOfEra (day % 146097) / 100 := by
  have hera : day % 146097 < 146097 := Nat.mod_lt _ (by decide)
  obtain ⟨hyear, hle, -⟩ := yearOfEra_spec hera
  have hadd := daysBeforeMarch_add (yearOfEra (day % 146097))
  have hsplit := Nat.mod_add_div day 146097
  rw [marchDay, marchYear, daysBeforeMarch_era]
  rw [Nat.div_eq_of_lt hyear] at hadd
  omega

/-! ## The month of a day, by division -/

/-- The month of a year from March on that a day of it lies in. -/
def monthOfMarch (day : Nat) : Nat := (5 * day + 2) / 153

theorem monthOfMarch_spec {day : Nat} (h : day < 366) :
    monthOfMarch day < 12 ∧ marchMonth (monthOfMarch day) ≤ day ∧
      day < marchMonth (monthOfMarch day + 1) := by
  rw [monthOfMarch, marchMonth, marchMonth]
  omega

theorem yearLength_le (year : Nat) : yearLength year ≤ 366 := by
  have h := leapDay_le year
  rw [yearLength]
  omega

theorem date_of_march {year day : Nat} (h : day < yearLength (year + 1))
    (hmonth : monthOfMarch day < 10) :
    day - marchMonth (monthOfMarch day) < monthLength year (monthOfMarch day + 2) ∧
      daysBefore year + daysBeforeMonth year (monthOfMarch day + 2) +
        (day - marchMonth (monthOfMarch day)) = daysBeforeMarch year + day + 60 := by
  obtain ⟨-, hle, hlt⟩ := monthOfMarch_spec (lt_of_lt_of_le h (yearLength_le _))
  rw [marchMonth_succ hmonth year] at hlt
  have hmarch := daysBeforeMarch_eq year
  rw [daysBeforeMonth_of_march hmonth]
  omega

theorem date_behind {year day : Nat} (h : day < yearLength (year + 1))
    (hmonth : ¬ monthOfMarch day < 10) :
    day - marchMonth (monthOfMarch day) < monthLength (year + 1) (monthOfMarch day - 10) ∧
      daysBefore (year + 1) + daysBeforeMonth (year + 1) (monthOfMarch day - 10) +
        (day - marchMonth (monthOfMarch day)) = daysBeforeMarch year + day + 60 := by
  obtain ⟨hlast, hle, hlt⟩ := monthOfMarch_spec (lt_of_lt_of_le h (yearLength_le _))
  have hsum : daysBefore (year + 1) + day = daysBeforeMarch year + day + 366 := by
    have hmarch := daysBeforeMarch_eq (year + 1)
    have hsucc := daysBeforeMarch_succ year
    rw [yearLength] at hsucc
    omega
  generalize monthOfMarch day = month at *
  obtain ⟨month, rfl⟩ := Nat.exists_eq_add_of_le' (Nat.le_of_not_lt hmonth)
  have hbehind := @daysBeforeMonth_behind month (by omega) (year + 1)
  rw [Nat.add_sub_cancel]
  refine ⟨?_, by omega⟩
  have hcases : month = 0 ∨ month = 1 := by omega
  rcases hcases with rfl | rfl
  · have hjanuary := marchMonth_january (year + 1)
    simp only [Nat.zero_add, Nat.reduceAdd] at *
    omega
  · have hfebruary := marchMonth_february (year + 1)
    simp only [Nat.reduceAdd] at *
    omega

end vibeos.Calendar

-- The two ways from a Unix time to a date: gmtime_r of timer.c counts years and months down, and
-- sftp_format_utc_datetime of ssh_client.c divides, with years that begin in March. They agree. Then
-- the count of the days back, ymd_hms_to_unix, which the clock is set with.
import Vibeos.Calendar

namespace vibeos.timer

open Calendar

abbrev Text := List UInt8

/-! ## timer.c -/

def is_leap_year (year : Nat) : Bool := (year % 4 == 0 && year % 100 != 0) || year % 400 == 0

structure tm where
  tm_sec : Int
  tm_min : Int
  tm_hour : Int
  tm_mday : Int
  tm_mon : Int
  tm_year : Int
  tm_wday : Int
  tm_yday : Int
  tm_isdst : Int
  deriving DecidableEq

def yd (year : Nat) : Nat := if is_leap_year year then 366 else 365

theorem yd_pos (year : Nat) : 0 < yd year := by
  unfold yd
  split <;> decide

/-- The loop over the years. The year is an `unsigned int`. -/
def year_loop (days year : Nat) : Nat × Nat :=
  if days < yd year then (days, year) else year_loop (days - yd year) ((year + 1) % 2 ^ 32)
termination_by days
decreasing_by
  have hpos := yd_pos year
  omega

def mdays : List Nat := [31, 28, 31, 30, 31, 30, 31, 31, 30, 31, 30, 31]

def month_loop (year days month : Nat) : Nat × Nat :=
  if month < 12 then
    let dim := mdays.getD month 0 + if month == 1 && is_leap_year year then 1 else 0
    if days < dim then (days, month) else month_loop year (days - dim) (month + 1)
  else (days, month)
termination_by 12 - month

/-- `(int)` of an `unsigned int`. -/
def toInt (n : Nat) : Int := (BitVec.ofNat 32 n).toInt

def gmtime_r (timer : Int) : tm :=
  let t := if timer < 0 then 0 else timer.toNat
  let days := t / 86400
  let rem := t % 86400
  let (yday, year) := year_loop days 1970
  let (mday, month) := month_loop year yday 0
  { tm_hour := ↑(rem / 3600)
    tm_min := ↑(rem % 3600 / 60)
    tm_sec := ↑(rem % 3600 % 60)
    tm_wday := ↑((days + 4) % 7)
    tm_year := toInt year - 1900
    tm_mon := month
    tm_mday := mday + 1
    tm_yday := yday
    tm_isdst := 0 }

/-! ## ssh_client.c -/

/-- `(unsigned int)` of a `long`. -/
def unsigned (x : Int) : Nat := (x % 2 ^ 32).toNat

def digit (v : Nat) : UInt8 := UInt8.ofNat (48 + v % 10)

def sftp_append_u2 (v : Nat) : Text := [digit (v / 10), digit v]

def sftp_append_u4 (v : Nat) : Text := [digit (v / 1000), digit (v / 100), digit (v / 10), digit v]

/-- Year, month and day. The divisions of C go toward zero. No `long` overflows: the days of a
32-bit time are less than 49711. -/
def sftp_date (days : Nat) : Nat × Nat × Nat :=
  let z : Int := days + 719468
  let era := Int.tdiv (if 0 ≤ z then z else z - 146096) 146097
  let doe := z - era * 146097
  let yoe := Int.tdiv (doe - Int.tdiv doe 1460 + Int.tdiv doe 36524 - Int.tdiv doe 146096) 365
  let y := yoe + era * 400
  let doy := doe - (365 * yoe + Int.tdiv yoe 4 - Int.tdiv yoe 100)
  let mp := Int.tdiv (5 * doy + 2) 153
  let d := doy - Int.tdiv (153 * mp + 2) 5 + 1
  let m := mp + if mp < 10 then 3 else -9
  (unsigned (y + if m ≤ 2 then 1 else 0), unsigned m, unsigned d)

def sftp_format_utc_datetime (total : UInt32) (out_sz : Int) : Text :=
  if out_sz < 20 then []
  else
    let days := total.toNat / 86400
    let sod := total.toNat % 86400
    let (year, m, d) := sftp_date days
    sftp_append_u4 year ++ 45 :: sftp_append_u2 m ++ 45 :: sftp_append_u2 d ++
      32 :: sftp_append_u2 (sod / 3600) ++ 58 :: sftp_append_u2 (sod / 60 % 60) ++
      58 :: sftp_append_u2 (sod % 60)

/-- A decimal digit behind the number that was read so far. -/
def readDigit (n : Int) (c : UInt8) : Option Int :=
  if 48 ≤ c ∧ c ≤ 57 then some (10 * n + (c.toNat - 48)) else none

/-- The number that stands in a range of a text. -/
def numberAt (text : Text) (pos len : Nat) : Option Int :=
  ((text.drop pos).take len).foldlM readDigit 0

/-! ## The loops of gmtime_r -/

theorem yd_eq (year : Nat) : yd year = yearLength year := by
  unfold yd yearLength leapDay
  rw [show is_leap_year year = leap year from rfl]
  split <;> rfl

theorem year_loop_spec {r : Nat} (k year : Nat) (hfits : year + k < 2 ^ 32)
    (hr : r < yearLength (year + k)) :
    year_loop (daysBefore (year + k) - daysBefore year + r) year = (r, year + k) := by
  induction k generalizing year with
  | zero =>
    rw [year_loop, yd_eq]
    simp only [Nat.add_zero, Nat.sub_self, Nat.zero_add] at *
    rw [if_pos hr]
  | succ k ih =>
    have hmono : daysBefore (year + 1) ≤ daysBefore (year + (k + 1)) :=
      daysBefore_strictMono.monotone (by omega)
    have hnext : year + (k + 1) = year + 1 + k := by omega
    have hsucc := daysBefore_succ year
    rw [year_loop, yd_eq, if_neg (by omega), Nat.mod_eq_of_lt (by omega)]
    rw [hnext] at hr hfits hmono ⊢
    rw [← ih (year + 1) hfits hr]
    congr 1
    omega

theorem dim_eq (year month : Nat) :
    (mdays.getD month 0 + if month == 1 && is_leap_year year then 1 else 0) =
      monthLength year month := by
  rw [monthLength, leapDay, show is_leap_year year = leap year from rfl,
    show mdays = monthLengths from rfl]
  by_cases hmonth : month = 1 <;> simp [hmonth]

theorem month_loop_spec {year d : Nat} (k month : Nat) (hfits : month + k < 12)
    (hd : d < monthLength year (month + k)) :
    month_loop year (daysBeforeMonth year (month + k) - daysBeforeMonth year month + d) month =
      (d, month + k) := by
  induction k generalizing month with
  | zero =>
    simp only [Nat.add_zero, Nat.sub_self, Nat.zero_add] at *
    rw [month_loop, dim_eq, if_pos hfits]
    exact if_pos hd
  | succ k ih =>
    have hmono : daysBeforeMonth year (month + 1) ≤ daysBeforeMonth year (month + (k + 1)) :=
      daysBeforeMonth_mono (by omega)
    have hnext : month + (k + 1) = month + 1 + k := by omega
    have hsucc : daysBeforeMonth year (month + 1) =
      daysBeforeMonth year month + monthLength year month := rfl
    rw [month_loop, dim_eq, if_pos (by omega), if_neg (by omega)]
    rw [hnext] at hd hfits hmono ⊢
    rw [← ih (month + 1) hfits hd]
    congr 1
    omega

theorem loops_spec {days year month d : Nat} (hyear : 1970 ≤ year) (hfits : year < 2 ^ 32)
    (hmonth : month < 12) (hd : d < monthLength year month)
    (hdays : daysBefore 1970 + days = daysBefore year + daysBeforeMonth year month + d) :
    year_loop days 1970 = (daysBeforeMonth year month + d, year) ∧
      month_loop year (daysBeforeMonth year month + d) 0 = (d, month) := by
  have hinside := inside_year hmonth hd
  have hmono : daysBefore 1970 ≤ daysBefore year := daysBefore_strictMono.monotone hyear
  constructor
  · obtain ⟨k, rfl⟩ := Nat.exists_eq_add_of_le hyear
    rw [← year_loop_spec k 1970 hfits hinside]
    congr 1
    omega
  · have hloop := month_loop_spec month 0 (by rwa [Nat.zero_add]) (by rwa [Nat.zero_add])
    simpa [daysBeforeMonth] using hloop

/-! ## The division of sftp_format_utc_datetime -/

theorem tdiv_cast (a b : Nat) : Int.tdiv a b = ↑(a / b) := by
  rw [Int.tdiv_eq_ediv_of_nonneg (Int.natCast_nonneg a)]
  rfl

theorem unsigned_cast {n : Nat} (h : n < 2 ^ 32) : unsigned n = n := by
  unfold unsigned
  omega

theorem yoe_eq (doe : Nat) :
    Int.tdiv (↑doe - Int.tdiv doe 1460 + Int.tdiv doe 36524 - Int.tdiv doe 146096) 365 =
      ↑(yearOfEra doe) := by
  have hquarters : Int.tdiv (doe : Int) 1460 = ↑(doe / 1460) := tdiv_cast doe 1460
  have hcenturies : Int.tdiv (doe : Int) 36524 = ↑(doe / 36524) := tdiv_cast doe 36524
  have hlast : Int.tdiv (doe : Int) 146096 = ↑(doe / 146096) := tdiv_cast doe 146096
  rw [hquarters, hcenturies, hlast,
    show (doe : Int) - ↑(doe / 1460) + ↑(doe / 36524) - ↑(doe / 146096) =
      ↑(doe - doe / 1460 + doe / 36524 - doe / 146096) by omega]
  exact tdiv_cast _ 365

theorem doy_eq (day : Nat) :
    (↑(day % 146097) : Int) - (365 * ↑(yearOfEra (day % 146097)) +
      Int.tdiv ↑(yearOfEra (day % 146097)) 4 - Int.tdiv ↑(yearOfEra (day % 146097)) 100) =
      ↑(marchDay day) := by
  have hday := marchDay_eq day
  generalize yearOfEra (day % 146097) = yoe at *
  have hfourths : Int.tdiv (yoe : Int) 4 = ↑(yoe / 4) := tdiv_cast yoe 4
  have hcenturies : Int.tdiv (yoe : Int) 100 = ↑(yoe / 100) := tdiv_cast yoe 100
  rw [hfourths, hcenturies]
  omega

theorem mp_eq (doy : Nat) : Int.tdiv (5 * ↑doy + 2) 153 = ↑(monthOfMarch doy) :=
  tdiv_cast (5 * doy + 2) 153

theorem march_first_eq (mp : Nat) : Int.tdiv (153 * ↑mp + 2) 5 = ↑(marchMonth mp) :=
  tdiv_cast (153 * mp + 2) 5

theorem sftp_date_eq (days : Nat) :
    sftp_date days =
      (let doy := marchDay (days + 719468)
      let mp := monthOfMarch doy
      (unsigned ↑(marchYear (days + 719468) + if mp < 10 then 0 else 1),
        unsigned ↑(if mp < 10 then mp + 3 else mp - 9),
        unsigned ↑(doy - marchMonth mp + 1))) := by
  have hera : Int.tdiv ↑(days + 719468) 146097 = ↑((days + 719468) / 146097) := tdiv_cast _ _
  have hdoe : (↑(days + 719468) : Int) - ↑((days + 719468) / 146097) * 146097 =
      ↑((days + 719468) % 146097) := by omega
  have hday := (march_spec (days + 719468)).2
  obtain ⟨hlast, hle, -⟩ := monthOfMarch_spec (lt_of_lt_of_le hday (yearLength_le _))
  unfold sftp_date
  rw [show (days : Int) + 719468 = ↑(days + 719468) by omega]
  dsimp only
  rw [if_pos (Int.natCast_nonneg _), hera, hdoe, yoe_eq, doy_eq, mp_eq, march_first_eq]
  rw [marchYear]
  generalize monthOfMarch (marchDay (days + 719468)) = mp at *
  have hm : (mp : Int) + (if (mp : Int) < 10 then 3 else -9) =
      ↑(if mp < 10 then mp + 3 else mp - 9) := by split <;> split <;> omega
  have hyear : (if (↑(if mp < 10 then mp + 3 else mp - 9) : Int) ≤ 2 then (1 : Int) else 0) =
      ↑(if mp < 10 then 0 else 1 : Nat) := by split at * <;> split <;> omega
  rw [hm, hyear]
  congr 3 <;> omega

theorem year_range {days year month d : Nat} (h : days < 49711) (hmonth : month < 12)
    (hd : d < monthLength year month)
    (hdays : daysBefore 1970 + days = daysBefore year + daysBeforeMonth year month + d) :
    1970 ≤ year ∧ year < 2107 := by
  have hfirst : daysBefore 1970 = 719528 := by rw [daysBefore]
  have hlast : daysBefore 2107 = 769566 := by rw [daysBefore]
  rw [Nat.add_assoc] at hdays
  exact year_between hdays (inside_year hmonth hd) (by omega)

theorem sftp_date_spec {days : Nat} (h : days < 49711) :
    ∃ year month d, sftp_date days = (year, month + 1, d + 1) ∧
      month < 12 ∧ d < monthLength year month ∧
      daysBefore 1970 + days = daysBefore year + daysBeforeMonth year month + d := by
  have hday := (march_spec (days + 719468)).2
  have hsum := march_add (days + 719468)
  have hstart : daysBefore 1970 = 719528 := by rw [daysBefore]
  rw [sftp_date_eq]
  generalize marchYear (days + 719468) = year, marchDay (days + 719468) = doy at *
  have hdoy := lt_of_lt_of_le hday (yearLength_le _)
  obtain ⟨hlast, hfirst, -⟩ := monthOfMarch_spec hdoy
  dsimp only
  by_cases hmonth : monthOfMarch doy < 10
  · obtain ⟨hd, hdate⟩ := date_of_march hday hmonth
    rw [hsum] at hdate
    have hyear := year_range h (by omega) hd (by omega)
    refine ⟨year, monthOfMarch doy + 2, doy - marchMonth (monthOfMarch doy), ?_, by omega, hd,
      by omega⟩
    have hm : unsigned ↑(monthOfMarch doy + 3) = monthOfMarch doy + 2 + 1 :=
      unsigned_cast (by omega)
    rw [if_pos hmonth, if_pos hmonth, hm, unsigned_cast (by omega), unsigned_cast (by omega),
      Nat.add_zero]
  · obtain ⟨hd, hdate⟩ := date_behind hday hmonth
    rw [hsum] at hdate
    have hyear := year_range h (by omega) hd (by omega)
    refine ⟨year + 1, monthOfMarch doy - 10, doy - marchMonth (monthOfMarch doy), ?_, by omega,
      hd, by omega⟩
    have hm : monthOfMarch doy - 9 = monthOfMarch doy - 10 + 1 := by omega
    rw [if_neg hmonth, if_neg hmonth, hm, unsigned_cast (by omega), unsigned_cast (by omega),
      unsigned_cast (by omega)]

/-! ## The two dates -/

theorem readDigit_digit (n : Int) (v : Nat) : readDigit n (digit v) = some (10 * n + ↑(v % 10)) := by
  have hdigit : (digit v).toNat = 48 + v % 10 := by
    rw [digit, UInt8.toNat_ofNat']
    omega
  have hrange : 48 ≤ digit v ∧ digit v ≤ 57 := by
    rw [UInt8.le_iff_toNat_le, UInt8.le_iff_toNat_le, hdigit]
    exact ⟨Nat.le_add_right 48 _, by simp; omega⟩
  rw [readDigit, if_pos hrange, hdigit]
  congr 2
  omega

theorem foldlM_u2 {v : Nat} (h : v < 100) : (sftp_append_u2 v).foldlM readDigit 0 = some ↑v := by
  simp only [sftp_append_u2, List.foldlM_cons, List.foldlM_nil, readDigit_digit]
  simp only [Option.bind_eq_bind, Option.bind_some, Option.pure_def, Option.some.injEq]
  omega

theorem foldlM_u4 {v : Nat} (h : v < 10000) : (sftp_append_u4 v).foldlM readDigit 0 = some ↑v := by
  simp only [sftp_append_u4, List.foldlM_cons, List.foldlM_nil, readDigit_digit]
  simp only [Option.bind_eq_bind, Option.bind_some, Option.pure_def, Option.some.injEq]
  omega

theorem toInt_of_lt {n : Nat} (h : n < 2 ^ 31) : toInt n = n := by
  rw [toInt, BitVec.toInt_eq_toNat_of_lt] <;> rw [BitVec.toNat_ofNat] <;> omega

/-- A text `YYYY-MM-DD hh:mm:ss` shows the fields of `t`. -/
def ShowsFields (out : List UInt8) (t : tm) : Prop :=
  out.length = 19 ∧
    numberAt out 0 4 = some (t.tm_year + 1900) ∧ numberAt out 5 2 = some (t.tm_mon + 1) ∧
    numberAt out 8 2 = some t.tm_mday ∧ numberAt out 11 2 = some t.tm_hour ∧
    numberAt out 14 2 = some t.tm_min ∧ numberAt out 17 2 = some t.tm_sec

/-- Every field that sftp_format_utc_datetime prints is the one that gmtime_r computes. -/
theorem formatters_agree (t : UInt32) (out_sz : Int) (h : 20 ≤ out_sz) :
    ShowsFields (sftp_format_utc_datetime t out_sz) (gmtime_r t.toNat) := by
  have hdays : t.toNat / 86400 < 49711 := by
    have hlt := t.toNat_lt
    omega
  obtain ⟨year, month, d, hdate, hmonth, hd, hday⟩ := sftp_date_spec hdays
  obtain ⟨hfirst, hlast⟩ := year_range hdays hmonth hd hday
  obtain ⟨hyears, hmonths⟩ := loops_spec hfirst (by omega) hmonth hd hday
  have hd31 := lt_of_lt_of_le hd (monthLength_le hmonth)
  have hnonneg : ¬ (t.toNat : Int) < 0 := by omega
  have hout : sftp_format_utc_datetime t out_sz = sftp_append_u4 year ++ 45 :: sftp_append_u2 (month + 1) ++
      45 :: sftp_append_u2 (d + 1) ++ 32 :: sftp_append_u2 (t.toNat % 86400 / 3600) ++
      58 :: sftp_append_u2 (t.toNat % 86400 / 60 % 60) ++
      58 :: sftp_append_u2 (t.toNat % 86400 % 60) := by
    simp only [sftp_format_utc_datetime, if_neg (Int.not_lt.mpr h), hdate]
  have htm : (gmtime_r t.toNat).tm_year = year - 1900 ∧ (gmtime_r t.toNat).tm_mon = month ∧
      (gmtime_r t.toNat).tm_mday = d + 1 ∧
      (gmtime_r t.toNat).tm_hour = ↑(t.toNat % 86400 / 3600) ∧
      (gmtime_r t.toNat).tm_min = ↑(t.toNat % 86400 % 3600 / 60) ∧
      (gmtime_r t.toNat).tm_sec = ↑(t.toNat % 86400 % 3600 % 60) := by
    simp only [gmtime_r, if_neg hnonneg, Int.toNat_natCast, hyears, hmonths,
      toInt_of_lt (show year < 2 ^ 31 by omega), and_self]
  obtain ⟨hyear, hmon, hmday, hhour, hmin, hsec⟩ := htm
  unfold ShowsFields
  rw [hyear, hmon, hmday, hhour, hmin, hsec, hout]
  refine ⟨by simp [sftp_append_u4, sftp_append_u2], ?_, ?_, ?_, ?_, ?_, ?_⟩
  · exact (foldlM_u4 (by omega)).trans (by congr 1; omega)
  · exact (foldlM_u2 (by omega)).trans (by push_cast; rfl)
  · exact (foldlM_u2 (by omega)).trans (by push_cast; rfl)
  · exact foldlM_u2 (by omega)
  · exact (foldlM_u2 (by omega)).trans (by congr 2; omega)
  · exact (foldlM_u2 (by omega)).trans (by congr 2; omega)

theorem formatters_agree_leap_day :
    numberAt (sftp_format_utc_datetime 1709210096 24) 8 2 = some (gmtime_r 1709210096).tm_mday :=
  (formatters_agree 1709210096 24 (by decide)).2.2.2.1

/-! ## timer.c -/

def month_days (year month m days : Nat) : Nat :=
  if m < month then
    month_days year month (m + 1)
      (days + mdays.getD (m - 1) 0 + if m == 2 && is_leap_year year then 1 else 0)
  else days
termination_by month - m

def days_before_month (year month : Nat) : Nat :=
  let month := if month < 1 then 1 else month
  let month := if month > 12 then 12 else month
  month_days year month 1 0

def year_days (year y days : Nat) : Nat :=
  if y < year then year_days year (y + 1) (days + yd y) else days
termination_by year - y

/-- The arguments are `unsigned int`, and the days a `uint64_t`. -/
def ymd_hms_to_unix (year month day hour min sec : Nat) : UInt32 :=
  let year := if year < 1970 then 1970 else year
  let day := if day < 1 then 1 else day
  let days := year_days year 1970 0 + days_before_month year month + (day - 1)
  UInt32.ofNat (days * 86400 + hour * 3600 + min * 60 + sec)

/-- The time of the fields, with the year and the month counted as `ymd_hms_to_unix` has them. -/
def unix_of_tm (b : tm) : UInt32 :=
  ymd_hms_to_unix (unsigned (b.tm_year + 1900)) (unsigned (b.tm_mon + 1)) (unsigned b.tm_mday)
    (unsigned b.tm_hour) (unsigned b.tm_min) (unsigned b.tm_sec)

/-! ## The count of the days -/

theorem year_days_spec {year y : Nat} (h : y ≤ year) (days : Nat) :
    year_days year y days + daysBefore y = days + daysBefore year := by
  induction hk : year - y generalizing y days with
  | zero =>
    obtain rfl : y = year := by omega
    rw [year_days, if_neg (Nat.lt_irrefl y)]
  | succ k ih =>
    have hnext := ih (show y + 1 ≤ year by omega) (days + yd y) (by omega)
    rw [year_days, if_pos (by omega)]
    rw [daysBefore_succ, yd_eq] at hnext
    rw [yd_eq]
    omega

theorem month_days_spec (year : Nat) {month m : Nat} (h : m ≤ month) (days : Nat) :
    month_days year (month + 1) (m + 1) days + daysBeforeMonth year m =
      days + daysBeforeMonth year month := by
  induction hk : month - m generalizing m days with
  | zero =>
    obtain rfl : m = month := by omega
    rw [month_days, if_neg (Nat.lt_irrefl (m + 1))]
  | succ k ih =>
    have hnext := ih (show m + 1 ≤ month by omega) (days + monthLength year m) (by omega)
    have hdim := dim_eq year m
    have hfebruary : (m + 1 == 2) = (m == 1) := by simp
    rw [month_days, if_pos (by omega), Nat.add_sub_cancel, hfebruary, Nat.add_assoc days, hdim]
    rw [daysBeforeMonth] at hnext
    omega

theorem days_before_month_spec (year : Nat) {month : Nat} (h : month < 12) :
    days_before_month year (month + 1) = daysBeforeMonth year month := by
  have hloop := month_days_spec year (Nat.zero_le month) 0
  simp only [daysBeforeMonth, Nat.zero_add, Nat.add_zero] at hloop
  have hleast : ¬ month + 1 < 1 := by omega
  have hmost : ¬ month + 1 > 12 := by omega
  simp only [days_before_month, if_neg hleast, if_neg hmost, hloop]

theorem ymd_hms_to_unix_spec {year month d days : Nat} (hyear : 1970 ≤ year) (hmonth : month < 12)
    (hdays : daysBefore 1970 + days = daysBefore year + daysBeforeMonth year month + d)
    (hour min sec : Nat) :
    ymd_hms_to_unix year (month + 1) (d + 1) hour min sec =
      UInt32.ofNat (days * 86400 + hour * 3600 + min * 60 + sec) := by
  have hyears := year_days_spec hyear 0
  have hcount : year_days year 1970 0 + days_before_month year (month + 1) + (d + 1 - 1) = days := by
    rw [days_before_month_spec year hmonth]
    omega
  have hfirst : ¬ year < 1970 := by omega
  have hday : ¬ d + 1 < 1 := by omega
  simp only [ymd_hms_to_unix, if_neg hfirst, if_neg hday, hcount]

/-! ## There and back -/

/-- The fields are in their ranges and of one date, with its day of the week and of the year. -/
structure OfDate (b : tm) (year month d : Nat) : Prop where
  tm_year : b.tm_year = year - 1900
  from_1970 : 1970 ≤ year
  tm_mon : b.tm_mon = month
  mon_lt : month < 12
  tm_mday : b.tm_mday = d + 1
  mday_lt : d < monthLength year month
  tm_hour : 0 ≤ b.tm_hour ∧ b.tm_hour < 24
  tm_min : 0 ≤ b.tm_min ∧ b.tm_min < 60
  tm_sec : 0 ≤ b.tm_sec ∧ b.tm_sec < 60
  tm_yday : b.tm_yday = daysBeforeMonth year month + d
  tm_wday : b.tm_wday = weekday (daysBefore year + daysBeforeMonth year month + d)

theorem gmtime_r_eq {t days year month d : Nat} (ht : t / 86400 = days) (hlt : t < 2 ^ 32)
    (hmonth : month < 12) (hd : d < monthLength year month)
    (hday : daysBefore 1970 + days = daysBefore year + daysBeforeMonth year month + d) :
    gmtime_r t =
      { tm_hour := ↑(t % 86400 / 3600)
        tm_min := ↑(t % 86400 % 3600 / 60)
        tm_sec := ↑(t % 86400 % 3600 % 60)
        tm_wday := ↑((days + 4) % 7)
        tm_year := year - 1900
        tm_mon := month
        tm_mday := d + 1
        tm_yday := ↑(daysBeforeMonth year month + d)
        tm_isdst := 0 } := by
  obtain ⟨hfirst, hlast⟩ := year_range (by omega) hmonth hd hday
  obtain ⟨hyears, hmonths⟩ := loops_spec hfirst (by omega) hmonth hd hday
  have hnonneg : ¬ (t : Int) < 0 := by omega
  simp only [gmtime_r, if_neg hnonneg, Int.toNat_natCast, ht, hyears, hmonths,
    toInt_of_lt (show year < 2 ^ 31 by omega)]

/-- Every 32-bit time is the time of the date that gmtime_r gives for it. -/
theorem calendar_round_trip (t : UInt32) :
    unix_of_tm (gmtime_r t.toNat) = t ∧
    ∃ year month d, OfDate (gmtime_r t.toNat) year month d := by
  have hlt := t.toNat_lt
  obtain ⟨year, month, d, hmonth, hd, hday⟩ := exists_date (daysBefore 1970 + t.toNat / 86400)
  obtain ⟨hfirst, hlast⟩ := year_range (by omega) hmonth hd hday
  rw [gmtime_r_eq rfl hlt hmonth hd hday]
  refine ⟨?_, year, month, d, ⟨rfl, hfirst, rfl, hmonth, rfl, hd, ?_, ?_, ?_, ?_, ?_⟩⟩
  · have hd31 := lt_of_lt_of_le hd (monthLength_le hmonth)
    have hyear : unsigned (year - 1900 + 1900) = year := by
      rw [Int.sub_add_cancel]
      exact unsigned_cast (by omega)
    have hmon : unsigned (month + 1) = month + 1 := @unsigned_cast (month + 1) (by omega)
    have hmday : unsigned (d + 1) = d + 1 := @unsigned_cast (d + 1) (by omega)
    rw [unix_of_tm]
    simp only [hyear, hmon, hmday]
    rw [unsigned_cast (by omega), unsigned_cast (by omega), unsigned_cast (by omega),
      ymd_hms_to_unix_spec hfirst hmonth hday]
    have hsum : t.toNat / 86400 * 86400 + t.toNat % 86400 / 3600 * 3600 +
        t.toNat % 86400 % 3600 / 60 * 60 + t.toNat % 86400 % 3600 % 60 = t.toNat := by
      omega
    rw [hsum, UInt32.ofNat_toNat]
  · dsimp only
    omega
  · dsimp only
    omega
  · dsimp only
    omega
  · rfl
  · -- the week of gmtime_r begins with 1970
    have hstart : daysBefore 1970 = 719528 := by rw [daysBefore]
    show (↑((t.toNat / 86400 + 4) % 7) : Int) = _
    rw [weekday, ← hday, hstart]
    omega

end vibeos.timer

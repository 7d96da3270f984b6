/-
The proleptic Gregorian calendar.

Two numberings carry every computation: the months are numbered through
(`monthIndex`), and the days are (`dayNumber`, day 0 being 0001-01-01). A
month's days start where the one before it ended (`monthStart_succ`), so
the day number is the chronological order (`lt_of_monthIndex_lt`), it
determines the date (`dayNumber_injective`), and every integer is one
(`dayNumber_ofDayNumber`).
-/
import Mathlib.Data.Int.SuccPred
import Mathlib.Tactic.IntervalCases
import Mathlib.Data.Int.ConditionallyCompleteOrder

namespace OpenStandards.Lib

-- ==== year lengths

def isLeap (y : Int) : Bool :=
  decide (y % 4 = 0) && (!decide (y % 100 = 0) || decide (y % 400 = 0))

def daysInMonth (y : Int) : Nat → Nat
  | 1 => 31
  | 2 => if isLeap y then 29 else 28
  | 3 => 31
  | 4 => 30
  | 5 => 31
  | 6 => 30
  | 7 => 31
  | 8 => 31
  | 9 => 30
  | 10 => 31
  | 11 => 30
  | 12 => 31
  | _ => 0

def daysBeforeMonth (y : Int) : Nat → Nat
  | 0 => 0
  | m + 1 => daysBeforeMonth y m + daysInMonth y m

def daysBeforeYear (y : Int) : Int :=
  365 * (y - 1) + (y - 1) / 4 - (y - 1) / 100 + (y - 1) / 400

theorem isLeap_iff {y : Int} : isLeap y = true ↔ y % 4 = 0 ∧ (y % 100 ≠ 0 ∨ y % 400 = 0) := by
  simp [isLeap]

theorem le_daysInMonth (y : Int) {m : Nat} (hlo : 1 ≤ m) (hhi : m ≤ 12) :
    28 ≤ daysInMonth y m := by
  interval_cases m
  all_goals simp only [daysInMonth]
  all_goals (first | omega | (split <;> omega))

theorem daysBeforeMonth_13 (y : Int) :
    daysBeforeMonth y 13 = if isLeap y then 366 else 365 := by
  simp only [daysBeforeMonth, daysInMonth]
  split
  · rfl
  · rfl

theorem daysBeforeYear_succ (y : Int) :
    daysBeforeYear (y + 1) = daysBeforeYear y + daysBeforeMonth y 13 := by
  rw [daysBeforeMonth_13]
  unfold daysBeforeYear
  split
  case isTrue h =>
    rw [isLeap_iff] at h
    omega
  case isFalse h =>
    rw [isLeap_iff] at h
    omega

-- ==== the months

/-- The first day of a month, months being numbered through from January
of the year 0. -/
def monthStart (i : Int) : Int :=
  daysBeforeYear (i / 12) + daysBeforeMonth (i / 12) (i % 12 + 1).toNat

def monthLength (i : Int) : Nat := daysInMonth (i / 12) (i % 12 + 1).toNat

theorem le_monthLength (i : Int) : 28 ≤ monthLength i := by
  unfold monthLength
  apply le_daysInMonth
  · omega
  · omega

theorem monthLength_le (i : Int) : monthLength i ≤ 31 := by
  have hle : ∀ m, daysInMonth (i / 12) m ≤ 31 := by
    intro m
    unfold daysInMonth
    split
    all_goals (first | omega | (split <;> omega))
  exact hle _

theorem monthStart_succ (i : Int) : monthStart (i + 1) = monthStart i + monthLength i := by
  unfold monthStart monthLength
  by_cases h : i % 12 = 11
  · -- from December to January
    have hyear : (i + 1) / 12 = i / 12 + 1 := by omega
    have hmonth : (i + 1) % 12 = 0 := by omega
    rw [hyear, hmonth, h, daysBeforeYear_succ]
    have hjan : daysBeforeMonth (i / 12 + 1) (0 + 1 : Int).toNat = 0 := rfl
    have hdec : daysBeforeMonth (i / 12) 13
        = daysBeforeMonth (i / 12) (11 + 1 : Int).toNat
          + daysInMonth (i / 12) (11 + 1 : Int).toNat := rfl
    rw [hjan, hdec]
    omega
  · have hyear : (i + 1) / 12 = i / 12 := by omega
    have hmonth : ((i + 1) % 12 + 1).toNat = (i % 12 + 1).toNat + 1 := by omega
    rw [hyear, hmonth, daysBeforeMonth]
    omega

theorem monthStart_strictMono : StrictMono monthStart := by
  apply strictMono_int_of_lt_succ
  intro i
  have := le_monthLength i
  rw [monthStart_succ]
  omega

-- ==== the dates

/-- A date of the calendar. -/
structure Date where
  year : Int
  month : Nat
  day : Nat
  one_le_month : 1 ≤ month
  month_le : month ≤ 12
  one_le_day : 1 ≤ day
  day_le : day ≤ daysInMonth year month
deriving DecidableEq

namespace Date

theorem one_le_june : 1 ≤ 6 := by decide
theorem june_le : 6 ≤ 12 := by decide
theorem one_le_december : 1 ≤ 12 := by decide
theorem one_le_last : 1 ≤ 31 := by decide

def monthIndex (d : Date) : Int := 12 * d.year + d.month - 1

def dayNumber (d : Date) : Int :=
  daysBeforeYear d.year + daysBeforeMonth d.year d.month + d.day - 1

theorem monthIndex_div (d : Date) : d.monthIndex / 12 = d.year := by
  have := d.one_le_month
  have := d.month_le
  unfold monthIndex
  omega

theorem monthIndex_mod (d : Date) : (d.monthIndex % 12 + 1).toNat = d.month := by
  have := d.one_le_month
  have := d.month_le
  unfold monthIndex
  omega

theorem monthLength_monthIndex (d : Date) :
    monthLength d.monthIndex = daysInMonth d.year d.month := by
  unfold monthLength
  rw [monthIndex_div, monthIndex_mod]

theorem dayNumber_eq (d : Date) : d.dayNumber = monthStart d.monthIndex + d.day - 1 := by
  unfold dayNumber monthStart
  rw [monthIndex_div, monthIndex_mod]

/-- The day of the date in another month, or that month's last day where
the month is shorter. -/
def atMonth (d : Date) (i : Int) : Date where
  year := i / 12
  month := (i % 12 + 1).toNat
  day := min d.day (monthLength i)
  one_le_month := by omega
  month_le := by omega
  one_le_day := by
    have := d.one_le_day
    have := le_monthLength i
    omega
  day_le := Nat.min_le_right _ _

@[simp]
theorem monthIndex_atMonth (d : Date) (i : Int) : (d.atMonth i).monthIndex = i := by
  unfold monthIndex atMonth
  simp only
  omega

theorem day_atMonth (d : Date) (i : Int) : (d.atMonth i).day = min d.day (monthLength i) := rfl

theorem monthStart_le (d : Date) : monthStart d.monthIndex ≤ d.dayNumber := by
  have := d.one_le_day
  rw [dayNumber_eq]
  omega

theorem lt_monthStart (d : Date) : d.dayNumber < monthStart (d.monthIndex + 1) := by
  have hday := d.day_le
  rw [monthStart_succ, monthLength_monthIndex, dayNumber_eq]
  omega

variable {d e : Date}

theorem lt_of_monthIndex_lt (h : d.monthIndex < e.monthIndex) : d.dayNumber < e.dayNumber := by
  have hstart : monthStart (d.monthIndex + 1) ≤ monthStart e.monthIndex :=
    monthStart_strictMono.monotone h
  have hd := d.lt_monthStart
  have he := e.monthStart_le
  omega

theorem monthIndex_eq {i : Int} (hlo : monthStart i ≤ d.dayNumber)
    (hhi : d.dayNumber < monthStart (i + 1)) : d.monthIndex = i := by
  have hafter := monthStart_strictMono.lt_iff_lt.1 (d.monthStart_le.trans_lt hhi)
  have hbefore := monthStart_strictMono.lt_iff_lt.1 (hlo.trans_lt d.lt_monthStart)
  omega

theorem ext_monthIndex (hmonth : d.monthIndex = e.monthIndex) (hday : d.day = e.day) : d = e := by
  have hy : d.year = e.year := by
    rw [← monthIndex_div, hmonth, monthIndex_div]
  have hm : d.month = e.month := by
    rw [← monthIndex_mod, hmonth, monthIndex_mod]
  cases d
  cases e
  cases hy
  cases hm
  cases hday
  rfl

theorem dayNumber_injective (h : d.dayNumber = e.dayNumber) : d = e := by
  have hmonth : d.monthIndex = e.monthIndex := by
    rcases lt_trichotomy d.monthIndex e.monthIndex with hlt | heq | hlt
    · have := lt_of_monthIndex_lt hlt
      omega
    · exact heq
    · have := lt_of_monthIndex_lt hlt
      omega
  apply ext_monthIndex hmonth
  rw [dayNumber_eq, dayNumber_eq, hmonth] at h
  omega

theorem lt_iff (d e : Date) :
    d.dayNumber < e.dayNumber ↔ d.year < e.year ∨ d.year = e.year
      ∧ (d.month < e.month ∨ d.month = e.month ∧ d.day < e.day) := by
  have hd := d.month_le
  have he := e.month_le
  have hd' := d.one_le_month
  have he' := e.one_le_month
  rcases lt_trichotomy d.monthIndex e.monthIndex with hlt | heq | hlt
  · have := lt_of_monthIndex_lt hlt
    unfold monthIndex at hlt
    omega
  · have hd := d.dayNumber_eq
    have he := e.dayNumber_eq
    rw [heq] at hd
    unfold monthIndex at heq
    omega
  · have := lt_of_monthIndex_lt hlt
    unfold monthIndex at hlt
    omega

end Date

-- ==== the date of a number

/-- The year of a day: the estimate by the mean length, corrected. -/
def yearOf (n : Int) : Int :=
  let y := n * 400 / 146097 + 1
  if n < daysBeforeYear y then y - 1
  else if daysBeforeYear (y + 1) ≤ n then y + 1
  else y

/-- The estimate is off by one year at most. -/
theorem yearOf_spec (n : Int) :
    daysBeforeYear (yearOf n) ≤ n ∧ n < daysBeforeYear (yearOf n + 1) := by
  have hlow : daysBeforeYear (n * 400 / 146097) ≤ n := by
    unfold daysBeforeYear
    omega
  have hhigh : n < daysBeforeYear (n * 400 / 146097 + 1 + 1 + 1) := by
    unfold daysBeforeYear
    omega
  unfold yearOf
  simp only
  split
  case isTrue h =>
    rw [Int.add_sub_cancel]
    exact ⟨hlow, h⟩
  case isFalse h =>
    split
    case isTrue h' => exact ⟨h', hhigh⟩
    case isFalse h' => exact ⟨by omega, by omega⟩

def monthOf (y : Int) (r : Nat) : Nat :=
  Nat.findGreatest (fun m => daysBeforeMonth y m ≤ r) 12

theorem monthOf_spec {y : Int} {r : Nat} (hr : r < daysBeforeMonth y 13) :
    1 ≤ monthOf y r ∧ monthOf y r ≤ 12
      ∧ daysBeforeMonth y (monthOf y r) ≤ r
      ∧ r < daysBeforeMonth y (monthOf y r + 1) := by
  have hjan : daysBeforeMonth y 1 ≤ r := Nat.zero_le r
  unfold monthOf
  have hone : 1 ≤ Nat.findGreatest (fun m => daysBeforeMonth y m ≤ r) 12 :=
    Nat.le_findGreatest (by omega) hjan
  have hle := Nat.findGreatest_le (P := fun m => daysBeforeMonth y m ≤ r) 12
  have hspec := Nat.findGreatest_spec (m := 1) (n := 12)
    (P := fun m => daysBeforeMonth y m ≤ r) (by omega) hjan
  refine ⟨hone, hle, hspec, ?_⟩
  generalize hm : Nat.findGreatest (fun m => daysBeforeMonth y m ≤ r) 12 = m
    at *
  by_cases hlast : m = 12
  · rw [hlast]
    exact hr
  · apply Nat.lt_of_not_le
    refine Nat.findGreatest_is_greatest (n := 12) (k := m + 1)
      (P := fun m => daysBeforeMonth y m ≤ r) ?_ ?_
    · omega
    · omega

def dayOfYear (n : Int) : Nat := (n - daysBeforeYear (yearOf n)).toNat

theorem dayOfYear_lt (n : Int) : dayOfYear n < daysBeforeMonth (yearOf n) 13 := by
  have hspec := yearOf_spec n
  rw [daysBeforeYear_succ] at hspec
  unfold dayOfYear
  omega

def ofDayNumber (n : Int) : Date :=
  have hm := monthOf_spec (dayOfYear_lt n)
  { year := yearOf n
    month := monthOf (yearOf n) (dayOfYear n)
    day := dayOfYear n - daysBeforeMonth (yearOf n) (monthOf (yearOf n) (dayOfYear n)) + 1
    one_le_month := hm.1
    month_le := hm.2.1
    one_le_day := Nat.le_add_left 1 _
    day_le := by
      have hlt := hm.2.2.2
      rw [daysBeforeMonth] at hlt
      omega }

@[simp]
theorem dayNumber_ofDayNumber (n : Int) : (ofDayNumber n).dayNumber = n := by
  have hspec := yearOf_spec n
  have hm := (monthOf_spec (dayOfYear_lt n)).2.2.1
  have hday : (dayOfYear n : Int) = n - daysBeforeYear (yearOf n) := by
    unfold dayOfYear
    omega
  unfold ofDayNumber Date.dayNumber
  simp only
  omega

@[simp]
theorem ofDayNumber_dayNumber (d : Date) : ofDayNumber d.dayNumber = d :=
  Date.dayNumber_injective (dayNumber_ofDayNumber _)

end OpenStandards.Lib

/-
The periods of a cadence, and how a moment is printed.

`enumerate` saturates at the end of the 64-bit range. Below it the loop
collects whole periods from the first start that is not before `from_`
(`collect_eq`). When `to_` reaches the last two seconds of the range the
loop goes on until it is refused a period that ends before it starts
(`collect_refused`).

A date is printed from the days since a first of March (`exists_date`),
years counted from March so that the leap day is the last of its year.
-/
import OpenStandards.Lib.Calendar
import OpenStandards.Lib.Fallible
import OpenStandards.OpStatements.Writers

namespace OpenStandards.OpStatements

open Lib

-- ==== periods

namespace Cadence

/-- The period behind the first `k` from an anchor. -/
def nth (anchor period k : Nat) : Period :=
  { startUnixSecs := anchor + k * period
    endUnixSecs := anchor + (k + 1) * period - 1 }

/-- The periods from an anchor that lie within two bounds, each beginning
where the one before it ended; a cadence without a length is refused. -/
def Tiles (c : Cadence) (anchor from_ to_ : Nat) : Prop :=
  match c.periodSecs with
  | .error e => c.enumerate anchor from_ to_ = .error e
  | .ok ⟨period, _⟩ => ∃ periods, c.enumerate anchor from_ to_ = .ok periods
      ∧ (∀ q, q ∈ periods ↔ ∃ k, q = nth anchor period k
        ∧ from_ ≤ q.startUnixSecs ∧ q.endUnixSecs ≤ to_)
      ∧ periods.IsChain fun a b => b.startUnixSecs = a.endUnixSecs + 1

/-- Below the end of the range, the loop collects the periods from its start
on that end in time. -/
theorem collect_eq {anchor period to_ : Nat} (hperiod : 0 < period)
    (hto : to_ + 1 < u64Max) (n k : Nat) (out : List Period)
    (hn : n = (to_ + 1 - (anchor + k * period)) / period) :
    collect ⟨period, hperiod⟩ to_ (anchor + k * period) out
      = .ok (out ++ (List.range' k n).map (nth anchor period)) := by
  induction n generalizing k out with
  | zero =>
    have hlast : to_ + 1 < anchor + k * period + period := by
      rcases Nat.div_eq_zero_iff.1 hn.symm with hzero | hlt
      · omega
      · omega
    rw [collect, if_neg]
    · simp
    · unfold satAdd
      dsimp only
      omega
  | succ n ih =>
    have hle : anchor + k * period + period ≤ to_ + 1 := by
      have hdiv := Nat.div_mul_le_self (to_ + 1 - (anchor + k * period)) period
      rw [← hn, Nat.succ_mul] at hdiv
      omega
    have hsat : satAdd (anchor + k * period) period = anchor + (k + 1) * period := by
      unfold satAdd
      rw [Nat.succ_mul]
      omega
    have hnext : n = (to_ + 1 - (anchor + (k + 1) * period)) / period := by
      rw [Nat.div_eq_sub_div hperiod (by omega), Nat.succ.injEq] at hn
      rw [hn, Nat.succ_mul, Nat.sub_sub, Nat.add_assoc]
    have hnew : Period.new (anchor + k * period)
        (anchor + (k + 1) * period - 1) = .ok (nth anchor period k) := by
      unfold Period.new
      rw [if_neg]
      · rfl
      · rw [Nat.succ_mul]
        omega
    rw [collect, if_pos]
    · rw [hsat]
      split
      case h_1 e he =>
        rw [hnew] at he
        cases he
      case h_2 p hp =>
        rw [hnew] at hp
        cases hp
        rw [ih (k + 1) _ hnext, List.range'_succ, List.map_cons, List.append_assoc]
        rfl
    · exact min_le_min_right u64Max hle

theorem collect_refused (period : { secs : Nat // 0 < secs }) {to_ : Nat}
    (hto : u64Max ≤ to_ + 1) (start : Nat) (out : List Period) :
    ∃ e, collect period to_ start out = .error e := by
  induction hleft : u64Max - start using Nat.strong_induction_on generalizing start out with
  | h left ih =>
    subst hleft
    rw [collect, if_pos]
    · split
      case h_1 e _ => exact ⟨e, rfl⟩
      case h_2 p hp =>
        exact ih _ (left_lt period (Period.le_of_new hp)) _ _ rfl
    · unfold satAdd
      omega

variable {c : Cadence}

theorem enumerate_refused {period : { secs : Nat // 0 < secs }}
    (hsecs : c.periodSecs = .ok period) (anchor : Nat) {from_ to_ : Nat}
    (hle : from_ ≤ to_) (hto : u64Max ≤ to_ + 1) :
    ∃ e, c.enumerate anchor from_ to_ = .error e := by
  unfold enumerate
  rw [hsecs, ok_bind, if_neg (Nat.not_lt.2 hle)]
  exact collect_refused period hto _ []

theorem isChain_nth (anchor period k n : Nat) (hperiod : 0 < period) :
    ((List.range' k n).map (nth anchor period)).IsChain
      fun a b => b.startUnixSecs = a.endUnixSecs + 1 := by
  rw [List.isChain_map]
  apply (List.isChain_range' k n 1).imp
  rintro a _ rfl
  show anchor + (a + 1) * period = anchor + (a + 1) * period - 1 + 1
  have hpos : 0 < (a + 1) * period := Nat.mul_pos (Nat.succ_pos a) hperiod
  omega

theorem collect_start {anchor period to_ : Nat} (hperiod : 0 < period)
    (hto : to_ + 1 < u64Max) (k : Nat) :
    collect ⟨period, hperiod⟩ to_ (min (anchor + k * period) u64Max) []
      = .ok ((List.range' k ((to_ + 1 - (anchor + k * period)) / period)).map
        (nth anchor period)) := by
  by_cases hfits : anchor + k * period ≤ u64Max
  · rw [Nat.min_eq_left hfits, collect_eq hperiod hto _ k [] rfl]
    rfl
  · have hzero : to_ + 1 - (anchor + k * period) = 0 := by omega
    rw [hzero, Nat.zero_div, Nat.min_eq_right (by omega), collect, if_neg]
    · rfl
    · unfold satAdd
      omega

/-- What is enumerated below the end of the range, from the first period on
that does not start before `from_`. -/
theorem enumerate_eq {period : Nat} {hperiod : 0 < period}
    (hsecs : c.periodSecs = .ok ⟨period, hperiod⟩) {anchor from_ to_ : Nat}
    (hanchor : anchor ≤ u64Max) (hle : from_ ≤ to_) (hto : to_ + 1 < u64Max) :
    c.enumerate anchor from_ to_
      = .ok ((List.range' ((from_ - anchor + (period - 1)) / period)
        ((to_ + 1 - (anchor + (from_ - anchor + (period - 1)) / period
          * period)) / period)).map (nth anchor period)) := by
  unfold enumerate
  rw [hsecs, ok_bind, if_neg (Nat.not_lt.2 hle), ← collect_start hperiod hto]
  dsimp only
  congr 1
  by_cases hbefore : from_ ≤ anchor
  · have hk : (from_ - anchor + (period - 1)) / period = 0 :=
      Nat.div_eq_of_lt (by omega)
    rw [if_pos hbefore, hk]
    omega
  · rw [if_neg hbefore]
    unfold satAdd satMul
    omega

/-- Only a custom cadence can be without a length. -/
theorem eq_of_periodSecs_error {e : Error} (h : c.periodSecs = .error e) : c = .custom 0 := by
  cases c with
  | daily | weekly | monthly => cases h
  | custom secs =>
    by_cases hpos : 0 < secs.toNat
    · rw [periodSecs, dif_pos hpos] at h
      cases h
    · have hnat : secs.toNat = (0 : UInt64).toNat :=
        Nat.eq_zero_of_not_pos hpos
      rw [UInt64.toNat_inj.1 hnat]

theorem mem_collected {anchor period from_ to_ : Nat} (hperiod : 0 < period)
    {k : Nat} (hk : k = (from_ - anchor + (period - 1)) / period)
    (q : Period) :
    q ∈ (List.range' k ((to_ + 1 - (anchor + k * period)) / period)).map (nth anchor period)
      ↔ ∃ i, q = nth anchor period i ∧ from_ ≤ q.startUnixSecs ∧ q.endUnixSecs ≤ to_ := by
  have hfirst : ∀ i, k ≤ i ↔ from_ ≤ anchor + i * period := by
    intro i
    rw [← Nat.lt_succ_iff, hk, Nat.div_lt_iff_lt_mul hperiod, Nat.succ_mul]
    omega
  have hlast : ∀ j, j < (to_ + 1 - (anchor + k * period)) / period
      ↔ anchor + (k + j + 1) * period - 1 ≤ to_ := by
    intro j
    have hsum : (k + j + 1) * period = k * period + (j + 1) * period := by
      ring
    have hpos : 0 < (j + 1) * period := Nat.mul_pos (Nat.succ_pos j) hperiod
    rw [← Nat.succ_le_iff, Nat.le_div_iff_mul_le hperiod, hsum]
    show (j + 1) * period ≤ _ ↔ _
    omega
  rw [List.mem_map]
  constructor
  · rintro ⟨i, hi, rfl⟩
    obtain ⟨hlo, hhi⟩ := List.mem_range'_1.1 hi
    obtain ⟨j, rfl⟩ := Nat.exists_eq_add_of_le hlo
    exact ⟨k + j, rfl, (hfirst _).1 hlo, (hlast j).1 (by omega)⟩
  · rintro ⟨i, rfl, hfrom, hto⟩
    obtain ⟨j, rfl⟩ := Nat.exists_eq_add_of_le ((hfirst i).2 hfrom)
    refine ⟨k + j, List.mem_range'_1.2 ⟨by omega, ?_⟩, rfl⟩
    have := (hlast j).2 hto
    omega

/-- A cadence enumerates its periods within the bounds exactly if the upper
bound is before the last two seconds of the range. -/
theorem tiles_iff (c : Cadence) (anchor from_ to_ : UInt64) (hle : from_ ≤ to_) :
    c.Tiles anchor.toNat from_.toNat to_.toNat ↔ c = .custom 0 ∨ to_.toNat < 2 ^ 64 - 2 := by
  have hanchor : anchor.toNat ≤ u64Max := Nat.le_of_lt_succ anchor.toNat_lt
  have hbounds : from_.toNat ≤ to_.toNat := UInt64.le_iff_toNat_le.1 hle
  unfold Tiles
  cases hsecs : c.periodSecs with
  | error e =>
    have henum : c.enumerate anchor.toNat from_.toNat to_.toNat = .error e := by
      unfold enumerate
      rw [hsecs]
      rfl
    exact ⟨fun _ => Or.inl (eq_of_periodSecs_error hsecs), fun _ => henum⟩
  | ok secs =>
    obtain ⟨period, hperiod⟩ := secs
    have hne : c ≠ .custom 0 := by
      rintro rfl
      cases hsecs
    constructor
    · rintro ⟨periods, hok, -⟩
      refine Or.inr (Nat.not_le.1 fun hto => ?_)
      obtain ⟨e, he⟩ := enumerate_refused hsecs anchor.toNat hbounds (Nat.succ_le_succ hto)
      rw [he] at hok
      cases hok
    · rintro (hzero | hto)
      · exact absurd hzero hne
      · refine ⟨_, enumerate_eq hsecs hanchor hbounds ?_,
          mem_collected hperiod rfl, isChain_nth _ _ _ _ hperiod⟩
        exact Nat.succ_lt_succ hto

/-- A bound in the last second of the range is refused. -/
theorem lastSecond_refused :
    ¬ ∀ (c : Cadence) (anchor from_ to_ : UInt64), from_ ≤ to_ →
      c.Tiles anchor.toNat from_.toNat to_.toNat := by
  intro h
  have hle : (0 : UInt64) ≤ UInt64.ofNat u64Max :=
    UInt64.le_iff_toNat_le.2 (Nat.zero_le _)
  have hto : u64Max ≤ (UInt64.ofNat u64Max).toNat + 1 := by
    rw [UInt64.toNat_ofNat_of_lt' (Nat.lt_succ_self u64Max)]
    exact Nat.le_succ u64Max
  obtain ⟨periods, hok, -⟩ := h .daily 0 0 (UInt64.ofNat u64Max) hle
  obtain ⟨e, he⟩ := enumerate_refused (c := .daily) rfl 0 hle hto
  exact absurd (he.symm.trans hok) nofun

/-- Three weeks. -/
theorem threeWeeks_tiles : Cadence.weekly.Tiles 0 1 2000000 :=
  (tiles_iff .weekly 0 1 2000000 (by decide)).2 (Or.inr (by decide))

end Cadence

-- ==== dates

/-- The days of an era before a year of it, counted from March. -/
def marchStart (y : Nat) : Nat := 365 * y + y / 4 - y / 100 + y / 400

def withoutLeapDays (doe : Nat) : Nat :=
  doe - doe / 1460 + doe / 36524 - doe / 146096

theorem withoutLeapDays_mono {a b : Nat} (h : a ≤ b) (hb : b < 146097) :
    withoutLeapDays a ≤ withoutLeapDays b := by
  unfold withoutLeapDays
  omega

theorem years_of_era : ∀ y < 400,
    365 * y ≤ withoutLeapDays (marchStart y)
      ∧ withoutLeapDays (marchStart (y + 1) - 1) < 365 * (y + 1)
      ∧ marchStart y < marchStart (y + 1)
      ∧ marchStart (y + 1) ≤ marchStart y + 366
      ∧ (marchStart (y + 1) = marchStart y + 366 →
        (y + 1) % 4 = 0 ∧ ((y + 1) % 100 ≠ 0 ∨ (y + 1) % 400 = 0)) := by
  decide +kernel

theorem year_of_era {doe y : Nat} (hdoe : doe < 146097) (hy : y = withoutLeapDays doe / 365) :
    y < 400 ∧ marchStart y ≤ doe ∧ doe < marchStart (y + 1) := by
  have hlt : y < 400 := by
    have hle : withoutLeapDays doe ≤ 145999 :=
      withoutLeapDays_mono (b := 146096) (by omega) (by decide)
    omega
  refine ⟨hlt, Nat.not_lt.1 fun hbefore => ?_, Nat.not_le.1 fun hafter => ?_⟩
  · cases y with
    | zero => exact Nat.not_lt_zero _ hbefore
    | succ y =>
      have hend := (years_of_era y (by omega)).2.1
      have hbound : marchStart (y + 1) ≤ 146097 := by
        unfold marchStart
        omega
      have hmono := withoutLeapDays_mono (a := doe)
        (b := marchStart (y + 1) - 1) (by omega) (by omega)
      omega
  · by_cases hlast : y + 1 = 400
    · rw [hlast] at hafter
      exact absurd hdoe (Nat.not_lt.2 hafter)
    · have hstart := (years_of_era (y + 1) (by omega)).1
      have hmono := withoutLeapDays_mono hafter hdoe
      omega

variable {mp yoe : Nat}

theorem daysBeforeMonth_march (y : Int) (h : mp < 10) :
    daysBeforeMonth y (mp + 3) = 59 + (153 * mp + 2) / 5 + if isLeap y then 1 else 0 := by
  interval_cases mp
  all_goals
    simp only [daysBeforeMonth, daysInMonth]
    split
    all_goals rfl

theorem daysInMonth_march (y : Int) (h : mp < 10) :
    daysInMonth y (mp + 3) + (153 * mp + 2) / 5 = (153 * (mp + 1) + 2) / 5 := by
  interval_cases mp
  all_goals rfl

theorem date_of_march {y doy : Nat} (hmp : mp = (5 * doy + 2) / 153)
    (hdoy : doy ≤ 365) (hleap : doy = 365 → isLeap (y + 1 : Nat) = true) :
    ∃ d : Date, d.year = ((if mp < 10 then y else y + 1 : Nat) : Int)
      ∧ d.month = (if mp < 10 then mp + 3 else mp - 9)
      ∧ d.day = doy - (153 * mp + 2) / 5 + 1
      ∧ d.dayNumber + 306 = daysBeforeYear (y + 1 : Nat) + doy := by
  have hmonth : (153 * mp + 2) / 5 ≤ doy ∧ doy < (153 * (mp + 1) + 2) / 5 ∧ mp < 12 := by omega
  by_cases hmarch : mp < 10
  · have hbefore := daysBeforeMonth_march y hmarch
    have hlength := daysInMonth_march y hmarch
    have hsucc := daysBeforeYear_succ y
    rw [daysBeforeMonth_13] at hsucc
    refine ⟨⟨y, mp + 3, doy - (153 * mp + 2) / 5 + 1, by omega, by omega,
      by omega, by omega⟩, ?_, ?_, rfl, ?_⟩
    · rw [if_pos hmarch]
    · rw [if_pos hmarch]
    · unfold Date.dayNumber
      dsimp only
      rw [hbefore]
      push_cast
      split_ifs at hsucc ⊢
      all_goals
        push_cast at hsucc ⊢
        omega
  · obtain rfl | rfl : mp = 10 ∨ mp = 11 := by omega
    · refine ⟨⟨(y + 1 : Nat), 1, doy - 306 + 1, by omega, by omega, by omega,
        ?_⟩, rfl, rfl, rfl, ?_⟩
      · show doy - 306 + 1 ≤ 31
        omega
      · unfold Date.dayNumber
        have hjan : daysBeforeMonth (y + 1 : Nat) 1 = 0 := rfl
        dsimp only
        rw [hjan]
        omega
    · refine ⟨⟨(y + 1 : Nat), 2, doy - 337 + 1, by omega, by omega, by omega,
        ?_⟩, rfl, rfl, rfl, ?_⟩
      · show doy - 337 + 1 ≤ if isLeap (y + 1 : Nat) then 29 else 28
        split
        case isTrue => omega
        case isFalse hno =>
          have : doy ≠ 365 := fun h => hno (hleap h)
          omega
      · unfold Date.dayNumber
        have hfeb : daysBeforeMonth (y + 1 : Nat) 2 = 31 := rfl
        dsimp only
        rw [hfeb]
        omega

/-- A year of an era, counted from March, ends with the February of the
next one. -/
theorem daysBeforeYear_era (hyoe : yoe < 400) (era : Nat) :
    daysBeforeYear (yoe + era * 400 + 1 : Nat) = (era * 146097 + marchStart yoe : Nat) := by
  unfold daysBeforeYear marchStart
  omega

theorem isLeap_era (era : Nat) (h : (yoe + 1) % 4 = 0
      ∧ ((yoe + 1) % 100 ≠ 0 ∨ (yoe + 1) % 400 = 0)) :
    isLeap (yoe + era * 400 + 1 : Nat) = true := by
  rw [isLeap_iff]
  omega

theorem exists_date (days : Nat) {era doe doy : Nat}
    (hera : era = (days + 719468) / 146097) (hdoe : doe = days + 719468 - era * 146097)
    (hyoe : yoe = (doe - doe / 1460 + doe / 36524 - doe / 146096) / 365)
    (hdoy : doy = doe - (365 * yoe + yoe / 4 - yoe / 100)) (hmp : mp = (5 * doy + 2) / 153) :
    ∃ d : Date, d.dayNumber = days + 719162
      ∧ d.year = ((if mp < 10 then yoe + era * 400
          else yoe + era * 400 + 1 : Nat) : Int)
      ∧ d.month = (if mp < 10 then mp + 3 else mp - 9)
      ∧ d.day = doy - (153 * mp + 2) / 5 + 1 := by
  have hsplit : days + 719468 = era * 146097 + doe ∧ doe < 146097 := by omega
  obtain ⟨hlt, hstart, hend⟩ := year_of_era hsplit.2 hyoe
  obtain ⟨-, -, -, hlong, hleap⟩ := years_of_era yoe hlt
  have hyear : 365 * yoe + yoe / 4 - yoe / 100 = marchStart yoe := by
    unfold marchStart
    omega
  rw [hyear] at hdoy
  have hlast : doy = 365 → isLeap (yoe + era * 400 + 1 : Nat) = true := by
    intro h
    apply isLeap_era
    apply hleap
    clear hyoe hera hdoe hmp hyear
    omega
  have hdays := daysBeforeYear_era hlt era
  clear hyoe hera hdoe hyear
  obtain ⟨d, hdyear, hdmonth, hdday, hnumber⟩ :=
    date_of_march hmp (by omega) hlast
  refine ⟨d, ?_, hdyear, hdmonth, hdday⟩
  rw [hdays] at hnumber
  clear hmp
  omega

-- ==== moments

/-- A second of a day. -/
structure Moment where
  date : Date
  hour : Nat
  minute : Nat
  second : Nat
  hour_lt : hour < 24
  minute_lt : minute < 60
  second_lt : second < 60

namespace Moment

def unixSecs (m : Moment) : Int :=
  (m.date.dayNumber - 719162) * 86400 + m.hour * 3600 + m.minute * 60 + m.second

def text (m : Moment) : Text :=
  Text.zeroPad 4 m.date.year.toNat ++ ['-'] ++ Text.zeroPad 2 m.date.month
    ++ ['-'] ++ Text.zeroPad 2 m.date.day ++ ['T'] ++ Text.zeroPad 2 m.hour
    ++ [':'] ++ Text.zeroPad 2 m.minute ++ [':'] ++ Text.zeroPad 2 m.second
    ++ ['Z']

/-- The fields, the longest unit first. -/
def fields (m : Moment) : List Int :=
  [m.date.year, m.date.month, m.date.day, m.hour, m.minute, m.second]

theorem lt_iff (m m' : Moment) : m.unixSecs < m'.unixSecs ↔ m.fields < m'.fields := by
  have hdays := Date.lt_iff m.date m'.date
  have hsame := Date.lt_iff m'.date m.date
  have := m.hour_lt
  have := m.minute_lt
  have := m.second_lt
  have := m'.hour_lt
  have := m'.minute_lt
  have := m'.second_lt
  unfold unixSecs fields
  simp only [List.cons_lt_cons_iff, List.not_lt_nil, and_false, or_false]
  omega

end Moment

theorem zeroPad_cut {w n n' : Nat} {c : Char} (hc : c.isDigit = false) {x y : Text}
    (h : Text.zeroPad w n ++ c :: x = Text.zeroPad w n' ++ c :: y) :
    n = n' ∧ x = y := by
  have hmem : ∀ k, c ∉ Text.zeroPad w k := by
    intro k hk
    rw [Text.isDigit_zeroPad hk] at hc
    cases hc
  obtain ⟨htext, hrest⟩ := Labelled.cut_at_first (hmem n) (hmem n') h
  refine ⟨?_, hrest⟩
  rw [← Text.number_zeroPad w n, htext, Text.number_zeroPad]

/-- A moment after 1970 is known by what is printed. -/
theorem Moment.text_injective {m m' : Moment} (hm : 0 ≤ m.date.year)
    (hm' : 0 ≤ m'.date.year) (h : m.text = m'.text) :
    m.unixSecs = m'.unixSecs := by
  unfold Moment.text at h
  simp only [List.append_assoc, List.singleton_append] at h
  obtain ⟨hyear, h⟩ := zeroPad_cut rfl h
  obtain ⟨hmonth, h⟩ := zeroPad_cut rfl h
  obtain ⟨hday, h⟩ := zeroPad_cut rfl h
  obtain ⟨hhour, h⟩ := zeroPad_cut rfl h
  obtain ⟨hminute, h⟩ := zeroPad_cut rfl h
  obtain ⟨hsecond, -⟩ := zeroPad_cut rfl h
  have hdate : m.date.dayNumber = m'.date.dayNumber := by
    have hy : m.date.year = m'.date.year := by omega
    unfold Date.dayNumber
    rw [hy, hmonth, hday]
  unfold Moment.unixSecs
  rw [hdate, hhour, hminute, hsecond]

theorem exists_moment (t : Nat) :
    ∃ m : Moment, unixToIso8601 t = m.text ∧ m.unixSecs = t ∧ 0 ≤ m.date.year := by
  unfold unixToIso8601
  extract_lets days hms z era doe yoe y doy mp d m y'
  obtain ⟨date, hnumber, hyear, hmonth, hday⟩ :=
    exists_date days (rfl : era = _) (rfl : doe = _) (rfl : yoe = _)
      (rfl : doy = _) (rfl : mp = _)
  have hy : date.year.toNat = y' := by
    by_cases hmp : mp < 10
    · have hm : m = mp + 3 := if_pos hmp
      have hy' : y' = y := if_neg (by omega)
      rw [hyear, if_pos hmp, hy']
      rfl
    · have hm : m = mp - 9 := if_neg hmp
      have hlt : mp < 12 := by omega
      have hy' : y' = y + 1 := if_pos (by omega)
      rw [hyear, if_neg hmp, hy']
      rfl
  have hpast : 0 ≤ date.year := by
    rw [hyear]
    exact Int.natCast_nonneg _
  have hhms : hms < 86400 := Nat.mod_lt t (by decide)
  have hsum : days * 86400 + hms = t := Nat.div_add_mod' t 86400
  refine ⟨⟨date, hms / 3600, hms % 3600 / 60, hms % 60, by omega, by omega,
    by omega⟩, ?_, ?_, hpast⟩
  · unfold Moment.text
    rw [hy, hmonth, hday]
  · unfold Moment.unixSecs
    dsimp only
    rw [hnumber]
    clear hyear hmonth hday hy
    clear_value days hms
    omega

/-- Every time is printed as a date and a time of day of the calendar that
it is the seconds of; different times are printed differently, and later
ones as later moments. -/
theorem unixToIso8601_exact :
    (∀ t : UInt64, ∃ m : Moment, unixToIso8601 t.toNat = m.text ∧ m.unixSecs = t.toNat)
    ∧ (Function.Injective fun t : UInt64 => unixToIso8601 t.toNat)
    ∧ ∀ (t t' : UInt64) (m m' : Moment), m.unixSecs = t.toNat →
      m'.unixSecs = t'.toNat → (t < t' ↔ m.fields < m'.fields) := by
  refine ⟨?_, ?_, ?_⟩
  · intro t
    obtain ⟨m, htext, hsecs, -⟩ := exists_moment t.toNat
    exact ⟨m, htext, hsecs⟩
  · intro t t' h
    obtain ⟨m, htext, hsecs, hyear⟩ := exists_moment t.toNat
    obtain ⟨m', htext', hsecs', hyear'⟩ := exists_moment t'.toNat
    have heq := Moment.text_injective hyear hyear' (by
      rw [← htext, ← htext']
      exact h)
    apply UInt64.toNat_inj.1
    omega
  · intro t t' m m' hm hm'
    rw [← Moment.lt_iff, hm, hm', UInt64.lt_iff_toNat_lt]
    omega

end OpenStandards.OpStatements

/-
Straight-line schedules and the calendar.

A monthly schedule (`Monthly`) is read off by one induction over the months:
its dates, its months, the days its entries cover and what they book. The
loop makes such a schedule where the period ends before the last month of
the calendar (`straightLine_ok`). In that month it has no end
(`straightLine_endless`).
-/
import OpenStandards.OpRevrec.Proofs.Schedule
import Mathlib.Data.Int.Range

namespace OpenStandards.OpRevrec

open Lib OpCore

-- ==== integers

theorem intRange_append {a b c : Int} (hab : a ≤ b) (hbc : b ≤ c) :
    Int.range a b ++ Int.range b c = Int.range a c := by
  have hlen : (c - a).toNat = (b - a).toNat + (c - b).toNat := by omega
  unfold Int.range
  rw [hlen, List.range_add, List.map_append, List.map_map]
  refine congrArg _ (List.map_congr_left fun r _ => ?_)
  show b + (r : Int) = a + (((b - a).toNat + r : Nat) : Int)
  omega

theorem intRange_singleton (a : Int) : Int.range a (a + 1) = [a] := by
  have hlen : (a + 1 - a).toNat = 1 := by omega
  unfold Int.range
  rw [hlen]
  exact congrArg (· :: []) (add_zero a)

-- ==== the calendar

/-- The first and the last of the days each entry covers: from the day
after the entry before it, or `first`, to its own date. -/
def covered : Int → List ScheduleEntry → List (Int × Int)
  | _, [] => []
  | first, e :: es =>
    (first, e.date.number) :: covered (e.date.number + 1) es

def days (period : Int × Int) : List Int := Int.range period.1 (period.2 + 1)

/-- The schedule of the period from `start` to `finish`, as the calendar
has it. -/
structure CalendarExact (start finish : NaiveDate) (allocated : I64)
    (entries : List ScheduleEntry) : Prop where
  increasing : (entries.map ScheduleEntry.date).Pairwise (· < ·)
  months : (entries.map fun e => e.date.date.monthIndex)
    = Int.range start.date.monthIndex (finish.date.monthIndex + 1)
  monthEnds : ∀ e ∈ entries.dropLast, IsMonthEnd e.date
  ends : entries.getLast?.map ScheduleEntry.date = some finish
  someDays : ∀ period ∈ covered start.number entries, period.1 ≤ period.2
  partition : (covered start.number entries).flatMap days = days (start.number, finish.number)
  amounts : ∀ p ∈ (entries.zip (covered start.number entries)).dropLast,
    p.1.amountMinor.val = (allocated.val * (p.2.2 - p.2.1 + 1)).tdiv
      (finish.number - start.number + 1)
  sum : sumOf entries = allocated.val
  sign : ∀ e ∈ entries, (0 ≤ allocated.val → 0 ≤ e.amountMinor.val)
    ∧ (allocated.val ≤ 0 → e.amountMinor.val ≤ 0)

namespace Monthly

variable {finish first : NaiveDate} {allocated : I64} {totalDays : Int}
  {es : List ScheduleEntry}

theorem ne_nil (h : Monthly finish allocated totalDays first es) : es ≠ [] := by
  cases h with
  | last => exact List.cons_ne_nil _ _
  | month => exact List.cons_ne_nil _ _

theorem first_le (h : Monthly finish allocated totalDays first es) :
    first.number ≤ finish.number := by
  induction h with
  | last hle => exact hle
  | month hle _ _ _ hnext _ _ ih => omega

theorem index_le (h : Monthly finish allocated totalDays first es) :
    first.date.monthIndex ≤ finish.date.monthIndex := by
  induction h with
  | last _ hmonth => exact hmonth.le
  | month _ _ _ _ _ hindex _ ih => omega

theorem le_date (h : Monthly finish allocated totalDays first es) :
    ∀ e ∈ es, first.number ≤ e.date.number := by
  induction h with
  | last hle _ hdate =>
    intro e he
    rw [List.mem_singleton.1 he, hdate]
    exact hle
  | month hle _ _ _ hnext _ _ ih =>
    intro e he
    rcases List.mem_cons.1 he with rfl | he
    · exact hle
    · have := ih e he
      omega

theorem increasing (h : Monthly finish allocated totalDays first es) :
    (es.map ScheduleEntry.date).Pairwise (· < ·) := by
  induction h with
  | last => exact List.pairwise_singleton _ _
  | month _ _ _ _ hnext _ hrest ih =>
    rw [List.map_cons, List.pairwise_cons]
    refine ⟨fun d hd => ?_, ih⟩
    obtain ⟨e', he', rfl⟩ := List.mem_map.1 hd
    have hlater := hrest.le_date e' he'
    show _ < e'.date.number
    omega

theorem months (h : Monthly finish allocated totalDays first es) :
    (es.map fun e => e.date.date.monthIndex)
      = Int.range first.date.monthIndex (finish.date.monthIndex + 1) := by
  induction h with
  | last _ hmonth hdate =>
    rw [List.map_singleton, hdate, hmonth, intRange_singleton]
  | @month first next e es _ hmonth _ _ _ hindex hrest ih =>
    have hle := hrest.index_le
    rw [List.map_cons, ih, hmonth, hindex,
      ← intRange_append (Int.le_add_one (le_refl first.date.monthIndex))
        (by omega), intRange_singleton]
    rfl

theorem monthEnds (h : Monthly finish allocated totalDays first es) :
    ∀ e ∈ es.dropLast, IsMonthEnd e.date := by
  induction h with
  | last => exact fun e he => nomatch he
  | month _ _ hend _ _ _ hrest ih =>
    intro e he
    rw [List.dropLast_cons_of_ne_nil hrest.ne_nil] at he
    rcases List.mem_cons.1 he with rfl | he
    · exact hend
    · exact ih e he

theorem ends (h : Monthly finish allocated totalDays first es) :
    es.getLast?.map ScheduleEntry.date = some finish := by
  induction h with
  | last _ _ hdate => exact congrArg some hdate
  | month _ _ _ _ _ _ hrest ih =>
    obtain ⟨e', es', hes⟩ := List.exists_cons_of_ne_nil hrest.ne_nil
    rw [hes] at ih ⊢
    rw [List.getLast?_cons_cons]
    exact ih

theorem someDays (h : Monthly finish allocated totalDays first es) :
    ∀ period ∈ covered first.number es, period.1 ≤ period.2 := by
  induction h with
  | last hle _ hdate =>
    intro period hperiod
    rw [List.mem_singleton.1 hperiod]
    exact hdate ▸ hle
  | month hle _ _ _ hnext _ _ ih =>
    intro period hperiod
    rw [covered, ← hnext] at hperiod
    rcases List.mem_cons.1 hperiod with rfl | hperiod
    · exact hle
    · exact ih period hperiod

theorem partition (h : Monthly finish allocated totalDays first es) :
    (covered first.number es).flatMap days = days (first.number, finish.number) := by
  induction h with
  | last _ _ hdate =>
    rw [covered, covered, List.flatMap_singleton, hdate]
  | month hle _ _ _ hnext _ hrest ih =>
    have hrestLe := hrest.first_le
    rw [covered, List.flatMap_cons, ← hnext, ih]
    unfold days
    rw [← hnext]
    exact intRange_append (by omega) (by omega)

theorem amounts (h : Monthly finish allocated totalDays first es) :
    ∀ p ∈ (es.zip (covered first.number es)).dropLast,
      p.1.amountMinor.val = (allocated.val * (p.2.2 - p.2.1 + 1)).tdiv totalDays := by
  induction h with
  | last => exact fun p hp => nomatch hp
  | month _ _ _ hamount hnext _ hrest ih =>
    intro p hp
    obtain ⟨e', es', hes⟩ := List.exists_cons_of_ne_nil hrest.ne_nil
    rw [covered, ← hnext, List.zip_cons_cons, List.dropLast_cons_of_ne_nil
      (by rw [hes]; exact List.cons_ne_nil _ _)] at hp
    rcases List.mem_cons.1 hp with rfl | hp
    · exact hamount
    · exact ih p hp

theorem sign (h : Monthly finish allocated totalDays first es) (hpos : 0 < totalDays) :
    ∀ e ∈ es.dropLast, (0 ≤ allocated.val → 0 ≤ e.amountMinor.val)
      ∧ (allocated.val ≤ 0 → e.amountMinor.val ≤ 0) := by
  induction h with
  | last => exact fun e he => nomatch he
  | @month first next e es hle _ _ hamount _ _ hrest ih =>
    intro e' he'
    rw [List.dropLast_cons_of_ne_nil hrest.ne_nil] at he'
    rcases List.mem_cons.1 he' with rfl | he'
    · have hdays : 0 ≤ e'.date.number - first.number + 1 := by omega
      have hpart := Part.tdiv allocated.val hpos hdays
      rw [hamount]
      exact ⟨fun hT => (hpart.of_nonneg hT).1,
        fun hT => (hpart.of_nonpos hT).1⟩
    · exact ih e' he'

theorem calendarExact {start : NaiveDate} {init : List ScheduleEntry} {e : ScheduleEntry}
    (h : Monthly finish allocated (finish.number - start.number + 1) start
      (init ++ [e])) (hplug : e.amountMinor.val = allocated.val - sumOf init)
    (hinit : Between allocated.val (sumOf init)) :
    CalendarExact start finish allocated (init ++ [e]) where
  increasing := h.increasing
  months := h.months
  monthEnds := h.monthEnds
  ends := h.ends
  someDays := h.someDays
  partition := h.partition
  amounts := h.amounts
  sum := by
    rw [sumOf_append, sumOf_singleton, hplug]
    omega
  sign := by
    have hle := h.first_le
    have hsign := h.sign (by omega)
    rw [List.dropLast_concat] at hsign
    intro e' he'
    rcases List.mem_append.1 he' with he' | he'
    · exact hsign e' he'
    · rw [List.mem_singleton.1 he', hplug]
      constructor
      · intro hT
        have := hinit.1 hT
        omega
      · intro hT
        have := hinit.2 hT
        omega

end Monthly

-- ==== the last month

theorem number_lastDayOfMonth_last {d : NaiveDate} (h : ¬ BeforeLastMonth d) :
    (lastDayOfMonth d).number = d.number - 1 := by
  have hle := d.le_max
  have htwelve := d.date.month_le
  unfold BeforeLastMonth endOfTime Date.monthIndex at h
  have hyear : d.date.year = 262142 := by omega
  have hmonth : d.date.month = 12 := by omega
  have hnone : NaiveDate.fromYmdOpt (d.date.year + 1) 1 1 = none := by
    rw [hyear]
    rfl
  -- some day is earlier, so the day before is a date
  let early : NaiveDate :=
    ⟨⟨262142, 1, 1, by decide, by decide, by decide, by decide⟩, by decide, by decide⟩
  have hearly : early.number < d.number := by
    apply Date.lt_of_monthIndex_lt
    unfold Date.monthIndex
    rw [hyear, hmonth]
    decide
  have hhi := number_lt_endOfTime d
  obtain ⟨p, hp, hnumber⟩ : ∃ p, d.predOpt = some p ∧ p.number = d.number - 1 := by
    apply exists_number_eq (a := early)
    · omega
    · omega
  unfold lastDayOfMonth
  simp only [if_pos hmonth, hnone, Option.getD_none, hp, Option.getD_some]
  exact hnumber

section
variable (id : ObligationId) (currency : Currency)
  {start finish : NaiveDate} {allocated : I64} {totalDays : Int}

theorem straightLineTurn_endless (hfinish : ¬ BeforeLastMonth finish)
    (htotal : totalDays = finish.number - start.number + 1) {s : LineState}
    (hinv : LineInv start allocated totalDays s) (hle : s.cursor.number ≤ finish.number) :
    ∃ s', LineInv start allocated totalDays s'
      ∧ s'.cursor.number ≤ finish.number
      ∧ straightLineTurn id finish allocated currency totalDays s = .next s' := by
  -- the "last day of the month" is in the period, from the day before the
  -- cursor on
  obtain ⟨hlo, hlt⟩ : s.cursor.number ≤ (lastDayOfMonth s.cursor).number + 1
      ∧ (lastDayOfMonth s.cursor).number < finish.number := by
    by_cases hcursor : BeforeLastMonth s.cursor
    · have hin := s.cursor.date.lt_monthStart
      have hfrom := finish.date.monthStart_le
      have hmonth : s.cursor.date.monthIndex + 1 ≤ finish.date.monthIndex := by
        unfold BeforeLastMonth at hcursor hfinish
        omega
      have hstart := monthStart_strictMono.monotone hmonth
      rw [number_lastDayOfMonth hcursor]
      unfold NaiveDate.number
      omega
    · rw [number_lastDayOfMonth_last hcursor]
      omega
  obtain ⟨d, hd, hdnumber⟩ : ∃ d, (lastDayOfMonth s.cursor).succOpt = some d
      ∧ d.number = (lastDayOfMonth s.cursor).number + 1 := by
    have hhi := number_lt_endOfTime finish
    apply exists_number_eq (a := s.cursor)
    · omega
    · omega
  obtain ⟨s', -, hinv', hs', hturn⟩ := straightLineTurn_books id currency
    htotal hinv hle (if_pos hlt) hlo hlt.le hd hdnumber
  have hnot : ¬ finish < d := by
    show ¬ finish.number < d.number
    omega
  rw [if_neg hnot] at hturn
  refine ⟨s', hinv', ?_, hturn⟩
  rw [hs']
  omega

theorem straightLineLoop_endless (hfinish : ¬ BeforeLastMonth finish)
    (htotal : totalDays = finish.number - start.number + 1) (fuel : Nat) :
    ∀ {s : LineState}, LineInv start allocated totalDays s →
      s.cursor.number ≤ finish.number →
      straightLineLoop id finish allocated currency totalDays fuel s = none := by
  induction fuel with
  | zero => exact fun _ _ => rfl
  | succ fuel ih =>
    intro s hinv hle
    obtain ⟨s', hinv', hle', hturn⟩ :=
      straightLineTurn_endless id currency hfinish htotal hinv hle
    unfold straightLineLoop
    rw [hturn]
    exact ih hinv' hle'

/-- No number of turns is enough for a period that ends in the last
month. -/
theorem straightLine_endless (allocated : I64)
    (hle : start.number ≤ finish.number) (hfinish : ¬ BeforeLastMonth finish) (fuel : Nat) :
    straightLine fuel id start finish allocated currency = none := by
  have hinv : LineInv start allocated (finish.number - start.number + 1)
      { cursor := start, assigned := 0, entries := [] } := by
    refine ⟨le_refl _, ?_, rfl⟩
    rw [Int.sub_self]
    exact Part.zero _ _
  unfold straightLine NaiveDate.numDays
  rw [if_neg (show ¬ finish < start from not_lt.2 hle),
    if_neg (by omega),
    straightLineLoop_endless id currency hfinish rfl fuel hinv hle]
  rfl

end

-- ==== the main result

def ScheduledByMonth (id : ObligationId) (start finish : NaiveDate)
    (allocated : I64) (currency : Currency) : Prop :=
  ∃ entries, (∃ enough, ∀ fuel, enough ≤ fuel →
      straightLine fuel id start finish allocated currency = some (.ok entries))
    ∧ CalendarExact start finish allocated entries

/-- **Straight-line schedules are calendar-exact** exactly where the period
ends before the last month of the date library's calendar. -/
theorem scheduledByMonth_iff (id : ObligationId) (start finish : NaiveDate)
    (hle : start ≤ finish) (allocated : I64) (currency : Currency) :
    ScheduledByMonth id start finish allocated currency ↔ BeforeLastMonth finish := by
  constructor
  · rintro ⟨entries, ⟨enough, hline⟩, -⟩
    by_contra hfinish
    have hnone := straightLine_endless id currency allocated hle hfinish enough
    rw [hline enough (le_refl _)] at hnone
    cases hnone
  · intro hfinish
    obtain ⟨init, e, hmonthly, hplug, hinit, hline⟩ :=
      straightLine_ok id currency allocated hle hfinish
    refine ⟨init ++ [e], ⟨(finish.number - start.number + 1).toNat,
      fun fuel hfuel => hline fuel ?_⟩, hmonthly.calendarExact hplug hinit⟩
    omega

/-- From the middle of January to the tenth of March. -/
theorem winter_scheduledByMonth :
    ScheduledByMonth ⟨"service"⟩
      ⟨⟨2026, 1, 15, by decide, by decide, by decide, by decide⟩, by decide, by decide⟩
      ⟨⟨2026, 3, 10, by decide, by decide, by decide, by decide⟩, by decide,
        by decide⟩ ⟨-1000, by decide⟩ .USD :=
  (scheduledByMonth_iff _ _ _ (by decide) _ _).2 (by decide)

def lastDay : NaiveDate :=
  ⟨⟨262142, 12, 31, Date.one_le_december, by decide, Date.one_le_last,
    by decide⟩, by decide, by decide⟩

/-- A period of that day alone: the loop stays on it. -/
theorem lastDay_never_scheduled :
    lastDay ≤ lastDay
      ∧ ¬ ScheduledByMonth ⟨"service"⟩ lastDay lastDay ⟨1000, by decide⟩ .USD := by
  refine ⟨by decide, ?_⟩
  rintro ⟨entries, ⟨enough, hline⟩, -⟩
  have hnone : straightLine enough ⟨"service"⟩ lastDay lastDay
      ⟨1000, by decide⟩ .USD = none :=
    straightLine_endless _ _ _ (le_refl _) (by decide) enough
  rw [hline enough (le_refl _)] at hnone
  cases hnone

end OpenStandards.OpRevrec

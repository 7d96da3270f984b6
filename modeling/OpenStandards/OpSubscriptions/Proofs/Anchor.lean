/-
Which day of the month a period ends on.

The end of the next period is computed from the end of the last, so after
`n` rollovers the day is the smallest of the start's day and the lengths of
the `n + 1` months the periods ended in. It is the start's day, clamped to
the target month alone, exactly where none of the earlier months is shorter
(`keepsAnchor_iff`).
-/
import OpenStandards.OpSubscriptions.Subscription

namespace OpenStandards.OpSubscriptions

open Lib OpCore
open OpLedger (Uuid)

-- ==== the month arithmetic

/-- The number of the first month past the range of dates. -/
def endOfTime : Int := 12 * 10000

variable {y : Int} {m : Nat} {d : Date}

theorem fromCalendarDate_first (hone : 1 ≤ m) (htwelve : m ≤ 12) :
    fromCalendarDate y m 1 = some d
      ↔ (-9999 ≤ y ∧ y ≤ 9999) ∧ d.monthIndex = 12 * y + m - 1 ∧ d.day = 1 := by
  have hday : 1 ≤ daysInMonth y m := by
    have := le_daysInMonth y hone htwelve
    omega
  unfold fromCalendarDate
  rw [dif_pos ⟨hone, htwelve, le_refl 1, hday⟩]
  by_cases hrange : -9999 ≤ y ∧ y ≤ 9999
  · rw [if_pos hrange, Option.some.injEq]
    constructor
    · intro h
      subst h
      exact ⟨hrange, rfl, rfl⟩
    · intro h
      exact Date.ext_monthIndex h.2.1.symm h.2.2.symm
  · rw [if_neg hrange]
    exact iff_of_false nofun fun h => hrange h.1

theorem daysInMonth?_eq_some (hone : 1 ≤ m) (htwelve : m ≤ 12) {days : Nat}
    (h : daysInMonth? y m = some days) :
    -9999 ≤ y ∧ 12 * y + m < endOfTime ∧ days = monthLength (12 * y + m - 1) := by
  unfold daysInMonth? at h
  rcases Option.bind_eq_some_iff.1 h with ⟨next, hnext, h₁⟩
  rcases Option.bind_eq_some_iff.1 h₁ with ⟨this, hthis, h₂⟩
  rw [fromCalendarDate_first hone htwelve] at hthis
  rcases hthis with ⟨hrange, hmonth, hday⟩
  have hnextMonth : (if m = 12 then y + 1 else y) ≤ 9999
      ∧ next.monthIndex = 12 * y + m ∧ next.day = 1 := by
    by_cases hdec : m = 12
    · rw [if_pos hdec, if_pos hdec, fromCalendarDate_first (le_refl 1) (by omega)] at hnext
      rw [if_pos hdec]
      omega
    · rw [if_neg hdec, if_neg hdec, fromCalendarDate_first (by omega) (by omega)] at hnext
      rw [if_neg hdec]
      omega
  have hdiff : next.dayNumber - this.dayNumber = monthLength (12 * y + m - 1) := by
    have hsucc := monthStart_succ (12 * y + m - 1)
    have heq : 12 * y + (m : Int) - 1 + 1 = 12 * y + m := by omega
    rw [heq] at hsucc
    rw [Date.dayNumber_eq, Date.dayNumber_eq, hmonth, hday, hnextMonth.2.1,
      hnextMonth.2.2, hsucc]
    omega
  have hle : monthLength (12 * y + m - 1) ≤ 31 := monthLength_le _
  refine ⟨hrange.1, ?_, ?_⟩
  · unfold endOfTime
    split at hnextMonth
    all_goals omega
  · cases h₂
    rw [hdiff, if_pos (by omega)]
    rfl

theorem dateOf_of_eq {secs : Nat} {second : Nat} (hsecond : second < 86400)
    (h : (secs : Int) = unixTimestamp d second) :
    dateOf secs = d ∧ secs % 86400 = second := by
  unfold unixTimestamp at h
  have hday : epochDay + ((secs / 86400 : Nat) : Int) = d.dayNumber := by
    omega
  refine ⟨?_, by omega⟩
  unfold dateOf
  rw [hday]
  exact ofDayNumber_dayNumber d

theorem unixTimestamp_dateOf (secs : Nat) :
    unixTimestamp (dateOf secs) (secs % 86400) = secs := by
  unfold unixTimestamp dateOf
  rw [dayNumber_ofDayNumber]
  omega

theorem fromCalendarDate_clamped (d : Date) (hone : 1 ≤ m) (htwelve : m ≤ 12)
    (hmin : -9999 ≤ y) (hmax : y ≤ 9999) :
    fromCalendarDate y m (min d.day (monthLength (12 * y + m - 1)))
      = some (d.atMonth (12 * y + m - 1)) := by
  have hlength : monthLength (12 * y + m - 1) = daysInMonth y m := by
    unfold monthLength
    congr
    all_goals omega
  have hlow := d.one_le_day
  have hlen := le_monthLength (12 * y + m - 1)
  unfold fromCalendarDate
  rw [dif_pos ⟨hone, htwelve, by omega, by omega⟩, if_pos ⟨hmin, hmax⟩, Option.some.injEq]
  apply Date.ext_monthIndex
  · rw [Date.monthIndex_atMonth]
    rfl
  · rfl

/-- The months added; years past the `i32` range are dropped. -/
def monthShift (months : Int) : Int :=
  12 * (if inI32 (months / 12) then months / 12 else 0) + months % 12

theorem monthShift_eq {months : Int} (h : inI32 (months / 12)) :
    monthShift months = months := by
  unfold monthShift
  rw [if_pos h]
  omega

theorem monthShift_nonneg {months : Int} (h : 0 ≤ months) : 0 ≤ monthShift months := by
  unfold monthShift
  split
  · omega
  · omega

theorem dayNumber_le_atMonth (d : Date) {i : Int} (h : d.monthIndex ≤ i) :
    d.dayNumber ≤ (d.atMonth i).dayNumber := by
  rcases eq_or_lt_of_le h with hsame | hlt
  · have heq : d.atMonth i = d := by
      apply Date.ext_monthIndex
      · rw [Date.monthIndex_atMonth, hsame]
      · have hday := d.day_le
        rw [Date.day_atMonth, ← hsame, Date.monthLength_monthIndex]
        omega
    rw [heq]
  · apply le_of_lt
    apply Date.lt_of_monthIndex_lt
    rw [Date.monthIndex_atMonth]
    exact hlt

/-- Months later, on the same day or the last of the month; the answer is
a panic where the month after is out of range. -/
theorem addMonths_eq {fromSecs r : UInt64} {months : Int}
    (hfrom : fromSecs.toNat ≤ maxTimestamp) (hmonths : 0 ≤ months)
    (h : addMonths fromSecs months = some r) :
    (dateOf fromSecs.toNat).monthIndex + monthShift months + 1 < endOfTime
      ∧ (r.toNat : Int) = unixTimestamp
        ((dateOf fromSecs.toNat).atMonth
          ((dateOf fromSecs.toNat).monthIndex + monthShift months))
        (fromSecs.toNat % 86400) := by
  have hstamp := unixTimestamp_dateOf fromSecs.toNat
  have hsecond : fromSecs.toNat % 86400 < 86400 := Nat.mod_lt _ (by omega)
  generalize hd : dateOf fromSecs.toNat = d at hstamp ⊢
  generalize hs : fromSecs.toNat % 86400 = second at hstamp hsecond ⊢
  have hone := d.one_le_month
  have htwelve := d.month_le
  unfold addMonths at h
  rw [if_neg (by unfold maxTimestamp at hfrom; omega), if_neg (not_lt.2 hfrom)] at h
  simp only [hd, hs] at h
  rcases Option.bind_eq_some_iff.1 h with ⟨maxDay, hmax, h₁⟩
  -- the month reached, by its number
  generalize hy : (if 12 < d.month + (months % 12).toNat then d.year + 1
    else d.year) + (if inI32 (months / 12) then months / 12 else 0) = y
    at hmax h₁
  generalize hm : (if 12 < d.month + (months % 12).toNat
    then d.month + (months % 12).toNat - 12
    else d.month + (months % 12).toNat) = m at hmax h₁
  have hindex : 12 * y + m - 1 = d.monthIndex + monthShift months ∧ 1 ≤ m ∧ m ≤ 12 := by
    unfold Date.monthIndex monthShift
    generalize (if inI32 (months / 12) then months / 12 else 0) = years at hy ⊢
    split at hy
    · rw [if_pos (by assumption)] at hm
      omega
    · rw [if_neg (by assumption)] at hm
      omega
  rcases hindex with ⟨hindex, hm1, hm12⟩
  have hshift := monthShift_nonneg hmonths
  generalize monthShift months = shift at hindex hshift ⊢
  rcases daysInMonth?_eq_some hm1 hm12 hmax with ⟨hmin, hlast, hlength⟩
  unfold endOfTime at hlast ⊢
  rw [hlength, fromCalendarDate_clamped d hm1 hm12 hmin (by omega)] at h₁
  rw [Option.getD_some, hindex] at h₁
  refine ⟨by omega, ?_⟩
  -- the new date is neither before the old one nor out of range
  have hlow := dayNumber_le_atMonth d (i := d.monthIndex + shift) (by omega)
  have hhigh : (d.atMonth (d.monthIndex + shift)).dayNumber < 3652059 := by
    have hlt := (d.atMonth (d.monthIndex + shift)).lt_monthStart
    have hmono : monthStart (d.monthIndex + shift + 1) ≤ monthStart 120000 :=
      monthStart_strictMono.monotone (by omega)
    have hend : monthStart 120000 = 3652059 := by decide
    rw [Date.monthIndex_atMonth] at hlt
    omega
  generalize d.atMonth (d.monthIndex + shift) = e at *
  have hsecs : 0 ≤ unixTimestamp e second ∧ unixTimestamp e second < 253402300800 := by
    unfold unixTimestamp epochDay at *
    omega
  rw [if_pos hsecs.1] at h₁
  cases h₁
  rw [UInt64.toNat_ofNat_of_lt' (by
    show _ < 18446744073709551616
    omega)]
  omega

theorem le_addMonths {fromSecs r : UInt64} {months : Int}
    (hmonths : 0 ≤ months) (h : addMonths fromSecs months = some r) :
    fromSecs ≤ r := by
  rw [UInt64.le_iff_toNat_le]
  by_cases hfrom : fromSecs.toNat ≤ maxTimestamp
  · have heq := (addMonths_eq hfrom hmonths h).2
    have hstamp := unixTimestamp_dateOf fromSecs.toNat
    have hshift := monthShift_nonneg hmonths
    have hle := dayNumber_le_atMonth (dateOf fromSecs.toNat)
      (i := (dateOf fromSecs.toNat).monthIndex + monthShift months) (by omega)
    unfold unixTimestamp at heq hstamp
    omega
  · unfold addMonths at h
    rw [if_pos (not_le.1 hfrom), ite_self] at h
    cases h
    exact le_refl _

theorem le_maxTimestamp {secs second : Nat} (hsecond : second < 86400)
    (hd : d.monthIndex < endOfTime)
    (h : (secs : Int) = unixTimestamp d second) : secs ≤ maxTimestamp := by
  have hlt := d.lt_monthStart
  have hmono : monthStart (d.monthIndex + 1) ≤ monthStart 120000 :=
    monthStart_strictMono.monotone hd
  have hend : monthStart 120000 = 3652059 := by decide
  unfold unixTimestamp epochDay at h
  unfold maxTimestamp
  omega

/-- No timestamp is before the year 0. -/
theorem monthIndex_dateOf_nonneg (secs : Nat) : 0 ≤ (dateOf secs).monthIndex := by
  by_contra hneg
  have hzero : monthStart 0 = -366 := by decide
  have hmono : monthStart ((dateOf secs).monthIndex + 1) ≤ monthStart 0 :=
    monthStart_strictMono.monotone (by omega)
  have hlt := (dateOf secs).lt_monthStart
  have hday : (dateOf secs).dayNumber = epochDay + (secs / 86400 : Nat) :=
    dayNumber_ofDayNumber _
  unfold epochDay at hday
  omega

def Plan.months (plan : Plan) : Option Nat :=
  match plan.interval with
  | .month => some plan.intervalCount.toNat
  | .year => some (plan.intervalCount.toNat * 12)
  | _ => none

theorem advance_eq_addMonths {plan : Plan} {months : Nat}
    (h : plan.months = some months) (fromSecs : UInt64) :
    advance fromSecs plan.interval plan.intervalCount = addMonths fromSecs months := by
  unfold Plan.months at h
  unfold advance
  cases hi : plan.interval with
  | day =>
    rw [hi] at h
    cases h
  | week =>
    rw [hi] at h
    cases h
  | month =>
    rw [hi] at h
    cases h
    rfl
  | year =>
    rw [hi] at h
    cases h
    simp only
    congr 1

theorem months_pos {plan : Plan} {months : Nat}
    (hcount : plan.intervalCount ≠ 0) (h : plan.months = some months) :
    0 < months := by
  have hpos : 0 < plan.intervalCount.toNat := by
    rw [Nat.pos_iff_ne_zero]
    intro hzero
    exact hcount (UInt32.toNat_inj.1 hzero)
  unfold Plan.months at h
  cases hi : plan.interval with
  | day =>
    rw [hi] at h
    cases h
  | week =>
    rw [hi] at h
    cases h
  | month =>
    rw [hi] at h
    cases h
    exact hpos
  | year =>
    rw [hi] at h
    cases h
    omega

-- ==== one call

namespace Subscription

/-- The plan and the period are as they were. -/
structure SamePeriod (sub sub' : Subscription) : Prop where
  plan : sub'.plan = sub.plan
  start : sub'.currentPeriodStartUnixSecs = sub.currentPeriodStartUnixSecs
  finish : sub'.currentPeriodEndUnixSecs = sub.currentPeriodEndUnixSecs

/-- The period after a rollover starts where the last ended. -/
structure NextPeriod (sub sub' : Subscription) : Prop where
  plan : sub'.plan = sub.plan
  start : sub'.currentPeriodStartUnixSecs = sub.currentPeriodEndUnixSecs
  finish : advance sub.currentPeriodEndUnixSecs sub.plan.interval
    sub.plan.intervalCount = some sub'.currentPeriodEndUnixSecs

theorem samePeriod_promoteFromTrial (sub : Subscription) :
    SamePeriod sub sub.promoteFromTrial.2 := by
  unfold promoteFromTrial
  cases sub.status with
  | _ => exact ⟨rfl, rfl, rfl⟩

theorem samePeriod_recordBillingFailure (sub : Subscription) (t : UInt64) :
    SamePeriod sub (sub.recordBillingFailure t).2 := by
  unfold recordBillingFailure
  cases sub.status with
  | _ => exact ⟨rfl, rfl, rfl⟩

theorem samePeriod_recordBillingRecovered (sub : Subscription) :
    SamePeriod sub sub.recordBillingRecovered.2 := by
  unfold recordBillingRecovered
  split
  all_goals exact ⟨rfl, rfl, rfl⟩

theorem samePeriod_pause (sub : Subscription) (t : UInt64) :
    SamePeriod sub (sub.pause t).2 := by
  unfold pause
  split
  all_goals exact ⟨rfl, rfl, rfl⟩

theorem samePeriod_resume (sub : Subscription) : SamePeriod sub sub.resume.2 := by
  unfold resume
  split
  all_goals exact ⟨rfl, rfl, rfl⟩

theorem new_eq {id : Uuid} {plan : Plan} {now : UInt64} {sub : Subscription}
    (h : Subscription.new id plan now = some sub) :
    sub.plan = plan
      ∧ advance sub.currentPeriodStartUnixSecs plan.interval
          plan.intervalCount = some sub.currentPeriodEndUnixSecs
      ∧ ∀ d, plan.trial = some d → sub.status = .trialing sub.currentPeriodStartUnixSecs := by
  unfold Subscription.new firstPeriod at h
  rcases Option.bind_eq_some_iff.1 h with ⟨bounds, hbounds, h₁⟩
  rcases Option.bind_eq_some_iff.1 hbounds with ⟨finish, hadvance, h₂⟩
  cases h₂
  cases h₁
  refine ⟨rfl, hadvance, fun d hd => ?_⟩
  simp only [hd]

/-- A call that reports a rollover moves to the next period, and no other
touches it. -/
theorem call_period (sub : Subscription) (op : Op) :
    ((sub.call op).1 = .due (.ok .periodRollover) ∧ NextPeriod sub (sub.step op))
      ∨ ((sub.call op).1 ≠ .due (.ok .periodRollover) ∧ SamePeriod sub (sub.step op)) := by
  cases op with
  | promoteFromTrial => exact .inr ⟨nofun, samePeriod_promoteFromTrial sub⟩
  | recordBillingFailure t =>
    exact .inr ⟨nofun, samePeriod_recordBillingFailure sub t⟩
  | recordBillingRecovered =>
    exact .inr ⟨nofun, samePeriod_recordBillingRecovered sub⟩
  | pause t => exact .inr ⟨nofun, samePeriod_pause sub t⟩
  | resume => exact .inr ⟨nofun, samePeriod_resume sub⟩
  | scheduleCancelAtPeriodEnd => exact .inr ⟨nofun, rfl, rfl, rfl⟩
  | cancelNow t => exact .inr ⟨nofun, rfl, rfl, rfl⟩
  | tick now =>
    unfold step call
    simp only
    unfold tick
    cases sub.classify now with
    | notDue => exact .inr ⟨nofun, rfl, rfl, rfl⟩
    | trialEnded =>
      refine .inr ⟨?_, samePeriod_promoteFromTrial sub⟩
      cases hresult : sub.promoteFromTrial.1 with
      | ok _ => simp [hresult, Except.map]
      | error e => simp [hresult, Except.map]
    | cancelAtPeriodEnd => exact .inr ⟨nofun, rfl, rfl, rfl⟩
    | periodRollover =>
      simp only
      cases hadvance : advance sub.currentPeriodEndUnixSecs
          sub.plan.interval sub.plan.intervalCount with
      | none => exact .inr ⟨nofun, rfl, rfl, rfl⟩
      | some nextEnd => exact .inl ⟨rfl, rfl, rfl, hadvance⟩

def rollovers (sub : Subscription) (ops : List Op) : Nat :=
  (sub.answers ops).count (.due (.ok .periodRollover))

-- ==== the days

/-- The date the `n`-th period starts on, each computed from the last. -/
def periodDate (d : Date) (months : Nat) : Nat → Date
  | 0 => d
  | n + 1 => (periodDate d months n).atMonth (d.monthIndex + (n + 1) * months)

theorem monthIndex_periodDate (d : Date) (months n : Nat) :
    (periodDate d months n).monthIndex = d.monthIndex + n * months := by
  cases n with
  | zero =>
    show d.monthIndex = _
    omega
  | succ n =>
    unfold periodDate
    rw [Date.monthIndex_atMonth]
    push_cast
    rfl

/-- The day is the smallest of those on the way. -/
theorem le_day_periodDate (d : Date) (months n k : Nat) :
    k ≤ (periodDate d months n).day
      ↔ k ≤ d.day ∧ ∀ j : Nat, 1 ≤ j → j ≤ n → k ≤ monthLength (d.monthIndex + j * months) := by
  induction n with
  | zero =>
    show k ≤ d.day ↔ _
    refine ⟨fun h => ⟨h, fun j h1 h0 => absurd h1 (by omega)⟩, And.left⟩
  | succ n ih =>
    unfold periodDate
    rw [Date.day_atMonth, Nat.le_min, ih]
    constructor
    · intro h
      refine ⟨h.1.1, fun j h1 hj => ?_⟩
      rcases Nat.lt_or_eq_of_le hj with hlt | heq
      · exact h.1.2 j h1 (Nat.lt_succ_iff.1 hlt)
      · rw [heq]
        push_cast
        exact h.2
    · intro h
      refine ⟨⟨h.1, fun j h1 hj => h.2 j h1 (Nat.le_succ_of_le hj)⟩, ?_⟩
      have hlast := h.2 (n + 1) (by omega) (le_refl _)
      push_cast at hlast
      exact hlast

/-- No month an earlier period ended in is shorter than the start's day,
clamped to the month of the end. -/
def Unclamped (d : Date) (months n : Nat) : Prop :=
  ∀ j : Nat, 1 ≤ j → j ≤ n →
    min d.day (monthLength (d.monthIndex + (n + 1) * months))
      ≤ monthLength (d.monthIndex + j * months)

/-- The compounded date is the anchored one exactly there. -/
theorem periodDate_eq_iff (d : Date) (months n : Nat) :
    periodDate d months (n + 1) = d.atMonth (d.monthIndex + (n + 1) * months)
      ↔ Unclamped d months n := by
  have hday := le_day_periodDate d months n
  constructor
  · intro h j h1 hj
    have hle := (hday (min d.day (monthLength
      (d.monthIndex + (n + 1) * months)))).1 (by
        have heq := congrArg Date.day h
        unfold periodDate at heq
        rw [Date.day_atMonth, Date.day_atMonth] at heq
        omega)
    exact hle.2 j h1 hj
  · intro h
    have hle := (hday (min d.day (monthLength
      (d.monthIndex + (n + 1) * months)))).2
        ⟨Nat.min_le_left _ _, h⟩
    have hge := ((hday _).1 (le_refl _)).1
    apply Date.ext_monthIndex
    · rw [monthIndex_periodDate, Date.monthIndex_atMonth]
      push_cast
      rfl
    · unfold periodDate
      rw [Date.day_atMonth, Date.day_atMonth]
      omega

-- ==== runs

/-- The period after `n` rollovers of a subscription whose first period
started at `anchor`. -/
structure AtPeriod (anchor : UInt64) (plan : Plan) (months n : Nat)
    (sub : Subscription) : Prop where
  plan : sub.plan = plan
  start : (sub.currentPeriodStartUnixSecs.toNat : Int)
    = unixTimestamp (periodDate (dateOf anchor.toNat) months n) (anchor.toNat % 86400)
  finish : (sub.currentPeriodEndUnixSecs.toNat : Int)
    = unixTimestamp (periodDate (dateOf anchor.toNat) months (n + 1)) (anchor.toNat % 86400)
  inRange : (periodDate (dateOf anchor.toNat) months (n + 1)).monthIndex + 1 < endOfTime

section
variable {anchor : UInt64} {plan : Plan} {months : Nat}

variable {n : Nat} {sub : Subscription}

theorem advance_periodDate (hmonths : plan.months = some months)
    (hyears : inI32 ((months : Int) / 12)) {fromSecs r : UInt64}
    (hrange : (periodDate (dateOf anchor.toNat) months n).monthIndex
      < endOfTime) (hfrom : (fromSecs.toNat : Int)
      = unixTimestamp (periodDate (dateOf anchor.toNat) months n) (anchor.toNat % 86400))
    (h : advance fromSecs plan.interval plan.intervalCount = some r) :
    (r.toNat : Int)
        = unixTimestamp (periodDate (dateOf anchor.toNat) months (n + 1)) (anchor.toNat % 86400)
      ∧ (periodDate (dateOf anchor.toNat) months (n + 1)).monthIndex + 1 < endOfTime := by
  have hsecond : anchor.toNat % 86400 < 86400 := Nat.mod_lt _ (by omega)
  have hle := le_maxTimestamp hsecond hrange hfrom
  rcases dateOf_of_eq hsecond hfrom with ⟨hdate, hmod⟩
  rw [advance_eq_addMonths hmonths] at h
  rcases addMonths_eq hle (Int.natCast_nonneg months) h with ⟨hlast, heq⟩
  rw [monthShift_eq hyears] at hlast heq
  have hindex : (dateOf fromSecs.toNat).monthIndex + months
      = (dateOf anchor.toNat).monthIndex + (n + 1) * months := by
    rw [hdate, monthIndex_periodDate, Int.add_mul, one_mul]
    omega
  rw [hindex, hmod, hdate] at heq
  refine ⟨heq, ?_⟩
  rw [monthIndex_periodDate]
  push_cast
  omega

theorem atPeriod_new {id : Uuid} {now : UInt64}
    (hmonths : plan.months = some months) (hyears : inI32 ((months : Int) / 12))
    (hnew : Subscription.new id plan now = some sub)
    (hstart : sub.currentPeriodStartUnixSecs.toNat ≤ maxTimestamp) :
    AtPeriod sub.currentPeriodStartUnixSecs plan months 0 sub := by
  rcases new_eq hnew with ⟨hplan, hadvance, -⟩
  have hsecond : sub.currentPeriodStartUnixSecs.toNat % 86400 < 86400 :=
    Nat.mod_lt _ (by omega)
  have hfrom := (unixTimestamp_dateOf sub.currentPeriodStartUnixSecs.toNat).symm
  have hfirst : (dateOf sub.currentPeriodStartUnixSecs.toNat).monthIndex < endOfTime := by
    by_contra hlate
    have hend : monthStart 120000 = 3652059 := by decide
    have hmono : monthStart 120000 ≤ monthStart
        (dateOf sub.currentPeriodStartUnixSecs.toNat).monthIndex :=
      monthStart_strictMono.monotone (not_lt.1 hlate)
    have hle := (dateOf sub.currentPeriodStartUnixSecs.toNat).monthStart_le
    unfold unixTimestamp epochDay at hfrom
    unfold maxTimestamp at hstart
    omega
  rcases advance_periodDate (n := 0) hmonths hyears hfirst hfrom hadvance with
    ⟨hfinish, hrange⟩
  exact ⟨hplan, hfrom, hfinish, hrange⟩

/-- A call moves to the next period exactly where it reports a
rollover. -/
theorem atPeriod_step (hmonths : plan.months = some months) (hyears : inI32 ((months : Int) / 12))
    (h : AtPeriod anchor plan months n sub) (op : Op) :
    AtPeriod anchor plan months
      (n + if (sub.call op).1 = .due (.ok .periodRollover) then 1 else 0)
      (sub.step op) := by
  rcases sub.call_period op with ⟨hanswer, hnext⟩ | ⟨hanswer, hsame⟩
  · rw [if_pos hanswer]
    rcases h with ⟨hplan, -, hfinish, hrange⟩
    have hadvance := hnext.finish
    rw [hplan] at hadvance
    rcases advance_periodDate hmonths hyears (by omega) hfinish hadvance with
      ⟨hnew, hnewRange⟩
    refine ⟨hnext.plan.trans hplan, ?_, hnew, hnewRange⟩
    rw [hnext.start]
    exact hfinish
  · rw [if_neg hanswer, add_zero]
    refine ⟨hsame.plan.trans h.plan, ?_, ?_, h.inRange⟩
    · rw [hsame.start]
      exact h.start
    · rw [hsame.finish]
      exact h.finish

theorem atPeriod_run (hmonths : plan.months = some months) (hyears : inI32 ((months : Int) / 12))
    (h : AtPeriod anchor plan months n sub) (ops : List Op) :
    AtPeriod anchor plan months (n + sub.rollovers ops) (run step sub ops) := by
  induction ops generalizing n sub with
  | nil => exact h
  | cons op ops ih =>
    have hrest := ih (atPeriod_step hmonths hyears h op)
    have hcount : sub.rollovers (op :: ops)
        = (if (sub.call op).1 = .due (.ok .periodRollover) then 1 else 0)
          + (sub.step op).rollovers ops := by
      unfold rollovers
      show List.count _ ((sub.call op).1 :: _) = _
      rw [List.count_cons, add_comm]
      congr 1
      simp
    rw [hcount, ← add_assoc]
    exact hrest

end

/-- After a run the period is not empty, and the next one starts where it
ends. -/
structure Gapless (sub : Subscription) (ops : List Op) : Prop where
  start_lt : (run step sub ops).currentPeriodStartUnixSecs
    < (run step sub ops).currentPeriodEndUnixSecs
  contiguous : ∀ op, ((run step sub ops).call op).1 = .due (.ok .periodRollover) →
    ((run step sub ops).step op).currentPeriodStartUnixSecs
      = (run step sub ops).currentPeriodEndUnixSecs

/-- And it ends as many months after the first start as there were periods,
on its own day or the last of the month. -/
structure KeepsAnchor (sub : Subscription) (months : Nat) (ops : List Op) : Prop
    extends Gapless sub ops where
  anchored : ((run step sub ops).currentPeriodEndUnixSecs.toNat : Int)
    = unixTimestamp
      ((dateOf sub.currentPeriodStartUnixSecs.toNat).atMonth
        ((dateOf sub.currentPeriodStartUnixSecs.toNat).monthIndex
          + (sub.rollovers ops + 1) * months))
      (sub.currentPeriodStartUnixSecs.toNat % 86400)

/-- The periods of a plan by months or years keep their anchor exactly
where no month an earlier period ended in is shorter than the day they
should end on; they are never empty and follow each other without a gap
either way. -/
theorem keepsAnchor_iff (id : Uuid) (plan : Plan) (now : UInt64)
    (sub : Subscription) (months : Nat) (ops : List Op)
    (hcount : plan.intervalCount ≠ 0) (hmonths : plan.months = some months)
    (hnew : Subscription.new id plan now = some sub)
    (hstart : sub.currentPeriodStartUnixSecs.toNat ≤ maxTimestamp)
    (hrange : (dateOf sub.currentPeriodStartUnixSecs.toNat).monthIndex
      + (sub.rollovers ops + 1) * months < endOfTime) :
    (KeepsAnchor sub months ops
        ↔ Unclamped (dateOf sub.currentPeriodStartUnixSecs.toNat) months (sub.rollovers ops))
      ∧ Gapless sub ops := by
  have hpos : 0 < months := months_pos hcount hmonths
  have hyears : inI32 ((months : Int) / 12) := by
    have hnonneg := monthIndex_dateOf_nonneg sub.currentPeriodStartUnixSecs.toNat
    have hle : (months : Int) ≤ (sub.rollovers ops + 1) * months := by
      rw [Int.add_mul, one_mul]
      exact le_add_of_nonneg_left (by positivity)
    unfold inI32
    unfold endOfTime at hrange
    omega
  have hperiod := atPeriod_run hmonths hyears (atPeriod_new hmonths hyears hnew hstart) ops
  rw [zero_add] at hperiod
  have hgapless : Gapless sub ops := by
    constructor
    case start_lt =>
      rw [UInt64.lt_iff_toNat_lt]
      have hdays := Date.lt_of_monthIndex_lt
        (d := periodDate (dateOf sub.currentPeriodStartUnixSecs.toNat) months
          (sub.rollovers ops))
        (e := periodDate (dateOf sub.currentPeriodStartUnixSecs.toNat) months
          (sub.rollovers ops + 1)) (by
          rw [monthIndex_periodDate, monthIndex_periodDate]
          push_cast
          rw [Int.add_mul]
          omega)
      have hs := hperiod.start
      have hf := hperiod.finish
      unfold unixTimestamp at hs hf
      omega
    case contiguous =>
      intro op hop
      rcases (run step sub ops).call_period op with ⟨-, h⟩ | ⟨h, -⟩
      · exact h.start
      · exact absurd hop h
  refine ⟨?_, hgapless⟩
  rw [← periodDate_eq_iff]
  constructor
  · intro h
    apply Date.dayNumber_injective
    have heq := hperiod.finish.symm.trans h.anchored
    unfold unixTimestamp at heq
    omega
  · intro h
    refine ⟨hgapless, ?_⟩
    rw [hperiod.finish, h]

-- ==== examples

def monthly : Plan :=
  { id := ⟨1⟩, name := "monthly"
    amount := .fromMinor ⟨900, by decide⟩ .USD
    interval := .month, intervalCount := 1, trialDays := none }

def monthlyFrom (start finish : UInt64) : Subscription :=
  { id := ⟨2⟩, plan := monthly, status := .active
    currentPeriodStartUnixSecs := start, currentPeriodEndUnixSecs := finish
    cancelAtPeriodEnd := false }

/-- From 15 January 2024 on, the second period ends on 15 March. -/
theorem monthly_keeps_15th :
    KeepsAnchor (monthlyFrom 1705276800 1707955200) 1 [.tick 1707955200] := by
  have hone : (monthlyFrom 1705276800 1707955200).rollovers [.tick 1707955200]
      = 1 := by decide +kernel
  apply (keepsAnchor_iff ⟨2⟩ monthly 1705276800 _ 1 _ (by decide) rfl
    (by decide +kernel) (by decide) (by rw [hone]; decide +kernel)).1.2
  rw [hone]
  intro j h1 hj
  have hj1 : j = 1 := by omega
  rw [hj1]
  decide +kernel

/-- From 31 January 2024 on, the second period ends on 29 March and not on
31 March. -/
theorem monthly_loses_31st :
    Subscription.new ⟨2⟩ monthly 1706659200 = some (monthlyFrom 1706659200 1709164800)
      ∧ (monthlyFrom 1706659200 1709164800).rollovers [.tick 1709164800] = 1
      ∧ (run step (monthlyFrom 1706659200 1709164800)
          [.tick 1709164800]).currentPeriodEndUnixSecs = 1711670400
      ∧ unixTimestamp ((dateOf 1706659200).atMonth
          ((dateOf 1706659200).monthIndex + (1 + 1) * 1)) 0 = 1711843200
      ∧ ¬ KeepsAnchor (monthlyFrom 1706659200 1709164800) 1
          [.tick 1709164800] := by
  have hend : (run step (monthlyFrom 1706659200 1709164800)
      [.tick 1709164800]).currentPeriodEndUnixSecs = 1711670400 := by
    decide +kernel
  have hone : (monthlyFrom 1706659200 1709164800).rollovers [.tick 1709164800]
      = 1 := by decide +kernel
  have htarget : unixTimestamp ((dateOf 1706659200).atMonth
      ((dateOf 1706659200).monthIndex + (1 + 1) * 1)) 0 = 1711843200 := by
    decide +kernel
  refine ⟨by decide +kernel, hone, hend, htarget, fun h => ?_⟩
  have hanchored := h.anchored
  rw [hone, hend] at hanchored
  have hwrong := hanchored.trans htarget
  exact absurd hwrong (by decide)

end Subscription

end OpenStandards.OpSubscriptions

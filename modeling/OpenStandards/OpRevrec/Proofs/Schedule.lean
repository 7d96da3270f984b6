/-
Allocations and schedules lose nothing.

Every split ends with a plug, so a split that goes through is exact. The
allocation goes through for prices that are not negative: each part is
rounded toward zero, so the running total never exceeds the price
(`allocate_ok`). The straight-line schedule does in the same way, its parts
being days (`straightLine_ok`), where the period ends before the last month
of the calendar.
-/
import OpenStandards.OpRevrec.Schedule

namespace OpenStandards.OpRevrec

open Lib OpCore

-- ==== allocation

theorem addOrOverflow_ok {a b r : I64} : addOrOverflow a b = .ok r ↔ r.val = a.val + b.val := by
  unfold addOrOverflow
  rw [← I64.checkedAdd_eq_some]
  cases a.checkedAdd b with
  | none => simp
  | some x => simp

variable {c : Contract} {totalSsp : I64}

theorem totalSsp_eq (h : c.totalSspMinor = .ok totalSsp) :
    totalSsp.val = (c.obligations.map fun o =>
      o.standaloneSellingPrice.minorUnits.val).sum := by
  refine foldlM_ok (P := fun done acc => acc.val
    = (done.map fun o : PerformanceObligation =>
        o.standaloneSellingPrice.minorUnits.val).sum) rfl ?_ h
  intro done acc o acc' hacc hadd
  rw [List.map_append, List.sum_append, List.map_singleton, List.sum_singleton, ← hacc]
  exact addOrOverflow_ok.1 hadd

/-- A price that is not negative is no more than their sum. -/
theorem ssp_le_totalSsp (hssp : ∀ o ∈ c.obligations, 0 ≤ o.standaloneSellingPrice.minorUnits.val)
    (h : c.totalSspMinor = .ok totalSsp) {o : PerformanceObligation} (ho : o ∈ c.obligations) :
    o.standaloneSellingPrice.minorUnits.val ≤ totalSsp.val := by
  rw [totalSsp_eq h]
  apply List.single_le_sum
  · intro x hx
    rcases List.mem_map.1 hx with ⟨o', ho', rfl⟩
    exact hssp o' ho'
  · exact List.mem_map.2 ⟨o, ho, rfl⟩

/-- The allocation goes through, one part for each obligation, and sums to
the price. -/
theorem allocate_ok {price : Money} (hcurrencies : c.validateCurrencies = .ok ())
    (hssp : ∀ o ∈ c.obligations, 0 ≤ o.standaloneSellingPrice.minorUnits.val)
    (htotal : c.totalSspMinor = .ok totalSsp) (hpos : 0 < totalSsp.val)
    (hprice : c.transactionPrice.total = .ok price) :
    ∃ amounts : List I64,
      allocateTransactionPrice c
          = .ok ((c.obligations.map PerformanceObligation.id).zip amounts)
        ∧ amounts.length = c.obligations.length
        ∧ (amounts.map I64.val).sum = price.minorUnits.val := by
  have hshare : ∀ o ∈ c.obligations, Part price.minorUnits.val totalSsp.val
      o.standaloneSellingPrice.minorUnits.val
      ((price.minorUnits.val * o.standaloneSellingPrice.minorUnits.val).tdiv totalSsp.val) :=
    fun o ho => Part.tdiv _ hpos (hssp o ho)
  have hrange : ∀ o ∈ c.obligations, InI64 ((price.minorUnits.val
      * o.standaloneSellingPrice.minorUnits.val).tdiv totalSsp.val) :=
    fun o ho => ((hshare o ho).inI64 hpos (ssp_le_totalSsp hssp htotal ho)
      price.minorUnits.inRange).1
  -- the parts as values, for the items of the list
  let value (o : PerformanceObligation) : I64 := .wrap ((price.minorUnits.val
    * o.standaloneSellingPrice.minorUnits.val).tdiv totalSsp.val)
  have hvalue : ∀ o ∈ c.obligations,
      relativeShare price.minorUnits totalSsp o = .ok (value o) := by
    intro o ho
    have hsome : I64.ofInt? ((price.minorUnits.val
        * o.standaloneSellingPrice.minorUnits.val).tdiv totalSsp.val)
        = some (value o) :=
      I64.ofInt?_eq_some.2 (I64.val_wrap (hrange o ho))
    unfold relativeShare
    simp only [hsome]
  have hne : c.obligations ≠ [] := by
    intro hnil
    have := totalSsp_eq htotal
    rw [hnil] at this
    simp at this
    omega
  have hfits : FitsFrom price.minorUnits.val (fun o => (value o).val)
      (0 : I64).val c.obligations := by
    apply fitsFrom_of_part hpos price.minorUnits.inRange hssp _ (Part.zero _ _)
    · rw [totalSsp_eq htotal]
      omega
    · intro o ho
      show Part _ _ _ (I64.wrap _).val
      rw [I64.val_wrap (hrange o ho)]
      exact hshare o ho
  have hok : ∃ amounts, apportion overflow price.minorUnits
      (relativeShare price.minorUnits totalSsp) 0 c.obligations
        = .ok amounts := (apportion_ok_iff hvalue).2 hfits
  rcases hok with ⟨amounts, hamounts⟩
  refine ⟨amounts, ?_, length_of_apportion hamounts, ?_⟩
  · have hnonzero : totalSsp ≠ 0 := by
      intro hzero
      rw [hzero] at hpos
      exact absurd hpos (lt_irrefl 0)
    unfold allocateTransactionPrice
    rw [hcurrencies, ok_bind, htotal, ok_bind, if_neg hnonzero, hprice,
      ok_bind, hamounts, ok_bind]
    rfl
  · have hsum := sum_of_apportion hne hamounts
    rw [I64.val_zero, zero_add] at hsum
    exact hsum

-- ==== dates

/-- The number of the first month past the range of dates. -/
def endOfTime : Int := 12 * 262143

def BeforeLastMonth (d : NaiveDate) : Prop :=
  d.date.monthIndex + 1 < endOfTime

instance (d : NaiveDate) : Decidable (BeforeLastMonth d) :=
  inferInstanceAs (Decidable (_ < _))

theorem exists_number_eq {n : Int} {a : NaiveDate} (hlo : a.number ≤ n)
    (hhi : n < monthStart endOfTime) :
    ∃ d, NaiveDate.ofDate? (ofDayNumber n) = some d ∧ d.number = n := by
  have hnumber := dayNumber_ofDayNumber n
  generalize ofDayNumber n = d at hnumber ⊢
  have hlow : a.date.year ≤ d.year := by
    by_contra hlt
    have hmonth : d.monthIndex < a.date.monthIndex := by
      have := a.date.one_le_month
      have := d.month_le
      unfold Date.monthIndex
      omega
    have := Date.lt_of_monthIndex_lt hmonth
    unfold NaiveDate.number at hlo
    omega
  have hhigh : d.year ≤ 262142 := by
    by_contra hlt
    have hmonth : endOfTime ≤ d.monthIndex := by
      have := d.one_le_month
      unfold endOfTime Date.monthIndex
      omega
    have := monthStart_strictMono.monotone hmonth
    have := d.monthStart_le
    omega
  refine ⟨⟨d, a.min_le.trans hlow, hhigh⟩, ?_, hnumber⟩
  unfold NaiveDate.ofDate?
  rw [dif_pos ⟨a.min_le.trans hlow, hhigh⟩]

theorem number_lt_endOfTime (d : NaiveDate) : d.number < monthStart endOfTime := by
  have hmonth : d.date.monthIndex + 1 ≤ endOfTime := by
    have := d.date.month_le
    have := d.le_max
    unfold endOfTime Date.monthIndex
    omega
  have hstart := monthStart_strictMono.monotone hmonth
  have hlt := d.date.lt_monthStart
  unfold NaiveDate.number
  omega

theorem exists_first {y : Int} {m : Nat} (hone : 1 ≤ m) (htwelve : m ≤ 12)
    (hmin : -262143 ≤ y) (hmax : y ≤ 262142) :
    ∃ f, NaiveDate.fromYmdOpt y m 1 = some f ∧ f.number = monthStart (12 * y + m - 1) := by
  have hday : 1 ≤ daysInMonth y m := by
    have := le_daysInMonth y hone htwelve
    omega
  refine ⟨⟨⟨y, m, 1, hone, htwelve, le_refl 1, hday⟩, hmin, hmax⟩, ?_, ?_⟩
  · unfold NaiveDate.fromYmdOpt NaiveDate.ofDate?
    rw [dif_pos ⟨hone, htwelve, le_refl 1, hday⟩]
    exact dif_pos ⟨hmin, hmax⟩
  · unfold NaiveDate.number
    rw [Date.dayNumber_eq]
    exact Int.add_sub_cancel _ 1

theorem number_lastDayOfMonth {d : NaiveDate} (h : BeforeLastMonth d) :
    (lastDayOfMonth d).number = monthStart (d.date.monthIndex + 1) - 1 := by
  have hone := d.date.one_le_month
  have htwelve := d.date.month_le
  have hmin := d.min_le
  unfold BeforeLastMonth endOfTime Date.monthIndex at h
  have hnext : ∃ f, NaiveDate.fromYmdOpt
      (if d.date.month = 12 then (d.date.year + 1, 1)
        else (d.date.year, d.date.month + 1)).1
      (if d.date.month = 12 then (d.date.year + 1, 1)
        else (d.date.year, d.date.month + 1)).2 1 = some f
      ∧ f.number = monthStart (d.date.monthIndex + 1) := by
    by_cases hdec : d.date.month = 12
    · rw [if_pos hdec]
      have hindex : d.date.monthIndex + 1 = 12 * (d.date.year + 1) + (1 : Nat) - 1 := by
        unfold Date.monthIndex
        omega
      rw [hindex]
      exact exists_first (by omega) (by omega) (by omega) (by omega)
    · rw [if_neg hdec]
      have hindex : d.date.monthIndex + 1
          = 12 * d.date.year + (d.date.month + 1 : Nat) - 1 := by
        unfold Date.monthIndex
        omega
      rw [hindex]
      exact exists_first (by omega) (by omega) (by omega) (by omega)
  rcases hnext with ⟨f, hf, hnumber⟩
  have hlt := d.date.lt_monthStart
  have hpred : ∃ p, f.predOpt = some p ∧ p.number = f.number - 1 := by
    apply exists_number_eq (a := d)
    · unfold NaiveDate.number at *
      omega
    · have := number_lt_endOfTime f
      omega
  rcases hpred with ⟨p, hp, hpnumber⟩
  unfold lastDayOfMonth
  simp only [hf, Option.getD_some, hp]
  omega

-- ==== straight line

section
variable (id : ObligationId) (currency : Currency)
  {start finish : NaiveDate} {allocated : I64} {totalDays : Int}

def sumOf (entries : List ScheduleEntry) : Int :=
  (entries.map fun e => e.amountMinor.val).sum

theorem sumOf_append (es es' : List ScheduleEntry) :
    sumOf (es ++ es') = sumOf es + sumOf es' := by
  unfold sumOf
  rw [List.map_append, List.sum_append]

theorem sumOf_singleton (e : ScheduleEntry) :
    sumOf [e] = e.amountMinor.val := List.sum_singleton

def IsMonthEnd (d : NaiveDate) : Prop :=
  d.date.day = daysInMonth d.date.year d.date.month

/-- One entry for each month, from the day `first` to `finish`. Every month
but the last is booked on its last day, with the part of the allocation
for its days from `first` on. -/
inductive Monthly (finish : NaiveDate) (allocated : I64) (totalDays : Int) :
    NaiveDate → List ScheduleEntry → Prop where
  | last {first : NaiveDate} {e : ScheduleEntry} :
      first.number ≤ finish.number →
      first.date.monthIndex = finish.date.monthIndex →
      e.date = finish → Monthly finish allocated totalDays first [e]
  | month {first next : NaiveDate} {e : ScheduleEntry}
      {es : List ScheduleEntry} :
      first.number ≤ e.date.number →
      e.date.date.monthIndex = first.date.monthIndex →
      IsMonthEnd e.date →
      e.amountMinor.val = (allocated.val * (e.date.number - first.number + 1)).tdiv totalDays →
      next.number = e.date.number + 1 →
      next.date.monthIndex = first.date.monthIndex + 1 →
      Monthly finish allocated totalDays next es →
      Monthly finish allocated totalDays first (e :: es)

/-- What the last entry books does not matter. -/
theorem Monthly.plug {init : List ScheduleEntry} {e : ScheduleEntry}
    {plug : I64} : ∀ {first : NaiveDate},
      Monthly finish allocated totalDays first (init ++ [e]) →
      Monthly finish allocated totalDays first (init ++ [{ e with amountMinor := plug }]) := by
  induction init with
  | nil =>
    intro first h
    cases h with
    | last hle hmonth hdate => exact .last hle hmonth hdate
    | month _ _ _ _ _ _ hrest => nomatch hrest
  | cons e' init ih =>
    intro first h
    rw [List.cons_append] at h ⊢
    generalize hes : init ++ [e] = es at h
    cases h with
    | last => exact absurd hes (by simp)
    | month hle hmonth hend hamount hnext hindex hrest =>
      subst hes
      exact .month hle hmonth hend hamount hnext hindex (ih hrest)

/-- What holds at the head of the loop: the entries so far are no more
than the part of the days before the cursor. -/
structure LineInv (start : NaiveDate) (allocated : I64) (totalDays : Int)
    (s : LineState) : Prop where
  start_le : start.number ≤ s.cursor.number
  part : Part allocated.val totalDays (s.cursor.number - start.number) s.assigned.val
  sum : sumOf s.entries = s.assigned.val

/-- What holds when the loop is left: the last entry stands after parts of
the allocation. -/
structure LineDone (allocated : I64) (totalDays : Int) (s : LineState) : Prop where
  sum : sumOf s.entries = s.assigned.val
  part : ∃ w, w ≤ totalDays ∧ Part allocated.val totalDays w s.assigned.val
  last : ∃ init e, s.entries = init ++ [e]
    ∧ ∃ w, w ≤ totalDays ∧ Part allocated.val totalDays w (sumOf init)

/-- What a turn books on a day: one entry, with the part of the allocation
for the days from the cursor on. -/
structure Books (allocated : I64) (totalDays : Int) (s : LineState)
    (entryDate : NaiveDate) (s' : LineState) : Prop where
  next_day : s'.cursor.number = entryDate.number + 1
  entry : ∃ e, s'.entries = s.entries ++ [e] ∧ e.date = entryDate
    ∧ e.amountMinor.val = (allocated.val
        * (entryDate.number - s.cursor.number + 1)).tdiv totalDays

variable {s s' : LineState} {d : NaiveDate}

theorem straightLineTurn_books (htotal : totalDays = finish.number - start.number + 1)
    (hinv : LineInv start allocated totalDays s)
    (hle : s.cursor.number ≤ finish.number) {entryDate : NaiveDate}
    (hentry : (if lastDayOfMonth s.cursor < finish
      then lastDayOfMonth s.cursor else finish) = entryDate)
    (hlo : s.cursor.number ≤ entryDate.number + 1)
    (hhi : entryDate.number ≤ finish.number) (hsucc : entryDate.succOpt = some d)
    (hd : d.number = entryDate.number + 1) :
    ∃ s', Books allocated totalDays s entryDate s'
      ∧ LineInv start allocated totalDays s'
      ∧ s'.cursor = d
      ∧ straightLineTurn id finish allocated currency totalDays s
        = if finish < d then .leave s' else .next s' := by
  have hstart := hinv.start_le
  have hpos : 0 < totalDays := by omega
  have hshare : Part allocated.val totalDays
      (entryDate.number - s.cursor.number + 1)
      ((allocated.val * (entryDate.number - s.cursor.number + 1)).tdiv
        totalDays) := Part.tdiv _ hpos (by omega)
  have hrange := (hshare.inI64 hpos (by omega) allocated.inRange).1
  have hnext := hinv.part.add hshare
  have hsumRange := (hnext.inI64 hpos (by omega) allocated.inRange).1
  have halloc : I64.ofInt? ((allocated.val
      * (entryDate.number - s.cursor.number + 1)).tdiv totalDays)
        = some ⟨_, hrange⟩ := I64.ofInt?_eq_some.2 rfl
  have hassigned : s.assigned.checkedAdd ⟨_, hrange⟩ = some ⟨_, hsumRange⟩ :=
    I64.checkedAdd_eq_some.2 rfl
  have hsum : sumOf (s.entries ++ [⟨id, entryDate, ⟨_, hrange⟩, currency⟩])
      = s.assigned.val + (allocated.val
        * (entryDate.number - s.cursor.number + 1)).tdiv totalDays := by
    rw [sumOf_append, sumOf_singleton, hinv.sum]
  have hdays : s.cursor.number - start.number
      + (entryDate.number - s.cursor.number + 1) = d.number - start.number := by
    omega
  rw [hdays] at hnext
  have hfrom : start.number ≤ d.number := by omega
  refine ⟨⟨d, ⟨_, hsumRange⟩, s.entries ++ [⟨id, entryDate, ⟨_, hrange⟩,
    currency⟩]⟩, ⟨hd, _, rfl, rfl, rfl⟩, ⟨hfrom, hnext, hsum⟩, rfl, ?_⟩
  unfold straightLineTurn NaiveDate.numDays
  rw [if_pos (show s.cursor ≤ finish from hle)]
  simp only [hentry, halloc, hassigned, hsucc]

theorem BeforeLastMonth.of_le (h : BeforeLastMonth finish)
    (hle : d.number ≤ finish.number) : BeforeLastMonth d := by
  unfold BeforeLastMonth at h ⊢
  by_contra hlt
  have hmonth : finish.date.monthIndex < d.date.monthIndex := by omega
  have := Date.lt_of_monthIndex_lt hmonth
  unfold NaiveDate.number at hle
  omega

theorem isMonthEnd_of_number {i : Int} (h : d.number = monthStart (i + 1) - 1) :
    d.date.monthIndex = i ∧ IsMonthEnd d := by
  have hlen := le_monthLength i
  have hsucc := monthStart_succ i
  have hnumber : d.date.dayNumber = monthStart (i + 1) - 1 := h
  have hindex : d.date.monthIndex = i := by
    apply Date.monthIndex_eq
    · omega
    · omega
  refine ⟨hindex, ?_⟩
  have hday := Date.dayNumber_eq d.date
  rw [hindex] at hday
  unfold IsMonthEnd
  rw [← Date.monthLength_monthIndex, hindex]
  omega

/-- One turn goes on to the first day of the next month, or leaves the
loop in the last. -/
theorem straightLineTurn_spec (hfinish : BeforeLastMonth finish)
    (htotal : totalDays = finish.number - start.number + 1)
    (hinv : LineInv start allocated totalDays s) (hle : s.cursor.number ≤ finish.number) :
    ∃ s' entryDate, Books allocated totalDays s entryDate s'
      ∧ LineInv start allocated totalDays s'
      ∧ s.cursor.number ≤ entryDate.number
      ∧ ((straightLineTurn id finish allocated currency totalDays s = .next s'
          ∧ entryDate.date.monthIndex = s.cursor.date.monthIndex
          ∧ IsMonthEnd entryDate
          ∧ s'.cursor.date.monthIndex = s.cursor.date.monthIndex + 1
          ∧ s'.cursor.number ≤ finish.number)
        ∨ (straightLineTurn id finish allocated currency totalDays s = .leave s'
          ∧ entryDate = finish
          ∧ s.cursor.date.monthIndex = finish.date.monthIndex)) := by
  have hcursor := hfinish.of_le hle
  have hlast := number_lastDayOfMonth hcursor
  have hin := s.cursor.date.lt_monthStart
  have hfrom := s.cursor.date.monthStart_le
  have hmonthEnd : s.cursor.number ≤ (lastDayOfMonth s.cursor).number := by
    rw [hlast]
    unfold NaiveDate.number
    omega
  have hsucc : ∀ entryDate : NaiveDate,
      s.cursor.number ≤ entryDate.number →
      entryDate.number ≤ finish.number →
      ∃ d, entryDate.succOpt = some d ∧ d.number = entryDate.number + 1 := by
    intro entryDate hlo hhi
    apply exists_number_eq (a := s.cursor)
    · omega
    · have hbefore := monthStart_strictMono hfinish
      have hlt := finish.date.lt_monthStart
      unfold NaiveDate.number at hhi ⊢
      omega
  by_cases hlt : lastDayOfMonth s.cursor < finish
  · -- the month ends within the period
    have hnumber : (lastDayOfMonth s.cursor).number < finish.number := hlt
    obtain ⟨hmonth, hend⟩ := isMonthEnd_of_number hlast
    obtain ⟨d, hd, hdnumber⟩ := hsucc _ hmonthEnd hnumber.le
    obtain ⟨s', hbooks, hinv', hs', hturn⟩ := straightLineTurn_books id
      currency htotal hinv hle (if_pos hlt) (by omega) hnumber.le hd hdnumber
    have hnot : ¬ finish < d := by
      show ¬ finish.number < d.number
      omega
    rw [if_neg hnot] at hturn
    have hstartNext : d.date.dayNumber = monthStart (s.cursor.date.monthIndex + 1) := by
      show d.number = _
      omega
    have hnextMonth : d.date.monthIndex = s.cursor.date.monthIndex + 1 := by
      apply Date.monthIndex_eq
      · omega
      · have := monthStart_strictMono (Int.lt_succ (s.cursor.date.monthIndex + 1))
        omega
    refine ⟨s', _, hbooks, hinv', hmonthEnd, .inl ⟨hturn, hmonth, hend, ?_,
      ?_⟩⟩
    · rw [hs']
      exact hnextMonth
    · rw [hs']
      omega
  · -- the period ends within the month
    have hnumber : finish.number ≤ (lastDayOfMonth s.cursor).number :=
      Int.not_lt.1 hlt
    obtain ⟨d, hd, hdnumber⟩ := hsucc finish hle (le_refl _)
    obtain ⟨s', hbooks, hinv', -, hturn⟩ := straightLineTurn_books id
      currency htotal hinv hle (if_neg hlt) (by omega) (le_refl _) hd hdnumber
    have hafter : finish < d := by
      show finish.number < d.number
      omega
    rw [if_pos hafter] at hturn
    refine ⟨s', finish, hbooks, hinv', hle, .inr ⟨hturn, rfl, ?_⟩⟩
    symm
    unfold NaiveDate.number at hle hnumber hlast
    apply Date.monthIndex_eq
    · omega
    · omega

theorem Books.done (htotal : totalDays = finish.number - start.number + 1)
    (h : Books allocated totalDays s finish s') (hinv : LineInv start allocated totalDays s)
    (hinv' : LineInv start allocated totalDays s') (hle : s.cursor.number ≤ finish.number) :
    LineDone allocated totalDays s' := by
  obtain ⟨hnext, e, hentries, -⟩ := h
  refine ⟨hinv'.sum, ⟨_, ?_, hinv'.part⟩, s.entries, e, hentries, _, ?_, hinv.sum ▸ hinv.part⟩
  · omega
  · omega

/-- As many turns as there are days left are enough, and they book the
months left. -/
theorem straightLineLoop_ok (hfinish : BeforeLastMonth finish)
    (htotal : totalDays = finish.number - start.number + 1)
    (hinv : LineInv start allocated totalDays s) (hle : s.cursor.number ≤ finish.number) :
    ∃ s' es, LineDone allocated totalDays s'
      ∧ s'.entries = s.entries ++ es
      ∧ Monthly finish allocated totalDays s.cursor es
      ∧ ∀ fuel : Nat, finish.number - s.cursor.number < fuel →
        straightLineLoop id finish allocated currency totalDays fuel s = some (.ok s') := by
  -- by the days between the cursor and the end, which every turn lowers
  generalize hn : (finish.number - s.cursor.number).toNat = n
  induction n using Nat.strongRecOn generalizing s with
  | ind n ih =>
    obtain ⟨s', entryDate, hbooks, hinv', hlo, hturn⟩ :=
      straightLineTurn_spec id currency hfinish htotal hinv hle
    obtain ⟨hnextDay, e, hentries, hdate, hamount⟩ := hbooks
    rcases hturn with ⟨hturn, hmonth, hend, hindex, hle'⟩ | ⟨hturn, hlast, hmonth⟩
    · obtain ⟨s'', es, hdone, hes, hmonthly, hloop⟩ :=
        ih _ (by omega) hinv' hle' rfl
      subst hdate
      refine ⟨s'', e :: es, hdone, ?_,
        .month hlo hmonth hend hamount hnextDay hindex hmonthly,
        fun fuel hfuel => ?_⟩
      · rw [hes, hentries, List.append_assoc]
        rfl
      · cases fuel with
        | zero => omega
        | succ fuel =>
          unfold straightLineLoop
          rw [hturn]
          exact hloop fuel (by omega)
    · subst hlast
      refine ⟨s', [e], Books.done htotal
        ⟨hnextDay, e, hentries, hdate, hamount⟩ hinv hinv' hle, hentries,
        .last hle hmonth hdate, fun fuel hfuel => ?_⟩
      cases fuel with
      | zero => omega
      | succ fuel =>
        unfold straightLineLoop
        rw [hturn]

theorem plugLast_ok (hpos : 0 < totalDays) (h : LineDone allocated totalDays s) :
    ∃ init e plug, s.entries = init ++ [e]
      ∧ plugLast allocated s.assigned s.entries = .ok (init ++ [{ e with amountMinor := plug }])
      ∧ plug.val = allocated.val - sumOf init
      ∧ Between allocated.val (sumOf init) := by
  rcases h with ⟨hsum, ⟨w, hw, hpart⟩, init, e, hentries, w', hw', hinit⟩
  have hremainder : allocated.checkedSub s.assigned
      = some ⟨_, (hpart.inI64 hpos hw allocated.inRange).2⟩ :=
    I64.checkedSub_eq_some.2 rfl
  rw [hentries, sumOf_append, sumOf_singleton] at hsum
  let plug : I64 := ⟨_, (hinit.inI64 hpos hw' allocated.inRange).2⟩
  have hplug : addOrOverflow e.amountMinor
      ⟨_, (hpart.inI64 hpos hw allocated.inRange).2⟩ = .ok plug := by
    rw [addOrOverflow_ok]
    show allocated.val - sumOf init = e.amountMinor.val + (allocated.val - s.assigned.val)
    omega
  refine ⟨init, e, plug, hentries, ?_, rfl, hinit.between hpos hw'⟩
  unfold plugLast
  rw [hentries, List.getLast?_concat, List.dropLast_concat]
  simp only [hremainder]
  rw [ok_bind, hplug, ok_bind]
  rfl

/-- A straight-line schedule that ends before the last month goes through:
it is monthly, and its last entry is what the others leave. -/
theorem straightLine_ok (allocated : I64) (hle : start.number ≤ finish.number)
    (hfinish : BeforeLastMonth finish) :
    ∃ init e, Monthly finish allocated (finish.number - start.number + 1) start (init ++ [e])
      ∧ e.amountMinor.val = allocated.val - sumOf init
      ∧ Between allocated.val (sumOf init)
      ∧ ∀ fuel : Nat, finish.number - start.number < fuel →
        straightLine fuel id start finish allocated currency = some (.ok (init ++ [e])) := by
  have hinv : LineInv start allocated (finish.number - start.number + 1)
      { cursor := start, assigned := 0, entries := [] } := by
    refine ⟨le_refl _, ?_, rfl⟩
    rw [Int.sub_self]
    exact Part.zero _ _
  obtain ⟨s, es, hdone, hes, hmonthly, hloop⟩ :=
    straightLineLoop_ok id currency hfinish rfl hinv hle
  obtain ⟨init, e, plug, hentries, hplug, hval, hbetween⟩ :=
    plugLast_ok (by omega) hdone
  rw [List.nil_append] at hes
  rw [← hes, hentries] at hmonthly
  refine ⟨init, { e with amountMinor := plug }, hmonthly.plug, hval, hbetween,
    fun fuel hfuel => ?_⟩
  unfold straightLine NaiveDate.numDays
  rw [if_neg (show ¬ finish < start from not_lt.2 hle), if_neg (by omega), hloop fuel hfuel]
  exact congrArg some hplug

-- a loop that ends has added up what it assigned, whatever the dates

theorem straightLineTurn_sum (hsum : sumOf s.entries = s.assigned.val) (hle : s.cursor ≤ finish)
    (h : straightLineTurn id finish allocated currency totalDays s = .next s'
      ∨ straightLineTurn id finish allocated currency totalDays s = .leave s') :
    sumOf s'.entries = s'.assigned.val ∧ s'.entries ≠ [] := by
  unfold straightLineTurn at h
  rw [if_pos hle] at h
  simp only at h
  split at h
  case h_1 => rcases h with h | h <;> cases h
  case h_2 alloc _ =>
    split at h
    case h_1 => rcases h with h | h <;> cases h
    case h_2 assigned hadd =>
      have hnew : ∀ e : ScheduleEntry, e.amountMinor = alloc →
          sumOf (s.entries ++ [e]) = assigned.val := by
        intro e he
        rw [sumOf_append, sumOf_singleton, he, hsum, I64.checkedAdd_eq_some.1 hadd]
      split at h
      case h_1 =>
        rcases h with h | h <;> cases h
        exact ⟨hnew _ rfl, by simp⟩
      case h_2 =>
        split at h
        all_goals rcases h with h | h <;> cases h
        all_goals exact ⟨hnew _ rfl, by simp⟩

/-- The loop goes on only within the period. -/
theorem cursor_le_of_next (h : straightLineTurn id finish allocated currency totalDays s
      = .next s') : s'.cursor ≤ finish := by
  unfold straightLineTurn at h
  split at h
  case isFalse => cases h
  case isTrue =>
    simp only at h
    split at h
    case h_1 => cases h
    case h_2 =>
      split at h
      case h_1 => cases h
      case h_2 =>
        split at h
        case h_1 => cases h
        case h_2 =>
          split at h
          case isTrue => cases h
          case isFalse hnot =>
            cases h
            exact Int.not_lt.1 hnot

theorem straightLineLoop_sum {fuel : Nat}
    (hsum : sumOf s.entries = s.assigned.val) (hle : s.cursor ≤ finish)
    (h : straightLineLoop id finish allocated currency totalDays fuel s = some (.ok s')) :
    sumOf s'.entries = s'.assigned.val ∧ s'.entries ≠ [] := by
  induction fuel generalizing s with
  | zero => cases h
  | succ fuel ih =>
    unfold straightLineLoop at h
    split at h
    case h_1 s₁ hturn =>
      have hstep := straightLineTurn_sum id currency hsum hle (.inl hturn)
      exact ih hstep.1 (cursor_le_of_next id currency hturn) h
    case h_2 s₁ hturn =>
      cases h
      exact straightLineTurn_sum id currency hsum hle (.inr hturn)
    case h_3 => cases h

theorem sumOf_plugLast {assigned : I64} {es entries : List ScheduleEntry}
    (hsum : sumOf es = assigned.val) (hne : es ≠ [])
    (h : plugLast allocated assigned es = .ok entries) :
    sumOf entries = allocated.val := by
  rcases List.eq_nil_or_concat es with hnil | ⟨init, e, rfl⟩
  · exact absurd hnil hne
  · rw [List.concat_eq_append, sumOf_append, sumOf_singleton] at hsum
    unfold plugLast at h
    rw [List.concat_eq_append, List.getLast?_concat, List.dropLast_concat] at h
    simp only at h
    cases hrem : allocated.checkedSub assigned with
    | none =>
      rw [hrem] at h
      cases h
    | some remainder =>
      rw [hrem] at h
      rcases bind_eq_ok.1 h with ⟨r, hr, h₁⟩
      cases hr
      rcases bind_eq_ok.1 h₁ with ⟨amount, hadd, h₂⟩
      cases h₂
      rw [addOrOverflow_ok, I64.checkedSub_eq_some.1 hrem] at hadd
      rw [sumOf_append, sumOf_singleton]
      show sumOf init + amount.val = _
      omega

theorem sumOf_straightLine {fuel : Nat} {entries : List ScheduleEntry}
    (h : straightLine fuel id start finish allocated currency
      = some (.ok entries)) : sumOf entries = allocated.val := by
  unfold straightLine at h
  split at h
  case isTrue => cases h
  case isFalse hnot =>
    have hle : start ≤ finish := Int.not_lt.1 hnot
    simp only at h
    split at h
    case isTrue => cases h
    case isFalse =>
      rcases Option.map_eq_some_iff.1 h with ⟨r, hloop, hplug⟩
      cases r with
      | error e => cases hplug
      | ok s =>
        rcases straightLineLoop_sum id currency (s := ⟨start, 0, []⟩)
          rfl hle hloop with ⟨hsum, hne⟩
        exact sumOf_plugLast hsum hne hplug

end

-- ==== measured progress

section
variable {id : ObligationId} {currency : Currency} {allocated : I64}
  {parts : List (NaiveDate × Decimal)}

theorem sumOf_zipWith {α : Type} {f : α → I64 → ScheduleEntry}
    (hf : ∀ a x, (f a x).amountMinor = x) {items : List α} {xs : List I64}
    (hlen : xs.length = items.length) :
    sumOf (items.zipWith f xs) = (xs.map I64.val).sum := by
  induction items generalizing xs with
  | nil =>
    rw [List.length_nil, List.length_eq_zero_iff] at hlen
    rw [hlen]
    rfl
  | cons a items ih =>
    cases xs with
    | nil => cases hlen
    | cons x xs =>
      have htail := ih (Nat.succ.inj hlen)
      unfold sumOf at htail ⊢
      rw [List.zipWith_cons_cons, List.map_cons, List.sum_cons, htail,
        List.map_cons, List.sum_cons, hf]

theorem sumOf_measured {entries : List ScheduleEntry} (hne : parts ≠ [])
    (h : measured id parts allocated currency = .ok entries) :
    sumOf entries = allocated.val := by
  unfold measured at h
  rcases bind_eq_ok.1 h with ⟨amounts, hamounts, h₁⟩
  cases h₁
  rw [sumOf_zipWith (fun _ _ => rfl) (length_of_apportion hamounts)]
  have hsum := sum_of_apportion hne hamounts
  rw [I64.val_zero, zero_add] at hsum
  exact hsum

/-- The running total of the rounded parts and the plug stay in range. -/
def PartsFit (allocated : I64) (parts : List (NaiveDate × Decimal)) : Prop :=
  FitsFrom allocated.val (fun p => (roundedShare allocated p.2).val) 0 parts

theorem measured_ok_iff :
    (∃ entries, measured id parts allocated currency = .ok entries)
      ↔ PartsFit allocated parts := by
  have hiff : (∃ xs, apportion overflow allocated
      (fun p => .ok (roundedShare allocated p.2)) 0 parts = .ok xs)
        ↔ FitsFrom allocated.val (fun p => (roundedShare allocated p.2).val)
          (0 : I64).val parts := apportion_ok_iff fun _ _ => rfl
  unfold PartsFit
  rw [I64.val_zero] at hiff
  rw [← hiff]
  unfold measured
  constructor
  · intro h
    rcases h with ⟨entries, h⟩
    rcases bind_eq_ok.1 h with ⟨amounts, hamounts, -⟩
    exact ⟨amounts, hamounts⟩
  · intro h
    rcases h with ⟨amounts, hamounts⟩
    exact ⟨_, by rw [hamounts]; rfl⟩

theorem deltas_ne_nil {snapshots : List PercentCompleteSnapshot}
    (h : snapshots ≠ []) (last : Decimal) : deltas last snapshots ≠ [] := by
  cases snapshots with
  | nil => exact absurd rfl h
  | cons s snapshots => exact List.cons_ne_nil _ _

theorem validateMonotone_ok_iff {snapshots : List PercentCompleteSnapshot} {prev : Decimal} :
    validateMonotone prev snapshots = .ok ()
      ↔ (prev :: snapshots.map PercentCompleteSnapshot.percent).IsChain (· ≤ ·) := by
  induction snapshots generalizing prev with
  | nil => exact iff_of_true rfl (.singleton prev)
  | cons s snapshots ih =>
    unfold validateMonotone
    rw [List.map_cons, List.isChain_cons_cons, ← ih]
    by_cases h : s.percent < prev
    · rw [if_pos h]
      exact iff_of_false nofun fun hand => not_le.2 h hand.1
    · rw [if_neg h]
      exact (and_iff_right (not_lt.1 h)).symm

end

-- ==== generate

/-- The pattern has a schedule up front: it is not by usage, and names a
milestone or a snapshot where it lists them. -/
def Planned : RecognitionPattern → Prop
  | .pointInTime _ => True
  | .straightLine _ _ => True
  | .outputMilestones milestones => milestones ≠ []
  | .inputPercentComplete snapshots => snapshots ≠ []
  | .usage _ => False

instance : DecidablePred Planned
  | .pointInTime _ => .isTrue trivial
  | .straightLine _ _ => .isTrue trivial
  | .outputMilestones milestones => inferInstanceAs (Decidable (milestones ≠ []))
  | .inputPercentComplete snapshots =>
    inferInstanceAs (Decidable (snapshots ≠ []))
  | .usage _ => .isFalse id

/-- The pattern passes the checks for the allocation: the period is not
reversed (and ends before the last month of the calendar), the fractions
sum to one within the tolerance, the percents do not decrease, and no
running total leaves the 64 bits. -/
def Accepts (allocated : I64) : RecognitionPattern → Prop
  | .pointInTime _ => True
  | .straightLine start finish => start ≤ finish ∧ BeforeLastMonth finish
  | .outputMilestones milestones =>
    |(milestones.map Milestone.fraction).sum - 1| ≤ eps
      ∧ PartsFit allocated (milestones.map fun m => (m.date, m.fraction))
  | .inputPercentComplete snapshots =>
    (0 :: snapshots.map PercentCompleteSnapshot.percent).IsChain (· ≤ ·)
      ∧ PartsFit allocated (deltas 0 snapshots)
  | .usage _ => True

section
variable {o : PerformanceObligation} {allocated : I64} (currency : Currency)

theorem generate_ok (h : Accepts allocated o.pattern) :
    ∃ s enough, ∀ fuel, enough ≤ fuel → generate fuel o allocated currency = some (.ok s) := by
  unfold generate
  cases hpattern : o.pattern with
  | pointInTime date => exact ⟨_, 0, fun _ _ => rfl⟩
  | straightLine start finish =>
    rw [hpattern] at h
    rcases straightLine_ok o.id currency allocated h.1 h.2 with
      ⟨init, e, -, -, -, hline⟩
    refine ⟨⟨o.id, init ++ [e]⟩, (finish.number - start.number + 1).toNat,
      fun fuel hfuel => ?_⟩
    show Option.map _ (straightLine fuel _ _ _ _ _) = _
    rw [hline fuel (by omega)]
    rfl
  | outputMilestones milestones =>
    rw [hpattern] at h
    obtain ⟨entries, hentries⟩ : ∃ entries, measured o.id
        (milestones.map fun m => (m.date, m.fraction)) allocated currency
          = .ok entries := measured_ok_iff.2 h.2
    refine ⟨⟨o.id, entries⟩, 0, fun _ _ => ?_⟩
    unfold outputMilestones
    simp only [if_neg (not_lt.2 h.1), hentries]
    rfl
  | inputPercentComplete snapshots =>
    rw [hpattern] at h
    obtain ⟨entries, hentries⟩ : ∃ entries, measured o.id
        (deltas 0 snapshots) allocated currency = .ok entries :=
      measured_ok_iff.2 h.2
    refine ⟨⟨o.id, entries⟩, 0, fun _ _ => ?_⟩
    unfold inputPercentComplete
    simp only [validateMonotone_ok_iff.2 h.1, ok_bind, hentries]
    rfl
  | usage unitPriceMinor => exact ⟨_, 0, fun _ _ => rfl⟩

theorem sumOf_generate {fuel : Nat} {s : RecognitionSchedule} (hplanned : Planned o.pattern)
    (h : generate fuel o allocated currency = some (.ok s)) :
    sumOf s.entries = allocated.val := by
  unfold generate at h
  rcases Option.map_eq_some_iff.1 h with ⟨r, hr, hs⟩
  cases r with
  | error e => cases hs
  | ok entries =>
    cases hs
    cases hpattern : o.pattern with
    | pointInTime date =>
      rw [hpattern] at hr
      cases hr
      exact sumOf_singleton _
    | straightLine start finish =>
      rw [hpattern] at hr
      exact sumOf_straightLine _ _ hr
    | outputMilestones milestones =>
      rw [hpattern] at hr hplanned
      have hne : milestones.map (fun m => (m.date, m.fraction)) ≠ [] :=
        fun hnil => hplanned (List.map_eq_nil_iff.1 hnil)
      have hok := Option.some.inj hr
      unfold outputMilestones at hok
      simp only at hok
      split at hok
      case isTrue => cases hok
      case isFalse => exact sumOf_measured hne hok
    | inputPercentComplete snapshots =>
      rw [hpattern] at hr hplanned
      rcases bind_eq_ok.1 (Option.some.inj hr) with ⟨-, -, hok⟩
      exact sumOf_measured (deltas_ne_nil hplanned 0) hok
    | usage unitPriceMinor =>
      rw [hpattern] at hplanned
      exact hplanned.elim

theorem totalMinor_eq (s : RecognitionSchedule) : s.totalMinor = .wrap (sumOf s.entries) := by
  have hfold : ∀ (es : List ScheduleEntry) (x : Int),
      es.foldl (fun acc e => acc.wrappingAdd e.amountMinor) (I64.wrap x)
        = .wrap (x + sumOf es) := by
    intro es
    induction es with
    | nil =>
      intro x
      exact congrArg I64.wrap (add_zero x).symm
    | cons e es ih =>
      intro x
      rw [List.foldl_cons, ← I64.wrap_val e.amountMinor, I64.wrappingAdd_wrap, ih]
      unfold sumOf
      rw [List.map_cons, List.sum_cons, add_assoc]
  have hzero := hfold s.entries 0
  rw [zero_add] at hzero
  exact hzero

end

end OpenStandards.OpRevrec

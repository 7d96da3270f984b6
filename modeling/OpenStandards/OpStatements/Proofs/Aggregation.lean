/-
What aggregation makes of a statement.

There is one aggregate for each currency of the lines and one for the
primary currency, and each ends where it opened, moved by what its lines
change (`aggregates_ok`). A change is the signed amount that a line says
it contributes, save that a magnitude is taken of `i64::MIN` which it does
not have: an outflow of it is added by the aggregate and taken away by
the line. Without such a line the aggregates are true, and with one they
never are (`aggregate_true_iff`).
-/
import OpenStandards.OpStatements.Proofs.Balances

namespace OpenStandards.OpStatements

open Lib OpCore

-- ==== aggregates

theorem Statement.settle_opening {primary : Currency} {opening : I64}
    {agg agg' : CurrencyAggregate} (h : Statement.settle primary opening agg = .ok agg') :
    agg'.opening.minorUnits = if agg'.currency = primary then opening else 0 := by
  unfold Statement.settle at h
  iterate 6 obtain ⟨_, _, h⟩ := bind_eq_ok.1 h
  cases h
  rfl

theorem currency_of_foldlM {primary : Currency} {lines : List StatementLine}
    {aggs : List CurrencyAggregate}
    (h : lines.foldlM Statement.tally [.zero primary] = .ok aggs) :
    ∀ agg ∈ aggs, agg.currency = primary
      ∨ ∃ line ∈ lines, line.amount.currency = agg.currency := by
  refine foldlM_ok (P := fun lines aggs => ∀ agg ∈ aggs,
    agg.currency = primary ∨ ∃ line ∈ lines, line.amount.currency = agg.currency) ?_ ?_ h
  · intro agg hagg
    rw [List.mem_singleton.1 hagg]
    exact Or.inl rfl
  · intro pre aggs line aggs' hpre htally agg hagg
    have hold : ∀ a ∈ aggs, a.currency = primary
        ∨ ∃ l ∈ pre ++ [line], l.amount.currency = a.currency := by
      intro a ha
      refine (hpre a ha).imp_right ?_
      rintro ⟨l, hl, heq⟩
      exact ⟨l, List.mem_append_left _ hl, heq⟩
    have hnew : agg.currency = line.amount.currency →
        agg.currency = primary ∨ ∃ l ∈ pre ++ [line], l.amount.currency = agg.currency :=
      fun heq => Or.inr ⟨line, by simp, heq.symm⟩
    simp only [Statement.tally] at htally
    split at htally
    case h_1 i hfind =>
      obtain ⟨a, hadd, heq⟩ := bind_eq_ok.1 htally
      cases heq
      obtain ⟨hlt, hcur, -⟩ := List.findIdx?_eq_some_iff_getElem.1 hfind
      rcases List.mem_or_eq_of_mem_set hagg with hmem | rfl
      · exact hold agg hmem
      · apply hnew
        rw [(Statement.addLine_ok hadd).1, List.getD_eq_getElem?_getD,
          List.getElem?_eq_getElem hlt]
        exact of_decide_eq_true hcur
    case h_2 =>
      obtain ⟨a, hadd, heq⟩ := bind_eq_ok.1 htally
      cases heq
      rcases List.mem_append.1 hagg with hmem | hmem
      · exact hold agg hmem
      · rw [List.mem_singleton.1 hmem]
        rw [List.mem_singleton.1 hmem] at hnew
        exact hnew (Statement.addLine_ok hadd).1

variable {s s' : Statement}

theorem aggregates_ok (h : s.aggregate = .ok s') :
    (s'.aggregates.map CurrencyAggregate.currency).Nodup
      ∧ (∀ currency, currency ∈ s'.aggregates.map CurrencyAggregate.currency
        ↔ currency = s.primaryCurrency ∨ ∃ line ∈ s.lines, line.amount.currency = currency)
      ∧ ∀ agg ∈ s'.aggregates,
        agg.opening.minorUnits
          = (if agg.currency = s.primaryCurrency then s.opening.minorUnits
            else 0)
        ∧ agg.ending.minorUnits.val
          = agg.opening.minorUnits.val + changeIn agg.currency s.lines := by
  unfold Statement.aggregate at h
  obtain ⟨byCurrency, hfold, h⟩ := bind_eq_ok.1 h
  obtain ⟨aggregates, hmap, h⟩ := bind_eq_ok.1 h
  cases h
  have hrolled := rolledUp_of_foldlM hfold
  rw [mapM_ok_iff] at hmap
  have hcurrencies := settle_currencies hmap
  refine ⟨?_, ?_, ?_⟩
  · rw [hcurrencies]
    exact hrolled.nodup
  · intro currency
    rw [hcurrencies]
    constructor
    · intro hmem
      obtain ⟨agg, hagg, rfl⟩ := List.mem_map.1 hmem
      exact currency_of_foldlM hfold agg hagg
    · rintro (rfl | ⟨line, hline, rfl⟩)
      · exact hrolled.primary
      · exact hrolled.other line hline
  · intro agg' hagg'
    obtain ⟨agg, hagg, hsettle⟩ := exists_of_forall₂ hmap.flip hagg'
    obtain ⟨hcurrency, hbalance⟩ := Statement.settle_ok hsettle
    refine ⟨Statement.settle_opening hsettle, ?_⟩
    rw [changeIn_eq, hcurrency]
    simp only [hrolled.booked agg hagg] at hbalance
    omega

/-- The opening balance is kept for the next time. -/
theorem opening_aggregate (h : s.aggregate = .ok s') :
    s'.opening.minorUnits = s.opening.minorUnits := by
  obtain ⟨-, hcurrencies, hbalances⟩ := aggregates_ok h
  have hprimary : s'.primaryCurrency = s.primaryCurrency :=
    (aggregate_ok h).2.1
  obtain ⟨agg, hagg, hcurrency⟩ :=
    List.mem_map.1 ((hcurrencies s.primaryCurrency).2 (Or.inl rfl))
  unfold Statement.opening
  rw [hprimary]
  split
  case h_1 a hfind =>
    have ha := List.find?_some hfind
    rw [(hbalances a (List.mem_of_find?_eq_some hfind)).1, if_pos (of_decide_eq_true ha)]
    rfl
  case h_2 hnone =>
    have := List.find?_eq_none.1 hnone agg hagg
    exact absurd (decide_eq_true hcurrency) this

theorem aggregate_again (h : s.aggregate = .ok s') : s'.aggregate = .ok s' := by
  have hopening := opening_aggregate h
  unfold Statement.aggregate at h
  obtain ⟨byCurrency, hfold, h⟩ := bind_eq_ok.1 h
  obtain ⟨aggregates, hmap, h⟩ := bind_eq_ok.1 h
  cases h
  unfold Statement.aggregate
  rw [hopening]
  dsimp only
  rw [hfold, ok_bind, hmap]
  rfl

-- ==== signed amounts

def StatementLine.Least (line : StatementLine) : Prop :=
  line.kind.isOutflow = true ∧ line.amount.minorUnits = .minValue

instance (line : StatementLine) : Decidable line.Least :=
  inferInstanceAs (Decidable (_ ∧ _))

/-- What a line says it contributes is what it changes, or less than that
by the whole width. -/
theorem StatementLine.signed_eq (line : StatementLine) :
    line.signedMinorUnits.val = line.change
      - if line.Least then 18446744073709551616 else 0 := by
  have hneg : ∀ {a : I64}, a ≠ .minValue → a.abs.wrappingNeg.val = -a.abs.val := by
    intro a ha
    have hrange := a.inRange
    have hval : a.val ≠ -9223372036854775808 := fun h => ha (I64.ext h)
    rw [I64.wrappingNeg, I64.val_wrap]
    rw [I64.val_abs ha]
    unfold InI64 at hrange ⊢
    omega
  by_cases hleast : line.Least
  · have ⟨hout, hmin⟩ := hleast
    rw [if_pos hleast]
    unfold StatementLine.signedMinorUnits StatementLine.change StatementLine.booked
    rw [hmin, if_pos hout]
    cases line.kind <;> rfl
  · rw [if_neg hleast, Int.sub_zero]
    have hne : line.kind.isOutflow = true → line.amount.minorUnits ≠ .minValue :=
      fun hout hmin => hleast ⟨hout, hmin⟩
    unfold StatementLine.signedMinorUnits StatementLine.change StatementLine.booked
    cases hkind : line.kind
    all_goals
      rw [hkind] at hne
      first
        | exact hneg (hne rfl)
        | rfl

theorem sum_signed (lines : List StatementLine) :
    (lines.map fun l => l.signedMinorUnits.val).sum
      = (lines.map StatementLine.change).sum
        - 18446744073709551616 * lines.countP fun l => decide l.Least := by
  induction lines with
  | nil => rfl
  | cons line lines ih =>
    rw [List.map_cons, List.sum_cons, List.map_cons, List.sum_cons, ih,
      StatementLine.signed_eq, List.countP_cons]
    by_cases hleast : line.Least
    · simp only [hleast, if_true, decide_true]
      push_cast
      ring
    · simp only [hleast, if_false, decide_false, Bool.false_eq_true]
      push_cast
      ring

/-- There is one aggregate for each currency of the lines and the primary
one, and each ends at its opening, none but the primary one's other than
0, and the signed amounts of its lines. -/
structure AggregatesTrue (s s' : Statement) : Prop where
  nodup : (s'.aggregates.map CurrencyAggregate.currency).Nodup
  currencies : ∀ currency,
    currency ∈ s'.aggregates.map CurrencyAggregate.currency
      ↔ currency = s.primaryCurrency ∨ ∃ line ∈ s.lines, line.amount.currency = currency
  opening : ∀ agg ∈ s'.aggregates, agg.opening.minorUnits
    = if agg.currency = s.primaryCurrency then s.opening.minorUnits else 0
  ending : ∀ agg ∈ s'.aggregates, agg.ending.minorUnits.val
    = agg.opening.minorUnits.val + ((linesIn agg.currency s.lines).map
      fun l => l.signedMinorUnits.val).sum

/-- Aggregation that succeeds is true exactly of lines without an outflow
of the least amount, and changes nothing the second time; where it fails
the statement is unchanged. -/
theorem aggregate_true_iff (s : Statement) :
    (∀ s', s.aggregateCall = (.ok (), s') →
      (AggregatesTrue s s' ↔ ∀ line ∈ s.lines,
        line.kind.isOutflow = true → line.amount.minorUnits ≠ .minValue)
      ∧ s'.aggregateCall = (.ok (), s'))
    ∧ ∀ e s', s.aggregateCall = (.error e, s') → s' = s := by
  unfold Statement.aggregateCall
  cases h : s.aggregate with
  | error e =>
    refine ⟨fun s' hs' => ?_, fun e' s' hs' => ?_⟩
    · cases hs'
    · cases hs'
      rfl
  | ok s₁ =>
    refine ⟨fun s' hs' => ?_, fun e' s' hs' => ?_⟩
    · cases hs'
      obtain ⟨hnodup, hcurrencies, hbalances⟩ := aggregates_ok h
      refine ⟨?_, ?_⟩
      · constructor
        · intro htrue line hline hout hmin
          obtain ⟨agg, hagg, hcurrency⟩ :=
            List.mem_map.1 ((hcurrencies _).2 (Or.inr ⟨line, hline, rfl⟩))
          have hending := htrue.ending agg hagg
          rw [(hbalances agg hagg).2, sum_signed] at hending
          have hcount : (linesIn agg.currency s.lines).countP
              (fun l => decide l.Least) = 0 := by
            unfold changeIn at hending
            omega
          have hmem : line ∈ linesIn agg.currency s.lines :=
            List.mem_filter.2 ⟨hline, decide_eq_true hcurrency.symm⟩
          exact List.countP_eq_zero.1 hcount line hmem (decide_eq_true ⟨hout, hmin⟩)
        · intro hlines
          refine ⟨hnodup, hcurrencies, fun agg hagg => (hbalances agg
            hagg).1, fun agg hagg => ?_⟩
          have hcount : (linesIn agg.currency s.lines).countP
              (fun l => decide l.Least) = 0 := by
            rw [List.countP_eq_zero]
            intro line hline hleast
            obtain ⟨hout, hmin⟩ := of_decide_eq_true hleast
            exact hlines line (List.mem_filter.1 hline).1 hout hmin
          rw [(hbalances agg hagg).2, sum_signed, hcount]
          unfold changeIn
          omega
      · rw [aggregate_again h]
    · cases hs'

def leastRefund : Statement :=
  { id := "s", merchantId := "m", period := ⟨0, 1⟩, primaryCurrency := .USD
    lines := [{ id := "l", kind := .refund
                amount := { minorUnits := .minValue, currency := .USD }
                postedAtUnixSecs := 0, externalId := none, metadata := [] }]
    aggregates := [{ CurrencyAggregate.zero .USD with
      opening := { minorUnits := ⟨-1, by decide⟩, currency := .USD } }] }

/-- The refund leaves the greatest balance. -/
theorem leastRefund_untrue :
    ¬ ∀ s s' : Statement, s.aggregateCall = (.ok (), s') → AggregatesTrue s s' := by
  intro h
  have hcall : leastRefund.aggregateCall.1 = .ok () := by decide +kernel
  have htrue := h leastRefund leastRefund.aggregateCall.2 (Prod.ext hcall rfl)
  have hending : ∀ agg ∈ leastRefund.aggregateCall.2.aggregates,
      agg.ending.minorUnits.val ≠ agg.opening.minorUnits.val
        + ((linesIn agg.currency leastRefund.lines).map
          fun l => l.signedMinorUnits.val).sum := by
    decide +kernel
  obtain ⟨agg, hagg, -⟩ :=
    List.mem_map.1 ((htrue.currencies .USD).2 (Or.inl rfl))
  exact hending agg hagg (htrue.ending agg hagg)

end OpenStandards.OpStatements

/-
The merchant-facing statement (op-statements `statement.rs`,
`cadence.rs`, `error.rs`).

The fields of the source's structs are public, so a `Statement` of this
model is any value of the type; `Built` is the set of those that the
constructor and the builders produce.
-/
import OpenStandards.OpCore.Money
import OpenStandards.Lib.Fallible

namespace OpenStandards.OpStatements

open Lib OpCore

/-- The failure modes of the modelled functions. -/
inductive Error where
  | currencyMismatch (line statement : String)
  | duplicateLineId (id : String)
  | invalidPeriod (start finish : Nat)
  | degenerateCadence (periodSecs : Nat)
  | overflow
deriving DecidableEq

/-- A closed period on the unix timeline. -/
structure Period where
  startUnixSecs : Nat
  endUnixSecs : Nat
deriving DecidableEq

def Period.new (startUnixSecs endUnixSecs : Nat) : Except Error Period :=
  if endUnixSecs < startUnixSecs then
    .error (.invalidPeriod startUnixSecs endUnixSecs)
  else .ok { startUnixSecs, endUnixSecs }

theorem Period.le_of_new {start finish : Nat} {p : Period}
    (h : Period.new start finish = .ok p) : start ≤ finish := by
  unfold Period.new at h
  split at h
  case isTrue => cases h
  case isFalse hle => exact Nat.not_lt.1 hle

-- ==== cadences

/-- How statements recur. -/
inductive Cadence where
  | daily
  | weekly
  | monthly
  | custom (periodSecs : UInt64)

namespace Cadence

/-- The length of a period, which is not zero. -/
def periodSecs : Cadence → Except Error { secs : Nat // 0 < secs }
  | .daily => .ok ⟨86400, by decide⟩
  | .weekly => .ok ⟨7 * 86400, by decide⟩
  | .monthly => .ok ⟨30 * 86400, by decide⟩
  | .custom secs =>
    if h : 0 < secs.toNat then .ok ⟨secs.toNat, h⟩
    else .error (.degenerateCadence 0)

/-- `u64::MAX` -/
def u64Max : Nat := 18446744073709551615

/-- `u64::saturating_add` -/
def satAdd (a b : Nat) : Nat := min (a + b) u64Max

/-- `u64::saturating_mul` -/
def satMul (a b : Nat) : Nat := min (a * b) u64Max

theorem left_lt (period : { secs : Nat // 0 < secs }) {start : Nat}
    (hle : start ≤ satAdd start period - 1) :
    u64Max - satAdd start period < u64Max - start := by
  have := period.2
  unfold satAdd u64Max at *
  omega

/-- The loop over the periods from `start` on. -/
def collect (period : { secs : Nat // 0 < secs }) (to_ start : Nat)
    (out : List Period) : Except Error (List Period) :=
  if satAdd start period ≤ satAdd to_ 1 then
    match _hnew : Period.new start (satAdd start period - 1) with
    | .error e => .error e
    | .ok p => collect period to_ (satAdd start period) (out ++ [p])
  else .ok out
termination_by u64Max - start
decreasing_by exact left_lt period (Period.le_of_new _hnew)

/-- The periods from an anchor on that lie within `[from_, to_]`. -/
def enumerate (c : Cadence) (anchor from_ to_ : Nat) : Except Error (List Period) := do
  let period ← c.periodSecs
  if to_ < from_ then .error (.invalidPeriod from_ to_)
  else
    let start :=
      if from_ ≤ anchor then anchor
      else
        let k := (from_ - anchor + (period - 1)) / period
        satAdd anchor (satMul k period)
    collect period to_ start []

end Cadence

-- ==== lines

/-- What category a line represents. -/
inductive StatementLineKind where
  | grossCapture
  | refund
  | chargeback
  | fee
  | payout
  | adjustment
deriving DecidableEq

/-- Does this kind reduce the merchant's retained balance? -/
def StatementLineKind.isOutflow : StatementLineKind → Bool
  | .refund | .chargeback | .fee | .payout => true
  | .grossCapture | .adjustment => false

structure StatementLine where
  id : String
  kind : StatementLineKind
  amount : Money
  postedAtUnixSecs : Nat
  externalId : Option String
  metadata : List (String × String)
deriving DecidableEq

namespace StatementLine

/-- What a line contributes to the ending balance. -/
def signedMinorUnits (l : StatementLine) : I64 :=
  let mag := l.amount.minorUnits.abs
  match l.kind with
  | .grossCapture => mag
  | .refund | .chargeback | .fee | .payout => mag.wrappingNeg
  | .adjustment => l.amount.minorUnits

def new (id : String) (kind : StatementLineKind) (amount : Money)
    (postedAtUnixSecs : Nat) : StatementLine :=
  { id, kind
    amount :=
      { minorUnits := amount.minorUnits.abs, currency := amount.currency }
    postedAtUnixSecs, externalId := none, metadata := [] }

def withExternalId (l : StatementLine) (id : String) : StatementLine :=
  { l with externalId := some id }

end StatementLine

-- ==== statements

/-- Per-currency rolled-up totals. -/
structure CurrencyAggregate where
  currency : Currency
  opening : Money
  grossVolume : Money
  refunds : Money
  chargebacks : Money
  fees : Money
  payouts : Money
  adjustments : Money
  ending : Money
deriving DecidableEq

def CurrencyAggregate.zero (currency : Currency) : CurrencyAggregate :=
  let z := Money.zero currency
  { currency, opening := z, grossVolume := z, refunds := z
    chargebacks := z, fees := z, payouts := z, adjustments := z
    ending := z }

structure Statement where
  id : String
  merchantId : String
  period : Period
  primaryCurrency : Currency
  lines : List StatementLine
  aggregates : List CurrencyAggregate
deriving DecidableEq

namespace Statement

def new (id merchantId : String) (period : Period)
    (primaryCurrency : Currency) : Except Error Statement :=
  if period.endUnixSecs < period.startUnixSecs then
    .error (.invalidPeriod period.startUnixSecs period.endUnixSecs)
  else
    .ok { id, merchantId, period, primaryCurrency, lines := []
          aggregates := [.zero primaryCurrency] }

/-- Attach the opening balance to the first aggregate in the primary
currency. -/
def withOpening (s : Statement) (opening : Money) : Except Error Statement :=
  if opening.currency ≠ s.primaryCurrency then
    .error (.currencyMismatch opening.currency.code s.primaryCurrency.code)
  else
    match s.aggregates.findIdx? fun a => a.currency = s.primaryCurrency with
    | some i =>
      .ok { s with aggregates :=
        s.aggregates.modify i fun a => { a with opening, ending := opening } }
    | none => .ok s

def pushLine (s : Statement) (line : StatementLine) : Except Error Statement :=
  if s.lines.any fun l => l.id = line.id then
    .error (.duplicateLineId line.id)
  else .ok { s with lines := s.lines ++ [line] }

-- ==== aggregation

def bump (total : Money) (x : I64) : Except Error Money :=
  match total.minorUnits.checkedAdd x with
  | some minorUnits => .ok { total with minorUnits }
  | none => .error .overflow

def addLine (agg : CurrencyAggregate) (line : StatementLine) : Except Error CurrencyAggregate :=
  let mag := line.amount.minorUnits.abs
  match line.kind with
  | .grossCapture => do
    return { agg with grossVolume := ← bump agg.grossVolume mag }
  | .refund => do return { agg with refunds := ← bump agg.refunds mag }
  | .chargeback => do
    return { agg with chargebacks := ← bump agg.chargebacks mag }
  | .fee => do return { agg with fees := ← bump agg.fees mag }
  | .payout => do return { agg with payouts := ← bump agg.payouts mag }
  | .adjustment => do
    return { agg with
      adjustments := ← bump agg.adjustments line.amount.minorUnits }

/-- A line among the aggregates so far: in the first of its currency, or in
a new one at the end. -/
def tally (aggs : List CurrencyAggregate) (line : StatementLine) :
    Except Error (List CurrencyAggregate) :=
  let cur := line.amount.currency
  match aggs.findIdx? fun a => decide (a.currency = cur) with
  | some i => do
    let agg ← addLine (aggs.getD i (.zero cur)) line
    return aggs.set i agg
  | none => do
    let agg ← addLine (.zero cur) line
    return aggs ++ [agg]

def checkedAdd (a b : I64) : Except Error I64 :=
  match a.checkedAdd b with
  | some x => .ok x
  | none => .error .overflow

def checkedSub (a b : I64) : Except Error I64 :=
  match a.checkedSub b with
  | some x => .ok x
  | none => .error .overflow

def settle (primaryCurrency : Currency) (opening : I64)
    (agg : CurrencyAggregate) : Except Error CurrencyAggregate := do
  let starting := if agg.currency = primaryCurrency then opening else 0
  let ending ← checkedAdd starting agg.grossVolume.minorUnits
  let ending ← checkedSub ending agg.refunds.minorUnits
  let ending ← checkedSub ending agg.chargebacks.minorUnits
  let ending ← checkedSub ending agg.fees.minorUnits
  let ending ← checkedSub ending agg.payouts.minorUnits
  let ending ← checkedAdd ending agg.adjustments.minorUnits
  return { agg with
    opening := .fromMinor starting agg.currency
    ending := .fromMinor ending agg.currency }

def opening (s : Statement) : Money :=
  match s.aggregates.find? fun a => decide (a.currency = s.primaryCurrency) with
  | some a => a.opening
  | none => .zero s.primaryCurrency

def aggregate (s : Statement) : Except Error Statement := do
  let byCurrency ← s.lines.foldlM tally [.zero s.primaryCurrency]
  let aggregates ← byCurrency.mapM
    (settle s.primaryCurrency s.opening.minorUnits)
  return { s with aggregates }

/-- `aggregate` as the call on a statement: its result, and the statement
after it. -/
def aggregateCall (s : Statement) : Except Error Unit × Statement :=
  match s.aggregate with
  | .ok s' => (.ok (), s')
  | .error e => (.error e, s)

def primaryAggregate (s : Statement) : CurrencyAggregate :=
  (s.aggregates.find? fun a => decide (a.currency = s.primaryCurrency)).getD (.zero .USD)

/-- The statements the constructor and the builders produce. -/
inductive Built : Statement → Prop
  | new {id m p c s} : Statement.new id m p c = .ok s → Built s
  | withOpening {s s' m} : Built s → s.withOpening m = .ok s' → Built s'
  | pushLine {s s' l} : Built s → s.pushLine l = .ok s' → Built s'
  | aggregate {s s'} : Built s → s.aggregate = .ok s' → Built s'

theorem Built.nodup_ids {s : Statement} (h : s.Built) :
    (s.lines.map StatementLine.id).Nodup := by
  induction h with
  | new hnew =>
    unfold Statement.new at hnew
    split at hnew
    · cases hnew
    · cases hnew
      exact List.nodup_nil
  | withOpening _ hopen ih =>
    unfold Statement.withOpening at hopen
    split at hopen
    · cases hopen
    · split at hopen
      · cases hopen
        exact ih
      · cases hopen
        exact ih
  | @pushLine s _ l _ hpush ih =>
    unfold Statement.pushLine at hpush
    split at hpush
    case isTrue => cases hpush
    case isFalse hfresh =>
      cases hpush
      have hnew : l.id ∉ s.lines.map StatementLine.id := by
        intro hmem
        rcases List.mem_map.1 hmem with ⟨l', hl', heq⟩
        exact hfresh (List.any_eq_true.2 ⟨l', hl', by simp [heq]⟩)
      rw [List.map_append]
      exact ih.append (List.nodup_singleton _) (List.disjoint_singleton.2 hnew)
  | aggregate _ hagg ih =>
    obtain ⟨_, -, hagg⟩ := bind_eq_ok.1 hagg
    obtain ⟨_, -, hagg⟩ := bind_eq_ok.1 hagg
    cases hagg
    exact ih

end Statement

/-
Reconciliation of a statement against ledger entries (op-statements
`reconcile.rs`).

The locals of `reconcile` are one record, and each of its three passes is
a step of that record. The differences are the plain `-` of the source,
which wraps in a release build.
-/

/-- Direction of a ledger entry from the merchant's view. -/
inductive LedgerDirection where
  | credit
  | debit

/-- A ledger entry joined with its parent transaction. -/
structure LedgerEntry where
  id : String
  externalId : Option String
  amount : Money
  direction : LedgerDirection
  postedAtUnixSecs : Nat

/-- Match status for one reconciliation record. -/
inductive ReconStatus where
  | matched
  | missingInLedger
  | missingOnStatement
  | amountMismatch

/-- One row of reconciliation output. -/
structure ReconRecord where
  status : ReconStatus
  statementLineId : Option String
  ledgerEntryId : Option String
  deltaMinorUnits : I64

def timeWithin (a b window : Nat) : Bool :=
  let diff := if a > b then a - b else b - a
  decide (diff ≤ window)

/-- The reconciliation engine. -/
structure Reconciler where
  timestampWindowSecs : Nat

namespace Reconciler

/-- The locals of `reconcile`. -/
structure Progress where
  records : List ReconRecord
  ledgerConsumed : List Bool

namespace Progress

def init (ledger : List LedgerEntry) : Progress :=
  { records := [], ledgerConsumed := List.replicate ledger.length false }

/-- `ledger_consumed[i]` -/
def consumed (s : Progress) (i : Nat) : Bool := s.ledgerConsumed.getD i false

/-- `ledger_consumed[idx] = true` -/
def consume (s : Progress) (i : Nat) : Progress :=
  { s with ledgerConsumed := s.ledgerConsumed.set i true }

def push (s : Progress) (r : ReconRecord) : Progress :=
  { s with records := s.records ++ [r] }

end Progress

def sharesReference (line : StatementLine) (e : LedgerEntry) : Bool :=
  match line.externalId with
  | none => false
  | some ext => decide (e.externalId = some ext)

/-- A line against the entries of its external id. -/
def pass1Step (ledger : List LedgerEntry) (s : Progress) (line : StatementLine) : Progress :=
  match line.externalId with
  | none => s
  | some _ =>
    let hit := ledger.zipIdx.find? fun p =>
      !s.consumed p.2 && sharesReference line p.1
    match hit with
    | none => s
    | some (ent, idx) =>
      let delta := line.amount.minorUnits.wrappingSub ent.amount.minorUnits
      let status :=
        if delta = 0 ∧ line.amount.currency = ent.amount.currency then
          ReconStatus.matched
        else .amountMismatch
      (s.consume idx).push
        { status, statementLineId := some line.id
          ledgerEntryId := some ent.id, deltaMinorUnits := delta }

def fitsWindow (r : Reconciler) (line : StatementLine) (e : LedgerEntry) : Bool :=
  decide (e.amount = line.amount)
    && timeWithin e.postedAtUnixSecs line.postedAtUnixSecs r.timestampWindowSecs

def pass2Step (r : Reconciler) (ledger : List LedgerEntry) (s : Progress)
    (line : StatementLine) : Progress :=
  if s.records.any fun rec => rec.statementLineId = some line.id then s
  else
    let candidate := ledger.zipIdx.find? fun p =>
      !s.consumed p.2 && r.fitsWindow line p.1
    match candidate with
    | some (ent, idx) =>
      (s.consume idx).push
        { status := .matched, statementLineId := some line.id
          ledgerEntryId := some ent.id, deltaMinorUnits := 0 }
    | none =>
      s.push
        { status := .missingInLedger, statementLineId := some line.id
          ledgerEntryId := none
          deltaMinorUnits := line.amount.minorUnits }

def pass3Step (s : Progress) (p : LedgerEntry × Nat) : Progress :=
  if s.consumed p.2 then s
  else
    s.push
      { status := .missingOnStatement, statementLineId := none
        ledgerEntryId := some p.1.id
        deltaMinorUnits := p.1.amount.minorUnits.wrappingNeg }

def reconcile (r : Reconciler) (statement : Statement)
    (ledger : List LedgerEntry) : Except Error (List ReconRecord) :=
  let joined := run (pass1Step ledger) (Progress.init ledger) statement.lines
  let matched := run (pass2Step r ledger) joined statement.lines
  let s := run pass3Step matched ledger.zipIdx
  .ok s.records

end Reconciler

end OpenStandards.OpStatements

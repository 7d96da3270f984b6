/-
Contracts, performance obligations and the transaction price (op-revrec
`contract.rs`, `variable.rs`, `error.rs`).

Decimals are exact rationals; `round_dp(0)` rounds to the nearest
integer, ties to the even one. A `NaiveDate` is a date of the Gregorian
calendar with a year from -262143 to 262142, the range of the date
library. Errors that print a decimal or a date carry the value printed.
-/
import OpenStandards.OpLedger.Types
import OpenStandards.Lib.Calendar
import Mathlib.Data.Rat.Floor
import OpenStandards.Lib.Apportion

namespace OpenStandards.OpRevrec

open Lib OpCore

section
open OpLedger (Uuid)

-- ==== dates

/-- A date in the range of the date library. -/
structure NaiveDate where
  date : Date
  min_le : -262143 ≤ date.year
  le_max : date.year ≤ 262142
deriving DecidableEq

namespace NaiveDate

def number (d : NaiveDate) : Int := d.date.dayNumber

def ofDate? (d : Date) : Option NaiveDate :=
  if h : -262143 ≤ d.year ∧ d.year ≤ 262142 then some ⟨d, h.1, h.2⟩ else none

/-- `NaiveDate::from_ymd_opt` -/
def fromYmdOpt (y : Int) (m d : Nat) : Option NaiveDate :=
  if h : 1 ≤ m ∧ m ≤ 12 ∧ 1 ≤ d ∧ d ≤ daysInMonth y m then
    ofDate? ⟨y, m, d, h.1, h.2.1, h.2.2.1, h.2.2.2⟩
  else none

def succOpt (d : NaiveDate) : Option NaiveDate :=
  ofDate? (ofDayNumber (d.number + 1))

def predOpt (d : NaiveDate) : Option NaiveDate :=
  ofDate? (ofDayNumber (d.number - 1))

/-- `(a - b).num_days()` -/
def numDays (a b : NaiveDate) : Int := a.number - b.number

instance : LT NaiveDate := ⟨fun a b => a.number < b.number⟩

instance : LE NaiveDate := ⟨fun a b => a.number ≤ b.number⟩

instance (a b : NaiveDate) : Decidable (a < b) :=
  inferInstanceAs (Decidable (a.number < b.number))

instance (a b : NaiveDate) : Decidable (a ≤ b) :=
  inferInstanceAs (Decidable (a.number ≤ b.number))

end NaiveDate

-- ==== decimals

/-- `Decimal`, exact. -/
abbrev Decimal := Rat

/-- `round_dp(0)`: to the nearest integer, ties to the even one. -/
def roundDp0 (x : Decimal) : Int :=
  let below := x.floor
  let rest := x - below
  if rest < 1 / 2 then below
  else if 1 / 2 < rest then below + 1
  else if below % 2 = 0 then below
  else below + 1

-- ==== errors

/-- The failure modes of the modelled functions. -/
inductive Error where
  | zeroStandaloneSellingPrice
  | currencyMismatch
  | money (e : CoreError)
  | refundExceedsRecognized (refund recognized : I64)
  | invalidPeriod (start finish : NaiveDate)
  | milestoneFractions (sum : Decimal)
  | percentDecreased (prev percent : Decimal) (date : NaiveDate)
deriving DecidableEq

-- ==== variable consideration

structure Outcome where
  amountMinor : I64
  probability : Decimal
deriving DecidableEq

/-- How the variable amount is estimated. -/
inductive EstimationMethod where
  | expectedValue (outcomes : List Outcome)
  | mostLikelyAmount (amountMinor : I64)
deriving DecidableEq

/-- One variable component of a transaction price. -/
structure VariableConsideration where
  method : EstimationMethod
  constraintCeilingMinor : I64
deriving DecidableEq

namespace VariableConsideration

def estimateMinor (v : VariableConsideration) : I64 :=
  match v.method with
  | .mostLikelyAmount amountMinor => amountMinor
  | .expectedValue outcomes =>
    let acc := outcomes.foldl
      (fun acc o => acc + (o.amountMinor.val : Decimal) * o.probability) 0
    (I64.ofInt? (roundDp0 acc)).getD .maxValue

/-- The smaller of the magnitude and the ceiling, with the estimate's
sign. `unsigned_abs() as i64` is the wrapping magnitude. -/
def constrainedAmountMinor (v : VariableConsideration) : I64 :=
  let est := v.estimateMinor
  let sign := est.val.sign
  let abs := (I64.ofInt? est.val.natAbs).getD .maxValue
  let capped := min abs.val v.constraintCeilingMinor.abs.val
  (I64.ofInt? (sign * capped)).getD 0

end VariableConsideration

-- ==== contracts

/-- A stable identifier for a contract. -/
structure ContractId where
  uuid : Uuid
deriving DecidableEq

/-- Stable id for one performance obligation inside a contract. -/
structure ObligationId where
  slug : String
deriving DecidableEq

/-- One milestone on an output-method obligation. -/
structure Milestone where
  date : NaiveDate
  fraction : Decimal
deriving DecidableEq

/-- One input-method progress snapshot. -/
structure PercentCompleteSnapshot where
  date : NaiveDate
  percent : Decimal
deriving DecidableEq

/-- How a performance obligation transfers value to the customer. -/
inductive RecognitionPattern where
  | pointInTime (date : NaiveDate)
  | straightLine (start finish : NaiveDate)
  | outputMilestones (milestones : List Milestone)
  | inputPercentComplete (snapshots : List PercentCompleteSnapshot)
  | usage (unitPriceMinor : I64)
deriving DecidableEq

/-- One promised good or service inside a contract. -/
structure PerformanceObligation where
  id : ObligationId
  standaloneSellingPrice : Money
  pattern : RecognitionPattern
deriving DecidableEq

structure TransactionPrice where
  currency : Currency
  fixedMinor : I64
  variableParts : List VariableConsideration
deriving DecidableEq

/-- `checked_add(..).ok_or(Overflow)?` -/
def addOrOverflow (a b : I64) : Except Error I64 :=
  match a.checkedAdd b with
  | some r => .ok r
  | none => .error (.money .overflow)

namespace TransactionPrice

def fixed (amount : Money) : TransactionPrice :=
  { currency := amount.currency, fixedMinor := amount.minorUnits
    variableParts := [] }

def total (p : TransactionPrice) : Except Error Money := do
  let acc ← p.variableParts.foldlM
    (fun acc v => addOrOverflow acc v.constrainedAmountMinor) p.fixedMinor
  return Money.fromMinor acc p.currency

end TransactionPrice

/-- A contract with a customer. -/
structure Contract where
  id : ContractId
  obligations : List PerformanceObligation
  transactionPrice : TransactionPrice
deriving DecidableEq

namespace Contract

def validateCurrencies (c : Contract) : Except Error Unit :=
  c.obligations.forM fun o =>
    if o.standaloneSellingPrice.currency ≠ c.transactionPrice.currency then
      .error .currencyMismatch
    else .ok ()

def totalSspMinor (c : Contract) : Except Error I64 :=
  c.obligations.foldlM (fun acc o => addOrOverflow acc o.standaloneSellingPrice.minorUnits) 0

end Contract

/-
Allocation of the transaction price and recognition schedules (op-revrec
`schedule.rs`).

Products with `i128` operands are exact: a 64-bit amount times a 64-bit
amount or a number of days stays within 128 bits. The `while` loop of the
straight-line schedule does not always end, so it runs on fuel, and no
answer is a loop still running.
-/

/-- One row of a recognition schedule. -/
structure ScheduleEntry where
  obligationId : ObligationId
  date : NaiveDate
  amountMinor : I64
  currency : Currency
deriving DecidableEq

/-- The schedule for one performance obligation. -/
structure RecognitionSchedule where
  obligationId : ObligationId
  entries : List ScheduleEntry
deriving DecidableEq

def RecognitionSchedule.totalMinor (s : RecognitionSchedule) : I64 :=
  s.entries.foldl (fun acc e => acc.wrappingAdd e.amountMinor) 0

def overflow : Error := .money .overflow

-- ==== allocation

/-- An obligation's part of the price, rounded toward zero. -/
def relativeShare (totalTp totalSsp : I64) (o : PerformanceObligation) : Except Error I64 :=
  let alloc := (totalTp.val
    * o.standaloneSellingPrice.minorUnits.val).tdiv totalSsp.val
  match I64.ofInt? alloc with
  | some alloc => .ok alloc
  | none => .error overflow

/-- Step 4: split the transaction price in proportion to standalone
selling price; the last obligation takes the remainder. -/
def allocateTransactionPrice (c : Contract) : Except Error (List (ObligationId × I64)) := do
  c.validateCurrencies
  let totalSsp ← c.totalSspMinor
  if totalSsp = 0 then
    .error .zeroStandaloneSellingPrice
  else
    let totalTp ← c.transactionPrice.total
    let amounts ← apportion overflow totalTp.minorUnits
      (relativeShare totalTp.minorUnits totalSsp) 0 c.obligations
    return (c.obligations.map PerformanceObligation.id).zip amounts

-- ==== straight line

/-- Last calendar day of the month containing `d`. -/
def lastDayOfMonth (d : NaiveDate) : NaiveDate :=
  let y := d.date.year
  let m := d.date.month
  let (ny, nm) := if m = 12 then (y + 1, 1) else (y, m + 1)
  let firstOfNext := (NaiveDate.fromYmdOpt ny nm 1).getD d
  firstOfNext.predOpt.getD d

/-- The locals of the straight-line loop. -/
structure LineState where
  cursor : NaiveDate
  assigned : I64
  entries : List ScheduleEntry

/-- What one turn of the loop does: go on, or leave it. -/
inductive Turn where
  | next (s : LineState)
  | leave (s : LineState)
  | fail (e : Error)

section
variable (id : ObligationId) (finish : NaiveDate) (allocated : I64)
  (currency : Currency) (totalDays : Int)

def straightLineTurn (s : LineState) : Turn :=
  if s.cursor ≤ finish then
    let monthEnd := lastDayOfMonth s.cursor
    let entryDate := if monthEnd < finish then monthEnd else finish
    let daysThisPeriod := entryDate.numDays s.cursor + 1
    match I64.ofInt? ((allocated.val * daysThisPeriod).tdiv totalDays) with
    | none => .fail overflow
    | some alloc =>
      let entry : ScheduleEntry :=
        { obligationId := id, date := entryDate, amountMinor := alloc
          currency }
      match s.assigned.checkedAdd alloc with
      | none => .fail overflow
      | some assigned =>
        let entries := s.entries ++ [entry]
        match entryDate.succOpt with
        | none => .leave { s with assigned, entries }
        | some d =>
          if finish < d then .leave { cursor := d, assigned, entries }
          else .next { cursor := d, assigned, entries }
  else .leave s

def straightLineLoop : Nat → LineState → Option (Except Error LineState)
  | 0, _ => none
  | fuel + 1, s =>
    match straightLineTurn id finish allocated currency totalDays s with
    | .next s => straightLineLoop fuel s
    | .leave s => some (.ok s)
    | .fail e => some (.error e)

end

def plugLast (allocated assigned : I64) (entries : List ScheduleEntry) :
    Except Error (List ScheduleEntry) :=
  match entries.getLast? with
  | none => .ok entries
  | some last => do
    let remainder ← match allocated.checkedSub assigned with
      | some r => Except.ok r
      | none => .error overflow
    let amountMinor ← addOrOverflow last.amountMinor remainder
    return entries.dropLast ++ [{ last with amountMinor }]

/-- Straight-line monthly recognition over `[start, finish]`. -/
def straightLine (fuel : Nat) (id : ObligationId) (start finish : NaiveDate)
    (allocated : I64) (currency : Currency) :
    Option (Except Error (List ScheduleEntry)) :=
  if finish < start then some (.error (.invalidPeriod start finish))
  else
    let totalDays := finish.numDays start + 1
    if totalDays ≤ 0 then some (.error (.invalidPeriod start finish))
    else
      (straightLineLoop id finish allocated currency totalDays fuel
        { cursor := start, assigned := 0, entries := [] }).map fun r =>
          r.bind fun s => plugLast allocated s.assigned s.entries

-- ==== measured progress

def roundedShare (allocated : I64) (part : Decimal) : I64 :=
  (I64.ofInt? (roundDp0 ((allocated.val : Decimal) * part))).getD 0

def measured (id : ObligationId) (parts : List (NaiveDate × Decimal))
    (allocated : I64) (currency : Currency) :
    Except Error (List ScheduleEntry) := do
  let amounts ← apportion overflow allocated
    (fun p => .ok (roundedShare allocated p.2)) 0 parts
  return parts.zipWith
    (fun p amountMinor =>
      { obligationId := id, date := p.1, amountMinor, currency }) amounts

/-- The tolerance on the sum of the fractions. -/
def eps : Decimal := 1 / 10000

def outputMilestones (id : ObligationId) (milestones : List Milestone)
    (allocated : I64) (currency : Currency) :
    Except Error (List ScheduleEntry) :=
  let sum := (milestones.map Milestone.fraction).sum
  if |sum - 1| > eps then .error (.milestoneFractions sum)
  else
    measured id (milestones.map fun m => (m.date, m.fraction)) allocated currency

/-- The snapshots do not decrease, from `prev` on. -/
def validateMonotone (prev : Decimal) : List PercentCompleteSnapshot → Except Error Unit
  | [] => .ok ()
  | s :: snapshots =>
    if s.percent < prev then
      .error (.percentDecreased prev s.percent s.date)
    else validateMonotone s.percent snapshots

/-- The differences of consecutive percents, with their dates. -/
def deltas (lastPercent : Decimal) : List PercentCompleteSnapshot → List (NaiveDate × Decimal)
  | [] => []
  | s :: snapshots =>
    (s.date, s.percent - lastPercent) :: deltas s.percent snapshots

def inputPercentComplete (id : ObligationId)
    (snapshots : List PercentCompleteSnapshot) (allocated : I64)
    (currency : Currency) : Except Error (List ScheduleEntry) := do
  validateMonotone 0 snapshots
  measured id (deltas 0 snapshots) allocated currency

-- ==== generate

def generate (fuel : Nat) (obligation : PerformanceObligation)
    (allocated : I64) (currency : Currency) :
    Option (Except Error RecognitionSchedule) :=
  let entries : Option (Except Error (List ScheduleEntry)) :=
    match obligation.pattern with
    | .pointInTime date =>
      some (.ok [{ obligationId := obligation.id, date
                   amountMinor := allocated, currency }])
    | .straightLine start finish =>
      straightLine fuel obligation.id start finish allocated currency
    | .outputMilestones milestones =>
      some (outputMilestones obligation.id milestones allocated currency)
    | .inputPercentComplete snapshots =>
      some (inputPercentComplete obligation.id snapshots allocated currency)
    | .usage _ => some (.ok [])
  entries.map fun r => r.map fun entries =>
    { obligationId := obligation.id, entries }

end

/-
The in-memory deferred-revenue ledger (op-revrec `ledger.rs`).

Every method takes the ledger's state and answers the result together
with the state it leaves behind. The mutex of the source makes each call
atomic, so a run is a sequence of calls. The id and the time a posting is
stamped with are an argument. The plain `-` of the balance loop wraps, as
it does in a release build.
-/
open OpLedger (Uuid)

/-- The kind of posting on the deferred-revenue subledger. -/
inductive PostingKind where
  | deferralOpen
  | recognize
  | refund
deriving DecidableEq

/-- What a posting is stamped with. -/
structure Stamp where
  id : Uuid
  createdAt : Int
deriving DecidableEq

/-- One immutable posting on the ledger. -/
structure Posting where
  stamp : Stamp
  contractId : ContractId
  paymentId : Option Uuid
  kind : PostingKind
  amountMinor : I64
  currency : Currency
  date : NaiveDate
  memo : String
deriving DecidableEq

/-- Aggregated balances for one contract. -/
structure Balances where
  deferredMinor : I64
  recognizedMinor : I64

/-- The map behind the ledger's mutex. -/
abbrev InMemoryLedger := Table ContractId (List Posting)

namespace InMemoryLedger

def new : InMemoryLedger := ∅

def balanceStep (b : Balances) (p : Posting) : Balances :=
  match p.kind with
  | .deferralOpen =>
    { b with deferredMinor := b.deferredMinor.saturatingAdd p.amountMinor }
  | .recognize =>
    { deferredMinor := b.deferredMinor.saturatingSub p.amountMinor
      recognizedMinor := b.recognizedMinor.saturatingAdd p.amountMinor }
  | .refund =>
    -- Reduce recognized first, then deferred.
    let fromRecognized :=
      if b.recognizedMinor.val ≤ p.amountMinor.val then b.recognizedMinor
      else p.amountMinor
    let fromDeferred := p.amountMinor.wrappingSub fromRecognized
    { deferredMinor := b.deferredMinor.saturatingSub fromDeferred
      recognizedMinor := b.recognizedMinor.saturatingSub fromRecognized }

def computeBalances (postings : List Posting) : Balances :=
  postings.foldl balanceStep { deferredMinor := 0, recognizedMinor := 0 }

def postings (ledger : InMemoryLedger) (contractId : ContractId) : List Posting :=
  (ledger.lookup contractId).getD []

def balances (ledger : InMemoryLedger) (contractId : ContractId) : Balances :=
  computeBalances (postings ledger contractId)

/-- `guard.entry(contract_id).or_default().push(p)` -/
def push (ledger : InMemoryLedger) (contractId : ContractId) (p : Posting) : InMemoryLedger :=
  ledger.insert contractId (postings ledger contractId ++ [p])

def openDeferral (ledger : InMemoryLedger) (stamp : Stamp)
    (contractId : ContractId) (paymentId : Option Uuid) (amount : Money)
    (date : NaiveDate) (memo : String) :
    Except Error Posting × InMemoryLedger :=
  let p : Posting :=
    { stamp, contractId, paymentId, kind := .deferralOpen
      amountMinor := amount.minorUnits, currency := amount.currency, date
      memo }
  (.ok p, push ledger contractId p)

def postRecognition (ledger : InMemoryLedger) (stamp : Stamp)
    (contractId : ContractId) (entry : ScheduleEntry) (memo : String) :
    Except Error Posting × InMemoryLedger :=
  let p : Posting :=
    { stamp, contractId, paymentId := none, kind := .recognize
      amountMinor := entry.amountMinor, currency := entry.currency
      date := entry.date, memo }
  (.ok p, push ledger contractId p)

/-- A refused refund still leaves an entry for the contract, empty if
there was none. -/
def postRefund (ledger : InMemoryLedger) (stamp : Stamp)
    (contractId : ContractId) (paymentId : Option Uuid) (amount : Money)
    (date : NaiveDate) (memo : String) :
    Except Error Posting × InMemoryLedger :=
  let bal := balances ledger contractId
  let totalAvailable :=
    (bal.recognizedMinor.checkedAdd bal.deferredMinor).getD .maxValue
  if amount.minorUnits.val > totalAvailable.val then
    (.error (.refundExceedsRecognized amount.minorUnits bal.recognizedMinor),
      ledger.insert contractId (postings ledger contractId))
  else
    let p : Posting :=
      { stamp, contractId, paymentId, kind := .refund
        amountMinor := amount.minorUnits, currency := amount.currency, date
        memo }
    (.ok p, push ledger contractId p)

-- ==== runs

/-- A call that may change the ledger. -/
inductive Op where
  | openDeferral (stamp : Stamp) (contractId : ContractId)
      (paymentId : Option Uuid) (amount : Money) (date : NaiveDate)
      (memo : String)
  | postRecognition (stamp : Stamp) (contractId : ContractId)
      (entry : ScheduleEntry) (memo : String)
  | postRefund (stamp : Stamp) (contractId : ContractId)
      (paymentId : Option Uuid) (amount : Money) (date : NaiveDate)
      (memo : String)

def call (ledger : InMemoryLedger) : Op → Except Error Posting × InMemoryLedger
  | .openDeferral stamp contractId paymentId amount date memo =>
    openDeferral ledger stamp contractId paymentId amount date memo
  | .postRecognition stamp contractId entry memo =>
    postRecognition ledger stamp contractId entry memo
  | .postRefund stamp contractId paymentId amount date memo =>
    postRefund ledger stamp contractId paymentId amount date memo

def step (ledger : InMemoryLedger) (op : Op) : InMemoryLedger :=
  (call ledger op).2

end InMemoryLedger

end OpenStandards.OpRevrec

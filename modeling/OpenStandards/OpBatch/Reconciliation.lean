/-
Reconciliation hooks (op-batch `reconciliation.rs`): the decision layer
between a parsed bank statement and the outbound entries the operator
awaits.

The lines are grouped by the reference they echo; each entry is then
decided from the group under its own reference. The settlement date of a
line is left out: no decision reads it.
-/
import OpenStandards.Lib.Table
import OpenStandards.Lib.Fallible

namespace OpenStandards.OpBatch

open Lib

/-- The settlement rail a batch travels on. -/
inductive BatchRail where
  | nacha
  | sepaCt
  | sepaDd
  | fedwire
  | swift
  | chips
  | bacs
deriving DecidableEq

/-- What format the inbound bank statement is in. -/
inductive ReconcileSource where
  | camt053
  | nachaPrenote
  | bai2
deriving DecidableEq

/-- One match decision for a single outbound entry. -/
inductive Match where
  | matched (paymentId statementRef : String) (amountMinor : UInt64)
  | unmatched (paymentId : String) (expectedAmountMinor : UInt64)
  | amountMismatch (paymentId statementRef : String)
      (expectedAmountMinor observedAmountMinor : UInt64)
  | duplicate (paymentId : String) (statementRefs : List String)
deriving DecidableEq

/-- An expected outbound entry the operator awaits. -/
structure Expected where
  paymentId : String
  amountMinor : UInt64
  reference : String

/-- One parsed statement line. -/
structure StatementLine where
  statementRef : String
  echoedReference : String
  amountMinor : UInt64

/-- Aggregate report from one reconciliation run. -/
structure ReconciliationReport where
  rail : BatchRail
  source : ReconcileSource
  matches_ : List Match
deriving DecidableEq

/-- `Error::Reconciliation`, the one error of a run. -/
inductive ReconcileError where
  | reconciliation (text : String)
deriving DecidableEq

def Match.isMatched : Match → Bool
  | matched .. => true
  | _ => false

def Match.isDuplicate : Match → Bool
  | duplicate .. => true
  | _ => false

def ReconciliationReport.isClean (r : ReconciliationReport) : Bool :=
  r.matches_.all Match.isMatched

/-- One turn of the loop over the statement lines. -/
def fileLine (byRef : Table String (List StatementLine)) (line : StatementLine) :
    Except ReconcileError (Table String (List StatementLine)) := do
  refuse (line.echoedReference = "") (.reconciliation "statement line has empty reference")
  return Table.push StatementLine.echoedReference byRef line

/-- What is decided on an entry from the lines that echo its
reference. -/
def decideOn (exp : Expected) : Option (List StatementLine) → Match
  | none | some [] => .unmatched exp.paymentId exp.amountMinor
  | some [line] =>
    if line.amountMinor = exp.amountMinor then
      .matched exp.paymentId line.statementRef line.amountMinor
    else
      .amountMismatch exp.paymentId line.statementRef exp.amountMinor line.amountMinor
  | some many =>
    .duplicate exp.paymentId (many.map StatementLine.statementRef)

/-- Reconcile `expected` against `statementLines`. -/
def reconcile (rail : BatchRail) (source : ReconcileSource)
    (expected : List Expected) (statementLines : List StatementLine) :
    Except ReconcileError ReconciliationReport := do
  let byRef ← statementLines.foldlM fileLine ∅
  return {
    rail
    source
    matches_ := expected.map fun exp => decideOn exp
      (byRef.lookup exp.reference)
  }

end OpenStandards.OpBatch

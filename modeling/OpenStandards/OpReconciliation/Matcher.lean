/-
The two-tier match engine (op-reconciliation `matcher.rs`, with the
records of `statement.rs` and `discrepancy.rs`).

The locals of `match_lines` are one record, and each of its three loops
is a step of that record. Seconds are natural numbers. The unchecked
`+=` and `abs` of the settled amount wrap, as they do in a release
build.
-/
import OpenStandards.OpLedger.Types
import OpenStandards.Lib.Run
import Mathlib.Data.Finset.Insert

namespace OpenStandards.OpReconciliation

open Lib OpCore OpLedger

-- ==== the records

/-- Direction of money movement from the account holder's point of
view. -/
inductive LineDirection where
  | credit
  | debit

/-- One normalized line from a statement source. -/
structure StatementLine where
  sourceId : String
  externalId : Option String
  amount : Money
  direction : LineDirection
  postedAtUnixSecs : Nat
  metadata : List (String × String)

namespace StatementLine

def new (sourceId : String) (amount : Money) (direction : LineDirection)
    (postedAtUnixSecs : Nat) : StatementLine :=
  { sourceId, externalId := none
    amount :=
      { minorUnits := amount.minorUnits.abs, currency := amount.currency }
    direction, postedAtUnixSecs, metadata := [] }

end StatementLine

/-- One way the ledger and a statement disagree. -/
inductive Discrepancy where
  | unmatchedStatement (line : StatementLine)
  | unmatchedLedger (txId : TransactionId) (externalId : Option String)
  | amountMismatch (line : StatementLine) (txId : TransactionId)
      (ledgerAmount : Money)
  | statusMismatch (line : StatementLine) (txId : TransactionId)
      (ledgerStatus : Status)

/-- A statement line that paired with a ledger transaction. -/
structure MatchedPair where
  statementSourceId : String
  txId : TransactionId
  fuzzy : Bool

/-- Outcome of matching a batch of lines against a slice of
transactions. -/
structure MatchOutcome where
  matched : Nat
  fuzzyMatched : Nat
  discrepancies : List Discrepancy
  matchedPairs : List MatchedPair

-- ==== the settled amount

/-- One turn of the loop of `tx_settled_amount`; no answer is the early
return on a second currency. -/
def settledStep (total : Option Money) (e : Entry) : Option (Option Money) :=
  if e.direction ≠ .debit then some total
  else
    match total with
    | none =>
      some (some { minorUnits := e.amount.minorUnits.abs
                   currency := e.amount.currency })
    | some t =>
      if t.currency = e.amount.currency then
        some (some { t with
          minorUnits := t.minorUnits.wrappingAdd e.amount.minorUnits.abs })
      else none

/-- The settled magnitude of a transaction: the sum of its debit-side
entries, where they exist and share a currency. -/
def txSettledAmount (tx : Transaction) : Option Money :=
  (tx.entries.foldlM settledStep none).join

/-- The only ledger state consistent with money moved at the bank. -/
def statusIsConsistent (status : Status) : Bool := status = .posted

-- ==== match_lines

/-- The reference index: a later transaction with the same reference
replaces an earlier one. -/
def byExternal (txs : List Transaction) : Table String Transaction :=
  txs.foldl (fun index tx => match tx.externalId with
    | some ext => index.insert ext tx
    | none => index) ∅

/-- The locals of `match_lines`. -/
structure Matching where
  used : Finset TransactionId
  discrepancies : List Discrepancy
  matched : Nat
  fuzzyMatched : Nat
  matchedPairs : List MatchedPair
  deferred : List StatementLine

namespace Matching

def init : Matching :=
  { used := ∅, discrepancies := [], matched := 0, fuzzyMatched := 0
    matchedPairs := [], deferred := [] }

def flag (s : Matching) (d : Discrepancy) : Matching :=
  { s with discrepancies := s.discrepancies ++ [d] }

/-- `deferred.push(line)` -/
def defer (s : Matching) (line : StatementLine) : Matching :=
  { s with deferred := s.deferred ++ [line] }

/-- `used.insert(tx.id)` -/
def mark (s : Matching) (tx : Transaction) : Matching :=
  { s with used := insert tx.id s.used }

/-- Tier 1: reference join. The transaction the reference leads to is
marked whatever comes of it. -/
def tier1Step (txs : List Transaction) (s : Matching) (line : StatementLine) : Matching :=
  match line.externalId with
  | none => s.defer line
  | some ext =>
    match (byExternal txs).lookup ext with
    | none => s.defer line
    | some tx =>
      let s := s.mark tx
      match txSettledAmount tx with
      | some ledgerAmount =>
        if ledgerAmount.currency = line.amount.currency
            ∧ ledgerAmount.minorUnits = line.amount.minorUnits then
          if statusIsConsistent tx.status then
            { s with
              matched := s.matched + 1
              matchedPairs := s.matchedPairs ++
                [{ statementSourceId := line.sourceId, txId := tx.id
                   fuzzy := false }] }
          else s.flag (.statusMismatch line tx.id tx.status)
        else s.flag (.amountMismatch line tx.id ledgerAmount)
      | none => s.flag (.unmatchedStatement line)

/-- `u64::abs_diff` -/
def absDiff (a b : Nat) : Nat := if a < b then b - a else a - b

/-- Same currency, same magnitude, posted within the tolerance of the
transaction's effective time. -/
def fuzzyFits (fuzzyToleranceSecs : Nat) (line : StatementLine) (tx : Transaction) : Bool :=
  match txSettledAmount tx with
  | none => false
  | some amt =>
    decide (amt.currency = line.amount.currency)
      && decide (amt.minorUnits = line.amount.minorUnits)
      && decide (absDiff tx.effectiveAtUnixSecs line.postedAtUnixSecs ≤ fuzzyToleranceSecs)

/-- Tier 2: amount and window heuristic, over the transactions not
used. -/
def tier2Step (txs : List Transaction) (fuzzyToleranceSecs : Nat)
    (s : Matching) (line : StatementLine) : Matching :=
  let hit := txs.find? fun tx =>
    !decide (tx.id ∈ s.used) && fuzzyFits fuzzyToleranceSecs line tx
  match hit with
  | some tx =>
    let s := s.mark tx
    { s with
      fuzzyMatched := s.fuzzyMatched + 1
      matchedPairs := s.matchedPairs ++
        [{ statementSourceId := line.sourceId, txId := tx.id
           fuzzy := true }] }
  | none => s.flag (.unmatchedStatement line)

/-- The window is inclusive at both ends. -/
def inWindow (window : Nat × Nat) (tx : Transaction) : Bool :=
  decide (tx.effectiveAtUnixSecs ≥ window.1) && decide (tx.effectiveAtUnixSecs ≤ window.2)

def leftoverStep (window : Nat × Nat) (s : Matching) (tx : Transaction) : Matching :=
  if tx.id ∈ s.used then s
  else if inWindow window tx then
    s.flag (.unmatchedLedger tx.id tx.externalId)
  else s

end Matching

open Matching in
def matchLines (lines : List StatementLine) (txs : List Transaction)
    (window : Nat × Nat) (fuzzyToleranceSecs : Nat) : MatchOutcome :=
  let joined := run (tier1Step txs) Matching.init lines
  let fuzzed := run (tier2Step txs fuzzyToleranceSecs) joined joined.deferred
  let s := run (leftoverStep window) fuzzed txs
  { matched := s.matched, fuzzyMatched := s.fuzzyMatched
    discrepancies := s.discrepancies, matchedPairs := s.matchedPairs }

end OpenStandards.OpReconciliation

/-
Settlement batches, their cutoffs and their holdbacks (op-settlement
`payout.rs`, `cutoff.rs`, `holdback.rs`, `batch.rs`, `error.rs`).

A batch goes Open, Closed, Paying, then Paid or Failed. The holdback is
computed from the gross and frozen when it closes, in 128-bit integers that
hold every product of an `i64` and a basis-point count: exact integers
here. The id the constructor mints is an argument.
-/
import OpenStandards.OpLedger.Types
import OpenStandards.Lib.FactLog
import OpenStandards.Lib.Fallible

namespace OpenStandards.OpSettlement

open Lib OpCore
open OpLedger (Uuid TransactionId)

-- ==== errors

/-- The failure modes of op-settlement that the modelled functions
use. -/
inductive Error where
  | invalid (msg : String)
  | notFound (id : String)
  | invalidTransition (source target : String)
  | idempotencyMismatch (externalId : String)
  | currencyMismatch (batch tx : String)
  | emptyBatch
  | core (e : CoreError)
deriving DecidableEq

-- ==== rails and cutoffs

/-- The rail that moves a batch's funds. -/
inductive PayoutRail where
  | achNacha
  | sepaCt
  | fedNow
  | rtp
  | wire
  | internalBookTransfer
deriving DecidableEq

/-- `Debug` of a rail. -/
def PayoutRail.debug : PayoutRail → String
  | .achNacha => "AchNacha"
  | .sepaCt => "SepaCt"
  | .fedNow => "FedNow"
  | .rtp => "Rtp"
  | .wire => "Wire"
  | .internalBookTransfer => "InternalBookTransfer"

/-- When a batch closes by itself. -/
inductive Cutoff where
  | daily (hourUtc : UInt8)
  | multiDaily (hoursUtc : List UInt8)
  | manual

namespace Cutoff

def newDaily (hourUtc : UInt8) : Except Error Cutoff := do
  refuse (24 ≤ hourUtc.toNat) (.invalid
    ("hour_utc " ++ toString hourUtc.toNat ++ " not in [0,23]"))
  return .daily hourUtc

/-- The hours that follow `last` are hours of a day in ascending order. -/
def checkHours : Int → List UInt8 → Except Error Unit
  | _, [] => .ok ()
  | last, h :: rest => do
    refuse (24 ≤ h.toNat) (.invalid ("hour " ++ toString h.toNat ++ " not in [0,23]"))
    refuse ((h.toNat : Int) ≤ last) (.invalid "multi_daily hours must be strictly ascending")
    checkHours h.toNat rest

/-- Several times a day. -/
def newMultiDaily (hoursUtc : List UInt8) : Except Error Cutoff := do
  refuse (hoursUtc = []) (.invalid "multi_daily needs ≥1 hour")
  checkHours (-1) hoursUtc
  return .multiDaily hoursUtc

end Cutoff

/-- The window after `last` up to `now` covers the full hour on some
day. -/
def hourCrossed (last now : UInt64) (hourUtc : UInt8) : Bool :=
  if now ≤ last then false
  else
    let hourOffset := hourUtc.toUInt64 * 3600
    let dayFloor := last / 86400 * 86400
    let candidate := dayFloor + hourOffset
    let candidate := if candidate ≤ last then candidate + 86400 else candidate
    candidate ≤ now

def Cutoff.shouldClose (c : Cutoff) (last now : UInt64) : Bool :=
  if now ≤ last then false
  else match c with
    | .manual => false
    | .daily hourUtc => hourCrossed last now hourUtc
    | .multiDaily hoursUtc => hoursUtc.any fun h => hourCrossed last now h

-- ==== holdbacks

/-- The reserve policy, in basis points. -/
structure HoldbackPolicy where
  flatRateBps : UInt16
  maxTotalBps : UInt16

/-- The reserve withheld from a batch. -/
structure Holdback where
  gross : Money
  reserve : Money
  flatRateBps : UInt16
  disputeAdjustmentBps : UInt16
deriving DecidableEq

namespace HoldbackPolicy

def flat (flatRateBps : UInt16) : HoldbackPolicy :=
  { flatRateBps, maxTotalBps := 10000 }

def compute (p : HoldbackPolicy) (gross : Money)
    (disputeAdjustmentBps : UInt16) : Except Error Holdback :=
  let combinedBps := p.flatRateBps.toNat + disputeAdjustmentBps.toNat
  let effectiveBps := min combinedBps p.maxTotalBps.toNat
  let scaled := (gross.minorUnits.val * effectiveBps).tdiv 10000
  match I64.ofInt? scaled with
  | Option.none => .error (.core .overflow)
  | some scaledMinor =>
    let reserve := Money.fromMinor scaledMinor.abs gross.currency
    -- clamp to the gross
    let reserve :=
      if gross.minorUnits.abs.val < reserve.minorUnits.val then
        Money.fromMinor gross.minorUnits.abs gross.currency
      else reserve
    .ok { gross, reserve, flatRateBps := p.flatRateBps
          disputeAdjustmentBps }

/-- The holdback of a gross, within its cap. -/
def computeChecked (p : HoldbackPolicy) (gross : Money)
    (disputeAdjustmentBps : UInt16) : Option (Except Error Holdback) :=
  let combinedBps := p.flatRateBps.toNat + disputeAdjustmentBps.toNat
  let effectiveBps := min combinedBps p.maxTotalBps.toNat
  let scaled := (gross.minorUnits.val * effectiveBps).tdiv 10000
  match I64.ofInt? scaled with
  | Option.none => some (.error (.core .overflow))
  | some scaledMinor => do
    let magnitude ← scaledMinor.checkedAbs
    let bound ← gross.minorUnits.checkedAbs
    let minor := if bound.val < magnitude.val then bound else magnitude
    some (.ok { gross, reserve := Money.fromMinor minor gross.currency
                flatRateBps := p.flatRateBps, disputeAdjustmentBps })

end HoldbackPolicy

def Holdback.net (h : Holdback) : Except Error Money :=
  (h.gross.checkedSub h.reserve).mapError .core

-- ==== batches

structure BatchId where
  uuid : Uuid
deriving DecidableEq

def BatchId.toString (id : BatchId) : String := id.uuid.toString

/-- The lifecycle state of a batch. -/
inductive Status where
  | opened
  | closed (closedAt : UInt64)
  | paying (railReference : String) (submittedAt : UInt64)
  | paid (railReference : String) (settledAt : UInt64)
  | failed (code message : String) (failedAt : UInt64)
deriving DecidableEq

def Status.code : Status → String
  | .opened => "open"
  | .closed _ => "closed"
  | .paying _ _ => "paying"
  | .paid _ _ => "paid"
  | .failed _ _ _ => "failed"

/-- A posted transaction in a batch. -/
structure BatchEntry where
  txId : TransactionId
  amount : Money
  reference : Option String
deriving DecidableEq

/-- A group of posted transactions destined for one payout. -/
structure Batch where
  id : BatchId
  currency : Currency
  rail : PayoutRail
  externalId : Option String
  status : Status
  entries : List BatchEntry
  holdback : Option Holdback
  openedAt : UInt64
  metadata : List (String × String)
deriving DecidableEq

namespace Batch

def «open» (id : BatchId) (currency : Currency) (rail : PayoutRail) (openedAt : UInt64) : Batch :=
  { id, currency, rail, externalId := none, status := .opened, entries := []
    holdback := none, openedAt, metadata := [] }

def withExternalId (b : Batch) (ext : String) : Batch :=
  { b with externalId := some ext }

def refuseFrom (b : Batch) (target : String) : Except Error Batch :=
  .error (.invalidTransition b.status.code target)

def addEntry (b : Batch) (txId : TransactionId) (amount : Money)
    (reference : Option String) : Except Error Batch :=
  match b.status with
  | .opened =>
    if amount.currency ≠ b.currency then
      .error (.currencyMismatch b.currency.code amount.currency.code)
    else .ok { b with entries := b.entries ++ [{ txId, amount, reference }] }
  | _ => b.refuseFrom "open(add_entry)"

def gross (b : Batch) : Except Error Money :=
  b.entries.foldlM
    (fun total e => (total.checkedAdd e.amount).mapError .core)
    (Money.fromMinor 0 b.currency)

def close (b : Batch) (holdback : Holdback) (closedAt : UInt64) : Except Error Batch :=
  match b.status with
  | .opened =>
    .ok { b with holdback := some holdback, status := .closed closedAt }
  | _ => b.refuseFrom "closed"

def pay (b : Batch) (railReference : String) (submittedAt : UInt64) : Except Error Batch :=
  match b.status with
  | .closed _ => .ok { b with status := .paying railReference submittedAt }
  | _ => b.refuseFrom "paying"

def settled (b : Batch) (settledAt : UInt64) : Except Error Batch :=
  match b.status with
  | .paying railReference _ =>
    .ok { b with status := .paid railReference settledAt }
  | _ => b.refuseFrom "paid"

def fail (b : Batch) (code message : String) (failedAt : UInt64) : Except Error Batch :=
  match b.status with
  | .paying _ _ => .ok { b with status := .failed code message failedAt }
  | _ => b.refuseFrom "failed"

end Batch

/-
The in-memory settlement store and the settlement engine (op-settlement
`store.rs`, `engine.rs`).

Several engines, one for each currency and rail, share a store; a run is
a sequence of calls, each on some engine. `add_entry` adds up the batch it
has committed, so it can report an overflow although the entry is in.
`list_open` walks a hash table: the order of the walk is an argument of
the calls that use it.
-/
open OpLedger (TransactionId)

-- ==== the store

/-- The in-process store. -/
structure InMemorySettlementStore where
  batches : Table BatchId Batch
  byExternalId : Table String BatchId

namespace InMemorySettlementStore

def new : InMemorySettlementStore := { batches := ∅, byExternalId := ∅ }

/-- The bodies two batches are compared by: the status and the holdback
of the live batch may have moved on. -/
def bodiesEquivalent (a b : Batch) : Bool :=
  a.currency = b.currency ∧ a.rail = b.rail ∧ a.externalId = b.externalId
    ∧ a.entries = b.entries

def createBatch (s : InMemorySettlementStore) (batch : Batch) :
    InMemorySettlementStore × Except Error BatchId :=
  let inserted (s : InMemorySettlementStore) : InMemorySettlementStore :=
    { s with batches := s.batches.insert batch.id batch }
  match batch.externalId with
  | none => (inserted s, .ok batch.id)
  | some ext =>
    match s.byExternalId.lookup ext with
    | some existingId =>
      match s.batches.lookup existingId with
      | some existing =>
        if bodiesEquivalent existing batch then (s, .ok existingId)
        else (s, .error (.idempotencyMismatch ext))
      -- the source expects the indexed batch to be stored
      | none => (s, .error (.notFound existingId.toString))
    | none =>
      (inserted { s with byExternalId := s.byExternalId.insert ext
                                            batch.id },
        .ok batch.id)

def listOpen (s : InMemorySettlementStore) (walk : RowOrder Batch) : List Batch :=
  (walk.order (Table.values s.batches)).filter fun b => b.status = .opened

/-- Apply a transition to a batch, committing where it succeeds. -/
def update (s : InMemorySettlementStore) (id : BatchId) (f : Batch → Except Error Batch) :
    InMemorySettlementStore × Except Error Batch :=
  match s.batches.lookup id with
  | none => (s, .error (.notFound id.toString))
  | some existing =>
    match f existing with
    | .error e => (s, .error e)
    | .ok staged =>
      ({ s with batches := s.batches.insert id staged }, .ok staged)

end InMemorySettlementStore

-- ==== the engine

/-- Drives the batches of one currency and rail. -/
structure SettlementEngine where
  currency : Currency
  rail : PayoutRail
  cutoff : Cutoff
  holdbackPolicy : HoldbackPolicy

namespace SettlementEngine

def openBatch (eng : SettlementEngine) (s : InMemorySettlementStore)
    (id : BatchId) (now : UInt64) :
    InMemorySettlementStore × Except Error BatchId :=
  s.createBatch (Batch.open id eng.currency eng.rail now)

def addEntry (_eng : SettlementEngine) (s : InMemorySettlementStore)
    (batchId : BatchId) (txId : TransactionId) (amount : Money) (reference : Option String) :
    InMemorySettlementStore × Except Error Money :=
  let (s', result) := s.update batchId fun b =>
    b.addEntry txId amount reference
  (s', result.bind fun updated => updated.gross)

/-- The open batch is closed and its holdback withheld. -/
def closeBatch (eng : SettlementEngine) (s : InMemorySettlementStore)
    (batchId : BatchId) (disputeAdjustmentBps : UInt16) (now : UInt64) :
    InMemorySettlementStore × Except Error Batch :=
  s.update batchId fun b => do
    let gross ← b.gross
    let hb ← eng.holdbackPolicy.compute gross disputeAdjustmentBps
    b.close hb now

def tick (eng : SettlementEngine) (s : InMemorySettlementStore)
    (walk : RowOrder Batch) (last now : UInt64) :
    InMemorySettlementStore × Except Error (Option BatchId) :=
  if ¬ eng.cutoff.shouldClose last now then (s, .ok none)
  else
    match (s.listOpen walk).filter fun b =>
        b.currency = eng.currency ∧ b.rail = eng.rail with
    | [] => (s, .ok none)
    | [b] =>
      let (s', result) := eng.closeBatch s b.id 0 now
      (s', result.map fun _ => some b.id)
    | b :: b' :: rest =>
      (s, .error (.invalid (toString (b :: b' :: rest).length
        ++ " open batches for " ++ eng.currency.code ++ "/"
        ++ eng.rail.debug ++ "; operator must disambiguate")))

def submitForPayout (_eng : SettlementEngine) (s : InMemorySettlementStore) (batchId : BatchId)
    (railReference : String) (now : UInt64) :
    InMemorySettlementStore × Except Error Batch :=
  s.update batchId fun b => b.pay railReference now

/-- Paying to Paid. -/
def markSettled (_eng : SettlementEngine) (s : InMemorySettlementStore)
    (batchId : BatchId) (now : UInt64) :
    InMemorySettlementStore × Except Error Batch :=
  s.update batchId fun b => b.settled now

def markFailed (_eng : SettlementEngine) (s : InMemorySettlementStore)
    (batchId : BatchId) (code message : String) (now : UInt64) :
    InMemorySettlementStore × Except Error Batch :=
  s.update batchId fun b => b.fail code message now

end SettlementEngine

/-- The reserve held, as the source computes it: over the batches
`list_open` lists. -/
def totalReserveHeld (s : InMemorySettlementStore) (walk : RowOrder Batch)
    (currency : Currency) : Except Error Money :=
  (s.listOpen walk).foldlM
    (fun total b =>
      match b.status, b.holdback with
      | .closed _, some hb | .paying _ _, some hb | .paid _ _, some hb =>
        if hb.reserve.currency = currency then
          (total.checkedAdd hb.reserve).mapError .core
        else .ok total
      | _, _ => .ok total)
    (Money.fromMinor 0 currency)

-- ==== runs

/-- One call on the store, or on an engine over it. -/
inductive Call where
  | createBatch (batch : Batch)
  | openBatch (eng : SettlementEngine) (id : BatchId) (now : UInt64)
  | addEntry (eng : SettlementEngine) (id : BatchId) (txId : TransactionId)
      (amount : Money) (reference : Option String)
  | tick (eng : SettlementEngine) (walk : RowOrder Batch) (last now : UInt64)
  | closeBatch (eng : SettlementEngine) (id : BatchId)
      (disputeAdjustmentBps : UInt16) (now : UInt64)
  | submitForPayout (eng : SettlementEngine) (id : BatchId)
      (railReference : String) (now : UInt64)
  | markSettled (eng : SettlementEngine) (id : BatchId) (now : UInt64)
  | markFailed (eng : SettlementEngine) (id : BatchId)
      (code message : String) (now : UInt64)

def InMemorySettlementStore.call (s : InMemorySettlementStore) : Call → InMemorySettlementStore
  | .createBatch batch => (s.createBatch batch).1
  | .openBatch eng id now => (eng.openBatch s id now).1
  | .addEntry eng id txId amount reference =>
    (eng.addEntry s id txId amount reference).1
  | .tick eng walk last now => (eng.tick s walk last now).1
  | .closeBatch eng id disputeAdjustmentBps now =>
    (eng.closeBatch s id disputeAdjustmentBps now).1
  | .submitForPayout eng id railReference now =>
    (eng.submitForPayout s id railReference now).1
  | .markSettled eng id now => (eng.markSettled s id now).1
  | .markFailed eng id code message now =>
    (eng.markFailed s id code message now).1

end OpenStandards.OpSettlement

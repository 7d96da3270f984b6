/-
Refunds and their in-memory store (op-refund `refund.rs`, `reason.rs`,
`store.rs`, `error.rs`).

A refund goes Requested, Submitted, Approved, then Settled, Declined or
Failed. The store keeps refunds under their ids and indexes those that
carry an external id. The id the constructor mints is an argument. Two
metadata lists are compared as bags; the 32-bit tallies of pairs held in
memory are exact here.
-/
import OpenStandards.Lib.FactLog
import OpenStandards.Lib.Keyed
import OpenStandards.OpLedger.Types

namespace OpenStandards.OpRefund

open Lib OpCore
open OpLedger (Uuid TransactionId)

-- ==== errors

/-- The failure modes of op-refund that the modelled functions use. -/
inductive Error where
  | invalid (msg : String)
  | notFound (id : String)
  | invalidTransition (id state : String)
  | idempotencyMismatch (externalId : String)

-- ==== refunds

/-- Why a refund was issued. -/
inductive RefundReason where
  | customerRequest
  | duplicateCharge
  | fraudulentCharge
  | merchantInitiated
  | disputeResolution
  | other (text : String)
deriving DecidableEq

structure RefundId where
  uuid : Uuid
deriving DecidableEq

def RefundId.toString (id : RefundId) : String := id.uuid.toString

/-- Where a refund is in its lifecycle. -/
inductive Status where
  | requested
  | submitted (pspRefundId : String)
  | approved (pspRefundId : String)
  | settled (pspRefundId : String) (settledAt : UInt64)
  | declined (code message : String)
  | failed (code message : String)
deriving DecidableEq

namespace Status

def isTerminal : Status → Bool
  | .settled _ _ => true
  | .declined _ _ => true
  | .failed _ _ => true
  | _ => false

def code : Status → String
  | .requested => "requested"
  | .submitted _ => "submitted"
  | .approved _ => "approved"
  | .settled _ _ => "settled"
  | .declined _ _ => "declined"
  | .failed _ _ => "failed"

end Status

/-- One refund record. -/
structure Refund where
  id : RefundId
  originalTxId : TransactionId
  externalId : Option String
  amount : Money
  reason : RefundReason
  status : Status
  requestedAt : UInt64
  metadata : List (String × String)
deriving DecidableEq

namespace Refund

/-- The error of a step from the wrong state. -/
def refuse (r : Refund) : Except Error Refund :=
  .error (.invalidTransition r.id.toString r.status.code)

def submit (r : Refund) (pspRefundId : String) : Except Error Refund :=
  match r.status with
  | .requested => .ok { r with status := .submitted pspRefundId }
  | _ => r.refuse

def approve (r : Refund) : Except Error Refund :=
  match r.status with
  | .submitted pspRefundId => .ok { r with status := .approved pspRefundId }
  | _ => r.refuse

def settle (r : Refund) (settledAt : UInt64) : Except Error Refund :=
  match r.status with
  | .submitted pspRefundId | .approved pspRefundId =>
    .ok { r with status := .settled pspRefundId settledAt }
  | _ => r.refuse

def decline (r : Refund) (code message : String) : Except Error Refund :=
  if r.status.isTerminal then r.refuse
  else .ok { r with status := .declined code message }

def failAfterApproval (r : Refund) (code message : String) : Except Error Refund :=
  match r.status with
  | .approved _ => .ok { r with status := .failed code message }
  | _ => r.refuse

end Refund

-- ==== the store

/-- The bodies two refunds are compared by: everything outside the
lifecycle state, the metadata as a bag. -/
def bodiesEquivalent (a b : Refund) : Bool :=
  if a.originalTxId ≠ b.originalTxId ∨ a.amount ≠ b.amount
      ∨ a.reason ≠ b.reason ∨ a.externalId ≠ b.externalId then false
  else if a.metadata.length ≠ b.metadata.length then false
  else a.metadata.isPerm b.metadata

def refundScheme : Scheme RefundId Refund Error where
  key := Refund.id
  token := Refund.externalId
  same := bodiesEquivalent
  mismatch := .idempotencyMismatch
  -- the source expects the indexed refund to be stored
  dangling := fun id => .notFound id.toString

/-- The in-process store: the refunds by id, and the ids by external
id. -/
abbrev InMemoryRefundStore := Keyed RefundId Refund

namespace InMemoryRefundStore

def new : InMemoryRefundStore := Keyed.empty

def createRefund (s : InMemoryRefundStore) (refund : Refund) :
    InMemoryRefundStore × Except Error RefundId :=
  refundScheme.submit s refund

/-- Apply a transition to a refund, committing where it succeeds. -/
def update (s : InMemoryRefundStore) (id : RefundId) (f : Refund → Except Error Refund) :
    InMemoryRefundStore × Except Error Refund :=
  match s.rows.lookup id with
  | none => (s, .error (.notFound id.toString))
  | some existing =>
    match f existing with
    | .error e => (s, .error e)
    | .ok staged => (s.replace id staged, .ok staged)

end InMemoryRefundStore

-- ==== runs

/-- The transition methods of a refund. -/
inductive Transition where
  | submit (pspRefundId : String)
  | approve
  | settle (settledAt : UInt64)
  | decline (code message : String)
  | failAfterApproval (code message : String)

def Transition.apply : Transition → Refund → Except Error Refund
  | .submit pspRefundId, r => r.submit pspRefundId
  | .approve, r => r.approve
  | .settle settledAt, r => r.settle settledAt
  | .decline code message, r => r.decline code message
  | .failAfterApproval code message, r => r.failAfterApproval code message

/-- One call on the store: a submission, or an update that applies some
of the transition methods in turn and stops at the first that refuses. -/
inductive Call where
  | createRefund (refund : Refund)
  | update (id : RefundId) (transitions : List Transition)

def Call.submits : Call → Option Refund
  | .createRefund refund => some refund
  | .update _ _ => none

def InMemoryRefundStore.call (s : InMemoryRefundStore) : Call → InMemoryRefundStore
  | .createRefund refund => (s.createRefund refund).1
  | .update id transitions =>
    (s.update id fun r => transitions.foldlM (fun r t => t.apply r) r).1

end OpenStandards.OpRefund

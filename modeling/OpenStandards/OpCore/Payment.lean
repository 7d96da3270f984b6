/-
Payment methods, rails and the payment typestate (op-core `method.rs`,
`rails.rs`, `payment.rs`).

A payment is indexed by its state, and each transition is a function from
the payments of one state to those of the next: a transition the source
does not offer in a state cannot be written here either. Only `capture`
and `refund` can fail. The constructor mints the id with `Uuid::now_v7`;
here the minted id is an argument.
-/
import OpenStandards.OpLedger.Types

namespace OpenStandards.OpCore

open Lib
open OpLedger (Uuid)

-- ==== methods and rails

/-- A top-level family of payment rails. -/
inductive RailKind where
  | card
  | a2a
  | wallet
  | qr
  | crypto
deriving DecidableEq

/-- A token held in a vault. -/
structure VaultRef where
  id : String
deriving DecidableEq

/-- An opaque token blob. -/
structure Token where
  bytes : List UInt8
deriving DecidableEq

/-- An account-to-account destination key. -/
inductive A2aKey where
  | upi (handle : String)
  | pix (key : String)
  | iban (iban : String)
  | usAch (routing account : String)
deriving DecidableEq

/-- A wallet address on a chain. -/
structure CryptoAddress where
  chain : String
  address : String
deriving DecidableEq

/-- A raw card number, in the `pci-scope` builds. -/
structure RawPan where
  pan : String
  expMonth : UInt8
  expYear : UInt16
deriving DecidableEq

/-- How value moves. -/
inductive PaymentMethod where
  | vault (ref : VaultRef)
  | wallet (token : Token)
  | emv (token : Token)
  | a2a (key : A2aKey)
  | qr (payload : String)
  | crypto (address : CryptoAddress)
  | rawPan (pan : RawPan)
deriving DecidableEq

-- ==== the typestate

inductive PaymentState where
  | created
  | authorized
  | captured
  | voided
  | refunded
  | failed

def PaymentState.name : PaymentState → String
  | .created => "Created"
  | .authorized => "Authorized"
  | .captured => "Captured"
  | .voided => "Voided"
  | .refunded => "Refunded"
  | .failed => "Failed"

structure Payment (state : PaymentState) where
  id : Uuid
  amount : Money
  captured : Money
  refunded : Money
  method : PaymentMethod
  rail : RailKind
  railRef : Option String

namespace Payment

def new (id : Uuid) (amount : Money) (method : PaymentMethod)
    (rail : RailKind) : Payment .created :=
  { id, amount, captured := Money.zero amount.currency
    refunded := Money.zero amount.currency, method, rail, railRef := none }

def authorize (p : Payment .created) (railRef : String) : Payment .authorized :=
  { id := p.id, amount := p.amount, captured := p.captured
    refunded := p.refunded, method := p.method, rail := p.rail
    railRef := some railRef }

def fail (p : Payment .created) (reason : String) : Payment .failed :=
  { id := p.id, amount := p.amount, captured := p.captured
    refunded := p.refunded, method := p.method, rail := p.rail
    railRef := some reason }

def capture (p : Payment .authorized) (amount : Money) :
    Except CoreError (Payment .captured) := do
  let newCaptured ← p.captured.checkedAdd amount
  if p.amount.minorUnits.val < newCaptured.minorUnits.val then
    .error (.illegalTransition PaymentState.authorized.name PaymentState.captured.name)
  else
    .ok { id := p.id, amount := p.amount, captured := newCaptured
          refunded := p.refunded, method := p.method, rail := p.rail
          railRef := p.railRef }

def void (p : Payment .authorized) : Payment .voided :=
  { id := p.id, amount := p.amount, captured := p.captured
    refunded := p.refunded, method := p.method, rail := p.rail
    railRef := p.railRef }

def refund (p : Payment .captured) (amount : Money) : Except CoreError (Payment .refunded) := do
  let newRefunded ← p.refunded.checkedAdd amount
  if p.captured.minorUnits.val < newRefunded.minorUnits.val then
    .error (.illegalTransition PaymentState.captured.name PaymentState.refunded.name)
  else
    .ok { id := p.id, amount := p.amount, captured := p.captured
          refunded := newRefunded, method := p.method, rail := p.rail
          railRef := p.railRef }

end Payment

-- ==== runs

abbrev AnyPayment := Σ state, Payment state

/-- A transition with its argument. -/
inductive Transition where
  | authorize (railRef : String)
  | fail (reason : String)
  | capture (amount : Money)
  | void
  | refund (amount : Money)

/-- A transition of the typestate that succeeds. -/
inductive Step : AnyPayment → Transition → AnyPayment → Prop
  | authorize (p : Payment .created) (railRef : String) :
      Step ⟨_, p⟩ (.authorize railRef) ⟨_, p.authorize railRef⟩
  | fail (p : Payment .created) (reason : String) :
      Step ⟨_, p⟩ (.fail reason) ⟨_, p.fail reason⟩
  | capture (p : Payment .authorized) (amount : Money)
      (p' : Payment .captured) (hok : p.capture amount = .ok p') :
      Step ⟨_, p⟩ (.capture amount) ⟨_, p'⟩
  | void (p : Payment .authorized) : Step ⟨_, p⟩ .void ⟨_, p.void⟩
  | refund (p : Payment .captured) (amount : Money)
      (p' : Payment .refunded) (hok : p.refund amount = .ok p') :
      Step ⟨_, p⟩ (.refund amount) ⟨_, p'⟩

/-- A sequence of transitions that succeed. -/
inductive Transitions : AnyPayment → List Transition → AnyPayment → Prop
  | nil (p : AnyPayment) : Transitions p [] p
  | snoc {p q r : AnyPayment} {ts : List Transition} {t : Transition}
      (hrun : Transitions p ts q) (hstep : Step q t r) :
      Transitions p (ts ++ [t]) r

end OpenStandards.OpCore

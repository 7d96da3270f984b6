/-
The connector: the per-hop forwarding decision (smart-byte-ilp
`connector.rs`).

A call returns the connector it leaves behind beside its result, so that
a failed call shows what it changed. The connector's own address and the
asset scales are read by no call.
-/
import OpenStandards.Ilp.Packet
import OpenStandards.Lib.Checked
import OpenStandards.Lib.Select
import OpenStandards.Lib.Table

namespace OpenStandards.Ilp

open Lib

/-- A route table entry. -/
structure Route where
  addressPrefix : String
  nextHop : String
  assetCode : String

/-- The routes, in order of insertion. -/
structure RouteTable where
  routes : List Route

def Route.replaces (r prev : Route) : Bool :=
  prev.addressPrefix.utf8ByteSize < r.addressPrefix.utf8ByteSize

def RouteTable.resolve (t : RouteTable) (destination : Address) : Option Route :=
  t.routes.foldl
    (fun best r =>
      if destination.startsWithPrefix r.addressPrefix
      then scanStep Route.replaces best r else best)
    none

/-- The state of a next-hop account. -/
structure AccountState where
  balance : UInt64
  maxPacketAmount : UInt64
  packetsPerSec : UInt32
  packetsThisSec : UInt32

/-- The outcome of a forwarding decision. -/
inductive ForwardDecision where
  | forward (nextHop : String) (prepare : Prepare)
  | reject (code : RejectCode) (message : String)

structure Connector where
  sourceAssetCode : String
  routes : RouteTable
  quotes : Table (String × String) UInt64
  accounts : Table String AccountState

namespace Connector

/-- Convert an amount by the quote of two assets; equal assets need
none. -/
def convert (c : Connector) (amount : UInt64) (source target : String) :
    Except IlpError UInt64 :=
  if source = target then .ok amount
  else
    match c.quotes.lookup (source, target) with
    | none => .error (.noQuote source target)
    | some rate =>
      -- `u128::saturating_mul`, then a division, then the cap
      let converted :=
        min (amount.toNat * rate.toNat) (2 ^ 128 - 1) / 1000000
      .ok (UInt64.ofNat (min converted (2 ^ 64 - 1)))

def forward (c : Connector) (prepare : Prepare) : Connector × Except IlpError ForwardDecision :=
  match c.routes.resolve prepare.destination with
  | none =>
    (c, .ok (.reject .f02Unreachable ("no route to " ++ prepare.destination.raw)))
  | some route =>
    match c.convert prepare.amount c.sourceAssetCode route.assetCode with
    | .error e => (c, .error e)
    | .ok nextAmount =>
      match c.accounts.lookup route.nextHop with
      | none =>
        (c, .error (.balance ("no account state for " ++ route.nextHop)))
      | some account =>
        if 0 < account.maxPacketAmount
            ∧ account.maxPacketAmount < nextAmount then
          (c, .ok (.reject .f08AmountTooLarge "exceeds max packet amount"))
        else if account.packetsPerSec ≤ account.packetsThisSec then
          (c, .ok (.reject .t05RateLimited "rate limit exceeded"))
        else if account.balance < nextAmount then
          (c, .ok (.reject .t04InsufficientLiquidity "insufficient balance"))
        else
          let account' :=
            { account with
              balance := account.balance - nextAmount
              packetsThisSec := account.packetsThisSec + 1 }
          ({ c with
              accounts := c.accounts.insert route.nextHop account' },
            .ok (.forward route.nextHop
              { prepare with amount := nextAmount }))

def refund (c : Connector) (nextHop : String) (amount : UInt64) : Connector :=
  match c.accounts.lookup nextHop with
  | none => c
  | some a =>
    { c with
      accounts := c.accounts.insert nextHop
        { a with balance := saturatingAddU64 a.balance amount } }

end Connector

end OpenStandards.Ilp

/-
Routing of a payment (op-routing `route.rs`, `cost.rs`, `lcr.rs`, `mcc.rs`,
`retry.rs`, `composer.rs`): the pool of routes is sorted by estimated cost,
filtered by the merchant category, and walked while the retry policy allows
another attempt.

A cost estimator is the operator's own code; it is a function here. A
`Duration` is its number of nanoseconds.
-/
import OpenStandards.OpCore.Payment
import Mathlib.Data.Finset.Basic
import Mathlib.Data.List.Sort

namespace OpenStandards.OpRouting

open Lib OpCore

-- ==== routes

structure DriverId where
  name : String
deriving DecidableEq

/-- What a router selects. -/
structure Route where
  driver : DriverId
  rail : RailKind
  country : Option Text
  authRateBps : Option UInt16

/-- The view of a payment intent that is read here. -/
structure PaymentIntentRef where
  amount : Money
  mcc : Option Text
  customerCountry : Option Text
  merchantCountry : Option Text

/-- `CostEstimator::estimate`. -/
abbrev CostEstimator := PaymentIntentRef → Route → Money

-- ==== least cost

structure LeastCostRouter where
  estimators : Table DriverId CostEstimator
  routes : List Route
  authRateBiasBps : UInt32

namespace LeastCostRouter

def score (l : LeastCostRouter) (intent : PaymentIntentRef) (route : Route) : I64 :=
  let cost := match l.estimators.lookup route.driver with
    | none => I64.maxValue
    | some estimate => (estimate intent route).minorUnits
  if l.authRateBiasBps = 0 ∨ cost = I64.maxValue then cost
  else
    let authBps := (route.authRateBps.getD 5000).toNat
    let bonus := (intent.amount.minorUnits.val * l.authRateBiasBps.toNat
      * authBps).tdiv 100000000
    cost.saturatingSub ((I64.ofInt? bonus).getD I64.maxValue)

/-- The order of `select`: by score, then by index. -/
def before (l : LeastCostRouter) (intent : PaymentIntentRef) (a b : Route × Nat) : Prop :=
  (l.score intent a.1).val < (l.score intent b.1).val
    ∨ (l.score intent a.1).val = (l.score intent b.1).val ∧ a.2 ≤ b.2

instance (l : LeastCostRouter) (intent : PaymentIntentRef) :
    DecidableRel (l.before intent) := fun a b =>
  inferInstanceAs (Decidable
    ((l.score intent a.1).val < (l.score intent b.1).val
      ∨ (l.score intent a.1).val = (l.score intent b.1).val ∧ a.2 ≤ b.2))

/-- The pool in ascending order of score. -/
def select (l : LeastCostRouter) (intent : PaymentIntentRef) : List Route :=
  (l.routes.zipIdx.insertionSort (l.before intent)).map Prod.fst

end LeastCostRouter

-- ==== merchant categories

/-- A merchant category code: four bytes. -/
structure Mcc where
  bytes : Vector UInt8 4
deriving DecidableEq

def isAsciiDigit (b : UInt8) : Bool := 48 ≤ b && b ≤ 57

def Mcc.fromStr (s : Text) : Option Mcc :=
  if h : s.utf8.toArray.size = 4 then
    if s.utf8.all isAsciiDigit then some ⟨⟨s.utf8.toArray, h⟩⟩ else none
  else none

/-- The preferences of one category; zero attempts stands for no cap. -/
structure McuPreferences where
  preferredDrivers : List DriverId
  excludedDrivers : Finset DriverId
  maxAttempts : UInt8

namespace McuPreferences

def rank (p : McuPreferences) (driver : DriverId) : Option Nat :=
  (p.preferredDrivers.zipIdx.reverse.find? fun e => e.1 = driver).map Prod.snd

/-- The sort key of `filter`. -/
def sortKey (p : McuPreferences) (r : Route) : Nat :=
  (p.rank r.driver).getD 18446744073709551615

end McuPreferences

structure MccPolicy where
  rules : Table Mcc McuPreferences

namespace MccPolicy

def rule (p : MccPolicy) (mcc : Option Mcc) : Option McuPreferences :=
  mcc.bind p.rules.lookup

/-- Excluded drivers are dropped, preferred ones come first, in the order of
the preferences. -/
def filter (p : MccPolicy) (mcc : Option Mcc) (pool : List Route) : List Route :=
  match p.rule mcc with
  | none => pool
  | some prefs =>
    let surviving := pool.filter fun r => r.driver ∉ prefs.excludedDrivers
    let preferred := surviving.filter fun r =>
      (prefs.rank r.driver).isSome
    let other := surviving.filter fun r => (prefs.rank r.driver).isNone
    preferred.insertionSort (fun a b => prefs.sortKey a ≤ prefs.sortKey b) ++ other

def maxAttemptsFor (p : MccPolicy) (mcc : Option Mcc) (defaultMax : UInt8) : UInt8 :=
  (((p.rule mcc).map McuPreferences.maxAttempts).filter (0 < ·)).getD defaultMax

end MccPolicy

-- ==== retries

/-- Nanoseconds. -/
abbrev Duration := Nat

/-- `Duration::MAX`: 2^64 - 1 seconds and 999999999 nanoseconds. -/
def Duration.max : Duration := 18446744073709551615999999999

/-- `u64::MAX`. -/
def maxU64 : Nat := 18446744073709551615

/-- A DE-39 response code: two bytes. -/
structure DeclineCode where
  bytes : Vector UInt8 2
deriving DecidableEq

inductive DeclineCategory where
  | soft
  | hard
  | unknown
deriving DecidableEq

/-- Exponential backoff with jitter. -/
structure BackoffPolicy where
  initial : Duration
  cap : Duration
  jitterMax : Duration
  jitterSeed : UInt64

namespace BackoffPolicy

def splitMix (p : BackoffPolicy) (attemptIndex : UInt32) : UInt64 :=
  let z := p.jitterSeed + attemptIndex.toUInt64 * 0x9E3779B97F4A7C15
  let z := (z ^^^ (z >>> 30)) * 0xBF58476D1CE4E5B9
  let z := (z ^^^ (z >>> 27)) * 0x94D049BB133111EB
  z ^^^ (z >>> 31)

def delayFor (p : BackoffPolicy) (attemptIndex : UInt32) : Duration :=
  if attemptIndex = 0 then 0
  else
    let shift := min (attemptIndex.toNat - 1) 20
    let factor := 2 ^ shift
    let initialNanos := min p.initial maxU64
    let expNanos := min (initialNanos * factor) maxU64
    let exp := min expNanos p.cap
    let jitterNanos :=
      if p.jitterMax = 0 then 0
      else (p.splitMix attemptIndex).toNat % max (min p.jitterMax maxU64) 1
    exp + jitterNanos

end BackoffPolicy

/-- An attempt that was made; a success or an action that is required has no
decline code. -/
structure Attempt where
  route : Route
  declineCode : Option DeclineCode

structure IntelligentRetry where
  maxAttempts : UInt8
  retryWindow : Duration
  softDeclineCodes : Finset DeclineCode
  hardDeclineCodes : Finset DeclineCode
  backoff : BackoffPolicy

namespace IntelligentRetry

def classify (p : IntelligentRetry) (code : DeclineCode) : DeclineCategory :=
  if code ∈ p.hardDeclineCodes then .hard
  else if code ∈ p.softDeclineCodes then .soft
  else .unknown

/-- The gate on the last answer. -/
def hardDeclined (p : IntelligentRetry) (priorAttempts : List Attempt) : Bool :=
  match priorAttempts.getLast?.bind Attempt.declineCode with
  | some code => p.classify code = .hard
  | none => false

def untried (priorAttempts : List Attempt) (pool : List Route) : Option Route :=
  pool.find? fun r => r.driver ∉ priorAttempts.map fun a => a.route.driver

def attemptsUsed (priorAttempts : List Attempt) : Nat :=
  min priorAttempts.length 255

/-- The delays of attempts one to `attemptsCompleted`; the sum saturates. -/
def totalDelay (p : IntelligentRetry) (attemptsCompleted : UInt32) : Duration :=
  (List.range attemptsCompleted.toNat).foldl
    (fun total i => min (total + p.backoff.delayFor (.ofNat (i + 1))) Duration.max) 0

end IntelligentRetry

-- ==== composer

inductive RouteDecision where
  | attempt (route : Route) (delay : Duration)
  | stop (reason : String)

structure ComposedRouter where
  lcr : LeastCostRouter
  mcc : MccPolicy
  retry : IntelligentRetry

namespace ComposedRouter

def category (intent : PaymentIntentRef) : Option Mcc :=
  intent.mcc.bind Mcc.fromStr

def attemptIndex (priorAttempts : List Attempt) : UInt32 :=
  .ofNat (min priorAttempts.length 4294967295)

def route (c : ComposedRouter) (intent : PaymentIntentRef)
    (priorAttempts : List Attempt) : RouteDecision :=
  if c.retry.hardDeclined priorAttempts then .stop "hard_decline"
  else
    let mcc := category intent
    let effectiveMax := c.mcc.maxAttemptsFor mcc c.retry.maxAttempts
    if effectiveMax.toNat ≤ IntelligentRetry.attemptsUsed priorAttempts then
      .stop "max_attempts_reached"
    else
      let lcrSorted := c.lcr.select intent
      let filtered := c.mcc.filter mcc lcrSorted
      match IntelligentRetry.untried priorAttempts filtered with
      | none => .stop "no_routes_remaining"
      | some chosen =>
        .attempt chosen (c.retry.backoff.delayFor (attemptIndex priorAttempts))

end ComposedRouter

end OpenStandards.OpRouting

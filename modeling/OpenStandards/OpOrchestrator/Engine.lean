/-
What goes into an orchestration and what comes out (op-orchestrator
`intent.rs`, `outcome.rs`, `error.rs`, `idempotency.rs`).

An intent carries an idempotency key; its body signature is the text that
must match when the key is used again. The in-memory idempotency store
keeps one record for each key, reserved first and given an outcome later.
-/
import OpenStandards.OpCore.Payment

namespace OpenStandards.OpOrchestrator

open Lib OpCore

-- ==== intents

structure IdempotencyKey where
  text : String
deriving DecidableEq

structure RoutingHints where
  customerCountry : Option String := none
  merchantCountry : Option String := none
  merchantCategory : Option String := none
  binBucket : Option String := none
  threeDsEnrolled : Bool := false
  preferA2a : Bool := false

/-- The unit of work of the orchestrator. -/
structure PaymentIntent where
  idempotencyKey : IdempotencyKey
  amount : Money
  method : PaymentMethod
  hints : RoutingHints := {}
  metadata : List (String × String) := []

def a2aKeySignature : A2aKey → String
  | .upi h => "upi:" ++ h
  | .pix h => "pix:" ++ h
  | .iban i => "iban:" ++ i
  | .usAch routing account => "usach:" ++ routing ++ ":" ++ account

def methodSignature : PaymentMethod → String
  | .vault v => "Vault:" ++ v.id
  | .wallet _ => "Wallet:<opaque>"
  | .emv _ => "Emv:<binary>"
  | .a2a k => "A2a:" ++ a2aKeySignature k
  | .qr s => "Qr:" ++ s
  | .crypto a => "Crypto:" ++ a.chain ++ ":" ++ a.address
  | .rawPan _ => "RawPan:<pci-scoped>"

/-- The text that must match across retries under one key. -/
def PaymentIntent.bodySignature (i : PaymentIntent) : String :=
  "amount=" ++ toString i.amount.minorUnits.val
    ++ "|currency=" ++ i.amount.currency.code
    ++ "|method=" ++ methodSignature i.method
    ++ "|cc=" ++ i.hints.customerCountry.getD ""
    ++ "|mc=" ++ i.hints.merchantCountry.getD ""

-- ==== outcomes

/-- The outcome of one rail attempt. -/
inductive AttemptOutcome where
  | success
  | hardDecline (code : String)
  | softFailure (code : String)
  | requiresAction (url : String)
deriving DecidableEq

structure Attempt where
  rail : RailKind
  driver : String
  outcome : AttemptOutcome
deriving DecidableEq

/-- The terminal state of an orchestration. -/
inductive TerminalStatus where
  | approved
  | requiresCustomerAction
  | declined
deriving DecidableEq

/-- What the orchestrator answers. -/
structure OrchestrationOutcome where
  terminalStatus : TerminalStatus
  attempts : List Attempt
  railUsed : Option RailKind
  pspPaymentId : Option String
  uetr : Option String

def OrchestrationOutcome.isApproved (o : OrchestrationOutcome) : Bool :=
  o.terminalStatus = .approved

/-- The failure modes of the orchestrator that the modelled functions
use. -/
inductive Error where
  | fraudDeclined (reason : String)
  | fraudReviewRequired (reason : String)
  | noEligibleRail (reason : String)
  | allRailsExhausted (attemptCount : Nat)
  | idempotencyMismatch
  | allCircuitsOpen
  | fraud
  | core (e : CoreError)

-- ==== the idempotency store

/-- What is stored under a key; no outcome while a request is in
flight. -/
structure IdempotencyRecord where
  bodySignature : String
  outcome : Option OrchestrationOutcome

abbrev InMemoryIdempotencyStore := Table IdempotencyKey IdempotencyRecord

namespace InMemoryIdempotencyStore

/-- Reserve a slot, or answer what is there. -/
def reserve (s : InMemoryIdempotencyStore) (key : IdempotencyKey) (bodySignature : String) :
    InMemoryIdempotencyStore × Option IdempotencyRecord :=
  match s.lookup key with
  | some existing => (s, some existing)
  | none => (s.insert key { bodySignature, outcome := none }, none)

def commit (s : InMemoryIdempotencyStore) (key : IdempotencyKey)
    (outcome : OrchestrationOutcome) : InMemoryIdempotencyStore :=
  match s.lookup key with
  | some rec => s.insert key { rec with outcome := some outcome }
  -- a commit without a reservation
  | none => s.insert key { bodySignature := "", outcome := some outcome }

/-- Give a slot back that is still in flight. -/
def release (s : InMemoryIdempotencyStore) (key : IdempotencyKey) : InMemoryIdempotencyStore :=
  match s.lookup key with
  | some rec => if rec.outcome.isNone then s.erase key else s
  | none => s

end InMemoryIdempotencyStore

/-
The circuit breaker (op-orchestrator `circuit_breaker.rs`).

One breaker for each pair of a rail and a driver: it counts consecutive
failures, and from the threshold on each failure opens it for a cooldown.
The clock is an argument of every call. `allow` and `state` read the
table and do not write it.
-/

/-- The state of one breaker, as observed. -/
inductive CircuitState where
  | closed
  | opened (until_ : UInt64)
  | halfOpen

/-- What is kept of one breaker. -/
structure BreakerState where
  consecutiveFailures : UInt32 := 0
  openUntil : Option UInt64 := none

/-- A rail and the name of a driver on it. -/
abbrev Pair := RailKind × String

/-- The in-process breaker. -/
structure InMemoryCircuitBreaker where
  inner : Table Pair BreakerState
  failureThreshold : UInt32
  cooldownSecs : UInt64

namespace InMemoryCircuitBreaker

/-- Five failures open for a minute. -/
def new : InMemoryCircuitBreaker :=
  { inner := ∅, failureThreshold := 5, cooldownSecs := 60 }

def withThreshold (b : InMemoryCircuitBreaker) (threshold : UInt32) : InMemoryCircuitBreaker :=
  { b with failureThreshold := threshold }

def withCooldown (b : InMemoryCircuitBreaker) (cooldownSecs : UInt64) :
    InMemoryCircuitBreaker :=
  { b with cooldownSecs }

/-- Open until the cooldown ends, then half-open. -/
def state (b : InMemoryCircuitBreaker) (pair : Pair) (now : UInt64) : CircuitState :=
  match b.inner.lookup pair with
  | none => .closed
  | some s =>
    match s.openUntil with
    | none => .closed
    | some t => if now < t then .opened t else .halfOpen

def allow (b : InMemoryCircuitBreaker) (pair : Pair) (now : UInt64) : Bool :=
  match b.state pair now with
  | .opened _ => false
  | _ => true

def recordSuccess (b : InMemoryCircuitBreaker) (pair : Pair) : InMemoryCircuitBreaker :=
  { b with inner := b.inner.insert pair
                      { consecutiveFailures := 0, openUntil := none } }

/-- Enough failures in a row start a cooldown. -/
def recordFailure (b : InMemoryCircuitBreaker) (pair : Pair)
    (now : UInt64) : InMemoryCircuitBreaker :=
  let s := (b.inner.lookup pair).getD {}
  let consecutiveFailures := saturatingAddU32 s.consecutiveFailures 1
  let openUntil :=
    if b.failureThreshold ≤ consecutiveFailures then
      some (saturatingAddU64 now b.cooldownSecs)
    else s.openUntil
  { b with inner := b.inner.insert pair { consecutiveFailures, openUntil } }

end InMemoryCircuitBreaker

inductive BreakerCall where
  | recordSuccess (pair : Pair)
  | recordFailure (pair : Pair) (now : UInt64)
  | allow (pair : Pair) (now : UInt64)

def InMemoryCircuitBreaker.call (b : InMemoryCircuitBreaker) :
    BreakerCall → InMemoryCircuitBreaker
  | .recordSuccess pair => b.recordSuccess pair
  | .recordFailure pair now => b.recordFailure pair now
  | .allow _ _ => b

/-
The orchestrator (op-orchestrator `engine.rs`).

`run` reserves the idempotency key, screens the intent for fraud, asks the
router for a chain of drivers and tries them in turn. It commits what it
answers and releases the key where it fails. `resume` asks one driver
about a payment it had paused and commits what comes of it.

The router, the drivers, the breaker, the fraud scorer, the telemetry and
the clock are arbitrary computations over a world `ω`, so a theorem about
every world covers every sequence of their answers.
-/

variable {ω : Type}

-- ==== the collaborators

/-- What a driver answers. -/
structure AdapterResult where
  outcome : AttemptOutcome
  pspPaymentId : Option String
  uetr : Option String

/-- A driver behind its adapter. -/
structure RailAdapter (ω : Type) where
  attempt : PaymentIntent → Nat → StateM ω AdapterResult
  resume : PaymentIntent → String → StateM ω AdapterResult

/-- The default `resume` of an adapter. -/
def resumeNotSupported : PaymentIntent → String → StateM ω AdapterResult :=
  fun _ _ => pure
    { outcome := .softFailure "resume_not_supported"
      pspPaymentId := none, uetr := none }

/-- One entry of a routing decision. -/
structure RailChoice where
  rail : RailKind
  driver : String

/-- The ordered fallback chain. -/
structure RoutingDecision where
  chain : List RailChoice

/-- A breaker as the engine uses it. -/
structure CircuitBreaker (ω : Type) where
  allow : RailKind → String → UInt64 → StateM ω Bool
  recordSuccess : RailKind → String → StateM ω Unit
  recordFailure : RailKind → String → UInt64 → StateM ω Unit

/-- How telemetry classes an attempt. -/
inductive AttemptResultClass where
  | approved
  | softFailure
  | hardFailure

def AttemptResultClass.classify : AttemptOutcome → AttemptResultClass
  | .success => .approved
  | .requiresAction _ => .approved
  | .softFailure _ => .softFailure
  | .hardDecline _ => .hardFailure

/-- An orchestrator, apart from its idempotency store. -/
structure Orchestrator (ω : Type) where
  maxAttempts : Nat
  route : PaymentIntent → StateM ω (Except String RoutingDecision)
  adapters : Pair → Option (RailAdapter ω)
  breaker : CircuitBreaker ω
  screen : PaymentIntent → StateM ω (Except Error Unit)
  recordAttempt : RailKind → String → AttemptResultClass → UInt64 → String → StateM ω Unit
  now : StateM ω UInt64

structure State (ω : Type) where
  idempotency : InMemoryIdempotencyStore
  world : ω

/-- What a call did: the attempts its drivers made, in order, and its
answer. -/
structure Report where
  attempts : List Attempt
  result : Except Error OrchestrationOutcome

namespace Orchestrator

-- ==== the attempt loop

/-- The answer when the chain is used up. -/
def exhausted (attempts : List Attempt) (anyCircuitWasClosed : Bool) : Report :=
  { attempts
    result := if anyCircuitWasClosed then
        .error (.allRailsExhausted attempts.length)
      else .error .allCircuitsOpen }

def concluded (terminalStatus : TerminalStatus) (attempts : List Attempt)
    (rail : RailKind) (r : AdapterResult) : Report :=
  { attempts
    result := .ok { terminalStatus, attempts, railUsed := some rail
                    pspPaymentId := r.pspPaymentId, uetr := r.uetr } }

/-- Try the entries of the chain in turn, from the `i`-th on. -/
def attemptLoop (o : Orchestrator ω) (intent : PaymentIntent) :
    List RailChoice → Nat → List Attempt → Bool → StateM ω Report
  | [], _, attempts, anyCircuitWasClosed =>
    pure (exhausted attempts anyCircuitWasClosed)
  | choice :: rest, i, attempts, anyCircuitWasClosed => do
    if o.maxAttempts ≤ attempts.length then
      pure (exhausted attempts anyCircuitWasClosed)
    else
      let now ← o.now
      let allowed ← o.breaker.allow choice.rail choice.driver now
      if ¬ allowed then
        -- an open breaker does not count as an attempt
        o.attemptLoop intent rest (i + 1) attempts anyCircuitWasClosed
      else
        match o.adapters (choice.rail, choice.driver) with
        | none => o.attemptLoop intent rest (i + 1) attempts true
        | some adapter => do
          let r ← adapter.attempt intent i
          o.recordAttempt choice.rail choice.driver
            (.classify r.outcome) now intent.idempotencyKey.text
          let attempts := attempts
            ++ [{ rail := choice.rail, driver := choice.driver
                  outcome := r.outcome }]
          match r.outcome with
          | .success => do
            o.breaker.recordSuccess choice.rail choice.driver
            pure (concluded .approved attempts choice.rail r)
          | .requiresAction _ =>
            pure (concluded .requiresCustomerAction attempts choice.rail r)
          | .hardDecline _ => do
            o.breaker.recordSuccess choice.rail choice.driver
            pure (concluded .declined attempts choice.rail r)
          | .softFailure _ => do
            o.breaker.recordFailure choice.rail choice.driver now
            o.attemptLoop intent rest (i + 1) attempts true

def runInner (o : Orchestrator ω) (intent : PaymentIntent) : StateM ω Report := do
  match ← o.screen intent with
  | .error e => pure { attempts := [], result := .error e }
  | .ok () =>
    match ← o.route intent with
    | .error reason =>
      pure { attempts := [], result := .error (.noEligibleRail reason) }
    | .ok decision => o.attemptLoop intent decision.chain 0 [] false

-- ==== run and resume

def run (o : Orchestrator ω) (s : State ω) (intent : PaymentIntent) : State ω × Report :=
  let bodySig := intent.bodySignature
  match InMemoryIdempotencyStore.reserve s.idempotency
      intent.idempotencyKey bodySig with
  | (_, some record) =>
    if record.bodySignature ≠ bodySig then
      (s, { attempts := [], result := .error .idempotencyMismatch })
    else
      match record.outcome with
      | some cached => (s, { attempts := [], result := .ok cached })
      -- the slot is in flight
      | none =>
        (s, { attempts := [], result := .error (.allRailsExhausted 0) })
  | (reserved, none) =>
    let (report, world) := o.runInner intent s.world
    let idempotency := match report.result with
      | .ok outcome =>
        InMemoryIdempotencyStore.commit reserved intent.idempotencyKey outcome
      | .error _ =>
        InMemoryIdempotencyStore.release reserved intent.idempotencyKey
    ({ idempotency, world }, report)

/-- `Debug` of a rail, in the error texts. -/
def railDebug : RailKind → String
  | .card => "Card"
  | .a2a => "A2a"
  | .wallet => "Wallet"
  | .qr => "Qr"
  | .crypto => "Crypto"

def resumedStatus : AttemptOutcome → TerminalStatus
  | .success => .approved
  | .requiresAction _ => .requiresCustomerAction
  | .hardDecline _ => .declined
  | .softFailure _ => .declined

def resumedOutcome (rail : RailKind) (driver : String) (r : AdapterResult) :
    OrchestrationOutcome :=
  { terminalStatus := resumedStatus r.outcome
    attempts := [{ rail, driver, outcome := r.outcome }]
    railUsed := some rail
    pspPaymentId := r.pspPaymentId, uetr := r.uetr }

/-- Take up an intent whose customer had something to do. -/
def resume (o : Orchestrator ω) (s : State ω) (intent : PaymentIntent)
    (rail : RailKind) (driver pspPaymentId : String) : State ω × Report :=
  match o.adapters (rail, driver) with
  | none =>
    (s, { attempts := []
          result := .error (.noEligibleRail ("no adapter for rail="
            ++ railDebug rail ++ " driver=" ++ driver)) })
  | some adapter =>
    let (r, world) := adapter.resume intent pspPaymentId s.world
    let outcome := resumedOutcome rail driver r
    ({ idempotency := InMemoryIdempotencyStore.commit s.idempotency
        intent.idempotencyKey outcome
       world },
      { attempts := [], result := .ok outcome })

end Orchestrator

-- ==== runs

/-- One call on the orchestrator. -/
inductive Call where
  | run (intent : PaymentIntent)
  | resume (intent : PaymentIntent) (rail : RailKind)
      (driver pspPaymentId : String)

def Call.intent : Call → PaymentIntent
  | .run intent => intent
  | .resume intent _ _ _ => intent

def Call.key (c : Call) : IdempotencyKey := c.intent.idempotencyKey

def Call.isRun : Call → Bool
  | .run _ => true
  | .resume _ _ _ _ => false

def Orchestrator.call (o : Orchestrator ω) (s : State ω) : Call → State ω × Report
  | .run intent => o.run s intent
  | .resume intent rail driver pspPaymentId =>
    o.resume s intent rail driver pspPaymentId

end OpenStandards.OpOrchestrator

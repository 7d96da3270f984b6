/-
The crypto rail: gateways, the adapter over them and the policy router
(op-rails-crypto `gateway.rs`, `token.rs`, `error.rs`; op-orchestrator
`adapters/crypto.rs`, `router.rs`).

A gateway submits transfers and answers with a status; the adapter turns
an intent into a transfer request and the answer into the outcome of an
attempt. Where routing signals are wired in they reorder the drivers of a
rail by scores in floating point: some rearrangement, read from the world.

What the gateways are asked and answer is kept in a log beside the world,
which nothing else touches.
-/
import OpenStandards.Lib.FactLog
import OpenStandards.OpOrchestrator.Engine

namespace OpenStandards.OpOrchestrator

open Lib OpCore

variable {ω : Type}

-- ==== gateways

/-- A token deployment on a chain. -/
structure TokenRef where
  chain : String
  contract : String
  decimals : UInt8
  symbol : String

/-- A request to send a stablecoin transfer. -/
structure CryptoTransferReq where
  token : TokenRef
  to_ : CryptoAddress
  amount : Money
  idempotencyKey : String
  memo : Option String

inductive CryptoStatus where
  | pending
  | confirming
  | finalized
  | rejected
  | transient
deriving DecidableEq

/-- `Debug` of a status, in lower case. -/
def CryptoStatus.debugLower : CryptoStatus → String
  | .pending => "pending"
  | .confirming => "confirming"
  | .finalized => "finalized"
  | .rejected => "rejected"
  | .transient => "transient"

def CryptoStatus.needsPolling : CryptoStatus → Bool
  | .pending => true
  | .confirming => true
  | _ => false

/-- What a gateway answers, as far as the adapter reads it. -/
structure CryptoDecision where
  status : CryptoStatus
  txHash : Option String
  reason : Option String

/-- The failure modes of the crypto rail. -/
inductive CryptoError where
  | transport (msg : String)
  | rejected (code message : String)
  | invalidAddress (chain reason : String)
  | unsupportedChain (chain : String)
  | unsupportedToken (token : String)
  | missingField (field : String)
  | core (e : CoreError)
  | driverValidation (msg : String)

/-- A gateway for one chain and token. -/
structure CryptoGateway (ω : Type) where
  token : TokenRef
  supports : CryptoAddress → Bool
  submitTransfer : CryptoTransferReq → StateM ω (Except CryptoError CryptoDecision)

-- ==== the adapter

def classifyStatus (d : CryptoDecision) : AttemptOutcome :=
  match d.status with
  | .finalized => .success
  | .rejected => .hardDecline (d.reason.getD "rejected")
  | .pending | .confirming => .softFailure d.status.debugLower
  | .transient => .softFailure "transient"

def classifyError : CryptoError → String
  | .transport _ => "transport"
  | .rejected code _ => "rejected:" ++ code
  | .invalidAddress _ _ => "invalid_address"
  | .unsupportedChain _ => "unsupported_chain"
  | .unsupportedToken _ => "unsupported_token"
  | .missingField _ => "missing_field"
  | .core _ => "core"
  | .driverValidation _ => "driver_validation"

/-- Amounts are passed through unchanged. -/
def convertAmountForToken (amount : Money) (_token : TokenRef) : Money :=
  amount

def transferReq (token : TokenRef) (address : CryptoAddress)
    (intent : PaymentIntent) : CryptoTransferReq :=
  { token
    to_ := { chain := address.chain, address := address.address }
    amount := convertAmountForToken intent.amount token
    idempotencyKey := intent.idempotencyKey.text
    memo := (intent.metadata.find? fun kv => kv.1 = "memo").map Prod.snd }

def unasked (outcome : AttemptOutcome) : AdapterResult :=
  { outcome, pspPaymentId := none, uetr := none }

def answered : Except CryptoError CryptoDecision → AdapterResult
  | .ok d => { outcome := classifyStatus d, pspPaymentId := d.txHash
               uetr := none }
  | .error e => unasked (.softFailure (classifyError e))

/-- `CryptoAdapter::attempt`. -/
def cryptoAttempt (g : CryptoGateway ω) (intent : PaymentIntent)
    (_attemptNumber : Nat) : StateM ω AdapterResult :=
  match intent.method with
  | .crypto address =>
    if ¬ g.supports address then
      pure (unasked (.hardDecline ("unsupported_chain:" ++ address.chain)))
    else do
      let answer ← g.submitTransfer (transferReq g.token address intent)
      pure (answered answer)
  | _ => pure (unasked (.softFailure "method_not_crypto"))

def CryptoAdapter (g : CryptoGateway ω) : RailAdapter ω :=
  { attempt := cryptoAttempt g, resume := resumeNotSupported }

-- ==== the policy router

/-- The reference router. -/
structure PolicyRouter (ω : Type) where
  cardDrivers : List String
  a2aDrivers : List String
  cryptoDrivers : List String
  a2aAboveMinorUnits : Option I64
  signals : RailKind → StateM ω (RowOrder String)
  -- the derived `Debug` text of a method
  methodDebug : PaymentMethod → String

namespace PolicyRouter

def methodSupports : PaymentMethod → RailKind → Bool
  | .vault _, .card => true
  | .wallet _, .card => true
  | .emv _, .card => true
  | .a2a _, .a2a => true
  | .qr _, .a2a => true
  | .crypto _, .crypto => true
  | _, _ => false

def railOrder (r : PolicyRouter ω) (intent : PaymentIntent) :
    Option RailKind × Option RailKind :=
  match intent.method with
  | .crypto _ => (some .crypto, none)
  | method =>
    let cardCompat := methodSupports method .card
    let a2aCompat := methodSupports method .a2a
    if ¬ cardCompat ∧ ¬ a2aCompat then (none, none)
    else if cardCompat ∧ ¬ a2aCompat then (some .card, none)
    else if ¬ cardCompat ∧ a2aCompat then (some .a2a, none)
    else
      let preferA2a := intent.hints.preferA2a
        || (r.a2aAboveMinorUnits.map fun t =>
            decide (t.val ≤ intent.amount.minorUnits.val)).getD false
      if preferA2a then (some .a2a, some .card)
      else (some .card, some .a2a)

def driversFor (r : PolicyRouter ω) : RailKind → List String
  | .card => r.cardDrivers
  | .wallet => r.cardDrivers
  | .a2a => r.a2aDrivers
  | .qr => r.a2aDrivers
  | .crypto => r.cryptoDrivers

def pushFor (r : PolicyRouter ω) : Option RailKind → StateM ω (List RailChoice)
  | none => pure []
  | some rail => do
    let walk ← r.signals rail
    pure ((walk.order (r.driversFor rail)).map fun driver =>
      { rail, driver })

def route (r : PolicyRouter ω) (intent : PaymentIntent) :
    StateM ω (Except String RoutingDecision) := do
  let (primary, secondary) := r.railOrder intent
  let first ← r.pushFor primary
  let second ← r.pushFor secondary
  let chain := first ++ second
  if chain.isEmpty then
    pure (.error ("no rail compatible with payment method " ++ r.methodDebug intent.method))
  else pure (.ok { chain })

end PolicyRouter

-- ==== deployments

/-- A transfer a gateway was asked for, and its answer. -/
structure Submission where
  req : CryptoTransferReq
  answer : Except CryptoError CryptoDecision

/-- A world with the submissions made so far. -/
abbrev Logged (ω : Type) := ω × List Submission

/-- A computation that submits nothing. -/
def quiet {α : Type} (x : StateM ω α) : StateM (Logged ω) α :=
  fun w => ((x w.1).1, ((x w.1).2, w.2))

def CryptoGateway.recorded (g : CryptoGateway ω) : CryptoGateway (Logged ω) :=
  { token := g.token, supports := g.supports
    submitTransfer := fun req w =>
      let answer := g.submitTransfer req w.1
      (answer.1, (answer.2, w.2 ++ [{ req, answer := answer.1 }])) }

/-- An orchestrator with a policy router and crypto drivers over
gateways. -/
structure CryptoDeployment (ω : Type) where
  maxAttempts : Nat
  router : PolicyRouter ω
  gateways : String → Option (CryptoGateway ω)
  -- the drivers of the other rails
  others : Pair → Option (RailAdapter ω)
  breaker : CircuitBreaker ω
  screen : PaymentIntent → StateM ω (Except Error Unit)
  recordAttempt : RailKind → String → AttemptResultClass → UInt64 → String → StateM ω Unit
  now : StateM ω UInt64

def CryptoDeployment.adapters (d : CryptoDeployment ω) (pair : Pair) :
    Option (RailAdapter (Logged ω)) :=
  match pair with
  | (.crypto, driver) =>
    (d.gateways driver).map fun g => CryptoAdapter g.recorded
  | pair =>
    (d.others pair).map fun a =>
      { attempt := fun intent i => quiet (a.attempt intent i)
        resume := fun intent psp => quiet (a.resume intent psp) }

def CryptoDeployment.orchestrator (d : CryptoDeployment ω) : Orchestrator (Logged ω) :=
  { maxAttempts := d.maxAttempts
    route := fun intent => quiet (d.router.route intent)
    adapters := d.adapters
    breaker :=
      { allow := fun rail driver now => quiet (d.breaker.allow rail driver now)
        recordSuccess := fun rail driver =>
          quiet (d.breaker.recordSuccess rail driver)
        recordFailure := fun rail driver now =>
          quiet (d.breaker.recordFailure rail driver now) }
    screen := fun intent => quiet (d.screen intent)
    recordAttempt := fun rail driver class_ now key =>
      quiet (d.recordAttempt rail driver class_ now key)
    now := quiet d.now }

end OpenStandards.OpOrchestrator

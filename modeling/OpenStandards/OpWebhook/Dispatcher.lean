/-
Webhook endpoints, events, delivery attempts and the in-memory store
(op-webhook `endpoint.rs`, `event.rs`, `store.rs`).

The store's mutex makes every method atomic. The order in which a hash map
lists its values is not specified; the methods that list give one order,
and the semantics of the dispatcher allows any.
-/
import OpenStandards.OpLedger.Types
import OpenStandards.Lib.Lines

namespace OpenStandards.OpWebhook

open Lib
open OpLedger (Uuid)

/-- The failure modes of the modelled functions. -/
inductive Error where
  | endpointNotFound (id : Uuid)
  | eventNotFound (id : Uuid)
  | invalidUrl (reason : String)
  | invalidInput (reason : String)
deriving DecidableEq

/-- `Display` of an error. -/
def Error.text : Error → String
  | .endpointNotFound id => "endpoint not found: " ++ id.toString
  | .eventNotFound id => "event not found: " ++ id.toString
  | .invalidUrl reason => "invalid endpoint URL: " ++ reason
  | .invalidInput reason => "invalid input: " ++ reason

-- ==== endpoints

/-- Endpoint lifecycle status. -/
inductive EndpointStatus where
  | active
  | disabled
  | autoDisabled
deriving DecidableEq

namespace EndpointStatus

/-- The endpoint should not receive new deliveries. -/
def isBlocking : EndpointStatus → Bool
  | .active => false
  | .disabled | .autoDisabled => true

/-- `Debug` of a status. -/
def debug : EndpointStatus → String
  | .active => "Active"
  | .disabled => "Disabled"
  | .autoDisabled => "AutoDisabled"

end EndpointStatus

/-- A merchant-configured webhook destination. The constructor wants a
secret, but the fields are public: what is put may have none. -/
structure Endpoint where
  id : Uuid
  url : String
  secret : List UInt8
  eventFilters : List String
  status : EndpointStatus
  consecutiveFailures : UInt32
deriving DecidableEq

namespace Endpoint

def subscribes (e : Endpoint) (eventType : String) : Bool :=
  e.eventFilters.any fun f => f == "*" || f == eventType

end Endpoint

-- ==== events and attempts

structure WebhookEvent where
  id : Uuid
  eventType : String
  payload : List UInt8
  createdAtUnixSecs : UInt64

/-- Lifecycle status of a single delivery attempt. -/
inductive DeliveryStatus where
  | pending
  | inFlight
  | succeeded
  | retryScheduled
  | failed
deriving DecidableEq

/-- A single delivery attempt for an (event, endpoint) pair. -/
structure DeliveryAttempt where
  id : Uuid
  eventId : Uuid
  endpointId : Uuid
  attemptNumber : UInt32
  status : DeliveryStatus
  httpStatus : Option UInt16
  responseBodyExcerpt : Option (List UInt8)
  startedAtUnixSecs : UInt64
  completedAtUnixSecs : Option UInt64
  nextAttemptAtUnixSecs : Option UInt64
  error : Option String

def DeliveryAttempt.newPending (id eventId endpointId : Uuid)
    (attemptNumber : UInt32) (startedAtUnixSecs : UInt64) :
    DeliveryAttempt :=
  { id, eventId, endpointId, attemptNumber, status := .pending
    httpStatus := none, responseBodyExcerpt := none, startedAtUnixSecs
    completedAtUnixSecs := none, nextAttemptAtUnixSecs := none
    error := none }

-- ==== the store

/-- The maps behind the store's mutex. -/
structure Store where
  endpoints : Table Uuid Endpoint
  events : Table Uuid WebhookEvent
  attempts : Table Uuid DeliveryAttempt

namespace Store

def new : Store := { endpoints := ∅, events := ∅, attempts := ∅ }

def putEndpoint (s : Store) (endpoint : Endpoint) : Store :=
  { s with endpoints := s.endpoints.insert endpoint.id endpoint }

def getEndpoint (s : Store) (id : Uuid) : Except Error Endpoint :=
  match s.endpoints.lookup id with
  | some e => .ok e
  | none => .error (.endpointNotFound id)

def listActiveEndpointsFor (s : Store) (eventType : String) : List Endpoint :=
  (Table.values s.endpoints).filter fun e =>
    decide (e.status = .active) && e.subscribes eventType

def setEndpointStatus (s : Store) (id : Uuid) (status : EndpointStatus) :
    Except Error Unit × Store :=
  match s.endpoints.lookup id with
  | none => (.error (.endpointNotFound id), s)
  | some e =>
    (.ok (), { s with endpoints := s.endpoints.insert id { e with status } })

def setEndpointConsecutiveFailures (s : Store) (id : Uuid)
    (failures : UInt32) : Except Error Unit × Store :=
  match s.endpoints.lookup id with
  | none => (.error (.endpointNotFound id), s)
  | some e =>
    (.ok (), { s with endpoints :=
      s.endpoints.insert id { e with consecutiveFailures := failures } })

def putEvent (s : Store) (event : WebhookEvent) : Store :=
  { s with events := s.events.insert event.id event }

def getEvent (s : Store) (id : Uuid) : Except Error WebhookEvent :=
  match s.events.lookup id with
  | some e => .ok e
  | none => .error (.eventNotFound id)

def putAttempt (s : Store) (attempt : DeliveryAttempt) : Store :=
  { s with attempts := s.attempts.insert attempt.id attempt }

def attemptsOf (s : Store) (eventId endpointId : Uuid) : List DeliveryAttempt :=
  (Table.values s.attempts).filter fun a =>
    decide (a.eventId = eventId) && decide (a.endpointId = endpointId)

def listDueRetries (s : Store) (nowUnixSecs : UInt64) : List DeliveryAttempt :=
  (Table.values s.attempts).filter fun a =>
    decide (a.status = .retryScheduled)
      && match a.nextAttemptAtUnixSecs with
        | some t => decide (t ≤ nowUnixSecs)
        | none => false

end Store

/-
The dispatcher (op-webhook `dispatcher.rs`, `retry.rs`, `signing.rs`), as
programs over what it calls: the store's methods, the clock, the
transport, the retry policy's delays and fresh attempt ids.

`Store.Act` says what such a call may answer and what it leaves behind.
A system is a store and a pool of dispatcher threads, each running one call
at a time, and a log of what they performed; its steps interleave the
threads at every operation, and operators register, update and disable
endpoints in between.
-/
open OpLedger (Uuid)

-- ==== the outside

structure HttpRequest where
  url : String
  headers : List (String × String)
  body : List UInt8
  timeoutSecs : UInt32

structure HttpResponse where
  status : UInt16
  body : List UInt8

/-- The dispatcher's configuration: the retry policy's classification and
threshold, the keyed hash, and the request settings. -/
structure Dispatcher where
  shouldRetry : Option UInt16 → Bool
  disableAfterConsecutiveFailures : UInt32
  hmacSha256 : List UInt8 → List UInt8 → List UInt8
  timeoutSecs : UInt32
  contentType : String

/-- `should_retry` of the exponential-backoff policy: transport failures,
5xx, 408, 425 and 429. -/
def exponentialShouldRetry : Option UInt16 → Bool
  | none => true
  | some s => (500 ≤ s && s < 600) || s == 408 || s == 425 || s == 429

/-- Per-endpoint outcome of a delivery. -/
inductive DispatchOutcome where
  | delivered (endpointId : Uuid) (status : UInt16)
  | retrying (endpointId : Uuid) (nextAttemptAtUnixSecs : UInt64)
  | deadLetter (endpointId : Uuid) (reason : String)
  | skipped (endpointId : Uuid) (reason : String)

/-- What the dispatcher calls. A request is tagged with the pair it is
for. -/
inductive Op where
  | now
  | newAttemptId
  | send (eventId endpointId : Uuid) (request : HttpRequest)
  | nextDelaySecs (attemptNumber : UInt32) (elapsedSecs : UInt64)
  | putEvent (event : WebhookEvent)
  | getEvent (id : Uuid)
  | listActiveEndpointsFor (eventType : String)
  | getEndpoint (id : Uuid)
  | setEndpointStatus (id : Uuid) (status : EndpointStatus)
  | setEndpointConsecutiveFailures (id : Uuid) (failures : UInt32)
  | putAttempt (attempt : DeliveryAttempt)
  | listAttempts (eventId endpointId : Uuid)
  | listDueRetries (nowUnixSecs : UInt64)

/-- What it is answered. -/
@[reducible]
def Reply : Op → Type
  | .now => UInt64
  | .newAttemptId => Uuid
  | .send _ _ _ => Except String HttpResponse
  | .nextDelaySecs _ _ => Option UInt64
  | .putEvent _ => Unit
  | .getEvent _ => Except Error WebhookEvent
  | .listActiveEndpointsFor _ => List Endpoint
  | .getEndpoint _ => Except Error Endpoint
  | .setEndpointStatus _ _ => Except Error Unit
  | .setEndpointConsecutiveFailures _ _ => Except Error Unit
  | .putAttempt _ => Unit
  | .listAttempts _ _ => List DeliveryAttempt
  | .listDueRetries _ => List DeliveryAttempt

abbrev Program (α : Type) := Prog Op Reply α

namespace Do

def now : Program UInt64 := .perform Op.now

def newAttemptId : Program Uuid := .perform Op.newAttemptId

def send (eventId endpointId : Uuid) (request : HttpRequest) :
    Program (Except String HttpResponse) :=
  .perform (Op.send eventId endpointId request)

def nextDelaySecs (attemptNumber : UInt32) (elapsedSecs : UInt64) : Program (Option UInt64) :=
  .perform (Op.nextDelaySecs attemptNumber elapsedSecs)

def putEvent (event : WebhookEvent) : Program Unit :=
  .perform (Op.putEvent event)

def getEvent (id : Uuid) : Program (Except Error WebhookEvent) :=
  .perform (Op.getEvent id)

def listActiveEndpointsFor (eventType : String) : Program (List Endpoint) :=
  .perform (Op.listActiveEndpointsFor eventType)

def getEndpoint (id : Uuid) : Program (Except Error Endpoint) :=
  .perform (Op.getEndpoint id)

def setEndpointStatus (id : Uuid) (status : EndpointStatus) : Program (Except Error Unit) :=
  .perform (Op.setEndpointStatus id status)

def setEndpointConsecutiveFailures (id : Uuid) (failures : UInt32) :
    Program (Except Error Unit) :=
  .perform (Op.setEndpointConsecutiveFailures id failures)

def putAttempt (attempt : DeliveryAttempt) : Program Unit :=
  .perform (Op.putAttempt attempt)

def listAttempts (eventId endpointId : Uuid) : Program (List DeliveryAttempt) :=
  .perform (Op.listAttempts eventId endpointId)

def listDueRetries (nowUnixSecs : UInt64) : Program (List DeliveryAttempt) :=
  .perform (Op.listDueRetries nowUnixSecs)

end Do

/-- What a call may answer, and the store it leaves behind. -/
def Store.Act : (op : Op) → Store → Reply op → Store → Prop
  | .now, s, _, s' => s' = s
  | .newAttemptId, s, id, s' => s.attempts.lookup id = none ∧ s' = s
  | .send _ _ _, s, _, s' => s' = s
  | .nextDelaySecs _ _, s, _, s' => s' = s
  | .putEvent event, s, _, s' => s' = s.putEvent event
  | .getEvent id, s, r, s' => r = s.getEvent id ∧ s' = s
  | .listActiveEndpointsFor eventType, s, r, s' =>
    r.Perm (s.listActiveEndpointsFor eventType) ∧ s' = s
  | .getEndpoint id, s, r, s' => r = s.getEndpoint id ∧ s' = s
  | .setEndpointStatus id status, s, r, s' =>
    (r, s') = s.setEndpointStatus id status
  | .setEndpointConsecutiveFailures id failures, s, r, s' =>
    (r, s') = s.setEndpointConsecutiveFailures id failures
  | .putAttempt attempt, s, _, s' => s' = s.putAttempt attempt
  | .listAttempts eventId endpointId, s, r, s' =>
    r.Perm (s.attemptsOf eventId endpointId)
      ∧ r.Pairwise (fun a b => a.attemptNumber ≤ b.attemptNumber) ∧ s' = s
  | .listDueRetries nowUnixSecs, s, r, s' =>
    r.Perm (s.listDueRetries nowUnixSecs) ∧ s' = s

-- ==== signing

def asciiBytes (text : String) : List UInt8 :=
  text.toList.map fun c => c.toNat.toUInt8

/-- `"{timestamp}.{body}"` -/
def signedPayload (timestamp : UInt64) (body : List UInt8) : List UInt8 :=
  asciiBytes (toString timestamp.toNat) ++ asciiBytes "." ++ body

/-- Two lower-case hexadecimal digits a byte. -/
def hexEncode (bytes : List UInt8) : String :=
  String.ofList (bytes.flatMap fun b =>
    [OpLedger.hexDigit (b.toNat / 16), OpLedger.hexDigit (b.toNat % 16)])

def computeSignature (d : Dispatcher) (secret : List UInt8)
    (timestamp : UInt64) (body : List UInt8) : Except Error String :=
  if secret.isEmpty then .error (.invalidInput "signing secret is empty")
  else .ok (hexEncode (d.hmacSha256 secret (signedPayload timestamp body)))

def buildSignatureHeader (timestamp : UInt64) (signatureHex : String) : String :=
  "t=" ++ toString timestamp.toNat ++ ",v1=" ++ signatureHex

def httpRequest (d : Dispatcher) (event : WebhookEvent) (endpoint : Endpoint)
    (now : UInt64) (sigHex : String) : HttpRequest :=
  { url := endpoint.url
    headers := [("Content-Type", d.contentType),
      ("OpenPay-Signature", buildSignatureHeader now sigHex),
      ("OpenPay-Event-Id", event.id.toString),
      ("OpenPay-Event-Type", event.eventType)]
    body := event.payload
    timeoutSecs := d.timeoutSecs }

-- ==== one delivery

/-- Saturating addition and subtraction. -/
def saturatingSub (a b : UInt64) : UInt64 := if b ≤ a then a - b else 0

def saturatingAdd (a b : UInt64) : UInt64 :=
  if a.toNat + b.toNat < 2 ^ 64 then a + b else 18446744073709551615

/-- `saturating_add(1)` on a counter. -/
def nextFailures (failures : UInt32) : UInt32 :=
  if failures.toNat = 4294967295 then failures else failures + 1

/-- Increment the endpoint's counter, as read before the request; where
the new value crosses the threshold, disable the endpoint. -/
def bumpConsecutiveFailures (d : Dispatcher) (endpoint : Endpoint) : Program Unit := do
  let new := nextFailures endpoint.consecutiveFailures
  let _ ← Do.setEndpointConsecutiveFailures endpoint.id new
  if d.disableAfterConsecutiveFailures ≤ new then
    let _ ← Do.setEndpointStatus endpoint.id .autoDisabled
    return ()
  else return ()

/-- The bytes kept of a response body. -/
def excerpt (body : List UInt8) : List UInt8 := body.take 512

/-- Decide whether a non-2xx outcome is retried or dead-lettered. -/
def classifyNonSuccess (d : Dispatcher) (endpoint : Endpoint)
    (attempt : DeliveryAttempt) (httpStatus : Option UInt16)
    (transportErr : Option String) (elapsedSecs now : UInt64) :
    Program DispatchOutcome :=
  if !d.shouldRetry httpStatus then do
    bumpConsecutiveFailures d endpoint
    Do.putAttempt { attempt with
      status := .failed, completedAtUnixSecs := some now }
    return .deadLetter endpoint.id (match httpStatus with
      | some s => "http_" ++ toString s.toNat
      | none => transportErr.getD "unknown")
  else do
    match ← Do.nextDelaySecs attempt.attemptNumber elapsedSecs with
    | some delay => do
      let nextAt := saturatingAdd now delay
      bumpConsecutiveFailures d endpoint
      Do.putAttempt { attempt with
        status := .retryScheduled, nextAttemptAtUnixSecs := some nextAt
        completedAtUnixSecs := some now }
      return .retrying endpoint.id nextAt
    | none => do
      bumpConsecutiveFailures d endpoint
      Do.putAttempt { attempt with
        status := .failed, completedAtUnixSecs := some now }
      return .deadLetter endpoint.id "retry_budget_exhausted"

def dispatchSingle (d : Dispatcher) (event : WebhookEvent)
    (endpoint : Endpoint) (attemptNumber : UInt32) :
    Program DispatchOutcome :=
  if endpoint.status.isBlocking then
    .ret (.skipped endpoint.id ("endpoint status " ++ endpoint.status.debug))
  else do
    let now ← Do.now
    let elapsedSecs := saturatingSub now event.createdAtUnixSecs
    let id ← Do.newAttemptId
    let attempt := { DeliveryAttempt.newPending id event.id endpoint.id
      attemptNumber now with status := .inFlight }
    match computeSignature d endpoint.secret now event.payload with
    | .error e => do
      Do.putAttempt { attempt with
        status := .failed, error := some ("sign: " ++ e.text)
        completedAtUnixSecs := some now }
      return .deadLetter endpoint.id ("sign: " ++ e.text)
    | .ok sigHex => do
      match ← Do.send event.id endpoint.id
          (httpRequest d event endpoint now sigHex) with
      | .ok resp =>
        if 200 ≤ resp.status ∧ resp.status < 300 then do
          Do.putAttempt { attempt with
            status := .succeeded, httpStatus := some resp.status
            responseBodyExcerpt := some (excerpt resp.body)
            completedAtUnixSecs := some now }
          let _ ← Do.setEndpointConsecutiveFailures endpoint.id 0
          return .delivered endpoint.id resp.status
        else
          classifyNonSuccess d endpoint
            { attempt with
              httpStatus := some resp.status
              responseBodyExcerpt := some (excerpt resp.body) }
            (some resp.status) none elapsedSecs now
      | .error msg =>
        classifyNonSuccess d endpoint { attempt with error := some msg }
          none (some msg) elapsedSecs now

-- ==== the three calls

/-- The result of a call. -/
abbrev Outcomes := Except Error (List DispatchOutcome)

def dispatch (d : Dispatcher) (event : WebhookEvent) : Program Outcomes := do
  Do.putEvent event
  let endpoints ← Do.listActiveEndpointsFor event.eventType
  let outcomes ← Prog.each (fun ep => dispatchSingle d event ep 0) endpoints
  return .ok outcomes

def replay (d : Dispatcher) (eventId endpointId : Uuid) : Program Outcomes := do
  match ← Do.getEvent eventId with
  | .error e => return .error e
  | .ok event => do
    match ← Do.getEndpoint endpointId with
    | .error e => return .error e
    | .ok endpoint => do
      let existing ← Do.listAttempts eventId endpointId
      let attemptNumber := match existing.getLast? with
        | some a => a.attemptNumber + 1
        | none => 0
      let outcome ← dispatchSingle d event endpoint attemptNumber
      return .ok [outcome]

/-- The loop over the due retries: the scheduled attempt is retired, and
the delivery made anew. -/
def retryEach (d : Dispatcher) (now : UInt64) : List DeliveryAttempt → Program Outcomes
  | [] => return .ok []
  | a :: due => do
    match ← Do.getEvent a.eventId with
    | .error e => return .error e
    | .ok event => do
      match ← Do.getEndpoint a.endpointId with
      | .error _ => retryEach d now due
      | .ok endpoint => do
        Do.putAttempt { a with
          status := .failed, completedAtUnixSecs := some now }
        let outcome ← dispatchSingle d event endpoint
          (a.attemptNumber + 1)
        let rest ← retryEach d now due
        return rest.map (outcome :: ·)

def processDueRetries (d : Dispatcher) : Program Outcomes := do
  let now ← Do.now
  let due ← Do.listDueRetries now
  retryEach d now due

-- ==== the system

inductive Call where
  | dispatch (event : WebhookEvent)
  | replay (eventId endpointId : Uuid)
  | processDueRetries

def Call.program (d : Dispatcher) : Call → Program Outcomes
  | .dispatch event => OpWebhook.dispatch d event
  | .replay eventId endpointId => OpWebhook.replay d eventId endpointId
  | .processDueRetries => OpWebhook.processDueRetries d

/-- An operation performed by a thread, with its reply. -/
structure Performed where
  thread : Nat
  op : Op
  reply : Reply op

/-- The store, and what was performed on it, newest first. -/
structure World where
  store : Store
  log : List Performed

def World.Act (thread : Nat) (op : Op) (w : World) (r : Reply op) (w' : World) : Prop :=
  w.store.Act op r w'.store ∧ w'.log = ⟨thread, op, r⟩ :: w.log

abbrev Thread := Option (Call × Program Outcomes)

structure System where
  world : World
  threads : List Thread

/-- What a step is of. -/
inductive Label where
  | start (thread : Nat) (call : Call)
  | perform (thread : Nat) (call : Call) (op : Op)
  | finish (thread : Nat) (call : Call) (result : Outcomes)
  | operator

/-- Operators register and update endpoints, which keep their ids, and
delete none. -/
structure World.Operated (w w' : World) : Prop where
  attempts : w'.store.attempts = w.store.attempts
  events : w'.store.events = w.store.events
  kept : ∀ id, w'.store.endpoints.lookup id = none → w.store.endpoints.lookup id = none
  keyed : ∀ id e, w'.store.endpoints.lookup id = some e →
    w.store.endpoints.lookup id = some e ∨ e.id = id
  log : w'.log = w.log

inductive Step (d : Dispatcher) : System → Label → System → Prop where
  | start {sys : System} {i : Nat} (call : Call)
      (hi : sys.threads[i]? = some none) :
      Step d sys (.start i call)
        ⟨sys.world, sys.threads.set i (some (call, call.program d))⟩
  | perform {sys : System} {i : Nat} {call : Call} {op : Op}
      {k : Reply op → Program Outcomes}
      (hi : sys.threads[i]? = some (some (call, .call op k)))
      {r : Reply op} {w : World} (hact : World.Act i op sys.world r w) :
      Step d sys (.perform i call op)
        ⟨w, sys.threads.set i (some (call, k r))⟩
  | finish {sys : System} {i : Nat} {call : Call} {result : Outcomes}
      (hi : sys.threads[i]? = some (some (call, .ret result))) :
      Step d sys (.finish i call result)
        ⟨sys.world, sys.threads.set i none⟩
  | operator {sys : System} {w : World} (h : World.Operated sys.world w) :
      Step d sys .operator ⟨w, sys.threads⟩

/-- A run whose every step meets the condition at the system it is taken
from. -/
inductive Run (d : Dispatcher) (cond : System → Label → Prop) : System → System → Prop where
  | refl (sys : System) : Run d cond sys sys
  | tail {sys mid last : System} {l : Label} (hrun : Run d cond sys mid)
      (hcond : cond mid l) (hstep : Step d mid l last) :
      Run d cond sys last

/-
Webhook verification (op-webhook `signing.rs`): the signature header and
the check of it against a body and a secret.

Signing itself is the dispatcher's (`signedPayload`, `computeSignature`,
`buildSignatureHeader`), the HMAC being one of its fields. The header is a
list of characters. Subtraction and magnitude of signed values are checked:
where they overflow, the call panics.
-/

open Text

/-- The failure modes of verification: its own, and those of signing. -/
inductive VerifyError where
  | malformedSignature (text : String)
  | timestampOutOfTolerance (deltaSecs : I64)
  | signatureMismatch
  | signing (e : Error)
deriving DecidableEq

-- ==== parsing

/-- `str::split_once` at a character. -/
def splitOnce (sep : Char) : Text → Option (Text × Text)
  | [] => none
  | c :: s =>
    if c = sep then some ([], s)
    else (splitOnce sep s).map fun p => (c :: p.1, p.2)

/-- `Display` of the error of `str::parse::<u64>`: digits are read from the
left, and the first that does not fit or is none ends it. -/
def parseIntError (s : Text) : String :=
  if s = [] then "cannot parse integer from empty string"
  else if 2 ^ 64 ≤ number ((withoutPlus s).takeWhile Char.isDigit) then
    "number too large to fit in target type"
  else "invalid digit found in string"

/-- The locals of the loop over the header's parts. -/
structure HeaderState where
  timestamp : Option UInt64
  sigs : List Text

def headerPart (s : HeaderState) (part : Text) : Except VerifyError HeaderState :=
  let part := trim part
  match splitOnce '=' part with
  | none =>
    .error (.malformedSignature ("part lacks '=': " ++ String.ofList part))
  | some (key, value) =>
    if key = ['t'] then
      match parseUnsigned (2 ^ 64) value with
      | some ts => .ok { s with timestamp := some (UInt64.ofNat ts) }
      | none =>
        .error (.malformedSignature ("bad timestamp: " ++ parseIntError value))
    else if key = ['v', '1'] then .ok { s with sigs := s.sigs ++ [value] }
    else .ok s

def parseSignatureHeader (header : Text) : Except VerifyError (UInt64 × List Text) := do
  let s ← (header.splitOn ',').foldlM headerPart
    { timestamp := none, sigs := [] }
  match s.timestamp with
  | none => .error (.malformedSignature "missing t=")
  | some timestamp =>
    if s.sigs = [] then .error (.malformedSignature "no v1= signatures")
    else .ok (timestamp, s.sigs)

-- ==== verification

/-- The operands are `x as i64`; overflow panics. -/
def subOrPanic {ε : Type} (a b : I64) : Except (Fault ε) I64 :=
  match a.checkedSub b with
  | some r => .ok r
  | none => .error .panic

/-- `i64::abs`; overflow panics. -/
def absOrPanic {ε : Type} (a : I64) : Except (Fault ε) I64 :=
  match a.checkedAbs with
  | some r => .ok r
  | none => .error .panic

def verifySignature (d : Dispatcher) (secret body : List UInt8)
    (header : Text) (nowUnixSecs : UInt64) (toleranceSecs : I64) :
    Except (Fault VerifyError) Unit := do
  let (ts, sigs) ← (parseSignatureHeader header).mapError Fault.err
  let delta ← subOrPanic (.wrap nowUnixSecs.toNat) (.wrap ts.toNat)
  let away ← absOrPanic delta
  if toleranceSecs.val < away.val then
    .error (.err (.timestampOutOfTolerance delta))
  else
    let expected ← (computeSignature d secret ts body).mapError
      fun e => Fault.err (.signing e)
    if sigs.any fun sig => utf8 sig == utf8 expected.toList then .ok ()
    else .error (.err .signatureMismatch)

end OpenStandards.OpWebhook

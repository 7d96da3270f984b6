/-
The wire protocol and the tier that is a remote node: `lib.rs` and `rpc.rs`.

Joules and confidences are the bits of their floats, as they go over the
wire, and the float operations on them are the argument `f`. A transport and
a history layer have a state of their own. The text of a failed UTF-8 check
is left out, the version check that nothing makes is too, and request
numbers wrap around.
-/
import OpenStandards.JouleclawHistory.Disk

namespace OpenStandards.JouleclawWire

open Lib JouleclawCascade

def magic : List UInt8 := bytesOf "JOULEW01"

def signatureLen : Nat := 64

-- ==== messages

structure WireRequest where
  queryKey : EntryKey
  maxJoules : UInt64
  requestId : UInt64
deriving DecidableEq

structure WireQuote where
  queryKey : EntryKey
  requestId : UInt64
  joulesCharged : UInt64
  confidence : UInt32
  originTier : TierId
  expirySecs : UInt64
deriving DecidableEq

/-- The fields of a quote, and the answer. -/
structure WireResponse extends WireQuote where
  output : AnswerOutput
deriving DecidableEq

inductive ErrorCode where
  | notFound
  | budgetExceeded
  | malformed
  | other
deriving DecidableEq

def ErrorCode.toNat : ErrorCode → Nat
  | .notFound => 0
  | .budgetExceeded => 1
  | .malformed => 2
  | .other => 3

def ErrorCode.fromU8 : Nat → Option ErrorCode
  | 0 => some .notFound
  | 1 => some .budgetExceeded
  | 2 => some .malformed
  | 3 => some .other
  | _ => none

structure WireError where
  requestId : UInt64
  code : ErrorCode
  message : Text
deriving DecidableEq

inductive WireMessage where
  | request (r : WireRequest)
  | quote (q : WireQuote)
  | response (r : WireResponse)
  | error (e : WireError)
deriving DecidableEq

inductive DecodeError where
  | truncated (needed size : Nat)
  | badMagic
  | unknownKind (b : Nat)
  | badTier (family data : Nat)
  | badOutput (b : Nat)
  | badString
  | badErrorCode (b : Nat)
deriving DecidableEq

def DecodeError.text : DecodeError → String
  | .truncated needed size => s!"truncated: needed {needed} bytes, have {size}"
  | .badMagic => "bad magic — not a Joule wire message"
  | .unknownKind b => s!"unknown message kind {b}"
  | .badTier family data => s!"bad tier family={family} data={data}"
  | .badOutput b => s!"bad output kind {b}"
  | .badString => "non-utf8 string: "
  | .badErrorCode b => s!"bad error code {b}"

abbrev Result (α : Type) := Except (Fault DecodeError) α

-- ==== encoding

def encodeTier (tier : TierId) : Nat × Nat := JouleclawHistory.encodeTier tier

def tierBytes (tier : TierId) : List UInt8 :=
  beBytes 1 (encodeTier tier).1 ++ beBytes 4 (encodeTier tier).2

/-- Bytes behind their length, which is cut to 32 bits. -/
def prefixed (bytes : List UInt8) : List UInt8 :=
  beBytes 4 bytes.length ++ bytes

def refusalPayload : RefusalReason → List UInt8
  | .inapplicable => beBytes 1 0
  | .lowConfidence c => beBytes 1 1 ++ beBytes 4 c.toNat
  | .tierSpecific s => beBytes 1 2 ++ prefixed (Text.utf8 s)

def outputParts : AnswerOutput → Nat × List UInt8
  | .text s => (0, Text.utf8 s)
  | .structured b => (1, b)
  | .refused reason => (2, refusalPayload reason)

def encodeOutput (output : AnswerOutput) : List UInt8 :=
  beBytes 1 (outputParts output).1 ++ prefixed (outputParts output).2

def encodeRequest (r : WireRequest) : List UInt8 :=
  r.queryKey.toList ++ (beBytes 8 r.maxJoules.toNat ++ beBytes 8 r.requestId.toNat)

def encodeQuote (q : WireQuote) : List UInt8 :=
  q.queryKey.toList ++ (beBytes 8 q.requestId.toNat
    ++ (beBytes 8 q.joulesCharged.toNat
    ++ (beBytes 4 q.confidence.toNat
    ++ (tierBytes q.originTier
    ++ beBytes 8 q.expirySecs.toNat))))

def encodeError (e : WireError) : List UInt8 :=
  beBytes 8 e.requestId.toNat ++ (beBytes 1 e.code.toNat ++ prefixed (Text.utf8 e.message))

def encodePayload : WireMessage → Nat × List UInt8
  | .request r => (0, encodeRequest r)
  | .quote q => (1, encodeQuote q)
  | .response r => (2, encodeQuote r.toWireQuote ++ encodeOutput r.output)
  | .error e => (3, encodeError e)

/-- The signature is a placeholder of zeros. -/
def encode (m : WireMessage) : List UInt8 :=
  magic ++ (beBytes 1 (encodePayload m).1
    ++ (beBytes 8 (encodePayload m).2.length
    ++ ((encodePayload m).2 ++ List.replicate signatureLen 0)))

-- ==== decoding

def truncated (pos n size : Nat) : DecodeError := .truncated (pos + n) size

def readN (bytes : List UInt8) (n pos : Nat) : Result (List UInt8 × Nat) :=
  takeAt truncated bytes n pos

def readU8 (bytes : List UInt8) (pos : Nat) : Result (Nat × Nat) :=
  beAt truncated bytes 1 pos

def readU32 (bytes : List UInt8) (pos : Nat) : Result (Nat × Nat) :=
  beAt truncated bytes 4 pos

def readU64 (bytes : List UInt8) (pos : Nat) : Result (Nat × Nat) :=
  beAt truncated bytes 8 pos

def fromUtf8 (bytes : List UInt8) : Result Text :=
  match Text.fromUtf8? bytes with
  | some s => .ok s
  | none => .error (.err .badString)

def readKey (bytes : List UInt8) (pos : Nat) : Result (EntryKey × Nat) := do
  let (key, pos) ← readN bytes 32 pos
  let key ← copyFromSlice 32 key
  .ok (key, pos)

def decodeRequest (bytes : List UInt8) (pos : Nat) : Result (WireRequest × Nat) := do
  let (queryKey, pos) ← readKey bytes pos
  let (maxJoules, pos) ← readU64 bytes pos
  let (requestId, pos) ← readU64 bytes pos
  .ok
    ({ queryKey := queryKey, maxJoules := .ofNat maxJoules
       requestId := .ofNat requestId }, pos)

def decodeTier (family data : Nat) : Result TierId :=
  match family with
  | 0 => .ok .l0
  | 1 =>
    match data with
    | 0 => .ok (.l1 .cacheLookup)
    | 1 => .ok (.l1 .tokenize)
    | 2 => .ok (.l1 .detokenize)
    | 3 => .ok (.l1 .regex)
    | 4 => .ok (.l1 .parse)
    | 5 => .ok (.l1 .templateFill)
    | 6 => .ok (.l1 .retrieve)
    | 7 => .ok (.l1 .execute)
    | _ => .error (.err (.badTier family data))
  | 2 => .ok (.l2 (.ofNat data))
  | 3 => .ok (.l3 (.ofNat data))
  | 4 => .ok (.l4 (.ofNat data))
  | _ => .error (.err (.badTier family data))

def readTier (bytes : List UInt8) (pos : Nat) : Result (TierId × Nat) := do
  let (family, pos) ← readU8 bytes pos
  let (data, pos) ← readU32 bytes pos
  let tier ← decodeTier family data
  .ok (tier, pos)

def decodeQuote (bytes : List UInt8) (pos : Nat) : Result (WireQuote × Nat) := do
  let (queryKey, pos) ← readKey bytes pos
  let (requestId, pos) ← readU64 bytes pos
  let (joulesCharged, pos) ← readU64 bytes pos
  let (confidence, pos) ← readU32 bytes pos
  let (originTier, pos) ← readTier bytes pos
  let (expirySecs, pos) ← readU64 bytes pos
  .ok
    ({ queryKey := queryKey, requestId := .ofNat requestId
       joulesCharged := .ofNat joulesCharged
       confidence := .ofNat confidence, originTier := originTier
       expirySecs := .ofNat expirySecs }, pos)

def readPrefixed (bytes : List UInt8) (pos : Nat) : Result (List UInt8 × Nat) := do
  let (n, pos) ← readU32 bytes pos
  readN bytes n pos

/-- What stands behind a refusal is not looked at. -/
def readRefusal (bytes : List UInt8) (pos : Nat) : Result (RefusalReason × Nat) := do
  let (kind, pos) ← readU8 bytes pos
  match kind with
  | 0 => .ok (.inapplicable, pos)
  | 1 =>
    let (c, pos) ← readU32 bytes pos
    .ok (.lowConfidence (.ofNat c), pos)
  | 2 =>
    let (b, pos) ← readPrefixed bytes pos
    let s ← fromUtf8 b
    .ok (.tierSpecific s, pos)
  | k => .error (.err (.badOutput k))

def outputOf (kind : Nat) (payload : List UInt8) : Result AnswerOutput :=
  match kind with
  | 0 => (fromUtf8 payload).map .text
  | 1 => .ok (.structured payload)
  | 2 => (readRefusal payload 0).map fun r => .refused r.1
  | k => .error (.err (.badOutput k))

def decodeOutput (bytes : List UInt8) (pos : Nat) : Result (AnswerOutput × Nat) := do
  let (kind, pos) ← readU8 bytes pos
  let (payload, pos) ← readPrefixed bytes pos
  let output ← outputOf kind payload
  .ok (output, pos)

def decodeResponse (bytes : List UInt8) (pos : Nat) : Result (WireResponse × Nat) := do
  let (quote, pos) ← decodeQuote bytes pos
  let (output, pos) ← decodeOutput bytes pos
  .ok ({ toWireQuote := quote, output := output }, pos)

def decodeError (bytes : List UInt8) (pos : Nat) : Result (WireError × Nat) := do
  let (requestId, pos) ← readU64 bytes pos
  let (b, pos) ← readU8 bytes pos
  match ErrorCode.fromU8 b with
  | none => .error (.err (.badErrorCode b))
  | some code =>
    let (message, pos) ← readPrefixed bytes pos
    let message ← fromUtf8 message
    .ok
      ({ requestId := .ofNat requestId, code := code
         message := message }, pos)

/-- What stands behind the fields of a payload is not looked at. -/
def decodePayload (kind : Nat) (payload : List UInt8) : Result WireMessage :=
  match kind with
  | 0 => (decodeRequest payload 0).map fun r => .request r.1
  | 1 => (decodeQuote payload 0).map fun r => .quote r.1
  | 2 => (decodeResponse payload 0).map fun r => .response r.1
  | 3 => (decodeError payload 0).map fun r => .error r.1
  | k => .error (.err (.unknownKind k))

def decode (bytes : List UInt8) : Result WireMessage := do
  let (magic', pos) ← readN bytes 8 0
  if magic' ≠ magic then .error (.err .badMagic)
  else do
    let (kind, pos) ← readU8 bytes pos
    let (n, pos) ← readU64 bytes pos
    let (payload, pos) ← readN bytes n pos
    let _ ← readN bytes signatureLen pos
    decodePayload kind payload

-- ==== remote node

abbrev Lookup := Except Text (Option (HistoryAnswer UInt64 UInt32))

def reply (r : WireRequest) : Lookup → WireMessage
  | .ok (some a) =>
    .response
      { queryKey := r.queryKey, requestId := r.requestId
        joulesCharged := 0x3e7ad7f29abcaf48, confidence := a.confidence
        originTier := a.originatingTier, expirySecs := 0
        output := a.output }
  | .ok none =>
    .error
      { requestId := r.requestId, code := .notFound
        message := "key not in history".toList }
  | .error e =>
    .error { requestId := r.requestId, code := .other, message := e }

/-- A request that cannot be read is answered without a lookup. -/
def malformed (message : String) : WireMessage :=
  .error { requestId := 0, code := .malformed, message := message.toList }

def serveRequest {H : Type} (lookupExact : H → EntryKey → H × Lookup)
    (bytes : List UInt8) (history : H) : Result (H × List UInt8) :=
  match decode bytes with
  | .ok (.request r) =>
    let (history, found) := lookupExact history r.queryKey
    .ok (history, encode (reply r found))
  | .ok _ => .ok (history, encode (malformed "expected Request"))
  | .error (.err e) => .ok (history, encode (malformed e.text))
  | .error .panic => .error .panic

/-- The operations on 64-bit floats, on their bits. -/
structure F64 where
  add : UInt64 → UInt64 → UInt64
  sub : UInt64 → UInt64 → UInt64
  mul : UInt64 → UInt64 → UInt64
  max : UInt64 → UInt64 → UInt64
  ofNat : Nat → UInt64

/-- `JouleBudget::remaining` before anything is spent. -/
def F64.remaining (f : F64) (budget : JouleBudget UInt64) : UInt64 :=
  f.max (f.sub budget.hardLimit 0) 0

/-- A transport ships bytes and brings bytes back, or fails. -/
structure RpcTier (T : Type) where
  transport : T
  roundTrip : T → List UInt8 → Result (T × Except Text (List UInt8))
  localOverheadJoules : UInt64
  perByteJoules : UInt64
  reportAs : Option TierId
  nextId : UInt64

namespace RpcTier

variable {T : Type}

def new (transport : T) (roundTrip : T → List UInt8 → Result (T × Except Text (List UInt8))) :
    RpcTier T :=
  { transport := transport, roundTrip := roundTrip,
    localOverheadJoules := 0x3eb0c6f7a0b5ed8d,
    perByteJoules := 0x3e112e0be826d695, reportAs := none, nextId := 1 }

def id (tier : RpcTier T) : TierId := tier.reportAs.getD .l0

def refusing (tier : RpcTier T) (reason : Text) (cost : UInt64)
    (trace : List (TraceEntry UInt64)) : Answer UInt64 UInt32 :=
  { output := .refused (.tierSpecific reason), tierUsed := tier.id,
    joulesSpent := cost, confidence := 0, trace := trace,
    verification := .resolved }

/-- What is made of the message that came back. -/
def answerOf (f : F64) (tier : RpcTier T) (requestId cost : UInt64) :
    Except DecodeError WireMessage → Answer UInt64 UInt32
  | .ok (.response r) =>
    if r.requestId ≠ requestId then
      let got := r.requestId
      let sent := s!"wire: request_id mismatch (sent {requestId}"
      tier.refusing s!"{sent}, got {got})".toList cost []
    else
      { output := r.output, tierUsed := tier.id,
        joulesSpent := f.add cost r.joulesCharged,
        confidence := r.confidence,
        trace :=
          [{ tier := r.originTier, outcome := .hit,
             joules := r.joulesCharged }],
        verification := .resolved }
  | .ok (.error e) =>
    tier.refusing ("wire error: ".toList ++ e.message) cost []
  | .ok _ => tier.refusing "wire: unexpected response kind".toList cost []
  | .error e =>
    tier.refusing ("wire decode: " ++ e.text).toList cost []

def tryAnswer (f : F64) (digest : List (List UInt8) → EntryKey)
    (tier : RpcTier T) (q : Query UInt64 UInt32) :
    Result (RpcTier T × Answer UInt64 UInt32) := do
  let requestId := tier.nextId
  let tier := { tier with nextId := tier.nextId + 1 }
  let request := encode (.request
    { queryKey := keyFor digest q, maxJoules := f.remaining q.budget
      requestId := requestId })
  let cost := f.add tier.localOverheadJoules
    (f.mul tier.perByteJoules (f.ofNat request.length))
  let (transport, came) ← tier.roundTrip tier.transport request
  let tier := { tier with transport := transport }
  match came with
  | .error e =>
    let reason := "transport: ".toList ++ e
    .ok (tier, tier.refusing reason cost
      [{ tier := tier.id, outcome := .refused (.tierSpecific reason),
         joules := cost }])
  | .ok bytes =>
    match decode bytes with
    | .error .panic => .error .panic
    | .error (.err e) =>
      .ok (tier, tier.answerOf f requestId cost (.error e))
    | .ok m => .ok (tier, tier.answerOf f requestId cost (.ok m))

end RpcTier

/-- The transport that hands the request to a server and its reply back. -/
def direct {H : Type} (lookupExact : H → EntryKey → H × Lookup)
    (history : H) (request : List UInt8) :
    Result (H × Except Text (List UInt8)) :=
  (serveRequest lookupExact request history).map fun (history, bytes) =>
    (history, .ok bytes)

end OpenStandards.JouleclawWire

/-
Key events and their self-addressing identifiers
(smart-byte-keri-witness `events.rs`, `error.rs`, and the receipts of
`witness.rs`).

What comes from outside this repository is gathered in `Primitives`: the
CBOR encodings, BLAKE3, base32 and Ed25519. An identifier of an event is
the digest of the event with its own identifier field blanked, and with
the controller field blanked too where that one is derived from it.
-/
import OpenStandards.Lib.Fallible
import OpenStandards.SmartByte.Ownership

namespace OpenStandards.Keri

open Lib SmartByte

-- ==== identifiers

/-- The identifier of a controller. -/
structure ControllerAid where
  text : String
deriving DecidableEq

/-- The identifier of a witness. -/
structure WitnessAid where
  text : String
deriving DecidableEq

/-- The identifier of a watcher. -/
structure WatcherAid where
  text : String

/-- A public key: an algorithm byte and the raw key. -/
structure PublicKey where
  bytes : List UInt8
deriving DecidableEq

namespace PublicKey

def new (algorithm : UInt8) (keyBytes : List UInt8) : PublicKey :=
  ⟨algorithm :: keyBytes⟩

def algorithm (k : PublicKey) : Option UInt8 := k.bytes.head?

def keyBytes (k : PublicKey) : List UInt8 := k.bytes.tail

end PublicKey

/-- A number of signatures or receipts. -/
structure Threshold where
  val : UInt32
deriving DecidableEq

/-- An anchor to off-log content. -/
structure Anchor where
  d : Said
  s : Option UInt64
  kind : Option String
deriving DecidableEq

/-- Inception-time configuration traits. -/
inductive ConfigTrait where
  | noRotate
  | establishOnly
  | custom (text : String)
deriving DecidableEq

/-- The event-type discriminator. -/
inductive EventType where
  | inception
  | rotation
  | interaction
  | recovery
  | delegation
deriving DecidableEq

-- ==== errors

/-- The failure modes the modelled functions use. -/
inductive KeriError where
  | saidMismatch (asserted computed : Said)
  | sequenceError (expected got : UInt64)
  | priorMismatch (expected got : Said)
  | controllerAidMismatch (expected got : String)
  | preRotationMismatch (index : Nat)
  | thresholdNotMet (have_ need : UInt32)
  | witnessThresholdNotMet (have_ need : UInt32)
  | malformedKey (msg : String)
  | badSignature
  | strictSpecRejectsRec
  | malformed (msg : String)
deriving DecidableEq

-- ==== events

/-- The first event of a log. -/
structure InceptionEvent where
  v : String
  t : EventType
  d : Said
  i : ControllerAid
  s : UInt64
  kt : Threshold
  k : List PublicKey
  nt : Threshold
  n : List Said
  c : List ConfigTrait
  b : List WitnessAid
  bt : Threshold
  a : List Anchor
deriving DecidableEq

/-- Reveals the committed keys and commits the next ones. -/
structure RotationEvent where
  v : String
  t : EventType
  d : Said
  i : ControllerAid
  s : UInt64
  p : Said
  kt : Threshold
  k : List PublicKey
  nt : Threshold
  n : List Said
  br : List WitnessAid
  ba : List WitnessAid
  bt : Threshold
  a : List Anchor
deriving DecidableEq

/-- Anchors off-log content. -/
structure InteractionEvent where
  v : String
  t : EventType
  d : Said
  i : ControllerAid
  s : UInt64
  p : Said
  a : List Anchor
deriving DecidableEq

/-- Resets the keys without regard to the commitment. -/
structure RecoveryEvent where
  v : String
  t : EventType
  d : Said
  i : ControllerAid
  s : UInt64
  p : Said
  kt : Threshold
  k : List PublicKey
  nt : Threshold
  n : List Said
  a : List Anchor
deriving DecidableEq

/-- Establishes a controller under a delegating parent. -/
structure DelegationEvent where
  v : String
  t : EventType
  d : Said
  i : ControllerAid
  s : UInt64
  p : Said
  di : ControllerAid
  kt : Threshold
  k : List PublicKey
  nt : Threshold
  n : List Said
deriving DecidableEq

/-- An event of a key-event log. -/
inductive KeyEvent where
  | inception (e : InceptionEvent)
  | rotation (e : RotationEvent)
  | interaction (e : InteractionEvent)
  | recovery (e : RecoveryEvent)
  | delegation (e : DelegationEvent)
deriving DecidableEq

namespace KeyEvent

def said : KeyEvent → Said
  | .inception e => e.d
  | .rotation e => e.d
  | .interaction e => e.d
  | .recovery e => e.d
  | .delegation e => e.d

def controller : KeyEvent → ControllerAid
  | .inception e => e.i
  | .rotation e => e.i
  | .interaction e => e.i
  | .recovery e => e.i
  | .delegation e => e.i

def sequence : KeyEvent → UInt64
  | .inception e => e.s
  | .rotation e => e.s
  | .interaction e => e.s
  | .recovery e => e.s
  | .delegation e => e.s

def prior : KeyEvent → Option Said
  | .inception _ => none
  | .rotation e => some e.p
  | .interaction e => some e.p
  | .recovery e => some e.p
  | .delegation e => if e.s = 0 then none else some e.p

def eventType : KeyEvent → EventType
  | .inception _ => .inception
  | .rotation _ => .rotation
  | .interaction _ => .interaction
  | .recovery _ => .recovery
  | .delegation _ => .delegation

/-- Write the identifier field. -/
def withSaid (said : Said) : KeyEvent → KeyEvent
  | .inception e => .inception { e with d := said }
  | .rotation e => .rotation { e with d := said }
  | .interaction e => .interaction { e with d := said }
  | .recovery e => .recovery { e with d := said }
  | .delegation e => .delegation { e with d := said }

def blanked : KeyEvent → KeyEvent
  | .inception e => .inception { e with d := ⟨0⟩, i := ⟨""⟩ }
  | .rotation e => .rotation { e with d := ⟨0⟩ }
  | .interaction e => .interaction { e with d := ⟨0⟩ }
  | .recovery e => .recovery { e with d := ⟨0⟩ }
  | .delegation e =>
    if e.s = 0 then .delegation { e with d := ⟨0⟩, i := ⟨""⟩ }
    else .delegation { e with d := ⟨0⟩ }

end KeyEvent

-- ==== primitives

abbrev SigningKey := BitVec 256

/-- What the crate takes from outside. -/
structure Primitives where
  /-- `serde_cbor::to_vec` of an event -/
  cborEvent : KeyEvent → List UInt8
  /-- `serde_cbor::to_vec` of the per-key map around a key -/
  cborKey : PublicKey → List UInt8
  blake3 : List UInt8 → Blake3Hash
  /-- base32 of a digest, upper case, no padding -/
  base32 : Said → String
  /-- why 32 bytes are no Ed25519 verifying key, nothing where they are -/
  keyError : List UInt8 → Option String
  /-- the verifying key of a signing key -/
  verifyingKey : SigningKey → List UInt8
  /-- Ed25519 signing of a message -/
  sign : SigningKey → List UInt8 → List UInt8
  /-- Ed25519 verification of a signature over a message -/
  verifies : List UInt8 → List UInt8 → List UInt8 → Bool

namespace Primitives

variable (prims : Primitives)

def saidHash (bytes : List UInt8) : Said := ⟨prims.blake3 bytes⟩

def perKeySaid (key : PublicKey) : Said :=
  prims.saidHash (prims.cborKey key)

def aidOfInception (said : Said) : ControllerAid :=
  ⟨"B" ++ prims.base32 said⟩

/-- The message signatures are made over. -/
def toCbor (event : KeyEvent) : List UInt8 := prims.cborEvent event

def recomputeSaid (event : KeyEvent) : Said :=
  prims.saidHash (prims.cborEvent event.blanked)

/-- Check an event's identifier against its body. -/
def validateSaid (event : KeyEvent) : Except KeriError Unit :=
  refuse (prims.recomputeSaid event ≠ event.said)
    (.saidMismatch event.said (prims.recomputeSaid event))

def finalizeInception (event : InceptionEvent) : InceptionEvent :=
  let said := prims.saidHash
    (prims.cborEvent (.inception { event with d := ⟨0⟩, i := ⟨""⟩ }))
  { event with d := said, i := prims.aidOfInception said }

/-- Give an event its identifier; the controller field stays. -/
def finalizeEvent (event : KeyEvent) : KeyEvent :=
  event.withSaid (prims.saidHash (prims.cborEvent (event.withSaid ⟨0⟩)))

end Primitives

/-- What Ed25519 promises of honest keys and signatures. -/
structure Primitives.Ed25519 (prims : Primitives) : Prop where
  key_length : ∀ sk, (prims.verifyingKey sk).length = 32
  key_valid : ∀ sk, prims.keyError (prims.verifyingKey sk) = none
  signature_length : ∀ sk msg, (prims.sign sk msg).length = 64
  verifies_sign : ∀ sk msg,
    prims.verifies (prims.verifyingKey sk) msg (prims.sign sk msg) = true

def polynomialDigest (bytes : List UInt8) : Blake3Hash :=
  BitVec.ofNat 256 (bytes.foldl (fun h b => 257 * h + b.toNat + 1) 0)

/-- Enough of an event to tell the events of a small log apart. -/
def KeyEvent.summary : KeyEvent → List UInt8
  | .inception e => [0, e.s.toUInt8] ++ e.k.flatMap PublicKey.bytes
  | .rotation e => [1, e.s.toUInt8] ++ e.k.flatMap PublicKey.bytes
  | .interaction e => [2, e.s.toUInt8, UInt8.ofNat e.a.length]
  | .recovery e => [3, e.s.toUInt8] ++ e.k.flatMap PublicKey.bytes
  | .delegation e => [4, e.s.toUInt8] ++ e.k.flatMap PublicKey.bytes

/-- A small instance of the primitives, to run the model on: a signature
repeats the verifying key and the digest of the message. -/
def Primitives.sample : Primitives :=
  { cborEvent := KeyEvent.summary
    cborKey := PublicKey.bytes
    blake3 := polynomialDigest
    base32 := fun _ => "SAMPLE"
    keyError := fun _ => none
    verifyingKey := hashBytes
    sign := fun sk msg => hashBytes sk ++ hashBytes (polynomialDigest msg)
    verifies := fun pk msg sig => sig = pk ++ hashBytes (polynomialDigest msg) }

theorem Primitives.sample_ed25519 : Primitives.sample.Ed25519 where
  key_length := fun _ => length_hashBytes _
  key_valid := fun _ => rfl
  signature_length := fun sk msg => by
    show (hashBytes sk ++ hashBytes (polynomialDigest msg)).length = 64
    rw [List.length_append, length_hashBytes, length_hashBytes]
  verifies_sign := fun sk msg => decide_eq_true rfl

-- ==== receipts

/-- A witness's receipt for an event. -/
structure WitnessReceipt where
  witness : WitnessAid
  controller : ControllerAid
  sequence : UInt64
  signedEventSaid : Said
  timestamp : Int
  witnessPubkey : List UInt8
  signature : List UInt8
deriving DecidableEq

def WitnessReceipt.verifySignature (prims : Primitives)
    (r : WitnessReceipt) : Except KeriError Unit := do
  refuse (r.witnessPubkey.length ≠ 32) (.malformedKey ("witness pubkey must be 32 bytes, got "
      ++ toString r.witnessPubkey.length))
  match prims.keyError r.witnessPubkey with
  | some msg => .error (.malformedKey msg)
  | none => do
    refuse (r.signature.length ≠ 64)
      (.malformedKey ("witness signature must be 64 bytes, got "
        ++ toString r.signature.length))
    refuse (¬ prims.verifies r.witnessPubkey (hashBytes r.signedEventSaid.digest) r.signature)
      .badSignature

/-
The controller: emission of key events (smart-byte-keri-witness
`controller.rs`).

A key pair is determined by its signing key, as `KeyPair::from_signing`
builds it. The controller keeps the current and the pre-rotated key
pairs; every operation appends one finalized event to its log, and after
an operation `current_keys` are the keys the event is to be signed with.
-/

def versionString : String := "SBYTE10JSON"

/-- An Ed25519 key pair. -/
structure KeyPair where
  signing : SigningKey
deriving DecidableEq

/-- The controller's state. -/
structure Controller where
  aid : ControllerAid
  currentKeys : List KeyPair
  nextKeys : List KeyPair
  threshold : Threshold
  nextThreshold : Threshold
  witnesses : Finset WitnessAid
  witnessThreshold : Threshold
  keyEventLog : List KeyEvent
  delegatedBy : Option ControllerAid
deriving DecidableEq

section

variable (prims : Primitives)

def KeyPair.publicKey (kp : KeyPair) : PublicKey :=
  PublicKey.new 0x01 (prims.verifyingKey kp.signing)

def commitmentsTo (keys : List KeyPair) : List Said :=
  keys.map fun kp => prims.perKeySaid (kp.publicKey prims)

namespace Controller

def incept (initialKeys nextKeys : List KeyPair)
    (threshold nextThreshold : Threshold) (witnesses : List WitnessAid)
    (witnessThreshold : Threshold) :
    Except KeriError (Controller × InceptionEvent) := do
  refuse (initialKeys = []) (.malformed "inception requires >= 1 key")
  refuse (initialKeys.length < threshold.val.toNat)
    (.malformed "threshold exceeds initial key count")
  let raw : InceptionEvent :=
    { v := versionString, t := .inception, d := ⟨0⟩, i := ⟨""⟩, s := 0
      kt := threshold, k := initialKeys.map (KeyPair.publicKey prims)
      nt := nextThreshold, n := commitmentsTo prims nextKeys, c := []
      b := witnesses, bt := witnessThreshold, a := [] }
  let said := prims.saidHash (prims.cborEvent (.inception raw))
  let aid := prims.aidOfInception said
  let finalized := { raw with d := said, i := aid }
  return ({ aid, currentKeys := initialKeys, nextKeys, threshold
            nextThreshold, witnesses := witnesses.toFinset
            witnessThreshold, keyEventLog := [.inception finalized]
            delegatedBy := none },
          finalized)

/-- The event the next one links to. -/
def prior (c : Controller) (what : String) : Except KeriError KeyEvent :=
  match c.keyEventLog.getLast? with
  | none => .error (.malformed ("cannot " ++ what ++ " empty log"))
  | some event => .ok event

def rotate (c : Controller) (newNextKeys : List KeyPair)
    (newNextThreshold : Threshold) (addWitnesses removeWitnesses : List WitnessAid)
    (newWitnessThreshold : Threshold) :
    Except KeriError (Controller × KeyEvent) := do
  let prior ← c.prior "rotate"
  let event : RotationEvent :=
    { v := versionString, t := .rotation, d := ⟨0⟩, i := c.aid
      s := prior.sequence + 1, p := prior.said, kt := c.nextThreshold
      k := c.nextKeys.map (KeyPair.publicKey prims), nt := newNextThreshold
      n := commitmentsTo prims newNextKeys, br := removeWitnesses
      ba := addWitnesses, bt := newWitnessThreshold, a := [] }
  let finalized := prims.finalizeEvent (.rotation event)
  return ({ c with
    witnesses := (c.witnesses \ removeWitnesses.toFinset) ∪ addWitnesses.toFinset
    witnessThreshold := newWitnessThreshold
    currentKeys := c.nextKeys, nextKeys := newNextKeys
    threshold := c.nextThreshold, nextThreshold := newNextThreshold
    keyEventLog := c.keyEventLog ++ [finalized] }, finalized)

def interact (c : Controller) (anchors : List Anchor) :
    Except KeriError (Controller × KeyEvent) := do
  let prior ← c.prior "interact on"
  let event : InteractionEvent :=
    { v := versionString, t := .interaction, d := ⟨0⟩, i := c.aid
      s := prior.sequence + 1, p := prior.said, a := anchors }
  let finalized := prims.finalizeEvent (.interaction event)
  return ({ c with keyEventLog := c.keyEventLog ++ [finalized] }, finalized)

def recover (c : Controller) (newKeys newNextKeys : List KeyPair)
    (newThreshold newNextThreshold : Threshold) (anchors : List Anchor) :
    Except KeriError (Controller × KeyEvent) := do
  let prior ← c.prior "recover on"
  let event : RecoveryEvent :=
    { v := versionString, t := .recovery, d := ⟨0⟩, i := c.aid
      s := prior.sequence + 1, p := prior.said, kt := newThreshold
      k := newKeys.map (KeyPair.publicKey prims), nt := newNextThreshold
      n := commitmentsTo prims newNextKeys, a := anchors }
  let finalized := prims.finalizeEvent (.recovery event)
  return ({ c with
    currentKeys := newKeys, nextKeys := newNextKeys
    threshold := newThreshold, nextThreshold := newNextThreshold
    keyEventLog := c.keyEventLog ++ [finalized] }, finalized)

def signEvent (c : Controller) (event : KeyEvent) : List (UInt32 × List UInt8) :=
  let body := prims.toCbor event
  c.currentKeys.zipIdx.map fun kp =>
    (UInt32.ofNat kp.2, prims.sign kp.1.signing body)

end Controller

-- ==== runs

/-- An operation on a controller. -/
inductive ControllerOp where
  | rotate (newNextKeys : List KeyPair) (newNextThreshold : Threshold)
      (addWitnesses removeWitnesses : List WitnessAid)
      (newWitnessThreshold : Threshold)
  | interact (anchors : List Anchor)
  | recover (newKeys newNextKeys : List KeyPair)
      (newThreshold newNextThreshold : Threshold) (anchors : List Anchor)

/-- Run an operation. -/
def Controller.perform (c : Controller) :
    ControllerOp → Except KeriError (Controller × KeyEvent)
  | .rotate newNextKeys newNextThreshold addWitnesses removeWitnesses
      newWitnessThreshold =>
      c.rotate prims newNextKeys newNextThreshold addWitnesses
        removeWitnesses newWitnessThreshold
  | .interact anchors => c.interact prims anchors
  | .recover newKeys newNextKeys newThreshold newNextThreshold anchors =>
    c.recover prims newKeys newNextKeys newThreshold newNextThreshold anchors

/-- An event and the signatures made right after its emission. -/
structure SignedEvent where
  event : KeyEvent
  signatures : List (UInt32 × List UInt8)

structure Session where
  controller : Controller
  emitted : List SignedEvent

/-- Perform an operation and sign what it emits; a failed one emits
nothing. -/
def Session.step (s : Session) (op : ControllerOp) : Session :=
  match s.controller.perform prims op with
  | .error _ => s
  | .ok (controller, event) =>
    { controller
      emitted := s.emitted ++ [⟨event, controller.signEvent prims event⟩] }

def Session.start (controller : Controller) (icp : InceptionEvent) : Session :=
  { controller
    emitted := [⟨.inception icp, controller.signEvent prims (.inception icp)⟩] }

end

end OpenStandards.Keri

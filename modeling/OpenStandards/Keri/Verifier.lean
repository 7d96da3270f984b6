/-
Replay verification of a key-event log (smart-byte-keri-witness
`verifier.rs`).

The verifier keeps the keys in force, their threshold, the committed
next keys and the witness threshold, and runs over the log once. The arms
of the event kinds are kept apart here as they are in the source.
`signatures` and `receipts` are hash tables; only the closing search for
forked receipts walks one, in an order that is an argument.
-/
import OpenStandards.Keri.Events
import OpenStandards.Lib.FactLog
import OpenStandards.Lib.Table

namespace OpenStandards.Keri

open Lib SmartByte

/-- Two receipted identifiers at one sequence number. -/
structure DuplicityEvidence where
  sequence : UInt64
  fork : Said × Said

/-- The outcome of a verification. -/
structure VerificationReport where
  currentKeys : List PublicKey
  currentThreshold : Threshold
  lastSequence : UInt64
  witnessQuorumMet : Bool
  recoveryCount : UInt32
  duplicity : List DuplicityEvidence

/-- The verifier's settings. -/
structure LogVerifier where
  strict : Bool := false
  requireWitnessQuorum : Bool := false

/-- Signatures by event: key index and signature bytes. -/
abbrev Signatures := Table Said (List (UInt32 × List UInt8))

abbrev Receipts := Table Said (List WitnessReceipt)

/-- What the verifier carries from event to event. -/
structure Replay where
  currentKeys : List PublicKey
  currentThreshold : Threshold
  nextKeysCommitted : List Said
  nextThreshold : Threshold
  witnessThreshold : Threshold
  lastSaid : Said
  lastSequence : UInt64
  recoveryCount : UInt32

section

variable (prims : Primitives)

-- ==== signatures

/-- The signature is valid under the key; other algorithms and malformed
material are passed over. -/
def signatureValid (body : List UInt8) (pk : PublicKey) (sig : List UInt8) : Bool :=
  pk.algorithm = some 0x01 ∧ pk.keyBytes.length = 32
    ∧ prims.keyError pk.keyBytes = none ∧ sig.length = 64
    ∧ prims.verifies pk.keyBytes body sig

def collectSignature (keys : List PublicKey) (body : List UInt8)
    (valid : Finset UInt32) (sig : UInt32 × List UInt8) :
    Except KeriError (Finset UInt32) :=
  match keys[sig.1.toNat]? with
  | none =>
    .error (.malformed ("signature references unknown key index " ++ toString sig.1.toNat))
  | some pk =>
    .ok (if signatureValid prims body pk sig.2 then insert sig.1 valid
      else valid)

def verifyEvent (event : KeyEvent) (keys : List PublicKey)
    (threshold : Threshold) (controllerAid : ControllerAid)
    (signatures : Signatures) : Except KeriError Unit := do
  prims.validateSaid event
  refuse (event.controller ≠ controllerAid)
    (.controllerAidMismatch controllerAid.text event.controller.text)
  match event with
  | .inception icp => refuse (icp.s ≠ 0) (.sequenceError 0 icp.s)
  | _ => .ok ()
  let sigs := (signatures.lookup event.said).getD []
  let body := prims.toCbor event
  let valid ← sigs.foldlM (collectSignature prims keys body) ∅
  refuse (UInt32.ofNat valid.card < threshold.val)
    (.thresholdNotMet (UInt32.ofNat valid.card) threshold.val)

-- ==== receipts

def countedWitnesses (event : KeyEvent) (rs : List WitnessReceipt) : Finset String :=
  ((rs.filter fun r => (r.verifySignature prims).isOk
    ∧ r.sequence = event.sequence).map fun r => r.witness.text).toFinset

def checkWitnessQuorum (cfg : LogVerifier) (event : KeyEvent)
    (bt : Threshold) (receipts : Receipts) : Except KeriError Unit :=
  if ¬ cfg.requireWitnessQuorum then .ok ()
  else
    let rs := (receipts.lookup event.said).getD []
    let distinctValid := countedWitnesses prims event rs
    refuse (UInt32.ofNat distinctValid.card < bt.val)
      (.witnessThresholdNotMet (UInt32.ofNat distinctValid.card) bt.val)

def receiptedBySequence (controllerAid : ControllerAid)
    (walk : List (Sigma fun _ : Said => List WitnessReceipt)) :
    Table UInt64 (List Said) :=
  walk.foldl
    (fun bySeq entry => entry.2.foldl
      (fun bySeq r =>
        if r.controller = controllerAid then
          let bucket := (bySeq.lookup r.sequence).getD []
          bySeq.insert r.sequence (if entry.1 ∈ bucket then bucket else bucket ++ [entry.1])
        else bySeq)
      bySeq)
    ∅

def duplicityIn (controllerAid : ControllerAid)
    (walk : List (Sigma fun _ : Said => List WitnessReceipt)) :
    List DuplicityEvidence :=
  let bySeq := receiptedBySequence controllerAid walk
  (bySeq.keys.mergeSort fun a b => a ≤ b).filterMap fun seq =>
    match bySeq.lookup seq with
    | some (a :: b :: _) => some { sequence := seq, fork := (a, b) }
    | _ => none

-- ==== replay

/-- The revealed keys are those committed to. -/
def checkRevealed : Nat → List PublicKey → List Said → Except KeriError Unit
  | i, key :: keys, said :: saids => do
    refuse (prims.perKeySaid key ≠ said) (.preRotationMismatch i)
    checkRevealed (i + 1) keys saids
  | _, _, _ => .ok ()

def replayStart : KeyEvent → Except KeriError Replay
  | .inception icp => do
    refuse (icp.s ≠ 0) (.sequenceError 0 icp.s)
    return { currentKeys := icp.k, currentThreshold := icp.kt
             nextKeysCommitted := icp.n, nextThreshold := icp.nt
             witnessThreshold := icp.bt, lastSaid := icp.d
             lastSequence := icp.s, recoveryCount := 0 }
  | .delegation dip =>
    if dip.s = 0 then
      .ok { currentKeys := dip.k, currentThreshold := dip.kt
            nextKeysCommitted := dip.n, nextThreshold := dip.nt
            witnessThreshold := ⟨0⟩, lastSaid := dip.d
            lastSequence := dip.s, recoveryCount := 0 }
    else .error (.malformed
      "log must begin with inception or delegated-inception")
  | _ => .error (.malformed
      "log must begin with inception or delegated-inception")

variable (cfg : LogVerifier) (controllerAid : ControllerAid)
  (signatures : Signatures) (receipts : Receipts)

def replayArm (st : Replay) : KeyEvent → Except KeriError Replay
  | .rotation rot => do
    refuse (rot.k.length ≠ st.nextKeysCommitted.length) (.preRotationMismatch 0)
    checkRevealed prims 0 rot.k st.nextKeysCommitted
    -- signed by the keys it reveals
    verifyEvent prims (.rotation rot) rot.k rot.kt controllerAid signatures
    checkWitnessQuorum prims cfg (.rotation rot) rot.bt receipts
    return { st with
      currentKeys := rot.k, currentThreshold := rot.kt
      nextKeysCommitted := rot.n, nextThreshold := rot.nt
      witnessThreshold := rot.bt }
  | .interaction ixn => do
    verifyEvent prims (.interaction ixn) st.currentKeys
      st.currentThreshold controllerAid signatures
    checkWitnessQuorum prims cfg (.interaction ixn) st.witnessThreshold receipts
    return st
  | .recovery rec => do
    refuse (cfg.strict = true) .strictSpecRejectsRec
    verifyEvent prims (.recovery rec) rec.k rec.kt controllerAid signatures
    checkWitnessQuorum prims cfg (.recovery rec) st.witnessThreshold receipts
    return { st with
      currentKeys := rec.k, currentThreshold := rec.kt
      nextKeysCommitted := rec.n, nextThreshold := rec.nt
      recoveryCount := st.recoveryCount + 1 }
  | .delegation dlg => do
    verifyEvent prims (.delegation dlg) dlg.k dlg.kt controllerAid signatures
    return { st with
      currentKeys := dlg.k, currentThreshold := dlg.kt
      nextKeysCommitted := dlg.n, nextThreshold := dlg.nt }
  | .inception _ =>
    .error (.malformed "inception event appeared after sequence 0")

/-- One event of a log after the ones before it. -/
def replayStep (st : Replay) (event : KeyEvent) : Except KeriError Replay := do
  prims.validateSaid event
  refuse (event.sequence ≠ st.lastSequence + 1)
    (.sequenceError (st.lastSequence + 1) event.sequence)
  refuse (event.prior ≠ some st.lastSaid) (.priorMismatch st.lastSaid (event.prior.getD ⟨0⟩))
  refuse (event.controller ≠ controllerAid)
    (.controllerAidMismatch controllerAid.text event.controller.text)
  let st' ← replayArm prims cfg controllerAid signatures receipts st event
  return { st' with lastSaid := event.said, lastSequence := event.sequence }

end

def LogVerifier.verify (prims : Primitives) (cfg : LogVerifier)
    (walk : RowOrder (Sigma fun _ : Said => List WitnessReceipt))
    (log : List KeyEvent) (signatures : Signatures) (receipts : Receipts) :
    Except KeriError VerificationReport :=
  match log with
  | [] => .error (.malformed "empty log")
  | first :: rest => do
    let start ← replayStart first
    let controllerAid := first.controller
    verifyEvent prims first start.currentKeys start.currentThreshold controllerAid signatures
    checkWitnessQuorum prims cfg first start.witnessThreshold receipts
    let st ← rest.foldlM
      (replayStep prims cfg controllerAid signatures receipts) start
    return { currentKeys := st.currentKeys
             currentThreshold := st.currentThreshold
             lastSequence := st.lastSequence
             -- a quorum that is not met ends the replay
             witnessQuorumMet := true
             recoveryCount := st.recoveryCount
             duplicity := duplicityIn controllerAid (walk.order receipts.entries) }

/-
The watcher: a third-party observer of key events
(smart-byte-keri-witness `watcher.rs`).

An observation is checked, then filed under its controller and sequence
number unless an event with the same identifier is there. The entry
guard of the concurrent map is held to the end of the call, so a run is a
sequence of calls. The clock readings of a call are arguments.
-/

/-- An observed event and what came with it. -/
structure ObservedEntry where
  event : KeyEvent
  receipts : List WitnessReceipt
  firstSeen : Int

abbrev ObservedLog := Table UInt64 (List ObservedEntry)

/-- The signal that a controller has forked. -/
structure DuplicityDetected where
  controller : ControllerAid
  sequence : UInt64
  fork : Said × Said
  detectedAt : Int

structure Watcher where
  aid : WatcherAid
  observedControllers : Table ControllerAid ObservedLog
  duplicityDetected : Finset ControllerAid
  signals : List DuplicityDetected

/-- One call of `observe`: the event, its receipts, and the readings of
the clock. -/
structure Observation where
  event : KeyEvent
  receipts : List WitnessReceipt
  firstSeen : Int
  detectedAt : Int

namespace Watcher

def new (aid : WatcherAid) : Watcher :=
  { aid, observedControllers := ∅, duplicityDetected := ∅, signals := [] }

variable (prims : Primitives)

def checkReceipt (event : KeyEvent) (r : WitnessReceipt) : Except KeriError Unit := do
  refuse (r.signedEventSaid ≠ event.said ∨ r.sequence ≠ event.sequence)
    (.malformed "receipt does not match supplied event")
  r.verifySignature prims

def checkObservation (o : Observation) : Except KeriError Unit := do
  prims.validateSaid o.event
  o.receipts.forM (checkReceipt prims o.event)

def bucket (w : Watcher) (controller : ControllerAid) (sequence : UInt64) : List ObservedEntry :=
  (((w.observedControllers.lookup controller).getD ∅).lookup sequence).getD []

def withBucket (w : Watcher) (controller : ControllerAid)
    (sequence : UInt64) (entries : List ObservedEntry) : Watcher :=
  let log := (w.observedControllers.lookup controller).getD ∅
  { w with
    observedControllers :=
      w.observedControllers.insert controller (log.insert sequence entries) }

/-- An observation is filed; a second event is duplicity. -/
def file (w : Watcher) (o : Observation) : Watcher :=
  let controller := o.event.controller
  let sequence := o.event.sequence
  let said := o.event.said
  let entries := w.bucket controller sequence
  if entries.any fun e => e.event.said = said then
    -- the maps' entries exist from here on
    w.withBucket controller sequence entries
  else
    let entries := entries ++ [⟨o.event, o.receipts, o.firstSeen⟩]
    let w := w.withBucket controller sequence entries
    match entries with
    | a :: b :: _ =>
      { w with
        duplicityDetected := insert controller w.duplicityDetected
        signals := w.signals ++
          [{ controller, sequence, fork := (a.event.said, b.event.said)
             detectedAt := o.detectedAt }] }
    | _ => w

def observe (w : Watcher) (o : Observation) : Except KeriError Watcher := do
  checkObservation prims o
  return w.file o

def call (w : Watcher) (o : Observation) : Watcher :=
  match w.observe prims o with
  | .ok w' => w'
  | .error _ => w

end Watcher

/-
The witness: a peer that counter-signs key events
(smart-byte-keri-witness `witness.rs`).

`receive` looks for a contradicting event under one guard of the
concurrent map and records the event under another, and nothing ties the
two together. So a call is two atomic steps here, `check` and `record`,
and between them the call is pending: other calls may take their steps
there. The clock reading of a call is an argument.
-/

/-- A call of `receive`. -/
structure Submission where
  event : KeyEvent
  controllerSignatures : List (UInt32 × List UInt8)
  controllerKeysInForce : List PublicKey
  threshold : Threshold

/-- Why `receive` refuses: what the other functions refuse for, or the
duplicity defence. -/
inductive ReceiveError where
  | keri (e : KeriError)
  | duplicityRefused (sequence : UInt64)
deriving DecidableEq

/-- A witness with the calls that are between their two steps and the
receipts it has handed out. -/
structure Witness where
  aid : WitnessAid
  key : KeyPair
  observedLogs : Table ControllerAid (List KeyEvent)
  pending : List KeyEvent
  issued : List WitnessReceipt

namespace Witness

def new (aid : WitnessAid) (key : KeyPair) : Witness :=
  { aid, key, observedLogs := ∅, pending := [], issued := [] }

variable (prims : Primitives)

/-- One signature of the controller: keys of another algorithm or length
are passed over, a key that is none ends the call. -/
def countSignature (keys : List PublicKey) (body : List UInt8)
    (valid : Finset UInt32) (sig : UInt32 × List UInt8) :
    Except KeriError (Finset UInt32) :=
  match keys[sig.1.toNat]? with
  | none =>
    .error (.malformed ("signature references unknown key index " ++ toString sig.1.toNat))
  | some pk =>
    if pk.algorithm ≠ some 0x01 then .ok valid
    else if pk.keyBytes.length ≠ 32 then .ok valid
    else
      match prims.keyError pk.keyBytes with
      | some msg => .error (.malformedKey msg)
      | none =>
        .ok (if prims.verifies pk.keyBytes body sig.2 then
          insert sig.1 valid else valid)

/-- The checks that read nothing of the witness. -/
def checkSubmission (s : Submission) : Except KeriError Unit := do
  prims.validateSaid s.event
  let body := prims.toCbor s.event
  let valid ← s.controllerSignatures.foldlM
    (countSignature prims s.controllerKeysInForce body) ∅
  refuse (UInt32.ofNat valid.card < s.threshold.val)
    (.thresholdNotMet (UInt32.ofNat valid.card) s.threshold.val)

def logOf (w : Witness) (controller : ControllerAid) : List KeyEvent :=
  (w.observedLogs.lookup controller).getD []

/-- Only the first event recorded at the sequence number is looked at. -/
def checkDuplicity (w : Witness) (event : KeyEvent) : Except ReceiveError Unit :=
  match (w.logOf event.controller).find? fun e =>
      e.sequence = event.sequence with
  | some prev =>
    refuse (prev.said ≠ event.said) (.duplicityRefused event.sequence)
  | none => .ok ()

def check (w : Witness) (s : Submission) : Except ReceiveError Unit := do
  (checkSubmission prims s).mapError .keri
  w.checkDuplicity s.event

def record (w : Witness) (event : KeyEvent) (timestamp : Int) : Witness × WitnessReceipt :=
  let receipt : WitnessReceipt :=
    { witness := w.aid, controller := event.controller
      sequence := event.sequence, signedEventSaid := event.said, timestamp
      witnessPubkey := prims.verifyingKey w.key.signing
      signature := prims.sign w.key.signing (hashBytes event.said.digest) }
  ({ w with
     observedLogs := w.observedLogs.insert event.controller
       (w.logOf event.controller ++ [event])
     issued := w.issued ++ [receipt] }, receipt)

/-- A step of some call: its checks, or the recording of the pending call
at a place. -/
inductive Step where
  | check (s : Submission)
  | record (place : Nat) (timestamp : Int)

def step (w : Witness) : Step → Witness
  | .check s =>
    match w.check prims s with
    | .ok _ => { w with pending := w.pending ++ [s.event] }
    | .error _ => w
  | .record place timestamp =>
    match w.pending[place]? with
    | some event =>
      ({ w with pending := w.pending.eraseIdx place }.record prims event timestamp).1
    | none => w

end Witness

end OpenStandards.Keri

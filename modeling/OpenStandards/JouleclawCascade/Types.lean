/-
Core cascade types: `types.rs`.

Joules are of type `J` and confidences of type `C`. The walk adds and
compares them, and reads them as exact numbers; the record and the wire
formats only carry their bits.

Texts are lists of characters, and byte arrays of a fixed size are vectors.
-/
import OpenStandards.Lib.Text
import Mathlib.Data.Vector.Basic
import OpenStandards.Lib.Bytes
import OpenStandards.Lib.Table
import Mathlib.Algebra.Order.Field.Rat

namespace OpenStandards.JouleclawCascade

open Lib

-- ==== queries

abbrev SessionId := List.Vector UInt8 16

abbrev ContextFingerprint := List.Vector UInt8 32

/-- The question's payload. -/
inductive QueryInput where
  | text (s : Text)
  | structured (b : List UInt8)
  | binary (b : List UInt8)
  | image (b : List UInt8)
  | audio (b : List UInt8)
  | multimodal (text : Text) (images audio : List (List UInt8))
deriving DecidableEq

structure JouleBudget (J : Type) where
  hardLimit : J
  softTarget : J
deriving DecidableEq

/-- Joules remaining given `spent`. -/
def JouleBudget.remaining {J : Type} [Sub J] [Max J] [Zero J]
    (budget : JouleBudget J) (spent : J) : J :=
  max (budget.hardLimit - spent) 0

structure QualityFloor (C : Type) where
  minConfidence : C
  acceptPartial : Bool
deriving DecidableEq

structure ContextRef where
  sessionId : SessionId
  historyFingerprint : ContextFingerprint
deriving DecidableEq

/-- The deadline is in nanoseconds. -/
structure Query (J C : Type) where
  input : QueryInput
  budget : JouleBudget J
  quality : QualityFloor C
  context : ContextRef
  deadline : Option Nat
deriving DecidableEq

-- ==== tiers

inductive L1Primitive where
  | cacheLookup
  | tokenize
  | detokenize
  | regex
  | parse
  | templateFill
  | retrieve
  | execute
  | lawful
  | plan
  | worldModel
  | ebm
  | synthesize
deriving DecidableEq

/-- The place of a primitive in its enumeration (`as u32`). -/
def L1Primitive.toNat : L1Primitive → Nat
  | .cacheLookup => 0
  | .tokenize => 1
  | .detokenize => 2
  | .regex => 3
  | .parse => 4
  | .templateFill => 5
  | .retrieve => 6
  | .execute => 7
  | .lawful => 8
  | .plan => 9
  | .worldModel => 10
  | .ebm => 11
  | .synthesize => 12

inductive TierId where
  | l0
  | l1 (primitive : L1Primitive)
  | l2 (model : UInt32)
  | l3 (model : UInt32)
  | l4 (model : UInt32)
  | l0_1FactLut
  | l0_25FormulaFirst
  | l0_5ToolCompute
  | l0_75SsmRouter
  | l1_25GraphRag
  | l1_375StructContrast
  | l1_5SsmReader
  | l2_5NeuralRerank
  | l4_5Proof
  | l5Routing
  | l6Agent
  | l7Reflection
  | l8Tuner
  | l9Supervisor
  | l10Governor
deriving DecidableEq

inductive JouleClass where
  | cache
  | lawful
  | embed
  | model
  | wire
  | metaClass

namespace TierId

/-- The coarse class a tier rolls up into. -/
def jouleClass : TierId → JouleClass
  | l0 | l0_1FactLut => .cache
  | l1 _ | l0_25FormulaFirst | l0_5ToolCompute | l0_75SsmRouter => .lawful
  | l2 _ | l1_25GraphRag | l1_375StructContrast | l1_5SsmReader
  | l2_5NeuralRerank => .embed
  | l3 _ | l4_5Proof => .model
  | l4 _ => .wire
  | l5Routing | l6Agent | l7Reflection | l8Tuner | l9Supervisor
  | l10Governor => .metaClass

/-- The control plane: tiers that govern the cascade and do not answer
queries. -/
def isMeta : TierId → Bool
  | l5Routing | l6Agent | l7Reflection | l8Tuner | l9Supervisor
  | l10Governor => true
  | _ => false

end TierId

-- ==== answers

inductive RefusalReason where
  | lowConfidence (c : UInt32)
  | tierSpecific (s : Text)
  | inapplicable
deriving DecidableEq

inductive AnswerOutput where
  | text (s : Text)
  | structured (b : List UInt8)
  | refused (reason : RefusalReason)
deriving DecidableEq

inductive TraceOutcome where
  | hit
  | refused (reason : RefusalReason)
  | skippedBudget
  | skippedQuality
  | skippedInapplicable
deriving DecidableEq

structure TraceEntry (J : Type) where
  tier : TierId
  outcome : TraceOutcome
  joules : J
deriving DecidableEq

/-- Whether an answer is final, or which token its outcome is reported
under. -/
inductive VerificationStatus where
  | resolved
  | pending (token : UInt64)
deriving DecidableEq

/-- The trace is the list of its attempts. -/
structure Answer (J C : Type) where
  output : AnswerOutput
  tierUsed : TierId
  joulesSpent : J
  confidence : C
  trace : List (TraceEntry J)
  verification : VerificationStatus
deriving DecidableEq

inductive AnswerError (J : Type) where
  | budgetExhausted (spent limit : J) (attemptedTiers : List (TierId × J))
  | deadlineExceeded (elapsed deadline : Nat)
  | noTierSatisfied (refusals : List (TierId × RefusalReason))
  | tierFailed (tier : TierId) (cause : Text)
deriving DecidableEq

/-
The history layer's vocabulary (`history.rs`) and the key a query is filed
under.

A key is the digest of a domain tag, the tag and the payload of the input,
and the fingerprint of the context, handed to the hasher piece by piece.
The attachments of a multimodal query are framed by their lengths, their
two lists and the text before them are set off by markers. The hasher
(`hash.rs` of the core crate) is FNV-1a in four lanes; what does not depend
on it has `digest` as an argument.
-/

abbrev EntryKey := List.Vector UInt8 32

-- ==== the hasher

def fnvOffset : UInt64 := 0xcbf29ce484222325

def fnvPrime : UInt64 := 0x100000001b3

structure Hasher256 where
  lanes : Fin 4 → UInt64

namespace Hasher256

def new : Hasher256 where
  lanes := fun lane => fnvOffset ^^^ match lane with
    | 0 => 0
    | 1 => 0xa5a5a5a5a5a5a5a5
    | 2 => 0x5a5a5a5a5a5a5a5a
    | 3 => 0xc3c3c3c3c3c3c3c3

/-- One byte into one lane; the product wraps. -/
def mix (lane : UInt64) (b : UInt8) : UInt64 :=
  (lane ^^^ b.toUInt64) * fnvPrime

/-- The byte at place `i` goes into lane `i & 3`: every update starts at
lane 0 again. -/
def update (h : Hasher256) (bytes : List UInt8) : Hasher256 :=
  bytes.zipIdx.foldl (fun h (p : UInt8 × Nat) =>
    let lane := Fin.ofNat 4 p.2
    { lanes := Function.update h.lanes lane (mix (h.lanes lane) p.1) }) h

/-- The lanes, the lowest byte of each first. -/
def finalize (h : Hasher256) : EntryKey :=
  .ofFn fun i =>
    (leBytes 8 (h.lanes (Fin.ofNat 4 (i.val / 8))).toNat).getD (i.val % 8) 0

/-- The digest of pieces, each an update. -/
def digest (chunks : List (List UInt8)) : EntryKey :=
  (chunks.foldl update new).finalize

end Hasher256

/-- What is durably stored of an answer. -/
structure HistoryAnswer (J C : Type) where
  output : AnswerOutput
  originatingTier : TierId
  joulesSpent : J
  confidence : C
deriving DecidableEq

/-- The embedding holds the bits of its numbers. -/
structure HistoryEntry (J C : Type) where
  key : EntryKey
  queryInput : QueryInput
  queryContext : ContextRef
  answer : HistoryAnswer J C
  timestampSecs : UInt64
  embedding : List UInt32

def answerToHistory {J C : Type} (a : Answer J C) : HistoryAnswer J C :=
  { output := a.output, originatingTier := a.tierUsed,
    joulesSpent := a.joulesSpent, confidence := a.confidence }

-- ==== keys

def bytesOf (s : String) : List UInt8 := Text.utf8 s.toList

def framedChunks (parts : List (List UInt8)) : List (List UInt8) :=
  parts.flatMap fun part => [leBytes 8 part.length, part]

def inputChunks : QueryInput → List (List UInt8)
  | .text s => [bytesOf "T:", Text.utf8 s]
  | .structured b => [bytesOf "S:", b]
  | .binary b => [bytesOf "B:", b]
  | .image b => [bytesOf "I:", b]
  | .audio b => [bytesOf "A:", b]
  | .multimodal text images audio =>
    [bytesOf "M:", Text.utf8 text, bytesOf "|i:"] ++ framedChunks images
      ++ [bytesOf "|a:"] ++ framedChunks audio

/-- What the hasher is fed, one piece an update. -/
def keyChunks (input : QueryInput) (context : ContextRef) : List (List UInt8) :=
  [bytesOf "L0v1"] ++ inputChunks input ++ [bytesOf "|C:", context.historyFingerprint.toList]

def keyFor {J C : Type} (digest : List (List UInt8) → EntryKey) (q : Query J C) : EntryKey :=
  digest (keyChunks q.input q.context)

/-
The exact-match cache: `l0_cache.rs`.

Joules and confidences are exact numbers.
-/

/-- The bytes a lookup has to hash. -/
def QueryInput.len : QueryInput → Nat
  | .text s => (Text.utf8 s).length
  | .structured b | .binary b => b.length
  | .image b | .audio b => b.length
  | .multimodal s images clips =>
    (Text.utf8 s).length + (images.map List.length).sum + (clips.map List.length).sum

/-- Cost prediction for a tier on a query, before doing work. The latency
is in nanoseconds. -/
structure TierEstimate where
  joules : ℚ
  latency : Nat
  confidenceFloor : ℚ

structure CachedAnswer where
  output : AnswerOutput
  confidence : ℚ
  originalTier : TierId

structure L0Cache where
  entries : Table EntryKey CachedAnswer
  cLookup : ℚ
  cHashPerByte : ℚ

namespace L0Cache

def new : L0Cache :=
  { entries := ∅, cLookup := 6 / 10 ^ 9, cHashPerByte := 5 / 10 ^ 11 }

variable (digest : List (List UInt8) → EntryKey)

def put (l0 : L0Cache) (q : Query ℚ ℚ) (a : Answer ℚ ℚ) : L0Cache :=
  { l0 with
    entries := l0.entries.insert (keyFor digest q)
      { output := a.output, confidence := a.confidence,
        originalTier := a.tierUsed } }

def estimateJoules (l0 : L0Cache) (q : Query ℚ ℚ) : ℚ :=
  l0.cLookup + l0.cHashPerByte * q.input.len

def estimateCost (l0 : L0Cache) (q : Query ℚ ℚ) : TierEstimate :=
  { joules := l0.estimateJoules q, latency := 50, confidenceFloor := 1 }

def tryAnswer (l0 : L0Cache) (q : Query ℚ ℚ) : Answer ℚ ℚ :=
  match l0.entries.lookup (keyFor digest q) with
  | some cached =>
    { output := cached.output, tierUsed := .l0,
      joulesSpent := l0.estimateJoules q, confidence := cached.confidence,
      trace := [{ tier := .l0, outcome := .hit,
                  joules := l0.estimateJoules q }]
      verification := .resolved }
  | none =>
    { output := .refused .inapplicable, tierUsed := .l0,
      joulesSpent := l0.estimateJoules q, confidence := 0, trace := [],
      verification := .resolved }

end L0Cache

end OpenStandards.JouleclawCascade

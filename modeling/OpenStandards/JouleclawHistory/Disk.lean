/-
The durable history: `disk.rs`.

The file is its bytes, and the index is what the store knows of it. Joules
and confidences are kept as the bits of their floats. Writes do not fail;
a crash is a cut of the file. The hasher of keys and the clock are
arguments, and the text of a failed UTF-8 check is left out.
-/
import OpenStandards.JouleclawHistory.Tiered
import OpenStandards.Lib.Cursor

namespace OpenStandards.JouleclawHistory

open Lib JouleclawCascade

inductive HistoryError where
  | unexpectedEof
  | corrupt (s : String)

abbrev Result (α : Type) := Except (Fault HistoryError) α

/-- An entry with the bits of its numbers. -/
abbrev Entry := HistoryEntry UInt64 UInt32

def corrupt {α : Type} (s : String) : Result α := .error (.err (.corrupt s))

-- ==== encoding

/-- Bytes behind their length, which is cut to 32 bits. -/
def prefixed (bytes : List UInt8) : List UInt8 :=
  beBytes 4 bytes.length ++ bytes

def prefixedList (parts : List (List UInt8)) : List UInt8 :=
  beBytes 4 parts.length ++ parts.flatMap prefixed

def multimodalPayload (text : Text) (images audio : List (List UInt8)) : List UInt8 :=
  prefixed (Text.utf8 text) ++ (prefixedList images ++ prefixedList audio)

def inputParts : QueryInput → Nat × List UInt8
  | .text s => (0, Text.utf8 s)
  | .structured b => (1, b)
  | .binary b => (2, b)
  | .image b => (3, b)
  | .audio b => (4, b)
  | .multimodal text images audio => (5, multimodalPayload text images audio)

def encodeInput (input : QueryInput) : List UInt8 :=
  beBytes 1 (inputParts input).1 ++ prefixed (inputParts input).2

def encodeContext (context : ContextRef) : List UInt8 :=
  context.sessionId.toList ++ context.historyFingerprint.toList

def encodeRefusal : RefusalReason → List UInt8
  | .inapplicable => beBytes 1 0 ++ beBytes 4 0
  | .lowConfidence c => beBytes 1 1 ++ beBytes 4 c.toNat
  | .tierSpecific s => beBytes 1 2 ++ prefixed (Text.utf8 s)

def encodeOutput : AnswerOutput → List UInt8
  | .text s => beBytes 1 0 ++ prefixed (Text.utf8 s)
  | .structured b => beBytes 1 1 ++ prefixed b
  | .refused reason => beBytes 1 2 ++ encodeRefusal reason

/-- The family of a tier and its number in it. The fractional and the meta
tiers are kept as their coarse class. -/
def encodeTier : TierId → Nat × Nat
  | .l0 => (0, 0)
  | .l1 p => (1, p.toNat)
  | .l2 m => (2, m.toNat)
  | .l3 m => (3, m.toNat)
  | .l4 m => (4, m.toNat)
  | other =>
    match other.jouleClass with
    | .cache => (0, 0)
    | .lawful => (1, 0)
    | .embed => (2, 0)
    | .model => (3, 0)
    | .wire => (4, 0)
    | .metaClass => (5, 0)

def tierBytes (tier : TierId) : List UInt8 :=
  beBytes 1 (encodeTier tier).1 ++ beBytes 4 (encodeTier tier).2

def encodeEmbedding (embedding : List UInt32) : List UInt8 :=
  beBytes 4 embedding.length ++ embedding.flatMap fun v => beBytes 4 v.toNat

def encodeRecord (e : Entry) : List UInt8 :=
  encodeInput e.queryInput ++ (encodeContext e.queryContext
    ++ (encodeOutput e.answer.output
    ++ (tierBytes e.answer.originatingTier
    ++ (beBytes 8 e.answer.joulesSpent.toNat
    ++ (beBytes 4 e.answer.confidence.toNat
    ++ (beBytes 8 e.timestampSecs.toNat
    ++ encodeEmbedding e.embedding))))))

-- ==== decoding

def shortRead (pos want size : Nat) : HistoryError :=
  .corrupt s!"short read: pos {pos}, want {want}, have {size}"

def readN (bytes : List UInt8) (n pos : Nat) : Result (List UInt8 × Nat) :=
  takeAt shortRead bytes n pos

def readU8 (bytes : List UInt8) (pos : Nat) : Result (Nat × Nat) :=
  beAt shortRead bytes 1 pos

def readU32 (bytes : List UInt8) (pos : Nat) : Result (Nat × Nat) :=
  beAt shortRead bytes 4 pos

def readU64 (bytes : List UInt8) (pos : Nat) : Result (Nat × Nat) :=
  beAt shortRead bytes 8 pos

def utf8 (what : String) (bytes : List UInt8) : Result Text :=
  match Text.fromUtf8? bytes with
  | some s => .ok s
  | none => corrupt what

/-- Bytes behind their length. -/
def readPrefixed (bytes : List UInt8) (pos : Nat) : Result (List UInt8 × Nat) := do
  let (n, pos) ← readU32 bytes pos
  readN bytes n pos

/-- Parts behind their number. -/
def readPrefixedList (bytes : List UInt8) (pos : Nat) : Result (List (List UInt8) × Nat) := do
  let (n, pos) ← readU32 bytes pos
  readMany (readPrefixed bytes) n pos

def readMultimodal (bytes : List UInt8) (pos : Nat) : Result (QueryInput × Nat) := do
  let (t, pos) ← readPrefixed bytes pos
  let text ← utf8 "multimodal text not utf8" t
  let (images, pos) ← readPrefixedList bytes pos
  let (audio, pos) ← readPrefixedList bytes pos
  .ok (.multimodal text images audio, pos)

def inputOf (variant : Nat) (bytes : List UInt8) : Result QueryInput :=
  match variant with
  | 0 => (utf8 "input not utf8" bytes).map .text
  | 1 => .ok (.structured bytes)
  | 2 => .ok (.binary bytes)
  | 3 => .ok (.image bytes)
  | 4 => .ok (.audio bytes)
  | 5 => (readMultimodal bytes 0).map Prod.fst
  | v => corrupt s!"bad input variant {v}"

def readInput (bytes : List UInt8) (pos : Nat) : Result (QueryInput × Nat) := do
  let (variant, pos) ← readU8 bytes pos
  let (inputBytes, pos) ← readPrefixed bytes pos
  let input ← inputOf variant inputBytes
  .ok (input, pos)

def readContext (bytes : List UInt8) (pos : Nat) : Result (ContextRef × Nat) := do
  let (sid, pos) ← readN bytes 16 pos
  let sid ← copyFromSlice 16 sid
  let (fp, pos) ← readN bytes 32 pos
  let fp ← copyFromSlice 32 fp
  .ok ({ sessionId := sid, historyFingerprint := fp }, pos)

def readRefusal (bytes : List UInt8) (pos : Nat) : Result (RefusalReason × Nat) := do
  let (r, pos) ← readU8 bytes pos
  match r with
  | 0 =>
    let (_, pos) ← readU32 bytes pos
    .ok (.inapplicable, pos)
  | 1 =>
    let (c, pos) ← readU32 bytes pos
    .ok (.lowConfidence (.ofNat c), pos)
  | 2 =>
    let (b, pos) ← readPrefixed bytes pos
    let s ← utf8 "refusal" b
    .ok (.tierSpecific s, pos)
  | v => corrupt s!"bad refusal {v}"

def readOutput (bytes : List UInt8) (pos : Nat) : Result (AnswerOutput × Nat) := do
  let (kind, pos) ← readU8 bytes pos
  match kind with
  | 0 =>
    let (b, pos) ← readPrefixed bytes pos
    let s ← utf8 "output not utf8" b
    .ok (.text s, pos)
  | 1 =>
    let (b, pos) ← readPrefixed bytes pos
    .ok (.structured b, pos)
  | 2 =>
    let (reason, pos) ← readRefusal bytes pos
    .ok (.refused reason, pos)
  | v => corrupt s!"bad output kind {v}"

/-- Mirror of the first eight of `L1Primitive`. -/
def decodeL1Primitive : Nat → Result L1Primitive
  | 0 => .ok .cacheLookup
  | 1 => .ok .tokenize
  | 2 => .ok .detokenize
  | 3 => .ok .regex
  | 4 => .ok .parse
  | 5 => .ok .templateFill
  | 6 => .ok .retrieve
  | 7 => .ok .execute
  | v => corrupt s!"bad L1 primitive {v}"

def decodeTier (family data : Nat) : Result TierId :=
  match family with
  | 0 => .ok .l0
  | 1 => (decodeL1Primitive data).map .l1
  | 2 => .ok (.l2 (.ofNat data))
  | 3 => .ok (.l3 (.ofNat data))
  | 4 => .ok (.l4 (.ofNat data))
  | v => corrupt s!"bad tier family {v}"

def readTier (bytes : List UInt8) (pos : Nat) : Result (TierId × Nat) := do
  let (family, pos) ← readU8 bytes pos
  let (data, pos) ← readU32 bytes pos
  let tier ← decodeTier family data
  .ok (tier, pos)

def readEmbedding (bytes : List UInt8) (pos : Nat) : Result (List UInt32 × Nat) := do
  let (n, pos) ← readU32 bytes pos
  let (vs, pos) ← readMany (readU32 bytes) n pos
  .ok (vs.map UInt32.ofNat, pos)

variable (digest : List (List UInt8) → EntryKey)

def readRecord (bytes : List UInt8) (pos : Nat) : Result (Entry × Nat) := do
  let (input, pos) ← readInput bytes pos
  let (context, pos) ← readContext bytes pos
  let (output, pos) ← readOutput bytes pos
  let (tier, pos) ← readTier bytes pos
  let (joules, pos) ← readU64 bytes pos
  let (confidence, pos) ← readU32 bytes pos
  let (timestamp, pos) ← readU64 bytes pos
  let (embedding, pos) ← readEmbedding bytes pos
  .ok
    ({ key := digest (keyChunks input context)
       queryInput := input
       queryContext := context
       answer :=
         { output := output, originatingTier := tier,
           joulesSpent := .ofNat joules, confidence := .ofNat confidence }
       timestampSecs := .ofNat timestamp
       embedding := embedding }, pos)

/-- What stands behind the last field is not looked at. -/
def decodeRecord (bytes : List UInt8) : Result Entry :=
  (readRecord digest bytes 0).map Prod.fst

-- ==== the store

def magic : List UInt8 := bytesOf "JOULEHX1"

def version : Nat := 1

def header : List UInt8 :=
  magic ++ (beBytes 4 version ++ List.replicate 4 0)

structure DiskHistory where
  file : List UInt8
  index : EntryMap UInt64 UInt32

namespace DiskHistory

/-- Records up to the end of the file. Bytes too few for a length end the
loop; a record cut short is an error. The buffer of a record is no larger
than an allocation can be. The loop ends: a record takes eight bytes at
least, and there is fuel for each byte. -/
def readRecords : Nat → List UInt8 → EntryMap UInt64 UInt32 → Result (EntryMap UInt64 UInt32)
  | 0, _, index => .ok index
  | fuel + 1, rest, index =>
    if rest.length < 8 then .ok index
    else if ofBeBytes (rest.take 8) ≥ 2 ^ 63 then .error .panic
    else if (rest.drop 8).length < ofBeBytes (rest.take 8) then
      .error (.err .unexpectedEof)
    else do
      let entry ← decodeRecord digest
        ((rest.drop 8).take (ofBeBytes (rest.take 8)))
      readRecords fuel ((rest.drop 8).drop (ofBeBytes (rest.take 8))) (index.insertEntry entry)

def created : DiskHistory := { file := header, index := .empty }

/-- Open a log, or begin one. Later writes go to the end of the file. -/
def openWith (file : List UInt8) : Result DiskHistory :=
  if file.length = 0 then .ok created
  else if file.length < 16 then corrupt "file too short for header"
  else if file.take 8 ≠ magic then corrupt "bad magic"
  else
    let found := ofBeBytes ((file.drop 8).take 4)
    if found ≠ version then corrupt s!"unsupported version {found}"
    else do
      let index ← readRecords digest file.length (file.drop 16) .empty
      .ok { file := file, index := index }

def frame (entry : Entry) : List UInt8 :=
  beBytes 8 (encodeRecord entry).length ++ encodeRecord entry

def record (d : DiskHistory) (q : Query UInt64 UInt32)
    (a : Answer UInt64 UInt32) (now : UInt64) : DiskHistory × EntryKey :=
  let entry := entryFor digest q a now
  ({ file := d.file ++ frame entry, index := d.index.insertEntry entry }, entry.key)

end DiskHistory

/-- A call of `record`, with the time it is made at. -/
structure Recording where
  q : Query UInt64 UInt32
  a : Answer UInt64 UInt32
  now : UInt64

def Recording.entry (digest : List (List UInt8) → EntryKey) (r : Recording) : Entry :=
  entryFor digest r.q r.a r.now

/-- The store after some calls. -/
def recordAll (d : DiskHistory) (rs : List Recording) : DiskHistory :=
  rs.foldl (fun d r => (d.record digest r.q r.a r.now).1) d

end OpenStandards.JouleclawHistory

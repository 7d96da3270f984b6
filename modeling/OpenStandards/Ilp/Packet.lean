/-
The octet encoding rules of the ILP wire formats (smart-byte-ilp
`oer.rs`, `error.rs`).

An encoder that appends to a vector is the list of bytes it appends. A
`usize` has 64 bits. Additions that the source leaves unchecked go
through `addUsize`, slices through `slice`, so that a decoder that would
panic says so.
-/
import OpenStandards.Lib.Cursor

namespace OpenStandards.Ilp

open Lib

/-- Why an address is refused. -/
inductive AddressError where
  | empty
  /-- "length {len} exceeds 1023" -/
  | tooLong (len : Nat)
  /-- "unknown scheme: {head}" -/
  | unknownScheme (head : String)
  /-- "empty segment at index {i}" -/
  | emptySegment (i : Nat)
  /-- "segment {i} exceeds 128 chars" -/
  | longSegment (i : Nat)
  /-- "illegal char {ch:?} in segment {i}" -/
  | illegalChar (ch : Char) (i : Nat)
deriving DecidableEq

/-- The failure modes the modelled functions use. -/
inductive IlpError where
  | oer (msg : String)
  | unknownPacketType (b : UInt8)
  | invalidPacket (msg : String)
  /-- `InvalidPacket` of a field that is not UTF-8; the rest of the text
  is the standard library's -/
  | notUtf8 (field : String)
  | invalidAddress (reason : AddressError)
  | unknownStreamFrame (b : UInt8)
  | unknownBtpPacketType (b : UInt8)
  | balance (msg : String)
  | noQuote (source target : String)
deriving DecidableEq

abbrev Decoded (α : Type) := Except (Fault IlpError) α

-- ==== lengths

/-- The loop that takes a length apart, the lowest octet first; a `usize`
has no more octets than the first argument allows for. -/
def lengthOctets : Nat → Nat → List UInt8
  | 0, _ => []
  | k + 1, v =>
    if 0 < v then UInt8.ofNat (v &&& 0xff) :: lengthOctets k (v >>> 8)
    else []

def encodeLength (len : Nat) : List UInt8 :=
  if len < 128 then [UInt8.ofNat len]
  else
    let tmp := (lengthOctets 8 len).reverse
    UInt8.ofNat (0x80 ||| tmp.length) :: tmp

def decodeLength (input : List UInt8) : Decoded (Nat × Nat) :=
  match input with
  | [] => .error (.err (.oer "length determinant: empty input"))
  | first :: _ =>
    if first < 128 then .ok (first.toNat, 1)
    else do
      let n := (first &&& 0x7f).toNat
      refuse (n = 0) (.err (.oer "indefinite length not supported"))
      refuse (input.length < 1 + n) (.err (.oer "length determinant truncated"))
      refuse (8 < n) (.err (.oer "length determinant too large"))
      let octets ← slice input 1 (1 + n)
      let len := octets.foldl
        (fun len b => (len <<< 8 ||| b.toNat) % 2 ^ 64) 0
      return (len, 1 + n)

-- ==== octet strings

def encodeVarOctetString (bytes : List UInt8) : List UInt8 :=
  encodeLength bytes.length ++ bytes

def decodeVarOctetString (input : List UInt8) : Decoded (List UInt8 × Nat) := do
  let (len, start) ← decodeLength input
  -- `checked_add`
  refuse (2 ^ 64 ≤ start + len) (.err (.oer "octet string length overflow"))
  refuse (input.length < start + len) (.err (.oer "octet string truncated"))
  let bytes ← slice input start (start + len)
  return (bytes, start + len)

-- ==== integers

/-- The first `k` bytes as one big-endian number. -/
def decodeWord {α : Type} (k : Nat) (truncated : String) (ofNat : Nat → α)
    (input : List UInt8) : Decoded (α × Nat) := do
  refuse (input.length < k) (.err (.oer truncated))
  let bytes ← slice input 0 k
  let buf ← copyFromSlice k bytes
  return (ofNat (ofBeBytes buf.toList), k)

def encodeU64 (value : UInt64) : List UInt8 := beBytes 8 value.toNat

def decodeU64 : List UInt8 → Decoded (UInt64 × Nat) :=
  decodeWord 8 "u64 truncated" UInt64.ofNat

def encodeU32 (value : UInt32) : List UInt8 := beBytes 4 value.toNat

def decodeU32 : List UInt8 → Decoded (UInt32 × Nat) :=
  decodeWord 4 "u32 truncated" UInt32.ofNat

-- ==== strings

/-- The UTF-8 bytes of a string (`as_bytes`). -/
def utf8Bytes (s : String) : List UInt8 := s.toByteArray.data.toList

/-- The string of some bytes (`from_utf8`), or an error naming the
field. -/
def fromUtf8 (field : String) (bytes : List UInt8) : Decoded String :=
  match String.fromUTF8? ⟨bytes.toArray⟩ with
  | some s => .ok s
  | none => .error (.err (.notUtf8 field))

/-
ILP addresses (smart-byte-ilp `address.rs`).

The fields of an address are private and `parse` is the only way to one,
so an address carries the parse it came from. A string is split into
segments by its characters; the dot is one byte, so positions in bytes
and in characters agree wherever the source uses them.
-/

/-- The top-level allocator scheme. -/
inductive AddressScheme where
  | global
  | privateScheme
  | example_
  | peer
  | selfScheme
  | test
  | local_
deriving DecidableEq

def segmentsOf (s : String) : List (List Char) := s.toList.splitOn '.'

def schemeOf : String → Option AddressScheme
  | "g" => some .global
  | "private" => some .privateScheme
  | "example" => some .example_
  | "peer" => some .peer
  | "self" => some .selfScheme
  | "test" => some .test
  | "test1" => some .test
  | "test2" => some .test
  | "test3" => some .test
  | "local" => some .local_
  | _ => none

def isAddressChar (c : Char) : Bool :=
  c.isAlphanum || c = '_' || c = '~' || c = '-'

def checkSegment (seg : List Char × Nat) : Except AddressError Unit := do
  refuse (seg.1 = []) (.emptySegment seg.2)
  refuse (128 < (String.ofList seg.1).utf8ByteSize) (.longSegment seg.2)
  seg.1.forM fun ch => refuse (¬ isAddressChar ch) (.illegalChar ch seg.2)

def parseScheme (input : String) : Except AddressError AddressScheme := do
  refuse (input = "") .empty
  refuse (1023 < input.utf8ByteSize) (.tooLong input.utf8ByteSize)
  let head := String.ofList ((segmentsOf input).headD [])
  match schemeOf head with
  | none => .error (.unknownScheme head)
  | some scheme => do
    (segmentsOf input).zipIdx.forM checkSegment
    return scheme

/-- A validated address. -/
structure Address where
  raw : String
  scheme : AddressScheme
  parsed : parseScheme raw = .ok scheme
deriving DecidableEq

namespace Address

def parse (input : String) : Decoded Address :=
  match h : parseScheme input with
  | .ok scheme => .ok { raw := input, scheme, parsed := h }
  | .error e => .error (.err (.invalidAddress e))

/-- The address begins with the prefix, and the prefix ends where a
segment does. -/
def startsWithPrefix (a : Address) (pre : String) : Bool :=
  if pre = "" then true
  else if ¬ pre.toList <+: a.raw.toList then false
  else
    match a.raw.toList[pre.toList.length]? with
    | none => true
    | some c => c = '.'

theorem parse_raw (a : Address) : parse a.raw = .ok a := by
  unfold parse
  have hparsed := a.parsed
  split
  next scheme h =>
    have heq : scheme = a.scheme := by
      rw [hparsed] at h
      exact (Except.ok.inj h).symm
    subst heq
    rfl
  next e h =>
    rw [hparsed] at h
    cases h

end Address

/-
The ILPv4 wire packets (smart-byte-ilp `packet.rs`, and the two byte
arrays of `condition.rs`).

A packet is a type byte and a body behind its length. A decoder of a
body stops after the last field it knows; bytes behind it are ignored.
-/

/-- Packet types on the wire. -/
inductive PacketType where
  | prepare
  | fulfill
  | reject

namespace PacketType

def toU8 : PacketType → UInt8
  | .prepare => 12
  | .fulfill => 13
  | .reject => 14

def fromU8 (b : UInt8) : Decoded PacketType :=
  if b = 12 then .ok .prepare
  else if b = 13 then .ok .fulfill
  else if b = 14 then .ok .reject
  else .error (.err (.unknownPacketType b))

end PacketType

/-- Reject codes. -/
inductive RejectCode where
  | f00BadRequest
  | f01InvalidPacket
  | f02Unreachable
  | f03InvalidAmount
  | f04InsufficientDestinationAmount
  | f05WrongCondition
  | f06UnexpectedPayment
  | f07CannotReceive
  | f08AmountTooLarge
  | f99ApplicationError
  | t00InternalError
  | t01PeerUnreachable
  | t02PeerBusy
  | t03ConnectorBusy
  | t04InsufficientLiquidity
  | t05RateLimited
  | r00TransferTimedOut
  | r01InsufficientSourceAmount
  | r99ApplicationReject
deriving DecidableEq

namespace RejectCode

def asStr : RejectCode → String
  | .f00BadRequest => "F00"
  | .f01InvalidPacket => "F01"
  | .f02Unreachable => "F02"
  | .f03InvalidAmount => "F03"
  | .f04InsufficientDestinationAmount => "F04"
  | .f05WrongCondition => "F05"
  | .f06UnexpectedPayment => "F06"
  | .f07CannotReceive => "F07"
  | .f08AmountTooLarge => "F08"
  | .f99ApplicationError => "F99"
  | .t00InternalError => "T00"
  | .t01PeerUnreachable => "T01"
  | .t02PeerBusy => "T02"
  | .t03ConnectorBusy => "T03"
  | .t04InsufficientLiquidity => "T04"
  | .t05RateLimited => "T05"
  | .r00TransferTimedOut => "R00"
  | .r01InsufficientSourceAmount => "R01"
  | .r99ApplicationReject => "R99"

/-- Unknown codes collapse to `F00`. -/
def fromStr : String → RejectCode
  | "F00" => .f00BadRequest
  | "F01" => .f01InvalidPacket
  | "F02" => .f02Unreachable
  | "F03" => .f03InvalidAmount
  | "F04" => .f04InsufficientDestinationAmount
  | "F05" => .f05WrongCondition
  | "F06" => .f06UnexpectedPayment
  | "F07" => .f07CannotReceive
  | "F08" => .f08AmountTooLarge
  | "F99" => .f99ApplicationError
  | "T00" => .t00InternalError
  | "T01" => .t01PeerUnreachable
  | "T02" => .t02PeerBusy
  | "T03" => .t03ConnectorBusy
  | "T04" => .t04InsufficientLiquidity
  | "T05" => .t05RateLimited
  | "R00" => .r00TransferTimedOut
  | "R01" => .r01InsufficientSourceAmount
  | "R99" => .r99ApplicationReject
  | _ => .f00BadRequest

end RejectCode

/-- A 32-byte SHA-256 condition. -/
structure Condition where
  bytes : List.Vector UInt8 32

/-- A 32-byte fulfillment. -/
structure Fulfillment where
  bytes : List.Vector UInt8 32

structure Prepare where
  amount : UInt64
  expiresAt : List.Vector UInt8 17
  condition : Condition
  destination : Address
  data : List UInt8

structure Fulfill where
  fulfillment : Fulfillment
  data : List UInt8

structure Reject where
  code : RejectCode
  triggeredBy : String
  message : String
  data : List UInt8
deriving DecidableEq

/-- The three wire packets. -/
inductive IlpPacket where
  | prepare (p : Prepare)
  | fulfill (f : Fulfill)
  | reject (r : Reject)

-- ==== bodies

def encodePrepareBody (p : Prepare) : List UInt8 :=
  encodeU64 p.amount ++ (p.expiresAt.toList ++ (p.condition.bytes.toList
    ++ (encodeVarOctetString (utf8Bytes p.destination.raw) ++ encodeVarOctetString p.data)))

def decodePrepareBody (body : List UInt8) : Decoded Prepare := do
  let (amount, cursor) ← readAt decodeU64 body 0
  let (expiresAt, cursor) ←
    readFixed 17 (.invalidPacket "expires_at truncated") body cursor
  let (condBytes, cursor) ←
    readFixed 32 (.invalidPacket "condition truncated") body cursor
  let (destBytes, cursor) ← readAt decodeVarOctetString body cursor
  let dest ← fromUtf8 "destination" destBytes
  let destination ← Address.parse dest
  let (data, _) ← readAt decodeVarOctetString body cursor
  return { amount, expiresAt, condition := ⟨condBytes⟩, destination, data }

def encodeFulfillBody (f : Fulfill) : List UInt8 :=
  f.fulfillment.bytes.toList ++ encodeVarOctetString f.data

def decodeFulfillBody (body : List UInt8) : Decoded Fulfill := do
  let (bytes, cursor) ←
    readFixed 32 (.invalidPacket "fulfillment truncated") body 0
  let (data, _) ← readAt decodeVarOctetString body cursor
  return { fulfillment := ⟨bytes⟩, data }

def encodeRejectBody (r : Reject) : List UInt8 :=
  utf8Bytes r.code.asStr ++ (encodeVarOctetString (utf8Bytes r.triggeredBy)
    ++ (encodeVarOctetString (utf8Bytes r.message) ++ encodeVarOctetString r.data))

def decodeRejectBody (body : List UInt8) : Decoded Reject := do
  let (codeBytes, cursor) ←
    readFixed 3 (.invalidPacket "reject code truncated") body 0
  let codeStr ← fromUtf8 "reject code" codeBytes.toList
  let code := RejectCode.fromStr codeStr
  let (triggeredByBytes, cursor) ← readAt decodeVarOctetString body cursor
  let triggeredBy ← fromUtf8 "triggered_by" triggeredByBytes
  let (messageBytes, cursor) ← readAt decodeVarOctetString body cursor
  let message ← fromUtf8 "message" messageBytes
  let (data, _) ← readAt decodeVarOctetString body cursor
  return { code, triggeredBy, message, data }

-- ==== packets

def encodeWithHeader (ty : PacketType) (body : List UInt8) : List UInt8 :=
  ty.toU8 :: (encodeLength body.length ++ body)

def IlpPacket.encode : IlpPacket → List UInt8
  | .prepare p => encodeWithHeader .prepare (encodePrepareBody p)
  | .fulfill f => encodeWithHeader .fulfill (encodeFulfillBody f)
  | .reject r => encodeWithHeader .reject (encodeRejectBody r)

def IlpPacket.decode (input : List UInt8) : Decoded IlpPacket :=
  match input with
  | [] => .error (.err (.invalidPacket "empty input"))
  | typeByte :: _ => do
    let ty ← PacketType.fromU8 typeByte
    let (len, bodyStart) ← readAt decodeLength input 1
    -- `checked_add`
    refuse (2 ^ 64 ≤ bodyStart + len) (.err (.invalidPacket "body length overflow"))
    refuse (input.length < bodyStart + len) (.err (.invalidPacket "packet truncated"))
    let body ← slice input bodyStart (bodyStart + len)
    match ty with
    | .prepare => return .prepare (← decodePrepareBody body)
    | .fulfill => return .fulfill (← decodeFulfillBody body)
    | .reject => return .reject (← decodeRejectBody body)

end OpenStandards.Ilp

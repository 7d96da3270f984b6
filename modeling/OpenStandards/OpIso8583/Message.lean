/-
The bitmaps of a message (op-iso8583 `bitmap.rs`): one 128-bit word, the
primary bitmap in its high half and the secondary in its low half. Data
element 1 is the highest bit and says that the secondary bitmap follows;
data element 128 is the lowest bit. On the wire they are bytes or, in
older installations, hex digits.
-/
import OpenStandards.OpIso8583.Codec

namespace OpenStandards.OpIso8583

open Lib

/-- Which data elements are present. -/
structure Bitmaps where
  bits : BitVec 128

namespace Bitmaps

def new : Bitmaps := ⟨0#128⟩

/-- The data element is present; numbers outside 1 to 128 never are. -/
def has (b : Bitmaps) (de : UInt8) : Bool :=
  if de < 1 ∨ 128 < de then false else b.bits.getLsbD (128 - de.toNat)

def set (b : Bitmaps) (de : UInt8) : Bitmaps :=
  if de < 1 ∨ 128 < de then b
  else ⟨b.bits ||| (1#128 <<< (128 - de.toNat))⟩

def clear (b : Bitmaps) (de : UInt8) : Bitmaps :=
  if de < 1 ∨ 128 < de then b
  else ⟨b.bits &&& ~~~(1#128 <<< (128 - de.toNat))⟩

/-- Some data element above 64 is present. -/
def secondaryNeeded (b : Bitmaps) : Bool := b.bits.setWidth 64 != 0#64

/-- The bits on the wire: the flag is set exactly when the secondary
bitmap follows. -/
def wireBits (b : Bitmaps) : BitVec 128 :=
  if b.secondaryNeeded then b.bits ||| (1#128 <<< 127)
  else b.bits &&& ~~~(1#128 <<< 127)

def encodeBinary (b : Bitmaps) : Bytes :=
  let primary := (b.wireBits >>> 64).setWidth 64
  if b.secondaryNeeded then
    beBytes 8 primary.toNat ++ beBytes 8 (b.wireBits.setWidth 64).toNat
  else beBytes 8 primary.toNat

def decodeBinary (input : Bytes) (offset : Nat) : Except Error (Bitmaps × Nat) := do
  let primaryBytes ← takeAt input offset 8
  let primary := BitVec.ofNat 64 (ofBeBytes primaryBytes)
  let secondaryPresent := primary &&& (1#64 <<< 63) != 0#64
  let bits := primary.setWidth 128 <<< 64
  if secondaryPresent then
    let secBytes ← takeAt input (offset + 8) 8
    let secondary := BitVec.ofNat 64 (ofBeBytes secBytes)
    .ok (⟨bits ||| secondary.setWidth 128⟩, offset + 8 + 8)
  else .ok (⟨bits⟩, offset + 8)

-- ------------------------------------------------------------ hex digits

/-- The hex digits, upper case. -/
def hexTable : List UInt8 :=
  [0x30, 0x31, 0x32, 0x33, 0x34, 0x35, 0x36, 0x37, 0x38, 0x39, 0x41, 0x42,
    0x43, 0x44, 0x45, 0x46]

def hexChar (nibble : UInt8) : Char :=
  Text.ofByte (hexTable.getD nibble.toNat 0)

def hexNibble (byte : UInt8) : Option UInt8 :=
  if 0x30 ≤ byte ∧ byte ≤ 0x39 then some (byte - 0x30)
  else if 0x61 ≤ byte ∧ byte ≤ 0x66 then some (byte - 0x61 + 10)
  else if 0x41 ≤ byte ∧ byte ≤ 0x46 then some (byte - 0x41 + 10)
  else none

/-- The loop over the digits, from an offset on. -/
def hexNibbles : Nat → Bytes → Except Error Bytes
  | _, [] => .ok []
  | offset, byte :: bytes =>
    match hexNibble byte with
    | none => .error (.invalidAscii byte offset)
    | some nibble => do
      let nibbles ← hexNibbles (offset + 1) bytes
      .ok (nibble :: nibbles)

def hexToBytes (input : Bytes) : Except Error Bytes :=
  if input.length % 2 ≠ 0 then
    .error (.invalidVarLength input.length (input.length + 1))
  else do
    let nibbles ← hexNibbles 0 input
    .ok (pack nibbles)

/-- The wire form in hex: 16 or 32 digits. -/
def encodeHex (b : Bitmaps) : Text :=
  (nibbles b.encodeBinary).map hexChar

def decodeHex (input : Bytes) (offset : Nat) : Except Error (Bitmaps × Nat) := do
  let primaryDigits ← takeAt input offset 16
  let primaryBytes ← hexToBytes primaryDigits
  let primary := BitVec.ofNat 64 (ofBeBytes primaryBytes)
  let bits := primary.setWidth 128 <<< 64
  let secondaryPresent := primary &&& (1#64 <<< 63) != 0#64
  if secondaryPresent then
    let secDigits ← takeAt input (offset + 16) 16
    let secBytes ← hexToBytes secDigits
    let secondary := BitVec.ofNat 64 (ofBeBytes secBytes)
    .ok (⟨bits ||| secondary.setWidth 128⟩, offset + 16 + 16)
  else .ok (⟨bits⟩, offset + 16)

end Bitmaps

/-- The data elements 2 to 128. -/
def allDes : List UInt8 := (List.range 127).map fun i => UInt8.ofNat (i + 2)

/-- The data elements present, in ascending order, without the flag. -/
def Bitmaps.iterDes (b : Bitmaps) : List UInt8 := allDes.filter b.has

/-
The data elements of ISO 8583 (op-iso8583 `fields.rs`): a catalog gives
each element an encoding and a length rule.

The branches are those of the source. The maximum of a variable length
is not looked at; a variable field is preceded by the number of its
payload bytes, in BCD for BCD and binary fields and in ASCII otherwise;
reading a variable BCD field passes over the nibbles that are no digits.
-/

open Text

inductive Encoding where
  | bcd
  | ascii
  | ebcdic
  | binary

/-- `Debug` of an encoding. -/
def Encoding.debug : Encoding → String
  | bcd => "Bcd"
  | ascii => "Ascii"
  | ebcdic => "Ebcdic"
  | binary => "Binary"

inductive LengthRule where
  | fixed (n : Nat)
  | ll (max : Nat)
  | lll (max : Nat)

/-- The entry of a data element. -/
structure FieldSpec where
  de : UInt8
  encoding : Encoding
  length : LengthRule

inductive FieldValue where
  | numeric (s : Text)
  | text (s : Text)
  | bytes (b : Bytes)
deriving DecidableEq

def FieldValue.discriminant : FieldValue → String
  | numeric _ => "Numeric"
  | text _ => "Text"
  | bytes _ => "Bytes"

abbrev Catalog := List (Option FieldSpec)

def lookup (catalog : Catalog) (de : UInt8) : Except Error FieldSpec :=
  match catalog[de.toNat]? with
  | some (some spec) => .ok spec
  | _ => .error (.unknownDataElement de)

/-- The entries of `default_catalog`. -/
def defaultEntries : List (UInt8 × Encoding × LengthRule) :=
  [(2, .bcd, .ll 19), (3, .bcd, .fixed 6), (4, .bcd, .fixed 12),
    (7, .bcd, .fixed 10), (11, .bcd, .fixed 6), (12, .bcd, .fixed 6),
    (13, .bcd, .fixed 4), (14, .bcd, .fixed 4), (18, .bcd, .fixed 4),
    (22, .bcd, .fixed 3), (25, .bcd, .fixed 2), (32, .bcd, .ll 11),
    (35, .bcd, .ll 37), (37, .ascii, .fixed 12), (38, .ascii, .fixed 6),
    (39, .ascii, .fixed 2), (41, .ascii, .fixed 8), (42, .ascii, .fixed 15),
    (43, .ascii, .fixed 40), (49, .bcd, .fixed 3), (52, .binary, .fixed 8),
    (54, .ascii, .lll 120), (55, .binary, .lll 255), (64, .binary, .fixed 8),
    (90, .bcd, .fixed 42), (128, .binary, .fixed 8)]

def defaultCatalog : Catalog :=
  (List.range 129).map fun de =>
    (defaultEntries.lookup (UInt8.ofNat de)).map fun (encoding, length) =>
      { de := UInt8.ofNat de, encoding, length }

-- ==== encoding

def encodePayload (spec : FieldSpec) (value : FieldValue) : Except Error Bytes :=
  match spec.encoding, value with
  | .bcd, .numeric s => bcdEncode s
  | .ascii, .numeric s | .ascii, .text s => asciiEncode s
  | .ebcdic, .numeric s | .ebcdic, .text s => ebcdicEncode s
  | .binary, .bytes b => .ok b
  | enc, val => .error (.invalidDataElement spec.de
      ("value type \"" ++ val.discriminant ++ "\" not compatible with encoding " ++ enc.debug))

/-- How the length of a variable field is written. -/
def llKind : Encoding → VarLenKind
  | .bcd | .binary => .llBcd
  | .ascii | .ebcdic => .llAscii

def lllKind : Encoding → VarLenKind
  | .bcd | .binary => .lllBcd
  | .ascii | .ebcdic => .lllAscii

/-- The bytes of a fixed field of length `n`. -/
def expectedBytes (encoding : Encoding) (n : Nat) : Nat :=
  match encoding with
  | .bcd => (n + 1) / 2
  | _ => n

def encodeField (spec : FieldSpec) (value : FieldValue) : Except Error Bytes := do
  let payload ← encodePayload spec value
  match spec.length with
  | .fixed n =>
    let expected := expectedBytes spec.encoding n
    if payload.length ≠ expected then
      .error (.invalidDataElement spec.de
        ("fixed-length DE expects " ++ toString expected ++
          " bytes, got " ++ toString payload.length))
    else .ok payload
  | .ll _ => varEncode (llKind spec.encoding) payload
  | .lll _ => varEncode (lllKind spec.encoding) payload

-- ==== decoding

def decimalNibbles (payload : Bytes) : Text :=
  ((nibbles payload).filter fun n => n ≤ 9).map digit

def decodePayload (spec : FieldSpec) (payload : Bytes) : Except Error FieldValue :=
  match spec.encoding with
  | .bcd => .ok (.numeric (decimalNibbles payload))
  | .ascii =>
    match fromUtf8? payload with
    | some s => .ok (.text s)
    | none => .error (.invalidDataElement spec.de
        "non-UTF8 payload in ASCII variable-length field")
  | .ebcdic => do
    let (s, _) ← ebcdicDecode payload 0 payload.length
    .ok (.text s)
  | .binary => .ok (.bytes payload)

def decodeVar (spec : FieldSpec) (kind : VarLenKind) (input : Bytes)
    (offset : Nat) : Except Error (FieldValue × Nat) := do
  let (payload, newOffset) ← varDecode kind input offset
  let value ← decodePayload spec payload
  .ok (value, newOffset)

def decodeField (spec : FieldSpec) (input : Bytes) (offset : Nat) :
    Except Error (FieldValue × Nat) :=
  match spec.length with
  | .fixed n =>
    match spec.encoding with
    | .bcd => do
      let (digits, newOffset) ← bcdDecode input offset n
      .ok (.numeric digits, newOffset)
    | .ascii => do
      let (s, newOffset) ← asciiDecode input offset n
      .ok (.text s, newOffset)
    | .ebcdic => do
      let (s, newOffset) ← ebcdicDecode input offset n
      .ok (.text s, newOffset)
    | .binary => do
      let (b, newOffset) ← binaryDecode input offset n
      .ok (.bytes b, newOffset)
  | .ll _ => decodeVar spec (llKind spec.encoding) input offset
  | .lll _ => decodeVar spec (lllKind spec.encoding) input offset

/-
The message frame (op-iso8583 `message.rs`): a message type indicator of
four BCD digits, the bitmaps, and each data element present in ascending
order.

The map from data elements is a function of the byte. Encoding computes
the bitmaps from the keys; decoding reads the elements the bitmaps name,
and `decodeMessage` keeps the offset it ends at, which the source drops.
-/

/-- The data elements of a message. -/
abbrev FieldMap := UInt8 → Option FieldValue

structure Iso8583Message where
  mti : UInt16
  bitmaps : Bitmaps
  fields : FieldMap

namespace Iso8583Message

def new (mti : UInt16) : Iso8583Message :=
  { mti, bitmaps := .new, fields := fun _ => none }

def set (m : Iso8583Message) (de : UInt8) (value : FieldValue) : Iso8583Message :=
  { m with
    bitmaps := m.bitmaps.set de
    fields := Function.update m.fields de (some value) }

end Iso8583Message

-- ==== the MTI

/-- `format!("{:04x}", mti)`. -/
def hex4 (mti : UInt16) : Text :=
  [mti.toNat / 4096, mti.toNat / 256 % 16, mti.toNat / 16 % 16,
    mti.toNat % 16].map Nat.digitChar

def hexValue (c : Char) : Option Nat :=
  if c.isDigit then some (c.toNat - 48)
  else if 'a' ≤ c ∧ c ≤ 'f' then some (c.toNat - 87)
  else if 'A' ≤ c ∧ c ≤ 'F' then some (c.toNat - 55)
  else none

/-- `u16::from_str_radix(s, 16)`. -/
def fromStrRadix16 (s : Text) : Option UInt16 :=
  match (withoutPlus s).mapM hexValue with
  | some (d :: ds) =>
    let value := (d :: ds).foldl (fun acc d => 16 * acc + d) 0
    if value < 2 ^ 16 then some (UInt16.ofNat value) else none
  | _ => none

-- ==== encoding

def keys (fields : FieldMap) : List UInt8 :=
  ((List.range 256).map UInt8.ofNat).filter fun de => (fields de).isSome

def bitmapsOf (fields : FieldMap) : Bitmaps :=
  (keys fields).foldl Bitmaps.set Bitmaps.new

def encodeFields (catalog : Catalog) (fields : FieldMap) : List UInt8 → Except Error Bytes
  | [] => .ok []
  | de :: des => do
    let value ← match fields de with
      | some value => .ok value
      | none => .error (.missingDataElement de)
    let spec ← lookup catalog de
    let bytes ← encodeField spec value
    let rest ← encodeFields catalog fields des
    .ok (bytes ++ rest)

def encodeWithCatalog (m : Iso8583Message) (catalog : Catalog) : Except Error Bytes := do
  let mti ← bcdEncode (hex4 m.mti)
  let bm := bitmapsOf m.fields
  let fields ← encodeFields catalog m.fields bm.iterDes
  .ok (mti ++ bm.encodeBinary ++ fields)

-- ==== decoding

/-- The loop over the data elements the bitmaps name. -/
def decodeFields (catalog : Catalog) (input : Bytes) :
    List UInt8 → Nat → FieldMap → Except Error (FieldMap × Nat)
  | [], offset, fields => .ok (fields, offset)
  | de :: des, offset, fields => do
    let spec ← lookup catalog de
    let (value, newOffset) ← decodeField spec input offset
    decodeFields catalog input des newOffset (Function.update fields de (some value))

def decodeMessage (input : Bytes) (catalog : Catalog) :
    Except Error (Iso8583Message × Nat) := do
  refuse (input.length < 2) (.unexpectedEof 0 2)
  let (mtiStr, offset) ← bcdDecode input 0 4
  let mti ← match fromStrRadix16 mtiStr with
    | some mti => .ok mti
    | none => .error (.invalidMti mtiStr)
  let (bitmaps, offset) ← Bitmaps.decodeBinary input offset
  let (fields, offset) ←
    decodeFields catalog input bitmaps.iterDes offset fun _ => none
  .ok ({ mti, bitmaps, fields }, offset)

def decodeWithCatalog (input : Bytes) (catalog : Catalog) : Except Error Iso8583Message := do
  let (m, _) ← decodeMessage input catalog
  .ok m

end OpenStandards.OpIso8583

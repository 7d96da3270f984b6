/-
The wire encodings of ISO 8583 data elements (op-iso8583 `codec.rs`,
`error.rs`): packed BCD, ASCII, the IBM-037 subset of EBCDIC, opaque
bytes, and the two- and three-digit length prefixes.

A decoder takes the whole input and an offset and returns the offset
behind what it read. Where a sum of two `usize` would overflow the input is
too short anyway. Characters without an entry in the EBCDIC table are
written as the code of the question mark; the reverse search takes the
first entry with a code.
-/
import OpenStandards.Lib.Text
import OpenStandards.Lib.Cursor

namespace OpenStandards.OpIso8583

open Lib Text

/-- The failure modes of op-iso8583 that the modelled functions use. -/
inductive Error where
  | unexpectedEof (offset needed : Nat)
  | invalidBcd (nibble : UInt8) (offset : Nat)
  | invalidAscii (byte : UInt8) (offset : Nat)
  | invalidVarLength (length max : Nat)
  | invalidMti (mti : Text)
  | unknownDataElement (de : UInt8)
  | missingDataElement (de : UInt8)
  | invalidDataElement (de : UInt8) (reason : String)
  | invalidEmvTlv (offset : Nat) (reason : String)
deriving DecidableEq

abbrev Bytes := List UInt8

-- ==== helpers

/-- The loop that refuses the first byte out of range. -/
def checkBytes (allowed : UInt8 → Bool) : Nat → Bytes → Except Error Unit
  | _, [] => .ok ()
  | offset, b :: bs =>
    if allowed b then checkBytes allowed (offset + 1) bs
    else .error (.invalidAscii b offset)

/-- `n` bytes from the offset on, or the end of the input. -/
def takeAt (input : Bytes) (offset n : Nat) : Except Error Bytes :=
  if input.length < offset + n then .error (.unexpectedEof offset n)
  else .ok ((input.drop offset).take n)

def digit (nibble : UInt8) : Char := ofByte (0x30 + nibble)

-- ==== BCD

def isAsciiDigit (b : UInt8) : Bool := 0x30 ≤ b && b ≤ 0x39

/-- Pack decimal digits, an odd number of them behind a 0. -/
def bcdEncode (digits : Text) : Except Error Bytes := do
  checkBytes isAsciiDigit 0 (utf8 digits)
  let normalized :=
    if (utf8 digits).length % 2 = 1 then 0x30 :: utf8 digits
    else utf8 digits
  .ok (pack (normalized.map (· - 0x30)))

/-- The digits of packed bytes; `skip` drops the high nibble of the first
byte. -/
def bcdDigits (skip : Bool) : Nat → Bytes → Except Error Text
  | _, [] => .ok []
  | offset, b :: bs => do
    let hi := b >>> 4
    let lo := b &&& 0x0F
    refuse (9 < hi) (.invalidBcd hi offset)
    refuse (9 < lo) (.invalidBcd lo offset)
    let rest ← bcdDigits false (offset + 1) bs
    .ok (if skip then digit lo :: rest else digit hi :: digit lo :: rest)

/-- Read `nDigits` packed decimal digits. -/
def bcdDecode (input : Bytes) (offset nDigits : Nat) : Except Error (Text × Nat) := do
  let nBytes := (nDigits + 1) / 2
  let bytes ← takeAt input offset nBytes
  let startSkip := nBytes * 2 - nDigits
  let out ← bcdDigits (startSkip = 1) offset bytes
  .ok (out, offset + nBytes)

-- ==== ASCII

def isPrintable (b : UInt8) : Bool := 0x20 ≤ b && b ≤ 0x7E

def asciiEncode (s : Text) : Except Error Bytes := do
  checkBytes isPrintable 0 (utf8 s)
  .ok (utf8 s)

/-- Read `n` printable characters. -/
def asciiDecode (input : Bytes) (offset n : Nat) : Except Error (Text × Nat) := do
  let bytes ← takeAt input offset n
  checkBytes isPrintable offset bytes
  .ok (bytes.map ofByte, offset + n)

-- ==== EBCDIC

/-- The entries of `ASCII_TO_EBCDIC_037`; the apostrophe and the
quotation mark by their codes. -/
def ebcdicEntries : List (Char × UInt8) :=
  [('0', 0xF0), ('1', 0xF1), ('2', 0xF2), ('3', 0xF3), ('4', 0xF4),
    ('5', 0xF5), ('6', 0xF6), ('7', 0xF7), ('8', 0xF8), ('9', 0xF9),
    ('A', 0xC1), ('B', 0xC2), ('C', 0xC3), ('D', 0xC4), ('E', 0xC5),
    ('F', 0xC6), ('G', 0xC7), ('H', 0xC8), ('I', 0xC9), ('J', 0xD1),
    ('K', 0xD2), ('L', 0xD3), ('M', 0xD4), ('N', 0xD5), ('O', 0xD6),
    ('P', 0xD7), ('Q', 0xD8), ('R', 0xD9), ('S', 0xE2), ('T', 0xE3),
    ('U', 0xE4), ('V', 0xE5), ('W', 0xE6), ('X', 0xE7), ('Y', 0xE8),
    ('Z', 0xE9),
    ('a', 0x81), ('b', 0x82), ('c', 0x83), ('d', 0x84), ('e', 0x85),
    ('f', 0x86), ('g', 0x87), ('h', 0x88), ('i', 0x89), ('j', 0x91),
    ('k', 0x92), ('l', 0x93), ('m', 0x94), ('n', 0x95), ('o', 0x96),
    ('p', 0x97), ('q', 0x98), ('r', 0x99), ('s', 0xA2), ('t', 0xA3),
    ('u', 0xA4), ('v', 0xA5), ('w', 0xA6), ('x', 0xA7), ('y', 0xA8),
    ('z', 0xA9),
    (' ', 0x40), ('.', 0x4B), (',', 0x6B), ('-', 0x60), ('/', 0x61),
    ('*', 0x5C), ('(', 0x4D), (')', 0x5D), (Char.ofNat 0x27, 0x7D),
    (Char.ofNat 0x22, 0x7F), ('&', 0x50), ('+', 0x4E), (':', 0x7A),
    (';', 0x5E), ('=', 0x7E), ('?', 0x6F), ('#', 0x7B), ('@', 0x7C)]

/-- The table `ASCII_TO_EBCDIC_037`. -/
def asciiToEbcdic (b : UInt8) : UInt8 :=
  (ebcdicEntries.lookup (ofByte b)).getD 0x6F

def ebcdicEncode (s : Text) : Except Error Bytes := do
  checkBytes (fun b => b ≤ 0x7F) 0 (utf8 s)
  .ok ((utf8 s).map asciiToEbcdic)

/-- The first entry of the table with the code, or a question mark. -/
def ebcdicToAscii (byte : UInt8) : Char :=
  match (List.range 128).find? fun i => asciiToEbcdic (UInt8.ofNat i) == byte
  with
  | some i => ofByte (UInt8.ofNat i)
  | none => '?'

/-- Read `n` EBCDIC characters. -/
def ebcdicDecode (input : Bytes) (offset n : Nat) : Except Error (Text × Nat) := do
  let bytes ← takeAt input offset n
  .ok (bytes.map ebcdicToAscii, offset + n)

-- ==== binary

/-- Read `n` bytes. -/
def binaryDecode (input : Bytes) (offset n : Nat) : Except Error (Bytes × Nat) := do
  let bytes ← takeAt input offset n
  .ok (bytes, offset + n)

-- ==== length prefixes

/-- How the length of a variable field is written. -/
inductive VarLenKind where
  | llBcd
  | lllBcd
  | llAscii
  | lllAscii

namespace VarLenKind

def digits : VarLenKind → Nat
  | llBcd | llAscii => 2
  | lllBcd | lllAscii => 3

def max : VarLenKind → Nat
  | llBcd | llAscii => 99
  | lllBcd | lllAscii => 999

end VarLenKind

/-- The digits of a length, as `{:02}` and `{:03}` write them. -/
def lengthText (kind : VarLenKind) (n : Nat) : Text := zeroPad kind.digits n

def encodeLength (kind : VarLenKind) (n : Nat) : Except Error Bytes :=
  match kind with
  | .llBcd | .lllBcd => bcdEncode (lengthText kind n)
  | .llAscii | .lllAscii => .ok (utf8 (lengthText kind n))

def decodeLength (kind : VarLenKind) (input : Bytes) (offset : Nat) :
    Except Error (Text × Nat) :=
  match kind with
  | .llBcd | .lllBcd => bcdDecode input offset kind.digits
  | .llAscii | .lllAscii => asciiDecode input offset kind.digits

def varEncode (kind : VarLenKind) (payload : Bytes) : Except Error Bytes := do
  refuse (kind.max < payload.length) (.invalidVarLength payload.length kind.max)
  let length ← encodeLength kind payload.length
  .ok (length ++ payload)

def varDecode (kind : VarLenKind) (input : Bytes) (offset : Nat) :
    Except Error (Bytes × Nat) := do
  let (s, newOffset) ← decodeLength kind input offset
  let len ← match parseUnsigned (2 ^ 64) s with
    | some len => .ok len
    | none => .error (.invalidVarLength 0 kind.max)
  refuse (kind.max < len) (.invalidVarLength len kind.max)
  let payload ← takeAt input newOffset len
  .ok (payload, newOffset + len)

/-
The EMV data of data element 55 (op-iso8583 `emv.rs`): a flat run of
BER-TLVs with tags of one or two bytes, between which bytes 0 are passed
over.

A reader gets the offset, which its errors name, and the bytes from there
on. Lengths are `usize`: a length field keeps its last eight bytes, and
adding it to the offset panics where the sum does not fit. As many rounds
as there are bytes are enough.
-/

/-- A tag of one or two bytes. -/
structure EmvTag where
  val : UInt16
deriving DecidableEq

def EmvTag.bytes (tag : EmvTag) : Bytes :=
  if 0xFF < tag.val then [(tag.val >>> 8).toUInt8, tag.val.toUInt8]
  else [tag.val.toUInt8]

structure EmvTlv where
  tag : EmvTag
  value : Bytes
deriving DecidableEq

def invalidTlv (offset : Nat) (reason : String) : Fault Error :=
  .err (.invalidEmvTlv offset reason)

def emvTag (first : UInt8) (offset : Nat) (rest : Bytes) :
    Except (Fault Error) (EmvTag × Nat × Bytes) :=
  if first &&& 0x1F = 0x1F then
    match rest with
    | [] => .error (invalidTlv offset "tag continuation byte missing")
    | second :: rest =>
      if second &&& 0x80 ≠ 0 then
        .error (invalidTlv (offset + 1) "3+ byte tags not supported in DE 55")
      else .ok (⟨first.toUInt16 <<< 8 ||| second.toUInt16⟩, offset + 1, rest)
  else .ok (⟨first.toUInt16⟩, offset, rest)

def shiftIn (bytes : Bytes) : Nat :=
  bytes.foldl (fun acc b => (acc * 256 + b.toNat) % 2 ^ 64) 0

def emvLength (offset : Nat) : Bytes → Except (Fault Error) (Nat × Nat × Bytes)
  | [] => .error (invalidTlv offset "length byte missing")
  | lenByte :: rest =>
    let offset := offset + 1
    if lenByte &&& 0x80 = 0 then .ok (lenByte.toNat, offset, rest)
    else do
      let n := (lenByte &&& 0x7F).toNat
      refuse (n = 0) (invalidTlv offset "indefinite-length form not allowed in EMV")
      refuse (rest.length < n) (invalidTlv offset "long-form length bytes truncated")
      .ok (shiftIn (rest.take n), offset + n, rest.drop n)

def de55Loop : Nat → Nat → Bytes → Except (Fault Error) (List EmvTlv)
  | _, _, [] => .ok []
  -- not reached: every round takes a byte
  | 0, _, _ :: _ => .ok []
  | rounds + 1, offset, first :: rest =>
    if first = 0 then de55Loop rounds (offset + 1) rest
    else do
      let (tag, offset, rest) ← emvTag first (offset + 1) rest
      let (valueLen, offset, rest) ← emvLength offset rest
      let stop ← addUsize offset valueLen
      refuse (rest.length < valueLen) (invalidTlv offset "value bytes truncated")
      let tlvs ← de55Loop rounds stop (rest.drop valueLen)
      .ok ({ tag, value := rest.take valueLen } :: tlvs)

/-- The data objects of field 55. -/
def parseDe55 (input : Bytes) : Except (Fault Error) (List EmvTlv) :=
  de55Loop input.length 0 input

/-- The length field of a value; an error names the length of the output so
far. -/
def encodeEmvLength (offset n : Nat) : Except Error Bytes :=
  if n < 0x80 then .ok [UInt8.ofNat n]
  else if n < 0x100 then .ok [0x81, UInt8.ofNat n]
  else if n < 0x10000 then
    .ok [0x82, UInt8.ofNat (n >>> 8), UInt8.ofNat n]
  else .error (.invalidEmvTlv offset
    "value too large for 2-byte length encoding")

/-- The loop over the TLVs, with the output so far. -/
def encodeTlvs : Bytes → List EmvTlv → Except Error Bytes
  | out, [] => .ok out
  | out, tlv :: tlvs => do
    let out := out ++ tlv.tag.bytes
    let len ← encodeEmvLength out.length tlv.value.length
    encodeTlvs (out ++ len ++ tlv.value) tlvs

def encodeDe55 (tlvs : List EmvTlv) : Except Error Bytes := encodeTlvs [] tlvs

end OpenStandards.OpIso8583

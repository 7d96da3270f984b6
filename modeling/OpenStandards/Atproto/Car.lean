/-
Content-addressable archives (smart-byte-atproto `car.rs`).

An archive is a header behind its length and sections behind theirs; a
section is a CID and the bytes of its block, and the CID's own bytes tell
where it ends. Lengths are varints: groups of seven bits, the lowest
first, each but the last with its high bit set.

Slices and additions go through the operations of a decoder that panics
where they are out of range. The header is written and read by
`serde_cbor`, which is from outside this repository: two parameters.
-/
import OpenStandards.Lib.Cursor

namespace OpenStandards.Atproto

open Lib

/-- The failure modes of the adapter that the modelled functions use. -/
inductive AtprotoError where
  | invalidCar (msg : String)
  | invalidCid (msg : String)
  | dagCbor (msg : String)
deriving DecidableEq

/-- What a codec ends with. -/
abbrev Coded (α : Type) := Except (Fault AtprotoError) α

def hex (n : UInt64) : String := String.ofList (Nat.toDigits 16 n.toNat)

-- ==== varints

def writeVarint (value : UInt64) : List UInt8 :=
  if 0x80 ≤ value then
    ((value.toUInt8 &&& 0x7f) ||| 0x80) :: writeVarint (value >>> 7)
  else [value.toUInt8]
termination_by value.toNat
decreasing_by
  have hle := UInt64.le_iff_toNat_le.1 (by assumption : 0x80 ≤ value)
  change 128 ≤ value.toNat at hle
  rw [UInt64.toNat_shiftRight]
  show value.toNat >>> 7 < value.toNat
  rw [Nat.shiftRight_eq_div_pow]
  omega

/-- The loop of the varint reader, `i` bytes in. -/
def readVarintFrom (value : UInt64) (shift i : Nat) : List UInt8 → Coded (UInt64 × Nat)
  | [] => .error (.err (.invalidCar "truncated varint"))
  | b :: rest =>
    if 64 ≤ shift then .error (.err (.invalidCar "varint overflow"))
    else
      let value := value ||| ((b &&& 0x7f).toUInt64 <<< UInt64.ofNat shift)
      if b &&& 0x80 = 0 then .ok (value, i + 1)
      else readVarintFrom value (shift + 7) (i + 1) rest

/-- Decode an unsigned varint: the value and the bytes consumed. -/
def readVarint (src : List UInt8) : Coded (UInt64 × Nat) :=
  readVarintFrom 0 0 0 src

-- ==== CIDs

def codecDagCbor : UInt64 := 0x71
def codecRaw : UInt64 := 0x55
def mhSha256 : UInt64 := 0x12
def cidV1 : UInt64 := 0x01

/-- A CIDv1 with a SHA-256 digest. -/
structure Cid where
  codec : UInt64
  digest : List.Vector UInt8 32
deriving DecidableEq

namespace Cid

/-- The binary form. -/
def toBytes (c : Cid) : List UInt8 :=
  writeVarint cidV1 ++ (writeVarint c.codec ++ (writeVarint mhSha256
    ++ (writeVarint 32 ++ c.digest.toList)))

/-- Parse a CID at the start of some bytes: the CID and the bytes
consumed. -/
def readFrom (src : List UInt8) : Coded (Cid × Nat) := do
  let (version, off) ← readAt readVarint src 0
  refuse (version ≠ cidV1) (.err (.invalidCid
    ("expected CIDv1, got v" ++ toString version.toNat)))
  let (codec, off) ← readAt readVarint src off
  refuse (codec ≠ codecDagCbor ∧ codec ≠ codecRaw) (.err (.invalidCid
    ("unsupported codec 0x" ++ hex codec)))
  let (mhCode, off) ← readAt readVarint src off
  refuse (mhCode ≠ mhSha256) (.err (.invalidCid ("unsupported multihash 0x" ++ hex mhCode)))
  let (mhLen, off) ← readAt readVarint src off
  refuse (mhLen ≠ 32) (.err (.invalidCid ("unexpected digest length " ++ toString mhLen.toNat)))
  let (digest, off) ←
    readFixed 32 (.invalidCid "truncated CID digest") src off
  return ({ codec, digest }, off)

end Cid

-- ==== archives

structure CarBlock where
  cid : Cid
  data : List UInt8
deriving DecidableEq

/-- An archive: the root CIDs, and the blocks in storage order. -/
structure CarFile where
  roots : List Cid
  blocks : List CarBlock
deriving DecidableEq

/-- The header on the wire. -/
structure CarHeader where
  version : UInt64
  roots : List (List UInt8)
deriving DecidableEq

def CarBlock.sectionBytes (block : CarBlock) : List UInt8 :=
  let cidBytes := block.cid.toBytes
  writeVarint (UInt64.ofNat (cidBytes.length + block.data.length)) ++ (cidBytes ++ block.data)

/-- One turn of the block loop: the block and what is left. -/
def readBlock (src : List UInt8) : Coded (CarBlock × List UInt8) := do
  let (blockLen, n) ← readVarint src
  let src ← sliceFrom src n
  refuse (src.length < blockLen.toNat) (.err (.invalidCar "truncated block"))
  let chunk ← slice src 0 blockLen.toNat
  let (cid, cidN) ← Cid.readFrom chunk
  let data ← sliceFrom chunk cidN
  let rest ← sliceFrom src blockLen.toNat
  return ({ cid, data }, rest)

/-- The block loop. Each turn takes a byte at least, so it is never asked
for more turns than it is allowed. -/
def readBlocks : Nat → List UInt8 → Coded (List CarBlock)
  | _, [] => .ok []
  | 0, _ :: _ => .error .panic
  | turns + 1, b :: src => do
    let (block, rest) ← readBlock (b :: src)
    let blocks ← readBlocks turns rest
    return block :: blocks

namespace CarFile

def header (c : CarFile) : CarHeader :=
  { version := 1, roots := c.roots.map Cid.toBytes }

section

variable (toVec : CarHeader → Except String (List UInt8))
  (fromSlice : List UInt8 → Except String CarHeader)

/-- Encode an archive. The vector is made for 256 bytes a block and holds
at most `isize::MAX` bytes. -/
def encode (c : CarFile) : Coded (List UInt8) := do
  refuse (2 ^ 63 ≤ 64 + c.blocks.length * 256) .panic
  let headerBytes ← (toVec c.header).mapError fun msg => .err (.dagCbor msg)
  let out := writeVarint (UInt64.ofNat headerBytes.length)
    ++ (headerBytes ++ c.blocks.flatMap CarBlock.sectionBytes)
  refuse (2 ^ 63 ≤ out.length) .panic
  return out

def decode (src : List UInt8) : Coded CarFile := do
  let (headerLen, n) ← readVarint src
  let src ← sliceFrom src n
  refuse (src.length < headerLen.toNat) (.err (.invalidCar "truncated header"))
  let headerBytes ← slice src 0 headerLen.toNat
  let header ← (fromSlice headerBytes).mapError fun msg =>
    .err (.dagCbor msg)
  refuse (header.version ≠ 1) (.err (.invalidCar
    ("unsupported CAR version " ++ toString header.version.toNat)))
  let src ← sliceFrom src headerLen.toNat
  let roots ← header.roots.mapM fun r => do
    let (cid, _) ← Cid.readFrom r
    return cid
  let blocks ← readBlocks src.length src
  return { roots, blocks }

end

end CarFile

end OpenStandards.Atproto

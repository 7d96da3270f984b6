/-
STREAM packets and BTP messages (smart-byte-ilp `stream.rs`, `btp.rs`).

Both formats count their items in front of them. The head of a packet is
decoded on its own: the count it ends with is what the source reserves
room for before it reads the first item.
-/
import OpenStandards.Ilp.Packet

namespace OpenStandards.Ilp

open Lib

/-- `Vec::with_capacity` for so many items of so many bytes each: it panics
where they come to more than `isize::MAX` bytes. -/
def withCapacity (itemSize count : Nat) : Decoded Unit :=
  if count * itemSize < 2 ^ 63 then .ok () else .error .panic

-- ==== STREAM

/-- STREAM frame types. -/
inductive FrameType where
  | connectionClose
  | connectionNewAddress
  | connectionAssetDetails
  | connectionMaxData
  | connectionDataBlocked
  | connectionMaxStreamId
  | connectionStreamIdBlocked
  | streamClose
  | streamMoney
  | streamMaxMoney
  | streamMoneyBlocked
  | streamData
  | streamMaxData
  | streamDataBlocked
  | streamReceipt
deriving DecidableEq

namespace FrameType

def toU8 : FrameType → UInt8
  | .connectionClose => 0x01
  | .connectionNewAddress => 0x02
  | .connectionAssetDetails => 0x03
  | .connectionMaxData => 0x04
  | .connectionDataBlocked => 0x05
  | .connectionMaxStreamId => 0x06
  | .connectionStreamIdBlocked => 0x07
  | .streamClose => 0x10
  | .streamMoney => 0x11
  | .streamMaxMoney => 0x12
  | .streamMoneyBlocked => 0x13
  | .streamData => 0x14
  | .streamMaxData => 0x15
  | .streamDataBlocked => 0x16
  | .streamReceipt => 0x17

def fromU8 (b : UInt8) : Decoded FrameType :=
  if b = 0x01 then .ok .connectionClose
  else if b = 0x02 then .ok .connectionNewAddress
  else if b = 0x03 then .ok .connectionAssetDetails
  else if b = 0x04 then .ok .connectionMaxData
  else if b = 0x05 then .ok .connectionDataBlocked
  else if b = 0x06 then .ok .connectionMaxStreamId
  else if b = 0x07 then .ok .connectionStreamIdBlocked
  else if b = 0x10 then .ok .streamClose
  else if b = 0x11 then .ok .streamMoney
  else if b = 0x12 then .ok .streamMaxMoney
  else if b = 0x13 then .ok .streamMoneyBlocked
  else if b = 0x14 then .ok .streamData
  else if b = 0x15 then .ok .streamMaxData
  else if b = 0x16 then .ok .streamDataBlocked
  else if b = 0x17 then .ok .streamReceipt
  else .error (.err (.unknownStreamFrame b))

end FrameType

structure Frame where
  frameType : FrameType
  payload : List UInt8
deriving DecidableEq

structure StreamPacket where
  version : UInt8
  ilpPacketType : UInt8
  sequence : UInt64
  prepareAmount : UInt64
  frames : List Frame
deriving DecidableEq

def encodeFrame (frame : Frame) : List UInt8 :=
  frame.frameType.toU8 :: encodeVarOctetString frame.payload

def readFrame (input : List UInt8) (cursor : Nat) : Decoded (Frame × Nat) := do
  refuse (input.length ≤ cursor) (.err (.invalidPacket "stream frame header truncated"))
  let typeByte ← byteAt input cursor
  let frameType ← FrameType.fromU8 typeByte
  let cursor ← addUsize cursor 1
  let (payload, cursor) ← readAt decodeVarOctetString input cursor
  return ({ frameType, payload }, cursor)

/-- What stands before the frames. -/
structure StreamHead where
  version : UInt8
  ilpPacketType : UInt8
  sequence : UInt64
  prepareAmount : UInt64
  nFrames : Nat

namespace StreamPacket

def encode (p : StreamPacket) : List UInt8 :=
  p.version :: p.ilpPacketType :: (encodeU64 p.sequence
    ++ (encodeU64 p.prepareAmount ++ (encodeLength p.frames.length
      ++ p.frames.flatMap encodeFrame)))

def decodeHead (input : List UInt8) : Decoded (StreamHead × Nat) := do
  refuse (input.length < 2) (.err (.invalidPacket "stream packet header"))
  let version ← byteAt input 0
  let ilpPacketType ← byteAt input 1
  let (sequence, cursor) ← readAt decodeU64 input 2
  let (prepareAmount, cursor) ← readAt decodeU64 input cursor
  let (nFrames, cursor) ← readAt decodeLength input cursor
  return ({ version, ilpPacketType, sequence, prepareAmount, nFrames }, cursor)

def decode (input : List UInt8) : Decoded StreamPacket := do
  let (head, cursor) ← decodeHead input
  let (frames, _) ← readMany (readFrame input) head.nFrames cursor
  return { version := head.version, ilpPacketType := head.ilpPacketType
           sequence := head.sequence, prepareAmount := head.prepareAmount
           frames }

def decodeReserving (frameSize : Nat) (input : List UInt8) : Decoded StreamPacket := do
  let (head, cursor) ← decodeHead input
  withCapacity frameSize head.nFrames
  let (frames, _) ← readMany (readFrame input) head.nFrames cursor
  return { version := head.version, ilpPacketType := head.ilpPacketType
           sequence := head.sequence, prepareAmount := head.prepareAmount
           frames }

end StreamPacket

-- ==== BTP

/-- BTP packet types. -/
inductive BtpPacketType where
  | response
  | errorResponse
  | message
  | transfer

namespace BtpPacketType

def toU8 : BtpPacketType → UInt8
  | .response => 1
  | .errorResponse => 2
  | .message => 6
  | .transfer => 7

def fromU8 (b : UInt8) : Decoded BtpPacketType :=
  if b = 1 then .ok .response
  else if b = 2 then .ok .errorResponse
  else if b = 6 then .ok .message
  else if b = 7 then .ok .transfer
  else .error (.err (.unknownBtpPacketType b))

end BtpPacketType

/-- The content type of a sub-protocol payload. -/
inductive ContentType where
  | octetStream
  | textPlain
  | json

namespace ContentType

def toU8 : ContentType → UInt8
  | .octetStream => 0
  | .textPlain => 1
  | .json => 2

/-- Unknown values fall back to `octetStream`. -/
def fromU8 (b : UInt8) : ContentType :=
  if b = 1 then .textPlain else if b = 2 then .json else .octetStream

end ContentType

structure BtpSubProtocol where
  name : String
  contentType : ContentType
  data : List UInt8

structure BtpMessage where
  packetType : BtpPacketType
  requestId : UInt32
  subProtocols : List BtpSubProtocol

def encodeSubProtocol (sp : BtpSubProtocol) : List UInt8 :=
  encodeVarOctetString (utf8Bytes sp.name)
    ++ (sp.contentType.toU8 :: encodeVarOctetString sp.data)

def readSubProtocol (body : List UInt8) (cursor : Nat) : Decoded (BtpSubProtocol × Nat) := do
  let (nameBytes, cursor) ← readAt decodeVarOctetString body cursor
  let name ← fromUtf8 "btp sp name" nameBytes
  refuse (body.length ≤ cursor) (.err (.invalidPacket "btp sp content_type missing"))
  let typeByte ← byteAt body cursor
  let contentType := ContentType.fromU8 typeByte
  let cursor ← addUsize cursor 1
  let (data, cursor) ← readAt decodeVarOctetString body cursor
  return ({ name, contentType, data }, cursor)

/-- What stands before the sub-protocols, and the body they stand in. -/
structure BtpHead where
  packetType : BtpPacketType
  requestId : UInt32
  body : List UInt8
  nSubProtocols : Nat

namespace BtpMessage

def encodeBody (m : BtpMessage) : List UInt8 :=
  encodeLength m.subProtocols.length ++ m.subProtocols.flatMap encodeSubProtocol

def encode (m : BtpMessage) : List UInt8 :=
  m.packetType.toU8 :: (encodeU32 m.requestId
    ++ (encodeLength m.encodeBody.length ++ m.encodeBody))

def decodeHead (input : List UInt8) : Decoded (BtpHead × Nat) := do
  refuse (input = []) (.err (.invalidPacket "btp empty"))
  let typeByte ← byteAt input 0
  let packetType ← BtpPacketType.fromU8 typeByte
  let (requestId, cursor) ← readAt decodeU32 input 1
  let (bodyLen, cursor) ← readAt decodeLength input cursor
  -- `checked_add`
  refuse (2 ^ 64 ≤ cursor + bodyLen) (.err (.invalidPacket "btp body overflow"))
  refuse (input.length < cursor + bodyLen) (.err (.invalidPacket "btp body truncated"))
  let body ← slice input cursor (cursor + bodyLen)
  let (nSubProtocols, cursor) ← readAt decodeLength body 0
  return ({ packetType, requestId, body, nSubProtocols }, cursor)

def decode (input : List UInt8) : Decoded BtpMessage := do
  let (head, cursor) ← decodeHead input
  let (subProtocols, _) ←
    readMany (readSubProtocol head.body) head.nSubProtocols cursor
  return { packetType := head.packetType, requestId := head.requestId
           subProtocols }

def decodeReserving (subProtocolSize : Nat) (input : List UInt8) : Decoded BtpMessage := do
  let (head, cursor) ← decodeHead input
  withCapacity subProtocolSize head.nSubProtocols
  let (subProtocols, _) ←
    readMany (readSubProtocol head.body) head.nSubProtocols cursor
  return { packetType := head.packetType, requestId := head.requestId
           subProtocols }

end BtpMessage

end OpenStandards.Ilp

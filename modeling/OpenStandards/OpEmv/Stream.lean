/-
The streaming TLV reader of op-emv (`tag.rs`, `stream.rs`): an iterator
over a byte slice that yields one TLV after the other, or an error once
and then nothing.

Tags have up to four bytes and length fields up to four after the first;
bytes 0 between TLVs are passed over. Offsets in errors are those of the
slice plus the base offset the iterator was made with.
-/
import OpenStandards.Lib.Bytes
import OpenStandards.Lib.Fallible

namespace OpenStandards.OpEmv

open Lib

abbrev Bytes := List UInt8

/-- The failure modes of op-emv that the modelled functions use. -/
inductive Error where
  | unexpectedEof (offset : Nat)
  | tagTooLong (offset : Nat)
  | indefiniteLength (offset : Nat)
  | lengthTooLong (bytes offset : Nat)
  | lengthExceedsBuffer (declared remaining offset : Nat)
deriving DecidableEq

-- ==== tags

inductive TagClass where
  | universal
  | application
  | contextSpecific
  | private_

def TagClass.fromFirstByte (b : UInt8) : TagClass :=
  if b >>> 6 = 0b00 then .universal
  else if b >>> 6 = 0b01 then .application
  else if b >>> 6 = 0b10 then .contextSpecific
  else .private_

/-- A tag of up to four bytes, the first one most significant. -/
structure Tag where
  val : UInt32
deriving DecidableEq

namespace Tag

def wireLen (tag : Tag) : Nat :=
  if 0x00FFFFFF < tag.val then 4
  else if 0x0000FFFF < tag.val then 3
  else if 0x000000FF < tag.val then 2
  else 1

def bytes (tag : Tag) : Bytes :=
  (beBytes 4 tag.val.toNat).drop (4 - tag.wireLen)

/-- The loop `while t > 0xFF`, which a number of 32 bits leaves after three
rounds. -/
def firstByteLoop : Nat → UInt32 → UInt32
  | 0, t => t
  | rounds + 1, t => if 0xFF < t then firstByteLoop rounds (t >>> 8) else t

def firstByte (tag : Tag) : UInt8 := (firstByteLoop 3 tag.val).toUInt8

def class_ (tag : Tag) : TagClass := .fromFirstByte tag.firstByte

/-- The value is itself a sequence of TLVs. -/
def isConstructed (tag : Tag) : Bool := tag.firstByte &&& 0x20 != 0

/-- The loop over the continuation bytes. -/
def readMore (start : Nat) : UInt32 → Nat → Bytes → Except Error (Tag × Nat)
  | _, consumed, [] => .error (.unexpectedEof (start + consumed))
  | value, consumed, b :: rest =>
    let value := value <<< 8 ||| b.toUInt32
    if 4 < consumed + 1 then .error (.tagTooLong start)
    else if b &&& 0x80 = 0 then .ok (⟨value⟩, consumed + 1)
    else readMore start value (consumed + 1) rest

def read (buf : Bytes) (start : Nat) : Except Error (Tag × Nat) :=
  match buf.drop start with
  | [] => .error (.unexpectedEof start)
  | first :: rest =>
    if first &&& 0x1F ≠ 0x1F then .ok (⟨first.toUInt32⟩, 1)
    else readMore start first.toUInt32 1 rest

/-- Write a tag over the first bytes of a buffer: their number, and the
buffer after it. -/
def write (tag : Tag) (buf : Bytes) : Except Error (Nat × Bytes) :=
  if buf.length < tag.wireLen then
    .error (.lengthExceedsBuffer tag.wireLen buf.length 0)
  else .ok (tag.wireLen, tag.bytes ++ buf.drop tag.wireLen)

end Tag

-- ==== iterator

/-- One TLV of a buffer. -/
structure TlvRef where
  tag : Tag
  value : Bytes
  offset : Nat
  valueOffset : Nat

structure TlvIter where
  buf : Bytes
  pos : Nat
  baseOffset : Nat
  failed : Bool

namespace TlvIter

def new (buf : Bytes) : TlvIter :=
  { buf, pos := 0, baseOffset := 0, failed := false }

def withBaseOffset (buf : Bytes) (baseOffset : Nat) : TlvIter :=
  { buf, pos := 0, baseOffset, failed := false }

/-- Read a length field; the position is behind what was read. -/
def readLength (it : TlvIter) : Except Error Nat × TlvIter :=
  match it.buf.drop it.pos with
  | [] => (.error (.unexpectedEof (it.baseOffset + it.pos)), it)
  | first :: rest =>
    let it := { it with pos := it.pos + 1 }
    if first &&& 0x80 = 0 then (.ok first.toNat, it)
    else
      let nBytes := (first &&& 0x7F).toNat
      if nBytes = 0 then
        (.error (.indefiniteLength (it.baseOffset + it.pos - 1)), it)
      else if 4 < nBytes then
        (.error (.lengthTooLong nBytes (it.baseOffset + it.pos - 1)), it)
      else if it.buf.length < it.pos + nBytes then
        (.error (.unexpectedEof (it.baseOffset + it.pos + nBytes)), it)
      else
        (.ok (ofBeBytes (rest.take nBytes)),
          { it with pos := it.pos + nBytes })

/-- Move over the bytes 0 at the position. -/
def skipPadding (it : TlvIter) : TlvIter :=
  { it with
    pos := it.pos + ((it.buf.drop it.pos).takeWhile (· == 0)).length }

def rebase (baseOffset : Nat) : Error → Error
  | .unexpectedEof offset => .unexpectedEof (baseOffset + offset)
  | .tagTooLong offset => .tagTooLong (baseOffset + offset)
  | other => other

def nextValue (it : TlvIter) (entryStart : Nat) (tag : Tag) :
    Option (Except Error TlvRef) × TlvIter :=
  match it.readLength with
  | (.error e, it) => (some (.error e), { it with failed := true })
  | (.ok length, it) =>
    let remaining := it.buf.length - it.pos
    if remaining < length then
      (some (.error (.lengthExceedsBuffer length remaining
        (it.baseOffset + it.pos))), { it with failed := true })
    else
      (some (.ok
        { tag
          value := (it.buf.drop it.pos).take length
          offset := it.baseOffset + entryStart
          valueOffset := it.baseOffset + it.pos }),
        { it with pos := it.pos + length })

/-- `Iterator::next`. -/
def next (it : TlvIter) : Option (Except Error TlvRef) × TlvIter :=
  if it.failed then (none, it)
  else
    let it := it.skipPadding
    if it.buf.length ≤ it.pos then (none, it)
    else
      match Tag.read it.buf it.pos with
      | .error e => (some (.error (rebase it.baseOffset e)),
          { it with failed := true })
      | .ok (tag, tagLen) =>
        nextValue { it with pos := it.pos + tagLen } it.pos tag

/-- What the iterator yields until it is exhausted. -/
inductive Yields : TlvIter → List (Except Error TlvRef) → Prop
  | done {it it' : TlvIter} (h : it.next = (none, it')) : Yields it []
  | more {it it' : TlvIter} {r : Except Error TlvRef}
      {rs : List (Except Error TlvRef)} (h : it.next = (some r, it'))
      (hrest : Yields it' rs) : Yields it (r :: rs)

-- ------------------------------------------------------- what next consumes

variable {it it' : TlvIter}

theorem readLength_ok {length : Nat} (h : it.readLength = (.ok length, it')) :
    it'.buf = it.buf ∧ it'.baseOffset = it.baseOffset
      ∧ it'.failed = it.failed ∧ it.pos < it'.pos
      ∧ it'.pos ≤ it.buf.length := by
  unfold readLength at h
  split at h
  · cases h
  · next first rest hdrop =>
      have hlen := congrArg List.length hdrop
      rw [List.length_drop, List.length_cons] at hlen
      dsimp only at h
      by_cases hshort : first &&& 0x80 = 0
      · rw [if_pos hshort] at h
        cases h
        exact ⟨rfl, rfl, rfl, Nat.lt_succ_self _, by show it.pos + 1 ≤ _; omega⟩
      · rw [if_neg hshort] at h
        split at h
        · cases h
        split at h
        · cases h
        split at h
        · cases h
        · next henough =>
            cases h
            refine ⟨rfl, rfl, rfl, ?_, ?_⟩
            · show it.pos < it.pos + 1 + _
              omega
            · exact Nat.le_of_not_lt henough

/-- An item that is yielded: where it starts, where its value starts, and
that its value ends where the iterator stands. -/
theorem next_ok {r : TlvRef} (h : it.next = (some (.ok r), it')) :
    it'.buf = it.buf ∧ it'.baseOffset = it.baseOffset ∧ it'.failed = false
      ∧ ∃ start, r.offset = it.baseOffset + it.skipPadding.pos
      ∧ it.skipPadding.pos < start ∧ r.valueOffset = it.baseOffset + start
      ∧ r.value = (it.buf.drop start).take r.value.length
      ∧ it'.pos = start + r.value.length ∧ it'.pos ≤ it.buf.length := by
  unfold next at h
  split at h
  · cases h
  · next hok =>
      dsimp only at h
      split at h
      · cases h
      · split at h
        · cases h
        · next tag tagLen hread =>
            unfold nextValue at h
            split at h
            · cases h
            · next length it₁ hlength =>
                obtain ⟨hbuf, hbase, hfailed, hpos, hle⟩ := readLength_ok hlength
                dsimp only at h
                split at h
                · cases h
                · next hremaining =>
                    cases h
                    have hbuf : it₁.buf = it.buf := hbuf
                    have hbase : it₁.baseOffset = it.baseOffset := hbase
                    have hpos : it.skipPadding.pos + tagLen < it₁.pos := hpos
                    have hle : it₁.pos ≤ it.buf.length := hle
                    have hvalue : ((it₁.buf.drop it₁.pos).take length).length = length := by
                      rw [hbuf] at hremaining ⊢
                      rw [List.length_take, List.length_drop]
                      omega
                    refine ⟨hbuf, hbase, ?_, it₁.pos, ?_, by omega, ?_, ?_, ?_,
                      ?_⟩
                    · rw [hfailed]
                      exact Bool.eq_false_iff.2 hok
                    · show it₁.baseOffset + _ = _
                      rw [hbase]
                    · show it₁.baseOffset + _ = _
                      rw [hbase]
                    · rw [hvalue, hbuf]
                    · show it₁.pos + length = it₁.pos + _
                      rw [hvalue]
                    · show it₁.pos + length ≤ _
                      rw [hbuf] at hremaining
                      omega

/-- The bytes in front of an iterator. -/
def remaining (it : TlvIter) : Nat := it.buf.length - it.pos

/-- An item takes more bytes than its value has, and they are not yielded
again. -/
theorem remaining_next {r : TlvRef} (h : it.next = (some (.ok r), it')) :
    r.value.length < it.remaining ∧ it'.remaining < it.remaining := by
  obtain ⟨hbuf, -, -, start, -, hstart, -, -, hpos, hle⟩ := next_ok h
  have hskip : it.pos ≤ it.skipPadding.pos := Nat.le_add_right ..
  unfold remaining
  rw [hbuf]
  omega

end TlvIter

/-
The owned TLV tree of op-emv (`tree.rs`): the items of a buffer, and under
each constructed one the items of its value, down to the primitive ones.

Both recursions, over the items of a level and into their values, take
bytes off the buffer: an item's value is shorter than what was in front of
the iterator.
-/

mutual

/-- A TLV with a byte payload or with children. -/
inductive Tlv where
  | mk (tag : Tag) (body : TlvBody)

inductive TlvBody where
  | primitive (value : Bytes)
  | constructed (children : List Tlv)

end

namespace Tlv

mutual

/-- The loop over an iterator, up to the first error. -/
def fromIter (it : TlvIter) : Except Error (List Tlv) :=
  match _h : it.next with
  | (none, _) => .ok []
  | (some (.error e), _) => .error e
  | (some (.ok r), it') => do
    let tlv ← fromRef r
    let tlvs ← fromIter it'
    .ok (tlv :: tlvs)
termination_by (it.remaining, 0)
decreasing_by
  · exact Prod.Lex.left _ _ (TlvIter.remaining_next _h).1
  · exact Prod.Lex.left _ _ (TlvIter.remaining_next _h).2

/-- An owned TLV from a borrowed one. -/
def fromRef (r : TlvRef) : Except Error Tlv :=
  if r.tag.isConstructed then do
    let children ← fromIter (.withBaseOffset r.value r.valueOffset)
    .ok ⟨r.tag, .constructed children⟩
  else .ok ⟨r.tag, .primitive r.value⟩
termination_by (r.value.length, 1)
decreasing_by exact Prod.Lex.right _ Nat.one_pos

end

/-- All data objects, nested ones included. -/
def parseAll (buf : Bytes) : Except Error (List Tlv) := fromIter (.new buf)

end Tlv

end OpenStandards.OpEmv

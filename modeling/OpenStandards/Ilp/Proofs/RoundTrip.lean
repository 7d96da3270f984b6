/-
The wire formats read back what they write.

Each body is a sequence of fields, and each field reads back wherever it
stands; the decoders are walked with the cursor standing before the
fields that are left. The only condition is that the encoding fits a
vector, which holds at most `isize::MAX` bytes.
-/
import OpenStandards.Ilp.Stream
import OpenStandards.Ilp.Proofs.Oer

namespace OpenStandards.Ilp

open Lib

def FitsVec (bytes : List UInt8) : Prop := bytes.length < 2 ^ 63

-- ==== packets

theorem packetType_fromU8_toU8 (ty : PacketType) : PacketType.fromU8 ty.toU8 = .ok ty := by
  cases ty <;> rfl

theorem rejectCode_fromStr_asStr (code : RejectCode) :
    RejectCode.fromStr code.asStr = code := by
  cases code <;> decide +kernel

theorem length_asStr (code : RejectCode) : (utf8Bytes code.asStr).length = 3 := by
  cases code <;> decide +kernel

variable {body : List UInt8}

theorem decodePrepareBody_of_at {p : Prepare} (hat : At body 0 (encodePrepareBody p)) :
    decodePrepareBody body = .ok p := by
  obtain ⟨c₁, h₁, hat₁⟩ := reads_u64 p.amount body 0 _ hat
  obtain ⟨c₂, h₂, hat₂⟩ := reads_readFixed
    (IlpError.invalidPacket "expires_at truncated") p.expiresAt body c₁ _ hat₁
  obtain ⟨c₃, h₃, hat₃⟩ := reads_readFixed
    (IlpError.invalidPacket "condition truncated") p.condition.bytes body c₂ _ hat₂
  obtain ⟨c₄, h₄, hat₄⟩ := reads_varOctetString (utf8Bytes p.destination.raw) body c₃ _ hat₃
  obtain ⟨c₅, h₅⟩ := (reads_varOctetString p.data body).last hat₄
  simp only [decodePrepareBody, h₁, h₂, h₃, h₄, h₅, ok_bind,
    fromUtf8_utf8Bytes, Address.parse_raw]
  rfl

theorem decodeFulfillBody_of_at {f : Fulfill} (hat : At body 0 (encodeFulfillBody f)) :
    decodeFulfillBody body = .ok f := by
  obtain ⟨c₁, h₁, hat₁⟩ := reads_readFixed
    (IlpError.invalidPacket "fulfillment truncated") f.fulfillment.bytes body 0 _ hat
  obtain ⟨c₂, h₂⟩ := (reads_varOctetString f.data body).last hat₁
  simp only [decodeFulfillBody, h₁, h₂, ok_bind]
  rfl

theorem decodeRejectBody_of_at {r : Reject} (hat : At body 0 (encodeRejectBody r)) :
    decodeRejectBody body = .ok r := by
  obtain ⟨c₁, h₁, hat₁⟩ := reads_readFixed
    (IlpError.invalidPacket "reject code truncated")
    ⟨utf8Bytes r.code.asStr, length_asStr r.code⟩ body 0 _ hat
  obtain ⟨c₂, h₂, hat₂⟩ := reads_varOctetString (utf8Bytes r.triggeredBy) body c₁ _ hat₁
  obtain ⟨c₃, h₃, hat₃⟩ := reads_varOctetString (utf8Bytes r.message) body c₂ _ hat₂
  obtain ⟨c₄, h₄⟩ := (reads_varOctetString r.data body).last hat₃
  have hcode : fromUtf8 "reject code" (List.Vector.toList
      ⟨utf8Bytes r.code.asStr, length_asStr r.code⟩) = .ok r.code.asStr :=
    fromUtf8_utf8Bytes ..
  simp only [decodeRejectBody, h₁, h₂, h₃, h₄, hcode, ok_bind,
    fromUtf8_utf8Bytes, rejectCode_fromStr_asStr]
  rfl

theorem decode_header {ty : PacketType} {body : List UInt8}
    (h : FitsVec (encodeWithHeader ty body)) :
    IlpPacket.decode (encodeWithHeader ty body)
      = match ty with
        | .prepare => (decodePrepareBody body).map .prepare
        | .fulfill => (decodeFulfillBody body).map .fulfill
        | .reject => (decodeRejectBody body).map .reject := by
  have hat : At (encodeWithHeader ty body) 0
      ([ty.toU8] ++ (encodeLength body.length ++ body)) :=
    At.start (h.trans_le (by norm_num))
  have hlen : body.length < 2 ^ 63 := by
    unfold FitsVec encodeWithHeader at h
    simp only [List.length_cons, List.length_append] at h
    omega
  obtain ⟨c₁, h₁, hat₁⟩ := reads_length body.length (by omega) _ _ _ hat.move
  have hslice := (hat₁.append_nil).slice_eq (ε := IlpError)
  have hend := hat₁.length_eq
  have hfits := hat₁.fits
  have hlength : readAt decodeLength
      (ty.toU8 :: (encodeLength body.length ++ body)) 1 = .ok (body.length, c₁) := h₁
  unfold encodeWithHeader at hslice hend hfits ⊢
  have hoverflow : ¬ 2 ^ 64 ≤ c₁ + body.length := by omega
  have htruncated : ¬ (ty.toU8 :: (encodeLength body.length ++ body)).length
      < c₁ + body.length := by omega
  simp only [IlpPacket.decode, packetType_fromU8_toU8, ok_bind, hlength,
    refuse, if_neg hoverflow, if_neg htruncated, hslice]
  cases ty with
  | prepare => cases decodePrepareBody body <;> rfl
  | fulfill => cases decodeFulfillBody body <;> rfl
  | reject => cases decodeRejectBody body <;> rfl

theorem ilpPacket_decode_encode {p : IlpPacket} (h : FitsVec p.encode) :
    IlpPacket.decode p.encode = .ok p := by
  have hbody : ∀ {ty : PacketType} {body : List UInt8},
      FitsVec (encodeWithHeader ty body) → At body 0 body := by
    intro ty body hfits
    refine At.start (lt_of_le_of_lt ?_ (hfits.trans (by norm_num)))
    unfold encodeWithHeader
    simp only [List.length_cons, List.length_append]
    omega
  cases p with
  | prepare p =>
    unfold IlpPacket.encode at h ⊢
    rw [decode_header h]
    dsimp only
    rw [decodePrepareBody_of_at (hbody h)]
    rfl
  | fulfill f =>
    unfold IlpPacket.encode at h ⊢
    rw [decode_header h]
    dsimp only
    rw [decodeFulfillBody_of_at (hbody h)]
    rfl
  | reject r =>
    unfold IlpPacket.encode at h ⊢
    rw [decode_header h]
    dsimp only
    rw [decodeRejectBody_of_at (hbody h)]
    rfl

-- ==== STREAM

theorem frameType_fromU8_toU8 (ty : FrameType) : FrameType.fromU8 ty.toU8 = .ok ty := by
  cases ty <;> rfl

theorem reads_frame (frame : Frame) (input : List UInt8) :
    Reads input (readFrame input) (encodeFrame frame) frame := by
  intro cursor rest hat
  have htype : At input cursor
      ([frame.frameType.toU8] ++ (encodeVarOctetString frame.payload ++ rest)) :=
    hat
  have hlen := hat.length_eq
  obtain ⟨c₁, h₁, hat₁⟩ :=
    reads_varOctetString frame.payload input _ _ htype.move
  refine ⟨c₁, ?_, hat₁⟩
  have hthere : ¬ input.length ≤ cursor := by
    unfold encodeFrame at hlen
    simp only [List.cons_append, List.length_cons] at hlen
    omega
  have hbyte := At.byteAt_eq (ε := IlpError) hat
  have hadd := htype.addUsize_eq (ε := IlpError)
  simp only [List.length_singleton] at hadd h₁
  simp only [readFrame, refuse, if_neg hthere, ok_bind, hbyte, frameType_fromU8_toU8, hadd, h₁]
  rfl

theorem length_flatMap_ge {α : Type} {encode : α → List UInt8}
    (h : ∀ x, 1 ≤ (encode x).length) (xs : List α) :
    xs.length ≤ (xs.flatMap encode).length := by
  induction xs with
  | nil => exact Nat.le_refl _
  | cons x xs ih =>
    have := h x
    rw [List.flatMap_cons, List.length_append, List.length_cons]
    omega

theorem one_le_length_encodeFrame (frame : Frame) : 1 ≤ (encodeFrame frame).length := by
  unfold encodeFrame
  rw [List.length_cons]
  omega

theorem streamPacket_decode_encode {p : StreamPacket}
    (h : FitsVec p.encode) : StreamPacket.decode p.encode = .ok p := by
  have hcount := length_flatMap_ge one_le_length_encodeFrame p.frames
  have hlen : p.encode.length
      = 2 + ((encodeU64 p.sequence).length
        + ((encodeU64 p.prepareAmount).length
          + ((encodeLength p.frames.length).length
            + (p.frames.flatMap encodeFrame).length))) := by
    unfold StreamPacket.encode
    simp only [List.length_cons, List.length_append]
    omega
  have hfits : p.encode.length < 2 ^ 63 := h
  have hat : At p.encode 0 ([p.version, p.ilpPacketType]
      ++ (encodeU64 p.sequence ++ (encodeU64 p.prepareAmount
        ++ (encodeLength p.frames.length ++ p.frames.flatMap encodeFrame)))) :=
    At.start (hfits.trans (by norm_num))
  have hversion : (byteAt p.encode 0 : Decoded _) = .ok p.version := rfl
  have htype : (byteAt p.encode 1 : Decoded _) = .ok p.ilpPacketType := rfl
  generalize p.encode = input at hat hversion htype hlen hfits
  obtain ⟨c₁, h₁, hat₁⟩ := reads_u64 p.sequence _ _ _ hat.move
  obtain ⟨c₂, h₂, hat₂⟩ := reads_u64 p.prepareAmount _ _ _ hat₁
  obtain ⟨c₃, h₃, hat₃⟩ :=
    reads_length p.frames.length (by omega) _ _ _ hat₂
  obtain ⟨c₄, h₄⟩ :=
    (reads_many fun frame _ => reads_frame frame input).last hat₃
  have hhead : ¬ input.length < 2 := by omega
  have hstart : 0 + [p.version, p.ilpPacketType].length = 2 := rfl
  rw [hstart] at h₁
  simp only [StreamPacket.decode, StreamPacket.decodeHead, refuse,
    if_neg hhead, ok_bind, hversion, htype, h₁, h₂, h₃, pure_bind, h₄]
  rfl

-- ==== BTP

theorem btpPacketType_fromU8_toU8 (ty : BtpPacketType) :
    BtpPacketType.fromU8 ty.toU8 = .ok ty := by
  cases ty <;> rfl

theorem contentType_fromU8_toU8 (ty : ContentType) : ContentType.fromU8 ty.toU8 = ty := by
  cases ty <;> rfl

theorem reads_subProtocol (sp : BtpSubProtocol) (body : List UInt8) :
    Reads body (readSubProtocol body) (encodeSubProtocol sp) sp := by
  intro cursor rest hat
  unfold encodeSubProtocol at hat
  rw [List.append_assoc] at hat
  obtain ⟨c₁, h₁, hat₁⟩ :=
    reads_varOctetString (utf8Bytes sp.name) body _ _ hat
  have htype : At body c₁ ([sp.contentType.toU8] ++ (encodeVarOctetString sp.data ++ rest)) :=
    hat₁
  obtain ⟨c₂, h₂, hat₂⟩ :=
    reads_varOctetString sp.data body _ _ htype.move
  refine ⟨c₂, ?_, hat₂⟩
  have hlen := hat₁.length_eq
  have hthere : ¬ body.length ≤ c₁ := by
    simp only [List.cons_append, List.length_cons] at hlen
    omega
  have hbyte := At.byteAt_eq (ε := IlpError) hat₁
  have hadd := htype.addUsize_eq (ε := IlpError)
  simp only [List.length_singleton] at hadd h₂
  simp only [readSubProtocol, refuse, if_neg hthere, ok_bind, h₁,
    fromUtf8_utf8Bytes, hbyte, contentType_fromU8_toU8, hadd, h₂]
  rfl

theorem one_le_length_encodeSubProtocol (sp : BtpSubProtocol) :
    1 ≤ (encodeSubProtocol sp).length := by
  unfold encodeSubProtocol
  rw [List.length_append, List.length_cons]
  omega

theorem btpMessage_decode_encode {m : BtpMessage} (h : FitsVec m.encode) :
    BtpMessage.decode m.encode = .ok m := by
  have hcount := length_flatMap_ge one_le_length_encodeSubProtocol m.subProtocols
  have hbodyLen : m.encodeBody.length
      = (encodeLength m.subProtocols.length).length
        + (m.subProtocols.flatMap encodeSubProtocol).length :=
    List.length_append
  have hlen : m.encode.length
      = 1 + ((encodeU32 m.requestId).length
        + ((encodeLength m.encodeBody.length).length + m.encodeBody.length)) := by
    unfold BtpMessage.encode
    simp only [List.length_cons, List.length_append]
    omega
  have hfits : m.encode.length < 2 ^ 63 := h
  have hat : At m.encode 0 ([m.packetType.toU8] ++ (encodeU32 m.requestId
      ++ (encodeLength m.encodeBody.length ++ m.encodeBody))) :=
    At.start (hfits.trans (by norm_num))
  have hbody : At m.encodeBody 0 (encodeLength m.subProtocols.length
      ++ m.subProtocols.flatMap encodeSubProtocol) :=
    At.start (by omega)
  have htype : (byteAt m.encode 0 : Decoded _) = .ok m.packetType.toU8 := rfl
  have hne : ¬ m.encode = [] := List.cons_ne_nil _ _
  generalize m.encode = input at hat htype hne hlen hfits
  generalize m.encodeBody = body at hat hbody hlen hbodyLen
  obtain ⟨c₁, h₁, hat₁⟩ := reads_u32 m.requestId _ _ _ hat.move
  obtain ⟨c₂, h₂, hat₂⟩ :=
    reads_length body.length (by omega) _ _ _ hat₁
  have hslice := hat₂.append_nil.slice_eq (ε := IlpError)
  have hend := hat₂.length_eq
  obtain ⟨c₃, h₃, hat₃⟩ :=
    reads_length m.subProtocols.length (by omega) _ _ _ hbody
  obtain ⟨c₄, h₄⟩ :=
    (reads_many fun sp _ => reads_subProtocol sp body).last hat₃
  have hoverflow : ¬ 2 ^ 64 ≤ c₂ + body.length := by omega
  have htruncated : ¬ input.length < c₂ + body.length := by omega
  have hstart : 0 + [m.packetType.toU8].length = 1 := rfl
  rw [hstart] at h₁
  simp only [BtpMessage.decode, BtpMessage.decodeHead, refuse, if_neg hne,
    ok_bind, htype, btpPacketType_fromU8_toU8, h₁, h₂, if_neg hoverflow,
    if_neg htruncated, hslice, h₃, pure_bind, h₄]
  rfl

-- ==== all of them

/-- Every packet, STREAM packet and BTP message whose encoding fits a
vector reads back, and every length determinant is exact. -/
theorem wire_round_trip :
    (∀ p : IlpPacket, FitsVec p.encode → IlpPacket.decode p.encode = .ok p)
      ∧ (∀ p : StreamPacket, FitsVec p.encode → StreamPacket.decode p.encode = .ok p)
      ∧ (∀ m : BtpMessage, FitsVec m.encode → BtpMessage.decode m.encode = .ok m)
      ∧ ∀ len < 2 ^ 64, ∀ rest, decodeLength (encodeLength len ++ rest)
        = .ok (len, (encodeLength len).length) :=
  ⟨fun _ => ilpPacket_decode_encode, fun _ => streamPacket_decode_encode,
    fun _ => btpMessage_decode_encode, fun _ => decodeLength_encodeLength⟩

/-- A prepare to `g.a`. -/
def samplePrepare : Prepare :=
  { amount := 1000, expiresAt := List.Vector.replicate 17 0x30
    condition := ⟨List.Vector.replicate 32 7⟩
    destination :=
      { raw := "g.a", scheme := .global, parsed := by decide +kernel }
    data := List.replicate 200 1 }

/-- Samples of the three formats, with a body in the long form. -/
theorem wire_round_trip_samples :
    IlpPacket.decode (IlpPacket.prepare samplePrepare).encode = .ok (.prepare samplePrepare)
      ∧ StreamPacket.decode (StreamPacket.mk 1 12 7 100 [⟨.streamMoney, [1, 2]⟩]).encode
        = .ok ⟨1, 12, 7, 100, [⟨.streamMoney, [1, 2]⟩]⟩
      ∧ BtpMessage.decode (BtpMessage.mk .message 42 [⟨"ilp", .octetStream, [1, 2]⟩]).encode
        = .ok ⟨.message, 42, [⟨"ilp", .octetStream, [1, 2]⟩]⟩
      ∧ decodeLength (encodeLength 65536 ++ []) = .ok (65536, (encodeLength 65536).length) := by
  refine ⟨wire_round_trip.1 _ ?_, wire_round_trip.2.1 _ ?_,
    wire_round_trip.2.2.1 _ ?_, wire_round_trip.2.2.2 _ ?_ _⟩
  · unfold FitsVec
    decide +kernel
  · unfold FitsVec
    decide +kernel
  · unfold FitsVec
    decide +kernel
  · norm_num

end OpenStandards.Ilp

/-
The ILP decoders on bytes from anywhere.

Every reader stays within its input, so a decoder that is a sequence of
readers does (`confined_decode` of each format). One number is used before
it is compared with the input: the count of the frames or of the
sub-protocols, for which room is reserved at once. The decoders are safe
exactly where it is no more than the bytes behind it (`decoders_safe_iff`).
-/
import OpenStandards.Ilp.Stream

namespace OpenStandards.Ilp

open Lib

-- ==== readers

theorem within_decodeLength : Within decodeLength := by
  intro input _
  cases input with
  | nil => exact Confined.err _
  | cons first rest =>
    unfold decodeLength
    dsimp only
    split
    · exact Confined.ok (Nat.succ_le_succ (Nat.zero_le _))
    · refine Confined.refuse_bind fun _ => ?_
      refine Confined.refuse_bind fun hlen => ?_
      refine Confined.refuse_bind fun _ => ?_
      refine (confined_slice (by omega) (by omega)).bind fun octets _ => ?_
      exact Confined.ok (by omega)

theorem within_decodeVarOctetString : Within decodeVarOctetString := by
  intro input hfits
  unfold decodeVarOctetString
  refine (within_decodeLength input hfits).bind fun r _ => ?_
  refine Confined.refuse_bind fun _ => ?_
  refine Confined.refuse_bind fun hlen => ?_
  refine (confined_slice (by omega) (by omega)).bind fun bytes _ => ?_
  exact Confined.ok (by omega)

section

variable {α : Type} {k : Nat} {truncated : String} {ofNat : Nat → α}

theorem within_decodeWord : Within (decodeWord k truncated ofNat) := by
  intro input _
  unfold decodeWord
  refine Confined.refuse_bind fun hlen => ?_
  refine (confined_slice (by omega) (by omega)).bind fun bytes hbytes => ?_
  refine (confined_copyFromSlice hbytes.2).bind fun buf _ => ?_
  exact Confined.ok (by omega)

theorem decodeWord_used {input : List UInt8} {x : α} {used : Nat}
    (h : decodeWord k truncated ofNat input = .ok (x, used)) : used = k := by
  unfold decodeWord at h
  obtain ⟨-, h⟩ := refuse_bind_eq_ok.1 h
  obtain ⟨bytes, -, h⟩ := bind_eq_ok.1 h
  obtain ⟨buf, -, h⟩ := bind_eq_ok.1 h
  exact (Prod.mk.inj (Except.ok.inj h)).2.symm

theorem decodeWord_of_le {input : List UInt8} (h : k ≤ input.length) :
    ∃ x, decodeWord k truncated ofNat input = .ok (x, k) := by
  have hlen : ((input.drop 0).take (k - 0)).length = k :=
    List.length_take_of_le h
  unfold decodeWord slice copyFromSlice
  rw [refuse, if_neg (by omega), ok_bind, if_pos ⟨by omega, h⟩, ok_bind, dif_pos hlen]
  exact ⟨_, rfl⟩

end

theorem confined_fromUtf8 (field : String) (bytes : List UInt8) :
    Confined (fun _ => True) (fromUtf8 field bytes) := by
  unfold fromUtf8
  split
  · exact Confined.ok trivial
  · exact Confined.err _

theorem confined_parse (input : String) : Confined (fun _ => True) (Address.parse input) := by
  unfold Address.parse
  split
  · exact Confined.ok trivial
  · exact Confined.err _

-- ==== ILP packets

section

variable {body : List UInt8} (hfits : body.length < 2 ^ 63)
include hfits

theorem advances_varOctetString : Advances body (readAt decodeVarOctetString body) :=
  advances_readAt (by omega) within_decodeVarOctetString

theorem advances_length : Advances body (readAt decodeLength body) :=
  advances_readAt (by omega) within_decodeLength

theorem advances_fixed {n : Nat} (hn : n ≤ 32) (e : IlpError) :
    Advances body (readFixed n e body) :=
  advances_readFixed (by omega) e

theorem confined_decodePrepareBody : Confined (fun _ => True) (decodePrepareBody body) := by
  unfold decodePrepareBody
  refine (advances_readAt (by omega) within_decodeWord 0
    (Nat.zero_le _)).bind fun amount hamount => ?_
  refine (advances_fixed hfits (by decide) _ _ hamount.2).bind fun exp hexp =>
    ?_
  refine (advances_fixed hfits (by decide) _ _ hexp.2).bind fun cond hcond =>
    ?_
  refine (advances_varOctetString hfits _ hcond.2).bind fun dest hdest => ?_
  refine (confined_fromUtf8 _ _).bind fun text _ => ?_
  refine (confined_parse text).bind fun address _ => ?_
  refine (advances_varOctetString hfits _ hdest.2).bind fun data _ => ?_
  exact Confined.ok trivial

theorem confined_decodeFulfillBody : Confined (fun _ => True) (decodeFulfillBody body) := by
  unfold decodeFulfillBody
  refine (advances_fixed hfits (by decide) _ _ (Nat.zero_le _)).bind
    fun bytes hbytes => ?_
  refine (advances_varOctetString hfits _ hbytes.2).bind fun data _ => ?_
  exact Confined.ok trivial

theorem confined_decodeRejectBody : Confined (fun _ => True) (decodeRejectBody body) := by
  unfold decodeRejectBody
  refine (advances_fixed hfits (by decide) _ _ (Nat.zero_le _)).bind
    fun code hcode => ?_
  refine (confined_fromUtf8 _ _).bind fun _ _ => ?_
  refine (advances_varOctetString hfits _ hcode.2).bind fun by_ hby => ?_
  refine (confined_fromUtf8 _ _).bind fun _ _ => ?_
  refine (advances_varOctetString hfits _ hby.2).bind fun message hmsg => ?_
  refine (confined_fromUtf8 _ _).bind fun _ _ => ?_
  refine (advances_varOctetString hfits _ hmsg.2).bind fun data _ => ?_
  exact Confined.ok trivial

end

theorem confined_fromU8 (b : UInt8) : Confined (fun _ => True) (PacketType.fromU8 b) := by
  unfold PacketType.fromU8
  repeat refine Confined.ite (Confined.ok trivial) ?_
  exact Confined.err _

theorem IlpPacket.confined_decode {input : List UInt8} (hfits : input.length < 2 ^ 63) :
    Confined (fun _ => True) (IlpPacket.decode input) := by
  cases input with
  | nil => exact Confined.err _
  | cons first rest =>
    unfold IlpPacket.decode
    dsimp only
    refine (confined_fromU8 first).bind fun ty _ => ?_
    refine (advances_length hfits 1 (Nat.succ_le_succ (Nat.zero_le _))).bind
      fun len hlen => ?_
    refine Confined.refuse_bind fun _ => ?_
    refine Confined.refuse_bind fun hend => ?_
    refine (confined_slice (by omega) (by omega)).bind fun body hbody => ?_
    have hbody' : body.length < 2 ^ 63 := by omega
    cases ty with
    | prepare =>
      exact (confined_decodePrepareBody hbody').bind fun p _ =>
        Confined.ok trivial
    | fulfill =>
      exact (confined_decodeFulfillBody hbody').bind fun f _ =>
        Confined.ok trivial
    | reject =>
      exact (confined_decodeRejectBody hbody').bind fun r _ =>
        Confined.ok trivial

-- ==== STREAM

theorem confined_frameType (b : UInt8) : Confined (fun _ => True) (FrameType.fromU8 b) := by
  unfold FrameType.fromU8
  repeat refine Confined.ite (Confined.ok trivial) ?_
  exact Confined.err _

theorem advances_readFrame {input : List UInt8}
    (hfits : input.length < 2 ^ 63) : Advances input (readFrame input) := by
  intro cursor hcursor
  unfold readFrame
  refine Confined.refuse_bind fun hlt => ?_
  refine (confined_byteAt (by omega)).bind fun typeByte _ => ?_
  refine (confined_frameType typeByte).bind fun frameType _ => ?_
  refine (confined_addUsize (by omega)).bind fun next hnext => ?_
  refine (advances_varOctetString hfits next (by omega)).bind
    fun payload hpayload => ?_
  exact Confined.ok ⟨by omega, hpayload.2⟩

/-- Room is reserved between the head and the loop. Where neither panics,
all is as it should be exactly where the declared count is. -/
theorem reserving_safe_iff {α β : Type} (size : Nat) (count behind : α → Nat)
    {head : Decoded α} {rest : α → Decoded β} {Declares : Nat → Nat → Prop}
    (hhead : head ≠ .error .panic) (hrest : ∀ x, head = .ok x → rest x ≠ .error .panic)
    (hdecl : ∀ n b, Declares n b ↔ ∃ x, head = .ok x ∧ count x = n ∧ behind x = b) :
    ((do let x ← head; withCapacity size (count x); rest x) ≠ .error .panic
        ∧ ∀ x, head = .ok x → count x ≤ behind x)
      ↔ ∀ n b, Declares n b → n ≤ b ∧ n * size < 2 ^ 63 := by
  cases head with
  | error e =>
    constructor
    · intro _ n b hnb
      obtain ⟨x, hx, -⟩ := (hdecl n b).1 hnb
      cases hx
    · intro _
      rw [error_bind]
      refine ⟨fun heq => hhead ?_, nofun⟩
      rw [Except.error.inj heq]
  | ok x =>
    have hx := (hdecl (count x) (behind x)).2 ⟨x, rfl, rfl, rfl⟩
    rw [ok_bind]
    unfold withCapacity
    by_cases hfits : count x * size < 2 ^ 63
    · rw [if_pos hfits, ok_bind]
      constructor
      · intro ⟨_, hcount⟩ n b hnb
        obtain ⟨y, hy, rfl, rfl⟩ := (hdecl n b).1 hnb
        obtain rfl := Except.ok.inj hy
        exact ⟨hcount x rfl, hfits⟩
      · intro h
        refine ⟨hrest x rfl, fun y hy => ?_⟩
        obtain rfl := Except.ok.inj hy
        exact (h _ _ hx).1
    · rw [if_neg hfits, error_bind]
      exact ⟨fun h => absurd rfl h.1, fun h => absurd (h _ _ hx).2 hfits⟩

namespace StreamPacket

/-- The count that a STREAM packet declares, and the bytes behind it: it
stands behind the version, the type and two amounts. -/
def Declares (input : List UInt8) (count behind : Nat) : Prop :=
  ∃ used, decodeLength (input.drop 18) = .ok (count, used) ∧ behind = input.length - (18 + used)

/-- The decoder answers or refuses, and reserves room for no more frames
than there are bytes left. -/
def SafeOn (frameSize : Nat) (input : List UInt8) : Prop :=
  decodeReserving frameSize input ≠ .error .panic
    ∧ ∀ r, decodeHead input = .ok r → r.1.nFrames ≤ input.length - r.2

variable {input : List UInt8} (hfits : input.length < 2 ^ 63)
include hfits

theorem confined_decodeHead :
    Confined (fun r => r.2 ≤ input.length ∧ ∃ used,
        decodeLength (input.drop 18) = .ok (r.1.nFrames, used) ∧ r.2 = 18 + used)
      (decodeHead input) := by
  unfold decodeHead
  refine Confined.refuse_bind fun hlen => ?_
  refine (confined_byteAt (by omega)).bind fun version _ => ?_
  refine (confined_byteAt (by omega)).bind fun ilpPacketType _ => ?_
  refine (confined_readAt (by omega) within_decodeWord (by omega)).bind
    fun sequence ⟨hseq, used, hused, hcursor⟩ => ?_
  obtain rfl := decodeWord_used hused
  refine (confined_readAt (by omega) within_decodeWord hseq).bind
    fun amount ⟨hamount, used, hused', hcursor'⟩ => ?_
  obtain rfl := decodeWord_used hused'
  obtain ⟨prepareAmount, cursor⟩ := amount
  obtain rfl : cursor = 18 := by omega
  refine (confined_readAt (by omega) within_decodeLength hamount).bind
    fun count ⟨hle, used, hcount, hend⟩ => ?_
  exact Confined.ok ⟨hle, used, hcount, hend⟩

theorem declares_iff (count behind : Nat) :
    Declares input count behind ↔ ∃ r, decodeHead input = .ok r
      ∧ r.1.nFrames = count ∧ input.length - r.2 = behind := by
  constructor
  · intro ⟨used, hcount, hbehind⟩
    have hdrop : (input.drop 18).length = input.length - 18 :=
      List.length_drop
    have hused := (within_decodeLength _ (by omega)).2 _ hcount
    have hlong : 18 < input.length := by
      by_contra hshort
      rw [List.drop_eq_nil_of_le (by omega)] at hcount
      cases hcount
    obtain ⟨sequence, hseq⟩ : ∃ x, decodeU64 (input.drop 2) = .ok (x, 8) :=
      decodeWord_of_le (by rw [List.length_drop]; omega)
    obtain ⟨amount, hamount⟩ : ∃ x, decodeU64 (input.drop 10) = .ok (x, 8) :=
      decodeWord_of_le (by rw [List.length_drop]; omega)
    refine ⟨(⟨input[0], input[1], sequence, amount, count⟩, 18 + used), ?_,
      rfl, hbehind.symm⟩
    unfold decodeHead
    rw [refuse, if_neg (by omega), ok_bind, byteAt_of_lt (by omega), ok_bind,
      byteAt_of_lt (by omega), ok_bind,
      readAt_of_ok (by omega) (by omega) hseq, ok_bind]
    dsimp only
    rw [readAt_of_ok (by omega) (by omega) hamount, ok_bind]
    dsimp only
    rw [readAt_of_ok (by omega) (by omega) hcount, ok_bind]
    rfl
  · intro ⟨r, hhead, hcount, hbehind⟩
    obtain ⟨-, used, hdecl, hcursor⟩ := (confined_decodeHead hfits).2 _ hhead
    exact ⟨used, hcount ▸ hdecl, by rw [← hbehind, ← hcursor]⟩

theorem confined_decode : Confined (fun _ => True) (decode input) := by
  unfold decode
  refine (confined_decodeHead hfits).bind fun head hhead => ?_
  refine (advances_readMany (advances_readFrame hfits) _ _ hhead.1).bind
    fun frames _ => ?_
  exact Confined.ok trivial

/-- The decoder is safe where the declared count is no more than the bytes
behind it, and not more than can be reserved. -/
theorem safeOn_iff (frameSize : Nat) :
    SafeOn frameSize input ↔ ∀ count behind, Declares input count behind →
      count ≤ behind ∧ count * frameSize < 2 ^ 63 := by
  have hhead := confined_decodeHead hfits
  have hloop : ∀ r, decodeHead input = .ok r →
      (do let frames ← readMany (readFrame input) r.1.nFrames r.2
          return (⟨r.1.version, r.1.ilpPacketType, r.1.sequence,
            r.1.prepareAmount, frames.1⟩ : StreamPacket))
        ≠ .error .panic := by
    intro r hr
    exact ((advances_readMany (advances_readFrame hfits) _ _
      (hhead.2 r hr).1).bind (Q := fun _ => True)
        fun _ _ => Confined.ok trivial).1
  exact reserving_safe_iff frameSize (fun r => r.1.nFrames)
    (fun r => input.length - r.2) hhead.1 hloop (declares_iff hfits)

end StreamPacket

-- ==== BTP

theorem confined_btpPacketType (b : UInt8) :
    Confined (BtpPacketType.fromU8 b = .ok ·) (BtpPacketType.fromU8 b) := by
  unfold BtpPacketType.fromU8
  split_ifs
  all_goals first | exact Confined.ok rfl | exact Confined.err _

theorem advances_readSubProtocol {body : List UInt8}
    (hfits : body.length < 2 ^ 63) : Advances body (readSubProtocol body) := by
  intro cursor hcursor
  unfold readSubProtocol
  refine (advances_varOctetString hfits cursor hcursor).bind
    fun nameBytes hname => ?_
  refine (confined_fromUtf8 _ _).bind fun name _ => ?_
  refine Confined.refuse_bind fun hlt => ?_
  refine (confined_byteAt (by omega)).bind fun typeByte _ => ?_
  refine (confined_addUsize (by omega)).bind fun next hnext => ?_
  refine (advances_varOctetString hfits next (by omega)).bind
    fun data hdata => ?_
  exact Confined.ok ⟨by omega, hdata.2⟩

namespace BtpMessage

/-- The body of a BTP message, behind its type, the request id and its
length. -/
def HasBody (input body : List UInt8) : Prop :=
  ∃ first packetType bodyLen used, input.head? = some first
    ∧ BtpPacketType.fromU8 first = .ok packetType
    ∧ decodeLength (input.drop 5) = .ok (bodyLen, used)
    ∧ 5 + used + bodyLen ≤ input.length
    ∧ body = (input.drop (5 + used)).take bodyLen

/-- The count that a BTP message declares, and the bytes of the body behind
it: it stands where the body starts. -/
def Declares (input : List UInt8) (count behind : Nat) : Prop :=
  ∃ body used, HasBody input body
    ∧ decodeLength body = .ok (count, used) ∧ behind = body.length - used

/-- The decoder answers or refuses, and reserves room for no more
sub-protocols than there are bytes of the body left. -/
def SafeOn (subProtocolSize : Nat) (input : List UInt8) : Prop :=
  decodeReserving subProtocolSize input ≠ .error .panic
    ∧ ∀ r, decodeHead input = .ok r → r.1.nSubProtocols ≤ r.1.body.length - r.2

variable {input : List UInt8} (hfits : input.length < 2 ^ 63)
include hfits

theorem confined_decodeHead :
    Confined (fun r => r.1.body.length < 2 ^ 63 ∧ r.2 ≤ r.1.body.length
        ∧ HasBody input r.1.body
        ∧ decodeLength r.1.body = .ok (r.1.nSubProtocols, r.2))
      (decodeHead input) := by
  unfold decodeHead
  refine Confined.refuse_bind fun hne => ?_
  have hpos : 0 < input.length := List.length_pos_of_ne_nil hne
  refine (confined_byteAt hpos).bind fun first hfirst => ?_
  refine (confined_btpPacketType first).bind fun packetType htype => ?_
  refine (confined_readAt (by omega) within_decodeWord hpos).bind
    fun id ⟨hid, used, hused, hcursor⟩ => ?_
  obtain rfl := decodeWord_used hused
  obtain ⟨requestId, cursor⟩ := id
  obtain rfl : cursor = 5 := hcursor
  refine (confined_readAt (by omega) within_decodeLength hid).bind
    fun len ⟨hlen, used, hlength, hend⟩ => ?_
  obtain ⟨bodyLen, cursor⟩ := len
  obtain rfl : cursor = 5 + used := hend
  refine Confined.refuse_bind fun _ => ?_
  refine Confined.refuse_bind fun htrunc => ?_
  refine (confined_slice (by omega) (by omega)).bind
    fun body ⟨hbody, hbodyLen⟩ => ?_
  have hbodyFits : body.length < 2 ^ 63 := by
    rw [hbodyLen]
    omega
  refine (confined_readAt (by omega) within_decodeLength
    (Nat.zero_le _)).bind fun count ⟨hle, used', hcount, hstop⟩ => ?_
  obtain ⟨nSubProtocols, cursor⟩ := count
  obtain rfl : cursor = used' := hstop.trans (Nat.zero_add _)
  refine Confined.ok ⟨by omega, hle, ⟨first, packetType, bodyLen, used, ?_,
    htype, hlength, by omega, ?_⟩, hcount⟩
  · rw [hfirst, List.head?_eq_getElem?, List.getElem?_eq_getElem hpos]
  · rw [hbody, Nat.add_sub_cancel_left]

theorem declares_iff (count behind : Nat) :
    Declares input count behind ↔ ∃ r, decodeHead input = .ok r
      ∧ r.1.nSubProtocols = count ∧ r.1.body.length - r.2 = behind := by
  constructor
  · intro ⟨body, used', ⟨first, packetType, bodyLen, used, hfirst, htype,
      hlength, hle, hbody⟩, hcount, hbehind⟩
    have hlong : 5 < input.length := by
      by_contra hshort
      rw [List.drop_eq_nil_of_le (by omega)] at hlength
      cases hlength
    have hne : input ≠ [] := List.ne_nil_of_length_pos (by omega)
    have hzero : input[0] = first := by
      rw [List.head?_eq_getElem?, List.getElem?_eq_getElem (by omega)] at hfirst
      exact Option.some.inj hfirst
    obtain ⟨requestId, hid⟩ : ∃ x, decodeU32 (input.drop 1) = .ok (x, 4) :=
      decodeWord_of_le (by rw [List.length_drop]; omega)
    have hbodyLen : body.length = bodyLen := by
      rw [hbody, List.length_take, List.length_drop]
      omega
    have hused := (within_decodeLength body (by omega)).2 _ hcount
    refine ⟨(⟨packetType, requestId, body, count⟩, used'), ?_, rfl, hbehind.symm⟩
    unfold decodeHead
    rw [refuse, if_neg hne, ok_bind, byteAt_of_lt (by omega), ok_bind, hzero,
      htype, ok_bind, readAt_of_ok (by omega) (by omega) hid, ok_bind]
    dsimp only
    rw [readAt_of_ok (by omega) (by omega) hlength, ok_bind]
    dsimp only
    rw [refuse, if_neg (by omega), ok_bind, refuse, if_neg (by omega), ok_bind,
      slice, if_pos ⟨by omega, hle⟩, ok_bind, Nat.add_sub_cancel_left, ← hbody,
      readAt_of_ok (Nat.zero_le _) (by omega) hcount, ok_bind, Nat.zero_add]
    rfl
  · intro ⟨r, hhead, hcount, hbehind⟩
    obtain ⟨-, -, hbody, hdecl⟩ := (confined_decodeHead hfits).2 _ hhead
    exact ⟨r.1.body, r.2, hbody, hcount ▸ hdecl, hbehind.symm⟩

theorem confined_decode : Confined (fun _ => True) (decode input) := by
  unfold decode
  refine (confined_decodeHead hfits).bind fun head hhead => ?_
  refine (advances_readMany (advances_readSubProtocol hhead.1) _ _
    hhead.2.1).bind fun subProtocols _ => ?_
  exact Confined.ok trivial

/-- The decoder is safe where the declared count is no more than the bytes
of the body behind it, and not more than can be reserved. -/
theorem safeOn_iff (subProtocolSize : Nat) :
    SafeOn subProtocolSize input
      ↔ ∀ count behind, Declares input count behind →
        count ≤ behind ∧ count * subProtocolSize < 2 ^ 63 := by
  have hhead := confined_decodeHead hfits
  have hloop : ∀ r, decodeHead input = .ok r →
      (do let subProtocols ← readMany (readSubProtocol r.1.body) r.1.nSubProtocols r.2
          return (⟨r.1.packetType, r.1.requestId, subProtocols.1⟩ : BtpMessage))
        ≠ .error .panic := by
    intro r hr
    obtain ⟨hlen, hle, -⟩ := hhead.2 r hr
    exact ((advances_readMany (advances_readSubProtocol hlen) _ _ hle).bind
      (Q := fun _ => True) fun _ _ => Confined.ok trivial).1
  exact reserving_safe_iff subProtocolSize (fun r => r.1.nSubProtocols)
    (fun r => r.1.body.length - r.2) hhead.1 hloop (declares_iff hfits)

end BtpMessage

/-- **When the ILP decoders are safe.** On every byte slice no decoder
slices out of range or overflows; and a STREAM packet or a BTP message is
decoded without a panic, with room reserved for no more items than there
are bytes left, if and only if the count it declares is no more than the
bytes behind it (and that many items are not more than a vector can
reserve). -/
theorem decoders_safe_iff (frameSize subProtocolSize : Nat)
    (input : List UInt8) (hfits : input.length < 2 ^ 63) :
    (IlpPacket.decode input ≠ .error .panic
      ∧ StreamPacket.decode input ≠ .error .panic
      ∧ BtpMessage.decode input ≠ .error .panic)
    ∧ (StreamPacket.SafeOn frameSize input
      ↔ ∀ count behind, StreamPacket.Declares input count behind →
        count ≤ behind ∧ count * frameSize < 2 ^ 63)
    ∧ (BtpMessage.SafeOn subProtocolSize input
      ↔ ∀ count behind, BtpMessage.Declares input count behind →
        count ≤ behind ∧ count * subProtocolSize < 2 ^ 63) :=
  ⟨⟨(IlpPacket.confined_decode hfits).1,
      (StreamPacket.confined_decode hfits).1,
      (BtpMessage.confined_decode hfits).1⟩,
    StreamPacket.safeOn_iff hfits frameSize,
    BtpMessage.safeOn_iff hfits subProtocolSize⟩

/-- A STREAM packet of two frames. -/
def twoFrames : StreamPacket :=
  ⟨1, 12, 7, 100, [⟨.streamMoney, [1, 2]⟩, ⟨.streamClose, []⟩]⟩

/-- A BTP message of two sub-protocols. -/
def twoSubProtocols : BtpMessage :=
  ⟨.message, 42, [⟨"ilp", .octetStream, [1, 2]⟩, ⟨"", .json, []⟩]⟩

/-- Both declare two items, with more than two bytes behind the count. -/
theorem two_items_safe :
    (StreamPacket.Declares twoFrames.encode 2 6 ∧ StreamPacket.SafeOn 32 twoFrames.encode)
      ∧ BtpMessage.Declares twoSubProtocols.encode 2 11
        ∧ BtpMessage.SafeOn 56 twoSubProtocols.encode := by
  have h := decoders_safe_iff 32 56 twoFrames.encode (by decide +kernel)
  have h' := decoders_safe_iff 32 56 twoSubProtocols.encode (by decide +kernel)
  have hcount : decodeLength (twoFrames.encode.drop 18) = .ok (2, 1) := by
    decide +kernel
  have hfirst : twoSubProtocols.encode.head? = some 6 := by decide +kernel
  have hlen : decodeLength (twoSubProtocols.encode.drop 5) = .ok (12, 1) := by
    decide +kernel
  have hbody : decodeLength ((twoSubProtocols.encode.drop 6).take 12) = .ok (2, 1) := by
    decide +kernel
  refine ⟨⟨⟨1, hcount, by decide +kernel⟩, h.2.1.2 ?_⟩,
    ⟨_, 1, ⟨6, .message, 12, 1, hfirst, rfl, hlen, by decide +kernel, rfl⟩,
      hbody, by decide +kernel⟩, h'.2.2.2 ?_⟩
  · rintro count behind ⟨used, hdecl, rfl⟩
    cases hcount.symm.trans hdecl
    decide +kernel
  · rintro count behind ⟨body, used, ⟨_, _, bodyLen, used', -, -, hlen', -,
      rfl⟩, hdecl, rfl⟩
    cases hlen.symm.trans hlen'
    cases hbody.symm.trans hdecl
    decide +kernel

/-- A STREAM packet of 27 bytes that declares as many frames as a word
holds. -/
def boundless : List UInt8 :=
  List.replicate 18 0 ++ 0x88 :: List.replicate 8 0xFF

/-- The reservation panics, though the packet has no bytes left. -/
theorem boundless_unsafe :
    StreamPacket.decodeReserving 32 boundless = .error .panic
      ∧ ¬ StreamPacket.SafeOn 32 boundless := by
  have hpanic : StreamPacket.decodeReserving 32 boundless = .error .panic := by
    decide +kernel
  exact ⟨hpanic, fun h => h.1 hpanic⟩

end OpenStandards.Ilp

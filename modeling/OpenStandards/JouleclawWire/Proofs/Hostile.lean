/-
Decoding bytes that nobody vouches for.

Every read is of bytes that are there (`Sound`), and what a decoded message
is made of are pieces of the input. The lengths of 32 bits are harmless.
The length of the payload has 64 bits, and the bound check adds the cursor
to it, so a length of the last 17 overflows where all others are refused
as truncated (`decode_safe_iff`).
-/
import OpenStandards.JouleclawWire.Wire

namespace OpenStandards.JouleclawWire

open Lib JouleclawCascade

variable {bytes : List UInt8}

-- ==== reads

/-- From a cursor in the input, the reader answers what has a property,
refuses, and leaves the cursor in the input. -/
def Sound {ε α : Type} (input : List UInt8) (P : α → Prop)
    (read : Nat → Except (Fault ε) (α × Nat)) : Prop :=
  ∀ cursor, cursor ≤ input.length → Confined (fun r => P r.1 ∧ r.2 ≤ input.length) (read cursor)

namespace Sound

variable {ε α β : Type} {input : List UInt8} {P : α → Prop} {Q : β → Prop}

theorem bind {first : Nat → Except (Fault ε) (α × Nat)}
    {next : α × Nat → Except (Fault ε) (β × Nat)} (h : Sound input P first)
    (h' : ∀ x, P x → Sound input Q fun cursor => next (x, cursor)) :
    Sound input Q fun cursor => first cursor >>= next :=
  fun cursor hcursor => (h cursor hcursor).bind fun r hr =>
    h' r.1 hr.1 r.2 hr.2

theorem check {c : Except (Fault ε) α}
    {next : α → Nat → Except (Fault ε) (β × Nat)} (h : Confined P c)
    (h' : ∀ x, P x → Sound input Q (next x)) :
    Sound input Q fun cursor => c >>= fun x => next x cursor :=
  fun cursor hcursor => h.bind fun x hx => h' x hx cursor hcursor

theorem done {x : α} (h : P x) :
    Sound input P fun cursor => (.ok (x, cursor) : Except (Fault ε) _) :=
  fun _ hcursor => Confined.ok ⟨h, hcursor⟩

theorem err (e : ε) : Sound input P fun _ => (.error (.err e) : Except (Fault ε) _) :=
  fun _ _ => Confined.err e

end Sound

variable {n : Nat} {payload : List UInt8}

theorem sound_readN (hfits : bytes.length < 2 ^ 63) (hn : n < 2 ^ 63) :
    Sound bytes (fun part => part <:+: bytes ∧ part.length = n) (readN bytes n) := by
  intro cursor hcursor
  unfold readN takeAt
  refine (confined_addUsize (by omega)).bind fun stop hstop => ?_
  split
  case isTrue => exact Confined.err _
  case isFalse hle =>
    refine Confined.ok ⟨⟨?_, ?_⟩, Nat.le_of_not_lt hle⟩
    · exact (List.take_prefix n _).isInfix.trans (List.drop_suffix cursor bytes).isInfix
    · rw [List.length_take, List.length_drop]
      omega

theorem sound_beAt (hfits : bytes.length < 2 ^ 63) {k : Nat} (hk : k ≤ 8) :
    Sound bytes (fun n => beBytes k n <:+: bytes ∧ n < 256 ^ k) (beAt truncated bytes k) := by
  refine (sound_readN hfits (by omega : k < 2 ^ 63)).bind ?_
  rintro part ⟨hpart, rfl⟩
  refine Sound.done ⟨?_, ofBeBytes_lt part⟩
  rw [beBytes_ofBeBytes]
  exact hpart

theorem sound_readKey (hfits : bytes.length < 2 ^ 63) :
    Sound bytes (fun key => key.toList <:+: bytes) (readKey bytes) := by
  refine (sound_readN hfits (by decide)).bind ?_
  rintro part ⟨hpart, hlength⟩
  dsimp only [copyFromSlice]
  rw [dif_pos hlength]
  exact Sound.done hpart

theorem sound_readPrefixed (hfits : bytes.length < 2 ^ 63) :
    Sound bytes (fun part => part <:+: bytes) (readPrefixed bytes) := by
  refine (sound_beAt hfits (by decide)).bind ?_
  rintro n ⟨-, hn⟩ cursor hcursor
  refine (sound_readN hfits (by omega) cursor hcursor).mono fun r hr => ?_
  exact ⟨hr.1.1, hr.2⟩

theorem confined_fromUtf8 (part : List UInt8) :
    Confined (fun s => Text.utf8 s = part) (fromUtf8 part) := by
  unfold fromUtf8
  split
  case h_1 s hs => exact Confined.ok (Text.fromUtf8?_eq_some_iff.1 hs)
  case h_2 => exact Confined.err _

theorem confined_map {ε α β : Type} {P : β → Prop} {r : Except (Fault ε) α}
    {f : α → β} (h : Confined (fun x => P (f x)) r) :
    Confined P (r.map f) := by
  cases r with
  | ok x => exact Confined.ok (h.2 x rfl)
  | error e =>
    cases e with
    | err e => exact Confined.err e
    | panic => exact absurd rfl h.1

-- ==== pieces

/-- What is written of a tier, but for the number of level 0. -/
def tierPieces : TierId → List (List UInt8)
  | .l0 => [beBytes 1 0]
  | tier => [beBytes 1 (encodeTier tier).1, beBytes 4 (encodeTier tier).2]

def outputPieces : AnswerOutput → List (List UInt8)
  | .text s => [Text.utf8 s]
  | .structured b => [b]
  | .refused .inapplicable => []
  | .refused (.lowConfidence c) => [beBytes 4 c.toNat]
  | .refused (.tierSpecific s) => [Text.utf8 s]

def quotePieces (q : WireQuote) : List (List UInt8) :=
  [q.queryKey.toList, beBytes 8 q.requestId.toNat,
    beBytes 8 q.joulesCharged.toNat, beBytes 4 q.confidence.toNat,
    beBytes 8 q.expirySecs.toNat] ++ tierPieces q.originTier

def WireMessage.pieces : WireMessage → List (List UInt8)
  | .request r =>
    [r.queryKey.toList, beBytes 8 r.maxJoules.toNat, beBytes 8 r.requestId.toNat]
  | .quote q => quotePieces q
  | .response r => quotePieces r.toWireQuote ++ outputPieces r.output
  | .error e => [beBytes 8 e.requestId.toNat, Text.utf8 e.message]

/-- The pieces stand somewhere in the input. -/
def Present (bytes : List UInt8) (pieces : List (List UInt8)) : Prop :=
  ∀ piece ∈ pieces, piece <:+: bytes

theorem present_number (h : beBytes 8 n <:+: bytes ∧ n < 256 ^ 8) :
    beBytes 8 (UInt64.ofNat n).toNat <:+: bytes := by
  rw [UInt64.toNat_ofNat_of_lt' h.2]
  exact h.1

theorem present_number32 (h : beBytes 4 n <:+: bytes ∧ n < 256 ^ 4) :
    beBytes 4 (UInt32.ofNat n).toNat <:+: bytes := by
  rw [UInt32.toNat_ofNat_of_lt' h.2]
  exact h.1

theorem confined_decodeTier {family data : Nat} (hfamily : beBytes 1 family <:+: bytes)
    (hdata : beBytes 4 data <:+: bytes ∧ data < 256 ^ 4) :
    Confined (fun tier => Present bytes (tierPieces tier)) (decodeTier family data) := by
  have hpair : ∀ {n : Nat}, n = data → Present bytes
      [beBytes 1 family, beBytes 4 n] := by
    rintro n rfl piece hpiece
    rcases List.mem_pair.1 hpiece with rfl | rfl
    · exact hfamily
    · exact hdata.1
  have hnat : (UInt32.ofNat data).toNat = data :=
    UInt32.toNat_ofNat_of_lt' hdata.2
  unfold decodeTier
  split
  case h_1 =>
    refine Confined.ok fun piece hpiece => ?_
    rw [List.mem_singleton.1 hpiece]
    exact hfamily
  case h_2 =>
    split
    case h_9 => exact Confined.err _
    all_goals exact Confined.ok (hpair rfl)
  case h_6 => exact Confined.err _
  all_goals exact Confined.ok (hpair hnat)

-- ==== messages

theorem sound_decodeRequest (hfits : bytes.length < 2 ^ 63) :
    Sound bytes (fun r => Present bytes (WireMessage.request r).pieces)
      (decodeRequest bytes) := by
  refine (sound_readKey hfits).bind fun key hkey => ?_
  refine (sound_beAt hfits (by decide)).bind fun maxJoules hmax => ?_
  refine (sound_beAt hfits (by decide)).bind fun requestId hid => ?_
  refine Sound.done ?_
  unfold WireMessage.pieces Present
  simp only [List.forall_mem_cons]
  exact ⟨hkey, present_number hmax, present_number hid, List.forall_mem_nil _⟩

theorem sound_decodeQuote (hfits : bytes.length < 2 ^ 63) :
    Sound bytes (fun q => Present bytes (quotePieces q)) (decodeQuote bytes) := by
  refine (sound_readKey hfits).bind fun key hkey => ?_
  refine (sound_beAt hfits (by decide)).bind fun requestId hid => ?_
  refine (sound_beAt hfits (by decide)).bind fun joules hjoules => ?_
  refine (sound_beAt hfits (by decide)).bind fun confidence hconf => ?_
  refine Sound.bind (P := fun tier => Present bytes (tierPieces tier)) ?_
    fun tier htier => ?_
  · refine (sound_beAt hfits (by decide)).bind fun family hfamily => ?_
    refine (sound_beAt hfits (by decide)).bind fun data hdata => ?_
    exact Sound.check (confined_decodeTier hfamily.1 hdata)
      fun tier htier => Sound.done htier
  · refine (sound_beAt hfits (by decide)).bind fun expiry hexpiry => ?_
    refine Sound.done ?_
    unfold quotePieces Present
    simp only [List.forall_mem_append, List.forall_mem_cons]
    exact ⟨⟨hkey, present_number hid, present_number hjoules,
      present_number32 hconf, present_number hexpiry,
      List.forall_mem_nil _⟩, htier⟩

theorem sound_readRefusal (hfits : bytes.length < 2 ^ 63) :
    Sound bytes (fun r => Present bytes (outputPieces (.refused r))) (readRefusal bytes) := by
  refine (sound_beAt hfits (by decide)).bind fun kind _ => ?_
  dsimp only
  split
  case h_1 => exact Sound.done (List.forall_mem_nil _)
  case h_2 =>
    refine (sound_beAt hfits (by decide)).bind fun c hc => ?_
    exact fun cursor hcursor => Confined.ok
      ⟨List.forall_mem_singleton.2 (present_number32 hc), hcursor⟩
  case h_3 =>
    refine (sound_readPrefixed hfits).bind fun part hpart => ?_
    refine Sound.check (confined_fromUtf8 part) fun s hs => ?_
    subst hs
    exact Sound.done (List.forall_mem_singleton.2 hpart)
  case h_4 => exact Sound.err _

theorem confined_outputOf (kind : Nat) (hfits : payload.length < 2 ^ 63) :
    Confined (fun o => Present payload (outputPieces o)) (outputOf kind payload) := by
  unfold outputOf
  split
  case h_1 =>
    refine confined_map ((confined_fromUtf8 payload).mono fun s hs => ?_)
    subst hs
    exact List.forall_mem_singleton.2 List.infix_rfl
  case h_2 =>
    exact Confined.ok (List.forall_mem_singleton.2 List.infix_rfl)
  case h_3 =>
    refine confined_map ((sound_readRefusal hfits 0 (Nat.zero_le _)).mono
      fun r hr => hr.1)
  case h_4 => exact Confined.err _

theorem Present.of_infix {part : List UInt8} {pieces : List (List UInt8)}
    (h : Present part pieces) (hpart : part <:+: bytes) :
    Present bytes pieces :=
  fun piece hpiece => (h piece hpiece).trans hpart

theorem sound_decodeResponse (hfits : bytes.length < 2 ^ 63) :
    Sound bytes (fun r => Present bytes (WireMessage.response r).pieces)
      (decodeResponse bytes) := by
  refine (sound_decodeQuote hfits).bind fun q hq => ?_
  refine Sound.bind (P := fun o => Present bytes (outputPieces o)) ?_
    fun output houtput => ?_
  · refine (sound_beAt hfits (by decide)).bind fun kind _ => ?_
    refine (sound_readPrefixed hfits).bind fun part hpart => ?_
    refine Sound.check (confined_outputOf kind
      (lt_of_le_of_lt hpart.length_le hfits)) fun output houtput => ?_
    exact Sound.done (houtput.of_infix hpart)
  · exact Sound.done (List.forall_mem_append.2 ⟨hq, houtput⟩)

theorem sound_decodeError (hfits : bytes.length < 2 ^ 63) :
    Sound bytes (fun e => Present bytes (WireMessage.error e).pieces) (decodeError bytes) := by
  refine (sound_beAt hfits (by decide)).bind fun requestId hid => ?_
  refine (sound_beAt hfits (by decide)).bind fun b _ => ?_
  dsimp only
  split
  case h_1 => exact Sound.err _
  case h_2 code _ =>
    refine (sound_readPrefixed hfits).bind fun part hpart => ?_
    refine Sound.check (confined_fromUtf8 part) fun s hs => ?_
    subst hs
    refine Sound.done ?_
    unfold WireMessage.pieces Present
    simp only [List.forall_mem_cons]
    exact ⟨present_number hid, hpart, List.forall_mem_nil _⟩

theorem confined_decodePayload (kind : Nat) (hfits : payload.length < 2 ^ 63) :
    Confined (fun m => Present payload m.pieces) (decodePayload kind payload) := by
  unfold decodePayload
  split
  case h_1 =>
    exact confined_map ((sound_decodeRequest hfits 0 (Nat.zero_le _)).mono
      fun r hr => hr.1)
  case h_2 =>
    exact confined_map ((sound_decodeQuote hfits 0 (Nat.zero_le _)).mono
      fun r hr => hr.1)
  case h_3 =>
    exact confined_map ((sound_decodeResponse hfits 0 (Nat.zero_le _)).mono
      fun r hr => hr.1)
  case h_4 =>
    exact confined_map ((sound_decodeError hfits 0 (Nat.zero_le _)).mono
      fun r hr => hr.1)
  case h_5 => exact Confined.err _

-- ==== lengths

/-- The number of `k` bytes at a place. -/
def field (bytes : List UInt8) (pos k : Nat) : Nat :=
  ofBeBytes ((bytes.drop pos).take k)

/-- A length of 32 bits at a place is more than what stands behind it. -/
def Exceeds (bytes : List UInt8) (pos : Nat) : Prop :=
  pos + 4 ≤ bytes.length ∧ bytes.length < pos + 4 + field bytes pos 4

/-- A message or an output is shorter than its length, or the text of a
refusal is. -/
def ShortPayload (kind : Nat) (payload : List UInt8) : Prop :=
  (kind = 3 ∧ ErrorCode.fromU8 (field payload 8 1) ≠ none ∧ Exceeds payload 9)
    ∨ (kind = 2 ∧ (∃ tier, decodeTier (field payload 52 1) (field payload 53 4) = .ok tier)
      ∧ (Exceeds payload 66
        ∨ (field payload 65 1 = 2
          ∧ 70 + field payload 66 4 ≤ payload.length
          ∧ field ((payload.drop 70).take (field payload 66 4)) 0 1 = 2
          ∧ Exceeds ((payload.drop 70).take (field payload 66 4)) 1)))

def payloadLen (bytes : List UInt8) : Nat := field bytes 9 8

/-- The input is shorter than a length it declares: that of the payload,
before the signature, or one in the payload. -/
def Short (bytes : List UInt8) : Prop :=
  bytes.take 8 = magic ∧ 17 ≤ bytes.length
    ∧ (bytes.length < 17 + payloadLen bytes + signatureLen
      ∨ ShortPayload (field bytes 8 1) ((bytes.drop 17).take (payloadLen bytes)))

def Overflows (bytes : List UInt8) : Prop :=
  bytes.take 8 = magic ∧ 17 ≤ bytes.length ∧ 2 ^ 64 ≤ 17 + payloadLen bytes

/-- The decoder does not panic, what it answers is made of the input, and a
length that is too long is refused as truncated. -/
structure Safe (bytes : List UInt8) : Prop where
  noPanic : decode bytes ≠ .error .panic
  present : ∀ m, decode bytes = .ok m → Present bytes m.pieces
  truncated : Short bytes → ∃ needed size, decode bytes = .error (.err (.truncated needed size))

section

variable {p pos k n : Nat}

theorem readN_eq (hfits : bytes.length < 2 ^ 63) (h : p + n ≤ bytes.length) :
    readN bytes n p = .ok ((bytes.drop p).take n, p + n) := by
  unfold readN takeAt addUsize
  rw [if_pos (by omega), ok_bind, if_neg (by omega)]

theorem readN_short (h : bytes.length < p + n) (hn : p + n < 2 ^ 64) :
    readN bytes n p = .error (.err (.truncated (p + n) bytes.length)) := by
  unfold readN takeAt addUsize
  rw [if_pos hn, ok_bind, if_pos h]
  rfl

theorem beAt_eq (hfits : bytes.length < 2 ^ 63) (h : pos + k ≤ bytes.length) :
    beAt truncated bytes k pos = .ok (field bytes pos k, pos + k) := by
  unfold beAt
  rw [show takeAt truncated bytes k pos = _ from readN_eq hfits h, ok_bind]
  rfl

theorem readPrefixed_eq (hfits : bytes.length < 2 ^ 63)
    (h : pos + 4 + field bytes pos 4 ≤ bytes.length) :
    readPrefixed bytes pos
      = .ok ((bytes.drop (pos + 4)).take (field bytes pos 4), pos + 4 + field bytes pos 4) := by
  unfold readPrefixed readU32
  rw [beAt_eq hfits (by omega), ok_bind]
  exact readN_eq hfits h

theorem field_lt (bytes : List UInt8) (pos k : Nat) : field bytes pos k < 256 ^ k := by
  refine lt_of_lt_of_le (ofBeBytes_lt _) (Nat.pow_le_pow_right (by decide) ?_)
  exact List.length_take_le ..

theorem readPrefixed_short (hfits : bytes.length < 2 ^ 63) (h : Exceeds bytes pos) :
    ∃ needed, readPrefixed bytes pos = .error (.err (.truncated needed bytes.length)) := by
  have hlt := field_lt bytes pos 4
  have hle := h.1
  unfold readPrefixed readU32
  rw [beAt_eq hfits h.1, ok_bind]
  exact ⟨_, readN_short h.2 (by omega)⟩

end

theorem decodeQuote_eq (hfits : bytes.length < 2 ^ 63) (h : 65 ≤ bytes.length) {tier : TierId}
    (htier : decodeTier (field bytes 52 1) (field bytes 53 4) = .ok tier) :
    ∃ q, decodeQuote bytes 0 = .ok (q, 65) := by
  have hkey : ∃ key, readKey bytes 0 = .ok (key, 32) := by
    have hlen : ((bytes.drop 0).take 32).length = 32 := by
      rw [List.length_take, List.length_drop]
      omega
    refine ⟨⟨_, hlen⟩, ?_⟩
    unfold readKey
    rw [readN_eq hfits (by omega), ok_bind]
    dsimp only [copyFromSlice]
    rw [dif_pos hlen]
    rfl
  obtain ⟨key, hkey⟩ := hkey
  unfold decodeQuote readTier readU64 readU32 readU8
  rw [hkey, ok_bind]
  dsimp only
  rw [beAt_eq hfits (by omega), ok_bind]
  dsimp only
  rw [beAt_eq hfits (by omega), ok_bind]
  dsimp only
  rw [beAt_eq hfits (by omega), ok_bind]
  dsimp only
  rw [beAt_eq hfits (by omega), ok_bind]
  dsimp only
  rw [beAt_eq hfits (by omega), ok_bind]
  dsimp only
  rw [htier, ok_bind, ok_bind]
  dsimp only
  rw [beAt_eq hfits (by omega), ok_bind]
  exact ⟨_, rfl⟩

theorem readRefusal_short (hfits : bytes.length < 2 ^ 63)
    (hkind : field bytes 0 1 = 2) (h : Exceeds bytes 1) :
    ∃ needed size, readRefusal bytes 0 = .error (.err (.truncated needed size)) := by
  obtain ⟨needed, hshort⟩ := readPrefixed_short hfits h
  have hle := h.1
  refine ⟨needed, bytes.length, ?_⟩
  unfold readRefusal readU8
  rw [beAt_eq hfits (by omega), ok_bind, hkind]
  dsimp only
  rw [hshort]
  rfl

theorem decodePayload_short {kind : Nat} (hfits : payload.length < 2 ^ 63)
    (h : ShortPayload kind payload) :
    ∃ needed size, decodePayload kind payload = .error (.err (.truncated needed size)) := by
  rcases h with ⟨rfl, hcode, hshort⟩ | ⟨rfl, ⟨tier, htier⟩, houtput⟩
  · obtain ⟨code, hcode⟩ := Option.ne_none_iff_exists'.1 hcode
    obtain ⟨needed, hread⟩ := readPrefixed_short hfits hshort
    have hle := hshort.1
    refine ⟨needed, payload.length, ?_⟩
    unfold decodePayload decodeError readU64 readU8
    dsimp only
    rw [beAt_eq hfits (by omega), ok_bind]
    dsimp only
    rw [beAt_eq hfits (by omega), ok_bind]
    dsimp only
    rw [hcode]
    dsimp only
    rw [hread]
    rfl
  · have hlen : 70 ≤ payload.length := by
      rcases houtput with hshort | ⟨-, hle, -⟩
      · exact hshort.1
      · omega
    obtain ⟨q, hquote⟩ := decodeQuote_eq hfits (by omega) htier
    have houtput : ∃ needed size, decodeOutput payload 65
        = .error (.err (.truncated needed size)) := by
      unfold decodeOutput readU8
      rw [beAt_eq hfits (by omega), ok_bind]
      dsimp only
      rcases houtput with hshort | ⟨hkind, hle, hrefusal, hshort⟩
      · obtain ⟨needed, hread⟩ := readPrefixed_short hfits hshort
        refine ⟨needed, payload.length, ?_⟩
        rw [hread]
        rfl
      · obtain ⟨needed, size, hread⟩ :=
          readRefusal_short (lt_of_le_of_lt (List.length_take_le' ..)
            (lt_of_le_of_lt (List.drop_sublist ..).length_le hfits))
            hrefusal hshort
        refine ⟨needed, size, ?_⟩
        rw [readPrefixed_eq hfits (by omega), ok_bind, hkind]
        dsimp only [outputOf]
        rw [hread]
        rfl
    obtain ⟨needed, size, houtput⟩ := houtput
    refine ⟨needed, size, ?_⟩
    unfold decodePayload decodeResponse
    dsimp only
    rw [hquote, ok_bind]
    dsimp only
    rw [houtput]
    rfl

section

variable (hfits : bytes.length < 2 ^ 63) (hmagic : bytes.take 8 = magic)
  (hheader : 17 ≤ bytes.length)

include hfits hmagic hheader

theorem decode_eq : decode bytes = (do
    let (payload, pos) ← readN bytes (payloadLen bytes) 17
    let _ ← readN bytes signatureLen pos
    decodePayload (field bytes 8 1) payload) := by
  unfold decode readU8 readU64
  rw [readN_eq hfits (by omega), ok_bind]
  dsimp only
  rw [List.drop_zero, hmagic, if_neg (not_not.2 rfl), beAt_eq hfits (by omega), ok_bind]
  dsimp only
  rw [beAt_eq hfits (by omega), ok_bind]
  rfl

theorem decode_short (hlt : 17 + payloadLen bytes < 2 ^ 64)
    (h : bytes.length < 17 + payloadLen bytes + signatureLen) :
    ∃ needed size, decode bytes = .error (.err (.truncated needed size)) := by
  rw [decode_eq hfits hmagic hheader]
  by_cases hpayload : bytes.length < 17 + payloadLen bytes
  · rw [readN_short hpayload hlt]
    exact ⟨_, _, rfl⟩
  · have hsignature := readN_short (p := 17 + payloadLen bytes) h (by
      unfold signatureLen
      omega)
    rw [readN_eq hfits (by omega), ok_bind]
    dsimp only
    rw [hsignature]
    exact ⟨_, _, rfl⟩

theorem decode_payload (h : 17 + payloadLen bytes + signatureLen ≤ bytes.length) :
    decode bytes = decodePayload (field bytes 8 1)
      ((bytes.drop 17).take (payloadLen bytes)) := by
  rw [decode_eq hfits hmagic hheader, readN_eq hfits (by omega), ok_bind]
  dsimp only
  rw [readN_eq hfits h, ok_bind]

end

/-- What the decoder does to an input whose payload length does not
overflow. -/
theorem confined_decode (hfits : bytes.length < 2 ^ 63) (h : ¬ Overflows bytes) :
    Confined (fun m => Present bytes m.pieces) (decode bytes) := by
  by_cases hheader : bytes.take 8 = magic ∧ 17 ≤ bytes.length
  · obtain ⟨hmagic, hheader⟩ := hheader
    by_cases hend : bytes.length < 17 + payloadLen bytes + signatureLen
    · obtain ⟨needed, size, hshort⟩ := decode_short hfits hmagic hheader
        (Nat.lt_of_not_le fun hover => h ⟨hmagic, hheader, hover⟩) hend
      rw [hshort]
      exact Confined.err _
    · rw [decode_payload hfits hmagic hheader (Nat.le_of_not_lt hend)]
      have hpart : (bytes.drop 17).take (payloadLen bytes) <:+: bytes :=
        (List.take_prefix ..).isInfix.trans (List.drop_suffix ..).isInfix
      exact (confined_decodePayload _
        (lt_of_le_of_lt hpart.length_le hfits)).mono
          fun m hm => hm.of_infix hpart
  · unfold decode readU8 readU64
    by_cases hlen : bytes.length < 8
    · rw [readN_short (p := 0) (n := 8) (by omega) (by decide)]
      exact Confined.err _
    rw [readN_eq (p := 0) hfits (by omega), ok_bind]
    dsimp only
    rw [List.drop_zero]
    split
    case isTrue => exact Confined.err _
    case isFalse hmagic =>
      have hlast : bytes.length < 17 := Nat.lt_of_not_le fun hle =>
        hheader ⟨not_not.1 hmagic, hle⟩
      by_cases hkind : bytes.length < 9
      · rw [beAt_short _ _ (by omega) (by decide)]
        exact Confined.err _
      · rw [beAt_eq hfits (by omega), ok_bind]
        dsimp only
        rw [beAt_short _ _ (by omega) (by decide)]
        exact Confined.err _

/-- The decoder is safe on all inputs but those whose payload length
overflows. -/
theorem decode_safe_iff (hfits : bytes.length < 2 ^ 63) : Safe bytes ↔ ¬ Overflows bytes := by
  constructor
  · rintro hsafe ⟨hmagic, hheader, hover⟩
    apply hsafe.noPanic
    rw [decode_eq hfits hmagic hheader]
    unfold readN takeAt addUsize
    rw [if_neg (Nat.not_lt.2 hover)]
    rfl
  · intro hno
    have hconfined := confined_decode hfits hno
    refine ⟨hconfined.1, hconfined.2, ?_⟩
    rintro ⟨hmagic, hheader, hshort⟩
    have hlt : 17 + payloadLen bytes < 2 ^ 64 :=
      Nat.lt_of_not_le fun hover => hno ⟨hmagic, hheader, hover⟩
    by_cases hend : bytes.length < 17 + payloadLen bytes + signatureLen
    · exact decode_short hfits hmagic hheader hlt hend
    · rw [decode_payload hfits hmagic hheader (Nat.le_of_not_lt hend)]
      exact decodePayload_short (lt_of_le_of_lt (List.length_take_le' ..)
        (lt_of_le_of_lt (List.drop_sublist ..).length_le hfits))
        (hshort.resolve_left hend)

/-- A header whose payload is missing. -/
theorem missingPayload_safe : Safe (magic ++ (beBytes 1 0 ++ beBytes 8 100)) :=
  (decode_safe_iff (by decide)).2 (by unfold Overflows; decide +kernel)

/-- A header with the greatest length. -/
theorem greatestLength_panics : ¬ ∀ bytes : List UInt8, bytes.length < 2 ^ 63 → Safe bytes := by
  intro h
  have hsafe := h (magic ++ (beBytes 1 0 ++ beBytes 8 (2 ^ 64 - 1))) (by decide)
  exact hsafe.noPanic (by decide +kernel)

end OpenStandards.JouleclawWire

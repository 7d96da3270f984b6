/-
One field on the wire, in both directions.

`Reads spec c v` is that the bytes `c` are read as the value `v`; reading
a field is finding such bytes in place (`decodeField_ok_iff`). What is
written is always read, as the value itself exactly when the value is
`Kept` (`reads_encodeField`); and what is read is written back as the
same bytes exactly when they are `Canonical` (`Reads.encode_iff`). Both
conditions are the failures of the codec turned into words.
-/
import OpenStandards.OpIso8583.Message
import OpenStandards.OpIso8583.Proofs.Codec

namespace OpenStandards.OpIso8583

open Lib Text

-- ==== reading

/-- A fixed field of length `n` is read as the value. -/
def ReadsFixed (enc : Encoding) (n : Nat) (c : Bytes) (v : FieldValue) : Prop :=
  match enc with
  | .bcd => c.length = (n + 1) / 2 ∧ DecimalBytes c ∧
      v = .numeric (((nibbles c).drop (2 * c.length - n)).map digit)
  | .ascii => c.length = n ∧ Printable c ∧ v = .text (c.map ofByte)
  | .ebcdic => c.length = n ∧ v = .text (c.map ebcdicToAscii)
  | .binary => c.length = n ∧ v = .bytes c

def ReadsPayload (enc : Encoding) (payload : Bytes) (v : FieldValue) : Prop :=
  match enc with
  | .bcd => v = .numeric (decimalNibbles payload)
  | .ascii => ∃ s, utf8 s = payload ∧ v = .text s
  | .ebcdic => v = .text (payload.map ebcdicToAscii)
  | .binary => v = .bytes payload

def ReadsVar (kind : VarLenKind) (enc : Encoding) (c : Bytes) (v : FieldValue) : Prop :=
  ∃ l payload, c = l ++ payload ∧ ReadsLength kind l payload.length ∧ ReadsPayload enc payload v

def Reads (spec : FieldSpec) (c : Bytes) (v : FieldValue) : Prop :=
  match spec.length with
  | .fixed n => ReadsFixed spec.encoding n c v
  | .ll _ => ReadsVar (llKind spec.encoding) spec.encoding c v
  | .lll _ => ReadsVar (lllKind spec.encoding) spec.encoding c v

variable {spec : FieldSpec} {v : FieldValue} {kind : VarLenKind}
    {offset' n : Nat} {c p : Bytes}

theorem decodePayload_ok_iff {payload : Bytes} :
    decodePayload spec payload = .ok v ↔ ReadsPayload spec.encoding payload v := by
  unfold decodePayload ReadsPayload
  cases spec.encoding with
  | bcd => simp only [Except.ok.injEq, eq_comm]
  | ascii =>
    simp only [← fromUtf8?_eq_some_iff]
    cases fromUtf8? payload with
    | none => simp
    | some s => simp [eq_comm]
  | ebcdic =>
    have hwhole : ebcdicDecode payload 0 payload.length
        = .ok (payload.map ebcdicToAscii, payload.length) := by
      rw [ebcdicDecode_ok_iff]
      exact ⟨payload, ⟨[], [], by simp, rfl⟩, rfl, rfl, by simp⟩
    simp only [hwhole, ok_bind, Except.ok.injEq, eq_comm]
  | binary => simp only [Except.ok.injEq, eq_comm]

theorem decodeVar_ok_iff {input : Bytes} {offset : Nat} :
    decodeVar spec kind input offset = .ok (v, offset') ↔
      ∃ c, Stands input offset c ∧ ReadsVar kind spec.encoding c v ∧
        offset' = offset + c.length := by
  unfold decodeVar
  constructor
  · intro h
    obtain ⟨⟨payload, mid⟩, hvar, h⟩ := bind_eq_ok.1 h
    obtain ⟨v', hv, h⟩ := bind_eq_ok.1 h
    obtain ⟨rfl, rfl⟩ := Prod.mk.inj (Except.ok.inj h)
    obtain ⟨l, hst, hlen, rfl⟩ := varDecode_ok_iff.1 hvar
    exact ⟨l ++ payload, hst,
      ⟨l, payload, rfl, hlen, decodePayload_ok_iff.1 hv⟩, rfl⟩
  · rintro ⟨c, hst, ⟨l, payload, rfl, hlen, hv⟩, rfl⟩
    refine bind_eq_ok.2 ⟨(payload, _), varDecode_ok_iff.2 ⟨l, hst, hlen, rfl⟩, ?_⟩
    exact bind_eq_ok.2 ⟨v, decodePayload_ok_iff.2 hv, rfl⟩

theorem pair_bind_ok_iff {α : Type} {x : Except Error (α × Nat)} {f : α → FieldValue} :
    (do
      let (a, newOffset) ← x
      .ok (f a, newOffset)) = Except.ok (v, offset') ↔
      ∃ a, x = .ok (a, offset') ∧ v = f a := by
  constructor
  · intro h
    obtain ⟨⟨a, mid⟩, hx, h⟩ := bind_eq_ok.1 h
    obtain ⟨rfl, rfl⟩ := Prod.mk.inj (Except.ok.inj h)
    exact ⟨a, hx, rfl⟩
  · rintro ⟨a, hx, rfl⟩
    rw [hx]
    rfl

theorem decodeField_ok_iff {input : Bytes} {offset : Nat} :
    decodeField spec input offset = .ok (v, offset') ↔
      ∃ c, Stands input offset c ∧ Reads spec c v ∧ offset' = offset + c.length := by
  unfold decodeField Reads
  cases spec.length with
  | ll _ => exact decodeVar_ok_iff
  | lll _ => exact decodeVar_ok_iff
  | fixed n =>
    cases spec.encoding with
    | bcd =>
      simp only [pair_bind_ok_iff, bcdDecode_ok_iff, ReadsFixed]
      constructor
      · rintro ⟨t, ⟨c, hst, hlen, hdec, rfl, rfl⟩, rfl⟩
        exact ⟨c, hst, ⟨hlen, hdec, rfl⟩, rfl⟩
      · rintro ⟨c, hst, ⟨hlen, hdec, rfl⟩, rfl⟩
        exact ⟨_, ⟨c, hst, hlen, hdec, rfl, rfl⟩, rfl⟩
    | ascii =>
      simp only [pair_bind_ok_iff, asciiDecode_ok_iff, ReadsFixed]
      constructor
      · rintro ⟨t, ⟨c, hst, hlen, hp, rfl, rfl⟩, rfl⟩
        exact ⟨c, hst, ⟨hlen, hp, rfl⟩, rfl⟩
      · rintro ⟨c, hst, ⟨hlen, hp, rfl⟩, rfl⟩
        exact ⟨_, ⟨c, hst, hlen, hp, rfl, rfl⟩, rfl⟩
    | ebcdic =>
      simp only [pair_bind_ok_iff, ebcdicDecode_ok_iff, ReadsFixed]
      constructor
      · rintro ⟨t, ⟨c, hst, hlen, rfl, rfl⟩, rfl⟩
        exact ⟨c, hst, ⟨hlen, rfl⟩, rfl⟩
      · rintro ⟨c, hst, ⟨hlen, rfl⟩, rfl⟩
        exact ⟨_, ⟨c, hst, hlen, rfl, rfl⟩, rfl⟩
    | binary =>
      simp only [pair_bind_ok_iff, binaryDecode_ok_iff, ReadsFixed]
      constructor
      · rintro ⟨t, ⟨hst, hlen, rfl⟩, rfl⟩
        exact ⟨t, hst, ⟨hlen, rfl⟩, rfl⟩
      · rintro ⟨c, hst, ⟨hlen, rfl⟩, rfl⟩
        exact ⟨c, ⟨hst, hlen, rfl⟩, rfl⟩

-- ==== writing

def FieldValue.length : FieldValue → Nat
  | .numeric s | .text s => s.length
  | .bytes b => b.length

def LengthRule.limit : LengthRule → Nat
  | .fixed n | .ll n | .lll n => n

theorem encodeField_fixed (hspec : spec.length = .fixed n) :
    encodeField spec v = .ok c ↔ encodePayload spec v = .ok c ∧
      c.length = expectedBytes spec.encoding n := by
  unfold encodeField
  rw [hspec, bind_eq_ok]
  constructor
  · rintro ⟨payload, hp, h⟩
    simp only at h
    split at h
    · cases h
    · next hlen =>
        obtain rfl := Except.ok.inj h
        exact ⟨hp, not_not.1 hlen⟩
  · rintro ⟨hp, hlen⟩
    exact ⟨c, hp, if_neg (not_not.2 hlen)⟩

/-- How a variable field's length is written, for a rule that has one. -/
def varKind (spec : FieldSpec) : Option VarLenKind :=
  match spec.length with
  | .fixed _ => none
  | .ll _ => some (llKind spec.encoding)
  | .lll _ => some (lllKind spec.encoding)

theorem encodeField_var (hspec : varKind spec = some kind) :
    encodeField spec v = .ok c ↔
      ∃ payload, encodePayload spec v = .ok payload ∧
        payload.length ≤ kind.max ∧
        ∃ l, encodeLength kind payload.length = .ok l ∧ c = l ++ payload := by
  unfold encodeField
  unfold varKind at hspec
  rw [bind_eq_ok]
  refine exists_congr fun payload => and_congr_right fun _ => ?_
  cases hlen : spec.length with
  | fixed n =>
    rw [hlen] at hspec
    cases hspec
  | ll m =>
    rw [hlen] at hspec
    obtain rfl := Option.some.inj hspec
    exact varEncode_ok_iff
  | lll m =>
    rw [hlen] at hspec
    obtain rfl := Option.some.inj hspec
    exact varEncode_ok_iff

theorem reads_var (hspec : varKind spec = some kind) :
    Reads spec c v ↔ ReadsVar kind spec.encoding c v := by
  unfold Reads
  unfold varKind at hspec
  cases hlen : spec.length with
  | fixed n =>
    rw [hlen] at hspec
    cases hspec
  | ll m =>
    rw [hlen] at hspec
    obtain rfl := Option.some.inj hspec
    rfl
  | lll m =>
    rw [hlen] at hspec
    obtain rfl := Option.some.inj hspec
    rfl

-- ==== what is accepted

/-- The value goes with the encoding: its kind does, and every byte of
its text is allowed. -/
def Compatible (enc : Encoding) (v : FieldValue) : Prop :=
  match enc, v with
  | .bcd, .numeric s => ∀ b ∈ utf8 s, isAsciiDigit b = true
  | .ascii, .numeric s | .ascii, .text s => Printable (utf8 s)
  | .ebcdic, .numeric s | .ebcdic, .text s => SevenBit (utf8 s)
  | .binary, .bytes _ => True
  | _, _ => False

/-- The bytes of a value on the wire. -/
def payloadSize (enc : Encoding) (v : FieldValue) : Nat :=
  match enc with
  | .bcd => (v.length + 1) / 2
  | _ => v.length

/-- The size the length rule asks for; the maximum is not part of it. -/
def SizeFits (spec : FieldSpec) (size : Nat) : Prop :=
  match spec.length with
  | .fixed n => size = expectedBytes spec.encoding n
  | .ll _ => size ≤ 99
  | .lll _ => size ≤ 999

def Fits (spec : FieldSpec) (v : FieldValue) : Prop :=
  Compatible spec.encoding v ∧ SizeFits spec (payloadSize spec.encoding v)

theorem length_utf8 {s : Text} (h : SevenBit (utf8 s)) : (utf8 s).length = s.length := by
  have hlen := congrArg List.length (map_ofByte_utf8 h)
  rwa [List.length_map] at hlen

theorem length_encodePayload (h : encodePayload spec v = .ok p) :
    p.length = payloadSize spec.encoding v := by
  unfold encodePayload at h
  unfold payloadSize
  cases henc : spec.encoding with
  | bcd =>
    rw [henc] at h
    cases v with
    | numeric s => exact length_bcdEncode h
    | text s => cases h
    | bytes b => cases h
  | ascii =>
    rw [henc] at h
    cases v with
    | numeric s =>
      obtain ⟨hprint, rfl⟩ := asciiEncode_ok_iff.1 h
      exact length_utf8 hprint.sevenBit
    | text s =>
      obtain ⟨hprint, rfl⟩ := asciiEncode_ok_iff.1 h
      exact length_utf8 hprint.sevenBit
    | bytes b => cases h
  | ebcdic =>
    rw [henc] at h
    cases v with
    | numeric s =>
      obtain ⟨hseven, rfl⟩ := ebcdicEncode_ok_iff.1 h
      rw [List.length_map]
      exact length_utf8 hseven
    | text s =>
      obtain ⟨hseven, rfl⟩ := ebcdicEncode_ok_iff.1 h
      rw [List.length_map]
      exact length_utf8 hseven
    | bytes b => cases h
  | binary =>
    rw [henc] at h
    cases v with
    | numeric s => cases h
    | text s => cases h
    | bytes b =>
      obtain rfl := Except.ok.inj h
      rfl

theorem exists_encodePayload_iff :
    (∃ p, encodePayload spec v = .ok p) ↔ Compatible spec.encoding v := by
  unfold encodePayload Compatible
  cases spec.encoding with
  | bcd =>
    cases v with
    | numeric s => simp [bcdEncode_ok_iff]
    | text s => simp
    | bytes b => simp
  | ascii =>
    cases v with
    | numeric s => simp [asciiEncode_ok_iff]
    | text s => simp [asciiEncode_ok_iff]
    | bytes b => simp
  | ebcdic =>
    cases v with
    | numeric s => simp [ebcdicEncode_ok_iff]
    | text s => simp [ebcdicEncode_ok_iff]
    | bytes b => simp
  | binary =>
    cases v with
    | numeric s => simp
    | text s => simp
    | bytes b => simp

theorem sizeFits_var {size : Nat} (hspec : varKind spec = some kind) :
    SizeFits spec size ↔ size ≤ kind.max := by
  unfold SizeFits
  unfold varKind at hspec
  cases hlen : spec.length with
  | fixed n =>
    rw [hlen] at hspec
    cases hspec
  | ll m =>
    rw [hlen] at hspec
    obtain rfl := Option.some.inj hspec
    cases spec.encoding <;> rfl
  | lll m =>
    rw [hlen] at hspec
    obtain rfl := Option.some.inj hspec
    cases spec.encoding <;> rfl

theorem varKind_or_fixed (spec : FieldSpec) :
    (∃ n, spec.length = .fixed n) ∨ ∃ kind, varKind spec = some kind := by
  unfold varKind
  cases spec.length with
  | fixed n => exact Or.inl ⟨n, rfl⟩
  | ll m => exact Or.inr ⟨_, rfl⟩
  | lll m => exact Or.inr ⟨_, rfl⟩

theorem exists_encodeField_iff : (∃ c, encodeField spec v = .ok c) ↔ Fits spec v := by
  rw [Fits, ← exists_encodePayload_iff]
  rcases varKind_or_fixed spec with ⟨n, hspec⟩ | ⟨kind, hspec⟩
  · have hsize : ∀ size, SizeFits spec size ↔ size = expectedBytes spec.encoding n := by
      intro size
      rw [SizeFits, hspec]
    simp only [encodeField_fixed hspec, hsize]
    constructor
    · rintro ⟨c, hp, hlen⟩
      exact ⟨⟨c, hp⟩, (length_encodePayload hp).symm.trans hlen⟩
    · rintro ⟨⟨c, hp⟩, hlen⟩
      exact ⟨c, hp, (length_encodePayload hp).trans hlen⟩
  · simp only [encodeField_var hspec, sizeFits_var hspec]
    constructor
    · rintro ⟨c, p, hp, hmax, -⟩
      exact ⟨⟨p, hp⟩, (length_encodePayload hp) ▸ hmax⟩
    · rintro ⟨⟨p, hp⟩, hmax⟩
      have hmax : p.length ≤ kind.max := (length_encodePayload hp).symm ▸ hmax
      obtain ⟨l, hl⟩ := exists_encodeLength kind p.length
      exact ⟨l ++ p, p, hp, hmax, l, hl, rfl⟩

-- ==== what is read back

/-- The value is read back as it is: the digits of a BCD field fill it
(or pair up behind a length), text is text, and EBCDIC characters have
codes of their own. -/
def Kept (spec : FieldSpec) (v : FieldValue) : Prop :=
  match spec.encoding, v with
  | .bcd, .numeric s =>
    match spec.length with
    | .fixed n => s.length = n
    | .ll _ | .lll _ => s.length % 2 = 0
  | .ascii, .text _ => True
  | .ebcdic, .text s => ∀ c ∈ s, HasOwnCode c
  | .binary, .bytes _ => True
  | _, _ => False

/-- EBCDIC text is read back exactly when its characters have codes of
their own. -/
theorem ebcdic_read_iff {s : Text} (h : SevenBit (utf8 s)) :
    ((utf8 s).map asciiToEbcdic).map ebcdicToAscii = s ↔ ∀ c ∈ s, HasOwnCode c := by
  have hs := map_ofByte_utf8 h
  have hmap : ((utf8 s).map asciiToEbcdic).map ebcdicToAscii = s ↔
      ∀ b ∈ utf8 s, ebcdicToAscii (asciiToEbcdic b) = ofByte b := by
    rw [List.map_map, ← List.map_inj_left, hs]
    rfl
  rw [hmap]
  constructor
  · intro hall c hc
    rw [← hs] at hc
    obtain ⟨b, hb, rfl⟩ := List.mem_map.1 hc
    exact (ebcdicToAscii_asciiToEbcdic_iff (h b hb)).1 (hall b hb)
  · intro hown b hb
    refine (ebcdicToAscii_asciiToEbcdic_iff (h b hb)).2 (hown _ ?_)
    rw [← hs]
    exact List.mem_map_of_mem hb

/-- A fixed field that is written is read, and as the same value exactly
when it is kept. -/
theorem reads_fixed (hspec : spec.length = .fixed n) (hp : encodePayload spec v = .ok c)
    (hlen : c.length = expectedBytes spec.encoding n) :
    ∃ v', ReadsFixed spec.encoding n c v' ∧ (v' = v ↔ Kept spec v) := by
  unfold encodePayload at hp
  unfold Kept ReadsFixed
  rw [hspec]
  cases henc : spec.encoding with
  | bcd =>
    rw [henc] at hp hlen
    cases v with
    | numeric s =>
      refine ⟨_, ⟨hlen, decimal_bcdEncode hp, rfl⟩, ?_⟩
      rw [FieldValue.numeric.injEq]
      exact read_bcdEncode_iff hp hlen
    | text s => cases hp
    | bytes b => cases hp
  | ascii =>
    rw [henc] at hp hlen
    cases v with
    | numeric s =>
      obtain ⟨hprint, rfl⟩ := asciiEncode_ok_iff.1 hp
      refine ⟨_, ⟨hlen, hprint, rfl⟩, ?_⟩
      simp
    | text s =>
      obtain ⟨hprint, rfl⟩ := asciiEncode_ok_iff.1 hp
      refine ⟨_, ⟨hlen, hprint, rfl⟩, ?_⟩
      simp [map_ofByte_utf8 hprint.sevenBit]
    | bytes b => cases hp
  | ebcdic =>
    rw [henc] at hp hlen
    cases v with
    | numeric s =>
      refine ⟨_, ⟨hlen, rfl⟩, ?_⟩
      simp
    | text s =>
      obtain ⟨hseven, rfl⟩ := ebcdicEncode_ok_iff.1 hp
      refine ⟨_, ⟨hlen, rfl⟩, ?_⟩
      rw [FieldValue.text.injEq]
      exact ebcdic_read_iff hseven
    | bytes b => cases hp
  | binary =>
    rw [henc] at hp hlen
    cases v with
    | numeric s => cases hp
    | text s => cases hp
    | bytes b =>
      obtain rfl := Except.ok.inj hp
      exact ⟨_, ⟨hlen, rfl⟩, by simp⟩

/-- The digits of a whole payload, none passed over. -/
theorem decimalNibbles_eq (h : DecimalBytes p) : decimalNibbles p = (nibbles p).map digit := by
  rw [decimalNibbles, List.filter_eq_self.2]
  intro n hn
  exact decide_eq_true (h n hn)

/-- A payload that is written is read, and as the same value exactly when
it is kept. -/
theorem reads_payload (hspec : varKind spec = some kind) (hp : encodePayload spec v = .ok p) :
    ∃ v', ReadsPayload spec.encoding p v' ∧ (v' = v ↔ Kept spec v) := by
  unfold encodePayload at hp
  unfold Kept ReadsPayload
  cases henc : spec.encoding with
  | bcd =>
    rw [henc] at hp
    cases v with
    | numeric s =>
      have hpair : (FieldValue.numeric (decimalNibbles p) = .numeric s) ↔ s.length % 2 = 0 := by
        have hs := (bcdEncode_ok_iff.1 hp).1
        have hns := length_digitNibbles hs
        rw [FieldValue.numeric.injEq,
          decimalNibbles_eq (decimal_bcdEncode hp), nibbles_bcdEncode hp]
        constructor
        · intro heq
          have hlen := congrArg List.length heq
          rw [List.length_map, length_evenNibbles] at hlen
          omega
        · intro heven
          rw [evenNibbles, if_neg (by omega), (map_digit_digitNibbles hs).1]
      refine ⟨_, rfl, ?_⟩
      unfold varKind at hspec
      cases hlen : spec.length with
      | fixed n =>
        rw [hlen] at hspec
        cases hspec
      | ll m => exact hpair
      | lll m => exact hpair
    | text s => cases hp
    | bytes b => cases hp
  | ascii =>
    rw [henc] at hp
    cases v with
    | numeric s =>
      obtain ⟨hprint, rfl⟩ := asciiEncode_ok_iff.1 hp
      exact ⟨_, ⟨s, rfl, rfl⟩, by simp⟩
    | text s =>
      obtain ⟨hprint, rfl⟩ := asciiEncode_ok_iff.1 hp
      exact ⟨_, ⟨s, rfl, rfl⟩, by simp⟩
    | bytes b => cases hp
  | ebcdic =>
    rw [henc] at hp
    cases v with
    | numeric s => exact ⟨_, rfl, by simp⟩
    | text s =>
      obtain ⟨hseven, rfl⟩ := ebcdicEncode_ok_iff.1 hp
      refine ⟨_, rfl, ?_⟩
      rw [FieldValue.text.injEq]
      exact ebcdic_read_iff hseven
    | bytes b => cases hp
  | binary =>
    rw [henc] at hp
    cases v with
    | numeric s => cases hp
    | text s => cases hp
    | bytes b =>
      obtain rfl := Except.ok.inj hp
      exact ⟨_, rfl, by simp⟩

/-- A field that is written is read, and as the same value exactly when
it is kept. -/
theorem reads_encodeField (h : encodeField spec v = .ok c) :
    ∃ v', Reads spec c v' ∧ (v' = v ↔ Kept spec v) := by
  rcases varKind_or_fixed spec with ⟨n, hspec⟩ | ⟨kind, hspec⟩
  · obtain ⟨hp, hlen⟩ := (encodeField_fixed hspec).1 h
    obtain ⟨v', hread, hkept⟩ := reads_fixed hspec hp hlen
    refine ⟨v', ?_, hkept⟩
    unfold Reads
    rw [hspec]
    exact hread
  · obtain ⟨p, hp, hmax, l, hl, rfl⟩ := (encodeField_var hspec).1 h
    obtain ⟨v', hread, hkept⟩ := reads_payload hspec hp
    exact ⟨v', (reads_var hspec).2
      ⟨l, p, rfl, readsLength_encodeLength hl hmax, hread⟩, hkept⟩

-- ==== what is written back

def CanonicalFixed (enc : Encoding) (n : Nat) (c : Bytes) : Prop :=
  match enc with
  | .bcd => c.length = (n + 1) / 2 ∧ DecimalBytes c ∧ PadZero n c
  | .ascii => c.length = n ∧ Printable c
  | .ebcdic => c.length = n ∧ ∀ b ∈ c, Mapped b
  | .binary => c.length = n

def PlainPayload (enc : Encoding) (p : Bytes) : Prop :=
  match enc with
  | .bcd => DecimalBytes p
  | .ascii => Printable p
  | .ebcdic => ∀ b ∈ p, Mapped b
  | .binary => True

/-- A variable field as the encoder writes it. -/
def CanonicalVar (kind : VarLenKind) (enc : Encoding) (c : Bytes) : Prop :=
  ∃ l payload, c = l ++ payload ∧ ReadsLength kind l payload.length ∧
    PlainLength kind l ∧ PlainPayload enc payload

def Canonical (spec : FieldSpec) (c : Bytes) : Prop :=
  match spec.length with
  | .fixed n => CanonicalFixed spec.encoding n c
  | .ll _ => CanonicalVar (llKind spec.encoding) spec.encoding c
  | .lll _ => CanonicalVar (lllKind spec.encoding) spec.encoding c

theorem canonical_var (hspec : varKind spec = some kind) :
    Canonical spec c ↔ CanonicalVar kind spec.encoding c := by
  unfold Canonical
  unfold varKind at hspec
  cases hlen : spec.length with
  | fixed n =>
    rw [hlen] at hspec
    cases hspec
  | ll m =>
    rw [hlen] at hspec
    obtain rfl := Option.some.inj hspec
    rfl
  | lll m =>
    rw [hlen] at hspec
    obtain rfl := Option.some.inj hspec
    rfl

theorem Canonical.reads (h : Canonical spec c) : ∃ v, Reads spec c v := by
  rcases varKind_or_fixed spec with ⟨n, hspec⟩ | ⟨kind, hspec⟩
  · unfold Canonical at h
    unfold Reads
    rw [hspec] at h ⊢
    unfold CanonicalFixed at h
    unfold ReadsFixed
    cases henc : spec.encoding with
    | bcd =>
      rw [henc] at h
      exact ⟨_, h.1, h.2.1, rfl⟩
    | ascii =>
      rw [henc] at h
      exact ⟨_, h.1, h.2, rfl⟩
    | ebcdic =>
      rw [henc] at h
      exact ⟨_, h.1, rfl⟩
    | binary =>
      rw [henc] at h
      exact ⟨_, h, rfl⟩
  · obtain ⟨l, p, rfl, hlen, -, hplain⟩ := (canonical_var hspec).1 h
    have hpayload : ∃ v, ReadsPayload spec.encoding p v := by
      unfold ReadsPayload
      unfold PlainPayload at hplain
      cases henc : spec.encoding with
      | bcd => exact ⟨_, rfl⟩
      | ascii =>
        rw [henc] at hplain
        exact ⟨_, p.map ofByte, utf8_map_ofByte hplain.sevenBit, rfl⟩
      | ebcdic => exact ⟨_, rfl⟩
      | binary => exact ⟨_, rfl⟩
    obtain ⟨v, hv⟩ := hpayload
    exact ⟨v, (reads_var hspec).2 ⟨l, p, rfl, hlen, hv⟩⟩

theorem ReadsPayload.encode_iff (h : ReadsPayload spec.encoding p v) :
    encodePayload spec v = .ok p ↔ PlainPayload spec.encoding p := by
  unfold ReadsPayload at h
  unfold encodePayload PlainPayload
  cases henc : spec.encoding with
  | bcd =>
    rw [henc] at h
    subst h
    constructor
    · exact decimal_bcdEncode
    · intro hdec
      simp only [decimalNibbles_eq hdec]
      exact bcdEncode_nibbles hdec
  | ascii =>
    rw [henc] at h
    obtain ⟨s, rfl, rfl⟩ := h
    simp only [asciiEncode_ok_iff, and_true]
  | ebcdic =>
    rw [henc] at h
    subst h
    exact ebcdicEncode_map_iff p
  | binary =>
    rw [henc] at h
    subst h
    simp

/-- A fixed field that is read is written back exactly when it is
canonical. -/
theorem ReadsFixed.encode_iff (h : ReadsFixed spec.encoding n c v) :
    (encodePayload spec v = .ok c ∧ c.length = expectedBytes spec.encoding n) ↔
      CanonicalFixed spec.encoding n c := by
  unfold ReadsFixed at h
  unfold encodePayload CanonicalFixed expectedBytes
  cases henc : spec.encoding with
  | bcd =>
    rw [henc] at h
    obtain ⟨hlen, hdec, rfl⟩ := h
    have hpad := bcdEncode_drop_iff hlen hdec
    exact ⟨fun h => ⟨hlen, hdec, hpad.1 h.1⟩,
      fun h => ⟨hpad.2 h.2.2, hlen⟩⟩
  | ascii =>
    rw [henc] at h
    obtain ⟨hlen, hprint, rfl⟩ := h
    have hbytes := utf8_map_ofByte hprint.sevenBit
    simp [asciiEncode_ok_iff, hbytes, hlen, hprint]
  | ebcdic =>
    rw [henc] at h
    obtain ⟨hlen, rfl⟩ := h
    simp only [ebcdicEncode_map_iff, hlen, true_and, and_true]
  | binary =>
    rw [henc] at h
    obtain ⟨hlen, rfl⟩ := h
    simp

theorem ReadsLength.length_eq {l l' : Bytes} {n' : Nat}
    (h : ReadsLength kind l n) (h' : ReadsLength kind l' n') :
    l.length = l'.length := by
  obtain ⟨t, ht, -⟩ := h
  obtain ⟨t', ht', -⟩ := h'
  unfold ReadsDigits at ht ht'
  split at ht
  · next hbcd =>
      rw [if_pos hbcd] at ht'
      rw [ht.1, ht'.1]
  · next hascii =>
      rw [if_neg hascii] at ht'
      rw [ht.1, ht'.1]

/-- A field that is read is written back as the same bytes exactly when
they are canonical. -/
theorem Reads.encode_iff (h : Reads spec c v) :
    encodeField spec v = .ok c ↔ Canonical spec c := by
  rcases varKind_or_fixed spec with ⟨n, hspec⟩ | ⟨kind, hspec⟩
  · rw [encodeField_fixed hspec]
    unfold Reads at h
    unfold Canonical
    rw [hspec] at h ⊢
    exact h.encode_iff
  · obtain ⟨l, p, rfl, hlen, hp⟩ := (reads_var hspec).1 h
    rw [encodeField_var hspec, canonical_var hspec]
    constructor
    · rintro ⟨p', hp', hmax, l', hl', heq⟩
      have hlen' := readsLength_encodeLength hl' hmax
      obtain ⟨rfl, rfl⟩ := List.append_inj heq (hlen.length_eq hlen')
      exact ⟨l, p, rfl, hlen, hlen.encode_iff.1 hl', hp.encode_iff.1 hp'⟩
    · rintro ⟨l', p', heq, hlen', hplain, hpayload⟩
      obtain ⟨rfl, rfl⟩ := List.append_inj heq (hlen.length_eq hlen')
      obtain ⟨t, -, -, hmax⟩ := id hlen
      exact ⟨p, hp.encode_iff.2 hpayload, hmax, l, hlen.encode_iff.2 hplain, rfl⟩

end OpenStandards.OpIso8583

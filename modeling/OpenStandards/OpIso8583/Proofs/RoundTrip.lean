/-
Messages there and back.

Encoding then decoding always answers, with the same type indicator and
the same data elements from 2 to 128, each field with the value it is
read back as (`roundTrips_iff`). Decoding then encoding gives the bytes
back exactly when they are the ones the encoder writes: the wire in
canonical form, element by element (`losesNothing_iff`). The chunks of a
message are not delimited, so the two directions meet in `Reads.unique`:
at one place of an input at most one chunk is read.
-/
import OpenStandards.OpIso8583.Proofs.Bitmap
import OpenStandards.OpIso8583.Proofs.Fields

namespace OpenStandards.OpIso8583

open Lib Text

-- ==== the MTI

theorem toNat_hexValue {d : Nat} (h : d < 16) : hexValue (Nat.digitChar d) = some d := by
  have hall : ∀ d < 16, hexValue (Nat.digitChar d) = some d := by decide
  exact hall d h

/-- Four hexadecimal digits are read as the number they were written
from. -/
theorem fromStrRadix16_hex4 (mti : UInt16) : fromStrRadix16 (hex4 mti) = some mti := by
  have hlt : mti.toNat < 65536 := mti.toNat_lt
  have hplus : ∀ d < 16, ∀ s, withoutPlus (Nat.digitChar d :: s) = Nat.digitChar d :: s := by
    intro d hd s
    have hne : ∀ d < 16, Nat.digitChar d ≠ '+' := by decide
    unfold withoutPlus
    split
    · next heq => exact absurd (List.cons.inj heq).1 (hne d hd)
    · rfl
  unfold fromStrRadix16 hex4
  simp only [List.map_cons, List.map_nil]
  rw [hplus _ (by omega)]
  simp only [List.mapM_cons, List.mapM_nil,
    toNat_hexValue (by omega : mti.toNat / 4096 < 16),
    toNat_hexValue (by omega : mti.toNat / 256 % 16 < 16),
    toNat_hexValue (by omega : mti.toNat / 16 % 16 < 16),
    toNat_hexValue (by omega : mti.toNat % 16 < 16)]
  have hvalue : [mti.toNat / 4096, mti.toNat / 256 % 16,
      mti.toNat / 16 % 16, mti.toNat % 16].foldl (fun acc d => 16 * acc + d) 0 = mti.toNat := by
    simp only [List.foldl_cons, List.foldl_nil]
    omega
  show (if List.foldl _ 0 _ < 2 ^ 16 then some (UInt16.ofNat _) else none) = _
  rw [hvalue, UInt16.ofNat_toNat]
  exact if_pos hlt

def ReadsMti (c : Bytes) (mti : UInt16) : Prop :=
  c.length = 2 ∧ DecimalBytes c ∧ hex4 mti = (nibbles c).map digit

variable {c input bytes wire : Bytes} {offset : Nat} {catalog : Catalog}
    {fields : FieldMap} {des : List UInt8} {de : UInt8} {m : Iso8583Message}

theorem encode_mti_iff {mti : UInt16} : bcdEncode (hex4 mti) = .ok c ↔ ReadsMti c mti := by
  have hlen : (hex4 mti).length = 4 := rfl
  constructor
  · intro h
    have hs := (bcdEncode_ok_iff.1 h).1
    refine ⟨by rw [length_bcdEncode h, hlen], decimal_bcdEncode h, ?_⟩
    rw [nibbles_bcdEncode h, evenNibbles,
      if_neg (by rw [length_digitNibbles hs, hlen]; decide),
      (map_digit_digitNibbles hs).1]
  · rintro ⟨-, hdec, heq⟩
    rw [heq]
    exact bcdEncode_nibbles hdec

theorem exists_readsMti (hlen : c.length = 2) (hdec : DecimalBytes c) :
    ∃ mti, ReadsMti c mti := by
  have hns : (nibbles c).length = 4 := by rw [length_nibbles, hlen]
  obtain ⟨n₁, n₂, n₃, n₄, heq⟩ := List.length_eq_four.1 hns
  have hchar : ∀ n : UInt8, n.toNat ≤ 9 → Nat.digitChar n.toNat = digit n := by
    have hall : ∀ k ≤ 9, Nat.digitChar k = digit (UInt8.ofNat k) := by decide
    intro n hn
    rw [hall _ hn, UInt8.ofNat_toNat]
  have hn : ∀ n ∈ [n₁, n₂, n₃, n₄], n.toNat ≤ 9 := by
    intro n hmem
    exact hdec n (heq ▸ hmem)
  have h₁ := hn n₁ (by simp)
  have h₂ := hn n₂ (by simp)
  have h₃ := hn n₃ (by simp)
  have h₄ := hn n₄ (by simp)
  let value := 4096 * n₁.toNat + 256 * n₂.toNat + 16 * n₃.toNat + n₄.toNat
  have hvalue : (UInt16.ofNat value).toNat = value := by
    rw [UInt16.toNat_ofNat', Nat.mod_eq_of_lt]
    omega
  refine ⟨UInt16.ofNat value, hlen, hdec, ?_⟩
  rw [hex4, hvalue, heq]
  simp only [List.map_cons, List.map_nil]
  rw [show value / 4096 = n₁.toNat by omega,
    show value / 256 % 16 = n₂.toNat by omega,
    show value / 16 % 16 = n₃.toNat by omega,
    show value % 16 = n₄.toNat by omega,
    hchar n₁ h₁, hchar n₂ h₂, hchar n₃ h₃, hchar n₄ h₄]

theorem ReadsMti.fromStrRadix16 {mti : UInt16} (h : ReadsMti c mti) :
    OpIso8583.fromStrRadix16 ((nibbles c).map digit) = some mti := by
  obtain ⟨-, -, heq⟩ := h
  rw [← heq]
  exact fromStrRadix16_hex4 mti

-- ==== one chunk each

theorem stands_zero_iff : Stands input 0 c ↔ ∃ rest, input = c ++ rest := by
  constructor
  · rintro ⟨before, after, rfl, hlen⟩
    obtain rfl := List.length_eq_zero_iff.1 hlen
    exact ⟨after, rfl⟩
  · rintro ⟨rest, rfl⟩
    exact ⟨[], rest, rfl, rfl⟩

theorem stands_nil (h : offset ≤ input.length) : Stands input offset [] :=
  ⟨input.take offset, input.drop offset, by simp, by simp [h]⟩

theorem Stands.le (h : Stands input offset c) : offset + c.length ≤ input.length := by
  obtain ⟨before, after, rfl, rfl⟩ := h
  simp only [List.length_append]
  omega

/-- What a decoder reads from the front is a prefix code. -/
theorem prefix_unique {α : Type} {d : Except Error (α × Nat)} {c' r r' : Bytes}
    {v v' : α} (h : d = .ok (v, 0 + c.length)) (h' : d = .ok (v', 0 + c'.length))
    (heq : c ++ r = c' ++ r') : c = c' ∧ v = v' ∧ r = r' := by
  obtain ⟨hv, hlen⟩ := Prod.mk.inj (Except.ok.inj (h.symm.trans h'))
  obtain ⟨hc, hr⟩ := List.append_inj heq (by omega)
  exact ⟨hc, hv, hr⟩

theorem Reads.unique {spec : FieldSpec} {c' r r' : Bytes} {v v' : FieldValue}
    (h : Reads spec c v) (h' : Reads spec c' v') (heq : c ++ r = c' ++ r') :
    c = c' ∧ v = v' ∧ r = r' :=
  prefix_unique
    (decodeField_ok_iff.2 ⟨c, stands_zero_iff.2 ⟨r, rfl⟩, h, rfl⟩)
    (decodeField_ok_iff.2 ⟨c', stands_zero_iff.2 ⟨r', heq⟩, h', rfl⟩) heq

theorem ReadsBitmap.unique {c' r r' : Bytes} {b b' : Bitmaps}
    (h : ReadsBitmap c b) (h' : ReadsBitmap c' b') (heq : c ++ r = c' ++ r') :
    c = c' ∧ b = b' ∧ r = r' :=
  prefix_unique
    (decodeBinary_ok_iff.2 ⟨c, stands_zero_iff.2 ⟨r, rfl⟩, h, rfl⟩)
    (decodeBinary_ok_iff.2 ⟨c', stands_zero_iff.2 ⟨r', heq⟩, h', rfl⟩) heq

-- ==== reading the loop

/-- The bytes are the fields of the data elements, one chunk behind the
other. -/
inductive ReadsFields (catalog : Catalog) (fields : FieldMap) : List UInt8 → Bytes → Prop
  | nil : ReadsFields catalog fields [] []
  | cons {de : UInt8} {des : List UInt8} {spec : FieldSpec}
      {v : FieldValue} {c rest : Bytes}
      (hspec : lookup catalog de = .ok spec) (hread : Reads spec c v)
      (hv : fields de = some v) (hrest : ReadsFields catalog fields des rest) :
      ReadsFields catalog fields (de :: des) (c ++ rest)

/-- Only the fields of the data elements matter. -/
theorem ReadsFields.congr {fields' : FieldMap} (h : ReadsFields catalog fields des bytes)
    (heq : ∀ de ∈ des, fields' de = fields de) :
    ReadsFields catalog fields' des bytes := by
  induction h with
  | nil => exact .nil
  | @cons de des spec v c rest hspec hread hv _ ih =>
    have hde := heq de List.mem_cons_self
    exact .cons hspec hread (hde.trans hv) (ih fun d hd => heq d (List.mem_cons_of_mem _ hd))

/-- A chunk in front for another data element. -/
theorem ReadsFields.insert {spec : FieldSpec} {v : FieldValue} {rest : Bytes}
    (h : ReadsFields catalog fields des rest) (hde : de ∉ des)
    (hspec : lookup catalog de = .ok spec) (hread : Reads spec c v) :
    ReadsFields catalog (Function.update fields de (some v)) (de :: des) (c ++ rest) := by
  refine .cons hspec hread (Function.update_self ..) (h.congr ?_)
  intro d hd
  have hne : d ≠ de := by
    rintro rfl
    exact hde hd
  exact Function.update_of_ne hne _ _

theorem ReadsFields.isSome (h : ReadsFields catalog fields des bytes) :
    ∀ de ∈ des, (fields de).isSome = true := by
  induction h with
  | nil => exact fun _ hmem => absurd hmem List.not_mem_nil
  | @cons de des spec v c rest _ _ hv _ ih =>
    rw [List.forall_mem_cons]
    exact ⟨by rw [hv]; rfl, ih⟩

/-- The loop reads one chunk for each data element and leaves the other
fields alone. -/
theorem decodeFields_ok_iff (hnodup : des.Nodup) :
    ∀ {offset : Nat} {acc fields : FieldMap} {offset' : Nat},
      offset ≤ input.length →
      (decodeFields catalog input des offset acc = .ok (fields, offset') ↔
        ∃ bytes, Stands input offset bytes ∧
          ReadsFields catalog fields des bytes ∧
          (∀ de, de ∉ des → fields de = acc de) ∧
          offset' = offset + bytes.length) := by
  induction des with
  | nil =>
    intro offset acc fields offset' hin
    unfold decodeFields
    constructor
    · intro h
      obtain ⟨rfl, rfl⟩ := Prod.mk.inj (Except.ok.inj h)
      exact ⟨[], stands_nil hin, .nil, fun _ _ => rfl, rfl⟩
    · rintro ⟨bytes, -, hread, hkeep, rfl⟩
      cases hread
      obtain rfl : fields = acc := funext fun de => hkeep de (by simp)
      rfl
  | cons de des ih =>
    intro offset acc fields offset' hin
    obtain ⟨hde, hnodup⟩ := List.nodup_cons.1 hnodup
    unfold decodeFields
    constructor
    · intro h
      obtain ⟨spec, hspec, h⟩ := bind_eq_ok.1 h
      obtain ⟨⟨v, mid⟩, hv, h⟩ := bind_eq_ok.1 h
      obtain ⟨c, hst, hread, rfl⟩ := decodeField_ok_iff.1 hv
      obtain ⟨rest, hst', hrest, hkeep, rfl⟩ := (ih hnodup hst.le).1 h
      refine ⟨c ++ rest, Stands.append.2 ⟨hst, hst'⟩,
        .cons hspec hread ?_ hrest, ?_,
        by rw [List.length_append, Nat.add_assoc]⟩
      · rw [hkeep de hde, Function.update_self]
      · intro d hd
        obtain ⟨hne, hd⟩ := List.ne_and_not_mem_of_not_mem_cons hd
        rw [hkeep d hd, Function.update_of_ne hne]
    · rintro ⟨bytes, hst, hread, hkeep, rfl⟩
      cases hread with
      | @cons _ _ spec v c rest hspec hread hv hrest =>
        obtain ⟨hst, hst'⟩ := Stands.append.1 hst
        refine bind_eq_ok.2 ⟨spec, hspec, bind_eq_ok.2 ⟨(v, _),
          decodeField_ok_iff.2 ⟨c, hst, hread, rfl⟩, (ih hnodup hst.le).2
            ⟨rest, hst', hrest, ?_, by rw [List.length_append, Nat.add_assoc]⟩⟩⟩
        intro d hd
        by_cases heq : d = de
        · subst heq
          rw [hv, Function.update_self]
        · rw [Function.update_of_ne heq]
          exact hkeep d (List.not_mem_cons_of_ne_of_not_mem heq hd)

-- ==== reading a message

def ReadsMessage (catalog : Catalog) (wire : Bytes) (m : Iso8583Message) : Prop :=
  ∃ c d bytes, wire = c ++ (d ++ bytes) ∧ ReadsMti c m.mti ∧
    ReadsBitmap d m.bitmaps ∧
    ReadsFields catalog m.fields m.bitmaps.iterDes bytes ∧
    ∀ de, de ∉ m.bitmaps.iterDes → m.fields de = none

/-- Reading a message is finding bytes in front of the input that read as
it. -/
theorem decodeMessage_ok_iff :
    decodeMessage input catalog = .ok (m, offset) ↔
      ∃ wire, Stands input 0 wire ∧ ReadsMessage catalog wire m ∧ offset = wire.length := by
  have hwhole : ∀ c : Bytes, c.length = 2 →
      ((nibbles c).drop (2 * c.length - 4)).map digit = (nibbles c).map digit := by
    intro c hlen
    rw [hlen]
    rfl
  unfold decodeMessage
  constructor
  · intro h
    obtain ⟨-, h⟩ := refuse_bind_eq_ok.1 h
    obtain ⟨⟨t, off⟩, ht, h⟩ := bind_eq_ok.1 h
    obtain ⟨c, hst, hlen, hdec, rfl, rfl⟩ := bcdDecode_ok_iff.1 ht
    obtain ⟨mti, hmti⟩ := exists_readsMti hlen hdec
    simp only [hwhole c hlen, hmti.fromStrRadix16, ok_bind] at h
    obtain ⟨⟨b, off⟩, hb, h⟩ := bind_eq_ok.1 h
    obtain ⟨d, hst', hbm, rfl⟩ := decodeBinary_ok_iff.1 hb
    obtain ⟨⟨fields, off⟩, hf, h⟩ := bind_eq_ok.1 h
    obtain ⟨bytes, hst'', hfields, hnone, rfl⟩ :=
      (decodeFields_ok_iff b.nodup_iterDes hst'.le).1 hf
    obtain ⟨rfl, rfl⟩ := Prod.mk.inj (Except.ok.inj h)
    refine ⟨c ++ (d ++ bytes), Stands.append.2 ⟨hst, Stands.append.2
      ⟨hst', hst''⟩⟩, ⟨c, d, bytes, rfl, hmti, hbm, hfields, hnone⟩, ?_⟩
    simp only [List.length_append]
    omega
  · rintro ⟨wire, hst, ⟨c, d, bytes, rfl, hmti, hbm, hfields, hnone⟩, rfl⟩
    obtain ⟨hst, hst'⟩ := Stands.append.1 hst
    obtain ⟨hst', hst''⟩ := Stands.append.1 hst'
    obtain ⟨hlen, hdec, -⟩ := id hmti
    have henough : ¬ input.length < 2 := by
      have := hst.le
      omega
    refine refuse_bind_eq_ok.2 ⟨henough, bind_eq_ok.2 ⟨(_, _),
      bcdDecode_ok_iff.2 ⟨c, hst, hlen, hdec, rfl, rfl⟩, ?_⟩⟩
    simp only [hwhole c hlen, hmti.fromStrRadix16, ok_bind]
    refine bind_eq_ok.2 ⟨(_, _), decodeBinary_ok_iff.2 ⟨d, hst', hbm, rfl⟩,
      bind_eq_ok.2 ⟨(_, _), (decodeFields_ok_iff (Bitmaps.nodup_iterDes _)
        hst'.le).2 ⟨bytes, hst'', hfields, hnone, rfl⟩, ?_⟩⟩
    simp only [List.length_append, Nat.zero_add, Nat.add_assoc]

-- ==== writing the loop

theorem mem_keys (fields : FieldMap) (de : UInt8) :
    de ∈ keys fields ↔ (fields de).isSome = true := by
  have hmem : de ∈ (List.range 256).map UInt8.ofNat :=
    List.mem_map.2 ⟨de.toNat, List.mem_range.2 de.toNat_lt, UInt8.ofNat_toNat⟩
  rw [keys, List.mem_filter]
  exact and_iff_right hmem

theorem has_bitmapsOf (fields : FieldMap) (h : de ∈ allDes) :
    (bitmapsOf fields).has de = (fields de).isSome := by
  have hin := InRange.of_mem h
  rw [bitmapsOf, Bitmaps.has_foldl_set hin, Bitmaps.has_new hin,
    Bool.false_or, Bool.eq_iff_iff, decide_eq_true_eq, mem_keys]

theorem mem_iterDes_bitmapsOf (fields : FieldMap) (de : UInt8) :
    de ∈ (bitmapsOf fields).iterDes ↔ de ∈ allDes ∧ (fields de).isSome = true := by
  rw [Bitmaps.mem_iterDes]
  refine and_congr_right fun h => ?_
  rw [has_bitmapsOf fields h]

theorem encodeFields_cons_iff :
    encodeFields catalog fields (de :: des) = .ok bytes ↔
      ∃ v spec c rest, fields de = some v ∧ lookup catalog de = .ok spec ∧
        encodeField spec v = .ok c ∧
        encodeFields catalog fields des = .ok rest ∧ bytes = c ++ rest := by
  rw [encodeFields]
  constructor
  · intro h
    cases hv : fields de with
    | none =>
      simp only [hv, error_bind] at h
      cases h
    | some v =>
      simp only [hv, ok_bind] at h
      obtain ⟨spec, hspec, h⟩ := bind_eq_ok.1 h
      obtain ⟨c, hc, h⟩ := bind_eq_ok.1 h
      obtain ⟨rest, hrest, h⟩ := bind_eq_ok.1 h
      obtain rfl := Except.ok.inj h
      exact ⟨v, spec, c, rest, rfl, hspec, hc, hrest, rfl⟩
  · rintro ⟨v, spec, c, rest, hv, hspec, hc, hrest, rfl⟩
    simp only [hv, hspec, hc, hrest, ok_bind]

theorem exists_encodeFields_iff :
    (∃ bytes, encodeFields catalog fields des = .ok bytes) ↔
      ∀ de ∈ des, ∃ v spec, fields de = some v ∧
        lookup catalog de = .ok spec ∧ Fits spec v := by
  induction des with
  | nil => exact ⟨fun _ _ h => absurd h List.not_mem_nil, fun _ => ⟨[], rfl⟩⟩
  | cons de des ih =>
    rw [List.forall_mem_cons, ← ih]
    constructor
    · rintro ⟨bytes, h⟩
      obtain ⟨v, spec, c, rest, hv, hspec, hc, hrest, -⟩ :=
        encodeFields_cons_iff.1 h
      exact ⟨⟨v, spec, hv, hspec, exists_encodeField_iff.1 ⟨c, hc⟩⟩, rest, hrest⟩
    · rintro ⟨⟨v, spec, hv, hspec, hfits⟩, rest, hrest⟩
      obtain ⟨c, hc⟩ := exists_encodeField_iff.2 hfits
      exact ⟨c ++ rest, encodeFields_cons_iff.2
        ⟨v, spec, c, rest, hv, hspec, hc, hrest, rfl⟩⟩

/-- What the loop writes is read, each field as itself exactly when it is
kept. -/
theorem readsFields_encodeFields (hnodup : des.Nodup) :
    ∀ {bytes : Bytes}, encodeFields catalog fields des = .ok bytes →
      ∃ fields', ReadsFields catalog fields' des bytes ∧
        (∀ de, de ∉ des → fields' de = none) ∧
        ∀ de ∈ des, ∀ v spec, fields de = some v →
          lookup catalog de = .ok spec →
          (fields' de = some v ↔ Kept spec v) := by
  induction des with
  | nil =>
    intro bytes h
    obtain rfl := Except.ok.inj h
    exact ⟨fun _ => none, .nil, fun _ _ => rfl,
      fun _ h => absurd h List.not_mem_nil⟩
  | cons de des ih =>
    intro bytes h
    obtain ⟨hde, hnodup⟩ := List.nodup_cons.1 hnodup
    obtain ⟨v, spec, c, rest, hv, hspec, hc, hrest, rfl⟩ :=
      encodeFields_cons_iff.1 h
    obtain ⟨fields', hreads, hnone, hkept⟩ := ih hnodup hrest
    obtain ⟨v', hread, hv'⟩ := reads_encodeField hc
    have hother : ∀ d, d ≠ de → Function.update fields' de (some v') d = fields' d :=
      fun d hne => Function.update_of_ne hne _ _
    refine ⟨Function.update fields' de (some v'), hreads.insert hde hspec hread, ?_, ?_⟩
    · intro d hd
      obtain ⟨hne, hd⟩ := List.ne_and_not_mem_of_not_mem_cons hd
      rw [hother d hne, hnone d hd]
    · intro d hd w spec' hw hspec'
      by_cases heq : d = de
      · subst heq
        obtain rfl := Option.some.inj (hv.symm.trans hw)
        obtain rfl := Except.ok.inj (hspec.symm.trans hspec')
        rw [Function.update_self, Option.some.injEq]
        exact hv'
      · rw [hother d heq]
        exact hkept d (List.mem_of_ne_of_mem heq hd) w spec' hw hspec'

-- ==== writing a message

/-- The encoder accepts the message: the type indicator has decimal
digits and every field from 2 to 128 has an entry it fits. -/
def Encodable (m : Iso8583Message) (catalog : Catalog) : Prop :=
  (∀ c ∈ hex4 m.mti, c.isDigit = true) ∧
    ∀ de ∈ allDes, ∀ v, m.fields de = some v →
      ∃ spec, lookup catalog de = .ok spec ∧ Fits spec v

theorem encodeWithCatalog_ok_iff :
    encodeWithCatalog m catalog = .ok wire ↔
      ∃ c bytes, bcdEncode (hex4 m.mti) = .ok c ∧
        encodeFields catalog m.fields (bitmapsOf m.fields).iterDes = .ok bytes ∧
        wire = c ++ ((bitmapsOf m.fields).encodeBinary ++ bytes) := by
  unfold encodeWithCatalog
  constructor
  · intro h
    obtain ⟨c, hc, h⟩ := bind_eq_ok.1 h
    obtain ⟨bytes, hbytes, h⟩ := bind_eq_ok.1 h
    obtain rfl := Except.ok.inj h
    exact ⟨c, bytes, hc, hbytes, List.append_assoc ..⟩
  · rintro ⟨c, bytes, hc, hbytes, rfl⟩
    simp only [hc, hbytes, ok_bind, List.append_assoc]

theorem exists_encode_iff :
    (∃ wire, encodeWithCatalog m catalog = .ok wire) ↔ Encodable m catalog := by
  have hmti : (∃ c, bcdEncode (hex4 m.mti) = .ok c) ↔ ∀ c ∈ hex4 m.mti, c.isDigit = true := by
    rw [← utf8_digits_iff]
    simp only [bcdEncode_ok_iff, exists_and_left, exists_eq, and_true]
  have hfields : (∃ bytes, encodeFields catalog m.fields
      (bitmapsOf m.fields).iterDes = .ok bytes) ↔
      ∀ de ∈ allDes, ∀ v, m.fields de = some v →
        ∃ spec, lookup catalog de = .ok spec ∧ Fits spec v := by
    rw [exists_encodeFields_iff]
    constructor
    · intro h de hde v hv
      obtain ⟨w, spec, hw, hspec, hfits⟩ := h de
        ((mem_iterDes_bitmapsOf _ _).2 ⟨hde, by rw [hv]; rfl⟩)
      obtain rfl := Option.some.inj (hv.symm.trans hw)
      exact ⟨spec, hspec, hfits⟩
    · intro h de hde
      obtain ⟨hde, hsome⟩ := (mem_iterDes_bitmapsOf _ _).1 hde
      obtain ⟨v, hv⟩ := Option.isSome_iff_exists.1 hsome
      obtain ⟨spec, hspec, hfits⟩ := h de hde v hv
      exact ⟨v, spec, hv, hspec, hfits⟩
  rw [Encodable, ← hmti, ← hfields]
  constructor
  · rintro ⟨wire, h⟩
    obtain ⟨c, bytes, hc, hbytes, -⟩ := encodeWithCatalog_ok_iff.1 h
    exact ⟨⟨c, hc⟩, bytes, hbytes⟩
  · rintro ⟨⟨c, hc⟩, bytes, hbytes⟩
    exact ⟨_, encodeWithCatalog_ok_iff.2 ⟨c, bytes, hc, hbytes, rfl⟩⟩

/-- What is written is read as a message with the same type indicator,
the kept fields and no data element the encoder did not write. -/
theorem readsMessage_encode (h : encodeWithCatalog m catalog = .ok wire) :
    ∃ m', ReadsMessage catalog wire m' ∧ m'.mti = m.mti ∧
      (∀ de ∈ allDes, ∀ v spec, m.fields de = some v →
        lookup catalog de = .ok spec →
        (m'.fields de = some v ↔ Kept spec v)) ∧
      ∀ de, (de ∈ allDes → m.fields de = none) → m'.fields de = none := by
  obtain ⟨c, bytes, hc, hbytes, rfl⟩ := encodeWithCatalog_ok_iff.1 h
  have hdes : Bitmaps.iterDes ⟨(bitmapsOf m.fields).wireBits⟩ = (bitmapsOf m.fields).iterDes :=
    Bitmaps.iterDes_congr fun de hde => Bitmaps.has_wireBits _ hde
  obtain ⟨fields, hreads, hnone, hkept⟩ :=
    readsFields_encodeFields (Bitmaps.nodup_iterDes _) hbytes
  refine ⟨{ mti := m.mti, bitmaps := ⟨(bitmapsOf m.fields).wireBits⟩, fields },
    ⟨c, _, bytes, rfl, encode_mti_iff.1 hc, reads_encodeBinary _, ?_, ?_⟩,
    rfl, ?_, ?_⟩
  · rw [hdes]
    exact hreads
  · rw [hdes]
    exact hnone
  · intro de hde v spec hv
    exact hkept de ((mem_iterDes_bitmapsOf _ _).2 ⟨hde, by rw [hv]; rfl⟩) v spec hv
  · intro de hde
    refine hnone de fun hmem => ?_
    obtain ⟨hall, hsome⟩ := (mem_iterDes_bitmapsOf _ _).1 hmem
    rw [hde hall] at hsome
    cases hsome

-- ==== there and back

/-- The round trip of a message: what is encoded is decoded as the same
type indicator and the same fields, and no value is longer than the fixed
or maximum length of its field. -/
def RoundTrips (m : Iso8583Message) (catalog : Catalog) : Prop :=
  ∀ wire, encodeWithCatalog m catalog = .ok wire →
    (∃ m', decodeWithCatalog wire catalog = .ok m' ∧ m'.mti = m.mti ∧
      ∀ de, m'.fields de = m.fields de) ∧
    ∀ de v spec, m.fields de = some v → lookup catalog de = .ok spec →
      v.length ≤ spec.length.limit

/-- The data elements are among those the encoder writes, and every value
is one its field keeps and no longer than it. -/
def KeepsFields (m : Iso8583Message) (catalog : Catalog) : Prop :=
  ∀ de v, m.fields de = some v → de ∈ allDes ∧
    ∀ spec, lookup catalog de = .ok spec → Kept spec v ∧ v.length ≤ spec.length.limit

theorem decodeWithCatalog_ok_iff :
    decodeWithCatalog input catalog = .ok m ↔
      ∃ offset, decodeMessage input catalog = .ok (m, offset) := by
  unfold decodeWithCatalog
  rw [bind_eq_ok]
  constructor
  · rintro ⟨⟨m', offset⟩, hm, h⟩
    obtain rfl := Except.ok.inj h
    exact ⟨offset, hm⟩
  · rintro ⟨offset, hm⟩
    exact ⟨(m, offset), hm, rfl⟩

theorem ReadsMessage.decode (h : ReadsMessage catalog wire m) :
    decodeWithCatalog wire catalog = .ok m :=
  decodeWithCatalog_ok_iff.2 ⟨wire.length, decodeMessage_ok_iff.2
    ⟨wire, stands_zero_iff.2 ⟨[], (List.append_nil wire).symm⟩, h, rfl⟩⟩

/-- A message survives encoding and decoding exactly when it is refused
or keeps its fields. -/
theorem roundTrips_iff (m : Iso8583Message) (catalog : Catalog) :
    RoundTrips m catalog ↔ (Encodable m catalog → KeepsFields m catalog) := by
  constructor
  · intro h hencodable de v hv
    obtain ⟨wire, hwire⟩ := exists_encode_iff.2 hencodable
    obtain ⟨⟨m', hm', -, hsame⟩, hlimit⟩ := h wire hwire
    obtain ⟨m'', hreads, -, hkept, hnone⟩ := readsMessage_encode hwire
    obtain rfl := Except.ok.inj (hm'.symm.trans hreads.decode)
    have hde : de ∈ allDes := by
      by_contra hout
      have hnil := hnone de fun hmem => absurd hmem hout
      rw [hsame de, hv] at hnil
      cases hnil
    refine ⟨hde, fun spec hspec => ⟨?_, hlimit de v spec hv hspec⟩⟩
    exact (hkept de hde v spec hv hspec).1 ((hsame de).trans hv)
  · intro h wire hwire
    have hencodable := exists_encode_iff.1 ⟨wire, hwire⟩
    have hkeeps := h hencodable
    obtain ⟨m', hreads, hmti, hkept, hnone⟩ := readsMessage_encode hwire
    refine ⟨⟨m', hreads.decode, hmti, ?_⟩, ?_⟩
    · intro de
      cases hv : m.fields de with
      | none => exact hnone de fun _ => hv
      | some v =>
        obtain ⟨hde, hfield⟩ := hkeeps de v hv
        obtain ⟨spec, hspec, -⟩ := hencodable.2 de hde v hv
        exact (hkept de hde v spec hv hspec).2 (hfield spec hspec).1
    · intro de v spec hv hspec
      exact ((hkeeps de v hv).2 spec hspec).2

def fifteenDigits : Iso8583Message :=
  (Iso8583Message.new 0x0100).set 2 (.numeric "378282246310005".toList)

/-- The account number comes back with a 0 in front. -/
theorem roundTrips_fails : ¬ RoundTrips fifteenDigits defaultCatalog := by
  have hencode : encodeWithCatalog fifteenDigits defaultCatalog
      = .ok [0x01, 0x00, 0x40, 0, 0, 0, 0, 0, 0, 0,
        0x08, 0x03, 0x78, 0x28, 0x22, 0x46, 0x31, 0x00, 0x05] := by
    decide +kernel
  have hdecode : (decodeWithCatalog [0x01, 0x00, 0x40, 0, 0, 0, 0, 0, 0, 0,
        0x08, 0x03, 0x78, 0x28, 0x22, 0x46, 0x31, 0x00, 0x05]
        defaultCatalog).map (fun m => m.fields 2)
      = .ok (some (.numeric "0378282246310005".toList)) := by
    decide +kernel
  intro h
  obtain ⟨⟨m', hm', -, hsame⟩, -⟩ := h _ hencode
  rw [hm'] at hdecode
  have hfield : m'.fields 2 = some (.numeric "0378282246310005".toList) :=
    Except.ok.inj hdecode
  rw [hsame 2] at hfield
  revert hfield
  decide

-- ==== canonical wire

/-- The bytes are the fields of the data elements as the encoder writes
them. -/
inductive CanonicalFields (catalog : Catalog) : List UInt8 → Bytes → Prop
  | nil : CanonicalFields catalog [] []
  | cons {de : UInt8} {des : List UInt8} {spec : FieldSpec}
      {c rest : Bytes} (hspec : lookup catalog de = .ok spec)
      (hc : Canonical spec c) (hrest : CanonicalFields catalog des rest) :
      CanonicalFields catalog (de :: des) (c ++ rest)

/-- A message as the encoder writes it: a decimal type indicator, bitmaps
without an empty secondary, and the canonical fields they name. -/
def CanonicalWire (catalog : Catalog) (wire : Bytes) : Prop :=
  ∃ c d bytes b, wire = c ++ (d ++ bytes) ∧ c.length = 2 ∧ DecimalBytes c ∧
    ReadsBitmap d b ∧ CanonicalBitmap d ∧
    CanonicalFields catalog b.iterDes bytes

theorem CanonicalFields.reads (h : CanonicalFields catalog des bytes) (hnodup : des.Nodup) :
    ∃ fields, ReadsFields catalog fields des bytes ∧ ∀ de, de ∉ des → fields de = none := by
  induction h with
  | nil => exact ⟨fun _ => none, .nil, fun _ _ => rfl⟩
  | @cons de des spec c rest hspec hc _ ih =>
    obtain ⟨hde, hnodup⟩ := List.nodup_cons.1 hnodup
    obtain ⟨fields, hreads, hnone⟩ := ih hnodup
    obtain ⟨v, hread⟩ := hc.reads
    refine ⟨Function.update fields de (some v), hreads.insert hde hspec hread, ?_⟩
    intro d hd
    obtain ⟨hne, hd⟩ := List.ne_and_not_mem_of_not_mem_cons hd
    rw [Function.update_of_ne hne, hnone d hd]

/-- Fields that are read are written back as the same bytes exactly when
they are canonical. -/
theorem ReadsFields.encode_iff (h : ReadsFields catalog fields des bytes) :
    encodeFields catalog fields des = .ok bytes ↔ CanonicalFields catalog des bytes := by
  induction h with
  | nil => exact iff_of_true rfl .nil
  | @cons de des spec v c rest hspec hread hv hrest ih =>
    constructor
    · intro h
      obtain ⟨w, spec', c', rest', hw, hspec', hc', hrest', heq⟩ :=
        encodeFields_cons_iff.1 h
      obtain rfl := Option.some.inj (hv.symm.trans hw)
      obtain rfl := Except.ok.inj (hspec.symm.trans hspec')
      obtain ⟨v', hread', -⟩ := reads_encodeField hc'
      obtain ⟨rfl, -, rfl⟩ := hread.unique hread' heq
      exact .cons hspec (hread.encode_iff.1 hc') (ih.1 hrest')
    · intro h
      generalize hbytes : c ++ rest = bytes at h
      cases h with
      | @cons _ _ spec' c' rest' hspec' hc' hrest' =>
        obtain rfl := Except.ok.inj (hspec.symm.trans hspec')
        obtain ⟨v', hread'⟩ := hc'.reads
        obtain ⟨rfl, -, rfl⟩ := hread.unique hread' hbytes
        exact encodeFields_cons_iff.2 ⟨v, spec, c, rest, hv, hspec,
          hread.encode_iff.2 hc', ih.2 hrest', rfl⟩

theorem CanonicalWire.reads (h : CanonicalWire catalog wire) :
    ∃ m, ReadsMessage catalog wire m := by
  obtain ⟨c, d, bytes, b, rfl, hlen, hdec, hbm, -, hfields⟩ := h
  obtain ⟨mti, hmti⟩ := exists_readsMti hlen hdec
  obtain ⟨fields, hreads, hnone⟩ := hfields.reads b.nodup_iterDes
  exact ⟨{ mti, bitmaps := b, fields }, c, d, bytes, rfl, hmti, hbm, hreads, hnone⟩

theorem ReadsMessage.has_bitmapsOf (h : ReadsMessage catalog wire m)
    (hde : de ∈ allDes) : (bitmapsOf m.fields).has de = m.bitmaps.has de := by
  obtain ⟨c, d, bytes, -, -, -, hreads, hnone⟩ := h
  rw [OpIso8583.has_bitmapsOf _ hde]
  by_cases hmem : de ∈ m.bitmaps.iterDes
  · rw [hreads.isSome de hmem, ((Bitmaps.mem_iterDes _ _).1 hmem).2]
  · have habsent : m.bitmaps.has de = false := by
      rw [Bool.eq_false_iff]
      exact fun hhas => hmem ((Bitmaps.mem_iterDes _ _).2 ⟨hde, hhas⟩)
    rw [hnone de hmem, habsent]
    rfl

/-- A message that is read is written back as the same bytes exactly when
they are canonical. -/
theorem ReadsMessage.encode_iff (h : ReadsMessage catalog wire m) :
    encodeWithCatalog m catalog = .ok wire ↔ CanonicalWire catalog wire := by
  have hdes : (bitmapsOf m.fields).iterDes = m.bitmaps.iterDes :=
    Bitmaps.iterDes_congr fun de hde => h.has_bitmapsOf hde
  have hbinary : (bitmapsOf m.fields).encodeBinary = m.bitmaps.encodeBinary :=
    Bitmaps.encodeBinary_congr fun de hde => h.has_bitmapsOf hde
  obtain ⟨c, d, bytes, rfl, hmti, hbm, hreads, -⟩ := h
  rw [encodeWithCatalog_ok_iff, hdes, hbinary]
  constructor
  · rintro ⟨c', bytes', hc', hbytes', heq⟩
    have hlen : c.length = c'.length :=
      hmti.1.trans (encode_mti_iff.1 hc').1.symm
    obtain ⟨-, hrest⟩ := List.append_inj heq hlen
    obtain ⟨hd, -, rfl⟩ :=
      hbm.unique (reads_encodeBinary m.bitmaps) hrest
    exact ⟨c, d, bytes, m.bitmaps, rfl, hmti.1, hmti.2.1, hbm,
      hbm.encode_iff.1 hd.symm, hreads.encode_iff.1 hbytes'⟩
  · rintro ⟨c', d', bytes', b, heq, hlen, -, hbm', hcanonical, hfields⟩
    obtain ⟨-, hrest⟩ := List.append_inj heq (hmti.1.trans hlen.symm)
    obtain ⟨rfl, rfl, rfl⟩ := hbm.unique hbm' hrest
    exact ⟨c, bytes, encode_mti_iff.2 hmti, hreads.encode_iff.2 hfields,
      by rw [hbm.encode_iff.2 hcanonical]⟩

-- ==== back and there

def Lossless (catalog : Catalog) (input : Bytes) : Prop :=
  ∀ m offset, decodeMessage input catalog = .ok (m, offset) →
    encodeWithCatalog m catalog = .ok (input.take offset)

/-- Neither input loses information, and they are decoded as one message
only if the bytes consumed are the same. -/
def LosesNothing (catalog : Catalog) (x y : Bytes) : Prop :=
  Lossless catalog x ∧ Lossless catalog y ∧
    ∀ m offset offset', decodeMessage x catalog = .ok (m, offset) →
      decodeMessage y catalog = .ok (m, offset') →
      x.take offset = y.take offset'

def Accepts (catalog : Catalog) (input : Bytes) : Prop :=
  ∃ m, decodeWithCatalog input catalog = .ok m

def StartsCanonical (catalog : Catalog) (input : Bytes) : Prop :=
  ∃ wire rest, input = wire ++ rest ∧ CanonicalWire catalog wire

theorem decodeMessage_take (h : decodeMessage input catalog = .ok (m, offset)) :
    ReadsMessage catalog (input.take offset) m ∧
      input = input.take offset ++ input.drop offset := by
  obtain ⟨wire, hst, hreads, rfl⟩ := decodeMessage_ok_iff.1 h
  obtain ⟨rest, rfl⟩ := stands_zero_iff.1 hst
  rw [List.take_left]
  exact ⟨hreads, by rw [List.drop_left]⟩

/-- An input is decoded without loss exactly when it is refused or starts
in canonical form. -/
theorem lossless_iff (catalog : Catalog) (input : Bytes) :
    Lossless catalog input ↔ (Accepts catalog input → StartsCanonical catalog input) := by
  constructor
  · rintro h ⟨m, hm⟩
    obtain ⟨offset, hm⟩ := decodeWithCatalog_ok_iff.1 hm
    obtain ⟨hreads, hinput⟩ := decodeMessage_take hm
    exact ⟨_, _, hinput, hreads.encode_iff.1 (h m offset hm)⟩
  · intro h m offset hm
    obtain ⟨hreads, -⟩ := decodeMessage_take hm
    obtain ⟨wire, rest, heq, hcanonical⟩ :=
      h ⟨m, decodeWithCatalog_ok_iff.2 ⟨offset, hm⟩⟩
    -- The canonical message in front is the one that was read.
    obtain ⟨m', hreads'⟩ := hcanonical.reads
    have hm' : decodeMessage input catalog = .ok (m', wire.length) :=
      decodeMessage_ok_iff.2 ⟨wire, stands_zero_iff.2 ⟨rest, heq⟩, hreads',
        rfl⟩
    obtain ⟨-, rfl⟩ := Prod.mk.inj (Except.ok.inj (hm.symm.trans hm'))
    rw [hreads.encode_iff, heq, List.take_left]
    exact hcanonical

/-- Two inputs are decoded without loss exactly when each is refused or
starts in canonical form. -/
theorem losesNothing_iff (catalog : Catalog) (x y : Bytes) :
    LosesNothing catalog x y ↔
      (Accepts catalog x → StartsCanonical catalog x) ∧
        (Accepts catalog y → StartsCanonical catalog y) := by
  rw [← lossless_iff, ← lossless_iff]
  constructor
  · rintro ⟨hx, hy, -⟩
    exact ⟨hx, hy⟩
  · rintro ⟨hx, hy⟩
    refine ⟨hx, hy, ?_⟩
    intro m offset offset' hdx hdy
    have hsame := (hx m offset hdx).symm.trans (hy m offset' hdy)
    exact Except.ok.inj hsame

/-- An authorization request whose account number has one nibble that is
given. -/
def oneNibble (n : UInt8) : Bytes :=
  [0x01, 0x00, 0x40, 0, 0, 0, 0, 0, 0, 0, 0x02, 0x12, n <<< 4 ||| 0x04]

/-- A nibble that is not decimal is passed over: the two requests are one
message, and it is encoded as neither. -/
theorem losesNothing_fails : ¬ LosesNothing defaultCatalog (oneNibble 0xA) (oneNibble 0xB) := by
  have hback : (do
      let r ← decodeMessage (oneNibble 0xA) defaultCatalog
      let wire ← encodeWithCatalog r.1 defaultCatalog
      .ok (wire, r.2)) = Except.ok ([0x01, 0x00, 0x40, 0, 0, 0, 0, 0, 0, 0,
        0x02, 0x01, 0x24], 13) := by
    decide +kernel
  rintro ⟨h, -, -⟩
  obtain ⟨⟨m, offset⟩, hm, hback⟩ := bind_eq_ok.1 hback
  obtain ⟨wire, hwire, hback⟩ := bind_eq_ok.1 hback
  obtain ⟨rfl, rfl⟩ := Prod.mk.inj (Except.ok.inj hback)
  have hsame := Except.ok.inj (hwire.symm.trans (h m 13 hm))
  revert hsame
  decide

end OpenStandards.OpIso8583

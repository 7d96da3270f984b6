/-
What the codecs accept, read and write, as relations between bytes and
values that no longer mention an offset.

`Stands input offset c` is that the bytes `c` stand in the input at the
offset. Every decoder is then "there are bytes standing here that read
as this value, and the new offset is behind them", and the proofs about
fields and messages work with the bytes.
-/
import OpenStandards.OpIso8583.Codec

namespace OpenStandards.OpIso8583

open Lib Text

-- ==== bytes in place

def Stands (input : Bytes) (offset : Nat) (c : Bytes) : Prop :=
  ∃ before after, input = before ++ (c ++ after) ∧ before.length = offset

variable {input bs : Bytes} {offset offset' : Nat} {ns : List UInt8}
    {b code : UInt8} {s t : Text} {kind : VarLenKind}

theorem Stands.append {c d : Bytes} :
    Stands input offset (c ++ d) ↔
      Stands input offset c ∧ Stands input (offset + c.length) d := by
  constructor
  · rintro ⟨before, after, rfl, rfl⟩
    refine ⟨⟨before, d ++ after, by simp, rfl⟩, before ++ c, after, by simp, by simp⟩
  · rintro ⟨⟨before, after, rfl, rfl⟩, ⟨before', after', h, hlen⟩⟩
    have hsplit : before ++ c ++ after = before' ++ (d ++ after') := by
      rw [List.append_assoc]
      exact h
    obtain ⟨hbefore, hafter⟩ := List.append_inj hsplit (by simp [hlen])
    exact ⟨before, after', by rw [hafter, List.append_assoc], rfl⟩

/-- Taking bytes is finding them in place. -/
theorem takeAt_ok_iff {n : Nat} {c : Bytes} :
    takeAt input offset n = .ok c ↔ Stands input offset c ∧ c.length = n := by
  unfold takeAt
  split
  · next hshort =>
      constructor
      · intro h
        cases h
      · rintro ⟨⟨before, after, rfl, rfl⟩, rfl⟩
        simp only [List.length_append] at hshort
        omega
  · next henough =>
      constructor
      · intro h
        obtain rfl := Except.ok.inj h
        refine ⟨⟨input.take offset, (input.drop offset).drop n, ?_, ?_⟩, ?_⟩
        · rw [List.take_append_drop, List.take_append_drop]
        · rw [List.length_take]
          omega
        · rw [List.length_take, List.length_drop]
          omega
      · rintro ⟨⟨before, after, rfl, rfl⟩, rfl⟩
        rw [List.drop_left, List.take_left]

theorem checkBytes_ok_iff {allowed : UInt8 → Bool} {u : Unit} :
    checkBytes allowed offset bs = .ok u ↔ ∀ b ∈ bs, allowed b = true := by
  induction bs generalizing offset with
  | nil => simp [checkBytes]
  | cons b bs ih =>
    rw [checkBytes, List.forall_mem_cons]
    split
    · next hb => rw [ih, and_iff_right hb]
    · next hb => simp [hb]

-- ==== digits

def DecimalBytes (bs : Bytes) : Prop := ∀ n ∈ nibbles bs, n ≤ 9

def digitNibbles (s : Text) : List UInt8 := (utf8 s).map (· - 0x30)

/-- An odd number of nibbles behind a 0. -/
def evenNibbles (ns : List UInt8) : List UInt8 :=
  if ns.length % 2 = 1 then 0 :: ns else ns

theorem length_evenNibbles (ns : List UInt8) :
    (evenNibbles ns).length = 2 * ((ns.length + 1) / 2) := by
  unfold evenNibbles
  split
  · rw [List.length_cons]
    omega
  · omega

theorem mem_evenNibbles (h : ∀ n ∈ ns, n ≤ 9) : ∀ n ∈ evenNibbles ns, n ≤ 9 := by
  intro n hn
  unfold evenNibbles at hn
  split at hn
  · rcases List.mem_cons.1 hn with rfl | hn
    · decide
    · exact h n hn
  · exact h n hn

theorem isAsciiDigit_iff (b : UInt8) : isAsciiDigit b = true ↔ 48 ≤ b.toNat ∧ b.toNat ≤ 57 := by
  simp only [isAsciiDigit, Bool.and_eq_true, decide_eq_true_eq, UInt8.le_iff_toNat_le]
  rfl

theorem toNat_add_of_le {n : UInt8} (h : n ≤ 9) : (0x30 + n).toNat = 48 + n.toNat := by
  have hn : n.toNat ≤ 9 := h
  rw [UInt8.toNat_add]
  exact Nat.mod_eq_of_lt (by
    show 48 + n.toNat < 256
    omega)

theorem sub_le_nine (h : isAsciiDigit b = true) : b - 0x30 ≤ 9 := by
  obtain ⟨hlo, hhi⟩ := (isAsciiDigit_iff b).1 h
  rw [UInt8.le_iff_toNat_le, UInt8.toNat_sub_of_le b 0x30 hlo]
  show b.toNat - 48 ≤ 9
  omega

theorem isAsciiDigit_add {n : UInt8} (h : n ≤ 9) : isAsciiDigit (0x30 + n) = true := by
  have hn : n.toNat ≤ 9 := h
  rw [isAsciiDigit_iff, toNat_add_of_le h]
  omega

theorem add_sub_digit (b : UInt8) : 0x30 + (b - 0x30) = b := by simp

theorem sub_add_digit (n : UInt8) : (0x30 + n) - 0x30 = n := by simp

theorem sevenBit_of_digits (h : ∀ b ∈ bs, isAsciiDigit b = true) : SevenBit bs := by
  intro b hb
  have := ((isAsciiDigit_iff b).1 (h b hb)).2
  show b.toNat < 128
  omega

/-- Decimal nibbles as digits have the digits' bytes. -/
theorem utf8_map_digit (h : ∀ n ∈ ns, n ≤ 9) : utf8 (ns.map digit) = ns.map (0x30 + ·) := by
  have hmap : ns.map digit = (ns.map (0x30 + ·)).map ofByte := by
    rw [List.map_map]
    rfl
  rw [hmap, utf8_map_ofByte]
  refine sevenBit_of_digits ?_
  intro b hb
  obtain ⟨n, hn, rfl⟩ := List.mem_map.1 hb
  exact isAsciiDigit_add (h n hn)

theorem digitNibbles_map_digit (h : ∀ n ∈ ns, n ≤ 9) : digitNibbles (ns.map digit) = ns := by
  rw [digitNibbles, utf8_map_digit h, List.map_map]
  simp only [Function.comp_def, sub_add_digit, List.map_id']

theorem map_digit_digitNibbles (h : ∀ b ∈ utf8 s, isAsciiDigit b = true) :
    (digitNibbles s).map digit = s ∧ ∀ n ∈ digitNibbles s, n ≤ 9 := by
  constructor
  · rw [digitNibbles, List.map_map]
    simp only [Function.comp_def, digit, add_sub_digit]
    exact map_ofByte_utf8 (sevenBit_of_digits h)
  · intro n hn
    obtain ⟨b, hb, rfl⟩ := List.mem_map.1 hn
    exact sub_le_nine (h b hb)

theorem isDigit_digit {n : UInt8} (h : n ≤ 9) : (digit n).isDigit = true := by
  have hn : n.toNat ≤ 9 := h
  have hval : (digit n).toNat = 48 + n.toNat := by
    rw [digit, toNat_ofByte, toNat_add_of_le h]
    show (0x30 + n).toNat < 128
    rw [toNat_add_of_le h]
    omega
  have hlo : (48 : UInt32) ≤ (digit n).val := by
    show 48 ≤ (digit n).toNat
    omega
  have hhi : (digit n).val ≤ 57 := by
    show (digit n).toNat ≤ 57
    omega
  simp only [Char.isDigit, Bool.and_eq_true, decide_eq_true_eq]
  exact ⟨hlo, hhi⟩

theorem utf8_digits_iff (s : Text) :
    (∀ b ∈ utf8 s, isAsciiDigit b = true) ↔ ∀ c ∈ s, c.isDigit = true := by
  constructor
  · intro h c hc
    obtain ⟨hs, hns⟩ := map_digit_digitNibbles h
    rw [← hs] at hc
    obtain ⟨n, hn, rfl⟩ := List.mem_map.1 hc
    exact isDigit_digit (hns n hn)
  · intro h b hb
    obtain ⟨c, hc, hb⟩ := List.mem_flatMap.1 hb
    have hval := digit_val (h c hc)
    have hlt : c.val.toNat ≤ 57 := hval.2
    rw [String.utf8EncodeChar] at hb
    simp only [if_pos (show c.val.toNat ≤ 127 by omega), List.mem_singleton] at hb
    have hnat : b.toNat = c.toNat := by
      rw [hb, UInt8.toNat_ofNat']
      exact Nat.mod_eq_of_lt (by omega)
    rw [isAsciiDigit_iff, hnat]
    exact hval

-- ==== BCD

theorem bcdEncode_ok_iff {c : Bytes} :
    bcdEncode s = .ok c ↔ (∀ b ∈ utf8 s, isAsciiDigit b = true) ∧
      c = pack (evenNibbles (digitNibbles s)) := by
  have hnorm : (if (utf8 s).length % 2 = 1 then 0x30 :: utf8 s else utf8 s).map
      (· - 0x30) = evenNibbles (digitNibbles s) := by
    unfold evenNibbles digitNibbles
    rw [List.length_map]
    split
    · simp
    · rfl
  unfold bcdEncode
  rw [check_bind_eq_ok, checkBytes_ok_iff]
  simp only [hnorm]
  constructor
  · rintro ⟨h, hc⟩
    exact ⟨h, (Except.ok.inj hc).symm⟩
  · rintro ⟨h, rfl⟩
    exact ⟨h, rfl⟩

theorem nibbles_bcdEncode {c : Bytes} (h : bcdEncode s = .ok c) :
    nibbles c = evenNibbles (digitNibbles s) := by
  obtain ⟨hs, rfl⟩ := bcdEncode_ok_iff.1 h
  have hns := mem_evenNibbles (map_digit_digitNibbles hs).2
  refine nibbles_pack ?_ ?_
  · rw [length_evenNibbles]
    omega
  · intro n hn
    have hle : n.toNat ≤ 9 := hns n hn
    show n.toNat < 16
    omega

theorem length_digitNibbles (h : ∀ b ∈ utf8 s, isAsciiDigit b = true) :
    (digitNibbles s).length = s.length := by
  have hlen := congrArg List.length (map_digit_digitNibbles h).1
  rwa [List.length_map] at hlen

theorem length_bcdEncode {c : Bytes} (h : bcdEncode s = .ok c) :
    c.length = (s.length + 1) / 2 := by
  have hns := length_digitNibbles (bcdEncode_ok_iff.1 h).1
  have hlen := congrArg List.length (nibbles_bcdEncode h)
  rw [length_nibbles, length_evenNibbles, hns] at hlen
  omega

theorem decimal_bcdEncode {c : Bytes} (h : bcdEncode s = .ok c) : DecimalBytes c := by
  rw [DecimalBytes, nibbles_bcdEncode h]
  exact mem_evenNibbles (map_digit_digitNibbles (bcdEncode_ok_iff.1 h).1).2

/-- Reading `n` digits gives the digits written exactly when there are
`n` of them. -/
theorem read_bcdEncode_iff {c : Bytes} {n : Nat} (h : bcdEncode s = .ok c)
    (hlen : c.length = (n + 1) / 2) :
    ((nibbles c).drop (2 * c.length - n)).map digit = s ↔ s.length = n := by
  have hs := (bcdEncode_ok_iff.1 h).1
  have hns := length_digitNibbles hs
  constructor
  · intro heq
    have hcount := congrArg List.length heq
    rw [List.length_map, List.length_drop, length_nibbles] at hcount
    omega
  · intro heq
    rw [nibbles_bcdEncode h, hlen]
    have hdrop : (evenNibbles (digitNibbles s)).drop
        (2 * ((n + 1) / 2) - n) = digitNibbles s := by
      unfold evenNibbles
      split
      · next hodd =>
          rw [show 2 * ((n + 1) / 2) - n = 1 by omega]
          rfl
      · next heven =>
          rw [show 2 * ((n + 1) / 2) - n = 0 by omega]
          rfl
    rw [hdrop, (map_digit_digitNibbles hs).1]

theorem bcdEncode_nibbles {c : Bytes} (h : DecimalBytes c) :
    bcdEncode ((nibbles c).map digit) = .ok c := by
  rw [bcdEncode_ok_iff, digitNibbles_map_digit h]
  refine ⟨?_, ?_⟩
  · rw [utf8_digits_iff]
    intro d hd
    obtain ⟨n, hn, rfl⟩ := List.mem_map.1 hd
    exact isDigit_digit (h n hn)
  · rw [evenNibbles, if_neg (by rw [length_nibbles]; omega), pack_nibbles]

theorem bcdDigits_ok_iff {skip : Bool} {c : Bytes} :
    bcdDigits skip offset c = .ok t ↔ DecimalBytes c ∧
      t = ((nibbles c).drop (if skip then 1 else 0)).map digit := by
  induction c generalizing skip offset t with
  | nil => simp [bcdDigits, DecimalBytes, eq_comm]
  | cons b c ih =>
    simp only [bcdDigits, refuse_bind_eq_ok, UInt8.not_lt]
    simp only [bind_eq_ok, ih, DecimalBytes, nibbles_cons,
      List.forall_mem_cons, Except.ok.injEq]
    constructor
    · rintro ⟨hhi, hlo, rest, ⟨hc, rfl⟩, rfl⟩
      refine ⟨⟨hhi, hlo, hc⟩, ?_⟩
      cases skip with
      | true => simp
      | false => simp
    · rintro ⟨⟨hhi, hlo, hc⟩, rfl⟩
      refine ⟨hhi, hlo, _, ⟨hc, rfl⟩, ?_⟩
      cases skip with
      | true => simp
      | false => simp

/-- `nDigits` digits are read from decimal bytes, a pad nibble in front
passed over. -/
theorem bcdDecode_ok_iff {n : Nat} :
    bcdDecode input offset n = .ok (t, offset') ↔
      ∃ c, Stands input offset c ∧ c.length = (n + 1) / 2 ∧ DecimalBytes c ∧
        t = ((nibbles c).drop (2 * c.length - n)).map digit ∧
        offset' = offset + c.length := by
  have hskip : ∀ c : Bytes, c.length = (n + 1) / 2 →
      (if decide ((n + 1) / 2 * 2 - n = 1) = true then 1 else 0) = 2 * c.length - n := by
    intro c hc
    rw [hc]
    split
    · next h =>
        have := of_decide_eq_true h
        omega
    · next h =>
        have : ¬ (n + 1) / 2 * 2 - n = 1 := fun hd => h (decide_eq_true hd)
        omega
  simp only [bcdDecode, bind_eq_ok, takeAt_ok_iff, bcdDigits_ok_iff,
    Except.ok.injEq, Prod.mk.injEq]
  constructor
  · rintro ⟨c, ⟨hst, hlen⟩, t', ⟨hdec, rfl⟩, rfl, rfl⟩
    exact ⟨c, hst, hlen, hdec, by rw [← hskip c hlen], by rw [hlen]⟩
  · rintro ⟨c, hst, hlen, hdec, rfl, rfl⟩
    exact ⟨c, ⟨hst, hlen⟩, _, ⟨hdec, rfl⟩, by rw [← hskip c hlen], by rw [hlen]⟩

/-- The pad nibbles in front of `n` digits are 0. -/
def PadZero (n : Nat) (c : Bytes) : Prop :=
  ∀ x ∈ (nibbles c).take (2 * c.length - n), x = 0

/-- Writing the digits that were read gives the bytes back exactly when
the pad nibble is 0. -/
theorem bcdEncode_drop_iff {c : Bytes} {n : Nat}
    (hlen : c.length = (n + 1) / 2) (hdec : DecimalBytes c) :
    bcdEncode (((nibbles c).drop (2 * c.length - n)).map digit) = .ok c ↔ PadZero n c := by
  have hdrop : ∀ x ∈ (nibbles c).drop (2 * c.length - n), x ≤ 9 :=
    fun x hx => hdec x (List.mem_of_mem_drop hx)
  have hdigits : ∀ b ∈ utf8 (((nibbles c).drop (2 * c.length - n)).map digit),
      isAsciiDigit b = true := by
    rw [utf8_digits_iff]
    intro d hd
    obtain ⟨x, hx, rfl⟩ := List.mem_map.1 hd
    exact isDigit_digit (hdrop x hx)
  rw [bcdEncode_ok_iff, and_iff_right hdigits, digitNibbles_map_digit hdrop, PadZero]
  -- one nibble in front, or none
  rcases Nat.even_or_odd n with hn | hn
  · have hzero : 2 * c.length - n = 0 := by
      rw [Nat.even_iff] at hn
      omega
    rw [hzero, List.drop_zero, evenNibbles,
      if_neg (by rw [length_nibbles]; omega), pack_nibbles]
    simp
  · have hone : 2 * c.length - n = 1 := by
      rw [Nat.odd_iff] at hn
      omega
    have hne : c ≠ [] := by
      rintro rfl
      simp at hone
    obtain ⟨b, bs, rfl⟩ := List.exists_cons_of_ne_nil hne
    rw [hone, nibbles_cons]
    simp only [List.drop_succ_cons, List.drop_zero, List.take_succ_cons,
      List.take_zero, List.forall_mem_singleton]
    rw [evenNibbles, if_pos (by rw [List.length_cons, length_nibbles]; omega)]
    constructor
    · intro h
      have hnib := congrArg nibbles h
      rw [nibbles_pack] at hnib
      · rw [nibbles_cons] at hnib
        exact (List.cons.inj hnib).1
      · simp only [List.length_cons, length_nibbles]
        omega
      · intro x hx
        rcases List.mem_cons.1 hx with rfl | hx
        · decide
        · have hle : x.toNat ≤ 9 := hdec x (List.mem_cons_of_mem _ hx)
          show x.toNat < 16
          omega
    · intro h
      rw [← h, ← nibbles_cons, pack_nibbles]

-- ==== ASCII

def Printable (bs : Bytes) : Prop := ∀ b ∈ bs, isPrintable b = true

theorem Printable.sevenBit (h : Printable bs) : SevenBit bs := by
  intro b hb
  have hp := h b hb
  simp only [isPrintable, Bool.and_eq_true, decide_eq_true_eq] at hp
  have hle : b.toNat ≤ 126 := hp.2
  show b.toNat < 128
  omega

theorem printable_of_digits (h : ∀ b ∈ bs, isAsciiDigit b = true) : Printable bs := by
  intro b hb
  obtain ⟨hlo, hhi⟩ := (isAsciiDigit_iff b).1 (h b hb)
  simp only [isPrintable, Bool.and_eq_true, decide_eq_true_eq, UInt8.le_iff_toNat_le]
  constructor
  · show 32 ≤ b.toNat
    omega
  · show b.toNat ≤ 126
    omega

theorem asciiEncode_ok_iff {c : Bytes} :
    asciiEncode s = .ok c ↔ Printable (utf8 s) ∧ c = utf8 s := by
  unfold asciiEncode
  rw [check_bind_eq_ok, checkBytes_ok_iff]
  exact and_congr_right fun _ =>
    ⟨fun h => (Except.ok.inj h).symm, fun h => congrArg Except.ok h.symm⟩

theorem asciiDecode_ok_iff {n : Nat} :
    asciiDecode input offset n = .ok (t, offset') ↔
      ∃ c, Stands input offset c ∧ c.length = n ∧ Printable c ∧
        t = c.map ofByte ∧ offset' = offset + c.length := by
  simp only [asciiDecode, bind_eq_ok, takeAt_ok_iff, checkBytes_ok_iff,
    Except.ok.injEq, Prod.mk.injEq, Printable]
  constructor
  · rintro ⟨c, ⟨hst, hlen⟩, ⟨⟩, hp, rfl, rfl⟩
    exact ⟨c, hst, hlen, hp, rfl, by rw [hlen]⟩
  · rintro ⟨c, hst, hlen, hp, rfl, rfl⟩
    exact ⟨c, ⟨hst, hlen⟩, (), hp, rfl, by rw [hlen]⟩

-- ==== EBCDIC

/-- The byte is the code of some character. -/
def Mapped (b : UInt8) : Prop := ∃ i < 128, asciiToEbcdic (UInt8.ofNat i) = b

def ebcdicCode (b : UInt8) : UInt8 :=
  match (List.range 128).find? fun i => asciiToEbcdic (UInt8.ofNat i) == b
  with
  | some i => UInt8.ofNat i
  | none => 0x3F

theorem ebcdicToAscii_eq (b : UInt8) : ebcdicToAscii b = ofByte (ebcdicCode b) := by
  unfold ebcdicToAscii ebcdicCode
  cases (List.range 128).find? fun i => asciiToEbcdic (UInt8.ofNat i) == b with
  | none => rfl
  | some i => rfl

theorem ebcdicCode_lt (b : UInt8) : ebcdicCode b < 128 := by
  unfold ebcdicCode
  split
  · next i hi =>
      have hlt := List.mem_range.1 (List.mem_of_find?_eq_some hi)
      show (UInt8.ofNat i).toNat < 128
      rw [UInt8.toNat_ofNat', Nat.mod_eq_of_lt (by omega)]
      exact hlt
  · decide

/-- A byte is written back exactly when it is some character's code. -/
theorem asciiToEbcdic_ebcdicCode_iff (b : UInt8) :
    asciiToEbcdic (ebcdicCode b) = b ↔ Mapped b := by
  constructor
  · intro h
    have hlt := ebcdicCode_lt b
    exact ⟨(ebcdicCode b).toNat, hlt, by rw [UInt8.ofNat_toNat, h]⟩
  · rintro ⟨i, hi, hb⟩
    unfold ebcdicCode
    split
    · next j hj =>
        have hcode := List.find?_some hj
        exact beq_iff_eq.1 hcode
    · next hnone =>
        have := List.find?_eq_none.1 hnone i (List.mem_range.2 hi)
        simp [hb] at this

theorem ebcdicEncode_ok_iff {c : Bytes} :
    ebcdicEncode s = .ok c ↔ SevenBit (utf8 s) ∧ c = (utf8 s).map asciiToEbcdic := by
  have hbound : (∀ b ∈ utf8 s, decide (b ≤ 0x7F) = true) ↔ SevenBit (utf8 s) := by
    refine forall_congr' fun b => imp_congr_right fun _ => ?_
    rw [decide_eq_true_eq]
    show b.toNat ≤ 127 ↔ b.toNat < 128
    omega
  unfold ebcdicEncode
  rw [check_bind_eq_ok, checkBytes_ok_iff, hbound]
  exact and_congr_right fun _ =>
    ⟨fun h => (Except.ok.inj h).symm, fun h => congrArg Except.ok h.symm⟩

theorem utf8_map_ebcdicToAscii (c : Bytes) : utf8 (c.map ebcdicToAscii) = c.map ebcdicCode := by
  have hmap : c.map ebcdicToAscii = (c.map ebcdicCode).map ofByte := by
    rw [List.map_map]
    exact List.map_congr_left fun b _ => ebcdicToAscii_eq b
  rw [hmap, utf8_map_ofByte]
  intro b hb
  obtain ⟨x, -, rfl⟩ := List.mem_map.1 hb
  exact ebcdicCode_lt x

/-- Writing the text that was read gives the bytes back exactly when each
is some character's code. -/
theorem ebcdicEncode_map_iff (c : Bytes) :
    ebcdicEncode (c.map ebcdicToAscii) = .ok c ↔ ∀ b ∈ c, Mapped b := by
  rw [ebcdicEncode_ok_iff, utf8_map_ebcdicToAscii, List.map_map]
  have hseven : SevenBit (c.map ebcdicCode) := by
    intro b hb
    obtain ⟨x, -, rfl⟩ := List.mem_map.1 hb
    exact ebcdicCode_lt x
  rw [and_iff_right hseven, eq_comm]
  conv_lhs => rw [← List.map_id c, List.map_map]
  rw [List.map_inj_left]
  refine forall_congr' fun b => imp_congr_right fun _ => ?_
  exact asciiToEbcdic_ebcdicCode_iff b

theorem ebcdicDecode_ok_iff {n : Nat} :
    ebcdicDecode input offset n = .ok (t, offset') ↔
      ∃ c, Stands input offset c ∧ c.length = n ∧
        t = c.map ebcdicToAscii ∧ offset' = offset + c.length := by
  simp only [ebcdicDecode, bind_eq_ok, takeAt_ok_iff, Except.ok.injEq, Prod.mk.injEq]
  constructor
  · rintro ⟨c, ⟨hst, hlen⟩, rfl, rfl⟩
    exact ⟨c, hst, hlen, rfl, by rw [hlen]⟩
  · rintro ⟨c, hst, hlen, rfl, rfl⟩
    exact ⟨c, ⟨hst, hlen⟩, rfl, by rw [hlen]⟩

/-- The character is written with a code of its own: it has an entry,
other than the question mark, or it is the character 0. -/
def HasOwnCode (c : Char) : Prop :=
  c = Char.ofNat 0 ∨ (c ≠ '?' ∧ c ∈ ebcdicEntries.map Prod.fst)

/-- No two characters have one entry's code. -/
theorem eq_of_entries {c d : Char} (hc : (c, code) ∈ ebcdicEntries)
    (hd : (d, code) ∈ ebcdicEntries) : c = d := by
  have hnodup : (ebcdicEntries.map fun e => e.2.toNat).Nodup := by
    decide +kernel
  exact congrArg Prod.fst (List.inj_on_of_nodup_map hnodup hc hd rfl)

theorem mem_entries_of_lookup {c : Char}
    (h : ebcdicEntries.lookup c = some code) : (c, code) ∈ ebcdicEntries := by
  obtain ⟨before, after, heq, -⟩ := List.lookup_eq_some_iff.1 h
  rw [heq]
  exact List.mem_append_right _ List.mem_cons_self

/-- A code other than the question mark's reads as its character. -/
theorem ebcdicToAscii_of_entry (hb : b < 128)
    (hlookup : ebcdicEntries.lookup (ofByte b) = some code)
    (hcode : code ≠ 0x6F) : ebcdicToAscii code = ofByte b := by
  have hself : asciiToEbcdic b = code := by
    rw [asciiToEbcdic, hlookup]
    rfl
  have hmapped : asciiToEbcdic (ebcdicCode code) = code :=
    (asciiToEbcdic_ebcdicCode_iff code).2
      ⟨b.toNat, hb, by rw [UInt8.ofNat_toNat, hself]⟩
  rw [ebcdicToAscii_eq]
  unfold asciiToEbcdic at hmapped
  cases hfound : ebcdicEntries.lookup (ofByte (ebcdicCode code)) with
  | none =>
    rw [hfound] at hmapped
    exact absurd hmapped.symm hcode
  | some code' =>
    rw [hfound] at hmapped
    obtain rfl : code' = code := hmapped
    exact eq_of_entries (mem_entries_of_lookup hfound) (mem_entries_of_lookup hlookup)

theorem ebcdicToAscii_asciiToEbcdic_iff (hb : b < 128) :
    ebcdicToAscii (asciiToEbcdic b) = ofByte b ↔ HasOwnCode (ofByte b) := by
  have hquestion : ebcdicToAscii 0x6F = Char.ofNat 0 := by decide +kernel
  have hentry : ebcdicEntries.lookup '?' = some 0x6F := by decide +kernel
  cases hlookup : ebcdicEntries.lookup (ofByte b) with
  | none =>
    have hnot : ofByte b ∉ ebcdicEntries.map Prod.fst := by
      intro hmem
      obtain ⟨e, he, heq⟩ := List.mem_map.1 hmem
      have := List.lookup_eq_none_iff.1 hlookup e he
      simp [heq] at this
    rw [asciiToEbcdic, hlookup, Option.getD_none, hquestion, HasOwnCode, eq_comm]
    simp [hnot]
  | some code =>
    have hmem := mem_entries_of_lookup hlookup
    have hkey : ofByte b ∈ ebcdicEntries.map Prod.fst :=
      List.mem_map.2 ⟨_, hmem, rfl⟩
    rw [asciiToEbcdic, hlookup, Option.getD_some]
    by_cases hcode : code = 0x6F
    · subst hcode
      rw [hquestion, HasOwnCode, eq_of_entries hmem (mem_entries_of_lookup hentry)]
      decide
    · rw [HasOwnCode]
      have hne : ofByte b ≠ '?' := by
        intro heq
        rw [heq, hentry] at hlookup
        exact hcode (Option.some.inj hlookup).symm
      simp [ebcdicToAscii_of_entry hb hlookup hcode, hne, hkey]

theorem binaryDecode_ok_iff {n : Nat} {c : Bytes} :
    binaryDecode input offset n = .ok (c, offset') ↔
      Stands input offset c ∧ c.length = n ∧ offset' = offset + c.length := by
  simp only [binaryDecode, bind_eq_ok, takeAt_ok_iff, Except.ok.injEq, Prod.mk.injEq]
  constructor
  · rintro ⟨c', ⟨hst, hlen⟩, rfl, rfl⟩
    exact ⟨hst, hlen, by rw [hlen]⟩
  · rintro ⟨hst, hlen, rfl⟩
    exact ⟨c, ⟨hst, hlen⟩, rfl, by rw [hlen]⟩

-- ==== length prefixes

/-- The length is written in BCD. -/
def VarLenKind.isBcd : VarLenKind → Bool
  | .llBcd | .lllBcd => true
  | .llAscii | .lllAscii => false

/-- The bytes `l` are read as the digits `t`. -/
def ReadsDigits (kind : VarLenKind) (l : Bytes) (t : Text) : Prop :=
  if kind.isBcd then
    l.length = (kind.digits + 1) / 2 ∧ DecimalBytes l ∧
      t = ((nibbles l).drop (2 * l.length - kind.digits)).map digit
  else l.length = kind.digits ∧ Printable l ∧ t = l.map ofByte

/-- The bytes `l` are read as the length `n`. -/
def ReadsLength (kind : VarLenKind) (l : Bytes) (n : Nat) : Prop :=
  ∃ t, ReadsDigits kind l t ∧ parseUnsigned (2 ^ 64) t = some n ∧ n ≤ kind.max

/-- The bytes `l` are digits as the encoder writes them: a pad nibble of
0, no sign. -/
def PlainLength (kind : VarLenKind) (l : Bytes) : Prop :=
  if kind.isBcd then PadZero kind.digits l
  else ∀ b ∈ l, isAsciiDigit b = true

theorem encodeLength_eq (kind : VarLenKind) (n : Nat) :
    encodeLength kind n = if kind.isBcd then bcdEncode (lengthText kind n)
      else .ok (utf8 (lengthText kind n)) := by
  cases kind <;> rfl

theorem decodeLength_ok_iff :
    decodeLength kind input offset = .ok (t, offset') ↔
      ∃ l, Stands input offset l ∧ ReadsDigits kind l t ∧ offset' = offset + l.length := by
  have hread : decodeLength kind input offset =
      if kind.isBcd then bcdDecode input offset kind.digits
      else asciiDecode input offset kind.digits := by
    cases kind <;> rfl
  rw [hread]
  unfold ReadsDigits
  split
  · simp only [bcdDecode_ok_iff, and_assoc]
  · simp only [asciiDecode_ok_iff, and_assoc]

theorem isDigit_lengthText (kind : VarLenKind) (n : Nat) :
    ∀ c ∈ lengthText kind n, c.isDigit = true := fun _ hc =>
  isDigit_zeroPad hc

theorem digits_pos (kind : VarLenKind) : 0 < kind.digits := by
  cases kind <;> decide

theorem length_lengthText {n : Nat} (h : n ≤ kind.max) :
    (lengthText kind n).length = kind.digits := by
  rw [lengthText, length_zeroPad_iff (digits_pos kind)]
  refine lt_of_le_of_lt h ?_
  cases kind <;> decide

theorem exists_encodeLength (kind : VarLenKind) (n : Nat) :
    ∃ l, encodeLength kind n = .ok l := by
  rw [encodeLength_eq]
  split
  · exact ⟨_, bcdEncode_ok_iff.2
      ⟨(utf8_digits_iff _).2 (isDigit_lengthText kind n), rfl⟩⟩
  · exact ⟨_, rfl⟩

theorem readsLength_encodeLength {n : Nat} {l : Bytes}
    (h : encodeLength kind n = .ok l) (hn : n ≤ kind.max) :
    ReadsLength kind l n := by
  have hlen := length_lengthText hn
  have hdigits := isDigit_lengthText kind n
  have hne : lengthText kind n ≠ [] := by
    intro hnil
    rw [hnil] at hlen
    exact absurd hlen (ne_of_lt (digits_pos kind))
  have hlt : n < 2 ^ 64 := by
    refine lt_of_le_of_lt hn ?_
    cases kind <;> decide
  have hnumber : number (lengthText kind n) = n := number_zeroPad ..
  have hparse := @parseUnsigned_of_digits _ (2 ^ 64) hne hdigits (by rw [hnumber]; exact hlt)
  rw [hnumber] at hparse
  refine ⟨lengthText kind n, ?_, hparse, hn⟩
  rw [encodeLength_eq] at h
  unfold ReadsDigits
  split
  · next hbcd =>
      rw [if_pos hbcd] at h
      have hbytes : l.length = (kind.digits + 1) / 2 := by
        rw [length_bcdEncode h, hlen]
      exact ⟨hbytes, decimal_bcdEncode h, ((read_bcdEncode_iff h hbytes).2 hlen).symm⟩
  · next hascii =>
      rw [if_neg hascii] at h
      obtain rfl := Except.ok.inj h
      have hbytes := (utf8_digits_iff _).2 hdigits
      have hchars := map_ofByte_utf8 (sevenBit_of_digits hbytes)
      refine ⟨?_, printable_of_digits hbytes, hchars.symm⟩
      rw [← hlen, ← List.length_map ofByte, hchars]

/-- A length that is read is the one the encoder writes exactly when its
digits are plain. -/
theorem ReadsLength.encode_iff {n : Nat} {l : Bytes} (h : ReadsLength kind l n) :
    encodeLength kind n = .ok l ↔ PlainLength kind l := by
  obtain ⟨t, ht, hparse, hn⟩ := h
  rw [encodeLength_eq, PlainLength]
  unfold ReadsDigits at ht
  -- plain digits are the ones the number is written with
  have hself : (∀ c ∈ t, c.isDigit = true) → t.length = kind.digits →
      lengthText kind n = t := by
    intro hdigits hlen
    have hne : t ≠ [] := by
      rintro rfl
      exact absurd hlen (ne_of_lt (digits_pos kind))
    rw [lengthText, number_of_parseUnsigned hdigits hparse, ← hlen]
    exact zeroPad_number hdigits hne
  split
  · next hbcd =>
      rw [if_pos hbcd] at ht
      obtain ⟨hlen, hdec, rfl⟩ := ht
      rw [hself, bcdEncode_drop_iff hlen hdec]
      · intro d hd
        obtain ⟨x, hx, rfl⟩ := List.mem_map.1 hd
        exact isDigit_digit (hdec x (List.mem_of_mem_drop hx))
      · rw [List.length_map, List.length_drop, length_nibbles]
        omega
  · next hascii =>
      rw [if_neg hascii] at ht
      obtain ⟨hlen, hprint, rfl⟩ := ht
      have hbytes := utf8_map_ofByte hprint.sevenBit
      constructor
      · intro heq
        rw [← Except.ok.inj heq, utf8_digits_iff]
        exact isDigit_lengthText kind n
      · intro hdigits
        rw [hself, hbytes]
        · rw [← utf8_digits_iff, hbytes]
          exact hdigits
        · rw [List.length_map, hlen]

theorem varEncode_ok_iff {payload c : Bytes} :
    varEncode kind payload = .ok c ↔ payload.length ≤ kind.max ∧
      ∃ l, encodeLength kind payload.length = .ok l ∧ c = l ++ payload := by
  simp only [varEncode, refuse_bind_eq_ok, not_lt]
  simp only [bind_eq_ok, Except.ok.injEq, @eq_comm _ c]

theorem varDecode_ok_iff {payload : Bytes} :
    varDecode kind input offset = .ok (payload, offset') ↔
      ∃ l, Stands input offset (l ++ payload) ∧
        ReadsLength kind l payload.length ∧
        offset' = offset + (l ++ payload).length := by
  unfold varDecode
  constructor
  · intro h
    obtain ⟨⟨t, mid⟩, hdigits, h⟩ := bind_eq_ok.1 h
    obtain ⟨l, hst, hread, rfl⟩ := decodeLength_ok_iff.1 hdigits
    cases hparse : parseUnsigned (2 ^ 64) t with
    | none =>
      simp only [hparse, error_bind] at h
      cases h
    | some len =>
      simp only [hparse, ok_bind] at h
      obtain ⟨hmax, h⟩ := refuse_bind_eq_ok.1 h
      obtain ⟨payload', hpayload, h⟩ := bind_eq_ok.1 h
      obtain ⟨rfl, rfl⟩ := Prod.mk.inj (Except.ok.inj h)
      obtain ⟨hst', rfl⟩ := takeAt_ok_iff.1 hpayload
      refine ⟨l, Stands.append.2 ⟨hst, hst'⟩,
        ⟨t, hread, hparse, not_lt.1 hmax⟩, ?_⟩
      rw [List.length_append, Nat.add_assoc]
  · rintro ⟨l, hst, ⟨t, hread, hparse, hmax⟩, rfl⟩
    obtain ⟨hl, hpayload⟩ := Stands.append.1 hst
    refine bind_eq_ok.2 ⟨(t, offset + l.length), decodeLength_ok_iff.2 ⟨l, hl, hread, rfl⟩, ?_⟩
    simp only [hparse, ok_bind]
    rw [refuse_bind_eq_ok]
    refine ⟨not_lt.2 hmax, bind_eq_ok.2
      ⟨payload, takeAt_ok_iff.2 ⟨hpayload, rfl⟩, ?_⟩⟩
    rw [List.length_append, Nat.add_assoc]

end OpenStandards.OpIso8583

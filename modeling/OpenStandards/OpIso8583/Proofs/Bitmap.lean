/-
The bitmaps on the wire.

A word is its two halves (`join`). `ReadsBitmap c b` is that the bytes
`c` are read as the bitmaps `b`: eight bytes with the flag clear, or
sixteen with the flag set. What is written is read as the same data
elements (`reads_encodeBinary`); what is read is written back as the same
bytes unless the secondary bitmap was sent without a bit in it
(`ReadsBitmap.encode_iff`).

A bitmap is the set of its elements, and the bits of the wire form are the
elements in ascending order.
-/
import OpenStandards.OpIso8583.Message
import OpenStandards.OpIso8583.Proofs.Codec

namespace OpenStandards.OpIso8583

open Lib Text

-- ==== the halves

/-- A primary and a secondary bitmap in one word. -/
def join (p s : BitVec 64) : BitVec 128 :=
  (p.setWidth 128 <<< 64) ||| s.setWidth 128

def high (w : BitVec 128) : BitVec 64 := (w >>> 64).setWidth 64

def low (w : BitVec 128) : BitVec 64 := w.setWidth 64

theorem getLsbD_join (p s : BitVec 64) (i : Nat) :
    (join p s).getLsbD i =
      if i < 64 then s.getLsbD i else p.getLsbD (i - 64) := by
  unfold join
  rw [BitVec.getLsbD_or, BitVec.getLsbD_shiftLeft, BitVec.getLsbD_setWidth,
    BitVec.getLsbD_setWidth]
  split
  · next hlow =>
      simp only [hlow, decide_true, Bool.not_true, Bool.and_false,
        Bool.false_and, Bool.false_or]
      rw [decide_eq_true (by omega : i < 128), Bool.true_and]
  · next hhigh =>
      rw [BitVec.getLsbD_of_ge s i (by omega), Bool.and_false, Bool.or_false]
      by_cases hi : i < 128
      · simp only [hi, hhigh, decide_true, decide_false, Bool.not_false, Bool.true_and]
        rw [decide_eq_true (by omega : i - 64 < 128), Bool.true_and]
      · rw [BitVec.getLsbD_of_ge p (i - 64) (by omega)]
        simp

theorem high_join (p s : BitVec 64) : high (join p s) = p := by
  apply BitVec.eq_of_getLsbD_eq
  intro i hi
  rw [high, BitVec.getLsbD_setWidth, BitVec.getLsbD_ushiftRight, getLsbD_join]
  simp [hi]

theorem low_join (p s : BitVec 64) : low (join p s) = s := by
  apply BitVec.eq_of_getLsbD_eq
  intro i hi
  rw [low, BitVec.getLsbD_setWidth, getLsbD_join]
  simp [hi]

theorem join_high_low (w : BitVec 128) : join (high w) (low w) = w := by
  apply BitVec.eq_of_getLsbD_eq
  intro i hi
  rw [getLsbD_join, high, low, BitVec.getLsbD_setWidth,
    BitVec.getLsbD_setWidth, BitVec.getLsbD_ushiftRight]
  split
  · next hlow => simp [hlow]
  · next hhigh =>
      rw [show 64 + (i - 64) = i by omega,
        decide_eq_true (by omega : i - 64 < 64), Bool.true_and]

theorem getLsbD_high (w : BitVec 128) {i : Nat} (hi : i < 64) :
    (high w).getLsbD i = w.getLsbD (64 + i) := by
  rw [high, BitVec.getLsbD_setWidth, BitVec.getLsbD_ushiftRight]
  simp [hi]

-- ==== data elements

/-- The number of a data element, the flag among them. -/
def InRange (de : UInt8) : Prop := 1 ≤ de.toNat ∧ de.toNat ≤ 128

theorem not_out_iff (de : UInt8) : ¬ (de < 1 ∨ 128 < de) ↔ InRange de := by
  have hlo : de < 1 ↔ de.toNat < 1 := Iff.rfl
  have hhi : 128 < de ↔ 128 < de.toNat := Iff.rfl
  rw [hlo, hhi, InRange]
  omega

namespace Bitmaps

variable {de e : UInt8}

theorem has_eq (b : Bitmaps) (h : InRange de) : b.has de = b.bits.getLsbD (128 - de.toNat) :=
  if_neg ((not_out_iff de).2 h)

/-- The bit that `set` and `clear` shift into place is the element's own. -/
theorem getLsbD_one_shiftLeft (hde : InRange de) (he : InRange e) :
    (1#128 <<< (128 - de.toNat)).getLsbD (128 - e.toNat) = decide (de = e) := by
  rw [BitVec.getLsbD_shiftLeft, BitVec.getLsbD_one]
  unfold InRange at hde he
  by_cases heq : de = e
  · subst heq
    simp
    omega
  · have hne : de.toNat ≠ e.toNat := fun h => heq (UInt8.toNat_inj.1 h)
    rw [decide_eq_false heq]
    by_cases hlt : 128 - e.toNat < 128 - de.toNat
    · simp [hlt]
    · rw [decide_eq_false (by omega : ¬ 128 - e.toNat - (128 - de.toNat) = 0)]
      simp

theorem ne_of_out (hout : de < 1 ∨ 128 < de) (he : InRange e) : de ≠ e := by
  rintro rfl
  exact (not_out_iff de).2 he hout

theorem has_set (b : Bitmaps) (de : UInt8) (he : InRange e) :
    (b.set de).has e = (b.has e || decide (de = e)) := by
  unfold set
  split
  · next hout => rw [decide_eq_false (ne_of_out hout he), Bool.or_false]
  · next hin =>
      rw [has_eq _ he, has_eq _ he, BitVec.getLsbD_or,
        getLsbD_one_shiftLeft ((not_out_iff de).1 hin) he]

theorem has_clear (b : Bitmaps) (de : UInt8) (he : InRange e) :
    (b.clear de).has e = (b.has e && decide (de ≠ e)) := by
  unfold clear
  split
  · next hout => rw [decide_eq_true (ne_of_out hout he), Bool.and_true]
  · next hin =>
      have hlt : 128 - e.toNat < 128 := by
        unfold InRange at he
        omega
      rw [has_eq _ he, has_eq _ he, BitVec.getLsbD_and, BitVec.getLsbD_not,
        getLsbD_one_shiftLeft ((not_out_iff de).1 hin) he, decide_eq_true hlt]
      simp

theorem has_foldl_set (he : InRange e) (des : List UInt8) :
    ∀ b : Bitmaps, (des.foldl set b).has e = (b.has e || decide (e ∈ des)) := by
  induction des with
  | nil =>
    intro b
    simp
  | cons de des ih =>
    intro b
    rw [List.foldl_cons, ih, has_set _ _ he, Bool.or_assoc]
    congr 1
    by_cases heq : e = de
    · simp [heq]
    · have hne : de ≠ e := fun h => heq h.symm
      simp [heq, hne]

theorem has_new (he : InRange e) : new.has e = false := by
  rw [has_eq _ he, new]
  simp

theorem has_of_out (b : Bitmaps) (h : ¬ InRange de) : b.has de = false :=
  if_pos (not_not.1 ((not_out_iff de).not.2 h))

-- ------------------------------------------------------------- as a set

/-- The data elements marked present, the flag among them. -/
def elements (b : Bitmaps) : Set UInt8 := {de | b.has de = true}

theorem elements_set (b : Bitmaps) (h : InRange de) :
    (b.set de).elements = insert de b.elements := by
  ext e
  by_cases he : InRange e
  · simp only [elements, Set.mem_ofPred_eq, Set.mem_insert_iff, has_set _ _ he,
      Bool.or_eq_true, decide_eq_true_eq]
    rw [or_comm, eq_comm]
  · have hne : e ≠ de := fun heq => he (heq ▸ h)
    simp [elements, has_of_out _ he, hne]

theorem elements_clear (b : Bitmaps) (de : UInt8) :
    (b.clear de).elements = b.elements \ {de} := by
  ext e
  by_cases he : InRange e
  · simp only [elements, Set.mem_ofPred_eq, Set.mem_sdiff,
      Set.mem_singleton_iff, has_clear _ _ he, Bool.and_eq_true,
      decide_eq_true_eq]
    rw [ne_comm]
  · simp [elements, has_of_out _ he]

theorem elements_subset (b : Bitmaps) : b.elements ⊆ {de | InRange de} := by
  intro de hde
  by_contra hout
  exact Bool.false_ne_true ((has_of_out b hout).symm.trans hde)

/-- Bitmaps are the sets of their elements. -/
theorem elements_injective : Function.Injective elements := by
  intro b c h
  have hbits : b.bits = c.bits := by
    apply BitVec.eq_of_getLsbD_eq
    intro i hi
    have hnat : (UInt8.ofNat (128 - i)).toNat = 128 - i := by
      rw [UInt8.toNat_ofNat', Nat.mod_eq_of_lt (by omega)]
    have hde : InRange (UInt8.ofNat (128 - i)) := by
      unfold InRange
      omega
    have hmem := Set.ext_iff.1 h (UInt8.ofNat (128 - i))
    simp only [elements, Set.mem_ofPred_eq, has_eq _ hde, hnat,
      show 128 - (128 - i) = i by omega] at hmem
    exact Bool.eq_iff_iff.2 hmem
  cases b
  cases c
  exact congrArg mk hbits

end Bitmaps

theorem mem_allDes (de : UInt8) : de ∈ allDes ↔ 2 ≤ de.toNat ∧ de.toNat ≤ 128 := by
  simp only [allDes, List.mem_map, List.mem_range]
  constructor
  · rintro ⟨i, hi, rfl⟩
    rw [UInt8.toNat_ofNat', Nat.mod_eq_of_lt (by omega)]
    omega
  · rintro ⟨hlo, hhi⟩
    refine ⟨de.toNat - 2, by omega, ?_⟩
    rw [Nat.sub_add_cancel hlo, UInt8.ofNat_toNat]

theorem nodup_allDes : allDes.Nodup := by
  refine List.Nodup.map_on ?_ List.nodup_range
  intro i hi j hj h
  have hi := List.mem_range.1 hi
  have hj := List.mem_range.1 hj
  have hnat := congrArg UInt8.toNat h
  rw [UInt8.toNat_ofNat', UInt8.toNat_ofNat', Nat.mod_eq_of_lt (by omega),
    Nat.mod_eq_of_lt (by omega)] at hnat
  omega

theorem InRange.of_mem {de : UInt8} (h : de ∈ allDes) : InRange de := by
  have := (mem_allDes de).1 h
  unfold InRange
  omega

namespace Bitmaps

theorem mem_iterDes (b : Bitmaps) (de : UInt8) :
    de ∈ b.iterDes ↔ de ∈ allDes ∧ b.has de = true := List.mem_filter

theorem nodup_iterDes (b : Bitmaps) : b.iterDes.Nodup :=
  nodup_allDes.filter _

theorem iterDes_congr {b b' : Bitmaps}
    (h : ∀ de ∈ allDes, b.has de = b'.has de) : b.iterDes = b'.iterDes :=
  List.filter_congr fun de hde => h de hde

-- ==== the wire form

theorem getLsbD_wireBits (b : Bitmaps) {i : Nat} (hi : i < 128) :
    b.wireBits.getLsbD i =
      if i = 127 then b.secondaryNeeded else b.bits.getLsbD i := by
  unfold wireBits
  split
  · next hneeded =>
      rw [BitVec.getLsbD_or, BitVec.getLsbD_shiftLeft, BitVec.getLsbD_one]
      split
      · next hflag =>
          subst hflag
          simp [hneeded]
      · next hother =>
          simp [hi]
          omega
  · next hnot =>
      rw [BitVec.getLsbD_and, BitVec.getLsbD_not, BitVec.getLsbD_shiftLeft, BitVec.getLsbD_one]
      split
      · next hflag =>
          subst hflag
          simp [hnot]
      · next hother =>
          simp [hi]
          omega

/-- The wire form has the same data elements. -/
theorem has_wireBits (b : Bitmaps) {de : UInt8} (h : de ∈ allDes) :
    Bitmaps.has ⟨b.wireBits⟩ de = b.has de := by
  have hnum := (mem_allDes de).1 h
  have hde := InRange.of_mem h
  rw [has_eq _ hde, has_eq _ hde]
  show b.wireBits.getLsbD _ = _
  rw [getLsbD_wireBits b (by omega), if_neg (by omega)]

theorem low_wireBits (b : Bitmaps) : low b.wireBits = low b.bits := by
  apply BitVec.eq_of_getLsbD_eq
  intro i hi
  rw [low, low, BitVec.getLsbD_setWidth, BitVec.getLsbD_setWidth,
    getLsbD_wireBits b (by omega), if_neg (by omega)]

theorem secondaryNeeded_iff (b : Bitmaps) : b.secondaryNeeded = true ↔ low b.bits ≠ 0#64 := by
  simp [secondaryNeeded, low]

theorem encodeBinary_eq (b : Bitmaps) :
    b.encodeBinary =
      if b.secondaryNeeded then beBytes 8 (high b.wireBits).toNat
        ++ beBytes 8 (low b.wireBits).toNat
      else beBytes 8 (high b.wireBits).toNat := rfl

/-- Bitmaps with the same data elements are written alike. -/
theorem encodeBinary_congr {b b' : Bitmaps} (h : ∀ de ∈ allDes, b.has de = b'.has de) :
    b.encodeBinary = b'.encodeBinary := by
  have hbit : ∀ i < 127, b.bits.getLsbD i = b'.bits.getLsbD i := by
    intro i hi
    have hnat : (UInt8.ofNat (128 - i)).toNat = 128 - i := by
      rw [UInt8.toNat_ofNat', Nat.mod_eq_of_lt (by omega)]
    have hmem : UInt8.ofNat (128 - i) ∈ allDes :=
      (mem_allDes _).2 (by omega)
    have heq := h _ hmem
    rw [has_eq _ (InRange.of_mem hmem), has_eq _ (InRange.of_mem hmem), hnat,
      show 128 - (128 - i) = i by omega] at heq
    exact heq
  have hlow : low b.bits = low b'.bits := by
    apply BitVec.eq_of_getLsbD_eq
    intro i hi
    rw [low, low, BitVec.getLsbD_setWidth, BitVec.getLsbD_setWidth, hbit i (by omega)]
  have hneeded : b.secondaryNeeded = b'.secondaryNeeded := by
    rw [Bool.eq_iff_iff, secondaryNeeded_iff, secondaryNeeded_iff, hlow]
  have hwire : b.wireBits = b'.wireBits := by
    apply BitVec.eq_of_getLsbD_eq
    intro i hi
    rw [getLsbD_wireBits b hi, getLsbD_wireBits b' hi, hneeded]
    split
    · rfl
    · next hne => exact hbit i (by omega)
  rw [encodeBinary_eq, encodeBinary_eq, hwire, hneeded]

end Bitmaps

-- ==== reading

def halfBytes (p : BitVec 64) : Bytes := beBytes 8 p.toNat

def ofHalfBytes (c : Bytes) : BitVec 64 := BitVec.ofNat 64 (ofBeBytes c)

theorem length_halfBytes (p : BitVec 64) : (halfBytes p).length = 8 :=
  length_beBytes ..

theorem ofHalfBytes_halfBytes (p : BitVec 64) : ofHalfBytes (halfBytes p) = p := by
  have hlt : p.toNat < 256 ^ 8 := p.isLt
  rw [ofHalfBytes, halfBytes, ofBeBytes_beBytes_of_lt hlt, BitVec.ofNat_toNat]
  simp

theorem halfBytes_ofHalfBytes {c : Bytes} (h : c.length = 8) :
    halfBytes (ofHalfBytes c) = c := by
  have hlt : ofBeBytes c < 2 ^ 64 := by
    have hbytes := ofBeBytes_lt c
    rw [h] at hbytes
    exact hbytes
  have hself := beBytes_ofBeBytes c
  rw [h] at hself
  rw [halfBytes, ofHalfBytes, BitVec.toNat_ofNat, Nat.mod_eq_of_lt hlt, hself]

/-- The bytes are read as the bitmaps: a primary with the flag clear, or
a primary with the flag set and a secondary. -/
inductive ReadsBitmap : Bytes → Bitmaps → Prop
  | primary (p : BitVec 64) (hflag : p.getLsbD 63 = false) :
      ReadsBitmap (halfBytes p) ⟨join p 0#64⟩
  | secondary (p s : BitVec 64) (hflag : p.getLsbD 63 = true) :
      ReadsBitmap (halfBytes p ++ halfBytes s) ⟨join p s⟩

theorem flag_eq (p : BitVec 64) : (p &&& (1#64 <<< 63) != 0#64) = p.getLsbD 63 := by
  have hbit : 1#64 <<< 63 = BitVec.twoPow 64 63 := rfl
  rw [hbit, BitVec.and_twoPow]
  cases p.getLsbD 63 with
  | true => decide
  | false => decide

variable {b : Bitmaps}

theorem decodeBinary_ok_iff {input : Bytes} {offset : Nat} {offset' : Nat} :
    Bitmaps.decodeBinary input offset = .ok (b, offset') ↔
      ∃ c, Stands input offset c ∧ ReadsBitmap c b ∧ offset' = offset + c.length := by
  unfold Bitmaps.decodeBinary
  constructor
  · intro h
    obtain ⟨c, hc, h⟩ := bind_eq_ok.1 h
    obtain ⟨hst, hlen⟩ := takeAt_ok_iff.1 hc
    simp only [flag_eq] at h
    split at h
    · next hflag =>
        obtain ⟨d, hd, h⟩ := bind_eq_ok.1 h
        obtain ⟨hst', hlen'⟩ := takeAt_ok_iff.1 hd
        obtain ⟨rfl, rfl⟩ := Prod.mk.inj (Except.ok.inj h)
        refine ⟨c ++ d, Stands.append.2 ⟨hst, by rw [hlen]; exact hst'⟩, ?_,
          by rw [List.length_append, hlen, hlen', Nat.add_assoc]⟩
        have hread := ReadsBitmap.secondary (ofHalfBytes c) (ofHalfBytes d) hflag
        rwa [halfBytes_ofHalfBytes hlen, halfBytes_ofHalfBytes hlen'] at hread
    · next hflag =>
        obtain ⟨rfl, rfl⟩ := Prod.mk.inj (Except.ok.inj h)
        refine ⟨c, hst, ?_, by rw [hlen]⟩
        have hread := ReadsBitmap.primary (ofHalfBytes c) (Bool.eq_false_iff.2 hflag)
        rw [halfBytes_ofHalfBytes hlen] at hread
        simpa [join, ofHalfBytes] using hread
  · rintro ⟨c, hst, hread, rfl⟩
    cases hread with
    | primary p hflag =>
      refine bind_eq_ok.2 ⟨halfBytes p, takeAt_ok_iff.2 ⟨hst, length_halfBytes p⟩, ?_⟩
      have hp : BitVec.ofNat 64 (ofBeBytes (halfBytes p)) = p :=
        ofHalfBytes_halfBytes p
      simp only [hp, flag_eq, hflag, length_halfBytes]
      simp [join]
    | secondary p s hflag =>
      obtain ⟨hst, hst'⟩ := Stands.append.1 hst
      rw [length_halfBytes] at hst'
      refine bind_eq_ok.2 ⟨halfBytes p, takeAt_ok_iff.2 ⟨hst, length_halfBytes p⟩, ?_⟩
      have hp : BitVec.ofNat 64 (ofBeBytes (halfBytes p)) = p :=
        ofHalfBytes_halfBytes p
      have hs : BitVec.ofNat 64 (ofBeBytes (halfBytes s)) = s :=
        ofHalfBytes_halfBytes s
      simp only [hp, flag_eq, hflag, if_true]
      refine bind_eq_ok.2 ⟨halfBytes s, takeAt_ok_iff.2 ⟨hst', length_halfBytes s⟩, ?_⟩
      rw [hs, List.length_append, length_halfBytes, length_halfBytes, Nat.add_assoc]
      rfl

theorem flag_wireBits (b : Bitmaps) : (high b.wireBits).getLsbD 63 = b.secondaryNeeded := by
  rw [getLsbD_high _ (by decide), Bitmaps.getLsbD_wireBits b (by decide)]
  rfl

theorem reads_encodeBinary (b : Bitmaps) : ReadsBitmap b.encodeBinary ⟨b.wireBits⟩ := by
  have hflag := flag_wireBits b
  have hjoin := join_high_low b.wireBits
  rw [Bitmaps.encodeBinary_eq]
  split
  · next hneeded =>
      rw [hneeded] at hflag
      have hread := ReadsBitmap.secondary _ (low b.wireBits) hflag
      rwa [hjoin] at hread
  · next hnot =>
      have hlow : low b.wireBits = 0#64 := by
        rw [Bitmaps.low_wireBits]
        exact not_not.1 ((Bitmaps.secondaryNeeded_iff b).not.1 hnot)
      rw [Bool.eq_false_iff.2 hnot] at hflag
      have hread := ReadsBitmap.primary _ hflag
      rwa [← hlow, hjoin] at hread

/-- The bitmaps' bytes as the encoder writes them: a secondary bitmap has
a bit in it. -/
def CanonicalBitmap (c : Bytes) : Prop :=
  c.length = 8 ∨ ofHalfBytes (c.drop 8) ≠ 0#64

/-- Bits whose flag is right are their own wire form. -/
theorem wireBits_eq (h : b.bits.getLsbD 127 = b.secondaryNeeded) : b.wireBits = b.bits := by
  apply BitVec.eq_of_getLsbD_eq
  intro i hi
  rw [Bitmaps.getLsbD_wireBits b hi]
  split
  · next hflag => rw [hflag, h]
  · rfl

/-- Bitmaps that are read are written back as the same bytes exactly when
they are canonical. -/
theorem ReadsBitmap.encode_iff {c : Bytes} (h : ReadsBitmap c b) :
    b.encodeBinary = c ↔ CanonicalBitmap c := by
  cases h with
  | primary p hflag =>
    have hneeded : Bitmaps.secondaryNeeded ⟨join p 0#64⟩ = false := by
      rw [Bool.eq_false_iff, ne_eq, Bitmaps.secondaryNeeded_iff, low_join]
      simp
    have hwire := wireBits_eq (b := ⟨join p 0#64⟩) (by rw [getLsbD_join, hneeded]; exact hflag)
    rw [Bitmaps.encodeBinary_eq, hneeded, hwire, high_join]
    exact iff_of_true rfl (Or.inl (length_halfBytes p))
  | secondary p s hflag =>
    have hlen : (halfBytes p ++ halfBytes s).length = 16 := by
      rw [List.length_append, length_halfBytes, length_halfBytes]
    have hcanonical : CanonicalBitmap (halfBytes p ++ halfBytes s) ↔ s ≠ 0#64 := by
      rw [CanonicalBitmap, hlen, List.drop_left' (length_halfBytes p), ofHalfBytes_halfBytes]
      simp
    have hneeded := Bitmaps.secondaryNeeded_iff ⟨join p s⟩
    rw [low_join] at hneeded
    rw [hcanonical, ← hneeded, Bitmaps.encodeBinary_eq]
    constructor
    · intro heq
      by_contra hnot
      rw [if_neg hnot] at heq
      have := congrArg List.length heq
      rw [hlen, length_beBytes] at this
      cases this
    · intro hyes
      have hwire := wireBits_eq (b := ⟨join p s⟩) (by rw [getLsbD_join, hyes]; exact hflag)
      rw [if_pos hyes, hwire, high_join, low_join]
      rfl

-- ==== digits

namespace Bitmaps

theorem hexTable_reads : ∀ i < 16, hexTable.getD i 0 < 128 ∧
    hexNibble (hexTable.getD i 0) = some (UInt8.ofNat i) := by
  decide

theorem utf8_hexChar {n : UInt8} (hn : n < 16) :
    String.utf8EncodeChar (hexChar n) = [hexTable.getD n.toNat 0] :=
  Text.utf8EncodeChar_ofByte (hexTable_reads n.toNat hn).1

def hexDigits (bytes : Bytes) : Bytes := utf8 ((nibbles bytes).map hexChar)

theorem utf8_map_hexChar {ns : Bytes} (h : ∀ n ∈ ns, n < 16) :
    utf8 (ns.map hexChar) = ns.map fun n => hexTable.getD n.toNat 0 := by
  induction ns with
  | nil => rfl
  | cons n ns ih =>
    obtain ⟨hn, hns⟩ := List.forall_mem_cons.1 h
    rw [List.map_cons, utf8_cons, utf8_hexChar hn, ih hns]
    rfl

theorem hexNibbles_map {ns : Bytes} (h : ∀ n ∈ ns, n < 16) (offset : Nat) :
    hexNibbles offset (ns.map fun n => hexTable.getD n.toNat 0) = .ok ns := by
  induction ns generalizing offset with
  | nil => rfl
  | cons n ns ih =>
    obtain ⟨hn, hns⟩ := List.forall_mem_cons.1 h
    have hread := (hexTable_reads n.toNat hn).2
    rw [UInt8.ofNat_toNat] at hread
    rw [List.map_cons, hexNibbles, hread]
    dsimp only
    rw [ih hns]
    rfl

theorem length_hexDigits (bytes : Bytes) : (hexDigits bytes).length = 2 * bytes.length := by
  rw [hexDigits, utf8_map_hexChar lt_of_mem_nibbles, List.length_map, length_nibbles]

theorem hexDigits_append (bs cs : Bytes) :
    hexDigits (bs ++ cs) = hexDigits bs ++ hexDigits cs := by
  simp [hexDigits, nibbles, Text.utf8]

theorem hexToBytes_hexDigits (bytes : Bytes) : hexToBytes (hexDigits bytes) = .ok bytes := by
  rw [hexToBytes, if_neg (by rw [length_hexDigits]; omega), hexDigits,
    utf8_map_hexChar lt_of_mem_nibbles, hexNibbles_map lt_of_mem_nibbles]
  exact congrArg Except.ok (pack_nibbles bytes)

theorem decodeHex_of_reads {input : Bytes} {offset : Nat} {c : Bytes}
    {b : Bitmaps} (hst : Stands input offset (hexDigits c)) (hread : ReadsBitmap c b) :
    decodeHex input offset = .ok (b, offset + 2 * c.length) := by
  have hwidth : ∀ p : BitVec 64, (hexDigits (halfBytes p)).length = 16 :=
    fun p => by rw [length_hexDigits, length_halfBytes]
  unfold decodeHex
  cases hread with
  | primary p hflag =>
    have hp : BitVec.ofNat 64 (ofBeBytes (halfBytes p)) = p :=
      ofHalfBytes_halfBytes p
    refine bind_eq_ok.2 ⟨_, takeAt_ok_iff.2 ⟨hst, hwidth p⟩,
      bind_eq_ok.2 ⟨_, hexToBytes_hexDigits _, ?_⟩⟩
    simp only [hp, flag_eq, hflag, length_halfBytes]
    simp [join]
  | secondary p s hflag =>
    have hp : BitVec.ofNat 64 (ofBeBytes (halfBytes p)) = p :=
      ofHalfBytes_halfBytes p
    have hs : BitVec.ofNat 64 (ofBeBytes (halfBytes s)) = s :=
      ofHalfBytes_halfBytes s
    rw [hexDigits_append] at hst
    obtain ⟨hst, hst'⟩ := Stands.append.1 hst
    rw [hwidth] at hst'
    refine bind_eq_ok.2 ⟨_, takeAt_ok_iff.2 ⟨hst, hwidth p⟩,
      bind_eq_ok.2 ⟨_, hexToBytes_hexDigits _, ?_⟩⟩
    simp only [hp, flag_eq, hflag, if_true]
    refine bind_eq_ok.2 ⟨_, takeAt_ok_iff.2 ⟨hst', hwidth s⟩,
      bind_eq_ok.2 ⟨_, hexToBytes_hexDigits _, ?_⟩⟩
    rw [hs, List.length_append, length_halfBytes, length_halfBytes]
    rfl

-- ==== the codec

/-- The wire form has the flag where some element above 64 is present, and
the other elements as they were. -/
theorem wireBits_eq_flag (b : Bitmaps) :
    (⟨b.wireBits⟩ : Bitmaps) = if b.secondaryNeeded then b.set 1 else b.clear 1 := by
  unfold wireBits
  split
  · rfl
  · rfl

theorem secondaryNeeded_iff_has (b : Bitmaps) :
    b.secondaryNeeded = true ↔ ∃ de : UInt8, 64 < de ∧ b.has de = true := by
  rw [secondaryNeeded_iff]
  constructor
  · intro h
    obtain ⟨i, hi, hbit⟩ : ∃ i, i < 64 ∧ b.bits.getLsbD i = true := by
      by_contra hnone
      push Not at hnone
      refine h (BitVec.eq_of_getLsbD_eq fun i hi => ?_)
      rw [low, BitVec.getLsbD_setWidth, Bool.eq_false_iff.2 (hnone i hi)]
      simp
    have hnat : (UInt8.ofNat (128 - i)).toNat = 128 - i := by
      rw [UInt8.toNat_ofNat', Nat.mod_eq_of_lt (by omega)]
    refine ⟨UInt8.ofNat (128 - i), ?_, ?_⟩
    · show 64 < (UInt8.ofNat (128 - i)).toNat
      omega
    · rw [has_eq _ (by unfold InRange; omega), hnat,
        show 128 - (128 - i) = i by omega]
      exact hbit
  · rintro ⟨de, habove, hde⟩ hlow
    have habove : 64 < de.toNat := habove
    have hin := elements_subset b hde
    rw [has_eq _ hin] at hde
    have hbit := congrArg (BitVec.getLsbD · (128 - de.toNat)) hlow
    rw [low, BitVec.getLsbD_setWidth, hde] at hbit
    simp at hbit
    omega

theorem bitAt_encodeBinary (b : Bitmaps) {de : UInt8} (h : InRange de) :
    bitAt b.encodeBinary (de.toNat - 1) = has ⟨b.wireBits⟩ de := by
  unfold InRange at h
  have hhigh : ∀ i < 64, bitAt (beBytes 8 (high b.wireBits).toNat) i
      = b.wireBits.getLsbD (127 - i) := by
    intro i hi
    rw [bitAt_beBytes (by omega)]
    show (high b.wireBits).getLsbD _ = _
    rw [getLsbD_high _ (by omega)]
    congr 1
    omega
  rw [has_eq _ h, encodeBinary_eq]
  split
  · next hneeded =>
      rw [bitAt_append, length_beBytes]
      split
      · next hlt =>
          rw [hhigh _ hlt]
          congr 1
          omega
      · next hge =>
          rw [bitAt_beBytes (by omega)]
          show (low b.wireBits).getLsbD _ = _
          rw [low, BitVec.getLsbD_setWidth, decide_eq_true (by omega), Bool.true_and]
          congr 1
          omega
  · next hnot =>
      by_cases hlt : de.toNat - 1 < 64
      · rw [hhigh _ hlt]
        congr 1
        omega
      · have hnone := (secondaryNeeded_iff_has b).not.1 hnot
        have hde : de ∈ allDes := (mem_allDes de).2 (by omega)
        have habsent : b.has de = false :=
          Bool.eq_false_iff.2 fun hhas => hnone ⟨de, by
            show 64 < de.toNat
            omega, hhas⟩
        rw [← has_wireBits b hde, has_eq _ h] at habsent
        rw [bitAt_of_le (by rw [length_beBytes]; omega)]
        exact habsent.symm

/-- What is sent of the elements `b`: both encodings are read as `w`, from
any place in any input, and `w` is `b` with the flag as the elements above
64 have it; the digits denote the bytes, and the bits of the bytes are the
elements of `w` in their order. -/
structure WireExact (b w : Bitmaps) (n : Nat) : Prop where
  flag : (∃ de : UInt8, 64 < de ∧ b.has de = true) ∧ w = b.set 1 ∧ n = 16
    ∨ (¬ ∃ de : UInt8, 64 < de ∧ b.has de = true) ∧ w = b.clear 1 ∧ n = 8
  length : b.encodeBinary.length = n ∧ (utf8 b.encodeHex).length = 2 * n
  binary : ∀ before after : Bytes,
    decodeBinary (before ++ (b.encodeBinary ++ after)) before.length
      = .ok (w, before.length + n)
  hex : ∀ before after : Bytes,
    decodeHex (before ++ (utf8 b.encodeHex ++ after)) before.length
      = .ok (w, before.length + 2 * n)
  same : hexToBytes (utf8 b.encodeHex) = .ok b.encodeBinary
  order : ∀ de, InRange de → bitAt b.encodeBinary (de.toNat - 1) = w.has de

/-- Bitmaps are sets of the numbers 1 to 128. -/
structure SetLaws (b : Bitmaps) : Prop where
  set : ∀ de, InRange de → (b.set de).elements = insert de b.elements
  clear : ∀ de, InRange de → (b.clear de).elements = b.elements \ {de}
  within : b.elements ⊆ {de | InRange de}
  unique : ∀ c, c.elements = b.elements → c = b

theorem length_encodeBinary (b : Bitmaps) :
    b.encodeBinary.length = if b.secondaryNeeded then 16 else 8 := by
  rw [encodeBinary_eq]
  split
  · rw [List.length_append, length_beBytes, length_beBytes]
  · rw [length_beBytes]

/-- **The bitmap codec is exact.** Every set of data elements is sent, as
bytes and as hex digits, as itself with element 1 present exactly when one
above 64 is, in 8 or 16 bytes, and `set`, `clear` and `has` are insertion,
removal and membership. -/
theorem codec_exact (b : Bitmaps) : (∃ w n, WireExact b w n) ∧ SetLaws b := by
  have hlen := length_encodeBinary b
  have hread := reads_encodeBinary b
  refine ⟨⟨⟨b.wireBits⟩, b.encodeBinary.length, ?_⟩, ?_⟩
  · refine ⟨?_, ⟨rfl, length_hexDigits _⟩, fun before after => ?_,
      fun before after => ?_, hexToBytes_hexDigits _,
      fun de hde => bitAt_encodeBinary b hde⟩
    · rw [hlen, wireBits_eq_flag, ← secondaryNeeded_iff_has]
      cases b.secondaryNeeded with
      | true => exact .inl ⟨rfl, rfl, rfl⟩
      | false => exact .inr ⟨Bool.false_ne_true, rfl, rfl⟩
    · exact decodeBinary_ok_iff.2 ⟨_, ⟨before, after, rfl, rfl⟩, hread, rfl⟩
    · exact decodeHex_of_reads ⟨before, after, rfl, rfl⟩ hread
  · exact ⟨fun de hde => elements_set b hde, fun de _ => elements_clear b de,
      elements_subset b, fun c h => elements_injective h⟩

end Bitmaps

end OpenStandards.OpIso8583

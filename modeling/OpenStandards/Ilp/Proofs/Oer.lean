/-
The octet encoding rules read back what they write.

The long form of a length is the shortest big-endian string of its value;
the decoder's shift-and-or fold computes that value (`fold_octets`), so a
length determinant is exact for every `usize`.
-/
import OpenStandards.Ilp.Packet
import Mathlib.Tactic.IntervalCases

namespace OpenStandards.Ilp

open Lib

-- ==== lengths

theorem ofLeBytes_lt (bs : List UInt8) : ofLeBytes bs < 256 ^ bs.length := by
  induction bs with
  | nil => exact Nat.one_pos
  | cons b bs ih =>
    have hb := b.toNat_lt
    rw [ofLeBytes, List.length_cons, Nat.pow_succ]
    omega

theorem ofLeBytes_lengthOctets {k v : Nat} (h : v < 256 ^ k) :
    ofLeBytes (lengthOctets k v) = v := by
  induction k generalizing v with
  | zero =>
    rw [Nat.pow_zero, Nat.lt_one_iff] at h
    exact h.symm
  | succ k ih =>
    unfold lengthOctets
    by_cases hv : 0 < v
    · have hshift : v >>> 8 = v / 256 := Nat.shiftRight_eq_div_pow v 8
      have hmask : v &&& 0xff = v % 256 := Nat.and_two_pow_sub_one_eq_mod v 8
      have hdiv : v / 256 < 256 ^ k := by
        rw [Nat.pow_succ] at h
        omega
      rw [if_pos hv, ofLeBytes, hshift, ih hdiv, hmask, UInt8.toNat_ofNat']
      omega
    · rw [if_neg hv]
      exact (Nat.eq_zero_of_not_pos hv).symm

theorem length_lengthOctets (k v : Nat) : (lengthOctets k v).length ≤ k := by
  induction k generalizing v with
  | zero => exact Nat.le_refl 0
  | succ k ih =>
    unfold lengthOctets
    split
    · exact Nat.succ_le_succ (ih _)
    · exact Nat.zero_le _

/-- The decoder's fold computes the value of up to eight octets. -/
theorem fold_octets (bs : List UInt8) (h : bs.length ≤ 8) :
    bs.reverse.foldl (fun len b => (len <<< 8 ||| b.toNat) % 2 ^ 64) 0 = ofLeBytes bs := by
  rw [List.foldl_reverse]
  induction bs with
  | nil => rfl
  | cons b bs ih =>
    rw [List.length_cons] at h
    have hvalue : ofLeBytes (b :: bs) < 2 ^ 64 := by
      refine lt_of_lt_of_le (ofLeBytes_lt _) ?_
      rw [List.length_cons]
      exact (Nat.pow_le_pow_right (by norm_num) h).trans (by norm_num)
    rw [List.foldr_cons, ih (by omega),
      ← Nat.shiftLeft_add_eq_or_of_lt b.toNat_lt, Nat.shiftLeft_eq]
    have hcons : ofLeBytes bs * 2 ^ 8 + b.toNat = ofLeBytes (b :: bs) := by
      rw [ofLeBytes]
      omega
    rw [hcons, Nat.mod_eq_of_lt hvalue]

theorem longForm_byte {n : Nat} (h : n ≤ 8) :
    ¬ UInt8.ofNat (0x80 ||| n) < 128 ∧ (UInt8.ofNat (0x80 ||| n) &&& 0x7f).toNat = n := by
  interval_cases n <;> decide

/-- A length determinant is exact, at every length a `usize` can hold. -/
theorem decodeLength_encodeLength {len : Nat} (h : len < 2 ^ 64) (rest : List UInt8) :
    decodeLength (encodeLength len ++ rest) = .ok (len, (encodeLength len).length) := by
  unfold encodeLength
  by_cases hshort : len < 128
  · rw [if_pos hshort]
    have hbyte : (UInt8.ofNat len).toNat = len := by
      rw [UInt8.toNat_ofNat']
      omega
    have hlt : UInt8.ofNat len < 128 := by
      rw [UInt8.lt_iff_toNat_lt, hbyte]
      exact hshort
    rw [List.singleton_append, decodeLength, if_pos hlt, hbyte]
    rfl
  · rw [if_neg hshort]
    dsimp only
    have hvalue : ofLeBytes (lengthOctets 8 len) = len :=
      ofLeBytes_lengthOctets (h.trans_le (by norm_num))
    have hle := length_lengthOctets 8 len
    have hpos : (lengthOctets 8 len).length ≠ 0 := by
      intro hzero
      rw [List.length_eq_zero_iff.1 hzero] at hvalue
      exact hshort (by rw [← hvalue]; norm_num [ofLeBytes])
    generalize lengthOctets 8 len = octets at hvalue hle hpos
    obtain ⟨hlong, hcount⟩ := longForm_byte
      (n := octets.reverse.length) (by rw [List.length_reverse]; exact hle)
    rw [List.length_reverse] at hlong hcount
    rw [List.cons_append, decodeLength, List.length_reverse, if_neg hlong]
    dsimp only
    rw [hcount, check_bind_eq_ok, refuse_eq_ok, check_bind_eq_ok,
      refuse_eq_ok, check_bind_eq_ok, refuse_eq_ok]
    refine ⟨hpos, ?_, by omega, ?_⟩
    · simp only [List.length_cons, List.length_append, List.length_reverse]
      omega
    · have hslice : (slice (UInt8.ofNat (0x80 ||| octets.length)
          :: (octets.reverse ++ rest)) 1 (1 + octets.length) : Decoded _)
            = .ok octets.reverse := by
        unfold slice
        rw [if_pos]
        · simp
        · simp
          omega
      rw [hslice, ok_bind, fold_octets octets hle, hvalue, List.length_cons,
        List.length_reverse, Nat.add_comm]
      rfl

theorem reads_length (len : Nat) (h : len < 2 ^ 64) (input : List UInt8) :
    Reads input (readAt decodeLength input) (encodeLength len) len :=
  reads_readAt (fun _ => decodeLength_encodeLength h) input

-- ==== octet strings

/-- The part of a list between two known ones. -/
theorem slice_append (a b rest : List UInt8) :
    (slice (a ++ (b ++ rest)) a.length (a.length + b.length) : Decoded _) = .ok b := by
  unfold slice
  rw [if_pos ⟨by omega, by simp only [List.length_append]; omega⟩,
    List.drop_left, Nat.add_sub_cancel_left, List.take_left]

theorem decodeVarOctetString_encode {bytes : List UInt8}
    (h : (encodeVarOctetString bytes).length < 2 ^ 64) (rest : List UInt8) :
    decodeVarOctetString (encodeVarOctetString bytes ++ rest)
      = .ok (bytes, (encodeVarOctetString bytes).length) := by
  unfold encodeVarOctetString at h ⊢
  rw [List.length_append] at h
  unfold decodeVarOctetString
  rw [List.append_assoc, decodeLength_encodeLength (by omega), ok_bind]
  dsimp only
  rw [check_bind_eq_ok, refuse_eq_ok, check_bind_eq_ok, refuse_eq_ok, slice_append, ok_bind]
  refine ⟨by omega, ?_, ?_⟩
  · simp only [List.length_append]
    omega
  · rw [List.length_append]
    rfl

theorem reads_varOctetString (bytes input : List UInt8) :
    Reads input (readAt decodeVarOctetString input) (encodeVarOctetString bytes) bytes :=
  reads_readAt decodeVarOctetString_encode input

-- ==== integers

/-- A fixed number of bytes at the front. -/
theorem slice_front {a : List UInt8} {n : Nat} (h : a.length = n) (rest : List UInt8) :
    (slice (a ++ rest) 0 n : Decoded _) = .ok a := by
  unfold slice
  rw [if_pos ⟨Nat.zero_le _, by simp [← h]⟩, List.drop_zero, Nat.sub_zero, ← h, List.take_left]

theorem reads_word {α : Type} {k n : Nat} {truncated : String} {ofNat : Nat → α}
    (h : n < 256 ^ k) (input : List UInt8) :
    Reads input (readAt (decodeWord k truncated ofNat) input) (beBytes k n) (ofNat n) := by
  refine reads_readAt (fun _ rest => ?_) input
  have hlen : (beBytes k n).length = k := length_beBytes ..
  have hvalue : ofBeBytes (beBytes k n) = n := ofBeBytes_beBytes_of_lt h
  unfold decodeWord
  rw [slice_front hlen, check_bind_eq_ok, refuse_eq_ok, ok_bind]
  refine ⟨by rw [List.length_append]; omega, ?_⟩
  refine bind_eq_ok.2 ⟨_, copyFromSlice_toList ⟨beBytes k n, hlen⟩, ?_⟩
  show Except.ok (ofNat (ofBeBytes (beBytes k n)), k) = _
  rw [hvalue, hlen]

theorem reads_u64 (value : UInt64) (input : List UInt8) :
    Reads input (readAt decodeU64 input) (encodeU64 value) value := by
  have h : Reads input (readAt decodeU64 input) (encodeU64 value) (UInt64.ofNat value.toNat) :=
    reads_word (value.toNat_lt.trans_le (by norm_num)) input
  rwa [UInt64.ofNat_toNat] at h

theorem reads_u32 (value : UInt32) (input : List UInt8) :
    Reads input (readAt decodeU32 input) (encodeU32 value) value := by
  have h : Reads input (readAt decodeU32 input) (encodeU32 value) (UInt32.ofNat value.toNat) :=
    reads_word (value.toNat_lt.trans_le (by norm_num)) input
  rwa [UInt32.ofNat_toNat] at h

-- ==== strings

theorem fromUtf8_utf8Bytes (field s : String) : fromUtf8 field (utf8Bytes s) = .ok s := by
  have hbytes : (⟨(utf8Bytes s).toArray⟩ : ByteArray) = s.toByteArray := by
    unfold utf8Bytes
    rw [Array.toArray_toList]
  unfold fromUtf8 String.fromUTF8?
  rw [hbytes, dif_pos s.isValidUTF8]
  rfl

end OpenStandards.Ilp

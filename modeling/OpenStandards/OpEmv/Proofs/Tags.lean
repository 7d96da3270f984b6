/-
What a tag is read from, it is written as.

A tag is packed with its first byte most significant. A tag of several
bytes begins with a byte whose five low bits are set, so its packed number
has as many bytes as were read (`Wire.wireLen_eq`) whatever the others
are, a byte 0 among them included. From that the bytes come back
(`Wire.bytes_eq`), the first one too (`Wire.firstByte_eq`).
-/
import OpenStandards.OpEmv.Stream

namespace OpenStandards.OpEmv.Tag

open Lib

theorem ofBeBytes_cons (b : UInt8) (bs : Bytes) :
    ofBeBytes (b :: bs) = ofBeBytes bs + 256 ^ bs.length * b.toNat := by
  rw [← List.singleton_append, ofBeBytes_append]
  rfl

/-- A byte is shifted in at the bottom of a number that leaves room. -/
theorem toNat_shift_or {v : UInt32} (h : v.toNat < 256 ^ 3) (b : UInt8) :
    (v <<< 8 ||| b.toUInt32).toNat = 256 * v.toNat + b.toNat := by
  have hb := b.toNat_lt
  rw [UInt32.toNat_or, UInt32.toNat_shiftLeft, UInt8.toNat_toUInt32]
  show v.toNat <<< 8 % 4294967296 ||| b.toNat = _
  rw [Nat.shiftLeft_eq, Nat.mod_eq_of_lt (by omega), ← Nat.shiftLeft_eq,
    ← Nat.shiftLeft_add_eq_or_of_lt hb, Nat.shiftLeft_eq]
  omega

-- ==== reading

/-- What the loop over the continuation bytes reads: some bytes, packed
behind the value, and the same from these in front of anything. -/
theorem readMore_ok {start consumed n : Nat} {value : UInt32} {rest : Bytes}
    {tag : Tag} (hvalue : value.toNat < 256 ^ consumed)
    (h : readMore start value consumed rest = .ok (tag, n)) :
    ∃ more behind, rest = more ++ behind ∧ n = consumed + more.length
      ∧ n ≤ 4
      ∧ tag.val.toNat = ofBeBytes more + 256 ^ more.length * value.toNat
      ∧ ∀ start' behind', readMore start' value consumed (more ++ behind') = .ok (tag, n) := by
  induction rest generalizing value consumed with
  | nil => cases h
  | cons b rest ih =>
    rw [readMore] at h
    split at h
    case isTrue => cases h
    case isFalse hroom =>
      have hpow : 256 ^ consumed ≤ 256 ^ 3 :=
        Nat.pow_le_pow_right (by decide) (by omega)
      have hnext := toNat_shift_or (Nat.lt_of_lt_of_le hvalue hpow) b
      split at h
      case isTrue hlast =>
        cases h
        refine ⟨[b], rest, rfl, rfl, by omega, ?_, ?_⟩
        · rw [hnext, ofBeBytes_cons]
          show _ = 0 + 1 * b.toNat + 256 ^ 1 * value.toNat
          omega
        · intro start' behind'
          rw [List.singleton_append, readMore, if_neg hroom, if_pos hlast]
      case isFalse hmore =>
        have hb := b.toNat_lt
        have hbound : (value <<< 8 ||| b.toUInt32).toNat < 256 ^ (consumed + 1) := by
          rw [hnext, Nat.pow_succ]
          omega
        obtain ⟨more, behind, rfl, hn, hle, hval, hagain⟩ :=
          ih hbound h
        refine ⟨b :: more, behind, rfl, ?_, hle, ?_, ?_⟩
        · rw [hn, List.length_cons]
          omega
        · rw [hval, hnext, ofBeBytes_cons, List.length_cons]
          ring
        · intro start' behind'
          rw [List.cons_append, readMore, if_neg hroom, if_neg hmore, hagain]

structure Wire (first : UInt8) (more : Bytes) (tag : Tag) : Prop where
  length_le : more.length ≤ 3
  first_ne_zero : more ≠ [] → first ≠ 0
  packed : tag.val.toNat = ofBeBytes (first :: more)
  again : ∀ behind, read (first :: more ++ behind) 0 = .ok (tag, more.length + 1)

theorem wire_of_read {buf : Bytes} {start n : Nat} {tag : Tag}
    (h : read buf start = .ok (tag, n)) :
    ∃ first more behind, buf.drop start = first :: more ++ behind
      ∧ n = more.length + 1 ∧ Wire first more tag := by
  unfold read at h
  split at h
  case h_1 => cases h
  case h_2 first rest hat =>
    rw [hat]
    split at h
    case isTrue hsingle =>
      cases h
      refine ⟨first, [], rest, rfl, rfl, ?_⟩
      refine ⟨Nat.zero_le _, absurd rfl, ?_, ?_⟩
      · rw [ofBeBytes_cons]
        show first.toUInt32.toNat = 0 + 1 * first.toNat
        rw [UInt8.toNat_toUInt32]
        omega
      · intro behind
        show (if first &&& 0x1F ≠ 0x1F then _ else _) = _
        rw [if_pos hsingle]
        rfl
    case isFalse hmulti =>
      have hfirst : first.toUInt32.toNat < 256 ^ 1 := by
        rw [UInt8.toNat_toUInt32]
        exact first.toNat_lt
      obtain ⟨more, behind, rfl, rfl, hle, hval, hagain⟩ :=
        readMore_ok hfirst h
      refine ⟨first, more, behind, rfl, Nat.add_comm .., ?_⟩
      refine ⟨by omega, ?_, ?_, ?_⟩
      · rintro - rfl
        exact hmulti (by decide)
      · rw [hval, ofBeBytes_cons, UInt8.toNat_toUInt32]
      · intro behind'
        show (if first &&& 0x1F ≠ 0x1F then _ else _) = _
        rw [if_neg hmulti]
        exact (hagain 0 behind').trans (by rw [Nat.add_comm])

-- ==== writing

namespace Wire

variable {first : UInt8} {more : Bytes} {tag : Tag}

/-- The packed number has as many bytes as the tag. -/
theorem wireLen_eq (h : Wire first more tag) : tag.wireLen = more.length + 1 := by
  have hval := h.packed
  have hfirst := first.toNat_lt
  have hle := h.length_le
  have hmore := ofBeBytes_lt more
  rw [ofBeBytes_cons] at hval
  have hpos : more ≠ [] → 0 < first.toNat := fun hne =>
    Nat.pos_of_ne_zero fun hzero =>
      h.first_ne_zero hne (UInt8.toNat_inj.1 hzero)
  rw [← List.length_pos_iff] at hpos
  unfold wireLen
  simp only [UInt32.lt_iff_toNat_lt]
  show (if 16777215 < tag.val.toNat then 4
    else if 65535 < tag.val.toNat then 3
    else if 255 < tag.val.toNat then 2 else 1) = _
  generalize more.length = k at hval hle hmore hpos ⊢
  have hk : k = 0 ∨ k = 1 ∨ k = 2 ∨ k = 3 := by omega
  rcases hk with rfl | rfl | rfl | rfl
  all_goals
    split_ifs
    all_goals omega

theorem bytes_eq (h : Wire first more tag) : tag.bytes = first :: more := by
  have hle := h.length_le
  have hdrop : (beBytes 4 tag.val.toNat).drop (4 - tag.wireLen)
      = beBytes tag.wireLen tag.val.toNat := by
    rw [h.wireLen_eq]
    have hk : more.length = 0 ∨ more.length = 1 ∨ more.length = 2 ∨ more.length = 3 := by omega
    rcases hk with hk | hk | hk | hk
    all_goals
      rw [hk]
      rfl
  rw [bytes, hdrop, h.wireLen_eq, h.packed]
  exact beBytes_ofBeBytes (first :: more)

theorem firstByteLoop_eq {rounds k low : Nat} {v : UInt32}
    (hk : k ≤ rounds) (hlow : low < 256 ^ k) (hpos : 0 < k → first ≠ 0)
    (hv : v.toNat = low + 256 ^ k * first.toNat) :
    (firstByteLoop rounds v).toUInt8 = first := by
  have hfirst := first.toNat_lt
  induction rounds generalizing k low v with
  | zero =>
    obtain rfl : k = 0 := by omega
    apply UInt8.toNat_inj.1
    rw [firstByteLoop, UInt32.toNat_toUInt8]
    omega
  | succ rounds ih =>
    rw [firstByteLoop]
    cases k with
    | zero =>
      have hsmall : ¬ (0xFF : UInt32) < v := by
        show ¬ 255 < v.toNat
        omega
      rw [if_neg hsmall]
      apply UInt8.toNat_inj.1
      rw [UInt32.toNat_toUInt8]
      omega
    | succ k =>
      have hne : first.toNat ≠ 0 := fun hzero =>
        hpos (Nat.succ_pos k) (UInt8.toNat_inj.1 hzero)
      have hpow : 256 ^ k * 1 ≤ 256 ^ k * first.toNat :=
        Nat.mul_le_mul_left _ (Nat.pos_of_ne_zero hne)
      have hk1 : 0 < 256 ^ k := Nat.pow_pos (by decide)
      rw [Nat.pow_succ'] at hlow hv
      rw [Nat.mul_assoc] at hv
      have hlarge : (0xFF : UInt32) < v := by
        show 255 < v.toNat
        omega
      rw [if_pos hlarge]
      have hshift : (v >>> 8).toNat = low / 256 + 256 ^ k * first.toNat := by
        rw [UInt32.toNat_shiftRight]
        show v.toNat >>> 8 = _
        rw [Nat.shiftRight_eq_div_pow]
        omega
      exact ih (by omega) (by omega) (fun _ => hpos (Nat.succ_pos k)) hshift

theorem firstByte_eq (h : Wire first more tag) : tag.firstByte = first := by
  apply firstByteLoop_eq h.length_le (ofBeBytes_lt more)
  · intro hpos
    exact h.first_ne_zero (List.length_pos_iff.1 hpos)
  · rw [h.packed, ofBeBytes_cons]

end Wire

/-- A tag that was read from some bytes is written as these, its class and
its form are those of the first of them, and from what is written it is
read again. -/
theorem read_write {buf : Bytes} {start n : Nat} {tag : Tag} (h : read buf start = .ok (tag, n)) :
    start + n ≤ buf.length
      ∧ (∀ out : Bytes, n ≤ out.length →
        tag.write out = .ok (n, (buf.drop start).take n ++ out.drop n))
      ∧ (∀ first, buf[start]? = some first →
        tag.class_ = .fromFirstByte first ∧ tag.isConstructed = (first &&& 0x20 != 0))
      ∧ ∀ (out : Bytes) n' out', tag.write out = .ok (n', out') →
        read out' 0 = .ok (tag, n) := by
  obtain ⟨first, more, behind, hat, rfl, hwire⟩ := wire_of_read h
  have hlength := congrArg List.length hat
  rw [List.length_drop, List.length_append, List.length_cons] at hlength
  have htake : (first :: more ++ behind).take (more.length + 1)
      = first :: more := List.take_left' rfl
  refine ⟨by omega, ?_, ?_, ?_⟩
  · intro out hout
    rw [write, hwire.wireLen_eq, if_neg (Nat.not_lt.2 hout), hwire.bytes_eq, hat, htake]
  · intro b hb
    have hhead : (buf.drop start)[0]? = some b := by
      rw [List.getElem?_drop]
      exact hb
    rw [hat] at hhead
    cases hhead
    rw [class_, isConstructed, hwire.firstByte_eq]
    exact ⟨rfl, rfl⟩
  · intro out n' out' hwrite
    unfold write at hwrite
    split at hwrite
    case isTrue => cases hwrite
    case isFalse =>
      cases hwrite
      rw [hwire.bytes_eq]
      exact hwire.again _

/-- A tag of three bytes, the last one 0, comes back. -/
theorem read_write_trailingZero :
    read [0x9F, 0x80, 0x00, 0x01] 0 = .ok (⟨0x9F8000⟩, 3)
      ∧ write ⟨0x9F8000⟩ [1, 2, 3, 4] = .ok (3, [0x9F, 0x80, 0x00, 4]) := by
  have hread : read [0x9F, 0x80, 0x00, 0x01] 0 = .ok (⟨0x9F8000⟩, 3) := by
    decide
  exact ⟨hread, (read_write hread).2.1 [1, 2, 3, 4] (by decide)⟩

end OpenStandards.OpEmv.Tag

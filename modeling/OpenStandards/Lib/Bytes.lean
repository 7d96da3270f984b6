/-
Fixed-width numbers as byte strings, least significant byte first
(`to_le_bytes`) and most significant byte first (`to_be_bytes`), and the
value a byte string stands for. Encoding keeps what fits the width, so a
decoded encoding is the number modulo the width.
-/
import Mathlib.Data.UInt
import Mathlib.Tactic.Ring
import Mathlib.Data.List.GetD

namespace OpenStandards.Lib

section

/-- The `k` low bytes of a number, the lowest first. -/
def leBytes : Nat → Nat → List UInt8
  | 0, _ => []
  | k + 1, n => UInt8.ofNat n :: leBytes k (n / 256)

/-- The number a byte string stands for, the lowest byte first. -/
def ofLeBytes : List UInt8 → Nat
  | [] => 0
  | b :: bs => b.toNat + 256 * ofLeBytes bs

@[simp]
theorem length_leBytes (k n : Nat) : (leBytes k n).length = k := by
  induction k generalizing n with
  | zero => rfl
  | succ k ih => exact congrArg (· + 1) (ih (n / 256))

theorem ofLeBytes_leBytes (k n : Nat) : ofLeBytes (leBytes k n) = n % 256 ^ k := by
  induction k generalizing n with
  | zero =>
    show 0 = n % 1
    rw [Nat.mod_one]
  | succ k ih =>
    show (UInt8.ofNat n).toNat + 256 * ofLeBytes (leBytes k (n / 256)) = _
    rw [ih, UInt8.toNat_ofNat', Nat.pow_succ' (n := k)]
    exact (Nat.mod_mul (x := n)).symm

variable {k i : Nat}

/-- What fits the width comes back. -/
theorem ofLeBytes_leBytes_of_lt {n : Nat} (h : n < 256 ^ k) : ofLeBytes (leBytes k n) = n := by
  rw [ofLeBytes_leBytes, Nat.mod_eq_of_lt h]

/-- The `k` low bytes of a number, the highest first. -/
def beBytes (k n : Nat) : List UInt8 := (leBytes k n).reverse

/-- The number a byte string stands for, the highest byte first. -/
def ofBeBytes (bs : List UInt8) : Nat := ofLeBytes bs.reverse

@[simp]
theorem length_beBytes (k n : Nat) : (beBytes k n).length = k := by
  unfold beBytes
  rw [List.length_reverse, length_leBytes]

theorem ofBeBytes_beBytes_of_lt {n : Nat} (h : n < 256 ^ k) : ofBeBytes (beBytes k n) = n := by
  unfold ofBeBytes beBytes
  rw [List.reverse_reverse, ofLeBytes_leBytes_of_lt h]

theorem leBytes_ofLeBytes (bs : List UInt8) : leBytes bs.length (ofLeBytes bs) = bs := by
  induction bs with
  | nil => rfl
  | cons b bs ih =>
    have hb := b.toNat_lt
    have hbyte : UInt8.ofNat (b.toNat + 256 * ofLeBytes bs) = b := by
      apply UInt8.toNat_inj.1
      rw [UInt8.toNat_ofNat']
      omega
    have hrest : (b.toNat + 256 * ofLeBytes bs) / 256 = ofLeBytes bs := by
      omega
    rw [List.length_cons, leBytes, ofLeBytes, hbyte, hrest, ih]

theorem ofLeBytes_lt (bs : List UInt8) : ofLeBytes bs < 256 ^ bs.length := by
  induction bs with
  | nil => exact Nat.one_pos
  | cons b bs ih =>
    have hb := b.toNat_lt
    rw [ofLeBytes, List.length_cons, Nat.pow_succ]
    omega

/-- A byte string is the bytes of the number it stands for. -/
theorem beBytes_ofBeBytes (bs : List UInt8) : beBytes bs.length (ofBeBytes bs) = bs := by
  have h := leBytes_ofLeBytes bs.reverse
  rw [List.length_reverse] at h
  rw [beBytes, ofBeBytes, h, List.reverse_reverse]

theorem ofBeBytes_lt (bs : List UInt8) : ofBeBytes bs < 256 ^ bs.length := by
  have h := ofLeBytes_lt bs.reverse
  rwa [List.length_reverse] at h

theorem ofLeBytes_append (low high : List UInt8) :
    ofLeBytes (low ++ high) = ofLeBytes low + 256 ^ low.length * ofLeBytes high := by
  induction low with
  | nil =>
    change ofLeBytes high = 0 + 1 * ofLeBytes high
    rw [Nat.one_mul, Nat.zero_add]
  | cons b low ih =>
    rw [List.cons_append, ofLeBytes, ih, ofLeBytes, List.length_cons]
    ring

theorem ofBeBytes_append (high low : List UInt8) :
    ofBeBytes (high ++ low) = ofBeBytes low + 256 ^ low.length * ofBeBytes high := by
  unfold ofBeBytes
  rw [List.reverse_append, ofLeBytes_append, List.length_reverse]

/-- A length that does not fit is written modulo its width. -/
theorem beBytes_mod (k n : Nat) : beBytes k (n % 256 ^ k) = beBytes k n := by
  have hvalue : ofBeBytes (beBytes k n) = n % 256 ^ k := by
    unfold ofBeBytes beBytes
    rw [List.reverse_reverse, ofLeBytes_leBytes]
  have hback := beBytes_ofBeBytes (beBytes k n)
  rw [length_beBytes, hvalue] at hback
  exact hback

-- ==== bits

/-- The bits of a byte string, the highest of the first byte first. -/
def bitAt (bytes : List UInt8) (i : Nat) : Bool :=
  (bytes.getD (i / 8) 0).toNat.testBit (7 - i % 8)

theorem testBit_leBytes {j : Nat} (hi : i < k) (hj : j < 8) (n : Nat) :
    ((leBytes k n).getD i 0).toNat.testBit j = n.testBit (8 * i + j) := by
  induction k generalizing i n with
  | zero => omega
  | succ k ih =>
    cases i with
    | zero =>
      show (UInt8.ofNat n).toNat.testBit j = _
      rw [UInt8.toNat_ofNat', Nat.testBit_mod_two_pow, decide_eq_true hj,
        Bool.true_and, Nat.mul_zero, Nat.zero_add]
    | succ i =>
      show ((leBytes k (n / 256)).getD i 0).toNat.testBit j = _
      rw [ih (by omega), show n / 256 = n / 2 ^ 8 from rfl, Nat.testBit_div_two_pow]
      congr 1
      ring

theorem bitAt_beBytes (hi : i < 8 * k) (n : Nat) :
    bitAt (beBytes k n) i = n.testBit (8 * k - 1 - i) := by
  have hbyte : (beBytes k n).getD (i / 8) 0 = (leBytes k n).getD (k - 1 - i / 8) 0 := by
    rw [beBytes, List.getD_eq_getElem?_getD, List.getD_eq_getElem?_getD,
      List.getElem?_reverse (by rw [length_leBytes]; omega), length_leBytes]
  rw [bitAt, hbyte, testBit_leBytes (by omega) (by omega)]
  congr 1
  omega

theorem bitAt_append (bs cs : List UInt8) (i : Nat) :
    bitAt (bs ++ cs) i = if i < 8 * bs.length then bitAt bs i
      else bitAt cs (i - 8 * bs.length) := by
  unfold bitAt
  split
  · rw [List.getD_append _ _ _ _ (by omega)]
  · rw [List.getD_append_right _ _ _ _ (by omega),
      show i / 8 - bs.length = (i - 8 * bs.length) / 8 by omega,
      show (i - 8 * bs.length) % 8 = i % 8 by omega]

/-- There is no bit behind the last byte. -/
theorem bitAt_of_le {bytes : List UInt8} (hi : 8 * bytes.length ≤ i) :
    bitAt bytes i = false := by
  rw [bitAt, List.getD_eq_default _ _ (by omega)]
  exact Nat.zero_testBit _

end

/-
Packed nibbles: two numbers below sixteen in a byte, the high one first.
`nibbles` takes a byte string apart and `pack` puts pairs together; they
are inverse to each other on whole pairs (`nibbles_pack`,
`pack_nibbles`).
-/

/-- The nibbles of a byte string, high before low. -/
def nibbles (bytes : List UInt8) : List UInt8 :=
  bytes.flatMap fun b : UInt8 => [b >>> 4, b &&& 0x0F]

/-- Pairs of nibbles as bytes; a last one without a partner is left
out. -/
def pack : List UInt8 → List UInt8
  | hi :: lo :: rest => ((hi <<< 4) ||| lo) :: pack rest
  | _ => []

@[simp]
theorem nibbles_nil : nibbles [] = [] := rfl

@[simp]
theorem nibbles_cons (b : UInt8) (bs : List UInt8) :
    nibbles (b :: bs) = (b >>> 4) :: (b &&& 0x0F) :: nibbles bs := rfl

@[simp]
theorem length_nibbles (bs : List UInt8) : (nibbles bs).length = 2 * bs.length := by
  induction bs with
  | nil => rfl
  | cons b bs ih =>
    simp only [nibbles_cons, List.length_cons, ih]
    omega

theorem lt_of_mem_nibbles {bs : List UInt8} : ∀ n ∈ nibbles bs, n < 16 := by
  induction bs with
  | nil => simp
  | cons b bs ih =>
    have hhigh : (b >>> 4).toNat < 16 := by
      have hb := b.toNat_lt
      rw [UInt8.toNat_shiftRight, Nat.shiftRight_eq_div_pow]
      exact Nat.div_lt_of_lt_mul hb
    have hlow : (b &&& 0x0F).toNat < 16 := by
      rw [UInt8.toNat_and]
      exact Nat.lt_of_le_of_lt Nat.and_le_right (by decide)
    rw [nibbles_cons]
    exact List.forall_mem_cons.2 ⟨hhigh, List.forall_mem_cons.2 ⟨hlow, ih⟩⟩

-- The facts about one byte are checked on all of them.

theorem shiftRight_pair {hi lo : UInt8} (hhi : hi < 16) (hlo : lo < 16) :
    ((hi <<< 4) ||| lo) >>> 4 = hi := by
  have hall : ∀ m < 16, ∀ n < 16,
      ((UInt8.ofNat m <<< 4) ||| UInt8.ofNat n) >>> 4 = UInt8.ofNat m := by
    decide +kernel
  have h := hall hi.toNat hhi lo.toNat hlo
  simpa only [UInt8.ofNat_toNat] using h

theorem and_pair {hi lo : UInt8} (hhi : hi < 16) (hlo : lo < 16) :
    ((hi <<< 4) ||| lo) &&& 0x0F = lo := by
  have hall : ∀ m < 16, ∀ n < 16,
      ((UInt8.ofNat m <<< 4) ||| UInt8.ofNat n) &&& 0x0F = UInt8.ofNat n := by
    decide +kernel
  have h := hall hi.toNat hhi lo.toNat hlo
  simpa only [UInt8.ofNat_toNat] using h

theorem pair_eq (b : UInt8) : ((b >>> 4) <<< 4) ||| (b &&& 0x0F) = b := by
  have hall : ∀ n < 256, ((UInt8.ofNat n >>> 4) <<< 4)
      ||| (UInt8.ofNat n &&& 0x0F) = UInt8.ofNat n := by
    decide +kernel
  have h := hall b.toNat b.toNat_lt
  simpa only [UInt8.ofNat_toNat] using h

/-- Taking packed pairs apart gives them back. -/
theorem nibbles_pack : ∀ {ns : List UInt8}, ns.length % 2 = 0 →
    (∀ n ∈ ns, n < 16) → nibbles (pack ns) = ns
  | [], _, _ => rfl
  | [_], h, _ => by simp at h
  | hi :: lo :: rest, h, hns => by
    have hhi := hns hi List.mem_cons_self
    have hlo := hns lo (List.mem_cons_of_mem _ List.mem_cons_self)
    have heven : rest.length % 2 = 0 := by
      simp only [List.length_cons] at h
      omega
    have hrest : nibbles (pack rest) = rest :=
      nibbles_pack heven fun n hn =>
        hns n (List.mem_cons_of_mem _ (List.mem_cons_of_mem _ hn))
    rw [pack, nibbles_cons, shiftRight_pair hhi hlo, and_pair hhi hlo, hrest]

/-- Packing what was taken apart gives it back. -/
theorem pack_nibbles (bs : List UInt8) : pack (nibbles bs) = bs := by
  induction bs with
  | nil => rfl
  | cons b bs ih => rw [nibbles_cons, pack, pair_eq, ih]

end OpenStandards.Lib

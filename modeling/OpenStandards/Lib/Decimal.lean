/-
Signed decimal numerals: an optional minus sign, digits, and after a point
the decimal places.

The printers of a program put a numeral together from parts, an integer
with its sign and a column of digits. Reading undoes it part by part: the
sign is the first character's, and the digits of both parts are one
number (`readNumeral_point`). So a sign that the integer part does not
carry is lost, whatever the places say.
-/
import OpenStandards.Lib.Text
import Mathlib.Data.List.TakeWhile
import Mathlib.Algebra.Order.Field.Rat

namespace OpenStandards.Lib

open Text

/-- A decimal numeral: a coefficient and its number of decimal places. -/
structure Numeral where
  coefficient : Int
  places : Nat

/-- The number the numeral stands for. -/
def Numeral.value (d : Numeral) : ℚ := d.coefficient / 10 ^ d.places

theorem Numeral.value_eq_iff {d : Numeral} {x : Int} :
    d.value = (x : ℚ) / 10 ^ d.places ↔ d.coefficient = x := by
  have hpos : (10 : ℚ) ^ d.places ≠ 0 := pow_ne_zero _ (by decide)
  unfold Numeral.value
  rw [div_left_inj' hpos]
  exact Int.cast_inj

/-- An integer in decimal. -/
def Text.signed (x : Int) : Text :=
  if x < 0 then '-' :: Nat.toDigits 10 x.natAbs else Nat.toDigits 10 x.natAbs

/-- The digits of a numeral without sign, as one number, and how many of
them stand after the point. -/
def readUnsigned (s : Text) : Option (Nat × Nat) :=
  let whole := s.takeWhile Char.isDigit
  if whole = [] then none
  else match s.dropWhile Char.isDigit with
    | [] => some (number whole, 0)
    | point :: places =>
      if point = '.' ∧ places ≠ [] ∧ ∀ c ∈ places, c.isDigit = true then
        some (number (whole ++ places), places.length)
      else none

def readNumeral : Text → Option Numeral
  | '-' :: s => (readUnsigned s).map fun n => ⟨-n.1, n.2⟩
  | s => (readUnsigned s).map fun n => ⟨n.1, n.2⟩

-- ==== digits

theorem Text.number_append (s t : Text) :
    number (s ++ t) = number s * 10 ^ t.length + number t := by
  unfold number
  rw [Nat.ofDigitChars_append, Nat.ofDigitChars_eq_ofDigitChars_zero, Nat.mul_comm]

theorem Text.isDigit_toDigits {n : Nat} {c : Char}
    (hc : c ∈ Nat.toDigits 10 n) : c.isDigit = true :=
  Nat.isDigit_of_mem_toDigits (by decide) (by decide) hc

theorem Text.number_toDigits (n : Nat) : number (Nat.toDigits 10 n) = n :=
  Nat.ofDigitChars_ten_toDigits

-- ==== reading

theorem readUnsigned_digits {s : Text} (hs : ∀ c ∈ s, c.isDigit = true)
    (hne : s ≠ []) : readUnsigned s = some (number s, 0) := by
  unfold readUnsigned
  rw [List.takeWhile_eq_self_iff.2 hs, List.dropWhile_eq_nil_iff.2 hs]
  exact if_neg hne

theorem readUnsigned_point {s t : Text} (hs : ∀ c ∈ s, c.isDigit = true)
    (hne : s ≠ []) (ht : ∀ c ∈ t, c.isDigit = true) (htne : t ≠ []) :
    readUnsigned (s ++ '.' :: t) = some (number (s ++ t), t.length) := by
  have htake : (s ++ '.' :: t).takeWhile Char.isDigit = s := by
    rw [List.takeWhile_append_of_pos hs,
      List.takeWhile_cons_of_neg (by decide), List.append_nil]
  have hdrop : (s ++ '.' :: t).dropWhile Char.isDigit = '.' :: t := by
    rw [List.dropWhile_append_of_pos hs, List.dropWhile_cons_of_neg (by decide)]
  unfold readUnsigned
  rw [htake, hdrop]
  dsimp only
  rw [if_neg hne, if_pos ⟨rfl, htne, ht⟩]

theorem readNumeral_signed_append (x : Int) (t : Text) :
    readNumeral (signed x ++ t)
      = (readUnsigned (Nat.toDigits 10 x.natAbs ++ t)).map fun n =>
          ⟨if x < 0 then -n.1 else n.1, n.2⟩ := by
  unfold signed
  split
  case isTrue hneg => rfl
  case isFalse hneg =>
    cases hdigits : Nat.toDigits 10 x.natAbs with
    | nil => exact absurd hdigits Nat.toDigits_ne_nil
    | cons c s =>
      have hc : c.isDigit = true :=
        isDigit_toDigits (hdigits ▸ List.mem_cons_self ..)
      unfold readNumeral
      split
      · rename_i heq
        obtain ⟨rfl, -⟩ := List.cons.inj heq
        cases hc
      · rfl

theorem readNumeral_signed (x : Int) : readNumeral (signed x) = some ⟨x, 0⟩ := by
  have h := readNumeral_signed_append x []
  rw [List.append_nil, List.append_nil,
    readUnsigned_digits (fun c hc => isDigit_toDigits hc) Nat.toDigits_ne_nil,
    number_toDigits] at h
  rw [h]
  show some (Numeral.mk (if x < 0 then -(x.natAbs : Int) else x.natAbs) 0) = _
  congr 2
  split <;> omega

/-- An integer and decimal places: the places count in the direction of
the integer's sign. -/
theorem readNumeral_point (x : Int) {n k : Nat} (hk : 0 < k) (hn : n < 10 ^ k) :
    readNumeral (signed x ++ '.' :: zeroPad k n)
      = some ⟨if x < 0 then -(x.natAbs * 10 ^ k + n : Nat)
          else (x.natAbs * 10 ^ k + n : Nat), k⟩ := by
  have hlen : (zeroPad k n).length = k := (length_zeroPad_iff hk n).2 hn
  have hne : zeroPad k n ≠ [] := fun hnil => by
    rw [hnil] at hlen
    exact absurd hlen hk.ne
  rw [readNumeral_signed_append, readUnsigned_point
    (fun c hc => isDigit_toDigits hc) Nat.toDigits_ne_nil
    (fun c hc => isDigit_zeroPad hc) hne, number_append, number_toDigits,
    number_zeroPad, hlen]
  rfl

end OpenStandards.Lib

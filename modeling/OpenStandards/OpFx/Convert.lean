/-
Conversion of amounts between currencies (op-fx `convert.rs`, `quote.rs`,
`error.rs`).

The intermediate product has 128 bits in the source, which an amount times
a rate never leaves, so it is an integer here.
-/
import OpenStandards.OpCore.Money
import OpenStandards.Lib.Fallible
import Mathlib.Algebra.Order.Archimedean.Basic
import Mathlib.Data.Int.ConditionallyCompleteOrder

namespace OpenStandards.OpFx

open Lib OpCore

/-- The failure modes of a conversion. -/
inductive Error where
  | invalidRate
  | sameCurrency (code : String)
  | currencyMismatch (money quoteSource : String)
  | quoteExpired (fromCurrency toCurrency : String)
    (validUntil now : UInt64)
  | overflow
deriving DecidableEq

/-- A rate from one currency to another, in parts per million. -/
structure Quote where
  sourceCurrency : Currency
  targetCurrency : Currency
  ratePpm : UInt64
  validUntilUnixSecs : UInt64

def Quote.isValidAt (q : Quote) (now : UInt64) : Bool :=
  now ≤ q.validUntilUnixSecs

/-- How a remainder is rounded. -/
inductive RoundingMode where
  | halfEven
  | down
  | up

/-- The quotient, or the next one away from zero. -/
def applyRounding (quotient remainder divisor : Int) (mode : RoundingMode) : Int :=
  if remainder = 0 then quotient
  else
    let sign : Int :=
      if quotient < 0 ∨ quotient = 0 ∧ remainder < 0 then -1 else 1
    let absRem : Int := remainder.natAbs
    let half := divisor.tdiv 2
    match mode with
    | .down => quotient
    | .up => quotient + sign
    | .halfEven =>
      if absRem < half then quotient
      else if half < absRem then quotient + sign
      else if quotient.tmod 2 = 0 then quotient
      else quotient + sign

def convert (money : Money) (quote : Quote) (mode : RoundingMode)
    (now : UInt64) : Except Error Money :=
  if quote.ratePpm = 0 then .error .invalidRate
  else if quote.sourceCurrency = quote.targetCurrency then
    .error (.sameCurrency quote.sourceCurrency.code)
  else if money.currency ≠ quote.sourceCurrency then
    .error (.currencyMismatch money.currency.code quote.sourceCurrency.code)
  else if !quote.isValidAt now then
    .error (.quoteExpired quote.sourceCurrency.code
      quote.targetCurrency.code quote.validUntilUnixSecs now)
  else
    let scaled : Int := money.minorUnits.val * quote.ratePpm.toNat
    let divisor : Int := 1000000
    let adjusted := applyRounding (scaled.tdiv divisor) (scaled.tmod divisor)
      divisor mode
    match I64.ofInt? adjusted with
    | some minor => .ok (.fromMinor minor quote.targetCurrency)
    | none => .error .overflow

/-
What a conversion is worth.

A rate is between whole units, and an amount counts minor units, of which
two currencies may have differently many to the unit. The quotient that is
rounded leaves that out (`applyRounding_eq`), so between currencies of the
same scale a conversion is exact and monotone, and between others every
quote is wrong tenfold or more for some amount (`convertsExactly_iff`).
-/

-- ==== rounding

/-- A number rounded to a whole one: to the nearest, between two the even
one; towards zero; or away from zero. -/
def RoundingMode.round (mode : RoundingMode) (x : ℚ) : Int :=
  match mode with
  | .halfEven =>
    if x - ⌊x⌋ < 1 / 2 then ⌊x⌋
    else if 1 / 2 < x - ⌊x⌋ then ⌊x⌋ + 1
    else if ⌊x⌋ % 2 = 0 then ⌊x⌋ else ⌊x⌋ + 1
  | .down => if 0 ≤ x then ⌊x⌋ else ⌈x⌉
  | .up => if 0 ≤ x then ⌈x⌉ else ⌊x⌋

/-- A rounded number is less than one away. -/
theorem RoundingMode.abs_round_sub_lt (mode : RoundingMode) (x : ℚ) :
    |(mode.round x : ℚ) - x| < 1 := by
  have hfloor := Int.floor_le x
  have hfloor' := Int.lt_floor_add_one x
  have hceil := Int.le_ceil x
  have hceil' := Int.ceil_lt_add_one x
  rw [abs_lt]
  unfold RoundingMode.round
  cases mode with
  | halfEven =>
    dsimp only
    split_ifs
    all_goals
      push_cast
      constructor <;> linarith
  | down | up =>
    dsimp only
    split_ifs
    all_goals constructor <;> linarith

/-- A greater number is not rounded to a smaller one. -/
theorem RoundingMode.round_mono (mode : RoundingMode) : Monotone mode.round := by
  intro x y hxy
  have hfloor := Int.floor_mono hxy
  have hceil := Int.ceil_mono hxy
  have hx := Int.floor_le_ceil x
  have hy := Int.floor_le_ceil y
  unfold RoundingMode.round
  cases mode with
  | halfEven =>
    dsimp only
    rcases lt_or_eq_of_le hfloor with hlt | heq
    · split_ifs
      all_goals omega
    · rw [heq]
      split_ifs
      all_goals first
        | omega
        | exfalso
          linarith
  | down =>
    dsimp only
    split_ifs with h₁ h₂
    · exact hfloor
    · exact absurd (h₁.trans hxy) h₂
    · exact le_trans (Int.ceil_le.2 (by push_cast; linarith)) (Int.floor_nonneg.2 ‹0 ≤ y›)
    · exact hceil
  | up =>
    dsimp only
    split_ifs with h₁ h₂
    · exact hceil
    · exact absurd (h₁.trans hxy) h₂
    · exact hx.trans hceil
    · exact hfloor

/-- The rounding of a quotient, by the integer operations. -/
theorem RoundingMode.round_div (mode : RoundingMode) (n : Int) :
    mode.round ((n : ℚ) / 1000000) = match mode with
      | .halfEven =>
        if n % 1000000 < 500000 then n / 1000000
        else if 500000 < n % 1000000 then n / 1000000 + 1
        else if n / 1000000 % 2 = 0 then n / 1000000 else n / 1000000 + 1
      | .down => if 0 ≤ n then n / 1000000 else -(-n / 1000000)
      | .up => if 0 ≤ n then -(-n / 1000000) else n / 1000000 := by
  have hfloor : ⌊(n : ℚ) / 1000000⌋ = n / 1000000 := by
    have h := Rat.floor_intCast_div_natCast n 1000000
    exact_mod_cast h
  have hceil : ⌈(n : ℚ) / 1000000⌉ = -(-n / 1000000) := by
    have h := Rat.ceil_intCast_div_natCast n 1000000
    exact_mod_cast h
  have hsign : 0 ≤ (n : ℚ) / 1000000 ↔ 0 ≤ n := by
    rw [le_div_iff₀ (by norm_num), zero_mul, Int.cast_nonneg_iff]
  have hfract : (n : ℚ) / 1000000 - ((n / 1000000 : Int) : ℚ)
      = ((n % 1000000 : Int) : ℚ) / 1000000 := by
    have hmod : ((1000000 * (n / 1000000) + n % 1000000 : Int) : ℚ) = n := by
      rw [Int.mul_ediv_add_emod]
    push_cast at hmod ⊢
    linarith
  have hless : ((n % 1000000 : Int) : ℚ) / 1000000 < 1 / 2 ↔ n % 1000000 < 500000 := by
    rw [div_lt_iff₀ (by norm_num), ← Int.cast_lt (R := ℚ)]
    norm_num
  have hmore : 1 / 2 < ((n % 1000000 : Int) : ℚ) / 1000000 ↔ 500000 < n % 1000000 := by
    rw [lt_div_iff₀ (by norm_num), ← Int.cast_lt (R := ℚ)]
    norm_num
  unfold RoundingMode.round
  simp only [hfloor, hceil, hsign, hfract, hless, hmore]

theorem applyRounding_eq (n : Int) (mode : RoundingMode) :
    applyRounding (n.tdiv 1000000) (n.tmod 1000000) 1000000 mode
      = mode.round ((n : ℚ) / 1000000) := by
  rw [RoundingMode.round_div]
  have hhalf : (1000000 : Int).tdiv 2 = 500000 := rfl
  have heven : ∀ q : Int, q.tmod 2 = 0 ↔ q % 2 = 0 := by
    intro q
    rw [← Int.dvd_iff_tmod_eq_zero, Int.dvd_iff_emod_eq_zero]
  unfold applyRounding
  rw [hhalf]
  simp only [heven]
  rcases le_or_gt 0 n with hn | hn
  · rw [Int.tdiv_eq_ediv_of_nonneg hn, Int.tmod_eq_emod_of_nonneg hn]
    cases mode with
    | halfEven | down | up =>
      dsimp only
      split_ifs
      all_goals omega
  · obtain ⟨m, rfl⟩ : ∃ m, n = -m := ⟨-n, (neg_neg n).symm⟩
    rw [Int.neg_tdiv, Int.neg_tmod,
      Int.tdiv_eq_ediv_of_nonneg (by omega : 0 ≤ m),
      Int.tmod_eq_emod_of_nonneg (by omega : 0 ≤ m)]
    cases mode with
    | halfEven | down | up =>
      dsimp only
      split_ifs
      all_goals omega

-- ==== conversions

/-- What an amount of the source currency is worth in minor units of the
target: a rate is between whole units. -/
def Quote.exact (q : Quote) (amount : I64) : ℚ :=
  (amount.val : ℚ) / 10 ^ q.sourceCurrency.exponent
    * ((q.ratePpm.toNat : ℚ) / 1000000) * 10 ^ q.targetCurrency.exponent

/-- The quotient that is rounded. -/
def Quote.unscaled (q : Quote) (amount : I64) : ℚ :=
  ((amount.val * q.ratePpm.toNat : Int) : ℚ) / 1000000

/-- An amount that may be one of 64 bits. -/
def amountOf (currency : Currency) (minor : Int) : Except Error Money :=
  match I64.ofInt? minor with
  | some minor => .ok (.fromMinor minor currency)
  | none => .error .overflow

/-- While the quote is valid, every amount is converted to its worth,
rounded, unless that has no 64 bits; and a greater amount to no smaller
one. -/
structure ConvertsExactly (q : Quote) (mode : RoundingMode) : Prop where
  rounded : ∀ (amount : I64) (now : UInt64), now ≤ q.validUntilUnixSecs →
    convert (.fromMinor amount q.sourceCurrency) q mode now
      = amountOf q.targetCurrency (mode.round (q.exact amount))
  monotone : ∀ (a b : I64) (now : UInt64) (m m' : Money), a.val ≤ b.val →
    convert (.fromMinor a q.sourceCurrency) q mode now = .ok m →
    convert (.fromMinor b q.sourceCurrency) q mode now = .ok m' →
      m.minorUnits.val ≤ m'.minorUnits.val

variable {q : Quote} {now : UInt64} {m : Money}

theorem convert_eq (hrate : q.ratePpm ≠ 0)
    (hcurrency : q.sourceCurrency ≠ q.targetCurrency) (mode : RoundingMode)
    (amount : I64) (hnow : now ≤ q.validUntilUnixSecs) :
    convert (.fromMinor amount q.sourceCurrency) q mode now
      = amountOf q.targetCurrency (mode.round (q.unscaled amount)) := by
  have hvalid : q.isValidAt now = true := decide_eq_true hnow
  have hmoney : (Money.fromMinor amount q.sourceCurrency).currency = q.sourceCurrency := rfl
  unfold convert Quote.unscaled
  rw [if_neg hrate, if_neg hcurrency, hmoney, if_neg (not_not.2 rfl), hvalid,
    ← applyRounding_eq]
  rfl

theorem valid_of_convert {money : Money} {mode : RoundingMode}
    (h : convert money q mode now = .ok m) :
    q.ratePpm ≠ 0 ∧ q.sourceCurrency ≠ q.targetCurrency ∧ now ≤ q.validUntilUnixSecs := by
  unfold convert at h
  split_ifs at h with hrate hcurrency hmoney hvalid
  refine ⟨hrate, hcurrency, ?_⟩
  simpa [Quote.isValidAt] using hvalid

theorem amountOf_ok {currency : Currency} {minor : Int}
    (h : amountOf currency minor = .ok m) : m.minorUnits.val = minor := by
  unfold amountOf at h
  split at h
  case h_1 x hx =>
    cases h
    exact I64.ofInt?_eq_some.1 hx
  case h_2 => cases h

theorem amountOf_of_inI64 (currency : Currency) {minor : Int} (h : InI64 minor) :
    amountOf currency minor = .ok (.fromMinor ⟨minor, h⟩ currency) := by
  unfold amountOf I64.ofInt?
  rw [dif_pos h]

/-- A quote never turns the order of two amounts around. -/
theorem convert_monotone {mode : RoundingMode} {a b : I64} {m' : Money} (hab : a.val ≤ b.val)
    (ha : convert (.fromMinor a q.sourceCurrency) q mode now = .ok m)
    (hb : convert (.fromMinor b q.sourceCurrency) q mode now = .ok m') :
    m.minorUnits.val ≤ m'.minorUnits.val := by
  obtain ⟨hrate, hcurrency, hnow⟩ := valid_of_convert ha
  rw [convert_eq hrate hcurrency mode _ hnow] at ha hb
  rw [amountOf_ok ha, amountOf_ok hb]
  apply mode.round_mono
  unfold Quote.unscaled
  have hmul : a.val * q.ratePpm.toNat ≤ b.val * (q.ratePpm.toNat : Int) :=
    mul_le_mul_of_nonneg_right hab (Int.natCast_nonneg _)
  exact div_le_div_of_nonneg_right (Int.cast_le.2 hmul) (by norm_num)

/-- What the scales make of the quotient. -/
theorem Quote.exact_eq (q : Quote) (amount : I64) :
    q.exact amount * 10 ^ q.sourceCurrency.exponent
      = q.unscaled amount * 10 ^ q.targetCurrency.exponent := by
  unfold exact unscaled
  push_cast
  field_simp

/-- Every quote converts some amount to at least 10 and no more than fits. -/
theorem Quote.exists_amount (hrate : q.ratePpm ≠ 0) :
    ∃ amount : I64, 10 ≤ q.unscaled amount ∧ q.unscaled amount ≤ 9000000000000000000 := by
  have hlt := q.ratePpm.toNat_lt
  have hpos : 0 < q.ratePpm.toNat :=
    Nat.pos_of_ne_zero fun h => hrate (UInt64.toNat_inj.1 h)
  have hbounds : ∀ {p : Int}, 10000000 ≤ p →
      p ≤ 9000000000000000000000000 → 10 ≤ (p : ℚ) / 1000000
        ∧ (p : ℚ) / 1000000 ≤ 9000000000000000000 := by
    intro p hlo hhi
    have hlo' : ((10000000 : Int) : ℚ) ≤ p := Int.cast_le.2 hlo
    have hhi' : (p : ℚ) ≤ ((9000000000000000000000000 : Int) : ℚ) :=
      Int.cast_le.2 hhi
    rw [le_div_iff₀ (by norm_num), div_le_iff₀ (by norm_num)]
    push_cast at hlo' hhi'
    constructor
    all_goals linarith
  unfold unscaled
  by_cases hsmall : q.ratePpm.toNat ≤ 900000000000000000
  · exact ⟨⟨10000000, by decide⟩, hbounds (by dsimp only; omega) (by dsimp only; omega)⟩
  · exact ⟨⟨1, by decide⟩, hbounds (by dsimp only; omega) (by dsimp only; omega)⟩

/-- Scales that differ put a number from 10 on off by more than roundings
do. -/
theorem rescaled_far {x y : ℚ} {s t : Nat} (hx : 10 ≤ x) (hne : s ≠ t)
    (h : y * 10 ^ s = x * 10 ^ t) : x + 2 ≤ y ∨ y + 2 ≤ x := by
  rcases lt_or_gt_of_ne hne with hlt | hgt
  · left
    obtain ⟨d, rfl⟩ := Nat.exists_eq_add_of_lt hlt
    have hpow : (10 : ℚ) ≤ 10 ^ (d + 1) := le_self_pow₀ (by norm_num) (by simp)
    have hy : y = x * 10 ^ (d + 1) := by
      rw [Nat.add_assoc, pow_add] at h
      have hs : (10 : ℚ) ^ s ≠ 0 := by positivity
      apply mul_right_cancel₀ hs
      linarith
    rw [hy]
    nlinarith
  · right
    obtain ⟨d, rfl⟩ := Nat.exists_eq_add_of_lt hgt
    have hpow : (10 : ℚ) ≤ 10 ^ (d + 1) := le_self_pow₀ (by norm_num) (by simp)
    have hy : x = y * 10 ^ (d + 1) := by
      rw [Nat.add_assoc, pow_add] at h
      have hs : (10 : ℚ) ^ t ≠ 0 := by positivity
      apply mul_right_cancel₀ hs
      linarith
    have hpos : 0 < y := by
      by_contra hneg
      have : y * 10 ^ (d + 1) ≤ 0 :=
        mul_nonpos_of_nonpos_of_nonneg (not_lt.1 hneg) (by positivity)
      linarith
    nlinarith

/-- A quote that has a rate between two currencies converts exactly if and
only if these have equally many minor units. -/
theorem convertsExactly_iff (q : Quote) (mode : RoundingMode)
    (hrate : q.ratePpm ≠ 0) (hcurrency : q.sourceCurrency ≠ q.targetCurrency) :
    ConvertsExactly q mode ↔ q.sourceCurrency.exponent = q.targetCurrency.exponent := by
  constructor
  · intro h
    by_contra hne
    obtain ⟨amount, hlo, hhi⟩ := q.exists_amount hrate
    have heq := h.rounded amount q.validUntilUnixSecs (UInt64.le_refl _)
    rw [convert_eq hrate hcurrency mode amount (UInt64.le_refl _)] at heq
    have hround := abs_lt.1 (mode.abs_round_sub_lt (q.unscaled amount))
    have hexact := abs_lt.1 (mode.abs_round_sub_lt (q.exact amount))
    have hfits : InI64 (mode.round (q.unscaled amount)) := by
      constructor
      · rw [← Int.cast_le (R := ℚ)]
        push_cast
        linarith
      · rw [← Int.cast_le (R := ℚ)]
        push_cast
        linarith
    rw [amountOf_of_inI64 _ hfits] at heq
    have hsame : mode.round (q.unscaled amount)
        = mode.round (q.exact amount) := amountOf_ok heq.symm
    rw [hsame] at hround
    rcases rescaled_far hlo hne (q.exact_eq amount) with hfar | hfar
    · linarith
    · linarith
  · intro heq
    refine ⟨fun amount now hnow => ?_, fun a b now m m' => convert_monotone⟩
    have hexact : q.exact amount = q.unscaled amount := by
      have h := q.exact_eq amount
      rw [heq] at h
      exact mul_right_cancel₀ (by positivity) h
    rw [hexact]
    exact convert_eq hrate hcurrency mode amount hnow

def eurUsd : Quote :=
  { sourceCurrency := .EUR, targetCurrency := .USD, ratePpm := 1082500
    validUntilUnixSecs := 300 }

theorem eurUsd_convertsExactly : ConvertsExactly eurUsd .halfEven :=
  (convertsExactly_iff eurUsd .halfEven (by decide) (by decide)).2 rfl

/-- A quote for yen in dollars, at 67 hundredths of a cent each. -/
def jpyUsd : Quote :=
  { sourceCurrency := .JPY, targetCurrency := .USD, ratePpm := 6700
    validUntilUnixSecs := 300 }

/-- A hundred yen are converted to no cent. -/
theorem jpyUsd_not_converted :
    ¬ ∀ (q : Quote) (mode : RoundingMode), q.ratePpm ≠ 0 →
      q.sourceCurrency ≠ q.targetCurrency → ConvertsExactly q mode := by
  intro h
  have hexact : jpyUsd.exact ⟨100, by decide⟩ = 67 := by
    have hsource : jpyUsd.sourceCurrency.exponent = 0 := rfl
    have htarget : jpyUsd.targetCurrency.exponent = 2 := rfl
    have hrate : jpyUsd.ratePpm.toNat = 6700 := rfl
    unfold Quote.exact
    rw [hsource, htarget, hrate]
    norm_num
  have hrounded := (h jpyUsd .down (by decide) (by decide)).rounded
    ⟨100, by decide⟩ 0 (by decide)
  rw [hexact] at hrounded
  have hcall : convert (.fromMinor ⟨100, by decide⟩ .JPY) jpyUsd .down 0
      = .ok (.fromMinor 0 .USD) := by decide
  have hminor : (0 : Int) = RoundingMode.down.round 67 :=
    amountOf_ok (hrounded.symm.trans hcall)
  rw [RoundingMode.round, if_pos (by norm_num)] at hminor
  norm_num at hminor

end OpenStandards.OpFx

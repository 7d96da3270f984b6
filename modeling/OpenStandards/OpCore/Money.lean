/-
Money (op-core `money.rs`, `error.rs`): a currency is a three-letter
code and its number of decimal places, an amount is an `i64` number of
minor units in a currency.

A `Currency` carries what its constructor checks, so a currency with a
lower-case code or five decimal places cannot be built; the curated
constants of the source are values of the same type.
-/
import OpenStandards.Lib.Checked
import OpenStandards.Lib.Decimal

namespace OpenStandards.OpCore

open Lib

/-- The failure modes of op-core that the modelled functions use. -/
inductive CoreError where
  | currencyMismatch
  | overflow
  | invalidCurrency
  | illegalTransition (source target : String)
deriving DecidableEq

/-- `Display` of the op-core error. -/
def CoreError.text : CoreError → String
  | .currencyMismatch => "currency mismatch"
  | .overflow => "arithmetic overflow"
  | .invalidCurrency => "invalid currency code"
  | .illegalTransition source target =>
    "illegal state transition: " ++ source ++ " -> " ++ target

-- ==== currency

/-- A byte of a currency code: an ASCII upper-case letter. -/
def isCodeByte (c : Char) : Bool := 'A' ≤ c && c ≤ 'Z'

/-- An ISO 4217 currency: the alpha-3 code and the number of minor-unit
decimal places. -/
structure Currency where
  c0 : Char
  c1 : Char
  c2 : Char
  exponent : Nat
  code_upper : (isCodeByte c0 && isCodeByte c1 && isCodeByte c2) = true
  exponent_le : exponent ≤ 4
deriving DecidableEq

namespace Currency

def USD : Currency := ⟨'U', 'S', 'D', 2, by decide, by decide⟩
def EUR : Currency := ⟨'E', 'U', 'R', 2, by decide, by decide⟩
def BRL : Currency := ⟨'B', 'R', 'L', 2, by decide, by decide⟩
def INR : Currency := ⟨'I', 'N', 'R', 2, by decide, by decide⟩
def GBP : Currency := ⟨'G', 'B', 'P', 2, by decide, by decide⟩
def JPY : Currency := ⟨'J', 'P', 'Y', 0, by decide, by decide⟩
def CNY : Currency := ⟨'C', 'N', 'Y', 2, by decide, by decide⟩

def tryNew (c0 c1 c2 : Char) (exponent : Nat) : Except CoreError Currency :=
  if h : (isCodeByte c0 && isCodeByte c1 && isCodeByte c2) = true then
    if he : exponent ≤ 4 then .ok ⟨c0, c1, c2, exponent, h, he⟩
    else .error .invalidCurrency
  else .error .invalidCurrency

def code (c : Currency) : String := String.ofList [c.c0, c.c1, c.c2]

@[simp]
theorem toList_code (c : Currency) : c.code.toList = [c.c0, c.c1, c.c2] :=
  String.toList_ofList

/-- The constructor accepts the parts of every currency. -/
theorem tryNew_self (c : Currency) : tryNew c.c0 c.c1 c.c2 c.exponent = .ok c := by
  unfold tryNew
  rw [dif_pos c.code_upper, dif_pos c.exponent_le]

theorem ext_code {c d : Currency} (hcode : c.code = d.code)
    (hexp : c.exponent = d.exponent) : c = d := by
  have hlist : c.code.toList = d.code.toList := by rw [hcode]
  simp only [toList_code, List.cons.injEq, and_true] at hlist
  obtain ⟨h0, h1, h2⟩ := hlist
  cases c
  cases d
  simp_all

end Currency

-- ==== amounts

/-- An exact amount of minor units in a currency. -/
structure Money where
  minorUnits : I64
  currency : Currency
deriving DecidableEq

namespace Money

def fromMinor (minorUnits : I64) (currency : Currency) : Money :=
  { minorUnits, currency }

def zero (currency : Currency) : Money := { minorUnits := 0, currency }

def checkedAdd (a b : Money) : Except CoreError Money :=
  if a.currency ≠ b.currency then .error .currencyMismatch
  else match a.minorUnits.checkedAdd b.minorUnits with
    | none => .error .overflow
    | some minorUnits => .ok { minorUnits, currency := a.currency }

def checkedSub (a b : Money) : Except CoreError Money :=
  if a.currency ≠ b.currency then .error .currencyMismatch
  else match a.minorUnits.checkedSub b.minorUnits with
    | none => .error .overflow
    | some minorUnits => .ok { minorUnits, currency := a.currency }

theorem checkedAdd_eq_ok {a b r : Money} (h : a.checkedAdd b = .ok r) :
    r.currency = a.currency ∧ r.minorUnits.val = a.minorUnits.val + b.minorUnits.val := by
  unfold Money.checkedAdd at h
  split at h
  · cases h
  · split at h
    case h_1 => cases h
    case h_2 hsum =>
      cases h
      exact ⟨rfl, I64.checkedAdd_eq_some.1 hsum⟩

theorem checkedSub_eq_ok {a b r : Money} (h : a.checkedSub b = .ok r) :
    r.currency = a.currency ∧ r.minorUnits.val = a.minorUnits.val - b.minorUnits.val := by
  unfold Money.checkedSub at h
  split at h
  · cases h
  · split at h
    case h_1 => cases h
    case h_2 hdiff =>
      cases h
      exact ⟨rfl, I64.checkedSub_eq_some.1 hdiff⟩

end Money

/-
How an amount is printed (op-core `money.rs`, `Display for Money`).

The whole units and the remainder are printed apart, the remainder without
its sign. The sign of the amount is then the sign of the whole units, and
an amount of less than one unit has none: what is printed of it is its
magnitude (`readNumeral_display`).
-/

namespace Money

/-- `Display` of an amount: the currency's decimal places and its code. -/
def display (m : Money) : Text :=
  if m.currency.exponent = 0 then
    Text.signed m.minorUnits.val ++ ' ' :: m.currency.code.toList
  else
    let divisor : Int := 10 ^ m.currency.exponent
    let whole := m.minorUnits.val.tdiv divisor
    let frac := (m.minorUnits.val.tmod divisor).natAbs
    Text.signed whole ++ '.' :: Text.zeroPad m.currency.exponent frac
      ++ ' ' :: m.currency.code.toList

-- ==== statement vocabulary

/-- The printed amount, before the blank and the code, reads as the amount
in the currency's decimal places. -/
def Faithful (m : Money) : Prop :=
  ∃ amount d, m.display = amount ++ ' ' :: m.currency.code.toList
    ∧ readNumeral amount = some d
    ∧ d.places = m.currency.exponent
    ∧ d.value = (m.minorUnits.val : ℚ) / 10 ^ m.currency.exponent

/-- Less than nothing, but by less than one unit. -/
def Fractional (m : Money) : Prop :=
  -10 ^ m.currency.exponent < m.minorUnits.val ∧ m.minorUnits.val < 0

def shown (m : Money) : Int :=
  if -10 ^ m.currency.exponent < m.minorUnits.val then m.minorUnits.val.natAbs
  else m.minorUnits.val

variable {m : Money}

theorem shown_eq_iff : m.shown = m.minorUnits.val ↔ ¬ m.Fractional := by
  unfold shown Fractional
  split
  · omega
  · constructor
    · intro _ hfrac
      exact absurd hfrac.1 ‹_›
    · intro _
      rfl

-- ==== the reading

/-- The whole units are negative from one unit below zero on. -/
theorem tdiv_neg_iff {x d : Int} (hd : 0 < d) : x.tdiv d < 0 ↔ x ≤ -d := by
  rcases Int.lt_or_le x 0 with hx | hx
  · obtain ⟨y, rfl⟩ : ∃ y, x = -y := ⟨-x, (Int.neg_neg x).symm⟩
    have hy : 0 ≤ y := by omega
    have hone : 1 ≤ y / d ↔ 1 * d ≤ y := Int.le_ediv_iff_mul_le hd
    rw [Int.neg_tdiv, Int.tdiv_eq_ediv_of_nonneg hy]
    omega
  · have hnonneg := Int.tdiv_nonneg hx hd.le
    omega

/-- What is printed reads as the printed minor units, in the currency's
decimal places. -/
theorem readNumeral_display (m : Money) :
    ∃ amount, m.display = amount ++ ' ' :: m.currency.code.toList
      ∧ readNumeral amount = some ⟨m.shown, m.currency.exponent⟩ := by
  unfold display
  by_cases hexp : m.currency.exponent = 0
  · rw [if_pos hexp, hexp]
    refine ⟨_, rfl, ?_⟩
    rw [readNumeral_signed, shown_eq_iff.2]
    intro hfrac
    unfold Fractional at hfrac
    rw [hexp] at hfrac
    omega
  · rw [if_neg hexp]
    refine ⟨_, rfl, ?_⟩
    set k := m.currency.exponent
    set x := m.minorUnits.val
    have hpos : (0 : Int) < 10 ^ k := Int.pow_pos (by decide)
    have habs : ((10 : Int) ^ k).natAbs = 10 ^ k := by
      rw [Int.natAbs_pow]
      rfl
    have hfrac : (x.tmod (10 ^ k)).natAbs < 10 ^ k := by
      rw [Int.natAbs_tmod, habs]
      exact Nat.mod_lt _ (Nat.pow_pos (by decide))
    rw [readNumeral_point _ (Nat.pos_of_ne_zero hexp) hfrac]
    have hsum : (x.tdiv (10 ^ k)).natAbs * 10 ^ k + (x.tmod (10 ^ k)).natAbs = x.natAbs := by
      rw [Int.natAbs_tdiv, Int.natAbs_tmod, habs, Nat.mul_comm]
      exact Nat.div_add_mod _ _
    rw [hsum]
    congr 2
    show _ = if -10 ^ k < x then (x.natAbs : Int) else x
    by_cases hneg : x.tdiv (10 ^ k) < 0
    · have hle := (tdiv_neg_iff hpos).1 hneg
      rw [if_pos hneg, if_neg (by omega)]
      omega
    · have hlt : ¬ x ≤ -10 ^ k := fun hle => hneg ((tdiv_neg_iff hpos).2 hle)
      rw [if_neg hneg, if_pos (by omega)]

theorem faithful_iff_shown : m.Faithful ↔ m.shown = m.minorUnits.val := by
  obtain ⟨amount, hdisplay, hread⟩ := readNumeral_display m
  constructor
  · intro ⟨amount', d, hdisplay', hread', hplaces, hvalue⟩
    obtain rfl : amount = amount' :=
      List.append_cancel_right (hdisplay.symm.trans hdisplay')
    obtain rfl : ⟨m.shown, m.currency.exponent⟩ = d :=
      Option.some.inj (hread.symm.trans hread')
    exact Numeral.value_eq_iff.1 hvalue
  · intro hshown
    exact ⟨amount, _, hdisplay, hread, rfl, Numeral.value_eq_iff.2 hshown⟩

-- ==== two amounts

/-- Of an amount of less than one unit the magnitude is printed. -/
theorem display_neg {m' : Money} (hcur : m'.currency = m.currency)
    (hsmall : (m.minorUnits.val.natAbs : Int) < 10 ^ m.currency.exponent)
    (hneg : m'.minorUnits.val = -m.minorUnits.val) :
    m'.display = m.display := by
  by_cases hexp : m.currency.exponent = 0
  · rw [hexp] at hsmall
    have hsame : m'.minorUnits = m.minorUnits := I64.ext (by omega)
    unfold display
    rw [hcur, hsame]
  · have hwhole : ∀ x : Int, x.natAbs < 10 ^ m.currency.exponent →
        x.tdiv (10 ^ m.currency.exponent) = 0 := by
      intro x hx
      apply Int.natAbs_eq_zero.1
      rw [Int.natAbs_tdiv, Int.natAbs_pow]
      exact Nat.div_eq_of_lt hx
    have hx : m.minorUnits.val.natAbs < 10 ^ m.currency.exponent := by
      exact_mod_cast hsmall
    unfold display
    rw [hcur, if_neg hexp, if_neg hexp, hneg]
    dsimp only
    rw [hwhole _ hx, hwhole (-m.minorUnits.val) (by rwa [Int.natAbs_neg]),
      Int.neg_tmod, Int.natAbs_neg]

/-- Two amounts of one currency that print alike. -/
theorem display_eq_iff {m' : Money} (hcur : m'.currency = m.currency) :
    m'.display = m.display ↔ m' = m
      ∨ ((m.minorUnits.val.natAbs : Int) < 10 ^ m.currency.exponent
        ∧ m'.minorUnits.val = -m.minorUnits.val) := by
  constructor
  · intro h
    obtain ⟨amount, hdisplay, hread⟩ := readNumeral_display m
    obtain ⟨amount', hdisplay', hread'⟩ := readNumeral_display m'
    rw [hdisplay, hdisplay', hcur] at h
    obtain rfl : amount' = amount := List.append_cancel_right h
    have hshown : m'.shown = m.shown :=
      congrArg Numeral.coefficient (Option.some.inj (hread'.symm.trans hread))
    unfold shown at hshown
    rw [hcur] at hshown
    have hsame : m'.minorUnits.val = m.minorUnits.val → m' = m := by
      intro hval
      obtain ⟨minor, cur⟩ := m
      obtain ⟨minor', cur'⟩ := m'
      obtain rfl : minor' = minor := I64.ext hval
      obtain rfl : cur' = cur := hcur
      rfl
    by_cases hval : m'.minorUnits.val = m.minorUnits.val
    · exact Or.inl (hsame hval)
    · right
      split at hshown <;> split at hshown <;> constructor <;> omega
  · intro h
    rcases h with rfl | ⟨hsmall, hneg⟩
    · rfl
    · exact display_neg hcur hsmall hneg

/-- **When an amount is printed faithfully.** The text reads as the amount,
in the currency's decimal places, exactly where the amount is not below
zero by less than one unit; and a different amount of the currency prints
alike exactly where it is the opposite of one of less than one unit. -/
theorem faithful_iff (m : Money) :
    (m.Faithful ↔ ¬ m.Fractional)
      ∧ ∀ m' : Money, m'.currency = m.currency →
        (m'.display = m.display ↔ m' = m
          ∨ ((m.minorUnits.val.natAbs : Int) < 10 ^ m.currency.exponent
            ∧ m'.minorUnits.val = -m.minorUnits.val)) :=
  ⟨faithful_iff_shown.trans shown_eq_iff, fun _ => display_eq_iff⟩

example : String.ofList (fromMinor ⟨-1234, by decide⟩ .USD).display = "-12.34 USD" := by
  decide +kernel

/-- A debt of five cents is printed as the five cents. -/
theorem five_cents_alike :
    (fromMinor ⟨-5, by decide⟩ .USD).display = (fromMinor ⟨5, by decide⟩ .USD).display
      ∧ ¬ (fromMinor ⟨-5, by decide⟩ .USD).Faithful := by
  refine ⟨by decide +kernel, fun h => ?_⟩
  exact absurd (faithful_iff_shown.1 h) (by decide +kernel)

end Money

end OpenStandards.OpCore

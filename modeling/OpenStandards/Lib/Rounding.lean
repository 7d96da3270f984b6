/-
Rounding a rational to the nearest integer, midpoints away from zero.

A rounding is known by its error (`roundAway_eq_iff`): less than a half
either way, or a half on the side of zero. The rounded sum is the sum of
the rounded terms exactly when the errors of the terms add up to such an
error again (`roundAway_sum_iff`), and two parts of a whole number, neither
against the sign of the other, are rounded to parts of it exactly when they
are no midpoints (`roundAway_add_eq_iff`).
-/
import Mathlib.Data.Rat.Floor

namespace OpenStandards.Lib

/-- The nearest integer, midpoints away from zero. -/
def roundAway (q : ℚ) : ℤ :=
  if 0 ≤ q then ⌊q + 1 / 2⌋ else ⌈q - 1 / 2⌉

/-- The errors that rounding `q` away from zero makes. -/
def IsError (q error : ℚ) : Prop :=
  (-(1 / 2) < error ∧ error < 1 / 2) ∨ (error = 1 / 2 ∧ q < 0) ∨ (error = -(1 / 2) ∧ 0 < q)

instance (q error : ℚ) : Decidable (IsError q error) :=
  inferInstanceAs (Decidable (_ ∨ _))

/-- Halfway between two integers. -/
def IsMidpoint (q : ℚ) : Prop := Int.fract q = 1 / 2

instance : DecidablePred IsMidpoint := fun q =>
  inferInstanceAs (Decidable (Int.fract q = 1 / 2))

/-- No integer is a half. -/
theorem two_mul_intCast_ne_one (n : ℤ) : 2 * (n : ℚ) ≠ 1 := by
  intro h
  have h2 : 2 * n = 1 := by exact_mod_cast h
  omega

theorem roundAway_eq_iff {q : ℚ} {n : ℤ} : roundAway q = n ↔ IsError q (q - n) := by
  unfold roundAway IsError
  by_cases hq : 0 ≤ q
  · rw [if_pos hq, Int.floor_eq_iff]
    constructor
    · intro h
      rcases lt_or_eq_of_le (show -(1 / 2) ≤ q - n by linarith) with hlt | heq
      · exact Or.inl ⟨hlt, by linarith⟩
      · refine Or.inr (Or.inr ⟨heq.symm, ?_⟩)
        rcases lt_or_eq_of_le hq with hpos | hzero
        · exact hpos
        · exact absurd (by linarith) (two_mul_intCast_ne_one n)
    · intro h
      rcases h with h | h | h
      · exact ⟨by linarith, by linarith⟩
      · exact absurd h.2 (not_lt.2 hq)
      · exact ⟨by linarith, by linarith⟩
  · rw [if_neg hq, Int.ceil_eq_iff]
    have hneg := not_le.1 hq
    constructor
    · intro h
      rcases lt_or_eq_of_le (show q - n ≤ 1 / 2 by linarith) with hlt | heq
      · exact Or.inl ⟨by linarith, hlt⟩
      · exact Or.inr (Or.inl ⟨heq, hneg⟩)
    · intro h
      rcases h with h | h | h
      · exact ⟨by linarith, by linarith⟩
      · exact ⟨by linarith, by linarith⟩
      · exact absurd h.2 (not_lt.2 hneg.le)

theorem isError_roundAway (q : ℚ) : IsError q (q - roundAway q) :=
  roundAway_eq_iff.1 rfl

/-- Whole numbers stay. -/
@[simp]
theorem roundAway_intCast (n : ℤ) : roundAway n = n := by
  rw [roundAway_eq_iff, sub_self]
  exact Or.inl ⟨by norm_num, by norm_num⟩

theorem isMidpoint_iff {q : ℚ} :
    IsMidpoint q ↔ q - roundAway q = 1 / 2 ∨ q - roundAway q = -(1 / 2) := by
  unfold IsMidpoint
  rw [Int.fract_eq_iff]
  constructor
  · rintro ⟨-, -, n, hn⟩
    rcases isError_roundAway q with h | h | h
    · -- a midpoint is no nearer to any integer
      exfalso
      have hlo : ((n - roundAway q : ℤ) : ℚ) < ((0 : ℤ) : ℚ) := by
        push_cast
        linarith
      have hhi : ((-1 : ℤ) : ℚ) < ((n - roundAway q : ℤ) : ℚ) := by
        push_cast
        linarith
      rw [Int.cast_lt] at hlo hhi
      omega
    · exact Or.inl h.1
    · exact Or.inr h.1
  · intro h
    refine ⟨by norm_num, by norm_num, ?_⟩
    rcases h with h | h
    · exact ⟨roundAway q, by linarith⟩
    · refine ⟨roundAway q - 1, ?_⟩
      push_cast
      linarith

theorem roundAway_sum_iff (ts : List ℚ) :
    roundAway ts.sum = (ts.map roundAway).sum
      ↔ IsError ts.sum (ts.map fun t => t - roundAway t).sum := by
  have hsum : (ts.map fun t => t - roundAway t).sum
      = ts.sum - ((ts.map roundAway).sum : ℤ) := by
    induction ts with
    | nil => simp
    | cons t ts ih =>
      rw [List.map_cons, List.sum_cons, ih, List.map_cons, List.sum_cons, List.sum_cons]
      push_cast
      ring
  rw [hsum]
  exact roundAway_eq_iff

/-- A sum of terms, each a little off, is off by so much for each term. -/
theorem abs_sum_sub_le {α : Type} {rounded : α → ℤ} {exact : α → ℚ}
    {ε : ℚ} {ts : List α} (h : ∀ t ∈ ts, |(rounded t : ℚ) - exact t| ≤ ε) :
    |((ts.map rounded).sum : ℚ) - (ts.map exact).sum| ≤ ts.length * ε := by
  induction ts with
  | nil => simp
  | cons t ts ih =>
    have hhead := h t List.mem_cons_self
    have htail := ih fun t' ht' => h t' (List.mem_cons_of_mem t ht')
    have hadd := abs_add_le ((rounded t : ℚ) - exact t)
      (((ts.map rounded).sum : ℚ) - (ts.map exact).sum)
    have hsplit : (((t :: ts).map rounded).sum : ℚ) - ((t :: ts).map exact).sum
        = ((rounded t : ℚ) - exact t) + (((ts.map rounded).sum : ℚ) - (ts.map exact).sum) := by
      rw [List.map_cons, List.sum_cons, List.map_cons, List.sum_cons]
      push_cast
      ring
    have hcount : ((t :: ts).length : ℚ) * ε = ε + ts.length * ε := by
      rw [List.length_cons]
      push_cast
      ring
    rw [hsplit, hcount]
    exact hadd.trans (add_le_add hhead htail)

/-- Two parts of a whole number, neither against the other's sign. -/
theorem roundAway_add_eq_iff {x y : ℚ} {a : ℤ} (h : x + y = a)
    (hsign : 0 ≤ x ∧ 0 ≤ y ∨ x ≤ 0 ∧ y ≤ 0) :
    roundAway x + roundAway y = a ↔ ¬ IsMidpoint x := by
  have hy : roundAway x + roundAway y = a ↔ roundAway y = a - roundAway x := by
    omega
  have hpart : y - ((a - roundAway x : ℤ) : ℚ) = -(x - roundAway x) := by
    push_cast
    linarith
  rw [hy, roundAway_eq_iff, hpart, isMidpoint_iff]
  unfold IsError
  rcases isError_roundAway x with hx | hx | hx
  · refine iff_of_true (Or.inl ⟨by linarith, by linarith⟩) ?_
    intro h'
    rcases h' with h' | h' <;> linarith
  · refine iff_of_false ?_ (not_not.2 (Or.inl hx.1))
    intro h'
    rcases hsign with hs | hs <;> rcases h' with h' | h' | h' <;> linarith
  · refine iff_of_false ?_ (not_not.2 (Or.inr hx.1))
    intro h'
    rcases hsign with hs | hs <;> rcases h' with h' | h' | h' <;> linarith

end OpenStandards.Lib

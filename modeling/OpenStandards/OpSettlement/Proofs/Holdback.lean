/-
The arithmetic of a holdback.

The product of the gross and the rate is exact in 128 bits, and is refused
where it does not come back into 64. What remains are two magnitudes, of
the scaled amount and of the gross. But for the least 64-bit value the
reserve is the smaller magnitude (`compute_spec`), so that the subtraction
of the net is exact too where the gross is not negative.
-/
import OpenStandards.OpSettlement.Engine
import Mathlib.Algebra.Order.Ring.Int

namespace OpenStandards.OpSettlement

open Lib OpCore

namespace HoldbackPolicy

-- ==== statement vocabulary

/-- The basis points withheld: the two rates, up to the ceiling. -/
def rate (p : HoldbackPolicy) (adj : UInt16) : Nat :=
  min (p.flatRateBps.toNat + adj.toNat) p.maxTotalBps.toNat

def scaled (p : HoldbackPolicy) (gross : Money) (adj : UInt16) : Int :=
  (gross.minorUnits.val * p.rate adj).tdiv 10000

/-- No magnitude is taken of the least 64-bit value. -/
def HasMagnitudes (p : HoldbackPolicy) (gross : Money) (adj : UInt16) : Prop :=
  gross.minorUnits.val ≠ -9223372036854775808 ∧ p.scaled gross adj ≠ -9223372036854775808

instance (p : HoldbackPolicy) (gross : Money) (adj : UInt16) :
    Decidable (p.HasMagnitudes gross adj) :=
  inferInstanceAs (Decidable (_ ∧ _))

variable {p : HoldbackPolicy} {gross : Money} {adj : UInt16}

-- ==== the result

theorem compute_overflow (h : ¬ InI64 (p.scaled gross adj)) :
    p.compute gross adj = .error (.core .overflow)
      ∧ p.computeChecked gross adj = some (.error (.core .overflow)) := by
  have hnone := I64.ofInt?_eq_none.2 h
  unfold scaled rate at hnone
  unfold compute computeChecked
  dsimp only
  rw [hnone]
  exact ⟨rfl, rfl⟩

/-- In range and with magnitudes, the reserve is the smaller one, with
overflow checks or without. -/
theorem compute_spec (h : InI64 (p.scaled gross adj)) (hmag : p.HasMagnitudes gross adj) :
    ∃ hb, p.compute gross adj = .ok hb
      ∧ p.computeChecked gross adj = some (.ok hb)
      ∧ hb.gross = gross
      ∧ hb.reserve.currency = gross.currency
      ∧ hb.reserve.minorUnits.val
        = min ((p.scaled gross adj).natAbs : Int) (gross.minorUnits.val.natAbs : Int) := by
  have hsome : I64.ofInt? (p.scaled gross adj) = some ⟨_, h⟩ :=
    I64.ofInt?_eq_some.2 rfl
  generalize hm : (⟨p.scaled gross adj, h⟩ : I64) = scaledMinor at hsome
  have hval : scaledMinor.val = p.scaled gross adj := by rw [← hm]
  have hgross : gross.minorUnits ≠ I64.minValue := fun heq =>
    hmag.1 (congrArg I64.val heq)
  have hscaled : scaledMinor ≠ I64.minValue := fun heq =>
    hmag.2 (hval.symm.trans (congrArg I64.val heq))
  have hbound := I64.val_abs hgross
  have hmagnitude := I64.val_abs hscaled
  unfold scaled rate at hsome
  unfold compute computeChecked
  dsimp only [Money.fromMinor]
  rw [hsome]
  dsimp only
  rw [I64.checkedAbs_of_ne hscaled, I64.checkedAbs_of_ne hgross]
  refine ⟨_, rfl, ?_, rfl, ?_, ?_⟩
  · dsimp only [Option.bind_eq_bind, Option.bind_some]
    split <;> rfl
  · split <;> rfl
  · rw [← hval, ← hmagnitude, ← hbound]
    split
    case isTrue hlt => exact (min_eq_right hlt.le).symm
    case isFalse hlt => exact (min_eq_left (not_lt.1 hlt)).symm

variable {hb : Holdback}

theorem net_cases (hcur : hb.reserve.currency = hb.gross.currency) :
    (hb.net = .error (.core .overflow)
        ∧ ¬ InI64 (hb.gross.minorUnits.val - hb.reserve.minorUnits.val))
      ∨ ∃ m, hb.net = .ok m ∧ m.currency = hb.gross.currency
        ∧ m.minorUnits.val = hb.gross.minorUnits.val - hb.reserve.minorUnits.val := by
  unfold Holdback.net Money.checkedSub
  rw [if_neg (not_not.2 hcur.symm)]
  cases hsub : hb.gross.minorUnits.checkedSub hb.reserve.minorUnits with
  | none => exact Or.inl ⟨rfl, I64.ofInt?_eq_none.1 hsub⟩
  | some minor => exact Or.inr ⟨_, rfl, rfl, I64.checkedSub_eq_some.1 hsub⟩

-- ==== amounts that are not negative

/-- Of an amount that is not negative, the scaled one is the floor. -/
theorem scaled_of_nonneg (h : 0 ≤ gross.minorUnits.val) :
    p.scaled gross adj = gross.minorUnits.val * p.rate adj / 10000 := by
  unfold scaled
  exact Int.tdiv_eq_ediv_of_nonneg (mul_nonneg h (Int.natCast_nonneg _))

theorem scaled_nonneg (h : 0 ≤ gross.minorUnits.val) : 0 ≤ p.scaled gross adj := by
  rw [scaled_of_nonneg h]
  exact Int.ediv_nonneg (mul_nonneg h (Int.natCast_nonneg _)) (by decide)

theorem hasMagnitudes_of_nonneg (h : 0 ≤ gross.minorUnits.val) : p.HasMagnitudes gross adj := by
  have hs : 0 ≤ p.scaled gross adj := scaled_nonneg h
  exact ⟨by omega, by omega⟩

theorem inI64_scaled_iff (h : 0 ≤ gross.minorUnits.val) :
    InI64 (p.scaled gross adj)
      ↔ gross.minorUnits.val * p.rate adj / 10000 ≤ 9223372036854775807 := by
  have hs : 0 ≤ p.scaled gross adj := scaled_nonneg h
  rw [← scaled_of_nonneg h]
  unfold InI64
  omega

theorem reserve_of_nonneg (h : 0 ≤ gross.minorUnits.val) (hok : p.compute gross adj = .ok hb) :
    hb.gross = gross
      ∧ hb.reserve.currency = gross.currency
      ∧ hb.reserve.minorUnits.val
        = min (gross.minorUnits.val * p.rate adj / 10000) gross.minorUnits.val := by
  by_cases hin : InI64 (p.scaled gross adj)
  · obtain ⟨hb', hok', -, hgross, hcur, hval⟩ :=
      compute_spec hin (hasMagnitudes_of_nonneg h)
    obtain rfl : hb = hb' := by
      rw [hok] at hok'
      exact Except.ok.inj hok'
    refine ⟨hgross, hcur, ?_⟩
    rw [hval, Int.natAbs_of_nonneg (scaled_nonneg h),
      Int.natAbs_of_nonneg h, scaled_of_nonneg h]
  · rw [(compute_overflow hin).1] at hok
    cases hok

theorem rate_mono {adj' : UInt16} (h : adj ≤ adj') : p.rate adj ≤ p.rate adj' := by
  have hle := UInt16.le_iff_toNat_le.1 h
  unfold rate
  omega

/-- The computation succeeds where the rounded product fits. -/
theorem compute_ok_iff (h : 0 ≤ gross.minorUnits.val) :
    (∃ hb, p.compute gross adj = .ok hb)
      ↔ gross.minorUnits.val * p.rate adj / 10000 ≤ 9223372036854775807 := by
  rw [← inI64_scaled_iff h]
  constructor
  · intro ⟨hb, hok⟩
    by_contra hin
    rw [(compute_overflow hin).1] at hok
    cases hok
  · intro hin
    obtain ⟨hb, hok, -⟩ := compute_spec hin (hasMagnitudes_of_nonneg h)
    exact ⟨hb, hok⟩

theorem net_of_nonneg (h : 0 ≤ gross.minorUnits.val) (hok : p.compute gross adj = .ok hb) :
    0 ≤ hb.reserve.minorUnits.val
      ∧ hb.reserve.minorUnits.val ≤ gross.minorUnits.val
      ∧ ∃ m, hb.net = .ok m
        ∧ m.minorUnits.val + hb.reserve.minorUnits.val = gross.minorUnits.val := by
  obtain ⟨hgross, hcur, hval⟩ := reserve_of_nonneg h hok
  have hprod : 0 ≤ gross.minorUnits.val * p.rate adj / 10000 := by
    rw [← scaled_of_nonneg h]
    exact scaled_nonneg h
  have hge : 0 ≤ hb.reserve.minorUnits.val := by
    rw [hval]
    exact le_min hprod h
  have hle : hb.reserve.minorUnits.val ≤ gross.minorUnits.val := by
    rw [hval]
    exact min_le_right _ _
  refine ⟨hge, hle, ?_⟩
  have hrange := gross.minorUnits.inRange
  unfold InI64 at hrange
  rcases net_cases (by rw [hcur, hgross]) with ⟨-, hno⟩ | ⟨m, hnet, -, hm⟩
  · rw [hgross] at hno
    exact absurd (by unfold InI64; omega) hno
  · rw [hgross] at hm
    exact ⟨m, hnet, by omega⟩

/-- A larger adjustment reserves no less. -/
theorem reserve_mono (h : 0 ≤ gross.minorUnits.val) {adj' : UInt16}
    (hadj : adj ≤ adj') {hb' : Holdback} (hok : p.compute gross adj = .ok hb)
    (hok' : p.compute gross adj' = .ok hb') :
    hb.reserve.minorUnits.val ≤ hb'.reserve.minorUnits.val := by
  obtain ⟨-, -, hval⟩ := reserve_of_nonneg h hok
  obtain ⟨-, -, hval'⟩ := reserve_of_nonneg h hok'
  have hrate : (p.rate adj : Int) ≤ p.rate adj' :=
    Int.ofNat_le.2 (rate_mono hadj)
  have hprod : gross.minorUnits.val * p.rate adj / 10000
      ≤ gross.minorUnits.val * p.rate adj' / 10000 :=
    Int.ediv_le_ediv (by decide) (mul_le_mul_of_nonneg_left hrate h)
  rw [hval, hval']
  exact min_le_min_right _ hprod

theorem exact_of_hasMagnitudes (hmag : p.HasMagnitudes gross adj) :
    p.computeChecked gross adj = some (p.compute gross adj)
      ∧ (p.compute gross adj = .error (.core .overflow) ∧ ¬ InI64 (p.scaled gross adj)
        ∨ ∃ hb, p.compute gross adj = .ok hb
          ∧ hb.gross = gross
          ∧ hb.reserve.minorUnits.val
            = min ((p.scaled gross adj).natAbs : Int) (gross.minorUnits.val.natAbs : Int)
          ∧ (hb.net = .error (.core .overflow)
            ∨ ∃ m, hb.net = .ok m
              ∧ m.minorUnits.val = gross.minorUnits.val - hb.reserve.minorUnits.val)) := by
  by_cases hin : InI64 (p.scaled gross adj)
  · obtain ⟨hb, hok, hchecked, hgross, hcur, hval⟩ := compute_spec hin hmag
    refine ⟨by rw [hchecked, hok], Or.inr ⟨hb, hok, hgross, hval, ?_⟩⟩
    rcases net_cases (by rw [hcur, hgross]) with ⟨hnet, -⟩ | ⟨m, hnet, -, hm⟩
    · exact Or.inl hnet
    · rw [hgross] at hm
      exact Or.inr ⟨m, hnet, hm⟩
  · obtain ⟨herr, hchecked⟩ := compute_overflow hin
    exact ⟨by rw [hchecked, herr], Or.inl ⟨herr, hin⟩⟩

/-- **What a holdback comes to.** Where no magnitude is taken of the least
64-bit value, the computation does not panic and its answer is the
overflow of the scaled amount or the exact reserve, and the net is an
overflow or the exact difference. Of an amount that is not negative the
computation succeeds exactly where the rounded product fits into 64 bits;
then the reserve is the product or the gross, whichever is less, the net
is what remains of the gross, and a larger adjustment reserves no less. -/
theorem compute_exact (p : HoldbackPolicy) (gross : Money) (adj : UInt16) :
    (p.HasMagnitudes gross adj →
      p.computeChecked gross adj = some (p.compute gross adj)
      ∧ (p.compute gross adj = .error (.core .overflow) ∧ ¬ InI64 (p.scaled gross adj)
        ∨ ∃ hb, p.compute gross adj = .ok hb
          ∧ hb.gross = gross
          ∧ hb.reserve.minorUnits.val
            = min ((p.scaled gross adj).natAbs : Int) (gross.minorUnits.val.natAbs : Int)
          ∧ (hb.net = .error (.core .overflow)
            ∨ ∃ m, hb.net = .ok m
              ∧ m.minorUnits.val = gross.minorUnits.val - hb.reserve.minorUnits.val)))
    ∧ (0 ≤ gross.minorUnits.val →
      p.HasMagnitudes gross adj
      ∧ ((∃ hb, p.compute gross adj = .ok hb)
        ↔ gross.minorUnits.val * p.rate adj / 10000 ≤ 9223372036854775807)
      ∧ (∀ hb, p.compute gross adj = .ok hb →
        hb.reserve.minorUnits.val
            = min (gross.minorUnits.val * p.rate adj / 10000) gross.minorUnits.val
          ∧ 0 ≤ hb.reserve.minorUnits.val
          ∧ hb.reserve.minorUnits.val ≤ gross.minorUnits.val
          ∧ ∃ m, hb.net = .ok m
            ∧ m.minorUnits.val + hb.reserve.minorUnits.val = gross.minorUnits.val)
      ∧ ∀ adj' hb hb', adj ≤ adj' →
        p.compute gross adj = .ok hb → p.compute gross adj' = .ok hb' →
        hb.reserve.minorUnits.val ≤ hb'.reserve.minorUnits.val) := by
  refine ⟨exact_of_hasMagnitudes, fun hnonneg =>
    ⟨hasMagnitudes_of_nonneg hnonneg, compute_ok_iff hnonneg, ?_, ?_⟩⟩
  · intro hb hok
    obtain ⟨-, -, hval⟩ := reserve_of_nonneg hnonneg hok
    exact ⟨hval, net_of_nonneg hnonneg hok⟩
  · intro adj' hb hb' hadj hok hok'
    exact reserve_mono hnonneg hadj hok hok'

end HoldbackPolicy

/-- At a rate of 655.35% the scaled amount does not fit, though the
reserve would be the gross. -/
theorem largest_gross_overflows :
    HoldbackPolicy.compute { flatRateBps := 65535, maxTotalBps := 65535 }
        (Money.fromMinor I64.maxValue .USD) 0
      = .error (.core .overflow) := by
  decide +kernel

/-- The arithmetic of 20% on ten dollars. -/
theorem ten_dollars_exact :
    HoldbackPolicy.HasMagnitudes { flatRateBps := 100, maxTotalBps := 2000 }
        (Money.fromMinor ⟨1000, by decide⟩ .USD) 9000
      ∧ HoldbackPolicy.computeChecked
          { flatRateBps := 100, maxTotalBps := 2000 }
          (Money.fromMinor ⟨1000, by decide⟩ .USD) 9000
        = some (HoldbackPolicy.compute
          { flatRateBps := 100, maxTotalBps := 2000 }
          (Money.fromMinor ⟨1000, by decide⟩ .USD) 9000) :=
  ⟨by decide +kernel, ((HoldbackPolicy.compute_exact _ _ _).1 (by decide +kernel)).1⟩

end OpenStandards.OpSettlement

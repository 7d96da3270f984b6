/-
The amounts of a payment over its transitions.

The typestate lets a payment be captured once and refunded once, so what
is captured and what is refunded are the amounts those two transitions
were asked for (`Traced`). The guards bound them from above: a capture by
the amount, a refund by what is captured. Nothing bounds them from below,
and a negative capture leaves less captured than is refunded.
-/
import OpenStandards.Lib.Fallible
import OpenStandards.OpCore.Payment

namespace OpenStandards.OpCore

open Lib
open OpLedger (Uuid)

-- ==== one transition

/-- What a capture does: it adds up and stays within the amount. -/
theorem Payment.capture_ok {p : Payment .authorized} {m : Money}
    {p' : Payment .captured} (h : p.capture m = .ok p') :
    p'.amount = p.amount ∧ p'.refunded = p.refunded
      ∧ p'.captured.minorUnits.val = p.captured.minorUnits.val + m.minorUnits.val
      ∧ p'.captured.currency = p.captured.currency
      ∧ p'.captured.minorUnits.val ≤ p.amount.minorUnits.val := by
  obtain ⟨newCaptured, hadd, h⟩ := bind_eq_ok.1 h
  obtain ⟨hcur, hsum⟩ := Money.checkedAdd_eq_ok hadd
  split at h
  · cases h
  · rename_i hle
    cases h
    exact ⟨rfl, rfl, hsum, hcur, Int.not_lt.1 hle⟩

/-- What a refund does: it adds up and stays within what is captured. -/
theorem Payment.refund_ok {p : Payment .captured} {m : Money}
    {p' : Payment .refunded} (h : p.refund m = .ok p') :
    p'.amount = p.amount ∧ p'.captured = p.captured
      ∧ p'.refunded.minorUnits.val = p.refunded.minorUnits.val + m.minorUnits.val
      ∧ p'.refunded.currency = p.refunded.currency
      ∧ p'.refunded.minorUnits.val ≤ p.captured.minorUnits.val := by
  obtain ⟨newRefunded, hadd, h⟩ := bind_eq_ok.1 h
  obtain ⟨hcur, hsum⟩ := Money.checkedAdd_eq_ok hadd
  split at h
  · cases h
  · rename_i hle
    cases h
    exact ⟨rfl, rfl, hsum, hcur, Int.not_lt.1 hle⟩

-- ==== whole runs

def Transition.asks : Transition → Option Money
  | .capture amount => some amount
  | .refund amount => some amount
  | _ => none

def asked (ts : List Transition) : List Money := ts.filterMap Transition.asks

theorem asked_snoc (ts : List Transition) (t : Transition) :
    asked (ts ++ [t]) = asked ts ++ t.asks.toList := by
  unfold asked
  rw [List.filterMap_append]
  cases h : t.asks with
  | none => simp [h]
  | some m => simp [h]

/-- What is captured and refunded after some transitions of a payment:
the amounts asked for, each within its bound. -/
structure Traced (amount : Money) (ts : List Transition) (q : AnyPayment) : Prop where
  amount_eq : q.2.amount = amount
  captured_cur : q.2.captured.currency = amount.currency
  refunded_cur : q.2.refunded.currency = amount.currency
  booked : match q.1 with
    | .captured => ∃ c, asked ts = [c]
        ∧ q.2.captured.minorUnits.val = c.minorUnits.val
        ∧ q.2.refunded.minorUnits.val = 0
        ∧ c.minorUnits.val ≤ amount.minorUnits.val
    | .refunded => ∃ c r, asked ts = [c, r]
        ∧ q.2.captured.minorUnits.val = c.minorUnits.val
        ∧ q.2.refunded.minorUnits.val = r.minorUnits.val
        ∧ c.minorUnits.val ≤ amount.minorUnits.val
        ∧ r.minorUnits.val ≤ c.minorUnits.val
    | _ => asked ts = [] ∧ q.2.captured.minorUnits.val = 0
        ∧ q.2.refunded.minorUnits.val = 0

theorem traced_new (id : Uuid) (amount : Money) (method : PaymentMethod) (rail : RailKind) :
    Traced amount [] ⟨_, Payment.new id amount method rail⟩ where
  amount_eq := rfl
  captured_cur := rfl
  refunded_cur := rfl
  booked := ⟨rfl, rfl, rfl⟩

variable {amount : Money} {ts : List Transition} {q : AnyPayment}

theorem Traced.step {r : AnyPayment} {t : Transition} (h : Traced amount ts q)
    (hstep : Step q t r) : Traced amount (ts ++ [t]) r := by
  obtain ⟨hamount, hcap, href, hbooked⟩ := h
  cases hstep with
  | authorize p railRef =>
    refine ⟨hamount, hcap, href, ?_, hbooked.2⟩
    rw [asked_snoc, hbooked.1]
    rfl
  | fail p reason =>
    refine ⟨hamount, hcap, href, ?_, hbooked.2⟩
    rw [asked_snoc, hbooked.1]
    rfl
  | void p =>
    refine ⟨hamount, hcap, href, ?_, hbooked.2⟩
    rw [asked_snoc, hbooked.1]
    rfl
  | capture p m p' hok =>
    obtain ⟨ham, hrf, hsum, hcur, hle⟩ := Payment.capture_ok hok
    obtain ⟨hnone, hzero, hzero'⟩ := hbooked
    dsimp only at hamount hcap href hzero hzero'
    refine ⟨ham.trans hamount, hcur.trans hcap, ?_, m, ?_, ?_, ?_, ?_⟩
    · dsimp only
      rw [hrf, href]
    · rw [asked_snoc, hnone]
      rfl
    · dsimp only
      omega
    · dsimp only
      rw [hrf, hzero']
    · rw [← hamount]
      omega
  | refund p m p' hok =>
    obtain ⟨ham, hcp, hsum, hcur, hle⟩ := Payment.refund_ok hok
    obtain ⟨c, hc, hcapc, hzero, hcle⟩ := hbooked
    dsimp only at hamount hcap href hcapc hzero
    refine ⟨ham.trans hamount, ?_, hcur.trans href, c, m, ?_, ?_, ?_, hcle, ?_⟩
    · dsimp only
      rw [hcp, hcap]
    · rw [asked_snoc, hc]
      rfl
    · dsimp only
      rw [hcp, hcapc]
    · dsimp only
      omega
    · omega

theorem traced_run {start : AnyPayment} (hstart : Traced amount [] start)
    (hrun : Transitions start ts q) : Traced amount ts q := by
  induction hrun with
  | nil => exact hstart
  | snoc hrun hstep ih => exact ih.step hstep

-- ==== results

/-- Refunded, captured and requested amounts are in order and in one
currency. -/
structure Ordered (q : AnyPayment) : Prop where
  refunded_nonneg : 0 ≤ q.2.refunded.minorUnits.val
  refunded_le : q.2.refunded.minorUnits.val ≤ q.2.captured.minorUnits.val
  captured_le : q.2.captured.minorUnits.val ≤ q.2.amount.minorUnits.val
  refunded_cur : q.2.refunded.currency = q.2.amount.currency
  captured_cur : q.2.captured.currency = q.2.amount.currency

theorem Traced.ordered_iff (h : Traced amount ts q) (hpos : 0 < amount.minorUnits.val) :
    Ordered q ↔ ∀ m ∈ asked ts, 0 ≤ m.minorUnits.val := by
  obtain ⟨hamount, hcap, href, hbooked⟩ := h
  have hcurs := And.intro (href.trans (congrArg _ hamount.symm))
    (hcap.trans (congrArg _ hamount.symm))
  obtain ⟨state, p⟩ := q
  simp only at hamount hbooked hcurs
  cases state with
  | captured =>
    obtain ⟨c, hc, hcapc, hzero, hle⟩ := hbooked
    rw [hc]
    constructor
    · intro hord
      have := hord.refunded_le
      simp only at this
      simp
      omega
    · intro hnn
      have hcnn := hnn c (List.mem_singleton.2 rfl)
      refine ⟨?_, ?_, ?_, hcurs.1, hcurs.2⟩
      all_goals
        simp only [hamount]
        omega
  | refunded =>
    obtain ⟨c, r, hcr, hcapc, hrefr, hle, hler⟩ := hbooked
    rw [hcr]
    constructor
    · intro hord
      have := hord.refunded_nonneg
      simp only at this
      simp
      omega
    · intro hnn
      have hrnn := hnn r (by simp)
      refine ⟨?_, ?_, ?_, hcurs.1, hcurs.2⟩
      all_goals
        simp only [hamount]
        omega
  | _ =>
    obtain ⟨hnone, hzero, hzero'⟩ := hbooked
    rw [hnone]
    refine iff_of_true ⟨?_, ?_, ?_, hcurs.1, hcurs.2⟩ (by simp)
    all_goals
      simp only [hamount]
      omega

/-- **When the amounts stay in order.** For every payment created with a
positive amount and every sequence of transitions that succeed, in the
state reached 0 ≤ refunded ≤ captured ≤ amount, all in the payment's
currency, if and only if no capture or refund on the way was asked for a
negative amount. -/
theorem amounts_ordered_iff (id : Uuid) (amount : Money)
    (method : PaymentMethod) (rail : RailKind)
    (hpos : 0 < amount.minorUnits.val) (ts : List Transition) (q : AnyPayment)
    (hrun : Transitions ⟨_, Payment.new id amount method rail⟩ ts q) :
    Ordered q ↔ ∀ m ∈ asked ts, 0 ≤ m.minorUnits.val :=
  (traced_run (traced_new id amount method rail) hrun).ordered_iff hpos

def tenDollars : Payment .created :=
  Payment.new ⟨1⟩ (Money.fromMinor ⟨1000, by decide⟩ .USD) (.vault ⟨"tok_test"⟩) .card

def tenDollarsCaptured (captured : I64) : Payment .captured :=
  { tenDollars with railRef := some "auth_123"
                    captured := Money.fromMinor captured .USD }

theorem transitions_captured {captured : I64}
    (hok : (tenDollars.authorize "auth_123").capture
      (Money.fromMinor captured .USD) = .ok (tenDollarsCaptured captured)) :
    Transitions ⟨_, tenDollars⟩
      [.authorize "auth_123", .capture (Money.fromMinor captured .USD)]
      ⟨_, tenDollarsCaptured captured⟩ :=
  .snoc (.snoc (.nil _) (.authorize _ _)) (.capture _ _ _ hok)

/-- A capture of four dollars leaves the amounts in order. -/
theorem amounts_ordered_partial_capture : Ordered ⟨_, tenDollarsCaptured ⟨400, by decide⟩⟩ := by
  refine (amounts_ordered_iff _ _ _ _ (by decide) _ _ (transitions_captured rfl)).2 ?_
  intro m hm
  rw [List.mem_singleton.1 hm]
  decide

/-- A capture of minus five dollars succeeds, and leaves less captured
than is refunded. -/
theorem negative_capture_disorders :
    Transitions ⟨_, tenDollars⟩
        [.authorize "auth_123", .capture (Money.fromMinor ⟨-500, by decide⟩ .USD)]
        ⟨_, tenDollarsCaptured ⟨-500, by decide⟩⟩
      ∧ ¬ Ordered ⟨_, tenDollarsCaptured ⟨-500, by decide⟩⟩ := by
  refine ⟨transitions_captured rfl, fun hord => ?_⟩
  exact absurd hord.refunded_le (by decide)

end OpenStandards.OpCore

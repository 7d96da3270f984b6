/-
Which ladders are kept.

Every delay is counted from the first failure, not from the last, so a
rung is waited for only if the rungs before it took less time. A policy
keeps its ladder in every run exactly where every delay after the first
is zero (and no time overflows, and the counter can reach the end): any
other ladder is broken by a run that polls late (`keepsLadder_iff`).
-/
import OpenStandards.OpSubscriptions.Subscription

namespace OpenStandards.OpSubscriptions

open Subscription

namespace DunningPolicy

/-- The times do not decrease, from `t` on. -/
def Ordered : UInt64 → List Poll → Prop
  | _, [] => True
  | t, p :: polls => t ≤ p.now ∧ p.now ≤ p.failedAt ∧ Ordered p.failedAt polls

/-- What a ladder promises, from the point where `retries` retries have
happened and the last failure was at `last`: no time overflows, the policy
gives up exactly when the schedule is used up, and a retry comes at least
its delay after the failure before it. -/
def KeepsLadder (policy : DunningPolicy) : Nat → UInt64 → List Polled → Prop
  | _, _, [] => True
  | retries, last, e :: trace =>
    ¬ policy.Overflows e.retryCount e.firstFailedAt
      ∧ (e.outcome = .cancel ↔ retries = policy.scheduleDays.length)
      ∧ match e.outcome with
        | .retryNow =>
          (∃ days, policy.scheduleDays[retries]? = some days
            ∧ last.toNat + days.toNat * 86400 ≤ e.poll.now.toNat)
          ∧ KeepsLadder policy (retries + 1) e.poll.failedAt trace
        | _ => KeepsLadder policy retries last trace

/-- The ladder has one rung that counts: the delays after the first are
zero, the counter can reach the end of the schedule, and no time
overflows. -/
structure SingleRung (policy : DunningPolicy) (t0 : UInt64) : Prop where
  length_lt : policy.scheduleDays.length < 2 ^ 32
  later_zero : ∀ k : Nat, 1 ≤ k → ∀ days, policy.scheduleDays[k]? = some days → days = 0
  fits : ∀ (k : Nat) (days : UInt32), policy.scheduleDays[k]? = some days →
    t0.toNat + days.toNat * 86400 < 2 ^ 64

-- ==== one decision

/-- Without overflow the decision compares exact times. -/
theorem decide_eq {policy : DunningPolicy} {retryCount days : UInt32}
    {failedAt : UInt64} (hdays : policy.scheduleDays[retryCount.toNat]? = some days)
    (hfits : failedAt.toNat + days.toNat * 86400 < 2 ^ 64) (now : UInt64) :
    (policy.decide retryCount failedAt now = .retryNow
        ∧ failedAt.toNat + days.toNat * 86400 ≤ now.toNat)
      ∨ ((∃ t, policy.decide retryCount failedAt now = .wait t)
        ∧ now.toNat < failedAt.toNat + days.toNat * 86400) := by
  have hdelay : (failedAt + days.toUInt64 * 86400).toNat
      = failedAt.toNat + days.toNat * 86400 := by
    have hlt := days.toNat_lt
    rw [UInt64.toNat_add, UInt64.toNat_mul, UInt32.toNat_toUInt64]
    show (failedAt.toNat + days.toNat * 86400 % 2 ^ 64) % 2 ^ 64 = _
    omega
  unfold decide
  simp only [hdays, UInt64.le_iff_toNat_le, hdelay]
  by_cases hle : failedAt.toNat + days.toNat * 86400 ≤ now.toNat
  · rw [if_pos hle]
    exact .inl ⟨rfl, hle⟩
  · rw [if_neg hle]
    exact .inr ⟨⟨_, rfl⟩, not_le.1 hle⟩

theorem decide_cancel {policy : DunningPolicy} {retryCount : UInt32}
    (h : policy.scheduleDays[retryCount.toNat]? = none)
    (failedAt now : UInt64) :
    policy.decide retryCount failedAt now = .cancel := by
  unfold decide
  simp only [h]

theorem toNat_nextCount (count : UInt32) :
    (nextCount count).toNat = min (count.toNat + 1) 4294967295 := by
  have hlt := count.toNat_lt
  unfold nextCount
  split
  case isTrue h => omega
  case isFalse h =>
    rw [UInt32.toNat_add]
    show (count.toNat + 1) % 2 ^ 32 = _
    omega

/-- A failed attempt counts one retry. -/
theorem status_recordBillingFailure {sub : Subscription} {t0 : UInt64}
    {count : UInt32} (h : sub.status = .pastDue t0 count) (t : UInt64) :
    (sub.recordBillingFailure t).2.status = .pastDue t0 (nextCount count) := by
  unfold recordBillingFailure
  simp only [h]

section
variable {policy : DunningPolicy} {t0 : UInt64}

variable {sub : Subscription}

theorem polled_cons {count : UInt32} (h : sub.status = .pastDue t0 count)
    (p : Poll) (polls : List Poll) :
    policy.polled sub (p :: polls)
      = ⟨p, count, t0, policy.decide count t0 p.now⟩ :: policy.polled
          (afterPoll sub p (policy.decide count t0 p.now)) polls := by
  conv_lhs => unfold polled
  simp only [h]

-- ==== the ladder is kept

theorem keepsLadder_of_singleRung (hpolicy : policy.SingleRung t0)
    {polls : List Poll} {t : UInt64} (count : UInt32) (last : UInt64)
    (hstatus : sub.status = .pastDue t0 count) (hcount : count.toNat ≤ policy.scheduleDays.length)
    (hfirst : count.toNat = 0 → last = t0) (hlast : last ≤ t) (hordered : Ordered t polls) :
    policy.KeepsLadder count.toNat last (policy.polled sub polls) := by
  induction polls generalizing sub count last t with
  | nil => trivial
  | cons p polls ih =>
    rcases hordered with ⟨hnow, hfailed, hrest⟩
    rw [polled_cons hstatus]
    cases hdays : policy.scheduleDays[count.toNat]? with
    | none =>
      -- the schedule is used up
      have hlen := List.getElem?_eq_none_iff.1 hdays
      rw [decide_cancel hdays]
      refine ⟨?_, iff_of_true rfl (le_antisymm hcount hlen), ?_⟩
      · intro hover
        rcases hover with ⟨days, hsome, -⟩
        rw [hdays] at hsome
        cases hsome
      · exact ih count last hstatus hcount hfirst
          (UInt64.le_trans hlast (UInt64.le_trans hnow hfailed)) hrest
    | some days =>
      have hlt : count.toNat < policy.scheduleDays.length :=
        (List.getElem?_eq_some_iff.1 hdays).1
      have hfits := hpolicy.fits _ _ hdays
      have hover : ¬ policy.Overflows count t0 := by
        intro hover
        rcases hover with ⟨days', hsome, hle⟩
        rw [hdays] at hsome
        cases hsome
        omega
      rcases decide_eq hdays hfits p.now with ⟨hretry, hle⟩ | ⟨hwait, -⟩
      · rw [hretry]
        have hnext : (nextCount count).toNat = count.toNat + 1 := by
          have := hpolicy.length_lt
          rw [toNat_nextCount]
          omega
        refine ⟨hover, iff_of_false nofun (by omega), ⟨days, hdays, ?_⟩,
          ?_⟩
        · -- the first rung is counted from the last failure, the others
          -- wait for nothing
          show last.toNat + days.toNat * 86400 ≤ p.now.toNat
          by_cases hzero : count.toNat = 0
          · rw [hfirst hzero]
            exact hle
          · have hnone : days = 0 :=
              hpolicy.later_zero _ (by omega) _ hdays
            have hge := UInt64.le_iff_toNat_le.1 (UInt64.le_trans hlast hnow)
            rw [hnone]
            simpa using hge
        · have hkeeps := ih (nextCount count) p.failedAt
            (status_recordBillingFailure hstatus p.failedAt)
            (by omega) (by omega) (UInt64.le_refl _) hrest
          rw [hnext] at hkeeps
          exact hkeeps
      · rcases hwait with ⟨next, hwait⟩
        rw [hwait]
        refine ⟨hover, iff_of_false nofun (by omega), ?_⟩
        exact ih count last hstatus hcount hfirst
          (UInt64.le_trans hlast (UInt64.le_trans hnow hfailed)) hrest

-- ==== the ladder is broken

def lastMoment : UInt64 := 18446744073709551615

theorem toNat_le_lastMoment (t : UInt64) : t ≤ lastMoment := by
  rw [UInt64.le_iff_toNat_le]
  have hlt := t.toNat_lt
  show t.toNat ≤ 18446744073709551615
  omega

def latePolls (n : Nat) : List Poll :=
  List.replicate n ⟨lastMoment, lastMoment⟩

theorem ordered_latePolls (n : Nat) (t : UInt64) : Ordered t (latePolls n) := by
  induction n generalizing t with
  | zero => trivial
  | succ n ih => exact ⟨toNat_le_lastMoment t, UInt64.le_refl _, ih _⟩

/-- The run of late polls keeps the ladder from every retry on, and no
delay after the first can be waited for. -/
theorem keepsLadder_late {count : UInt32} {retries : Nat} {last : UInt64}
    (hstatus : sub.status = .pastDue t0 count)
    (hcount : count.toNat = min retries 4294967295) {days : UInt32}
    (hdays : policy.scheduleDays[retries]? = some days) {n : Nat}
    (h : policy.KeepsLadder retries last (policy.polled sub (latePolls (n + 1)))) :
    (retries < 2 ^ 32 → t0.toNat + days.toNat * 86400 < 2 ^ 64)
      ∧ last.toNat + days.toNat * 86400 ≤ lastMoment.toNat
      ∧ policy.KeepsLadder (retries + 1) lastMoment
        (policy.polled (sub.recordBillingFailure lastMoment).2 (latePolls n)) := by
  have hlt := (List.getElem?_eq_some_iff.1 hdays).1
  have hindex : count.toNat < policy.scheduleDays.length := by omega
  have hread := List.getElem?_eq_getElem hindex
  generalize policy.scheduleDays[count.toNat] = rung at hread
  unfold latePolls at h
  rw [List.replicate_succ, polled_cons hstatus] at h
  rcases h with ⟨hover, -, hrest⟩
  have hfits : t0.toNat + rung.toNat * 86400 < 2 ^ 64 := by
    by_contra hge
    exact hover ⟨rung, hread, not_lt.1 hge⟩
  have hretry : policy.decide count t0 lastMoment = .retryNow := by
    rcases decide_eq hread hfits lastMoment with ⟨hretry, -⟩ | ⟨-, hlate⟩
    · exact hretry
    · have hmax : lastMoment.toNat = 18446744073709551615 := rfl
      omega
  simp only [hretry] at hrest
  rcases hrest with ⟨⟨days', hdays', hle⟩, hnext⟩
  rw [hdays] at hdays'
  cases hdays'
  refine ⟨fun hsmall => ?_, hle, hnext⟩
  have heq : count.toNat = retries := by omega
  rw [heq, hdays] at hread
  cases hread
  exact hfits

theorem exists_late (hstatus : sub.status = .pastDue t0 0)
    (h : ∀ polls, Ordered t0 polls →
      policy.KeepsLadder 0 t0 (policy.polled sub polls)) {k : Nat}
    (hk : k ≤ policy.scheduleDays.length) :
    ∃ (sub' : Subscription) (count : UInt32) (last : UInt64),
      sub'.status = .pastDue t0 count
        ∧ count.toNat = min k 4294967295
        ∧ (1 ≤ k → last = lastMoment)
        ∧ ∀ n, policy.KeepsLadder k last (policy.polled sub' (latePolls n)) := by
  induction k with
  | zero =>
    refine ⟨sub, 0, t0, hstatus, rfl, nofun, fun n => ?_⟩
    exact h _ (ordered_latePolls n t0)
  | succ k ih =>
    rcases ih (by omega) with ⟨sub', count, last, hsub, hcount, -, hkeeps⟩
    have hdays := List.getElem?_eq_getElem (show k < _ from hk)
    refine ⟨(sub'.recordBillingFailure lastMoment).2, nextCount count,
      lastMoment, status_recordBillingFailure hsub lastMoment, ?_,
      fun _ => rfl, fun n => ?_⟩
    · rw [toNat_nextCount]
      omega
    · exact (keepsLadder_late hsub hcount hdays (hkeeps (n + 1))).2.2

theorem singleRung_of_keepsLadder (hstatus : sub.status = .pastDue t0 0)
    (h : ∀ polls, Ordered t0 polls → policy.KeepsLadder 0 t0 (policy.polled sub polls)) :
    policy.SingleRung t0 := by
  have hlength : policy.scheduleDays.length < 2 ^ 32 := by
    -- the poll after the last retry gives up, so the counter is past the end
    rcases exists_late hstatus h (le_refl _) with
      ⟨sub', count, last, hsub, hcount, -, hkeeps⟩
    have hpoll := hkeeps 1
    unfold latePolls at hpoll
    rw [List.replicate_succ, polled_cons hsub] at hpoll
    have hcancel := hpoll.2.1.2 rfl
    by_contra hlong
    have hindex : count.toNat < policy.scheduleDays.length := by omega
    simp only [decide, List.getElem?_eq_getElem hindex] at hcancel
    split at hcancel
    · cases hcancel
    · cases hcancel
  refine ⟨hlength, ?_, ?_⟩
  · intro k hone days hdays
    have hlt := (List.getElem?_eq_some_iff.1 hdays).1
    rcases exists_late hstatus h (le_of_lt hlt) with
      ⟨sub', count, last, hsub, hcount, hlast, hkeeps⟩
    have hle := (keepsLadder_late hsub hcount hdays (hkeeps 1)).2.1
    rw [hlast hone] at hle
    apply UInt32.toNat_inj.1
    show days.toNat = 0
    omega
  · intro k days hdays
    have hlt := (List.getElem?_eq_some_iff.1 hdays).1
    rcases exists_late hstatus h (le_of_lt hlt) with
      ⟨sub', count, last, hsub, hcount, -, hkeeps⟩
    exact (keepsLadder_late hsub hcount hdays (hkeeps 1)).1 (by omega)

end

/-- A subscription that first fails at `t0` is retried by its ladder in
every run exactly where the ladder has a single rung. -/
theorem keepsLadder_iff (policy : DunningPolicy) (sub : Subscription) (t0 : UInt64)
    (hstatus : sub.status = .active ∨ ∃ t, sub.status = .trialing t) :
    (∀ polls, Ordered t0 polls →
        policy.KeepsLadder 0 t0 (policy.polled (sub.recordBillingFailure t0).2 polls))
      ↔ policy.SingleRung t0 := by
  have hfails : (sub.recordBillingFailure t0).2.status = .pastDue t0 0 := by
    unfold recordBillingFailure
    rcases hstatus with h | ⟨t, h⟩
    · simp only [h]
    · simp only [h]
  constructor
  · exact singleRung_of_keepsLadder hfails
  · intro hpolicy polls hordered
    exact keepsLadder_of_singleRung hpolicy 0 t0 hfails (Nat.zero_le _)
      (fun _ => rfl) (UInt64.le_refl t0) hordered

def charged : Subscription :=
  { id := ⟨1⟩
    plan := { id := ⟨2⟩, name := "basic"
              amount := .fromMinor 900 .USD
              interval := .month, intervalCount := 1, trialDays := none }
    status := .active, currentPeriodStartUnixSecs := 1000
    currentPeriodEndUnixSecs := 2679400, cancelAtPeriodEnd := false }

/-- A single retry after three days: a poll that waits, the retry, and the
end. -/
theorem threeDays_kept :
    let polls : List Poll := [⟨2000, 2000⟩, ⟨260200, 260210⟩, ⟨260300, 260300⟩]
    let trace := polled ⟨[3]⟩ (charged.recordBillingFailure 1000).2 polls
    trace.map Polled.outcome = [.wait 260200, .retryNow, .cancel]
      ∧ KeepsLadder ⟨[3]⟩ 0 1000 trace := by
  refine ⟨by decide, ?_⟩
  apply (keepsLadder_iff ⟨[3]⟩ charged 1000 (.inl rfl)).2
  · refine ⟨by decide, ?_, ?_⟩
    · intro k hone days hdays
      have hlt := (List.getElem?_eq_some_iff.1 hdays).1
      exact absurd hlt (by simp; omega)
    · intro k days hdays
      have hmem : days ∈ [3] := List.mem_of_getElem? hdays
      rw [List.mem_singleton.1 hmem]
      decide
  · exact ⟨by decide, by decide, by decide, by decide, by decide, by decide,
      trivial⟩

/-- The daily ladder: the attempt of the second day fails, and ten seconds
later the next one is due. -/
theorem aggressiveDaily_broken :
    let polls : List Poll := [⟨87400, 87410⟩, ⟨87420, 87430⟩]
    let trace := aggressiveDaily.polled
      (charged.recordBillingFailure 1000).2 polls
    Ordered 1000 polls
      ∧ trace.map Polled.outcome = [.retryNow, .retryNow]
      ∧ aggressiveDaily.scheduleDays[1]? = some 1
      ∧ ¬ aggressiveDaily.KeepsLadder 0 1000 trace := by
  refine ⟨⟨by decide, by decide, by decide, by decide, trivial⟩, by decide,
    rfl, fun h => ?_⟩
  have htrace : aggressiveDaily.polled (charged.recordBillingFailure 1000).2
      [⟨87400, 87410⟩, ⟨87420, 87430⟩]
        = [⟨⟨87400, 87410⟩, 0, 1000, .retryNow⟩,
          ⟨⟨87420, 87430⟩, 1, 1000, .retryNow⟩] := by decide
  rw [htrace] at h
  rcases h with ⟨-, -, -, -, -, ⟨days, hdays, hle⟩, -⟩
  cases hdays
  exact absurd hle (by decide)

end DunningPolicy

end OpenStandards.OpSubscriptions

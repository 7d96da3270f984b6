/-
The life cycle of a subscription over whole runs.

Canceling again moves the time of a cancellation that has taken effect. And
the trial is remembered by the status alone, so any transition out of it but
the scheduler's own forgets it. In every run without such calls a canceled
subscription never changes, and the end of the trial is reported once before
the first rollover (`livesOut_of_orderly`).
-/
import OpenStandards.OpSubscriptions.Proofs.Anchor

namespace OpenStandards.OpSubscriptions

open Lib OpCore
open OpLedger (Uuid)

namespace Subscription

/-- The call is in order: a cancellation is not repeated at another time,
and nothing but the scheduler and a cancellation ends the trial. -/
def Orderly (sub : Subscription) (op : Op) : Prop :=
  match sub.status, op with
  | .canceled t, .cancelNow t' => t' = t
  | .trialing _, .promoteFromTrial => False
  | .trialing _, .recordBillingFailure _ => False
  | .trialing _, .pause _ => False
  | _, _ => True

def TrialFirst (answers : List Answer) : Prop :=
  ∀ before after, answers = before ++ .due (.ok .periodRollover) :: after →
    .due (.ok .periodRollover) ∉ before →
    before.count (.due (.ok .trialEnded)) = 1

/-- The first period does not wrap around. -/
def FirstFits (plan : Plan) (start : UInt64) : Prop :=
  match plan.interval with
  | .day => start.toNat + plan.intervalCount.toNat * 86400 < 2 ^ 64
  | .week => start.toNat + plan.intervalCount.toNat * 7 * 86400 < 2 ^ 64
  | _ => True

-- ==== quiet ticks

/-- A tick reports nothing and changes nothing. -/
def Quiet (sub : Subscription) : Prop :=
  ∀ now, sub.call (.tick now) = (.due (.ok .notDue), sub)

variable {sub : Subscription} {t : UInt64}

theorem quiet_of_classify (h : ∀ now, sub.classify now = .notDue) : Quiet sub := by
  intro now
  unfold call
  simp only
  unfold tick
  simp only [h]

theorem quiet_of_canceled (h : sub.status = .canceled t) : Quiet sub := by
  apply quiet_of_classify
  intro now
  unfold classify
  rw [h]
  rfl

theorem quiet_of_paused (h : sub.status = .paused t) : Quiet sub := by
  apply quiet_of_classify
  intro now
  unfold classify trialOver isPaused
  simp only [h]
  rfl

-- ==== canceled for good

theorem status_step_canceled {sub : Subscription} {t : UInt64}
    (h : sub.status = .canceled t) (op : Op) :
    (sub.step op).status = match op with
      | .cancelNow t' => .canceled t'
      | _ => .canceled t := by
  cases op with
  | promoteFromTrial => simp [step, call, answered, promoteFromTrial, h, refuse]
  | recordBillingFailure t' =>
    simp [step, call, answered, recordBillingFailure, h, refuse]
  | recordBillingRecovered =>
    simp [step, call, answered, recordBillingRecovered, h, refuse]
  | pause t' => simp [step, call, answered, pause, h, refuse]
  | resume => simp [step, call, answered, resume, h, refuse]
  | scheduleCancelAtPeriodEnd => exact h
  | cancelNow t' => rfl
  | tick now =>
    unfold step
    rw [quiet_of_canceled h now]
    exact h

theorem status_step_of_orderly {op : Op} (h : sub.status = .canceled t)
    (horderly : Orderly sub op) : (sub.step op).status = .canceled t := by
  rw [status_step_canceled h]
  unfold Orderly at horderly
  rw [h] at horderly
  cases op with
  | cancelNow t' => rw [show t' = t from horderly]
  | _ => rfl

/-- A canceled subscription never rolls over again. -/
theorem no_rollover_of_canceled (h : sub.status = .canceled t) (ops : List Op) :
    .due (.ok .periodRollover) ∉ sub.answers ops := by
  induction ops generalizing sub t with
  | nil => exact List.not_mem_nil
  | cons op ops ih =>
    have hstatus := status_step_canceled h op
    have hnext : ∃ t', (sub.step op).status = .canceled t' := by
      rw [hstatus]
      cases op with
      | cancelNow t' => exact ⟨t', rfl⟩
      | _ => exact ⟨t, rfl⟩
    rcases hnext with ⟨t', hnext⟩
    intro hmem
    rcases List.mem_cons.1 hmem with hfirst | hrest
    · cases op with
      | tick now =>
        rw [quiet_of_canceled h now] at hfirst
        cases hfirst
      | _ => cases hfirst
    · exact ih hnext hrest

-- ==== past the trial

def PastTrial (sub : Subscription) : Prop :=
  ∀ t, sub.status ≠ .trialing t

theorem pastTrial_step (h : PastTrial sub) (op : Op) :
    PastTrial (sub.step op) ∧ (sub.call op).1 ≠ .due (.ok .trialEnded) := by
  cases op with
  | promoteFromTrial =>
    refine ⟨?_, nofun⟩
    show PastTrial sub.promoteFromTrial.2
    unfold promoteFromTrial
    cases sub.status with
    | trialing t => exact nofun
    | _ => exact h
  | recordBillingFailure t =>
    refine ⟨?_, nofun⟩
    show PastTrial (sub.recordBillingFailure t).2
    unfold recordBillingFailure
    cases sub.status with
    | trialing t => exact nofun
    | active => exact nofun
    | pastDue first retryCount => exact nofun
    | _ => exact h
  | recordBillingRecovered =>
    refine ⟨?_, nofun⟩
    show PastTrial sub.recordBillingRecovered.2
    unfold recordBillingRecovered
    split
    case h_1 => exact nofun
    case h_2 => exact h
  | pause t =>
    refine ⟨?_, nofun⟩
    show PastTrial (sub.pause t).2
    unfold pause
    split
    case h_1 => exact nofun
    case h_2 => exact nofun
    case h_3 => exact h
  | resume =>
    refine ⟨?_, nofun⟩
    show PastTrial sub.resume.2
    unfold resume
    split
    case h_1 => exact nofun
    case h_2 => exact h
  | scheduleCancelAtPeriodEnd => exact ⟨h, nofun⟩
  | cancelNow t => exact ⟨nofun, nofun⟩
  | tick now =>
    have hclass : sub.classify now ≠ .trialEnded := by
      unfold classify trialOver
      cases hs : sub.status with
      | trialing t => exact absurd hs (h t)
      | _ => simp; split_ifs <;> simp
    unfold step call
    simp only
    unfold tick
    cases hc : sub.classify now with
    | notDue => exact ⟨h, nofun⟩
    | trialEnded => exact absurd hc hclass
    | cancelAtPeriodEnd => exact ⟨nofun, nofun⟩
    | periodRollover =>
      simp only
      cases advance sub.currentPeriodEndUnixSecs sub.plan.interval sub.plan.intervalCount with
      | none => exact ⟨h, nofun⟩
      | some nextEnd => exact ⟨h, nofun⟩

theorem no_trialEnded_of_pastTrial (h : PastTrial sub) (ops : List Op) :
    .due (.ok .trialEnded) ∉ sub.answers ops := by
  induction ops generalizing sub with
  | nil => exact List.not_mem_nil
  | cons op ops ih =>
    rcases pastTrial_step h op with ⟨hnext, hanswer⟩
    intro hmem
    rcases List.mem_cons.1 hmem with hfirst | hrest
    · exact hanswer hfirst.symm
    · exact ih hnext hrest

-- ==== in the trial

/-- The subscription is in its trial, which ends before the period does. -/
structure InTrial (t : UInt64) (sub : Subscription) : Prop where
  status : sub.status = .trialing t
  le_end : t ≤ sub.currentPeriodEndUnixSecs

theorem tick_inTrial (h : InTrial t sub) (now : UInt64) :
    ((sub.call (.tick now)).1 = .due (.ok .trialEnded) ∧ PastTrial (sub.step (.tick now)))
      ∨ ((sub.call (.tick now)).1 = .due (.ok .notDue) ∧ sub.step (.tick now) = sub) := by
  by_cases hover : t ≤ now
  · have hclass : sub.classify now = .trialEnded := by
      unfold classify trialOver
      simp [h.status, Status.isTerminal, hover]
    have hpromote : sub.promoteFromTrial = (.ok (), { sub with status := .active }) := by
      unfold promoteFromTrial
      simp only [h.status]
    unfold step call tick
    simp only [hclass, hpromote]
    exact .inl ⟨rfl, nofun⟩
  · have hbefore : now < sub.currentPeriodEndUnixSecs :=
      UInt64.lt_of_lt_of_le (UInt64.not_le.1 hover) h.le_end
    have hclass : sub.classify now = .notDue := by
      unfold classify trialOver isPaused
      simp [h.status, Status.isTerminal, hover, hbefore]
    unfold step call tick
    simp only [hclass]
    exact .inr ⟨trivial, trivial⟩

/-- A call in order reports the end of the trial, or nothing and the trial
goes on, or cancels. -/
theorem inTrial_step (h : InTrial t sub) {op : Op} (horderly : Orderly sub op) :
    ((sub.call op).1 = .due (.ok .trialEnded) ∧ PastTrial (sub.step op))
      ∨ (((sub.call op).1 ≠ .due (.ok .trialEnded)
          ∧ (sub.call op).1 ≠ .due (.ok .periodRollover))
        ∧ (InTrial t (sub.step op) ∨ ∃ t', (sub.step op).status = .canceled t')) := by
  unfold Orderly at horderly
  rw [h.status] at horderly
  cases op with
  | promoteFromTrial => exact horderly.elim
  | recordBillingFailure t' => exact horderly.elim
  | pause t' => exact horderly.elim
  | recordBillingRecovered =>
    have hstep : sub.step .recordBillingRecovered = sub := by
      simp [step, call, answered, recordBillingRecovered, h.status, refuse]
    rw [hstep]
    exact .inr ⟨⟨nofun, nofun⟩, .inl h⟩
  | resume =>
    have hstep : sub.step .resume = sub := by
      simp [step, call, answered, resume, h.status, refuse]
    rw [hstep]
    exact .inr ⟨⟨nofun, nofun⟩, .inl h⟩
  | scheduleCancelAtPeriodEnd =>
    exact .inr ⟨⟨nofun, nofun⟩, .inl ⟨h.status, h.le_end⟩⟩
  | cancelNow t' => exact .inr ⟨⟨nofun, nofun⟩, .inr ⟨t', rfl⟩⟩
  | tick now =>
    rcases tick_inTrial h now with hended | ⟨hanswer, hsame⟩
    · exact .inl hended
    · rw [hanswer, hsame]
      exact .inr ⟨⟨nofun, nofun⟩, .inl h⟩

theorem trialFirst_cons {a : Answer} {answers : List Answer} (htrial : a ≠ .due (.ok .trialEnded))
    (hroll : a ≠ .due (.ok .periodRollover)) (h : TrialFirst answers) :
    TrialFirst (a :: answers) := by
  intro before after heq hfirst
  cases before with
  | nil =>
    rw [List.nil_append, List.cons.injEq] at heq
    exact absurd heq.1 hroll
  | cons b before =>
    rw [List.cons_append, List.cons.injEq] at heq
    rw [← heq.1, List.count_cons_of_ne htrial]
    exact h before after heq.2 fun hmem =>
      hfirst (List.mem_cons_of_mem _ hmem)

theorem trialFirst_of_inTrial (h : InTrial t sub) {ops : List Op}
    (hrun : Along step Orderly sub ops) : TrialFirst (sub.answers ops) := by
  induction ops generalizing sub with
  | nil =>
    intro before after heq
    exact absurd heq.symm (by simp [answers])
  | cons op ops ih =>
    rcases hrun with ⟨horderly, hrest⟩
    unfold answers
    rcases inTrial_step h horderly with ⟨hended, hpast⟩
      | ⟨⟨htrial, hroll⟩, hnext | ⟨t', hcanceled⟩⟩
    · -- reported now, and never again
      rw [hended]
      have hnone := no_trialEnded_of_pastTrial hpast ops
      intro before after heq hfirst
      cases before with
      | nil => cases heq
      | cons b before =>
        rw [List.cons_append, List.cons.injEq] at heq
        rw [← heq.1, List.count_cons_self]
        rw [heq.2] at hnone
        rw [List.count_eq_zero.2 fun hmem =>
          hnone (List.mem_append_left _ hmem)]
    · exact trialFirst_cons htrial hroll (ih hnext hrest)
    · apply trialFirst_cons htrial hroll
      have hnone := no_rollover_of_canceled hcanceled ops
      intro before after heq
      rw [heq] at hnone
      exact absurd (List.mem_append_right _ List.mem_cons_self) hnone

theorem inTrial_new {id : Uuid} {plan : Plan} {now : UInt64} {d : UInt32}
    (hnew : Subscription.new id plan now = some sub) (htrial : plan.trial = some d)
    (hfits : FirstFits plan sub.currentPeriodStartUnixSecs) :
    InTrial sub.currentPeriodStartUnixSecs sub := by
  rcases new_eq hnew with ⟨-, hadvance, hstatus⟩
  refine ⟨hstatus d htrial, ?_⟩
  have hlt := plan.intervalCount.toNat_lt
  unfold advance at hadvance
  unfold FirstFits at hfits
  cases hi : plan.interval with
  | day =>
    rw [hi] at hadvance hfits
    simp only at hfits
    rw [← Option.some.inj hadvance, UInt64.le_iff_toNat_le,
      UInt64.toNat_add, UInt64.toNat_mul, UInt32.toNat_toUInt64]
    show _ ≤ (_ + plan.intervalCount.toNat * 86400 % 2 ^ 64) % 2 ^ 64
    omega
  | week =>
    rw [hi] at hadvance hfits
    simp only at hfits
    rw [← Option.some.inj hadvance, UInt64.le_iff_toNat_le,
      UInt64.toNat_add, UInt64.toNat_mul, UInt64.toNat_mul,
      UInt32.toNat_toUInt64]
    show _ ≤ (_ + plan.intervalCount.toNat * 7 % 2 ^ 64 * 86400 % 2 ^ 64) % 2 ^ 64
    omega
  | month =>
    rw [hi] at hadvance
    exact le_addMonths (by omega) hadvance
  | year =>
    rw [hi] at hadvance
    exact le_addMonths (by omega) hadvance

-- ==== runs

/-- What a life cycle promises of a run: canceled is for good, no tick
does anything to a canceled or paused subscription, and a subscription
created with a trial reports its end once before its first rollover. -/
structure LivesOut (sub : Subscription) (ops : List Op) : Prop where
  canceled_stays : ∀ before between after,
    ops = before ++ between ++ after → ∀ t,
      (run step sub before).status = .canceled t →
      (run step sub (before ++ between)).status = .canceled t
  quiet : ∀ before after, ops = before ++ after →
    ((∃ t, (run step sub before).status = .canceled t)
      ∨ ∃ t, (run step sub before).status = .paused t) →
    Quiet (run step sub before)
  trial_first : ∀ id plan now d, Subscription.new id plan now = some sub →
    plan.trial = some d → TrialFirst (sub.answers ops)

/-- Every run of calls in order keeps the life cycle, where the first
period of a trial does not wrap around. -/
theorem livesOut_of_orderly (sub : Subscription) (ops : List Op)
    (hfits : ∀ t, sub.status = .trialing t → FirstFits sub.plan sub.currentPeriodStartUnixSecs)
    (hrun : Along step Orderly sub ops) : LivesOut sub ops := by
  refine ⟨?_, ?_, ?_⟩
  · intro before between after heq t hcanceled
    rw [heq] at hrun
    have hbetween := (along_append.1 (along_append.1 hrun).1).2
    rw [run_append]
    exact run_invariant (I := fun s => s.status = .canceled t)
      (fun s op hs horderly => status_step_of_orderly hs horderly) hcanceled
      hbetween
  · intro before after _ hstatus
    rcases hstatus with ⟨t, h⟩ | ⟨t, h⟩
    · exact quiet_of_canceled h
    · exact quiet_of_paused h
  · intro id plan now d hnew htrial
    rcases new_eq hnew with ⟨hplan, -, hstatus⟩
    have hfirst := hfits _ (hstatus d htrial)
    rw [hplan] at hfirst
    exact trialFirst_of_inTrial (inTrial_new hnew htrial hfirst) hrun

def weekOfTrial : Plan := monthly.withTrialDays 7

def newYear : Subscription :=
  { id := ⟨2⟩, plan := weekOfTrial, status := .trialing 1704672000
    currentPeriodStartUnixSecs := 1704672000
    currentPeriodEndUnixSecs := 1707350400, cancelAtPeriodEnd := false }

/-- The trial ends, the first period rolls, and the subscription is paused
and canceled. -/
theorem newYear_livesOut :
    let ops : List Op := [.tick 1704672000, .tick 1707350400,
      .pause 1707350401, .tick 1710000000, .cancelNow 1710000001]
    Subscription.new ⟨2⟩ weekOfTrial 1704067200 = some newYear
      ∧ newYear.answers ops
        = [.due (.ok .trialEnded), .due (.ok .periodRollover),
          .result (.ok ()), .due (.ok .notDue), .result (.ok ())]
      ∧ LivesOut newYear ops := by
  refine ⟨by decide +kernel, by decide +kernel, ?_⟩
  exact livesOut_of_orderly newYear _ (fun _ _ => trivial)
    ⟨trivial, trivial, trivial, trivial, trivial, trivial⟩

/-- Canceling twice moves the time of the cancellation; and a trial paused
and resumed is never reported to end. -/
theorem newYear_forgets :
    (run step newYear [.cancelNow 1704067300]).status = .canceled 1704067300
      ∧ (run step newYear [.cancelNow 1704067300, .cancelNow 1704067400]).status
        = .canceled 1704067400
      ∧ newYear.answers [.pause 1704067300, .resume, .tick 1704672000, .tick 1707350400]
        = [.result (.ok ()), .result (.ok ()), .due (.ok .notDue), .due (.ok .periodRollover)]
      ∧ ¬ LivesOut newYear [.cancelNow 1704067300, .cancelNow 1704067400]
      ∧ ¬ LivesOut newYear [.pause 1704067300, .resume, .tick 1704672000,
          .tick 1707350400] := by
  have hanswers : newYear.answers [.pause 1704067300, .resume,
      .tick 1704672000, .tick 1707350400]
        = [.result (.ok ()), .result (.ok ()), .due (.ok .notDue),
          .due (.ok .periodRollover)] := by decide +kernel
  refine ⟨by decide, by decide, hanswers, ?_, ?_⟩
  · intro h
    have hstays := h.canceled_stays [.cancelNow 1704067300]
      [.cancelNow 1704067400] [] rfl 1704067300 rfl
    exact absurd hstays (by decide)
  · intro h
    have htrial := h.trial_first ⟨2⟩ weekOfTrial 1704067200 7 (by decide +kernel) rfl
    rw [hanswers] at htrial
    have hcount := htrial [.result (.ok ()), .result (.ok ()),
      .due (.ok .notDue)] [] rfl (by decide)
    exact absurd hcount (by decide)

end Subscription

end OpenStandards.OpSubscriptions

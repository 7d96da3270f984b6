/-
Plans and the period arithmetic (op-subscriptions `plan.rs`,
`scheduler.rs`).

Timestamps are `u64` seconds, whose plain operators wrap as in a release
build. The dates of the `time` crate are those of the Gregorian calendar
from the year -9999 to the year 9999. `days_in_month` panics where the
month after is out of that range, so the month arithmetic answers an
option: none is the panic.
-/
import OpenStandards.OpLedger.Types
import OpenStandards.Lib.Calendar
import OpenStandards.Lib.Run

namespace OpenStandards.OpSubscriptions

open Lib OpCore
open OpLedger (Uuid)

/-- The failure modes of the modelled functions. -/
inductive Error where
  | invalid (reason : String)
  | invalidTransition (id : Uuid) (state : String)
deriving DecidableEq

-- ==== plans

/-- Billing interval unit. -/
inductive Interval where
  | day
  | week
  | month
  | year
deriving DecidableEq

/-- Price template. -/
structure Plan where
  id : Uuid
  name : String
  amount : Money
  interval : Interval
  intervalCount : UInt32
  trialDays : Option UInt32
deriving DecidableEq

namespace Plan

def withTrialDays (plan : Plan) (days : UInt32) : Plan :=
  { plan with trialDays := some days }

def trial (plan : Plan) : Option UInt32 :=
  match plan.trialDays with
  | some d => if 0 < d then some d else none
  | none => none

end Plan

-- ==== time

/-- The number of 1970-01-01. -/
def epochDay : Int := 719162

/-- The last second of the year 9999. -/
def maxTimestamp : Nat := 253402300799

def dateOf (secs : Nat) : Date := ofDayNumber (epochDay + (secs / 86400 : Nat))

def unixTimestamp (date : Date) (second : Nat) : Int :=
  (date.dayNumber - epochDay) * 86400 + second

section

variable {y : Int} {m d : Nat}
  (h : 1 ≤ m ∧ m ≤ 12 ∧ 1 ≤ d ∧ d ≤ daysInMonth y m)
include h

theorem one_le_month_of : 1 ≤ m := h.1
theorem month_le_of : m ≤ 12 := h.2.1
theorem one_le_day_of : 1 ≤ d := h.2.2.1
theorem day_le_of : d ≤ daysInMonth y m := h.2.2.2

end

/-- `Date::from_calendar_date` -/
def fromCalendarDate (y : Int) (m d : Nat) : Option Date :=
  if h : 1 ≤ m ∧ m ≤ 12 ∧ 1 ≤ d ∧ d ≤ daysInMonth y m then
    if -9999 ≤ y ∧ y ≤ 9999 then
      some ⟨y, m, d, one_le_month_of h, month_le_of h, one_le_day_of h, day_le_of h⟩
    else none
  else none

/-- `days_in_month`; none where a date is out of range. -/
def daysInMonth? (year : Int) (month : Nat) : Option Nat := do
  let nextMonthYear := if month = 12 then year + 1 else year
  let nextMonth := if month = 12 then 1 else month + 1
  let firstOfNext ← fromCalendarDate nextMonthYear nextMonth 1
  let firstOfThis ← fromCalendarDate year month 1
  let diff := firstOfNext.dayNumber - firstOfThis.dayNumber
  return if 0 ≤ diff ∧ diff ≤ 255 then diff.toNat else 28

/-- The value fits an `i32`. -/
def inI32 (x : Int) : Prop := -2147483648 ≤ x ∧ x ≤ 2147483647

instance (x : Int) : Decidable (inI32 x) :=
  inferInstanceAs (Decidable (_ ∧ _))

/-- Add `months` to a timestamp, clamping the day to the destination
month's length. -/
def addMonths (fromUnixSecs : UInt64) (months : Int) : Option UInt64 :=
  if 9223372036854775807 < fromUnixSecs.toNat then some fromUnixSecs
  else if maxTimestamp < fromUnixSecs.toNat then some fromUnixSecs
  else do
    let dt := dateOf fromUnixSecs.toNat
    let month := dt.month + (months % 12).toNat
    let yearDelta := months / 12
    let year := if 12 < month then dt.year + 1 else dt.year
    let month := if 12 < month then month - 12 else month
    let year := year + if inI32 yearDelta then yearDelta else 0
    let maxDay ← daysInMonth? year month
    let day := min dt.day maxDay
    let date := (fromCalendarDate year month day).getD dt
    let secs := unixTimestamp date (fromUnixSecs.toNat % 86400)
    return if 0 ≤ secs then .ofNat secs.toNat else fromUnixSecs

/-- Advance by `count × interval`. -/
def advance (fromUnixSecs : UInt64) (interval : Interval) (count : UInt32) : Option UInt64 :=
  match interval with
  | .day => some (fromUnixSecs + count.toUInt64 * 86400)
  | .week => some (fromUnixSecs + count.toUInt64 * 7 * 86400)
  | .month => addMonths fromUnixSecs count.toNat
  | .year => addMonths fromUnixSecs (count.toNat * 12)

/-- The first period, which starts after the trial. -/
def firstPeriod (plan : Plan) (nowUnixSecs : UInt64) : Option (UInt64 × UInt64) := do
  let start := match plan.trial with
    | some d => nowUnixSecs + d.toUInt64 * 86400
    | none => nowUnixSecs
  let finish ← advance start plan.interval plan.intervalCount
  return (start, finish)

/-
Subscriptions, their transitions and the billing scheduler
(op-subscriptions `subscription.rs`, `scheduler.rs`).

Every transition takes the subscription and answers the result together
with the subscription it leaves behind. A run is a sequence of calls, a
tick being one of them; a tick that panics leaves the subscription as it
was, since the new period is computed before the old one is replaced.
-/
open OpLedger (Uuid)

/-- Lifecycle state. -/
inductive Status where
  | trialing (trialEndUnixSecs : UInt64)
  | active
  | pastDue (failedAtUnixSecs : UInt64) (retryCount : UInt32)
  | paused (pausedAtUnixSecs : UInt64)
  | canceled (canceledAtUnixSecs : UInt64)
deriving DecidableEq

namespace Status

def code : Status → String
  | .trialing _ => "trialing"
  | .active => "active"
  | .pastDue _ _ => "past_due"
  | .paused _ => "paused"
  | .canceled _ => "canceled"

/-- No further transitions are legal. -/
def isTerminal : Status → Bool
  | .canceled _ => true
  | _ => false

end Status

/-- One subscription record. -/
structure Subscription where
  id : Uuid
  plan : Plan
  status : Status
  currentPeriodStartUnixSecs : UInt64
  currentPeriodEndUnixSecs : UInt64
  cancelAtPeriodEnd : Bool
deriving DecidableEq

/-- What the scheduler thinks should happen next. -/
inductive DueState where
  | notDue
  | trialEnded
  | periodRollover
  | cancelAtPeriodEnd
deriving DecidableEq

namespace Subscription

def new (id : Uuid) (plan : Plan) (nowUnixSecs : UInt64) : Option Subscription := do
  let (start, finish) ← firstPeriod plan nowUnixSecs
  let status := match plan.trial with
    | some d => Status.trialing (nowUnixSecs + d.toUInt64 * 86400)
    | none => .active
  return { id, plan, status, currentPeriodStartUnixSecs := start
           currentPeriodEndUnixSecs := finish, cancelAtPeriodEnd := false }

def refuse (sub : Subscription) : Except Error Unit × Subscription :=
  (.error (.invalidTransition sub.id sub.status.code), sub)

/-- `Trialing → Active` -/
def promoteFromTrial (sub : Subscription) : Except Error Unit × Subscription :=
  match sub.status with
  | .trialing _ => (.ok (), { sub with status := .active })
  | .active => (.ok (), sub)
  | _ => sub.refuse

/-- `u32::saturating_add(1)` -/
def nextCount (count : UInt32) : UInt32 :=
  if count.toNat = 4294967295 then count else count + 1

/-- Mark a billing attempt failed: the first failure is kept, and the
retries counted. -/
def recordBillingFailure (sub : Subscription) (atUnixSecs : UInt64) :
    Except Error Unit × Subscription :=
  match sub.status with
  | .trialing _ | .active =>
    (.ok (), { sub with status := .pastDue atUnixSecs 0 })
  | .pastDue first retryCount =>
    (.ok (), { sub with status := .pastDue first (nextCount retryCount) })
  | _ => sub.refuse

/-- `PastDue → Active` -/
def recordBillingRecovered (sub : Subscription) : Except Error Unit × Subscription :=
  match sub.status with
  | .pastDue _ _ => (.ok (), { sub with status := .active })
  | _ => sub.refuse

/-- Legal from `Active` or `Trialing`. -/
def pause (sub : Subscription) (atUnixSecs : UInt64) : Except Error Unit × Subscription :=
  match sub.status with
  | .active | .trialing _ =>
    (.ok (), { sub with status := .paused atUnixSecs })
  | _ => sub.refuse

/-- Legal from `Paused` only. -/
def resume (sub : Subscription) : Except Error Unit × Subscription :=
  match sub.status with
  | .paused _ => (.ok (), { sub with status := .active })
  | _ => sub.refuse

def scheduleCancelAtPeriodEnd (sub : Subscription) : Subscription :=
  { sub with cancelAtPeriodEnd := true }

def cancelNow (sub : Subscription) (atUnixSecs : UInt64) : Subscription :=
  { sub with status := .canceled atUnixSecs, cancelAtPeriodEnd := true }

-- ==== the scheduler

def trialOver (sub : Subscription) (nowUnixSecs : UInt64) : Bool :=
  match sub.status with
  | .trialing trialEnd => trialEnd ≤ nowUnixSecs
  | _ => false

def isPaused (sub : Subscription) : Bool :=
  match sub.status with
  | .paused _ => true
  | _ => false

/-- Classify a subscription's status relative to `now`. -/
def classify (sub : Subscription) (nowUnixSecs : UInt64) : DueState :=
  if sub.status.isTerminal then .notDue
  else if sub.trialOver nowUnixSecs then .trialEnded
  else if sub.isPaused then .notDue
  else if nowUnixSecs < sub.currentPeriodEndUnixSecs then .notDue
  else if sub.cancelAtPeriodEnd then .cancelAtPeriodEnd
  else .periodRollover

/-- Apply the classification's transition; none is a panic. -/
def tick (sub : Subscription) (nowUnixSecs : UInt64) :
    Option (Except Error DueState × Subscription) :=
  match sub.classify nowUnixSecs with
  | .notDue => some (.ok .notDue, sub)
  | .trialEnded =>
    let (result, sub) := sub.promoteFromTrial
    some (result.map fun _ => .trialEnded, sub)
  | .periodRollover => do
    let nextStart := sub.currentPeriodEndUnixSecs
    let nextEnd ← advance nextStart sub.plan.interval sub.plan.intervalCount
    return (.ok .periodRollover,
      { sub with
        currentPeriodStartUnixSecs := nextStart
        currentPeriodEndUnixSecs := nextEnd })
  | .cancelAtPeriodEnd =>
    some (.ok .cancelAtPeriodEnd, sub.cancelNow nowUnixSecs)

-- ==== runs

/-- A call on a subscription. -/
inductive Op where
  | promoteFromTrial
  | recordBillingFailure (atUnixSecs : UInt64)
  | recordBillingRecovered
  | pause (atUnixSecs : UInt64)
  | resume
  | scheduleCancelAtPeriodEnd
  | cancelNow (atUnixSecs : UInt64)
  | tick (nowUnixSecs : UInt64)

/-- What a call answers: a transition its result, a tick what was due. -/
inductive Answer where
  | result (r : Except Error Unit)
  | due (r : Except Error DueState)
  | panicked
deriving DecidableEq

def answered (r : Except Error Unit × Subscription) : Answer × Subscription :=
  (.result r.1, r.2)

def call (sub : Subscription) : Op → Answer × Subscription
  | .promoteFromTrial => answered sub.promoteFromTrial
  | .recordBillingFailure t => answered (sub.recordBillingFailure t)
  | .recordBillingRecovered => answered sub.recordBillingRecovered
  | .pause t => answered (sub.pause t)
  | .resume => answered sub.resume
  | .scheduleCancelAtPeriodEnd =>
    (.result (.ok ()), sub.scheduleCancelAtPeriodEnd)
  | .cancelNow t => (.result (.ok ()), sub.cancelNow t)
  | .tick now =>
    match sub.tick now with
    | some (r, sub) => (.due r, sub)
    | none => (.panicked, sub)

def step (sub : Subscription) (op : Op) : Subscription := (sub.call op).2

def answers : Subscription → List Op → List Answer
  | _, [] => []
  | sub, op :: ops => (sub.call op).1 :: answers (sub.step op) ops

end Subscription

end OpenStandards.OpSubscriptions

/-
The retry policy for failed billing attempts (op-subscriptions
`dunning.rs`), and the run it is polled in.

The policy is handed the time of the first failure and the number of
retries, both kept by the subscription. In a run it is polled again and
again; whenever it says to retry, the attempt fails and is recorded.
-/
namespace OpenStandards.OpSubscriptions

/-- Per-retry delays in days. -/
structure DunningPolicy where
  scheduleDays : List UInt32

/-- What to do about a failed attempt. -/
inductive DunningOutcome where
  | retryNow
  | wait (nextAttemptAt : UInt64)
  | cancel
deriving DecidableEq

namespace DunningPolicy

/-- Retry every day for a week, then cancel. -/
def aggressiveDaily : DunningPolicy := ⟨List.replicate 7 1⟩

/-- Decide what to do given the current retry count and the first-failure
timestamp. -/
def decide (policy : DunningPolicy) (retryCount : UInt32)
    (failedAtUnixSecs nowUnixSecs : UInt64) : DunningOutcome :=
  match policy.scheduleDays[retryCount.toNat]? with
  | none => .cancel
  | some days =>
    let delay := days.toUInt64 * 86400
    let nextAttemptAt := failedAtUnixSecs + delay
    if nextAttemptAt ≤ nowUnixSecs then .retryNow else .wait nextAttemptAt

/-- The time of the next attempt is past the `u64` range. -/
def Overflows (policy : DunningPolicy) (retryCount : UInt32) (failedAtUnixSecs : UInt64) : Prop :=
  ∃ days, policy.scheduleDays[retryCount.toNat]? = some days
    ∧ 2 ^ 64 ≤ failedAtUnixSecs.toNat + days.toNat * 86400

-- ==== runs

/-- One poll: when it is made, and when the attempt fails if it makes
one. -/
structure Poll where
  now : UInt64
  failedAt : UInt64
deriving DecidableEq

/-- A poll with what the subscription held and what was decided. -/
structure Polled where
  poll : Poll
  retryCount : UInt32
  firstFailedAt : UInt64
  outcome : DunningOutcome
deriving DecidableEq

def afterPoll (sub : Subscription) (p : Poll) : DunningOutcome → Subscription
  | .retryNow => (sub.recordBillingFailure p.failedAt).2
  | _ => sub

def polled (policy : DunningPolicy) : Subscription → List Poll → List Polled
  | _, [] => []
  | sub, p :: polls =>
    match sub.status with
    | .pastDue firstFailedAt retryCount =>
      let outcome := policy.decide retryCount firstFailedAt p.now
      ⟨p, retryCount, firstFailedAt, outcome⟩ :: polled policy (afterPoll sub p outcome) polls
    | _ => []

end DunningPolicy

end OpenStandards.OpSubscriptions

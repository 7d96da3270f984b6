/-
The cascade walker: `tier.rs`, `router.rs` and `calibration.rs`.

Tiers, router and history layer are records of functions; a tier and a
history layer have a state of their own. The clock is a function from the
turns of the walk to the time that has passed. A coordinate is only known
by its cell.

`paid` is the walk's true bill, which the code does not keep: every cost
that a part of the cascade reports, when it is incurred. Nothing reads it.
-/
import OpenStandards.JouleclawCascade.Types

namespace OpenStandards.JouleclawCascade

open Lib

-- ==== calibration

structure Coord where
  cellId : UInt16

/-- The pairs of estimated and actual joules, accumulated. -/
structure TierCalibration where
  samples : Nat
  ratioSum : ℚ
  maxRatio : ℚ
  budgetViolations : Nat
  totalEstimated : ℚ
  totalActual : ℚ

namespace TierCalibration

def default : TierCalibration := ⟨0, 0, 0, 0, 0, 0⟩

def record (c : TierCalibration) (estimated actual : ℚ) : TierCalibration :=
  let c :=
    { c with
      samples := c.samples + 1
      totalEstimated := c.totalEstimated + estimated
      totalActual := c.totalActual + actual }
  if estimated > 0 then
    { c with
      ratioSum := c.ratioSum + actual / estimated
      maxRatio := max c.maxRatio (actual / estimated) }
  else c

def recordViolation (c : TierCalibration) : TierCalibration :=
  { c with budgetViolations := c.budgetViolations + 1 }

def meanRatio (c : TierCalibration) : ℚ :=
  if c.samples = 0 then 1 else c.ratioSum / c.samples

end TierCalibration

structure CalibrationReport where
  perTier : Table TierId TierCalibration
  perCell : Table UInt16 TierCalibration

namespace CalibrationReport

def default : CalibrationReport := { perTier := ∅, perCell := ∅ }

/-- An entry is changed, a fresh one where there is none. -/
def modifyTier (r : CalibrationReport) (tier : TierId)
    (f : TierCalibration → TierCalibration) : CalibrationReport :=
  { r with
    perTier := r.perTier.insert tier (f ((r.perTier.lookup tier).getD .default)) }

def record (r : CalibrationReport) (tier : TierId) (estimated actual : ℚ) : CalibrationReport :=
  r.modifyTier tier fun c => c.record estimated actual

def recordWithCoord (r : CalibrationReport) (tier : TierId) (coord : Coord)
    (estimated actual : ℚ) : CalibrationReport :=
  let r := r.record tier estimated actual
  { r with
    perCell := r.perCell.insert coord.cellId
      (((r.perCell.lookup coord.cellId).getD .default).record estimated actual) }

def recordViolation (r : CalibrationReport) (tier : TierId) : CalibrationReport :=
  r.modifyTier tier TierCalibration.recordViolation

def learnedMu (r : CalibrationReport) (coord : Coord) : ℚ :=
  match r.perCell.lookup coord.cellId with
  | some c => if c.samples ≥ 3 then c.meanRatio else 1
  | none => 1

end CalibrationReport

-- ==== what is walked

structure Tier (S : Type) where
  id : TierId
  coord : Option Coord
  state : S
  estimateCost : S → Query ℚ ℚ → Option TierEstimate
  /-- The query and the budget remaining. -/
  tryAnswer : S → Query ℚ ℚ → ℚ → S × Except (AnswerError ℚ) (Answer ℚ ℚ)

/-- An error of a history layer is its text. -/
structure HistoryLayer (H : Type) where
  state : H
  lookupExact : H → EntryKey → H × Except Text (Option (HistoryAnswer ℚ ℚ))
  record : H → Query ℚ ℚ → Answer ℚ ℚ → H
  estimateLookupCost : H → Query ℚ ℚ → ℚ

structure RoutingPlan where
  tierOrder : List TierId
  routerJoules : ℚ

def RoutingPlan.isFallback (plan : RoutingPlan) : Bool :=
  plan.tierOrder.isEmpty

structure Router where
  route : Query ℚ ℚ → RoutingPlan
  routeWithCoords : Query ℚ ℚ → List (TierId × Coord) → RoutingPlan

structure Runtime (S H : Type) where
  l0 : Option L0Cache
  history : Option (HistoryLayer H)
  router : Option Router
  calibration : CalibrationReport
  tiers : List (Tier S)

variable {S H : Type}

-- ==== the walk

/-- The runtime's side of a walk and its totals. -/
structure Walk (S : Type) where
  tiers : List (Tier S)
  calibration : CalibrationReport
  spent : ℚ
  trace : List (TraceEntry ℚ)
  refusals : List (TierId × RefusalReason)
  attempted : List (TierId × ℚ)
  paid : ℚ
  outcome : Option (Except (AnswerError ℚ) (Answer ℚ ℚ))

/-- What is done with a tier once it is its turn. The cost it is calibrated
by is its own estimate, uncorrected. -/
inductive Gate where
  | fail (e : AnswerError ℚ)
  | skip (outcome : TraceOutcome)
  | dispatch (rawEstimate : ℚ)

namespace Walk

/-- An attempt that cost nothing. -/
def skip (w : Walk S) (tier : TierId) (outcome : TraceOutcome) : Walk S :=
  { w with
    trace := w.trace ++ [{ tier := tier, outcome := outcome, joules := 0 }] }

def charge (w : Walk S) (tier : TierId) (outcome : TraceOutcome) (joules : ℚ) : Walk S :=
  { w with
    spent := w.spent + joules
    trace := w.trace ++
      [{ tier := tier, outcome := outcome, joules := joules }]
    paid := w.paid + joules }

def stop (w : Walk S) (outcome : Except (AnswerError ℚ) (Answer ℚ ℚ)) : Walk S :=
  { w with outcome := some outcome }

/-- The estimate the budget is checked against. -/
def corrected (w : Walk S) (tier : Tier S) (estimate : ℚ) : ℚ :=
  match tier.coord with
  | some c =>
    let mu := w.calibration.learnedMu c
    if mu ≠ 1 then estimate * mu else estimate
  | none => estimate

def gate (q : Query ℚ ℚ) (elapsed : Nat) (w : Walk S) (tier : Tier S) : Gate :=
  match q.deadline.filter (elapsed > ·) with
  | some deadline => .fail (.deadlineExceeded elapsed deadline)
  | none =>
    match tier.estimateCost tier.state q with
    | none => .skip .skippedInapplicable
    | some estimate =>
      if w.corrected tier estimate.joules > q.budget.remaining w.spent
      then .skip .skippedBudget
      else if estimate.confidenceFloor < q.quality.minConfidence then
        .skip .skippedQuality
      else .dispatch estimate.joules

def settle (q : Query ℚ ℚ) (w : Walk S) (tier : TierId)
    (coord : Option Coord) (rawEstimate remaining : ℚ) :
    Except (AnswerError ℚ) (Answer ℚ ℚ) → Walk S
  | .ok answer =>
    let actual := answer.joulesSpent
    let w :=
      { w with
        calibration := match coord with
          | some c => w.calibration.recordWithCoord tier c rawEstimate actual
          | none => w.calibration.record tier rawEstimate actual }
    if actual > remaining then
      -- a tier over its budget ends the walk
      let w :=
        { (w.charge tier .skippedBudget actual) with
          calibration := w.calibration.recordViolation tier
          attempted := w.attempted ++ [(tier, actual)] }
      w.stop (.error (.budgetExhausted w.spent q.budget.hardLimit w.attempted))
    else
      match answer.output with
      | .refused reason =>
        { (w.charge tier (.refused reason) actual) with
          attempted := w.attempted ++ [(tier, actual)]
          refusals := w.refusals ++ [(tier, reason)] }
      | _ =>
        let w := w.charge tier .hit actual
        w.stop (.ok
          { answer with joulesSpent := w.spent, trace := w.trace })
  | .error (.budgetExhausted tierSpent _ _) =>
    { (w.charge tier .skippedBudget tierSpent) with
      attempted := w.attempted ++ [(tier, tierSpent)] }
  | .error e => w.stop (.error e)

def dispatch (q : Query ℚ ℚ) (w : Walk S) (idx : Nat) (tier : Tier S)
    (rawEstimate : ℚ) : Walk S :=
  let remaining := q.budget.remaining w.spent
  let (state, reply) := tier.tryAnswer tier.state q remaining
  settle q { w with tiers := w.tiers.set idx { tier with state := state } }
    tier.id tier.coord rawEstimate remaining reply

def visit (q : Query ℚ ℚ) (w : Walk S) (turn : Nat × Nat) : Walk S :=
  match w.outcome, w.tiers[turn.1]? with
  | none, some tier =>
    match gate q turn.2 w tier with
    | .fail e => w.stop (.error e)
    | .skip outcome => w.skip tier.id outcome
    | .dispatch rawEstimate => dispatch q w turn.1 tier rawEstimate
  | _, _ => w

def conclude (q : Query ℚ ℚ) (w : Walk S) : Except (AnswerError ℚ) (Answer ℚ ℚ) :=
  match w.outcome with
  | some outcome => outcome
  | none =>
    if w.refusals ≠ [] then .error (.noTierSatisfied w.refusals)
    else .error
      (.budgetExhausted w.spent q.budget.hardLimit w.attempted)

end Walk

-- ==== the runtime

/-- What a lookup before the walk came to: an answer, a failure, or the
totals to go on with. -/
inductive Probe where
  | hit (a : Answer ℚ ℚ)
  | failed (e : AnswerError ℚ)
  | miss (spent : ℚ) (trace : List (TraceEntry ℚ))

namespace Runtime

variable (digest : List (List UInt8) → EntryKey)

def probeL0 (rt : Runtime S H) (q : Query ℚ ℚ) : Probe :=
  match rt.l0 with
  | none => .miss 0 []
  | some l0 =>
    if (l0.estimateCost q).joules ≤ q.budget.remaining 0 then
      let l0Answer := l0.tryAnswer digest q
      match l0Answer.output with
      | .refused _ =>
        .miss (0 + l0Answer.joulesSpent)
          [{ tier := .l0, outcome := .refused .inapplicable,
             joules := l0Answer.joulesSpent }]
      | _ =>
        .hit
          { l0Answer with
            joulesSpent := 0 + l0Answer.joulesSpent
            trace := [{ tier := .l0, outcome := .hit,
                        joules := l0Answer.joulesSpent }] }
    else
      .miss 0 [{ tier := .l0, outcome := .skippedBudget, joules := 0 }]

/-- The durable history layer is next, where the budget allows. Also
answers the state it is left in and what was paid for it. -/
def probeHistory (history : HistoryLayer H) (q : Query ℚ ℚ) (spent : ℚ)
    (trace : List (TraceEntry ℚ)) : H × Probe × ℚ :=
  let historyCost := history.estimateLookupCost history.state q
  if historyCost ≤ q.budget.remaining spent then
    match history.lookupExact history.state (keyFor digest q) with
    | (state, .ok (some ha)) =>
      (state,
        .hit
          { output := ha.output, tierUsed := .l0,
            joulesSpent := spent + historyCost,
            confidence := ha.confidence,
            trace := trace ++ [{ tier := .l0, outcome := .hit,
                                 joules := historyCost }]
            verification := .resolved },
        historyCost)
    -- a miss is paid for, and neither charged nor noted
    | (state, .ok none) => (state, .miss spent trace, historyCost)
    | (state, .error e) =>
      (state, .failed (.tierFailed .l0 ("history: ".toList ++ e)), historyCost)
  else (history.state, .miss spent trace, 0)

def tierCoords (rt : Runtime S H) : List (TierId × Coord) :=
  rt.tiers.filterMap fun t => t.coord.map fun c => (t.id, c)

def plan (rt : Runtime S H) (router : Router) (q : Query ℚ ℚ) : RoutingPlan :=
  if rt.tierCoords.isEmpty then router.route q
  else router.routeWithCoords q rt.tierCoords

def route (rt : Runtime S H) (q : Query ℚ ℚ) : ℚ × List Nat :=
  match rt.router with
  | none => (0, List.range rt.tiers.length)
  | some router =>
    let plan := rt.plan router q
    (plan.routerJoules,
      if plan.isFallback then List.range rt.tiers.length
      else plan.tierOrder.filterMap fun tid =>
        rt.tiers.findIdx? fun t => t.id = tid)

/-- The walk before its first turn. The routing is charged to the budget
and not noted in the trace. -/
def start (rt : Runtime S H) (q : Query ℚ ℚ) (spent : ℚ)
    (trace : List (TraceEntry ℚ)) (paid : ℚ) : Walk S :=
  { tiers := rt.tiers, calibration := rt.calibration,
    spent := spent + (rt.route q).1, trace := trace, refusals := [],
    attempted := [], paid := paid + (rt.route q).1, outcome := none }

def turns (rt : Runtime S H) (clock : Nat → Nat) (q : Query ℚ ℚ) : List (Nat × Nat) :=
  (rt.route q).2.zipIdx.map fun turn => (turn.1, clock turn.2)

/-- An answer of a tier goes to the cache and to the history layer. -/
def writeBack (rt : Runtime S H) (q : Query ℚ ℚ) (a : Answer ℚ ℚ) : Runtime S H :=
  { rt with
    l0 := rt.l0.map fun l0 => l0.put digest q a
    history := rt.history.map fun history =>
      { history with state := history.record history.state q a } }

/-- The router and the tiers, with the totals so far. -/
def walk (rt : Runtime S H) (clock : Nat → Nat) (q : Query ℚ ℚ) (spent : ℚ)
    (trace : List (TraceEntry ℚ)) (paid : ℚ) :
    Runtime S H × Except (AnswerError ℚ) (Answer ℚ ℚ) × ℚ :=
  let w := (rt.turns clock q).foldl (Walk.visit q)
    (rt.start q spent trace paid)
  let rt := { rt with tiers := w.tiers, calibration := w.calibration }
  match w.conclude q with
  | .ok a => (rt.writeBack digest q a, .ok a, w.paid)
  | .error e => (rt, .error e, w.paid)

/-- Answer a query by walking the cascade. Also answers what was paid. -/
def answer (rt : Runtime S H) (clock : Nat → Nat) (q : Query ℚ ℚ) :
    Runtime S H × Except (AnswerError ℚ) (Answer ℚ ℚ) × ℚ :=
  match rt.probeL0 digest q with
  | .hit a => (rt, .ok a, a.joulesSpent)
  | .failed e => (rt, .error e, 0)
  | .miss spent trace =>
    match rt.history with
    | none => rt.walk digest clock q spent trace spent
    | some history =>
      let (state, probe, cost) :=
        probeHistory digest history q spent trace
      let rt :=
        { rt with history := some { history with state := state } }
      match probe with
      | .hit a =>
        -- a hit warms L0 for the next time
        ({ rt with l0 := rt.l0.map fun l0 => l0.put digest q a }, .ok a, spent + cost)
      | .failed e => (rt, .error e, spent + cost)
      | .miss spent trace =>
        rt.walk digest clock q spent trace (spent + cost)

end Runtime

end OpenStandards.JouleclawCascade

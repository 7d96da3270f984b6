/-
The joule contract of the cascade: what an answer says was spent is what
its trace adds up to, what was in fact paid, and within the hard limit.

Every turn of the walk adds one amount to all three (`visit_visited`); they
drift apart before the walk only. A router's joules go to the total and not
to the trace, a lookup of the history layer that misses is on the bill
alone. A tier that gives up is not held to what was left, nor is the router,
and an overdrawn budget leaves zero, for which a free tier still answers.
-/
import OpenStandards.JouleclawCascade.Runtime
import OpenStandards.Lib.Run
import Mathlib.Tactic.Linarith
import Mathlib.Tactic.Positivity

namespace OpenStandards.JouleclawCascade

open Lib

variable {S H : Type}

-- ==== costs

/-- What a reply of a tier says was spent. -/
def reported : Except (AnswerError ℚ) (Answer ℚ ℚ) → ℚ
  | .ok a => a.joulesSpent
  | .error (.budgetExhausted spent _ _) => spent
  | .error _ => 0

def Tier.NonNegative (tier : Tier S) : Prop :=
  ∀ s q budget, 0 ≤ reported (tier.tryAnswer s q budget).2

/-- No part of the cascade reports a negative cost. -/
structure Runtime.NonNegative (rt : Runtime S H) : Prop where
  l0 : ∀ l0, rt.l0 = some l0 → ∀ q, 0 ≤ l0.estimateJoules q
  history : ∀ h, rt.history = some h → ∀ s q, 0 ≤ h.estimateLookupCost s q
  router : ∀ q, 0 ≤ (rt.route q).1
  tiers : ∀ tier ∈ rt.tiers, tier.NonNegative

def total (trace : List (TraceEntry ℚ)) : ℚ :=
  (trace.map TraceEntry.joules).sum

theorem total_append (trace : List (TraceEntry ℚ)) (e : TraceEntry ℚ) :
    total (trace ++ [e]) = total trace + e.joules := by
  unfold total
  rw [List.map_append, List.sum_append, List.map_singleton, List.sum_singleton]

theorem remaining_nonneg (budget : JouleBudget ℚ) (spent : ℚ) : 0 ≤ budget.remaining spent :=
  le_max_right _ _

theorem le_remaining (budget : JouleBudget ℚ) (spent : ℚ) :
    budget.hardLimit ≤ spent + budget.remaining spent := by
  have h : budget.hardLimit - spent ≤ budget.remaining spent :=
    le_max_left _ _
  linarith

theorem add_remaining {budget : JouleBudget ℚ} {spent : ℚ} (h : spent ≤ budget.hardLimit) :
    spent + budget.remaining spent = budget.hardLimit := by
  unfold JouleBudget.remaining
  rw [max_eq_left (by linarith)]
  linarith

-- ==== one turn

namespace Walk

/-- A tier that gives up on its turn reports no more than it was given. -/
def Within (q : Query ℚ ℚ) (w : Walk S) (turn : Nat × Nat) : Prop :=
  ∀ tier rawEstimate spent limit attempted,
    w.outcome = none → w.tiers[turn.1]? = some tier →
    gate q turn.2 w tier = .dispatch rawEstimate →
    (tier.tryAnswer tier.state q (q.budget.remaining w.spent)).2
      = .error (.budgetExhausted spent limit attempted) →
    spent ≤ q.budget.remaining w.spent

/-- What a turn does to the totals: `c` is added to each of them. -/
structure Visited (q : Query ℚ ℚ) (w : Walk S) (turn : Nat × Nat)
    (w' : Walk S) (c : ℚ) : Prop where
  nonneg : 0 ≤ c
  spent : w'.spent = w.spent + c
  trace : total w'.trace = total w.trace + c
  paid : w'.paid = w.paid + c
  answered : ∀ a, w'.outcome = some (.ok a) →
    w' = w ∨ a.joulesSpent = w'.spent ∧ a.trace = w'.trace
  within : Within q w turn → c ≤ q.budget.remaining w.spent ∨ ∃ e, w'.outcome = some (.error e)
  beyond : ¬ Within q w turn → q.budget.remaining w.spent < c
  tiers : ∀ tier ∈ w'.tiers, tier.NonNegative

variable {q : Query ℚ ℚ} {w : Walk S} {turn : Nat × Nat}

/-- A turn without a dispatch adds nothing. -/
theorem Visited.free {w' : Walk S} (htiers : ∀ tier ∈ w.tiers, tier.NonNegative)
    (hwithin : Within q w turn) (hspent : w'.spent = w.spent)
    (htrace : total w'.trace = total w.trace) (hpaid : w'.paid = w.paid)
    (hanswered : ∀ a, w'.outcome = some (.ok a) → w' = w)
    (hsame : w'.tiers = w.tiers) : Visited q w turn w' 0 :=
  { nonneg := le_refl 0
    spent := by rw [hspent, add_zero]
    trace := by rw [htrace, add_zero]
    paid := by rw [hpaid, add_zero]
    answered := fun a ha => .inl (hanswered a ha)
    within := fun _ => .inl (remaining_nonneg ..)
    beyond := fun h => absurd hwithin h
    tiers := hsame ▸ htiers }

theorem nonNegative_set {tiers : List (Tier S)} {idx : Nat} {tier : Tier S}
    (htiers : ∀ t ∈ tiers, t.NonNegative) (hat : tiers[idx]? = some tier)
    (state : S) :
    ∀ t ∈ tiers.set idx { tier with state := state }, t.NonNegative := by
  intro t ht
  rcases List.mem_or_eq_of_mem_set ht with hmem | rfl
  · exact htiers t hmem
  · exact htiers tier (List.mem_of_getElem? hat)

theorem not_within_of_gives_up {tier : Tier S} {c : ℚ} (hat : w.tiers[turn.1]? = some tier)
    (hreply : ∀ spent limit attempted,
      (tier.tryAnswer tier.state q (q.budget.remaining w.spent)).2
        = .error (.budgetExhausted spent limit attempted) → spent = c)
    (hnot : ¬ Within q w turn) : q.budget.remaining w.spent < c := by
  by_contra hle
  refine hnot fun tier' raw spent limit attempted _ hat' _ h => ?_
  obtain rfl := Option.some.inj (hat.symm.trans hat')
  rw [hreply spent limit attempted h]
  exact not_lt.1 hle

/-- What a reply leaves, of the walk it came to. -/
structure Settled (q : Query ℚ ℚ) (w w' : Walk S) (remaining : ℚ)
    (reply : Except (AnswerError ℚ) (Answer ℚ ℚ)) : Prop where
  spent : w'.spent = w.spent + reported reply
  trace : total w'.trace = total w.trace + reported reply
  paid : w'.paid = w.paid + reported reply
  tiers : w'.tiers = w.tiers
  answered : ∀ a, w'.outcome = some (.ok a) → a.joulesSpent = w'.spent ∧ a.trace = w'.trace
  held : (∃ a, reply = .ok a) → reported reply ≤ remaining ∨ ∃ e, w'.outcome = some (.error e)

theorem settle_settled (hopen : w.outcome = none) (tier : TierId)
    (coord : Option Coord) (rawEstimate remaining : ℚ)
    (reply : Except (AnswerError ℚ) (Answer ℚ ℚ)) :
    Settled q w (settle q w tier coord rawEstimate remaining reply) remaining
      reply := by
  have hclosed : ∀ a, w.outcome ≠ some (.ok a) := by
    intro a h
    rw [hopen] at h
    cases h
  cases reply with
  | ok answer =>
    unfold settle
    dsimp only
    by_cases hover : answer.joulesSpent > remaining
    · rw [if_pos hover]
      exact
        { spent := rfl, trace := total_append .., paid := rfl,
          tiers := rfl, answered := fun a h => by cases h
          held := fun _ => .inr ⟨_, rfl⟩ }
    · rw [if_neg hover]
      cases houtput : answer.output with
      | refused reason =>
        exact
          { spent := rfl, trace := total_append .., paid := rfl,
            tiers := rfl, answered := fun a h => absurd h (hclosed a)
            held := fun _ => .inl (not_lt.1 hover) }
      | text s =>
        exact
          { spent := rfl, trace := total_append .., paid := rfl,
            tiers := rfl
            answered := fun a h => by
              obtain rfl := Except.ok.inj (Option.some.inj h)
              exact ⟨rfl, rfl⟩
            held := fun _ => .inl (not_lt.1 hover) }
      | structured b =>
        exact
          { spent := rfl, trace := total_append .., paid := rfl,
            tiers := rfl
            answered := fun a h => by
              obtain rfl := Except.ok.inj (Option.some.inj h)
              exact ⟨rfl, rfl⟩
            held := fun _ => .inl (not_lt.1 hover) }
  | error e =>
    have hstopped : Settled q w (w.stop (.error e)) remaining (.error (.noTierSatisfied [])) :=
      { spent := (add_zero _).symm, trace := (add_zero _).symm
        paid := (add_zero _).symm, tiers := rfl
        answered := fun a h => by cases h
        held := fun _ => .inr ⟨_, rfl⟩ }
    cases e with
    | budgetExhausted spent limit attempted =>
      exact
        { spent := rfl, trace := total_append .., paid := rfl,
          tiers := rfl, answered := fun a h => absurd h (hclosed a)
          held := fun ⟨a, h⟩ => by cases h }
    | deadlineExceeded elapsed deadline =>
      exact { hstopped with held := fun _ => .inr ⟨_, rfl⟩ }
    | noTierSatisfied refusals =>
      exact { hstopped with held := fun _ => .inr ⟨_, rfl⟩ }
    | tierFailed tier cause =>
      exact { hstopped with held := fun _ => .inr ⟨_, rfl⟩ }

theorem dispatch_visited {tier : Tier S} {rawEstimate : ℚ}
    (htiers : ∀ tier ∈ w.tiers, tier.NonNegative)
    (hopen : w.outcome = none) (hat : w.tiers[turn.1]? = some tier)
    (hgate : gate q turn.2 w tier = .dispatch rawEstimate) :
    Visited q w turn (dispatch q w turn.1 tier rawEstimate)
      (reported (tier.tryAnswer tier.state q (q.budget.remaining w.spent)).2) := by
  have hpos := htiers tier (List.mem_of_getElem? hat) tier.state q (q.budget.remaining w.spent)
  have hset := nonNegative_set htiers hat
    (tier.tryAnswer tier.state q (q.budget.remaining w.spent)).1
  have hopen' : { w with
      tiers := w.tiers.set turn.1 { tier with
        state := (tier.tryAnswer tier.state q
          (q.budget.remaining w.spent)).1 } }.outcome = none := hopen
  have hsettled := settle_settled (q := q) hopen' tier.id tier.coord
    rawEstimate (q.budget.remaining w.spent)
    (tier.tryAnswer tier.state q (q.budget.remaining w.spent)).2
  refine
    { nonneg := hpos, spent := hsettled.spent, trace := hsettled.trace,
      paid := hsettled.paid
      answered := fun a h => .inr (hsettled.answered a h)
      within := fun h => ?_
      beyond := not_within_of_gives_up hat fun spent limit attempted h => ?_
      tiers := ?_ }
  · cases hreply : (tier.tryAnswer tier.state q (q.budget.remaining w.spent)).2 with
    | ok answer =>
      rcases hsettled.held ⟨answer, hreply⟩ with hle | hfailed
      · left
        rwa [hreply] at hle
      · exact .inr hfailed
    | error e =>
      left
      cases e with
      | budgetExhausted spent limit attempted =>
        exact h tier rawEstimate spent limit attempted hopen hat hgate hreply
      | deadlineExceeded elapsed deadline => exact remaining_nonneg ..
      | noTierSatisfied refusals => exact remaining_nonneg ..
      | tierFailed tier cause => exact remaining_nonneg ..
  · rw [h]
    rfl
  · have hsame := hsettled.tiers
    rw [show (dispatch q w turn.1 tier rawEstimate).tiers = _ from hsame]
    exact hset

/-- Every turn adds one amount to the total, to the trace and to the
bill. -/
theorem visit_visited (htiers : ∀ tier ∈ w.tiers, tier.NonNegative)
    (q : Query ℚ ℚ) (turn : Nat × Nat) :
    ∃ c, Visited q w turn (visit q w turn) c := by
  have hidle : (∀ tier, w.outcome = none → w.tiers[turn.1]? = some tier →
        ∀ raw, gate q turn.2 w tier ≠ .dispatch raw) →
      Within q w turn := by
    intro h tier raw _ _ _ hopen hat hgate _
    exact absurd hgate (h tier hopen hat raw)
  unfold visit
  split
  · next tier hopen hat =>
      split
      · next e hgate =>
          refine ⟨0, .free htiers (hidle fun tier' _ hat' raw h => ?_) rfl rfl
            rfl (fun a h => by cases h) rfl⟩
          obtain rfl := Option.some.inj (hat.symm.trans hat')
          rw [hgate] at h
          cases h
      · next outcome hgate =>
          refine ⟨0, .free htiers (hidle fun tier' _ hat' raw h => ?_) rfl
            (by rw [skip, total_append, add_zero]) rfl (fun a h => ?_) rfl⟩
          · obtain rfl := Option.some.inj (hat.symm.trans hat')
            rw [hgate] at h
            cases h
          · rw [show (w.skip tier.id outcome).outcome = none from hopen] at h
            cases h
      · next rawEstimate hgate =>
          exact ⟨_, dispatch_visited htiers hopen hat hgate⟩
  · next hnot =>
      exact ⟨0, .free htiers (hidle fun tier hopen hat _ _ =>
        hnot tier hopen hat) rfl rfl rfl (fun _ _ => rfl) rfl⟩

-- ==== a walk

/-- A walk that has come to its end stays as it is. -/
theorem visit_of_outcome {o : Except (AnswerError ℚ) (Answer ℚ ℚ)}
    (h : w.outcome = some o) : visit q w turn = w := by
  unfold visit
  split
  · next tier hopen _ =>
      rw [h] at hopen
      cases hopen
  · rfl

variable {turns : List (Nat × Nat)}

/-- What holds of a walk and its turns: the totals drifted apart by what
they were apart at its start. -/
structure Walked (q : Query ℚ ℚ) (w w' : Walk S) : Prop where
  spent : w.spent ≤ w'.spent
  trace : w'.spent - total w'.trace = w.spent - total w.trace
  paid : w'.paid - w'.spent = w.paid - w.spent
  answered : ∀ a, w'.outcome = some (.ok a) → a.joulesSpent = w'.spent ∧ a.trace = w'.trace
  tiers : ∀ tier ∈ w'.tiers, tier.NonNegative

theorem walked (htiers : ∀ tier ∈ w.tiers, tier.NonNegative)
    (hopen : w.outcome = none) (q : Query ℚ ℚ) (turns : List (Nat × Nat)) :
    Walked q w (run (visit q) w turns) := by
  refine run_invariant (P := fun _ _ => True) (I := Walked q w) ?_ ?_ (along_trivial ..)
  · intro w' turn h _
    obtain ⟨c, hc⟩ := visit_visited h.tiers q turn
    refine
      { spent := ?_, trace := ?_, paid := ?_, answered := fun a ha => ?_
        tiers := hc.tiers }
    · rw [hc.spent]
      exact h.spent.trans (le_add_of_nonneg_right hc.nonneg)
    · rw [hc.spent, hc.trace, ← h.trace]
      ring
    · rw [hc.spent, hc.paid, ← h.paid]
      ring
    · rcases hc.answered a ha with hsame | hnew
      · rw [hsame] at ha ⊢
        exact h.answered a ha
      · exact hnew
  · exact
      { spent := le_refl _, trace := rfl, paid := rfl
        answered := fun a h => by
          rw [hopen] at h
          cases h
        tiers := htiers }

/-- Turns that are within the budget keep the total below the limit, unless
the walk fails. -/
theorem spent_le_of_within (htiers : ∀ tier ∈ w.tiers, tier.NonNegative)
    (hstart : w.spent ≤ q.budget.hardLimit) (h : Along (visit q) (Within q) w turns) :
    (∃ e, (run (visit q) w turns).outcome = some (.error e))
      ∨ (run (visit q) w turns).spent ≤ q.budget.hardLimit := by
  refine (run_invariant (I := fun w : Walk S =>
    ((∃ e, w.outcome = some (.error e)) ∨ w.spent ≤ q.budget.hardLimit)
      ∧ ∀ tier ∈ w.tiers, tier.NonNegative) ?_ ?_ h).1
  · intro w turn ⟨hbound, htiers⟩ hwithin
    obtain ⟨c, hc⟩ := visit_visited htiers q turn
    refine ⟨?_, hc.tiers⟩
    rcases hbound with ⟨e, he⟩ | hbound
    · left
      exact ⟨e, by rw [visit_of_outcome he, he]⟩
    · refine (hc.within hwithin).symm.imp_right fun hle => ?_
      rw [hc.spent, ← add_remaining hbound]
      linarith
  · exact ⟨.inr hstart, htiers⟩

theorem within_of_spent_le (htiers : ∀ tier ∈ w.tiers, tier.NonNegative)
    (h : (run (visit q) w turns).spent ≤ q.budget.hardLimit) :
    Along (visit q) (Within q) w turns := by
  induction turns generalizing w with
  | nil => trivial
  | cons turn turns ih =>
    obtain ⟨c, hc⟩ := visit_visited htiers q turn
    refine ⟨?_, ih hc.tiers h⟩
    by_contra hnot
    have hover := hc.beyond hnot
    have hlimit := le_remaining q.budget w.spent
    have hafter : (visit q w turn).spent ≤ (run (visit q) (visit q w turn) turns).spent := by
      refine (run_invariant (P := fun _ _ => True)
        (I := fun w' : Walk S => (visit q w turn).spent ≤ w'.spent
          ∧ ∀ tier ∈ w'.tiers, tier.NonNegative) ?_ ?_
        (along_trivial ..)).1
      · intro w' turn' ⟨hle, htiers'⟩ _
        obtain ⟨c', hc'⟩ := visit_visited htiers' q turn'
        refine ⟨?_, hc'.tiers⟩
        rw [hc'.spent]
        exact hle.trans (le_add_of_nonneg_right hc'.nonneg)
      · exact ⟨le_refl _, hc.tiers⟩
    rw [hc.spent] at hafter
    have hrun : run (visit q) w (turn :: turns) = run (visit q) (visit q w turn) turns := rfl
    rw [hrun] at h
    linarith

end Walk

-- ==== the runtime

namespace Runtime

variable (digest : List (List UInt8) → EntryKey)

def lookupCost (rt : Runtime S H) (q : Query ℚ ℚ) (spent : ℚ) : ℚ :=
  match rt.history with
  | none => 0
  | some history =>
    let cost := history.estimateLookupCost history.state q
    if cost ≤ q.budget.remaining spent then cost else 0

/-- An answer is at hand before the walk. -/
def IsHit : Probe → Prop
  | .hit _ => True
  | _ => False

def Served (rt : Runtime S H) (q : Query ℚ ℚ) : Prop :=
  match rt.probeL0 digest q with
  | .miss spent trace =>
    match rt.history with
    | none => False
    | some history =>
      IsHit (probeHistory digest history q spent trace).2.1
  | probe => IsHit probe

/-- The exact terms on which an answer keeps the contract. -/
def KeepsAccount (rt : Runtime S H) (clock : Nat → Nat) (q : Query ℚ ℚ) : Prop :=
  0 ≤ q.budget.hardLimit ∧
    ∀ spent trace, rt.probeL0 digest q = .miss spent trace →
      rt.Served digest q ∨
        (rt.route q).1 = 0 ∧ rt.lookupCost q spent = 0
          ∧ Along (Walk.visit q) (Walk.Within q)
              (rt.start q spent trace spent) (rt.turns clock q)

/-- The contract, of an answer that was paid for. -/
structure KeepsContract (q : Query ℚ ℚ) (a : Answer ℚ ℚ) (paid : ℚ) : Prop where
  limit : a.joulesSpent ≤ q.budget.hardLimit
  trace : a.joulesSpent = total a.trace
  paid : a.joulesSpent = paid

variable {digest} {rt : Runtime S H} {q : Query ℚ ℚ} {clock : Nat → Nat}

variable {spent cost bill : ℚ} {a : Answer ℚ ℚ} {trace : List (TraceEntry ℚ)}

theorem le_limit_of_le_remaining {budget : JouleBudget ℚ}
    (hpos : spent ≤ budget.hardLimit) (h : cost ≤ budget.remaining spent) :
    spent + cost ≤ budget.hardLimit := by
  rw [← add_remaining hpos]
  linarith

/-- What the cache answers cost a lookup that the budget paid for. -/
theorem keepsContract_of_l0_hit (hcost : rt.NonNegative) (h : rt.probeL0 digest q = .hit a) :
    KeepsContract q a a.joulesSpent ↔ 0 ≤ q.budget.hardLimit := by
  unfold probeL0 at h
  split at h
  · cases h
  · next l0 hl0 =>
      split at h
      · next hpays =>
          have hjoules : (l0.tryAnswer digest q).joulesSpent = l0.estimateJoules q := by
            unfold L0Cache.tryAnswer
            split
            · rfl
            · rfl
          have hcost' := hcost.l0 l0 hl0 q
          dsimp only at h
          split at h
          · cases h
          · obtain rfl := Probe.hit.inj h
            constructor
            · intro hk
              have hlimit := hk.limit
              dsimp only at hlimit
              rw [hjoules] at hlimit
              linarith
            · intro hpos
              refine { limit := ?_, trace := ?_, paid := rfl }
              · dsimp only
                rw [hjoules]
                exact le_limit_of_le_remaining hpos hpays
              · simp [total]
      · cases h

theorem l0_miss (hcost : rt.NonNegative) (h : rt.probeL0 digest q = .miss spent trace) :
    0 ≤ spent ∧ total trace = spent
      ∧ (0 ≤ q.budget.hardLimit → spent ≤ q.budget.hardLimit) := by
  unfold probeL0 at h
  split at h
  · obtain ⟨rfl, rfl⟩ := Probe.miss.inj h
    exact ⟨le_refl _, rfl, id⟩
  · next l0 hl0 =>
      split at h
      · next hpays =>
          have hjoules : (l0.tryAnswer digest q).joulesSpent = l0.estimateJoules q := by
            unfold L0Cache.tryAnswer
            split
            · rfl
            · rfl
          dsimp only at h
          split at h
          · obtain ⟨rfl, rfl⟩ := Probe.miss.inj h
            rw [hjoules]
            refine ⟨?_, ?_, fun hpos => ?_⟩
            · rw [zero_add]
              exact hcost.l0 l0 hl0 q
            · simp [total]
            · exact le_limit_of_le_remaining hpos hpays
          · cases h
      · obtain ⟨rfl, rfl⟩ := Probe.miss.inj h
        exact ⟨le_refl _, by simp [total], id⟩

theorem walk_ok {paid : ℚ} {rt' : Runtime S H}
    (h : rt.walk digest clock q spent trace paid = (rt', .ok a, bill)) :
    (run (Walk.visit q) (rt.start q spent trace paid) (rt.turns clock q)).outcome = some (.ok a)
      ∧ (run (Walk.visit q) (rt.start q spent trace paid) (rt.turns clock q)).paid = bill
      ∧ rt' = { rt with
          tiers := (run (Walk.visit q) (rt.start q spent trace paid) (rt.turns clock q)).tiers
          calibration := (run (Walk.visit q) (rt.start q spent trace paid)
            (rt.turns clock q)).calibration }.writeBack digest q a := by
  unfold walk at h
  dsimp only at h
  split at h
  · next a' hconclude =>
      simp only [Prod.mk.injEq, Except.ok.injEq] at h
      obtain ⟨rfl, rfl, rfl⟩ := h
      refine ⟨?_, rfl, rfl⟩
      unfold Walk.conclude at hconclude
      split at hconclude
      · next outcome hout => exact hout.trans (congrArg some hconclude)
      · split at hconclude
        · cases hconclude
        · cases hconclude
  · simp at h

theorem walk_keepsContract_iff (hcost : rt.NonNegative) {paid : ℚ}
    (hspent : 0 ≤ spent) (htrace : total trace = spent)
    (hlimit : 0 ≤ q.budget.hardLimit → spent ≤ q.budget.hardLimit) {rt' : Runtime S H}
    (h : rt.walk digest clock q spent trace paid = (rt', .ok a, bill)) :
    KeepsContract q a bill ↔
      0 ≤ q.budget.hardLimit ∧ (rt.route q).1 = 0 ∧ paid = spent
        ∧ Along (Walk.visit q) (Walk.Within q)
            (rt.start q spent trace spent) (rt.turns clock q) := by
  obtain ⟨hout, hbill, -⟩ := walk_ok h
  obtain ⟨w, hrun⟩ : ∃ w, run (Walk.visit q) (rt.start q spent trace paid)
      (rt.turns clock q) = w := ⟨_, rfl⟩
  rw [hrun] at hout hbill
  have hw := Walk.walked (w := rt.start q spent trace paid) hcost.tiers rfl q (rt.turns clock q)
  rw [hrun] at hw
  obtain ⟨hjoules, htr⟩ := hw.answered a hout
  have hroute := hcost.router q
  have hdrift := hw.trace
  have hunpaid := hw.paid
  have hgrown := hw.spent
  simp only [start] at hdrift hunpaid hgrown
  rw [htrace] at hdrift
  constructor
  · intro hk
    have h1 := hk.trace
    have h2 := hk.paid
    have h3 := hk.limit
    rw [hjoules, htr] at h1
    rw [hjoules, ← hbill] at h2
    rw [hjoules] at h3
    have hr : (rt.route q).1 = 0 := by linarith
    have hp : paid = spent := by linarith
    refine ⟨by linarith, hr, hp, ?_⟩
    subst hp
    rw [← hrun] at h3
    exact Walk.within_of_spent_le hcost.tiers h3
  · rintro ⟨hpos, hr, hp, hwithin⟩
    subst hp
    have hstart : (rt.start q paid trace paid).spent ≤ q.budget.hardLimit := by
      simp only [start, hr, add_zero]
      exact hlimit hpos
    refine
      { limit := ?_, trace := by rw [hjoules, htr]; linarith
        paid := by rw [hjoules, ← hbill]; linarith }
    rw [hjoules]
    rcases Walk.spent_le_of_within hcost.tiers hstart hwithin with
      ⟨e, he⟩ | hle
    · rw [hrun, hout] at he
      cases he
    · rwa [hrun] at hle

/-- What a lookup of the history layer can come to. -/
inductive Lookup (q : Query ℚ ℚ) (spent : ℚ) (trace : List (TraceEntry ℚ))
    (cost : ℚ) : Probe → ℚ → Prop
  | hit (ha : HistoryAnswer ℚ ℚ) (hpays : cost ≤ q.budget.remaining spent) :
      Lookup q spent trace cost
        (.hit
          { output := ha.output, tierUsed := .l0,
            joulesSpent := spent + cost, confidence := ha.confidence,
            trace := trace ++
              [{ tier := .l0, outcome := .hit, joules := cost }]
            verification := .resolved })
        cost
  | miss (hpays : cost ≤ q.budget.remaining spent) :
      Lookup q spent trace cost (.miss spent trace) cost
  | failed (e : AnswerError ℚ) (bill : ℚ) :
      Lookup q spent trace cost (.failed e) bill
  | skipped (hpays : ¬ cost ≤ q.budget.remaining spent) :
      Lookup q spent trace cost (.miss spent trace) 0

theorem lookup_probeHistory (history : HistoryLayer H) (q : Query ℚ ℚ)
    (spent : ℚ) (trace : List (TraceEntry ℚ)) :
    Lookup q spent trace (history.estimateLookupCost history.state q)
      (probeHistory digest history q spent trace).2.1
      (probeHistory digest history q spent trace).2.2 := by
  unfold probeHistory
  dsimp only
  split
  · next hpays =>
      split
      · exact .hit _ hpays
      · exact .miss hpays
      · exact .failed ..
  · next hpays => exact .skipped hpays

theorem keepsContract_of_history_hit (hcost : 0 ≤ cost) (hspent : 0 ≤ spent)
    (htrace : total trace = spent) (hlimit : 0 ≤ q.budget.hardLimit → spent ≤ q.budget.hardLimit)
    (h : Lookup q spent trace cost (.hit a) bill) :
    KeepsContract q a (spent + bill) ↔ 0 ≤ q.budget.hardLimit := by
  cases h with
  | hit ha hpays =>
    constructor
    · intro hk
      have hle : spent + cost ≤ q.budget.hardLimit := hk.limit
      linarith
    · intro hpos
      exact
        { limit := le_limit_of_le_remaining (hlimit hpos) hpays
          trace := by rw [total_append, htrace]
          paid := rfl }

theorem lookupCost_of_miss {history : HistoryLayer H}
    (hhistory : rt.history = some history) {spent' : ℚ} {trace' : List (TraceEntry ℚ)}
    (hcost : history.estimateLookupCost history.state q = cost)
    (h : Lookup q spent trace cost (.miss spent' trace') bill) :
    spent' = spent ∧ trace' = trace ∧ bill = rt.lookupCost q spent := by
  unfold lookupCost
  rw [hhistory]
  dsimp only
  rw [hcost]
  cases h with
  | miss hpays => exact ⟨rfl, rfl, (if_pos hpays).symm⟩
  | skipped hpays => exact ⟨rfl, rfl, (if_neg hpays).symm⟩

/-- The answer keeps the contract exactly on the terms. -/
theorem joule_contract_iff (hcost : rt.NonNegative) {rt' : Runtime S H}
    {a : Answer ℚ ℚ} {paid : ℚ} (h : rt.answer digest clock q = (rt', .ok a, paid)) :
    KeepsContract q a paid ↔ rt.KeepsAccount digest clock q := by
  unfold answer at h
  unfold KeepsAccount
  cases hl0 : rt.probeL0 digest q with
  | hit a' =>
    rw [hl0] at h
    simp only [Prod.mk.injEq, Except.ok.injEq] at h
    obtain ⟨-, rfl, rfl⟩ := h
    rw [keepsContract_of_l0_hit hcost hl0]
    exact ⟨fun hpos => ⟨hpos, nofun⟩, And.left⟩
  | failed e =>
    rw [hl0] at h
    simp at h
  | miss spent trace =>
    rw [hl0] at h
    obtain ⟨hspent, htrace, hlimit⟩ := l0_miss hcost hl0
    have hterms : (∀ spent' trace',
          Probe.miss spent trace = .miss spent' trace' →
          rt.Served digest q ∨ (rt.route q).1 = 0
            ∧ rt.lookupCost q spent' = 0
            ∧ Along (Walk.visit q) (Walk.Within q)
                (rt.start q spent' trace' spent') (rt.turns clock q))
        ↔ rt.Served digest q ∨ (rt.route q).1 = 0
            ∧ rt.lookupCost q spent = 0
            ∧ Along (Walk.visit q) (Walk.Within q)
                (rt.start q spent trace spent) (rt.turns clock q) := by
      constructor
      · exact fun hall => hall spent trace rfl
      · intro hone spent' trace' heq
        obtain ⟨rfl, rfl⟩ := Probe.miss.inj heq
        exact hone
    rw [hterms]
    dsimp only at h
    cases hhistory : rt.history with
    | none =>
      have hserved : ¬ rt.Served digest q := by
        unfold Served
        rw [hl0]
        dsimp only
        rw [hhistory]
        exact id
      have hfree : rt.lookupCost q spent = 0 := by
        unfold lookupCost
        rw [hhistory]
      rw [hhistory] at h
      rw [walk_keepsContract_iff hcost hspent htrace hlimit h]
      simp [hserved, hfree]
    | some history =>
      have hserved : rt.Served digest q ↔ IsHit
          (probeHistory digest history q spent trace).2.1 := by
        unfold Served
        rw [hl0]
        dsimp only
        rw [hhistory]
      rw [hhistory] at h
      dsimp only at h
      have hlookup : Lookup q spent trace
          (history.estimateLookupCost history.state q)
          (probeHistory digest history q spent trace).2.1
          (probeHistory digest history q spent trace).2.2 :=
        lookup_probeHistory ..
      have hestimate := hcost.history history hhistory history.state q
      rw [hserved]
      split at h
      · next a' hhit =>
          rw [hhit] at hlookup ⊢
          simp only [Prod.mk.injEq, Except.ok.injEq] at h
          obtain ⟨-, rfl, rfl⟩ := h
          rw [keepsContract_of_history_hit hestimate hspent htrace hlimit hlookup]
          exact ⟨fun hpos => ⟨hpos, .inl trivial⟩, And.left⟩
      · simp at h
      · next spent' trace' hmiss =>
          rw [hmiss] at hlookup ⊢
          obtain ⟨rfl, rfl, hbill⟩ :=
            lookupCost_of_miss hhistory rfl hlookup
          have hcost' : Runtime.NonNegative
              { rt with
                history := some { history with
                  state := (probeHistory digest history q spent' trace').1 } } :=
            { hcost with
              history := by
                intro _ hsome
                obtain rfl := Option.some.inj hsome
                exact hcost.history history hhistory }
          rw [walk_keepsContract_iff hcost' hspent htrace hlimit h, hbill]
          have hhit : ¬ IsHit (.miss spent' trace') := id
          simp [hhit, start, route, turns, plan, tierCoords]

end Runtime

-- ==== examples

def answering (joules : ℚ) : Tier Unit :=
  { id := .l3 0, coord := none, state := ()
    estimateCost := fun _ _ =>
      some { joules := joules, latency := 0, confidenceFloor := 1 }
    tryAnswer := fun _ _ _ =>
      ((), .ok
        { output := .text [], tierUsed := .l3 0, joulesSpent := joules,
          confidence := 1, trace := [], verification := .resolved }) }

def limited (hardLimit : ℚ) : Query ℚ ℚ :=
  { input := .text []
    budget := { hardLimit := hardLimit, softTarget := 0 }
    quality := { minConfidence := 0, acceptPartial := false }
    context :=
      { sessionId := .replicate 16 0, historyFingerprint := .replicate 32 0 }
    deadline := none }

/-- A digest that tells nothing apart. -/
def blank : List (List UInt8) → EntryKey := fun _ => .replicate 32 0

def plain : Runtime Unit Unit :=
  { l0 := none, history := none, router := none, calibration := .default,
    tiers := [answering 1] }

theorem answering_nonNegative {joules : ℚ} (h : 0 ≤ joules) : (answering joules).NonNegative :=
  fun _ _ _ => h

def answered (joules : ℚ) (trace : List (TraceEntry ℚ)) : Answer ℚ ℚ :=
  { output := .text [], tierUsed := .l3 0, joulesSpent := joules,
    confidence := 1, trace := trace, verification := .resolved }

theorem plain_keeps_contract :
    (plain.answer blank (fun _ => 0) (limited 2)).2 = (.ok (answered 1 [⟨.l3 0, .hit, 1⟩]), 1)
      ∧ Runtime.KeepsContract (limited 2) (answered 1 [⟨.l3 0, .hit, 1⟩]) 1 := by
  have hcost : plain.NonNegative :=
    { l0 := nofun, history := nofun, router := fun _ => le_refl _
      tiers := fun tier h => by
        obtain rfl := List.mem_singleton.1 h
        exact answering_nonNegative (by decide) }
  have hanswer : (plain.answer blank (fun _ => 0) (limited 2)).2
      = (.ok (answered 1 [⟨.l3 0, .hit, 1⟩]), 1) := by decide +kernel
  have hwhole : plain.answer blank (fun _ => 0) (limited 2)
      = ((plain.answer blank (fun _ => 0) (limited 2)).1,
          .ok (answered 1 [⟨.l3 0, .hit, 1⟩]), 1) := Prod.ext rfl hanswer
  refine ⟨hanswer, (Runtime.joule_contract_iff hcost hwhole).2
    ⟨by decide +kernel, fun spent trace h => .inr ⟨rfl, rfl, ?_, trivial⟩⟩⟩
  intro tier raw spent' limit attempted _ hat _ hreply
  obtain rfl := Option.some.inj hat
  cases hreply

/-- An empty history layer whose lookups cost a joule, a router that costs
three, and a tier for nothing. -/
def careless : Runtime Unit Unit :=
  { l0 := some .new
    history := some
      { state := (), lookupExact := fun _ _ => ((), .ok none),
        record := fun _ _ _ => (), estimateLookupCost := fun _ _ => 1 }
    router := some
      { route := fun _ => { tierOrder := [], routerJoules := 3 }
        routeWithCoords := fun _ _ =>
          { tierOrder := [], routerJoules := 3 } }
    calibration := .default
    tiers := [answering 0] }

/-- Its answer is over the limit, costs more than its trace says, and less
than was paid. -/
theorem careless_breaks_contract :
    let a := answered (3 + 6 / 10 ^ 9)
      [⟨.l0, .refused .inapplicable, 6 / 10 ^ 9⟩, ⟨.l3 0, .hit, 0⟩]
    careless.NonNegative
      ∧ (careless.answer blank (fun _ => 0) (limited 2)).2 = (.ok a, 4 + 6 / 10 ^ 9)
      ∧ ¬ a.joulesSpent ≤ (limited 2).budget.hardLimit
      ∧ a.joulesSpent ≠ total a.trace
      ∧ a.joulesSpent ≠ 4 + 6 / 10 ^ 9 := by
  refine ⟨?_, by decide +kernel⟩
  exact
    { l0 := by
        intro l0 h q
        obtain rfl := Option.some.inj h
        unfold L0Cache.estimateJoules L0Cache.new
        positivity
      history := by
        intro history h _ _
        obtain rfl := Option.some.inj h
        exact zero_le_one
      router := fun _ => by
        change (0 : ℚ) ≤ 3
        positivity
      tiers := fun tier h => by
        obtain rfl := List.mem_singleton.1 h
        exact answering_nonNegative (le_refl _) }

end OpenStandards.JouleclawCascade

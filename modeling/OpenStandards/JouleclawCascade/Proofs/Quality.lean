/-
The quality floor of a query, over runs of queries.

A tier that keeps its contract refuses below the floor, so what the walk
answers meets it (`walk_meets`). Neither the cache nor the history layer
looks at the floor of the query that asks. So an answer meets the floor
exactly when what the caches would serve does (`meets_iff_confident`), and
a run meets every floor exactly when each call finds the caches so
(`floors_kept_iff`).
-/
import OpenStandards.JouleclawCascade.Proofs.Joules

namespace OpenStandards.JouleclawCascade

open Lib

variable {S H : Type}

/-- What is answered, and not refused, is confident enough for the
query. -/
def Tier.KeepsFloor (tier : Tier S) : Prop :=
  ∀ s q budget a, (tier.tryAnswer s q budget).2 = .ok a →
    (∀ reason, a.output ≠ .refused reason) →
    q.quality.minConfidence ≤ a.confidence

-- ==== the walk

namespace Walk

variable {q : Query ℚ ℚ} {w : Walk S}

theorem confidence_settle {tier : TierId} {coord : Option Coord} {rawEstimate remaining : ℚ}
    {reply : Except (AnswerError ℚ) (Answer ℚ ℚ)} {a : Answer ℚ ℚ} (hopen : w.outcome = none)
    (h : (settle q w tier coord rawEstimate remaining reply).outcome = some (.ok a)) :
    ∃ b, reply = .ok b ∧ (∀ reason, b.output ≠ .refused reason)
      ∧ a.confidence = b.confidence := by
  cases reply with
  | ok answer =>
    refine ⟨answer, rfl, ?_⟩
    unfold settle at h
    dsimp only at h
    split at h
    · cases h
    · split at h
      · rw [show (_ : Option _) = none from hopen] at h
        cases h
      · next hserved =>
          obtain rfl := Except.ok.inj (Option.some.inj h)
          exact ⟨hserved, rfl⟩
  | error e =>
    exfalso
    cases e with
    | budgetExhausted spent limit attempted =>
      rw [show (settle q w tier coord rawEstimate remaining
        (.error (.budgetExhausted spent limit attempted))).outcome = none
        from hopen] at h
      cases h
    | deadlineExceeded elapsed deadline => cases h
    | noTierSatisfied refusals => cases h
    | tierFailed tier cause => cases h

theorem tiers_settle (q : Query ℚ ℚ) (w : Walk S) (tier : TierId)
    (coord : Option Coord) (rawEstimate remaining : ℚ)
    (reply : Except (AnswerError ℚ) (Answer ℚ ℚ)) :
    (settle q w tier coord rawEstimate remaining reply).tiers = w.tiers := by
  cases reply with
  | ok answer =>
    unfold settle
    dsimp only
    split
    · rfl
    · split
      · rfl
      · rfl
  | error e =>
    cases e with
    | budgetExhausted spent limit attempted => rfl
    | deadlineExceeded elapsed deadline => rfl
    | noTierSatisfied refusals => rfl
    | tierFailed tier cause => rfl

/-- The tiers keep their contracts, and an answer met the floor. -/
structure MeetsFloor (q : Query ℚ ℚ) (w : Walk S) : Prop where
  tiers : ∀ tier ∈ w.tiers, tier.KeepsFloor
  outcome : ∀ a, w.outcome = some (.ok a) → q.quality.minConfidence ≤ a.confidence

theorem MeetsFloor.visit (h : w.MeetsFloor q) (turn : Nat × Nat) :
    (w.visit q turn).MeetsFloor q := by
  unfold Walk.visit
  split
  · next tier hopen hat =>
      have hkeeps := h.tiers tier (List.mem_of_getElem? hat)
      split
      · exact { tiers := h.tiers, outcome := fun a ha => by cases ha }
      · exact { tiers := h.tiers, outcome := h.outcome }
      · next rawEstimate hgate =>
          unfold dispatch
          dsimp only
          refine { tiers := ?_, outcome := fun a ha => ?_ }
          · rw [tiers_settle]
            intro t ht
            rcases List.mem_or_eq_of_mem_set ht with hmem | rfl
            · exact h.tiers t hmem
            · exact hkeeps
          · obtain ⟨b, hreply, hserved, hconf⟩ :=
              confidence_settle (by exact hopen) ha
            rw [hconf]
            exact hkeeps _ _ _ b hreply hserved
  · exact h

end Walk

-- ==== the runtime

namespace Runtime

variable (digest : List (List UInt8) → EntryKey)

def servedByL0 (rt : Runtime S H) (q : Query ℚ ℚ) : Option CachedAnswer :=
  rt.l0.bind fun l0 =>
    if (l0.estimateCost q).joules ≤ q.budget.remaining 0 then
      (l0.entries.lookup (keyFor digest q)).filter fun cached =>
        match cached.output with
        | .refused _ => false
        | _ => true
    else none

def l0Cost (rt : Runtime S H) (q : Query ℚ ℚ) : ℚ :=
  match rt.l0 with
  | none => 0
  | some l0 =>
    if (l0.estimateCost q).joules ≤ q.budget.remaining 0 then
      l0.estimateJoules q
    else 0

def servedByHistory (rt : Runtime S H) (q : Query ℚ ℚ) : Option (HistoryAnswer ℚ ℚ) :=
  rt.history.bind fun history =>
    if history.estimateLookupCost history.state q
        ≤ q.budget.remaining (rt.l0Cost q) then
      match (history.lookupExact history.state (keyFor digest q)).2 with
      | .ok found => found
      | .error _ => none
    else none

def servedConfidence (rt : Runtime S H) (q : Query ℚ ℚ) : Option ℚ :=
  ((rt.servedByL0 digest q).map CachedAnswer.confidence).or
    ((rt.servedByHistory digest q).map HistoryAnswer.confidence)

/-- What would be served without a tier is confident enough. -/
def Confident (rt : Runtime S H) (q : Query ℚ ℚ) : Prop :=
  ∀ c ∈ rt.servedConfidence digest q, q.quality.minConfidence ≤ c

instance (rt : Runtime S H) (q : Query ℚ ℚ) : Decidable (rt.Confident digest q) :=
  inferInstanceAs (Decidable (∀ c ∈ rt.servedConfidence digest q, _))

/-- Whatever is answered is confident enough. -/
def Meets (rt : Runtime S H) (call : Query ℚ ℚ × (Nat → Nat)) : Prop :=
  ∀ a, (rt.answer digest call.2 call.1).2.1 = .ok a →
    call.1.quality.minConfidence ≤ a.confidence

variable {digest} {rt : Runtime S H} {q : Query ℚ ℚ} {clock : Nat → Nat}

theorem probeL0_cases (digest : List (List UInt8) → EntryKey) (rt : Runtime S H) (q : Query ℚ ℚ) :
    (∃ cached a, rt.servedByL0 digest q = some cached
        ∧ rt.probeL0 digest q = .hit a ∧ a.confidence = cached.confidence)
      ∨ ∃ trace, rt.servedByL0 digest q = none
          ∧ rt.probeL0 digest q = .miss (rt.l0Cost q) trace := by
  unfold probeL0 servedByL0 l0Cost
  cases hl0 : rt.l0 with
  | none => exact .inr ⟨_, rfl, rfl⟩
  | some l0 =>
    rw [Option.bind_some]
    dsimp only
    by_cases hpays : (l0.estimateCost q).joules ≤ q.budget.remaining 0
    · rw [if_pos hpays, if_pos hpays, if_pos hpays]
      unfold L0Cache.tryAnswer
      cases hfound : l0.entries.lookup (keyFor digest q) with
      | none =>
        dsimp only
        rw [zero_add]
        exact .inr ⟨_, rfl, rfl⟩
      | some cached =>
        rw [Option.filter_some]
        cases houtput : cached.output with
        | refused reason =>
          dsimp only
          rw [houtput]
          dsimp only
          rw [zero_add]
          exact .inr ⟨_, rfl, rfl⟩
        | text s =>
          dsimp only
          rw [houtput]
          exact .inl ⟨cached, _, rfl, rfl, rfl⟩
        | structured b =>
          dsimp only
          rw [houtput]
          exact .inl ⟨cached, _, rfl, rfl, rfl⟩
    · rw [if_neg hpays, if_neg hpays, if_neg hpays]
      exact .inr ⟨_, rfl, rfl⟩

theorem probeHistory_cases (digest : List (List UInt8) → EntryKey)
    {history : HistoryLayer H} (hhistory : rt.history = some history) (q : Query ℚ ℚ)
    (trace : List (TraceEntry ℚ)) :
    (∃ ha a, rt.servedByHistory digest q = some ha
        ∧ (probeHistory digest history q (rt.l0Cost q) trace).2.1 = .hit a
        ∧ a.confidence = ha.confidence)
      ∨ rt.servedByHistory digest q = none
        ∧ ∀ a, (probeHistory digest history q (rt.l0Cost q) trace).2.1 ≠ .hit a := by
  unfold probeHistory servedByHistory
  rw [hhistory, Option.bind_some]
  dsimp only
  by_cases hpays : history.estimateLookupCost history.state q ≤ q.budget.remaining (rt.l0Cost q)
  · rw [if_pos hpays, if_pos hpays]
    cases history.lookupExact history.state (keyFor digest q) with
    | mk state reply =>
      cases reply with
      | error e => exact .inr ⟨rfl, fun a h => by cases h⟩
      | ok found =>
        cases found with
        | none => exact .inr ⟨rfl, fun a h => by cases h⟩
        | some ha => exact .inl ⟨ha, _, rfl, rfl, rfl⟩
  · rw [if_neg hpays, if_neg hpays]
    exact .inr ⟨rfl, fun a h => by cases h⟩

theorem walk_meets (htiers : ∀ tier ∈ rt.tiers, tier.KeepsFloor)
    {spent paid : ℚ} {trace : List (TraceEntry ℚ)} {a : Answer ℚ ℚ}
    (h : (rt.walk digest clock q spent trace paid).2.1 = .ok a) :
    q.quality.minConfidence ≤ a.confidence := by
  obtain ⟨hout, -, -⟩ := walk_ok (Prod.ext rfl (Prod.ext h rfl))
  have hmeets : (run (Walk.visit q) (rt.start q spent trace paid)
      (rt.turns clock q)).MeetsFloor q :=
    run_invariant (fun w turn hw _ => hw.visit turn)
      { tiers := htiers, outcome := fun a ha => by cases ha }
      (along_trivial ..)
  exact hmeets.outcome a hout

/-- An answer that comes from a cache meets the floor when it does. -/
theorem answered_iff {a : Answer ℚ ℚ} {c : ℚ} (hconf : a.confidence = c) :
    (∀ b, (Except.ok a : Except (AnswerError ℚ) _) = .ok b →
        q.quality.minConfidence ≤ b.confidence)
      ↔ ∀ c' ∈ some c, q.quality.minConfidence ≤ c' := by
  rw [← hconf]
  constructor
  · intro h c' hc'
    rw [← Option.some.inj hc']
    exact h a rfl
  · intro h b hb
    rw [← Except.ok.inj hb]
    exact h _ rfl

/-- An answer meets the floor exactly when what the caches would serve
does. -/
theorem meets_iff_confident (htiers : ∀ tier ∈ rt.tiers, tier.KeepsFloor)
    (call : Query ℚ ℚ × (Nat → Nat)) :
    rt.Meets digest call ↔ rt.Confident digest call.1 := by
  obtain ⟨q, clock⟩ := call
  unfold Meets Confident servedConfidence answer
  dsimp only
  rcases probeL0_cases digest rt q with
    ⟨cached, a, hserved, hprobe, hconf⟩ | ⟨trace, hserved, hprobe⟩
  · rw [hprobe, hserved]
    exact answered_iff hconf
  · rw [hprobe, hserved, Option.map_none, Option.none_or]
    dsimp only
    cases hhistory : rt.history with
    | none =>
      have hnone : rt.servedByHistory digest q = none := by
        unfold servedByHistory
        rw [hhistory]
        rfl
      rw [hnone]
      exact iff_of_true (fun a ha => walk_meets htiers ha) (by simp)
    | some history =>
      dsimp only
      rcases probeHistory_cases digest hhistory q trace with
        ⟨ha, a, hserved', hhit, hconf⟩ | ⟨hserved', hmiss⟩
      · rw [hhit, hserved']
        exact answered_iff hconf
      · rw [hserved']
        refine iff_of_true (fun a ha => ?_) (by simp)
        split at ha
        · next b hhit => exact absurd hhit (hmiss b)
        · cases ha
        · exact walk_meets (by exact htiers) ha

-- ==== runs

def ask (digest : List (List UInt8) → EntryKey) (rt : Runtime S H)
    (call : Query ℚ ℚ × (Nat → Nat)) : Runtime S H :=
  (rt.answer digest call.2 call.1).1

theorem keepsFloor_walk (htiers : ∀ tier ∈ rt.tiers, tier.KeepsFloor)
    (spent paid : ℚ) (trace : List (TraceEntry ℚ)) :
    ∀ tier ∈ (rt.walk digest clock q spent trace paid).1.tiers, tier.KeepsFloor := by
  have hmeets : (run (Walk.visit q) (rt.start q spent trace paid)
      (rt.turns clock q)).MeetsFloor q :=
    run_invariant (fun w turn hw _ => hw.visit turn)
      { tiers := htiers, outcome := fun a ha => by cases ha }
      (along_trivial ..)
  unfold walk
  dsimp only
  split
  · exact hmeets.tiers
  · exact hmeets.tiers

theorem keepsFloor_ask (htiers : ∀ tier ∈ rt.tiers, tier.KeepsFloor)
    (call : Query ℚ ℚ × (Nat → Nat)) :
    ∀ tier ∈ (ask digest rt call).tiers, tier.KeepsFloor := by
  unfold ask answer
  split
  · exact htiers
  · exact htiers
  · split
    · exact keepsFloor_walk htiers _ _ _
    · dsimp only
      split
      · exact htiers
      · exact htiers
      · exact keepsFloor_walk (by exact htiers) _ _ _

/-- Every answer of a run meets the floor of its query exactly when each
call finds the caches without an answer below it. -/
theorem floors_kept_iff (htiers : ∀ tier ∈ rt.tiers, tier.KeepsFloor)
    (calls : List (Query ℚ ℚ × (Nat → Nat))) :
    Along (ask digest) (fun rt call => rt.Meets digest call) rt calls
      ↔ Along (ask digest) (fun rt call => rt.Confident digest call.1) rt
          calls := by
  constructor
  · refine along_of_invariant
      (I := fun rt : Runtime S H => ∀ tier ∈ rt.tiers, tier.KeepsFloor)
      (fun rt call hkeeps h => ?_) htiers
    exact ⟨keepsFloor_ask hkeeps call, (meets_iff_confident hkeeps call).1 h⟩
  · refine along_of_invariant
      (I := fun rt : Runtime S H => ∀ tier ∈ rt.tiers, tier.KeepsFloor)
      (fun rt call hkeeps h => ?_) htiers
    exact ⟨keepsFloor_ask hkeeps call, (meets_iff_confident hkeeps call).2 h⟩

end Runtime

-- ==== examples

/-- A tier that answers with little confidence, and to no query that wants
more. -/
def hesitant : Tier Unit :=
  { id := .l3 0, coord := none, state := ()
    estimateCost := fun _ _ =>
      some { joules := 0, latency := 0, confidenceFloor := 3 / 10 }
    tryAnswer := fun _ q _ =>
      ((), .ok
        { output := if q.quality.minConfidence ≤ 3 / 10 then .text []
            else .refused .inapplicable
          tierUsed := .l3 0, joulesSpent := 0, confidence := 3 / 10,
          trace := [], verification := .resolved }) }

def guessing : Runtime Unit Unit :=
  { l0 := some .new, history := none, router := none,
    calibration := .default, tiers := [hesitant] }

def wanting (floor : ℚ) : Query ℚ ℚ × (Nat → Nat) :=
  ({ limited 1 with
      quality := { minConfidence := floor, acceptPartial := false } },
    fun _ => 0)

theorem hesitant_keepsFloor : hesitant.KeepsFloor := by
  intro s q budget a h hserved
  obtain rfl := Except.ok.inj h
  by_cases hfloor : q.quality.minConfidence ≤ 3 / 10
  · exact hfloor
  · exact absurd (if_neg hfloor) (hserved .inapplicable)

theorem guessing_keepsFloor : ∀ tier ∈ guessing.tiers, tier.KeepsFloor := by
  intro tier h
  obtain rfl := List.mem_singleton.1 h
  exact hesitant_keepsFloor

theorem falling_floors_kept :
    Along (Runtime.ask blank) (fun rt call => rt.Meets blank call) guessing
      [wanting (3 / 10), wanting 0] :=
  (Runtime.floors_kept_iff guessing_keepsFloor _).2 (by decide +kernel)

/-- The guess that was good enough for one query is served from the cache to
another that wants nine tenths. -/
theorem guess_served_again :
    (∀ tier ∈ guessing.tiers, tier.KeepsFloor)
      ∧ ((Runtime.ask blank guessing (wanting 0)).answer blank (fun _ => 0)
            (wanting (9 / 10)).1).2.1
          = .ok
              { output := .text [], tierUsed := .l0,
                joulesSpent := 6 / 10 ^ 9, confidence := 3 / 10,
                trace := [⟨.l0, .hit, 6 / 10 ^ 9⟩],
                verification := .resolved }
      ∧ ¬ (wanting (9 / 10)).1.quality.minConfidence ≤ 3 / 10 :=
  ⟨guessing_keepsFloor, by decide +kernel, by decide +kernel⟩

end OpenStandards.JouleclawCascade

/-
The circuit breaker against its specification, over all histories.

What the table keeps of a pair is a function of the failures recorded for
it since its last success (`stateOf`), so an answer is a function of them
and the clock. Asking changes nothing, so past the cooldown every question
is answered alike: the single probe of the half-open state holds exactly
for the histories that ask once between two records.
-/
import OpenStandards.Lib.Run
import OpenStandards.OpOrchestrator.Engine

namespace OpenStandards.OpOrchestrator

open Lib OpCore

-- ==== the specification

def BreakerCall.records : BreakerCall → Option Pair
  | .recordSuccess pair => some pair
  | .recordFailure pair _ => some pair
  | .allow _ _ => none

def failuresAfter (pair : Pair) (failures : List UInt64) : BreakerCall → List UInt64
  | .recordSuccess pair' => if pair' = pair then [] else failures
  | .recordFailure pair' now =>
    if pair' = pair then failures ++ [now] else failures
  | .allow _ _ => failures

/-- The times of the failures of a pair recorded since its last
success. -/
def failuresSince (pair : Pair) (history : List BreakerCall) : List UInt64 :=
  run (failuresAfter pair) [] history

/-- The end of the cooldown that the latest of some failures starts,
where there are enough of them. -/
def openUntil (threshold : UInt32) (cooldown : UInt64) (failures : List UInt64) : Option UInt64 :=
  if threshold.toNat ≤ failures.length then
    failures.getLast?.map fun t => saturatingAddU64 t cooldown
  else none

/-- Enough failures since the last success, and the cooldown of the
latest of them still running. -/
def Cooling (threshold : UInt32) (cooldown : UInt64)
    (failures : List UInt64) (now : UInt64) : Prop :=
  ∃ t, openUntil threshold cooldown failures = some t ∧ now < t

/-- Enough failures since the last success, and the cooldown of the
latest of them over. -/
def Recovering (threshold : UInt32) (cooldown : UInt64)
    (failures : List UInt64) (now : UInt64) : Prop :=
  ∃ t, openUntil threshold cooldown failures = some t ∧ t ≤ now

-- ==== what the table keeps

def Keeps (b : InMemoryCircuitBreaker) (failures : List UInt64) (s : BreakerState) : Prop :=
  s.consecutiveFailures.toNat = min failures.length 4294967295
    ∧ s.openUntil = openUntil b.failureThreshold b.cooldownSecs failures

def Follows (history : List BreakerCall) (b : InMemoryCircuitBreaker) : Prop :=
  ∀ pair, Keeps b (failuresSince pair history) ((b.inner.lookup pair).getD {})

theorem failuresSince_snoc (pair : Pair) (history : List BreakerCall) (c : BreakerCall) :
    failuresSince pair (history ++ [c])
      = failuresAfter pair (failuresSince pair history) c := by
  unfold failuresSince
  rw [run_append]
  rfl

theorem keeps_success (b : InMemoryCircuitBreaker) :
    Keeps b [] { consecutiveFailures := 0, openUntil := none } := by
  refine ⟨rfl, ?_⟩
  simp [openUntil]

theorem keeps_failure {b : InMemoryCircuitBreaker} {failures : List UInt64}
    {s : BreakerState} (h : Keeps b failures s) (now : UInt64) :
    Keeps b (failures ++ [now])
      { consecutiveFailures := saturatingAddU32 s.consecutiveFailures 1
        openUntil :=
          if b.failureThreshold ≤ saturatingAddU32 s.consecutiveFailures 1 then
            some (saturatingAddU64 now b.cooldownSecs)
          else s.openUntil } := by
  obtain ⟨hcount, hopen⟩ := h
  have hsat : (saturatingAddU32 s.consecutiveFailures 1).toNat
      = min (failures ++ [now]).length 4294967295 := by
    rw [saturatingAddU32_toNat, hcount, List.length_append, List.length_singleton]
    show min (_ + 1) _ = _
    omega
  refine ⟨hsat, ?_⟩
  have hbound := b.failureThreshold.toNat_lt
  have hreached : b.failureThreshold ≤ saturatingAddU32 s.consecutiveFailures 1
      ↔ b.failureThreshold.toNat ≤ (failures ++ [now]).length := by
    rw [UInt32.le_iff_toNat_le, hsat]
    omega
  dsimp only
  by_cases hge : b.failureThreshold.toNat ≤ (failures ++ [now]).length
  · rw [if_pos (hreached.2 hge)]
    unfold openUntil
    rw [if_pos hge]
    simp
  · rw [if_neg (fun h => hge (hreached.1 h)), hopen]
    rw [List.length_append, List.length_singleton] at hge
    unfold openUntil
    rw [if_neg (by omega), if_neg]
    rw [List.length_append, List.length_singleton]
    exact hge

/-- One call keeps the table a function of the failures. -/
theorem Follows.call {history : List BreakerCall}
    {b : InMemoryCircuitBreaker} (h : Follows history b) (c : BreakerCall) :
    Follows (history ++ [c]) (b.call c) := by
  intro pair
  rw [failuresSince_snoc]
  cases c with
  | allow pair' now => exact h pair
  | recordSuccess pair' =>
    unfold InMemoryCircuitBreaker.call InMemoryCircuitBreaker.recordSuccess failuresAfter
    dsimp only
    rw [Table.lookup_insert_eq]
    by_cases hp : pair' = pair
    · rw [if_pos hp, if_pos hp.symm]
      exact keeps_success b
    · rw [if_neg hp, if_neg (Ne.symm hp)]
      exact h pair
  | recordFailure pair' now =>
    unfold InMemoryCircuitBreaker.call InMemoryCircuitBreaker.recordFailure failuresAfter
    dsimp only
    rw [Table.lookup_insert_eq]
    by_cases hp : pair' = pair
    · subst hp
      rw [if_pos rfl, if_pos rfl]
      exact keeps_failure (h pair') now
    · rw [if_neg hp, if_neg (Ne.symm hp)]
      exact h pair

def breakerAfter (threshold : UInt32) (cooldown : UInt64)
    (history : List BreakerCall) : InMemoryCircuitBreaker :=
  run InMemoryCircuitBreaker.call
    ((InMemoryCircuitBreaker.new.withThreshold threshold).withCooldown cooldown) history

theorem call_config (b : InMemoryCircuitBreaker) (c : BreakerCall) :
    (b.call c).failureThreshold = b.failureThreshold
      ∧ (b.call c).cooldownSecs = b.cooldownSecs := by
  cases c with
  | recordSuccess pair => exact ⟨rfl, rfl⟩
  | recordFailure pair now => exact ⟨rfl, rfl⟩
  | allow pair now => exact ⟨rfl, rfl⟩

theorem breakerAfter_config (threshold : UInt32) (cooldown : UInt64)
    (history : List BreakerCall) :
    (breakerAfter threshold cooldown history).failureThreshold = threshold
      ∧ (breakerAfter threshold cooldown history).cooldownSecs = cooldown := by
  refine run_invariant
    (I := fun b : InMemoryCircuitBreaker =>
      b.failureThreshold = threshold ∧ b.cooldownSecs = cooldown)
    (fun b c hb _ => ?_) ⟨rfl, rfl⟩ (along_trivial _ history)
  obtain ⟨hth, hcd⟩ := call_config b c
  exact ⟨hth.trans hb.1, hcd.trans hb.2⟩

theorem breakerAfter_follows (threshold : UInt32) (cooldown : UInt64)
    (history : List BreakerCall) :
    Follows history (breakerAfter threshold cooldown history) := by
  refine run_induction (I := Follows) (fun done c b hb => hb.call c) ?_ history
  intro pair
  exact keeps_success _

-- ==== answers

/-- An answer is a function of the failures and the clock. -/
theorem allow_eq_false_iff (threshold : UInt32) (cooldown : UInt64)
    (history : List BreakerCall) (pair : Pair) (now : UInt64) :
    (breakerAfter threshold cooldown history).allow pair now = false
      ↔ Cooling threshold cooldown (failuresSince pair history) now := by
  obtain ⟨-, hopen⟩ := breakerAfter_follows threshold cooldown history pair
  obtain ⟨hth, hcd⟩ := breakerAfter_config threshold cooldown history
  rw [hth, hcd] at hopen
  unfold Cooling InMemoryCircuitBreaker.allow InMemoryCircuitBreaker.state
  rw [← hopen]
  cases (breakerAfter threshold cooldown history).inner.lookup pair with
  | none => simp
  | some s =>
    simp only [Option.getD_some]
    cases s.openUntil with
    | none => simp
    | some t =>
      by_cases hlt : now < t
      · simp [hlt]
      · simp [hlt]

variable {pair : Pair}

theorem allow_eq_true_iff_of_tripped {threshold : UInt32}
    {cooldown t : UInt64} {history : List BreakerCall}
    (ht : openUntil threshold cooldown (failuresSince pair history) = some t) (now : UInt64) :
    (breakerAfter threshold cooldown history).allow pair now = true ↔ t ≤ now := by
  rw [← Bool.not_eq_false, allow_eq_false_iff]
  unfold Cooling
  simp [ht]

theorem failuresSince_append {before between : List BreakerCall}
    (hquiet : ∀ c ∈ between, c.records ≠ some pair) :
    failuresSince pair (before ++ between) = failuresSince pair before := by
  unfold failuresSince
  rw [run_append]
  generalize run (failuresAfter pair) [] before = failures
  refine run_invariant (I := fun fs => fs = failures)
    (P := fun _ c => c.records ≠ some pair) (fun fs c hfs hc => ?_) rfl
    (along_of_forall (fun c hc _ => hquiet c hc) failures)
  cases c with
  | allow pair' now => exact hfs
  | recordSuccess pair' =>
    rw [failuresAfter, if_neg (fun h => hc (congrArg some h))]
    exact hfs
  | recordFailure pair' now =>
    rw [failuresAfter, if_neg (fun h => hc (congrArg some h))]
    exact hfs

theorem failuresSince_filter (pair : Pair) (history : List BreakerCall) :
    failuresSince pair (history.filter fun c => decide (c.records = some pair))
      = failuresSince pair history := by
  induction history using List.reverseRecOn with
  | nil => rfl
  | append_singleton history c ih =>
    rw [List.filter_append]
    by_cases hc : c.records = some pair
    · rw [List.filter_singleton, decide_eq_true hc, cond_true,
        failuresSince_snoc, failuresSince_snoc, ih]
    · rw [List.filter_singleton, decide_eq_false hc, cond_false, List.append_nil, ih]
      refine (failuresSince_append fun c' hc' => ?_).symm
      rw [List.mem_singleton.1 hc']
      exact hc

-- ==== results

/-- The breaker refuses a pair exactly while enough failures are cooling,
and records for other pairs do not enter. -/
structure RefusesApart (threshold : UInt32) (cooldown : UInt64)
    (history : List BreakerCall) : Prop where
  refuses : ∀ before after, history = before ++ after → ∀ pair now,
    (breakerAfter threshold cooldown before).allow pair now = false
      ↔ Cooling threshold cooldown (failuresSince pair before) now
  separate : ∀ before after, history = before ++ after → ∀ pair now,
    (breakerAfter threshold cooldown before).allow pair now
      = (breakerAfter threshold cooldown
          (before.filter fun c => decide (c.records = some pair))).allow
          pair now

/-- The breaker follows its specification over a history: beside that, past
the cooldown at most one question is answered with yes until the next
record for the pair. -/
structure FollowsSpec (threshold : UInt32) (cooldown : UInt64)
    (history : List BreakerCall) : Prop extends
    RefusesApart threshold cooldown history where
  probe : ∀ before between after pair now now',
    history = before ++ .allow pair now :: between ++ .allow pair now' :: after →
    (∀ c ∈ between, c.records ≠ some pair) →
    Recovering threshold cooldown (failuresSince pair before) now →
    ¬ ((breakerAfter threshold cooldown before).allow pair now = true
      ∧ (breakerAfter threshold cooldown
          (before ++ .allow pair now :: between)).allow pair now' = true)

/-- Between two records for a pair at most one question about it is asked
past the cooldown. -/
def AsksOnce (threshold : UInt32) (cooldown : UInt64) (history : List BreakerCall) : Prop :=
  ∀ before between after pair now now',
    history = before ++ .allow pair now :: between ++ .allow pair now' :: after →
    (∀ c ∈ between, c.records ≠ some pair) →
    ¬ (Recovering threshold cooldown (failuresSince pair before) now
      ∧ Recovering threshold cooldown (failuresSince pair before) now')

/-- Two questions with no record for the pair between them are both
answered with yes exactly past the cooldown. -/
theorem both_allowed_iff {threshold : UInt32} {cooldown : UInt64}
    {before between : List BreakerCall} {now now' : UInt64}
    (hquiet : ∀ c ∈ between, c.records ≠ some pair)
    (hrec : Recovering threshold cooldown (failuresSince pair before) now) :
    ((breakerAfter threshold cooldown before).allow pair now = true
      ∧ (breakerAfter threshold cooldown
          (before ++ .allow pair now :: between)).allow pair now' = true)
      ↔ Recovering threshold cooldown (failuresSince pair before) now' := by
  have hsame : failuresSince pair (before ++ .allow pair now :: between)
      = failuresSince pair before := by
    refine failuresSince_append fun c hc => ?_
    cases hc with
    | head => exact nofun
    | tail _ hc => exact hquiet c hc
  obtain ⟨t, ht, hle⟩ := hrec
  rw [allow_eq_true_iff_of_tripped ht, allow_eq_true_iff_of_tripped (hsame ▸ ht)]
  unfold Recovering
  simp [ht, hle]

/-- What the breaker does over every history: past the cooldown it says yes
to the pair as often as it is asked, until the next record. -/
structure ClaimsNoSlot (threshold : UInt32) (cooldown : UInt64)
    (history : List BreakerCall) : Prop extends
    RefusesApart threshold cooldown history where
  halfOpen : ∀ before between after, history = before ++ between ++ after →
    ∀ pair now, (∀ c ∈ between, c.records ≠ some pair) →
    Recovering threshold cooldown (failuresSince pair before) now →
    (breakerAfter threshold cooldown (before ++ between)).allow pair now = true

theorem claimsNoSlot (threshold : UInt32) (cooldown : UInt64) (history : List BreakerCall) :
    ClaimsNoSlot threshold cooldown history where
  refuses before _ _ pair now :=
    allow_eq_false_iff threshold cooldown before pair now
  separate before _ _ pair now := by
    rw [Bool.eq_iff_iff, ← not_iff_not, Bool.not_eq_true,
      Bool.not_eq_true, allow_eq_false_iff, allow_eq_false_iff,
      failuresSince_filter]
  halfOpen before between _ _ pair now hquiet hrec := by
    obtain ⟨t, ht, hle⟩ := hrec
    rw [← failuresSince_append hquiet] at ht
    exact (allow_eq_true_iff_of_tripped ht now).2 hle

/-- For every threshold and cooldown and every history of interleaved calls
over many pairs: the breaker refuses exactly while enough failures are
cooling, keeps the pairs apart, and lets through whatever it is asked past
the cooldown; so it keeps to a single probe if and only if no pair is asked
about twice past its cooldown without a record for it between. -/
theorem followsSpec_iff (threshold : UInt32) (cooldown : UInt64) (history : List BreakerCall) :
    ClaimsNoSlot threshold cooldown history
      ∧ (FollowsSpec threshold cooldown history ↔ AsksOnce threshold cooldown history) := by
  have hdoes := claimsNoSlot threshold cooldown history
  refine ⟨hdoes, ?_, ?_⟩
  · intro h before between after pair now now' heq hquiet hboth
    refine h.probe before between after pair now now' heq hquiet hboth.1 ?_
    exact (both_allowed_iff hquiet hboth.1).2 hboth.2
  · intro h
    refine ⟨hdoes.toRefusesApart, ?_⟩
    intro before between after pair now now' heq hquiet hrec hboth
    refine h before between after pair now now' heq hquiet ⟨hrec, ?_⟩
    exact (both_allowed_iff hquiet hrec).1 hboth

/-- One failure trips the breaker for half a minute; afterwards two
requests in a row are let through. -/
theorem two_probes_allowed :
    ¬ FollowsSpec 1 30
      [.recordFailure (.card, "hsw") 100, .allow (.card, "hsw") 200,
        .allow (.card, "hsw") 200] := by
  intro h
  refine h.probe [.recordFailure (.card, "hsw") 100] [] [] (.card, "hsw")
    200 200 rfl (by simp) ⟨130, by decide, by decide⟩ ⟨?_, ?_⟩
  · decide
  · decide

end OpenStandards.OpOrchestrator

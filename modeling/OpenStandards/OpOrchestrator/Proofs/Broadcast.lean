/-
Transfers broadcast under one idempotency key.

A transfer that is final ends the run with an approval, which is cached
under the key, and a run on a held key asks no driver. A transfer that is
broadcast but not yet final is classed as a soft failure: the loop goes on
to the next driver, and when the chain is used up the key is released. So a
key is paid once for as long as no gateway answers that a transfer is
pending or confirming.

The log of submissions only grows, and what a run adds to it is a list of
submissions of which at most the last moved funds for good (`Tried`).
-/
import OpenStandards.OpOrchestrator.Crypto
import OpenStandards.OpOrchestrator.Proofs.Idempotency

namespace OpenStandards.OpOrchestrator

open Lib OpCore

variable {ω : Type}

-- ==== submissions

/-- The gateway says that the transfer went out. -/
def Submission.broadcast (s : Submission) : Bool :=
  match s.answer with
  | .ok d => d.status = .finalized || d.status.needsPolling
  | .error _ => false

/-- The gateway says that the transfer went out and is not final. -/
def Submission.needsPolling (s : Submission) : Bool :=
  match s.answer with
  | .ok d => d.status.needsPolling
  | .error _ => false

/-- Nothing is submitted after a transfer that went out. -/
def PaidOnce (log : List Submission) : Prop :=
  ∀ before s after, log = before ++ s :: after → s.broadcast → after = []

/-- The submissions of one attempt: at most one, and where the attempt
counts as a soft failure it did not go out or is to be polled for. -/
def Asked (outcome : AttemptOutcome) (subs : List Submission) : Prop :=
  subs.length ≤ 1 ∧ (outcome.isSoft → ∀ s ∈ subs, s.broadcast → s.needsPolling)

theorem asked_nil (outcome : AttemptOutcome) : Asked outcome [] :=
  ⟨Nat.zero_le _, by simp⟩

theorem asked_answered (req : CryptoTransferReq) (answer : Except CryptoError CryptoDecision) :
    Asked (answered answer).outcome [{ req, answer }] := by
  refine ⟨Nat.le_refl _, fun hsoft s hs hb => ?_⟩
  rw [List.mem_singleton.1 hs] at hb ⊢
  cases answer with
  | error e => cases hb
  | ok d =>
    simp only [Submission.broadcast, Bool.or_eq_true, decide_eq_true_eq] at hb
    rcases hb with hfin | hpoll
    · simp [answered, classifyStatus, hfin, AttemptOutcome.isSoft] at hsoft
    · exact hpoll

theorem attempt_asked (d : CryptoDeployment ω) {pair : Pair} {adapter : RailAdapter (Logged ω)}
    (hadapter : d.adapters pair = some adapter) (intent : PaymentIntent)
    (i : Nat) (x : Logged ω) :
    ∃ subs, (adapter.attempt intent i x).2.2 = x.2 ++ subs
      ∧ Asked (adapter.attempt intent i x).1.outcome subs := by
  have hquiet (a : RailAdapter ω) :
      ∃ subs, (quiet (a.attempt intent i) x).2.2 = x.2 ++ subs
        ∧ Asked (quiet (a.attempt intent i) x).1.outcome subs :=
    ⟨[], (List.append_nil _).symm, asked_nil _⟩
  have hcrypto (g : CryptoGateway ω) :
      ∃ subs, (cryptoAttempt g.recorded intent i x).2.2 = x.2 ++ subs
        ∧ Asked (cryptoAttempt g.recorded intent i x).1.outcome subs := by
    have hnone (r : AdapterResult) :
        ∃ subs, ((pure r : StateM (Logged ω) AdapterResult) x).2.2 = x.2 ++ subs
          ∧ Asked ((pure r : StateM (Logged ω) AdapterResult) x).1.outcome
              subs := ⟨[], (List.append_nil _).symm, asked_nil _⟩
    unfold cryptoAttempt
    cases intent.method with
    | crypto address =>
      dsimp only
      by_cases hsup : g.recorded.supports address = true
      · rw [if_neg (not_not.2 hsup)]
        exact ⟨_, rfl, asked_answered _ _⟩
      · rw [if_pos hsup]
        exact hnone _
    | _ => exact hnone _
  unfold CryptoDeployment.adapters at hadapter
  split at hadapter
  · obtain ⟨g, -, rfl⟩ := Option.map_eq_some_iff.1 hadapter
    exact hcrypto g
  · obtain ⟨a, -, rfl⟩ := Option.map_eq_some_iff.1 hadapter
    exact hquiet a

-- ==== one run

/-- The submissions of a run whose gateways never ask to be polled: none
went out, or only the last did and the run answers an outcome. -/
def Tried (subs : List Submission) (result : Except Error OrchestrationOutcome) : Prop :=
  (∀ s ∈ subs, s.needsPolling = false) →
    (∀ s ∈ subs, s.broadcast = false)
      ∨ ∃ before last out, subs = before ++ [last]
          ∧ (∀ s ∈ before, s.broadcast = false) ∧ result = .ok out

theorem tried_nil (result : Except Error OrchestrationOutcome) :
    Tried [] result := fun _ => .inl (by simp)

theorem Asked.tried {outcome : AttemptOutcome} {subs : List Submission}
    (h : Asked outcome subs) (out : OrchestrationOutcome) :
    Tried subs (.ok out) := by
  intro _
  cases subs with
  | nil => exact .inl (by simp)
  | cons s rest =>
    have hrest : rest = [] := by
      have := h.1
      simp only [List.length_cons] at this
      exact List.length_eq_zero_iff.1 (by omega)
    exact .inr ⟨[], s, out, by rw [hrest]; rfl, by simp, rfl⟩

theorem Tried.cons_soft {outcome : AttemptOutcome} {subs rest : List Submission}
    {result : Except Error OrchestrationOutcome} (h : Asked outcome subs)
    (hsoft : outcome.isSoft) (hrest : Tried rest result) :
    Tried (subs ++ rest) result := by
  intro hpoll
  have hsubs : ∀ s ∈ subs, s.broadcast = false := by
    intro s hs
    by_contra hb
    have hp := h.2 hsoft s hs (by simpa using hb)
    rw [hpoll s (List.mem_append_left _ hs)] at hp
    cases hp
  rcases hrest fun s hs => hpoll s (List.mem_append_right _ hs) with
    hnone | ⟨before, last, out, hsplit, hbefore, hres⟩
  · left
    intro s hs
    rcases List.mem_append.1 hs with hs | hs
    · exact hsubs s hs
    · exact hnone s hs
  · right
    refine ⟨subs ++ before, last, out, ?_, ?_, hres⟩
    · rw [hsplit, List.append_assoc]
    · intro s hs
      rcases List.mem_append.1 hs with hs | hs
      · exact hsubs s hs
      · exact hbefore s hs

theorem attemptLoop_tried (d : CryptoDeployment ω) (intent : PaymentIntent)
    (chain : List RailChoice) :
    ∀ (i : Nat) (attempts : List Attempt) (closed : Bool) (x : Logged ω),
      ∃ subs,
        (d.orchestrator.attemptLoop intent chain i attempts closed x).2.2 = x.2 ++ subs
        ∧ Tried subs
          (d.orchestrator.attemptLoop intent chain i attempts closed x).1.result := by
  induction chain with
  | nil =>
    intro i attempts closed x
    exact ⟨[], (List.append_nil _).symm, tried_nil _⟩
  | cons choice rest ih =>
    intro i attempts closed x
    unfold Orchestrator.attemptLoop
    by_cases hmax : d.orchestrator.maxAttempts ≤ attempts.length
    · rw [if_pos hmax]
      exact ⟨[], (List.append_nil _).symm, tried_nil _⟩
    · rw [if_neg hmax]
      simp only [bind_apply]
      split
      · exact ih (i + 1) attempts closed _
      · cases hadapter : d.orchestrator.adapters (choice.rail, choice.driver) with
        | none => exact ih (i + 1) attempts true _
        | some adapter =>
          simp only [bind_apply]
          obtain ⟨subs, hlog, hasked⟩ := attempt_asked d hadapter intent i
            (d.orchestrator.breaker.allow choice.rail choice.driver
              (d.orchestrator.now x).1 (d.orchestrator.now x).2).2
          revert hlog hasked
          generalize adapter.attempt intent i _ = answer
          obtain ⟨r, w'⟩ := answer
          intro hlog hasked
          cases hout : r.outcome with
          | success => exact ⟨subs, hlog, hasked.tried _⟩
          | requiresAction url => exact ⟨subs, hlog, hasked.tried _⟩
          | hardDecline code => exact ⟨subs, hlog, hasked.tried _⟩
          | softFailure code =>
            obtain ⟨rest', hlog', hrest⟩ := ih (i + 1)
              (attempts ++ [{ rail := choice.rail
                              driver := choice.driver
                              outcome := .softFailure code }]) true
              (d.orchestrator.breaker.recordFailure choice.rail
                choice.driver (d.orchestrator.now x).1
                (d.orchestrator.recordAttempt choice.rail
                  choice.driver (.classify (.softFailure code))
                  (d.orchestrator.now x).1 intent.idempotencyKey.text
                  w').2).2
            refine ⟨subs ++ rest', ?_, ?_⟩
            · refine hlog'.trans ?_
              rw [← List.append_assoc]
              exact congrArg (· ++ rest') hlog
            · exact Tried.cons_soft hasked (by rw [hout]; rfl) hrest

theorem runInner_tried (d : CryptoDeployment ω) (intent : PaymentIntent) (x : Logged ω) :
    ∃ subs, (d.orchestrator.runInner intent x).2.2 = x.2 ++ subs
      ∧ Tried subs (d.orchestrator.runInner intent x).1.result := by
  have hnone (r : Report) (w : Logged ω) (hw : w.2 = x.2) :
      ∃ subs, ((pure r : StateM (Logged ω) Report) w).2.2 = x.2 ++ subs
        ∧ Tried subs ((pure r : StateM (Logged ω) Report) w).1.result :=
    ⟨[], hw.trans (List.append_nil _).symm, tried_nil _⟩
  unfold Orchestrator.runInner
  rw [bind_apply]
  cases (d.orchestrator.screen intent x).1 with
  | error e => exact hnone _ _ rfl
  | ok u =>
    simp only [bind_apply]
    cases (d.orchestrator.route intent (d.orchestrator.screen intent x).2).1 with
    | error reason => exact hnone _ _ rfl
    | ok decision =>
      exact attemptLoop_tried d intent decision.chain 0 [] false _

-- ==== whole runs

def afterRuns (d : CryptoDeployment ω) (s : State (Logged ω))
    (intents : List PaymentIntent) : State (Logged ω) :=
  run (fun s intent => (d.orchestrator.run s intent).1) s intents

/-- The record of the key is finished, and if a transfer went out it was
the last one and the key is held. -/
structure Settled (key : IdempotencyKey) (s : State (Logged ω)) : Prop where
  finished : ∀ record, s.idempotency.lookup key = some record → ∃ out, record.outcome = some out
  last : (∀ sub ∈ s.world.2, sub.broadcast = false)
    ∨ ∃ before last, s.world.2 = before ++ [last]
      ∧ (∀ sub ∈ before, sub.broadcast = false)
      ∧ ∃ record, s.idempotency.lookup key = some record

theorem run_world (o : Orchestrator ω) {s : State ω} {intent : PaymentIntent}
    (h : s.idempotency.lookup intent.idempotencyKey = none) :
    (o.run s intent).1.world = (o.runInner intent s.world).2 := by
  unfold Orchestrator.run
  simp only [reserve_free h]
  generalize o.runInner intent s.world = answer
  obtain ⟨report, world⟩ := answer
  rfl

theorem run_log (d : CryptoDeployment ω) (s : State (Logged ω)) (intent : PaymentIntent) :
    ∃ subs, (d.orchestrator.run s intent).1.world.2 = s.world.2 ++ subs := by
  cases hrec : s.idempotency.lookup intent.idempotencyKey with
  | none =>
    obtain ⟨subs, hlog, -⟩ := runInner_tried d intent s.world
    exact ⟨subs, by rw [run_world _ hrec, hlog]⟩
  | some record =>
    refine ⟨[], ?_⟩
    unfold Orchestrator.run
    simp only [reserve_held hrec]
    split
    · simp
    · split
      · simp
      · simp

theorem afterRuns_log (d : CryptoDeployment ω)
    (intents : List PaymentIntent) (s : State (Logged ω)) :
    ∃ subs, (afterRuns d s intents).world.2 = s.world.2 ++ subs := by
  refine run_invariant
    (I := fun s' : State (Logged ω) => ∃ subs, s'.world.2 = s.world.2 ++ subs)
    (fun s' intent hs' _ => ?_) ⟨[], by simp⟩ (along_trivial s intents)
  obtain ⟨subs, hsubs⟩ := hs'
  obtain ⟨more, hmore⟩ := run_log d s' intent
  exact ⟨subs ++ more, by rw [hmore, hsubs, List.append_assoc]⟩

/-- One run under the key, none of whose submissions is to be polled
for. -/
theorem Settled.run (d : CryptoDeployment ω) {s : State (Logged ω)}
    {intent : PaymentIntent} (h : Settled intent.idempotencyKey s)
    (hpoll : ∀ sub ∈ (d.orchestrator.run s intent).1.world.2, sub.needsPolling = false) :
    Settled intent.idempotencyKey (d.orchestrator.run s intent).1 := by
  cases hrec : s.idempotency.lookup intent.idempotencyKey with
  | some record =>
    obtain ⟨out, hout⟩ := h.finished record hrec
    rw [run_of_held d.orchestrator hrec hout]
    exact h
  | none =>
    obtain ⟨subs, hlog, htried⟩ := runInner_tried d intent s.world
    have hlookup := (run_of_free d.orchestrator hrec).2 intent.idempotencyKey
    rw [if_pos rfl] at hlookup
    have hworld := run_world d.orchestrator hrec
    have hnone : ∀ sub ∈ s.world.2, sub.broadcast = false := by
      rcases h.last with hnone | ⟨_, _, _, _, record, hrec'⟩
      · exact hnone
      · rw [hrec] at hrec'
        cases hrec'
    rw [hworld, hlog] at hpoll
    refine ⟨fun record hrecord => ?_, ?_⟩
    · rw [hlookup] at hrecord
      split at hrecord
      · cases hrecord
        exact ⟨_, rfl⟩
      · cases hrecord
    · rw [hworld, hlog]
      rcases htried fun sub hsub =>
          hpoll sub (List.mem_append_right _ hsub) with
        hsubs | ⟨before, last, out, hsplit, hbefore, hres⟩
      · left
        intro sub hsub
        rcases List.mem_append.1 hsub with hsub | hsub
        · exact hnone sub hsub
        · exact hsubs sub hsub
      · right
        refine ⟨s.world.2 ++ before, last, ?_, ?_, ?_⟩
        · rw [hsplit, List.append_assoc]
        · intro sub hsub
          rcases List.mem_append.1 hsub with hsub | hsub
          · exact hnone sub hsub
          · exact hbefore sub hsub
        · rw [hlookup, hres]
          exact ⟨_, rfl⟩

theorem settled_afterRuns (d : CryptoDeployment ω) {key : IdempotencyKey}
    (intents : List PaymentIntent) :
    ∀ s : State (Logged ω), (∀ i ∈ intents, i.idempotencyKey = key) →
      Settled key s →
      (∀ sub ∈ (afterRuns d s intents).world.2, sub.needsPolling = false) →
      Settled key (afterRuns d s intents) := by
  induction intents with
  | nil => exact fun s _ hs _ => hs
  | cons intent intents ih =>
    intro s hkeys hs hpoll
    have hkey := hkeys intent List.mem_cons_self
    refine ih (d.orchestrator.run s intent).1
      (fun i hi => hkeys i (List.mem_cons_of_mem _ hi)) ?_ hpoll
    subst hkey
    refine hs.run d fun sub hsub => hpoll sub ?_
    obtain ⟨subs, hlog⟩ :=
      afterRuns_log d intents (d.orchestrator.run s intent).1
    show sub ∈ (afterRuns d (d.orchestrator.run s intent).1 intents).world.2
    rw [hlog]
    exact List.mem_append_left _ hsub

theorem Settled.paidOnce {key : IdempotencyKey} {s : State (Logged ω)}
    (h : Settled key s) : PaidOnce s.world.2 := by
  intro before sub after hsplit hb
  rcases h.last with hnone | ⟨before', last, hlast, hbefore, -⟩
  · have := hnone sub (by rw [hsplit]; simp)
    rw [hb] at this
    cases this
  · by_contra hafter
    have hmem : sub ∈ before' := by
      rw [hlast] at hsplit
      obtain ⟨after', z, rfl⟩ :=
        List.eq_nil_or_concat after |>.resolve_left hafter
      rw [List.concat_eq_append, ← List.cons_append, ← List.append_assoc] at hsplit
      rw [(List.append_inj' hsplit rfl).1]
      simp
    have := hbefore sub hmem
    rw [hb] at this
    cases this

def submissions (d : CryptoDeployment ω) (w : ω)
    (intents : List PaymentIntent) : List Submission :=
  (afterRuns d { idempotency := ∅, world := (w, []) } intents).world.2

/-- **When a payment goes out once.** For every deployment, with its
gateways answering arbitrarily, and every sequence of runs under one key:
where no gateway answered that a transfer is pending or confirming,
nothing is submitted after a transfer that went out. -/
theorem paid_once_of_final (d : CryptoDeployment ω) (w : ω)
    (key : IdempotencyKey) (intents : List PaymentIntent)
    (hkeys : ∀ i ∈ intents, i.idempotencyKey = key)
    (hpoll : ∀ s ∈ submissions d w intents, s.needsPolling = false) :
    PaidOnce (submissions d w intents) := by
  refine (settled_afterRuns d intents _ hkeys ⟨?_, .inl ?_⟩ hpoll).paidOnce
  · intro record hrecord
    cases hrecord
  · intro sub hsub
    cases hsub

def baseDeployment (first second : CryptoStatus) : CryptoDeployment Unit :=
  let gateway (status : CryptoStatus) : CryptoGateway Unit :=
    { token := ⟨"base", "0x8335", 6, "USDC"⟩
      supports := fun to_ => to_.chain = "base"
      submitTransfer := fun _ => pure (.ok { status, txHash := some "0x01"
                                             reason := none }) }
  { maxAttempts := 3
    router := { cardDrivers := [], a2aDrivers := []
                cryptoDrivers := ["usdc-base", "usdc-base-2"]
                a2aAboveMinorUnits := none
                signals := fun _ => pure .asserted
                methodDebug := methodSignature }
    gateways := fun driver =>
      if driver = "usdc-base" then some (gateway first)
      else if driver = "usdc-base-2" then some (gateway second)
      else none
    others := fun _ => none
    breaker := { allow := fun _ _ _ => pure true
                 recordSuccess := fun _ _ => pure ()
                 recordFailure := fun _ _ _ => pure () }
    screen := fun _ => pure (.ok ())
    recordAttempt := fun _ _ _ _ _ => pure ()
    now := pure 1000 }

def baseIntent : PaymentIntent :=
  { idempotencyKey := ⟨"key-1"⟩
    amount := Money.fromMinor ⟨10000000, by decide⟩ .USD
    method := .crypto ⟨"base", "0xabc"⟩ }

/-- The first gateway is unreachable, the second settles; a retry of the
run submits nothing more. -/
theorem paid_once_after_fallback :
    PaidOnce (submissions (baseDeployment .transient .finalized) ()
      [baseIntent, baseIntent]) := by
  refine paid_once_of_final _ () ⟨"key-1"⟩ _ (by decide) ?_
  have hlog : (submissions (baseDeployment .transient .finalized) ()
      [baseIntent, baseIntent]).map Submission.needsPolling
      = [false, false] := by decide
  intro s hs
  have := List.mem_map_of_mem (f := Submission.needsPolling) hs
  rw [hlog] at this
  simpa using this

/-- A transfer that is pending with the first driver is submitted again
with the second, in the same run. -/
theorem pending_transfer_submitted_again :
    ¬ PaidOnce (submissions (baseDeployment .pending .pending) ()
      [baseIntent]) := by
  intro h
  have hsplit : submissions (baseDeployment .pending .pending) ()
      [baseIntent]
      = [] ++ (submissions (baseDeployment .pending .pending) ()
          [baseIntent])[0]
        :: [(submissions (baseDeployment .pending .pending) ()
          [baseIntent])[1]] := rfl
  exact absurd (h _ _ _ hsplit rfl) (by simp)

end OpenStandards.OpOrchestrator

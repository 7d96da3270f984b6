/-
What one orchestration does: the attempts of its loop.

The loop goes on after soft failures only, and it counts what it has
tried before it tries again. So the attempts of a run are soft failures
up to at most one last attempt that ends it, they are no more than the
configured number, and the run answers an outcome exactly where there is
such a last attempt, with the status that attempt comes to.
-/
import OpenStandards.OpOrchestrator.Engine
import OpenStandards.Lib.Run

namespace OpenStandards.OpOrchestrator

open Lib OpCore

section

variable {ω : Type}

-- ==== computations over a world

theorem bind_apply {α β : Type} (x : StateM ω α) (f : α → StateM ω β)
    (w : ω) : (x >>= f) w = f (x w).1 (x w).2 := rfl

-- ==== the loop

def AttemptOutcome.isSoft : AttemptOutcome → Bool
  | .softFailure _ => true
  | _ => false

/-- What a report says of its attempts: soft failures, and where the
result is an outcome one more attempt that ends the run with its
status. -/
def Conducted (r : Report) : Prop :=
  match r.result with
  | .error _ => ∀ a ∈ r.attempts, a.outcome.isSoft
  | .ok o => ∃ soft last, r.attempts = soft ++ [last]
      ∧ (∀ a ∈ soft, a.outcome.isSoft) ∧ last.outcome.isSoft = false
      ∧ o.terminalStatus = Orchestrator.resumedStatus last.outcome

theorem conducted_exhausted {attempts : List Attempt}
    (hsoft : ∀ a ∈ attempts, a.outcome.isSoft) (closed : Bool) :
    Conducted (Orchestrator.exhausted attempts closed) := by
  unfold Conducted Orchestrator.exhausted
  cases closed with
  | true => exact hsoft
  | false => exact hsoft

theorem conducted_concluded {attempts : List Attempt} {last : Attempt}
    (hsoft : ∀ a ∈ attempts, a.outcome.isSoft)
    (hlast : last.outcome.isSoft = false) {status : TerminalStatus}
    (hstatus : status = Orchestrator.resumedStatus last.outcome)
    (rail : RailKind) (r : AdapterResult) :
    Conducted (Orchestrator.concluded status (attempts ++ [last]) rail r) :=
  ⟨attempts, last, rfl, hsoft, hlast, hstatus⟩

theorem attemptLoop_conducted (o : Orchestrator ω) (intent : PaymentIntent)
    (chain : List RailChoice) :
    ∀ (i : Nat) (attempts : List Attempt) (closed : Bool) (w : ω),
      (∀ a ∈ attempts, a.outcome.isSoft) →
      attempts.length ≤ o.maxAttempts →
      Conducted (o.attemptLoop intent chain i attempts closed w).1
        ∧ (o.attemptLoop intent chain i attempts closed w).1.attempts.length
          ≤ o.maxAttempts := by
  induction chain with
  | nil =>
    intro i attempts closed w hsoft hlen
    exact ⟨conducted_exhausted hsoft closed, hlen⟩
  | cons choice rest ih =>
    intro i attempts closed w hsoft hlen
    unfold Orchestrator.attemptLoop
    by_cases hmax : o.maxAttempts ≤ attempts.length
    · rw [if_pos hmax]
      exact ⟨conducted_exhausted hsoft closed, hlen⟩
    · rw [if_neg hmax]
      simp only [bind_apply]
      split
      · exact ih (i + 1) attempts closed _ hsoft hlen
      · cases o.adapters (choice.rail, choice.driver) with
        | none => exact ih (i + 1) attempts true _ hsoft hlen
        | some adapter =>
          simp only [bind_apply]
          have hlen' (a : Attempt) : (attempts ++ [a]).length ≤ o.maxAttempts := by
            simp only [List.length_append, List.length_singleton]
            omega
          generalize adapter.attempt intent i _ = answer
          obtain ⟨r, w'⟩ := answer
          cases hout : r.outcome with
          | success =>
            exact ⟨conducted_concluded hsoft rfl rfl _ _, hlen' _⟩
          | requiresAction url =>
            exact ⟨conducted_concluded hsoft rfl rfl _ _, hlen' _⟩
          | hardDecline code =>
            exact ⟨conducted_concluded hsoft rfl rfl _ _, hlen' _⟩
          | softFailure code =>
            refine ih (i + 1) _ true _ (fun a ha => ?_) (hlen' _)
            rcases List.mem_append.1 ha with ha | ha
            · exact hsoft a ha
            · rw [List.mem_singleton.1 ha]
              rfl

/-- A run's attempts are within the configured number and end with the
first that is not a soft failure. -/
theorem runInner_conducted (o : Orchestrator ω) (intent : PaymentIntent) (w : ω) :
    Conducted (o.runInner intent w).1
      ∧ (o.runInner intent w).1.attempts.length ≤ o.maxAttempts := by
  have hnone (e : Error) :
      Conducted { attempts := [], result := .error e }
        ∧ ([] : List Attempt).length ≤ o.maxAttempts :=
    ⟨by simp [Conducted], Nat.zero_le _⟩
  unfold Orchestrator.runInner
  rw [bind_apply]
  cases (o.screen intent w).1 with
  | error e => exact hnone e
  | ok u =>
    simp only [bind_apply]
    cases (o.route intent (o.screen intent w).2).1 with
    | error reason => exact hnone (.noEligibleRail reason)
    | ok decision =>
      exact attemptLoop_conducted o intent decision.chain 0 [] false _ (by simp) (Nat.zero_le _)

theorem Conducted.nothing_after {r : Report} (h : Conducted r)
    {before after : List Attempt} {a : Attempt} (hsplit : r.attempts = before ++ a :: after)
    (ha : a.outcome.isSoft = false) : after = [] := by
  unfold Conducted at h
  cases hres : r.result with
  | error e =>
    rw [hres] at h
    have hsoft := h a (by rw [hsplit]; simp)
    rw [ha] at hsoft
    cases hsoft
  | ok o =>
    rw [hres] at h
    obtain ⟨soft, last, hmade, hsoft, -, -⟩ := h
    by_contra hafter
    have hmem : a ∈ soft := by
      rw [hmade] at hsplit
      obtain ⟨after', z, rfl⟩ :=
        List.eq_nil_or_concat after |>.resolve_left hafter
      rw [List.concat_eq_append, ← List.cons_append, ← List.append_assoc] at hsplit
      rw [(List.append_inj' hsplit rfl).1]
      simp
    have := hsoft a hmem
    rw [ha] at this
    cases this

end

/-
Runs and resumptions under one idempotency key.

Between calls a key is free or holds a finished record: `run` commits or
releases before it returns, `resume` commits. A record is made by one
call, the holder, and keeps its signature for good: that of the holder's
body where the holder is a run, the empty one where it is a resumption
that found the key free. So a run on a held key makes no attempt, and
answers the cached outcome or a mismatch by comparing signatures. Two bodies
can have one signature, and no body has the empty one.
-/

variable {ω : Type}

-- ==== bodies

/-- What must not change when a key is used again. -/
def PaymentIntent.body (i : PaymentIntent) :
    Money × PaymentMethod × Option String × Option String :=
  (i.amount, i.method, i.hints.customerCountry, i.hints.merchantCountry)

theorem bodySignature_congr {i j : PaymentIntent} (h : i.body = j.body) :
    i.bodySignature = j.bodySignature := by
  simp only [PaymentIntent.body, Prod.mk.injEq] at h
  obtain ⟨hamount, hmethod, hcc, hmc⟩ := h
  unfold PaymentIntent.bodySignature
  rw [hamount, hmethod, hcc, hmc]

theorem bodySignature_ne_empty (i : PaymentIntent) : i.bodySignature ≠ "" := by
  intro h
  -- the last label is part of every signature
  obtain ⟨hfront, -⟩ := String.append_eq_empty_iff.1 h
  obtain ⟨-, hlabel⟩ := String.append_eq_empty_iff.1 hfront
  exact absurd hlabel (by decide)

-- ==== one call on one key

variable {key : IdempotencyKey} {record : IdempotencyRecord}
    {intent : PaymentIntent} {o : Orchestrator ω}

theorem reserve_held {s : InMemoryIdempotencyStore}
    (h : s.lookup key = some record) (sig : String) :
    InMemoryIdempotencyStore.reserve s key sig = (s, some record) := by
  unfold InMemoryIdempotencyStore.reserve
  rw [h]

theorem reserve_free {s : InMemoryIdempotencyStore} (h : s.lookup key = none) (sig : String) :
    InMemoryIdempotencyStore.reserve s key sig
      = (s.insert key { bodySignature := sig, outcome := none }, none) := by
  unfold InMemoryIdempotencyStore.reserve
  rw [h]

theorem run_of_held (o : Orchestrator ω) {s : State ω} {cached : OrchestrationOutcome}
    (h : s.idempotency.lookup intent.idempotencyKey = some record)
    (hout : record.outcome = some cached) :
    o.run s intent = (s, { attempts := []
                           result := if record.bodySignature
                                = intent.bodySignature then .ok cached
                              else .error .idempotencyMismatch }) := by
  unfold Orchestrator.run
  simp only [reserve_held h]
  by_cases hsig : record.bodySignature = intent.bodySignature
  · simp only [hsig, ne_eq, not_true_eq_false, if_false, hout, if_true]
  · simp only [hsig, ne_eq, not_false_eq_true, if_true, if_false]

/-- A run on a free key does what `run_inner` does. -/
theorem run_of_free (o : Orchestrator ω) {s : State ω} {intent : PaymentIntent}
    (h : s.idempotency.lookup intent.idempotencyKey = none) :
    (o.run s intent).2 = (o.runInner intent s.world).1
      ∧ ∀ key, (o.run s intent).1.idempotency.lookup key
          = if key = intent.idempotencyKey then
              match (o.runInner intent s.world).1.result with
              | .ok out => some { bodySignature := intent.bodySignature
                                  outcome := some out }
              | .error _ => none
            else s.idempotency.lookup key := by
  unfold Orchestrator.run
  simp only [reserve_free h]
  generalize o.runInner intent s.world = answer
  obtain ⟨report, world⟩ := answer
  refine ⟨rfl, fun key => ?_⟩
  dsimp only
  cases report.result with
  | ok out =>
    simp only [InMemoryIdempotencyStore.commit, AList.lookup_insert]
    rw [Table.lookup_insert_eq]
    by_cases hkey : key = intent.idempotencyKey
    · rw [if_pos hkey, if_pos hkey]
    · rw [if_neg hkey, if_neg hkey]
      exact AList.lookup_insert_ne hkey
  | error e =>
    simp only [InMemoryIdempotencyStore.release, AList.lookup_insert,
      Option.isNone_none, if_true]
    by_cases hkey : key = intent.idempotencyKey
    · rw [if_pos hkey, hkey]
      exact AList.lookup_erase _ _
    · rw [if_neg hkey, AList.lookup_erase_ne hkey]
      exact AList.lookup_insert_ne hkey

theorem run_frame (o : Orchestrator ω) (s : State ω) (hne : key ≠ intent.idempotencyKey) :
    (o.run s intent).1.idempotency.lookup key = s.idempotency.lookup key := by
  cases hrec : s.idempotency.lookup intent.idempotencyKey with
  | none => rw [(run_of_free o hrec).2 key, if_neg hne]
  | some record =>
    unfold Orchestrator.run
    simp only [reserve_held hrec]
    split
    · rfl
    · split
      · rfl
      · rfl

theorem resume_of_adapter (o : Orchestrator ω) (s : State ω)
    (intent : PaymentIntent) (psp : String) {rail : RailKind}
    {driver : String} {adapter : RailAdapter ω} (h : o.adapters (rail, driver) = some adapter) :
    ∀ key, (o.resume s intent rail driver psp).1.idempotency.lookup key
      = if key = intent.idempotencyKey then
          some { bodySignature :=
                  match s.idempotency.lookup intent.idempotencyKey with
                  | some record => record.bodySignature
                  | none => ""
                 outcome := some (Orchestrator.resumedOutcome rail driver
                  (adapter.resume intent psp s.world).1) }
        else s.idempotency.lookup key := by
  intro key
  unfold Orchestrator.resume
  simp only [h]
  generalize adapter.resume intent psp s.world = answer
  obtain ⟨r, world⟩ := answer
  simp only [InMemoryIdempotencyStore.commit]
  cases s.idempotency.lookup intent.idempotencyKey with
  | none => exact Table.lookup_insert_eq ..
  | some record => exact Table.lookup_insert_eq ..

theorem resume_of_no_adapter (o : Orchestrator ω) {s : State ω}
    {rail : RailKind} {driver psp : String} (h : o.adapters (rail, driver) = none) :
    (o.resume s intent rail driver psp).1 = s := by
  unfold Orchestrator.resume
  simp only [h]

-- ==== the history of one key

/-- What is known of a key from the calls so far: the call that made the
record it holds, and whether some attempt of a run was successful. -/
structure History where
  holder : Option Call
  charged : Bool

abbrev Watched (ω : Type) := State ω × History

def watch (o : Orchestrator ω) (key : IdempotencyKey) (x : Watched ω) (c : Call) : Watched ω :=
  let s' := (o.call x.1 c).1
  let charges := c.isRun && decide (c.key = key)
    && (o.call x.1 c).2.attempts.any fun a => a.outcome = .success
  (s', { holder := match x.1.idempotency.lookup key,
                      s'.idempotency.lookup key with
          | none, some _ => some c
          | some _, some _ => x.2.holder
          | _, none => none
         charged := x.2.charged || charges })

/-- No call yet. -/
def unwatched (w : ω) : Watched ω :=
  ({ idempotency := ∅, world := w }, { holder := none, charged := false })

/-- The key is free and nothing was charged, or it holds a finished record
with the holder's signature. -/
def Held (key : IdempotencyKey) (x : Watched ω) : Prop :=
  match x.1.idempotency.lookup key with
  | none => x.2.holder = none ∧ x.2.charged = false
  | some record => ∃ c out, x.2.holder = some c ∧ record.outcome = some out
      ∧ record.bodySignature = if c.isRun then c.intent.bodySignature else ""

/-- What one call does to the record of a key. -/
inductive Effect (o : Orchestrator ω) (key : IdempotencyKey) (x : Watched ω) (c : Call) : Prop
  | same (hlookup : (o.call x.1 c).1.idempotency.lookup key
        = x.1.idempotency.lookup key)
      (hnone : c.isRun → c.key = key → (o.call x.1 c).2.attempts = [])
  | ran (out : OrchestrationOutcome) (hrun : c.isRun)
      (hfree : x.1.idempotency.lookup key = none)
      (hlookup : (o.call x.1 c).1.idempotency.lookup key
        = some { bodySignature := c.intent.bodySignature
                 outcome := some out })
  | failed (hfree : x.1.idempotency.lookup key = none)
      (hlookup : (o.call x.1 c).1.idempotency.lookup key = none)
      (hsoft : ∀ a ∈ (o.call x.1 c).2.attempts, a.outcome.isSoft)
  | resumed (out : OrchestrationOutcome) (hrun : c.isRun = false)
      (hlookup : (o.call x.1 c).1.idempotency.lookup key
        = some { bodySignature :=
                  match x.1.idempotency.lookup key with
                  | some record => record.bodySignature
                  | none => ""
                 outcome := some out })

theorem call_effect (o : Orchestrator ω) {x : Watched ω} (hheld : Held key x)
    (c : Call) : Effect o key x c := by
  unfold Held at hheld
  cases c with
  | run intent =>
    by_cases hkey : intent.idempotencyKey = key
    · subst hkey
      cases hrec : x.1.idempotency.lookup intent.idempotencyKey with
      | some record =>
        rw [hrec] at hheld
        obtain ⟨c, out, -, hout, -⟩ := hheld
        have hrun := run_of_held o hrec hout
        refine .same ?_ fun _ _ => ?_
        · simp only [Orchestrator.call, hrun]
        · simp only [Orchestrator.call, hrun]
      | none =>
        obtain ⟨hreport, hlookup⟩ := run_of_free o hrec
        have hlookup := hlookup intent.idempotencyKey
        rw [if_pos rfl] at hlookup
        cases hres : (o.runInner intent x.1.world).1.result with
        | ok out =>
          rw [hres] at hlookup
          exact .ran out rfl hrec hlookup
        | error e =>
          rw [hres] at hlookup
          refine .failed hrec hlookup ?_
          have hcond := (runInner_conducted o intent x.1.world).1
          unfold Conducted at hcond
          rw [hres] at hcond
          simp only [Orchestrator.call, hreport]
          exact hcond
    · refine .same ?_ fun _ h => absurd h hkey
      exact run_frame o x.1 (Ne.symm hkey)
  | resume intent rail driver psp =>
    cases hadapter : o.adapters (rail, driver) with
    | none =>
      refine .same ?_ fun h _ => by cases h
      simp only [Orchestrator.call, resume_of_no_adapter o hadapter]
    | some adapter =>
      have hlookup := resume_of_adapter o x.1 intent psp hadapter key
      by_cases hkey : key = intent.idempotencyKey
      · rw [if_pos hkey, ← hkey] at hlookup
        exact .resumed _ rfl hlookup
      · rw [if_neg hkey] at hlookup
        exact .same hlookup fun h _ => by cases h

/-- Every call keeps the record and its history together. -/
theorem Held.watch (o : Orchestrator ω) {x : Watched ω} (h : Held key x)
    (c : Call) : Held key (watch o key x c) := by
  have heffect := call_effect o h c
  unfold Held at h ⊢
  unfold OpOrchestrator.watch
  dsimp only
  cases heffect with
  | same hlookup hnone =>
    have hcharges : (c.isRun && decide (c.key = key)
        && (o.call x.1 c).2.attempts.any fun a => a.outcome = .success)
        = false := by
      by_cases hrun : c.isRun = true ∧ c.key = key
      · rw [hnone hrun.1 hrun.2]
        simp
      · rw [Bool.and_eq_false_iff]
        left
        simpa [Bool.and_eq_true] using hrun
    rw [hcharges, hlookup]
    cases hrec : x.1.idempotency.lookup key with
    | none =>
      rw [hrec] at h
      exact ⟨rfl, by rw [h.2, Bool.or_false]⟩
    | some record =>
      rw [hrec] at h
      exact h
  | ran out hrun hfree hlookup =>
    rw [hlookup, hfree]
    exact ⟨c, out, rfl, rfl, by rw [if_pos hrun]⟩
  | failed hfree hlookup hsoft =>
    rw [hfree] at h
    rw [hlookup, hfree]
    refine ⟨rfl, ?_⟩
    have hnosuccess : ((o.call x.1 c).2.attempts.any
        fun a => a.outcome = .success) = false := by
      rw [List.any_eq_false]
      intro a ha hsucc
      have hs := hsoft a ha
      rw [of_decide_eq_true hsucc] at hs
      cases hs
    rw [h.2, hnosuccess, Bool.and_false, Bool.false_or]
  | resumed out hrun hlookup =>
    rw [hlookup]
    cases hrec : x.1.idempotency.lookup key with
    | none => exact ⟨c, out, rfl, rfl, by simp [hrun]⟩
    | some record =>
      rw [hrec] at h
      obtain ⟨c', out', hholder, -, hsig⟩ := h
      exact ⟨c', out, hholder, rfl, hsig⟩

theorem held_unwatched (key : IdempotencyKey) (w : ω) : Held key (unwatched w) := ⟨rfl, rfl⟩

theorem along_watch_iff {P Q : Watched ω → Call → Prop}
    (hiff : ∀ x c, Held key x → (P x c ↔ Q x c)) (w : ω) (calls : List Call) :
    Along (watch o key) P (unwatched w) calls ↔ Along (watch o key) Q (unwatched w) calls := by
  constructor
  · intro h
    refine along_of_invariant (fun x c hx hP => ?_) (held_unwatched key w) h
    exact ⟨hx.watch o c, (hiff x c hx).1 hP⟩
  · intro h
    refine along_of_invariant (fun x c hx hQ => ?_) (held_unwatched key w) h
    exact ⟨hx.watch o c, (hiff x c hx).2 hQ⟩

-- ==== no double charge

/-- A run does not charge twice: nothing is tried after a successful
attempt, in this run or an earlier one, or beyond the configured number;
another body than the holder's is refused; and a run that fails, unless
it was refused for its body, leaves the key free. -/
structure ChargesOnce (o : Orchestrator ω) (key : IdempotencyKey)
    (x : Watched ω) (intent : PaymentIntent) : Prop where
  once : x.2.charged → (o.run x.1 intent).2.attempts = []
  bounded : (o.run x.1 intent).2.attempts.length ≤ o.maxAttempts
  stops : ∀ before a after,
    (o.run x.1 intent).2.attempts = before ++ a :: after →
    a.outcome.isSoft = false → after = []
  refuses : ∀ c, x.2.holder = some c → c.intent.body ≠ intent.body →
    (o.run x.1 intent).2.result = .error .idempotencyMismatch
      ∧ (o.run x.1 intent).2.attempts = []
  releases : ∀ e, (o.run x.1 intent).2.result = .error e →
    (∃ c, x.2.holder = some c ∧ c.intent.body ≠ intent.body)
      ∨ (o.run x.1 intent).1.idempotency.lookup key = none

def NoDoubleCharge (o : Orchestrator ω) (key : IdempotencyKey)
    (x : Watched ω) (c : Call) : Prop :=
  ∀ intent, c = .run intent → intent.idempotencyKey = key → ChargesOnce o key x intent

/-- The signature tells the body of a run from the holder's: another body
has another signature, and where the holder is a resumption that found
the key free, the body is another. -/
def TellsBody (key : IdempotencyKey) (x : Watched ω) (c : Call) : Prop :=
  ∀ intent, c = .run intent → intent.idempotencyKey = key →
    ∀ holder, x.2.holder = some holder →
      if holder.isRun then
        holder.intent.body ≠ intent.body → holder.intent.bodySignature ≠ intent.bodySignature
      else holder.intent.body ≠ intent.body

theorem chargesOnce_of_free (o : Orchestrator ω) {x : Watched ω}
    (hrec : x.1.idempotency.lookup intent.idempotencyKey = none)
    (hholder : x.2.holder = none) (hcharged : x.2.charged = false) :
    ChargesOnce o intent.idempotencyKey x intent := by
  obtain ⟨hreport, hlookup⟩ := run_of_free o hrec
  obtain ⟨hcond, hlen⟩ := runInner_conducted o intent x.1.world
  refine ⟨?_, ?_, ?_, ?_, ?_⟩
  · simp [hcharged]
  · rw [hreport]
    exact hlen
  · rw [hreport]
    exact fun before a after => hcond.nothing_after
  · simp [hholder]
  · intro e he
    right
    rw [hreport] at he
    rw [hlookup, if_pos rfl, he]

/-- On a held key a run charges once exactly where the comparison of the
signatures is one of the bodies. -/
theorem chargesOnce_of_held (o : Orchestrator ω) {x : Watched ω}
    {holder : Call} {cached : OrchestrationOutcome}
    (hrec : x.1.idempotency.lookup intent.idempotencyKey = some record)
    (hholder : x.2.holder = some holder) (hout : record.outcome = some cached) :
    ChargesOnce o intent.idempotencyKey x intent
      ↔ (holder.intent.body ≠ intent.body ↔ record.bodySignature ≠ intent.bodySignature) := by
  have hrun := run_of_held o hrec hout
  constructor
  · intro h
    constructor
    · intro hbody hsig
      have hres := (h.refuses holder hholder hbody).1
      rw [hrun] at hres
      simp [hsig] at hres
    · intro hsig
      have hres : (o.run x.1 intent).2.result = .error .idempotencyMismatch := by
        rw [hrun]
        simp [hsig]
      rcases h.releases _ hres with ⟨c, hc, hbody⟩ | hfree
      · rw [hholder] at hc
        cases hc
        exact hbody
      · rw [hrun, hrec] at hfree
        cases hfree
  · intro hiff
    refine ⟨?_, ?_, ?_, ?_, ?_⟩
    · simp [hrun]
    · simp [hrun]
    · simp [hrun]
    · intro c hc hbody
      rw [hholder] at hc
      cases hc
      simp [hrun, hiff.1 hbody]
    · intro e he
      left
      refine ⟨holder, hholder, hiff.2 fun hsig => ?_⟩
      simp [hrun, hsig] at he

/-- The comparison of the signatures is one of the bodies exactly where
the signature tells the body. -/
theorem tells_iff {holder : Call} {sig : String}
    (hsig : sig = if holder.isRun then holder.intent.bodySignature else "") :
    (holder.intent.body ≠ intent.body ↔ sig ≠ intent.bodySignature)
      ↔ (if holder.isRun then
          holder.intent.body ≠ intent.body → holder.intent.bodySignature ≠ intent.bodySignature
        else holder.intent.body ≠ intent.body) := by
  by_cases hrun : holder.isRun
  · rw [if_pos hrun] at hsig ⊢
    subst hsig
    refine ⟨fun h => h.1, fun h => ⟨h, fun hne hbody => ?_⟩⟩
    exact hne (bodySignature_congr hbody)
  · rw [if_neg hrun] at hsig ⊢
    subst hsig
    have hne := (bodySignature_ne_empty intent).symm
    simp [hne]

theorem noDoubleCharge_iff {x : Watched ω} (c : Call) (hheld : Held key x) :
    NoDoubleCharge o key x c ↔ TellsBody key x c := by
  unfold NoDoubleCharge TellsBody
  refine forall_congr' fun intent => forall_congr' fun _ =>
    forall_congr' fun hkey => ?_
  subst hkey
  unfold Held at hheld
  cases hrec : x.1.idempotency.lookup intent.idempotencyKey with
  | none =>
    rw [hrec] at hheld
    refine iff_of_true (chargesOnce_of_free o hrec hheld.1 hheld.2) ?_
    simp [hheld.1]
  | some record =>
    rw [hrec] at hheld
    obtain ⟨holder, cached, hholder, hout, hsig⟩ := hheld
    rw [chargesOnce_of_held o hrec hholder hout, tells_iff hsig]
    simp only [hholder, Option.some.injEq, forall_eq']

/-- **When no key is charged twice.** For every orchestrator, with its
router, drivers, breaker and clock answering arbitrarily, every sequence
of runs and resumptions and every key: every run under the key makes no
attempt after some run's successful one, at most the configured number
and none after the first that is not a soft failure, is refused where its
body is not the holder's, and frees the key where it fails, if and only
if the signature tells every run's body from the holder's. -/
theorem no_double_charge_iff (o : Orchestrator ω) (key : IdempotencyKey)
    (w : ω) (calls : List Call) :
    Along (watch o key) (NoDoubleCharge o key) (unwatched w) calls
      ↔ Along (watch o key) (TellsBody key) (unwatched w) calls :=
  along_watch_iff (fun _ c hheld => noDoubleCharge_iff c hheld) w calls

def cardOrchestrator (attempted resumed : AttemptOutcome) : Orchestrator Unit :=
  { maxAttempts := 3
    route := fun _ => pure (.ok { chain := [⟨.card, "hyperswitch"⟩] })
    adapters := fun pair =>
      if pair = (.card, "hyperswitch") then
        some { attempt := fun _ _ => pure ⟨attempted, some "pay_1", none⟩
               resume := fun _ _ => pure ⟨resumed, some "pay_1", none⟩ }
      else none
    breaker := { allow := fun _ _ _ => pure true
                 recordSuccess := fun _ _ => pure ()
                 recordFailure := fun _ _ _ => pure () }
    screen := fun _ => pure (.ok ())
    recordAttempt := fun _ _ _ _ _ => pure ()
    now := pure 1000 }

def walletIntent (token : List UInt8) : PaymentIntent :=
  { idempotencyKey := ⟨"key-1"⟩
    amount := Money.fromMinor 1000 .USD
    method := .wallet ⟨token⟩ }

/-- A run with another wallet token under the key of an approved payment
is answered with that approval instead of a mismatch. -/
theorem other_wallet_not_refused :
    ¬ Along (watch (cardOrchestrator .success .success) ⟨"key-1"⟩)
      (NoDoubleCharge (cardOrchestrator .success .success) ⟨"key-1"⟩)
      (unwatched ())
      [.run (walletIntent [1]), .run (walletIntent [2])] := by
  intro h
  have htells := (noDoubleCharge_iff (.run (walletIntent [2]))
    ((held_unwatched _ ()).watch _ (.run (walletIntent [1])))).1 h.2.1
  exact htells (walletIntent [2]) rfl rfl (.run (walletIntent [1])) rfl (by decide) rfl

-- ==== approval is final

/-- Once the outcome cached for the key is an approval it stays one, and a
run with the holder's body answers it. -/
def ApprovalFinal (o : Orchestrator ω) (key : IdempotencyKey) (x : Watched ω) (c : Call) : Prop :=
  ∀ record out, x.1.idempotency.lookup key = some record →
    record.outcome = some out → out.isApproved →
    (∃ record' out',
      (o.call x.1 c).1.idempotency.lookup key = some record'
        ∧ record'.outcome = some out' ∧ out'.isApproved)
    ∧ ∀ intent holder, c = .run intent → intent.idempotencyKey = key →
        x.2.holder = some holder → holder.intent.body = intent.body →
        (o.run x.1 intent).2.result = .ok out

/-- While the outcome cached for the key is an approval: a resumption that
reaches its driver is answered with success, and a run does not have the
body of a resumption that found the key free. -/
def KeepsApproval (o : Orchestrator ω) (key : IdempotencyKey) (x : Watched ω) (c : Call) : Prop :=
  ∀ record out, x.1.idempotency.lookup key = some record →
    record.outcome = some out → out.isApproved →
    match c with
    | .run intent => intent.idempotencyKey = key →
        ∀ holder, x.2.holder = some holder → holder.isRun = false →
          holder.intent.body ≠ intent.body
    | .resume intent rail driver psp => intent.idempotencyKey = key →
        ∀ adapter, o.adapters (rail, driver) = some adapter →
          (adapter.resume intent psp x.1.world).1.outcome = .success

theorem resumedStatus_eq_approved {a : AttemptOutcome} :
    Orchestrator.resumedStatus a = .approved ↔ a = .success := by
  cases a <;> simp [Orchestrator.resumedStatus]

/-- A run on an approved key keeps the approval, and answers it to the
holder's body exactly where the holder is not a resumption. -/
theorem approvalFinal_run_iff {x : Watched ω} (intent : PaymentIntent) (hheld : Held key x) :
    ApprovalFinal o key x (.run intent) ↔ KeepsApproval o key x (.run intent) := by
  unfold ApprovalFinal KeepsApproval
  refine forall_congr' fun record => forall_congr' fun out =>
    forall_congr' fun hrec => forall_congr' fun hout =>
    forall_congr' fun happ => ?_
  unfold Held at hheld
  rw [hrec] at hheld
  obtain ⟨holder, -, hholder, -, hsig⟩ := hheld
  by_cases hkey : intent.idempotencyKey = key
  · subst hkey
    have hrun := run_of_held o hrec hout
    have hkept : ∃ record' out',
        (o.call x.1 (.run intent)).1.idempotency.lookup intent.idempotencyKey = some record'
          ∧ record'.outcome = some out' ∧ out'.isApproved := by
      refine ⟨record, out, ?_, hout, happ⟩
      simp only [Orchestrator.call, hrun, hrec]
    constructor
    · rintro ⟨-, h⟩ _ c hc hnot hbody
      rw [hholder] at hc
      cases hc
      have hres := h intent holder rfl rfl hholder hbody
      rw [if_neg (by simp [hnot])] at hsig
      rw [hrun, hsig] at hres
      simp [(bodySignature_ne_empty intent).symm] at hres
    · intro h
      refine ⟨hkept, fun intent' c hc _ hc' hbody => ?_⟩
      cases hc
      rw [hholder] at hc'
      cases hc'
      have hrunner : holder.isRun = true := by
        by_contra hnot
        exact h rfl holder hholder (by simpa using hnot) hbody
      rw [if_pos hrunner, bodySignature_congr hbody] at hsig
      rw [hrun, if_pos hsig]
  · refine iff_of_true ⟨⟨record, out, ?_, hout, happ⟩, ?_⟩ ?_
    · exact (run_frame o x.1 (Ne.symm hkey)).trans hrec
    · intro intent' c hc hkey'
      cases hc
      exact absurd hkey' hkey
    · exact fun hkey' => absurd hkey' hkey

/-- A resumption keeps an approval exactly where it does not reach a
driver that answers otherwise. -/
theorem approvalFinal_resume_iff {x : Watched ω} (intent : PaymentIntent)
    (rail : RailKind) (driver psp : String) :
    ApprovalFinal o key x (.resume intent rail driver psp)
      ↔ KeepsApproval o key x (.resume intent rail driver psp) := by
  unfold ApprovalFinal KeepsApproval
  refine forall_congr' fun record => forall_congr' fun out =>
    forall_congr' fun hrec => forall_congr' fun hout =>
    forall_congr' fun happ => ?_
  simp only [reduceCtorEq, false_implies, implies_true, and_true, Orchestrator.call]
  cases hadapter : o.adapters (rail, driver) with
  | none =>
    refine iff_of_true ⟨record, out, ?_, hout, happ⟩ (by simp)
    rw [resume_of_no_adapter o hadapter, hrec]
  | some adapter =>
    rw [resume_of_adapter o x.1 intent psp hadapter key]
    by_cases hkey : key = intent.idempotencyKey
    · rw [if_pos hkey]
      simp [hkey, Orchestrator.resumedOutcome,
        OrchestrationOutcome.isApproved, resumedStatus_eq_approved]
    · rw [if_neg hkey]
      refine iff_of_true ⟨record, out, hrec, hout, happ⟩ ?_
      exact fun hkey' => absurd hkey'.symm hkey

/-- **When an approval is final.** For every orchestrator, with its
drivers answering arbitrarily, every sequence of runs and resumptions and
every key: once the cached outcome is an approval it stays one and is the
answer to every run with the holder's body, if and only if no resumption
that reaches its driver on an approved key is answered otherwise than
with success, and no run has the body of a resumption that found the key
free and was approved. -/
theorem approval_final_iff (o : Orchestrator ω) (key : IdempotencyKey)
    (w : ω) (calls : List Call) :
    Along (watch o key) (ApprovalFinal o key) (unwatched w) calls
      ↔ Along (watch o key) (KeepsApproval o key) (unwatched w) calls := by
  refine along_watch_iff (fun x c hheld => ?_) w calls
  cases c with
  | run intent => exact approvalFinal_run_iff intent hheld
  | resume intent rail driver psp =>
    exact approvalFinal_resume_iff intent rail driver psp

/-- A late resumption that fails softly turns the approval into a
decline. -/
theorem late_resume_declines :
    ¬ Along (watch (cardOrchestrator .success (.softFailure "timeout"))
        ⟨"key-1"⟩)
      (ApprovalFinal (cardOrchestrator .success (.softFailure "timeout"))
        ⟨"key-1"⟩)
      (unwatched ())
      [.run (walletIntent [1]), .resume (walletIntent [1]) .card "hyperswitch" "pay_1"] := by
  intro h
  have hkeeps := (approvalFinal_resume_iff (walletIntent [1]) .card
    "hyperswitch" "pay_1").1 h.2.1
  have hsoft := hkeeps _ _ rfl rfl rfl rfl _ rfl
  cases hsoft

end OpenStandards.OpOrchestrator

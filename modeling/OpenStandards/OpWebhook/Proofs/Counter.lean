/-
The failure counter under interleaving.

A delivery completes with the first write to the store that its thread
makes after the answer, or, where it made no request, with the attempt it
records. A thread reads an endpoint as a whole, sends its request, and
writes the counter back as one more than it read. So the counter is exact
as long as, at every write of a failure, it still is what the thread had
read and no success is waiting to reset it (`Unraced`).

What a thread has read and been told so far is read off the log (`View`),
and `View.Proper` says which operation may come next on it; the pool's
invariant then needs one step lemma for all threads.
-/
import OpenStandards.OpWebhook.Proofs.Solo

namespace OpenStandards.OpWebhook

open Lib
open OpLedger (Uuid)

-- ==== the views

/-- A 2xx answer. -/
def isSuccess : Except String HttpResponse → Bool
  | .ok resp => 200 ≤ resp.status && resp.status < 300
  | .error _ => false

/-- What a thread has to do next: disable an endpoint whose threshold it
reached, or reset the counter after a success. -/
inductive Debt where
  | disable (id : Uuid)
  | reset (id : Uuid)
deriving DecidableEq

/-- What a thread knows: the counters as it last read them, the attempt id
it has drawn for a delivery without an answer so far, the endpoint that
answered and whether with a success, as long as the thread has written
nothing since, and what it owes. -/
structure View where
  seen : Uuid → Option UInt32
  drawn : Option Uuid
  answer : Option (Uuid × Bool)
  owing : Option Debt

namespace View

def start : View := ⟨fun _ => none, none, none, none⟩

/-- Between two deliveries. -/
structure Idle (v : View) : Prop where
  owing : v.owing = none
  answer : v.answer = none
  drawn : v.drawn = none

/-- The endpoint has answered, and nothing is written yet. -/
structure Answered (v : View) (id : Uuid) (ok : Bool) : Prop where
  owing : v.owing = none
  answer : v.answer = some (id, ok)
  drawn : v.drawn = none

/-- The delivery an operation completes, with the endpoint and whether it
succeeded. -/
def completes (v : View) : Op → Option (Uuid × Bool)
  | .setEndpointConsecutiveFailures _ _ => v.answer
  | .setEndpointStatus _ _ => v.answer
  | .putAttempt a => v.answer.or
      (if v.drawn = some a.id then some (a.endpointId, false) else none)
  | _ => none

def read (v : View) (endpoints : List Endpoint) : View :=
  { v with seen := fun id =>
      ((endpoints.find? fun e => decide (e.id = id)).map
        Endpoint.consecutiveFailures).or (v.seen id) }

def after (d : Dispatcher) (v : View) : (op : Op) → Reply op → View
  | .newAttemptId, id => { v with drawn := some id }
  | .send _ id _, r =>
    { v with drawn := none, answer := some (id, isSuccess r) }
  | .listActiveEndpointsFor _, r => v.read r
  | .getEndpoint _, r => v.read r.toOption.toList
  | .setEndpointConsecutiveFailures id failures, _ =>
    { v with
      answer := none
      owing := if v.answer = some (id, false) ∧ d.disableAfterConsecutiveFailures ≤ failures
        then some (.disable id) else none }
  | .setEndpointStatus _ _, _ => { v with answer := none, owing := none }
  | .putAttempt _, _ =>
    { v with
      drawn := none, answer := none
      owing := match v.answer with
        | some (id, true) => some (.reset id)
        | _ => none }
  | _, _ => v

def Proper (op : Op) (v : View) : Prop :=
  match op with
  | .setEndpointConsecutiveFailures id failures =>
    (v.owing = some (.reset id) ∧ v.answer = none ∧ failures = 0)
    ∨ (v.Answered id false ∧ ∃ c, v.seen id = some c ∧ failures = nextFailures c)
  | .setEndpointStatus id status => v.owing = some (.disable id)
    ∧ v.answer = none ∧ status = .autoDisabled
  | .putAttempt a => v.owing = none
    ∧ (v.completes (.putAttempt a) = none ∨ ∃ id, v.answer = some (id, true))
  | _ => v.owing = none

/-- Endpoints are listed once, and those that are not blocking can sign. -/
def Plausible : (op : Op) → Reply op → Prop
  | .listActiveEndpointsFor _, r => (r.map Endpoint.id).Nodup
    ∧ ∀ e ∈ r, e.status.isBlocking = false → e.signs = true
  | .getEndpoint _, r => ∀ e ∈ r.toOption,
    e.status.isBlocking = false → e.signs = true
  | _, _ => True

theorem idle_start : start.Idle := ⟨rfl, rfl, rfl⟩

theorem Idle.proper_put {v : View} (h : v.Idle) (a : DeliveryAttempt) :
    v.Proper (.putAttempt a) := by
  refine ⟨h.owing, .inl ?_⟩
  unfold completes
  rw [h.answer, h.drawn]
  rfl

end View

abbrev Goes (d : Dispatcher) {α : Type} : Program α → (α → View → Prop) → View → Prop :=
  Prog.Safe Eq View.Proper
    fun op v r v' => View.Plausible op r ∧ v' = v.after d op r

section
variable {d : Dispatcher} {α : Type} {v : View}

theorem goes_perform (op : Op) {f : Reply op → Program α}
    {post : α → View → Prop} (hop : v.Proper op)
    (h : ∀ r, View.Plausible op r → Goes d (f r) post (v.after d op r)) :
    Goes d (Prog.perform op >>= f) post v := by
  apply Prog.Safe.perform
  intro v₁ hv
  subst hv
  refine ⟨hop, fun r v' hact => ?_⟩
  rw [hact.2]
  exact h r hact.1

theorem goes_ret {a : α} {post : α → View → Prop} (h : post a v) : Goes d (.ret a) post v := by
  intro v' hv
  subst hv
  exact h

variable {endpoint : Endpoint}

/-- After a failed request, with the counter the thread has read. -/
theorem goes_bump (h : v.Answered endpoint.id false)
    (hseen : v.seen endpoint.id = some endpoint.consecutiveFailures) :
    Goes d (bumpConsecutiveFailures d endpoint) (fun _ v' => v'.Idle ∧ v'.seen = v.seen) v := by
  unfold bumpConsecutiveFailures
  apply goes_perform
  · exact .inr ⟨h, _, hseen, rfl⟩
  intro _ _
  split
  case isTrue hreached =>
    apply goes_perform
    · exact ⟨if_pos ⟨h.answer, hreached⟩, rfl, rfl⟩
    intro _ _
    exact goes_ret ⟨⟨rfl, rfl, h.drawn⟩, rfl⟩
  case isFalse hbelow =>
    exact goes_ret ⟨⟨if_neg fun hr => hbelow hr.2, rfl, h.drawn⟩, rfl⟩

theorem goes_classify {attempt : DeliveryAttempt} {status : Option UInt16}
    {transportErr : Option String} {elapsed now : UInt64} (h : v.Answered endpoint.id false)
    (hseen : v.seen endpoint.id = some endpoint.consecutiveFailures) :
    Goes d (classifyNonSuccess d endpoint attempt status transportErr elapsed
      now) (fun _ v' => v'.Idle ∧ v'.seen = v.seen) v := by
  -- the counter, then the attempt
  have hrest : ∀ (a : DeliveryAttempt) (outcome : DispatchOutcome),
      Goes d (do
        bumpConsecutiveFailures d endpoint
        Do.putAttempt a
        return outcome)
        (fun _ v' => v'.Idle ∧ v'.seen = v.seen) v := by
    intro a outcome
    refine (goes_bump h hseen).bind (fun _ => rfl) ?_
    intro _ v₁ h₁
    apply goes_perform
    · exact h₁.1.proper_put a
    intro _ _
    refine goes_ret ⟨⟨?_, rfl, rfl⟩, h₁.2⟩
    simp only [View.after, h₁.1.answer]
  unfold classifyNonSuccess
  split
  · exact hrest _ _
  · apply goes_perform
    · exact h.owing
    intro r _
    cases r with
    | some delay => exact hrest _ _
    | none => exact hrest _ _

/-- A delivery with the counter the thread has read, and a secret if it is
made. -/
theorem goes_dispatchSingle {event : WebhookEvent} {number : UInt32} (h : v.Idle)
    (hseen : v.seen endpoint.id = some endpoint.consecutiveFailures)
    (hsigns : endpoint.status.isBlocking = false → endpoint.signs = true) :
    Goes d (dispatchSingle d event endpoint number)
      (fun _ v' => v'.Idle ∧ v'.seen = v.seen) v := by
  unfold dispatchSingle
  split
  case isTrue => exact goes_ret ⟨h, rfl⟩
  case isFalse hopen =>
  have hsecret : endpoint.secret.isEmpty = false := by
    simpa [Endpoint.signs] using hsigns (Bool.eq_false_iff.2 hopen)
  apply goes_perform
  · exact h.owing
  intro now _
  apply goes_perform
  · exact h.owing
  intro id _
  unfold computeSignature
  rw [hsecret]
  apply goes_perform
  · exact h.owing
  intro r _
  cases r with
  | error msg =>
    refine (goes_classify ?_ ?_).mono fun _ _ h => h
    · exact ⟨h.owing, rfl, rfl⟩
    · exact hseen
  | ok resp =>
    simp only
    split
    case isTrue hstatus =>
      have hanswer : isSuccess (.ok resp) = true := by
        simp [isSuccess, hstatus]
      apply goes_perform
      · exact ⟨h.owing, .inr ⟨endpoint.id, by simp [View.after, hanswer]⟩⟩
      intro _ _
      apply goes_perform
      · exact .inl ⟨by simp [View.after, hanswer], rfl, rfl⟩
      intro _ _
      exact goes_ret ⟨⟨by simp [View.after], rfl, rfl⟩, rfl⟩
    case isFalse hstatus =>
      have hanswer : isSuccess (.ok resp) = false := by
        rw [← Bool.not_eq_true]
        simpa [isSuccess] using hstatus
      refine (goes_classify ?_ ?_).mono fun _ _ h => h
      · exact ⟨h.owing, by simp [View.after, hanswer], rfl⟩
      · exact hseen

theorem View.seen_read {endpoints : List Endpoint} {e : Endpoint}
    (hnodup : (endpoints.map Endpoint.id).Nodup) (he : e ∈ endpoints) :
    (v.read endpoints).seen e.id = some e.consecutiveFailures := by
  have hfind : (endpoints.find? fun e' => decide (e'.id = e.id)) = some e := by
    induction endpoints with
    | nil => cases he
    | cons e' endpoints ih =>
      rw [List.map_cons, List.nodup_cons] at hnodup
      rcases List.mem_cons.1 he with rfl | he
      · exact List.find?_cons_of_pos (by simp)
      · rw [List.find?_cons_of_neg, ih hnodup.2 he]
        intro heq
        rw [decide_eq_true_eq] at heq
        exact hnodup.1 (heq ▸ List.mem_map_of_mem he)
  show (((endpoints.find? _).map Endpoint.consecutiveFailures).or _) = _
  rw [hfind]
  rfl

theorem View.seen_got (v : View) (e : Endpoint) :
    (v.read [e]).seen e.id = some e.consecutiveFailures :=
  View.seen_read (List.nodup_singleton e.id) (List.mem_singleton.2 rfl)

theorem goes_dispatch {event : WebhookEvent} (h : v.Idle) :
    Goes d (dispatch d event) (fun _ => View.Idle) v := by
  apply goes_perform
  · exact h.owing
  intro _ _
  apply goes_perform
  · exact h.owing
  intro items hitems
  -- the endpoints to come, with the counters as they were read
  have hstable : ∀ (items : List Endpoint) (v v' : View),
      (v.Idle ∧ ∀ e ∈ items, v.seen e.id = some e.consecutiveFailures
        ∧ (e.status.isBlocking = false → e.signs = true)) → v = v' →
      (v'.Idle ∧ ∀ e ∈ items, v'.seen e.id = some e.consecutiveFailures
        ∧ (e.status.isBlocking = false → e.signs = true)) :=
    fun _ _ _ h heq => heq ▸ h
  refine (Prog.Safe.each (fun _ => rfl) hstable ?_ ?_).bind (fun _ => rfl) ?_
  · intro e items v₁ h
    have he := h.2 e List.mem_cons_self
    refine (goes_dispatchSingle h.1 he.1 he.2).mono ?_
    intro _ v₂ h₂
    refine ⟨h₂.1, fun e' he' => ?_⟩
    rw [h₂.2]
    exact h.2 e' (List.mem_cons_of_mem _ he')
  · exact ⟨⟨h.owing, h.answer, h.drawn⟩,
      fun e he => ⟨View.seen_read hitems.1 he, hitems.2 e he⟩⟩
  · intro _ v₁ h
    exact goes_ret h.1

theorem goes_replay {eventId endpointId : Uuid} (h : v.Idle) :
    Goes d (replay d eventId endpointId) (fun _ => View.Idle) v := by
  apply goes_perform
  · exact h.owing
  intro r _
  cases r with
  | error e => exact goes_ret h
  | ok event =>
    apply goes_perform
    · exact h.owing
    intro r hr
    cases r with
    | error e => exact goes_ret ⟨h.owing, h.answer, h.drawn⟩
    | ok endpoint =>
      apply goes_perform
      · exact h.owing
      intro existing _
      refine (goes_dispatchSingle ?_ ?_ ?_).bind (fun _ => rfl) ?_
      · exact ⟨h.owing, h.answer, h.drawn⟩
      · exact v.seen_got endpoint
      · exact hr endpoint rfl
      · intro _ v₁ h₁
        exact goes_ret h₁.1

theorem goes_retryEach {now : UInt64} {due : List DeliveryAttempt} (h : v.Idle) :
    Goes d (retryEach d now due) (fun _ => View.Idle) v := by
  induction due generalizing v with
  | nil => exact goes_ret h
  | cons a due ih =>
    apply goes_perform
    · exact h.owing
    intro r _
    cases r with
    | error e => exact goes_ret h
    | ok event =>
      apply goes_perform
      · exact h.owing
      intro r hr
      cases r with
      | error e => exact ih ⟨h.owing, h.answer, h.drawn⟩
      | ok endpoint =>
        -- the attempt retired is no attempt of this thread's
        have hread : (v.read [endpoint]).Idle := ⟨h.owing, h.answer, h.drawn⟩
        apply goes_perform
        · exact hread.proper_put _
        intro _ _
        refine (goes_dispatchSingle ?_ ?_ ?_).bind (fun _ => rfl) ?_
        · refine ⟨?_, rfl, rfl⟩
          show (match v.answer with | some (id, true) => _ | _ => none) = none
          rw [h.answer]
        · exact v.seen_got endpoint
        · exact hr endpoint rfl
        · intro _ v₁ h₁
          refine (ih h₁.1).bind (fun _ => rfl) fun _ v₂ h₂ => ?_
          exact goes_ret h₂

theorem goes_call (call : Call) (h : v.Idle) :
    Goes d (call.program d) (fun _ => View.Idle) v := by
  cases call with
  | dispatch event => exact goes_dispatch h
  | replay eventId endpointId => exact goes_replay h
  | processDueRetries =>
    apply goes_perform
    · exact h.owing
    intro now _
    apply goes_perform
    · exact h.owing
    intro due _
    exact goes_retryEach h

end

-- ==== the pool

/-- What thread `i` knows. -/
def view (d : Dispatcher) (i : Nat) : List Performed → View
  | [] => .start
  | p :: log =>
    if p.thread = i then (view d i log).after d p.op p.reply
    else view d i log

/-- The number of failures after a delivery has completed. -/
def tally (completed : Option (Uuid × Bool)) (id : Uuid) (n : Nat) : Nat :=
  match completed with
  | some (id', ok) => if id' = id then (if ok then 0 else n + 1) else n
  | none => n

/-- The completed deliveries to an endpoint that failed, since the last one
that succeeded. -/
def failuresSince (d : Dispatcher) (id : Uuid) : List Performed → Nat
  | [] => 0
  | p :: log =>
    tally ((view d p.thread log).completes p.op) id (failuresSince d id log)

def Thread.Goes (d : Dispatcher) (v : View) : Option Thread → Prop
  | some (some (_, p)) => OpWebhook.Goes d p (fun _ => View.Idle) v
  | _ => v.Idle

def Owed (d : Dispatcher) (log : List Performed) (debt : Debt) : Prop :=
  ∃ i, (view d i log).owing = some debt

/-- Every counter is the number of failures, or a success is to reset it;
and where it reaches the threshold the endpoint is disabled, or to be. -/
structure Counted (d : Dispatcher) (w : World) : Prop where
  reset : ∀ id e, w.store.endpoints.lookup id = some e →
    Owed d w.log (.reset id) → failuresSince d id w.log = 0
  count : ∀ id e, w.store.endpoints.lookup id = some e →
    ¬ Owed d w.log (.reset id) →
    e.consecutiveFailures.toNat = failuresSince d id w.log
  disabled : ∀ id e, w.store.endpoints.lookup id = some e →
    d.disableAfterConsecutiveFailures.toNat ≤ failuresSince d id w.log →
    e.status = .autoDisabled ∨ Owed d w.log (.disable id)

structure Pool (d : Dispatcher) (sys : System) : Prop where
  keyed : sys.world.store.Keyed
  threads : ∀ i, Thread.Goes d (view d i sys.world.log) sys.threads[i]?
  counted : Counted d sys.world

-- ==== the condition

/-- The thread's next operation pays the debt. -/
def Thread.pays : Debt → Thread → Bool
  | .reset id, some (_, .call (.setEndpointConsecutiveFailures id' n) _) =>
    id' = id && n = 0
  | .disable id, some (_, .call (.setEndpointStatus id' status) _) =>
    id' = id && status = .autoDisabled
  | _, _ => false

def Store.counting (s : Store) : Op → Option Endpoint
  | .setEndpointConsecutiveFailures id _ => s.endpoints.lookup id
  | _ => none

/-- At a write of a failure the counter still is what the thread read, is
not at its maximum, and no thread is about to reset it; and an endpoint that
is read and not blocking has a secret. -/
def Unraced (d : Dispatcher) (i : Nat) (op : Op) (sys : System) : Prop :=
  ((view d i sys.world.log).answer.isSome = true →
    ∀ e ∈ sys.world.store.counting op,
      (view d i sys.world.log).seen e.id = some e.consecutiveFailures
      ∧ e.consecutiveFailures.toNat + 1 < 2 ^ 32
      ∧ ∀ t ∈ sys.threads, Thread.pays (.reset e.id) t = false)
  ∧ ∀ e ∈ sys.world.store.reading op, e.status.isBlocking = false → e.signs = true

instance (d : Dispatcher) (i : Nat) (op : Op) (sys : System) : Decidable (Unraced d i op sys) :=
  inferInstanceAs (Decidable
    ((_ → ∀ e ∈ sys.world.store.counting op, _) ∧ ∀ e ∈ sys.world.store.reading op, _))

-- ==== one operation

section
variable {d : Dispatcher} {i : Nat} {op : Op} {w w' : World} {r : Reply op}
  {debt : Debt}

/-- Only the thread that performs learns. -/
theorem view_act (hact : World.Act i op w r w') (j : Nat) :
    view d j w'.log = if i = j then (view d i w.log).after d op r else view d j w.log := by
  rw [hact.2]
  show (if i = j then (view d j w.log).after d op r else _) = _
  split
  case isTrue heq => rw [heq]
  case isFalse => rfl

theorem failuresSince_act (hact : World.Act i op w r w') (id : Uuid) :
    failuresSince d id w'.log
      = tally ((view d i w.log).completes op) id (failuresSince d id w.log) := by
  rw [hact.2]
  rfl

/-- What a thread owes it owes until it performs. -/
theorem owed_act (hact : World.Act i op w r w') (howing : (view d i w.log).owing ≠ some debt)
    (h : Owed d w.log debt) : Owed d w'.log debt := by
  rcases h with ⟨j, hj⟩
  refine ⟨j, ?_⟩
  rw [view_act hact, if_neg]
  · exact hj
  · intro heq
    rw [← heq] at hj
    exact howing hj

theorem owed_new (hact : World.Act i op w r w') (h : Owed d w'.log debt) :
    ((view d i w.log).after d op r).owing = some debt ∨ Owed d w.log debt := by
  rcases h with ⟨j, hj⟩
  rw [view_act hact] at hj
  split at hj
  · exact .inl hj
  · exact .inr ⟨j, hj⟩

/-- An operation that leaves the endpoints and completes no delivery. -/
theorem Counted.quiet (h : Counted d w) (hact : World.Act i op w r w')
    (hstore : w'.store.endpoints = w.store.endpoints)
    (hcompletes : (view d i w.log).completes op = none) (howing : (view d i w.log).owing = none)
    (hafter : ((view d i w.log).after d op r).owing = none) :
    Counted d w' := by
  have hlog : ∀ id, failuresSince d id w'.log = failuresSince d id w.log := by
    intro id
    rw [failuresSince_act hact, hcompletes]
    rfl
  have howed : ∀ debt, Owed d w'.log debt ↔ Owed d w.log debt := by
    intro debt
    refine ⟨fun h => (owed_new hact h).resolve_left ?_, owed_act hact ?_⟩
    · rw [hafter]
      nofun
    · rw [howing]
      nofun
  refine ⟨?_, ?_, ?_⟩
  all_goals
    intro id e he
    rw [hstore] at he
    rw [hlog, howed]
  · exact h.reset id e he
  · exact h.count id e he
  · exact h.disabled id e he

end

section
variable {d : Dispatcher} {i : Nat} {w w' : World} {id : Uuid}

theorem Counted.disable {status : EndpointStatus} {r : Except Error Unit}
    (h : Counted d w) (hact : World.Act i (.setEndpointStatus id status) w r w')
    (hproper : (view d i w.log).Proper (.setEndpointStatus id status)) :
    Counted d w' := by
  rcases hproper with ⟨howing, hanswer, rfl⟩
  have hstore : w'.store = (w.store.setEndpointStatus id .autoDisabled).2 :=
    congrArg Prod.snd hact.1
  have hlog : ∀ id', failuresSince d id' w'.log = failuresSince d id' w.log := by
    intro id'
    rw [failuresSince_act hact]
    show tally (view d i w.log).answer _ _ = _
    rw [hanswer]
    rfl
  have hreset : ∀ id', Owed d w'.log (.reset id') ↔ Owed d w.log (.reset id') := by
    intro id'
    refine ⟨fun h => (owed_new hact h).resolve_left nofun, owed_act hact ?_⟩
    rw [howing]
    nofun
  -- an endpoint is as it was, but for its status
  have hlookup : ∀ id' e', w'.store.endpoints.lookup id' = some e' →
      ∃ e, w.store.endpoints.lookup id' = some e
        ∧ e'.consecutiveFailures = e.consecutiveFailures
        ∧ (e'.status = .autoDisabled ∨ (id' ≠ id ∧ e'.status = e.status)) := by
    intro id' e' he'
    rw [hstore] at he'
    unfold Store.setEndpointStatus at he'
    split at he'
    case h_1 hnone =>
      refine ⟨e', he', rfl, .inr ⟨?_, rfl⟩⟩
      intro heq
      rw [heq] at he'
      exact absurd (hnone.symm.trans he') nofun
    case h_2 e he =>
      rw [Table.lookup_insert_eq] at he'
      split at he'
      case isTrue heq =>
        obtain rfl := Option.some.inj he'
        exact ⟨e, heq ▸ he, rfl, .inl rfl⟩
      case isFalse hne => exact ⟨e', he', rfl, .inr ⟨hne, rfl⟩⟩
  refine ⟨?_, ?_, ?_⟩
  · intro id' e' he' howed
    rcases hlookup id' e' he' with ⟨e, he, -⟩
    rw [hlog]
    exact h.reset id' e he ((hreset id').1 howed)
  · intro id' e' he' hfree
    rcases hlookup id' e' he' with ⟨e, he, hcount, -⟩
    rw [hlog, hcount]
    exact h.count id' e he fun howed => hfree ((hreset id').2 howed)
  · intro id' e' he' hreached
    rcases hlookup id' e' he' with ⟨e, he, -, hnow | ⟨hne, hstatus⟩⟩
    · exact .inl hnow
    rw [hlog] at hreached
    rcases h.disabled id' e he hreached with hdone | howed
    · exact .inl (hstatus.trans hdone)
    · refine .inr (owed_act hact ?_ howed)
      rw [howing]
      intro heq
      cases heq
      exact hne rfl

theorem nextFailures_toNat {c : UInt32} (h : c.toNat + 1 < 2 ^ 32) :
    (nextFailures c).toNat = c.toNat + 1 := by
  unfold nextFailures
  rw [if_neg (by omega), UInt32.toNat_add, UInt32.toNat_one, Nat.mod_eq_of_lt h]

/-- A write of the counter leaves the rest of the endpoints. -/
theorem lookup_write {failures : UInt32} {r : Except Error Unit}
    (hact : World.Act i (.setEndpointConsecutiveFailures id failures) w r w')
    {id' : Uuid} {e' : Endpoint} (he' : w'.store.endpoints.lookup id' = some e') :
    ∃ e, w.store.endpoints.lookup id' = some e ∧ e'.status = e.status
      ∧ e'.consecutiveFailures = if id = id' then failures else e.consecutiveFailures := by
  have hstore : w'.store = (w.store.setEndpointConsecutiveFailures id failures).2 :=
    congrArg Prod.snd hact.1
  rw [hstore] at he'
  unfold Store.setEndpointConsecutiveFailures at he'
  split at he'
  case h_1 hnone =>
    refine ⟨e', he', rfl, ?_⟩
    rw [if_neg]
    intro heq
    rw [← heq] at he'
    exact absurd (hnone.symm.trans he') nofun
  case h_2 e he =>
    rw [Table.lookup_insert_eq] at he'
    split at he'
    case isTrue heq =>
      obtain rfl := Option.some.inj he'
      refine ⟨e, heq ▸ he, rfl, ?_⟩
      rw [if_pos heq.symm]
    case isFalse hne =>
      refine ⟨e', he', rfl, ?_⟩
      rw [if_neg (Ne.symm hne)]

/-- The write after a failed request completes the delivery. -/
theorem Counted.bump {failures c : UInt32} {r : Except Error Unit} (h : Counted d w)
    (hact : World.Act i (.setEndpointConsecutiveFailures id failures) w r w')
    (hanswered : (view d i w.log).Answered id false)
    (hsame : ∀ e, w.store.endpoints.lookup id = some e →
      e.consecutiveFailures = c ∧ c.toNat + 1 < 2 ^ 32 ∧ ¬ Owed d w.log (.reset id))
    (hnext : failures = nextFailures c) : Counted d w' := by
  have hlog : ∀ id', failuresSince d id' w'.log
      = if id = id' then failuresSince d id' w.log + 1
        else failuresSince d id' w.log := by
    intro id'
    rw [failuresSince_act hact]
    show tally (view d i w.log).answer _ _ = _
    rw [hanswered.answer]
    rfl
  have hreset : ∀ id', Owed d w'.log (.reset id') ↔ Owed d w.log (.reset id') := by
    intro id'
    refine ⟨fun h => (owed_new hact h).resolve_left ?_, owed_act hact ?_⟩
    · show (if _ then some (Debt.disable id) else none) ≠ _
      split
      all_goals nofun
    · rw [hanswered.owing]
      nofun
  -- the counter written is the number of failures
  have hcount : ∀ e, w.store.endpoints.lookup id = some e →
      failures.toNat = failuresSince d id w'.log := by
    intro e he
    rcases hsame e he with ⟨rfl, hroom, hfree⟩
    rw [hlog, if_pos rfl, hnext, nextFailures_toNat hroom, h.count id e he hfree]
  refine ⟨?_, ?_, ?_⟩
  · intro id' e' he' howed
    rcases lookup_write hact he' with ⟨e, he, -⟩
    have howed' := (hreset id').1 howed
    rw [hlog, if_neg]
    · exact h.reset id' e he howed'
    · intro heq
      subst heq
      exact (hsame e he).2.2 howed'
  · intro id' e' he' hfree
    rcases lookup_write hact he' with ⟨e, he, -, hfailures⟩
    rw [hfailures]
    split
    case isTrue heq =>
      subst heq
      exact hcount e he
    case isFalse hne =>
      rw [hlog, if_neg hne]
      exact h.count id' e he fun howed => hfree ((hreset id').2 howed)
  · intro id' e' he' hreached
    rcases lookup_write hact he' with ⟨e, he, hstatus, -⟩
    by_cases heq : id = id'
    · -- reached now: the thread owes it
      subst heq
      refine .inr ⟨i, ?_⟩
      rw [view_act hact, if_pos rfl]
      rw [← hcount e he, ← UInt32.le_iff_toNat_le] at hreached
      exact if_pos ⟨hanswered.answer, hreached⟩
    · rw [hlog, if_neg heq] at hreached
      rcases h.disabled id' e he hreached with hdone | howed
      · exact .inl (hstatus.trans hdone)
      · refine .inr (owed_act hact ?_ howed)
        rw [hanswered.owing]
        nofun

/-- The write that pays a reset. -/
theorem Counted.pay {r : Except Error Unit} (h : Counted d w)
    (hact : World.Act i (.setEndpointConsecutiveFailures id 0) w r w')
    (howing : (view d i w.log).owing = some (.reset id))
    (hanswer : (view d i w.log).answer = none) : Counted d w' := by
  have hlog : ∀ id', failuresSince d id' w'.log = failuresSince d id' w.log := by
    intro id'
    rw [failuresSince_act hact]
    show tally (view d i w.log).answer _ _ = _
    rw [hanswer]
    rfl
  have hafter : ((view d i w.log).after d
      (.setEndpointConsecutiveFailures id 0) r).owing = none := by
    refine if_neg fun h => ?_
    rw [hanswer] at h
    cases h.1
  have hback : ∀ debt, Owed d w'.log debt → Owed d w.log debt := by
    intro debt h
    refine (owed_new hact h).resolve_left ?_
    rw [hafter]
    nofun
  refine ⟨?_, ?_, ?_⟩
  · intro id' e' he' howed
    rcases lookup_write hact he' with ⟨e, he, -⟩
    rw [hlog]
    exact h.reset id' e he (hback _ howed)
  · intro id' e' he' hfree
    rcases lookup_write hact he' with ⟨e, he, -, hfailures⟩
    rw [hfailures, hlog]
    split
    case isTrue heq =>
      subst heq
      exact (h.reset id e he ⟨i, howing⟩).symm
    case isFalse hne =>
      refine h.count id' e he fun howed => hfree (owed_act hact ?_ howed)
      rw [howing]
      intro heq
      cases heq
      exact hne rfl
  · intro id' e' he' hreached
    rcases lookup_write hact he' with ⟨e, he, hstatus, -⟩
    rw [hlog] at hreached
    rcases h.disabled id' e he hreached with hdone | howed
    · exact .inl (hstatus.trans hdone)
    · refine .inr (owed_act hact ?_ howed)
      rw [howing]
      nofun

/-- The attempt that succeeded completes the delivery. -/
theorem Counted.succeed {a : DeliveryAttempt} {r : Unit} (h : Counted d w)
    (hact : World.Act i (.putAttempt a) w r w') (howing : (view d i w.log).owing = none)
    (hanswer : (view d i w.log).answer = some (id, true))
    (hpositive : 1 ≤ d.disableAfterConsecutiveFailures) : Counted d w' := by
  have hstore : w'.store.endpoints = w.store.endpoints := by
    rw [show w'.store = w.store.putAttempt a from hact.1]
    rfl
  have hlog : ∀ id', failuresSince d id' w'.log
      = if id = id' then 0 else failuresSince d id' w.log := by
    intro id'
    rw [failuresSince_act hact]
    show tally ((view d i w.log).answer.or _) _ _ = _
    rw [hanswer]
    rfl
  have hafter : ((view d i w.log).after d (.putAttempt a) r).owing = some (.reset id) := by
    show (match (view d i w.log).answer with
      | some (id, true) => some (Debt.reset id)
      | _ => none) = _
    rw [hanswer]
  have hkept : ∀ debt, Owed d w.log debt → Owed d w'.log debt := by
    intro debt
    refine owed_act hact ?_
    rw [howing]
    nofun
  have howed : Owed d w'.log (.reset id) := by
    refine ⟨i, ?_⟩
    rw [view_act hact, if_pos rfl]
    exact hafter
  refine ⟨?_, ?_, ?_⟩
  · intro id' e he hreset
    rw [hstore] at he
    rw [hlog]
    split
    case isTrue => rfl
    case isFalse hne =>
      refine h.reset id' e he ((owed_new hact hreset).resolve_left ?_)
      rw [hafter]
      intro heq
      cases heq
      exact hne rfl
  · intro id' e he hfree
    rw [hstore] at he
    rw [hlog, if_neg]
    · exact h.count id' e he fun howed => hfree (hkept _ howed)
    · intro heq
      exact hfree (heq ▸ howed)
  · intro id' e he hreached
    rw [hstore] at he
    rw [hlog] at hreached
    split at hreached
    case isTrue =>
      rw [UInt32.le_iff_toNat_le] at hpositive
      exact absurd (hpositive.trans hreached) (by decide)
    case isFalse =>
      exact (h.disabled id' e he hreached).imp_right (hkept _)

end

/-- One operation of a thread that goes on properly. -/
theorem Counted.act {d : Dispatcher} {i : Nat} {op : Op} {w w' : World}
    {r : Reply op} (h : Counted d w) (hact : World.Act i op w r w')
    (hproper : (view d i w.log).Proper op) (hkeyed : w.store.Keyed)
    (hunraced : (view d i w.log).answer.isSome = true →
      ∀ e ∈ w.store.counting op,
        (view d i w.log).seen e.id = some e.consecutiveFailures
        ∧ e.consecutiveFailures.toNat + 1 < 2 ^ 32
        ∧ ¬ Owed d w.log (.reset e.id))
    (hpositive : 1 ≤ d.disableAfterConsecutiveFailures) : Counted d w' := by
  have hquiet : w'.store.endpoints = w.store.endpoints →
      (view d i w.log).completes op = none →
      (view d i w.log).owing = none →
      ((view d i w.log).after d op r).owing = none → Counted d w' :=
    h.quiet hact
  have hstore : w'.store = w.store →
      w'.store.endpoints = w.store.endpoints := congrArg Store.endpoints
  cases op with
  | setEndpointStatus id status => exact h.disable hact hproper
  | setEndpointConsecutiveFailures id failures =>
    rcases hproper with ⟨howing, hanswer, rfl⟩ | ⟨hanswered, c, hseen, hnext⟩
    · exact h.pay hact howing hanswer
    · refine h.bump hact hanswered (fun e he => ?_) hnext
      rcases hunraced (by rw [hanswered.answer]; rfl) e he with
        ⟨hsame, hroom, hfree⟩
      rw [hkeyed id e he] at hsame hfree
      obtain rfl := Option.some.inj (hseen.symm.trans hsame)
      exact ⟨rfl, hroom, hfree⟩
  | putAttempt a =>
    rcases hproper with ⟨howing, hnone | ⟨id, hanswer⟩⟩
    · refine hquiet ?_ hnone howing ?_
      · rw [show w'.store = w.store.putAttempt a from hact.1]
        rfl
      · show (match (view d i w.log).answer with
          | some (id, true) => some (Debt.reset id)
          | _ => none) = none
        rw [(Option.or_eq_none_iff.1 hnone).1]
    · exact h.succeed hact howing hanswer hpositive
  | putEvent event =>
    have hput : w'.store = w.store.putEvent event := hact.1
    exact hquiet (by rw [hput]; rfl) rfl hproper hproper
  | now => exact hquiet (hstore hact.1) rfl hproper hproper
  | newAttemptId => exact hquiet (hstore hact.1.2) rfl hproper hproper
  | send _ _ _ => exact hquiet (hstore hact.1) rfl hproper hproper
  | nextDelaySecs _ _ => exact hquiet (hstore hact.1) rfl hproper hproper
  | getEvent _ => exact hquiet (hstore hact.1.2) rfl hproper hproper
  | listActiveEndpointsFor _ =>
    exact hquiet (hstore hact.1.2) rfl hproper hproper
  | getEndpoint _ => exact hquiet (hstore hact.1.2) rfl hproper hproper
  | listAttempts _ _ => exact hquiet (hstore hact.1.2.2) rfl hproper hproper
  | listDueRetries _ => exact hquiet (hstore hact.1.2) rfl hproper hproper

/-- The endpoints listed are listed once, and what is read can sign. -/
theorem plausible_of_act {op : Op} {s s' : Store} {r : Reply op}
    (hkeyed : s.Keyed) (hact : s.Act op r s')
    (hsigns : ∀ e ∈ s.reading op, e.status.isBlocking = false → e.signs = true) :
    View.Plausible op r := by
  cases op with
  | listActiveEndpointsFor eventType =>
    have hperm : r.Perm (s.listActiveEndpointsFor eventType) := hact.1
    refine ⟨?_, fun e he => hsigns e (hperm.mem_iff.1 he)⟩
    rw [(hperm.map Endpoint.id).nodup_iff]
    exact (List.filter_sublist.map _).nodup (Table.nodup_map_values hkeyed)
  | getEndpoint id =>
    intro e he
    rw [show r = s.getEndpoint id from hact.1] at he
    unfold Store.getEndpoint at he
    split at he
    case h_1 e' hlookup =>
      obtain rfl := Option.some.inj he
      exact hsigns e' (Option.mem_toList.2 hlookup)
    case h_2 => cases he
  | _ => trivial

-- ==== the runs

/-- The dispatcher threads alone act, and every operation is unraced. -/
def UnracedSteps (d : Dispatcher) (sys : System) : Label → Prop
  | .perform i _ op => Unraced d i op sys
  | .operator => False
  | _ => True

instance (d : Dispatcher) (sys : System) (l : Label) : Decidable (UnracedSteps d sys l) :=
  match l with
  | .start _ _ => .isTrue trivial
  | .perform i _ op => inferInstanceAs (Decidable (Unraced d i op _))
  | .finish _ _ _ => .isTrue trivial
  | .operator => .isFalse id

section
variable {d : Dispatcher} {sys sys' : System}

/-- What is owed is a thread's next operation. -/
theorem Pool.pays (h : Pool d sys) {debt : Debt} (howed : Owed d sys.world.log debt) :
    ∃ t ∈ sys.threads, Thread.pays debt t = true := by
  rcases howed with ⟨i, hi⟩
  have hthread := h.threads i
  cases ht : sys.threads[i]? with
  | none =>
    rw [ht] at hthread
    exact absurd (hi.symm.trans hthread.owing) nofun
  | some t =>
  refine ⟨t, List.mem_of_getElem? ht, ?_⟩
  rw [ht] at hthread
  cases t with
  | none => exact absurd (hi.symm.trans hthread.owing) nofun
  | some running =>
  obtain ⟨call, p⟩ := running
  cases p with
  | ret a => exact absurd (hi.symm.trans (hthread _ rfl).owing) nofun
  | call op k =>
    have hproper := (hthread _ rfl).1
    cases op with
    | setEndpointStatus id status =>
      rcases hproper with ⟨howing, -, rfl⟩
      obtain rfl := Option.some.inj (hi.symm.trans howing)
      simp [Thread.pays]
    | setEndpointConsecutiveFailures id failures =>
      rcases hproper with ⟨howing, -, rfl⟩ | ⟨hanswered, -⟩
      · obtain rfl := Option.some.inj (hi.symm.trans howing)
        simp [Thread.pays]
      · exact absurd (hi.symm.trans hanswered.owing) nofun
    | putAttempt a => exact absurd (hi.symm.trans hproper.1) nofun
    | _ => exact absurd (hi.symm.trans hproper) nofun

/-- A step of thread `i` leaves the others as they are. -/
theorem Pool.threads_set (h : Pool d sys) {i : Nat} {t : Thread} {log : List Performed}
    (hother : ∀ j, i ≠ j → view d j log = view d j sys.world.log)
    (hi : Thread.Goes d (view d i log) (some t)) (hlt : i < sys.threads.length) (j : Nat) :
    Thread.Goes d (view d j log) (sys.threads.set i t)[j]? := by
  by_cases heq : i = j
  · subst heq
    rw [List.getElem?_set_self hlt]
    exact hi
  · rw [List.getElem?_set_ne heq, hother j heq]
    exact h.threads j

theorem Pool.step (h : Pool d sys) {l : Label} (hcond : UnracedSteps d sys l)
    (hpositive : 1 ≤ d.disableAfterConsecutiveFailures)
    (hstep : Step d sys l sys') : Pool d sys' := by
  cases hstep with
  | @start i call hi =>
    have hthread := h.threads i
    rw [hi] at hthread
    have hlt := (List.getElem?_eq_some_iff.1 hi).1
    refine ⟨h.keyed, ?_, h.counted⟩
    exact h.threads_set (fun _ _ => rfl) (goes_call call hthread) hlt
  | @perform i call op k hi r w hact =>
    have hthread := h.threads i
    rw [hi] at hthread
    have hlt := (List.getElem?_eq_some_iff.1 hi).1
    rcases hthread _ rfl with ⟨hproper, hgoes⟩
    refine ⟨h.keyed.act hact.1, ?_, ?_⟩
    · refine h.threads_set (fun j hne => ?_) ?_ hlt
      · rw [view_act hact, if_neg hne]
      · refine hgoes r _ ⟨plausible_of_act h.keyed hact.1 hcond.2, ?_⟩
        rw [view_act hact, if_pos rfl]
    · refine h.counted.act hact hproper h.keyed (fun hanswer e he => ?_) hpositive
      rcases hcond.1 hanswer e he with ⟨hseen, hroom, hnone⟩
      refine ⟨hseen, hroom, fun howed => ?_⟩
      rcases h.pays howed with ⟨t, ht, hpays⟩
      rw [hnone t ht] at hpays
      cases hpays
  | @finish i call result hi =>
    have hthread := h.threads i
    rw [hi] at hthread
    have hlt := (List.getElem?_eq_some_iff.1 hi).1
    refine ⟨h.keyed, ?_, h.counted⟩
    exact h.threads_set (fun _ _ => rfl) (hthread _ rfl) hlt
  | operator _ => cases hcond

/-- Idle threads over a store that has counted nothing yet. -/
def System.fresh (store : Store) (threads : Nat) : System :=
  ⟨⟨store, []⟩, List.replicate threads none⟩

/-- Endpoints are stored under their ids, with no failure counted. -/
def Store.Uncounted (s : Store) : Prop :=
  ∀ id e, s.endpoints.lookup id = some e → e.id = id ∧ e.consecutiveFailures = 0

theorem pool_fresh {store : Store} (hstore : store.Uncounted) (threads : Nat)
    (hpositive : 1 ≤ d.disableAfterConsecutiveFailures) :
    Pool d (.fresh store threads) := by
  refine ⟨fun id e he => (hstore id e he).1, ?_, ⟨?_, ?_, ?_⟩⟩
  · intro i
    unfold System.fresh
    simp only [List.getElem?_replicate]
    split
    · exact View.idle_start
    · exact View.idle_start
  · intro id e _ _
    rfl
  · intro id e he _
    rw [(hstore id e he).2]
    rfl
  · intro id e he hreached
    rw [UInt32.le_iff_toNat_le] at hpositive
    have hzero : d.disableAfterConsecutiveFailures.toNat ≤ 0 := hreached
    exact absurd (hpositive.trans hzero) (by decide)

/-- Every counter is the number of completed deliveries that failed since
the last completed success, or that success is the last to have completed
and its thread's next operation resets the counter; and an endpoint whose
number reaches the threshold is disabled, or a thread's next operation
disables it. -/
def CountsExactly (d : Dispatcher) (sys : System) : Prop :=
  ∀ id e, sys.world.store.endpoints.lookup id = some e →
    (e.consecutiveFailures.toNat = failuresSince d id sys.world.log
      ∨ (failuresSince d id sys.world.log = 0
        ∧ ∃ t ∈ sys.threads, Thread.pays (.reset id) t = true))
    ∧ (d.disableAfterConsecutiveFailures.toNat ≤ failuresSince d id sys.world.log →
      e.status = .autoDisabled ∨ ∃ t ∈ sys.threads, Thread.pays (.disable id) t = true)

theorem Pool.countsExactly (h : Pool d sys) : CountsExactly d sys := by
  intro id e he
  refine ⟨?_, fun hreached =>
    (h.counted.disabled id e he hreached).imp_right h.pays⟩
  by_cases howed : Owed d sys.world.log (.reset id)
  · exact .inr ⟨h.counted.reset id e he howed, h.pays howed⟩
  · exact .inl (h.counted.count id e he howed)

/-- In every interleaving of any number of threads in which no failure is
written over a counter that has changed since it was read or is about to be
reset, and no delivery lacks a secret, the counters are exact. -/
theorem run_countsExactly {store : Store} (hstore : store.Uncounted)
    {threads : Nat} (hpositive : 1 ≤ d.disableAfterConsecutiveFailures)
    (hrun : Run d (UnracedSteps d) (.fresh store threads) sys) :
    CountsExactly d sys := by
  have hpool : Pool d sys := by
    induction hrun with
    | refl => exact pool_fresh hstore threads hpositive
    | tail _ hcond hstep ih => exact ih.step hcond hpositive hstep
  exact hpool.countsExactly

end

def Store.registered : Store := Store.new.putEndpoint .merchant

theorem Store.registered_uncounted : Store.registered.Uncounted := by
  intro id e he
  unfold Store.registered Store.putEndpoint at he
  rw [Table.lookup_insert_eq] at he
  split at he
  case isTrue heq =>
    obtain rfl := Option.some.inj he
    exact ⟨heq.symm, rfl⟩
  case isFalse => cases he

def WebhookEvent.settled : WebhookEvent :=
  ⟨⟨3⟩, "ledger.txn.posted", [123, 125], 1700000000⟩

/-- Two threads in turn: two deliveries that fail, a replay that succeeds,
and one more that fails. -/
def Move.inTurn : List Move :=
  Move.through 0 (.dispatch .posted) 8 (.status 10 503)
    ++ Move.through 1 (.dispatch .settled) 8 (.status 11 503)
    ++ Move.through 0 (.replay ⟨2⟩ ⟨1⟩) 8 (.status 12 200)
    ++ Move.through 1 (.replay ⟨3⟩ ⟨1⟩) 9 (.status 13 503)

theorem inTurn_counted :
    ∃ sys, (System.fresh .registered 2).drive .stripeLike
        (UnracedSteps .stripeLike) Move.inTurn = some sys
      ∧ CountsExactly .stripeLike sys := by
  have hsome : ((System.fresh .registered 2).drive .stripeLike
      (UnracedSteps .stripeLike) Move.inTurn).isSome := by
    decide +kernel
  rcases Option.isSome_iff_exists.1 hsome with ⟨sys, hsys⟩
  exact ⟨sys, hsys, run_countsExactly Store.registered_uncounted
    (by decide) (System.drive_run hsys)⟩

/-- Both threads have read the endpoint before either writes. -/
def Move.raced : List Move :=
  [.start 0 (.dispatch .posted), .start 1 (.dispatch .settled)]
    ++ List.replicate 6 (.perform 0 (.status 10 503))
    ++ List.replicate 6 (.perform 1 (.status 11 503))
    ++ [.perform 0 (.status 10 503), .perform 1 (.status 11 503)]

def Label.ofThread : Label → Bool
  | .operator => false
  | _ => true

/-- One of the two failures is lost from the count. -/
theorem raced_loses :
    ¬ ∀ sys, Run .stripeLike (fun _ l => l.ofThread = true)
        (.fresh .registered 2) sys → CountsExactly .stripeLike sys := by
  intro h
  have hlost : ((System.fresh .registered 2).drive .stripeLike
      (fun _ l => l.ofThread = true) Move.raced).map (fun sys =>
        ((sys.world.store.endpoints.lookup ⟨1⟩).map Endpoint.consecutiveFailures,
        failuresSince .stripeLike ⟨1⟩ sys.world.log)) = some (some 1, 2) := by
    decide +kernel
  rcases Option.map_eq_some_iff.1 hlost with ⟨sys, hsys, hfacts⟩
  rw [Prod.mk.injEq] at hfacts
  rcases Option.map_eq_some_iff.1 hfacts.1 with ⟨e, he, hone⟩
  rcases (h sys (System.drive_run hsys) ⟨1⟩ e he).1 with hcount | ⟨hzero, -⟩
  · rw [hone, hfacts.2] at hcount
    exact absurd hcount (by decide)
  · rw [hfacts.2] at hzero
    cases hzero

end OpenStandards.OpWebhook

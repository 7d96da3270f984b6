/-
One delivery, whatever the outside does meanwhile.

A delivery to an endpoint that is not blocking puts one new attempt. Where
the endpoint has a secret to sign with, it makes one request first, and the
attempt succeeded, or is scheduled again, or the answer was final; where it
has none, there is no request and the attempt failed
(`safe_dispatchSingle`). Everything the retry logic needs follows from this
lemma, so no later proof looks into the delivery again.

What was asked and answered is read off the log: `sentTo` counts the
requests for a pair, and `lastFinal` says whether the last one was
answered for good.
-/
import OpenStandards.OpWebhook.Dispatcher

namespace OpenStandards.OpWebhook

open Lib
open OpLedger (Uuid)

-- ==== the log

/-- The number of requests for a pair. -/
def sentTo (eventId endpointId : Uuid) : List Performed → Nat
  | [] => 0
  | p :: log => sentTo eventId endpointId log + match p.op with
      | .send ev ep _ => if ev = eventId ∧ ep = endpointId then 1 else 0
      | _ => 0

/-- The answer is final: it is not a success and is not to be retried, or
the policy, asked for a delay, had none left. -/
def finalAnswer (d : Dispatcher) (delay : Option (Option UInt64)) :
    Except String HttpResponse → Bool
  | .ok resp =>
    if 200 ≤ resp.status ∧ resp.status < 300 then false
    else !d.shouldRetry (some resp.status) || decide (delay = some none)
  | .error _ => !d.shouldRetry none || decide (delay = some none)

/-- The last request for a pair was answered for good, given the delay
asked for since. -/
def lastFinal (d : Dispatcher) (eventId endpointId : Uuid) :
    Option (Option UInt64) → List Performed → Bool
  | _, [] => false
  | delay, ⟨_, .nextDelaySecs _ _, r⟩ :: log =>
    lastFinal d eventId endpointId (delay.or (some r)) log
  | delay, ⟨_, .send ev ep _, r⟩ :: log =>
    if ev = eventId ∧ ep = endpointId then finalAnswer d delay r
    else lastFinal d eventId endpointId none log
  | delay, _ :: log => lastFinal d eventId endpointId delay log

/-- Nothing that matters to the retries has changed: the attempts, the
events, and what was asked and answered. -/
structure Hush (d : Dispatcher) (w w' : World) : Prop where
  attempts : w'.store.attempts = w.store.attempts
  events : w'.store.events = w.store.events
  sent : ∀ ev ep, sentTo ev ep w'.log = sentTo ev ep w.log
  final : ∀ ev ep delay, lastFinal d ev ep delay w'.log = lastFinal d ev ep delay w.log

namespace Hush

variable {d : Dispatcher} {w w' w'' : World}

theorem trans (h : Hush d w w') (h' : Hush d w' w'') : Hush d w w'' where
  attempts := h'.attempts.trans h.attempts
  events := h'.events.trans h.events
  sent ev ep := (h'.sent ev ep).trans (h.sent ev ep)
  final ev ep delay := (h'.final ev ep delay).trans (h.final ev ep delay)

theorem of_operated (h : World.Operated w w') : Hush d w w' where
  attempts := h.attempts
  events := h.events
  sent ev ep := by rw [h.log]
  final ev ep delay := by rw [h.log]

end Hush

/-- Operations that change nothing the retries look at. -/
def Op.Silent : Op → Prop
  | .send _ _ _ => False
  | .nextDelaySecs _ _ => False
  | .putEvent _ => False
  | .putAttempt _ => False
  | _ => True

theorem sentTo_silent {p : Performed} (h : p.op.Silent) (ev ep : Uuid)
    (log : List Performed) : sentTo ev ep (p :: log) = sentTo ev ep log := by
  rcases p with ⟨i, op, r⟩
  cases op with
  | send _ _ _ => exact h.elim
  | _ => rfl

theorem lastFinal_silent {p : Performed} (h : p.op.Silent) (d : Dispatcher)
    (ev ep : Uuid) (delay : Option (Option UInt64)) (log : List Performed) :
    lastFinal d ev ep delay (p :: log) = lastFinal d ev ep delay log := by
  rcases p with ⟨i, op, r⟩
  cases op with
  | send _ _ _ => exact h.elim
  | nextDelaySecs _ _ => exact h.elim
  | _ => rfl

theorem Store.setEndpointStatus_eq (s : Store) (id : Uuid) (status : EndpointStatus) :
    (s.setEndpointStatus id status).2.attempts = s.attempts
      ∧ (s.setEndpointStatus id status).2.events = s.events := by
  unfold Store.setEndpointStatus
  split
  all_goals exact ⟨rfl, rfl⟩

theorem Store.setEndpointConsecutiveFailures_eq (s : Store) (id : Uuid) (failures : UInt32) :
    (s.setEndpointConsecutiveFailures id failures).2.attempts = s.attempts
      ∧ (s.setEndpointConsecutiveFailures id failures).2.events = s.events := by
  unfold Store.setEndpointConsecutiveFailures
  split
  all_goals exact ⟨rfl, rfl⟩

theorem Store.act_silent {op : Op} (hop : op.Silent) {s s' : Store}
    {r : Reply op} (h : s.Act op r s') :
    s'.attempts = s.attempts ∧ s'.events = s.events := by
  cases op with
  | send _ _ _ => exact hop.elim
  | nextDelaySecs _ _ => exact hop.elim
  | putEvent _ => exact hop.elim
  | putAttempt _ => exact hop.elim
  | now =>
    rw [show s' = s from h]
    exact ⟨rfl, rfl⟩
  | newAttemptId =>
    rw [show s' = s from h.2]
    exact ⟨rfl, rfl⟩
  | getEvent _ =>
    rw [show s' = s from h.2]
    exact ⟨rfl, rfl⟩
  | listActiveEndpointsFor _ =>
    rw [show s' = s from h.2]
    exact ⟨rfl, rfl⟩
  | getEndpoint _ =>
    rw [show s' = s from h.2]
    exact ⟨rfl, rfl⟩
  | listAttempts _ _ =>
    rw [show s' = s from h.2.2]
    exact ⟨rfl, rfl⟩
  | listDueRetries _ =>
    rw [show s' = s from h.2]
    exact ⟨rfl, rfl⟩
  | setEndpointStatus id status =>
    rw [show s' = (s.setEndpointStatus id status).2 from
      congrArg Prod.snd h]
    exact s.setEndpointStatus_eq id status
  | setEndpointConsecutiveFailures id failures =>
    rw [show s' = (s.setEndpointConsecutiveFailures id failures).2 from
      congrArg Prod.snd h]
    exact s.setEndpointConsecutiveFailures_eq id failures

theorem Hush.of_act {d : Dispatcher} {i : Nat} {op : Op} {w w' : World}
    {r : Reply op} (hop : op.Silent) (h : World.Act i op w r w') :
    Hush d w w' where
  attempts := (Store.act_silent hop h.1).1
  events := (Store.act_silent hop h.1).2
  sent ev ep := by
    rw [h.2]
    exact sentTo_silent hop ev ep w.log
  final ev ep delay := by
    rw [h.2]
    exact lastFinal_silent hop d ev ep delay w.log

-- ==== the delivery

/-- The last request was for the pair: so many times it was asked, and
`answer` says whether the answer is final. -/
structure Asked (d : Dispatcher) (ev ep : Uuid)
    (answer : Option (Option UInt64) → Bool) (w w' : World) : Prop where
  attempts : w'.store.attempts = w.store.attempts
  events : w'.store.events = w.store.events
  sent : sentTo ev ep w'.log = sentTo ev ep w.log + 1
  sent_other : ∀ ev' ep', ¬ (ev' = ev ∧ ep' = ep) → sentTo ev' ep' w'.log = sentTo ev' ep' w.log
  final : ∀ delay, lastFinal d ev ep delay w'.log = answer delay
  final_other : ∀ ev' ep', ¬ (ev' = ev ∧ ep' = ep) → ∀ delay,
    lastFinal d ev' ep' delay w'.log = lastFinal d ev' ep' none w.log

/-- There is a secret to sign the deliveries with. -/
def Endpoint.signs (e : Endpoint) : Bool := !e.secret.isEmpty

/-- A delivery, signed or not, has put the attempt `a`. -/
structure Attempted (d : Dispatcher) (signed : Bool) (ev ep : Uuid)
    (number : UInt32) (a : DeliveryAttempt) (w w' : World) : Prop where
  eventId : a.eventId = ev
  endpointId : a.endpointId = ep
  attemptNumber : a.attemptNumber = number
  fresh : w.store.attempts.lookup a.id = none
  attempts : w'.store.attempts = w.store.attempts.insert a.id a
  events : w'.store.events = w.store.events
  sent : sentTo ev ep w'.log = sentTo ev ep w.log + signed.toNat
  sent_other : ∀ ev' ep', ¬ (ev' = ev ∧ ep' = ep) → sentTo ev' ep' w'.log = sentTo ev' ep' w.log
  resolved : signed = true → a.status = .succeeded
    ∨ a.status = .retryScheduled
    ∨ (a.status = .failed ∧ lastFinal d ev ep none w'.log = true)
  unsigned : signed = false → a.status = .failed
  final_other : ∀ ev' ep', ¬ (ev' = ev ∧ ep' = ep) →
    lastFinal d ev' ep' none w'.log = lastFinal d ev' ep' none w.log

/-- Under way with the pair, nothing is put yet, and for the other pairs
nothing changes. -/
structure Elsewhere (d : Dispatcher) (ev ep : Uuid) (w w' : World) : Prop where
  attempts : w'.store.attempts = w.store.attempts
  events : w'.store.events = w.store.events
  final_other : ∀ ev' ep', ¬ (ev' = ev ∧ ep' = ep) →
    lastFinal d ev' ep' none w'.log = lastFinal d ev' ep' none w.log

section
variable {d : Dispatcher} {ev ep : Uuid} {w w' w'' : World}

theorem Hush.elsewhere (h : Hush d w w') (ev ep : Uuid) : Elsewhere d ev ep w w' :=
  ⟨h.attempts, h.events, fun ev' ep' _ => h.final ev' ep' none⟩

variable {answer : Option (Option UInt64) → Bool} {i : Nat}

theorem Asked.elsewhere (h : Asked d ev ep answer w w') : Elsewhere d ev ep w w' :=
  ⟨h.attempts, h.events, fun ev' ep' hne => h.final_other ev' ep' hne none⟩

theorem Asked.hush (h : Asked d ev ep answer w w') (h' : Hush d w' w'') :
    Asked d ev ep answer w w'' where
  attempts := h'.attempts.trans h.attempts
  events := h'.events.trans h.events
  sent := (h'.sent ev ep).trans h.sent
  sent_other ev' ep' hne := (h'.sent ev' ep').trans (h.sent_other ev' ep' hne)
  final delay := (h'.final ev ep delay).trans (h.final delay)
  final_other ev' ep' hne delay :=
    (h'.final ev' ep' delay).trans (h.final_other ev' ep' hne delay)

variable {signed : Bool}

theorem Attempted.hush {number : UInt32} {a : DeliveryAttempt}
    (h : Attempted d signed ev ep number a w w') (h' : Hush d w' w'') :
    Attempted d signed ev ep number a w w'' where
  eventId := h.eventId
  endpointId := h.endpointId
  attemptNumber := h.attemptNumber
  fresh := h.fresh
  attempts := h'.attempts.trans h.attempts
  events := h'.events.trans h.events
  sent := (h'.sent ev ep).trans h.sent
  sent_other ev' ep' hne := (h'.sent ev' ep').trans (h.sent_other ev' ep' hne)
  resolved := by
    rw [h'.final]
    exact h.resolved
  unsigned := h.unsigned
  final_other ev' ep' hne :=
    (h'.final ev' ep' none).trans (h.final_other ev' ep' hne)

theorem asked_of_send {request : HttpRequest} {r : Except String HttpResponse}
    (hush : Hush d w w') (h : World.Act i (.send ev ep request) w' r w'') :
    Asked d ev ep (fun delay => finalAnswer d delay r) w w'' := by
  have hstore : w''.store = w'.store := h.1
  have hlog := h.2
  refine ⟨?_, ?_, ?_, ?_, ?_, ?_⟩
  · rw [hstore, hush.attempts]
  · rw [hstore, hush.events]
  · rw [hlog, ← hush.sent]
    show _ + (if ev = ev ∧ ep = ep then 1 else 0) = _
    rw [if_pos ⟨rfl, rfl⟩]
  · intro ev' ep' hne
    rw [hlog, ← hush.sent]
    show _ + (if ev = ev' ∧ ep = ep' then 1 else 0) = _
    rw [if_neg fun h => hne ⟨h.1.symm, h.2.symm⟩]
    rfl
  · intro delay
    rw [hlog]
    exact if_pos ⟨rfl, rfl⟩
  · intro ev' ep' hne delay
    rw [hlog, ← hush.final]
    exact if_neg fun h => hne ⟨h.1.symm, h.2.symm⟩

theorem Asked.delay {n : UInt32} {elapsed : UInt64} {r : Option UInt64}
    (hasked : Asked d ev ep answer w w') (h : World.Act i (.nextDelaySecs n elapsed) w' r w'') :
    Asked d ev ep (fun delay => answer (delay.or (some r))) w w'' := by
  have hstore : w''.store = w'.store := h.1
  have hlog := h.2
  refine ⟨?_, ?_, ?_, ?_, ?_, ?_⟩
  · rw [hstore, hasked.attempts]
  · rw [hstore, hasked.events]
  · rw [hlog]
    exact hasked.sent
  · intro ev' ep' hne
    rw [hlog]
    exact hasked.sent_other ev' ep' hne
  · intro delay
    rw [hlog]
    exact hasked.final _
  · intro ev' ep' hne delay
    rw [hlog]
    exact hasked.final_other ev' ep' hne _

theorem attempted_of_put {a : DeliveryAttempt} {r : Unit} (helse : Elsewhere d ev ep w w')
    (hsent : sentTo ev ep w'.log = sentTo ev ep w.log + signed.toNat)
    (hother : ∀ ev' ep', ¬ (ev' = ev ∧ ep' = ep) → sentTo ev' ep' w'.log = sentTo ev' ep' w.log)
    (hev : a.eventId = ev) (hep : a.endpointId = ep)
    (hfresh : w.store.attempts.lookup a.id = none)
    (hresolved : signed = true → a.status = .succeeded
      ∨ a.status = .retryScheduled
      ∨ (a.status = .failed ∧ lastFinal d ev ep none w'.log = true))
    (hunsigned : signed = false → a.status = .failed) (h : World.Act i (.putAttempt a) w' r w'') :
    Attempted d signed ev ep a.attemptNumber a w w'' := by
  have hstore : w''.store = w'.store.putAttempt a := h.1
  have hlog := h.2
  refine ⟨hev, hep, rfl, hfresh, ?_, ?_, ?_, ?_, ?_, hunsigned, ?_⟩
  · rw [hstore]
    show w'.store.attempts.insert a.id a = _
    rw [helse.attempts]
  · rw [hstore]
    exact helse.events
  · rw [hlog]
    exact hsent
  · intro ev' ep' hne
    rw [hlog]
    exact hother ev' ep' hne
  · rw [hlog]
    exact hresolved
  · intro ev' ep' hne
    rw [hlog]
    exact helse.final_other ev' ep' hne

/-- After a request the attempt says what came of it. -/
theorem Asked.attempted {a : DeliveryAttempt} {r : Unit}
    (hasked : Asked d ev ep answer w w') (hev : a.eventId = ev)
    (hep : a.endpointId = ep) (hfresh : w.store.attempts.lookup a.id = none)
    (hresolved : a.status = .succeeded ∨ a.status = .retryScheduled
      ∨ (a.status = .failed ∧ answer none = true)) (h : World.Act i (.putAttempt a) w' r w'') :
    Attempted d true ev ep a.attemptNumber a w w'' := by
  refine attempted_of_put hasked.elsewhere hasked.sent hasked.sent_other hev
    hep hfresh (fun _ => ?_) ?_ h
  · rw [hasked.final]
    exact hresolved
  · intro hfalse
    cases hfalse

/-- Without one it failed. -/
theorem Hush.attempted {a : DeliveryAttempt} {r : Unit} (hush : Hush d w w')
    (hev : a.eventId = ev) (hep : a.endpointId = ep)
    (hfresh : w.store.attempts.lookup a.id = none) (hfailed : a.status = .failed)
    (h : World.Act i (.putAttempt a) w' r w'') :
    Attempted d false ev ep a.attemptNumber a w w'' := by
  refine attempted_of_put (hush.elsewhere ev ep) (hush.sent ev ep)
    (fun ev' ep' _ => hush.sent ev' ep') hev hep hfresh ?_
    (fun _ => hfailed) h
  intro hfalse
  cases hfalse

end

-- ==== the rules

/-- A program run by thread `i` while operators are at work, as long as
its operations meet the condition. -/
abbrev Alone (i : Nat) (cond pre : Op → World → Prop) {α : Type} :
    Program α → (α → World → Prop) → World → Prop :=
  Prog.Safe World.Operated pre
    fun op w r w' => cond op w ∧ World.Act i op w r w'

theorem operated_refl (w : World) : World.Operated w w :=
  ⟨rfl, rfl, fun _ h => h, fun _ _ h => .inl h, rfl⟩

theorem operated_trans {w w' w'' : World} (h : World.Operated w w')
    (h' : World.Operated w' w'') : World.Operated w w'' where
  attempts := h'.attempts.trans h.attempts
  events := h'.events.trans h.events
  kept id hid := h.kept id (h'.kept id hid)
  keyed id e hid := by
    rcases h'.keyed id e hid with hmid | hkey
    · exact h.keyed id e hmid
    · exact .inr hkey
  log := h'.log.trans h.log

section
variable {d : Dispatcher} {i : Nat} {cond pre : Op → World → Prop} {α : Type}

variable {w : World}

/-- A silent operation and what comes after it. -/
theorem safe_silent (op : Op) {f : Reply op → Program α}
    {post : α → World → Prop} (hop : op.Silent) (hpre : ∀ w₁, Hush d w w₁ → pre op w₁)
    (h : ∀ r w₁ w', Hush d w w₁ → cond op w₁ → World.Act i op w₁ r w' →
      Hush d w w' → Alone i cond pre (f r) post w') :
    Alone i cond pre (Prog.perform op >>= f) post w := by
  apply Prog.Safe.perform
  intro w₁ hw₁
  have hush : Hush d w w₁ := .of_operated hw₁
  refine ⟨hpre w₁ hush, fun r w' hact => ?_⟩
  exact h r w₁ w' hush hact.1 hact.2 (hush.trans (.of_act hop hact.2))

theorem safe_bump (endpoint : Endpoint) (hpre : ∀ op w₁, op.Silent → Hush d w w₁ → pre op w₁) :
    Alone i cond pre (bumpConsecutiveFailures d endpoint) (fun _ w' => Hush d w w') w := by
  unfold bumpConsecutiveFailures
  apply safe_silent (d := d) (.setEndpointConsecutiveFailures endpoint.id _)
    trivial (hpre _ · trivial)
  intro _ _ w₁ _ _ _ h₁
  split
  · apply safe_silent (d := d) (.setEndpointStatus endpoint.id _) trivial
      fun w₂ h₂ => hpre _ w₂ trivial (h₁.trans h₂)
    intro _ _ w₂ _ _ _ h₂ w₃ h₃
    exact h₁.trans (h₂.trans (.of_operated h₃))
  · exact fun w₂ h₂ => h₁.trans (.of_operated h₂)

/-- The condition let an attempt of the pair be put under a new id. -/
def Recorded (cond : Op → World → Prop) (ev ep : Uuid) (w : World) : Prop :=
  ∃ a w₁, cond (.putAttempt a) w₁ ∧ a.eventId = ev ∧ a.endpointId = ep
    ∧ w.store.attempts.lookup a.id = none
    ∧ w₁.store.attempts = w.store.attempts

theorem safe_classify (endpoint : Endpoint) {attempt : DeliveryAttempt}
    {status : Option UInt16} {transportErr : Option String}
    {elapsed now : UInt64} {w₀ : World}
    (hasked : Asked d attempt.eventId attempt.endpointId
      (fun delay => !d.shouldRetry status || decide (delay = some none)) w₀ w)
    (hfresh : w₀.store.attempts.lookup attempt.id = none)
    (hpre : ∀ op w₁, (∀ ev ep request, op ≠ .send ev ep request) →
      Elsewhere d attempt.eventId attempt.endpointId w₀ w₁ → pre op w₁) :
    Alone i cond pre
      (classifyNonSuccess d endpoint attempt status transportErr elapsed now)
      (fun _ w' => Recorded cond attempt.eventId attempt.endpointId w₀
        ∧ ∃ a, Attempted d true attempt.eventId attempt.endpointId
          attempt.attemptNumber a w₀ w') w := by
  -- the counter, then the attempt `a`
  have hrest : ∀ (answer : Option (Option UInt64) → Bool)
      (a : DeliveryAttempt) (outcome : DispatchOutcome) (w₁ : World),
      Asked d attempt.eventId attempt.endpointId answer w₀ w₁ →
      a.id = attempt.id → a.eventId = attempt.eventId →
      a.endpointId = attempt.endpointId →
      a.attemptNumber = attempt.attemptNumber →
      (a.status = .succeeded ∨ a.status = .retryScheduled
        ∨ (a.status = .failed ∧ answer none = true)) →
      Alone i cond pre (do
        bumpConsecutiveFailures d endpoint
        Do.putAttempt a
        return outcome)
        (fun _ w' => Recorded cond attempt.eventId attempt.endpointId w₀
          ∧ ∃ a, Attempted d true attempt.eventId attempt.endpointId
            attempt.attemptNumber a w₀ w') w₁ := by
    intro answer a outcome w₁ hw₁ hid hev hep hnumber hresolved
    refine (safe_bump endpoint fun op w₂ hop h₂ => ?_).bind operated_refl ?_
    · apply hpre op w₂
      · intro ev ep request heq
        rw [heq] at hop
        exact hop
      · exact (hw₁.hush h₂).elsewhere
    · intro _ w₂ h₂
      have hw₂ := hw₁.hush h₂
      apply Prog.Safe.perform
      intro w₃ h₃
      have hw₃ := hw₂.hush (.of_operated h₃)
      refine ⟨hpre _ w₃ nofun hw₃.elsewhere, fun r w₄ hact => ?_⟩
      have hput := hw₃.attempted hev hep (hid ▸ hfresh) hresolved hact.2
      rw [hnumber] at hput
      have hrecorded : Recorded cond attempt.eventId attempt.endpointId w₀ :=
        ⟨a, w₃, hact.1, hev, hep, hid ▸ hfresh, hw₃.attempts⟩
      exact fun w₅ h₅ => ⟨hrecorded, a, hput.hush (.of_operated h₅)⟩
  unfold classifyNonSuccess
  split
  case isTrue hretry =>
    refine hrest _ _ _ w hasked ?_ ?_ ?_ ?_ ?_
    case refine_5 => exact .inr (.inr ⟨rfl, by rw [hretry]; rfl⟩)
    all_goals rfl
  case isFalse =>
    apply Prog.Safe.perform
    intro w₁ h₁
    have hw₁ := hasked.hush (.of_operated h₁)
    refine ⟨hpre _ w₁ nofun hw₁.elsewhere, fun r w₂ hact => ?_⟩
    have hw₂ := hw₁.delay hact.2
    cases r with
    | some delay =>
      refine hrest _ _ _ w₂ hw₂ ?_ ?_ ?_ ?_ ?_
      case refine_5 => exact .inr (.inl rfl)
      all_goals rfl
    | none =>
      refine hrest _ _ _ w₂ hw₂ ?_ ?_ ?_ ?_ ?_
      case refine_5 => exact .inr (.inr ⟨rfl, by simp⟩)
      all_goals rfl

/-- The delivery's attempt met the condition, and so did its request where
it made one. -/
structure Permitted (cond : Op → World → Prop) (signed : Bool) (ev ep : Uuid)
    (w : World) : Prop where
  recorded : Recorded cond ev ep w
  sent : signed = true → ∃ request w₁, cond (.send ev ep request) w₁
    ∧ w₁.store.attempts = w.store.attempts

/-- A delivery to an endpoint that is not blocking puts one attempt, after
one request if it is signed. -/
theorem safe_dispatchSingle {event : WebhookEvent} {endpoint : Endpoint}
    {number : UInt32} (hactive : endpoint.status.isBlocking = false)
    (hbefore : ∀ op w₁, (∀ ev ep request, op = .send ev ep request →
        ev = event.id ∧ ep = endpoint.id) →
      Elsewhere d event.id endpoint.id w w₁ → pre op w₁) (hafter : ∀ a id failures w₁,
      Permitted cond endpoint.signs event.id endpoint.id w →
      Attempted d endpoint.signs event.id endpoint.id number a w w₁ →
      pre (.setEndpointConsecutiveFailures id failures) w₁) :
    Alone i cond pre (dispatchSingle d event endpoint number)
      (fun _ w' => Permitted cond endpoint.signs event.id endpoint.id w
        ∧ ∃ a, Attempted d endpoint.signs event.id endpoint.id number a w w')
      w := by
  unfold dispatchSingle
  rw [hactive, if_neg Bool.false_ne_true]
  apply safe_silent (d := d) .now trivial
    fun w₁ h₁ => hbefore _ w₁ nofun (h₁.elsewhere _ _)
  intro now _ w₁ _ _ _ h₁
  apply safe_silent (d := d) .newAttemptId trivial fun w₂ h₂ => hbefore _ w₂
    nofun ((h₁.trans h₂).elsewhere _ _)
  intro id w₂ w₃ h₂ _ hid h₃
  -- the id is new
  have hfresh : w.store.attempts.lookup id = none := by
    rw [← (h₁.trans h₂).attempts]
    exact hid.1.1
  have hush := h₁.trans h₃
  unfold Endpoint.signs at hafter ⊢
  unfold computeSignature
  generalize endpoint.secret.isEmpty = unsigned at hafter ⊢
  cases unsigned with
  | true =>
  -- nothing to sign with
  apply Prog.Safe.perform
  intro w₄ h₄
  have hush₄ := hush.trans (.of_operated h₄)
  refine ⟨hbefore _ w₄ nofun (hush₄.elsewhere _ _), fun r w₅ hact => ?_⟩
  have hput : Attempted d false event.id endpoint.id .. := hush₄.attempted rfl rfl hfresh rfl hact.2
  have hrecorded : Recorded cond event.id endpoint.id w :=
    ⟨_, w₄, hact.1, rfl, rfl, hfresh, hush₄.attempts⟩
  intro w₆ h₆
  exact ⟨⟨hrecorded, fun h => by cases h⟩, _, hput.hush (.of_operated h₆)⟩
  | false =>
  apply Prog.Safe.perform
  intro w₄ h₄
  have hush₄ := hush.trans (.of_operated h₄)
  refine ⟨hbefore _ w₄ (fun _ _ _ heq => by cases heq; exact ⟨rfl, rfl⟩)
    (hush₄.elsewhere _ _), fun r w₅ hact => ?_⟩
  have hasked := asked_of_send hush₄ hact.2
  have hsent : Recorded cond event.id endpoint.id w →
      Permitted cond true event.id endpoint.id w :=
    fun hrecorded => ⟨hrecorded, fun _ => ⟨_, w₄, hact.1, hush₄.attempts⟩⟩
  cases r with
  | error msg =>
    refine (safe_classify endpoint ?_ ?_ fun op w₆ hop he =>
      hbefore op w₆ (fun ev ep request heq =>
        absurd heq (hop ev ep request)) he).mono
      fun _ _ h => ⟨hsent h.1, h.2⟩
    · exact hasked
    · exact hfresh
  | ok resp =>
    simp only
    split
    case isFalse hstatus =>
      refine (safe_classify endpoint ?_ ?_ fun op w₆ hop he =>
        hbefore op w₆ (fun ev ep request heq =>
          absurd heq (hop ev ep request)) he).mono
        fun _ _ h => ⟨hsent h.1, h.2⟩
      · unfold finalAnswer at hasked
        simp only [if_neg hstatus] at hasked
        exact hasked
      · exact hfresh
    case isTrue hstatus =>
      apply Prog.Safe.perform
      intro w₆ h₆
      have hasked₆ := hasked.hush (.of_operated h₆)
      refine ⟨hbefore _ w₆ nofun hasked₆.elsewhere,
        fun _ w₇ hput => ?_⟩
      have hw₇ : Attempted d true event.id endpoint.id number _ w w₇ :=
        hasked₆.attempted rfl rfl hfresh (.inl rfl) hput.2
      have hpermitted := hsent
        ⟨_, w₆, hput.1, rfl, rfl, hfresh, hasked₆.attempts⟩
      apply Prog.Safe.perform
      intro w₈ h₈
      have hw₈ := hw₇.hush (.of_operated h₈)
      refine ⟨hafter _ _ _ w₈ hpermitted hw₈, fun _ w₉ hset => ?_⟩
      have hquiet : Hush d w₈ w₉ := Hush.of_act
        (show Op.Silent (.setEndpointConsecutiveFailures _ _) from trivial)
        hset.2
      exact fun w' h' =>
        ⟨hpermitted, _, (hw₈.hush hquiet).hush (.of_operated h')⟩

end

end OpenStandards.OpWebhook

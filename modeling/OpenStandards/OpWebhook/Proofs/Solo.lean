/-
Runs of one dispatcher.

A dispatcher that is the only thread makes one call after the other, with
operators at work in between. `Rules` says what has to be shown of each
call on its own (`Alone`); `Rules.run` puts the calls together.

Schedules are the executable side: a schedule names the thread that moves
and what the clock, the transport and the policy answer (`drive_run`).
-/
import OpenStandards.OpWebhook.Proofs.Delivery

namespace OpenStandards.OpWebhook

open Lib
open OpLedger (Uuid)

-- ==== endpoint ids

/-- Endpoints are stored under their ids. -/
def Store.Keyed (s : Store) : Prop :=
  ∀ id e, s.endpoints.lookup id = some e → e.id = id

theorem Store.Keyed.operated {w w' : World} (h : w.store.Keyed)
    (hop : World.Operated w w') : w'.store.Keyed := by
  intro id e he
  rcases hop.keyed id e he with hold | hkey
  · exact h id e hold
  · exact hkey

variable {s s' : Store} {d : Dispatcher} {sys : System}

theorem Store.Keyed.insert (h : s.Keyed) {id : Uuid} {e : Endpoint} (he : e.id = id) :
    Store.Keyed { s with endpoints := s.endpoints.insert id e } := by
  intro id' e' he'
  rw [Table.lookup_insert_eq] at he'
  split at he'
  case isTrue heq =>
    rw [← Option.some.inj he', heq]
    exact he
  case isFalse => exact h id' e' he'

theorem Store.Keyed.act {op : Op} {r : Reply op} (h : s.Keyed)
    (hact : s.Act op r s') : s'.Keyed := by
  cases op with
  | setEndpointStatus id status =>
    rw [show s' = (s.setEndpointStatus id status).2 from
      congrArg Prod.snd hact]
    unfold Store.setEndpointStatus
    split
    case h_1 => exact h
    case h_2 e he => exact h.insert (h id e he)
  | setEndpointConsecutiveFailures id failures =>
    rw [show s' = (s.setEndpointConsecutiveFailures id failures).2 from
      congrArg Prod.snd hact]
    unfold Store.setEndpointConsecutiveFailures
    split
    case h_1 => exact h
    case h_2 e he => exact h.insert (h id e he)
  | putEvent event =>
    rw [show s' = s.putEvent event from hact]
    exact h
  | putAttempt attempt =>
    rw [show s' = s.putAttempt attempt from hact]
    exact h
  | now => exact (show s' = s from hact) ▸ h
  | send _ _ _ => exact (show s' = s from hact) ▸ h
  | nextDelaySecs _ _ => exact (show s' = s from hact) ▸ h
  | listAttempts _ _ => exact (show s' = s from hact.2.2) ▸ h
  | newAttemptId => exact (show s' = s from hact.2) ▸ h
  | getEvent _ => exact (show s' = s from hact.2) ▸ h
  | listActiveEndpointsFor _ => exact (show s' = s from hact.2) ▸ h
  | getEndpoint _ => exact (show s' = s from hact.2) ▸ h
  | listDueRetries _ => exact (show s' = s from hact.2) ▸ h

theorem Store.Keyed.of_getEndpoint (h : s.Keyed) {id : Uuid} {e : Endpoint}
    (he : s.getEndpoint id = .ok e) : e.id = id := by
  unfold Store.getEndpoint at he
  split at he
  case h_1 e' hlookup =>
    rw [← Except.ok.inj he]
    exact h id e' hlookup
  case h_2 => cases he

/-- The endpoints an operation reads. -/
def Store.reading (s : Store) : Op → List Endpoint
  | .getEndpoint id => (s.endpoints.lookup id).toList
  | .listActiveEndpointsFor eventType => s.listActiveEndpointsFor eventType
  | _ => []

-- ==== attempts and their ids

def Store.Holds (s : Store) (a : DeliveryAttempt) : Prop :=
  s.attempts.lookup a.id = some a

/-- The attempt is one of the pair's. -/
def DeliveryAttempt.IsFor (a : DeliveryAttempt) (ev ep : Uuid) : Prop :=
  a.eventId = ev ∧ a.endpointId = ep

def DeliveryAttempt.retired (a : DeliveryAttempt) (now : UInt64) : DeliveryAttempt :=
  { a with status := .failed, completedAtUnixSecs := some now }

/-- What is held after an attempt is put. -/
theorem Store.holds_insert {a b : DeliveryAttempt} (h : s'.attempts = s.attempts.insert a.id a) :
    s'.Holds b ↔ b = a ∨ (b.id ≠ a.id ∧ s.Holds b) := by
  unfold Store.Holds
  rw [h, Table.lookup_insert_eq]
  split
  case isTrue heq =>
    constructor
    · intro hab
      exact .inl (Option.some.inj hab).symm
    · intro hb
      rcases hb with rfl | ⟨hne, -⟩
      · rfl
      · exact absurd heq hne
  case isFalse hne =>
    constructor
    · intro hb
      exact .inr ⟨hne, hb⟩
    · intro hb
      rcases hb with rfl | ⟨-, hb⟩
      · exact absurd rfl hne
      · exact hb

/-- Attempts and events are stored under their ids. -/
structure Store.Filed (s : Store) : Prop where
  keyed : ∀ k a, s.attempts.lookup k = some a → a.id = k
  events : ∀ id e, s.events.lookup id = some e → e.id = id

namespace Store.Filed

variable {s s' : Store}

theorem congr (h : s.Filed) (hattempts : s'.attempts = s.attempts)
    (hevents : s'.events = s.events) : s'.Filed := by
  refine ⟨?_, ?_⟩
  · rw [hattempts]
    exact h.keyed
  · rw [hevents]
    exact h.events

theorem insert (h : s.Filed) {a : DeliveryAttempt}
    (hattempts : s'.attempts = s.attempts.insert a.id a)
    (hevents : s'.events = s.events) : s'.Filed := by
  refine ⟨?_, ?_⟩
  · intro k b hb
    rw [hattempts, Table.lookup_insert_eq] at hb
    split at hb
    case isTrue heq => rw [heq, ← Option.some.inj hb]
    case isFalse => exact h.keyed k b hb
  · rw [hevents]
    exact h.events

theorem putEvent (h : s.Filed) {event : WebhookEvent} : (s.putEvent event).Filed := by
  refine ⟨h.keyed, ?_⟩
  intro id e he
  unfold Store.putEvent at he
  simp only [Table.lookup_insert_eq] at he
  split at he
  case isTrue heq => rw [heq, ← Option.some.inj he]
  case isFalse => exact h.events id e he

theorem of_getEvent (h : s.Filed) {id : Uuid} {e : WebhookEvent} (he : s.getEvent id = .ok e) :
    e.id = id ∧ s.events.lookup id = some e := by
  unfold Store.getEvent at he
  split at he
  case h_1 e' hlookup =>
    obtain rfl := Except.ok.inj he
    exact ⟨h.events id e' hlookup, hlookup⟩
  case h_2 => cases he

theorem mem_attemptsOf (h : s.Filed) {ev ep : Uuid} {a : DeliveryAttempt} :
    a ∈ s.attemptsOf ev ep ↔ s.Holds a ∧ a.IsFor ev ep := by
  unfold Store.attemptsOf Store.Holds DeliveryAttempt.IsFor
  rw [List.mem_filter, Table.mem_values]
  simp only [Bool.and_eq_true, decide_eq_true_eq]
  constructor
  · intro ha
    rcases ha with ⟨⟨k, hk⟩, hpair⟩
    refine ⟨?_, hpair⟩
    rw [h.keyed k a hk]
    exact hk
  · intro ha
    exact ⟨⟨a.id, ha.1⟩, ha.2⟩

end Store.Filed

theorem Store.filed_new : Store.new.Filed := by
  refine ⟨?_, ?_⟩
  · intro _ _ h
    cases h
  · intro _ _ h
    cases h

theorem attemptsOf_congr (h : s'.attempts = s.attempts) (ev ep : Uuid) :
    s'.attemptsOf ev ep = s.attemptsOf ev ep := by
  unfold Store.attemptsOf
  rw [h]

-- ==== one dispatcher

/-- One idle dispatcher over an empty store. -/
def System.solo : System := ⟨⟨.new, []⟩, [none]⟩

/-- Endpoints are stored under their ids, and the operation is permitted. -/
def Permits (permit : Call → Op → World → Prop) (call : Call) (op : Op) (w : World) : Prop :=
  w.store.Keyed ∧ permit call op w

/-- What each call has to meet: from the invariant it keeps its assertion
at every operation and ends in the invariant. -/
structure Rules (d : Dispatcher) (cond : System → Label → Prop)
    (permit pre : Call → Op → World → Prop) (inv : World → Prop) : Prop where
  init : inv ⟨.new, []⟩
  stable : ∀ w w', inv w → World.Operated w w' → inv w'
  permits : ∀ sys i call op, cond sys (.perform i call op) → permit call op sys.world
  call : ∀ sys i call, cond sys (.start i call) → inv sys.world →
    Alone 0 (Permits permit call) (pre call) (call.program d) (fun _ => inv) sys.world

/-- The dispatcher is idle with the invariant, or on its way back to it. -/
inductive Solo (permit pre : Call → Op → World → Prop) (inv : World → Prop) :
    System → Prop where
  | idle {w : World} (hinv : inv w) : Solo permit pre inv ⟨w, [none]⟩
  | busy {w : World} {call : Call} {p : Program Outcomes}
      (h : Alone 0 (Permits permit call) (pre call) p (fun _ => inv) w) :
      Solo permit pre inv ⟨w, [some (call, p)]⟩

section
variable {d : Dispatcher} {cond : System → Label → Prop}
  {permit pre : Call → Op → World → Prop} {inv : World → Prop}

theorem only_thread {t u : Thread} {i : Nat} (h : [t][i]? = some u) : i = 0 ∧ t = u := by
  cases i with
  | zero => exact ⟨rfl, Option.some.inj h⟩
  | succ i => cases h

variable {sys sys' : System}

theorem Rules.step (h : Rules d cond permit pre inv) {l : Label}
    (hkeyed : sys.world.store.Keyed) (hsolo : Solo permit pre inv sys)
    (hcond : cond sys l) (hstep : Step d sys l sys') :
    Solo permit pre inv sys' := by
  cases hstep with
  | start call hi =>
    cases hsolo with
    | busy _ => cases (only_thread hi).2
    | idle hinv =>
      obtain rfl := (only_thread hi).1
      exact .busy (h.call _ _ call hcond hinv)
  | perform hi hact =>
    cases hsolo with
    | idle _ => cases (only_thread hi).2
    | busy halone =>
      rcases only_thread hi with ⟨rfl, heq⟩
      cases heq
      refine .busy ((halone _ (operated_refl _)).2 _ _ ⟨⟨hkeyed, ?_⟩, hact⟩)
      exact h.permits _ _ _ _ hcond
  | finish hi =>
    cases hsolo with
    | idle _ => cases (only_thread hi).2
    | busy halone =>
      rcases only_thread hi with ⟨rfl, heq⟩
      cases heq
      exact .idle (halone _ (operated_refl _))
  | operator hop =>
    cases hsolo with
    | idle hinv => exact .idle (h.stable _ _ hinv hop)
    | busy halone => exact .busy (halone.stable @operated_trans hop)

theorem Step.keyed {l : Label} (h : Step d sys l sys')
    (hkeyed : sys.world.store.Keyed) : sys'.world.store.Keyed := by
  cases h with
  | start _ _ => exact hkeyed
  | perform _ hact => exact hkeyed.act hact.1
  | finish _ => exact hkeyed
  | operator hop => exact hkeyed.operated hop

theorem Rules.run (h : Rules d cond permit pre inv) (hrun : Run d cond .solo sys) :
    sys.world.store.Keyed ∧ Solo permit pre inv sys := by
  induction hrun with
  | refl => exact ⟨nofun, .idle h.init⟩
  | tail _ hcond hstep ih =>
    exact ⟨hstep.keyed ih.1, h.step ih.1 ih.2 hcond hstep⟩

/-- At every moment the assertion of the next operation holds, or the
invariant. -/
theorem Solo.now (h : Solo permit pre inv sys) :
    inv sys.world ∨ ∃ call op, pre call op sys.world := by
  cases h with
  | idle hinv => exact .inl hinv
  | @busy w call p halone =>
    cases p with
    | ret a => exact .inl (halone w (operated_refl w))
    | call op k => exact .inr ⟨call, op, (halone w (operated_refl w)).1⟩

/-- Every operation performed meets its assertion. -/
theorem Solo.performs {i : Nat} {call : Call} {op : Op}
    (h : Solo permit pre inv sys) (hstep : Step d sys (.perform i call op) sys') :
    pre call op sys.world := by
  cases hstep with
  | perform hi _ =>
    cases h with
    | idle _ => cases (only_thread hi).2
    | busy halone =>
      rcases only_thread hi with ⟨rfl, heq⟩
      cases heq
      exact (halone _ (operated_refl _)).1

/-- Between two calls the invariant holds. -/
theorem Solo.between (h : Solo permit pre inv sys)
    (hidle : sys.threads = [none]) : inv sys.world := by
  cases h with
  | idle hinv => exact hinv
  | busy _ => cases hidle

end

-- ==== within a call

def Label.isStart : Label → Bool
  | .start _ _ => true
  | _ => false

/-- The dispatcher is in the call and on its way to the postcondition, or
has left it. -/
inductive InCall (permit : Call → Op → World → Prop) (pre : Op → World → Prop)
    (call : Call) (post : Outcomes → World → Prop) : System → Prop where
  | on {w : World} {p : Program Outcomes}
      (h : Alone 0 (Permits permit call) pre p post w) :
      InCall permit pre call post ⟨w, [some (call, p)]⟩
  | left {w : World} : InCall permit pre call post ⟨w, [none]⟩

section
variable {d : Dispatcher} {cond : System → Label → Prop}
  {permit : Call → Op → World → Prop} {pre : Op → World → Prop} {call : Call}
  {post : Outcomes → World → Prop}

variable {sys : System}

theorem InCall.step {sys' : System} {l : Label}
    (h : InCall permit pre call post sys) (hkeyed : sys.world.store.Keyed)
    (hpermits : ∀ i call op, l = .perform i call op →
      permit call op sys.world) (hl : l.isStart = false)
    (hstep : Step d sys l sys') : InCall permit pre call post sys' := by
  cases hstep with
  | start _ _ => cases hl
  | perform hi hact =>
    cases h with
    | left => cases (only_thread hi).2
    | on halone =>
      rcases only_thread hi with ⟨rfl, heq⟩
      cases heq
      refine .on ((halone _ (operated_refl _)).2 _ _ ⟨⟨hkeyed, ?_⟩, hact⟩)
      exact hpermits _ _ _ rfl
  | finish hi =>
    cases h with
    | left => cases (only_thread hi).2
    | on _ =>
      obtain rfl := (only_thread hi).1
      exact .left
  | operator hop =>
    cases h with
    | left => exact .left
    | on halone => exact .on (halone.stable @operated_trans hop)

theorem InCall.run {sys' : System}
    (hpermits : ∀ sys i call op, cond sys (.perform i call op) →
      permit call op sys.world) (hkeyed : sys.world.store.Keyed)
    (h : InCall permit pre call post sys)
    (hrun : Run d (fun sys l => cond sys l ∧ l.isStart = false) sys sys') :
    sys'.world.store.Keyed ∧ InCall permit pre call post sys' := by
  induction hrun with
  | refl => exact ⟨hkeyed, h⟩
  | tail _ hcond hstep ih =>
    refine ⟨hstep.keyed ih.1, ih.2.step ih.1 ?_ hcond.2 hstep⟩
    intro i call op hl
    exact hpermits _ i call op (hl ▸ hcond.1)

/-- From the start of a call to its end: what the call was shown to do
alone. -/
theorem Run.finish {sys₁ sys₂ sys₃ : System} {i j : Nat} {result : Outcomes}
    (hpermits : ∀ sys i call op, cond sys (.perform i call op) →
      permit call op sys.world) (hkeyed : sys.world.store.Keyed) (hidle : sys.threads = [none])
    (halone : Alone 0 (Permits permit call) pre (call.program d) post
      sys.world) (hstart : Step d sys (.start i call) sys₁)
    (hrun : Run d (fun sys l => cond sys l ∧ l.isStart = false) sys₁ sys₂)
    (hfinish : Step d sys₂ (.finish j call result) sys₃) :
    post result sys₃.world := by
  have hbegin : sys₁.world.store.Keyed ∧ InCall permit pre call post sys₁ := by
    cases hstart with
    | start _ hi =>
      rw [hidle] at hi
      obtain rfl := (only_thread hi).1
      refine ⟨hkeyed, ?_⟩
      rw [hidle]
      exact .on halone
  have hend := (hbegin.2.run hpermits hbegin.1 hrun).2
  cases hfinish with
  | finish hi =>
    cases hend with
    | left => cases (only_thread hi).2
    | on halone' =>
      cases (only_thread hi).2
      exact halone' _ (operated_refl _)

end

-- ==== schedules

/-- What the outside answers. -/
structure Answers where
  now : UInt64
  attemptId : Uuid
  response : Except String HttpResponse
  delay : Option UInt64

/-- The answer to an operation; tables list in their own order. -/
def Op.answer (a : Answers) (s : Store) : (op : Op) → Reply op × Store
  | .now => (a.now, s)
  | .newAttemptId => (a.attemptId, s)
  | .send _ _ _ => (a.response, s)
  | .nextDelaySecs _ _ => (a.delay, s)
  | .putEvent event => ((), s.putEvent event)
  | .getEvent id => (s.getEvent id, s)
  | .listActiveEndpointsFor eventType =>
    (s.listActiveEndpointsFor eventType, s)
  | .getEndpoint id => (s.getEndpoint id, s)
  | .setEndpointStatus id status => s.setEndpointStatus id status
  | .setEndpointConsecutiveFailures id failures =>
    s.setEndpointConsecutiveFailures id failures
  | .putAttempt attempt => ((), s.putAttempt attempt)
  | .listAttempts eventId endpointId =>
    ((s.attemptsOf eventId endpointId).insertionSort
      fun a b => a.attemptNumber ≤ b.attemptNumber, s)
  | .listDueRetries nowUnixSecs => (s.listDueRetries nowUnixSecs, s)

def Op.fresh (a : Answers) (s : Store) : Op → Bool
  | .newAttemptId => (s.attempts.lookup a.attemptId).isNone
  | _ => true

theorem Op.answer_act {a : Answers} {op : Op} (hfresh : op.fresh a s = true) :
    s.Act op (op.answer a s).1 (op.answer a s).2 := by
  cases op with
  | newAttemptId => exact ⟨Option.isNone_iff_eq_none.1 hfresh, rfl⟩
  | listActiveEndpointsFor _ => exact ⟨List.Perm.refl _, rfl⟩
  | listDueRetries _ => exact ⟨List.Perm.refl _, rfl⟩
  | listAttempts eventId endpointId =>
    have : Std.Total fun a b : DeliveryAttempt =>
        a.attemptNumber ≤ b.attemptNumber :=
      ⟨fun _ _ => UInt32.le_total _ _⟩
    have : IsTrans DeliveryAttempt fun a b =>
        a.attemptNumber ≤ b.attemptNumber :=
      ⟨fun _ _ _ => UInt32.le_trans⟩
    exact ⟨List.perm_insertionSort _ _, List.pairwise_insertionSort _ _, rfl⟩
  | getEvent _ => exact ⟨rfl, rfl⟩
  | getEndpoint _ => exact ⟨rfl, rfl⟩
  | _ => rfl

/-- A move of a schedule. -/
inductive Move where
  | start (thread : Nat) (call : Call)
  | perform (thread : Nat) (answers : Answers)
  | finish (thread : Nat)
  | operator (endpoint : Endpoint)

/-- The step of a move, where there is one. -/
def System.move (d : Dispatcher) (sys : System) : Move → Option (Label × System)
  | .start i call =>
    match sys.threads[i]? with
    | some none => some (.start i call,
        ⟨sys.world, sys.threads.set i (some (call, call.program d))⟩)
    | _ => none
  | .perform i answers =>
    match sys.threads[i]? with
    | some (some (call, .call op k)) =>
      if op.fresh answers sys.world.store then
        let (r, store) := op.answer answers sys.world.store
        some (.perform i call op, ⟨⟨store, ⟨i, op, r⟩ :: sys.world.log⟩,
          sys.threads.set i (some (call, k r))⟩)
      else none
    | _ => none
  | .finish i =>
    match sys.threads[i]? with
    | some (some (call, .ret result)) =>
      some (.finish i call result, ⟨sys.world, sys.threads.set i none⟩)
    | _ => none
  | .operator endpoint =>
    some (.operator, ⟨⟨sys.world.store.putEndpoint endpoint, sys.world.log⟩, sys.threads⟩)

theorem System.move_step {sys' : System} {m : Move} {l : Label}
    (h : sys.move d m = some (l, sys')) : Step d sys l sys' := by
  cases m with
  | start i call =>
    simp only [System.move] at h
    split at h
    case h_1 hi =>
      cases h
      exact .start call hi
    case h_2 => cases h
  | perform i answers =>
    simp only [System.move] at h
    split at h
    case h_1 op k hi =>
      split at h
      case isTrue hfresh =>
        cases h
        exact .perform hi ⟨Op.answer_act hfresh, rfl⟩
      case isFalse => cases h
    case h_2 => cases h
  | finish i =>
    simp only [System.move] at h
    split at h
    case h_1 hi =>
      cases h
      exact .finish hi
    case h_2 => cases h
  | operator endpoint =>
    cases h
    refine .operator ⟨rfl, rfl, ?_, ?_, rfl⟩
    · intro id hid
      simp only [Store.putEndpoint, Table.lookup_insert_eq] at hid
      split at hid
      · cases hid
      · exact hid
    · intro id e he
      simp only [Store.putEndpoint, Table.lookup_insert_eq] at he
      split at he
      case isTrue heq =>
        rw [heq, ← Option.some.inj he]
        exact .inr rfl
      case isFalse => exact .inl he

/-- The moves of a schedule in turn, as long as they meet the condition. -/
def System.drive (d : Dispatcher) (cond : System → Label → Prop)
    [∀ sys l, Decidable (cond sys l)] : List Move → System → Option System
  | [], sys => some sys
  | m :: moves, sys =>
    match sys.move d m with
    | some (l, sys') =>
      if cond sys l then System.drive d cond moves sys' else none
    | none => none

theorem Run.trans {cond : System → Label → Prop} {mid last : System}
    (h : Run d cond sys mid) (h' : Run d cond mid last) :
    Run d cond sys last := by
  induction h' with
  | refl => exact h
  | tail _ hcond hstep ih => exact .tail ih hcond hstep

/-- A schedule that goes through is a run. -/
theorem System.drive_run {cond : System → Label → Prop}
    [∀ sys l, Decidable (cond sys l)] {moves : List Move} {last : System}
    (h : sys.drive d cond moves = some last) : Run d cond sys last := by
  induction moves generalizing sys with
  | nil =>
    cases h
    exact .refl _
  | cons m moves ih =>
    unfold System.drive at h
    split at h
    case h_1 l sys' hmove =>
      split at h
      case isTrue hcond =>
        have hone : Run d cond sys sys' :=
          .tail (.refl sys) hcond (System.move_step hmove)
        exact hone.trans (ih h)
      case isFalse => cases h
    case h_2 => cases h

/-- A whole call of thread `i`, with the same answers throughout. -/
def Move.through (i : Nat) (call : Call) (operations : Nat) (answers : Answers) : List Move :=
  .start i call :: (List.replicate operations (.perform i answers) ++ [.finish i])

/-- The defaults, with the keyed hash of the one payload signed below. -/
def Dispatcher.stripeLike : Dispatcher where
  shouldRetry := exponentialShouldRetry
  disableAfterConsecutiveFailures := 10
  hmacSha256 _ _ := [184, 86, 155, 120, 121, 159, 249, 227, 203, 255, 15, 194,
    214, 58, 51, 162, 181, 127, 50, 130, 171, 208, 124, 55, 174, 94, 142, 125,
    121, 165, 241, 99]
  timeoutSecs := 10
  contentType := "application/json"

/-- An endpoint for everything, with the secret `secret`. -/
def Endpoint.merchant : Endpoint where
  id := ⟨1⟩
  url := "https://merchant.example.com/h"
  secret := [115, 101, 99, 114, 101, 116]
  eventFilters := ["*"]
  status := .active
  consecutiveFailures := 0

/-- An event with the body `\x7b\x7d`. -/
def WebhookEvent.posted : WebhookEvent :=
  ⟨⟨2⟩, "ledger.txn.posted", [123, 125], 1700000000⟩

/-- At the time of the event, the endpoint answers with the status; a
retry is due at once. -/
def Answers.status (attemptId : Nat) (status : UInt16) : Answers :=
  ⟨1700000000, ⟨attemptId⟩, .ok ⟨status, []⟩, some 0⟩

end OpenStandards.OpWebhook

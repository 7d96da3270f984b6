/-
Retries are unique and stop on success, as long as no replay overtakes
them.

A scheduled attempt is the last of its pair: it has the largest number and
no success beside it. A retry keeps this by retiring the scheduled attempt
first. A replay retires nothing: made while a retry is pending it leaves
two attempts scheduled, or a success with a retry to come, and the retry
then takes the number the replay took.
-/
import OpenStandards.OpWebhook.Proofs.Solo

namespace OpenStandards.OpWebhook

open Lib
open OpLedger (Uuid)

-- ==== the attempts

/-- Events are known, the numbers of a pair are distinct, and a scheduled
attempt has the largest and no success beside it. -/
structure Store.Orderly (s : Store) : Prop where
  filed : s.Filed
  known : ∀ a, s.Holds a → (s.events.lookup a.eventId).isSome
  distinct : ∀ a b, s.Holds a → s.Holds b → b.IsFor a.eventId a.endpointId →
    b.attemptNumber = a.attemptNumber → b = a
  last : ∀ a b, s.Holds a → s.Holds b → b.IsFor a.eventId a.endpointId →
    a.status = .retryScheduled →
    b.attemptNumber ≤ a.attemptNumber ∧ b.status ≠ .succeeded

/-- The attempt number `n` is after the pair's others, and nothing of the
pair is pending or, before a request, done. -/
structure Store.Room (s : Store) (signed : Bool) (ev ep : Uuid) (n : UInt32) : Prop where
  orderly : s.Orderly
  event : (s.events.lookup ev).isSome
  below : ∀ a, s.Holds a → a.IsFor ev ep → a.attemptNumber < n ∧ a.status ≠ .retryScheduled
  undone : signed = true → ∀ a, s.Holds a → a.IsFor ev ep → a.status ≠ .succeeded

namespace Store.Orderly

variable {s s' : Store}

theorem congr (h : s.Orderly) (hattempts : s'.attempts = s.attempts)
    (hevents : s'.events = s.events) : s'.Orderly := by
  have hholds : ∀ a, s'.Holds a ↔ s.Holds a := by
    intro a
    unfold Store.Holds
    rw [hattempts]
  refine ⟨h.filed.congr hattempts hevents, ?_, ?_, ?_⟩
  · intro a ha
    rw [hevents]
    exact h.known a ((hholds a).1 ha)
  · intro a b ha hb
    exact h.distinct a b ((hholds a).1 ha) ((hholds b).1 hb)
  · intro a b ha hb
    exact h.last a b ((hholds a).1 ha) ((hholds b).1 hb)

theorem operated {w w' : World} (h : w.store.Orderly)
    (hop : World.Operated w w') : w'.store.Orderly :=
  h.congr hop.attempts hop.events

/-- A new event, whose pairs have no attempts. -/
theorem putEvent (h : s.Orderly) {event : WebhookEvent} : (s.putEvent event).Orderly := by
  refine ⟨h.filed.putEvent, ?_, h.distinct, h.last⟩
  intro a ha
  unfold Store.putEvent
  simp only [Table.lookup_insert_eq]
  split
  · rfl
  · exact h.known a ha

theorem retire (h : s.Orderly) {a : DeliveryAttempt} (ha : s.Holds a)
    (hstatus : a.status = .retryScheduled) {now : UInt64}
    (hs : s' = s.putAttempt (a.retired now)) :
    s'.Orderly ∧ ∀ b, s'.Holds b → b.IsFor a.eventId a.endpointId →
      b.attemptNumber ≤ a.attemptNumber
        ∧ b.status ≠ .retryScheduled ∧ b.status ≠ .succeeded := by
  have hattempts : s'.attempts = s.attempts.insert (a.retired now).id (a.retired now) := by
    rw [hs]
    rfl
  have hholds := fun b => Store.holds_insert (b := b) hattempts
  have hevents : s'.events = s.events := by
    rw [hs]
    rfl
  -- another attempt with the same number would have been the same
  have hother : ∀ b, b.id ≠ a.id → s.Holds b →
      b.IsFor a.eventId a.endpointId → b.attemptNumber ≠ a.attemptNumber := by
    intro b hne hb hpair heq
    exact hne (congrArg DeliveryAttempt.id (h.distinct a b ha hb hpair heq))
  refine ⟨⟨h.filed.insert hattempts hevents, ?_, ?_, ?_⟩, ?_⟩
  · intro b hb
    rw [hevents]
    rcases (hholds b).1 hb with rfl | ⟨-, hb⟩
    · exact h.known a ha
    · exact h.known b hb
  · intro b c hb hc hpair heq
    rcases (hholds b).1 hb with rfl | ⟨hbne, hb⟩
    · rcases (hholds c).1 hc with rfl | ⟨hcne, hc⟩
      · rfl
      · exact absurd heq (hother c hcne hc hpair)
    · rcases (hholds c).1 hc with rfl | ⟨hcne, hc⟩
      · exact absurd heq.symm (hother b hbne hb ⟨hpair.1.symm, hpair.2.symm⟩)
      · exact h.distinct b c hb hc hpair heq
  · intro b c hb hc hpair hsched
    rcases (hholds b).1 hb with rfl | ⟨-, hb⟩
    · cases hsched
    · rcases (hholds c).1 hc with rfl | ⟨-, hc⟩
      · exact ⟨(h.last b a hb ha hpair hsched).1, nofun⟩
      · exact h.last b c hb hc hpair hsched
  · intro b hb hpair
    rcases (hholds b).1 hb with rfl | ⟨hne, hb⟩
    · exact ⟨UInt32.le_refl _, nofun, nofun⟩
    · have hlast := h.last a b ha hb hpair hstatus
      refine ⟨hlast.1, ?_, hlast.2⟩
      intro hsched
      have hback := (h.last b a hb ha ⟨hpair.1.symm, hpair.2.symm⟩ hsched).1
      exact hother b hne hb hpair (UInt32.le_antisymm hlast.1 hback)

end Store.Orderly

theorem Store.Room.attempted {d : Dispatcher} {signed : Bool}
    {ev ep : Uuid} {n : UInt32} {w w' : World} {a : DeliveryAttempt}
    (h : w.store.Room signed ev ep n)
    (hput : Attempted d signed ev ep n a w w') : w'.store.Orderly := by
  have hholds := fun b => Store.holds_insert (b := b) hput.attempts
  have hpair : a.IsFor ev ep := ⟨hput.eventId, hput.endpointId⟩
  refine ⟨h.orderly.filed.insert hput.attempts hput.events, ?_, ?_, ?_⟩
  · intro b hb
    rw [hput.events]
    rcases (hholds b).1 hb with rfl | ⟨-, hb⟩
    · rw [hput.eventId]
      exact h.event
    · exact h.orderly.known b hb
  · intro b c hb hc hbc heq
    rcases (hholds b).1 hb with rfl | ⟨-, hb⟩
    · rcases (hholds c).1 hc with rfl | ⟨-, hc⟩
      · rfl
      · rw [hpair.1, hpair.2] at hbc
        have hlt := (h.below c hc hbc).1
        rw [heq, hput.attemptNumber] at hlt
        exact absurd hlt (UInt32.lt_irrefl n)
    · rcases (hholds c).1 hc with rfl | ⟨-, hc⟩
      · have hb' : b.IsFor ev ep :=
          ⟨hbc.1.symm.trans hpair.1, hbc.2.symm.trans hpair.2⟩
        have hlt := (h.below b hb hb').1
        rw [← heq, hput.attemptNumber] at hlt
        exact absurd hlt (UInt32.lt_irrefl n)
      · exact h.orderly.distinct b c hb hc hbc heq
  · intro b c hb hc hbc hsched
    rcases (hholds b).1 hb with rfl | ⟨-, hb⟩
    · rcases (hholds c).1 hc with rfl | ⟨-, hc⟩
      · refine ⟨UInt32.le_refl _, ?_⟩
        rw [hsched]
        nofun
      · rw [hpair.1, hpair.2] at hbc
        -- only a request can have been answered so
        have hsigned : signed = true := by
          cases signed with
          | true => rfl
          | false =>
            rw [hput.unsigned rfl] at hsched
            cases hsched
        rw [hput.attemptNumber]
        exact ⟨UInt32.le_of_lt (h.below c hc hbc).1, h.undone hsigned c hc hbc⟩
    · rcases (hholds c).1 hc with rfl | ⟨-, hc⟩
      · have hb' : b.IsFor ev ep :=
          ⟨hbc.1.symm.trans hpair.1, hbc.2.symm.trans hpair.2⟩
        exact absurd hsched (h.below b hb hb').2
      · exact h.orderly.last b c hb hc hbc hsched

-- ==== the calls

def Call.isReplay : Call → Bool
  | .replay _ _ => true
  | _ => false

/-- The attempts of the pair a new attempt is recorded for. -/
def Store.preceding (s : Store) : Op → List DeliveryAttempt
  | .putAttempt a =>
    if (s.attempts.lookup a.id).isNone then
      s.attemptsOf a.eventId a.endpointId
    else []
  | _ => []

/-- The attempts of the pair a request is for. -/
def Store.requested (s : Store) : Op → List DeliveryAttempt
  | .send ev ep _ => s.attemptsOf ev ep
  | _ => []

/-- No attempt is recorded after the last number, none by a replay while
one is pending, and a replay's request finds no success. -/
def Unpending (call : Call) (op : Op) (w : World) : Prop :=
  (∀ a ∈ w.store.preceding op, a.attemptNumber.toNat + 1 < 2 ^ 32
    ∧ (call.isReplay = true → a.status ≠ .retryScheduled))
  ∧ ∀ a ∈ w.store.requested op, call.isReplay = true → a.status ≠ .succeeded

instance (call : Call) (op : Op) (w : World) : Decidable (Unpending call op w) :=
  inferInstanceAs (Decidable ((∀ a ∈ w.store.preceding op, _) ∧ ∀ a ∈ w.store.requested op, _))

section
variable {call : Call} {ev ep : Uuid} {w : World} {signed : Bool}

theorem Recorded.unpending (h : Recorded (Permits Unpending call) ev ep w) :
    ∀ b ∈ w.store.attemptsOf ev ep, b.attemptNumber.toNat + 1 < 2 ^ 32
      ∧ (call.isReplay = true → b.status ≠ .retryScheduled) := by
  rcases h with ⟨a, w₁, hpermit, rfl, rfl, hfresh, hattempts⟩
  intro b hb
  refine hpermit.2.1 b ?_
  unfold Store.preceding
  simp only [hattempts, hfresh, Option.isNone_none, if_true]
  rw [attemptsOf_congr hattempts]
  exact hb

theorem Permitted.undone (h : Permitted (Permits Unpending call) signed ev ep w)
    (hreplay : call.isReplay = true) (hsigned : signed = true) :
    ∀ b ∈ w.store.attemptsOf ev ep, b.status ≠ .succeeded := by
  rcases h.sent hsigned with ⟨request, w₁, hpermit, hattempts⟩
  intro b hb
  refine hpermit.2.2 b ?_ hreplay
  show b ∈ w₁.store.attemptsOf ev ep
  rw [attemptsOf_congr hattempts]
  exact hb

end

/-- At every operation the store is orderly, and no retry is sent for a
pair that has succeeded. -/
def Asserted (call : Call) (op : Op) (w : World) : Prop :=
  w.store.Orderly ∧ (call = .processDueRetries →
    ∀ ev ep request, op = .send ev ep request →
      ∀ a, w.store.Holds a → a.IsFor ev ep → a.status ≠ .succeeded)

/-- What a delivery leaves of the attempts and the events. -/
structure Delivered (ev ep : Uuid) (w w' : World) : Prop where
  orderly : w'.store.Orderly
  events : w'.store.events = w.store.events
  kept : ∀ a, w.store.Holds a → w'.store.Holds a
  only : ∀ a, w'.store.Holds a → w.store.Holds a ∨ a.IsFor ev ep

theorem Delivered.operated {ev ep : Uuid} {w w₁ w' : World}
    (h : Delivered ev ep w w₁) (hop : World.Operated w₁ w') :
    Delivered ev ep w w' := by
  have hholds : ∀ a, w'.store.Holds a ↔ w₁.store.Holds a := by
    intro a
    unfold Store.Holds
    rw [hop.attempts]
  refine ⟨h.orderly.operated hop, hop.events.trans h.events, ?_, ?_⟩
  · intro a ha
    exact (hholds a).2 (h.kept a ha)
  · intro a ha
    exact h.only a ((hholds a).1 ha)

section
variable {d : Dispatcher} {call : Call} {event : WebhookEvent}
  {endpoint : Endpoint} {number : UInt32} {w : World}

theorem safe_delivery (horderly : w.store.Orderly)
    (hroom : endpoint.status.isBlocking = false →
      Permitted (Permits Unpending call) endpoint.signs event.id endpoint.id w →
      w.store.Room endpoint.signs event.id endpoint.id number)
    (hopen : call = .processDueRetries → ∀ a, w.store.Holds a →
      a.IsFor event.id endpoint.id → a.status ≠ .succeeded) :
    Alone 0 (Permits Unpending call) (Asserted call)
      (dispatchSingle d event endpoint number)
      (fun _ w' => Delivered event.id endpoint.id w w') w := by
  cases hblocking : endpoint.status.isBlocking with
  | true =>
    unfold dispatchSingle
    rw [hblocking, if_pos rfl]
    intro w' hop
    refine Delivered.operated ?_ hop
    exact ⟨horderly, rfl, fun _ h => h, fun _ h => .inl h⟩
  | false =>
    refine (safe_dispatchSingle (d := d) hblocking ?_ ?_).mono ?_
    · intro op w₁ hop helse
      refine ⟨horderly.congr helse.attempts helse.events, ?_⟩
      intro hcall ev ep request heq a ha hpair
      rcases hop ev ep request heq with ⟨rfl, rfl⟩
      refine hopen hcall a ?_ hpair
      unfold Store.Holds at ha ⊢
      rw [← helse.attempts]
      exact ha
    · intro a id failures w₁ hsent hput
      exact ⟨(hroom hblocking hsent).attempted hput, nofun⟩
    · intro _ w' h
      rcases h with ⟨hsent, a, hput⟩
      have hholds := fun b => Store.holds_insert (b := b) hput.attempts
      refine ⟨(hroom hblocking hsent).attempted hput, hput.events, ?_, ?_⟩
      · intro b hb
        refine (hholds b).2 (.inr ⟨?_, hb⟩)
        intro heq
        unfold Store.Holds at hb
        rw [heq, hput.fresh] at hb
        cases hb
      · intro b hb
        rcases (hholds b).1 hb with rfl | ⟨-, hb⟩
        · exact .inr ⟨hput.eventId, hput.endpointId⟩
        · exact .inl hb

/-- The event is stored and its pairs with the endpoints are untried. -/
structure Untried (event : WebhookEvent) (items : List Endpoint) (w : World) : Prop where
  orderly : w.store.Orderly
  known : (w.store.events.lookup event.id).isSome
  nodup : (items.map Endpoint.id).Nodup
  free : ∀ e ∈ items, ∀ a, w.store.Holds a → ¬ a.IsFor event.id e.id

theorem Untried.operated {items : List Endpoint} {w' : World}
    (h : Untried event items w) (hop : World.Operated w w') :
    Untried event items w' := by
  refine ⟨h.orderly.operated hop, ?_, h.nodup, ?_⟩
  · rw [hop.events]
    exact h.known
  · intro e he a ha
    unfold Store.Holds at ha
    rw [hop.attempts] at ha
    exact h.free e he a ha

/-- The first attempt with the next endpoint. -/
theorem Untried.deliver {items : List Endpoint} (h : Untried event (endpoint :: items) w) :
    Alone 0 (Permits Unpending (.dispatch event)) (Asserted (.dispatch event))
      (dispatchSingle d event endpoint 0) (fun _ => Untried event items) w := by
  have hfree := h.free endpoint List.mem_cons_self
  have hroom : w.store.Room endpoint.signs event.id endpoint.id 0 :=
    ⟨h.orderly, h.known, fun a ha hpair => absurd hpair (hfree a ha),
      fun _ a ha hpair => absurd hpair (hfree a ha)⟩
  refine (safe_delivery h.orderly (fun _ _ => hroom) ?_).mono ?_
  case refine_1 => exact nofun
  intro _ w' hdel
  have hnodup := h.nodup
  rw [List.map_cons, List.nodup_cons] at hnodup
  refine ⟨hdel.orderly, ?_, hnodup.2, ?_⟩
  · rw [hdel.events]
    exact h.known
  · intro e he a ha hpair
    rcases hdel.only a ha with hold | hnewer
    · exact h.free e (List.mem_cons_of_mem _ he) a hold hpair
    · apply hnodup.1
      rw [← hnewer.2, hpair.2]
      exact List.mem_map_of_mem he

/-- Every matching endpoint gets the first attempt of a new event. -/
theorem safe_dispatch (horderly : w.store.Orderly)
    (hnew : w.store.events.lookup event.id = none) :
    Alone 0 (Permits Unpending (.dispatch event))
      (Asserted (.dispatch event)) (dispatch d event)
      (fun _ w' => w'.store.Orderly) w := by
  apply Prog.Safe.perform
  intro w₁ h₁
  refine ⟨⟨horderly.operated h₁, nofun⟩, fun _ w₂ hput => ?_⟩
  have hstore : w₂.store = w₁.store.putEvent event := hput.2.1
  have horderly₂ : w₂.store.Orderly := by
    rw [hstore]
    exact (horderly.operated h₁).putEvent
  -- the pairs of the event have no attempts yet
  have hnone : ∀ a, w₂.store.Holds a → a.eventId ≠ event.id := by
    intro a ha heq
    rw [hstore] at ha
    have hknown := (horderly.operated h₁).known a ha
    rw [heq, h₁.events, hnew] at hknown
    cases hknown
  have hevent : (w₂.store.events.lookup event.id).isSome := by
    rw [hstore]
    unfold Store.putEvent
    simp
  apply Prog.Safe.perform
  intro w₃ h₃
  refine ⟨⟨horderly₂.operated h₃, nofun⟩, fun items w₄ hlist => ?_⟩
  have hkeyed : w₃.store.Keyed := hlist.1.1
  have hperm : items.Perm (w₃.store.listActiveEndpointsFor event.eventType) :=
    hlist.2.1.1
  have hstore₄ : w₄.store = w₃.store := hlist.2.1.2
  have hinit : Untried event items w₄ := by
    refine ⟨hstore₄ ▸ horderly₂.operated h₃, ?_, ?_, ?_⟩
    · rw [hstore₄, h₃.events]
      exact hevent
    · rw [(hperm.map Endpoint.id).nodup_iff]
      exact (List.filter_sublist.map _).nodup (Table.nodup_map_values hkeyed)
    · intro e _ a ha hpair
      unfold Store.Holds at ha
      rw [hstore₄, h₃.attempts] at ha
      exact hnone a ha hpair.1
  have hstable : ∀ items w w', Untried event items w →
      World.Operated w w' → Untried event items w' :=
    fun _ _ _ => Untried.operated
  refine (Prog.Safe.each operated_refl hstable
    (fun _ _ _ => Untried.deliver) hinit).bind operated_refl ?_
  intro _ w₅ hdone w₆ hop
  exact hdone.orderly.operated hop

theorem le_getLast {l : List DeliveryAttempt} {a b : DeliveryAttempt}
    (hsorted : l.Pairwise fun a b => a.attemptNumber ≤ b.attemptNumber)
    (hlast : l.getLast? = some b) (ha : a ∈ l) :
    a.attemptNumber ≤ b.attemptNumber := by
  rcases List.eq_nil_or_concat l with rfl | ⟨init, c, rfl⟩
  · cases ha
  · rw [List.concat_eq_append] at hsorted hlast ha
    rw [List.getLast?_concat] at hlast
    obtain rfl := Option.some.inj hlast
    rcases List.mem_append.1 ha with hinit | hc
    · exact (List.pairwise_append.1 hsorted).2.2 a hinit c (List.mem_singleton.2 rfl)
    · rw [List.mem_singleton.1 hc]
      exact UInt32.le_refl _

/-- The next number is above where it does not overflow. -/
theorem lt_succ {m n : UInt32} (hle : m ≤ n) (hn : n.toNat + 1 < 2 ^ 32) : m < n + 1 := by
  rw [UInt32.lt_iff_toNat_lt, UInt32.toNat_add, UInt32.toNat_one, Nat.mod_eq_of_lt hn]
  rw [UInt32.le_iff_toNat_le] at hle
  omega

/-- A replay numbers its attempt after the others, and is made where
nothing is pending. -/
theorem safe_replay (eventId endpointId : Uuid) (horderly : w.store.Orderly) :
    Alone 0 (Permits Unpending (.replay eventId endpointId))
      (Asserted (.replay eventId endpointId)) (replay d eventId endpointId)
      (fun _ w' => w'.store.Orderly) w := by
  apply Prog.Safe.perform
  intro w₁ h₁
  have horderly₁ := horderly.operated h₁
  refine ⟨⟨horderly₁, nofun⟩, fun r w₂ hget => ?_⟩
  rcases hget.2.1 with ⟨hr, hstore₂⟩
  cases r with
  | error e => exact fun w₃ h₃ => (hstore₂ ▸ horderly₁).operated h₃
  | ok event =>
    rcases horderly₁.filed.of_getEvent hr.symm with ⟨rfl, hevent⟩
    have horderly₂ : w₂.store.Orderly := hstore₂ ▸ horderly₁
    apply Prog.Safe.perform
    intro w₃ h₃
    have horderly₃ := horderly₂.operated h₃
    refine ⟨⟨horderly₃, nofun⟩, fun r w₄ hget' => ?_⟩
    rcases hget'.2.1 with ⟨hr', hstore₄⟩
    have horderly₄ : w₄.store.Orderly := hstore₄ ▸ horderly₃
    cases r with
    | error e => exact fun w₅ h₅ => horderly₄.operated h₅
    | ok endpoint =>
      have hid : endpoint.id = endpointId :=
        hget'.1.1.of_getEndpoint hr'.symm
      subst hid
      apply Prog.Safe.perform
      intro w₅ h₅
      have horderly₅ := horderly₄.operated h₅
      refine ⟨⟨horderly₅, nofun⟩, fun existing w₆ hlist => ?_⟩
      rcases hlist.2.1 with ⟨hperm, hsorted, hstore₆⟩
      have horderly₆ : w₆.store.Orderly := hstore₆ ▸ horderly₅
      have hevent₆ : (w₆.store.events.lookup event.id).isSome := by
        rw [hstore₆, h₅.events, hstore₄, h₃.events, hstore₂, hevent]
        rfl
      refine (safe_delivery horderly₆ ?_ ?_).bind operated_refl
        fun _ w₇ hdel w₈ h₈ => hdel.orderly.operated h₈
      case refine_2 => exact nofun
      intro _ hsent
      have hunpending := hsent.recorded.unpending
      refine ⟨horderly₆, hevent₆, fun a ha hpair => ?_,
        fun hsigned a ha hpair => hsent.undone rfl hsigned a
          (horderly₆.filed.mem_attemptsOf.2 ⟨ha, hpair⟩)⟩
      have hmem : a ∈ w₆.store.attemptsOf event.id endpoint.id :=
        horderly₆.filed.mem_attemptsOf.2 ⟨ha, hpair⟩
      refine ⟨?_, (hunpending a hmem).2 rfl⟩
      rw [hstore₆, ← hperm.mem_iff] at hmem
      -- some attempt is listed, so there is a last one
      cases hlast : existing.getLast? with
      | none =>
        rw [List.getLast?_eq_none_iff.1 hlast] at hmem
        cases hmem
      | some b =>
        have hb := List.mem_of_getLast? hlast
        rw [hperm.mem_iff, ← hstore₆] at hb
        exact lt_succ (le_getLast hsorted hlast hmem) (hunpending b hb).1

/-- The loop over the retries that are due: each is stored as it was
listed until its turn. -/
theorem safe_retryEach (now : UInt64) {due : List DeliveryAttempt} (horderly : w.store.Orderly)
    (hdue : ∀ a ∈ due, w.store.Holds a ∧ a.status = .retryScheduled)
    (hnodup : (due.map DeliveryAttempt.id).Nodup) :
    Alone 0 (Permits Unpending .processDueRetries)
      (Asserted .processDueRetries) (retryEach d now due)
      (fun _ w' => w'.store.Orderly) w := by
  induction due generalizing w with
  | nil => exact fun w' hop => horderly.operated hop
  | cons a due ih =>
    rw [List.map_cons, List.nodup_cons] at hnodup
    have hkeep : ∀ w' : World, (∀ b, b.id ≠ a.id → w.store.Holds b →
        w'.store.Holds b) →
        ∀ b ∈ due, w'.store.Holds b ∧ b.status = .retryScheduled := by
      intro w' hw' b hb
      have hb' := hdue b (List.mem_cons_of_mem _ hb)
      refine ⟨hw' b ?_ hb'.1, hb'.2⟩
      intro heq
      exact hnodup.1 (heq ▸ List.mem_map_of_mem hb)
    apply Prog.Safe.perform
    intro w₁ h₁
    have horderly₁ := horderly.operated h₁
    refine ⟨⟨horderly₁, nofun⟩, fun r w₂ hget => ?_⟩
    rcases hget.2.1 with ⟨hr, hstore₂⟩
    have horderly₂ : w₂.store.Orderly := hstore₂ ▸ horderly₁
    cases r with
    | error e => exact fun w₃ h₃ => horderly₂.operated h₃
    | ok event =>
    have hevent := horderly₁.filed.of_getEvent hr.symm
    apply Prog.Safe.perform
    intro w₃ h₃
    have horderly₃ := horderly₂.operated h₃
    refine ⟨⟨horderly₃, nofun⟩, fun r w₄ hget' => ?_⟩
    rcases hget'.2.1 with ⟨hr', hstore₄⟩
    have horderly₄ : w₄.store.Orderly := hstore₄ ▸ horderly₃
    have hattempts₄ : w₄.store.attempts = w.store.attempts := by
      rw [hstore₄, h₃.attempts, hstore₂, h₁.attempts]
    cases r with
    | error e =>
      -- the endpoint is not there: the attempt stays scheduled
      refine ih horderly₄ (hkeep w₄ fun b _ hb => ?_) hnodup.2
      unfold Store.Holds
      rw [hattempts₄]
      exact hb
    | ok endpoint =>
    have hid : endpoint.id = a.endpointId :=
      hget'.1.1.of_getEndpoint hr'.symm
    apply Prog.Safe.perform
    intro w₅ h₅
    have horderly₅ := horderly₄.operated h₅
    refine ⟨⟨horderly₅, nofun⟩, fun _ w₆ hput => ?_⟩
    have hstore₆ : w₆.store = w₅.store.putAttempt (a.retired now) :=
      hput.2.1
    have hattempts₅ : w₅.store.attempts = w.store.attempts :=
      h₅.attempts.trans hattempts₄
    have hholds : w₅.store.Holds a := by
      unfold Store.Holds
      rw [hattempts₅]
      exact (hdue a List.mem_cons_self).1
    rcases horderly₅.retire hholds (hdue a List.mem_cons_self).2 hstore₆
      with ⟨horderly₆, hretired⟩
    have hinsert : w₆.store.attempts
        = w₅.store.attempts.insert (a.retired now).id (a.retired now) := by
      rw [hstore₆]
      rfl
    have hevents₆ : w₆.store.events = w₁.store.events := by
      rw [hstore₆]
      show w₅.store.events = _
      rw [h₅.events, hstore₄, h₃.events, hstore₂]
    have hpair : ∀ b : DeliveryAttempt, b.IsFor event.id endpoint.id →
        b.IsFor a.eventId a.endpointId := by
      intro b hb
      rw [hevent.1, hid] at hb
      exact hb
    refine (safe_delivery horderly₆ ?_ ?_).bind operated_refl ?_
    · -- the number after the retired one
      intro _ hsent
      refine ⟨horderly₆, ?_, fun b hb hbpair => ?_,
        fun _ b hb hbpair => (hretired b hb (hpair b hbpair)).2.2⟩
      · rw [hevents₆, hevent.1, hevent.2]
        rfl
      · have hb' := hretired b hb (hpair b hbpair)
        refine ⟨lt_succ hb'.1 ?_, hb'.2.1⟩
        refine (hsent.recorded.unpending (a.retired now) ?_).1
        rw [horderly₆.filed.mem_attemptsOf]
        refine ⟨(Store.holds_insert hinsert).2 (.inl rfl), ?_⟩
        exact ⟨hevent.1.symm, hid.symm⟩
    · intro _ b hb hbpair
      exact (hretired b hb (hpair b hbpair)).2.2
    · intro outcome w₇ hdel
      have hrest := ih hdel.orderly (hkeep w₇ fun b hne hb => ?_) hnodup.2
      · refine hrest.bind operated_refl fun _ w₈ h₈ w₉ h₉ => ?_
        exact h₈.operated h₉
      · apply hdel.kept
        refine (Store.holds_insert hinsert).2 (.inr ⟨hne, ?_⟩)
        unfold Store.Holds
        rw [hattempts₅]
        exact hb

theorem safe_processDueRetries (horderly : w.store.Orderly) :
    Alone 0 (Permits Unpending .processDueRetries)
      (Asserted .processDueRetries) (processDueRetries d)
      (fun _ w' => w'.store.Orderly) w := by
  apply Prog.Safe.perform
  intro w₁ h₁
  refine ⟨⟨horderly.operated h₁, nofun⟩, fun now w₂ hnow => ?_⟩
  have hstore₂ : w₂.store = w₁.store := hnow.2.1
  have horderly₂ : w₂.store.Orderly := hstore₂ ▸ horderly.operated h₁
  apply Prog.Safe.perform
  intro w₃ h₃
  have horderly₃ := horderly₂.operated h₃
  refine ⟨⟨horderly₃, nofun⟩, fun due w₄ hlist => ?_⟩
  rcases hlist.2.1 with ⟨hperm, hstore₄⟩
  have horderly₄ : w₄.store.Orderly := hstore₄ ▸ horderly₃
  refine safe_retryEach now horderly₄ ?_ ?_
  · intro a ha
    have hmem := hperm.mem_iff.1 ha
    unfold Store.listDueRetries at hmem
    rw [List.mem_filter, Table.mem_values, Bool.and_eq_true, decide_eq_true_eq] at hmem
    rcases hmem with ⟨⟨k, hk⟩, hstatus, -⟩
    refine ⟨?_, hstatus⟩
    unfold Store.Holds
    rw [hstore₄, horderly₃.filed.keyed k a hk]
    exact hk
  · rw [(hperm.map DeliveryAttempt.id).nodup_iff]
    exact (List.filter_sublist.map _).nodup (Table.nodup_map_values horderly₃.filed.keyed)

end

-- ==== the runs

def OnceEach (sys : System) : Label → Prop
  | .start _ (.dispatch event) =>
    sys.world.store.events.lookup event.id = none
  | _ => True

/-- No replay overtakes a retry or asks again after a success. -/
def Unpended (sys : System) : Label → Prop
  | .perform _ call op => Unpending call op sys.world
  | _ => True

instance (sys : System) (l : Label) : Decidable (OnceEach sys l) :=
  match l with
  | .start _ (.dispatch _) =>
    inferInstanceAs (Decidable (sys.world.store.events.lookup _ = none))
  | .start _ (.replay _ _) => .isTrue trivial
  | .start _ .processDueRetries => .isTrue trivial
  | .perform _ _ _ => .isTrue trivial
  | .finish _ _ _ => .isTrue trivial
  | .operator => .isTrue trivial

instance (sys : System) (l : Label) : Decidable (Unpended sys l) :=
  match l with
  | .start _ _ => .isTrue trivial
  | .perform _ call op => inferInstanceAs (Decidable (Unpending call op _))
  | .finish _ _ _ => .isTrue trivial
  | .operator => .isTrue trivial

/-- Each pair has at most one attempt scheduled, and its attempt numbers
are pairwise distinct. -/
def Store.RetriesUnique (s : Store) : Prop :=
  ∀ ev ep, (s.attemptsOf ev ep).countP (fun a => decide (a.status = .retryScheduled)) ≤ 1
    ∧ ((s.attemptsOf ev ep).map DeliveryAttempt.attemptNumber).Nodup

def RetriesStop (d : Dispatcher) (sys : System) : Prop :=
  sys.world.store.RetriesUnique
    ∧ ∀ i ev ep request sys',
      Step d sys (.perform i .processDueRetries (.send ev ep request)) sys' →
      ∀ a ∈ sys.world.store.attemptsOf ev ep, a.status ≠ .succeeded

theorem countP_le_one {α : Type} {p : α → Bool} {l : List α} (hnodup : l.Nodup)
    (h : ∀ a ∈ l, ∀ b ∈ l, p a = true → p b = true → a = b) :
    l.countP p ≤ 1 := by
  rw [List.countP_eq_length_filter]
  have hfilter := hnodup.filter p
  match hl : l.filter p with
  | [] => simp
  | [_] => simp
  | a :: b :: rest =>
    rw [hl] at hfilter
    have ha := List.mem_filter.1 (hl ▸ List.mem_cons_self)
    have hb := List.mem_filter.1 (hl ▸ List.mem_cons_of_mem a List.mem_cons_self)
    rw [h a ha.1 b hb.1 ha.2 hb.2] at hfilter
    simp at hfilter

theorem Store.Orderly.retriesUnique {s : Store} (h : s.Orderly) : s.RetriesUnique := by
  intro ev ep
  have hids : ((s.attemptsOf ev ep).map DeliveryAttempt.id).Nodup :=
    (List.filter_sublist.map _).nodup (Table.nodup_map_values h.filed.keyed)
  have hnodup := List.Nodup.of_map _ hids
  have hdistinct : ∀ a ∈ s.attemptsOf ev ep, ∀ b ∈ s.attemptsOf ev ep,
      b.attemptNumber = a.attemptNumber → b = a := by
    intro a ha b hb heq
    rw [h.filed.mem_attemptsOf] at ha hb
    refine h.distinct a b ha.1 hb.1 ?_ heq
    rw [ha.2.1, ha.2.2]
    exact hb.2
  refine ⟨countP_le_one hnodup ?_, ?_⟩
  · intro a ha b hb hsched hsched'
    refine hdistinct b hb a ha ?_
    rw [h.filed.mem_attemptsOf] at ha hb
    rw [decide_eq_true_eq] at hsched hsched'
    have hab : b.IsFor a.eventId a.endpointId := by
      rw [ha.2.1, ha.2.2]
      exact hb.2
    have hle := (h.last a b ha.1 hb.1 hab hsched).1
    have hge := (h.last b a hb.1 ha.1 ⟨hab.1.symm, hab.2.symm⟩ hsched').1
    exact UInt32.le_antisymm hge hle
  · exact hnodup.map_on fun a ha b hb heq => hdistinct b hb a ha heq

theorem Store.orderly_new : Store.new.Orderly := by
  have hnone : ∀ a, ¬ Store.new.Holds a := by
    intro a ha
    cases ha
  refine ⟨Store.filed_new, ?_, ?_, ?_⟩
  · intro a ha
    exact absurd ha (hnone a)
  · intro a _ ha
    exact absurd ha (hnone a)
  · intro a _ ha
    exact absurd ha (hnone a)

theorem orderly_rules (d : Dispatcher) :
    Rules d (fun sys l => OnceEach sys l ∧ Unpended sys l) Unpending Asserted
      (fun w => w.store.Orderly) where
  init := Store.orderly_new
  stable _ _ h hop := h.operated hop
  permits _ _ _ _ h := h.2
  call sys i call hcond horderly := by
    cases call with
    | dispatch event => exact safe_dispatch horderly hcond.1
    | replay eventId endpointId => exact safe_replay _ _ horderly
    | processDueRetries => exact safe_processDueRetries horderly

/-- In every run of one dispatcher, each event dispatched once, in which
no replay records an attempt while one of the pair is scheduled or asks
after one has succeeded, retries are unique and stop on success. -/
theorem run_retriesStop {d : Dispatcher} {sys : System}
    (hrun : Run d (fun sys l => OnceEach sys l ∧ Unpended sys l) .solo sys) :
    RetriesStop d sys := by
  have hsolo := ((orderly_rules d).run hrun).2
  have horderly : sys.world.store.Orderly := by
    rcases hsolo.now with h | ⟨_, _, h⟩
    · exact h
    · exact h.1
  refine ⟨horderly.retriesUnique, ?_⟩
  intro i ev ep request sys' hstep a ha
  rw [horderly.filed.mem_attemptsOf] at ha
  exact (hsolo.performs hstep).2 rfl ev ep request rfl a ha.1 ha.2

def Move.retried : List Move :=
  .operator .merchant
    :: (Move.through 0 (.dispatch .posted) 8 (.status 10 503)
      ++ Move.through 0 .processDueRetries 10 (.status 11 200))

theorem retried_stops :
    ∃ sys, System.solo.drive .stripeLike
        (fun sys l => OnceEach sys l ∧ Unpended sys l) Move.retried = some sys
      ∧ RetriesStop .stripeLike sys := by
  have hsome : (System.solo.drive .stripeLike
      (fun sys l => OnceEach sys l ∧ Unpended sys l) Move.retried).isSome := by
    decide +kernel
  rcases Option.isSome_iff_exists.1 hsome with ⟨sys, hsys⟩
  exact ⟨sys, hsys, run_retriesStop (System.drive_run hsys)⟩

/-- A delivery that fails, and a replay that fails before the retry. -/
def Move.overtaken : List Move :=
  .operator .merchant
    :: (Move.through 0 (.dispatch .posted) 8 (.status 10 503)
      ++ Move.through 0 (.replay ⟨2⟩ ⟨1⟩) 9 (.status 11 503))

/-- The replay leaves a second attempt scheduled. -/
theorem overtaken_twice :
    ¬ ∀ sys, Run .stripeLike OnceEach .solo sys → RetriesStop .stripeLike sys := by
  intro h
  have hcount : (System.solo.drive .stripeLike OnceEach Move.overtaken).map
      (fun sys => (sys.world.store.attemptsOf ⟨2⟩ ⟨1⟩).countP
        fun a => decide (a.status = .retryScheduled)) = some 2 := by
    decide +kernel
  rcases Option.map_eq_some_iff.1 hcount with ⟨sys, hsys, htwo⟩
  have hone := ((h sys (System.drive_run hsys)).1 ⟨2⟩ ⟨1⟩).1
  omega

end OpenStandards.OpWebhook

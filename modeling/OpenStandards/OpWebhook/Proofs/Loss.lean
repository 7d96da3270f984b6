/-
No delivery is lost, as long as no endpoint is found blocked or without a
secret.

A pair with an attempt has succeeded, or has a retry scheduled, or its
last answer was final. A delivery under way suspends this for its own pair
only (`Tracked`), and its attempt restores it, whatever the answer. A due
retry is retired first, and where the endpoint it reads is then found
disabled nothing takes its place. A replay skips such an endpoint too.
-/
import OpenStandards.OpWebhook.Proofs.Retries

namespace OpenStandards.OpWebhook

open Lib
open OpLedger (Uuid)

-- ==== resolution

/-- The pair has an attempt that succeeded or is scheduled, or its last
request was answered for good. -/
def Resolved (d : Dispatcher) (w : World) (ev ep : Uuid) : Prop :=
  (∃ a, w.store.Holds a ∧ a.IsFor ev ep ∧ (a.status = .succeeded ∨ a.status = .retryScheduled))
  ∨ lastFinal d ev ep none w.log = true

/-- Every pair with an attempt is resolved, apart from the one that is
away. -/
structure Tracked (d : Dispatcher) (away : Option (Uuid × Uuid)) (w : World) : Prop where
  filed : w.store.Filed
  resolved : ∀ a, w.store.Holds a → away ≠ some (a.eventId, a.endpointId) →
    Resolved d w a.eventId a.endpointId

section
variable {d : Dispatcher} {w w' : World} {ev ep : Uuid}

theorem Resolved.hush (h : Resolved d w ev ep) (hush : Hush d w w') : Resolved d w' ev ep := by
  rcases h with ⟨a, ha, hpair, hstatus⟩ | hfinal
  · refine .inl ⟨a, ?_, hpair, hstatus⟩
    unfold Store.Holds
    rw [hush.attempts]
    exact ha
  · refine .inr ?_
    rw [hush.final]
    exact hfinal

theorem Tracked.hush {away : Option (Uuid × Uuid)} (h : Tracked d away w)
    (hush : Hush d w w') : Tracked d away w' := by
  refine ⟨h.filed.congr hush.attempts hush.events, ?_⟩
  intro a ha hne
  unfold Store.Holds at ha
  rw [hush.attempts] at ha
  exact (h.resolved a ha hne).hush hush

theorem Tracked.operated {away : Option (Uuid × Uuid)} (h : Tracked d away w)
    (hop : World.Operated w w') : Tracked d away w' :=
  h.hush (.of_operated hop)

/-- A delivery starts. -/
theorem Tracked.leave (h : Tracked d none w) (ev ep : Uuid) : Tracked d (some (ev, ep)) w :=
  ⟨h.filed, fun a ha _ => h.resolved a ha nofun⟩

/-- A delivery under way. -/
theorem Tracked.elsewhere (h : Tracked d (some (ev, ep)) w)
    (helse : Elsewhere d ev ep w w') : Tracked d (some (ev, ep)) w' := by
  refine ⟨h.filed.congr helse.attempts helse.events, ?_⟩
  intro a ha hne
  unfold Store.Holds at ha
  rw [helse.attempts] at ha
  rcases h.resolved a ha hne with ⟨b, hb, hpair, hstatus⟩ | hfinal
  · refine .inl ⟨b, ?_, hpair, hstatus⟩
    unfold Store.Holds
    rw [helse.attempts]
    exact hb
  · refine .inr ?_
    rw [helse.final_other]
    · exact hfinal
    · intro heq
      apply hne
      rw [heq.1, heq.2]

variable {a : DeliveryAttempt}

/-- The delivery's attempt resolves its pair. -/
theorem Tracked.attempted {n : UInt32} (h : Tracked d (some (ev, ep)) w)
    (hput : Attempted d true ev ep n a w w') : Tracked d none w' := by
  have hholds := fun b => Store.holds_insert (b := b) hput.attempts
  refine ⟨h.filed.insert hput.attempts hput.events, ?_⟩
  intro b hb _
  by_cases hpair : b.IsFor ev ep
  · rw [hpair.1, hpair.2]
    rcases hput.resolved rfl with hstatus | hstatus | ⟨-, hfinal⟩
    · exact .inl ⟨a, (hholds a).2 (.inl rfl),
        ⟨hput.eventId, hput.endpointId⟩, .inl hstatus⟩
    · exact .inl ⟨a, (hholds a).2 (.inl rfl),
        ⟨hput.eventId, hput.endpointId⟩, .inr hstatus⟩
    · exact .inr hfinal
  · have hold : w.store.Holds b := by
      rcases (hholds b).1 hb with rfl | ⟨-, hb⟩
      · exact absurd ⟨hput.eventId, hput.endpointId⟩ hpair
      · exact hb
    have hne : some (ev, ep) ≠ some (b.eventId, b.endpointId) := by
      intro heq
      cases heq
      exact hpair ⟨rfl, rfl⟩
    rcases h.resolved b hold hne with ⟨c, hc, hcpair, hstatus⟩ | hfinal
    · refine .inl ⟨c, (hholds c).2 (.inr ⟨?_, hc⟩), hcpair, hstatus⟩
      intro heq
      unfold Store.Holds at hc
      rw [heq, hput.fresh] at hc
      cases hc
    · refine .inr ?_
      rw [hput.final_other b.eventId b.endpointId hpair]
      exact hfinal

def Store.Files (s : Store) (a : DeliveryAttempt) : Prop :=
  ∃ b, s.Holds b ∧ b.id = a.id ∧ b.IsFor a.eventId a.endpointId

/-- The retry's first half. -/
theorem Tracked.retire (h : Tracked d none w) {now : UInt64}
    (hfiled : w.store.Files a) (hattempts : w'.store.attempts
      = w.store.attempts.insert (a.retired now).id (a.retired now))
    (hevents : w'.store.events = w.store.events)
    (hfinal : ∀ ev ep, lastFinal d ev ep none w'.log = lastFinal d ev ep none w.log) :
    Tracked d (some (a.eventId, a.endpointId)) w' := by
  have hholds := fun b => Store.holds_insert (b := b) hattempts
  refine ⟨h.filed.insert hattempts hevents, ?_⟩
  intro b hb hne
  have hold : w.store.Holds b := by
    rcases (hholds b).1 hb with rfl | ⟨-, hb⟩
    · exact absurd rfl hne
    · exact hb
  rcases h.resolved b hold nofun with ⟨c, hc, hcpair, hstatus⟩ | hold'
  · refine .inl ⟨c, (hholds c).2 (.inr ⟨?_, hc⟩), hcpair, hstatus⟩
    -- what is stored under the id is the retired attempt's pair's
    intro heq
    rcases hfiled with ⟨x, hx, hid, hpair⟩
    unfold Store.Holds at hc hx
    rw [heq, show (a.retired now).id = a.id from rfl, ← hid, hx] at hc
    obtain rfl := Option.some.inj hc
    apply hne
    rw [← hcpair.1, ← hcpair.2, hpair.1, hpair.2]
  · refine .inr ?_
    rw [hfinal]
    exact hold'

theorem Store.Files.insert {s s' : Store} {b : DeliveryAttempt}
    (h : s.Files b) (hattempts : s'.attempts = s.attempts.insert a.id a)
    (hsame : ∀ c, s.Holds c → c.id = a.id → a.IsFor c.eventId c.endpointId) : s'.Files b := by
  rcases h with ⟨c, hc, hid, hpair⟩
  by_cases heq : c.id = a.id
  · refine ⟨a, (Store.holds_insert hattempts).2 (.inl rfl), ?_, ?_⟩
    · rw [← heq, hid]
    · rw [← hpair.1, ← hpair.2]
      exact hsame c hc heq
  · exact ⟨c, (Store.holds_insert hattempts).2 (.inr ⟨heq, hc⟩), hid, hpair⟩

theorem Store.Files.congr {s s' : Store} {b : DeliveryAttempt}
    (h : s.Files b) (hattempts : s'.attempts = s.attempts) : s'.Files b := by
  unfold Store.Files Store.Holds
  rw [hattempts]
  exact h

end

-- ==== the calls

/-- What is read is not blocking and has a secret. -/
def Unblocked (op : Op) (w : World) : Prop :=
  ∀ e ∈ w.store.reading op, e.status.isBlocking = false ∧ e.signs = true

instance (op : Op) (w : World) : Decidable (Unblocked op w) :=
  inferInstanceAs (Decidable (∀ e ∈ w.store.reading op, _))

/-- At every operation all but one pair are resolved. -/
def AllButOne (d : Dispatcher) (_ : Call) (_ : Op) (w : World) : Prop :=
  ∃ away, Tracked d away w

section
variable {d : Dispatcher} {call : Call} {event : WebhookEvent}
  {endpoint : Endpoint} {number : UInt32} {w : World}

theorem safe_tracked (hopen : endpoint.status.isBlocking = false ∧ endpoint.signs = true)
    (htracked : Tracked d (some (event.id, endpoint.id)) w) :
    Alone 0 (Permits (fun _ => Unblocked) call) (AllButOne d call)
      (dispatchSingle d event endpoint number)
      (fun _ w' => Tracked d none w'
        ∧ ∃ a, Attempted d true event.id endpoint.id number a w w') w := by
  refine (safe_dispatchSingle (d := d) hopen.1 ?_ ?_).mono ?_
  · intro op w₁ _ helse
    exact ⟨_, htracked.elsewhere helse⟩
  · intro a id failures w₁ _ hput
    rw [hopen.2] at hput
    exact ⟨none, htracked.attempted hput⟩
  · intro _ w' h
    rw [hopen.2] at h
    rcases h with ⟨-, a, hput⟩
    exact ⟨htracked.attempted hput, a, hput⟩

theorem Tracked.putEvent {i : Nat} {w' : World} {r : Unit}
    (h : Tracked d none w) (hact : World.Act i (.putEvent event) w r w') :
    Tracked d none w' := by
  have hstore : w'.store = w.store.putEvent event := hact.1
  refine ⟨hstore ▸ h.filed.putEvent, ?_⟩
  intro a ha _
  rw [hstore] at ha
  rcases h.resolved a ha nofun with ⟨b, hb, hpair, hstatus⟩ | hfinal
  · refine .inl ⟨b, ?_, hpair, hstatus⟩
    rw [hstore]
    exact hb
  · refine .inr ?_
    rw [hact.2]
    exact hfinal

theorem dispatch_tracked (htracked : Tracked d none w) :
    Alone 0 (Permits (fun _ => Unblocked) call) (AllButOne d call)
      (dispatch d event) (fun _ => Tracked d none) w := by
  apply Prog.Safe.perform
  intro w₁ h₁
  have htracked₁ := htracked.operated h₁
  refine ⟨⟨none, htracked₁⟩, fun _ w₂ hput => ?_⟩
  have htracked₂ : Tracked d none w₂ := htracked₁.putEvent hput.2
  apply safe_silent (d := d) (.listActiveEndpointsFor event.eventType) trivial
    fun w₃ h₃ => ⟨none, htracked₂.hush h₃⟩
  intro items w₃ w₄ _ hpermit hlist h₄
  have hperm : items.Perm (w₃.store.listActiveEndpointsFor event.eventType) :=
    hlist.1.1
  have hopen : ∀ e ∈ items, e.status.isBlocking = false ∧ e.signs = true :=
    fun e he => hpermit.2 e (hperm.mem_iff.1 he)
  have hstable : ∀ (items : List Endpoint) w w',
      (Tracked d none w ∧ ∀ e ∈ items, e.status.isBlocking = false ∧ e.signs = true) →
      World.Operated w w' →
      (Tracked d none w' ∧ ∀ e ∈ items, e.status.isBlocking = false ∧ e.signs = true) :=
    fun _ _ _ h hop => ⟨h.1.operated hop, h.2⟩
  refine (Prog.Safe.each operated_refl hstable ?_
    ⟨htracked₂.hush h₄, hopen⟩).bind operated_refl ?_
  · intro e items w₅ h
    refine (safe_tracked (h.2 e List.mem_cons_self) (h.1.leave _ _)).mono fun _ w₆ h₆ => ?_
    exact ⟨h₆.1, fun e' he' => h.2 e' (List.mem_cons_of_mem _ he')⟩
  · intro _ w₅ h w₆ hop
    exact h.1.operated hop

def OneRequest (ev ep : Uuid) (w w' : World) : Prop :=
  sentTo ev ep w'.log = sentTo ev ep w.log + 1
    ∧ ∀ ev' ep', ¬ (ev' = ev ∧ ep' = ep) → sentTo ev' ep' w'.log = sentTo ev' ep' w.log

theorem Unblocked.of_getEndpoint {id : Uuid} (h : Unblocked (.getEndpoint id) w)
    (he : w.store.getEndpoint id = .ok endpoint) :
    endpoint.status.isBlocking = false ∧ endpoint.signs = true := by
  unfold Store.getEndpoint at he
  split at he
  case h_1 e hlookup =>
    obtain rfl := Except.ok.inj he
    exact h e (Option.mem_toList.2 hlookup)
  case h_2 => cases he

theorem replay_tracked (eventId endpointId : Uuid) (htracked : Tracked d none w) :
    Alone 0 (Permits (fun _ => Unblocked) call) (AllButOne d call)
      (replay d eventId endpointId)
      (fun result w' => Tracked d none w'
        ∧ ∀ outcomes, result = .ok outcomes → OneRequest eventId endpointId w w') w := by
  apply safe_silent (d := d) (.getEvent eventId) trivial
    fun w₁ h₁ => ⟨none, htracked.hush h₁⟩
  intro r w₁ w₂ h₁ _ hget h₂
  have hr : r = w₁.store.getEvent eventId := hget.1.1
  cases r with
  | error e =>
    intro w₃ h₃
    exact ⟨(htracked.hush h₂).operated h₃, nofun⟩
  | ok event =>
    obtain rfl : event.id = eventId :=
      ((htracked.hush h₁).filed.of_getEvent hr.symm).1
    apply safe_silent (d := d) (.getEndpoint endpointId) trivial
      fun w₃ h₃ => ⟨none, htracked.hush (h₂.trans h₃)⟩
    intro r w₃ w₄ h₃ hpermit hget' h₄
    have hr' : r = w₃.store.getEndpoint endpointId := hget'.1.1
    have hush := h₂.trans h₄
    cases r with
    | error e =>
      intro w₅ h₅
      exact ⟨(htracked.hush hush).operated h₅, nofun⟩
    | ok endpoint =>
      obtain rfl : endpoint.id = endpointId :=
        hpermit.1.of_getEndpoint hr'.symm
      have hopen := Unblocked.of_getEndpoint hpermit.2 hr'.symm
      apply safe_silent (d := d) (.listAttempts event.id endpoint.id)
        trivial fun w₅ h₅ => ⟨none, htracked.hush (hush.trans h₅)⟩
      intro existing w₅ w₆ _ _ _ h₆
      have hush₆ := hush.trans h₆
      refine (safe_tracked hopen ((htracked.hush hush₆).leave _ _)).bind operated_refl ?_
      intro outcome w₇ h₇ w₈ h₈
      rcases h₇ with ⟨htracked₇, a, hput⟩
      refine ⟨htracked₇.operated h₈, fun _ _ => ⟨?_, ?_⟩⟩
      · rw [h₈.log, hput.sent, hush₆.sent]
        rfl
      · intro ev' ep' hne
        rw [h₈.log, hput.sent_other ev' ep' hne, hush₆.sent]

/-- The loop over the due retries: each is filed under its id until its
turn. -/
theorem retryEach_tracked (now : UInt64) {due : List DeliveryAttempt}
    (htracked : Tracked d none w) (hdue : ∀ a ∈ due, w.store.Files a) :
    Alone 0 (Permits (fun _ => Unblocked) call) (AllButOne d call)
      (retryEach d now due) (fun _ => Tracked d none) w := by
  induction due generalizing w with
  | nil => exact fun w' hop => htracked.operated hop
  | cons a due ih =>
    apply safe_silent (d := d) (.getEvent a.eventId) trivial
      fun w₁ h₁ => ⟨none, htracked.hush h₁⟩
    intro r w₁ w₂ h₁ _ hget h₂
    have hr : r = w₁.store.getEvent a.eventId := hget.1.1
    cases r with
    | error e => exact fun w₃ h₃ => (htracked.hush h₂).operated h₃
    | ok event =>
    have hevent : event.id = a.eventId :=
      ((htracked.hush h₁).filed.of_getEvent hr.symm).1
    apply safe_silent (d := d) (.getEndpoint a.endpointId) trivial
      fun w₃ h₃ => ⟨none, htracked.hush (h₂.trans h₃)⟩
    intro r w₃ w₄ h₃ hpermit hget' h₄
    have hr' : r = w₃.store.getEndpoint a.endpointId := hget'.1.1
    have hush := h₂.trans h₄
    cases r with
    | error e =>
      refine ih (htracked.hush hush) fun b hb => ?_
      exact (hdue b (List.mem_cons_of_mem _ hb)).congr hush.attempts
    | ok endpoint =>
    have hid : endpoint.id = a.endpointId :=
      hpermit.1.of_getEndpoint hr'.symm
    have hopen := Unblocked.of_getEndpoint hpermit.2 hr'.symm
    apply Prog.Safe.perform
    intro w₅ h₅
    have hush₅ := hush.trans (.of_operated h₅)
    have htracked₅ := htracked.hush hush₅
    refine ⟨⟨none, htracked₅⟩, fun _ w₆ hput => ?_⟩
    have hstore₆ : w₆.store = w₅.store.putAttempt (a.retired now) :=
      hput.2.1
    have hinsert : w₆.store.attempts
        = w₅.store.attempts.insert (a.retired now).id (a.retired now) := by
      rw [hstore₆]
      rfl
    have hfiles : w₅.store.Files a :=
      (hdue a List.mem_cons_self).congr hush₅.attempts
    have htracked₆ : Tracked d (some (event.id, endpoint.id)) w₆ := by
      rw [hevent, hid]
      refine htracked₅.retire hfiles hinsert ?_ ?_
      · rw [hstore₆]
        rfl
      · intro ev ep
        rw [hput.2.2]
        rfl
    refine (safe_tracked hopen htracked₆).bind operated_refl ?_
    intro outcome w₇ h₇
    rcases h₇ with ⟨htracked₇, b, hb⟩
    refine (ih htracked₇ fun c hc => ?_).bind operated_refl
      fun _ w₈ h₈ w₉ h₉ => h₈.operated h₉
    -- the others are filed as they were
    have hc₅ : w₅.store.Files c :=
      (hdue c (List.mem_cons_of_mem _ hc)).congr hush₅.attempts
    have hc₆ : w₆.store.Files c := by
      refine hc₅.insert hinsert fun x hx heq => ?_
      rcases hfiles with ⟨y, hy, hyid, hypair⟩
      unfold Store.Holds at hx hy
      rw [heq, show (a.retired now).id = a.id from rfl, ← hyid, hy] at hx
      obtain rfl := Option.some.inj hx
      exact ⟨hypair.1.symm, hypair.2.symm⟩
    refine hc₆.insert hb.attempts fun x hx heq => ?_
    unfold Store.Holds at hx
    rw [heq, hb.fresh] at hx
    cases hx

theorem processDueRetries_tracked (htracked : Tracked d none w) :
    Alone 0 (Permits (fun _ => Unblocked) call) (AllButOne d call)
      (processDueRetries d) (fun _ => Tracked d none) w := by
  apply safe_silent (d := d) .now trivial
    fun w₁ h₁ => ⟨none, htracked.hush h₁⟩
  intro now _ w₂ _ _ _ h₂
  apply safe_silent (d := d) (.listDueRetries now) trivial
    fun w₃ h₃ => ⟨none, htracked.hush (h₂.trans h₃)⟩
  intro due w₃ w₄ h₃ _ hlist h₄
  have hperm : due.Perm (w₃.store.listDueRetries now) := hlist.1.1
  have hstore₄ : w₄.store = w₃.store := hlist.1.2
  have hfiled := (htracked.hush (h₂.trans h₃)).filed
  refine retryEach_tracked now (htracked.hush (h₂.trans h₄)) fun a ha => ?_
  have hmem := hperm.mem_iff.1 ha
  unfold Store.listDueRetries at hmem
  rw [List.mem_filter, Table.mem_values] at hmem
  rcases hmem with ⟨⟨k, hk⟩, -⟩
  refine ⟨a, ?_, rfl, rfl, rfl⟩
  unfold Store.Holds
  rw [hstore₄, hfiled.keyed k a hk]
  exact hk

end

-- ==== the runs

/-- Deliveries find their endpoints unblocked and with a secret. -/
def UnblockedReads (sys : System) : Label → Prop
  | .perform _ _ op => Unblocked op sys.world
  | _ => True

instance (sys : System) (l : Label) : Decidable (UnblockedReads sys l) :=
  match l with
  | .start _ _ => .isTrue trivial
  | .perform _ _ op => inferInstanceAs (Decidable (Unblocked op _))
  | .finish _ _ _ => .isTrue trivial
  | .operator => .isTrue trivial

/-- If the pair was attempted at all, an attempt succeeded or is scheduled,
or the last request was answered for good. -/
def KeptUp (d : Dispatcher) (w : World) (ev ep : Uuid) : Prop :=
  w.store.attemptsOf ev ep ≠ [] →
    (∃ a ∈ w.store.attemptsOf ev ep, a.status = .succeeded ∨ a.status = .retryScheduled)
    ∨ lastFinal d ev ep none w.log = true

/-- A replay from here on that ends well makes one request, for its
pair. -/
def ReplaysOnce (d : Dispatcher) (cond : System → Label → Prop) (sys : System) : Prop :=
  ∀ i ev ep outcomes sys₁ sys₂ sys₃,
    Step d sys (.start i (.replay ev ep)) sys₁ →
    Run d (fun sys l => cond sys l ∧ l.isStart = false) sys₁ sys₂ →
    Step d sys₂ (.finish i (.replay ev ep) (.ok outcomes)) sys₃ →
    OneRequest ev ep sys.world sys₃.world

/-- Between two calls every pair is kept up, within a call all pairs but
the one being delivered, and a replay makes one request. -/
def NothingLost (d : Dispatcher) (cond : System → Label → Prop) (sys : System) : Prop :=
  (sys.threads = [none] → ∀ ev ep, KeptUp d sys.world ev ep)
    ∧ (∃ away, ∀ ev ep, (ev, ep) ≠ away → KeptUp d sys.world ev ep)
    ∧ ReplaysOnce d cond sys

theorem Tracked.keptUp {d : Dispatcher} {away : Option (Uuid × Uuid)}
    {w : World} (h : Tracked d away w) {ev ep : Uuid}
    (hne : away ≠ some (ev, ep)) : KeptUp d w ev ep := by
  intro hsome
  rcases List.exists_mem_of_ne_nil _ hsome with ⟨a, ha⟩
  rw [h.filed.mem_attemptsOf] at ha
  rcases ha with ⟨ha, rfl, rfl⟩
  rcases h.resolved a ha hne with ⟨b, hb, hpair, hstatus⟩ | hfinal
  · exact .inl ⟨b, h.filed.mem_attemptsOf.2 ⟨hb, hpair⟩, hstatus⟩
  · exact .inr hfinal

/-- The three calls keep every pair resolved. -/
theorem tracked_rules (d : Dispatcher) :
    Rules d UnblockedReads (fun _ => Unblocked) (AllButOne d) (Tracked d none) where
  init := by
    refine ⟨Store.filed_new, ?_⟩
    intro a ha
    cases ha
  stable _ _ h hop := h.operated hop
  permits _ _ _ _ h := h
  call sys i call hcond htracked := by
    cases call with
    | dispatch event => exact dispatch_tracked htracked
    | replay eventId endpointId =>
      exact (replay_tracked eventId endpointId htracked).mono
        fun _ _ h => h.1
    | processDueRetries => exact processDueRetries_tracked htracked

/-- In every run of one dispatcher in which deliveries find their endpoints
unblocked and with a secret, nothing is lost. -/
theorem run_nothingLost {d : Dispatcher} {sys : System} (hrun : Run d UnblockedReads .solo sys) :
    NothingLost d UnblockedReads sys := by
  rcases (tracked_rules d).run hrun with ⟨hkeyed, hsolo⟩
  refine ⟨?_, ?_, ?_⟩
  · intro hidle ev ep
    exact (hsolo.between hidle).keptUp nofun
  · rcases hsolo.now with h | ⟨_, _, away, h⟩
    · exact ⟨(⟨0⟩, ⟨0⟩), fun ev ep _ => h.keptUp nofun⟩
    · cases away with
      | none => exact ⟨(⟨0⟩, ⟨0⟩), fun ev ep _ => h.keptUp nofun⟩
      | some away =>
        refine ⟨away, fun ev ep hne => h.keptUp ?_⟩
        intro heq
        exact hne (Option.some.inj heq).symm
  · intro i ev ep outcomes sys₁ sys₂ sys₃ hstart hcalls hfinish
    have hidle : sys.threads = [none] := by
      cases hstart with
      | start _ hi =>
        cases hsolo with
        | idle _ => rfl
        | busy _ => cases (only_thread hi).2
    have halone : Alone 0 (Permits (fun _ => Unblocked) (.replay ev ep))
        (AllButOne d (.replay ev ep)) (replay d ev ep) _ sys.world :=
      replay_tracked ev ep (hsolo.between hidle)
    exact (Run.finish (fun _ _ _ _ h => h) hkeyed hidle halone hstart hcalls
      hfinish).2 outcomes rfl

/-- A delivery that fails and is then retried, the endpoint active. -/
theorem retried_kept :
    ∃ sys, System.solo.drive .stripeLike UnblockedReads Move.retried = some sys
      ∧ NothingLost .stripeLike UnblockedReads sys := by
  have hsome : (System.solo.drive .stripeLike UnblockedReads Move.retried).isSome := by
    decide +kernel
  rcases Option.isSome_iff_exists.1 hsome with ⟨sys, hsys⟩
  exact ⟨sys, hsys, run_nothingLost (System.drive_run hsys)⟩

/-- The endpoint is disabled between the delivery that fails and the
retry. -/
def Move.dropped : List Move :=
  .operator .merchant
    :: (Move.through 0 (.dispatch .posted) 8 (.status 10 503)
      ++ (.operator { Endpoint.merchant with status := .disabled }
        :: Move.through 0 .processDueRetries 5 (.status 11 200)))

/-- The retry is retired and nothing takes its place. -/
theorem dropped_lost :
    ¬ ∀ sys, Run .stripeLike (fun _ _ => True) .solo sys →
      NothingLost .stripeLike (fun _ _ => True) sys := by
  intro h
  have hlost : ((System.solo.drive .stripeLike (fun _ _ => True)
      Move.dropped).map fun sys => sys.threads.all Option.isNone
        && decide (sys.threads.length = 1)
        && decide ((sys.world.store.attemptsOf ⟨2⟩ ⟨1⟩).map DeliveryAttempt.status = [.failed])
        && !lastFinal .stripeLike ⟨2⟩ ⟨1⟩ none sys.world.log)
      = some true := by
    decide +kernel
  rcases Option.map_eq_some_iff.1 hlost with ⟨sys, hsys, hfacts⟩
  simp only [Bool.and_eq_true, decide_eq_true_eq, Bool.not_eq_true'] at hfacts
  rcases hfacts with ⟨⟨⟨hnone, hone⟩, hfailed⟩, hfinal⟩
  have hidle : sys.threads = [none] := by
    rcases List.length_eq_one_iff.1 hone with ⟨t, ht⟩
    rw [ht, List.all_cons, Bool.and_eq_true, Option.isNone_iff_eq_none]
      at hnone
    rw [ht, hnone.1]
  have hkept := (h sys (System.drive_run hsys)).1 hidle ⟨2⟩ ⟨1⟩
  rcases hkept fun hnil => by simp [hnil] at hfailed with
    ⟨a, ha, hstatus⟩ | hlast
  · have hmem := List.mem_map_of_mem (f := DeliveryAttempt.status) ha
    rw [hfailed, List.mem_singleton] at hmem
    rw [hmem] at hstatus
    simp at hstatus
  · rw [hfinal] at hlast
    cases hlast

end OpenStandards.OpWebhook

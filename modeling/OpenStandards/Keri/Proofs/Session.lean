/-
Controller logs against the verifier.

The controller and the replay each keep a sequence number, a prior
identifier, a key list and a threshold. `Mirrors` says that they agree,
and every operation keeps them in step (`perform_emits`). What decides is
the number of keys: the verifier's 32-bit count of an event's signatures is
exact as long as the keys put in force number less than `2 ^ 32`.
-/
import OpenStandards.Keri.Proofs.Signing

namespace OpenStandards.Keri

open Lib SmartByte

/-- Every threshold an operation sets is between one and the number of
its keys. -/
def ControllerOp.ValidThresholds : ControllerOp → Prop
  | .rotate newNextKeys newNextThreshold _ _ _ =>
    ValidThreshold newNextThreshold newNextKeys
  | .interact _ => True
  | .recover newKeys newNextKeys newThreshold newNextThreshold _ =>
    ValidThreshold newThreshold newKeys ∧ ValidThreshold newNextThreshold newNextKeys

/-- The signing keys an operation leaves in force. -/
def Controller.keysAfter (c : Controller) : ControllerOp → List KeyPair
  | .rotate _ _ _ _ _ => c.nextKeys
  | .interact _ => c.currentKeys
  | .recover newKeys _ _ _ _ => newKeys

/-- The keys an operation leaves in force can be counted in 32 bits. -/
def Session.Countable (s : Session) (op : ControllerOp) : Prop :=
  (s.controller.keysAfter op).length < 2 ^ 32

instance (s : Session) (op : ControllerOp) : Decidable (s.Countable op) :=
  inferInstanceAs (Decidable (_ < _))

section

variable (prims : Primitives)

/-- The replay's state agrees with the controller's. -/
structure Mirrors (c : Controller) (st : Replay) : Prop where
  keys : st.currentKeys = c.currentKeys.map (KeyPair.publicKey prims)
  threshold : st.currentThreshold = c.threshold
  nextKeys : st.nextKeysCommitted = commitmentsTo prims c.nextKeys
  last : ∃ e, c.keyEventLog.getLast? = some e ∧ st.lastSaid = e.said
    ∧ st.lastSequence = e.sequence
  valid : ValidThreshold c.threshold c.currentKeys
  validNext : ValidThreshold c.nextThreshold c.nextKeys

/-- An event of a controller's operation, at the replay's state before
it. -/
structure Emits (c : Controller) (st : Replay) (c' : Controller) (event : KeyEvent) : Prop where
  said : prims.recomputeSaid event = event.said
  sequence : event.sequence = st.lastSequence + 1
  prior : event.prior = some st.lastSaid
  controller : event.controller = c.aid
  admissible : Admissible prims {} st event
  keys : (install st event).currentKeys = c'.currentKeys.map (KeyPair.publicKey prims)
  threshold : (install st event).currentThreshold = c'.threshold
  log : c'.keyEventLog = c.keyEventLog ++ [event]
  aid : c'.aid = c.aid

end

variable {prims : Primitives}

theorem commitmentsTo_eq (keys : List KeyPair) :
    (keys.map (KeyPair.publicKey prims)).map prims.perKeySaid = commitmentsTo prims keys := by
  unfold commitmentsTo
  rw [List.map_map]
  rfl

variable {c : Controller} {st : Replay} {icp : InceptionEvent}
    {initialKeys nextKeys : List KeyPair} {threshold nextThreshold : Threshold}

theorem prior_of_mirrors (h : Mirrors prims c st) (what : String) :
    ∃ e, c.prior what = .ok e ∧ st.lastSaid = e.said ∧ st.lastSequence = e.sequence := by
  obtain ⟨e, hlast, hsaid, hseq⟩ := h.last
  refine ⟨e, ?_, hsaid, hseq⟩
  unfold Controller.prior
  rw [hlast]

/-- Every operation succeeds, keeps the two in step and emits an event
that links to the log. -/
theorem perform_emits (h : Mirrors prims c st) (op : ControllerOp) (hop : op.ValidThresholds) :
    ∃ c' event, c.perform prims op = .ok (c', event)
      ∧ Emits prims c st c' event
      ∧ Mirrors prims c' (advance st event)
      ∧ c'.currentKeys = c.keysAfter op := by
  cases op with
  | rotate newNextKeys newNextThreshold add remove newWitnessThreshold =>
    obtain ⟨e, hprior, hsaid, hseq⟩ := prior_of_mirrors h "rotate"
    simp only [Controller.perform, Controller.rotate, hprior, ok_bind]
    refine ⟨_, _, rfl, ?_, ?_, rfl⟩
    · refine ⟨rfl, ?_, ?_, rfl, ?_, rfl, rfl, rfl, rfl⟩
      · rw [hseq]
        rfl
      · rw [hsaid]
        rfl
      · show List.map prims.perKeySaid (c.nextKeys.map _) = _
        rw [h.nextKeys, commitmentsTo_eq]
    · exact ⟨rfl, rfl, rfl, ⟨_, List.getLast?_concat, rfl, rfl⟩, h.validNext, hop⟩
  | interact anchors =>
    obtain ⟨e, hprior, hsaid, hseq⟩ := prior_of_mirrors h "interact on"
    simp only [Controller.perform, Controller.interact, hprior, ok_bind]
    refine ⟨_, _, rfl, ?_, ?_, rfl⟩
    · refine ⟨rfl, ?_, ?_, rfl, trivial, h.keys, h.threshold, rfl, rfl⟩
      · rw [hseq]
        rfl
      · rw [hsaid]
        rfl
    · exact ⟨h.keys, h.threshold, h.nextKeys,
        ⟨_, List.getLast?_concat, rfl, rfl⟩, h.valid, h.validNext⟩
  | recover newKeys newNextKeys newThreshold newNextThreshold anchors =>
    obtain ⟨e, hprior, hsaid, hseq⟩ := prior_of_mirrors h "recover on"
    simp only [Controller.perform, Controller.recover, hprior, ok_bind]
    refine ⟨_, _, rfl, ?_, ?_, rfl⟩
    · refine ⟨rfl, ?_, ?_, rfl, rfl, rfl, rfl, rfl, rfl⟩
      · rw [hseq]
        rfl
      · rw [hsaid]
        rfl
    · exact ⟨rfl, rfl, rfl, ⟨_, List.getLast?_concat, rfl, rfl⟩, hop.1, hop.2⟩

theorem passes_emitted_iff (hed : prims.Ed25519) {c' : Controller}
    {event : KeyEvent} (hemits : Emits prims c st c' event)
    (hvalid : ValidThreshold c'.threshold c'.currentKeys)
    {signatures : Signatures} (receipts : Receipts)
    (hsigs : signatures.lookup event.said = some (c'.signEvent prims event)) :
    Passes prims {} c.aid signatures receipts st event ↔ c'.currentKeys.length < 2 ^ 32 := by
  have hzero : ∀ icp, event = .inception icp → icp.s = 0 := by
    rintro icp rfl
    exact hemits.admissible.elim
  have hsigned := verifyEvent_signed_iff hed hemits.said hemits.controller hzero hsigs hvalid
  rw [← hsigned, ← hemits.keys, ← hemits.threshold]
  constructor
  · intro hpasses
    exact hpasses.1.signed
  · intro h
    exact ⟨⟨hemits.said, hemits.sequence, hemits.prior, hemits.controller,
      hemits.admissible, h⟩, fun _ _ => rfl⟩

-- ==== whole runs

/-- The state of the replay after the events of a session. -/
structure Replays (prims : Primitives) (icp : InceptionEvent)
    (start : Replay) (s : Session) (rest : List KeyEvent) : Prop where
  emitted : s.emitted.map SignedEvent.event = .inception icp :: rest
  mirrors : Mirrors prims s.controller (run advance start rest)
  aid : s.controller.aid = icp.i

/-- The events of a run pass exactly when the keys of every step can be
counted. -/
theorem along_passes_iff (hed : prims.Ed25519) {start : Replay} {s₀ : Session}
    (hstart : Replays prims icp start s₀ []) (signatures : Signatures)
    (receipts : Receipts) {ops : List ControllerOp} (hops : ∀ op ∈ ops, op.ValidThresholds) :
    ∃ rest, Replays prims icp start (run (Session.step prims) s₀ ops) rest
      ∧ ((∀ p ∈ (run (Session.step prims) s₀ ops).emitted,
          signatures.lookup p.event.said = some p.signatures) →
        (Along advance (Passes prims {} icp.i signatures receipts) start rest
          ↔ Along (Session.step prims) Session.Countable s₀ ops)) := by
  induction ops using List.reverseRecOn with
  | nil => exact ⟨[], hstart, fun _ => Iff.rfl⟩
  | append_singleton ops op ih =>
    obtain ⟨rest, hreplays, hiff⟩ :=
      ih fun op' hop' => hops op' (List.mem_append_left _ hop')
    generalize hs : run (Session.step prims) s₀ ops = s at hreplays hiff
    obtain ⟨c', event, hperform, hemits, hmirrors, hkeys⟩ :=
      perform_emits hreplays.mirrors op (hops op (by simp))
    have hstep : run (Session.step prims) s₀ (ops ++ [op])
        = { controller := c'
            emitted := s.emitted ++ [⟨event, c'.signEvent prims event⟩] } := by
      rw [run_append, hs]
      show Session.step prims s op = _
      unfold Session.step
      rw [hperform]
    refine ⟨rest ++ [event], ?_, ?_⟩
    · rw [hstep]
      constructor
      · show List.map SignedEvent.event (s.emitted ++ [_]) = _
        rw [List.map_append, hreplays.emitted]
        rfl
      · rw [run_append]
        exact hmirrors
      · exact hemits.aid.trans hreplays.aid
    · intro hsigs
      rw [hstep] at hsigs
      have hlast : signatures.lookup event.said = some (c'.signEvent prims event) :=
        hsigs ⟨event, c'.signEvent prims event⟩ (by simp)
      have hpasses := passes_emitted_iff hed hemits hmirrors.valid receipts hlast
      rw [hreplays.aid] at hpasses
      rw [along_append, along_append, hs, hiff fun p hp => hsigs p (List.mem_append_left _ hp)]
      refine and_congr Iff.rfl (and_congr ?_ Iff.rfl)
      rw [hpasses, hkeys]
      rfl

theorem mem_emitted_run {p : SignedEvent} {s : Session}
    (h : p ∈ s.emitted) (ops : List ControllerOp) :
    p ∈ (run (Session.step prims) s ops).emitted := by
  refine run_invariant (I := fun s => p ∈ s.emitted)
    (P := fun _ _ => True) ?_ h (along_trivial s ops)
  intro s op hp _
  unfold Session.step
  split
  · exact hp
  · exact List.mem_append_left _ hp

theorem incept_replays {witnesses : List WitnessAid} {witnessThreshold : Threshold}
    (hincept : Controller.incept prims initialKeys nextKeys threshold
      nextThreshold witnesses witnessThreshold = .ok (c, icp))
    (hthreshold : ValidThreshold threshold initialKeys)
    (hnext : ValidThreshold nextThreshold nextKeys) :
    ∃ start, replayStart (.inception icp) = .ok start
      ∧ Replays prims icp start (Session.start prims c icp) []
      ∧ prims.recomputeSaid (.inception icp) = icp.d
      ∧ start.currentKeys = initialKeys.map (KeyPair.publicKey prims)
      ∧ start.currentThreshold = threshold
      ∧ c.currentKeys = initialKeys ∧ icp.s = 0 := by
  unfold Controller.incept at hincept
  rw [refuse_bind_eq_ok, refuse_bind_eq_ok] at hincept
  obtain ⟨-, -, hincept⟩ := hincept
  cases hincept
  refine ⟨_, rfl, ⟨rfl, ?_, rfl⟩, rfl, rfl, rfl, rfl, rfl⟩
  exact ⟨rfl, rfl, rfl, ⟨_, rfl, rfl, rfl⟩, hthreshold, hnext⟩

theorem opens_iff (hed : prims.Ed25519) {witnesses : List WitnessAid}
    {witnessThreshold : Threshold}
    (hincept : Controller.incept prims initialKeys nextKeys threshold
      nextThreshold witnesses witnessThreshold = .ok (c, icp))
    (hthreshold : ValidThreshold threshold initialKeys)
    (hnext : ValidThreshold nextThreshold nextKeys) {signatures : Signatures}
    (hsigs : signatures.lookup icp.d
      = some (c.signEvent prims (.inception icp))) {start : Replay}
    (hstart : replayStart (.inception icp) = .ok start) :
    Opens prims signatures (.inception icp) start ↔ initialKeys.length < 2 ^ 32 := by
  obtain ⟨start', hstart', -, hsaid, hkeys, hkt, hcurrent, hzero⟩ :=
    incept_replays hincept hthreshold hnext
  rw [hstart] at hstart'
  cases hstart'
  have hsigned : verifyEvent prims (.inception icp)
      (initialKeys.map (KeyPair.publicKey prims)) threshold icp.i signatures
        = .ok () ↔ initialKeys.length < 2 ^ 32 := by
    refine verifyEvent_signed_iff hed hsaid rfl ?_ ?_ hthreshold
    · rintro _ ⟨⟩
      exact hzero
    · rw [← hcurrent]
      exact hsigs
  rw [← hsigned]
  constructor
  · intro h
    have := h.signed
    rw [hkeys, hkt] at this
    exact this
  · intro h
    refine ⟨hstart, ?_⟩
    rw [hkeys, hkt]
    exact h

def Verified (prims : Primitives) (walk : RowOrder (Sigma fun _ : Said => List WitnessReceipt))
    (s : Session) (signatures : Signatures) (receipts : Receipts) : Prop :=
  ∃ report, ({} : LogVerifier).verify prims walk
      (s.emitted.map SignedEvent.event) signatures receipts = .ok report
    ∧ report.currentKeys = s.controller.currentKeys.map (KeyPair.publicKey prims)
    ∧ report.currentThreshold = s.controller.threshold
    ∧ s.controller.keyEventLog.getLast?.map KeyEvent.sequence = some report.lastSequence

/-- A controller's events, signed as they are emitted, verify and lead to
the controller's own state exactly when the keys of the inception and of
every later step can be counted in 32 bits. -/
theorem session_verified_iff (hed : prims.Ed25519) {initialKeys nextKeys : List KeyPair}
    {threshold nextThreshold : Threshold} {witnesses : List WitnessAid}
    {witnessThreshold : Threshold} {c : Controller} {icp : InceptionEvent}
    (hincept : Controller.incept prims initialKeys nextKeys threshold
      nextThreshold witnesses witnessThreshold = .ok (c, icp))
    (hthreshold : ValidThreshold threshold initialKeys)
    (hnext : ValidThreshold nextThreshold nextKeys)
    {ops : List ControllerOp} (hops : ∀ op ∈ ops, op.ValidThresholds)
    {walk : RowOrder (Sigma fun _ : Said => List WitnessReceipt)}
    {signatures : Signatures} {receipts : Receipts}
    (hsigs : ∀ p ∈ (run (Session.step prims) (Session.start prims c icp) ops).emitted,
      signatures.lookup p.event.said = some p.signatures) :
    Verified prims walk
        (run (Session.step prims) (Session.start prims c icp) ops)
        signatures receipts
      ↔ initialKeys.length < 2 ^ 32
        ∧ Along (Session.step prims) Session.Countable (Session.start prims c icp) ops := by
  obtain ⟨start, hstart, hreplays, -⟩ :=
    incept_replays hincept hthreshold hnext
  obtain ⟨rest, hrun, hiff⟩ :=
    along_passes_iff hed hreplays signatures receipts hops
  have hfirst : signatures.lookup icp.d = some (c.signEvent prims (.inception icp)) :=
    hsigs ⟨.inception icp, c.signEvent prims (.inception icp)⟩
      (mem_emitted_run (List.mem_singleton.2 rfl) ops)
  have hopens := opens_iff hed hincept hthreshold hnext hfirst hstart
  rw [← hiff hsigs, ← hopens]
  generalize run (Session.step prims) (Session.start prims c icp) ops = s
    at hrun
  unfold Verified
  rw [hrun.emitted]
  constructor
  · rintro ⟨report, haccepted, -⟩
    obtain ⟨first, rest', start', hlog, hopens', -, hrest, -⟩ :=
      verify_ok_iff.1 haccepted
    obtain ⟨rfl, rfl⟩ := List.cons.inj hlog
    have hsame := hopens'.started
    rw [hstart] at hsame
    cases hsame
    exact ⟨hopens', hrest⟩
  · rintro ⟨hopens', hrest⟩
    refine ⟨_, verify_ok_iff.2 ⟨_, rest, start, rfl, hopens', rfl, hrest,
      rfl⟩, hrun.mirrors.keys, hrun.mirrors.threshold, ?_⟩
    obtain ⟨e, hlast, -, hseq⟩ := hrun.mirrors.last
    rw [hlast]
    exact congrArg some hseq.symm

-- ==== sample sessions

def signatureTable (emitted : List SignedEvent) : Signatures :=
  emitted.foldl (fun t p => t.insert p.event.said p.signatures) ∅

/-- Key 1 signs, key 2 comes next. -/
def sampleStart : Except KeriError (Controller × InceptionEvent) :=
  Controller.incept Primitives.sample [⟨1⟩] [⟨2⟩] ⟨1⟩ ⟨1⟩ [] ⟨0⟩

def sampleOps : List ControllerOp :=
  [.rotate [⟨3⟩, ⟨4⟩] ⟨2⟩ [] [] ⟨0⟩, .recover [⟨5⟩] [⟨6⟩] ⟨1⟩ ⟨1⟩ [],
   .rotate [⟨7⟩] ⟨1⟩ [] [] ⟨0⟩, .interact []]

/-- The sample session verifies. -/
theorem session_verified_sample :
    ∃ c icp, sampleStart = .ok (c, icp)
      ∧ Verified Primitives.sample RowOrder.asserted
        (run (Session.step Primitives.sample) (Session.start Primitives.sample c icp) sampleOps)
        (signatureTable (run (Session.step Primitives.sample)
          (Session.start Primitives.sample c icp) sampleOps).emitted) ∅ := by
  refine ⟨_, _, rfl, ?_⟩
  have hops : ∀ op ∈ sampleOps, op.ValidThresholds := by
    simp [sampleOps, ControllerOp.ValidThresholds, ValidThreshold]
  refine (session_verified_iff Primitives.sample_ed25519
    (show sampleStart = _ from rfl) ⟨le_rfl, le_rfl⟩ ⟨le_rfl, le_rfl⟩
    hops ?_).2 ?_
  · decide +kernel
  · decide +kernel

/-- A key list that cannot be counted is refused. -/
theorem not_verified_start (hed : prims.Ed25519) (hlarge : 2 ^ 32 ≤ initialKeys.length)
    (hthreshold : ValidThreshold threshold initialKeys)
    (hnext : ValidThreshold nextThreshold nextKeys) :
    ∃ c icp, Controller.incept prims initialKeys nextKeys threshold
        nextThreshold [] ⟨0⟩ = .ok (c, icp)
      ∧ ¬ Verified prims RowOrder.asserted (Session.start prims c icp)
        (signatureTable (Session.start prims c icp).emitted) ∅ := by
  obtain ⟨⟨c, icp⟩, hincept⟩ : ∃ r, Controller.incept prims initialKeys
      nextKeys threshold nextThreshold [] ⟨0⟩ = .ok r := by
    have hkeys : initialKeys ≠ [] := by
      rintro rfl
      exact absurd hlarge (by norm_num)
    unfold Controller.incept refuse
    rw [if_neg hkeys, if_neg (Nat.not_lt.2 hthreshold.2)]
    exact ⟨_, rfl⟩
  refine ⟨c, icp, hincept, ?_⟩
  rintro ⟨report, haccepted, -⟩
  obtain ⟨first, rest, start, hlog, hopens, -, -, -⟩ :=
    verify_ok_iff.1 haccepted
  obtain ⟨rfl, -⟩ := List.cons.inj hlog
  have hsigs : (signatureTable (Session.start prims c icp).emitted).lookup
      icp.d = some (c.signEvent prims (.inception icp)) :=
    AList.lookup_insert _
  have hcount := (opens_iff hed hincept hthreshold hnext hsigs hopens.started).1 hopens
  omega

/-- A controller with `2 ^ 32` copies of a key is refused. -/
theorem uncountable_keys_refused :
    ∃ c icp, Controller.incept Primitives.sample
        (List.replicate (2 ^ 32) ⟨1⟩) [⟨2⟩] ⟨1⟩ ⟨1⟩ [] ⟨0⟩ = .ok (c, icp)
      ∧ ¬ Verified Primitives.sample RowOrder.asserted
        (Session.start Primitives.sample c icp)
        (signatureTable (Session.start Primitives.sample c icp).emitted)
        ∅ := by
  refine not_verified_start Primitives.sample_ed25519 ?_ ⟨le_rfl, ?_⟩
    ⟨le_rfl, le_rfl⟩
  · rw [List.length_replicate]
  · rw [List.length_replicate]
    exact Nat.one_le_two_pow

end OpenStandards.Keri

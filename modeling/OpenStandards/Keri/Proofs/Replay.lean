/-
What the replay of a log checks and what it computes.

An accepted turn of the loop is a conjunction of checks on the state it
is taken from (`Passes`) and an update that does not depend on them
(`advance`). An accepted log is then one whose checks hold along the run
of the updates (`verify_ok_iff`); the results about accepted logs are
read off that run.
-/
import OpenStandards.Keri.Verifier

namespace OpenStandards.Keri

open Lib SmartByte

variable {prims : Primitives} {cfg : LogVerifier}
  {controllerAid : ControllerAid} {signatures : Signatures}
  {receipts : Receipts}

-- ==== checks

variable {event : KeyEvent} {start : Replay}

theorem validateSaid_ok_iff :
    prims.validateSaid event = .ok () ↔ prims.recomputeSaid event = event.said := by
  unfold Primitives.validateSaid
  rw [refuse_eq_ok, not_not]

/-- The position-wise check passes where the commitments to the keys are
the ones announced. -/
theorem checkRevealed_ok_iff :
    ∀ (i : Nat) (keys : List PublicKey) (saids : List Said),
      (keys.length = saids.length ∧ checkRevealed prims i keys saids = .ok ())
        ↔ keys.map prims.perKeySaid = saids := by
  intro i keys
  induction keys generalizing i with
  | nil =>
    intro saids
    cases saids with
    | nil => simp [checkRevealed]
    | cons said saids => simp
  | cons key keys ih =>
    intro saids
    cases saids with
    | nil => simp
    | cons said saids =>
      have hrest := ih (i + 1) saids
      rw [checkRevealed, refuse_bind_eq_ok, not_not, List.length_cons,
        List.length_cons, List.map_cons, List.cons.injEq]
      constructor
      · rintro ⟨hlen, hkey, hkeys⟩
        exact ⟨hkey, hrest.1 ⟨by omega, hkeys⟩⟩
      · rintro ⟨hkey, hkeys⟩
        obtain ⟨hlen, hok⟩ := hrest.2 hkeys
        exact ⟨by omega, hkey, hok⟩

/-- An event that passes on its own: its fields, and enough valid
signatures. -/
theorem verifyEvent_ok_iff {keys : List PublicKey} {threshold : Threshold} :
    verifyEvent prims event keys threshold controllerAid signatures = .ok ()
      ↔ prims.recomputeSaid event = event.said
        ∧ event.controller = controllerAid
        ∧ (∀ icp, event = .inception icp → icp.s = 0)
        ∧ ∃ valid, ((signatures.lookup event.said).getD []).foldlM
            (collectSignature prims keys (prims.toCbor event)) ∅ = .ok valid
          ∧ threshold.val ≤ UInt32.ofNat valid.card := by
  unfold verifyEvent
  rw [check_bind_eq_ok, check_bind_eq_ok, validateSaid_ok_iff, refuse_eq_ok, not_not]
  refine and_congr Iff.rfl (and_congr Iff.rfl ?_)
  have hrest : ∀ body sigs,
      (List.foldlM (collectSignature prims keys body) ∅ sigs >>= fun valid =>
        refuse (UInt32.ofNat valid.card < threshold.val)
          (KeriError.thresholdNotMet (UInt32.ofNat valid.card) threshold.val)) = .ok ()
        ↔ ∃ valid, List.foldlM (collectSignature prims keys body) ∅ sigs
            = .ok valid ∧ threshold.val ≤ UInt32.ofNat valid.card := by
    intro body sigs
    rw [bind_eq_ok]
    simp only [refuse_eq_ok, UInt32.not_lt]
  cases event with
  | inception icp =>
    dsimp only
    rw [check_bind_eq_ok, refuse_eq_ok, not_not, hrest]
    simp
  | rotation e => simpa using hrest ..
  | interaction e => simpa using hrest ..
  | recovery e => simpa using hrest ..
  | delegation e => simpa using hrest ..

-- ==== one turn

/-- The update of an event kind; an inception is not admitted here. -/
def install (st : Replay) : KeyEvent → Replay
  | .inception icp =>
    { st with
      currentKeys := icp.k, currentThreshold := icp.kt
      nextKeysCommitted := icp.n, nextThreshold := icp.nt
      witnessThreshold := icp.bt }
  | .rotation rot =>
    { st with
      currentKeys := rot.k, currentThreshold := rot.kt
      nextKeysCommitted := rot.n, nextThreshold := rot.nt
      witnessThreshold := rot.bt }
  | .recovery rec =>
    { st with
      currentKeys := rec.k, currentThreshold := rec.kt
      nextKeysCommitted := rec.n, nextThreshold := rec.nt
      recoveryCount := st.recoveryCount + 1 }
  | .delegation dlg =>
    { st with
      currentKeys := dlg.k, currentThreshold := dlg.kt
      nextKeysCommitted := dlg.n, nextThreshold := dlg.nt }
  | .interaction _ => st

def advance (st : Replay) (event : KeyEvent) : Replay :=
  { install st event with
    lastSaid := event.said, lastSequence := event.sequence }

/-- The number of receipts asked for an event; nothing is asked of a
delegation. -/
def Replay.quorum (st : Replay) : KeyEvent → Option Threshold
  | .rotation rot => some rot.bt
  | .interaction _ => some st.witnessThreshold
  | .recovery _ => some st.witnessThreshold
  | _ => none

variable (prims cfg) in
def Admissible (st : Replay) : KeyEvent → Prop
  | .rotation rot => rot.k.map prims.perKeySaid = st.nextKeysCommitted
  | .recovery _ => cfg.strict = false
  | .inception _ => False
  | _ => True

variable (prims cfg controllerAid signatures) in
/-- The checks of an event but for its receipts. -/
structure Linked (st : Replay) (event : KeyEvent) : Prop where
  said : prims.recomputeSaid event = event.said
  sequence : event.sequence = st.lastSequence + 1
  prior : event.prior = some st.lastSaid
  controller : event.controller = controllerAid
  admissible : Admissible prims cfg st event
  -- with the keys in force after the event
  signed : verifyEvent prims event (install st event).currentKeys
    (install st event).currentThreshold controllerAid signatures = .ok ()

variable (prims cfg controllerAid signatures receipts) in
def Passes (st : Replay) (event : KeyEvent) : Prop :=
  Linked prims cfg controllerAid signatures st event
    ∧ ∀ bt, st.quorum event = some bt → checkWitnessQuorum prims cfg event bt receipts = .ok ()

theorem replayArm_ok_iff {st st' : Replay} :
    replayArm prims cfg controllerAid signatures receipts st event = .ok st'
      ↔ (Admissible prims cfg st event
          ∧ verifyEvent prims event (install st event).currentKeys
            (install st event).currentThreshold controllerAid signatures = .ok ()
          ∧ ∀ bt, st.quorum event = some bt →
            checkWitnessQuorum prims cfg event bt receipts = .ok ())
        ∧ st' = install st event := by
  cases event with
  | inception icp => simp [replayArm, Admissible]
  | rotation rot =>
    simp only [replayArm, check_bind_eq_ok, refuse_eq_ok, not_not,
      pure_eq_ok, Admissible, Replay.quorum, install, Option.some.injEq,
      forall_eq', ← checkRevealed_ok_iff 0, and_assoc]
  | interaction ixn =>
    simp only [replayArm, check_bind_eq_ok, pure_eq_ok, Admissible,
      Replay.quorum, install, Option.some.injEq, forall_eq', and_assoc,
      true_and]
  | recovery rec =>
    simp only [replayArm, check_bind_eq_ok, refuse_eq_ok,
      Bool.not_eq_true, pure_eq_ok, Admissible, Replay.quorum, install,
      Option.some.injEq, forall_eq', and_assoc]
  | delegation dlg =>
    simp only [replayArm, check_bind_eq_ok, pure_eq_ok, Admissible,
      Replay.quorum, install, reduceCtorEq, false_implies, implies_true,
      true_and, and_true]

/-- An accepted turn of the loop. -/
theorem replayStep_ok_iff (st : Replay) (event : KeyEvent) (st' : Replay) :
    replayStep prims cfg controllerAid signatures receipts st event = .ok st'
      ↔ Passes prims cfg controllerAid signatures receipts st event
        ∧ st' = advance st event := by
  unfold replayStep
  simp only [check_bind_eq_ok, validateSaid_ok_iff, refuse_eq_ok, not_not]
  simp only [bind_eq_ok, replayArm_ok_iff, pure_eq_ok]
  constructor
  · rintro ⟨hsaid, hseq, hprior, hctl, _, ⟨⟨hadm, hsig, hq⟩, rfl⟩, rfl⟩
    exact ⟨⟨⟨hsaid, hseq, hprior, hctl, hadm, hsig⟩, hq⟩, rfl⟩
  · rintro ⟨⟨h, hq⟩, rfl⟩
    exact ⟨h.said, h.sequence, h.prior, h.controller, _,
      ⟨⟨h.admissible, h.signed, hq⟩, rfl⟩, rfl⟩

-- ==== a log

variable (prims cfg signatures) in
/-- The checks of the first event but for its receipts. -/
structure Opens (first : KeyEvent) (start : Replay) : Prop where
  started : replayStart first = .ok start
  signed : verifyEvent prims first start.currentKeys
    start.currentThreshold first.controller signatures = .ok ()

def reportOf (walk : RowOrder (Sigma fun _ : Said => List WitnessReceipt))
    (controllerAid : ControllerAid) (receipts : Receipts) (st : Replay) :
    VerificationReport :=
  { currentKeys := st.currentKeys
    currentThreshold := st.currentThreshold
    lastSequence := st.lastSequence
    witnessQuorumMet := true
    recoveryCount := st.recoveryCount
    duplicity := duplicityIn controllerAid (walk.order receipts.entries) }

theorem verify_ok_iff {walk : RowOrder (Sigma fun _ : Said => List WitnessReceipt)}
    {log : List KeyEvent} {report : VerificationReport} :
    cfg.verify prims walk log signatures receipts = .ok report
      ↔ ∃ first rest start, log = first :: rest
        ∧ Opens prims signatures first start
        ∧ checkWitnessQuorum prims cfg first start.witnessThreshold receipts = .ok ()
        ∧ Along advance (Passes prims cfg first.controller signatures receipts) start rest
        ∧ report = reportOf walk first.controller receipts (run advance start rest) := by
  cases log with
  | nil => simp [LogVerifier.verify]
  | cons first rest =>
    rw [LogVerifier.verify, bind_eq_ok]
    simp only [check_bind_eq_ok]
    simp only [bind_eq_ok, foldlM_ok_iff_along replayStep_ok_iff,
      pure_eq_ok]
    constructor
    · rintro ⟨start, hstart, hsig, hq, _, ⟨hrest, rfl⟩, rfl⟩
      exact ⟨first, rest, start, rfl, ⟨hstart, hsig⟩, hq, hrest, rfl⟩
    · rintro ⟨first', rest', start, heq, hopen, hq, hrest, rfl⟩
      obtain ⟨rfl, rfl⟩ := List.cons.inj heq
      exact ⟨start, hopen.started, hopen.signed, hq, _, ⟨hrest, rfl⟩, rfl⟩

-- ==== what is in force

def latest {α : Type} (field : KeyEvent → Option α) (unset : α) (log : List KeyEvent) : α :=
  log.foldl (fun known event => (field event).getD known) unset

@[simp]
theorem latest_append {α : Type} (field : KeyEvent → Option α) (unset : α)
    (log : List KeyEvent) (event : KeyEvent) :
    latest field unset (log ++ [event]) = (field event).getD (latest field unset log) := by
  unfold latest
  rw [List.foldl_append]
  rfl

namespace KeyEvent

def keys : KeyEvent → Option (List PublicKey)
  | .inception e => some e.k
  | .rotation e => some e.k
  | .interaction _ => none
  | .recovery e => some e.k
  | .delegation e => some e.k

def nextKeys : KeyEvent → Option (List Said)
  | .inception e => some e.n
  | .rotation e => some e.n
  | .interaction _ => none
  | .recovery e => some e.n
  | .delegation e => some e.n

def witnessThreshold : KeyEvent → Option Threshold
  | .inception e => some e.bt
  | .rotation e => some e.bt
  | _ => none

end KeyEvent

def keysInForce : List KeyEvent → List PublicKey :=
  latest KeyEvent.keys []

def commitments : List KeyEvent → List Said := latest KeyEvent.nextKeys []

def thresholdInForce : List KeyEvent → Threshold :=
  latest KeyEvent.witnessThreshold ⟨0⟩

/-- The replay's state holds what the log says. -/
structure HoldsInForce (log : List KeyEvent) (st : Replay) : Prop where
  keys : st.currentKeys = keysInForce log
  nextKeys : st.nextKeysCommitted = commitments log
  threshold : st.witnessThreshold = thresholdInForce log

theorem HoldsInForce.advance {log : List KeyEvent} {st : Replay}
    (h : HoldsInForce log st) (event : KeyEvent) :
    HoldsInForce (log ++ [event]) (advance st event) := by
  obtain ⟨hkeys, hnext, hthreshold⟩ := h
  refine ⟨?_, ?_, ?_⟩
  · unfold keysInForce at hkeys ⊢
    rw [latest_append, ← hkeys]
    cases event <;> rfl
  · unfold commitments at hnext ⊢
    rw [latest_append, ← hnext]
    cases event <;> rfl
  · unfold thresholdInForce at hthreshold ⊢
    rw [latest_append, ← hthreshold]
    cases event <;> rfl

theorem Opens.holdsInForce {first : KeyEvent} (h : Opens prims signatures first start) :
    HoldsInForce [first] start := by
  have hstart := h.started
  unfold replayStart at hstart
  cases first with
  | inception icp =>
    rw [refuse_bind_eq_ok, pure_eq_ok] at hstart
    obtain ⟨-, rfl⟩ := hstart
    exact ⟨rfl, rfl, rfl⟩
  | delegation dip =>
    dsimp only at hstart
    split at hstart
    · cases hstart
      exact ⟨rfl, rfl, rfl⟩
    · cases hstart
  | rotation rot => cases hstart
  | interaction ixn => cases hstart
  | recovery rec => cases hstart

/-- The state at any point of a replay. -/
theorem Opens.holdsInForce_run {first : KeyEvent}
    (h : Opens prims signatures first start) (done : List KeyEvent) :
    HoldsInForce (first :: done) (run Keri.advance start done) :=
  run_induction
    (I := fun done st => HoldsInForce (first :: done) st)
    (fun _ event _ hst => hst.advance event) h.holdsInForce done

/-- Every event after the first passes at the state its predecessors lead
to. -/
theorem passes_of_along {C : Replay → KeyEvent → Prop} {done later : List KeyEvent}
    (h : Along Keri.advance C start (done ++ event :: later)) :
    C (run Keri.advance start done) event :=
  (along_append.1 h).2.1

end OpenStandards.Keri

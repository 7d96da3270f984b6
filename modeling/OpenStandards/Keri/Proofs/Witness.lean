/-
What a witness vouches for.

The duplicity defence reads the log before the call writes to it, in two
separate accesses. The invariant of a run is that no two events the witness
has seen contradict each other (`Undivided`); every step keeps it but a
check that passes while a contradicting call is pending, and from such a
check on, recording what is pending contradicts (`never_contradicts_iff`).

Two verifiers whose thresholds add up to more than the witnesses and the
faulty ones among them count a witness in common that is not faulty: they
do not accept logs that fork (`accepted_logs_agree`). What the verifier
takes on trust is asked of the receipts it is handed (`FiledFor`).
-/
import OpenStandards.Keri.Proofs.Finalisation
import OpenStandards.Keri.Proofs.Quorum

namespace OpenStandards.Keri

open Lib SmartByte

def Rival (e e' : KeyEvent) : Prop :=
  e.controller = e'.controller ∧ e.sequence = e'.sequence ∧ e.said ≠ e'.said

theorem Rival.symm {e e' : KeyEvent} (h : Rival e e') : Rival e' e :=
  ⟨h.1.symm, h.2.1.symm, h.2.2.symm⟩

namespace Witness

variable {prims : Primitives} {w : Witness} {e e' : KeyEvent}

-- ==== what a step does

theorem logOf_record (t : Int) (c : ControllerAid) :
    (w.record prims e t).1.logOf c
      = if c = e.controller then w.logOf c ++ [e] else w.logOf c := by
  unfold logOf
  show ((w.observedLogs.insert _ _).lookup c).getD [] = _
  rw [Table.lookup_insert_eq]
  split
  case isTrue h =>
    subst h
    rfl
  case isFalse => rfl

theorem mem_logOf_record {t : Int} {c : ControllerAid} :
    e' ∈ (w.record prims e t).1.logOf c ↔ e' ∈ w.logOf c ∨ c = e.controller ∧ e' = e := by
  rw [logOf_record]
  split
  case isTrue h => simp [h]
  case isFalse h => simp [h]

/-- Everything a step can do: nothing, let a call become pending that
passed its check, or record a pending one. -/
theorem step_cases (w : Witness) (st : Step) :
    w.step prims st = w
      ∨ (∃ s, st = .check s ∧ w.check prims s = .ok ()
          ∧ w.step prims st = { w with pending := w.pending ++ [s.event] })
      ∨ (∃ place t, ∃ event ∈ w.pending, st = .record place t
          ∧ w.step prims st
            = ({ w with pending := w.pending.eraseIdx place }.record prims event t).1
          ∧ ∀ e ∈ w.pending, e = event ∨ e ∈ w.pending.eraseIdx place) := by
  cases st with
  | check s =>
    cases hc : w.check prims s with
    | error err => exact Or.inl (by simp only [step, hc])
    | ok u => exact Or.inr (Or.inl ⟨s, rfl, hc, by simp only [step, hc]⟩)
  | record place t =>
    cases hp : w.pending[place]? with
    | none => exact Or.inl (by simp only [step, hp])
    | some event =>
      obtain ⟨hlt, hget⟩ := List.getElem?_eq_some_iff.1 hp
      refine Or.inr (Or.inr ⟨place, t, event, List.mem_of_getElem? hp, rfl,
        by simp only [step, hp], ?_⟩)
      intro e he
      obtain ⟨i, hi, rfl⟩ := List.getElem_of_mem he
      by_cases heq : i = place
      · subst heq
        exact Or.inl hget
      · exact Or.inr (List.mem_eraseIdx_iff_getElem.2 ⟨i, hi, heq, rfl⟩)

/-- A check that passes found no recorded event, or one with the same
identifier first. -/
theorem check_ok {s : Submission} (h : w.check prims s = .ok ())
    (he : e ∈ w.logOf s.event.controller) (hs : e.sequence = s.event.sequence) :
    ∃ prev ∈ w.logOf s.event.controller, prev.sequence = s.event.sequence
      ∧ prev.said = s.event.said := by
  obtain ⟨-, -, h⟩ := bind_eq_ok.1 h
  unfold checkDuplicity at h
  split at h
  case h_1 prev hfind =>
    have hseq := List.find?_some hfind
    refine ⟨prev, List.mem_of_find?_eq_some hfind, ?_, ?_⟩
    · exact of_decide_eq_true hseq
    · exact not_not.1 (refuse_eq_ok.1 h)
  case h_2 hfind =>
    exact absurd (decide_eq_true hs) (List.find?_eq_none.1 hfind e he)

-- ==== the receipts

/-- What the witness has seen of a call: its event is pending, or
recorded. -/
def Seen (w : Witness) (e : KeyEvent) : Prop :=
  e ∈ w.pending ∨ e ∈ w.logOf e.controller

/-- Logs and receipts tell of the same events. -/
structure Faithful (w : Witness) : Prop where
  filed : ∀ c, ∀ e ∈ w.logOf c, e.controller = c
  receipted : ∀ c, ∀ e ∈ w.logOf c, ∃ r ∈ w.issued, r.controller = c
    ∧ r.sequence = e.sequence ∧ r.signedEventSaid = e.said
  recorded : ∀ r ∈ w.issued, ∃ e ∈ w.logOf r.controller,
    e.sequence = r.sequence ∧ e.said = r.signedEventSaid

theorem faithful_record (h : w.Faithful) (t : Int) : (w.record prims e t).1.Faithful := by
  refine ⟨?_, ?_, ?_⟩
  · intro c e' he'
    rcases mem_logOf_record.1 he' with hold | ⟨rfl, rfl⟩
    · exact h.filed c e' hold
    · rfl
  · intro c e' he'
    rcases mem_logOf_record.1 he' with hold | ⟨rfl, rfl⟩
    · obtain ⟨r, hr, hrest⟩ := h.receipted c e' hold
      exact ⟨r, List.mem_append_left _ hr, hrest⟩
    · exact ⟨_, List.mem_append_right _ (List.mem_singleton_self _),
        rfl, rfl, rfl⟩
  · intro r hr
    rcases List.mem_append.1 hr with hold | hnew
    · obtain ⟨e', he', hrest⟩ := h.recorded r hold
      exact ⟨e', mem_logOf_record.2 (Or.inl he'), hrest⟩
    · rw [List.mem_singleton.1 hnew]
      exact ⟨e, mem_logOf_record.2 (Or.inr ⟨rfl, rfl⟩), rfl, rfl⟩

theorem faithful_pending {p : List KeyEvent} (h : w.Faithful) :
    { w with pending := p }.Faithful :=
  ⟨h.filed, h.receipted, h.recorded⟩

theorem faithful_step (h : w.Faithful) (st : Step) : (w.step prims st).Faithful := by
  rcases w.step_cases st with heq | ⟨s, -, -, heq⟩ | ⟨p, t, e, -, -, heq, -⟩
  · rw [heq]
    exact h
  · rw [heq]
    exact faithful_pending h
  · rw [heq]
    exact faithful_record (faithful_pending h) t

variable {aid : WitnessAid} {key : KeyPair} {steps : List Step}

theorem faithful_new : (new aid key).Faithful :=
  ⟨fun _ _ he => absurd he List.not_mem_nil,
    fun _ _ he => absurd he List.not_mem_nil,
    fun _ hr => absurd hr List.not_mem_nil⟩

theorem faithful_run : (run (step prims) (new aid key) steps).Faithful :=
  run_invariant (P := fun _ _ => True)
    (fun _ st hw _ => faithful_step hw st) faithful_new (along_trivial _ _)

-- ==== nothing is forgotten

theorem seen_step (h : w.Seen e) (st : Step) : (w.step prims st).Seen e := by
  rcases w.step_cases st with
    heq | ⟨s, -, -, heq⟩ | ⟨p, t, event, -, -, heq, hrest⟩
  · rw [heq]
    exact h
  · rw [heq]
    exact h.imp_left (List.mem_append_left _)
  · rw [heq]
    rcases h with hp | hl
    · rcases hrest e hp with rfl | hp'
      · exact Or.inr (mem_logOf_record.2 (Or.inr ⟨rfl, rfl⟩))
      · exact Or.inl hp'
    · exact Or.inr (mem_logOf_record.2 (Or.inl hl))

theorem seen_run (h : w.Seen e) (steps : List Step) : (run (step prims) w steps).Seen e :=
  run_invariant (P := fun _ _ => True) (I := fun w : Witness => w.Seen e)
    (fun _ st hw _ => seen_step hw st) h (along_trivial _ _)

def recordAll (n : Nat) : List Step := List.replicate n (.record 0 0)

theorem pending_recordAll (w : Witness) :
    (run (step prims) w (recordAll w.pending.length)).pending = [] := by
  generalize hp : w.pending = p
  induction p generalizing w with
  | nil => exact hp
  | cons e p ih =>
    have hstep : w.step prims (.record 0 0) = ({ w with pending := p }.record prims e 0).1 := by
      unfold step
      rw [hp]
      rfl
    show (run (step prims) (w.step prims (.record 0 0)) (recordAll p.length)).pending = []
    rw [hstep]
    exact ih _ rfl

-- ==== contradictions

/-- Two receipts of the witness for one controller and sequence number
are for different events. -/
def Contradicts (w : Witness) : Prop :=
  ∃ r ∈ w.issued, ∃ r' ∈ w.issued, r.controller = r'.controller
    ∧ r.sequence = r'.sequence ∧ r.signedEventSaid ≠ r'.signedEventSaid

def Undivided (w : Witness) : Prop :=
  ∀ e e', w.Seen e → w.Seen e' → ¬ Rival e e'

/-- A step that keeps calls for contradicting events apart: no check
passes while such a call is pending. -/
def Apart (prims : Primitives) (w : Witness) : Step → Prop
  | .check s => w.check prims s = .ok () →
      ∀ e ∈ w.pending, ¬ Rival s.event e
  | .record .. => True

theorem apart_of_idle {st : Step} (h : w.pending = []) : Apart prims w st := by
  cases st with
  | check s =>
    intro _ e he
    rw [h] at he
    exact absurd he List.not_mem_nil
  | record => trivial

theorem not_contradicts (hf : w.Faithful) (h : w.Undivided) : ¬ w.Contradicts := by
  rintro ⟨r, hr, r', hr', hc, hs, hne⟩
  obtain ⟨e, he, hes, hed⟩ := hf.recorded r hr
  obtain ⟨e', he', hes', hed'⟩ := hf.recorded r' hr'
  have hec := hf.filed _ e he
  have hec' := hf.filed _ e' he'
  refine h e e' (Or.inr (hec ▸ he)) (Or.inr (hec' ▸ he')) ⟨?_, ?_, ?_⟩
  · rw [hec, hec', hc]
  · rw [hes, hes', hs]
  · rw [hed, hed']
    exact hne

theorem not_rival_logged {s : Submission} (hf : w.Faithful)
    (h : w.Undivided) (hc : w.check prims s = .ok ())
    (he : e ∈ w.logOf e.controller) : ¬ Rival s.event e := by
  rintro ⟨hctrl, hseq, hne⟩
  obtain ⟨prev, hprev, hps, hpd⟩ := check_ok hc (hctrl ▸ he) hseq.symm
  have hpc := hf.filed _ prev hprev
  refine h prev e (Or.inr (hpc ▸ hprev)) (Or.inr he) ⟨?_, ?_, ?_⟩
  · rw [hpc, hctrl]
  · rw [hps, hseq]
  · rw [hpd]
    exact hne

theorem undivided_step {st : Step} (hf : w.Faithful) (h : w.Undivided)
    (hap : Apart prims w st) : (w.step prims st).Undivided := by
  rcases w.step_cases st with
    heq | ⟨s, rfl, hc, heq⟩ | ⟨p, t, event, hevent, -, heq, -⟩
  · rw [heq]
    exact h
  · rw [heq]
    -- the new pending event against the old ones
    have hnew : ∀ e, w.Seen e → ¬ Rival s.event e := by
      rintro e (hp | hl)
      · exact hap hc e hp
      · exact not_rival_logged hf h hc hl
    have hcases : ∀ e, { w with pending := w.pending ++ [s.event] }.Seen e →
        w.Seen e ∨ e = s.event := by
      rintro e (hp | hl)
      · rcases List.mem_append.1 hp with hp | hp
        · exact Or.inl (Or.inl hp)
        · exact Or.inr (List.mem_singleton.1 hp)
      · exact Or.inl (Or.inr hl)
    intro e e' he he' hr
    rcases hcases e he with he | rfl
    · rcases hcases e' he' with he' | rfl
      · exact h e e' he he' hr
      · exact hnew e he hr.symm
    · rcases hcases e' he' with he' | rfl
      · exact hnew e' he' hr
      · exact hr.2.2 rfl
  · rw [heq]
    have hseen : ∀ e, Seen ({ w with pending := w.pending.eraseIdx p }.record
        prims event t).1 e → w.Seen e := by
      rintro e (hp | hl)
      · exact Or.inl (List.mem_of_mem_eraseIdx hp)
      · rcases mem_logOf_record.1 hl with hl | ⟨-, rfl⟩
        · exact Or.inr hl
        · exact Or.inl hevent
    exact fun e e' he he' => h e e' (hseen e he) (hseen e' he')

theorem undivided_run (hap : Along (step prims) (Apart prims) (new aid key)
    steps) : (run (step prims) (new aid key) steps).Undivided := by
  refine (run_invariant (I := fun w : Witness => w.Faithful ∧ w.Undivided)
    (fun w st hw hst => ⟨faithful_step hw.1 st,
      undivided_step hw.1 hw.2 hst⟩) ⟨faithful_new, ?_⟩ hap).2
  rintro e - (he | he) -
  · exact absurd he List.not_mem_nil
  · exact absurd he List.not_mem_nil

/-- Two rivals the witness has seen contradict each other once all that
is pending is recorded. -/
theorem contradicts_recordAll (hf : ∀ l, (run (step prims) w l).Faithful)
    (he : w.Seen e) (he' : w.Seen e') (hr : Rival e e') :
    (run (step prims) w (recordAll w.pending.length)).Contradicts := by
  have hlogged : ∀ e, w.Seen e → ∃ r ∈ (run (step prims) w
      (recordAll w.pending.length)).issued, r.controller = e.controller
        ∧ r.sequence = e.sequence ∧ r.signedEventSaid = e.said := by
    intro e he
    have hseen : (run (step prims) w (recordAll w.pending.length)).Seen e :=
      seen_run he _
    rcases hseen with hp | hl
    · rw [pending_recordAll] at hp
      exact absurd hp List.not_mem_nil
    · exact (hf _).receipted _ e hl
  obtain ⟨r, hmem, hc, hs, hd⟩ := hlogged e he
  obtain ⟨r', hmem', hc', hs', hd'⟩ := hlogged e' he'
  refine ⟨r, hmem, r', hmem', ?_, ?_, ?_⟩
  · rw [hc, hc', hr.1]
  · rw [hs, hs', hr.2.1]
  · rw [hd, hd']
    exact hr.2.2

def Step.IsRecord : Step → Prop
  | .check _ => False
  | .record .. => True

/-- **A witness contradicts itself exactly through overlapping calls.**
For every run of the two steps of any calls, in any interleaving: however
the pending calls are recorded, no two receipts for one controller and
sequence number are for different events, if and only if at no step a
call passed its check while a call for a contradicting event was
pending. -/
theorem never_contradicts_iff (prims : Primitives) (aid : WitnessAid)
    (key : KeyPair) (steps : List Step) :
    (∀ more : List Step, (∀ st ∈ more, st.IsRecord) →
      ¬ (run (step prims) (new aid key) (steps ++ more)).Contradicts)
    ↔ Along (step prims) (Apart prims) (new aid key) steps := by
  constructor
  · intro hnever
    rw [along_iff_split]
    intro before st after heq
    cases st with
    | record place t => exact trivial
    | check s =>
      intro hc e he hr
      have hstep : (run (step prims) (new aid key) before).step prims
          (.check s) = { run (step prims) (new aid key) before with
            pending := (run (step prims) (new aid key) before).pending ++ [s.event] } := by
        simp only [step, hc]
      have hrun : run (step prims) (new aid key) steps
          = run (step prims) ((run (step prims) (new aid key) before).step
              prims (.check s)) after := by
        rw [heq, run_append]
        rfl
      have hseen : (run (step prims) (new aid key) steps).Seen s.event := by
        rw [hrun, hstep]
        exact seen_run (Or.inl (List.mem_append_right _ (List.mem_singleton_self _))) after
      have hseen' : (run (step prims) (new aid key) steps).Seen e := by
        rw [hrun, hstep]
        exact seen_run (Or.inl (List.mem_append_left _ he)) after
      refine hnever (recordAll (run (step prims) (new aid key) steps).pending.length) ?_ ?_
      · intro st hst
        rw [List.eq_of_mem_replicate hst]
        trivial
      · rw [run_append]
        refine contradicts_recordAll (fun l => ?_) hseen hseen' hr
        rw [← run_append]
        exact faithful_run
  · intro hap more hmore
    have hap' : Along (step prims) (Apart prims) (new aid key) (steps ++ more) := by
      refine along_append.2 ⟨hap, along_of_forall (fun st hst w => ?_) _⟩
      cases st with
      | check s => exact (hmore _ hst).elim
      | record place t => trivial
    exact not_contradicts faithful_run (undivided_run hap')

end Witness

-- ==== accepted logs

/-- The receipts handed in with an event name members, and the ones that
name a member that is not faulty are its own, and for the event. -/
def FiledFor (members faulty : Finset WitnessAid)
    (issuedBy : WitnessAid → List WitnessReceipt) (receipts : Receipts)
    (event : KeyEvent) : Prop :=
  ∀ r ∈ (receipts.lookup event.said).getD [], r.witness ∈ members
    ∧ (r.witness ∉ faulty → r.signedEventSaid = event.said
      ∧ r.controller = event.controller ∧ r ∈ issuedBy r.witness)

section

variable {prims : Primitives} {cfg cfg' : LogVerifier}
  {signatures signatures' : Signatures} {receipts receipts' : Receipts}
  {controllerAid : ControllerAid} {start : Replay} {first event : KeyEvent}
  {done later log : List KeyEvent} {report : VerificationReport}
  {walk : RowOrder (Sigma fun _ : Said => List WitnessReceipt)}

theorem mem_countedWitnesses {rs : List WitnessReceipt} {name : String} :
    name ∈ countedWitnesses prims event rs ↔ ∃ r ∈ rs,
      r.witness = ⟨name⟩ ∧ r.sequence = event.sequence ∧ (r.verifySignature prims).isOk := by
  unfold countedWitnesses
  rw [List.mem_toFinset, List.mem_map]
  constructor
  · rintro ⟨r, hr, rfl⟩
    obtain ⟨hmem, hok⟩ := List.mem_filter.1 hr
    obtain ⟨hsig, hseq⟩ := of_decide_eq_true hok
    exact ⟨r, hmem, rfl, hseq, hsig⟩
  · rintro ⟨r, hr, hname, hseq, hsig⟩
    exact ⟨r, List.mem_filter.2 ⟨hr, decide_eq_true ⟨hsig, hseq⟩⟩,
      congrArg WitnessAid.text hname⟩

/-- A check that passed counted as many names as it asks for. -/
theorem le_card_of_checkWitnessQuorum {bt : Threshold} (hcfg : cfg.requireWitnessQuorum = true)
    (h : checkWitnessQuorum prims cfg event bt receipts = .ok ()) :
    bt.val.toNat ≤ (countedWitnesses prims event
      ((receipts.lookup event.said).getD [])).card := by
  unfold checkWitnessQuorum at h
  rw [if_neg (not_not.2 hcfg)] at h
  dsimp only at h
  have hle := UInt32.not_lt.1 (refuse_eq_ok.1 h)
  rw [UInt32.le_iff_toNat_le, UInt32.toNat_ofNat'] at hle
  exact hle.trans (Nat.mod_le ..)

theorem Opens.sequence (h : Opens prims signatures first start) :
    first.sequence = 0 ∧ start.lastSequence = 0 := by
  have hstart := h.started
  unfold replayStart at hstart
  cases first with
  | inception icp =>
    rw [refuse_bind_eq_ok, pure_eq_ok] at hstart
    obtain ⟨hs, rfl⟩ := hstart
    exact ⟨not_not.1 hs, not_not.1 hs⟩
  | delegation dip =>
    dsimp only at hstart
    split at hstart
    case isTrue hs =>
      cases hstart
      exact ⟨hs, hs⟩
    case isFalse => cases hstart
  | rotation rot => cases hstart
  | interaction ixn => cases hstart
  | recovery rec => cases hstart

/-- Events are numbered on, in the 64-bit word. -/
theorem sequence_of_along (h : Along Keri.advance
      (Passes prims cfg controllerAid signatures receipts) start
      (done ++ event :: later)) :
    event.sequence = start.lastSequence + UInt64.ofNat (done.length + 1) := by
  induction done generalizing start with
  | nil => exact h.1.1.sequence
  | cons e done ih =>
    have hlast : (Keri.advance start e).lastSequence = start.lastSequence + 1 := h.1.1.sequence
    rw [ih h.2, hlast, List.length_cons, UInt64.add_assoc]
    congr 1
    rw [UInt64.ofNat_add (done.length + 1), UInt64.add_comm]
    rfl

/-- What an accepted log says of the event at a place: its number, its
controller, its identifier and, where receipts are asked for, its
quorum. -/
theorem at_place_of_verify (h : cfg.verify prims walk (first :: done) signatures receipts
      = .ok report) {before after : List KeyEvent}
    (hlog : first :: done = before ++ event :: after) :
    event.sequence = UInt64.ofNat before.length
      ∧ event.controller = first.controller
      ∧ prims.validateSaid event = .ok ()
      ∧ (before = [] ∨ event.eventType ≠ .delegation →
        checkWitnessQuorum prims cfg event
          (thresholdInForce (before ++ [event])) receipts = .ok ()) := by
  obtain ⟨first', rest, start, heq, hopens, hq, hrest, -⟩ :=
    verify_ok_iff.1 h
  obtain ⟨rfl, rfl⟩ := List.cons.inj heq
  cases before with
  | nil =>
    obtain ⟨rfl, rfl⟩ := List.cons.inj hlog
    refine ⟨hopens.sequence.1, rfl,
      validateSaid_ok_iff.2 (verifyEvent_ok_iff.1 hopens.signed).1,
      fun _ => ?_⟩
    rw [hopens.holdsInForce.threshold] at hq
    exact hq
  | cons e before =>
    obtain ⟨rfl, rfl⟩ := List.cons.inj hlog
    obtain ⟨hlinked, hquorum⟩ := passes_of_along hrest
    have hforce := (hopens.holdsInForce_run before).threshold
    refine ⟨?_, hlinked.controller, validateSaid_ok_iff.2 hlinked.said, ?_⟩
    · rw [sequence_of_along hrest, hopens.sequence.2, UInt64.zero_add]
      rfl
    · rintro (hnil | hkind)
      · exact nomatch hnil
      · refine hquorum _ ?_
        unfold thresholdInForce at hforce ⊢
        rw [latest_append]
        cases event with
        | inception icp => exact hlinked.admissible.elim
        | rotation rot => rfl
        | interaction ixn => exact congrArg some hforce
        | recovery rec => exact congrArg some hforce
        | delegation dlg => exact absurd rfl hkind

variable {members faulty : Finset WitnessAid} {key : WitnessAid → KeyPair}
  {steps : WitnessAid → List Witness.Step} {event' : KeyEvent}
  {bt bt' : Threshold}

def issuedBy (prims : Primitives) (key : WitnessAid → KeyPair)
    (steps : WitnessAid → List Witness.Step) (a : WitnessAid) :
    List WitnessReceipt :=
  (run (Witness.step prims) (.new a (key a)) (steps a)).issued

/-- Thresholds that add up to more than the members and the faulty ones
are met by a member in common that is not faulty. -/
theorem exists_common_witness (hcfg : cfg.requireWitnessQuorum = true)
    (hcfg' : cfg'.requireWitnessQuorum = true) {issued : WitnessAid → List WitnessReceipt}
    (hf : FiledFor members faulty issued receipts event)
    (hf' : FiledFor members faulty issued receipts' event')
    (hq : checkWitnessQuorum prims cfg event bt receipts = .ok ())
    (hq' : checkWitnessQuorum prims cfg' event' bt' receipts' = .ok ())
    (hmany : members.card + faulty.card < bt.val.toNat + bt'.val.toNat) :
    ∃ a ∈ members, a ∉ faulty ∧ (∃ r ∈ issued a,
        r.controller = event.controller ∧ r.sequence = event.sequence
          ∧ r.signedEventSaid = event.said)
      ∧ ∃ r ∈ issued a,
        r.controller = event'.controller ∧ r.sequence = event'.sequence
          ∧ r.signedEventSaid = event'.said := by
  have hle := le_card_of_checkWitnessQuorum hcfg hq
  have hle' := le_card_of_checkWitnessQuorum hcfg' hq'
  generalize hA : countedWitnesses prims event _ = A at hle
  generalize hB : countedWitnesses prims event' _ = B at hle'
  have hsub : A ∪ B ⊆ members.image WitnessAid.text := by
    intro name hname
    refine Finset.mem_image.2 ⟨⟨name⟩, ?_, rfl⟩
    rcases Finset.mem_union.1 hname with h | h
    · obtain ⟨r, hr, hw, -⟩ := mem_countedWitnesses.1 (hA ▸ h)
      exact hw ▸ (hf r hr).1
    · obtain ⟨r, hr, hw, -⟩ := mem_countedWitnesses.1 (hB ▸ h)
      exact hw ▸ (hf' r hr).1
  have hunion : (A ∪ B).card ≤ members.card :=
    (Finset.card_le_card hsub).trans Finset.card_image_le
  have hsum := Finset.card_union_add_card_inter A B
  have hfaulty : (faulty.image WitnessAid.text).card < (A ∩ B).card :=
    lt_of_le_of_lt Finset.card_image_le (by omega)
  obtain ⟨name, hname, hhonest⟩ := Finset.exists_mem_notMem_of_card_lt_card hfaulty
  obtain ⟨hmem, hmem'⟩ := Finset.mem_inter.1 hname
  have hnf : (⟨name⟩ : WitnessAid) ∉ faulty := fun h =>
    hhonest (Finset.mem_image_of_mem _ h)
  obtain ⟨r, hr, hw, hs, -⟩ := mem_countedWitnesses.1 (hA ▸ hmem)
  obtain ⟨r', hr', hw', hs', -⟩ := mem_countedWitnesses.1 (hB ▸ hmem')
  obtain ⟨hin, hown⟩ := hf r hr
  obtain ⟨-, hown'⟩ := hf' r' hr'
  rw [hw] at hin hown
  rw [hw'] at hown'
  obtain ⟨hd, hc, hissued⟩ := hown hnf
  obtain ⟨hd', hc', hissued'⟩ := hown' hnf
  exact ⟨⟨name⟩, hin, hnf, ⟨r, hissued, hc, hs, hd⟩,
    ⟨r', hissued', hc', hs', hd'⟩⟩

end

/-- **Accepted logs do not fork.** Two verifiers that ask for a witness
quorum accept two logs of one controller. At a place where both ask for
receipts, by thresholds that add up to more than the number of witnesses
and of faulty witnesses, they accepted the same event, provided that the
digest tells the two apart, that the receipts name witnesses, that those of
the witnesses that are not faulty are filed under the event they are for,
and that these keep calls for contradicting events apart. -/
theorem accepted_logs_agree (prims : Primitives) (cfg cfg' : LogVerifier)
    (walk walk' : RowOrder (Sigma fun _ : Said => List WitnessReceipt))
    (signatures signatures' : Signatures) (receipts receipts' : Receipts)
    (report report' : VerificationReport)
    (members faulty : Finset WitnessAid) (key : WitnessAid → KeyPair)
    (steps : WitnessAid → List Witness.Step) (first first' event event' : KeyEvent)
    (rest rest' before before' after after' : List KeyEvent)
    (hcfg : cfg.requireWitnessQuorum = true) (hcfg' : cfg'.requireWitnessQuorum = true)
    (hv : cfg.verify prims walk (first :: rest) signatures receipts = .ok report)
    (hv' : cfg'.verify prims walk' (first' :: rest') signatures' receipts'
      = .ok report') (hcontroller : first.controller = first'.controller)
    (hlog : first :: rest = before ++ event :: after)
    (hlog' : first' :: rest' = before' ++ event' :: after')
    (hplace : before.length = before'.length)
    (hasked : before = [] ∨ event.eventType ≠ .delegation)
    (hasked' : before' = [] ∨ event'.eventType ≠ .delegation)
    (hmany : members.card + faulty.card
      < (thresholdInForce (before ++ [event])).val.toNat
        + (thresholdInForce (before' ++ [event'])).val.toNat)
    (hf : FiledFor members faulty (issuedBy prims key steps) receipts event)
    (hf' : FiledFor members faulty (issuedBy prims key steps) receipts' event')
    (hapart : ∀ a ∈ members, a ∉ faulty →
      Along (Witness.step prims) (Witness.Apart prims) (.new a (key a)) (steps a))
    (hdigest : prims.TellsApart {event.blanked, event'.blanked}) :
    event = event' := by
  obtain ⟨hs, hc, hvalid, hq⟩ := at_place_of_verify hv hlog
  obtain ⟨hs', hc', hvalid', hq'⟩ := at_place_of_verify hv' hlog'
  obtain ⟨a, ha, hnf, ⟨r, hr, hrc, hrs, hrd⟩, r', hr', hrc', hrs', hrd'⟩ :=
    exists_common_witness hcfg hcfg' hf hf' (hq hasked) (hq' hasked') hmany
  have hctl : event.controller = event'.controller := by
    rw [hc, hc', hcontroller]
  have hsaid : event.said = event'.said := by
    by_contra hne
    refine Witness.not_contradicts Witness.faithful_run
      (Witness.undivided_run (hapart a ha hnf)) ⟨r, hr, r', hr', ?_, ?_, ?_⟩
    · rw [hrc, hrc', hctl]
    · rw [hrs, hrs', hs, hs', hplace]
    · rw [hrd, hrd']
      exact hne
  -- one identifier, and both events are valid under it
  rcases (Primitives.validateSaid_tampered hdigest hvalid' hsaid
    (by simp) (by simp)).1 hvalid with heq | ⟨-, heq⟩
  · exact heq
  · rw [heq, hctl, KeyEvent.withController_self]

-- ==== two verifiers

/-- The interaction after the inception. -/
def witnessedInteraction : KeyEvent :=
  Primitives.sample.finalizeEvent (.interaction
    { v := versionString, t := .interaction, d := ⟨0⟩
      i := witnessedInception.controller, s := 1
      p := witnessedInception.said, a := [] })

def longerLog : List KeyEvent := [witnessedInception, witnessedInteraction]

/-- The only witness gets one event after the other. -/
def witnessSteps : WitnessAid → List Witness.Step := fun _ =>
  longerLog.flatMap fun event =>
    [.check
        { event
          controllerSignatures := [(0, Primitives.sample.sign 1
            (Primitives.sample.toCbor event))]
          controllerKeysInForce := [KeyPair.publicKey Primitives.sample ⟨1⟩]
          threshold := ⟨1⟩ },
      .record 0 0]

def witnessReceipts : Receipts :=
  longerLog.foldl (fun table event => table.insert event.said
    ((issuedBy Primitives.sample (fun _ => ⟨9⟩) witnessSteps ⟨"W1"⟩).filter
      fun r => r.signedEventSaid = event.said)) ∅

/-- One verifier has the inception only, the other one more event, both
with the receipts of the only witness: they agree on the inception. -/
theorem accepted_logs_agree_sample :
    longerLog.head (List.cons_ne_nil _ _) = witnessedInception := by
  obtain ⟨report, hv⟩ : ∃ report, (quorumVerifier false).verify
      Primitives.sample RowOrder.asserted longerLog (signedByOne longerLog)
      witnessReceipts = .ok report :=
    isOk_iff.1 (by decide +kernel)
  obtain ⟨report', hv'⟩ : ∃ report, (quorumVerifier true).verify
      Primitives.sample RowOrder.asserted [witnessedInception]
      witnessedSignatures witnessReceipts = .ok report :=
    isOk_iff.1 (by decide +kernel)
  exact accepted_logs_agree Primitives.sample (quorumVerifier false)
    (quorumVerifier true) _ _ _ _ _ _ report report' {⟨"W1"⟩} ∅
    (fun _ => ⟨9⟩) witnessSteps _ _ _ _ _ _ [] [] _ [] rfl rfl hv hv' rfl
    rfl rfl rfl (Or.inl rfl) (Or.inl rfl) (by decide +kernel)
    (by unfold FiledFor; decide +kernel) (by unfold FiledFor; decide +kernel)
    (by
      rintro a ha -
      cases Finset.mem_singleton.1 ha
      exact ⟨Witness.apart_of_idle rfl, trivial,
        Witness.apart_of_idle (List.isEmpty_iff.1 (by decide +kernel)),
        trivial, trivial⟩)
    (by rintro x (rfl | rfl) y (rfl | rfl) _ <;> rfl)

end OpenStandards.Keri

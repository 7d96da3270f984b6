/-
Witness quorum over accepted logs.

Receipts are handed in by whoever presents the log. The quorum check
counts the names on those that carry a valid signature and the event's
sequence number. It looks neither at the witness set nor at the
identifier the receipt was signed for, and a delegation is not checked
at all. Where the threshold in force is not zero, somebody who is no
witness can therefore meet it alone, under names of his own
(`forged`): the check gives the quorum exactly where none is asked.
-/
import OpenStandards.Keri.Proofs.Replay
import Mathlib.Data.Set.Finite.Basic

namespace OpenStandards.Keri

open Lib SmartByte

-- ==== the purpose

/-- The witness set after a log: the inception's, updated by each
rotation. -/
def witnessesInForce (log : List KeyEvent) : Finset WitnessAid :=
  log.foldl
    (fun witnesses event => match event with
      | .inception e => e.b.toFinset
      | .rotation e => (witnesses \ e.br.toFinset) ∪ e.ba.toFinset
      | _ => witnesses)
    ∅

variable (prims : Primitives)

/-- A valid receipt for the event's own identifier, under the witness's
name, is filed with the event. -/
def ReceiptedBy (receipts : Receipts) (event : KeyEvent) (witness : WitnessAid) : Prop :=
  ∃ r ∈ (receipts.lookup event.said).getD [], r.witness = witness
    ∧ r.signedEventSaid = event.said ∧ r.verifySignature prims = .ok ()

/-- Every event is receipted by as many members of the witness set in
force as the threshold in force asks for. -/
def WitnessQuorum (log : List KeyEvent) (receipts : Receipts) : Prop :=
  ∀ done event later, log = done ++ event :: later →
    ∃ signers ⊆ witnessesInForce (done ++ [event]),
      (thresholdInForce (done ++ [event])).val.toNat ≤ signers.card
        ∧ ∀ w ∈ signers, ReceiptedBy prims receipts event w

-- ==== forged receipts

def forgedReceipt (sk : SigningKey) (said : Said) (sequence : UInt64)
    (name : String) : WitnessReceipt :=
  { witness := ⟨name⟩, controller := ⟨""⟩, sequence, signedEventSaid := said
    timestamp := 0, witnessPubkey := prims.verifyingKey sk
    signature := prims.sign sk (hashBytes said.digest) }

def forged (sk : SigningKey) (names : List String) (log : List KeyEvent) : Receipts :=
  Table.tabulate (log.map KeyEvent.said) fun said =>
    log.flatMap fun event =>
      names.map (forgedReceipt prims sk said event.sequence)

variable {prims}

theorem forgedReceipt_valid (hed : prims.Ed25519) (sk : SigningKey)
    (said : Said) (sequence : UInt64) (name : String) :
    (forgedReceipt prims sk said sequence name).verifySignature prims = .ok () := by
  unfold WitnessReceipt.verifySignature forgedReceipt
  simp [hed.key_length, hed.key_valid, hed.signature_length, hed.verifies_sign, refuse]

variable {sk : SigningKey} {names : List String} {log : List KeyEvent} {event : KeyEvent}

theorem mem_forged (hevent : event ∈ log) {r : WitnessReceipt} :
    r ∈ ((forged prims sk names log).lookup event.said).getD []
      ↔ ∃ e ∈ log, ∃ name ∈ names, forgedReceipt prims sk event.said e.sequence name = r := by
  unfold forged
  rw [Table.lookup_tabulate, if_pos (List.mem_map_of_mem hevent), Option.getD_some]
  simp only [List.mem_flatMap, List.mem_map]

theorem countedWitnesses_forged (hed : prims.Ed25519) (hevent : event ∈ log) :
    countedWitnesses prims event (((forged prims sk names log).lookup event.said).getD [])
      = names.toFinset := by
  ext name
  unfold countedWitnesses
  simp only [List.mem_toFinset, List.mem_map, List.mem_filter,
    mem_forged hevent, decide_eq_true_eq]
  constructor
  · rintro ⟨r, ⟨⟨e, -, name', hname', rfl⟩, -⟩, rfl⟩
    exact hname'
  · intro hname
    refine ⟨_, ⟨⟨event, hevent, name, hname, rfl⟩, ?_, rfl⟩, rfl⟩
    rw [forgedReceipt_valid hed]
    rfl

/-- As many names as a count can hold meet every threshold. -/
theorem checkWitnessQuorum_forged (hed : prims.Ed25519) {cfg : LogVerifier}
    (hnames : names.toFinset.card = 2 ^ 32 - 1) (hevent : event ∈ log) (bt : Threshold) :
    checkWitnessQuorum prims cfg event bt (forged prims sk names log) = .ok () := by
  unfold checkWitnessQuorum
  split
  · rfl
  · dsimp only
    rw [countedWitnesses_forged hed hevent, hnames, refuse_eq_ok,
      UInt32.not_lt, UInt32.le_iff_toNat_le]
    have := bt.val.toNat_lt
    show _ ≤ 2 ^ 32 - 1
    omega

/-- A log that is accepted with some receipts is accepted with forged
ones. -/
theorem verify_forged (hed : prims.Ed25519) {cfg : LogVerifier}
    {walk : RowOrder (Sigma fun _ : Said => List WitnessReceipt)}
    {signatures : Signatures} {receipts : Receipts} {report : VerificationReport}
    (haccepted : cfg.verify prims walk log signatures receipts = .ok report)
    (sk : SigningKey) (names : List String) (hnames : names.toFinset.card = 2 ^ 32 - 1) :
    ∃ report', cfg.verify prims walk log signatures
      (forged prims sk names log) = .ok report' := by
  obtain ⟨first, rest, start, rfl, hopens, -, hrest, -⟩ :=
    verify_ok_iff.1 haccepted
  refine ⟨_, verify_ok_iff.2 ⟨first, rest, start, rfl, hopens,
    checkWitnessQuorum_forged hed hnames List.mem_cons_self _,
    hrest.mono_mem fun event hevent st hpasses => ⟨hpasses.1, ?_⟩, rfl⟩⟩
  intro bt _
  exact checkWitnessQuorum_forged hed hnames (List.mem_cons_of_mem _ hevent) bt

/-- There are always more names. -/
theorem exists_outsiders (witnesses : Finset WitnessAid) (n : Nat) :
    ∃ names : Finset String, names.card = n
      ∧ ∀ name ∈ names, (⟨name⟩ : WitnessAid) ∉ witnesses := by
  have hinfinite :
      {name : String | (⟨name⟩ : WitnessAid) ∉ witnesses}.Infinite := by
    have hfinite : (↑(witnesses.image WitnessAid.text) : Set String).Finite :=
      Finset.finite_toSet _
    refine hfinite.infinite_compl.mono ?_
    intro name hname hmem
    exact hname (Finset.mem_coe.2 (Finset.mem_image_of_mem _ hmem))
  obtain ⟨names, hsub, hcard⟩ := hinfinite.exists_subset_card_eq n
  exact ⟨names, hcard, fun name hname => hsub hname⟩

-- ==== the condition

def quorumVerifier (strict : Bool) : LogVerifier :=
  { strict, requireWitnessQuorum := true }

/-- For a log that is accepted at all: acceptance entails the quorum,
whatever receipts are presented, exactly when the threshold in force is
zero at every event. -/
theorem witness_quorum_iff (hed : prims.Ed25519) {strict : Bool}
    {walk : RowOrder (Sigma fun _ : Said => List WitnessReceipt)}
    {log : List KeyEvent} {signatures : Signatures}
    (hacceptable : ∃ receipts report,
      (quorumVerifier strict).verify prims walk log signatures receipts = .ok report) :
    (∀ receipts report,
        (quorumVerifier strict).verify prims walk log signatures receipts = .ok report →
        WitnessQuorum prims log receipts)
      ↔ ∀ done event later, log = done ++ event :: later →
        thresholdInForce (done ++ [event]) = ⟨0⟩ := by
  constructor
  · intro hquorum done event later hlog
    obtain ⟨receipts, report, haccepted⟩ := hacceptable
    -- names that are in no witness set at this event
    obtain ⟨outsiders, hcard, houtside⟩ :=
      exists_outsiders (witnessesInForce (done ++ [event])) (2 ^ 32 - 1)
    obtain ⟨report', hforged⟩ := verify_forged hed haccepted 0
      outsiders.toList (by simpa using hcard)
    obtain ⟨signers, hsub, hthreshold, hreceipted⟩ :=
      hquorum _ report' hforged done event later hlog
    have hnone : signers = ∅ := by
      refine Finset.eq_empty_of_forall_notMem fun w hw => ?_
      obtain ⟨r, hr, hrw, -, -⟩ := hreceipted w hw
      have hevent : event ∈ log := by simp [hlog]
      obtain ⟨e, -, name, hname, rfl⟩ := (mem_forged hevent).1 hr
      refine houtside name (Finset.mem_toList.1 hname) ?_
      have hname_eq : (⟨name⟩ : WitnessAid) = w := hrw
      rw [hname_eq]
      exact hsub hw
    rw [hnone, Finset.card_empty, Nat.le_zero] at hthreshold
    have hzero : (thresholdInForce (done ++ [event])).val = 0 :=
      UInt32.toNat_inj.1 hthreshold
    cases hbt : thresholdInForce (done ++ [event]) with
    | mk val =>
      rw [hbt] at hzero
      exact congrArg Threshold.mk hzero
  · intro hzero receipts report _ done event later hlog
    refine ⟨∅, Finset.empty_subset _, ?_, nofun⟩
    rw [hzero done event later hlog]
    exact Nat.le_refl 0

-- ==== an outsider

/-- An inception that asks for so many receipts by `W1`. -/
def inceptionAsking (bt : Threshold) : KeyEvent :=
  .inception (Primitives.sample.finalizeInception
    { v := versionString, t := .inception, d := ⟨0⟩, i := ⟨""⟩, s := 0
      kt := ⟨1⟩, k := [KeyPair.publicKey Primitives.sample ⟨1⟩], nt := ⟨1⟩
      n := [], c := [], b := [⟨"W1"⟩], bt, a := [] })

def witnessedInception : KeyEvent := inceptionAsking ⟨1⟩

/-- Every event signed by key 1. -/
def signedByOne (log : List KeyEvent) : Signatures :=
  log.foldl (fun table event => table.insert event.said
    [(0, Primitives.sample.sign 1 (Primitives.sample.toCbor event))]) ∅

def witnessedSignatures : Signatures := signedByOne [witnessedInception]

def outsiderReceipts : Receipts :=
  AList.insert witnessedInception.said
    [forgedReceipt Primitives.sample 7 ⟨5⟩ 0 "MALLORY"] ∅

theorem outsiderReceipts_accepted :
    ∃ report, (quorumVerifier false).verify Primitives.sample
      RowOrder.asserted [witnessedInception] witnessedSignatures
      outsiderReceipts = .ok report :=
  isOk_iff.1 (by decide +kernel)

/-- The equivalence on a log that asks for no receipt, and on one that asks
for one: acceptance entails the quorum of the first only. -/
theorem witness_quorum_sample :
    (∀ receipts report, (quorumVerifier true).verify Primitives.sample
        RowOrder.asserted [inceptionAsking ⟨0⟩]
        (signedByOne [inceptionAsking ⟨0⟩]) receipts = .ok report →
        WitnessQuorum Primitives.sample [inceptionAsking ⟨0⟩] receipts)
      ∧ ¬ ∀ receipts report, (quorumVerifier false).verify Primitives.sample
        RowOrder.asserted [witnessedInception] witnessedSignatures receipts = .ok report →
        WitnessQuorum Primitives.sample [witnessedInception] receipts := by
  have hfree : ∃ report, (quorumVerifier true).verify Primitives.sample
      RowOrder.asserted [inceptionAsking ⟨0⟩]
      (signedByOne [inceptionAsking ⟨0⟩]) ∅ = .ok report :=
    isOk_iff.1 (by decide +kernel)
  rw [witness_quorum_iff Primitives.sample_ed25519 ⟨∅, hfree⟩,
    witness_quorum_iff Primitives.sample_ed25519
      ⟨outsiderReceipts, outsiderReceipts_accepted⟩]
  refine ⟨?_, fun hzero => ?_⟩
  · intro done event later hlog
    cases done with
    | nil =>
      cases hlog
      decide +kernel
    | cons e done =>
      have hnil := (List.cons.inj hlog).2
      simp at hnil
  · have hone : thresholdInForce ([] ++ [witnessedInception]) ≠ ⟨0⟩ := by
      decide +kernel
    exact hone (hzero [] witnessedInception [] rfl)

/-- An outsider's receipt for another event meets the quorum. -/
theorem outsider_meets_quorum :
    (∃ report, (quorumVerifier false).verify Primitives.sample
        RowOrder.asserted [witnessedInception] witnessedSignatures
        outsiderReceipts = .ok report)
      ∧ ¬ WitnessQuorum Primitives.sample [witnessedInception]
        outsiderReceipts := by
  refine ⟨outsiderReceipts_accepted, fun h => ?_⟩
  obtain ⟨signers, hsub, hthreshold, hreceipted⟩ :=
    h [] witnessedInception [] rfl
  have hone : (thresholdInForce ([] ++ [witnessedInception])).val.toNat = 1 := by
    decide +kernel
  obtain ⟨w, hw⟩ : signers.Nonempty := by
    rw [← Finset.card_pos]
    omega
  obtain ⟨r, hr, hrw, -, -⟩ := hreceipted w hw
  have hmember : w ∈ witnessesInForce ([] ++ [witnessedInception]) := hsub hw
  have hname : ∀ r ∈ (outsiderReceipts.lookup witnessedInception.said).getD
      [], r.witness ∉ witnessesInForce ([] ++ [witnessedInception]) := by
    decide +kernel
  rw [← hrw] at hmember
  exact hname r hr hmember

end OpenStandards.Keri

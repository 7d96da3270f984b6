/-
Who pays for a fork.

Nothing stops a light client from being led onto a fork, nor a round
from committing two blocks, once enough validators sign twice. What the
adapter offers instead is evidence: whenever two light clients that start
from the same trusted state follow different headers, and whenever two
blocks reach the precommit quorum in a round, there is evidence that
`evidence.rs` verifies against more than a third of the power.

A light client does not check the validator set it is handed with a
header, so the result about forks asks that both were handed the same set
with the same header (`SameSets`).
-/
import OpenStandards.Tendermint.Proofs.Safety

namespace OpenStandards.Tendermint

open Lib

-- ==== what verifies

theorem DuplicateVoteEvidence.verify_ok {e : DuplicateVoteEvidence} :
    e.verify = .ok () ↔ e.voteA.validator = e.voteB.validator
      ∧ e.voteA.height = e.voteB.height ∧ e.voteA.round = e.voteB.round
      ∧ e.voteA.kind = e.voteB.kind
      ∧ e.voteA.blockHash ≠ e.voteB.blockHash := by
  unfold verify
  simp only [refuse_bind_eq_ok, refuse_eq_ok, ne_eq, Decidable.not_not]

namespace LightClientAttackEvidence

variable {e : LightClientAttackEvidence}

theorem verify_ok :
    e.verify = .ok () ↔ e.canonical.height = e.conflicting.height
      ∧ e.canonical.blockHash ≠ e.conflicting.blockHash := by
  unfold verify
  simp only [refuse_bind_eq_ok, refuse_eq_ok, ne_eq, Decidable.not_not]

theorem toFinset_offenders :
    e.offenders.toFinset = e.canonical.named ∩ e.conflicting.named := by
  unfold offenders Commit.named
  ext id
  rw [List.mem_toFinset, List.mem_filter, Finset.mem_inter, and_comm,
    decide_eq_true_iff, List.mem_toFinset, List.mem_toFinset]

/-- Commits for different blocks of one height that a quorum signed: the
evidence verifies, and the offenders hold more than a third. -/
theorem accountable {vs : ValidatorSet} (hT : vs.totalVotingPower.toNat < 9223372036854775808)
    (hheight : e.canonical.height = e.conflicting.height)
    (hblock : e.canonical.blockHash ≠ e.conflicting.blockHash)
    (hnd : e.canonical.signers.Nodup) (hnd' : e.conflicting.signers.Nodup)
    (hq : vs.hasQuorum e.canonical.signers = true)
    (hq' : vs.hasQuorum e.conflicting.signers = true) :
    e.verify = .ok () ∧ vs.totalVotingPower.toNat / 3 < vs.held e.offenders.toFinset := by
  have hquorum : vs.quorum.toNat = 2 * vs.totalVotingPower.toNat / 3 + 1 := by
    rw [ValidatorSet.quorum_toNat, Nat.mod_eq_of_lt (by omega)]
  refine ⟨verify_ok.2 ⟨hheight, hblock⟩, ?_⟩
  rw [toFinset_offenders]
  apply ValidatorSet.two_quorums_overlap hT
  · rw [hquorum]
    exact ValidatorSet.held_of_hasQuorum (Or.inr (Or.inr ⟨hT, hnd⟩)) hq
  · rw [hquorum]
    exact ValidatorSet.held_of_hasQuorum (Or.inr (Or.inr ⟨hT, hnd'⟩)) hq'

end LightClientAttackEvidence

-- ==== following a chain

/-- What a light client is handed for one height. -/
structure Update where
  header : Header
  validators : ValidatorSet
  commit : Commit

section

variable (hash : Header → Hash)

def follow (trusted : TrustedState) (updates : List Update) : Except Error TrustedState :=
  updates.foldlM (fun t u => applySequential hash t u.header u.validators u.commit) trusted

end

def inForce (vs : ValidatorSet) : List Update → Nat → ValidatorSet
  | u :: us, j + 1 => inForce u.validators us j
  | _, _ => vs

/-- Sets whose quorum is two thirds, and commits that name nobody
twice. -/
structure Countable (vs : ValidatorSet) (updates : List Update) : Prop where
  sets : ∀ w ∈ vs :: updates.map Update.validators,
    w.totalVotingPower.toNat < 9223372036854775808
  signers : ∀ u ∈ updates, u.commit.signers.Nodup

variable {hash : Header → Hash} {trusted trusted' t t' : TrustedState}
  {u u' : Update} {us us' : List Update} {vs : ValidatorSet}

theorem Countable.tail (h : Countable vs (u :: us)) : Countable u.validators us :=
  ⟨fun w hw => h.sets w (List.mem_cons_of_mem _ hw),
    fun v hv => h.signers v (List.mem_cons_of_mem _ hv)⟩

theorem applySequential_ok :
    applySequential hash trusted u.header u.validators u.commit = .ok t ↔
      verifySequential hash trusted u.header u.commit = .ok ()
        ∧ t = ⟨u.header, u.validators⟩ := by
  unfold applySequential
  rw [bind_eq_ok]
  constructor
  · rintro ⟨⟨⟩, hv, h⟩
    exact ⟨hv, (Except.ok.inj h).symm⟩
  · rintro ⟨hv, rfl⟩
    exact ⟨(), hv, rfl⟩

theorem follow_cons_ok :
    follow hash trusted (u :: us) = .ok t ↔
      verifySequential hash trusted u.header u.commit = .ok ()
        ∧ follow hash ⟨u.header, u.validators⟩ us = .ok t := by
  unfold follow
  rw [List.foldlM_cons, bind_eq_ok]
  constructor
  · rintro ⟨t₁, hstep, hrest⟩
    obtain ⟨hv, rfl⟩ := applySequential_ok.1 hstep
    exact ⟨hv, hrest⟩
  · rintro ⟨hv, hrest⟩
    exact ⟨_, applySequential_ok.2 ⟨hv, rfl⟩, hrest⟩

-- ==== forks of the chain

/-- At this place both runs have a header of the same hash, or one of
them has none. -/
def AgreeAt (hash : Header → Hash) (us us' : List Update) (i : Nat) : Prop :=
  ∀ u u', us[i]? = some u → us'[i]? = some u' → hash u.header = hash u'.header

def SameSets (hash : Header → Hash) (us us' : List Update) : Prop :=
  ∀ (i : Nat) (u u' : Update), us[i]? = some u → us'[i]? = some u' →
    hash u.header = hash u'.header → u.validators = u'.validators

/-- The runs agree up to a place and part there, and the two commits of
that place convict more than a third of the set in force. -/
def ConvictedFork (hash : Header → Hash) (vs : ValidatorSet) (us us' : List Update) : Prop :=
  ∃ j u u', us[j]? = some u ∧ us'[j]? = some u'
    ∧ (∀ i < j, AgreeAt hash us us' i)
    ∧ hash u.header ≠ hash u'.header
    ∧ LightClientAttackEvidence.verify ⟨u.commit, u'.commit⟩ = .ok ()
    ∧ (inForce vs us j).totalVotingPower.toNat / 3
      < (inForce vs us j).held (LightClientAttackEvidence.offenders
          ⟨u.commit, u'.commit⟩).toFinset

theorem agreeAt_nil_left (i : Nat) : AgreeAt hash [] us' i :=
  fun _ _ h _ => nomatch h

theorem agreeAt_nil_right (i : Nat) : AgreeAt hash us [] i :=
  fun _ _ _ h => nomatch h

theorem agreeAt_cons (hhead : hash u.header = hash u'.header) {i : Nat}
    (hrest : ∀ k, k + 1 = i → AgreeAt hash us us' k) :
    AgreeAt hash (u :: us) (u' :: us') i := by
  intro v v' hv hv'
  cases i with
  | zero =>
    cases hv
    cases hv'
    exact hhead
  | succ k => exact hrest k rfl v v' hv hv'

/-- A fork further on is a fork of the longer runs. -/
theorem ConvictedFork.cons (hhead : hash u.header = hash u'.header)
    (h : ConvictedFork hash u.validators us us') :
    ConvictedFork hash vs (u :: us) (u' :: us') := by
  obtain ⟨j, v, v', hv, hv', hbefore, hpart, hverify, hheld⟩ := h
  refine ⟨j + 1, v, v', hv, hv', ?_, hpart, hverify, hheld⟩
  intro i hi
  exact agreeAt_cons hhead fun k hk => hbefore k (by omega)

/-- The two commits of the first place at which the headers differ. -/
theorem convictedFork_head (hheight : trusted.header.height
      = trusted'.header.height) (hvs : trusted.validators = trusted'.validators)
    (hc : Countable trusted.validators (u :: us))
    (hc' : Countable trusted'.validators (u' :: us'))
    (hv : verifySequential hash trusted u.header u.commit = .ok ())
    (hv' : verifySequential hash trusted' u'.header u'.commit = .ok ())
    (hne : hash u.header ≠ hash u'.header) :
    ConvictedFork hash trusted.validators (u :: us) (u' :: us') := by
  obtain ⟨hnext, -, hch, hcb, hq⟩ := verifySequential_ok.1 hv
  obtain ⟨hnext', -, hch', hcb', hq'⟩ := verifySequential_ok.1 hv'
  have hT := hc.sets trusted.validators List.mem_cons_self
  rw [← hvs] at hq'
  obtain ⟨hverify, hheld⟩ := LightClientAttackEvidence.accountable
    (e := ⟨u.commit, u'.commit⟩) hT
    (by rw [hch, hch', hnext, hnext', hheight])
    (by rw [hcb, hcb']; exact hne)
    (hc.signers u List.mem_cons_self)
    (hc'.signers u' List.mem_cons_self) hq hq'
  exact ⟨0, u, u', rfl, rfl, fun i hi => absurd hi (Nat.not_lt_zero i), hne, hverify, hheld⟩

/-- Two runs from trusted states of one height and one set: the headers
agree, or the fork is convicted. The induction is along both runs. -/
theorem agree_or_convicted (hheight : trusted.header.height
      = trusted'.header.height) (hvs : trusted.validators = trusted'.validators)
    (hf : follow hash trusted us = .ok t) (hf' : follow hash trusted' us' = .ok t')
    (hc : Countable trusted.validators us) (hc' : Countable trusted'.validators us')
    (hsets : SameSets hash us us') :
    (∀ i, AgreeAt hash us us' i) ∨ ConvictedFork hash trusted.validators us us' := by
  induction us generalizing us' trusted trusted' with
  | nil => exact Or.inl agreeAt_nil_left
  | cons u us ih =>
    cases us' with
    | nil => exact Or.inl agreeAt_nil_right
    | cons u' us' =>
      obtain ⟨hv, hrest⟩ := follow_cons_ok.1 hf
      obtain ⟨hv', hrest'⟩ := follow_cons_ok.1 hf'
      by_cases hhash : hash u.header = hash u'.header
      · have hset := hsets 0 u u' rfl rfl hhash
        have hnext : u.header.height = u'.header.height := by
          rw [(verifySequential_ok.1 hv).1, (verifySequential_ok.1 hv').1, hheight]
        rcases ih hnext hset hrest hrest' hc.tail hc'.tail
          (fun i => hsets (i + 1)) with hagree | hfork
        · exact Or.inl fun i => agreeAt_cons hhash fun k _ => hagree k
        · exact Or.inr (hfork.cons hhash)
      · exact Or.inr (convictedFork_head hheight hvs hc hc' hv hv' hhash)

/-- **No fork without a third.** Two light clients follow a chain by
sequential updates from the same trusted state. If both were handed the
same validator set with the same header, the sets are ones whose quorum
is two thirds and no commit names a validator twice, then the headers
they trust agree at every height both reached, or there is a first height
at which they differ and the two commits of that height verify as
evidence against more than a third of the set in force. -/
theorem forks_accountable (hash : Header → Hash) (trusted : TrustedState)
    (us us' : List Update) (t t' : TrustedState)
    (hf : follow hash trusted us = .ok t) (hf' : follow hash trusted us' = .ok t')
    (hc : Countable trusted.validators us) (hc' : Countable trusted.validators us')
    (hsets : SameSets hash us us') :
    (∀ i, AgreeAt hash us us' i) ∨ ConvictedFork hash trusted.validators us us' :=
  agree_or_convicted rfl rfl hf hf' hc hc' hsets

def forkedUpdate (dataHash : Hash) (signers : List ValidatorId) : Update :=
  { header := { headerAt 1 0 with dataHash }
    validators := fourValidators
    commit := commitOf Header.dataHash { headerAt 1 0 with dataHash } signers }

/-- Of four validators two sign both of two headers: the fork convicts
them. -/
theorem forked_four_convicted :
    ConvictedFork Header.dataHash fourValidators
      [forkedUpdate 1 [⟨1⟩, ⟨2⟩, ⟨3⟩]] [forkedUpdate 2 [⟨2⟩, ⟨3⟩, ⟨4⟩]] := by
  have hset : ∀ w ∈ [fourValidators, fourValidators],
      w.totalVotingPower.toNat < 9223372036854775808 := by
    intro w hw
    obtain rfl : w = fourValidators := by
      rcases List.mem_cons.1 hw with h | h
      · exact h
      · exact List.mem_singleton.1 h
    exact show 4 < 9223372036854775808 by decide
  have hnd : ∀ (h : Hash) (l : List ValidatorId), l.Nodup →
      ∀ u ∈ [forkedUpdate h l], u.commit.signers.Nodup := by
    intro h l hl u hu
    rw [List.mem_singleton.1 hu]
    exact (signers_commitOf _ _ l).symm ▸ hl
  have hsame : SameSets Header.dataHash [forkedUpdate 1 [⟨1⟩, ⟨2⟩, ⟨3⟩]]
      [forkedUpdate 2 [⟨2⟩, ⟨3⟩, ⟨4⟩]] := by
    intro i u u' hu hu' _
    cases i with
    | zero =>
      cases hu
      cases hu'
      rfl
    | succ i => exact nomatch hu
  rcases forks_accountable Header.dataHash ⟨headerAt 0 0, fourValidators⟩
      [forkedUpdate 1 [⟨1⟩, ⟨2⟩, ⟨3⟩]] [forkedUpdate 2 [⟨2⟩, ⟨3⟩, ⟨4⟩]] _ _
      (follow_cons_ok.2 ⟨verifySequential_ok.2 (by decide), rfl⟩)
      (follow_cons_ok.2 ⟨verifySequential_ok.2 (by decide), rfl⟩)
      ⟨hset, hnd _ _ (by decide)⟩ ⟨hset, hnd _ _ (by decide)⟩ hsame with
    hagree | hfork
  · exact absurd (hagree 0 _ _ rfl rfl) (by decide)
  · exact hfork

-- ==== conflicting rounds

namespace ConsensusState

variable {start start' : ConsensusState} {calls calls' : List Call}
  {h h' : Hash} {id : ValidatorId}

theorem mem_roundPrecommits :
    (id, h) ∈ start.roundPrecommits calls ↔
      ∃ v, .vote v ∈ calls ∧ v.validator = id ∧ v.kind = .precommit
        ∧ v.height = start.height ∧ v.round = start.round
        ∧ v.blockHash = some h := by
  unfold roundPrecommits
  rw [List.mem_filterMap]
  constructor
  · rintro ⟨c, hc, hsome⟩
    cases c with
    | proposal p => exact nomatch hsome
    | nextRound => exact nomatch hsome
    | vote v =>
      change (if _ then _ else _) = _ at hsome
      split at hsome
      case isTrue hround =>
        obtain ⟨b, hb, heq⟩ := Option.map_eq_some_iff.1 hsome
        cases heq
        exact ⟨v, hc, rfl, hround.1, hround.2.1, hround.2.2, hb⟩
      case isFalse => exact nomatch hsome
  · rintro ⟨v, hc, rfl, hkind, hheight, hround, hb⟩
    refine ⟨.vote v, hc, ?_⟩
    show (if _ then _ else _) = _
    rw [if_pos ⟨hkind, hheight, hround⟩, hb]
    rfl

/-- A validator that precommits for one block at one node and for another
at another is convicted by its two votes. -/
theorem exists_duplicateVote (hheight : start.height = start'.height)
    (hround : start.round = start'.round) (hne : h ≠ h')
    (hid : id ∈ start.precommitters calls h) (hid' : id ∈ start'.precommitters calls' h') :
    ∃ e : DuplicateVoteEvidence, .vote e.voteA ∈ calls
      ∧ .vote e.voteB ∈ calls' ∧ e.verify = .ok () ∧ e.offender = id := by
  obtain ⟨v, hv, hid, hk, hh, hr, hb⟩ :=
    mem_roundPrecommits.1 (mem_precommitters.1 hid)
  obtain ⟨v', hv', hid', hk', hh', hr', hb'⟩ :=
    mem_roundPrecommits.1 (mem_precommitters.1 hid')
  refine ⟨⟨v, v'⟩, hv, hv', DuplicateVoteEvidence.verify_ok.2 ?_, hid⟩
  refine ⟨hid.trans hid'.symm, ?_, ?_, hk.trans hk'.symm, ?_⟩
  · exact hh.trans (hheight.trans hh'.symm)
  · exact hr.trans (hround.trans hr'.symm)
  · show v.blockHash ≠ v'.blockHash
    rw [hb, hb']
    exact fun heq => hne (Option.some.inj heq)

/-- **No disagreement without a third.** Two nodes run the same round of
the same height over the same validators, each on its own calls. If two
different blocks reach the precommit quorum, one at each node, then there
are validators with more than a third of the power each of which is
convicted by a vote the one node got and a vote the other got. -/
theorem conflict_accountable (start start' : ConsensusState)
    (calls calls' : List Call) (h h' : Hash)
    (hbegin : start.BeginsRound) (hbegin' : start'.BeginsRound)
    (hvs : start'.validators = start.validators)
    (hheight : start.height = start'.height) (hround : start.round = start'.round)
    (hT : start.validators.totalVotingPower.toNat < 9223372036854775808)
    (hcalls : ∀ c ∈ calls, c ≠ .nextRound) (hcalls' : ∀ c ∈ calls', c ≠ .nextRound)
    (hq : (run call start calls).ReachesQuorum h)
    (hq' : (run call start' calls').ReachesQuorum h') (hne : h ≠ h') :
    ∃ offenders : Finset ValidatorId,
      start.validators.totalVotingPower.toNat / 3 < start.validators.held offenders
      ∧ ∀ id ∈ offenders, ∃ e : DuplicateVoteEvidence,
          .vote e.voteA ∈ calls ∧ .vote e.voteB ∈ calls'
          ∧ e.verify = .ok () ∧ e.offender = id := by
  refine ⟨start.precommitters calls h ∩ start'.precommitters calls' h',
    ?_, ?_⟩
  · apply ValidatorSet.two_quorums_overlap hT
    · exact (tallied_run hbegin hcalls (List.prefix_refl _)).quorum_le_held hq
    · have hheld := (tallied_run hbegin' hcalls' (List.prefix_refl _)).quorum_le_held hq'
      rw [hvs] at hheld
      exact hheld
  · intro id hid
    obtain ⟨hA, hB⟩ := Finset.mem_inter.1 hid
    exact exists_duplicateVote hheight hround hne hA hB

def precommitsFor (h : Hash) (ids : List ValidatorId) : List Call :=
  ids.map fun id => .vote (voteBy .precommit id (some h))

/-- Two validators of four vote for one block at one node and for another
at another: both are convicted. -/
theorem conflict_four_convicted :
    ∃ offenders : Finset ValidatorId, 1 < fourValidators.held offenders
      ∧ ∀ id ∈ offenders, ∃ e : DuplicateVoteEvidence,
          .vote e.voteA ∈ precommitsFor 1 [⟨1⟩, ⟨2⟩, ⟨3⟩]
          ∧ .vote e.voteB ∈ precommitsFor 2 [⟨2⟩, ⟨3⟩, ⟨4⟩]
          ∧ e.verify = .ok () ∧ e.offender = id :=
  conflict_accountable (.new "c" 1 fourValidators)
    (.new "c" 1 fourValidators) _ _ 1 2 ⟨"c", 1, _, Or.inl rfl⟩
    ⟨"c", 1, _, Or.inl rfl⟩ rfl rfl rfl
    (show 4 < 9223372036854775808 by decide) (by decide) (by decide)
    (by decide) (by decide) (by decide)

end ConsensusState

end OpenStandards.Tendermint

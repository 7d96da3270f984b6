/-
What comes out of a round is a matter of who voted for what.

The machine counts votes one by one, refuses some and adds up powers in a
word. `Reflects` says that its tallies are nevertheless a function of the
set of votes that arrived: the voters of a block are the known validators
that voted for it in the round, each once, and the power is what they
hold. So neither the order of the votes nor their repetition nor the
votes of strangers and of other rounds make a difference, and a block is
committed exactly if a quorum precommitted for one (`round_outcome`).
-/
import OpenStandards.Tendermint.Proofs.Safety

namespace OpenStandards.Tendermint

open Lib

/-- The known validator that votes by a call, for a block or for nil. -/
def Call.voter? (cs : ConsensusState) (kind : VoteType)
    (block : Option Hash) : Call → Option ValidatorId
  | .vote v =>
    if v.kind = kind ∧ v.blockHash = block ∧ v.height = cs.height
        ∧ v.round = cs.round ∧ (cs.validators.get v.validator).isSome then
      some v.validator
    else none
  | _ => none

namespace ConsensusState

variable {cs start : ConsensusState} {calls done : List Call} {c : Call}
  {v : Vote} {kind : VoteType} {block : Option Hash} {id : ValidatorId}

def votersFor (start : ConsensusState) (calls : List Call)
    (kind : VoteType) (block : Option Hash) : Finset ValidatorId :=
  (calls.filterMap (Call.voter? start kind block)).toFinset

theorem mem_votersFor_append :
    id ∈ start.votersFor (done ++ [c]) kind block
      ↔ id ∈ start.votersFor done kind block ∨ Call.voter? start kind block c = some id := by
  unfold votersFor
  rw [List.filterMap_append, List.toFinset_append, Finset.mem_union,
    List.mem_toFinset (l := List.filterMap _ [c])]
  simp

theorem voter?_vote :
    Call.voter? cs kind block (.vote v) = some id
      ↔ v.kind = kind ∧ v.blockHash = block ∧ v.height = cs.height
        ∧ v.round = cs.round ∧ (cs.validators.get v.validator).isSome
        ∧ v.validator = id := by
  show (if _ then _ else _) = _ ↔ _
  split
  case isTrue h => simp [h]
  case isFalse h =>
    refine iff_of_false nofun fun hv => h ?_
    exact ⟨hv.1, hv.2.1, hv.2.2.1, hv.2.2.2.1, hv.2.2.2.2.1⟩

theorem tally_record (cs : ConsensusState) (kind kind' : VoteType)
    (block block' : Option Hash) (entry : Tally) :
    ((cs.record kind block entry).tallies kind').tally block'
      = if kind = kind' ∧ block = block' then entry
        else (cs.tallies kind').tally block' := by
  cases kind <;> cases kind'
  all_goals
    simp only [record, tallies, tally_insert, true_and, reduceCtorEq,
      false_and, if_false, eq_comm]

theorem tallies_afterVote (cs : ConsensusState) (v : Vote) :
    (cs.afterVote v).tallies = (cs.record v.kind v.blockHash (cs.counted v)).tallies := by
  funext kind
  rcases cs.afterVote_cases v with
    ⟨heq, -⟩ | ⟨-, -, hash, heq⟩ | ⟨h, -, heq⟩
  · rw [heq]
  · rw [heq]
    cases kind <;> rfl
  · rw [heq]
    cases kind <;> rfl

-- ==== the run invariant

/-- The tallies hold what the votes so far say. -/
structure Reflects (start : ConsensusState) (done : List Call) (cs : ConsensusState) : Prop where
  validators : cs.validators = start.validators
  height : cs.height = start.height
  round : cs.round = start.round
  nodup : ∀ kind block, ((cs.tallies kind).tally block).voters.Nodup
  voters : ∀ kind block, ((cs.tallies kind).tally block).voters.toFinset
    = start.votersFor done kind block
  power : ∀ kind block, ((cs.tallies kind).tally block).power.toNat
    = start.validators.held (start.votersFor done kind block)
  committed : cs.committed.isSome ↔ ∃ h, start.validators.quorum ≤ cs.precommitPower (some h)

theorem reflects_start (hbegin : start.BeginsRound)
    (hnone : start.committed = none) : Reflects start [] start := by
  have hempty : ∀ kind block, (start.tallies kind).tally block = {} := by
    intro kind block
    obtain ⟨chainId, height, vs, rfl | ⟨calls, rfl⟩⟩ := hbegin
    · cases kind <;> rfl
    · cases kind <;> rfl
  refine ⟨rfl, rfl, rfl, ?_, ?_, ?_, ?_⟩
  · intro kind block
    rw [hempty]
    exact List.nodup_nil
  · intro kind block
    rw [hempty]
    rfl
  · intro kind block
    rw [hempty]
    rfl
  · rw [hnone]
    refine iff_of_false nofun fun h => ?_
    obtain ⟨b, hq⟩ := h
    have hzero : start.precommitPower (some b) = 0 :=
      congrArg Tally.power (hempty .precommit (some b))
    rw [hzero, UInt64.le_iff_toNat_le, ValidatorSet.quorum_toNat] at hq
    exact absurd hq (Nat.not_succ_le_zero _)

/-- A call that is no vote, or a vote that does not count, adds no
voter. -/
theorem Reflects.keep (hr : Reflects start done cs)
    (hc : ∀ v, c = .vote v → ¬ cs.Counts v) (kind : VoteType) (block : Option Hash) :
    start.votersFor (done ++ [c]) kind block = start.votersFor done kind block := by
  ext id
  rw [mem_votersFor_append]
  refine or_iff_left_of_imp fun hid => ?_
  cases c with
  | proposal p => exact nomatch hid
  | nextRound => exact nomatch hid
  | vote v =>
    obtain ⟨rfl, rfl, hh, hround, hknown, rfl⟩ := voter?_vote.1 hid
    -- it was counted before
    by_contra hno
    refine hc v rfl ⟨hh.trans hr.height.symm, hround.trans hr.round.symm,
      ?_, ?_⟩
    · rw [hr.validators]
      exact hknown
    · rw [← hr.voters, List.mem_toFinset] at hno
      exact hno

theorem Reflects.votersFor_vote (hr : Reflects start done cs)
    (hcounts : cs.Counts v) (kind : VoteType) (block : Option Hash) :
    start.votersFor (done ++ [.vote v]) kind block
      = if v.kind = kind ∧ v.blockHash = block
        then insert v.validator (start.votersFor done kind block)
        else start.votersFor done kind block := by
  obtain ⟨hh, hround, hknown, -⟩ := hcounts
  rw [hr.height] at hh
  rw [hr.round] at hround
  rw [hr.validators] at hknown
  ext id
  rw [mem_votersFor_append, voter?_vote]
  split
  case isTrue h =>
    rw [Finset.mem_insert]
    simp only [h, hh, hround, hknown, true_and]
    exact or_comm.trans (or_congr_left eq_comm)
  case isFalse h =>
    exact or_iff_left_of_imp fun hv => absurd ⟨hv.1, hv.2.1⟩ h

theorem Reflects.afterVote (hr : Reflects start done cs) (hcounts : cs.Counts v) :
    Reflects start (done ++ [.vote v]) (cs.afterVote v) := by
  obtain ⟨hvalidators, hheight, hround⟩ := cs.afterVote_frame v
  have hnew := hcounts.2.2.2
  have htally : ∀ kind block, ((cs.afterVote v).tallies kind).tally block
      = if v.kind = kind ∧ v.blockHash = block then cs.counted v
        else (cs.tallies kind).tally block := by
    intro kind block
    rw [tallies_afterVote, tally_record]
  have hnotin : v.validator ∉ start.votersFor done v.kind v.blockHash := by
    rw [← hr.voters, List.mem_toFinset]
    exact hnew
  refine ⟨hvalidators.trans hr.validators, hheight.trans hr.height,
    hround.trans hr.round, ?_, ?_, ?_, ?_⟩
  · intro kind block
    rw [htally]
    split
    case isTrue h =>
      exact List.nodup_append.2 ⟨hr.nodup .., List.nodup_singleton _,
        fun a ha b hb heq => hnew (List.mem_singleton.1 hb ▸ heq ▸ ha)⟩
    case isFalse => exact hr.nodup kind block
  · intro kind block
    rw [htally, hr.votersFor_vote hcounts]
    split
    case isTrue h =>
      obtain ⟨rfl, rfl⟩ := h
      show (((cs.tallies v.kind).tally v.blockHash).voters ++ [v.validator]).toFinset = _
      rw [List.toFinset_append, hr.voters]
      ext id
      simp
    case isFalse => exact hr.voters kind block
  · intro kind block
    rw [htally, hr.votersFor_vote hcounts]
    split
    case isTrue h =>
      obtain ⟨rfl, rfl⟩ := h
      have hsum : start.validators.held (insert v.validator
            (start.votersFor done v.kind v.blockHash))
          = start.validators.powerOf v.validator
            + start.validators.held (start.votersFor done v.kind v.blockHash) :=
        Finset.sum_insert hnotin
      have hle := start.validators.held_le_total (insert v.validator
        (start.votersFor done v.kind v.blockHash))
      have hlt := start.validators.totalVotingPower.toNat_lt
      rw [counted_power_toNat, hr.validators, hr.power]
      omega
    case isFalse => exact hr.power kind block
  · rcases cs.afterVote_commit v with
      ⟨h, hc, -, hcommitted⟩ | ⟨hno, hcommitted, -⟩
    · rw [hcommitted]
      refine iff_of_true rfl ⟨h, ?_⟩
      unfold precommitPower
      rw [tally_afterVote, if_pos ⟨hc.1, hc.2.1⟩, ← hr.validators]
      exact hc.2.2
    · rw [hcommitted, hr.committed]
      constructor
      · rintro ⟨h, hq⟩
        exact ⟨h, UInt64.le_trans hq (cs.precommitPower_afterVote_le v h)⟩
      · rintro ⟨h, hq⟩
        refine ⟨h, ?_⟩
        unfold precommitPower at hq ⊢
        rw [tally_afterVote] at hq
        split at hq
        case isTrue hv =>
          rw [← hr.validators] at hq
          exact absurd ⟨hv.1, hv.2, hq⟩ (hno h)
        case isFalse => exact hq

theorem Reflects.call (hr : Reflects start done cs) (hc : c ≠ .nextRound) :
    Reflects start (done ++ [c]) (cs.call c) := by
  have hsame : ∀ cs' : ConsensusState,
      (∀ v, c = .vote v → ¬ cs.Counts v) →
      cs'.validators = cs.validators → cs'.height = cs.height →
      cs'.round = cs.round → cs'.tallies = cs.tallies →
      cs'.committed = cs.committed → Reflects start (done ++ [c]) cs' := by
    intro cs' hno hvs hh hround ht hcommitted
    have hpower : cs'.precommitPower = cs.precommitPower := by
      funext block
      exact congrArg (fun f => (Tallies.tally (f .precommit) block).power) ht
    refine ⟨hvs.trans hr.validators, hh.trans hr.height, hround.trans hr.round, ?_, ?_, ?_, ?_⟩
    · rw [ht]
      exact hr.nodup
    · intro kind block
      rw [ht, hr.voters, hr.keep hno]
    · intro kind block
      rw [ht, hr.power, hr.keep hno]
    · rw [hcommitted, hpower]
      exact hr.committed
  by_cases hno : ∀ v, c = .vote v → ¬ cs.Counts v
  · rcases cs.call_cases c with
      heq | ⟨p, -, -, heq⟩ | ⟨v, hv, hcounts, -⟩ | ⟨hnext, -⟩
    · rw [heq]
      exact hsame cs hno rfl rfl rfl rfl rfl
    · rw [heq]
      exact hsame _ hno rfl rfl rfl (funext fun k => by cases k <;> rfl) rfl
    · exact absurd hcounts (hno v hv)
    · exact absurd hnext hc
  · push Not at hno
    obtain ⟨v, rfl, hcounts⟩ := hno
    rw [call_vote_of_counts hcounts]
    exact hr.afterVote hcounts

theorem reflects_run (hbegin : start.BeginsRound) (hnone : start.committed = none)
    (hround : ∀ c ∈ calls, c ≠ .nextRound) :
    Reflects start calls (run call start calls) := by
  induction calls using List.reverseRecOn with
  | nil => exact reflects_start hbegin hnone
  | append_singleton done c ih =>
    rw [run_append]
    exact (ih fun c hc => hround c (List.mem_append_left _ hc)).call
      (hround c (List.mem_append_right _ (List.mem_singleton_self c)))

/-- **The outcome of a round.** Whatever calls a node gets in a round that
starts with nothing committed, in whatever order: the tallied power for
every block, and for nil, is what the known validators that voted for it in
the round hold together, in both phases; and a block is committed if and
only if the validators that precommitted for some block hold the quorum. -/
theorem round_outcome (start : ConsensusState) (calls : List Call)
    (hbegin : start.BeginsRound) (hnone : start.committed = none)
    (hround : ∀ c ∈ calls, c ≠ .nextRound) :
    (∀ block,
      ((run call start calls).prevotePower block).toNat
          = start.validators.held (start.votersFor calls .prevote block)
        ∧ ((run call start calls).precommitPower block).toNat
          = start.validators.held (start.votersFor calls .precommit block))
    ∧ ((run call start calls).committed.isSome ↔ ∃ h,
        start.validators.quorum.toNat
          ≤ start.validators.held (start.votersFor calls .precommit (some h))) := by
  have hr := reflects_run hbegin hnone hround
  refine ⟨fun block => ⟨hr.power .prevote block, hr.power .precommit block⟩,
    hr.committed.trans (exists_congr fun h => ?_)⟩
  rw [UInt64.le_iff_toNat_le, ← hr.power .precommit (some h)]
  rfl

/-- Three of four precommit, one of them twice and a stranger with them:
the block is committed. -/
theorem three_of_four_commit :
    (run call (.new "c" 1 fourValidators)
      ([⟨1⟩, ⟨9⟩, ⟨2⟩, ⟨1⟩, ⟨3⟩].map fun id =>
        .vote (voteBy .precommit id (some 1)))).committed.isSome = true :=
  (round_outcome _ _ ⟨"c", 1, _, Or.inl rfl⟩ rfl (by decide)).2.2
    ⟨1, by decide⟩

end ConsensusState

end OpenStandards.Tendermint

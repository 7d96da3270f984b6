/-
One block per round.

The run invariant `Tallied` bounds the power tallied for a block by what
its distinct precommitters hold. Safety then is arithmetic: two blocks
over the quorum `floor(2T/3) + 1` share precommitters that hold more than
`floor(T/3)`, and whoever precommits for two blocks equivocates.

The doubled total leaves the word from `T = 2^63` on, where the quorum
comes out too low (`exists_split`). And a hash committed in an earlier round
stays in `committed` across `next_round`, to be replaced by the next quorum.
The main theorem says that these two are all.
-/
import OpenStandards.Tendermint.Proofs.Consensus

namespace OpenStandards.Tendermint

open Lib

-- ==== the quorum arithmetic

namespace ValidatorSet

variable {vs : ValidatorSet}

theorem powerOf_lt (vs : ValidatorSet) (id : ValidatorId) :
    vs.powerOf id < 18446744073709551616 := by
  unfold powerOf
  cases vs.get id with
  | none => decide
  | some v => exact v.votingPower.toNat_lt

theorem held_mono {A B : Finset ValidatorId} (h : A ⊆ B) :
    vs.held A ≤ vs.held B := Finset.sum_le_sum_of_subset h

theorem held_append_singleton {l : List ValidatorId} {a : ValidatorId} (h : a ∉ l) :
    vs.held (l ++ [a]).toFinset = vs.held l.toFinset + vs.powerOf a := by
  have hins : (l ++ [a]).toFinset = insert a l.toFinset := by
    ext x
    simp
  unfold held
  rw [hins, Finset.sum_insert (fun hin => h (List.mem_toFinset.1 hin)), Nat.add_comm]

/-- Whoever is listed twice counts with the first entry. -/
theorem held_le_total (vs : ValidatorSet) (A : Finset ValidatorId) :
    vs.held A ≤ vs.totalVotingPower.toNat := by
  rw [vs.total_eq]
  exact sum_firstPower_le ..

/-- Two sets of validators over a quorum that is two thirds of the total
hold more than a third of it in common. -/
theorem two_quorums_overlap (hT : vs.totalVotingPower.toNat < 9223372036854775808)
    {A B : Finset ValidatorId} (hA : vs.quorum.toNat ≤ vs.held A)
    (hB : vs.quorum.toNat ≤ vs.held B) :
    vs.totalVotingPower.toNat / 3 < vs.held (A ∩ B) := by
  have hsum : vs.held (A ∪ B) + vs.held (A ∩ B) = vs.held A + vs.held B :=
    Finset.sum_union_inter
  have hunion := vs.held_le_total (A ∪ B)
  rw [quorum_toNat, Nat.mod_eq_of_lt (by omega)] at hA hB
  omega

end ValidatorSet

-- ==== the voters

def Call.precommit? (cs : ConsensusState) : Call → Option (ValidatorId × Hash)
  | .vote v =>
    if v.kind = .precommit ∧ v.height = cs.height ∧ v.round = cs.round then
      v.blockHash.map fun h => (v.validator, h)
    else none
  | _ => none

namespace ConsensusState

def roundPrecommits (cs : ConsensusState) (calls : List Call) : List (ValidatorId × Hash) :=
  calls.filterMap (Call.precommit? cs)

def precommitters (cs : ConsensusState) (calls : List Call) (h : Hash) : Finset ValidatorId :=
  (((cs.roundPrecommits calls).filter fun p => p.2 = h).map Prod.fst).toFinset

def equivocators (cs : ConsensusState) (calls : List Call) : Finset ValidatorId :=
  (((cs.roundPrecommits calls).filter fun p =>
    (cs.roundPrecommits calls).any fun q => q.1 = p.1 ∧ q.2 ≠ p.2).map Prod.fst).toFinset

variable {cs start : ConsensusState} {calls : List Call}

theorem mem_precommitters {h : Hash} {id : ValidatorId} :
    id ∈ cs.precommitters calls h ↔ (id, h) ∈ cs.roundPrecommits calls := by
  unfold precommitters
  rw [List.mem_toFinset, List.mem_map]
  constructor
  · rintro ⟨⟨id', h'⟩, hmem, rfl⟩
    obtain ⟨hin, hh⟩ := List.mem_filter.1 hmem
    obtain rfl : h' = h := of_decide_eq_true hh
    exact hin
  · intro hmem
    exact ⟨(id, h), List.mem_filter.2 ⟨hmem, decide_eq_true rfl⟩, rfl⟩

theorem inter_subset_equivocators {h h' : Hash} (hne : h ≠ h') :
    cs.precommitters calls h ∩ cs.precommitters calls h' ⊆ cs.equivocators calls := by
  intro id hid
  obtain ⟨hA, hB⟩ := Finset.mem_inter.1 hid
  rw [mem_precommitters] at hA hB
  unfold equivocators
  rw [List.mem_toFinset, List.mem_map]
  refine ⟨(id, h), List.mem_filter.2 ⟨hA, ?_⟩, rfl⟩
  exact List.any_eq_true.2
    ⟨(id, h'), hB, decide_eq_true ⟨rfl, fun heq => hne heq.symm⟩⟩

-- ==== the run invariant

/-- What holds in every state of a round that began in `start` and makes
no other calls than `calls`. -/
structure Tallied (start : ConsensusState) (calls : List Call)
    (cs : ConsensusState) : Prop where
  validators : cs.validators = start.validators
  height : cs.height = start.height
  round : cs.round = start.round
  /-- a voter is tallied once, and only for a block it precommits for -/
  nodup : ∀ h, (cs.precommits.tally (some h)).voters.Nodup
  voters : ∀ h, (cs.precommits.tally (some h)).voters.toFinset ⊆ start.precommitters calls h
  power : ∀ h, (cs.precommitPower (some h)).toNat
    ≤ start.validators.held (cs.precommits.tally (some h)).voters.toFinset
  /-- a block committed since the round began has its quorum -/
  committed : cs.committed = start.committed
    ∨ ∃ h, cs.committed = some h ∧ start.validators.quorum ≤ cs.precommitPower (some h)

def ReachesQuorum (cs : ConsensusState) (h : Hash) : Prop :=
  cs.validators.quorum ≤ cs.precommitPower (some h)

instance {h : Hash} : Decidable (cs.ReachesQuorum h) :=
  inferInstanceAs (Decidable (_ ≤ _))

theorem Tallied.quorum_le_held {h : Hash} (ht : Tallied start calls cs)
    (hq : cs.ReachesQuorum h) :
    start.validators.quorum.toNat ≤ start.validators.held (start.precommitters calls h) := by
  unfold ReachesQuorum at hq
  rw [ht.validators, UInt64.le_iff_toNat_le] at hq
  exact (hq.trans (ht.power h)).trans (ValidatorSet.held_mono (ht.voters h))

theorem tally_afterVote (cs : ConsensusState) (v : Vote) (h : Hash) :
    (cs.afterVote v).precommits.tally (some h)
      = if v.kind = .precommit ∧ v.blockHash = some h then cs.counted v
        else cs.precommits.tally (some h) := by
  rw [afterVote_precommits]
  by_cases hkind : v.kind = .precommit
  · rw [if_pos hkind, tally_insert]
    by_cases hblock : v.blockHash = some h
    · rw [if_pos hblock.symm, if_pos ⟨hkind, hblock⟩]
    · rw [if_neg fun heq => hblock heq.symm, if_neg fun hc => hblock hc.2]
  · rw [if_neg hkind, if_neg fun hc => hkind hc.1]

/-- A tallied voter adds its power, as far as the word goes. -/
theorem counted_power_toNat (cs : ConsensusState) (v : Vote) :
    (cs.counted v).power.toNat
      = min (((cs.tallies v.kind).tally v.blockHash).power.toNat
          + cs.validators.powerOf v.validator) 18446744073709551615 := by
  show (saturatingAddU64 _ _).toNat = _
  rw [saturatingAddU64_toNat, UInt64.toNat_ofNat',
    Nat.mod_eq_of_lt (ValidatorSet.powerOf_lt ..)]

theorem precommitPower_afterVote_le (cs : ConsensusState) (v : Vote) (h : Hash) :
    cs.precommitPower (some h) ≤ (cs.afterVote v).precommitPower (some h) := by
  unfold precommitPower
  rw [tally_afterVote, UInt64.le_iff_toNat_le]
  by_cases hc : v.kind = .precommit ∧ v.blockHash = some h
  · rw [if_pos hc, counted_power_toNat, hc.1, hc.2]
    have hlt := (cs.precommits.tally (some h)).power.toNat_lt
    show (cs.precommits.tally (some h)).power.toNat ≤ min
      ((cs.precommits.tally (some h)).power.toNat + _) _
    omega
  · rw [if_neg hc]

theorem tallied_afterVote {v : Vote} (ht : Tallied start calls cs)
    (hmem : .vote v ∈ calls) (hcounts : cs.Counts v) :
    Tallied start calls (cs.afterVote v) := by
  obtain ⟨hvalidators, hheight, hround⟩ := cs.afterVote_frame v
  obtain ⟨hvh, hvr, -, hnew⟩ := hcounts
  refine ⟨hvalidators.trans ht.validators, hheight.trans ht.height,
    hround.trans ht.round, ?_, ?_, ?_, ?_⟩
  · intro h
    rw [tally_afterVote]
    by_cases hc : v.kind = .precommit ∧ v.blockHash = some h
    · rw [if_pos hc]
      rw [hc.1, hc.2] at hnew
      show (((cs.tallies v.kind).tally v.blockHash).voters ++ [v.validator]).Nodup
      rw [hc.1, hc.2]
      exact List.nodup_append.2 ⟨ht.nodup h, List.nodup_singleton _,
        fun a ha b hb heq => hnew (List.mem_singleton.1 hb ▸ heq ▸ ha)⟩
    · rw [if_neg hc]
      exact ht.nodup h
  · intro h id hid
    rw [tally_afterVote] at hid
    by_cases hc : v.kind = .precommit ∧ v.blockHash = some h
    · rw [if_pos hc, List.mem_toFinset] at hid
      change id ∈ ((cs.tallies v.kind).tally v.blockHash).voters ++ [v.validator] at hid
      rw [hc.1, hc.2] at hid
      rcases List.mem_append.1 hid with hold | hnew
      · exact ht.voters h (List.mem_toFinset.2 hold)
      · -- the vote itself is one of the round's calls
        rw [List.mem_singleton.1 hnew, mem_precommitters]
        refine List.mem_filterMap.2 ⟨.vote v, hmem, ?_⟩
        show (if _ then _ else _) = _
        rw [if_pos ⟨hc.1, hvh.trans ht.height, hvr.trans ht.round⟩, hc.2]
        rfl
    · rw [if_neg hc] at hid
      exact ht.voters h hid
  · intro h
    unfold precommitPower
    rw [tally_afterVote]
    by_cases hc : v.kind = .precommit ∧ v.blockHash = some h
    · rw [if_pos hc, counted_power_toNat]
      show _ ≤ start.validators.held
        (((cs.tallies v.kind).tally v.blockHash).voters ++ [v.validator]).toFinset
      rw [hc.1, hc.2] at hnew ⊢
      have hold : (cs.precommits.tally (some h)).power.toNat ≤ _ :=
        ht.power h
      show min ((cs.precommits.tally (some h)).power.toNat + _) _ ≤ _
      rw [ValidatorSet.held_append_singleton hnew, ht.validators]
      exact (Nat.min_le_left ..).trans (Nat.add_le_add_right hold _)
    · rw [if_neg hc]
      exact ht.power h
  · rcases cs.afterVote_commit v with
      ⟨h, hc, -, hcommitted⟩ | ⟨-, hcommitted, -⟩
    · refine Or.inr ⟨h, hcommitted, ?_⟩
      unfold precommitPower
      rw [tally_afterVote, if_pos ⟨hc.1, hc.2.1⟩, ← ht.validators]
      exact hc.2.2
    · rw [hcommitted]
      rcases ht.committed with hsame | ⟨h, hh, hq⟩
      · exact Or.inl hsame
      · exact Or.inr ⟨h, hh, UInt64.le_trans hq (cs.precommitPower_afterVote_le v h)⟩

theorem tallied_call {c : Call} (ht : Tallied start calls cs)
    (hmem : c ∈ calls) (hround : c ≠ .nextRound) :
    Tallied start calls (cs.call c) := by
  rcases cs.call_cases c with
    h | ⟨p, -, -, h⟩ | ⟨v, rfl, hcounts, h⟩ | ⟨hc, -⟩
  · rw [h]
    exact ht
  · rw [h]
    exact ⟨ht.validators, ht.height, ht.round, ht.nodup, ht.voters, ht.power, ht.committed⟩
  · rw [h]
    exact tallied_afterVote ht hmem hcounts
  · exact absurd hc hround

/-- The state in which a round begins: a fresh machine, or one that has
just moved to the next round after any calls. -/
def BeginsRound (cs : ConsensusState) : Prop :=
  ∃ chainId height vs, cs = new chainId height vs
    ∨ ∃ calls, cs = (run call (new chainId height vs) calls).nextRound

theorem BeginsRound.precommits_eq (h : start.BeginsRound) : start.precommits = ∅ := by
  obtain ⟨chainId, height, vs, rfl | ⟨calls, rfl⟩⟩ := h
  · rfl
  · rfl

theorem tallied_run (hbegin : start.BeginsRound)
    (hround : ∀ c ∈ calls, c ≠ .nextRound) {before : List Call} (hpre : before <+: calls) :
    Tallied start calls (run call start before) := by
  have hinit : Tallied start calls start := by
    have hempty : ∀ h, start.precommits.tally (some h) = {} := by
      intro h
      rw [hbegin.precommits_eq]
      exact tally_empty (some h)
    refine ⟨rfl, rfl, rfl, ?_, ?_, ?_, Or.inl rfl⟩
    · intro h
      rw [hempty]
      exact List.nodup_nil
    · intro h
      rw [hempty]
      exact Finset.empty_subset _
    · intro h
      unfold precommitPower
      rw [hempty]
      exact Nat.zero_le _
  refine run_invariant
    (P := fun _ c => c ∈ calls ∧ c ≠ .nextRound)
    (fun cs c ht hc => tallied_call ht hc.1 hc.2) hinit ?_
  exact along_of_forall (fun c hc _ => ⟨hpre.subset hc, hround c (hpre.subset hc)⟩) start

-- ==== safety

/-- At most one block reaches the precommit quorum in the round, and the
committed hash, once there is one, stays. -/
structure OneBlock (start : ConsensusState) (calls : List Call) : Prop where
  unique : ∀ before before' h h', before <+: calls → before' <+: calls →
    (run call start before).ReachesQuorum h →
    (run call start before').ReachesQuorum h' → h = h'
  stays : ∀ before later h, before ++ later <+: calls →
    (run call start before).committed = some h →
    (run call start (before ++ later)).committed = some h

/-- No call takes a committed hash away without putting another in its
place. -/
theorem committed_isSome_call (c : Call) (h : cs.committed.isSome) :
    (cs.call c).committed.isSome := by
  rcases cs.call_cases c with
    heq | ⟨p, -, -, heq⟩ | ⟨v, -, -, heq⟩ | ⟨-, heq⟩
  · rw [heq]
    exact h
  · rw [heq]
    exact h
  · rw [heq]
    rcases cs.afterVote_commit v with ⟨h', -, -, hc⟩ | ⟨-, hc, -⟩
    · rw [hc]
      rfl
    · rw [hc]
      exact h
  · rw [heq]
    exact h

theorem committed_isSome_run (later : List Call)
    (h : cs.committed.isSome) : (run call cs later).committed.isSome :=
  run_invariant (P := fun _ _ => True)
    (I := fun cs : ConsensusState => cs.committed.isSome)
    (fun _ c hc _ => committed_isSome_call c hc) h (along_trivial _ _)

section

variable (hbegin : start.BeginsRound) (hround : ∀ c ∈ calls, c ≠ .nextRound)

include hbegin hround

variable {before : List Call}

theorem unique_quorum (hT : start.validators.totalVotingPower.toNat < 9223372036854775808)
    (hfew : start.validators.held (start.equivocators calls)
      ≤ start.validators.totalVotingPower.toNat / 3) {before' : List Call}
    {h h' : Hash} (hpre : before <+: calls) (hpre' : before' <+: calls)
    (hq : (run call start before).ReachesQuorum h)
    (hq' : (run call start before').ReachesQuorum h') : h = h' := by
  by_contra hne
  have hover := ValidatorSet.two_quorums_overlap hT
    ((tallied_run hbegin hround hpre).quorum_le_held hq)
    ((tallied_run hbegin hround hpre').quorum_le_held hq')
  have hinter : start.validators.held (start.precommitters calls h
      ∩ start.precommitters calls h') ≤ _ :=
    ValidatorSet.held_mono (inter_subset_equivocators hne)
  omega

theorem committed_of_powerless (hT : start.validators.totalVotingPower.toNat = 0)
    (hpre : before <+: calls) :
    (run call start before).committed = start.committed := by
  have ht := tallied_run hbegin hround hpre
  rcases ht.committed with hsame | ⟨h, -, hq⟩
  · exact hsame
  · exfalso
    rw [← ht.validators] at hq
    have hheld := ht.quorum_le_held hq
    have hle := start.validators.held_le_total (start.precommitters calls h)
    rw [ValidatorSet.quorum_toNat] at hheld
    omega

/-- In a round that began with nothing committed, what is committed has
its quorum. -/
theorem reachesQuorum_of_committed (hnone : start.committed = none) {h : Hash}
    (hpre : before <+: calls) (hh : (run call start before).committed = some h) :
    (run call start before).ReachesQuorum h := by
  have ht := tallied_run hbegin hround hpre
  rcases ht.committed with hsame | ⟨h', hh', hq⟩
  · rw [hh, hnone] at hsame
    cases hsame
  · rw [hh] at hh'
    cases hh'
    unfold ReachesQuorum
    rw [ht.validators]
    exact hq

end

-- ==== the two failures

theorem call_of_dominant {v : Vote} {h : Hash} (hcounts : cs.Counts v)
    (hkind : v.kind = .precommit) (hblock : v.blockHash = some h)
    (hq : cs.validators.quorum.toNat ≤ cs.validators.powerOf v.validator) :
    (cs.call (.vote v)).ReachesQuorum h ∧ (cs.call (.vote v)).committed = some h := by
  have hlt := ValidatorSet.powerOf_lt cs.validators v.validator
  have hpower : cs.validators.quorum ≤ (cs.counted v).power := by
    rw [UInt64.le_iff_toNat_le, counted_power_toNat]
    omega
  rw [call_vote_of_counts hcounts]
  refine ⟨?_, ?_⟩
  · unfold ReachesQuorum precommitPower
    rw [(cs.afterVote_frame v).1, tally_afterVote, if_pos ⟨hkind, hblock⟩]
    exact hpower
  · rcases cs.afterVote_commit v with ⟨h', hc, -, hh'⟩ | ⟨hno, -⟩
    · rw [hh', ← hblock, hc.2.1]
    · exact absurd ⟨hkind, hblock, hpower⟩ (hno h)

end ConsensusState

def ValidatorSet.halves (total : UInt64) : ValidatorSet :=
  { validators := [⟨⟨1⟩, total / 2⟩, ⟨⟨2⟩, total - total / 2⟩]
    totalVotingPower := total
    total_eq := by
      have hhalf : (total / 2).toNat = total.toNat / 2 :=
        UInt64.toNat_div total 2
      have hle : total / 2 ≤ total := by
        rw [UInt64.le_iff_toNat_le]
        omega
      show total.toNat = (total / 2).toNat + ((total - total / 2).toNat + 0)
      rw [UInt64.toNat_sub_of_le _ _ hle]
      omega }

theorem ValidatorSet.distinctIds_halves (total : UInt64) : (halves total).DistinctIds :=
  show ([⟨1⟩, ⟨2⟩] : List ValidatorId).Nodup by decide

def splitVotes : List Call :=
  [.vote (voteBy .precommit ⟨1⟩ (some 1)),
   .vote (voteBy .precommit ⟨2⟩ (some 2))]

theorem splitVotes_inRound : ∀ c ∈ splitVotes, c ≠ .nextRound := by
  decide

open ConsensusState

variable {total : UInt64}

/-- From half the word on, the quorum is within reach of each of two
validators that share the power. -/
theorem halves_dominant (hT : 9223372036854775808 ≤ total.toNat)
    (id : ValidatorId) (hid : id = ⟨1⟩ ∨ id = ⟨2⟩) :
    (ValidatorSet.halves total).quorum.toNat ≤ (ValidatorSet.halves total).powerOf id := by
  have hlt := total.toNat_lt
  have hhalf : (total / 2).toNat = total.toNat / 2 := UInt64.toNat_div total 2
  have hsub : (total - total / 2).toNat = total.toNat - total.toNat / 2 := by
    rw [UInt64.toNat_sub_of_le, hhalf]
    rw [UInt64.le_iff_toNat_le]
    omega
  have hq : (ValidatorSet.halves total).quorum.toNat
      = 2 * total.toNat % 18446744073709551616 / 3 + 1 :=
    ValidatorSet.quorum_toNat _
  rcases hid with rfl | rfl
  · show _ ≤ (total / 2).toNat
    omega
  · show _ ≤ (total - total / 2).toNat
    omega

theorem halves_split (hT : 9223372036854775808 ≤ total.toNat) :
    ¬ (ConsensusState.new "c" 1 (ValidatorSet.halves total)).OneBlock
      splitVotes := by
  intro hone
  have hcounts : (ConsensusState.new "c" 1 (ValidatorSet.halves total)).Counts
      (voteBy .precommit ⟨1⟩ (some 1)) :=
    ⟨rfl, rfl, rfl, List.not_mem_nil⟩
  have hfirst := call_of_dominant (h := 1) hcounts rfl rfl (halves_dominant hT _ (Or.inl rfl))
  have hframe := ConsensusState.afterVote_frame
    (ConsensusState.new "c" 1 (ValidatorSet.halves total))
    (voteBy .precommit ⟨1⟩ (some 1))
  have hcounts' : ((ConsensusState.new "c" 1
      (ValidatorSet.halves total)).call (.vote (voteBy .precommit ⟨1⟩ (some 1)))).Counts
      (voteBy .precommit ⟨2⟩ (some 2)) := by
    rw [call_vote_of_counts hcounts]
    refine ⟨hframe.2.1.symm, hframe.2.2.symm, ?_, ?_⟩
    · rw [hframe.1]
      rfl
    · show _ ∉ ((ConsensusState.afterVote _ _).precommits.tally (some 2)).voters
      rw [tally_afterVote, if_neg (by decide)]
      exact List.not_mem_nil
  have hsecond := call_of_dominant (h := 2) hcounts' rfl rfl (by
    rw [call_vote_of_counts hcounts, hframe.1]
    exact halves_dominant hT _ (Or.inr rfl))
  have heq := hone.unique [.vote (voteBy .precommit ⟨1⟩ (some 1))]
    splitVotes 1 2 (List.prefix_append _ _) (List.prefix_refl _) hfirst.1 hsecond.1
  exact absurd heq (by decide)

theorem single_dominant (hT : total.toNat ≠ 0) (id : ValidatorId) :
    (ValidatorSet.single id total).quorum.toNat
      ≤ (ValidatorSet.single id total).powerOf id := by
  have hq : (ValidatorSet.single id total).quorum.toNat
      = 2 * total.toNat % 18446744073709551616 / 3 + 1 :=
    ValidatorSet.quorum_toNat _
  have hp : (ValidatorSet.single id total).powerOf id = total.toNat := by
    show ValidatorSet.firstPower [⟨id, total⟩] id = _
    rw [ValidatorSet.firstPower_cons, if_pos rfl]
  rw [hp]
  omega

theorem replaced_in_next_round (hT : total.toNat ≠ 0) (h : Hash) :
    ∃ (start : ConsensusState) (calls : List Call), start.BeginsRound
      ∧ start.validators.DistinctIds
      ∧ start.validators.totalVotingPower = total
      ∧ start.committed = some h ∧ (∀ c ∈ calls, c ≠ .nextRound)
      ∧ start.equivocators calls = ∅ ∧ ¬ start.OneBlock calls := by
  obtain ⟨h', hne⟩ : ∃ h' : Hash, h' ≠ h := by
    by_cases hz : h = 0
    · exact ⟨1, by rw [hz]; decide⟩
    · exact ⟨0, fun heq => hz heq.symm⟩
  let fresh := ConsensusState.new "c" 1 (.single ⟨1⟩ total)
  let vote : Call := .vote (voteBy .precommit ⟨1⟩ (some h))
  let vote' : Vote :=
    { voteBy .precommit ⟨1⟩ (some h') with round := 1 }
  have hcounts : fresh.Counts (voteBy .precommit ⟨1⟩ (some h)) :=
    ⟨rfl, rfl, rfl, List.not_mem_nil⟩
  have hfirst := call_of_dominant hcounts rfl rfl (single_dominant hT _)
  obtain ⟨hvalidators, hheight, hround⟩ := fresh.afterVote_frame
    (voteBy .precommit ⟨1⟩ (some h))
  rw [← call_vote_of_counts hcounts] at hvalidators hheight hround
  have hround' : (fresh.call vote).nextRound.round = 1 := by
    show saturatingAddU32 (fresh.call vote).round 1 = 1
    rw [hround]
    rfl
  have hcounts' : (fresh.call vote).nextRound.Counts vote' := by
    refine ⟨hheight.symm, hround'.symm, ?_, List.not_mem_nil⟩
    show ((fresh.call vote).validators.get _).isSome
    rw [hvalidators]
    rfl
  have hsecond := call_of_dominant hcounts' rfl rfl (by
    show (fresh.call vote).validators.quorum.toNat ≤ (fresh.call vote).validators.powerOf _
    rw [hvalidators]
    exact single_dominant hT _)
  refine ⟨(fresh.call vote).nextRound, [.vote vote'],
    ⟨"c", 1, .single ⟨1⟩ total, Or.inr ⟨[vote], rfl⟩⟩, ?_, ?_, hfirst.2, ?_,
    ?_, ?_⟩
  · show (fresh.call vote).validators.DistinctIds
    rw [hvalidators]
    exact ValidatorSet.distinctIds_single _ _
  · show (fresh.call vote).validators.totalVotingPower = total
    rw [hvalidators]
    rfl
  · intro c hc
    rw [List.mem_singleton.1 hc]
    exact nofun
  · -- one precommit does not make an equivocator
    unfold equivocators roundPrecommits
    show (List.map Prod.fst (List.filter _ (List.filterMap _ [_]))).toFinset = ∅
    rw [List.filterMap_cons_some (b := (⟨1⟩, h')) ?_]
    · simp
    · show (if _ then _ else _) = _
      rw [if_pos ⟨rfl, hheight.symm, hround'.symm⟩]
      rfl
  · intro hone
    have hstays := hone.stays [] [.vote vote'] h (List.prefix_refl _) hfirst.2
    exact hne (Option.some.inj (hsecond.2.symm.trans hstays))

-- ==== the theorem

/-- **One block per round, exactly.** For any total power and any hash
committed before the round: in every round over a validator set with
distinct ids and that total, whatever proposals and votes arrive as long
as the equivocators hold at most a third, at most one block reaches the
precommit quorum and the committed hash stays, if and only if nobody has
power, or the total is below half the word and nothing was committed
before the round began. -/
theorem one_block_iff (total : UInt64) (earlier : Option Hash) :
    (∀ (start : ConsensusState) (calls : List Call), start.BeginsRound →
      start.validators.DistinctIds →
      start.validators.totalVotingPower = total →
      start.committed = earlier → (∀ c ∈ calls, c ≠ .nextRound) →
      start.validators.held (start.equivocators calls) ≤ total.toNat / 3 →
      start.OneBlock calls)
    ↔ total.toNat = 0 ∨ total.toNat < 9223372036854775808 ∧ earlier = none := by
  constructor
  · intro hall
    apply Classical.byContradiction
    intro hno
    rw [not_or] at hno
    obtain ⟨hpos, hno⟩ := hno
    cases earlier with
    | some h =>
      obtain ⟨start, calls, hbegin, hd, htotal, hc, hround, hnobody,
        hsplit⟩ := replaced_in_next_round hpos h
      refine hsplit (hall start calls hbegin hd htotal hc hround ?_)
      rw [hnobody]
      exact Nat.zero_le _
    | none =>
      have hT : 9223372036854775808 ≤ total.toNat := by
        by_contra hlt
        exact hno ⟨by omega, rfl⟩
      exact halves_split hT (hall _ _ ⟨"c", 1, _, Or.inl rfl⟩
        (ValidatorSet.distinctIds_halves total) rfl rfl splitVotes_inRound
        (Nat.zero_le _))
  · rintro hcond start calls hbegin - rfl rfl hround hfew
    refine ⟨?_, ?_⟩
    · intro before before' h h' hpre hpre' hq hq'
      have hT : start.validators.totalVotingPower.toNat < 9223372036854775808 := by omega
      exact unique_quorum hbegin hround hT hfew hpre hpre' hq hq'
    · intro before later h hpre hh
      have hpre₀ : before <+: calls := (List.prefix_append ..).trans hpre
      rcases hcond with hzero | ⟨hT, hnone⟩
      · rw [committed_of_powerless hbegin hround hzero hpre, ← hh,
          committed_of_powerless hbegin hround hzero hpre₀]
      · have hsome : (run call start (before ++ later)).committed.isSome := by
          rw [run_append]
          exact committed_isSome_run later (by rw [hh]; rfl)
        obtain ⟨h', hh'⟩ := Option.isSome_iff_exists.1 hsome
        rw [hh', unique_quorum hbegin hround hT hfew hpre hpre₀
          (reachesQuorum_of_committed hbegin hround hnone hpre hh')
          (reachesQuorum_of_committed hbegin hround hnone hpre₀ hh)]

/-- With powers of `2^62` each, two validators that vote once commit two
blocks in the same round. -/
theorem half_word_splits :
    ¬ (∀ (start : ConsensusState) (calls : List Call), start.BeginsRound →
      start.validators.DistinctIds →
      (∀ c ∈ calls, c ≠ .nextRound) →
      start.validators.held (start.equivocators calls)
        ≤ start.validators.totalVotingPower.toNat / 3 →
      start.OneBlock calls) := by
  intro hall
  exact @halves_split 9223372036854775808 (by decide) (hall _ _
    ⟨"c", 1, _, Or.inl rfl⟩ (ValidatorSet.distinctIds_halves _)
    splitVotes_inRound (Nat.zero_le _))

end OpenStandards.Tendermint

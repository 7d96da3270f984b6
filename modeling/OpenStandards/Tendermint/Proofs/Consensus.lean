/-
One block per round, and when a commit is final.

A call either leaves the state as it was or is one of three writes; for
votes the dividing line is `Counts`. Within a round the precommit tally of a
block never holds more power than its distinct precommitters do (`Tallied`),
so two blocks with a quorum have precommitters in common that hold more than
a third of the total. Nothing ties the committed hash to the commit step of
an earlier round: `KeepsCommit` names the calls that leave a commit alone.
-/
import OpenStandards.Tendermint.Proofs.LightClient

namespace OpenStandards.Tendermint

open Lib

-- ==== tallies

theorem tally_empty (block : Option Hash) : Tallies.tally ∅ block = {} := rfl

theorem tally_insert (m : Tallies) (block block' : Option Hash) (entry : Tally) :
    Tallies.tally (m.insert block entry) block'
      = if block' = block then entry else m.tally block' := by
  unfold Tallies.tally
  rw [Table.lookup_insert_eq]
  by_cases h : block' = block
  · rw [if_pos h, if_pos h]
    rfl
  · rw [if_neg h, if_neg h]

namespace ConsensusState

variable {cs : ConsensusState} {v : Vote}

-- ==== what a vote does

def Counts (cs : ConsensusState) (v : Vote) : Prop :=
  v.height = cs.height ∧ v.round = cs.round
    ∧ (cs.validators.get v.validator).isSome
    ∧ v.validator ∉ ((cs.tallies v.kind).tally v.blockHash).voters

instance : Decidable (cs.Counts v) := inferInstanceAs (Decidable (_ ∧ _))

def counted (cs : ConsensusState) (v : Vote) : Tally :=
  { voters := ((cs.tallies v.kind).tally v.blockHash).voters ++ [v.validator]
    power := saturatingAddU64 ((cs.tallies v.kind).tally v.blockHash).power
      (.ofNat (cs.validators.powerOf v.validator)) }

def afterVote (cs : ConsensusState) (v : Vote) : ConsensusState :=
  ((cs.record v.kind v.blockHash (cs.counted v)).advance v.kind v.blockHash (cs.counted v)).1

theorem call_vote_of_counts (h : cs.Counts v) : cs.call (.vote v) = cs.afterVote v := by
  obtain ⟨hheight, hround, hknown, hnew⟩ := h
  obtain ⟨x, hx⟩ := Option.isSome_iff_exists.1 hknown
  have hpower : cs.validators.votingPowerOf v.validator
      = .ok (.ofNat (cs.validators.powerOf v.validator)) := by
    unfold ValidatorSet.votingPowerOf ValidatorSet.powerOf
    rw [hx, UInt64.ofNat_toNat]
  have hadd : ((cs.tallies v.kind).tally v.blockHash).add v.validator
      (.ofNat (cs.validators.powerOf v.validator)) = some (cs.counted v) :=
    if_neg hnew
  have hok : cs.applyVote v = .ok
      ((cs.record v.kind v.blockHash (cs.counted v)).advance v.kind
        v.blockHash (cs.counted v)) := by
    unfold applyVote
    rw [refuse_bind_eq_ok, refuse_bind_eq_ok, hpower, ok_bind, hadd]
    exact ⟨fun hne => hne hheight, fun hne => hne hround, rfl⟩
  simp only [call, hok]
  rfl

theorem call_vote_of_not_counts (h : ¬ cs.Counts v) : cs.call (.vote v) = cs := by
  cases hvote : cs.applyVote v with
  | error e =>
    simp only [call, hvote]
  | ok r =>
    exfalso
    unfold applyVote at hvote
    rw [refuse_bind_eq_ok, refuse_bind_eq_ok] at hvote
    obtain ⟨hheight, hround, hvote⟩ := hvote
    obtain ⟨power, hpower, hvote⟩ := bind_eq_ok.1 hvote
    rw [ne_eq, Decidable.not_not] at hheight hround
    refine h ⟨hheight, hround, (ValidatorSet.votingPowerOf_ok.1 hpower).1,
      ?_⟩
    intro hold
    rw [Tally.add, if_pos hold] at hvote
    cases hvote

theorem call_proposal (cs : ConsensusState) (p : Proposal) :
    cs.call (.proposal p) = cs ∨ cs.step = .propose
      ∧ cs.call (.proposal p) = { cs with proposal := some p, step := .prevote } := by
  cases hprop : cs.applyProposal p with
  | error e =>
    left
    simp only [call, hprop]
  | ok cs' =>
    right
    have hcall : cs.call (.proposal p) = cs' := by simp only [call, hprop]
    unfold applyProposal at hprop
    rw [refuse_bind_eq_ok, refuse_bind_eq_ok] at hprop
    obtain ⟨-, -, hprop⟩ := hprop
    split at hprop
    · cases hprop
    · rw [refuse_bind_eq_ok, refuse_bind_eq_ok] at hprop
      obtain ⟨-, hstep, hprop⟩ := hprop
      rw [ne_eq, Decidable.not_not] at hstep
      rw [hcall]
      exact ⟨hstep, (Except.ok.inj hprop).symm⟩

theorem call_cases (cs : ConsensusState) (c : Call) :
    cs.call c = cs
      ∨ (∃ p, c = .proposal p ∧ cs.step = .propose
        ∧ cs.call c = { cs with proposal := some p, step := .prevote })
      ∨ (∃ v, c = .vote v ∧ cs.Counts v ∧ cs.call c = cs.afterVote v)
      ∨ (c = .nextRound ∧ cs.call c = cs.nextRound) := by
  cases c with
  | proposal p =>
    rcases cs.call_proposal p with h | ⟨hstep, h⟩
    · exact Or.inl h
    · exact Or.inr (Or.inl ⟨p, rfl, hstep, h⟩)
  | vote v =>
    by_cases h : cs.Counts v
    · exact Or.inr (Or.inr (Or.inl ⟨v, rfl, h, call_vote_of_counts h⟩))
    · exact Or.inl (call_vote_of_not_counts h)
  | nextRound => exact Or.inr (Or.inr (Or.inr ⟨rfl, rfl⟩))

-- ==== the fields a vote touches

def Commits (cs : ConsensusState) (v : Vote) (h : Hash) : Prop :=
  v.kind = .precommit ∧ v.blockHash = some h ∧ cs.validators.quorum ≤ (cs.counted v).power

theorem afterVote_cases (cs : ConsensusState) (v : Vote) :
    (cs.afterVote v = cs.record v.kind v.blockHash (cs.counted v) ∧ ∀ h, ¬ cs.Commits v h)
      ∨ (v.kind = .prevote ∧ cs.step = .prevote ∧ ∃ hash,
        cs.afterVote v
          = { cs.record v.kind v.blockHash (cs.counted v) with
              lockedBlock := some hash, lockedRound := some cs.round
              step := .precommit })
      ∨ ∃ h, cs.Commits v h ∧ cs.afterVote v
          = { cs.record v.kind v.blockHash (cs.counted v) with
              step := .commit, committed := some h } := by
  unfold afterVote Commits
  cases hkind : v.kind with
  | prevote =>
    have hno : ∀ h, ¬ (VoteType.prevote = .precommit
        ∧ v.blockHash = some h
        ∧ cs.validators.quorum ≤ (cs.counted v).power) :=
      fun h hc => nomatch hc.1
    cases hblock : v.blockHash with
    | none =>
      rw [hblock] at hno
      exact Or.inl ⟨rfl, hno⟩
    | some hash =>
      rw [hblock] at hno
      by_cases hq : cs.validators.quorum ≤ (cs.counted v).power ∧ cs.step = .prevote
      · exact Or.inr (Or.inl
          ⟨rfl, hq.2, hash, congrArg Prod.fst (if_pos hq)⟩)
      · exact Or.inl ⟨congrArg Prod.fst (if_neg hq), hno⟩
  | precommit =>
    cases hblock : v.blockHash with
    | none => exact Or.inl ⟨rfl, fun h hc => nomatch hc.2.1⟩
    | some hash =>
      by_cases hq : cs.validators.quorum ≤ (cs.counted v).power
      · exact Or.inr (Or.inr
          ⟨hash, ⟨rfl, rfl, hq⟩, congrArg Prod.fst (if_pos hq)⟩)
      · exact Or.inl
          ⟨congrArg Prod.fst (if_neg hq), fun h hc => hq hc.2.2⟩

theorem afterVote_frame (cs : ConsensusState) (v : Vote) :
    (cs.afterVote v).validators = cs.validators
      ∧ (cs.afterVote v).height = cs.height
      ∧ (cs.afterVote v).round = cs.round := by
  have hrecord : ∀ entry, (cs.record v.kind v.blockHash entry).validators = cs.validators
      ∧ (cs.record v.kind v.blockHash entry).height = cs.height
      ∧ (cs.record v.kind v.blockHash entry).round = cs.round := by
    intro entry
    unfold record
    cases v.kind <;> exact ⟨rfl, rfl, rfl⟩
  rcases cs.afterVote_cases v with ⟨h, -⟩ | ⟨-, -, hash, h⟩ | ⟨_, -, h⟩ <;>
    rw [h] <;> exact hrecord (cs.counted v)

theorem afterVote_precommits (cs : ConsensusState) (v : Vote) :
    (cs.afterVote v).precommits
      = if v.kind = .precommit then
          cs.precommits.insert v.blockHash (cs.counted v)
        else cs.precommits := by
  have hrecord : ∀ entry, (cs.record v.kind v.blockHash entry).precommits
      = if v.kind = .precommit then cs.precommits.insert v.blockHash entry
        else cs.precommits := by
    intro entry
    unfold record
    cases v.kind <;> rfl
  rcases cs.afterVote_cases v with ⟨h, -⟩ | ⟨-, -, hash, h⟩ | ⟨_, -, h⟩ <;>
    rw [h] <;> exact hrecord (cs.counted v)

theorem afterVote_commit (cs : ConsensusState) (v : Vote) :
    (∃ h, cs.Commits v h ∧ (cs.afterVote v).step = .commit
        ∧ (cs.afterVote v).committed = some h)
      ∨ (∀ h, ¬ cs.Commits v h)
        ∧ (cs.afterVote v).committed = cs.committed
        ∧ (cs.step = .commit → (cs.afterVote v).step = .commit) := by
  have hrecord : ∀ entry, (cs.record v.kind v.blockHash entry).committed = cs.committed
      ∧ (cs.record v.kind v.blockHash entry).step = cs.step := by
    intro entry
    unfold record
    cases v.kind <;> exact ⟨rfl, rfl⟩
  rcases cs.afterVote_cases v with
    ⟨h, hno⟩ | ⟨hkind, hstep, hash, h⟩ | ⟨hash, hc, h⟩
  · refine Or.inr ⟨hno, ?_⟩
    rw [h, (hrecord _).1, (hrecord _).2]
    exact ⟨rfl, id⟩
  · refine Or.inr ⟨fun hash' hc => ?_, ?_, fun hcommit => ?_⟩
    · exact absurd (hkind.symm.trans hc.1) nofun
    · rw [h]
      exact (hrecord _).1
    · exact absurd (hstep.symm.trans hcommit) nofun
  · refine Or.inl ⟨hash, hc, ?_⟩
    rw [h]
    exact ⟨rfl, rfl⟩

-- ==== finality

/-- The call leaves a commit alone: it is no new round, and no counted
precommit that takes another block over the quorum. -/
def KeepsCommit (cs : ConsensusState) (c : Call) : Prop :=
  cs.step = .commit → match c with
    | .proposal _ => True
    | .vote v => cs.Counts v → ∀ h, cs.Commits v h → cs.committed = some h
    | .nextRound => False

variable {c : Call}

/-- From a committed state, a call keeps the commit exactly when it
leaves it alone. -/
theorem call_keeps_iff {h : Hash} (hstep : cs.step = .commit) (hh : cs.committed = some h) :
    ((cs.call c).step = .commit ∧ (cs.call c).committed = some h) ↔ cs.KeepsCommit c := by
  cases c with
  | proposal p =>
    refine iff_of_true ?_ fun _ => trivial
    rcases cs.call_proposal p with heq | ⟨hpropose, -⟩
    · rw [heq]
      exact ⟨hstep, hh⟩
    · exact absurd (hpropose.symm.trans hstep) nofun
  | vote v =>
    by_cases hcounts : cs.Counts v
    · rw [call_vote_of_counts hcounts]
      rcases cs.afterVote_commit v with
        ⟨h', hc, hstep', hcommitted⟩ | ⟨hno, hcommitted, hstep'⟩
      · constructor
        · rintro ⟨-, hsame⟩ - - h'' hc''
          have hblock := hc.2.1.symm.trans hc''.2.1
          rw [hh, ← hsame, hcommitted]
          exact hblock
        · intro hkeeps
          have hsame := hkeeps hstep hcounts h' hc
          rw [hh] at hsame
          exact ⟨hstep', hcommitted.trans hsame.symm⟩
      · refine iff_of_true ⟨hstep' hstep, hcommitted.trans hh⟩ ?_
        intro _ _ h' hc
        exact absurd hc (hno h')
    · rw [call_vote_of_not_counts hcounts]
      refine iff_of_true ⟨hstep, hh⟩ ?_
      intro _ hc
      exact absurd hc hcounts
  | nextRound =>
    constructor
    · intro hkept
      exact absurd hkept.1 nofun
    · intro hkeeps
      exact (hkeeps hstep).elim

def Named (cs : ConsensusState) : Prop :=
  cs.step = .commit → ∃ h, cs.committed = some h

theorem named_call (hn : cs.Named) : (cs.call c).Named := by
  rcases cs.call_cases c with
    h | ⟨p, -, -, h⟩ | ⟨v, -, -, h⟩ | ⟨-, h⟩
  · rw [h]
    exact hn
  · rw [h]
    exact nofun
  · rw [h]
    rcases cs.afterVote_cases v with ⟨ha, -⟩ | ⟨-, -, hash, ha⟩ | ⟨h', -, ha⟩
    · rw [ha]
      unfold record
      cases v.kind <;> exact hn
    · rw [ha]
      exact nofun
    · rw [ha]
      exact fun _ => ⟨h', rfl⟩
  · rw [h]
    exact nofun

/-- Once committed, committed: every later state of the run has the same
block committed and stays in the commit step. -/
def Final (cs : ConsensusState) (calls : List Call) : Prop :=
  ∀ before later h, before ++ later <+: calls →
    (run call cs before).isCommitted →
    (run call cs before).committed = some h →
    (run call cs (before ++ later)).isCommitted
      ∧ (run call cs (before ++ later)).committed = some h

theorem final_cons {calls : List Call} (hn : cs.Named) :
    cs.Final (c :: calls) ↔ cs.KeepsCommit c ∧ (cs.call c).Final calls := by
  constructor
  · intro hfinal
    refine ⟨?_, ?_⟩
    · intro hstep
      obtain ⟨h, hh⟩ := hn hstep
      have hkept := hfinal [] [c] h
        (List.prefix_cons_inj c |>.2 List.nil_prefix) (decide_eq_true hstep)
        hh
      exact (call_keeps_iff hstep hh).1
        ⟨of_decide_eq_true hkept.1, hkept.2⟩ hstep
    · intro before later h hpre
      exact hfinal (c :: before) later h (List.prefix_cons_inj c |>.2 hpre)
  · rintro ⟨hkeeps, hfinal⟩ before later h hpre hstep hh
    cases before with
    | nil =>
      cases later with
      | nil => exact ⟨hstep, hh⟩
      | cons c' later =>
        obtain ⟨rfl, hlater⟩ := List.cons_prefix_cons.1 hpre
        have hkept := (call_keeps_iff (of_decide_eq_true hstep) hh).2 hkeeps
        exact hfinal [] later h hlater (decide_eq_true hkept.1) hkept.2
    | cons c' before =>
      obtain ⟨rfl, hlater⟩ := List.cons_prefix_cons.1 hpre
      exact hfinal before later h hlater hstep hh

/-- **When commit is final for a height.** A run of proposals, votes and
new rounds keeps every commit it reaches if and only if none of its
calls, made in the commit step, opens a new round or takes another
block's precommits over the quorum. -/
theorem commit_final_iff (chainId : String) (height : UInt64)
    (vs : ValidatorSet) (calls : List Call) :
    (new chainId height vs).Final calls
      ↔ Along call KeepsCommit (new chainId height vs) calls := by
  suffices haux : ∀ cs : ConsensusState, cs.Named →
      (cs.Final calls ↔ Along call KeepsCommit cs calls) from
    haux _ nofun
  induction calls with
  | nil =>
    intro cs _
    refine iff_of_true ?_ trivial
    intro before later h hpre hstep hh
    obtain ⟨rfl, rfl⟩ := List.append_eq_nil_iff.1 (List.prefix_nil.1 hpre)
    exact ⟨hstep, hh⟩
  | cons c calls ih =>
    intro cs hn
    rw [final_cons hn, ih _ (named_call hn)]
    rfl

end ConsensusState

def voteBy (kind : VoteType) (voter : ValidatorId) (block : Option Hash) : Vote :=
  { kind, height := 1, round := 0, blockHash := block, validator := voter
    signature := 0 }

/-- A block with three of four precommits is committed, and the timeout
that fires afterwards takes the machine out of the commit step. -/
theorem new_round_uncommits :
    ¬ (ConsensusState.new "c" 1 fourValidators).Final
      [.vote (voteBy .precommit ⟨1⟩ (some 7)),
       .vote (voteBy .precommit ⟨2⟩ (some 7)),
       .vote (voteBy .precommit ⟨3⟩ (some 7)), .nextRound] := by
  intro h
  have hkept := h
    [.vote (voteBy .precommit ⟨1⟩ (some 7)),
     .vote (voteBy .precommit ⟨2⟩ (some 7)),
     .vote (voteBy .precommit ⟨3⟩ (some 7))] [.nextRound] 7
    (List.prefix_refl _) (by decide) (by decide)
  exact absurd hkept.1 (by decide)

end OpenStandards.Tendermint

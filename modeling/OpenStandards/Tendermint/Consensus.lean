/-
Validator sets and voting-power accounting (smart-byte-tendermint
`validator.rs`).

Voting power is a 64-bit word. `ValidatorSet::new` refuses a set whose
powers do not add up in it, so the cached total is the exact sum, and
the structure carries that fact. The quorum is computed from the total
with the plain operators, which wrap in a release build: the doubling
may leave the word although the total does not.
-/
import OpenStandards.Lib.Checked
import OpenStandards.Lib.Fallible
import Mathlib.Algebra.BigOperators.Group.Finset.Basic
import OpenStandards.Lib.Table

namespace OpenStandards.Tendermint

open Lib

-- ==== errors

/-- The failure modes of the adapter. -/
inductive Error where
  | unknownValidator
  | votingPowerOverflow
  | invalidVote (msg : String)
  | invalidProposal (msg : String)
  | invalidBlock (msg : String)
  | lightClient (msg : String)
  | invalidEvidence (msg : String)
  | badSignature
  | abci (msg : String)

-- ==== validators

/-- A validator's identity: a 32-byte public key. -/
structure ValidatorId where
  bytes : BitVec 256
deriving DecidableEq

structure Validator where
  id : ValidatorId
  votingPower : UInt64
deriving DecidableEq

def totalPower (vs : List Validator) : Nat :=
  (vs.map fun v => v.votingPower.toNat).sum

/-- The accumulation loop of `ValidatorSet::new`. -/
def addPowers (total : UInt64) : List Validator → Option UInt64
  | [] => some total
  | v :: vs => do addPowers (← checkedAddU64 total v.votingPower) vs

theorem addPowers_eq_some {vs : List Validator} {total r : UInt64} :
    addPowers total vs = some r ↔ r.toNat = total.toNat + totalPower vs := by
  induction vs generalizing total with
  | nil =>
    show some total = some r ↔ r.toNat = total.toNat + 0
    rw [Option.some.injEq, ← UInt64.toNat_inj, eq_comm, Nat.add_zero]
  | cons v vs ih =>
    have hsum : totalPower (v :: vs) = v.votingPower.toNat + totalPower vs := rfl
    have hr := r.toNat_lt
    show (checkedAddU64 total v.votingPower).bind (fun t => addPowers t vs) = some r ↔ _
    rw [Option.bind_eq_some_iff, hsum]
    constructor
    · intro ⟨t, ht, hrest⟩
      rw [checkedAddU64_eq_some] at ht
      rw [ih, ht] at hrest
      omega
    · intro heq
      have hfit : total.toNat + v.votingPower.toNat < 18446744073709551616 := by omega
      refine ⟨total + v.votingPower, if_pos hfit, ?_⟩
      rw [ih, UInt64.toNat_add, Nat.mod_eq_of_lt hfit]
      omega

/-- An ordered set of validators with its total voting power; the fields
of the source are private, so every value comes from `new`. -/
structure ValidatorSet where
  validators : List Validator
  totalVotingPower : UInt64
  total_eq : totalVotingPower.toNat = totalPower validators

namespace ValidatorSet

/-- Build a set; refused where the total does not fit the word. -/
def new (validators : List Validator) : Except Error ValidatorSet :=
  match h : addPowers 0 validators with
  | some total =>
    .ok { validators, totalVotingPower := total
          total_eq := (addPowers_eq_some.1 h).trans (Nat.zero_add _) }
  | none => .error .votingPowerOverflow

/-- The commit threshold, as the source computes it: the doubling
wraps. -/
def quorum (vs : ValidatorSet) : UInt64 := vs.totalVotingPower * 2 / 3 + 1

def trustThreshold (vs : ValidatorSet) : UInt64 :=
  vs.totalVotingPower / 3 + 1

def get (vs : ValidatorSet) (id : ValidatorId) : Option Validator :=
  vs.validators.find? fun v => v.id = id

def votingPowerOf (vs : ValidatorSet) (id : ValidatorId) : Except Error UInt64 :=
  match vs.get id with
  | some v => .ok v.votingPower
  | none => .error .unknownValidator

/-- The voting power of some validators together. -/
def sumPower (vs : ValidatorSet) (ids : List ValidatorId) : Except Error UInt64 :=
  ids.foldlM
    (fun sum id => do
      match checkedAddU64 sum (← vs.votingPowerOf id) with
      | some r => .ok r
      | none => .error .votingPowerOverflow)
    0

/-- The signers reach the commit threshold. -/
def hasQuorum (vs : ValidatorSet) (signers : List ValidatorId) : Bool :=
  match vs.sumPower signers with
  | .ok power => vs.quorum ≤ power
  | .error _ => false

-- ==== what is meant by power

def DistinctIds (vs : ValidatorSet) : Prop :=
  (vs.validators.map Validator.id).Nodup

def powerOf (vs : ValidatorSet) (id : ValidatorId) : Nat :=
  match vs.get id with
  | some v => v.votingPower.toNat
  | none => 0

/-- The exact power a set of ids holds together: each counts once. -/
def held (vs : ValidatorSet) (ids : Finset ValidatorId) : Nat :=
  ∑ id ∈ ids, vs.powerOf id

end ValidatorSet

/-
Headers, commits and the light client (smart-byte-tendermint `block.rs`,
`light_client.rs`).

The header hash is Blake3 over the CBOR encoding of the header, both
from outside this repository: it is a parameter, and nothing here
depends on which function it is. `trusted.header.height + 1` is the
wrapping addition of a release build.
-/

-- ==== headers and commits

/-- A 32-byte digest. -/
abbrev Hash := BitVec 256

abbrev Signature := BitVec 512

structure Header where
  chainId : String
  height : UInt64
  timeMs : I64
  lastBlockHash : Hash
  lastCommitHash : Hash
  dataHash : Hash
  validatorsHash : Hash
  nextValidatorsHash : Hash
  appHash : Hash
  proposer : ValidatorId

/-- One signed precommit of a commit. -/
structure CommitSig where
  validator : ValidatorId
  signature : Signature

/-- The precommits aggregated for a height and round. -/
structure Commit where
  height : UInt64
  round : UInt32
  blockHash : Hash
  signatures : List CommitSig

namespace Commit

def signers (c : Commit) : List ValidatorId :=
  c.signatures.map CommitSig.validator

def named (c : Commit) : Finset ValidatorId := c.signers.toFinset

end Commit

-- ==== the light client

/-- The trust state: the last trusted header and its validator set. -/
structure TrustedState where
  header : Header
  validators : ValidatorSet

def wrappingSum (ps : List UInt64) : UInt64 := ps.foldl (· + ·) 0

section

variable (hash : Header → Hash)

/-- The next header, signed by a quorum of the trusted set. -/
def verifySequential (trusted : TrustedState) (newHeader : Header)
    (commit : Commit) : Except Error Unit := do
  refuse (newHeader.height ≠ trusted.header.height + 1) (.lightClient "not sequential")
  refuse (newHeader.lastBlockHash ≠ hash trusted.header) (.lightClient "last_block_hash mismatch")
  refuse (commit.height ≠ newHeader.height) (.lightClient "commit height mismatch")
  refuse (commit.blockHash ≠ hash newHeader) (.lightClient "commit block_hash mismatch")
  refuse (¬ trusted.validators.hasQuorum commit.signers) (.lightClient "no 2/3+1 quorum")

/-- The power of the validators of the set that occur among the signers:
the filter runs over the set, so a repeated signer counts once. -/
def trustedPower (vs : ValidatorSet) (signers : List ValidatorId) : UInt64 :=
  wrappingSum ((vs.validators.filter fun v =>
    signers.any fun s => s = v.id).map Validator.votingPower)

/-- A later header, signed by a third of the trusted set and
a quorum of its own. -/
def verifySkipping (trusted : TrustedState) (newHeader : Header)
    (newValidators : ValidatorSet) (commit : Commit) :
    Except Error Unit := do
  refuse (newHeader.height ≤ trusted.header.height) (.lightClient "not forward")
  refuse (commit.height ≠ newHeader.height) (.lightClient "commit height mismatch")
  refuse (commit.blockHash ≠ hash newHeader) (.lightClient "commit block_hash mismatch")
  -- 1/3+1 of the trusted set
  refuse (trustedPower trusted.validators commit.signers
      < trusted.validators.trustThreshold) (.lightClient "trust threshold not met")
  -- 2/3+1 of the new set
  refuse (¬ newValidators.hasQuorum commit.signers) (.lightClient "new validator quorum not met")

def applySequential (trusted : TrustedState) (newHeader : Header)
    (newValidators : ValidatorSet) (commit : Commit) :
    Except Error TrustedState := do
  verifySequential hash trusted newHeader commit
  return { header := newHeader, validators := newValidators }

end

/-
The consensus state machine of one height (smart-byte-tendermint
`consensus.rs`, with the records of `vote.rs` and `proposal.rs`), and the
evidence against those who contradict themselves (`evidence.rs`).

Votes are tallied per block hash (nil included) in two hash tables that only
ever get looked up, never walked. Every refusal comes before the first
write, so a call that returns an error leaves the state as it was.
Signatures are carried but not checked by this machine.
-/

-- ==== votes and proposals

/-- The two vote phases of a round. -/
inductive VoteType where
  | prevote
  | precommit
deriving DecidableEq

/-- A signed vote; no block hash means a vote for nil. -/
structure Vote where
  kind : VoteType
  height : UInt64
  round : UInt32
  blockHash : Option Hash
  validator : ValidatorId
  signature : Signature
deriving DecidableEq

/-- A signed block proposal. -/
structure Proposal where
  height : UInt64
  round : UInt32
  blockHash : Hash
  polRound : Option UInt32
  proposer : ValidatorId
  signature : Signature
deriving DecidableEq

def ValidatorSet.proposer (vs : ValidatorSet) (height : UInt64)
    (round : UInt32) : Option Validator :=
  if vs.validators.isEmpty then none
  else vs.validators[(height + round.toUInt64).toNat
    % vs.validators.length]?

-- ==== tallies

/-- The votes for one block hash. -/
structure Tally where
  voters : List ValidatorId := []
  power : UInt64 := 0

/-- Count a voter in; nothing for one that was counted before. -/
def Tally.add (t : Tally) (voter : ValidatorId) (power : UInt64) : Option Tally :=
  if voter ∈ t.voters then none
  else some { voters := t.voters ++ [voter]
              power := saturatingAddU64 t.power power }

abbrev Tallies := Table (Option Hash) Tally

def Tallies.tally (m : Tallies) (block : Option Hash) : Tally :=
  (AList.lookup block m).getD {}

-- ==== the state machine

/-- Phases of a round. -/
inductive Step where
  | propose
  | prevote
  | precommit
  | commit
deriving DecidableEq

/-- The state machine for a single height. -/
structure ConsensusState where
  chainId : String
  height : UInt64
  round : UInt32
  step : Step
  validators : ValidatorSet
  proposal : Option Proposal
  lockedBlock : Option Hash
  lockedRound : Option UInt32
  prevotes : Tallies
  precommits : Tallies
  committed : Option Hash

namespace ConsensusState

def new (chainId : String) (height : UInt64) (validators : ValidatorSet) : ConsensusState :=
  { chainId, height, round := 0, step := .propose, validators
    proposal := none, lockedBlock := none, lockedRound := none
    prevotes := ∅, precommits := ∅, committed := none }

def applyProposal (cs : ConsensusState) (proposal : Proposal) :
    Except Error ConsensusState := do
  refuse (proposal.height ≠ cs.height) (.invalidProposal "wrong height")
  refuse (proposal.round ≠ cs.round) (.invalidProposal "wrong round")
  match cs.validators.proposer cs.height cs.round with
  | none => .error (.invalidProposal "no proposer")
  | some expected => do
    refuse (expected.id ≠ proposal.proposer) (.invalidProposal "wrong proposer")
    refuse (cs.step ≠ .propose) (.invalidProposal "step is not propose")
    return { cs with proposal := some proposal, step := .prevote }

def tallies (cs : ConsensusState) : VoteType → Tallies
  | .prevote => cs.prevotes
  | .precommit => cs.precommits

def record (cs : ConsensusState) (kind : VoteType) (block : Option Hash)
    (entry : Tally) : ConsensusState :=
  match kind with
  | .prevote => { cs with prevotes := cs.prevotes.insert block entry }
  | .precommit => { cs with precommits := cs.precommits.insert block entry }

/-- What a tally that reaches the quorum locks or commits. -/
def advance (cs : ConsensusState) (kind : VoteType) (block : Option Hash)
    (entry : Tally) : ConsensusState × Bool :=
  match kind, block with
  | .prevote, some hash =>
    if cs.validators.quorum ≤ entry.power ∧ cs.step = .prevote then
      ({ cs with lockedBlock := some hash, lockedRound := some cs.round
                 step := .precommit }, true)
    else (cs, false)
  | .precommit, some hash =>
    if cs.validators.quorum ≤ entry.power then
      ({ cs with step := .commit, committed := some hash }, true)
    else (cs, false)
  | _, none => (cs, false)

/-- Apply a prevote or a precommit; answers whether it advanced the
machine. -/
def applyVote (cs : ConsensusState) (vote : Vote) : Except Error (ConsensusState × Bool) := do
  refuse (vote.height ≠ cs.height) (.invalidVote "wrong height")
  refuse (vote.round ≠ cs.round) (.invalidVote "wrong round")
  let power ← cs.validators.votingPowerOf vote.validator
  match ((cs.tallies vote.kind).tally vote.blockHash).add vote.validator
      power with
  | none => .error (.invalidVote "duplicate vote from validator")
  | some entry =>
    return (cs.record vote.kind vote.blockHash entry).advance vote.kind vote.blockHash entry

/-- Advance to the next round; the lock and the committed hash stay. -/
def nextRound (cs : ConsensusState) : ConsensusState :=
  { cs with round := saturatingAddU32 cs.round 1, step := .propose
            proposal := none, prevotes := ∅, precommits := ∅ }

def prevotePower (cs : ConsensusState) (block : Option Hash) : UInt64 :=
  (cs.prevotes.tally block).power

def precommitPower (cs : ConsensusState) (block : Option Hash) : UInt64 :=
  (cs.precommits.tally block).power

def isCommitted (cs : ConsensusState) : Bool := cs.step = .commit

-- ==== runs

end ConsensusState

/-- One call on the state machine. -/
inductive Call where
  | proposal (p : Proposal)
  | vote (v : Vote)
  | nextRound
deriving DecidableEq

namespace ConsensusState

def call (cs : ConsensusState) : Call → ConsensusState
  | .proposal p =>
    match cs.applyProposal p with
    | .ok cs' => cs'
    | .error _ => cs
  | .vote v =>
    match cs.applyVote v with
    | .ok (cs', _) => cs'
    | .error _ => cs
  | .nextRound => cs.nextRound

end ConsensusState

-- ==== evidence

/-- Two votes of one validator that contradict each other
(`evidence.rs`). -/
structure DuplicateVoteEvidence where
  voteA : Vote
  voteB : Vote

def DuplicateVoteEvidence.verify (e : DuplicateVoteEvidence) : Except Error Unit := do
  refuse (e.voteA.validator ≠ e.voteB.validator) (.invalidEvidence "validator mismatch")
  refuse (e.voteA.height ≠ e.voteB.height) (.invalidEvidence "height mismatch")
  refuse (e.voteA.round ≠ e.voteB.round) (.invalidEvidence "round mismatch")
  refuse (e.voteA.kind ≠ e.voteB.kind) (.invalidEvidence "kind mismatch")
  refuse (e.voteA.blockHash = e.voteB.blockHash) (.invalidEvidence "votes agree")

def DuplicateVoteEvidence.offender (e : DuplicateVoteEvidence) :
    ValidatorId := e.voteA.validator

/-- Two commits for one height. -/
structure LightClientAttackEvidence where
  canonical : Commit
  conflicting : Commit

def LightClientAttackEvidence.verify (e : LightClientAttackEvidence) : Except Error Unit := do
  refuse (e.canonical.height ≠ e.conflicting.height) (.invalidEvidence "height mismatch")
  refuse (e.canonical.blockHash = e.conflicting.blockHash) (.invalidEvidence "commits agree")

/-- Who signed both commits, in the order of the conflicting one. -/
def LightClientAttackEvidence.offenders (e : LightClientAttackEvidence) : List ValidatorId :=
  e.conflicting.signers.filter fun id => id ∈ e.canonical.named

end OpenStandards.Tendermint

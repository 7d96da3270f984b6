/-
What a light client may conclude from an accepted commit.

The 1/3+1 check of the skipping path is sound. The 2/3+1 check is sound for
a signer list without repeats against a total below half the word, and
where no undercounting is possible (`CountsOnce`); for every other pair of
a signer list and a total some validator set is talked into a quorum by
validators that hold less than two thirds (`exists_undercounted`).
-/
import OpenStandards.Tendermint.Proofs.Power
import Mathlib.Tactic.NormNum
import Mathlib.Tactic.Ring

namespace OpenStandards.Tendermint

open Lib

-- ==== acceptance

section

variable {hash : Header → Hash} {trusted : TrustedState}
  {newHeader : Header} {newValidators : ValidatorSet} {commit : Commit}

theorem verifySequential_ok :
    verifySequential hash trusted newHeader commit = .ok () ↔
      newHeader.height = trusted.header.height + 1
        ∧ newHeader.lastBlockHash = hash trusted.header
        ∧ commit.height = newHeader.height
        ∧ commit.blockHash = hash newHeader
        ∧ trusted.validators.hasQuorum commit.signers = true := by
  unfold verifySequential
  simp only [refuse_bind_eq_ok, refuse_eq_ok, ne_eq, Decidable.not_not]

theorem verifySkipping_ok :
    verifySkipping hash trusted newHeader newValidators commit = .ok () ↔
      trusted.header.height < newHeader.height
        ∧ commit.height = newHeader.height
        ∧ commit.blockHash = hash newHeader
        ∧ trusted.validators.trustThreshold ≤ trustedPower trusted.validators commit.signers
        ∧ newValidators.hasQuorum commit.signers = true := by
  unfold verifySkipping
  simp only [refuse_bind_eq_ok, refuse_eq_ok, ne_eq, Decidable.not_not,
    UInt64.not_le, UInt64.not_lt]

end

-- ==== when the quorum counts once

/-- The signer list and the total leave no room for undercounting: no
signer at all, a total so small that one vote is a quorum, or no repeat
and a total whose double fits the word. -/
def CountsOnce (total : UInt64) (signers : List ValidatorId) : Prop :=
  signers = [] ∨ total.toNat ≤ 1 ∨ (total.toNat < 9223372036854775808 ∧ signers.Nodup)

namespace ValidatorSet

variable {vs : ValidatorSet}

variable {signers : List ValidatorId}

theorem held_pos (h : 0 < (signers.map vs.powerOf).sum) : 0 < vs.held signers.toFinset := by
  obtain ⟨p, hp, hpos⟩ : ∃ p ∈ signers.map vs.powerOf, p ≠ 0 := by
    apply Classical.byContradiction
    intro hno
    have hz := List.sum_eq_zero (l := signers.map vs.powerOf) fun p hp =>
      Classical.byContradiction fun hne => hno ⟨p, hp, hne⟩
    omega
  obtain ⟨id, hid, rfl⟩ := List.mem_map.1 hp
  have hle : vs.powerOf id ≤ vs.held signers.toFinset :=
    Finset.single_le_sum (fun _ _ => Nat.zero_le _) (List.mem_toFinset.2 hid)
  omega

/-- Where nothing can be undercounted, a quorum is two thirds. -/
theorem held_of_hasQuorum (hc : CountsOnce vs.totalVotingPower signers)
    (hq : vs.hasQuorum signers = true) :
    2 * vs.totalVotingPower.toNat / 3 + 1 ≤ vs.held signers.toFinset := by
  obtain ⟨-, -, hle⟩ := hasQuorum_iff.1 hq
  have hquorum := vs.quorum_toNat
  rcases hc with rfl | hsmall | ⟨htotal, hnd⟩
  · have hzero : (([] : List ValidatorId).map vs.powerOf).sum = 0 := rfl
    omega
  · have hpos := @held_pos vs signers (by omega)
    omega
  · have hsum : vs.held signers.toFinset = (signers.map vs.powerOf).sum :=
      List.sum_toFinset _ hnd
    omega

-- ==== the undercounted set

/-- All the power on two validators, one that signs and one that does
not; the other signers are known and powerless. -/
def skewedValidators (a c : ValidatorId) (p rest : UInt64)
    (signers : List ValidatorId) : List Validator :=
  ⟨a, p⟩ :: ⟨c, rest⟩ :: ((signers.filter fun id => id ≠ a).dedup.map fun id => ⟨id, 0⟩)

theorem totalPower_skewedValidators (a c : ValidatorId) (p rest : UInt64)
    (signers : List ValidatorId) :
    totalPower (skewedValidators a c p rest signers) = p.toNat + rest.toNat := by
  have hzero : ∀ l : List ValidatorId, totalPower (l.map fun id => ⟨id, 0⟩) = 0 := by
    intro l
    induction l with
    | nil => rfl
    | cons id l ih =>
      show 0 + totalPower (l.map fun id => ⟨id, 0⟩) = 0
      omega
  show p.toNat + (rest.toNat + totalPower _) = _
  rw [hzero]
  omega

def skewed (a c : ValidatorId) (total : UInt64) (p : Nat)
    (hp : p ≤ total.toNat) (signers : List ValidatorId) : ValidatorSet where
  validators := skewedValidators a c (UInt64.ofNat p) (UInt64.ofNat (total.toNat - p)) signers
  totalVotingPower := total
  total_eq := by
    have hlt := total.toNat_lt
    rw [totalPower_skewedValidators, UInt64.toNat_ofNat',
      UInt64.toNat_ofNat', Nat.mod_eq_of_lt (by omega),
      Nat.mod_eq_of_lt (by omega)]
    omega

section

variable {a c : ValidatorId} {total : UInt64} {p : Nat}
  {hp : p ≤ total.toNat} {signers : List ValidatorId}

theorem distinctIds_skewed (ha : a ∈ signers) (hc : c ∉ signers) :
    (skewed a c total p hp signers).DistinctIds := by
  have hac : a ≠ c := fun h => hc (h ▸ ha)
  show (a :: c :: (((signers.filter fun id => id ≠ a).dedup.map
    fun id => (⟨id, 0⟩ : Validator)).map Validator.id)).Nodup
  rw [List.map_map, show (Validator.id ∘ fun id => (⟨id, 0⟩ : Validator))
    = id from rfl, List.map_id, List.nodup_cons, List.nodup_cons]
  refine ⟨?_, ?_, List.nodup_dedup _⟩
  · intro hmem
    rcases List.mem_cons.1 hmem with h | hmem
    · exact hac h
    · rw [List.mem_dedup, List.mem_filter] at hmem
      exact of_decide_eq_true hmem.2 rfl
  · intro hmem
    rw [List.mem_dedup, List.mem_filter] at hmem
    exact hc hmem.1

theorem get_skewed_isSome {id : ValidatorId} (hid : id ∈ signers) :
    ((skewed a c total p hp signers).get id).isSome := by
  unfold get
  rw [List.find?_isSome]
  by_cases h : id = a
  · exact ⟨⟨a, UInt64.ofNat p⟩, List.mem_cons_self .., by simp [h]⟩
  · refine ⟨⟨id, 0⟩, ?_, by simp⟩
    refine List.mem_cons_of_mem _ (List.mem_cons_of_mem _ ?_)
    refine List.mem_map.2 ⟨id, ?_, rfl⟩
    rw [List.mem_dedup, List.mem_filter]
    exact ⟨hid, by simp [h]⟩

/-- In the skewed set only `a` has power among the signers. -/
theorem powerOf_skewed (hc : c ∉ signers) {id : ValidatorId} (hid : id ∈ signers) :
    (skewed a c total p hp signers).powerOf id = if id = a then p else 0 := by
  have hlt := total.toNat_lt
  have hidc : c ≠ id := fun h => hc (h ▸ hid)
  have hrest : ∀ l : List ValidatorId, firstPower (l.map fun id => ⟨id, 0⟩) id = 0 := by
    intro l
    induction l with
    | nil => rfl
    | cons x l ih =>
      rw [List.map_cons, firstPower_cons, ih]
      split <;> rfl
  rw [powerOf_eq]
  show firstPower (_ :: _ :: _) id = _
  rw [firstPower_cons, firstPower_cons, if_neg hidc, hrest,
    UInt64.toNat_ofNat', Nat.mod_eq_of_lt (by omega)]
  by_cases h : id = a
  · rw [if_pos h, if_pos h.symm]
  · rw [if_neg h, if_neg (Ne.symm h)]

theorem held_skewed (ha : a ∈ signers) (hc : c ∉ signers) :
    (skewed a c total p hp signers).held signers.toFinset = p := by
  unfold held
  rw [Finset.sum_congr rfl fun id hid =>
      powerOf_skewed hc (List.mem_toFinset.1 hid),
    Finset.sum_ite_eq', if_pos (List.mem_toFinset.2 ha)]

/-- The sum over the signers counts `a` as often as it is named. -/
theorem sum_powerOf_skewed (hc : c ∉ signers) :
    (signers.map (skewed a c total p hp signers).powerOf).sum = signers.count a * p := by
  rw [List.map_congr_left fun id hid => powerOf_skewed hc hid]
  have haux : ∀ l : List ValidatorId,
      (l.map fun id => if id = a then p else 0).sum = l.count a * p := by
    intro l
    induction l with
    | nil => simp
    | cons x l ih =>
      rw [List.map_cons, List.sum_cons, ih, List.count_cons]
      by_cases h : x = a
      · simp [h, Nat.add_mul, Nat.add_comm]
      · simp [h]
  exact haux signers

end

/-- A share that reaches `q` when counted `k` times, and overshoots by
less than one round. -/
theorem exists_share {q k : Nat} (hq : 1 ≤ q) (hk : 1 ≤ k) :
    ∃ p, q ≤ k * p ∧ k * p < q + k ∧ p ≤ q ∧ (2 ≤ k → 2 ≤ q → p < q) := by
  refine ⟨(q + k - 1) / k, ?_, ?_, ?_, ?_⟩
  · have hdiv := Nat.div_add_mod (q + k - 1) k
    have hmod := Nat.mod_lt (q + k - 1) (by omega : k > 0)
    omega
  · have hdiv := Nat.div_add_mod (q + k - 1) k
    omega
  · apply Nat.div_le_of_le_mul
    obtain ⟨k', rfl⟩ := Nat.exists_eq_add_of_le hk
    obtain ⟨q', rfl⟩ := Nat.exists_eq_add_of_le hq
    have hexp : (1 + k') * (1 + q') = 1 + q' + k' + k' * q' := by ring
    omega
  · intro hk₂ hq₂
    apply Nat.div_lt_of_lt_mul
    obtain ⟨k', rfl⟩ := Nat.exists_eq_add_of_le hk₂
    obtain ⟨q', rfl⟩ := Nat.exists_eq_add_of_le hq₂
    have hexp : (2 + k') * (2 + q') = 4 + 2 * q' + 2 * k' + k' * q' := by
      ring
    omega

/-- There are more ids than a commit can name. -/
theorem exists_id_not_mem (signers : List ValidatorId)
    (hlen : signers.length < 9223372036854775808) :
    ∃ c : ValidatorId, c ∉ signers := by
  apply Classical.byContradiction
  intro hno
  have hall : ∀ c : ValidatorId, c ∈ signers := fun c =>
    Classical.byContradiction fun hc => hno ⟨c, hc⟩
  -- the first `length + 1` numbers are distinct ids, all of them named
  have hnd : ((List.range (signers.length + 1)).map fun i =>
      (⟨BitVec.ofNat 256 i⟩ : ValidatorId)).Nodup := by
    refine List.Nodup.map_on ?_ List.nodup_range
    intro i hi j hj heq
    rw [List.mem_range] at hi hj
    have hnat := congrArg (fun v => v.bytes.toNat) heq
    simp only [BitVec.toNat_ofNat] at hnat
    have hbig : (9223372036854775808 : Nat) < 2 ^ 256 := by norm_num
    rw [Nat.mod_eq_of_lt (by omega), Nat.mod_eq_of_lt (by omega)] at hnat
    exact hnat
  have hle := (hnd.subperm fun c _ => hall c).length_le
  rw [List.length_map, List.length_range] at hle
  omega

/-- Where something can be undercounted, some validator set with that
total is: it sees a quorum in signers that hold less than two thirds. -/
theorem exists_undercounted {total : UInt64}
    (hlen : signers.length < 9223372036854775808) (h : ¬ CountsOnce total signers) :
    ∃ vs : ValidatorSet, vs.totalVotingPower = total ∧ vs.DistinctIds
      ∧ vs.hasQuorum signers = true
      ∧ vs.held signers.toFinset < 2 * total.toNat / 3 + 1 := by
  have hlt := total.toNat_lt
  unfold CountsOnce at h
  rw [not_or, not_or, not_and_or] at h
  obtain ⟨hne, htwo, hwhy⟩ := h
  -- the signer that gets the power: a repeated one, if there is one
  obtain ⟨a, ha, hcount⟩ : ∃ a ∈ signers,
      2 ≤ signers.count a ∨ ¬ total.toNat < 9223372036854775808 := by
    rcases hwhy with hbig | hdup
    · obtain ⟨a, ha⟩ := List.exists_mem_of_ne_nil signers hne
      exact ⟨a, ha, Or.inr hbig⟩
    · rw [List.nodup_iff_count_le_one] at hdup
      obtain ⟨a, hcount⟩ := not_forall.1 hdup
      have ha : a ∈ signers := List.count_pos_iff.1 (by omega)
      exact ⟨a, ha, Or.inl (by omega)⟩
  obtain ⟨c, hc⟩ := exists_id_not_mem signers hlen
  have hk : 1 ≤ signers.count a := List.count_pos_iff.2 ha
  have hkle : signers.count a ≤ signers.length := List.count_le_length
  obtain ⟨p, hreach, hover, hple, hplt⟩ := exists_share
    (q := 2 * total.toNat % 18446744073709551616 / 3 + 1)
    (k := signers.count a) (by omega) hk
  have hless : p < 2 * total.toNat / 3 + 1 := by
    rcases hcount with hrep | hbig
    · by_cases hsmall : total.toNat < 9223372036854775808
      · have hmod : 2 * total.toNat % 18446744073709551616
            = 2 * total.toNat := Nat.mod_eq_of_lt (by omega)
        rw [hmod] at hplt
        have hp := hplt hrep (by omega)
        omega
      · omega
    · omega
  have hptotal : p ≤ total.toNat := by omega
  refine ⟨skewed a c total p hptotal signers, rfl, distinctIds_skewed ha hc, ?_, ?_⟩
  · rw [hasQuorum_iff, sum_powerOf_skewed hc, quorum_toNat]
    refine ⟨fun id hid => get_skewed_isSome hid, by omega, hreach⟩
  · rw [held_skewed ha hc]
    exact hless

end ValidatorSet

-- ==== soundness

/-- What acceptance is meant to say about the commit's distinct
signers. -/
structure AcceptsSoundly (hash : Header → Hash) (trusted : TrustedState)
    (newHeader : Header) (newValidators : ValidatorSet) (commit : Commit) :
    Prop where
  sequential : verifySequential hash trusted newHeader commit = .ok () →
    2 * trusted.validators.totalVotingPower.toNat / 3 + 1 ≤ trusted.validators.held commit.named
  skipping :
    verifySkipping hash trusted newHeader newValidators commit = .ok () →
      trusted.validators.totalVotingPower.toNat / 3 + 1 ≤ trusted.validators.held commit.named
      ∧ 2 * newValidators.totalVotingPower.toNat / 3 + 1 ≤ newValidators.held commit.named

theorem acceptsSoundly_of_countsOnce {hash : Header → Hash}
    {trusted : TrustedState} {newHeader : Header}
    {newValidators : ValidatorSet} {commit : Commit} (hd : trusted.validators.DistinctIds)
    (hseq : CountsOnce trusted.validators.totalVotingPower commit.signers)
    (hskip : trusted.validators.totalVotingPower.toNat = 0
      ∨ CountsOnce newValidators.totalVotingPower commit.signers) :
    AcceptsSoundly hash trusted newHeader newValidators commit := by
  refine ⟨?_, ?_⟩
  · intro h
    obtain ⟨-, -, -, -, hq⟩ := verifySequential_ok.1 h
    exact ValidatorSet.held_of_hasQuorum hseq hq
  · intro h
    obtain ⟨-, -, -, htrust, hq⟩ := verifySkipping_ok.1 h
    rw [UInt64.le_iff_toNat_le, ValidatorSet.trustedPower_toNat hd,
      ValidatorSet.trustThreshold_toNat] at htrust
    refine ⟨htrust, ?_⟩
    rcases hskip with hzero | hskip
    · -- a powerless trusted set meets no trust threshold
      have hle : trusted.validators.held commit.named ≤ 0 := by
        rw [ValidatorSet.held_eq_filter hd, ← hzero, trusted.validators.total_eq]
        exact ValidatorSet.totalPower_filter_le _ _
      have hnamed : commit.named = commit.signers.toFinset := rfl
      rw [hnamed] at hle
      omega
    · exact ValidatorSet.held_of_hasQuorum hskip hq

-- ==== staged inputs

def headerAt (height : UInt64) (lastBlockHash : Hash) : Header :=
  { chainId := "smart-byte-1", height, timeMs := 0, lastBlockHash
    lastCommitHash := 0, dataHash := 0, validatorsHash := 0
    nextValidatorsHash := 0, appHash := 0, proposer := ⟨0⟩ }

def commitOf (hash : Header → Hash) (h : Header) (signers : List ValidatorId) : Commit :=
  { height := h.height, round := 0, blockHash := hash h
    signatures := signers.map fun id => ⟨id, 0⟩ }

theorem signers_commitOf (hash : Header → Hash) (h : Header) (signers : List ValidatorId) :
    (commitOf hash h signers).signers = signers := by
  show (signers.map fun id => (⟨id, 0⟩ : CommitSig)).map CommitSig.validator = signers
  rw [List.map_map]
  exact List.map_id _

def ValidatorSet.single (id : ValidatorId) (power : UInt64) : ValidatorSet :=
  { validators := [⟨id, power⟩], totalVotingPower := power
    total_eq := (Nat.add_zero _).symm }

theorem ValidatorSet.distinctIds_single (id : ValidatorId)
    (power : UInt64) : (single id power).DistinctIds :=
  List.nodup_singleton id

variable {signers : List ValidatorId}

theorem ValidatorSet.held_single {id : ValidatorId} {power : UInt64} (h : id ∈ signers) :
    (single id power).held signers.toFinset = power.toNat := by
  rw [held_eq_filter (distinctIds_single id power)]
  show totalPower (List.filter _ [_]) = _
  rw [List.filter_cons_of_pos (by simp [h])]
  rfl

/-- A set that sees a quorum in a signer list accepts a staged next
header by those signers. -/
theorem verifySequential_staged (hash : Header → Hash) {vs : ValidatorSet}
    (hq : vs.hasQuorum signers = true) :
    verifySequential hash ⟨headerAt 0 0, vs⟩
      (headerAt 1 (hash (headerAt 0 0)))
      (commitOf hash (headerAt 1 (hash (headerAt 0 0))) signers) = .ok () := by
  rw [verifySequential_ok, signers_commitOf]
  exact ⟨rfl, rfl, rfl, rfl, hq⟩

theorem verifySkipping_staged (hash : Header → Hash) {vs : ValidatorSet}
    (hq : vs.hasQuorum signers = true) {a : ValidatorId} (ha : a ∈ signers)
    {power : UInt64} (hpos : 1 ≤ power.toNat) :
    verifySkipping hash ⟨headerAt 0 0, .single a power⟩ (headerAt 1 0) vs
      (commitOf hash (headerAt 1 0) signers) = .ok () := by
  rw [verifySkipping_ok, signers_commitOf]
  refine ⟨show (0 : UInt64) < 1 by decide, rfl, rfl, ?_, hq⟩
  rw [UInt64.le_iff_toNat_le, ValidatorSet.trustThreshold_toNat,
    ValidatorSet.trustedPower_toNat (ValidatorSet.distinctIds_single _ _),
    ValidatorSet.held_single ha]
  show power.toNat / 3 + 1 ≤ power.toNat
  omega

-- ==== the theorem

/-- **Light-client soundness, exactly.** For any two totals and any
signer list (no list in memory has 2^63 elements): acceptance is sound
for every trusted state, header, new validator set and commit with these
totals and these signers if and only if the quorum over the trusted
total counts the signers once and, unless the trusted set is powerless,
so does the quorum over the new one. -/
theorem light_client_sound_iff (hash : Header → Hash) (total total' : UInt64)
    (signers : List ValidatorId) (hlen : signers.length < 9223372036854775808) :
    (∀ (trusted : TrustedState) (newHeader : Header)
        (newValidators : ValidatorSet) (commit : Commit),
      trusted.validators.totalVotingPower = total →
      newValidators.totalVotingPower = total' →
      trusted.validators.DistinctIds → newValidators.DistinctIds →
      commit.signers = signers →
      AcceptsSoundly hash trusted newHeader newValidators commit)
    ↔ CountsOnce total signers ∧ (total.toNat = 0 ∨ CountsOnce total' signers) := by
  constructor
  · intro hall
    refine ⟨?_, ?_⟩
    · apply Classical.byContradiction
      intro hc
      obtain ⟨vs, htotal, hd, hq, hless⟩ :=
        ValidatorSet.exists_undercounted hlen hc
      have hsound := (hall ⟨headerAt 0 0, vs⟩
        (headerAt 1 (hash (headerAt 0 0))) (.single ⟨0⟩ total')
        (commitOf hash (headerAt 1 (hash (headerAt 0 0))) signers)
        htotal rfl hd (ValidatorSet.distinctIds_single _ _)
        (signers_commitOf _ _ _)).sequential
        (verifySequential_staged hash hq)
      unfold Commit.named at hsound
      rw [signers_commitOf, htotal] at hsound
      exact absurd hsound (Nat.not_le_of_lt hless)
    · apply Classical.byContradiction
      intro hno
      rw [not_or] at hno
      obtain ⟨hpos, hc⟩ := hno
      obtain ⟨vs, htotal, hd, hq, hless⟩ :=
        ValidatorSet.exists_undercounted hlen hc
      obtain ⟨a, ha⟩ := List.exists_mem_of_ne_nil signers
        fun hnil => hc (Or.inl hnil)
      have hsound := ((hall ⟨headerAt 0 0, .single a total⟩ (headerAt 1 0)
        vs (commitOf hash (headerAt 1 0) signers) rfl htotal
        (ValidatorSet.distinctIds_single _ _) hd
        (signers_commitOf _ _ _)).skipping
        (verifySkipping_staged hash hq ha (by omega))).2
      unfold Commit.named at hsound
      rw [signers_commitOf, htotal] at hsound
      exact absurd hsound (Nat.not_le_of_lt hless)
  · intro ⟨hseq, hskip⟩ trusted newHeader newValidators commit htotal htotal' hd _ hsigners
    subst htotal htotal' hsigners
    exact acceptsSoundly_of_countsOnce hd hseq hskip

def fourValidators : ValidatorSet :=
  { validators := [⟨⟨1⟩, 1⟩, ⟨⟨2⟩, 1⟩, ⟨⟨3⟩, 1⟩, ⟨⟨4⟩, 1⟩]
    totalVotingPower := 4, total_eq := rfl }

/-- Against a total of four, three different signers are counted once: a
commit they sign is accepted soundly. -/
theorem light_client_sound_threeSigners :
    AcceptsSoundly (fun h => BitVec.ofNat 256 h.height.toNat)
      ⟨headerAt 0 0, fourValidators⟩ (headerAt 1 0) fourValidators
      (commitOf (fun h => BitVec.ofNat 256 h.height.toNat) (headerAt 1 0)
        [⟨1⟩, ⟨2⟩, ⟨3⟩]) :=
  (light_client_sound_iff (fun h => BitVec.ofNat 256 h.height.toNat) 4 4
    [⟨1⟩, ⟨2⟩, ⟨3⟩] (by decide)).2
    ⟨Or.inr (Or.inr (by decide)), Or.inr (Or.inr (Or.inr (by decide)))⟩
    _ _ _ _ rfl rfl (show List.Nodup _ by decide)
    (show List.Nodup _ by decide) rfl

/-- One of four validators, named three times, passes for a quorum. -/
theorem repeated_signer_accepted :
    ¬ AcceptsSoundly (fun h => BitVec.ofNat 256 h.height.toNat)
      ⟨headerAt 0 0, fourValidators⟩ (headerAt 1 0) fourValidators
      (commitOf (fun h => BitVec.ofNat 256 h.height.toNat) (headerAt 1 0)
        [⟨1⟩, ⟨1⟩, ⟨1⟩]) := by
  intro h
  have hle := h.sequential (verifySequential_ok.2 (by decide))
  revert hle
  decide

end OpenStandards.Tendermint

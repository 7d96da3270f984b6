/-
The power accounting in exact numbers.

`sum_power` runs over the signers, so in exact terms it is the sum of
the signers' powers with repeats (`sumPower_ok`); the filter of the
skipping check runs over the set, so it is the power the distinct
signers hold (`trustedPower_toNat`). On a list without repeats the two
are the same number.
-/
import OpenStandards.Tendermint.Consensus
import Mathlib.Algebra.BigOperators.Fin
import Mathlib.Algebra.Order.BigOperators.Group.Finset

namespace OpenStandards.Tendermint

open Lib

namespace ValidatorSet

variable {vs : ValidatorSet}

-- ==== the thresholds

/-- The quorum in exact numbers: the doubled total is taken modulo the
word. -/
theorem quorum_toNat (vs : ValidatorSet) :
    vs.quorum.toNat = 2 * vs.totalVotingPower.toNat % 18446744073709551616 / 3 + 1 := by
  have hlt := vs.totalVotingPower.toNat_lt
  show (vs.totalVotingPower * 2 / 3 + 1).toNat = _
  rw [UInt64.toNat_add, UInt64.toNat_div, UInt64.toNat_mul]
  show (vs.totalVotingPower.toNat * 2 % 18446744073709551616 / 3 + 1) % 18446744073709551616 = _
  rw [Nat.mul_comm]
  omega

theorem trustThreshold_toNat (vs : ValidatorSet) :
    vs.trustThreshold.toNat = vs.totalVotingPower.toNat / 3 + 1 := by
  have hlt := vs.totalVotingPower.toNat_lt
  show (vs.totalVotingPower / 3 + 1).toNat = _
  rw [UInt64.toNat_add, UInt64.toNat_div]
  show (vs.totalVotingPower.toNat / 3 + 1) % 18446744073709551616 = _
  omega

-- ==== the sum over the signers

theorem votingPowerOf_ok {id : ValidatorId} {p : UInt64} :
    vs.votingPowerOf id = .ok p ↔ (vs.get id).isSome ∧ p.toNat = vs.powerOf id := by
  unfold votingPowerOf powerOf
  cases vs.get id with
  | none => simp
  | some v => simp [← UInt64.toNat_inj, eq_comm]

/-- `sum_power` answers exactly where every id is known and the sum with
repeats fits the word, and then it answers that sum. -/
theorem sumPower_ok {ids : List ValidatorId} {p : UInt64} :
    vs.sumPower ids = .ok p ↔
      (∀ id ∈ ids, (vs.get id).isSome) ∧ p.toNat = (ids.map vs.powerOf).sum := by
  -- the step of the sum, known by what it computes
  obtain ⟨f, hsum, hf⟩ : ∃ f : UInt64 → ValidatorId → Except Error UInt64,
      (∀ ids, vs.sumPower ids = ids.foldlM f 0) ∧ ∀ sum id, f sum id
        = vs.votingPowerOf id >>= fun power =>
          (checkedAddU64 sum power).elim (.error .votingPowerOverflow) .ok := by
    refine ⟨_, fun _ => rfl, fun sum id => ?_⟩
    refine bind_congr fun power => ?_
    cases checkedAddU64 sum power <;> rfl
  suffices haux : ∀ (ids : List ValidatorId) (acc : UInt64),
      ids.foldlM f acc = .ok p ↔
        (∀ id ∈ ids, (vs.get id).isSome) ∧ p.toNat = acc.toNat + (ids.map vs.powerOf).sum by
    have h := haux ids 0
    rw [UInt64.toNat_zero, Nat.zero_add, ← hsum] at h
    exact h
  intro ids
  have hp := p.toNat_lt
  induction ids with
  | nil =>
    intro acc
    show (Except.ok acc : Except Error UInt64) = .ok p ↔ _ ∧ p.toNat = acc.toNat + 0
    rw [Except.ok.injEq, ← UInt64.toNat_inj, Nat.add_zero]
    constructor
    · intro h
      refine ⟨?_, h.symm⟩
      intro id hmem
      cases hmem
    · intro h
      exact h.2.symm
  | cons id ids ih =>
    intro acc
    have hpowers : ((id :: ids).map vs.powerOf).sum
        = vs.powerOf id + (ids.map vs.powerOf).sum := rfl
    rw [List.foldlM_cons, bind_eq_ok, hpowers]
    constructor
    · rintro ⟨acc', hstep, hrest⟩
      rw [hf] at hstep
      obtain ⟨q, hq, hadd⟩ := bind_eq_ok.1 hstep
      obtain ⟨hknown, hqp⟩ := votingPowerOf_ok.1 hq
      cases hc : checkedAddU64 acc q with
      | none =>
        rw [hc] at hadd
        cases hadd
      | some r =>
        rw [hc] at hadd
        cases hadd
        rw [checkedAddU64_eq_some] at hc
        obtain ⟨hall, hpr⟩ := (ih acc').1 hrest
        refine ⟨?_, by omega⟩
        intro id' hmem
        rcases List.mem_cons.1 hmem with rfl | hmem
        · exact hknown
        · exact hall id' hmem
    · rintro ⟨hall, hpr⟩
      have hknown := hall id List.mem_cons_self
      obtain ⟨v, hv⟩ := Option.isSome_iff_exists.1 hknown
      have hpow : vs.powerOf id = v.votingPower.toNat := by
        unfold powerOf
        rw [hv]
      have hfit : acc.toNat + v.votingPower.toNat < 18446744073709551616 := by omega
      refine ⟨acc + v.votingPower, ?_, ?_⟩
      · rw [hf, votingPowerOf_ok.2 ⟨hknown, hpow.symm⟩, ok_bind,
          show checkedAddU64 acc v.votingPower = some (acc + v.votingPower) from if_pos hfit]
        rfl
      · rw [ih, UInt64.toNat_add, Nat.mod_eq_of_lt hfit]
        refine ⟨?_, by omega⟩
        intro id' hmem
        exact hall id' (List.mem_cons_of_mem _ hmem)

theorem hasQuorum_iff {signers : List ValidatorId} :
    vs.hasQuorum signers = true ↔
      (∀ id ∈ signers, (vs.get id).isSome)
        ∧ (signers.map vs.powerOf).sum < 18446744073709551616
        ∧ vs.quorum.toNat ≤ (signers.map vs.powerOf).sum := by
  unfold hasQuorum
  constructor
  · intro h
    cases hs : vs.sumPower signers with
    | error e =>
      rw [hs] at h
      cases h
    | ok p =>
      rw [hs] at h
      have hle : vs.quorum ≤ p := of_decide_eq_true h
      obtain ⟨hall, hp⟩ := sumPower_ok.1 hs
      have hlt := p.toNat_lt
      rw [UInt64.le_iff_toNat_le] at hle
      exact ⟨hall, by omega, by omega⟩
  · intro ⟨hall, hlt, hle⟩
    have hp : (UInt64.ofNat (signers.map vs.powerOf).sum).toNat
        = (signers.map vs.powerOf).sum := by
      rw [UInt64.toNat_ofNat']
      exact Nat.mod_eq_of_lt hlt
    rw [sumPower_ok.2 ⟨hall, hp⟩]
    refine decide_eq_true ?_
    rw [UInt64.le_iff_toNat_le, hp]
    exact hle

-- ==== the filter over the set

def firstPower (l : List Validator) (id : ValidatorId) : Nat :=
  match l.find? fun v => v.id = id with
  | some v => v.votingPower.toNat
  | none => 0

theorem powerOf_eq (vs : ValidatorSet) (id : ValidatorId) :
    vs.powerOf id = firstPower vs.validators id := rfl

theorem firstPower_cons (v : Validator) (l : List Validator) (id : ValidatorId) :
    firstPower (v :: l) id = if v.id = id then v.votingPower.toNat else firstPower l id := by
  unfold firstPower
  by_cases h : v.id = id
  · rw [if_pos h, List.find?_cons_of_pos (by simp [h])]
  · rw [if_neg h, List.find?_cons_of_neg (by simp [h])]

variable {l : List Validator}

theorem firstPower_eq_zero {id : ValidatorId} (h : id ∉ l.map Validator.id) :
    firstPower l id = 0 := by
  unfold firstPower
  rw [List.find?_eq_none.2]
  intro v hv heq
  exact h (List.mem_map.2 ⟨v, hv, of_decide_eq_true heq⟩)

/-- A set of ids holds no more than all the entries together. -/
theorem sum_firstPower_le (l : List Validator) (ids : Finset ValidatorId) :
    ∑ id ∈ ids, firstPower l id ≤ totalPower l := by
  induction l with
  | nil => exact Nat.le_of_eq Finset.sum_const_zero
  | cons v l ih =>
    have hsplit : ∀ id ∈ ids, firstPower (v :: l) id
        ≤ (if v.id = id then v.votingPower.toNat else 0) + firstPower l id := by
      intro id _
      rw [firstPower_cons]
      split
      · exact Nat.le_add_right ..
      · exact Nat.le_add_left ..
    have hfirst : (if v.id ∈ ids then v.votingPower.toNat else 0) ≤ v.votingPower.toNat := by
      split
      · exact Nat.le_refl _
      · exact Nat.zero_le _
    refine (Finset.sum_le_sum hsplit).trans ?_
    rw [Finset.sum_add_distrib, Finset.sum_ite_eq]
    exact Nat.add_le_add hfirst ih

/-- With distinct ids, the power a set of ids holds is the power of the
validators whose id is in it. -/
theorem sum_firstPower (hnd : (l.map Validator.id).Nodup) (ids : Finset ValidatorId) :
    ∑ id ∈ ids, firstPower l id = totalPower (l.filter fun v => v.id ∈ ids) := by
  induction l with
  | nil => exact Finset.sum_const_zero
  | cons v l ih =>
    rw [List.map_cons, List.nodup_cons] at hnd
    -- the head's id is nobody else's, so its term can be split off
    have hsplit : ∀ id, firstPower (v :: l) id
        = (if v.id = id then v.votingPower.toNat else 0) + firstPower l id := by
      intro id
      rw [firstPower_cons]
      by_cases h : v.id = id
      · rw [if_pos h, if_pos h, ← h, firstPower_eq_zero hnd.1, Nat.add_zero]
      · rw [if_neg h, if_neg h, Nat.zero_add]
    rw [Finset.sum_congr rfl fun id _ => hsplit id,
      Finset.sum_add_distrib, Finset.sum_ite_eq, ih hnd.2,
      List.filter_cons]
    by_cases h : v.id ∈ ids
    · rw [if_pos h, if_pos (by simp [h])]
      rfl
    · rw [if_neg h, if_neg (by simp [h]), Nat.zero_add]

theorem held_eq_filter (hd : vs.DistinctIds) (ids : Finset ValidatorId) :
    vs.held ids = totalPower (vs.validators.filter fun v => v.id ∈ ids) :=
  sum_firstPower hd ids

theorem totalPower_filter_le (l : List Validator) (p : Validator → Bool) :
    totalPower (l.filter p) ≤ totalPower l := by
  exact (List.filter_sublist.map _).sum_le_sum fun _ _ => Nat.zero_le _

theorem wrappingSum_toNat (hfit : totalPower l < 18446744073709551616) :
    (wrappingSum (l.map Validator.votingPower)).toNat = totalPower l := by
  suffices haux : ∀ (l : List Validator) (acc : UInt64),
      acc.toNat + totalPower l < 18446744073709551616 →
      ((l.map Validator.votingPower).foldl (· + ·) acc).toNat = acc.toNat + totalPower l by
    have h := haux l 0 (by rw [UInt64.toNat_zero]; omega)
    rw [UInt64.toNat_zero, Nat.zero_add] at h
    exact h
  intro l
  induction l with
  | nil =>
    intro acc _
    rfl
  | cons v l ih =>
    intro acc hacc
    have hsum : totalPower (v :: l) = v.votingPower.toNat + totalPower l := rfl
    rw [hsum] at hacc
    have hv : (acc + v.votingPower).toNat = acc.toNat + v.votingPower.toNat := by
      rw [UInt64.toNat_add]
      exact Nat.mod_eq_of_lt (by omega)
    rw [List.map_cons, List.foldl_cons, ih _ (by omega), hv, hsum]
    omega

theorem trustedPower_toNat (hd : vs.DistinctIds) (signers : List ValidatorId) :
    (trustedPower vs signers).toNat = vs.held signers.toFinset := by
  have hfilter : (vs.validators.filter fun v =>
        signers.any fun s => s = v.id)
      = vs.validators.filter fun v => v.id ∈ signers.toFinset := by
    refine List.filter_congr fun v _ => ?_
    rw [Bool.eq_iff_iff]
    simp
  have hlt := vs.totalVotingPower.toNat_lt
  have hle := totalPower_filter_le vs.validators
    fun v => v.id ∈ signers.toFinset
  rw [← vs.total_eq] at hle
  unfold trustedPower
  rw [hfilter, wrappingSum_toNat (by omega), held_eq_filter hd]

-- ==== quorums by place

def powerAt (vs : ValidatorSet) (places : Finset (Fin vs.validators.length)) : Nat :=
  ∑ i ∈ places, vs.validators[i].votingPower.toNat

theorem powerAt_univ (vs : ValidatorSet) :
    vs.powerAt Finset.univ = totalPower vs.validators := by
  have hsum := Fin.sum_univ_getElem (vs.validators.map fun v => v.votingPower.toNat)
  unfold powerAt totalPower
  rw [← hsum]
  refine Fintype.sum_equiv (finCongr (List.length_map ..).symm) _ _ ?_
  intro i
  simp

/-- The thresholds are those of exact numbers, and two quorums share more
than a third of the power. -/
structure ThresholdsExact (vs : ValidatorSet) : Prop where
  quorum : vs.quorum.toNat = 2 * totalPower vs.validators / 3 + 1
  trust : vs.trustThreshold.toNat = totalPower vs.validators / 3 + 1
  overlap : ∀ places places' : Finset (Fin vs.validators.length),
    vs.quorum.toNat ≤ vs.powerAt places →
    vs.quorum.toNat ≤ vs.powerAt places' →
    totalPower vs.validators < 3 * vs.powerAt (places ∩ places')

/-- Together two quorums hold more than there is, so they share the rest. -/
theorem powerAt_inter {places places' : Finset (Fin vs.validators.length)}
    (h : 2 * totalPower vs.validators / 3 + 1 ≤ vs.powerAt places)
    (h' : 2 * totalPower vs.validators / 3 + 1 ≤ vs.powerAt places') :
    totalPower vs.validators < 3 * vs.powerAt (places ∩ places') := by
  have hsum : vs.powerAt (places ∪ places') + vs.powerAt (places ∩ places')
      = vs.powerAt places + vs.powerAt places' := Finset.sum_union_inter
  have hunion : vs.powerAt (places ∪ places') ≤ vs.powerAt Finset.univ :=
    Finset.sum_le_sum_of_subset (Finset.subset_univ _)
  rw [powerAt_univ] at hunion
  omega

theorem validators_of_new {validators : List Validator}
    (h : ValidatorSet.new validators = .ok vs) :
    vs.validators = validators := by
  unfold ValidatorSet.new at h
  split at h
  · rw [← Except.ok.inj h]
  · cases h

/-- The thresholds of an accepted set are exact, and its quorums overlap,
exactly when the doubled total fits the word. -/
theorem thresholds_exact_iff {validators : List Validator}
    (h : ValidatorSet.new validators = .ok vs) :
    vs.ThresholdsExact ↔ 2 * totalPower validators < 2 ^ 64 := by
  have hlt := vs.totalVotingPower.toNat_lt
  have htotal := vs.total_eq
  rw [← validators_of_new h]
  constructor
  · intro hexact
    have hquorum := hexact.quorum
    rw [quorum_toNat] at hquorum
    omega
  · intro hfits
    have hquorum : vs.quorum.toNat = 2 * totalPower vs.validators / 3 + 1 := by
      rw [quorum_toNat, ← htotal]
      omega
    refine { quorum := hquorum, trust := ?_, overlap := ?_ }
    · rw [trustThreshold_toNat, htotal]
    · intro places places' hp hp'
      rw [hquorum] at hp hp'
      exact powerAt_inter hp hp'

def ofPowers (powers : List UInt64) : List Validator :=
  powers.mapIdx fun i power => { id := ⟨.ofNat 256 i⟩, votingPower := power }

def fourValidators : ValidatorSet :=
  { validators := ofPowers [1, 2, 3, 4], totalVotingPower := 10
    total_eq := by decide }

theorem four_validators_exact : fourValidators.ThresholdsExact ∧ fourValidators.quorum = 7 :=
  ⟨(thresholds_exact_iff
      (show ValidatorSet.new (ofPowers [1, 2, 3, 4]) = .ok fourValidators
        from rfl)).2 (by decide), by decide⟩

def quarters : ValidatorSet :=
  { validators := ofPowers [4611686018427387904, 4611686018427387904]
    totalVotingPower := 9223372036854775808, total_eq := by decide }

/-- The set is accepted, the doubled total wraps to zero, and each of the
two validators is a quorum without the other. -/
theorem quarters_split :
    ValidatorSet.new (ofPowers [4611686018427387904, 4611686018427387904]) = .ok quarters
      ∧ quarters.quorum = 1 ∧ ¬ quarters.ThresholdsExact := by
  refine ⟨rfl, by decide, fun h => ?_⟩
  have hshared := h.overlap {⟨0, Nat.zero_lt_two⟩} {⟨1, Nat.one_lt_two⟩} (by decide) (by decide)
  exact absurd hshared (by decide)

end ValidatorSet

end OpenStandards.Tendermint

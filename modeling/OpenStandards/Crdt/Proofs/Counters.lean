/-
What a counter counts.

The contribution of a counter at a replica is read off its history
(`get_counter`): an increment adds and stops at the largest word, a merge
takes the larger. The value is the sum of the contributions in one 64-bit
word, which wraps, or panics where overflow is checked (`exact_iff`).
Histories only raise contributions, so what fits at the end has fitted in
every counter on the way (`sound_iff`).
-/
import OpenStandards.Crdt.Types
import Mathlib.Algebra.Order.BigOperators.Group.Finset

namespace OpenStandards.Crdt

open Lib

-- ==== sums over tables

/-- The sum of a table is the sum over any keys outside of which nothing
is stored. -/
theorem GCounter.sum_values_eq (c : GCounter) (keys : Finset ReplicaId)
    (h : ∀ r, r ∉ keys → c.get r = 0) :
    (Table.values c.entries).sum = ∑ r ∈ keys, c.get r := by
  have hvalues : Table.values c.entries = c.entries.keys.map c.get := by
    unfold Table.values AList.keys List.keys
    rw [List.map_map]
    refine List.map_congr_left fun e he => ?_
    have hlookup : c.entries.lookup e.1 = some e.2 := AList.mem_lookup_iff.2 he
    show e.2 = (c.entries.lookup e.1).getD 0
    rw [hlookup]
    rfl
  rw [hvalues, ← List.sum_toFinset _ c.entries.keys_nodup]
  have hout : ∀ r, r ∉ c.entries.keys.toFinset → c.get r = 0 := by
    intro r hr
    rw [List.mem_toFinset] at hr
    have hnone : c.entries.lookup r = none := AList.lookup_eq_none.2 hr
    unfold GCounter.get
    rw [hnone]
    rfl
  calc ∑ r ∈ c.entries.keys.toFinset, c.get r
      = ∑ r ∈ c.entries.keys.toFinset ∪ keys, c.get r :=
        Finset.sum_subset Finset.subset_union_left fun r _ hr => hout r hr
    _ = ∑ r ∈ keys, c.get r :=
        (Finset.sum_subset Finset.subset_union_right fun r _ hr =>
          h r hr).symm

theorem foldlM_checked (vs : List Nat) {sum : Nat} (h : sum ≤ maxU64) :
    vs.foldlM (fun sum v =>
        if sum + v ≤ maxU64 then some (sum + v) else none) sum
      = if sum + vs.sum ≤ maxU64 then some (sum + vs.sum) else none := by
  induction vs generalizing sum with
  | nil =>
    rw [List.sum_nil, Nat.add_zero, if_pos h]
    rfl
  | cons v vs ih =>
    rw [List.foldlM_cons, List.sum_cons]
    by_cases hv : sum + v ≤ maxU64
    · rw [if_pos hv]
      show vs.foldlM _ (sum + v) = _
      rw [ih hv, Nat.add_assoc]
    · rw [if_neg hv, if_neg (by omega)]
      rfl

theorem GCounter.valueChecked_eq (c : GCounter) :
    c.valueChecked = if (Table.values c.entries).sum ≤ maxU64
      then some (Table.values c.entries).sum else none := by
  unfold GCounter.valueChecked
  rw [foldlM_checked _ (Nat.zero_le _), Nat.zero_add]

theorem GCounter.get_merge (c other : GCounter) (r : ReplicaId) :
    (c.merge other).get r = max (c.get r) (other.get r) := by
  unfold GCounter.merge GCounter.get
  rw [Table.lookup_foldl_entries]
  · cases other.entries.lookup r with
    | none => exact (Nat.max_eq_left (Nat.zero_le _)).symm
    | some v =>
      dsimp only
      rw [AList.lookup_insert, Option.getD_some, Option.getD_some]
      split <;> omega
  · intro m e k hk
    exact AList.lookup_insert_ne hk
  · intro m m' e h
    dsimp only
    rw [AList.lookup_insert, AList.lookup_insert, h]

-- ==== histories

/-- The calls that lead to a grow-only counter. -/
inductive GHistory where
  | new
  | increment (h : GHistory) (r : ReplicaId) (n : UInt64)
  | merge (h other : GHistory)

namespace GHistory

def counter : GHistory → GCounter
  | new => .new
  | increment h r n => h.counter.increment r n.toNat
  | merge h other => h.counter.merge other.counter

def replicas : GHistory → Finset ReplicaId
  | new => ∅
  | increment h r _ => insert r h.replicas
  | merge h other => h.replicas ∪ other.replicas

def amount : GHistory → ReplicaId → Nat
  | new, _ => 0
  | increment h r n, r' =>
    if r' = r then h.amount r + n.toNat else h.amount r'
  | merge h other, r => max (h.amount r) (other.amount r)

/-- The contribution of a replica: what it has counted, up to the largest
word. -/
def contribution (h : GHistory) (r : ReplicaId) : Nat :=
  min (h.amount r) maxU64

/-- The mathematical sum of the contributions. -/
def total (h : GHistory) : Nat := ∑ r ∈ h.replicas, h.contribution r

def counted (h : GHistory) : Nat := ∑ r ∈ h.replicas, h.amount r

/-- The counter's value is the sum of the contributions, with overflow
checks or without. -/
def Exact (h : GHistory) : Prop :=
  h.counter.valueChecked = some h.total ∧ h.counter.value = h.total

def Sound : GHistory → Prop
  | new => new.Exact
  | increment h r n => h.Sound ∧ (increment h r n).Exact
  | merge h other => h.Sound ∧ other.Sound ∧ (merge h other).Exact
      ∧ h.counter.value ≤ (merge h other).counter.value

-- ==== contributions

variable {h : GHistory}

theorem amount_of_not_mem {r : ReplicaId} (hr : r ∉ h.replicas) : h.amount r = 0 := by
  induction h with
  | new => rfl
  | increment h r' n ih =>
    unfold replicas at hr
    rw [Finset.mem_insert, not_or] at hr
    unfold amount
    rw [if_neg hr.1]
    exact ih hr.2
  | merge h other ih ih' =>
    unfold replicas at hr
    rw [Finset.mem_union, not_or] at hr
    unfold amount
    rw [ih hr.1, ih' hr.2]
    rfl

theorem contribution_of_not_mem {r : ReplicaId} (hr : r ∉ h.replicas) :
    h.contribution r = 0 := by
  unfold contribution
  rw [amount_of_not_mem hr]
  rfl

theorem get_counter (h : GHistory) (r : ReplicaId) : h.counter.get r = h.contribution r := by
  unfold contribution
  induction h generalizing r with
  | new => rfl
  | increment h r' n ih =>
    show ((h.counter.entries.insert r' _).lookup r).getD 0 = _
    rw [Table.lookup_insert_eq]
    unfold amount
    by_cases hr : r = r'
    · rw [if_pos hr, if_pos hr, Option.getD_some, ih]
      omega
    · rw [if_neg hr, if_neg hr]
      exact ih r
  | merge h other ih ih' =>
    show (h.counter.merge other.counter).get r = min (max (h.amount r) (other.amount r)) maxU64
    rw [GCounter.get_merge, ih, ih']
    omega

theorem sum_values (h : GHistory) : (Table.values h.counter.entries).sum = h.total := by
  rw [GCounter.sum_values_eq h.counter h.replicas fun r hr => by
    rw [get_counter, contribution_of_not_mem hr]]
  exact Finset.sum_congr rfl fun r _ => get_counter h r

/-- A value is exact where the contributions fit into a word. -/
theorem exact_iff (h : GHistory) : h.Exact ↔ h.total ≤ maxU64 := by
  unfold Exact
  rw [GCounter.valueChecked_eq, sum_values]
  constructor
  · intro hexact
    by_contra hbig
    have hchecked := hexact.1
    rw [if_neg hbig] at hchecked
    cases hchecked
  · intro hfits
    refine ⟨if_pos hfits, ?_⟩
    unfold GCounter.value
    rw [sum_values]
    exact Nat.mod_eq_of_lt (Nat.lt_succ_of_le hfits)

-- ==== runs

/-- Contributions are not lowered by further calls. -/
theorem total_le {h' : GHistory} (hle : ∀ r, h.amount r ≤ h'.amount r) :
    h.total ≤ h'.total := by
  have hsub : ∀ r ∈ h.replicas ∪ h'.replicas, r ∉ h.replicas →
      h.contribution r = 0 := fun r _ hr => contribution_of_not_mem hr
  have hsub' : ∀ r ∈ h.replicas ∪ h'.replicas, r ∉ h'.replicas →
      h'.contribution r = 0 := fun r _ hr => contribution_of_not_mem hr
  unfold total
  rw [Finset.sum_subset Finset.subset_union_left hsub,
    Finset.sum_subset Finset.subset_union_right hsub']
  refine Finset.sum_le_sum fun r _ => ?_
  exact min_le_min_right _ (hle r)

theorem total_le_increment (h : GHistory) (r : ReplicaId) (n : UInt64) :
    h.total ≤ (increment h r n).total := by
  apply total_le
  intro r'
  show _ ≤ if r' = r then h.amount r + n.toNat else h.amount r'
  split
  case isTrue hr =>
    rw [hr]
    exact Nat.le_add_right ..
  case isFalse => exact le_rfl

theorem total_le_merge (h other : GHistory) :
    h.total ≤ (merge h other).total ∧ other.total ≤ (merge h other).total :=
  ⟨total_le fun _ => le_max_left .., total_le fun _ => le_max_right ..⟩

/-- A history is sound where its contributions fit into a word. -/
theorem sound_iff (h : GHistory) : h.Sound ↔ h.total ≤ maxU64 := by
  induction h with
  | new => exact exact_iff new
  | increment h r n ih =>
    show h.Sound ∧ _ ↔ _
    rw [ih, exact_iff]
    exact ⟨fun hboth => hboth.2, fun hfits =>
      ⟨(total_le_increment h r n).trans hfits, hfits⟩⟩
  | merge h other ih ih' =>
    obtain ⟨hle, hle'⟩ := total_le_merge h other
    show h.Sound ∧ other.Sound ∧ _ ∧ _ ↔ _
    rw [ih, ih', exact_iff]
    constructor
    · intro hall
      exact hall.2.2.1
    · intro hfits
      refine ⟨hle.trans hfits, hle'.trans hfits, hfits, ?_⟩
      rw [((exact_iff h).2 (hle.trans hfits)).2, ((exact_iff _).2 hfits).2]
      exact hle

/-- Where what was counted fits into a word no contribution stops short,
and the value is what was counted. -/
theorem counted_iff (h : GHistory) :
    h.counter.valueChecked = some h.counted ↔ h.counted ≤ maxU64 := by
  have hle : h.total ≤ h.counted :=
    Finset.sum_le_sum fun r _ => min_le_left _ _
  rw [GCounter.valueChecked_eq, sum_values]
  constructor
  · intro heq
    split at heq
    case isTrue hfits =>
      rw [← Option.some.inj heq]
      exact hfits
    case isFalse => cases heq
  · intro hfits
    have heq : h.total = h.counted := by
      refine Finset.sum_congr rfl fun r hr => min_eq_left ?_
      exact (Finset.single_le_sum (f := h.amount) (fun _ _ => Nat.zero_le _) hr).trans hfits
    rw [heq, if_pos hfits]

end GHistory

-- ==== signed counters

/-- The calls that lead to a signed counter. -/
inductive PnHistory where
  | new
  | increment (h : PnHistory) (r : ReplicaId) (n : UInt64)
  | decrement (h : PnHistory) (r : ReplicaId) (n : UInt64)
  | merge (h other : PnHistory)

namespace PnHistory

def counter : PnHistory → PnCounter
  | new => .new
  | increment h r n => h.counter.increment r n.toNat
  | decrement h r n => h.counter.decrement r n.toNat
  | merge h other => h.counter.merge other.counter

def positive : PnHistory → GHistory
  | new => .new
  | increment h r n => .increment h.positive r n
  | decrement h _ _ => h.positive
  | merge h other => .merge h.positive other.positive

def negative : PnHistory → GHistory
  | new => .new
  | increment h _ _ => h.negative
  | decrement h r n => .increment h.negative r n
  | merge h other => .merge h.negative other.negative

def total (h : PnHistory) : Int := (h.positive.total : Int) - h.negative.total

def Exact (h : PnHistory) : Prop :=
  h.counter.valueChecked = some h.total ∧ h.counter.value = h.total

/-- Every counter on the way has an exact value. -/
def Sound : PnHistory → Prop
  | new => new.Exact
  | increment h r n => h.Sound ∧ (increment h r n).Exact
  | decrement h r n => h.Sound ∧ (decrement h r n).Exact
  | merge h other => h.Sound ∧ other.Sound ∧ (merge h other).Exact

/-- Both sums fit into a word. -/
def Fits (h : PnHistory) : Prop :=
  h.positive.total ≤ maxU64 ∧ h.negative.total ≤ maxU64

theorem counter_parts (h : PnHistory) :
    h.counter.positive = h.positive.counter ∧ h.counter.negative = h.negative.counter := by
  induction h with
  | new => exact ⟨rfl, rfl⟩
  | increment h r n ih =>
    exact ⟨congrArg (·.increment r n.toNat) ih.1, ih.2⟩
  | decrement h r n ih =>
    exact ⟨ih.1, congrArg (·.increment r n.toNat) ih.2⟩
  | merge h other ih ih' =>
    exact ⟨congrArg₂ GCounter.merge ih.1 ih'.1,
      congrArg₂ GCounter.merge ih.2 ih'.2⟩

theorem exact_iff (h : PnHistory) : h.Exact ↔ h.Fits := by
  obtain ⟨hpos, hneg⟩ := counter_parts h
  unfold Exact Fits PnCounter.valueChecked PnCounter.value total
  rw [hpos, hneg, ← GHistory.exact_iff, ← GHistory.exact_iff]
  constructor
  · intro hexact
    obtain ⟨p, hp, hrest⟩ := Option.bind_eq_some_iff.1 hexact.1
    obtain ⟨n, hn, -⟩ := Option.bind_eq_some_iff.1 hrest
    -- the checked sums are answered only where they fit
    have hfits : ∀ {g : GHistory} {k : Nat}, g.counter.valueChecked = some k → g.Exact := by
      intro g k hk
      rw [GHistory.exact_iff]
      by_contra hbig
      rw [GCounter.valueChecked_eq, GHistory.sum_values, if_neg hbig] at hk
      cases hk
    exact ⟨hfits hp, hfits hn⟩
  · intro ⟨hp, hn⟩
    rw [hp.1, hn.1, hp.2, hn.2]
    exact ⟨rfl, rfl⟩

theorem sound_iff (h : PnHistory) : h.Sound ↔ h.Fits := by
  induction h with
  | new => exact exact_iff new
  | increment h r n ih =>
    show h.Sound ∧ _ ↔ _
    rw [ih, exact_iff]
    exact ⟨fun hboth => hboth.2, fun hfits =>
      ⟨⟨(GHistory.total_le_increment _ r n).trans hfits.1, hfits.2⟩, hfits⟩⟩
  | decrement h r n ih =>
    show h.Sound ∧ _ ↔ _
    rw [ih, exact_iff]
    exact ⟨fun hboth => hboth.2, fun hfits =>
      ⟨⟨hfits.1, (GHistory.total_le_increment _ r n).trans hfits.2⟩, hfits⟩⟩
  | merge h other ih ih' =>
    obtain ⟨hp, hp'⟩ := GHistory.total_le_merge h.positive other.positive
    obtain ⟨hn, hn'⟩ := GHistory.total_le_merge h.negative other.negative
    show h.Sound ∧ other.Sound ∧ _ ↔ _
    rw [ih, ih', exact_iff]
    exact ⟨fun hall => hall.2.2, fun hfits =>
      ⟨⟨hp.trans hfits.1, hn.trans hfits.2⟩,
        ⟨hp'.trans hfits.1, hn'.trans hfits.2⟩, hfits⟩⟩

end PnHistory

/-- **When counters are exact.** Along every history of increments and
merges each value is the mathematical sum of the contributions, without
wrapping or panic, and no merge decreases one, if and only if the
contributions at the end fit into a word; it is also the sum of all that
was counted if and only if that fits. For a signed counter both sums have
to fit. -/
theorem counters_exact_iff (h : GHistory) (p : PnHistory) :
    (h.Sound ↔ h.total ≤ maxU64)
      ∧ (h.counter.valueChecked = some h.counted ↔ h.counted ≤ maxU64)
      ∧ (p.Sound ↔ p.Fits) :=
  ⟨h.sound_iff, h.counted_iff, p.sound_iff⟩

/-- One replica counts to the largest word, a second one counts one
more. -/
def twoReplicas : GHistory :=
  .increment (.increment .new ⟨1⟩ 18446744073709551615) ⟨2⟩ 1

/-- The sum of two replicas wraps to nothing, or panics. -/
theorem two_replicas_wrap :
    twoReplicas.counter.value = 0 ∧ twoReplicas.counter.valueChecked = none
      ∧ twoReplicas.total = 18446744073709551616
      ∧ ¬ twoReplicas.Sound := by
  have hchecked : twoReplicas.counter.valueChecked = none := by
    decide +kernel
  refine ⟨by decide +kernel, hchecked, by decide +kernel, fun h => ?_⟩
  have hexact := h.2.1
  change twoReplicas.counter.valueChecked = _ at hexact
  rw [hchecked] at hexact
  cases hexact

end OpenStandards.Crdt

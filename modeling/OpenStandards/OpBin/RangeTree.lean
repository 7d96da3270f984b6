/-
Ranges of card prefixes (op-bin `range_tree.rs`, `bin.rs`).

The ranges are kept sorted, and a new one is compared with the two that it
would stand between. That no range overlaps another makes these two enough
(`insert_cases`), so after every run of insertions the tree holds exactly
the ranges that were accepted, in order, and a search finds what a scan of
them would (`rangeTree_exact`).
-/
import OpenStandards.Lib.Select
import OpenStandards.Lib.Fallible
import Mathlib.Data.List.Sort

namespace OpenStandards.OpBin

open Lib

-- ==== ranges

inductive CardNetwork where
  | visa | mastercard | amex | discover | jcb | dinersClub | unionPay
  | ruPay | maestro | elo | mir | troy | unknown

inductive CardType where
  | credit | debit | prepaid | charge | unknown

inductive Error where
  | invalidRange (low high : UInt32)

/-- A bank's identification number, in its 8-digit prefix form. -/
structure Bin where
  prefix8 : UInt32
  length : UInt8

/-- A half-open interval of prefixes, which is not empty. -/
structure BinRange where
  low : UInt32
  high : UInt32
  network : CardNetwork
  cardType : CardType
  country : Option (UInt8 × UInt8)
  durbinRegulated : Bool
  low_lt : low.toNat < high.toNat

namespace BinRange

/-- Build a half-open prefix interval, validating ordering. -/
def new (low high : UInt32) (network : CardNetwork) (cardType : CardType)
    (country : Option (UInt8 × UInt8)) (durbinRegulated : Bool) :
    Except Error BinRange :=
  if h : low.toNat < high.toNat then
    .ok { low, high, network, cardType, country, durbinRegulated, low_lt := h }
  else .error (.invalidRange low high)

theorem new_self (r : BinRange) :
    new r.low r.high r.network r.cardType r.country r.durbinRegulated = .ok r :=
  dif_pos r.low_lt

/-- What the constructor accepts are the values of the structure. -/
theorem new_isOk_iff (low high : UInt32) (network : CardNetwork) (cardType : CardType)
    (country : Option (UInt8 × UInt8)) (durbinRegulated : Bool) :
    (∃ r, new low high network cardType country durbinRegulated = .ok r)
      ↔ low.toNat < high.toNat := by
  unfold new
  split
  · next h => exact ⟨fun _ => h, fun _ => ⟨_, rfl⟩⟩
  · next h => exact ⟨nofun, fun h' => absurd h' h⟩

/-- Whether a prefix falls within this half-open interval. -/
def contains (r : BinRange) (bin : Bin) : Bool :=
  decide (r.low.toNat ≤ bin.prefix8.toNat) && decide (bin.prefix8.toNat < r.high.toNat)

/-- Some prefix falls within both. -/
def Overlaps (r s : BinRange) : Prop :=
  r.low.toNat < s.high.toNat ∧ s.low.toNat < r.high.toNat

def Before (r s : BinRange) : Prop := r.high.toNat ≤ s.low.toNat

variable {r s : BinRange}

theorem contains_iff {bin : Bin} :
    r.contains bin = true ↔ r.low.toNat ≤ bin.prefix8.toNat
      ∧ bin.prefix8.toNat < r.high.toNat := by
  unfold contains
  rw [Bool.and_eq_true, decide_eq_true_iff, decide_eq_true_iff]

theorem not_overlaps_iff : ¬ r.Overlaps s ↔ r.Before s ∨ s.Before r := by
  unfold Overlaps Before
  omega

theorem Before.asymm (h : r.Before s) : ¬ s.Before r := by
  have := r.low_lt
  have := s.low_lt
  unfold Before at *
  omega

/-- Only one of two ranges in order contains a prefix. -/
theorem Before.not_both (h : r.Before s) {bin : Bin}
    (hr : r.contains bin = true) : s.contains bin = false := by
  rw [← Bool.not_eq_true, contains_iff]
  rw [contains_iff] at hr
  unfold Before at h
  omega

end BinRange

-- ==== trees

/-- Ranges, meant to be sorted and disjoint. -/
structure RangeTree where
  ranges : List BinRange

namespace RangeTree

def empty : RangeTree := ⟨[]⟩

def search (t : RangeTree) (low : UInt32) : Except Nat Nat :=
  binarySearchBy (fun probe => compare probe.low.toNat low.toNat) t.ranges

/-- Insert a range between its neighbours, unless it overlaps one. -/
def insert (t : RangeTree) (r : BinRange) : Except Error Unit × RangeTree :=
  let pos := match t.search r.low with
    | .ok i => i
    | .error i => i
  let refused := (.error (.invalidRange r.low r.high), t)
  if 0 < pos ∧ (t.ranges[pos - 1]?).any
      fun prev => r.low.toNat < prev.high.toNat then
    refused
  else if (t.ranges[pos]?).any fun next => next.low.toNat < r.high.toNat then
    refused
  else (.ok (), ⟨t.ranges.take pos ++ r :: t.ranges.drop pos⟩)

def tryInsert (t : RangeTree) (r : BinRange) : Except Error RangeTree :=
  match t.insert r with
  | (.ok (), t') => .ok t'
  | (.error e, _) => .error e

def fromRanges (rs : List BinRange) : Except Error RangeTree :=
  rs.foldlM tryInsert empty

/-- The range that contains a prefix: it can only be the last one that does
not start after it. -/
def lookup (t : RangeTree) (bin : Bin) : Option BinRange :=
  let candidate (idx : Nat) : Option BinRange :=
    (t.ranges[idx]?).filter fun r => r.contains bin
  match t.search bin.prefix8 with
  | .ok i => candidate i
  | .error 0 => none
  | .error (i + 1) => candidate i

def Ordered (t : RangeTree) : Prop := t.ranges.Pairwise BinRange.Before

/-- The tree after a sequence of calls of `insert`. -/
def insertAll (t : RangeTree) (rs : List BinRange) : RangeTree :=
  rs.foldl (fun t r => (t.insert r).2) t

/-- Those ranges of a sequence of calls that were not refused. -/
def accepted (t : RangeTree) : List BinRange → List BinRange
  | [] => []
  | r :: rs =>
    match t.insert r with
    | (.ok (), t') => r :: accepted t' rs
    | (.error _, t') => accepted t' rs

variable {t : RangeTree} {r : BinRange} {bin : Bin} {rs : List BinRange}

theorem Ordered.sorted (h : t.Ordered) :
    t.ranges.Pairwise fun a b => a.low.toNat < b.low.toNat :=
  h.imp fun {a _} hab => Nat.lt_of_lt_of_le a.low_lt hab

theorem exists_split (h : t.Ordered) (low : UInt32) :
    ∃ pre post, t.ranges = pre ++ post
      ∧ (∀ s ∈ pre, s.low.toNat < low.toNat)
      ∧ (∀ s ∈ post, low.toNat ≤ s.low.toNat)
      ∧ ((∃ x rest, post = x :: rest ∧ x.low.toNat = low.toNat ∧ t.search low = .ok pre.length)
        ∨ (∀ s ∈ post, low.toNat < s.low.toNat) ∧ t.search low = .error pre.length) := by
  cases hsearch : t.search low with
  | ok i =>
    obtain ⟨pre, x, post, hranges, rfl, hx⟩ := binarySearchBy_found hsearch
    have hsorted := h.sorted
    rw [hranges, List.pairwise_append, List.pairwise_cons] at hsorted
    refine ⟨pre, x :: post, hranges, fun s hs => ?_, fun s hs => ?_,
      Or.inl ⟨x, post, rfl, hx, rfl⟩⟩
    · rw [← hx]
      exact hsorted.2.2 s hs x List.mem_cons_self
    · rcases List.mem_cons.1 hs with rfl | hs
      · exact Nat.le_of_eq hx.symm
      · rw [← hx]
        exact Nat.le_of_lt (hsorted.2.1.1 s hs)
  | error i =>
    obtain ⟨pre, post, hranges, rfl, hpre, hpost⟩ :=
      binarySearchBy_missing h.sorted hsearch
    exact ⟨pre, post, hranges, hpre, fun s hs => Nat.le_of_lt (hpost s hs), Or.inr ⟨hpost, rfl⟩⟩

/-- What an insertion does: the range is put where all others are out of
its way, or overlaps one and is refused. -/
theorem insert_cases (h : t.Ordered) (r : BinRange) :
    (∃ pre post, t.ranges = pre ++ post
        ∧ t.insert r = (.ok (), ⟨pre ++ r :: post⟩)
        ∧ (∀ s ∈ pre, s.Before r) ∧ ∀ s ∈ post, r.Before s)
      ∨ t.insert r = (.error (.invalidRange r.low r.high), t)
        ∧ ∃ s ∈ t.ranges, s.Overlaps r := by
  obtain ⟨pre, post, hranges, hpre, hpost, hsearch⟩ := exists_split h r.low
  have hpos : (match t.search r.low with | .ok i => i | .error i => i) = pre.length := by
    rcases hsearch with ⟨_, _, _, _, hok⟩ | ⟨_, herr⟩
    · rw [hok]
    · rw [herr]
  have hlow := r.low_lt
  unfold Ordered at h
  rw [hranges, List.pairwise_append] at h
  unfold insert
  rw [hpos, hranges]
  dsimp only
  rw [List.take_left, List.drop_left]
  split
  case isTrue hbad =>
    obtain ⟨prev, hprev, hover⟩ := (Option.any_eq_true _ _).1 hbad.2
    rw [List.getElem?_append_left (by omega)] at hprev
    have hmem := List.mem_of_getElem? hprev
    refine Or.inr ⟨rfl, prev, List.mem_append_left _ hmem, ?_⟩
    exact ⟨(hpre prev hmem).trans hlow, of_decide_eq_true hover⟩
  case isFalse hprev =>
    rw [List.getElem?_append_right (Nat.le_refl _), Nat.sub_self]
    split
    case isTrue hbad =>
      obtain ⟨next, hnext, hover⟩ := (Option.any_eq_true _ _).1 hbad
      have hmem := List.mem_of_getElem? hnext
      refine Or.inr ⟨rfl, next, List.mem_append_right _ hmem, ?_⟩
      exact ⟨of_decide_eq_true hover, Nat.lt_of_le_of_lt (hpost next hmem) next.low_lt⟩
    case isFalse hnext =>
      refine Or.inl ⟨pre, post, rfl, rfl, fun s hs => ?_, fun s hs => ?_⟩
      · -- the last one before ends in time, the others before it begins
        obtain rfl | ⟨init, prev, rfl⟩ := List.eq_nil_or_concat pre
        · cases hs
        · have hle : prev.high.toNat ≤ r.low.toNat := by
            simpa using hprev
          rw [List.concat_eq_append] at hs h
          rcases List.mem_append.1 hs with hs | hs
          · have hbefore := (List.pairwise_append.1 h.1).2.2 s hs prev
              (List.mem_singleton_self _)
            exact hbefore.trans (prev.low_lt.le.trans hle)
          · rw [List.mem_singleton.1 hs]
            exact hle
      · cases post with
        | nil => cases hs
        | cons next post =>
          have hle : r.high.toNat ≤ next.low.toNat := by
            simpa using hnext
          rcases List.mem_cons.1 hs with rfl | hs
          · exact hle
          · have hafter := (List.pairwise_cons.1 h.2.1).1 s hs
            exact hle.trans (next.low_lt.le.trans hafter)

/-- Only what was inserted is there, in order. -/
theorem insert_ok {t' : RangeTree} (h : t.Ordered) (hok : t.insert r = (.ok (), t')) :
    t'.Ordered ∧ t'.ranges.Perm (r :: t.ranges) := by
  rcases insert_cases h r with
    ⟨pre, post, hranges, hins, hpre, hpost⟩ | ⟨herr, -⟩
  · rw [hins, Prod.mk.injEq] at hok
    obtain ⟨-, rfl⟩ := hok
    unfold Ordered at h ⊢
    rw [hranges] at h ⊢
    rw [List.pairwise_append] at h
    refine ⟨?_, List.perm_middle⟩
    refine List.pairwise_append.2
      ⟨h.1, List.pairwise_cons.2 ⟨hpost, h.2.1⟩, fun a ha b hb => ?_⟩
    rcases List.mem_cons.1 hb with rfl | hb
    · exact hpre a ha
    · exact h.2.2 a ha b hb
  · rw [herr] at hok
    cases hok

/-- A range is refused if and only if it overlaps one of the tree, which
stays as it is. -/
theorem insert_error_iff (h : t.Ordered) (r : BinRange) :
    ((∃ e, (t.insert r).1 = .error e) ↔ ∃ s ∈ t.ranges, s.Overlaps r)
      ∧ ∀ e, (t.insert r).1 = .error e → (t.insert r).2 = t := by
  rcases insert_cases h r with
    ⟨pre, post, hranges, hins, hpre, hpost⟩ | ⟨herr, hover⟩
  · rw [hins]
    refine ⟨iff_of_false nofun ?_, nofun⟩
    rintro ⟨s, hs, hover⟩
    rw [hranges] at hs
    rcases List.mem_append.1 hs with hs | hs
    · exact BinRange.not_overlaps_iff.2 (Or.inl (hpre s hs)) hover
    · exact BinRange.not_overlaps_iff.2 (Or.inr (hpost s hs)) hover
  · rw [herr]
    exact ⟨iff_of_true ⟨_, rfl⟩ hover, fun _ _ => rfl⟩

theorem insertAll_spec (h : t.Ordered) (rs : List BinRange) :
    (t.insertAll rs).Ordered ∧ (t.insertAll rs).ranges.Perm (t.accepted rs ++ t.ranges) := by
  induction rs generalizing t with
  | nil => exact ⟨h, List.Perm.refl _⟩
  | cons r rs ih =>
    unfold accepted
    show (insertAll (t.insert r).2 rs).Ordered ∧ (insertAll (t.insert r).2 rs).ranges.Perm _
    split
    case h_1 t' hins =>
      obtain ⟨hordered, hperm⟩ := insert_ok h hins
      obtain ⟨hrun, hrunPerm⟩ := ih hordered
      rw [hins]
      refine ⟨hrun, hrunPerm.trans ?_⟩
      exact (hperm.append_left _).trans List.perm_middle
    case h_2 e t' hins =>
      have hsame := (insert_error_iff h r).2 e (by rw [hins])
      rw [hins] at hsame ⊢
      rw [show t' = t from hsame]
      exact ih h

theorem Ordered.eq_of_contains (h : t.Ordered) {s : BinRange}
    (hr : r ∈ t.ranges) (hs : s ∈ t.ranges) (hrin : r.contains bin = true)
    (hsin : s.contains bin = true) : r = s := by
  have hone : ∀ {a b : BinRange}, a.Before b → a.contains bin = true →
      b.contains bin = true → a = b := by
    intro a b hbefore ha hb
    rw [hbefore.not_both ha] at hb
    cases hb
  exact List.Pairwise.forall_of_forall_of_flip
    (R := fun a b => a.contains bin = true → b.contains bin = true → a = b)
    (fun a _ _ _ => rfl) (h.imp hone)
    (h.imp fun hbefore hb ha => (hone hbefore ha hb).symm) hr hs hrin hsin

theorem lookup_mem (h : t.lookup bin = some r) : r ∈ t.ranges ∧ r.contains bin = true := by
  have hcandidate : ∀ {i : Nat}, (t.ranges[i]?).filter
      (fun r => r.contains bin) = some r →
      r ∈ t.ranges ∧ r.contains bin = true := by
    intro i hi
    obtain ⟨hget, hin⟩ := Option.filter_eq_some_iff.1 hi
    exact ⟨List.mem_of_getElem? hget, hin⟩
  unfold lookup at h
  dsimp only at h
  split at h
  case h_1 => exact hcandidate h
  case h_2 => cases h
  case h_3 => exact hcandidate h

/-- A range that contains the prefix is not missed. -/
theorem lookup_isSome (h : t.Ordered) (hr : r ∈ t.ranges)
    (hin : r.contains bin = true) : (t.lookup bin).isSome := by
  obtain ⟨pre, post, hranges, hpre, hpost, hsearch⟩ :=
    exists_split h bin.prefix8
  rw [BinRange.contains_iff] at hin
  unfold lookup
  rcases hsearch with ⟨x, rest, rfl, hx, hok⟩ | ⟨hlater, herr⟩
  · have hxin : x.contains bin = true :=
      BinRange.contains_iff.2 ⟨hx.le, hx.symm.trans_lt x.low_lt⟩
    rw [hok, hranges]
    simp [hxin]
  · rw [hranges] at hr
    have hpost : r ∉ post := fun hmem =>
      absurd (hlater r hmem) (Nat.not_lt.2 hin.1)
    have hrpre := (List.mem_append.1 hr).resolve_right hpost
    obtain rfl | ⟨init, last, rfl⟩ := List.eq_nil_or_concat pre
    · cases hrpre
    · rw [List.concat_eq_append] at hrpre hranges
      have hlast : r = last := by
        rcases List.mem_append.1 hrpre with hmem | hmem
        · -- an earlier one ends before the last one begins
          unfold Ordered at h
          rw [hranges, List.pairwise_append] at h
          have hbefore := (List.pairwise_append.1 h.1).2.2 r hmem last
            (List.mem_singleton_self _)
          have hlow := hpre last (by simp)
          exact absurd (hin.2.trans_le hbefore) (Nat.not_lt.2 hlow.le)
        · exact List.mem_singleton.1 hmem
      have hlastin : last.contains bin = true := by
        rw [← hlast, BinRange.contains_iff]
        exact hin
      rw [herr, hranges, List.length_concat]
      simp [hlastin]

/-- A search finds the range that contains the prefix. -/
theorem lookup_eq_some (h : t.Ordered) :
    t.lookup bin = some r ↔ r ∈ t.ranges ∧ r.contains bin = true := by
  constructor
  · exact lookup_mem
  · rintro ⟨hr, hin⟩
    obtain ⟨s, hs⟩ := Option.isSome_iff_exists.1 (lookup_isSome h hr hin)
    obtain ⟨hsmem, hsin⟩ := lookup_mem hs
    rw [hs, h.eq_of_contains hsmem hr hsin hin]

/-- A search and a scan of the same ranges, in whatever order, agree. -/
theorem lookup_eq_find? (h : t.Ordered) (hperm : t.ranges.Perm rs) (bin : Bin) :
    t.lookup bin = rs.find? fun r => r.contains bin := by
  cases hfind : rs.find? fun r => r.contains bin with
  | some r =>
    have hin : r.contains bin = true := by
      have := List.find?_some hfind
      exact this
    exact (lookup_eq_some h).2 ⟨hperm.mem_iff.2 (List.mem_of_find?_eq_some hfind), hin⟩
  | none =>
    rw [Option.eq_none_iff_forall_not_mem]
    intro r hr
    obtain ⟨hmem, hin⟩ := lookup_mem hr
    exact List.find?_eq_none.1 hfind r (hperm.mem_iff.1 hmem) hin

theorem Ordered.eq_of_perm {t' : RangeTree} (h : t.Ordered) (h' : t'.Ordered)
    (hperm : t.ranges.Perm t'.ranges) : t = t' := by
  have heq := hperm.eq_of_pairwise (fun a b _ _ hab hba => absurd hba hab.asymm) h h'
  cases t
  cases t'
  exact congrArg RangeTree.mk heq

theorem insertAll_disjoint (h : t.Ordered) (hrs : rs.Pairwise fun r s => ¬ r.Overlaps s)
    (hfree : ∀ r ∈ rs, ∀ s ∈ t.ranges, ¬ s.Overlaps r) :
    t.accepted rs = rs ∧ rs.foldlM tryInsert t = .ok (t.insertAll rs) := by
  induction rs generalizing t with
  | nil => exact ⟨rfl, rfl⟩
  | cons r rs ih =>
    rw [List.pairwise_cons] at hrs
    cases hins : t.insert r with
    | mk result t' =>
      cases result with
      | error e =>
        obtain ⟨s, hs, hover⟩ :=
          (insert_error_iff h r).1.1 ⟨e, by rw [hins]⟩
        exact absurd hover (hfree r List.mem_cons_self s hs)
      | ok =>
        obtain ⟨hordered, hperm⟩ := insert_ok h hins
        have htry : t.tryInsert r = .ok t' := by
          unfold tryInsert
          rw [hins]
        obtain ⟨haccepted, hrun⟩ := ih hordered hrs.2 (by
          intro r' hr' s hs
          rcases List.mem_cons.1 (hperm.mem_iff.1 hs) with rfl | hs
          · exact hrs.1 r' hr'
          · exact hfree r' (List.mem_cons_of_mem _ hr') s hs)
        refine ⟨?_, ?_⟩
        · rw [accepted, hins]
          exact congrArg (r :: ·) haccepted
        · rw [List.foldlM_cons, htry, ok_bind, hrun]
          show _ = Except.ok (insertAll (t.insert r).2 rs)
          rw [hins]

theorem ordered_empty : empty.Ordered := List.Pairwise.nil

theorem insertAll_empty (hrs : rs.Pairwise fun r s => ¬ r.Overlaps s) :
    empty.accepted rs = rs ∧ fromRanges rs = .ok (empty.insertAll rs)
      ∧ (empty.insertAll rs).Ordered
      ∧ (empty.insertAll rs).ranges.Perm rs := by
  obtain ⟨haccepted, hrun⟩ := insertAll_disjoint ordered_empty hrs
    fun _ _ s hs => absurd hs List.not_mem_nil
  obtain ⟨hordered, hperm⟩ := insertAll_spec ordered_empty rs
  rw [haccepted] at hperm
  exact ⟨haccepted, hrun, hordered, hperm.trans (.of_eq (List.append_nil rs))⟩

/-- The tree after any calls of `insert`: what it holds, what it refuses,
what it finds, and that the order of disjoint ranges does not matter. -/
theorem rangeTree_exact (rs : List BinRange) :
    ((empty.insertAll rs).ranges.Pairwise
        fun r s => r.low.toNat < s.low.toNat)
    ∧ ((empty.insertAll rs).ranges.Pairwise fun r s => ¬ r.Overlaps s)
    ∧ (∀ r, ((∃ e, ((empty.insertAll rs).insert r).1 = .error e)
          ↔ ∃ s ∈ (empty.insertAll rs).ranges, s.Overlaps r)
        ∧ ∀ e, ((empty.insertAll rs).insert r).1 = .error e →
          ((empty.insertAll rs).insert r).2 = empty.insertAll rs)
    ∧ (∀ bin, (empty.insertAll rs).lookup bin
        = (empty.accepted rs).find? fun r => r.contains bin)
    ∧ ((rs.Pairwise fun r s => ¬ r.Overlaps s) → ∀ rs' : List BinRange,
        rs'.Perm rs → empty.accepted rs' = rs'
          ∧ fromRanges rs' = .ok (empty.insertAll rs)) := by
  obtain ⟨hordered, hperm⟩ := insertAll_spec ordered_empty rs
  have haccepted : (empty.insertAll rs).ranges.Perm (empty.accepted rs) :=
    hperm.trans (.of_eq (List.append_nil _))
  refine ⟨hordered.sorted, hordered.imp fun h =>
    BinRange.not_overlaps_iff.2 (Or.inl h), insert_error_iff hordered,
    lookup_eq_find? hordered haccepted, fun hrs rs' hperm' => ?_⟩
  have hrs' : rs'.Pairwise fun r s => ¬ r.Overlaps s :=
    (hperm'.pairwise_iff fun {r s} hnot hover => hnot hover.symm).2 hrs
  obtain ⟨-, -, -, hholds⟩ := insertAll_empty hrs
  obtain ⟨haccepted', hrun', hordered', hholds'⟩ := insertAll_empty hrs'
  have hsame := hordered'.eq_of_perm hordered (hholds'.trans (hperm'.trans hholds.symm))
  exact ⟨haccepted', hrun'.trans (congrArg Except.ok hsame)⟩

end RangeTree

end OpenStandards.OpBin

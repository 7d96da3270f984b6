/-
Percent-complete schedules and the progress they are booked on.

The entries up to snapshot `k` are within `k` halves of a minor unit of the
allocation times its percent (`booked_before_last`). The last entry is
whatever is left, so the schedule as a whole books the allocation. It keeps
up with progress exactly where what the last percent leaves open is no more
than one minor unit for each snapshot (`tracksProgress_iff`).
-/
import OpenStandards.OpRevrec.Proofs.Schedule
import OpenStandards.Lib.Rounding
import Mathlib.Algebra.BigOperators.Ring.List

namespace OpenStandards.OpRevrec

open Lib OpCore

-- ==== rounding

/-- Rounding to an integer is off by at most a half. -/
theorem abs_roundDp0_sub_le (x : Decimal) :
    |(roundDp0 x : Rat) - x| ≤ 1 / 2 := by
  have hlo : (x.floor : Rat) ≤ x := Int.floor_le x
  have hhi : x < x.floor + 1 := Int.lt_floor_add_one x
  rw [abs_le]
  unfold roundDp0
  simp only
  split
  case isTrue h => constructor <;> linarith
  case isFalse h =>
    rw [not_lt] at h
    split
    case isTrue h' =>
      push_cast
      constructor <;> linarith
    case isFalse h' =>
      rw [not_lt] at h'
      split
      · constructor <;> linarith
      · push_cast
        constructor <;> linarith

theorem roundDp0_between {T : Int} {x : Decimal}
    (hpos : 0 ≤ T → 0 ≤ x ∧ x ≤ T) (hneg : T ≤ 0 → (T : Rat) ≤ x ∧ x ≤ 0) :
    Between T (roundDp0 x) := by
  have herror := abs_le.1 (abs_roundDp0_sub_le x)
  constructor
  · intro hT
    obtain ⟨hlo, hhi⟩ := hpos hT
    have hlow : ((-1 : Int) : Rat) < roundDp0 x := by
      push_cast
      linarith [herror.1]
    have hhigh : (roundDp0 x : Rat) < ((T + 1 : Int) : Rat) := by
      push_cast
      linarith [herror.2]
    have := Int.cast_lt.1 hlow
    have := Int.cast_lt.1 hhigh
    omega
  · intro hT
    obtain ⟨hlo, hhi⟩ := hneg hT
    have hlow : ((T - 1 : Int) : Rat) < roundDp0 x := by
      push_cast
      linarith [herror.1]
    have hhigh : (roundDp0 x : Rat) < ((1 : Int) : Rat) := by
      push_cast
      linarith [herror.2]
    have := Int.cast_lt.1 hlow
    have := Int.cast_lt.1 hhigh
    omega

/-- The share of a part of the whole is the rounded product, and lies
between nothing and the allocation. -/
theorem roundedShare_spec (allocated : I64) {part : Decimal} (hlo : 0 ≤ part) (hhi : part ≤ 1) :
    (roundedShare allocated part).val = roundDp0 (allocated.val * part)
      ∧ Between allocated.val (roundedShare allocated part).val := by
  have hbetween : Between allocated.val (roundDp0 (allocated.val * part)) := by
    apply roundDp0_between
    · intro hT
      have hT' : (0 : Rat) ≤ allocated.val := Int.cast_nonneg hT
      exact ⟨mul_nonneg hT' hlo, mul_le_of_le_one_right hT' hhi⟩
    · intro hT
      have hT' : (allocated.val : Rat) ≤ 0 := Int.cast_nonpos.2 hT
      constructor
      · nlinarith
      · exact mul_nonpos_of_nonpos_of_nonneg hT' hlo
  have hval : (roundedShare allocated part).val = roundDp0 (allocated.val * part) := by
    have hrange := (hbetween.inI64 allocated.inRange).1
    have hsome : I64.ofInt? (roundDp0 ((allocated.val : Decimal) * part))
        = some ⟨_, hrange⟩ := I64.ofInt?_eq_some.2 rfl
    unfold roundedShare
    rw [hsome]
    rfl
  exact ⟨hval, hval ▸ hbetween⟩

-- ==== progress

/-- Cumulative percents: none is below the one before, and all are between
0 and 1. -/
structure Cumulative (snapshots : List PercentCompleteSnapshot) : Prop where
  ordered : (snapshots.map PercentCompleteSnapshot.percent).IsChain (· ≤ ·)
  bounds : ∀ s ∈ snapshots, 0 ≤ s.percent ∧ s.percent ≤ 1

variable {snapshots : List PercentCompleteSnapshot}

/-- What the percent goes up by is a part of the whole. -/
theorem deltas_bounds :
    ∀ {last : Decimal}, 0 ≤ last →
      (last :: snapshots.map PercentCompleteSnapshot.percent).IsChain (· ≤ ·) →
      (∀ s ∈ snapshots, s.percent ≤ 1) →
      ∀ p ∈ deltas last snapshots, 0 ≤ p.2 ∧ p.2 ≤ 1 := by
  induction snapshots with
  | nil => exact fun _ _ _ p hp => nomatch hp
  | cons s snapshots ih =>
    intro last hlast hchain hone p hp
    rw [List.map_cons, List.isChain_cons_cons] at hchain
    obtain ⟨hstep, hrest⟩ := hchain
    rcases List.mem_cons.1 hp with rfl | hp
    · have hs := hone s List.mem_cons_self
      constructor
      · exact sub_nonneg.2 hstep
      · exact (sub_le_self _ hlast).trans hs
    · exact ih (hlast.trans hstep) hrest
        (fun s' hs' => hone s' (List.mem_cons_of_mem s hs')) p hp

theorem sum_take_deltas :
    ∀ {last : Decimal} {k : Nat} {s : PercentCompleteSnapshot},
      snapshots[k]? = some s →
      (((deltas last snapshots).take (k + 1)).map Prod.snd).sum = s.percent - last := by
  induction snapshots with
  | nil => exact fun h => nomatch h
  | cons s' snapshots ih =>
    intro last k s hs
    rw [deltas, List.take_succ_cons, List.map_cons, List.sum_cons]
    cases k with
    | zero =>
      cases hs
      simp
    | succ k =>
      rw [ih hs]
      ring

theorem length_deltas :
    ∀ {last : Decimal}, (deltas last snapshots).length = snapshots.length := by
  induction snapshots with
  | nil => exact rfl
  | cons s snapshots ih => exact congrArg (· + 1) ih

namespace Cumulative

variable {snapshots : List PercentCompleteSnapshot}
  {s : PercentCompleteSnapshot} {k : Nat}

theorem chain (h : Cumulative snapshots) :
    (0 :: snapshots.map PercentCompleteSnapshot.percent).IsChain (· ≤ ·) := by
  cases snapshots with
  | nil => exact .singleton 0
  | cons s snapshots =>
    rw [List.map_cons, List.isChain_cons_cons]
    exact ⟨(h.bounds s List.mem_cons_self).1, h.ordered⟩

theorem parts (h : Cumulative snapshots) : ∀ p ∈ deltas 0 snapshots, 0 ≤ p.2 ∧ p.2 ≤ 1 :=
  deltas_bounds (le_refl 0) h.chain fun s hs => (h.bounds s hs).2

theorem le_last (h : Cumulative snapshots) {last : PercentCompleteSnapshot}
    (hlast : last ∈ snapshots.getLast?) (hs : s ∈ snapshots) :
    s.percent ≤ last.percent := by
  obtain ⟨init, rfl⟩ := List.getLast?_eq_some_iff.1 hlast
  have hpairs := List.isChain_iff_pairwise.1 h.ordered
  rw [List.map_append, List.pairwise_append] at hpairs
  rcases List.mem_append.1 hs with hs | hs
  · exact hpairs.2.2 _ (List.mem_map_of_mem hs) _ (List.mem_singleton_self _)
  · rw [List.mem_singleton.1 hs]

/-- The rounded parts up to snapshot `k`, counted from one, are within `k`
halves of the allocation times its percent. -/
theorem shares_near (h : Cumulative snapshots) (allocated : I64) (hs : snapshots[k]? = some s) :
    |(((((deltas 0 snapshots).take (k + 1)).map
        fun p => (roundedShare allocated p.2).val).sum : Int) : Rat)
        - allocated.val * s.percent| ≤ ((k + 1 : Nat) : Rat) / 2 := by
  let steps := (deltas 0 snapshots).take (k + 1)
  have hnear : |(((steps.map
        fun p => (roundedShare allocated p.2).val).sum : Int) : Rat)
      - (steps.map fun p => (allocated.val : Rat) * p.2).sum| ≤ steps.length * (1 / 2) := by
    refine abs_sum_sub_le fun p hp => ?_
    have hp' := h.parts p (List.mem_of_mem_take hp)
    rw [(roundedShare_spec allocated hp'.1 hp'.2).1]
    exact abs_roundDp0_sub_le _
  have hexact : (steps.map fun p => (allocated.val : Rat) * p.2).sum
      = allocated.val * s.percent := by
    rw [List.sum_map_mul_left, sum_take_deltas hs, sub_zero]
  have hlen : (steps.length : Rat) ≤ ((k + 1 : Nat) : Rat) :=
    Nat.cast_le.2 (List.length_take_le _ _)
  rw [hexact] at hnear
  exact hnear.trans (by linarith)

end Cumulative

-- ==== what is booked

section
variable {id : ObligationId} {currency : Currency} {allocated : I64}

theorem length_of_measured {parts : List (NaiveDate × Decimal)} {entries : List ScheduleEntry}
    (h : measured id parts allocated currency = .ok entries) :
    entries.length = parts.length := by
  unfold measured at h
  rcases bind_eq_ok.1 h with ⟨amounts, hamounts, h₁⟩
  cases h₁
  rw [List.length_zipWith, length_of_apportion hamounts, Nat.min_self]

theorem booked_before_last {parts : List (NaiveDate × Decimal)} {entries : List ScheduleEntry}
    (h : measured id parts allocated currency = .ok entries) {j : Nat} (hj : j < parts.length) :
    sumOf (entries.take j) = ((parts.take j).map
      fun p => (roundedShare allocated p.2).val).sum := by
  unfold measured at h
  rcases bind_eq_ok.1 h with ⟨amounts, hamounts, h₁⟩
  cases h₁
  obtain ⟨init, last, rfl⟩ := (List.eq_nil_or_concat' parts).resolve_left
    (List.ne_nil_of_length_pos (Nat.zero_lt_of_lt hj))
  rw [List.length_append, List.length_singleton] at hj
  have hinit : j ≤ init.length := Nat.le_of_lt_succ hj
  obtain ⟨remainder, rfl⟩ := shares_of_apportion (fun p _ => rfl) hamounts
  have hlen : (((init.map fun p => roundedShare allocated p.2)
      ++ [remainder]).take j).length = ((init ++ [last]).take j).length := by
    simp
  rw [List.take_zipWith, sumOf_zipWith (fun _ _ => rfl) hlen,
    List.take_append_of_le_length (by rw [List.length_map]; exact hinit),
    List.take_append_of_le_length hinit, ← List.map_take, List.map_map]
  rfl

/-- Where the last percent leaves more open than one minor unit for each
snapshot, no sum on the way leaves the 64 bits. -/
theorem partsFit_of_open {snapshots : List PercentCompleteSnapshot}
    (h : Cumulative snapshots) {last : PercentCompleteSnapshot}
    (hlast : last ∈ snapshots.getLast?)
    (hopen : (snapshots.length : Rat)
      < |(allocated.val : Rat) * (1 - last.percent)|) :
    PartsFit allocated (deltas 0 snapshots) := by
  have hone := (h.bounds last (List.mem_of_getLast? hlast)).2
  refine fitsFrom_of_between allocated.inRange fun j hj => ?_
  rw [zero_add]
  cases j with
  | zero => exact ⟨fun hT => ⟨le_refl 0, hT⟩, fun hT => ⟨hT, le_refl 0⟩⟩
  | succ k =>
    have hk : k < snapshots.length := by
      rw [length_deltas] at hj
      exact Nat.lt_of_succ_lt hj
    have hs : snapshots[k]? = some snapshots[k] :=
      List.getElem?_eq_getElem hk
    have hnear := abs_le.1 (h.shares_near allocated hs)
    have hle := h.le_last hlast (List.getElem_mem hk)
    have hfew : ((k + 1 : Nat) : Rat) ≤ snapshots.length :=
      Nat.cast_le.2 hk
    have hmany : (0 : Rat) ≤ snapshots.length := Nat.cast_nonneg _
    have hparts : ∀ p ∈ (deltas 0 snapshots).take (k + 1),
        Between allocated.val (roundedShare allocated p.2).val :=
      fun p hp =>
        have hp' := h.parts p (List.mem_of_mem_take hp)
        (roundedShare_spec allocated hp'.1 hp'.2).2
    constructor
    · intro hT
      have hT' : (0 : Rat) ≤ allocated.val := Int.cast_nonneg hT
      refine ⟨List.sum_nonneg fun x hx => ?_, (Int.cast_le (R := Rat)).1 ?_⟩
      · obtain ⟨p, hp, rfl⟩ := List.mem_map.1 hx
        exact ((hparts p hp).1 hT).1
      · rw [abs_of_nonneg (mul_nonneg hT' (sub_nonneg.2 hone))] at hopen
        have hbooked := mul_le_mul_of_nonneg_left hle hT'
        linarith [hnear.2]
    · intro hT
      have hT' : (allocated.val : Rat) ≤ 0 := Int.cast_nonpos.2 hT
      refine ⟨(Int.cast_le (R := Rat)).1 ?_,
        (List.sum_le_card_nsmul _ 0 fun x hx => ?_).trans_eq (nsmul_zero _)⟩
      · rw [abs_of_nonpos (mul_nonpos_of_nonpos_of_nonneg hT' (sub_nonneg.2 hone))] at hopen
        have hbooked := mul_le_mul_of_nonpos_left hle hT'
        linarith [hnear.1]
      · obtain ⟨p, hp, rfl⟩ := List.mem_map.1 hx
        exact ((hparts p hp).2 hT).2

end

-- ==== the main result

/-- A schedule on these snapshots keeps up with progress: what is booked
up to and including snapshot `k`, counted from one, differs from the
allocation times its percent by at most `k` minor units. -/
def TracksProgress (o : PerformanceObligation)
    (snapshots : List PercentCompleteSnapshot) (allocated : I64) (currency : Currency) : Prop :=
  ∀ fuel schedule, generate fuel o allocated currency = some (.ok schedule) →
    ∀ k s, snapshots[k]? = some s →
      |(sumOf (schedule.entries.take (k + 1)) : Rat)
          - allocated.val * s.percent| ≤ (k + 1 : Nat)

theorem generate_percentComplete_iff {id : ObligationId} {price : Money}
    (h : Cumulative snapshots) {fuel : Nat} {allocated : I64}
    {currency : Currency} {schedule : RecognitionSchedule} :
    generate fuel ⟨id, price, .inputPercentComplete snapshots⟩ allocated
        currency = some (.ok schedule)
      ↔ ∃ entries, measured id (deltas 0 snapshots) allocated currency
          = .ok entries ∧ schedule = ⟨id, entries⟩ := by
  have hunfold : generate fuel ⟨id, price, .inputPercentComplete snapshots⟩
      allocated currency
        = some ((measured id (deltas 0 snapshots) allocated currency).map
          fun entries => ⟨id, entries⟩) := by
    unfold generate inputPercentComplete
    simp only [validateMonotone_ok_iff.2 h.chain, ok_bind]
    rfl
  rw [hunfold, Option.some_inj]
  cases measured id (deltas 0 snapshots) allocated currency with
  | error e =>
    refine iff_of_false nofun ?_
    rintro ⟨entries, hentries, -⟩
    cases hentries
  | ok entries =>
    constructor
    · intro heq
      exact ⟨entries, rfl, (Except.ok.inj heq).symm⟩
    · rintro ⟨entries', heq, rfl⟩
      cases heq
      rfl

/-- **Recognition keeps up with progress** exactly where what the last
percent leaves open of the allocation is no more than one minor unit for
each snapshot. -/
theorem tracksProgress_iff (id : ObligationId) (price : Money)
    (snapshots : List PercentCompleteSnapshot) (allocated : I64)
    (currency : Currency) (h : Cumulative snapshots) :
    TracksProgress ⟨id, price, .inputPercentComplete snapshots⟩ snapshots allocated currency
      ↔ ∀ last ∈ snapshots.getLast?,
          |(allocated.val : Rat) * (1 - last.percent)|
            ≤ snapshots.length := by
  constructor
  · intro htracks last hlast
    by_contra hopen
    rw [not_le] at hopen
    obtain ⟨entries, hentries⟩ : ∃ entries, measured id
        (deltas 0 snapshots) allocated currency = .ok entries :=
      measured_ok_iff.2 (partsFit_of_open h hlast hopen)
    obtain ⟨init, hinit⟩ := List.getLast?_eq_some_iff.1 hlast
    have hlen : snapshots.length = init.length + 1 := by
      rw [hinit, List.length_append, List.length_singleton]
    have hget : snapshots[init.length]? = some last := by
      rw [hinit]
      exact List.getElem?_concat_length
    have hne : snapshots ≠ [] := by
      rw [hinit]
      exact List.append_ne_nil_of_right_ne_nil _ (List.cons_ne_nil last [])
    have hall : entries.take (init.length + 1) = entries := by
      refine List.take_of_length_le ?_
      rw [length_of_measured hentries, length_deltas, hlen]
    have hbound := htracks 0 ⟨id, entries⟩
      ((generate_percentComplete_iff h).2 ⟨entries, hentries, rfl⟩) _ _ hget
    rw [hall, sumOf_measured (deltas_ne_nil hne 0) hentries, ← hlen]
      at hbound
    rw [mul_sub, mul_one] at hopen
    exact not_lt.2 hbound hopen
  · intro hopen fuel schedule hschedule k s hs
    obtain ⟨entries, hentries, rfl⟩ :=
      (generate_percentComplete_iff h).1 hschedule
    have hk : k < snapshots.length := (List.getElem?_eq_some_iff.1 hs).1
    by_cases hbefore : k + 1 < snapshots.length
    · rw [← @length_deltas snapshots 0] at hbefore
      rw [booked_before_last hentries hbefore]
      refine (h.shares_near allocated hs).trans ?_
      have hnonneg : (0 : Rat) ≤ (k + 1 : Nat) := Nat.cast_nonneg _
      linarith
    · have hlen : snapshots.length = k + 1 := by omega
      have hlast : s ∈ snapshots.getLast? := by
        rw [List.getLast?_eq_getElem?, hlen, Nat.add_sub_cancel]
        exact hs
      have hne : snapshots ≠ [] := List.ne_nil_of_length_pos (by omega)
      have hall : entries.take (k + 1) = entries := by
        refine List.take_of_length_le ?_
        rw [length_of_measured hentries, length_deltas, hlen]
      have hbound := hopen s hlast
      rw [mul_sub, mul_one, hlen] at hbound
      rw [hall, sumOf_measured (deltas_ne_nil hne 0) hentries]
      exact hbound

def endOfJune : NaiveDate :=
  ⟨⟨2026, 6, 30, by decide, by decide, by decide, by decide⟩, by decide, by decide⟩

def onceMeasured (percent : Decimal) : PerformanceObligation where
  id := ⟨"build"⟩
  standaloneSellingPrice := .fromMinor 1000 .USD
  pattern := .inputPercentComplete [⟨endOfJune, percent⟩]

theorem cumulative_singleton (d : NaiveDate) {percent : Decimal}
    (hlo : 0 ≤ percent) (hhi : percent ≤ 1) :
    Cumulative [⟨d, percent⟩] := by
  refine ⟨.singleton _, fun s hs => ?_⟩
  rw [List.mem_singleton.1 hs]
  exact ⟨hlo, hhi⟩

/-- A quarter, a half and the whole of the work. -/
def toTheEnd : List PercentCompleteSnapshot :=
  [⟨endOfJune, 1 / 4⟩, ⟨endOfJune, 1 / 2⟩, ⟨endOfJune, 1⟩]

theorem finished_tracksProgress :
    TracksProgress ⟨⟨"build"⟩, .fromMinor 1000 .USD, .inputPercentComplete toTheEnd⟩
      toTheEnd 1000 .USD := by
  have hcumulative : Cumulative toTheEnd := by
    constructor
    · norm_num [toTheEnd]
    · norm_num [toTheEnd]
  refine (tracksProgress_iff _ _ _ _ _ hcumulative).2 fun last hlast => ?_
  cases hlast
  norm_num

/-- A quarter of the work is done, and all of the price is recognized. -/
theorem quarter_recognizes_all :
    Cumulative [⟨endOfJune, 1 / 4⟩]
      ∧ ¬ TracksProgress (onceMeasured (1 / 4)) [⟨endOfJune, 1 / 4⟩]
          ⟨1000, by decide⟩ .USD := by
  refine ⟨cumulative_singleton _ (by norm_num) (by norm_num), fun h => ?_⟩
  have hgenerate : generate 0 (onceMeasured (1 / 4)) ⟨1000, by decide⟩ .USD
      = some (.ok ⟨⟨"build"⟩, [⟨⟨"build"⟩, endOfJune, ⟨1000, by decide⟩, .USD⟩]⟩) := by
    decide +kernel
  have hbound := h 0 _ hgenerate 0 _ rfl
  have hbooked : |((1000 : Int) : Rat) - (1000 : Int) * (1 / 4)|
      ≤ ((0 + 1 : Nat) : Rat) := hbound
  norm_num [abs_of_nonneg] at hbooked

end OpenStandards.OpRevrec

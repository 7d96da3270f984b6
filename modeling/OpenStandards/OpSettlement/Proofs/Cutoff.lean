/-
When a cutoff fires.

The instants of a schedule are the full hours `k * 86400 + h * 3600`. From
a tick the code computes the next one (`nextInstant`), and it fires where
that one is reached, so exactly where some instant lies in the window
(`hourCrossed_iff`). What follows for adjacent windows is about the
instants alone: every instant of an interval lies in one window of a
partition (`countP_windows`).
-/
import OpenStandards.OpSettlement.Engine

namespace OpenStandards.OpSettlement

open Lib

namespace Cutoff

-- ==== schedules

def hours : Cutoff → List UInt8
  | .daily hourUtc => [hourUtc]
  | .multiDaily hoursUtc => hoursUtc
  | .manual => []

/-- A schedule that a constructor answers. -/
inductive Built : Cutoff → Prop where
  | manual : Built .manual
  | daily {hourUtc : UInt8} {c : Cutoff} :
      newDaily hourUtc = .ok c → Built c
  | multiDaily {hoursUtc : List UInt8} {c : Cutoff} :
      newMultiDaily hoursUtc = .ok c → Built c

/-- An instant of the schedule, in seconds of the epoch. -/
def Scheduled (c : Cutoff) (t : Nat) : Prop :=
  ∃ h ∈ c.hours, ∃ k, t = k * 86400 + h.toNat * 3600

theorem lt_of_checkHours {last : Int} {hs : List UInt8}
    (hok : checkHours last hs = .ok ()) : ∀ h ∈ hs, h.toNat < 24 := by
  induction hs generalizing last with
  | nil => exact List.forall_mem_nil _
  | cons h hs ih =>
    unfold checkHours at hok
    obtain ⟨hrange, hok⟩ := refuse_bind_eq_ok.1 hok
    obtain ⟨-, hok⟩ := refuse_bind_eq_ok.1 hok
    exact List.forall_mem_cons.2 ⟨Nat.not_le.1 hrange, ih hok⟩

/-- A constructor answers hours of a day. -/
theorem Built.hour_lt {c : Cutoff} (hc : c.Built) : ∀ h ∈ c.hours, h.toNat < 24 := by
  cases hc with
  | manual => exact List.forall_mem_nil _
  | daily hok =>
    obtain ⟨hrange, hok⟩ := refuse_bind_eq_ok.1 hok
    obtain rfl := Except.ok.inj hok
    exact List.forall_mem_singleton.2 (Nat.not_le.1 hrange)
  | multiDaily hok =>
    obtain ⟨-, hok⟩ := refuse_bind_eq_ok.1 hok
    obtain ⟨hcheck, hok⟩ := check_bind_eq_ok.1 hok
    obtain rfl := Except.ok.inj hok
    exact lt_of_checkHours hcheck

end Cutoff

-- ==== the next instant

/-- The first instant of an hour after a tick. -/
def nextInstant (last h : Nat) : Nat :=
  let candidate := last / 86400 * 86400 + h * 3600
  if candidate ≤ last then 86400 + candidate else candidate

/-- It is reached where any instant after the tick is. -/
theorem nextInstant_le_iff {last now h : Nat} (hh : h < 24) :
    nextInstant last h ≤ now
      ↔ ∃ k, last < k * 86400 + h * 3600 ∧ k * 86400 + h * 3600 ≤ now := by
  have hday := Nat.div_add_mod last 86400
  have hrest := Nat.mod_lt last (show 0 < 86400 by decide)
  unfold nextInstant
  generalize last / 86400 = day at hday
  generalize last % 86400 = rest at hday hrest
  dsimp only
  constructor
  · intro hle
    split at hle
    case isTrue hpast =>
      have hnext : (day + 1) * 86400 + h * 3600 = 86400 + (day * 86400 + h * 3600) := by ring
      exact ⟨day + 1, by omega, hnext ▸ hle⟩
    case isFalse hahead => exact ⟨day, by omega, hle⟩
  · intro ⟨k, hlt, hle⟩
    split
    case isTrue hpast => omega
    case isFalse hahead =>
      -- no day before that of the tick has an instant after it
      have hk : day ≤ k := by omega
      have hsame : day * 86400 + h * 3600 ≤ k * 86400 + h * 3600 :=
        Nat.add_le_add_right (Nat.mul_le_mul_right _ hk) _
      exact hsame.trans hle

/-- The window covers the hour where an instant of it lies in the window. -/
theorem hourCrossed_iff {last now : UInt64} {h : UInt8} (hh : h.toNat < 24)
    (hnow : now.toNat < 2 ^ 63) :
    hourCrossed last now h = true
      ↔ ∃ k, last.toNat < k * 86400 + h.toNat * 3600
        ∧ k * 86400 + h.toNat * 3600 ≤ now.toNat := by
  rw [← nextInstant_le_iff hh]
  unfold hourCrossed
  by_cases hwindow : now ≤ last
  · have hle := UInt64.le_iff_toNat_le.1 hwindow
    rw [if_pos hwindow]
    refine iff_of_false Bool.false_ne_true fun hnext => ?_
    obtain ⟨k, hlt, hreached⟩ := (nextInstant_le_iff hh).1 hnext
    omega
  · have hlt : last.toNat < now.toNat :=
      UInt64.lt_iff_toNat_lt.1 (UInt64.not_le.1 hwindow)
    have hcandidate : (last / 86400 * 86400 + h.toUInt64 * 3600).toNat
        = last.toNat / 86400 * 86400 + h.toNat * 3600 := by
      simp only [UInt64.toNat_add, UInt64.toNat_mul, UInt64.toNat_div,
        UInt8.toNat_toUInt64, UInt64.reduceToNat]
      omega
    rw [if_neg hwindow]
    dsimp only
    rw [decide_eq_true_eq, UInt64.le_iff_toNat_le]
    unfold nextInstant
    dsimp only
    by_cases hpast : last.toNat / 86400 * 86400 + h.toNat * 3600 ≤ last.toNat
    · have hpast' : last / 86400 * 86400 + h.toUInt64 * 3600 ≤ last := by
        rw [UInt64.le_iff_toNat_le, hcandidate]
        exact hpast
      rw [if_pos hpast, if_pos hpast', UInt64.toNat_add, hcandidate]
      simp only [UInt64.reduceToNat]
      omega
    · have hpast' : ¬ last / 86400 * 86400 + h.toUInt64 * 3600 ≤ last := by
        rw [UInt64.le_iff_toNat_le, hcandidate]
        exact hpast
      rw [if_neg hpast, if_neg hpast', hcandidate]

/-- A cutoff fires where one of its instants lies in the window. -/
theorem Cutoff.shouldClose_iff {c : Cutoff} (hc : c.Built)
    {last now : UInt64} (hnow : now.toNat < 2 ^ 63) :
    c.shouldClose last now = true ↔ ∃ t, c.Scheduled t ∧ last.toNat < t ∧ t ≤ now.toNat := by
  have hhour : ∀ h ∈ c.hours, (hourCrossed last now h = true
      ↔ ∃ k, last.toNat < k * 86400 + h.toNat * 3600
        ∧ k * 86400 + h.toNat * 3600 ≤ now.toNat) :=
    fun h hmem => hourCrossed_iff (hc.hour_lt h hmem) hnow
  have hany : c.shouldClose last now = true ↔ ∃ h ∈ c.hours, hourCrossed last now h = true := by
    unfold Cutoff.shouldClose
    by_cases hwindow : now ≤ last
    · rw [if_pos hwindow]
      refine iff_of_false Bool.false_ne_true fun ⟨h, _, hcrossed⟩ => ?_
      unfold hourCrossed at hcrossed
      rw [if_pos hwindow] at hcrossed
      cases hcrossed
    · rw [if_neg hwindow]
      cases c with
      | daily hourUtc => simp [Cutoff.hours]
      | multiDaily hoursUtc => simp [Cutoff.hours]
      | manual => simp [Cutoff.hours]
  rw [hany]
  constructor
  · intro ⟨h, hmem, hcrossed⟩
    obtain ⟨k, hlt, hle⟩ := (hhour h hmem).1 hcrossed
    exact ⟨_, ⟨h, hmem, k, rfl⟩, hlt, hle⟩
  · intro ⟨t, ⟨h, hmem, k, ht⟩, hlt, hle⟩
    rw [ht] at hlt hle
    exact ⟨h, hmem, (hhour h hmem).2 ⟨k, hlt, hle⟩⟩

-- ==== windows

def windows (last : UInt64) : List UInt64 → List (UInt64 × UInt64)
  | [] => []
  | tick :: ticks => (last, tick) :: windows tick ticks

/-- The instant lies in the window, which is open at its start. -/
def inWindow (t : Nat) (w : UInt64 × UInt64) : Bool :=
  w.1.toNat < t ∧ t ≤ w.2.toNat

variable {ticks : List UInt64}

theorem le_getLastD {last : UInt64} (hsorted : (last :: ticks).Pairwise (· ≤ ·)) :
    last.toNat ≤ (ticks.getLastD last).toNat := by
  rcases List.mem_cons.1 (List.getLastD_mem_cons : ticks.getLastD last ∈ _)
    with heq | hmem
  · rw [heq]
  · exact UInt64.le_iff_toNat_le.1 ((List.pairwise_cons.1 hsorted).1 _ hmem)

/-- An instant of the whole interval lies in one window of a partition, any
other in none. -/
theorem countP_windows (t : Nat) {last : UInt64} (hsorted : (last :: ticks).Pairwise (· ≤ ·)) :
    (windows last ticks).countP (inWindow t)
      = if inWindow t (last, ticks.getLastD last) then 1 else 0 := by
  induction ticks generalizing last with
  | nil =>
    unfold windows inWindow
    simp
  | cons tick ticks ih =>
    obtain ⟨hfirst, hrest⟩ := List.pairwise_cons.1 hsorted
    have hle : last.toNat ≤ tick.toNat :=
      UInt64.le_iff_toNat_le.1 (hfirst tick List.mem_cons_self)
    have hend := le_getLastD hrest
    rw [windows, List.countP_cons, ih hrest, List.getLastD_cons]
    unfold inWindow
    simp only [decide_eq_true_eq]
    split_ifs <;> omega

theorem mem_windows {last : UInt64}
    (hsorted : (last :: ticks).Pairwise (· ≤ ·)) {w : UInt64 × UInt64}
    (hw : w ∈ windows last ticks) :
    w.2.toNat ≤ (ticks.getLastD last).toNat := by
  induction ticks generalizing last with
  | nil => cases hw
  | cons tick ticks ih =>
    obtain ⟨-, hrest⟩ := List.pairwise_cons.1 hsorted
    rw [List.getLastD_cons]
    rcases List.mem_cons.1 hw with rfl | hw
    · exact le_getLastD hrest
    · exact ih hrest hw

/-- **Cutoffs are neither missed nor doubled.** A schedule fires for a
window where one of its instants lies in it. For ticks in order it fires
on the whole interval where it fires on some window between adjacent
ticks, and every instant of the interval lies in one of these windows,
where it fires. -/
theorem shouldClose_exact {c : Cutoff} (hc : c.Built) {last : UInt64}
    {ticks : List UInt64} (hsorted : (last :: ticks).Pairwise (· ≤ ·))
    (hfits : (ticks.getLastD last).toNat < 2 ^ 63) :
    (c.shouldClose last (ticks.getLastD last) = true
      ↔ ∃ t, c.Scheduled t ∧ last.toNat < t ∧ t ≤ (ticks.getLastD last).toNat)
    ∧ (c.shouldClose last (ticks.getLastD last) = true
      ↔ ∃ w ∈ windows last ticks, c.shouldClose w.1 w.2 = true)
    ∧ ∀ t, c.Scheduled t → last.toNat < t →
      t ≤ (ticks.getLastD last).toNat →
      (windows last ticks).countP (inWindow t) = 1
        ∧ ∀ w ∈ windows last ticks, inWindow t w = true → c.shouldClose w.1 w.2 = true := by
  have hwhole : c.shouldClose last (ticks.getLastD last) = true
      ↔ ∃ t, c.Scheduled t ∧ last.toNat < t ∧ t ≤ (ticks.getLastD last).toNat :=
    Cutoff.shouldClose_iff hc hfits
  have hpart : ∀ w ∈ windows last ticks, (c.shouldClose w.1 w.2 = true
      ↔ ∃ t, c.Scheduled t ∧ w.1.toNat < t ∧ t ≤ w.2.toNat) :=
    fun w hw => Cutoff.shouldClose_iff hc (lt_of_le_of_lt (mem_windows hsorted hw) hfits)
  have honce : ∀ t, last.toNat < t → t ≤ (ticks.getLastD last).toNat →
      (windows last ticks).countP (inWindow t) = 1 := by
    intro t hlt hle
    rw [countP_windows t hsorted]
    exact if_pos (decide_eq_true ⟨hlt, hle⟩)
  have hfires : ∀ t, c.Scheduled t → ∀ w ∈ windows last ticks,
      inWindow t w = true → c.shouldClose w.1 w.2 = true := by
    intro t ht w hw hin
    exact (hpart w hw).2 ⟨t, ht, of_decide_eq_true hin⟩
  refine ⟨hwhole, ?_, fun t ht hlt hle =>
    ⟨honce t hlt hle, hfires t ht⟩⟩
  rw [hwhole]
  constructor
  · intro ⟨t, ht, hlt, hle⟩
    have hpos : 0 < (windows last ticks).countP (inWindow t) := by
      rw [honce t hlt hle]
      exact Nat.one_pos
    obtain ⟨w, hw, hin⟩ := List.countP_pos_iff.1 hpos
    exact ⟨w, hw, hfires t ht w hw hin⟩
  · intro ⟨w, hw, hcloses⟩
    obtain ⟨t, ht, hlt, hle⟩ := (hpart w hw).1 hcloses
    have hpos : 0 < (windows last ticks).countP (inWindow t) :=
      List.countP_pos_iff.2 ⟨w, hw, decide_eq_true ⟨hlt, hle⟩⟩
    rw [countP_windows t hsorted] at hpos
    split at hpos
    case isTrue hin => exact ⟨t, ht, of_decide_eq_true hin⟩
    case isFalse => cases hpos

/-- Ticks at midnight, at seven and a day later: the instant at seven falls
in the first window. -/
theorem daily_at_seven :
    (Cutoff.daily 7).shouldClose 0 90000 = true
      ∧ (windows 0 [25200, 90000]).countP (inWindow 25200) = 1 := by
  have hbuilt : Cutoff.newDaily 7 = .ok (.daily 7) := rfl
  have hsorted : ([0, 25200, 90000] : List UInt64).Pairwise (· ≤ ·) := by
    decide
  have hexact := shouldClose_exact (.daily hbuilt) hsorted (by decide)
  have hinstant : (Cutoff.daily 7).Scheduled 25200 :=
    ⟨7, List.mem_singleton.2 rfl, 0, rfl⟩
  exact ⟨hexact.1.2 ⟨25200, hinstant, by decide, by decide⟩,
    (hexact.2.2 25200 hinstant (by decide) (by decide)).1⟩

end OpenStandards.OpSettlement

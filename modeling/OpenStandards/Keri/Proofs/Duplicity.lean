/-
Duplicity detection over whole runs of a watcher.

The identifiers filed under a slot (a controller and a sequence number)
are exactly those sighted there, in order of first arrival
(`Tracks.filed`). A slot that holds two has a signal, and every signal of
the slot names its first two. So the set of duplicitous controllers is exact
whatever the order of arrival, while the signals cover a fork exactly when
it has two branches.
-/
import OpenStandards.Keri.Verifier

namespace OpenStandards.Keri

open Lib SmartByte

-- ==== the slots

namespace Watcher

/-- The identifiers filed under a slot, in order of arrival. -/
def saidsAt (w : Watcher) (controller : ControllerAid) (sequence : UInt64) : List Said :=
  (w.bucket controller sequence).map fun e => e.event.said

theorem bucket_withBucket (w : Watcher) (c c' : ControllerAid)
    (s s' : UInt64) (entries : List ObservedEntry) :
    (w.withBucket c s entries).bucket c' s'
      = if c' = c ∧ s' = s then entries else w.bucket c' s' := by
  unfold bucket withBucket
  rw [Table.lookup_insert_eq]
  by_cases hc : c' = c
  · subst hc
    rw [if_pos rfl, Option.getD_some, Table.lookup_insert_eq]
    by_cases hs : s' = s
    · simp [hs]
    · simp [hs]
  · simp [hc]

/-- The identifiers under a slot after its entries are replaced. -/
theorem saidsAt_withBucket (w : Watcher) (c c' : ControllerAid)
    (s s' : UInt64) (entries : List ObservedEntry) :
    (w.withBucket c s entries).saidsAt c' s'
      = if c' = c ∧ s' = s then entries.map fun e => e.event.said
        else w.saidsAt c' s' := by
  unfold saidsAt
  rw [bucket_withBucket]
  split
  · rfl
  · rfl

theorem any_said_iff (w : Watcher) (c : ControllerAid) (s : UInt64) (said : Said) :
    ((w.bucket c s).any fun e => e.event.said = said) = true ↔ said ∈ w.saidsAt c s := by
  simp [saidsAt]

/-- An identifier that is known at its slot changes nothing there. -/
theorem file_of_mem {w : Watcher} {o : Observation}
    (h : o.event.said ∈ w.saidsAt o.event.controller o.event.sequence) :
    w.file o = w.withBucket o.event.controller o.event.sequence
      (w.bucket o.event.controller o.event.sequence) :=
  if_pos ((any_said_iff ..).2 h)

/-- A new identifier joins the others at the end; from the second on, a
signal with the first two of the slot goes out. -/
theorem file_of_not_mem {w : Watcher} {o : Observation}
    (h : o.event.said ∉ w.saidsAt o.event.controller o.event.sequence) :
    w.file o =
      let entries := w.bucket o.event.controller o.event.sequence
        ++ [⟨o.event, o.receipts, o.firstSeen⟩]
      let w' := w.withBucket o.event.controller o.event.sequence entries
      match entries with
      | a :: b :: _ =>
        { w' with
          duplicityDetected :=
            insert o.event.controller w'.duplicityDetected
          signals := w'.signals ++
            [{ controller := o.event.controller
               sequence := o.event.sequence
               fork := (a.event.said, b.event.said)
               detectedAt := o.detectedAt }] }
      | _ => w' :=
  if_neg (mt (any_said_iff ..).1 h)

/-- The slot of an observation gains its identifier, the other slots stay
as they are. -/
theorem saidsAt_file (w : Watcher) (o : Observation) (c : ControllerAid) (s : UInt64) :
    (w.file o).saidsAt c s
      = if c = o.event.controller ∧ s = o.event.sequence
        then assertFact (w.saidsAt c s) o.event.said
        else w.saidsAt c s := by
  by_cases h : o.event.said ∈ w.saidsAt o.event.controller o.event.sequence
  · rw [file_of_mem h, saidsAt_withBucket]
    split
    next hslot =>
      obtain ⟨rfl, rfl⟩ := hslot
      rw [assertFact_of_mem h]
      rfl
    next => rfl
  · have hrest : (w.file o).saidsAt c s
        = (w.withBucket o.event.controller o.event.sequence
            (w.bucket o.event.controller o.event.sequence
              ++ [⟨o.event, o.receipts, o.firstSeen⟩])).saidsAt c s := by
      rw [file_of_not_mem h]
      dsimp only
      split
      · rfl
      · rfl
    rw [hrest, saidsAt_withBucket]
    split
    next hslot =>
      obtain ⟨rfl, rfl⟩ := hslot
      rw [assertFact_of_not_mem h, List.map_append]
      rfl
    next => rfl

/-- Either no signal goes out, and the identifier was known or is the
first of its slot, or one goes out with the first two of the slot. -/
theorem file_cases (w : Watcher) (o : Observation) :
    ((w.file o).signals = w.signals
        ∧ (w.file o).duplicityDetected = w.duplicityDetected
        ∧ (o.event.said ∈ w.saidsAt o.event.controller o.event.sequence
          ∨ w.saidsAt o.event.controller o.event.sequence = []))
      ∨ ∃ g rest, (w.file o).signals = w.signals ++ [g]
        ∧ (w.file o).duplicityDetected = insert o.event.controller w.duplicityDetected
        ∧ g.controller = o.event.controller
        ∧ g.sequence = o.event.sequence
        ∧ (w.file o).saidsAt o.event.controller o.event.sequence
          = g.fork.1 :: g.fork.2 :: rest := by
  by_cases h : o.event.said ∈ w.saidsAt o.event.controller o.event.sequence
  · left
    rw [file_of_mem h]
    exact ⟨rfl, rfl, .inl h⟩
  · have hslot := saidsAt_file w o o.event.controller o.event.sequence
    rw [if_pos ⟨rfl, rfl⟩, assertFact_of_not_mem h] at hslot
    rw [hslot, file_of_not_mem h]
    unfold saidsAt
    cases hb : w.bucket o.event.controller o.event.sequence with
    | nil => exact .inl ⟨rfl, rfl, .inr rfl⟩
    | cons a rest =>
      right
      cases rest with
      | nil => exact ⟨_, [], rfl, rfl, rfl, rfl, rfl⟩
      | cons b rest =>
        exact ⟨_, _, rfl, rfl, rfl, rfl, rfl⟩

end Watcher

-- ==== the runs

section

variable (prims : Primitives)

/-- An event with this identifier was observed at the slot: it was handed
to the watcher and passed its checks. -/
def Sighted (obs : List Observation) (c : ControllerAid) (s : UInt64) (said : Said) : Prop :=
  ∃ o ∈ obs, Watcher.checkObservation prims o = .ok ()
    ∧ o.event.controller = c ∧ o.event.sequence = s ∧ o.event.said = said

/-- Two different identifiers were sighted at the slot. -/
def Forked (obs : List Observation) (c : ControllerAid) (s : UInt64) : Prop :=
  ∃ a b, a ≠ b ∧ Sighted prims obs c s a ∧ Sighted prims obs c s b

/-- The watcher reports the controllers that forked and no others, and
every branch of a fork appears in a signal. -/
def DuplicityComplete (obs : List Observation) (w : Watcher) : Prop :=
  (∀ c, c ∈ w.duplicityDetected ↔ ∃ s, Forked prims obs c s)
    ∧ ∀ c s, Forked prims obs c s → ∀ said, Sighted prims obs c s said →
      ∃ g ∈ w.signals, g.controller = c ∧ g.sequence = s ∧ (g.fork.1 = said ∨ g.fork.2 = said)

/-- No slot has three different identifiers. -/
def TwoBranches (obs : List Observation) : Prop :=
  ∀ c s said₁ said₂ said₃, Sighted prims obs c s said₁ →
    Sighted prims obs c s said₂ → Sighted prims obs c s said₃ →
    said₁ = said₂ ∨ said₁ = said₃ ∨ said₂ = said₃

/-- What a watcher knows after its observations. -/
structure Tracks (obs : List Observation) (w : Watcher) : Prop where
  filed : ∀ c s said, said ∈ w.saidsAt c s ↔ Sighted prims obs c s said
  nodup : ∀ c s, (w.saidsAt c s).Nodup
  detected : ∀ c, c ∈ w.duplicityDetected ↔ ∃ s, 2 ≤ (w.saidsAt c s).length
  signal_fork : ∀ g ∈ w.signals, ∃ rest,
    w.saidsAt g.controller g.sequence = g.fork.1 :: g.fork.2 :: rest
  signalled : ∀ c s, 2 ≤ (w.saidsAt c s).length →
    ∃ g ∈ w.signals, g.controller = c ∧ g.sequence = s

end

section

variable {prims : Primitives} {obs : List Observation} {w : Watcher}

theorem sighted_append {o : Observation} {c : ControllerAid} {s : UInt64} {said : Said} :
    Sighted prims (obs ++ [o]) c s said
      ↔ Sighted prims obs c s said
        ∨ (Watcher.checkObservation prims o = .ok ()
          ∧ o.event.controller = c ∧ o.event.sequence = s
          ∧ o.event.said = said) := by
  unfold Sighted
  constructor
  · rintro ⟨o', ho', h⟩
    rcases List.mem_append.1 ho' with ho' | ho'
    · exact .inl ⟨o', ho', h⟩
    · rw [List.mem_singleton.1 ho'] at h
      exact .inr h
  · rintro (⟨o', ho', h⟩ | h)
    · exact ⟨o', List.mem_append_left _ ho', h⟩
    · exact ⟨o, by simp, h⟩

namespace Tracks

variable {o : Observation}

theorem refused (h : Tracks prims obs w) (hcheck : Watcher.checkObservation prims o ≠ .ok ()) :
    Tracks prims (obs ++ [o]) w :=
  { h with
    filed := fun c s said => by
      rw [h.filed, sighted_append]
      constructor
      · exact .inl
      · rintro (hs | ⟨hok, -⟩)
        · exact hs
        · exact absurd hok hcheck }

/-- Slots only grow, and keep their first two identifiers. -/
theorem first_two_file (w : Watcher) (o : Observation) {c : ControllerAid}
    {s : UInt64} {a b : Said} {rest : List Said} (h : w.saidsAt c s = a :: b :: rest) :
    ∃ rest', (w.file o).saidsAt c s = a :: b :: rest' := by
  rw [Watcher.saidsAt_file, h]
  split
  · obtain ⟨later, hlater⟩ := assertFact_eq_append (a :: b :: rest) o.event.said
    exact ⟨rest ++ later, hlater⟩
  · exact ⟨rest, rfl⟩

/-- Where no signal goes out, no slot comes to hold two identifiers. -/
theorem two_le_file_iff (h : o.event.said ∈ w.saidsAt o.event.controller o.event.sequence
      ∨ w.saidsAt o.event.controller o.event.sequence = []) (c : ControllerAid) (s : UInt64) :
    2 ≤ ((w.file o).saidsAt c s).length ↔ 2 ≤ (w.saidsAt c s).length := by
  rw [Watcher.saidsAt_file]
  split
  next hslot =>
    obtain ⟨rfl, rfl⟩ := hslot
    rcases h with h | h
    · rw [assertFact_of_mem h]
    · rw [h, assertFact_of_not_mem List.not_mem_nil]
      simp
  next => exact Iff.rfl

theorem filing (h : Tracks prims obs w) (hcheck : Watcher.checkObservation prims o = .ok ()) :
    Tracks prims (obs ++ [o]) (w.file o) where
  filed := fun c s said => by
    rw [Watcher.saidsAt_file, sighted_append, ← h.filed]
    split
    next hslot =>
      obtain ⟨rfl, rfl⟩ := hslot
      rw [mem_assertFact]
      simp [hcheck, eq_comm]
    next hslot =>
      constructor
      · exact .inl
      · rintro (hs | ⟨-, rfl, rfl, -⟩)
        · exact hs
        · exact absurd ⟨rfl, rfl⟩ hslot
  nodup := fun c s => by
    rw [Watcher.saidsAt_file]
    split
    · exact nodup_assertFact (h.nodup c s) _
    · exact h.nodup c s
  detected := fun c => by
    rcases Watcher.file_cases w o with ⟨-, hset, hquiet⟩
      | ⟨g, rest, -, hset, -, -, hslot⟩
    · rw [hset, h.detected]
      simp only [two_le_file_iff hquiet]
    · rw [hset, Finset.mem_insert, h.detected]
      constructor
      · rintro (rfl | ⟨s, hs⟩)
        · exact ⟨_, by rw [hslot]; simp⟩
        · refine ⟨s, le_trans hs ?_⟩
          rw [Watcher.saidsAt_file]
          split
          · obtain ⟨later, hlater⟩ := assertFact_eq_append (w.saidsAt c s) o.event.said
            rw [hlater, List.length_append]
            omega
          · exact le_rfl
      · rintro ⟨s, hs⟩
        by_cases hc : c = o.event.controller
        · exact .inl hc
        · rw [Watcher.saidsAt_file, if_neg fun h => hc h.1] at hs
          exact .inr ⟨s, hs⟩
  signal_fork := fun g hg => by
    rcases Watcher.file_cases w o with ⟨hsig, -, -⟩
      | ⟨g', rest, hsig, -, hc, hs, hslot⟩
    · rw [hsig] at hg
      obtain ⟨rest, hrest⟩ := h.signal_fork g hg
      exact first_two_file w o hrest
    · rw [hsig] at hg
      rcases List.mem_append.1 hg with hg | hg
      · obtain ⟨rest, hrest⟩ := h.signal_fork g hg
        exact first_two_file w o hrest
      · rw [List.mem_singleton.1 hg, hc, hs]
        exact ⟨rest, hslot⟩
  signalled := fun c s hlen => by
    rcases Watcher.file_cases w o with ⟨hsig, -, hquiet⟩
      | ⟨g, rest, hsig, -, hc, hs, -⟩
    · rw [hsig]
      exact h.signalled c s ((two_le_file_iff hquiet c s).1 hlen)
    · rw [hsig]
      by_cases hslot : c = o.event.controller ∧ s = o.event.sequence
      · exact ⟨g, by simp, hc.trans hslot.1.symm, hs.trans hslot.2.symm⟩
      · rw [Watcher.saidsAt_file, if_neg hslot] at hlen
        obtain ⟨g', hg', hg'c, hg's⟩ := h.signalled c s hlen
        exact ⟨g', List.mem_append_left _ hg', hg'c, hg's⟩

theorem call (h : Tracks prims obs w) (o : Observation) :
    Tracks prims (obs ++ [o]) (w.call prims o) := by
  unfold Watcher.call Watcher.observe
  cases hcheck : Watcher.checkObservation prims o with
  | error e => exact h.refused (by rw [hcheck]; exact nofun)
  | ok u => exact h.filing hcheck

theorem start (aid : WatcherAid) : Tracks prims [] (Watcher.new aid) where
  filed := fun c s said => by simp [Watcher.saidsAt, Watcher.bucket, Watcher.new, Sighted]
  nodup := fun c s => List.nodup_nil
  detected := fun c => by simp [Watcher.saidsAt, Watcher.bucket, Watcher.new]
  signal_fork := nofun
  signalled := fun c s h => by simp [Watcher.saidsAt, Watcher.bucket, Watcher.new] at h

/-- A slot forked exactly when it holds two identifiers. -/
theorem forked_iff (h : Tracks prims obs w) (c : ControllerAid) (s : UInt64) :
    Forked prims obs c s ↔ 2 ≤ (w.saidsAt c s).length := by
  have hnodup := h.nodup c s
  unfold Forked
  simp only [← h.filed]
  constructor
  · rintro ⟨a, b, hab, ha, hb⟩
    cases hl : w.saidsAt c s with
    | nil => grind
    | cons x l =>
      cases l with
      | nil => grind
      | cons y l => simp
  · intro hlen
    cases hl : w.saidsAt c s with
    | nil => rw [hl] at hlen; simp at hlen
    | cons x l =>
      cases l with
      | nil => rw [hl] at hlen; simp at hlen
      | cons y l =>
        rw [hl] at hnodup
        exact ⟨x, y, by grind, by simp, by simp⟩

end Tracks

theorem tracks_run (aid : WatcherAid) (obs : List Observation) :
    Tracks prims obs (run (Watcher.call prims) (Watcher.new aid) obs) :=
  run_induction (fun _ o _ h => h.call o) (Tracks.start aid) obs

/-- The signals of a slot name exactly its first two identifiers. -/
theorem Tracks.named_iff (h : Tracks prims obs w) {c : ControllerAid}
    {s : UInt64} {a b : Said} {rest : List Said}
    (hslot : w.saidsAt c s = a :: b :: rest) (said : Said) :
    (∃ g ∈ w.signals, g.controller = c ∧ g.sequence = s
      ∧ (g.fork.1 = said ∨ g.fork.2 = said)) ↔ said = a ∨ said = b := by
  constructor
  · rintro ⟨g, hg, rfl, rfl, hsaid⟩
    obtain ⟨rest', hrest⟩ := h.signal_fork g hg
    rw [hslot] at hrest
    injection hrest with ha hrest
    injection hrest with hb _
    rw [ha, hb]
    exact hsaid.imp Eq.symm Eq.symm
  · intro hsaid
    obtain ⟨g, hg, rfl, rfl⟩ := h.signalled c s (by rw [hslot]; simp)
    obtain ⟨rest', hrest⟩ := h.signal_fork g hg
    rw [hslot] at hrest
    injection hrest with ha hrest
    injection hrest with hb _
    refine ⟨g, hg, rfl, rfl, ?_⟩
    rw [← ha, ← hb]
    exact hsaid.imp Eq.symm Eq.symm

/-- Whatever the order of arrival, the reports of a watcher are complete
exactly when no slot was forked three ways. -/
theorem duplicity_complete_iff (prims : Primitives) (aid : WatcherAid) (obs : List Observation) :
    DuplicityComplete prims obs (run (Watcher.call prims) (Watcher.new aid) obs)
      ↔ TwoBranches prims obs := by
  have h : Tracks prims obs _ := tracks_run aid obs
  generalize run (Watcher.call prims) (Watcher.new aid) obs = w at h
  have hdetected : ∀ c, c ∈ w.duplicityDetected ↔ ∃ s, Forked prims obs c s := by
    intro c
    simp only [h.detected, h.forked_iff]
  unfold DuplicityComplete TwoBranches
  simp only [hdetected, implies_true, true_and, h.forked_iff, ← h.filed]
  constructor
  · intro hall c s x y z hx hy hz
    cases hl : w.saidsAt c s with
    | nil => grind
    | cons a l =>
      cases l with
      | nil => grind
      | cons b l =>
        -- all three are named, so all are among the first two
        have hnamed : ∀ said ∈ w.saidsAt c s, said = a ∨ said = b :=
          fun said hsaid => (h.named_iff hl said).1 (hall c s (by rw [hl]; simp) said hsaid)
        grind
  · intro htwo c s hlen said hsaid
    cases hl : w.saidsAt c s with
    | nil => rw [hl] at hlen; simp at hlen
    | cons a l =>
      cases l with
      | nil => rw [hl] at hlen; simp at hlen
      | cons b l =>
        have hnodup := h.nodup c s
        refine (h.named_iff hl said).2 ?_
        have := htwo c s a b said (by rw [hl]; simp) (by rw [hl]; simp) hsaid
        grind

end

-- ==== a third branch

def branch (anchors : Nat) : Observation :=
  { event := Primitives.sample.finalizeEvent (.interaction
      { v := "SBYTE10JSON", t := .interaction, d := ⟨0⟩, i := ⟨"BC"⟩, s := 1
        p := ⟨0⟩, a := List.replicate anchors ⟨⟨0⟩, none, none⟩ })
    receipts := [], firstSeen := 0, detectedAt := 0 }

/-- The third branch of a fork raises a signal that does not name it. -/
theorem third_branch_unnamed :
    ¬ DuplicityComplete Primitives.sample [branch 0, branch 1, branch 2]
      (run (Watcher.call Primitives.sample) (Watcher.new ⟨"W"⟩)
        [branch 0, branch 1, branch 2]) := by
  intro h
  have hseen : ∀ n ∈ [0, 1, 2], Sighted Primitives.sample
      [branch 0, branch 1, branch 2] ⟨"BC"⟩ 1 (branch n).event.said := by
    intro n hn
    refine ⟨branch n, ?_, ?_, rfl, rfl, rfl⟩
    · simp only [List.mem_cons, List.not_mem_nil, or_false] at hn ⊢
      rcases hn with rfl | rfl | rfl
      all_goals simp
    · simp only [List.mem_cons, List.not_mem_nil, or_false] at hn
      rcases hn with rfl | rfl | rfl
      all_goals decide +kernel
  have hfork : Forked Primitives.sample [branch 0, branch 1, branch 2]
      ⟨"BC"⟩ 1 :=
    ⟨_, _, by decide +kernel, hseen 0 (by simp), hseen 1 (by simp)⟩
  obtain ⟨g, hg, -, -, hnamed⟩ := h.2 _ _ hfork _ (hseen 2 (by simp))
  have hsignals : ∀ g ∈ (run (Watcher.call Primitives.sample)
      (Watcher.new ⟨"W"⟩) [branch 0, branch 1, branch 2]).signals,
      ¬ (g.fork.1 = (branch 2).event.said ∨ g.fork.2 = (branch 2).event.said) := by
    decide +kernel
  exact hsignals g hg hnamed

end OpenStandards.Keri

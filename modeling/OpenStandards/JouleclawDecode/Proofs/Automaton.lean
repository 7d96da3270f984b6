/-
What a run of an automaton computes.

The worklist of the epsilon closure puts no id on its stack twice, so it
has ended after `2 ^ 32` rounds, on any automaton (`closureLoop_isSome`).
What it leaves is the closure; so the state set after some bytes is the
set of the states that they lead to (`mem_runBytes`), and what is accepted
are the words of the automaton (`isMatch_iff_mem_accepts`).
-/
import OpenStandards.JouleclawDecode.Automaton
import OpenStandards.Lib.Paths

namespace OpenStandards.JouleclawDecode

open Lib

-- ==== byte classes

namespace ByteClass

theorem word_lt (c : ByteClass) (b : UInt8) : b.toNat / 64 < c.bits.length := by
  have hb := b.toNat_lt
  rw [c.size]
  omega

@[simp]
theorem contains_empty (b : UInt8) : empty.contains b = false :=
  Words.test_replicate_zero ..

theorem contains_add (c : ByteClass) (b d : UInt8) :
    (c.add b).contains d = (decide (d = b) || c.contains d) := by
  unfold contains add
  rw [Words.test_set (c.word_lt b)]
  congr 1
  rw [decide_eq_decide, UInt8.toNat_inj]

theorem contains_single (b d : UInt8) : (single b).contains d = decide (d = b) := by
  unfold single
  rw [contains_add, contains_empty, Bool.or_false]

@[simp]
theorem contains_unionWith (c d : ByteClass) (b : UInt8) :
    (c.unionWith d).contains b = (c.contains b || d.contains b) :=
  Words.test_union (by rw [c.size, d.size]) _

end ByteClass

-- ==== the graph

def Edge.Leads : Edge → Option UInt8 → StateId → Prop
  | .byteClass c t, some b, u => c.contains b = true ∧ u = t
  | .epsilon t, none, u => u = t
  | _, _, _ => False

namespace Nfa

def graph (n : Nfa) : Lib.Graph UInt8 StateId :=
  fun s l t => ∃ e ∈ n.edges s, e.Leads l t

/-- The automaton as a set of states with labelled steps. -/
def toεNFA (n : Nfa) : εNFA UInt8 StateId where
  step s l := { t | n.graph s l t }
  start := {n.start}
  accept := { t | t ∈ n.accepts }

variable {n : Nfa} {s t : StateId} {set : StateSet} {b : UInt8}
    {w : List UInt8}

theorem mem_epsilonTargets :
    t ∈ (n.edges s).filterMap Edge.epsilonTarget ↔ n.graph s none t := by
  rw [List.mem_filterMap]
  apply exists_congr
  intro e
  apply and_congr_right
  intro _
  cases e with
  | byteClass c u => simp [Edge.epsilonTarget, Edge.Leads]
  | epsilon u => simp [Edge.epsilonTarget, Edge.Leads, eq_comm]

-- ==== the closure

theorem size_stateSet_le (set : StateSet) : set.size ≤ 2 ^ 32 :=
  size_le (fun _ _ => UInt32.toNat_inj.1) UInt32.toNat_lt set

theorem closureLoop_isSome (n : Nfa) (set : StateSet) :
    (n.closureLoop (2 ^ 32) set set.toList.reverse).isSome := by
  apply Worklist.loop_isSome size_stateSet_le
  have hsize := size_stateSet_le set
  rw [List.length_reverse, Std.TreeSet.length_toList]
  omega

/-- A run that reads nothing. -/
theorem traces_nil_iff :
    Traces n.graph s [] t ↔ Relation.ReflTransGen
      (fun s t => t ∈ (n.edges s).filterMap Edge.epsilonTarget) s t := by
  constructor
  · suffices hgen : ∀ w, Traces n.graph s w t → w = [] →
        Relation.ReflTransGen (fun s t => t ∈ (n.edges s).filterMap Edge.epsilonTarget) s t from
      fun h => hgen [] h rfl
    intro w h
    induction h with
    | refl => exact fun _ => .refl
    | eps hE _ ih =>
      exact fun hw => .head (mem_epsilonTargets.2 hE) (ih hw)
    | letter _ _ _ => exact nofun
  · intro h
    induction h using Relation.ReflTransGen.head_induction_on with
    | refl => exact .refl t
    | head hE _ ih => exact .eps (mem_epsilonTargets.1 hE) ih

theorem mem_epsilonClosure : t ∈ n.epsilonClosure set ↔ ∃ s ∈ set, Traces n.graph s [] t := by
  unfold epsilonClosure
  obtain ⟨out, hout⟩ := Option.isSome_iff_exists.1 (n.closureLoop_isSome set)
  rw [hout, Option.getD_some, Worklist.mem_loop_iff hout]
  simp only [traces_nil_iff]

-- ==== steps

theorem mem_take (next : StateSet) (e : Edge) (t : StateId) :
    t ∈ take b next e ↔ t ∈ next ∨ e.Leads (some b) t := by
  cases e with
  | byteClass c u =>
    show t ∈ (if c.contains b then next.insert u else next)
      ↔ t ∈ next ∨ c.contains b = true ∧ t = u
    split
    case isTrue h =>
      rw [mem_insert_iff]
      simp [h]
    case isFalse h => simp [h]
  | epsilon u => simp [take, Edge.Leads]

theorem mem_step :
    t ∈ n.step set b ↔ ∃ s ∈ set, ∃ u, n.graph s (some b) u ∧ Traces n.graph u [] t := by
  have hnext : ∀ u, u ∈ set.toList.foldl
      (fun next s => (n.edges s).foldl (take b) next) ∅ ↔ ∃ s ∈ set, n.graph s (some b) u := by
    intro u
    have hedges : ∀ (next : StateSet) (s u : StateId),
        u ∈ (n.edges s).foldl (take b) next ↔ u ∈ next ∨ n.graph s (some b) u :=
      fun next s u => foldl_mem_iff (fun u (next : StateSet) => u ∈ next)
        mem_take next (n.edges s) u
    have hstates := foldl_mem_iff (fun u (next : StateSet) => u ∈ next) hedges ∅ set.toList u
    simpa [Std.TreeSet.mem_toList] using hstates
  unfold step
  rw [mem_epsilonClosure]
  constructor
  · rintro ⟨u, hu, htrace⟩
    obtain ⟨s, hs, hE⟩ := (hnext u).1 hu
    exact ⟨s, hs, u, hE, htrace⟩
  · rintro ⟨s, hs, u, hE, htrace⟩
    exact ⟨u, (hnext u).2 ⟨s, hs, hE⟩, htrace⟩

-- ==== runs

/-- Nothing more can be reached from the set without a byte. -/
def Saturated (n : Nfa) (set : StateSet) : Prop :=
  ∀ s ∈ set, ∀ t, Traces n.graph s [] t → t ∈ set

theorem saturated_epsilonClosure (n : Nfa) (set : StateSet) :
    n.Saturated (n.epsilonClosure set) := by
  intro s hs t ht
  obtain ⟨r, hr, hrs⟩ := mem_epsilonClosure.1 hs
  exact mem_epsilonClosure.2 ⟨r, hr, hrs.append ht⟩

/-- A run that reads a byte first gets to an edge that reads it. -/
theorem traces_cons_iff :
    Traces n.graph s (b :: w) t ↔ ∃ r u, Traces n.graph s [] r
      ∧ n.graph r (some b) u ∧ Traces n.graph u w t := by
  constructor
  · suffices hgen : ∀ x, Traces n.graph s x t → x = b :: w → ∃ r u,
        Traces n.graph s [] r ∧ n.graph r (some b) u ∧ Traces n.graph u w t from
      fun h => hgen _ h rfl
    intro x h
    induction h with
    | refl => exact nofun
    | eps hE _ ih =>
      intro hx
      obtain ⟨r, u, hr, hu, ht⟩ := ih hx
      exact ⟨r, u, .eps hE hr, hu, ht⟩
    | letter hE htail _ =>
      intro hx
      cases hx
      exact ⟨_, _, .refl _, hE, htail⟩
  · rintro ⟨r, u, hr, hE, ht⟩
    exact hr.append (.letter hE ht)

theorem traces_of_mem_step (hsat : n.Saturated set) :
    (∃ s ∈ n.step set b, Traces n.graph s w t) ↔ ∃ s ∈ set, Traces n.graph s (b :: w) t := by
  constructor
  · rintro ⟨s, hs, ht⟩
    obtain ⟨r, hr, u, hE, hus⟩ := mem_step.1 hs
    exact ⟨r, hr, .letter hE (hus.append ht)⟩
  · rintro ⟨s, hs, ht⟩
    obtain ⟨r, u, hsr, hE, hut⟩ := traces_cons_iff.1 ht
    have hr : r ∈ set := hsat s hs r hsr
    exact ⟨u, mem_step.2 ⟨r, hr, u, hE, .refl u⟩, hut⟩

/-- Where the run comes to an end, it has the states that the bytes lead
to. -/
theorem mem_runBytes {cur out : StateSet} (hsat : n.Saturated cur)
    (hrun : n.runBytes cur w = some out) :
    n.Saturated out ∧ ∀ t, t ∈ out ↔ ∃ s ∈ cur, Traces n.graph s w t := by
  induction w generalizing cur with
  | nil =>
    cases hrun
    refine ⟨hsat, fun t => ⟨fun ht => ⟨t, ht, .refl t⟩, ?_⟩⟩
    rintro ⟨s, hs, ht⟩
    exact hsat s hs t ht
  | cons b w ih =>
    dsimp only [runBytes] at hrun
    split at hrun
    case isTrue => cases hrun
    case isFalse =>
      have hstep : n.Saturated (n.step cur b) :=
        saturated_epsilonClosure n _
      obtain ⟨hsat', hmem⟩ := ih hstep hrun
      refine ⟨hsat', fun t => ?_⟩
      rw [hmem, traces_of_mem_step hsat]

/-- It comes to an end where the bytes lead somewhere. -/
theorem runBytes_isSome_iff {cur : StateSet} (hsat : n.Saturated cur) (hne : ∃ s, s ∈ cur) :
    (n.runBytes cur w).isSome ↔ ∃ t, ∃ s ∈ cur, Traces n.graph s w t := by
  induction w generalizing cur with
  | nil =>
    obtain ⟨s, hs⟩ := hne
    exact ⟨fun _ => ⟨s, s, hs, .refl s⟩, fun _ => rfl⟩
  | cons b w ih =>
    have hnext : (∃ t, ∃ s ∈ cur, Traces n.graph s (b :: w) t)
        ↔ ∃ t, ∃ s ∈ n.step cur b, Traces n.graph s w t :=
      exists_congr fun t => (traces_of_mem_step hsat).symm
    rw [hnext]
    dsimp only [runBytes]
    split
    case isTrue hempty =>
      have hnone : ∀ s, s ∉ n.step cur b := by
        intro s hs
        rw [Std.TreeSet.isEmpty_iff_forall_not_mem] at hempty
        exact hempty s hs
      constructor
      · exact nofun
      · rintro ⟨t, s, hs, -⟩
        exact absurd hs (hnone s)
    case isFalse hempty =>
      apply ih (saturated_epsilonClosure n _)
      by_contra hnone
      apply hempty
      rw [Std.TreeSet.isEmpty_iff_forall_not_mem]
      exact fun s hs => hnone ⟨s, hs⟩

theorem mem_startSet : t ∈ n.startSet ↔ Traces n.graph n.start [] t := by
  unfold startSet
  rw [mem_epsilonClosure]
  simp

theorem anyAccept_iff : n.anyAccept set = true ↔ ∃ t ∈ set, t ∈ n.accepts := by
  unfold anyAccept
  rw [List.any_eq_true]
  simp [Std.TreeSet.mem_toList]

def isMatch (n : Nfa) (w : List UInt8) : Bool :=
  match n.runBytes n.startSet w with
  | some out => n.anyAccept out
  | none => false

theorem traces_from_startSet :
    (∃ s ∈ n.startSet, Traces n.graph s w t) ↔ Traces n.graph n.start w t := by
  constructor
  · rintro ⟨s, hs, ht⟩
    exact (mem_startSet.1 hs).append ht
  · intro ht
    exact ⟨n.start, mem_startSet.2 (.refl _), ht⟩

theorem isMatch_iff : n.isMatch w = true ↔ ∃ t ∈ n.accepts, Traces n.graph n.start w t := by
  have hsat : n.Saturated n.startSet := saturated_epsilonClosure n _
  have hne : ∃ s, s ∈ n.startSet := ⟨n.start, mem_startSet.2 (.refl _)⟩
  unfold isMatch
  cases hrun : n.runBytes n.startSet w with
  | none =>
    have hnone := mt (runBytes_isSome_iff hsat hne).2
      (by rw [hrun]; exact nofun : ¬ (n.runBytes n.startSet w).isSome)
    constructor
    · exact nofun
    · rintro ⟨t, -, ht⟩
      exact absurd ⟨t, traces_from_startSet.2 ht⟩ hnone
  | some out =>
    have hmem := (mem_runBytes hsat hrun).2
    show n.anyAccept out = true ↔ _
    rw [anyAccept_iff]
    apply exists_congr
    intro t
    rw [hmem, traces_from_startSet, and_comm]

theorem mem_accepts_iff :
    w ∈ n.toεNFA.accepts ↔ ∃ t ∈ n.accepts, Traces n.graph n.start w t := by
  apply exists_congr
  intro t
  apply and_congr_right
  intro _
  exact (traces_iff_mem_evalFrom (M := n.toεNFA)).symm

/-- The bytes are accepted when they are a word of the automaton. -/
theorem isMatch_iff_mem_accepts : n.isMatch w = true ↔ w ∈ n.toεNFA.accepts :=
  isMatch_iff.trans mem_accepts_iff.symm

end Nfa

end OpenStandards.JouleclawDecode

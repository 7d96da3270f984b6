/-
What the clocks promise, and where they keep it.

A hybrid clock emits a timestamp behind everything it has emitted and seen
as long as the logical counter can move: a saturated counter is stuck at
one wall reading, and a peer can hand one over. `Room` is the condition on
one call, and a run is causal exactly along such calls.

The loops of `happens_before` decide the pointwise order. `concurrent` falls
back on the equality of the maps, which tells a zero that is written out
from one that is not; only so can two clocks miss their place in the order.
-/
import OpenStandards.Crdt.Merge

namespace OpenStandards.Crdt

open Lib

-- ==== hybrid clocks

/-- A timestamp of the word sizes, from another node. -/
def ClockCall.Foreign (node : ReplicaId) (call : ClockCall) : Prop :=
  ∀ t, call.observed? = some t → t.node ≠ node ∧ t.logical ≤ maxLogical

def ClockCall.Advances (c : HlcClock) (call : ClockCall) : Prop :=
  c.last < (call.perform c).1 ∧ ∀ t, call.observed? = some t → t < (call.perform c).1

/-- The counter can move: the wall clock has, or the counters that are
carried over are below the largest one. An observed counter may be the
largest where the node decides. -/
def ClockCall.Room (c : HlcClock) : ClockCall → Prop
  | .now wall => c.last.wall < wall ∨ c.last.logical < maxLogical
  | .update t wall =>
    (c.last.wall < max wall t.wall ∨ c.last.logical < maxLogical)
      ∧ (t.wall < max wall c.last.wall ∨ t.logical < maxLogical ∨ t.node < c.node)

namespace HlcClock

/-- What holds of every clock: its counter fits its word, and the last
timestamp is its own. -/
structure Sound (c : HlcClock) : Prop where
  logical : c.last.logical ≤ maxLogical
  node : c.last.node = c.node

theorem sound_new (node : ReplicaId) : (HlcClock.new node).Sound :=
  { logical := Nat.zero_le _, node := rfl }

theorem tickLogical_le (n : Nat) : tickLogical n ≤ maxLogical :=
  Nat.min_le_right _ _

theorem updateLogical_le (last observed : HybridLogicalClock) (w : Nat) :
    updateLogical last observed w ≤ maxLogical := by
  unfold updateLogical
  split
  · exact tickLogical_le _
  · split
    · exact tickLogical_le _
    · split
      · exact tickLogical_le _
      · exact Nat.zero_le _

theorem sound_step (c : HlcClock) (call : ClockCall) : (call.step c).Sound := by
  cases call with
  | now wall =>
    refine ⟨?_, ?_⟩
    · change (if c.last.wall < wall then _ else _ : HybridLogicalClock).logical ≤ _
      split
      · exact Nat.zero_le _
      · exact tickLogical_le _
    · change (if c.last.wall < wall then _ else _ : HybridLogicalClock).node = c.node
      split
      · rfl
      · rfl
  | update observed wall =>
    exact ⟨updateLogical_le .., rfl⟩

theorem node_step (c : HlcClock) (call : ClockCall) : (call.step c).node = c.node := by
  cases call <;> rfl

/-- A clock remembers what it emitted. -/
theorem last_step (c : HlcClock) (call : ClockCall) :
    (call.step c).last = (call.perform c).1 := by
  cases call <;> rfl

variable {c : HlcClock}

theorem lt_now_iff (h : c.Sound) (wall : Nat) :
    c.last < (c.now wall).1 ↔ c.last.wall < wall ∨ c.last.logical < maxLogical := by
  have hnode : ¬ c.last.node < c.node := by
    rw [h.node]
    exact lt_irrefl _
  have hlogical := h.logical
  rw [HybridLogicalClock.lt_iff]
  unfold now
  by_cases hw : c.last.wall < wall
  · rw [if_pos hw]
    exact iff_of_true (.inl hw) (.inl hw)
  · rw [if_neg hw]
    dsimp only
    unfold tickLogical
    simp only [hnode, and_false, or_false, true_and]
    omega

theorem lt_update_iff (h : c.Sound) (t : HybridLogicalClock) (wall : Nat) :
    c.last < (c.update t wall).1
      ↔ c.last.wall < max wall t.wall ∨ c.last.logical < maxLogical := by
  have hnode : ¬ c.last.node < c.node := by
    rw [h.node]
    exact lt_irrefl _
  have hlogical := h.logical
  rw [HybridLogicalClock.lt_iff]
  unfold update updateLogical tickLogical
  dsimp only
  simp only [hnode, and_false, or_false]
  split
  · omega
  · split
    · omega
    · omega

theorem observed_lt_update_iff (h : c.Sound) {t : HybridLogicalClock}
    (ht : t.logical ≤ maxLogical) (wall : Nat) :
    t < (c.update t wall).1
      ↔ t.wall < max wall c.last.wall ∨ t.logical < maxLogical ∨ t.node < c.node := by
  have hlogical := h.logical
  rw [HybridLogicalClock.lt_iff]
  unfold update updateLogical tickLogical
  dsimp only
  by_cases hnode : t.node < c.node
  · simp only [hnode, and_true, or_true, iff_true]
    split
    · omega
    · split
      · omega
      · split
        · omega
        · omega
  · simp only [hnode, and_false, or_false]
    split
    · omega
    · split
      · omega
      · split
        · omega
        · omega

theorem advances_iff (h : c.Sound) {call : ClockCall}
    (hforeign : call.Foreign c.node) : call.Advances c ↔ call.Room c := by
  cases call with
  | now wall =>
    refine Iff.trans ⟨fun ha => ha.1, fun ha => ⟨ha, nofun⟩⟩ (lt_now_iff h wall)
  | update t wall =>
    have ht := (hforeign t rfl).2
    refine Iff.trans ?_ (and_congr (lt_update_iff h t wall) (observed_lt_update_iff h ht wall))
    constructor
    · intro ha
      exact ⟨ha.1, ha.2 t rfl⟩
    · intro ha
      refine ⟨ha.1, fun t' ht' => ?_⟩
      rw [← Option.some.inj ht']
      exact ha.2

end HlcClock

namespace ClockCall

/-- In the whole run each timestamp is behind every one emitted before it,
and behind the one it was made with. -/
def Causal (c : HlcClock) (calls : List ClockCall) : Prop :=
  ∀ before call after, calls = before ++ call :: after →
    (∀ t ∈ emitted c before, t < (call.perform (run step c before)).1)
      ∧ ∀ t, call.observed? = some t → t < (call.perform (run step c before)).1

theorem emitted_append (c : HlcClock) (calls calls' : List ClockCall) :
    emitted c (calls ++ calls') = emitted c calls ++ emitted (run step c calls) calls' := by
  induction calls generalizing c with
  | nil => rfl
  | cons call calls ih =>
    change _ :: emitted (step c call) (calls ++ calls') = _
    rw [ih]
    rfl

theorem sound_run {c : HlcClock} (h : c.Sound) (calls : List ClockCall) :
    (run step c calls).Sound ∧ (run step c calls).node = c.node :=
  run_invariant (I := fun c' => c'.Sound ∧ c'.node = c.node)
    (fun s call hs _ => ⟨HlcClock.sound_step s call, (HlcClock.node_step s call).trans hs.2⟩)
    ⟨h, rfl⟩ (along_trivial c calls)

theorem emitted_le_last {c : HlcClock} {calls : List ClockCall}
    (h : Along step (fun c call => call.Advances c) c calls) :
    (c.last ≤ (run step c calls).last)
      ∧ ∀ t ∈ emitted c calls, t ≤ (run step c calls).last := by
  induction calls generalizing c with
  | nil => exact ⟨le_refl _, nofun⟩
  | cons call calls ih =>
    obtain ⟨hle, hmem⟩ := ih h.2
    rw [HlcClock.last_step] at hle
    refine ⟨h.1.1.le.trans hle, fun t ht => ?_⟩
    rcases List.mem_cons.1 ht with rfl | ht
    · exact hle
    · exact hmem t ht

/-- The last timestamp is among those emitted, once one is. -/
theorem last_mem_emitted (c : HlcClock) (calls : List ClockCall) (call : ClockCall) :
    (run step c (calls ++ [call])).last ∈ emitted c (calls ++ [call]) := by
  rw [run_append, emitted_append]
  change (step (run step c calls) call).last ∈ _
  rw [HlcClock.last_step]
  exact List.mem_append_right _ (List.mem_singleton_self _)

/-- The timestamps of a new clock are causal exactly along calls that find
room: everything it emits is behind all it has emitted and observed. -/
theorem causal_iff (node : ReplicaId) {calls : List ClockCall}
    (hforeign : ∀ call ∈ calls, call.Foreign node) :
    Causal (HlcClock.new node) calls
      ↔ Along step (fun c call => call.Room c) (HlcClock.new node) calls := by
  have hsound := fun before : List ClockCall =>
    sound_run (HlcClock.sound_new node) before
  have hcall : ∀ before call after, calls = before ++ call :: after →
      (call.Advances (run step (HlcClock.new node) before)
        ↔ call.Room (run step (HlcClock.new node) before)) := by
    intro before call after heq
    refine HlcClock.advances_iff (hsound before).1 ?_
    rw [(hsound before).2]
    exact hforeign call (by rw [heq]; simp)
  rw [along_iff_split]
  constructor
  · intro h before call after heq
    obtain ⟨hlast, hobserved⟩ := h before call after heq
    refine (hcall before call after heq).1 ⟨?_, hobserved⟩
    rcases List.eq_nil_or_concat before with rfl | ⟨done, last, rfl⟩
    · -- nothing was emitted yet, and the counter of a new clock is zero
      have hzero : (HlcClock.new node).last.logical < maxLogical :=
        (by decide : 0 < maxLogical)
      cases call with
      | now wall =>
        exact (HlcClock.lt_now_iff (hsound []).1 wall).2 (.inr hzero)
      | update t wall =>
        exact (HlcClock.lt_update_iff (hsound []).1 t wall).2 (.inr hzero)
    · rw [List.concat_eq_append]
      rw [List.concat_eq_append] at hlast
      exact hlast _ (last_mem_emitted _ done last)
  · intro h before call after heq
    have hadvances := (hcall before call after heq).2 (h before call after heq)
    have hbefore : Along step (fun c call => call.Advances c) (HlcClock.new node) before := by
      refine along_iff_split.2 fun b c a hb => ?_
      have hsplit : calls = b ++ c :: (a ++ call :: after) := by
        rw [heq, hb, List.append_assoc]
        rfl
      exact (hcall b c _ hsplit).2 (h b c _ hsplit)
    refine ⟨fun t ht => ?_, hadvances.2⟩
    exact ((emitted_le_last hbefore).2 t ht).trans_lt hadvances.1

/-- A clock that is moved by a peer and by a wall that runs backwards. -/
theorem backwards_causal :
    Causal (HlcClock.new ⟨1⟩)
      [.now 100, .update ⟨500, 3, ⟨2⟩⟩ 90, .now 80, .now 600] := by
  have hforeign : ∀ call ∈ [ClockCall.now 100, .update ⟨500, 3, ⟨2⟩⟩ 90,
      .now 80, .now 600], call.Foreign ⟨1⟩ := by
    intro call hcall t ht
    simp only [List.mem_cons, List.not_mem_nil, or_false] at hcall
    rcases hcall with rfl | rfl | rfl | rfl
    · cases ht
    · rw [← Option.some.inj ht]
      exact ⟨by decide, by decide⟩
    · cases ht
    · cases ht
  exact (causal_iff ⟨1⟩ hforeign).2 ⟨.inl (by decide),
    ⟨.inl (by decide), .inr (.inl (by decide))⟩, .inr (by decide),
    .inl (by decide), trivial⟩

/-- A peer of a larger node hands over the largest counter: the update is
not behind it, and the next timestamp is the same again. -/
theorem saturated_stuck :
    ¬ Causal (HlcClock.new ⟨1⟩) [.update ⟨7, 4294967295, ⟨2⟩⟩ 0, .now 7]
      ∧ emitted (HlcClock.new ⟨1⟩) [.update ⟨7, 4294967295, ⟨2⟩⟩ 0, .now 7]
        = [⟨7, 4294967295, ⟨1⟩⟩, ⟨7, 4294967295, ⟨1⟩⟩] := by
  refine ⟨fun h => ?_, by decide⟩
  have hbad := (h [] _ _ rfl).2 ⟨7, 4294967295, ⟨2⟩⟩ rfl
  exact absurd hbad (by decide)

end ClockCall

-- ==== vector clocks

namespace VectorClock

variable {a b : VectorClock}

theorem get_of_mem {e : Sigma fun _ : ReplicaId => Nat}
    (h : e ∈ a.entries.entries) : a.get e.1 = e.2 := by
  unfold get
  rw [AList.mem_lookup_iff.2 h]
  rfl

/-- A number that is not zero is written out. -/
theorem exists_entry {r : ReplicaId} (h : 0 < a.get r) :
    ⟨r, a.get r⟩ ∈ a.entries.entries := by
  unfold get at h ⊢
  cases hr : a.entries.lookup r with
  | none =>
    rw [hr] at h
    exact absurd h (lt_irrefl 0)
  | some n => exact AList.mem_lookup_iff.1 hr

/-- The first loop runs through where no entry is larger. -/
theorem noLarger_eq_some {other : VectorClock}
    {es : List (Sigma fun _ : ReplicaId => Nat)} {strict result : Bool} :
    noLarger other es strict = some result
      ↔ (∀ e ∈ es, e.2 ≤ other.get e.1)
        ∧ (result = true ↔ strict = true ∨ ∃ e ∈ es, e.2 < other.get e.1) := by
  induction es generalizing strict with
  | nil =>
    change some strict = some result ↔ _
    rw [Option.some.injEq]
    constructor
    · intro h
      exact ⟨nofun, by simp [h]⟩
    · intro h
      exact Bool.eq_iff_iff.2 (by simpa using h.2.symm)
  | cons e es ih =>
    unfold noLarger
    by_cases hlt : other.get e.1 < e.2
    · rw [if_pos hlt]
      refine iff_of_false nofun fun h => ?_
      exact absurd (h.1 e List.mem_cons_self) (not_le.2 hlt)
    · rw [if_neg hlt, ih]
      simp only [List.forall_mem_cons, List.exists_mem_cons_iff,
        Bool.or_eq_true, decide_eq_true_eq, not_lt.1 hlt, true_and,
        or_assoc]

/-- The loops decide the pointwise order. -/
theorem happensBefore_iff :
    a.happensBefore b = true ↔ (∀ r, a.get r ≤ b.get r) ∧ ∃ r, a.get r < b.get r := by
  have hle : (∀ e ∈ a.entries.entries, e.2 ≤ b.get e.1) ↔ ∀ r, a.get r ≤ b.get r := by
    constructor
    · intro h r
      rcases Nat.eq_zero_or_pos (a.get r) with hzero | hpos
      · rw [hzero]
        exact Nat.zero_le _
      · exact h _ (exists_entry hpos)
    · intro h e he
      rw [← get_of_mem he]
      exact h e.1
  have hgains : gains a b.entries.entries = true
      ↔ ∃ r, a.entries.lookup r = none ∧ 0 < b.get r := by
    unfold gains
    rw [List.any_eq_true]
    simp only [Bool.and_eq_true, Option.isNone_iff_eq_none, decide_eq_true_eq]
    constructor
    · intro h
      obtain ⟨e, he, hnone, hpos⟩ := h
      exact ⟨e.1, hnone, (get_of_mem he).symm ▸ hpos⟩
    · intro h
      obtain ⟨r, hnone, hpos⟩ := h
      exact ⟨_, exists_entry hpos, hnone, hpos⟩
  have hstrict : ((∃ e ∈ a.entries.entries, e.2 < b.get e.1) ∨ gains a b.entries.entries = true)
      ↔ ∃ r, a.get r < b.get r := by
    rw [hgains]
    constructor
    · intro h
      rcases h with ⟨e, he, hlt⟩ | ⟨r, hnone, hpos⟩
      · exact ⟨e.1, (get_of_mem he).symm ▸ hlt⟩
      · refine ⟨r, ?_⟩
        have hzero : a.get r = 0 := by
          unfold get
          rw [hnone]
          rfl
        rw [hzero]
        exact hpos
    · intro h
      obtain ⟨r, hlt⟩ := h
      cases hr : a.entries.lookup r with
      | none => exact .inr ⟨r, hr, by omega⟩
      | some n =>
        have hn : a.get r = n := by
          unfold get
          rw [hr]
          rfl
        rw [hn] at hlt
        exact .inl ⟨⟨r, n⟩, AList.mem_lookup_iff.1 hr, hlt⟩
  unfold happensBefore
  cases hloop : noLarger b a.entries.entries false with
  | none =>
    refine iff_of_false nofun fun h => ?_
    obtain ⟨hall, -⟩ := h
    have hsome : noLarger b a.entries.entries false
        = some (decide (∃ e ∈ a.entries.entries, e.2 < b.get e.1)) :=
      noLarger_eq_some.2 ⟨hle.2 hall, by simp⟩
    rw [hloop] at hsome
    cases hsome
  | some strict =>
    obtain ⟨hall, hresult⟩ := noLarger_eq_some.1 hloop
    rw [← hle, ← hstrict, Bool.or_eq_true, hresult]
    simp only [Bool.false_eq_true, false_or]
    exact ⟨fun h => ⟨hall, h⟩, fun h => h.2⟩

theorem same_iff : a.same b = true ↔ ∀ r, a.entries.lookup r = b.entries.lookup r := by
  unfold same
  rw [List.all_eq_true]
  simp only [decide_eq_true_eq, List.mem_append]
  constructor
  · intro h r
    by_cases hmem : r ∈ a.entries.keys ∨ r ∈ b.entries.keys
    · exact h r hmem
    · rw [not_or] at hmem
      rw [AList.lookup_eq_none.2 hmem.1, AList.lookup_eq_none.2 hmem.2]
  · intro h r _
    exact h r

theorem get_merge (a b : VectorClock) (r : ReplicaId) :
    (a.merge b).get r = max (a.get r) (b.get r) := by
  have hfold : ∀ (es : List (Sigma fun _ : ReplicaId => Nat))
      (vc : VectorClock), es.NodupKeys →
      (es.foldl (fun vc e => vc.observe e.1 e.2) vc).get r
        = max (vc.get r) ((es.dlookup r).getD 0) := by
    intro es
    induction es with
    | nil =>
      intro vc _
      exact (Nat.max_zero _).symm
    | cons e es ih =>
      intro vc hnd
      obtain ⟨k, n⟩ := e
      rw [List.nodupKeys_cons] at hnd
      rw [List.foldl_cons, ih _ hnd.2, get_observe]
      by_cases hr : r = k
      · subst hr
        rw [if_pos rfl, List.dlookup_cons_eq, List.dlookup_eq_none.2 hnd.1]
        exact Nat.max_zero _
      · rw [if_neg hr, List.dlookup_cons_ne _ _ hr]
  exact hfold b.entries.entries a b.entries.nodupKeys

/-- How two clocks can stand to each other. -/
inductive Standing where
  | before
  | after
  | equal
  | concurrent

/-- The code, or the numbers read by `get`, say so. -/
def Standing.Holds (a b : VectorClock) : Standing → Prop
  | .before => a.happensBefore b = true
  | .after => b.happensBefore a = true
  | .equal => ∀ r, a.get r = b.get r
  | .concurrent => a.concurrent b = true

/-- The comparisons are those of the pointwise order, two clocks stand in
one way to each other, and the merge is their least upper bound. -/
structure OrdersPointwise (a b : VectorClock) : Prop where
  before : a.happensBefore b = true ↔ (∀ r, a.get r ≤ b.get r) ∧ ∃ r, a.get r < b.get r
  concurrent : a.concurrent b = true ↔ ¬ (∀ r, a.get r ≤ b.get r) ∧ ¬ ∀ r, b.get r ≤ a.get r
  one : ∃ s : Standing, s.Holds a b ∧ ∀ s' : Standing, s'.Holds a b → s' = s
  upper : ∀ r, a.get r ≤ (a.merge b).get r ∧ b.get r ≤ (a.merge b).get r
  least : ∀ c : VectorClock, (∀ r, a.get r ≤ c.get r) →
    (∀ r, b.get r ≤ c.get r) → ∀ r, (a.merge b).get r ≤ c.get r

def WrittenAlike (a b : VectorClock) : Prop :=
  (∀ r, a.get r = b.get r) → ∀ r, a.entries.lookup r = b.entries.lookup r

theorem concurrent_eq_true :
    a.concurrent b = true
      ↔ ¬ a.happensBefore b = true ∧ ¬ b.happensBefore a = true ∧ ¬ a.same b = true := by
  unfold concurrent
  simp only [Bool.and_eq_true, Bool.not_eq_true', Bool.not_eq_true, and_assoc]

/-- Where neither clock is below the other, `concurrent` says so. -/
theorem concurrent_of_incomparable (hab : ¬ ∀ r, a.get r ≤ b.get r)
    (hba : ¬ ∀ r, b.get r ≤ a.get r) : a.concurrent b = true := by
  refine concurrent_eq_true.2 ⟨fun h => hab (happensBefore_iff.1 h).1,
    fun h => hba (happensBefore_iff.1 h).1, fun h => hab fun r => ?_⟩
  unfold get
  rw [same_iff.1 h r]

theorem incomparable_of_concurrent (hw : WrittenAlike a b) (h : a.concurrent b = true) :
    ¬ (∀ r, a.get r ≤ b.get r) ∧ ¬ ∀ r, b.get r ≤ a.get r := by
  obtain ⟨hab, hba, hsame⟩ := concurrent_eq_true.1 h
  have hne : ¬ ∀ r, a.get r = b.get r := fun heq =>
    hsame (same_iff.2 (hw heq))
  refine ⟨fun hle => hne fun r => ?_, fun hle => hne fun r => ?_⟩
  · by_contra hr
    exact hab (happensBefore_iff.2
      ⟨hle, r, lt_of_le_of_ne (hle r) hr⟩)
  · by_contra hr
    exact hba (happensBefore_iff.2
      ⟨hle, r, lt_of_le_of_ne (hle r) (Ne.symm hr)⟩)

theorem exists_standing (a b : VectorClock) : ∃ s : Standing, s.Holds a b := by
  by_cases hab : ∀ r, a.get r ≤ b.get r
  · by_cases hba : ∀ r, b.get r ≤ a.get r
    · exact ⟨.equal, fun r => le_antisymm (hab r) (hba r)⟩
    · push Not at hba
      exact ⟨.before, happensBefore_iff.2 ⟨hab, hba⟩⟩
  · by_cases hba : ∀ r, b.get r ≤ a.get r
    · push Not at hab
      exact ⟨.after, happensBefore_iff.2 ⟨hba, hab⟩⟩
    · exact ⟨.concurrent, concurrent_of_incomparable hab hba⟩

theorem standing_unique (hw : WrittenAlike a b) {s s' : Standing}
    (h : s.Holds a b) (h' : s'.Holds a b) : s' = s := by
  have hbefore : ∀ {c d : VectorClock}, c.happensBefore d = true →
      (∀ r, c.get r ≤ d.get r) ∧ ¬ (∀ r, d.get r ≤ c.get r) := by
    intro c d h
    obtain ⟨hle, r, hlt⟩ := happensBefore_iff.1 h
    exact ⟨hle, fun hge => absurd (hge r) (not_le.2 hlt)⟩
  cases s with
  | before =>
    obtain ⟨hle, hge⟩ := hbefore h
    cases s' with
    | before => rfl
    | after => exact absurd (hbefore h').1 hge
    | equal => exact absurd (fun r => (h' r).ge) hge
    | concurrent => exact absurd hle (incomparable_of_concurrent hw h').1
  | after =>
    obtain ⟨hle, hge⟩ := hbefore h
    cases s' with
    | before => exact absurd (hbefore h').1 hge
    | after => rfl
    | equal => exact absurd (fun r => (h' r).le) hge
    | concurrent => exact absurd hle (incomparable_of_concurrent hw h').2
  | equal =>
    cases s' with
    | before => exact absurd (fun r => (h r).ge) (hbefore h').2
    | after => exact absurd (fun r => (h r).le) (hbefore h').2
    | equal => rfl
    | concurrent =>
      exact absurd (fun r => (h r).le) (incomparable_of_concurrent hw h').1
  | concurrent =>
    obtain ⟨hab, hba⟩ := incomparable_of_concurrent hw h
    cases s' with
    | before => exact absurd (hbefore h').1 hab
    | after => exact absurd (hbefore h').1 hba
    | equal => exact absurd (fun r => (h' r).le) hab
    | concurrent => rfl

/-- The comparison of two clocks is the pointwise order exactly when two
clocks that read the same have the same zeros written out. -/
theorem orders_pointwise_iff (a b : VectorClock) : OrdersPointwise a b ↔ WrittenAlike a b := by
  constructor
  · intro h heq
    have hab : ¬ a.concurrent b = true := fun hc =>
      (h.concurrent.1 hc).1 fun r => (heq r).le
    have hbefore : ∀ {c d : VectorClock}, (∀ r, c.get r = d.get r) →
        ¬ c.happensBefore d = true := by
      intro c d hcd hc
      obtain ⟨-, r, hlt⟩ := happensBefore_iff.1 hc
      exact absurd (hcd r) (Nat.ne_of_lt hlt)
    rw [concurrent_eq_true] at hab
    refine same_iff.1 ?_
    by_contra hsame
    exact hab ⟨hbefore heq, hbefore fun r => (heq r).symm, hsame⟩
  · intro hw
    obtain ⟨s, hs⟩ := exists_standing a b
    refine { before := happensBefore_iff,
             concurrent := ⟨incomparable_of_concurrent hw, fun h => ?_⟩,
             one := ⟨s, hs, fun s' hs' => standing_unique hw hs hs'⟩,
             upper := fun r => ?_, least := fun c ha hb r => ?_ }
    · exact concurrent_of_incomparable h.1 h.2
    · rw [get_merge]
      exact ⟨Nat.le_max_left _ _, Nat.le_max_right _ _⟩
    · rw [get_merge]
      exact Nat.max_le.2 ⟨ha r, hb r⟩

/-- An observation of nothing, and the new clock is concurrent with one that
reads the same. -/
theorem explicit_zero_concurrent :
    VectorClock.new.concurrent (VectorClock.new.observe ⟨1⟩ 0) = true
      ∧ (∀ r, VectorClock.new.get r = (VectorClock.new.observe ⟨1⟩ 0).get r)
      ∧ ¬ OrdersPointwise .new (VectorClock.new.observe ⟨1⟩ 0) := by
  have hread : ∀ r, VectorClock.new.get r = (VectorClock.new.observe ⟨1⟩ 0).get r := by
    intro r
    have hnone : ∀ r, VectorClock.new.get r = 0 := fun _ => rfl
    rw [get_observe, hnone, hnone]
    split
    · rfl
    · rfl
  refine ⟨by decide, hread, fun h => ?_⟩
  exact (h.concurrent.1 (by decide)).1 fun r => (hread r).le

end VectorClock

-- ==== causality

/-- The `n`-th tick of a replica. -/
abbrev Tick := ReplicaId × Nat

/-- A clock at some moment, with the ticks that had been heard of by then,
directly or through others. -/
structure Snapshot where
  clock : VectorClock
  past : Finset Tick

/-- The replicas' clocks, the copies of them that were sent, and how often
each replica has ticked. A copy may arrive any number of times, in any
order, or never. -/
structure Exchange where
  replicas : ReplicaId → Snapshot
  sent : List Snapshot
  ticks : ReplicaId → Nat

inductive ExchangeStep where
  | tick (r : ReplicaId)
  | send (r : ReplicaId)
  | receive (r : ReplicaId) (place : Nat)

namespace Exchange

def start : Exchange :=
  { replicas := fun _ => ⟨.new, ∅⟩, sent := [], ticks := fun _ => 0 }

def step (x : Exchange) : ExchangeStep → Exchange
  | .tick r =>
    let own := x.replicas r
    { x with
      replicas := Function.update x.replicas r
        ⟨(own.clock.tick r).1, insert (r, x.ticks r + 1) own.past⟩
      ticks := Function.update x.ticks r (x.ticks r + 1) }
  | .send r => { x with sent := x.sent ++ [x.replicas r] }
  | .receive r place =>
    match x.sent[place]? with
    | none => x
    | some s =>
      let own := x.replicas r
      { x with
        replicas := Function.update x.replicas r
          ⟨own.clock.merge s.clock, own.past ∪ s.past⟩ }

/-- The clocks there are: the replicas' and the copies. -/
def Circulates (x : Exchange) (s : Snapshot) : Prop :=
  s ∈ x.sent ∨ ∃ r, s = x.replicas r

end Exchange

namespace VectorClock

/-- No zero is written out. -/
def NoZero (vc : VectorClock) : Prop :=
  ∀ r, vc.entries.lookup r ≠ some 0

theorem NoZero.lookup_eq {vc : VectorClock} (h : vc.NoZero) (r : ReplicaId) :
    vc.entries.lookup r = if vc.get r = 0 then none else some (vc.get r) := by
  unfold get
  cases hr : vc.entries.lookup r with
  | none => rfl
  | some n =>
    have hn : n ≠ 0 := fun hz => h r (by rw [hr, hz])
    exact (if_neg hn).symm

theorem NoZero.writtenAlike {a b : VectorClock} (ha : a.NoZero)
    (hb : b.NoZero) : WrittenAlike a b := by
  intro h r
  rw [ha.lookup_eq, hb.lookup_eq, h r]

theorem NoZero.insert {vc : VectorClock} (h : vc.NoZero) {n : Nat} (hn : n ≠ 0) (r : ReplicaId) :
    NoZero { entries := vc.entries.insert r n } := by
  intro r'
  show (vc.entries.insert r n).lookup r' ≠ _
  rw [Table.lookup_insert_eq]
  split
  · exact fun heq => hn (Option.some.inj heq)
  · exact h r'

theorem NoZero.observe {vc : VectorClock} (h : vc.NoZero) {n : Nat}
    (hn : n ≠ 0) (r : ReplicaId) : (vc.observe r n).NoZero := by
  unfold VectorClock.observe
  split
  · exact h.insert hn r
  · exact h.insert (by omega) r

theorem NoZero.merge {a b : VectorClock} (ha : a.NoZero) (hb : b.NoZero) :
    (a.merge b).NoZero := by
  have hpos : ∀ e ∈ b.entries.entries, e.2 ≠ 0 := by
    intro e he hz
    refine hb e.1 ?_
    rw [AList.mem_lookup_iff.2 he, hz]
  have hfold : ∀ (es : List (Sigma fun _ : ReplicaId => Nat))
      (vc : VectorClock), (∀ e ∈ es, e.2 ≠ 0) → vc.NoZero →
      (es.foldl (fun vc e => vc.observe e.1 e.2) vc).NoZero := by
    intro es
    induction es with
    | nil => exact fun _ _ hvc => hvc
    | cons e es ih =>
      intro vc hes hvc
      exact ih _ (fun e' he' => hes e' (List.mem_cons_of_mem _ he'))
        (hvc.observe (hes e List.mem_cons_self) e.1)
  exact hfold _ a hpos ha

/-- The counter moves where it is not the largest. -/
theorem tick_eq {vc : VectorClock} {r : ReplicaId} (h : vc.get r < maxU64) :
    (vc.tick r).1 = { entries := vc.entries.insert r (vc.get r + 1) } := by
  unfold tick
  rw [Nat.mod_eq_of_lt (by omega)]

theorem get_tick {vc : VectorClock} {r : ReplicaId} (h : vc.get r < maxU64) (r' : ReplicaId) :
    (vc.tick r).1.get r' = if r' = r then vc.get r + 1 else vc.get r' := by
  rw [tick_eq h]
  show ((vc.entries.insert r _).lookup r').getD 0 = _
  rw [Table.lookup_insert_eq]
  split
  · rfl
  · rfl

end VectorClock

/-- The clock counts the ticks in its past, and writes no zero. -/
structure Snapshot.Exact (s : Snapshot) : Prop where
  past : ∀ r n, (r, n) ∈ s.past ↔ 1 ≤ n ∧ n ≤ s.clock.get r
  noZero : s.clock.NoZero

namespace Snapshot

variable {s t : Snapshot}

theorem exact_start : (⟨.new, ∅⟩ : Snapshot).Exact := by
  refine ⟨fun r n => iff_of_false (Finset.notMem_empty _) fun h => ?_,
    fun r h => nomatch h⟩
  have hzero : n ≤ 0 := h.2
  omega

theorem Exact.subset_iff (hs : s.Exact) (ht : t.Exact) :
    s.past ⊆ t.past ↔ ∀ r, s.clock.get r ≤ t.clock.get r := by
  constructor
  · intro h r
    rcases Nat.eq_zero_or_pos (s.clock.get r) with hzero | hpos
    · rw [hzero]
      exact Nat.zero_le _
    · exact ((ht.past r _).1 (h ((hs.past r _).2 ⟨hpos, le_refl _⟩))).2
  · rintro h ⟨r, n⟩ hn
    obtain ⟨hpos, hle⟩ := (hs.past r n).1 hn
    exact (ht.past r n).2 ⟨hpos, hle.trans (h r)⟩

theorem Exact.tick {r : ReplicaId} (hs : s.Exact) (h : s.clock.get r < maxU64) :
    Exact ⟨(s.clock.tick r).1, insert (r, s.clock.get r + 1) s.past⟩ := by
  refine ⟨fun r' n => ?_, ?_⟩
  · rw [VectorClock.get_tick h, Finset.mem_insert, hs.past, Prod.mk.injEq]
    by_cases hr : r' = r
    · subst hr
      rw [if_pos rfl, eq_self_iff_true, true_and]
      omega
    · rw [if_neg hr]
      exact or_iff_right fun heq => hr heq.1
  · show (s.clock.tick r).1.NoZero
    rw [VectorClock.tick_eq h]
    exact hs.noZero.insert (Nat.succ_ne_zero _) r

theorem Exact.merge (hs : s.Exact) (ht : t.Exact) :
    Exact ⟨s.clock.merge t.clock, s.past ∪ t.past⟩ := by
  refine ⟨fun r n => ?_, hs.noZero.merge ht.noZero⟩
  rw [VectorClock.get_merge, Finset.mem_union, hs.past, ht.past]
  omega

/-- What the comparisons say about two pasts. -/
structure TellsCausality (s t : Snapshot) : Prop where
  before : s.clock.happensBefore t.clock = true ↔ s.past ⊂ t.past
  concurrent : s.clock.concurrent t.clock = true ↔ ¬ s.past ⊆ t.past ∧ ¬ t.past ⊆ s.past
  same : s.clock.same t.clock = true ↔ s.past = t.past

theorem Exact.tellsCausality (hs : s.Exact) (ht : t.Exact) : TellsCausality s t := by
  have hst := hs.subset_iff ht
  have hts := ht.subset_iff hs
  have halike := hs.noZero.writtenAlike ht.noZero
  refine ⟨?_, ?_, ?_⟩
  · rw [VectorClock.happensBefore_iff, Finset.ssubset_def, hst, hts]
    push Not
    rfl
  · rw [hst, hts]
    exact ⟨VectorClock.incomparable_of_concurrent halike,
      fun h => VectorClock.concurrent_of_incomparable h.1 h.2⟩
  · rw [VectorClock.same_iff]
    constructor
    · intro h
      have hget : ∀ r, s.clock.get r = t.clock.get r := by
        intro r
        unfold VectorClock.get
        rw [h r]
      exact Finset.Subset.antisymm (hst.2 fun r => (hget r).le) (hts.2 fun r => (hget r).ge)
    · intro h
      exact halike fun r => le_antisymm (hst.1 h.subset r) (hts.1 h.superset r)

end Snapshot

namespace Exchange

/-- The counter that is ticked is not the largest. -/
def InWord (x : Exchange) : ExchangeStep → Prop
  | .tick r => x.ticks r < maxU64
  | _ => True

/-- What holds throughout an exchange: every clock is exact, a replica
counts all of its own ticks and nobody counts more. -/
structure Sound (x : Exchange) : Prop where
  exact : ∀ s, x.Circulates s → s.Exact
  own : ∀ r, (x.replicas r).clock.get r = x.ticks r
  le : ∀ s, x.Circulates s → ∀ r, s.clock.get r ≤ x.ticks r

variable {x : Exchange}

theorem sound_start : start.Sound := by
  have hnew : ∀ s, start.Circulates s → s = ⟨.new, ∅⟩ := by
    rintro s (hs | ⟨r, rfl⟩)
    · exact absurd hs List.not_mem_nil
    · rfl
  refine ⟨fun s hs => ?_, fun r => rfl, fun s hs r => ?_⟩
  · rw [hnew s hs]
    exact Snapshot.exact_start
  · rw [hnew s hs]
    exact Nat.zero_le _

theorem Sound.replace (h : x.Sound) {r : ReplicaId} {s : Snapshot} {n : Nat}
    (hs : s.Exact) (hn : x.ticks r ≤ n) (hown : s.clock.get r = n)
    (hle : ∀ r' ≠ r, s.clock.get r' ≤ x.ticks r') :
    Sound { x with
      replicas := Function.update x.replicas r s
      ticks := Function.update x.ticks r n } := by
  have hcases : ∀ t, Circulates { x with
      replicas := Function.update x.replicas r s
      ticks := Function.update x.ticks r n } t →
      t = s ∨ x.Circulates t := by
    rintro t (ht | ⟨r', rfl⟩)
    · exact Or.inr (Or.inl ht)
    · by_cases hr : r' = r
      · subst hr
        exact Or.inl (Function.update_self ..)
      · exact Or.inr (Or.inr ⟨r', Function.update_of_ne hr ..⟩)
  refine ⟨?_, ?_, ?_⟩
  · intro t ht
    rcases hcases t ht with rfl | ht
    · exact hs
    · exact h.exact t ht
  · intro r'
    show (Function.update x.replicas r s r').clock.get r' = Function.update x.ticks r n r'
    by_cases hr : r' = r
    · subst hr
      rw [Function.update_self, Function.update_self, hown]
    · rw [Function.update_of_ne hr, Function.update_of_ne hr, h.own]
  · intro t ht r'
    show t.clock.get r' ≤ Function.update x.ticks r n r'
    by_cases hr : r' = r
    · subst hr
      rw [Function.update_self]
      rcases hcases t ht with rfl | ht
      · exact hown.le
      · exact (h.le t ht r').trans hn
    · rw [Function.update_of_ne hr]
      rcases hcases t ht with rfl | ht
      · exact hle r' hr
      · exact h.le t ht r'

theorem sound_step (h : x.Sound) {st : ExchangeStep} (hst : x.InWord st) : (x.step st).Sound := by
  cases st with
  | tick r =>
    have hown := h.own r
    have hfit : (x.replicas r).clock.get r < maxU64 := hown ▸ hst
    refine h.replace ?_ (Nat.le_succ _) ?_ ?_
    · rw [← hown]
      exact (h.exact _ (Or.inr ⟨r, rfl⟩)).tick hfit
    · show ((x.replicas r).clock.tick r).1.get r = _
      rw [VectorClock.get_tick hfit, if_pos rfl, hown]
    · intro r' hr
      show ((x.replicas r).clock.tick r).1.get r' ≤ _
      rw [VectorClock.get_tick hfit, if_neg hr]
      exact h.le _ (Or.inr ⟨r, rfl⟩) r'
  | send r =>
    have hcases : ∀ s, (x.step (.send r)).Circulates s → x.Circulates s := by
      rintro s (hs | hs)
      · rcases List.mem_append.1 hs with hs | hs
        · exact Or.inl hs
        · exact Or.inr ⟨r, List.mem_singleton.1 hs⟩
      · exact Or.inr hs
    exact ⟨fun s hs => h.exact s (hcases s hs), h.own,
      fun s hs => h.le s (hcases s hs)⟩
  | receive r place =>
    cases hp : x.sent[place]? with
    | none =>
      have hstep : x.step (.receive r place) = x := by simp only [step, hp]
      rw [hstep]
      exact h
    | some s =>
      have hs : x.Circulates s := Or.inl (List.mem_of_getElem? hp)
      have hr : x.Circulates (x.replicas r) := Or.inr ⟨r, rfl⟩
      have hle : ∀ r', ((x.replicas r).clock.merge s.clock).get r' ≤ x.ticks r' := by
        intro r'
        rw [VectorClock.get_merge]
        exact Nat.max_le.2 ⟨h.le _ hr r', h.le s hs r'⟩
      have hown : ((x.replicas r).clock.merge s.clock).get r = x.ticks r := by
        rw [VectorClock.get_merge, h.own r]
        exact Nat.max_eq_left (h.le s hs r)
      have hsound := h.replace ((h.exact _ hr).merge (h.exact s hs))
        (le_refl _) hown fun r' _ => hle r'
      rw [Function.update_eq_self] at hsound
      simp only [step, hp]
      exact hsound

/-- **Vector clocks tell causality.** Replicas tick, send copies of their
clocks and merge the copies they receive, in any order, with copies lost
and received again. As long as no counter runs over, any two clocks of the
exchange compare as the sets of ticks they have heard of: one happens
before the other exactly where its past is the smaller one, they are
concurrent exactly where each has heard of a tick the other has not, and
they are equal exactly where the pasts are. -/
theorem clocks_tell_causality (steps : List ExchangeStep)
    (hword : Along step InWord start steps) (s t : Snapshot)
    (hs : (run step start steps).Circulates s) (ht : (run step start steps).Circulates t) :
    Snapshot.TellsCausality s t := by
  have hsound : (run step start steps).Sound :=
    run_invariant (fun x st hx hst => sound_step hx hst) sound_start hword
  exact (hsound.exact s hs).tellsCausality (hsound.exact t ht)

/-- A copy is received and followed by a tick, and a third replica ticks
on its own. -/
def relay : List ExchangeStep :=
  [.tick ⟨1⟩, .send ⟨1⟩, .receive ⟨2⟩ 0, .tick ⟨2⟩, .tick ⟨3⟩]

theorem relay_tells_causality :
    Snapshot.TellsCausality ((run step start relay).replicas ⟨2⟩)
      ((run step start relay).replicas ⟨3⟩) :=
  clocks_tell_causality relay
    ⟨show 0 < maxU64 by decide, trivial, trivial,
      show 0 < maxU64 by decide, show 0 < maxU64 by decide, trivial⟩ _ _
    (Or.inr ⟨⟨2⟩, rfl⟩) (Or.inr ⟨⟨3⟩, rfl⟩)

end Exchange

end OpenStandards.Crdt

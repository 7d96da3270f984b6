/-
The automaton of a pattern reads the language of the pattern.

Every piece of construction adds its states at the end of the state
vector, leaves the edges of the states that were there, and leads from its
first end to its last by the words of its node (`Frag`). That is kept by
each way of putting pieces together, for as long as the ids do not wrap: a
piece is only looked at where its states end at `2 ^ 32`.
-/
import OpenStandards.JouleclawDecode.Regex
import OpenStandards.JouleclawDecode.Proofs.Automaton

namespace OpenStandards.JouleclawDecode

open Lib Computability

-- ==== adding to a graph

namespace Nfa

/-- The states from one length of the vector to another. -/
def region (lo hi : Nat) : Set StateId :=
  { s | lo ≤ s.toNat ∧ s.toNat < hi }

variable {n : Nfa} {s r : StateId} {e : Edge}

theorem edges_of_le (h : n.states.length ≤ s.toNat) : n.edges s = [] :=
  by
  unfold edges
  rw [List.getD_eq_getElem?_getD, List.getElem?_eq_none h]
  rfl

theorem stuck_of_edges (h : n.edges s = []) : Stuck n.graph s := by
  rintro l t ⟨e, he, -⟩
  rw [h] at he
  exact List.not_mem_nil he

@[simp]
theorem edges_addState (n : Nfa) (s : StateId) : n.addState.1.edges s = n.edges s := by
  show (n.states ++ [[]]).getD s.toNat [] = n.states.getD s.toNat []
  simp only [List.getD_eq_getElem?_getD, List.getElem?_append]
  split
  case isTrue => rfl
  case isFalse h =>
    rw [List.getElem?_eq_none (Nat.not_lt.1 h)]
    rcases hi : s.toNat - n.states.length with _ | j
    all_goals simp

@[simp]
theorem length_addState (n : Nfa) : n.addState.1.states.length = n.states.length + 1 :=
  List.length_append

theorem toNat_addState (h : n.states.length < 2 ^ 32) : n.addState.2.toNat = n.states.length :=
  UInt32.toNat_ofNat_of_lt' h

@[simp]
theorem length_addEdge (n : Nfa) (r : StateId) (e : Edge) :
    (n.addEdge r e).states.length = n.states.length :=
  List.length_modify ..

theorem edges_addEdge (hr : r.toNat < n.states.length) (s : StateId) :
    (n.addEdge r e).edges s = if s = r then n.edges s ++ [e] else n.edges s := by
  show (n.states.modify r.toNat (· ++ [e])).getD s.toNat []
    = if s = r then n.states.getD s.toNat [] ++ [e]
      else n.states.getD s.toNat []
  simp only [List.getD_eq_getElem?_getD, List.getElem?_modify]
  by_cases hs : s = r
  · subst hs
    simp [hr]
  · have hne : ¬ r.toNat = s.toNat := fun h => hs (UInt32.toNat_inj.1 h).symm
    simp [hs, hne]

theorem graph_addEdge (hr : r.toNat < n.states.length) (l : Option UInt8) (t : StateId) :
    (n.addEdge r e).graph s l t ↔ n.graph s l t ∨ s = r ∧ e.Leads l t := by
  unfold graph
  rw [edges_addEdge hr]
  by_cases hs : s = r
  · simp [hs, or_and_right, exists_or]
  · simp [hs]

def link (n : Nfa) (pairs : List (StateId × StateId)) : Nfa :=
  pairs.foldl (fun n pair => n.addEdge pair.1 (.epsilon pair.2)) n

variable {pairs : List (StateId × StateId)}

@[simp]
theorem length_link (n : Nfa) (pairs : List (StateId × StateId)) :
    (n.link pairs).states.length = n.states.length := by
  induction pairs generalizing n with
  | nil => rfl
  | cons pair pairs ih => exact (ih _).trans (length_addEdge ..)

theorem start_link (n : Nfa) (pairs : List (StateId × StateId)) :
    (n.link pairs).start = n.start := by
  induction pairs generalizing n with
  | nil => rfl
  | cons pair pairs ih => exact ih _

theorem accepts_link (n : Nfa) (pairs : List (StateId × StateId)) :
    (n.link pairs).accepts = n.accepts := by
  induction pairs generalizing n with
  | nil => rfl
  | cons pair pairs ih => exact ih _

theorem links_link (hpairs : ∀ pair ∈ pairs, pair.1.toNat < n.states.length) :
    Links n.graph (n.link pairs).graph fun s t => (s, t) ∈ pairs := by
  induction pairs generalizing n with
  | nil =>
    intro s l t
    simp [link]
  | cons pair pairs ih =>
    have hrest : ∀ pair' ∈ pairs, pair'.1.toNat
        < (n.addEdge pair.1 (.epsilon pair.2)).states.length := by
      intro pair' hpair'
      rw [length_addEdge]
      exact hpairs pair' (List.mem_cons_of_mem _ hpair')
    intro s l t
    refine (ih hrest s l t).trans ?_
    show _ ∨ l = none ∧ (s, t) ∈ pairs ↔ _ ∨ l = none ∧ (s, t) ∈ pair :: pairs
    rw [graph_addEdge (hpairs pair List.mem_cons_self), List.mem_cons, Prod.ext_iff, or_assoc]
    apply or_congr_right
    cases l with
    | none => simp [Edge.Leads]
    | some b => simp [Edge.Leads]

theorem edges_link (hpairs : ∀ pair ∈ pairs, pair.1.toNat < n.states.length)
    (hs : ∀ pair ∈ pairs, s ≠ pair.1) : (n.link pairs).edges s = n.edges s := by
  induction pairs generalizing n with
  | nil => rfl
  | cons pair pairs ih =>
    have hhead := List.mem_cons_self (a := pair) (l := pairs)
    refine (ih ?_ ?_).trans ?_
    · intro pair' hpair'
      rw [length_addEdge]
      exact hpairs pair' (List.mem_cons_of_mem _ hpair')
    · exact fun pair' hpair' => hs pair' (List.mem_cons_of_mem _ hpair')
    · rw [edges_addEdge (hpairs pair hhead), if_neg (hs pair hhead)]

end Nfa

-- ==== a fragment

/-- What a piece of construction is to do: how many states it adds, the
words it reads, and whether all its states lead to its last end. -/
structure Piece where
  count : Nat
  language : Language UInt8
  alive : Prop

/-- What it does to the automaton: its states are a region of their own,
with the words of its language from end to end. -/
structure Frag (p : Piece) (n : Nfa) (r : Nfa × Ends) : Prop where
  size : r.1.states.length = n.states.length + p.count
  old : ∀ s, s.toNat < n.states.length → r.1.edges s = n.edges s
  closed : ∀ s l t, n.states.length ≤ s.toNat → r.1.graph s l t →
    t ∈ Nfa.region n.states.length r.1.states.length
  first : r.2.1 ∈ Nfa.region n.states.length r.1.states.length
  last : r.2.2 ∈ Nfa.region n.states.length r.1.states.length
  traces : ∀ w, Traces r.1.graph r.2.1 w r.2.2 ↔ w ∈ p.language
  live : p.alive → ∀ s ∈ Nfa.region n.states.length r.1.states.length,
    ∃ w, Traces r.1.graph s w r.2.2
  start : r.1.start = n.start
  accepts : r.1.accepts = n.accepts

/-- A piece of construction does so wherever there are ids for its
states. -/
def Grows (p : Piece) (f : Build) : Prop :=
  ∀ n : Nfa, n.states.length + p.count ≤ 2 ^ 32 → Frag p n (f n)

variable {p : Piece} {n n₁ : Nfa} {a b i o : StateId} {ps : List Piece}
    {fs : List Build}

theorem Frag.closedRegion {r : Nfa × Ends} (h : Frag p n r) :
    Closed r.1.graph (Nfa.region n.states.length r.1.states.length) :=
  fun s hs l t hE => h.closed s l t hs.1 hE

theorem Frag.kept {m : Nfa} {r : Nfa × Ends} (h : Frag p n r)
    (hold : ∀ s, s.toNat < r.1.states.length → m.edges s = r.1.edges s) :
    Closed m.graph (Nfa.region n.states.length r.1.states.length)
      ∧ ∀ s ∈ Nfa.region n.states.length r.1.states.length, ∀ w t,
        Traces m.graph s w t ↔ Traces r.1.graph s w t := by
  have hagree : ∀ s ∈ Nfa.region n.states.length r.1.states.length,
      ∀ l t, m.graph s l t ↔ r.1.graph s l t := by
    intro s hs l t
    unfold Nfa.graph
    rw [hold s hs.2]
  refine ⟨?_, ?_⟩
  · intro s hs l t hE
    exact h.closedRegion s hs l t ((hagree s hs l t).1 hE)
  · intro s hs w t
    exact traces_congr h.closedRegion hagree hs

/-- The states of either of two fragments are states of the whole. -/
theorem Frag.within {q : Piece} {n₂ : Nfa} (hp : Frag p n (n₁, a, b))
    (hq : Frag q n₁ (n₂, i, o)) :
    Nfa.region n.states.length n₁.states.length ⊆ Nfa.region n.states.length n₂.states.length
      ∧ Nfa.region n₁.states.length n₂.states.length
        ⊆ Nfa.region n.states.length n₂.states.length := by
  have hsize₁ : n₁.states.length = n.states.length + p.count := hp.size
  have hsize₂ : n₂.states.length = n₁.states.length + q.count := hq.size
  exact ⟨fun s hs => ⟨hs.1, Nat.lt_of_lt_of_le hs.2 (by omega)⟩,
    fun s hs => ⟨Nat.le_trans (by omega) hs.1, hs.2⟩⟩

/-- Two fragments with edges among their states are a fragment. -/
theorem Frag.linked {q m : Piece} {n₂ : Nfa} {s t : StateId}
    {pairs : List (StateId × StateId)} (hp : Frag p n (n₁, a, b))
    (hq : Frag q n₁ (n₂, i, o)) (hpairs : ∀ pair ∈ pairs,
      pair.1 ∈ Nfa.region n.states.length n₂.states.length
        ∧ pair.2 ∈ Nfa.region n.states.length n₂.states.length)
    (hcount : m.count = p.count + q.count) (hs : s ∈ Nfa.region n.states.length n₂.states.length)
    (ht : t ∈ Nfa.region n.states.length n₂.states.length)
    (htraces : ∀ w, Traces (n₂.link pairs).graph s w t ↔ w ∈ m.language)
    (hlive : m.alive → ∀ x ∈ Nfa.region n.states.length n₂.states.length,
      ∃ w, Traces (n₂.link pairs).graph x w t) :
    Frag m n (n₂.link pairs, s, t) := by
  have hsize₁ : n₁.states.length = n.states.length + p.count := hp.size
  have hsize₂ : n₂.states.length = n₁.states.length + q.count := hq.size
  obtain ⟨hleft, hright⟩ := hp.within hq
  have hinside : ∀ pair ∈ pairs, pair.1.toNat < n₂.states.length :=
    fun pair hpair => (hpairs pair hpair).1.2
  constructor
  case size =>
    rw [Nfa.length_link]
    omega
  case old =>
    intro x hx
    rw [Nfa.edges_link hinside, hq.old x (by omega)]
    · exact hp.old x hx
    · rintro pair hpair rfl
      exact Nat.not_le_of_lt hx (hpairs pair hpair).1.1
  case closed =>
    intro x l y hx hE
    rw [Nfa.length_link]
    rcases (Nfa.links_link hinside x l y).1 hE with hE₂ | ⟨-, hpair⟩
    · rcases Nat.lt_or_ge x.toNat n₁.states.length with h | h
      · exact hleft ((hp.kept hq.old).1 x ⟨hx, h⟩ l y hE₂)
      · exact hright (hq.closed x l y h hE₂)
    · exact (hpairs _ hpair).2
  case first =>
    rw [Nfa.length_link]
    exact hs
  case last =>
    rw [Nfa.length_link]
    exact ht
  case traces => exact htraces
  case live =>
    intro halive x hx
    rw [Nfa.length_link] at hx
    exact hlive halive x hx
  case start =>
    rw [Nfa.start_link]
    exact hq.start.trans hp.start
  case accepts =>
    rw [Nfa.accepts_link]
    exact hq.accepts.trans hp.accepts

/-- Two fresh states: nothing else changes, and they are stuck. -/
structure Fresh (n n' : Nfa) (a b : StateId) : Prop where
  size : n'.states.length = n.states.length + 2
  edges : ∀ s, n'.edges s = n.edges s
  first : a.toNat = n.states.length
  second : b.toNat = n.states.length + 1
  start : n'.start = n.start
  accepts : n'.accepts = n.accepts

namespace Fresh

variable {n n' m : Nfa} {a b : StateId}

theorem addStates (h : n.states.length + 2 ≤ 2 ^ 32) :
    Fresh n n.addState.1.addState.1 n.addState.2 n.addState.1.addState.2 where
  size := by simp
  edges s := by simp
  first := Nfa.toNat_addState (by omega)
  second := by
    rw [Nfa.toNat_addState, Nfa.length_addState]
    rw [Nfa.length_addState]
    omega
  start := rfl
  accepts := rfl

theorem ne (h : Fresh n n' a b) : a ≠ b := by
  intro hab
  have hfirst := h.first
  rw [hab, h.second] at hfirst
  omega

/-- There are no others between. -/
theorem eq_or_eq (h : Fresh n n' a b) {s : StateId}
    (hlo : n.states.length ≤ s.toNat) (hhi : s.toNat < n'.states.length) :
    s = a ∨ s = b := by
  have hsize := h.size
  have ha := h.first
  have hb := h.second
  rcases Nat.lt_or_ge s.toNat (n.states.length + 1) with hs | hs
  · exact Or.inl (UInt32.toNat_inj.1 (by omega))
  · exact Or.inr (UInt32.toNat_inj.1 (by omega))

theorem stuck (h : Fresh n n' a b)
    (hold : ∀ s, s.toNat < n'.states.length → m.edges s = n'.edges s) :
    Stuck m.graph a ∧ Stuck m.graph b := by
  have hsize := h.size
  have ha := h.first
  have hb := h.second
  constructor
  · apply Nfa.stuck_of_edges
    rw [hold a (by omega), h.edges]
    exact Nfa.edges_of_le (by omega)
  · apply Nfa.stuck_of_edges
    rw [hold b (by omega), h.edges]
    exact Nfa.edges_of_le (by omega)

theorem leaves (h : Fresh n n' a b) {s : StateId} (hs : n.states.length ≤ s.toNat) :
    Stuck n'.graph s := by
  apply Nfa.stuck_of_edges
  rw [h.edges]
  exact Nfa.edges_of_le hs

/-- The two are a fragment with no words. -/
theorem frag (h : Fresh n n' a b) : Frag ⟨2, 0, False⟩ n (n', a, b) := by
  have hsize := h.size
  have ha := h.first
  have hb := h.second
  constructor
  case size => exact hsize
  case old => exact fun s _ => h.edges s
  case closed => exact fun s l t hs hE => absurd hE (h.leaves hs l t)
  case first =>
    constructor
    all_goals
      dsimp only
      omega
  case last =>
    constructor
    all_goals
      dsimp only
      omega
  case traces =>
    intro w
    constructor
    · intro hw
      exact absurd (hw.of_stuck (h.leaves ha.ge)).2.symm h.ne
    · exact fun hw => absurd hw (Language.notMem_zero w)
  case live => exact False.elim
  case start => exact h.start
  case accepts => exact h.accepts

end Fresh

-- ==== single edges

/-- The words of one label: none, or a byte of a class. -/
def labelled (P : Option UInt8 → Prop) : Language UInt8 :=
  { w | ∃ l, P l ∧ w = l.toList }

theorem grows_edge {e : StateId → Edge} {P : Option UInt8 → Prop}
    (he : ∀ b l t, (e b).Leads l t ↔ P l ∧ t = b) :
    Grows ⟨2, labelled P, ∃ l, P l⟩ (.edge e) := by
  intro n hcount
  have hfresh := Fresh.addStates hcount
  generalize hn₂ : n.addState.1.addState.1 = n₂ at hfresh
  generalize ha : n.addState.2 = a at hfresh
  generalize hb : n.addState.1.addState.2 = b at hfresh
  have hrun : Build.edge e n = (n₂.addEdge a (e b), a, b) := by
    rw [← hn₂, ← ha, ← hb]
    rfl
  have hsize := hfresh.size
  have hanat := hfresh.first
  have hbnat := hfresh.second
  obtain ⟨hastuck, hbstuck⟩ := hfresh.stuck fun s _ => rfl
  have halt : a.toNat < n₂.states.length := by omega
  have hgraph : ∀ s l t, (n₂.addEdge a (e b)).graph s l t
      ↔ n₂.graph s l t ∨ s = a ∧ P l ∧ t = b := by
    intro s l t
    rw [Nfa.graph_addEdge halt, he]
  have hbstuck' : Stuck (n₂.addEdge a (e b)).graph b := by
    intro l t hE
    rcases (hgraph b l t).1 hE with hE | ⟨hba, -⟩
    · exact hbstuck l t hE
    · exact hfresh.ne hba.symm
  have hto : ∀ l, P l → Traces (n₂.addEdge a (e b)).graph a l.toList b := by
    intro l hl
    have hE := (hgraph a l b).2 (Or.inr ⟨rfl, hl, rfl⟩)
    cases l with
    | none => exact .eps hE (.refl b)
    | some c => exact .letter hE (.refl b)
  rw [hrun]
  constructor
  case size => rw [Nfa.length_addEdge, hsize]
  case old =>
    intro s hs
    have hsa : s ≠ a := fun h => by
      rw [h] at hs
      omega
    rw [Nfa.edges_addEdge halt, if_neg hsa, hfresh.edges]
  case closed =>
    intro s l t hs hE
    rcases (hgraph s l t).1 hE with hE | ⟨-, -, rfl⟩
    · refine absurd hE ?_
      have hnone : n₂.edges s = [] := by
        rw [hfresh.edges]
        exact Nfa.edges_of_le hs
      exact Nfa.stuck_of_edges hnone l t
    · rw [Nfa.length_addEdge]
      constructor
      all_goals omega
  case first =>
    show a ∈ Nfa.region n.states.length (n₂.addEdge a (e b)).states.length
    rw [Nfa.length_addEdge]
    constructor
    all_goals omega
  case last =>
    show b ∈ Nfa.region n.states.length (n₂.addEdge a (e b)).states.length
    rw [Nfa.length_addEdge]
    constructor
    all_goals omega
  case traces =>
    intro w
    constructor
    · intro h
      cases h with
      | refl => exact absurd rfl hfresh.ne
      | eps hE hrest =>
        rcases (hgraph _ _ _).1 hE with hE | ⟨-, hl, rfl⟩
        · exact absurd hE (hastuck _ _)
        · obtain ⟨rfl, -⟩ := hrest.of_stuck hbstuck'
          exact ⟨none, hl, rfl⟩
      | letter hE hrest =>
        rcases (hgraph _ _ _).1 hE with hE | ⟨-, hl, rfl⟩
        · exact absurd hE (hastuck _ _)
        · obtain ⟨rfl, -⟩ := hrest.of_stuck hbstuck'
          exact ⟨some _, hl, rfl⟩
    · rintro ⟨l, hl, rfl⟩
      exact hto l hl
  case live =>
    rintro ⟨l, hl⟩ s hs
    rw [Nfa.length_addEdge] at hs
    rcases hfresh.eq_or_eq hs.1 hs.2 with rfl | rfl
    · exact ⟨l.toList, hto l hl⟩
    · exact ⟨[], .refl _⟩
  case start => exact hfresh.start
  case accepts => exact hfresh.accepts

-- ==== wrapped pieces

def Piece.wrap (skip back : Bool) (p : Piece) : Piece :=
  ⟨p.count + 2, (if skip then 1 else 0) + laps back p.language, p.alive⟩

/-- The edges around a fragment. -/
def wrapping (skip back : Bool) (a b i o : StateId) : List (StateId × StateId) :=
  (a, i) :: ((if skip then [(a, b)] else []) ++ ((if back then [(o, i)] else []) ++ [(o, b)]))

theorem mem_wrapping {skip back : Bool} {s t : StateId} :
    (s, t) ∈ wrapping skip back a b i o ↔ Wraps skip back a b i o s t := by
  unfold wrapping Wraps
  cases skip <;> cases back <;>
    simp only [List.mem_cons, List.mem_append, List.not_mem_nil,
      Prod.ext_iff, Bool.false_eq_true, if_true, if_false, or_false,
      false_or, false_and, true_and] <;> tauto

theorem Grows.wrap {f : Build} (hf : Grows p f) (skip back : Bool) :
    Grows (p.wrap skip back) (.wrap skip back f) := by
  intro n hcount
  have hcount' : n.states.length + (p.count + 2) ≤ 2 ^ 32 := hcount
  have hfresh := Fresh.addStates (n := n) (by omega)
  generalize hn₂ : n.addState.1.addState.1 = n₂ at hfresh
  generalize ha : n.addState.2 = a at hfresh
  generalize hb : n.addState.1.addState.2 = b at hfresh
  have hsize := hfresh.size
  have hrun : Build.wrap skip back f n
      = ((f n₂).1.link (wrapping skip back a b (f n₂).2.1 (f n₂).2.2), a, b) := by
    rw [← hn₂, ← ha, ← hb]
    cases skip
    all_goals
      cases back
      all_goals rfl
  have hfrag := hf n₂ (by omega)
  generalize f n₂ = r at hfrag hrun
  obtain ⟨n₃, i, o⟩ := r
  dsimp only at hrun
  have hi : i ∈ Nfa.region n₂.states.length n₃.states.length := hfrag.first
  have ho : o ∈ Nfa.region n₂.states.length n₃.states.length := hfrag.last
  have hends := hfresh.frag
  obtain ⟨hleft, hright⟩ := hends.within hfrag
  have ha := hleft hends.first
  have hb := hleft hends.last
  have hpairs : ∀ pair ∈ wrapping skip back a b i o,
      pair.1 ∈ Nfa.region n.states.length n₃.states.length
        ∧ pair.2 ∈ Nfa.region n.states.length n₃.states.length := by
    rintro ⟨s, t⟩ hpair
    rcases mem_wrapping.1 hpair with ⟨rfl, rfl | ⟨-, rfl⟩⟩ | ⟨rfl, rfl | ⟨-, rfl⟩⟩
    · exact ⟨ha, hright hi⟩
    · exact ⟨ha, hb⟩
    · exact ⟨hright ho, hb⟩
    · exact ⟨hright ho, hright hi⟩
  have hlinks : Links n₃.graph (n₃.link (wrapping skip back a b i o)).graph
      (Wraps skip back a b i o) := by
    intro s l t
    refine (Nfa.links_link (fun pair hpair => (hpairs pair hpair).1.2) s l t).trans ?_
    show _ ∨ l = none ∧ (s, t) ∈ wrapping skip back a b i o ↔ _
    rw [mem_wrapping]
  have hin : Traces (n₃.link (wrapping skip back a b i o)).graph a [] i :=
    hlinks.traces (Or.inl ⟨rfl, Or.inl rfl⟩)
  have hout : Traces (n₃.link (wrapping skip back a b i o)).graph o [] b :=
    hlinks.traces (Or.inr ⟨rfl, Or.inl rfl⟩)
  rw [hrun]
  refine hends.linked hfrag hpairs (Nat.add_comm ..) ha hb (fun w => ?_) ?_
  · obtain ⟨hastuck, hbstuck⟩ := hfresh.stuck hfrag.old
    exact Lib.wrap hlinks hfrag.closedRegion hi ho
      (fun h => Nat.not_le_of_lt hends.first.2 h.1)
      (fun h => Nat.not_le_of_lt hends.last.2 h.1) hfresh.ne hastuck hbstuck
      hfrag.traces
  · intro halive
    have hpart : ∀ s ∈ Nfa.region n₂.states.length n₃.states.length,
        ∃ w, Traces (n₃.link (wrapping skip back a b i o)).graph s w b := by
      intro s hs
      obtain ⟨w, hw⟩ := hfrag.live halive s hs
      exact ⟨w ++ [], (hlinks.mono hw).append hout⟩
    -- a state of the whole is one of the two ends or a state of the part
    intro s hs
    rcases Nat.lt_or_ge s.toNat n₂.states.length with h | h
    · rcases hfresh.eq_or_eq hs.1 h with rfl | rfl
      · obtain ⟨w, hw⟩ := hpart i hi
        exact ⟨[] ++ w, hin.append hw⟩
      · exact ⟨[], .refl _⟩
    · exact hpart s ⟨h, hs.2⟩

-- ==== pieces in a series

def Piece.seq (p q : Piece) : Piece :=
  ⟨p.count + q.count, p.language * q.language, p.alive ∧ q.alive⟩

section

variable (f : Piece → Piece → Piece)

theorem Piece.count_foldl (hf : ∀ p q, (f p q).count = p.count + q.count)
    (ps : List Piece) (p : Piece) :
    (ps.foldl f p).count = p.count + (ps.map count).sum := by
  induction ps generalizing p with
  | nil => rfl
  | cons q qs ih =>
    rw [List.foldl_cons, ih, hf, List.map_cons, List.sum_cons, Nat.add_assoc]

theorem Piece.le_count_foldl (hf : ∀ p q, (f p q).count = p.count + q.count)
    (ps : List Piece) (p : Piece) : p.count ≤ (ps.foldl f p).count := by
  rw [count_foldl f hf]
  exact Nat.le_add_right ..

theorem Piece.alive_foldl (hf : ∀ p q, p.alive → q.alive → (f p q).alive)
    {ps : List Piece} {p : Piece} (hp : p.alive) (hps : ∀ q ∈ ps, q.alive) :
    (ps.foldl f p).alive := by
  induction ps generalizing p with
  | nil => exact hp
  | cons q qs ih =>
    exact ih (hf p q hp (hps q List.mem_cons_self))
      fun r hr => hps r (List.mem_cons_of_mem _ hr)

end

/-- A fragment after a fragment. -/
theorem Frag.seq {q : Piece} {g : Build} (hp : Frag p n (n₁, i, o))
    (hq : Grows q g) (hcount : n₁.states.length + q.count ≤ 2 ^ 32) :
    Frag (p.seq q) n ((g n₁).1.addEdge o (.epsilon (g n₁).2.1), i, (g n₁).2.2) := by
  have hfrag := hq n₁ hcount
  generalize g n₁ = r at hfrag
  obtain ⟨n₂, pin, pout⟩ := r
  show Frag (p.seq q) n (n₂.link [(o, pin)], i, pout)
  have hi : i ∈ Nfa.region n.states.length n₁.states.length := hp.first
  have ho : o ∈ Nfa.region n.states.length n₁.states.length := hp.last
  have hpin : pin ∈ Nfa.region n₁.states.length n₂.states.length :=
    hfrag.first
  have hpout : pout ∈ Nfa.region n₁.states.length n₂.states.length :=
    hfrag.last
  obtain ⟨hleft, hright⟩ := hp.within hfrag
  obtain ⟨hS, hkept⟩ := hp.kept hfrag.old
  have hpairs : ∀ pair ∈ [(o, pin)],
      pair.1 ∈ Nfa.region n.states.length n₂.states.length
        ∧ pair.2 ∈ Nfa.region n.states.length n₂.states.length := by
    intro pair hpair
    rw [List.mem_singleton.1 hpair]
    exact ⟨hleft ho, hright hpin⟩
  have hlinks : Links n₂.graph (n₂.link [(o, pin)]).graph
      fun s t => s = o ∧ t = pin := by
    intro s l t
    refine (Nfa.links_link (fun pair hpair => (hpairs pair hpair).1.2) s l t).trans ?_
    show _ ∨ l = none ∧ (s, t) ∈ [(o, pin)] ↔ _
    rw [List.mem_singleton, Prod.ext_iff]
  refine hp.linked hfrag hpairs rfl (hleft hi) (hright hpout) (fun w => ?_) ?_
  · refine series hlinks hS hfrag.closedRegion ?_ hi ho hpin hpout ?_ hfrag.traces
    · exact fun s hs ht => Nat.not_le_of_lt hs.2 ht.1
    · exact fun w => (hkept i hi w o).trans (hp.traces w)
  · rintro ⟨hpalive, hqalive⟩ s hs
    have hsecond : ∀ s ∈ Nfa.region n₁.states.length n₂.states.length,
        ∃ w, Traces (n₂.link [(o, pin)]).graph s w pout := by
      intro s hs
      obtain ⟨w, hw⟩ := hfrag.live hqalive s hs
      exact ⟨w, hlinks.mono hw⟩
    rcases Nat.lt_or_ge s.toNat n₁.states.length with h | h
    · obtain ⟨x, hx⟩ := hp.live hpalive s ⟨hs.1, h⟩
      obtain ⟨y, hy⟩ := hsecond pin hpin
      have hfirst := hlinks.mono ((hkept s ⟨hs.1, h⟩ x o).2 hx)
      exact ⟨_, hfirst.append ((hlinks.traces ⟨rfl, rfl⟩).append hy)⟩
    · exact hsecond s ⟨h, hs.2⟩

/-- The pieces one after the other, from a first. -/
theorem Frag.chain (hfs : List.Forall₂ Grows ps fs) (hp : Frag p n (n₁, i, o))
    (hcount : n.states.length + (ps.foldl Piece.seq p).count ≤ 2 ^ 32) :
    Frag (ps.foldl Piece.seq p) n (Build.chain n₁ i o fs) := by
  induction hfs generalizing p n₁ o with
  | nil => exact hp
  | @cons q g qs gs hq _ ih =>
    have hle := Piece.le_count_foldl .seq (fun _ _ => rfl) qs (p.seq q)
    refine ih (hp.seq hq ?_) hcount
    have hsize : n₁.states.length = n.states.length + p.count := hp.size
    have hseq : (p.seq q).count = p.count + q.count := rfl
    have hfold : n.states.length + (qs.foldl Piece.seq (p.seq q)).count ≤ 2 ^ 32 := hcount
    omega

def Piece.concat : List Piece → Piece
  | [] => ⟨2, labelled (· = none), ∃ l : Option UInt8, l = none⟩
  | p :: ps => ps.foldl Piece.seq p

theorem Grows.concat (hfs : List.Forall₂ Grows ps fs) :
    Grows (Piece.concat ps) (Build.concat fs) := by
  intro n hcount
  cases hfs with
  | nil =>
    refine grows_edge ?_ n hcount
    intro b l t
    cases l with
    | none => simp [Edge.Leads]
    | some c => simp [Edge.Leads]
  | @cons p f ps fs hf hfs =>
    have hle := Piece.le_count_foldl .seq (fun _ _ => rfl) ps p
    have hfold : n.states.length + (ps.foldl Piece.seq p).count ≤ 2 ^ 32 := hcount
    exact Frag.chain hfs (hf n (by omega)) hcount

-- ==== pieces in parallel

/-- Fragments between two ends: nothing enters the first end, nothing
leaves the last, and where the pieces are alive all but the first end lead
to the last. -/
structure Branches (p : Piece) (n n₁ : Nfa) (a b : StateId) : Prop where
  frag : Frag { p with alive := False } n (n₁, a, b)
  ne : a ≠ b
  unentered : ∀ s ∈ Nfa.region n.states.length n₁.states.length, ∀ l, ¬ n₁.graph s l a
  stuck : Stuck n₁.graph b
  live : p.alive → ∀ s ∈ Nfa.region n.states.length n₁.states.length,
    s ≠ a → ∃ w, Traces n₁.graph s w b

/-- The two ends with nothing between them. -/
theorem Fresh.branches {n' : Nfa} (h : Fresh n n' a b) : Branches ⟨2, 0, True⟩ n n' a b where
  frag := h.frag
  ne := h.ne
  unentered s hs l := h.leaves hs.1 l a
  stuck := h.leaves h.frag.last.1
  live := by
    intro _ s hs hsa
    rcases h.eq_or_eq hs.1 hs.2 with rfl | rfl
    · exact absurd rfl hsa
    · exact ⟨[], .refl _⟩

def Piece.par (p q : Piece) : Piece :=
  ⟨p.count + q.count, p.language + q.language, p.alive ∧ q.alive⟩

/-- One more fragment between them, and a way through it. -/
theorem Branches.par {q : Piece} {g : Build} (hp : Branches p n n₁ a b)
    (hq : Grows q g) (hcount : n₁.states.length + q.count ≤ 2 ^ 32) :
    Branches (p.par q) n
        (((g n₁).1.addEdge a (.epsilon (g n₁).2.1)).addEdge (g n₁).2.2 (.epsilon b)) a b
      ∧ (q.alive → ∃ w, Traces (((g n₁).1.addEdge a
          (.epsilon (g n₁).2.1)).addEdge (g n₁).2.2 (.epsilon b)).graph a w b) := by
  have hfrag := hq n₁ hcount
  generalize g n₁ = r at hfrag
  obtain ⟨n₂, i, o⟩ := r
  show Branches (p.par q) n (n₂.link [(a, i), (o, b)]) a b
    ∧ (q.alive → ∃ w, Traces (n₂.link [(a, i), (o, b)]).graph a w b)
  have ha : a ∈ Nfa.region n.states.length n₁.states.length := hp.frag.first
  have hb : b ∈ Nfa.region n.states.length n₁.states.length := hp.frag.last
  have hi : i ∈ Nfa.region n₁.states.length n₂.states.length := hfrag.first
  have ho : o ∈ Nfa.region n₁.states.length n₂.states.length := hfrag.last
  obtain ⟨hS, hkept⟩ := hp.frag.kept hfrag.old
  obtain ⟨hleft, hright⟩ := hp.frag.within hfrag
  have hdisj : ∀ s ∈ Nfa.region n.states.length n₁.states.length,
      s ∉ Nfa.region n₁.states.length n₂.states.length :=
    fun s hs ht => Nat.lt_irrefl _ (Nat.lt_of_lt_of_le hs.2 ht.1)
  have hold : ∀ s ∈ Nfa.region n.states.length n₁.states.length, ∀ l t,
      n₂.graph s l t ↔ n₁.graph s l t := by
    intro s hs l t
    have hedges : n₂.edges s = n₁.edges s := hfrag.old s hs.2
    unfold Nfa.graph
    rw [hedges]
  have hpairs : ∀ pair ∈ [(a, i), (o, b)],
      pair.1 ∈ Nfa.region n.states.length n₂.states.length
        ∧ pair.2 ∈ Nfa.region n.states.length n₂.states.length := by
    rintro pair (_ | ⟨_, _ | ⟨_, ⟨⟩⟩⟩)
    · exact ⟨hleft ha, hright hi⟩
    · exact ⟨hright ho, hleft hb⟩
  have hlinks : Links n₂.graph (n₂.link [(a, i), (o, b)]).graph
      fun s t => s = a ∧ t = i ∨ s = o ∧ t = b := by
    intro s l t
    refine (Nfa.links_link (fun pair hpair => (hpairs pair hpair).1.2) s l t).trans ?_
    show _ ∨ l = none ∧ (s, t) ∈ [(a, i), (o, b)] ↔ _
    rw [List.mem_cons, List.mem_singleton, Prod.ext_iff, Prod.ext_iff]
  have hstuck : Stuck n₂.graph b :=
    fun l t hE => hp.stuck l t ((hold b hb l t).1 hE)
  have hunentered : ∀ s ∈ Nfa.region n.states.length n₁.states.length, ∀ l, ¬ n₂.graph s l a :=
    fun s hs l hE => hp.unentered s hs l ((hold s hs l a).1 hE)
  have hin : Traces (n₂.link [(a, i), (o, b)]).graph a [] i :=
    hlinks.traces (Or.inl ⟨rfl, rfl⟩)
  have hout : Traces (n₂.link [(a, i), (o, b)]).graph o [] b :=
    hlinks.traces (Or.inr ⟨rfl, rfl⟩)
  have hnew : q.alive →
      ∀ s ∈ Nfa.region n₁.states.length n₂.states.length,
        ∃ w, Traces (n₂.link [(a, i), (o, b)]).graph s w b := by
    intro halive s hs
    obtain ⟨w, hw⟩ := hfrag.live halive s hs
    exact ⟨_, (hlinks.mono hw).append hout⟩
  refine ⟨?_, ?_⟩
  · constructor
    case frag =>
      refine hp.frag.linked hfrag hpairs rfl (hleft ha) (hleft hb) (fun w => ?_) False.elim
      refine parallel hlinks hS hfrag.closedRegion hdisj ha hb hi ho hp.ne hunentered
        hstuck ?_ hfrag.traces
      exact fun w => (hkept a ha w b).trans (hp.frag.traces w)
    case ne => exact hp.ne
    case unentered =>
      intro s hs l hE
      rw [Nfa.length_link] at hs
      rcases (hlinks s l a).1 hE with hE₂ | ⟨-, ⟨-, rfl⟩ | ⟨-, rfl⟩⟩
      · rcases Nat.lt_or_ge s.toNat n₁.states.length with h | h
        · exact hunentered s ⟨hs.1, h⟩ l hE₂
        · exact hdisj a ha (hfrag.closed s l a h hE₂)
      · exact hdisj _ ha hi
      · exact hp.ne rfl
    case stuck =>
      intro l t hE
      rcases (hlinks b l t).1 hE with hE₂ | ⟨-, ⟨h, -⟩ | ⟨rfl, -⟩⟩
      · exact hstuck l t hE₂
      · exact hp.ne h.symm
      · exact hdisj _ hb ho
    case live =>
      rintro ⟨hpalive, hqalive⟩ s hs hsa
      rw [Nfa.length_link] at hs
      rcases Nat.lt_or_ge s.toNat n₁.states.length with h | h
      · obtain ⟨w, hw⟩ := hp.live hpalive s ⟨hs.1, h⟩ hsa
        exact ⟨w, hlinks.mono ((hkept s ⟨hs.1, h⟩ w b).2 hw)⟩
      · exact hnew hqalive s ⟨h, hs.2⟩
  · intro halive
    obtain ⟨w, hw⟩ := hnew halive i hi
    exact ⟨_, hin.append hw⟩

/-- The fragments of all the alternatives between the two ends. -/
theorem Branches.branch (hfs : List.Forall₂ Grows ps fs) (hp : Branches p n n₁ a b)
    (hcount : n.states.length + (ps.foldl Piece.par p).count ≤ 2 ^ 32) :
    ∃ n₂, Build.branch n₁ a b fs = (n₂, a, b)
      ∧ Branches (ps.foldl Piece.par p) n n₂ a b
      ∧ ((∃ w, Traces n₁.graph a w b) ∨ (∃ q ∈ ps, q.alive) → ∃ w, Traces n₂.graph a w b) := by
  induction hfs generalizing p n₁ with
  | nil => exact ⟨n₁, rfl, hp, fun h => h.resolve_right (by simp)⟩
  | @cons q g qs gs hq _ ih =>
    have hle := Piece.le_count_foldl .par (fun _ _ => rfl) qs (p.par q)
    have hsize : n₁.states.length = n.states.length + p.count :=
      hp.frag.size
    have hpar : (p.par q).count = p.count + q.count := rfl
    have hfold : n.states.length + (qs.foldl Piece.par (p.par q)).count ≤ 2 ^ 32 := hcount
    have hroom : n₁.states.length + q.count ≤ 2 ^ 32 := by omega
    obtain ⟨hstep, hthrough⟩ := hp.par hq hroom
    obtain ⟨n₂, hrun, hbranches, hway⟩ := ih hstep hcount
    refine ⟨n₂, hrun, hbranches, ?_⟩
    rintro (⟨w, hw⟩ | ⟨q', hq', halive⟩)
    · -- what led to the last end before still does
      refine hway (Or.inl ⟨w, ?_⟩)
      have hlang := (hp.frag.traces w).1 hw
      refine (hstep.frag.traces w).2 ?_
      exact Or.inl hlang
    · rcases List.mem_cons.1 hq' with rfl | hq'
      · exact hway (Or.inl (hthrough halive))
      · exact hway (Or.inr ⟨q', hq', halive⟩)

def Piece.alt (ps : List Piece) : Piece :=
  { ps.foldl Piece.par ⟨2, 0, True⟩ with
    alive := (∃ q ∈ ps, q.alive) ∧ (ps.foldl Piece.par ⟨2, 0, True⟩).alive }

theorem Grows.alt (hfs : List.Forall₂ Grows ps fs) : Grows (Piece.alt ps) (Build.alt fs) := by
  intro n hcount
  have hcount' : n.states.length + (ps.foldl Piece.par ⟨2, 0, True⟩).count ≤ 2 ^ 32 := hcount
  have htwo : 2 ≤ (ps.foldl Piece.par ⟨2, 0, True⟩).count :=
    Piece.le_count_foldl .par (fun _ _ => rfl) ps ⟨2, 0, True⟩
  have hfresh := Fresh.addStates (n := n) (by omega)
  obtain ⟨n₂, hrun, hbranches, hway⟩ :=
    Branches.branch hfs hfresh.branches hcount'
  have hrun' : Build.alt fs n = (n₂, n.addState.2, n.addState.1.addState.2) :=
    hrun
  rw [hrun']
  constructor
  case size => exact hbranches.frag.size
  case old => exact hbranches.frag.old
  case closed => exact hbranches.frag.closed
  case first => exact hbranches.frag.first
  case last => exact hbranches.frag.last
  case traces => exact hbranches.frag.traces
  case live =>
    rintro ⟨hsome, hall⟩ s hs
    by_cases hsa : s = n.addState.2
    · rw [hsa]
      exact hway (Or.inr hsome)
    · exact hbranches.live hall s hs hsa
  case start => exact hbranches.frag.start
  case accepts => exact hbranches.frag.accepts

end OpenStandards.JouleclawDecode

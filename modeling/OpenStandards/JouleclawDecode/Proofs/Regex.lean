/-
The language of a pattern, and that its automaton accepts it.

The language is read off the parsed pattern, a repetition as the powers of
its node between its bounds. The automaton has one state and those of the
construction, counted by `stateCount`; as long as they are at most
`2 ^ 32` every state has an id of its own and the automaton accepts
exactly the language (`isMatch_compile_iff`).
-/
import OpenStandards.JouleclawDecode.Proofs.Thompson

namespace OpenStandards.JouleclawDecode

open Lib Computability

-- ==== the language

mutual

/-- The words of a parsed pattern. -/
def Node.language : Node → Language UInt8
  | .empty => 1
  | .byteClass c => { w | ∃ b, c.contains b = true ∧ w = [b] }
  | .concat parts => (Node.languages parts).prod
  | .alt alts => (Node.languages alts).sum
  | .star inner => inner.language∗
  | .plus inner => inner.language * inner.language∗
  | .opt inner => 1 + inner.language
  | .repeated inner n m =>
    { w | ∃ k, n ≤ k ∧ (∀ u, m = some u → k ≤ u)
      ∧ w ∈ inner.language ^ k }

def Node.languages : List Node → List (Language UInt8)
  | [] => []
  | node :: nodes => node.language :: Node.languages nodes

end

mutual

def Node.stateCount : Node → Nat
  | .empty => 2
  | .byteClass _ => 2
  | .concat parts => if parts.isEmpty then 2 else Node.stateCounts parts
  | .alt alts => 2 + Node.stateCounts alts
  | .star inner => inner.stateCount + 2
  | .plus inner => inner.stateCount + 2
  | .opt inner => inner.stateCount + 2
  | .repeated inner n (some m) =>
    if n = 0 ∧ m = 0 then 2
    else n * inner.stateCount + (m - n) * (inner.stateCount + 2)
  | .repeated inner n none =>
    n * inner.stateCount + (inner.stateCount + 2)

def Node.stateCounts : List Node → Nat
  | [] => 0
  | node :: nodes => node.stateCount + Node.stateCounts nodes

end

mutual

/-- What the parser makes sure of: an alternation has alternatives, and
the bounds of a repetition are in order. -/
def Node.WellFormed : Node → Prop
  | .empty => True
  | .byteClass _ => True
  | .concat parts => Node.AllWellFormed parts
  | .alt alts => alts ≠ [] ∧ Node.AllWellFormed alts
  | .star inner => inner.WellFormed
  | .plus inner => inner.WellFormed
  | .opt inner => inner.WellFormed
  | .repeated inner n m => (∀ u, m = some u → n ≤ u) ∧ inner.WellFormed

def Node.AllWellFormed : List Node → Prop
  | [] => True
  | node :: nodes => node.WellFormed ∧ Node.AllWellFormed nodes

end

mutual

def Node.NoEmptyClass : Node → Prop
  | .empty => True
  | .byteClass c => ∃ b, c.contains b = true
  | .concat parts => Node.NoneEmptyClass parts
  | .alt alts => Node.NoneEmptyClass alts
  | .star inner => inner.NoEmptyClass
  | .plus inner => inner.NoEmptyClass
  | .opt inner => inner.NoEmptyClass
  | .repeated inner _ _ => inner.NoEmptyClass

def Node.NoneEmptyClass : List Node → Prop
  | [] => True
  | node :: nodes => node.NoEmptyClass ∧ Node.NoneEmptyClass nodes

end

def Node.piece (node : Node) : Piece :=
  ⟨node.stateCount, node.language, node.NoEmptyClass⟩

-- ==== sums of pieces

/-- A piece may be read as one that promises no more. -/
theorem Grows.weaken {p q : Piece} {f : Build} (h : Grows p f)
    (hcount : q.count = p.count) (hlanguage : q.language = p.language)
    (halive : q.alive → p.alive) : Grows q f := by
  intro n hn
  have hfrag := h n (by rw [← hcount]; exact hn)
  constructor
  case size => rw [hcount, hfrag.size]
  case traces =>
    rw [hlanguage]
    exact hfrag.traces
  case live => exact fun hq => hfrag.live (halive hq)
  case old => exact hfrag.old
  case closed => exact hfrag.closed
  case first => exact hfrag.first
  case last => exact hfrag.last
  case start => exact hfrag.start
  case accepts => exact hfrag.accepts

namespace Piece

theorem language_foldl_seq (ps : List Piece) (p : Piece) :
    (ps.foldl seq p).language = p.language * (ps.map language).prod := by
  induction ps generalizing p with
  | nil => simp
  | cons q qs ih =>
    rw [List.foldl_cons, ih, List.map_cons, List.prod_cons, ← mul_assoc]
    rfl

theorem language_foldl_par (ps : List Piece) (p : Piece) :
    (ps.foldl par p).language = p.language + (ps.map language).sum := by
  induction ps generalizing p with
  | nil => simp
  | cons q qs ih =>
    rw [List.foldl_cons, ih, List.map_cons, List.sum_cons, ← add_assoc]
    rfl

end Piece

theorem labelled_none : labelled (· = none) = 1 := by
  ext w
  rw [Language.mem_one]
  constructor
  · rintro ⟨l, rfl, rfl⟩
    rfl
  · rintro rfl
    exact ⟨none, rfl, rfl⟩

theorem Piece.concat_spec (ps : List Piece) :
    (concat ps).count = (if ps.isEmpty then 2 else (ps.map count).sum)
      ∧ (concat ps).language = (ps.map language).prod
      ∧ ((∀ q ∈ ps, q.alive) → (concat ps).alive) := by
  cases ps with
  | nil => exact ⟨rfl, labelled_none, fun _ => ⟨none, rfl⟩⟩
  | cons p ps =>
    refine ⟨?_, ?_, fun hps => ?_⟩
    · rw [List.map_cons, List.sum_cons]
      exact count_foldl seq (fun _ _ => rfl) ps p
    · rw [List.map_cons, List.prod_cons]
      exact language_foldl_seq ps p
    · exact alive_foldl seq (fun _ _ => And.intro) (hps p List.mem_cons_self)
        fun q hq => hps q (List.mem_cons_of_mem _ hq)

-- ==== repetitions

/-- Optional copies are up to as many copies. -/
theorem mem_one_add_pow {L : Language UInt8} {j : Nat} {w : List UInt8} :
    w ∈ (1 + L) ^ j ↔ ∃ i ≤ j, w ∈ L ^ i := by
  induction j generalizing w with
  | zero =>
    constructor
    · exact fun h => ⟨0, Nat.le_refl 0, h⟩
    · rintro ⟨i, hi, h⟩
      rwa [Nat.le_zero.1 hi] at h
  | succ j ih =>
    rw [pow_succ', add_mul, one_mul, Language.mem_add]
    constructor
    · rintro (h | h)
      · obtain ⟨i, hi, hw⟩ := ih.1 h
        exact ⟨i, Nat.le_succ_of_le hi, hw⟩
      · obtain ⟨x, hx, y, hy, rfl⟩ := Language.mem_mul.1 h
        obtain ⟨i, hi, hw⟩ := ih.1 hy
        refine ⟨i + 1, Nat.succ_le_succ hi, ?_⟩
        rw [pow_succ']
        exact Language.mem_mul.2 ⟨x, hx, y, hw, rfl⟩
    · rintro ⟨i, hi, h⟩
      cases i with
      | zero => exact Or.inl (ih.2 ⟨0, Nat.zero_le j, h⟩)
      | succ i =>
        rw [pow_succ'] at h
        obtain ⟨x, hx, y, hy, rfl⟩ := Language.mem_mul.1 h
        refine Or.inr (Language.mem_mul.2 ⟨x, hx, y, ?_, rfl⟩)
        exact ih.2 ⟨i, Nat.le_of_succ_le_succ hi, hy⟩

namespace Piece

def repeated (p : Piece) (n : Nat) (m : Option Nat) : List Piece :=
  copies (wrap true false) (wrap true true) p n m

theorem language_wrap_star (p : Piece) : (p.wrap true true).language = p.language∗ :=
  Language.one_add_self_mul_kstar_eq_kstar p.language

theorem alive_of_mem_repeated {p q : Piece} {n : Nat} {m : Option Nat}
    (hp : p.alive) (hq : q ∈ p.repeated n m) : q.alive := by
  rcases List.mem_append.1 hq with hq | hq
  · rw [List.eq_of_mem_replicate hq]
    exact hp
  · cases m with
    | none =>
      rw [List.mem_singleton.1 hq]
      exact hp
    | some m =>
      rw [List.eq_of_mem_replicate hq]
      exact hp

theorem mem_language_repeated {p : Piece} {n : Nat} {m : Option Nat}
    (hm : ∀ u, m = some u → n ≤ u) {w : List UInt8} :
    w ∈ ((p.repeated n m).map language).prod
      ↔ ∃ k, n ≤ k ∧ (∀ u, m = some u → k ≤ u) ∧ w ∈ p.language ^ k := by
  have hadd : ∀ {i x y}, x ∈ p.language ^ n → y ∈ p.language ^ i →
      x ++ y ∈ p.language ^ (n + i) := by
    intro i x y hx hy
    rw [pow_add]
    exact Language.mem_mul.2 ⟨x, hx, y, hy, rfl⟩
  have hsplit : ∀ {k}, n ≤ k → w ∈ p.language ^ k →
      ∃ x ∈ p.language ^ n, ∃ y ∈ p.language ^ (k - n), x ++ y = w := by
    intro k hk hw
    rw [← Nat.add_sub_cancel' hk, pow_add] at hw
    exact Language.mem_mul.1 hw
  unfold repeated copies
  rw [List.map_append, List.prod_append, List.map_replicate,
    List.prod_replicate, Language.mem_mul]
  cases m with
  | none =>
    rw [List.map_singleton, List.prod_singleton, language_wrap_star, Language.kstar_eq_iSup_pow]
    simp only [Language.mem_iSup]
    constructor
    · rintro ⟨x, hx, y, ⟨i, hy⟩, rfl⟩
      exact ⟨n + i, Nat.le_add_right n i, nofun, hadd hx hy⟩
    · rintro ⟨k, hk, -, hw⟩
      obtain ⟨x, hx, y, hy, hxy⟩ := hsplit hk hw
      exact ⟨x, hx, y, ⟨k - n, hy⟩, hxy⟩
  | some u =>
    have hnu := hm u rfl
    rw [List.map_replicate, List.prod_replicate]
    show (∃ x ∈ p.language ^ n, ∃ y ∈ (1 + p.language) ^ (u - n), x ++ y = w) ↔ _
    simp only [mem_one_add_pow]
    constructor
    · rintro ⟨x, hx, y, ⟨i, hi, hy⟩, rfl⟩
      refine ⟨n + i, Nat.le_add_right n i, ?_, hadd hx hy⟩
      rintro _ ⟨⟩
      omega
    · rintro ⟨k, hk, hku, hw⟩
      obtain ⟨x, hx, y, hy, hxy⟩ := hsplit hk hw
      have hle := hku u rfl
      exact ⟨x, hx, y, ⟨k - n, by omega, hy⟩, hxy⟩

end Piece

theorem Grows.repeated {p : Piece} {f : Build} (hf : Grows p f) (n : Nat) (m : Option Nat) :
    List.Forall₂ Grows (p.repeated n m) (copies .opt .star f n m) := by
  have hreplicate : ∀ {q : Piece} {g : Build}, Grows q g → ∀ k,
      List.Forall₂ Grows (List.replicate k q) (List.replicate k g) := by
    intro q g hg k
    induction k with
    | zero => exact .nil
    | succ k ih => exact .cons hg ih
  refine List.rel_append (hreplicate hf n) ?_
  cases m with
  | none => exact .cons (hf.wrap true true) .nil
  | some m => exact hreplicate (hf.wrap true false) (m - n)

-- ==== the theorem

namespace Node

theorem languages_eq_map (nodes : List Node) : languages nodes = nodes.map language := by
  induction nodes with
  | nil => rfl
  | cons node nodes ih => rw [languages, ih, List.map_cons]

theorem stateCounts_eq_sum (nodes : List Node) :
    stateCounts nodes = (nodes.map stateCount).sum := by
  induction nodes with
  | nil => rfl
  | cons node nodes ih => rw [stateCounts, ih, List.map_cons, List.sum_cons]

theorem allWellFormed_iff {nodes : List Node} :
    AllWellFormed nodes ↔ ∀ node ∈ nodes, node.WellFormed := by
  induction nodes with
  | nil => simp [AllWellFormed]
  | cons node nodes ih => rw [AllWellFormed, ih, List.forall_mem_cons]

theorem noneEmptyClass_iff {nodes : List Node} :
    NoneEmptyClass nodes ↔ ∀ node ∈ nodes, node.NoEmptyClass := by
  induction nodes with
  | nil => simp [NoneEmptyClass]
  | cons node nodes ih => rw [NoneEmptyClass, ih, List.forall_mem_cons]

theorem stateCount_repeated (inner : Node) (n : Nat) (m : Option Nat) :
    (Piece.concat (inner.piece.repeated n m)).count = (Node.repeated inner n m).stateCount := by
  rw [(Piece.concat_spec _).1]
  unfold Piece.repeated copies
  rw [List.map_append, List.sum_append, List.map_replicate, List.sum_replicate]
  cases m with
  | none =>
    rw [if_neg (by simp), stateCount, List.map_singleton, List.sum_singleton]
    rfl
  | some u =>
    rw [stateCount, List.map_replicate, List.sum_replicate]
    by_cases h : n = 0 ∧ u = 0
    · rw [if_pos h, h.1, h.2]
      rfl
    · rw [if_neg h, if_neg ?_]
      · rfl
      · simp
        omega

end Node

mutual

theorem build_grows : ∀ node : Node, node.WellFormed → Grows node.piece (build node)
  | .empty, _ => by
    refine (grows_edge (P := (· = none)) ?_).weaken rfl labelled_none.symm fun _ => ⟨none, rfl⟩
    intro b l t
    cases l with
    | none => simp [Edge.Leads]
    | some c => simp [Edge.Leads]
  | .byteClass c, _ => by
    refine (grows_edge (P := fun l => ∃ b, l = some b
      ∧ c.contains b = true) ?_).weaken rfl ?_ ?_
    · intro b l t
      cases l with
      | none => simp [Edge.Leads]
      | some d => simp [Edge.Leads]
    · ext w
      constructor
      · rintro ⟨b, hb, rfl⟩
        exact ⟨some b, ⟨b, rfl, hb⟩, rfl⟩
      · rintro ⟨_, ⟨b, rfl, hb⟩, rfl⟩
        exact ⟨b, hb, rfl⟩
    · rintro ⟨b, hb⟩
      exact ⟨some b, b, rfl, hb⟩
  | .concat parts, h => by
    obtain ⟨hcount, hlanguage, halive⟩ :=
      Piece.concat_spec (parts.map Node.piece)
    refine (Grows.concat (buildAll_grows parts h)).weaken ?_ ?_ ?_
    · rw [hcount, List.map_map, List.isEmpty_map]
      show Node.stateCount (.concat parts) = _
      rw [Node.stateCount, Node.stateCounts_eq_sum]
      rfl
    · rw [hlanguage, List.map_map]
      show Node.language (.concat parts) = _
      rw [Node.language, Node.languages_eq_map]
      rfl
    · intro hne
      apply halive
      simp only [List.forall_mem_map]
      exact Node.noneEmptyClass_iff.1 hne
  | .alt alts, h => by
    refine (Grows.alt (buildAll_grows alts h.2)).weaken ?_ ?_ ?_
    · show Node.stateCount (.alt alts) = Piece.count (List.foldl _ _ _)
      rw [Piece.count_foldl .par (fun _ _ => rfl), List.map_map, Node.stateCount,
        Node.stateCounts_eq_sum]
      rfl
    · show Node.language (.alt alts) = Piece.language (List.foldl _ _ _)
      rw [Piece.language_foldl_par, List.map_map, Node.language, Node.languages_eq_map,
        zero_add]
      rfl
    · intro hne
      have hall := Node.noneEmptyClass_iff.1 hne
      obtain ⟨node, hnode⟩ := List.exists_mem_of_ne_nil alts h.1
      refine ⟨⟨node.piece, List.mem_map_of_mem hnode, hall node hnode⟩, ?_⟩
      exact Piece.alive_foldl .par (fun _ _ => And.intro) trivial (List.forall_mem_map.2 hall)
  | .star inner, h => by
    refine ((build_grows inner h).wrap true true).weaken rfl ?_ ?_
    · exact (Piece.language_wrap_star inner.piece).symm
    · exact fun hne => hne
  | .plus inner, h => by
    refine ((build_grows inner h).wrap false true).weaken rfl ?_ ?_
    · exact (zero_add _).symm
    · exact fun hne => hne
  | .opt inner, h => by
    refine ((build_grows inner h).wrap true false).weaken rfl ?_ ?_
    · rfl
    · exact fun hne => hne
  | .repeated inner n m, h => by
    obtain ⟨-, hlanguage, halive⟩ :=
      Piece.concat_spec (inner.piece.repeated n m)
    refine (Grows.concat ((build_grows inner h.2).repeated n m)).weaken
      ?_ ?_ ?_
    · exact (Node.stateCount_repeated inner n m).symm
    · rw [hlanguage]
      ext w
      exact (Piece.mem_language_repeated (p := inner.piece) h.1).symm
    · intro hne
      have hinner : inner.piece.alive := hne
      exact halive fun q hq => Piece.alive_of_mem_repeated hinner hq

theorem buildAll_grows : ∀ nodes : List Node, Node.AllWellFormed nodes →
    List.Forall₂ Grows (nodes.map Node.piece) (buildAll nodes)
  | [], _ => .nil
  | node :: nodes, h =>
    .cons (build_grows node h.1) (buildAll_grows nodes h.2)

end

-- ==== compiling

/-- The automaton as it stands before the pattern is built. -/
def Nfa.initial : Nfa := { states := [[]], start := 0, accepts := ∅ }

/-- The automaton of a pattern: a start linked to its fragment, whose last
end accepts. -/
theorem Node.compile_eq (ast : Node) :
    ast.compile
      = { (build ast Nfa.initial).1.link
            [(0, (build ast Nfa.initial).2.1)] with
          accepts := (build ast Nfa.initial).1.accepts.insert (build ast Nfa.initial).2.2 } :=
  rfl

variable {ast : Node}

/-- Where the states have ids, the words from the start to the accepting
state are those of the pattern, and where no class is empty every state
leads to it. -/
theorem Node.compile_spec (hwf : ast.WellFormed) (hcount : ast.stateCount + 1 ≤ 2 ^ 32) :
    ∃ o, (∀ t, t ∈ ast.compile.accepts ↔ t = o)
      ∧ (∀ w, Traces ast.compile.graph ast.compile.start w o ↔ w ∈ ast.language)
      ∧ (ast.NoEmptyClass → ∀ w t,
          Traces ast.compile.graph ast.compile.start w t →
            ∃ v, Traces ast.compile.graph t v o) := by
  have hlen : Nfa.initial.states.length = 1 := rfl
  have hfrag := build_grows ast hwf Nfa.initial (by
    show 1 + ast.stateCount ≤ 2 ^ 32
    omega)
  rw [ast.compile_eq]
  generalize build ast Nfa.initial = r at hfrag
  obtain ⟨n, i, o⟩ := r
  have hsize : n.states.length = 1 + ast.stateCount := hfrag.size
  have hi : i ∈ Nfa.region 1 n.states.length := hfrag.first
  have ho : o ∈ Nfa.region 1 n.states.length := hfrag.last
  have hT : Closed n.graph (Nfa.region 1 n.states.length) :=
    hfrag.closedRegion
  have hzero : Stuck n.graph 0 := by
    apply Nfa.stuck_of_edges
    exact hfrag.old 0 (by rw [hlen]; exact Nat.zero_lt_one)
  have hinside : ∀ pair ∈ [((0 : StateId), i)], pair.1.toNat < n.states.length := by
    intro pair hpair
    rw [List.mem_singleton.1 hpair]
    show 0 < n.states.length
    omega
  have hlinks : Links n.graph (n.link [(0, i)]).graph
      fun s t => s = 0 ∧ t = i := by
    intro s l t
    refine (Nfa.links_link hinside s l t).trans ?_
    show _ ∨ l = none ∧ (s, t) ∈ [(0, i)] ↔ _
    rw [List.mem_singleton, Prod.ext_iff]
  have hstart : (n.link [(0, i)]).start = 0 :=
    (n.start_link _).trans hfrag.start
  have haccepts : n.accepts = ∅ := hfrag.accepts
  show ∃ o', (∀ t, t ∈ n.accepts.insert o ↔ t = o')
    ∧ (∀ w, Traces (n.link [(0, i)]).graph (n.link [(0, i)]).start w o' ↔ w ∈ ast.language)
    ∧ (ast.NoEmptyClass → ∀ w t,
        Traces (n.link [(0, i)]).graph (n.link [(0, i)]).start w t →
          ∃ v, Traces (n.link [(0, i)]).graph t v o')
  rw [hstart, haccepts]
  have hfirst : ∀ w, Traces n.graph 0 w 0 ↔ w ∈ (1 : Language UInt8) := by
    intro w
    rw [Language.mem_one]
    constructor
    · exact fun h => (h.of_stuck hzero).1
    · rintro rfl
      exact .refl 0
  have hS : Closed n.graph {0} := by
    rintro s rfl l t hE
    exact absurd hE (hzero l t)
  have hdisj : ∀ s ∈ ({0} : Set StateId), s ∉ Nfa.region 1 n.states.length := by
    rintro s rfl hs
    exact absurd hs.1 (by decide)
  refine ⟨o, ?_, ?_, ?_⟩
  · intro t
    rw [mem_insert_iff]
    simp
  · intro w
    rw [series hlinks hS hT hdisj rfl rfl hi ho hfirst hfrag.traces, one_mul]
    rfl
  · intro hne w t ht
    -- a state that is reached is the start or a state of the fragment
    have hclosed : Closed (n.link [(0, i)]).graph ({0} ∪ Nfa.region 1 n.states.length) := by
      rintro s (rfl | hs) l t hE
      · rcases (hlinks 0 l t).1 hE with hE₁ | ⟨-, -, rfl⟩
        · exact absurd hE₁ (hzero l t)
        · exact Or.inr hi
      · rcases (hlinks s l t).1 hE with hE₁ | ⟨-, rfl, -⟩
        · exact Or.inr (hT s hs l t hE₁)
        · exact absurd hs (hdisj 0 rfl)
    have hlive : ∀ s ∈ Nfa.region 1 n.states.length,
        ∃ v, Traces (n.link [(0, i)]).graph s v o := by
      intro s hs
      obtain ⟨v, hv⟩ := hfrag.live hne s hs
      exact ⟨v, hlinks.mono hv⟩
    rcases ht.mem hclosed (Or.inl rfl) with rfl | hmem
    · obtain ⟨v, hv⟩ := hlive i hi
      exact ⟨_, (hlinks.traces ⟨rfl, rfl⟩).append hv⟩
    · exact hlive t hmem

/-- Where the states have ids, the words of the automaton are those of the
pattern. -/
theorem Node.accepts_compile (hwf : ast.WellFormed) (hcount : ast.stateCount + 1 ≤ 2 ^ 32) :
    ast.compile.toεNFA.accepts = ast.language := by
  obtain ⟨o, haccepts, hwords, -⟩ := compile_spec hwf hcount
  ext w
  rw [Nfa.mem_accepts_iff, ← hwords]
  simp [haccepts]

/-- The runs of the automaton accept those words. -/
theorem Node.isMatch_compile_iff (hwf : ast.WellFormed)
    (hcount : ast.stateCount + 1 ≤ 2 ^ 32) (w : List UInt8) :
    ast.compile.isMatch w = true ↔ w ∈ ast.language := by
  rw [Nfa.isMatch_iff_mem_accepts, accepts_compile hwf hcount]

end OpenStandards.JouleclawDecode

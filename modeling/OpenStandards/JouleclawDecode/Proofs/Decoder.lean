/-
Compiling a pattern.

Every pattern is parsed to an end; where it is accepted, the automaton
accepts the language of the parsed pattern as long as its states are at
most `2 ^ 32`, and its epsilon closure ends in any case
(`compile_meaning`). Past that the ids wrap: in `a{2147483648}` the last
copy is given the id of the start, so the start accepts and the empty
string with it (`wrapped_accepts_nil`).
-/
import OpenStandards.JouleclawDecode.Proofs.Parser
import OpenStandards.JouleclawDecode.Proofs.Earley

namespace OpenStandards.JouleclawDecode

open Lib

theorem compile_eq_ok {pattern : String} {nfa : Nfa} :
    compile pattern = .ok nfa
      ↔ ∃ ast, (Parser.new pattern).parseTop = .ok ast ∧ nfa = ast.compile := by
  unfold compile
  rw [bind_eq_ok]
  apply exists_congr
  intro ast
  apply and_congr_right
  intro _
  rw [Except.ok.injEq, eq_comm]

/-- The automaton of every pattern that is accepted: its closure ends on
every set of states, and where its states have ids of their own it accepts
exactly the words of the parsed pattern. -/
theorem compile_meaning {pattern : String} {nfa : Nfa} (haccepted : compile pattern = .ok nfa) :
    ∃ ast : Node, (Parser.new pattern).parseTop = .ok ast
      ∧ (∀ set : StateSet, (nfa.closureLoop (2 ^ 32) set set.toList.reverse).isSome)
      ∧ (ast.stateCount + 1 ≤ 2 ^ 32 → ∀ w, nfa.isMatch w = true ↔ w ∈ ast.language) := by
  obtain ⟨ast, hparse, rfl⟩ := compile_eq_ok.1 haccepted
  refine ⟨ast, hparse, ast.compile.closureLoop_isSome, ?_⟩
  intro hcount
  exact ast.isMatch_compile_iff (Parser.wellFormed_of_parseTop hparse) hcount

/-- The pattern `(?:a|[^b-y\d])+.{2,3}`, parsed. -/
def mixed : Node :=
  .concat [
    .plus (.alt [.byteClass (.single 97),
      .byteClass (((ByteClass.empty.unionWith (.range 98 121)).unionWith
        Parser.digit).complement)]),
    .repeated (.byteClass .full) 2 (some 3)]

theorem mixed_meaning :
    compile "(?:a|[^b-y\\d])+.\x7b2,3\x7d" = .ok mixed.compile
      ∧ mixed.stateCount + 1 ≤ 2 ^ 32
      ∧ ∀ w, mixed.compile.isMatch w = true ↔ w ∈ mixed.language := by
  have haccepted : compile "(?:a|[^b-y\\d])+.\x7b2,3\x7d" = .ok mixed.compile := rfl
  have hparsed : (Parser.new "(?:a|[^b-y\\d])+.\x7b2,3\x7d").parseTop = .ok mixed :=
    rfl
  obtain ⟨ast, hparse, -, hmeaning⟩ := compile_meaning haccepted
  rw [hparsed] at hparse
  cases hparse
  exact ⟨haccepted, by decide, hmeaning (by decide)⟩

-- ==== wrapped ids

/-- Copies of an edge one after the other take two states each, and the
last of the states is the last end. -/
theorem chain_replicate_edge (e : StateId → Edge) (k : Nat) (n : Nfa) (i o : StateId) :
    (Build.chain n i o (List.replicate (k + 1) (.edge e))).1.states.length
        = n.states.length + 2 * (k + 1)
      ∧ (Build.chain n i o (List.replicate (k + 1) (.edge e))).2.2
        = UInt32.ofNat (n.states.length + 2 * k + 1)
      ∧ (Build.chain n i o (List.replicate (k + 1) (.edge e))).1.start = n.start := by
  induction k generalizing n o with
  | zero =>
    refine ⟨?_, ?_, rfl⟩
    · simp [Build.chain, Build.edge]
    · simp [Build.chain, Build.edge, Nfa.addState]
  | succ k ih =>
    rw [List.replicate_succ]
    obtain ⟨hlength, hlast, hstart⟩ := ih
      ((Build.edge e n).1.addEdge o (.epsilon (Build.edge e n).2.1))
      (Build.edge e n).2.2
    have hsize : ((Build.edge e n).1.addEdge o
        (.epsilon (Build.edge e n).2.1)).states.length = n.states.length + 2 := by
      simp [Build.edge]
    rw [hsize] at hlength hlast
    refine ⟨?_, ?_, ?_⟩
    · refine hlength.trans ?_
      omega
    · refine hlast.trans ?_
      congr 1
      omega
    · exact hstart

/-- The pattern of `k` copies of a class, `k` at least two. -/
theorem build_copies (c : ByteClass) (k : Nat) (n : Nfa) :
    build (.repeated (.byteClass c) (k + 2) (some (k + 2))) n
      = Build.chain (Build.edge (.byteClass c) n).1
          (Build.edge (.byteClass c) n).2.1
          (Build.edge (.byteClass c) n).2.2
          (List.replicate (k + 1) (.edge (.byteClass c))) := by
  rw [build, build]
  unfold copies
  dsimp only
  rw [Nat.sub_self, List.replicate_zero, List.append_nil, List.replicate_succ]
  rfl

/-- Its start has id zero, and its last end has the id of the number of its
states without the start. -/
theorem compile_copies (c : ByteClass) (k : Nat) :
    (Node.repeated (.byteClass c) (k + 2) (some (k + 2))).compile.start = 0
      ∧ UInt32.ofNat (2 * (k + 2))
        ∈ (Node.repeated (.byteClass c) (k + 2) (some (k + 2))).compile.accepts := by
  obtain ⟨-, hlast, hstart⟩ := chain_replicate_edge (.byteClass c) k
    (Build.edge (.byteClass c) Nfa.initial).1
    (Build.edge (.byteClass c) Nfa.initial).2.1
    (Build.edge (.byteClass c) Nfa.initial).2.2
  have hsize : (Build.edge (.byteClass c) Nfa.initial).1.states.length = 3 :=
    rfl
  rw [hsize] at hlast
  rw [Node.compile_eq, build_copies]
  refine ⟨?_, ?_⟩
  · exact (Nfa.start_link _ _).trans hstart
  · refine mem_insert_iff.2 (Or.inr ?_)
    rw [hlast]
    congr 1
    omega

/-- `2 ^ 31` copies have `2 ^ 32` states: the last end is the start. -/
theorem compile_wraps (c : ByteClass) :
    (Node.repeated (.byteClass c) 2147483648 (some 2147483648)).compile.isMatch [] = true := by
  obtain ⟨hstart, haccept⟩ := compile_copies c 2147483646
  rw [Nfa.isMatch_iff, hstart]
  exact ⟨0, haccept, .refl 0⟩

/-- A repetition of a class that must be there reads something. -/
theorem nil_not_mem_language_copies (c : ByteClass) {n : Nat} (hn : 0 < n) (m : Option Nat) :
    [] ∉ (Node.repeated (.byteClass c) n m).language := by
  rintro ⟨k, hk, -, hmem⟩
  obtain ⟨words, hflat, hlen, hwords⟩ := Language.mem_pow.1 hmem
  cases words with
  | nil =>
    rw [List.length_nil] at hlen
    omega
  | cons w words =>
    obtain ⟨b, -, rfl⟩ := hwords w List.mem_cons_self
    cases hflat

/-- A pattern whose automaton accepts a word that is not in its language:
`2 ^ 31` times the letter `a`, and the empty string. -/
theorem wrapped_accepts_nil :
    ¬ ∀ (pattern : String) (nfa : Nfa) (ast : Node),
      compile pattern = .ok nfa →
      (Parser.new pattern).parseTop = .ok ast →
      ∀ w, nfa.isMatch w = true ↔ w ∈ ast.language := by
  intro h
  have hparsed : (Parser.new "a\x7b2147483648\x7d").parseTop
      = .ok (.repeated (.byteClass (.single 97)) 2147483648 (some 2147483648)) := rfl
  have haccepted := compile_eq_ok.2 ⟨_, hparsed, rfl⟩
  have hnil := (h _ _ _ haccepted hparsed []).1 (compile_wraps _)
  exact nil_not_mem_language_copies _ (by decide) _ hnil

/-
The mask of a decoder is exact.

After any tokens the state of the decoder is that of the recogniser after
the bytes that were taken (`Tracks`), and the mask is the one of that state
(`Sound`). The bytes of a token can be run exactly when they are continued
by some word (`run_isSome_iff`), so a run of steps keeps the mask exact
(`decoding_exact`). Where the numbers do not fit, the automaton of
`a{2147483648}` accepts before anything is read (`wrapped_decoder_accepts`).
-/

-- ==== masks

namespace TokenMask

@[simp]
theorem len_allow (mask : TokenMask) (tok : UInt32) : (mask.allow tok).len = mask.len := by
  unfold allow
  split
  · rfl
  · rfl

theorem allowed_new (len : Nat) (tok : UInt32) : (new len).allowed tok = false := by
  unfold allowed new
  split
  · rfl
  · exact Words.test_replicate_zero ..

theorem allowed_allow {mask : TokenMask} {tok : UInt32}
    (htok : tok.toNat < mask.len) (t : UInt32) :
    (mask.allow tok).allowed t = true ↔ mask.allowed t = true ∨ t = tok := by
  have hword : tok.toNat / 64 < mask.bits.length := by
    rw [mask.sized]
    omega
  unfold allowed
  rw [len_allow]
  unfold allow
  rw [if_neg (Nat.not_le.2 htok)]
  by_cases ht : t.toNat ≥ mask.len
  · rw [if_pos ht, if_pos ht]
    constructor
    · exact nofun
    · rintro (h | rfl)
      · exact absurd h Bool.false_ne_true
      · exact absurd htok (Nat.not_lt.2 ht)
  · rw [if_neg ht, if_neg ht]
    dsimp only
    rw [Words.test_set hword, Bool.or_eq_true, decide_eq_true_eq, UInt32.toNat_inj, or_comm]

theorem allowed_foldl {ok : List UInt8 → Bool} {toks : List (List UInt8 × Nat)} {mask : TokenMask}
    (hinside : ∀ p ∈ toks, p.2 < mask.len ∧ p.2 < 2 ^ 32) (t : UInt32) :
    (toks.foldl (fun mask (tok, i) =>
        if ok tok then mask.allow (UInt32.ofNat i) else mask)
          mask).allowed t = true
      ↔ mask.allowed t = true ∨ ∃ p ∈ toks, ok p.1 = true ∧ p.2 = t.toNat := by
  induction toks generalizing mask with
  | nil => simp
  | cons p toks ih =>
    obtain ⟨tok, i⟩ := p
    obtain ⟨hlen, hlt⟩ := hinside _ List.mem_cons_self
    have hi : (UInt32.ofNat i).toNat = i := UInt32.toNat_ofNat_of_lt' hlt
    have hrest : ∀ q ∈ toks, q.2 < mask.len ∧ q.2 < 2 ^ 32 :=
      fun q hq => hinside q (List.mem_cons_of_mem _ hq)
    have hid : t = UInt32.ofNat i ↔ i = t.toNat := by
      rw [← UInt32.toNat_inj, hi, eq_comm]
    rw [List.foldl_cons]
    dsimp only
    cases hok : ok tok with
    | false =>
      rw [if_neg Bool.false_ne_true, ih hrest]
      simp [hok]
    | true =>
      rw [if_pos rfl, ih (by rwa [len_allow]), allowed_allow (by rwa [hi]), hid, or_assoc]
      simp [hok]

end TokenMask

-- ==== constraints

/-- A pattern that is parsed, or a context-free grammar. -/
inductive Constraint where
  | regex (pattern : String) (ast : Node)
      (parsed : (Parser.new pattern).parseTop = .ok ast)
  | cfg (cfg : CompiledCfg)

namespace Constraint

/-- What the decoder is given. -/
def grammar : Constraint → Grammar
  | .regex _ ast _ => { compiled := .nfa ast.compile }
  | .cfg c => { compiled := .cfg c }

def language : Constraint → Language UInt8
  | .regex _ ast _ => ast.language
  | .cfg c =>
    { w | Derives (fun (c : ByteClass) b => c.contains b = true) c.rules
        [.nonTerm c.start] w }

def Live : Constraint → Prop
  | .regex _ ast _ => ast.NoEmptyClass
  | .cfg c =>
    Productive (fun (c : ByteClass) b => c.contains b = true) c.rules

/-- Where so many bytes have been taken, the states and the items have
32-bit numbers, and so they have after one token more. -/
def Fits (vocab : List (List UInt8)) (taken : Nat) : Constraint → Prop
  | .regex _ ast _ => ast.stateCount + 1 ≤ 2 ^ 32
  | .cfg c => c.Fits ∧ taken < 2 ^ 32
      ∧ ∀ tok ∈ vocab, taken + tok.length < 2 ^ 32

theorem Fits.mono {vocab : List (List UInt8)} {k : Constraint} {m n : Nat}
    (h : k.Fits vocab n) (hle : m ≤ n) : k.Fits vocab m := by
  cases k with
  | regex pattern ast parsed => exact h
  | cfg c =>
    refine ⟨h.1, Nat.lt_of_le_of_lt hle h.2.1, ?_⟩
    intro tok htok
    have hroom := h.2.2 tok htok
    omega

end Constraint

-- ==== states

namespace DecoderState

variable {w v : List UInt8}

/-- The state is that of the recogniser after these bytes. -/
def Tracks (w : List UInt8) : Compiled → DecoderState → Prop
  | .nfa n, .nfa active =>
    n.Saturated active ∧ ∀ t, t ∈ active ↔ Traces n.graph n.start w t
  | .cfg c, .cfg earley => EarleyState.Exact c w earley
  | _, _ => False

/-- Bytes that are the beginning of a word are the beginning of one that
leads to a state, and no state is a dead end. -/
theorem exists_trace_iff {pattern : String} {ast : Node}
    (hparsed : (Parser.new pattern).parseTop = .ok ast)
    (hlive : ast.NoEmptyClass) (hcount : ast.stateCount + 1 ≤ 2 ^ 32) :
    (∃ t, Traces ast.compile.graph ast.compile.start w t)
      ↔ ∃ rest, w ++ rest ∈ ast.language := by
  obtain ⟨o, -, hwords, hleads⟩ :=
    Node.compile_spec (Parser.wellFormed_of_parseTop hparsed) hcount
  constructor
  · rintro ⟨t, ht⟩
    obtain ⟨rest, hrest⟩ := hleads hlive w t ht
    exact ⟨rest, (hwords _).1 (ht.append hrest)⟩
  · rintro ⟨rest, hrest⟩
    obtain ⟨t, ht, -⟩ := ((hwords _).2 hrest).of_append
    exact ⟨t, ht⟩

theorem exists_onChart_iff {c : CompiledCfg}
    (hlive : Productive (fun (c : ByteClass) b => c.contains b = true)
      c.rules) (hfits : c.Fits) (hw : w.length < 2 ^ 32) :
    (∃ x, EarleyState.OnChart c w w.length x)
      ↔ ∃ rest, Derives (fun (c : ByteClass) b => c.contains b = true)
          c.rules [.nonTerm c.start] (w ++ rest) := by
  constructor
  · rintro ⟨x, hx⟩
    obtain ⟨rest, hrest⟩ := hx.completable hlive
    rw [List.take_length] at hrest
    exact ⟨rest, hrest⟩
  · rintro ⟨rest, hrest⟩
    obtain ⟨r, p, -, -, hchart⟩ := chart_iff_derives.2 hrest
    have hle : w.length ≤ (w ++ rest).length := by
      rw [List.length_append]
      omega
    obtain ⟨r', d, j, hbefore⟩ := hchart.exists_of_le hle
    have hown : Chart (fun (c : ByteClass) b => c.contains b = true)
        c.rules c.start w w.length r' d j :=
      hbefore.congr fun k hk => (List.getElem?_append_left hk).symm
    exact ⟨_, EarleyState.onChart_itemOf (EarleyState.numbered_of_fits hfits hw) hown⟩

variable {k : Constraint} {state : DecoderState}
  {vocab : List (List UInt8)}

theorem tracks_initial (hfits : k.Fits vocab 0) :
    (initial k.grammar.compiled).Tracks [] k.grammar.compiled := by
  cases k with
  | regex pattern ast parsed =>
    refine ⟨Nfa.saturated_epsilonClosure _ _, ?_⟩
    intro t
    exact Nfa.mem_startSet
  | cfg c =>
    exact EarleyState.exact_new (EarleyState.numbered_of_fits hfits.1 (by decide))

theorem isDead_iff (hlive : k.Live) (hfits : k.Fits vocab w.length)
    (h : state.Tracks w k.grammar.compiled) :
    state.isDead k.grammar.compiled = true ↔ ¬ ∃ rest, w ++ rest ∈ k.language := by
  cases k with
  | regex pattern ast parsed =>
    cases state with
    | cfg earley => exact h.elim
    | nfa active =>
      refine Iff.trans ?_ (not_congr (exists_trace_iff parsed hlive hfits))
      unfold isDead Constraint.grammar
      rw [Std.TreeSet.isEmpty_iff_forall_not_mem, not_exists]
      exact forall_congr' fun t => not_congr (h.2 t)
  | cfg c =>
    cases state with
    | nfa active => exact h.elim
    | cfg earley =>
      refine Iff.trans ?_ (not_congr (exists_onChart_iff hlive hfits.1 hfits.2.1))
      have hexact : EarleyState.Exact c w earley := h
      unfold isDead Constraint.grammar EarleyState.isDead
      rw [EarleyState.isEmpty_iff, hexact.place, not_exists]
      exact forall_congr' fun x =>
        not_congr (hexact.items _ (Nat.le_refl _) x)

theorem isAccept_iff (hfits : k.Fits vocab w.length) (h : state.Tracks w k.grammar.compiled) :
    state.isAccept k.grammar.compiled = true ↔ w ∈ k.language := by
  cases k with
  | regex pattern ast parsed =>
    cases state with
    | cfg earley => exact h.elim
    | nfa active =>
      obtain ⟨o, haccepts, hwords, -⟩ :=
        Node.compile_spec (Parser.wellFormed_of_parseTop parsed) hfits
      refine Iff.trans ?_ (hwords w)
      unfold isAccept Constraint.grammar
      rw [Nfa.anyAccept_iff, ← h.2]
      constructor
      · rintro ⟨t, ht, hacc⟩
        rwa [← (haccepts t).1 hacc]
      · intro ho
        exact ⟨o, ho, (haccepts o).2 rfl⟩
  | cfg c =>
    cases state with
    | nfa active => exact h.elim
    | cfg earley =>
      exact EarleyState.Exact.isAccept_iff (EarleyState.numbered_of_fits hfits.1 hfits.2.1) h

/-- Bytes of a token can be run when they are continued by a word. -/
theorem run_isSome_iff (hlive : k.Live) (hfits : k.Fits vocab w.length)
    (hv : v ∈ vocab) (hne : v ≠ [])
    (hdead : state.isDead k.grammar.compiled = false) (h : state.Tracks w k.grammar.compiled) :
    (state.run k.grammar.compiled v).isSome ↔ ∃ rest, w ++ v ++ rest ∈ k.language := by
  cases k with
  | regex pattern ast parsed =>
    cases state with
    | cfg earley => exact h.elim
    | nfa active =>
      have hsome : ∃ s, s ∈ active := by
        by_contra hnone
        have hempty : active.isEmpty = false := hdead
        rw [Std.TreeSet.isEmpty_eq_false_iff_exists_mem] at hempty
        exact hnone hempty
      refine Iff.trans ?_ (exists_trace_iff parsed hlive hfits)
      show ((ast.compile.runBytes active v).map DecoderState.nfa).isSome ↔ _
      rw [Option.isSome_map, Nfa.runBytes_isSome_iff h.1 hsome]
      apply exists_congr
      intro t
      constructor
      · rintro ⟨s, hs, hst⟩
        exact ((h.2 s).1 hs).append hst
      · intro ht
        obtain ⟨s, hs, hst⟩ := ht.of_append
        exact ⟨s, (h.2 s).2 hs, hst⟩
  | cfg c =>
    cases state with
    | nfa active => exact h.elim
    | cfg earley =>
      have hexact : EarleyState.Exact c w earley := h
      have hlength : (w ++ v).length < 2 ^ 32 := by
        rw [List.length_append]
        exact hfits.2.2 v hv
      refine Iff.trans ?_ (exists_onChart_iff hlive hfits.1 hlength)
      show ((EarleyState.steps c earley v).map DecoderState.cfg).isSome ↔ _
      rw [Option.isSome_map, hexact.steps_isSome_iff
        (EarleyState.numbered_of_fits hfits.1 hlength)]
      exact or_iff_right hne

/-- No bytes can always be run. -/
theorem run_nil (h : state.Tracks w k.grammar.compiled) :
    ∃ next, state.run k.grammar.compiled [] = some next := by
  cases k with
  | regex pattern ast parsed =>
    cases state with
    | nfa active => exact ⟨_, rfl⟩
    | cfg earley => exact h.elim
  | cfg c =>
    cases state with
    | nfa active => exact h.elim
    | cfg earley => exact ⟨_, rfl⟩

theorem Tracks.run (hfits : k.Fits vocab w.length) (hv : v ∈ vocab)
    (h : state.Tracks w k.grammar.compiled) {next : DecoderState}
    (hrun : state.run k.grammar.compiled v = some next) :
    next.Tracks (w ++ v) k.grammar.compiled := by
  cases k with
  | regex pattern ast parsed =>
    cases state with
    | cfg earley => exact h.elim
    | nfa active =>
      obtain ⟨out, hout, rfl⟩ := Option.map_eq_some_iff.1 hrun
      obtain ⟨hsat, hmem⟩ := Nfa.mem_runBytes h.1 hout
      refine ⟨hsat, fun t => (hmem t).trans ?_⟩
      constructor
      · rintro ⟨s, hs, hst⟩
        exact ((h.2 s).1 hs).append hst
      · intro ht
        obtain ⟨s, hs, hst⟩ := ht.of_append
        exact ⟨s, (h.2 s).2 hs, hst⟩
  | cfg c =>
    cases state with
    | nfa active => exact h.elim
    | cfg earley =>
      obtain ⟨out, hout, rfl⟩ := Option.map_eq_some_iff.1 hrun
      have hexact : EarleyState.Exact c w earley := h
      have hlength : (w ++ v).length < 2 ^ 32 := by
        rw [List.length_append]
        exact hfits.2.2 v hv
      exact hexact.steps (EarleyState.numbered_of_fits hfits.1 hlength) hout

end DecoderState

-- ==== decoders

namespace Decoder

theorem allowed_recomputeMask {d : Decoder} (hvocab : d.vocab.length ≤ 2 ^ 32) (token : UInt32) :
    d.recomputeMask.mask.allowed token = true
      ↔ d.state.isDead d.grammar.compiled = false
        ∧ ∃ tok, d.vocab[token.toNat]? = some tok ∧ d.follows tok = true := by
  unfold recomputeMask
  dsimp only
  split
  case isTrue hdead =>
    rw [TokenMask.allowed_new, hdead]
    constructor
    · exact nofun
    · rintro ⟨h, -⟩
      cases h
  case isFalse hdead =>
    rw [Bool.not_eq_true] at hdead
    have hinside : ∀ p ∈ d.vocab.zipIdx,
        p.2 < (TokenMask.new d.vocab.length).len ∧ p.2 < 2 ^ 32 := by
      intro p hp
      have hlt : p.2 < d.vocab.length := List.snd_lt_of_mem_zipIdx hp
      exact ⟨hlt, Nat.lt_of_lt_of_le hlt hvocab⟩
    rw [TokenMask.allowed_foldl hinside, TokenMask.allowed_new]
    constructor
    · rintro (h | ⟨p, hp, hok, hid⟩)
      · exact absurd h Bool.false_ne_true
      · refine ⟨hdead, p.1, ?_, hok⟩
        rw [← hid]
        exact List.mem_zipIdx_iff_getElem?.1 hp
    · rintro ⟨-, tok, htok, hok⟩
      exact Or.inr ⟨(tok, token.toNat), List.mem_zipIdx_iff_getElem?.2 htok, hok, rfl⟩

/-- The decoder after these bytes: its state is that of the recogniser, and
its mask that of its state. -/
structure Sound (k : Constraint) (vocab : List (List UInt8))
    (w : List UInt8) (d : Decoder) : Prop where
  grammar : d.grammar = k.grammar
  vocab : d.vocab = vocab
  tracks : d.state.Tracks w k.grammar.compiled
  mask : d.mask = d.recomputeMask.mask

variable {k : Constraint} {vocab : List (List UInt8)} {w : List UInt8}
  {d : Decoder} {token : UInt32}

/-- A token that is not empty is allowed when the bytes taken and its own
are the beginning of a word. -/
theorem Sound.allowed_iff (hlive : k.Live) (hfits : k.Fits vocab w.length)
    (hvocab : vocab.length ≤ 2 ^ 32) (h : Sound k vocab w d)
    {bytes : List UInt8} (htok : vocab[token.toNat]? = some bytes)
    (hne : bytes ≠ []) :
    d.mask.allowed token = true ↔ ∃ rest, w ++ bytes ++ rest ∈ k.language := by
  have hmem : bytes ∈ vocab := List.mem_of_getElem? htok
  have hdead := DecoderState.isDead_iff hlive hfits h.tracks
  rw [h.mask, allowed_recomputeMask (h.vocab ▸ hvocab), h.vocab, h.grammar]
  unfold follows
  rw [h.grammar]
  constructor
  · rintro ⟨halive, tok, hsome, hfollows⟩
    cases htok.symm.trans hsome
    rw [Bool.or_eq_true, List.isEmpty_iff] at hfollows
    exact (DecoderState.run_isSome_iff hlive hfits hmem hne halive
      h.tracks).1 (hfollows.resolve_left hne)
  · rintro ⟨rest, hrest⟩
    have halive : d.state.isDead k.grammar.compiled = false := by
      rw [← Bool.not_eq_true, hdead, not_not]
      exact ⟨bytes ++ rest, by rwa [← List.append_assoc]⟩
    have hrun := (DecoderState.run_isSome_iff hlive hfits hmem hne halive
      h.tracks).2 ⟨rest, hrest⟩
    exact ⟨halive, bytes, htok, by rw [hrun, Bool.or_true]⟩

theorem Sound.step (hfits : k.Fits vocab w.length)
    (hvocab : vocab.length ≤ 2 ^ 32) (h : Sound k vocab w d) (token : UInt32) :
    (d.mask.allowed token = true ∧ ∃ bytes next,
        vocab[token.toNat]? = some bytes ∧ d.step token = (.ok (), next)
          ∧ Sound k vocab (w ++ bytes) next)
      ∨ (d.mask.allowed token = false ∧ ∃ e, d.step token = (.error e, d)) := by
  have hallowed := allowed_recomputeMask (h.vocab ▸ hvocab) token
  rw [← h.mask, h.vocab] at hallowed
  unfold Decoder.step
  rw [h.vocab]
  cases htok : vocab[token.toNat]? with
  | none =>
    refine Or.inr ⟨?_, _, rfl⟩
    rw [← Bool.not_eq_true, hallowed, htok]
    rintro ⟨-, tok, hnone, -⟩
    cases hnone
  | some bytes =>
    dsimp only
    cases hbit : d.mask.allowed token with
    | false => exact Or.inr ⟨rfl, _, rfl⟩
    | true =>
      obtain ⟨-, tok, hsome, hfollows⟩ := hallowed.1 hbit
      cases htok.symm.trans hsome
      have hrun : ∃ next, d.state.run d.grammar.compiled bytes = some next := by
        unfold follows at hfollows
        rw [Bool.or_eq_true, Option.isSome_iff_exists] at hfollows
        rcases hfollows with hempty | hrun
        · rw [List.isEmpty_iff.1 hempty, h.grammar]
          exact DecoderState.run_nil h.tracks
        · exact hrun
      obtain ⟨next, hnext⟩ := hrun
      rw [hnext]
      rw [h.grammar] at hnext
      exact Or.inl ⟨rfl, bytes, _, rfl, rfl,
        { grammar := h.grammar
          vocab := rfl
          tracks := h.tracks.run hfits (List.mem_of_getElem? htok) hnext
          mask := rfl }⟩

-- ==== runs

def steps (d : Decoder) (tokens : List UInt32) : Decoder :=
  tokens.foldl (fun d token => (d.step token).2) d

def consumed (d : Decoder) : List UInt32 → List UInt8
  | [] => []
  | token :: tokens =>
    (match (d.step token).1 with
      | .ok () => d.vocab.getD token.toNat []
      | .error _ => [])
      ++ (d.step token).2.consumed tokens

theorem Sound.steps (hvocab : vocab.length ≤ 2 ^ 32)
    (h : Sound k vocab w d) {tokens : List UInt32}
    (hfits : k.Fits vocab (w ++ d.consumed tokens).length) :
    Sound k vocab (w ++ d.consumed tokens) (d.steps tokens) := by
  induction tokens generalizing w d with
  | nil =>
    unfold consumed Decoder.steps
    rwa [List.append_nil]
  | cons token tokens ih =>
    have hbefore : k.Fits vocab w.length := by
      apply hfits.mono
      rw [List.length_append]
      omega
    unfold Decoder.steps
    rw [List.foldl_cons]
    unfold consumed at hfits ⊢
    rcases h.step hbefore hvocab token with
      ⟨-, bytes, next, htok, hstep, hnext⟩ | ⟨-, e, hstep⟩
    · rw [hstep] at hfits ⊢
      dsimp only at hfits ⊢
      rw [h.vocab, List.getD_eq_getElem?_getD, htok, Option.getD_some,
        ← List.append_assoc] at hfits ⊢
      exact ih hnext hfits
    · rw [hstep] at hfits ⊢
      dsimp only at hfits ⊢
      rw [List.nil_append] at hfits ⊢
      exact ih h hfits

/-- A decoder that has just been built has taken nothing. -/
theorem sound_new (hnew : Decoder.new k.grammar vocab = .ok d)
    (hfits : k.Fits vocab 0) : Sound k vocab [] d := by
  unfold Decoder.new at hnew
  split at hnew
  · cases hnew
  · cases hnew
    exact { grammar := rfl
            vocab := rfl
            tracks := DecoderState.tracks_initial hfits
            mask := rfl }

end Decoder

/-- In every state of every run: the mask allows a token with bytes when
what was taken and its bytes are the beginning of a word, a step succeeds
when the mask allows its token, and otherwise leaves the decoder as it was,
and the decoder accepts when what was taken is a word. -/
theorem decoding_exact {k : Constraint} (hlive : k.Live)
    {vocab : List (List UInt8)} (hvocab : vocab.length ≤ 2 ^ 32)
    {d₀ : Decoder} (hnew : Decoder.new k.grammar vocab = .ok d₀)
    (tokens : List UInt32) (hfits : k.Fits vocab (d₀.consumed tokens).length) :
    (∀ token bytes, vocab[token.toNat]? = some bytes → bytes ≠ [] →
        ((d₀.steps tokens).mask.allowed token = true
          ↔ ∃ rest, d₀.consumed tokens ++ bytes ++ rest ∈ k.language))
      ∧ (∀ token, ((d₀.steps tokens).step token).1 = .ok ()
          ↔ (d₀.steps tokens).mask.allowed token = true)
      ∧ (∀ token e, ((d₀.steps tokens).step token).1 = .error e →
          ((d₀.steps tokens).step token).2 = d₀.steps tokens)
      ∧ ((d₀.steps tokens).isAccept = true ↔ d₀.consumed tokens ∈ k.language) := by
  have hsound := (Decoder.sound_new hnew (hfits.mono (Nat.zero_le _))).steps hvocab hfits
  rw [List.nil_append] at hsound
  generalize d₀.steps tokens = d at hsound ⊢
  generalize d₀.consumed tokens = w at hsound hfits ⊢
  refine ⟨?_, ?_, ?_, ?_⟩
  · intro token bytes htok hne
    exact hsound.allowed_iff hlive hfits hvocab htok hne
  · intro token
    rcases hsound.step hfits hvocab token with
      ⟨hbit, bytes, next, -, hstep, -⟩ | ⟨hbit, e, hstep⟩
    · rw [hstep, hbit]
      exact ⟨fun _ => rfl, fun _ => rfl⟩
    · rw [hstep, hbit]
      constructor
      · exact nofun
      · exact nofun
  · intro token e he
    rcases hsound.step hfits hvocab token with
      ⟨-, bytes, next, -, hstep, -⟩ | ⟨-, e', hstep⟩
    · rw [hstep] at he
      cases he
    · rw [hstep]
  · unfold Decoder.isAccept
    rw [hsound.grammar]
    exact DecoderState.isAccept_iff hfits hsound.tracks

/-- The pattern of `mixed`, with tokens that overlap. -/
theorem mixed_decoding :
    ∃ (k : Constraint) (d₀ : Decoder), k.language = mixed.language
      ∧ Decoder.new k.grammar [[], [97], [97, 97], [120, 49], [255]] = .ok d₀
      ∧ ∀ tokens : List UInt32,
          ((d₀.steps tokens).mask.allowed 3 = true
              ↔ ∃ rest, d₀.consumed tokens ++ [120, 49] ++ rest ∈ k.language)
            ∧ ((d₀.steps tokens).isAccept = true ↔ d₀.consumed tokens ∈ k.language) := by
  have hparsed : (Parser.new "(?:a|[^b-y\\d])+.\x7b2,3\x7d").parseTop = .ok mixed :=
    rfl
  have hlive : mixed.NoEmptyClass :=
    ⟨⟨⟨97, by decide⟩, ⟨97, by decide⟩, trivial⟩, ⟨97, by decide⟩, trivial⟩
  let k : Constraint := .regex _ mixed hparsed
  have hfits : ∀ n, k.Fits [[], [97], [97, 97], [120, 49], [255]] n := by
    intro n
    show mixed.stateCount + 1 ≤ 2 ^ 32
    decide
  refine ⟨k, _, rfl, rfl, fun tokens => ?_⟩
  obtain ⟨hmask, -, -, haccept⟩ :=
    decoding_exact (k := k) hlive (by decide) rfl tokens (hfits _)
  exact ⟨hmask 3 [120, 49] rfl (by decide), haccept⟩

/-- A pattern whose decoder accepts before anything has been taken, though
the empty string is no word. -/
theorem wrapped_decoder_accepts :
    ¬ ∀ (k : Constraint) (vocab : List (List UInt8)) (d₀ : Decoder),
      k.Live → Decoder.new k.grammar vocab = .ok d₀ →
      ∀ tokens, (d₀.steps tokens).isAccept = true ↔ d₀.consumed tokens ∈ k.language := by
  intro h
  have hparsed : (Parser.new "a\x7b2147483648\x7d").parseTop
      = .ok (.repeated (.byteClass (.single 97)) 2147483648 (some 2147483648)) := rfl
  have haccept := compile_wraps (.single 97)
  have hlive : (Constraint.regex _ _ hparsed).Live := ⟨97, by decide⟩
  have hnil := (h (.regex _ _ hparsed) [[97]] _ hlive rfl []).1 haccept
  exact nil_not_mem_language_copies _ (by decide) _ hnil

end OpenStandards.JouleclawDecode

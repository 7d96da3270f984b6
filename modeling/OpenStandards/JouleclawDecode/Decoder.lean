/-
Context-free grammars and their recogniser: `cfg.rs`.

The recogniser keeps one ordered set of items for every place of the
input. `close` goes over the items of a set in order and puts in what they
predict or complete, until a whole pass has put in nothing; the items it
goes over in a pass are those at its beginning, the parents of a completed
item are those at that moment.

The numbers of an item are cut to 32 bits, and the dot wraps.
-/
import OpenStandards.Lib.Grammar
import OpenStandards.JouleclawDecode.Regex

namespace OpenStandards.JouleclawDecode

open Lib

abbrev CfgSymbol := Lib.Symbol ByteClass String

abbrev CfgRule := Production ByteClass String

/-- The numbers of the rules under each left side, in order. -/
def groupByLhs (rules : List CfgRule) : Std.TreeMap String (List Nat) :=
  rules.zipIdx.foldl (fun byLhs (r, i) => byLhs.insert r.lhs (byLhs.getD r.lhs [] ++ [i])) ∅

/-- A grammar with its rules grouped by their left sides. -/
structure CompiledCfg where
  rules : List CfgRule
  byLhs : Std.TreeMap String (List Nat)
  start : String
  grouped : byLhs = groupByLhs rules

namespace CompiledCfg

/-- The non-terminals on the right sides, in order. -/
def references (rules : List CfgRule) : List String :=
  rules.flatMap fun r => r.rhs.filterMap fun
    | .nonTerm name => some name
    | .term _ => none

def fromRules (rules : List CfgRule) : Except DecodeError CompiledCfg :=
  match rules with
  | [] => .error (.cfg "no rules supplied")
  | first :: _ =>
    let byLhs := groupByLhs rules
    match (references rules).find? fun name => !byLhs.contains name with
    | some name =>
      .error (.cfg ("non-terminal `" ++ name ++ "` referenced but never defined"))
    | none =>
      .ok { rules := rules, byLhs := byLhs, start := first.lhs,
            grouped := rfl }

/-- The rule under a number. The code indexes the vector, and would panic
for a number that it does not have. -/
def rule (cfg : CompiledCfg) (id : UInt32) : CfgRule :=
  cfg.rules.getD id.toNat { lhs := "", rhs := [] }

end CompiledCfg

-- ==== items

/-- A rule, how much of it has been read, and from where. -/
structure Item where
  rule : UInt32
  dot : UInt32
  origin : UInt32

namespace Item

/-- Items are ordered by the rule, then the dot, then the origin. -/
instance : Ord Item :=
  ⟨compareLex (compareOn rule) (compareLex (compareOn dot) (compareOn origin))⟩

def next (cfg : CompiledCfg) (item : Item) : Option CfgSymbol :=
  (cfg.rule item.rule).rhs[item.dot.toNat]?

def advance (item : Item) : Item := { item with dot := item.dot + 1 }

end Item

abbrev ItemSet := Std.TreeSet Item

/-- One set for every place. -/
structure EarleyState where
  sets : List ItemSet

namespace EarleyState

def itemsAt (state : EarleyState) (i : Nat) : ItemSet := state.sets.getD i ∅

def place (state : EarleyState) : Nat := state.sets.length - 1

def put (i : Nat) (acc : EarleyState × Bool) (item : Item) : EarleyState × Bool :=
  if (acc.1.itemsAt i).contains item then acc
  else ({ sets := acc.1.sets.modify i (·.insert item) }, true)

/-- What an item at a place puts in: the beginnings of the rules of the
symbol after its dot, or, at its end, the items of the place where it began
that wait for its left side. -/
def follow (cfg : CompiledCfg) (i : Nat) (state : EarleyState) (item : Item) : List Item :=
  match item.next cfg with
  | some (.nonTerm name) =>
    (cfg.byLhs.getD name []).map fun rid =>
      { rule := UInt32.ofNat rid, dot := 0, origin := UInt32.ofNat i }
  | some (.term _) => []
  | none =>
    (((state.itemsAt item.origin.toNat).toList).filter fun parent =>
      parent.next cfg = some (.nonTerm (cfg.rule item.rule).lhs)).map Item.advance

def pass (cfg : CompiledCfg) (i : Nat) (state : EarleyState) : EarleyState × Bool :=
  (state.itemsAt i).toList.foldl
    (fun acc item => (follow cfg i acc.1 item).foldl (put i) acc)
    (state, false)

/-- The loop of `close`. -/
def closeLoop (cfg : CompiledCfg) (i : Nat) : Nat → EarleyState → Option EarleyState :=
  saturate (pass cfg i)

/-- Every pass but the last puts an item in, and there are `2 ^ 96` items,
so the loop has ended after one pass more. -/
def close (cfg : CompiledCfg) (state : EarleyState) (i : Nat) : EarleyState :=
  (closeLoop cfg i (2 ^ 96 + 1) state).getD state

/-- The recogniser before the first byte. -/
def new (cfg : CompiledCfg) : EarleyState :=
  let seed := (cfg.byLhs.getD cfg.start []).foldl
    (fun set rid => set.insert
      { rule := UInt32.ofNat rid, dot := 0, origin := 0 })
    (∅ : ItemSet)
  close cfg { sets := [seed] } 0

/-- The items whose dot a byte takes on. -/
def scan (cfg : CompiledCfg) (b : UInt8) (set : ItemSet) : ItemSet :=
  set.toList.foldl
    (fun next item =>
      match item.next cfg with
      | some (.term c) =>
        if c.contains b then next.insert item.advance else next
      | _ => next) ∅

def step (state : EarleyState) (cfg : CompiledCfg) (b : UInt8) : Option EarleyState :=
  let i := state.place
  let next := scan cfg b (state.itemsAt i)
  if next.isEmpty then none
  else some (close cfg { sets := state.sets ++ [next] } (i + 1))

def isAccept (state : EarleyState) (cfg : CompiledCfg) : Bool :=
  (state.itemsAt state.place).toList.any fun item =>
    (cfg.rule item.rule).lhs == cfg.start
      && item.dot.toNat == (cfg.rule item.rule).rhs.length
      && item.origin == 0

def isDead (state : EarleyState) : Bool := (state.itemsAt state.place).isEmpty

def permittedNext (state : EarleyState) (cfg : CompiledCfg) : ByteClass :=
  (state.itemsAt state.place).toList.foldl
    (fun acc item =>
      match item.next cfg with
      | some (.term c) => acc.unionWith c
      | _ => acc) .empty

/-- Bytes one after the other, as long as they can follow. -/
def steps (cfg : CompiledCfg) : EarleyState → List UInt8 → Option EarleyState
  | state, [] => some state
  | state, b :: bytes =>
    match state.step cfg b with
    | some next => steps cfg next bytes
    | none => none

end EarleyState

/-
The constrained decoder: `mask.rs`, `grammar.rs` and `decoder.rs`.

In every state the decoder goes over the vocabulary once and notes in a
mask which tokens can follow. A token is taken when its bit is set, and its
bytes are then run once more from the state. The place of a token is cut to
32 bits when its bit is set. The texts that a grammar was made from are
left out.
-/

-- ==== masks

/-- A set of token ids, lowest bit first. -/
structure TokenMask where
  bits : List UInt64
  len : Nat
  sized : bits.length = (len + 63) / 64

namespace TokenMask

def new (len : Nat) : TokenMask :=
  { bits := List.replicate ((len + 63) / 64) 0, len := len,
    sized := List.length_replicate }

/-- An id past the end is left. -/
def allow (mask : TokenMask) (tok : UInt32) : TokenMask :=
  if tok.toNat ≥ mask.len then mask
  else { mask with
          bits := Words.set mask.bits tok.toNat
          sized := by rw [Words.length_set, mask.sized] }

def allowed (mask : TokenMask) (tok : UInt32) : Bool :=
  if tok.toNat ≥ mask.len then false else Words.test mask.bits tok.toNat

end TokenMask

-- ==== grammars

/-- A grammar as it is run. -/
inductive Compiled where
  | nfa (nfa : Nfa)
  | cfg (cfg : CompiledCfg)

structure Grammar where
  compiled : Compiled

namespace Grammar

end Grammar

-- ==== decoders

inductive DecoderState where
  | nfa (active : StateSet)
  | cfg (earley : EarleyState)

namespace DecoderState

def initial : Compiled → DecoderState
  | .nfa n => .nfa n.startSet
  | .cfg c => .cfg (EarleyState.new c)

def isAccept : Compiled → DecoderState → Bool
  | .nfa n, .nfa active => n.anyAccept active
  | .cfg c, .cfg earley => earley.isAccept c
  | _, _ => false

def isDead : Compiled → DecoderState → Bool
  | .nfa _, .nfa active => active.isEmpty
  | .cfg _, .cfg earley => earley.isDead
  | _, _ => true

/-- The state after the bytes of a token, where they can follow. -/
def run : Compiled → DecoderState → List UInt8 → Option DecoderState
  | .nfa n, .nfa active, bytes => (n.runBytes active bytes).map .nfa
  | .cfg c, .cfg earley, bytes =>
    (EarleyState.steps c earley bytes).map .cfg
  | _, _, _ => none

end DecoderState

structure Decoder where
  grammar : Grammar
  vocab : List (List UInt8)
  state : DecoderState
  mask : TokenMask

namespace Decoder

def follows (d : Decoder) (tok : List UInt8) : Bool :=
  tok.isEmpty || (d.state.run d.grammar.compiled tok).isSome

/-- The tokens that can be taken next. -/
def recomputeMask (d : Decoder) : Decoder :=
  let mask := TokenMask.new d.vocab.length
  { d with
    mask :=
      if d.state.isDead d.grammar.compiled then mask
      else
        d.vocab.zipIdx.foldl
          (fun mask (tok, i) =>
            if d.follows tok then mask.allow (UInt32.ofNat i) else mask)
          mask }

def new (grammar : Grammar) (vocab : List (List UInt8)) : Except DecodeError Decoder :=
  if vocab.isEmpty then .error .emptyVocabulary
  else
    .ok <| recomputeMask
      { grammar := grammar, vocab := vocab,
        state := .initial grammar.compiled,
        mask := .new vocab.length }

def isAccept (d : Decoder) : Bool := d.state.isAccept d.grammar.compiled

def step (d : Decoder) (token : UInt32) : Except DecodeError Unit × Decoder :=
  match d.vocab[token.toNat]? with
  | none => (.error (.tokenOutOfRange token d.vocab.length), d)
  | some bytes =>
    if !d.mask.allowed token then (.error (.tokenNotAllowed token), d)
    else
      match d.state.run d.grammar.compiled bytes with
      | some next => (.ok (), recomputeMask { d with state := next })
      | none => (.error (.tokenNotAllowed token), d)

end Decoder

end OpenStandards.JouleclawDecode

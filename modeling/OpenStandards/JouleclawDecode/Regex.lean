/-
Regular expressions over bytes: `regex_compile.rs`, the parser and the
construction of the automaton.

The parser reads the bytes of the pattern by recursive descent. Each
function takes one unit of fuel for its call, and `parseTop` gives it
enough for every pattern. `build` puts the fragment of a node into the one
state vector and returns the ids of its ends; a repetition is built from
the fragment of its node.
-/
import OpenStandards.JouleclawDecode.Automaton

namespace OpenStandards.JouleclawDecode

/-- The parsed pattern. -/
inductive Node where
  | empty
  | byteClass (c : ByteClass)
  | concat (parts : List Node)
  | alt (alts : List Node)
  | star (inner : Node)
  | plus (inner : Node)
  | opt (inner : Node)
  | repeated (inner : Node) (n : Nat) (m : Option Nat)

/-- Why there is no parse. -/
inductive Stop where
  | err (e : DecodeError)
  | unfinished

-- ==== parser

structure Parser where
  src : List UInt8
  pos : Nat

namespace Parser

def new (s : String) : Parser := { src := s.toUTF8.data.toList, pos := 0 }

def err {α : Type} (p : Parser) (msg : String) : Except Stop α :=
  .error (.err (.regexParse p.pos msg))

def peek (p : Parser) : Option UInt8 := p.src[p.pos]?

def peekNext (p : Parser) : Option UInt8 := p.src[p.pos + 1]?

/-- One byte on, where there is one. -/
def bump (p : Parser) : Parser :=
  if p.pos < p.src.length then { p with pos := p.pos + 1 } else p

/-- The next byte is this one. -/
def at? (p : Parser) (c : Char) : Bool := p.peek == some c.toUInt8

/-- A byte `as char`. -/
def asChar (b : UInt8) : String := String.singleton (Char.ofNat b.toNat)

-- ==== numbers and bytes

def isAsciiDigit (b : UInt8) : Bool :=
  '0'.toUInt8 ≤ b && b ≤ '9'.toUInt8

def decimal (digits : List UInt8) : Nat :=
  digits.foldl (fun n b => 10 * n + (b - '0'.toUInt8).toNat) 0

/-- A number as a 64-bit `usize`. -/
def parseUint (p : Parser) : Except Stop (Nat × Parser) :=
  let digits := (p.src.drop p.pos).takeWhile isAsciiDigit
  let p := { p with pos := p.pos + digits.length }
  if digits.isEmpty then p.err "expected number"
  else if decimal digits < 2 ^ 64 then .ok (decimal digits, p)
  else p.err "number out of range"

/-- The bounds of a repetition, after its opening brace. -/
def parseRepeatBounds (p : Parser) : Except Stop ((Nat × Option Nat) × Parser) := do
  let (n, p) ← p.parseUint
  if p.at? '}' then .ok ((n, some n), p.bump)
  else if p.at? ',' then
    let p := p.bump
    if p.at? '}' then .ok ((n, none), p.bump)
    else
      let (m, p) ← p.parseUint
      if !p.at? '}' then p.err "expected `\x7d` in repeat"
      else
        let p := p.bump
        if m < n then p.err "repeat upper bound smaller than lower"
        else .ok ((n, some m), p)
  else p.err "malformed repeat bounds"

def hexVal (b : UInt8) : Except Stop UInt8 :=
  if '0'.toUInt8 ≤ b && b ≤ '9'.toUInt8 then .ok (b - '0'.toUInt8)
  else if 'a'.toUInt8 ≤ b && b ≤ 'f'.toUInt8 then
    .ok (b - 'a'.toUInt8 + 10)
  else if 'A'.toUInt8 ≤ b && b ≤ 'F'.toUInt8 then
    .ok (b - 'A'.toUInt8 + 10)
  else
    .error (.err (.regexParse 0 ("not a hex digit: `" ++ asChar b ++ "`")))

def singleByte (c : ByteClass) : Option UInt8 :=
  match ((List.range 256).map UInt8.ofNat).filter c.contains with
  | [b] => some b
  | _ => none

-- ==== escapes

def digit : ByteClass := .range '0'.toUInt8 '9'.toUInt8

def word : ByteClass :=
  (((ByteClass.range 'a'.toUInt8 'z'.toUInt8).unionWith
    (.range 'A'.toUInt8 'Z'.toUInt8)).unionWith
    (.range '0'.toUInt8 '9'.toUInt8)).add '_'.toUInt8

def space : ByteClass :=
  [' '.toUInt8, '\t'.toUInt8, '\n'.toUInt8, '\r'.toUInt8, 0x0C, 0x0B].foldl .add .empty

/-- The punctuation that a backslash makes literal. -/
def punctuation : List UInt8 :=
  ['\\', '/', '"', '\'', '.', '(', ')', '[', ']', '{', '}', '|', '+', '*',
    '?', '^', '$', '-'].map Char.toUInt8

def letterEscapes : List (UInt8 × ByteClass) :=
  [('d'.toUInt8, digit), ('D'.toUInt8, digit.complement),
    ('w'.toUInt8, word), ('W'.toUInt8, word.complement),
    ('s'.toUInt8, space), ('S'.toUInt8, space.complement),
    ('n'.toUInt8, .single '\n'.toUInt8),
    ('r'.toUInt8, .single '\r'.toUInt8),
    ('t'.toUInt8, .single '\t'.toUInt8), ('0'.toUInt8, .single 0)]

def parseHex (p : Parser) : Except Stop (ByteClass × Parser) :=
  match p.peek, p.peekNext with
  | some hi, some lo => do
    let hi ← hexVal hi
    let lo ← hexVal lo
    .ok (.single (hi <<< 4 ||| lo), p.bump.bump)
  | some _, none => p.bump.err "\\x needs two hex digits"
  | none, _ => p.err "\\x needs two hex digits"

def parseEscape (p : Parser) : Except Stop (ByteClass × Parser) :=
  match p.peek with
  | none => p.err "dangling backslash"
  | some b =>
    let p := p.bump
    match letterEscapes.lookup b with
    | some cls => .ok (cls, p)
    | none =>
      if b = 'x'.toUInt8 then p.parseHex
      else if b ∈ punctuation then .ok (.single b, p)
      else p.err ("unknown escape `\\" ++ asChar b ++ "`")

-- ==== character classes

def parseUpper (p : Parser) : Except Stop (UInt8 × Parser) :=
  match p.peek with
  | none => p.err "unterminated range"
  | some b =>
    if b = '\\'.toUInt8 then do
      let (esc, p) ← p.bump.parseEscape
      match singleByte esc with
      | some hi => .ok (hi, p)
      | none => p.err "escape in range upper bound is not single byte"
    else .ok (b, p.bump)

def parseRange (p : Parser) (cls : ByteClass) (lo : UInt8) : Except Stop (ByteClass × Parser) :=
  if p.at? '-' && p.peekNext != some ']'.toUInt8 && p.peekNext.isSome then do
    let (hi, p) ← p.bump.parseUpper
    if hi < lo then p.err "inverted range in character class"
    else .ok (cls.unionWith (.range lo hi), p)
  else .ok (cls.add lo, p)

def classLoop : Nat → Parser → ByteClass → Bool → Except Stop (ByteClass × Parser)
  | 0, _, _, _ => .error .unfinished
  | fuel + 1, p, cls, first =>
    match p.peek with
    | none => p.err "unterminated character class"
    | some b =>
      if b = ']'.toUInt8 && !first then .ok (cls, p.bump)
      else if b = '\\'.toUInt8 then do
        let (esc, p) ← p.bump.parseEscape
        match singleByte esc with
        | some lo =>
          let (cls, p) ← p.parseRange cls lo
          classLoop fuel p cls false
        | none => classLoop fuel p (cls.unionWith esc) false
      else do
        let (cls, p) ← p.bump.parseRange cls b
        classLoop fuel p cls false

/-- A character class, after its opening bracket. -/
def parseCharClass (p : Parser) : Except Stop (ByteClass × Parser) := do
  let negate := p.at? '^'
  let p := if negate then p.bump else p
  let (cls, p) ← classLoop (p.src.length + 1) p .empty true
  .ok (if negate then cls.complement else cls, p)

-- ==== patterns

/-- The bytes an atom cannot start with. -/
def reserved : List UInt8 :=
  [')', '|', '*', '+', '?', '{', '}', ']'].map Char.toUInt8

/-- One node for a list of them, or `several` of it. -/
def collect (several : List Node → Node) : List Node → Node
  | [] => .empty
  | [node] => node
  | nodes => several nodes

mutual

def parseAlt : Nat → Parser → Except Stop (Node × Parser)
  | 0, _ => .error .unfinished
  | fuel + 1, p => do
    let (first, p) ← parseConcat fuel p
    let (alts, p) ← altLoop fuel p [first]
    .ok (collect .alt alts, p)

/-- The alternatives after the first. -/
def altLoop : Nat → Parser → List Node → Except Stop (List Node × Parser)
  | 0, _, _ => .error .unfinished
  | fuel + 1, p, alts =>
    if p.at? '|' then do
      let (node, p) ← parseConcat fuel p.bump
      altLoop fuel p (alts ++ [node])
    else .ok (alts, p)

def parseConcat : Nat → Parser → Except Stop (Node × Parser)
  | 0, _ => .error .unfinished
  | fuel + 1, p => do
    let (parts, p) ← concatLoop fuel p []
    .ok (collect .concat parts, p)

/-- The parts up to a bar, a closing parenthesis or the end. -/
def concatLoop : Nat → Parser → List Node → Except Stop (List Node × Parser)
  | 0, _, _ => .error .unfinished
  | fuel + 1, p, parts =>
    match p.peek with
    | none => .ok (parts, p)
    | some b =>
      if b = '|'.toUInt8 || b = ')'.toUInt8 then .ok (parts, p)
      else do
        let (node, p) ← parseQuantified fuel p
        concatLoop fuel p (parts ++ [node])

def parseQuantified : Nat → Parser → Except Stop (Node × Parser)
  | 0, _ => .error .unfinished
  | fuel + 1, p => do
    let (atom, p) ← parseAtom fuel p
    if p.at? '*' then .ok (.star atom, p.bump)
    else if p.at? '+' then .ok (.plus atom, p.bump)
    else if p.at? '?' then .ok (.opt atom, p.bump)
    else if p.at? '{' then
      let ((n, m), p) ← p.bump.parseRepeatBounds
      .ok (.repeated atom n m, p)
    else .ok (atom, p)

def parseAtom : Nat → Parser → Except Stop (Node × Parser)
  | 0, _ => .error .unfinished
  | fuel + 1, p =>
    match p.peek with
    | none => p.err "unexpected end"
    | some b =>
      if b = '('.toUInt8 then do
        let p := p.bump
        let p :=
          if p.at? '?' && p.peekNext == some ':'.toUInt8 then
            { p with pos := p.pos + 2 }
          else p
        let (inner, p) ← parseAlt fuel p
        if p.at? ')' then .ok (inner, p.bump) else p.err "unmatched `(`"
      else if b = '['.toUInt8 then do
        let (cls, p) ← p.bump.parseCharClass
        .ok (.byteClass cls, p)
      else if b = '.'.toUInt8 then .ok (.byteClass .full, p.bump)
      else if b = '\\'.toUInt8 then do
        let (cls, p) ← p.bump.parseEscape
        .ok (.byteClass cls, p)
      else if b ∈ reserved then
        p.err ("unexpected `" ++ asChar b ++ "`")
      else .ok (.byteClass (.single b), p.bump)

end

def parseTop (p : Parser) : Except Stop Node := do
  let (node, p) ← parseAlt (6 * p.src.length + 6) p
  if p.pos ≠ p.src.length then p.err "trailing input after pattern"
  else .ok node

end Parser

-- ==== construction

abbrev Ends := StateId × StateId

/-- A piece of construction, on the one state vector. -/
abbrev Build := Nfa → Nfa × Ends

namespace Build

/-- Two fresh states with one edge between them. -/
def edge (e : StateId → Edge) : Build := fun n =>
  let (n, a) := n.addState
  let (n, b) := n.addState
  (n.addEdge a (e b), a, b)

/-- Each fragment after the one before it. -/
def chain (n : Nfa) (firstIn lastOut : StateId) : List Build → Nfa × Ends
  | [] => (n, firstIn, lastOut)
  | part :: parts =>
    let (n, pin, pout) := part n
    chain (n.addEdge lastOut (.epsilon pin)) firstIn pout parts

def concat : List Build → Build
  | [] => edge .epsilon
  | part :: parts => fun n =>
    let (n, firstIn, lastOut) := part n
    chain n firstIn lastOut parts

def branch (n : Nfa) (a b : StateId) : List Build → Nfa × Ends
  | [] => (n, a, b)
  | alt :: alts =>
    let (n, ain, aout) := alt n
    let n := n.addEdge a (.epsilon ain)
    branch (n.addEdge aout (.epsilon b)) a b alts

def alt (alts : List Build) : Build := fun n =>
  let (n, a) := n.addState
  let (n, b) := n.addState
  branch n a b alts

/-- A fragment between two fresh ends, with an edge past it where `skip`
and an edge back where `back`. -/
def wrap (skip back : Bool) (inner : Build) : Build := fun n =>
  let (n, a) := n.addState
  let (n, b) := n.addState
  let (n, iin, iout) := inner n
  let n := n.addEdge a (.epsilon iin)
  let n := if skip then n.addEdge a (.epsilon b) else n
  let n := if back then n.addEdge iout (.epsilon iin) else n
  (n.addEdge iout (.epsilon b), a, b)

def star : Build → Build := wrap true true

def plus : Build → Build := wrap false true

def opt : Build → Build := wrap true false

end Build

/-- The copies that a repetition stands for: `n` of the thing, then the
rest as optional ones, or as one starred one where there is no bound. -/
def copies {α : Type} (opt star : α → α) (inner : α) (n : Nat) (m : Option Nat) : List α :=
  List.replicate n inner ++
    match m with
    | some m => List.replicate (m - n) (opt inner)
    | none => [star inner]

mutual

def build : Node → Build
  | .empty => .edge .epsilon
  | .byteClass c => .edge (.byteClass c)
  | .concat parts => .concat (buildAll parts)
  | .alt alts => .alt (buildAll alts)
  | .star inner => .star (build inner)
  | .plus inner => .plus (build inner)
  | .opt inner => .opt (build inner)
  | .repeated inner n m => .concat (copies .opt .star (build inner) n m)

def buildAll : List Node → List Build
  | [] => []
  | node :: nodes => build node :: buildAll nodes

end

/-- The automaton of a parsed pattern. -/
def Node.compile (ast : Node) : Nfa :=
  let (n, start) := Nfa.new.addState
  let n := { n with start := start }
  let (n, inS, outS) := build ast n
  let n := n.addEdge start (.epsilon inS)
  { n with accepts := n.accepts.insert outS }

def compile (pattern : String) : Except Stop Nfa := do
  let ast ← (Parser.new pattern).parseTop
  .ok ast.compile

end OpenStandards.JouleclawDecode

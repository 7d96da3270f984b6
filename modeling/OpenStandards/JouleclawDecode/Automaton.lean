/-
Byte-level automata with epsilon edges: `automaton.rs`, and the errors of
`error.rs`.

State ids are 32-bit: `addState` gives the length of the state vector cut
to 32 bits. A state set is walked in ascending order, and its epsilon
closure is a worklist, filled in that order and taken from the end.
-/
import OpenStandards.Lib.Worklist
import Mathlib.Algebra.Group.Nat.Defs

namespace OpenStandards.JouleclawDecode

open Lib

inductive DecodeError where
  | regexParse (pos : Nat) (msg : String)
  | cfg (msg : String)
  | tokenNotAllowed (token : UInt32)
  | tokenOutOfRange (token : UInt32) (size : Nat)
  | emptyVocabulary

-- ==== byte classes

/-- A set of bytes, in four words. -/
structure ByteClass where
  bits : List UInt64
  size : bits.length = 4
deriving DecidableEq

namespace ByteClass

def empty : ByteClass := ⟨List.replicate 4 0, rfl⟩

def full : ByteClass := ⟨List.replicate 4 (~~~ 0), rfl⟩

def add (c : ByteClass) (b : UInt8) : ByteClass :=
  ⟨Words.set c.bits b.toNat, by rw [Words.length_set, c.size]⟩

def contains (c : ByteClass) (b : UInt8) : Bool :=
  Words.test c.bits b.toNat

def single (b : UInt8) : ByteClass := empty.add b

/-- The bytes `lo..=hi`. -/
def range (lo hi : UInt8) : ByteClass :=
  (List.range' lo.toNat (hi.toNat + 1 - lo.toNat)).foldl
    (fun s b => s.add (UInt8.ofNat b)) empty

def unionWith (c d : ByteClass) : ByteClass :=
  ⟨Words.union c.bits d.bits, by
    rw [Words.length_union, c.size, d.size, Nat.min_self]⟩

def complement (c : ByteClass) : ByteClass :=
  ⟨Words.complement c.bits, by rw [Words.length_complement, c.size]⟩

end ByteClass

-- ==== automata

/-- Index into the states. -/
abbrev StateId := UInt32

abbrev StateSet := Std.TreeSet StateId

/-- A transition out of a state. -/
inductive Edge where
  | byteClass (c : ByteClass) (target : StateId)
  | epsilon (target : StateId)

def Edge.epsilonTarget : Edge → Option StateId
  | .epsilon t => some t
  | .byteClass .. => none

structure Nfa where
  states : List (List Edge)
  start : StateId
  accepts : StateSet

namespace Nfa

def new : Nfa := { states := [], start := 0, accepts := ∅ }

/-- A fresh state, under the length of the vector as a 32-bit number. -/
def addState (n : Nfa) : Nfa × StateId :=
  ({ n with states := n.states ++ [[]] }, UInt32.ofNat n.states.length)

def addEdge (n : Nfa) (source : StateId) (edge : Edge) : Nfa :=
  { n with states := n.states.modify source.toNat (· ++ [edge]) }

/-- The edges out of a state. The code indexes the vector, and would
panic for an id that it does not have. -/
def edges (n : Nfa) (s : StateId) : List Edge :=
  n.states.getD s.toNat []

/-- The loop of `epsilonClosure`, on a set and the stack. -/
def closureLoop (n : Nfa) : Nat → StateSet → List StateId → Option StateSet :=
  Worklist.loop fun s => (n.edges s).filterMap Edge.epsilonTarget

/-- The stack starts as the set in ascending order and is taken from the
end. There are `2 ^ 32` ids, so the loop has ended after as many rounds. -/
def epsilonClosure (n : Nfa) (set : StateSet) : StateSet :=
  (n.closureLoop (2 ^ 32) set set.toList.reverse).getD set

def take (b : UInt8) (next : StateSet) : Edge → StateSet
  | .byteClass c t => if c.contains b then next.insert t else next
  | .epsilon _ => next

/-- The states one byte leads to. -/
def step (n : Nfa) (set : StateSet) (b : UInt8) : StateSet :=
  n.epsilonClosure <|
    set.toList.foldl (fun next s => (n.edges s).foldl (take b) next) ∅

def anyAccept (n : Nfa) (set : StateSet) : Bool :=
  set.toList.any fun s => n.accepts.contains s

/-- No result where the run comes to a dead end. -/
def runBytes (n : Nfa) : StateSet → List UInt8 → Option StateSet
  | cur, [] => some cur
  | cur, b :: bytes =>
    let cur := n.step cur b
    if cur.isEmpty then none else n.runBytes cur bytes

def startSet (n : Nfa) : StateSet :=
  n.epsilonClosure ((∅ : StateSet).insert n.start)

end Nfa

end OpenStandards.JouleclawDecode

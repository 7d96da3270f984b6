/-
Merging states (smart-byte-crdt `types.rs`): `merge` and `delta` of
observed-remove sets and growable arrays, and `merge` of last-write-wins
maps.

A hash map is walked in an order of its own. Where that could matter, in the
merge of two maps, the order is free: any permutation of the entries and of
the tombstones.
-/
import OpenStandards.Crdt.Types
import OpenStandards.Lib.Run

namespace OpenStandards.Crdt

open Lib

-- ==== last-write-wins maps

namespace LwwMap

variable {K V : Type} [DecidableEq K]

/-- The two passes of `merge`: the other map's entries are set, then its
tombstones are removals. -/
def mergeFrom (m : LwwMap K V) (entries : List (K × V × Stamp))
    (tombstones : List (K × Stamp)) : LwwMap K V :=
  tombstones.foldl (fun m e => m.remove e.1 e.2)
    (entries.foldl (fun m e => m.set e.1 e.2.1 e.2.2) m)

/-- What a merge can leave. -/
def Merges (m other merged : LwwMap K V) : Prop :=
  ∃ entries tombstones, entries.Perm other.entries
    ∧ tombstones.Perm other.tombstones
    ∧ merged = m.mergeFrom entries tombstones

end LwwMap

-- ==== observed-remove sets

/-- The sequence number of a tag: its wall reading shifted by twenty bits,
a 64-bit word that saturates, with the logical counter or-ed in. -/
def tagSeq (t : UniqueTag) : Nat :=
  min (t.hlc.wall * 2 ^ 20) maxU64 ||| t.hlc.logical

namespace OrSet

variable {T : Type} [DecidableEq T]

def merge (s other : OrSet T) : OrSet T :=
  { items := other.items.entries.foldl
      (fun items e =>
        items.insert e.1 ((items.lookup e.1).getD ∅ ∪ e.2)) s.items
    removedTags := s.removedTags ∪ other.removedTags }

def fresh (since : VectorClock) (tags : Finset UniqueTag) : Finset UniqueTag :=
  tags.filter fun t => since.get t.replica < tagSeq t

def delta (s : OrSet T) (since : VectorClock) : OrSet T :=
  { items := s.items.entries.foldl
      (fun items e =>
        if fresh since e.2 = ∅ then items
        else items.insert e.1 (fresh since e.2)) ∅
    removedTags := fresh since s.removedTags }

end OrSet

-- ==== replicated growable arrays

namespace RgaList

variable {T : Type}

def insertAfter (l : RgaList T) (parent : Option RgaPos) (value : T)
    (ts : HybridLogicalClock) (replica : ReplicaId) (counter : Nat) :
    RgaList T × RgaPos :=
  let pos : RgaPos := { hlc := ts, replica, counter }
  (l.pushNode parent pos value, pos)

/-- One turn of the loop of `merge`: a node that is there may be deleted, a
new one is pushed. -/
def absorb (nodes : List (RgaNode T)) (n : RgaNode T) : List (RgaNode T) :=
  if ∃ m ∈ nodes, m.pos = n.pos then
    if n.tombstone then markDeleted n.pos nodes else nodes
  else nodes ++ [n]

def merge (l other : RgaList T) : RgaList T :=
  { nodes := resort (other.nodes.foldl absorb l.nodes) }

def delta (l : RgaList T) (since : VectorClock) : RgaList T :=
  { nodes := resort
      (l.nodes.filter fun n => since.get n.pos.replica < n.pos.counter) }

end RgaList

/-
Clocks compared and merged (smart-byte-crdt `hlc.rs`, `vector_clock.rs`):
the update of a hybrid clock by an observed timestamp, and the order and the
merge of vector clocks.

Every reading of the wall clock is an argument of its call. The equality of
two vector clocks is that of their maps, an explicit zero included.
-/

-- ==== hybrid clocks

namespace HlcClock

/-- The logical counter behind the largest of three wall readings. -/
def updateLogical (last observed : HybridLogicalClock) (maxWall : Nat) : Nat :=
  if maxWall = last.wall ∧ maxWall = observed.wall then
    tickLogical (max last.logical observed.logical)
  else if maxWall = last.wall then tickLogical last.logical
  else if maxWall = observed.wall then tickLogical observed.logical
  else 0

/-- A timestamp behind the last one and an observed one, the wall clock
reading `wall`. -/
def update (c : HlcClock) (observed : HybridLogicalClock) (wall : Nat) :
    HybridLogicalClock × HlcClock :=
  let maxWall := max (max wall c.last.wall) observed.wall
  let next : HybridLogicalClock :=
    { wall := maxWall, logical := updateLogical c.last observed maxWall
      node := c.node }
  (next, { c with last := next })

end HlcClock

/-- The calls of a clock that emit a timestamp, with the wall reading. -/
inductive ClockCall where
  | now (wall : Nat)
  | update (observed : HybridLogicalClock) (wall : Nat)

namespace ClockCall

def perform (c : HlcClock) : ClockCall → HybridLogicalClock × HlcClock
  | .now wall => c.now wall
  | .update observed wall => c.update observed wall

def step (c : HlcClock) (call : ClockCall) : HlcClock := (call.perform c).2

def emitted (c : HlcClock) : List ClockCall → List HybridLogicalClock
  | [] => []
  | call :: calls => (call.perform c).1 :: emitted (step c call) calls

def observed? : ClockCall → Option HybridLogicalClock
  | .now _ => none
  | .update observed _ => some observed

end ClockCall

-- ==== vector clocks

namespace VectorClock

/-- Bump a replica's own counter, a 64-bit word. -/
def tick (vc : VectorClock) (r : ReplicaId) : VectorClock × Nat :=
  let seq := (vc.get r + 1) % (maxU64 + 1)
  ({ entries := vc.entries.insert r seq }, seq)

/-- The first loop of `happens_before`: it stops at an entry that is larger
than the other clock's, and tells whether one was smaller. -/
def noLarger (other : VectorClock) : List (Sigma fun _ : ReplicaId => Nat) → Bool → Option Bool
  | [], strict => some strict
  | e :: es, strict =>
    if other.get e.1 < e.2 then none
    else noLarger other es (strict || decide (e.2 < other.get e.1))

/-- The second loop: an entry that only the other clock has. -/
def gains (vc : VectorClock) (es : List (Sigma fun _ : ReplicaId => Nat)) : Bool :=
  es.any fun e => (vc.entries.lookup e.1).isNone && decide (0 < e.2)

def happensBefore (vc other : VectorClock) : Bool :=
  match noLarger other vc.entries.entries false with
  | none => false
  | some strict => strict || gains vc other.entries.entries

/-- The derived equality: the same entries. -/
def same (vc other : VectorClock) : Bool :=
  (vc.entries.keys ++ other.entries.keys).all fun r =>
    decide (vc.entries.lookup r = other.entries.lookup r)

def concurrent (vc other : VectorClock) : Bool :=
  !happensBefore vc other && !happensBefore other vc && !same vc other

def merge (vc other : VectorClock) : VectorClock :=
  other.entries.entries.foldl (fun vc e => vc.observe e.1 e.2) vc

end VectorClock

end OpenStandards.Crdt

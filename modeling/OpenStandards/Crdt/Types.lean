/-
Hybrid logical clocks, stamps and vector clocks (smart-byte-crdt
`hlc.rs`, `vector_clock.rs`).

Timestamps are totally ordered by wall reading, logical counter and
node; a stamp is a timestamp with the id of the replica that wrote under
it, the pair every last-write-wins comparison is over. The wall clock
belongs to the environment: each reading is an argument.
-/
import OpenStandards.Lib.Table
import Mathlib.Data.Prod.Lex
import Mathlib.Order.Nat
import Mathlib.Data.Finset.Basic
import Mathlib.Data.List.Sort

namespace OpenStandards.Crdt

open Lib

-- ==== replicas

/-- A participating replica; only equality and order are used. -/
structure ReplicaId where
  raw : Nat
deriving DecidableEq

theorem ReplicaId.raw_injective : Function.Injective ReplicaId.raw := by
  intro a b h
  cases a
  cases b
  cases h
  rfl

instance : LinearOrder ReplicaId :=
  LinearOrder.lift' ReplicaId.raw ReplicaId.raw_injective

-- ==== timestamps

/-- A timestamp: wall milliseconds, the counter that separates events of
one wall reading, and the emitting node. -/
structure HybridLogicalClock where
  wall : Nat
  logical : Nat
  node : ReplicaId
deriving DecidableEq

namespace HybridLogicalClock

def key (t : HybridLogicalClock) : Nat ×ₗ Nat ×ₗ ReplicaId :=
  toLex (t.wall, toLex (t.logical, t.node))

theorem key_injective : Function.Injective key := by
  intro a b h
  cases a
  cases b
  have h' := congrArg ofLex h
  simp only [key, ofLex_toLex, Prod.mk.injEq] at h'
  obtain ⟨rfl, h''⟩ := h'
  have h₃ := congrArg ofLex h''
  simp only [ofLex_toLex, Prod.mk.injEq] at h₃
  obtain ⟨rfl, rfl⟩ := h₃
  rfl

instance : LinearOrder HybridLogicalClock :=
  LinearOrder.lift' key key_injective

theorem lt_iff {a b : HybridLogicalClock} :
    a < b ↔ a.wall < b.wall ∨ (a.wall = b.wall ∧
      (a.logical < b.logical ∨ (a.logical = b.logical ∧ a.node < b.node))) := by
  show key a < key b ↔ _
  unfold key
  rw [Prod.Lex.toLex_lt_toLex, Prod.Lex.toLex_lt_toLex]

/-- The sentinel before every event of a node. -/
def zero (node : ReplicaId) : HybridLogicalClock :=
  { wall := 0, logical := 0, node }

end HybridLogicalClock

-- ==== clocks

/-- The largest logical counter, `u32::MAX`. -/
def maxLogical : Nat := 4294967295

/-- `saturating_add(1)` on the logical counter. -/
def tickLogical (n : Nat) : Nat := min (n + 1) maxLogical

/-- The clock a replica owns. -/
structure HlcClock where
  last : HybridLogicalClock
  node : ReplicaId

namespace HlcClock

def new (node : ReplicaId) : HlcClock := { last := .zero node, node }

/-- A timestamp for a local event, the wall clock reading `wall`. -/
def now (c : HlcClock) (wall : Nat) : HybridLogicalClock × HlcClock :=
  let next : HybridLogicalClock :=
    if c.last.wall < wall then { wall, logical := 0, node := c.node }
    else
      { wall := c.last.wall, logical := tickLogical c.last.logical
        node := c.node }
  (next, { c with last := next })

/-- The clock's counter has room left. -/
def Unsaturated (c : HlcClock) : Prop := c.last.logical < maxLogical

instance (c : HlcClock) : Decidable c.Unsaturated :=
  inferInstanceAs (Decidable (_ < _))

theorem lt_now {c : HlcClock} (hc : c.Unsaturated) (wall : Nat) : c.last < (c.now wall).1 := by
  have hlt : c.last.logical < maxLogical := hc
  rw [HybridLogicalClock.lt_iff]
  unfold now
  by_cases h : c.last.wall < wall
  · rw [if_pos h]
    exact Or.inl h
  · rw [if_neg h]
    refine Or.inr ⟨rfl, Or.inl ?_⟩
    show c.last.logical < tickLogical c.last.logical
    unfold tickLogical
    omega

end HlcClock

-- ==== stamps

/-- What a write is ordered by: its timestamp and its replica. -/
structure Stamp where
  hlc : HybridLogicalClock
  replica : ReplicaId
deriving DecidableEq

namespace Stamp

def key (s : Stamp) : HybridLogicalClock ×ₗ ReplicaId :=
  toLex (s.hlc, s.replica)

theorem key_injective : Function.Injective key := by
  intro a b h
  cases a
  cases b
  have h' := congrArg ofLex h
  simp only [key, ofLex_toLex, Prod.mk.injEq] at h'
  obtain ⟨rfl, rfl⟩ := h'
  rfl

/-- `beats`: later timestamp, or the same timestamp and a larger
replica. -/
instance : LinearOrder Stamp := LinearOrder.lift' key key_injective

end Stamp

-- ==== vector clocks

/-- How many ops of each replica have been observed. -/
structure VectorClock where
  entries : Table ReplicaId Nat

namespace VectorClock

def new : VectorClock := { entries := ∅ }

/-- The sequence number of a replica, zero if absent. -/
def get (vc : VectorClock) (r : ReplicaId) : Nat :=
  (vc.entries.lookup r).getD 0

/-- Raise a replica's entry to at least `seq`. -/
def observe (vc : VectorClock) (r : ReplicaId) (seq : Nat) : VectorClock :=
  if vc.get r < seq then { entries := vc.entries.insert r seq }
  else { entries := vc.entries.insert r (vc.get r) }

theorem get_observe (vc : VectorClock) (r r' : ReplicaId) (seq : Nat) :
    (vc.observe r seq).get r' = if r' = r then max (vc.get r) seq else vc.get r' := by
  unfold observe
  by_cases h : vc.get r < seq
  · rw [if_pos h]
    show ((vc.entries.insert r seq).lookup r').getD 0 = _
    rw [Table.lookup_insert_eq]
    by_cases hr : r' = r
    · rw [if_pos hr, if_pos hr]
      show seq = _
      omega
    · rw [if_neg hr, if_neg hr]
      rfl
  · rw [if_neg h]
    show ((vc.entries.insert r (vc.get r)).lookup r').getD 0 = _
    rw [Table.lookup_insert_eq]
    by_cases hr : r' = r
    · rw [if_pos hr, if_pos hr]
      show vc.get r = _
      omega
    · rw [if_neg hr, if_neg hr]
      rfl

end VectorClock

/-
The CRDT building blocks (smart-byte-crdt `types.rs`): registers,
counters, observed-remove sets, last-write-wins maps and replicated
growable arrays, with the operations a document applies.

The instance ids every type of the source carries are written and never
read by these operations; they are left out.
-/

-- ==== registers

/-- Last-write-wins register: the largest stamp holds the value. -/
structure LwwRegister (T : Type) where
  value : T
  stamp : Stamp

namespace LwwRegister

variable {T : Type}

def write (r : LwwRegister T) (value : T) (stamp : Stamp) : LwwRegister T :=
  if r.stamp < stamp then { value, stamp } else r

end LwwRegister

-- ==== counters

/-- `u64::MAX`. -/
def maxU64 : Nat := 18446744073709551615

/-- Grow-only counter: one contribution for each replica. -/
structure GCounter where
  entries : Table ReplicaId Nat

namespace GCounter

def new : GCounter := { entries := ∅ }

def get (c : GCounter) (r : ReplicaId) : Nat := (c.entries.lookup r).getD 0

/-- Raise a replica's contribution; it saturates. -/
def increment (c : GCounter) (r : ReplicaId) (by_ : Nat) : GCounter :=
  { entries := c.entries.insert r (min (c.get r + by_) maxU64) }

/-- The sum over the replicas, in a 64-bit word. -/
def value (c : GCounter) : Nat :=
  (Table.values c.entries).sum % (maxU64 + 1)

/-- The sum with overflow checks: nothing where an addition panics. -/
def valueChecked (c : GCounter) : Option Nat :=
  (Table.values c.entries).foldlM (fun sum v =>
    if sum + v ≤ maxU64 then some (sum + v) else none) 0

/-- Raise every contribution to the other counter's. -/
def merge (c other : GCounter) : GCounter :=
  { entries := other.entries.entries.foldl (fun m e =>
      let entry := (m.lookup e.1).getD 0
      m.insert e.1 (if entry < e.2 then e.2 else entry)) c.entries }

end GCounter

/-- Signed counter: increments and decrements apart. -/
structure PnCounter where
  positive : GCounter
  negative : GCounter

namespace PnCounter

def new : PnCounter := { positive := .new, negative := .new }

def increment (c : PnCounter) (r : ReplicaId) (by_ : Nat) : PnCounter :=
  { c with positive := c.positive.increment r by_ }

def decrement (c : PnCounter) (r : ReplicaId) (by_ : Nat) : PnCounter :=
  { c with negative := c.negative.increment r by_ }

def value (c : PnCounter) : Int :=
  (c.positive.value : Int) - (c.negative.value : Int)

def valueChecked (c : PnCounter) : Option Int := do
  let positive ← c.positive.valueChecked
  let negative ← c.negative.valueChecked
  some ((positive : Int) - (negative : Int))

def merge (c other : PnCounter) : PnCounter :=
  { positive := c.positive.merge other.positive
    negative := c.negative.merge other.negative }

end PnCounter

-- ==== observed-remove sets

/-- The tag of one add event. -/
structure UniqueTag where
  hlc : HybridLogicalClock
  replica : ReplicaId
  nonce : Nat
deriving DecidableEq

/-- Observed-remove set: an item is present while one of its tags has
not been removed. -/
structure OrSet (T : Type) where
  items : Table T (Finset UniqueTag)
  removedTags : Finset UniqueTag

namespace OrSet

variable {T : Type} [DecidableEq T]

def new : OrSet T := { items := ∅, removedTags := ∅ }

def tags (s : OrSet T) (item : T) : Finset UniqueTag :=
  (s.items.lookup item).getD ∅

def add (s : OrSet T) (item : T) (tag : UniqueTag) : OrSet T :=
  { s with items := s.items.insert item (insert tag (s.tags item)) }

def remove (s : OrSet T) (item : T) : OrSet T :=
  { s with removedTags := s.removedTags ∪ s.tags item }

def contains (s : OrSet T) (item : T) : Prop :=
  ∃ t ∈ s.tags item, t ∉ s.removedTags

instance (s : OrSet T) (item : T) : Decidable (s.contains item) :=
  inferInstanceAs (Decidable (∃ t ∈ s.tags item, t ∉ s.removedTags))

end OrSet

-- ==== last-write-wins maps

/-- Last-write-wins map: an entry with the stamp of its winning write,
and a tombstone for each removed key. -/
structure LwwMap (K V : Type) where
  entries : List (K × V × Stamp)
  tombstones : List (K × Stamp)

namespace LwwMap

variable {K V : Type} [DecidableEq K]

def new : LwwMap K V := { entries := [], tombstones := [] }

def buried (m : LwwMap K V) (key : K) (stamp : Stamp) : Prop :=
  ∃ t, Assoc.get m.tombstones key = some t ∧ ¬ t < stamp

instance (m : LwwMap K V) (key : K) (stamp : Stamp) : Decidable (m.buried key stamp) :=
  match h : Assoc.get m.tombstones key with
  | none => .isFalse fun ⟨t, ht, _⟩ => by rw [h] at ht; cases ht
  | some t =>
    if hlt : t < stamp then
      .isFalse fun ⟨t', ht', hn⟩ => by
        rw [h] at ht'
        cases ht'
        exact hn hlt
    else .isTrue ⟨t, h, hlt⟩

/-- Insert or overwrite if the write beats the entry and the
tombstone. -/
def set (m : LwwMap K V) (key : K) (value : V) (stamp : Stamp) : LwwMap K V :=
  if m.buried key stamp then m
  else
    match Assoc.get m.entries key with
    | some (_, t) =>
      if t < stamp then
        { m with entries := Assoc.set m.entries key (value, stamp) }
      else m
    | none => { m with entries := Assoc.set m.entries key (value, stamp) }

/-- Raise the tombstone of a key to at least `stamp`. -/
def bury (m : LwwMap K V) (key : K) (stamp : Stamp) : LwwMap K V :=
  match Assoc.get m.tombstones key with
  | none => { m with tombstones := Assoc.set m.tombstones key stamp }
  | some t =>
    if t < stamp then
      { m with tombstones := Assoc.set m.tombstones key stamp }
    else m

def remove (m : LwwMap K V) (key : K) (stamp : Stamp) : LwwMap K V :=
  match Assoc.get m.entries key with
  | some (_, t) =>
    if t < stamp then
      { m with entries := Assoc.erase m.entries key }.bury key stamp
    else m
  | none => m.bury key stamp

def get (m : LwwMap K V) (key : K) : Option V :=
  (Assoc.get m.entries key).map Prod.fst

end LwwMap

-- ==== replicated growable arrays

/-- The position of an element. -/
structure RgaPos where
  hlc : HybridLogicalClock
  replica : ReplicaId
  counter : Nat
deriving DecidableEq

namespace RgaPos

def key (p : RgaPos) : HybridLogicalClock ×ₗ ReplicaId ×ₗ Nat :=
  toLex (p.hlc, toLex (p.replica, p.counter))

theorem key_injective : Function.Injective key := by
  intro a b h
  cases a
  cases b
  have h' := congrArg ofLex h
  simp only [key, ofLex_toLex, Prod.mk.injEq] at h'
  obtain ⟨rfl, h''⟩ := h'
  have h₃ := congrArg ofLex h''
  simp only [ofLex_toLex, Prod.mk.injEq] at h₃
  obtain ⟨rfl, rfl⟩ := h₃
  rfl

instance : LinearOrder RgaPos := LinearOrder.lift' key key_injective

end RgaPos

/-- One element, the position it was inserted after, and whether it has
been deleted. -/
structure RgaNode (T : Type) where
  pos : RgaPos
  parent : Option RgaPos
  value : T
  tombstone : Bool

/-- The elements in traversal order. -/
structure RgaList (T : Type) where
  nodes : List (RgaNode T)

/-- The order of the parents: the head first, then by position. -/
def parentLe : Option RgaPos → Option RgaPos → Prop
  | none, _ => True
  | some _, none => False
  | some a, some b => a ≤ b

instance : DecidableRel parentLe
  | none, _ => .isTrue trivial
  | some _, none => .isFalse id
  | some a, some b => inferInstanceAs (Decidable (a ≤ b))

section

variable {T : Type}

/-- Siblings are ordered newest first. -/
def newerFirst (a b : RgaNode T) : Prop := b.pos ≤ a.pos

instance : DecidableRel (newerFirst (T := T)) := fun a b =>
  inferInstanceAs (Decidable (b.pos ≤ a.pos))

/-- Orphans are ordered oldest first. -/
def olderFirst (a b : RgaNode T) : Prop := a.pos ≤ b.pos

instance : DecidableRel (olderFirst (T := T)) := fun a b =>
  inferInstanceAs (Decidable (a.pos ≤ b.pos))

/-- The children of each parent, the parents in ascending order. -/
abbrev Groups (T : Type) := List (Option RgaPos × List (RgaNode T))

/-- The parent-to-children table of `resort`, the children sorted. -/
def byParent (nodes : List (RgaNode T)) : Groups T :=
  ((nodes.map RgaNode.parent).dedup.insertionSort parentLe).map fun p =>
    (p, (nodes.filter fun n => n.parent = p).insertionSort newerFirst)

/-- The depth-first walk: emit the top of the stack and push its
children, taking them out of the table. Each turn emits one node, so the
number of nodes is fuel enough. -/
def walk : Nat → List (RgaNode T) → Groups T → List (RgaNode T) × Groups T
  | 0, _, groups => ([], groups)
  | _ + 1, [], groups => ([], groups)
  | fuel + 1, node :: stack, groups =>
    let children := (Assoc.get groups (some node.pos)).getD []
    let (out, rest) := walk fuel (children ++ stack)
      (Assoc.erase groups (some node.pos))
    (node :: out, rest)

/-- Traversal order: a walk from the head, then the nodes whose parent
was not reached, by position. -/
def resort (nodes : List (RgaNode T)) : List (RgaNode T) :=
  let groups := byParent nodes
  let (out, rest) := walk nodes.length ((Assoc.get groups none).getD [])
    (Assoc.erase groups none)
  out ++ (rest.flatMap Prod.snd).insertionSort olderFirst

namespace RgaList

def new : RgaList T := { nodes := [] }

def pushNode (l : RgaList T) (parent : Option RgaPos) (pos : RgaPos) (value : T) : RgaList T :=
  { nodes := resort (l.nodes ++ [{ pos, parent, value, tombstone := false }]) }

def markDeleted (pos : RgaPos) : List (RgaNode T) → List (RgaNode T)
  | [] => []
  | n :: ns =>
    if n.pos = pos then { n with tombstone := true } :: ns
    else n :: markDeleted pos ns

def delete (l : RgaList T) (pos : RgaPos) : RgaList T :=
  { nodes := markDeleted pos l.nodes }

/-- The live values in order. -/
def toVec (l : RgaList T) : List T :=
  (l.nodes.filter fun n => !n.tombstone).map RgaNode.value

end RgaList

end

end OpenStandards.Crdt

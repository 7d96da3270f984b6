/-
The lockstep cluster (smart-byte-lockstep `lib.rs`).

Every node absorbs the frame into its rolling hash and votes for the
result, a faulty node for the result with its low bit flipped; the frame
commits when more than two thirds of the nodes vote for one hash. The nodes
have moved on also where the frame fails.

BLAKE3 and the CBOR encoding of a transition are from outside this
repository: parameters, of which nothing is assumed. The winner is the
last largest entry of a walk over a hash table, so the order of the walk
is an argument of the call.
-/
import OpenStandards.Lib.FactLog
import OpenStandards.Lib.Select
import OpenStandards.Lib.Table
import OpenStandards.SmartByte.Ownership

namespace OpenStandards.Lockstep

open Lib SmartByte

/-- Errors of a frame step. -/
inductive LockstepError where
  | emptyCluster
  | noSupermajority (frame : UInt64) (best total : Nat)
deriving DecidableEq

/-- An ordered batch of transitions. -/
structure Frame (T : Type) where
  frameNumber : UInt64
  orderedTransitions : List T

/-- A simulated node. -/
structure Node where
  id : Said
  state : Blake3Hash
  faulty : Bool

/-- The committed result of a frame. -/
structure FrameCommit where
  frame : UInt64
  stateHash : Blake3Hash
  committedBy : Finset Said
deriving DecidableEq

/-- A cluster; the number of nodes is that of a vector in memory. -/
structure Cluster where
  nodes : List Node
  frame : UInt64
  size : nodes.length < 9223372036854775808

abbrev VoteTally := Table Blake3Hash (Finset Said)

abbrev VoteEntry := Sigma fun _ : Blake3Hash => Finset Said

def VoteTally.count (tally : VoteTally) (vote : Said × Blake3Hash) : VoteTally :=
  tally.insert vote.2 (insert vote.1 ((AList.lookup vote.2 tally).getD ∅))

section

variable {T : Type} (blake3 : List UInt8 → Blake3Hash)
  (cbor : T → List UInt8)

def absorb (frame : Frame T) (state : Blake3Hash) : Blake3Hash :=
  blake3 (hashBytes state ++ leBytes 8 frame.frameNumber.toNat
    ++ frame.orderedTransitions.flatMap cbor)

def Node.step (frame : Frame T) (node : Node) : Node × Blake3Hash :=
  let honest := absorb blake3 cbor frame node.state
  ({ node with state := honest },
    if node.faulty then honest ^^^ 1 else honest)

namespace Cluster

def stepped (c : Cluster) (frame : Frame T) : List Node :=
  c.nodes.map fun node => (node.step blake3 cbor frame).1

def votes (c : Cluster) (frame : Frame T) : List (Said × Blake3Hash) :=
  c.nodes.map fun node => (node.id, (node.step blake3 cbor frame).2)

theorem length_stepped (c : Cluster) (frame : Frame T) :
    (c.stepped blake3 cbor frame).length = c.nodes.length :=
  List.length_map _

/-- Run one frame: every node steps, the votes are tallied, the hash with
the most voters wins if it has a supermajority. -/
def step (c : Cluster) (ord : RowOrder VoteEntry) (transitions : List T) :
    Cluster × Except LockstepError FrameCommit :=
  if c.nodes = [] then (c, .error .emptyCluster)
  else
    let frame : Frame T :=
      { frameNumber := c.frame, orderedTransitions := transitions }
    let total := c.nodes.length
    let tally : VoteTally :=
      (c.votes blake3 cbor frame).foldl VoteTally.count ∅
    -- the nodes are stepped in place while the votes are collected
    let nodes := c.stepped blake3 cbor frame
    have size := (c.length_stepped blake3 cbor frame).trans_lt c.size
    match scanBest (fun a b => b.2.card ≤ a.2.card)
        (ord.order tally.entries) with
    | none => ({ nodes, frame := c.frame, size }, .error .emptyCluster)
    | some ⟨bestHash, voters⟩ =>
      let needed := 2 * total / 3 + 1
      if voters.card < needed then
        ({ nodes, frame := c.frame, size },
          .error (.noSupermajority frame.frameNumber voters.card total))
      else
        ({ nodes, frame := c.frame + 1, size },
          .ok { frame := frame.frameNumber, stateHash := bestHash
                committedBy := voters })

end Cluster

/-- A call of `step`: the transitions, and the order in which the call
walks its tally. -/
structure FrameCall (T : Type) where
  transitions : List T
  order : RowOrder VoteEntry

def Cluster.call (c : Cluster) (f : FrameCall T) : Cluster :=
  (c.step blake3 cbor f.order f.transitions).1

end

end OpenStandards.Lockstep

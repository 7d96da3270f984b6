/-
Operations and tree-structured documents (smart-byte-crdt `ops.rs`,
`document.rs`).

An op id is BLAKE3 over the CBOR encoding of the op with its id zeroed;
the id function is a parameter of everything that computes or checks an
id. `apply_recursive` works in place and may have changed the tree when it
fails: the embedding answers the result together with the node it leaves
behind.
-/
import OpenStandards.Crdt.Types
import OpenStandards.Lib.Checked
import OpenStandards.Lib.Fallible

namespace OpenStandards.Crdt

open Lib

-- ==== values

/-- The value of a register, a set member or a list element. -/
inductive Value where
  | null
  | bool (b : Bool)
  | int (i : I64)
  | floatBits (bits : UInt64)
  | text (s : String)
  | bytes (bs : List UInt8)
  | json (s : String)
deriving DecidableEq

/-- A document id: a 32-byte digest. -/
structure DocumentId where
  bytes : BitVec 256
deriving DecidableEq

/-- A content-addressed op id: a 32-byte digest. -/
structure OpId where
  bytes : BitVec 256
deriving DecidableEq

-- ==== paths

/-- A path: its segments from the root. -/
abbrev Path := List String

namespace Path

/-- Slash-separated segments; empty ones are dropped. -/
def parse (s : String) : Path :=
  ((s.toList.splitOn '/').filter fun seg => seg ≠ []).map String.ofList

def asString (p : Path) : String := "/" ++ "/".intercalate p

end Path

-- ==== operations

/-- The mutations. -/
inductive OpKind where
  | registerSet (value : Value)
  | counterAdd (delta : I64)
  | setAdd (value : Value) (tag : UniqueTag)
  | setRemove (value : Value)
  | listInsert (parent : Option RgaPos) (value : Value) (pos : RgaPos)
  | listDelete (pos : RgaPos)
  | textInsert (parent : Option RgaPos) (ch : Char) (pos : RgaPos)
  | textDelete (pos : RgaPos)
  | mapSet (key : String) (value : Value)
  | mapDelete (key : String)
deriving DecidableEq

/-- One operation. -/
structure Op where
  id : OpId
  document : DocumentId
  targetPath : Path
  op : OpKind
  hlc : HybridLogicalClock
  replica : ReplicaId
deriving DecidableEq

def Op.stamp (o : Op) : Stamp := { hlc := o.hlc, replica := o.replica }

/-- The failures of the engine. -/
inductive CrdtError where
  | invalidPath (msg : String)
  | typeMismatch (path expected actual : String)
  | opIntegrity (msg : String)
deriving DecidableEq

section

variable (computeId : Op → OpId)

def Op.computedId (o : Op) : OpId := computeId { o with id := ⟨0⟩ }

def Op.new (document : DocumentId) (targetPath : Path) (op : OpKind)
    (hlc : HybridLogicalClock) (replica : ReplicaId) : Op :=
  let out : Op := { id := ⟨0⟩, document, targetPath, op, hlc, replica }
  { out with id := out.computedId computeId }

def Op.verifyId (o : Op) : Except CrdtError Unit :=
  refuse (o.computedId computeId ≠ o.id) (.opIntegrity "op id mismatch")

end

-- ==== the tree

/-- A node of the tree. -/
inductive CrdtNode where
  | map (m : LwwMap String CrdtNode)
  | list (l : RgaList CrdtNode)
  | text (t : RgaList Char)
  | register (r : LwwRegister Value)
  | counter (c : PnCounter)
  | set (s : OrSet Value)

def CrdtNode.kind : CrdtNode → String
  | .map _ => "map"
  | .list _ => "list"
  | .text _ => "text"
  | .register _ => "register"
  | .counter _ => "counter"
  | .set _ => "set"

def terminalExpected : OpKind → String
  | .registerSet _ => "register"
  | .counterAdd _ => "counter"
  | .setAdd .. | .setRemove _ => "set"
  | .listInsert .. | .listDelete _ => "list"
  | .textInsert .. | .textDelete _ => "text"
  | .mapSet .. | .mapDelete _ => "map"

/-- The leaf that an op creates where there is none. -/
def seedTerminalNode (op : OpKind) (stamp : Stamp) : CrdtNode :=
  match op with
  | .registerSet value => .register { value, stamp }
  | .counterAdd _ => .counter .new
  | .setAdd .. | .setRemove _ => .set .new
  | .listInsert .. | .listDelete _ => .list .new
  | .textInsert .. | .textDelete _ => .text .new
  | .mapSet .. | .mapDelete _ => .map .new

/-- The delta of a counter: non-negative ones count up, the others
down. -/
def PnCounter.apply (c : PnCounter) (replica : ReplicaId) (delta : I64) : PnCounter :=
  if 0 ≤ delta.val then c.increment replica delta.val.toNat
  else c.decrement replica delta.val.natAbs

/-- The part of a map operation that acts on the map itself, at its path
or at the parent of it. -/
def mapEdit (map : LwwMap String CrdtNode) (op : Op) : Option (LwwMap String CrdtNode) :=
  match op.op with
  | .mapSet key value =>
    some (map.set key (.register { value, stamp := op.stamp }) op.stamp)
  | .mapDelete key => some (map.remove key op.stamp)
  | _ => none

/-- An op on the node its path ends at. -/
def applyTerminal (node : CrdtNode) (op : Op) : Except CrdtError Unit × CrdtNode :=
  match node, op.op with
  | .register reg, .registerSet value =>
    (.ok (), .register (reg.write value op.stamp))
  -- a leaf that is not a register is replaced; a map is refused below
  | .list _, .registerSet value | .text _, .registerSet value
  | .counter _, .registerSet value | .set _, .registerSet value =>
    (.ok (), .register { value, stamp := op.stamp })
  | .counter c, .counterAdd delta =>
    (.ok (), .counter (c.apply op.replica delta))
  | .set s, .setAdd value tag => (.ok (), .set (s.add value tag))
  | .set s, .setRemove value => (.ok (), .set (s.remove value))
  | .list l, .listInsert parent value pos =>
    (.ok (), .list (l.pushNode parent pos (.register { value, stamp := op.stamp })))
  | .list l, .listDelete pos => (.ok (), .list (l.delete pos))
  | .text t, .textInsert parent ch pos =>
    (.ok (), .text (t.pushNode parent pos ch))
  | .text t, .textDelete pos => (.ok (), .text (t.delete pos))
  | .map map, kind =>
    match mapEdit map op with
    | some map' => (.ok (), .map map')
    | none =>
      (.error (.typeMismatch (Path.asString op.targetPath)
        (terminalExpected kind) "map"), .map map)
  | node, kind =>
    (.error (.typeMismatch (Path.asString op.targetPath)
      (terminalExpected kind) node.kind), node)

/-- The map with the child at `key` present: a missing one is created, a
map on the way and the seed at the end of the path. -/
def ensureChild (map : LwwMap String CrdtNode) (key : String)
    (tail : Path) (op : Op) : LwwMap String CrdtNode :=
  if (map.get key).isNone then
    map.set key
      (if tail = [] then seedTerminalNode op.op op.stamp else .map .new)
      op.stamp
  else map

/-- An op down its path, creating what is missing. -/
def applyRecursive (op : Op) : Path → CrdtNode → Except CrdtError Unit × CrdtNode
  | [], node => applyTerminal node op
  | head :: tail, .map map =>
    -- a map operation acts on the parent map, whatever the last segment
    match if tail = [] then mapEdit map op else none with
    | some map' => (.ok (), .map map')
    | none =>
      let map₁ := ensureChild map head tail op
      match Assoc.get map₁.entries head with
      | none => (.error (.invalidPath ("missing key " ++ head)), .map map₁)
      | some (child, stamp) =>
        let (res, child') := applyRecursive op tail child
        (res, .map { map₁ with
          entries := Assoc.set map₁.entries head (child', stamp) })
  | _ :: _, other =>
    (.error (.typeMismatch (Path.asString op.targetPath) "map" other.kind), other)

/-- The node a path leads to. -/
def traverse : CrdtNode → Path → Option CrdtNode
  | node, [] => some node
  | .map m, head :: tail => (m.get head).bind fun child => traverse child tail
  | _, _ :: _ => none

-- ==== the document

/-- A document: the tree, the op log and the largest timestamp seen. -/
structure CrdtDocument where
  id : DocumentId
  root : CrdtNode
  history : List Op
  clock : HybridLogicalClock

namespace CrdtDocument

def new (id : DocumentId) (replica : ReplicaId) : CrdtDocument :=
  { id, root := .map .new, history := [], clock := .zero replica }

def getNode (d : CrdtDocument) (path : Path) : Option CrdtNode :=
  traverse d.root path

def applyOpInternal (d : CrdtDocument) (op : Op) : Except CrdtError Unit × CrdtDocument :=
  let (res, root) := applyRecursive op op.targetPath d.root
  (res, { d with root })

section

variable (computeId : Op → OpId)

/-- Apply an op from elsewhere; one already in the log is skipped. -/
def applyOp (d : CrdtDocument) (op : Op) : Except CrdtError Bool × CrdtDocument :=
  match op.verifyId computeId with
  | .error e => (.error e, d)
  | .ok () =>
    if d.history.any fun h => h.id = op.id then (.ok false, d)
    else
      match d.applyOpInternal op with
      | (.error e, d') => (.error e, d')
      | (.ok (), d') =>
        (.ok true,
          { d' with
            history := d'.history ++ [op]
            clock := if d'.clock < op.hlc then op.hlc else d'.clock })

/-- The shape of every local edit: take a timestamp, construct the op,
apply it, log it. The clock has advanced even where the edit fails. -/
def localEdit (d : CrdtDocument) (path : String)
    (kind : HybridLogicalClock → ReplicaId → OpKind) (clock : HlcClock)
    (wall : Nat) : Except CrdtError Op × CrdtDocument × HlcClock :=
  let (hlc, clock') := clock.now wall
  let op := Op.new computeId d.id (Path.parse path) (kind hlc clock.node) hlc
    clock.node
  match d.applyOpInternal op with
  | (.error e, d') => (.error e, d', clock')
  | (.ok (), d') =>
    (.ok op, { d' with history := d'.history ++ [op], clock := hlc }, clock')

def writeAt (d : CrdtDocument) (path : String) (value : Value) :=
  d.localEdit computeId path fun _ _ => .registerSet value

def listInsert (d : CrdtDocument) (path : String) (parent : Option RgaPos)
    (value : Value) (counter : Nat) :=
  d.localEdit computeId path fun hlc replica =>
    .listInsert parent value { hlc, replica, counter }

def textInsert (d : CrdtDocument) (path : String) (parent : Option RgaPos)
    (ch : Char) (counter : Nat) :=
  d.localEdit computeId path fun hlc replica =>
    .textInsert parent ch { hlc, replica, counter }

def counterAdd (d : CrdtDocument) (path : String) (delta : I64) :=
  d.localEdit computeId path fun _ _ => .counterAdd delta

def setAdd (d : CrdtDocument) (path : String) (value : Value) (nonce : Nat) :=
  d.localEdit computeId path fun hlc replica =>
    .setAdd value { hlc, replica, nonce }

end

end CrdtDocument

/-
Delta computation and synchronisation (smart-byte-crdt `sync.rs`), and
the replicas of one document as a system: each replica owns a document
and a clock, edits through the document's helpers, and pulls from a peer
with `apply(b, diff(a, clock_of(b)))`.
-/

/-- The order batches are applied in. -/
def hlcLe (a b : Op) : Prop := a.hlc ≤ b.hlc

instance : DecidableRel hlcLe := fun a b =>
  inferInstanceAs (Decidable (a.hlc ≤ b.hlc))

/-- Running numbers of the ops of each replica. -/
abbrev Counters := Table ReplicaId Nat

/-- `entry(..).or_insert(0)`, read. -/
def Counters.count (c : Counters) (r : ReplicaId) : Nat :=
  (c.lookup r).getD 0

/-- The loop of `diff`: number the ops of each replica by order of
appearance and keep those above the remote's number. -/
def diffLoop (remoteClock : VectorClock) : List Op → Counters → List Op
  | [], _ => []
  | op :: ops, counters =>
    let localSeq := Counters.count counters op.replica + 1
    let rest := diffLoop remoteClock ops
      (counters.insert op.replica localSeq)
    if remoteClock.get op.replica < localSeq then op :: rest else rest

/-- The ops of the local log that the remote has not seen. -/
def diff (doc : CrdtDocument) (remoteClock : VectorClock) : List Op :=
  (diffLoop remoteClock doc.history ∅).insertionSort hlcLe

/-- The loop of `clock_of`. -/
def clockOfLoop : List Op → Counters → VectorClock → VectorClock
  | [], _, vc => vc
  | op :: ops, counters, vc =>
    let seq := Counters.count counters op.replica + 1
    clockOfLoop ops (counters.insert op.replica seq) (vc.observe op.replica seq)

/-- How many ops of each replica the log holds. -/
def clockOf (doc : CrdtDocument) : VectorClock :=
  clockOfLoop doc.history ∅ .new

section

variable (computeId : Op → OpId)

/-- The loop of `apply`: it stops at the first op that fails. -/
def applyLoop : List Op → Nat → CrdtDocument → Except CrdtError Nat × CrdtDocument
  | [], applied, doc => (.ok applied, doc)
  | op :: ops, applied, doc =>
    match doc.applyOp computeId op with
    | (.error e, doc') => (.error e, doc')
    | (.ok new, doc') =>
      applyLoop ops (if new then applied + 1 else applied) doc'

/-- Apply a batch in timestamp order. -/
def apply (doc : CrdtDocument) (ops : List Op) : Except CrdtError Nat × CrdtDocument :=
  applyLoop computeId (ops.insertionSort hlcLe) 0 doc

end

-- ==== the replicas

/-- A local edit through one of the document's helpers. -/
inductive Edit where
  | writeAt (path : String) (value : Value)
  | listInsert (path : String) (parent : Option RgaPos) (value : Value)
      (counter : Nat)
  | textInsert (path : String) (parent : Option RgaPos) (ch : Char)
      (counter : Nat)
  | counterAdd (path : String) (delta : I64)
  | setAdd (path : String) (value : Value) (nonce : Nat)

structure Replica where
  doc : CrdtDocument
  clock : HlcClock

namespace Replica

variable (computeId : Op → OpId)

/-- A local edit, the wall clock reading `wall`. -/
def edit (r : Replica) (e : Edit) (wall : Nat) :
    Except CrdtError Op × CrdtDocument × HlcClock :=
  match e with
  | .writeAt path value => r.doc.writeAt computeId path value r.clock wall
  | .listInsert path parent value counter =>
    r.doc.listInsert computeId path parent value counter r.clock wall
  | .textInsert path parent ch counter =>
    r.doc.textInsert computeId path parent ch counter r.clock wall
  | .counterAdd path delta =>
    r.doc.counterAdd computeId path delta r.clock wall
  | .setAdd path value nonce =>
    r.doc.setAdd computeId path value nonce r.clock wall

/-- Pull what `a` has and `b` lacks into `b`. -/
def pull (b a : Replica) : Except CrdtError Nat × CrdtDocument :=
  apply computeId b.doc (diff a.doc (clockOf b.doc))

end Replica

/-- An action of the system. -/
inductive Action (ι : Type) where
  | edit (i : ι) (e : Edit) (wall : Nat)
  | sync (a b : ι)

abbrev Replicas (ι : Type) := ι → Replica

namespace Replicas

variable {ι : Type} [DecidableEq ι] (computeId : Op → OpId)

def init (docId : DocumentId) (rid : ι → ReplicaId) : Replicas ι := fun i =>
  { doc := .new docId (rid i), clock := .new (rid i) }

/-- One action; a failed synchronisation leaves what it had applied. -/
def step (s : Replicas ι) : Action ι → Replicas ι
  | .edit i e wall =>
    let (_, doc, clock) := (s i).edit computeId e wall
    Function.update s i { doc, clock }
  | .sync a b =>
    Function.update s b
      { s b with doc := ((s b).pull computeId (s a)).2 }

end Replicas

end OpenStandards.Crdt

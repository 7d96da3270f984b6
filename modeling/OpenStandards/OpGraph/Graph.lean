/-
The typed facade over the fact store (op-graph `graph.rs`, `error.rs`).

The store itself is outside this repository: it is a `FactLog`, which
answers a query with the facts asserted and not retracted, in any order,
and an `:as-of` query with those of an earlier counter. The facade maps a
property graph onto facts, typed by attribute (`A`). An edge id minted with
`Uuid::new_v4` is a constructor of its own (`Entity.edge`). Printing and
parsing of nested values are the functions of `SerdeJson`.
-/
import OpenStandards.Lib.FactLog
import OpenStandards.OpLedger.Types

namespace OpenStandards.OpGraph

open Lib OpCore OpLedger

-- ==== JSON

/-- A JSON number as `serde_json` keeps it: `u64`, negative `i64`, or a
finite double. -/
inductive JsonNumber where
  | posInt (n : Nat)
  | negInt (i : Int)
  | float (q : Rat)

namespace JsonNumber

def ofI64 (i : I64) : JsonNumber :=
  if 0 ≤ i.val then .posInt i.val.toNat else .negInt i.val

def ofU64 (n : Nat) : JsonNumber := .posInt n

def asI64 : JsonNumber → Option I64
  | .posInt n => I64.ofInt? n
  | .negInt i => I64.ofInt? i
  | .float _ => none

def asU64 : JsonNumber → Option Nat
  | .posInt n => some n
  | _ => none

/-- The double nearest to a `u64` of at least `2^63`, ties to even:
doubles are `2^11` apart there. -/
def nearestDouble (n : Nat) : Nat :=
  let q := n / 2048
  let r := n % 2048
  if 1024 < r ∨ (r = 1024 ∧ q % 2 = 1) then (q + 1) * 2048 else q * 2048

end JsonNumber

/-- A JSON value. Objects are sorted by key, each key once. -/
inductive Json where
  | null
  | bool (b : Bool)
  | number (n : JsonNumber)
  | string (s : String)
  | array (items : List Json)
  | object (fields : List (String × Json))

namespace Json

def asStr : Json → Option String
  | .string s => some s
  | _ => none

def asU64 : Json → Option Nat
  | .number n => n.asU64
  | _ => none

def asI64 : Json → Option I64
  | .number n => n.asI64
  | _ => none

def asObject : Json → Option (List (String × Json))
  | .object fields => some fields
  | _ => none

/-- `Map::insert`: the key's place in the order, its value replaced. -/
def insertField (fields : List (String × Json)) (k : String) (v : Json) :
    List (String × Json) :=
  match fields with
  | [] => [(k, v)]
  | (k', v') :: rest =>
    if k = k' then (k, v) :: rest
    else if k < k' then (k, v) :: (k', v') :: rest
    else (k', v') :: insertField rest k v

end Json

/-- Printing and parsing of JSON text. -/
structure SerdeJson where
  toString : Json → String
  fromStr : String → Option Json

-- ==== stored values

/-- A stored value. -/
inductive MgValue where
  | null
  | boolean (b : Bool)
  | integer (i : I64)
  | float (q : Rat)
  | string (s : String)
deriving DecidableEq

/-- `strip_prefix("json:")`. -/
def stripJson (s : String) : Option String :=
  match s.toList with
  | 'j' :: 's' :: 'o' :: 'n' :: ':' :: rest => some (String.ofList rest)
  | _ => none

section

variable (sj : SerdeJson)

def jsonToMg : Json → MgValue
  | .null => .null
  | .bool b => .boolean b
  | .number n =>
    match n.asI64 with
    | some i => .integer i
    | none =>
      match n with
      | .posInt n => .float (JsonNumber.nearestDouble n)
      | .negInt i => .float i
      | .float q => .float q
  | .string s => .string s
  | .array items => .string ("json:" ++ sj.toString (.array items))
  | .object fields => .string ("json:" ++ sj.toString (.object fields))

/-- A stored value read back: a `json:` string is parsed. -/
def mgToJson : MgValue → Json
  | .null => .null
  | .boolean b => .bool b
  | .integer i => .number (.ofI64 i)
  | .float q => .number (.float q)
  | .string s =>
    match stripJson s with
    | some rest => (sj.fromStr rest).getD (.string s)
    | none => .string s

end

-- ==== errors

/-- The failure modes of the facade. -/
inductive GraphError where
  | vertexNotFound (vertexType id : String)
  | vertexTypeMismatch (id expected actual : String)
  | propertyTypeMismatch (vertexId property expectedType : String)
  | invariant (msg : String)
  | invalidInput (msg : String)

/-- `Display` of the error. -/
def GraphError.text : GraphError → String
  | .vertexNotFound vt id =>
    "vertex not found: type=" ++ vt ++ " id=" ++ id
  | .vertexTypeMismatch id expected actual =>
    "vertex type mismatch: id=" ++ id ++ " expected=" ++ expected ++ " actual=" ++ actual
  | .propertyTypeMismatch vid property expected =>
    "property type mismatch on vertex " ++ vid ++ ": property " ++ property
      ++ " could not be decoded as " ++ expected
  | .invariant msg => "graph invariant violated: " ++ msg
  | .invalidInput msg => "invalid input: " ++ msg

/-- `From<Error> for op_ledger::Error`. -/
def GraphError.toLedger (e : GraphError) : OpLedger.Error :=
  .invalidInput ("op-graph: " ++ e.text)

-- ==== facts

abbrev EdgeId := Nat

/-- What a fact is about. -/
inductive Entity where
  | vertex (id : Uuid)
  | edge (id : EdgeId)
deriving DecidableEq

/-- The facts: `_type` of a vertex, the three facts of an edge, and the
properties of both. -/
inductive Fact (A : Type) where
  | type (id : Uuid) (t : String)
  | edgeFrom (id : EdgeId) (v : Uuid)
  | edgeTo (id : EdgeId) (v : Uuid)
  | edgeType (id : EdgeId) (t : String)
  | prop (e : Entity) (a : A) (v : MgValue)
deriving DecidableEq

/-- A typed vertex. -/
structure Vertex where
  id : Uuid
  t : String

/-- A typed directed edge. -/
structure Edge where
  id : EdgeId
  fromId : Uuid
  t : String
  toId : Uuid

/-- The properties of an entity, row by row. -/
abbrev Props (A : Type) := List (A × Json)

/-- A row of a later index replaces one of the same name. -/
def Props.get {A : Type} [DecidableEq A] (props : Props A) (a : A) : Option Json :=
  (props.reverse.find? fun p => p.1 = a).map Prod.snd

/-- The handle: the history of the store. -/
abbrev GraphHandle (A : Type) := FactLog (Fact A)

namespace GraphHandle

variable {A : Type} [DecidableEq A] (sj : SerdeJson)
  (ord : RowOrder (Fact A))

-- ==== queries of a view

/-- `[:find ?t :where [id :_type ?t]]` -/
def typesIn (view : List (Fact A)) (id : Uuid) : List String :=
  (ord.order (view.filter fun f => match f with
    | .type i _ => i = id
    | _ => false)).filterMap fun f => match f with
    | .type _ t => some t
    | _ => none

/-- `[:find ?e :where [?e :_type vt]]` -/
def verticesOfTypeIn (view : List (Fact A)) (vt : String) : List Vertex :=
  (ord.order (view.filter fun f => match f with
    | .type _ t => t = vt
    | _ => false)).filterMap fun f => match f with
    | .type i t => some { id := i, t }
    | _ => none

/-- `[:find ?eid ?to :where [?eid :_edge/from v] [?eid :_edge/type et]
[?eid :_edge/to ?to]]` -/
def outEdgesIn (view : List (Fact A)) (v : Uuid) (et : String) : List Edge :=
  (ord.order (view.filter fun f => match f with
    | .edgeTo e _ => .edgeFrom e v ∈ view ∧ .edgeType e et ∈ view
    | _ => false)).filterMap fun f => match f with
    | .edgeTo e w => some { id := e, fromId := v, t := et, toId := w }
    | _ => none

/-- `[:find ?eid ?from :where [?eid :_edge/to v] [?eid :_edge/type et]
[?eid :_edge/from ?from]]` -/
def inEdgesIn (view : List (Fact A)) (v : Uuid) (et : String) : List Edge :=
  (ord.order (view.filter fun f => match f with
    | .edgeFrom e _ => .edgeTo e v ∈ view ∧ .edgeType e et ∈ view
    | _ => false)).filterMap fun f => match f with
    | .edgeFrom e w => some { id := e, fromId := w, t := et, toId := v }
    | _ => none

/-- `[:find ?v :where [e attr ?v]]` -/
def valuesIn (view : List (Fact A)) (e : Entity) (a : A) : List MgValue :=
  (ord.order (view.filter fun f => match f with
    | .prop e' a' _ => e' = e ∧ a' = a
    | _ => false)).filterMap fun f => match f with
    | .prop _ _ v => some v
    | _ => none

/-- `[:find ?attr ?val :where [e ?attr ?val]]`, schema attributes
dropped. -/
def propertiesIn (view : List (Fact A)) (e : Entity) : Props A :=
  (ord.order (view.filter fun f => match f with
    | .prop e' _ _ => e' = e
    | _ => false)).filterMap fun f => match f with
    | .prop _ a v => some (a, mgToJson sj v)
    | _ => none

-- ==== present reads

variable (g : GraphHandle A)

def getVertex (id : Uuid) : Option Vertex :=
  (typesIn ord g.facts id).head?.map fun t => { id, t }

def getTypedVertex (id : Uuid) (expected : String) : Except GraphError Vertex :=
  match getVertex ord g id with
  | none => .error (.vertexNotFound expected id.toString)
  | some v =>
    if v.t ≠ expected then
      .error (.vertexTypeMismatch id.toString expected v.t)
    else .ok v

def vertexExists (id : Uuid) : Bool := (getVertex ord g id).isSome

def outEdges (v : Uuid) (et : String) : List Edge :=
  outEdgesIn ord g.facts v et

def inEdges (v : Uuid) (et : String) : List Edge :=
  inEdgesIn ord g.facts v et

def getVertexProperties (id : Uuid) : Props A :=
  propertiesIn sj ord g.facts (.vertex id)

def getEdgeProperties (e : Edge) : Props A :=
  propertiesIn sj ord g.facts (.edge e.id)

def verticesOfType (vt : String) : List Vertex :=
  verticesOfTypeIn ord g.facts vt

-- ==== time-travel reads

def outEdgesAt (v : Uuid) (et : String) (n : Nat) : List Edge :=
  outEdgesIn ord (g.factsAsOf n) v et

def getVertexPropertiesAt (id : Uuid) (n : Nat) : Props A :=
  propertiesIn sj ord (g.factsAsOf n) (.vertex id)

def getEdgePropertiesAt (e : Edge) (n : Nat) : Props A :=
  propertiesIn sj ord (g.factsAsOf n) (.edge e.id)

-- ==== writes

omit [DecidableEq A] in
def createVertex (vt : String) (id : Uuid) : GraphHandle A :=
  g.transact [.type id vt]

/-- Assert the three facts of an edge under a minted id. -/
def createEdge (v : Uuid) (et : String) (w : Uuid) : Edge × GraphHandle A :=
  let id : EdgeId := g.txCount
  ({ id, fromId := v, t := et, toId := w },
    g.transact [.edgeFrom id v, .edgeTo id w, .edgeType id et])

/-- Retract the current value of a property, one batch a value, and
assert the new one. -/
def setEntityProperty (e : Entity) (a : A) (value : Json) : GraphHandle A :=
  ((valuesIn ord g.facts e a).foldl (fun g old => FactLog.retract g [.prop e a old]) g).transact
    [.prop e a (jsonToMg sj value)]

def setVertexProperty (id : Uuid) (a : A) (value : Json) : GraphHandle A :=
  setEntityProperty sj ord g (.vertex id) a value

def setEdgeProperty (e : Edge) (a : A) (value : Json) : GraphHandle A :=
  setEntityProperty sj ord g (.edge e.id) a value

end GraphHandle

/-
The literals that properties are written with (op-graph `graph.rs`).

`Graph.lean` stores a JSON value as the stored value its literal stands
for. Here are the texts themselves: one printer for what is asserted, a
second for what is retracted (`setEntityPropertyByText`). What reads them
is outside this repository: `Minigraf.read`. The shortest text of a double
that is no integer is the other parameter.
-/

/-- The reader of the store, and `Display` of an `f64`. -/
structure Minigraf where
  read : Text → Option MgValue
  showFloat : Rat → Text

-- ==== printers

/-- `str::replace` of a character. -/
def replaceChar (c : Char) (by' : Text) (s : Text) : Text :=
  s.flatMap fun d => if d = c then by' else [d]

def escapeStr (s : String) : Text :=
  replaceChar '"' ['\\', '"'] (replaceChar '\\' ['\\', '\\'] s.toList)

def quoted (s : String) : Text := '"' :: (escapeStr s ++ ['"'])

/-- `as_f64` of a number that is no `i64`. -/
def JsonNumber.asF64 : JsonNumber → Rat
  | .posInt n => nearestDouble n
  | .negInt i => i
  | .float q => q

section

variable (mg : Minigraf) (sj : SerdeJson)

/-- A double with a decimal point: `{f:.1}` of an integer. -/
def floatLiteral (f : Rat) : Text :=
  if f.den = 1 then Text.signed f.num ++ ['.', '0'] else mg.showFloat f

def jsonToMgLiteral : Json → Text
  | .null => "nil".toList
  | .bool true => "true".toList
  | .bool false => "false".toList
  | .number n =>
    match n.asI64 with
    | some i => Text.signed i.val
    | none => floatLiteral mg n.asF64
  | .string s => quoted s
  | .array items => quoted ("json:" ++ sj.toString (.array items))
  | .object fields => quoted ("json:" ++ sj.toString (.object fields))

def mgValueToLiteral : MgValue → Text
  | .null => "nil".toList
  | .boolean true => "true".toList
  | .boolean false => "false".toList
  | .integer i => Text.signed i.val
  | .float f => floatLiteral mg f
  | .string s => quoted s

end

-- ==== writes

namespace GraphHandle

variable {A : Type} [DecidableEq A] (mg : Minigraf) (sj : SerdeJson)
  (ord : RowOrder (Fact A))

def retractByText (e : Entity) (a : A) (g : GraphHandle A)
    (old : MgValue) : Option (GraphHandle A) := do
  let v ← mg.read (mgValueToLiteral mg old)
  return FactLog.retract g [.prop e a v]

/-- Look up the current values, retract them one by one and assert the new
one, all by their literals. -/
def setEntityPropertyByText (g : GraphHandle A) (e : Entity) (a : A)
    (value : Json) : Option (GraphHandle A) := do
  let g ← (valuesIn ord g.facts e a).foldlM (retractByText mg e a) g
  let v ← mg.read (jsonToMgLiteral mg sj value)
  return FactLog.transact g [.prop e a v]

/-- A write through the facade. -/
inductive Write (A : Type) where
  | createVertex (vt : String) (id : Uuid)
  | createEdge (v : Uuid) (et : String) (w : Uuid)
  | setVertexProperty (id : Uuid) (a : A) (value : Json)

def write (g : GraphHandle A) : Write A → Option (GraphHandle A)
  | .createVertex vt id => some (createVertex g vt id)
  | .createEdge v et w => some (createEdge g v et w).2
  | .setVertexProperty id a value =>
    setEntityPropertyByText mg sj ord g (.vertex id) a value

def writes (g : GraphHandle A) (ws : List (Write A)) :
    Option (GraphHandle A) := ws.foldlM (write mg sj ord) g

end GraphHandle

end OpenStandards.OpGraph

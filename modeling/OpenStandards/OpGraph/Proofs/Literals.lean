/-
What is written as a literal is stored, and what of it is read back.

`Denotes` says what a literal stands for, and the reader is assumed to read
a text as what it stands for (`Minigraf.Reads`). Both printers write the
stored value in one text (`mgValueToLiteral_jsonToMg`), which stands for it
(`denotes_jsonToMgLiteral`). So a write by texts is the write of
`Graph.lean` (`models_writes`). On the way back words the store holds as
doubles and strings that look like its own markings lose their identity
(`mgToJson_jsonToMg_iff`).
-/
import OpenStandards.OpGraph.Proofs.Legs
import Mathlib.Tactic.NormNum

namespace OpenStandards.OpGraph

open Lib OpLedger

-- ==== doubles

/-- The numbers an `f64` holds. -/
def IsDouble (q : ℚ) : Prop :=
  ∃ m e : Int, m.natAbs < 2 ^ 53 ∧ -1074 ≤ e ∧ e ≤ 971 ∧ q = m * 2 ^ e

theorem isDouble_nearestDouble {n : Nat} (h : n < 2 ^ 64) :
    IsDouble (JsonNumber.nearestDouble n) := by
  have hscaled : ∀ q : Nat, q ≤ 2 ^ 53 → IsDouble ((q * 2048 : Nat) : ℚ) := by
    intro q hq
    by_cases hlt : q < 2 ^ 53
    · refine ⟨q, 11, by simpa using hlt, by decide, by decide, ?_⟩
      rw [Nat.cast_mul, Int.cast_natCast]
      norm_num
    · obtain rfl : q = 2 ^ 53 := by omega
      refine ⟨2 ^ 52, 12, by decide, by decide, by decide, ?_⟩
      norm_num
  unfold JsonNumber.nearestDouble
  dsimp only
  split
  · exact hscaled _ (by omega)
  · exact hscaled _ (by omega)

-- ==== quotes

/-- The text in quotes, from behind the first one: a backslash stands
before a quote and before a backslash, a bare quote ends the text. -/
def unquote : Text → Option Text
  | ['"'] => some []
  | '\\' :: c :: rest =>
    if c = '\\' ∨ c = '"' then (unquote rest).map (c :: ·) else none
  | c :: rest => if c = '"' then none else (unquote rest).map (c :: ·)
  | [] => none

def escapeChar (c : Char) : Text :=
  if c = '\\' then ['\\', '\\'] else if c = '"' then ['\\', '"'] else [c]

theorem escapeStr_eq (s : String) : escapeStr s = s.toList.flatMap escapeChar := by
  unfold escapeStr replaceChar
  rw [List.flatMap_assoc]
  congr 1
  funext c
  unfold escapeChar
  by_cases hslash : c = '\\'
  · rw [if_pos hslash, if_pos hslash]
    rfl
  · rw [if_neg hslash, if_neg hslash]
    exact List.append_nil _

theorem unquote_escapeChar (c : Char) (t : Text) :
    unquote (escapeChar c ++ t) = (unquote t).map (c :: ·) := by
  unfold escapeChar
  split
  case isTrue h =>
    subst h
    rfl
  case isFalse hslash =>
    split
    case isTrue h =>
      subst h
      rfl
    case isFalse hquote =>
      rw [List.cons_append, List.nil_append, unquote]
      · rw [if_neg hquote]
      · intro hc
        exact absurd hc hquote
      · intro d rest hc
        exact absurd hc hslash

theorem unquote_flatMap (l : Text) : unquote (l.flatMap escapeChar ++ ['"']) = some l := by
  induction l with
  | nil => rfl
  | cons c l ih =>
    rw [List.flatMap_cons, List.append_assoc, unquote_escapeChar, ih]
    rfl

-- ==== literals

/-- What a literal stands for. -/
inductive Denotes : Text → MgValue → Prop where
  | null : Denotes "nil".toList .null
  | true : Denotes "true".toList (.boolean true)
  | false : Denotes "false".toList (.boolean false)
  | integer (i : I64) : Denotes (Text.signed i.val) (.integer i)
  | float {x : Int} {places : Text} {d : Numeral} :
      readNumeral (Text.signed x ++ '.' :: places) = some d →
      0 < d.places → IsDouble d.value →
      Denotes (Text.signed x ++ '.' :: places) (.float d.value)
  | string {body : Text} {s : String} : unquote body = some s.toList →
      Denotes ('"' :: body) (.string s)

/-- The reader reads a literal as what it stands for. -/
def Minigraf.Reads (mg : Minigraf) : Prop :=
  ∀ {lit v}, Denotes lit v → mg.read lit = some v

theorem denotes_quoted (s : String) : Denotes (quoted s) (.string s) := by
  refine Denotes.string ?_
  rw [escapeStr_eq, unquote_flatMap]

theorem denotes_point {x : Int} (hx : IsDouble x) :
    Denotes (Text.signed x ++ ['.', '0']) (.float x) := by
  have hread : readNumeral (Text.signed x ++ '.' :: ['0']) = some ⟨x * 10, 1⟩ := by
    have h := readNumeral_point x (show 0 < 1 by decide) (show 0 < 10 ^ 1 by decide)
    refine h.trans ?_
    congr 2
    split <;> omega
  have hvalue : (⟨x * 10, 1⟩ : Numeral).value = x := by
    unfold Numeral.value
    rw [Int.cast_mul, pow_one]
    exact mul_div_cancel_right₀ _ (by norm_num)
  have hdenotes := Denotes.float hread Nat.one_pos (by rw [hvalue]; exact hx)
  rw [hvalue] at hdenotes
  exact hdenotes

/-- The value as it is stored is written in the text it was written in. -/
theorem mgValueToLiteral_jsonToMg (mg : Minigraf) (sj : SerdeJson) (v : Json) :
    mgValueToLiteral mg (jsonToMg sj v) = jsonToMgLiteral mg sj v := by
  cases v with
  | null => rfl
  | bool b => cases b <;> rfl
  | number n =>
    unfold jsonToMg jsonToMgLiteral
    dsimp only
    cases n.asI64 with
    | some i => rfl
    | none => cases n <;> rfl
  | string s => rfl
  | array items => rfl
  | object fields => rfl

-- ==== values

/-- An integer that `serde_json` keeps as one. -/
def JsonNumber.IsInteger : JsonNumber → Prop
  | .posInt n => n < 2 ^ 64
  | .negInt i => -(2 ^ 63) ≤ i ∧ i < 0
  | .float _ => False

mutual

def Json.FloatFree : Json → Prop
  | .number n => n.IsInteger
  | .array items => Json.FloatFreeItems items
  | .object fields =>
    (fields.map Prod.fst).Pairwise (· < ·) ∧ Json.FloatFreeFields fields
  | _ => True

def Json.FloatFreeItems : List Json → Prop
  | [] => True
  | v :: rest => v.FloatFree ∧ Json.FloatFreeItems rest

def Json.FloatFreeFields : List (String × Json) → Prop
  | [] => True
  | field :: rest => Json.FloatFreeField field ∧ Json.FloatFreeFields rest

def Json.FloatFreeField : String × Json → Prop
  | (_, v) => v.FloatFree

end

mutual

def Json.depth : Json → Nat
  | .array items => Json.depthItems items + 1
  | .object fields => Json.depthFields fields + 1
  | _ => 0

def Json.depthItems : List Json → Nat
  | [] => 0
  | v :: rest => max v.depth (Json.depthItems rest)

def Json.depthFields : List (String × Json) → Nat
  | [] => 0
  | field :: rest => max (Json.depthField field) (Json.depthFields rest)

def Json.depthField : String × Json → Nat
  | (_, v) => v.depth

end

/-- The parser of `serde_json` refuses to be in this many arrays and
objects at once. -/
def recursionLimit : Nat := 128

/-- What `serde_json` promises of a value: its text is parsed to it, and
refused where it nests too deep. -/
structure SerdeJson.ReadsBack (sj : SerdeJson) (v : Json) : Prop where
  shallow : v.depth < recursionLimit → sj.fromStr (sj.toString v) = some v
  deep : recursionLimit ≤ v.depth → sj.fromStr (sj.toString v) = none

def SerdeJson.Quotes (sj : SerdeJson) : Prop :=
  ∀ t s, sj.fromStr t = some (.string s) → s.length < t.length

theorem asI64_posInt {n : Nat} (h : FitsI64 n) :
    (JsonNumber.posInt n).asI64 = some (I64.ofNat n h) :=
  I64.ofInt?_eq_some.2 rfl

theorem asI64_posInt_large {n : Nat} (h : ¬ FitsI64 n) :
    (JsonNumber.posInt n).asI64 = none := by
  refine I64.ofInt?_eq_none.2 fun hin => h ?_
  unfold InI64 at hin
  unfold FitsI64
  omega

/-- The number of an `i64` is the number it came from. -/
theorem ofI64_of_asI64 {n : JsonNumber} (hn : n.IsInteger) {i : I64}
    (h : n.asI64 = some i) : JsonNumber.ofI64 i = n := by
  cases n with
  | posInt n =>
    have hi : i.val = n := I64.ofInt?_eq_some.1 h
    unfold JsonNumber.ofI64
    rw [if_pos (by omega), hi, Int.toNat_natCast]
  | negInt j =>
    have hi : i.val = j := I64.ofInt?_eq_some.1 h
    have hneg : j < 0 := hn.2
    unfold JsonNumber.ofI64
    rw [if_neg (by omega), hi]
  | float q => cases hn

/-- An integer that is no `i64` is a word, and stored as a double. -/
theorem eq_posInt_of_asI64 {n : JsonNumber} (hn : n.IsInteger)
    (h : n.asI64 = none) : ∃ m, n = .posInt m ∧ ¬ FitsI64 m ∧ m < 2 ^ 64 := by
  cases n with
  | posInt m =>
    refine ⟨m, rfl, fun hfits => ?_, hn⟩
    rw [asI64_posInt hfits] at h
    cases h
  | negInt j =>
    have hout := I64.ofInt?_eq_none.1 h
    unfold InI64 at hout
    unfold JsonNumber.IsInteger at hn
    omega
  | float q => cases hn

variable {v : Json} {sj : SerdeJson}

/-- A value is written in a text that stands for what it is stored as. -/
theorem denotes_jsonToMgLiteral (mg : Minigraf) (sj : SerdeJson) (hv : v.FloatFree) :
    Denotes (jsonToMgLiteral mg sj v) (jsonToMg sj v) := by
  cases v with
  | null => exact Denotes.null
  | bool b =>
    cases b with
    | true => exact Denotes.true
    | false => exact Denotes.false
  | number n =>
    unfold Json.FloatFree at hv
    unfold jsonToMgLiteral jsonToMg
    dsimp only
    cases hi : n.asI64 with
    | some i => exact Denotes.integer i
    | none =>
      obtain ⟨m, rfl, -, hm⟩ := eq_posInt_of_asI64 hv hi
      have hdouble := isDouble_nearestDouble hm
      dsimp only
      unfold floatLiteral JsonNumber.asF64
      rw [if_pos (Rat.den_natCast _), Rat.num_natCast]
      exact denotes_point hdouble
  | string s => exact denotes_quoted s
  | array items => exact denotes_quoted _
  | object fields => exact denotes_quoted _

-- ==== the way back

/-- What survives: integers that fit an `i64`, strings that are not the
mark of arrays and objects before a JSON text, arrays and objects that are
not nested too deep. -/
def Json.Survives (sj : SerdeJson) : Json → Prop
  | .number (.posInt n) => FitsI64 n
  | .string s => ∀ rest, stripJson s = some rest → sj.fromStr rest = none
  | .array items => (Json.array items).depth < recursionLimit
  | .object fields => (Json.object fields).depth < recursionLimit
  | _ => True

theorem stripJson_append (t : String) : stripJson ("json:" ++ t) = some t := by
  unfold stripJson
  rw [String.toList_append]
  exact congrArg some (String.ofList_toList)

theorem length_of_stripJson {s rest : String}
    (h : stripJson s = some rest) : rest.length < s.length := by
  unfold stripJson at h
  split at h
  · rename_i tail heq
    obtain rfl := Option.some.inj h
    have hlen := congrArg List.length heq
    rw [String.length_toList] at hlen
    rw [String.length_ofList]
    simp only [List.length_cons] at hlen
    omega
  · cases h

theorem mgToJson_of_stripJson {s rest : String} (h : stripJson s = some rest) :
    mgToJson sj (.string s) = (sj.fromStr rest).getD (.string s) := by
  unfold mgToJson
  simp only [h]

/-- The text of an array or object behind the mark. -/
theorem mgToJson_marked (hserde : sj.ReadsBack v) (hstring : ∀ s, v ≠ .string s) :
    mgToJson sj (.string ("json:" ++ sj.toString v)) = v ↔ v.depth < recursionLimit := by
  rw [mgToJson_of_stripJson (stripJson_append _)]
  constructor
  · intro h
    by_contra hdeep
    rw [hserde.deep (Nat.not_lt.1 hdeep)] at h
    exact hstring _ h.symm
  · intro h
    rw [hserde.shallow h]
    rfl

theorem mgToJson_jsonToMg_iff (hquotes : sj.Quotes) (hv : v.FloatFree) (hserde : sj.ReadsBack v) :
    mgToJson sj (jsonToMg sj v) = v ↔ v.Survives sj := by
  cases v with
  | null => exact iff_of_true rfl trivial
  | bool b => exact iff_of_true rfl trivial
  | number n =>
    unfold Json.FloatFree at hv
    unfold jsonToMg
    dsimp only
    cases hi : n.asI64 with
    | some i =>
      refine iff_of_true ?_ ?_
      · exact congrArg Json.number (ofI64_of_asI64 hv hi)
      · cases n with
        | posInt m =>
          by_contra hlarge
          rw [asI64_posInt_large hlarge] at hi
          cases hi
        | negInt j => trivial
        | float q => trivial
    | none =>
      obtain ⟨m, rfl, hlarge, -⟩ := eq_posInt_of_asI64 hv hi
      refine iff_of_false (fun h => ?_) hlarge
      cases Json.number.inj h
  | string s =>
    show mgToJson sj (.string s) = .string s ↔ _
    unfold Json.Survives
    cases hstrip : stripJson s with
    | none =>
      refine iff_of_true (mgToJson_string sj hstrip) fun rest hrest => ?_
      rw [hstrip] at hrest
      cases hrest
    | some rest =>
      rw [mgToJson_of_stripJson hstrip]
      constructor
      · intro h rest' hrest'
        obtain rfl := Option.some.inj (hstrip.symm.trans hrest')
        cases hparse : sj.fromStr rest with
        | none => rfl
        | some j =>
          rw [hparse] at h
          obtain rfl : j = .string s := h
          exact absurd (hquotes _ _ hparse) (Nat.lt_asymm (length_of_stripJson hstrip))
      · intro h
        rw [h rest hstrip]
        rfl
  | array items => exact mgToJson_marked hserde nofun
  | object fields => exact mgToJson_marked hserde nofun

-- ==== writes

section

variable {A : Type} [DecidableEq A] {mg : Minigraf} {sj : SerdeJson}
  {ord : RowOrder (Fact A)}

def Retractable (mg : Minigraf) (G : PropertyGraph A) : Prop :=
  ∀ e a v, G.prop e a = some v → mg.read (mgValueToLiteral mg v) = some v

variable {v : Json} {g : GraphHandle A} {G : PropertyGraph A}

omit [DecidableEq A] in
theorem read_jsonToMgLiteral (hread : mg.Reads) (hv : v.FloatFree) :
    mg.read (jsonToMgLiteral mg sj v) = some (jsonToMg sj v) :=
  hread (denotes_jsonToMgLiteral mg sj hv)

theorem setEntityPropertyByText_eq (hread : mg.Reads) (h : Models g G)
    (hretractable : Retractable mg G) (e : Entity) (a : A) (hv : v.FloatFree) :
    GraphHandle.setEntityPropertyByText mg sj ord g e a v
      = some (GraphHandle.setEntityProperty sj ord g e a v) := by
  have hretracts : ∀ g' : GraphHandle A,
      ((G.prop e a).toList.foldlM (GraphHandle.retractByText mg e a) g'
        : Option (GraphHandle A))
        = some ((G.prop e a).toList.foldl
          (fun g old => FactLog.retract g [.prop e a old]) g') := by
    intro g'
    cases hp : G.prop e a with
    | none => rfl
    | some old =>
      rw [Option.toList_some, List.foldlM_cons]
      unfold GraphHandle.retractByText
      rw [hretractable e a old hp]
      rfl
  unfold GraphHandle.setEntityPropertyByText GraphHandle.setEntityProperty
  rw [h.represents.valuesIn_eq ord e a, hretracts, read_jsonToMgLiteral hread hv]
  rfl

namespace GraphHandle.Write

def FloatFree : Write A → Prop
  | .setVertexProperty _ _ value => value.FloatFree
  | _ => True

def propAfter (sj : SerdeJson) (e : Entity) (a : A) (before : Option MgValue) :
    Write A → Option MgValue
  | .setVertexProperty id a' value =>
    if e = .vertex id ∧ a = a' then some (jsonToMg sj value) else before
  | _ => before

end GraphHandle.Write

open GraphHandle (Write)

theorem models_write (hread : mg.Reads) (h : Models g G)
    (hretractable : Retractable mg G) {w : Write A} (hw : w.FloatFree) :
    ∃ g' G', GraphHandle.write mg sj ord g w = some g' ∧ Models g' G'
      ∧ Retractable mg G' ∧ ∀ e a, G'.prop e a = w.propAfter sj e a (G.prop e a) := by
  cases w with
  | createVertex vt id =>
    exact ⟨_, _, rfl, h.createVertex id vt, hretractable, fun _ _ => rfl⟩
  | createEdge v et w =>
    exact ⟨_, _, rfl, h.createEdge v et w, hretractable, fun _ _ => rfl⟩
  | setVertexProperty id a v =>
    refine ⟨_, _, setEntityPropertyByText_eq hread h hretractable _ a hw,
      h.setEntityProperty sj ord (fun n hn => by cases hn) a v, ?_,
      fun _ _ => rfl⟩
    intro e' a' x hx
    unfold PropertyGraph.setProp at hx
    dsimp only at hx
    split at hx
    · obtain rfl := Option.some.inj hx
      rw [mgValueToLiteral_jsonToMg]
      exact read_jsonToMgLiteral hread hw
    · exact hretractable e' a' x hx

theorem models_writes (hread : mg.Reads) {ws : List (Write A)}
    (hws : ∀ w ∈ ws, w.FloatFree) (h : Models g G) (hretractable : Retractable mg G) :
    ∃ g' G', GraphHandle.writes mg sj ord g ws = some g' ∧ Models g' G'
      ∧ ∀ e a, G'.prop e a
        = ws.foldl (fun before w => w.propAfter sj e a before) (G.prop e a) := by
  induction ws generalizing g G with
  | nil => exact ⟨g, G, rfl, h, fun _ _ => rfl⟩
  | cons w ws ih =>
    obtain ⟨hw, hws⟩ := List.forall_mem_cons.1 hws
    obtain ⟨g', G', hstep, h', hretractable', hprop⟩ :=
      models_write hread h hretractable hw
    obtain ⟨g'', G'', hrun, h'', hprops⟩ := ih hws h' hretractable'
    refine ⟨g'', G'', ?_, h'', fun e a => ?_⟩
    · unfold GraphHandle.writes at hrun ⊢
      rw [List.foldlM_cons, hstep]
      exact hrun
    · rw [hprops, hprop, List.foldl_cons]

omit [DecidableEq A] in
/-- Writes of other properties leave a property alone. -/
theorem foldl_propAfter_of_other [DecidableEq A] {id : Uuid} {a : A}
    {ws : List (Write A)} (hws : ∀ value, .setVertexProperty id a value ∉ ws)
    (before : Option MgValue) :
    ws.foldl (fun before w => w.propAfter sj (.vertex id) a before) before = before := by
  induction ws generalizing before with
  | nil => rfl
  | cons w ws ih =>
    have hsame : w.propAfter sj (.vertex id) a before = before := by
      cases w with
      | createVertex vt id' => rfl
      | createEdge v et w => rfl
      | setVertexProperty id' a' value =>
        refine if_neg ?_
        rintro ⟨hid, rfl⟩
        obtain rfl := Entity.vertex.inj hid
        exact hws value List.mem_cons_self
    rw [List.foldl_cons, hsame]
    exact ih (fun value hmem => hws value (List.mem_cons_of_mem _ hmem)) _

theorem property_after_set (hread : mg.Reads) {before after : List (Write A)}
    {id : Uuid} {a : A} (hbefore : ∀ w ∈ before, w.FloatFree) (hafter : ∀ w ∈ after, w.FloatFree)
    (hother : ∀ value, .setVertexProperty id a value ∉ after) (hv : v.FloatFree) :
    ∃ g, GraphHandle.writes mg sj ord [] (before ++ .setVertexProperty id a v :: after) = some g
      ∧ (∃ x, GraphHandle.valuesIn ord g.facts (.vertex id) a = [x])
      ∧ (GraphHandle.getVertexProperties sj ord g id).get a
        = some (mgToJson sj (jsonToMg sj v)) := by
  have hws : ∀ w ∈ before ++ .setVertexProperty id a v :: after, w.FloatFree := by
    intro w hw
    rcases List.mem_append.1 hw with hw | hw
    · exact hbefore w hw
    · rcases List.mem_cons.1 hw with rfl | hw
      · exact hv
      · exact hafter w hw
  obtain ⟨g, G, hrun, h, hprops⟩ :=
    models_writes hread hws models_nil (fun _ _ _ hnone => by cases hnone)
  have hprop : G.prop (.vertex id) a = some (jsonToMg sj v) := by
    rw [hprops, List.foldl_append, List.foldl_cons, foldl_propAfter_of_other hother]
    exact if_pos ⟨rfl, rfl⟩
  refine ⟨g, hrun, ⟨jsonToMg sj v, ?_⟩, ?_⟩
  · rw [h.represents.valuesIn_eq ord, hprop]
    rfl
  · unfold GraphHandle.getVertexProperties
    rw [h.represents.get_propertiesIn sj ord, hprop]
    rfl

/-- **A property is read as it was set exactly where its value survives.**
In every run of writes of integers, strings, booleans, nulls and what is
built of them, after a property was set to `v` and not set again it has one
value, and reading it gives `v` back if and only if `v` survives. -/
theorem property_read_iff (hread : mg.Reads) (hquotes : sj.Quotes)
    {before after : List (Write A)} {id : Uuid} {a : A} {v : Json}
    (hbefore : ∀ w ∈ before, w.FloatFree) (hafter : ∀ w ∈ after, w.FloatFree)
    (hother : ∀ value, .setVertexProperty id a value ∉ after)
    (hv : v.FloatFree) (hserde : sj.ReadsBack v) :
    ∃ g, GraphHandle.writes mg sj ord [] (before ++ .setVertexProperty id a v :: after) = some g
      ∧ (∃ x, GraphHandle.valuesIn ord g.facts (.vertex id) a = [x])
      ∧ ((GraphHandle.getVertexProperties sj ord g id).get a = some v ↔ v.Survives sj) := by
  obtain ⟨g, hrun, hone, hget⟩ :=
    property_after_set hread hbefore hafter hother hv
  refine ⟨g, hrun, hone, ?_⟩
  rw [hget, ← mgToJson_jsonToMg_iff hquotes hv hserde]
  exact Option.some_inj

end

-- ==== samples

def readLiteral (lit : Text) : Option MgValue :=
  match readNumeral lit with
  | some ⟨x, 0⟩ => (I64.ofInt? x).map .integer
  | some d => some (.float d.value)
  | none =>
    match lit with
    | '"' :: body => (unquote body).map fun s => .string (String.ofList s)
    | _ =>
      if lit = "nil".toList then some .null
      else if lit = "true".toList then some (.boolean true)
      else if lit = "false".toList then some (.boolean false)
      else none

def sampleMinigraf : Minigraf :=
  { read := readLiteral, showFloat := fun q => Text.signed q.num }

theorem reads_sampleMinigraf : sampleMinigraf.Reads := by
  intro lit v h
  show readLiteral lit = some v
  cases h with
  | null => decide
  | true => decide
  | false => decide
  | integer i =>
    have hi : I64.ofInt? i.val = some i := I64.ofInt?_eq_some.2 rfl
    unfold readLiteral
    rw [readNumeral_signed]
    exact congrArg (Option.map MgValue.integer) hi
  | float hread hplaces hdouble =>
    rename_i d
    unfold readLiteral
    rw [hread]
    obtain ⟨x, places⟩ := d
    cases places with
    | zero => cases hplaces
    | succ places => rfl
  | string hbody =>
    rename_i body s
    have hnone : readNumeral ('"' :: body) = none := rfl
    unfold readLiteral
    rw [hnone]
    show (unquote body).map _ = _
    rw [hbody]
    exact congrArg (fun s => some (MgValue.string s)) String.ofList_toList

def sampleSerde : SerdeJson where
  toString
    | .number (.posInt n) => String.ofList (Nat.toDigits 10 n)
    | _ => "[]"
  fromStr t :=
    if t = "[]" then some (.array [])
    else if t ≠ "" ∧ ∀ c ∈ t.toList, c.isDigit = true then
      some (.number (.posInt (Text.number t.toList)))
    else none

theorem quotes_sampleSerde : sampleSerde.Quotes := by
  intro t s h
  unfold sampleSerde at h
  dsimp only at h
  split at h
  · cases h
  · split at h
    · cases h
    · cases h

/-- An array replaces a string of quotes and backslashes and is read. -/
theorem empty_array_read :
    ∃ g : GraphHandle String,
      GraphHandle.writes sampleMinigraf sampleSerde .asserted []
        [.setVertexProperty ⟨1⟩ "tags" (.string "a\\b\"c"),
          .setVertexProperty ⟨1⟩ "tags" (.array [])] = some g
      ∧ (∃ x, GraphHandle.valuesIn .asserted g.facts (.vertex ⟨1⟩) "tags" = [x])
      ∧ (GraphHandle.getVertexProperties sampleSerde .asserted g ⟨1⟩).get "tags"
        = some (.array []) := by
  have hserde : sampleSerde.ReadsBack (.array []) :=
    ⟨fun _ => rfl, fun h => absurd h (by decide)⟩
  have hread : ∃ g : GraphHandle String,
      GraphHandle.writes sampleMinigraf sampleSerde .asserted []
        ([.setVertexProperty ⟨1⟩ "tags" (.string "a\\b\"c")]
          ++ .setVertexProperty ⟨1⟩ "tags" (.array []) :: []) = some g
      ∧ (∃ x, GraphHandle.valuesIn .asserted g.facts (.vertex ⟨1⟩) "tags" = [x])
      ∧ ((GraphHandle.getVertexProperties sampleSerde .asserted g ⟨1⟩).get
            "tags" = some (.array [])
        ↔ (Json.array []).Survives sampleSerde) :=
    property_read_iff reads_sampleMinigraf quotes_sampleSerde
      (by simp [GraphHandle.Write.FloatFree, Json.FloatFree]) (by simp)
      (by simp) trivial hserde
  obtain ⟨g, hrun, hone, hiff⟩ := hread
  have hshallow : (Json.array []).depth < recursionLimit := by decide
  exact ⟨g, hrun, hone, hiff.2 hshallow⟩

theorem sample_set (name : String) (hv : v.FloatFree) :
    ∃ g : GraphHandle String,
      GraphHandle.writes sampleMinigraf sampleSerde .asserted []
        [.setVertexProperty ⟨1⟩ name v] = some g
      ∧ (GraphHandle.getVertexProperties sampleSerde .asserted g ⟨1⟩).get name
        = some (mgToJson sampleSerde (jsonToMg sampleSerde v)) := by
  have hnone : ∀ w ∈ ([] : List (GraphHandle.Write String)), w.FloatFree :=
    List.forall_mem_nil _
  obtain ⟨g, hrun, -, hget⟩ := property_after_set reads_sampleMinigraf hnone
    hnone (fun _ => List.not_mem_nil) hv
  exact ⟨g, hrun, hget⟩

/-- A string is read as a number, and a word as a double. -/
theorem marked_string_lost :
    (∃ g : GraphHandle String,
      GraphHandle.writes sampleMinigraf sampleSerde .asserted []
        [.setVertexProperty ⟨1⟩ "note" (.string "json:1")] = some g
      ∧ (GraphHandle.getVertexProperties sampleSerde .asserted g ⟨1⟩).get "note"
        = some (.number (.posInt 1)))
    ∧ ∃ g : GraphHandle String,
      GraphHandle.writes sampleMinigraf sampleSerde .asserted []
        [.setVertexProperty ⟨1⟩ "count" (.number (.posInt (2 ^ 63)))] = some g
      ∧ (GraphHandle.getVertexProperties sampleSerde .asserted g ⟨1⟩).get
        "count" = some (.number (.float (2 ^ 63))) := by
  have hword : (Json.number (.posInt (2 ^ 63))).FloatFree :=
    show 2 ^ 63 < 2 ^ 64 by decide
  obtain ⟨g, hrun, hget⟩ := sample_set "note" (v := .string "json:1") trivial
  obtain ⟨g', hrun', hget'⟩ := sample_set "count" hword
  exact ⟨⟨g, hrun, hget.trans rfl⟩, g', hrun', hget'.trans rfl⟩

end OpenStandards.OpGraph

/-
The property graph behind the facts: typed vertices, edges in the order they
were created, and for every entity and name at most one value.

`Represents` says that a view of the fact store holds exactly the facts of
such a graph; then every query answers the graph's question up to the order
of rows, and every write of the facade is the operation of the graph.
-/
import OpenStandards.OpGraph.Graph

namespace OpenStandards.OpGraph

open Lib OpLedger

/-- Typed vertices, edges in order of creation, scalar properties. -/
structure PropertyGraph (A : Type) where
  types : List (Uuid × String)
  edges : List Edge
  prop : Entity → A → Option MgValue

namespace PropertyGraph

variable {A : Type} [DecidableEq A]

omit [DecidableEq A] in
def empty : PropertyGraph A :=
  { types := [], edges := [], prop := fun _ _ => none }

omit [DecidableEq A] in
/-- A type is given to a vertex once. -/
def addVertex (G : PropertyGraph A) (id : Uuid) (t : String) : PropertyGraph A :=
  { G with
    types := if (id, t) ∈ G.types then G.types else G.types ++ [(id, t)] }

omit [DecidableEq A] in
def addEdge (G : PropertyGraph A) (e : Edge) : PropertyGraph A :=
  { G with edges := G.edges ++ [e] }

def setProp (G : PropertyGraph A) (e : Entity) (a : A) (v : MgValue) : PropertyGraph A :=
  { G with prop := fun e' a' => if e' = e ∧ a' = a then some v
                                else G.prop e' a' }

variable (G : PropertyGraph A)

omit [DecidableEq A] in
def typesOf (id : Uuid) : List String :=
  (G.types.filter fun p => p.1 = id).map Prod.snd

omit [DecidableEq A] in
/-- The edges of a type that leave a vertex. -/
def outEdges (v : Uuid) (et : String) : List Edge :=
  G.edges.filter fun e => e.fromId = v ∧ e.t = et

omit [DecidableEq A] in
/-- The edges of a type that reach a vertex. -/
def inEdges (v : Uuid) (et : String) : List Edge :=
  G.edges.filter fun e => e.toId = v ∧ e.t = et

end PropertyGraph

-- ==== the refinement

section

variable {A : Type} [DecidableEq A]

namespace Fact

omit [DecidableEq A] in
def type? : Fact A → Option (Uuid × String)
  | .type i t => some (i, t)
  | _ => none

omit [DecidableEq A] in
def edgeFrom? : Fact A → Option (EdgeId × Uuid)
  | .edgeFrom e v => some (e, v)
  | _ => none

omit [DecidableEq A] in
def edgeTo? : Fact A → Option (EdgeId × Uuid)
  | .edgeTo e v => some (e, v)
  | _ => none

omit [DecidableEq A] in
def edgeType? : Fact A → Option (EdgeId × String)
  | .edgeType e t => some (e, t)
  | _ => none

def prop? (e : Entity) (a : A) : Fact A → Option MgValue
  | .prop e' a' v => if e' = e ∧ a' = a then some v else none
  | _ => none

end Fact

/-- The view holds exactly the facts of the graph, those of the vertices
and edges in order of creation. -/
structure Represents (view : List (Fact A)) (G : PropertyGraph A) : Prop where
  types : view.filterMap Fact.type? = G.types
  edgesFrom : view.filterMap Fact.edgeFrom? = G.edges.map fun e => (e.id, e.fromId)
  edgesTo : view.filterMap Fact.edgeTo? = G.edges.map fun e => (e.id, e.toId)
  edgesType : view.filterMap Fact.edgeType? = G.edges.map fun e => (e.id, e.t)
  props : ∀ e a, view.filterMap (Fact.prop? e a) = (G.prop e a).toList
  nodup : (G.edges.map Edge.id).Nodup

variable {β : Type} {g : GraphHandle A}

omit [DecidableEq A] in
/-- A projection that no other fact shares finds its fact. -/
theorem mem_iff_of_proj {proj : Fact A → Option β} {view : List (Fact A)}
    {f : Fact A} {b : β} (hf : proj f = some b) (hinj : ∀ f', proj f' = some b → f' = f) :
    f ∈ view ↔ b ∈ view.filterMap proj := by
  rw [List.mem_filterMap]
  constructor
  · intro hmem
    exact ⟨f, hmem, hf⟩
  · intro ⟨f', hmem, hf'⟩
    rw [← hinj f' hf']
    exact hmem

omit [DecidableEq A] in
/-- The facts that pass a test, from what a projection sees of them. -/
theorem filter_eq_map_filterMap (proj : Fact A → Option β)
    (build : β → Fact A) {p : Fact A → Bool} {q : β → Bool}
    (hbuild : ∀ f b, proj f = some b → build b = f ∧ p f = q b)
    (hnone : ∀ f, proj f = none → p f = false) (view : List (Fact A)) :
    view.filter p = ((view.filterMap proj).filter q).map build := by
  induction view with
  | nil => rfl
  | cons f view ih =>
    cases hf : proj f with
    | none =>
      rw [List.filterMap_cons_none hf, List.filter_cons_of_neg (by simp [hnone f hf]), ih]
    | some b =>
      obtain ⟨hb, hpq⟩ := hbuild f b hf
      rw [List.filterMap_cons_some hf]
      cases hp : p f with
      | true =>
        rw [List.filter_cons_of_pos hp,
          List.filter_cons_of_pos (by rw [← hpq, hp]), List.map_cons,
          hb, ih]
      | false =>
        rw [List.filter_cons_of_neg (by simp [hp]),
          List.filter_cons_of_neg (by simp [← hpq, hp]), ih]

namespace Represents

variable {view : List (Fact A)} {G : PropertyGraph A}
  (h : Represents view G)

include h

-- ==== membership

theorem type_mem {i : Uuid} {t : String} : Fact.type i t ∈ view ↔ (i, t) ∈ G.types := by
  rw [← h.types]
  refine mem_iff_of_proj rfl ?_
  intro f hf
  cases f <;> cases hf
  rfl

theorem edge_eq_of_id {e e' : Edge} (he : e ∈ G.edges) (he' : e' ∈ G.edges)
    (hid : e.id = e'.id) : e = e' :=
  List.inj_on_of_nodup_map h.nodup he he' hid

theorem mem_map_edges {β : Type} {part : Edge → β} {e : Edge} (he : e ∈ G.edges) {b : β} :
    (e.id, b) ∈ G.edges.map (fun e => (e.id, part e)) ↔ part e = b := by
  rw [List.mem_map]
  constructor
  · intro ⟨e', he', heq⟩
    rw [Prod.mk.injEq] at heq
    rw [← h.edge_eq_of_id he' he heq.1]
    exact heq.2
  · intro hb
    exact ⟨e, he, by rw [hb]⟩

theorem edgeFrom_mem {e : Edge} (he : e ∈ G.edges) {v : Uuid} :
    Fact.edgeFrom e.id v ∈ view ↔ e.fromId = v := by
  rw [← h.mem_map_edges he, ← h.edgesFrom]
  refine mem_iff_of_proj rfl ?_
  intro f hf
  cases f <;> cases hf
  rfl

theorem edgeTo_mem {e : Edge} (he : e ∈ G.edges) {v : Uuid} :
    Fact.edgeTo e.id v ∈ view ↔ e.toId = v := by
  rw [← h.mem_map_edges he, ← h.edgesTo]
  refine mem_iff_of_proj rfl ?_
  intro f hf
  cases f <;> cases hf
  rfl

theorem edgeType_mem {e : Edge} (he : e ∈ G.edges) {t : String} :
    Fact.edgeType e.id t ∈ view ↔ e.t = t := by
  rw [← h.mem_map_edges he, ← h.edgesType]
  refine mem_iff_of_proj rfl ?_
  intro f hf
  cases f <;> cases hf
  rfl

theorem prop_mem {e : Entity} {a : A} {v : MgValue} :
    Fact.prop e a v ∈ view ↔ G.prop e a = some v := by
  rw [← Option.mem_toList, ← h.props]
  refine mem_iff_of_proj (if_pos ⟨rfl, rfl⟩) ?_
  intro f hf
  cases f with
  | prop e' a' v' =>
    obtain ⟨⟨rfl, rfl⟩, hv⟩ := Option.ite_none_right_eq_some.1 hf
    cases hv
    rfl
  | type i t => cases hf
  | edgeFrom i v => cases hf
  | edgeTo i v => cases hf
  | edgeType i t => cases hf

-- ==== queries

theorem typesIn_eq (ord : RowOrder (Fact A)) (id : Uuid) :
    GraphHandle.typesIn ord view id
      = (ord.order ((G.types.filter fun p => p.1 = id).map
          fun p => Fact.type p.1 p.2)).filterMap fun f => match f with
          | .type _ t => some t
          | _ => none := by
  unfold GraphHandle.typesIn
  rewrite [← h.types, filter_eq_map_filterMap Fact.type?
    (fun p => .type p.1 p.2) (q := fun p => p.1 = id)]
  · rfl
  · intro f b hf
    cases f <;> cases hf
    exact ⟨rfl, rfl⟩
  · intro f hf
    cases f <;> first | rfl | cases hf

theorem typesIn_perm (ord : RowOrder (Fact A)) (id : Uuid) :
    (GraphHandle.typesIn ord view id).Perm (G.typesOf id) := by
  rw [h.typesIn_eq ord id]
  refine ((ord.perm _).filterMap _).trans (List.Perm.of_eq ?_)
  rw [List.filterMap_map]
  exact congrFun List.filterMap_eq_map _

theorem outEdgesIn_eq (ord : RowOrder (Fact A)) (v : Uuid) (et : String) :
    GraphHandle.outEdgesIn ord view v et
      = (ord.order ((G.outEdges v et).map
          fun e => Fact.edgeTo e.id e.toId)).filterMap fun f => match f with
          | .edgeTo e w => some { id := e, fromId := v, t := et, toId := w }
          | _ => none := by
  unfold GraphHandle.outEdgesIn
  rw [filter_eq_map_filterMap Fact.edgeTo?
    (fun p => .edgeTo p.1 p.2) (q := fun p =>
      Fact.edgeFrom p.1 v ∈ view ∧ Fact.edgeType p.1 et ∈ view)]
  · rw [h.edgesTo, List.filter_map, List.map_map]
    congr 3
    refine List.filter_congr ?_
    intro e he
    simp only [Function.comp, h.edgeFrom_mem he, h.edgeType_mem he]
  · intro f b hf
    cases f <;> cases hf
    exact ⟨rfl, rfl⟩
  · intro f hf
    cases f <;> first | rfl | cases hf

/-- The outbound query in order of assertion. -/
theorem outEdgesIn_asserted (v : Uuid) (et : String) :
    GraphHandle.outEdgesIn .asserted view v et = G.outEdges v et := by
  rw [h.outEdgesIn_eq]
  show List.filterMap _ (List.map _ (G.outEdges v et)) = _
  rw [List.filterMap_map]
  refine (List.filterMap_congr ?_).trans List.filterMap_some
  intro e he
  obtain ⟨-, hv⟩ := List.mem_filter.1 he
  rw [decide_eq_true_eq] at hv
  obtain ⟨rfl, rfl⟩ := hv
  rfl

theorem outEdgesIn_perm (ord : RowOrder (Fact A)) (v : Uuid) (et : String) :
    (GraphHandle.outEdgesIn ord view v et).Perm (G.outEdges v et) := by
  rw [← h.outEdgesIn_asserted v et]
  exact (ord.perm _).filterMap _

theorem inEdgesIn_eq (ord : RowOrder (Fact A)) (v : Uuid) (et : String) :
    GraphHandle.inEdgesIn ord view v et
      = (ord.order ((G.inEdges v et).map
          fun e => Fact.edgeFrom e.id e.fromId)).filterMap
          fun f => match f with
          | .edgeFrom e w => some { id := e, fromId := w, t := et, toId := v }
          | _ => none := by
  unfold GraphHandle.inEdgesIn
  rw [filter_eq_map_filterMap Fact.edgeFrom?
    (fun p => .edgeFrom p.1 p.2) (q := fun p =>
      Fact.edgeTo p.1 v ∈ view ∧ Fact.edgeType p.1 et ∈ view)]
  · rw [h.edgesFrom, List.filter_map, List.map_map]
    congr 3
    refine List.filter_congr ?_
    intro e he
    simp only [Function.comp, h.edgeTo_mem he, h.edgeType_mem he]
  · intro f b hf
    cases f <;> cases hf
    exact ⟨rfl, rfl⟩
  · intro f hf
    cases f <;> first | rfl | cases hf

/-- The inbound query in order of assertion. -/
theorem inEdgesIn_asserted (v : Uuid) (et : String) :
    GraphHandle.inEdgesIn .asserted view v et = G.inEdges v et := by
  rw [h.inEdgesIn_eq]
  show List.filterMap _ (List.map _ (G.inEdges v et)) = _
  rw [List.filterMap_map]
  refine (List.filterMap_congr ?_).trans List.filterMap_some
  intro e he
  obtain ⟨-, hv⟩ := List.mem_filter.1 he
  rw [decide_eq_true_eq] at hv
  obtain ⟨rfl, rfl⟩ := hv
  rfl

theorem inEdgesIn_perm (ord : RowOrder (Fact A)) (v : Uuid) (et : String) :
    (GraphHandle.inEdgesIn ord view v et).Perm (G.inEdges v et) := by
  rw [← h.inEdgesIn_asserted v et]
  exact (ord.perm _).filterMap _

/-- At most one value of a property. -/
theorem valuesIn_eq (ord : RowOrder (Fact A)) (e : Entity) (a : A) :
    GraphHandle.valuesIn ord view e a = (G.prop e a).toList := by
  have hperm : (GraphHandle.valuesIn ord view e a).Perm (G.prop e a).toList := by
    refine ((ord.perm _).filterMap _).trans (List.Perm.of_eq ?_)
    rw [← h.props, List.filterMap_filter]
    refine List.filterMap_congr ?_
    intro f _
    cases f with
    | prop e' a' v => simp [Fact.prop?]
    | type i t => rfl
    | edgeFrom i v => rfl
    | edgeTo i v => rfl
    | edgeType i t => rfl
  cases hp : G.prop e a with
  | none =>
    rw [hp] at hperm
    exact hperm.eq_nil
  | some v =>
    rw [hp] at hperm
    exact List.perm_singleton.1 hperm

theorem mem_propertiesIn {sj : SerdeJson} {ord : RowOrder (Fact A)}
    {e : Entity} {a : A} {j : Json} :
    (a, j) ∈ GraphHandle.propertiesIn sj ord view e
      ↔ ∃ v, G.prop e a = some v ∧ mgToJson sj v = j := by
  unfold GraphHandle.propertiesIn
  rw [List.mem_filterMap]
  constructor
  · intro ⟨f, hf, hrow⟩
    rw [RowOrder.mem_order, List.mem_filter] at hf
    obtain ⟨hmem, hent⟩ := hf
    cases f with
    | prop e' a' v =>
      simp only [Option.some.injEq, Prod.mk.injEq] at hrow
      obtain ⟨rfl, rfl⟩ := hrow
      rw [decide_eq_true_eq] at hent
      subst hent
      exact ⟨v, h.prop_mem.1 hmem, rfl⟩
    | type i t => cases hrow
    | edgeFrom i v => cases hrow
    | edgeTo i v => cases hrow
    | edgeType i t => cases hrow
  · intro ⟨v, hv, hj⟩
    refine ⟨.prop e a v, ?_, by simp only [hj]⟩
    rw [RowOrder.mem_order, List.mem_filter]
    exact ⟨h.prop_mem.2 hv, decide_eq_true rfl⟩

theorem get_propertiesIn (sj : SerdeJson) (ord : RowOrder (Fact A)) (e : Entity) (a : A) :
    (GraphHandle.propertiesIn sj ord view e).get a = (G.prop e a).map (mgToJson sj) := by
  unfold Props.get
  cases hfind : (GraphHandle.propertiesIn sj ord view e).reverse.find?
      fun p => decide (p.1 = a) with
  | none =>
    rw [List.find?_eq_none] at hfind
    cases hp : G.prop e a with
    | none => rfl
    | some v =>
      have hmem := (@mem_propertiesIn _ _ _ _ h sj ord e a _).2
        ⟨v, hp, rfl⟩
      exact absurd (decide_eq_true rfl) (hfind _ (List.mem_reverse.2 hmem))
  | some row =>
    obtain ⟨b, j⟩ := row
    have hb : b = a := by simpa using List.find?_some hfind
    have hmem := List.mem_reverse.1 (List.mem_of_find?_eq_some hfind)
    rw [hb] at hmem
    obtain ⟨v, hv, rfl⟩ := h.mem_propertiesIn.1 hmem
    rw [hv]
    rfl

theorem propertiesIn_isEmpty {sj : SerdeJson} {ord : RowOrder (Fact A)} {e : Entity} :
    (GraphHandle.propertiesIn sj ord view e).isEmpty ↔ ∀ a, G.prop e a = none := by
  rw [List.isEmpty_iff, List.eq_nil_iff_forall_not_mem]
  constructor
  · intro hnone a
    cases hp : G.prop e a with
    | none => rfl
    | some v =>
      exact absurd (h.mem_propertiesIn.2 ⟨v, hp, rfl⟩) (hnone (a, mgToJson sj v))
  · intro hnone row hrow
    obtain ⟨v, hv, -⟩ := h.mem_propertiesIn.1 (show (row.1, row.2) ∈ _ from hrow)
    rw [hnone row.1] at hv
    cases hv

end Represents

-- ==== writes

omit [DecidableEq A] in
theorem represents_nil [DecidableEq A] : Represents ([] : List (Fact A)) .empty :=
  ⟨rfl, rfl, rfl, rfl, fun _ _ => rfl, List.nodup_nil⟩

variable {view : List (Fact A)} {G : PropertyGraph A}

theorem Represents.addVertex (h : Represents view G) (id : Uuid) (t : String) :
    Represents (assertFact view (.type id t)) (G.addVertex id t) := by
  unfold PropertyGraph.addVertex
  by_cases hmem : (id, t) ∈ G.types
  · rw [assertFact_of_mem (h.type_mem.2 hmem)]
    simp only [if_pos hmem]
    exact h
  · rw [assertFact_of_not_mem (fun hf => hmem (h.type_mem.1 hf))]
    simp only [if_neg hmem]
    refine ⟨?_, ?_, ?_, ?_, ?_, h.nodup⟩
    · rw [List.filterMap_append, h.types]
      rfl
    · rw [List.filterMap_append, h.edgesFrom]
      exact List.append_nil _
    · rw [List.filterMap_append, h.edgesTo]
      exact List.append_nil _
    · rw [List.filterMap_append, h.edgesType]
      exact List.append_nil _
    · intro e a
      rw [List.filterMap_append, h.props]
      exact List.append_nil _

omit [DecidableEq A] in
theorem not_mem_of_new_id {part : Edge → β} {id : EdgeId}
    (hnew : ∀ e ∈ G.edges, e.id ≠ id) (b : β) :
    (id, b) ∉ G.edges.map fun e => (e.id, part e) := by
  intro hmem
  obtain ⟨e, he, heq⟩ := List.mem_map.1 hmem
  exact hnew e he (Prod.mk.inj heq).1

theorem Represents.addEdge (h : Represents view G) {e : Edge}
    (hnew : ∀ e' ∈ G.edges, e'.id ≠ e.id) :
    Represents ([.edgeFrom e.id e.fromId, .edgeTo e.id e.toId,
      .edgeType e.id e.t].foldl assertFact view) (G.addEdge e) := by
  have hfrom : Fact.edgeFrom e.id e.fromId ∉ view := by
    intro hf
    have hmem := List.mem_filterMap.2 ⟨_, hf, (rfl : Fact.edgeFrom? _ = _)⟩
    rw [h.edgesFrom] at hmem
    exact not_mem_of_new_id hnew _ hmem
  have hto : Fact.edgeTo e.id e.toId ∉ view ++ [Fact.edgeFrom e.id e.fromId] := by
    intro hf
    rw [List.mem_append, List.mem_singleton] at hf
    rcases hf with hf | hf
    · have hmem := List.mem_filterMap.2
        ⟨_, hf, (rfl : Fact.edgeTo? _ = _)⟩
      rw [h.edgesTo] at hmem
      exact not_mem_of_new_id hnew _ hmem
    · cases hf
  have htype : Fact.edgeType e.id e.t ∉ (view
      ++ [Fact.edgeFrom e.id e.fromId]) ++ [Fact.edgeTo e.id e.toId] := by
    intro hf
    simp only [List.mem_append, List.mem_singleton] at hf
    rcases hf with (hf | hf) | hf
    · have hmem := List.mem_filterMap.2
        ⟨_, hf, (rfl : Fact.edgeType? _ = _)⟩
      rw [h.edgesType] at hmem
      exact not_mem_of_new_id hnew _ hmem
    · cases hf
    · cases hf
  rw [List.foldl_cons, List.foldl_cons, List.foldl_cons, List.foldl_nil,
    assertFact_of_not_mem hfrom, assertFact_of_not_mem hto,
    assertFact_of_not_mem htype, List.append_assoc, List.append_assoc]
  unfold PropertyGraph.addEdge
  refine ⟨?_, ?_, ?_, ?_, ?_, ?_⟩
  · rw [List.filterMap_append, h.types]
    exact List.append_nil _
  · rw [List.filterMap_append, h.edgesFrom, List.map_append]
    rfl
  · rw [List.filterMap_append, h.edgesTo, List.map_append]
    rfl
  · rw [List.filterMap_append, h.edgesType, List.map_append]
    rfl
  · intro e' a
    rw [List.filterMap_append, h.props]
    exact List.append_nil _
  · rw [List.map_append, List.nodup_append]
    refine ⟨h.nodup, List.nodup_singleton _, ?_⟩
    intro x hx y hy
    obtain ⟨e', he', rfl⟩ := List.mem_map.1 hx
    rw [List.map_cons, List.map_nil, List.mem_singleton] at hy
    rw [hy]
    exact hnew e' he'

def PropertyGraph.clearProp (G : PropertyGraph A) (e : Entity) (a : A) : PropertyGraph A :=
  { G with prop := fun e' a' => if e' = e ∧ a' = a then none
                                else G.prop e' a' }

/-- Retracting a property's value. -/
theorem Represents.clearProp (h : Represents view G) {e : Entity} {a : A}
    {v : MgValue} (hv : G.prop e a = some v) :
    Represents (view.filter fun f => f ∉ [Fact.prop e a v]) (G.clearProp e a) := by
  have hkeep : ∀ {β : Type} (proj : Fact A → Option β),
      proj (.prop e a v) = none →
      (view.filter fun f => f ∉ [Fact.prop e a v]).filterMap proj = view.filterMap proj := by
    intro β proj hproj
    rw [List.filterMap_filter]
    refine List.filterMap_congr ?_
    intro f _
    by_cases hf : f = .prop e a v
    · rw [hf, hproj]
      simp
    · simp [hf]
  refine ⟨?_, ?_, ?_, ?_, ?_, h.nodup⟩
  · exact (hkeep _ rfl).trans h.types
  · exact (hkeep _ rfl).trans h.edgesFrom
  · exact (hkeep _ rfl).trans h.edgesTo
  · exact (hkeep _ rfl).trans h.edgesType
  · intro e' a'
    unfold PropertyGraph.clearProp
    by_cases heq : e' = e ∧ a' = a
    · obtain ⟨rfl, rfl⟩ := heq
      simp only [and_self, if_true, Option.toList_none]
      refine List.filterMap_eq_nil_iff.2 ?_
      intro f hmem
      obtain ⟨hf, hne⟩ := List.mem_filter.1 hmem
      cases f with
      | prop e'' a'' v'' =>
        refine if_neg ?_
        rintro ⟨rfl, rfl⟩
        have hv'' := h.prop_mem.1 hf
        rw [hv] at hv''
        cases hv''
        simp at hne
      | type i t => rfl
      | edgeFrom i v => rfl
      | edgeTo i v => rfl
      | edgeType i t => rfl
    · simp only [if_neg heq]
      refine (hkeep _ (if_neg ?_)).trans (h.props e' a')
      rintro ⟨rfl, rfl⟩
      exact heq ⟨rfl, rfl⟩

theorem Represents.setProp (h : Represents view G) {e : Entity} {a : A}
    (hnone : G.prop e a = none) (v : MgValue) :
    Represents (assertFact view (.prop e a v)) (G.setProp e a v) := by
  have hnew : Fact.prop e a v ∉ view := by
    intro hf
    rw [h.prop_mem, hnone] at hf
    cases hf
  rw [assertFact_of_not_mem hnew]
  refine ⟨?_, ?_, ?_, ?_, ?_, h.nodup⟩
  · rw [List.filterMap_append, h.types]
    exact List.append_nil _
  · rw [List.filterMap_append, h.edgesFrom]
    exact List.append_nil _
  · rw [List.filterMap_append, h.edgesTo]
    exact List.append_nil _
  · rw [List.filterMap_append, h.edgesType]
    exact List.append_nil _
  · intro e' a'
    rw [List.filterMap_append, h.props]
    unfold PropertyGraph.setProp
    by_cases heq : e' = e ∧ a' = a
    · obtain ⟨rfl, rfl⟩ := heq
      simp [Fact.prop?, hnone]
    · simp only [if_neg heq]
      have hother : Fact.prop? e' a' (.prop e a v) = none := by
        refine if_neg ?_
        rintro ⟨rfl, rfl⟩
        exact heq ⟨rfl, rfl⟩
      rw [List.filterMap_cons_none hother, List.filterMap_nil, List.append_nil]

theorem PropertyGraph.setProp_clearProp (G : PropertyGraph A) (e : Entity)
    (a : A) (v : MgValue) : (G.clearProp e a).setProp e a v = G.setProp e a v := by
  unfold clearProp setProp
  simp only [mk.injEq, true_and]
  funext e' a'
  by_cases h : e' = e ∧ a' = a
  · rw [if_pos h, if_pos h]
  · rw [if_neg h, if_neg h, if_neg h]

-- ==== the handle

/-- The handle's present view is the graph, every edge minted by it. -/
structure Models (g : GraphHandle A) (G : PropertyGraph A) : Prop where
  represents : Represents g.facts G
  minted : ∀ e ∈ G.edges, e.id < g.txCount
  fresh : ∀ n a, g.txCount ≤ n → G.prop (.edge n) a = none

theorem models_nil : Models ([] : GraphHandle A) .empty :=
  ⟨represents_nil, nofun, fun _ _ _ => rfl⟩

theorem Models.createVertex (h : Models g G) (id : Uuid) (t : String) :
    Models (GraphHandle.createVertex g t id) (G.addVertex id t) := by
  unfold GraphHandle.createVertex
  refine ⟨?_, ?_, ?_⟩
  · rw [FactLog.facts_transact]
    exact h.represents.addVertex id t
  · intro e he
    rw [FactLog.txCount_transact]
    exact Nat.lt_succ_of_lt (h.minted e he)
  · intro n a hn
    rw [FactLog.txCount_transact] at hn
    exact h.fresh n a (Nat.le_of_succ_le hn)

theorem Models.createEdge (h : Models g G) (v : Uuid) (et : String) (w : Uuid) :
    Models (GraphHandle.createEdge g v et w).2
      (G.addEdge (GraphHandle.createEdge g v et w).1) := by
  unfold GraphHandle.createEdge
  refine ⟨?_, ?_, ?_⟩
  · rw [FactLog.facts_transact]
    exact h.represents.addEdge (e := ⟨g.txCount, v, et, w⟩)
      fun e he => Nat.ne_of_lt (h.minted e he)
  · intro e he
    rw [FactLog.txCount_transact]
    rcases List.mem_append.1 he with he | he
    · exact Nat.lt_succ_of_lt (h.minted e he)
    · rw [List.mem_singleton.1 he]
      exact Nat.lt_succ_self _
  · intro n a hn
    rw [FactLog.txCount_transact] at hn
    exact h.fresh n a (Nat.le_of_succ_le hn)

theorem Models.setEntityProperty (h : Models g G) (sj : SerdeJson)
    (ord : RowOrder (Fact A)) {e : Entity}
    (he : ∀ n, e = .edge n → n < g.txCount) (a : A) (x : Json) :
    Models (GraphHandle.setEntityProperty sj ord g e a x) (G.setProp e a (jsonToMg sj x)) := by
  have hfresh : ∀ n a', g.txCount ≤ n →
      (G.setProp e a (jsonToMg sj x)).prop (.edge n) a' = none := by
    intro n a' hn
    unfold PropertyGraph.setProp
    refine (if_neg ?_).trans (h.fresh n a' hn)
    rintro ⟨heq, -⟩
    exact absurd (he n heq.symm) (Nat.not_lt_of_le hn)
  unfold GraphHandle.setEntityProperty
  rw [h.represents.valuesIn_eq ord e a]
  cases hp : G.prop e a with
  | none =>
    refine ⟨?_, ?_, ?_⟩
    · rw [FactLog.facts_transact]
      exact h.represents.setProp hp _
    · intro e' he'
      rw [FactLog.txCount_transact]
      exact Nat.lt_succ_of_lt (h.minted e' he')
    · intro n a' hn
      rw [FactLog.txCount_transact] at hn
      exact hfresh n a' (Nat.le_of_succ_le hn)
  | some v =>
    have hcount : (FactLog.transact
        (FactLog.retract g [.prop e a v]) [.prop e a (jsonToMg sj x)]
        ).txCount = g.txCount + 2 := by
      rw [FactLog.txCount_transact, FactLog.txCount_retract]
    refine ⟨?_, ?_, ?_⟩
    · show Represents (FactLog.transact (FactLog.retract g _) _).facts _
      rw [FactLog.facts_transact, FactLog.facts_retract, ← PropertyGraph.setProp_clearProp]
      exact (h.represents.clearProp hp).setProp (if_pos ⟨rfl, rfl⟩) _
    · intro e' he'
      show e'.id < (FactLog.transact (FactLog.retract g _) _).txCount
      rw [hcount]
      exact Nat.lt_add_right 2 (h.minted e' he')
    · intro n a' hn
      change (FactLog.transact (FactLog.retract g _) _).txCount ≤ n at hn
      rw [hcount] at hn
      exact hfresh n a' (by omega)

end

end OpenStandards.OpGraph

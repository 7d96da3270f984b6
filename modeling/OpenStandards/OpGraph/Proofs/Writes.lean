/-
What the writing methods of the graph store do to the property graph.

Every method is a sequence of vertex, edge and property writes. The one
search among them is that of `persistEntry`: it writes the properties of an
entry to some edge from the transaction to the account on the entry's side,
the new one or an older one (`persistEntry_spec`). So entries with different
accounts or sides each fill their own edge (`persistEntries_apart`), and an
edge created where there was one already may stay empty
(`persistEntries_shadowed`).
-/
import OpenStandards.OpGraph.Proofs.Legs

namespace OpenStandards.OpGraph

open Lib OpCore OpLedger GraphLedgerStore

-- ==== the operations

namespace PropertyGraph

variable {A : Type} [DecidableEq A] (G : PropertyGraph A)

omit [DecidableEq A] in
@[simp]
theorem edges_addVertex (id : Uuid) (t : String) : (G.addVertex id t).edges = G.edges := rfl

omit [DecidableEq A] in
@[simp]
theorem prop_addVertex (id : Uuid) (t : String) : (G.addVertex id t).prop = G.prop := rfl

omit [DecidableEq A] in
@[simp]
theorem edges_addEdge (e : Edge) : (G.addEdge e).edges = G.edges ++ [e] := rfl

omit [DecidableEq A] in
@[simp]
theorem types_addEdge (e : Edge) : (G.addEdge e).types = G.types := rfl

omit [DecidableEq A] in
@[simp]
theorem prop_addEdge (e : Edge) : (G.addEdge e).prop = G.prop := rfl

@[simp]
theorem edges_setProp (e : Entity) (a : A) (v : MgValue) :
    (G.setProp e a v).edges = G.edges := rfl

@[simp]
theorem types_setProp (e : Entity) (a : A) (v : MgValue) :
    (G.setProp e a v).types = G.types := rfl

theorem prop_setProp (e e' : Entity) (a a' : A) (v : MgValue) :
    (G.setProp e a v).prop e' a' = if e' = e ∧ a' = a then some v else G.prop e' a' := rfl

@[simp]
theorem prop_setProp_self (e : Entity) (a : A) (v : MgValue) :
    (G.setProp e a v).prop e a = some v := if_pos ⟨rfl, rfl⟩

theorem prop_setProp_of_ne {e e' : Entity} (h : e' ≠ e) (a a' : A)
    (v : MgValue) : (G.setProp e a v).prop e' a' = G.prop e' a' :=
  if_neg fun heq => h heq.1

variable {a : A} {id id' : Uuid} {t : String} {sj : SerdeJson}

theorem prop_setProp_of_attr_ne {a' : A} (h : a' ≠ a) (e e' : Entity)
    (v : MgValue) : (G.setProp e a v).prop e' a' = G.prop e' a' :=
  if_neg fun heq => h heq.2

omit [DecidableEq A] in
theorem mem_types_addVertex {t' : String} :
    (id', t') ∈ (G.addVertex id t).types ↔ (id', t') = (id, t) ∨ (id', t') ∈ G.types := by
  unfold addVertex
  by_cases h : (id, t) ∈ G.types
  · simp only [if_pos h]
    constructor
    · exact Or.inr
    · rintro (heq | hmem)
      · rw [heq]
        exact h
      · exact hmem
  · simp only [if_neg h, List.mem_append, List.mem_singleton]
    exact or_comm

omit [DecidableEq A] in
theorem filter_types_addVertex (h : id' ≠ id) (t : String) :
    ((G.addVertex id t).types.filter fun p => p.1 = id')
      = G.types.filter fun p => p.1 = id' := by
  unfold addVertex
  by_cases hmem : (id, t) ∈ G.types
  · simp only [if_pos hmem]
  · simp only [if_neg hmem]
    rw [List.filter_append, List.filter_cons_of_neg
      (by simpa using Ne.symm h), List.filter_nil, List.append_nil]

omit [DecidableEq A] in
theorem typesOf_addVertex_of_ne (h : id' ≠ id) (t : String) :
    (G.addVertex id t).typesOf id' = G.typesOf id' := by
  unfold typesOf
  rw [G.filter_types_addVertex h t]

omit [DecidableEq A] in
theorem typesOf_addVertex_new (h : G.typesOf id = []) (t : String) :
    (G.addVertex id t).typesOf id = [t] := by
  have hnil : (G.types.filter fun p => p.1 = id) = [] :=
    List.map_eq_nil_iff.1 h
  have hmem : (id, t) ∉ G.types := by
    intro hmem
    have hin : (id, t) ∈ G.types.filter fun p => p.1 = id :=
      List.mem_filter.2 ⟨hmem, decide_eq_true rfl⟩
    rw [hnil] at hin
    cases hin
  unfold typesOf addVertex
  simp only [if_neg hmem]
  rw [List.filter_append, hnil, List.filter_cons_of_pos (by simp)]
  rfl

omit [DecidableEq A] in
/-- A type given again changes nothing. -/
theorem addVertex_of_mem (h : (id, t) ∈ G.types) : G.addVertex id t = G := by
  unfold addVertex
  rw [if_pos h]

omit [DecidableEq A] in
theorem mem_typesOf : t ∈ G.typesOf id ↔ (id, t) ∈ G.types := by
  unfold typesOf
  rw [List.mem_map]
  constructor
  · rintro ⟨⟨i, t'⟩, hmem, rfl⟩
    obtain ⟨hmem, hi⟩ := List.mem_filter.1 hmem
    rw [decide_eq_true_eq] at hi
    rw [← hi]
    exact hmem
  · intro hmem
    exact ⟨(id, t), List.mem_filter.2 ⟨hmem, decide_eq_true rfl⟩, rfl⟩

omit [DecidableEq A] in
theorem typesOf_addVertex_ne_nil (id : Uuid) (t : String) :
    (G.addVertex id t).typesOf id ≠ [] :=
  List.ne_nil_of_mem ((mem_typesOf _).2 (G.mem_types_addVertex.2 (Or.inl rfl)))

def setProps (sj : SerdeJson) (e : Entity) (G : PropertyGraph A)
    (ps : List (A × Json)) : PropertyGraph A :=
  ps.foldl (fun G p => G.setProp e p.1 (jsonToMg sj p.2)) G

@[simp]
theorem edges_setProps (sj : SerdeJson) (e : Entity) (ps : List (A × Json)) :
    (G.setProps sj e ps).edges = G.edges := by
  induction ps generalizing G with
  | nil => rfl
  | cons p ps ih => exact ih (G.setProp e p.1 (jsonToMg sj p.2))

@[simp]
theorem types_setProps (sj : SerdeJson) (e : Entity) (ps : List (A × Json)) :
    (G.setProps sj e ps).types = G.types := by
  induction ps generalizing G with
  | nil => rfl
  | cons p ps ih => exact ih (G.setProp e p.1 (jsonToMg sj p.2))

theorem prop_setProps_of_ne {e e' : Entity} (h : e' ≠ e) (ps : List (A × Json)) (a : A) :
    (G.setProps sj e ps).prop e' a = G.prop e' a := by
  induction ps generalizing G with
  | nil => rfl
  | cons p ps ih =>
    exact (ih (G.setProp e p.1 (jsonToMg sj p.2))).trans (G.prop_setProp_of_ne h ..)

/-- Properties that are not written stay. -/
theorem prop_setProps_of_not_mem {e : Entity} {ps : List (A × Json)}
    (h : a ∉ ps.map Prod.fst) (e' : Entity) :
    (G.setProps sj e ps).prop e' a = G.prop e' a := by
  induction ps generalizing G with
  | nil => rfl
  | cons p ps ih =>
    rw [List.map_cons, List.mem_cons, not_or] at h
    exact (ih (G.setProp e p.1 (jsonToMg sj p.2)) h.2).trans (G.prop_setProp_of_attr_ne h.1 ..)

/-- A property written once is there. -/
theorem prop_setProps_of_mem {e : Entity} {ps : List (A × Json)}
    (hnd : (ps.map Prod.fst).Nodup) {j : Json} (h : (a, j) ∈ ps) :
    (G.setProps sj e ps).prop e a = some (jsonToMg sj j) := by
  induction ps generalizing G with
  | nil => cases h
  | cons p ps ih =>
    rw [List.map_cons, List.nodup_cons] at hnd
    rcases List.mem_cons.1 h with rfl | h
    · exact ((G.setProp e a (jsonToMg sj j)).prop_setProps_of_not_mem
        hnd.1 e).trans (G.prop_setProp_self ..)
    · exact ih (G.setProp e p.1 (jsonToMg sj p.2)) hnd.2 h

end PropertyGraph

-- ==== the writers

section

variable {sj : SerdeJson} {ord : RowOrder (Fact LedgerProp)}
  {g : GraphHandle LedgerProp} {G : LedgerGraph}

theorem Models.writeProps (h : Models g G) (id : Uuid) (ps : List (LedgerProp × Json)) :
    Models (GraphLedgerStore.writeProps sj ord id g ps) (G.setProps sj (.vertex id) ps) := by
  induction ps generalizing g G with
  | nil => exact h
  | cons p ps ih =>
    exact ih (h.setEntityProperty sj ord (fun n hn => by cases hn) p.1 p.2)

-- ------------------------------------------------------------ the log grows

theorem transact_grows (g : GraphHandle LedgerProp)
    (fs : List (Fact LedgerProp)) : g <+: FactLog.transact g fs :=
  List.prefix_append ..

theorem setEntityProperty_grows (g : GraphHandle LedgerProp) (e : Entity)
    (a : LedgerProp) (x : Json) :
    g <+: GraphHandle.setEntityProperty sj ord g e a x := by
  have hretracts : ∀ (vs : List MgValue) (g : GraphHandle LedgerProp),
      g <+: vs.foldl (fun g old => FactLog.retract g [.prop e a old]) g := by
    intro vs
    induction vs with
    | nil =>
      intro g
      exact List.prefix_refl g
    | cons v vs ih =>
      intro g
      exact (List.prefix_append ..).trans (ih (FactLog.retract g _))
  exact (hretracts _ g).trans (transact_grows _ _)

theorem writeProps_grows (id : Uuid) (ps : List (LedgerProp × Json))
    (g : GraphHandle LedgerProp) :
    g <+: GraphLedgerStore.writeProps sj ord id g ps := by
  induction ps generalizing g with
  | nil => exact List.prefix_refl g
  | cons p ps ih => exact (setEntityProperty_grows g ..).trans (ih _)

theorem writeEntryProps_grows (g : GraphHandle LedgerProp) (edge : Edge)
    (entry : Entry) : g <+: writeEntryProps sj ord g edge entry :=
  ((setEntityProperty_grows g ..).trans (setEntityProperty_grows _ ..)
    ).trans (setEntityProperty_grows _ ..)

-- ==== one entry

/-- The properties of an entry edge. -/
def entryProps (entry : Entry) : List (LedgerProp × Json) :=
  [(.amountMinor, .number (.ofI64 entry.amount.minorUnits)),
    (.currencyCode, .string entry.amount.currency.code),
    (.currencyExponent, .number (.ofU64 entry.amount.currency.exponent))]

/-- The edge goes from the transaction to the entry's account, on the
entry's side. -/
def Edge.carries (e : Edge) (txId : TransactionId) (entry : Entry) : Prop :=
  e.fromId = txId.uuid ∧ e.t = entryType entry.direction ∧ e.toId = entry.accountId.uuid

def newEdge (g : GraphHandle LedgerProp) (txId : TransactionId) (entry : Entry) : Edge :=
  { id := g.txCount, fromId := txId.uuid, t := entryType entry.direction
    toId := entry.accountId.uuid }

theorem newEdge_carries (g : GraphHandle LedgerProp) (txId : TransactionId)
    (entry : Entry) : (newEdge g txId entry).carries txId entry :=
  ⟨rfl, rfl, rfl⟩

theorem Models.writeEntryProps (h : Models g G) {edge : Edge}
    (hedge : edge ∈ G.edges) (entry : Entry) :
    Models (GraphLedgerStore.writeEntryProps sj ord g edge entry)
      (G.setProps sj (.edge edge.id) (entryProps entry)) := by
  have hlt : ∀ g' : GraphHandle LedgerProp, g <+: g' →
      ∀ n, Entity.edge edge.id = .edge n → n < g'.txCount := by
    intro g' hpre n hn
    cases hn
    exact lt_of_lt_of_le (h.minted edge hedge) hpre.length_le
  have h₁ := h.setEntityProperty sj ord (hlt _ (List.prefix_refl g))
    LedgerProp.amountMinor (.number (.ofI64 entry.amount.minorUnits))
  have h₂ := h₁.setEntityProperty sj ord (hlt _ (setEntityProperty_grows ..))
    LedgerProp.currencyCode (.string entry.amount.currency.code)
  exact h₂.setEntityProperty sj ord
    (hlt _ ((setEntityProperty_grows ..).trans (setEntityProperty_grows ..)))
    LedgerProp.currencyExponent
    (.number (.ofU64 entry.amount.currency.exponent))

/-- Persisting one entry succeeds: an edge is created, and the properties
go to some edge that carries the entry, as the search finds it. -/
theorem persistEntry_spec (sj : SerdeJson) (ord : RowOrder (Fact LedgerProp)) (h : Models g G)
    (txId : TransactionId) (entry : Entry) :
    ∃ g' found, persistEntry sj ord txId g entry = (.ok (), g')
      ∧ g <+: g'
      ∧ found ∈ (G.addEdge (newEdge g txId entry)).edges
      ∧ found.carries txId entry
      ∧ (ord.order (((G.addEdge (newEdge g txId entry)).outEdges txId.uuid
            (entryType entry.direction)).map
            fun e => Fact.edgeTo e.id e.toId)
          = ((G.addEdge (newEdge g txId entry)).outEdges txId.uuid
            (entryType entry.direction)).map
            (fun e => Fact.edgeTo e.id e.toId) →
        ((G.addEdge (newEdge g txId entry)).outEdges txId.uuid
          (entryType entry.direction)).find?
          (fun e => e.toId = entry.accountId.uuid) = some found)
      ∧ Models g' ((G.addEdge (newEdge g txId entry)).setProps sj
          (.edge found.id) (entryProps entry)) := by
  have h₁ : Models _ (G.addEdge (newEdge g txId entry)) :=
    h.createEdge txId.uuid (entryType entry.direction) entry.accountId.uuid
  have hperm := h₁.represents.outEdgesIn_perm ord txId.uuid (entryType entry.direction)
  have hnew : newEdge g txId entry
      ∈ (G.addEdge (newEdge g txId entry)).outEdges txId.uuid (entryType entry.direction) :=
    List.mem_filter.2 ⟨List.mem_append_right _ (List.mem_singleton.2 rfl),
      decide_eq_true ⟨rfl, rfl⟩⟩
  unfold persistEntry GraphHandle.outEdges
  cases hfind : (GraphHandle.outEdgesIn ord (GraphHandle.createEdge g
      txId.uuid (entryType entry.direction) entry.accountId.uuid).2.facts
      txId.uuid (entryType entry.direction)).find?
      fun e => decide (e.toId = entry.accountId.uuid) with
  | none =>
    rw [List.find?_eq_none] at hfind
    exact absurd (decide_eq_true rfl) (hfind (newEdge g txId entry) (hperm.mem_iff.2 hnew))
  | some found =>
    have hmem := hperm.mem_iff.1 (List.mem_of_find?_eq_some hfind)
    obtain ⟨hedge, hout⟩ := List.mem_filter.1 hmem
    have hto : found.toId = entry.accountId.uuid := by
      simpa using List.find?_some hfind
    rw [decide_eq_true_eq] at hout
    refine ⟨writeEntryProps sj ord (GraphHandle.createEdge g txId.uuid
      (entryType entry.direction) entry.accountId.uuid).2 found entry,
      found, by simp only [hfind], ?_, hedge, ⟨hout.1, hout.2, hto⟩, ?_,
      h₁.writeEntryProps hedge entry⟩
    · exact (transact_grows ..).trans (writeEntryProps_grows ..)
    · intro hkept
      rw [h₁.represents.outEdgesIn_eq, hkept] at hfind
      rw [← h₁.represents.outEdgesIn_asserted, h₁.represents.outEdgesIn_eq]
      exact hfind

-- ==== all entries

theorem nodup_entryProps (entry : Entry) : ((entryProps entry).map Prod.fst).Nodup := by
  simp [entryProps]

/-- What persisting entries changes in any state: edges are added, one
for each entry, and properties change on edges that carry an entry. -/
structure EntriesEffect (txId : TransactionId) (entries : List Entry)
    (g : GraphHandle LedgerProp) (G G' : LedgerGraph) (es : List Edge) :
    Prop where
  types : G'.types = G.types
  edges : G'.edges = G.edges ++ es
  carried : List.Forall₂ (fun e entry => e.carries txId entry) es entries
  minted : ∀ e ∈ es, g.txCount ≤ e.id
  vertexProps : ∀ u a, G'.prop (.vertex u) a = G.prop (.vertex u) a
  edgeProps : ∀ e ∈ G'.edges, (∀ entry ∈ entries, ¬ e.carries txId entry) →
    ∀ a, G'.prop (.edge e.id) a = G.prop (.edge e.id) a

theorem EntriesEffect.nil (txId : TransactionId) (g : GraphHandle LedgerProp) (G : LedgerGraph) :
    EntriesEffect txId [] g G G [] :=
  ⟨rfl, (List.append_nil _).symm, .nil, nofun, fun _ _ => rfl,
    fun _ _ _ _ => rfl⟩

variable {txId : TransactionId} {entry : Entry}

theorem EntriesEffect.cons {entries : List Entry}
    {g g₁ g' : GraphHandle LedgerProp} {G G' : LedgerGraph} {found : Edge}
    {es : List Edge} (hpre : g <+: g₁) (hfound : found ∈ (G.addEdge (newEdge g txId entry)).edges)
    (hcarries : found.carries txId entry) (h' : Models g' G')
    (heff : EntriesEffect txId entries g₁
      ((G.addEdge (newEdge g txId entry)).setProps sj (.edge found.id)
        (entryProps entry)) G' es) :
    EntriesEffect txId (entry :: entries) g G G' (newEdge g txId entry :: es) := by
  refine ⟨?_, ?_, ?_, ?_, ?_, ?_⟩
  · rw [heff.types, PropertyGraph.types_setProps, PropertyGraph.types_addEdge]
  · rw [heff.edges, PropertyGraph.edges_setProps,
      PropertyGraph.edges_addEdge, List.append_assoc]
    rfl
  · exact .cons (newEdge_carries g txId entry) heff.carried
  · intro e he
    rcases List.mem_cons.1 he with rfl | he
    · exact le_refl _
    · exact hpre.length_le.trans (heff.minted e he)
  · intro u a
    refine (heff.vertexProps u a).trans ?_
    exact PropertyGraph.prop_setProps_of_ne _ (by intro h; cases h) _ a
  · intro e he hnot a
    rw [heff.edgeProps e he (fun en hen =>
      hnot en (List.mem_cons_of_mem _ hen)) a]
    refine PropertyGraph.prop_setProps_of_ne _ ?_ _ a
    intro hid
    have hmem : found ∈ G'.edges := by
      rw [heff.edges, PropertyGraph.edges_setProps]
      exact List.mem_append_left _ hfound
    have hsame := h'.represents.edge_eq_of_id he hmem (Entity.edge.inj hid)
    rw [hsame] at hnot
    exact hnot entry List.mem_cons_self hcarries

theorem persistEntries_effect (sj : SerdeJson)
    (ord : RowOrder (Fact LedgerProp)) (txId : TransactionId) :
    ∀ (entries : List Entry) {g : GraphHandle LedgerProp} {G : LedgerGraph},
      Models g G →
      ∃ g' G' es, persistEntries sj ord txId entries g = (.ok (), g')
        ∧ g <+: g' ∧ Models g' G'
        ∧ EntriesEffect txId entries g G G' es := by
  intro entries
  induction entries with
  | nil =>
    intro g G h
    exact ⟨g, G, [], rfl, List.prefix_refl g, h, .nil txId g G⟩
  | cons entry entries ih =>
    intro g G h
    obtain ⟨g₁, found, heq₁, hpre₁, hfound, hcarries, -, h₁⟩ :=
      persistEntry_spec sj ord h txId entry
    obtain ⟨g', G', es, heq, hpre, h', heff⟩ := ih h₁
    refine ⟨g', G', newEdge g txId entry :: es, ?_, hpre₁.trans hpre, h',
      .cons hpre₁ hfound hcarries h' heff⟩
    unfold persistEntries
    rw [heq₁]
    exact heq

/-- The edge holds the properties of the entry. -/
structure Filled (sj : SerdeJson) (G : LedgerGraph) (txId : TransactionId)
    (e : Edge) (entry : Entry) : Prop where
  carries : e.carries txId entry
  props : ∀ p ∈ entryProps entry, G.prop (.edge e.id) p.1 = some (jsonToMg sj p.2)

def Apart (entries : List Entry) : Prop :=
  (entries.map fun e => (e.accountId, e.direction)).Nodup

instance : DecidablePred Apart := fun _ =>
  inferInstanceAs (Decidable (List.Nodup _))

theorem entryType_injective {d d' : Direction} (h : entryType d = entryType d') : d = d' := by
  cases d <;> cases d' <;> first | rfl | exact absurd h (by decide)

theorem Edge.carries_key {e : Edge} {entry' : Entry}
    (h : e.carries txId entry) (h' : e.carries txId entry') :
    (entry.accountId, entry.direction) = (entry'.accountId, entry'.direction) := by
  obtain ⟨-, ht, hto⟩ := h
  obtain ⟨-, ht', hto'⟩ := h'
  rw [ht] at ht'
  rw [hto] at hto'
  rw [entryType_injective ht']
  congr 1
  cases ha : entry.accountId
  cases ha' : entry'.accountId
  rw [ha, ha'] at hto'
  exact congrArg _ hto'

/-- Entries on different accounts or sides, with no edge of the
transaction there yet, each fill the edge created for them. -/
theorem persistEntries_apart (sj : SerdeJson)
    (ord : RowOrder (Fact LedgerProp)) (txId : TransactionId) :
    ∀ (entries : List Entry) {g : GraphHandle LedgerProp} {G : LedgerGraph},
      Models g G → Apart entries →
      (∀ e ∈ G.edges, ∀ entry ∈ entries, ¬ e.carries txId entry) →
      ∃ g' G' es, persistEntries sj ord txId entries g = (.ok (), g')
        ∧ g <+: g' ∧ Models g' G' ∧ EntriesEffect txId entries g G G' es
        ∧ List.Forall₂ (Filled sj G' txId) es entries := by
  intro entries
  induction entries with
  | nil =>
    intro g G h _ _
    exact ⟨g, G, [], rfl, List.prefix_refl g, h, .nil txId g G, .nil⟩
  | cons entry entries ih =>
    intro g G h hapart hnone
    rw [Apart, List.map_cons, List.nodup_cons] at hapart
    obtain ⟨hkey, hrest⟩ := hapart
    obtain ⟨g₁, found, heq₁, hpre₁, hfound, hcarries, -, h₁⟩ :=
      persistEntry_spec sj ord h txId entry
    -- the search can only find the new edge
    have hself : found = newEdge g txId entry := by
      rcases List.mem_append.1 hfound with hold | hnew
      · exact absurd hcarries (hnone found hold entry List.mem_cons_self)
      · exact List.mem_singleton.1 hnew
    subst hself
    have hother : ∀ en ∈ entries, ¬ (newEdge g txId entry).carries txId en := by
      intro en hen hc
      rw [Edge.carries_key (newEdge_carries g txId entry) hc] at hkey
      exact hkey (List.mem_map_of_mem hen)
    obtain ⟨g', G', es, heq, hpre, h', heff, hfilled⟩ := ih h₁ hrest (by
      intro e he en hen
      rw [PropertyGraph.edges_setProps] at he
      rcases List.mem_append.1 he with he | he
      · exact hnone e he en (List.mem_cons_of_mem _ hen)
      · rw [List.mem_singleton.1 he]
        exact hother en hen)
    have heff' := EntriesEffect.cons hpre₁ hfound hcarries h' heff
    refine ⟨g', G', newEdge g txId entry :: es, ?_, hpre₁.trans hpre, h',
      heff', .cons ⟨newEdge_carries g txId entry, ?_⟩ hfilled⟩
    · unfold persistEntries
      rw [heq₁]
      exact heq
    · intro p hp
      rw [heff.edgeProps (newEdge g txId entry) (by
        rw [heff'.edges]
        exact List.mem_append_right _ List.mem_cons_self) hother p.1]
      exact PropertyGraph.prop_setProps_of_mem _ (nodup_entryProps entry) hp

/-- The rows of edges numbered from `n` on come in order of assertion. -/
def KeepsNew (n : Nat) (ord : RowOrder (Fact LedgerProp)) : Prop :=
  ∀ l, (∀ f ∈ l, ∃ e w, f = .edgeTo e w ∧ n ≤ e) → ord.order l = l

/-- An edge numbered from `n` on that leads where an older one leads is
empty: the search never reaches it. -/
def Shadowed (n : Nat) (G : LedgerGraph) : Prop :=
  ∀ pre e post, G.edges = pre ++ e :: post →
    (∃ e' ∈ pre, e'.fromId = e.fromId ∧ e'.t = e.t ∧ e'.toId = e.toId) →
    n ≤ e.id → G.prop (.edge e.id) .amountMinor = none

/-- A search stops before an edge that has an equal before it. -/
theorem find?_ne_of_shadowed {p : Edge → Bool} {pre post : List Edge}
    {e e' : Edge} (hnd : (pre ++ e :: post).Nodup) (he' : e' ∈ pre)
    (hp : p e' = true) : (pre ++ e :: post).find? p ≠ some e := by
  intro hfind
  rw [List.find?_append] at hfind
  cases hpre : pre.find? p with
  | none => exact List.find?_eq_none.1 hpre e' he' hp
  | some x =>
    rw [hpre, Option.some_or] at hfind
    have hx : x = e := Option.some.inj hfind
    rw [hx] at hpre
    exact List.disjoint_of_nodup_append hnd (List.mem_of_find?_eq_some hpre) List.mem_cons_self

theorem shadowed_persistEntry {g₁ : GraphHandle LedgerProp} {found : Edge}
    {n : Nat} (h : Models g G) (hshadow : Shadowed n G)
    (hfirst : ((G.addEdge (newEdge g txId entry)).outEdges txId.uuid
      (entryType entry.direction)).find?
      (fun e => e.toId = entry.accountId.uuid) = some found) (hcarries : found.carries txId entry)
    (h₁ : Models g₁ ((G.addEdge (newEdge g txId entry)).setProps sj
      (.edge found.id) (entryProps entry))) :
    Shadowed n ((G.addEdge (newEdge g txId entry)).setProps sj
      (.edge found.id) (entryProps entry)) := by
  intro pre e post hedges hex hn
  have hnd := h₁.represents.nodup
  have hmem : e ∈ ((G.addEdge (newEdge g txId entry)).setProps sj
      (.edge found.id) (entryProps entry)).edges := by
    rw [hedges]
    exact List.mem_append_right _ List.mem_cons_self
  have hne : e ≠ found := by
    rintro rfl
    obtain ⟨e', he', hfrom', ht', hto'⟩ := hex
    unfold PropertyGraph.outEdges at hfirst
    rw [List.find?_filter, ← PropertyGraph.edges_setProps _ sj
      (.edge e.id) (entryProps entry), hedges] at hfirst
    rw [hedges] at hnd
    refine find?_ne_of_shadowed hnd.of_map he' ?_ hfirst
    simp [hfrom', ht', hto', hcarries.1, hcarries.2.1, hcarries.2.2]
  have hfoundMem : found ∈ ((G.addEdge (newEdge g txId entry)).setProps sj
      (.edge found.id) (entryProps entry)).edges := by
    rw [PropertyGraph.edges_setProps]
    exact (List.mem_filter.1 (List.mem_of_find?_eq_some hfirst)).1
  rw [PropertyGraph.prop_setProps_of_ne _ (fun hid => hne
    (h₁.represents.edge_eq_of_id hmem hfoundMem (Entity.edge.inj hid)))]
  rw [PropertyGraph.edges_setProps, PropertyGraph.edges_addEdge] at hedges
  rcases List.eq_nil_or_concat post with rfl | ⟨post, x, rfl⟩
  · -- the new edge
    have hnew := (List.append_inj' hedges rfl).2
    rw [← List.singleton_inj.1 hnew]
    exact h.fresh g.txCount _ (le_refl _)
  · -- an edge that was there
    rw [List.concat_eq_append, ← List.cons_append, ← List.append_assoc]
      at hedges
    exact hshadow pre e post (List.append_inj' hedges rfl).1 hex hn

/-- Where new rows come in order of assertion, an edge created where
there was one already stays empty. -/
theorem persistEntries_shadowed (sj : SerdeJson)
    (txId : TransactionId) {m n : Nat} (hord : KeepsNew m ord) :
    ∀ (entries : List Entry) {g : GraphHandle LedgerProp} {G : LedgerGraph},
      Models g G → m ≤ g.txCount →
      (∀ e ∈ G.edges, e.fromId = txId.uuid → m ≤ e.id) →
      Shadowed n G →
      ∃ g' G' es, persistEntries sj ord txId entries g = (.ok (), g')
        ∧ g <+: g' ∧ Models g' G' ∧ EntriesEffect txId entries g G G' es
        ∧ Shadowed n G' := by
  intro entries
  induction entries with
  | nil =>
    intro g G h _ _ hshadow
    exact ⟨g, G, [], rfl, List.prefix_refl g, h, .nil txId g G, hshadow⟩
  | cons entry entries ih =>
    intro g G h hm hids hshadow
    obtain ⟨g₁, found, heq₁, hpre₁, hfound, hcarries, hfirst, h₁⟩ :=
      persistEntry_spec sj ord h txId entry
    have hids₁ : ∀ e ∈ (G.addEdge (newEdge g txId entry)).edges,
        e.fromId = txId.uuid → m ≤ e.id := by
      intro e he htx
      rcases List.mem_append.1 he with he | he
      · exact hids e he htx
      · rw [List.mem_singleton.1 he]
        exact hm
    have hfirst := hfirst (hord _ (by
      intro f hf
      obtain ⟨e, he, rfl⟩ := List.mem_map.1 hf
      obtain ⟨he, hout⟩ := List.mem_filter.1 he
      rw [decide_eq_true_eq] at hout
      exact ⟨e.id, e.toId, rfl, hids₁ e he hout.1⟩))
    obtain ⟨g', G', es, heq, hpre, h', heff, hshadow'⟩ := ih h₁
      (hm.trans hpre₁.length_le)
      (by rwa [PropertyGraph.edges_setProps])
      (shadowed_persistEntry h hshadow hfirst hcarries h₁)
    refine ⟨g', G', newEdge g txId entry :: es, ?_, hpre₁.trans hpre, h',
      .cons hpre₁ hfound hcarries h' heff, hshadow'⟩
    unfold persistEntries
    rw [heq₁]
    exact heq

end

end OpenStandards.OpGraph

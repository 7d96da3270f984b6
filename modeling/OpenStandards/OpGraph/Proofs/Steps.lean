/-
What one call of the graph store can do to the property graph.

A post that persists adds a vertex, a ledger edge, an edge for each
entry, and writes the transaction's properties (`PostEffect`); how the
entry edges are filled is the subject of `Writes`. Every other call
writes one vertex or nothing (`step_effect`). `sound_run` is the one
invariant of all runs: edges and properties belong to vertices that exist.
-/
import OpenStandards.OpGraph.Proofs.Reads

namespace OpenStandards.OpGraph

open Lib OpCore OpLedger GraphLedgerStore

section

variable {sj : SerdeJson} {ord : RowOrder (Fact LedgerProp)}
  {g : GraphHandle LedgerProp} {G G' : LedgerGraph} {t : Transaction}

-- ==== a post that persists

def ledgerEdge (g : GraphHandle LedgerProp) (t : Transaction) : Edge :=
  { id := (GraphHandle.createVertex g ledgerTx t.id.uuid).txCount
    fromId := t.id.uuid, t := ledgerInLedger, toId := t.ledgerId.uuid }

def vertexGraph (sj : SerdeJson) (g : GraphHandle LedgerProp)
    (G : LedgerGraph) (t : Transaction) : LedgerGraph :=
  ((G.addVertex t.id.uuid ledgerTx).addEdge (ledgerEdge g t)).setProps sj
    (.vertex t.id.uuid) (txProps t)

theorem Models.persistVertex (h : Models g G) (t : Transaction) :
    Models (GraphLedgerStore.persistVertex sj ord g t) (vertexGraph sj g G t) :=
  ((h.createVertex t.id.uuid ledgerTx).createEdge t.id.uuid ledgerInLedger
    t.ledgerId.uuid).writeProps t.id.uuid (txProps t)

theorem persistVertex_grows (g : GraphHandle LedgerProp)
    (t : Transaction) : g <+: GraphLedgerStore.persistVertex sj ord g t :=
  ((transact_grows g _).trans (transact_grows _ _)).trans (writeProps_grows ..)

theorem nodup_txProps (t : Transaction) : ((txProps t).map Prod.fst).Nodup := by
  simp [txProps]

/-- The properties a post writes to the transaction's vertex. -/
def txNames : List LedgerProp :=
  [.status, .externalId, .description, .effectiveAtUnixSecs, .metadata, .postedAtTxCount]

/-- What a post that persists changes: `le` is the new ledger edge, `es`
the new entry edges. -/
structure PostEffect (sj : SerdeJson) (t : Transaction) (n : Nat)
    (G G' : LedgerGraph) (le : Edge) (es : List Edge) : Prop where
  types : G'.types = (G.addVertex t.id.uuid ledgerTx).types
  edges : G'.edges = G.edges ++ le :: es
  ledger : le.fromId = t.id.uuid ∧ le.t = ledgerInLedger ∧ le.toId = t.ledgerId.uuid
  carried : List.Forall₂ (fun e entry => e.carries t.id entry) es t.entries
  minted : ∀ e ∈ le :: es, n ≤ e.id
  vertexProps : ∀ u a, u ≠ t.id.uuid ∨ a ∉ txNames →
    G'.prop (.vertex u) a = G.prop (.vertex u) a
  txProps : ∀ p ∈ txProps t, G'.prop (.vertex t.id.uuid) p.1 = some (jsonToMg sj p.2)
  edgeProps : ∀ e ∈ G'.edges, (∀ entry ∈ t.entries, ¬ e.carries t.id entry) →
    ∀ a, G'.prop (.edge e.id) a = G.prop (.edge e.id) a

def cacheAfter (s : GraphLedgerStore) (t : Transaction) : Table String TransactionId :=
  match t.externalId with
  | some ext => s.byExternalId.insert ext t.id
  | none => s.byExternalId

variable {s : GraphLedgerStore}

theorem persist_of_entries {g₁ : GraphHandle LedgerProp} {G₁ : LedgerGraph}
    {es : List Edge} (hent : persistEntries sj ord t.id t.entries
      (persistVertex sj ord s.handle t) = (.ok (), g₁))
    (hpre : persistVertex sj ord s.handle t <+: g₁) (h₁ : Models g₁ G₁)
    (heff : EntriesEffect t.id t.entries (persistVertex sj ord s.handle t)
      (vertexGraph sj s.handle G t) G₁ es) :
    ∃ g' v, persist sj ord s t = (.ok t.id, { handle := g', byExternalId := cacheAfter s t })
      ∧ s.handle <+: g'
      ∧ Models g' (G₁.setProp (.vertex t.id.uuid) .postedAtTxCount v)
      ∧ PostEffect sj t s.handle.txCount G
        (G₁.setProp (.vertex t.id.uuid) .postedAtTxCount v)
        (ledgerEdge s.handle t) es := by
  refine ⟨GraphHandle.setVertexProperty sj ord g₁ t.id.uuid
    .postedAtTxCount (.number (.ofU64 g₁.txCount)),
    jsonToMg sj (.number (.ofU64 g₁.txCount)), ?_, ?_, ?_, ?_⟩
  · unfold persist
    rw [hent]
    rfl
  · exact ((persistVertex_grows s.handle t).trans hpre).trans (setEntityProperty_grows ..)
  · exact h₁.setEntityProperty sj ord (fun n hn => by cases hn) _ _
  · refine ⟨?_, ?_, ⟨rfl, rfl, rfl⟩, heff.carried, ?_, ?_, ?_, ?_⟩
    · rw [PropertyGraph.types_setProp, heff.types]
      exact PropertyGraph.types_setProps ..
    · rw [PropertyGraph.edges_setProp, heff.edges, vertexGraph,
        PropertyGraph.edges_setProps, PropertyGraph.edges_addEdge,
        List.append_assoc]
      rfl
    · intro e he
      rcases List.mem_cons.1 he with rfl | he
      · exact (transact_grows s.handle _).length_le
      · exact (persistVertex_grows s.handle t).length_le.trans (heff.minted e he)
    · intro u a hua
      rw [PropertyGraph.prop_setProp, if_neg ?_, heff.vertexProps]
      · rcases hua with hu | ha
        · exact PropertyGraph.prop_setProps_of_ne _ (fun heq => hu (Entity.vertex.inj heq)) _ a
        · refine PropertyGraph.prop_setProps_of_not_mem _ ?_ _
          intro hmem
          refine ha ?_
          simp only [OpGraph.txProps, List.map_cons, List.map_nil] at hmem
          exact List.mem_append_left [.postedAtTxCount] hmem
      · rintro ⟨heq, rfl⟩
        rcases hua with hu | ha
        · exact hu (Entity.vertex.inj heq)
        · exact ha (by decide)
    · intro p hp
      rw [PropertyGraph.prop_setProp_of_attr_ne _ ?_, heff.vertexProps]
      · exact PropertyGraph.prop_setProps_of_mem _ (nodup_txProps t) hp
      · intro hname
        have hmem := List.mem_map_of_mem (f := Prod.fst) hp
        rw [hname] at hmem
        simp [OpGraph.txProps] at hmem
    · intro e he hnot a
      rw [PropertyGraph.prop_setProp_of_ne _ (by intro h; cases h)]
      rw [PropertyGraph.edges_setProp] at he
      refine (heff.edgeProps e he hnot a).trans ?_
      exact PropertyGraph.prop_setProps_of_ne _ (by intro h; cases h) _ a

theorem persist_effect (sj : SerdeJson) (ord : RowOrder (Fact LedgerProp))
    (h : Models s.handle G) (t : Transaction) :
    ∃ g' G' le es, persist sj ord s t
        = (.ok t.id, { handle := g', byExternalId := cacheAfter s t })
      ∧ s.handle <+: g' ∧ Models g' G'
      ∧ PostEffect sj t s.handle.txCount G G' le es := by
  obtain ⟨g₁, G₁, es, hent, hpre, h₁, heff⟩ := persistEntries_effect
    sj ord t.id t.entries (h.persistVertex t)
  obtain ⟨g', v, hpersist, hpre', h', heff'⟩ := persist_of_entries hent hpre h₁ heff
  exact ⟨g', _, _, es, hpersist, hpre', h', heff'⟩

theorem entryType_ne_ledgerInLedger (d : Direction) : entryType d ≠ ledgerInLedger := by
  cases d <;> decide

theorem ledgerEdge_carries (g : GraphHandle LedgerProp) (t : Transaction)
    (txId : TransactionId) (entry : Entry) :
    ¬ (ledgerEdge g t).carries txId entry :=
  fun hc => entryType_ne_ledgerInLedger entry.direction hc.2.1.symm

theorem persist_apart (sj : SerdeJson) (ord : RowOrder (Fact LedgerProp))
    (h : Models s.handle G) (hapart : Apart t.entries)
    (hnone : ∀ e ∈ G.edges, ∀ entry ∈ t.entries, ¬ e.carries t.id entry) :
    ∃ g' G' le es, persist sj ord s t
        = (.ok t.id, { handle := g', byExternalId := cacheAfter s t })
      ∧ s.handle <+: g' ∧ Models g' G'
      ∧ PostEffect sj t s.handle.txCount G G' le es
      ∧ List.Forall₂ (Filled sj G' t.id) es t.entries := by
  obtain ⟨g₁, G₁, es, hent, hpre, h₁, heff, hfilled⟩ := persistEntries_apart
    sj ord t.id t.entries (h.persistVertex t) hapart (by
      intro e he entry hentry
      rw [vertexGraph, PropertyGraph.edges_setProps, PropertyGraph.edges_addEdge] at he
      rcases List.mem_append.1 he with he | he
      · exact hnone e he entry hentry
      · rw [List.mem_singleton.1 he]
        exact ledgerEdge_carries s.handle t t.id entry)
  obtain ⟨g', v, hpersist, hpre', h', heff'⟩ := persist_of_entries hent hpre h₁ heff
  refine ⟨g', _, _, es, hpersist, hpre', h', heff', hfilled.imp ?_⟩
  intro e entry hf
  refine ⟨hf.carries, ?_⟩
  intro p hp
  rw [PropertyGraph.prop_setProp_of_ne _ (by intro h; cases h)]
  exact hf.props p hp

/-- Where new rows come in order of assertion, a new edge that leads
where an older one leads stays empty. -/
theorem persist_shadowed (sj : SerdeJson) (h : Models s.handle G) {m : Nat}
    (hord : KeepsNew m ord) (hm : m ≤ s.handle.txCount)
    (hids : ∀ e ∈ G.edges, e.fromId = t.id.uuid → m ≤ e.id) :
    ∃ g' G' le es, persist sj ord s t
        = (.ok t.id, { handle := g', byExternalId := cacheAfter s t })
      ∧ s.handle <+: g' ∧ Models g' G'
      ∧ PostEffect sj t s.handle.txCount G G' le es
      ∧ Shadowed s.handle.txCount G' := by
  have hcount : s.handle.txCount ≤ (persistVertex sj ord s.handle t).txCount :=
    (persistVertex_grows s.handle t).length_le
  obtain ⟨g₁, G₁, es, hent, hpre, h₁, heff, hshadow⟩ :=
    persistEntries_shadowed sj t.id hord t.entries
      (n := s.handle.txCount) (h.persistVertex t) (hm.trans hcount) (by
        intro e he htx
        rw [vertexGraph, PropertyGraph.edges_setProps, PropertyGraph.edges_addEdge] at he
        rcases List.mem_append.1 he with he | he
        · exact hids e he htx
        · rw [List.mem_singleton.1 he]
          exact hm.trans (transact_grows s.handle _).length_le) (by
        intro pre e post _ _ hn
        exact (PropertyGraph.prop_setProps_of_ne _ (by intro h; cases h)
          _ _).trans (h.fresh e.id _ hn))
  obtain ⟨g', v, hpersist, hpre', h', heff'⟩ := persist_of_entries hent hpre h₁ heff
  refine ⟨g', _, _, es, hpersist, hpre', h', heff', ?_⟩
  intro pre e post hedges hex hn
  rw [PropertyGraph.prop_setProp_of_ne _ (by intro h; cases h)]
  exact hshadow pre e post hedges hex hn

-- ==== a post

/-- The post passes its checks and is no replay. -/
structure Persists (sj : SerdeJson) (ord : RowOrder (Fact LedgerProp))
    (s : GraphLedgerStore) (t : Transaction) : Prop where
  ledger : GraphHandle.vertexExists ord s.handle t.ledgerId.uuid = true
  uncached : s.cached t.externalId = none
  valid : ∀ entry ∈ t.entries, validateEntry sj ord s.handle t.ledgerId entry = .ok ()

/-- The post answers a transaction it has cached. -/
structure Replays (sj : SerdeJson) (ord : RowOrder (Fact LedgerProp))
    (s : GraphLedgerStore) (t : Transaction) (id : TransactionId) :
    Prop where
  ledger : GraphHandle.vertexExists ord s.handle t.ledgerId.uuid = true
  cached : s.cached t.externalId = some id
  body : ∃ x, readTx sj ord s.handle id = .ok x ∧ sameBody x t = true

theorem postTransaction_of_persists (h : Persists sj ord s t) :
    postTransaction sj ord s t = persist sj ord s t := by
  unfold postTransaction
  rw [if_neg (by simp [h.ledger]), h.uncached, forM_ok_iff.2 h.valid]

theorem postTransaction_of_replays {id : TransactionId} (h : Replays sj ord s t id) :
    postTransaction sj ord s t = (.ok id, s) := by
  obtain ⟨x, hread, hbody⟩ := h.body
  unfold postTransaction
  rw [if_neg (by simp [h.ledger]), h.cached]
  simp only [hread, if_pos hbody]

/-- A post persists, or leaves the store as it was; then it succeeded
only as a replay. -/
theorem postTransaction_cases (sj : SerdeJson)
    (ord : RowOrder (Fact LedgerProp)) (s : GraphLedgerStore) (t : Transaction) :
    Persists sj ord s t
      ∨ (postTransaction sj ord s t).2 = s
        ∧ ∀ id, (postTransaction sj ord s t).1 = .ok id → Replays sj ord s t id := by
  unfold postTransaction
  by_cases hledger : (!GraphHandle.vertexExists ord s.handle t.ledgerId.uuid) = true
  · rw [if_pos hledger]
    exact Or.inr ⟨rfl, nofun⟩
  · rw [if_neg hledger]
    replace hledger : GraphHandle.vertexExists ord s.handle t.ledgerId.uuid
        = true := by simpa using hledger
    cases hcached : s.cached t.externalId with
    | some id =>
      right
      cases hread : readTx sj ord s.handle id with
      | error e =>
        simp only [hread]
        exact ⟨trivial, nofun⟩
      | ok x =>
        simp only [hread]
        by_cases hbody : sameBody x t = true
        · rw [if_pos hbody]
          refine ⟨rfl, ?_⟩
          rintro id' ⟨⟩
          exact ⟨hledger, hcached, x, hread, hbody⟩
        · rw [if_neg hbody]
          exact ⟨rfl, nofun⟩
    | none =>
      cases hvalid : t.entries.forM (validateEntry sj ord s.handle t.ledgerId) with
      | error e =>
        right
        exact ⟨rfl, nofun⟩
      | ok u => exact Or.inl ⟨hledger, hcached, forM_ok_iff.1 hvalid⟩

theorem validateEntry_ok {lid : LedgerId} {entry : Entry} :
    validateEntry sj ord g lid entry = .ok () ↔
      ∃ acc, readAccount sj ord g entry.accountId = .ok acc
        ∧ acc.ledgerId = lid ∧ acc.currency = entry.amount.currency := by
  unfold validateEntry
  rw [bind_eq_ok]
  have hlookup : ∀ acc, lookupAccount sj ord g entry.accountId = .ok acc
      ↔ readAccount sj ord g entry.accountId = .ok acc := by
    intro acc
    unfold lookupAccount
    cases readAccount sj ord g entry.accountId with
    | ok a => simp
    | error e => cases e <;> simp
  simp only [hlookup]
  constructor
  · rintro ⟨acc, hread, hchecks⟩
    by_cases hlid : acc.ledgerId = lid
    · by_cases hcur : acc.currency = entry.amount.currency
      · exact ⟨acc, hread, hlid, hcur⟩
      · rw [if_neg (fun hne => hne hlid), if_pos hcur] at hchecks
        cases hchecks
    · rw [if_pos hlid] at hchecks
      cases hchecks
  · rintro ⟨acc, hread, hlid, hcur⟩
    refine ⟨acc, hread, ?_⟩
    rw [if_neg (fun hne => hne hlid), if_neg (fun hne => hne hcur)]

-- ==== the calls

/-- The properties of a ledger's vertex. -/
def ledgerProps (l : Ledger) : List (LedgerProp × Json) :=
  [(.name, .string l.name), (.description, jsonOfOption l.description)]

/-- The properties of an account's vertex. -/
def accountProps (a : Account) : List (LedgerProp × Json) :=
  [(.name, .string a.name),
    (.accountClass, .string (accountClassStr a.accountClass)),
    (.normalBalance, .string (normalBalanceStr a.normalBalance)),
    (.currencyCode, .string a.currency.code),
    (.currencyExponent, .number (.ofU64 a.currency.exponent)),
    (.externalId, jsonOfOption a.externalId)]

def accountEdge (g : GraphHandle LedgerProp) (a : Account) : Edge :=
  { id := (GraphHandle.createVertex g ledgerAccount a.id.uuid).txCount
    fromId := a.id.uuid, t := ledgerInLedger, toId := a.ledgerId.uuid }

/-- What a call did to the graph. -/
inductive StepEffect (sj : SerdeJson) (ord : RowOrder (Fact LedgerProp))
    (s : GraphLedgerStore) (G : LedgerGraph) : Call → LedgerGraph → Prop
  /-- Nothing. -/
  | idle (c : Call) : StepEffect sj ord s G c G
  | ledger (l : Ledger) : StepEffect sj ord s G (.createLedger l)
      ((G.addVertex l.id.uuid ledgerLedger).setProps sj (.vertex l.id.uuid) (ledgerProps l))
  | account (a : Account)
      (hledger : GraphHandle.vertexExists ord s.handle a.ledgerId.uuid = true) :
      StepEffect sj ord s G (.createAccount a)
        (((G.addVertex a.id.uuid ledgerAccount).addEdge
          (accountEdge s.handle a)).setProps sj (.vertex a.id.uuid)
          (accountProps a))
  | post (t : Transaction) (G' : LedgerGraph) (le : Edge) (es : List Edge)
      (hp : Persists sj ord s t)
      (heff : PostEffect sj t s.handle.txCount G G' le es) :
      StepEffect sj ord s G (.postTransaction t) G'
  /-- The status of a transaction that was read. -/
  | status (c : Call) (id : TransactionId) (x x' : Transaction)
      (hread : readTx sj ord s.handle id = .ok x) :
      StepEffect sj ord s G c (G.setProp (.vertex id.uuid) .status
        (jsonToMg sj (.string (statusStr x'.status))))

theorem lookupTx_ok {id : TransactionId} {x : Transaction} :
    lookupTx sj ord g id = .ok x ↔ readTx sj ord g id = .ok x := by
  unfold lookupTx
  cases readTx sj ord g id with
  | ok a => simp
  | error e => cases e <;> simp

/-- A lifecycle call changes nothing or writes a status. -/
theorem transition_effect (h : Models s.handle G)
    (method : Transaction → Except Error Transaction) (id : TransactionId) (c : Call) :
    ∃ G', Models (transition sj ord s method id).2.handle G'
      ∧ s.handle <+: (transition sj ord s method id).2.handle
      ∧ StepEffect sj ord s G c G' := by
  unfold transition
  cases hread : lookupTx sj ord s.handle id with
  | error e => exact ⟨G, h, List.prefix_refl _, .idle c⟩
  | ok x =>
    cases hmethod : method x with
    | error e =>
      simp only [hmethod]
      exact ⟨G, h, List.prefix_refl _, .idle c⟩
    | ok x' =>
      simp only [hmethod]
      exact ⟨_, h.setEntityProperty sj ord (fun n hn => by cases hn) _ _,
        setEntityProperty_grows .., .status c id x x' (lookupTx_ok.1 hread)⟩

/-- **What a call can do**: the log grows, and the graph changes by one
of the effects. -/
theorem step_effect (h : Models s.handle G) (c : RowOrder (Fact LedgerProp) × Call) :
    ∃ G', Models (step sj s c).handle G'
      ∧ s.handle <+: (step sj s c).handle
      ∧ StepEffect sj c.1 s G c.2 G' := by
  obtain ⟨ord, c⟩ := c
  cases c with
  | createLedger l =>
    exact ⟨_, (h.createVertex l.id.uuid ledgerLedger).writeProps _
      (ledgerProps l), (transact_grows s.handle _).trans
      (writeProps_grows ..), .ledger l⟩
  | createAccount a =>
    unfold step createAccount
    by_cases hledger : (!GraphHandle.vertexExists ord s.handle a.ledgerId.uuid) = true
    · simp only [if_pos hledger]
      exact ⟨G, h, List.prefix_refl _, .idle _⟩
    · simp only [if_neg hledger]
      exact ⟨_, ((h.createVertex a.id.uuid ledgerAccount).createEdge
        a.id.uuid ledgerInLedger a.ledgerId.uuid).writeProps _
        (accountProps a), ((transact_grows s.handle _).trans
        (transact_grows _ _)).trans (writeProps_grows ..),
        .account a (by simpa using hledger)⟩
  | postTransaction t =>
    rcases postTransaction_cases sj ord s t with
      hp | ⟨hsame, -⟩
    · obtain ⟨g', G', le, es, hpersist, hpre, h', heff⟩ :=
        persist_effect sj ord h t
      unfold step
      simp only [postTransaction_of_persists hp, hpersist]
      exact ⟨G', h', hpre, .post t G' le es hp heff⟩
    · unfold step
      simp only [hsame]
      exact ⟨G, h, List.prefix_refl _, .idle _⟩
  | markPosted id => exact transition_effect h _ id _
  | markArchived id => exact transition_effect h _ id _
  | findByExternalId ext =>
    refine ⟨G, ?_⟩
    have hsame : (findByExternalId sj ord s ext).2.handle = s.handle := by
      unfold findByExternalId
      cases s.byExternalId.lookup ext with
      | some tid =>
        simp only
        cases readTx sj ord s.handle tid <;> rfl
      | none =>
        cases walkExternalId sj ord s.handle ext with
        | none => rfl
        | some tid =>
          simp only
          cases readTx sj ord s.handle tid <;> rfl
    unfold step
    simp only [hsame]
    exact ⟨h, List.prefix_refl _, .idle _⟩
  | reopen => exact ⟨G, h, List.prefix_refl _, .idle _⟩

-- ==== arbitrary runs

/-- Edges and properties belong to vertices that exist. -/
structure Sound (G : LedgerGraph) : Prop where
  edgeFrom : ∀ e ∈ G.edges, G.typesOf e.fromId ≠ []
  edgeTo : ∀ e ∈ G.edges, G.typesOf e.toId ≠ []
  props : ∀ u a, G.prop (.vertex u) a ≠ none → G.typesOf u ≠ []

/-- No edge leaves a vertex that does not exist. -/
theorem Sound.fromId_ne (hs : Sound G) {u : Uuid} (hu : G.typesOf u = []) :
    ∀ e ∈ G.edges, e.fromId ≠ u := by
  intro e he hfrom
  refine hs.edgeFrom e he ?_
  rw [hfrom]
  exact hu

theorem sound_empty : Sound .empty :=
  ⟨nofun, nofun, fun _ _ h => absurd rfl h⟩

theorem typesOf_addVertex_mono {u : Uuid} (hu : G.typesOf u ≠ [])
    (id : Uuid) (t : String) : (G.addVertex id t).typesOf u ≠ [] := by
  by_cases hid : u = id
  · rw [hid]
    exact G.typesOf_addVertex_ne_nil id t
  · rw [G.typesOf_addVertex_of_ne hid]
    exact hu

theorem typesOf_congr (h : G'.types = G.types) (u : Uuid) : G'.typesOf u = G.typesOf u := by
  unfold PropertyGraph.typesOf
  rw [h]

theorem Sound.grow (hs : Sound G) (htypes : ∀ u, G.typesOf u ≠ [] → G'.typesOf u ≠ [])
    (hedges : ∀ e ∈ G'.edges, e ∈ G.edges ∨ G'.typesOf e.fromId ≠ [] ∧ G'.typesOf e.toId ≠ [])
    (hprops : ∀ u a, G'.prop (.vertex u) a = G.prop (.vertex u) a
      ∨ G'.typesOf u ≠ []) : Sound G' := by
  refine ⟨?_, ?_, ?_⟩
  · intro e he
    rcases hedges e he with hold | hnew
    · exact htypes _ (hs.edgeFrom e hold)
    · exact hnew.1
  · intro e he
    rcases hedges e he with hold | hnew
    · exact htypes _ (hs.edgeTo e hold)
    · exact hnew.2
  · intro u a hp
    rcases hprops u a with hsame | htyped
    · rw [hsame] at hp
      exact htypes u (hs.props u a hp)
    · exact htyped

theorem typesOf_of_validateEntry (h : Represents g.facts G) {lid : LedgerId}
    {entry : Entry} (hv : validateEntry sj ord g lid entry = .ok ()) :
    ledgerAccount ∈ G.typesOf entry.accountId.uuid := by
  obtain ⟨acc, hread, -⟩ := validateEntry_ok.1 hv
  obtain ⟨-, ⟨v, hv⟩, -⟩ := (readAccount_ok h).1 hread
  exact getTypedVertex_ok h hv

theorem sound_step (h : Models s.handle G) (hs : Sound G) {c : Call}
    (heff : StepEffect sj ord s G c G') : Sound G' := by
  cases heff with
  | idle => exact hs
  | ledger l =>
    refine hs.grow ?_ ?_ ?_
    · intro u hu
      rw [typesOf_congr (PropertyGraph.types_setProps ..)]
      exact typesOf_addVertex_mono hu _ _
    · intro e he
      rw [PropertyGraph.edges_setProps] at he
      exact Or.inl he
    · intro u a
      by_cases hu : u = l.id.uuid
      · right
        rw [hu, typesOf_congr (PropertyGraph.types_setProps ..)]
        exact G.typesOf_addVertex_ne_nil _ _
      · left
        exact PropertyGraph.prop_setProps_of_ne _ (fun heq => hu (Entity.vertex.inj heq)) _ a
  | account a hledger =>
    have hmono : ∀ u, G.typesOf u ≠ [] →
        PropertyGraph.typesOf (((G.addVertex a.id.uuid ledgerAccount
          ).addEdge (accountEdge s.handle a)).setProps sj
          (.vertex a.id.uuid) (accountProps a)) u ≠ [] := by
      intro u hu
      rw [typesOf_congr (PropertyGraph.types_setProps ..)]
      exact typesOf_addVertex_mono hu _ _
    have hself : PropertyGraph.typesOf (((G.addVertex a.id.uuid
        ledgerAccount).addEdge (accountEdge s.handle a)).setProps sj
        (.vertex a.id.uuid) (accountProps a)) a.id.uuid ≠ [] := by
      rw [typesOf_congr (PropertyGraph.types_setProps ..)]
      exact G.typesOf_addVertex_ne_nil _ _
    refine hs.grow hmono ?_ ?_
    · intro e he
      rw [PropertyGraph.edges_setProps, PropertyGraph.edges_addEdge] at he
      rcases List.mem_append.1 he with he | he
      · exact Or.inl he
      · rw [List.mem_singleton.1 he]
        exact Or.inr ⟨hself, hmono _ ((vertexExists_iff h.represents _).1 hledger)⟩
    · intro u p
      by_cases hu : u = a.id.uuid
      · rw [hu]
        exact Or.inr hself
      · left
        exact PropertyGraph.prop_setProps_of_ne _ (fun heq => hu (Entity.vertex.inj heq)) _ p
  | post t _ le es hp heff =>
    have hmono : ∀ u, G.typesOf u ≠ [] → G'.typesOf u ≠ [] := by
      intro u hu
      rw [typesOf_congr heff.types]
      exact typesOf_addVertex_mono hu _ _
    have hself : G'.typesOf t.id.uuid ≠ [] := by
      rw [typesOf_congr heff.types]
      exact G.typesOf_addVertex_ne_nil _ _
    refine hs.grow hmono ?_ ?_
    · intro e he
      rw [heff.edges] at he
      rcases List.mem_append.1 he with he | he
      · exact Or.inl he
      · right
        rcases List.mem_cons.1 he with rfl | he
        · rw [heff.ledger.1, heff.ledger.2.2]
          exact ⟨hself, hmono _ ((vertexExists_iff h.represents _).1 hp.ledger)⟩
        · obtain ⟨entry, hentry, hc⟩ := exists_of_forall₂ heff.carried he
          rw [hc.1, hc.2.2]
          exact ⟨hself, hmono _ (List.ne_nil_of_mem
            (typesOf_of_validateEntry h.represents (hp.valid entry hentry)))⟩
    · intro u a
      by_cases hu : u = t.id.uuid
      · rw [hu]
        exact Or.inr hself
      · exact Or.inl (heff.vertexProps u a (Or.inl hu))
  | status _ id x x' hread =>
    obtain ⟨-, ⟨v, hv⟩, -⟩ := readTx_ok h.represents hread
    have htyped := List.ne_nil_of_mem (getTypedVertex_ok h.represents hv)
    refine hs.grow (fun u hu => hu) (fun e he => Or.inl he) ?_
    intro u a
    by_cases hu : u = id.uuid
    · rw [hu]
      exact Or.inr htyped
    · left
      exact PropertyGraph.prop_setProp_of_ne _ (fun heq => hu (Entity.vertex.inj heq)) ..

theorem sound_run (sj : SerdeJson) (calls : List (RowOrder (Fact LedgerProp) × Call)) :
    ∃ G, Models (run sj newInMemory calls).handle G ∧ Sound G := by
  refine run_invariant (P := fun _ _ => True)
    (I := fun s : GraphLedgerStore => ∃ G, Models s.handle G ∧ Sound G) ?_
    ⟨.empty, models_nil, sound_empty⟩ ?_
  · rintro s c ⟨G, h, hs⟩ -
    obtain ⟨G', h', -, heff⟩ := step_effect h c
    exact ⟨G', h', sound_step h hs heff⟩
  · exact along_trivial _ _

end

end OpenStandards.OpGraph

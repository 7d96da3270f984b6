/-
The graph as a picture of the in-memory store.

`Stored` relates the tables of the in-memory store to the property
graph: an account and a transaction are stored with everything that is
read of them, and an entry edge leaves a stored transaction. A call
changes one vertex and the edges that leave it (`ChangedAt`), so whatever
else was stored stays stored (`Stored.change`).
-/
import OpenStandards.OpGraph.Proofs.Faithful
import OpenStandards.OpLedger.Proofs.AppendOnly

namespace OpenStandards.OpGraph

open Lib OpCore OpLedger GraphLedgerStore

-- ==== kinds

/-- The kinds under which an id is in use. -/
def kindsOf (m : InMemoryLedgerStore) (u : Uuid) : List String :=
  (if (m.ledgers.lookup ⟨u⟩).isSome then [ledgerLedger] else [])
    ++ (if (m.accounts.lookup ⟨u⟩).isSome then [ledgerAccount] else [])
    ++ (if (m.transactions.lookup ⟨u⟩).isSome then [ledgerTx] else [])

/-- The id is in use under no other kind. -/
def NamesKind (m : InMemoryLedgerStore) (u : Uuid) (kind : String) : Prop :=
  ∀ k ∈ kindsOf m u, k = kind

instance (m : InMemoryLedgerStore) (u : Uuid) (kind : String) :
    Decidable (NamesKind m u kind) :=
  inferInstanceAs (Decidable (∀ k ∈ _, _))

section

variable {m m' : InMemoryLedgerStore} {u : Uuid}

theorem mem_kindsOf {k : String} :
    k ∈ kindsOf m u ↔
      (m.ledgers.lookup ⟨u⟩).isSome ∧ k = ledgerLedger
        ∨ (m.accounts.lookup ⟨u⟩).isSome ∧ k = ledgerAccount
        ∨ (m.transactions.lookup ⟨u⟩).isSome ∧ k = ledgerTx := by
  unfold kindsOf
  rw [List.mem_append, List.mem_append, List.mem_ite_nil_right,
    List.mem_ite_nil_right, List.mem_ite_nil_right, List.mem_singleton,
    List.mem_singleton, List.mem_singleton, or_assoc]

theorem mem_kindsOf_ledger : ledgerLedger ∈ kindsOf m u ↔ (m.ledgers.lookup ⟨u⟩).isSome := by
  rw [mem_kindsOf]
  simp [ledgerLedger, ledgerAccount, ledgerTx]

theorem mem_kindsOf_account : ledgerAccount ∈ kindsOf m u ↔ (m.accounts.lookup ⟨u⟩).isSome := by
  rw [mem_kindsOf]
  simp [ledgerLedger, ledgerAccount, ledgerTx]

theorem mem_kindsOf_transaction :
    ledgerTx ∈ kindsOf m u ↔ (m.transactions.lookup ⟨u⟩).isSome := by
  rw [mem_kindsOf]
  simp [ledgerLedger, ledgerAccount, ledgerTx]

theorem NamesKind.unused {kind : String} (h : NamesKind m u kind)
    (hnot : kind ∉ kindsOf m u) : kindsOf m u = [] := by
  refine List.eq_nil_iff_forall_not_mem.2 ?_
  intro k hk
  rw [h k hk] at hk
  exact hnot hk

/-- The kinds of an id depend on whether the tables have it. -/
theorem kindsOf_congr (hledger : (m'.ledgers.lookup ⟨u⟩).isSome = (m.ledgers.lookup ⟨u⟩).isSome)
    (haccount : (m'.accounts.lookup ⟨u⟩).isSome = (m.accounts.lookup ⟨u⟩).isSome)
    (htransaction : (m'.transactions.lookup ⟨u⟩).isSome = (m.transactions.lookup ⟨u⟩).isSome) :
    kindsOf m' u = kindsOf m u := by
  unfold kindsOf
  rw [hledger, haccount, htransaction]

theorem unused_iff :
    kindsOf m u = [] ↔ m.ledgers.lookup ⟨u⟩ = none
      ∧ m.accounts.lookup ⟨u⟩ = none ∧ m.transactions.lookup ⟨u⟩ = none := by
  unfold kindsOf
  cases m.ledgers.lookup ⟨u⟩ <;> cases m.accounts.lookup ⟨u⟩ <;>
    cases m.transactions.lookup ⟨u⟩ <;> simp

end

-- ==== stored accounts

/-- The graph stores the account: its vertex with the properties, a name
that is read back as a text, and its ledger. -/
structure StoresAccount (sj : SerdeJson) (G : LedgerGraph) (a : Account) : Prop where
  types : G.typesOf a.id.uuid = [ledgerAccount]
  props : ∀ p ∈ accountProps a, G.prop (.vertex a.id.uuid) p.1 = some (jsonToMg sj p.2)
  legible : Legible sj a.name
  ledgerEdge : G.outEdges a.id.uuid ledgerInLedger ≠ []
  ledger : ∀ e ∈ G.outEdges a.id.uuid ledgerInLedger, e.toId = a.ledgerId.uuid

section

variable {sj : SerdeJson} {g : GraphHandle LedgerProp}
  {G G' : LedgerGraph}

theorem StoresAccount.readAccount (h : Represents g.facts G) {a : Account}
    (hs : StoresAccount sj G a) (ord : RowOrder (Fact LedgerProp)) :
    ∃ name externalId, GraphLedgerStore.readAccount sj ord g a.id
      = .ok { a with name, externalId } := by
  obtain ⟨name, hname⟩ := Option.ne_none_iff_exists'.1 hs.legible
  obtain ⟨e, he⟩ := exists_head?_outEdges ord h hs.ledgerEdge
  have hlid := hs.ledger e (head?_outEdges h he)
  have htyped := getTypedVertex_of_single ord h hs.types ledgerAccount
  rw [if_neg (fun hne => hne rfl)] at htyped
  refine ⟨name, G.str sj (.vertex a.id.uuid) .externalId,
    (readAccount_ok h).2 ⟨rfl, ⟨_, htyped⟩, accountAt_of_props hs.props hname, e, he, ?_⟩⟩
  rw [hlid]

-- ==== one vertex changes

/-- Nothing but the vertex `u` and the edges that leave it has
changed. -/
structure ChangedAt (u : Uuid) (G G' : LedgerGraph) : Prop where
  types : ∀ v, v ≠ u → G'.typesOf v = G.typesOf v
  props : ∀ v, v ≠ u → ∀ a, G'.prop (.vertex v) a = G.prop (.vertex v) a
  edges : ∀ v, v ≠ u → ∀ et, G'.outEdges v et = G.outEdges v et
  edgeProps : ∀ e ∈ G.edges, e.fromId ≠ u → ∀ a, G'.prop (.edge e.id) a = G.prop (.edge e.id) a

variable {u : Uuid}

theorem changedAt_addVertex (G : LedgerGraph) (u : Uuid) (kind : String) :
    ChangedAt u G (G.addVertex u kind) :=
  ⟨fun _ hv => G.typesOf_addVertex_of_ne hv kind, fun _ _ _ => rfl,
    fun _ _ _ => rfl, fun _ _ _ _ => rfl⟩

theorem changedAt_addEdge (G : LedgerGraph) (e : Edge) :
    ChangedAt e.fromId G (G.addEdge e) := by
  refine ⟨fun _ _ => rfl, fun _ _ _ => rfl, ?_, fun _ _ _ _ => rfl⟩
  intro v hv et
  unfold PropertyGraph.outEdges
  rw [PropertyGraph.edges_addEdge, List.filter_append,
    List.append_right_eq_self, List.filter_eq_nil_iff]
  intro e' he' hout
  rw [List.mem_singleton] at he'
  rw [decide_eq_true_eq, he'] at hout
  exact hv hout.1.symm

theorem changedAt_setProp (G : LedgerGraph) (u : Uuid) (a : LedgerProp)
    (v : MgValue) : ChangedAt u G (G.setProp (.vertex u) a v) := by
  refine ⟨fun _ _ => rfl, ?_, fun _ _ _ => rfl, ?_⟩
  · intro w hw p
    exact G.prop_setProp_of_ne (fun heq => hw (Entity.vertex.inj heq)) a p v
  · intro e _ _ p
    exact G.prop_setProp_of_ne (by intro heq; cases heq) a p v

theorem changedAt_setProps (G : LedgerGraph) (u : Uuid) (ps : List (LedgerProp × Json)) :
    ChangedAt u G (G.setProps sj (.vertex u) ps) := by
  refine ⟨?_, ?_, ?_, ?_⟩
  · intro v _
    exact typesOf_congr (PropertyGraph.types_setProps ..) v
  · intro v hv a
    exact PropertyGraph.prop_setProps_of_ne _ (fun heq => hv (Entity.vertex.inj heq)) ps a
  · intro v _ et
    unfold PropertyGraph.outEdges
    rw [PropertyGraph.edges_setProps]
  · intro e _ _ a
    exact PropertyGraph.prop_setProps_of_ne _ (by intro heq; cases heq) ps a

theorem ChangedAt.trans {G'' : LedgerGraph} (h : ChangedAt u G G')
    (h' : ChangedAt u G' G'') : ChangedAt u G G'' := by
  refine ⟨?_, ?_, ?_, ?_⟩
  · intro v hv
    exact (h'.types v hv).trans (h.types v hv)
  · intro v hv a
    exact (h'.props v hv a).trans (h.props v hv a)
  · intro v hv et
    exact (h'.edges v hv et).trans (h.edges v hv et)
  · intro e he hfrom a
    -- an edge that leaves another vertex is still there
    have hout : e ∈ G'.outEdges e.fromId e.t := by
      rw [h.edges _ hfrom]
      exact List.mem_filter.2 ⟨he, decide_eq_true ⟨rfl, rfl⟩⟩
    exact (h'.edgeProps e (List.mem_filter.1 hout).1 hfrom a).trans (h.edgeProps e he hfrom a)

variable {t : Transaction}

theorem changedAt_post {n : Nat} {le : Edge} {es : List Edge}
    (heff : PostEffect sj t n G G' le es) : ChangedAt t.id.uuid G G' := by
  refine ⟨?_, fun v hv a => heff.vertexProps v a (Or.inl hv),
    fun v hv et => outEdges_post_of_ne heff hv et, ?_⟩
  · intro v hv
    rw [typesOf_congr heff.types]
    exact G.typesOf_addVertex_of_ne hv ledgerTx
  · intro e he hfrom a
    refine heff.edgeProps e ?_ (fun _ _ hc => hfrom hc.1) a
    rw [heff.edges]
    exact List.mem_append_left _ he

theorem StoresAccount.change (hc : ChangedAt u G G') {a : Account}
    (hs : StoresAccount sj G a) (hne : a.id.uuid ≠ u) :
    StoresAccount sj G' a := by
  refine ⟨?_, ?_, hs.legible, ?_, ?_⟩
  · rw [hc.types _ hne]
    exact hs.types
  · intro p hp
    rw [hc.props _ hne]
    exact hs.props p hp
  · rw [hc.edges _ hne]
    exact hs.ledgerEdge
  · rw [hc.edges _ hne]
    exact hs.ledger

theorem StoresTx.change (hc : ChangedAt u G G') (hs : StoresTx sj G t)
    (hne : t.id.uuid ≠ u) : StoresTx sj G' t := by
  refine ⟨?_, ?_, hs.fits, ?_, ?_, ?_, hs.nonempty⟩
  · rw [hc.types _ hne]
    exact hs.types
  · intro p hp
    rw [hc.props _ hne]
    exact hs.props p hp
  · rw [hc.edges _ hne]
    exact hs.ledgerEdge
  · rw [hc.edges _ hne]
    exact hs.ledger
  · intro d
    rw [hc.edges _ hne]
    have hmem : ∀ e ∈ G.outEdges t.id.uuid (entryType d), e ∈ G.edges :=
      fun e he => (List.mem_filter.1 he).1
    refine ((List.forall₂_and_left _ _).2 ⟨hmem, hs.entries d⟩).imp ?_
    rintro e entry ⟨he, hf⟩
    refine ⟨hf.carries, ?_⟩
    intro p hp
    rw [hc.edgeProps e he (by rw [hf.carries.1]; exact hne)]
    exact hf.props p hp

/-- The graph stores the transaction, and its external id is read back as
it was written. -/
structure GivesBack (sj : SerdeJson) (G : LedgerGraph) (t : Transaction) : Prop where
  stores : StoresTx sj G t
  externalId : G.str sj (.vertex t.id.uuid) .externalId = t.externalId

theorem GivesBack.change (hc : ChangedAt u G G') (hg : GivesBack sj G t)
    (hne : t.id.uuid ≠ u) : GivesBack sj G' t := by
  refine ⟨hg.stores.change hc hne, ?_⟩
  unfold PropertyGraph.str PropertyGraph.json
  rw [hc.props _ hne]
  exact hg.externalId

theorem GivesBack.readTx (h : Represents g.facts G) (hg : GivesBack sj G t)
    (ord : RowOrder (Fact LedgerProp)) :
    ∃ x, GraphLedgerStore.readTx sj ord g t.id = .ok x ∧ SameTransaction t x := by
  obtain ⟨description, entries, metadata, hread, hperm⟩ :=
    hg.stores.readTx h ord
  exact ⟨_, hread, rfl, rfl, rfl, hg.externalId.symm, rfl, hperm.symm⟩

end

-- ==== the relation

/-- The graph is a picture of the tables. -/
structure Stored (sj : SerdeJson) (m : InMemoryLedgerStore) (G : LedgerGraph) : Prop where
  types : ∀ u, G.typesOf u = kindsOf m u
  one : ∀ u, (kindsOf m u).length ≤ 1
  account : ∀ id a, m.accounts.lookup id = some a → a.id = id ∧ StoresAccount sj G a
  transaction : ∀ id t, m.transactions.lookup id = some t → t.id = id ∧ GivesBack sj G t
  entries : ∀ id t, m.transactions.lookup id = some t →
    ∀ e ∈ t.entries, ∃ a, m.accounts.lookup e.accountId = some a
      ∧ a.currency = e.amount.currency
  edges : ∀ e ∈ G.edges, ∀ d, e.t = entryType d → (m.transactions.lookup ⟨e.fromId⟩).isSome

section

variable {sj : SerdeJson} {ord : RowOrder (Fact LedgerProp)}
  {m m' : InMemoryLedgerStore} {G G' : LedgerGraph} {u : Uuid}

theorem stored_empty : Stored sj .new .empty :=
  ⟨fun _ => rfl, fun _ => Nat.zero_le 1, nofun, nofun, nofun, nofun⟩

theorem Stored.new_types (hs : Stored sj m G) (hun : kindsOf m u = [])
    {kind : String} (htypes : G'.types = (G.addVertex u kind).types)
    (hkinds : ∀ v, kindsOf m' v = if v = u then [kind] else kindsOf m v) :
    (∀ v, G'.typesOf v = kindsOf m' v) ∧ ∀ v, (kindsOf m' v).length ≤ 1 := by
  refine ⟨?_, ?_⟩
  · intro v
    rw [typesOf_congr htypes, hkinds]
    by_cases hv : v = u
    · rw [hv, if_pos rfl]
      exact G.typesOf_addVertex_new ((hs.types u).trans hun) kind
    · rw [if_neg hv, G.typesOf_addVertex_of_ne hv]
      exact hs.types v
  · intro v
    rw [hkinds]
    by_cases hv : v = u
    · rw [if_pos hv]
      exact le_refl 1
    · rw [if_neg hv]
      exact hs.one v

variable {a : Account} {t : Transaction}

theorem Stored.account_ne (hs : Stored sj m G) (hun : kindsOf m u = [])
    {id : AccountId} (hl : m.accounts.lookup id = some a) :
    a.id.uuid ≠ u := by
  rintro rfl
  rw [← (hs.account id a hl).1] at hl
  have hnone := (unused_iff.1 hun).2.1
  rw [show (⟨a.id.uuid⟩ : AccountId) = a.id from rfl, hl] at hnone
  cases hnone

theorem Stored.transaction_ne (hs : Stored sj m G) (hun : kindsOf m u = [])
    {id : TransactionId} (hl : m.transactions.lookup id = some t) :
    t.id.uuid ≠ u := by
  rintro rfl
  rw [← (hs.transaction id t hl).1] at hl
  have hnone := (unused_iff.1 hun).2.2
  rw [show (⟨t.id.uuid⟩ : TransactionId) = t.id from rfl, hl] at hnone
  cases hnone

-- ==== the calls

def withLedger (m : InMemoryLedgerStore) (l : Ledger) : InMemoryLedgerStore :=
  { m with ledgers := m.ledgers.insert l.id l }

def withAccount (m : InMemoryLedgerStore) (a : Account) : InMemoryLedgerStore :=
  { m with accounts := m.accounts.insert a.id a }

theorem kindsOf_withLedger {l : Ledger} (hun : kindsOf m l.id.uuid = [])
    (v : Uuid) : kindsOf (withLedger m l) v
      = if v = l.id.uuid then [ledgerLedger] else kindsOf m v := by
  by_cases hv : v = l.id.uuid
  · obtain ⟨-, haccount, htransaction⟩ := unused_iff.1 hun
    rw [if_pos hv, hv]
    unfold kindsOf withLedger
    simp only [Table.lookup_insert_eq, haccount, htransaction]
    rfl
  · rw [if_neg hv]
    refine kindsOf_congr ?_ rfl rfl
    unfold withLedger
    simp only [Table.lookup_insert_eq]
    rw [if_neg]
    intro heq
    exact hv (congrArg LedgerId.uuid heq)

theorem kindsOf_withAccount (hun : kindsOf m a.id.uuid = []) (v : Uuid) :
    kindsOf (withAccount m a) v = if v = a.id.uuid then [ledgerAccount] else kindsOf m v := by
  by_cases hv : v = a.id.uuid
  · obtain ⟨hledger, -, htransaction⟩ := unused_iff.1 hun
    rw [if_pos hv, hv]
    unfold kindsOf withAccount
    simp only [Table.lookup_insert_eq, hledger, htransaction]
    rfl
  · rw [if_neg hv]
    refine kindsOf_congr rfl ?_ rfl
    unfold withAccount
    simp only [Table.lookup_insert_eq]
    rw [if_neg]
    intro heq
    exact hv (congrArg AccountId.uuid heq)

theorem kindsOf_persist (hun : kindsOf m t.id.uuid = []) (v : Uuid) :
    kindsOf (m.persist t) v = if v = t.id.uuid then [ledgerTx] else kindsOf m v := by
  by_cases hv : v = t.id.uuid
  · obtain ⟨hledger, haccount, -⟩ := unused_iff.1 hun
    rw [if_pos hv, hv]
    unfold kindsOf
    rw [InMemoryLedgerStore.lookup_persist]
    simp only [InMemoryLedgerStore.persist, hledger, haccount]
    rfl
  · rw [if_neg hv]
    refine kindsOf_congr rfl rfl ?_
    rw [InMemoryLedgerStore.lookup_persist, if_neg]
    intro heq
    exact hv (congrArg TransactionId.uuid heq)

theorem kindsOf_settle {id : TransactionId} {st : Status}
    (hl : m.transactions.lookup id = some t) (v : Uuid) :
    kindsOf (m.settle id t st) v = kindsOf m v := by
  refine kindsOf_congr rfl rfl ?_
  rw [InMemoryLedgerStore.lookup_settle]
  by_cases hv : (⟨v⟩ : TransactionId) = id
  · rw [if_pos hv, hv, hl]
    rfl
  · rw [if_neg hv]

theorem Stored.ledger (hs : Stored sj m G) {l : Ledger} (hun : kindsOf m l.id.uuid = []) :
    Stored sj (withLedger m l) ((G.addVertex l.id.uuid ledgerLedger).setProps
      sj (.vertex l.id.uuid) (ledgerProps l)) := by
  have hc : ChangedAt l.id.uuid G ((G.addVertex l.id.uuid ledgerLedger
      ).setProps sj (.vertex l.id.uuid) (ledgerProps l)) :=
    (changedAt_addVertex G _ _).trans (changedAt_setProps _ _ _)
  obtain ⟨htypes, hone⟩ := hs.new_types hun
    (PropertyGraph.types_setProps ..) (kindsOf_withLedger hun)
  refine ⟨htypes, hone, ?_, ?_, hs.entries, ?_⟩
  · intro id a hl
    obtain ⟨hid, ha⟩ := hs.account id a hl
    exact ⟨hid, ha.change hc (hs.account_ne hun hl)⟩
  · intro id t hl
    obtain ⟨hid, ht⟩ := hs.transaction id t hl
    exact ⟨hid, ht.change hc (hs.transaction_ne hun hl)⟩
  · rw [PropertyGraph.edges_setProps]
    exact hs.edges

theorem Stored.newAccount (hs : Stored sj m G) (hsound : Sound G)
    (g : GraphHandle LedgerProp) (hun : kindsOf m a.id.uuid = [])
    (hname : Legible sj a.name) :
    Stored sj (withAccount m a) (((G.addVertex a.id.uuid ledgerAccount
      ).addEdge (accountEdge g a)).setProps sj (.vertex a.id.uuid)
      (accountProps a)) := by
  have hc : ChangedAt a.id.uuid G (((G.addVertex a.id.uuid ledgerAccount
      ).addEdge (accountEdge g a)).setProps sj (.vertex a.id.uuid)
      (accountProps a)) :=
    ((changedAt_addVertex G _ _).trans (changedAt_addEdge _
      (accountEdge g a))).trans (changedAt_setProps _ _ _)
  obtain ⟨htypes, hone⟩ := hs.new_types hun
    ((PropertyGraph.types_setProps ..).trans (PropertyGraph.types_addEdge ..))
    (kindsOf_withAccount hun)
  have hlookup : ∀ id, (withAccount m a).accounts.lookup id
      = if id = a.id then some a else m.accounts.lookup id := fun id =>
    Table.lookup_insert_eq ..
  -- the one edge that leaves the account leads to its ledger
  have hout : PropertyGraph.outEdges (((G.addVertex a.id.uuid ledgerAccount
      ).addEdge (accountEdge g a)).setProps sj (.vertex a.id.uuid)
      (accountProps a)) a.id.uuid ledgerInLedger = [accountEdge g a] := by
    unfold PropertyGraph.outEdges
    rw [PropertyGraph.edges_setProps, PropertyGraph.edges_addEdge,
      PropertyGraph.edges_addVertex, List.filter_append,
      List.filter_eq_nil_iff.2 ?_, List.filter_cons_of_pos
      (by simp [accountEdge]), List.filter_nil, List.nil_append]
    intro e he hin
    rw [decide_eq_true_eq] at hin
    exact hsound.fromId_ne ((hs.types _).trans hun) e he hin.1
  refine ⟨htypes, hone, ?_, ?_, ?_, ?_⟩
  · intro id x hl
    rw [hlookup] at hl
    by_cases hid : id = a.id
    · rw [if_pos hid] at hl
      cases hl
      refine ⟨hid.symm, ?_, ?_, hname, ?_, ?_⟩
      · rw [htypes, kindsOf_withAccount hun, if_pos rfl]
      · intro p hp
        exact PropertyGraph.prop_setProps_of_mem _ (nodup_accountProps a) hp
      · rw [hout]
        exact List.cons_ne_nil _ _
      · rw [hout]
        intro e he
        rw [List.mem_singleton.1 he]
        rfl
    · rw [if_neg hid] at hl
      obtain ⟨hid', ha⟩ := hs.account id x hl
      exact ⟨hid', ha.change hc (hs.account_ne hun hl)⟩
  · intro id t hl
    obtain ⟨hid, ht⟩ := hs.transaction id t hl
    exact ⟨hid, ht.change hc (hs.transaction_ne hun hl)⟩
  · intro id t hl e he
    obtain ⟨x, hx, hcur⟩ := hs.entries id t hl e he
    refine ⟨x, ?_, hcur⟩
    rw [hlookup, if_neg]
    · exact hx
    · intro heq
      have hnone := (unused_iff.1 hun).2.1
      rw [show (⟨a.id.uuid⟩ : AccountId) = a.id from rfl, ← heq, hx] at hnone
      cases hnone
  · intro e he d hd
    rw [PropertyGraph.edges_setProps, PropertyGraph.edges_addEdge] at he
    rcases List.mem_append.1 he with he | he
    · exact hs.edges e he d hd
    · rw [List.mem_singleton.1 he] at hd
      exact absurd hd.symm (entryType_ne_ledgerInLedger d)

/-- What the graph store can give back of a transaction: entries, on
different accounts or sides, a time that fits, and an external id that
is read as it is written. -/
structure Storable (sj : SerdeJson) (t : Transaction) : Prop where
  nonempty : t.entries ≠ []
  apart : Apart t.entries
  fits : FitsI64 t.effectiveAtUnixSecs
  externalId : ∀ ext, t.externalId = some ext → (mgToJson sj (.string ext)).asStr = some ext

theorem givesBack_post {n : Nat} {le : Edge} {es : List Edge}
    (heff : PostEffect sj t n G G' le es)
    (hfilled : List.Forall₂ (Filled sj G' t.id) es t.entries)
    (hnew : ∀ e ∈ G.edges, e.fromId ≠ t.id.uuid)
    (hfresh : G.typesOf t.id.uuid = []) (ht : Storable sj t) :
    GivesBack sj G' t := by
  refine ⟨storesTx_post heff hnew hfilled hfresh ht.fits ht.nonempty, ?_⟩
  unfold PropertyGraph.str PropertyGraph.json
  rw [heff.txProps (.externalId, jsonOfOption t.externalId) (by simp [txProps])]
  cases hext : t.externalId with
  | none => rfl
  | some ext => exact ht.externalId ext hext

/-- A new transaction whose entries filled their edges. -/
theorem Stored.post (hs : Stored sj m G) (hsound : Sound G) {n : Nat}
    {le : Edge} {es : List Edge} (heff : PostEffect sj t n G G' le es)
    (hfilled : List.Forall₂ (Filled sj G' t.id) es t.entries)
    (hun : kindsOf m t.id.uuid = []) (ht : Storable sj t)
    (hentries : ∀ e ∈ t.entries, ∃ a, m.accounts.lookup e.accountId = some a
      ∧ a.currency = e.amount.currency) : Stored sj (m.persist t) G' := by
  have hc := changedAt_post heff
  have hfresh := (hs.types _).trans hun
  obtain ⟨htypes, hone⟩ := hs.new_types hun heff.types (kindsOf_persist hun)
  refine ⟨htypes, hone, ?_, ?_, ?_, ?_⟩
  · intro id a hl
    obtain ⟨hid, ha⟩ := hs.account id a hl
    exact ⟨hid, ha.change hc (hs.account_ne hun hl)⟩
  · intro id x hl
    rw [InMemoryLedgerStore.lookup_persist] at hl
    by_cases hid : id = t.id
    · rw [if_pos hid] at hl
      cases hl
      exact ⟨hid.symm, givesBack_post heff hfilled (hsound.fromId_ne hfresh) hfresh ht⟩
    · rw [if_neg hid] at hl
      obtain ⟨hid', hx⟩ := hs.transaction id x hl
      exact ⟨hid', hx.change hc (hs.transaction_ne hun hl)⟩
  · intro id x hl
    rw [InMemoryLedgerStore.lookup_persist] at hl
    by_cases hid : id = t.id
    · rw [if_pos hid] at hl
      cases hl
      exact hentries
    · rw [if_neg hid] at hl
      exact hs.entries id x hl
  · intro e he d hd
    rw [InMemoryLedgerStore.lookup_persist]
    by_cases hfrom : (⟨e.fromId⟩ : TransactionId) = t.id
    · rw [if_pos hfrom]
      rfl
    · rw [if_neg hfrom]
      rw [heff.edges] at he
      rcases List.mem_append.1 he with he | he
      · exact hs.edges e he d hd
      · rcases List.mem_cons.1 he with rfl | he
        · rw [heff.ledger.2.1] at hd
          exact absurd hd.symm (entryType_ne_ledgerInLedger d)
        · obtain ⟨entry, -, hcarries⟩ := exists_of_forall₂ heff.carried he
          exact absurd (congrArg TransactionId.mk hcarries.1) hfrom

/-- A status written over the old one. -/
theorem Stored.status (hs : Stored sj m G) {id : TransactionId}
    (hl : m.transactions.lookup id = some t) (st : Status) :
    Stored sj (m.settle id t st) (G.setProp (.vertex id.uuid) .status
      (jsonToMg sj (.string (statusStr st)))) := by
  have hc := changedAt_setProp G id.uuid .status (jsonToMg sj (.string (statusStr st)))
  obtain ⟨rfl, hgives⟩ := hs.transaction id t hl
  refine ⟨?_, ?_, ?_, ?_, ?_, ?_⟩
  · intro v
    rw [kindsOf_settle hl]
    exact hs.types v
  · intro v
    rw [kindsOf_settle hl]
    exact hs.one v
  · intro id' a hl'
    obtain ⟨hid, ha⟩ := hs.account id' a hl'
    refine ⟨hid, ha.change hc ?_⟩
    intro heq
    have htypes := ha.types
    rw [heq, hgives.stores.types] at htypes
    exact absurd htypes (by decide)
  · intro id' x hl'
    rw [InMemoryLedgerStore.lookup_settle] at hl'
    by_cases hid : id' = t.id
    · rw [if_pos hid] at hl'
      cases hl'
      refine ⟨hid.symm, ⟨hgives.stores.types, ?_, hgives.stores.fits,
        hgives.stores.ledgerEdge, hgives.stores.ledger, ?_,
        hgives.stores.nonempty⟩, ?_⟩
      · intro p hp
        rcases List.mem_cons.1 hp with rfl | hp
        · exact PropertyGraph.prop_setProp_self ..
        · rw [PropertyGraph.prop_setProp_of_attr_ne]
          · exact hgives.stores.props p (List.mem_cons_of_mem _ hp)
          · rintro heq
            have hmem := List.mem_map_of_mem (f := Prod.fst) hp
            rw [heq] at hmem
            simp at hmem
      · intro d
        refine (hgives.stores.entries d).imp ?_
        intro e entry hf
        refine ⟨hf.carries, ?_⟩
        intro p hp
        rw [PropertyGraph.prop_setProp_of_ne _ (by intro h; cases h)]
        exact hf.props p hp
      · unfold PropertyGraph.str PropertyGraph.json
        rw [PropertyGraph.prop_setProp_of_attr_ne _ (by decide)]
        exact hgives.externalId
    · rw [if_neg hid] at hl'
      obtain ⟨hid', hx⟩ := hs.transaction id' x hl'
      refine ⟨hid', hx.change hc ?_⟩
      intro heq
      rw [← hid'] at hid
      exact hid (congrArg TransactionId.mk heq)
  · intro id' x hl'
    rw [InMemoryLedgerStore.lookup_settle] at hl'
    by_cases hid : id' = t.id
    · rw [if_pos hid] at hl'
      cases hl'
      exact hs.entries t.id t hl
    · rw [if_neg hid] at hl'
      exact hs.entries id' x hl'
  · intro e he d hd
    rw [InMemoryLedgerStore.lookup_settle]
    by_cases hfrom : (⟨e.fromId⟩ : TransactionId) = t.id
    · rw [if_pos hfrom]
      rfl
    · rw [if_neg hfrom]
      exact hs.edges e he d hd

end

end OpenStandards.OpGraph

/-
What the readers of the graph store answer, from the property graph.

A reader that succeeds has found what it decodes (`readAccount_ok`,
`readTx_ok`), and what a vertex stores is read back in every order of rows
(`StoresTx.readTx`, `StoresAccount.readAccount`). The order of rows
reaches an answer in three places only: the type of a vertex that has
several, the ledger of one with several ledger edges, and the order of the
entries.
-/
import OpenStandards.OpGraph.Proofs.Writes

namespace OpenStandards.OpGraph

open Lib OpCore OpLedger GraphLedgerStore

section

variable {sj : SerdeJson} {ord : RowOrder (Fact LedgerProp)}
  {g g' : GraphHandle LedgerProp} {G G' : LedgerGraph}

-- ==== vertices

theorem vertexExists_iff (h : Represents g.facts G) (u : Uuid) :
    GraphHandle.vertexExists ord g u = true ↔ G.typesOf u ≠ [] := by
  unfold GraphHandle.vertexExists GraphHandle.getVertex
  have hperm := h.typesIn_perm ord u
  rw [Option.isSome_map, List.isSome_head?, not_iff_not]
  constructor
  · intro hnil
    rw [hnil] at hperm
    exact hperm.symm.eq_nil
  · intro hnil
    rw [hnil] at hperm
    exact hperm.eq_nil

variable {u : Uuid} {a : LedgerProp} {n : Nat} {d : Direction}
    {x : Transaction}

theorem getTypedVertex_ok (h : Represents g.facts G) {vt : String}
    {v : Vertex} (hv : GraphHandle.getTypedVertex ord g u vt = .ok v) :
    vt ∈ G.typesOf u := by
  unfold GraphHandle.getTypedVertex GraphHandle.getVertex at hv
  cases hhead : (GraphHandle.typesIn ord g.facts u).head? with
  | none =>
    rw [hhead] at hv
    cases hv
  | some t =>
    rw [hhead] at hv
    simp only [Option.map_some] at hv
    by_cases ht : t = vt
    · rw [← ht]
      exact (h.typesIn_perm ord u).mem_iff.1 (List.mem_of_mem_head? hhead)
    · rw [if_pos ht] at hv
      cases hv

theorem getTypedVertex_of_single (ord : RowOrder (Fact LedgerProp))
    (h : Represents g.facts G) {t : String} (ht : G.typesOf u = [t])
    (vt : String) :
    GraphHandle.getTypedVertex ord g u vt
      = if t ≠ vt then .error (.vertexTypeMismatch u.toString vt t)
        else .ok { id := u, t } := by
  have hrow : GraphHandle.typesIn ord g.facts u = [t] := by
    have hperm := h.typesIn_perm ord u
    rw [ht] at hperm
    exact List.perm_singleton.1 hperm
  unfold GraphHandle.getTypedVertex GraphHandle.getVertex
  rw [hrow]
  rfl

theorem getTypedVertex_of_none (ord : RowOrder (Fact LedgerProp))
    (h : Represents g.facts G) (ht : G.typesOf u = []) (vt : String) :
    GraphHandle.getTypedVertex ord g u vt = .error (.vertexNotFound vt u.toString) := by
  have hrow : GraphHandle.typesIn ord g.facts u = [] := by
    have hperm := h.typesIn_perm ord u
    rw [ht] at hperm
    exact hperm.eq_nil
  unfold GraphHandle.getTypedVertex GraphHandle.getVertex
  rw [hrow]
  rfl

theorem getTypedVertex_congr (h : Represents g.facts G)
    (h' : Represents g'.facts G')
    (ht : (G'.types.filter fun p => p.1 = u)
      = G.types.filter fun p => p.1 = u) (vt : String) :
    GraphHandle.getTypedVertex ord g' u vt = GraphHandle.getTypedVertex ord g u vt := by
  unfold GraphHandle.getTypedVertex GraphHandle.getVertex
  rw [h.typesIn_eq, h'.typesIn_eq, ht]

theorem head?_outEdges (h : Represents g.facts G) {et : String} {e : Edge}
    (he : (GraphHandle.outEdges ord g u et).head? = some e) :
    e ∈ G.outEdges u et :=
  (h.outEdgesIn_perm ord u et).mem_iff.1 (List.mem_of_mem_head? he)

theorem exists_head?_outEdges (ord : RowOrder (Fact LedgerProp))
    (h : Represents g.facts G) {et : String} (hne : G.outEdges u et ≠ []) :
    ∃ e, (GraphHandle.outEdges ord g u et).head? = some e := by
  cases hrows : GraphHandle.outEdges ord g u et with
  | nil =>
    have hperm := h.outEdgesIn_perm ord u et
    unfold GraphHandle.outEdges at hrows
    rw [hrows] at hperm
    exact absurd hperm.symm.eq_nil hne
  | cons e rows => exact ⟨e, rfl⟩

-- ==== properties

def PropertyGraph.str (sj : SerdeJson) (G : LedgerGraph) (e : Entity)
    (a : LedgerProp) : Option String :=
  (G.json sj e a).bind Json.asStr

def PropertyGraph.u64 (sj : SerdeJson) (G : LedgerGraph) (e : Entity)
    (a : LedgerProp) : Option Nat :=
  (G.json sj e a).bind Json.asU64

def PropertyGraph.i64 (sj : SerdeJson) (G : LedgerGraph) (e : Entity)
    (a : LedgerProp) : Option I64 :=
  (G.json sj e a).bind Json.asI64

theorem jsonString_ok (ord : RowOrder (Fact LedgerProp))
    (h : Represents g.facts G) {e : Entity} {s : String} :
    jsonString (GraphHandle.propertiesIn sj ord g.facts e) a = .ok s
      ↔ G.str sj e a = some s := by
  unfold jsonString PropertyGraph.str PropertyGraph.json
  rw [h.get_propertiesIn]
  cases (Option.map (mgToJson sj) (G.prop e a)).bind Json.asStr with
  | none => exact ⟨nofun, nofun⟩
  | some x => simp

theorem jsonU64_ok (ord : RowOrder (Fact LedgerProp)) (h : Represents g.facts G) {e : Entity} :
    jsonU64 (GraphHandle.propertiesIn sj ord g.facts e) a = .ok n ↔ G.u64 sj e a = some n := by
  unfold jsonU64 PropertyGraph.u64 PropertyGraph.json
  rw [h.get_propertiesIn]
  cases (Option.map (mgToJson sj) (G.prop e a)).bind Json.asU64 with
  | none => exact ⟨nofun, nofun⟩
  | some x => simp

theorem jsonI64_ok (ord : RowOrder (Fact LedgerProp))
    (h : Represents g.facts G) {e : Entity} {i : I64} :
    jsonI64 (GraphHandle.propertiesIn sj ord g.facts e) a = .ok i ↔ G.i64 sj e a = some i := by
  unfold jsonI64 PropertyGraph.i64 PropertyGraph.json
  rw [h.get_propertiesIn]
  cases (Option.map (mgToJson sj) (G.prop e a)).bind Json.asI64 with
  | none => exact ⟨nofun, nofun⟩
  | some x => simp

theorem jsonOptString_eq (ord : RowOrder (Fact LedgerProp))
    (h : Represents g.facts G) (e : Entity) (a : LedgerProp) :
    jsonOptString (GraphHandle.propertiesIn sj ord g.facts e) a = G.str sj e a := by
  unfold jsonOptString PropertyGraph.str PropertyGraph.json
  rw [h.get_propertiesIn]

/-- A text that is stored as itself. -/
theorem str_of_plain {e : Entity} {s : String} (hs : Plain s)
    (hp : G.prop e a = some (jsonToMg sj (.string s))) :
    G.str sj e a = some s := by
  unfold PropertyGraph.str PropertyGraph.json
  rw [hp]
  show (mgToJson sj (.string s)).asStr = some s
  rw [mgToJson_string sj hs]
  rfl

theorem u64_of_fits {e : Entity} (hn : FitsI64 n)
    (hp : G.prop e a = some (jsonToMg sj (.number (.ofU64 n)))) :
    G.u64 sj e a = some n := by
  unfold PropertyGraph.u64 PropertyGraph.json
  rw [hp, jsonToMg_ofU64 sj hn]
  exact asU64_integer sj hn

theorem u64_of_not_fits {e : Entity} (hn : ¬ FitsI64 n)
    (hp : G.prop e a = some (jsonToMg sj (.number (.ofU64 n)))) :
    G.u64 sj e a = none := by
  unfold PropertyGraph.u64 PropertyGraph.json
  obtain ⟨q, hq⟩ := jsonToMg_ofU64_large sj hn
  rw [hp, hq]
  rfl

theorem i64_of_prop {e : Entity} {i : I64}
    (hp : G.prop e a = some (jsonToMg sj (.number (.ofI64 i)))) :
    G.i64 sj e a = some i := by
  unfold PropertyGraph.i64 PropertyGraph.json
  rw [hp, jsonToMg_ofI64]
  exact asI64_integer sj i

-- ==== accounts

/-- What the properties of an account's vertex decode to. -/
structure AccountAt (sj : SerdeJson) (G : LedgerGraph) (acc : Account) : Prop where
  name : G.str sj (.vertex acc.id.uuid) .name = some acc.name
  accountClass : ∃ s, G.str sj (.vertex acc.id.uuid) .accountClass = some s
    ∧ parseAccountClass s = .ok acc.accountClass
  normalBalance : ∃ s,
    G.str sj (.vertex acc.id.uuid) .normalBalance = some s
      ∧ parseNormalBalance s = .ok acc.normalBalance
  currency : ∃ code n,
    G.str sj (.vertex acc.id.uuid) .currencyCode = some code
      ∧ G.u64 sj (.vertex acc.id.uuid) .currencyExponent = some n
      ∧ currencyFromProps code (n % 256) = .ok acc.currency
  externalId : acc.externalId = G.str sj (.vertex acc.id.uuid) .externalId

theorem readAccount_ok (h : Represents g.facts G) {id : AccountId} {acc : Account} :
    readAccount sj ord g id = .ok acc ↔
      acc.id = id
        ∧ (∃ v, GraphHandle.getTypedVertex ord g id.uuid ledgerAccount = .ok v)
        ∧ AccountAt sj G acc
        ∧ ∃ e, (GraphHandle.outEdges ord g id.uuid ledgerInLedger).head?
            = some e ∧ acc.ledgerId = ⟨e.toId⟩ := by
  unfold readAccount accountParentLedger GraphHandle.getVertexProperties
  constructor
  · intro hread
    obtain ⟨v, hv, hread⟩ := bind_eq_ok.1 hread
    obtain ⟨name, hname, hread⟩ := bind_eq_ok.1 hread
    obtain ⟨classS, hclass, hread⟩ := bind_eq_ok.1 hread
    obtain ⟨nbS, hnb, hread⟩ := bind_eq_ok.1 hread
    obtain ⟨code, hcode, hread⟩ := bind_eq_ok.1 hread
    obtain ⟨n, hn, hread⟩ := bind_eq_ok.1 hread
    obtain ⟨lid, hlid, hread⟩ := bind_eq_ok.1 hread
    obtain ⟨cur, hcur, hread⟩ := bind_eq_ok.1 hread
    obtain ⟨cls, hcls, hread⟩ := bind_eq_ok.1 hread
    obtain ⟨nb, hnbp, hread⟩ := bind_eq_ok.1 hread
    cases hread
    rw [jsonString_ok ord h] at hname hclass hnb hcode
    rw [jsonU64_ok ord h] at hn
    refine ⟨rfl, ⟨v, hv⟩, ⟨hname, ⟨classS, hclass, hcls⟩,
      ⟨nbS, hnb, hnbp⟩, ⟨code, n, hcode, hn, hcur⟩,
      jsonOptString_eq ord h ..⟩, ?_⟩
    cases hhead : (GraphHandle.outEdges ord g id.uuid ledgerInLedger ).head? with
    | none =>
      rw [hhead] at hlid
      cases hlid
    | some e =>
      rw [hhead] at hlid
      cases hlid
      exact ⟨e, rfl, rfl⟩
  · rintro ⟨rfl, ⟨v, hv⟩, ⟨hname, ⟨classS, hclass, hcls⟩,
      ⟨nbS, hnb, hnbp⟩, ⟨code, n, hcode, hn, hcur⟩, hext⟩, e, he, hlid⟩
    rw [← jsonString_ok ord h] at hname hclass hnb hcode
    rw [← jsonU64_ok ord h] at hn
    rw [← jsonOptString_eq ord h] at hext
    simp only [hv, hname, hclass, hnb, hcode, hn, he, hcur, hcls, hnbp, ok_bind, ← hext, ← hlid]
    rfl

-- ==== transactions

/-- What the properties of an entry edge decode to. -/
structure EntryAt (sj : SerdeJson) (G : LedgerGraph) (d : Direction)
    (e : Edge) (entry : Entry) : Prop where
  accountId : entry.accountId = ⟨e.toId⟩
  direction : entry.direction = d
  amount : G.i64 sj (.edge e.id) .amountMinor = some entry.amount.minorUnits
  currency : ∃ code n, G.str sj (.edge e.id) .currencyCode = some code
    ∧ G.u64 sj (.edge e.id) .currencyExponent = some n
    ∧ currencyFromProps code (n % 256) = .ok entry.amount.currency

theorem readEntryEdge_ok (h : Represents g.facts G) {e : Edge} {entry : Entry} :
    readEntryEdge sj ord g e d = .ok entry ↔ EntryAt sj G d e entry := by
  unfold readEntryEdge entryOfProps GraphHandle.getEdgeProperties
  constructor
  · intro hread
    obtain ⟨m, hm, hread⟩ := bind_eq_ok.1 hread
    obtain ⟨code, hcode, hread⟩ := bind_eq_ok.1 hread
    obtain ⟨n, hn, hread⟩ := bind_eq_ok.1 hread
    obtain ⟨cur, hcur, hread⟩ := bind_eq_ok.1 hread
    cases hread
    rw [jsonI64_ok ord h] at hm
    rw [jsonString_ok ord h] at hcode
    rw [jsonU64_ok ord h] at hn
    exact ⟨rfl, rfl, hm, code, n, hcode, hn, hcur⟩
  · rintro ⟨ha, rfl, hm, code, n, hcode, hn, hcur⟩
    rw [← jsonI64_ok ord h] at hm
    rw [← jsonString_ok ord h] at hcode
    rw [← jsonU64_ok ord h] at hn
    simp only [hm, hcode, hn, hcur, ok_bind, ← ha]
    rfl

/-- What the properties of a transaction's vertex decode to. -/
structure TxAt (sj : SerdeJson) (G : LedgerGraph) (x : Transaction) : Prop where
  status : ∃ s, G.str sj (.vertex x.id.uuid) .status = some s ∧ parseStatus s = .ok x.status
  externalId : x.externalId = G.str sj (.vertex x.id.uuid) .externalId
  effectiveAt : G.u64 sj (.vertex x.id.uuid) .effectiveAtUnixSecs = some x.effectiveAtUnixSecs

def EntriesAt (sj : SerdeJson) (ord : RowOrder (Fact LedgerProp))
    (g : GraphHandle LedgerProp) (G : LedgerGraph) (x : Transaction) :
    Prop :=
  ∃ debits credits, x.entries = debits ++ credits
    ∧ List.Forall₂ (EntryAt sj G .debit)
      (GraphHandle.outEdges ord g x.id.uuid ledgerDebit) debits
    ∧ List.Forall₂ (EntryAt sj G .credit)
      (GraphHandle.outEdges ord g x.id.uuid ledgerCredit) credits

theorem mapM_readEntryEdge (ord : RowOrder (Fact LedgerProp))
    (h : Represents g.facts G) {rows : List Edge} {es : List Entry} :
    (rows.mapM fun edge => readEntryEdge sj ord g edge d) = .ok es
      ↔ List.Forall₂ (EntryAt sj G d) rows es := by
  rw [mapM_ok_iff]
  simp only [readEntryEdge_ok h]

theorem readTx_ok (h : Represents g.facts G) {id : TransactionId}
    (hread : readTx sj ord g id = .ok x) :
    x.id = id
      ∧ (∃ v, GraphHandle.getTypedVertex ord g id.uuid ledgerTx = .ok v)
      ∧ TxAt sj G x ∧ EntriesAt sj ord g G x ∧ x.entries ≠ []
      ∧ ∃ e, (GraphHandle.outEdges ord g id.uuid ledgerInLedger).head?
          = some e ∧ x.ledgerId = ⟨e.toId⟩ := by
  unfold readTx GraphHandle.getVertexProperties at hread
  obtain ⟨v, hv, hread⟩ := bind_eq_ok.1 hread
  obtain ⟨statusS, hstatus, hread⟩ := bind_eq_ok.1 hread
  obtain ⟨status, hparse, hread⟩ := bind_eq_ok.1 hread
  obtain ⟨effective, heffective, hread⟩ := bind_eq_ok.1 hread
  cases hhead : (GraphHandle.outEdges ord g id.uuid ledgerInLedger).head? with
  | none =>
    rw [hhead] at hread
    cases hread
  | some e =>
    rw [hhead] at hread
    obtain ⟨lid, hlid, hread⟩ := bind_eq_ok.1 hread
    cases hlid
    obtain ⟨debits, hdebits, hread⟩ := bind_eq_ok.1 hread
    obtain ⟨credits, hcredits, hread⟩ := bind_eq_ok.1 hread
    rw [jsonString_ok ord h] at hstatus
    rw [jsonU64_ok ord h] at heffective
    rw [mapM_readEntryEdge ord h] at hdebits hcredits
    by_cases hnil : debits ++ credits = []
    · rw [if_pos hnil] at hread
      cases hread
    · rw [if_neg hnil] at hread
      cases hread
      exact ⟨rfl, ⟨v, hv⟩, ⟨⟨statusS, hstatus, hparse⟩,
        jsonOptString_eq ord h .., heffective⟩,
        ⟨debits, credits, rfl, hdebits, hcredits⟩, hnil, e, rfl, rfl⟩

theorem EntriesAt.entry (h : Represents g.facts G)
    (hx : EntriesAt sj ord g G x) {e : Edge} (he : e ∈ G.edges)
    (hfrom : e.fromId = x.id.uuid) (ht : e.t = entryType d) :
    ∃ entry ∈ x.entries, EntryAt sj G d e entry := by
  obtain ⟨debits, credits, happend, hdebits, hcredits⟩ := hx
  have hrow : e ∈ GraphHandle.outEdges ord g x.id.uuid (entryType d) :=
    (h.outEdgesIn_perm ord _ _).mem_iff.2 (List.mem_filter.2
      ⟨he, decide_eq_true ⟨hfrom, ht⟩⟩)
  rw [happend]
  cases d with
  | debit =>
    obtain ⟨entry, hentry, hat⟩ := exists_of_forall₂ hdebits hrow
    exact ⟨entry, List.mem_append_left _ hentry, hat⟩
  | credit =>
    obtain ⟨entry, hentry, hat⟩ := exists_of_forall₂ hcredits hrow
    exact ⟨entry, List.mem_append_right _ hentry, hat⟩

theorem EntriesAt.edge (h : Represents g.facts G)
    (hx : EntriesAt sj ord g G x) {entry : Entry} (hentry : entry ∈ x.entries) :
    ∃ e ∈ G.edges, e.carries x.id entry := by
  obtain ⟨debits, credits, happend, hdebits, hcredits⟩ := hx
  have hedge : ∀ d es', List.Forall₂ (EntryAt sj G d)
      (GraphHandle.outEdges ord g x.id.uuid (entryType d)) es' →
      entry ∈ es' → ∃ e ∈ G.edges, e.carries x.id entry := by
    intro d es' hall hmem
    obtain ⟨e, he, hat⟩ := exists_of_forall₂ hall.flip hmem
    obtain ⟨he, hout⟩ := List.mem_filter.1 ((h.outEdgesIn_perm ord _ _).mem_iff.1 he)
    rw [decide_eq_true_eq] at hout
    refine ⟨e, he, hout.1, ?_, ?_⟩
    · rw [hat.direction]
      exact hout.2
    · rw [hat.accountId]
  rw [happend] at hentry
  rcases List.mem_append.1 hentry with hmem | hmem
  · exact hedge .debit _ hdebits hmem
  · exact hedge .credit _ hcredits hmem

/-- A transaction whose parts are all there is read. -/
theorem exists_readTx (h : Represents g.facts G) {v : Vertex} {e : Edge}
    (hv : GraphHandle.getTypedVertex ord g x.id.uuid ledgerTx = .ok v)
    (hat : TxAt sj G x) (hentries : EntriesAt sj ord g G x) (hnil : x.entries ≠ [])
    (he : (GraphHandle.outEdges ord g x.id.uuid ledgerInLedger).head?
      = some e) (hlid : x.ledgerId = ⟨e.toId⟩) :
    ∃ description metadata, readTx sj ord g x.id = .ok { x with description, metadata } := by
  obtain ⟨⟨statusS, hstatus, hparse⟩, hext, heffective⟩ := hat
  obtain ⟨debits, credits, happend, hdebits, hcredits⟩ := hentries
  rw [← jsonString_ok ord h] at hstatus
  rw [← jsonU64_ok ord h] at heffective
  rw [← jsonOptString_eq ord h] at hext
  rw [← mapM_readEntryEdge ord h] at hdebits hcredits
  let props := GraphHandle.propertiesIn sj ord g.facts (.vertex x.id.uuid)
  refine ⟨jsonOptString props .description, jsonOptObjectStrs props .metadata,
    ?_⟩
  unfold readTx GraphHandle.getVertexProperties
  simp only [hv, hstatus, hparse, heffective, he, hdebits, hcredits,
    ok_bind, ← happend, if_neg hnil, ← hext, ← hlid]
  rfl

-- ==== stored and read

/-- The properties of a transaction's vertex. -/
def txProps (t : Transaction) : List (LedgerProp × Json) :=
  [(.status, .string (statusStr t.status)),
    (.externalId, jsonOfOption t.externalId),
    (.description, jsonOfOption t.description),
    (.effectiveAtUnixSecs, .number (.ofU64 t.effectiveAtUnixSecs)),
    (.metadata, metadataObject t.metadata)]

/-- The graph stores the transaction: its vertex with the properties, its
ledger, and on each side one filled edge for each entry. -/
structure StoresTx (sj : SerdeJson) (G : LedgerGraph) (t : Transaction) : Prop where
  types : G.typesOf t.id.uuid = [ledgerTx]
  props : ∀ p ∈ txProps t, G.prop (.vertex t.id.uuid) p.1 = some (jsonToMg sj p.2)
  fits : FitsI64 t.effectiveAtUnixSecs
  ledgerEdge : G.outEdges t.id.uuid ledgerInLedger ≠ []
  ledger : ∀ e ∈ G.outEdges t.id.uuid ledgerInLedger, e.toId = t.ledgerId.uuid
  entries : ∀ d, List.Forall₂ (Filled sj G t.id)
    (G.outEdges t.id.uuid (entryType d))
    (t.entries.filter fun e => e.direction = d)
  nonempty : t.entries ≠ []

theorem Filled.entryAt {txId : TransactionId} {e : Edge} {entry : Entry}
    (h : Filled sj G txId e entry) :
    EntryAt sj G entry.direction e entry := by
  refine ⟨?_, rfl, ?_, entry.amount.currency.code,
    entry.amount.currency.exponent, ?_, ?_, currencyFromProps_code _⟩
  · rw [h.carries.2.2]
  · exact i64_of_prop (h.props (_, _) (by simp [entryProps]))
  · exact str_of_plain (plain_code _) (h.props (_, _) (by simp [entryProps]))
  · exact u64_of_fits (exponent_fits _) (h.props (_, _) (by simp [entryProps]))

theorem entriesAt_of_filled (ord : RowOrder (Fact LedgerProp))
    (h : Represents g.facts G) {txId : TransactionId} {es : List Entry}
    (hfilled : List.Forall₂ (Filled sj G txId) (G.outEdges u (entryType d))
      (es.filter fun e => e.direction = d)) :
    ∃ es', List.Forall₂ (EntryAt sj G d) (GraphHandle.outEdges ord g u (entryType d)) es'
      ∧ es'.Perm (es.filter fun e => e.direction = d) := by
  have hat : List.Forall₂ (EntryAt sj G d) (G.outEdges u (entryType d))
      (es.filter fun e => e.direction = d) := by
    have hside : ∀ entry ∈ es.filter fun e => decide (e.direction = d),
        entry.direction = d := by
      intro entry hentry
      simpa using (List.mem_filter.1 hentry).2
    refine List.Forall₂.imp ?_ ((List.forall₂_and_left _ _).2 ⟨hside, hfilled.flip⟩).flip
    rintro e entry ⟨hd, hf⟩
    rw [← hd]
    exact Filled.entryAt hf
  obtain ⟨w, hw, hperm⟩ := List.perm_comp_forall₂ (h.outEdgesIn_perm ord u (entryType d)) hat
  exact ⟨w, hw, hperm⟩

theorem filter_direction_perm (es : List Entry) :
    ((es.filter fun e => e.direction = .debit)
      ++ es.filter fun e => e.direction = .credit).Perm es := by
  have hcredit : (es.filter fun e => decide (e.direction = .credit))
      = es.filter fun e => !decide (e.direction = .debit) := by
    refine List.filter_congr ?_
    intro e _
    cases e.direction <;> rfl
  rw [hcredit]
  exact List.filter_append_perm _ es

theorem StoresTx.readTx (h : Represents g.facts G) {t : Transaction}
    (hs : StoresTx sj G t) (ord : RowOrder (Fact LedgerProp)) :
    ∃ description entries metadata,
      GraphLedgerStore.readTx sj ord g t.id = .ok { t with
        externalId := G.str sj (.vertex t.id.uuid) .externalId
        description, entries, metadata }
      ∧ entries.Perm t.entries := by
  obtain ⟨debits, hdebits, hpd⟩ := entriesAt_of_filled ord h (hs.entries .debit)
  obtain ⟨credits, hcredits, hpc⟩ := entriesAt_of_filled ord h (hs.entries .credit)
  have hperm : (debits ++ credits).Perm t.entries :=
    (hpd.append hpc).trans (filter_direction_perm t.entries)
  obtain ⟨e, he⟩ := exists_head?_outEdges ord h hs.ledgerEdge
  have hlid := hs.ledger e (head?_outEdges h he)
  have htyped := getTypedVertex_of_single ord h hs.types ledgerTx
  rw [if_neg (fun hne => hne rfl)] at htyped
  obtain ⟨description, metadata, hread⟩ := exists_readTx h
    (x := { t with
      externalId := G.str sj (.vertex t.id.uuid) .externalId
      entries := debits ++ credits }) htyped
    ⟨⟨statusStr t.status, str_of_plain (plain_statusStr _)
        (hs.props (_, _) (by simp [txProps])), parseStatus_statusStr _⟩,
      rfl, u64_of_fits hs.fits (hs.props (_, _) (by simp [txProps]))⟩
    ⟨debits, credits, rfl, hdebits, hcredits⟩
    (fun hnil => hs.nonempty (by
      change debits ++ credits = [] at hnil
      rw [hnil] at hperm
      exact hperm.symm.eq_nil))
    he (by rw [hlid])
  exact ⟨description, debits ++ credits, metadata, hread, hperm⟩

end

end OpenStandards.OpGraph

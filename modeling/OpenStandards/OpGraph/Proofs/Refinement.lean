/-
The graph store refines the in-memory store, and exactly how far.

The two stores agree on every call of a run whose calls meet `Comparable`:
ids are fresh and name their own kind, an account's name can be read back, a
transaction that is persisted can be given back (`Storable`), a retry has
the time of what it retries, and the totals of a balance all fit or one of
them does not (`stores_alike`). Each of these is where the stores part
(`stores_differ`).
-/
import OpenStandards.OpGraph.Proofs.SameBalance
import OpenStandards.OpLedger.Proofs.Replay

namespace OpenStandards.OpGraph

open Lib OpCore OpLedger GraphLedgerStore
open InMemoryLedgerStore (IndexExact ReachesPersist CurrencyByAccount)

-- ==== the condition

/-- The condition on a retry in the ledger of the stored transaction: with
the same entries it has the same time, and with the same time and the
same keys it has the same entries (no currency differs in its exponent
alone). -/
def RetryComparable (stored t : Transaction) : Prop :=
  stored.ledgerId = t.ledgerId →
    (stored.entries.Perm t.entries → stored.effectiveAtUnixSecs = t.effectiveAtUnixSecs)
    ∧ (stored.effectiveAtUnixSecs = t.effectiveAtUnixSecs →
      (stored.entries.map bodyKey).Perm (t.entries.map bodyKey) →
      stored.entries.Perm t.entries)

/-- The condition on a post to an existing ledger: a retry is comparable,
anything else names accounts, and what is persisted is new and can be
given back. -/
def PostComparable (sj : SerdeJson) (m : InMemoryLedgerStore) (t : Transaction) : Prop :=
  match m.indexed t.externalId with
  | some id => ∀ stored, m.transactions.lookup id = some stored →
      RetryComparable stored t
  | none => (∀ e ∈ t.entries, NamesKind m e.accountId.uuid ledgerAccount)
      ∧ (ReachesPersist m t → kindsOf m t.id.uuid = [] ∧ Storable sj t)

def Comparable (sj : SerdeJson) (s : Stores) (r : Request) : Prop :=
  match r.call with
  | .createLedger l => kindsOf s.memory l.id.uuid = []
  | .createAccount a => NamesKind s.memory a.ledgerId.uuid ledgerLedger
      ∧ ((s.memory.ledgers.lookup a.ledgerId).isSome →
        kindsOf s.memory a.id.uuid = [] ∧ Legible sj a.name)
  | .postTransaction t => NamesKind s.memory t.ledgerId.uuid ledgerLedger
      ∧ ((s.memory.ledgers.lookup t.ledgerId).isSome → PostComparable sj s.memory t)
  | .markPosted id => NamesKind s.memory id.uuid ledgerTx
  | .markArchived id => NamesKind s.memory id.uuid ledgerTx
  | .balance a => NamesKind s.memory a.uuid ledgerAccount
      ∧ ∀ acc, s.memory.accounts.lookup a = some acc →
        Overflows s.memory a ∨ InRange s.memory acc
  | .findByExternalId _ => True

-- ==== the relation

/-- The graph is a picture of the tables, and the cache is the index. -/
structure Pictures (sj : SerdeJson) (s : Stores) (G : LedgerGraph) : Prop where
  models : Models s.graph.handle G
  sound : Sound G
  stored : Stored sj s.memory G
  index : IndexExact s.memory
  cache : ∀ ext, s.graph.byExternalId.lookup ext = s.memory.byExternalId.lookup ext

section

variable {sj : SerdeJson} {m : InMemoryLedgerStore} {g : GraphLedgerStore}
  {G : LedgerGraph} (hp : Pictures sj ⟨m, g⟩ G)
  (ord : RowOrder (Fact LedgerProp))

theorem pictures_empty : Pictures sj .empty .empty :=
  ⟨models_nil, sound_empty, stored_empty, InMemoryLedgerStore.indexExact_new,
    fun _ => rfl⟩

include hp

theorem Pictures.vertexExists {u : Uuid} (hn : NamesKind m u ledgerLedger) :
    GraphHandle.vertexExists ord g.handle u = (m.ledgers.lookup ⟨u⟩).isSome := by
  rw [Bool.eq_iff_iff, vertexExists_iff hp.models.represents,
    hp.stored.types, ← mem_kindsOf_ledger]
  constructor
  · intro hne
    obtain ⟨k, hk⟩ := List.exists_mem_of_ne_nil _ hne
    rw [← hn k hk]
    exact hk
  · exact List.ne_nil_of_mem

/-- An account is looked up in both stores. -/
theorem Pictures.lookupAccount {id : AccountId} (hn : NamesKind m id.uuid ledgerAccount) :
    match m.accounts.lookup id with
    | none => lookupAccount sj ord g.handle id
        = .error (.accountNotFound id.toString)
    | some a => ∃ name externalId, lookupAccount sj ord g.handle id
        = .ok { a with name, externalId } := by
  cases hl : m.accounts.lookup id with
  | none =>
    have hnil : G.typesOf id.uuid = [] := by
      rw [hp.stored.types]
      refine hn.unused ?_
      rw [mem_kindsOf_account, show (⟨id.uuid⟩ : AccountId) = id from rfl, hl]
      exact Bool.false_ne_true
    show GraphLedgerStore.lookupAccount sj ord g.handle id = _
    unfold GraphLedgerStore.lookupAccount readAccount
    rw [getTypedVertex_of_none ord hp.models.represents hnil]
    rfl
  | some a =>
    obtain ⟨rfl, ha⟩ := hp.stored.account id a hl
    obtain ⟨name, externalId, hread⟩ := ha.readAccount hp.models.represents ord
    exact ⟨name, externalId, lookupAccount_ok.2 hread⟩

/-- A transaction is looked up in both stores. -/
theorem Pictures.lookupTx {id : TransactionId} (hn : NamesKind m id.uuid ledgerTx) :
    match m.transactions.lookup id with
    | none => lookupTx sj ord g.handle id
        = .error (.transactionNotFound id.toString)
    | some t => ∃ x, lookupTx sj ord g.handle id = .ok x
        ∧ SameTransaction t x := by
  cases hl : m.transactions.lookup id with
  | none =>
    have hnil : G.typesOf id.uuid = [] := by
      rw [hp.stored.types]
      refine hn.unused ?_
      rw [mem_kindsOf_transaction,
        show (⟨id.uuid⟩ : TransactionId) = id from rfl, hl]
      exact Bool.false_ne_true
    show GraphLedgerStore.lookupTx sj ord g.handle id = _
    unfold GraphLedgerStore.lookupTx readTx
    rw [getTypedVertex_of_none ord hp.models.represents hnil]
    rfl
  | some t =>
    obtain ⟨rfl, ht⟩ := hp.stored.transaction id t hl
    obtain ⟨x, hread, hsame⟩ := ht.readTx hp.models.represents ord
    exact ⟨x, lookupTx_ok.2 hread, hsame⟩

theorem Pictures.validateEntry {lid : LedgerId} {e : Entry}
    (hn : NamesKind m e.accountId.uuid ledgerAccount) :
    validateEntry sj ord g.handle lid e = m.validateEntry lid e := by
  have hlookup := hp.lookupAccount ord hn
  unfold GraphLedgerStore.validateEntry InMemoryLedgerStore.validateEntry
  cases hl : m.accounts.lookup e.accountId with
  | none =>
    rw [hl] at hlookup
    rw [hlookup]
    rfl
  | some a =>
    rw [hl] at hlookup
    obtain ⟨name, externalId, hread⟩ := hlookup
    rw [hread]
    rfl

-- ==== the calls

/-- Both stores answer the same, and the graph is a picture again. -/
structure Matched (sj : SerdeJson) {α : Type}
    (x : Except Error α × InMemoryLedgerStore)
    (y : Except Error α × GraphLedgerStore) : Prop where
  answer : x.1 = y.1
  pictures : ∃ G, Pictures sj ⟨x.2, y.2⟩ G

theorem Pictures.createLedger {l : Ledger} (hun : kindsOf m l.id.uuid = []) :
    Matched sj (m.createLedger l) (createLedger sj ord g l) := by
  refine ⟨rfl, _, (hp.models.createVertex l.id.uuid ledgerLedger).writeProps
    _ (ledgerProps l), ?_, hp.stored.ledger hun, ?_, hp.cache⟩
  · exact @sound_step sj ord _ _ _ hp.models hp.sound _ (.ledger l)
  · exact ⟨hp.index.key, hp.index.exact⟩

theorem Pictures.createAccount {a : Account} (hn : NamesKind m a.ledgerId.uuid ledgerLedger)
    (hnew : (m.ledgers.lookup a.ledgerId).isSome →
      kindsOf m a.id.uuid = [] ∧ Legible sj a.name) :
    Matched sj (m.createAccount a) (createAccount sj ord g a) := by
  have hexists := hp.vertexExists ord hn
  unfold InMemoryLedgerStore.createAccount GraphLedgerStore.createAccount
  cases hl : m.ledgers.lookup a.ledgerId with
  | none =>
    rw [show (⟨a.ledgerId.uuid⟩ : LedgerId) = a.ledgerId from rfl, hl]
      at hexists
    rw [Option.isNone_none, if_pos rfl, if_pos (by rw [hexists]; rfl)]
    exact ⟨rfl, G, hp⟩
  | some l =>
    rw [show (⟨a.ledgerId.uuid⟩ : LedgerId) = a.ledgerId from rfl, hl]
      at hexists
    obtain ⟨hun, hname⟩ := hnew (by rw [hl]; rfl)
    rw [Option.isNone_some, if_neg Bool.false_ne_true,
      if_neg (by rw [hexists]; exact Bool.false_ne_true)]
    refine ⟨rfl, _, ((hp.models.createVertex a.id.uuid ledgerAccount
      ).createEdge a.id.uuid ledgerInLedger a.ledgerId.uuid).writeProps _
      (accountProps a), ?_, hp.stored.newAccount hp.sound g.handle hun
      hname, ?_, hp.cache⟩
    · exact sound_step hp.models hp.sound (.account a hexists)
    · exact ⟨hp.index.key, hp.index.exact⟩

variable {t : Transaction}

omit hp in
/-- The graph's comparison does not see how a transaction was read
back. -/
theorem sameBody_congr {x : Transaction} (h : SameTransaction t x)
    (t' : Transaction) : sameBody x t' = sameBody t t' := by
  have hperm : (x.entries.map bodyKey).Perm (t.entries.map bodyKey) :=
    (h.entries.map bodyKey).symm
  unfold sameBody
  rw [h.ledgerId, h.externalId, h.effectiveAt, h.entries.length_eq]
  simp only [hperm.congr_left]

omit hp in
theorem sameBody_iff {t' : Transaction} :
    sameBody t t' = true ↔ t.ledgerId = t'.ledgerId
      ∧ t.externalId = t'.externalId
      ∧ t.effectiveAtUnixSecs = t'.effectiveAtUnixSecs
      ∧ (t.entries.map bodyKey).Perm (t'.entries.map bodyKey) := by
  unfold sameBody
  constructor
  · intro h
    split at h
    · cases h
    · rename_i hledger
      split at h
      · cases h
      · rename_i hext
        split at h
        · cases h
        · rename_i htime
          split at h
          · cases h
          · exact ⟨not_not.1 hledger, not_not.1 hext, not_not.1 htime, of_decide_eq_true h⟩
  · rintro ⟨hledger, hext, htime, hperm⟩
    have hlength : t.entries.length = t'.entries.length := by
      simpa using hperm.length_eq
    rw [if_neg (not_not.2 hledger), if_neg (not_not.2 hext),
      if_neg (not_not.2 htime), if_neg (not_not.2 hlength)]
    exact decide_eq_true hperm

omit hp in
/-- Both comparisons judge a retry alike where it is comparable, and only
there. -/
theorem sameBody_agree_iff {stored : Transaction}
    (hcur : CurrencyByAccount stored.entries) (hext : stored.externalId = t.externalId) :
    InMemoryLedgerStore.sameBody stored t = sameBody stored t ↔ RetryComparable stored t := by
  rw [Bool.eq_iff_iff, InMemoryLedgerStore.sameBody_iff hcur, sameBody_iff]
  constructor
  · intro hiff hledger
    refine ⟨?_, ?_⟩
    · intro hperm
      exact (hiff.1 ⟨hledger, hperm⟩).2.2.1
    · intro htime hkeys
      exact (hiff.2 ⟨hledger, hext, htime, hkeys⟩).2
  · intro hretry
    constructor
    · rintro ⟨hledger, hperm⟩
      exact ⟨hledger, hext, (hretry hledger).1 hperm, hperm.map _⟩
    · rintro ⟨hledger, -, htime, hkeys⟩
      exact ⟨hledger, (hretry hledger).2 htime hkeys⟩

theorem Pictures.retry {stored : Transaction} {id : TransactionId}
    (hl : m.transactions.lookup id = some stored)
    (hext : stored.externalId = t.externalId) (hretry : RetryComparable stored t) :
    ∃ x, readTx sj ord g.handle id = .ok x
      ∧ InMemoryLedgerStore.sameBody stored t = sameBody x t := by
  have hcur : CurrencyByAccount stored.entries := by
    intro e he e' he' hacc
    obtain ⟨a, ha, hae⟩ := hp.stored.entries id stored hl e he
    obtain ⟨a', ha', hae'⟩ := hp.stored.entries id stored hl e' he'
    rw [hacc, ha'] at ha
    cases ha
    rw [← hae, ← hae']
  obtain ⟨rfl, hgives⟩ := hp.stored.transaction id stored hl
  obtain ⟨x, hread, hsame⟩ := hgives.readTx hp.models.represents ord
  refine ⟨x, hread, ?_⟩
  rw [sameBody_congr hsame]
  exact (sameBody_agree_iff hcur hext).2 hretry

theorem Pictures.persist (hr : ReachesPersist m t)
    (hpersists : Persists sj ord g t) (hun : kindsOf m t.id.uuid = [])
    (ht : Storable sj t) :
    Matched sj (.ok t.id, m.persist t) (persist sj ord g t) := by
  have hfresh : G.typesOf t.id.uuid = [] := (hp.stored.types _).trans hun
  have hnew := hp.sound.fromId_ne hfresh
  obtain ⟨g', G', le, es, hpersist, -, h', heff, hfilled⟩ := persist_apart sj
    ord hp.models ht.apart fun e he _ _ hc => hnew e he hc.1
  rw [hpersist]
  refine ⟨rfl, G', h', ?_, ?_, ?_, ?_⟩
  · exact sound_step hp.models hp.sound (.post t G' le es hpersists heff)
  · refine hp.stored.post hp.sound heff hfilled hun ht ?_
    intro e he
    obtain ⟨a, ha, -, hcur⟩ := InMemoryLedgerStore.validateEntry_ok.1 (hr.2.2 e he)
    exact ⟨a, ha, hcur⟩
  · refine InMemoryLedgerStore.indexExact_persist hp.index ?_ hr
    intro _ t₀ hl
    rw [show t.id = (⟨t.id.uuid⟩ : TransactionId) from rfl, (unused_iff.1 hun).2.2] at hl
    cases hl
  · intro ext
    rw [InMemoryLedgerStore.lookup_persist_index]
    show (cacheAfter g t).lookup ext = _
    unfold cacheAfter
    cases hext : t.externalId with
    | none => exact hp.cache ext
    | some ext' =>
      show (g.byExternalId.insert ext' t.id).lookup ext = _
      rw [Table.lookup_insert_eq]
      by_cases heq : ext = ext'
      · rw [if_pos heq, if_pos (congrArg some heq.symm)]
      · rw [if_neg heq, if_neg (fun h => heq (Option.some.inj h).symm)]
        exact hp.cache ext

theorem Pictures.postTransaction (hn : NamesKind m t.ledgerId.uuid ledgerLedger)
    (hpost : (m.ledgers.lookup t.ledgerId).isSome → PostComparable sj m t) :
    Matched sj (m.postTransaction t) (postTransaction sj ord g t) := by
  have hexists := hp.vertexExists ord hn
  rw [show (⟨t.ledgerId.uuid⟩ : LedgerId) = t.ledgerId from rfl] at hexists
  have hcached : g.cached t.externalId = m.indexed t.externalId := by
    unfold GraphLedgerStore.cached InMemoryLedgerStore.indexed
    cases t.externalId with
    | none => rfl
    | some ext => exact hp.cache ext
  cases hl : m.ledgers.lookup t.ledgerId with
  | none =>
    rw [hl] at hexists
    unfold InMemoryLedgerStore.postTransaction GraphLedgerStore.postTransaction
    rw [hl, Option.isNone_none, if_pos rfl, if_pos (by rw [hexists]; rfl)]
    exact ⟨rfl, G, hp⟩
  | some l =>
    have hpost := hpost (by rw [hl]; rfl)
    rw [hl] at hexists
    unfold PostComparable at hpost
    cases hix : m.indexed t.externalId with
    | some id =>
      rw [hix] at hpost hcached
      obtain ⟨ext, hext, hindexed⟩ := Option.bind_eq_some_iff.1 hix
      obtain ⟨stored, hstored, hsext⟩ :=
        (hp.index.exact ext id).1 hindexed
      obtain ⟨x, hread, hbody⟩ := hp.retry ord hstored
        (hsext.trans hext.symm) (hpost stored hstored)
      unfold InMemoryLedgerStore.postTransaction GraphLedgerStore.postTransaction
      rw [hl, Option.isNone_some, if_neg Bool.false_ne_true,
        if_neg (by rw [hexists]; exact Bool.false_ne_true), hix, hcached]
      simp only [hstored, hread, hbody]
      split
      · exact ⟨rfl, G, hp⟩
      · exact ⟨rfl, G, hp⟩
    | none =>
      rw [hix] at hpost hcached
      obtain ⟨hnames, hpersist⟩ := hpost
      have hchecks : t.entries.forM (GraphLedgerStore.validateEntry sj ord
          g.handle t.ledgerId)
          = t.entries.forM (m.validateEntry t.ledgerId) :=
        forM_congr fun e he => hp.validateEntry ord (hnames e he)
      cases hvalid : t.entries.forM (m.validateEntry t.ledgerId) with
      | error e =>
        unfold InMemoryLedgerStore.postTransaction GraphLedgerStore.postTransaction
        rw [hl, Option.isNone_some, if_neg Bool.false_ne_true,
          if_neg (by rw [hexists]; exact Bool.false_ne_true), hix,
          hcached]
        simp only [hchecks, hvalid]
        exact ⟨rfl, G, hp⟩
      | ok u =>
        have hr : ReachesPersist m t :=
          ⟨by rw [hl]; rfl, hix, forM_ok_iff.1 hvalid⟩
        have hpersists : Persists sj ord g t :=
          ⟨hexists, hcached, forM_ok_iff.1 (hchecks.trans hvalid)⟩
        obtain ⟨hun, ht⟩ := hpersist hr
        rw [postTransaction_of_persists hpersists]
        rcases InMemoryLedgerStore.postTransaction_cases m t with
          ⟨-, heq⟩ | ⟨hnot, -⟩
        · rw [heq]
          exact hp.persist ord hr hpersists hun ht
        · exact absurd hr hnot

def MovesTo (target : Status) (method : Transaction → Except Error Transaction) : Prop :=
  ∀ t, method t = if t.status = .pending then .ok { t with status := target }
    else .error (.terminalState t.id.toString t.status)

omit hp in
theorem post_movesTo : MovesTo .posted Transaction.post := by
  intro t
  unfold Transaction.post
  cases hst : t.status <;> rfl

omit hp in
theorem archive_movesTo : MovesTo .archived Transaction.archive := by
  intro t
  unfold Transaction.archive
  cases hst : t.status <;> rfl

theorem Pictures.transition {target : Status} {method : Transaction → Except Error Transaction}
    (hm : MovesTo target method) (c : Call) {id : TransactionId}
    (hn : NamesKind m id.uuid ledgerTx) :
    Matched sj (InMemoryLedgerStore.transition method m id)
      (transition sj ord g method id) := by
  have hlookup := hp.lookupTx ord hn
  unfold InMemoryLedgerStore.transition GraphLedgerStore.transition
  cases hl : m.transactions.lookup id with
  | none =>
    rw [hl] at hlookup
    simp only [hlookup]
    exact ⟨rfl, G, hp⟩
  | some t =>
    rw [hl] at hlookup
    obtain ⟨x, hread, hsame⟩ := hlookup
    simp only [hread, hm t, hm x, ← hsame.status, ← hsame.id]
    by_cases hst : t.status = .pending
    · simp only [if_pos hst]
      refine ⟨rfl, _, hp.models.setEntityProperty sj ord
        (fun n hn => by cases hn) _ _, ?_, hp.stored.status hl target,
        InMemoryLedgerStore.indexExact_settle hp.index hl, hp.cache⟩
      exact sound_step hp.models hp.sound (.status c id x
        { x with status := target } (lookupTx_ok.1 hread))
    · simp only [if_neg hst]
      exact ⟨rfl, G, hp⟩

theorem Pictures.transaction_of_vertex {v : Vertex}
    (hv : v ∈ GraphHandle.verticesOfType ord g.handle ledgerTx) :
    ∃ t, m.transactions.lookup ⟨v.id⟩ = some t := by
  refine Option.isSome_iff_exists.1 (mem_kindsOf_transaction.1 ?_)
  rw [← hp.stored.types, G.mem_typesOf, ← hp.models.represents.type_mem]
  unfold GraphHandle.verticesOfType GraphHandle.verticesOfTypeIn at hv
  obtain ⟨f, hf, hrow⟩ := List.mem_filterMap.1 hv
  obtain ⟨hf, htype⟩ := List.mem_filter.1 ((RowOrder.mem_order ord).1 hf)
  cases f with
  | type i t =>
    cases hrow
    rw [decide_eq_true_eq] at htype
    rw [← htype]
    exact hf
  | edgeFrom => cases hrow
  | edgeTo => cases hrow
  | edgeType => cases hrow
  | prop => cases hrow

theorem Pictures.walkExternalId {ext : String} (hl : m.byExternalId.lookup ext = none) :
    walkExternalId sj ord g.handle ext = none := by
  unfold GraphLedgerStore.walkExternalId
  rw [Option.map_eq_none_iff, List.find?_eq_none]
  intro v hv hext
  rw [decide_eq_true_eq] at hext
  obtain ⟨t, ht⟩ := hp.transaction_of_vertex ord hv
  obtain ⟨hid, hgives⟩ := hp.stored.transaction _ t ht
  have hstr : G.str sj (.vertex v.id) .externalId = some ext := by
    rw [← jsonOptString_eq ord hp.models.represents]
    exact hext
  have hindexed := (hp.index.exact ext _).2 ⟨t, ht, by
    rw [← hgives.externalId, hid]
    exact hstr⟩
  rw [hl] at hindexed
  cases hindexed

theorem Pictures.findByExternalId (ext : String) :
    Alike (.ok (.found (m.findByExternalId ext))) ((findByExternalId sj ord g ext).1.map .found)
      ∧ (findByExternalId sj ord g ext).2 = g := by
  have hcache := hp.cache ext
  unfold InMemoryLedgerStore.findByExternalId GraphLedgerStore.findByExternalId
  rw [hcache]
  cases hl : m.byExternalId.lookup ext with
  | none =>
    simp only [hp.walkExternalId ord hl]
    exact ⟨rfl, trivial⟩
  | some id =>
    obtain ⟨t, ht, -⟩ := (hp.index.exact ext id).1 hl
    obtain ⟨rfl, hgives⟩ := hp.stored.transaction id t ht
    obtain ⟨x, hread, hsame⟩ := hgives.readTx hp.models.represents ord
    simp only [Option.bind_some, ht, hread]
    exact ⟨hsame, trivial⟩

theorem Pictures.balance {a : AccountId} (hn : NamesKind m a.uuid ledgerAccount)
    (hr : ∀ acc, m.accounts.lookup a = some acc →
      Overflows m a ∨ InRange m acc) (walk : RowOrder Transaction) :
    m.balance (walk.order (Table.values m.transactions)) a = balance sj ord g a := by
  cases hl : m.accounts.lookup a with
  | none =>
    have hlookup := hp.lookupAccount ord hn
    rw [hl] at hlookup
    unfold InMemoryLedgerStore.balance GraphLedgerStore.balance
    rw [hl, hlookup]
    rfl
  | some acc =>
    have hid := (hp.stored.account a acc hl).1
    subst hid
    exact balance_eq hp.models.represents hp.stored hl (hr acc hl) (walk.perm _) ord

end

-- ==== the theorem

theorem SameTransaction.refl (t : Transaction) : SameTransaction t t :=
  ⟨rfl, rfl, rfl, rfl, rfl, .refl _⟩

theorem alike_refl (x : Except Error Answer) : Alike x x := by
  cases x with
  | error e => exact rfl
  | ok x =>
    cases x with
    | found t =>
      cases t with
      | none => exact rfl
      | some t => exact SameTransaction.refl t
    | _ => exact rfl

variable {sj : SerdeJson}

theorem Matched.alike {α : Type} {f : α → Answer} {x : Except Error α × InMemoryLedgerStore}
    {y : Except Error α × GraphLedgerStore} (h : Matched sj x y) :
    (∃ G, Pictures sj ⟨x.2, y.2⟩ G) ∧ Alike (x.1.map f) (y.1.map f) := by
  refine ⟨h.pictures, ?_⟩
  rw [h.answer]
  exact alike_refl _

theorem pictures_step (s : Stores) (r : Request) (hi : ∃ G, Pictures sj s G)
    (hc : Comparable sj s r) :
    (∃ G, Pictures sj (s.step sj r) G) ∧ AnswersAlike sj s r := by
  obtain ⟨G, hp⟩ := hi
  obtain ⟨m, g⟩ := s
  obtain ⟨call, walk, rows⟩ := r
  cases call with
  | createLedger l => exact (hp.createLedger rows hc).alike
  | createAccount a => exact (hp.createAccount rows hc.1 hc.2).alike
  | postTransaction t => exact (hp.postTransaction rows hc.1 hc.2).alike
  | markPosted id =>
    exact (hp.transition rows post_movesTo (.markPosted id) hc).alike
  | markArchived id =>
    exact (hp.transition rows archive_movesTo (.markArchived id) hc).alike
  | balance a =>
    refine ⟨⟨G, hp⟩, ?_⟩
    unfold AnswersAlike memoryAnswer graphAnswer
    simp only [hp.balance rows hc.1 hc.2 walk]
    exact alike_refl _
  | findByExternalId ext =>
    obtain ⟨halike, hsame⟩ := hp.findByExternalId rows ext
    refine ⟨⟨G, ?_⟩, halike⟩
    unfold Stores.step memoryAnswer graphAnswer
    simp only [hsame]
    exact hp

/-- **The two stores answer every call of a comparable run alike.** -/
theorem stores_alike (sj : SerdeJson) (requests : List Request)
    (hrun : Along (Stores.step sj) (Comparable sj) .empty requests) :
    Along (Stores.step sj) (AnswersAlike sj) .empty requests :=
  along_of_invariant pictures_step ⟨.empty, pictures_empty⟩ hrun

-- ==== a retried sale

namespace Setup

open InMemoryLedgerStore.Setup (ledger cash revenue saleTransaction)

def request (call : TraitCall) : Request :=
  { call, walk := .asserted, rows := .asserted }

/-- The fixture of the tests, put to both stores. -/
def requests : List Request :=
  [request (.createLedger ledger), request (.createAccount cash),
    request (.createAccount revenue)]

def openOrder (id time : Nat) : Transaction :=
  { saleTransaction id .pending 100 with
    externalId := some "ord-7"
    effectiveAtUnixSecs := time }

def retriedOrder : List Request :=
  requests ++ [request (.postTransaction (openOrder 10 100)),
    request (.postTransaction (openOrder 11 100)),
    request (.markPosted ⟨⟨10⟩⟩), request (.findByExternalId "ord-7"),
    request (.balance cash.id)]

/-- The sale is booked. -/
def firstTry : List Request :=
  requests ++ [request (.postTransaction (openOrder 10 100))]

def laterRetry : Request := request (.postTransaction (openOrder 11 200))

def booking (id : Nat) (from_ to_ : AccountId) (amount : I64) : Transaction :=
  { id := ⟨⟨id⟩⟩, ledgerId := ledger.id, status := .posted
    externalId := none, description := none, effectiveAtUnixSecs := 100
    entries := [.debit to_ ⟨amount, .USD⟩, .credit from_ ⟨amount, .USD⟩]
    metadata := [] }

def leastBooking : Transaction :=
  booking 10 revenue.id cash.id ⟨-9223372036854775808, I64.minValue.inRange⟩

def unitBooking : Transaction :=
  booking 11 cash.id revenue.id ⟨1, by decide⟩

def atTheLimit : List Request :=
  requests ++ [request (.postTransaction leastBooking), request (.postTransaction unitBooking)]

def cashBalance : Request := request (.balance cash.id)

end Setup

/-- The retried sale is a comparable run, answered alike. -/
theorem stores_alike_retriedOrder :
    Along (Stores.step Setup.emptyJson) (AnswersAlike Setup.emptyJson) .empty
      Setup.retriedOrder := by
  have hlegible : ∀ s, Plain s → Legible Setup.emptyJson s := by
    intro s hs
    unfold Legible
    rw [mgToJson_string _ hs]
    exact nofun
  refine stores_alike Setup.emptyJson Setup.retriedOrder ⟨by rfl,
    ⟨by decide, fun _ => ⟨by rfl, hlegible _ (by decide)⟩⟩,
    ⟨by decide, fun _ => ⟨by rfl, hlegible _ (by decide)⟩⟩,
    ⟨by decide, fun _ => ⟨by decide, fun _ => ⟨by rfl, ?_⟩⟩⟩,
    ⟨by decide, fun _ => ?_⟩, ?_, trivial, ⟨by decide, ?_⟩, trivial⟩
  · refine ⟨List.cons_ne_nil _ _, by decide, by decide, ?_⟩
    rintro ext ⟨⟩
    rw [mgToJson_string _ (by decide)]
    rfl
  · rintro stored ⟨⟩ _
    exact ⟨fun _ => rfl, fun _ _ => .refl _⟩
  · show NamesKind _ _ _
    decide
  · rintro acc ⟨⟩
    refine Or.inr ⟨?_, ?_, ?_⟩
    · intro d
      cases d <;> exact ⟨by decide, by decide⟩
    · decide
    · decide

theorem not_along_of_differ {requests : List Request} {r : Request}
    (h : ¬ AnswersAlike sj (Stores.run sj .empty requests) r) :
    ¬ Along (Stores.step sj) (AnswersAlike sj) .empty (requests ++ [r]) :=
  fun halong => h (along_append.1 halong).2.1

open InMemoryLedgerStore.Setup (ledger cash revenue sale) in
/-- A sale retried at a later time is a replay to the in-memory store and
a mismatch to the graph store; a difference below the least amount is an
overflow to the first and the least amount to the second. All ids are
fresh, all transactions built by the constructors. -/
theorem stores_differ :
    ((Setup.openOrder 10 100).Built ∧ (Setup.openOrder 11 200).Built
      ∧ (memoryAnswer (Stores.run Setup.emptyJson .empty Setup.firstTry
        ).memory Setup.laterRetry).1 = .ok (.transaction ⟨⟨10⟩⟩)
      ∧ (graphAnswer Setup.emptyJson (Stores.run Setup.emptyJson .empty
        Setup.firstTry).graph Setup.laterRetry).1
        = .error .idempotencyMismatch
      ∧ ¬ Along (Stores.step Setup.emptyJson)
        (AnswersAlike Setup.emptyJson) .empty
        (Setup.firstTry ++ [Setup.laterRetry]))
    ∧ Setup.leastBooking.Built ∧ Setup.unitBooking.Built
      ∧ (memoryAnswer (Stores.run Setup.emptyJson .empty Setup.atTheLimit
        ).memory Setup.cashBalance).1 = .error (.core .overflow)
      ∧ (graphAnswer Setup.emptyJson (Stores.run Setup.emptyJson .empty
        Setup.atTheLimit).graph Setup.cashBalance).1
        = .ok (.balance
          { currency := .USD
            posted := ⟨⟨-9223372036854775808, by decide⟩, .USD⟩
            pending := ⟨⟨-9223372036854775808, by decide⟩, .USD⟩ })
      ∧ ¬ Along (Stores.step Setup.emptyJson)
        (AnswersAlike Setup.emptyJson) .empty
        (Setup.atTheLimit ++ [Setup.cashBalance]) := by
  have hmemory : (memoryAnswer (Stores.run Setup.emptyJson .empty
      Setup.firstTry).memory Setup.laterRetry).1
      = .ok (.transaction ⟨⟨10⟩⟩) := by rfl
  have hgraph : (graphAnswer Setup.emptyJson (Stores.run Setup.emptyJson
      .empty Setup.firstTry).graph Setup.laterRetry).1
      = .error .idempotencyMismatch := by rfl
  have hmemory' : (memoryAnswer (Stores.run Setup.emptyJson .empty
      Setup.atTheLimit).memory Setup.cashBalance).1
      = .error (.core .overflow) := by rfl
  have hgraph' : (graphAnswer Setup.emptyJson (Stores.run Setup.emptyJson
      .empty Setup.atTheLimit).graph Setup.cashBalance).1
      = .ok (.balance
        { currency := .USD
          posted := ⟨⟨-9223372036854775808, by decide⟩, .USD⟩
          pending := ⟨⟨-9223372036854775808, by decide⟩, .USD⟩ }) := by rfl
  refine ⟨⟨?_, ?_, hmemory, hgraph, not_along_of_differ ?_⟩, ?_, ?_,
    hmemory', hgraph', not_along_of_differ ?_⟩
  · exact .withExternalId "ord-7" (.newPending (show Transaction.newPending
      ⟨⟨10⟩⟩ ledger.id 100 (sale ⟨100, by decide⟩)
      = .ok { Setup.openOrder 10 100 with externalId := none } by decide))
  · exact .withExternalId "ord-7" (.newPending (show Transaction.newPending
      ⟨⟨11⟩⟩ ledger.id 200 (sale ⟨100, by decide⟩)
      = .ok { Setup.openOrder 11 200 with externalId := none } by decide))
  · unfold AnswersAlike
    rw [hmemory, hgraph]
    exact id
  · exact .newPosted (show Transaction.newPosted Setup.leastBooking.id
      ledger.id 100 Setup.leastBooking.entries = .ok _ by decide)
  · exact .newPosted (show Transaction.newPosted Setup.unitBooking.id
      ledger.id 100 Setup.unitBooking.entries = .ok _ by decide)
  · unfold AnswersAlike
    rw [hmemory', hgraph']
    exact id

end OpenStandards.OpGraph

/-
Time travel is faithful while accounts keep what they were created with.

The log only grows, so an `:as-of` query answers from the facts of that
moment whatever was written since (`factsAsOf_run`). `transaction_as_of`
reads nothing else. `balance_as_of` reads the account at the present time:
where an account is created again with another normal balance, its past
changes sign (`recreated_account`). Along runs where a vertex keeps its
kind, an account its normal balance and currency, and a transaction has
entries, both agree with the past (`time_travel`).
-/
import OpenStandards.OpGraph.Proofs.Faithful

namespace OpenStandards.OpGraph

open Lib OpCore OpLedger GraphLedgerStore
open InMemoryLedgerStore (signByNormal)

-- ==== the log

section

variable (sj : SerdeJson)

theorem run_grows (s : GraphLedgerStore) {G : LedgerGraph} (h : Models s.handle G)
    (calls : List (RowOrder (Fact LedgerProp) × Call)) :
    s.handle <+: (run sj s calls).handle := by
  induction calls generalizing s G with
  | nil => exact List.prefix_refl _
  | cons c calls ih =>
    obtain ⟨G', h', hgrows, -⟩ := step_effect h c
    exact hgrows.trans (ih _ h')

theorem factsAsOf_run (before later : List (RowOrder (Fact LedgerProp) × Call)) :
    (run sj newInMemory (before ++ later)).handle.factsAsOf
        (run sj newInMemory before).handle.txCount
      = (run sj newInMemory before).handle.facts := by
  obtain ⟨G, h, -⟩ := sound_run sj before
  obtain ⟨rest, hrest⟩ := run_grows sj _ h later
  unfold GraphLedgerStore.run at hrest ⊢
  rw [run_append, ← hrest]
  exact FactLog.factsAsOf_append ..

end

-- ==== the conditions

def KeepsPast (sj : SerdeJson) (s : GraphLedgerStore)
    (c : RowOrder (Fact LedgerProp) × Call) : Prop :=
  match c.2 with
  | .createLedger l => OfKind s.handle l.id.uuid ledgerLedger
  | .createAccount a => OfKind s.handle a.id.uuid ledgerAccount
      ∧ ∀ old, readAccount sj .asserted s.handle a.id = .ok old →
        a.normalBalance = old.normalBalance ∧ a.currency = old.currency ∧ Legible sj a.name
  | .postTransaction t => OfKind s.handle t.id.uuid ledgerTx
      ∧ t.entries ≠ []
  | _ => True

/-- Vertices of one kind, and transactions with what a post gives them. -/
structure Kinds (G : LedgerGraph) : Prop where
  one : ∀ u, (G.typesOf u).length ≤ 1
  status : ∀ u, ledgerTx ∈ G.typesOf u → G.prop (.vertex u) .status ≠ none
  ledger : ∀ u, ledgerTx ∈ G.typesOf u → G.outEdges u ledgerInLedger ≠ []
  entries : ∀ u, ledgerTx ∈ G.typesOf u → ∃ d, G.outEdges u (entryType d) ≠ []

section

variable {sj : SerdeJson} {ord : RowOrder (Fact LedgerProp)}
  {s : GraphLedgerStore} {G G' : LedgerGraph}

theorem kinds_empty : Kinds .empty :=
  ⟨fun _ => Nat.zero_le 1, nofun, nofun, nofun⟩

theorem typesOf_addVertex_ofKind (hk : Kinds G) {id : Uuid} {t : String}
    (hof : ∀ t' ∈ G.typesOf id, t' = t) (u : Uuid) :
    (G.addVertex id t).typesOf u = if u = id then [t] else G.typesOf u := by
  by_cases hu : u = id
  · subst hu
    rw [if_pos rfl]
    cases htypes : G.typesOf u with
    | nil => exact G.typesOf_addVertex_new htypes t
    | cons x xs =>
      have hx : x = t := hof x (by rw [htypes]; exact List.mem_cons_self ..)
      have hmem : t ∈ G.typesOf u := by
        rw [htypes, hx]
        exact List.mem_cons_self ..
      rw [G.addVertex_of_mem (G.mem_typesOf.1 hmem), typesOf_eq_of_mem (hk.one _) hmem]
  · rw [if_neg hu, G.typesOf_addVertex_of_ne hu]

theorem Kinds.grow (hk : Kinds G) (hone : ∀ u, (G'.typesOf u).length ≤ 1)
    (htx : ∀ u, ledgerTx ∈ G'.typesOf u → ledgerTx ∈ G.typesOf u
      ∨ G'.prop (.vertex u) .status ≠ none
        ∧ G'.outEdges u ledgerInLedger ≠ []
        ∧ ∃ d, G'.outEdges u (entryType d) ≠ [])
    (hstatus : ∀ u, G.prop (.vertex u) .status ≠ none → G'.prop (.vertex u) .status ≠ none)
    (hedges : ∀ e ∈ G.edges, e ∈ G'.edges) : Kinds G' := by
  have hout : ∀ u et, G.outEdges u et ≠ [] → G'.outEdges u et ≠ [] := by
    intro u et hne
    obtain ⟨e, he⟩ := List.exists_mem_of_ne_nil _ hne
    obtain ⟨he, hp⟩ := List.mem_filter.1 he
    exact List.ne_nil_of_mem (List.mem_filter.2 ⟨hedges e he, hp⟩)
  refine ⟨hone, ?_, ?_, ?_⟩
  · intro u hu
    rcases htx u hu with hold | hnew
    · exact hstatus u (hk.status u hold)
    · exact hnew.1
  · intro u hu
    rcases htx u hu with hold | hnew
    · exact hout u _ (hk.ledger u hold)
    · exact hnew.2.1
  · intro u hu
    rcases htx u hu with hold | hnew
    · obtain ⟨d, hd⟩ := hk.entries u hold
      exact ⟨d, hout u _ hd⟩
    · exact hnew.2.2

/-- A vertex written under another kind than a transaction's. -/
theorem Kinds.addVertex (hk : Kinds G) {id : Uuid} {t : String}
    (hof : ∀ t' ∈ G.typesOf id, t' = t) (htypes : ∀ u, G'.typesOf u
      = (G.addVertex id t).typesOf u) :
    (∀ u, (G'.typesOf u).length ≤ 1)
      ∧ ∀ u, ledgerTx ∈ G'.typesOf u → ledgerTx ∈ G.typesOf u ∨ u = id ∧ t = ledgerTx := by
  simp only [htypes, typesOf_addVertex_ofKind hk hof]
  refine ⟨?_, ?_⟩
  · intro u
    by_cases hu : u = id
    · rw [if_pos hu]
      exact le_refl _
    · rw [if_neg hu]
      exact hk.one u
  · intro u hmem
    by_cases hu : u = id
    · rw [if_pos hu, List.mem_singleton] at hmem
      exact Or.inr ⟨hu, hmem.symm⟩
    · rw [if_neg hu] at hmem
      exact Or.inl hmem

theorem kinds_step (h : Models s.handle G) (hk : Kinds G)
    {c : RowOrder (Fact LedgerProp) × Call} (hc : KeepsPast sj s c)
    (heff : StepEffect sj c.1 s G c.2 G') : Kinds G' := by
  obtain ⟨ord, c⟩ := c
  cases heff with
  | idle => exact hk
  | ledger l =>
    obtain ⟨hone, htx⟩ := hk.addVertex
      ((ofKind_iff h.represents hk.one).1 hc)
      (typesOf_congr (PropertyGraph.types_setProps ..))
    refine hk.grow hone ?_ ?_ ?_
    · intro u hu
      rcases htx u hu with hold | ⟨-, heq⟩
      · exact Or.inl hold
      · exact absurd heq (by decide)
    · intro u hu
      rw [PropertyGraph.prop_setProps_of_not_mem _ (by simp [ledgerProps])]
      exact hu
    · intro e he
      rw [PropertyGraph.edges_setProps]
      exact he
  | account a hledger =>
    obtain ⟨hone, htx⟩ := hk.addVertex
      ((ofKind_iff h.represents hk.one).1 hc.1)
      (typesOf_congr (PropertyGraph.types_setProps
        ((G.addVertex a.id.uuid ledgerAccount).addEdge
          (accountEdge s.handle a)) sj (.vertex a.id.uuid)
        (accountProps a)))
    refine hk.grow hone ?_ ?_ ?_
    · intro u hu
      rcases htx u hu with hold | ⟨-, heq⟩
      · exact Or.inl hold
      · exact absurd heq (by decide)
    · intro u hu
      rw [PropertyGraph.prop_setProps_of_not_mem _ (by simp [accountProps])]
      exact hu
    · intro e he
      rw [PropertyGraph.edges_setProps]
      exact List.mem_append_left _ he
  | post t _ le es hp heff =>
    obtain ⟨hone, htx⟩ := hk.addVertex
      ((ofKind_iff h.represents hk.one).1 hc.1) (typesOf_congr heff.types)
    have hstatus : G'.prop (.vertex t.id.uuid) .status ≠ none := by
      rw [heff.txProps (.status, _) List.mem_cons_self]
      exact Option.some_ne_none _
    refine hk.grow hone ?_ ?_ ?_
    · intro u hu
      rcases htx u hu with hold | ⟨rfl, -⟩
      · exact Or.inl hold
      · right
        refine ⟨hstatus, ?_, ?_⟩
        · refine List.ne_nil_of_mem (List.mem_filter.2 ⟨?_,
            decide_eq_true ⟨heff.ledger.1, heff.ledger.2.1⟩⟩)
          rw [heff.edges]
          exact List.mem_append_right _ List.mem_cons_self
        · obtain ⟨entry, hentry⟩ := List.exists_mem_of_ne_nil _ hc.2
          obtain ⟨e, he, hcarries⟩ := exists_of_forall₂ heff.carried.flip hentry
          refine ⟨entry.direction, List.ne_nil_of_mem (List.mem_filter.2
            ⟨?_, decide_eq_true ⟨hcarries.1, hcarries.2.1⟩⟩)⟩
          rw [heff.edges]
          exact List.mem_append_right _ (List.mem_cons_of_mem _ he)
    · intro u hu
      by_cases hid : u = t.id.uuid
      · rw [hid]
        exact hstatus
      · rw [heff.vertexProps u _ (Or.inl hid)]
        exact hu
    · intro e he
      rw [heff.edges]
      exact List.mem_append_left _ he
  | status _ id x x' hread =>
    refine hk.grow hk.one (fun u hu => Or.inl hu) ?_ (fun e he => he)
    intro u hu
    rw [PropertyGraph.prop_setProp]
    split
    · exact Option.some_ne_none _
    · exact hu

-- ==== accounts keep their data

structure Holds (sj : SerdeJson) (G : LedgerGraph) (a : AccountId)
    (normal : NormalBalance) (currency : Currency) : Prop where
  types : G.typesOf a.uuid = [ledgerAccount]
  account : ∃ acc, acc.id = a ∧ AccountAt sj G acc
    ∧ acc.normalBalance = normal ∧ acc.currency = currency
  ledger : G.outEdges a.uuid ledgerInLedger ≠ []

variable {a : AccountId} {normal : NormalBalance} {currency : Currency}

theorem holds_of_readAccount {g : GraphHandle LedgerProp}
    (h : Represents g.facts G) (hk : Kinds G) {acc : Account}
    (hread : readAccount sj ord g a = .ok acc) :
    Holds sj G a acc.normalBalance acc.currency := by
  obtain ⟨hid, ⟨v, hv⟩, hat, e, he, -⟩ := (readAccount_ok h).1 hread
  exact ⟨typesOf_eq_of_mem (hk.one _) (getTypedVertex_ok h hv), ⟨acc, hid, hat, rfl, rfl⟩,
    List.ne_nil_of_mem (head?_outEdges h he)⟩

theorem Holds.readAccount {g : GraphHandle LedgerProp}
    (h : Represents g.facts G) (hh : Holds sj G a normal currency)
    (ord : RowOrder (Fact LedgerProp)) :
    ∃ acc, GraphLedgerStore.readAccount sj ord g a = .ok acc
      ∧ acc.normalBalance = normal ∧ acc.currency = currency := by
  obtain ⟨acc, rfl, hat, hn, hc⟩ := hh.account
  obtain ⟨e, he⟩ := exists_head?_outEdges ord h hh.ledger
  have htyped := getTypedVertex_of_single ord h hh.types ledgerAccount
  rw [if_neg (fun hne => hne rfl)] at htyped
  exact ⟨{ acc with ledgerId := ⟨e.toId⟩ }, (readAccount_ok h).2
    ⟨rfl, ⟨_, htyped⟩, ⟨hat.name, hat.accountClass, hat.normalBalance,
      hat.currency, hat.externalId⟩, e, he, rfl⟩, hn, hc⟩

/-- What is written to other vertices leaves an account alone. -/
theorem Holds.frame (hh : Holds sj G a normal currency)
    (htypes : G'.typesOf a.uuid = G.typesOf a.uuid)
    (hprops : ∀ p, G'.prop (.vertex a.uuid) p = G.prop (.vertex a.uuid) p)
    (hedges : ∀ e ∈ G.edges, e ∈ G'.edges) :
    Holds sj G' a normal currency := by
  refine ⟨htypes.trans hh.types, ?_, ?_⟩
  · obtain ⟨acc, rfl, hat, hn, hc⟩ := hh.account
    exact ⟨acc, rfl, hat.congr hprops, hn, hc⟩
  · obtain ⟨e, he⟩ := List.exists_mem_of_ne_nil _ hh.ledger
    obtain ⟨he, hp⟩ := List.mem_filter.1 he
    exact List.ne_nil_of_mem (List.mem_filter.2 ⟨hedges e he, hp⟩)

theorem Holds.ne_of_kind (hh : Holds sj G a normal currency) {u : Uuid}
    {kind : String} (hof : ∀ t ∈ G.typesOf u, t = kind)
    (hkind : kind ≠ ledgerAccount) : a.uuid ≠ u := by
  rintro rfl
  refine hkind (hof ledgerAccount ?_).symm
  rw [hh.types]
  exact List.mem_cons_self ..

theorem holds_step (h : Models s.handle G) (hk : Kinds G)
    {c : RowOrder (Fact LedgerProp) × Call} (hc : KeepsPast sj s c)
    (heff : StepEffect sj c.1 s G c.2 G')
    (hh : Holds sj G a normal currency) : Holds sj G' a normal currency := by
  obtain ⟨ord, c⟩ := c
  cases heff with
  | idle => exact hh
  | ledger l =>
    have hne := hh.ne_of_kind ((ofKind_iff h.represents hk.one).1 hc) (by decide)
    refine hh.frame ?_ ?_ ?_
    · rw [typesOf_congr (PropertyGraph.types_setProps ..)]
      exact G.typesOf_addVertex_of_ne hne _
    · intro p
      exact PropertyGraph.prop_setProps_of_ne _ (fun heq => hne (Entity.vertex.inj heq)) _ p
    · intro e he
      rw [PropertyGraph.edges_setProps]
      exact he
  | account acc hledger =>
    by_cases hid : a.uuid = acc.id.uuid
    · -- created again, with the data it has
      have ha : acc.id = a := by
        cases a
        cases hacc : acc.id
        rw [hacc] at hid
        exact congrArg AccountId.mk hid.symm
      subst ha
      obtain ⟨old, hold, hn, hcur⟩ := hh.readAccount h.represents .asserted
      obtain ⟨hn', hcur', hname⟩ := hc.2 old hold
      obtain ⟨name, hname⟩ := Option.ne_none_iff_exists'.1 hname
      refine ⟨?_, ⟨_, ?_, accountAt_of_props ?_ hname, hn'.trans hn, hcur'.trans hcur⟩, ?_⟩
      · rw [typesOf_congr (PropertyGraph.types_setProps ..)]
        have hmem : ledgerAccount ∈ G.typesOf acc.id.uuid := by
          rw [hh.types]
          exact List.mem_cons_self ..
        rw [typesOf_congr (PropertyGraph.types_addEdge ..),
          G.addVertex_of_mem (G.mem_typesOf.1 hmem)]
        exact hh.types
      · rfl
      · intro p hp
        exact PropertyGraph.prop_setProps_of_mem _ (nodup_accountProps acc) hp
      · obtain ⟨e, he⟩ := List.exists_mem_of_ne_nil _ hh.ledger
        obtain ⟨he, hp⟩ := List.mem_filter.1 he
        refine List.ne_nil_of_mem (List.mem_filter.2 ⟨?_, hp⟩)
        rw [PropertyGraph.edges_setProps]
        exact List.mem_append_left _ he
    · refine hh.frame ?_ ?_ ?_
      · rw [typesOf_congr (PropertyGraph.types_setProps ..)]
        exact G.typesOf_addVertex_of_ne hid _
      · intro p
        exact PropertyGraph.prop_setProps_of_ne _ (fun heq => hid (Entity.vertex.inj heq)) _ p
      · intro e he
        rw [PropertyGraph.edges_setProps]
        exact List.mem_append_left _ he
  | post t _ le es hp heff =>
    have hne := hh.ne_of_kind ((ofKind_iff h.represents hk.one).1 hc.1) (by decide)
    refine hh.frame ?_ (fun p => heff.vertexProps _ p (Or.inl hne)) ?_
    · rw [typesOf_congr heff.types]
      exact G.typesOf_addVertex_of_ne hne _
    · intro e he
      rw [heff.edges]
      exact List.mem_append_left _ he
  | status _ id x x' hread =>
    obtain ⟨-, ⟨v, hv⟩, -⟩ := readTx_ok h.represents hread
    have htypes := typesOf_eq_of_mem (hk.one _) (getTypedVertex_ok h.represents hv)
    have hne : a.uuid ≠ id.uuid := by
      refine hh.ne_of_kind ?_ (show ledgerTx ≠ ledgerAccount by decide)
      intro t ht
      rw [htypes] at ht
      exact List.mem_singleton.1 ht
    exact hh.frame rfl (fun p => PropertyGraph.prop_setProp_of_ne _
      (fun heq => hne (Entity.vertex.inj heq)) ..) (fun e he => he)

-- ==== transactions

/-- How the trait reports a reader's failure to find a transaction. -/
def orNotFound {α : Type} (id : TransactionId) : Except GraphError α → Except Error α
  | .ok x => .ok x
  | .error (.vertexNotFound _ _) => .error (.transactionNotFound id.toString)
  | .error other => .error other.toLedger

theorem lookupTx_eq (g : GraphHandle LedgerProp) (id : TransactionId) :
    lookupTx sj ord g id = orNotFound id (readTx sj ord g id) := by
  unfold lookupTx orNotFound
  cases readTx sj ord g id with
  | ok x => rfl
  | error e => cases e <;> rfl

/-- The reading is not stopped by a missing vertex. -/
def FindsVertex {α : Type} (x : Except GraphError α) : Prop :=
  ∀ vt u, x ≠ .error (.vertexNotFound vt u)

variable {α β : Type}

theorem orNotFound_bind {x : Except GraphError α} (hx : FindsVertex x)
    (id : TransactionId) (f : α → Except GraphError β) :
    orNotFound id (x >>= f)
      = x.mapError GraphError.toLedger >>= fun y => orNotFound id (f y) := by
  cases x with
  | ok y => rfl
  | error e =>
    cases e with
    | vertexNotFound vt u => exact absurd rfl (hx vt u)
    | vertexTypeMismatch => rfl
    | propertyTypeMismatch => rfl
    | invariant => rfl
    | invalidInput => rfl

theorem findsVertex_bind {x : Except GraphError α}
    {f : α → Except GraphError β} (hx : FindsVertex x)
    (hf : ∀ y, FindsVertex (f y)) : FindsVertex (x >>= f) := by
  cases x with
  | ok y => exact hf y
  | error e =>
    intro vt u heq
    exact hx vt u (congrArg _ (Except.error.inj heq))

theorem findsVertex_jsonString (props : LedgerProps) (key : LedgerProp) :
    FindsVertex (jsonString props key) := by
  intro vt u heq
  unfold jsonString at heq
  split at heq <;> cases heq

theorem findsVertex_jsonU64 (props : LedgerProps) (key : LedgerProp) :
    FindsVertex (jsonU64 props key) := by
  intro vt u heq
  unfold jsonU64 at heq
  split at heq <;> cases heq

theorem findsVertex_jsonI64 (props : LedgerProps) (key : LedgerProp) :
    FindsVertex (jsonI64 props key) := by
  intro vt u heq
  unfold jsonI64 at heq
  split at heq <;> cases heq

theorem findsVertex_parseStatus (s : String) : FindsVertex (parseStatus s) := by
  intro vt u heq
  unfold parseStatus at heq
  split at heq <;> cases heq

theorem findsVertex_currencyFromProps (code : String) (n : Nat) :
    FindsVertex (currencyFromProps code n) := by
  intro vt u heq
  unfold currencyFromProps at heq
  split at heq
  case h_8 =>
    split at heq
    · cases heq
    · split at heq
      · split at heq <;> cases heq
      · cases heq
  all_goals cases heq

theorem findsVertex_entryOfProps (props : LedgerProps) (e : Edge)
    (d : Direction) : FindsVertex (entryOfProps props e d) :=
  findsVertex_bind (findsVertex_jsonI64 _ _) fun _ =>
    findsVertex_bind (findsVertex_jsonString _ _) fun _ =>
      findsVertex_bind (findsVertex_jsonU64 _ _) fun _ =>
        findsVertex_bind (findsVertex_currencyFromProps _ _) fun _ => nofun

theorem findsVertex_mapM {f : α → Except GraphError β}
    (hf : ∀ x, FindsVertex (f x)) (l : List α) : FindsVertex (l.mapM f) := by
  induction l with
  | nil => exact nofun
  | cons x l ih =>
    rw [List.mapM_cons]
    exact findsVertex_bind (hf x) fun _ =>
      findsVertex_bind ih fun _ => nofun

/-- A transaction as of the moment of a view is the transaction that was
read then. -/
theorem transactionAsOf_eq {s' : GraphLedgerStore} {n : Nat}
    (h : Models s.handle G) (hs : Sound G) (hk : Kinds G)
    {id : TransactionId} (hof : OfKind s.handle id.uuid ledgerTx)
    (hview : s'.handle.factsAsOf n = s.handle.facts) (ord : RowOrder (Fact LedgerProp)) :
    transactionAsOf sj ord s' id n = getTransaction sj ord s id := by
  rw [show getTransaction sj ord s id = orNotFound id
    (readTx sj ord s.handle id) from lookupTx_eq ..]
  unfold transactionAsOf readTx readEntryEdgeAt readEntryEdge
    GraphHandle.getVertexPropertiesAt GraphHandle.getEdgePropertiesAt
    GraphHandle.outEdgesAt GraphHandle.getVertexProperties
    GraphHandle.getEdgeProperties GraphHandle.outEdges
  rw [hview]
  cases htypes : G.typesOf id.uuid with
  | nil =>
    -- nothing was there
    have hempty : (GraphHandle.propertiesIn sj ord s.handle.facts
        (.vertex id.uuid)).isEmpty = true := by
      refine h.represents.propertiesIn_isEmpty.2 ?_
      intro a
      by_contra hp
      exact hs.props id.uuid a hp htypes
    rw [if_pos hempty, getTypedVertex_of_none ord h.represents htypes]
    rfl
  | cons t ts =>
    have hmem : ledgerTx ∈ G.typesOf id.uuid := by
      have ht := (ofKind_iff h.represents hk.one).1 hof t
        (by rw [htypes]; exact List.mem_cons_self ..)
      rw [htypes, ht]
      exact List.mem_cons_self ..
    have htyped := getTypedVertex_of_single ord h.represents
      (typesOf_eq_of_mem (hk.one _) hmem) ledgerTx
    rw [if_neg (fun hne => hne rfl)] at htyped
    obtain ⟨e, he⟩ := exists_head?_outEdges ord h.represents (hk.ledger id.uuid hmem)
    unfold GraphHandle.outEdges at he
    rw [if_neg ?hprops, htyped, ok_bind, orNotFound_bind (findsVertex_jsonString _ _)]
    case hprops =>
      intro hempty
      exact hk.status id.uuid hmem (h.represents.propertiesIn_isEmpty.1 hempty .status)
    congr 1
    funext statusS
    rw [orNotFound_bind (findsVertex_parseStatus _)]
    congr 1
    funext status
    dsimp only
    rw [orNotFound_bind (findsVertex_jsonU64 _ _)]
    congr 1
    funext effective
    simp only [he, ok_bind]
    rw [orNotFound_bind (findsVertex_mapM
      (fun e => findsVertex_entryOfProps _ e _) _), mapM_mapError]
    refine bind_congr_ok ?_
    intro debits hdebits
    rw [orNotFound_bind (findsVertex_mapM
      (fun e => findsVertex_entryOfProps _ e _) _), mapM_mapError]
    refine bind_congr_ok ?_
    intro credits hcredits
    rw [if_neg]
    · rfl
    -- one side has an edge
    intro hnil
    rw [List.append_eq_nil_iff] at hnil
    have hd := (mapM_ok_iff.1 hdebits).length_eq
    have hc := (mapM_ok_iff.1 hcredits).length_eq
    rw [hnil.1, (h.represents.outEdgesIn_perm ord _ _).length_eq] at hd
    rw [hnil.2, (h.represents.outEdgesIn_perm ord _ _).length_eq] at hc
    obtain ⟨d, hne⟩ := hk.entries id.uuid hmem
    cases d with
    | debit => exact hne (List.length_eq_zero_iff.1 hd)
    | credit => exact hne (List.length_eq_zero_iff.1 hc)

-- ==== balances

/-- Neither difference of the balance saturates: the checked subtraction
has a result. -/
def Unsaturated (sj : SerdeJson) (ord : RowOrder (Fact LedgerProp))
    (s : GraphLedgerStore) (a : AccountId) : Prop :=
  ∀ acc tally, readAccount sj ord s.handle a = .ok acc →
    tallyIn sj ord s.handle.facts a acc.currency = .ok tally →
    (∃ r, signByNormal acc.normalBalance tally.postedDebits tally.postedCredits = .ok r)
    ∧ ∃ r, signByNormal acc.normalBalance tally.pendingDebits tally.pendingCredits = .ok r

theorem saturatingSigned_of_signByNormal {debits credits r : I64}
    (h : signByNormal normal debits credits = .ok r) :
    saturatingSigned normal debits credits = r := by
  have hsub : ∀ x y : I64, signByNormal .debit x y = .ok r → x.saturatingSub y = r := by
    intro x y hxy
    unfold signByNormal at hxy
    dsimp only at hxy
    cases hc : x.checkedSub y with
    | none =>
      rw [hc] at hxy
      cases hxy
    | some r' =>
      rw [hc] at hxy
      cases hxy
      exact I64.saturatingSub_of_checkedSub hc
  cases normal with
  | debit => exact hsub debits credits h
  | credit => exact hsub credits debits h

/-- A balance as of the moment of a view is the balance of then, where
the account still has its normal balance and currency. -/
theorem balanceAsOf_eq {s' : GraphLedgerStore} {n : Nat} {b : Balance}
    (h : Represents s.handle.facts G) (hview : s'.handle.factsAsOf n = s.handle.facts)
    (hkept : ∀ acc, readAccount sj ord s.handle a = .ok acc → ∀ ord',
      ∃ acc', readAccount sj ord' s'.handle a = .ok acc'
        ∧ acc'.normalBalance = acc.normalBalance
        ∧ acc'.currency = acc.currency)
    (hb : balance sj ord s a = .ok b) (hun : Unsaturated sj ord s a) :
    balanceAsOf sj ord s' a n = .ok b
      ∧ ∀ ord' b', balanceAsOf sj ord' s' a n = .ok b' → b' = b := by
  unfold balance at hb
  obtain ⟨acc, hacc, hb⟩ := bind_eq_ok.1 hb
  obtain ⟨tally, htally, hb⟩ := bind_eq_ok.1 hb
  rw [lookupAccount_ok] at hacc
  obtain ⟨⟨p, hp⟩, ⟨q, hq⟩⟩ := hun acc tally hacc htally
  cases hb
  unfold balanceAsOf
  rw [hview]
  refine ⟨?_, ?_⟩
  · obtain ⟨acc', hacc', hn, hc⟩ := hkept acc hacc ord
    rw [lookupAccount_ok.2 hacc', ok_bind, hc, htally, ok_bind, hn, hp,
      ok_bind, hq, ok_bind, saturatingSigned_of_signByNormal hp,
      saturatingSigned_of_signByNormal hq]
    rfl
  · intro ord' b' hb'
    obtain ⟨acc', hacc', hn, hc⟩ := hkept acc hacc ord'
    rw [lookupAccount_ok.2 hacc', ok_bind, hc] at hb'
    obtain ⟨tally', htally', hb'⟩ := bind_eq_ok.1 hb'
    rw [← tallyIn_unique h htally htally', hn, hp, ok_bind, hq, ok_bind]
      at hb'
    cases hb'
    rw [saturatingSigned_of_signByNormal hp, saturatingSigned_of_signByNormal hq]

-- ==== the theorem

theorem past_step (c : RowOrder (Fact LedgerProp) × Call)
    (hi : ∃ G, Models s.handle G ∧ Sound G ∧ Kinds G) (hc : KeepsPast sj s c) :
    ∃ G, Models (step sj s c).handle G ∧ Sound G ∧ Kinds G := by
  obtain ⟨G, h, hs, hk⟩ := hi
  obtain ⟨G', h', -, heff⟩ := step_effect h c
  exact ⟨G', h', sound_step h hs heff, kinds_step h hk hc heff⟩

theorem holds_run {calls : List (RowOrder (Fact LedgerProp) × Call)}
    (h : Models s.handle G) (hk : Kinds G) (hh : Holds sj G a normal currency)
    (hcalls : Along (step sj) (KeepsPast sj) s calls) :
    ∃ G', Models (run sj s calls).handle G' ∧ Holds sj G' a normal currency := by
  have hrun : ∃ G', Models (run sj s calls).handle G' ∧ Kinds G'
      ∧ Holds sj G' a normal currency := by
    refine run_invariant (P := KeepsPast sj)
      (I := fun s : GraphLedgerStore => ∃ G', Models s.handle G' ∧ Kinds G'
        ∧ Holds sj G' a normal currency) ?_ ⟨G, h, hk, hh⟩ hcalls
    rintro s c ⟨G, h, hk, hh⟩ hc
    obtain ⟨G', h', -, heff⟩ := step_effect h c
    exact ⟨G', h', kinds_step h hk hc heff, holds_step h hk hc heff hh⟩
  obtain ⟨G', h', -, hh'⟩ := hrun
  exact ⟨G', h', hh'⟩

end

/-- **Time travel is faithful along runs that keep the past.** As of the
counter of an earlier moment of the run, a balance that did not saturate
is the balance of that moment, whatever the order of rows it is read in,
and a transaction is the transaction of that moment. -/
theorem time_travel (sj : SerdeJson) (before later : List (RowOrder (Fact LedgerProp) × Call))
    (hcalls : Along (step sj) (KeepsPast sj) newInMemory (before ++ later)) :
    (∀ ord a b, balance sj ord (run sj newInMemory before) a = .ok b →
      Unsaturated sj ord (run sj newInMemory before) a →
      balanceAsOf sj ord (run sj newInMemory (before ++ later)) a
          (run sj newInMemory before).handle.txCount = .ok b
        ∧ ∀ ord' b', balanceAsOf sj ord'
            (run sj newInMemory (before ++ later)) a
            (run sj newInMemory before).handle.txCount = .ok b' → b' = b)
    ∧ ∀ ord id,
      OfKind (run sj newInMemory before).handle id.uuid ledgerTx →
      transactionAsOf sj ord (run sj newInMemory (before ++ later)) id
          (run sj newInMemory before).handle.txCount
        = getTransaction sj ord (run sj newInMemory before) id := by
  have hview := factsAsOf_run sj before later
  obtain ⟨hbefore, hlater⟩ := along_append.1 hcalls
  obtain ⟨G, h, hs, hk⟩ := run_invariant
    (I := fun s : GraphLedgerStore => ∃ G, Models s.handle G ∧ Sound G
      ∧ Kinds G) (fun s c hi hc => past_step c hi hc)
    ⟨.empty, models_nil, sound_empty, kinds_empty⟩ hbefore
  refine ⟨?_, ?_⟩
  · intro ord a b hb hun
    refine balanceAsOf_eq h.represents hview ?_ hb hun
    intro acc hacc ord'
    obtain ⟨G', h', hh'⟩ := holds_run h hk (holds_of_readAccount h.represents hk hacc) hlater
    unfold GraphLedgerStore.run
    rw [run_append]
    exact hh'.readAccount h'.represents ord'
  · intro ord id hof
    exact transactionAsOf_eq h hs hk hof hview ord

-- ==== a sale in the past

namespace Setup

open InMemoryLedgerStore.Setup (cash saleTransaction)

def pendingSale : List (RowOrder (Fact LedgerProp) × Call) :=
  calls ++ [(.asserted, .postTransaction (saleTransaction 10 .pending 100))]

def postedSale : List (RowOrder (Fact LedgerProp) × Call) :=
  calls ++ [(.asserted, .postTransaction (saleTransaction 10 .posted 100))]

end Setup

theorem keepsPast_newAccount {sj : SerdeJson} {s : GraphLedgerStore}
    {ord : RowOrder (Fact LedgerProp)} {a : Account}
    (h : GraphHandle.getVertex .asserted s.handle a.id.uuid = none) :
    KeepsPast sj s (ord, .createAccount a) := by
  refine ⟨ofKind_of_none h _, ?_⟩
  intro old hold
  unfold readAccount GraphHandle.getTypedVertex at hold
  rw [h] at hold
  cases hold

/-- A pending sale as of the moment before it is posted. -/
theorem time_travel_pendingSale :
    transactionAsOf Setup.emptyJson .asserted
        (run Setup.emptyJson newInMemory
          (Setup.pendingSale ++ [(.asserted, .markPosted ⟨⟨10⟩⟩)])) ⟨⟨10⟩⟩
        (run Setup.emptyJson newInMemory Setup.pendingSale).handle.txCount
      = getTransaction Setup.emptyJson .asserted
        (run Setup.emptyJson newInMemory Setup.pendingSale) ⟨⟨10⟩⟩ := by
  have hcalls : Along (step Setup.emptyJson) (KeepsPast Setup.emptyJson)
      newInMemory (Setup.pendingSale ++ [(.asserted, .markPosted ⟨⟨10⟩⟩)]) :=
    ⟨ofKind_of_none (by rfl) _, keepsPast_newAccount (by rfl),
      keepsPast_newAccount (by rfl),
      ⟨ofKind_of_none (by rfl) _, List.cons_ne_nil _ _⟩, trivial, trivial⟩
  refine (time_travel Setup.emptyJson Setup.pendingSale _ hcalls).2 .asserted
    ⟨⟨10⟩⟩ ?_
  intro v hv
  rw [show GraphHandle.getVertex .asserted (run Setup.emptyJson newInMemory
    Setup.pendingSale).handle ⟨10⟩ = some ⟨⟨10⟩, ledgerTx⟩ by rfl] at hv
  cases hv
  rfl

open InMemoryLedgerStore.Setup (cash) in
/-- An account created again with the other normal balance: its balance
of an earlier moment changes sign. -/
theorem recreated_account :
    balance Setup.emptyJson .asserted (run Setup.emptyJson newInMemory Setup.postedSale) cash.id
      = .ok { currency := .USD, posted := ⟨⟨100, by decide⟩, .USD⟩
              pending := ⟨⟨100, by decide⟩, .USD⟩ }
    ∧ balanceAsOf Setup.emptyJson .asserted
        (run Setup.emptyJson newInMemory (Setup.postedSale
          ++ [(.asserted, .createAccount (cash.withNormalBalance .credit))]))
        cash.id
        (run Setup.emptyJson newInMemory Setup.postedSale).handle.txCount
      = .ok { currency := .USD, posted := ⟨⟨-100, by decide⟩, .USD⟩
              pending := ⟨⟨-100, by decide⟩, .USD⟩ } := by
  constructor <;> rfl

end OpenStandards.OpGraph

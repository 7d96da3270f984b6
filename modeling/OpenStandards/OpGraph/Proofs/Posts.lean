/-
What a post leaves behind.

A post whose entries each filled their own edge stores its transaction
(`storesTx_post`) and adds its entries to the legs of the accounts they
are on (`legs_post`); the accounts themselves are read as before
(`readAccount_congr`). From the legs follows what a balance answers
after it.
-/
import OpenStandards.OpGraph.Proofs.Steps

namespace OpenStandards.OpGraph

open Lib OpCore OpLedger GraphLedgerStore

section

variable {sj : SerdeJson} {ord : RowOrder (Fact LedgerProp)}
  {g g' : GraphHandle LedgerProp} {G G' : LedgerGraph}

-- ==== kinds

def OfKind (g : GraphHandle LedgerProp) (u : Uuid) (kind : String) : Prop :=
  ∀ v, GraphHandle.getVertex .asserted g u = some v → v.t = kind

/-- The text is still a text when it is read back. -/
def Legible (sj : SerdeJson) (s : String) : Prop :=
  (mgToJson sj (.string s)).asStr ≠ none

variable {u : Uuid} {acc : Account}

/-- A vertex of one kind. -/
theorem typesOf_eq_of_mem {t : String} (hone : (G.typesOf u).length ≤ 1)
    (ht : t ∈ G.typesOf u) : G.typesOf u = [t] := by
  cases htypes : G.typesOf u with
  | nil =>
    rw [htypes] at ht
    cases ht
  | cons x xs =>
    rw [htypes, List.length_cons] at hone
    have hxs : xs = [] := List.length_eq_zero_iff.1 (by omega)
    rw [htypes, hxs, List.mem_singleton] at ht
    rw [hxs, ht]

/-- The kind a vertex has, from the check on the handle. -/
theorem ofKind_iff (h : Represents g.facts G)
    (hone : ∀ u, (G.typesOf u).length ≤ 1) {kind : String} :
    OfKind g u kind ↔ ∀ t ∈ G.typesOf u, t = kind := by
  have hperm := h.typesIn_perm .asserted u
  unfold OfKind GraphHandle.getVertex
  constructor
  · intro hof t ht
    have hrow : GraphHandle.typesIn .asserted g.facts u = [t] := by
      rw [typesOf_eq_of_mem (hone u) ht] at hperm
      exact List.perm_singleton.1 hperm
    exact hof ⟨u, t⟩ (by rw [hrow]; rfl)
  · intro hall v hv
    obtain ⟨t, ht, rfl⟩ := Option.map_eq_some_iff.1 hv
    exact hall t (hperm.mem_iff.1 (List.mem_of_mem_head? ht))

theorem ofKind_of_none {g : GraphHandle LedgerProp}
    (h : GraphHandle.getVertex .asserted g u = none) (kind : String) :
    OfKind g u kind := by
  intro v hv
  rw [h] at hv
  cases hv

-- ==== accounts

theorem nodup_accountProps (a : Account) : ((accountProps a).map Prod.fst).Nodup := by
  simp [accountProps]

/-- An account's properties as they are written. -/
theorem accountAt_of_props {name : String}
    (hprops : ∀ p ∈ accountProps acc,
      G.prop (.vertex acc.id.uuid) p.1 = some (jsonToMg sj p.2))
    (hname : (mgToJson sj (.string acc.name)).asStr = some name) :
    AccountAt sj G { acc with
      name
      externalId := G.str sj (.vertex acc.id.uuid) .externalId } := by
  refine ⟨?_, ⟨_, str_of_plain (plain_accountClassStr acc.accountClass)
      (hprops (_, _) (by simp [accountProps])),
      parseAccountClass_accountClassStr _⟩,
    ⟨_, str_of_plain (plain_normalBalanceStr acc.normalBalance)
      (hprops (_, _) (by simp [accountProps])),
      parseNormalBalance_normalBalanceStr _⟩,
    ⟨_, _, str_of_plain (plain_code acc.currency)
      (hprops (_, _) (by simp [accountProps])),
      u64_of_fits (exponent_fits acc.currency) (hprops (_, _) (by simp [accountProps])),
      currencyFromProps_code _⟩, rfl⟩
  unfold PropertyGraph.str PropertyGraph.json
  rw [hprops (.name, .string acc.name) (by simp [accountProps])]
  exact hname

theorem AccountAt.congr (h : AccountAt sj G acc)
    (hprops : ∀ a, G'.prop (.vertex acc.id.uuid) a
      = G.prop (.vertex acc.id.uuid) a) : AccountAt sj G' acc := by
  have hjson : ∀ a, G'.json sj (.vertex acc.id.uuid) a = G.json sj (.vertex acc.id.uuid) a := by
    intro a
    unfold PropertyGraph.json
    rw [hprops]
  obtain ⟨hname, hclass, hnormal, hcurrency, hext⟩ := h
  unfold PropertyGraph.str at hname hclass hnormal hcurrency hext
  unfold PropertyGraph.u64 at hcurrency
  refine ⟨?_, ?_, ?_, ?_, ?_⟩ <;>
    simp only [PropertyGraph.str, PropertyGraph.u64, hjson] <;> assumption

/-- An account's normal balance and currency do not depend on the order
it is read in. -/
theorem AccountAt.unique {acc' : Account} (h : AccountAt sj G acc)
    (h' : AccountAt sj G acc') (hid : acc.id = acc'.id) :
    acc.normalBalance = acc'.normalBalance ∧ acc.currency = acc'.currency := by
  obtain ⟨-, -, ⟨s, hs, hnb⟩, ⟨code, n, hcode, hn, hcur⟩, -⟩ := h
  obtain ⟨-, -, ⟨s', hs', hnb'⟩, ⟨code', n', hcode', hn', hcur'⟩, -⟩ := h'
  rw [hid] at hs hcode hn
  rw [hs] at hs'
  rw [hcode] at hcode'
  rw [hn] at hn'
  cases hs'
  cases hcode'
  cases hn'
  rw [hnb] at hnb'
  rw [hcur] at hcur'
  exact ⟨Except.ok.inj hnb', Except.ok.inj hcur'⟩

theorem outEdges_congr (h : Represents g.facts G) (h' : Represents g'.facts G') {et : String}
    (hedges : G'.outEdges u et = G.outEdges u et) :
    GraphHandle.outEdges ord g' u et = GraphHandle.outEdges ord g u et := by
  unfold GraphHandle.outEdges
  rw [h.outEdgesIn_eq, h'.outEdgesIn_eq, hedges]

theorem readAccount_congr (h : Represents g.facts G)
    (h' : Represents g'.facts G') {id : AccountId}
    (htypes : (G'.types.filter fun p => p.1 = id.uuid) = G.types.filter fun p => p.1 = id.uuid)
    (hprops : ∀ a, G'.prop (.vertex id.uuid) a = G.prop (.vertex id.uuid) a)
    (hedges : G'.outEdges id.uuid ledgerInLedger = G.outEdges id.uuid ledgerInLedger)
    (hread : readAccount sj ord g id = .ok acc) :
    readAccount sj ord g' id = .ok acc := by
  obtain ⟨rfl, hv, hat, he⟩ := (readAccount_ok h).1 hread
  refine (readAccount_ok h').2 ⟨rfl, ?_, hat.congr hprops, ?_⟩
  · rw [getTypedVertex_congr h h' htypes]
    exact hv
  · rw [outEdges_congr h h' hedges]
    exact he

-- ==== the edges

section

variable {t : Transaction} {n : Nat} {le : Edge} {es : List Edge}
  (heff : PostEffect sj t n G G' le es)

include heff

/-- The edges that leave another vertex stay. -/
theorem outEdges_post_of_ne {u : Uuid} (hu : u ≠ t.id.uuid) (et : String) :
    G'.outEdges u et = G.outEdges u et := by
  unfold PropertyGraph.outEdges
  rw [heff.edges, List.filter_append, List.append_right_eq_self, List.filter_eq_nil_iff]
  intro e he hout
  rw [decide_eq_true_eq] at hout
  refine hu (hout.1.symm.trans ?_)
  rcases List.mem_cons.1 he with rfl | he
  · exact heff.ledger.1
  · obtain ⟨entry, -, hc⟩ := exists_of_forall₂ heff.carried he
    exact hc.1

/-- The types of another vertex stay. -/
theorem types_post_of_ne {u : Uuid} (hu : u ≠ t.id.uuid) :
    (G'.types.filter fun p => p.1 = u) = G.types.filter fun p => p.1 = u := by
  rw [heff.types]
  exact G.filter_types_addVertex hu ledgerTx

/-- The new edges that reach an account on a side are those of its
entries. -/
theorem inEdges_post (a : AccountId) (d : Direction) :
    G'.inEdges a.uuid (entryType d) = G.inEdges a.uuid (entryType d)
      ++ es.filter fun e => e.toId = a.uuid ∧ e.t = entryType d := by
  unfold PropertyGraph.inEdges
  rw [heff.edges, List.filter_append, List.filter_cons_of_neg]
  rw [decide_eq_true_eq]
  intro hin
  rw [heff.ledger.2.1] at hin
  exact entryType_ne_ledgerInLedger d hin.2.symm

omit heff in
theorem forall₂_filter_carried {R : Edge → Entry → Prop} (hR : List.Forall₂ R es t.entries)
    (hc : ∀ e entry, R e entry → e.carries t.id entry) (a : AccountId) (d : Direction) :
    List.Forall₂ R (es.filter fun e => e.toId = a.uuid ∧ e.t = entryType d)
      (t.entries.filter fun e => e.accountId = a ∧ e.direction = d) := by
  refine List.rel_filter ?_ hR
  intro e entry hr
  obtain ⟨-, ht, hto⟩ := hc e entry hr
  simp only [decide_eq_true_eq, ht, hto]
  constructor
  · rintro ⟨ha, hd⟩
    refine ⟨?_, entryType_injective hd⟩
    cases hacc : entry.accountId
    rw [hacc] at ha
    cases a
    exact congrArg AccountId.mk ha
  · rintro ⟨rfl, rfl⟩
    exact ⟨rfl, rfl⟩

-- ==== a post that filled its edges

/-- The edges a new transaction leaves by. -/
theorem outEdges_post_self (hnew : ∀ e ∈ G.edges, e.fromId ≠ t.id.uuid) (et : String) :
    G'.outEdges t.id.uuid et = (le :: es).filter fun e => e.t = et := by
  unfold PropertyGraph.outEdges
  rw [heff.edges, List.filter_append]
  have hold : (G.edges.filter fun e => decide (e.fromId = t.id.uuid ∧ e.t = et)) = [] := by
    rw [List.filter_eq_nil_iff]
    intro e he hout
    rw [decide_eq_true_eq] at hout
    exact hnew e he hout.1
  rw [hold, List.nil_append]
  refine List.filter_congr ?_
  intro e he
  have hfrom : e.fromId = t.id.uuid := by
    rcases List.mem_cons.1 he with rfl | he
    · exact heff.ledger.1
    · obtain ⟨entry, -, hc⟩ := exists_of_forall₂ heff.carried he
      exact hc.1
  simp [hfrom]

theorem storesTx_post (hnew : ∀ e ∈ G.edges, e.fromId ≠ t.id.uuid)
    (hfilled : List.Forall₂ (Filled sj G' t.id) es t.entries) (hfresh : G.typesOf t.id.uuid = [])
    (hfits : FitsI64 t.effectiveAtUnixSecs) (hne : t.entries ≠ []) :
    StoresTx sj G' t := by
  have hledger : G'.outEdges t.id.uuid ledgerInLedger = [le] := by
    rw [outEdges_post_self heff hnew, List.filter_cons_of_pos
      (by simpa using heff.ledger.2.1), List.cons.injEq]
    refine ⟨rfl, List.filter_eq_nil_iff.2 ?_⟩
    intro e he hin
    obtain ⟨entry, -, hc⟩ := exists_of_forall₂ heff.carried he
    rw [decide_eq_true_eq, hc.2.1] at hin
    exact entryType_ne_ledgerInLedger _ hin
  refine ⟨?_, heff.txProps, hfits, ?_, ?_, ?_, hne⟩
  · rw [typesOf_congr heff.types]
    exact G.typesOf_addVertex_new hfresh ledgerTx
  · rw [hledger]
    exact List.cons_ne_nil _ _
  · intro e he
    rw [hledger, List.mem_singleton] at he
    rw [he]
    exact heff.ledger.2.2
  · intro d
    rw [outEdges_post_self heff hnew, List.filter_cons_of_neg (by
      rw [decide_eq_true_eq, heff.ledger.2.1]
      exact fun heq => entryType_ne_ledgerInLedger d heq.symm)]
    refine List.rel_filter ?_ hfilled
    intro e entry hf
    simp only [decide_eq_true_eq, hf.carries.2.1]
    exact ⟨entryType_injective, fun heq => congrArg entryType heq⟩

def newLegs (t : Transaction) (a : AccountId) (d : Direction) : List (Status × I64) :=
  (t.entries.filter fun e => e.accountId = a ∧ e.direction = d).map
    fun e => (t.status, e.amount.minorUnits)

/-- The legs that were there stay. -/
theorem leg_post_old (hnew : ∀ e ∈ G.edges, e.fromId ≠ t.id.uuid) {e : Edge}
    (he : e ∈ G.edges) (a : AccountId) (c : Currency) :
    G'.leg sj a c e = G.leg sj a c e := by
  have hmem : e ∈ G'.edges := by
    rw [heff.edges]
    exact List.mem_append_left _ he
  have hprops := heff.edgeProps e hmem fun entry _ hc => hnew e he hc.1
  exact leg_congr (hprops _) (hprops _) (heff.vertexProps _ _ (Or.inl (hnew e he))) a c

theorem leg_post_new {e : Edge} {entry : Entry} (hf : Filled sj G' t.id e entry) (a : AccountId) :
    G'.leg sj a entry.amount.currency e = .ok (t.status, entry.amount.minorUnits) := by
  refine leg_of_props ?_ ?_ ?_
  · rw [hf.props (_, _) List.mem_cons_self, jsonToMg_ofI64]
  · exact hf.props (.currencyCode, _) (List.mem_cons_of_mem _ List.mem_cons_self)
  · rw [hf.carries.1]
    exact heff.txProps (.status, _) List.mem_cons_self

/-- **The legs after a post**: those before, then those of the entries;
all can be read where those before can. -/
theorem legs_post (hnew : ∀ e ∈ G.edges, e.fromId ≠ t.id.uuid)
    (hfilled : List.Forall₂ (Filled sj G' t.id) es t.entries) {a : AccountId} {c : Currency}
    (hcur : ∀ entry ∈ t.entries, entry.accountId = a → entry.amount.currency = c) :
    (∀ d, legs sj G' a c d = legs sj G a c d ++ newLegs t a d)
      ∧ (Readable sj G a c → Readable sj G' a c) := by
  have hpaired : ∀ d, List.Forall₂ (fun e entry => G'.leg sj a c e
      = .ok (t.status, entry.amount.minorUnits))
      (es.filter fun e => e.toId = a.uuid ∧ e.t = entryType d)
      (t.entries.filter fun e => e.accountId = a ∧ e.direction = d) := by
    intro d
    have hall : List.Forall₂ (fun entry e => entry ∈ t.entries.filter
        (fun e => decide (e.accountId = a ∧ e.direction = d))
        ∧ Filled sj G' t.id e entry) _ _ :=
      (List.forall₂_and_left _ _).2 ⟨fun _ h => h,
        (forall₂_filter_carried hfilled (fun _ _ hf => hf.carries) a d ).flip⟩
    refine hall.flip.imp ?_
    rintro e entry ⟨hmem, hf⟩
    obtain ⟨hmem, hkey⟩ := List.mem_filter.1 hmem
    rw [decide_eq_true_eq] at hkey
    rw [← hcur entry hmem hkey.1]
    exact leg_post_new heff hf a
  refine ⟨?_, ?_⟩
  · intro d
    unfold legs
    rw [inEdges_post heff, List.map_append]
    congr 1
    · refine List.map_congr_left ?_
      intro e he
      unfold PropertyGraph.legD
      rw [leg_post_old heff hnew (List.mem_filter.1 he).1]
    · unfold newLegs
      rw [← List.forall₂_eq_eq_eq, List.forall₂_map_left_iff, List.forall₂_map_right_iff]
      exact (hpaired d).imp fun e entry hleg => legD_of_ok hleg
  · intro hread d e he
    rw [inEdges_post heff] at he
    rcases List.mem_append.1 he with he | he
    · rw [leg_post_old heff hnew (List.mem_filter.1 he).1]
      exact hread d e he
    · obtain ⟨entry, -, hleg⟩ := exists_of_forall₂ (hpaired d) he
      exact ⟨_, hleg⟩

end

end

end OpenStandards.OpGraph

/-
The graph ledger stores what it was given, and exactly when.

`post_transaction` searches the edge of an entry by its target. Where
two entries share account and side, the second edge may stay empty, and the
transaction can no longer be read (`two_debits_lost`). Beyond that, a time
from `2^63` on is not read back, and the amounts of a side may overflow.
Where none of these happens a post is faithful (`post_faithful_iff`).
-/
import OpenStandards.OpGraph.Proofs.Posts
import OpenStandards.OpLedger.Proofs.Steps

namespace OpenStandards.OpGraph

open Lib OpCore OpLedger GraphLedgerStore

-- ==== balances

section

variable {sj : SerdeJson} {ord : RowOrder (Fact LedgerProp)}
  {s : GraphLedgerStore} {G : LedgerGraph}

theorem lookupAccount_ok {g : GraphHandle LedgerProp} {id : AccountId} {acc : Account} :
    lookupAccount sj ord g id = .ok acc ↔ readAccount sj ord g id = .ok acc := by
  unfold lookupAccount
  cases readAccount sj ord g id with
  | ok a => simp
  | error e => cases e <;> simp

/-- A balance succeeds where the account is read and its entries are
tallied. -/
theorem balance_isOk {a : AccountId} :
    (∃ b, balance sj ord s a = .ok b) ↔
      ∃ acc, readAccount sj ord s.handle a = .ok acc
        ∧ ∃ t, tallyIn sj ord s.handle.facts a acc.currency = .ok t := by
  unfold balance
  constructor
  · rintro ⟨b, hb⟩
    obtain ⟨acc, hacc, hb⟩ := bind_eq_ok.1 hb
    obtain ⟨t, ht, -⟩ := bind_eq_ok.1 hb
    exact ⟨acc, lookupAccount_ok.1 hacc, t, ht⟩
  · rintro ⟨acc, hacc, t, ht⟩
    exact ⟨_, bind_eq_ok.2 ⟨acc, lookupAccount_ok.2 hacc, bind_eq_ok.2 ⟨t, ht, rfl⟩⟩⟩

def BalanceOk (sj : SerdeJson) (s : GraphLedgerStore) (a : AccountId) : Prop :=
  ∀ ord, ∃ b, balance sj ord s a = .ok b

theorem balanceOk_iff (h : Models s.handle G) {a : AccountId}
    {acc : Account} (hacc : AccountAt sj G acc) (hid : acc.id = a) :
    BalanceOk sj s a ↔
      (∀ ord, ∃ acc', readAccount sj ord s.handle a = .ok acc')
        ∧ Readable sj G a acc.currency
        ∧ ∀ d, Fits (liveAmounts (legs sj G a acc.currency d)) := by
  have hsame : ∀ ord acc', readAccount sj ord s.handle a = .ok acc' →
      acc'.currency = acc.currency := by
    intro ord acc' hread
    obtain ⟨hid', -, hat, -⟩ := (readAccount_ok h.represents).1 hread
    exact (hat.unique hacc (hid'.trans hid.symm)).2
  unfold BalanceOk
  simp only [balance_isOk]
  rw [← tally_every_order h.represents]
  constructor
  · intro hall
    refine ⟨?_, ?_⟩
    · intro ord
      obtain ⟨acc', hread, -⟩ := hall ord
      exact ⟨acc', hread⟩
    · intro ord
      obtain ⟨acc', hread, t, ht⟩ := hall ord
      rw [hsame ord acc' hread] at ht
      exact ⟨t, ht⟩
  · rintro ⟨hread, htally⟩ ord
    obtain ⟨acc', hacc'⟩ := hread ord
    obtain ⟨t, ht⟩ := htally ord
    rw [← hsame ord acc' hacc'] at ht
    exact ⟨acc', hacc', t, ht⟩

/-- What the tally loop reads on one side of an account: the live
amounts, an edge that cannot be read counting nothing. -/
def sideAmounts (sj : SerdeJson) (g : GraphHandle LedgerProp)
    (a : AccountId) (c : Currency) (d : Direction) : List Int :=
  liveAmounts ((GraphHandle.inEdges .asserted g a.uuid (entryType d)).map
    fun e =>
      match readLeg a c (GraphHandle.getEdgeProperties sj .asserted g e)
          (GraphHandle.getVertexProperties sj .asserted g e.fromId) with
      | .ok l => l
      | .error _ => (.archived, 0))

theorem sideAmounts_eq {g : GraphHandle LedgerProp} (h : Models g G)
    (a : AccountId) (c : Currency) (d : Direction) :
    sideAmounts sj g a c d = liveAmounts (legs sj G a c d) := by
  unfold sideAmounts legs GraphHandle.inEdges GraphHandle.getEdgeProperties
    GraphHandle.getVertexProperties PropertyGraph.legD
  rewrite [h.represents.inEdgesIn_asserted]
  refine congrArg liveAmounts (List.map_congr_left fun e _ => ?_)
  rewrite [readLeg_eq h.represents]
  rfl

def entryAmounts (t : Transaction) (a : AccountId) (d : Direction) : List Int :=
  (t.entries.filter fun e => e.accountId = a ∧ e.direction = d).map
    fun e => e.amount.minorUnits.val

theorem liveAmounts_newLegs {t : Transaction} (hst : t.status ≠ .archived)
    (a : AccountId) (d : Direction) :
    liveAmounts (newLegs t a d) = entryAmounts t a d := by
  unfold liveAmounts newLegs entryAmounts
  rw [List.filter_map, List.map_map, List.filter_eq_self.2]
  · rfl
  · intro e _
    simpa using hst

end

-- ==== the claim's parts

/-- The store after a post holds what it was given: the transaction is
read back with its entries, and every touched account whose balance
succeeded still has one. -/
structure Faithful (sj : SerdeJson) (s s' : GraphLedgerStore) (t : Transaction) : Prop where
  stored : ∀ ord, ∃ x, getTransaction sj ord s' t.id = .ok x ∧ x.entries.Perm t.entries
  balances : ∀ entry ∈ t.entries, BalanceOk sj s entry.accountId →
    BalanceOk sj s' entry.accountId

/-- On every touched account whose balance succeeds, the live amounts of
each side fit in every order together with those of the transaction. -/
def RoomFor (sj : SerdeJson) (s : GraphLedgerStore) (t : Transaction) : Prop :=
  ∀ entry ∈ t.entries, BalanceOk sj s entry.accountId → ∀ d,
    Fits (sideAmounts sj s.handle entry.accountId entry.amount.currency d
      ++ entryAmounts t entry.accountId d)

-- ==== new rows as asserted

/-- The fact is the target of an edge numbered from `n` on. -/
def isNewTarget (n : Nat) : Fact LedgerProp → Bool
  | .edgeTo e _ => n ≤ e
  | _ => false

/-- An order that lists new edges as they were asserted and is the given
one elsewhere. -/
def keepNew (n : Nat) (ord : RowOrder (Fact LedgerProp)) : RowOrder (Fact LedgerProp) :=
  { order := fun l => if l.all (isNewTarget n) then l else ord.order l
    perm := by
      intro l
      by_cases hl : l.all (isNewTarget n) = true
      · rw [if_pos hl]
      · rw [if_neg hl]
        exact ord.perm l }

theorem keepsNew_keepNew (n : Nat) (ord : RowOrder (Fact LedgerProp)) :
    KeepsNew n (keepNew n ord) := by
  intro l hl
  refine if_pos (List.all_eq_true.2 ?_)
  intro f hf
  obtain ⟨e, w, rfl, he⟩ := hl f hf
  exact decide_eq_true he

theorem keepNew_order {n : Nat} {ord : RowOrder (Fact LedgerProp)}
    {l : List (Fact LedgerProp)} (hl : ∀ f ∈ l, isNewTarget n f = false) :
    (keepNew n ord).order l = ord.order l := by
  show (if l.all (isNewTarget n) then l else ord.order l) = ord.order l
  cases l with
  | nil => simp
  | cons f l =>
    rw [if_neg]
    rw [List.all_eq_true]
    intro hall
    have hf := hall f List.mem_cons_self
    rw [hl f List.mem_cons_self] at hf
    cases hf

section

variable {sj : SerdeJson} {ord : RowOrder (Fact LedgerProp)}
  {s : GraphLedgerStore} {G G' : LedgerGraph} {t : Transaction}

variable {g : GraphHandle LedgerProp}

theorem getVertex_keepNew (n : Nat) (u : Uuid) :
    GraphHandle.getVertex (keepNew n ord) g u = GraphHandle.getVertex ord g u := by
  unfold GraphHandle.getVertex GraphHandle.typesIn
  rw [keepNew_order]
  intro f hf
  have hf := (List.mem_filter.1 hf).2
  cases f <;> first | rfl | cases hf

/-- Before the post no edge is new: the checks see the given order. -/
theorem outEdges_keepNew (h : Models g G) (u : Uuid) (et : String) :
    GraphHandle.outEdges (keepNew g.txCount ord) g u et = GraphHandle.outEdges ord g u et := by
  unfold GraphHandle.outEdges
  rw [h.represents.outEdgesIn_eq, h.represents.outEdgesIn_eq, keepNew_order]
  intro f hf
  obtain ⟨e, he, rfl⟩ := List.mem_map.1 hf
  exact decide_eq_false (Nat.not_le_of_lt (h.minted e (List.mem_filter.1 he).1))

theorem persists_keepNew (h : Models s.handle G) (hp : Persists sj ord s t) :
    Persists sj (keepNew s.handle.txCount ord) s t := by
  refine ⟨?_, hp.uncached, ?_⟩
  · unfold GraphHandle.vertexExists
    rw [getVertex_keepNew]
    exact hp.ledger
  · intro entry hentry
    obtain ⟨acc, hread, hchecks⟩ := validateEntry_ok.1 (hp.valid entry hentry)
    refine validateEntry_ok.2 ⟨acc, ?_, hchecks⟩
    obtain ⟨hid, hv, hat, he⟩ := (readAccount_ok h.represents).1 hread
    refine (readAccount_ok h.represents).2 ⟨hid, ?_, hat, ?_⟩
    · unfold GraphHandle.getTypedVertex
      rw [getVertex_keepNew]
      exact hv
    · rw [outEdges_keepNew h]
      exact he

-- ==== what a post must meet

/-- Edges created one after the other at different ends. -/
theorem nodup_of_no_shadow {α β : Type} {key : α → β} {l : List α}
    (h : ∀ pre x post, l = pre ++ x :: post → ∀ y ∈ pre, key y ≠ key x) :
    (l.map key).Nodup := by
  induction l using List.reverseRecOn with
  | nil => exact List.nodup_nil
  | append_singleton l x ih =>
    rw [List.map_append, List.map_cons, List.map_nil, ← List.concat_eq_append]
    refine (ih ?_).concat ?_
    · intro pre y post hl
      exact h pre y (post ++ [x]) (by rw [hl]; simp)
    · intro hmem
      obtain ⟨y, hy, hkey⟩ := List.mem_map.1 hmem
      exact h l x [] rfl y hy hkey

theorem apart_of_shadowed {n : Nat} {le : Edge} {es : List Edge}
    (heff : PostEffect sj t n G G' le es) (hshadow : Shadowed n G')
    (hread : ∀ e ∈ es, G'.prop (.edge e.id) .amountMinor ≠ none) :
    Apart t.entries := by
  have hkeys : (es.map fun e => (e.toId, e.t)).Nodup := by
    refine nodup_of_no_shadow ?_
    intro pre e post hes e' he' hkey
    rw [Prod.mk.injEq] at hkey
    have hmem : e ∈ es := by
      rw [hes]
      exact List.mem_append_right _ List.mem_cons_self
    have hmem' : e' ∈ es := by
      rw [hes]
      exact List.mem_append_left _ he'
    obtain ⟨entry, -, hc⟩ := exists_of_forall₂ heff.carried hmem
    obtain ⟨entry', -, hc'⟩ := exists_of_forall₂ heff.carried hmem'
    refine hread e hmem (hshadow (G.edges ++ le :: pre) e post ?_
      ⟨e', List.mem_append_right _ (List.mem_cons_of_mem _ he'),
        hc'.1.trans hc.1.symm, hkey.2, hkey.1⟩
      (heff.minted e (List.mem_cons_of_mem _ hmem)))
    rw [heff.edges, hes, List.append_assoc]
    rfl
  -- the keys of the edges are those of the entries
  have heq : (es.map fun e => (e.toId, e.t))
      = (t.entries.map fun e => (e.accountId, e.direction)).map
        fun k => (k.1.uuid, entryType k.2) := by
    rw [List.map_map, ← List.forall₂_eq_eq_eq, List.forall₂_map_left_iff,
      List.forall₂_map_right_iff]
    refine heff.carried.imp ?_
    intro e entry hc
    rw [hc.2.1, hc.2.2]
    rfl
  rw [heq] at hkeys
  exact hkeys.of_map

theorem amount_of_entriesAt (h : Represents g.facts G) {x : Transaction}
    (hx : EntriesAt sj ord g G x) {e : Edge} {entry : Entry}
    (he : e ∈ G.edges) (hc : e.carries x.id entry) :
    G.prop (.edge e.id) .amountMinor ≠ none := by
  obtain ⟨en, -, hat⟩ := hx.entry h he hc.1 hc.2.1
  intro hnone
  have hamount := hat.amount
  unfold PropertyGraph.i64 PropertyGraph.json at hamount
  rw [hnone] at hamount
  cases hamount

section

variable (h : Models s.handle G) (hs : Sound G)
  (hfresh : G.typesOf t.id.uuid = [])

include hfresh h

theorem persists_of_accepted (hok : (postTransaction sj ord s t).1 = .ok t.id) :
    Persists sj ord s t := by
  rcases postTransaction_cases sj ord s t with hp | ⟨-, hreplay⟩
  · exact hp
  · obtain ⟨x, hread, -⟩ := (hreplay t.id hok).body
    obtain ⟨-, ⟨v, hv⟩, -⟩ := readTx_ok h.represents hread
    have hmem := getTypedVertex_ok h.represents hv
    rw [hfresh] at hmem
    cases hmem

include hs

theorem post_apart (hp : Persists sj ord s t) (hapart : Apart t.entries) :
    ∃ s' G' le es, postTransaction sj ord s t = (.ok t.id, s')
      ∧ Models s'.handle G' ∧ PostEffect sj t s.handle.txCount G G' le es
      ∧ List.Forall₂ (Filled sj G' t.id) es t.entries := by
  have hnew := hs.fromId_ne hfresh
  obtain ⟨g', G', le, es, hpersist, -, h', heff, hfilled⟩ :=
    persist_apart sj ord h hapart fun e he _ _ hc => hnew e he hc.1
  exact ⟨_, G', le, es, (postTransaction_of_persists hp).trans hpersist, h', heff, hfilled⟩

/-- After such a post the balance of a touched account succeeds exactly
where its sides still fit. -/
theorem balanceOk_post {s' : GraphLedgerStore} {le : Edge} {es : List Edge}
    (hp : Persists sj ord s t) (hst : t.status ≠ .archived)
    (h' : Models s'.handle G') (heff : PostEffect sj t s.handle.txCount G G' le es)
    (hfilled : List.Forall₂ (Filled sj G' t.id) es t.entries)
    {entry : Entry} (hentry : entry ∈ t.entries) (hbal : BalanceOk sj s entry.accountId) :
    BalanceOk sj s' entry.accountId ↔ ∀ d,
      Fits (sideAmounts sj s.handle entry.accountId entry.amount.currency d
        ++ entryAmounts t entry.accountId d) := by
  have hnew := hs.fromId_ne hfresh
  obtain ⟨acc, hread, hlid, hcur⟩ := validateEntry_ok.1 (hp.valid entry hentry)
  obtain ⟨hid, ⟨v, hv⟩, hat, he⟩ := (readAccount_ok h.represents).1 hread
  have hne : entry.accountId.uuid ≠ t.id.uuid := by
    intro heq
    have hmem := getTypedVertex_ok h.represents hv
    rw [heq, hfresh] at hmem
    cases hmem
  have hprops : ∀ a, G'.prop (.vertex entry.accountId.uuid) a
      = G.prop (.vertex entry.accountId.uuid) a := fun a =>
    heff.vertexProps _ a (Or.inl hne)
  have hat' : AccountAt sj G' acc := hat.congr (by rw [hid]; exact hprops)
  -- the entries on the account share its currency
  have hcurs : ∀ en ∈ t.entries, en.accountId = entry.accountId →
      en.amount.currency = acc.currency := by
    intro en hen heq
    obtain ⟨acc', hread', -, hcur'⟩ := validateEntry_ok.1 (hp.valid en hen)
    rw [heq, hread] at hread'
    rw [← hcur', ← Except.ok.inj hread']
  obtain ⟨hlegs, hreadable⟩ := legs_post heff hnew hfilled hcurs
  have hbefore := (balanceOk_iff h hat hid).1 hbal
  have hreads : ∀ ord, ∃ acc', readAccount sj ord s'.handle entry.accountId = .ok acc' := by
    intro ord
    obtain ⟨acc', hacc'⟩ := hbefore.1 ord
    exact ⟨acc', readAccount_congr h.represents h'.represents
      (types_post_of_ne heff hne) hprops (outEdges_post_of_ne heff hne _)
      hacc'⟩
  rw [balanceOk_iff h' hat' hid, ← hcur]
  simp only [hlegs, liveAmounts_append, liveAmounts_newLegs hst, sideAmounts_eq h]
  constructor
  · intro hafter
    exact hafter.2.2
  · intro hfits
    exact ⟨hreads, hreadable hbefore.2.1, hfits⟩

end

end

-- ==== the theorem

/-- **A post of a new transaction is faithful in every order of rows
exactly where** its entries are on different accounts or sides, its time
fits, and the sides of the touched accounts have room. -/
theorem post_faithful_iff (sj : SerdeJson)
    (calls : List (RowOrder (Fact LedgerProp) × Call)) (t : Transaction)
    (hbuilt : t.Built) (hfresh : GraphHandle.vertexExists .asserted
      (run sj newInMemory calls).handle t.id.uuid = false) (ord₀ : RowOrder (Fact LedgerProp))
    (hok : (postTransaction sj ord₀ (run sj newInMemory calls) t).1 = .ok t.id) :
    (∀ ord, (postTransaction sj ord (run sj newInMemory calls) t).1 = .ok t.id →
      Faithful sj (run sj newInMemory calls)
        (postTransaction sj ord (run sj newInMemory calls) t).2 t)
      ↔ Apart t.entries ∧ FitsI64 t.effectiveAtUnixSecs
        ∧ RoomFor sj (run sj newInMemory calls) t := by
  obtain ⟨G, h, hs⟩ := sound_run sj calls
  generalize run sj newInMemory calls = s at *
  have hnil : G.typesOf t.id.uuid = [] := by
    by_contra hne
    rw [(vertexExists_iff h.represents _).2 hne] at hfresh
    cases hfresh
  have hnew := hs.fromId_ne hnil
  have hst := hbuilt.status_ne_archived
  have hne : t.entries ≠ [] := by
    intro hempty
    have hlen := hbuilt.entries_ok.1
    rw [hempty] at hlen
    cases hlen
  constructor
  · intro hall
    -- post with the new rows as asserted: what is read has no empty edge
    have hp := persists_keepNew h (persists_of_accepted h hnil hok)
    obtain ⟨g', G', le, es, hpersist, -, h', heff, hshadow⟩ :=
      persist_shadowed sj h (t := t) (keepsNew_keepNew _ ord₀) (le_refl _)
        fun e he hfrom => absurd hfrom (hnew e he)
    have hpost := (postTransaction_of_persists hp).trans hpersist
    have hfaithful := hall _ (by rw [hpost])
    rw [hpost] at hfaithful
    obtain ⟨x, hx, -⟩ := hfaithful.stored .asserted
    obtain ⟨hid, -, hat, hentries, -⟩ := readTx_ok h'.represents (lookupTx_ok.1 hx)
    have hapart : Apart t.entries := by
      refine apart_of_shadowed heff hshadow ?_
      intro e he
      obtain ⟨entry, -, hc⟩ := exists_of_forall₂ heff.carried he
      refine amount_of_entriesAt h'.represents hentries ?_ (by rw [hid]; exact hc)
      rw [heff.edges]
      exact List.mem_append_right _ (List.mem_cons_of_mem _ he)
    refine ⟨hapart, ?_, ?_⟩
    · by_contra hfits
      have heffective := hat.effectiveAt
      rw [hid, u64_of_not_fits hfits (heff.txProps (_, _) (by simp [txProps]))] at heffective
      cases heffective
    · obtain ⟨s', G₁, le₁, es₁, hpost₁, h₁, heff₁, hfilled₁⟩ :=
        post_apart h hs hnil hp hapart
      have hfaithful₁ := hall _ (by rw [hpost₁])
      rw [hpost₁] at hfaithful₁
      intro entry hentry hbal
      exact (balanceOk_post h hs hnil hp hst h₁ heff₁ hfilled₁ hentry hbal).1
        (hfaithful₁.balances entry hentry hbal)
  · rintro ⟨hapart, hfits, hroom⟩ ord haccept
    have hp := persists_of_accepted h hnil haccept
    obtain ⟨s', G', le, es, hpost, h', heff, hfilled⟩ :=
      post_apart h hs hnil hp hapart
    rw [hpost]
    refine ⟨?_, ?_⟩
    · intro ord'
      obtain ⟨description, entries, metadata, hread, hperm⟩ :=
        (storesTx_post heff hnew hfilled hnil hfits hne).readTx h'.represents ord'
      exact ⟨_, lookupTx_ok.2 hread, hperm⟩
    · intro entry hentry hbal
      exact (balanceOk_post h hs hnil hp hst h' heff hfilled hentry hbal).2
        (hroom entry hentry hbal)

-- ==== the two debits

namespace Setup

open InMemoryLedgerStore.Setup (ledger cash revenue)

def emptyJson : SerdeJson :=
  { toString := fun _ => "\x7b\x7d"
    fromStr := fun s => if s = "\x7b\x7d" then some (.object []) else none }

def calls : List (RowOrder (Fact LedgerProp) × Call) :=
  [(.asserted, .createLedger ledger), (.asserted, .createAccount cash),
    (.asserted, .createAccount revenue)]

def splitSale : Transaction :=
  { id := ⟨⟨10⟩⟩, ledgerId := ledger.id, status := .posted
    externalId := none, description := none, effectiveAtUnixSecs := 100
    entries := [.debit cash.id ⟨⟨100, by decide⟩, .USD⟩,
      .debit cash.id ⟨⟨50, by decide⟩, .USD⟩,
      .credit revenue.id ⟨⟨150, by decide⟩, .USD⟩]
    metadata := [] }

def afterSplit : GraphLedgerStore :=
  (postTransaction emptyJson .asserted (run emptyJson newInMemory calls) splitSale).2

end Setup

open InMemoryLedgerStore.Setup (ledger sale saleTransaction) in
/-- A plain sale on the fixture is accepted and faithful. -/
theorem post_faithful_sale :
    (postTransaction Setup.emptyJson .asserted
        (run Setup.emptyJson newInMemory Setup.calls)
        (saleTransaction 10 .posted ⟨100, by decide⟩)).1 = .ok ⟨⟨10⟩⟩
      ∧ Faithful Setup.emptyJson (run Setup.emptyJson newInMemory Setup.calls)
        (postTransaction Setup.emptyJson .asserted
          (run Setup.emptyJson newInMemory Setup.calls)
          (saleTransaction 10 .posted ⟨100, by decide⟩)).2
        (saleTransaction 10 .posted ⟨100, by decide⟩) := by
  have hbuilt : (saleTransaction 10 .posted ⟨100, by decide⟩).Built :=
    .newPosted (show Transaction.newPosted ⟨⟨10⟩⟩ ledger.id 100
      (sale ⟨100, by decide⟩) = .ok _ by decide)
  refine ⟨rfl, (post_faithful_iff Setup.emptyJson Setup.calls _ hbuilt rfl
    .asserted rfl).2 ⟨by decide, by decide, ?_⟩ .asserted rfl⟩
  -- nothing is booked yet: each side holds at most the sale's amount
  intro entry hentry _ d
  rcases List.mem_cons.1 hentry with rfl | hentry
  · cases d <;> exact ⟨by decide, by decide⟩
  · rw [List.mem_singleton] at hentry
    subst hentry
    cases d <;> exact ⟨by decide, by decide⟩

open InMemoryLedgerStore.Setup (cash) in
/-- Two debits of one account in one sale: the post is accepted, and
neither the transaction nor the balance can be read after it. -/
theorem two_debits_lost :
    Setup.splitSale.Built
    ∧ GraphHandle.vertexExists .asserted
      (run Setup.emptyJson newInMemory Setup.calls).handle
      Setup.splitSale.id.uuid = false
    ∧ (postTransaction Setup.emptyJson .asserted
      (run Setup.emptyJson newInMemory Setup.calls) Setup.splitSale).1
      = .ok Setup.splitSale.id
    ∧ (∀ x, getTransaction Setup.emptyJson .asserted Setup.afterSplit
      Setup.splitSale.id ≠ .ok x)
    ∧ (∃ b, balance Setup.emptyJson .asserted
      (run Setup.emptyJson newInMemory Setup.calls) cash.id = .ok b)
    ∧ ∀ b, balance Setup.emptyJson .asserted Setup.afterSplit cash.id ≠ .ok b := by
  have hget : getTransaction Setup.emptyJson .asserted Setup.afterSplit
      Setup.splitSale.id = .error (GraphError.toLedger
        (.propertyTypeMismatch "?" "amount_minor" "i64")) := by rfl
  have hbalance : balance Setup.emptyJson .asserted Setup.afterSplit cash.id
      = .error (GraphError.toLedger (.propertyTypeMismatch "?" "amount_minor" "i64")) := by rfl
  refine ⟨.newPosted (show Transaction.newPosted Setup.splitSale.id
    Setup.splitSale.ledgerId 100 Setup.splitSale.entries = .ok _ by decide),
    by rfl, by rfl, ?_, ⟨_, by rfl⟩, ?_⟩
  · intro x hx
    rw [hget] at hx
    cases hx
  · intro b hb
    rw [hbalance] at hb
    cases hb

end OpenStandards.OpGraph

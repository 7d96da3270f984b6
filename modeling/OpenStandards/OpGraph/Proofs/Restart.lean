/-
Idempotency across a restart.

The cache of external ids lives in the store object, and
`post_transaction` consults nothing else: on a store opened anew a retry is
booked again, under its own id (`restart_books_twice`). A retry survives
the restart only where it cannot be told from a booking: it carries the
id of the stored transaction, passes the checks, has its body, and no
account it touches has a balance that could change (`survives_restart_iff`).
-/
import OpenStandards.OpGraph.Proofs.Faithful

namespace OpenStandards.OpGraph

open Lib OpCore OpLedger GraphLedgerStore

section

variable {sj : SerdeJson} {ord : RowOrder (Fact LedgerProp)}
  {s : GraphLedgerStore} {G G' : LedgerGraph} {t : Transaction}

-- ==== the cache

/-- A cached id stays cached while the store object lives. -/
theorem cached_step {ext : String} {id : TransactionId} (hc : s.byExternalId.lookup ext = some id)
    {c : RowOrder (Fact LedgerProp) × Call} (hlive : c.2 ≠ .reopen) :
    (step sj s c).byExternalId.lookup ext = some id := by
  obtain ⟨ord, c⟩ := c
  have htransition : ∀ method id', (transition sj ord s method id'
      ).2.byExternalId = s.byExternalId := by
    intro method id'
    unfold transition
    cases lookupTx sj ord s.handle id' with
    | error e => rfl
    | ok x =>
      cases hm : method x with
      | error e => simp only [hm]
      | ok x' => simp only [hm]
  cases c with
  | createLedger l => exact hc
  | createAccount a =>
    unfold step createAccount
    by_cases hledger : (!GraphHandle.vertexExists ord s.handle a.ledgerId.uuid) = true
    · simp only [if_pos hledger]
      exact hc
    · simp only [if_neg hledger]
      exact hc
  | postTransaction t =>
    rcases postTransaction_cases sj ord s t with hp | ⟨hsame, -⟩
    · unfold step
      simp only [postTransaction_of_persists hp]
      have hcache : (persist sj ord s t).2.byExternalId = cacheAfter s t
          ∨ (persist sj ord s t).2.byExternalId = s.byExternalId := by
        unfold persist cacheAfter
        rcases persistEntries sj ord t.id t.entries
          (persistVertex sj ord s.handle t) with ⟨_ | _, g⟩
        · exact Or.inr rfl
        · exact Or.inl rfl
      rcases hcache with hcache | hcache
      · rw [hcache]
        have huncached := hp.uncached
        unfold GraphLedgerStore.cached at huncached
        unfold cacheAfter
        cases hext : t.externalId with
        | none => exact hc
        | some ext' =>
          rw [hext] at huncached
          have hne : ext ≠ ext' := by
            rintro rfl
            rw [Option.bind_some, hc] at huncached
            cases huncached
          exact (AList.lookup_insert_ne hne).trans hc
      · rw [hcache]
        exact hc
    · unfold step
      simp only [hsame]
      exact hc
  | markPosted id' =>
    unfold step markPosted
    rw [htransition]
    exact hc
  | markArchived id' =>
    unfold step markArchived
    rw [htransition]
    exact hc
  | findByExternalId ext' =>
    unfold step findByExternalId
    cases hl : s.byExternalId.lookup ext' with
    | some tid =>
      simp only [hl]
      cases readTx sj ord s.handle tid <;> exact hc
    | none =>
      have hne : ext ≠ ext' := by
        rintro rfl
        rw [hc] at hl
        cases hl
      simp only [hl]
      cases walkExternalId sj ord s.handle ext' with
      | none => exact hc
      | some tid =>
        simp only
        cases readTx sj ord s.handle tid <;>
          exact (AList.lookup_insert_ne hne).trans hc
  | reopen => exact absurd rfl hlive

theorem cached_of_accepted (h : Models s.handle G) {ext : String}
    (hext : t.externalId = some ext) (hok : (postTransaction sj ord s t).1 = .ok t.id) :
    (postTransaction sj ord s t).2.byExternalId.lookup ext = some t.id := by
  rcases postTransaction_cases sj ord s t with hp | ⟨hsame, hreplay⟩
  · obtain ⟨g', G', le, es, hpersist, -⟩ := persist_effect sj ord h t
    rw [postTransaction_of_persists hp, hpersist]
    unfold cacheAfter
    simp only [hext]
    exact AList.lookup_insert _
  · have hcached := (hreplay t.id hok).cached
    unfold GraphLedgerStore.cached at hcached
    rw [hext] at hcached
    rw [hsame]
    exact hcached

theorem cached_of_mismatch (h : Models s.handle G)
    (hm : (postTransaction sj ord s t).1 = .error .idempotencyMismatch) :
    s.cached t.externalId ≠ none := by
  intro hnone
  unfold postTransaction at hm
  rw [hnone] at hm
  by_cases hledger : (!GraphHandle.vertexExists ord s.handle t.ledgerId.uuid) = true
  · rw [if_pos hledger] at hm
    cases hm
  · rw [if_neg hledger] at hm
    cases hvalid : t.entries.forM (validateEntry sj ord s.handle t.ledgerId)
      with
    | ok u =>
      obtain ⟨g', G', le, es, hpersist, -⟩ := persist_effect sj ord h t
      simp only [hvalid, hpersist] at hm
      cases hm
    | error e =>
      simp only [hvalid] at hm
      obtain ⟨entry, -, he⟩ := exists_of_forM_error hvalid
      cases hm
      unfold validateEntry lookupAccount at he
      cases hread : readAccount sj ord s.handle entry.accountId with
      | error e =>
        rw [hread] at he
        cases e <;> cases he
      | ok acc =>
        rw [hread] at he
        change (if _ then _ else if _ then _ else _) = _ at he
        split at he
        · cases he
        · split at he <;> cases he

-- ==== balances left alone

theorem readAccount_keeps {g g' : GraphHandle LedgerProp}
    (h : Represents g.facts G) (h' : Represents g'.facts G')
    {id : AccountId} {acc : Account}
    (htypes : (G'.types.filter fun p => p.1 = id.uuid)
      = G.types.filter fun p => p.1 = id.uuid) (hprops : ∀ a, a ∉ txNames →
      G'.prop (.vertex id.uuid) a = G.prop (.vertex id.uuid) a)
    (hedges : ∀ e ∈ G.edges, e ∈ G'.edges) (hread : readAccount sj ord g id = .ok acc) :
    ∃ acc', readAccount sj ord g' id = .ok acc'
      ∧ acc'.normalBalance = acc.normalBalance
      ∧ acc'.currency = acc.currency := by
  obtain ⟨rfl, hv, ⟨hname, hclass, hnormal, hcurrency, -⟩, e, he, -⟩ :=
    (readAccount_ok h).1 hread
  have hne : G'.outEdges acc.id.uuid ledgerInLedger ≠ [] := by
    obtain ⟨hmem, hout⟩ := List.mem_filter.1 (head?_outEdges h he)
    exact List.ne_nil_of_mem (List.mem_filter.2 ⟨hedges e hmem, hout⟩)
  obtain ⟨e', he'⟩ := exists_head?_outEdges ord h' hne
  have hjson : ∀ a, a ∉ txNames → G'.json sj (.vertex acc.id.uuid) a
      = G.json sj (.vertex acc.id.uuid) a := by
    intro a ha
    unfold PropertyGraph.json
    rw [hprops a ha]
  refine ⟨{ acc with
    ledgerId := ⟨e'.toId⟩
    externalId := G'.str sj (.vertex acc.id.uuid) .externalId },
    (readAccount_ok h').2 ⟨rfl, ?_, ?_, e', he', rfl⟩, rfl, rfl⟩
  · rw [getTypedVertex_congr h h' htypes]
    exact hv
  · unfold PropertyGraph.str at hname hclass hnormal hcurrency
    unfold PropertyGraph.u64 at hcurrency
    refine ⟨?_, ?_, ?_, ?_, rfl⟩ <;>
      simp only [PropertyGraph.str, PropertyGraph.u64]
    · rw [hjson _ (by decide)]
      exact hname
    · rw [hjson _ (by decide)]
      exact hclass
    · rw [hjson _ (by decide)]
      exact hnormal
    · rw [hjson _ (by decide), hjson _ (by decide)]
      exact hcurrency

theorem balance_congr {s' : GraphLedgerStore} {a : AccountId} {b : Balance}
    (hacc : ∀ acc, readAccount sj ord s.handle a = .ok acc →
      ∃ acc', readAccount sj ord s'.handle a = .ok acc'
        ∧ acc'.normalBalance = acc.normalBalance
        ∧ acc'.currency = acc.currency) (htally : ∀ c, tallyIn sj ord s'.handle.facts a c
      = tallyIn sj ord s.handle.facts a c)
    (hb : balance sj ord s a = .ok b) : balance sj ord s' a = .ok b := by
  unfold balance at hb ⊢
  obtain ⟨acc, hread, hb⟩ := bind_eq_ok.1 hb
  obtain ⟨tally, ht, hb⟩ := bind_eq_ok.1 hb
  obtain ⟨acc', hread', hnormal, hcurrency⟩ := hacc acc (lookupAccount_ok.1 hread)
  refine bind_eq_ok.2 ⟨acc', lookupAccount_ok.2 hread', bind_eq_ok.2 ⟨tally, ?_, ?_⟩⟩
  · rw [htally, hcurrency]
    exact ht
  · rw [hcurrency, hnormal]
    exact hb

theorem bodyKeys_perm {x : Transaction} (hb : sameBody x t = true) :
    (x.entries.map bodyKey).Perm (t.entries.map bodyKey) := by
  unfold sameBody at hb
  split at hb <;> try cases hb
  split at hb <;> try cases hb
  split at hb <;> try cases hb
  split at hb <;> try cases hb
  exact of_decide_eq_true hb

theorem exists_of_bodyKeys_perm {es es' : List Entry}
    (hperm : (es.map bodyKey).Perm (es'.map bodyKey)) {entry : Entry} (hentry : entry ∈ es) :
    ∃ entry' ∈ es', entry'.accountId = entry.accountId
      ∧ entry'.direction = entry.direction := by
  obtain ⟨entry', hentry', hkey⟩ := List.mem_map.1
    (hperm.mem_iff.1 (List.mem_map_of_mem hentry))
  unfold bodyKey at hkey
  simp only [Prod.mk.injEq] at hkey
  exact ⟨entry', hentry', hkey.1, hkey.2.1⟩

end

-- ==== the property

/-- Posting through a store opened anew on the graph answers the stored
id or a mismatch, as the store itself would, and changes no balance. -/
def Survives (sj : SerdeJson) (s : GraphLedgerStore)
    (stored : TransactionId) (t : Transaction) : Prop :=
  ∀ ord,
    ((postTransaction sj ord (withHandle s.handle) t).1 = .ok stored
      ∨ (postTransaction sj ord (withHandle s.handle) t).1 = .error .idempotencyMismatch)
    ∧ (postTransaction sj ord (withHandle s.handle) t).1 = (postTransaction sj ord s t).1
    ∧ ∀ ord' a b, balance sj ord' s a = .ok b →
      balance sj ord' (postTransaction sj ord (withHandle s.handle) t).2 a = .ok b

/-- A booking that cannot be told from a replay: the id and the body of
the stored transaction, the checks passed, and no balance to change. -/
structure Unseen (sj : SerdeJson) (s : GraphLedgerStore)
    (stored : TransactionId) (t : Transaction) : Prop where
  id : t.id = stored
  checks : ∀ ord, Persists sj ord (withHandle s.handle) t
  body : ∀ ord, ∃ x, readTx sj ord s.handle stored = .ok x ∧ sameBody x t = true
  balances : ∀ entry ∈ t.entries, ∀ ord b, balance sj ord s entry.accountId ≠ .ok b

section

variable {sj : SerdeJson} {ord : RowOrder (Fact LedgerProp)}
  {s : GraphLedgerStore} {G G' : LedgerGraph} {t : Transaction}
  {stored : TransactionId}

/-- A store opened anew knows no external id. -/
theorem cached_withHandle (g : GraphHandle LedgerProp) (o : Option String) :
    (withHandle g).cached o = none := by
  cases o <;> rfl

/-- Booked again where new rows come as asserted, an entry leaves an
empty edge at its account, and the balance is lost. -/
theorem balance_lost (h : Models s.handle G) {x : Transaction}
    (hp : Persists sj .asserted (withHandle s.handle) t)
    (hread : readTx sj ord s.handle t.id = .ok x) (hbody : sameBody x t = true) {entry : Entry}
    (hentry : entry ∈ t.entries) (ord' : RowOrder (Fact LedgerProp)) (b : Balance) :
    balance sj ord' (postTransaction sj .asserted (withHandle s.handle) t).2
      entry.accountId ≠ .ok b := by
  obtain ⟨g', G', le, es, hpersist, -, h', heff, hshadow⟩ :=
    persist_shadowed sj (s := withHandle s.handle) h (t := t)
      (show KeepsNew 0 .asserted from fun _ _ => rfl) (Nat.zero_le _)
      fun e _ _ => Nat.zero_le e.id
  rw [postTransaction_of_persists hp, hpersist]
  intro hb
  obtain ⟨acc, -, tally, htally⟩ := balance_isOk.1 ⟨b, hb⟩
  -- the edge the entry was stored on, and the new one
  obtain ⟨hid, -, -, hentries, -⟩ := readTx_ok h.represents hread
  obtain ⟨en, hen, hacc, hdir⟩ := exists_of_bodyKeys_perm (bodyKeys_perm hbody).symm hentry
  obtain ⟨old, hold, hoc⟩ := hentries.edge h.represents hen
  obtain ⟨new, hnew, hnc⟩ := exists_of_forall₂ heff.carried.flip hentry
  obtain ⟨pre, post, hsplit⟩ := List.append_of_mem hnew
  have hempty := hshadow (G.edges ++ le :: pre) new post
    (by rw [heff.edges, hsplit, List.append_assoc]; rfl)
    ⟨old, List.mem_append_left _ hold, by rw [hoc.1, hnc.1, hid],
      by rw [hoc.2.1, hnc.2.1, hdir], by rw [hoc.2.2, hnc.2.2, hacc]⟩
    (heff.minted new (List.mem_cons_of_mem _ hnew))
  obtain ⟨l, hl⟩ := readable_of_tallyIn h'.represents htally entry.direction
    new (by
      rw [inEdges_post heff]
      exact List.mem_append_right _ (List.mem_filter.2
        ⟨hnew, decide_eq_true ⟨hnc.2.2, hnc.2.1⟩⟩))
  exact leg_of_unfilled hempty l hl

/-- A booking of a stored id leaves the balances of the accounts it does
not touch. -/
theorem balance_untouched (h : Models s.handle G) {x : Transaction}
    (hp : Persists sj ord (withHandle s.handle) t) (hread : readTx sj ord s.handle t.id = .ok x)
    (hbody : sameBody x t = true) {a : AccountId} (ha : ∀ entry ∈ t.entries, entry.accountId ≠ a)
    {ord' : RowOrder (Fact LedgerProp)} {b : Balance} (hb : balance sj ord' s a = .ok b) :
    balance sj ord' (postTransaction sj ord (withHandle s.handle) t).2 a = .ok b := by
  obtain ⟨g', G', le, es, hpersist, -, h', heff⟩ := persist_effect sj ord
    (s := withHandle s.handle) h t
  rw [postTransaction_of_persists hp, hpersist]
  obtain ⟨hid, ⟨v, hv⟩, -, hentries, -⟩ := readTx_ok h.represents hread
  have htypes : G'.types = G.types := by
    rw [heff.types, G.addVertex_of_mem (G.mem_typesOf.1 (getTypedVertex_ok h.represents hv))]
  -- no leg of the account belongs to the transaction
  have hfrom : ∀ d, ∀ e ∈ G.inEdges a.uuid (entryType d), e.fromId ≠ t.id.uuid := by
    intro d e he heq
    obtain ⟨he, hin⟩ := List.mem_filter.1 he
    rw [decide_eq_true_eq] at hin
    obtain ⟨en, hen, hat⟩ := hentries.entry h.represents he (by rw [hid]; exact heq) hin.2
    obtain ⟨entry, hentry, hacc, -⟩ := exists_of_bodyKeys_perm (bodyKeys_perm hbody) hen
    refine ha entry hentry ?_
    rw [hacc, hat.accountId, hin.1]
  have hedges : ∀ d, G'.inEdges a.uuid (entryType d) = G.inEdges a.uuid (entryType d) := by
    intro d
    rw [inEdges_post heff, List.append_right_eq_self, List.filter_eq_nil_iff]
    intro e he hin
    rw [decide_eq_true_eq] at hin
    obtain ⟨entry, hentry, hc⟩ := exists_of_forall₂ heff.carried he
    refine ha entry hentry ?_
    have huuid := hc.2.2.symm.trans hin.1
    cases hacc : entry.accountId
    rw [hacc] at huuid
    exact congrArg AccountId.mk huuid
  refine balance_congr ?_ ?_ hb
  · intro acc hacc
    refine readAccount_keeps h.represents h'.represents (by rw [htypes])
      (fun p hp => heff.vertexProps _ p (Or.inr hp)) ?_ hacc
    intro e he
    rw [heff.edges]
    exact List.mem_append_left _ he
  · intro c
    refine tallyIn_congr h.represents h'.represents hedges ?_ ord'
    intro d e he
    have hmem := (List.mem_filter.1 he).1
    have hprops := heff.edgeProps e
      (by rw [heff.edges]; exact List.mem_append_left _ hmem)
      fun entry _ hc => hfrom d e he hc.1
    exact leg_congr (hprops _) (hprops _) (heff.vertexProps _ _ (Or.inl (hfrom d e he))) a c

theorem survives_iff (h : Models s.handle G) (hcached : s.cached t.externalId = some stored) :
    Survives sj s stored t ↔ Unseen sj s stored t := by
  constructor
  · intro hsurvives
    have hchecks : ∀ ord, Persists sj ord (withHandle s.handle) t := by
      intro ord
      rcases postTransaction_cases sj ord (withHandle s.handle) t with
        hp | ⟨-, hreplay⟩
      · exact hp
      · exfalso
        rcases (hsurvives ord).1 with hok | hmismatch
        · have hc := (hreplay stored hok).cached
          rw [cached_withHandle] at hc
          cases hc
        · exact cached_of_mismatch (s := withHandle s.handle) h hmismatch (cached_withHandle ..)
    have hanswer : ∀ ord, (postTransaction sj ord (withHandle s.handle) t).1 = .ok t.id := by
      intro ord
      obtain ⟨g', G', le, es, hpersist, -⟩ := persist_effect sj ord
        (s := withHandle s.handle) h t
      rw [postTransaction_of_persists (hchecks ord), hpersist]
    have hid : t.id = stored := by
      rcases (hsurvives .asserted).1 with hok | hmismatch
      · rw [hanswer] at hok
        exact Except.ok.inj hok
      · rw [hanswer] at hmismatch
        cases hmismatch
    have hbody : ∀ ord, ∃ x, readTx sj ord s.handle stored = .ok x ∧ sameBody x t = true := by
      intro ord
      rcases postTransaction_cases sj ord s t with hp | ⟨-, hreplay⟩
      · rw [hp.uncached] at hcached
        cases hcached
      · refine (hreplay stored ?_).body
        rw [← (hsurvives ord).2.1, hanswer, hid]
    refine ⟨hid, hchecks, hbody, ?_⟩
    intro entry hentry ord b hb
    obtain ⟨x, hread, hsame⟩ := hbody .asserted
    rw [← hid] at hread
    exact balance_lost h (hchecks .asserted) hread hsame hentry ord b
      ((hsurvives .asserted).2.2 ord entry.accountId b hb)
  · rintro ⟨hid, hchecks, hbody, hbalances⟩ ord
    obtain ⟨g', G', le, es, hpersist, -⟩ := persist_effect sj ord (s := withHandle s.handle) h t
    have hanswer : (postTransaction sj ord (withHandle s.handle) t).1 = .ok stored := by
      rw [postTransaction_of_persists (hchecks ord), hpersist, hid]
    have hwarm : Replays sj ord s t stored :=
      ⟨(hchecks ord).ledger, hcached, hbody ord⟩
    refine ⟨Or.inl hanswer, ?_, ?_⟩
    · rw [hanswer, postTransaction_of_replays hwarm]
    · intro ord' a b hb
      obtain ⟨x, hread, hsame⟩ := hbody ord
      rw [← hid] at hread
      refine balance_untouched h (hchecks ord) hread hsame ?_ hb
      rintro entry hentry rfl
      exact hbalances entry hentry ord' b hb

end

/-- **A retry survives a restart exactly where it cannot be told from a
booking.** The run has accepted `stored`, later calls went to the same
store object, and `t` carries the same external id. -/
theorem survives_restart_iff (sj : SerdeJson)
    (before after : List (RowOrder (Fact LedgerProp) × Call))
    (ordₛ : RowOrder (Fact LedgerProp)) (stored t : Transaction)
    (ext : String) (hstored : stored.externalId = some ext) (ht : t.externalId = some ext)
    (hok : (postTransaction sj ordₛ (run sj newInMemory before) stored).1
      = .ok stored.id) (hlive : ∀ c ∈ after, c.2 ≠ .reopen) :
    Survives sj (run sj newInMemory
        (before ++ (ordₛ, .postTransaction stored) :: after)) stored.id t
      ↔ Unseen sj (run sj newInMemory
        (before ++ (ordₛ, .postTransaction stored) :: after)) stored.id
        t := by
  obtain ⟨G₀, h₀, -⟩ := sound_run sj before
  obtain ⟨G, h, -⟩ := sound_run sj (before ++ (ordₛ, .postTransaction stored) :: after)
  refine survives_iff h ?_
  have hcached := cached_of_accepted h₀ hstored hok
  have hkept : ∀ (calls : List (RowOrder (Fact LedgerProp) × Call))
      (s : GraphLedgerStore), (∀ c ∈ calls, c.2 ≠ .reopen) →
      s.byExternalId.lookup ext = some stored.id →
      (run sj s calls).byExternalId.lookup ext = some stored.id := by
    intro calls
    induction calls with
    | nil => exact fun s _ hs => hs
    | cons c calls ih =>
      intro s hlive hs
      exact ih _ (fun c' hc' => hlive c' (List.mem_cons_of_mem _ hc'))
        (cached_step hs (hlive c List.mem_cons_self))
  unfold GraphLedgerStore.cached
  rw [ht, Option.bind_some, GraphLedgerStore.run, run_append]
  exact hkept after _ hlive hcached

-- ==== the retried sale

namespace Setup

open InMemoryLedgerStore.Setup (saleTransaction)

def order (id : Nat) : Transaction :=
  (saleTransaction id .posted 100).withExternalId "ord-7"

def booked : GraphLedgerStore :=
  run emptyJson newInMemory (calls ++ (.asserted, .postTransaction (order 10)) :: [])

end Setup

/-- The retry of the booked sale does not survive the restart. -/
theorem survives_restart_order :
    ¬ Survives Setup.emptyJson Setup.booked (Setup.order 10).id (Setup.order 11) := by
  have hok : (postTransaction Setup.emptyJson .asserted
      (run Setup.emptyJson newInMemory Setup.calls) (Setup.order 10)).1
      = .ok (Setup.order 10).id := by rfl
  unfold Setup.booked
  rw [survives_restart_iff Setup.emptyJson Setup.calls [] .asserted
    (Setup.order 10) (Setup.order 11) "ord-7" rfl rfl hok
    (fun _ hc => absurd hc List.not_mem_nil)]
  intro hunseen
  exact absurd hunseen.id (by decide)

open InMemoryLedgerStore.Setup (cash) in
/-- After a restart the retry of a booked sale is booked under its own
id, and the balance doubles; the original store answers the first id. -/
theorem restart_books_twice :
    (postTransaction Setup.emptyJson .asserted
      (run Setup.emptyJson newInMemory Setup.calls) (Setup.order 10)).1
      = .ok ⟨⟨10⟩⟩
    ∧ (postTransaction Setup.emptyJson .asserted Setup.booked (Setup.order 11)).1 = .ok ⟨⟨10⟩⟩
    ∧ (postTransaction Setup.emptyJson .asserted
      (withHandle Setup.booked.handle) (Setup.order 11)).1 = .ok ⟨⟨11⟩⟩
    ∧ balance Setup.emptyJson .asserted Setup.booked cash.id
      = .ok { currency := .USD, posted := ⟨⟨100, by decide⟩, .USD⟩
              pending := ⟨⟨100, by decide⟩, .USD⟩ }
    ∧ balance Setup.emptyJson .asserted
      (postTransaction Setup.emptyJson .asserted
        (withHandle Setup.booked.handle) (Setup.order 11)).2 cash.id
      = .ok { currency := .USD, posted := ⟨⟨200, by decide⟩, .USD⟩
              pending := ⟨⟨200, by decide⟩, .USD⟩ } := by
  refine ⟨?_, ?_, ?_, ?_, ?_⟩ <;> rfl

end OpenStandards.OpGraph

/-
The balance of an account in both stores.

The legs the graph store tallies are the entries of the stored
transactions (`legs_perm_tableLegs`), so both stores add up the same
amounts, in different ways: the graph store counts a posted amount in
two totals and saturates the differences, the in-memory store adds the
totals at the end and refuses them. Where a total does not fit, both fail;
where everything fits, both answer the exact balance (`balance_eq`).
-/
import OpenStandards.OpGraph.Proofs.Simulation
import OpenStandards.OpGraph.Proofs.TimeTravel
import OpenStandards.OpLedger.Proofs.Tally

namespace OpenStandards.OpGraph

open Lib OpCore OpLedger GraphLedgerStore
open InMemoryLedgerStore (Tally addOrOverflow signByNormal laneAmounts
  signed)

-- ==== the tables' legs

def tableLegs (ts : List Transaction) (a : AccountId) (d : Direction) : List (Status × I64) :=
  ts.flatMap fun t => newLegs t a d

def legsIn (m : InMemoryLedgerStore) (a : AccountId) (d : Direction) : List (Status × I64) :=
  tableLegs (Table.values m.transactions) a d

/-- The exact posted total of a side. -/
def postedSum (m : InMemoryLedgerStore) (a : AccountId) (d : Direction) : Int :=
  (postedAmounts (legsIn m a d)).sum

/-- The exact total of a side, pending amounts included. -/
def liveSum (m : InMemoryLedgerStore) (a : AccountId) (d : Direction) : Int :=
  (liveAmounts (legsIn m a d)).sum

/-- Some total of the account does not fit. -/
def Overflows (m : InMemoryLedgerStore) (a : AccountId) : Prop :=
  ∃ d, ¬ InI64 (postedSum m a d) ∨ ¬ InI64 (liveSum m a d)

/-- Every running total of a side fits in every order, and so do the two
differences. -/
structure InRange (m : InMemoryLedgerStore) (acc : Account) : Prop where
  sides : ∀ d, Fits (liveAmounts (legsIn m acc.id d))
  posted : InI64 (signed acc.normalBalance
    (postedSum m acc.id .debit - postedSum m acc.id .credit))
  pending : InI64 (signed acc.normalBalance
    (liveSum m acc.id .debit - liveSum m acc.id .credit))

-- ==== the graph

section

variable {sj : SerdeJson} {m : InMemoryLedgerStore} {G : LedgerGraph}
  {a : AccountId} {acc : Account}

theorem legD_of_stored (hs : Stored sj m G) {id : TransactionId}
    {t : Transaction} (hl : m.transactions.lookup id = some t)
    (ha : m.accounts.lookup a = some acc) (d : Direction) :
    List.Forall₂ (fun e entry => G.leg sj a acc.currency e
        = .ok (t.status, entry.amount.minorUnits))
      ((G.inEdges a.uuid (entryType d)).filter fun e =>
        (⟨e.fromId⟩ : TransactionId) = t.id)
      (t.entries.filter fun e => e.accountId = a ∧ e.direction = d) := by
  obtain ⟨rfl, hgives⟩ := hs.transaction id t hl
  have hrows : ((G.inEdges a.uuid (entryType d)).filter fun e =>
      decide ((⟨e.fromId⟩ : TransactionId) = t.id))
      = (G.outEdges t.id.uuid (entryType d)).filter fun e =>
        decide (e.toId = a.uuid) := by
    unfold PropertyGraph.inEdges PropertyGraph.outEdges
    rw [List.filter_filter, List.filter_filter]
    refine List.filter_congr ?_
    intro e _
    rw [← Bool.decide_and, ← Bool.decide_and, decide_eq_decide]
    constructor
    · rintro ⟨hfrom, hto, ht⟩
      exact ⟨hto, congrArg TransactionId.uuid hfrom, ht⟩
    · rintro ⟨hto, hfrom, ht⟩
      exact ⟨congrArg TransactionId.mk hfrom, hto, ht⟩
  have hentries : (t.entries.filter fun e =>
      decide (e.accountId = a ∧ e.direction = d))
      = (t.entries.filter fun e => decide (e.direction = d)).filter fun e =>
        decide (e.accountId = a) := by
    rw [List.filter_filter]
    refine List.filter_congr ?_
    intro e _
    rw [← Bool.decide_and]
  rw [hrows, hentries]
  have hfilled : List.Forall₂ (fun e entry => Filled sj G t.id e entry)
      ((G.outEdges t.id.uuid (entryType d)).filter fun e =>
        decide (e.toId = a.uuid))
      ((t.entries.filter fun e => decide (e.direction = d)).filter fun e =>
        decide (e.accountId = a)) := by
    refine List.rel_filter ?_ (hgives.stores.entries d)
    intro e entry hf
    simp only [decide_eq_true_eq, hf.carries.2.2]
    constructor
    · intro huuid
      exact congrArg AccountId.mk huuid
    · rintro rfl
      rfl
  -- the entries on the account are in its currency
  have hcur : ∀ entry ∈ (t.entries.filter fun e =>
      decide (e.direction = d)).filter fun e => decide (e.accountId = a),
      entry.amount.currency = acc.currency := by
    intro entry hentry
    obtain ⟨hentry, hacc⟩ := List.mem_filter.1 hentry
    rw [decide_eq_true_eq] at hacc
    obtain ⟨x, hx, hxcur⟩ := hs.entries t.id t hl entry (List.mem_filter.1 hentry).1
    rw [hacc, ha] at hx
    cases hx
    exact hxcur.symm
  refine ((List.forall₂_and_left _ _).2 ⟨hcur, hfilled.flip⟩).flip.imp ?_
  rintro e entry ⟨hc, hf⟩
  rw [← hc]
  refine leg_of_props ?_ ?_ ?_
  · rw [hf.props (.amountMinor, _) List.mem_cons_self, jsonToMg_ofI64]
  · exact hf.props (.currencyCode, _) (List.mem_cons_of_mem _ List.mem_cons_self)
  · rw [hf.carries.1]
    exact hgives.stores.props (.status, _) List.mem_cons_self

theorem exists_stored_of_edge (hs : Stored sj m G) {d : Direction} {e : Edge}
    (he : e ∈ G.inEdges a.uuid (entryType d)) :
    ∃ t, m.transactions.lookup ⟨e.fromId⟩ = some t := by
  obtain ⟨he, hin⟩ := List.mem_filter.1 he
  rw [decide_eq_true_eq] at hin
  exact Option.isSome_iff_exists.1 (hs.edges e he d hin.2)

/-- **The legs of an account are those of the tables**, and all can be
read. -/
theorem legs_perm_tableLegs (hs : Stored sj m G) (ha : m.accounts.lookup a = some acc) :
    (∀ d, (legs sj G a acc.currency d).Perm (legsIn m a d)) ∧ Readable sj G a acc.currency := by
  have hkey : ∀ id t, m.transactions.lookup id = some t →
      Transaction.id t = id := fun id t hl => (hs.transaction id t hl).1
  refine ⟨?_, ?_⟩
  · intro d
    -- group the edges by the transaction they leave
    have hgroup : (((Table.values m.transactions).map Transaction.id).flatMap
        fun k => (G.inEdges a.uuid (entryType d)).filter fun e =>
          decide ((⟨e.fromId⟩ : TransactionId) = k)).Perm
        (G.inEdges a.uuid (entryType d)) := by
      refine flatMap_filter_perm (Table.nodup_map_values hkey) ?_
      intro e he
      obtain ⟨t, ht⟩ := exists_stored_of_edge hs he
      rw [← hkey _ t ht]
      exact List.mem_map_of_mem (Table.mem_values.2 ⟨_, ht⟩)
    refine (hgroup.map _).symm.trans (List.Perm.of_eq ?_)
    rw [List.flatMap_map, List.map_flatMap]
    refine List.flatMap_congr ?_
    intro t ht
    obtain ⟨id, hl⟩ := Table.mem_values.1 ht
    unfold newLegs
    rw [← List.forall₂_eq_eq_eq, List.forall₂_map_left_iff, List.forall₂_map_right_iff]
    exact (legD_of_stored hs hl ha d).imp fun e entry hleg => legD_of_ok hleg
  · intro d e he
    obtain ⟨t, ht⟩ := exists_stored_of_edge hs he
    obtain ⟨entry, -, hleg⟩ := exists_of_forall₂
      (legD_of_stored hs ht ha d) (a := e) (List.mem_filter.2 ⟨he,
        decide_eq_true (hkey _ t ht).symm⟩)
    exact ⟨_, hleg⟩

-- ==== the tables

def sideOf (d : Direction) (ps : List Posting) : List (Status × I64) :=
  (ps.filter fun p => p.direction = d).map fun p => (p.status, p.amount)

theorem tableLegs_eq (walk : List Transaction) (a : AccountId)
    (d : Direction) : tableLegs walk a d = sideOf d (postings a walk) := by
  unfold tableLegs sideOf postings
  rw [List.filter_flatMap, List.map_flatMap]
  refine List.flatMap_congr ?_
  intro t _
  unfold newLegs
  rw [List.filter_map, List.map_map, List.filter_filter]
  refine congrArg _ (List.filter_congr ?_)
  intro e _
  rw [Function.comp_apply, ← Bool.decide_and, decide_eq_decide, and_comm]

theorem liveAmounts_sideOf (d : Direction) (ps : List Posting) :
    liveAmounts (sideOf d ps) = (ps.filter fun p =>
      p.status ≠ .archived ∧ p.direction = d).map fun p => p.amount.val := by
  unfold liveAmounts sideOf
  rw [List.filter_map, List.map_map, List.filter_filter]
  refine congrArg _ (List.filter_congr ?_)
  intro p _
  rw [Function.comp_apply, ← Bool.decide_and]

theorem postedAmounts_sideOf (d : Direction) (ps : List Posting) :
    postedAmounts (sideOf d ps) = laneAmounts .posted d ps := by
  unfold postedAmounts sideOf laneAmounts
  rw [List.filter_map, List.map_map, List.filter_filter]
  refine congrArg _ (List.filter_congr ?_)
  intro p _
  rw [Function.comp_apply, ← Bool.decide_and]

theorem laneAmounts_sublist {st : Status} (hst : st ≠ .archived)
    (d : Direction) (ps : List Posting) :
    (laneAmounts st d ps).Sublist (liveAmounts (sideOf d ps)) := by
  rw [liveAmounts_sideOf]
  refine List.Sublist.map _ (List.monotone_filter_right ps ?_)
  intro p hp
  rw [decide_eq_true_eq] at hp ⊢
  exact ⟨by rw [hp.1]; exact hst, hp.2⟩

/-- The two lanes of a side make its total. -/
theorem sum_liveAmounts_sideOf (d : Direction) (ps : List Posting) :
    (liveAmounts (sideOf d ps)).sum = laneSum .posted d ps + laneSum .pending d ps := by
  rw [liveAmounts_sideOf]
  induction ps with
  | nil => rfl
  | cons p ps ih =>
    obtain ⟨st, dir, x⟩ := p
    unfold laneSum at ih ⊢
    cases st <;> by_cases hd : dir = d <;>
      simp [hd] at ih ⊢ <;> omega

variable {walk : List Transaction}

/-- What a walk over the tables adds up. -/
theorem sums_of_walk (hw : walk.Perm (Table.values m.transactions))
    (a : AccountId) (d : Direction) :
    postedSum m a d = laneSum .posted d (postings a walk)
      ∧ liveSum m a d = laneSum .posted d (postings a walk)
        + laneSum .pending d (postings a walk) := by
  have hperm : (legsIn m a d).Perm (sideOf d (postings a walk)) := by
    rw [← tableLegs_eq]
    exact (hw.flatMap_right _).symm
  refine ⟨?_, ?_⟩
  · unfold postedSum
    rw [(postedAmounts_perm hperm).sum_eq, postedAmounts_sideOf,
      InMemoryLedgerStore.sum_laneAmounts]
  · unfold liveSum
    rw [(liveAmounts_perm hperm).sum_eq, sum_liveAmounts_sideOf]

theorem tallyAll_of_fits (hw : walk.Perm (Table.values m.transactions))
    (hfits : ∀ d, Fits (liveAmounts (legsIn m a d))) :
    ∃ t, InMemoryLedgerStore.tallyAll a walk = .ok t := by
  rw [InMemoryLedgerStore.tallyAll_eq]
  refine InMemoryLedgerStore.addPostings_of_bounds ?_
  intro st d hst
  have hzero : (InMemoryLedgerStore.laneOf st d Tally.zero).val = 0 := by
    cases st <;> cases d <;> rfl
  have hperm : (legsIn m a d).Perm (sideOf d (postings a walk)) := by
    rw [← tableLegs_eq]
    exact (hw.flatMap_right _).symm
  obtain ⟨hlo, hhi⟩ := (hfits d).perm (liveAmounts_perm hperm)
  have hsub := laneAmounts_sublist hst d (postings a walk)
  have hu := ups_sublist hsub
  have hd := downs_sublist hsub
  rw [hzero]
  exact ⟨by omega, by omega⟩

-- ==== both balances

def exactBalance (m : InMemoryLedgerStore) (acc : Account) (h : InRange m acc) : Balance :=
  { currency := acc.currency
    posted := Money.fromMinor ⟨_, h.posted⟩ acc.currency
    pending := Money.fromMinor ⟨_, h.pending⟩ acc.currency }

theorem memory_balance (hw : walk.Perm (Table.values m.transactions))
    (ha : m.accounts.lookup acc.id = some acc) (hr : InRange m acc) :
    m.balance walk acc.id = .ok (exactBalance m acc hr) := by
  obtain ⟨t, ht⟩ := tallyAll_of_fits hw hr.sides
  obtain ⟨hpd, hpc, hqd, hqc⟩ := InMemoryLedgerStore.tallyAll_ok ht
  obtain ⟨hP, hL⟩ := sums_of_walk hw acc.id .debit
  obtain ⟨hP', hL'⟩ := sums_of_walk hw acc.id .credit
  have hlive : ∀ d, InI64 (liveSum m acc.id d) := by
    intro d
    obtain ⟨hlo, hhi⟩ := hr.sides d
    have hd := downs_nonpos (liveAmounts (legsIn m acc.id d))
    have hu := ups_nonneg (liveAmounts (legsIn m acc.id d))
    unfold liveSum
    rw [sum_eq_ups_add_downs]
    exact ⟨by omega, by omega⟩
  unfold InMemoryLedgerStore.balance
  rw [ha]
  refine bind_eq_ok.2 ⟨t, ht, bind_eq_ok.2 ⟨⟨_, hr.posted⟩, ?_,
    bind_eq_ok.2 ⟨⟨_, hlive .debit⟩, ?_, bind_eq_ok.2 ⟨⟨_, hlive .credit⟩,
      ?_, bind_eq_ok.2 ⟨⟨_, hr.pending⟩, ?_, rfl⟩⟩⟩⟩⟩
  · rw [InMemoryLedgerStore.signByNormal_ok, hpd, hpc, ← hP, ← hP']
  · rw [InMemoryLedgerStore.addOrOverflow_ok, hpd, hqd, ← hL]
  · rw [InMemoryLedgerStore.addOrOverflow_ok, hpc, hqc, ← hL']
  · rw [InMemoryLedgerStore.signByNormal_ok]

/-- Where a total does not fit it fails. -/
theorem memory_overflow (hw : walk.Perm (Table.values m.transactions))
    (ha : m.accounts.lookup a = some acc) (ho : Overflows m a) :
    m.balance walk a = .error (.core .overflow) := by
  cases hb : m.balance walk a with
  | error e => rw [InMemoryLedgerStore.balance_error ha hb]
  | ok b =>
    exfalso
    unfold InMemoryLedgerStore.balance at hb
    rw [ha] at hb
    obtain ⟨t, ht, hb⟩ := bind_eq_ok.1 hb
    obtain ⟨p, -, hb⟩ := bind_eq_ok.1 hb
    obtain ⟨td, htd, hb⟩ := bind_eq_ok.1 hb
    obtain ⟨tc, htc, -⟩ := bind_eq_ok.1 hb
    rw [InMemoryLedgerStore.addOrOverflow_ok] at htd htc
    obtain ⟨hpd, hpc, hqd, hqc⟩ := InMemoryLedgerStore.tallyAll_ok ht
    obtain ⟨d, hd⟩ := ho
    obtain ⟨hP, hL⟩ := sums_of_walk hw a d
    rw [hP, hL] at hd
    cases d with
    | debit =>
      rw [← hpd, ← hqd, ← htd] at hd
      exact hd.elim (fun h => h t.postedDebits.inRange)
        fun h => h td.inRange
    | credit =>
      rw [← hpc, ← hqc, ← htc] at hd
      exact hd.elim (fun h => h t.postedCredits.inRange)
        fun h => h tc.inRange

variable {g : GraphLedgerStore} {ord : RowOrder (Fact LedgerProp)}

theorem tally_of_stored (h : Represents g.handle.facts G)
    (hs : Stored sj m G) (ha : m.accounts.lookup a = some acc) {t : Tally}
    (ht : tallyIn sj ord g.handle.facts a acc.currency = .ok t) (d : Direction) :
    (postedOf d t).val = postedSum m a d ∧ (pendingOf d t).val = liveSum m a d := by
  obtain ⟨hperm, -⟩ := legs_perm_tableLegs hs ha
  obtain ⟨hp, hq⟩ := tallyIn_exact h ht d
  rw [hp, hq]
  exact ⟨(postedAmounts_perm (hperm d)).sum_eq, (liveAmounts_perm (hperm d)).sum_eq⟩

theorem graph_balance (h : Represents g.handle.facts G)
    (hs : Stored sj m G) (ha : m.accounts.lookup acc.id = some acc)
    (hr : InRange m acc) (ord : RowOrder (Fact LedgerProp)) :
    balance sj ord g acc.id = .ok (exactBalance m acc hr) := by
  obtain ⟨hperm, hread⟩ := legs_perm_tableLegs hs ha
  obtain ⟨name, externalId, haccount⟩ :=
    (hs.account _ acc ha).2.readAccount h ord
  obtain ⟨t, ht⟩ := tallyIn_of_fits h hread
    (fun d => (hr.sides d).perm (liveAmounts_perm (hperm d)).symm) ord
  obtain ⟨hPd, hLd⟩ := tally_of_stored h hs ha ht .debit
  obtain ⟨hPc, hLc⟩ := tally_of_stored h hs ha ht .credit
  have hposted : signByNormal acc.normalBalance t.postedDebits
      t.postedCredits = .ok ⟨_, hr.posted⟩ := by
    rw [InMemoryLedgerStore.signByNormal_ok]
    show _ = signed _ ((postedOf .debit t).val - (postedOf .credit t).val)
    rw [hPd, hPc]
  have hpending : signByNormal acc.normalBalance t.pendingDebits
      t.pendingCredits = .ok ⟨_, hr.pending⟩ := by
    rw [InMemoryLedgerStore.signByNormal_ok]
    show _ = signed _ ((pendingOf .debit t).val - (pendingOf .credit t).val)
    rw [hLd, hLc]
  unfold balance
  rw [lookupAccount_ok.2 haccount, ok_bind]
  refine bind_eq_ok.2 ⟨t, ht, ?_⟩
  rw [saturatingSigned_of_signByNormal hposted, saturatingSigned_of_signByNormal hpending]
  rfl

theorem addLeg_error {d : Direction} {acc : Tally} {l : Status × I64}
    {e : Error} (h : addLeg d acc l = .error e) : e = .core .overflow := by
  unfold addLeg at h
  split at h
  case h_5 => cases h
  all_goals
    obtain he | ⟨r, -, h⟩ := bind_eq_error.1 h
    · exact InMemoryLedgerStore.addOrOverflow_error he
    first
      | cases h
      | obtain he | ⟨q, -, h⟩ := bind_eq_error.1 h
        · exact InMemoryLedgerStore.addOrOverflow_error he
        · cases h

theorem tallyIn_error (h : Represents g.handle.facts G)
    {c : Currency} (hread : Readable sj G a c) {e : Error}
    (ht : tallyIn sj ord g.handle.facts a c = .error e) :
    e = .core .overflow := by
  rw [tallyIn_eq h hread] at ht
  obtain he | ⟨t, -, he⟩ := bind_eq_error.1 ht
  · obtain ⟨acc, l, -, hl⟩ := exists_of_foldlM_error he
    exact addLeg_error hl
  · obtain ⟨acc, l, -, hl⟩ := exists_of_foldlM_error he
    exact addLeg_error hl

/-- Where a total does not fit the graph store fails as well. -/
theorem graph_overflow (h : Represents g.handle.facts G)
    (hs : Stored sj m G) (ha : m.accounts.lookup acc.id = some acc)
    (ho : Overflows m acc.id) (ord : RowOrder (Fact LedgerProp)) :
    balance sj ord g acc.id = .error (.core .overflow) := by
  obtain ⟨-, hread⟩ := legs_perm_tableLegs hs ha
  obtain ⟨name, externalId, haccount⟩ :=
    (hs.account _ acc ha).2.readAccount h ord
  unfold balance
  rw [lookupAccount_ok.2 haccount, ok_bind]
  cases ht : tallyIn sj ord g.handle.facts acc.id acc.currency with
  | error e => rw [tallyIn_error h hread ht, error_bind]
  | ok t =>
    exfalso
    obtain ⟨d, hd⟩ := ho
    obtain ⟨hP, hL⟩ := tally_of_stored h hs ha ht d
    rw [← hP, ← hL] at hd
    exact hd.elim (fun h => h (postedOf d t).inRange)
      fun h => h (pendingOf d t).inRange

/-- **Both stores answer the same balance** where some total does not fit
or everything does. -/
theorem balance_eq (h : Represents g.handle.facts G) (hs : Stored sj m G)
    (ha : m.accounts.lookup acc.id = some acc) (hr : Overflows m acc.id ∨ InRange m acc)
    (hw : walk.Perm (Table.values m.transactions)) (ord : RowOrder (Fact LedgerProp)) :
    m.balance walk acc.id = balance sj ord g acc.id := by
  rcases hr with ho | hr
  · rw [memory_overflow hw ha ho, graph_overflow h hs ha ho]
  · rw [memory_balance hw ha hr, graph_balance h hs ha hr]

end

end OpenStandards.OpGraph

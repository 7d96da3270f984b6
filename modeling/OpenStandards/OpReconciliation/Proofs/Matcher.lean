/-
What the two-tier matcher answers, in closed form.

Tier 1 is a classification of each line on its own: the transaction its
reference leads to, and what comes of the comparison. Tier 2 is first
fit (`Lib/FirstFit.lean`) of the lines without such a transaction over
the transactions no reference led to. `matchLines_eq` puts the three
loops together; both main results on the matcher are read off it.
-/
import OpenStandards.OpReconciliation.Matcher
import OpenStandards.Lib.FirstFit
import Mathlib.Data.Finset.Lattice.Lemmas

namespace OpenStandards.OpReconciliation

open Lib OpCore OpLedger

-- ==== the settled amount

def debits (es : List Entry) : List Entry :=
  es.filter fun e => e.direction = .debit

def magnitude (es : List Entry) : Int :=
  (es.map fun e => (e.amount.minorUnits.val.natAbs : Int)).sum

/-- The transaction settles exactly this amount: it has debits, all in
the amount's currency, and their magnitudes add up to it. -/
structure SettlesFor (tx : Transaction) (m : Money) : Prop where
  debited : debits tx.entries ≠ []
  currency : ∀ e ∈ debits tx.entries, e.amount.currency = m.currency
  amount : magnitude (debits tx.entries) = m.minorUnits.val

variable {e : Entry} {tx : Transaction} {txs : List Transaction}

theorem debits_cons_debit (he : e.direction = .debit) (es : List Entry) :
    debits (e :: es) = e :: debits es :=
  List.filter_cons_of_pos (by simp [he])

theorem debits_cons_other (he : e.direction ≠ .debit) (es : List Entry) :
    debits (e :: es) = debits es :=
  List.filter_cons_of_neg (by simp [he])

theorem magnitude_cons (e : Entry) (es : List Entry) :
    magnitude (e :: es) = (e.amount.minorUnits.val.natAbs : Int) + magnitude es :=
  List.sum_cons

theorem settledStep_other (he : e.direction ≠ .debit) (total : Option Money) :
    settledStep total e = some total :=
  if_pos he

/-- The loop once it has seen a debit: it goes through on one currency
and leaves the sum, wrapped. -/
theorem foldlM_settledStep (es : List Entry) (c : Currency) (x : Int) :
    es.foldlM settledStep (some ⟨.wrap x, c⟩)
      = if ∀ e ∈ debits es, e.amount.currency = c then
          some (some ⟨.wrap (x + magnitude (debits es)), c⟩)
        else none := by
  induction es generalizing x with
  | nil => simp [debits, magnitude]
  | cons e es ih =>
    rw [List.foldlM_cons]
    by_cases he : e.direction = .debit
    · rw [debits_cons_debit he, magnitude_cons]
      by_cases hc : e.amount.currency = c
      · have hstep : settledStep (some ⟨.wrap x, c⟩) e
            = some (some
              ⟨.wrap (x + (e.amount.minorUnits.val.natAbs : Int)), c⟩) := by
          unfold settledStep
          rw [if_neg (not_not_intro he)]
          simp only [hc, if_true, I64.abs_eq_wrap, I64.wrappingAdd_wrap]
        rw [hstep, Option.bind_eq_bind, Option.bind_some, ih]
        simp [hc, add_assoc]
      · have hstep : settledStep (some ⟨.wrap x, c⟩) e = none := by
          unfold settledStep
          rw [if_neg (not_not_intro he)]
          exact if_neg (Ne.symm hc)
        rw [hstep, if_neg fun h => hc (h e List.mem_cons_self)]
        rfl
    · rw [debits_cons_other he, settledStep_other he, Option.bind_eq_bind, Option.bind_some, ih]

theorem txSettledAmount_eq_some {m : Money} :
    txSettledAmount tx = some m
      ↔ debits tx.entries ≠ []
        ∧ (∀ e ∈ debits tx.entries, e.amount.currency = m.currency)
        ∧ m.minorUnits = .wrap (magnitude (debits tx.entries)) := by
  unfold txSettledAmount
  induction tx.entries with
  | nil => simp [debits]
  | cons e es ih =>
    rw [List.foldlM_cons]
    by_cases he : e.direction = .debit
    · have hstep : settledStep none e
          = some (some ⟨.wrap (e.amount.minorUnits.val.natAbs : Int), e.amount.currency⟩) := by
        unfold settledStep
        rw [if_neg (not_not_intro he), I64.abs_eq_wrap]
      rw [hstep, Option.bind_eq_bind, Option.bind_some, foldlM_settledStep,
        debits_cons_debit he, magnitude_cons]
      cases m with
      | mk minorUnits currency =>
        simp only [List.forall_mem_cons, ne_eq, reduceCtorEq, not_false_eq_true, true_and]
        constructor
        · intro h
          split at h
          · cases h
            exact ⟨⟨rfl, ‹_›⟩, rfl⟩
          · cases h
        · intro h
          rcases h with ⟨⟨hc, hall⟩, hm⟩
          subst hc hm
          rw [if_pos hall]
          rfl
    · rw [debits_cons_other he, settledStep_other he, Option.bind_eq_bind, Option.bind_some]
      exact ih

/-- The settled amount is right exactly where the sum does not leave the
width. -/
theorem settlesFor_iff {m : Money} :
    SettlesFor tx m ↔ txSettledAmount tx = some m ∧ InI64 (magnitude (debits tx.entries)) := by
  rw [txSettledAmount_eq_some]
  constructor
  · intro h
    refine ⟨⟨h.debited, h.currency, ?_⟩, ?_⟩
    · rw [h.amount, I64.wrap_val]
    · rw [h.amount]
      exact m.minorUnits.inRange
  · intro h
    rcases h with ⟨⟨hd, hc, hm⟩, hrange⟩
    refine ⟨hd, hc, ?_⟩
    rw [hm, I64.val_wrap hrange]

-- ==== tier 1

def referenced (txs : List Transaction) (line : StatementLine) : Option Transaction :=
  line.externalId.bind fun ext => (byExternal txs).lookup ext

def exactHit (txs : List Transaction) (line : StatementLine) : Option Transaction :=
  (referenced txs line).filter fun tx =>
    decide (txSettledAmount tx = some line.amount) && statusIsConsistent tx.status

def joinFlag (txs : List Transaction) (line : StatementLine) : Option Discrepancy :=
  (referenced txs line).bind fun tx =>
    match txSettledAmount tx with
    | none => some (.unmatchedStatement line)
    | some amt =>
      if amt ≠ line.amount then some (.amountMismatch line tx.id amt)
      else if statusIsConsistent tx.status then none
      else some (.statusMismatch line tx.id tx.status)

def exactPairs (txs : List Transaction) (lines : List StatementLine) :
    List (StatementLine × Transaction) :=
  lines.filterMap fun l => (exactHit txs l).map fun t => (l, t)

def referencedIds (txs : List Transaction) (lines : List StatementLine) :
    Finset TransactionId :=
  ((lines.filterMap (referenced txs)).map Transaction.id).toFinset

def deferredLines (txs : List Transaction) (lines : List StatementLine) : List StatementLine :=
  lines.filter fun l => (referenced txs l).isNone

def pairOf (fuzzy : Bool) (p : StatementLine × Transaction) : MatchedPair :=
  { statementSourceId := p.1.sourceId, txId := p.2.id, fuzzy }

theorem of_lookup_byExternal {ext : String} (h : (byExternal txs).lookup ext = some tx) :
    tx ∈ txs ∧ tx.externalId = some ext := by
  unfold byExternal at h
  induction txs using List.reverseRecOn with
  | nil => cases h
  | append_singleton txs tx' ih =>
    rw [List.foldl_append, List.foldl_cons, List.foldl_nil] at h
    have hlift : tx ∈ txs ∧ tx.externalId = some ext →
        tx ∈ txs ++ [tx'] ∧ tx.externalId = some ext :=
      fun h => ⟨List.mem_append_left _ h.1, h.2⟩
    cases hext : tx'.externalId with
    | none =>
      simp only [hext] at h
      exact hlift (ih h)
    | some ext' =>
      simp only [hext] at h
      rw [Table.lookup_insert_eq] at h
      split at h
      case isTrue heq =>
        cases h
        exact ⟨List.mem_append_right _ (List.mem_singleton_self _), heq ▸ hext⟩
      case isFalse => exact hlift (ih h)

theorem mem_of_referenced {line : StatementLine}
    (h : referenced txs line = some tx) : tx ∈ txs := by
  rcases Option.bind_eq_some_iff.1 h with ⟨ext, -, hlookup⟩
  exact (of_lookup_byExternal hlookup).1

theorem exactHit_eq_some {line : StatementLine} :
    exactHit txs line = some tx
      ↔ referenced txs line = some tx
        ∧ txSettledAmount tx = some line.amount ∧ tx.status = .posted := by
  unfold exactHit statusIsConsistent
  rw [Option.filter_eq_some_iff]
  simp

theorem exactPairs_cons (txs : List Transaction) (l : StatementLine) (ls : List StatementLine) :
    exactPairs txs (l :: ls)
      = ((exactHit txs l).map fun t => (l, t)).toList ++ exactPairs txs ls := by
  unfold exactPairs
  rw [List.filterMap_cons]
  cases exactHit txs l with
  | none => rfl
  | some t => rfl

theorem tier1Step_eq (txs : List Transaction) (s : Matching) (l : StatementLine) :
    Matching.tier1Step txs s l =
      { used := s.used ∪ referencedIds txs [l]
        discrepancies := s.discrepancies ++ (joinFlag txs l).toList
        matched := s.matched + (exactPairs txs [l]).length
        fuzzyMatched := s.fuzzyMatched
        matchedPairs :=
          s.matchedPairs ++ (exactPairs txs [l]).map (pairOf false)
        deferred := s.deferred ++ deferredLines txs [l] } := by
  unfold Matching.tier1Step
  cases hext : l.externalId with
  | none =>
    have href : referenced txs l = none := by simp [referenced, hext]
    simp [Matching.defer, referencedIds, joinFlag, exactPairs, exactHit, deferredLines, href]
  | some ext =>
    simp only
    cases hlookup : (byExternal txs).lookup ext with
    | none =>
      have href : referenced txs l = none := by
        simp [referenced, hext, hlookup]
      simp [Matching.defer, referencedIds, joinFlag, exactPairs, exactHit, deferredLines, href]
    | some tx =>
      have href : referenced txs l = some tx := by
        simp [referenced, hext, hlookup]
      have hused : insert tx.id s.used = s.used ∪ referencedIds txs [l] := by
        simp [referencedIds, href]
      simp only [Matching.mark, Matching.flag, ← hused]
      cases hamt : txSettledAmount tx with
      | none =>
        simp [joinFlag, exactPairs, exactHit, deferredLines, href, hamt]
      | some amt =>
        have hmoney : (amt.currency = l.amount.currency
            ∧ amt.minorUnits = l.amount.minorUnits) ↔ amt = l.amount := by
          cases amt
          cases l.amount
          simp [and_comm]
        simp only [hmoney]
        by_cases heq : amt = l.amount
        · cases hst : statusIsConsistent tx.status with
          | false =>
            simp [joinFlag, exactPairs, exactHit, deferredLines, href, hamt, heq, hst]
          | true =>
            simp [joinFlag, exactPairs, exactHit, deferredLines, href, hamt, heq, hst, pairOf]
        · simp [joinFlag, exactPairs, exactHit, deferredLines, href, hamt, heq]

theorem run_tier1Step (txs : List Transaction) (s : Matching) (lines : List StatementLine) :
    run (Matching.tier1Step txs) s lines =
      { used := s.used ∪ referencedIds txs lines
        discrepancies := s.discrepancies ++ lines.filterMap (joinFlag txs)
        matched := s.matched + (exactPairs txs lines).length
        fuzzyMatched := s.fuzzyMatched
        matchedPairs :=
          s.matchedPairs ++ (exactPairs txs lines).map (pairOf false)
        deferred := s.deferred ++ deferredLines txs lines } := by
  induction lines using List.reverseRecOn with
  | nil => simp [run, referencedIds, exactPairs, deferredLines]
  | append_singleton lines l ih =>
    rw [run_append, ih]
    show Matching.tier1Step txs _ l = _
    rw [tier1Step_eq]
    have hflag : [l].filterMap (joinFlag txs) = (joinFlag txs l).toList := by
      cases h : joinFlag txs l with
      | none => simp [h]
      | some d => simp [h]
    simp [referencedIds, exactPairs, deferredLines, List.filterMap_append,
      Finset.union_assoc, List.append_assoc, hflag, Nat.add_assoc]

-- ==== tier 2

def freeOf (used : Finset TransactionId) (txs : List Transaction) : List Transaction :=
  txs.filter fun tx => !decide (tx.id ∈ used)

theorem tier2Step_eq (txs : List Transaction) (tol : Nat) (s : Matching) (l : StatementLine) :
    Matching.tier2Step txs tol s l =
      match (freeOf s.used txs).find? (Matching.fuzzyFits tol l) with
      | some tx =>
        { s with
          used := insert tx.id s.used
          fuzzyMatched := s.fuzzyMatched + 1
          matchedPairs := s.matchedPairs ++ [pairOf true (l, tx)] }
      | none => s.flag (.unmatchedStatement l) := by
  unfold Matching.tier2Step
  simp only [find?_free]
  rfl

theorem run_tier2Step (hids : (txs.map Transaction.id).Nodup) (tol : Nat)
    (s : Matching) (items : List StatementLine) :
    run (Matching.tier2Step txs tol) s items =
      { s with
        used := s.used ∪ ((placed (Matching.fuzzyFits tol)
          (freeOf s.used txs) items).map fun p => p.2.id).toFinset
        discrepancies := s.discrepancies
          ++ (unplaced (Matching.fuzzyFits tol) (freeOf s.used txs) items).map
            Discrepancy.unmatchedStatement
        fuzzyMatched := s.fuzzyMatched + (placed (Matching.fuzzyFits tol)
          (freeOf s.used txs) items).length
        matchedPairs := s.matchedPairs
          ++ (placed (Matching.fuzzyFits tol) (freeOf s.used txs) items).map
            (pairOf true) } := by
  induction items generalizing s with
  | nil => simp [run, placed_nil, unplaced_nil]
  | cons l items ih =>
    show run _ (Matching.tier2Step txs tol s l) items = _
    rw [tier2Step_eq]
    cases hfind : (freeOf s.used txs).find? (Matching.fuzzyFits tol l) with
    | none =>
      rw [placed_cons_none hfind, unplaced_cons_none hfind]
      simp only
      rw [ih]
      simp [Matching.flag]
    | some tx =>
      have hfree : freeOf (insert tx.id s.used) txs
          = takeFirst (Matching.fuzzyFits tol) (freeOf s.used txs) l := by
        refine filter_free_eq_eraseP Transaction.id hids hfind ?_
        intro c _
        by_cases hc : c.id = tx.id
        · simp [hc]
        · simp [hc]
      rw [placed_cons_some hfind, unplaced_cons_some hfind]
      simp only
      rw [ih]
      simp [hfree, pairOf, Nat.add_assoc, Nat.add_comm 1, Finset.insert_union]

-- ==== leftovers

def leftovers (window : Nat × Nat) (used : Finset TransactionId)
    (txs : List Transaction) : List Transaction :=
  (freeOf used txs).filter (Matching.inWindow window)

theorem run_leftoverStep (window : Nat × Nat) (s : Matching) (txs : List Transaction) :
    run (Matching.leftoverStep window) s txs =
      { s with discrepancies := s.discrepancies
          ++ (leftovers window s.used txs).map fun tx =>
            Discrepancy.unmatchedLedger tx.id tx.externalId } := by
  induction txs generalizing s with
  | nil => simp [run, leftovers, freeOf]
  | cons tx txs ih =>
    show run _ (Matching.leftoverStep window s tx) txs = _
    rw [ih]
    by_cases hused : tx.id ∈ s.used
    · simp [Matching.leftoverStep, leftovers, freeOf, hused]
    · cases hin : Matching.inWindow window tx with
      | false => simp [Matching.leftoverStep, leftovers, freeOf, hused, hin]
      | true =>
        simp [Matching.leftoverStep, Matching.flag, leftovers, freeOf, hused, hin]

-- ==== the run

def unreferenced (txs : List Transaction) (lines : List StatementLine) : List Transaction :=
  freeOf (referencedIds txs lines) txs

def fuzzyPairs (txs : List Transaction) (tol : Nat)
    (lines : List StatementLine) : List (StatementLine × Transaction) :=
  placed (Matching.fuzzyFits tol) (unreferenced txs lines) (deferredLines txs lines)

def orphanLines (txs : List Transaction) (tol : Nat)
    (lines : List StatementLine) : List StatementLine :=
  unplaced (Matching.fuzzyFits tol) (unreferenced txs lines) (deferredLines txs lines)

def markedIds (txs : List Transaction) (tol : Nat)
    (lines : List StatementLine) : Finset TransactionId :=
  referencedIds txs lines ∪ ((fuzzyPairs txs tol lines).map fun p => p.2.id).toFinset

/-- What `match_lines` answers, transaction ids being distinct. -/
theorem matchLines_eq (hids : (txs.map Transaction.id).Nodup)
    (lines : List StatementLine) (window : Nat × Nat) (tol : Nat) :
    matchLines lines txs window tol =
      { matched := (exactPairs txs lines).length
        fuzzyMatched := (fuzzyPairs txs tol lines).length
        discrepancies := lines.filterMap (joinFlag txs)
          ++ (orphanLines txs tol lines).map .unmatchedStatement
          ++ (leftovers window (markedIds txs tol lines) txs).map fun tx =>
            Discrepancy.unmatchedLedger tx.id tx.externalId
        matchedPairs := (exactPairs txs lines).map (pairOf false)
          ++ (fuzzyPairs txs tol lines).map (pairOf true) } := by
  unfold matchLines
  simp only [run_tier1Step, run_tier2Step hids, run_leftoverStep,
    Matching.init, List.nil_append, Nat.zero_add, Finset.empty_union]
  rfl

end OpenStandards.OpReconciliation

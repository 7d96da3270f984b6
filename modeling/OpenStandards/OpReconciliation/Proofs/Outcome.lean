/-
Two promises of the matcher, and exactly when it keeps them.

`Sound`: what is reported as matched is matched. Tier 1 never asks whether
a transaction is used; tier 2 asks, but not for its status; and both
compare with a sum that wraps.

`Accounts`: nothing is passed over. The lines always come out even. A
transaction is passed over where a line's reference leads to it and it
cannot be valued: the discrepancy names the line alone.
-/
import OpenStandards.OpReconciliation.Proofs.Matcher

namespace OpenStandards.OpReconciliation

open Lib OpCore OpLedger

-- ==== the promises

def Discrepancy.line? : Discrepancy → Option StatementLine
  | .unmatchedStatement line => some line
  | .unmatchedLedger _ _ => none
  | .amountMismatch line _ _ => some line
  | .statusMismatch line _ _ => some line

def Discrepancy.txId? : Discrepancy → Option TransactionId
  | .unmatchedStatement _ => none
  | .unmatchedLedger txId _ => some txId
  | .amountMismatch _ txId _ => some txId
  | .statusMismatch _ txId _ => some txId

def Sound (lines : List StatementLine) (txs : List Transaction) (o : MatchOutcome) : Prop :=
  ∃ ps : List (StatementLine × Transaction),
    o.matchedPairs.map (fun p => (p.statementSourceId, p.txId))
        = ps.map (fun p => (p.1.sourceId, p.2.id))
      ∧ (ps.map Prod.fst).Subperm lines
      ∧ (ps.map fun p => p.2.id).Nodup
      ∧ ∀ p ∈ ps, p.2 ∈ txs ∧ p.2.status = .posted ∧ SettlesFor p.2 p.1.amount

/-- Every line is in one matched pair or one discrepancy, and every
transaction in the window is in a matched pair or a discrepancy. -/
structure Accounts (lines : List StatementLine) (txs : List Transaction)
    (window : Nat × Nat) (o : MatchOutcome) : Prop where
  counts : o.matched + o.fuzzyMatched
    + (o.discrepancies.filterMap Discrepancy.line?).length = lines.length
  lines : ∃ ls : List StatementLine,
    ls.map StatementLine.sourceId = o.matchedPairs.map MatchedPair.statementSourceId
      ∧ (ls ++ o.discrepancies.filterMap Discrepancy.line?).Perm lines
  transactions : ∀ t ∈ txs, Matching.inWindow window t = true →
    t.id ∈ o.matchedPairs.map MatchedPair.txId
      ∨ t.id ∈ o.discrepancies.filterMap Discrepancy.txId?
  clean : o.discrepancies = [] →
    ∀ t ∈ txs, Matching.inWindow window t = true → t.id ∈ o.matchedPairs.map MatchedPair.txId

-- ==== the lines

section
variable {txs : List Transaction} {lines : List StatementLine}
  {window : Nat × Nat} {tol : Nat}

/-- What tier 1 makes of a line: it is left to tier 2, matched, or
flagged. A flag names the transaction unless it cannot be valued. -/
theorem joined_cases (txs : List Transaction) (l : StatementLine) :
    (referenced txs l = none ∧ exactHit txs l = none ∧ joinFlag txs l = none)
      ∨ (∃ t, referenced txs l = some t ∧ exactHit txs l = some t ∧ joinFlag txs l = none)
      ∨ ∃ t d, referenced txs l = some t ∧ exactHit txs l = none
          ∧ joinFlag txs l = some d ∧ d.line? = some l
          ∧ d.txId? = (txSettledAmount t).map fun _ => t.id := by
  unfold exactHit joinFlag
  cases referenced txs l with
  | none => exact .inl ⟨rfl, rfl, rfl⟩
  | some t =>
    right
    cases hamt : txSettledAmount t with
    | none =>
      right
      exact ⟨t, .unmatchedStatement l, rfl, by simp [hamt], by simp [hamt],
        rfl, by simp [Discrepancy.txId?, hamt]⟩
    | some amt =>
      by_cases heq : amt = l.amount
      · cases hst : statusIsConsistent t.status with
        | false =>
          right
          exact ⟨t, .statusMismatch l t.id t.status, rfl,
            by simp [hst], by simp [hamt, heq, hst], rfl,
            by simp [Discrepancy.txId?, hamt]⟩
        | true =>
          left
          exact ⟨t, rfl, by simp [hamt, heq, hst], by simp [hamt, heq, hst]⟩
      · right
        exact ⟨t, .amountMismatch l t.id amt, rfl, by simp [hamt, heq],
          by simp [hamt, heq], rfl, by simp [Discrepancy.txId?, hamt]⟩

theorem tier1_perm (txs : List Transaction) (lines : List StatementLine) :
    ((exactPairs txs lines).map Prod.fst
      ++ ((lines.filterMap (joinFlag txs)).filterMap Discrepancy.line?
        ++ deferredLines txs lines)).Perm lines := by
  induction lines with
  | nil => exact .refl _
  | cons l lines ih =>
    rw [exactPairs_cons, List.filterMap_cons]
    unfold deferredLines at ih ⊢
    rcases joined_cases txs l with h | h | h
    · rcases h with ⟨href, hexact, hflag⟩
      rw [List.filter_cons_of_pos (by simp [href]), hexact, hflag]
      refine ((List.perm_middle.append_left _).trans ?_).trans (ih.cons l)
      exact List.perm_middle
    · rcases h with ⟨t, href, hexact, hflag⟩
      rw [List.filter_cons_of_neg (by simp [href]), hexact, hflag]
      exact ih.cons l
    · rcases h with ⟨t, d, href, hexact, hflag, hline, -⟩
      rw [List.filter_cons_of_neg (by simp [href]), hexact, hflag]
      simp only [Option.map_none, Option.toList_none, List.nil_append,
        List.filterMap_cons, hline]
      exact List.perm_middle.trans (ih.cons l)

variable (hids : (txs.map Transaction.id).Nodup)

include hids in
/-- The lines of the discrepancies: those tier 1 flags and those tier 2
turns away. -/
theorem discrepancy_lines :
    (matchLines lines txs window tol).discrepancies.filterMap Discrepancy.line?
      = (lines.filterMap (joinFlag txs)).filterMap Discrepancy.line?
        ++ orphanLines txs tol lines := by
  rw [matchLines_eq hids]
  have horphans : ∀ ls : List StatementLine,
      (ls.map Discrepancy.unmatchedStatement).filterMap Discrepancy.line? = ls := by
    intro ls
    rw [List.filterMap_map]
    exact List.filterMap_some ..
  have hledger : ∀ ts : List Transaction,
      (ts.map fun tx => Discrepancy.unmatchedLedger tx.id tx.externalId
        ).filterMap Discrepancy.line? = [] := by
    intro ts
    rw [List.filterMap_map]
    exact List.filterMap_eq_nil_iff.2 fun _ _ => rfl
  rw [List.filterMap_append, List.filterMap_append, horphans, hledger, List.append_nil]

def pairs (txs : List Transaction) (tol : Nat) (lines : List StatementLine) :
    List (StatementLine × Transaction) :=
  exactPairs txs lines ++ fuzzyPairs txs tol lines

include hids in
theorem lines_perm :
    ((pairs txs tol lines).map Prod.fst
      ++ (matchLines lines txs window tol).discrepancies.filterMap
        Discrepancy.line?).Perm lines := by
  rw [discrepancy_lines hids]
  unfold pairs
  rw [List.map_append, List.append_assoc]
  refine List.Perm.trans (List.Perm.append_left _ ?_) (tier1_perm txs lines)
  refine (List.Perm.append_left _ List.perm_append_comm).trans ?_
  rw [← List.append_assoc]
  refine List.perm_append_comm.trans (List.Perm.append_left _ ?_)
  exact placed_perm_items _ _

include hids in
theorem matchedPairs_eq :
    (matchLines lines txs window tol).matchedPairs.map (fun p => (p.statementSourceId, p.txId))
      = (pairs txs tol lines).map fun p => (p.1.sourceId, p.2.id) := by
  rw [matchLines_eq hids]
  unfold pairs
  simp [pairOf, Function.comp_def]

-- ==== the transactions

include hids in
theorem eq_of_id_eq {t t' : Transaction} (ht : t ∈ txs) (ht' : t' ∈ txs)
    (heq : t.id = t'.id) : t = t' :=
  List.inj_on_of_nodup_map hids ht ht' heq

theorem mem_referencedIds {id : TransactionId} :
    id ∈ referencedIds txs lines ↔ ∃ l ∈ lines, ∃ t, referenced txs l = some t ∧ t.id = id := by
  unfold referencedIds
  rw [List.mem_toFinset, List.mem_map]
  constructor
  · intro h
    rcases h with ⟨t, ht, heq⟩
    rcases List.mem_filterMap.1 ht with ⟨l, hl, href⟩
    exact ⟨l, hl, t, href, heq⟩
  · intro h
    rcases h with ⟨l, hl, t, href, heq⟩
    exact ⟨t, List.mem_filterMap.2 ⟨l, hl, href⟩, heq⟩

variable {p : StatementLine × Transaction}

theorem mem_exactPairs :
    p ∈ exactPairs txs lines ↔ p.1 ∈ lines ∧ exactHit txs p.1 = some p.2 := by
  unfold exactPairs
  rw [List.mem_filterMap]
  constructor
  · intro h
    rcases h with ⟨l, hl, hp⟩
    rcases Option.map_eq_some_iff.1 hp with ⟨t, ht, rfl⟩
    exact ⟨hl, ht⟩
  · intro h
    exact ⟨p.1, h.1, by rw [h.2]; rfl⟩

/-- The transactions of tier 2 are none of those of tier 1. -/
theorem of_mem_fuzzyPairs (h : p ∈ fuzzyPairs txs tol lines) :
    p.2 ∈ txs ∧ p.2.id ∉ referencedIds txs lines ∧ txSettledAmount p.2 = some p.1.amount := by
  have hslot := List.mem_filter.1 (mem_slots_of_mem_placed h)
  have hfits := fits_of_mem_placed h
  refine ⟨hslot.1, by simpa using hslot.2, ?_⟩
  unfold Matching.fuzzyFits at hfits
  cases hamt : txSettledAmount p.2 with
  | none => simp [hamt] at hfits
  | some amt =>
    rw [hamt] at hfits
    simp only [Bool.and_eq_true, decide_eq_true_eq] at hfits
    cases amt
    rcases hfits with ⟨⟨rfl, rfl⟩, -⟩
    rfl

/-- The transaction of a matched pair, of either tier. -/
theorem of_mem_pairs (h : p ∈ pairs txs tol lines) :
    p.2 ∈ txs ∧ txSettledAmount p.2 = some p.1.amount := by
  rcases List.mem_append.1 h with h | h
  · rcases exactHit_eq_some.1 (mem_exactPairs.1 h).2 with ⟨href, hamt, -⟩
    exact ⟨mem_of_referenced href, hamt⟩
  · rcases of_mem_fuzzyPairs h with ⟨hmem, -, hamt⟩
    exact ⟨hmem, hamt⟩

-- ==== soundness

theorem mem_of_exactHit {l : StatementLine} {t : Transaction}
    (h : exactHit txs l = some t) : t ∈ txs :=
  mem_of_referenced (exactHit_eq_some.1 h).1

include hids in
theorem nodup_exactPairs_iff :
    ((exactPairs txs lines).map fun p => p.2.id).Nodup
      ↔ lines.Pairwise fun l l' =>
          ∀ t, exactHit txs l = some t → exactHit txs l' ≠ some t := by
  unfold exactPairs List.Nodup
  rw [List.map_filterMap, List.pairwise_filterMap]
  refine iff_of_eq ?_
  congr 1
  funext l l'
  apply propext
  constructor
  · intro h t hl hl'
    exact h t.id (by rw [hl]; rfl) t.id (by rw [hl']; rfl) rfl
  · intro h id hid id' hid' heq
    simp only [Option.map_map, Option.map_eq_some_iff] at hid hid'
    rcases hid with ⟨t, hl, rfl⟩
    rcases hid' with ⟨t', hl', rfl⟩
    have hsame : t = t' :=
      eq_of_id_eq hids (mem_of_exactHit hl) (mem_of_exactHit hl') heq
    subst hsame
    exact h t hl hl'

include hids in
theorem nodup_fuzzyPairs : ((fuzzyPairs txs tol lines).map fun p => p.2.id).Nodup := by
  have hslots : ((unreferenced txs lines).map Transaction.id).Nodup :=
    (List.filter_sublist.map _).nodup hids
  have hperm := (@placed_perm_slots _ _ (Matching.fuzzyFits tol)
    (unreferenced txs lines) (deferredLines txs lines)).map Transaction.id
  rw [List.map_append] at hperm
  have hplaced := (hperm.nodup_iff.2 hslots).of_append_left
  rw [List.map_map] at hplaced
  exact hplaced

include hids in
theorem nodup_pairs_iff :
    ((pairs txs tol lines).map fun p => p.2.id).Nodup
      ↔ lines.Pairwise fun l l' =>
          ∀ t, exactHit txs l = some t → exactHit txs l' ≠ some t := by
  unfold pairs
  rw [List.map_append, List.nodup_append', nodup_exactPairs_iff hids]
  constructor
  · intro h
    exact h.1
  · intro h
    refine ⟨h, nodup_fuzzyPairs hids, ?_⟩
    intro id hexact hfuzzy
    rcases List.mem_map.1 hexact with ⟨p, hp, rfl⟩
    rcases List.mem_map.1 hfuzzy with ⟨q, hq, heq⟩
    apply (of_mem_fuzzyPairs hq).2.1
    rcases mem_exactPairs.1 hp with ⟨hline, hhit⟩
    rw [heq, mem_referencedIds]
    exact ⟨p.1, hline, p.2, (exactHit_eq_some.1 hhit).1, rfl⟩

include hids in
/-- Soundness is a property of the pairs: which line a pair names is
settled, and the id settles the transaction. -/
theorem sound_iff_pairs :
    Sound lines txs (matchLines lines txs window tol)
      ↔ ((pairs txs tol lines).map fun p => p.2.id).Nodup
        ∧ ∀ p ∈ pairs txs tol lines,
          p.2.status = .posted ∧ InI64 (magnitude (debits p.2.entries)) := by
  unfold Sound
  rw [matchedPairs_eq hids]
  constructor
  · intro h
    rcases h with ⟨ps, hps, -, hnodup, hgood⟩
    have hidsEq : (pairs txs tol lines).map (fun p => p.2.id) = ps.map fun p => p.2.id := by
      have := congrArg (List.map Prod.snd) hps
      simpa only [List.map_map, Function.comp_def] using this
    refine ⟨hidsEq ▸ hnodup, fun p hp => ?_⟩
    have hmem : p.2.id ∈ ps.map fun p => p.2.id :=
      hidsEq ▸ List.mem_map_of_mem hp
    rcases List.mem_map.1 hmem with ⟨q, hq, heq⟩
    rcases hgood q hq with ⟨hqmem, hposted, hsettles⟩
    rw [← eq_of_id_eq hids hqmem (of_mem_pairs hp).1 heq]
    exact ⟨hposted, (settlesFor_iff.1 hsettles).2⟩
  · intro h
    refine ⟨pairs txs tol lines, rfl, ?_, h.1, fun p hp => ?_⟩
    · have hperm := @lines_perm txs lines window tol hids
      exact (List.sublist_append_left _ _).subperm.trans hperm.subperm
    · rcases of_mem_pairs hp with ⟨hmem, hamt⟩
      rcases h.2 p hp with ⟨hposted, hrange⟩
      exact ⟨hmem, hposted, settlesFor_iff.2 ⟨hamt, hrange⟩⟩

end

/-- The matches are sound exactly where no two lines hit the same
transaction exactly, no transaction hit exactly has a sum that wraps, and
in tier 2, line after line, the first transaction left that fits is
posted and its sum does not wrap. -/
theorem matches_sound_iff (lines : List StatementLine)
    (txs : List Transaction) (window : Nat × Nat) (tol : Nat)
    (hids : (txs.map Transaction.id).Nodup) :
    Sound lines txs (matchLines lines txs window tol)
      ↔ (lines.Pairwise fun l l' =>
            ∀ t, exactHit txs l = some t → exactHit txs l' ≠ some t)
        ∧ (∀ l ∈ lines, ∀ t, exactHit txs l = some t → InI64 (magnitude (debits t.entries)))
        ∧ Along (takeFirst (Matching.fuzzyFits tol))
            (fun free l => ∀ t, free.find? (Matching.fuzzyFits tol l) = some t →
              t.status = .posted ∧ InI64 (magnitude (debits t.entries)))
            (unreferenced txs lines) (deferredLines txs lines) := by
  rw [sound_iff_pairs hids, nodup_pairs_iff hids, ← forall_placed_iff_along]
  apply and_congr_right
  intro _
  unfold pairs
  constructor
  · intro h
    constructor
    · intro l hl t ht
      have hp : (l, t) ∈ exactPairs txs lines := mem_exactPairs.2 ⟨hl, ht⟩
      exact (h _ (List.mem_append_left _ hp)).2
    · intro p hp
      exact h p (List.mem_append_right _ hp)
  · intro h p hp
    rcases List.mem_append.1 hp with hp | hp
    · rcases mem_exactPairs.1 hp with ⟨hline, hhit⟩
      exact ⟨(exactHit_eq_some.1 hhit).2.2, h.1 p.1 hline p.2 hhit⟩
    · exact h.2 p hp

-- the fixture of the source's tests

def booked (id : Nat) (status : Status) (externalId : Option String)
    (minor : I64) (effectiveAt : Nat) : Transaction :=
  { id := ⟨⟨id⟩⟩, ledgerId := ⟨⟨0⟩⟩, status, externalId, description := none
    effectiveAtUnixSecs := effectiveAt
    entries := [.debit ⟨⟨1⟩⟩ (.fromMinor minor .USD), .credit ⟨⟨2⟩⟩ (.fromMinor minor .USD)]
    metadata := [] }

def received (sourceId : String) (externalId : Option String) (minor : I64)
    (postedAt : Nat) : StatementLine :=
  { StatementLine.new sourceId (.fromMinor minor .USD) .credit postedAt with
    externalId }

def twoLines : List StatementLine :=
  [received "n1" (some "ORD-1") ⟨5000, by decide⟩ 100,
    received "n2" none ⟨7777, by decide⟩ 2800]

def twoBooked : List Transaction :=
  [booked 1 .posted (some "ORD-1") ⟨5000, by decide⟩ 100,
    booked 2 .posted (some "ORD-4") ⟨7777, by decide⟩ 1000]

theorem twoLines_sound :
    (twoBooked.map Transaction.id).Nodup
      ∧ Sound twoLines twoBooked (matchLines twoLines twoBooked (0, 1000000) 3600) := by
  refine ⟨by decide, ?_⟩
  rw [matches_sound_iff _ _ _ _ (by decide)]
  decide +kernel

/-- The bank's line reported twice is matched twice with one transaction,
and a pending transaction is matched by amount and time. -/
theorem matches_not_sound :
    ¬ Sound
        [received "n1" (some "ORD-1") ⟨5000, by decide⟩ 100,
          received "n2" (some "ORD-1") ⟨5000, by decide⟩ 100]
        [booked 1 .posted (some "ORD-1") ⟨5000, by decide⟩ 100]
        (matchLines
          [received "n1" (some "ORD-1") ⟨5000, by decide⟩ 100,
            received "n2" (some "ORD-1") ⟨5000, by decide⟩ 100]
          [booked 1 .posted (some "ORD-1") ⟨5000, by decide⟩ 100]
          (0, 1000000) 3600)
      ∧ ¬ Sound [received "n1" none ⟨7777, by decide⟩ 2800]
        [booked 1 .pending (some "ORD-4") ⟨7777, by decide⟩ 1000]
        (matchLines [received "n1" none ⟨7777, by decide⟩ 2800]
          [booked 1 .pending (some "ORD-4") ⟨7777, by decide⟩ 1000]
          (0, 1000000) 3600) := by
  constructor
  · rw [sound_iff_pairs (by decide)]
    decide +kernel
  · rw [sound_iff_pairs (by decide)]
    decide +kernel

-- ==== accounting

section
variable {txs : List Transaction} {lines : List StatementLine}
  {window : Nat × Nat} {tol : Nat}
  (hids : (txs.map Transaction.id).Nodup)

include hids in
theorem matched_add_fuzzyMatched :
    (matchLines lines txs window tol).matched + (matchLines lines txs window tol).fuzzyMatched
      = ((pairs txs tol lines).map Prod.fst).length := by
  rw [matchLines_eq hids]
  unfold pairs
  rw [List.length_map, List.length_append]

variable {id : TransactionId}

include hids in
theorem mem_matchedIds :
    id ∈ (matchLines lines txs window tol).matchedPairs.map MatchedPair.txId
      ↔ ∃ p ∈ pairs txs tol lines, p.2.id = id := by
  have h := congrArg (List.map Prod.snd) (@matchedPairs_eq txs lines window tol hids)
  simp only [List.map_map, Function.comp_def] at h
  show id ∈ (matchLines lines txs window tol).matchedPairs.map (fun p => p.txId) ↔ _
  rw [h, List.mem_map]

include hids in
/-- The transactions the discrepancies name: those tier 1 flags and can
value, and those left over in the window. -/
theorem mem_discrepancyIds :
    id ∈ (matchLines lines txs window tol).discrepancies.filterMap Discrepancy.txId?
      ↔ (∃ l ∈ lines, ∃ d, joinFlag txs l = some d ∧ d.txId? = some id)
        ∨ ∃ t ∈ leftovers window (markedIds txs tol lines) txs, t.id = id := by
  rw [matchLines_eq hids]
  simp only [List.filterMap_append, List.mem_append, List.mem_filterMap, List.mem_map]
  constructor
  · intro h
    rcases h with (h | h) | h
    · rcases h with ⟨d, ⟨l, hl, hd⟩, hid⟩
      exact .inl ⟨l, hl, d, hd, hid⟩
    · rcases h with ⟨d, ⟨l, -, rfl⟩, hid⟩
      cases hid
    · rcases h with ⟨d, ⟨t, ht, rfl⟩, hid⟩
      exact .inr ⟨t, ht, Option.some.inj hid⟩
  · intro h
    rcases h with h | h
    · rcases h with ⟨l, hl, d, hd, hid⟩
      exact .inl (.inl ⟨d, ⟨l, hl, hd⟩, hid⟩)
    · rcases h with ⟨t, ht, rfl⟩
      exact .inr ⟨_, ⟨t, ht, rfl⟩, rfl⟩

theorem mem_markedIds :
    id ∈ markedIds txs tol lines
      ↔ id ∈ referencedIds txs lines ∨ ∃ p ∈ fuzzyPairs txs tol lines, p.2.id = id := by
  unfold markedIds
  rw [Finset.mem_union, List.mem_toFinset, List.mem_map]

include hids in
/-- A transaction a reference leads to is named exactly where it can be
valued. -/
theorem referenced_named_iff {l : StatementLine} {t : Transaction}
    (hl : l ∈ lines) (href : referenced txs l = some t) :
    (t.id ∈ (matchLines lines txs window tol).matchedPairs.map MatchedPair.txId
        ∨ t.id ∈ (matchLines lines txs window tol).discrepancies.filterMap Discrepancy.txId?)
      ↔ (txSettledAmount t).isSome := by
  have hmem := mem_of_referenced href
  have hmarked : t.id ∈ referencedIds txs lines :=
    mem_referencedIds.2 ⟨l, hl, t, href, rfl⟩
  rw [mem_matchedIds hids, mem_discrepancyIds hids]
  constructor
  · intro h
    rcases h with h | h | h
    · rcases h with ⟨p, hp, heq⟩
      rcases of_mem_pairs hp with ⟨hp, hamt⟩
      rw [← eq_of_id_eq hids hp hmem heq, hamt]
      rfl
    · rcases h with ⟨l', -, d, hflag, hid⟩
      rcases joined_cases txs l' with h | h | h
      · rcases h with ⟨-, -, hnone⟩
        rw [hflag] at hnone
        cases hnone
      · rcases h with ⟨t', -, -, hnone⟩
        rw [hflag] at hnone
        cases hnone
      · rcases h with ⟨t', d', href', -, hflag', -, hid'⟩
        rw [hflag] at hflag'
        cases hflag'
        rw [hid, eq_comm, Option.map_eq_some_iff] at hid'
        rcases hid' with ⟨amt, hamt, heq⟩
        rw [← eq_of_id_eq hids (mem_of_referenced href') hmem heq, hamt]
        rfl
    · rcases h with ⟨t', ht', heq⟩
      have hfree := (List.mem_filter.1 (List.mem_filter.1 ht').1).2
      rw [heq] at hfree
      simp [mem_markedIds, hmarked] at hfree
  · intro h
    rcases Option.isSome_iff_exists.1 h with ⟨amt, hamt⟩
    rcases joined_cases txs l with h | h | h
    · rcases h with ⟨hnone, -, -⟩
      rw [href] at hnone
      cases hnone
    · rcases h with ⟨t', href', hexact, -⟩
      rw [href] at href'
      cases href'
      refine .inl ⟨(l, t), List.mem_append_left _ ?_, rfl⟩
      exact mem_exactPairs.2 ⟨hl, hexact⟩
    · rcases h with ⟨t', d, href', -, hflag, -, hid⟩
      rw [href] at href'
      cases href'
      refine .inr (.inl ⟨l, hl, d, hflag, ?_⟩)
      rw [hid, hamt]
      rfl

include hids in
theorem unreferenced_named {t : Transaction} (ht : t ∈ txs)
    (hwindow : Matching.inWindow window t = true) (hfree : t.id ∉ referencedIds txs lines) :
    t.id ∈ (matchLines lines txs window tol).matchedPairs.map MatchedPair.txId
      ∨ t.id ∈ (matchLines lines txs window tol).discrepancies.filterMap Discrepancy.txId? := by
  rw [mem_matchedIds hids, mem_discrepancyIds hids]
  by_cases hmarked : t.id ∈ markedIds txs tol lines
  · rcases mem_markedIds.1 hmarked with h | h
    · exact absurd h hfree
    · rcases h with ⟨p, hp, heq⟩
      exact .inl ⟨p, List.mem_append_right _ hp, heq⟩
  · refine .inr (.inr ⟨t, ?_, rfl⟩)
    exact List.mem_filter.2
      ⟨List.mem_filter.2 ⟨ht, by simpa using hmarked⟩, hwindow⟩

end

/-- Everything is accounted for exactly where every transaction in the
window that a line's reference leads to can be valued. -/
theorem accounts_iff (lines : List StatementLine) (txs : List Transaction)
    (window : Nat × Nat) (tol : Nat) (hids : (txs.map Transaction.id).Nodup) :
    Accounts lines txs window (matchLines lines txs window tol)
      ↔ ∀ l ∈ lines, ∀ t, referenced txs l = some t →
          Matching.inWindow window t = true → (txSettledAmount t).isSome := by
  constructor
  · intro h l hl t href hwindow
    apply (referenced_named_iff hids hl href).1
    exact h.transactions t (mem_of_referenced href) hwindow
  · intro h
    have hperm := @lines_perm txs lines window tol hids
    have hnamed : ∀ t ∈ txs, Matching.inWindow window t = true →
        t.id ∈ (matchLines lines txs window tol).matchedPairs.map MatchedPair.txId
          ∨ t.id ∈ (matchLines lines txs window tol).discrepancies.filterMap
            Discrepancy.txId? := by
      intro t ht hwindow
      by_cases hmarked : t.id ∈ referencedIds txs lines
      · rcases mem_referencedIds.1 hmarked with ⟨l, hl, t', href, heq⟩
        have hsame := eq_of_id_eq hids (mem_of_referenced href) ht heq
        subst hsame
        exact (referenced_named_iff hids hl href).2 (h l hl t' href hwindow)
      · exact unreferenced_named hids ht hwindow hmarked
    refine ⟨?_, ?_, hnamed, ?_⟩
    · rw [matched_add_fuzzyMatched hids, ← List.length_append]
      exact hperm.length_eq
    · refine ⟨_, ?_, hperm⟩
      have hpairs := congrArg (List.map Prod.fst) (@matchedPairs_eq txs lines window tol hids)
      simp only [List.map_map, Function.comp_def] at hpairs
      rw [List.map_map]
      exact hpairs.symm
    · intro hclean t ht hwindow
      rcases hnamed t ht hwindow with hid | hid
      · exact hid
      · rw [hclean] at hid
        cases hid

theorem twoLines_accounted :
    (twoBooked.map Transaction.id).Nodup
      ∧ Accounts twoLines twoBooked (0, 1000000)
          (matchLines twoLines twoBooked (0, 1000000) 3600) := by
  refine ⟨by decide, ?_⟩
  rw [accounts_iff _ _ _ _ (by decide)]
  decide +kernel

def twoCurrencies : Transaction :=
  { booked 1 .posted (some "FX-1") 100 100 with
    entries := [.debit ⟨⟨1⟩⟩ (.fromMinor 100 .USD),
      .debit ⟨⟨1⟩⟩ (.fromMinor 100 .EUR),
      .credit ⟨⟨2⟩⟩ (.fromMinor 100 .USD),
      .credit ⟨⟨2⟩⟩ (.fromMinor 100 .EUR)] }

/-- A transaction with two currencies, in the window and led to by a
line, is in no pair and no discrepancy. -/
theorem twoCurrencies_unaccounted :
    ¬ Accounts [received "n1" (some "FX-1") ⟨100, by decide⟩ 100]
        [twoCurrencies] (0, 1000000)
        (matchLines [received "n1" (some "FX-1") ⟨100, by decide⟩ 100]
          [twoCurrencies] (0, 1000000) 3600) := by
  intro h
  have hnamed := h.transactions twoCurrencies (List.mem_singleton_self _) (by decide)
  revert hnamed
  decide +kernel

end OpenStandards.OpReconciliation

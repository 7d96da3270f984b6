/-
Reconciliation conserves lines, entries and amounts.

Both matching passes are first fit (`Lib/FirstFit.lean`) over the ledger
entries by position: of all lines in pass 1, of the lines without a
record in pass 2. Each record is then a row of a line, an entry, or both
(`Row`), and what is to be shown about the records is a count of the
rows.
-/
import OpenStandards.OpStatements.Statement
import OpenStandards.Lib.FirstFit

namespace OpenStandards.OpStatements

open Lib OpCore Reconciler

-- ==== the rows

/-- What a record is about. -/
inductive Row where
  | paired (line : StatementLine) (entry : LedgerEntry)
  | lineOnly (line : StatementLine)
  | entryOnly (entry : LedgerEntry)

namespace Row

def lineOf : Row → Option StatementLine
  | .paired line _ => some line
  | .lineOnly line => some line
  | .entryOnly _ => none

def entryOf : Row → Option LedgerEntry
  | .paired _ entry => some entry
  | .lineOnly _ => none
  | .entryOnly entry => some entry

def record : Row → ReconRecord
  | .paired line entry =>
    { status := if line.amount = entry.amount then .matched
        else .amountMismatch
      statementLineId := some line.id
      ledgerEntryId := some entry.id
      deltaMinorUnits :=
        line.amount.minorUnits.wrappingSub entry.amount.minorUnits }
  | .lineOnly line =>
    { status := .missingInLedger, statementLineId := some line.id
      ledgerEntryId := none, deltaMinorUnits := line.amount.minorUnits }
  | .entryOnly entry =>
    { status := .missingOnStatement, statementLineId := none
      ledgerEntryId := some entry.id
      deltaMinorUnits := entry.amount.minorUnits.wrappingNeg }

def delta (row : Row) : Int :=
  (row.lineOf.elim 0 fun l => l.amount.minorUnits.val)
    - row.entryOf.elim 0 fun e => e.amount.minorUnits.val

end Row

-- ==== the spec

/-- No difference of a line's and an entry's amount and no negated
entry's amount leaves the width. -/
def SmallEnough (lines : List StatementLine) (ledger : List LedgerEntry) : Prop :=
  (∀ l ∈ lines, ∀ e ∈ ledger, InI64 (l.amount.minorUnits.val - e.amount.minorUnits.val))
    ∧ ∀ e ∈ ledger, InI64 (-e.amount.minorUnits.val)

/-- The records conserve: they are the records of rows in which every
line and every entry occurs once, a matched row joins equal money, and
the differences add up. -/
def Conserves (lines : List StatementLine) (ledger : List LedgerEntry)
    (records : List ReconRecord) : Prop :=
  ∃ rows : List Row,
    records = rows.map Row.record
      ∧ (rows.filterMap Row.lineOf).Perm lines
      ∧ (rows.filterMap Row.entryOf).Perm ledger
      ∧ (∀ row ∈ rows, row.record.status = .matched →
          ∃ l e, row = .paired l e ∧ l.amount = e.amount)
      ∧ (SmallEnough lines ledger →
          (records.map fun r => r.deltaMinorUnits.val).sum
            = (lines.map fun l => l.amount.minorUnits.val).sum
              - (ledger.map fun e => e.amount.minorUnits.val).sum)

theorem paired_of_matched {row : Row} (h : row.record.status = .matched) :
    ∃ l e, row = .paired l e ∧ l.amount = e.amount := by
  cases row with
  | paired line entry =>
    by_cases heq : line.amount = entry.amount
    · exact ⟨line, entry, rfl, heq⟩
    · simp [Row.record, heq] at h
  | lineOnly line => cases h
  | entryOnly entry => cases h

-- ==== the sums

/-- The exact differences add up to the lines less the entries. -/
theorem sum_delta (rows : List Row) :
    (rows.map Row.delta).sum
      = ((rows.filterMap Row.lineOf).map fun l => l.amount.minorUnits.val).sum
        - ((rows.filterMap Row.entryOf).map
            fun e => e.amount.minorUnits.val).sum := by
  induction rows with
  | nil => rfl
  | cons row rows ih =>
    rw [List.map_cons, List.sum_cons, ih]
    cases row with
    | paired line entry =>
      simp [Row.delta, Row.lineOf, Row.entryOf]
      omega
    | lineOnly line =>
      simp [Row.delta, Row.lineOf, Row.entryOf, List.filterMap_cons]
      omega
    | entryOnly entry =>
      simp [Row.delta, Row.lineOf, Row.entryOf, List.filterMap_cons]
      omega

/-- Where no difference leaves the width, the record has the exact
one. -/
theorem val_deltaMinorUnits {lines : List StatementLine}
    {ledger : List LedgerEntry} (h : SmallEnough lines ledger) {row : Row}
    (hline : ∀ l, row.lineOf = some l → l ∈ lines)
    (hentry : ∀ e, row.entryOf = some e → e ∈ ledger) :
    row.record.deltaMinorUnits.val = row.delta := by
  cases row with
  | paired line entry =>
    exact I64.val_wrap (h.1 line (hline line rfl) entry (hentry entry rfl))
  | lineOnly line => exact (Int.sub_zero _).symm
  | entryOnly entry =>
    refine (I64.val_wrap (h.2 entry (hentry entry rfl))).trans ?_
    exact (Int.zero_sub _).symm

theorem conserves_of_perm {lines : List StatementLine}
    {ledger : List LedgerEntry} {rows : List Row}
    (hlines : (rows.filterMap Row.lineOf).Perm lines)
    (hledger : (rows.filterMap Row.entryOf).Perm ledger) :
    Conserves lines ledger (rows.map Row.record) := by
  refine ⟨rows, rfl, hlines, hledger, fun _ _ => paired_of_matched, ?_⟩
  intro hsmall
  have hexact : (rows.map Row.record).map (fun r => r.deltaMinorUnits.val)
      = rows.map Row.delta := by
    rw [List.map_map]
    apply List.map_congr_left
    intro row hrow
    apply val_deltaMinorUnits hsmall
    · intro l hl
      exact hlines.subset (List.mem_filterMap.2 ⟨row, hrow, hl⟩)
    · intro e he
      exact hledger.subset (List.mem_filterMap.2 ⟨row, hrow, he⟩)
  rw [hexact, sum_delta, (hlines.map _).sum_eq, (hledger.map _).sum_eq]

-- ==== the passes

section
variable {ledger : List LedgerEntry} {s : Progress} {l : StatementLine}

/-- The entries not consumed, with their positions. -/
def free (ledger : List LedgerEntry) (s : Progress) : List (LedgerEntry × Nat) :=
  ledger.zipIdx.filter fun p => !s.consumed p.2

def Sized (ledger : List LedgerEntry) (s : Progress) : Prop :=
  s.ledgerConsumed.length = ledger.length

theorem free_push (r : ReconRecord) : free ledger (s.push r) = free ledger s :=
  rfl

theorem sized_consume_push {i : Nat} {r : ReconRecord}
    (h : Sized ledger s) : Sized ledger ((s.consume i).push r) := by
  unfold Sized at h ⊢
  rw [← h]
  exact List.length_set

theorem consumed_consume {i j : Nat} (h : i < s.ledgerConsumed.length) :
    (s.consume i).consumed j = (decide (i = j) || s.consumed j) := by
  unfold Progress.consume Progress.consumed
  by_cases hij : i = j
  · subst hij
    simp [h]
  · simp [hij]

variable (fits : StatementLine → LedgerEntry → Bool)

/-- The predicate of a pass on entries with their positions. -/
def fitsSlot (l : StatementLine) (p : LedgerEntry × Nat) : Bool := fits l p.1

/-- Both passes look for the first fit among the entries not consumed. -/
theorem find_free :
    ledger.zipIdx.find? (fun p => !s.consumed p.2 && fits l p.1)
      = (free ledger s).find? (fitsSlot fits l) := by
  unfold free fitsSlot
  rw [find?_free]

theorem free_consume {p : LedgerEntry × Nat} (hsized : Sized ledger s)
    (hfind : (free ledger s).find? (fitsSlot fits l) = some p) :
    free ledger (s.consume p.2) = takeFirst (fitsSlot fits) (free ledger s) l := by
  have hmem : p ∈ ledger.zipIdx :=
    List.mem_of_mem_filter (List.mem_of_find?_eq_some hfind)
  have hbound : p.2 < s.ledgerConsumed.length := by
    rw [hsized]
    exact List.snd_lt_of_mem_zipIdx hmem
  refine filter_free_eq_eraseP Prod.snd ?_ hfind ?_
  · rw [List.zipIdx_map_snd]
    exact List.nodup_range'
  · intro q _
    rw [consumed_consume hbound]
    by_cases heq : p.2 = q.2
    · simp [heq]
    · simp [heq, Ne.symm heq]

end

section
variable {ledger : List LedgerEntry} {s : Progress}
  {lines : List StatementLine}

abbrev joins : StatementLine → LedgerEntry × Nat → Bool :=
  fitsSlot sharesReference

theorem pass1Step_eq (ledger : List LedgerEntry) (s : Progress) (l : StatementLine) :
    pass1Step ledger s l =
      match (free ledger s).find? (joins l) with
      | none => s
      | some p => (s.consume p.2).push (Row.paired l p.1).record := by
  unfold pass1Step
  cases hext : l.externalId with
  | none =>
    have hnone : (free ledger s).find? (joins l) = none := by
      apply List.find?_eq_none.2
      intro p _
      simp [joins, fitsSlot, sharesReference, hext]
    rw [hnone]
  | some ext =>
    simp only [find_free]
    cases (free ledger s).find? (joins l) with
    | none => rfl
    | some p =>
      have hmoney : (l.amount.minorUnits.wrappingSub p.1.amount.minorUnits
            = 0 ∧ l.amount.currency = p.1.amount.currency)
          ↔ l.amount = p.1.amount := by
        rw [I64.wrappingSub_eq_zero]
        cases l.amount
        cases p.1.amount
        simp
      simp only [hmoney]
      rfl

theorem run_pass1Step (hsized : Sized ledger s) :
    (run (pass1Step ledger) s lines).records
        = s.records ++ (placed joins (free ledger s) lines).map
            (fun p => (Row.paired p.1 p.2.1).record)
      ∧ free ledger (run (pass1Step ledger) s lines)
        = run (takeFirst joins) (free ledger s) lines
      ∧ Sized ledger (run (pass1Step ledger) s lines) := by
  induction lines generalizing s with
  | nil => exact ⟨(List.append_nil _).symm, rfl, hsized⟩
  | cons l lines ih =>
    show (run _ (pass1Step ledger s l) lines).records = _
      ∧ free ledger (run _ (pass1Step ledger s l) lines)
        = run _ (takeFirst joins (free ledger s) l) lines
      ∧ Sized ledger (run _ (pass1Step ledger s l) lines)
    rw [pass1Step_eq]
    cases hfind : (free ledger s).find? (joins l) with
    | none =>
      rw [placed_cons_none hfind, takeFirst_of_none hfind]
      exact ih hsized
    | some p =>
      have hfree := free_consume sharesReference hsized hfind
      rcases ih (sized_consume_push hsized) with ⟨hrecords, hleft, hlen⟩
      rw [free_push, hfree] at hrecords hleft
      rw [placed_cons_some hfind]
      refine ⟨?_, hleft, hlen⟩
      rw [hrecords]
      simp [Progress.push, Progress.consume]

def rowOf (p : StatementLine × Option (LedgerEntry × Nat)) : Row :=
  match p.2 with
  | some q => .paired p.1 q.1
  | none => .lineOnly p.1

def recorded (s : Progress) : List String :=
  s.records.filterMap ReconRecord.statementLineId

theorem any_lineId (s : Progress) (id : String) :
    (s.records.any fun rec => rec.statementLineId = some id) = decide (id ∈ recorded s) := by
  unfold recorded
  simp [List.any_eq, List.mem_filterMap]

theorem pass2Step_of_recorded (r : Reconciler) {l : StatementLine}
    (h : l.id ∈ recorded s) : pass2Step r ledger s l = s := by
  unfold pass2Step
  rw [any_lineId, if_pos (by simpa using h)]

theorem pass2Step_of_not_recorded (r : Reconciler) {l : StatementLine}
    (hsized : Sized ledger s) (h : l.id ∉ recorded s) :
    (pass2Step r ledger s l).records
        = s.records ++ [(rowOf (l, (free ledger s).find? (fitsSlot r.fitsWindow l))).record]
      ∧ free ledger (pass2Step r ledger s l)
        = takeFirst (fitsSlot r.fitsWindow) (free ledger s) l
      ∧ Sized ledger (pass2Step r ledger s l) := by
  unfold pass2Step
  rw [any_lineId, if_neg (by simpa using h)]
  simp only [find_free]
  cases hfind : (free ledger s).find? (fitsSlot r.fitsWindow l) with
  | none =>
    rw [takeFirst_of_none hfind]
    exact ⟨rfl, rfl, hsized⟩
  | some p =>
    have hfits := List.find?_some hfind
    have hamount : l.amount = p.1.amount := by
      unfold fitsSlot Reconciler.fitsWindow at hfits
      rw [Bool.and_eq_true, decide_eq_true_eq] at hfits
      exact hfits.1.symm
    have hzero : l.amount.minorUnits.wrappingSub p.1.amount.minorUnits = 0 :=
      I64.wrappingSub_eq_zero.2 (by rw [hamount])
    refine ⟨?_, free_consume _ hsized hfind, sized_consume_push hsized⟩
    unfold rowOf Row.record
    simp only [hzero, if_pos hamount]
    rfl

def unrecorded (s : Progress) (lines : List StatementLine) : List StatementLine :=
  lines.filter fun l => !decide (l.id ∈ recorded s)

/-- Pass 2 over lines of distinct ids: first fit of those without a
record. -/
theorem run_pass2Step (r : Reconciler) (hsized : Sized ledger s)
    (hids : (lines.map StatementLine.id).Nodup) :
    (run (pass2Step r ledger) s lines).records
        = s.records ++ (firstFit (fitsSlot r.fitsWindow) (free ledger s)
            (unrecorded s lines)).map (fun p => (rowOf p).record)
      ∧ free ledger (run (pass2Step r ledger) s lines)
        = run (takeFirst (fitsSlot r.fitsWindow)) (free ledger s) (unrecorded s lines) := by
  induction lines generalizing s with
  | nil => exact ⟨(List.append_nil _).symm, rfl⟩
  | cons l lines ih =>
    rw [List.map_cons, List.nodup_cons] at hids
    show (run _ (pass2Step r ledger s l) lines).records = _
      ∧ free ledger (run _ (pass2Step r ledger s l) lines) = _
    by_cases hrec : l.id ∈ recorded s
    · have htodo : unrecorded s (l :: lines) = unrecorded s lines :=
        List.filter_cons_of_neg (by simpa using hrec)
      rw [pass2Step_of_recorded r hrec, htodo]
      exact ih hsized hids.2
    · rcases pass2Step_of_not_recorded r hsized hrec with
        ⟨hrecords, hfree, hsized'⟩
      have hnew : recorded (pass2Step r ledger s l) = recorded s ++ [l.id] := by
        unfold recorded
        rw [hrecords, List.filterMap_append]
        congr 1
        cases hfind : (free ledger s).find? (fitsSlot r.fitsWindow l) with
        | none => rfl
        | some p => rfl
      -- the other lines have other ids, so none of them is done
      have hsame : unrecorded (pass2Step r ledger s l) lines = unrecorded s lines := by
        apply List.filter_congr
        intro l' hl'
        have hne : l'.id ≠ l.id := by
          intro heq
          exact hids.1 (heq ▸ List.mem_map_of_mem hl')
        simp [hnew, hne]
      have htodo : unrecorded s (l :: lines) = l :: unrecorded s lines :=
        List.filter_cons_of_pos (by simpa using hrec)
      have htail := ih hsized' hids.2
      simp only [hsame, hrecords, hfree] at htail
      rw [htodo]
      refine ⟨?_, htail.2⟩
      rw [htail.1, firstFit, List.map_cons, List.append_assoc]
      rfl

theorem run_pass3Step (slots : List (LedgerEntry × Nat)) :
    (run pass3Step s slots).records
      = s.records ++ (slots.filter fun p => !s.consumed p.2).map
          fun p => (Row.entryOnly p.1).record := by
  induction slots generalizing s with
  | nil => exact (List.append_nil _).symm
  | cons p slots ih =>
    show (run _ (pass3Step s p) slots).records = _
    unfold pass3Step
    cases hp : s.consumed p.2 with
    | true =>
      rw [if_pos rfl, List.filter_cons_of_neg (by simp [hp])]
      exact ih
    | false =>
      rw [if_neg (by simp), List.filter_cons_of_pos (by simp [hp])]
      refine ih.trans ?_
      rw [List.map_cons]
      exact List.append_assoc ..

end

-- ==== the run

theorem free_init (ledger : List LedgerEntry) :
    free ledger (Progress.init ledger) = ledger.zipIdx := by
  apply List.filter_eq_self.2
  intro p hp
  have hbound : p.2 < ledger.length := List.snd_lt_of_mem_zipIdx hp
  simp [Progress.consumed, Progress.init, hbound]

def rows (r : Reconciler) (ledger : List LedgerEntry) (lines : List StatementLine) : List Row :=
  let left := run (takeFirst joins) ledger.zipIdx lines
  let todo := unplaced joins ledger.zipIdx lines
  (placed joins ledger.zipIdx lines).map (fun p => .paired p.1 p.2.1)
    ++ (firstFit (fitsSlot r.fitsWindow) left todo).map rowOf
    ++ (run (takeFirst (fitsSlot r.fitsWindow)) left todo).map
      fun p => .entryOnly p.1

/-- What `reconcile` answers on lines of distinct ids. -/
theorem reconcile_eq (r : Reconciler) {statement : Statement}
    (hids : (statement.lines.map StatementLine.id).Nodup) (ledger : List LedgerEntry) :
    r.reconcile statement ledger = .ok ((rows r ledger statement.lines).map Row.record) := by
  have hsized : Sized ledger (Progress.init ledger) := List.length_replicate
  have hpass1 := @run_pass1Step _ _ statement.lines hsized
  rw [free_init] at hpass1
  unfold reconcile
  generalize run (pass1Step ledger) (Progress.init ledger) statement.lines = joined at hpass1
  rcases hpass1 with ⟨hrec₁, hfree₁, hsized₁⟩
  -- the lines without a record are those pass 1 turned away
  have htodo : unrecorded joined statement.lines
      = unplaced joins ledger.zipIdx statement.lines := by
    have hrecorded : recorded joined
        = (placed joins ledger.zipIdx statement.lines).map
            fun p => p.1.id := by
      unfold recorded
      rw [hrec₁]
      exact List.filterMap_map.trans (congrFun List.filterMap_eq_map _)
    rw [unplaced_eq_filter StatementLine.id hids]
    unfold unrecorded
    rw [hrecorded]
  have hpass2 := run_pass2Step r hsized₁ hids
  rw [htodo, hfree₁] at hpass2
  show Except.ok (run pass3Step
    (run (pass2Step r ledger) joined statement.lines) ledger.zipIdx).records = _
  rw [run_pass3Step]
  congr 1
  show _ ++ List.map _ (free ledger _) = _
  rw [hpass2.1, hpass2.2, hrec₁]
  unfold rows
  simp only [List.map_append, List.map_map]
  rfl

theorem lineOf_rowOf (p : StatementLine × Option (LedgerEntry × Nat)) :
    (rowOf p).lineOf = some p.1 := by
  unfold rowOf
  split
  · rfl
  · rfl

theorem entryOf_rowOf (p : StatementLine × Option (LedgerEntry × Nat)) :
    (rowOf p).entryOf = p.2.map Prod.fst := by
  unfold rowOf
  cases p.2 with
  | none => rfl
  | some q => rfl

theorem rows_lines (r : Reconciler) (ledger : List LedgerEntry) (lines : List StatementLine) :
    ((rows r ledger lines).filterMap Row.lineOf).Perm lines := by
  unfold rows
  simp only [List.filterMap_append, List.filterMap_map]
  have hpaired : (placed joins ledger.zipIdx lines).filterMap
        (Row.lineOf ∘ fun p => Row.paired p.1 p.2.1)
      = (placed joins ledger.zipIdx lines).map Prod.fst :=
    congrFun List.filterMap_eq_map _
  have hrest : ∀ left todo, (firstFit (fitsSlot r.fitsWindow) left
        todo).filterMap (Row.lineOf ∘ rowOf) = todo := by
    intro left todo
    have hfun : Row.lineOf ∘ rowOf = some ∘ Prod.fst := funext lineOf_rowOf
    rw [hfun, List.filterMap_eq_map, map_fst_firstFit]
  have hleft : ∀ left : List (LedgerEntry × Nat), left.filterMap
      (Row.lineOf ∘ fun p => Row.entryOnly p.1) = [] :=
    fun left => List.filterMap_eq_nil_iff.2 fun _ _ => rfl
  rw [hpaired, hrest, hleft, List.append_nil]
  exact placed_perm_items _ _

theorem rows_entries (r : Reconciler) (ledger : List LedgerEntry) (lines : List StatementLine) :
    ((rows r ledger lines).filterMap Row.entryOf).Perm ledger := by
  unfold rows
  simp only [List.filterMap_append, List.filterMap_map]
  have hpaired : (placed joins ledger.zipIdx lines).filterMap
        (Row.entryOf ∘ fun p => Row.paired p.1 p.2.1)
      = ((placed joins ledger.zipIdx lines).map Prod.snd).map Prod.fst := by
    rw [List.map_map]
    exact congrFun List.filterMap_eq_map _
  have hrest : ∀ left todo, (firstFit (fitsSlot r.fitsWindow) left
        todo).filterMap (Row.entryOf ∘ rowOf)
      = ((placed (fitsSlot r.fitsWindow) left todo).map Prod.snd).map Prod.fst := by
    intro left todo
    unfold placed
    rw [List.map_filterMap, List.map_filterMap]
    apply List.filterMap_congr
    intro p _
    rw [Function.comp_apply, entryOf_rowOf]
    cases p.2 with
    | none => rfl
    | some q => rfl
  have hleft : ∀ left : List (LedgerEntry × Nat), left.filterMap
      (Row.entryOf ∘ fun p => Row.entryOnly p.1) = left.map Prod.fst :=
    fun left => congrFun List.filterMap_eq_map _
  rw [hpaired, hrest, hleft, List.append_assoc, ← List.map_append]
  -- the entries left by pass 1 are those of pass 2 and of pass 3
  refine (((placed_perm_slots _ _).map Prod.fst).append_left _).trans ?_
  rw [← List.map_append]
  refine ((placed_perm_slots _ _).map Prod.fst).trans ?_
  rw [List.zipIdx_map_fst]

/-- Reconciling a built statement accounts for every line and every entry
once, matches equal money only, and its differences add up to the
statement less the ledger. -/
theorem reconcile_conserves (r : Reconciler) {statement : Statement}
    (hbuilt : statement.Built) (ledger : List LedgerEntry) :
    ∃ records, r.reconcile statement ledger = .ok records
      ∧ Conserves statement.lines ledger records := by
  refine ⟨_, reconcile_eq r hbuilt.nodup_ids ledger, ?_⟩
  apply conserves_of_perm
  · exact rows_lines r ledger statement.lines
  · exact rows_entries r ledger statement.lines

def referencedLine : StatementLine :=
  (StatementLine.new "l1" .grossCapture (.fromMinor 1000 .USD) 100).withExternalId "ord-1"

def plainLine : StatementLine :=
  StatementLine.new "l2" .grossCapture (.fromMinor 250 .USD) 200

def firstLines (n : Nat) : Statement :=
  { id := "S", merchantId := "M"
    period := { startUnixSecs := 0, endUnixSecs := 86400 }
    primaryCurrency := .USD, lines := [referencedLine, plainLine].take n
    aggregates := [.zero .USD] }

theorem firstLines_built : (firstLines 2).Built := by
  have hnew : Statement.new "S" "M" (firstLines 0).period .USD = .ok (firstLines 0) := rfl
  have hfirst : (firstLines 0).pushLine referencedLine = .ok (firstLines 1) := rfl
  have hsecond : (firstLines 1).pushLine plainLine = .ok (firstLines 2) := by decide +kernel
  exact .pushLine (.pushLine (.new hnew) hfirst) hsecond

/-- The ledger has the first line a cent short and something else. -/
def twoEntries : List LedgerEntry :=
  [{ id := "tx-1", externalId := some "ord-1"
     amount := .fromMinor ⟨999, by decide⟩ .USD
     direction := .credit, postedAtUnixSecs := 100 },
    { id := "tx-2", externalId := none
      amount := .fromMinor ⟨40, by decide⟩ .USD
      direction := .debit, postedAtUnixSecs := 100 }]

theorem firstLines_conserves :
    (firstLines 2).Built ∧ SmallEnough (firstLines 2).lines twoEntries
      ∧ ∃ records,
        (Reconciler.mk 86400).reconcile (firstLines 2) twoEntries = .ok records
          ∧ Conserves (firstLines 2).lines twoEntries records :=
  ⟨firstLines_built, by unfold SmallEnough; decide,
    reconcile_conserves (Reconciler.mk 86400) firstLines_built twoEntries⟩

end OpenStandards.OpStatements

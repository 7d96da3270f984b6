/-
Reconciliation uses each bank line once.

What is decided on an entry depends on the lines that echo its reference
alone, so a run that is accepted maps the entries to their decisions one
by one (`reconcile_ok_iff`). Two entries of one reference are both decided
from the same group of lines, so what the decisions promise holds exactly
where a reference that two entries share is echoed by two lines.
-/
import OpenStandards.OpBatch.Reconciliation
import OpenStandards.Lib.Checked

namespace OpenStandards.OpBatch

open Lib

-- ==== the decisions

def echoes (lines : List StatementLine) (r : String) : List StatementLine :=
  lines.filter fun line => line.echoedReference = r

def decisionOn (lines : List StatementLine) (exp : Expected) : Match :=
  decideOn exp (some (echoes lines exp.reference))

/-- An empty group and no group are decided alike. -/
theorem decideOn_getD (exp : Expected) (g : Option (List StatementLine)) :
    decideOn exp (some (g.getD [])) = decideOn exp g := by
  cases g with
  | none => rfl
  | some g => rfl

theorem decideOn_one (exp : Expected) (line : StatementLine) :
    decideOn exp (some [line])
      = if line.amountMinor = exp.amountMinor then
          .matched exp.paymentId line.statementRef line.amountMinor
        else
          .amountMismatch exp.paymentId line.statementRef exp.amountMinor line.amountMinor :=
  rfl

theorem fileLine_ok_iff {byRef byRef' : Table String (List StatementLine)}
    {line : StatementLine} :
    fileLine byRef line = .ok byRef' ↔ line.echoedReference ≠ ""
      ∧ byRef' = Table.push StatementLine.echoedReference byRef line := by
  unfold fileLine
  rw [refuse_bind_eq_ok, pure_eq_ok]

theorem foldlM_fileLine {lines : List StatementLine} :
    ∀ {byRef byRef' : Table String (List StatementLine)},
      lines.foldlM fileLine byRef = .ok byRef'
        ↔ (∀ line ∈ lines, line.echoedReference ≠ "")
          ∧ byRef' = lines.foldl (Table.push StatementLine.echoedReference) byRef := by
  induction lines with
  | nil =>
    intro byRef byRef'
    rw [List.foldlM_nil, pure_eq_ok]
    simp
  | cons line lines ih =>
    intro byRef byRef'
    rw [List.foldlM_cons, bind_eq_ok, List.forall_mem_cons]
    constructor
    · rintro ⟨next, hnext, hrest⟩
      obtain ⟨hne, rfl⟩ := fileLine_ok_iff.1 hnext
      obtain ⟨hall, heq⟩ := ih.1 hrest
      exact ⟨⟨hne, hall⟩, heq⟩
    · rintro ⟨⟨hne, hall⟩, heq⟩
      exact ⟨_, fileLine_ok_iff.2 ⟨hne, rfl⟩, ih.2 ⟨hall, heq⟩⟩

/-- A statement is accepted where every line echoes something, and then
each entry is decided on its own. -/
theorem reconcile_ok_iff {rail : BatchRail} {source : ReconcileSource}
    {expected : List Expected} {lines : List StatementLine} {report : ReconciliationReport} :
    reconcile rail source expected lines = .ok report
      ↔ (∀ line ∈ lines, line.echoedReference ≠ "")
        ∧ report = ⟨rail, source, expected.map (decisionOn lines)⟩ := by
  have hgroups : (fun exp : Expected => decideOn exp
        ((lines.foldl (Table.push StatementLine.echoedReference)
          ∅).lookup exp.reference)) = decisionOn lines := by
    funext exp
    have hgroup := Table.getD_lookup_groupBy StatementLine.echoedReference lines exp.reference
    unfold decisionOn echoes
    rw [← hgroup, decideOn_getD]
    rfl
  unfold reconcile
  rw [bind_eq_ok]
  constructor
  · rintro ⟨byRef, hfile, hreport⟩
    obtain ⟨hall, rfl⟩ := foldlM_fileLine.1 hfile
    rw [pure_eq_ok, hgroups] at hreport
    exact ⟨hall, hreport⟩
  · rintro ⟨hall, rfl⟩
    refine ⟨_, foldlM_fileLine.2 ⟨hall, rfl⟩, ?_⟩
    rw [pure_eq_ok, hgroups]

variable {exp : Expected}

theorem isDuplicate_iff {lines : List StatementLine} :
    (decisionOn lines exp).isDuplicate = true ↔ 1 < (echoes lines exp.reference).length := by
  unfold decisionOn
  cases echoes lines exp.reference with
  | nil => exact iff_of_false Bool.false_ne_true (by simp)
  | cons line more =>
    cases more with
    | nil =>
      refine iff_of_false ?_ (by simp)
      rw [decideOn_one]
      split
      · exact Bool.false_ne_true
      · exact Bool.false_ne_true
    | cons line' more => exact iff_of_true rfl (by simp)

theorem matched_iff {lines : List StatementLine} :
    (decisionOn lines exp).isMatched = true
      ↔ ∃ line, echoes lines exp.reference = [line]
        ∧ line.amountMinor = exp.amountMinor
        ∧ decisionOn lines exp = .matched exp.paymentId line.statementRef line.amountMinor := by
  unfold decisionOn
  cases echoes lines exp.reference with
  | nil =>
    refine iff_of_false Bool.false_ne_true ?_
    rintro ⟨line, h, -⟩
    cases h
  | cons line more =>
    cases more with
    | nil =>
      rw [decideOn_one]
      by_cases ha : line.amountMinor = exp.amountMinor
      · rw [if_pos ha]
        exact iff_of_true rfl ⟨line, rfl, ha, rfl⟩
      · rw [if_neg ha]
        refine iff_of_false Bool.false_ne_true ?_
        rintro ⟨line', h, ha', -⟩
        cases h
        exact ha ha'
    | cons line' more =>
      refine iff_of_false Bool.false_ne_true ?_
      rintro ⟨line, h, -⟩
      cases h

-- ==== what is promised

/-- The line stands behind the decision on the entry: it echoes the
entry's reference, and the decision matches the entry with it. -/
def Backs (line : StatementLine) (d : Expected × Match) : Prop :=
  line.echoedReference = d.1.reference
    ∧ d.2 = .matched d.1.paymentId line.statementRef line.amountMinor

instance (line : StatementLine) (d : Expected × Match) : Decidable (Backs line d) :=
  inferInstanceAs (Decidable (_ ∧ _))

def Shared (expected : List Expected) (r : String) : Prop :=
  1 < expected.countP fun exp => exp.reference = r

/-- The lines, each of them once, that stand behind a decision. -/
def backing (lines : List StatementLine) (ds : List (Expected × Match)) : List StatementLine :=
  lines.filter fun line => ds.any fun d => Backs line d

/-- The bank's lines are used once: none stands behind two decisions, the
entries that share a reference are flagged, and what a clean report
awaited is what the lines behind it settled. -/
structure UsesOnce (expected : List Expected) (lines : List StatementLine)
    (report : ReconciliationReport) : Prop where
  decided : report.matches_.length = expected.length
  once : ∀ line ∈ lines, (expected.zip report.matches_).countP (fun d => Backs line d) ≤ 1
  flagged : ∀ d ∈ expected.zip report.matches_,
    Shared expected d.1.reference → d.2.isDuplicate = true
  balanced : report.isClean = true →
    (expected.map fun exp => exp.amountMinor.toNat).sum
      = ((backing lines (expected.zip report.matches_)).map
          fun line => line.amountMinor.toNat).sum

-- ==== the main result

variable {expected : List Expected} {lines : List StatementLine}

theorem zip_map_decisionOn :
    expected.zip (expected.map (decisionOn lines))
      = expected.map fun exp => (exp, decisionOn lines exp) :=
  List.map_prod_left_eq_zip.symm

theorem Backs.echoes {line : StatementLine} (h : Backs line (exp, decisionOn lines exp)) :
    (echoes lines exp.reference).length = 1 := by
  have hmatched : (decisionOn lines exp).isMatched = true := by
    have hmatch : decisionOn lines exp = _ := h.2
    rw [hmatch]
    rfl
  obtain ⟨line', hline', -⟩ := matched_iff.1 hmatched
  rw [hline']
  rfl

theorem countP_backs_le (hshared : ∀ exp ∈ expected,
      Shared expected exp.reference →
        1 < (echoes lines exp.reference).length) (line : StatementLine) :
    expected.countP (fun exp => Backs line (exp, decisionOn lines exp)) ≤ 1 := by
  by_contra hmany
  rw [not_le] at hmany
  obtain ⟨exp, hexp, hbacks⟩ := List.countP_pos_iff.1 (Nat.zero_lt_of_lt hmany)
  rw [decide_eq_true_eq] at hbacks
  have hsame : Shared expected exp.reference := by
    refine Nat.lt_of_lt_of_le hmany (List.countP_mono_left ?_)
    intro exp' _ hbacks'
    rw [decide_eq_true_eq] at hbacks' ⊢
    exact hbacks'.1.symm.trans hbacks.1
  have htwo := hshared exp hexp hsame
  rw [hbacks.echoes] at htwo
  exact Nat.lt_irrefl 1 htwo

theorem nodup_references (hshared : ∀ exp ∈ expected, Shared expected exp.reference →
      1 < (echoes lines exp.reference).length)
    (hclean : ∀ exp ∈ expected, (decisionOn lines exp).isMatched = true) :
    (expected.map Expected.reference).Nodup := by
  rw [List.nodup_iff_count_le_one]
  intro r
  by_contra hmany
  rw [not_le, List.count, List.countP_map] at hmany
  obtain ⟨exp, hexp, hr⟩ := List.countP_pos_iff.1 (Nat.zero_lt_of_lt hmany)
  have hr : exp.reference = r := eq_of_beq hr
  have hsame : Shared expected exp.reference := by
    refine Nat.lt_of_lt_of_le hmany (List.countP_mono_left ?_)
    intro exp' _ hr'
    exact decide_eq_true ((eq_of_beq hr').trans hr.symm)
  have htwo := hshared exp hexp hsame
  obtain ⟨line, hone, -⟩ := matched_iff.1 (hclean exp hexp)
  rw [hone] at htwo
  exact Nat.lt_irrefl 1 htwo

theorem backing_echoes (hclean : ∀ exp ∈ expected, (decisionOn lines exp).isMatched = true)
    (hexp : exp ∈ expected) :
    ((backing lines (expected.map fun e => (e, decisionOn lines e))).filter
        fun line => line.echoedReference = exp.reference)
      = echoes lines exp.reference := by
  obtain ⟨line, hone, -, hmatched⟩ := matched_iff.1 (hclean exp hexp)
  unfold backing
  rw [List.filter_comm]
  refine List.filter_eq_self.2 fun line' hline' => ?_
  have heq : line' = line := by
    have hmem : line' ∈ echoes lines exp.reference := hline'
    rw [hone] at hmem
    exact List.mem_singleton.1 hmem
  have hechoed : line'.echoedReference = exp.reference :=
    of_decide_eq_true (List.mem_filter.1 hline').2
  rw [List.any_map, List.any_eq_true]
  refine ⟨exp, hexp, decide_eq_true ⟨hechoed, ?_⟩⟩
  rw [heq]
  exact hmatched

theorem sum_amounts (hnodup : (expected.map Expected.reference).Nodup)
    (hclean : ∀ exp ∈ expected, (decisionOn lines exp).isMatched = true) :
    (expected.map fun exp => exp.amountMinor.toNat).sum
      = ((backing lines (expected.map fun e => (e, decisionOn lines e))).map
          fun line => line.amountMinor.toNat).sum := by
  let backs := backing lines (expected.map fun e => (e, decisionOn lines e))
  -- the lines behind decisions, by the reference they echo
  have hperm := flatMap_filter_perm (f := StatementLine.echoedReference)
    (l := backs) hnodup (by
      intro line hline
      obtain ⟨d, hd, hbacks⟩ :=
        List.any_eq_true.1 (List.mem_filter.1 hline).2
      obtain ⟨exp, hexp, rfl⟩ := List.mem_map.1 hd
      rw [(of_decide_eq_true hbacks).1]
      exact List.mem_map_of_mem hexp)
  rw [← (hperm.map fun line => line.amountMinor.toNat).sum_eq,
    List.flatMap_map, List.map_flatMap, List.flatMap, List.sum_flatten,
    List.map_map]
  refine congrArg List.sum (List.map_congr_left fun exp hexp => ?_)
  obtain ⟨line, hone, hamount, -⟩ := matched_iff.1 (hclean exp hexp)
  have hgroup : backs.filter (fun l => l.echoedReference = exp.reference)
      = [line] := (backing_echoes hclean hexp).trans hone
  rw [Function.comp_apply, hgroup, ← hamount]
  rfl

/-- **Each bank line is used once** exactly where every reference that two
entries share is echoed by two lines, in a statement that is accepted. -/
theorem usesOnce_iff (rail : BatchRail) (source : ReconcileSource)
    (expected : List Expected) (lines : List StatementLine) :
    (∀ report, reconcile rail source expected lines = .ok report →
        UsesOnce expected lines report)
      ↔ ((∀ line ∈ lines, line.echoedReference ≠ "") →
          ∀ exp ∈ expected, Shared expected exp.reference →
            1 < (echoes lines exp.reference).length) := by
  constructor
  · intro h hall exp hexp hsame
    have hused := h _ (reconcile_ok_iff.2 ⟨hall, rfl⟩)
    refine isDuplicate_iff.1 (hused.flagged (exp, decisionOn lines exp)
      ?_ hsame)
    rw [zip_map_decisionOn]
    exact List.mem_map_of_mem hexp
  · rintro h report hreport
    obtain ⟨hall, rfl⟩ := reconcile_ok_iff.1 hreport
    have hshared := h hall
    constructor
    case decided => exact List.length_map ..
    case once =>
      intro line _
      rw [zip_map_decisionOn, List.countP_map]
      exact countP_backs_le hshared line
    case flagged =>
      intro d hd hsame
      rw [zip_map_decisionOn] at hd
      obtain ⟨exp, hexp, rfl⟩ := List.mem_map.1 hd
      exact isDuplicate_iff.2 (hshared exp hexp hsame)
    case balanced =>
      intro hclean
      have hmatched : ∀ exp ∈ expected,
          (decisionOn lines exp).isMatched = true := fun exp hexp =>
        List.all_eq_true.1 hclean _ (List.mem_map_of_mem hexp)
      rw [zip_map_decisionOn]
      exact sum_amounts (nodup_references hshared hmatched) hmatched

/-- Two entries of one reference and one line: both are matched with it,
and the report is clean. -/
theorem one_line_backs_two :
    let expected : List Expected := [⟨"p1", 10000, "E2E-1"⟩,
      ⟨"p2", 10000, "E2E-1"⟩]
    let lines : List StatementLine := [⟨"s1", "E2E-1", 10000⟩]
    ∃ report, reconcile .sepaCt .camt053 expected lines = .ok report
      ∧ report.isClean = true
      ∧ ¬ UsesOnce expected lines report := by
  refine ⟨⟨.sepaCt, .camt053, [.matched "p1" "s1" 10000,
    .matched "p2" "s1" 10000]⟩, by decide, rfl, fun h => ?_⟩
  exact absurd (h.once ⟨"s1", "E2E-1", 10000⟩ (List.mem_singleton_self _)) (by decide)

end OpenStandards.OpBatch

/-
The balances and the entries of a statement.

Aggregation books every line in the bucket of its kind and the aggregate
of its currency (`aggregate_ok`). The three writers then each decide for
themselves which lines are debits. On lines from the constructor they
agree, because it takes away every sign; so an adjustment that was given
as a debit is a credit in all of them (`sameStory_iff`).
-/
import OpenStandards.OpStatements.Writers
import OpenStandards.Lib.Fallible

namespace OpenStandards.OpStatements

open Lib OpCore

-- ==== the buckets

namespace CurrencyAggregate

def bucket (agg : CurrencyAggregate) : StatementLineKind → I64
  | .grossCapture => agg.grossVolume.minorUnits
  | .refund => agg.refunds.minorUnits
  | .chargeback => agg.chargebacks.minorUnits
  | .fee => agg.fees.minorUnits
  | .payout => agg.payouts.minorUnits
  | .adjustment => agg.adjustments.minorUnits

end CurrencyAggregate

namespace StatementLine

def booked (line : StatementLine) : Int :=
  match line.kind with
  | .adjustment => line.amount.minorUnits.val
  | _ => line.amount.minorUnits.abs.val

def share (line : StatementLine) (kind : StatementLineKind) : Int :=
  if line.kind = kind then line.booked else 0

/-- What it adds to the balance. -/
def change (line : StatementLine) : Int :=
  if line.kind.isOutflow then -line.booked else line.booked

end StatementLine

theorem Statement.bump_ok {total total' : Money} {x : I64}
    (h : Statement.bump total x = .ok total') :
    total'.minorUnits.val = total.minorUnits.val + x.val := by
  unfold Statement.bump at h
  split at h
  case h_1 minorUnits hadd =>
    cases h
    exact I64.checkedAdd_eq_some.1 hadd
  case h_2 => cases h

theorem Statement.addLine_ok {agg agg' : CurrencyAggregate}
    {line : StatementLine} (h : Statement.addLine agg line = .ok agg') :
    agg'.currency = agg.currency ∧ ∀ kind,
      (agg'.bucket kind).val = (agg.bucket kind).val + line.share kind := by
  unfold Statement.addLine at h
  unfold StatementLine.share StatementLine.booked
  cases hkind : line.kind
  all_goals
    rw [hkind] at h
    rcases bind_eq_ok.1 h with ⟨total, htotal, hagg⟩
    cases hagg
    have hval := Statement.bump_ok htotal
    refine ⟨rfl, ?_⟩
    intro kind
    cases kind
    all_goals first
      | exact hval
      | exact (Int.add_zero _).symm

-- ==== the roll-up

def linesIn (currency : Currency) (lines : List StatementLine) : List StatementLine :=
  lines.filter fun l => decide (l.amount.currency = currency)

def bookedIn (currency : Currency) (kind : StatementLineKind)
    (lines : List StatementLine) : Int :=
  ((linesIn currency lines).map fun l => l.share kind).sum

/-- One aggregate for each currency, the primary one among them, each with
what is booked in it. -/
structure RolledUp (primary : Currency) (lines : List StatementLine)
    (aggs : List CurrencyAggregate) : Prop where
  nodup : (aggs.map CurrencyAggregate.currency).Nodup
  primary : primary ∈ aggs.map CurrencyAggregate.currency
  booked : ∀ agg ∈ aggs, ∀ kind, (agg.bucket kind).val = bookedIn agg.currency kind lines
  other : ∀ line ∈ lines, line.amount.currency ∈ aggs.map CurrencyAggregate.currency

theorem bookedIn_append (currency : Currency) (kind : StatementLineKind)
    (lines : List StatementLine) (line : StatementLine) :
    bookedIn currency kind (lines ++ [line])
      = bookedIn currency kind lines
        + if line.amount.currency = currency then line.share kind else 0 := by
  unfold bookedIn linesIn
  rw [List.filter_append, List.map_append, List.sum_append]
  congr 1
  by_cases h : line.amount.currency = currency
  · simp [h]
  · simp [h]

theorem CurrencyAggregate.bucket_zero (currency : Currency) (kind : StatementLineKind) :
    ((CurrencyAggregate.zero currency).bucket kind).val = 0 := by
  cases kind
  all_goals rfl

theorem bookedIn_eq_zero {currency : Currency} {kind : StatementLineKind}
    {lines : List StatementLine} (h : ∀ line ∈ lines, line.amount.currency ≠ currency) :
    bookedIn currency kind lines = 0 := by
  unfold bookedIn linesIn
  rw [List.filter_eq_nil_iff.2]
  · rfl
  · intro line hline
    simp [h line hline]

variable {primary : Currency} {aggs : List CurrencyAggregate}

/-- The turn of the loop. -/
theorem RolledUp.tally {lines : List StatementLine}
    {aggs' : List CurrencyAggregate} {line : StatementLine}
    (h : RolledUp primary lines aggs) (htally : Statement.tally aggs line = .ok aggs') :
    RolledUp primary (lines ++ [line]) aggs' := by
  simp only [Statement.tally] at htally
  split at htally
  case h_1 i hfind =>
    rcases bind_eq_ok.1 htally with ⟨agg, hadd, heq⟩
    cases heq
    rcases List.findIdx?_eq_some_iff_getElem.1 hfind with ⟨hlt, hcur, -⟩
    rw [decide_eq_true_eq] at hcur
    have hget : aggs.getD i (.zero line.amount.currency) = aggs[i] := by
      rw [List.getD_eq_getElem?_getD, List.getElem?_eq_getElem hlt]
      rfl
    rw [hget] at hadd
    have hagg := Statement.addLine_ok hadd
    have hmem : aggs[i] ∈ aggs := List.getElem_mem hlt
    -- the currencies are as they were
    have hmap : (aggs.set i agg).map CurrencyAggregate.currency
        = aggs.map CurrencyAggregate.currency := by
      rw [List.map_set, hagg.1, ← List.getElem_map CurrencyAggregate.currency]
      exact List.set_getElem_self (by simpa using hlt)
    have hnodup := h.nodup
    rw [← hmap] at hnodup
    refine ⟨hnodup, hmap ▸ h.primary, ?_, ?_⟩
    · intro agg' hagg' kind
      rw [bookedIn_append]
      by_cases hsame : line.amount.currency = agg'.currency
      · -- the one that was updated
        have hself : agg ∈ aggs.set i agg := List.mem_set hlt agg
        obtain rfl : agg' = agg := List.inj_on_of_nodup_map hnodup hagg'
          hself (by rw [hagg.1, hcur, hsame])
        rw [if_pos hsame, hagg.2 kind, h.booked _ hmem kind, hagg.1]
      · rw [if_neg hsame, Int.add_zero]
        rcases List.mem_or_eq_of_mem_set hagg' with hold | rfl
        · exact h.booked agg' hold kind
        · exact absurd (hcur.symm.trans hagg.1.symm) hsame
    · intro l hl
      rw [hmap]
      rcases List.mem_append.1 hl with hl | hl
      · exact h.other l hl
      · rw [List.mem_singleton.1 hl, ← hcur]
        exact List.mem_map_of_mem hmem
  case h_2 hfind =>
    rcases bind_eq_ok.1 htally with ⟨agg, hadd, heq⟩
    cases heq
    have hagg := Statement.addLine_ok hadd
    have hcurrency : agg.currency = line.amount.currency := hagg.1
    have hnew : agg.currency ∉ aggs.map CurrencyAggregate.currency := by
      intro hmem
      rcases List.mem_map.1 hmem with ⟨a, ha, heq⟩
      have hnone := List.findIdx?_eq_none_iff.1 hfind a ha
      rw [decide_eq_false_iff_not] at hnone
      exact hnone (heq.trans hcurrency)
    refine ⟨?_, ?_, ?_, ?_⟩
    · rw [List.map_append]
      exact h.nodup.append (List.nodup_singleton _) (List.disjoint_singleton.2 hnew)
    · rw [List.map_append]
      exact List.mem_append_left _ h.primary
    · intro agg' hagg' kind
      rw [bookedIn_append]
      rcases List.mem_append.1 hagg' with hold | hlast
      · rw [if_neg, Int.add_zero]
        · exact h.booked agg' hold kind
        · intro heq
          apply hnew
          rw [hcurrency, heq]
          exact List.mem_map_of_mem hold
      · rw [List.mem_singleton.1 hlast, if_pos hcurrency.symm, hagg.2 kind,
          CurrencyAggregate.bucket_zero, bookedIn_eq_zero]
        intro l hl heq
        exact hnew (heq ▸ h.other l hl)
    · intro l hl
      rw [List.map_append]
      rcases List.mem_append.1 hl with hl | hl
      · exact List.mem_append_left _ (h.other l hl)
      · rw [List.mem_singleton.1 hl, ← hcurrency]
        exact List.mem_append_right _ (List.mem_singleton.2 rfl)

theorem rolledUp_of_foldlM {lines : List StatementLine}
    (h : lines.foldlM Statement.tally [.zero primary] = .ok aggs) :
    RolledUp primary lines aggs := by
  have hinit : RolledUp primary [] [.zero primary] := by
    refine ⟨List.nodup_singleton _, List.mem_singleton.2 rfl, ?_, ?_⟩
    · intro agg hagg kind
      rw [List.mem_singleton.1 hagg, CurrencyAggregate.bucket_zero]
      rfl
    · intro line hline
      cases hline
  have hstep : ∀ pre aggs line aggs', RolledUp primary pre aggs →
      Statement.tally aggs line = .ok aggs' →
      RolledUp primary (pre ++ [line]) aggs' :=
    fun _ _ _ _ hpre htally => hpre.tally htally
  exact foldlM_ok hinit hstep h

-- ==== the balances

theorem Statement.checkedAdd_ok {a b r : I64}
    (h : Statement.checkedAdd a b = .ok r) : r.val = a.val + b.val := by
  unfold Statement.checkedAdd at h
  split at h
  case h_1 x hx =>
    cases h
    exact I64.checkedAdd_eq_some.1 hx
  case h_2 => cases h

theorem Statement.checkedSub_ok {a b r : I64}
    (h : Statement.checkedSub a b = .ok r) : r.val = a.val - b.val := by
  unfold Statement.checkedSub at h
  split at h
  case h_1 x hx =>
    cases h
    exact I64.checkedSub_eq_some.1 hx
  case h_2 => cases h

theorem Statement.settle_ok {opening : I64} {agg agg' : CurrencyAggregate}
    (h : Statement.settle primary opening agg = .ok agg') :
    agg'.currency = agg.currency
      ∧ agg'.ending.minorUnits.val - agg'.opening.minorUnits.val
        = (agg.bucket .grossCapture).val - (agg.bucket .refund).val
          - (agg.bucket .chargeback).val - (agg.bucket .fee).val
          - (agg.bucket .payout).val + (agg.bucket .adjustment).val := by
  unfold Statement.settle at h
  rcases bind_eq_ok.1 h with ⟨e₁, h₁, h⟩
  rcases bind_eq_ok.1 h with ⟨e₂, h₂, h⟩
  rcases bind_eq_ok.1 h with ⟨e₃, h₃, h⟩
  rcases bind_eq_ok.1 h with ⟨e₄, h₄, h⟩
  rcases bind_eq_ok.1 h with ⟨e₅, h₅, h⟩
  rcases bind_eq_ok.1 h with ⟨e₆, h₆, h⟩
  cases h
  have v₁ := Statement.checkedAdd_ok h₁
  have v₂ := Statement.checkedSub_ok h₂
  have v₃ := Statement.checkedSub_ok h₃
  have v₄ := Statement.checkedSub_ok h₄
  have v₅ := Statement.checkedSub_ok h₅
  have v₆ := Statement.checkedAdd_ok h₆
  refine ⟨rfl, ?_⟩
  simp only [CurrencyAggregate.bucket, Money.fromMinor]
  omega

theorem StatementLine.change_eq (line : StatementLine) :
    line.change = line.share .grossCapture - line.share .refund
      - line.share .chargeback - line.share .fee - line.share .payout
      + line.share .adjustment := by
  unfold StatementLine.change StatementLine.share
  cases hkind : line.kind
  all_goals simp [StatementLineKind.isOutflow]

def changeIn (currency : Currency) (lines : List StatementLine) : Int :=
  ((linesIn currency lines).map StatementLine.change).sum

theorem changeIn_eq (currency : Currency) (lines : List StatementLine) :
    changeIn currency lines
      = bookedIn currency .grossCapture lines
        - bookedIn currency .refund lines - bookedIn currency .chargeback lines
        - bookedIn currency .fee lines - bookedIn currency .payout lines
        + bookedIn currency .adjustment lines := by
  unfold changeIn bookedIn
  induction linesIn currency lines with
  | nil => rfl
  | cons line lines ih =>
    simp only [List.map_cons, List.sum_cons]
    rw [ih, StatementLine.change_eq]
    ring

theorem settle_currencies {opening : I64} {aggs' : List CurrencyAggregate}
    (h : List.Forall₂ (fun a b => Statement.settle primary opening a = .ok b) aggs aggs') :
    aggs'.map CurrencyAggregate.currency = aggs.map CurrencyAggregate.currency := by
  induction h with
  | nil => rfl
  | cons hsettle _ ih =>
    rw [List.map_cons, List.map_cons, ih, (Statement.settle_ok hsettle).1]

theorem aggregate_ok {s s' : Statement} (h : s.aggregate = .ok s') :
    s'.lines = s.lines ∧ s'.primaryCurrency = s.primaryCurrency
      ∧ s'.primaryAggregate.ending.minorUnits.val - s'.primaryAggregate.opening.minorUnits.val
        = changeIn s.primaryCurrency s.lines := by
  unfold Statement.aggregate at h
  rcases bind_eq_ok.1 h with ⟨byCurrency, hfold, h⟩
  rcases bind_eq_ok.1 h with ⟨aggregates, hmap, h⟩
  cases h
  refine ⟨rfl, rfl, ?_⟩
  have hrolled := rolledUp_of_foldlM hfold
  rw [mapM_ok_iff] at hmap
  -- the primary aggregate is there
  have hfound : ∃ agg ∈ aggregates, agg.currency = s.primaryCurrency := by
    have hmem := hrolled.primary
    rw [← settle_currencies hmap] at hmem
    exact List.mem_map.1 hmem
  have hsome : (aggregates.find? fun a =>
      decide (a.currency = s.primaryCurrency)).isSome := by
    rcases hfound with ⟨agg, hagg, hcur⟩
    rw [List.find?_isSome]
    exact ⟨agg, hagg, decide_eq_true hcur⟩
  rcases Option.isSome_iff_exists.1 hsome with ⟨agg', hfind⟩
  have hprimary : Statement.primaryAggregate { s with aggregates } = agg' := by
    unfold Statement.primaryAggregate
    simp only
    rw [hfind]
    rfl
  have hcur : agg'.currency = s.primaryCurrency := by
    have hp := List.find?_some hfind
    rwa [decide_eq_true_eq] at hp
  rcases exists_of_forall₂ hmap.flip (List.mem_of_find?_eq_some hfind) with
    ⟨agg, hagg, hsettle⟩
  have hbalance := Statement.settle_ok hsettle
  rw [hprimary, hbalance.2, changeIn_eq, ← hcur, hbalance.1]
  simp only [hrolled.booked agg hagg]

-- ==== what is claimed

/-- What a caller gives for a line. -/
structure Given where
  id : String
  kind : StatementLineKind
  amount : Money
  postedAtUnixSecs : Nat
  externalId : Option String

def Given.line (g : Given) : StatementLine :=
  let line := StatementLine.new g.id g.kind g.amount g.postedAtUnixSecs
  match g.externalId with
  | some ext => line.withExternalId ext
  | none => line

/-- The statements built from lines that were given. -/
inductive Statement.Drawn : List Given → Statement → Prop
  | new {id m p c s} : Statement.new id m p c = .ok s → Drawn [] s
  | withOpening {gs s s' m} : Drawn gs s → s.withOpening m = .ok s' →
      Drawn gs s'
  | pushLine {gs s s' g} : Drawn gs s → s.pushLine g.line = .ok s' →
      Drawn (gs ++ [g]) s'
  | aggregate {gs s s'} : Drawn gs s → s.aggregate = .ok s' → Drawn gs s'

def CreditDebit.signed (c : CreditDebit) (amount : I64) : Int :=
  match c with
  | .CRDT => amount.val
  | .DBIT => -amount.val

/-- The direction of a type code, in the writer's table. -/
def Bai2.direction (code : Text) : CreditDebit :=
  if code = "142".toList ∨ code = "399".toList then .CRDT else .DBIT

/-- The direction and the amount of a `16` record. -/
def Bai2.Record.signed : Bai2.Record → Int
  | .transaction code amount _ => (Bai2.direction code).signed amount
  | _ => 0

def Camt053.net (s : Statement) : Int :=
  (((Camt053.entries s).filter fun e =>
    decide (e.currency = s.primaryCurrency)).map fun e =>
      e.cdtDbtInd.signed e.amount).sum

/-- The net of the `:61:` lines for the primary currency; the lines carry
no currency of their own. -/
def Mt940.net (s : Statement) : Option Int :=
  ((linesIn s.primaryCurrency s.lines).mapM Mt940.entry).map fun es =>
    (es.map fun e => e.sign.signed e.amount).sum

/-- The net of the `16` records for the primary currency; they carry no
currency either. -/
def Bai2.net (s : Statement) : Int :=
  (((linesIn s.primaryCurrency s.lines).map Bai2.transaction).map Bai2.Record.signed).sum

def Statement.moved (s : Statement) : Int :=
  s.primaryAggregate.ending.minorUnits.val - s.primaryAggregate.opening.minorUnits.val

def DebitEverywhere (line : StatementLine) : Prop :=
  (Camt053.entry line).cdtDbtInd = .DBIT
    ∧ (Mt940.entry line).map Mt940.Entry.sign = some .DBIT
    ∧ Bai2.direction (Bai2.typeCode line.kind).1 = .DBIT

/-- Every writer writes, its entries add up to the change of the balance,
and an adjustment given with a negative amount is a debit. -/
structure SameStory (gs : List Given) (s : Statement) : Prop where
  camt : Camt053.net s = s.moved
  written : ∀ intraDay, (Mt940.build intraDay s).isSome
  mt940 : Mt940.net s = some s.moved
  bai2 : Bai2.net s = s.moved
  debit : ∀ g ∈ gs, g.kind = .adjustment → g.amount.minorUnits.val < 0 → DebitEverywhere g.line

/-- No adjustment is given with a negative amount, and the ids can be cut
at the widths of their MT940 fields. -/
structure Tellable (gs : List Given) (s : Statement) : Prop where
  adjustment : ∀ g ∈ gs, g.kind = .adjustment → 0 ≤ g.amount.minorUnits.val
  id : (Mt940.truncate s.id.toList 16).isSome
  merchantId : (Mt940.truncate s.merchantId.toList 35).isSome
  lineId : ∀ g ∈ gs, (Mt940.truncate g.id.toList 16).isSome

-- ==== the entries

def StatementLine.Plain (line : StatementLine) : Prop :=
  line.kind = .adjustment → 0 ≤ line.amount.minorUnits.val

section
variable {line : StatementLine}

theorem camt_signed (h : line.Plain) :
    (Camt053.entry line).cdtDbtInd.signed (Camt053.entry line).amount = line.change := by
  unfold StatementLine.change StatementLine.booked Camt053.entry StatementLine.isDebit
  cases hkind : line.kind
  case adjustment =>
    have hpos := h hkind
    have hneg : ¬ line.amount.minorUnits.val < 0 := by omega
    simp [StatementLineKind.isOutflow, CreditDebit.signed, hneg, I64.abs_of_nonneg hpos]
  all_goals simp [StatementLineKind.isOutflow, CreditDebit.signed]

theorem swift_signed (h : line.Plain) :
    (Mt940.signedForSwiftLine line.kind line.amount.minorUnits).1.signed
        (Mt940.signedForSwiftLine line.kind line.amount.minorUnits).2
      = line.change := by
  unfold StatementLine.change StatementLine.booked Mt940.signedForSwiftLine
  cases hkind : line.kind
  case adjustment =>
    have hneg : ¬ line.amount.minorUnits.val < 0 := by
      have := h hkind
      omega
    simp [Mt940.signedForSwift, StatementLineKind.isOutflow, CreditDebit.signed, hneg]
  all_goals simp [StatementLineKind.isOutflow, CreditDebit.signed]

/-- The table's own directions. -/
theorem Bai2.direction_typeCode (kind : StatementLineKind) :
    Bai2.direction (Bai2.typeCode kind).1
      = if (Bai2.typeCode kind).2 then .CRDT else .DBIT := by
  cases kind
  all_goals decide

theorem bai2_signed (h : line.Plain) : (Bai2.transaction line).signed = line.change := by
  show (Bai2.direction (Bai2.typeCode line.kind).1).signed _ = _
  rw [Bai2.direction_typeCode]
  unfold StatementLine.change StatementLine.booked
  cases hkind : line.kind
  case adjustment =>
    have hpos := h hkind
    simp [Bai2.typeCode, StatementLineKind.isOutflow, CreditDebit.signed,
      I64.abs_of_nonneg hpos]
  all_goals simp [Bai2.typeCode, StatementLineKind.isOutflow, CreditDebit.signed]

end

-- ==== the story

/-- A loop that collects succeeds where each turn does. -/
theorem mapM_isSome_iff {α β : Type} {f : α → Option β} {l : List α} :
    (l.mapM f).isSome ↔ ∀ a ∈ l, (f a).isSome := by
  induction l with
  | nil => simp
  | cons a l ih =>
    rw [List.mapM_cons, List.forall_mem_cons, ← ih]
    cases f a with
    | none => simp
    | some b =>
      cases l.mapM f with
      | none => simp
      | some bs => simp

theorem isSome_entry (line : StatementLine) :
    (Mt940.entry line).isSome = (Mt940.truncate line.id.toList 16).isSome := by
  unfold Mt940.entry
  cases Mt940.truncate line.id.toList 16 with
  | none => rfl
  | some _ => rfl

theorem entry_eq_some {line : StatementLine} {e : Mt940.Entry} (h : Mt940.entry line = some e) :
    (e.sign, e.amount) = Mt940.signedForSwiftLine line.kind line.amount.minorUnits := by
  unfold Mt940.entry at h
  cases htrunc : Mt940.truncate line.id.toList 16 with
  | none =>
    rw [htrunc] at h
    cases h
  | some source =>
    simp only [htrunc, Option.bind_eq_bind, Option.bind_some,
      Option.pure_def, Option.some.injEq] at h
    rw [← h]

/-- MT940 is written where the ids can be cut. -/
theorem isSome_build (intraDay : Bool) (s : Statement) :
    (Mt940.build intraDay s).isSome
      ↔ (Mt940.truncate s.id.toList 16).isSome
        ∧ (Mt940.truncate s.merchantId.toList 35).isSome
        ∧ ∀ line ∈ s.lines, (Mt940.truncate line.id.toList 16).isSome := by
  have hentries : (Mt940.entries s).isSome
      ↔ ∀ line ∈ s.lines, (Mt940.truncate line.id.toList 16).isSome := by
    unfold Mt940.entries
    rw [mapM_isSome_iff]
    simp only [isSome_entry]
  rw [← hentries]
  unfold Mt940.build
  cases Mt940.truncate s.id.toList 16 with
  | none => simp
  | some id =>
    cases Mt940.truncate s.merchantId.toList 35 with
    | none => simp
    | some merchantId =>
      cases Mt940.entries s with
      | none => simp
      | some entries => simp

theorem camt_net {s : Statement} (h : ∀ line ∈ s.lines, line.Plain) :
    Camt053.net s = changeIn s.primaryCurrency s.lines := by
  unfold Camt053.net Camt053.entries changeIn linesIn
  rw [List.filter_map, List.map_map]
  congr 1
  refine List.map_congr_left fun line hline => ?_
  exact camt_signed (h line (List.mem_of_mem_filter hline))

theorem bai2_net {s : Statement} (h : ∀ line ∈ s.lines, line.Plain) :
    Bai2.net s = changeIn s.primaryCurrency s.lines := by
  unfold Bai2.net changeIn
  rw [List.map_map]
  congr 1
  refine List.map_congr_left fun line hline => ?_
  exact bai2_signed (h line (List.mem_of_mem_filter hline))

theorem mt940_net {s : Statement} (h : ∀ line ∈ s.lines, line.Plain)
    (hcut : ∀ line ∈ s.lines, (Mt940.truncate line.id.toList 16).isSome) :
    Mt940.net s = some (changeIn s.primaryCurrency s.lines) := by
  have hlines : ∀ lines : List StatementLine,
      (∀ line ∈ lines, line.Plain ∧ (Mt940.entry line).isSome) →
      (lines.mapM Mt940.entry).map (fun es =>
        (es.map fun e => e.sign.signed e.amount).sum)
        = some (lines.map StatementLine.change).sum := by
    intro lines hall
    induction lines with
    | nil => rfl
    | cons line lines ih =>
      rw [List.forall_mem_cons] at hall
      rcases Option.isSome_iff_exists.1 hall.1.2 with ⟨e, he⟩
      rcases Option.map_eq_some_iff.1 (ih hall.2) with ⟨es, hes, hsum⟩
      have hsigned : e.sign.signed e.amount = line.change := by
        rw [← swift_signed hall.1.1, ← entry_eq_some he]
      rw [List.mapM_cons, he, hes]
      show some ((e :: es).map _).sum = _
      rw [List.map_cons, List.sum_cons, hsum, hsigned, List.map_cons, List.sum_cons]
  unfold Mt940.net changeIn
  apply hlines
  intro line hline
  have hmem := List.mem_of_mem_filter hline
  refine ⟨h line hmem, ?_⟩
  rw [isSome_entry]
  exact hcut line hmem

section
variable {gs : List Given} {s s' : Statement}

theorem Given.line_eq (g : Given) :
    g.line.id = g.id ∧ g.line.kind = g.kind
      ∧ g.line.amount.minorUnits = g.amount.minorUnits.abs := by
  unfold Given.line
  cases g.externalId with
  | none => exact ⟨rfl, rfl, rfl⟩
  | some ext => exact ⟨rfl, rfl, rfl⟩

theorem Statement.Drawn.lines_eq (h : Statement.Drawn gs s) : s.lines = gs.map Given.line := by
  induction h with
  | new hnew =>
    unfold Statement.new at hnew
    split at hnew
    · cases hnew
    · cases hnew
      rfl
  | withOpening _ hopen ih =>
    unfold Statement.withOpening at hopen
    split at hopen
    · cases hopen
    · split at hopen
      · cases hopen
        exact ih
      · cases hopen
        exact ih
  | pushLine _ hpush ih =>
    unfold Statement.pushLine at hpush
    split at hpush
    · cases hpush
    · cases hpush
      rw [List.map_append, ← ih]
      rfl
  | aggregate _ hagg ih => rw [(aggregate_ok hagg).1, ih]

/-- Once aggregated, the three files tell the same story exactly when no
adjustment was given with a negative amount and the ids can be cut. -/
theorem sameStory_iff (hdrawn : Statement.Drawn gs s)
    (hagg : s.aggregate = .ok s') : SameStory gs s' ↔ Tellable gs s' := by
  rcases aggregate_ok hagg with ⟨hlines, hcur, hmoved⟩
  have hgiven : s'.lines = gs.map Given.line := by
    rw [hlines, hdrawn.lines_eq]
  rw [← hlines, ← hcur] at hmoved
  constructor
  · intro h
    have hcut := (isSome_build false s').1 (h.written false)
    refine ⟨?_, hcut.1, hcut.2.1, ?_⟩
    · intro g hg hkind
      by_contra hneg
      -- the adjustment's code is a credit
      have hbai := (h.debit g hg hkind (by omega)).2.2
      rw [(Given.line_eq g).2.1, hkind, Bai2.direction_typeCode] at hbai
      cases hbai
    · intro g hg
      rw [← (Given.line_eq g).1]
      apply hcut.2.2
      rw [hgiven]
      exact List.mem_map_of_mem hg
  · intro h
    have hplain : ∀ line ∈ s'.lines, line.Plain := by
      intro line hline hkind
      rw [hgiven] at hline
      rcases List.mem_map.1 hline with ⟨g, hg, rfl⟩
      rw [(Given.line_eq g).2.1] at hkind
      have hpos := h.adjustment g hg hkind
      rw [(Given.line_eq g).2.2, I64.abs_of_nonneg hpos]
      exact hpos
    have hcut : ∀ line ∈ s'.lines, (Mt940.truncate line.id.toList 16).isSome := by
      intro line hline
      rw [hgiven] at hline
      rcases List.mem_map.1 hline with ⟨g, hg, rfl⟩
      rw [(Given.line_eq g).1]
      exact h.lineId g hg
    refine ⟨?_, ?_, ?_, ?_, ?_⟩
    · rw [camt_net hplain]
      exact hmoved.symm
    · intro intraDay
      exact (isSome_build intraDay s').2 ⟨h.id, h.merchantId, hcut⟩
    · rw [mt940_net hplain hcut]
      exact congrArg some hmoved.symm
    · rw [bai2_net hplain]
      exact hmoved.symm
    · intro g hg hkind hneg
      have hpos := h.adjustment g hg hkind
      omega

end

def Statement.draw (gs : List Given) : Except Error Statement := do
  let s ← Statement.new "STMT-1" "MRCH-1" ⟨0, 86399⟩ .USD
  gs.foldlM (fun s g => s.pushLine g.line) s

theorem Statement.drawn_of_draw {gs : List Given} {s : Statement}
    (h : Statement.draw gs = .ok s) : Statement.Drawn gs s := by
  rcases bind_eq_ok.1 h with ⟨s₀, hnew, hfold⟩
  have hstep : ∀ pre s g s', Statement.Drawn pre s →
      Statement.pushLine s (Given.line g) = .ok s' →
      Statement.Drawn (pre ++ [g]) s' := fun _ _ _ _ => .pushLine
  exact foldlM_ok (.new hnew) hstep hfold

def Given.ordinary : List Given :=
  [⟨"l1", .grossCapture, ⟨⟨10000, by decide⟩, .USD⟩, 42, none⟩,
    ⟨"l2", .fee, ⟨⟨-290, by decide⟩, .USD⟩, 43, some "F-1"⟩,
    ⟨"l3", .adjustment, ⟨500, .EUR⟩, 44, none⟩]

theorem ordinary_sameStory :
    ∃ s s', Statement.draw Given.ordinary = .ok s ∧ s.aggregate = .ok s'
      ∧ SameStory Given.ordinary s' := by
  have hsome : ((Statement.draw Given.ordinary).bind Statement.aggregate).isOk = true := by
    decide +kernel
  rcases isOk_iff.1 hsome with ⟨s', h⟩
  rcases bind_eq_ok.1 h with ⟨s, hdraw, hagg⟩
  refine ⟨s, s', hdraw, hagg, ?_⟩
  refine (sameStory_iff (Statement.drawn_of_draw hdraw) hagg).2 ⟨?_, ?_, ?_, ?_⟩
  · decide
  · have hid : (((Statement.draw Given.ordinary).bind
        Statement.aggregate).toOption.map fun s =>
          (Mt940.truncate s.id.toList 16).isSome) = some true := by
      decide +kernel
    rw [h] at hid
    exact Option.some.inj hid
  · have hid : (((Statement.draw Given.ordinary).bind
        Statement.aggregate).toOption.map fun s =>
          (Mt940.truncate s.merchantId.toList 35).isSome) = some true := by
      decide +kernel
    rw [h] at hid
    exact Option.some.inj hid
  · decide +kernel

def Given.debit : Given :=
  ⟨"l1", .adjustment, ⟨⟨-500, by decide⟩, .USD⟩, 42, none⟩

/-- It is a credit in the files, and in the balance. -/
theorem debit_contradicted :
    ∃ s s', Statement.Drawn [Given.debit] s ∧ s.aggregate = .ok s'
      ∧ ¬ SameStory [Given.debit] s' := by
  have hsome : ((Statement.draw [Given.debit]).bind Statement.aggregate).isOk = true := by
    decide +kernel
  rcases isOk_iff.1 hsome with ⟨s', h⟩
  rcases bind_eq_ok.1 h with ⟨s, hdraw, hagg⟩
  refine ⟨s, s', Statement.drawn_of_draw hdraw, hagg, ?_⟩
  intro hstory
  have hcamt := (hstory.debit Given.debit (List.mem_singleton.2 rfl) rfl (by decide)).1
  revert hcamt
  decide

end OpenStandards.OpStatements

/-
What the amounts of a tax calculation add up to.

Every amount of a line is rounded on its own (`assessed_of_calcLine`), so
the rest is a question about rounding errors: those of a line's layers may
add up to a whole minor unit, where net and tax of a tax-inclusive line are
both midpoints both are rounded up, and the roll-up by authority skips sums
(`sum_foldl_postLayer`). A result reconciles exactly where none of the
three goes wrong (`reconciles_iff`).
-/
import OpenStandards.OpTax.Proofs.Layers

namespace OpenStandards.OpTax

open Lib
open OpCore (Money Currency CoreError)

-- ==== the unrounded amounts

def inclusiveRate (layers : List Layer) : ℚ :=
  ((layers.filter isInclusive).map fun l => l.2.rate).sum

/-- The amount without the tax that it contains. -/
def net (layers : List Layer) (amount : ℚ) : ℚ :=
  amount / (1 + inclusiveRate layers)

def layerTax (layers : List Layer) (amount : ℚ) (r : TaxRate) : ℚ :=
  if r.base = .inclusive then
    (amount - net layers amount) * (r.rate / inclusiveRate layers)
  else net layers amount * r.rate

def inOrder (layers : List Layer) : List Layer :=
  layers.filter isInclusive ++ layers.filter (!isInclusive ·)

def taxes (layers : List Layer) (amount : ℚ) : List ((Jurisdiction × RateKind) × ℚ) :=
  (inOrder layers).map fun l => ((l.1, l.2.kind), layerTax layers amount l.2)

theorem isInclusive_iff {l : Layer} :
    isInclusive l = true ↔ l.2.base = .inclusive := decide_eq_true_iff

theorem inclusiveRate_eq_zero {layers : List Layer}
    (h : layers.any isInclusive = false) : inclusiveRate layers = 0 := by
  have hnone : layers.filter isInclusive = [] := by
    rw [List.filter_eq_nil_iff]
    intro l hl hinc
    rw [List.any_eq_false] at h
    exact h l hl hinc
  unfold inclusiveRate
  rw [hnone]
  rfl

theorem net_of_rate_zero {layers : List Layer} (h : inclusiveRate layers = 0) (amount : ℚ) :
    net layers amount = amount := by
  unfold net
  rw [h, add_zero, div_one]

-- ==== what is charged

def posting (layer : JurisdictionTax) : (Jurisdiction × RateKind) × Int :=
  ((layer.jurisdiction, layer.kind), layer.amount.minorUnits.val)

/-- The tax as it is posted. -/
def rounded (t : (Jurisdiction × RateKind) × ℚ) : (Jurisdiction × RateKind) × Int :=
  (t.1, roundAway t.2)

/-- The breakdown of a line on which the layers are charged. -/
structure Assessed (layers : List Layer) (line : TaxableLine)
    (bd : LineTaxBreakdown) : Prop where
  lineId : bd.lineId = line.lineId
  taxable : bd.taxableAmount.minorUnits.val = roundAway (net layers line.amount.minorUnits.val)
  tax : bd.taxAmount.minorUnits.val
    = roundAway ((taxes layers line.amount.minorUnits.val).map Prod.snd).sum
  taxCurrency : bd.taxAmount.currency = line.amount.currency
  layers : bd.jurisdictionLayers.map posting
    = (taxes layers line.amount.minorUnits.val).map rounded
  layerCurrency : ∀ layer ∈ bd.jurisdictionLayers, layer.amount.currency = line.amount.currency

theorem decimalToMinor_ok {d : ℚ} {n : I64}
    (h : decimalToMinorRoundHalfUp d = .ok n) : n.val = roundAway d := by
  unfold decimalToMinorRoundHalfUp at h
  split at h
  case h_1 hof =>
    cases h
    exact I64.ofInt?_eq_some.1 hof
  case h_2 => cases h

section Charges

variable {currency : Currency} {tax : TaxRate → ℚ}

/-- What charging layers adds to the accumulators. -/
structure Charges (currency : Currency) (tax : TaxRate → ℚ)
    (layers : List Layer) (s s' : Tally) : Prop where
  total : s'.totalTaxDec = s.totalTaxDec + (layers.map fun l => tax l.2).sum
  posted : s'.perJurisdiction.map posting
    = s.perJurisdiction.map posting ++ layers.map fun l => rounded ((l.1, l.2.kind), tax l.2)
  inCurrency : (∀ layer ∈ s.perJurisdiction, layer.amount.currency = currency) →
    ∀ layer ∈ s'.perJurisdiction, layer.amount.currency = currency

variable {s s' : Tally} {layers : List Layer}

theorem charge_ok {l : Layer} (h : charge currency tax s l = .ok s') :
    Charges currency tax [l] s s' := by
  obtain ⟨n, hn, h⟩ := bind_eq_ok.1 h
  cases h
  have hval := decimalToMinor_ok hn
  refine ⟨?_, ?_, fun hs layer hlayer => ?_⟩
  · simp
  · simp [posting, rounded, Money.fromMinor, hval]
  · rcases List.mem_append.1 hlayer with hlayer | hlayer
    · exact hs layer hlayer
    · rw [List.mem_singleton.1 hlayer]
      rfl

theorem foldlM_charge (h : layers.foldlM (charge currency tax) s = .ok s') :
    Charges currency tax layers s s' := by
  induction layers generalizing s with
  | nil =>
    cases h
    exact ⟨by simp, by simp, fun hs => hs⟩
  | cons l layers ih =>
    rw [List.foldlM_cons] at h
    obtain ⟨s₁, h₁, h⟩ := bind_eq_ok.1 h
    have hstep := charge_ok h₁
    have hrest := ih h
    refine ⟨?_, ?_, fun hs => hrest.inCurrency (hstep.inCurrency hs)⟩
    · rw [hrest.total, hstep.total]
      simp [add_assoc]
    · rw [hrest.posted, hstep.posted]
      simp

theorem charges_congr {tax' : TaxRate → ℚ} (hsame : ∀ l ∈ layers, tax l.2 = tax' l.2)
    (h : Charges currency tax layers s s') :
    Charges currency tax' layers s s' := by
  refine ⟨?_, ?_, h.inCurrency⟩
  · rw [h.total, List.map_congr_left hsame]
  · rw [h.posted]
    congr 1
    exact List.map_congr_left fun l hl => by rw [hsame l hl]

theorem charges_append {layers' : List Layer} {s₁ : Tally}
    (h : Charges currency tax layers s s₁) (h' : Charges currency tax layers' s₁ s') :
    Charges currency tax (layers ++ layers') s s' := by
  refine ⟨?_, ?_, fun hs => h'.inCurrency (h.inCurrency hs)⟩
  · rw [h'.total, h.total, List.map_append, List.sum_append, add_assoc]
  · rw [h'.posted, h.posted, List.map_append, List.append_assoc]

end Charges

section Line

variable {layers : List Layer} {amount : Money} {netDec : ℚ} {s : Tally}

/-- What a line is charged, before it is rounded to a breakdown. -/
def Split (layers : List Layer) (amount : Money) (netDec : ℚ) (s : Tally) : Prop :=
  netDec = net layers amount.minorUnits.val
    ∧ Charges amount.currency (layerTax layers amount.minorUnits.val)
      (inOrder layers) ⟨[], 0, 0⟩ s

theorem chargeInclusive_ok (h : chargeInclusive layers amount = .ok (netDec, s)) :
    Split layers amount netDec s := by
  obtain ⟨n, hn, h⟩ := bind_eq_ok.1 h
  obtain ⟨s₁, h₁, h⟩ := bind_eq_ok.1 h
  obtain ⟨s₂, h₂, h⟩ := bind_eq_ok.1 h
  cases h
  have hnet : netDec = net layers amount.minorUnits.val := by
    unfold checkedDiv at hn
    split at hn
    · cases hn
    · cases hn
      rfl
  refine ⟨hnet, charges_append (charges_congr ?_ (foldlM_charge h₁))
    (charges_congr ?_ (foldlM_charge h₂))⟩
  · intro l hl
    have hinc := isInclusive_iff.1 (List.mem_filter.1 hl).2
    unfold layerTax
    rw [if_pos hinc, hnet]
    split
    case isTrue hzero =>
      change inclusiveRate layers = 0 at hzero
      rw [net_of_rate_zero hzero, sub_self, zero_mul]
    case isFalse => rfl
  · intro l hl
    have hexc : l.2.base ≠ .inclusive := by
      intro hbase
      have hnot := (List.mem_filter.1 hl).2
      rw [isInclusive_iff.2 hbase] at hnot
      cases hnot
    unfold layerTax
    rw [if_neg hexc, hnet]

theorem chargeExclusive_ok (hnone : layers.any isInclusive = false)
    (h : chargeExclusive layers amount = .ok (netDec, s)) :
    Split layers amount netDec s := by
  obtain ⟨s₁, h₁, h⟩ := bind_eq_ok.1 h
  cases h
  have hrate := inclusiveRate_eq_zero hnone
  have hnet := net_of_rate_zero hrate amount.minorUnits.val
  have hexc : ∀ l ∈ layers, isInclusive l = false := by
    intro l hl
    rw [List.any_eq_false] at hnone
    exact Bool.eq_false_iff.2 (hnone l hl)
  have horder : inOrder layers = layers := by
    unfold inOrder
    rw [List.filter_eq_nil_iff.2, List.nil_append, List.filter_eq_self]
    · intro l hl
      rw [hexc l hl]
      rfl
    · intro l hl
      rw [hexc l hl]
      exact Bool.false_ne_true
  refine ⟨hnet.symm, ?_⟩
  rw [horder]
  refine charges_congr ?_ (foldlM_charge h₁)
  intro l hl
  have hbase : l.2.base ≠ .inclusive := by
    intro hbase
    rw [← isInclusive_iff, hexc l hl] at hbase
    cases hbase
  unfold layerTax
  rw [if_neg hbase, hnet]

theorem chargeLayers_ok (h : chargeLayers layers amount = .ok (netDec, s)) :
    Split layers amount netDec s := by
  unfold chargeLayers at h
  split at h
  case isTrue => exact chargeInclusive_ok h
  case isFalse hany =>
    exact chargeExclusive_ok (Bool.eq_false_iff.2 hany) h

end Line

section

variable {self : NativeCalculator} {ctx : TaxContext} {line : TaxableLine}
  {bd : LineTaxBreakdown}

theorem assessed_of_taxLine (h : self.taxLine line = .ok bd) :
    Assessed (self.layers line) line bd := by
  unfold NativeCalculator.taxLine at h
  obtain ⟨-, h⟩ := refuse_bind_eq_ok.1 h
  obtain ⟨⟨netDec, s⟩, hsplit, h⟩ := bind_eq_ok.1 h
  obtain ⟨total, htotal, h⟩ := bind_eq_ok.1 h
  obtain ⟨netMinor, hnet, h⟩ := bind_eq_ok.1 h
  cases h
  obtain ⟨rfl, hcharges⟩ := chargeLayers_ok hsplit
  refine ⟨rfl, decimalToMinor_ok hnet, ?_, rfl, ?_, ?_⟩
  · show total.val = _
    rw [decimalToMinor_ok htotal, hcharges.total]
    unfold taxes
    rw [List.map_map, zero_add]
    rfl
  · show s.perJurisdiction.map posting = _
    rw [hcharges.posted]
    unfold taxes
    rw [List.map_map]
    rfl
  · exact hcharges.inCurrency fun layer hlayer =>
      absurd hlayer List.not_mem_nil

theorem assessed_of_calcLine (h : self.calcLine line ctx = .ok bd) :
    Assessed (charged self ctx line) line bd := by
  rw [calcLine_eq] at h
  unfold charged
  cases hzero : zeroReason line ctx with
  | none =>
    rw [hzero] at h
    exact assessed_of_taxLine h
  | some reason =>
    rw [hzero] at h
    cases h
    have hnet : net [] (line.amount.minorUnits.val : ℚ)
        = line.amount.minorUnits.val := net_of_rate_zero rfl _
    show Assessed [] line _
    refine ⟨rfl, ?_, ?_, rfl, rfl, fun layer hlayer => ?_⟩
    · rw [hnet, roundAway_intCast]
      rfl
    · exact (roundAway_intCast 0).symm
    · cases hlayer

end

-- ==== the roll-up

/-- What the running sums of a roll-up skip: the amounts whose addition to
the sum of their key leaves the 64-bit range. -/
def lost {κ : Type} [DecidableEq κ] : (κ → Int) → List (κ × Int) → Int
  | _, [] => 0
  | sums, (k, x) :: l =>
    if InI64 (sums k + x) then lost (Function.update sums k (sums k + x)) l
    else x + lost sums l

def units (j : JurisdictionTax) : Int := j.amount.minorUnits.val

def owed (m : Table (Jurisdiction × RateKind) JurisdictionTax)
    (key : Jurisdiction × RateKind) : Int :=
  (m.lookup key).elim 0 units

def InCurrency (currency : Currency)
    (m : Table (Jurisdiction × RateKind) JurisdictionTax) : Prop :=
  ∀ key j, m.lookup key = some j → j.amount.currency = currency

section RollUp

variable {currency : Currency}
  {m : Table (Jurisdiction × RateKind) JurisdictionTax}

theorem owed_insert (key : Jurisdiction × RateKind) (j : JurisdictionTax) :
    owed (m.insert key j) = Function.update (owed m) key (units j) := by
  funext key'
  unfold owed
  rw [Table.lookup_insert_eq]
  by_cases h : key' = key
  · rw [if_pos h, h, Function.update_self]
    rfl
  · rw [if_neg h, Function.update_of_ne h]

theorem sum_insert (key : Jurisdiction × RateKind) (j : JurisdictionTax) :
    ((Table.values (m.insert key j)).map units).sum
      = ((Table.values m).map units).sum + units j - owed m key :=
  Table.sum_values_insert m key j units

theorem inCurrency_empty (currency : Currency) : InCurrency currency ∅ := by
  intro key j h
  rw [AList.lookup_empty] at h
  cases h

theorem inCurrency_insert (hm : InCurrency currency m)
    {j : JurisdictionTax} (hj : j.amount.currency = currency) (key : Jurisdiction × RateKind) :
    InCurrency currency (m.insert key j) := by
  intro key' j' h
  rw [Table.lookup_insert_eq] at h
  split at h
  · cases h
    exact hj
  · exact hm key' j' h

/-- Posting a layer adds its amount to its key, or changes nothing where
that leaves the range. -/
theorem postLayer_cases (hm : InCurrency currency m)
    {layer : JurisdictionTax} (hl : layer.amount.currency = currency) :
    (InI64 (owed m (posting layer).1 + units layer)
        ∧ ∃ j : JurisdictionTax, j.amount.currency = currency
          ∧ units j = owed m (posting layer).1 + units layer
          ∧ NativeCalculator.postLayer m layer = m.insert (posting layer).1 j)
      ∨ (¬ InI64 (owed m (posting layer).1 + units layer)
        ∧ NativeCalculator.postLayer m layer = m) := by
  unfold NativeCalculator.postLayer owed posting
  dsimp only
  cases hlook : m.lookup (layer.jurisdiction, layer.kind) with
  | none =>
    rw [Option.elim_none, zero_add]
    exact Or.inl ⟨layer.amount.minorUnits.inRange, layer, hl, rfl, rfl⟩
  | some j =>
    rw [Option.elim_some]
    have hj := hm _ _ hlook
    dsimp only
    cases hadd : j.amount.checkedAdd layer.amount with
    | ok sum =>
      obtain ⟨hcur, hval⟩ := Money.checkedAdd_eq_ok hadd
      refine Or.inl ⟨?_, { j with amount := sum }, hcur.trans hj, hval,
        rfl⟩
      have hrange := sum.minorUnits.inRange
      rwa [hval] at hrange
    | error e =>
      refine Or.inr ⟨fun hin => ?_, rfl⟩
      unfold Money.checkedAdd at hadd
      rw [if_neg (not_not.2 (hj.trans hl.symm))] at hadd
      split at hadd
      case h_1 hnone =>
        exact I64.ofInt?_eq_none.1 hnone hin
      case h_2 => cases hadd

/-- Nothing is lost in the roll-up but what it skips. -/
theorem sum_foldl_postLayer {posted : List JurisdictionTax} (hm : InCurrency currency m)
    (hl : ∀ layer ∈ posted, layer.amount.currency = currency) :
    ((Table.values (posted.foldl NativeCalculator.postLayer m)).map
        units).sum + lost (owed m) (posted.map posting)
      = ((Table.values m).map units).sum + (posted.map units).sum := by
  induction posted generalizing m with
  | nil => rfl
  | cons layer posted ih =>
    have hrest := fun layer' h => hl layer' (List.mem_cons_of_mem _ h)
    have hlayer : (posting layer).2 = units layer := rfl
    rw [List.foldl_cons, List.map_cons, List.map_cons, List.sum_cons]
    unfold lost
    rw [hlayer]
    rcases postLayer_cases hm (hl layer List.mem_cons_self) with
      ⟨hin, j, hcur, hunits, hpost⟩ | ⟨hout, hpost⟩
    · have hnext := ih (inCurrency_insert hm hcur (posting layer).1) hrest
      rw [owed_insert, sum_insert, hunits] at hnext
      rw [if_pos hin, hpost]
      omega
    · have hnext := ih hm hrest
      rw [if_neg hout, hpost]
      omega

end RollUp

-- ==== the calls

def postings (self : NativeCalculator) (ctx : TaxContext)
    (line : TaxableLine) : List ((Jurisdiction × RateKind) × Int) :=
  (taxes (charged self ctx line) line.amount.minorUnits.val).map rounded

section Calls

variable {self : NativeCalculator} {ctx : TaxContext} {currency : Currency}
  {lines : List TaxableLine} {now : Int} {r : TaxResult}

def taxUnits (bd : LineTaxBreakdown) : Int := bd.taxAmount.minorUnits.val

def BreaksDown (self : NativeCalculator) (ctx : TaxContext)
    (currency : Currency) (line : TaxableLine) (bd : LineTaxBreakdown) :
    Prop :=
  line.amount.currency = currency ∧ Assessed (charged self ctx line) line bd

/-- The accumulators after some breakdowns. -/
structure Tallied (bds : List LineTaxBreakdown) (s : NativeCalculator.Totals) : Prop where
  total : s.totalTax.minorUnits.val = (bds.map taxUnits).sum
  perLine : s.perLine = Table.indexBy LineTaxBreakdown.lineId bds
  byJurisdiction : s.byJurisdiction
    = (bds.flatMap LineTaxBreakdown.jurisdictionLayers).foldl NativeCalculator.postLayer ∅

theorem tallied_addLine {bds : List LineTaxBreakdown}
    {s s' : NativeCalculator.Totals} {line : TaxableLine}
    (hs : Tallied bds s) (h : self.addLine ctx currency s line = .ok s') :
    ∃ bd, BreaksDown self ctx currency line bd ∧ Tallied (bds ++ [bd]) s' := by
  obtain ⟨hcur, h⟩ := refuse_bind_eq_ok.1 h
  obtain ⟨bd, hbd, h⟩ := bind_eq_ok.1 h
  obtain ⟨total, htotal, h⟩ := bind_eq_ok.1 h
  cases h
  obtain ⟨-, hsum⟩ := Money.checkedAdd_eq_ok (mapError_eq_ok.1 htotal)
  refine ⟨bd, ⟨not_not.1 hcur, assessed_of_calcLine hbd⟩, ?_, ?_, ?_⟩
  · rw [List.map_append, List.sum_append, ← hs.total]
    simpa [taxUnits] using hsum
  · rw [Table.indexBy_concat, ← hs.perLine]
  · rw [List.flatMap_append, List.foldl_append, ← hs.byJurisdiction, List.flatMap_singleton]

theorem tallied_of_foldlM {s : NativeCalculator.Totals}
    (h : lines.foldlM (self.addLine ctx currency)
      ⟨Money.fromMinor 0 currency, ∅, ∅⟩ = .ok s) :
    ∃ bds, List.Forall₂ (BreaksDown self ctx currency) lines bds ∧ Tallied bds s := by
  refine foldlM_ok (P := fun pre s =>
    ∃ bds, List.Forall₂ (BreaksDown self ctx currency) pre bds
      ∧ Tallied bds s) ⟨[], .nil, rfl, rfl, rfl⟩ ?_ h
  intro pre s line s' hs hstep
  obtain ⟨bds, hbds, hs⟩ := hs
  obtain ⟨bd, hbd, hs'⟩ := tallied_addLine hs hstep
  exact ⟨bds ++ [bd], List.rel_append hbds (.cons hbd .nil), hs'⟩

/-- What a call that succeeds returns. -/
structure Returned (nc : NativeCalculator) (ctx : TaxContext)
    (lines : List TaxableLine) (bds : List LineTaxBreakdown)
    (r : TaxResult) : Prop where
  assessed : List.Forall₂ (fun line bd => Assessed (charged nc ctx line) line bd) lines bds
  total : r.totalTax.minorUnits.val = (bds.map taxUnits).sum
  perLine : r.perLine = Table.indexBy LineTaxBreakdown.lineId bds
  rolledUp : (r.jurisdictionsCharged.map units).sum
      + lost (fun _ => 0) (lines.flatMap (postings nc ctx))
    = ((bds.flatMap LineTaxBreakdown.jurisdictionLayers).map units).sum

theorem returned_of_calculate (h : self.calculate lines ctx now = .ok r) :
    ∃ bds, Returned self ctx lines bds r := by
  cases lines with
  | nil => cases h
  | cons first rest =>
    obtain ⟨s, hs, h⟩ := bind_eq_ok.1 h
    cases h
    obtain ⟨bds, hbds, hs⟩ := tallied_of_foldlM hs
    refine ⟨bds, hbds.imp fun _ _ hbd => hbd.2, hs.total, hs.perLine, ?_⟩
    -- every layer is in the call's currency
    have hcur : ∀ bd ∈ bds, ∀ layer ∈ bd.jurisdictionLayers,
        layer.amount.currency = first.amount.currency := by
      intro bd hbd
      obtain ⟨line, -, hline⟩ := exists_of_forall₂ hbds.flip hbd
      intro layer hlayer
      exact (hline.2.layerCurrency layer hlayer).trans hline.1
    have hposted : (bds.flatMap LineTaxBreakdown.jurisdictionLayers).map posting
        = (first :: rest).flatMap (postings self ctx) := by
      have hmap : (first :: rest).map (postings self ctx)
          = bds.map fun bd => bd.jurisdictionLayers.map posting := by
        refine map_eq_of_forall₂ hbds ?_
        intro line bd hbd
        exact hbd.2.layers.symm
      rw [List.map_flatMap, List.flatMap_def, List.flatMap_def]
      exact congrArg List.flatten hmap.symm
    have hall : ∀ layer ∈ bds.flatMap LineTaxBreakdown.jurisdictionLayers,
        layer.amount.currency = first.amount.currency := by
      intro layer hlayer
      obtain ⟨bd, hbd, hlayer⟩ := List.mem_flatMap.1 hlayer
      exact hcur bd hbd layer hlayer
    have hsum := sum_foldl_postLayer (inCurrency_empty _) hall
    rw [hposted, ← hs.byJurisdiction] at hsum
    have hperm : ((s.byJurisdiction.entries.insertionSort
          NativeCalculator.keyLe).map Sigma.snd).Perm
        (Table.values s.byJurisdiction) :=
      (List.perm_insertionSort _ _).map _
    rw [(hperm.map units).sum_eq]
    refine hsum.trans ?_
    exact zero_add _

end Calls

-- ==== one line

section

variable {layers : List Layer} {line : TaxableLine} {bd : LineTaxBreakdown}

theorem units_of_assessed (h : Assessed layers line bd) :
    bd.jurisdictionLayers.map units
      = ((taxes layers line.amount.minorUnits.val).map Prod.snd).map
        roundAway := by
  have hsnd := congrArg (List.map Prod.snd) h.layers
  rw [List.map_map, List.map_map] at hsnd
  rw [List.map_map]
  exact hsnd

def layerErrors (layers : List Layer) (amount : ℚ) : List ℚ :=
  (taxes layers amount).map fun t => t.2 - roundAway t.2

/-- The unrounded tax of a line. -/
def totalTax (layers : List Layer) (amount : ℚ) : ℚ :=
  ((taxes layers amount).map Prod.snd).sum

/-- The layers add up to the tax of the line where their errors add up to
an error. -/
theorem layers_sum_iff (h : Assessed layers line bd) :
    (bd.jurisdictionLayers.map units).sum = taxUnits bd
      ↔ IsError (totalTax layers line.amount.minorUnits.val)
        (layerErrors layers line.amount.minorUnits.val).sum := by
  have hiff := roundAway_sum_iff ((taxes layers line.amount.minorUnits.val).map Prod.snd)
  have herrors : layerErrors layers line.amount.minorUnits.val
      = ((taxes layers line.amount.minorUnits.val).map Prod.snd).map
        fun t => t - roundAway t := by
    unfold layerErrors
    rw [List.map_map]
    rfl
  unfold taxUnits totalTax
  rw [units_of_assessed h, h.tax, herrors, eq_comm]
  exact hiff

theorem inclusiveRate_nonneg (h : ∀ l ∈ layers, 0 ≤ l.2.rate) : 0 ≤ inclusiveRate layers := by
  unfold inclusiveRate
  refine List.sum_nonneg fun q hq => ?_
  obtain ⟨l, hl, rfl⟩ := List.mem_map.1 hq
  exact h l (List.mem_filter.1 hl).1

theorem totalTax_of_inclusive (hall : ∀ l ∈ layers, l.2.base = .inclusive)
    (amount : ℚ) : totalTax layers amount = amount - net layers amount := by
  have hfilter : layers.filter isInclusive = layers :=
    List.filter_eq_self.2 fun l hl => isInclusive_iff.2 (hall l hl)
  have horder : inOrder layers = layers := by
    unfold inOrder
    rw [hfilter, List.filter_eq_nil_iff.2, List.append_nil]
    intro l hl
    rw [isInclusive_iff.2 (hall l hl)]
    exact Bool.false_ne_true
  have hshares : totalTax layers amount
      = (layers.map fun l => (amount - net layers amount)
        * (l.2.rate / inclusiveRate layers)).sum := by
    unfold totalTax taxes
    rw [horder, List.map_map]
    congr 1
    refine List.map_congr_left fun l hl => ?_
    show layerTax layers amount l.2 = _
    unfold layerTax
    rw [if_pos (hall l hl)]
  have hrate : (layers.map fun l => l.2.rate).sum = inclusiveRate layers := by
    unfold inclusiveRate
    rw [hfilter]
  have hsum : (layers.map fun l => (amount - net layers amount)
        * (l.2.rate / inclusiveRate layers)).sum
      = (amount - net layers amount)
        * ((layers.map fun l => l.2.rate).sum / inclusiveRate layers) := by
    generalize inclusiveRate layers = total
    generalize amount - net layers amount = part
    clear hfilter horder hshares hrate hall
    induction layers with
    | nil => simp
    | cons l layers ih =>
      rw [List.map_cons, List.sum_cons, ih, List.map_cons, List.sum_cons]
      ring
  rw [hshares, hsum, hrate]
  by_cases hzero : inclusiveRate layers = 0
  · rw [net_of_rate_zero hzero, sub_self, zero_mul]
  · rw [div_self hzero, mul_one]

theorem net_sign (hrates : ∀ l ∈ layers, 0 ≤ l.2.rate) (amount : ℚ) :
    0 ≤ net layers amount ∧ 0 ≤ amount - net layers amount
      ∨ net layers amount ≤ 0 ∧ amount - net layers amount ≤ 0 := by
  have hrate := inclusiveRate_nonneg hrates
  have hpos : 0 < 1 + inclusiveRate layers := by linarith
  have htax : amount - net layers amount = net layers amount * inclusiveRate layers := by
    unfold net
    field_simp
    ring
  rw [htax]
  unfold net
  rcases le_total 0 amount with ha | ha
  · have hnet := div_nonneg ha hpos.le
    exact Or.inl ⟨hnet, mul_nonneg hnet hrate⟩
  · have hnet := div_nonpos_of_nonpos_of_nonneg ha hpos.le
    exact Or.inr ⟨hnet, mul_nonpos_of_nonpos_of_nonneg hnet hrate⟩

theorem inclusive_sum_iff (hrates : ∀ l ∈ layers, 0 ≤ l.2.rate)
    (hall : ∀ l ∈ layers, l.2.base = .inclusive) (h : Assessed layers line bd) :
    bd.taxableAmount.minorUnits.val + taxUnits bd = line.amount.minorUnits.val
      ↔ ¬ IsMidpoint (net layers line.amount.minorUnits.val) := by
  have htax := totalTax_of_inclusive hall line.amount.minorUnits.val
  unfold totalTax at htax
  unfold taxUnits
  rw [h.taxable, h.tax, htax]
  exact roundAway_add_eq_iff (add_sub_cancel ..) (net_sign hrates _)

end

-- ==== on file

section

variable {self : NativeCalculator} {line : TaxableLine}

def RateTable.Has (t : RateTable) (r : TaxRate) : Prop :=
  ∃ key, t.entries.lookup key = some r

theorem RateTable.has_of_lookup {t : RateTable} {j : Jurisdiction}
    {c : ProductTaxCategory} {r : TaxRate} (h : t.lookup j c = some r) :
    t.Has r := by
  unfold RateTable.lookup at h
  split at h
  case h_1 hexact => exact ⟨_, hexact.trans h⟩
  case h_2 => exact ⟨_, h⟩

variable {l : Layer}

theorem has_of_mem_selected (h : l ∈ self.selected line) : self.table.Has l.2 := by
  obtain ⟨j, -, hj⟩ := List.mem_filterMap.1 h
  obtain ⟨r, hr, rfl⟩ := Option.map_eq_some_iff.1 hj
  rcases Option.or_eq_some_iff.1 hr with hover | ⟨-, hlook⟩
  · unfold NativeCalculator.overrideAt at hover
    split at hover
    · exact RateTable.has_of_lookup hover
    · cases hover
  · exact RateTable.has_of_lookup hlook

theorem has_importDuty (h : l ∈ self.importDuty line) : self.table.Has l.2 := by
  unfold NativeCalculator.importDuty at h
  split at h
  · cases h
  · split at h
    · dsimp only at h
      split at h
      case h_1 r hlook =>
        rw [List.mem_singleton.1 h]
        exact RateTable.has_of_lookup (Option.filter_eq_some_iff.1 hlook).1
      case h_2 => cases h
    · cases h

/-- Only rates on file are charged. -/
theorem has_of_mem_layers (h : l ∈ self.layers line) : self.table.Has l.2 := by
  rw [NativeCalculator.layers_eq] at h
  rcases List.mem_append.1 h with h | h
  · exact has_of_mem_selected (mem_of_mem_narrowest h)
  · exact has_importDuty h

theorem charged_rates {ctx : TaxContext} (hrates : ∀ r, self.table.Has r → 0 ≤ r.rate) :
    ∀ l ∈ charged self ctx line, 0 ≤ l.2.rate := by
  intro l hl
  unfold charged at hl
  split at hl
  · cases hl
  · exact hrates _ (has_of_mem_layers hl)

end

-- ==== reconciliation

/-- Collected tax equals remitted tax: the lines add up to the total, the
layers of each line to its tax, the amounts charged by jurisdiction to the
total, and net and tax of a tax-inclusive line to its amount. -/
structure Reconciles (nc : NativeCalculator) (ctx : TaxContext)
    (lines : List TaxableLine) (r : TaxResult) : Prop where
  total : r.totalTax.minorUnits.val = ((Table.values r.perLine).map taxUnits).sum
  layers : ∀ bd ∈ Table.values r.perLine, (bd.jurisdictionLayers.map units).sum = taxUnits bd
  rollUp : (r.jurisdictionsCharged.map units).sum = r.totalTax.minorUnits.val
  inclusive : ∀ line ∈ lines, ∀ bd,
    r.perLine.lookup line.lineId = some bd →
    (∀ l ∈ charged nc ctx line, l.2.base = .inclusive) →
    bd.taxableAmount.minorUnits.val + taxUnits bd = line.amount.minorUnits.val

/-- The rounding errors of every line's layers stay below a half, no
tax-inclusive line has a net halfway between two units, and what the
running sums of the roll-up skip comes to nothing. -/
structure RoundsEvenly (nc : NativeCalculator) (ctx : TaxContext)
    (lines : List TaxableLine) : Prop where
  errors : ∀ line ∈ lines,
    IsError (totalTax (charged nc ctx line) line.amount.minorUnits.val)
      (layerErrors (charged nc ctx line) line.amount.minorUnits.val).sum
  midpoints : ∀ line ∈ lines,
    (∀ l ∈ charged nc ctx line, l.2.base = .inclusive) →
    ¬ IsMidpoint (net (charged nc ctx line) line.amount.minorUnits.val)
  skipped : lost (fun _ => 0) (lines.flatMap (postings nc ctx)) = 0

section

variable {self : NativeCalculator} {ctx : TaxContext}
  {lines : List TaxableLine} {now : Int} {r : TaxResult}
  {bds : List LineTaxBreakdown}

theorem lineIds_of_returned (h : Returned self ctx lines bds r) :
    bds.map LineTaxBreakdown.lineId = lines.map TaxableLine.lineId := by
  refine (map_eq_of_forall₂ h.assessed ?_).symm
  intro line bd hbd
  exact hbd.lineId.symm

/-- Every line finds its breakdown under its identifier. -/
theorem lookup_of_returned (h : Returned self ctx lines bds r)
    (hids : (lines.map TaxableLine.lineId).Nodup) {line : TaxableLine} (hline : line ∈ lines) :
    ∃ bd, r.perLine.lookup line.lineId = some bd
      ∧ Assessed (charged self ctx line) line bd := by
  obtain ⟨bd, hbd, hassessed⟩ := exists_of_forall₂ h.assessed hline
  rw [← lineIds_of_returned h] at hids
  refine ⟨bd, ?_, hassessed⟩
  rw [h.perLine, ← hassessed.lineId]
  exact Table.lookup_indexBy hids hbd

theorem sum_flatMap_layers (bds : List LineTaxBreakdown) :
    ((bds.flatMap LineTaxBreakdown.jurisdictionLayers).map units).sum
      = (bds.map fun bd => (bd.jurisdictionLayers.map units).sum).sum := by
  induction bds with
  | nil => rfl
  | cons bd bds ih =>
    rw [List.flatMap_cons, List.map_append, List.sum_append, ih, List.map_cons, List.sum_cons]

/-- A result reconciles exactly where the roundings of its lines do. -/
theorem reconciles_iff (hrates : ∀ r, self.table.Has r → 0 ≤ r.rate)
    (hids : (lines.map TaxableLine.lineId).Nodup) (h : self.calculate lines ctx now = .ok r) :
    Reconciles self ctx lines r ↔ RoundsEvenly self ctx lines := by
  obtain ⟨bds, hr⟩ := returned_of_calculate h
  have hnd := hids
  rw [← lineIds_of_returned hr] at hnd
  have hperm : (Table.values r.perLine).Perm bds := by
    rw [hr.perLine]
    exact Table.values_indexBy_perm hnd
  have htotal : r.totalTax.minorUnits.val = ((Table.values r.perLine).map taxUnits).sum := by
    rw [hr.total, (hperm.map taxUnits).sum_eq]
  have hlayers : (∀ bd ∈ Table.values r.perLine,
        (bd.jurisdictionLayers.map units).sum = taxUnits bd)
      ↔ ∀ line ∈ lines,
        IsError (totalTax (charged self ctx line) line.amount.minorUnits.val)
          (layerErrors (charged self ctx line) line.amount.minorUnits.val).sum := by
    rw [forall_mem_iff_of_forall₂ hr.assessed fun line bd hbd =>
      (layers_sum_iff hbd).symm]
    simp only [hperm.mem_iff]
  -- where every line's layers add up, the roll-up misses what it skips
  have hcharged : (∀ bd ∈ Table.values r.perLine,
        (bd.jurisdictionLayers.map units).sum = taxUnits bd) →
      ((r.jurisdictionsCharged.map units).sum = r.totalTax.minorUnits.val
        ↔ lost (fun _ => 0) (lines.flatMap (postings self ctx)) = 0) := by
    intro hall
    have hsum := hr.rolledUp
    rw [sum_flatMap_layers, List.map_congr_left fun bd hbd =>
      hall bd (hperm.mem_iff.2 hbd), ← hr.total] at hsum
    omega
  have hinclusive : ∀ line ∈ lines,
      (∀ l ∈ charged self ctx line, l.2.base = .inclusive) →
      ((∀ bd, r.perLine.lookup line.lineId = some bd →
          bd.taxableAmount.minorUnits.val + taxUnits bd = line.amount.minorUnits.val)
        ↔ ¬ IsMidpoint (net (charged self ctx line) line.amount.minorUnits.val)) := by
    intro line hline hall
    obtain ⟨bd, hlook, hbd⟩ := lookup_of_returned hr hids hline
    rw [← inclusive_sum_iff (charged_rates hrates) hall hbd, hlook]
    simp only [Option.some.injEq, forall_eq']
  constructor
  · intro hrec
    refine ⟨hlayers.1 hrec.layers, ?_, (hcharged hrec.layers).1 hrec.rollUp⟩
    intro line hline hall
    exact (hinclusive line hline hall).1 fun bd hlook =>
      hrec.inclusive line hline bd hlook hall
  · intro heven
    have hsums := hlayers.2 heven.errors
    refine ⟨htotal, hsums, (hcharged hsums).2 heven.skipped, ?_⟩
    intro line hline bd hlook hall
    exact (hinclusive line hline hall).2 (heven.midpoints line hline hall) bd hlook

end

-- --------------------------------------------------- a transit district

theorem RateTable.has_withRate {t : RateTable} {j : Jurisdiction}
    {c : ProductTaxCategory} {r r' : TaxRate} (h : (t.withRate j c r).Has r') :
    r' = r ∨ t.Has r' := by
  obtain ⟨key, hkey⟩ := h
  unfold RateTable.withRate at hkey
  rw [Table.lookup_insert_eq] at hkey
  split at hkey
  · exact Or.inl (Option.some.inj hkey).symm
  · exact Or.inr ⟨key, hkey⟩

def seattle : NativeCalculator where
  table :=
    ((RateTable.empty.withRate (.ofRegion "US" "WA") .tangibleGoods
        (.sales (65 / 1000))).withRate (.ofLocality "US" "WA" "Seattle")
        .tangibleGoods (.sales (385 / 10000))).withRate
      (.full "US" "WA" "Seattle" "KingTransit") .tangibleGoods
      (.sales (9 / 1000))

theorem seattle_rates (r : TaxRate) (h : seattle.table.Has r) : 0 ≤ r.rate := by
  rcases RateTable.has_withRate h with rfl | h
  · decide +kernel
  · rcases RateTable.has_withRate h with rfl | h
    · decide +kernel
    · rcases RateTable.has_withRate h with rfl | h
      · decide +kernel
      · obtain ⟨key, hkey⟩ := h
        cases hkey

def retail (amount : I64) : TaxableLine :=
  ⟨"L1", Money.fromMinor amount .USD, .tangibleGoods, none,
    .full "US" "WA" "Seattle" "KingTransit"⟩

/-- A hundred dollars are taxed 6.50, 3.85 and 0.90, which is 11.25. -/
theorem hundred_reconciles :
    ∃ r, seattle.calculate [retail ⟨10000, by decide⟩] consumer 0 = .ok r
      ∧ Reconciles seattle consumer [retail ⟨10000, by decide⟩] r := by
  have hok : (seattle.calculate [retail ⟨10000, by decide⟩] consumer
      0).isOk = true := by decide +kernel
  obtain ⟨r, hr⟩ := isOk_iff.1 hok
  refine ⟨r, hr, (reconciles_iff seattle_rates (by decide) hr).2 ?_⟩
  exact ⟨by decide +kernel, by decide +kernel, by decide +kernel⟩

/-- Of half a dollar the three authorities get 3, 2 and 0 cents, and the
customer pays 6. -/
theorem half_dollar_misses :
    (∀ r, seattle.table.Has r → 0 ≤ r.rate)
      ∧ ∃ r, seattle.calculate [retail ⟨50, by decide⟩] consumer 0 = .ok r
        ∧ ¬ Reconciles seattle consumer [retail ⟨50, by decide⟩] r := by
  have hvalue : (seattle.calculate [retail ⟨50, by decide⟩] consumer
        0).toOption.map (fun r =>
          (r.totalTax.minorUnits.val, (r.jurisdictionsCharged.map units).sum))
      = some (6, 5) := by decide +kernel
  refine ⟨seattle_rates, ?_⟩
  cases hr : seattle.calculate [retail ⟨50, by decide⟩] consumer 0 with
  | error e =>
    rw [hr] at hvalue
    cases hvalue
  | ok r =>
    rw [hr] at hvalue
    have hpair := Option.some.inj hvalue
    refine ⟨r, rfl, fun hrec => ?_⟩
    have hroll := hrec.rollUp
    rw [(Prod.mk.inj hpair).1, (Prod.mk.inj hpair).2] at hroll
    exact absurd hroll (by decide)

end OpenStandards.OpTax

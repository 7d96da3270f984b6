/-
The bundled tax engine (op-tax `jurisdiction.rs`, `category.rs`,
`rate_table.rs`, `exemption.rs`, `calculator.rs`, `native.rs`): a line is
zero-rated, or every rate along its destination's chain of authorities is
charged on it.

A `Decimal` is a rational, and becomes an integer of minor units where the
source rounds it. The set of nexus jurisdictions is a list; a date is read
through the number of its day.
-/
import OpenStandards.Lib.Calendar
import OpenStandards.Lib.Fallible
import OpenStandards.Lib.Rounding
import OpenStandards.Lib.Table
import OpenStandards.OpCore.Money
import Mathlib.Data.List.Sort

namespace OpenStandards.OpTax

open Lib
open OpCore (Money Currency CoreError)

-- ==== jurisdictions

/-- A point in the tax-authority hierarchy, ordered broader scopes first. -/
structure Jurisdiction where
  country : String
  region : Option String
  locality : Option String
  specialDistrict : Option String
deriving DecidableEq, Ord

def toAsciiUppercase (s : String) : String := s.map Char.toUpper

namespace Jurisdiction

/-- `Jurisdiction::country` -/
def ofCountry (country : String) : Jurisdiction :=
  ⟨toAsciiUppercase country, none, none, none⟩

/-- `Jurisdiction::region` -/
def ofRegion (country region : String) : Jurisdiction :=
  ⟨toAsciiUppercase country, some (toAsciiUppercase region), none, none⟩

/-- `Jurisdiction::locality` -/
def ofLocality (country region locality : String) : Jurisdiction :=
  ⟨toAsciiUppercase country, some (toAsciiUppercase region), some locality, none⟩

/-- `Jurisdiction::full` -/
def full (country region locality district : String) : Jurisdiction :=
  ⟨toAsciiUppercase country, some (toAsciiUppercase region), some locality, some district⟩

/-- The jurisdiction and those around it, broadest first. A level below a
missing one is not reached. -/
def ancestors (j : Jurisdiction) : List Jurisdiction :=
  ⟨j.country, none, none, none⟩ ::
    match j.region with
    | none => []
    | some region =>
      ⟨j.country, some region, none, none⟩ ::
        match j.locality with
        | none => []
        | some locality =>
          ⟨j.country, some region, some locality, none⟩ ::
            match j.specialDistrict with
            | none => []
            | some district =>
              [⟨j.country, some region, some locality, some district⟩]

def isEuMember (j : Jurisdiction) : Bool :=
  j.country ∈ ["AT", "BE", "BG", "HR", "CY", "CZ", "DK", "EE", "FI", "FR",
    "DE", "GR", "HU", "IE", "IT", "LV", "LT", "LU", "MT", "NL", "PL", "PT",
    "RO", "SK", "SI", "ES", "SE"]

/-- `Display` -/
def toText (j : Jurisdiction) : String :=
  j.country
    ++ j.region.elim "" ("-" ++ ·)
    ++ j.locality.elim "" ("/" ++ ·)
    ++ j.specialDistrict.elim "" ("#" ++ ·)

end Jurisdiction

-- ==== rates

/-- Tax-relevant classification of a sold line item. -/
inductive ProductTaxCategory where
  | tangibleGoods | digitalGoods | software | saas | professionalService
  | telecommunications | healthcare | food | clothing | alcohol | tobacco
  | motorFuel | lodging | admissionsAndEvents
  | other (tag : String)
deriving DecidableEq

def ProductTaxCategory.tag : ProductTaxCategory → String
  | tangibleGoods => "tangible_goods"
  | digitalGoods => "digital_goods"
  | software => "software"
  | saas => "saas"
  | professionalService => "professional_service"
  | telecommunications => "telecommunications"
  | healthcare => "healthcare"
  | food => "food"
  | clothing => "clothing"
  | alcohol => "alcohol"
  | tobacco => "tobacco"
  | motorFuel => "motor_fuel"
  | lodging => "lodging"
  | admissionsAndEvents => "admissions_events"
  | other s => s

/-- Whether the published amount already contains the tax. -/
inductive TaxBase where
  | inclusive | exclusive
deriving DecidableEq

inductive RateKind where
  | sales | use | vat | gst | excise | importDuty
deriving DecidableEq, Ord

structure TaxRate where
  rate : ℚ
  kind : RateKind
  base : TaxBase

namespace TaxRate

def sales (rate : ℚ) : TaxRate := ⟨rate, .sales, .exclusive⟩
/-- The kinds of which only the most specific layer is charged. -/
def isVatOrGst (r : TaxRate) : Bool := r.kind = .vat ∨ r.kind = .gst

end TaxRate

/-- The rates on file. -/
structure RateTable where
  entries : Table (Jurisdiction × ProductTaxCategory) TaxRate

namespace RateTable

def empty : RateTable := ⟨∅⟩

/-- `RateTable::with` -/
def withRate (t : RateTable) (j : Jurisdiction) (c : ProductTaxCategory)
    (r : TaxRate) : RateTable := ⟨t.entries.insert (j, c) r⟩

def lookup (t : RateTable) (j : Jurisdiction) (c : ProductTaxCategory) : Option TaxRate :=
  match t.entries.lookup (j, c) with
  | some r => some r
  | none => t.entries.lookup (j, .tangibleGoods)

end RateTable

-- ==== requests

inductive CustomerType where
  | consumer
  | business (taxId : String)
  | exempt

/-- A buyer's exemption credential. -/
structure ExemptionCertificate where
  id : String
  jurisdictions : List Jurisdiction
  categories : List ProductTaxCategory
  validFrom : Date
  validUntil : Option Date

structure TaxableLine where
  lineId : String
  amount : Money
  category : ProductTaxCategory
  shipFrom : Option Jurisdiction
  shipTo : Jurisdiction

/-- What applies to every line of a call. -/
structure TaxContext where
  transactionDate : Date
  customerType : CustomerType
  exemptionCerts : List ExemptionCertificate
  nexusJurisdictions : List Jurisdiction

def applies (cert : ExemptionCertificate) (line : TaxableLine) (ctx : TaxContext) : Bool :=
  cert.validFrom.dayNumber ≤ ctx.transactionDate.dayNumber
    && (cert.validUntil.all fun last =>
      ctx.transactionDate.dayNumber ≤ last.dayNumber)
    && (cert.jurisdictions.isEmpty
      || cert.jurisdictions.any (line.shipTo.ancestors.contains ·))
    && (cert.categories.isEmpty || cert.categories.contains line.category)

-- ==== results

/-- Tax collected for a specific authority. -/
structure JurisdictionTax where
  jurisdiction : Jurisdiction
  rate : ℚ
  amount : Money
  kind : RateKind

structure LineTaxBreakdown where
  lineId : String
  taxableAmount : Money
  taxAmount : Money
  effectiveRate : ℚ
  jurisdictionLayers : List JurisdictionTax
  exemptionReason : Option String

structure TaxResult where
  totalTax : Money
  perLine : Table String LineTaxBreakdown
  jurisdictionsCharged : List JurisdictionTax
  calculator : String
  calculatedAt : Int

inductive Error where
  | noRate (jurisdiction category : String)
  | overflow
  | money (e : CoreError)
  | config (msg : String)

-- ==== layers

abbrev Layer := Jurisdiction × TaxRate

/-- Add a layer; of VAT and GST the narrower one replaces the broader. The
flag tells whether there is one. -/
def pushLayer (s : List Layer × Bool) (j : Jurisdiction) (r : TaxRate) : List Layer × Bool :=
  if r.isVatOrGst then
    let kept := if s.2 then s.1.filter (!·.2.isVatOrGst) else s.1
    (kept ++ [(j, r)], true)
  else (s.1 ++ [(j, r)], s.2)

/-- The calculator owns its table. -/
structure NativeCalculator where
  table : RateTable

namespace NativeCalculator

/-- Cross-border B2B inside the EU. -/
def isReverseCharge (line : TaxableLine) (ctx : TaxContext) : Bool :=
  match ctx.customerType, line.shipFrom with
  | .business taxId, some origin =>
    !taxId.isEmpty && line.shipTo.isEuMember && origin.isEuMember
      && origin.country ≠ line.shipTo.country
  | _, _ => false

def matchingExemption (line : TaxableLine) (ctx : TaxContext) : Option ExemptionCertificate :=
  ctx.exemptionCerts.find? (applies · line ctx)

/-- Clothing from 110 dollars on is taxed in New York like other goods. -/
def categoryOverrides (self : NativeCalculator) (line : TaxableLine) : List Layer :=
  let ny := Jurisdiction.ofRegion "US" "NY"
  if line.category = .clothing ∧ ny ∈ line.shipTo.ancestors
      ∧ 11000 ≤ line.amount.minorUnits.val then
    match self.table.lookup ny .tangibleGoods with
    | some rate => [(ny, rate)]
    | none => []
  else []

def layerAt (self : NativeCalculator) (line : TaxableLine)
    (s : List Layer × Bool) (j : Jurisdiction) : List Layer × Bool :=
  match (self.categoryOverrides line).find? (·.1 = j) with
  | some override => pushLayer s j override.2
  | none =>
    match self.table.lookup j line.category with
    | some rate => pushLayer s j rate
    | none => s

/-- The duty of the destination on a line from abroad. -/
def importDuty (self : NativeCalculator) (line : TaxableLine) : List Layer :=
  match line.shipFrom with
  | none => []
  | some origin =>
    if origin.country ≠ line.shipTo.country then
      let countryJ := Jurisdiction.ofCountry line.shipTo.country
      match (self.table.lookup countryJ line.category).filter
          (·.kind = .importDuty) with
      | some r => [(countryJ, r)]
      | none => []
    else []

/-- Every rate that is charged on the line. -/
def layers (self : NativeCalculator) (line : TaxableLine) : List Layer :=
  (line.shipTo.ancestors.foldl (self.layerAt line) ([], false)).1 ++ self.importDuty line

end NativeCalculator

-- ==== amounts

def decimalToMinorRoundHalfUp (d : ℚ) : Except Error I64 :=
  match I64.ofInt? (roundAway d) with
  | some n => .ok n
  | none => .error .overflow

/-- `Decimal::checked_div` -/
def checkedDiv (a b : ℚ) : Except Error ℚ :=
  if b = 0 then .error .overflow else .ok (a / b)

/-- The accumulators of a line: the layers charged, the sum of their rates
and their unrounded sum. -/
structure Tally where
  perJurisdiction : List JurisdictionTax
  effectiveRate : ℚ
  totalTaxDec : ℚ

/-- Charge one layer the tax that `tax` gives. -/
def charge (currency : Currency) (tax : TaxRate → ℚ) (s : Tally)
    (layer : Layer) : Except Error Tally := do
  let layerMinor ← decimalToMinorRoundHalfUp (tax layer.2)
  .ok
    { perJurisdiction := s.perJurisdiction ++
        [⟨layer.1, layer.2.rate, Money.fromMinor layerMinor currency, layer.2.kind⟩]
      effectiveRate := s.effectiveRate + layer.2.rate
      totalTaxDec := s.totalTaxDec + tax layer.2 }

def isInclusive (layer : Layer) : Bool := layer.2.base = .inclusive

/-- The amount is gross: the tax of the inclusive layers is backed out of it
and shared among them, the other layers come on top of the net. -/
def chargeInclusive (layers : List Layer) (amount : Money) : Except Error (ℚ × Tally) := do
  let lineAmountDec : ℚ := amount.minorUnits.val
  let inclusiveRate := ((layers.filter isInclusive).map (·.2.rate)).sum
  let net ← checkedDiv lineAmountDec (1 + inclusiveRate)
  let inclusiveTax := lineAmountDec - net
  let share := fun r : TaxRate =>
    if inclusiveRate = 0 then 0 else inclusiveTax * (r.rate / inclusiveRate)
  let s ← (layers.filter isInclusive).foldlM (charge amount.currency share)
    ⟨[], 0, 0⟩
  let s ← (layers.filter (!isInclusive ·)).foldlM
    (charge amount.currency fun r => net * r.rate) s
  .ok (net, s)

/-- The layers on top of an amount without tax. -/
def chargeExclusive (layers : List Layer) (amount : Money) : Except Error (ℚ × Tally) := do
  let lineAmountDec : ℚ := amount.minorUnits.val
  let s ← layers.foldlM
    (charge amount.currency fun r => lineAmountDec * r.rate) ⟨[], 0, 0⟩
  .ok (lineAmountDec, s)

def chargeLayers (layers : List Layer) (amount : Money) : Except Error (ℚ × Tally) :=
  if layers.any isInclusive then chargeInclusive layers amount
  else chargeExclusive layers amount

def zeroLine (lineId : String) (amount : Money) (reason : Option String) : LineTaxBreakdown :=
  ⟨lineId, amount, Money.fromMinor 0 amount.currency, 0, [], reason⟩

namespace NativeCalculator

def taxLine (self : NativeCalculator) (line : TaxableLine) : Except Error LineTaxBreakdown := do
  let layers := self.layers line
  refuse (layers = []) (.noRate line.shipTo.toText line.category.tag)
  let split ← chargeLayers layers line.amount
  let totalTaxMinor ← decimalToMinorRoundHalfUp split.2.totalTaxDec
  let netMinor ← decimalToMinorRoundHalfUp split.1
  .ok ⟨line.lineId, Money.fromMinor netMinor line.amount.currency,
    Money.fromMinor totalTaxMinor line.amount.currency,
    split.2.effectiveRate, split.2.perJurisdiction, none⟩

def calcLine (self : NativeCalculator) (line : TaxableLine)
    (ctx : TaxContext) : Except Error LineTaxBreakdown :=
  if ctx.nexusJurisdictions ≠ []
      ∧ ctx.nexusJurisdictions.any (line.shipTo.ancestors.contains ·) = false then
    .ok (zeroLine line.lineId line.amount (some "no nexus in destination jurisdiction"))
  else if isReverseCharge line ctx then
    .ok (zeroLine line.lineId line.amount (some "EU B2B reverse charge"))
  else
    match matchingExemption line ctx with
    | some cert =>
      .ok (zeroLine line.lineId line.amount (some ("exemption certificate " ++ cert.id)))
    | none => self.taxLine line

-- ==== calls

/-- The accumulators of a call. -/
structure Totals where
  totalTax : Money
  perLine : Table String LineTaxBreakdown
  byJurisdiction : Table (Jurisdiction × RateKind) JurisdictionTax

/-- Add a layer to what its authority is owed. A sum that overflows is
skipped. -/
def postLayer (byJurisdiction : Table (Jurisdiction × RateKind) JurisdictionTax)
    (layer : JurisdictionTax) :
    Table (Jurisdiction × RateKind) JurisdictionTax :=
  let key := (layer.jurisdiction, layer.kind)
  match byJurisdiction.lookup key with
  | none => byJurisdiction.insert key layer
  | some j =>
    match j.amount.checkedAdd layer.amount with
    | .ok sum => byJurisdiction.insert key { j with amount := sum }
    | .error _ => byJurisdiction

/-- One turn of the loop over the lines. -/
def addLine (self : NativeCalculator) (ctx : TaxContext)
    (currency : Currency) (s : Totals) (line : TaxableLine) :
    Except Error Totals := do
  refuse (line.amount.currency ≠ currency) (.money .currencyMismatch)
  let bd ← self.calcLine line ctx
  let totalTax ← (s.totalTax.checkedAdd bd.taxAmount).mapError .money
  .ok
    { totalTax
      perLine := s.perLine.insert bd.lineId bd
      byJurisdiction := bd.jurisdictionLayers.foldl postLayer s.byJurisdiction }

/-- The order of the roll-up's keys. -/
def keyLe (a b : (_ : Jurisdiction × RateKind) × JurisdictionTax) : Prop :=
  (compareLex (compareOn Prod.fst) (compareOn Prod.snd) a.1 b.1).isLE

instance : DecidableRel keyLe := fun _ _ =>
  inferInstanceAs (Decidable (Ordering.isLE _ = true))

/-- The tax on a batch of lines, at the time `now`. -/
def calculate (self : NativeCalculator) (lines : List TaxableLine)
    (ctx : TaxContext) (now : Int) : Except Error TaxResult :=
  match lines with
  | [] => .error (.config "calculate called with zero lines")
  | first :: _ => do
    let currency := first.amount.currency
    let s ← lines.foldlM (self.addLine ctx currency)
      ⟨Money.fromMinor 0 currency, ∅, ∅⟩
    .ok
      { totalTax := s.totalTax
        perLine := s.perLine
        jurisdictionsCharged :=
          (s.byJurisdiction.entries.insertionSort keyLe).map Sigma.snd
        calculator := "native"
        calculatedAt := now }

end NativeCalculator

end OpenStandards.OpTax

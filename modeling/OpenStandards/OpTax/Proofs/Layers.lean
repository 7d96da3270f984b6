/-
Which rates are charged on a line.

The loop over the chain of authorities keeps every rate that is found,
but of VAT and GST only the last (`layers_eq`). Import duty is charged
wherever it is on file, and at country level once more behind the loop. So
the layers are those of the compounding rules exactly where no duty is
found, apart from a country code not in capitals (`layers_documented_iff`).
-/
import OpenStandards.OpTax.Tax

namespace OpenStandards.OpTax

open Lib
open OpCore (Money Currency CoreError)

-- ==== what is charged

def zeroReason (line : TaxableLine) (ctx : TaxContext) : Option String :=
  if ctx.nexusJurisdictions ≠ []
      ∧ ctx.nexusJurisdictions.any (line.shipTo.ancestors.contains ·) = false then
    some "no nexus in destination jurisdiction"
  else if NativeCalculator.isReverseCharge line ctx then
    some "EU B2B reverse charge"
  else (NativeCalculator.matchingExemption line ctx).map fun cert =>
    "exemption certificate " ++ cert.id

def charged (self : NativeCalculator) (ctx : TaxContext) (line : TaxableLine) : List Layer :=
  if (zeroReason line ctx).isSome then [] else self.layers line

theorem calcLine_eq (self : NativeCalculator) (line : TaxableLine) (ctx : TaxContext) :
    self.calcLine line ctx
      = match zeroReason line ctx with
        | some reason => .ok (zeroLine line.lineId line.amount (some reason))
        | none => self.taxLine line := by
  unfold NativeCalculator.calcLine zeroReason
  split
  · rfl
  · split
    · rfl
    · cases NativeCalculator.matchingExemption line ctx with
      | none => rfl
      | some cert => rfl

-- ==== compounding rules

namespace NativeCalculator

variable (self : NativeCalculator) (line : TaxableLine)

def overrideAt (j : Jurisdiction) : Option TaxRate :=
  if line.category = .clothing ∧ j = Jurisdiction.ofRegion "US" "NY"
      ∧ 11000 ≤ line.amount.minorUnits.val then
    self.table.lookup j .tangibleGoods
  else none

/-- The rates that are found along the chain, broadest first. -/
def selected : List Layer :=
  line.shipTo.ancestors.filterMap fun j =>
    ((self.overrideAt line j).or (self.table.lookup j line.category)).map (j, ·)

end NativeCalculator

def replaces (l : Layer) : Bool := l.2.isVatOrGst

/-- All layers, but of VAT and GST only the last. -/
def narrowest : List Layer → List Layer
  | [] => []
  | l :: layers =>
    if replaces l && layers.any replaces then narrowest layers
    else l :: narrowest layers

def crossesBorder (line : TaxableLine) : Bool :=
  line.shipFrom.any fun origin => origin.country ≠ line.shipTo.country

def Due (line : TaxableLine) (l : Layer) : Prop :=
  l.2.kind = .importDuty →
    l.1 = ⟨line.shipTo.country, none, none, none⟩ ∧ crossesBorder line = true

instance (line : TaxableLine) : DecidablePred (Due line) := fun _ =>
  inferInstanceAs (Decidable (_ → _))

/-- The layers of the compounding rules. -/
def documented (self : NativeCalculator) (line : TaxableLine) : List Layer :=
  (narrowest (self.selected line)).filter fun l => Due line l

-- ==== the loop

theorem pushLayer_eq (kept : List Layer) (l : Layer) :
    pushLayer (kept, kept.any replaces) l.1 l.2
      = if replaces l then (kept.filter (!replaces ·) ++ [l], true)
        else (kept ++ [l], kept.any replaces) := by
  have hkept : (if kept.any replaces then kept.filter (!replaces ·)
      else kept) = kept.filter (!replaces ·) := by
    cases hany : kept.any replaces with
    | true => rfl
    | false =>
      refine (List.filter_eq_self.2 fun l' hl' => ?_).symm
      rw [List.any_eq_false] at hany
      rw [Bool.eq_false_iff.2 (hany l' hl')]
      rfl
  unfold pushLayer
  rw [show l.2.isVatOrGst = replaces l from rfl]
  cases replaces l with
  | true => exact congrArg (fun kept => (kept ++ [l], true)) hkept
  | false => rfl

/-- What the loop keeps: of VAT and GST only what comes last. -/
theorem foldl_pushLayer (layers kept : List Layer) :
    (layers.foldl (fun s l => pushLayer s l.1 l.2) (kept, kept.any replaces)).1
      = (if layers.any replaces then kept.filter (!replaces ·) else kept)
        ++ narrowest layers := by
  induction layers generalizing kept with
  | nil => exact (List.append_nil _).symm
  | cons l layers ih =>
    rw [List.foldl_cons, pushLayer_eq, List.any_cons, narrowest]
    cases hl : replaces l with
    | true =>
      have hnext := ih (kept.filter (!replaces ·) ++ [l])
      have hany : (kept.filter (!replaces ·) ++ [l]).any replaces = true := by simp [hl]
      rw [hany] at hnext
      rw [if_pos rfl, hnext]
      cases layers.any replaces with
      | true => simp [hl]
      | false => simp
    | false =>
      have hnext := ih (kept ++ [l])
      have hany : (kept ++ [l]).any replaces = kept.any replaces := by
        simp [hl]
      rw [hany] at hnext
      rw [if_neg Bool.false_ne_true, hnext]
      cases layers.any replaces with
      | true => simp [hl]
      | false => simp

namespace NativeCalculator

variable {self : NativeCalculator} {line : TaxableLine}

/-- The rate that is found at an authority of the chain. -/
theorem find_overrides {j : Jurisdiction} (hj : j ∈ line.shipTo.ancestors) :
    ((self.categoryOverrides line).find? (·.1 = j)).map Prod.snd = self.overrideAt line j := by
  unfold categoryOverrides overrideAt
  dsimp only
  by_cases hny : j = Jurisdiction.ofRegion "US" "NY"
  · subst hny
    by_cases h : line.category = .clothing ∧ 11000 ≤ line.amount.minorUnits.val
    · rw [if_pos ⟨h.1, hj, h.2⟩, if_pos ⟨h.1, rfl, h.2⟩]
      cases self.table.lookup (Jurisdiction.ofRegion "US" "NY") .tangibleGoods with
      | none => rfl
      | some rate => simp
    · rw [if_neg fun h' => h ⟨h'.1, h'.2.2⟩, if_neg fun h' => h ⟨h'.1, h'.2.2⟩]
      rfl
  · have hnot : ¬ (line.category = .clothing
        ∧ j = Jurisdiction.ofRegion "US" "NY"
        ∧ 11000 ≤ line.amount.minorUnits.val) := fun h' => hny h'.2.1
    rw [if_neg hnot]
    split
    · split
      · simp [Ne.symm hny]
      · rfl
    · rfl

theorem layerAt_eq {j : Jurisdiction} (hj : j ∈ line.shipTo.ancestors) (s : List Layer × Bool) :
    self.layerAt line s j
      = match (self.overrideAt line j).or (self.table.lookup j line.category) with
        | some r => pushLayer s j r
        | none => s := by
  unfold layerAt
  rw [← find_overrides hj]
  cases (self.categoryOverrides line).find? (·.1 = j) with
  | some override => rfl
  | none => rfl

theorem layers_eq (self : NativeCalculator) (line : TaxableLine) :
    self.layers line = narrowest (self.selected line) ++ self.importDuty line := by
  have hloop : ∀ (js : List Jurisdiction) (s : List Layer × Bool),
      (∀ j ∈ js, j ∈ line.shipTo.ancestors) →
      js.foldl (self.layerAt line) s
        = (js.filterMap fun j => ((self.overrideAt line j).or
            (self.table.lookup j line.category)).map (j, ·)).foldl
          (fun s l => pushLayer s l.1 l.2) s := by
    intro js
    induction js with
    | nil => exact fun _ _ => rfl
    | cons j js ih =>
      intro s hjs
      rw [List.foldl_cons, layerAt_eq (hjs j List.mem_cons_self),
        ih _ fun j' hj' => hjs j' (List.mem_cons_of_mem _ hj'),
        List.filterMap_cons]
      cases (self.overrideAt line j).or (self.table.lookup j line.category) with
      | none => rfl
      | some r => rfl
  unfold layers
  rw [hloop _ _ fun j hj => hj]
  have hkept := foldl_pushLayer (self.selected line) []
  rw [List.filter_nil, ite_self, List.nil_append] at hkept
  exact congrArg (· ++ self.importDuty line) hkept

theorem importDuty_eq_nil_iff :
    self.importDuty line = [] ↔ (crossesBorder line = true → ∀ r,
      self.table.lookup (.ofCountry line.shipTo.country) line.category
        = some r → r.kind ≠ .importDuty) := by
  unfold importDuty crossesBorder
  cases line.shipFrom with
  | none => exact iff_of_true rfl nofun
  | some origin =>
    dsimp only
    by_cases hcross : origin.country ≠ line.shipTo.country
    · rw [if_pos hcross]
      cases self.table.lookup (.ofCountry line.shipTo.country) line.category with
      | none => exact iff_of_true rfl fun _ => nofun
      | some r =>
        by_cases hduty : r.kind = .importDuty
        · have hkept : (some r).filter (fun r => decide (r.kind = .importDuty)) = some r := by
            simp [hduty]
          rw [hkept]
          simp [hduty, hcross]
        · have hdropped : (some r).filter (fun r => decide (r.kind = .importDuty)) = none := by
            simp [hduty]
          rw [hdropped]
          simp [hduty]
    · rw [if_neg hcross]
      refine iff_of_true rfl fun h => absurd ?_ hcross
      exact of_decide_eq_true h

end NativeCalculator

-- ==== the result

variable {layers : List Layer} {self : NativeCalculator} {line : TaxableLine}

theorem mem_of_mem_narrowest {l : Layer} (h : l ∈ narrowest layers) : l ∈ layers := by
  induction layers with
  | nil => exact h
  | cons l' layers ih =>
    unfold narrowest at h
    split at h
    · exact List.mem_cons_of_mem _ (ih h)
    · rcases List.mem_cons.1 h with rfl | h
      · exact List.mem_cons_self ..
      · exact List.mem_cons_of_mem _ (ih h)

theorem mem_narrowest {l : Layer} (hl : replaces l = false) :
    l ∈ narrowest layers ↔ l ∈ layers := by
  induction layers with
  | nil => exact Iff.rfl
  | cons l' layers ih =>
    unfold narrowest
    split
    case isTrue hdrop =>
      rw [ih, List.mem_cons, or_iff_right]
      rintro rfl
      rw [hl] at hdrop
      cases hdrop
    case isFalse => rw [List.mem_cons, ih, List.mem_cons]

/-- No duty is found that is not due, and none on file for the country of a
line that crosses its border, where it would be charged again. -/
def NoStrayDuty (self : NativeCalculator) (line : TaxableLine) : Prop :=
  (∀ l ∈ self.selected line, Due line l)
    ∧ (crossesBorder line = true → ∀ r,
      self.table.lookup (.ofCountry line.shipTo.country) line.category
        = some r → r.kind ≠ .importDuty)

theorem due_narrowest :
    (∀ l ∈ narrowest (self.selected line), Due line l)
      ↔ ∀ l ∈ self.selected line, Due line l := by
  have hmem : ∀ l : Layer, l.2.kind = .importDuty →
      (l ∈ narrowest (self.selected line) ↔ l ∈ self.selected line) := by
    intro l hl
    apply mem_narrowest
    unfold replaces TaxRate.isVatOrGst
    rw [hl]
    rfl
  constructor
  · exact fun h l hl hduty => h l ((hmem l hduty).2 hl) hduty
  · exact fun h l hl hduty => h l ((hmem l hduty).1 hl) hduty

theorem layers_eq_documented (h : NoStrayDuty self line) :
    self.layers line = documented self line := by
  unfold documented
  rw [NativeCalculator.layers_eq,
    NativeCalculator.importDuty_eq_nil_iff.2 h.2, List.append_nil,
    List.filter_eq_self.2 fun l hl => decide_eq_true (due_narrowest.2 h.1 l hl)]

/-- Any other layer is one too many. -/
theorem noStrayDuty_of_length (h : (self.layers line).length = (documented self line).length) :
    NoStrayDuty self line := by
  have hle := List.length_filter_le (fun l => decide (Due line l))
    (narrowest (self.selected line))
  unfold documented at h
  rw [NativeCalculator.layers_eq, List.length_append] at h
  have hall := (List.length_filter_eq_length_iff (l := narrowest
    (self.selected line)) (p := fun l => decide (Due line l))).1 (by omega)
  have hnil := List.eq_nil_of_length_eq_zero (by omega : (self.importDuty line).length = 0)
  exact ⟨due_narrowest.1 fun l hl => of_decide_eq_true (hall l hl),
    NativeCalculator.importDuty_eq_nil_iff.1 hnil⟩

def Layer.terms (l : Layer) : Jurisdiction × ℚ × RateKind :=
  (l.1, l.2.rate, l.2.kind)

def JurisdictionTax.terms (t : JurisdictionTax) :
    Jurisdiction × ℚ × RateKind := (t.jurisdiction, t.rate, t.kind)

theorem terms_of_foldlM {currency : Currency} {tax : TaxRate → ℚ}
    {s s' : Tally} (h : layers.foldlM (charge currency tax) s = .ok s') :
    s'.perJurisdiction.map JurisdictionTax.terms
      = s.perJurisdiction.map JurisdictionTax.terms ++ layers.map Layer.terms := by
  induction layers generalizing s with
  | nil =>
    cases h
    exact (List.append_nil _).symm
  | cons l layers ih =>
    rw [List.foldlM_cons] at h
    obtain ⟨s₁, h₁, h⟩ := bind_eq_ok.1 h
    obtain ⟨n, -, h₁⟩ := bind_eq_ok.1 h₁
    cases h₁
    rw [ih h, List.map_append, List.append_assoc]
    rfl

theorem terms_of_chargeLayers {amount : Money} {netDec : ℚ} {s : Tally}
    (h : chargeLayers layers amount = .ok (netDec, s)) :
    (s.perJurisdiction.map JurisdictionTax.terms).Perm (layers.map Layer.terms) := by
  unfold chargeLayers at h
  split at h
  · obtain ⟨n, -, h⟩ := bind_eq_ok.1 h
    obtain ⟨s₁, h₁, h⟩ := bind_eq_ok.1 h
    obtain ⟨s₂, h₂, h⟩ := bind_eq_ok.1 h
    cases h
    rw [terms_of_foldlM h₂, terms_of_foldlM h₁, List.map_nil,
      List.nil_append, ← List.map_append]
    exact (List.filter_append_perm isInclusive layers).map _
  · obtain ⟨s₁, h₁, h⟩ := bind_eq_ok.1 h
    cases h
    rw [terms_of_foldlM h₁]
    exact List.Perm.refl _

/-- The layers of a line that is not zero-rated are those of the
compounding rules exactly if no duty strays. -/
theorem layers_documented_iff {self : NativeCalculator}
    {line : TaxableLine} {ctx : TaxContext} {bd : LineTaxBreakdown}
    (hzero : zeroReason line ctx = none) (h : self.calcLine line ctx = .ok bd) :
    (bd.jurisdictionLayers.map JurisdictionTax.terms).Perm
        ((documented self line).map Layer.terms)
      ↔ NoStrayDuty self line := by
  have hcharged : (bd.jurisdictionLayers.map JurisdictionTax.terms).Perm
      ((self.layers line).map Layer.terms) := by
    rw [calcLine_eq, hzero] at h
    dsimp only at h
    unfold NativeCalculator.taxLine at h
    obtain ⟨-, h⟩ := refuse_bind_eq_ok.1 h
    obtain ⟨split, hsplit, h⟩ := bind_eq_ok.1 h
    obtain ⟨total, -, h⟩ := bind_eq_ok.1 h
    obtain ⟨netMinor, -, h⟩ := bind_eq_ok.1 h
    cases h
    exact terms_of_chargeLayers hsplit
  constructor
  · intro hperm
    have hlength := (hcharged.symm.trans hperm).length_eq
    rw [List.length_map, List.length_map] at hlength
    exact noStrayDuty_of_length hlength
  · intro hduty
    rw [← layers_eq_documented hduty]
    exact hcharged

def consumer : TaxContext where
  transactionDate :=
    ⟨2026, 6, 15, Date.one_le_june, Date.june_le, by decide, by decide⟩
  customerType := .consumer
  exemptionCerts := []
  nexusJurisdictions := []

/-- A rate of 5 per cent on file for the United States. -/
def fivePercent (kind : RateKind) : NativeCalculator where
  table := RateTable.empty.withRate (.ofCountry "US") .tangibleGoods
    ⟨5 / 100, kind, .exclusive⟩

/-- A hundred dollars' worth shipped to the United States. -/
def parcel (origin : String) : TaxableLine :=
  ⟨"L1", Money.fromMinor 10000 .USD, .tangibleGoods, some (.ofCountry origin), .ofCountry "US"⟩

theorem sales_documented :
    ∃ bd, (fivePercent .sales).calcLine (parcel "US") consumer = .ok bd
      ∧ (bd.jurisdictionLayers.map JurisdictionTax.terms).Perm
        ((documented (fivePercent .sales) (parcel "US")).map Layer.terms) := by
  have hok : ((fivePercent .sales).calcLine (parcel "US") consumer).isOk
      = true := by decide +kernel
  obtain ⟨bd, hbd⟩ := isOk_iff.1 hok
  refine ⟨bd, hbd, (layers_documented_iff (by decide +kernel) hbd).2 ?_⟩
  exact ⟨by decide +kernel, fun h => absurd h (by decide +kernel)⟩

/-- An import duty is charged twice. -/
theorem importDuty_twice :
    ¬ ∀ (self : NativeCalculator) (line : TaxableLine) (ctx : TaxContext)
      (bd : LineTaxBreakdown), zeroReason line ctx = none →
      self.calcLine line ctx = .ok bd →
      (bd.jurisdictionLayers.map JurisdictionTax.terms).Perm
        ((documented self line).map Layer.terms) := by
  intro h
  have htwo : ((fivePercent .importDuty).calcLine (parcel "CN")
        consumer).toOption.map (·.jurisdictionLayers.length) = some 2 := by
    decide +kernel
  cases hbd : (fivePercent .importDuty).calcLine (parcel "CN") consumer with
  | error e =>
    rw [hbd] at htwo
    cases htwo
  | ok bd =>
    rw [hbd] at htwo
    have hlength := (h _ _ _ bd (by decide +kernel) hbd).length_eq
    rw [List.length_map, List.length_map,
      show bd.jurisdictionLayers.length = 2 from Option.some.inj htwo]
      at hlength
    revert hlength
    decide +kernel

end OpenStandards.OpTax

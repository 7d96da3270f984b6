/-
The ledger of connected accounts (op-connect `transfer.rs`).

An account has one balance, in the currency of its first credit. A transfer
computes the new balances of both sides from the ledger it was given, and
then writes them one after the other.

The minted id of an entry and the time it is posted at are arguments.
-/
import OpenStandards.Lib.Table
import OpenStandards.OpCore.Money
import OpenStandards.Lib.Run

namespace OpenStandards.OpConnect

open Lib

section
open OpCore (Currency Money)

structure AccountId where
  value : String
deriving DecidableEq

/-- The failure modes of op-connect that the modelled functions use. -/
inductive Error where
  | accountNotFound (id : String)
  | accountStateInvalid (reason : String)
  | onboardingStepInvalid (reason : String)
  | requirementMissing (name : String)
  | beneficialOwnerIncomplete (reason : String)
  | invalidSplit (reason : String)
  | currencyMismatch (text : String)
  | overflow
deriving DecidableEq

structure TransferId where
  value : String
deriving DecidableEq

structure LedgerEntry where
  id : TransferId
  source : AccountId
  destination : AccountId
  amount : Money
  postedAt : Int

structure Ledger where
  balances : Table AccountId Money
  entries : List LedgerEntry

namespace Ledger

def new : Ledger := { balances := ∅, entries := [] }

def creditOpening (ledger : Ledger) (acct : AccountId) (amount : Money) : Ledger :=
  match ledger.balances.lookup acct with
  | none =>
    { ledger with balances := ledger.balances.insert acct amount }
  | some m =>
    match m.checkedAdd amount with
    | .ok sum =>
      { ledger with balances := ledger.balances.insert acct sum }
    | .error _ => ledger

def balance (ledger : Ledger) (acct : AccountId) (currency : Currency) : Money :=
  match ledger.balances.lookup acct with
  | some m => if m.currency = currency then m else .zero currency
  | none => .zero currency

end Ledger

/-- The arguments of a transfer, with what it mints. -/
structure Call where
  source : AccountId
  destination : AccountId
  amount : Money
  id : TransferId
  postedAt : Int

def checkTransfer (call : Call) (ledger : Ledger) : Except Error (Money × Money) :=
  if call.amount.minorUnits.val < 0 then
    .error (.invalidSplit "transfer amount must be non-negative")
  else
    match ledger.balances.lookup call.source with
    | none => .error (.accountNotFound call.source.value)
    | some fromBalance =>
      if fromBalance.currency ≠ call.amount.currency then
        .error (.currencyMismatch ("source account currency "
          ++ fromBalance.currency.code ++ " != transfer currency "
          ++ call.amount.currency.code))
      else do
        let newFrom ← (fromBalance.checkedSub call.amount).mapError
          fun _ => .overflow
        if newFrom.minorUnits.val < 0 then
          .error (.invalidSplit ("insufficient balance in " ++ call.source.value))
        else
          let toBalance :=
            (ledger.balances.lookup call.destination).getD (.zero call.amount.currency)
          if toBalance.currency ≠ call.amount.currency then
            .error (.currencyMismatch ("destination account currency "
              ++ toBalance.currency.code ++ " != transfer currency "
              ++ call.amount.currency.code))
          else do
            let newTo ← (toBalance.checkedAdd call.amount).mapError
              fun _ => .overflow
            .ok (newFrom, newTo)

def transfer (call : Call) (ledger : Ledger) : Except Error TransferId × Ledger :=
  match checkTransfer call ledger with
  | .error e => (.error e, ledger)
  | .ok (newFrom, newTo) =>
    let entry : LedgerEntry :=
      { id := call.id, source := call.source,
        destination := call.destination, amount := call.amount,
        postedAt := call.postedAt }
    (.ok call.id,
      { balances := (ledger.balances.insert call.source newFrom).insert
          call.destination newTo
        entries := ledger.entries ++ [entry] })

end

/-
Onboarding of connected accounts (op-connect `kyb.rs`, `account.rs`,
`onboarding.rs`).

The list of what is required of an account is made once, from the business
structure that it is created with; submitted steps take names off it, and
whether the account is active is read off it. Ownership percentages are
exact numbers. What nothing here reads is left out; minted ids and times
are arguments.
-/

-- ==== kyb

/-- The legal structure of a business. -/
inductive BusinessStructure where
  | soleProprietor
  | singleMemberLlc
  | multiMemberLlc
  | privateCorporation
  | publicCorporation
  | partnership
  | nonprofit
  | governmentEntity
deriving DecidableEq

def BusinessStructure.requiresBeneficialOwners : BusinessStructure → Bool
  | .publicCorporation | .governmentEntity => false
  | _ => true

structure BusinessProfile where
  legalName : String
  structure_ : BusinessStructure

structure Person where
  legalName : String

structure BeneficialOwner where
  person : Person
  ownershipPct : Rat
  control : Bool
  isPep : Bool

def BeneficialOwner.meetsOwnershipThreshold (o : BeneficialOwner) : Bool :=
  o.ownershipPct ≥ 25

abbrev RequirementId := String

structure Requirements where
  currentlyDue : List RequirementId
  eventuallyDue : List RequirementId
  pastDue : List RequirementId
  disabledReason : Option String
  pendingVerification : List RequirementId

def Requirements.default : Requirements :=
  { currentlyDue := [], eventuallyDue := [], pastDue := [],
    disabledReason := none, pendingVerification := [] }

def Requirements.satisfy (req : Requirements) (name : RequirementId) : Requirements :=
  { req with currentlyDue := req.currentlyDue.filter (· ≠ name) }

def validateCdd (owners : List BeneficialOwner) : Except Error Unit :=
  if owners.isEmpty then
    .error (.beneficialOwnerIncomplete ("no beneficial owners declared; "
      ++ "FinCEN CDD requires at least one control-prong individual "
      ++ "(31 CFR § 1010.230(d)(2))"))
  else
    let totalOwnership :=
      ((owners.filter (·.meetsOwnershipThreshold)).map (·.ownershipPct)).sum
    if !owners.any (·.control) then
      .error (.beneficialOwnerIncomplete
        "missing control prong individual (31 CFR § 1010.230(d)(2))")
    else if owners.any (·.meetsOwnershipThreshold)
        && totalOwnership < 25 then
      .error (.beneficialOwnerIncomplete ("owners marked ≥25% sum to "
        ++ toString totalOwnership
        ++ "%; roster inconsistent under 31 CFR § 1010.230(d)(1)"))
    else .ok ()

def checkRoster (structure_ : BusinessStructure)
    (owners : List BeneficialOwner) : Except Error Unit :=
  if structure_.requiresBeneficialOwners then validateCdd owners else .ok ()

-- ==== accounts

inductive AccountType where
  | standard
  | express
  | custom

structure ConnectedAccount where
  id : AccountId
  type : AccountType
  business : BusinessProfile
  beneficialOwners : List BeneficialOwner
  requirements : Requirements
  created : Int
  lastUpdated : Int

def ConnectedAccount.new (id : AccountId) (type : AccountType)
    (business : BusinessProfile) (now : Int) : ConnectedAccount :=
  { id := id, type := type, business := business, beneficialOwners := [],
    requirements := .default, created := now, lastUpdated := now }

-- ==== steps

inductive OnboardingStep where
  | businessInfo
  | representativeInfo
  | beneficialOwners
  | bankAccount
  | tosAcceptance
  | externalAccountVerification
  | identityVerification
deriving DecidableEq

/-- `Debug` of a step. -/
def OnboardingStep.debug : OnboardingStep → String
  | .businessInfo => "BusinessInfo"
  | .representativeInfo => "RepresentativeInfo"
  | .beneficialOwners => "BeneficialOwners"
  | .bankAccount => "BankAccount"
  | .tosAcceptance => "TosAcceptance"
  | .externalAccountVerification => "ExternalAccountVerification"
  | .identityVerification => "IdentityVerification"

/-- All steps in the canonical order. -/
def OnboardingStep.ordered : List OnboardingStep :=
  [.businessInfo, .representativeInfo, .beneficialOwners, .bankAccount,
    .tosAcceptance, .externalAccountVerification, .identityVerification]

structure ExternalAccount where
  country : String
  currency : String
  routing : String
  accountNumber : String
  accountHolderName : String

structure TosAcceptance where
  ip : String
  userAgent : String
  acceptedAt : Int
  versionHash : String

/-- What is submitted with a step. -/
inductive StepPayload where
  | businessInfo (profile : BusinessProfile)
  | representativeInfo (owner : BeneficialOwner)
  | beneficialOwners (owners : List BeneficialOwner)
  | bankAccount (ext : ExternalAccount)
  | tosAcceptance (tos : TosAcceptance)
  | externalAccountVerification (amountsMinor : I64 × I64)
  | identityVerification (documents : List (String × String))

def StepPayload.step : StepPayload → OnboardingStep
  | .businessInfo _ => .businessInfo
  | .representativeInfo _ => .representativeInfo
  | .beneficialOwners _ => .beneficialOwners
  | .bankAccount _ => .bankAccount
  | .tosAcceptance _ => .tosAcceptance
  | .externalAccountVerification _ => .externalAccountVerification
  | .identityVerification _ => .identityVerification

structure StepResult where
  step : OnboardingStep
  requirements : Requirements
  accepted : Bool
  message : Option String

inductive OnboardingStatus where
  | created
  | inProgress
  | pendingVerification
  | active
  | disabled
deriving DecidableEq

structure OnboardingFlow where
  acctId : AccountId
  steps : List OnboardingStep
  currentStep : Nat
  status : OnboardingStatus

def OnboardingFlow.new (acctId : AccountId) : OnboardingFlow :=
  { acctId := acctId, steps := OnboardingStep.ordered, currentStep := 0,
    status := .created }

/-- What the requirements say of an account. -/
def Requirements.status (req : Requirements) : OnboardingStatus :=
  if !req.pastDue.isEmpty || req.disabledReason.isSome then .disabled
  else if req.currentlyDue.isEmpty && req.pendingVerification.isEmpty then
    .active
  else if !req.pendingVerification.isEmpty then .pendingVerification
  else .inProgress

def OnboardingFlow.advance (flow : OnboardingFlow) (step : OnboardingStep)
    (accepted : Bool) (req : Requirements) : OnboardingFlow :=
  { flow with
    currentStep :=
      if accepted then
        match flow.steps.findIdx? (· = step) with
        | some pos =>
          if pos ≥ flow.currentStep then pos + 1 else flow.currentStep
        | none => flow.currentStep
      else flow.currentStep
    status := req.status }

-- ==== provider

/-- The in-process provider. -/
structure NativeProvider where
  accounts : Table AccountId ConnectedAccount
  flows : Table AccountId OnboardingFlow
  bankAccounts : Table AccountId ExternalAccount
  tos : Table AccountId TosAcceptance
  expectedMicroDeposits : Table AccountId (I64 × I64)
  accountType : AccountType

namespace NativeProvider

def new (accountType : AccountType) : NativeProvider :=
  { accounts := ∅, flows := ∅, bankAccounts := ∅, tos := ∅,
    expectedMicroDeposits := ∅, accountType := accountType }

def armMicroDeposits (p : NativeProvider) (acct : AccountId)
    (amounts : I64 × I64) : NativeProvider :=
  { p with
    expectedMicroDeposits := p.expectedMicroDeposits.insert acct amounts }

def requirementsFor (structure_ : BusinessStructure) : Requirements :=
  { Requirements.default with
    currentlyDue :=
      ["business.legal_name", "business.tax_id", "representative.identity",
        "external_account", "tos_acceptance"]
        ++ if structure_.requiresBeneficialOwners then ["beneficial_owners"]
          else []
    eventuallyDue := ["identity.document.verification"] }

def createAccount (p : NativeProvider) (id : AccountId)
    (profile : BusinessProfile) (now : Int) : NativeProvider :=
  let account :=
    { ConnectedAccount.new id p.accountType profile now with
      requirements := requirementsFor profile.structure_ }
  { p with
    accounts := p.accounts.insert id account
    flows := p.flows.insert id (.new id) }

def withRepresentative (roster : List BeneficialOwner)
    (owner : BeneficialOwner) : List BeneficialOwner :=
  let rep := { owner with control := true }
  match roster.findIdx? (·.person.legalName = rep.person.legalName) with
  | some slot => roster.set slot rep
  | none => roster ++ [rep]

/-- A new roster, with the people of the old one that it does not name. -/
def mergeOwners (owners roster : List BeneficialOwner) : List BeneficialOwner :=
  roster.foldl
    (fun merged existing =>
      if merged.any (·.person.legalName = existing.person.legalName) then
        merged
      else merged ++ [existing])
    owners

/-- What a payload does to an account and to the tables beside it, and
whether it is accepted. -/
structure Applied where
  account : ConnectedAccount
  bankAccounts : Table AccountId ExternalAccount
  tos : Table AccountId TosAcceptance
  accepted : Bool
  message : Option String

def applyPayload (p : NativeProvider) (acct : AccountId)
    (account : ConnectedAccount) : StepPayload → Except Error Applied
  | .businessInfo profile =>
    .ok { account :=
            { account with
              business := profile
              requirements := (account.requirements.satisfy
                "business.legal_name").satisfy "business.tax_id" }
          bankAccounts := p.bankAccounts, tos := p.tos,
          accepted := true, message := none }
  | .representativeInfo owner =>
    .ok { account :=
            { account with
              beneficialOwners :=
                withRepresentative account.beneficialOwners owner
              requirements :=
                account.requirements.satisfy "representative.identity" }
          bankAccounts := p.bankAccounts, tos := p.tos,
          accepted := true, message := none }
  | .beneficialOwners owners => do
    checkRoster account.business.structure_ owners
    .ok { account :=
            { account with
              beneficialOwners :=
                mergeOwners owners account.beneficialOwners
              requirements :=
                account.requirements.satisfy "beneficial_owners" }
          bankAccounts := p.bankAccounts, tos := p.tos,
          accepted := true, message := none }
  | .bankAccount ext =>
    let req := account.requirements.satisfy "external_account"
    let due :=
      if req.currentlyDue.any (· = "external_account.verification") then
        req.currentlyDue
      else req.currentlyDue ++ ["external_account.verification"]
    .ok { account :=
            { account with requirements := { req with currentlyDue := due } }
          bankAccounts := p.bankAccounts.insert acct ext, tos := p.tos,
          accepted := true, message := none }
  | .tosAcceptance tos =>
    .ok { account :=
            { account with
              requirements :=
                account.requirements.satisfy "tos_acceptance" }
          bankAccounts := p.bankAccounts, tos := p.tos.insert acct tos,
          accepted := true, message := none }
  | .externalAccountVerification amountsMinor =>
    match p.expectedMicroDeposits.lookup acct with
    | some arr =>
      if arr = amountsMinor then
        .ok { account :=
                { account with
                  requirements := account.requirements.satisfy "external_account.verification" }
              bankAccounts := p.bankAccounts, tos := p.tos,
              accepted := true, message := none }
      else
        .ok { account := account, bankAccounts := p.bankAccounts,
              tos := p.tos, accepted := false,
              message := some ("micro-deposit amounts did not match " ++ "the values sent") }
    | none =>
      .ok { account := account, bankAccounts := p.bankAccounts,
            tos := p.tos, accepted := false,
            message := some ("no pending micro-deposits for this "
              ++ "account; submit BankAccount first") }
  | .identityVerification _ =>
    .ok { account :=
            { account with
              requirements :=
                { account.requirements with
                  eventuallyDue :=
                    account.requirements.eventuallyDue.filter
                      (· ≠ "identity.document.verification") } }
          bankAccounts := p.bankAccounts, tos := p.tos,
          accepted := true, message := none }

def submitStep (p : NativeProvider) (acct : AccountId)
    (step : OnboardingStep) (payload : StepPayload) (now : Int) :
    Except Error StepResult × NativeProvider :=
  if payload.step ≠ step then
    (.error (.onboardingStepInvalid ("payload variant ("
      ++ payload.step.debug ++ ") does not match step (" ++ step.debug
      ++ ")")), p)
  else
    match p.accounts.lookup acct with
    | none => (.error (.accountNotFound acct.value), p)
    | some account =>
      match p.applyPayload acct account payload with
      | .error e => (.error e, p)
      | .ok applied =>
        let account := { applied.account with lastUpdated := now }
        let flows :=
          match p.flows.lookup acct with
          | some flow =>
            p.flows.insert acct (flow.advance step applied.accepted account.requirements)
          | none => p.flows
        (.ok { step := step, requirements := account.requirements,
               accepted := applied.accepted,
               message := applied.message },
          { p with
            accounts := p.accounts.insert acct account
            flows := flows
            bankAccounts := applied.bankAccounts
            tos := applied.tos })

def status (p : NativeProvider) (acct : AccountId) : Except Error OnboardingStatus :=
  match p.flows.lookup acct with
  | some flow => .ok flow.status
  | none => .error (.accountNotFound acct.value)

end NativeProvider

/-- A call on the provider. -/
inductive Op where
  | create (id : AccountId) (profile : BusinessProfile) (now : Int)
  | arm (acct : AccountId) (amounts : I64 × I64)
  | submit (acct : AccountId) (step : OnboardingStep)
      (payload : StepPayload) (now : Int)

namespace NativeProvider

def apply (p : NativeProvider) : Op → NativeProvider
  | .create id profile now => p.createAccount id profile now
  | .arm acct amounts => p.armMicroDeposits acct amounts
  | .submit acct step payload now => (p.submitStep acct step payload now).2

def after (accountType : AccountType) (ops : List Op) : NativeProvider :=
  run apply (new accountType) ops

end NativeProvider

end OpenStandards.OpConnect

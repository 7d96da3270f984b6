/-
What an active account has behind it.

A name leaves the list of what is due only by an accepted submission of
its step (`due_applied`). The other promises hold only of careful runs: the
bank account that is verified may be newer than what was armed; the list is
not made anew when the structure of the business changes, and a roster that
was taken unchecked stays; and the cursor goes past an accepted step, over
all steps before it. In a run of careful calls an active account is complete
(`active_complete`).
-/
import Mathlib.Tactic.Linarith
import OpenStandards.Lib.Fallible
import OpenStandards.OpConnect.Onboarding

namespace OpenStandards.OpConnect

open Lib

-- ==== rosters

variable {owners : List BeneficialOwner}

theorem le_sum_of_threshold (h : owners.any (·.meetsOwnershipThreshold) = true) :
    25 ≤ ((owners.filter (·.meetsOwnershipThreshold)).map (·.ownershipPct)).sum := by
  have hall : ∀ os : List BeneficialOwner,
      0 ≤ ((os.filter (·.meetsOwnershipThreshold)).map (·.ownershipPct)).sum := by
    intro os
    apply List.sum_nonneg
    intro x hx
    obtain ⟨o, ho, rfl⟩ := List.mem_map.1 hx
    have hge := (List.mem_filter.1 ho).2
    unfold BeneficialOwner.meetsOwnershipThreshold at hge
    have h25 : (25 : Rat) ≤ o.ownershipPct := of_decide_eq_true hge
    linarith
  induction owners with
  | nil => cases h
  | cons o owners ih =>
    have hrest := hall owners
    rw [List.any_cons, Bool.or_eq_true] at h
    by_cases ho : o.meetsOwnershipThreshold = true
    · rw [List.filter_cons_of_pos ho, List.map_cons, List.sum_cons]
      have h25 : (25 : Rat) ≤ o.ownershipPct := of_decide_eq_true ho
      linarith
    · rw [List.filter_cons_of_neg ho]
      exact ih (h.resolve_left ho)

/-- A roster passes when somebody on it controls: owners over the threshold
are never inconsistent. -/
theorem validateCdd_iff : validateCdd owners = .ok () ↔ ∃ o ∈ owners, o.control = true := by
  have hconsistent : ¬ (owners.any (·.meetsOwnershipThreshold)
      && decide (((owners.filter (·.meetsOwnershipThreshold)).map
        (·.ownershipPct)).sum < 25)) = true := by
    rw [Bool.and_eq_true, decide_eq_true_eq]
    rintro ⟨hany, hlt⟩
    exact absurd (le_sum_of_threshold hany) (not_le.2 hlt)
  unfold validateCdd
  split
  case isTrue hempty =>
    rw [List.isEmpty_iff.1 hempty]
    constructor
    · exact nofun
    · rintro ⟨o, ho, -⟩
      cases ho
  case isFalse =>
    dsimp only
    rw [← List.any_eq_true]
    cases hany : owners.any (·.control) with
    | false => exact ⟨nofun, nofun⟩
    | true =>
      rw [if_neg (by decide), if_neg hconsistent]
      exact ⟨fun _ => rfl, fun _ => rfl⟩

theorem control_withRepresentative (roster : List BeneficialOwner) (owner : BeneficialOwner) :
    ∃ o ∈ NativeProvider.withRepresentative roster owner, o.control = true := by
  unfold NativeProvider.withRepresentative
  dsimp only
  split
  case h_1 slot hslot =>
    obtain ⟨hlt, -⟩ := List.findIdx?_eq_some_iff_getElem.1 hslot
    exact ⟨_, List.mem_set hlt _, rfl⟩
  case h_2 =>
    exact ⟨_, List.mem_append_right _ List.mem_cons_self, rfl⟩

/-- The people of a new roster stay on it. -/
theorem mem_mergeOwners {roster : List BeneficialOwner} {o : BeneficialOwner}
    (h : o ∈ owners) : o ∈ NativeProvider.mergeOwners owners roster := by
  unfold NativeProvider.mergeOwners
  induction roster generalizing owners with
  | nil => exact h
  | cons existing roster ih =>
    rw [List.foldl_cons]
    apply ih
    split
    · exact h
    · exact List.mem_append_left _ h

-- ==== submissions

namespace NativeProvider

variable {p : NativeProvider} {acct : AccountId} {account : ConnectedAccount}
  {step : OnboardingStep} {payload : StepPayload} {applied : Applied}
  {now : Int}

/-- Whether a payload is taken: a roster that has to be checked passes, and
amounts are those that were armed. -/
def takes (p : NativeProvider) (acct : AccountId)
    (account : ConnectedAccount) : StepPayload → Prop
  | .beneficialOwners owners =>
    checkRoster account.business.structure_ owners = .ok ()
  | .externalAccountVerification amounts =>
    p.expectedMicroDeposits.lookup acct = some amounts
  | _ => True

/-- What a submission does: it is refused and writes nothing, or it writes
what its payload does to the account, with the flow moved on. -/
theorem submitStep_cases (p : NativeProvider) (acct : AccountId)
    (step : OnboardingStep) (payload : StepPayload) (now : Int) :
    (∃ e, p.submitStep acct step payload now = (.error e, p))
      ∨ ∃ account applied, payload.step = step
        ∧ p.accounts.lookup acct = some account
        ∧ p.applyPayload acct account payload = .ok applied
        ∧ ∃ result, p.submitStep acct step payload now = (.ok result,
            { p with
              accounts := p.accounts.insert acct
                { applied.account with lastUpdated := now }
              flows :=
                match p.flows.lookup acct with
                | some flow =>
                  p.flows.insert acct (flow.advance step applied.accepted
                    applied.account.requirements)
                | none => p.flows
              bankAccounts := applied.bankAccounts
              tos := applied.tos })
          ∧ result.accepted = applied.accepted := by
  unfold submitStep
  split
  case isTrue => exact Or.inl ⟨_, rfl⟩
  case isFalse hstep =>
    split
    case h_1 => exact Or.inl ⟨_, rfl⟩
    case h_2 account haccount =>
      split
      case h_1 e _ => exact Or.inl ⟨e, rfl⟩
      case h_2 applied happlied =>
        exact Or.inr ⟨account, applied, not_not.1 hstep, haccount, happlied, _, rfl, rfl⟩

/-- What the amounts of a verification do: where they are those that were
armed, its name is taken off, and otherwise nothing. -/
theorem verification_cases {amounts : I64 × I64}
    (h : p.applyPayload acct account (.externalAccountVerification amounts) = .ok applied) :
    applied.bankAccounts = p.bankAccounts
      ∧ (p.expectedMicroDeposits.lookup acct = some amounts
          ∧ applied.accepted = true
          ∧ applied.account = { account with
              requirements := account.requirements.satisfy "external_account.verification" }
        ∨ p.expectedMicroDeposits.lookup acct ≠ some amounts
          ∧ applied.accepted = false ∧ applied.account = account) := by
  cases harr : p.expectedMicroDeposits.lookup acct with
  | none =>
    simp only [applyPayload, harr] at h
    cases h
    exact ⟨rfl, Or.inr ⟨nofun, rfl, rfl⟩⟩
  | some arr =>
    simp only [applyPayload, harr] at h
    split at h
    case isTrue heq =>
      cases h
      exact ⟨rfl, Or.inl ⟨congrArg some heq, rfl, rfl⟩⟩
    case isFalse hne =>
      cases h
      exact ⟨rfl, Or.inr ⟨fun hsome => hne (Option.some.inj hsome), rfl,
        rfl⟩⟩

theorem accepted_iff_takes (h : p.applyPayload acct account payload = .ok applied) :
    applied.accepted = true ↔ p.takes acct account payload := by
  cases payload with
  | beneficialOwners owners =>
    obtain ⟨u, hcheck, hrest⟩ := bind_eq_ok.1 h
    cases hrest
    exact ⟨fun _ => hcheck, fun _ => rfl⟩
  | externalAccountVerification amounts =>
    unfold takes
    rcases verification_cases h with
      ⟨-, ⟨harmed, htaken, -⟩ | ⟨harmed, htaken, -⟩⟩
    · exact ⟨fun _ => harmed, fun _ => htaken⟩
    · rw [htaken]
      exact ⟨nofun, fun hsome => absurd hsome harmed⟩
  | businessInfo _ | representativeInfo _ | bankAccount _ | tosAcceptance _
  | identityVerification _ =>
    cases h
    exact ⟨fun _ => trivial, fun _ => rfl⟩

/-- The names that only a step takes off. -/
def owedTo : RequirementId → OnboardingStep
  | "business.legal_name" | "business.tax_id" => .businessInfo
  | "representative.identity" => .representativeInfo
  | "beneficial_owners" => .beneficialOwners
  | "external_account" => .bankAccount
  | "tos_acceptance" => .tosAcceptance
  | _ => .externalAccountVerification

theorem mem_satisfy {req : Requirements} {name x : RequirementId} :
    x ∈ (req.satisfy name).currentlyDue ↔ x ∈ req.currentlyDue ∧ x ≠ name := by
  unfold Requirements.satisfy
  rw [List.mem_filter, decide_eq_true_eq]

theorem due_applied (h : p.applyPayload acct account payload = .ok applied)
    {name : RequirementId} (hdue : name ∈ account.requirements.currentlyDue)
    (hdone : name ∉ applied.account.requirements.currentlyDue) :
    payload.step = owedTo name ∧ applied.accepted = true := by
  cases payload with
  | businessInfo profile =>
    cases h
    rw [mem_satisfy, mem_satisfy] at hdone
    have hname : name = "business.legal_name" ∨ name = "business.tax_id" := by
      by_contra hne
      rw [not_or] at hne
      exact hdone ⟨⟨hdue, hne.1⟩, hne.2⟩
    rcases hname with rfl | rfl
    · exact ⟨rfl, rfl⟩
    · exact ⟨rfl, rfl⟩
  | representativeInfo owner =>
    cases h
    rw [mem_satisfy, not_and_not_right] at hdone
    rw [hdone hdue]
    exact ⟨rfl, rfl⟩
  | beneficialOwners owners =>
    obtain ⟨u, hcheck, hrest⟩ := bind_eq_ok.1 h
    cases hrest
    rw [mem_satisfy, not_and_not_right] at hdone
    rw [hdone hdue]
    exact ⟨rfl, rfl⟩
  | bankAccount ext =>
    cases h
    have hkept : name ∉ (account.requirements.satisfy "external_account").currentlyDue := by
      intro hmem
      apply hdone
      dsimp only
      split
      · exact hmem
      · exact List.mem_append_left _ hmem
    rw [mem_satisfy, not_and_not_right] at hkept
    rw [hkept hdue]
    exact ⟨rfl, rfl⟩
  | tosAcceptance tos =>
    cases h
    rw [mem_satisfy, not_and_not_right] at hdone
    rw [hdone hdue]
    exact ⟨rfl, rfl⟩
  | externalAccountVerification amounts =>
    rcases verification_cases h with
      ⟨-, ⟨-, htaken, haccount⟩ | ⟨-, -, haccount⟩⟩
    · rw [haccount, mem_satisfy, not_and_not_right] at hdone
      rw [hdone hdue]
      exact ⟨rfl, htaken⟩
    · rw [haccount] at hdone
      exact absurd hdue hdone
  | identityVerification documents =>
    cases h
    exact absurd hdue hdone

theorem bank_applied (h : p.applyPayload acct account payload = .ok applied) :
    (∃ ext, payload = .bankAccount ext
        ∧ applied.bankAccounts = p.bankAccounts.insert acct ext
        ∧ "external_account.verification" ∈ applied.account.requirements.currentlyDue)
      ∨ payload.step ≠ .bankAccount ∧ applied.bankAccounts = p.bankAccounts := by
  cases payload with
  | bankAccount ext =>
    cases h
    refine Or.inl ⟨ext, rfl, rfl, ?_⟩
    dsimp only
    split
    case isTrue hany =>
      obtain ⟨x, hx, heq⟩ := List.any_eq_true.1 hany
      rw [← of_decide_eq_true heq]
      exact hx
    case isFalse => exact List.mem_append_right _ List.mem_cons_self
  | beneficialOwners owners =>
    obtain ⟨u, -, hrest⟩ := bind_eq_ok.1 h
    cases hrest
    exact Or.inr ⟨nofun, rfl⟩
  | externalAccountVerification amounts =>
    exact Or.inr ⟨nofun, (verification_cases h).1⟩
  | businessInfo _ | representativeInfo _ | tosAcceptance _
  | identityVerification _ =>
    cases h
    exact Or.inr ⟨nofun, rfl⟩

/-- An account whose structure requires a roster and whose representative
is known has one that passes. -/
def Covered (account : ConnectedAccount) : Prop :=
  account.business.structure_.requiresBeneficialOwners = true →
    "representative.identity" ∉ account.requirements.currentlyDue →
      ∃ o ∈ account.beneficialOwners, o.control = true

/-- A structure that requires a roster is taken on only with a roster that
passes, or before the representative is known. -/
def KeepsCover (account : ConnectedAccount) : StepPayload → Prop
  | .businessInfo profile =>
    profile.structure_.requiresBeneficialOwners = true →
      validateCdd account.beneficialOwners = .ok ()
        ∨ "representative.identity" ∈ account.requirements.currentlyDue
  | _ => True

/-- It stays so. -/
theorem covered_applied (h : p.applyPayload acct account payload = .ok applied)
    (hkeeps : KeepsCover account payload) (hcovered : Covered account) :
    Covered applied.account := by
  intro hrequires hknown
  have hstays : payload.step ≠ .representativeInfo →
      "representative.identity" ∉ account.requirements.currentlyDue := by
    intro hstep hdue
    exact hstep (due_applied h hdue hknown).1
  cases payload with
  | businessInfo profile =>
    cases h
    rcases hkeeps hrequires with hvalid | hdue
    · exact validateCdd_iff.1 hvalid
    · exact absurd hdue (hstays nofun)
  | representativeInfo owner =>
    cases h
    exact control_withRepresentative _ _
  | beneficialOwners owners =>
    obtain ⟨u, hcheck, hrest⟩ := bind_eq_ok.1 h
    cases hrest
    unfold checkRoster at hcheck
    rw [if_pos hrequires] at hcheck
    obtain ⟨o, ho, hcontrol⟩ := validateCdd_iff.1 hcheck
    exact ⟨o, mem_mergeOwners ho, hcontrol⟩
  | externalAccountVerification amounts =>
    rcases verification_cases h with
      ⟨-, ⟨-, -, haccount⟩ | ⟨-, -, haccount⟩⟩
    · rw [haccount] at hrequires ⊢
      exact hcovered hrequires (hstays nofun)
    · rw [haccount] at hrequires ⊢
      exact hcovered hrequires (hstays nofun)
  | bankAccount _ | tosAcceptance _ | identityVerification _ =>
    cases h
    exact hcovered hrequires (hstays nofun)

end NativeProvider

-- ==== histories

open NativeProvider

def Op.putsBank (acct : AccountId) : Op → Bool
  | .submit a .bankAccount (.bankAccount _) _ => a = acct
  | _ => false

section Histories

variable (type : AccountType)

def Accepted (ops : List Op) (acct : AccountId) (step : OnboardingStep) : Prop :=
  ∃ before payload now rest result,
    ops = before ++ .submit acct step payload now :: rest
      ∧ ((after type before).submitStep acct step payload now).1 = .ok result
      ∧ result.accepted = true

def ArmedSince (ops : List Op) (acct : AccountId) : Prop :=
  ∃ before amounts rest, ops = before ++ .arm acct amounts :: rest
    ∧ ∀ op ∈ rest, op.putsBank acct = false

def OnFile (ops : List Op) (acct : AccountId) (ext : ExternalAccount) : Prop :=
  ∃ before now rest,
    ops = before ++ .submit acct .bankAccount (.bankAccount ext) now :: rest
      ∧ ∀ op ∈ rest, op.putsBank acct = false

/-- A bank account was submitted, then deposits armed, and no other bank
account was submitted after it. -/
def ArmedOn (ops : List Op) (acct : AccountId) (ext : ExternalAccount) : Prop :=
  ∃ before now between amounts rest,
    ops = before ++ .submit acct .bankAccount (.bankAccount ext) now
        :: (between ++ .arm acct amounts :: rest)
      ∧ ∀ op ∈ between ++ rest, op.putsBank acct = false

def Verified (ops : List Op) (acct : AccountId) (ext : ExternalAccount) : Prop :=
  ∃ before amounts now rest result,
    ops = before ++ .submit acct .externalAccountVerification
        (.externalAccountVerification amounts) now :: rest
      ∧ ArmedOn before acct ext
      ∧ (∀ op ∈ rest, op.putsBank acct = false)
      ∧ ((after type before).submitStep acct .externalAccountVerification
          (.externalAccountVerification amounts) now).1 = .ok result
      ∧ result.accepted = true

variable {type} {ops : List Op} {op : Op} {acct : AccountId}
  {step : OnboardingStep} {ext : ExternalAccount}

theorem accepted_snoc :
    Accepted type (ops ++ [op]) acct step
      ↔ Accepted type ops acct step ∨ ∃ payload now result,
        op = .submit acct step payload now
          ∧ ((after type ops).submitStep acct step payload now).1 = .ok result
          ∧ result.accepted = true := by
  constructor
  · rintro ⟨before, payload, now, rest, result, hsplit, hok, haccepted⟩
    rcases snoc_eq_split hsplit with ⟨rfl, rfl, -⟩ | ⟨rest', rfl, -⟩
    · exact Or.inr ⟨payload, now, result, rfl, hok, haccepted⟩
    · exact Or.inl ⟨before, payload, now, rest', result, rfl, hok, haccepted⟩
  · rintro (⟨before, payload, now, rest, result, rfl, hok, haccepted⟩
      | ⟨payload, now, result, rfl, hok, haccepted⟩)
    · exact ⟨before, payload, now, rest ++ [op], result, by simp, hok, haccepted⟩
    · exact ⟨ops, payload, now, [], result, rfl, hok, haccepted⟩

theorem OnFile.snoc (h : OnFile ops acct ext)
    (hquiet : op.putsBank acct = false) : OnFile (ops ++ [op]) acct ext := by
  obtain ⟨before, now, rest, rfl, hrest⟩ := h
  refine ⟨before, now, rest ++ [op], by simp, ?_⟩
  intro x hx
  rcases List.mem_append.1 hx with hx | hx
  · exact hrest x hx
  · rwa [List.mem_singleton.1 hx]

theorem Verified.snoc (h : Verified type ops acct ext) (hquiet : op.putsBank acct = false) :
    Verified type (ops ++ [op]) acct ext := by
  obtain ⟨before, amounts, now, rest, result, rfl, harmed, hrest, hok⟩ := h
  refine ⟨before, amounts, now, rest ++ [op], result, by simp, harmed, ?_, hok⟩
  intro x hx
  rcases List.mem_append.1 hx with hx | hx
  · exact hrest x hx
  · rwa [List.mem_singleton.1 hx]

theorem OnFile.armed (h : OnFile ops acct ext) (harmed : ArmedSince ops acct) :
    ArmedOn ops acct ext := by
  obtain ⟨before, now, rest, rfl, hrest⟩ := h
  obtain ⟨before', amounts, rest', hsplit, hrest'⟩ := harmed
  rcases List.append_eq_append_iff.1 hsplit with
    ⟨mid, -, htail⟩ | ⟨mid, -, htail⟩
  · cases mid with
    | nil => cases htail
    | cons x mid =>
      obtain ⟨-, rfl⟩ := List.cons.inj htail
      refine ⟨before, now, mid, amounts, rest', rfl, ?_⟩
      intro op hop
      apply hrest
      rcases List.mem_append.1 hop with hop | hop
      · exact List.mem_append_left _ hop
      · exact List.mem_append_right _ (List.mem_cons_of_mem _ hop)
  · cases mid with
    | nil => cases htail
    | cons x mid =>
      obtain ⟨-, rfl⟩ := List.cons.inj htail
      have hbank := hrest' _ (List.mem_append_right mid List.mem_cons_self)
      exact absurd hbank (by simp [Op.putsBank])

end Histories

-- ==== careful runs

section Runs

variable (type : AccountType)

/-- What a call is careful of. The id it mints is fresh; a step that is
taken is one that the cursor has reached; a verification that is taken
compares with amounts armed since the bank account was put on file; and a
structure that requires a roster finds one that passes, or is taken on
before the representative is known. -/
structure Careful (done : List Op) (op : Op) : Prop where
  fresh : ∀ id profile now, op = .create id profile now →
    (after type done).accounts.lookup id = none
  inOrder : ∀ acct step payload now account flow,
    op = .submit acct step payload now → payload.step = step →
    (after type done).accounts.lookup acct = some account →
    (after type done).flows.lookup acct = some flow →
    (after type done).takes acct account payload →
    ∃ i ≤ flow.currentStep, OnboardingStep.ordered[i]? = some step
  armed : ∀ acct amounts now ext,
    op = .submit acct .externalAccountVerification (.externalAccountVerification amounts) now →
    (after type done).bankAccounts.lookup acct = some ext →
    (after type done).expectedMicroDeposits.lookup acct = some amounts →
    ArmedSince done acct
  covered : ∀ acct step payload now account,
    op = .submit acct step payload now → payload.step = step →
    (after type done).accounts.lookup acct = some account →
    KeepsCover account payload

/-- What the history of an account says of its entries. -/
structure InvAt (done : List Op) (acct : AccountId)
    (account? : Option ConnectedAccount) (flow? : Option OnboardingFlow)
    (bank? : Option ExternalAccount) : Prop where
  flows : account?.isSome = flow?.isSome
  steps : ∀ flow, flow? = some flow → flow.steps = OnboardingStep.ordered
  settled : ∀ account flow, account? = some account → flow? = some flow →
    flow.status = .active → account.requirements.currentlyDue = []
  owed : ∀ account, account? = some account →
    ∀ name ∈ ["business.legal_name", "representative.identity",
      "external_account", "tos_acceptance"],
    name ∉ account.requirements.currentlyDue → Accepted type done acct (owedTo name)
  filed : ∀ account, account? = some account →
    "external_account" ∉ account.requirements.currentlyDue → bank?.isSome = true
  onFile : ∀ ext, bank? = some ext → account?.isSome = true ∧ OnFile done acct ext
  verified : ∀ account ext, account? = some account → bank? = some ext →
    "external_account.verification" ∉ account.requirements.currentlyDue →
      Verified type done acct ext
  covered : ∀ account, account? = some account → Covered account
  cursor : ∀ flow, flow? = some flow → ∀ (i : Nat) step,
    OnboardingStep.ordered[i]? = some step →
      (Accepted type done acct step ↔ i < flow.currentStep)
  unknown : account? = none → ∀ step, ¬ Accepted type done acct step

def Inv (done : List Op) : Prop :=
  ∀ acct, InvAt type done acct ((after type done).accounts.lookup acct)
    ((after type done).flows.lookup acct)
    ((after type done).bankAccounts.lookup acct)

variable {type} {done : List Op} {op : Op} {acct : AccountId}
  {account? : Option ConnectedAccount} {flow? : Option OnboardingFlow}
  {bank? : Option ExternalAccount}

theorem InvAt.frame (h : InvAt type done acct account? flow? bank?)
    (hnone : ∀ step, Accepted type (done ++ [op]) acct step → Accepted type done acct step)
    (hquiet : account?.isSome = true → op.putsBank acct = false) :
    InvAt type (done ++ [op]) acct account? flow? bank? := by
  have hkeep : ∀ {step}, Accepted type done acct step →
      Accepted type (done ++ [op]) acct step :=
    fun h => accepted_snoc.2 (Or.inl h)
  constructor
  case flows => exact h.flows
  case steps => exact h.steps
  case settled => exact h.settled
  case owed =>
    exact fun account ha name hname hdue =>
      hkeep (h.owed account ha name hname hdue)
  case filed => exact h.filed
  case onFile =>
    intro ext hext
    obtain ⟨hsome, hfile⟩ := h.onFile ext hext
    exact ⟨hsome, hfile.snoc (hquiet hsome)⟩
  case verified =>
    intro account ext ha hext hdue
    have hsome := (h.onFile ext hext).1
    exact (h.verified account ext ha hext hdue).snoc (hquiet hsome)
  case covered => exact h.covered
  case cursor =>
    intro flow hflow i step hstep
    rw [← h.cursor flow hflow i step hstep]
    exact ⟨hnone step, hkeep⟩
  case unknown => exact fun ha step hacc => h.unknown ha step (hnone step hacc)

theorem after_snoc : after type (done ++ [op]) = (after type done).apply op :=
  run_append ..

theorem mem_requirementsFor (structure_ : BusinessStructure) {name : RequirementId}
    (h : name ∈ ["business.legal_name", "representative.identity",
      "external_account", "tos_acceptance"]) :
    name ∈ (requirementsFor structure_).currentlyDue := by
  have hall : ∀ x ∈ ["business.legal_name", "representative.identity",
      "external_account", "tos_acceptance"],
      x ∈ ["business.legal_name", "business.tax_id",
        "representative.identity", "external_account",
        "tos_acceptance"] := by decide
  exact List.mem_append_left _ (hall name h)

variable {now : Int} {a : AccountId} {step : OnboardingStep}
    {payload : StepPayload}

/-- A new account begins a history. -/
theorem Inv.create (h : Inv type done) {id : AccountId} {profile : BusinessProfile}
    (hfresh : (after type done).accounts.lookup id = none) :
    Inv type (done ++ [.create id profile now]) := by
  intro acct
  have hnone : ∀ step, Accepted type (done ++ [.create id profile now]) acct
      step → Accepted type done acct step := by
    intro step hacc
    rcases accepted_snoc.1 hacc with hacc | ⟨_, _, _, hop, -⟩
    · exact hacc
    · cases hop
  rw [after_snoc]
  show InvAt type _ acct
    (((after type done).accounts.insert id _).lookup acct)
    (((after type done).flows.insert id _).lookup acct)
    ((after type done).bankAccounts.lookup acct)
  rw [Table.lookup_insert_eq, Table.lookup_insert_eq]
  split
  case isFalse => exact (h acct).frame hnone fun _ => rfl
  case isTrue hid =>
    subst hid
    have hbank : (after type done).bankAccounts.lookup acct = none := by
      rw [Option.eq_none_iff_forall_ne_some]
      intro ext hext
      have hsome := ((h acct).onFile ext hext).1
      rw [hfresh] at hsome
      cases hsome
    rw [hbank]
    constructor
    case flows => rfl
    case steps =>
      rintro flow ⟨⟩
      rfl
    case settled =>
      rintro account flow ⟨⟩ ⟨⟩ hactive
      cases hactive
    case owed =>
      rintro account ⟨⟩ name hname hdue
      exact absurd (mem_requirementsFor _ hname) hdue
    case filed =>
      rintro account ⟨⟩ hdue
      have hmem : "external_account" ∈ (requirementsFor profile.structure_).currentlyDue :=
        mem_requirementsFor _ (by decide)
      exact absurd hmem hdue
    case onFile => exact nofun
    case verified =>
      intro account ext _ hext
      cases hext
    case covered =>
      rintro account ⟨⟩ - hdue
      have hmem : "representative.identity"
          ∈ (requirementsFor profile.structure_).currentlyDue :=
        mem_requirementsFor _ (by decide)
      exact absurd hmem hdue
    case cursor =>
      rintro flow ⟨⟩ i step -
      refine ⟨fun hacc => ?_, fun hlt => absurd hlt (Nat.not_lt_zero i)⟩
      exact absurd (hnone step hacc) ((h acct).unknown hfresh step)
    case unknown => exact nofun

theorem Inv.arm (h : Inv type done) {amounts : I64 × I64} :
    Inv type (done ++ [.arm a amounts]) := by
  intro acct
  rw [after_snoc]
  refine (h acct).frame ?_ fun _ => rfl
  intro step hacc
  rcases accepted_snoc.1 hacc with hacc | ⟨_, _, _, hop, -⟩
  · exact hacc
  · cases hop

/-- The place of a step in the canonical order. -/
theorem findIdx_ordered {i : Nat} (h : OnboardingStep.ordered[i]? = some step) :
    OnboardingStep.ordered.findIdx? (· = step) = some i := by
  obtain ⟨hlt, hget⟩ := List.getElem?_eq_some_iff.1 h
  have hall : ∀ j : Fin 7, OnboardingStep.ordered.findIdx?
      (· = OnboardingStep.ordered.get j) = some j.val := by decide
  rw [← hget]
  exact hall ⟨i, hlt⟩

theorem Inv.refused (h : Inv type done) {e : Error}
    (hrefused : (after type done).submitStep a step payload now = (.error e, after type done)) :
    Inv type (done ++ [.submit a step payload now]) := by
  have hsame : (after type done).apply (.submit a step payload now) = after type done := by
    show ((after type done).submitStep a step payload now).2 = _
    rw [hrefused]
  intro acct
  rw [after_snoc, hsame]
  refine (h acct).frame ?_ ?_
  · intro step' hacc
    rcases accepted_snoc.1 hacc with hacc | ⟨_, _, result, hop, hok, -⟩
    · exact hacc
    · cases hop
      rw [hrefused] at hok
      cases hok
  · intro hsome
    obtain ⟨account, haccount⟩ := Option.isSome_iff_exists.1 hsome
    cases payload with
    | bankAccount ext =>
      unfold Op.putsBank
      split
      case h_1 hop =>
        cases hop
        apply decide_eq_false
        rintro rfl
        have hstep : ¬ (StepPayload.bankAccount ext).step ≠ .bankAccount := not_not.2 rfl
        unfold submitStep at hrefused
        rw [if_neg hstep, haccount] at hrefused
        cases hrefused
      case h_2 => rfl
    | businessInfo _ | representativeInfo _ | beneficialOwners _
    | tosAcceptance _ | externalAccountVerification _
    | identityVerification _ =>
      unfold Op.putsBank
      split
      case h_1 hop => cases hop
      case h_2 => rfl

theorem Inv.submitted (h : Inv type done) {account : ConnectedAccount}
    {applied : Applied} {result : StepResult}
    (hcareful : Careful type done (.submit a step payload now)) (hstep : payload.step = step)
    (haccount : (after type done).accounts.lookup a = some account)
    (happlied : (after type done).applyPayload a account payload = .ok applied)
    (hdone : ((after type done).submitStep a step payload now).1
      = .ok result) (haccepted : result.accepted = applied.accepted)
    {flow : OnboardingFlow} (hflow : (after type done).flows.lookup a = some flow) :
    InvAt type (done ++ [.submit a step payload now]) a
      (some { applied.account with lastUpdated := now })
      (some (flow.advance step applied.accepted applied.account.requirements))
      (applied.bankAccounts.lookup a) := by
  have hold := h a
  rw [haccount, hflow] at hold
  have hkeep : ∀ {step'}, Accepted type done a step' →
      Accepted type (done ++ [.submit a step payload now]) a step' :=
    fun h => accepted_snoc.2 (Or.inl h)
  have hnew : applied.accepted = true →
      Accepted type (done ++ [.submit a step payload now]) a step :=
    fun hacc => accepted_snoc.2 (Or.inr
      ⟨payload, now, result, rfl, hdone, haccepted.trans hacc⟩)
  have hiff : ∀ step',
      Accepted type (done ++ [.submit a step payload now]) a step'
        ↔ Accepted type done a step' ∨ applied.accepted = true ∧ step' = step := by
    intro step'
    rw [accepted_snoc]
    constructor
    · rintro (hacc | ⟨_, _, result', hop, hok, hacc⟩)
      · exact Or.inl hacc
      · cases hop
        rw [hdone] at hok
        cases hok
        exact Or.inr ⟨haccepted.symm.trans hacc, rfl⟩
    · rintro (hacc | ⟨hacc, rfl⟩)
      · exact Or.inl hacc
      · exact Or.inr ⟨payload, now, result, rfl, hdone, haccepted.trans hacc⟩
  have hquiet : payload.step ≠ .bankAccount →
      (Op.submit a step payload now).putsBank a = false := by
    intro hne
    unfold Op.putsBank
    split
    case h_1 hop =>
      cases hop
      exact absurd rfl hne
    case h_2 => rfl
  constructor
  case flows => rfl
  case steps =>
    rintro flow' ⟨⟩
    exact hold.steps flow rfl
  case settled =>
    rintro account' flow' ⟨⟩ ⟨⟩ hactive
    have hstatus : applied.account.requirements.status = .active := hactive
    unfold Requirements.status at hstatus
    split at hstatus
    case isTrue => cases hstatus
    case isFalse =>
      split at hstatus
      case isTrue hempty =>
        rw [Bool.and_eq_true, List.isEmpty_iff] at hempty
        exact hempty.1
      case isFalse =>
        split at hstatus
        · cases hstatus
        · cases hstatus
  case owed =>
    rintro account' ⟨⟩ name hname hdue
    by_cases hbefore : name ∈ account.requirements.currentlyDue
    · obtain ⟨hown, hacc⟩ := due_applied happlied hbefore hdue
      rw [← hown, hstep]
      exact hnew hacc
    · exact hkeep (hold.owed account rfl name hname hbefore)
  case filed =>
    rintro account' ⟨⟩ hdue
    rcases bank_applied happlied with ⟨ext, -, hbank, -⟩ | ⟨hne, hbank⟩
    · rw [hbank, AList.lookup_insert]
      rfl
    · rw [hbank]
      apply hold.filed account rfl
      intro hbefore
      exact hne (due_applied happlied hbefore hdue).1
  case onFile =>
    intro ext hext
    refine ⟨rfl, ?_⟩
    rcases bank_applied happlied with ⟨ext', rfl, hbank, -⟩ | ⟨hne, hbank⟩
    · rw [hbank, AList.lookup_insert] at hext
      cases hext
      cases hstep
      exact ⟨done, now, [], rfl,
        fun _ hop => absurd hop List.not_mem_nil⟩
    · rw [hbank] at hext
      exact (hold.onFile ext hext).2.snoc (hquiet hne)
  case verified =>
    rintro account' ext ⟨⟩ hext hdue
    rcases bank_applied happlied with ⟨ext', -, -, hmem⟩ | ⟨hne, hbank⟩
    · exact absurd hmem hdue
    · rw [hbank] at hext
      by_cases hbefore : "external_account.verification" ∈ account.requirements.currentlyDue
      · obtain ⟨hown, hacc⟩ := due_applied happlied hbefore hdue
        have heav : payload.step = .externalAccountVerification := hown
        cases payload with
        | externalAccountVerification amounts =>
          cases hstep
          have hexpected := (accepted_iff_takes happlied).1 hacc
          have harmed := hcareful.armed a amounts now ext rfl hext hexpected
          exact ⟨done, amounts, now, [], result, rfl,
            (hold.onFile ext hext).2.armed harmed,
            fun _ hop => absurd hop List.not_mem_nil, hdone,
            haccepted.trans hacc⟩
        | businessInfo _ | representativeInfo _ | beneficialOwners _
        | bankAccount _ | tosAcceptance _ | identityVerification _ =>
          cases heav
      · exact (hold.verified account ext rfl hext hbefore).snoc (hquiet hne)
  case covered =>
    rintro account' ⟨⟩
    exact covered_applied happlied
      (hcareful.covered a step payload now account rfl hstep haccount)
      (hold.covered account rfl)
  case cursor =>
    rintro flow' ⟨⟩ i step' hi
    rw [hiff, hold.cursor flow rfl i step' hi]
    unfold OnboardingFlow.advance
    dsimp only
    cases hacc : applied.accepted with
    | false =>
      rw [if_neg Bool.false_ne_true]
      simp
    | true =>
      obtain ⟨j, hle, hj⟩ := hcareful.inOrder a step payload now account
        flow rfl hstep haccount hflow
        ((accepted_iff_takes happlied).1 hacc)
      have hsame : step' = step ↔ i = j := by
        constructor
        · rintro rfl
          exact Option.some.inj ((findIdx_ordered hi).symm.trans (findIdx_ordered hj))
        · rintro rfl
          exact Option.some.inj (hi.symm.trans hj)
      rw [if_pos rfl, hold.steps flow rfl, findIdx_ordered hj, hsame]
      simp only [true_and]
      split
      · omega
      · omega
  case unknown => exact nofun

theorem Inv.submit (h : Inv type done)
    (hcareful : Careful type done (.submit a step payload now)) :
    Inv type (done ++ [.submit a step payload now]) := by
  rcases submitStep_cases (after type done) a step payload now with
    ⟨e, he⟩ | ⟨account, applied, hstep, haccount, happlied, result, hok, haccepted⟩
  · exact h.refused he
  · have hdone : ((after type done).submitStep a step payload now).1 = .ok result := by rw [hok]
    have hflow : ∃ flow, (after type done).flows.lookup a = some flow := by
      rw [← Option.isSome_iff_exists, ← (h a).flows, haccount]
      rfl
    obtain ⟨flow, hflow⟩ := hflow
    rw [hflow] at hok
    intro acct
    rw [after_snoc]
    show InvAt type _ acct
      (((after type done).submitStep a step payload now).2.accounts.lookup acct)
      (((after type done).submitStep a step payload now).2.flows.lookup acct)
      (((after type done).submitStep a step payload now).2.bankAccounts.lookup acct)
    rw [hok]
    dsimp only
    rw [Table.lookup_insert_eq, Table.lookup_insert_eq]
    split
    case isTrue hsame =>
      subst hsame
      exact h.submitted hcareful hstep haccount happlied hdone haccepted hflow
    case isFalse hne =>
      have hbank : applied.bankAccounts.lookup acct
          = (after type done).bankAccounts.lookup acct := by
        rcases bank_applied happlied with ⟨ext, -, hbank, -⟩ | ⟨-, hbank⟩
        · rw [hbank, Table.lookup_insert_eq, if_neg hne]
        · rw [hbank]
      rw [hbank]
      refine (h acct).frame ?_ fun _ => ?_
      · intro step' hacc
        rcases accepted_snoc.1 hacc with hacc | ⟨_, _, _, hop, -⟩
        · exact hacc
        · cases hop
          exact absurd rfl hne
      · unfold Op.putsBank
        split
        case h_1 hop =>
          cases hop
          exact decide_eq_false (Ne.symm hne)
        case h_2 => rfl

theorem inv_nil : Inv type [] := by
  have hnone : ∀ acct step, ¬ Accepted type [] acct step := by
    rintro acct step ⟨before, payload, now, rest, result, hsplit, -⟩
    exact absurd hsplit.symm (List.append_ne_nil_of_right_ne_nil _ (List.cons_ne_nil _ _))
  intro acct
  show InvAt type [] acct none none none
  constructor
  case flows => rfl
  case steps =>
    intro flow hflow
    cases hflow
  case settled =>
    intro account flow haccount
    cases haccount
  case owed =>
    intro account haccount
    cases haccount
  case filed =>
    intro account haccount
    cases haccount
  case onFile =>
    intro ext hext
    cases hext
  case verified =>
    intro account ext haccount
    cases haccount
  case covered =>
    intro account haccount
    cases haccount
  case cursor =>
    intro flow hflow
    cases hflow
  case unknown => exact fun _ => hnone acct

/-- A careful run keeps every history. -/
theorem inv_of_careful (h : ∀ before op rest, done = before ++ op :: rest →
    Careful type before op) : Inv type done := by
  induction done using List.reverseRecOn with
  | nil => exact inv_nil
  | append_singleton done op ih =>
    have hbefore : Inv type done := by
      apply ih
      rintro before op' rest rfl
      exact h before op' (rest ++ [op]) (by simp)
    have hcareful := h done op [] rfl
    cases op with
    | create id profile now =>
      exact hbefore.create (hcareful.fresh id profile now rfl)
    | arm a amounts => exact hbefore.arm
    | submit a step payload now => exact hbefore.submit hcareful

end Runs

-- ==== active accounts

/-- What holds of an account after some calls: where it is active, the
steps that every account owes have been accepted, the bank account on file
has been verified, with deposits armed in between, and the roster passes
where the structure requires one; and the cursor is at the first step that
has not been accepted. -/
structure Complete (type : AccountType) (ops : List Op) (acct : AccountId) : Prop where
  steps : (after type ops).status acct = .ok .active →
    ∀ step ∈ [OnboardingStep.businessInfo, .representativeInfo,
      .bankAccount, .tosAcceptance], Accepted type ops acct step
  verified : (after type ops).status acct = .ok .active →
    ∃ ext, (after type ops).bankAccounts.lookup acct = some ext ∧ Verified type ops acct ext
  roster : (after type ops).status acct = .ok .active →
    ∃ account, (after type ops).accounts.lookup acct = some account
      ∧ (account.business.structure_.requiresBeneficialOwners = true →
        validateCdd account.beneficialOwners = .ok ())
  cursor : ∀ flow, (after type ops).flows.lookup acct = some flow →
    (∀ (i : Nat) step, i < flow.currentStep → flow.steps[i]? = some step →
      Accepted type ops acct step)
    ∧ ∀ step, flow.steps[flow.currentStep]? = some step → ¬ Accepted type ops acct step

/-- In a careful run every account is complete at every moment; and in any
run a submission that returns an error changes nothing. -/
theorem active_complete (type : AccountType) (ops : List Op) :
    ((∀ before op rest, ops = before ++ op :: rest → Careful type before op) →
      ∀ before rest, ops = before ++ rest → ∀ acct, Complete type before acct)
      ∧ ∀ acct step payload now e,
        ((after type ops).submitStep acct step payload now).1 = .error e →
          ((after type ops).submitStep acct step payload now).2 = after type ops := by
  constructor
  · rintro hcareful before rest rfl acct
    have hinv : Inv type before := by
      apply inv_of_careful
      rintro before' op rest' rfl
      exact hcareful before' op (rest' ++ rest) (by simp)
    have hat := hinv acct
    have hactive : (after type before).status acct = .ok .active →
        ∃ account, (after type before).accounts.lookup acct = some account
          ∧ account.requirements.currentlyDue = [] := by
      unfold status
      intro h
      cases hflow : (after type before).flows.lookup acct with
      | none =>
        rw [hflow] at h
        cases h
      | some flow =>
        rw [hflow] at h
        have hsome := hat.flows
        rw [hflow] at hsome
        obtain ⟨account, haccount⟩ := Option.isSome_iff_exists.1 hsome
        exact ⟨account, haccount, hat.settled account flow haccount hflow (Except.ok.inj h)⟩
    constructor
    case steps =>
      intro h
      obtain ⟨account, haccount, hdue⟩ := hactive h
      have howed : ∀ name ∈ ["business.legal_name",
          "representative.identity", "external_account",
          "tos_acceptance"], Accepted type before acct (owedTo name) := by
        intro name hname
        apply hat.owed account haccount name hname
        rw [hdue]
        exact List.not_mem_nil
      have hinfo : Accepted type before acct .businessInfo :=
        howed "business.legal_name" (by decide)
      have hrep : Accepted type before acct .representativeInfo :=
        howed "representative.identity" (by decide)
      have hbank : Accepted type before acct .bankAccount :=
        howed "external_account" (by decide)
      have htos : Accepted type before acct .tosAcceptance :=
        howed "tos_acceptance" (by decide)
      simp only [List.forall_mem_cons]
      exact ⟨hinfo, hrep, hbank, htos, fun _ h => absurd h List.not_mem_nil⟩
    case verified =>
      intro h
      obtain ⟨account, haccount, hdue⟩ := hactive h
      have hnone : ∀ name, name ∉ account.requirements.currentlyDue := by
        rw [hdue]
        exact fun _ => List.not_mem_nil
      obtain ⟨ext, hext⟩ := Option.isSome_iff_exists.1 (hat.filed account haccount (hnone _))
      exact ⟨ext, hext, hat.verified account ext haccount hext (hnone _)⟩
    case roster =>
      intro h
      obtain ⟨account, haccount, hdue⟩ := hactive h
      refine ⟨account, haccount, fun hrequires => ?_⟩
      apply validateCdd_iff.2
      apply hat.covered account haccount hrequires
      rw [hdue]
      exact List.not_mem_nil
    case cursor =>
      intro flow hflow
      rw [hat.steps flow hflow]
      constructor
      · intro i step hlt hi
        exact (hat.cursor flow hflow i step hi).2 hlt
      · intro step hi hacc
        exact absurd ((hat.cursor flow hflow _ step hi).1 hacc) (Nat.lt_irrefl _)
  · intro acct step payload now e he
    rcases submitStep_cases (after type ops) acct step payload now with
      ⟨e', he'⟩ | ⟨_, _, -, -, -, result, hok, -⟩
    · rw [he']
    · rw [hok] at he
      cases he

-- ==== two runs

def jane (control : Bool) : BeneficialOwner :=
  { person := { legalName := "Jane Doe" }, ownershipPct := 100,
    control := control, isPep := false }

def janesBank : ExternalAccount :=
  { country := "US", currency := "USD", routing := "021000021",
    accountNumber := "000123456789", accountHolderName := "Jane Doe" }

def janesTos : TosAcceptance :=
  { ip := "192.0.2.1", userAgent := "test", acceptedAt := 4,
    versionHash := "h" }

def carefulRun : List Op :=
  [.create ⟨"acct_1"⟩ ⟨"Acme", .privateCorporation⟩ 0,
   .submit ⟨"acct_1"⟩ .businessInfo (.businessInfo ⟨"Acme Widgets", .privateCorporation⟩) 1,
   .submit ⟨"acct_1"⟩ .representativeInfo (.representativeInfo (jane true)) 2,
   .submit ⟨"acct_1"⟩ .beneficialOwners (.beneficialOwners [jane true]) 3,
   .submit ⟨"acct_1"⟩ .bankAccount (.bankAccount janesBank) 4,
   .submit ⟨"acct_1"⟩ .tosAcceptance (.tosAcceptance janesTos) 5,
   .arm ⟨"acct_1"⟩ (⟨32, by decide⟩, ⟨45, by decide⟩),
   .submit ⟨"acct_1"⟩ .externalAccountVerification
    (.externalAccountVerification (⟨32, by decide⟩, ⟨45, by decide⟩)) 6]

def CarefulFrom (type : AccountType) : List Op → List Op → Prop
  | _, [] => True
  | done, op :: ops =>
    Careful type done op ∧ CarefulFrom type (done ++ [op]) ops

theorem CarefulFrom.careful {type : AccountType} {done ops : List Op}
    (h : CarefulFrom type done ops) (before : List Op) (op : Op)
    (rest : List Op) (hsplit : ops = before ++ op :: rest) :
    Careful type (done ++ before) op := by
  induction before generalizing done ops with
  | nil =>
    subst hsplit
    rw [List.append_nil]
    exact h.1
  | cons first before ih =>
    subst hsplit
    rw [List.append_cons]
    exact ih h.2 rfl

/-- A submission of a step that the cursor has reached is careful, given
deposits for a verification, and a representative still to come for a new
structure. -/
theorem careful_submit {type : AccountType} {done : List Op}
    {a : AccountId} {step : OnboardingStep} {payload : StepPayload}
    {now : Int} (i : Nat) (hi : OnboardingStep.ordered[i]? = some step)
    (hcursor : (((after type done).flows.lookup a).all
      fun flow => decide (i ≤ flow.currentStep)) = true)
    (harmed : step = .externalAccountVerification → ArmedSince done a)
    (hcovered : step = .businessInfo →
      (((after type done).accounts.lookup a).all fun account =>
        account.requirements.currentlyDue.contains "representative.identity") = true) :
    Careful type done (.submit a step payload now) := by
  constructor
  case fresh =>
    intro id profile now hop
    cases hop
  case inOrder =>
    intro acct step' payload' now' account flow hop hstep haccount hflow
    cases hop
    rw [hflow, Option.all_some, decide_eq_true_eq] at hcursor
    exact fun _ => ⟨i, hcursor, hi⟩
  case armed =>
    intro acct amounts now' ext hop _ _
    cases hop
    exact harmed rfl
  case covered =>
    intro acct step' payload' now' account hop hstep haccount
    cases hop
    cases payload with
    | businessInfo profile =>
      have hdue := hcovered hstep.symm
      rw [haccount, Option.all_some, List.contains_iff_mem] at hdue
      exact fun _ => Or.inr hdue
    | representativeInfo _ | beneficialOwners _ | bankAccount _
    | tosAcceptance _ | externalAccountVerification _
    | identityVerification _ => trivial

/-- The careful run ends active, and complete. -/
theorem careful_active :
    (after .custom carefulRun).status ⟨"acct_1"⟩ = .ok .active
      ∧ Complete .custom carefulRun ⟨"acct_1"⟩ := by
  have hcareful : CarefulFrom .custom [] carefulRun := by
    refine ⟨?_, ?_, ?_, ?_, ?_, ?_, ?_, ?_, trivial⟩
    · constructor
      case fresh => exact fun _ _ _ _ => rfl
      case inOrder =>
        intro _ _ _ _ _ _ hop
        cases hop
      case armed =>
        intro _ _ _ _ hop
        cases hop
      case covered =>
        intro _ _ _ _ _ hop
        cases hop
    · exact careful_submit 0 rfl (by decide +kernel) nofun
        fun _ => by decide +kernel
    · exact careful_submit 1 rfl (by decide +kernel) nofun nofun
    · exact careful_submit 2 rfl (by decide +kernel) nofun nofun
    · exact careful_submit 3 rfl (by decide +kernel) nofun nofun
    · exact careful_submit 4 rfl (by decide +kernel) nofun nofun
    · constructor
      case fresh =>
        intro _ _ _ hop
        cases hop
      case inOrder =>
        intro _ _ _ _ _ _ hop
        cases hop
      case armed =>
        intro _ _ _ _ hop
        cases hop
      case covered =>
        intro _ _ _ _ _ hop
        cases hop
    · refine careful_submit 5 rfl (by decide +kernel) (fun _ => ?_) nofun
      exact ⟨carefulRun.take 6, _, [], rfl,
        fun _ hop => absurd hop List.not_mem_nil⟩
  refine ⟨by decide +kernel, ?_⟩
  exact (active_complete .custom carefulRun).1
    (fun before op rest hsplit => hcareful.careful before op rest hsplit)
    carefulRun [] (List.append_nil _).symm ⟨"acct_1"⟩

/-- A run that becomes active as a private corporation with a roster on
which nobody controls: it was taken while the corporation was public. -/
def exemptRun : List Op :=
  [.create ⟨"acct_1"⟩ ⟨"Acme", .publicCorporation⟩ 0,
   .submit ⟨"acct_1"⟩ .representativeInfo (.representativeInfo (jane true)) 1,
   .submit ⟨"acct_1"⟩ .beneficialOwners (.beneficialOwners [jane false]) 2,
   .submit ⟨"acct_1"⟩ .bankAccount (.bankAccount janesBank) 3,
   .submit ⟨"acct_1"⟩ .tosAcceptance (.tosAcceptance janesTos) 4,
   .arm ⟨"acct_1"⟩ (⟨32, by decide⟩, ⟨45, by decide⟩),
   .submit ⟨"acct_1"⟩ .externalAccountVerification
    (.externalAccountVerification (⟨32, by decide⟩, ⟨45, by decide⟩)) 5,
   .submit ⟨"acct_1"⟩ .businessInfo (.businessInfo ⟨"Acme Widgets", .privateCorporation⟩) 6]

/-- Somebody who is not careful has a private corporation active on whose
roster nobody controls. -/
theorem exempt_active :
    ¬ ∀ (type : AccountType) (ops : List Op),
      (∀ before id profile now rest,
        ops = before ++ .create id profile now :: rest →
          (after type before).accounts.lookup id = none) →
      ∀ acct, Complete type ops acct := by
  intro h
  have hfresh : ∀ before id profile now rest,
      exemptRun = before ++ .create id profile now :: rest →
        (after .custom before).accounts.lookup id = none := by
    intro before id profile now rest hsplit
    cases before with
    | nil => rfl
    | cons op before =>
      obtain ⟨-, htail⟩ := List.cons.inj hsplit
      have hmem : Op.create id profile now ∈ exemptRun.tail := by
        rw [show exemptRun.tail = _ from htail]
        exact List.mem_append_right _ List.mem_cons_self
      simp [exemptRun] at hmem
  have hactive : (after .custom exemptRun).status ⟨"acct_1"⟩ = .ok .active := by decide +kernel
  obtain ⟨account, haccount, hvalid⟩ :=
    (h .custom exemptRun hfresh ⟨"acct_1"⟩).roster hactive
  have hroster : ((after .custom exemptRun).accounts.lookup ⟨"acct_1"⟩).map
      (fun account => (account.business.structure_, account.beneficialOwners.any (·.control)))
      = some (.privateCorporation, false) := by decide +kernel
  rw [haccount, Option.map_some, Option.some.injEq, Prod.mk.injEq] at hroster
  obtain ⟨hstructure, hcontrol⟩ := hroster
  obtain ⟨o, ho, hyes⟩ := validateCdd_iff.1 (hvalid (by rw [hstructure]; rfl))
  rw [List.any_eq_false] at hcontrol
  exact hcontrol o ho hyes

end OpenStandards.OpConnect

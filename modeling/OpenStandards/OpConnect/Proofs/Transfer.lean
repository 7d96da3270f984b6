/-
What a run of transfers keeps.

A transfer that is accepted takes the amount from one balance and adds it
to another, and everything the run is to keep follows from that
(`transfer_cases`). Both new balances are computed before either is
written, so where the two accounts are one the amount is created
(`Doubles`). A run keeps all of it exactly when no call does that
(`transfers_conserve_iff`).
-/
import OpenStandards.Lib.Fallible
import OpenStandards.OpConnect.Onboarding

namespace OpenStandards.OpConnect

open Lib
open OpCore (Currency Money)

-- ==== balances

namespace Ledger

def held (ledger : Ledger) (acct : AccountId) (currency : Currency) : Int :=
  (ledger.balance acct currency).minorUnits.val

def unitsIn (currency : Currency) (m : Money) : Int :=
  if m.currency = currency then m.minorUnits.val else 0

def total (ledger : Ledger) (currency : Currency) : Int :=
  ((Table.values ledger.balances).map (unitsIn currency)).sum

theorem held_eq (ledger : Ledger) (acct : AccountId) (currency : Currency) :
    ledger.held acct currency = (ledger.balances.lookup acct).elim 0 (unitsIn currency) := by
  unfold held balance unitsIn
  cases ledger.balances.lookup acct with
  | none => rfl
  | some m =>
    dsimp only [Option.elim]
    split
    · rfl
    · rfl

end Ledger

open Ledger

def movement (source destination : AccountId) (amount : Money)
    (acct : AccountId) (currency : Currency) : Int :=
  (if acct = destination then unitsIn currency amount else 0)
    - (if acct = source then unitsIn currency amount else 0)

/-- A transfer from an account to itself of an amount that it holds, where
the balance has room for it once more. -/
def Doubles (ledger : Ledger) (call : Call) : Prop :=
  call.source = call.destination ∧ 0 < call.amount.minorUnits.val
    ∧ call.amount.minorUnits.val ≤ ledger.held call.source call.amount.currency
    ∧ InI64 (ledger.held call.source call.amount.currency + call.amount.minorUnits.val)

/-- What is written: the amount less on one side, the amount more on the
other, both from the ledger before. -/
theorem checkTransfer_eq_ok {call : Call} {ledger : Ledger} {newFrom newTo : Money}
    (h : checkTransfer call ledger = .ok (newFrom, newTo)) :
    ∃ fromBalance, ledger.balances.lookup call.source = some fromBalance
      ∧ fromBalance.currency = call.amount.currency
      ∧ ((ledger.balances.lookup call.destination).getD
          (.zero call.amount.currency)).currency = call.amount.currency
      ∧ 0 ≤ call.amount.minorUnits.val ∧ 0 ≤ newFrom.minorUnits.val
      ∧ fromBalance.checkedSub call.amount = .ok newFrom
      ∧ ((ledger.balances.lookup call.destination).getD
          (.zero call.amount.currency)).checkedAdd call.amount = .ok newTo := by
  unfold checkTransfer at h
  split at h
  case isTrue => cases h
  case isFalse hsign =>
  split at h
  case h_1 => cases h
  case h_2 fromBalance hfrom =>
  split at h
  case isTrue => cases h
  case isFalse hcurrency =>
  obtain ⟨newFrom', hsub, h⟩ := bind_eq_ok.1 h
  split at h
  case isTrue => cases h
  case isFalse hcovered =>
  dsimp only at h
  split at h
  case isTrue => cases h
  case isFalse hcurrency' =>
  obtain ⟨newTo', hadd, h⟩ := bind_eq_ok.1 h
  cases h
  exact ⟨fromBalance, hfrom, not_not.1 hcurrency, not_not.1 hcurrency',
    not_lt.1 hsign, not_lt.1 hcovered, mapError_eq_ok.1 hsub,
    mapError_eq_ok.1 hadd⟩

/-- A transfer is refused and writes nothing, or it writes what was checked
and appends its entry. -/
theorem transfer_cases (call : Call) (ledger : Ledger) :
    (∃ e, transfer call ledger = (.error e, ledger))
      ∨ ∃ newFrom newTo, checkTransfer call ledger = .ok (newFrom, newTo)
        ∧ transfer call ledger = (.ok call.id,
          { balances := (ledger.balances.insert call.source newFrom).insert
              call.destination newTo
            entries := ledger.entries ++
              [{ id := call.id, source := call.source,
                 destination := call.destination, amount := call.amount,
                 postedAt := call.postedAt }] }) := by
  unfold transfer
  cases h : checkTransfer call ledger with
  | error e => exact Or.inl ⟨e, rfl⟩
  | ok r =>
    obtain ⟨newFrom, newTo⟩ := r
    exact Or.inr ⟨newFrom, newTo, rfl, rfl⟩

-- ==== one step

variable {call : Call} {ledger after : Ledger} {id : TransferId}

/-- What a transfer between one account and itself adds. -/
def doubled (call : Call) (currency : Currency) : Int :=
  if call.source = call.destination then unitsIn currency call.amount else 0

theorem unitsIn_sub {a b r : Money} (h : a.checkedSub b = .ok r)
    (hcurrency : a.currency = b.currency) (currency : Currency) :
    unitsIn currency r = unitsIn currency a - unitsIn currency b := by
  obtain ⟨hr, hval⟩ := Money.checkedSub_eq_ok h
  unfold unitsIn
  rw [hr, hcurrency, hval]
  split
  · rfl
  · rfl

theorem unitsIn_add {a b r : Money} (h : a.checkedAdd b = .ok r)
    (hcurrency : a.currency = b.currency) (currency : Currency) :
    unitsIn currency r = unitsIn currency a + unitsIn currency b := by
  obtain ⟨hr, hval⟩ := Money.checkedAdd_eq_ok h
  unfold unitsIn
  rw [hr, hcurrency, hval]
  split
  · rfl
  · rfl

/-- An account that is missing holds nothing. -/
theorem held_getD (ledger : Ledger) (acct : AccountId) (currency currency' : Currency) :
    ledger.held acct currency
      = unitsIn currency ((ledger.balances.lookup acct).getD (.zero currency')) := by
  rw [held_eq]
  cases ledger.balances.lookup acct with
  | none =>
    dsimp only [Option.elim, Option.getD, unitsIn, Money.zero]
    split
    · rfl
    · rfl
  | some m => rfl

theorem total_transfer (h : transfer call ledger = (.ok id, after)) (currency : Currency) :
    after.total currency = ledger.total currency + doubled call currency := by
  rcases transfer_cases call ledger with ⟨e, he⟩ | ⟨newFrom, newTo, hok, hdone⟩
  · rw [he] at h
    cases h
  · rw [hdone] at h
    cases h
    obtain ⟨fromBalance, hfrom, hcur, hcur', -, -, hsub, hadd⟩ :=
      checkTransfer_eq_ok hok
    have hto := held_getD ledger call.destination currency call.amount.currency
    rw [held_eq] at hto
    unfold Ledger.total doubled
    dsimp only
    rw [Table.sum_values_insert, Table.sum_values_insert, Table.lookup_insert_eq,
      unitsIn_sub hsub hcur, unitsIn_add hadd hcur', hfrom, Option.elim_some]
    by_cases hsame : call.source = call.destination
    · rw [if_pos hsame.symm, if_pos hsame, ← hto, ← hsame, hfrom,
        Option.elim_some, Option.elim_some, unitsIn_sub hsub hcur]
      omega
    · rw [if_neg (Ne.symm hsame), if_neg hsame, hto]
      omega

theorem held_transfer (h : transfer call ledger = (.ok id, after))
    (acct : AccountId) (currency : Currency) :
    after.held acct currency
      = ledger.held acct currency
        + movement call.source call.destination call.amount acct currency
        + (if acct = call.destination then doubled call currency else 0) := by
  rcases transfer_cases call ledger with ⟨e, he⟩ | ⟨newFrom, newTo, hok, hdone⟩
  · rw [he] at h
    cases h
  · rw [hdone] at h
    cases h
    obtain ⟨fromBalance, hfrom, hcur, hcur', -, -, hsub, hadd⟩ :=
      checkTransfer_eq_ok hok
    have hto := held_getD ledger call.destination currency call.amount.currency
    rw [held_eq]
    dsimp only
    rw [Table.lookup_insert_eq, Table.lookup_insert_eq]
    unfold movement doubled
    by_cases hdst : acct = call.destination
    · rw [if_pos hdst, if_pos hdst, if_pos hdst, hdst, hto]
      dsimp only [Option.elim]
      rw [unitsIn_add hadd hcur']
      by_cases hsame : call.source = call.destination
      · rw [if_pos hsame, if_pos hsame.symm]
        omega
      · rw [if_neg hsame, if_neg (Ne.symm hsame)]
        omega
    · rw [if_neg hdst, if_neg hdst, if_neg hdst]
      by_cases hsrc : acct = call.source
      · rw [if_pos hsrc, if_pos hsrc, hsrc, held_eq, hfrom]
        dsimp only [Option.elim]
        rw [unitsIn_sub hsub hcur]
        omega
      · rw [if_neg hsrc, if_neg hsrc, held_eq]
        omega

/-- No balance falls below zero. -/
theorem held_nonneg {acct : AccountId} {currency : Currency} (h : 0 ≤ ledger.held acct currency) :
    0 ≤ (transfer call ledger).2.held acct currency := by
  rcases transfer_cases call ledger with ⟨e, he⟩ | ⟨newFrom, newTo, hok, hdone⟩
  · rw [he]
    exact h
  · obtain ⟨fromBalance, hfrom, hcur, -, hamount, hnew, hsub, -⟩ :=
      checkTransfer_eq_ok hok
    have hunits : 0 ≤ unitsIn currency call.amount := by
      unfold unitsIn
      split
      · exact hamount
      · exact Int.le_refl _
    have hleft : 0 ≤ unitsIn currency newFrom := by
      unfold unitsIn
      split
      · exact hnew
      · exact Int.le_refl _
    rw [unitsIn_sub hsub hcur] at hleft
    have hsource : ledger.held call.source currency = unitsIn currency fromBalance := by
      rw [held_eq, hfrom, Option.elim_some]
    rw [hdone]
    dsimp only
    rw [held_transfer hdone]
    unfold movement doubled
    split
    · split
      · split
        · omega
        · omega
      · split
        · omega
        · omega
    · split
      case isTrue hsrc =>
        rw [hsrc, hsource]
        omega
      case isFalse => omega

theorem Doubles.accepted (h : Doubles ledger call) :
    ∃ after, transfer call ledger = (.ok call.id, after) := by
  obtain ⟨hsame, hpos, hcovered, hroom⟩ := h
  have hfrom : ∃ m, ledger.balances.lookup call.source = some m
      ∧ m.currency = call.amount.currency
      ∧ m.minorUnits.val = ledger.held call.source call.amount.currency := by
    rw [held_eq] at hcovered ⊢
    cases hm : ledger.balances.lookup call.source with
    | none =>
      rw [hm, Option.elim_none] at hcovered
      omega
    | some m =>
      rw [hm, Option.elim_some] at hcovered
      rw [Option.elim_some]
      unfold unitsIn at hcovered ⊢
      by_cases hcur : m.currency = call.amount.currency
      · exact ⟨m, rfl, hcur, by rw [if_pos hcur]⟩
      · rw [if_neg hcur] at hcovered
        omega
  obtain ⟨m, hm, hcur, hval⟩ := hfrom
  rw [← hval] at hcovered hroom
  have hin : InI64 (m.minorUnits.val - call.amount.minorUnits.val) := by
    have hm := m.minorUnits.inRange
    unfold InI64 at hm ⊢
    omega
  have hless : m.minorUnits.checkedSub call.amount.minorUnits
      = some ⟨_, hin⟩ := I64.checkedSub_eq_some.2 rfl
  have hmore : m.minorUnits.checkedAdd call.amount.minorUnits
      = some ⟨_, hroom⟩ := I64.checkedAdd_eq_some.2 rfl
  have hsub : m.checkedSub call.amount
      = .ok { minorUnits := ⟨_, hin⟩, currency := m.currency } := by
    unfold Money.checkedSub
    rw [if_neg (not_not.2 hcur), hless]
  have hadd : m.checkedAdd call.amount
      = .ok { minorUnits := ⟨_, hroom⟩, currency := m.currency } := by
    unfold Money.checkedAdd
    rw [if_neg (not_not.2 hcur), hmore]
  have hleft : ¬ m.minorUnits.val - call.amount.minorUnits.val < 0 := by
    omega
  have hsign : ¬ call.amount.minorUnits.val < 0 := by omega
  have hcheck : checkTransfer call ledger
      = .ok ({ minorUnits := ⟨_, hin⟩, currency := m.currency },
          { minorUnits := ⟨_, hroom⟩, currency := m.currency }) := by
    unfold checkTransfer
    rw [if_neg hsign, hm]
    dsimp only
    rw [if_neg (not_not.2 hcur), hsub]
    show (if _ then _ else _) = _
    rw [if_neg hleft, ← hsame, hm]
    dsimp only [Option.getD]
    rw [if_neg (not_not.2 hcur), hadd]
    rfl
  unfold transfer
  rw [hcheck]
  exact ⟨_, rfl⟩

/-- An accepted transfer that adds to the totals is one of those. -/
theorem doubled_eq_zero (h : transfer call ledger = (.ok id, after))
    (hnot : ¬ Doubles ledger call) (currency : Currency) :
    doubled call currency = 0 := by
  rcases transfer_cases call ledger with ⟨e, he⟩ | ⟨newFrom, newTo, hok, hdone⟩
  · rw [he] at h
    cases h
  · obtain ⟨fromBalance, hfrom, hcur, hcur', hamount, hnew, hsub, hadd⟩ :=
      checkTransfer_eq_ok hok
    unfold doubled
    split
    case isFalse => rfl
    case isTrue hsame =>
      have hheld : ledger.held call.source call.amount.currency
          = fromBalance.minorUnits.val := by
        rw [held_eq, hfrom, Option.elim_some]
        unfold unitsIn
        rw [if_pos hcur]
      rw [← hsame, hfrom, Option.getD_some] at hadd
      have hsum := (Money.checkedAdd_eq_ok hadd).2
      have hdiff := (Money.checkedSub_eq_ok hsub).2
      have hzero : call.amount.minorUnits.val = 0 := by
        by_contra hne
        apply hnot
        refine ⟨hsame, by omega, by omega, ?_⟩
        rw [hheld, ← hsum]
        exact newTo.minorUnits.inRange
      unfold unitsIn
      rw [hzero]
      split
      · rfl
      · rfl

-- ==== runs

/-- What a call leaves: nothing else where it is refused, and otherwise the
totals, with one entry more; and in any case no new negative balance. -/
structure Kept (ledger : Ledger) (call : Call) : Prop where
  refused : ∀ e, (transfer call ledger).1 = .error e → (transfer call ledger).2 = ledger
  totals : ∀ id, (transfer call ledger).1 = .ok id → ∀ currency,
    (transfer call ledger).2.total currency = ledger.total currency
  logged : ∀ id, (transfer call ledger).1 = .ok id →
    (transfer call ledger).2.entries = ledger.entries ++
      [{ id := id, source := call.source, destination := call.destination,
         amount := call.amount, postedAt := call.postedAt }]
  signs : ∀ acct currency, 0 ≤ ledger.held acct currency →
    0 ≤ (transfer call ledger).2.held acct currency

/-- A call keeps what it is to keep exactly when it does not move an amount
from an account to itself. -/
theorem kept_iff : Kept ledger call ↔ ¬ Doubles ledger call := by
  constructor
  · intro h hdoubles
    obtain ⟨after, hafter⟩ := hdoubles.accepted
    have htotal := h.totals call.id (by rw [hafter]) call.amount.currency
    rw [hafter, total_transfer hafter] at htotal
    obtain ⟨hsame, hpos, -, -⟩ := hdoubles
    unfold doubled unitsIn at htotal
    rw [if_pos hsame, if_pos rfl] at htotal
    omega
  · intro hnot
    rcases transfer_cases call ledger with ⟨e, he⟩ | ⟨newFrom, newTo, -, hdone⟩
    · constructor
      case refused => exact fun _ _ => by rw [he]
      case totals => exact fun id h => by rw [he] at h; cases h
      case logged => exact fun id h => by rw [he] at h; cases h
      case signs => exact fun _ _ h => held_nonneg h
    · constructor
      case refused => exact fun e h => by rw [hdone] at h; cases h
      case totals =>
        intro id _ currency
        rw [hdone, total_transfer hdone, doubled_eq_zero hdone hnot]
        exact Int.add_zero _
      case logged =>
        intro id h
        rw [hdone] at h
        cases h
        rw [hdone]
      case signs => exact fun _ _ h => held_nonneg h

def post (ledger : Ledger) (call : Call) : Ledger := (transfer call ledger).2

def opened (credits : List (AccountId × Money)) : Ledger :=
  credits.foldl (fun ledger (acct, amount) => ledger.creditOpening acct amount) .new

/-- What an account holds after the opening credits and the entries of a
log. -/
def replay (credits : List (AccountId × Money)) (entries : List LedgerEntry)
    (acct : AccountId) (currency : Currency) : Int :=
  (opened credits).held acct currency
    + (entries.map fun e =>
        movement e.source e.destination e.amount acct currency).sum

/-- The log accounts for every balance. -/
def Replayed (credits : List (AccountId × Money)) (ledger : Ledger) : Prop :=
  ∀ acct currency, ledger.held acct currency = replay credits ledger.entries acct currency

theorem Replayed.post {credits : List (AccountId × Money)}
    (h : Replayed credits ledger) (hnot : ¬ Doubles ledger call) :
    Replayed credits (post ledger call) := by
  rcases transfer_cases call ledger with ⟨e, he⟩ | ⟨newFrom, newTo, -, hdone⟩
  · unfold OpConnect.post
    rw [he]
    exact h
  · intro acct currency
    have hzero := doubled_eq_zero hdone hnot currency
    unfold OpConnect.post
    rw [hdone, held_transfer hdone, h acct currency]
    unfold replay
    dsimp only
    rw [List.map_append, List.sum_append, hzero, ite_self]
    simp only [List.map_cons, List.map_nil, List.sum_cons, List.sum_nil]
    omega

theorem entries_opened (credits : List (AccountId × Money)) :
    (opened credits).entries = [] := by
  suffices hgen : ∀ ledger : Ledger, ledger.entries = [] →
      (credits.foldl (fun ledger (acct, amount) =>
        ledger.creditOpening acct amount) ledger).entries = [] from
    hgen .new rfl
  induction credits with
  | nil => exact fun _ h => h
  | cons credit credits ih =>
    intro ledger h
    rw [List.foldl_cons]
    apply ih
    dsimp only
    unfold creditOpening
    split
    · exact h
    · split
      · exact h
      · exact h

/-- Every call of a run keeps the totals, the signs and the log, or leaves
the ledger as it was, and the log accounts for every balance at every
moment, exactly when no call moves an amount from an account to itself. -/
theorem transfers_conserve_iff (credits : List (AccountId × Money)) (calls : List Call) :
    (Along post Kept (opened credits) calls
        ∧ ∀ before rest, calls = before ++ rest →
          Replayed credits (run post (opened credits) before))
      ↔ Along post (fun ledger call => ¬ Doubles ledger call) (opened credits) calls := by
  constructor
  · rintro ⟨hkept, -⟩
    exact hkept.mono_mem fun _ _ _ h => kept_iff.1 h
  · intro hnot
    refine ⟨hnot.mono_mem fun _ _ _ h => kept_iff.2 h, ?_⟩
    rintro before rest rfl
    refine run_invariant (fun _ _ h hnot => h.post hnot) ?_ (along_append.1 hnot).1
    intro acct currency
    unfold replay
    rw [entries_opened]
    exact (Int.add_zero _).symm

/-- A transfer of 40 from an account with 100 to itself. -/
theorem transfer_to_itself :
    ¬ ∀ (credits : List (AccountId × Money)) (calls : List Call),
      Along post Kept (opened credits) calls := by
  intro h
  have hkept := (h [(⟨"acct_a"⟩, ⟨⟨100, by decide⟩, .USD⟩)]
    [{ source := ⟨"acct_a"⟩, destination := ⟨"acct_a"⟩,
       amount := ⟨⟨40, by decide⟩, .USD⟩, id := ⟨"trsf_1"⟩,
       postedAt := 0 }]).1
  have htotal := hkept.totals ⟨"trsf_1"⟩ (by decide) .USD
  exact absurd htotal (by decide)

end OpenStandards.OpConnect

/-
The in-memory ledger store (op-ledger `store.rs`).

Every method takes the store's state and answers the result together
with the state it leaves behind. The mutex of the source makes each call
atomic, so a run is a sequence of calls.

`balance` walks the transaction table in an unspecified order, which
decides which partial sums the checked additions see: the order is an
argument, any permutation of the stored transactions.
-/
import OpenStandards.OpLedger.Types
import OpenStandards.Lib.Run
import Mathlib.Data.List.Sort

namespace OpenStandards.OpLedger

open Lib OpCore

-- ==== the state

/-- The state behind the store's mutex. `byExternalId` is the reverse
index for idempotency. -/
structure InMemoryLedgerStore where
  ledgers : Table LedgerId Ledger
  accounts : Table AccountId Account
  transactions : Table TransactionId Transaction
  byExternalId : Table String TransactionId

namespace InMemoryLedgerStore

def new : InMemoryLedgerStore :=
  { ledgers := ∅, accounts := ∅, transactions := ∅, byExternalId := ∅ }

-- ==== body comparison

/-- The sort key of `same_body`: account, direction, minor units. The
currency is not part of it. -/
def sortKeyLe (a b : Entry) : Prop :=
  let dir (e : Entry) : Nat := match e.direction with
    | .debit => 0
    | .credit => 1
  a.accountId.uuid.val < b.accountId.uuid.val
    ∨ (a.accountId.uuid.val = b.accountId.uuid.val
      ∧ (dir a < dir b ∨ (dir a = dir b ∧ a.amount.minorUnits.val ≤ b.amount.minorUnits.val)))

instance : DecidableRel sortKeyLe := fun _ _ =>
  inferInstanceAs (Decidable (_ ∨ (_ ∧ (_ ∨ (_ ∧ _)))))

def sameBody (a b : Transaction) : Bool :=
  if a.ledgerId ≠ b.ledgerId then false
  else if a.entries.length ≠ b.entries.length then false
  else a.entries.insertionSort sortKeyLe = b.entries.insertionSort sortKeyLe

-- ==== the methods

def createLedger (s : InMemoryLedgerStore) (ledger : Ledger) :
    Except Error LedgerId × InMemoryLedgerStore :=
  (.ok ledger.id, { s with ledgers := s.ledgers.insert ledger.id ledger })

def createAccount (s : InMemoryLedgerStore) (account : Account) :
    Except Error AccountId × InMemoryLedgerStore :=
  if (s.ledgers.lookup account.ledgerId).isNone then
    (.error (.ledgerNotFound account.ledgerId.toString), s)
  else
    (.ok account.id,
      { s with accounts := s.accounts.insert account.id account })

/-- The checks `post_transaction` makes on one entry: the account
exists, belongs to the transaction's ledger, and has the entry's
currency. -/
def validateEntry (s : InMemoryLedgerStore) (ledgerId : LedgerId)
    (entry : Entry) : Except Error Unit :=
  match s.accounts.lookup entry.accountId with
  | none => .error (.accountNotFound entry.accountId.toString)
  | some account =>
    if account.ledgerId ≠ ledgerId then
      .error (.crossLedgerEntry entry.accountId.toString
        account.ledgerId.toString ledgerId.toString)
    else if account.currency ≠ entry.amount.currency then
      .error (.currencyMismatch entry.amount.currency.code
        account.currency.code entry.accountId.toString)
    else .ok ()

def indexed (s : InMemoryLedgerStore) (externalId : Option String) : Option TransactionId :=
  externalId.bind fun ext => s.byExternalId.lookup ext

/-- The persist step of `post_transaction`. -/
def persist (s : InMemoryLedgerStore) (t : Transaction) : InMemoryLedgerStore :=
  { s with
    byExternalId := match t.externalId with
      | some ext => s.byExternalId.insert ext t.id
      | none => s.byExternalId
    transactions := s.transactions.insert t.id t }

/-- A new transaction, or the id of the one it repeats. -/
def postTransaction (s : InMemoryLedgerStore) (t : Transaction) :
    Except Error TransactionId × InMemoryLedgerStore :=
  -- 1. Ledger must exist.
  if (s.ledgers.lookup t.ledgerId).isNone then
    (.error (.ledgerNotFound t.ledgerId.toString), s)
  else
    -- 2. Idempotency by external_id.
    match s.indexed t.externalId with
    | some existingId =>
      match s.transactions.lookup existingId with
      | none => (.error (.transactionNotFound existingId.toString), s)
      | some existing =>
        if sameBody existing t then (.ok existingId, s)
        else (.error .idempotencyMismatch, s)
    | none =>
      -- 3. Validate every entry.
      match t.entries.forM (s.validateEntry t.ledgerId) with
      | .error e => (.error e, s)
      -- 4. Persist.
      | .ok () => (.ok t.id, s.persist t)

def findByExternalId (s : InMemoryLedgerStore) (externalId : String) : Option Transaction :=
  (s.byExternalId.lookup externalId).bind fun id => s.transactions.lookup id

/-- Apply a lifecycle method to a stored transaction in place. -/
def transition (method : Transaction → Except Error Transaction)
    (s : InMemoryLedgerStore) (id : TransactionId) :
    Except Error Unit × InMemoryLedgerStore :=
  match s.transactions.lookup id with
  | none => (.error (.transactionNotFound id.toString), s)
  | some t =>
    match method t with
    | .error e => (.error e, s)
    | .ok t' =>
      (.ok (), { s with transactions := s.transactions.insert id t' })

def markPosted (s : InMemoryLedgerStore) (id : TransactionId) :
    Except Error Unit × InMemoryLedgerStore :=
  transition Transaction.post s id

def markArchived (s : InMemoryLedgerStore) (id : TransactionId) :
    Except Error Unit × InMemoryLedgerStore :=
  transition Transaction.archive s id

-- ==== balances

/-- The four accumulators of `balance`. -/
structure Tally where
  postedDebits : I64
  postedCredits : I64
  pendingDebits : I64
  pendingCredits : I64

/-- Nothing tallied. -/
def Tally.zero : Tally :=
  { postedDebits := 0, postedCredits := 0, pendingDebits := 0
    pendingCredits := 0 }

/-- `checked_add(..).ok_or(Overflow)?` -/
def addOrOverflow (a b : I64) : Except Error I64 :=
  match a.checkedAdd b with
  | some r => .ok r
  | none => .error (.core .overflow)

/-- One entry of a transaction with the given status, seen by the tally
loop for one account. -/
def tallyStep (accountId : AccountId) (status : Status) (acc : Tally)
    (entry : Entry) : Except Error Tally :=
  if entry.accountId ≠ accountId then .ok acc
  else
    match status, entry.direction with
    | .posted, .debit => do
      let r ← addOrOverflow acc.postedDebits entry.amount.minorUnits
      return { acc with postedDebits := r }
    | .posted, .credit => do
      let r ← addOrOverflow acc.postedCredits entry.amount.minorUnits
      return { acc with postedCredits := r }
    | .pending, .debit => do
      let r ← addOrOverflow acc.pendingDebits entry.amount.minorUnits
      return { acc with pendingDebits := r }
    | .pending, .credit => do
      let r ← addOrOverflow acc.pendingCredits entry.amount.minorUnits
      return { acc with pendingCredits := r }
    | .archived, _ => .ok acc

def tallyAll (accountId : AccountId) (walk : List Transaction) : Except Error Tally :=
  walk.foldlM
    (fun acc t => t.entries.foldlM (tallyStep accountId t.status) acc)
    Tally.zero

/-- Debits less credits, or credits less debits, as the account's normal
balance says. -/
def signByNormal (normal : NormalBalance) (debits credits : I64) : Except Error I64 :=
  let result := match normal with
    | .debit => debits.checkedSub credits
    | .credit => credits.checkedSub debits
  match result with
  | some r => .ok r
  | none => .error (.core .overflow)

/-- The balance of an account, the transaction table being walked in the
order `walk`. -/
def balance (s : InMemoryLedgerStore) (walk : List Transaction)
    (accountId : AccountId) : Except Error Balance :=
  match s.accounts.lookup accountId with
  | none => .error (.accountNotFound accountId.toString)
  | some account => do
    let t ← tallyAll accountId walk
    let postedAmt ←
      signByNormal account.normalBalance t.postedDebits t.postedCredits
    let totalDebits ← addOrOverflow t.postedDebits t.pendingDebits
    let totalCredits ← addOrOverflow t.postedCredits t.pendingCredits
    let pendingAmt ←
      signByNormal account.normalBalance totalDebits totalCredits
    return { currency := account.currency
             posted := Money.fromMinor postedAmt account.currency
             pending := Money.fromMinor pendingAmt account.currency }

-- ==== runs

/-- A call that may change the store. -/
inductive Op where
  | createLedger (ledger : Ledger)
  | createAccount (account : Account)
  | postTransaction (transaction : Transaction)
  | markPosted (id : TransactionId)
  | markArchived (id : TransactionId)

/-- The state one call leaves behind. -/
def step (s : InMemoryLedgerStore) : Op → InMemoryLedgerStore
  | .createLedger l => (s.createLedger l).2
  | .createAccount a => (s.createAccount a).2
  | .postTransaction t => (s.postTransaction t).2
  | .markPosted id => (s.markPosted id).2
  | .markArchived id => (s.markArchived id).2

/-- The state after a sequence of calls. -/
abbrev run (s : InMemoryLedgerStore) (ops : List Op) : InMemoryLedgerStore :=
  Lib.run step s ops

-- ==== the fixture of the tests

namespace Setup

def ledger : Ledger := { id := ⟨⟨1⟩⟩, name := "test", description := none }

def cash : Account := .new ⟨⟨2⟩⟩ ledger.id "cash" .asset .USD

def revenue : Account := .new ⟨⟨3⟩⟩ ledger.id "revenue" .revenue .USD

/-- `setup()`: the fixture is created. -/
def calls : List Op :=
  [.createLedger ledger, .createAccount cash, .createAccount revenue]

def sale (amount : I64) : List Entry :=
  [.debit cash.id ⟨amount, .USD⟩, .credit revenue.id ⟨amount, .USD⟩]

/-- A sale as `new_posted` or `new_pending` constructs it. -/
def saleTransaction (id : Nat) (status : Status) (amount : I64) : Transaction :=
  { id := ⟨⟨id⟩⟩, ledgerId := ledger.id, status, externalId := none
    description := none, effectiveAtUnixSecs := 100, entries := sale amount
    metadata := [] }

end Setup

end InMemoryLedgerStore

end OpenStandards.OpLedger

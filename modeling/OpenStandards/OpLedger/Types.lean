/-
The ledger's data model (op-ledger `ledger.rs`, `account.rs`,
`entry.rs`, `transaction.rs`, `balance.rs`, `error.rs`).

The constructors of the source mint their id with `Uuid::new_v4`; here
the minted id is an argument. The fields of the source's structs are
public, so a `Transaction` of this model is any value of the type; `Built`
is the set of those that the constructors and builders produce.
-/
import OpenStandards.OpCore.Money
import OpenStandards.Lib.Table

namespace OpenStandards.OpLedger

open Lib OpCore

-- ==== ids

/-- A 128-bit identifier. -/
structure Uuid where
  val : Nat
deriving DecidableEq

/-- One lower-case hexadecimal digit. -/
def hexDigit (n : Nat) : Char := "0123456789abcdef".toList.getD n '0'

/-- `Display` of a UUID: 32 hexadecimal digits, hyphenated
8-4-4-4-12. -/
def Uuid.toString (u : Uuid) : String :=
  let digits := (List.range 32).map
    fun i => hexDigit (u.val / 16 ^ (31 - i) % 16)
  String.ofList (digits.take 8 ++ ['-'] ++ (digits.drop 8).take 4 ++ ['-']
    ++ (digits.drop 12).take 4 ++ ['-'] ++ (digits.drop 16).take 4 ++ ['-']
    ++ digits.drop 20)

structure LedgerId where
  uuid : Uuid
deriving DecidableEq

structure AccountId where
  uuid : Uuid
deriving DecidableEq

structure TransactionId where
  uuid : Uuid
deriving DecidableEq

def LedgerId.toString (id : LedgerId) : String := id.uuid.toString
def AccountId.toString (id : AccountId) : String := id.uuid.toString
def TransactionId.toString (id : TransactionId) : String := id.uuid.toString

-- ==== enumerations

/-- The lifecycle state of a transaction. -/
inductive Status where
  | pending
  | posted
  | archived
deriving DecidableEq

/-- No further state transitions are allowed. -/
def Status.isTerminal : Status → Bool
  | .posted => true
  | .archived => true
  | .pending => false

/-- The side of double entry an entry is on. -/
inductive Direction where
  | debit
  | credit
deriving DecidableEq

def Direction.opposite : Direction → Direction
  | .debit => .credit
  | .credit => .debit

/-- The side that increases an account. -/
inductive NormalBalance where
  | debit
  | credit
deriving DecidableEq

/-- Accounting classification. -/
inductive AccountClass where
  | asset
  | liability
  | equity
  | revenue
  | expense
deriving DecidableEq

def AccountClass.conventionalNormalBalance : AccountClass → NormalBalance
  | .asset => .debit
  | .expense => .debit
  | .liability => .credit
  | .equity => .credit
  | .revenue => .credit

-- ==== errors

/-- The failure modes of ledger operations. -/
inductive Error where
  | unbalanced (currency : String) (debits credits : I64)
  | tooFewEntries (n : Nat)
  | currencyMismatch (entryCurrency accountCurrency accountId : String)
  | accountNotFound (id : String)
  | crossLedgerEntry (accountId accountLedger expectedLedger : String)
  | idempotencyMismatch
  | terminalState (id : String) (state : Status)
  | transactionNotFound (id : String)
  | ledgerNotFound (id : String)
  | invalidInput (msg : String)
  | core (e : CoreError)
deriving DecidableEq

-- ==== records

/-- A ledger: metadata only. -/
structure Ledger where
  id : LedgerId
  name : String
  description : Option String
deriving DecidableEq

structure Account where
  id : AccountId
  ledgerId : LedgerId
  name : String
  accountClass : AccountClass
  normalBalance : NormalBalance
  currency : Currency
  externalId : Option String
deriving DecidableEq

namespace Account

def new (id : AccountId) (ledgerId : LedgerId) (name : String)
    (accountClass : AccountClass) (currency : Currency) : Account :=
  { id, ledgerId, name, accountClass
    normalBalance := accountClass.conventionalNormalBalance
    currency, externalId := none }

def withNormalBalance (a : Account) (nb : NormalBalance) : Account :=
  { a with normalBalance := nb }

end Account

/-- A single debit or credit. -/
structure Entry where
  accountId : AccountId
  direction : Direction
  amount : Money
deriving DecidableEq

namespace Entry

def debit (accountId : AccountId) (amount : Money) : Entry :=
  { accountId, direction := .debit, amount }

def credit (accountId : AccountId) (amount : Money) : Entry :=
  { accountId, direction := .credit, amount }

def reverse (e : Entry) : Entry :=
  { e with direction := e.direction.opposite }

end Entry

/-- The two views of an account's balance. -/
structure Balance where
  currency : Currency
  posted : Money
  pending : Money
deriving DecidableEq

/-- A double-entry transaction. -/
structure Transaction where
  id : TransactionId
  ledgerId : LedgerId
  status : Status
  externalId : Option String
  description : Option String
  effectiveAtUnixSecs : Nat
  entries : List Entry
  metadata : List (String × String)
deriving DecidableEq

-- ==== the constructors

/-- Debit and credit total per currency code. -/
abbrev Tallies := Table String (I64 × I64)

/-- One turn of the tally loop of `validate_balanced`. -/
def tallyEntry (tallies : Tallies) (e : Entry) : Except Error Tallies :=
  let cur := e.amount.currency.code
  let entry := (tallies.lookup cur).getD (0, 0)
  match e.direction with
  | .debit =>
    match entry.1.checkedAdd e.amount.minorUnits with
    | some debits => .ok (tallies.insert cur (debits, entry.2))
    | none => .error (.core .overflow)
  | .credit =>
    match entry.2.checkedAdd e.amount.minorUnits with
    | some credits => .ok (tallies.insert cur (entry.1, credits))
    | none => .error (.core .overflow)

/-- Sum of debits equals sum of credits for every currency code. Which
of several unbalanced codes is reported depends on the iteration order
of the tally table; whether one is does not. -/
def validateBalanced (entries : List Entry) : Except Error Unit := do
  let tallies ← entries.foldlM tallyEntry (∅ : Tallies)
  match tallies.entries.find? (fun p => p.2.1 ≠ p.2.2) with
  | some ⟨cur, debits, credits⟩ => .error (.unbalanced cur debits credits)
  | none => .ok ()

namespace Transaction

def construct (id : TransactionId) (ledgerId : LedgerId) (status : Status)
    (effectiveAtUnixSecs : Nat) (entries : List Entry) :
    Except Error Transaction := do
  if entries.length < 2 then
    throw (.tooFewEntries entries.length)
  validateBalanced entries
  return { id, ledgerId, status, externalId := none, description := none
           effectiveAtUnixSecs, entries, metadata := [] }

def newPending (id : TransactionId) (ledgerId : LedgerId)
    (effectiveAtUnixSecs : Nat) (entries : List Entry) :
    Except Error Transaction :=
  construct id ledgerId .pending effectiveAtUnixSecs entries

def newPosted (id : TransactionId) (ledgerId : LedgerId)
    (effectiveAtUnixSecs : Nat) (entries : List Entry) :
    Except Error Transaction :=
  construct id ledgerId .posted effectiveAtUnixSecs entries

def withExternalId (t : Transaction) (id : String) : Transaction :=
  { t with externalId := some id }

def withDescription (t : Transaction) (d : String) : Transaction :=
  { t with description := some d }

def withMetadata (t : Transaction) (k v : String) : Transaction :=
  { t with metadata := t.metadata ++ [(k, v)] }

def reversalOf (id : TransactionId) (original : Transaction)
    (effectiveAtUnixSecs : Nat) : Except Error Transaction := do
  let t ← newPending id original.ledgerId effectiveAtUnixSecs
    (original.entries.map Entry.reverse)
  let parentId := original.externalId.getD original.id.toString
  return { t with
    externalId := some (parentId ++ ":reversal")
    description := some ("Reversal of " ++ original.id.toString)
    metadata := t.metadata ++ [("reverses", original.id.toString)] }

def post (t : Transaction) : Except Error Transaction :=
  match t.status with
  | .pending => .ok { t with status := .posted }
  | terminal => .error (.terminalState t.id.toString terminal)

def archive (t : Transaction) : Except Error Transaction :=
  match t.status with
  | .pending => .ok { t with status := .archived }
  | terminal => .error (.terminalState t.id.toString terminal)

/-- The transactions the constructors and builders produce. -/
inductive Built : Transaction → Prop
  | newPending {id lid at_ es t} : newPending id lid at_ es = .ok t → Built t
  | newPosted {id lid at_ es t} : newPosted id lid at_ es = .ok t → Built t
  | reversalOf {id original at_ t} :
      reversalOf id original at_ = .ok t → Built t
  | withExternalId {t} (e : String) : Built t → Built (t.withExternalId e)
  | withDescription {t} (d : String) : Built t → Built (t.withDescription d)
  | withMetadata {t} (k v : String) : Built t → Built (t.withMetadata k v)

end Transaction

end OpenStandards.OpLedger

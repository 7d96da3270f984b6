/-
The graph-backed ledger store (op-graph `ledger_store.rs`).

A store is a handle and the cache of external ids. Every method takes
the order in which the fact store happens to answer its queries; a
method that writes answers its result together with the store it leaves
behind, also where it fails half way. The present-time readers and their
`:as-of` siblings run the same walk over a view of the graph.
-/
import OpenStandards.OpGraph.Graph
import OpenStandards.OpLedger.Store

namespace OpenStandards.OpGraph

open Lib OpCore OpLedger

-- ==== the vocabulary

/-- Vertex types. -/
def ledgerAccount : String := "ledger_account"
def ledgerTx : String := "ledger_tx"
def ledgerLedger : String := "ledger_ledger"

/-- Edge types. -/
def ledgerDebit : String := "ledger_debit"
def ledgerCredit : String := "ledger_credit"
def ledgerInLedger : String := "ledger_in_ledger"

def entryType : Direction → String
  | .debit => ledgerDebit
  | .credit => ledgerCredit

/-- The property names of the ledger. -/
inductive LedgerProp where
  | name
  | description
  | accountClass
  | normalBalance
  | currencyCode
  | currencyExponent
  | externalId
  | status
  | effectiveAtUnixSecs
  | metadata
  | amountMinor
  | postedAtTxCount
deriving DecidableEq

/-- The attribute keyword. -/
def LedgerProp.text : LedgerProp → String
  | .name => "name"
  | .description => "description"
  | .accountClass => "class"
  | .normalBalance => "normal_balance"
  | .currencyCode => "currency_code"
  | .currencyExponent => "currency_exponent"
  | .externalId => "external_id"
  | .status => "status"
  | .effectiveAtUnixSecs => "effective_at_unix_secs"
  | .metadata => "metadata"
  | .amountMinor => "amount_minor"
  | .postedAtTxCount => "posted_at_tx_count"

-- ==== codecs

abbrev LedgerProps := Props LedgerProp

def jsonString (props : LedgerProps) (key : LedgerProp) : Except GraphError String :=
  match (props.get key).bind Json.asStr with
  | some s => .ok s
  | none => .error (.propertyTypeMismatch "?" key.text "string")

def jsonOptString (props : LedgerProps) (key : LedgerProp) : Option String :=
  (props.get key).bind Json.asStr

def jsonU64 (props : LedgerProps) (key : LedgerProp) : Except GraphError Nat :=
  match (props.get key).bind Json.asU64 with
  | some n => .ok n
  | none => .error (.propertyTypeMismatch "?" key.text "u64")

def jsonI64 (props : LedgerProps) (key : LedgerProp) : Except GraphError I64 :=
  match (props.get key).bind Json.asI64 with
  | some i => .ok i
  | none => .error (.propertyTypeMismatch "?" key.text "i64")

def jsonOptObjectStrs (props : LedgerProps) (key : LedgerProp) : List (String × String) :=
  match (props.get key).bind Json.asObject with
  | some fields => fields.filterMap fun f => f.2.asStr.map fun s => (f.1, s)
  | none => []

def jsonOfOption : Option String → Json
  | some s => .string s
  | none => .null

def accountClassStr : AccountClass → String
  | .asset => "asset"
  | .liability => "liability"
  | .equity => "equity"
  | .revenue => "revenue"
  | .expense => "expense"

def parseAccountClass : String → Except GraphError AccountClass
  | "asset" => .ok .asset
  | "liability" => .ok .liability
  | "equity" => .ok .equity
  | "revenue" => .ok .revenue
  | "expense" => .ok .expense
  | other => .error (.invariant ("unknown account class: " ++ other))

def normalBalanceStr : NormalBalance → String
  | .debit => "debit"
  | .credit => "credit"

def parseNormalBalance : String → Except GraphError NormalBalance
  | "debit" => .ok .debit
  | "credit" => .ok .credit
  | other => .error (.invariant ("unknown normal balance: " ++ other))

def statusStr : Status → String
  | .pending => "pending"
  | .posted => "posted"
  | .archived => "archived"

def parseStatus : String → Except GraphError Status
  | "pending" => .ok .pending
  | "posted" => .ok .posted
  | "archived" => .ok .archived
  | other => .error (.invariant ("unknown tx status: " ++ other))

/-- A currency from its code and exponent: the curated constants first,
then the checked constructor on the three bytes of the code. -/
def currencyFromProps (code : String) (exponent : Nat) : Except GraphError Currency :=
  match code, exponent with
  | "USD", 2 => .ok .USD
  | "EUR", 2 => .ok .EUR
  | "BRL", 2 => .ok .BRL
  | "INR", 2 => .ok .INR
  | "GBP", 2 => .ok .GBP
  | "JPY", 0 => .ok .JPY
  | "CNY", 2 => .ok .CNY
  | code, exponent =>
    if (code.toList.map Char.utf8Size).sum ≠ 3 then
      .error (.invariant ("currency code length: " ++ code))
    else
      match code.toList with
      | [c0, c1, c2] =>
        match Currency.tryNew c0 c1 c2 exponent with
        | .ok c => .ok c
        | .error e => .error (.invariant e.text)
      -- three bytes that are not three letters
      | _ => .error (.invariant CoreError.invalidCurrency.text)

-- ==== the store

/-- The store: the graph and the cache of external ids. -/
structure GraphLedgerStore where
  handle : GraphHandle LedgerProp
  byExternalId : Table String TransactionId

namespace GraphLedgerStore

def withHandle (handle : GraphHandle LedgerProp) : GraphLedgerStore :=
  { handle, byExternalId := ∅ }

def newInMemory : GraphLedgerStore := withHandle []

variable (sj : SerdeJson) (ord : RowOrder (Fact LedgerProp))

-- ==== property codecs

section

variable (g : GraphHandle LedgerProp)

def writeProps (id : Uuid) (g : GraphHandle LedgerProp) :
    List (LedgerProp × Json) → GraphHandle LedgerProp
  | [] => g
  | (a, v) :: rest =>
    writeProps id (GraphHandle.setVertexProperty sj ord g id a v) rest

def writeLedgerProps (ledger : Ledger) : GraphHandle LedgerProp :=
  writeProps sj ord ledger.id.uuid g
    [(.name, .string ledger.name), (.description, jsonOfOption ledger.description)]

def writeAccountProps (account : Account) : GraphHandle LedgerProp :=
  writeProps sj ord account.id.uuid g
    [(.name, .string account.name),
      (.accountClass, .string (accountClassStr account.accountClass)),
      (.normalBalance, .string (normalBalanceStr account.normalBalance)),
      (.currencyCode, .string account.currency.code),
      (.currencyExponent, .number (.ofU64 account.currency.exponent)),
      (.externalId, jsonOfOption account.externalId)]

def metadataObject (metadata : List (String × String)) : Json :=
  .object (metadata.foldl (fun fields kv => Json.insertField fields kv.1 (.string kv.2)) [])

def writeTxProps (tx : Transaction) : GraphHandle LedgerProp :=
  writeProps sj ord tx.id.uuid g
    [(.status, .string (statusStr tx.status)),
      (.externalId, jsonOfOption tx.externalId),
      (.description, jsonOfOption tx.description),
      (.effectiveAtUnixSecs, .number (.ofU64 tx.effectiveAtUnixSecs)),
      (.metadata, metadataObject tx.metadata)]

def accountParentLedger (id : AccountId) : Except GraphError LedgerId :=
  match (GraphHandle.outEdges ord g id.uuid ledgerInLedger).head? with
  | some edge => .ok ⟨edge.toId⟩
  | none => .error (.invariant
      ("account " ++ id.toString ++ " has no ledger_in_ledger edge"))

def readAccount (id : AccountId) : Except GraphError Account := do
  let _ ← GraphHandle.getTypedVertex ord g id.uuid ledgerAccount
  let props := GraphHandle.getVertexProperties sj ord g id.uuid
  let name ← jsonString props .name
  let classS ← jsonString props .accountClass
  let nbS ← jsonString props .normalBalance
  let ccode ← jsonString props .currencyCode
  let cexp ← jsonU64 props .currencyExponent
  let externalId := jsonOptString props .externalId
  let ledgerId ← accountParentLedger ord g id
  let currency ← currencyFromProps ccode (cexp % 256)
  let accountClass ← parseAccountClass classS
  let normalBalance ← parseNormalBalance nbS
  return { id, ledgerId, name, accountClass, normalBalance, currency
           externalId }

def entryOfProps (props : LedgerProps) (edge : Edge)
    (direction : Direction) : Except GraphError Entry := do
  let amountMinor ← jsonI64 props .amountMinor
  let ccode ← jsonString props .currencyCode
  let cexp ← jsonU64 props .currencyExponent
  let currency ← currencyFromProps ccode (cexp % 256)
  return { accountId := ⟨edge.toId⟩, direction
           amount := Money.fromMinor amountMinor currency }

def readEntryEdge (edge : Edge) (direction : Direction) : Except GraphError Entry :=
  entryOfProps (GraphHandle.getEdgeProperties sj ord g edge) edge direction

def readTx (id : TransactionId) : Except GraphError Transaction := do
  let _ ← GraphHandle.getTypedVertex ord g id.uuid ledgerTx
  let props := GraphHandle.getVertexProperties sj ord g id.uuid
  let statusS ← jsonString props .status
  let status ← parseStatus statusS
  let externalId := jsonOptString props .externalId
  let description := jsonOptString props .description
  let effective ← jsonU64 props .effectiveAtUnixSecs
  let metadata := jsonOptObjectStrs props .metadata
  let ledgerId ←
    match (GraphHandle.outEdges ord g id.uuid ledgerInLedger).head? with
    | some edge => Except.ok (⟨edge.toId⟩ : LedgerId)
    | none => .error (.invariant
        ("tx " ++ id.toString ++ " has no ledger_in_ledger edge"))
  let debits ← (GraphHandle.outEdges ord g id.uuid ledgerDebit).mapM
    fun edge => readEntryEdge sj ord g edge .debit
  let credits ← (GraphHandle.outEdges ord g id.uuid ledgerCredit).mapM
    fun edge => readEntryEdge sj ord g edge .credit
  let entries := debits ++ credits
  if entries = [] then
    .error (.invariant ("tx " ++ id.toString ++ " has no debit/credit edges"))
  else
    return { id, ledgerId, status, externalId, description
             effectiveAtUnixSecs := effective, entries, metadata }

end

def bodyKey (e : Entry) : AccountId × Direction × I64 × String :=
  (e.accountId, e.direction, e.amount.minorUnits, e.amount.currency.code)

def sameBody (a b : Transaction) : Bool :=
  if a.ledgerId ≠ b.ledgerId then false
  else if a.externalId ≠ b.externalId then false
  else if a.effectiveAtUnixSecs ≠ b.effectiveAtUnixSecs then false
  else if a.entries.length ≠ b.entries.length then false
  else decide ((a.entries.map bodyKey).Perm (b.entries.map bodyKey))

-- ==== the store's trait

variable (s : GraphLedgerStore)

def createLedger (ledger : Ledger) : Except Error LedgerId × GraphLedgerStore :=
  let g := GraphHandle.createVertex s.handle ledgerLedger ledger.id.uuid
  (.ok ledger.id, { s with handle := writeLedgerProps sj ord g ledger })

def createAccount (account : Account) : Except Error AccountId × GraphLedgerStore :=
  if !GraphHandle.vertexExists ord s.handle account.ledgerId.uuid then
    (.error (.ledgerNotFound account.ledgerId.toString), s)
  else
    let g := GraphHandle.createVertex s.handle ledgerAccount account.id.uuid
    let g := (GraphHandle.createEdge g account.id.uuid ledgerInLedger
      account.ledgerId.uuid).2
    (.ok account.id, { s with handle := writeAccountProps sj ord g account })

/-- An account looked up for a method of the trait. -/
def lookupAccount (g : GraphHandle LedgerProp) (id : AccountId) : Except Error Account :=
  match readAccount sj ord g id with
  | .ok a => .ok a
  | .error (.vertexNotFound _ _) => .error (.accountNotFound id.toString)
  | .error other => .error other.toLedger

/-- A transaction looked up for a method of the trait. -/
def lookupTx (g : GraphHandle LedgerProp) (id : TransactionId) : Except Error Transaction :=
  match readTx sj ord g id with
  | .ok t => .ok t
  | .error (.vertexNotFound _ _) => .error (.transactionNotFound id.toString)
  | .error other => .error other.toLedger

def getTransaction (id : TransactionId) : Except Error Transaction :=
  lookupTx sj ord s.handle id

/-- The checks `post_transaction` makes on one entry. -/
def validateEntry (g : GraphHandle LedgerProp) (ledgerId : LedgerId)
    (entry : Entry) : Except Error Unit := do
  let acc ← lookupAccount sj ord g entry.accountId
  if acc.ledgerId ≠ ledgerId then
    .error (.crossLedgerEntry entry.accountId.toString acc.ledgerId.toString ledgerId.toString)
  else if acc.currency ≠ entry.amount.currency then
    .error (.currencyMismatch entry.amount.currency.code acc.currency.code
      entry.accountId.toString)
  else .ok ()

def writeEntryProps (g : GraphHandle LedgerProp) (edge : Edge)
    (entry : Entry) : GraphHandle LedgerProp :=
  let g := GraphHandle.setEdgeProperty sj ord g edge .amountMinor
    (.number (.ofI64 entry.amount.minorUnits))
  let g := GraphHandle.setEdgeProperty sj ord g edge .currencyCode
    (.string entry.amount.currency.code)
  GraphHandle.setEdgeProperty sj ord g edge .currencyExponent
    (.number (.ofU64 entry.amount.currency.exponent))

/-- Persist one entry: create its edge, search the edge by its target,
write the properties to the edge found. -/
def persistEntry (txId : TransactionId) (g : GraphHandle LedgerProp)
    (entry : Entry) : Except Error Unit × GraphHandle LedgerProp :=
  let etype := entryType entry.direction
  let g₁ := (GraphHandle.createEdge g txId.uuid etype
    entry.accountId.uuid).2
  match (GraphHandle.outEdges ord g₁ txId.uuid etype).find?
      fun e => e.toId = entry.accountId.uuid with
  | none => (.error (GraphError.toLedger (.invariant
      ("freshly-created entry edge missing for tx " ++ txId.toString
        ++ " → account " ++ entry.accountId.toString))), g₁)
  | some edge => (.ok (), writeEntryProps sj ord g₁ edge entry)

def persistEntries (txId : TransactionId) : List Entry →
    GraphHandle LedgerProp → Except Error Unit × GraphHandle LedgerProp
  | [], g => (.ok (), g)
  | entry :: rest, g =>
    match persistEntry sj ord txId g entry with
    | (.error e, g') => (.error e, g')
    | (.ok (), g') => persistEntries txId rest g'

def persistVertex (g : GraphHandle LedgerProp) (t : Transaction) : GraphHandle LedgerProp :=
  let g := GraphHandle.createVertex g ledgerTx t.id.uuid
  let g := (GraphHandle.createEdge g t.id.uuid ledgerInLedger
    t.ledgerId.uuid).2
  writeTxProps sj ord g t

/-- Steps 4 to 6 of `post_transaction`. -/
def persist (t : Transaction) : Except Error TransactionId × GraphLedgerStore :=
  match persistEntries sj ord t.id t.entries
      (persistVertex sj ord s.handle t) with
  | (.error e, g) => (.error e, { s with handle := g })
  | (.ok (), g) =>
    (.ok t.id,
      { byExternalId := match t.externalId with
          | some ext => s.byExternalId.insert ext t.id
          | none => s.byExternalId
        handle := GraphHandle.setVertexProperty sj ord g t.id.uuid
          .postedAtTxCount (.number (.ofU64 g.txCount)) })

def cached (externalId : Option String) : Option TransactionId :=
  externalId.bind fun ext => s.byExternalId.lookup ext

def postTransaction (t : Transaction) : Except Error TransactionId × GraphLedgerStore :=
  -- 1. Ledger must exist.
  if !GraphHandle.vertexExists ord s.handle t.ledgerId.uuid then
    (.error (.ledgerNotFound t.ledgerId.toString), s)
  else
    -- 2. Idempotency by external_id: the cache alone is consulted.
    match s.cached t.externalId with
    | some existingId =>
      match readTx sj ord s.handle existingId with
      | .error e => (.error e.toLedger, s)
      | .ok existing =>
        if sameBody existing t then (.ok existingId, s)
        else (.error .idempotencyMismatch, s)
    | none =>
      -- 3. Validate every entry.
      match t.entries.forM (validateEntry sj ord s.handle t.ledgerId) with
      | .error e => (.error e, s)
      -- 4. to 6. Persist.
      | .ok () => persist sj ord s t

/-- The walk of a cache miss: the first `ledger_tx` vertex that carries
the external id. -/
def walkExternalId (g : GraphHandle LedgerProp) (externalId : String) : Option TransactionId :=
  ((GraphHandle.verticesOfType ord g ledgerTx).find? fun v =>
    ((GraphHandle.getVertexProperties sj ord g v.id).get .externalId).bind
      Json.asStr = some externalId).map fun v => ⟨v.id⟩

def findByExternalId (externalId : String) :
    Except Error (Option Transaction) × GraphLedgerStore :=
  match s.byExternalId.lookup externalId with
  | some tid =>
    match readTx sj ord s.handle tid with
    | .ok t => (.ok (some t), s)
    | .error e => (.error e.toLedger, s)
  | none =>
    match walkExternalId sj ord s.handle externalId with
    | none => (.ok none, s)
    | some tid =>
      let s' := { s with
        byExternalId := s.byExternalId.insert externalId tid }
      match readTx sj ord s.handle tid with
      | .ok t => (.ok (some t), s')
      | .error e => (.error e.toLedger, s')

/-- Apply a lifecycle method to a stored transaction and persist its new
status. -/
def transition (method : Transaction → Except Error Transaction)
    (id : TransactionId) : Except Error Unit × GraphLedgerStore :=
  match lookupTx sj ord s.handle id with
  | .error e => (.error e, s)
  | .ok t =>
    match method t with
    | .error e => (.error e, s)
    | .ok t' => (.ok (), { s with
        handle := GraphHandle.setVertexProperty sj ord s.handle id.uuid
          .status (.string (statusStr t'.status)) })

def markPosted (id : TransactionId) : Except Error Unit × GraphLedgerStore :=
  transition sj ord s Transaction.post id

def markArchived (id : TransactionId) : Except Error Unit × GraphLedgerStore :=
  transition sj ord s Transaction.archive id

-- ==== balances

open InMemoryLedgerStore (Tally addOrOverflow signByNormal)

/-- What the tally loop reads of one entry edge: the amount, in the
account's currency, and the status of the transaction it leaves. -/
def readLeg (accountId : AccountId) (currency : Currency)
    (props txProps : LedgerProps) : Except Error (Status × I64) := do
  let amount ← (jsonI64 props .amountMinor).mapError GraphError.toLedger
  let ccode ← (jsonString props .currencyCode).mapError GraphError.toLedger
  if ccode ≠ currency.code then
    .error (.currencyMismatch ccode currency.code accountId.toString)
  else do
    let statusS ← (jsonString txProps .status).mapError GraphError.toLedger
    let status ← (parseStatus statusS).mapError GraphError.toLedger
    return (status, amount)

/-- Count it: a posted amount counts in both totals of its side. -/
def addLeg (direction : Direction) (acc : Tally) (leg : Status × I64) : Except Error Tally :=
  match leg.1, direction with
  | .posted, .debit => do
    let p ← addOrOverflow acc.postedDebits leg.2
    let q ← addOrOverflow acc.pendingDebits leg.2
    return { acc with postedDebits := p, pendingDebits := q }
  | .posted, .credit => do
    let p ← addOrOverflow acc.postedCredits leg.2
    let q ← addOrOverflow acc.pendingCredits leg.2
    return { acc with postedCredits := p, pendingCredits := q }
  | .pending, .debit => do
    let q ← addOrOverflow acc.pendingDebits leg.2
    return { acc with pendingDebits := q }
  | .pending, .credit => do
    let q ← addOrOverflow acc.pendingCredits leg.2
    return { acc with pendingCredits := q }
  | .archived, _ => .ok acc

def tallyEdge (accountId : AccountId) (currency : Currency)
    (direction : Direction) (props txProps : LedgerProps) (acc : Tally) :
    Except Error Tally := do
  let leg ← readLeg accountId currency props txProps
  addLeg direction acc leg

def tallyIn (view : List (Fact LedgerProp)) (accountId : AccountId)
    (currency : Currency) : Except Error Tally :=
  [Direction.debit, .credit].foldlM (fun acc direction =>
    (GraphHandle.inEdgesIn ord view accountId.uuid
        (entryType direction)).foldlM (fun acc edge =>
      tallyEdge accountId currency direction
        (GraphHandle.propertiesIn sj ord view (.edge edge.id))
        (GraphHandle.propertiesIn sj ord view (.vertex edge.fromId)) acc)
      acc) Tally.zero

/-- The saturating difference of `balance`. -/
def saturatingSigned (normal : NormalBalance) (debits credits : I64) : I64 :=
  match normal with
  | .debit => debits.saturatingSub credits
  | .credit => credits.saturatingSub debits

def balance (accountId : AccountId) : Except Error Balance := do
  let account ← lookupAccount sj ord s.handle accountId
  let t ← tallyIn sj ord s.handle.facts accountId account.currency
  return { currency := account.currency
           posted := Money.fromMinor (saturatingSigned account.normalBalance
             t.postedDebits t.postedCredits) account.currency
           pending := Money.fromMinor (saturatingSigned account.normalBalance
             t.pendingDebits t.pendingCredits) account.currency }

/-- The account is read at the present time, the entries as of `n`. -/
def balanceAsOf (accountId : AccountId) (n : Nat) : Except Error Balance := do
  let account ← lookupAccount sj ord s.handle accountId
  let t ← tallyIn sj ord (s.handle.factsAsOf n) accountId account.currency
  let postedMinor ← signByNormal account.normalBalance t.postedDebits
    t.postedCredits
  let pendingMinor ← signByNormal account.normalBalance t.pendingDebits
    t.pendingCredits
  return { currency := account.currency
           posted := Money.fromMinor postedMinor account.currency
           pending := Money.fromMinor pendingMinor account.currency }

def readEntryEdgeAt (edge : Edge) (direction : Direction) (n : Nat) : Except Error Entry :=
  (entryOfProps (GraphHandle.getEdgePropertiesAt sj ord s.handle edge n) edge
    direction).mapError GraphError.toLedger

/-- `readTx` over the view as of `n`; neither the vertex type nor the
presence of entries is checked. -/
def transactionAsOf (id : TransactionId) (n : Nat) : Except Error Transaction :=
  let props := GraphHandle.getVertexPropertiesAt sj ord s.handle id.uuid n
  if props.isEmpty then .error (.transactionNotFound id.toString)
  else do
    let statusS ← (jsonString props .status).mapError GraphError.toLedger
    let status ← (parseStatus statusS).mapError GraphError.toLedger
    let externalId := jsonOptString props .externalId
    let description := jsonOptString props .description
    let effective ←
      (jsonU64 props .effectiveAtUnixSecs).mapError GraphError.toLedger
    let metadata := jsonOptObjectStrs props .metadata
    let ledgerId ←
      match (GraphHandle.outEdgesAt ord s.handle id.uuid ledgerInLedger
          n).head? with
      | some edge => Except.ok (⟨edge.toId⟩ : LedgerId)
      | none => .error (GraphError.toLedger (.invariant
          ("tx " ++ id.toString ++ " has no ledger_in_ledger edge as-of " ++ toString n)))
    let debits ← (GraphHandle.outEdgesAt ord s.handle id.uuid ledgerDebit
      n).mapM fun edge => readEntryEdgeAt sj ord s edge .debit n
    let credits ← (GraphHandle.outEdgesAt ord s.handle id.uuid ledgerCredit
      n).mapM fun edge => readEntryEdgeAt sj ord s edge .credit n
    return { id, ledgerId, status, externalId, description
             effectiveAtUnixSecs := effective, entries := debits ++ credits
             metadata }

-- ==== runs

/-- A call that may change the store. `reopen` is a restart: a new store
is opened with `withHandle` on the same graph. -/
inductive Call where
  | createLedger (ledger : Ledger)
  | createAccount (account : Account)
  | postTransaction (transaction : Transaction)
  | markPosted (id : TransactionId)
  | markArchived (id : TransactionId)
  | findByExternalId (externalId : String)
  | reopen

/-- The store one call leaves behind, the queries of the call being
answered in the given order. -/
def step (s : GraphLedgerStore) (c : RowOrder (Fact LedgerProp) × Call) : GraphLedgerStore :=
  match c.2 with
  | .createLedger l => (createLedger sj c.1 s l).2
  | .createAccount a => (createAccount sj c.1 s a).2
  | .postTransaction t => (postTransaction sj c.1 s t).2
  | .markPosted id => (markPosted sj c.1 s id).2
  | .markArchived id => (markArchived sj c.1 s id).2
  | .findByExternalId ext => (findByExternalId sj c.1 s ext).2
  | .reopen => withHandle s.handle

abbrev run (s : GraphLedgerStore)
    (calls : List (RowOrder (Fact LedgerProp) × Call)) : GraphLedgerStore :=
  Lib.run (step sj) s calls

end GraphLedgerStore

/-
The two implementations of `LedgerStore` side by side (op-ledger
`store.rs`, op-graph `ledger_store.rs`).

A run of the trait puts the same call to both stores. With the call come
the order in which the in-memory store walks its table, and the order in
which the fact store answers. Two answers are alike when both are the same
error, or both succeed with the same ids, balances and entries, these in
any order.
-/

-- ==== the trait

inductive TraitCall where
  | createLedger (ledger : Ledger)
  | createAccount (account : Account)
  | postTransaction (transaction : Transaction)
  | markPosted (id : TransactionId)
  | markArchived (id : TransactionId)
  | balance (id : AccountId)
  | findByExternalId (externalId : String)

/-- What a call that succeeds answers. -/
inductive Answer where
  | ledger (id : LedgerId)
  | account (id : AccountId)
  | transaction (id : TransactionId)
  | done
  | balance (b : Balance)
  | found (t : Option Transaction)

/-- A call, with the order of the table walk and the order of rows it
happens to meet. -/
structure Request where
  call : TraitCall
  walk : RowOrder Transaction
  rows : RowOrder (Fact LedgerProp)

def memoryAnswer (m : InMemoryLedgerStore) (r : Request) :
    Except Error Answer × InMemoryLedgerStore :=
  match r.call with
  | .createLedger l =>
    let (x, m') := m.createLedger l
    (x.map .ledger, m')
  | .createAccount a =>
    let (x, m') := m.createAccount a
    (x.map .account, m')
  | .postTransaction t =>
    let (x, m') := m.postTransaction t
    (x.map .transaction, m')
  | .markPosted id =>
    let (x, m') := m.markPosted id
    (x.map fun _ => .done, m')
  | .markArchived id =>
    let (x, m') := m.markArchived id
    (x.map fun _ => .done, m')
  | .balance a =>
    ((m.balance (r.walk.order (Table.values m.transactions)) a).map .balance, m)
  | .findByExternalId ext => (.ok (.found (m.findByExternalId ext)), m)

def graphAnswer (sj : SerdeJson) (g : GraphLedgerStore) (r : Request) :
    Except Error Answer × GraphLedgerStore :=
  match r.call with
  | .createLedger l =>
    let (x, g') := GraphLedgerStore.createLedger sj r.rows g l
    (x.map .ledger, g')
  | .createAccount a =>
    let (x, g') := GraphLedgerStore.createAccount sj r.rows g a
    (x.map .account, g')
  | .postTransaction t =>
    let (x, g') := GraphLedgerStore.postTransaction sj r.rows g t
    (x.map .transaction, g')
  | .markPosted id =>
    let (x, g') := GraphLedgerStore.markPosted sj r.rows g id
    (x.map fun _ => .done, g')
  | .markArchived id =>
    let (x, g') := GraphLedgerStore.markArchived sj r.rows g id
    (x.map fun _ => .done, g')
  | .balance a =>
    ((GraphLedgerStore.balance sj r.rows g a).map .balance, g)
  | .findByExternalId ext =>
    let (x, g') := GraphLedgerStore.findByExternalId sj r.rows g ext
    (x.map .found, g')

-- ==== both at once

structure Stores where
  memory : InMemoryLedgerStore
  graph : GraphLedgerStore

namespace Stores

def empty : Stores :=
  { memory := .new, graph := .newInMemory }

def step (sj : SerdeJson) (s : Stores) (r : Request) : Stores :=
  { memory := (memoryAnswer s.memory r).2
    graph := (graphAnswer sj s.graph r).2 }

/-- The stores after a sequence of calls. -/
abbrev run (sj : SerdeJson) (s : Stores) (requests : List Request) : Stores :=
  Lib.run (step sj) s requests

end Stores

/-- The same transaction: entries in any order, description and metadata
apart. -/
structure SameTransaction (x y : Transaction) : Prop where
  id : x.id = y.id
  ledgerId : x.ledgerId = y.ledgerId
  status : x.status = y.status
  externalId : x.externalId = y.externalId
  effectiveAt : x.effectiveAtUnixSecs = y.effectiveAtUnixSecs
  entries : x.entries.Perm y.entries

def Answer.Agrees : Answer → Answer → Prop
  | .found (some x), .found (some y) => SameTransaction x y
  | x, y => x = y

/-- Both succeed with the same answer, or both fail with the same
error. -/
def Alike : Except Error Answer → Except Error Answer → Prop
  | .ok x, .ok y => x.Agrees y
  | .error e, .error e' => e = e'
  | _, _ => False

def AnswersAlike (sj : SerdeJson) (s : Stores) (r : Request) : Prop :=
  Alike (memoryAnswer s.memory r).1 (graphAnswer sj s.graph r).1

end OpenStandards.OpGraph

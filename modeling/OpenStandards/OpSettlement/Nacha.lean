/-
The NACHA file of a batch (op-settlement `nacha.rs`): a file header, a
batch header, an entry for each credit, a batch control and a file
control, each a line of 94 bytes, then lines of nines to the next
multiple of ten.

The formatting of a field pads to a number of characters and never
truncates; `padTruncate` before it cuts at a number of bytes; `push94`
afterwards tests the bytes of the whole line. Machine words are natural
numbers, with the wrapping, the checks and the panics written out.
-/
import OpenStandards.Lib.Cursor
import OpenStandards.OpSettlement.Engine

namespace OpenStandards.OpSettlement

open Lib OpCore Text

-- ==== the data

/-- The entry class of a credit. -/
inductive SecCode where
  | ppd
  | ccd

def SecCode.asStr : SecCode → Text
  | .ppd => ['P', 'P', 'D']
  | .ccd => ['C', 'C', 'D']

/-- One credit entry. -/
structure NachaCredit where
  rdfiRouting : Text
  accountNumber : Text
  receiverName : Text
  amountCents : UInt64
  individualId : Text
  sec : SecCode

/-- The operator's parameters of the headers. -/
structure NachaProfile where
  odfiRouting : Text
  immediateOrigin : Text
  immediateDestination : Text
  companyName : Text
  companyId : Text
  companyEntryDescription : Text
  effectiveEntryDate : Text

-- ==== validation

/-- `Err(Error::Invalid(msg))`. -/
def invalid (msg : String) : Fault Error := .err (.invalid msg)

/-- The text is `n` ASCII digits. -/
def Digits (n : Nat) (s : Text) : Prop :=
  s.byteLen = n ∧ ∀ c ∈ s, c.isDigit = true

instance (n : Nat) (s : Text) : Decidable (Digits n s) :=
  inferInstanceAs (Decidable (_ ∧ _))

def validateProfile (p : NachaProfile) : Except (Fault Error) Unit := do
  refuse (¬ Digits 9 p.odfiRouting) (invalid "odfi_routing must be 9 ASCII digits")
  refuse (p.immediateOrigin.byteLen ≠ 10) (invalid "immediate_origin must be exactly 10 chars")
  refuse (p.immediateDestination.byteLen ≠ 10)
    (invalid "immediate_destination must be exactly 10 chars")
  refuse (¬ Digits 6 p.effectiveEntryDate)
    (invalid "effective_entry_date must be YYMMDD (6 ASCII digits)")

def validateCredit (c : NachaCredit) : Except (Fault Error) Unit := do
  refuse (¬ Digits 9 c.rdfiRouting) (invalid "rdfi_routing must be 9 ASCII digits")
  refuse (c.accountNumber = [] ∨ 17 < c.accountNumber.byteLen)
    (invalid "account_number must be 1..=17 chars")
  refuse (c.receiverName = []) (invalid "receiver_name required")

def checkBatch (batch : Batch) (credits : List NachaCredit) : Except (Fault Error) Unit := do
  refuse (batch.rail ≠ .achNacha) (invalid ("batch rail is " ++ batch.rail.debug ++
      ", NACHA requires AchNacha"))
  refuse (batch.currency ≠ .USD) (.err (.currencyMismatch batch.currency.code "USD"))
  refuse (credits = []) (.err .emptyBatch)
  refuse (credits.length ≠ batch.entries.length)
    (invalid ("credit count " ++ toString credits.length ++
      " != batch entry count " ++ toString batch.entries.length))

-- ==== helpers

/-- The slice `&s[lo..hi]`. -/
def sliceStr (lo hi : Nat) (s : Text) : Except (Fault Error) Text :=
  match takeBytes lo s, takeBytes hi s with
  | some front, some whole =>
    if lo ≤ hi then .ok (whole.drop front.length) else .error .panic
  | _, _ => .error .panic

/-- `a + b` of two `u32`. -/
def addU32 (a b : Nat) : Except (Fault Error) Nat :=
  if a + b < 2 ^ 32 then .ok (a + b) else .error .panic

/-- `a.checked_add(b).ok_or(Overflow)` of two `u64`. -/
def checkedSum (a b : Nat) : Except (Fault Error) Nat :=
  if a + b < 2 ^ 64 then .ok (a + b) else .error (.err (.core .overflow))

/-- `s.parse::<u64>()`. -/
def parseU64 (s : Text) : Except (Fault Error) Nat :=
  match parseUnsigned (2 ^ 64) s with
  | some n => .ok n
  | none => .error (invalid ("not a u64: " ++ String.ofList s))

def padTruncate (s : Text) (width : Nat) : Except (Fault Error) Text :=
  if width ≤ s.byteLen then
    match takeBytes width s with
    | some t => .ok t
    | none => .error .panic
  else .ok (padRight width s)

/-- Append a line of 94 bytes. -/
def push94 (out line : Text) : Except (Fault Error) Text :=
  if line.byteLen ≠ 94 then
    .error (invalid ("NACHA record must be 94 chars, got " ++ toString line.byteLen))
  else .ok (out ++ line ++ ['\n'])

/-- The amount, checked against the batch's currency and `i64`. -/
def Batch.amountForCurrencyInCents (batch : Batch) (amountCents : UInt64) :
    Except (Fault Error) Nat :=
  if batch.currency ≠ .USD then
    .error (.err (.currencyMismatch batch.currency.code "USD"))
  else match I64.ofInt? amountCents.toNat with
    | none => .error (.err (.core .overflow))
    | some _ => .ok amountCents.toNat

-- ==== records

def spaces (n : Nat) : Text := List.replicate n ' '

def fileHeader (p : NachaProfile) (destName origName : Text) : List Text :=
  [['1', '0', '1'], padLeft ' ' 10 p.immediateDestination,
    padLeft ' ' 10 p.immediateOrigin, padLeft ' ' 6 p.effectiveEntryDate,
    padLeft ' ' 4 ['0', '0', '0', '0'], ['A'], ['0', '9', '4', '1', '0', '1'],
    padRight 23 destName, padRight 23 origName, padRight 8 (spaces 8)]

def batchHeader (coName coId sec desc descd eff odfiShort : Text) : List Text :=
  [['5'], ['2', '2', '0'], padRight 16 coName, padRight 20 (spaces 20),
    padRight 10 coId, padRight 3 sec, padRight 10 desc, padLeft ' ' 6 descd,
    padLeft ' ' 6 eff, [' ', ' ', ' '], ['1'], padLeft ' ' 8 odfiShort,
    zeroPad 7 1]

def entryDetail (rdfi8 check acct : Text) (amount : Nat)
    (indId rcvName odfi8 : Text) (seq : Nat) : List Text :=
  [['6'], ['2', '2'], rdfi8, check, padRight 17 acct, zeroPad 10 amount,
    padRight 15 indId, padRight 22 rcvName, [' ', ' ', '0'], odfi8,
    zeroPad 7 seq]

def batchControl (entryCount entryHash totalCredit : Nat) (coId odfiShort : Text) : List Text :=
  [['8'], ['2', '2', '0'], zeroPad 6 entryCount, zeroPad 10 entryHash,
    zeroPad 12 0, zeroPad 12 totalCredit, padRight 10 coId,
    padRight 19 (spaces 19), padRight 6 (spaces 6), padLeft ' ' 8 odfiShort,
    zeroPad 7 1]

def fileControl (blockCount entryCount entryHash totalCredit : Nat) : List Text :=
  [['9'], zeroPad 6 1, zeroPad 6 blockCount, zeroPad 8 entryCount,
    zeroPad 10 entryHash, zeroPad 12 0, zeroPad 12 totalCredit,
    padRight 39 (spaces 39)]

/-- A line of nines. -/
def filler : Text := List.replicate 94 '9'

-- ==== the generator

/-- What the loop over the credits accumulates. -/
structure Entries where
  out : Text
  entryHash : Nat
  totalCredit : Nat
  seq : Nat

/-- The first record. -/
def pushFileHeader (p : NachaProfile) : Except (Fault Error) Text := do
  let destName ← padTruncate p.companyName 23
  let origName ← padTruncate p.companyName 23
  push94 [] (fileHeader p destName origName).flatten

/-- The second record; `credits[0]` panics when there is none. -/
def pushBatchHeader (p : NachaProfile) (credits : List NachaCredit)
    (out : Text) : Except (Fault Error) Text := do
  let secCode ← match credits with
    | [] => .error .panic
    | c :: _ => .ok c.sec.asStr
  let coName ← padTruncate p.companyName 16
  let coId ← padTruncate p.companyId 10
  let desc ← padTruncate p.companyEntryDescription 10
  let descd ← padTruncate p.effectiveEntryDate 6
  let eff ← padTruncate p.effectiveEntryDate 6
  let odfiShort ← sliceStr 0 (min 8 p.odfiRouting.byteLen) p.odfiRouting
  push94 out (batchHeader coName coId secCode desc descd eff odfiShort).flatten

def pushEntry (batch : Batch) (p : NachaProfile) (acc : Entries)
    (c : NachaCredit) : Except (Fault Error) Entries := do
  validateCredit c
  let seq ← addU32 acc.seq 1
  let rdfi8 ← sliceStr 0 8 c.rdfiRouting
  let checkDigit ← sliceStr 8 9 c.rdfiRouting
  let amount ← batch.amountForCurrencyInCents c.amountCents
  let routing ← parseU64 rdfi8
  let entryHash := (acc.entryHash + routing) % 2 ^ 64
  let totalCredit ← checkedSum acc.totalCredit amount
  let odfi8 ← sliceStr 0 8 p.odfiRouting
  let acct ← padTruncate c.accountNumber 17
  let indId ← padTruncate c.individualId 15
  let rcvName ← padTruncate c.receiverName 22
  let out ← push94 acc.out
    (entryDetail rdfi8 checkDigit acct amount indId rcvName odfi8 seq).flatten
  .ok { out, entryHash, totalCredit, seq }

def pushControls (p : NachaProfile) (acc : Entries) : Except (Fault Error) Text := do
  let entryHashTrim := acc.entryHash % 10 ^ 10
  let coId ← padTruncate p.companyId 10
  let odfiShort ← sliceStr 0 (min 8 p.odfiRouting.byteLen) p.odfiRouting
  let out ← push94 acc.out
    (batchControl acc.seq entryHashTrim acc.totalCredit coId odfiShort).flatten
  let recordsSoFar ← addU32 acc.seq 4
  let blockCount := (recordsSoFar + 9) / 10
  let out ← push94 out
    (fileControl blockCount acc.seq entryHashTrim acc.totalCredit).flatten
  let paddingNeeded := (10 - recordsSoFar % 10) % 10
  (List.replicate paddingNeeded filler).foldlM push94 out

def nachaFile (batch : Batch) (p : NachaProfile)
    (credits : List NachaCredit) : Except (Fault Error) Text := do
  checkBatch batch credits
  validateProfile p
  let out ← pushFileHeader p
  let out ← pushBatchHeader p credits out
  let acc ← credits.foldlM (pushEntry batch p) { out, entryHash := 0, totalCredit := 0, seq := 0 }
  pushControls p acc

end OpenStandards.OpSettlement

/-
The Bacs Standard 18 files of op-batch (`bacs.rs`): header labels, a line
of 100 bytes for each payment, trailer labels with the count and the
total.

The labels are padded to 100 bytes and not measured; a payment's line is.
The decoder tells the labels by their first four characters, takes the
originator name and the processing day from `HDR1`, and the day from
`UHL1` only if it has none yet.
-/
import OpenStandards.OpBatch.Records

namespace OpenStandards.OpBatch

open Lib OpCore Text

-- ==== the data

def bacsRecordLen : Nat := 100

/-- The scheme a payment runs under. -/
inductive BacsTransactionCode where
  | credit
  | ddFirst
  | ddRecurring
  | ddFinal
  | ddRepresented

def BacsTransactionCode.asStr : BacsTransactionCode → Text
  | .credit => ['9', '9']
  | .ddFirst => ['0', '1']
  | .ddRecurring => ['1', '7']
  | .ddFinal => ['1', '8']
  | .ddRepresented => ['1', '9']

def BacsTransactionCode.fromStr (s : Text) : Except (Fault Error) BacsTransactionCode :=
  if s = ['9', '9'] then .ok .credit
  else if s = ['0', '1'] then .ok .ddFirst
  else if s = ['1', '7'] then .ok .ddRecurring
  else if s = ['1', '8'] then .ok .ddFinal
  else if s = ['1', '9'] then .ok .ddRepresented
  else .error (fieldRule "bacs_tx_code"
    ("unknown `" ++ String.ofList s ++ "`"))

/-- One payment. -/
structure BacsRecord where
  destinationSortCode : Text
  destinationAccount : Text
  accountType : Char
  transactionCode : BacsTransactionCode
  originatorSortCode : Text
  originatorAccount : Text
  originatorReference : Text
  amountPence : UInt64
  originatorName : Text
  destinationReference : Text
  destinationName : Text

structure BacsFile where
  serviceUserNumber : Text
  originatorName : Text
  processingDayJulian : Text
  records : List BacsRecord

-- ==== the encoder

def validateRecord (r : BacsRecord) : Except (Fault Error) Unit := do
  refuse (¬ Digits 6 r.destinationSortCode) (fieldRule "destination_sort_code" "must be 6 digits")
  refuse (¬ Digits 8 r.destinationAccount) (fieldRule "destination_account" "must be 8 digits")
  refuse (¬ Digits 6 r.originatorSortCode) (fieldRule "originator_sort_code" "must be 6 digits")
  refuse (¬ Digits 8 r.originatorAccount) (fieldRule "originator_account" "must be 8 digits")

def encodeRecord (r : BacsRecord) : Except (Fault Error) Text := do
  let oref ← pad r.originatorReference 4
  let oname ← pad r.originatorName 18
  let dref ← pad r.destinationReference 18
  let dname ← pad r.destinationName 18
  let line : Text := [r.destinationSortCode, r.destinationAccount, [r.accountType],
    r.transactionCode.asStr, r.originatorSortCode, r.originatorAccount,
    padRight 4 oref, zeroPad 11 r.amountPence.toNat, padRight 18 oname,
    padRight 18 dref, padRight 18 dname].flatten
  refuse (line.byteLen ≠ bacsRecordLen) (.err (.recordLength bacsRecordLen line.byteLen))
  .ok line

/-- What the loop over the payments accumulates. -/
structure Payments where
  out : Text
  total : Nat
  count : Nat

/-- One turn of the loop over the payments. -/
def pushRecord (acc : Payments) (r : BacsRecord) : Except (Fault Error) Payments := do
  validateRecord r
  let total ← checkedAdd acc.total r.amountPence.toNat
  let count ← addU32 acc.count 1
  let line ← encodeRecord r
  .ok { out := acc.out ++ line ++ ['\n'], total, count }

def pushLabel (out label : Text) : Except (Fault Error) Text := do
  let line ← pad label bacsRecordLen
  .ok (out ++ line ++ ['\n'])

def BacsFile.encode (f : BacsFile) : Except (Fault Error) Text := do
  refuse (¬ Digits 6 f.serviceUserNumber)
    (fieldRule "service_user_number" "must be 6 ASCII digits")
  let out ← pushLabel [] (['V', 'O', 'L', '1'] ++ padRight 11 f.serviceUserNumber)
  let name ← pad f.originatorName 14
  let out ← pushLabel out (['H', 'D', 'R', '1', 'A'] ++ f.serviceUserNumber ++
    padRight 14 name ++ f.processingDayJulian)
  let out ← pushLabel out (['U', 'H', 'L', '1'] ++ f.processingDayJulian)
  let acc ← f.records.foldlM pushRecord { out, total := 0, count := 0 }
  let out ← pushLabel acc.out (['E', 'O', 'F', '1'] ++ f.serviceUserNumber ++
    zeroPad 8 acc.count ++ zeroPad 13 acc.total)
  pushLabel out (['U', 'T', 'L', '1'] ++ zeroPad 8 acc.count ++ zeroPad 13 acc.total)

-- ==== the decoder

def decodeRecord (line : Text) : Except (Fault Error) BacsRecord := do
  let amount ← sliceText 35 46 line
  let amount ← parseField (2 ^ 64) "amount_pence" amount
  let destinationSortCode ← sliceText 0 6 line
  let destinationAccount ← sliceText 6 14 line
  let accountType ← byteChar 14 line
  let tx ← sliceText 15 17 line
  let transactionCode ← BacsTransactionCode.fromStr tx
  let originatorSortCode ← sliceText 17 23 line
  let originatorAccount ← sliceText 23 31 line
  let oref ← sliceText 31 35 line
  let oname ← sliceText 46 64 line
  let dref ← sliceText 64 82 line
  let dname ← sliceText 82 100 line
  .ok { destinationSortCode, destinationAccount, accountType, transactionCode
        originatorSortCode, originatorAccount
        originatorReference := trim oref, amountPence := .ofNat amount
        originatorName := trim oname, destinationReference := trim dref
        destinationName := trim dname }

def readLabelOrRecord (f : BacsFile) (line : Text) : Except (Fault Error) BacsFile :=
  if ['V', 'O', 'L', '1'].isPrefixOf line then do
    let sun ← sliceText 4 10 line
    .ok { f with serviceUserNumber := trim sun }
  else if ['H', 'D', 'R', '1'].isPrefixOf line then
    if 25 ≤ line.byteLen then do
      let name ← sliceText 10 24 line
      let day ← sliceText 24 29 line
      .ok { f with originatorName := trim name, processingDayJulian := day }
    else .ok f
  else if ['U', 'H', 'L', '1'].isPrefixOf line then
    if 9 ≤ line.byteLen ∧ f.processingDayJulian = [] then do
      let day ← sliceText 4 9 line
      .ok { f with processingDayJulian := day }
    else .ok f
  else if ['E', 'O', 'F', '1'].isPrefixOf line
      || ['U', 'T', 'L', '1'].isPrefixOf line then .ok f
  else do
    let r ← decodeRecord line
    .ok { f with records := f.records ++ [r] }

/-- One turn of the loop over the lines. -/
def readBacsLine (f : BacsFile) (raw : Text) : Except (Fault Error) BacsFile :=
  let line := trimEndMatches '\r' raw
  if line = [] then .ok f
  else if line.byteLen ≠ bacsRecordLen then
    .error (.err (.recordLength bacsRecordLen line.byteLen))
  else readLabelOrRecord f line

def BacsFile.decode (input : Text) : Except (Fault Error) BacsFile :=
  (lines input).foldlM readBacsLine
    { serviceUserNumber := [], originatorName := [], processingDayJulian := []
      records := [] }

end OpenStandards.OpBatch

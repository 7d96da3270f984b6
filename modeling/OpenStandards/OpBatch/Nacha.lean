/-
The NACHA files of op-batch (`nacha.rs`): the typed file, its encoder and
its decoder.

A record is formatted field by field and its bytes are counted once, by
`pushLine`. The encoder keeps the running totals beside the text it has
written; the decoder slices the columns of each line and keeps the batch
it is in. It ignores lines of nines and empty lines, and stops at the file
control.
-/
import OpenStandards.OpBatch.Records

namespace OpenStandards.OpBatch

open Lib OpCore Text

-- ==== the data

def recordLen : Nat := 94

/-- The Standard Entry Class. -/
inductive SecCode where
  | ppd
  | ccd
  | web
  | tel
  | ctx
deriving DecidableEq

def SecCode.asStr : SecCode → Text
  | .ppd => ['P', 'P', 'D']
  | .ccd => ['C', 'C', 'D']
  | .web => ['W', 'E', 'B']
  | .tel => ['T', 'E', 'L']
  | .ctx => ['C', 'T', 'X']

def SecCode.fromStr (s : Text) : Except (Fault Error) SecCode :=
  if s = ['P', 'P', 'D'] then .ok .ppd
  else if s = ['C', 'C', 'D'] then .ok .ccd
  else if s = ['W', 'E', 'B'] then .ok .web
  else if s = ['T', 'E', 'L'] then .ok .tel
  else if s = ['C', 'T', 'X'] then .ok .ctx
  else .error (fieldRule "sec"
    ("unknown SEC code `" ++ String.ofList s ++ "`"))

/-- The `1` record. -/
structure FileHeader where
  immediateDestination : Text
  immediateOrigin : Text
  fileCreationDate : Text
  fileCreationTime : Text
  fileIdModifier : Char
  immediateDestinationName : Text
  immediateOriginName : Text
  referenceCode : Text
deriving DecidableEq

/-- The `5` record. -/
structure BatchHeader where
  serviceClass : UInt16
  companyName : Text
  companyDiscretionary : Text
  companyId : Text
  sec : SecCode
  companyEntryDescription : Text
  descriptiveDate : Text
  effectiveEntryDate : Text
  originatorStatus : Char
  odfiShort : Text
  batchNumber : UInt32
deriving DecidableEq

/-- The `6` record. -/
structure EntryDetail where
  transactionCode : UInt8
  rdfiRouting : Text
  accountNumber : Text
  amountCents : UInt64
  individualId : Text
  receiverName : Text
  discretionary : Text
  addendaIndicator : Char
  traceNumber : Text
deriving DecidableEq

/-- The `7` record. -/
structure Addenda where
  typeCode : Text
  paymentRelatedInfo : Text
  sequenceNumber : UInt16
  entryDetailSequence : UInt32
deriving DecidableEq

/-- A batch; the addenda stand at the index of their entry. -/
structure NachaBatch where
  header : BatchHeader
  entries : List EntryDetail
  addenda : List (Option Addenda)
deriving DecidableEq

structure NachaFile where
  header : FileHeader
  batches : List NachaBatch
deriving DecidableEq

-- ==== helpers

/-- Append a line of 94 bytes. -/
def pushLine (out line : Text) : Except (Fault Error) Text :=
  if line.byteLen ≠ recordLen then
    .error (.err (.recordLength recordLen line.byteLen))
  else .ok (out ++ line ++ ['\n'])

def parseU64 (s : Text) : Except (Fault Error) Nat :=
  match parseUnsigned (2 ^ 64) s with
  | some n => .ok n
  | none => .error (fieldRule "numeric"
      ("not a u64: `" ++ String.ofList s ++ "`"))

/-- Checking credit, prenote credit, savings credits. -/
def isCredit (txCode : Nat) : Bool :=
  txCode == 22 || txCode == 23 || txCode == 32 || txCode == 33

def validateEntry (e : EntryDetail) : Except (Fault Error) Unit := do
  refuse (e.accountNumber = []) (fieldRule "account_number" "must not be empty")
  refuse (e.receiverName = []) (fieldRule "receiver_name" "must not be empty")

-- ==== encoders

def encodeFileHeader (h : FileHeader) : Except (Fault Error) Text := do
  refuse (h.immediateDestination.byteLen ≠ 10)
    (fieldRule "immediate_destination" "must be 10 chars")
  refuse (h.immediateOrigin.byteLen ≠ 10) (fieldRule "immediate_origin" "must be 10 chars")
  refuse (h.fileCreationDate.byteLen ≠ 6) (fieldRule "file_creation_date" "must be YYMMDD")
  refuse (h.fileCreationTime.byteLen ≠ 4) (fieldRule "file_creation_time" "must be HHMM")
  let destName ← pad h.immediateDestinationName 23
  let origName ← pad h.immediateOriginName 23
  let refCode ← pad h.referenceCode 8
  .ok [['1'], ['0', '1'], padRight 10 h.immediateDestination,
    padRight 10 h.immediateOrigin, h.fileCreationDate, h.fileCreationTime,
    [h.fileIdModifier], ['0', '9', '4'], ['1', '0'], ['1'],
    padRight 23 destName, padRight 23 origName, padRight 8 refCode].flatten

def encodeBatchHeader (h : BatchHeader) (batchNo : Nat) : Except (Fault Error) Text := do
  refuse (h.odfiShort.byteLen ≠ 8) (fieldRule "odfi_short" "must be 8 chars")
  let coName ← pad h.companyName 16
  let discr ← pad h.companyDiscretionary 20
  let coId ← pad h.companyId 10
  let desc ← pad h.companyEntryDescription 10
  let descd ← pad h.descriptiveDate 6
  let eff ← pad h.effectiveEntryDate 6
  .ok [['5'], zeroPad 3 h.serviceClass.toNat, padRight 16 coName,
    padRight 20 discr, padRight 10 coId, h.sec.asStr, padRight 10 desc,
    descd, eff, [' ', ' ', ' '], [h.originatorStatus], h.odfiShort,
    zeroPad 7 batchNo].flatten

def encodeEntry (e : EntryDetail) : Except (Fault Error) Text := do
  refuse (¬ Digits 9 e.rdfiRouting) (fieldRule "rdfi_routing" "must be 9 ASCII digits")
  refuse (e.traceNumber.byteLen ≠ 15) (fieldRule "trace_number" "must be 15 chars")
  let rdfi8 ← sliceText 0 8 e.rdfiRouting
  let check ← sliceText 8 9 e.rdfiRouting
  let acct ← pad e.accountNumber 17
  let ind ← pad e.individualId 15
  let rcv ← pad e.receiverName 22
  let discr ← pad e.discretionary 2
  .ok [['6'], zeroPad 2 e.transactionCode.toNat, rdfi8, check,
    padRight 17 acct, zeroPad 10 e.amountCents.toNat, padRight 15 ind,
    padRight 22 rcv, padRight 2 discr, [e.addendaIndicator],
    e.traceNumber].flatten

/-- The entry's sequence number: the tail of its trace, or else the
addenda's own. -/
def entrySequence (a : Addenda) (traceTail : Text) : Nat :=
  (parseUnsigned (2 ^ 32) traceTail).getD a.entryDetailSequence.toNat

def encodeAddenda (a : Addenda) (parent : EntryDetail) : Except (Fault Error) Text := do
  refuse (a.typeCode.byteLen ≠ 2) (fieldRule "type_code" "must be 2 chars")
  let traceTail ← match takeBytes 8 parent.traceNumber with
    | some front => .ok (parent.traceNumber.drop front.length)
    | none => .error (fieldRule "trace_number" "trace too short")
  let info ← pad a.paymentRelatedInfo 80
  .ok [['7'], a.typeCode, padRight 80 info, zeroPad 4 a.sequenceNumber.toNat,
    zeroPad 7 (entrySequence a traceTail)].flatten

def encodeBatchControl (h : BatchHeader) (batchNo entryCount entryHash debit credit : Nat) :
    Except (Fault Error) Text := do
  let coId ← pad h.companyId 10
  .ok [['8'], zeroPad 3 h.serviceClass.toNat, zeroPad 6 entryCount,
    zeroPad 10 (entryHash % 10 ^ 10), zeroPad 12 debit, zeroPad 12 credit,
    padRight 10 coId, padRight 19 (spaces 19), padRight 6 (spaces 6),
    h.odfiShort, zeroPad 7 batchNo].flatten

def encodeFileControl (batchCount blockCount entryCount entryHash debit credit : Nat) : Text :=
  [['9'], zeroPad 6 batchCount, zeroPad 6 blockCount, zeroPad 8 entryCount,
    zeroPad 10 (entryHash % 10 ^ 10), zeroPad 12 debit, zeroPad 12 credit,
    padRight 39 (spaces 39)].flatten

/-- A line of nines. -/
def filler : Text := List.replicate recordLen '9'

-- ==== the encoder

/-- What the loop over the entries of a batch accumulates. -/
structure Entries where
  out : Text
  records : Nat
  entryHash : Nat
  debit : Nat
  credit : Nat

def pushAddenda (addenda : List (Option Addenda)) (entry : EntryDetail)
    (idx : Nat) (out : Text) (records : Nat) :
    Except (Fault Error) (Text × Nat) :=
  if entry.addendaIndicator = '1' then
    match addenda[idx]? with
    | some (some add) => do
      let line ← encodeAddenda add entry
      let out ← pushLine out line
      let records ← addU32 records 1
      .ok (out, records)
    | _ => .error (fieldRule "addenda" "indicator=1 but no addenda record")
  else .ok (out, records)

def addAmount (debit credit : Nat) (entry : EntryDetail) : Except (Fault Error) (Nat × Nat) :=
  if isCredit entry.transactionCode.toNat then do
    let credit ← checkedAdd credit entry.amountCents.toNat
    .ok (debit, credit)
  else do
    let debit ← checkedAdd debit entry.amountCents.toNat
    .ok (debit, credit)

/-- One turn of the loop over the entries. -/
def pushEntry (addenda : List (Option Addenda)) (acc : Entries)
    (item : EntryDetail × Nat) : Except (Fault Error) Entries := do
  let (entry, idx) := item
  validateEntry entry
  let line ← encodeEntry entry
  let out ← pushLine acc.out line
  let records ← addU32 acc.records 1
  let rdfi8 ← sliceText 0 8 entry.rdfiRouting
  let routing ← parseU64 rdfi8
  let entryHash := (acc.entryHash + routing) % 2 ^ 64
  let (debit, credit) ← addAmount acc.debit acc.credit entry
  let (out, records) ← pushAddenda addenda entry idx out records
  .ok { out, records, entryHash, debit, credit }

/-- What the loop over the batches accumulates. -/
structure Totals where
  out : Text
  records : Nat
  totalEntries : Nat
  totalHash : Nat
  totalDebit : Nat
  totalCredit : Nat

/-- One turn of the loop over the batches. -/
def pushBatch (acc : Totals) (item : NachaBatch × Nat) : Except (Fault Error) Totals := do
  let (batch, i) := item
  let batchNo ← tryU32 (i + 1) "too many batches"
  let line ← encodeBatchHeader batch.header batchNo
  let out ← pushLine acc.out line
  let records ← addU32 acc.records 1
  let es ← batch.entries.zipIdx.foldlM (pushEntry batch.addenda)
    { out, records, entryHash := 0, debit := 0, credit := 0 }
  let entryCount ← tryU32 batch.entries.length "batch entry count overflow"
  let line ← encodeBatchControl batch.header batchNo entryCount es.entryHash
    es.debit es.credit
  let out ← pushLine es.out line
  let records ← addU32 es.records 1
  let totalEntries ← addU32 acc.totalEntries entryCount
  let totalHash := (acc.totalHash + es.entryHash) % 2 ^ 64
  let totalDebit ← checkedAdd acc.totalDebit es.debit
  let totalCredit ← checkedAdd acc.totalCredit es.credit
  .ok { out, records, totalEntries, totalHash, totalDebit, totalCredit }

def pushControl (batches : Nat) (acc : Totals) : Except (Fault Error) Text := do
  let batchCount ← tryU32 batches "batch count overflow"
  let records ← addU32 acc.records 1
  let blockCount := (records + 9) / 10
  let out ← pushLine acc.out (encodeFileControl batchCount blockCount
    acc.totalEntries acc.totalHash acc.totalDebit acc.totalCredit)
  let padding := (10 - records % 10) % 10
  (List.replicate padding filler).foldlM pushLine out

def NachaFile.encode (f : NachaFile) : Except (Fault Error) Text := do
  let line ← encodeFileHeader f.header
  let out ← pushLine [] line
  let acc ← f.batches.zipIdx.foldlM pushBatch
    { out, records := 1, totalEntries := 0, totalHash := 0, totalDebit := 0
      totalCredit := 0 }
  pushControl f.batches.length acc

-- ==== decoders

def decodeFileHeader (line : Text) : Except (Fault Error) FileHeader := do
  let dest ← sliceText 3 13 line
  let orig ← sliceText 13 23 line
  let fileCreationDate ← sliceText 23 29 line
  let fileCreationTime ← sliceText 29 33 line
  let fileIdModifier ← byteChar 33 line
  let destName ← sliceText 40 63 line
  let origName ← sliceText 63 86 line
  let refCode ← sliceText 86 94 line
  .ok { immediateDestination := trim dest, immediateOrigin := trim orig
        fileCreationDate, fileCreationTime, fileIdModifier
        immediateDestinationName := trim destName
        immediateOriginName := trim origName, referenceCode := trim refCode }

def decodeBatchHeader (line : Text) : Except (Fault Error) BatchHeader := do
  let serviceClass ← sliceText 1 4 line
  let serviceClass ← parseField (2 ^ 16) "service_class" serviceClass
  let sec ← sliceText 50 53 line
  let sec ← SecCode.fromStr sec
  let originatorStatus ← byteChar 78 line
  let coName ← sliceText 4 20 line
  let discr ← sliceText 20 40 line
  let coId ← sliceText 40 50 line
  let desc ← sliceText 53 63 line
  let descriptiveDate ← sliceText 63 69 line
  let effectiveEntryDate ← sliceText 69 75 line
  let odfiShort ← sliceText 79 87 line
  let batchNumber ← sliceText 87 94 line
  let batchNumber ← parseField (2 ^ 32) "batch_number" batchNumber
  .ok { serviceClass := .ofNat serviceClass, companyName := trim coName
        companyDiscretionary := trim discr, companyId := trim coId, sec
        companyEntryDescription := trim desc, descriptiveDate
        effectiveEntryDate, originatorStatus, odfiShort
        batchNumber := .ofNat batchNumber }

def decodeEntry (line : Text) : Except (Fault Error) EntryDetail := do
  let tx ← sliceText 1 3 line
  let tx ← parseField (2 ^ 8) "transaction_code" tx
  let amount ← sliceText 29 39 line
  let amount ← parseField (2 ^ 64) "amount" amount
  let rdfiRouting ← sliceText 3 12 line
  let acct ← sliceText 12 29 line
  let ind ← sliceText 39 54 line
  let rcv ← sliceText 54 76 line
  let discr ← sliceText 76 78 line
  let addendaIndicator ← byteChar 78 line
  let traceNumber ← sliceText 79 94 line
  .ok { transactionCode := .ofNat tx, rdfiRouting, accountNumber := trim acct
        amountCents := .ofNat amount, individualId := trim ind
        receiverName := trim rcv, discretionary := trim discr
        addendaIndicator, traceNumber }

def decodeAddenda (line : Text) : Except (Fault Error) Addenda := do
  let seq ← sliceText 83 87 line
  let seq ← parseField (2 ^ 16) "seq" seq
  let entrySeq ← sliceText 87 94 line
  let entrySeq ← parseField (2 ^ 32) "entry_seq" entrySeq
  let typeCode ← sliceText 1 3 line
  let info ← sliceText 3 83 line
  .ok { typeCode, paymentRelatedInfo := trim info
        sequenceNumber := .ofNat seq, entryDetailSequence := .ofNat entrySeq }

-- ==== the decoder

/-- What the loop over the lines accumulates. -/
structure Reader where
  header : Option FileHeader
  batches : List NachaBatch
  curBatch : Option NachaBatch

def NachaBatch.setLastAddenda (b : NachaBatch) (add : Addenda) : NachaBatch :=
  if b.addenda = [] then b
  else { b with addenda := b.addenda.dropLast ++ [some add] }

/-- `cur_batch.as_mut().ok_or_else(..)`. -/
def Reader.current (r : Reader) (msg : String) : Except (Fault Error) NachaBatch :=
  match r.curBatch with
  | some b => .ok b
  | none => .error (invalid msg)

def readRecord (r : Reader) (line : Text) : Except (Fault Error) (Option Reader) := do
  let kind ← sliceText 0 1 line
  if kind = ['1'] then do
    let header ← decodeFileHeader line
    .ok (some { r with header := some header })
  else if kind = ['5'] then do
    refuse (r.curBatch.isSome = true) (invalid "batch header without prior control")
    let header ← decodeBatchHeader line
    .ok (some { r with curBatch := some { header, entries := []
                                          addenda := [] } })
  else if kind = ['6'] then do
    let b ← r.current "entry outside a batch"
    let entry ← decodeEntry line
    .ok (some { r with
      curBatch := some { b with
        entries := b.entries ++ [entry], addenda := b.addenda ++ [none] } })
  else if kind = ['7'] then do
    let b ← r.current "addenda outside a batch"
    let add ← decodeAddenda line
    .ok (some { r with curBatch := some (b.setLastAddenda add) })
  else if kind = ['8'] then do
    let b ← r.current "batch control without batch header"
    .ok (some { r with batches := r.batches ++ [b], curBatch := none })
  else if kind = ['9'] then .ok none
  else .error (invalid
    ("unknown record kind `" ++ String.ofList kind ++ "`"))

def readLines (r : Reader) : List Text → Except (Fault Error) Reader
  | [] => .ok r
  | raw :: rest =>
    let line := trimEndMatches '\r' raw
    if line.all (· == '9') = true ∧ line.byteLen = recordLen then
      readLines r rest
    else if line = [] then readLines r rest
    else if line.byteLen ≠ recordLen then
      .error (.err (.recordLength recordLen line.byteLen))
    else do
      match ← readRecord r line with
      | some r' => readLines r' rest
      | none => .ok r

def NachaFile.decode (input : Text) : Except (Fault Error) NachaFile := do
  let r ← readLines { header := none, batches := [], curBatch := none }
    (lines input)
  match r.header with
  | some header => .ok { header, batches := r.batches }
  | none => .error (invalid "no file header")

end OpenStandards.OpBatch

/-
The statement writers (op-statements `iso20022.rs`, `mt940.rs`,
`bai2.rs`).

A writer's text is a list of lines. What it writes for one statement line
is a record of its own with the direction and the amount as written, and
the text is spelled from the records; so a reader of a file and a proof
look at the same thing. Texts are lists of characters.
-/
import OpenStandards.OpStatements.Statement

namespace OpenStandards.OpStatements

open Lib OpCore

-- ==== spelling

/-- An `i64` in decimal. -/
def signedText (x : Int) : Text :=
  if x < 0 then '-' :: Nat.toDigits 10 x.natAbs else Nat.toDigits 10 x.natAbs

/-- An amount with the currency's decimal places, after the separator. -/
def formatAmount (separator : Text) (minor : I64) (exponent : Nat) : Text :=
  let divisor : Int := 10 ^ exponent
  signedText (minor.val.tdiv divisor) ++ separator
    ++ Text.zeroPad exponent (minor.val.tmod divisor).natAbs

/-- `format_minor` -/
def formatMinor (minor : I64) (exponent : Nat) : Text :=
  if exponent = 0 then signedText minor.val
  else formatAmount ['.'] minor exponent

/-- `format_swift_amount` -/
def formatSwiftAmount (minor : I64) (exponent : Nat) : Text :=
  if exponent = 0 then signedText minor.val ++ [',']
  else formatAmount [','] minor exponent

def unixToIso8601 (unixSecs : Nat) : Text :=
  let days := unixSecs / 86400
  let hms := unixSecs % 86400
  let z := days + 719468
  let era := z / 146097
  let doe := z - era * 146097
  let yoe := (doe - doe / 1460 + doe / 36524 - doe / 146096) / 365
  let y := yoe + era * 400
  let doy := doe - (365 * yoe + yoe / 4 - yoe / 100)
  let mp := (5 * doy + 2) / 153
  let d := doy - (153 * mp + 2) / 5 + 1
  let m := if mp < 10 then mp + 3 else mp - 9
  let y := if m ≤ 2 then y + 1 else y
  Text.zeroPad 4 y ++ ['-'] ++ Text.zeroPad 2 m ++ ['-'] ++ Text.zeroPad 2 d
    ++ ['T'] ++ Text.zeroPad 2 (hms / 3600) ++ [':']
    ++ Text.zeroPad 2 (hms % 3600 / 60) ++ [':']
    ++ Text.zeroPad 2 (hms % 60) ++ ['Z']

example : String.ofList (unixToIso8601 1735689600) = "2025-01-01T00:00:00Z" := by
  decide +kernel

def unixToYymmdd (unixSecs : Nat) : Text :=
  let iso := unixToIso8601 unixSecs
  if iso.length < 10 then "000000".toList
  else Text.column 2 2 iso ++ Text.column 5 2 iso ++ Text.column 8 2 iso

def unixToHhmm (unixSecs : Nat) : Text :=
  let iso := unixToIso8601 unixSecs
  if iso.length < 16 then "0000".toList
  else Text.column 11 2 iso ++ Text.column 14 2 iso

/-- `Debug` of a line kind. -/
def StatementLineKind.debug : StatementLineKind → Text
  | .grossCapture => "GrossCapture".toList
  | .refund => "Refund".toList
  | .chargeback => "Chargeback".toList
  | .fee => "Fee".toList
  | .payout => "Payout".toList
  | .adjustment => "Adjustment".toList

def StatementLine.isDebit (line : StatementLine) : Bool :=
  line.kind.isOutflow
    || (decide (line.kind = .adjustment)
      && decide (line.amount.minorUnits.val < 0))

-- ==== camt.053

/-- `CdtDbtInd` -/
inductive CreditDebit where
  | CRDT
  | DBIT
deriving DecidableEq

def CreditDebit.text : CreditDebit → Text
  | .CRDT => "CRDT".toList
  | .DBIT => "DBIT".toList

def xmlEscape (s : Text) : Text :=
  s.flatMap fun
    | '&' => "&amp;".toList
    | '<' => "&lt;".toList
    | '>' => "&gt;".toList
    | '"' => "&quot;".toList
    | '\'' => "&apos;".toList
    | c => [c]

/-- `<name>content</name>` after so many blanks. -/
def element (indent : Nat) (name : String) (content : Text) : Text :=
  List.replicate indent ' ' ++ ['<'] ++ name.toList ++ ['>'] ++ content
    ++ "</".toList ++ name.toList ++ ['>']

def amountElement (currency : Currency) (amount : Text) : Text :=
  "        <Amt Ccy=\"".toList ++ currency.code.toList ++ "\">".toList
    ++ amount ++ "</Amt>".toList

namespace Camt053

/-- One `Ntry`. -/
structure Entry where
  ntryRef : Option Text
  currency : Currency
  amount : I64
  cdtDbtInd : CreditDebit
  postedAtUnixSecs : Nat
  kind : StatementLineKind

def entry (line : StatementLine) : Entry where
  ntryRef := line.externalId.map fun ext => xmlEscape ext.toList
  currency := line.amount.currency
  amount := line.amount.minorUnits.abs
  cdtDbtInd := if line.isDebit then .DBIT else .CRDT
  postedAtUnixSecs := line.postedAtUnixSecs
  kind := line.kind

def Entry.lines (e : Entry) : List Text :=
  ["      <Ntry>".toList]
    ++ (match e.ntryRef with
      | some ref => [element 8 "NtryRef" ref]
      | none => [])
    ++ [amountElement e.currency (formatMinor e.amount e.currency.exponent),
      element 8 "CdtDbtInd" e.cdtDbtInd.text,
      "        <Sts><Cd>BOOK</Cd></Sts>".toList,
      element 8 "BookgDt" (element 0 "DtTm" (unixToIso8601 e.postedAtUnixSecs)),
      element 8 "ValDt" (element 0 "DtTm" (unixToIso8601 e.postedAtUnixSecs)),
      element 8 "AddtlNtryInf" e.kind.debug,
      "      </Ntry>".toList]

def writeBalance (typeCode : String) (money : Money) : List Text :=
  ["      <Bal>".toList,
    "        <Tp><CdOrPrtry><Cd>".toList ++ typeCode.toList ++ "</Cd></CdOrPrtry></Tp>".toList,
    amountElement money.currency (formatMinor money.minorUnits.abs money.currency.exponent),
    element 8 "CdtDbtInd"
      (if money.minorUnits.val < 0 then CreditDebit.DBIT.text
        else CreditDebit.CRDT.text),
    "      </Bal>".toList]

def entries (s : Statement) : List Entry := s.lines.map entry

/-- Serialize a statement as `camt.053`. -/
def build (s : Statement) : Text :=
  Text.unlines (["<?xml version=\"1.0\" encoding=\"UTF-8\"?>".toList,
      ("<Document xmlns=\"urn:iso:std:iso:20022:tech:xsd:camt.053.001.13" ++ "\">").toList,
      "  <BkToCstmrStmt>".toList,
      "    <GrpHdr>".toList,
      element 6 "MsgId" (xmlEscape s.id.toList),
      element 6 "CreDtTm" (unixToIso8601 s.period.endUnixSecs),
      "    </GrpHdr>".toList,
      "    <Stmt>".toList,
      element 6 "Id" (xmlEscape s.id.toList),
      element 6 "CreDtTm" (unixToIso8601 s.period.endUnixSecs),
      "      <FrToDt>".toList,
      element 8 "FrDtTm" (unixToIso8601 s.period.startUnixSecs),
      element 8 "ToDtTm" (unixToIso8601 s.period.endUnixSecs),
      "      </FrToDt>".toList,
      "      <Acct>".toList,
      "        <Id>".toList,
      "          <Othr>".toList,
      element 12 "Id" (xmlEscape s.merchantId.toList),
      "          </Othr>".toList,
      "        </Id>".toList,
      element 8 "Ccy" s.primaryCurrency.code.toList,
      "      </Acct>".toList]
    ++ writeBalance "OPBD" s.primaryAggregate.opening
    ++ writeBalance "CLBD" s.primaryAggregate.ending
    ++ (entries s).flatMap Entry.lines
    ++ ["    </Stmt>".toList, "  </BkToCstmrStmt>".toList, "</Document>".toList])

end Camt053

-- ==== MT940

namespace Mt940

/-- `truncate`: at most `n` bytes; `none` where the cut would split a
character, where the source panics. -/
def truncate (s : Text) (n : Nat) : Option Text :=
  if s.byteLen ≤ n then some s else s.takeBytes n

/-- The mark of a balance and its magnitude. -/
def signedForSwift (minor : I64) : CreditDebit × I64 :=
  if minor.val < 0 then (.DBIT, minor.abs) else (.CRDT, minor)

def signedForSwiftLine (kind : StatementLineKind) (minor : I64) : CreditDebit × I64 :=
  match kind with
  | .grossCapture => (.CRDT, minor.abs)
  | .refund | .chargeback | .fee | .payout => (.DBIT, minor.abs)
  | .adjustment => signedForSwift minor

/-- `"C"` or `"D"` -/
def mark : CreditDebit → Text
  | .CRDT => ['C']
  | .DBIT => ['D']

def transactionType : StatementLineKind → Text
  | .grossCapture => "NTRF".toList
  | .refund => "NRTI".toList
  | .chargeback => "NCHG".toList
  | .fee => "NCOM".toList
  | .payout => "NTRF".toList
  | .adjustment => "NMSC".toList

/-- One `:61:` line with its `:86:` line. -/
structure Entry where
  entryDate : Text
  sign : CreditDebit
  amount : I64
  exponent : Nat
  kind : StatementLineKind
  reference : Text
  source : Text
  ext : Text

def entry (line : StatementLine) : Option Entry := do
  let (sign, amount) := signedForSwiftLine line.kind line.amount.minorUnits
  let source ← truncate line.id.toList 16
  return { entryDate := unixToYymmdd line.postedAtUnixSecs
           sign, amount
           exponent := line.amount.currency.exponent
           kind := line.kind
           reference := (line.externalId.getD line.id).toList
           source
           ext := (line.externalId.getD "").toList }

def Entry.lines (e : Entry) : List Text :=
  [":61:".toList ++ e.entryDate ++ e.entryDate.drop 2 ++ mark e.sign
      ++ formatSwiftAmount e.amount e.exponent ++ transactionType e.kind
      ++ e.reference ++ "//".toList ++ e.source,
    ":86:".toList ++ e.kind.debug ++ " ext=".toList ++ e.ext]

def entries (s : Statement) : Option (List Entry) := s.lines.mapM entry

/-- `:60F:` and `:62F:` -/
def balance (tag : String) (date : Text) (money : Money) : Text :=
  let (sign, amount) := signedForSwift money.minorUnits
  tag.toList ++ mark sign ++ date ++ money.currency.code.toList
    ++ formatSwiftAmount amount money.currency.exponent

def summary (lines : List StatementLine) : I64 × I64 :=
  lines.foldl (fun (debits, credits) line =>
    let amount := line.amount.minorUnits.abs
    if line.isDebit then (debits.saturatingAdd amount, credits)
    else (debits, credits.saturatingAdd amount)) (0, 0)

/-- `:90D:` and `:90C:` -/
def counter (tag : String) (count : Nat) (currency : Currency) (amount : I64) : Text :=
  tag.toList ++ Nat.toDigits 10 count ++ currency.code.toList
    ++ formatSwiftAmount amount currency.exponent

def build (intraDay : Bool) (s : Statement) : Option Text := do
  let id ← truncate s.id.toList 16
  let merchantId ← truncate s.merchantId.toList 35
  let entries ← entries s
  let primary := s.primaryAggregate
  let (debits, credits) := summary s.lines
  return Text.unlines ([":20:".toList ++ id, ":25:".toList ++ merchantId, ":28C:1/1".toList]
    ++ (if intraDay then []
      else [balance ":60F:" (unixToYymmdd s.period.startUnixSecs)
        primary.opening])
    ++ entries.flatMap Entry.lines
    ++ (if intraDay then
        [counter ":90D:" (s.lines.countP fun l => l.kind.isOutflow)
          s.primaryCurrency debits,
          counter ":90C:"
            (s.lines.countP fun l => decide (l.kind = .grossCapture))
            s.primaryCurrency credits]
      else [balance ":62F:" (unixToYymmdd s.period.endUnixSecs)
        primary.ending]))

end Mt940

-- ==== BAI2

namespace Bai2

/-- The writer's identifiers. -/
structure Writer where
  senderId : Text
  receiverId : Text

def typeCode : StatementLineKind → Text × Bool
  | .grossCapture => ("142".toList, true)
  | .refund => ("451".toList, false)
  | .chargeback => ("506".toList, false)
  | .fee => ("720".toList, false)
  | .payout => ("195".toList, false)
  | .adjustment => ("399".toList, true)

inductive Record where
  | fileHeader (sender receiver yymmdd hhmm : Text)
  | groupHeader (receiver sender yymmdd hhmm : Text) (currency : Currency)
  | account (merchant : Text) (currency : Currency) (opening closing : I64)
  | transaction (code : Text) (amount : I64) (ext : Text)
  | accountTrailer (control : I64) (records : UInt32)
  | groupTrailer (control : I64) (records : UInt32)
  | fileTrailer (control : I64) (records : UInt32)
deriving DecidableEq

namespace Record

/-- Fields after the record code, separated by commas. -/
def fields (code : String) (fs : List Text) : Text :=
  code.toList ++ fs.flatMap fun f => ',' :: f

def text : Record → Text
  | .fileHeader sender receiver yymmdd hhmm =>
    fields "01" [sender, receiver, yymmdd, hhmm, ['1'], [], [], "2/".toList]
  | .groupHeader receiver sender yymmdd hhmm currency =>
    fields "02" [receiver, sender, ['1'], yymmdd, hhmm, currency.code.toList, ['/']]
  | .account merchant currency opening closing =>
    fields "03" [merchant, currency.code.toList, "010".toList,
      signedText opening.val, [], [], "015".toList, signedText closing.val,
      [], ['/']]
  | .transaction code amount ext =>
    fields "16" [code, signedText amount.val, ['Z'], ext, [], ['/']]
  | .accountTrailer control records =>
    fields "49" [signedText control.val, Nat.toDigits 10 records.toNat ++ ['/']]
  | .groupTrailer control records =>
    fields "98" [signedText control.val, ['1'], Nat.toDigits 10 records.toNat ++ ['/']]
  | .fileTrailer control records =>
    fields "99" [signedText control.val, ['1'], Nat.toDigits 10 records.toNat ++ ['/']]

end Record

/-- The `16` record of a line. -/
def transaction (line : StatementLine) : Record :=
  .transaction (typeCode line.kind).1 line.amount.minorUnits.abs
    (line.externalId.getD "").toList

/-- The locals of the loop. -/
structure Totals where
  txCount : UInt32
  credits : I64
  debits : I64

/-- One turn of the loop. -/
def Totals.add (t : Totals) (line : StatementLine) : Totals :=
  let amount := line.amount.minorUnits.abs
  let t :=
    if (typeCode line.kind).2 then
      { t with credits := t.credits.saturatingAdd amount }
    else { t with debits := t.debits.saturatingAdd amount }
  { t with txCount := saturatingAddU32 t.txCount 1 }

def records (w : Writer) (s : Statement) : List Record :=
  let sender := if w.senderId.isEmpty then "OPENPAY".toList else w.senderId
  let receiver :=
    if w.receiverId.isEmpty then "MERCHANT".toList else w.receiverId
  let yymmdd := unixToYymmdd s.period.endUnixSecs
  let hhmm := unixToHhmm s.period.endUnixSecs
  let primary := s.primaryAggregate
  let t := s.lines.foldl Totals.add ⟨0, 0, 0⟩
  let accountControl := t.credits.saturatingAdd t.debits
  let accountRecords := 3 + t.txCount
  [.fileHeader sender receiver yymmdd hhmm,
      .groupHeader receiver sender yymmdd hhmm s.primaryCurrency,
      .account s.merchantId.toList s.primaryCurrency
        primary.opening.minorUnits primary.ending.minorUnits]
    ++ s.lines.map transaction
    ++ [.accountTrailer accountControl accountRecords,
      .groupTrailer accountControl (accountRecords + 2),
      .fileTrailer accountControl (accountRecords + 4)]

def build (w : Writer) (s : Statement) : Text :=
  Text.unlines ((records w s).map Record.text)

end Bai2

end OpenStandards.OpStatements

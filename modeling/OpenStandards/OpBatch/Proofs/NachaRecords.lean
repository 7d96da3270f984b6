/-
The records of op-batch's NACHA encoder, one by one.

A `Record` is a list of column widths and of the fields written into
them. `pushLine` only counts the bytes of the line, but no field is
narrower than its column, so a line that passes is an exact record
(`exact_of_push`). For texts of printable ASCII each encoder then either
refuses or writes its record (`encodeFileHeader_ok_iff` and its siblings),
and what it asks of the texts it does not pad is `Valid`.
-/
import OpenStandards.OpBatch.Nacha

namespace OpenStandards.OpBatch

open Lib OpCore Text

-- ==== records

/-- The widths of the columns of a record and the fields in them. -/
structure Record where
  widths : List Nat
  fields : List Text

namespace Record

def text (r : Record) : Text := r.fields.flatten

/-- The columns make up a line and every field fills its column. -/
def Exact (r : Record) : Prop :=
  r.widths.sum = recordLen ∧ List.Forall₂ Fills r.widths r.fields

/-- The columns make up a line and no field is narrower than its
column. -/
def Wide (r : Record) : Prop :=
  r.widths.sum = recordLen ∧ List.Forall₂ (fun w f => w ≤ f.length) r.widths r.fields

variable {r : Record}

theorem Exact.length (h : r.Exact) : r.text.length = recordLen :=
  (length_fields h.2).trans h.1

theorem Exact.ascii (h : r.Exact) : Ascii r.text :=
  ascii_flatten h.2

theorem Exact.byteLen (h : r.Exact) : r.text.byteLen = recordLen :=
  ((byteLen_eq_length_iff _).2 h.ascii).trans h.length

theorem Wide.exact_iff (h : r.Wide) : r.text.byteLen = recordLen ↔ r.Exact := by
  rw [text, Exact, ← h.1, byteLen_fields_iff h.2]
  exact (and_iff_right rfl).symm

theorem Exact.fields_eq {q : Record} (hr : r.Exact) (hq : q.Exact)
    (hw : r.widths = q.widths) (h : r.text = q.text) : r.fields = q.fields :=
  fields_inj hr.2 (hw ▸ hq.2) h

theorem printable_text (h : ∀ f ∈ r.fields, PrintableText f) : PrintableText r.text := by
  intro c hc
  obtain ⟨f, hf, hcf⟩ := List.mem_flatten.1 hc
  exact h f hf c hcf

end Record

def writeRecords (rs : List Record) : Text := unlines (rs.map Record.text)

@[simp]
theorem writeRecords_nil : writeRecords [] = [] := rfl

@[simp]
theorem writeRecords_append (rs qs : List Record) :
    writeRecords (rs ++ qs) = writeRecords rs ++ writeRecords qs := by
  simp [writeRecords]

variable {line : Text} {e : EntryDetail} {a : Addenda}

theorem pushLine_ok_iff {out out' : Text} :
    pushLine out line = .ok out' ↔ line.byteLen = recordLen ∧ out' = out ++ unlines [line] := by
  unfold pushLine
  by_cases hlen : line.byteLen = recordLen
  · rw [if_neg (not_not.2 hlen), Except.ok.injEq]
    simp [hlen, eq_comm]
  · rw [if_pos hlen]
    exact iff_of_false nofun fun h => hlen h.1

theorem exact_of_push {r : Record} (hwide : r.Wide) {out out' : Text}
    (h : pushLine out r.text = .ok out') :
    r.Exact ∧ out' = out ++ writeRecords [r] := by
  obtain ⟨hlen, hout⟩ := pushLine_ok_iff.1 h
  exact ⟨hwide.exact_iff.1 hlen, hout⟩

theorem push_of_exact {r : Record} (h : r.Exact) (out : Text) :
    pushLine out r.text = .ok (out ++ writeRecords [r]) :=
  pushLine_ok_iff.2 ⟨h.byteLen, rfl⟩

-- ==== the texts

def FileHeader.texts (h : FileHeader) : List Text :=
  [h.immediateDestination, h.immediateOrigin, h.fileCreationDate,
    h.fileCreationTime, [h.fileIdModifier], h.immediateDestinationName,
    h.immediateOriginName, h.referenceCode]

def BatchHeader.texts (h : BatchHeader) : List Text :=
  [h.companyName, h.companyDiscretionary, h.companyId,
    h.companyEntryDescription, h.descriptiveDate, h.effectiveEntryDate,
    [h.originatorStatus], h.odfiShort]

def EntryDetail.texts (e : EntryDetail) : List Text :=
  [e.rdfiRouting, e.accountNumber, e.individualId, e.receiverName,
    e.discretionary, [e.addendaIndicator], e.traceNumber]

def Addenda.texts (a : Addenda) : List Text :=
  [a.typeCode, a.paymentRelatedInfo]

def NachaBatch.texts (b : NachaBatch) : List Text :=
  b.header.texts ++ b.entries.flatMap EntryDetail.texts ++
    b.addenda.flatMap fun add => add.toList.flatMap Addenda.texts

def NachaFile.texts (f : NachaFile) : List Text :=
  f.header.texts ++ f.batches.flatMap NachaBatch.texts

-- ==== file header

def FileHeader.Valid (h : FileHeader) : Prop :=
  h.immediateDestination.length = 10 ∧ h.immediateOrigin.length = 10 ∧
    h.fileCreationDate.length = 6 ∧ h.fileCreationTime.length = 4

/-- The `1` record. -/
def FileHeader.record (h : FileHeader) : Record where
  widths := [1, 2, 10, 10, 6, 4, 1, 3, 2, 1, 23, 23, 8]
  fields := [['1'], ['0', '1'], h.immediateDestination, h.immediateOrigin,
    h.fileCreationDate, h.fileCreationTime, [h.fileIdModifier],
    ['0', '9', '4'], ['1', '0'], ['1'], cut 23 h.immediateDestinationName,
    cut 23 h.immediateOriginName, cut 8 h.referenceCode]

theorem encodeFileHeader_ok_iff {h : FileHeader} (hp : AllPrintable h.texts) :
    encodeFileHeader h = .ok line ↔ h.Valid ∧ line = h.record.text := by
  simp only [AllPrintable, FileHeader.texts, List.forall_mem_cons] at hp
  obtain ⟨hdest, horig, hdate, htime, -, hdn, hon, href, -⟩ := hp
  simp only [encodeFileHeader, refuse_bind_eq_ok, not_not, ne_eq,
    hdest.length_eq, horig.length_eq, hdate.length_eq, htime.length_eq,
    pad_of_printable hdn, pad_of_printable hon, pad_of_printable href,
    ok_bind, padRight_cut, Except.ok.injEq]
  constructor
  · intro h
    rcases h with ⟨h1, h2, h3, h4, rfl⟩
    refine ⟨⟨h1, h2, h3, h4⟩, ?_⟩
    rw [padRight_of_length_le (Nat.le_of_eq h1.symm),
      padRight_of_length_le (Nat.le_of_eq h2.symm)]
    rfl
  · intro h
    rcases h with ⟨⟨h1, h2, h3, h4⟩, rfl⟩
    refine ⟨h1, h2, h3, h4, ?_⟩
    rw [padRight_of_length_le (Nat.le_of_eq h1.symm),
      padRight_of_length_le (Nat.le_of_eq h2.symm)]
    rfl

theorem FileHeader.Valid.wide {h : FileHeader} (hv : h.Valid) : h.record.Wide := by
  obtain ⟨h1, h2, h3, h4⟩ := hv
  refine ⟨rfl, ?_⟩
  simp [FileHeader.record, h1, h2, h3, h4]

-- ==== batch header

/-- The `5` record. -/
def BatchHeader.record (h : BatchHeader) (batchNo : Nat) : Record where
  widths := [1, 3, 16, 20, 10, 3, 10, 6, 6, 3, 1, 8, 7]
  fields := [['5'], zeroPad 3 h.serviceClass.toNat, cut 16 h.companyName,
    cut 20 h.companyDiscretionary, cut 10 h.companyId, h.sec.asStr,
    cut 10 h.companyEntryDescription, cut 6 h.descriptiveDate,
    cut 6 h.effectiveEntryDate, [' ', ' ', ' '], [h.originatorStatus],
    h.odfiShort, zeroPad 7 batchNo]

theorem encodeBatchHeader_ok_iff {h : BatchHeader} (hp : AllPrintable h.texts) {batchNo : Nat} :
    encodeBatchHeader h batchNo = .ok line ↔
      h.odfiShort.length = 8 ∧ line = (h.record batchNo).text := by
  simp only [AllPrintable, BatchHeader.texts, List.forall_mem_cons] at hp
  obtain ⟨hname, hdiscr, hid, hdesc, hdescd, heff, -, hodfi, -⟩ := hp
  simp only [encodeBatchHeader, refuse_bind_eq_ok, not_not, ne_eq,
    hodfi.length_eq, pad_of_printable hname, pad_of_printable hdiscr,
    pad_of_printable hid, pad_of_printable hdesc, pad_of_printable hdescd,
    pad_of_printable heff, ok_bind, padRight_cut, Except.ok.injEq]
  exact and_congr_right fun _ => eq_comm

theorem SecCode.fills (sec : SecCode) : Fills 3 sec.asStr := by
  cases sec with
  | ppd => decide
  | ccd => decide
  | web => decide
  | tel => decide
  | ctx => decide

theorem SecCode.length_asStr (sec : SecCode) : sec.asStr.length = 3 :=
  sec.fills.1

theorem batchHeader_wide {h : BatchHeader} {batchNo : Nat}
    (hodfi : h.odfiShort.length = 8) : (h.record batchNo).Wide := by
  refine ⟨rfl, ?_⟩
  simp [BatchHeader.record, hodfi, le_length_zeroPad, h.sec.length_asStr]

-- ==== entries

def EntryDetail.Valid (e : EntryDetail) : Prop :=
  e.accountNumber ≠ [] ∧ e.receiverName ≠ [] ∧ Digits 9 e.rdfiRouting ∧
    e.traceNumber.length = 15

/-- The `6` record. -/
def EntryDetail.record (e : EntryDetail) : Record where
  widths := [1, 2, 8, 1, 17, 10, 15, 22, 2, 1, 15]
  fields := [['6'], zeroPad 2 e.transactionCode.toNat,
    e.rdfiRouting.take 8, e.rdfiRouting.drop 8, cut 17 e.accountNumber,
    zeroPad 10 e.amountCents.toNat, cut 15 e.individualId,
    cut 22 e.receiverName, cut 2 e.discretionary, [e.addendaIndicator],
    e.traceNumber]

theorem validateEntry_ok_iff (e : EntryDetail) {u : Unit} :
    validateEntry e = .ok u ↔ e.accountNumber ≠ [] ∧ e.receiverName ≠ [] := by
  simp only [validateEntry, refuse_bind_eq_ok, refuse_eq_ok, ne_eq]

/-- The eight digits of a routing number, and the ninth. -/
theorem sliceText_rdfi {ε : Type} {s : Text} (h : Digits 9 s) :
    sliceText 0 8 s = (.ok (s.take 8) : Except (Fault ε) _) ∧
      sliceText 8 9 s = (.ok (s.drop 8) : Except (Fault ε) _) := by
  have hlen := h.length
  rw [sliceText_of_ascii h.ascii (by decide) (by omega),
    sliceText_of_ascii h.ascii (by decide) (by omega)]
  refine ⟨rfl, ?_⟩
  rw [column, List.take_of_length_le (by rw [List.length_drop]; omega)]

theorem encodeEntry_ok_iff (hp : AllPrintable e.texts) :
    encodeEntry e = .ok line ↔
      Digits 9 e.rdfiRouting ∧ e.traceNumber.length = 15 ∧ line = e.record.text := by
  simp only [AllPrintable, EntryDetail.texts, List.forall_mem_cons] at hp
  obtain ⟨-, hacct, hind, hrcv, hdiscr, -, htrace, -⟩ := hp
  simp only [encodeEntry, refuse_bind_eq_ok, not_not, ne_eq, htrace.length_eq]
  refine and_congr_right fun hrdfi => and_congr_right fun _ => ?_
  simp only [sliceText_rdfi hrdfi, pad_of_printable hacct,
    pad_of_printable hind, pad_of_printable hrcv, pad_of_printable hdiscr,
    ok_bind, padRight_cut, Except.ok.injEq]
  exact eq_comm

theorem EntryDetail.Valid.wide (hv : e.Valid) : e.record.Wide := by
  have hlen := hv.2.2.1.length
  refine ⟨rfl, ?_⟩
  simp [EntryDetail.record, hv.2.2.2, hlen, le_length_zeroPad]

-- ==== addenda

def EntryDetail.traceTail (e : EntryDetail) : Text := e.traceNumber.drop 8

/-- The `7` record. -/
def Addenda.record (a : Addenda) (parent : EntryDetail) : Record where
  widths := [1, 2, 80, 4, 7]
  fields := [['7'], a.typeCode, cut 80 a.paymentRelatedInfo,
    zeroPad 4 a.sequenceNumber.toNat,
    zeroPad 7 (entrySequence a parent.traceTail)]

theorem encodeAddenda_ok_iff (hp : AllPrintable a.texts)
    {parent : EntryDetail} (htrace : PrintableText parent.traceNumber)
    (hlen : parent.traceNumber.length = 15) :
    encodeAddenda a parent = .ok line ↔
      a.typeCode.length = 2 ∧ line = (a.record parent).text := by
  simp only [AllPrintable, Addenda.texts, List.forall_mem_cons] at hp
  obtain ⟨htype, hinfo, -⟩ := hp
  have htail : (parent.traceNumber.take 8).length = 8 := by
    rw [List.length_take]
    omega
  simp only [encodeAddenda, refuse_bind_eq_ok, not_not, ne_eq,
    htype.length_eq, takeBytes_of_ascii htrace.ascii
      (show 8 ≤ parent.traceNumber.length by omega), htail,
    pad_of_printable hinfo, ok_bind, padRight_cut, Except.ok.injEq]
  exact and_congr_right fun _ => eq_comm

theorem addenda_wide {parent : EntryDetail} (h : a.typeCode.length = 2) :
    (a.record parent).Wide := by
  refine ⟨rfl, ?_⟩
  simp [Addenda.record, h, le_length_zeroPad]

-- ==== controls

/-- What a control record says of the entries. -/
structure Tally where
  count : Nat
  hash : Nat
  debit : Nat
  credit : Nat

/-- The `8` record. -/
def BatchHeader.control (h : BatchHeader) (batchNo : Nat) (t : Tally) : Record where
  widths := [1, 3, 6, 10, 12, 12, 10, 19, 6, 8, 7]
  fields := [['8'], zeroPad 3 h.serviceClass.toNat, zeroPad 6 t.count,
    zeroPad 10 (t.hash % 10 ^ 10), zeroPad 12 t.debit, zeroPad 12 t.credit,
    cut 10 h.companyId, spaces 19, spaces 6, h.odfiShort, zeroPad 7 batchNo]

theorem encodeBatchControl_eq {h : BatchHeader} (hp : AllPrintable h.texts)
    (batchNo : Nat) (t : Tally) :
    encodeBatchControl h batchNo t.count t.hash t.debit t.credit
      = .ok (h.control batchNo t).text := by
  have hid : PrintableText h.companyId := hp _ (by simp [BatchHeader.texts])
  simp only [encodeBatchControl, pad_of_printable hid, ok_bind, padRight_cut]
  rfl

theorem batchControl_wide {h : BatchHeader} (batchNo : Nat) (t : Tally)
    (hodfi : h.odfiShort.length = 8) : (h.control batchNo t).Wide := by
  refine ⟨rfl, ?_⟩
  simp [BatchHeader.control, hodfi, le_length_zeroPad, spaces]

/-- The `9` record. -/
def fileControl (batchCount blockCount : Nat) (t : Tally) : Record where
  widths := [1, 6, 6, 8, 10, 12, 12, 39]
  fields := [['9'], zeroPad 6 batchCount, zeroPad 6 blockCount,
    zeroPad 8 t.count, zeroPad 10 (t.hash % 10 ^ 10), zeroPad 12 t.debit,
    zeroPad 12 t.credit, spaces 39]

theorem fileControl_wide (batchCount blockCount : Nat) (t : Tally) :
    (fileControl batchCount blockCount t).Wide := by
  refine ⟨rfl, ?_⟩
  simp [fileControl, le_length_zeroPad, spaces]

/-- A line of nines. -/
def fillerRecord : Record where
  widths := [94]
  fields := [filler]

theorem fillerRecord_exact : fillerRecord.Exact := by
  refine ⟨rfl, List.Forall₂.cons ?_ .nil⟩
  decide

-- ==== printable

theorem SecCode.printable (sec : SecCode) : PrintableText sec.asStr := by
  cases sec with
  | ppd => decide
  | ccd => decide
  | web => decide
  | tel => decide
  | ctx => decide

theorem printable_fileHeaderLine {h : FileHeader}
    (hp : AllPrintable h.texts) : PrintableText h.record.text := by
  apply Record.printable_text
  simp only [AllPrintable, FileHeader.texts, List.forall_mem_cons] at hp
  obtain ⟨h1, h2, h3, h4, h5, h6, h7, h8, -⟩ := hp
  simp +decide only [FileHeader.record, List.forall_mem_cons, h1, h2, h3, h4,
    h5, h6.cut, h7.cut, h8.cut, and_self]

theorem printable_batchHeaderLine {h : BatchHeader} (hp : AllPrintable h.texts) (n : Nat) :
    PrintableText (h.record n).text := by
  apply Record.printable_text
  simp only [AllPrintable, BatchHeader.texts, List.forall_mem_cons] at hp
  obtain ⟨h1, h2, h3, h4, h5, h6, h7, h8, -⟩ := hp
  simp +decide only [BatchHeader.record, List.forall_mem_cons, h1.cut, h2.cut,
    h3.cut, h4.cut, h5.cut, h6.cut, h7, h8, h.sec.printable,
    printable_zeroPad, and_self]

theorem printable_entryLine (hp : AllPrintable e.texts) : PrintableText e.record.text := by
  apply Record.printable_text
  simp only [AllPrintable, EntryDetail.texts, List.forall_mem_cons] at hp
  obtain ⟨h1, h2, h3, h4, h5, h6, h7, -⟩ := hp
  have htake := h1.mono fun c (hc : c ∈ e.rdfiRouting.take 8) =>
    List.mem_of_mem_take hc
  have hdrop := h1.mono fun c (hc : c ∈ e.rdfiRouting.drop 8) =>
    List.mem_of_mem_drop hc
  simp +decide only [EntryDetail.record, List.forall_mem_cons, htake, hdrop,
    h2.cut, h3.cut, h4.cut, h5.cut, h6, h7, printable_zeroPad, and_self]

theorem printable_addendaLine (hp : AllPrintable a.texts) (e : EntryDetail) :
    PrintableText (a.record e).text := by
  apply Record.printable_text
  simp only [AllPrintable, Addenda.texts, List.forall_mem_cons] at hp
  obtain ⟨h1, h2, -⟩ := hp
  simp +decide only [Addenda.record, List.forall_mem_cons, h1, h2.cut,
    printable_zeroPad, and_self]

theorem printable_batchControlLine {h : BatchHeader}
    (hp : AllPrintable h.texts) (n : Nat) (t : Tally) :
    PrintableText (h.control n t).text := by
  apply Record.printable_text
  have hid : PrintableText h.companyId := hp _ (by simp [BatchHeader.texts])
  have hodfi : PrintableText h.odfiShort := hp _ (by simp [BatchHeader.texts])
  simp +decide only [BatchHeader.control, List.forall_mem_cons, hid.cut, hodfi,
    printable_zeroPad, and_self]

theorem printable_fileControlLine (n k : Nat) (t : Tally) :
    PrintableText (fileControl n k t).text := by
  apply Record.printable_text
  simp +decide only [fileControl, List.forall_mem_cons, printable_zeroPad, and_self]

theorem printable_filler : PrintableText fillerRecord.text := by
  apply Record.printable_text
  decide

end OpenStandards.OpBatch

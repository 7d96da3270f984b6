/-
What op-batch's NACHA decoder reads from a file the encoder wrote.

A slice of an exact record at the boundaries of its columns is the field
written there (`slice_field`), so each record decodes to its `reread`. The
loop over the lines then rebuilds the batches (`readLines_details`,
`readLines_batches`) and stops at the file control: `decode_written`.
-/
import OpenStandards.OpBatch.Proofs.NachaEncode

namespace OpenStandards.OpBatch

open Lib OpCore Text

-- ==== records

def FileHeader.reread (h : FileHeader) : FileHeader :=
  { h with
    immediateDestination := trim h.immediateDestination
    immediateOrigin := trim h.immediateOrigin
    immediateDestinationName := trim (cut 23 h.immediateDestinationName)
    immediateOriginName := trim (cut 23 h.immediateOriginName)
    referenceCode := trim (cut 8 h.referenceCode) }

theorem decodeFileHeader_record {h : FileHeader} (hx : h.record.Exact) :
    decodeFileHeader h.record.text = .ok h.reread := by
  have h1 : sliceText 3 13 h.record.text
      = .ok h.immediateDestination := slice_field hx.2 2 rfl rfl rfl
  have h2 : sliceText 13 23 h.record.text
      = .ok h.immediateOrigin := slice_field hx.2 3 rfl rfl rfl
  have h3 : sliceText 23 29 h.record.text
      = .ok h.fileCreationDate := slice_field hx.2 4 rfl rfl rfl
  have h4 : sliceText 29 33 h.record.text
      = .ok h.fileCreationTime := slice_field hx.2 5 rfl rfl rfl
  have h5 : byteChar 33 h.record.text
      = .ok h.fileIdModifier := byteChar_field hx.2 6 rfl rfl rfl
  have h6 : sliceText 40 63 h.record.text = .ok (cut 23 h.immediateDestinationName) :=
    slice_field hx.2 10 rfl rfl rfl
  have h7 : sliceText 63 86 h.record.text
      = .ok (cut 23 h.immediateOriginName) := slice_field hx.2 11 rfl rfl rfl
  have h8 : sliceText 86 94 h.record.text
      = .ok (cut 8 h.referenceCode) := slice_field hx.2 12 rfl rfl rfl
  simp only [decodeFileHeader, h1, h2, h3, h4, h5, h6, h7, h8, ok_bind]
  rfl

def BatchHeader.reread (h : BatchHeader) (batchNo : Nat) : BatchHeader :=
  { h with
    companyName := trim (cut 16 h.companyName)
    companyDiscretionary := trim (cut 20 h.companyDiscretionary)
    companyId := trim (cut 10 h.companyId)
    companyEntryDescription := trim (cut 10 h.companyEntryDescription)
    descriptiveDate := cut 6 h.descriptiveDate
    effectiveEntryDate := cut 6 h.effectiveEntryDate
    batchNumber := .ofNat batchNo }

theorem SecCode.fromStr_asStr (sec : SecCode) : SecCode.fromStr sec.asStr = .ok sec := by
  cases sec with
  | ppd => rfl
  | ccd => rfl
  | web => rfl
  | tel => rfl
  | ctx => rfl

variable {n : Nat} {e : EntryDetail} {b : NachaBatch}

theorem lt_of_exact {r : Record} (hr : r.Exact) (i : Nat) {w : Nat}
    (hpos : 0 < w) (hw : r.widths[i]? = some w)
    (hf : r.fields[i]? = some (zeroPad w n)) : n < 10 ^ w := by
  have hcol := column_flatten hr.2 rfl hw hf
  have hlen := congrArg List.length hcol
  have hle : (column (r.widths.take i).sum w r.fields.flatten).length ≤ w :=
    List.length_take_le ..
  have hge := le_length_zeroPad w n
  exact (length_zeroPad_iff hpos n).1 (by omega)

theorem decodeBatchHeader_record {h : BatchHeader} (hx : (h.record n).Exact) :
    decodeBatchHeader (h.record n).text = .ok (h.reread n) := by
  have hn : n < 10 ^ 7 := lt_of_exact hx 12 (by decide) rfl rfl
  have hclass : h.serviceClass.toNat < 2 ^ 16 := h.serviceClass.toNat_lt
  have h1 : sliceText 1 4 (h.record n).text
      = .ok (zeroPad 3 h.serviceClass.toNat) := slice_field hx.2 1 rfl rfl rfl
  have h2 : sliceText 50 53 (h.record n).text
      = .ok h.sec.asStr := slice_field hx.2 5 rfl rfl rfl
  have h3 : byteChar 78 (h.record n).text
      = .ok h.originatorStatus := byteChar_field hx.2 10 rfl rfl rfl
  have h4 : sliceText 4 20 (h.record n).text
      = .ok (cut 16 h.companyName) := slice_field hx.2 2 rfl rfl rfl
  have h5 : sliceText 20 40 (h.record n).text
      = .ok (cut 20 h.companyDiscretionary) := slice_field hx.2 3 rfl rfl rfl
  have h6 : sliceText 40 50 (h.record n).text
      = .ok (cut 10 h.companyId) := slice_field hx.2 4 rfl rfl rfl
  have h7 : sliceText 53 63 (h.record n).text = .ok (cut 10 h.companyEntryDescription) :=
    slice_field hx.2 6 rfl rfl rfl
  have h8 : sliceText 63 69 (h.record n).text
      = .ok (cut 6 h.descriptiveDate) := slice_field hx.2 7 rfl rfl rfl
  have h9 : sliceText 69 75 (h.record n).text
      = .ok (cut 6 h.effectiveEntryDate) := slice_field hx.2 8 rfl rfl rfl
  have h10 : sliceText 79 87 (h.record n).text
      = .ok h.odfiShort := slice_field hx.2 11 rfl rfl rfl
  have h11 : sliceText 87 94 (h.record n).text
      = .ok (zeroPad 7 n) := slice_field hx.2 12 rfl rfl rfl
  simp only [decodeBatchHeader, h1, h2, h3, h4, h5, h6, h7, h8, h9, h10, h11,
    ok_bind, SecCode.fromStr_asStr,
    parseField_zeroPad (w := 3) (by decide) hclass,
    parseField_zeroPad (w := 7) (by decide) (show n < 2 ^ 32 by omega),
    UInt16.ofNat_toNat]
  rfl

def EntryDetail.reread (e : EntryDetail) : EntryDetail :=
  { e with
    accountNumber := trim (cut 17 e.accountNumber)
    individualId := trim (cut 15 e.individualId)
    receiverName := trim (cut 22 e.receiverName)
    discretionary := trim (cut 2 e.discretionary) }

theorem decodeEntry_record (hx : e.record.Exact) :
    decodeEntry e.record.text = .ok e.reread := by
  have htx : e.transactionCode.toNat < 2 ^ 8 := e.transactionCode.toNat_lt
  have hcents : e.amountCents.toNat < 2 ^ 64 := e.amountCents.toNat_lt
  have h1 : sliceText 1 3 e.record.text
      = .ok (zeroPad 2 e.transactionCode.toNat) := slice_field hx.2 1 rfl rfl rfl
  have h2 : sliceText 29 39 e.record.text
      = .ok (zeroPad 10 e.amountCents.toNat) := slice_field hx.2 5 rfl rfl rfl
  have h3 : sliceText 3 12 e.record.text = (.ok e.rdfiRouting : Except (Fault Error) Text) := by
    have hboth := sliceText_fields (ε := Error) hx.2 2 2 rfl rfl
    have hjoin : ((e.record.fields.drop 2).take 2).flatten = e.rdfiRouting := by
      simp [EntryDetail.record]
    rw [hjoin] at hboth
    exact hboth
  have h4 : sliceText 12 29 e.record.text
      = .ok (cut 17 e.accountNumber) := slice_field hx.2 4 rfl rfl rfl
  have h5 : sliceText 39 54 e.record.text
      = .ok (cut 15 e.individualId) := slice_field hx.2 6 rfl rfl rfl
  have h6 : sliceText 54 76 e.record.text
      = .ok (cut 22 e.receiverName) := slice_field hx.2 7 rfl rfl rfl
  have h7 : sliceText 76 78 e.record.text
      = .ok (cut 2 e.discretionary) := slice_field hx.2 8 rfl rfl rfl
  have h8 : byteChar 78 e.record.text
      = .ok e.addendaIndicator := byteChar_field hx.2 9 rfl rfl rfl
  have h9 : sliceText 79 94 e.record.text = .ok e.traceNumber := slice_field hx.2 10 rfl rfl rfl
  simp only [decodeEntry, h1, h2, h3, h4, h5, h6, h7, h8, h9, ok_bind,
    parseField_zeroPad (w := 2) (by decide) htx,
    parseField_zeroPad (w := 10) (by decide) hcents,
    UInt8.ofNat_toNat, UInt64.ofNat_toNat]
  rfl

def Addenda.reread (a : Addenda) (e : EntryDetail) : Addenda :=
  { a with
    paymentRelatedInfo := trim (cut 80 a.paymentRelatedInfo)
    entryDetailSequence := .ofNat (entrySequence a e.traceTail) }

theorem decodeAddenda_record {a : Addenda} (hx : (a.record e).Exact) :
    decodeAddenda (a.record e).text = .ok (a.reread e) := by
  have hentry : entrySequence a e.traceTail < 10 ^ 7 :=
    lt_of_exact hx 4 (by decide) rfl rfl
  have hseq : a.sequenceNumber.toNat < 2 ^ 16 := a.sequenceNumber.toNat_lt
  have h1 : sliceText 83 87 (a.record e).text
      = .ok (zeroPad 4 a.sequenceNumber.toNat) := slice_field hx.2 3 rfl rfl rfl
  have h2 : sliceText 87 94 (a.record e).text = .ok (zeroPad 7 (entrySequence a e.traceTail)) :=
    slice_field hx.2 4 rfl rfl rfl
  have h3 : sliceText 1 3 (a.record e).text = .ok a.typeCode := slice_field hx.2 1 rfl rfl rfl
  have h4 : sliceText 3 83 (a.record e).text
      = .ok (cut 80 a.paymentRelatedInfo) := slice_field hx.2 2 rfl rfl rfl
  simp only [decodeAddenda, h1, h2, h3, h4, ok_bind,
    parseField_zeroPad (w := 4) (by decide) hseq,
    parseField_zeroPad (w := 7) (by decide)
      (show entrySequence a e.traceTail < 2 ^ 32 by omega),
    UInt16.ofNat_toNat]
  rfl

-- ==== the loop

theorem readLines_record {rec : Record} (hx : rec.Exact)
    (hp : PrintableText rec.text) {c : Char} (hc : c ∈ rec.text)
    (hnine : c ≠ '9') (r : Reader) (rest : List Text) :
    readLines r (rec.text :: rest)
      = (readRecord r rec.text >>= fun o => match o with
          | some r' => readLines r' rest
          | none => .ok r) := by
  have hall : ¬ (rec.text.all (· == '9') = true ∧ rec.text.byteLen = recordLen) := by
    rintro ⟨hall, -⟩
    have := List.all_eq_true.1 hall c hc
    exact hnine (by simpa using this)
  have hne : rec.text ≠ [] := by
    intro hnil
    rw [hnil] at hc
    cases hc
  rw [readLines]
  simp only [trimEndMatches_of_not_mem hp.cr_not_mem]
  -- the loop's own match and the one stated here are alike up to unfolding
  rw [if_neg hall, if_neg hne]
  exact if_neg (not_not.2 hx.byteLen)

theorem readLines_some {rec : Record} (hx : rec.Exact) (hp : PrintableText rec.text)
    {c : Char} (hc : c ∈ rec.text) (hnine : c ≠ '9') {r r' : Reader}
    (hread : readRecord r rec.text = .ok (some r')) (rest : List Text) :
    readLines r (rec.text :: rest) = readLines r' rest := by
  rw [readLines_record hx hp hc hnine, hread]
  rfl

theorem readLines_fileHeader {h : FileHeader} (hx : h.record.Exact)
    (hp : PrintableText h.record.text) (r : Reader) (rest : List Text) :
    readLines r (h.record.text :: rest)
      = readLines { r with header := some h.reread } rest := by
  have hkind : sliceText 0 1 h.record.text = .ok ['1'] := slice_field hx.2 0 rfl rfl rfl
  apply readLines_some hx hp (c := '1') List.mem_cons_self (by decide)
  simp only [readRecord, hkind, ok_bind, if_true, decodeFileHeader_record hx]

theorem readLines_batchHeader {h : BatchHeader} (hx : (h.record n).Exact)
    (hp : PrintableText (h.record n).text) {r : Reader}
    (hcur : r.curBatch = none) (rest : List Text) :
    readLines r ((h.record n).text :: rest)
      = readLines { r with
          curBatch := some ⟨h.reread n, [], []⟩ } rest := by
  have hkind : sliceText 0 1 (h.record n).text = .ok ['5'] := slice_field hx.2 0 rfl rfl rfl
  have hnone : ¬ r.curBatch.isSome = true := by
    rw [hcur]
    exact Bool.false_ne_true
  apply readLines_some hx hp (c := '5') List.mem_cons_self (by decide)
  simp +decide only [readRecord, hkind, ok_bind, if_false, if_true,
    decodeBatchHeader_record hx, refuse, hnone]

theorem readLines_entry (hx : e.record.Exact) (hp : PrintableText e.record.text) {r : Reader}
    (hcur : r.curBatch = some b) (rest : List Text) :
    readLines r (e.record.text :: rest)
      = readLines { r with curBatch := some { b with
          entries := b.entries ++ [e.reread]
          addenda := b.addenda ++ [none] } } rest := by
  have hkind : sliceText 0 1 e.record.text = .ok ['6'] := slice_field hx.2 0 rfl rfl rfl
  apply readLines_some hx hp (c := '6') List.mem_cons_self (by decide)
  simp +decide only [readRecord, hkind, ok_bind, if_false, if_true,
    Reader.current, hcur, decodeEntry_record hx]

theorem readLines_addenda {a : Addenda} (hx : (a.record e).Exact)
    (hp : PrintableText (a.record e).text) {r : Reader}
    (hcur : r.curBatch = some b) (rest : List Text) :
    readLines r ((a.record e).text :: rest)
      = readLines { r with
          curBatch := some (b.setLastAddenda (a.reread e)) } rest := by
  have hkind : sliceText 0 1 (a.record e).text = .ok ['7'] := slice_field hx.2 0 rfl rfl rfl
  apply readLines_some hx hp (c := '7') List.mem_cons_self (by decide)
  simp +decide only [readRecord, hkind, ok_bind, if_false, if_true,
    Reader.current, hcur, decodeAddenda_record hx]

theorem readLines_batchControl {h : BatchHeader} {t : Tally}
    (hx : (h.control n t).Exact) (hp : PrintableText (h.control n t).text)
    {r : Reader} (hcur : r.curBatch = some b) (rest : List Text) :
    readLines r ((h.control n t).text :: rest)
      = readLines { r with
          batches := r.batches ++ [b], curBatch := none } rest := by
  have hkind : sliceText 0 1 (h.control n t).text = .ok ['8'] := slice_field hx.2 0 rfl rfl rfl
  apply readLines_some hx hp (c := '8') List.mem_cons_self (by decide)
  simp +decide only [readRecord, hkind, ok_bind, if_false, if_true, Reader.current, hcur]

theorem readLines_fileControl {k : Nat} {t : Tally}
    (hx : (fileControl n k t).Exact) (r : Reader) (rest : List Text) :
    readLines r ((fileControl n k t).text :: rest) = .ok r := by
  have hkind : sliceText 0 1 (fileControl n k t).text
      = .ok ['9'] := slice_field hx.2 0 rfl rfl rfl
  have hblank : ' ' ∈ (fileControl n k t).text := by
    apply List.mem_flatten.2
    exact ⟨spaces 39, by simp [fileControl], by decide⟩
  have hread : readRecord r (fileControl n k t).text = .ok none := by
    simp +decide only [readRecord, hkind, ok_bind, if_false, if_true]
  rw [readLines_record hx (printable_fileControlLine n k t) hblank (by decide), hread]
  rfl

-- ==== batches

def rereadAddenda (addenda : List (Option Addenda)) (item : EntryDetail × Nat) : Option Addenda :=
  (addendaOf addenda item).map fun a => a.reread item.1

def NachaBatch.extend (b : NachaBatch) (addenda : List (Option Addenda))
    (items : List (EntryDetail × Nat)) : NachaBatch :=
  { b with
    entries := b.entries ++ items.map fun item => item.1.reread
    addenda := b.addenda ++ items.map (rereadAddenda addenda) }

theorem readLines_item {addenda : List (Option Addenda)}
    {item : EntryDetail × Nat} (hfits : ItemFits addenda item)
    (hp : ∀ r ∈ itemRecords addenda item, PrintableText r.text) {r : Reader}
    (hcur : r.curBatch = some b) (rest : List Text) :
    readLines r ((itemRecords addenda item).map Record.text ++ rest)
      = readLines { r with curBatch := some (b.extend addenda [item]) }
          rest := by
  have hentry := hp item.1.record List.mem_cons_self
  unfold itemRecords at hp ⊢
  unfold NachaBatch.extend
  simp only [List.map_cons, List.map_nil, rereadAddenda]
  cases hof : addendaOf addenda item with
  | none => exact readLines_entry hfits.exact hentry hcur rest
  | some a =>
    rw [hof] at hp
    have hadd := hp (a.record item.1) (List.mem_cons_of_mem _ List.mem_cons_self)
    refine (readLines_entry hfits.exact hentry hcur _).trans ?_
    refine (readLines_addenda (hfits.addenda a hof).2 hadd rfl rest).trans ?_
    simp [NachaBatch.setLastAddenda]

theorem readLines_details {addenda : List (Option Addenda)}
    {items : List (EntryDetail × Nat)} (hfits : ∀ item ∈ items, ItemFits addenda item)
    (hp : ∀ r ∈ detailRecords addenda items, PrintableText r.text) :
    ∀ {r : Reader} {b : NachaBatch}, r.curBatch = some b →
      ∀ rest : List Text,
        readLines r ((detailRecords addenda items).map Record.text ++ rest)
          = readLines { r with curBatch := some (b.extend addenda items) }
              rest := by
  induction items with
  | nil =>
    intro r b hcur rest
    simp [detailRecords, NachaBatch.extend, ← hcur]
  | cons item items ih =>
    intro r b hcur rest
    rw [List.forall_mem_cons] at hfits
    rw [detailRecords, List.flatMap_cons, List.forall_mem_append] at hp
    rw [detailRecords, List.flatMap_cons, List.map_append, List.append_assoc]
    refine (readLines_item hfits.1 hp.1 hcur _).trans ?_
    refine (ih hfits.2 hp.2 rfl rest).trans ?_
    simp [NachaBatch.extend]

def NachaBatch.reread (b : NachaBatch) (batchNo : Nat) : NachaBatch where
  header := b.header.reread batchNo
  entries := b.items.map fun item => item.1.reread
  addenda := b.items.map (rereadAddenda b.addenda)

theorem readLines_batch {item : NachaBatch × Nat} (hfits : BatchFits item)
    (hp : AllPrintable item.1.texts) {r : Reader} (hcur : r.curBatch = none) (rest : List Text) :
    readLines r ((batchRecords item).map Record.text ++ rest)
      = readLines { r with
          batches := r.batches ++ [item.1.reread (item.2 + 1)] } rest := by
  have hheader := printable_header hp
  rw [batchRecords, List.map_cons, List.map_append, List.cons_append, List.append_assoc]
  refine (readLines_batchHeader hfits.header
    (printable_batchHeaderLine hheader _) hcur _).trans ?_
  refine (readLines_details hfits.entries (printable_detailLines hp) rfl _).trans ?_
  refine (readLines_batchControl hfits.control
    (printable_batchControlLine hheader _ _) rfl rest).trans ?_
  simp [NachaBatch.extend, NachaBatch.reread, hcur]

theorem readLines_batches {items : List (NachaBatch × Nat)}
    (hfits : ∀ item ∈ items, BatchFits item) (hp : ∀ item ∈ items, AllPrintable item.1.texts) :
    ∀ r : Reader, r.curBatch = none → ∀ rest : List Text,
      readLines r ((batchesRecords items).map Record.text ++ rest)
        = readLines { r with
            batches := r.batches ++
              items.map fun item => item.1.reread (item.2 + 1) } rest := by
  induction items with
  | nil =>
    intro r hcur rest
    simp [batchesRecords]
  | cons item items ih =>
    intro r hcur rest
    rw [List.forall_mem_cons] at hfits hp
    rw [batchesRecords, List.flatMap_cons, List.map_append, List.append_assoc]
    refine (readLines_batch hfits.1 hp.1 hcur _).trans ?_
    refine (ih hfits.2 hp.2 { r with
      batches := r.batches ++ [item.1.reread (item.2 + 1)] } hcur
      rest).trans ?_
    simp

def NachaFile.reread (f : NachaFile) : NachaFile where
  header := f.header.reread
  batches := f.items.map fun item => item.1.reread (item.2 + 1)

theorem decode_written {f : NachaFile} (hp : AllPrintable f.texts) (hfits : FileFits f) :
    NachaFile.decode (writeRecords f.records) = .ok f.reread := by
  have hlines : lines (writeRecords f.records) = f.records.map Record.text := by
    apply lines_unlines
    · intro l hl
      obtain ⟨rec, hrec, rfl⟩ := List.mem_map.1 hl
      exact (printable_records hp rec hrec).newline_not_mem
    · intro l hl
      obtain ⟨rec, hrec, rfl⟩ := List.mem_map.1 hl
      exact (printable_records hp rec hrec).cr_not_mem
  have hread : readLines { header := none, batches := [], curBatch := none }
      (f.records.map Record.text)
        = .ok { header := some f.header.reread
                batches := f.reread.batches, curBatch := none } := by
    rw [NachaFile.records, NachaFile.body, List.map_append, List.map_cons, List.cons_append]
    refine (readLines_fileHeader hfits.headerExact
      (printable_fileHeaderLine (printable_fileHeader hp)) _ _).trans ?_
    refine (readLines_batches hfits.batches (printable_batches hp) _ rfl _).trans ?_
    exact readLines_fileControl hfits.control _ _
  rw [NachaFile.decode, hlines, hread]
  rfl

end OpenStandards.OpBatch

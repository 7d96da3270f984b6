/-
Is op-batch's NACHA file what the format asks for?

`recount` reads a tally back from lines; `specified` is the file with that
tally in each 8- and 9-record. What the encoder writes has every field in
its columns and every record in its place; its hash and its amounts are
those of `recount`, its counts leave the 7-records out. So it is the
specified file exactly when it has no 7-record (`encode_wellFormed_iff`).
-/
import OpenStandards.OpBatch.Proofs.NachaEncode

namespace OpenStandards.OpBatch

open Lib OpCore Text

-- ==== reading back

def numberAt (off w : Nat) (line : Text) : Nat := number (column off w line)

def ofKind (c : Char) (ls : List Text) : List Text :=
  ls.filter fun l => l.head? == some c

/-- What the 6- and 7-records among the lines come to. -/
def recount (ls : List Text) : Tally where
  count := (ofKind '6' ls).length + (ofKind '7' ls).length
  hash := ((ofKind '6' ls).map (numberAt 3 8)).sum
  debit := (((ofKind '6' ls).filter fun l => !isCredit (numberAt 1 2 l)).map
    (numberAt 29 10)).sum
  credit := (((ofKind '6' ls).filter fun l => isCredit (numberAt 1 2 l)).map
    (numberAt 29 10)).sum

/-- The tally of entries with `k` addenda. -/
def counted (es : List EntryDetail) (k : Nat) : Tally :=
  { tallyOf es with count := es.length + k }

theorem counted_zero (es : List EntryDetail) : counted es 0 = tallyOf es := rfl

theorem counted_append (es es' : List EntryDetail) (k k' : Nat) :
    counted (es ++ es') (k + k')
      = { count := (counted es k).count + (counted es' k').count
          hash := (counted es k).hash + (counted es' k').hash
          debit := (counted es k).debit + (counted es' k').debit
          credit := (counted es k).credit + (counted es' k').credit } := by
  simp only [counted, tallyOf_append, List.length_append, Tally.mk.injEq, and_true]
  omega

theorem recount_append (ls ks : List Text) :
    recount (ls ++ ks)
      = { count := (recount ls).count + (recount ks).count
          hash := (recount ls).hash + (recount ks).hash
          debit := (recount ls).debit + (recount ks).debit
          credit := (recount ls).credit + (recount ks).credit } := by
  simp only [recount, ofKind, List.filter_append, List.length_append,
    List.map_append, List.sum_append, Tally.mk.injEq, and_true]
  omega

/-- Lines read back one after the other. -/
theorem recount_append_eq {ls ks : List Text} {es es' : List EntryDetail}
    {k k' : Nat} (hl : recount ls = counted es k) (hk : recount ks = counted es' k') :
    recount (ls ++ ks) = counted (es ++ es') (k + k') := by
  rw [recount_append, counted_append, hl, hk]

/-- A record of another kind says nothing of the entries. -/
theorem recount_other {l : Text} (h6 : l.head? ≠ some '6')
    (h7 : l.head? ≠ some '7') : recount [l] = counted [] 0 := by
  simp [recount, ofKind, h6, h7, counted, tallyOf]

theorem recount_addenda (a : Addenda) (e : EntryDetail) :
    recount [(a.record e).text] = counted [] 1 := by
  have hhead : (a.record e).text.head? = some '7' := rfl
  simp [recount, ofKind, hhead, counted, tallyOf]

theorem recount_entry {e : EntryDetail} (h : e.record.Exact) :
    recount [e.record.text] = counted [e] 0 := by
  have hhead : e.record.text.head? = some '6' := rfl
  have htx : numberAt 1 2 e.record.text = e.transactionCode.toNat :=
    (congrArg number (column_flatten h.2 (i := 1) rfl rfl rfl)).trans (number_zeroPad ..)
  have hrouting : numberAt 3 8 e.record.text = e.routing :=
    congrArg number (column_flatten h.2 (i := 2) rfl rfl rfl)
  have hamount : numberAt 29 10 e.record.text = e.amountCents.toNat :=
    (congrArg number (column_flatten h.2 (i := 5) rfl rfl rfl)).trans (number_zeroPad ..)
  cases hcr : isCredit e.transactionCode.toNat with
  | true =>
    simp [recount, ofKind, hhead, htx, hrouting, hamount, hcr, counted,
      tallyOf, EntryDetail.debit, EntryDetail.credit]
  | false =>
    simp [recount, ofKind, hhead, htx, hrouting, hamount, hcr, counted,
      tallyOf, EntryDetail.debit, EntryDetail.credit]

/-- The 7-records of entries. -/
def addendaCount (addenda : List (Option Addenda)) (items : List (EntryDetail × Nat)) : Nat :=
  (items.filterMap (addendaOf addenda)).length

variable {addenda : List (Option Addenda)} {f : NachaFile}

theorem recount_item {item : EntryDetail × Nat} (h : ItemFits addenda item) :
    recount ((itemRecords addenda item).map Record.text)
      = counted [item.1] (addendaCount addenda [item]) := by
  have hentry := recount_entry h.exact
  unfold itemRecords addendaCount
  cases hof : addendaOf addenda item with
  | none => simpa [hof] using hentry
  | some a =>
    have hboth := recount_append_eq hentry (recount_addenda a item.1)
    simpa [hof] using hboth

theorem recount_details {items : List (EntryDetail × Nat)}
    (h : ∀ item ∈ items, ItemFits addenda item) :
    recount ((detailRecords addenda items).map Record.text)
      = counted (items.map Prod.fst) (addendaCount addenda items) := by
  induction items with
  | nil => rfl
  | cons item items ih =>
    rw [List.forall_mem_cons] at h
    have hboth := recount_append_eq (recount_item h.1) (ih h.2)
    rw [← List.map_append, addendaCount, addendaCount, ← List.length_append,
      ← List.filterMap_append] at hboth
    exact hboth

-- ==== the specified file

/-- The batch the format asks for: its 8-record counts the records above
it. -/
def specifiedBatch (item : NachaBatch × Nat) : List Record :=
  let above := item.1.header.record (item.2 + 1) ::
    detailRecords item.1.addenda item.1.items
  above ++
    [item.1.header.control (item.2 + 1) (recount (above.map Record.text))]

def specifiedBody (f : NachaFile) : List Record :=
  f.header.record :: f.items.flatMap specifiedBatch

/-- The file the format asks for: its 9-record counts the records above
it, and filler goes to a multiple of ten. -/
def specified (f : NachaFile) : List Record :=
  let above := (specifiedBody f).map Record.text
  specifiedBody f ++ closing (ofKind '5' above).length (specifiedBody f) (recount above)

/-- The text is the file the format asks for, line by line, each line of
94 bytes with every field in its columns, and the lines go to a multiple
of ten; every addenda that is announced is there. -/
def WellFormed (f : NachaFile) (w : Text) : Prop :=
  w.splitOn '\n' = (specified f).map Record.text ++ [[]] ∧
    (∀ r ∈ specified f, r.Exact ∧ r.text.byteLen = recordLen) ∧
    10 ∣ (specified f).length ∧
    ∀ item ∈ f.items, ∀ e ∈ item.1.items, e.1.addendaIndicator = '1' →
      ∃ a, addendaOf item.1.addenda e = some a

def addendaTotal (items : List (NachaBatch × Nat)) : Nat :=
  (items.map fun item => addendaCount item.1.addenda item.1.items).sum

theorem recount_above {item : NachaBatch × Nat} (h : BatchFits item) :
    recount ((item.1.header.record (item.2 + 1) ::
        detailRecords item.1.addenda item.1.items).map Record.text)
      = counted item.1.entries (addendaCount item.1.addenda item.1.items) := by
  have hhead : recount [(item.1.header.record (item.2 + 1)).text]
      = counted [] 0 := recount_other nofun nofun
  have hboth := recount_append_eq hhead (recount_details h.entries)
  rw [map_fst_items, Nat.zero_add] at hboth
  exact hboth

theorem recount_specifiedBatch {item : NachaBatch × Nat} (h : BatchFits item) :
    recount ((specifiedBatch item).map Record.text)
      = counted item.1.entries (addendaCount item.1.addenda item.1.items) := by
  have hlast : ∀ t, recount [(item.1.header.control (item.2 + 1) t).text]
      = counted [] 0 := fun t => recount_other nofun nofun
  unfold specifiedBatch
  rw [List.map_append]
  refine (recount_append_eq (recount_above h) (hlast _)).trans ?_
  rw [List.append_nil, Nat.add_zero]

theorem recount_batches {items : List (NachaBatch × Nat)} (h : ∀ item ∈ items, BatchFits item) :
    recount ((items.flatMap specifiedBatch).map Record.text)
      = counted (entriesOf items) (addendaTotal items) := by
  induction items with
  | nil => rfl
  | cons item items ih =>
    rw [List.forall_mem_cons] at h
    rw [List.flatMap_cons, List.map_append]
    exact recount_append_eq (recount_specifiedBatch h.1) (ih h.2)

theorem recount_body (h : FileFits f) :
    recount ((specifiedBody f).map Record.text) = counted f.entries (addendaTotal f.items) := by
  have hhead : recount [f.header.record.text] = counted [] 0 :=
    recount_other nofun nofun
  have hboth := recount_append_eq hhead (recount_batches h.batches)
  rw [Nat.zero_add] at hboth
  exact hboth

-- ==== agreement

theorem length_specifiedBatch (item : NachaBatch × Nat) :
    (specifiedBatch item).length = (batchRecords item).length := by
  simp [specifiedBatch, batchRecords]

theorem length_specifiedBody (f : NachaFile) : (specifiedBody f).length = f.body.length := by
  have hpieces : ∀ items : List (NachaBatch × Nat),
      (items.flatMap specifiedBatch).length = (items.flatMap batchRecords).length := by
    intro items
    simp only [List.length_flatMap, length_specifiedBatch]
  rw [specifiedBody, NachaFile.body, List.length_cons, List.length_cons,
    hpieces, batchesRecords]

/-- The 9-record is where the format wants it, and its columns decide. -/
theorem addendaTotal_of_wellFormed (hp : AllPrintable f.texts)
    (hfits : FileFits f) (h : WellFormed f (writeRecords f.records)) :
    addendaTotal f.items = 0 := by
  obtain ⟨hsplit, hexact, -⟩ := h
  rw [splitOn_records hp] at hsplit
  have hlines := (List.append_inj' hsplit rfl).1
  rw [NachaFile.records, specified, List.map_append, List.map_append]
    at hlines
  have hlen : (f.body.map Record.text).length = ((specifiedBody f).map Record.text).length := by
    rw [List.length_map, List.length_map, length_specifiedBody]
  have hclosing := (List.append_inj hlines hlen).2
  rw [closing, closing, List.map_cons, List.map_cons, List.cons.injEq,
    recount_body hfits] at hclosing
  have hcontrol := (hexact _ (List.mem_append_right _ List.mem_cons_self)).1
  rw [recount_body hfits] at hcontrol
  have hfields := hfits.control.fields_eq hcontrol rfl hclosing.1
  simp only [fileControl, List.cons.injEq] at hfields
  have hcount := congrArg number hfields.2.2.2.1
  rw [number_zeroPad, number_zeroPad] at hcount
  simp only [tallyOf, counted] at hcount
  rw [NachaFile.entries] at hcount
  omega

theorem addendaCount_eq_zero_iff {items : List (EntryDetail × Nat)} :
    addendaCount addenda items = 0 ↔ ∀ e ∈ items, addendaOf addenda e = none := by
  rw [addendaCount, List.length_eq_zero_iff, List.filterMap_eq_nil_iff]

theorem addendaTotal_eq_zero_iff {items : List (NachaBatch × Nat)} :
    addendaTotal items = 0 ↔ ∀ item ∈ items, addendaCount item.1.addenda item.1.items = 0 := by
  rw [addendaTotal, List.sum_eq_zero_iff, List.forall_mem_map]

theorem length_ofKind_append (c : Char) (ls ks : List Text) :
    (ofKind c (ls ++ ks)).length = (ofKind c ls).length + (ofKind c ks).length := by
  simp [ofKind]

theorem ofKind_details (addenda : List (Option Addenda)) (items : List (EntryDetail × Nat)) :
    ofKind '5' ((detailRecords addenda items).map Record.text) = [] := by
  apply List.filter_eq_nil_iff.2
  intro l hl
  obtain ⟨r, hr, rfl⟩ := List.mem_map.1 hl
  obtain ⟨item, -, hr⟩ := List.mem_flatMap.1 hr
  rcases List.mem_cons.1 hr with rfl | hr
  · have hhead : item.1.record.text.head? = some '6' := rfl
    rw [hhead]
    decide
  · obtain ⟨a, -, rfl⟩ := Option.map_eq_some_iff.1 (Option.mem_toList.1 hr)
    have hhead : (a.record item.1).text.head? = some '7' := rfl
    rw [hhead]
    decide

theorem length_ofKind_batch (item : NachaBatch × Nat) :
    (ofKind '5' ((batchRecords item).map Record.text)).length = 1 := by
  have hfirst : ofKind '5' [(item.1.header.record (item.2 + 1)).text]
      = [(item.1.header.record (item.2 + 1)).text] := rfl
  have hlast : ∀ t, ofKind '5' [(item.1.header.control (item.2 + 1) t).text] = [] :=
    fun t => rfl
  rw [batchRecords, List.map_cons, List.map_append, ← List.singleton_append,
    length_ofKind_append, length_ofKind_append, ofKind_details, hfirst,
    List.map_singleton, hlast]
  rfl

theorem length_ofKind_body (f : NachaFile) :
    (ofKind '5' (f.body.map Record.text)).length = f.batches.length := by
  have hitems : ∀ items : List (NachaBatch × Nat),
      (ofKind '5' ((batchesRecords items).map Record.text)).length = items.length := by
    intro items
    induction items with
    | nil => rfl
    | cons item items ih =>
      rw [batchesRecords, List.flatMap_cons, List.map_append,
        length_ofKind_append, length_ofKind_batch, List.length_cons,
        Nat.add_comm]
      exact congrArg (· + 1) ih
  have hfirst : ofKind '5' [f.header.record.text] = [] := rfl
  rw [NachaFile.body, List.map_cons, ← List.singleton_append,
    length_ofKind_append, hfirst, hitems, NachaFile.items,
    List.length_zipIdx]
  exact Nat.zero_add _

/-- Without 7-records the counts are right. -/
theorem specified_of_addendaTotal (hfits : FileFits f)
    (h : addendaTotal f.items = 0) : specified f = f.records := by
  have hbatch : ∀ item ∈ f.items, specifiedBatch item = batchRecords item := by
    intro item hitem
    have hzero := addendaTotal_eq_zero_iff.1 h item hitem
    rw [specifiedBatch, recount_above (hfits.batches item hitem), hzero, counted_zero]
    rfl
  have hbody : specifiedBody f = f.body := by
    rw [specifiedBody, NachaFile.body, batchesRecords, List.flatMap_congr hbatch]
  have hrecount := recount_body hfits
  rw [hbody, h, counted_zero] at hrecount
  unfold specified
  simp only [hbody, hrecount, length_ofKind_body]
  rfl

-- ==== the result

theorem ten_dvd_length_records (f : NachaFile) : 10 ∣ f.records.length := by
  rw [NachaFile.records, closing, List.length_append, List.length_cons,
    List.length_replicate, blocks]
  omega

/-- A file of printable texts that is written is the file the format asks
for exactly when it has no addenda. -/
theorem encode_wellFormed_iff {f : NachaFile} {w : Text}
    (hp : AllPrintable f.texts) (h : f.encode = .ok w) :
    WellFormed f w ↔ ∀ b ∈ f.batches, ∀ e ∈ b.entries, e.addendaIndicator ≠ '1' := by
  obtain ⟨hfits, rfl⟩ := encode_ok hp h
  have hfst : f.items.map Prod.fst = f.batches := List.zipIdx_map_fst ..
  constructor
  · intro hwell b hb e he hone
    have htotal := addendaTotal_of_wellFormed hp hfits hwell
    rw [← hfst] at hb
    obtain ⟨item, hitem, rfl⟩ := List.mem_map.1 hb
    rw [← map_fst_items] at he
    obtain ⟨x, hx, rfl⟩ := List.mem_map.1 he
    have hzero := addendaTotal_eq_zero_iff.1 htotal item hitem
    obtain ⟨a, ha⟩ := hwell.2.2.2 item hitem x hx hone
    rw [addendaCount_eq_zero_iff.1 hzero x hx] at ha
    cases ha
  · intro hnone
    have hof : ∀ item ∈ f.items, ∀ x ∈ item.1.items, x.1.addendaIndicator ≠ '1' := by
      intro item hitem x hx
      apply hnone item.1
      · rw [← hfst]
        exact List.mem_map_of_mem hitem
      · rw [← map_fst_items]
        exact List.mem_map_of_mem hx
    have htotal : addendaTotal f.items = 0 := by
      apply addendaTotal_eq_zero_iff.2
      intro item hitem
      apply addendaCount_eq_zero_iff.2
      intro x hx
      exact if_neg (hof item hitem x hx)
    have hspec := specified_of_addendaTotal hfits htotal
    refine ⟨?_, ?_, ?_, ?_⟩
    · rw [hspec]
      exact splitOn_records hp
    · rw [hspec]
      intro r hr
      exact ⟨hfits.exact r hr, (hfits.exact r hr).byteLen⟩
    · rw [hspec]
      exact ten_dvd_length_records f
    · intro item hitem x hx hone
      exact absurd hone (hof item hitem x hx)

def oneCredit (addendaIndicator : Char) (addenda : Option Addenda) : NachaFile where
  header :=
    { immediateDestination := "1021000021".toList
      immediateOrigin := "1234567890".toList
      fileCreationDate := "260101".toList, fileCreationTime := "1230".toList
      fileIdModifier := 'A', immediateDestinationName := "BANK".toList
      immediateOriginName := "ORIGIN".toList, referenceCode := [] }
  batches := [
    { header :=
        { serviceClass := 220, companyName := "COMPANY".toList
          companyDiscretionary := [], companyId := "9".toList, sec := .ctx
          companyEntryDescription := "PAY".toList
          descriptiveDate := "260101".toList
          effectiveEntryDate := "260102".toList, originatorStatus := '1'
          odfiShort := "12345678".toList, batchNumber := 1 }
      entries := [
        { transactionCode := 22, rdfiRouting := "021000021".toList
          accountNumber := "1".toList, amountCents := 100, individualId := []
          receiverName := "A".toList, discretionary := [], addendaIndicator
          traceNumber := "123456780000001".toList }]
      addenda := [addenda] }]

/-- A credit without addenda. -/
theorem oneCredit_wellFormed :
    ∃ w, (oneCredit '0' none).encode = .ok w ∧ WellFormed (oneCredit '0' none) w := by
  have hok : (oneCredit '0' none).encode.isOk = true := by decide +kernel
  obtain ⟨w, hw⟩ := isOk_iff.1 hok
  exact ⟨w, hw, (encode_wellFormed_iff (by decide +kernel) hw).2 (by decide +kernel)⟩

/-- A credit with its addenda is counted as one record. -/
theorem addenda_not_counted :
    ∃ w, (oneCredit '1' (some
        ⟨"05".toList, "INVOICE 1".toList, 1, 1⟩)).encode = .ok w ∧
      ¬ WellFormed (oneCredit '1' (some
        ⟨"05".toList, "INVOICE 1".toList, 1, 1⟩)) w := by
  have hok : (oneCredit '1' (some
      ⟨"05".toList, "INVOICE 1".toList, 1, 1⟩)).encode.isOk = true := by
    decide +kernel
  obtain ⟨w, hw⟩ := isOk_iff.1 hok
  refine ⟨w, hw, ?_⟩
  intro hwell
  have hfits := (encode_ok (by decide +kernel) hw).1
  rw [(encode_ok (by decide +kernel) hw).2] at hwell
  have htotal := addendaTotal_of_wellFormed (by decide +kernel) hfits hwell
  exact absurd htotal (by decide +kernel)

end OpenStandards.OpBatch

/-
What a successful run of op-batch's NACHA encoder has written.

One turn of the loop over the entries appends the records of the entry
and adds to the running totals (`pushEntry_ok`); the same for the batches
(`pushBatch_ok`). `encode_ok` puts them together: every record that was
written is exact, and the file is the lines of `fileRecords`.
-/
import OpenStandards.OpBatch.Proofs.NachaRecords

namespace OpenStandards.OpBatch

open Lib OpCore Text

-- ==== tallies

def EntryDetail.routing (e : EntryDetail) : Nat :=
  number (e.rdfiRouting.take 8)

def EntryDetail.debit (e : EntryDetail) : Nat :=
  if isCredit e.transactionCode.toNat then 0 else e.amountCents.toNat

def EntryDetail.credit (e : EntryDetail) : Nat :=
  if isCredit e.transactionCode.toNat then e.amountCents.toNat else 0

def tallyOf (es : List EntryDetail) : Tally where
  count := es.length
  hash := (es.map EntryDetail.routing).sum
  debit := (es.map EntryDetail.debit).sum
  credit := (es.map EntryDetail.credit).sum

theorem tallyOf_append (es es' : List EntryDetail) :
    tallyOf (es ++ es')
      = { count := (tallyOf es).count + (tallyOf es').count
          hash := (tallyOf es).hash + (tallyOf es').hash
          debit := (tallyOf es).debit + (tallyOf es').debit
          credit := (tallyOf es).credit + (tallyOf es').credit } := by
  simp [tallyOf]

theorem routing_lt {e : EntryDetail} (h : Digits 9 e.rdfiRouting) : e.routing < 10 ^ 8 := by
  have hlt := number_lt (s := e.rdfiRouting.take 8) fun c hc =>
    h.2 c (List.mem_of_mem_take hc)
  rwa [List.length_take, h.length] at hlt

theorem hash_le {es : List EntryDetail} (h : ∀ e ∈ es, e.Valid) :
    (tallyOf es).hash ≤ 10 ^ 8 * es.length := by
  induction es with
  | nil => exact Nat.le_refl 0
  | cons e es ih =>
    rw [List.forall_mem_cons] at h
    have hrest := ih h.2
    have hlt := routing_lt h.1.2.2.1
    simp only [tallyOf, List.map_cons, List.sum_cons, List.length_cons]
      at hrest ⊢
    omega

-- ==== the entries

def addendaOf (addenda : List (Option Addenda)) (item : EntryDetail × Nat) : Option Addenda :=
  if item.1.addendaIndicator = '1' then addenda[item.2]?.join else none

def itemRecords (addenda : List (Option Addenda)) (item : EntryDetail × Nat) : List Record :=
  item.1.record :: ((addendaOf addenda item).map fun a => a.record item.1).toList

/-- The entry and its addenda are what the encoder asks for. -/
structure ItemFits (addenda : List (Option Addenda)) (item : EntryDetail × Nat) : Prop where
  valid : item.1.Valid
  exact : item.1.record.Exact
  present : item.1.addendaIndicator = '1' → ∃ a, addenda[item.2]? = some (some a)
  addenda : ∀ a, addendaOf addenda item = some a →
    a.typeCode.length = 2 ∧ (a.record item.1).Exact

def AddendaPrintable (addenda : List (Option Addenda)) : Prop :=
  ∀ a, some a ∈ addenda → AllPrintable a.texts

variable {addenda : List (Option Addenda)} {out : Text} {f : NachaFile}

theorem addendaOf_mem {item : EntryDetail × Nat} {a : Addenda}
    (h : addendaOf addenda item = some a) :
    item.1.addendaIndicator = '1' ∧ addenda[item.2]? = some (some a) := by
  unfold addendaOf at h
  by_cases hind : item.1.addendaIndicator = '1'
  · rw [if_pos hind, Option.join_eq_some_iff] at h
    exact ⟨hind, h⟩
  · rw [if_neg hind] at h
    cases h

theorem pushAddenda_ok (item : EntryDetail × Nat) (ha : AddendaPrintable addenda)
    (htrace : PrintableText item.1.traceNumber)
    (hlen : item.1.traceNumber.length = 15) {records : Nat} {r : Text × Nat}
    (h : pushAddenda addenda item.1 item.2 out records = .ok r) :
    (item.1.addendaIndicator = '1' → ∃ a, addenda[item.2]? = some (some a)) ∧
      (∀ a, addendaOf addenda item = some a → a.typeCode.length = 2 ∧ (a.record item.1).Exact) ∧
      r.1 = out ++ writeRecords ((addendaOf addenda item).map fun a => a.record item.1).toList ∧
      r.2 = records + (addendaOf addenda item).toList.length := by
  unfold pushAddenda at h
  by_cases hind : item.1.addendaIndicator = '1'
  · rw [if_pos hind] at h
    split at h
    · next a hget =>
        obtain ⟨line, hline, hrest⟩ := bind_eq_ok.1 h
        obtain ⟨out', hout, hrest⟩ := bind_eq_ok.1 hrest
        obtain ⟨records', hrecords, hpair⟩ := bind_eq_ok.1 hrest
        have hprint := ha a (List.mem_of_getElem? hget)
        obtain ⟨htype, rfl⟩ :=
          (encodeAddenda_ok_iff hprint htrace hlen).1 hline
        obtain ⟨hexact, hout⟩ := exact_of_push (addenda_wide htype) hout
        obtain ⟨-, hrecords⟩ := addU32_ok_iff.1 hrecords
        have hof : addendaOf addenda item = some a := by
          rw [addendaOf, if_pos hind, hget]
          rfl
        rw [← Except.ok.inj hpair, hof]
        refine ⟨fun _ => ⟨a, hget⟩, ?_, hout, hrecords⟩
        intro a' ha'
        cases ha'
        exact ⟨htype, hexact⟩
    · cases h
  · rw [if_neg hind] at h
    have hof : addendaOf addenda item = none := if_neg hind
    rw [← Except.ok.inj h, hof]
    refine ⟨fun hone => absurd hone hind, nofun, ?_, rfl⟩
    exact (List.append_nil out).symm

theorem addAmount_ok {debit credit : Nat} {e : EntryDetail}
    {r : Nat × Nat} (h : addAmount debit credit e = .ok r) :
    r.1 = debit + e.debit ∧ r.2 = credit + e.credit := by
  unfold addAmount at h
  unfold EntryDetail.debit EntryDetail.credit
  by_cases hcr : isCredit e.transactionCode.toNat = true
  · rw [if_pos hcr] at h
    obtain ⟨c, hc, hpair⟩ := bind_eq_ok.1 h
    rw [if_pos hcr, if_pos hcr, ← Except.ok.inj hpair]
    exact ⟨rfl, (checkedAdd_ok_iff.1 hc).2⟩
  · rw [if_neg hcr] at h
    obtain ⟨d, hd, hpair⟩ := bind_eq_ok.1 h
    rw [if_neg hcr, if_neg hcr, ← Except.ok.inj hpair]
    exact ⟨(checkedAdd_ok_iff.1 hd).2, rfl⟩

/-- One turn of the loop over the entries. -/
theorem pushEntry_ok {acc acc' : Entries} {item : EntryDetail × Nat}
    (hp : AllPrintable item.1.texts) (ha : AddendaPrintable addenda)
    (h : pushEntry addenda acc item = .ok acc') :
    ItemFits addenda item ∧
      acc' = {
        out := acc.out ++ writeRecords (itemRecords addenda item)
        records := acc.records + (itemRecords addenda item).length
        entryHash := (acc.entryHash + item.1.routing) % 2 ^ 64
        debit := acc.debit + item.1.debit
        credit := acc.credit + item.1.credit } := by
  obtain ⟨entry, idx⟩ := item
  unfold pushEntry at h
  simp only at h hp
  obtain ⟨_, hvalid, h⟩ := bind_eq_ok.1 h
  obtain ⟨line, hline, h⟩ := bind_eq_ok.1 h
  obtain ⟨out, hout, h⟩ := bind_eq_ok.1 h
  obtain ⟨records, hrecords, h⟩ := bind_eq_ok.1 h
  obtain ⟨hacct, hrcv⟩ := (validateEntry_ok_iff entry).1 hvalid
  obtain ⟨hrdfi, hlen, rfl⟩ := (encodeEntry_ok_iff hp).1 hline
  have hv : entry.Valid := ⟨hacct, hrcv, hrdfi, hlen⟩
  obtain ⟨hexact, rfl⟩ := exact_of_push hv.wide hout
  obtain ⟨-, rfl⟩ := addU32_ok_iff.1 hrecords
  rw [(sliceText_rdfi hrdfi).1, ok_bind] at h
  obtain ⟨routing, hrouting, h⟩ := bind_eq_ok.1 h
  obtain ⟨⟨debit, credit⟩, hamount, h⟩ := bind_eq_ok.1 h
  obtain ⟨⟨out', records'⟩, hadd, h⟩ := bind_eq_ok.1 h
  have htrace : PrintableText entry.traceNumber :=
    hp _ (by simp [EntryDetail.texts])
  obtain ⟨hpresent, haddenda, hout', hrecords'⟩ :=
    pushAddenda_ok (entry, idx) ha htrace hlen hadd
  have hnumber : routing = entry.routing := by
    unfold parseU64 at hrouting
    split at hrouting
    · next n hparse =>
        rw [← Except.ok.inj hrouting]
        exact number_of_parseUnsigned (fun c hc => hrdfi.2 c (List.mem_of_mem_take hc)) hparse
    · cases hrouting
  obtain ⟨hdb, hcr⟩ := addAmount_ok hamount
  simp only at hout' hrecords'
  refine ⟨⟨hv, hexact, hpresent, haddenda⟩, ?_⟩
  rw [← Except.ok.inj h, hnumber, hcr, hdb, hout', hrecords']
  simp only [itemRecords, Entries.mk.injEq, and_true]
  constructor
  · rw [List.append_assoc, ← writeRecords_append]
    rfl
  · simp only [List.length_cons, Option.length_toList, Option.isSome_map]
    omega

def detailRecords (addenda : List (Option Addenda))
    (items : List (EntryDetail × Nat)) : List Record :=
  items.flatMap (itemRecords addenda)

theorem detailRecords_concat (addenda : List (Option Addenda))
    (items : List (EntryDetail × Nat)) (item : EntryDetail × Nat) :
    detailRecords addenda (items ++ [item])
      = detailRecords addenda items ++ itemRecords addenda item := by
  simp [detailRecords]

def afterEntries (addenda : List (Option Addenda)) (out : Text)
    (records : Nat) (items : List (EntryDetail × Nat)) : Entries where
  out := out ++ writeRecords (detailRecords addenda items)
  records := records + (detailRecords addenda items).length
  entryHash := (tallyOf (items.map Prod.fst)).hash % 2 ^ 64
  debit := (tallyOf (items.map Prod.fst)).debit
  credit := (tallyOf (items.map Prod.fst)).credit

/-- The whole loop over the entries. -/
theorem pushEntries_ok (ha : AddendaPrintable addenda) {items : List (EntryDetail × Nat)}
    (hp : ∀ item ∈ items, AllPrintable item.1.texts) {records : Nat}
    {acc : Entries} (h : items.foldlM (pushEntry addenda)
      { out, records, entryHash := 0, debit := 0, credit := 0 } = .ok acc) :
    (∀ item ∈ items, ItemFits addenda item) ∧ acc = afterEntries addenda out records items := by
  -- the invariant is what is to be shown, of the items consumed
  refine foldlM_ok (P := fun pre acc =>
    (∀ item ∈ pre, AllPrintable item.1.texts) →
      (∀ item ∈ pre, ItemFits addenda item) ∧
        acc = afterEntries addenda out records pre) ?_ ?_ h hp
  · intro _
    refine ⟨nofun, ?_⟩
    simp [afterEntries, detailRecords, tallyOf]
  · intro pre b item b' hpre hstep hprint
    rw [List.forall_mem_append, List.forall_mem_singleton] at hprint
    obtain ⟨hfits, rfl⟩ := hpre hprint.1
    obtain ⟨hitem, rfl⟩ := pushEntry_ok hprint.2 ha hstep
    refine ⟨?_, ?_⟩
    · rw [List.forall_mem_append, List.forall_mem_singleton]
      exact ⟨hfits, hitem⟩
    · simp only [afterEntries, detailRecords_concat, writeRecords_append,
        List.append_assoc, List.length_append, List.map_append, List.map_cons,
        List.map_nil, tallyOf_append, Nat.add_assoc, Nat.mod_add_mod]
      simp [tallyOf]

-- ==== the batches

def NachaBatch.items (b : NachaBatch) : List (EntryDetail × Nat) :=
  b.entries.zipIdx

@[simp]
theorem map_fst_items (b : NachaBatch) : b.items.map Prod.fst = b.entries :=
  List.zipIdx_map_fst ..

def batchRecords (item : NachaBatch × Nat) : List Record :=
  item.1.header.record (item.2 + 1) ::
    (detailRecords item.1.addenda item.1.items ++
      [item.1.header.control (item.2 + 1) (tallyOf item.1.entries)])

/-- The batch is what the encoder asks for. -/
structure BatchFits (item : NachaBatch × Nat) : Prop where
  odfi : item.1.header.odfiShort.length = 8
  header : (item.1.header.record (item.2 + 1)).Exact
  entries : ∀ e ∈ item.1.items, ItemFits item.1.addenda e
  control : (item.1.header.control (item.2 + 1) (tallyOf item.1.entries)).Exact

theorem BatchFits.valid {item : NachaBatch × Nat} (h : BatchFits item) :
    ∀ e ∈ item.1.entries, e.Valid := by
  intro e he
  rw [← map_fst_items] at he
  obtain ⟨it, hit, rfl⟩ := List.mem_map.1 he
  exact (h.entries it hit).valid

section Printable

variable {b : NachaBatch} (hp : AllPrintable b.texts)
include hp

theorem printable_header : AllPrintable b.header.texts := by
  intro s hs
  apply hp
  simp [NachaBatch.texts, hs]

theorem printable_entries : ∀ e ∈ b.entries, AllPrintable e.texts := by
  intro e he s hs
  apply hp
  simp only [NachaBatch.texts, List.mem_append, List.mem_flatMap]
  exact Or.inl (Or.inr ⟨e, he, hs⟩)

theorem printable_items : ∀ item ∈ b.items, AllPrintable item.1.texts := by
  intro item hitem
  apply printable_entries hp
  rw [← map_fst_items]
  exact List.mem_map_of_mem hitem

theorem printable_addenda : AddendaPrintable b.addenda := by
  intro a ha s hs
  apply hp
  simp only [NachaBatch.texts, List.mem_append, List.mem_flatMap]
  exact Or.inr ⟨some a, ha, a, Option.mem_toList.2 rfl, hs⟩

end Printable

/-- One turn of the loop over the batches. -/
theorem pushBatch_ok {acc acc' : Totals} {item : NachaBatch × Nat}
    (hp : AllPrintable item.1.texts) (h : pushBatch acc item = .ok acc') :
    BatchFits item ∧ acc.totalEntries + item.1.entries.length < 2 ^ 32 ∧
      acc' = {
        out := acc.out ++ writeRecords (batchRecords item)
        records := acc.records + (batchRecords item).length
        totalEntries := acc.totalEntries + (tallyOf item.1.entries).count
        totalHash := (acc.totalHash + (tallyOf item.1.entries).hash) % 2 ^ 64
        totalDebit := acc.totalDebit + (tallyOf item.1.entries).debit
        totalCredit := acc.totalCredit + (tallyOf item.1.entries).credit } := by
  obtain ⟨batch, i⟩ := item
  simp only at hp
  have hheader := printable_header hp
  unfold pushBatch at h
  obtain ⟨batchNo, hno, h₁⟩ := bind_eq_ok.1 h
  obtain ⟨line, hline, h₂⟩ := bind_eq_ok.1 h₁
  obtain ⟨out, hout, h₃⟩ := bind_eq_ok.1 h₂
  obtain ⟨records, hrecords, h₄⟩ := bind_eq_ok.1 h₃
  obtain ⟨es, hes, h₅⟩ := bind_eq_ok.1 h₄
  obtain ⟨count, hcount, h₆⟩ := bind_eq_ok.1 h₅
  obtain ⟨-, rfl⟩ := tryU32_ok_iff.1 hno
  obtain ⟨hodfi, rfl⟩ := (encodeBatchHeader_ok_iff hheader).1 hline
  obtain ⟨hexact, rfl⟩ := exact_of_push (batchHeader_wide hodfi) hout
  obtain ⟨-, rfl⟩ := addU32_ok_iff.1 hrecords
  obtain ⟨hfits, rfl⟩ := pushEntries_ok (printable_addenda hp) (printable_items hp) hes
  obtain ⟨hsmall, rfl⟩ := tryU32_ok_iff.1 hcount
  -- fewer than 2^32 routing numbers do not wrap
  have hvalid : ∀ e ∈ batch.entries, e.Valid := by
    intro e he
    rw [← map_fst_items] at he
    obtain ⟨it, hit, rfl⟩ := List.mem_map.1 he
    exact (hfits it hit).valid
  have hhash := hash_le hvalid
  have hmod : (tallyOf batch.entries).hash % 2 ^ 64
      = (tallyOf batch.entries).hash := Nat.mod_eq_of_lt (by omega)
  simp only [afterEntries, map_fst_items, hmod] at h₆
  have hcontrol := encodeBatchControl_eq hheader (i + 1) (tallyOf batch.entries)
  rw [show (tallyOf batch.entries).count = batch.entries.length from rfl]
    at hcontrol
  rw [hcontrol, ok_bind] at h₆
  obtain ⟨out, hout, h₇⟩ := bind_eq_ok.1 h₆
  obtain ⟨records, hrecords, h₈⟩ := bind_eq_ok.1 h₇
  obtain ⟨totalEntries, hentries, h₉⟩ := bind_eq_ok.1 h₈
  obtain ⟨totalDebit, hdebit, h₁₀⟩ := bind_eq_ok.1 h₉
  obtain ⟨totalCredit, hcredit, h₁₁⟩ := bind_eq_ok.1 h₁₀
  obtain ⟨hexact', rfl⟩ := exact_of_push (batchControl_wide _ _ hodfi) hout
  obtain ⟨-, rfl⟩ := addU32_ok_iff.1 hrecords
  obtain ⟨hlt, rfl⟩ := addU32_ok_iff.1 hentries
  obtain ⟨-, rfl⟩ := checkedAdd_ok_iff.1 hdebit
  obtain ⟨-, rfl⟩ := checkedAdd_ok_iff.1 hcredit
  refine ⟨⟨hodfi, hexact, hfits, hexact'⟩, hlt, ?_⟩
  rw [← Except.ok.inj h₁₁]
  simp only [batchRecords, Totals.mk.injEq, and_true]
  refine ⟨?_, ?_, rfl⟩
  · simp only [List.append_assoc, ← writeRecords_append]
    rfl
  · simp only [List.length_cons, List.length_append, List.length_nil]
    show acc.records + 1 + (detailRecords batch.addenda batch.items).length + 1 = _
    omega

def batchesRecords (items : List (NachaBatch × Nat)) : List Record :=
  items.flatMap batchRecords

def entriesOf (items : List (NachaBatch × Nat)) : List EntryDetail :=
  items.flatMap fun item => item.1.entries

def afterBatches (out : Text) (items : List (NachaBatch × Nat)) : Totals where
  out := out ++ writeRecords (batchesRecords items)
  records := 1 + (batchesRecords items).length
  totalEntries := (tallyOf (entriesOf items)).count
  totalHash := (tallyOf (entriesOf items)).hash
  totalDebit := (tallyOf (entriesOf items)).debit
  totalCredit := (tallyOf (entriesOf items)).credit

theorem entriesOf_concat (items : List (NachaBatch × Nat)) (item : NachaBatch × Nat) :
    entriesOf (items ++ [item]) = entriesOf items ++ item.1.entries := by
  simp [entriesOf]

theorem valid_entriesOf {items : List (NachaBatch × Nat)} (h : ∀ item ∈ items, BatchFits item) :
    ∀ e ∈ entriesOf items, e.Valid := by
  intro e he
  obtain ⟨item, hitem, he⟩ := List.mem_flatMap.1 he
  exact (h item hitem).valid e he

/-- The whole loop over the batches. -/
theorem pushBatches_ok {items : List (NachaBatch × Nat)}
    (hp : ∀ item ∈ items, AllPrintable item.1.texts) {acc : Totals}
    (h : items.foldlM pushBatch
      { out, records := 1, totalEntries := 0, totalHash := 0, totalDebit := 0
        totalCredit := 0 } = .ok acc) :
    (∀ item ∈ items, BatchFits item) ∧
      (entriesOf items).length < 2 ^ 32 ∧ acc = afterBatches out items := by
  refine foldlM_ok (P := fun pre acc =>
    (∀ item ∈ pre, AllPrintable item.1.texts) →
      (∀ item ∈ pre, BatchFits item) ∧ (entriesOf pre).length < 2 ^ 32 ∧
        acc = afterBatches out pre) ?_ ?_ h hp
  · intro _
    refine ⟨nofun, by decide, ?_⟩
    simp [afterBatches, batchesRecords, entriesOf, tallyOf]
  · intro pre b item b' hpre hstep hprint
    rw [List.forall_mem_append, List.forall_mem_singleton] at hprint
    obtain ⟨hfits, -, rfl⟩ := hpre hprint.1
    obtain ⟨hitem, hcount, rfl⟩ := pushBatch_ok hprint.2 hstep
    have hall : ∀ x ∈ pre ++ [item], BatchFits x := by
      rw [List.forall_mem_append, List.forall_mem_singleton]
      exact ⟨hfits, hitem⟩
    have hlen : (entriesOf (pre ++ [item])).length < 2 ^ 32 := by
      rw [entriesOf_concat, List.length_append]
      exact hcount
    refine ⟨hall, hlen, ?_⟩
    -- fewer than 2^32 routing numbers do not wrap
    have hhash := hash_le (valid_entriesOf hall)
    rw [entriesOf_concat, tallyOf_append, ← entriesOf_concat] at hhash
    have hmod : ((tallyOf (entriesOf pre)).hash
        + (tallyOf item.1.entries).hash) % 2 ^ 64
          = (tallyOf (entriesOf pre)).hash + (tallyOf item.1.entries).hash :=
      Nat.mod_eq_of_lt (by simp only at hhash; omega)
    simp only [afterBatches, entriesOf_concat, tallyOf_append, hmod,
      batchesRecords, List.flatMap_append, List.flatMap_singleton,
      writeRecords_append, List.append_assoc, List.length_append,
      Nat.add_assoc]

-- ==== the file

def NachaFile.items (f : NachaFile) : List (NachaBatch × Nat) :=
  f.batches.zipIdx

def NachaFile.entries (f : NachaFile) : List EntryDetail := entriesOf f.items

def NachaFile.body (f : NachaFile) : List Record :=
  f.header.record :: batchesRecords f.items

def blocks (records : Nat) : Nat := (records + 9) / 10

/-- A file control below `body`, and filler to a multiple of ten. -/
def closing (batchCount : Nat) (body : List Record) (t : Tally) : List Record :=
  fileControl batchCount (blocks (body.length + 1)) t ::
    List.replicate (blocks (body.length + 1) * 10 - (body.length + 1)) fillerRecord

def NachaFile.records (f : NachaFile) : List Record :=
  f.body ++ closing f.batches.length f.body (tallyOf f.entries)

/-- The file is what the encoder asks for. -/
structure FileFits (f : NachaFile) : Prop where
  header : f.header.Valid
  headerExact : f.header.record.Exact
  batches : ∀ item ∈ f.items, BatchFits item
  control : (fileControl f.batches.length (blocks (f.body.length + 1))
    (tallyOf f.entries)).Exact

theorem push_fillers (k : Nat) : ∀ out : Text,
    (List.replicate k filler).foldlM pushLine out
      = .ok (out ++ writeRecords (List.replicate k fillerRecord)) := by
  have hline : fillerRecord.text = filler := by
    simp [fillerRecord, Record.text]
  induction k with
  | zero =>
    intro out
    simp [pure, Except.pure]
  | succ k ih =>
    intro out
    have hone := push_of_exact fillerRecord_exact out
    rw [hline] at hone
    rw [List.replicate_succ, List.foldlM_cons, hone, ok_bind, ih,
      List.append_assoc, ← writeRecords_append]
    rfl

theorem pushControl_ok {batches : Nat} {out' : Text}
    {items : List (NachaBatch × Nat)} (head : Record)
    (h : pushControl batches (afterBatches out items) = .ok out') :
    (fileControl batches (blocks ((head :: batchesRecords items).length + 1))
        (tallyOf (entriesOf items))).Exact ∧
      out' = out ++ writeRecords (batchesRecords items) ++
        writeRecords (closing batches (head :: batchesRecords items)
          (tallyOf (entriesOf items))) := by
  unfold pushControl at h
  obtain ⟨n, hn, h₁⟩ := bind_eq_ok.1 h
  obtain ⟨records, hrecords, h₂⟩ := bind_eq_ok.1 h₁
  obtain ⟨out₁, hout, h₃⟩ := bind_eq_ok.1 h₂
  obtain ⟨-, rfl⟩ := tryU32_ok_iff.1 hn
  obtain ⟨-, rfl⟩ := addU32_ok_iff.1 hrecords
  have hlen : (afterBatches out items).records + 1
      = (head :: batchesRecords items).length + 1 := by
    simp only [afterBatches, List.length_cons]
    omega
  rw [hlen] at hout h₃
  obtain ⟨hexact, rfl⟩ := exact_of_push
    (fileControl_wide _ (blocks ((head :: batchesRecords items).length + 1))
      (tallyOf (entriesOf items))) hout
  refine ⟨hexact, ?_⟩
  rw [push_fillers] at h₃
  rw [← Except.ok.inj h₃, closing, List.append_assoc, ← writeRecords_append]
  have hpadding : (10 - ((head :: batchesRecords items).length + 1) % 10) % 10
      = blocks ((head :: batchesRecords items).length + 1) * 10
        - ((head :: batchesRecords items).length + 1) := by
    unfold blocks
    omega
  rw [hpadding]
  rfl

theorem printable_batches (hp : AllPrintable f.texts) :
    ∀ item ∈ f.items, AllPrintable item.1.texts := by
  intro item hitem s hs
  apply hp
  have hmem : item.1 ∈ f.batches := by
    have hfst : f.items.map Prod.fst = f.batches := List.zipIdx_map_fst ..
    rw [← hfst]
    exact List.mem_map_of_mem hitem
  rw [NachaFile.texts, List.mem_append, List.mem_flatMap]
  exact Or.inr ⟨item.1, hmem, hs⟩

theorem printable_fileHeader (hp : AllPrintable f.texts) : AllPrintable f.header.texts :=
  fun s hs => hp s (List.mem_append_left _ hs)

/-- What a successful run has written. -/
theorem encode_ok (hp : AllPrintable f.texts) {w : Text}
    (h : f.encode = .ok w) : FileFits f ∧ w = writeRecords f.records := by
  unfold NachaFile.encode at h
  obtain ⟨line, hline, h₁⟩ := bind_eq_ok.1 h
  obtain ⟨out, hout, h₂⟩ := bind_eq_ok.1 h₁
  obtain ⟨acc, hacc, h₃⟩ := bind_eq_ok.1 h₂
  obtain ⟨hvalid, rfl⟩ :=
    (encodeFileHeader_ok_iff (printable_fileHeader hp)).1 hline
  obtain ⟨hexact, rfl⟩ := exact_of_push hvalid.wide hout
  obtain ⟨hfits, -, rfl⟩ := pushBatches_ok (printable_batches hp) hacc
  obtain ⟨hcontrol, rfl⟩ := pushControl_ok f.header.record h₃
  refine ⟨⟨hvalid, hexact, hfits, hcontrol⟩, ?_⟩
  rw [NachaFile.records, writeRecords_append, List.nil_append, ← writeRecords_append]
  rfl

theorem FileFits.exact (h : FileFits f) : ∀ r ∈ f.records, r.Exact := by
  have hitems : ∀ r ∈ batchesRecords f.items, r.Exact := by
    intro r hr
    obtain ⟨item, hitem, hr⟩ := List.mem_flatMap.1 hr
    have hbatch := h.batches item hitem
    rcases List.mem_cons.1 hr with rfl | hr
    · exact hbatch.header
    · rcases List.mem_append.1 hr with hr | hr
      · obtain ⟨e, he, hr⟩ := List.mem_flatMap.1 hr
        have hentry := hbatch.entries e he
        rcases List.mem_cons.1 hr with rfl | hr
        · exact hentry.exact
        · obtain ⟨a, ha, rfl⟩ := Option.map_eq_some_iff.1 (Option.mem_toList.1 hr)
          exact (hentry.addenda a ha).2
      · rw [List.mem_singleton.1 hr]
        exact hbatch.control
  intro r hr
  rcases List.mem_append.1 hr with hr | hr
  · rcases List.mem_cons.1 hr with rfl | hr
    · exact h.headerExact
    · exact hitems r hr
  · rcases List.mem_cons.1 hr with rfl | hr
    · exact h.control
    · rw [List.eq_of_mem_replicate hr]
      exact fillerRecord_exact

theorem printable_detailLines {b : NachaBatch} (hp : AllPrintable b.texts) :
    ∀ r ∈ detailRecords b.addenda b.items, PrintableText r.text := by
  intro r hr
  obtain ⟨item, hitem, hr⟩ := List.mem_flatMap.1 hr
  rcases List.mem_cons.1 hr with rfl | hr
  · exact printable_entryLine (printable_items hp item hitem)
  · obtain ⟨a, ha, rfl⟩ := Option.map_eq_some_iff.1 (Option.mem_toList.1 hr)
    have hget := (addendaOf_mem ha).2
    exact printable_addendaLine (printable_addenda hp a (List.mem_of_getElem? hget)) _

theorem printable_records (hp : AllPrintable f.texts) :
    ∀ r ∈ f.records, PrintableText r.text := by
  intro r hr
  rcases List.mem_append.1 hr with hr | hr
  · rcases List.mem_cons.1 hr with rfl | hr
    · exact printable_fileHeaderLine (printable_fileHeader hp)
    · obtain ⟨item, hitem, hr⟩ := List.mem_flatMap.1 hr
      have hbatch := printable_batches hp item hitem
      rcases List.mem_cons.1 hr with rfl | hr
      · exact printable_batchHeaderLine (printable_header hbatch) _
      · rcases List.mem_append.1 hr with hr | hr
        · exact printable_detailLines hbatch r hr
        · rw [List.mem_singleton.1 hr]
          exact printable_batchControlLine (printable_header hbatch) _ _
  · rcases List.mem_cons.1 hr with rfl | hr
    · exact printable_fileControlLine _ _ _
    · rw [List.eq_of_mem_replicate hr]
      exact printable_filler

theorem splitOn_records (hp : AllPrintable f.texts) :
    (writeRecords f.records).splitOn '\n' = f.records.map Record.text ++ [[]] := by
  apply splitOn_unlines
  intro l hl
  obtain ⟨r, hr, rfl⟩ := List.mem_map.1 hl
  exact (printable_records hp r hr).newline_not_mem

end OpenStandards.OpBatch

/-
Decoding op-batch's NACHA file and encoding it again.

The decoder always reads back the file that was written; what it reads is
`reread`. Encoding that gives the same text exactly when the trimming of
the decoder took nothing the encoder does not put back (`roundTrip_iff`).
One direction is that equal lines have equal fields; the other that the
encoder sees of a file only what the records show of it
(`encode_reread`).
-/
import OpenStandards.OpBatch.Proofs.NachaControls
import OpenStandards.OpBatch.Proofs.NachaDecode

namespace OpenStandards.OpBatch

open Lib OpCore Text

-- ==== stability

variable {s : Text} {n : Nat} {e : EntryDetail} {b : NachaBatch}

/-- The encoder puts back what the decoder trims from a column. -/
theorem cut_trim_cut_iff (hs : PrintableText s) (w : Nat) :
    cut w (trim (cut w s)) = cut w s ↔ Aligned (s.take w) := by
  have hle := length_trim_le (cut w s)
  rw [length_cut] at hle
  rw [cut_of_le hle, padRight_trim_iff (hs.cut w) (length_cut w s), aligned_cut]

def FileHeader.Stable (h : FileHeader) : Prop :=
  Trimmed h.immediateDestination ∧ Trimmed h.immediateOrigin ∧
    Aligned (h.immediateDestinationName.take 23) ∧
    Aligned (h.immediateOriginName.take 23) ∧
    Aligned (h.referenceCode.take 8)

def BatchHeader.Stable (h : BatchHeader) : Prop :=
  Aligned (h.companyName.take 16) ∧
    Aligned (h.companyDiscretionary.take 20) ∧
    Aligned (h.companyId.take 10) ∧
    Aligned (h.companyEntryDescription.take 10)

def EntryDetail.Stable (e : EntryDetail) : Prop :=
  e.accountNumber.head? ≠ some ' ' ∧ e.receiverName.head? ≠ some ' ' ∧
    Aligned (e.individualId.take 15) ∧ Aligned (e.discretionary.take 2)

def Addenda.Stable (a : Addenda) : Prop :=
  Aligned (a.paymentRelatedInfo.take 80)

/-- The texts that are written hold no blank that is lost on reading. -/
def NachaFile.Stable (f : NachaFile) : Prop :=
  f.header.Stable ∧ ∀ item ∈ f.items, item.1.header.Stable ∧
    ∀ x ∈ item.1.items, x.1.Stable ∧ ∀ a, addendaOf item.1.addenda x = some a → a.Stable

-- ==== the header

theorem PrintableText.trim (hs : PrintableText s) :
    PrintableText (trim s) := hs.mono (trim_subset s)

theorem printable_rereadHeader {h : FileHeader}
    (hp : AllPrintable h.texts) : AllPrintable h.reread.texts := by
  simp only [AllPrintable, FileHeader.texts, List.forall_mem_cons] at hp
  obtain ⟨h1, h2, h3, h4, h5, h6, h7, h8, -⟩ := hp
  simp only [AllPrintable, FileHeader.texts, FileHeader.reread,
    List.forall_mem_cons, PrintableText.trim h1, PrintableText.trim h2, h3,
    h4, h5, PrintableText.trim (h6.cut 23), PrintableText.trim (h7.cut 23),
    PrintableText.trim (h8.cut 8), true_and]
  exact List.forall_mem_nil _

theorem fileHeader_stable_iff {h : FileHeader} (hp : AllPrintable h.texts) (hv : h.Valid) :
    (h.reread.Valid ∧ h.reread.record.fields = h.record.fields) ↔ h.Stable := by
  simp only [AllPrintable, FileHeader.texts, List.forall_mem_cons] at hp
  obtain ⟨h1, h2, -, -, -, h6, h7, h8, -⟩ := hp
  have hdest : (trim h.immediateDestination).length = 10 ↔ Trimmed h.immediateDestination := by
    rw [← hv.1, length_trim_iff h1]
  have horig : (trim h.immediateOrigin).length = 10 ↔ Trimmed h.immediateOrigin := by
    rw [← hv.2.1, length_trim_iff h2]
  simp only [FileHeader.Valid, FileHeader.reread, FileHeader.record, hdest,
    horig, hv.2.2.1, hv.2.2.2, List.cons.injEq, cut_trim_cut_iff h6,
    cut_trim_cut_iff h7, cut_trim_cut_iff h8, true_and, and_true,
    FileHeader.Stable]
  constructor
  · intro hboth
    rcases hboth with ⟨⟨htd, hto⟩, -, -, hrest⟩
    exact ⟨htd, hto, hrest⟩
  · intro hstable
    rcases hstable with ⟨htd, hto, hrest⟩
    exact ⟨⟨htd, hto⟩, trim_of_trimmed h1 htd, trim_of_trimmed h2 hto, hrest⟩

-- ==== the batch header

theorem printable_rereadBatchHeader {h : BatchHeader}
    (hp : AllPrintable h.texts) : AllPrintable (h.reread n).texts := by
  simp only [AllPrintable, BatchHeader.texts, List.forall_mem_cons] at hp
  obtain ⟨h1, h2, h3, h4, h5, h6, h7, h8, -⟩ := hp
  simp only [AllPrintable, BatchHeader.texts, BatchHeader.reread,
    List.forall_mem_cons, PrintableText.trim (h1.cut 16),
    PrintableText.trim (h2.cut 20), PrintableText.trim (h3.cut 10),
    PrintableText.trim (h4.cut 10), h5.cut 6, h6.cut 6, h7, h8, true_and]
  exact List.forall_mem_nil _

theorem cut_cut (w : Nat) (s : Text) : cut w (cut w s) = cut w s :=
  cut_of_length (length_cut w s)

theorem batchHeader_stable_iff {h : BatchHeader} (hp : AllPrintable h.texts) (m n : Nat) :
    ((h.reread m).record n).fields = (h.record n).fields ↔ h.Stable := by
  simp only [AllPrintable, BatchHeader.texts, List.forall_mem_cons] at hp
  obtain ⟨h1, h2, h3, h4, -⟩ := hp
  simp only [BatchHeader.reread, BatchHeader.record, List.cons.injEq,
    cut_trim_cut_iff h1, cut_trim_cut_iff h2, cut_trim_cut_iff h3,
    cut_trim_cut_iff h4, cut_cut, true_and, and_true, BatchHeader.Stable]

theorem batchControl_stable {h : BatchHeader} (hp : AllPrintable h.texts)
    (hs : h.Stable) (m n : Nat) (t : Tally) :
    (h.reread m).control n t = h.control n t := by
  have hid : PrintableText h.companyId := hp _ (by simp [BatchHeader.texts])
  simp only [BatchHeader.control, BatchHeader.reread, (cut_trim_cut_iff hid 10).2 hs.2.2.1]

-- ==== the entries

theorem printable_rereadEntry (hp : AllPrintable e.texts) : AllPrintable e.reread.texts := by
  simp only [AllPrintable, EntryDetail.texts, List.forall_mem_cons] at hp
  obtain ⟨h1, h2, h3, h4, h5, h6, h7, -⟩ := hp
  simp only [AllPrintable, EntryDetail.texts, EntryDetail.reread,
    List.forall_mem_cons, h1, PrintableText.trim (h2.cut 17),
    PrintableText.trim (h3.cut 15), PrintableText.trim (h4.cut 22),
    PrintableText.trim (h5.cut 2), h6, h7, true_and]
  exact List.forall_mem_nil _

/-- A text that is wanted not empty is so after trimming, and is padded
back, exactly when it does not begin with a blank. -/
theorem required_stable_iff (hs : PrintableText s) (hne : s ≠ []) {w : Nat}
    (hw : 0 < w) :
    (trim (cut w s) ≠ [] ∧ cut w (trim (cut w s)) = cut w s) ↔ s.head? ≠ some ' ' := by
  rw [cut_trim_cut_iff hs]
  have htake : (s.take w).head? = s.head? := by
    rw [List.head?_take, if_neg (by omega)]
  constructor
  · intro h hhead
    rcases h with ⟨htrim, haligned⟩
    -- the column would be blank
    apply htrim
    apply trim_of_blank
    intro c hc
    rcases List.mem_append.1 hc with hc | hc
    · exact haligned (htake.trans hhead) c hc
    · exact List.eq_of_mem_replicate hc
  · intro hhead
    have haligned : Aligned (s.take w) := fun h =>
      absurd (htake.symm.trans h) hhead
    refine ⟨?_, haligned⟩
    intro hnil
    have hpad := (cut_trim_cut_iff hs w).2 haligned
    rw [hnil] at hpad
    obtain ⟨c, t, rfl⟩ := List.exists_cons_of_ne_nil hne
    obtain ⟨v, rfl⟩ := Nat.exists_eq_succ_of_ne_zero (Nat.ne_of_gt hw)
    have hfirst := congrArg List.head? hpad
    have hblank : (cut (v + 1) ([] : Text)).head? = some ' ' := rfl
    have hc : (cut (v + 1) (c :: t)).head? = some c := rfl
    rw [Nat.succ_eq_add_one, hblank, hc] at hfirst
    exact hhead hfirst.symm

theorem entry_stable_iff (hp : AllPrintable e.texts) (hv : e.Valid) :
    (e.reread.Valid ∧ e.reread.record.fields = e.record.fields) ↔ e.Stable := by
  simp only [AllPrintable, EntryDetail.texts, List.forall_mem_cons] at hp
  obtain ⟨-, h2, h3, h4, h5, -⟩ := hp
  obtain ⟨hacct, hrcv, hrdfi, htrace⟩ := hv
  have hacct' := required_stable_iff h2 hacct (w := 17) (by decide)
  have hrcv' := required_stable_iff h4 hrcv (w := 22) (by decide)
  simp only [EntryDetail.Valid, EntryDetail.reread, EntryDetail.record, hrdfi,
    htrace, List.cons.injEq, cut_trim_cut_iff h3, cut_trim_cut_iff h5,
    true_and, and_true, EntryDetail.Stable, ← hacct', ← hrcv']
  constructor
  · intro h
    rcases h with ⟨⟨ha, hr⟩, hacut, hind, hrcut, hdiscr⟩
    exact ⟨⟨ha, hacut⟩, ⟨hr, hrcut⟩, hind, hdiscr⟩
  · intro h
    rcases h with ⟨⟨ha, hacut⟩, ⟨hr, hrcut⟩, hind, hdiscr⟩
    exact ⟨⟨ha, hr⟩, hacut, hind, hrcut, hdiscr⟩

-- ==== the addenda

theorem printable_rereadAddenda {a : Addenda} (hp : AllPrintable a.texts) :
    AllPrintable (a.reread e).texts := by
  simp only [AllPrintable, Addenda.texts, List.forall_mem_cons] at hp
  obtain ⟨h1, h2, -⟩ := hp
  simp only [AllPrintable, Addenda.texts, Addenda.reread,
    List.forall_mem_cons, h1, PrintableText.trim (h2.cut 80), true_and]
  exact List.forall_mem_nil _

/-- The sequence number that is written does not change. -/
theorem entrySequence_reread (a : Addenda) (e : EntryDetail) :
    entrySequence (a.reread e) e.traceTail = entrySequence a e.traceTail := by
  unfold entrySequence Addenda.reread
  cases hparse : parseUnsigned (2 ^ 32) e.traceTail with
  | some n => rfl
  | none =>
    show (UInt32.ofNat (entrySequence a e.traceTail)).toNat = a.entryDetailSequence.toNat
    rw [entrySequence, hparse, Option.getD_none, UInt32.ofNat_toNat]

theorem addenda_stable_iff {a : Addenda} (hp : AllPrintable a.texts) (e : EntryDetail) :
    ((a.reread e).record e.reread).fields = (a.record e).fields ↔ a.Stable := by
  have hinfo : PrintableText a.paymentRelatedInfo :=
    hp _ (by simp [Addenda.texts])
  have hseq : entrySequence (a.reread e) e.reread.traceTail
      = entrySequence a e.traceTail := entrySequence_reread a e
  simp only [Addenda.record, hseq, List.cons.injEq, true_and, and_true]
  simp only [Addenda.reread, cut_trim_cut_iff hinfo, true_and, and_true, Addenda.Stable]

-- ==== the whole

/-- An item of a list with its indices stands at its index. -/
theorem getElem?_of_mem_zipIdx {α : Type} {l : List α} {x : α × Nat}
    (h : x ∈ l.zipIdx) : l.zipIdx[x.2]? = some x := by
  obtain ⟨hlt, hx⟩ := List.mem_zipIdx' h
  rw [List.getElem?_zipIdx, List.getElem?_eq_getElem hlt, Option.map_some, Nat.zero_add, ← hx]

theorem items_reread (b : NachaBatch) (n : Nat) :
    (b.reread n).items = b.items.map fun x => (x.1.reread, x.2) := by
  have hentries : (b.reread n).entries = b.entries.map EntryDetail.reread := by
    rw [← map_fst_items b, List.map_map]
    rfl
  rw [NachaBatch.items, hentries, List.zipIdx_map]
  rfl

theorem getElem?_addenda_reread (n : Nat) {x : EntryDetail × Nat} (hx : x ∈ b.items) :
    (b.reread n).addenda[x.2]? = some (rereadAddenda b.addenda x) := by
  have hat : b.items[x.2]? = some x := getElem?_of_mem_zipIdx hx
  show (b.items.map (rereadAddenda b.addenda))[x.2]? = _
  rw [List.getElem?_map, hat, Option.map_some]

theorem addendaOf_reread {x : EntryDetail × Nat} (hx : x ∈ b.items) :
    addendaOf (b.reread n).addenda (x.1.reread, x.2) = rereadAddenda b.addenda x := by
  have hget := getElem?_addenda_reread n hx
  have hind : x.1.reread.addendaIndicator = x.1.addendaIndicator := rfl
  unfold addendaOf
  simp only [hget, hind]
  by_cases hone : x.1.addendaIndicator = '1'
  · rw [if_pos hone]
    rfl
  · rw [if_neg hone, rereadAddenda, addendaOf, if_neg hone]
    rfl

theorem itemRecords_reread {x : EntryDetail × Nat} (hx : x ∈ b.items) :
    itemRecords (b.reread n).addenda (x.1.reread, x.2)
      = x.1.reread.record :: ((addendaOf b.addenda x).map fun a =>
          (a.reread x.1).record x.1.reread).toList := by
  rw [itemRecords, addendaOf_reread hx, rereadAddenda, Option.map_map]
  rfl

theorem length_itemRecords_reread {x : EntryDetail × Nat} (hx : x ∈ b.items) :
    (itemRecords (b.reread n).addenda (x.1.reread, x.2)).length
      = (itemRecords b.addenda x).length := by
  rw [itemRecords_reread hx, itemRecords]
  simp only [List.length_cons, Option.length_toList, Option.isSome_map]

theorem detailRecords_reread (b : NachaBatch) (n : Nat) :
    detailRecords (b.reread n).addenda (b.reread n).items
      = b.items.flatMap fun x =>
          itemRecords (b.reread n).addenda (x.1.reread, x.2) := by
  rw [detailRecords, items_reread, List.flatMap_map]

/-- Pieces of the same lengths agree where what they make up does. -/
theorem flatMap_inj {α β : Type} {l : List α} {A B : α → List β}
    (hlen : ∀ x ∈ l, (A x).length = (B x).length)
    (h : l.flatMap A = l.flatMap B) : ∀ x ∈ l, A x = B x := by
  induction l with
  | nil => exact nofun
  | cons y l ih =>
    rw [List.forall_mem_cons] at hlen
    rw [List.flatMap_cons, List.flatMap_cons] at h
    obtain ⟨hy, hl⟩ := List.append_inj h hlen.1
    rw [List.forall_mem_cons]
    exact ⟨hy, ih hlen.2 hl⟩

theorem items_rereadFile (f : NachaFile) :
    f.reread.items = f.items.map fun item =>
      (item.1.reread (item.2 + 1), item.2) := by
  apply List.ext_getElem?
  intro i
  simp only [NachaFile.items, NachaFile.reread, List.getElem?_zipIdx,
    List.getElem?_map, Option.map_map, Nat.zero_add]
  rfl

theorem batchesRecords_reread (f : NachaFile) :
    batchesRecords f.reread.items = f.items.flatMap fun item =>
      batchRecords (item.1.reread (item.2 + 1), item.2) := by
  rw [batchesRecords, items_rereadFile, List.flatMap_map]

theorem length_batchRecords_reread (item : NachaBatch × Nat) :
    (batchRecords (item.1.reread (item.2 + 1), item.2)).length
      = (batchRecords item).length := by
  have hdetails : (detailRecords (item.1.reread (item.2 + 1)).addenda
      (item.1.reread (item.2 + 1)).items).length
        = (detailRecords item.1.addenda item.1.items).length := by
    rw [detailRecords_reread, detailRecords, List.length_flatMap, List.length_flatMap]
    refine congrArg List.sum (List.map_congr_left ?_)
    intro x hx
    exact length_itemRecords_reread hx
  simp only [batchRecords, List.length_cons, List.length_append, hdetails]

section Printable

theorem printable_rereadBatch {b : NachaBatch} (hp : AllPrintable b.texts)
    (n : Nat) : AllPrintable (b.reread n).texts := by
  intro s hs
  rw [NachaBatch.texts, List.mem_append, List.mem_append, List.mem_flatMap,
    List.mem_flatMap] at hs
  rcases hs with (hs | ⟨e, he, hs⟩) | ⟨o, ho, hs⟩
  · exact printable_rereadBatchHeader (printable_header hp) s hs
  · obtain ⟨x, hx, rfl⟩ := List.mem_map.1 he
    exact printable_rereadEntry (printable_items hp x hx) s hs
  · obtain ⟨x, hx, rfl⟩ := List.mem_map.1 ho
    obtain ⟨a, ha, hs⟩ := List.mem_flatMap.1 hs
    obtain ⟨a', ha', rfl⟩ := Option.map_eq_some_iff.1 (Option.mem_toList.1 ha)
    have hmem := List.mem_of_getElem? (addendaOf_mem ha').2
    exact printable_rereadAddenda (printable_addenda hp a' hmem) s hs

theorem printable_reread {f : NachaFile} (hp : AllPrintable f.texts) :
    AllPrintable f.reread.texts := by
  intro s hs
  rcases List.mem_append.1 hs with hs | hs
  · exact printable_rereadHeader (printable_fileHeader hp) s hs
  · obtain ⟨b, hb, hs⟩ := List.mem_flatMap.1 hs
    obtain ⟨item, hitem, rfl⟩ := List.mem_map.1 hb
    exact printable_rereadBatch (printable_batches hp item hitem) _ s hs

end Printable

-- ==== equal lines, equal fields

theorem item_stable_of_lines (hp : AllPrintable b.texts)
    {x : EntryDetail × Nat} (hx : x ∈ b.items) (hfits : ItemFits b.addenda x)
    (hfits' : ItemFits (b.reread n).addenda (x.1.reread, x.2))
    (h : (itemRecords (b.reread n).addenda (x.1.reread, x.2)).map Record.text
      = (itemRecords b.addenda x).map Record.text) :
    x.1.Stable ∧ ∀ a, addendaOf b.addenda x = some a → a.Stable := by
  rw [itemRecords_reread hx, itemRecords, List.map_cons, List.map_cons, List.cons.injEq] at h
  constructor
  · apply (entry_stable_iff (printable_items hp x hx) hfits.valid).1
    exact ⟨hfits'.valid, hfits'.exact.fields_eq hfits.exact rfl h.1⟩
  · intro a ha
    have hmem := List.mem_of_getElem? (addendaOf_mem ha).2
    apply (addenda_stable_iff (printable_addenda hp a hmem) x.1).1
    have hline := h.2
    rw [ha] at hline
    have hexact' := (hfits'.addenda (a.reread x.1) (by
      rw [addendaOf_reread hx, rereadAddenda, ha, Option.map_some])).2
    exact hexact'.fields_eq (hfits.addenda a ha).2 rfl (List.cons.inj hline).1

theorem batch_stable_of_lines {item : NachaBatch × Nat}
    (hp : AllPrintable item.1.texts) (hfits : BatchFits item)
    (hfits' : BatchFits (item.1.reread (item.2 + 1), item.2))
    (h : (batchRecords (item.1.reread (item.2 + 1), item.2)).map Record.text
      = (batchRecords item).map Record.text) :
    item.1.header.Stable ∧ ∀ x ∈ item.1.items, x.1.Stable ∧
      ∀ a, addendaOf item.1.addenda x = some a → a.Stable := by
  rw [batchRecords, batchRecords, List.map_cons, List.map_cons,
    List.cons.injEq, List.map_append, List.map_append] at h
  have hdetails := (List.append_inj' h.2 rfl).1
  rw [detailRecords_reread, detailRecords, List.map_flatMap, List.map_flatMap] at hdetails
  constructor
  · apply (batchHeader_stable_iff (printable_header hp) _ _).1
    exact hfits'.header.fields_eq hfits.header rfl h.1
  · intro x hx
    have hlen : ∀ x ∈ item.1.items,
        ((itemRecords (item.1.reread (item.2 + 1)).addenda
          (x.1.reread, x.2)).map Record.text).length
            = ((itemRecords item.1.addenda x).map Record.text).length := by
      intro x hx
      rw [List.length_map, List.length_map, length_itemRecords_reread hx]
    have hx' : (x.1.reread, x.2) ∈ (item.1.reread (item.2 + 1)).items := by
      rw [items_reread]
      exact List.mem_map_of_mem hx
    exact item_stable_of_lines hp hx (hfits.entries x hx)
      (hfits'.entries _ hx') (flatMap_inj hlen hdetails x hx)

theorem stable_of_lines {f : NachaFile} (hp : AllPrintable f.texts)
    (hfits : FileFits f) (hfits' : FileFits f.reread)
    (h : f.reread.records.map Record.text = f.records.map Record.text) :
    f.Stable := by
  rw [NachaFile.records, NachaFile.records, NachaFile.body, NachaFile.body,
    List.map_append, List.map_append, List.map_cons, List.map_cons,
    List.cons_append, List.cons_append, List.cons.injEq] at h
  have hlen : ∀ item ∈ f.items,
      ((batchRecords (item.1.reread (item.2 + 1), item.2)).map
        Record.text).length = ((batchRecords item).map Record.text).length := by
    intro item _
    rw [List.length_map, List.length_map, length_batchRecords_reread]
  have hall : ((batchesRecords f.reread.items).map Record.text).length
      = ((batchesRecords f.items).map Record.text).length := by
    rw [batchesRecords_reread, batchesRecords, List.map_flatMap,
      List.map_flatMap, List.length_flatMap, List.length_flatMap]
    exact congrArg List.sum (List.map_congr_left hlen)
  have hbatches := (List.append_inj h.2 hall).1
  rw [batchesRecords_reread, batchesRecords, List.map_flatMap, List.map_flatMap] at hbatches
  constructor
  · apply (fileHeader_stable_iff (printable_fileHeader hp) hfits.header).1
    exact ⟨hfits'.header, hfits'.headerExact.fields_eq hfits.headerExact rfl h.1⟩
  · intro item hitem
    have hitem' : (item.1.reread (item.2 + 1), item.2) ∈ f.reread.items := by
      rw [items_rereadFile]
      exact List.mem_map_of_mem hitem
    exact batch_stable_of_lines (printable_batches hp item hitem)
      (hfits.batches item hitem) (hfits'.batches _ hitem')
      (flatMap_inj hlen hbatches item hitem)

-- ==== what the encoder sees of a file

theorem text_eq {r q : Record} (h : r.fields = q.fields) : r.text = q.text :=
  congrArg List.flatten h

theorem encodeFileHeader_reread {h : FileHeader} (hp : AllPrintable h.texts)
    (hv : h.Valid) (hs : h.Stable) :
    encodeFileHeader h.reread = encodeFileHeader h := by
  obtain ⟨hv', hfields⟩ := (fileHeader_stable_iff hp hv).2 hs
  rw [(encodeFileHeader_ok_iff (printable_rereadHeader hp)).2 ⟨hv', rfl⟩,
    (encodeFileHeader_ok_iff hp).2 ⟨hv, rfl⟩, text_eq hfields]

theorem encodeBatchHeader_reread {h : BatchHeader}
    (hp : AllPrintable h.texts) (hodfi : h.odfiShort.length = 8) (hs : h.Stable) (m n : Nat) :
    encodeBatchHeader (h.reread m) n = encodeBatchHeader h n := by
  have hfields := (batchHeader_stable_iff hp m n).2 hs
  rw [(encodeBatchHeader_ok_iff (printable_rereadBatchHeader hp)).2
      ⟨hodfi, rfl⟩, (encodeBatchHeader_ok_iff hp).2 ⟨hodfi, rfl⟩,
    text_eq hfields]

theorem encodeBatchControl_reread {h : BatchHeader}
    (hp : AllPrintable h.texts) (hs : h.Stable) (m n : Nat) (count hash debit credit : Nat) :
    encodeBatchControl (h.reread m) n count hash debit credit
      = encodeBatchControl h n count hash debit credit := by
  have hboth := congrArg Record.text
    (batchControl_stable hp hs m n ⟨count, hash, debit, credit⟩)
  have h₁ := encodeBatchControl_eq hp n ⟨count, hash, debit, credit⟩
  have h₂ := encodeBatchControl_eq (printable_rereadBatchHeader (n := m) hp) n
    ⟨count, hash, debit, credit⟩
  exact h₂.trans ((congrArg Except.ok hboth).trans h₁.symm)

theorem encodeEntry_reread (hp : AllPrintable e.texts) (hv : e.Valid)
    (hs : e.Stable) : encodeEntry e.reread = encodeEntry e := by
  obtain ⟨hv', hfields⟩ := (entry_stable_iff hp hv).2 hs
  rw [(encodeEntry_ok_iff (printable_rereadEntry hp)).2
      ⟨hv'.2.2.1, hv'.2.2.2, rfl⟩,
    (encodeEntry_ok_iff hp).2 ⟨hv.2.2.1, hv.2.2.2, rfl⟩, text_eq hfields]

theorem validateEntry_reread (hp : AllPrintable e.texts) (hv : e.Valid)
    (hs : e.Stable) : validateEntry e.reread = validateEntry e := by
  obtain ⟨hv', -⟩ := (entry_stable_iff hp hv).2 hs
  have h₁ : validateEntry e.reread = .ok () :=
    (validateEntry_ok_iff _).2 ⟨hv'.1, hv'.2.1⟩
  have h₂ : validateEntry e = .ok () :=
    (validateEntry_ok_iff _).2 ⟨hv.1, hv.2.1⟩
  rw [h₁, h₂]

theorem pushAddenda_reread (hp : AllPrintable b.texts) {x : EntryDetail × Nat}
    (hx : x ∈ b.items) (hfits : ItemFits b.addenda x)
    (hs : ∀ a, addendaOf b.addenda x = some a → a.Stable) (out : Text) (records : Nat) :
    pushAddenda (b.reread n).addenda x.1.reread x.2 out records
      = pushAddenda b.addenda x.1 x.2 out records := by
  have hind : x.1.reread.addendaIndicator = x.1.addendaIndicator := rfl
  unfold pushAddenda
  rw [hind]
  by_cases hone : x.1.addendaIndicator = '1'
  · obtain ⟨a, ha⟩ := hfits.present hone
    have hof : addendaOf b.addenda x = some a := by
      rw [addendaOf, if_pos hone, ha]
      rfl
    have ha' : (b.reread n).addenda[x.2]? = some (some (a.reread x.1)) := by
      rw [getElem?_addenda_reread n hx, rereadAddenda, hof]
      rfl
    have hprint := printable_addenda hp a (List.mem_of_getElem? ha)
    have htrace : PrintableText x.1.traceNumber :=
      printable_items hp x hx _ (by simp [EntryDetail.texts])
    have hlen := hfits.valid.2.2.2
    have htype := (hfits.addenda a hof).1
    have hfields := (addenda_stable_iff hprint x.1).2 (hs a hof)
    have hline : encodeAddenda (a.reread x.1) x.1.reread = encodeAddenda a x.1 := by
      rw [(encodeAddenda_ok_iff hprint htrace hlen).2 ⟨htype, rfl⟩, ← text_eq hfields]
      exact (encodeAddenda_ok_iff (printable_rereadAddenda hprint) htrace hlen).2 ⟨htype, rfl⟩
    rw [if_pos hone, if_pos hone, ha, ha']
    simp only [hline]
  · rw [if_neg hone, if_neg hone]

theorem pushEntry_reread (hp : AllPrintable b.texts) {x : EntryDetail × Nat}
    (hx : x ∈ b.items) (hfits : ItemFits b.addenda x) (hs : x.1.Stable)
    (hsa : ∀ a, addendaOf b.addenda x = some a → a.Stable) (acc : Entries) :
    pushEntry (b.reread n).addenda acc (x.1.reread, x.2) = pushEntry b.addenda acc x := by
  have hprint := printable_items hp x hx
  simp only [pushEntry, validateEntry_reread hprint hfits.valid hs,
    encodeEntry_reread hprint hfits.valid hs,
    pushAddenda_reread hp hx hfits hsa]
  rfl

theorem pushBatch_reread {item : NachaBatch × Nat}
    (hp : AllPrintable item.1.texts) (hfits : BatchFits item)
    (hs : item.1.header.Stable)
    (hse : ∀ x ∈ item.1.items, x.1.Stable ∧
      ∀ a, addendaOf item.1.addenda x = some a → a.Stable) (acc : Totals) :
    pushBatch acc (item.1.reread (item.2 + 1), item.2) = pushBatch acc item := by
  have hheader := printable_header hp
  have hentries : ∀ es : Entries,
      (item.1.reread (item.2 + 1)).entries.zipIdx.foldlM
          (pushEntry (item.1.reread (item.2 + 1)).addenda) es
        = item.1.entries.zipIdx.foldlM (pushEntry item.1.addenda) es := by
    intro es
    have hitems := items_reread item.1 (item.2 + 1)
    unfold NachaBatch.items at hitems
    rw [hitems, List.foldlM_map]
    apply foldlM_congr
    intro x hx acc
    exact pushEntry_reread hp hx (hfits.entries x hx) (hse x hx).1 (hse x hx).2 acc
  have hcount : (item.1.reread (item.2 + 1)).entries.length = item.1.entries.length := by
    simp [NachaBatch.reread, NachaBatch.items]
  have hhead : (item.1.reread (item.2 + 1)).header = item.1.header.reread (item.2 + 1) := rfl
  simp only [pushBatch, hentries, hcount, hhead,
    encodeBatchHeader_reread hheader hfits.odfi hs,
    encodeBatchControl_reread hheader hs]

theorem encode_reread {f : NachaFile} (hp : AllPrintable f.texts)
    (hfits : FileFits f) (hs : f.Stable) : f.reread.encode = f.encode := by
  have hbatches : ∀ acc : Totals,
      f.reread.batches.zipIdx.foldlM pushBatch acc = f.batches.zipIdx.foldlM pushBatch acc := by
    intro acc
    have hitems := items_rereadFile f
    unfold NachaFile.items at hitems
    rw [hitems, List.foldlM_map]
    apply foldlM_congr
    intro item hitem acc
    exact pushBatch_reread (printable_batches hp item hitem)
      (hfits.batches item hitem) (hs.2 item hitem).1 (hs.2 item hitem).2 acc
  have hcount : f.reread.batches.length = f.batches.length := by
    simp [NachaFile.reread, NachaFile.items]
  have hhead : f.reread.header = f.header.reread := rfl
  simp only [NachaFile.encode, hbatches, hcount, hhead,
    encodeFileHeader_reread (printable_fileHeader hp) hfits.header hs.1]

-- ==== the result

def RoundTrips (w : Text) : Prop :=
  ∃ g, NachaFile.decode w = .ok g ∧ g.encode = .ok w

/-- A file of printable texts that is written comes back to the same text
exactly when it is stable. -/
theorem roundTrip_iff {f : NachaFile} {w : Text} (hp : AllPrintable f.texts)
    (h : f.encode = .ok w) : RoundTrips w ↔ f.Stable := by
  obtain ⟨hfits, hw⟩ := encode_ok hp h
  have hdecode := decode_written hp hfits
  rw [← hw] at hdecode
  constructor
  · intro hround
    rcases hround with ⟨g, hg, hencode⟩
    rw [hdecode] at hg
    obtain rfl := Except.ok.inj hg
    obtain ⟨hfits', hw'⟩ := encode_ok (printable_reread hp) hencode
    apply stable_of_lines hp hfits hfits'
    have hsplit := splitOn_records hp
    have hsplit' := splitOn_records (printable_reread hp)
    rw [← hw] at hsplit
    rw [← hw', hsplit] at hsplit'
    exact (List.append_inj' hsplit' rfl).1.symm
  · intro hs
    exact ⟨f.reread, hdecode, (encode_reread hp hfits hs).trans h⟩

/-- A file that comes back. -/
theorem oneCredit_roundTrips : ∃ w, (oneCredit '0' none).encode = .ok w ∧ RoundTrips w := by
  have hok : (oneCredit '0' none).encode.isOk = true := by decide +kernel
  obtain ⟨w, hw⟩ := isOk_iff.1 hok
  refine ⟨w, hw, (roundTrip_iff (by decide +kernel) hw).2 ?_⟩
  refine ⟨by unfold FileHeader.Stable; decide +kernel, ?_⟩
  intro item hitem
  rw [List.mem_singleton.1 hitem]
  refine ⟨by unfold BatchHeader.Stable; decide +kernel, ?_⟩
  intro x hx
  rw [List.mem_singleton.1 hx]
  exact ⟨by unfold EntryDetail.Stable; decide +kernel, nofun⟩

def NachaFile.sentTo (f : NachaFile) (destination : Text) : NachaFile :=
  { f with header := { f.header with immediateDestination := destination } }

/-- The destination in its customary form, a blank and nine digits, does
not come back. -/
theorem blank_destination_lost :
    ∃ w, ((oneCredit '0' none).sentTo " 021000021".toList).encode = .ok w ∧ ¬ RoundTrips w := by
  have hok : ((oneCredit '0' none).sentTo
      " 021000021".toList).encode.isOk = true := by decide +kernel
  obtain ⟨w, hw⟩ := isOk_iff.1 hok
  refine ⟨w, hw, ?_⟩
  intro hround
  rcases hround with ⟨g, hg, hencode⟩
  obtain ⟨hfits, hwritten⟩ := encode_ok (by decide +kernel) hw
  rw [hwritten, decode_written (by decide +kernel) hfits] at hg
  obtain rfl := Except.ok.inj hg
  have hlen := (encode_ok (by decide +kernel) hencode).1.header.1
  revert hlen
  decide +kernel

end OpenStandards.OpBatch

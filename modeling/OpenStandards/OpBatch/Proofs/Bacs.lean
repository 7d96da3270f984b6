/-
Does a Bacs file of op-batch come back?

The payments do: their lines are written and read by the same columns
(`decodeRecord_line`). The header label does not: `HDR1` is written and read
by different columns (`decode_written`), which agree only where name and day
repeat the digit before them (`shift_iff`). The trailer labels are not
measured, so a count or a total with too many digits runs into the next
(`totalsRight_iff`).
-/
import OpenStandards.OpBatch.Bacs

namespace OpenStandards.OpBatch

open Lib OpCore Text

-- ==== the texts

def BacsRecord.texts (r : BacsRecord) : List Text :=
  [r.destinationSortCode, r.destinationAccount, [r.accountType],
    r.originatorSortCode, r.originatorAccount, r.originatorReference,
    r.originatorName, r.destinationReference, r.destinationName]

def BacsFile.texts (f : BacsFile) : List Text :=
  [f.serviceUserNumber, f.originatorName, f.processingDayJulian] ++
    f.records.flatMap BacsRecord.texts

/-- A text within its width, without blanks at its ends. -/
def Neat (w : Nat) (s : Text) : Prop := s.length ≤ w ∧ Trimmed s

/-- The padded texts of a payment are within their widths. -/
def BacsRecord.Neat (r : BacsRecord) : Prop :=
  OpBatch.Neat 4 r.originatorReference ∧ OpBatch.Neat 18 r.originatorName ∧
    OpBatch.Neat 18 r.destinationReference ∧
    OpBatch.Neat 18 r.destinationName

/-- The texts of a file are within their widths. -/
def BacsFile.Neat (f : BacsFile) : Prop :=
  OpBatch.Neat 14 f.originatorName ∧ f.processingDayJulian.length = 5 ∧ ∀ r ∈ f.records, r.Neat

-- ==== the payments

def bacsWidths : List Nat := [6, 8, 1, 2, 6, 8, 4, 11, 18, 18, 18]

/-- The fields of a payment's line. -/
def BacsRecord.fields (r : BacsRecord) : List Text :=
  [r.destinationSortCode, r.destinationAccount, [r.accountType],
    r.transactionCode.asStr, r.originatorSortCode, r.originatorAccount,
    cut 4 r.originatorReference, zeroPad 11 r.amountPence.toNat,
    cut 18 r.originatorName, cut 18 r.destinationReference,
    cut 18 r.destinationName]

def BacsRecord.line (r : BacsRecord) : Text := r.fields.flatten

/-- What the encoder asks of a payment. -/
structure BacsRecord.Fits (r : BacsRecord) : Prop where
  destinationSortCode : Digits 6 r.destinationSortCode
  columns : List.Forall₂ Fills bacsWidths r.fields

theorem BacsTransactionCode.length_asStr (tx : BacsTransactionCode) : tx.asStr.length = 2 := by
  cases tx <;> rfl

theorem BacsTransactionCode.printable (tx : BacsTransactionCode) : PrintableText tx.asStr := by
  cases tx <;> decide

theorem BacsTransactionCode.fromStr_asStr (tx : BacsTransactionCode) :
    BacsTransactionCode.fromStr tx.asStr = .ok tx := by
  cases tx <;> rfl

variable {r : BacsRecord} {f : BacsFile} {d : Char}

/-- The line of a payment that is written has every field in its
columns. -/
theorem encodeRecord_ok (hp : AllPrintable r.texts) (hv : validateRecord r = .ok ()) {line : Text}
    (h : encodeRecord r = .ok line) : r.Fits ∧ line = r.line := by
  simp only [AllPrintable, BacsRecord.texts, List.forall_mem_cons] at hp
  obtain ⟨-, -, -, -, -, horef, honame, hdref, hdname, -⟩ := hp
  simp only [validateRecord, refuse_bind_eq_ok, refuse_eq_ok, not_not] at hv
  obtain ⟨hdsc, hdac, hosc, hoac⟩ := hv
  simp only [encodeRecord, pad_of_printable horef, pad_of_printable honame,
    pad_of_printable hdref, pad_of_printable hdname, ok_bind, padRight_cut,
    refuse_bind_eq_ok, not_not, ne_eq, Except.ok.injEq] at h
  have hwide : List.Forall₂ (fun w f => w ≤ f.length) bacsWidths r.fields := by
    simp [bacsWidths, BacsRecord.fields, hdsc.length, hdac.length,
      hosc.length, hoac.length, le_length_zeroPad,
      BacsTransactionCode.length_asStr]
  refine ⟨⟨hdsc, ?_⟩, h.2.symm⟩
  exact (byteLen_fields_iff hwide).1 h.1

theorem decodeRecord_line (hp : AllPrintable r.texts) (hneat : r.Neat)
    (hfits : r.Fits) : decodeRecord r.line = .ok r := by
  simp only [AllPrintable, BacsRecord.texts, List.forall_mem_cons] at hp
  obtain ⟨-, -, -, -, -, horef, honame, hdref, hdname, -⟩ := hp
  have hback : ∀ {w : Nat} {s : Text}, PrintableText s → OpBatch.Neat w s →
      trim (cut w s) = s := by
    intro w s hs hn
    rw [cut_of_le hn.1, trim_padRight hs hn.2]
  have hpence : r.amountPence.toNat < 2 ^ 64 := r.amountPence.toNat_lt
  have hx := hfits.columns
  have h1 : sliceText 35 46 r.line
      = .ok (zeroPad 11 r.amountPence.toNat) := slice_field hx 7 rfl rfl rfl
  have h2 : sliceText 0 6 r.line = .ok r.destinationSortCode := slice_field hx 0 rfl rfl rfl
  have h3 : sliceText 6 14 r.line = .ok r.destinationAccount := slice_field hx 1 rfl rfl rfl
  have h4 : byteChar 14 r.line = .ok r.accountType := byteChar_field hx 2 rfl rfl rfl
  have h5 : sliceText 15 17 r.line = .ok r.transactionCode.asStr := slice_field hx 3 rfl rfl rfl
  have h6 : sliceText 17 23 r.line = .ok r.originatorSortCode := slice_field hx 4 rfl rfl rfl
  have h7 : sliceText 23 31 r.line = .ok r.originatorAccount := slice_field hx 5 rfl rfl rfl
  have h8 : sliceText 31 35 r.line
      = .ok (cut 4 r.originatorReference) := slice_field hx 6 rfl rfl rfl
  have h9 : sliceText 46 64 r.line
      = .ok (cut 18 r.originatorName) := slice_field hx 8 rfl rfl rfl
  have h10 : sliceText 64 82 r.line
      = .ok (cut 18 r.destinationReference) := slice_field hx 9 rfl rfl rfl
  have h11 : sliceText 82 100 r.line
      = .ok (cut 18 r.destinationName) := slice_field hx 10 rfl rfl rfl
  simp only [decodeRecord, h1, h2, h3, h4, h5, h6, h7, h8, h9, h10, h11,
    ok_bind, parseField_zeroPad (w := 11) (by decide) hpence,
    BacsTransactionCode.fromStr_asStr, UInt64.ofNat_toNat,
    hback horef hneat.1, hback honame hneat.2.1, hback hdref hneat.2.2.1,
    hback hdname hneat.2.2.2]

theorem printable_line (hp : AllPrintable r.texts) : PrintableText r.line := by
  simp only [AllPrintable, BacsRecord.texts, List.forall_mem_cons] at hp
  obtain ⟨h1, h2, h3, h4, h5, h6, h7, h8, h9, -⟩ := hp
  have hall : AllPrintable r.fields := by
    simp only [AllPrintable, BacsRecord.fields, List.forall_mem_cons, h1, h2,
      h3, r.transactionCode.printable, h4, h5, h6.cut, printable_zeroPad,
      h7.cut, h8.cut, h9.cut, true_and]
    exact nofun
  intro c hc
  obtain ⟨s, hs, hcs⟩ := List.mem_flatten.1 hc
  exact hall s hs c hcs

def totalPence (rs : List BacsRecord) : Nat :=
  (rs.map fun r => r.amountPence.toNat).sum

/-- The whole loop over the payments. -/
theorem pushRecords_ok {rs : List BacsRecord}
    (hp : ∀ r ∈ rs, AllPrintable r.texts) {out : Text} {acc : Payments}
    (h : rs.foldlM pushRecord { out, total := 0, count := 0 } = .ok acc) :
    (∀ r ∈ rs, r.Fits) ∧
      acc = { out := out ++ unlines (rs.map BacsRecord.line)
              total := totalPence rs, count := rs.length } := by
  refine foldlM_ok (P := fun pre acc =>
    (∀ r ∈ pre, AllPrintable r.texts) → (∀ r ∈ pre, r.Fits) ∧
      acc = { out := out ++ unlines (pre.map BacsRecord.line)
              total := totalPence pre, count := pre.length }) ?_ ?_ h hp
  · intro _
    refine ⟨nofun, ?_⟩
    simp [totalPence]
  · intro pre b r b' hpre hstep hprint
    rw [List.forall_mem_append, List.forall_mem_singleton] at hprint
    obtain ⟨hfits, rfl⟩ := hpre hprint.1
    unfold pushRecord at hstep
    obtain ⟨⟨⟩, hvalid, h₁⟩ := bind_eq_ok.1 hstep
    obtain ⟨total, htotal, h₂⟩ := bind_eq_ok.1 h₁
    obtain ⟨count, hcount, h₃⟩ := bind_eq_ok.1 h₂
    obtain ⟨line, hline, h₄⟩ := bind_eq_ok.1 h₃
    obtain ⟨-, rfl⟩ := checkedAdd_ok_iff.1 htotal
    obtain ⟨-, rfl⟩ := addU32_ok_iff.1 hcount
    obtain ⟨hr, rfl⟩ := encodeRecord_ok hprint.2 hvalid hline
    refine ⟨?_, ?_⟩
    · rw [List.forall_mem_append, List.forall_mem_singleton]
      exact ⟨hfits, hr⟩
    · rw [← Except.ok.inj h₄]
      simp [totalPence]

-- ==== the labels

namespace BacsFile

def vol1 (f : BacsFile) : Text :=
  cut 100 (['V', 'O', 'L', '1'] ++ padRight 11 f.serviceUserNumber)

def hdr1 (f : BacsFile) : Text :=
  cut 100 (['H', 'D', 'R', '1', 'A'] ++ f.serviceUserNumber ++
    cut 14 f.originatorName ++ f.processingDayJulian)

def uhl1 (f : BacsFile) : Text :=
  cut 100 (['U', 'H', 'L', '1'] ++ f.processingDayJulian)

def eof1 (f : BacsFile) : Text :=
  cut 100 (['E', 'O', 'F', '1'] ++ f.serviceUserNumber ++
    zeroPad 8 f.records.length ++ zeroPad 13 (totalPence f.records))

def utl1 (f : BacsFile) : Text :=
  cut 100 (['U', 'T', 'L', '1'] ++ zeroPad 8 f.records.length ++
    zeroPad 13 (totalPence f.records))

def lines (f : BacsFile) : List Text :=
  [f.vol1, f.hdr1, f.uhl1] ++ f.records.map BacsRecord.line ++
    [f.eof1, f.utl1]

end BacsFile

theorem printable_append {s t : Text} (hs : PrintableText s)
    (ht : PrintableText t) : PrintableText (s ++ t) := by
  intro c hc
  rcases List.mem_append.1 hc with hc | hc
  · exact hs c hc
  · exact ht c hc

section Printable

variable {f : BacsFile} (hp : AllPrintable f.texts)
include hp

theorem printable_bacsHeader :
    PrintableText f.serviceUserNumber ∧ PrintableText f.originatorName ∧
      PrintableText f.processingDayJulian := by
  simp only [BacsFile.texts, AllPrintable, List.cons_append, List.forall_mem_cons] at hp
  exact ⟨hp.1, hp.2.1, hp.2.2.1⟩

theorem printable_payments : ∀ r ∈ f.records, AllPrintable r.texts := by
  intro r hr s hs
  apply hp
  apply List.mem_append_right
  exact List.mem_flatMap.2 ⟨r, hr, hs⟩

theorem printable_labels :
    PrintableText (['V', 'O', 'L', '1'] ++ padRight 11 f.serviceUserNumber) ∧
      PrintableText (['H', 'D', 'R', '1', 'A'] ++ f.serviceUserNumber ++
        cut 14 f.originatorName ++ f.processingDayJulian) ∧
      PrintableText (['U', 'H', 'L', '1'] ++ f.processingDayJulian) ∧
      PrintableText (['E', 'O', 'F', '1'] ++ f.serviceUserNumber ++
        zeroPad 8 f.records.length ++ zeroPad 13 (totalPence f.records)) ∧
      PrintableText (['U', 'T', 'L', '1'] ++ zeroPad 8 f.records.length ++
        zeroPad 13 (totalPence f.records)) := by
  obtain ⟨hsun, hname, hday⟩ := printable_bacsHeader hp
  have hcount := printable_zeroPad 8 f.records.length
  have htotal := printable_zeroPad 13 (totalPence f.records)
  exact ⟨printable_append (by decide) (hsun.padRight 11),
    printable_append (printable_append (printable_append (by decide) hsun) (hname.cut 14)) hday,
    printable_append (by decide) hday,
    printable_append (printable_append (printable_append (by decide) hsun) hcount) htotal,
    printable_append (printable_append (by decide) hcount) htotal⟩

theorem printable_bacsLines : ∀ l ∈ f.lines, PrintableText l := by
  obtain ⟨hvol, hhdr, huhl, heof, hutl⟩ := printable_labels hp
  intro l hl
  simp only [BacsFile.lines, List.mem_append, List.mem_cons, List.not_mem_nil, or_false] at hl
  rcases hl with ((rfl | rfl | rfl) | hl) | (rfl | rfl)
  · exact hvol.cut 100
  · exact hhdr.cut 100
  · exact huhl.cut 100
  · obtain ⟨r, hr, rfl⟩ := List.mem_map.1 hl
    exact printable_line (printable_payments hp r hr)
  · exact heof.cut 100
  · exact hutl.cut 100

end Printable

theorem pushLabel_of_printable {label : Text} (hl : PrintableText label) (out : Text) :
    pushLabel out label = .ok (out ++ unlines [cut 100 label]) := by
  rw [pushLabel, bacsRecordLen, pad_of_printable hl, ok_bind]
  simp

/-- What a successful run has written. -/
theorem bacs_encode_ok (hp : AllPrintable f.texts) {w : Text} (h : f.encode = .ok w) :
    Digits 6 f.serviceUserNumber ∧ (∀ r ∈ f.records, r.Fits) ∧ w = unlines f.lines := by
  obtain ⟨hvol, hhdr, huhl, heof, hutl⟩ := printable_labels hp
  obtain ⟨-, hname, -⟩ := printable_bacsHeader hp
  simp only [BacsFile.encode, refuse_bind_eq_ok, not_not,
    pushLabel_of_printable hvol, pad_of_printable hname, ok_bind,
    padRight_cut, pushLabel_of_printable hhdr, pushLabel_of_printable huhl]
    at h
  obtain ⟨hsun, h₁⟩ := h
  obtain ⟨acc, hacc, h₂⟩ := bind_eq_ok.1 h₁
  obtain ⟨hfits, rfl⟩ := pushRecords_ok (printable_payments hp) hacc
  simp only [pushLabel_of_printable heof, ok_bind, pushLabel_of_printable hutl] at h₂
  refine ⟨hsun, hfits, ?_⟩
  rw [← Except.ok.inj h₂]
  show [] ++ unlines [f.vol1] ++ unlines [f.hdr1] ++ unlines [f.uhl1] ++
    unlines (f.records.map BacsRecord.line) ++ unlines [f.eof1] ++
    unlines [f.utl1] = unlines f.lines
  simp only [← unlines_append, List.nil_append, List.append_assoc]
  rfl

-- ==== reading back

theorem readBacsLine_of_printable {l : Text} (hp : PrintableText l)
    (hlen : l.length = 100) (f : BacsFile) :
    readBacsLine f l = readLabelOrRecord f l := by
  have hne : l ≠ [] := by
    intro hnil
    rw [hnil] at hlen
    cases hlen
  have hbytes : l.byteLen = bacsRecordLen := hp.length_eq.trans hlen
  simp only [readBacsLine, trimEndMatches_of_not_mem hp.cr_not_mem]
  rw [if_neg hne, if_neg (not_not.2 hbytes)]

/-- A text of `k` characters, padded to 100. -/
theorem cut_100 {s : Text} {k : Nat} (hlen : s.length = k) (hk : k ≤ 100) :
    cut 100 s = s ++ spaces (100 - k) := by
  rw [cut_of_le (by omega), padRight, hlen]
  rfl

theorem take_append_drop_append (s t : Text) (n : Nat) :
    s.take n ++ (s.drop n ++ t) = s ++ t := by
  rw [← List.append_assoc, List.take_append_drop]

section Reading

variable {f : BacsFile} (hp : AllPrintable f.texts)
  (hsun : Digits 6 f.serviceUserNumber)
include hp hsun

theorem read_vol1 (g : BacsFile) :
    readBacsLine g f.vol1 = .ok { g with serviceUserNumber := f.serviceUserNumber } := by
  obtain ⟨hprint, -, -⟩ := printable_bacsHeader hp
  have hlen := hsun.length
  have hfields : f.vol1 = [['V', 'O', 'L', '1'], f.serviceUserNumber,
      spaces 5, spaces 85].flatten := by
    have hlabel : (['V', 'O', 'L', '1'] ++ padRight 11 f.serviceUserNumber).length = 15 := by
      rw [List.length_append, length_padRight, hlen]
      rfl
    rw [BacsFile.vol1, cut_100 hlabel (by decide), padRight, hlen]
    simp [spaces]
  have hcols : List.Forall₂ Fills [4, 6, 5, 85] [['V', 'O', 'L', '1'],
      f.serviceUserNumber, spaces 5, spaces 85] :=
    .cons (by decide) (.cons (fills_of_printable hprint hlen)
      (.cons (by decide) (.cons (by decide) .nil)))
  have hslice : sliceText 4 10 f.vol1
      = (.ok f.serviceUserNumber : Except (Fault Error) Text) := by
    rw [hfields]
    exact slice_field hcols 1 rfl rfl rfl
  have htrim : trim f.serviceUserNumber = f.serviceUserNumber := by
    apply trim_of_trimmed hprint
    have hblank : ' ' ∉ f.serviceUserNumber := by
      intro hmem
      exact absurd (hsun.2 ' ' hmem) (by decide)
    exact ⟨fun hh => hblank (List.mem_of_head? hh),
      fun hh => hblank (List.mem_of_getLast? hh)⟩
  have hread : readBacsLine g f.vol1 = readLabelOrRecord g f.vol1 :=
    readBacsLine_of_printable ((printable_labels hp).1.cut 100) (length_cut 100 _) g
  have hkind : ['V', 'O', 'L', '1'].isPrefixOf f.vol1 = true := by
    rw [hfields]
    rfl
  rw [hread, readLabelOrRecord, if_pos hkind, hslice, ok_bind, htrim]

theorem read_hdr1 (hday : f.processingDayJulian.length = 5) (g : BacsFile) :
    readBacsLine g f.hdr1
      = .ok { g with
          originatorName := trim (f.serviceUserNumber.drop 5 ++
            (cut 14 f.originatorName).take 13)
          processingDayJulian := (cut 14 f.originatorName).drop 13 ++
            f.processingDayJulian.take 4 } := by
  obtain ⟨hprint, hname, hdayp⟩ := printable_bacsHeader hp
  have hlen := hsun.length
  have hcut := length_cut 14 f.originatorName
  have hsub : ∀ {s : Text} (n : Nat), PrintableText s →
      PrintableText (s.take n) ∧ PrintableText (s.drop n) := by
    intro s n hs
    exact ⟨hs.mono fun _ hc => List.mem_of_mem_take hc,
      hs.mono fun _ hc => List.mem_of_mem_drop hc⟩
  -- the columns as the decoder takes them
  have hfields : f.hdr1 = [['H', 'D', 'R', '1', 'A'] ++
      f.serviceUserNumber.take 5,
      f.serviceUserNumber.drop 5 ++ (cut 14 f.originatorName).take 13,
      (cut 14 f.originatorName).drop 13 ++ f.processingDayJulian.take 4,
      f.processingDayJulian.drop 4 ++ spaces 70].flatten := by
    have hlabel : (['H', 'D', 'R', '1', 'A'] ++ f.serviceUserNumber ++
        cut 14 f.originatorName ++ f.processingDayJulian).length = 30 := by
      simp only [List.length_append, hlen, hcut, hday]
      rfl
    rw [BacsFile.hdr1, cut_100 hlabel (by decide)]
    simp only [List.flatten_cons, List.flatten_nil, List.append_nil,
      List.append_assoc, take_append_drop_append]
  have hcols : List.Forall₂ Fills [10, 14, 5, 71] [['H', 'D', 'R', '1', 'A']
      ++ f.serviceUserNumber.take 5,
      f.serviceUserNumber.drop 5 ++ (cut 14 f.originatorName).take 13,
      (cut 14 f.originatorName).drop 13 ++ f.processingDayJulian.take 4,
      f.processingDayJulian.drop 4 ++ spaces 70] := by
    have h1 := printable_append (s := ['H', 'D', 'R', '1', 'A']) (by decide) (hsub 5 hprint).1
    have h2 := printable_append (hsub 5 hprint).2 (hsub 13 (hname.cut 14)).1
    have h3 := printable_append (hsub 13 (hname.cut 14)).2 (hsub 4 hdayp).1
    have h4 := printable_append (hsub 4 hdayp).2 (t := spaces 70) (by decide)
    refine .cons (fills_of_printable h1 ?_) (.cons (fills_of_printable h2 ?_)
      (.cons (fills_of_printable h3 ?_) (.cons (fills_of_printable h4 ?_) .nil)))
    · simp [hlen]
    · simp [hlen]
    · simp [hday]
    · simp [hday, spaces]
  have hnameSlice : sliceText 10 24 f.hdr1
      = (.ok (f.serviceUserNumber.drop 5 ++
          (cut 14 f.originatorName).take 13) : Except (Fault Error) Text) := by
    rw [hfields]
    exact slice_field hcols 1 rfl rfl rfl
  have hdaySlice : sliceText 24 29 f.hdr1
      = (.ok ((cut 14 f.originatorName).drop 13 ++
          f.processingDayJulian.take 4) : Except (Fault Error) Text) := by
    rw [hfields]
    exact slice_field hcols 2 rfl rfl rfl
  have hprintable := (printable_labels hp).2.1.cut 100
  have hlen100 : f.hdr1.byteLen = 100 :=
    hprintable.length_eq.trans (length_cut 100 _)
  have hvol : ¬ ['V', 'O', 'L', '1'].isPrefixOf f.hdr1 = true := by
    rw [hfields]
    exact Bool.false_ne_true
  have hkind : ['H', 'D', 'R', '1'].isPrefixOf f.hdr1 = true := by
    rw [hfields]
    rfl
  have hread : readBacsLine g f.hdr1 = readLabelOrRecord g f.hdr1 :=
    readBacsLine_of_printable hprintable (length_cut 100 _) g
  rw [hread, readLabelOrRecord, if_neg hvol, if_pos hkind, if_pos (by omega), hnameSlice, ok_bind,
    hdaySlice, ok_bind]

end Reading

section Labels

variable {f : BacsFile} (hp : AllPrintable f.texts) {g : BacsFile}
include hp

/-- The day of the user header label comes too late. -/
theorem read_uhl1 (hday : g.processingDayJulian ≠ []) : readBacsLine g f.uhl1 = .ok g := by
  have hread : readBacsLine g f.uhl1 = readLabelOrRecord g f.uhl1 :=
    readBacsLine_of_printable ((printable_labels hp).2.2.1.cut 100) (length_cut 100 _) g
  have hvol : ¬ ['V', 'O', 'L', '1'].isPrefixOf f.uhl1 = true :=
    Bool.false_ne_true
  have hhdr : ¬ ['H', 'D', 'R', '1'].isPrefixOf f.uhl1 = true :=
    Bool.false_ne_true
  have huhl : ['U', 'H', 'L', '1'].isPrefixOf f.uhl1 = true := rfl
  rw [hread, readLabelOrRecord, if_neg hvol, if_neg hhdr, if_pos huhl, if_neg fun h => hday h.2]

theorem read_eof1 : readBacsLine g f.eof1 = .ok g := by
  have hread : readBacsLine g f.eof1 = readLabelOrRecord g f.eof1 :=
    readBacsLine_of_printable ((printable_labels hp).2.2.2.1.cut 100) (length_cut 100 _) g
  exact hread

theorem read_utl1 : readBacsLine g f.utl1 = .ok g := by
  have hread : readBacsLine g f.utl1 = readLabelOrRecord g f.utl1 :=
    readBacsLine_of_printable ((printable_labels hp).2.2.2.2.cut 100) (length_cut 100 _) g
  exact hread

end Labels

theorem not_label {c : Char} (hd : d.isDigit = true) (hc : c.isDigit = false)
    (label rest : Text) : (c :: label).isPrefixOf (d :: rest) = false := by
  have hne : (c == d) = false := by
    apply beq_eq_false_iff_ne.2
    intro heq
    rw [heq, hd] at hc
    cases hc
  rw [List.isPrefixOf_cons_cons, hne, Bool.false_and]

theorem read_payment (hp : AllPrintable r.texts) (hneat : r.Neat)
    (hfits : r.Fits) (g : BacsFile) :
    readBacsLine g r.line = .ok { g with records := g.records ++ [r] } := by
  have hdigits := hfits.destinationSortCode
  obtain ⟨d, ds, hdsc⟩ := List.exists_cons_of_ne_nil (fun hnil =>
    absurd hdigits.length (by rw [hnil]; decide) : r.destinationSortCode ≠ [])
  have hd : d.isDigit = true := by
    apply hdigits.2
    rw [hdsc]
    exact List.mem_cons_self
  obtain ⟨rest, hline⟩ : ∃ rest, r.line = d :: rest := by
    rw [BacsRecord.line, BacsRecord.fields, hdsc]
    exact ⟨_, rfl⟩
  have hlabel : ∀ c label, c.isDigit = false → (c :: label).isPrefixOf r.line = false := by
    intro c label hc
    rw [hline]
    exact not_label hd hc label rest
  have hlen : r.line.length = 100 := length_fields hfits.columns
  rw [readBacsLine_of_printable (printable_line hp) hlen, readLabelOrRecord,
    hlabel 'V' _ (by decide), hlabel 'H' _ (by decide),
    hlabel 'U' _ (by decide), hlabel 'E' _ (by decide),
    hlabel 'U' _ (by decide), decodeRecord_line hp hneat hfits]
  rfl

theorem read_payments {rs : List BacsRecord}
    (hp : ∀ r ∈ rs, AllPrintable r.texts) (hneat : ∀ r ∈ rs, r.Neat)
    (hfits : ∀ r ∈ rs, r.Fits) : ∀ g : BacsFile,
      (rs.map BacsRecord.line).foldlM readBacsLine g
        = .ok { g with records := g.records ++ rs } := by
  induction rs with
  | nil =>
    intro g
    rw [List.append_nil]
    rfl
  | cons r rs ih =>
    intro g
    rw [List.forall_mem_cons] at hp hneat hfits
    rw [List.map_cons, List.foldlM_cons,
      read_payment hp.1 hneat.1 hfits.1, ok_bind,
      ih hp.2 hneat.2 hfits.2, List.append_assoc]
    rfl

def BacsFile.reread (f : BacsFile) : BacsFile :=
  { f with
    originatorName := trim (f.serviceUserNumber.drop 5 ++ (cut 14 f.originatorName).take 13)
    processingDayJulian := (cut 14 f.originatorName).drop 13 ++ f.processingDayJulian.take 4 }

theorem bacs_decode_written (hp : AllPrintable f.texts) (hneat : f.Neat)
    (hsun : Digits 6 f.serviceUserNumber) (hfits : ∀ r ∈ f.records, r.Fits) :
    BacsFile.decode (unlines f.lines) = .ok f.reread := by
  have hprint := printable_bacsLines hp
  have hlines : lines (unlines f.lines) = f.lines :=
    lines_unlines (fun l hl => (hprint l hl).newline_not_mem)
      (fun l hl => (hprint l hl).cr_not_mem)
  have hday : f.reread.processingDayJulian ≠ [] := by
    intro hnil
    have hlen := congrArg List.length hnil
    simp [BacsFile.reread] at hlen
  have hhead : [f.vol1, f.hdr1, f.uhl1].foldlM readBacsLine ⟨[], [], [], []⟩
      = .ok { f.reread with records := [] } := by
    have huhl : readBacsLine { f.reread with records := [] } f.uhl1
        = .ok { f.reread with records := [] } := read_uhl1 hp hday
    simp only [List.foldlM_cons, List.foldlM_nil, read_vol1 hp hsun, ok_bind,
      read_hdr1 hp hsun hneat.2.1]
    rw [BacsFile.reread] at huhl ⊢
    rw [huhl]
    rfl
  have hlast : [f.eof1, f.utl1].foldlM readBacsLine f.reread = .ok f.reread := by
    simp only [List.foldlM_cons, List.foldlM_nil, read_eof1 hp, ok_bind, read_utl1 hp]
    rfl
  rw [BacsFile.decode, hlines, BacsFile.lines, List.foldlM_append,
    List.foldlM_append, hhead, ok_bind,
    read_payments (printable_payments hp) hneat.2.2 hfits, ok_bind]
  exact hlast

-- ==== the shift

/-- A text that is itself one place to the right repeats its first
character. -/
theorem eq_replicate_of_shift {k : Nat} {l : Text} (h : l = d :: l.take k)
    (hlen : l.length = k + 1) : l = List.replicate (k + 1) d := by
  have hat : ∀ i, i ≤ k → l[i]? = some d := by
    intro i
    induction i with
    | zero =>
      intro _
      rw [h]
      rfl
    | succ i ih =>
      intro hi
      rw [h, List.getElem?_cons_succ, List.getElem?_take, if_pos (by omega)]
      exact ih (by omega)
  apply List.eq_replicate_iff.2
  refine ⟨hlen, ?_⟩
  intro c hc
  obtain ⟨i, hi⟩ := List.getElem?_of_mem hc
  have hlt := (List.getElem?_eq_some_iff.1 hi).1
  rw [hat i (by omega)] at hi
  exact (Option.some.inj hi).symm

/-- The name and the day come back exactly when they repeat the digit in
front of them. -/
theorem shift_iff {name day : Text} (hd : d ≠ ' ') (hdp : PrintableText [d])
    (hname : PrintableText name) (hneat : Neat 14 name) (hday : day.length = 5) :
    (trim ([d] ++ (cut 14 name).take 13) = name ∧ (cut 14 name).drop 13 ++ day.take 4 = day) ↔
      name = List.replicate 14 d ∧ day = List.replicate 5 d := by
  constructor
  · intro h
    rcases h with ⟨hback, hdayBack⟩
    have hlen : name.length = 14 := by
      by_contra hne
      -- a shorter name would come back with the digit in front
      have hshort : name.length ≤ 13 := by
        have := hneat.1
        omega
      have htake : (cut 14 name).take 13 = padRight 13 name := by
        rw [cut_of_le hneat.1, padRight, padRight, List.take_append,
          List.take_of_length_le hshort, List.take_replicate]
        congr 2
        omega
      have hpad : [d] ++ padRight 13 name = padRight 14 (d :: name) := by
        rw [padRight, padRight, List.length_cons,
          show 14 - (name.length + 1) = 13 - name.length by omega]
        rfl
      have htrimmed : Trimmed (d :: name) := by
        refine ⟨fun hh => hd (Option.some.inj hh), ?_⟩
        cases name with
        | nil => exact fun hh => hd (Option.some.inj hh)
        | cons c cs =>
          rw [List.getLast?_cons_cons]
          exact hneat.2.2
      have hprint : PrintableText (d :: name) := printable_append hdp hname
      rw [htake, hpad, trim_padRight hprint htrimmed] at hback
      have := congrArg List.length hback
      rw [List.length_cons] at this
      omega
    rw [cut_of_length hlen] at hback hdayBack
    have hcol : PrintableText ([d] ++ name.take 13) :=
      printable_append hdp (hname.mono fun _ hc => List.mem_of_mem_take hc)
    have hfull : (trim ([d] ++ name.take 13)).length = ([d] ++ name.take 13).length := by
      rw [hback, List.length_append, List.length_take, hlen]
      rfl
    rw [trim_of_trimmed hcol ((length_trim_iff hcol).1 hfull)] at hback
    have hrep := eq_replicate_of_shift hback.symm hlen
    refine ⟨hrep, ?_⟩
    rw [hrep] at hdayBack
    exact eq_replicate_of_shift hdayBack.symm hday
  · intro h
    rcases h with ⟨rfl, rfl⟩
    have htrimmed : Trimmed (List.replicate 14 d) :=
      ⟨fun hh => hd (Option.some.inj hh), fun hh => hd (Option.some.inj hh)⟩
    rw [cut_of_length (List.length_replicate ..)]
    exact ⟨trim_of_trimmed hname htrimmed, rfl⟩

-- ==== the totals

def bacsNumberAt (off w : Nat) (line : Text) : Nat := number (column off w line)

/-- What the trailer labels say is so of the payments. -/
def TotalsRight (f : BacsFile) (w : Text) : Prop :=
  ∃ eof utl, (lines w).drop (f.records.length + 3) = [eof, utl] ∧
    bacsNumberAt 10 8 eof = f.records.length ∧
    bacsNumberAt 18 13 eof = totalPence f.records ∧
    bacsNumberAt 4 8 utl = f.records.length ∧
    bacsNumberAt 12 13 utl = totalPence f.records

/-- The columns of a number read as the number exactly when it has no more
digits. -/
theorem number_take_zeroPad_iff {w : Nat} (hw : 0 < w) (n : Nat) :
    number ((zeroPad w n).take w) = n ↔ n < 10 ^ w := by
  constructor
  · intro h
    have hlt := number_lt (s := (zeroPad w n).take w) fun c hc =>
      isDigit_zeroPad (List.mem_of_mem_take hc)
    rw [h, List.length_take, min_eq_left (le_length_zeroPad w n)] at hlt
    exact hlt
  · intro h
    have hlen := (length_zeroPad_iff hw n).2 h
    rw [List.take_of_length_le (Nat.le_of_eq hlen), number_zeroPad]

/-- A column of a label that begins after `front`. -/
theorem column_cut_append (front s rest : Text) {off w : Nat}
    (hoff : front.length = off) (hs : w ≤ s.length) (hle : off + w ≤ 100) :
    column off w (cut 100 (front ++ s ++ rest)) = s.take w := by
  have htake : (front ++ s ++ rest).take 100
      = front ++ (s.take w ++ ((s.drop w) ++ rest).take (100 - (off + w))) := by
    rw [List.append_assoc, List.take_append, List.take_of_length_le (by omega),
      ← take_append_drop_append s rest w, List.take_append,
      List.take_of_length_le (by rw [List.length_take]; omega),
      List.length_take, min_eq_left hs, hoff, Nat.sub_sub]
  rw [column, cut, htake, padRight, ← hoff, List.append_assoc, List.drop_left,
    List.append_assoc, List.take_left']
  rw [List.length_take, min_eq_left hs]

/-- The trailer labels are right exactly when the count and the total have
no more digits than their columns. -/
theorem totalsRight_iff (hp : AllPrintable f.texts) (hsun : Digits 6 f.serviceUserNumber) :
    TotalsRight f (unlines f.lines) ↔
      f.records.length < 10 ^ 8 ∧ totalPence f.records < 10 ^ 13 := by
  have hprint := printable_bacsLines hp
  have hlines : lines (unlines f.lines) = f.lines :=
    lines_unlines (fun l hl => (hprint l hl).newline_not_mem)
      (fun l hl => (hprint l hl).cr_not_mem)
  have hdrop : f.lines.drop (f.records.length + 3) = [f.eof1, f.utl1] := by
    have hlen : ([f.vol1, f.hdr1, f.uhl1] ++
        f.records.map BacsRecord.line).length = f.records.length + 3 := by
      simp
    rw [BacsFile.lines, ← hlen, List.drop_left]
  have hlen := hsun.length
  have heofCount : column 10 8 f.eof1 = (zeroPad 8 f.records.length).take 8 :=
    column_cut_append _ _ _ (by rw [List.length_append, hlen]; rfl)
      (le_length_zeroPad ..) (by decide)
  have hutlCount : column 4 8 f.utl1 = (zeroPad 8 f.records.length).take 8 :=
    column_cut_append _ _ _ rfl (le_length_zeroPad ..) (by decide)
  have hcount := number_take_zeroPad_iff (w := 8) (by decide) f.records.length
  have htotal := number_take_zeroPad_iff (w := 13) (by decide) (totalPence f.records)
  have heofTotal : f.records.length < 10 ^ 8 → column 18 13 f.eof1
      = (zeroPad 13 (totalPence f.records)).take 13 := by
    intro hlt
    have hfront : (['E', 'O', 'F', '1'] ++ f.serviceUserNumber ++
        zeroPad 8 f.records.length).length = 18 := by
      rw [List.length_append, List.length_append, hlen,
        (length_zeroPad_iff (by decide) _).2 hlt]
      rfl
    have hcut := column_cut_append _ (zeroPad 13 (totalPence f.records)) []
      hfront (le_length_zeroPad ..) (by decide)
    rw [List.append_nil] at hcut
    exact hcut
  have hutlTotal : f.records.length < 10 ^ 8 → column 12 13 f.utl1
      = (zeroPad 13 (totalPence f.records)).take 13 := by
    intro hlt
    have hfront : (['U', 'T', 'L', '1'] ++ zeroPad 8 f.records.length).length = 12 := by
      rw [List.length_append, (length_zeroPad_iff (by decide) _).2 hlt]
      rfl
    have hcut := column_cut_append _ (zeroPad 13 (totalPence f.records)) []
      hfront (le_length_zeroPad ..) (by decide)
    rw [List.append_nil] at hcut
    exact hcut
  unfold TotalsRight bacsNumberAt
  rw [hlines, hdrop]
  constructor
  · intro h
    rcases h with ⟨eof, utl, heq, h1, h2, -, -⟩
    cases heq
    rw [heofCount, hcount] at h1
    rw [heofTotal h1, htotal] at h2
    exact ⟨h1, h2⟩
  · intro h
    rcases h with ⟨h1, h2⟩
    refine ⟨f.eof1, f.utl1, rfl, ?_, ?_, ?_, ?_⟩
    · rw [heofCount, hcount]
      exact h1
    · rw [heofTotal h1, htotal]
      exact h2
    · rw [hutlCount, hcount]
      exact h1
    · rw [hutlTotal h1, htotal]
      exact h2

-- ==== the result

def BacsFile.lastDigit (f : BacsFile) : Char :=
  f.serviceUserNumber.getLastD ' '

/-- A file of printable texts within their widths that is written comes
back, with right totals, exactly when its name and its day repeat the
last digit of the service user number and the count and the total fit
their columns. -/
theorem bacs_roundTrip_iff {f : BacsFile} {w : Text}
    (hp : AllPrintable f.texts) (hneat : f.Neat) (h : f.encode = .ok w) :
    (BacsFile.decode w = .ok f ∧ TotalsRight f w) ↔
      f.originatorName = List.replicate 14 f.lastDigit ∧
        f.processingDayJulian = List.replicate 5 f.lastDigit ∧
        f.records.length < 10 ^ 8 ∧ totalPence f.records < 10 ^ 13 := by
  obtain ⟨hsun, hfits, rfl⟩ := bacs_encode_ok hp h
  obtain ⟨hsunp, hname, -⟩ := printable_bacsHeader hp
  have hlen := hsun.length
  obtain ⟨front, d, hsplit⟩ : ∃ front d, f.serviceUserNumber = front ++ [d] := by
    rcases List.eq_nil_or_concat f.serviceUserNumber with hnil | hcons
    · rw [hnil] at hlen
      cases hlen
    · simpa using hcons
  have hmem : d ∈ f.serviceUserNumber := by simp [hsplit]
  have hdigit := hsun.2 d hmem
  have hlast : f.lastDigit = d := by simp [BacsFile.lastDigit, hsplit]
  have hdrop : f.serviceUserNumber.drop 5 = [d] := by
    rw [hsplit, List.length_append, List.length_singleton] at hlen
    rw [hsplit, List.drop_left' (by omega)]
  have hblank : d ≠ ' ' := by
    intro heq
    rw [heq] at hdigit
    cases hdigit
  have hdp : PrintableText [d] := by
    intro c hc
    rw [List.mem_singleton.1 hc]
    exact hsunp d hmem
  have hshift := shift_iff hblank hdp hname hneat.1 hneat.2.1
  have hback : f.reread = f ↔
      f.originatorName = List.replicate 14 d ∧ f.processingDayJulian = List.replicate 5 d := by
    rw [← hshift, BacsFile.reread, hdrop]
    constructor
    · intro heq
      exact ⟨congrArg BacsFile.originatorName heq,
        congrArg BacsFile.processingDayJulian heq⟩
    · intro hboth
      rw [hboth.1, hboth.2]
  rw [bacs_decode_written hp hneat hsun hfits, totalsRight_iff hp hsun, hlast,
    Except.ok.injEq, hback, and_assoc]

def onePayment (originatorName processingDayJulian : Text) : BacsFile where
  serviceUserNumber := "123456".toList
  originatorName := originatorName
  processingDayJulian := processingDayJulian
  records := [
    { destinationSortCode := "200000".toList
      destinationAccount := "12345678".toList, accountType := '0'
      transactionCode := .credit, originatorSortCode := "400000".toList
      originatorAccount := "87654321".toList
      originatorReference := "REF1".toList, amountPence := 12345
      originatorName := "OPENPAY LTD".toList
      destinationReference := "INV-001".toList
      destinationName := "ALICE".toList }]

/-- A name and a day that are read back from the wrong columns
unchanged. -/
theorem sixes_roundTrip :
    ∃ w, (onePayment (List.replicate 14 '6') (List.replicate 5 '6')).encode = .ok w ∧
      BacsFile.decode w = .ok (onePayment (List.replicate 14 '6') (List.replicate 5 '6')) ∧
      TotalsRight (onePayment (List.replicate 14 '6') (List.replicate 5 '6')) w := by
  have hok : (onePayment (List.replicate 14 '6')
      (List.replicate 5 '6')).encode.isOk = true := by decide +kernel
  obtain ⟨w, hw⟩ := isOk_iff.1 hok
  have hneat : (onePayment (List.replicate 14 '6') (List.replicate 5 '6')).Neat := by
    unfold BacsFile.Neat BacsRecord.Neat Neat
    decide +kernel
  exact ⟨w, hw, (bacs_roundTrip_iff (by decide +kernel) hneat hw).2 (by decide +kernel)⟩

/-- An ordinary name comes back behind the last digit of the service user
number. -/
theorem header_shifted :
    ∃ w, (onePayment "OPENPAY".toList "26152".toList).encode = .ok w ∧
      BacsFile.decode w ≠ .ok (onePayment "OPENPAY".toList "26152".toList) := by
  have hok : (onePayment "OPENPAY".toList "26152".toList).encode.isOk
      = true := by decide +kernel
  obtain ⟨w, hw⟩ := isOk_iff.1 hok
  obtain ⟨hsun, hfits, rfl⟩ := bacs_encode_ok (by decide +kernel) hw
  have hneat : (onePayment "OPENPAY".toList "26152".toList).Neat := by
    unfold BacsFile.Neat BacsRecord.Neat Neat
    decide +kernel
  refine ⟨_, hw, ?_⟩
  rw [bacs_decode_written (by decide +kernel) hneat hsun hfits]
  intro heq
  have hname := congrArg BacsFile.originatorName (Except.ok.inj heq)
  revert hname
  decide +kernel

end OpenStandards.OpBatch

/-
The NACHA generator as a whole: the inputs it panics on, those it
accepts and what it writes for them, and when that is a well-formed file.

A text that is long enough to be cut, cut inside a character, panics. And a
newline in what is kept of a text passes the test of the length, and breaks
its record in two. `generatesWell_iff` is that there is nothing else.
-/
import OpenStandards.OpSettlement.Proofs.NachaRecords

namespace OpenStandards.OpSettlement

open Lib OpCore Text

-- ==== acceptance

/-- The generator panics: past its checks and past the records before,
it cuts a character. -/
def Panics (batch : Batch) (p : NachaProfile) (credits : List NachaCredit) : Prop :=
  Admitted batch p credits ∧
    (¬ CutsClean 23 p.companyName ∨
      HeaderFits p ∧
        (¬ CutsClean 10 p.companyId ∨
          ¬ CutsClean 10 p.companyEntryDescription ∨
          BatchFits p ∧ ∃ pre c post, credits = pre ++ c :: post ∧
            (∀ x ∈ pre, EntryFits x) ∧ pre.length < 10 ^ 7 ∧
            ValidCredit c ∧ c.amountCents.toNat < 2 ^ 63 ∧
            (¬ CutsClean 15 c.individualId ∨ ¬ CutsClean 22 c.receiverName)))

/-- The generator accepts: every text and number fits its column. -/
def Accepted (batch : Batch) (p : NachaProfile) (credits : List NachaCredit) : Prop :=
  Admitted batch p credits ∧ HeaderFits p ∧ BatchFits p ∧
    (∀ c ∈ credits, EntryFits c) ∧ credits.length < 10 ^ 6 ∧
    amountSum credits < 10 ^ 12

def firstSec : List NachaCredit → SecCode
  | [] => .ppd
  | c :: _ => c.sec

def fileRecords (p : NachaProfile) (cs : List NachaCredit) : List Text :=
  fileHeaderRecord p :: batchHeaderRecord p (firstSec cs) ::
    (entryRecords p cs ++ closingRecords p cs)

theorem checkBatch_ok_iff (batch : Batch) (cs : List NachaCredit) {u : Unit} :
    checkBatch batch cs = .ok u ↔
      batch.rail = .achNacha ∧ batch.currency = .USD ∧ cs ≠ [] ∧
        cs.length = batch.entries.length := by
  simp only [checkBatch, refuse_bind_eq_ok, refuse_eq_ok, not_not, ne_eq]

theorem checkBatch_ne_panic (batch : Batch) (cs : List NachaCredit) :
    checkBatch batch cs ≠ .error .panic := by
  intro h
  simp [checkBatch, bind_eq_error, refuse_eq_error, invalid] at h

theorem validateProfile_ok_iff (p : NachaProfile) {u : Unit} :
    validateProfile p = .ok u ↔ ValidProfile p := by
  simp only [validateProfile, refuse_bind_eq_ok, refuse_eq_ok, not_not, ne_eq, ValidProfile]

theorem validateProfile_ne_panic (p : NachaProfile) : validateProfile p ≠ .error .panic := by
  intro h
  simp [validateProfile, bind_eq_error, refuse_eq_error, invalid] at h

def writeRecords (batch : Batch) (p : NachaProfile)
    (credits : List NachaCredit) : Except (Fault Error) Text := do
  let out ← pushFileHeader p
  let out ← pushBatchHeader p credits out
  let acc ← credits.foldlM (pushEntry batch p) { out, entryHash := 0, totalCredit := 0, seq := 0 }
  pushControls p acc

variable {batch : Batch} {p : NachaProfile} {cs : List NachaCredit} {c : NachaCredit}

theorem nachaFile_of_admitted (h : Admitted batch p cs) :
    nachaFile batch p cs = writeRecords batch p cs := by
  obtain ⟨hrail, husd, hne, hlen, hp⟩ := h
  have hbatch : checkBatch batch cs = .ok () :=
    (checkBatch_ok_iff batch cs).2 ⟨hrail, husd, hne, hlen⟩
  have hprofile : validateProfile p = .ok () :=
    (validateProfile_ok_iff p).2 hp
  rw [nachaFile, hbatch, ok_bind, hprofile, ok_bind]
  rfl

theorem nachaFile_of_not_admitted (h : ¬ Admitted batch p cs) :
    ∃ e, nachaFile batch p cs = .error (.err e) := by
  cases hbatch : checkBatch batch cs with
  | error f =>
    cases f with
    | panic => exact absurd hbatch (checkBatch_ne_panic batch cs)
    | err e => exact ⟨e, by rw [nachaFile, hbatch, error_bind]⟩
  | ok u =>
    cases hprofile : validateProfile p with
    | error f =>
      cases f with
      | panic => exact absurd hprofile (validateProfile_ne_panic p)
      | err e =>
        exact ⟨e, by rw [nachaFile, hbatch, ok_bind, hprofile, error_bind]⟩
    | ok v =>
      obtain ⟨hrail, husd, hne, hlen⟩ := (checkBatch_ok_iff ..).1 hbatch
      exact absurd ⟨hrail, husd, hne, hlen, (validateProfile_ok_iff p).1 hprofile⟩ h

-- ==== the loop

section Loop

variable {batch : Batch} {p : NachaProfile} (husd : batch.currency = .USD)
  (hp : ValidProfile p)
include husd hp

/-- The loop succeeds when every entry passes. -/
theorem pushEntries_ok_iff (out : Text) (cs : List NachaCredit) {acc : Entries} :
    cs.foldlM (pushEntry batch p)
        { out, entryHash := 0, totalCredit := 0, seq := 0 } = .ok acc ↔
      ((∀ c ∈ cs, EntryFits c) ∧ cs.length < 10 ^ 7) ∧ acc = afterEntries p out cs := by
  have hloop := @foldlM_ok_iff_admits _ _ _ _ _ _ (pushEntry_ok_iff husd hp out) cs acc
  rw [admits_entryPasses_iff] at hloop
  simpa [afterEntries, entryRecords, hashSum, amountSum] using hloop

/-- The loop panics when it comes to a valid credit and cuts one of its
characters. -/
theorem pushEntries_panics_iff (out : Text) (cs : List NachaCredit) :
    cs.foldlM (pushEntry batch p)
        { out, entryHash := 0, totalCredit := 0, seq := 0 } = .error .panic ↔
      ∃ pre c post, cs = pre ++ c :: post ∧ (∀ x ∈ pre, EntryFits x) ∧
        pre.length < 10 ^ 7 ∧ ValidCredit c ∧
        c.amountCents.toNat < 2 ^ 63 ∧
        (¬ CutsClean 15 c.individualId ∨ ¬ CutsClean 22 c.receiverName) := by
  have hloop := @foldlM_error_iff_admits _ _ _ _ _ _ (pushEntry_ok_iff husd hp out) cs .panic
  have hstart : afterEntries p out [] =
      { out, entryHash := 0, totalCredit := 0, seq := 0 } := by
    simp [afterEntries, entryRecords, hashSum, amountSum]
  rw [hstart] at hloop
  rw [hloop]
  refine exists_congr fun pre => exists_congr fun c => exists_congr fun post =>
    and_congr_right fun _ => ?_
  rw [admits_entryPasses_iff, and_assoc]
  refine and_congr_right fun hfits => and_congr_right fun hlen => ?_
  have htotal := amountSum_le hfits
  exact pushEntry_panics_iff husd hp hlen (show amountSum pre ≤ 10 ^ 17 by omega)

end Loop

-- ==== the outcome

theorem nachaFile_panics_iff (batch : Batch) (p : NachaProfile) (cs : List NachaCredit) :
    nachaFile batch p cs = .error .panic ↔ Panics batch p cs := by
  by_cases hadm : Admitted batch p cs
  · rw [nachaFile_of_admitted hadm, Panics, and_iff_right hadm, writeRecords,
      bind_eq_error, pushFileHeader_panics_iff]
    obtain ⟨-, husd, hne, -, hp⟩ := hadm
    refine or_congr_right ?_
    simp only [pushFileHeader_ok_iff hp, and_assoc]
    constructor
    · rintro ⟨out, hhead, rfl, h⟩
      refine ⟨hhead, ?_⟩
      rcases bind_eq_error.1 h with h | ⟨out', hout, h⟩
      · rcases (pushBatchHeader_panics_iff hp hhead hne _).1 h with h | h
        · exact Or.inl h
        · exact Or.inr (Or.inl h)
      · obtain ⟨c, cs, rfl⟩ := List.exists_cons_of_ne_nil hne
        obtain ⟨hbatch, rfl⟩ := (pushBatchHeader_ok_iff hp hhead c cs).1 hout
        rcases bind_eq_error.1 h with h | ⟨acc, hacc, h⟩
        · exact Or.inr (Or.inr
            ⟨hbatch, (pushEntries_panics_iff husd hp _ _).1 h⟩)
        · obtain ⟨⟨-, hlen⟩, rfl⟩ := (pushEntries_ok_iff husd hp _ _).1 hacc
          exact absurd h (pushControls_ne_panic hp hbatch.1 hlen _)
    · rintro ⟨hhead, h⟩
      refine ⟨_, hhead, rfl, ?_⟩
      rw [← or_assoc, ← pushBatchHeader_panics_iff hp hhead hne] at h
      rcases h with h | ⟨hbatch, hloop⟩
      · rw [h, error_bind]
      · obtain ⟨c, cs, rfl⟩ := List.exists_cons_of_ne_nil hne
        rw [(pushBatchHeader_ok_iff hp hhead c cs).2 ⟨hbatch, rfl⟩, ok_bind,
          (pushEntries_panics_iff husd hp _ _).2 hloop, error_bind]
  · obtain ⟨e, he⟩ := nachaFile_of_not_admitted hadm
    rw [he]
    constructor
    · intro h
      cases h
    · rintro ⟨h, -⟩
      exact absurd h hadm

theorem nachaFile_ok_iff (batch : Batch) (p : NachaProfile) (cs : List NachaCredit) {out : Text} :
    nachaFile batch p cs = .ok out ↔
      Accepted batch p cs ∧ out = unlines (fileRecords p cs) := by
  by_cases hadm : Admitted batch p cs
  · rw [nachaFile_of_admitted hadm, Accepted, and_iff_right hadm, writeRecords]
    obtain ⟨-, husd, hne, -, hp⟩ := hadm
    obtain ⟨c, cs, rfl⟩ := List.exists_cons_of_ne_nil hne
    constructor
    · intro h
      obtain ⟨o, ho, h⟩ := bind_eq_ok.1 h
      obtain ⟨hhead, rfl⟩ := (pushFileHeader_ok_iff hp).1 ho
      obtain ⟨o', ho', h⟩ := bind_eq_ok.1 h
      obtain ⟨hbatch, rfl⟩ := (pushBatchHeader_ok_iff hp hhead c cs).1 ho'
      obtain ⟨acc, hacc, h⟩ := bind_eq_ok.1 h
      obtain ⟨⟨hfits, hlen⟩, rfl⟩ := (pushEntries_ok_iff husd hp _ _).1 hacc
      obtain ⟨hbounds, rfl⟩ := (pushControls_ok_iff hp hbatch.1 hlen _).1 h
      refine ⟨⟨hhead, hbatch, hfits, hbounds.1, hbounds.2⟩, ?_⟩
      simp [fileRecords, firstSec]
    · rintro ⟨⟨hhead, hbatch, hfits, hcount, hamount⟩, rfl⟩
      have hlen : (c :: cs).length < 10 ^ 7 := by omega
      rw [(pushFileHeader_ok_iff hp).2 ⟨hhead, rfl⟩, ok_bind,
        (pushBatchHeader_ok_iff hp hhead c cs).2 ⟨hbatch, rfl⟩, ok_bind,
        (pushEntries_ok_iff husd hp _ _).2 ⟨⟨hfits, hlen⟩, rfl⟩, ok_bind,
        (pushControls_ok_iff hp hbatch.1 hlen _).2 ⟨⟨hcount, hamount⟩, rfl⟩]
      simp [fileRecords, firstSec]
  · obtain ⟨e, he⟩ := nachaFile_of_not_admitted hadm
    rw [he]
    constructor
    · intro h
      cases h
    · rintro ⟨h, -⟩
      exact absurd h.1 hadm

-- ==== well-formed files

def numberAt (off w : Nat) (r : Text) : Nat := number (column off w r)

def entryRouting (r : Text) : Nat := numberAt 3 8 r

def entryAmount (r : Text) : Nat := numberAt 29 10 r

/-- The file that the format asks for: its lines are the records 1, 5, a
6 for each credit, 8, 9 and lines of nines up to a multiple of ten, each
of 94 characters, and what the 8 and the 9 say of the entries is so of
the lines that are there. -/
def WellFormed (credits : List NachaCredit) (out : Text) : Prop :=
  ∃ r1 r5 entries r8 r9 k,
    out.splitOn '\n' = (r1 :: r5 :: (entries ++ r8 :: r9 :: List.replicate k filler)) ++ [[]] ∧
    (∀ r ∈ r1 :: r5 :: (entries ++ r8 :: r9 :: List.replicate k filler), r.length = 94) ∧
    r1.head? = some '1' ∧ r5.head? = some '5' ∧
    (∀ r ∈ entries, r.head? = some '6') ∧ r8.head? = some '8' ∧
    r9.head? = some '9' ∧ entries.length = credits.length ∧
    k < 10 ∧ 10 ∣ entries.length + 4 + k ∧
    -- the block count of the 9
    numberAt 7 6 r9 = (entries.length + 4 + k) / 10 ∧
    -- the entry counts
    numberAt 4 6 r8 = entries.length ∧ numberAt 13 8 r9 = entries.length ∧
    -- the entry hashes
    numberAt 10 10 r8 = (entries.map entryRouting).sum % 10 ^ 10 ∧
    numberAt 21 10 r9 = (entries.map entryRouting).sum % 10 ^ 10 ∧
    -- the total credit amounts
    numberAt 32 12 r8 = (entries.map entryAmount).sum ∧
    numberAt 43 12 r9 = (entries.map entryAmount).sum

/-- What the file keeps of the texts holds no newline. -/
def OneLine (p : NachaProfile) (credits : List NachaCredit) : Prop :=
  '\n' ∉ p.immediateDestination ∧ '\n' ∉ p.immediateOrigin ∧
    '\n' ∉ p.companyName.take 23 ∧ '\n' ∉ p.companyId.take 10 ∧
    '\n' ∉ p.companyEntryDescription.take 10 ∧
    ∀ c ∈ credits, '\n' ∉ c.accountNumber ∧
      '\n' ∉ c.individualId.take 15 ∧ '\n' ∉ c.receiverName.take 22

/-- The generator does what the format asks: it does not panic, and what
it accepts it writes well. -/
def GeneratesWell (batch : Batch) (p : NachaProfile) (credits : List NachaCredit) : Prop :=
  nachaFile batch p credits ≠ .error .panic ∧
    ∀ out, nachaFile batch p credits = .ok out → WellFormed credits out

-- ==== the columns

theorem fileHeaderRecord_fills (hp : ValidProfile p) (h : HeaderFits p) :
    List.Forall₂ Fills fileHeaderWidths
      (fileHeader p (p.companyName.take 23) (p.companyName.take 23)) := by
  obtain ⟨t, ht, hpad⟩ := padTruncate_of_plain h.2.2
  have hfills := (fills_fileHeader hp ht ht).2 h
  simpa only [fileHeader, hpad] using hfills

theorem batchHeaderRecord_fills (hp : ValidProfile p) (hhead : HeaderFits p)
    (h : BatchFits p) (sec : SecCode) :
    List.Forall₂ Fills batchHeaderWidths
      (batchHeader (p.companyName.take 16) (p.companyId.take 10) sec.asStr
        (p.companyEntryDescription.take 10) p.effectiveEntryDate
        p.effectiveEntryDate (p.odfiRouting.take 8)) := by
  obtain ⟨t, ht, htpad⟩ :=
    padTruncate_of_plain (hhead.2.2.mono (by decide : 16 ≤ 23))
  obtain ⟨u, hu, hupad⟩ := padTruncate_of_plain h.1
  obtain ⟨v, hv, hvpad⟩ := padTruncate_of_plain h.2
  have hfills := (fills_batchHeader hp sec ht hu hv hhead.2.2).2 h
  simpa only [batchHeader, htpad, hupad, hvpad] using hfills

theorem entryRecord_fills (hp : ValidProfile p) (hc : EntryFits c) {seq : Nat}
    (hseq : seq < 10 ^ 7) :
    List.Forall₂ Fills entryWidths
      (entryDetail (c.rdfiRouting.take 8) (c.rdfiRouting.drop 8)
        (c.accountNumber.take 17) c.amountCents.toNat
        (c.individualId.take 15) (c.receiverName.take 22)
        (p.odfiRouting.take 8) seq) := by
  have hplain : Plain 17 c.accountNumber :=
    hc.2.2.1.mono fun d hd => List.mem_of_mem_take hd
  obtain ⟨t, ht, htpad⟩ := padTruncate_of_plain hplain
  obtain ⟨u, hu, hupad⟩ := padTruncate_of_plain hc.2.2.2.1
  obtain ⟨v, hv, hvpad⟩ := padTruncate_of_plain hc.2.2.2.2
  have hfills := (fills_entryDetail hp hc.1 ht hu hv seq).2 ⟨hc, hseq⟩
  simpa only [entryDetail, htpad, hupad, hvpad] using hfills

theorem batchControlRecord_fills (hp : ValidProfile p) (h : BatchFits p)
    (hlen : cs.length < 10 ^ 6) (hamount : amountSum cs < 10 ^ 12) :
    List.Forall₂ Fills batchControlWidths
      (batchControl cs.length (hashSum cs % 10 ^ 10) (amountSum cs)
        (p.companyId.take 10) (p.odfiRouting.take 8)) := by
  obtain ⟨t, ht, hpad⟩ := padTruncate_of_plain h.1
  have hfills := (fills_batchControl (n := cs.length) hp ht h.1
    (hash_lt (hashSum cs))).2 ⟨hlen, hamount⟩
  simpa only [batchControl, hpad] using hfills

theorem fileControlRecord_fills (hlen : cs.length < 10 ^ 6) (hamount : amountSum cs < 10 ^ 12) :
    List.Forall₂ Fills fileControlWidths
      (fileControl ((cs.length + 4 + 9) / 10) cs.length
        (hashSum cs % 10 ^ 10) (amountSum cs)) :=
  fills_fileControl (by omega) hlen (hash_lt _) hamount

theorem mem_entryRecords {r : Text} : r ∈ entryRecords p cs ↔
      ∃ i c, cs[i]? = some c ∧ r = entryRecord p (i + 1) c := by
  rw [entryRecords, List.mem_mapIdx]
  constructor
  · rintro ⟨i, hi, rfl⟩
    exact ⟨i, cs[i], List.getElem?_eq_getElem hi, rfl⟩
  · rintro ⟨i, c, hi, rfl⟩
    obtain ⟨hlt, rfl⟩ := List.getElem?_eq_some_iff.1 hi
    exact ⟨i, hlt, rfl⟩

theorem length_fileRecords (h : Accepted batch p cs) :
    ∀ r ∈ fileRecords p cs, r.length = 94 := by
  obtain ⟨⟨-, -, -, -, hp⟩, hhead, hbatch, hfits, hlen, hamount⟩ := h
  intro r hr
  simp only [fileRecords, closingRecords, List.mem_cons, List.mem_append]
    at hr
  rcases hr with rfl | rfl | hr | rfl | rfl | hr
  · exact length_fields (fileHeaderRecord_fills hp hhead)
  · exact length_fields (batchHeaderRecord_fills hp hhead hbatch _)
  · obtain ⟨i, c, hi, rfl⟩ := mem_entryRecords.1 hr
    obtain ⟨hlt, rfl⟩ := List.getElem?_eq_some_iff.1 hi
    exact length_fields (entryRecord_fills hp (hfits _ (List.getElem_mem hlt)) (by omega))
  · exact length_fields (batchControlRecord_fills hp hbatch hlen hamount)
  · exact length_fields (fileControlRecord_fills hlen hamount)
  · rw [List.eq_of_mem_replicate hr]
    rfl

/-- The columns of an entry read back as the credit's numbers. -/
theorem entryRecord_columns (hp : ValidProfile p) (hc : EntryFits c)
    {seq : Nat} (hseq : seq < 10 ^ 7) :
    entryRouting (entryRecord p seq c) = routing8 c ∧
      entryAmount (entryRecord p seq c) = c.amountCents.toNat := by
  have hfills := entryRecord_fills hp hc hseq
  have hrouting := column_flatten hfills (i := 2) rfl rfl rfl
  have hamount := column_flatten hfills (i := 5) rfl rfl rfl
  exact ⟨congrArg number hrouting, (congrArg number hamount).trans (number_zeroPad 10 _)⟩

theorem map_entryRecords {β : Type} {f : Text → β} {g : NachaCredit → β}
    (h : ∀ i, ∀ c ∈ cs, i + 1 ≤ cs.length → f (entryRecord p (i + 1) c) = g c) :
    (entryRecords p cs).map f = cs.map g := by
  apply List.ext_getElem
  · simp [entryRecords]
  · intro i hi hi'
    simp only [List.length_map] at hi'
    simp only [List.getElem_map, entryRecords, List.getElem_mapIdx]
    exact h i _ (List.getElem_mem hi') hi'

-- ==== the newlines

theorem Digits.newline_not_mem {n : Nat} {s : Text} (h : Digits n s) : '\n' ∉ s := by
  intro hmem
  have := h.2 _ hmem
  cases this

theorem newline_not_mem_zeroPad (w n : Nat) : '\n' ∉ zeroPad w n := by
  intro hmem
  have := isDigit_zeroPad hmem
  cases this

theorem newline_mem_padRight (w : Nat) (s : Text) :
    '\n' ∈ padRight w s ↔ '\n' ∈ s := mem_padRight (by decide) w s

theorem newline_mem_padLeft (w : Nat) (s : Text) :
    '\n' ∈ padLeft ' ' w s ↔ '\n' ∈ s := mem_padLeft (by decide) w s

theorem newline_fileHeaderRecord (hp : ValidProfile p) :
    '\n' ∉ fileHeaderRecord p ↔
      '\n' ∉ p.immediateDestination ∧ '\n' ∉ p.immediateOrigin ∧
        '\n' ∉ p.companyName.take 23 := by
  simp +decide only [fileHeaderRecord, fileHeader, List.flatten_cons,
    List.flatten_nil, List.mem_append, newline_mem_padLeft,
    newline_mem_padRight, hp.2.2.2.newline_not_mem, not_or, false_or,
    or_false, and_self]

theorem newline_batchHeaderRecord (hp : ValidProfile p) (sec : SecCode) :
    '\n' ∉ batchHeaderRecord p sec ↔
      '\n' ∉ p.companyName.take 16 ∧ '\n' ∉ p.companyId.take 10 ∧
        '\n' ∉ p.companyEntryDescription.take 10 := by
  have hodfi : '\n' ∉ p.odfiRouting.take 8 := fun h =>
    hp.1.newline_not_mem (List.mem_of_mem_take h)
  have hsec : '\n' ∉ sec.asStr := by
    cases sec with
    | ppd => decide
    | ccd => decide
  simp +decide only [batchHeaderRecord, batchHeader, List.flatten_cons,
    List.flatten_nil, List.mem_append, newline_mem_padLeft,
    newline_mem_padRight, hodfi, hsec, hp.2.2.2.newline_not_mem, not_or,
    false_or, or_false]

theorem newline_entryRecord (hp : ValidProfile p) (hc : ValidCredit c) (seq : Nat) :
    '\n' ∉ entryRecord p seq c ↔
      '\n' ∉ c.accountNumber ∧ '\n' ∉ c.individualId.take 15 ∧
        '\n' ∉ c.receiverName.take 22 := by
  have hodfi : '\n' ∉ p.odfiRouting.take 8 := fun h =>
    hp.1.newline_not_mem (List.mem_of_mem_take h)
  have hrdfi : '\n' ∉ c.rdfiRouting.take 8 := fun h =>
    hc.1.newline_not_mem (List.mem_of_mem_take h)
  have hcheck : '\n' ∉ c.rdfiRouting.drop 8 := fun h =>
    hc.1.newline_not_mem (List.mem_of_mem_drop h)
  have hacct : c.accountNumber.take 17 = c.accountNumber :=
    List.take_of_length_le ((length_le_byteLen _).trans hc.2.2.1)
  simp +decide only [entryRecord, entryDetail, List.flatten_cons,
    List.flatten_nil, List.mem_append, newline_mem_padRight,
    newline_not_mem_zeroPad, hodfi, hrdfi, hcheck, hacct, not_or, false_or,
    or_false]

theorem newline_batchControlRecord (hp : ValidProfile p) (cs : List NachaCredit) :
    '\n' ∉ batchControlRecord p cs ↔ '\n' ∉ p.companyId.take 10 := by
  have hodfi : '\n' ∉ p.odfiRouting.take 8 := fun h =>
    hp.1.newline_not_mem (List.mem_of_mem_take h)
  simp +decide only [batchControlRecord, batchControl, List.flatten_cons,
    List.flatten_nil, List.mem_append, newline_mem_padLeft,
    newline_mem_padRight, newline_not_mem_zeroPad, hodfi, false_or, or_false]

theorem newline_fileControlRecord (cs : List NachaCredit) : '\n' ∉ fileControlRecord cs := by
  simp +decide only [fileControlRecord, fileControl, List.flatten_cons,
    List.flatten_nil, List.mem_append, newline_not_mem_zeroPad, or_self,
    not_false_eq_true]

/-- The records hold no newline exactly when the texts kept hold none. -/
theorem newline_fileRecords_iff (h : Accepted batch p cs) :
    (∀ r ∈ fileRecords p cs, '\n' ∉ r) ↔ OneLine p cs := by
  obtain ⟨⟨-, -, -, -, hp⟩, -, -, hfits, -, -⟩ := h
  rw [fileRecords, closingRecords, List.forall_mem_cons,
    List.forall_mem_cons, List.forall_mem_append, List.forall_mem_cons,
    List.forall_mem_cons, newline_fileHeaderRecord hp,
    newline_batchHeaderRecord hp, newline_batchControlRecord hp]
  constructor
  · rintro ⟨⟨hdest, horig, hname⟩, ⟨-, hid, hdesc⟩, hentries, -⟩
    refine ⟨hdest, horig, hname, hid, hdesc, ?_⟩
    intro c hc
    obtain ⟨i, hi⟩ := List.getElem?_of_mem hc
    exact (newline_entryRecord hp (hfits c hc).1 (i + 1)).1
      (hentries _ (mem_entryRecords.2 ⟨i, c, hi, rfl⟩))
  · rintro ⟨hdest, horig, hname, hid, hdesc, hcredits⟩
    refine ⟨⟨hdest, horig, hname⟩, ⟨?_, hid, hdesc⟩, ?_, hid, newline_fileControlRecord cs, ?_⟩
    · intro hmem
      exact hname ((List.take_prefix_take_left (by decide : 16 ≤ 23)).subset hmem)
    · intro r hr
      obtain ⟨i, c, hi, rfl⟩ := mem_entryRecords.1 hr
      have hc := List.mem_of_getElem? hi
      exact (newline_entryRecord hp (hfits c hc).1 (i + 1)).2 (hcredits c hc)
    · intro r hr
      rw [List.eq_of_mem_replicate hr]
      decide

-- ==== the result

/-- What an accepted input writes is well formed exactly when the texts
kept hold no newline. -/
theorem wellFormed_iff (h : Accepted batch p cs) :
    WellFormed cs (unlines (fileRecords p cs)) ↔ OneLine p cs := by
  rw [← newline_fileRecords_iff h, ← unlines_splits_iff (length_fileRecords h)]
  constructor
  · rintro ⟨r1, r5, entries, r8, r9, k, hsplit, hlen, -⟩
    exact ⟨_, hsplit, hlen⟩
  · intro hsplits
    have hlen := length_fileRecords h
    have hline := splitOn_unlines ((unlines_splits_iff hlen).1 hsplits)
    obtain ⟨⟨-, -, -, -, hp⟩, hhead, hbatch, hfits, hcount, hamount⟩ := h
    have hcols : ∀ i, ∀ c ∈ cs, i + 1 ≤ cs.length →
        entryRouting (entryRecord p (i + 1) c) = routing8 c ∧
          entryAmount (entryRecord p (i + 1) c) = c.amountCents.toNat :=
      fun i c hc hi => entryRecord_columns hp (hfits c hc) (by omega)
    have hrouting : ((entryRecords p cs).map entryRouting).sum = hashSum cs :=
      congrArg List.sum (map_entryRecords fun i c hc hi =>
        (hcols i c hc hi).1)
    have hamounts : ((entryRecords p cs).map entryAmount).sum = amountSum cs :=
      congrArg List.sum (map_entryRecords fun i c hc hi =>
        (hcols i c hc hi).2)
    have hentries : (entryRecords p cs).length = cs.length := by
      simp [entryRecords]
    have h8 := batchControlRecord_fills hp hbatch hcount hamount
    have h9 := fileControlRecord_fills hcount hamount
    have hblock : (cs.length + 4 + 9) / 10 = (cs.length + 4 + fillerCount cs.length) / 10 := by
      unfold fillerCount
      omega
    refine ⟨fileHeaderRecord p, batchHeaderRecord p (firstSec cs),
      entryRecords p cs, batchControlRecord p cs, fileControlRecord cs,
      fillerCount cs.length, hline, hlen, rfl, rfl, ?_, rfl, rfl, hentries,
      ?_⟩
    · intro r hr
      obtain ⟨i, c, -, rfl⟩ := mem_entryRecords.1 hr
      rfl
    · rw [hrouting, hamounts, hentries, ← hblock]
      refine ⟨Nat.mod_lt _ (by decide), ?_, ?_, ?_, ?_, ?_, ?_, ?_, ?_⟩
      · unfold fillerCount
        omega
      · exact (congrArg number (column_flatten h9 (i := 2) rfl rfl rfl)).trans
          (number_zeroPad ..)
      · exact (congrArg number (column_flatten h8 (i := 2) rfl rfl rfl)).trans
          (number_zeroPad ..)
      · exact (congrArg number (column_flatten h9 (i := 3) rfl rfl rfl)).trans
          (number_zeroPad ..)
      · exact (congrArg number (column_flatten h8 (i := 3) rfl rfl rfl)).trans
          (number_zeroPad ..)
      · exact (congrArg number (column_flatten h9 (i := 4) rfl rfl rfl)).trans
          (number_zeroPad ..)
      · exact (congrArg number (column_flatten h8 (i := 5) rfl rfl rfl)).trans
          (number_zeroPad ..)
      · exact (congrArg number (column_flatten h9 (i := 6) rfl rfl rfl)).trans
          (number_zeroPad ..)

/-- The generator does what the format asks exactly when it cuts no
character and, where it accepts, keeps no newline. -/
theorem generatesWell_iff (batch : Batch) (p : NachaProfile) (credits : List NachaCredit) :
    GeneratesWell batch p credits ↔
      ¬ Panics batch p credits ∧ (Accepted batch p credits → OneLine p credits) := by
  unfold GeneratesWell
  rw [ne_eq, nachaFile_panics_iff]
  refine and_congr_right fun _ => ?_
  constructor
  · intro h haccepted
    exact (wellFormed_iff haccepted).1 (h _ ((nachaFile_ok_iff ..).2 ⟨haccepted, rfl⟩))
  · intro h out hout
    obtain ⟨haccepted, rfl⟩ := (nachaFile_ok_iff ..).1 hout
    exact (wellFormed_iff haccepted).2 (h haccepted)

def oneEntryBatch : Batch :=
  { Batch.open ⟨⟨0⟩⟩ .USD .achNacha 1000 with
    entries := [
      { txId := ⟨⟨0⟩⟩, reference := none
        amount := Money.fromMinor ⟨750000, by decide⟩ .USD }] }

def oneCredit : NachaCredit :=
  { rdfiRouting := ['0', '2', '1', '0', '0', '0', '0', '2', '1']
    accountNumber := ['1', '1', '1', '1'], receiverName := ['A', 'L', 'I']
    amountCents := 750000, individualId := ['A'], sec := .ppd }

def namedProfile (companyName : Text) : NachaProfile :=
  { odfiRouting := ['1', '2', '1', '0', '0', '0', '2', '4', '8']
    immediateOrigin := List.replicate 10 '1'
    immediateDestination := List.replicate 10 '2'
    companyName, companyId := ['9'], companyEntryDescription := ['P']
    effectiveEntryDate := ['2', '6', '1', '1', '2', '2'] }

/-- A name of twenty-two letters and an accented one panics; a name with
a newline in it writes a file whose lines are not its records. -/
theorem generatesWell_fails :
    ¬ GeneratesWell oneEntryBatch (namedProfile (List.replicate 22 'A' ++ ['é'])) [oneCredit] ∧
      ¬ GeneratesWell oneEntryBatch (namedProfile ['A', '\n', 'B'])
          [oneCredit] := by
  constructor
  · rintro ⟨hpanic, -⟩
    exact hpanic (by rfl)
  · rintro ⟨-, hwell⟩
    have haccepted : Accepted oneEntryBatch (namedProfile ['A', '\n', 'B'])
        [oneCredit] := by
      unfold Accepted Admitted ValidProfile HeaderFits BatchFits EntryFits ValidCredit
      decide
    have hline := (wellFormed_iff haccepted).1
      (hwell _ ((nachaFile_ok_iff ..).2 ⟨haccepted, rfl⟩))
    exact hline.2.2.1 (by decide)

end OpenStandards.OpSettlement

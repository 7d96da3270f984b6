/-
The records of the NACHA generator, one by one: which texts make it
panic there, which pass, and the line that is then written.

The one test `push94` makes of a line is of its bytes. No field is narrower
than its column, so a line that passes has every field in its column and
one byte for each character (`push94_fields`). Each record then has a
condition on its texts and numbers and a line that is a function of them.
The loop over the credits keeps the sums of the routing numbers and of the
amounts (`afterEntries`), far from the end of their machine words.
-/
import OpenStandards.OpSettlement.Nacha

namespace OpenStandards.OpSettlement

open Lib OpCore Text

-- ==== conditions

def ValidProfile (p : NachaProfile) : Prop :=
  Digits 9 p.odfiRouting ∧ p.immediateOrigin.byteLen = 10 ∧
    p.immediateDestination.byteLen = 10 ∧ Digits 6 p.effectiveEntryDate

def ValidCredit (c : NachaCredit) : Prop :=
  Digits 9 c.rdfiRouting ∧ c.accountNumber ≠ [] ∧
    c.accountNumber.byteLen ≤ 17 ∧ c.receiverName ≠ []

/-- The generator gets to its first record. -/
def Admitted (batch : Batch) (p : NachaProfile) (credits : List NachaCredit) : Prop :=
  batch.rail = .achNacha ∧ batch.currency = .USD ∧ credits ≠ [] ∧
    credits.length = batch.entries.length ∧ ValidProfile p

/-- Truncating to `w` bytes does not cut a character. -/
def CutsClean (w : Nat) (s : Text) : Prop :=
  w ≤ s.byteLen → IsCharBoundary w s

instance (w : Nat) (s : Text) : Decidable (CutsClean w s) :=
  inferInstanceAs (Decidable (_ → _))

def HeaderFits (p : NachaProfile) : Prop :=
  Ascii p.immediateDestination ∧ Ascii p.immediateOrigin ∧ Plain 23 p.companyName

def BatchFits (p : NachaProfile) : Prop :=
  Plain 10 p.companyId ∧ Plain 10 p.companyEntryDescription

/-- The credit is valid, its amount has ten digits and its texts are
plain. -/
def EntryFits (c : NachaCredit) : Prop :=
  ValidCredit c ∧ c.amountCents.toNat < 10 ^ 10 ∧ Ascii c.accountNumber ∧
    Plain 15 c.individualId ∧ Plain 22 c.receiverName

-- ==== the fields

variable {n w : Nat} {s out out' acct indId rcvName : Text} {p : NachaProfile}
    {c : NachaCredit} {batch : Batch} {cs : List NachaCredit}

theorem Digits.length (h : Digits n s) : s.length = n := by
  rw [← h.1]
  exact ((byteLen_eq_length_iff s).2 (ascii_of_isDigit h.2)).symm

theorem Digits.ascii (h : Digits n s) : Ascii s :=
  ascii_of_isDigit h.2

theorem fills_padLeft (h : s.byteLen = w) : Fills w (padLeft ' ' w s) ↔ Ascii s := by
  have hle := length_le_byteLen s
  rw [Fills, length_padLeft, ascii_padLeft (by decide)]
  exact and_iff_right (by omega)

/-- `pad_truncate` panics exactly when it cuts a character. -/
theorem padTruncate_panics_iff (s : Text) (w : Nat) :
    padTruncate s w = .error .panic ↔ ¬ CutsClean w s := by
  unfold padTruncate CutsClean IsCharBoundary
  split
  · next hlen =>
      cases takeBytes w s with
      | none => simp [hlen]
      | some t => simp
  · next hlen => simp [hlen]

theorem padTruncate_ne_err (s : Text) (w : Nat) (e : Error) :
    padTruncate s w ≠ .error (.err e) := by
  unfold padTruncate
  split
  · cases takeBytes w s with
    | none => simp
    | some t => simp
  · simp

/-- What `pad_truncate` leaves fills its column exactly when the text is
plain there. -/
theorem fills_padTruncate {t : Text} (h : padTruncate s w = .ok t) :
    Fills w (padRight w t) ↔ Plain w s := by
  unfold padTruncate at h
  split at h
  · next hlen =>
      cases hcut : takeBytes w s with
      | none =>
        rw [hcut] at h
        cases h
      | some u =>
        rw [hcut] at h
        obtain rfl : u = t := Except.ok.inj h
        obtain ⟨hbytes, v, rfl⟩ := takeBytes_eq_some hcut
        have hle := length_le_byteLen u
        rw [Fills, length_padRight, ascii_padRight]
        constructor
        · rintro ⟨-, hascii⟩
          have := (byteLen_eq_length_iff u).2 hascii
          rw [Plain, List.take_left' (by omega)]
          exact hascii
        · intro hplain
          have hsome := (takeBytes_of_plain hplain hlen).2
          have hu : u = (u ++ v).take w := Option.some.inj (hcut ▸ hsome)
          refine ⟨by omega, ?_⟩
          rw [hu]
          exact hplain
  · next hlen =>
      cases h
      have hle := length_le_byteLen s
      rw [padRight_of_length_le (by rw [length_padRight]; omega), Fills,
        length_padRight, ascii_padRight, plain_iff_ascii (by omega)]
      exact and_iff_right (by omega)

/-- A plain text is kept up to its column. -/
theorem padTruncate_of_plain (h : Plain w s) :
    ∃ t, padTruncate s w = .ok t ∧ padRight w t = padRight w (s.take w) := by
  unfold padTruncate
  split
  · next hlen =>
      rw [(takeBytes_of_plain h hlen).2]
      exact ⟨_, rfl, rfl⟩
  · next hlen =>
      have hle := length_le_byteLen s
      refine ⟨_, rfl, ?_⟩
      rw [padRight_of_length_le (by rw [length_padRight]; omega),
        List.take_of_length_le (by omega)]

/-- A text no longer than the column is never cut. -/
theorem cutsClean_of_le (h : s.byteLen ≤ w) : CutsClean w s := by
  intro hlen
  have heq : s.byteLen = w := le_antisymm h hlen
  have hall := takeBytes_append s []
  rw [List.append_nil, heq] at hall
  simp [IsCharBoundary, hall]

theorem CutsClean.of_plain (h : Plain w s) : CutsClean w s := by
  intro hlen
  simp [IsCharBoundary, (takeBytes_of_plain h hlen).2]

/-- The part of a plain text, where the slice is in bounds. -/
theorem sliceStr_of_ascii {lo hi : Nat} (hs : Ascii s) (hlo : lo ≤ hi)
    (hhi : hi ≤ s.length) : sliceStr lo hi s = .ok ((s.take hi).drop lo) := by
  have hlen := (byteLen_eq_length_iff s).2 hs
  have hcut : ∀ n, n ≤ hi → takeBytes n s = some (s.take n) := by
    intro n hn
    exact (takeBytes_of_plain (hs.mono fun c hc => List.mem_of_mem_take hc) (by omega)).2
  unfold sliceStr
  rw [hcut lo hlo, hcut hi le_rfl]
  simp only [if_pos hlo, List.length_take]
  rw [min_eq_left (by omega)]

-- ==== the lines

def fileHeaderWidths : List Nat := [3, 10, 10, 6, 4, 1, 6, 23, 23, 8]

def batchHeaderWidths : List Nat :=
  [1, 3, 16, 20, 10, 3, 10, 6, 6, 3, 1, 8, 7]

def entryWidths : List Nat := [1, 2, 8, 1, 17, 10, 15, 22, 3, 8, 7]

def batchControlWidths : List Nat := [1, 3, 6, 10, 12, 12, 10, 19, 6, 8, 7]

def fileControlWidths : List Nat := [1, 6, 6, 8, 10, 12, 12, 39]

theorem push94_ne_panic (out line : Text) : push94 out line ≠ .error .panic := by
  unfold push94
  split
  · simp [invalid]
  · simp

theorem push94_fields (ws : List Nat) {fs : List Text} (hws : ws.sum = 94)
    (h : List.Forall₂ (fun w f => w ≤ f.length) ws fs) :
    push94 out fs.flatten = .ok out' ↔
      List.Forall₂ Fills ws fs ∧ out' = out ++ unlines [fs.flatten] := by
  rw [← byteLen_fields_iff h, hws]
  unfold push94
  split
  · next hne =>
      constructor
      · intro hok
        cases hok
      · rintro ⟨heq, -⟩
        exact absurd heq hne
  · next heq =>
      have heq : byteLen fs.flatten = 94 := not_not.1 heq
      simp only [heq, true_and, Except.ok.injEq, unlines_cons, unlines_nil, List.append_assoc]
      exact eq_comm

theorem SecCode.fills (sec : SecCode) : Fills 3 (padRight 3 sec.asStr) := by
  cases sec with
  | ppd => decide
  | ccd => decide

/-- The eight digits that stand for a routing number. -/
theorem Digits.fills_take (h : Digits 9 s) : Fills 8 (s.take 8) := by
  refine ⟨?_, h.ascii.mono fun c hc => List.mem_of_mem_take hc⟩
  rw [List.length_take, h.length]
  rfl

/-- The check digit of a routing number. -/
theorem Digits.fills_drop (h : Digits 9 s) : Fills 1 (s.drop 8) := by
  refine ⟨?_, h.ascii.mono fun d hd => List.mem_of_mem_drop hd⟩
  rw [List.length_drop, h.length]

theorem Digits.fills_padLeft (h : Digits n s) : Fills n (padLeft ' ' n s) :=
  (OpSettlement.fills_padLeft h.1).2 h.ascii

theorem fills_fileHeader {destName origName : Text} (hp : ValidProfile p)
    (hdest : padTruncate p.companyName 23 = .ok destName)
    (horig : padTruncate p.companyName 23 = .ok origName) :
    List.Forall₂ Fills fileHeaderWidths (fileHeader p destName origName) ↔ HeaderFits p := by
  have hdate := hp.2.2.2.fills_padLeft
  simp +decide only [fileHeader, fileHeaderWidths, List.forall₂_cons,
    fills_padLeft hp.2.1, fills_padLeft hp.2.2.1, hdate,
    fills_padTruncate hdest, fills_padTruncate horig, true_and, and_true,
    and_self, HeaderFits]

theorem wide_fileHeader (p : NachaProfile) (destName origName : Text) :
    List.Forall₂ (fun w f => w ≤ f.length) fileHeaderWidths
      (fileHeader p destName origName) := by
  simp +decide only [fileHeader, fileHeaderWidths, List.forall₂_cons,
    le_length_padLeft, le_length_padRight, and_self]

theorem fills_batchHeader {coName coId desc : Text} (hp : ValidProfile p)
    (sec : SecCode) (hname : padTruncate p.companyName 16 = .ok coName)
    (hid : padTruncate p.companyId 10 = .ok coId)
    (hdesc : padTruncate p.companyEntryDescription 10 = .ok desc)
    (hplain : Plain 23 p.companyName) :
    List.Forall₂ Fills batchHeaderWidths
        (batchHeader coName coId sec.asStr desc p.effectiveEntryDate
          p.effectiveEntryDate (p.odfiRouting.take 8)) ↔
      BatchFits p := by
  have hodfi : Fills 8 (padLeft ' ' 8 (p.odfiRouting.take 8)) := by
    rw [padLeft_of_length_le (le_of_eq hp.1.fills_take.1.symm)]
    exact hp.1.fills_take
  simp +decide only [batchHeader, batchHeaderWidths, List.forall₂_cons,
    hp.2.2.2.fills_padLeft, fills_padTruncate hname, fills_padTruncate hid,
    fills_padTruncate hdesc, hplain.mono, sec.fills, hodfi, true_and,
    and_true, BatchFits]

theorem wide_batchHeader (coName coId sec desc descd eff odfiShort : Text) :
    List.Forall₂ (fun w f => w ≤ f.length) batchHeaderWidths
      (batchHeader coName coId sec desc descd eff odfiShort) := by
  simp +decide only [batchHeader, batchHeaderWidths, List.forall₂_cons,
    le_length_padLeft, le_length_padRight, and_self]

theorem fills_entryDetail (hp : ValidProfile p) (hc : ValidCredit c)
    (hacct : padTruncate c.accountNumber 17 = .ok acct)
    (hind : padTruncate c.individualId 15 = .ok indId)
    (hrcv : padTruncate c.receiverName 22 = .ok rcvName) (seq : Nat) :
    List.Forall₂ Fills entryWidths
        (entryDetail (c.rdfiRouting.take 8) (c.rdfiRouting.drop 8) acct
          c.amountCents.toNat indId rcvName (p.odfiRouting.take 8) seq) ↔
      EntryFits c ∧ seq < 10 ^ 7 := by
  have hshort : c.accountNumber.length ≤ 17 :=
    (length_le_byteLen _).trans hc.2.2.1
  simp +decide only [entryDetail, entryWidths, List.forall₂_cons,
    hc.1.fills_take, hp.1.fills_take, hc.1.fills_drop, fills_padTruncate hacct,
    fills_padTruncate hind, fills_padTruncate hrcv, plain_iff_ascii hshort,
    fills_zeroPad, true_and, and_true, EntryFits, hc]
  tauto

theorem wide_entryDetail {rdfi8 check : Text} {amount : Nat} {odfi8 : Text}
    {seq : Nat} (hrdfi : Fills 8 rdfi8) (hcheck : Fills 1 check) (hodfi : Fills 8 odfi8) :
    List.Forall₂ (fun w f => w ≤ f.length) entryWidths
      (entryDetail rdfi8 check acct amount indId rcvName odfi8 seq) := by
  simp +decide only [entryDetail, entryWidths, List.forall₂_cons,
    le_length_padRight, le_length_zeroPad, le_of_eq hrdfi.1.symm,
    le_of_eq hcheck.1.symm, le_of_eq hodfi.1.symm, and_self]

-- ==== the records

def fileHeaderRecord (p : NachaProfile) : Text :=
  (fileHeader p (p.companyName.take 23) (p.companyName.take 23)).flatten

def batchHeaderRecord (p : NachaProfile) (sec : SecCode) : Text :=
  (batchHeader (p.companyName.take 16) (p.companyId.take 10) sec.asStr
    (p.companyEntryDescription.take 10) p.effectiveEntryDate
    p.effectiveEntryDate (p.odfiRouting.take 8)).flatten

def entryRecord (p : NachaProfile) (seq : Nat) (c : NachaCredit) : Text :=
  (entryDetail (c.rdfiRouting.take 8) (c.rdfiRouting.drop 8)
    (c.accountNumber.take 17) c.amountCents.toNat (c.individualId.take 15)
    (c.receiverName.take 22) (p.odfiRouting.take 8) seq).flatten

theorem padRight_of_padTruncate {t : Text} (ht : padTruncate s w = .ok t)
    (h : Plain w s) : padRight w t = padRight w (s.take w) := by
  obtain ⟨u, hu, hpad⟩ := padTruncate_of_plain h
  rw [ht] at hu
  rw [Except.ok.inj hu, hpad]

theorem padTruncate_of_digits (h : Digits n s) : padTruncate s n = .ok s := by
  have hall := takeBytes_append s []
  rw [List.append_nil, h.1] at hall
  rw [padTruncate, if_pos (le_of_eq h.1.symm), hall]

theorem padTruncate_bind_panics_iff {β : Type} {f : Text → Except (Fault Error) β} :
    (padTruncate s w >>= f) = .error .panic ↔
      ¬ CutsClean w s ∨ ∃ t, padTruncate s w = .ok t ∧ f t = .error .panic := by
  rw [bind_eq_error, padTruncate_panics_iff]

theorem exists_padTruncate (h : CutsClean w s) : ∃ t, padTruncate s w = .ok t := by
  cases ht : padTruncate s w with
  | ok t => exact ⟨t, rfl⟩
  | error f =>
    cases f with
    | panic => exact absurd h ((padTruncate_panics_iff s w).1 ht)
    | err e => exact absurd ht (padTruncate_ne_err s w e)

theorem odfiShort_eq (hp : ValidProfile p) :
    sliceStr 0 (min 8 p.odfiRouting.byteLen) p.odfiRouting = .ok (p.odfiRouting.take 8) := by
  have hlen := hp.1.length
  rw [hp.1.1, sliceStr_of_ascii hp.1.ascii (Nat.zero_le _) (by omega)]
  rfl

-- ==== the file header

theorem pushFileHeader_panics_iff (p : NachaProfile) :
    pushFileHeader p = .error .panic ↔ ¬ CutsClean 23 p.companyName := by
  unfold pushFileHeader
  rw [padTruncate_bind_panics_iff]
  constructor
  · rintro (h | ⟨t, -, h⟩)
    · exact h
    · rw [padTruncate_bind_panics_iff] at h
      rcases h with h | ⟨u, -, h⟩
      · exact h
      · exact absurd h (push94_ne_panic _ _)
  · exact Or.inl

theorem pushFileHeader_ok_iff (hp : ValidProfile p) :
    pushFileHeader p = .ok out ↔ HeaderFits p ∧ out = unlines [fileHeaderRecord p] := by
  unfold pushFileHeader
  have hpush : ∀ t, padTruncate p.companyName 23 = .ok t →
      (push94 [] (fileHeader p t t).flatten = .ok out ↔
        HeaderFits p ∧ out = unlines [fileHeaderRecord p]) := by
    intro t ht
    rw [push94_fields fileHeaderWidths rfl (wide_fileHeader p t t),
      fills_fileHeader hp ht ht, List.nil_append]
    refine and_congr_right fun hfits => ?_
    simp only [fileHeaderRecord, fileHeader, padRight_of_padTruncate ht hfits.2.2]
  constructor
  · intro h
    obtain ⟨t, ht, h⟩ := bind_eq_ok.1 h
    rw [ht, ok_bind] at h
    exact (hpush t ht).1 h
  · intro h
    obtain ⟨t, ht, -⟩ := padTruncate_of_plain h.1.2.2
    rw [ht, ok_bind, ok_bind]
    exact (hpush t ht).2 h

-- ==== the batch header

theorem pushBatchHeader_eq (hp : ValidProfile p) (hfits : HeaderFits p)
    (c : NachaCredit) (cs : List NachaCredit) (out : Text) :
    ∃ coName, padTruncate p.companyName 16 = .ok coName ∧
      pushBatchHeader p (c :: cs) out = (do
        let coId ← padTruncate p.companyId 10
        let desc ← padTruncate p.companyEntryDescription 10
        push94 out (batchHeader coName coId c.sec.asStr desc
          p.effectiveEntryDate p.effectiveEntryDate
          (p.odfiRouting.take 8)).flatten) := by
  obtain ⟨coName, hname, -⟩ :=
    padTruncate_of_plain (hfits.2.2.mono (by decide : 16 ≤ 23))
  refine ⟨coName, hname, ?_⟩
  simp only [pushBatchHeader, ok_bind, hname, odfiShort_eq hp, padTruncate_of_digits hp.2.2.2]

theorem pushBatchHeader_panics_iff (hp : ValidProfile p)
    (hfits : HeaderFits p) {credits : List NachaCredit} (hne : credits ≠ [])
    (out : Text) :
    pushBatchHeader p credits out = .error .panic ↔
      ¬ CutsClean 10 p.companyId ∨ ¬ CutsClean 10 p.companyEntryDescription := by
  obtain ⟨c, cs, rfl⟩ := List.exists_cons_of_ne_nil hne
  obtain ⟨coName, -, heq⟩ := pushBatchHeader_eq hp hfits c cs out
  rw [heq, padTruncate_bind_panics_iff]
  constructor
  · rintro (h | ⟨t, -, h⟩)
    · exact Or.inl h
    · rw [padTruncate_bind_panics_iff] at h
      rcases h with h | ⟨u, -, h⟩
      · exact Or.inr h
      · exact absurd h (push94_ne_panic _ _)
  · rintro (h | h)
    · exact Or.inl h
    · by_cases hid : CutsClean 10 p.companyId
      · obtain ⟨t, ht⟩ := exists_padTruncate hid
        exact Or.inr ⟨t, ht, padTruncate_bind_panics_iff.2 (Or.inl h)⟩
      · exact Or.inl hid

theorem pushBatchHeader_ok_iff (hp : ValidProfile p) (hfits : HeaderFits p)
    (c : NachaCredit) (cs : List NachaCredit) :
    pushBatchHeader p (c :: cs) out = .ok out' ↔
      BatchFits p ∧ out' = out ++ unlines [batchHeaderRecord p c.sec] := by
  obtain ⟨coName, hname, heq⟩ := pushBatchHeader_eq hp hfits c cs out
  have hpush : ∀ t u, padTruncate p.companyId 10 = .ok t →
      padTruncate p.companyEntryDescription 10 = .ok u →
      (push94 out (batchHeader coName t c.sec.asStr u p.effectiveEntryDate
          p.effectiveEntryDate (p.odfiRouting.take 8)).flatten = .ok out' ↔
        BatchFits p ∧ out' = out ++ unlines [batchHeaderRecord p c.sec]) := by
    intro t u ht hu
    rw [push94_fields batchHeaderWidths rfl (wide_batchHeader ..),
      fills_batchHeader hp c.sec hname ht hu hfits.2.2]
    refine and_congr_right fun hb => ?_
    simp only [batchHeaderRecord, batchHeader,
      padRight_of_padTruncate hname (hfits.2.2.mono (by decide)),
      padRight_of_padTruncate ht hb.1, padRight_of_padTruncate hu hb.2]
  rw [heq]
  constructor
  · intro h
    obtain ⟨t, ht, h⟩ := bind_eq_ok.1 h
    obtain ⟨u, hu, h⟩ := bind_eq_ok.1 h
    exact (hpush t u ht hu).1 h
  · intro h
    obtain ⟨t, ht, -⟩ := padTruncate_of_plain h.1.1
    obtain ⟨u, hu, -⟩ := padTruncate_of_plain h.1.2
    rw [ht, hu, ok_bind, ok_bind]
    exact (hpush t u ht hu).2 h

-- ==== the entries

theorem validateCredit_ok_iff (c : NachaCredit) {u : Unit} :
    validateCredit c = .ok u ↔ ValidCredit c := by
  simp only [validateCredit, refuse_bind_eq_ok, refuse_eq_ok, ValidCredit,
    not_not, not_or, not_lt, ne_eq, and_assoc]

theorem validateCredit_ne_panic (c : NachaCredit) : validateCredit c ≠ .error .panic := by
  intro h
  simp [validateCredit, bind_eq_error, refuse_eq_error, invalid] at h

theorem amountForCurrencyInCents_eq (husd : batch.currency = .USD) (amountCents : UInt64) :
    batch.amountForCurrencyInCents amountCents =
      if amountCents.toNat < 2 ^ 63 then .ok amountCents.toNat
      else .error (.err (.core .overflow)) := by
  unfold Batch.amountForCurrencyInCents
  rw [if_neg (not_not.2 husd)]
  cases hint : I64.ofInt? amountCents.toNat with
  | none =>
    have := I64.ofInt?_eq_none.1 hint
    rw [if_neg (by unfold InI64 at this; omega)]
  | some r =>
    have hval : r.val = amountCents.toNat := (I64.ofInt?_eq_some.1 hint)
    have hin := r.inRange
    rw [if_pos (by unfold InI64 at hin; omega)]

theorem parseU64_of_digits (hs : Digits 9 s) :
    parseU64 (s.take 8) = .ok (number (s.take 8)) := by
  have hlen := hs.fills_take.1
  have hdigit : ∀ c ∈ s.take 8, c.isDigit = true :=
    fun c hc => hs.2 c (List.mem_of_mem_take hc)
  have hlt := number_lt hdigit
  have hne : s.take 8 ≠ [] := by
    intro hnil
    rw [hnil] at hlen
    cases hlen
  rw [hlen] at hlt
  rw [parseU64, parseUnsigned_of_digits hne hdigit (by omega)]

def routing8 (c : NachaCredit) : Nat := number (c.rdfiRouting.take 8)

def hashSum (cs : List NachaCredit) : Nat := (cs.map routing8).sum

def amountSum (cs : List NachaCredit) : Nat :=
  (cs.map fun c => c.amountCents.toNat).sum

def entryRecords (p : NachaProfile) (cs : List NachaCredit) : List Text :=
  cs.mapIdx fun i c => entryRecord p (i + 1) c

/-- What the loop holds after some credits, `out` being what was written
before it. -/
def afterEntries (p : NachaProfile) (out : Text) (cs : List NachaCredit) : Entries :=
  { out := out ++ unlines (entryRecords p cs), entryHash := hashSum cs
    totalCredit := amountSum cs, seq := cs.length }

def EntryPasses (pre : List NachaCredit) (c : NachaCredit) : Prop :=
  EntryFits c ∧ pre.length + 1 < 10 ^ 7

theorem admits_entryPasses_iff (cs : List NachaCredit) :
    Admits EntryPasses cs ↔ (∀ c ∈ cs, EntryFits c) ∧ cs.length < 10 ^ 7 := by
  induction cs using List.reverseRecOn with
  | nil => simp [admits_nil]
  | append_singleton cs c ih =>
    rw [admits_concat, ih, EntryPasses]
    simp only [List.mem_append, List.mem_singleton, List.length_append, List.length_singleton]
    constructor
    · rintro ⟨⟨hcs, -⟩, hc, hlen⟩
      refine ⟨?_, hlen⟩
      rintro x (hx | rfl)
      · exact hcs x hx
      · exact hc
    · rintro ⟨hall, hlen⟩
      exact ⟨⟨fun x hx => hall x (Or.inl hx), by omega⟩, hall c (Or.inr rfl), hlen⟩

theorem EntryFits.routing8_lt (h : EntryFits c) : routing8 c < 10 ^ 8 := by
  have hlt := @number_lt (c.rdfiRouting.take 8)
    fun d hd => h.1.1.2 d (List.mem_of_mem_take hd)
  rwa [h.1.1.fills_take.1] at hlt

theorem hashSum_le (h : ∀ c ∈ cs, EntryFits c) : hashSum cs ≤ cs.length * 10 ^ 8 := by
  have hle := List.sum_le_card_nsmul (cs.map routing8) (10 ^ 8) (by
    intro x hx
    obtain ⟨c, hc, rfl⟩ := List.mem_map.1 hx
    exact le_of_lt (h c hc).routing8_lt)
  rwa [List.length_map, Nat.nsmul_eq_mul] at hle

theorem amountSum_le (h : ∀ c ∈ cs, EntryFits c) : amountSum cs ≤ cs.length * 10 ^ 10 := by
  have hle := List.sum_le_card_nsmul
    (cs.map fun c => c.amountCents.toNat) (10 ^ 10) (by
      intro x hx
      obtain ⟨c, hc, rfl⟩ := List.mem_map.1 hx
      exact le_of_lt (h c hc).2.1)
  rwa [List.length_map, Nat.nsmul_eq_mul] at hle

/-- What a turn of the loop comes down to for a valid credit, while the
counters are small. -/
theorem pushEntry_eq {acc : Entries} (husd : batch.currency = .USD)
    (hp : ValidProfile p) (hc : ValidCredit c)
    (hamount : c.amountCents.toNat < 2 ^ 63) (hseq : acc.seq < 10 ^ 7)
    (htotal : acc.totalCredit ≤ 10 ^ 17) :
    pushEntry batch p acc c = (do
      let acct ← padTruncate c.accountNumber 17
      let indId ← padTruncate c.individualId 15
      let rcvName ← padTruncate c.receiverName 22
      let out ← push94 acc.out (entryDetail (c.rdfiRouting.take 8)
        (c.rdfiRouting.drop 8) acct c.amountCents.toNat indId rcvName
        (p.odfiRouting.take 8) (acc.seq + 1)).flatten
      .ok { out, entryHash := (acc.entryHash + routing8 c) % 2 ^ 64
            totalCredit := acc.totalCredit + c.amountCents.toNat
            seq := acc.seq + 1 }) := by
  have hrdfi := hc.1.length
  have hodfi := hp.1.length
  have hseq32 : addU32 acc.seq 1 = .ok (acc.seq + 1) := if_pos (by omega)
  have hsum : checkedSum acc.totalCredit c.amountCents.toNat
      = .ok (acc.totalCredit + c.amountCents.toNat) := if_pos (by omega)
  have hwhole : c.rdfiRouting.take 9 = c.rdfiRouting :=
    List.take_of_length_le (le_of_eq hrdfi)
  have hvalid : validateCredit c = .ok () := (validateCredit_ok_iff c).2 hc
  simp only [pushEntry, hvalid, hseq32, hsum,
    amountForCurrencyInCents_eq husd, if_pos hamount, ok_bind,
    sliceStr_of_ascii hc.1.ascii (show 0 ≤ 8 by decide) (by omega),
    sliceStr_of_ascii hc.1.ascii (show 8 ≤ 9 by decide) (by omega),
    sliceStr_of_ascii hp.1.ascii (show 0 ≤ 8 by decide) (by omega),
    List.drop_zero, hwhole, parseU64_of_digits hc.1, routing8]

/-- A turn at a credit that is not valid, or of an amount that is not an
`i64`, returns an error. -/
theorem pushEntry_errs (p : NachaProfile) (acc : Entries)
    (husd : batch.currency = .USD) (hseq : acc.seq < 10 ^ 7)
    (h : ¬ (ValidCredit c ∧ c.amountCents.toNat < 2 ^ 63)) :
    ∃ e, pushEntry batch p acc c = .error (.err e) := by
  cases hvalid : validateCredit c with
  | error f =>
    cases f with
    | panic => exact absurd hvalid (validateCredit_ne_panic c)
    | err e =>
      refine ⟨e, ?_⟩
      simp only [pushEntry, hvalid, error_bind]
  | ok u =>
    have hc := (validateCredit_ok_iff c).1 hvalid
    have hrdfi := hc.1.length
    have hseq32 : addU32 acc.seq 1 = .ok (acc.seq + 1) := if_pos (by omega)
    have hamount : ¬ c.amountCents.toNat < 2 ^ 63 := fun ha => h ⟨hc, ha⟩
    refine ⟨.core .overflow, ?_⟩
    simp only [pushEntry, hvalid, hseq32, amountForCurrencyInCents_eq husd,
      if_neg hamount, ok_bind, error_bind,
      sliceStr_of_ascii hc.1.ascii (show 0 ≤ 8 by decide) (by omega),
      sliceStr_of_ascii hc.1.ascii (show 8 ≤ 9 by decide) (by omega)]

theorem pushEntry_panics_iff {acc : Entries} (husd : batch.currency = .USD)
    (hp : ValidProfile p) (hseq : acc.seq < 10 ^ 7) (htotal : acc.totalCredit ≤ 10 ^ 17) :
    pushEntry batch p acc c = .error .panic ↔
      ValidCredit c ∧ c.amountCents.toNat < 2 ^ 63 ∧
        (¬ CutsClean 15 c.individualId ∨ ¬ CutsClean 22 c.receiverName) := by
  by_cases hok : ValidCredit c ∧ c.amountCents.toNat < 2 ^ 63
  · obtain ⟨hc, hamount⟩ := hok
    rw [pushEntry_eq husd hp hc hamount hseq htotal]
    obtain ⟨acct, hacct⟩ := exists_padTruncate (cutsClean_of_le hc.2.2.1)
    rw [hacct, ok_bind, padTruncate_bind_panics_iff]
    simp only [hc, hamount, true_and]
    constructor
    · rintro (h | ⟨t, -, h⟩)
      · exact Or.inl h
      · rw [padTruncate_bind_panics_iff] at h
        rcases h with h | ⟨u, -, h⟩
        · exact Or.inr h
        · rcases bind_eq_error.1 h with h | ⟨v, -, h⟩
          · exact absurd h (push94_ne_panic _ _)
          · cases h
    · rintro (h | h)
      · exact Or.inl h
      · by_cases hind : CutsClean 15 c.individualId
        · obtain ⟨t, ht⟩ := exists_padTruncate hind
          exact Or.inr ⟨t, ht, padTruncate_bind_panics_iff.2 (Or.inl h)⟩
        · exact Or.inl hind
  · obtain ⟨e, he⟩ := pushEntry_errs p acc husd hseq hok
    rw [he]
    constructor
    · intro h
      cases h
    · rintro ⟨hc, hamount, -⟩
      exact absurd ⟨hc, hamount⟩ hok

theorem hashSum_concat (cs : List NachaCredit) (c : NachaCredit) :
    hashSum (cs ++ [c]) = hashSum cs + routing8 c := by
  simp [hashSum]

theorem amountSum_concat (cs : List NachaCredit) (c : NachaCredit) :
    amountSum (cs ++ [c]) = amountSum cs + c.amountCents.toNat := by
  simp [amountSum]

theorem entryRecords_concat (p : NachaProfile) (cs : List NachaCredit) (c : NachaCredit) :
    entryRecords p (cs ++ [c]) = entryRecords p cs ++ [entryRecord p (cs.length + 1) c] := by
  simp [entryRecords, List.mapIdx_concat]

theorem push_entryDetail {pre : List NachaCredit} (out : Text)
    (hp : ValidProfile p) (hc : ValidCredit c) (hacct : padTruncate c.accountNumber 17 = .ok acct)
    (hind : padTruncate c.individualId 15 = .ok indId)
    (hrcv : padTruncate c.receiverName 22 = .ok rcvName) :
    push94 (afterEntries p out pre).out
        (entryDetail (c.rdfiRouting.take 8) (c.rdfiRouting.drop 8) acct
          c.amountCents.toNat indId rcvName (p.odfiRouting.take 8)
          (pre.length + 1)).flatten = .ok out' ↔
      EntryPasses pre c ∧ out' = (afterEntries p out (pre ++ [c])).out := by
  rw [push94_fields entryWidths rfl (wide_entryDetail hc.1.fills_take
    hc.1.fills_drop hp.1.fills_take),
    fills_entryDetail hp hc hacct hind hrcv]
  refine and_congr_right fun hpass => ?_
  have hplain : Plain 17 c.accountNumber :=
    hpass.1.2.2.1.mono fun d hd => List.mem_of_mem_take hd
  simp only [afterEntries, entryRecords_concat, unlines_append,
    entryRecord, entryDetail, padRight_of_padTruncate hacct hplain,
    padRight_of_padTruncate hind hpass.1.2.2.2.1,
    padRight_of_padTruncate hrcv hpass.1.2.2.2.2, List.append_assoc]

/-- The counters after one more entry: the sum of the routing numbers
does not wrap. -/
theorem afterEntries_concat {pre : List NachaCredit}
    (hpre : Admits EntryPasses pre) (hc : EntryPasses pre c) :
    { out := (afterEntries p out (pre ++ [c])).out
      entryHash := (hashSum pre + routing8 c) % 2 ^ 64
      totalCredit := amountSum pre + c.amountCents.toNat
      seq := pre.length + 1 } = afterEntries p out (pre ++ [c]) := by
  obtain ⟨hfits, hlen⟩ := (admits_entryPasses_iff pre).1 hpre
  have hhash := hashSum_le hfits
  have hrouting := hc.1.routing8_lt
  rw [Nat.mod_eq_of_lt (by omega)]
  simp only [afterEntries, hashSum_concat, amountSum_concat,
    List.length_append, List.length_singleton]

/-- A turn succeeds when the entry fits its columns. -/
theorem pushEntry_ok_iff (husd : batch.currency = .USD) (hp : ValidProfile p)
    (out : Text) (pre : List NachaCredit) (c : NachaCredit) (acc' : Entries)
    (hpre : Admits EntryPasses pre) :
    pushEntry batch p (afterEntries p out pre) c = .ok acc' ↔
      EntryPasses pre c ∧ acc' = afterEntries p out (pre ++ [c]) := by
  obtain ⟨hfits, hlen⟩ := (admits_entryPasses_iff pre).1 hpre
  have htotal := amountSum_le hfits
  by_cases hok : ValidCredit c ∧ c.amountCents.toNat < 2 ^ 63
  · obtain ⟨hc, hamount⟩ := hok
    rw [pushEntry_eq husd hp hc hamount hlen (show amountSum pre ≤ 10 ^ 17 by omega)]
    constructor
    · intro h
      obtain ⟨t, ht, h⟩ := bind_eq_ok.1 h
      obtain ⟨u, hu, h⟩ := bind_eq_ok.1 h
      obtain ⟨v, hv, h⟩ := bind_eq_ok.1 h
      obtain ⟨out', hout, h⟩ := bind_eq_ok.1 h
      obtain ⟨hpass, rfl⟩ := (push_entryDetail out hp hc ht hu hv).1 hout
      exact ⟨hpass, (Except.ok.inj h).symm.trans (afterEntries_concat hpre hpass)⟩
    · rintro ⟨hpass, rfl⟩
      obtain ⟨t, ht⟩ := exists_padTruncate (cutsClean_of_le hc.2.2.1)
      obtain ⟨u, hu⟩ :=
        exists_padTruncate (CutsClean.of_plain hpass.1.2.2.2.1)
      obtain ⟨v, hv⟩ :=
        exists_padTruncate (CutsClean.of_plain hpass.1.2.2.2.2)
      have hpush := (push_entryDetail out hp hc ht hu hv).2 ⟨hpass, rfl⟩
      rw [ht, hu, hv]
      simp only [ok_bind]
      refine bind_eq_ok.2 ⟨_, hpush, ?_⟩
      exact congrArg Except.ok (afterEntries_concat hpre hpass)
  · obtain ⟨e, he⟩ := pushEntry_errs p (afterEntries p out pre) husd hlen hok
    rw [he]
    constructor
    · intro h
      cases h
    · rintro ⟨⟨hc, -⟩, -⟩
      exact absurd ⟨hc.1, by have := hc.2.1; omega⟩ hok

-- ==== the controls

/-- The lines of nines after `n` entries. -/
def fillerCount (n : Nat) : Nat := (10 - (n + 4) % 10) % 10

def batchControlRecord (p : NachaProfile) (cs : List NachaCredit) : Text :=
  (batchControl cs.length (hashSum cs % 10 ^ 10) (amountSum cs)
    (p.companyId.take 10) (p.odfiRouting.take 8)).flatten

def fileControlRecord (cs : List NachaCredit) : Text :=
  (fileControl ((cs.length + 4 + 9) / 10) cs.length (hashSum cs % 10 ^ 10)
    (amountSum cs)).flatten

theorem hash_lt (n : Nat) : n % 10 ^ 10 < 10 ^ 10 :=
  Nat.mod_lt _ (by decide)

theorem fills_batchControl {hash total : Nat} {coId : Text}
    (hp : ValidProfile p) (hid : padTruncate p.companyId 10 = .ok coId)
    (hplain : Plain 10 p.companyId) (hhash : hash < 10 ^ 10) :
    List.Forall₂ Fills batchControlWidths
        (batchControl n hash total coId (p.odfiRouting.take 8)) ↔
      n < 10 ^ 6 ∧ total < 10 ^ 12 := by
  have hodfi : Fills 8 (padLeft ' ' 8 (p.odfiRouting.take 8)) := by
    rw [padLeft_of_length_le (le_of_eq hp.1.fills_take.1.symm)]
    exact hp.1.fills_take
  simp +decide only [batchControl, batchControlWidths, List.forall₂_cons,
    fills_zeroPad, fills_padTruncate hid, hplain, hhash, hodfi, true_and,
    and_true]

theorem wide_batchControl (n hash total : Nat) (coId odfiShort : Text) :
    List.Forall₂ (fun w f => w ≤ f.length) batchControlWidths
      (batchControl n hash total coId odfiShort) := by
  simp +decide only [batchControl, batchControlWidths, List.forall₂_cons,
    le_length_padLeft, le_length_padRight, le_length_zeroPad, and_self]

theorem fills_fileControl {blocks hash total : Nat}
    (hblocks : blocks < 10 ^ 6) (hn : n < 10 ^ 6) (hhash : hash < 10 ^ 10)
    (htotal : total < 10 ^ 12) :
    List.Forall₂ Fills fileControlWidths (fileControl blocks n hash total) := by
  have hn8 : n < 10 ^ 8 := by omega
  simp +decide only [fileControl, fileControlWidths, List.forall₂_cons,
    fills_zeroPad, hblocks, hn8, hhash, htotal, and_self]

theorem wide_fileControl (blocks n hash total : Nat) :
    List.Forall₂ (fun w f => w ≤ f.length) fileControlWidths
      (fileControl blocks n hash total) := by
  simp +decide only [fileControl, fileControlWidths, List.forall₂_cons,
    le_length_zeroPad, and_self]

/-- The lines of nines always pass. -/
theorem push_filler (k : Nat) : ∀ out : Text,
    (List.replicate k filler).foldlM push94 out
      = .ok (out ++ unlines (List.replicate k filler)) := by
  have hfiller : ∀ out, push94 out filler = .ok (out ++ unlines [filler]) := by
    intro out
    rw [push94, if_neg (by decide)]
    simp
  induction k with
  | zero =>
    intro out
    simp [pure, Except.pure]
  | succ k ih =>
    intro out
    rw [List.replicate_succ, List.foldlM_cons, hfiller, ok_bind, ih]
    simp

/-- What follows the entries. -/
def closingRecords (p : NachaProfile) (cs : List NachaCredit) : List Text :=
  batchControlRecord p cs :: fileControlRecord cs ::
    List.replicate (fillerCount cs.length) filler

theorem pushControls_eq (hp : ValidProfile p) (hplain : Plain 10 p.companyId)
    (hlen : cs.length < 10 ^ 7) (out : Text) :
    pushControls p (afterEntries p out cs) = (do
      let out ← push94 (afterEntries p out cs).out (batchControlRecord p cs)
      let out ← push94 out (fileControlRecord cs)
      .ok (out ++ unlines (List.replicate (fillerCount cs.length) filler))) := by
  obtain ⟨coId, hid, hpad⟩ := padTruncate_of_plain hplain
  have hrecords : addU32 cs.length 4 = .ok (cs.length + 4) :=
    if_pos (by omega)
  simp only [pushControls, hid, ok_bind, odfiShort_eq hp, push_filler,
    afterEntries, hrecords, batchControlRecord, fileControlRecord,
    batchControl, hpad, fillerCount]

theorem pushControls_ne_panic (hp : ValidProfile p)
    (hplain : Plain 10 p.companyId) (hlen : cs.length < 10 ^ 7) (out : Text) :
    pushControls p (afterEntries p out cs) ≠ .error .panic := by
  rw [pushControls_eq hp hplain hlen]
  intro h
  rcases bind_eq_error.1 h with h | ⟨t, -, h⟩
  · exact push94_ne_panic _ _ h
  · rcases bind_eq_error.1 h with h | ⟨u, -, h⟩
    · exact push94_ne_panic _ _ h
    · cases h

theorem pushControls_ok_iff (hp : ValidProfile p)
    (hplain : Plain 10 p.companyId) (hlen : cs.length < 10 ^ 7) (out : Text) :
    pushControls p (afterEntries p out cs) = .ok out' ↔
      (cs.length < 10 ^ 6 ∧ amountSum cs < 10 ^ 12) ∧
        out' = out ++ unlines (entryRecords p cs ++ closingRecords p cs) := by
  obtain ⟨coId, hid, hpad⟩ := padTruncate_of_plain hplain
  have hbatch : ∀ o o', push94 o (batchControlRecord p cs) = .ok o' ↔
      (cs.length < 10 ^ 6 ∧ amountSum cs < 10 ^ 12) ∧
        o' = o ++ unlines [batchControlRecord p cs] := by
    intro o o'
    have heq : batchControlRecord p cs =
        (batchControl cs.length (hashSum cs % 10 ^ 10) (amountSum cs) coId
          (p.odfiRouting.take 8)).flatten := by
      simp only [batchControlRecord, batchControl, hpad]
    rw [heq, push94_fields batchControlWidths rfl (wide_batchControl ..),
      fills_batchControl hp hid hplain (hash_lt _)]
  have hfile : (cs.length < 10 ^ 6 ∧ amountSum cs < 10 ^ 12) → ∀ o o',
      push94 o (fileControlRecord cs) = .ok o' ↔ o' = o ++ unlines [fileControlRecord cs] := by
    rintro ⟨hn, htotal⟩ o o'
    rw [fileControlRecord, push94_fields fileControlWidths rfl (wide_fileControl ..)]
    exact and_iff_right (fills_fileControl (by omega) hn (hash_lt _) htotal)
  rw [pushControls_eq hp hplain hlen]
  constructor
  · intro h
    obtain ⟨o, ho, h⟩ := bind_eq_ok.1 h
    obtain ⟨hbounds, rfl⟩ := (hbatch _ _).1 ho
    obtain ⟨o', ho', h⟩ := bind_eq_ok.1 h
    rw [(hfile hbounds _ _).1 ho'] at h
    refine ⟨hbounds, ?_⟩
    rw [← Except.ok.inj h]
    simp [afterEntries, closingRecords]
  · rintro ⟨hbounds, rfl⟩
    refine bind_eq_ok.2 ⟨_, (hbatch _ _).2 ⟨hbounds, rfl⟩, ?_⟩
    refine bind_eq_ok.2 ⟨_, (hfile hbounds _ _).2 rfl, ?_⟩
    simp [afterEntries, closingRecords]

end OpenStandards.OpSettlement

/-
What op-batch's NACHA decoder loses.

A record is read column by column (`recOf_follows`). What has been read is
kept as batches, and `Reader.recs` puts them back into records. A record is
added at the end, except that an addenda replaces one the last entry has,
and is dropped where there is no entry (`recs_apply`); a batch still open at
the end is dropped. `nachaLosesNothing_iff` is the exact condition.
-/
import OpenStandards.OpBatch.Nacha

namespace OpenStandards.OpBatch

open Lib OpCore Text

-- ==== records

/-- A record as the decoder of its kind reads it. -/
inductive Rec where
  | fileHeader (h : FileHeader)
  | batchHeader (h : BatchHeader)
  | entry (e : EntryDetail)
  | addenda (a : Addenda)
  | batchControl
deriving DecidableEq

def recOf (line : Text) : Except (Fault Error) Rec :=
  match line.head? with
  | some '1' => do .ok (.fileHeader (← decodeFileHeader line))
  | some '5' => do .ok (.batchHeader (← decodeBatchHeader line))
  | some '6' => do .ok (.entry (← decodeEntry line))
  | some '7' => do .ok (.addenda (← decodeAddenda line))
  | some '8' => .ok .batchControl
  | _ => .error (invalid "no record of a batch")

/-- A number below `bound` in decimal. -/
def numeric (bound : Nat) (s : Text) : Bool := (parseUnsigned bound s).isSome

/-- One of the five entry classes. -/
def secCode (s : Text) : Bool :=
  s ∈ [SecCode.ppd, .ccd, .web, .tel, .ctx].map SecCode.asStr

/-- The columns of a record in the order in which they are read, by its
kind. -/
def columnsOf : Char → List Column
  | '1' => [⟨3, 13, fun _ => true⟩, ⟨13, 23, fun _ => true⟩,
      ⟨23, 29, fun _ => true⟩, ⟨29, 33, fun _ => true⟩,
      ⟨40, 63, fun _ => true⟩, ⟨63, 86, fun _ => true⟩,
      ⟨86, 94, fun _ => true⟩]
  | '5' => [⟨1, 4, numeric (2 ^ 16)⟩, ⟨50, 53, secCode⟩,
      ⟨4, 20, fun _ => true⟩, ⟨20, 40, fun _ => true⟩,
      ⟨40, 50, fun _ => true⟩, ⟨53, 63, fun _ => true⟩,
      ⟨63, 69, fun _ => true⟩, ⟨69, 75, fun _ => true⟩,
      ⟨79, 87, fun _ => true⟩, ⟨87, 94, numeric (2 ^ 32)⟩]
  | '6' => [⟨1, 3, numeric (2 ^ 8)⟩, ⟨29, 39, numeric (2 ^ 64)⟩,
      ⟨3, 12, fun _ => true⟩, ⟨12, 29, fun _ => true⟩,
      ⟨39, 54, fun _ => true⟩, ⟨54, 76, fun _ => true⟩,
      ⟨76, 78, fun _ => true⟩, ⟨79, 94, fun _ => true⟩]
  | '7' => [⟨83, 87, numeric (2 ^ 16)⟩, ⟨87, 94, numeric (2 ^ 32)⟩,
      ⟨1, 3, fun _ => true⟩, ⟨3, 83, fun _ => true⟩]
  | _ => []

-- ------------------------------------------------------ reading the columns

section

variable {α : Type} {cols : List Column} {line : Text}

theorem follows_field {lo hi bound : Nat} {field : String} (hle : lo ≤ hi)
    {f : Nat → Except (Fault Error) α} (h : ∀ n, Follows cols line (f n)) :
    Follows (⟨lo, hi, numeric bound⟩ :: cols) line
      (sliceText lo hi line >>= fun t => parseField bound field t >>= f) := by
  refine .checked hle (f := fun _ => f) (fun t ht => ?_) (fun t ht => ?_)
    fun _ n => h n
  · obtain ⟨n, hn⟩ := Option.isSome_iff_exists.1 ht
    exact ⟨n, by rw [parseField, hn]⟩
  · have hnone : parseUnsigned bound t = none :=
      Option.not_isSome_iff_eq_none.1 (Bool.eq_false_iff.1 ht)
    exact ⟨.fieldRule field "not numeric", by rw [parseField, hnone]; rfl⟩

theorem follows_sec {lo hi : Nat} (hle : lo ≤ hi)
    {f : SecCode → Except (Fault Error) α} (h : ∀ n, Follows cols line (f n)) :
    Follows (⟨lo, hi, secCode⟩ :: cols) line
      (sliceText lo hi line >>= fun t => SecCode.fromStr t >>= f) := by
  refine .checked hle (f := fun _ => f) (fun t ht => ?_) (fun t ht => ?_)
    fun _ n => h n
  · simp only [secCode, List.map_cons, List.map_nil, List.mem_cons,
      List.not_mem_nil, or_false, decide_eq_true_eq] at ht
    obtain rfl | rfl | rfl | rfl | rfl := ht
    · exact ⟨.ppd, rfl⟩
    · exact ⟨.ccd, rfl⟩
    · exact ⟨.web, rfl⟩
    · exact ⟨.tel, rfl⟩
    · exact ⟨.ctx, rfl⟩
  · simp only [secCode, List.map_cons, List.map_nil, List.mem_cons,
      List.not_mem_nil, or_false, decide_eq_false_iff_not, not_or] at ht
    obtain ⟨h1, h2, h3, h4, h5⟩ := ht
    refine ⟨.fieldRule "sec" ("unknown SEC code `" ++ String.ofList t ++ "`"),
      ?_⟩
    unfold SecCode.fromStr
    exact (if_neg h1).trans ((if_neg h2).trans ((if_neg h3).trans
      ((if_neg h4).trans (if_neg h5))))

theorem follows_byte {i : Nat} (hi : i < line.byteLen)
    {f : Char → Except (Fault Error) α} (h : ∀ c, Follows cols line (f c)) :
    Follows cols line (byteChar i line >>= f) := by
  have hlen : (line.flatMap String.utf8EncodeChar).length = line.byteLen := by
    rw [List.length_flatMap, byteLen]
    simp only [String.length_utf8EncodeChar]
  unfold byteChar
  rw [List.getElem?_eq_getElem (hlen ▸ hi)]
  exact h _

end

variable {line input : Text} {c : Char} {r : Reader} {opened : Bool}
    {rec : Rec} {ks : List Char} {rs : List Rec} {ls : List Text}

theorem recOf_follows (hlen : line.byteLen = recordLen)
    (hhead : line.head? = some c) (hc : c ∈ ['1', '5', '6', '7', '8']) :
    Follows (columnsOf c) line (recOf line) := by
  have hbyte : ∀ i, i < 94 → i < line.byteLen := fun i hi => hlen ▸ hi
  simp only [List.mem_cons, List.not_mem_nil, or_false] at hc
  unfold recOf
  rw [hhead]
  obtain rfl | rfl | rfl | rfl | rfl := hc
  · refine .map ?_ _
    unfold decodeFileHeader
    refine .plain (by decide) fun _ => .plain (by decide) fun _ =>
      .plain (by decide) fun _ => .plain (by decide) fun _ =>
      follows_byte (hbyte 33 (by decide)) fun _ =>
      .plain (by decide) fun _ => .plain (by decide) fun _ =>
      .plain (by decide) fun _ => .done _
  · refine .map ?_ _
    unfold decodeBatchHeader
    refine follows_field (by decide) fun _ => follows_sec (by decide) fun _ =>
      follows_byte (hbyte 78 (by decide)) fun _ =>
      .plain (by decide) fun _ => .plain (by decide) fun _ =>
      .plain (by decide) fun _ => .plain (by decide) fun _ =>
      .plain (by decide) fun _ => .plain (by decide) fun _ =>
      .plain (by decide) fun _ => follows_field (by decide) fun _ => .done _
  · refine .map ?_ _
    unfold decodeEntry
    refine follows_field (by decide) fun _ => follows_field (by decide) fun _ =>
      .plain (by decide) fun _ => .plain (by decide) fun _ =>
      .plain (by decide) fun _ => .plain (by decide) fun _ =>
      .plain (by decide) fun _ =>
      follows_byte (hbyte 78 (by decide)) fun _ =>
      .plain (by decide) fun _ => .done _
  · refine .map ?_ _
    unfold decodeAddenda
    refine follows_field (by decide) fun _ => follows_field (by decide) fun _ =>
      .plain (by decide) fun _ => .plain (by decide) fun _ => .done _
  · exact .done _

-- ==== one record

/-- A record where its kind may stand: a batch header outside a batch, the
other records of a batch inside one. -/
def InPlace (opened : Bool) (c : Char) : Prop :=
  (c = '5' → opened = false) ∧ (c ∈ ['6', '7', '8'] → opened = true)

/-- Whether a batch is open behind a record. -/
def opens (opened : Bool) (c : Char) : Bool :=
  if c = '5' then true else if c = '8' then false else opened

def Reader.apply (r : Reader) : Rec → Reader
  | .fileHeader h => { r with header := some h }
  | .batchHeader h => { r with curBatch := some ⟨h, [], []⟩ }
  | .entry e =>
    { r with curBatch := r.curBatch.map fun b =>
      { b with entries := b.entries ++ [e], addenda := b.addenda ++ [none] } }
  | .addenda a =>
    { r with curBatch := r.curBatch.map fun b => b.setLastAddenda a }
  | .batchControl =>
    { r with batches := r.batches ++ r.curBatch.toList, curBatch := none }

/-- The first byte of a line is its first character, or in the midst of
it. -/
theorem sliceText_kind (hhead : line.head? = some c) :
    sliceText 0 1 line = if c.utf8Size = 1 then
        (.ok [c] : Except (Fault Error) Text)
      else .error .panic := by
  cases line with
  | nil => cases hhead
  | cons d rest =>
    obtain rfl := Option.some.inj hhead
    have hzero : ∀ s : Text, takeBytes 0 s = some [] := by
      intro s
      cases s with
      | nil => rfl
      | cons b s => rfl
    have hpos := Char.utf8Size_pos d
    unfold sliceText
    rw [hzero, takeBytes]
    by_cases hone : d.utf8Size = 1
    · rw [if_pos hone, if_neg (by decide), if_pos (by omega), hone, hzero]
      rfl
    · rw [if_neg hone, if_neg (by decide), if_neg (by omega)]

theorem sliceText_ascii (hhead : line.head? = some c) (hone : c.utf8Size = 1) :
    sliceText 0 1 line = (.ok [c] : Except (Fault Error) Text) := by
  rw [sliceText_kind hhead, if_pos hone]

theorem current_of_open (h : r.curBatch.isSome = true) (msg : String) :
    ∃ b, r.curBatch = some b ∧ r.current msg = .ok b := by
  obtain ⟨b, hb⟩ := Option.isSome_iff_exists.1 h
  exact ⟨b, hb, by rw [Reader.current, hb]⟩

theorem readRecord_inPlace (hhead : line.head? = some c) (hc : c ∈ ['1', '5', '6', '7', '8'])
    (hplace : InPlace r.curBatch.isSome c) :
    readRecord r line = recOf line >>= fun rec => .ok (some (r.apply rec)) := by
  simp only [List.mem_cons, List.not_mem_nil, or_false] at hc
  unfold readRecord recOf
  rw [hhead]
  obtain rfl | rfl | rfl | rfl | rfl := hc
  · rw [sliceText_ascii hhead rfl, ok_bind, if_pos rfl]
    simp only [bind_assoc, ok_bind]
    rfl
  · rw [sliceText_ascii hhead rfl, ok_bind, if_neg (by decide), if_pos rfl]
    have hclosed : ¬ r.curBatch.isSome = true :=
      Bool.eq_false_iff.1 (hplace.1 rfl)
    simp only [bind_assoc, ok_bind, refuse, if_neg hclosed]
    rfl
  · rw [sliceText_ascii hhead rfl, ok_bind, if_neg (by decide), if_neg (by decide), if_pos rfl]
    obtain ⟨b, hb, hcur⟩ := current_of_open (hplace.2 (by decide)) "entry outside a batch"
    simp only [hcur, bind_assoc, ok_bind, Reader.apply, hb, Option.map_some]
  · rw [sliceText_ascii hhead rfl, ok_bind, if_neg (by decide),
      if_neg (by decide), if_neg (by decide), if_pos rfl]
    obtain ⟨b, hb, hcur⟩ := current_of_open (hplace.2 (by decide)) "addenda outside a batch"
    simp only [hcur, bind_assoc, ok_bind, Reader.apply, hb, Option.map_some]
  · rw [sliceText_ascii hhead rfl, ok_bind, if_neg (by decide),
      if_neg (by decide), if_neg (by decide), if_neg (by decide), if_pos rfl]
    obtain ⟨b, hb, hcur⟩ := current_of_open (hplace.2 (by decide))
      "batch control without batch header"
    simp only [hcur, ok_bind, Reader.apply, hb, Option.toList_some]

theorem current_of_closed (h : r.curBatch.isSome ≠ true) (msg : String) :
    r.current msg = .error (invalid msg) := by
  rw [Reader.current, Option.not_isSome_iff_eq_none.1 h]

theorem readRecord_out (hhead : line.head? = some c) (hone : c.utf8Size = 1)
    (hplace : ¬ InPlace r.curBatch.isSome c) :
    ∃ e, readRecord r line = .error (.err e) := by
  unfold readRecord
  rw [sliceText_ascii hhead hone, ok_bind]
  unfold InPlace at hplace
  by_cases hfive : c = '5'
  · subst hfive
    have hopen : r.curBatch.isSome = true := by
      by_contra hclosed
      exact hplace ⟨fun _ => Bool.eq_false_iff.2 hclosed, fun h => by
        simp at h⟩
    rw [if_neg (by decide), if_pos rfl, refuse, if_pos hopen]
    exact ⟨_, rfl⟩
  · have hkind : c ∈ ['6', '7', '8'] ∧ r.curBatch.isSome ≠ true := by
      by_contra hnot
      refine hplace ⟨fun h => absurd h hfive, fun h => ?_⟩
      by_contra hclosed
      exact hnot ⟨h, hclosed⟩
    obtain ⟨hkind, hclosed⟩ := hkind
    simp only [List.mem_cons, List.not_mem_nil, or_false] at hkind
    obtain rfl | rfl | rfl := hkind
    · rw [if_neg (by decide), if_neg (by decide), if_pos rfl, current_of_closed hclosed]
      exact ⟨_, rfl⟩
    · rw [if_neg (by decide), if_neg (by decide), if_neg (by decide),
        if_pos rfl, current_of_closed hclosed]
      exact ⟨_, rfl⟩
    · rw [if_neg (by decide), if_neg (by decide), if_neg (by decide),
        if_neg (by decide), if_pos rfl, current_of_closed hclosed]
      exact ⟨_, rfl⟩

/-- The file control ends the loop. -/
theorem readRecord_control (hhead : line.head? = some '9') : readRecord r line = .ok none := by
  unfold readRecord
  rw [sliceText_ascii hhead rfl, ok_bind, if_neg (by decide),
    if_neg (by decide), if_neg (by decide), if_neg (by decide),
    if_neg (by decide), if_pos rfl]

theorem readRecord_other (hhead : line.head? = some c) (hone : c.utf8Size = 1)
    (hc : c ∉ ['1', '5', '6', '7', '8', '9']) :
    ∃ e, readRecord r line = .error (.err e) := by
  have hne : ∀ d ∈ ['1', '5', '6', '7', '8', '9'], ¬ [c] = [d] := by
    intro d hd heq
    obtain rfl := List.head_eq_of_cons_eq heq
    exact hc hd
  unfold readRecord
  rw [sliceText_ascii hhead hone, ok_bind, if_neg (hne '1' (by decide)),
    if_neg (hne '5' (by decide)), if_neg (hne '6' (by decide)),
    if_neg (hne '7' (by decide)), if_neg (hne '8' (by decide)),
    if_neg (hne '9' (by decide))]
  exact ⟨_, rfl⟩

/-- A record that is read in this state: it has the right length, a kind
that may stand here, and in its columns what should be there. -/
def Accepted (opened : Bool) (line : Text) (c : Char) : Prop :=
  line.byteLen = recordLen ∧ line.head? = some c
    ∧ c ∈ ['1', '5', '6', '7', '8'] ∧ InPlace opened c
    ∧ ∀ col ∈ columnsOf c, col.Good line

/-- A record that is cut inside a character in this state: its first
character takes more than one byte, or its kind may stand here and the
first of its columns without what should be there is cut. -/
def CutsAt (opened : Bool) (line : Text) : Prop :=
  line.byteLen = recordLen ∧ ∃ c, line.head? = some c
    ∧ (c.utf8Size ≠ 1 ∨ InPlace opened c ∧ CutsFirst (columnsOf c) line)

theorem kind_of_cutsFirst (h : CutsFirst (columnsOf c) line) :
    c ∈ ['1', '5', '6', '7', '8'] := by
  by_contra hc
  refine not_cutsFirst_nil line ?_
  have hnil : columnsOf c = [] := by
    unfold columnsOf
    split
    · simp at hc
    · simp at hc
    · simp at hc
    · simp at hc
    · rfl
  rwa [hnil] at h

theorem utf8Size_kind (h : c ∈ ['1', '5', '6', '7', '8']) : c.utf8Size = 1 := by
  simp only [List.mem_cons, List.not_mem_nil, or_false] at h
  obtain rfl | rfl | rfl | rfl | rfl := h
  all_goals rfl

theorem head?_of_byteLen (hlen : line.byteLen = recordLen) : ∃ c, line.head? = some c := by
  cases line with
  | nil => cases hlen
  | cons c rest => exact ⟨c, rfl⟩

theorem Accepted.read (h : Accepted r.curBatch.isSome line c) :
    ∃ rec, recOf line = .ok rec ∧ readRecord r line = .ok (some (r.apply rec)) := by
  obtain ⟨hlen, hhead, hc, hplace, hgood⟩ := h
  obtain ⟨rec, hrec⟩ := (recOf_follows hlen hhead hc).answers.2 hgood
  exact ⟨rec, hrec, by rw [readRecord_inPlace hhead hc hplace, hrec]; rfl⟩

theorem Accepted.not_cutsAt (h : Accepted opened line c) : ¬ CutsAt opened line := by
  obtain ⟨hlen, hhead, hc, hplace, hgood⟩ := h
  rintro ⟨-, d, hd, hcut⟩
  obtain rfl := Option.some.inj (hhead.symm.trans hd)
  have hfirst := (hcut.resolve_left (not_not.2 (utf8Size_kind hc))).2
  have hfollows := recOf_follows hlen hhead hc
  obtain ⟨rec, hrec⟩ := hfollows.answers.2 hgood
  cases hrec.symm.trans (hfollows.panics.2 hfirst)

theorem not_cutsAt_control (hhead : line.head? = some '9') : ¬ CutsAt opened line := by
  rintro ⟨-, d, hd, hcut⟩
  obtain rfl := Option.some.inj (hhead.symm.trans hd)
  obtain hwide | ⟨-, hfirst⟩ := hcut
  · exact hwide rfl
  · exact not_cutsFirst_nil line hfirst

/-- One record that is accepted, or ends the loop, or is cut, or is
refused. -/
theorem readRecord_cases (r : Reader) (hlen : line.byteLen = recordLen) :
    (∃ c, Accepted r.curBatch.isSome line c)
      ∨ (line.head? = some '9' ∧ readRecord r line = .ok none)
      ∨ (CutsAt r.curBatch.isSome line ∧ readRecord r line = .error .panic)
      ∨ (¬ CutsAt r.curBatch.isSome line ∧ ∃ e, readRecord r line = .error (.err e)) := by
  obtain ⟨c, hhead⟩ := head?_of_byteLen hlen
  by_cases hone : c.utf8Size = 1
  · have hcut : CutsAt r.curBatch.isSome line
        ↔ InPlace r.curBatch.isSome c ∧ CutsFirst (columnsOf c) line := by
      constructor
      · rintro ⟨-, d, hd, h⟩
        obtain rfl := Option.some.inj (hhead.symm.trans hd)
        exact h.resolve_left (not_not.2 hone)
      · exact fun h => ⟨hlen, c, hhead, .inr h⟩
    by_cases hc : c ∈ ['1', '5', '6', '7', '8']
    · by_cases hplace : InPlace r.curBatch.isSome c
      · have hfollows := recOf_follows hlen hhead hc
        have hread := readRecord_inPlace hhead hc hplace
        cases hrec : recOf line with
        | ok rec =>
          exact .inl ⟨c, hlen, hhead, hc, hplace, hfollows.answers.1 ⟨rec, hrec⟩⟩
        | error e =>
          rw [hrec, error_bind] at hread
          cases e with
          | panic =>
            exact .inr (.inr (.inl ⟨hcut.2 ⟨hplace, hfollows.panics.1 hrec⟩, hread⟩))
          | err e =>
            refine .inr (.inr (.inr ⟨fun h => ?_, e, hread⟩))
            cases hrec.symm.trans (hfollows.panics.2 (hcut.1 h).2)
      · exact .inr (.inr (.inr ⟨fun h => hplace (hcut.1 h).1,
          readRecord_out hhead hone hplace⟩))
    · have hnocut : ¬ CutsAt r.curBatch.isSome line := fun h =>
        hc (kind_of_cutsFirst (hcut.1 h).2)
      by_cases hnine : c = '9'
      · subst hnine
        exact .inr (.inl ⟨hhead, readRecord_control hhead⟩)
      · refine .inr (.inr (.inr ⟨hnocut, readRecord_other hhead hone ?_⟩))
        simp only [List.mem_cons, List.not_mem_nil, or_false] at hc ⊢
        tauto
  · refine .inr (.inr (.inl ⟨⟨hlen, c, hhead, .inl hone⟩, ?_⟩))
    unfold readRecord
    rw [sliceText_kind hhead, if_neg hone]
    rfl

-- ==== the loop

/-- The lines that are not passed over. -/
def significant (raw : List Text) : List Text :=
  (raw.map (trimEndMatches '\r')).filter fun line =>
    !(line.all (· == '9') && line.byteLen == recordLen) && line != []

/-- The loop over these. -/
def readRecords (r : Reader) : List Text → Except (Fault Error) Reader
  | [] => .ok r
  | line :: rest =>
    if line.byteLen ≠ recordLen then
      .error (.err (.recordLength recordLen line.byteLen))
    else do
      match ← readRecord r line with
      | some r' => readRecords r' rest
      | none => .ok r

theorem readLines_eq (r : Reader) (raw : List Text) :
    readLines r raw = readRecords r (significant raw) := by
  induction raw generalizing r with
  | nil => rfl
  | cons line raw ih =>
    rw [readLines]
    by_cases hfill : (trimEndMatches '\r' line).all (· == '9') = true
        ∧ (trimEndMatches '\r' line).byteLen = recordLen
    · have hskip : significant (line :: raw) = significant raw := by
        unfold significant
        rw [List.map_cons, List.filter_cons_of_neg]
        simp [hfill.1, hfill.2]
      rw [if_pos hfill, hskip, ih]
    · rw [if_neg hfill]
      by_cases hempty : trimEndMatches '\r' line = []
      · have hskip : significant (line :: raw) = significant raw := by
          unfold significant
          rw [List.map_cons, List.filter_cons_of_neg]
          simp [hempty]
        rw [if_pos hempty, hskip, ih]
      · have hkeep : significant (line :: raw)
            = trimEndMatches '\r' line :: significant raw := by
          unfold significant
          rw [List.map_cons, List.filter_cons_of_pos]
          simp only [bne_iff_ne, ne_eq, hempty, not_false_eq_true,
            Bool.and_eq_true, Bool.not_eq_true', Bool.and_eq_false_iff,
            beq_eq_false_iff_ne, and_true]
          by_contra hnot
          rw [not_or, not_not] at hnot
          exact hfill ⟨Bool.eq_true_of_not_eq_false hnot.1, hnot.2⟩
        rw [if_neg hempty, hkeep, readRecords]
        split
        · rfl
        · cases readRecord r (trimEndMatches '\r' line) with
          | error e => rfl
          | ok o =>
            cases o with
            | none => rfl
            | some r' => exact ih r'

def isControl (line : Text) : Bool :=
  line.head? == some '9' && line.byteLen == recordLen

/-- The records before the file control. -/
def uptoControl (lines : List Text) : List Text :=
  lines.takeWhile fun line => !isControl line

/-- Whether a batch is open behind these records. -/
def openAfter (opened : Bool) (lines : List Text) : Bool :=
  (lines.filterMap List.head?).foldl opens opened

/-- Every one of these records is accepted where it stands. -/
inductive Walks : Bool → List Text → Prop
  | nil {opened : Bool} : Walks opened []
  | cons {opened : Bool} {line : Text} {rest : List Text} {c : Char}
      (h : Accepted opened line c) (hrest : Walks (opens opened c) rest) :
      Walks opened (line :: rest)

theorem openAfter_cons (hhead : line.head? = some c) (opened : Bool) (rest : List Text) :
    openAfter opened (line :: rest) = openAfter (opens opened c) rest := by
  unfold openAfter
  rw [List.filterMap_cons_some hhead, List.foldl_cons]

/-- The first character of a record. -/
def Rec.kind : Rec → Char
  | .fileHeader _ => '1'
  | .batchHeader _ => '5'
  | .entry _ => '6'
  | .addenda _ => '7'
  | .batchControl => '8'

theorem head?_of_recOf (h : recOf line = .ok rec) : line.head? = some rec.kind := by
  unfold recOf at h
  split at h
  · next hhead =>
      obtain ⟨x, -, h⟩ := bind_eq_ok.1 h
      cases h
      exact hhead
  · next hhead =>
      obtain ⟨x, -, h⟩ := bind_eq_ok.1 h
      cases h
      exact hhead
  · next hhead =>
      obtain ⟨x, -, h⟩ := bind_eq_ok.1 h
      cases h
      exact hhead
  · next hhead =>
      obtain ⟨x, -, h⟩ := bind_eq_ok.1 h
      cases h
      exact hhead
  · next hhead =>
      cases h
      exact hhead
  · cases h

theorem isSome_apply (hplace : InPlace r.curBatch.isSome rec.kind) :
    (r.apply rec).curBatch.isSome = opens r.curBatch.isSome rec.kind := by
  cases rec with
  | fileHeader h => rfl
  | batchHeader h => rfl
  | entry e => simp [Reader.apply, Rec.kind, opens]
  | addenda a => simp [Reader.apply, Rec.kind, opens]
  | batchControl => rfl

def ReadsAs (line : Text) (rec : Rec) : Prop := recOf line = .ok rec

theorem readRecords_accepted (h : Accepted r.curBatch.isSome line c) (rest : List Text) :
    ∃ rec, ReadsAs line rec ∧ rec.kind = c
      ∧ (r.apply rec).curBatch.isSome = opens r.curBatch.isSome c
      ∧ readRecords r (line :: rest) = readRecords (r.apply rec) rest := by
  obtain ⟨rec, hrec, hread⟩ := h.read
  obtain ⟨hlen, hhead, -, hplace, -⟩ := h
  have hkind : rec.kind = c :=
    Option.some.inj ((head?_of_recOf hrec).symm.trans hhead)
  refine ⟨rec, hrec, hkind, hkind ▸ isSome_apply (hkind ▸ hplace), ?_⟩
  rw [readRecords, if_neg (not_not.2 hlen), hread]
  rfl

/-- The loop that comes to its end: it has read every record before the
file control. -/
theorem readRecords_ok_iff {r' : Reader} {lines : List Text} :
    readRecords r lines = .ok r'
      ↔ Walks r.curBatch.isSome (uptoControl lines)
        ∧ ∃ recs, List.Forall₂ ReadsAs (uptoControl lines) recs
          ∧ r' = recs.foldl Reader.apply r := by
  induction lines generalizing r with
  | nil =>
    constructor
    · intro h
      exact ⟨.nil, [], .nil, (Except.ok.inj h).symm⟩
    · rintro ⟨-, recs, hrecs, rfl⟩
      cases hrecs
      rfl
  | cons line rest ih =>
    by_cases hcontrol : isControl line = true
    · have hupto : uptoControl (line :: rest) = [] := by
        rw [uptoControl, List.takeWhile_cons_of_neg]
        rw [hcontrol]
        exact Bool.false_ne_true
      rw [isControl, Bool.and_eq_true, beq_iff_eq, beq_iff_eq] at hcontrol
      rw [hupto, readRecords, if_neg (not_not.2 hcontrol.2), readRecord_control hcontrol.1]
      constructor
      · intro h
        exact ⟨.nil, [], .nil, (Except.ok.inj h).symm⟩
      · rintro ⟨-, recs, hrecs, rfl⟩
        cases hrecs
        rfl
    · have hupto : uptoControl (line :: rest) = line :: uptoControl rest := by
        rw [uptoControl, List.takeWhile_cons_of_pos]
        · rfl
        · rw [Bool.eq_false_iff.2 hcontrol]
          rfl
      rw [hupto]
      constructor
      · intro h
        by_cases hlen : line.byteLen = recordLen
        · obtain ⟨c, hc⟩ | ⟨hnine, -⟩ | ⟨-, hpanic⟩ | ⟨-, e, herr⟩ :=
            readRecord_cases r hlen
          · obtain ⟨rec, hrec, hkind, hopen, hread⟩ :=
              readRecords_accepted hc rest
            rw [hread] at h
            obtain ⟨hwalks, recs, hrecs, rfl⟩ := ih.1 h
            rw [hopen] at hwalks
            exact ⟨.cons hc hwalks, rec :: recs, .cons hrec hrecs, rfl⟩
          · exact absurd (by rw [isControl, hnine, hlen]; rfl) hcontrol
          · rw [readRecords, if_neg (not_not.2 hlen), hpanic] at h
            cases h
          · rw [readRecords, if_neg (not_not.2 hlen), herr] at h
            cases h
        · rw [readRecords, if_pos hlen] at h
          cases h
      · rintro ⟨hwalks, recs, hrecs, rfl⟩
        cases hwalks with
        | @cons _ _ _ c hc hwalks =>
          obtain ⟨rec, hrec, -, hopen, hread⟩ :=
            readRecords_accepted hc rest
          cases hrecs with
          | cons hrec' hrecs =>
            cases hrec.symm.trans hrec'
            rw [hread]
            exact ih.2 ⟨hopen ▸ hwalks, _, hrecs, rfl⟩

theorem readRecords_panics_iff {lines : List Text} :
    readRecords r lines = .error .panic
      ↔ ∃ pre line rest, lines = pre ++ line :: rest
        ∧ Walks r.curBatch.isSome pre
        ∧ CutsAt (openAfter r.curBatch.isSome pre) line := by
  induction lines generalizing r with
  | nil =>
    refine iff_of_false nofun ?_
    rintro ⟨pre, line, rest, h, -⟩
    cases pre with
    | nil => cases h
    | cons a pre => cases h
  | cons line rest ih =>
    constructor
    · intro h
      by_cases hlen : line.byteLen = recordLen
      · obtain ⟨c, hc⟩ | ⟨-, hnone⟩ | ⟨hcut, -⟩ | ⟨-, e, herr⟩ :=
          readRecord_cases r hlen
        · obtain ⟨rec, -, -, hopen, hread⟩ := readRecords_accepted hc rest
          rw [hread] at h
          obtain ⟨pre, line', rest', rfl, hwalks, hcut⟩ := ih.1 h
          rw [hopen] at hwalks hcut
          refine ⟨line :: pre, line', rest', rfl, .cons hc hwalks, ?_⟩
          rwa [openAfter_cons hc.2.1]
        · rw [readRecords, if_neg (not_not.2 hlen), hnone] at h
          cases h
        · exact ⟨[], line, rest, rfl, .nil, hcut⟩
        · rw [readRecords, if_neg (not_not.2 hlen), herr] at h
          cases h
      · rw [readRecords, if_pos hlen] at h
        cases h
    · rintro ⟨pre, line', rest', heq, hwalks, hcut⟩
      cases hwalks with
      | nil =>
        obtain ⟨rfl, rfl⟩ := List.cons.inj heq
        have hlen := hcut.1
        rw [readRecords, if_neg (not_not.2 hlen)]
        obtain ⟨c, hc⟩ | ⟨hnine, -⟩ | ⟨-, hpanic⟩ | ⟨hnocut, -⟩ :=
          readRecord_cases r hlen
        · exact absurd hcut hc.not_cutsAt
        · exact absurd hcut (not_cutsAt_control hnine)
        · rw [hpanic]
          rfl
        · exact absurd hcut hnocut
      | @cons _ _ pre c hc hwalks =>
        obtain ⟨rfl, htail⟩ := List.cons.inj heq
        have htail : rest = pre ++ line' :: rest' := htail
        obtain ⟨rec, -, -, hopen, hread⟩ := readRecords_accepted hc rest
        rw [hread]
        refine ih.2 ⟨pre, line', rest', htail, hopen ▸ hwalks, ?_⟩
        rw [openAfter_cons hc.2.1] at hcut
        rwa [hopen]

-- ==== what is kept

/-- The records of a batch, without its control. -/
def NachaBatch.openRecs (b : NachaBatch) : List Rec :=
  .batchHeader b.header :: (b.entries.zip b.addenda).flatMap fun p =>
    .entry p.1 :: p.2.toList.map .addenda

def NachaBatch.recs (b : NachaBatch) : List Rec :=
  b.openRecs ++ [.batchControl]

/-- A record of a batch: any but a file header. -/
def Rec.inBatch (rec : Rec) : Bool := rec.kind != '1'

/-- The kinds of entries, each with at most one addenda. -/
inductive EntryKinds : List Char → Prop
  | nil : EntryKinds []
  | entry {ks : List Char} (h : EntryKinds ks) : EntryKinds ('6' :: ks)
  | withAddenda {ks : List Char} (h : EntryKinds ks) :
      EntryKinds ('6' :: '7' :: ks)

/-- The kinds of batches, each with its control. -/
inductive WellNested : List Char → Prop
  | nil : WellNested []
  | batch {ks rest : List Char} (h : EntryKinds ks) (hrest : WellNested rest) :
      WellNested ('5' :: (ks ++ '8' :: rest))

theorem entries_kinds (items : List (EntryDetail × Option Addenda)) :
    EntryKinds ((items.flatMap fun p =>
      Rec.entry p.1 :: p.2.toList.map .addenda).map Rec.kind) := by
  induction items with
  | nil => exact .nil
  | cons p items ih =>
    obtain ⟨e, slot⟩ := p
    rw [List.flatMap_cons, List.map_append]
    cases slot with
    | none => exact .entry ih
    | some a => exact .withAddenda ih

theorem wellNested_kinds (bs : List NachaBatch) :
    WellNested ((bs.flatMap NachaBatch.recs).map Rec.kind) := by
  induction bs with
  | nil => exact .nil
  | cons b bs ih =>
    have hcons : ((b :: bs).flatMap NachaBatch.recs).map Rec.kind
        = '5' :: (((b.entries.zip b.addenda).flatMap fun p =>
            Rec.entry p.1 :: p.2.toList.map .addenda).map Rec.kind
          ++ '8' :: (bs.flatMap NachaBatch.recs).map Rec.kind) := by
      rw [List.flatMap_cons, List.map_append, NachaBatch.recs,
        NachaBatch.openRecs, List.map_append, List.append_assoc]
      rfl
    rw [hcons]
    exact .batch (entries_kinds _) ih

-- ----------------------------------------------------- putting them together

theorem openRecs_push {b : NachaBatch}
    (hlen : b.entries.length = b.addenda.length) (e : EntryDetail) (slot : Option Addenda) :
    NachaBatch.openRecs { b with entries := b.entries ++ [e]
                                 addenda := b.addenda ++ [slot] }
      = b.openRecs ++ (.entry e :: slot.toList.map .addenda) := by
  simp [NachaBatch.openRecs, List.zip_append hlen]

theorem Rec.of_kind_six (h : rec.kind = '6') : ∃ e, rec = .entry e := by
  cases rec with
  | entry e => exact ⟨e, rfl⟩
  | _ => exact absurd h (by simp [Rec.kind])

theorem foldl_entries (h : EntryKinds ks) :
    ∀ {es : List Rec}, es.map Rec.kind = ks → ∀ {r : Reader} {b : NachaBatch},
      r.curBatch = some b → b.entries.length = b.addenda.length →
      ∃ b', es.foldl Reader.apply r = { r with curBatch := some b' }
        ∧ b'.entries.length = b'.addenda.length
        ∧ b'.openRecs = b.openRecs ++ es := by
  induction h with
  | nil =>
    intro es hes r b hcur hlen
    obtain rfl := List.map_eq_nil_iff.1 hes
    refine ⟨b, ?_, hlen, (List.append_nil _).symm⟩
    rw [← hcur]
    rfl
  | entry h ih =>
    intro es hes r b hcur hlen
    obtain ⟨rec, es, rfl, hrec, htail⟩ := List.map_eq_cons_iff.1 hes
    obtain ⟨e, rfl⟩ := Rec.of_kind_six hrec
    obtain ⟨b', hfold, hlen', hrecs⟩ := ih htail (r := r.apply (.entry e))
      (by rw [Reader.apply, hcur]; rfl) (by simp [hlen])
    refine ⟨b', hfold, hlen', ?_⟩
    rw [hrecs, openRecs_push hlen e none]
    simp
  | withAddenda h ih =>
    intro es hes r b hcur hlen
    obtain ⟨rec, es₁, rfl, hrec, hes₁⟩ := List.map_eq_cons_iff.1 hes
    obtain ⟨rec', es, rfl, hrec', htail⟩ := List.map_eq_cons_iff.1 hes₁
    obtain ⟨e, rfl⟩ := Rec.of_kind_six hrec
    obtain ⟨a, rfl⟩ : ∃ a, rec' = .addenda a := by
      cases rec' with
      | addenda a => exact ⟨a, rfl⟩
      | _ => exact absurd hrec' (by simp [Rec.kind])
    have hcur' : ((r.apply (.entry e)).apply (.addenda a)).curBatch
        = some { b with entries := b.entries ++ [e]
                        addenda := b.addenda ++ [some a] } := by
      simp [Reader.apply, hcur, NachaBatch.setLastAddenda]
    obtain ⟨b', hfold, hlen', hrecs⟩ := ih htail hcur' (by simp [hlen])
    refine ⟨b', hfold, hlen', ?_⟩
    rw [hrecs, openRecs_push hlen e (some a)]
    simp

theorem foldl_wellNested (h : WellNested ks) :
    ∀ {rs : List Rec}, rs.map Rec.kind = ks → ∀ {r : Reader},
      r.curBatch = none →
      (rs.foldl Reader.apply r).curBatch = none
        ∧ (rs.foldl Reader.apply r).batches.flatMap NachaBatch.recs
          = r.batches.flatMap NachaBatch.recs ++ rs := by
  induction h with
  | nil =>
    intro rs hrs r hcur
    obtain rfl := List.map_eq_nil_iff.1 hrs
    exact ⟨hcur, (List.append_nil _).symm⟩
  | batch hentries hrest ih =>
    intro rs hrs r hcur
    obtain ⟨rec, rs₁, rfl, hrec, hrs₁⟩ := List.map_eq_cons_iff.1 hrs
    obtain ⟨es, rs₂, rfl, hes, hrs₂⟩ := List.map_eq_append_iff.1 hrs₁
    obtain ⟨rec', rs, rfl, hrec', htail⟩ := List.map_eq_cons_iff.1 hrs₂
    obtain ⟨h, rfl⟩ : ∃ h, rec = .batchHeader h := by
      cases rec with
      | batchHeader h => exact ⟨h, rfl⟩
      | _ => exact absurd hrec (by simp [Rec.kind])
    obtain rfl : rec' = .batchControl := by
      cases rec' with
      | batchControl => rfl
      | _ => exact absurd hrec' (by simp [Rec.kind])
    obtain ⟨b, hfold, -, hrecs⟩ := foldl_entries hentries hes
      (r := r.apply (.batchHeader h)) (b := ⟨h, [], []⟩) rfl rfl
    obtain ⟨hcur', hbatches⟩ := ih htail (r := { r with
      batches := r.batches ++ [b], curBatch := none }) rfl
    have hrun : (Rec.batchHeader h :: (es ++ .batchControl :: rs)).foldl
        Reader.apply r = rs.foldl Reader.apply { r with
          batches := r.batches ++ [b], curBatch := none } := by
      rw [List.foldl_cons, List.foldl_append, List.foldl_cons, hfold]
      rfl
    refine ⟨hrun ▸ hcur', ?_⟩
    rw [hrun, hbatches, List.flatMap_append, List.flatMap_singleton, NachaBatch.recs, hrecs]
    simp [NachaBatch.openRecs]

/-- File headers in between change no batch. -/
theorem foldl_filter : ∀ {r q : Reader},
    r.batches = q.batches → r.curBatch = q.curBatch →
    (rs.foldl Reader.apply r).batches = ((rs.filter Rec.inBatch).foldl Reader.apply q).batches
      ∧ (rs.foldl Reader.apply r).curBatch
        = ((rs.filter Rec.inBatch).foldl Reader.apply q).curBatch := by
  induction rs with
  | nil => exact fun hb hc => ⟨hb, hc⟩
  | cons rec rs ih =>
    intro r q hb hc
    cases rec with
    | fileHeader h => exact ih (r := r.apply (.fileHeader h)) hb hc
    | batchHeader h => exact ih hb rfl
    | entry e =>
      exact ih hb (by rw [Reader.apply, Reader.apply, hc])
    | addenda a =>
      exact ih hb (by rw [Reader.apply, Reader.apply, hc])
    | batchControl =>
      exact ih (by rw [Reader.apply, Reader.apply, hb, hc]) rfl

theorem foldl_header : ∀ {r : Reader},
    (rs.foldl Reader.apply r).header.isSome
      = (r.header.isSome || decide ('1' ∈ rs.map Rec.kind)) := by
  induction rs with
  | nil => intro r; simp
  | cons rec rs ih =>
    intro r
    rw [List.foldl_cons, ih]
    cases rec with
    | fileHeader h => simp [Reader.apply, Rec.kind]
    | _ => simp [Reader.apply, Rec.kind]

-- ==== the law

def NachaFile.recordLines (input : Text) : List Text :=
  uptoControl (significant (lines input))

/-- The kinds of the records of batches among these. -/
def bodyKinds (ls : List Text) : List Char :=
  (ls.filterMap List.head?).filter (· != '1')

/-- The last batch header has no control behind it. -/
def LeftOpen (input : Text) : Prop :=
  openAfter false (NachaFile.recordLines input) = true

/-- Decoding answers without a panic. What it accepts are all the records
of batches before the file control, in their order: each entry in the
batch behind whose header it stands, with the addenda behind it; and it
accepts no file with a batch left open. -/
structure LosesNothing (input : Text) : Prop where
  answers : NachaFile.decode input ≠ .error .panic
  exact : ∀ f, NachaFile.decode input = .ok f →
    ∃ rs, List.Forall₂ ReadsAs (NachaFile.recordLines input) rs
      ∧ rs.filter Rec.inBatch = f.batches.flatMap NachaBatch.recs
  closed : LeftOpen input → ∀ f, NachaFile.decode input ≠ .ok f

/-- No record that is come to is cut inside a character; and where all the
records before the file control are accepted, a file header among them,
they are batches, each with its control, of entries with at most one
addenda. -/
structure Harmless (input : Text) : Prop where
  whole : ∀ pre line rest,
    significant (lines input) = pre ++ line :: rest → Walks false pre →
    ¬ CutsAt (openAfter false pre) line
  nested : Walks false (NachaFile.recordLines input) →
    '1' ∈ (NachaFile.recordLines input).filterMap List.head? →
    WellNested (bodyKinds (NachaFile.recordLines input))

theorem kinds_of_readsAs (h : List.Forall₂ ReadsAs ls rs) :
    ls.filterMap List.head? = rs.map Rec.kind := by
  induction h with
  | nil => rfl
  | cons hrec h ih =>
    rw [List.filterMap_cons_some (head?_of_recOf hrec), ih, List.map_cons]

theorem bodyKinds_eq (h : List.Forall₂ ReadsAs ls rs) :
    bodyKinds ls = (rs.filter Rec.inBatch).map Rec.kind := by
  rw [bodyKinds, kinds_of_readsAs h, List.filter_map]
  rfl

theorem foldl_opens (h : WellNested (ks.filter (· != '1'))) : ks.foldl opens false = false := by
  have hskip : ∀ opened : Bool,
      ks.foldl opens opened = (ks.filter (· != '1')).foldl opens opened := by
    clear h
    induction ks with
    | nil => intro opened; rfl
    | cons k ks ih =>
      intro opened
      by_cases hk : k = '1'
      · subst hk
        exact ih opened
      · rw [List.filter_cons_of_pos (by simp [hk]), List.foldl_cons, List.foldl_cons, ih]
  have hentries : ∀ {es : List Char}, EntryKinds es → es.foldl opens true = true := by
    intro es hes
    induction hes with
    | nil => rfl
    | entry h ih => exact ih
    | withAddenda h ih => exact ih
  rw [hskip]
  generalize ks.filter (· != '1') = ks' at h
  induction h with
  | nil => rfl
  | batch hes hrest ih =>
    rw [List.foldl_cons, List.foldl_append, List.foldl_cons]
    show List.foldl opens (opens (List.foldl opens true _) '8') _ = false
    rw [hentries hes]
    exact ih

def Reader.start : Reader := { header := none, batches := [], curBatch := none }

theorem decode_ok_iff {f : NachaFile} :
    NachaFile.decode input = .ok f
      ↔ Walks false (NachaFile.recordLines input)
        ∧ ∃ rs, List.Forall₂ ReadsAs (NachaFile.recordLines input) rs
          ∧ (rs.foldl Reader.apply .start).header = some f.header
          ∧ (rs.foldl Reader.apply .start).batches = f.batches := by
  unfold NachaFile.decode
  rw [bind_eq_ok]
  constructor
  · rintro ⟨r, hread, h⟩
    rw [readLines_eq] at hread
    obtain ⟨hwalks, rs, hrs, rfl⟩ := readRecords_ok_iff.1 hread
    refine ⟨hwalks, rs, hrs, ?_⟩
    rw [show (⟨none, [], none⟩ : Reader) = .start from rfl] at h
    cases hheader : (rs.foldl Reader.apply .start).header with
    | none =>
      rw [hheader] at h
      cases h
    | some header =>
      rw [hheader] at h
      cases h
      exact ⟨rfl, rfl⟩
  · rintro ⟨hwalks, rs, hrs, hheader, hbatches⟩
    refine ⟨rs.foldl Reader.apply .start, ?_, ?_⟩
    · rw [readLines_eq]
      exact readRecords_ok_iff.2 ⟨hwalks, rs, hrs, rfl⟩
    · rw [hheader]
      dsimp only
      rw [hbatches]

theorem decode_panics_iff :
    NachaFile.decode input = .error .panic
      ↔ ∃ pre line rest, significant (lines input) = pre ++ line :: rest
        ∧ Walks false pre ∧ CutsAt (openAfter false pre) line := by
  have hread := @readRecords_panics_iff .start (significant (lines input))
  unfold NachaFile.decode
  rw [bind_eq_error, readLines_eq]
  refine Iff.trans ⟨?_, .inl⟩ hread
  rintro (h | ⟨r, -, h⟩)
  · exact h
  · split at h
    · cases h
    · cases h

theorem walks_reads (h : Walks opened ls) : ∃ rs, List.Forall₂ ReadsAs ls rs := by
  induction h with
  | nil => exact ⟨[], .nil⟩
  | cons h hrest ih =>
    obtain ⟨rs, hrs⟩ := ih
    obtain ⟨hlen, hhead, hc, -, hgood⟩ := h
    obtain ⟨rec, hrec⟩ := (recOf_follows hlen hhead hc).answers.2 hgood
    exact ⟨rec :: rs, .cons hrec hrs⟩

theorem decode_of_walks (hwalks : Walks false (NachaFile.recordLines input))
    (hheader : '1' ∈ (NachaFile.recordLines input).filterMap List.head?) :
    ∃ f, NachaFile.decode input = .ok f := by
  obtain ⟨rs, hrs⟩ := walks_reads hwalks
  have hsome := @foldl_header rs .start
  rw [← kinds_of_readsAs hrs, decide_eq_true hheader, Bool.or_true] at hsome
  obtain ⟨header, hh⟩ := Option.isSome_iff_exists.1 hsome
  exact ⟨⟨header, _⟩, decode_ok_iff.2 ⟨hwalks, rs, hrs, hh, rfl⟩⟩

theorem Harmless.accepted (h : Harmless input) {f : NachaFile}
    (hf : NachaFile.decode input = .ok f) :
    ∃ rs, List.Forall₂ ReadsAs (NachaFile.recordLines input) rs
      ∧ WellNested (bodyKinds (NachaFile.recordLines input))
      ∧ (rs.foldl Reader.apply .start).batches = f.batches := by
  obtain ⟨hwalks, rs, hrs, hheader, hbatches⟩ := decode_ok_iff.1 hf
  refine ⟨rs, hrs, h.nested hwalks ?_, hbatches⟩
  have hsome := @foldl_header rs .start
  rw [hheader, ← kinds_of_readsAs hrs] at hsome
  simpa [Reader.start] using hsome.symm

/-- **What the NACHA decoder keeps.** For every text: decoding answers and
loses nothing exactly where no record it comes to is cut inside a
character and, if it comes to the end, the records are batches, each with
its control, of entries with at most one addenda. -/
theorem nachaLosesNothing_iff (input : Text) : LosesNothing input ↔ Harmless input := by
  constructor
  · intro h
    refine ⟨fun pre line rest hsplit hwalks hcut => ?_,
      fun hwalks hheader => ?_⟩
    · exact h.answers (decode_panics_iff.2
        ⟨pre, line, rest, hsplit, hwalks, hcut⟩)
    · obtain ⟨f, hf⟩ := decode_of_walks hwalks hheader
      obtain ⟨rs, hrs, hkept⟩ := h.exact f hf
      rw [bodyKinds_eq hrs, hkept]
      exact wellNested_kinds f.batches
  · intro h
    refine ⟨fun hpanic => ?_, fun f hf => ?_, fun hopen f hf => ?_⟩
    · obtain ⟨pre, line, rest, hsplit, hwalks, hcut⟩ :=
        decode_panics_iff.1 hpanic
      exact h.whole pre line rest hsplit hwalks hcut
    · obtain ⟨rs, hrs, hnested, hbatches⟩ := h.accepted hf
      refine ⟨rs, hrs, ?_⟩
      have hfold := (foldl_wellNested hnested (bodyKinds_eq hrs).symm (r := .start) rfl).2
      have hsame := (@foldl_filter rs .start .start rfl rfl).1
      rw [← hbatches, hsame, hfold]
      rfl
    · obtain ⟨rs, -, hnested, -⟩ := h.accepted hf
      have hclosed := foldl_opens hnested
      exact Bool.false_ne_true (hclosed.symm.trans hopen)

def openBatchFile : Text :=
  ("101 021000021 1234567892601011200A094101".toList ++ spaces 54) ++ '\n' ::
    ("5200".toList ++ spaces 46 ++ "PPD".toList ++ spaces 25 ++ "1021000020000001".toList)

/-- The batch is dropped, and the file is accepted without it. -/
theorem open_batch_dropped : ¬ LosesNothing openBatchFile := by
  intro h
  have hread : NachaFile.decode openBatchFile = .ok
      { header :=
          { immediateDestination := "021000021".toList
            immediateOrigin := "123456789".toList
            fileCreationDate := "260101".toList
            fileCreationTime := "1200".toList
            fileIdModifier := 'A'
            immediateDestinationName := []
            immediateOriginName := []
            referenceCode := [] }
        batches := [] } := by
    decide +kernel
  exact h.closed (show openAfter false _ = true by decide +kernel) _ hread

end OpenStandards.OpBatch

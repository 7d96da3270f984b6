/-
Lines and columns of a text as `str` slices, trims and splits them.

A slice off a character boundary or past the end panics; on one-byte
characters it is the column (`sliceText_of_ascii`). Lines that hold neither
a newline nor a carriage return come back from the text they were joined
to (`lines_unlines`). Trimming a column and padding it gives it back
exactly when only blanks stand behind a leading blank (`padRight_trim_iff`).
-/
import Mathlib.Data.List.DropRight
import OpenStandards.Lib.Cursor
import OpenStandards.Lib.Text

namespace OpenStandards.Lib.Text

-- ==== slices

/-- The slice `&s[lo..hi]`. -/
def sliceText {ε : Type} (lo hi : Nat) (s : Text) : Except (Fault ε) Text :=
  match takeBytes lo s, takeBytes hi s with
  | some front, some whole =>
    if lo ≤ hi then .ok (whole.drop front.length) else .error .panic
  | _, _ => .error .panic

variable {s : Text} {ε : Type} {lo hi w : Nat} {ws : List Nat}
    {fs : List Text}

theorem takeBytes_of_ascii (hs : Ascii s) {n : Nat} (hn : n ≤ s.length) :
    takeBytes n s = some (s.take n) := by
  have hplain : Plain n s := hs.mono fun c hc => List.mem_of_mem_take hc
  have hlen := (byteLen_eq_length_iff s).2 hs
  exact (takeBytes_of_plain hplain (by omega)).2

theorem sliceText_of_ascii (hs : Ascii s) (hlo : lo ≤ hi) (hhi : hi ≤ s.length) :
    sliceText lo hi s = (.ok (column lo (hi - lo) s) : Except (Fault ε) _) := by
  unfold sliceText
  rw [takeBytes_of_ascii hs (Nat.le_trans hlo hhi), takeBytes_of_ascii hs hhi]
  dsimp only
  rw [if_pos hlo, List.length_take, min_eq_left (Nat.le_trans hlo hhi), column, List.drop_take]

-- ==== lines

def stripCr (line : Text) : Text :=
  if line.getLast? = some '\r' then line.dropLast else line

/-- `str::lines`: what ends in a newline, and what is left if anything
is. -/
def lines (s : Text) : List Text :=
  let parts := s.splitOn '\n'
  parts.dropLast.map stripCr ++ (parts.getLast?.filter fun last => last ≠ []).toList

/-- Lines without newlines and carriage returns come back. -/
theorem lines_unlines {rs : List Text} (hn : ∀ r ∈ rs, '\n' ∉ r)
    (hr : ∀ r ∈ rs, '\r' ∉ r) : lines (unlines rs) = rs := by
  have hstrip : rs.map stripCr = rs := by
    have hone : ∀ r ∈ rs, stripCr r = r := by
      intro r hmem
      apply if_neg
      intro hlast
      exact hr r hmem (List.mem_of_getLast? hlast)
    rw [List.map_congr_left hone, List.map_id']
  unfold lines
  rw [splitOn_unlines hn]
  simp [hstrip]

-- ==== trimming

/-- `char::is_whitespace`. -/
def isWhitespace (c : Char) : Bool :=
  (9 ≤ c.toNat && c.toNat ≤ 13) || c.toNat == 0x20 || c.toNat == 0x85 ||
    c.toNat == 0xA0 || c.toNat == 0x1680 ||
    (0x2000 ≤ c.toNat && c.toNat ≤ 0x200A) || c.toNat == 0x2028 ||
    c.toNat == 0x2029 || c.toNat == 0x202F || c.toNat == 0x205F ||
    c.toNat == 0x3000

/-- `str::trim`. -/
def trim (s : Text) : Text :=
  (s.dropWhile isWhitespace).rdropWhile isWhitespace

/-- `str::trim_end_matches` of a character. -/
def trimEndMatches (c : Char) (s : Text) : Text := s.rdropWhile (· == c)

theorem trimEndMatches_of_not_mem {c : Char} (h : c ∉ s) : trimEndMatches c s = s := by
  apply List.rdropWhile_eq_self_iff.2
  intro hne hlast
  have heq : s.getLast hne = c := by simpa using hlast
  exact h (heq ▸ List.getLast_mem hne)

-- ==== printable text

/-- Every character is one of the printable ASCII characters. -/
def PrintableText (s : Text) : Prop :=
  ∀ c ∈ s, 0x20 ≤ c.toNat ∧ c.toNat ≤ 0x7E

instance (s : Text) : Decidable (PrintableText s) :=
  inferInstanceAs (Decidable (∀ c ∈ s, _))

/-- The text is blank, or does not begin with a blank. -/
def Aligned (s : Text) : Prop := s.head? = some ' ' → ∀ c ∈ s, c = ' '

instance (s : Text) : Decidable (Aligned s) :=
  inferInstanceAs (Decidable (_ → ∀ c ∈ s, _))

/-- The text neither begins nor ends with a blank. -/
def Trimmed (s : Text) : Prop :=
  s.head? ≠ some ' ' ∧ s.getLast? ≠ some ' '

instance (s : Text) : Decidable (Trimmed s) :=
  inferInstanceAs (Decidable (_ ∧ _))

namespace PrintableText

variable {s : Text}

theorem mono {t : Text} (hs : PrintableText s) (hts : ∀ c ∈ t, c ∈ s) :
    PrintableText t := fun c hc => hs c (hts c hc)

theorem ascii (hs : PrintableText s) : Ascii s := by
  intro c hc
  have hle : c.val ≤ 127 := by
    show c.toNat ≤ 127
    have := hs c hc
    omega
  simp [Char.utf8Size, hle]

theorem length_eq (hs : PrintableText s) :
    byteLen s = s.length := (byteLen_eq_length_iff s).2 hs.ascii

theorem newline_not_mem (hs : PrintableText s) : '\n' ∉ s := by
  intro hmem
  exact absurd (hs _ hmem).1 (by decide)

theorem cr_not_mem (hs : PrintableText s) : '\r' ∉ s := by
  intro hmem
  exact absurd (hs _ hmem).1 (by decide)

theorem padRight {s : Text} (hs : PrintableText s) (w : Nat) :
    PrintableText (padRight w s) := by
  intro c hc
  rcases List.mem_append.1 hc with hc | hc
  · exact hs c hc
  · rw [List.eq_of_mem_replicate hc]
    decide

theorem isWhitespace_iff (hs : PrintableText s) {c : Char} (hc : c ∈ s) :
    isWhitespace c = true ↔ c = ' ' := by
  have hrange := hs c hc
  constructor
  · intro hws
    simp only [isWhitespace, Bool.or_eq_true, Bool.and_eq_true,
      decide_eq_true_eq, beq_iff_eq] at hws
    apply Char.toNat_inj.1
    show c.toNat = 32
    omega
  · rintro rfl
    decide

end PrintableText

theorem printable_of_isDigit (hs : ∀ c ∈ s, c.isDigit = true) : PrintableText s := by
  intro c hc
  have := digit_val (hs c hc)
  omega

theorem printable_zeroPad (w n : Nat) : PrintableText (zeroPad w n) :=
  printable_of_isDigit fun _ hc => isDigit_zeroPad hc

/-- Leading blanks are dropped exactly when there is one. -/
theorem dropWhile_eq_self_iff (hs : PrintableText s) :
    s.dropWhile isWhitespace = s ↔ s.head? ≠ some ' ' := by
  cases s with
  | nil => simp
  | cons c s =>
    have hws := hs.isWhitespace_iff List.mem_cons_self
    rw [List.head?_cons, ne_eq, Option.some.injEq, ← hws]
    cases hc : isWhitespace c with
    | true =>
      rw [List.dropWhile_cons_of_pos hc]
      simp only [not_true_eq_false, iff_false]
      intro heq
      have hle := (List.dropWhile_sublist (p := isWhitespace) (l := s)).length_le
      rw [heq, List.length_cons] at hle
      omega
    | false =>
      rw [List.dropWhile_cons_of_neg (by rw [hc]; exact Bool.false_ne_true)]
      simp

theorem rdropWhile_append_blanks (hs : PrintableText s) :
    s = s.rdropWhile isWhitespace ++
      List.replicate (s.length - (s.rdropWhile isWhitespace).length) ' ' := by
  have hsplit := List.rdropWhile_append_rtakeWhile (p := isWhitespace) (l := s)
  have hblank : s.rtakeWhile isWhitespace
      = List.replicate (s.rtakeWhile isWhitespace).length ' ' := by
    apply List.eq_replicate_of_mem
    intro c hc
    have hmem : c ∈ s := by
      rw [← hsplit]
      exact List.mem_append_right _ hc
    exact (hs.isWhitespace_iff hmem).1 (List.mem_rtakeWhile_imp hc)
  have hlen := congrArg List.length hsplit
  rw [List.length_append] at hlen
  rw [show s.length - (s.rdropWhile isWhitespace).length
    = (s.rtakeWhile isWhitespace).length by omega, ← hblank, hsplit]

theorem rdropWhile_eq_self_iff (hs : PrintableText s) :
    s.rdropWhile isWhitespace = s ↔ s.getLast? ≠ some ' ' := by
  rw [List.rdropWhile_eq_self_iff]
  constructor
  · intro h hlast
    have hne : s ≠ [] := by
      rintro rfl
      cases hlast
    have heq := List.getLast?_eq_some_getLast hne
    rw [hlast, Option.some.injEq] at heq
    exact h hne (by rw [← heq]; decide)
  · intro h hne hws
    have hlast := (hs.isWhitespace_iff (List.getLast_mem hne)).1 hws
    exact h (by rw [List.getLast?_eq_some_getLast hne, hlast])

theorem trim_subset (s : Text) : ∀ c ∈ trim s, c ∈ s := by
  intro c hc
  have hmem := (List.rdropWhile_prefix isWhitespace _).subset hc
  exact (List.dropWhile_sublist _).subset hmem

theorem length_trim_le (s : Text) : (trim s).length ≤ s.length :=
  Nat.le_trans (List.rdropWhile_prefix isWhitespace _).length_le
    (List.dropWhile_sublist _).length_le

theorem length_trim_iff (hs : PrintableText s) : (trim s).length = s.length ↔ Trimmed s := by
  have hstart := (List.dropWhile_sublist isWhitespace (l := s))
  have hend := List.rdropWhile_prefix isWhitespace (l := s.dropWhile isWhitespace)
  constructor
  · intro hlen
    have hle := hend.length_le
    have hle' := hstart.length_le
    unfold trim at hlen
    have heq := hstart.eq_of_length (by omega)
    rw [heq] at hend hlen
    exact ⟨(dropWhile_eq_self_iff hs).1 heq,
      (rdropWhile_eq_self_iff hs).1 (hend.eq_of_length hlen)⟩
  · rintro ⟨hhead, hlast⟩
    unfold trim
    rw [(dropWhile_eq_self_iff hs).2 hhead, (rdropWhile_eq_self_iff hs).2 hlast]

theorem trim_of_trimmed (hs : PrintableText s) (h : Trimmed s) : trim s = s := by
  unfold trim
  rw [(dropWhile_eq_self_iff hs).2 h.1, (rdropWhile_eq_self_iff hs).2 h.2]

theorem trim_of_blank (h : ∀ c ∈ s, c = ' ') : trim s = [] := by
  have hall : s.dropWhile isWhitespace = [] := by
    rw [List.dropWhile_eq_nil_iff]
    intro c hc
    rw [h c hc]
    decide
  unfold trim
  rw [hall, List.rdropWhile_nil]

theorem rdropWhile_append_replicate (s : Text) (k : Nat) :
    (s ++ List.replicate k ' ').rdropWhile isWhitespace = s.rdropWhile isWhitespace := by
  induction k with
  | zero => rw [List.replicate_zero, List.append_nil]
  | succ k ih =>
    rw [List.replicate_succ', ← List.append_assoc,
      List.rdropWhile_concat, if_pos (by decide), ih]

/-- A padded text comes back from its column when it has no blank at its
ends. -/
theorem trim_padRight (hs : PrintableText s) (h : Trimmed s) (w : Nat) :
    trim (padRight w s) = s := by
  cases s with
  | nil =>
    apply trim_of_blank
    intro c hc
    exact List.eq_of_mem_replicate hc
  | cons c s =>
    have hhead : (padRight w (c :: s)).head? ≠ some ' ' := h.1
    unfold trim
    rw [(dropWhile_eq_self_iff (hs.padRight w)).2 hhead, padRight,
      rdropWhile_append_replicate, (rdropWhile_eq_self_iff hs).2 h.2]

theorem aligned_padRight (w : Nat) (s : Text) : Aligned (padRight w s) ↔ Aligned s := by
  cases s with
  | nil =>
    have hblank : ∀ c ∈ padRight w [], c = ' ' :=
      fun c hc => List.eq_of_mem_replicate hc
    exact iff_of_true (fun _ => hblank) (fun _ => nofun)
  | cons c s =>
    refine imp_congr_right fun _ => ?_
    rw [padRight, List.forall_mem_append]
    exact and_iff_left fun d hd => List.eq_of_mem_replicate hd

/-- Trimming a column and padding it again gives it back exactly when it
is aligned. -/
theorem padRight_trim_iff {c : Text} (hc : PrintableText c)
    (hlen : c.length = w) : padRight w (trim c) = c ↔ Aligned c := by
  by_cases hhead : c.head? = some ' '
  · constructor
    · intro heq _
      -- a text left after trimming would begin with another character
      have hnil : trim c = [] := by
        cases htrim : trim c with
        | nil => rfl
        | cons d t =>
          rw [htrim] at heq
          have hd : d = ' ' := by
            rw [← heq] at hhead
            exact Option.some.inj hhead
          have hfirst : (c.dropWhile isWhitespace).head? = some d := by
            obtain ⟨u, hu⟩ := List.rdropWhile_prefix isWhitespace
              (l := c.dropWhile isWhitespace)
            rw [← hu]
            show (trim c ++ u).head? = _
            rw [htrim]
            rfl
          have hnot := List.head?_dropWhile_not isWhitespace c
          rw [hfirst, hd] at hnot
          cases hnot
      intro x hx
      rw [← heq, hnil] at hx
      exact List.eq_of_mem_replicate hx
    · intro haligned
      have hblank := haligned hhead
      rw [trim_of_blank hblank, ← hlen]
      exact (List.eq_replicate_of_mem hblank).symm
  · have haligned : Aligned c := fun h => absurd h hhead
    refine iff_of_true ?_ haligned
    have hblanks := rdropWhile_append_blanks hc
    unfold trim
    rw [(dropWhile_eq_self_iff hc).2 hhead, padRight, ← hlen, ← hblanks]

-- ==== fields

def cut (w : Nat) (s : Text) : Text := padRight w (s.take w)

@[simp]
theorem length_cut (w : Nat) (s : Text) : (cut w s).length = w := by
  rw [cut, length_padRight, List.length_take]
  omega

theorem PrintableText.cut (hs : PrintableText s) (w : Nat) : PrintableText (cut w s) :=
  (hs.mono fun _ hc => List.mem_of_mem_take hc).padRight w

theorem aligned_cut (w : Nat) (s : Text) :
    Aligned (cut w s) ↔ Aligned (s.take w) := aligned_padRight w _

theorem cut_of_length (h : s.length = w) : cut w s = s := by
  rw [cut, List.take_of_length_le (Nat.le_of_eq h), padRight_of_length_le (Nat.le_of_eq h.symm)]

theorem cut_of_le (h : s.length ≤ w) : cut w s = padRight w s := by
  rw [cut, List.take_of_length_le h]

theorem fills_of_printable (hs : PrintableText s) (hlen : s.length = w) :
    Fills w s := ⟨hlen, hs.ascii⟩

theorem ascii_flatten (h : List.Forall₂ Fills ws fs) : Ascii fs.flatten := by
  induction h with
  | nil => exact ascii_nil
  | cons hwf _ ih => exact (ascii_append _ _).2 ⟨hwf.2, ih⟩

theorem map_length (h : List.Forall₂ Fills ws fs) : fs.map List.length = ws := by
  induction h with
  | nil => rfl
  | cons hwf _ ih => rw [List.map_cons, hwf.1, ih]

/-- Records of the same columns agree field by field. -/
theorem fields_inj {gs : List Text} (hf : List.Forall₂ Fills ws fs)
    (hg : List.Forall₂ Fills ws gs) (h : fs.flatten = gs.flatten) : fs = gs :=
  List.eq_iff_flatten_eq.2 ⟨h, (map_length hf).trans (map_length hg).symm⟩

/-- The slice over `k` fields of a record. -/
theorem sliceText_fields (h : List.Forall₂ Fills ws fs) (i k : Nat)
    (hlo : (ws.take i).sum = lo) (hhi : (ws.take (i + k)).sum = hi) :
    sliceText lo hi fs.flatten = (.ok ((fs.drop i).take k).flatten : Except (Fault ε) _) := by
  have hsum : ∀ j, (fs.take j).flatten.length = (ws.take j).sum :=
    fun j => length_fields (List.forall₂_take j h)
  have hstart : (fs.take i).flatten.length = lo := (hsum i).trans hlo
  have hsplit : (fs.take (i + k)).flatten
      = (fs.take i).flatten ++ ((fs.drop i).take k).flatten := by
    rw [List.take_add, List.flatten_append]
  have hend : (fs.take i).flatten.length + ((fs.drop i).take k).flatten.length = hi := by
    rw [← List.length_append, ← hsplit, hsum, hhi]
  have hall : fs.flatten = (fs.take i).flatten
      ++ (((fs.drop i).take k).flatten ++ (fs.drop (i + k)).flatten) := by
    rw [← List.append_assoc, ← hsplit, ← List.flatten_append, List.take_append_drop]
  have hlen := congrArg List.length hall
  rw [List.length_append, List.length_append] at hlen
  rw [sliceText_of_ascii (ascii_flatten h) (by omega) (by omega), hall,
    column, ← hstart, List.drop_left, ← hend, hstart, Nat.add_sub_cancel_left,
    List.take_left]

theorem sliceText_field (h : List.Forall₂ Fills ws fs) (i : Nat) {f : Text}
    (hlo : (ws.take i).sum = lo) (hhi : (ws.take (i + 1)).sum = hi)
    (hf : fs[i]? = some f) :
    sliceText lo hi fs.flatten = (.ok f : Except (Fault ε) _) := by
  have hone : (fs.drop i).take 1 = [f] := by
    rw [List.take_one, List.head?_drop, hf]
    rfl
  rw [sliceText_fields h i 1 hlo hhi, hone, List.flatten_singleton]

-- ==== columns in order

/-- A column of a record, in bytes, and what may stand in it. -/
structure Column where
  lo : Nat
  hi : Nat
  good : Text → Bool := fun _ => true

namespace Column

/-- The column begins or ends inside a character. -/
def Cut (c : Column) (s : Text) : Prop :=
  ¬ (IsCharBoundary c.lo s ∧ IsCharBoundary c.hi s)

def Good (c : Column) (s : Text) : Prop :=
  ∃ t, sliceText c.lo c.hi s = (.ok t : Except (Fault Unit) Text) ∧ c.good t = true

end Column

def CutsFirst (cols : List Column) (s : Text) : Prop :=
  ∃ before c after, cols = before ++ c :: after ∧ (∀ d ∈ before, d.Good s) ∧ c.Cut s

theorem not_cutsFirst_nil (s : Text) : ¬ CutsFirst [] s := by
  rintro ⟨before, c, after, h, -⟩
  cases before with
  | nil => cases h
  | cons d before => cases h

theorem cutsFirst_cons_iff {c : Column} {cols : List Column} :
    CutsFirst (c :: cols) s ↔ c.Cut s ∨ c.Good s ∧ CutsFirst cols s := by
  constructor
  · rintro ⟨before, d, after, h, hbefore, hcut⟩
    cases before with
    | nil =>
      obtain ⟨rfl, -⟩ := List.cons.inj h
      exact .inl hcut
    | cons b before =>
      obtain ⟨rfl, rfl⟩ := List.cons.inj h
      obtain ⟨hgood, hrest⟩ := List.forall_mem_cons.1 hbefore
      exact .inr ⟨hgood, before, d, after, rfl, hrest, hcut⟩
  · rintro (hcut | ⟨hgood, before, d, after, rfl, hbefore, hcut⟩)
    · exact ⟨[], c, cols, rfl, by simp, hcut⟩
    · exact ⟨c :: before, d, after, rfl, List.forall_mem_cons.2 ⟨hgood, hbefore⟩, hcut⟩

theorem sliceText_cases (hle : lo ≤ hi) (s : Text) :
    (IsCharBoundary lo s ∧ IsCharBoundary hi s
        ∧ ∃ t, ∀ ε : Type, sliceText lo hi s = (.ok t : Except (Fault ε) Text))
      ∨ (¬ (IsCharBoundary lo s ∧ IsCharBoundary hi s)
        ∧ sliceText lo hi s = (.error .panic : Except (Fault ε) Text)) := by
  unfold IsCharBoundary sliceText
  cases takeBytes lo s with
  | none => exact .inr ⟨fun h => Bool.false_ne_true h.1, rfl⟩
  | some front =>
    cases takeBytes hi s with
    | none => exact .inr ⟨fun h => Bool.false_ne_true h.2, rfl⟩
    | some whole =>
      exact .inl ⟨rfl, rfl, whole.drop front.length, fun ε => if_pos hle⟩

/-- A reader that goes through columns in order: it panics where it comes
to a cut one, and answers where all are good. -/
structure Follows {ε α : Type} (cols : List Column) (s : Text)
    (r : Except (Fault ε) α) : Prop where
  panics : r = .error .panic ↔ CutsFirst cols s
  answers : (∃ x, r = .ok x) ↔ ∀ c ∈ cols, c.Good s

namespace Follows

variable {ε α β : Type} {cols : List Column} {s : Text}

theorem done (x : α) : Follows [] s (.ok x : Except (Fault ε) α) := by
  constructor
  · exact iff_of_false nofun (not_cutsFirst_nil s)
  · exact iff_of_true ⟨x, rfl⟩ (by simp)

/-- The next column, where what stands in it is read further. -/
theorem checked {lo hi : Nat} {good : Text → Bool} (hle : lo ≤ hi)
    {parse : Text → Except (Fault ε) β} {f : Text → β → Except (Fault ε) α}
    (hgood : ∀ t, good t = true → ∃ y, parse t = .ok y)
    (hbad : ∀ t, good t = false → ∃ e, parse t = .error (.err e))
    (h : ∀ t y, Follows cols s (f t y)) :
    Follows (⟨lo, hi, good⟩ :: cols) s (sliceText lo hi s >>= fun t => parse t >>= f t) := by
  have hcases := sliceText_cases (ε := ε) hle s
  obtain ⟨hlo, hhi, t, ht⟩ | ⟨hcut, hpanic⟩ := hcases
  · have hnocut : ¬ Column.Cut ⟨lo, hi, good⟩ s := not_not.2 ⟨hlo, hhi⟩
    rw [ht ε, ok_bind]
    cases hgt : good t with
    | true =>
      obtain ⟨y, hy⟩ := hgood t hgt
      have hcol : Column.Good ⟨lo, hi, good⟩ s := ⟨t, ht Unit, hgt⟩
      rw [hy, ok_bind]
      constructor
      · rw [(h t y).panics, cutsFirst_cons_iff]
        simp only [hnocut, hcol, false_or, true_and]
      · rw [(h t y).answers, List.forall_mem_cons]
        simp only [hcol, true_and]
    | false =>
      obtain ⟨e, he⟩ := hbad t hgt
      have hcol : ¬ Column.Good ⟨lo, hi, good⟩ s := by
        rintro ⟨t', ht', hgood'⟩
        obtain rfl := Except.ok.inj ((ht Unit).symm.trans ht')
        exact Bool.false_ne_true (hgt.symm.trans hgood')
      rw [he, error_bind]
      constructor
      · refine iff_of_false nofun ?_
        rw [cutsFirst_cons_iff]
        simp only [hnocut, hcol, false_or, false_and, not_false_eq_true]
      · refine iff_of_false nofun fun hall => ?_
        exact hcol (hall _ List.mem_cons_self)
  · have hcol : ¬ Column.Good ⟨lo, hi, good⟩ s := by
      rintro ⟨t', ht', -⟩
      obtain ⟨hlo, hhi, -⟩ | ⟨-, hpanic'⟩ := sliceText_cases (ε := Unit) hle s
      · exact hcut ⟨hlo, hhi⟩
      · cases ht'.symm.trans hpanic'
    rw [hpanic, error_bind]
    constructor
    · exact iff_of_true rfl (cutsFirst_cons_iff.2 (.inl hcut))
    · refine iff_of_false nofun fun hall => ?_
      exact hcol (hall _ List.mem_cons_self)

/-- The next column, where it is taken as it stands. -/
theorem plain {lo hi : Nat} (hle : lo ≤ hi)
    {f : Text → Except (Fault ε) α} (h : ∀ t, Follows cols s (f t)) :
    Follows ({ lo, hi } :: cols) s (sliceText lo hi s >>= f) :=
  have hchecked : Follows (⟨lo, hi, fun _ => true⟩ :: cols) s
      (sliceText lo hi s >>= fun t => (.ok t : Except (Fault ε) Text) >>=
        fun _ => f t) :=
    checked hle (fun t _ => ⟨t, rfl⟩) (fun t h => by cases h) fun t _ => h t
  hchecked

/-- What is done with the answer reads no further column. -/
theorem map {r : Except (Fault ε) α} (h : Follows cols s r) (g : α → β) :
    Follows cols s (r >>= fun x => .ok (g x)) := by
  cases r with
  | ok x =>
    exact ⟨iff_of_false nofun (h.panics.not.1 nofun),
      iff_of_true ⟨g x, rfl⟩ (h.answers.1 ⟨x, rfl⟩)⟩
  | error e =>
    constructor
    · rw [error_bind, Except.error.injEq, ← h.panics, Except.error.injEq]
    · refine iff_of_false nofun fun hall => ?_
      obtain ⟨x, hx⟩ := h.answers.2 hall
      cases hx

end Follows

end OpenStandards.Lib.Text

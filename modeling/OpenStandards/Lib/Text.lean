/-
Fixed-width text: a text is its list of characters, its size is counted
in UTF-8 bytes, and a record is the concatenation of padded fields.

Padding counts characters and slicing counts bytes. When no field is
narrower than its column, a record has as many bytes as its columns exactly
when every field fills its column with one-byte characters
(`byteLen_fields_iff`), so one test of the whole length fixes every column.

Parts joined by labels are read back up to shifts: a part that holds the
label it ends at may end there or at the label proper (`joined_eq_iff`).
-/
import Mathlib.Algebra.Order.BigOperators.Group.List
import Mathlib.Tactic.Ring

namespace OpenStandards.Lib

abbrev Text := List Char

namespace Text

-- ==== bytes

def byteLen (s : Text) : Nat := (s.map Char.utf8Size).sum

/-- A text is decided character by character, not over every character
there is. -/
instance decidableForallMem (s : Text) (p : Char → Prop) [DecidablePred p] :
    Decidable (∀ c ∈ s, p c) := List.decidableBAll p s

/-- Every character takes one byte. -/
def Ascii (s : Text) : Prop := ∀ c ∈ s, c.utf8Size = 1

instance (s : Text) : Decidable s.Ascii :=
  inferInstanceAs (Decidable (∀ c ∈ s, c.utf8Size = 1))

@[simp]
theorem byteLen_nil : byteLen [] = 0 := rfl

@[simp]
theorem byteLen_cons (c : Char) (s : Text) : byteLen (c :: s) = c.utf8Size + byteLen s := by
  simp [byteLen]

@[simp]
theorem byteLen_append (s t : Text) : byteLen (s ++ t) = byteLen s + byteLen t := by
  simp [byteLen]

@[simp]
theorem ascii_nil : Ascii [] := by simp [Ascii]

@[simp]
theorem ascii_cons (c : Char) (s : Text) : Ascii (c :: s) ↔ c.utf8Size = 1 ∧ Ascii s := by
  simp [Ascii]

@[simp]
theorem ascii_append (s t : Text) : Ascii (s ++ t) ↔ Ascii s ∧ Ascii t := by
  simp only [Ascii, List.mem_append]
  exact ⟨fun h => ⟨fun c hc => h c (.inl hc), fun c hc => h c (.inr hc)⟩,
    fun h c hc => hc.elim (h.1 c) (h.2 c)⟩

variable {s t : Text} {c fill : Char} {n w : Nat} {ws : List Nat} {fs rs : List Text}

theorem Ascii.mono (hs : Ascii s) (hts : ∀ c ∈ t, c ∈ s) :
    Ascii t := fun c hc => hs c (hts c hc)

theorem ascii_replicate (hc : c.utf8Size = 1) (n : Nat) : Ascii (List.replicate n c) := by
  intro d hd
  rw [List.eq_of_mem_replicate hd]
  exact hc

theorem ascii_of_isDigit (hs : ∀ c ∈ s, c.isDigit = true) : Ascii s := by
  intro c hc
  have hdigit := hs c hc
  simp only [Char.isDigit, Bool.and_eq_true, decide_eq_true_eq] at hdigit
  have hle : c.val ≤ 127 := UInt32.le_trans hdigit.2 (by decide)
  simp [Char.utf8Size, hle]

theorem length_le_byteLen (s : Text) : s.length ≤ byteLen s := by
  induction s with
  | nil => exact le_rfl
  | cons c s ih =>
    have := c.utf8Size_pos
    simp only [List.length_cons, byteLen_cons]
    omega

/-- Bytes and characters are as many exactly when each character is one
byte. -/
theorem byteLen_eq_length_iff (s : Text) : byteLen s = s.length ↔ Ascii s := by
  induction s with
  | nil => simp
  | cons c s ih =>
    have hpos := c.utf8Size_pos
    have hle := length_le_byteLen s
    simp only [byteLen_cons, List.length_cons, ascii_cons, ← ih]
    omega

-- ==== slices

/-- The slice `&s[..n]`: nothing when `n` is past the end or inside a
character, where the slice panics. -/
def takeBytes (n : Nat) : Text → Option Text
  | [] => if n = 0 then some [] else none
  | c :: s =>
    if n = 0 then some []
    else if c.utf8Size ≤ n then
      (takeBytes (n - c.utf8Size) s).map (c :: ·)
    else none

/-- The text has a character boundary at byte `n`. -/
def IsCharBoundary (n : Nat) (s : Text) : Prop := (takeBytes n s).isSome

instance (n : Nat) (s : Text) : Decidable (IsCharBoundary n s) :=
  inferInstanceAs (Decidable ((takeBytes n s).isSome = true))

@[simp]
theorem takeBytes_zero (s : Text) : takeBytes 0 s = some [] := by
  cases s with
  | nil => rfl
  | cons c s => rfl

/-- A slice is the part of the text of that many bytes. -/
theorem takeBytes_eq_some (h : takeBytes n s = some t) : byteLen t = n ∧ ∃ u, s = t ++ u := by
  induction s generalizing n t with
  | nil =>
    unfold takeBytes at h
    split at h
    · cases h
      exact ⟨by simp [*], [], rfl⟩
    · cases h
  | cons c s ih =>
    unfold takeBytes at h
    split at h
    · cases h
      exact ⟨by simp [*], c :: s, rfl⟩
    · split at h
      · obtain ⟨t', ht', rfl⟩ := Option.map_eq_some_iff.1 h
        obtain ⟨hlen, u, rfl⟩ := ih ht'
        refine ⟨?_, u, rfl⟩
        rw [byteLen_cons, hlen]
        omega
      · cases h

/-- Cutting after a part of the text. -/
theorem takeBytes_append (s t : Text) : takeBytes (byteLen s) (s ++ t) = some s := by
  induction s with
  | nil => simp
  | cons c s ih =>
    have hpos := c.utf8Size_pos
    rw [byteLen_cons, List.cons_append, takeBytes, if_neg (by omega),
      if_pos (by omega), Nat.add_sub_cancel_left, ih]
    rfl

/-- The first `w` characters of the text take one byte each. -/
def Plain (w : Nat) (s : Text) : Prop := Ascii (s.take w)

instance (w : Nat) (s : Text) : Decidable (Plain w s) :=
  inferInstanceAs (Decidable (Ascii (s.take w)))

theorem Plain.mono {v : Nat} (h : Plain w s) (hvw : v ≤ w) : Plain v s := by
  refine Ascii.mono h ?_
  intro c hc
  exact (List.take_prefix_take_left hvw).subset hc

theorem plain_iff_ascii (h : s.length ≤ w) : Plain w s ↔ Ascii s := by
  rw [Plain, List.take_of_length_le h]

/-- Cutting a text whose beginning is plain. -/
theorem takeBytes_of_plain (hplain : Plain w s) (hlen : w ≤ byteLen s) :
    w ≤ s.length ∧ takeBytes w s = some (s.take w) := by
  have hw : w ≤ s.length := by
    by_contra hlt
    have hascii := (plain_iff_ascii (by omega)).1 hplain
    have := (byteLen_eq_length_iff s).2 hascii
    omega
  have hbytes : byteLen (s.take w) = w := by
    rw [(byteLen_eq_length_iff _).2 hplain, List.length_take, min_eq_left hw]
  refine ⟨hw, ?_⟩
  have hcut := takeBytes_append (s.take w) (s.drop w)
  rwa [hbytes, List.take_append_drop] at hcut

-- ==== padding

/-- Right-aligned in a column of `w` characters. -/
def padLeft (fill : Char) (w : Nat) (s : Text) : Text :=
  List.replicate (w - s.length) fill ++ s

/-- Left-aligned in a column of `w` characters. -/
def padRight (w : Nat) (s : Text) : Text :=
  s ++ List.replicate (w - s.length) ' '

/-- A number in a column of `w` digits. -/
def zeroPad (w n : Nat) : Text := padLeft '0' w (Nat.toDigits 10 n)

theorem length_padLeft (fill : Char) (w : Nat) (s : Text) :
    (padLeft fill w s).length = max w s.length := by
  simp only [padLeft, List.length_append, List.length_replicate]
  omega

theorem length_padRight (w : Nat) (s : Text) : (padRight w s).length = max w s.length := by
  simp only [padRight, List.length_append, List.length_replicate]
  omega

theorem le_length_padLeft (fill : Char) (w : Nat) (s : Text) :
    w ≤ (padLeft fill w s).length := by
  rw [length_padLeft]
  exact le_max_left ..

theorem le_length_padRight (w : Nat) (s : Text) : w ≤ (padRight w s).length := by
  rw [length_padRight]
  exact le_max_left ..

theorem le_length_zeroPad (w n : Nat) : w ≤ (zeroPad w n).length :=
  le_length_padLeft ..

theorem padLeft_of_length_le (h : w ≤ s.length) : padLeft fill w s = s := by
  simp [padLeft, Nat.sub_eq_zero_of_le h]

theorem padRight_of_length_le (h : w ≤ s.length) : padRight w s = s := by
  simp [padRight, Nat.sub_eq_zero_of_le h]

theorem ascii_padLeft (hfill : fill.utf8Size = 1) (w : Nat) (s : Text) :
    Ascii (padLeft fill w s) ↔ Ascii s := by
  rw [padLeft, ascii_append]
  exact and_iff_right (ascii_replicate hfill _)

theorem ascii_padRight (w : Nat) (s : Text) : Ascii (padRight w s) ↔ Ascii s := by
  rw [padRight, ascii_append]
  exact and_iff_left (ascii_replicate (by decide) _)

theorem mem_padRight {a : Char} (ha : a ≠ ' ') (w : Nat) (s : Text) :
    a ∈ padRight w s ↔ a ∈ s := by
  simp [padRight, ha]

theorem mem_padLeft {a : Char} (ha : a ≠ fill) (w : Nat) (s : Text) :
    a ∈ padLeft fill w s ↔ a ∈ s := by
  simp [padLeft, ha]

theorem isDigit_zeroPad (hc : c ∈ zeroPad w n) : c.isDigit = true := by
  rcases List.mem_append.1 hc with hc | hc
  · rw [List.eq_of_mem_replicate hc]
    decide
  · exact Nat.isDigit_of_mem_toDigits (by decide) (by decide) hc

theorem ascii_zeroPad (w n : Nat) : Ascii (zeroPad w n) :=
  ascii_of_isDigit fun _ hc => isDigit_zeroPad hc

/-- A number fills its column exactly when it has no more digits than the
column. -/
theorem length_zeroPad_iff (hw : 0 < w) (n : Nat) : (zeroPad w n).length = w ↔ n < 10 ^ w := by
  rw [zeroPad, length_padLeft, ← Nat.length_toDigits_le_iff (by decide) hw]
  omega

def number (s : Text) : Nat := Nat.ofDigitChars 10 s 0

@[simp]
theorem number_zeroPad (w n : Nat) : number (zeroPad w n) = n := by
  simp [number, zeroPad, padLeft, Nat.ofDigitChars_append]

def withoutPlus : Text → Text
  | '+' :: d :: ds => d :: ds
  | s => s

/-- `str::parse` of an unsigned integer below `bound`: digits after an
optional plus sign. -/
def parseUnsigned (bound : Nat) (s : Text) : Option Nat :=
  let digits := withoutPlus s
  if digits ≠ [] ∧ (∀ c ∈ digits, c.isDigit = true) ∧ number digits < bound
  then some (number digits) else none

theorem withoutPlus_of_digits (hs : ∀ c ∈ s, c.isDigit = true) : withoutPlus s = s := by
  unfold withoutPlus
  split
  · have := hs '+' List.mem_cons_self
    cases this
  · rfl

theorem parseUnsigned_of_digits {bound : Nat} (hne : s ≠ [])
    (hs : ∀ c ∈ s, c.isDigit = true) (hlt : number s < bound) :
    parseUnsigned bound s = some (number s) := by
  unfold parseUnsigned
  rw [withoutPlus_of_digits hs]
  exact if_pos ⟨hne, hs, hlt⟩

theorem number_of_parseUnsigned {bound : Nat} (ht : ∀ c ∈ t, c.isDigit = true)
    (h : parseUnsigned bound t = some n) : n = number t := by
  unfold parseUnsigned at h
  rw [withoutPlus_of_digits ht] at h
  simp only at h
  split at h
  · exact (Option.some.inj h).symm
  · cases h

theorem digit_val (hc : c.isDigit = true) : 48 ≤ c.toNat ∧ c.toNat ≤ 57 := by
  simp only [Char.isDigit, Bool.and_eq_true, decide_eq_true_eq] at hc
  exact ⟨hc.1, hc.2⟩

/-- `k` digits are less than 10 to the `k`. -/
theorem number_lt (hs : ∀ c ∈ s, c.isDigit = true) : number s < 10 ^ s.length := by
  induction s with
  | nil => simp [number]
  | cons c s ih =>
    have hc := hs c List.mem_cons_self
    have hrest := ih fun d hd => hs d (List.mem_cons_of_mem _ hd)
    have hle : c.toNat - '0'.toNat ≤ 9 := by
      have := digit_val hc
      simp only [Char.reduceToNat]
      omega
    have hpow : 0 < 10 ^ s.length := Nat.pow_pos (by decide)
    simp only [number, Nat.ofDigitChars_cons, Nat.mul_zero, Nat.zero_add,
      List.length_cons, Nat.pow_succ] at hrest ⊢
    rw [Nat.ofDigitChars_eq_ofDigitChars_zero]
    calc 10 ^ s.length * (c.toNat - '0'.toNat) + Nat.ofDigitChars 10 s 0
        < 10 ^ s.length * (c.toNat - '0'.toNat) + 10 ^ s.length := by omega
      _ = 10 ^ s.length * (c.toNat - '0'.toNat + 1) := by ring
      _ ≤ 10 ^ s.length * 10 := Nat.mul_le_mul_left _ (by omega)

theorem number_inj : ∀ {s t : Text}, s.length = t.length →
    (∀ c ∈ s, c.isDigit = true) → (∀ c ∈ t, c.isDigit = true) →
    number s = number t → s = t
  | [], [], _, _, _, _ => rfl
  | [], _ :: _, hlen, _, _, _ => by cases hlen
  | _ :: _, [], hlen, _, _, _ => by cases hlen
  | c :: s, d :: t, hlen, hs, ht, heq => by
    have hlen' : s.length = t.length := by simpa using hlen
    have hs' := fun x hx => hs x (List.mem_cons_of_mem c hx)
    have ht' := fun x hx => ht x (List.mem_cons_of_mem d hx)
    have hslt := number_lt hs'
    have htlt := number_lt ht'
    simp only [number, Nat.ofDigitChars_cons, Nat.mul_zero, Nat.zero_add]
      at heq hslt htlt
    rw [Nat.ofDigitChars_eq_ofDigitChars_zero,
      @Nat.ofDigitChars_eq_ofDigitChars_zero t, ← hlen'] at heq
    rw [← hlen'] at htlt
    -- the leading digits are the quotients by the power of ten
    have hpos : 0 < 10 ^ s.length := Nat.pow_pos (by decide)
    have hdiv := congrArg (· / 10 ^ s.length) heq
    have hmod := congrArg (· % 10 ^ s.length) heq
    simp only [Nat.mul_add_div hpos, Nat.div_eq_of_lt hslt,
      Nat.div_eq_of_lt htlt, Nat.add_zero] at hdiv
    simp only [Nat.mul_add_mod, Nat.mod_eq_of_lt hslt, Nat.mod_eq_of_lt htlt] at hmod
    have hc := digit_val (hs c List.mem_cons_self)
    have hd := digit_val (ht d List.mem_cons_self)
    have hcd : c = d := Char.toNat_inj.1 (by
      simp only [Char.reduceToNat] at hdiv
      omega)
    rw [hcd, number_inj hlen' hs' ht' hmod]

theorem zeroPad_number (hs : ∀ c ∈ s, c.isDigit = true) (hne : s ≠ []) :
    zeroPad s.length (number s) = s := by
  refine number_inj ?_ (fun c hc => isDigit_zeroPad hc) hs (number_zeroPad ..)
  rw [length_zeroPad_iff (List.length_pos_of_ne_nil hne)]
  exact number_lt hs

-- ==== records

/-- The field fills its column with one-byte characters. -/
def Fills (w : Nat) (f : Text) : Prop := f.length = w ∧ Ascii f

instance (w : Nat) (f : Text) : Decidable (Fills w f) :=
  inferInstanceAs (Decidable (_ ∧ _))

theorem fills_zeroPad (hw : 0 < w) (n : Nat) : Fills w (zeroPad w n) ↔ n < 10 ^ w := by
  rw [Fills, length_zeroPad_iff hw]
  exact and_iff_left (ascii_zeroPad w n)

theorem length_flatten_le (h : List.Forall₂ (fun w f => w ≤ f.length) ws fs) :
    ws.sum ≤ byteLen fs.flatten := by
  induction h with
  | nil => simp
  | @cons w f ws fs hwf _ ih =>
    have := length_le_byteLen f
    simp only [List.sum_cons, List.flatten_cons, byteLen_append]
    omega

theorem byteLen_fields_iff (h : List.Forall₂ (fun w f => w ≤ f.length) ws fs) :
    byteLen fs.flatten = ws.sum ↔ List.Forall₂ Fills ws fs := by
  induction h with
  | nil => simp
  | @cons w f ws fs hwf hrest ih =>
    have hf := length_le_byteLen f
    have hle := length_flatten_le hrest
    have hascii := byteLen_eq_length_iff f
    rw [List.forall₂_cons, ← ih, Fills, ← hascii]
    simp only [List.sum_cons, List.flatten_cons, byteLen_append]
    omega

theorem length_fields (h : List.Forall₂ Fills ws fs) : fs.flatten.length = ws.sum := by
  induction h with
  | nil => rfl
  | @cons w f ws fs hwf _ ih =>
    simp only [List.flatten_cons, List.length_append, ih, hwf.1, List.sum_cons]

/-- The characters of a record from `off` on, `w` of them. -/
def column (off w : Nat) (s : Text) : Text := (s.drop off).take w

/-- A column of a record is the field written there. -/
theorem column_flatten (h : List.Forall₂ Fills ws fs) {i off : Nat} {f : Text}
    (hoff : (ws.take i).sum = off) (hw : ws[i]? = some w)
    (hf : fs[i]? = some f) : column off w fs.flatten = f := by
  induction h generalizing i off with
  | nil => simp at hf
  | @cons v g ws fs hvg _ ih =>
    cases i with
    | zero =>
      simp only [List.getElem?_cons_zero, Option.some.injEq] at hw hf
      subst hw hf hoff
      simp [column, hvg.1]
    | succ i =>
      simp only [List.getElem?_cons_succ] at hw hf
      have hoff' : v + (ws.take i).sum = off := by simpa using hoff
      have hg : v = g.length := hvg.1.symm
      have hskip : (g ++ fs.flatten).drop (g.length + (ws.take i).sum)
          = fs.flatten.drop (ws.take i).sum := by
        rw [← List.drop_drop, List.drop_left]
      rw [column, List.flatten_cons, ← hoff', hg, hskip]
      exact ih rfl hw hf

-- ==== lines

def unlines (records : List Text) : Text :=
  (records.map (· ++ ['\n'])).flatten

@[simp]
theorem unlines_nil : unlines [] = [] := rfl

@[simp]
theorem unlines_cons (r : Text) (rs : List Text) :
    unlines (r :: rs) = r ++ '\n' :: unlines rs := by
  simp [unlines]

@[simp]
theorem unlines_append (rs qs : List Text) : unlines (rs ++ qs) = unlines rs ++ unlines qs := by
  simp [unlines]

theorem length_unlines (h : ∀ r ∈ rs, r.length = w) :
    (unlines rs).length = (w + 1) * rs.length := by
  induction rs with
  | nil => simp
  | cons r rs ih =>
    have hr := h r List.mem_cons_self
    have hrs := ih fun q hq => h q (List.mem_cons_of_mem _ hq)
    simp only [unlines_cons, List.length_append, List.length_cons, hr, hrs]
    ring

/-- Lines without newlines are read back. -/
theorem splitOn_unlines (h : ∀ r ∈ rs, '\n' ∉ r) : (unlines rs).splitOn '\n' = rs ++ [[]] := by
  induction rs with
  | nil => rfl
  | cons r rs ih =>
    rw [unlines_cons, List.splitOn_append_cons_self_of_not_mem
      (h r List.mem_cons_self),
      ih fun q hq => h q (List.mem_cons_of_mem _ hq)]
    rfl

theorem length_splitOn (s : Text) : (s.splitOn '\n').length = s.count '\n' + 1 := by
  induction s with
  | nil => rfl
  | cons c s ih =>
    rw [List.splitOn_cons_eq_if_modifyHead, List.count_cons]
    split
    · simp [ih]
    · simp [ih]

theorem unlines_of_splitOn {ps : List Text} (h : s.splitOn '\n' = ps ++ [[]]) :
    s = unlines ps := by
  have hs : ['\n'].intercalate (s.splitOn '\n') = s :=
    List.intercalate_splitOn '\n'
  rw [h] at hs
  rw [← hs]
  clear h hs
  induction ps with
  | nil => rfl
  | cons p ps ih =>
    rw [List.cons_append, List.intercalate_cons_of_ne_nil (by simp), ih]
    simp

theorem count_unlines (rs : List Text) :
    (unlines rs).count '\n' = (rs.map (List.count '\n')).sum + rs.length := by
  induction rs with
  | nil => rfl
  | cons r rs ih =>
    simp only [unlines_cons, List.count_append, List.count_cons_self, ih,
      List.map_cons, List.sum_cons, List.length_cons]
    omega

/-- Records of one length split back into pieces of that length exactly
when none holds a newline. -/
theorem unlines_splits_iff (hw : ∀ r ∈ rs, r.length = w) :
    (∃ ps, (unlines rs).splitOn '\n' = ps ++ [[]] ∧ ∀ p ∈ ps, p.length = w)
      ↔ ∀ r ∈ rs, '\n' ∉ r := by
  constructor
  · rintro ⟨ps, hsplit, hps⟩
    -- as many pieces as records, by length; so no newline is left over
    have heq := unlines_of_splitOn hsplit
    have hlen : (w + 1) * rs.length = (w + 1) * ps.length := by
      rw [← length_unlines hw, ← length_unlines hps, ← heq]
    have hcount := length_splitOn (unlines rs)
    rw [hsplit, count_unlines, List.length_append, List.length_singleton]
      at hcount
    have hsame := Nat.eq_of_mul_eq_mul_left (Nat.succ_pos w) hlen
    have hzero : (rs.map (List.count '\n')).sum = 0 := by omega
    intro r hr
    have hr0 : List.count '\n' r ≤ 0 :=
      hzero ▸ List.single_le_sum (fun _ _ => Nat.zero_le _) _ (List.mem_map_of_mem hr)
    exact List.count_eq_zero.1 (Nat.le_zero.1 hr0)
  · intro h
    exact ⟨rs, splitOn_unlines h, hw⟩

end Text

-- ==== parts between labels

namespace Labelled

variable {α : Type*}

/-- A first part, and each further one behind its label. -/
abbrev Parts (α : Type*) := List α × List (List α × List α)

/-- The parts with the labels between them. -/
def joined : List α → List (List α × List α) → List α
  | t, [] => t
  | t, (l, p) :: rest => t ++ (l ++ joined p rest)

def labels (x : Parts α) : List (List α) := x.2.map Prod.fst

/-- One step of text across a label: behind the label the part begins with
`v` and the label once more, and `v` goes to the part in front of it. -/
inductive Shift : Parts α → Parts α → Prop
  | here (t l v p : List α) (rest : List (List α × List α)) :
      Shift (t, (l, v ++ (l ++ p)) :: rest) (t ++ (l ++ v), (l, p) :: rest)
  | later (t l : List α) {p p' : List α}
      {rest rest' : List (List α × List α)}
      (h : Shift (p, rest) (p', rest')) :
      Shift (t, (l, p) :: rest) (t, (l, p') :: rest')

/-- A label starts with an item it does not hold again, so that it does
not overlap itself. -/
def IsLabel (l : List α) : Prop := ∃ c t, l = c :: t ∧ c ∉ t

theorem Shift.joined_eq {x y : Parts α} (h : Shift x y) : joined x.1 x.2 = joined y.1 y.2 := by
  induction h with
  | here t l v p rest =>
    cases rest with
    | nil => simp [joined]
    | cons q rest => simp [joined]
  | later t l h ih =>
    simp only [joined] at ih ⊢
    rw [ih]

theorem joined_eq_of_eqvGen {x y : Parts α}
    (h : Relation.EqvGen Shift x y) : joined x.1 x.2 = joined y.1 y.2 := by
  induction h with
  | rel x y h => exact h.joined_eq
  | refl x => rfl
  | symm x y h ih => exact ih.symm
  | trans x y z h h' ih ih' => exact ih.trans ih'

variable {l s : List α}

/-- A label inside a text that begins with the label: it is that one, or it
stands behind it. -/
theorem IsLabel.cut (hl : IsLabel l) {c x y : List α} (h : l ++ x = c ++ (l ++ y)) :
    (c = [] ∧ x = y) ∨ ∃ u, c = l ++ u ∧ x = u ++ (l ++ y) := by
  cases c with
  | nil => exact .inl ⟨rfl, List.append_cancel_left h⟩
  | cons a c =>
    right
    obtain ⟨b, t, rfl, hb⟩ := hl
    obtain ⟨rfl, htail⟩ := List.cons.inj h
    -- the second label starts behind the tail of the first
    cases List.append_eq_append_iff.1 htail with
    | inl hlong =>
      obtain ⟨u, rfl, hx⟩ := hlong
      exact ⟨u, rfl, hx⟩
    | inr hshort =>
      obtain ⟨d, rfl, hd⟩ := hshort
      cases d with
      | nil => exact ⟨[], by simp, by simpa using hd.symm⟩
      | cons e d =>
        obtain ⟨rfl, -⟩ := List.cons.inj hd
        simp at hb

/-- Two cuts of one text at a label are one, or one lies behind the
other. -/
theorem IsLabel.cuts (hl : IsLabel l) {t x y : List α} (h : s ++ (l ++ x) = t ++ (l ++ y)) :
    (s = t ∧ x = y) ∨ (∃ u, t = s ++ (l ++ u) ∧ x = u ++ (l ++ y))
      ∨ ∃ u, s = t ++ (l ++ u) ∧ y = u ++ (l ++ x) := by
  cases List.append_eq_append_iff.1 h with
  | inl hafter =>
    obtain ⟨c, rfl, hc⟩ := hafter
    cases hl.cut hc with
    | inl hsame =>
      obtain ⟨rfl, rfl⟩ := hsame
      exact .inl ⟨by simp, rfl⟩
    | inr hbehind =>
      obtain ⟨u, rfl, hx⟩ := hbehind
      exact .inr (.inl ⟨u, rfl, hx⟩)
  | inr hbefore =>
    obtain ⟨c, rfl, hc⟩ := hbefore
    cases hl.cut hc with
    | inl hsame =>
      obtain ⟨rfl, rfl⟩ := hsame
      exact .inl ⟨by simp, rfl⟩
    | inr hbehind =>
      obtain ⟨u, rfl, hy⟩ := hbehind
      exact .inr (.inr ⟨u, rfl, hy⟩)

/-- Text up to the first item of a kind is read back. -/
theorem cut_at_first {c : α} {t x y : List α} (hs : c ∉ s) (ht : c ∉ t)
    (h : s ++ c :: x = t ++ c :: y) : s = t ∧ x = y := by
  have hc : IsLabel [c] := ⟨c, [], rfl, by simp⟩
  obtain ⟨hst, hxy⟩ | ⟨u, rfl, -⟩ | ⟨u, rfl, -⟩ := hc.cuts h
  · exact ⟨hst, hxy⟩
  · simp at ht
  · simp at hs

theorem eqvGen_below (t l : List α) {x y : Parts α} (h : Relation.EqvGen Shift x y) :
    Relation.EqvGen Shift (t, (l, x.1) :: x.2) (t, (l, y.1) :: y.2) := by
  induction h with
  | rel x y h => exact .rel _ _ (.later t l h)
  | refl x => exact .refl _
  | symm x y h ih => exact .symm _ _ ih
  | trans x y z h h' ih ih' => exact .trans _ _ _ ih ih'

theorem joined_append (s t : List α) (rest : List (List α × List α)) :
    joined (s ++ t) rest = s ++ joined t rest := by
  cases rest with
  | nil => rfl
  | cons q rest => simp [joined]

/-- A text whose first part ends earlier than another's is shifted into
it. -/
theorem eqvGen_of_behind {u x y : List α} {rest rest' : List (List α × List α)}
    (ih : Relation.EqvGen Shift (x, rest) (u ++ (l ++ y), rest')) :
    Relation.EqvGen Shift (s, (l, x) :: rest) (s ++ (l ++ u), (l, y) :: rest') :=
  .trans _ _ _ (eqvGen_below s l ih) (.rel _ _ (.here s l u y rest'))

/-- **Nothing but shifts is lost.** Parts joined by the same labels give
one text exactly when shifts lead from one to the other. -/
theorem joined_eq_iff {x y : Parts α} (hlabels : labels x = labels y)
    (hx : ∀ l ∈ labels x, IsLabel l) :
    joined x.1 x.2 = joined y.1 y.2 ↔ Relation.EqvGen Shift x y := by
  constructor
  · obtain ⟨s, rest⟩ := x
    obtain ⟨t, rest'⟩ := y
    intro h
    induction rest generalizing s t rest' with
    | nil =>
      cases rest' with
      | nil =>
        simp only [joined] at h
        exact h ▸ .refl _
      | cons q rest' => simp [labels] at hlabels
    | cons q rest ih =>
      cases rest' with
      | nil => simp [labels] at hlabels
      | cons q' rest' =>
        obtain ⟨l, p⟩ := q
        obtain ⟨l', p'⟩ := q'
        simp only [labels, List.map_cons, List.cons.injEq] at hlabels
        obtain ⟨rfl, hlabels⟩ := hlabels
        have hl := hx l List.mem_cons_self
        have hrest := fun m hm => hx m (List.mem_cons_of_mem l hm)
        simp only [joined] at h
        -- the two cuts at the first label
        obtain ⟨rfl, hcut⟩ | ⟨u, rfl, hcut⟩ | ⟨u, rfl, hcut⟩ := hl.cuts h
        · exact eqvGen_below s l (ih p hrest p' rest' hlabels hcut)
        · refine eqvGen_of_behind (ih p hrest _ rest' hlabels ?_)
          rw [joined_append, joined_append]
          exact hcut
        · refine .symm _ _ (eqvGen_of_behind (.symm _ _ (ih _ hrest p' rest' hlabels ?_)))
          rw [joined_append, joined_append]
          exact hcut.symm
  · exact joined_eq_of_eqvGen

end Labelled

end OpenStandards.Lib

/-
Texts and their UTF-8 bytes. `fromUtf8?` reads back exactly the bytes of
a text (`fromUtf8?_eq_some_iff`); on bytes below 128 the characters and
the bytes correspond one to one (`map_ofByte_utf8`, `utf8_map_ofByte`),
which is all that codecs of digits and printable characters rest on.
-/
namespace OpenStandards.Lib.Text

def utf8 (s : Text) : List UInt8 := s.flatMap String.utf8EncodeChar

/-- The text of some bytes (`String::from_utf8`). -/
def fromUtf8? (bytes : List UInt8) : Option Text :=
  (String.fromUTF8? bytes.toByteArray).map String.toList

/-- The character of a byte (`char::from`). -/
def ofByte (b : UInt8) : Char := Char.ofNat b.toNat

def SevenBit (bytes : List UInt8) : Prop := ∀ b ∈ bytes, b < 128

@[simp]
theorem utf8_nil : utf8 [] = [] := rfl

@[simp]
theorem utf8_cons (c : Char) (s : Text) :
    utf8 (c :: s) = String.utf8EncodeChar c ++ utf8 s := rfl

theorem toByteArray_inj {bs cs : List UInt8} : bs.toByteArray = cs.toByteArray ↔ bs = cs := by
  constructor
  · intro h
    have hdata := congrArg (fun a : ByteArray => a.data.toList) h
    simpa only [List.toList_data_toByteArray] using hdata
  · exact congrArg _

variable {s : Text}

/-- Reading bytes as a text inverts writing one. -/
theorem fromUtf8?_eq_some_iff {bytes : List UInt8} :
    fromUtf8? bytes = some s ↔ utf8 s = bytes := by
  have hutf8 : ∀ t : Text, (utf8 t).toByteArray = (String.ofList t).toByteArray := fun t => by
    rw [String.toByteArray_ofList]
    rfl
  unfold fromUtf8? String.fromUTF8?
  constructor
  · intro h
    obtain ⟨str, hstr, rfl⟩ := Option.map_eq_some_iff.1 h
    split at hstr
    · next hvalid =>
        obtain rfl := Option.some.inj hstr
        rw [← toByteArray_inj, hutf8, String.ofList_toList]
        rfl
    · cases hstr
  · rintro rfl
    rw [hutf8, dif_pos (String.ofList s).isValidUTF8]
    exact congrArg some (String.toList_ofList)

-- ==== seven-bit characters

theorem toNat_ofByte {b : UInt8} (hb : b < 128) : (ofByte b).toNat = b.toNat := by
  have hlt : b.toNat < 128 := hb
  unfold ofByte Char.ofNat
  rw [dif_pos (Or.inl (by omega))]
  rfl

theorem utf8EncodeChar_ofByte {b : UInt8} (hb : b < 128) :
    String.utf8EncodeChar (ofByte b) = [b] := by
  have hval : (ofByte b).val.toNat = b.toNat := toNat_ofByte hb
  have hlt : b.toNat < 128 := hb
  unfold String.utf8EncodeChar
  simp only [hval]
  rw [if_pos (by omega), UInt8.ofNat_toNat]

/-- A character whose bytes are of seven bits is that of one such
byte. -/
theorem eq_ofByte_of_sevenBit {c : Char} (h : SevenBit (String.utf8EncodeChar c)) :
    ∃ b, b < 128 ∧ c = ofByte b := by
  -- the first byte of a longer encoding has its high bit set
  have hsmall : c.toNat < 128 := by
    by_contra hbig
    have hbig : 128 ≤ c.val.toNat := not_lt.1 hbig
    have hfirst : ∀ n, 128 ≤ n → n < 256 → ¬ UInt8.ofNat n < 128 := by
      intro n hn hlt h128
      have hnat : (UInt8.ofNat n).toNat < 128 := h128
      rw [UInt8.toNat_ofNat', Nat.mod_eq_of_lt hlt] at hnat
      omega
    unfold String.utf8EncodeChar at h
    simp only at h
    rw [if_neg (by omega)] at h
    split at h
    · exact hfirst _ (by omega) (by omega) (h _ List.mem_cons_self)
    · split at h
      · exact hfirst _ (by omega) (by omega) (h _ List.mem_cons_self)
      · exact hfirst _ (by omega) (by omega) (h _ List.mem_cons_self)
  have hnat : (UInt8.ofNat c.toNat).toNat = c.toNat := by
    rw [UInt8.toNat_ofNat', Nat.mod_eq_of_lt (by omega)]
  refine ⟨UInt8.ofNat c.toNat, ?_, ?_⟩
  · show (UInt8.ofNat c.toNat).toNat < 128
    rw [hnat]
    exact hsmall
  · rw [ofByte, hnat, Char.ofNat_toNat]

theorem map_ofByte_utf8 (h : SevenBit (utf8 s)) : (utf8 s).map ofByte = s := by
  induction s with
  | nil => rfl
  | cons c s ih =>
    have hc : SevenBit (String.utf8EncodeChar c) := fun b hb =>
      h b (List.mem_append_left _ hb)
    have hs := ih fun b hb => h b (List.mem_append_right _ hb)
    obtain ⟨b, hb, rfl⟩ := eq_ofByte_of_sevenBit hc
    rw [utf8_cons, utf8EncodeChar_ofByte hb, List.singleton_append, List.map_cons, hs]

theorem utf8_map_ofByte {bytes : List UInt8} (h : SevenBit bytes) :
    utf8 (bytes.map ofByte) = bytes := by
  induction bytes with
  | nil => rfl
  | cons b bytes ih =>
    rw [List.map_cons, utf8_cons,
      utf8EncodeChar_ofByte (h b List.mem_cons_self),
      ih fun d hd => h d (List.mem_cons_of_mem _ hd)]
    rfl

theorem utf8_append (s t : Text) : utf8 (s ++ t) = utf8 s ++ utf8 t :=
  List.flatMap_append ..

/-- A text whose bytes begin with those of another begins with it. -/
theorem prefix_of_utf8 {t : Text} {rest : List UInt8}
    (h : utf8 s ++ rest = utf8 t) : ∃ more, t = s ++ more := by
  have hbytes : s.utf8Encode ++ rest.toByteArray = t.utf8Encode := by
    unfold List.utf8Encode
    rw [← List.toByteArray_append]
    exact congrArg List.toByteArray h
  obtain ⟨more, hmore⟩ :=
    List.isPrefix_of_utf8Encode_append_eq_utf8Encode _ hbytes
  exact ⟨more, hmore.symm⟩

end OpenStandards.Lib.Text

/-
A camt.053 file tells the statement it was made from.

Every value stands between two tags, and the texts the writer does not make
itself are escaped, so no value holds the character a tag begins with: two
files are equal exactly if they are value by value, and no text can pass for
a tag or for another entry. What a file does not tell of a line is its id,
its metadata, and the sign of an amount that the kind decides.
-/
import OpenStandards.OpStatements.Proofs.Periods

namespace OpenStandards.OpStatements

open Lib OpCore

-- ==== values

/-- The text behind the entities of `xmlEscape`. -/
def unescape : Text → Text
  | '&' :: 'a' :: 'm' :: 'p' :: ';' :: s => '&' :: unescape s
  | '&' :: 'l' :: 't' :: ';' :: s => '<' :: unescape s
  | '&' :: 'g' :: 't' :: ';' :: s => '>' :: unescape s
  | '&' :: 'q' :: 'u' :: 'o' :: 't' :: ';' :: s => '"' :: unescape s
  | '&' :: 'a' :: 'p' :: 'o' :: 's' :: ';' :: s => '\'' :: unescape s
  | c :: s => c :: unescape s
  | [] => []

theorem unescape_cons {c : Char} (hc : c ≠ '&') (s : Text) :
    unescape (c :: s) = c :: unescape s := by
  conv_lhs => unfold unescape
  split <;> simp_all

theorem unescape_xmlEscape (s : Text) : unescape (xmlEscape s) = s := by
  induction s with
  | nil => rfl
  | cons c s ih =>
    unfold xmlEscape at ih ⊢
    rw [List.flatMap_cons]
    split
    case h_6 hamp _ _ _ _ =>
      rw [List.singleton_append, unescape_cons hamp, ih]
    all_goals exact congrArg _ ih

theorem tagless_xmlEscape (s : Text) : '<' ∉ xmlEscape s := by
  unfold xmlEscape
  rw [List.mem_flatMap]
  rintro ⟨c, -, hc⟩
  split at hc
  case h_6 hlt _ _ _ => exact hlt (List.mem_singleton.1 hc).symm
  all_goals exact absurd hc (by decide)

theorem tagless_zeroPad (w n : Nat) : '<' ∉ Text.zeroPad w n :=
  fun h => absurd (Text.isDigit_zeroPad h) (by decide)

theorem tagless_signedText (x : Int) : '<' ∉ signedText x := by
  have hdigits : '<' ∉ Nat.toDigits 10 x.natAbs :=
    fun h => absurd (Text.isDigit_toDigits h) (by decide)
  unfold signedText
  split
  · exact List.not_mem_cons_of_ne_of_not_mem (by decide) hdigits
  · exact hdigits

theorem tagless_formatMinor (x : I64) (k : Nat) : '<' ∉ formatMinor x k := by
  unfold formatMinor formatAmount
  split
  · exact tagless_signedText _
  · simp [tagless_signedText, tagless_zeroPad]

theorem tagless_unixToIso8601 (t : Nat) : '<' ∉ unixToIso8601 t := by
  obtain ⟨m, hm, -⟩ := exists_moment t
  rw [hm]
  unfold Moment.text
  simp [tagless_zeroPad]

theorem unixToIso8601_inj {t t' : Nat} : unixToIso8601 t = unixToIso8601 t' ↔ t = t' := by
  refine ⟨fun h => ?_, congrArg _⟩
  obtain ⟨m, hm, hsecs, hyear⟩ := exists_moment t
  obtain ⟨m', hm', hsecs', hyear'⟩ := exists_moment t'
  rw [hm, hm'] at h
  have := Moment.text_injective hyear hyear' h
  omega

theorem tagless_debug (k : StatementLineKind) : '<' ∉ k.debug := by
  cases k <;> decide

theorem tagless_text (c : CreditDebit) : '<' ∉ c.text := by
  cases c <;> decide

theorem StatementLineKind.debug_inj {k k' : StatementLineKind} :
    k.debug = k'.debug ↔ k = k' := by
  cases k <;> cases k' <;> decide

theorem CreditDebit.text_inj {c c' : CreditDebit} : c.text = c'.text ↔ c = c' := by
  cases c <;> cases c' <;> decide

-- ==== amounts

theorem display_eq_formatMinor (m : Money) :
    m.display = formatMinor m.minorUnits m.currency.exponent
      ++ ' ' :: m.currency.code.toList := by
  unfold Money.display formatMinor formatAmount
  split
  · rfl
  · simp only [List.append_assoc, List.cons_append, List.nil_append]
    rfl

theorem abs_cases (a : I64) :
    a = I64.minValue ∧ a.abs = I64.minValue ∨ a.abs.val = a.val.natAbs := by
  by_cases h : a = I64.minValue
  · subst h
    exact Or.inl ⟨rfl, rfl⟩
  · exact Or.inr (I64.val_abs h)

/-- The one magnitude that is negative is whole units of every currency. -/
theorem not_fractional_abs (a : I64) (c : Currency) :
    ¬ (Money.fromMinor a.abs c).Fractional := by
  have hpow : (10 : Int) ^ c.exponent ≤ 10 ^ 4 :=
    pow_le_pow_right₀ (by decide) c.exponent_le
  rintro ⟨hlow, hneg⟩
  change -10 ^ c.exponent < a.abs.val at hlow
  change a.abs.val < 0 at hneg
  rcases abs_cases a with ⟨-, habs⟩ | habs
  · rw [habs] at hlow
    change _ < (-9223372036854775808 : Int) at hlow
    omega
  · omega

theorem formatMinor_abs_inj {c c' : Currency} {a b : I64} (hcode : c.code = c'.code)
    (h : formatMinor a.abs c.exponent = formatMinor b.abs c'.exponent) :
    c = c' ∧ a.abs = b.abs := by
  obtain ⟨t, ht, hread⟩ := Money.readNumeral_display (.fromMinor a.abs c)
  obtain ⟨t', ht', hread'⟩ := Money.readNumeral_display (.fromMinor b.abs c')
  rw [display_eq_formatMinor] at ht ht'
  have hsame : t = t' := (List.append_cancel_right ht).symm.trans
    (h.trans (List.append_cancel_right ht'))
  rw [hsame, hread'] at hread
  obtain ⟨hshown, hexp⟩ := Numeral.mk.inj (Option.some.inj hread)
  rw [Money.shown_eq_iff.2 (not_fractional_abs a c),
    Money.shown_eq_iff.2 (not_fractional_abs b c')] at hshown
  exact ⟨Currency.ext_code hcode hexp.symm, I64.ext hshown.symm⟩

/-- The magnitude and the sign are the amount. -/
theorem abs_sign_inj {a b : I64} (h : a.abs = b.abs) (hs : a.val < 0 ↔ b.val < 0) : a = b := by
  have hmin : I64.minValue.val = -9223372036854775808 := rfl
  have hval := congrArg I64.val h
  rcases abs_cases a with ⟨rfl, ha⟩ | ha <;>
    rcases abs_cases b with ⟨rfl, hb⟩ | hb
  · rfl
  all_goals
    rw [ha, hb] at hval
    apply I64.ext
    omega

-- ==== elements

namespace Camt053

variable {a b x y : Text} {l l' : StatementLine} {m m' : Money}

theorem element_append (indent : Nat) (name : String) (content x : Text) :
    element indent name content ++ x
      = List.replicate indent ' ' ++ '<' :: (name.toList ++ '>' :: (content
        ++ '<' :: '/' :: (name.toList ++ '>' :: x))) := by
  show (_ ++ "</".toList ++ _ ++ _) ++ x = _
  simp only [List.append_assoc]
  rfl

theorem amountElement_append (c : Currency) (amount x : Text) :
    amountElement c amount ++ x
      = "        <Amt Ccy=\"".toList ++ (c.code.toList ++ ("\">".toList
        ++ (amount ++ '<' :: ("/Amt>".toList ++ x)))) := by
  unfold amountElement
  simp only [List.append_assoc]
  rfl

/-- A value ends where the next tag begins. -/
theorem value_inj (ha : '<' ∉ a) (hb : '<' ∉ b) :
    a ++ '<' :: x = b ++ '<' :: y ↔ a = b ∧ x = y := by
  constructor
  · exact Labelled.cut_at_first ha hb
  · rintro ⟨rfl, rfl⟩
    rfl

theorem element_inj (indent : Nat) (name : String) (ha : '<' ∉ a) (hb : '<' ∉ b) :
    element indent name a ++ x = element indent name b ++ y ↔ a = b ∧ x = y := by
  rw [element_append, element_append]
  simp only [List.append_cancel_left_eq, List.cons.injEq, true_and, value_inj ha hb]

/-- An element of one element. -/
theorem nested_inj (outer inner : String) (ha : '<' ∉ a) (hb : '<' ∉ b) :
    element 8 outer (element 0 inner a) ++ x = element 8 outer (element 0 inner b) ++ y
      ↔ a = b ∧ x = y := by
  rw [element_append 8, element_append 8]
  simp only [List.append_cancel_left_eq, List.cons.injEq, true_and, element_inj 0 inner ha hb]

theorem amountElement_inj {c c' : Currency} {a b : I64} :
    amountElement c (formatMinor a.abs c.exponent) ++ x
        = amountElement c' (formatMinor b.abs c'.exponent) ++ y
      ↔ (c = c' ∧ a.abs = b.abs) ∧ x = y := by
  rw [amountElement_append, amountElement_append, List.append_cancel_left_eq]
  constructor
  · intro h
    obtain ⟨hcode, h⟩ := List.append_inj h (by simp)
    rw [List.append_cancel_left_eq, value_inj (tagless_formatMinor _ _)
      (tagless_formatMinor _ _), List.append_cancel_left_eq] at h
    exact ⟨formatMinor_abs_inj (String.toList_inj.1 hcode) h.1, h.2⟩
  · rintro ⟨⟨rfl, h⟩, rfl⟩
    rw [h]

-- ==== balances and entries

theorem writeBalance_inj (typeCode : String) :
    Text.unlines (writeBalance typeCode m) ++ x = Text.unlines (writeBalance typeCode m') ++ y
      ↔ m = m' ∧ x = y := by
  have hsign : ∀ m : Money, (if m.minorUnits.val < 0 then
      CreditDebit.DBIT.text else CreditDebit.CRDT.text)
      = (if m.minorUnits.val < 0 then CreditDebit.DBIT
        else CreditDebit.CRDT).text := fun m => (apply_ite ..).symm
  unfold writeBalance
  simp only [Text.unlines_cons, List.append_assoc, List.cons_append,
    List.append_cancel_left_eq, List.cons.injEq, true_and, hsign,
    amountElement_inj, element_inj _ _ (tagless_text _) (tagless_text _),
    CreditDebit.text_inj]
  constructor
  · rintro ⟨⟨hc, habs⟩, hmark, hrest⟩
    refine ⟨?_, hrest⟩
    have hneg : m.minorUnits.val < 0 ↔ m'.minorUnits.val < 0 := by
      split at hmark <;> split at hmark <;> first | omega | cases hmark
    obtain ⟨minor, c⟩ := m
    obtain ⟨minor', c'⟩ := m'
    obtain rfl : c = c' := hc
    obtain rfl : minor = minor' := abs_sign_inj habs hneg
    rfl
  · rintro ⟨rfl, rfl⟩
    exact ⟨⟨rfl, rfl⟩, rfl, rfl⟩

/-- What an entry tells of its line. -/
def told (l : StatementLine) :
    Option String × Currency × I64 × Bool × Nat × StatementLineKind :=
  (l.externalId, l.amount.currency, l.amount.minorUnits.abs, l.isDebit,
    l.postedAtUnixSecs, l.kind)

theorem ref_ne_amount {c : Currency} : element 8 "NtryRef" a ++ x ≠ amountElement c b ++ y := by
  rw [element_append, amountElement_append]
  intro h
  have h9 : some 'N' = some 'A' := congrArg (fun t : Text => t[9]?) h
  exact absurd h9 (by decide)

theorem xmlEscape_inj {r r' : String} : xmlEscape r.toList = xmlEscape r'.toList ↔ r = r' := by
  refine ⟨fun h => ?_, fun h => h ▸ rfl⟩
  rw [← String.toList_inj, ← unescape_xmlEscape r.toList, h, unescape_xmlEscape]

theorem tagless_code (c : Currency) : '<' ∉ c.code.toList := by
  have hupper := c.code_upper
  rw [Currency.toList_code]
  intro h
  simp only [List.mem_cons, List.not_mem_nil, or_false] at h
  rcases h with h | h | h <;> simp [← h, isCodeByte] at hupper

theorem mark_inj {d d' : Bool} :
    (if d then CreditDebit.DBIT else .CRDT) = (if d' then .DBIT else .CRDT) ↔ d = d' := by
  cases d <;> cases d' <;> decide

theorem entry_inj :
    Text.unlines (entry l).lines ++ x = Text.unlines (entry l').lines ++ y
      ↔ told l = told l' ∧ x = y := by
  unfold Entry.lines entry told
  cases l.externalId <;> cases l'.externalId
  all_goals
    simp only [Option.map_none, Option.map_some, List.cons_append,
      List.nil_append, Text.unlines_cons, List.append_assoc,
      List.append_cancel_left_eq, List.cons.injEq, true_and,
      ref_ne_amount, ref_ne_amount.symm, amountElement_inj,
      element_inj _ _ (tagless_text _) (tagless_text _),
      element_inj _ _ (tagless_debug _) (tagless_debug _),
      element_inj _ _ (tagless_xmlEscape _) (tagless_xmlEscape _),
      nested_inj _ _ (tagless_unixToIso8601 _) (tagless_unixToIso8601 _),
      CreditDebit.text_inj, unixToIso8601_inj, xmlEscape_inj, mark_inj,
      StatementLineKind.debug_inj, Prod.mk.injEq, Option.some.injEq,
      reduceCtorEq, false_and, and_assoc, and_self_left]

/-- An entry is not the end of the statement. -/
theorem entry_ne_end : Text.unlines (entry l).lines ++ x ≠ "    </Stmt>".toList ++ y := by
  intro h
  have h4 : some ' ' = some '<' := congrArg (fun t : Text => t[4]?) h
  exact absurd h4 (by decide)

theorem unlines_entries_cons (l : StatementLine) (ls : List StatementLine) :
    Text.unlines (((l :: ls).map entry).flatMap Entry.lines) ++ x
      = Text.unlines (entry l).lines
        ++ (Text.unlines ((ls.map entry).flatMap Entry.lines) ++ x) := by
  rw [List.map_cons, List.flatMap_cons, Text.unlines_append, List.append_assoc]

theorem entries_inj (ls ls' : List StatementLine) :
    Text.unlines ((ls.map entry).flatMap Entry.lines) ++ ("    </Stmt>".toList ++ x)
        = Text.unlines ((ls'.map entry).flatMap Entry.lines) ++ ("    </Stmt>".toList ++ x)
      ↔ ls.map told = ls'.map told := by
  induction ls generalizing ls' with
  | nil =>
    cases ls' with
    | nil => exact iff_of_true rfl rfl
    | cons l' ls' =>
      rw [unlines_entries_cons]
      exact iff_of_false entry_ne_end.symm nofun
  | cons l ls ih =>
    cases ls' with
    | nil =>
      rw [unlines_entries_cons]
      exact iff_of_false entry_ne_end nofun
    | cons l' ls' =>
      rw [unlines_entries_cons, unlines_entries_cons, entry_inj, ih,
        List.map_cons, List.map_cons, List.cons.injEq]

/-- **What a camt.053 file tells.** Two statements are written as the same
file exactly if they agree in their ids, their merchants, their periods,
the code of the primary currency, both balances of its aggregate, and what
their lines tell, in order: the external id, the currency, the magnitude of
the amount, the side, the time and the kind. -/
theorem build_eq_iff (s s' : Statement) :
    build s = build s' ↔ s.id = s'.id ∧ s.merchantId = s'.merchantId
      ∧ s.period = s'.period
      ∧ s.primaryCurrency.code = s'.primaryCurrency.code
      ∧ s.primaryAggregate.opening = s'.primaryAggregate.opening
      ∧ s.primaryAggregate.ending = s'.primaryAggregate.ending
      ∧ s.lines.map told = s'.lines.map told := by
  unfold build entries
  simp only [Text.unlines_append, Text.unlines_cons, List.append_assoc,
    List.cons_append, List.nil_append, List.append_cancel_left_eq,
    List.cons.injEq, true_and, xmlEscape_inj, unixToIso8601_inj,
    element_inj _ _ (tagless_xmlEscape _) (tagless_xmlEscape _),
    element_inj _ _ (tagless_unixToIso8601 _) (tagless_unixToIso8601 _),
    element_inj _ _ (tagless_code _) (tagless_code _), String.toList_inj,
    writeBalance_inj, entries_inj]
  constructor
  · rintro ⟨hid, hend, -, -, hstart, -, hmerchant, hrest⟩
    exact ⟨hid, hmerchant, congrArg₂ Period.mk hstart hend, hrest⟩
  · rintro ⟨hid, hmerchant, hperiod, hrest⟩
    rw [hperiod]
    exact ⟨hid, rfl, hid, rfl, rfl, rfl, hmerchant, hrest⟩

end Camt053

end OpenStandards.OpStatements

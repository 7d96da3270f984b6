/-
What the fixed-width formats of op-batch share: the crate's errors, the
padding of a text to its columns, and the arithmetic of the control
totals.

Cutting a text off a character boundary panics, and so do `u32` counters
that overflow; a total that overflows `u64` is an error of op-core. A
byte of a line read as a character is the character of that code.
-/
import OpenStandards.Lib.Lines
import OpenStandards.OpCore.Money

namespace OpenStandards.OpBatch

open Lib OpCore Text

/-- The errors of the crate that its record formats return. -/
inductive Error where
  | invalid (msg : String)
  | recordLength (expected got : Nat)
  | fieldRule (field reason : String)
  | core (e : CoreError)
deriving DecidableEq

/-- `Err(Error::FieldRule { field, reason })`. -/
def fieldRule (field reason : String) : Fault Error :=
  .err (.fieldRule field reason)

/-- `Err(Error::Invalid(msg))`. -/
def invalid (msg : String) : Fault Error := .err (.invalid msg)

/-- A text in a column of `width` bytes, cut or padded with spaces. -/
def pad (s : Text) (width : Nat) : Except (Fault Error) Text :=
  if width ≤ s.byteLen then
    match takeBytes width s with
    | some t => .ok t
    | none => .error .panic
  else .ok (padRight width s)

/-- `a + b` of two `u32`. -/
def addU32 (a b : Nat) : Except (Fault Error) Nat :=
  if a + b < 2 ^ 32 then .ok (a + b) else .error .panic

/-- `a.checked_add(b).ok_or(Overflow)` of two `u64`. -/
def checkedAdd (a b : Nat) : Except (Fault Error) Nat :=
  if a + b < 2 ^ 64 then .ok (a + b) else .error (.err (.core .overflow))

/-- `u32::try_from(n)`. -/
def tryU32 (n : Nat) (msg : String) : Except (Fault Error) Nat :=
  if n < 2 ^ 32 then .ok n else .error (invalid msg)

/-- `s.parse()` of an unsigned integer below `bound`, in the field of a
record. -/
def parseField (bound : Nat) (field : String) (s : Text) : Except (Fault Error) Nat :=
  match parseUnsigned bound s with
  | some n => .ok n
  | none => .error (fieldRule field "not numeric")

/-- The text is `n` ASCII digits. -/
def Digits (n : Nat) (s : Text) : Prop :=
  s.byteLen = n ∧ ∀ c ∈ s, c.isDigit = true

instance (n : Nat) (s : Text) : Decidable (Digits n s) :=
  inferInstanceAs (Decidable (_ ∧ _))

/-- `line.as_bytes()[i] as char`. -/
def byteChar (i : Nat) (line : Text) : Except (Fault Error) Char :=
  match (line.flatMap String.utf8EncodeChar)[i]? with
  | some b => .ok (Char.ofNat b.toNat)
  | none => .error .panic

/-- `" ".repeat(n)`. -/
def spaces (n : Nat) : Text := List.replicate n ' '

/-
The columns of op-batch's fixed-width records: padding, slicing and
parsing them when their texts are printable ASCII.

`pad_of_printable` says what is written for a text, `byteChar_field` and
`parseField_zeroPad` what is read back from a column of one character and
from a number.
-/

-- ==== writing

def AllPrintable (texts : List Text) : Prop := ∀ s ∈ texts, PrintableText s

instance (texts : List Text) : Decidable (AllPrintable texts) :=
  inferInstanceAs (Decidable (∀ s ∈ texts, _))

variable {s : Text} {n : Nat}

theorem pad_of_printable (hs : PrintableText s) (w : Nat) : pad s w = .ok (cut w s) := by
  unfold pad
  rw [hs.length_eq]
  by_cases hle : w ≤ s.length
  · rw [if_pos hle, takeBytes_of_ascii hs.ascii hle, cut, padRight_of_length_le]
    rw [List.length_take, min_eq_left hle]
  · rw [if_neg hle, cut_of_le (Nat.le_of_not_le hle)]

theorem padRight_cut (w : Nat) (s : Text) : padRight w (cut w s) = cut w s :=
  padRight_of_length_le (Nat.le_of_eq (length_cut w s).symm)

theorem Digits.ascii (h : Digits n s) : Ascii s :=
  ascii_of_isDigit h.2

theorem Digits.length (h : Digits n s) : s.length = n :=
  ((byteLen_eq_length_iff s).2 h.ascii).symm.trans h.1

-- ==== arithmetic

theorem addU32_ok_iff {a b c : Nat} :
    addU32 a b = .ok c ↔ a + b < 2 ^ 32 ∧ c = a + b := ite_eq_ok

theorem checkedAdd_ok_iff {a b c : Nat} :
    checkedAdd a b = .ok c ↔ a + b < 2 ^ 64 ∧ c = a + b := ite_eq_ok

theorem tryU32_ok_iff {m : Nat} {msg : String} :
    tryU32 n msg = .ok m ↔ n < 2 ^ 32 ∧ m = n := ite_eq_ok

-- ==== reading

theorem slice_field {ws : List Nat} {fs : List Text}
    (h : List.Forall₂ Fills ws fs) (i : Nat) {lo hi : Nat} {f : Text}
    (hlo : (ws.take i).sum = lo) (hhi : (ws.take (i + 1)).sum = hi)
    (hf : fs[i]? = some f) :
    sliceText lo hi fs.flatten = (.ok f : Except (Fault Error) Text) :=
  sliceText_field h i hlo hhi hf

/-- The bytes of one-byte characters are their codes. -/
theorem flatMap_utf8EncodeChar (hs : Ascii s) :
    s.flatMap String.utf8EncodeChar = s.map fun c => UInt8.ofNat c.toNat := by
  induction s with
  | nil => rfl
  | cons c s ih =>
    rw [ascii_cons] at hs
    rw [List.flatMap_cons, ih hs.2, String.utf8EncodeChar_eq_singleton hs.1]
    rfl

theorem byteChar_of_ascii (hs : Ascii s) {i : Nat} {c : Char}
    (hc : s[i]? = some c) : byteChar i s = .ok c := by
  have hone := hs c (List.mem_of_getElem? hc)
  have hlt : c.toNat < 256 := by
    have := Char.utf8Size_eq_one_iff.1 hone
    have hle : c.toNat ≤ 127 := this
    omega
  rw [byteChar, flatMap_utf8EncodeChar hs, List.getElem?_map, hc]
  simp only [Option.map_some, UInt8.toNat_ofNat', Nat.mod_eq_of_lt hlt]
  exact congrArg Except.ok (Char.ofNat_toNat c)

theorem byteChar_field {ws : List Nat} {fs : List Text}
    (h : List.Forall₂ Fills ws fs) (i : Nat) {lo : Nat} {c : Char}
    (hlo : (ws.take i).sum = lo) (hw : ws[i]? = some 1)
    (hf : fs[i]? = some [c]) : byteChar lo fs.flatten = .ok c := by
  apply byteChar_of_ascii (ascii_flatten h)
  have hcol := column_flatten h hlo hw hf
  rw [column, List.take_one, List.head?_drop] at hcol
  cases hget : fs.flatten[lo]? with
  | none =>
    rw [hget] at hcol
    cases hcol
  | some d =>
    rw [hget] at hcol
    cases hcol
    rfl

theorem parseField_zeroPad {bound w : Nat} (hw : 0 < w) (hn : n < bound)
    (field : String) : parseField bound field (zeroPad w n) = .ok n := by
  have hne : zeroPad w n ≠ [] := by
    intro hnil
    have hle := le_length_zeroPad w n
    rw [hnil, List.length_nil] at hle
    omega
  have hlt : number (zeroPad w n) < bound := by rwa [number_zeroPad]
  have hparse := parseUnsigned_of_digits hne (fun _ hc => isDigit_zeroPad hc) hlt
  rw [parseField, hparse, number_zeroPad]

end OpenStandards.OpBatch

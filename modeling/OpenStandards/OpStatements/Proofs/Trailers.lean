/-
The trailers of a BAI2 file.

Each trailer carries a count and a control total. The writer computes the
counts from the number of lines by formulas, one for each level, and the
first of them is one too large: it counts the account identifier and the
account trailer as three. The two above it start from the first, so every
count is off, on every statement.
-/
import OpenStandards.OpStatements.Writers

namespace OpenStandards.OpStatements.Bai2

open Lib OpCore

-- ==== what is claimed

namespace Record

def accountCount : Record → Option Nat
  | .accountTrailer _ n => some n.toNat
  | _ => none

def groupCount : Record → Option Nat
  | .groupTrailer _ n => some n.toNat
  | _ => none

def fileCount : Record → Option Nat
  | .fileTrailer _ n => some n.toNat
  | _ => none

def control : Record → Option Int
  | .accountTrailer c _ | .groupTrailer c _ | .fileTrailer c _ => some c.val
  | _ => none

def amount : Record → Int
  | .transaction _ a _ => a.val
  | _ => 0

def code : Record → Nat
  | .fileHeader .. => 1
  | .groupHeader .. => 2
  | .account .. => 3
  | .transaction .. => 16
  | .accountTrailer .. => 49
  | .groupTrailer .. => 98
  | .fileTrailer .. => 99

end Record

def upTo (last : Nat) (rs : List Record) : Nat :=
  (rs.takeWhile fun r => decide (r.code ≠ last)).length + 1

/-- The number of records from the first with one code to the next with
another, both included. -/
def span (first last : Nat) (rs : List Record) : Nat :=
  upTo last (rs.dropWhile fun r => decide (r.code ≠ first))

def AccountCountTrue (rs : List Record) : Prop :=
  ∀ r ∈ rs, ∀ n ∈ r.accountCount, n = span 3 49 rs

def GroupCountTrue (rs : List Record) : Prop :=
  ∀ r ∈ rs, ∀ n ∈ r.groupCount, n = span 2 98 rs

def FileCountTrue (rs : List Record) : Prop :=
  ∀ r ∈ rs, ∀ n ∈ r.fileCount, n = rs.length

def ControlTotalsTrue (rs : List Record) : Prop :=
  ∀ r ∈ rs, ∀ c ∈ r.control, c = (rs.map Record.amount).sum

structure TrailersTrue (rs : List Record) : Prop where
  account : AccountCountTrue rs
  group : GroupCountTrue rs
  file : FileCountTrue rs
  control : ControlTotalsTrue rs

-- ==== the counts

theorem txCount_foldl (lines : List StatementLine) (t : Totals) :
    (lines.foldl Totals.add t).txCount.toNat
      = min (t.txCount.toNat + lines.length) 4294967295 := by
  induction lines generalizing t with
  | nil =>
    have := t.txCount.toNat_lt
    show t.txCount.toNat = min (t.txCount.toNat + 0) _
    omega
  | cons line lines ih =>
    rw [List.foldl_cons, ih]
    have hadd : (t.add line).txCount.toNat = min (t.txCount.toNat + 1) 4294967295 := by
      unfold Totals.add
      split
      all_goals exact saturatingAddU32_toNat t.txCount 1
    rw [hadd, List.length_cons]
    omega

section
variable {first last : Nat} {r : Record} {rs : List Record}

theorem upTo_cons_of_ne (h : r.code ≠ last) : upTo last (r :: rs) = upTo last rs + 1 := by
  unfold upTo
  rw [List.takeWhile_cons_of_pos (by simp [h]), List.length_cons]

theorem upTo_cons_of_eq (h : r.code = last) : upTo last (r :: rs) = 1 := by
  unfold upTo
  rw [List.takeWhile_cons_of_neg (by simp [h]), List.length_nil]

theorem span_cons_of_ne (h : r.code ≠ first) :
    span first last (r :: rs) = span first last rs := by
  unfold span
  rw [List.dropWhile_cons_of_pos (by simp [h])]

theorem span_cons_of_eq (h : r.code = first) :
    span first last (r :: rs) = upTo last (r :: rs) := by
  unfold span
  rw [List.dropWhile_cons_of_neg (by simp [h])]

theorem upTo_transactions (hlast : 16 ≠ last) (lines : List StatementLine) :
    upTo last (lines.map transaction ++ rs) = lines.length + upTo last rs := by
  induction lines with
  | nil => simp
  | cons line lines ih =>
    have hcode : (transaction line).code ≠ last := hlast
    rw [List.map_cons, List.cons_append, upTo_cons_of_ne hcode, ih, List.length_cons]
    omega

end

section
variable (w : Writer) (s : Statement)

def totals : Totals := s.lines.foldl Totals.add ⟨0, 0, 0⟩

def controlTotal : I64 := (totals s).credits.saturatingAdd (totals s).debits

theorem records_eq :
    ∃ sender receiver yymmdd hhmm opening closing, records w s
      = .fileHeader sender receiver yymmdd hhmm
        :: .groupHeader receiver sender yymmdd hhmm s.primaryCurrency
        :: .account s.merchantId.toList s.primaryCurrency opening closing
        :: (s.lines.map transaction
          ++ [.accountTrailer (controlTotal s) (3 + (totals s).txCount),
            .groupTrailer (controlTotal s) (3 + (totals s).txCount + 2),
            .fileTrailer (controlTotal s) (3 + (totals s).txCount + 4)]) :=
  ⟨_, _, _, _, _, _, rfl⟩

theorem length_records : (records w s).length = s.lines.length + 6 := by
  rcases records_eq w s with ⟨_, _, _, _, _, _, heq⟩
  rw [heq]
  simp

theorem span_account : span 3 49 (records w s) = s.lines.length + 2 := by
  rcases records_eq w s with ⟨_, _, _, _, _, _, heq⟩
  rw [heq, span_cons_of_ne, span_cons_of_ne, span_cons_of_eq,
    upTo_cons_of_ne, upTo_transactions, upTo_cons_of_eq]
  all_goals simp [Record.code]

theorem span_group : span 2 98 (records w s) = s.lines.length + 4 := by
  rcases records_eq w s with ⟨_, _, _, _, _, _, heq⟩
  rw [heq, span_cons_of_ne, span_cons_of_eq, upTo_cons_of_ne,
    upTo_cons_of_ne, upTo_transactions, upTo_cons_of_ne, upTo_cons_of_eq]
  all_goals simp [Record.code]

/-- A count that starts one too large is not the number of records, with
or without overflow. -/
theorem count_ne {x : UInt32} {n k : Nat} (hk : k < 8)
    (hx : x.toNat = (min n 4294967295 + (k + 1)) % 4294967296) :
    x.toNat ≠ n + k := by
  have := x.toNat_lt
  omega

theorem toNat_accountRecords :
    (3 + (totals s).txCount).toNat = (min s.lines.length 4294967295 + 3) % 4294967296 := by
  have hcount : (totals s).txCount.toNat
      = min (0 + s.lines.length) 4294967295 := txCount_foldl s.lines _
  rw [UInt32.toNat_add, hcount, Nat.zero_add]
  show (3 + _) % 4294967296 = _
  rw [Nat.add_comm]

theorem toNat_accountRecords_add (k : UInt32) :
    (3 + (totals s).txCount + k).toNat
      = (min s.lines.length 4294967295 + (3 + k.toNat)) % 4294967296 := by
  rw [UInt32.toNat_add, toNat_accountRecords]
  omega

/-- No count of any file is true; and the lines of the text are the records,
where no identifier puts a line feed into one. -/
theorem trailers_false :
    (¬ AccountCountTrue (records w s) ∧ ¬ GroupCountTrue (records w s)
      ∧ ¬ FileCountTrue (records w s) ∧ ¬ TrailersTrue (records w s))
      ∧ ((∀ r ∈ records w s, '\n' ∉ r.text) →
        (build w s).splitOn '\n' = (records w s).map Record.text ++ [[]]) := by
  rcases records_eq w s with ⟨_, _, _, _, _, _, heq⟩
  have haccount : ¬ AccountCountTrue (records w s) := by
    intro h
    have hmem : Record.accountTrailer (controlTotal s)
        (3 + (totals s).txCount) ∈ records w s := by
      rw [heq]
      simp
    have hcount := h _ hmem _ rfl
    rw [span_account] at hcount
    exact count_ne (by decide) (toNat_accountRecords s) hcount
  have hgroup : ¬ GroupCountTrue (records w s) := by
    intro h
    have hmem : Record.groupTrailer (controlTotal s)
        (3 + (totals s).txCount + 2) ∈ records w s := by
      rw [heq]
      simp
    have hcount := h _ hmem _ rfl
    rw [span_group] at hcount
    exact count_ne (by decide) (toNat_accountRecords_add s 2) hcount
  have hfile : ¬ FileCountTrue (records w s) := by
    intro h
    have hmem : Record.fileTrailer (controlTotal s)
        (3 + (totals s).txCount + 4) ∈ records w s := by
      rw [heq]
      simp
    have hcount := h _ hmem _ rfl
    rw [length_records] at hcount
    exact count_ne (by decide) (toNat_accountRecords_add s 4) hcount
  refine ⟨⟨haccount, hgroup, hfile, fun h => haccount h.account⟩, fun h => ?_⟩
  exact Text.splitOn_unlines (List.forall_mem_map.2 h)

end

def capture : StatementLine :=
  .new "l1" .grossCapture ⟨10000, .USD⟩ 42

def oneCapture : Statement where
  id := "STMT-1"
  merchantId := "MRCH-1"
  period := ⟨0, 86399⟩
  primaryCurrency := .USD
  lines := [capture]
  aggregates := [.zero .USD]

/-- Its account trailer says four, and there are three records. -/
theorem oneCapture_false : ¬ TrailersTrue (records ⟨[], []⟩ oneCapture) := by
  intro h
  have hmem : Record.accountTrailer ⟨10000, by decide⟩ 4 ∈ records ⟨[], []⟩ oneCapture := by
    decide +kernel
  have hcount := h.account _ hmem 4 rfl
  have hspan : span 3 49 (records ⟨[], []⟩ oneCapture) = 3 := by
    decide +kernel
  rw [hspan] at hcount
  cases hcount

end OpenStandards.OpStatements.Bai2

/-
Fixed-width arithmetic as the standard library of the source language
documents it: a signed value is an integer together with the proof that
it fits, `checked_*` answers nothing where the exact result does not
fit, `saturating_*` answers the nearest bound. Unsigned words are
`UInt64`, whose own operators wrap. The spec lemmas speak of the exact
integers (`val`), so a proof about a checked loop is about a sum in `Int`.
-/
import Mathlib.Algebra.BigOperators.Group.Multiset.Basic
import Mathlib.Algebra.Ring.Int.Defs
import Mathlib.Algebra.Order.BigOperators.Group.List

namespace OpenStandards.Lib

-- ==== the width

/-- The range of a 64-bit two's-complement integer. -/
def InI64 (x : Int) : Prop :=
  -9223372036854775808 ≤ x ∧ x ≤ 9223372036854775807

instance : DecidablePred InI64 := fun _ =>
  inferInstanceAs (Decidable (_ ∧ _))

/-- A 64-bit signed integer: the integer and the proof that it fits. -/
structure I64 where
  val : Int
  inRange : InI64 val
deriving DecidableEq

namespace I64

variable {a b r : I64} {x : Int}

@[ext]
theorem ext (h : a.val = b.val) : a = b := by
  cases a
  cases b
  cases h
  rfl

instance : Zero I64 := ⟨⟨0, by decide⟩⟩

@[simp]
theorem val_zero : (0 : I64).val = 0 := rfl

/-- The integer as a 64-bit value, where it fits. -/
def ofInt? (x : Int) : Option I64 :=
  if h : InI64 x then some ⟨x, h⟩ else none

/-- A literal of the source, which its compiler refuses out of range. -/
instance {n : Nat} : OfNat I64 (n + 2) := ⟨(ofInt? ↑(n + 2)).getD 0⟩

def checkedAdd (a b : I64) : Option I64 := ofInt? (a.val + b.val)

def checkedSub (a b : I64) : Option I64 := ofInt? (a.val - b.val)

def saturatingSub (a b : I64) : I64 :=
  if h : InI64 (a.val - b.val) then ⟨a.val - b.val, h⟩
  else if a.val - b.val < 0 then ⟨-9223372036854775808, by decide⟩
  else ⟨9223372036854775807, by decide⟩

def saturatingAdd (a b : I64) : I64 :=
  if h : InI64 (a.val + b.val) then ⟨a.val + b.val, h⟩
  else if a.val + b.val < 0 then ⟨-9223372036854775808, by decide⟩
  else ⟨9223372036854775807, by decide⟩

/-- `i64::MAX` -/
def maxValue : I64 := ⟨9223372036854775807, by decide⟩

/-- `i64::MIN` -/
def minValue : I64 := ⟨-9223372036854775808, by decide⟩

/-- `i64::abs`, whose only overflow wraps to the operand. -/
def abs (a : I64) : I64 :=
  if h : InI64 a.val.natAbs then ⟨a.val.natAbs, h⟩ else a

/-- `i64::abs` with overflow checks: nothing where it panics. -/
def checkedAbs (a : I64) : Option I64 := ofInt? a.val.natAbs

/-- The 64-bit value an integer wraps to. -/
def wrap (x : Int) : I64 :=
  ⟨x.bmod 18446744073709551616, by
    have hlo := Int.le_bmod (x := x) (m := 18446744073709551616) (by decide)
    have hhi := Int.bmod_lt (x := x) (m := 18446744073709551616) (by decide)
    unfold InI64
    omega⟩

/-- The plain `+`, which wraps. -/
def wrappingAdd (a b : I64) : I64 := wrap (a.val + b.val)

/-- The plain `-`, which wraps. -/
def wrappingSub (a b : I64) : I64 := wrap (a.val - b.val)

/-- The unary `-`, which wraps. -/
def wrappingNeg (a : I64) : I64 := wrap (-a.val)

-- ==== the specs

theorem ofInt?_eq_some : ofInt? x = some r ↔ r.val = x := by
  unfold ofInt?
  split
  case isTrue h =>
    rw [Option.some.injEq]
    constructor
    · rintro rfl
      rfl
    · intro hr
      exact ext hr.symm
  case isFalse h =>
    constructor
    · intro hr
      cases hr
    · rintro rfl
      exact absurd r.inRange h

theorem ofInt?_eq_none : ofInt? x = none ↔ ¬ InI64 x := by
  unfold ofInt?
  split <;> simp_all

theorem checkedAdd_eq_some : checkedAdd a b = some r ↔ r.val = a.val + b.val := ofInt?_eq_some

theorem checkedSub_eq_some : checkedSub a b = some r ↔ r.val = a.val - b.val := ofInt?_eq_some

/-- Saturation changes nothing where the exact result fits. -/
theorem saturatingSub_of_checkedSub (h : checkedSub a b = some r) : saturatingSub a b = r := by
  have hr := checkedSub_eq_some.1 h
  unfold saturatingSub
  rw [dif_pos (by rw [← hr]; exact r.inRange)]
  exact ext hr.symm

theorem val_saturatingSub (h : InI64 (a.val - b.val)) :
    (saturatingSub a b).val = a.val - b.val := by
  unfold saturatingSub
  rw [dif_pos h]

theorem val_saturatingAdd (h : InI64 (a.val + b.val)) :
    (saturatingAdd a b).val = a.val + b.val := by
  unfold saturatingAdd
  rw [dif_pos h]

-- ==== wrapping

theorem val_wrap (h : InI64 x) : (wrap x).val = x := by
  unfold InI64 at h
  apply Int.bmod_eq_of_le
  · omega
  · omega

theorem wrap_val (a : I64) : wrap a.val = a := ext (val_wrap a.inRange)

/-- Addition does not care when its operands wrap. -/
theorem wrappingAdd_wrap (x y : Int) : wrappingAdd (wrap x) (wrap y) = wrap (x + y) := by
  apply ext
  show Int.bmod (Int.bmod x _ + Int.bmod y _) _ = _
  rw [Int.bmod_add_bmod, Int.add_bmod_bmod]
  rfl

/-- A wrapped difference vanishes only between equals. -/
theorem wrappingSub_eq_zero : wrappingSub a b = 0 ↔ a = b := by
  have ha := a.inRange
  have hb := b.inRange
  unfold InI64 at ha hb
  constructor
  · intro h
    have hval : (a.val - b.val).bmod 18446744073709551616 = 0 :=
      congrArg I64.val h
    obtain ⟨k, hk⟩ := Int.dvd_of_bmod_eq_zero hval
    apply ext
    omega
  · intro h
    subst h
    apply ext
    show Int.bmod (a.val - a.val) _ = 0
    rw [Int.sub_self]
    rfl

theorem abs_eq_wrap (a : I64) : a.abs = wrap a.val.natAbs := by
  have hrange := a.inRange
  unfold InI64 at hrange
  unfold abs
  split
  case isTrue h => exact ext (val_wrap h).symm
  case isFalse h =>
    -- the one operand without a magnitude in range
    have hval : a.val = -9223372036854775808 := by
      unfold InI64 at h
      omega
    apply ext
    rw [hval]
    rfl

/-- Every value but the least has a magnitude. -/
theorem val_abs (h : a ≠ minValue) : a.abs.val = a.val.natAbs := by
  have hrange := a.inRange
  have hval : a.val ≠ -9223372036854775808 := fun hval => h (ext hval)
  unfold InI64 at hrange
  unfold abs
  rw [dif_pos (by unfold InI64; omega)]

theorem checkedAbs_of_ne (h : a ≠ minValue) :
    a.checkedAbs = some a.abs := ofInt?_eq_some.2 (val_abs h)

theorem abs_of_nonneg (h : 0 ≤ a.val) : a.abs = a := by
  have hrange := a.inRange
  unfold InI64 at hrange
  apply ext
  unfold abs
  split
  case isTrue =>
    show (a.val.natAbs : Int) = a.val
    omega
  case isFalse => rfl

end I64

-- ==== unsigned words

/-- `u64::checked_add`. -/
def checkedAddU64 (a b : UInt64) : Option UInt64 :=
  if a.toNat + b.toNat < 18446744073709551616 then some (a + b) else none

theorem checkedAddU64_eq_some {a b r : UInt64} :
    checkedAddU64 a b = some r ↔ r.toNat = a.toNat + b.toNat := by
  unfold checkedAddU64
  have hr := r.toNat_lt
  split
  case isTrue h =>
    rw [Option.some.injEq, ← UInt64.toNat_inj, UInt64.toNat_add, Nat.mod_eq_of_lt h, eq_comm]
  case isFalse h =>
    constructor
    · intro hn
      cases hn
    · intro heq
      omega

/-- `u64::saturating_add`. -/
def saturatingAddU64 (a b : UInt64) : UInt64 :=
  if a.toNat + b.toNat < 18446744073709551616 then a + b
  else 18446744073709551615

theorem saturatingAddU64_toNat (a b : UInt64) :
    (saturatingAddU64 a b).toNat = min (a.toNat + b.toNat) 18446744073709551615 := by
  unfold saturatingAddU64
  split
  case isTrue h =>
    rw [UInt64.toNat_add, Nat.mod_eq_of_lt h]
    omega
  case isFalse h =>
    show 18446744073709551615 = _
    omega

/-- `u32::saturating_add`. -/
def saturatingAddU32 (a b : UInt32) : UInt32 :=
  if a.toNat + b.toNat < 4294967296 then a + b else 4294967295

theorem saturatingAddU32_toNat (a b : UInt32) :
    (saturatingAddU32 a b).toNat = min (a.toNat + b.toNat) 4294967295 := by
  unfold saturatingAddU32
  split
  case isTrue h =>
    rw [UInt32.toNat_add, Nat.mod_eq_of_lt h]
    omega
  case isFalse h =>
    show 4294967295 = _
    omega

/-
Finite sums over lists of integers: exchanging a double sum, and
summing an indicator over a list of distinct keys. A list is also the
sum of its groups by key.
-/

section

variable {α β κ : Type}

/-- The order of a double sum does not matter. -/
theorem sum_map_sum_comm (l : List α) (m : List β) (f : α → β → Int) :
    (l.map fun a => (m.map fun b => f a b).sum).sum
      = (m.map fun b => (l.map fun a => f a b).sum).sum := by
  have h := Multiset.sum_map_sum_map (l : Multiset α) (m : Multiset β) (f := f)
  simpa using h

/-- An indicator, summed over distinct keys, counts its key once. -/
theorem sum_map_ite_key [DecidableEq κ] {f : α → κ} (k : κ) (x : Int) :
    ∀ {l : List α}, (l.map f).Nodup →
      (l.map fun a => if f a = k then x else 0).sum = if k ∈ l.map f then x else 0 := by
  intro l
  induction l with
  | nil =>
    intro _
    rfl
  | cons a l ih =>
    intro hnd
    rw [List.map_cons, List.nodup_cons] at hnd
    rw [List.map_cons, List.sum_cons, ih hnd.2, List.map_cons]
    by_cases ha : f a = k
    · subst ha
      rw [if_pos rfl, if_neg hnd.1, if_pos List.mem_cons_self, add_zero]
    · rw [if_neg ha, zero_add]
      congr 1
      rw [List.mem_cons]
      simp [Ne.symm ha]

theorem flatMap_filter_perm [DecidableEq κ] {f : α → κ} :
    ∀ {keys : List κ} {l : List α}, keys.Nodup → (∀ a ∈ l, f a ∈ keys) →
      (keys.flatMap fun k => l.filter fun a => f a = k).Perm l := by
  intro keys
  induction keys with
  | nil =>
    intro l _ hall
    rw [List.eq_nil_iff_forall_not_mem.2 fun a ha => nomatch hall a ha]
    exact .refl _
  | cons k keys ih =>
    intro l hnd hall
    rw [List.nodup_cons] at hnd
    rw [List.flatMap_cons]
    -- the other groups are those of the other elements
    have hrest : (keys.flatMap fun k' => l.filter fun a => f a = k')
        = keys.flatMap fun k' =>
          (l.filter fun a => !decide (f a = k)).filter fun a => f a = k' := by
      refine List.flatMap_congr ?_
      intro k' hk'
      rw [List.filter_filter]
      refine List.filter_congr ?_
      intro a _
      by_cases ha : f a = k'
      · have hne : f a ≠ k := by
          rw [ha]
          rintro rfl
          exact hnd.1 hk'
        simp [ha, ha ▸ hne]
      · simp [ha]
    rw [hrest]
    refine ((ih hnd.2 ?_).append_left _).trans (List.filter_append_perm _ l)
    intro a ha
    obtain ⟨ha, hne⟩ := List.mem_filter.1 ha
    rcases List.mem_cons.1 (hall a ha) with hk | hk
    · simp [hk] at hne
    · exact hk

end

/-
Running totals of integers that may go up and down. What a total can
reach in some order of its terms is bounded by the sum of the terms that
go up and the sum of those that go down, and both bounds are reached:
by the orders that take the one kind first.
-/

def ups (xs : List Int) : Int := (xs.map fun x => max x 0).sum

def downs (xs : List Int) : Int := (xs.map fun x => min x 0).sum

@[simp] theorem ups_nil : ups [] = 0 := rfl

@[simp] theorem downs_nil : downs [] = 0 := rfl

@[simp]
theorem ups_cons (x : Int) (xs : List Int) : ups (x :: xs) = max x 0 + ups xs := rfl

@[simp]
theorem downs_cons (x : Int) (xs : List Int) : downs (x :: xs) = min x 0 + downs xs := rfl

@[simp]
theorem ups_append (xs ys : List Int) : ups (xs ++ ys) = ups xs + ups ys := by
  unfold ups
  rw [List.map_append, List.sum_append]

@[simp]
theorem downs_append (xs ys : List Int) : downs (xs ++ ys) = downs xs + downs ys := by
  unfold downs
  rw [List.map_append, List.sum_append]

theorem ups_nonneg (xs : List Int) : 0 ≤ ups xs := by
  induction xs with
  | nil => exact le_refl _
  | cons x xs ih =>
    rw [ups_cons]
    omega

theorem downs_nonpos (xs : List Int) : downs xs ≤ 0 := by
  induction xs with
  | nil => exact le_refl _
  | cons x xs ih =>
    rw [downs_cons]
    omega

variable {xs ys : List Int}

theorem ups_perm (h : xs.Perm ys) : ups xs = ups ys :=
  (h.map _).sum_eq

theorem downs_perm (h : xs.Perm ys) : downs xs = downs ys := (h.map _).sum_eq

theorem sum_eq_ups_add_downs (xs : List Int) : xs.sum = ups xs + downs xs := by
  induction xs with
  | nil => rfl
  | cons x xs ih =>
    rw [List.sum_cons, ups_cons, downs_cons, ih]
    omega

/-- The terms that go up, summed first. -/
theorem sum_filter_pos (xs : List Int) : (xs.filter fun x => 0 < x).sum = ups xs := by
  induction xs with
  | nil => rfl
  | cons x xs ih =>
    rw [ups_cons]
    by_cases hx : 0 < x
    · rw [List.filter_cons_of_pos (by simpa using hx), List.sum_cons, ih]
      omega
    · rw [List.filter_cons_of_neg (by simpa using hx), ih]
      omega

/-- The terms that go down, summed first. -/
theorem sum_filter_neg (xs : List Int) : (xs.filter fun x => x < 0).sum = downs xs := by
  induction xs with
  | nil => rfl
  | cons x xs ih =>
    rw [downs_cons]
    by_cases hx : x < 0
    · rw [List.filter_cons_of_pos (by simpa using hx), List.sum_cons, ih]
      omega
    · rw [List.filter_cons_of_neg (by simpa using hx), ih]
      omega

/-- Fewer terms reach less. -/
theorem ups_sublist (h : xs.Sublist ys) : ups xs ≤ ups ys := by
  induction h with
  | slnil => exact le_refl _
  | cons y h ih =>
    rw [ups_cons]
    omega
  | cons_cons y h ih =>
    rw [ups_cons, ups_cons]
    omega

theorem downs_sublist (h : xs.Sublist ys) : downs ys ≤ downs xs := by
  induction h with
  | slnil => exact le_refl _
  | cons y h ih =>
    rw [downs_cons]
    omega
  | cons_cons y h ih =>
    rw [downs_cons, downs_cons]
    omega

end OpenStandards.Lib

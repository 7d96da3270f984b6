/-
Splitting a total: every item gets its share, and the last one whatever is
left, so that nothing is lost to rounding.

The sum is exact whenever the split goes through (`sum_of_apportion`); and
it goes through exactly where the running total and the remainder stay in
range (`apportion_ok_iff`), as they do for shares that are no more than the
part they stand for (`fitsFrom_of_part`).
-/
import OpenStandards.Lib.Checked
import OpenStandards.Lib.Fallible
import Mathlib.Algebra.Order.Ring.Int

namespace OpenStandards.Lib

variable {α ε : Type}

/-- Split `total` over the items, `assigned` of it being handed out
already. The last item's share is not asked for. -/
def apportion (overflow : ε) (total : I64) (share : α → Except ε I64) :
    I64 → List α → Except ε (List I64)
  | _, [] => .ok []
  | assigned, [_] =>
    match total.checkedSub assigned with
    | none => .error overflow
    | some remainder => .ok [remainder]
  | assigned, a :: b :: items => do
    let x ← share a
    match assigned.checkedAdd x with
    | none => .error overflow
    | some assigned =>
      let xs ← apportion overflow total share assigned (b :: items)
      return x :: xs

variable {overflow : ε} {total : I64} {share : α → Except ε I64}

variable {items : List α} {assigned : I64} {xs : List I64} {T : Int}

/-- Nothing is lost: what was handed out and the shares are the total. -/
theorem sum_of_apportion (hne : items ≠ [])
    (h : apportion overflow total share assigned items = .ok xs) :
    assigned.val + (xs.map I64.val).sum = total.val := by
  induction items generalizing assigned xs with
  | nil => exact absurd rfl hne
  | cons a items ih =>
    cases items with
    | nil =>
      unfold apportion at h
      split at h
      case h_1 => cases h
      case h_2 remainder hrem =>
        cases h
        rw [I64.checkedSub_eq_some] at hrem
        simp [hrem]
    | cons b items =>
      unfold apportion at h
      rcases bind_eq_ok.1 h with ⟨x, -, h₁⟩
      split at h₁
      case h_1 => cases h₁
      case h_2 assigned' hadd =>
        rcases bind_eq_ok.1 h₁ with ⟨ys, hys, h₂⟩
        cases h₂
        have htail := ih (List.cons_ne_nil b items) hys
        rw [I64.checkedAdd_eq_some.1 hadd] at htail
        rw [List.map_cons, List.sum_cons]
        omega

theorem length_of_apportion (h : apportion overflow total share assigned items = .ok xs) :
    xs.length = items.length := by
  induction items generalizing assigned xs with
  | nil =>
    cases h
    rfl
  | cons a items ih =>
    cases items with
    | nil =>
      unfold apportion at h
      split at h
      · cases h
      · cases h
        rfl
    | cons b items =>
      unfold apportion at h
      rcases bind_eq_ok.1 h with ⟨x, -, h₁⟩
      split at h₁
      case h_1 => cases h₁
      case h_2 assigned' hadd =>
        rcases bind_eq_ok.1 h₁ with ⟨ys, hys, h₂⟩
        cases h₂
        rw [List.length_cons, ih hys]
        rfl

/-- The running total and the remainder stay in range. -/
def FitsFrom (total : Int) (share : α → Int) : Int → List α → Prop
  | _, [] => True
  | assigned, [_] => InI64 (total - assigned)
  | assigned, a :: b :: items =>
    InI64 (assigned + share a) ∧ FitsFrom total share (assigned + share a) (b :: items)

/-- Where every share is there, the split goes through exactly where the
running total and the remainder stay in range. -/
theorem apportion_ok_iff {value : α → I64} (hshare : ∀ a ∈ items, share a = .ok (value a)) :
    (∃ xs, apportion overflow total share assigned items = .ok xs)
      ↔ FitsFrom total.val (fun a => (value a).val) assigned.val items := by
  induction items generalizing assigned with
  | nil => exact iff_of_true ⟨[], rfl⟩ trivial
  | cons a items ih =>
    cases items with
    | nil =>
      unfold apportion FitsFrom I64.checkedSub I64.ofInt?
      by_cases hfit : InI64 (total.val - assigned.val)
      · rw [dif_pos hfit]
        exact iff_of_true ⟨_, rfl⟩ hfit
      · rw [dif_neg hfit]
        refine iff_of_false ?_ hfit
        rintro ⟨_, ⟨⟩⟩
    | cons b items =>
      unfold apportion FitsFrom
      rw [hshare a List.mem_cons_self, ok_bind]
      by_cases hfit : InI64 (assigned.val + (value a).val)
      · have hadd : assigned.checkedAdd (value a) = some ⟨_, hfit⟩ :=
          I64.checkedAdd_eq_some.2 rfl
        simp only [hadd, hfit, true_and]
        rw [← @ih ⟨_, hfit⟩
          fun c hc => hshare c (List.mem_cons_of_mem a hc)]
        constructor
        · intro h
          rcases h with ⟨xs, h⟩
          rcases bind_eq_ok.1 h with ⟨ys, hys, -⟩
          exact ⟨ys, hys⟩
        · intro h
          rcases h with ⟨ys, hys⟩
          exact ⟨value a :: ys, by rw [hys]; rfl⟩
      · have hadd : assigned.checkedAdd (value a) = none :=
          I64.ofInt?_eq_none.2 hfit
        simp only [hadd, hfit, false_and]
        refine iff_of_false ?_ id
        rintro ⟨_, ⟨⟩⟩

/-- What a split that goes through hands out: its share to every item but
the last. -/
theorem shares_of_apportion {value : α → I64} {last : α} :
    ∀ {init : List α} {assigned : I64},
      (∀ a ∈ init, share a = .ok (value a)) →
      apportion overflow total share assigned (init ++ [last]) = .ok xs →
      ∃ remainder, xs = init.map value ++ [remainder] := by
  intro init
  induction init generalizing xs with
  | nil =>
    intro assigned _ h
    unfold apportion at h
    rw [List.nil_append] at h
    simp only at h
    split at h
    case h_1 => cases h
    case h_2 remainder _ =>
      cases h
      exact ⟨remainder, rfl⟩
  | cons a init ih =>
    intro assigned hshare h
    have ha := hshare a List.mem_cons_self
    have hrest : ∀ b ∈ init, share b = .ok (value b) :=
      fun b hb => hshare b (List.mem_cons_of_mem a hb)
    obtain ⟨b, items, hitems⟩ : ∃ b items, init ++ [last] = b :: items :=
      List.exists_cons_of_ne_nil (List.append_ne_nil_of_right_ne_nil _
        (List.cons_ne_nil last []))
    rw [List.cons_append, hitems] at h
    unfold apportion at h
    rw [ha, ok_bind] at h
    split at h
    case h_1 => cases h
    case h_2 assigned' _ =>
      rcases bind_eq_ok.1 h with ⟨ys, hys, h₁⟩
      cases h₁
      rw [← hitems] at hys
      obtain ⟨remainder, rfl⟩ := ih hrest hys
      exact ⟨remainder, rfl⟩

def Between (total x : Int) : Prop :=
  (0 ≤ total → 0 ≤ x ∧ x ≤ total) ∧ (total ≤ 0 → total ≤ x ∧ x ≤ 0)

theorem Between.inI64 {x : Int} (h : Between T x) (hT : InI64 T) : InI64 x ∧ InI64 (T - x) := by
  obtain ⟨hpos, hneg⟩ := h
  unfold InI64 at *
  rcases le_total 0 T with hT' | hT'
  · have := hpos hT'
    omega
  · have := hneg hT'
    omega

/-- Shares whose running totals stay between nothing and the total stay
in range. -/
theorem fitsFrom_of_between {value : α → Int} (hT : InI64 T) : ∀ {x : Int},
      (∀ j < items.length, Between T (x + ((items.take j).map value).sum)) →
      FitsFrom T value x items := by
  induction items with
  | nil =>
    intro x _
    trivial
  | cons a items ih =>
    intro x hx
    cases items with
    | nil =>
      have hzero := hx 0 (Nat.zero_lt_one)
      rw [List.take_zero, List.map_nil, List.sum_nil, add_zero] at hzero
      exact (hzero.inI64 hT).2
    | cons b items =>
      have hone := hx 1 (by simp)
      rw [List.take_succ_cons, List.take_zero, List.map_singleton, List.sum_singleton] at hone
      refine ⟨(hone.inI64 hT).1, ih fun j hj => ?_⟩
      have hnext := hx (j + 1) (Nat.succ_lt_succ hj)
      rw [List.take_succ_cons, List.map_cons, List.sum_cons, ← add_assoc] at hnext
      exact hnext

-- ==== parts

/-- `x` is no more than the part `w` of `W` of the total, and of its
sign. -/
structure Part (total W w x : Int) : Prop where
  of_nonneg : 0 ≤ total → 0 ≤ x ∧ x * W ≤ total * w
  of_nonpos : total ≤ 0 → x ≤ 0 ∧ total * w ≤ x * W

namespace Part

variable {T W w w' x x' : Int}

theorem zero (T W : Int) : Part T W 0 0 := by
  constructor
  · intro _
    simp
  · intro _
    simp

theorem add (h : Part T W w x) (h' : Part T W w' x') : Part T W (w + w') (x + x') := by
  constructor
  · intro hT
    rcases h.of_nonneg hT with ⟨hx, hle⟩
    rcases h'.of_nonneg hT with ⟨hx', hle'⟩
    rw [Int.add_mul, Int.mul_add]
    omega
  · intro hT
    rcases h.of_nonpos hT with ⟨hx, hle⟩
    rcases h'.of_nonpos hT with ⟨hx', hle'⟩
    rw [Int.add_mul, Int.mul_add]
    omega

/-- Rounding toward zero makes a part. -/
theorem tdiv (T : Int) (hW : 0 < W) (hw : 0 ≤ w) : Part T W w ((T * w).tdiv W) := by
  constructor
  · intro hT
    have hnum : 0 ≤ T * w := Int.mul_nonneg hT hw
    rw [Int.tdiv_eq_ediv_of_nonneg hnum]
    exact ⟨Int.ediv_nonneg hnum hW.le, Int.ediv_mul_le _ (ne_of_gt hW)⟩
  · intro hT
    have hnum : 0 ≤ -(T * w) := by
      rw [← Int.neg_mul]
      exact Int.mul_nonneg (by omega) hw
    have hneg : (T * w).tdiv W = -(-(T * w) / W) := by
      rw [← Int.tdiv_eq_ediv_of_nonneg hnum, Int.neg_tdiv, Int.neg_neg]
    have hle := Int.ediv_mul_le (-(T * w)) (ne_of_gt hW)
    have hpos := Int.ediv_nonneg hnum hW.le
    rw [hneg, Int.neg_mul]
    omega

theorem between (h : Part T W w x) (hW : 0 < W) (hw : w ≤ W) : Between T x := by
  constructor
  · intro hT
    rcases h.of_nonneg hT with ⟨hx, hle⟩
    refine ⟨hx, ?_⟩
    have hmul : T * w ≤ T * W := Int.mul_le_mul_of_nonneg_left hw hT
    exact Int.le_of_mul_le_mul_right (hle.trans hmul) hW
  · intro hT
    rcases h.of_nonpos hT with ⟨hx, hle⟩
    refine ⟨?_, hx⟩
    have hmul : T * W ≤ T * w := Int.mul_le_mul_of_nonpos_left hT hw
    exact Int.le_of_mul_le_mul_right (hmul.trans hle) hW

/-- A part of a total in range is in range, and so is what is left. -/
theorem inI64 (h : Part T W w x) (hW : 0 < W) (hw : w ≤ W) (hT : InI64 T) :
    InI64 x ∧ InI64 (T - x) :=
  (h.between hW hw).inI64 hT

end Part

/-- Shares that are parts, of weights that do not exceed the whole, stay
in range. -/
theorem fitsFrom_of_part {W : Int} {weight value : α → Int} (hW : 0 < W)
    (hT : InI64 T) {done x : Int} (hweight : ∀ a ∈ items, 0 ≤ weight a)
    (hpart : ∀ a ∈ items, Part T W (weight a) (value a))
    (hdone : Part T W done x) (hle : done + (items.map weight).sum ≤ W) :
    FitsFrom T value x items := by
  induction items generalizing done x with
  | nil => trivial
  | cons a items ih =>
    have ha := hweight a List.mem_cons_self
    have hrest : ∀ b ∈ items, 0 ≤ weight b :=
      fun b hb => hweight b (List.mem_cons_of_mem a hb)
    have hsum : 0 ≤ (items.map weight).sum := by
      apply List.sum_nonneg
      intro y hy
      rcases List.mem_map.1 hy with ⟨b, hb, rfl⟩
      exact hrest b hb
    rw [List.map_cons, List.sum_cons] at hle
    cases items with
    | nil => exact (hdone.inI64 hW (by omega) hT).2
    | cons b items =>
      have hnext := hdone.add (hpart a List.mem_cons_self)
      refine ⟨(hnext.inI64 hW (by omega) hT).1, ?_⟩
      apply ih hrest _ hnext
      · omega
      · exact fun c hc => hpart c (List.mem_cons_of_mem a hc)

end OpenStandards.Lib

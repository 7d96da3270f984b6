/-
Lists dealt out to lanes.

`lane l x` is what lane `l` of `k` gets of the list `x`, dealt out in turn
from lane 0. Lists of one length are dealt out alike, so a list is told by
its lanes (`eq_of_lanes`); and where something follows in every lane, the
shorter of two lists begins the longer one, and what is left of that has
been taken for what follows (`lane_prefix`).
-/
import Mathlib.Data.Fin.Basic
import Mathlib.Data.ZMod.Defs

namespace OpenStandards.Lib

variable {α : Type} {k : Nat} [NeZero k]

def lane : Fin k → List α → List α
  | _, [] => []
  | l, a :: x => if l = 0 then a :: lane (l - 1) x else lane (l - 1) x

/-- Several lists, each dealt out from lane 0. -/
def dealt (l : Fin k) (chunks : List (List α)) : List α :=
  chunks.flatMap (lane l)

variable {x y : List α} {chunks chunks' : List (List α)} {l : Fin k}

@[simp]
theorem lane_nil (l : Fin k) : lane l ([] : List α) = [] := rfl

theorem lane_cons (l : Fin k) (a : α) (x : List α) :
    lane l (a :: x) = if l = 0 then a :: lane (l - 1) x else lane (l - 1) x := rfl

theorem ofNat_succ (n : Nat) : Fin.ofNat k (n + 1) = 1 + Fin.ofNat k n := by
  apply Fin.ext
  rw [Fin.val_add, Fin.val_one', Fin.val_ofNat, Fin.val_ofNat, ← Nat.add_mod, Nat.add_comm]

/-- The second list goes on where the first ends. -/
theorem lane_append (l : Fin k) (x y : List α) :
    lane l (x ++ y) = lane l x ++ lane (l - Fin.ofNat k x.length) y := by
  induction x generalizing l with
  | nil =>
    have hzero : Fin.ofNat k 0 = 0 := rfl
    rw [List.length_nil, hzero, sub_zero]
    rfl
  | cons a x ih =>
    rw [List.cons_append, lane_cons, lane_cons, ih, List.length_cons, ofNat_succ, sub_sub]
    split
    · rfl
    · rfl

/-- With one lane everything is dealt to it. -/
@[simp]
theorem lane_one (l : Fin 1) (x : List α) : lane l x = x := by
  induction x generalizing l with
  | nil => rfl
  | cons a x ih => rw [lane_cons, if_pos (Subsingleton.elim l 0), ih]

theorem lane_zero_cons (a : α) (x : List α) : lane (0 : Fin k) (a :: x) ≠ [] := by
  rw [lane_cons, if_pos rfl]
  exact List.cons_ne_nil _ _

theorem length_lane (h : x.length = y.length) : (lane l x).length = (lane l y).length := by
  induction x generalizing y l with
  | nil => rw [List.eq_nil_of_length_eq_zero h.symm]
  | cons a x ih =>
    cases y with
    | nil => cases h
    | cons b y =>
      have htail := ih (l := l - 1) (Nat.succ.inj h)
      rw [lane_cons, lane_cons]
      split
      · rw [List.length_cons, List.length_cons, htail]
      · exact htail

theorem eq_of_lanes (hlen : x.length = y.length)
    (h : ∀ l : Fin k, lane l x = lane l y) : x = y := by
  induction x generalizing y with
  | nil => exact (List.eq_nil_of_length_eq_zero hlen.symm).symm
  | cons a x ih =>
    cases y with
    | nil => cases hlen
    | cons b y =>
      have hfirst := h 0
      rw [lane_cons, lane_cons, if_pos rfl, if_pos rfl] at hfirst
      obtain ⟨rfl, -⟩ := List.cons.inj hfirst
      refine congrArg (a :: ·) (ih (Nat.succ.inj hlen) fun m => ?_)
      -- lane `m` of the tails is lane `m + 1` of the lists
      have hm := h (m + 1)
      rw [lane_cons, lane_cons, add_sub_cancel_right] at hm
      split at hm
      · exact (List.cons.inj hm).2
      · exact hm

/-- Followed by something in every lane, the shorter list begins the
longer. -/
theorem lane_prefix {r s : Fin k → List α} (hle : x.length ≤ y.length)
    (h : ∀ l, lane l x ++ r l = lane l y ++ s l) :
    ∃ more, y = x ++ more ∧ ∀ l, r l = lane (l - Fin.ofNat k x.length) more ++ s l := by
  have hlen : x.length = (y.take x.length).length :=
    (List.length_take_of_le hle).symm
  have hparts : ∀ l, lane l x = lane l (y.take x.length)
      ∧ r l = lane (l - Fin.ofNat k x.length) (y.drop x.length) ++ s l := by
    intro l
    apply List.append_inj _ (length_lane hlen)
    rw [h l, ← List.append_assoc]
    refine congrArg (· ++ s l) ?_
    conv => lhs; rw [← List.take_append_drop x.length y]
    rw [lane_append, ← hlen]
  refine ⟨y.drop x.length, ?_, fun l => (hparts l).2⟩
  have hx := eq_of_lanes hlen fun l => (hparts l).1
  conv => lhs; rw [← List.take_append_drop x.length y, ← hx]

/-- Lists of one length are cancelled. -/
theorem lane_cancel {r s : Fin k → List α} (hlen : x.length = y.length)
    (h : ∀ l, lane l x ++ r l = lane l y ++ s l) :
    x = y ∧ ∀ l, r l = s l := by
  have hparts := fun l => List.append_inj (h l) (length_lane hlen)
  exact ⟨eq_of_lanes hlen fun l => (hparts l).1, fun l => (hparts l).2⟩

@[simp]
theorem dealt_nil (l : Fin k) : dealt l ([] : List (List α)) = [] := rfl

@[simp]
theorem dealt_cons (l : Fin k) (x : List α) (chunks : List (List α)) :
    dealt l (x :: chunks) = lane l x ++ dealt l chunks := rfl

@[simp]
theorem dealt_append (l : Fin k) (chunks chunks' : List (List α)) :
    dealt l (chunks ++ chunks') = dealt l chunks ++ dealt l chunks' :=
  List.flatMap_append ..

theorem dealt_one (l : Fin 1) (chunks : List (List α)) : dealt l chunks = chunks.flatten := by
  induction chunks with
  | nil => rfl
  | cons x chunks ih => rw [dealt_cons, ih, lane_one, List.flatten_cons]

end OpenStandards.Lib

/-
Running selections: scan a list, keeping the incumbent until a candidate
replaces it. With a rule that never replaces by something smaller and
never keeps something smaller, the scan ends at a maximum; whether ties
keep the first or the last is the rule's affair.
-/
import Mathlib.Data.List.Induction
import Mathlib.Order.Compare
import Mathlib.Data.List.Basic
import Mathlib.Data.Nat.Init
import Mathlib.Order.Lattice

namespace OpenStandards.Lib

section

variable {α : Type}

def scanStep (replaces : α → α → Bool) (best : Option α) (a : α) : Option α :=
  match best with
  | none => some a
  | some b => if replaces a b then some a else some b

def scanBest (replaces : α → α → Bool) (l : List α) : Option α :=
  l.foldl (scanStep replaces) none

variable {replaces : α → α → Bool}

theorem scanBest_concat (l : List α) (a : α) :
    scanBest replaces (l ++ [a]) = scanStep replaces (scanBest replaces l) a := by
  unfold scanBest
  rw [List.foldl_append]
  rfl

variable {l : List α}

theorem scanBest_isSome (replaces : α → α → Bool) (h : l ≠ []) :
    ∃ m, scanBest replaces l = some m := by
  induction l using List.reverseRecOn with
  | nil => exact absurd rfl h
  | append_singleton l a _ =>
    rw [scanBest_concat]
    unfold scanStep
    cases scanBest replaces l with
    | none => exact ⟨a, rfl⟩
    | some b =>
      by_cases hr : replaces a b = true
      · exact ⟨a, if_pos hr⟩
      · exact ⟨b, if_neg hr⟩

theorem scanBest_eq_none : scanBest replaces l = none ↔ l = [] := by
  constructor
  · intro h
    by_contra hne
    obtain ⟨m, hm⟩ := scanBest_isSome replaces hne
    exact absurd (h.symm.trans hm) nofun
  · rintro rfl
    rfl

/-- A scan that replaces only by what is no smaller and keeps only what
is no smaller ends at a member with the largest key. -/
theorem scanBest_max (key : α → Nat) (hyes : ∀ a b, replaces a b = true → key b ≤ key a)
    (hno : ∀ a b, replaces a b = false → key a ≤ key b) {m : α}
    (h : scanBest replaces l = some m) : m ∈ l ∧ ∀ a ∈ l, key a ≤ key m := by
  induction l using List.reverseRecOn generalizing m with
  | nil => cases h
  | append_singleton l a ih =>
    rw [scanBest_concat] at h
    cases hb : scanBest replaces l with
    | none =>
      rw [hb] at h
      cases h
      rw [scanBest_eq_none.1 hb]
      refine ⟨List.mem_singleton.2 rfl, ?_⟩
      intro b hmem
      exact Nat.le_of_eq (congrArg key (List.mem_singleton.1 hmem))
    | some b =>
      obtain ⟨hmem, hle⟩ := ih hb
      rw [hb] at h
      change (if replaces a b then some a else some b) = some m at h
      by_cases hr : replaces a b = true
      · rw [if_pos hr] at h
        cases h
        refine ⟨List.mem_append_right _ (List.mem_singleton.2 rfl), ?_⟩
        intro c hc
        rcases List.mem_append.1 hc with hc | hc
        · exact Nat.le_trans (hle c hc) (hyes _ _ hr)
        · exact Nat.le_of_eq (congrArg key (List.mem_singleton.1 hc))
      · rw [if_neg hr] at h
        cases h
        refine ⟨List.mem_append_left _ hmem, ?_⟩
        intro c hc
        rcases List.mem_append.1 hc with hc | hc
        · exact hle c hc
        · rw [List.mem_singleton.1 hc]
          exact hno _ _ (Bool.eq_false_iff.2 hr)

/-- A scan that replaces only by what is larger keeps the first of the
largest. -/
theorem scanBest_first (key : α → Nat)
    (hrule : ∀ a b, replaces a b = true ↔ key b < key a) {m : α}
    (h : scanBest replaces l = some m) :
    ∃ l₁ l₂, l = l₁ ++ m :: l₂ ∧ (∀ a ∈ l₁, key a < key m) ∧ ∀ a ∈ l₂, key a ≤ key m := by
  induction l using List.reverseRecOn generalizing m with
  | nil => cases h
  | append_singleton l a ih =>
    rw [scanBest_concat] at h
    cases hb : scanBest replaces l with
    | none =>
      rw [hb] at h
      cases h
      rw [scanBest_eq_none.1 hb]
      exact ⟨[], [], rfl, fun _ hc => absurd hc List.not_mem_nil,
        fun _ hc => absurd hc List.not_mem_nil⟩
    | some b =>
      obtain ⟨l₁, l₂, hl, h₁, h₂⟩ := ih hb
      rw [hb] at h
      change (if replaces a b then some a else some b) = some m at h
      by_cases hr : replaces a b = true
      · rw [if_pos hr] at h
        cases h
        have hlt := (hrule a b).1 hr
        refine ⟨l, [], rfl, ?_, fun _ hc => absurd hc List.not_mem_nil⟩
        intro c hc
        rw [hl] at hc
        rcases List.mem_append.1 hc with hc | hc
        · exact Nat.lt_trans (h₁ c hc) hlt
        · rcases List.mem_cons.1 hc with rfl | hc
          · exact hlt
          · exact Nat.lt_of_le_of_lt (h₂ c hc) hlt
      · rw [if_neg hr] at h
        cases h
        refine ⟨l₁, l₂ ++ [a], ?_, h₁, ?_⟩
        · rw [hl, List.append_assoc, List.cons_append]
        · intro c hc
          rcases List.mem_append.1 hc with hc | hc
          · exact h₂ c hc
          · rw [List.mem_singleton.1 hc]
            exact Nat.le_of_not_lt fun hlt => hr ((hrule _ _).2 hlt)

end

/-
Binary search in a list, as standard libraries do it: the half that can
still hold the key is kept until it is one element, and only this one is
compared for equality.

In a list whose keys ascend, the search cuts the list where the key is or
would be (`binarySearchBy_found`, `binarySearchBy_missing`).
-/

variable {α κ : Type}

/-- Whether the element of a place is beyond what is searched. -/
def beyond (f : α → Ordering) (xs : List α) (i : Nat) : Bool :=
  (xs[i]?).any fun x => f x = .gt

/-- The place that is left of `size` places from `base` on. -/
def narrow (f : α → Ordering) (xs : List α) (size base : Nat) : Nat :=
  if size ≤ 1 then base
  else
    let half := size / 2
    let mid := base + half
    narrow f xs (size - half) (if beyond f xs mid then base else mid)
termination_by size

/-- The place of an element that is searched, or the one where it would be
inserted as an error. -/
def binarySearchBy (f : α → Ordering) (xs : List α) : Except Nat Nat :=
  let base := narrow f xs xs.length 0
  match xs[base]? with
  | none => .error 0
  | some x =>
    match f x with
    | .eq => .ok base
    | .lt => .error (base + 1)
    | .gt => .error base

/-- The place that is left is the last one that is not beyond, or the
first. -/
theorem narrow_spec {f : α → Ordering} {xs : List α}
    (hmono : ∀ i j, i ≤ j → j < xs.length → beyond f xs i → beyond f xs j)
    (size base : Nat) (hpos : 0 < size) (hle : base + size ≤ xs.length)
    (hbase : base = 0 ∨ beyond f xs base = false)
    (hrest : ∀ j, base + size ≤ j → j < xs.length → beyond f xs j) :
    narrow f xs size base < xs.length
      ∧ (narrow f xs size base = 0 ∨ beyond f xs (narrow f xs size base) = false)
      ∧ ∀ j, narrow f xs size base < j → j < xs.length → beyond f xs j := by
  induction size using Nat.strongRecOn generalizing base with
  | ind size ih =>
    rw [narrow]
    split
    case isTrue hsmall =>
      exact ⟨by omega, hbase, fun j hj hlt => hrest j (by omega) hlt⟩
    case isFalse hlarge =>
      dsimp only
      cases hmid : beyond f xs (base + size / 2) with
      | true =>
        refine ih (size - size / 2) (by omega) base (by omega) (by omega)
          hbase fun j hj hlt => ?_
        exact hmono _ j (by omega) hlt hmid
      | false =>
        exact ih (size - size / 2) (by omega) (base + size / 2)
          (by omega) (by omega) (Or.inr hmid)
          fun j hj hlt => hrest j (by omega) hlt

section Keys

variable [LinearOrder κ] {key : α → κ} {xs : List α} {k : κ} {i : Nat}

theorem binarySearchBy_found (h : binarySearchBy (fun x => compare (key x) k) xs = .ok i) :
    ∃ pre x post, xs = pre ++ x :: post ∧ pre.length = i ∧ key x = k := by
  unfold binarySearchBy at h
  generalize narrow (fun x => compare (key x) k) xs xs.length 0 = base at h
  dsimp only at h
  split at h
  case h_1 => cases h
  case h_2 x hx =>
    split at h
    case h_1 heq =>
      cases h
      obtain ⟨hlt, rfl⟩ := List.getElem?_eq_some_iff.1 hx
      refine ⟨xs.take i, xs[i], xs.drop (i + 1), ?_,
        List.length_take_of_le (Nat.le_of_lt hlt),
        compare_eq_iff_eq.1 heq⟩
      rw [List.getElem_cons_drop, List.take_append_drop]
    case h_2 => cases h
    case h_3 => cases h

theorem beyond_iff :
    beyond (fun x => compare (key x) k) xs i = true ↔ ∃ h : i < xs.length, k < key xs[i] := by
  unfold beyond
  rw [Option.any_eq_true]
  constructor
  · rintro ⟨x, hx, hgt⟩
    obtain ⟨hlt, rfl⟩ := List.getElem?_eq_some_iff.1 hx
    exact ⟨hlt, compare_gt_iff_gt.1 (of_decide_eq_true hgt)⟩
  · rintro ⟨hlt, hgt⟩
    exact ⟨xs[i], List.getElem?_eq_getElem hlt, decide_eq_true (compare_gt_iff_gt.2 hgt)⟩

/-- Where the search of ascending keys ends. -/
theorem narrow_keys (hsorted : xs.Pairwise fun a b => key a < key b) (hne : xs ≠ []) {base : Nat}
    (hbase : base = narrow (fun x => compare (key x) k) xs xs.length 0) :
    base < xs.length
      ∧ (base = 0 ∨ beyond (fun x => compare (key x) k) xs base = false)
      ∧ ∀ x ∈ xs.drop (base + 1), k < key x := by
  have hmono : ∀ i j, i ≤ j → j < xs.length →
      beyond (fun x => compare (key x) k) xs i = true →
      beyond (fun x => compare (key x) k) xs j = true := by
    intro i j hij hlt hi
    obtain ⟨hilt, hgt⟩ := beyond_iff.1 hi
    refine beyond_iff.2 ⟨hlt, ?_⟩
    rcases Nat.eq_or_lt_of_le hij with rfl | hij
    · exact hgt
    · exact lt_trans hgt (List.pairwise_iff_getElem.1 hsorted i j hilt hlt hij)
  obtain ⟨hlt, hfirst, hlater⟩ := narrow_spec hmono xs.length 0
    (List.length_pos_of_ne_nil hne) (by omega) (Or.inl rfl)
    fun j hj hlt => absurd hlt (by omega)
  rw [← hbase] at hlt hfirst hlater
  refine ⟨hlt, hfirst, fun x hx => ?_⟩
  obtain ⟨j, hj, rfl⟩ := List.mem_iff_getElem.1 hx
  rw [List.length_drop] at hj
  rw [List.getElem_drop]
  exact (beyond_iff.1 (hlater (base + 1 + j) (by omega) (by omega))).2

theorem binarySearchBy_missing (hsorted : xs.Pairwise fun a b => key a < key b)
    (h : binarySearchBy (fun x => compare (key x) k) xs = .error i) :
    ∃ pre post, xs = pre ++ post ∧ pre.length = i
      ∧ (∀ x ∈ pre, key x < k) ∧ ∀ x ∈ post, k < key x := by
  by_cases hne : xs = []
  · subst hne
    cases h
    exact ⟨[], [], rfl, rfl, nofun, nofun⟩
  · unfold binarySearchBy at h
    dsimp only at h
    generalize hbase : narrow (fun x => compare (key x) k) xs xs.length 0 = base at h
    obtain ⟨hlt, hfirst, hlater⟩ := narrow_keys hsorted hne hbase.symm
    rw [List.getElem?_eq_getElem hlt] at h
    dsimp only at h
    split at h
    case h_1 => cases h
    case h_2 hless =>
      cases h
      refine ⟨xs.take (base + 1), xs.drop (base + 1),
        (List.take_append_drop ..).symm, List.length_take_of_le hlt,
        fun x hx => ?_, hlater⟩
      obtain ⟨j, hj, rfl⟩ := List.mem_take_iff_getElem.1 hx
      rcases Nat.eq_or_lt_of_le (show j ≤ base by omega) with rfl | hjlt
      · exact compare_lt_iff_lt.1 hless
      · exact lt_trans (List.pairwise_iff_getElem.1 hsorted j base _ hlt hjlt)
          (compare_lt_iff_lt.1 hless)
    case h_3 hmore =>
      cases h
      have hgt := compare_gt_iff_gt.1 hmore
      have hzero : i = 0 := hfirst.resolve_right fun hle =>
        Bool.false_ne_true (hle.symm.trans (beyond_iff.2 ⟨hlt, hgt⟩))
      subst hzero
      refine ⟨[], xs, rfl, rfl, nofun, fun x hx => ?_⟩
      obtain ⟨j, hj, rfl⟩ := List.mem_iff_getElem.1 hx
      cases j with
      | zero => exact hgt
      | succ j =>
        apply hlater
        exact List.mem_drop_iff_getElem.2
          ⟨j, by omega, by simp only [Nat.add_comm]⟩

end Keys

end OpenStandards.Lib

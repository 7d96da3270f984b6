/-
First fit: items come in order, and each takes the first slot left that
fits it, or none.

Whatever `fits` is, every item is placed once or turned away once
(`placed_perm_items`), and the slots handed out with those left over are
the slots there were (`placed_perm_slots`). Programs mark the slots they
have handed out and search for one that is not marked;
`filter_free_eq_eraseP` turns one form into the other.
-/
import OpenStandards.Lib.Run
import Mathlib.Data.List.Nodup

namespace OpenStandards.Lib

variable {α β κ : Type} (fits : α → β → Bool)

def takeFirst (slots : List β) (a : α) : List β := slots.eraseP (fits a)

def firstFit : List β → List α → List (α × Option β)
  | _, [] => []
  | slots, a :: items =>
    (a, slots.find? (fits a)) :: firstFit (takeFirst fits slots a) items

def placed (slots : List β) (items : List α) : List (α × β) :=
  (firstFit fits slots items).filterMap fun p => p.2.map fun b => (p.1, b)

def unplaced (slots : List β) (items : List α) : List α :=
  (firstFit fits slots items).filterMap fun p =>
    if p.2.isNone then some p.1 else none

-- ==== one item at a time

theorem placed_nil (slots : List β) : placed fits slots [] = [] := rfl

theorem unplaced_nil (slots : List β) : unplaced fits slots [] = [] := rfl

variable {fits} {slots : List β} {a : α} {items : List α} {b : β}

theorem placed_cons_some (h : slots.find? (fits a) = some b) :
    placed fits slots (a :: items) = (a, b) :: placed fits (takeFirst fits slots a) items := by
  unfold placed
  rw [firstFit, h]
  rfl

theorem unplaced_cons_some (h : slots.find? (fits a) = some b) :
    unplaced fits slots (a :: items) = unplaced fits (takeFirst fits slots a) items := by
  unfold unplaced
  rw [firstFit, h]
  rfl

theorem takeFirst_of_none (h : slots.find? (fits a) = none) :
    takeFirst fits slots a = slots := by
  apply List.eraseP_of_forall_not
  exact List.find?_eq_none.1 h

theorem placed_cons_none (h : slots.find? (fits a) = none) :
    placed fits slots (a :: items) = placed fits slots items := by
  unfold placed
  rw [firstFit, h, takeFirst_of_none h]
  rfl

theorem unplaced_cons_none (h : slots.find? (fits a) = none) :
    unplaced fits slots (a :: items) = a :: unplaced fits slots items := by
  unfold unplaced
  rw [firstFit, h, takeFirst_of_none h]
  rfl

/-- The slot taken and the slots left are the slots there were. -/
theorem cons_takeFirst_perm (h : slots.find? (fits a) = some b) :
    (b :: takeFirst fits slots a).Perm slots := by
  induction slots with
  | nil => cases h
  | cons c slots ih =>
    unfold takeFirst at ih ⊢
    by_cases hc : fits a c
    · rw [List.find?_cons_of_pos hc] at h
      cases h
      rw [List.eraseP_cons_of_pos hc]
    · rw [List.find?_cons_of_neg hc] at h
      rw [List.eraseP_cons_of_neg hc]
      exact (List.Perm.swap c b _).trans ((ih h).cons c)

-- ==== whole runs

theorem map_fst_firstFit (slots : List β) (items : List α) :
    (firstFit fits slots items).map Prod.fst = items := by
  induction items generalizing slots with
  | nil => rfl
  | cons a items ih =>
    rw [firstFit, List.map_cons, ih]

theorem fits_of_mem_placed {p : α × β} (h : p ∈ placed fits slots items) :
    fits p.1 p.2 = true := by
  induction items generalizing slots with
  | nil => cases h
  | cons a items ih =>
    cases hfind : slots.find? (fits a) with
    | none =>
      rw [placed_cons_none hfind] at h
      exact ih h
    | some b =>
      rw [placed_cons_some hfind] at h
      rcases List.mem_cons.1 h with h | h
      · subst h
        exact List.find?_some hfind
      · exact ih h

theorem placed_perm_items (slots : List β) (items : List α) :
    ((placed fits slots items).map Prod.fst ++ unplaced fits slots items).Perm items := by
  induction items generalizing slots with
  | nil => exact .refl _
  | cons a items ih =>
    cases hfind : slots.find? (fits a) with
    | none =>
      rw [placed_cons_none hfind, unplaced_cons_none hfind]
      exact List.perm_middle.trans ((ih slots).cons a)
    | some b =>
      rw [placed_cons_some hfind, unplaced_cons_some hfind]
      exact (ih _).cons a

/-- The slots handed out and those left over are the slots there were. -/
theorem placed_perm_slots (slots : List β) (items : List α) :
    ((placed fits slots items).map Prod.snd
      ++ run (takeFirst fits) slots items).Perm slots := by
  induction items generalizing slots with
  | nil => exact .refl _
  | cons a items ih =>
    show (List.map Prod.snd (placed fits slots (a :: items))
      ++ run (takeFirst fits) (takeFirst fits slots a) items).Perm slots
    cases hfind : slots.find? (fits a) with
    | none =>
      rw [placed_cons_none hfind, takeFirst_of_none hfind]
      exact ih slots
    | some b =>
      rw [placed_cons_some hfind]
      exact ((ih _).cons b).trans (cons_takeFirst_perm hfind)

theorem mem_slots_of_mem_placed {p : α × β} (h : p ∈ placed fits slots items) : p.2 ∈ slots := by
  apply (placed_perm_slots slots items).subset
  exact List.mem_append_left _ (List.mem_map_of_mem h)

/-- The slots handed out have a property exactly where, along the run,
each slot taken has it. -/
theorem forall_placed_iff_along {good : β → Prop} :
    (∀ p ∈ placed fits slots items, good p.2)
      ↔ Along (takeFirst fits)
          (fun slots a => ∀ b, slots.find? (fits a) = some b → good b)
          slots items := by
  induction items generalizing slots with
  | nil => exact iff_of_true (fun p hp => nomatch hp) trivial
  | cons a items ih =>
    unfold Along
    rw [← ih]
    cases hfind : slots.find? (fits a) with
    | none =>
      rw [placed_cons_none hfind, takeFirst_of_none hfind]
      exact ⟨fun h => ⟨fun _ hb => (nomatch hb), h⟩, fun h => h.2⟩
    | some b =>
      rw [placed_cons_some hfind, List.forall_mem_cons]
      apply and_congr_left
      intro _
      constructor
      · intro h c hc
        cases hc
        exact h
      · intro h
        exact h b rfl

/-- Where no two items share a key, the items turned away are those whose
key is not among the keys of the items placed. -/
theorem unplaced_eq_filter [DecidableEq κ] (key : α → κ) (hkeys : (items.map key).Nodup) :
    unplaced fits slots items
      = items.filter fun a =>
          !decide (key a ∈ (placed fits slots items).map fun p => key p.1) := by
  induction items generalizing slots with
  | nil => rfl
  | cons a items ih =>
    rw [List.map_cons, List.nodup_cons] at hkeys
    cases hfind : slots.find? (fits a) with
    | none =>
      have hfresh : key a ∉ (placed fits slots items).map
          fun p => key p.1 := by
        intro hmem
        rcases List.mem_map.1 hmem with ⟨p, hp, heq⟩
        apply hkeys.1
        rw [← heq]
        apply List.mem_map_of_mem
        apply (placed_perm_items slots items).subset
        exact List.mem_append_left _ (List.mem_map_of_mem hp)
      rw [placed_cons_none hfind, unplaced_cons_none hfind,
        List.filter_cons_of_pos (by simpa using hfresh), ih hkeys.2]
    | some b =>
      rw [placed_cons_some hfind, unplaced_cons_some hfind,
        List.filter_cons_of_neg (by simp), ih hkeys.2]
      apply List.filter_congr
      intro c hc
      have hne : key c ≠ key a := by
        intro heq
        exact hkeys.1 (heq ▸ List.mem_map_of_mem hc)
      simp [hne]

-- ==== marked slots

/-- The first unmarked slot that fits is the first fit of the unmarked. -/
theorem find?_free (free p : β → Bool) (slots : List β) :
    slots.find? (fun b => free b && p b) = (slots.filter free).find? p := by
  rw [List.find?_filter]
  congr 1
  funext b
  simp

/-- Marking the slot found leaves unmarked what taking it leaves over. -/
theorem filter_free_eq_eraseP [DecidableEq κ] (key : β → κ) {free free' : β → Bool} {p : β → Bool}
    (hkeys : (slots.map key).Nodup) (hb : (slots.filter free).find? p = some b)
    (hfree : ∀ c ∈ slots, free' c = (free c && decide (key c ≠ key b))) :
    slots.filter free' = (slots.filter free).eraseP p := by
  induction slots with
  | nil => cases hb
  | cons c slots ih =>
    rw [List.map_cons, List.nodup_cons] at hkeys
    have hc := hfree c List.mem_cons_self
    have hfree' : ∀ d ∈ slots, free' d = (free d && decide (key d ≠ key b)) :=
      fun d hd => hfree d (List.mem_cons_of_mem _ hd)
    by_cases hfc : free c
    · rw [List.filter_cons_of_pos hfc] at hb ⊢
      by_cases hpc : p c
      · -- the slot found is this one: the others keep their marks
        rw [List.find?_cons_of_pos hpc] at hb
        cases hb
        have hmarked : free' b = false := by simp [hc]
        rw [List.eraseP_cons_of_pos hpc, List.filter_cons_of_neg (by simp [hmarked])]
        apply List.filter_congr
        intro d hd
        have hne : key d ≠ key b := by
          intro heq
          exact hkeys.1 (heq ▸ List.mem_map_of_mem hd)
        simp [hfree' d hd, hne]
      · rw [List.find?_cons_of_neg hpc] at hb
        have hmem : b ∈ slots :=
          List.mem_of_mem_filter (List.mem_of_find?_eq_some hb)
        have hne : key c ≠ key b := by
          intro heq
          exact hkeys.1 (heq ▸ List.mem_map_of_mem hmem)
        rw [List.eraseP_cons_of_neg hpc,
          List.filter_cons_of_pos (by simp [hc, hfc, hne]),
          ih hkeys.2 hb hfree']
    · rw [List.filter_cons_of_neg hfc] at hb ⊢
      rw [List.filter_cons_of_neg (by simp [hc, hfc])]
      exact ih hkeys.2 hb hfree'

end OpenStandards.Lib

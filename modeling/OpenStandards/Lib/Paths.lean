/-
Graphs whose edges read a letter or nothing, the words that lead from one
state to another, and what becomes of them when parts of a graph are
linked.

A word read in the graph with the links is a word read without them, a
link, and so on (`traces_iff_linked`); the three ways of linking below each
say where the links can lead, so that the language of the whole is an
operation on the languages of the parts (`series`, `parallel`, `wrap`).
-/
import Mathlib.Computability.EpsilonNFA
import Mathlib.Order.CompletePartialOrder

namespace OpenStandards.Lib

open Computability

/-- Edges, with the letter they read. -/
abbrev Graph (α σ : Type) := σ → Option α → σ → Prop

variable {α σ : Type}

/-- A word leads from a state to a state. -/
inductive Traces (E : Graph α σ) : σ → List α → σ → Prop
  | refl (s : σ) : Traces E s [] s
  | eps {s t u : σ} {w : List α} :
      E s none t → Traces E t w u → Traces E s w u
  | letter {s t u : σ} {a : α} {w : List α} :
      E s (some a) t → Traces E t w u → Traces E s (a :: w) u

/-- No edge leaves the region. -/
def Closed (E : Graph α σ) (S : Set σ) : Prop :=
  ∀ s ∈ S, ∀ l t, E s l t → t ∈ S

/-- No edge leaves the state. -/
def Stuck (E : Graph α σ) (s : σ) : Prop := ∀ l t, ¬ E s l t

variable {E E' : Graph α σ} {S T : Set σ} {s t u v : σ} {w x y : List α}

namespace Traces

theorem append (h : Traces E s x t) (h' : Traces E t y u) : Traces E s (x ++ y) u := by
  induction h with
  | refl => exact h'
  | eps hedge _ ih => exact .eps hedge (ih h')
  | letter hedge _ ih => exact .letter hedge (ih h')

/-- The state reached after the first part of a word. -/
theorem of_append (h : Traces E s (x ++ y) t) : ∃ u, Traces E s x u ∧ Traces E u y t := by
  generalize hw : x ++ y = w at h
  induction h generalizing x with
  | refl s =>
    obtain ⟨rfl, rfl⟩ := List.append_eq_nil_iff.1 hw
    exact ⟨s, .refl s, .refl s⟩
  | eps hedge _ ih =>
    obtain ⟨u, hx, hy⟩ := ih hw
    exact ⟨u, .eps hedge hx, hy⟩
  | @letter s _ _ a w hedge h ih =>
    cases x with
    | nil =>
      rw [List.nil_append] at hw
      exact ⟨s, .refl s, hw ▸ .letter hedge h⟩
    | cons b x =>
      obtain ⟨rfl, htail⟩ := List.cons.inj hw
      obtain ⟨u, hx, hy⟩ := ih htail
      exact ⟨u, .letter hedge hx, hy⟩

theorem mono (hsub : ∀ s l t, E s l t → E' s l t) (h : Traces E s w t) : Traces E' s w t := by
  induction h with
  | refl => exact .refl _
  | eps hedge _ ih => exact .eps (hsub _ _ _ hedge) ih
  | letter hedge _ ih => exact .letter (hsub _ _ _ hedge) ih

theorem mem (hclosed : Closed E S) (h : Traces E s w t) (hs : s ∈ S) : t ∈ S := by
  induction h with
  | refl => exact hs
  | eps hedge _ ih => exact ih (hclosed _ hs _ _ hedge)
  | letter hedge _ ih => exact ih (hclosed _ hs _ _ hedge)

/-- Nothing is read from a stuck state. -/
theorem of_stuck (hstuck : Stuck E s) (h : Traces E s w t) : w = [] ∧ t = s := by
  cases h with
  | refl => exact ⟨rfl, rfl⟩
  | eps hedge _ => exact absurd hedge (hstuck _ _)
  | letter hedge _ => exact absurd hedge (hstuck _ _)

/-- Nothing is read to a state that no edge of the region enters. -/
theorem of_unentered (hclosed : Closed E S) (hs : s ∈ S)
    (hnone : ∀ r ∈ S, ∀ l, ¬ E r l t) (h : Traces E s w t) :
    w = [] ∧ s = t := by
  induction h with
  | refl => exact ⟨rfl, rfl⟩
  | eps hedge _ ih =>
    obtain ⟨-, rfl⟩ := ih (hclosed _ hs _ _ hedge) hnone
    exact absurd hedge (hnone _ hs _)
  | letter hedge _ ih =>
    obtain ⟨-, rfl⟩ := ih (hclosed _ hs _ _ hedge) hnone
    exact absurd hedge (hnone _ hs _)

end Traces

/-- Two graphs that agree on a region that no edge leaves read the same
from it. -/
theorem traces_congr (hclosed : Closed E S)
    (hagree : ∀ s ∈ S, ∀ l t, E' s l t ↔ E s l t) (hs : s ∈ S) :
    Traces E' s w t ↔ Traces E s w t := by
  constructor
  · intro h
    induction h with
    | refl => exact .refl _
    | eps hedge _ ih =>
      have hE := (hagree _ hs _ _).1 hedge
      exact .eps hE (ih (hclosed _ hs _ _ hE))
    | letter hedge _ ih =>
      have hE := (hagree _ hs _ _).1 hedge
      exact .letter hE (ih (hclosed _ hs _ _ hE))
  · intro h
    induction h with
    | refl => exact .refl _
    | eps hE _ ih =>
      exact .eps ((hagree _ hs _ _).2 hE) (ih (hclosed _ hs _ _ hE))
    | letter hE _ ih =>
      exact .letter ((hagree _ hs _ _).2 hE) (ih (hclosed _ hs _ _ hE))

/-- The words that lead from a state are those of the automaton's paths. -/
theorem traces_iff_mem_evalFrom {M : εNFA α σ} :
    Traces (fun s l t => t ∈ M.step s l) s w t ↔ t ∈ M.evalFrom {s} w := by
  rw [M.mem_evalFrom_iff_exists_path]
  constructor
  · intro h
    induction h with
    | refl s => exact ⟨[], rfl, .nil s⟩
    | eps hedge _ ih =>
      obtain ⟨x, rfl, hpath⟩ := ih
      exact ⟨none :: x, rfl, .cons _ _ _ _ _ hedge hpath⟩
    | letter hedge _ ih =>
      obtain ⟨x, rfl, hpath⟩ := ih
      exact ⟨some _ :: x, rfl, .cons _ _ _ _ _ hedge hpath⟩
  · rintro ⟨x, rfl, hpath⟩
    induction hpath with
    | nil s => exact .refl s
    | cons t s u l x hedge _ ih =>
      cases l with
      | none => exact .eps hedge ih
      | some a => exact .letter hedge ih

-- ==== links

def Links (E E' : Graph α σ) (F : σ → σ → Prop) : Prop :=
  ∀ s l t, E' s l t ↔ E s l t ∨ l = none ∧ F s t

/-- A word read in stretches, with a link after each but the last. -/
inductive Linked (E : Graph α σ) (F : σ → σ → Prop) : σ → List α → σ → Prop
  | stay {s t : σ} {w : List α} : Traces E s w t → Linked E F s w t
  | link {s t u v : σ} {x y : List α} :
      Traces E s x u → F u v → Linked E F v y t → Linked E F s (x ++ y) t

variable {F : σ → σ → Prop}

theorem traces_iff_linked (hE' : Links E E' F) : Traces E' s w t ↔ Linked E F s w t := by
  constructor
  · intro h
    induction h with
    | refl s => exact .stay (.refl s)
    | eps hedge _ ih =>
      rcases (hE' _ _ _).1 hedge with hE | ⟨-, hF⟩
      · cases ih with
        | stay hreads => exact .stay (.eps hE hreads)
        | link hreads hF hrest => exact .link (.eps hE hreads) hF hrest
      · exact .link (.refl _) hF ih
    | letter hedge _ ih =>
      rcases (hE' _ _ _).1 hedge with hE | ⟨hnone, -⟩
      · cases ih with
        | stay hreads => exact .stay (.letter hE hreads)
        | link hreads hF hrest =>
          exact .link (.letter hE hreads) hF hrest
      · cases hnone
  · have hsub : ∀ s l t, E s l t → E' s l t :=
      fun s l t h => (hE' s l t).2 (Or.inl h)
    intro h
    induction h with
    | stay hreads => exact hreads.mono hsub
    | link hreads hF _ ih =>
      refine (hreads.mono hsub).append (.eps ?_ ih)
      exact (hE' _ _ _).2 (Or.inr ⟨rfl, hF⟩)

theorem Links.mono (hE' : Links E E' F) (h : Traces E s w t) : Traces E' s w t :=
  h.mono fun s l t hE => (hE' s l t).2 (Or.inl hE)

theorem Links.traces (hE' : Links E E' F) (h : F s t) : Traces E' s [] t :=
  .eps ((hE' _ _ _).2 (Or.inr ⟨rfl, h⟩)) (.refl _)

theorem Linked.of_stuck (hstuck : Stuck E s) (hF : ∀ v, ¬ F s v)
    (h : Linked E F s w t) : w = [] ∧ t = s := by
  cases h with
  | stay hreads => exact hreads.of_stuck hstuck
  | link hreads hlink _ =>
    obtain ⟨-, rfl⟩ := hreads.of_stuck hstuck
    exact absurd hlink (hF _)

-- ==== parts in a series

variable {L M : Language α} {a b i o p q : σ}

/-- One part after another: the end of the first is linked with the
beginning of the second. -/
theorem series (hE' : Links E E' fun s t => s = o ∧ t = p)
    (hS : Closed E S) (hT : Closed E T) (hdisj : ∀ s ∈ S, s ∉ T)
    (hi : i ∈ S) (ho : o ∈ S) (hp : p ∈ T) (hq : q ∈ T)
    (hL : ∀ w, Traces E i w o ↔ w ∈ L) (hM : ∀ w, Traces E p w q ↔ w ∈ M) :
    Traces E' i w q ↔ w ∈ L * M := by
  rw [Language.mem_mul]
  constructor
  · intro h
    cases (traces_iff_linked hE').1 h with
    | stay hreads => exact absurd hq (hdisj q (hreads.mem hS hi))
    | @link _ _ u v x y hfirst hF hrest =>
      obtain ⟨rfl, rfl⟩ := hF
      cases hrest with
      | stay hsecond =>
        exact ⟨x, (hL x).1 hfirst, y, (hM y).1 hsecond, rfl⟩
      | link hsecond hF _ =>
        obtain ⟨rfl, rfl⟩ := hF
        exact absurd (hsecond.mem hT hp) (hdisj _ ho)
  · rintro ⟨x, hx, y, hy, rfl⟩
    have hlink : Traces E' o [] p := hE'.traces ⟨rfl, rfl⟩
    have hfirst := hE'.mono ((hL x).2 hx)
    have hsecond := hE'.mono ((hM y).2 hy)
    exact hfirst.append (hlink.append hsecond)

-- ==== parts in parallel

/-- One more part between two ends that other parts stand between. -/
theorem parallel (hE' : Links E E' fun s t => s = a ∧ t = i ∨ s = o ∧ t = b)
    (hS : Closed E S) (hT : Closed E T) (hdisj : ∀ s ∈ S, s ∉ T)
    (ha : a ∈ S) (hb : b ∈ S) (hi : i ∈ T) (ho : o ∈ T) (hab : a ≠ b)
    (hnone : ∀ r ∈ S, ∀ l, ¬ E r l a) (hstuck : Stuck E b)
    (hL : ∀ w, Traces E a w b ↔ w ∈ L) (hM : ∀ w, Traces E i w o ↔ w ∈ M) :
    Traces E' a w b ↔ w ∈ L + M := by
  have hout : ∀ v, ¬ (b = a ∧ v = i ∨ b = o ∧ v = b) := by
    rintro v (⟨rfl, -⟩ | ⟨rfl, -⟩)
    · exact hab rfl
    · exact hdisj b hb ho
  rw [Language.mem_add]
  constructor
  · intro h
    cases (traces_iff_linked hE').1 h with
    | stay hreads => exact Or.inl ((hL w).1 hreads)
    | @link _ _ u v x y hfirst hF hrest =>
      rcases hF with ⟨rfl, rfl⟩ | ⟨rfl, rfl⟩
      · obtain ⟨rfl, -⟩ := hfirst.of_unentered hS ha hnone
        cases hrest with
        | stay hreads => exact absurd (hreads.mem hT hi) (hdisj b hb)
        | @link _ _ u' v' x' y' hsecond hF hend =>
          rcases hF with ⟨rfl, rfl⟩ | ⟨rfl, rfl⟩
          · exact absurd (hsecond.mem hT hi) (hdisj _ ha)
          · obtain ⟨rfl, -⟩ := hend.of_stuck hstuck hout
            rw [List.append_nil]
            exact Or.inr ((hM x').1 hsecond)
      · exact absurd ho (hdisj _ (hfirst.mem hS ha))
  · rintro (h | h)
    · exact hE'.mono ((hL w).2 h)
    · have hin : Traces E' a [] i := hE'.traces (Or.inl ⟨rfl, rfl⟩)
      have hout : Traces E' o [] b := hE'.traces (Or.inr ⟨rfl, rfl⟩)
      have hmid := hE'.mono ((hM w).2 h)
      have hall := hin.append (hmid.append hout)
      rwa [List.append_nil] at hall

-- ==== a part in ends

/-- The links between a part and a pair of new ends: in and out, past the
part where `skip`, and back where `back`. -/
def Wraps (skip back : Bool) (a b i o : σ) (s t : σ) : Prop :=
  s = a ∧ (t = i ∨ skip = true ∧ t = b) ∨ s = o ∧ (t = b ∨ back = true ∧ t = i)

/-- What a wrapped part reads when it is not skipped. -/
def laps (back : Bool) (L : Language α) : Language α :=
  if back then L * L∗ else L

theorem le_laps (back : Bool) (L : Language α) : L ≤ laps back L := by
  cases back with
  | false => exact le_refl L
  | true =>
    intro w hw
    refine Language.mem_mul.2 ⟨w, hw, [], ?_, List.append_nil w⟩
    exact Language.nil_mem_kstar L

/-- Once around, and on. -/
theorem append_mem_laps (hx : x ∈ L) (hy : y ∈ laps true L) : x ++ y ∈ laps true L := by
  obtain ⟨y₁, hy₁, y₂, hy₂, rfl⟩ := Language.mem_mul.1 hy
  refine Language.mem_mul.2 ⟨x, hx, y₁ ++ y₂, ?_, rfl⟩
  rw [← Language.one_add_self_mul_kstar_eq_kstar]
  exact Or.inr (Language.mem_mul.2 ⟨y₁, hy₁, y₂, hy₂, rfl⟩)

/-- A part between two new ends. -/
theorem wrap {skip back : Bool} (hE' : Links E E' (Wraps skip back a b i o)) (hS : Closed E S)
    (hi : i ∈ S) (ho : o ∈ S) (ha : a ∉ S) (hb : b ∉ S) (hab : a ≠ b)
    (hastuck : Stuck E a) (hbstuck : Stuck E b) (hL : ∀ w, Traces E i w o ↔ w ∈ L) :
    Traces E' a w b ↔ w ∈ (if skip then 1 else 0) + laps back L := by
  have hout : ∀ v, ¬ Wraps skip back a b i o b v := by
    rintro v (⟨rfl, -⟩ | ⟨rfl, -⟩)
    · exact hab rfl
    · exact hb ho
  have hlaps : ∀ w, Linked E (Wraps skip back a b i o) i w b → w ∈ laps back L := by
    -- the induction is over the links, from any state to `b`
    suffices hgen : ∀ {s w t}, Linked E (Wraps skip back a b i o) s w t →
        t = b → s = i → w ∈ laps back L from
      fun w h => hgen h rfl rfl
    intro s w t h
    induction h with
    | stay hreads =>
      rintro rfl rfl
      exact absurd (hreads.mem hS hi) hb
    | @link s t u v x y hfirst hF hrest ih =>
      rintro rfl rfl
      rcases hF with ⟨rfl, -⟩ | ⟨rfl, rfl | ⟨rfl, rfl⟩⟩
      · exact absurd (hfirst.mem hS hi) ha
      · obtain ⟨rfl, -⟩ := hrest.of_stuck hbstuck hout
        rw [List.append_nil]
        exact le_laps back L ((hL x).1 hfirst)
      · exact append_mem_laps ((hL x).1 hfirst) (ih rfl rfl)
  rw [Language.mem_add]
  constructor
  · intro h
    cases (traces_iff_linked hE').1 h with
    | stay hreads => exact absurd (hreads.of_stuck hastuck).2.symm hab
    | @link _ _ u v x y hfirst hF hrest =>
      obtain ⟨rfl, rfl⟩ := hfirst.of_stuck hastuck
      rcases hF with ⟨-, rfl | ⟨rfl, rfl⟩⟩ | ⟨rfl, -⟩
      · exact Or.inr (hlaps y hrest)
      · obtain ⟨rfl, -⟩ := hrest.of_stuck hbstuck hout
        exact Or.inl rfl
      · exact absurd ho ha
  · have hin : Traces E' a [] i := hE'.traces (Or.inl ⟨rfl, Or.inl rfl⟩)
    have hend : Traces E' o [] b := hE'.traces (Or.inr ⟨rfl, Or.inl rfl⟩)
    have honce : ∀ {w}, w ∈ L → Traces E' i w o :=
      fun hw => hE'.mono ((hL _).2 hw)
    rintro (h | h)
    · cases skip with
      | false => exact absurd h (Language.notMem_zero w)
      | true =>
        cases (Language.mem_one w).1 h
        exact hE'.traces (Or.inl ⟨rfl, Or.inr ⟨rfl, rfl⟩⟩)
    · cases back with
      | false =>
        have hall := hin.append ((honce h).append hend)
        rwa [List.append_nil] at hall
      | true =>
        have hback : Traces E' o [] i :=
          hE'.traces (Or.inr ⟨rfl, Or.inr ⟨rfl, rfl⟩⟩)
        obtain ⟨x, hx, y, hy, rfl⟩ := Language.mem_mul.1 h
        obtain ⟨ys, rfl, hys⟩ := Language.mem_kstar.1 hy
        have hround : ∀ ys : List (List α), (∀ y ∈ ys, y ∈ L) → Traces E' o ys.flatten o := by
          intro ys hys
          induction ys with
          | nil => exact .refl o
          | cons y ys ih =>
            have hy := honce (hys y List.mem_cons_self)
            have hrest := ih fun z hz =>
              hys z (List.mem_cons_of_mem y hz)
            exact hback.append (hy.append hrest)
        have hall := hin.append ((honce hx).append ((hround ys hys).append hend))
        rwa [List.append_nil] at hall

end OpenStandards.Lib

/-
A fact store that keeps its history: an append-only log of batches, each
asserting or retracting facts. The view as of a counter is what a replay of
that many batches leaves; nothing written later reaches it
(`factsAsOf_append`). What a query answers is a set: every query takes a
`RowOrder`, an arbitrary rearrangement of its answer.
-/
import Mathlib.Data.List.Perm.Basic
import Mathlib.Data.List.Nodup

namespace OpenStandards.Lib

/-- One write to the store. -/
inductive Batch (F : Type) where
  | transact (facts : List F)
  | retract (facts : List F)

/-- The history of the store. -/
abbrev FactLog (F : Type) := List (Batch F)

/-- An order of rows: some rearrangement of every answer. -/
structure RowOrder (F : Type) where
  order : List F → List F
  perm : ∀ l, (order l).Perm l

namespace RowOrder

variable {F : Type}

def asserted : RowOrder F := { order := id, perm := fun l => .refl l }

def first (p : F → Bool) : RowOrder F :=
  { order := fun l => l.filter p ++ l.filter fun f => !p f
    perm := fun l => List.filter_append_perm p l }

variable (ord : RowOrder F)

@[simp]
theorem order_nil : ord.order [] = [] := (ord.perm []).eq_nil

@[simp]
theorem mem_order {l : List F} {f : F} : f ∈ ord.order l ↔ f ∈ l :=
  (ord.perm l).mem_iff

end RowOrder

namespace FactLog

variable {F : Type}

def txCount (log : FactLog F) : Nat := log.length

def transact (log : FactLog F) (fs : List F) : FactLog F :=
  log ++ [.transact fs]

def retract (log : FactLog F) (fs : List F) : FactLog F :=
  log ++ [.retract fs]

@[simp]
theorem txCount_transact (log : FactLog F) (fs : List F) :
    (log.transact fs).txCount = log.txCount + 1 := List.length_append

@[simp]
theorem txCount_retract (log : FactLog F) (fs : List F) :
    (log.retract fs).txCount = log.txCount + 1 := List.length_append

end FactLog

section

variable {F : Type} [DecidableEq F]

def assertFact (view : List F) (f : F) : List F :=
  if f ∈ view then view else view ++ [f]

def Batch.apply (view : List F) : Batch F → List F
  | .transact fs => fs.foldl assertFact view
  | .retract fs => view.filter fun f => f ∉ fs

namespace FactLog

def facts (log : FactLog F) : List F := log.foldl Batch.apply []

/-- The facts asserted and not retracted by counter `n`. -/
def factsAsOf (log : FactLog F) (n : Nat) : List F := facts (log.take n)

@[simp]
theorem facts_transact (log : FactLog F) (fs : List F) :
    (log.transact fs).facts = fs.foldl assertFact log.facts := by
  unfold facts transact
  rw [List.foldl_append]
  rfl

@[simp]
theorem facts_retract (log : FactLog F) (fs : List F) :
    (log.retract fs).facts = log.facts.filter fun f => f ∉ fs := by
  unfold facts retract
  rw [List.foldl_append]
  rfl

theorem factsAsOf_append (log later : FactLog F) :
    factsAsOf (log ++ later) log.txCount = log.facts := by
  unfold factsAsOf txCount
  rw [List.take_left]

end FactLog

variable {view : List F} {f : F}

theorem assertFact_of_not_mem (h : f ∉ view) : assertFact view f = view ++ [f] := if_neg h

theorem assertFact_of_mem (h : f ∈ view) : assertFact view f = view := if_pos h

theorem mem_assertFact {g : F} : g ∈ assertFact view f ↔ g ∈ view ∨ g = f := by
  by_cases h : f ∈ view
  · rw [assertFact_of_mem h]
    constructor
    · exact .inl
    · rintro (hg | rfl)
      · exact hg
      · exact h
  · rw [assertFact_of_not_mem h]
    simp

theorem nodup_assertFact (hv : view.Nodup) (f : F) : (assertFact view f).Nodup := by
  by_cases h : f ∈ view
  · rw [assertFact_of_mem h]
    exact hv
  · rw [assertFact_of_not_mem h]
    exact List.nodup_append.2 ⟨hv, List.nodup_singleton f, by grind⟩

theorem assertFact_eq_append (view : List F) (f : F) :
    ∃ later, assertFact view f = view ++ later := by
  by_cases h : f ∈ view
  · exact ⟨[], by rw [assertFact_of_mem h, List.append_nil]⟩
  · exact ⟨[f], assertFact_of_not_mem h⟩

end

end OpenStandards.Lib

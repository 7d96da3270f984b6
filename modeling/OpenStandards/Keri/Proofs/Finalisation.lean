/-
What an identifier covers, and when a finalised event carries the one it
is checked against.

The check recomputes the digest of the event blanked; a finaliser writes
the digest of the event with its identifier blanked. A (delegated)
inception is checked with its controller blanked as well, so
`finalizeEvent` agrees with the check on it where the controller was empty
to begin with (`finalizeEvent_valid_iff`). What is blanked can be put back
from the identifier and the controller (`restore`), so a digest that tells
blanked events apart covers every other field.
-/
import OpenStandards.Keri.Proofs.Replay

namespace OpenStandards.Keri

open Lib SmartByte

-- ==== fields

namespace KeyEvent

def withController (aid : ControllerAid) : KeyEvent → KeyEvent
  | .inception e => .inception { e with i := aid }
  | .rotation e => .rotation { e with i := aid }
  | .interaction e => .interaction { e with i := aid }
  | .recovery e => .recovery { e with i := aid }
  | .delegation e => .delegation { e with i := aid }

variable (e : KeyEvent)

@[simp]
theorem said_withSaid (said : Said) : (e.withSaid said).said = said := by
  cases e <;> rfl

@[simp]
theorem prior_withSaid (said : Said) : (e.withSaid said).prior = e.prior := by
  cases e <;> rfl

@[simp]
theorem controller_withSaid (said : Said) : (e.withSaid said).controller = e.controller := by
  cases e <;> rfl

@[simp]
theorem prior_withController (aid : ControllerAid) :
    (e.withController aid).prior = e.prior := by
  cases e <;> rfl

@[simp]
theorem withController_self : e.withController e.controller = e := by
  cases e <;> rfl

theorem blanked_eq :
    e.blanked = if e.prior = none
      then (e.withSaid ⟨0⟩).withController ⟨""⟩ else e.withSaid ⟨0⟩ := by
  cases e with
  | inception e => rfl
  | rotation e => rfl
  | interaction e => rfl
  | recovery e => rfl
  | delegation e =>
    by_cases hs : e.s = 0 <;>
      simp [blanked, prior, withSaid, withController, hs]

theorem blanked_of_prior_none {e : KeyEvent} (h : e.prior = none) :
    e.blanked = (e.withSaid ⟨0⟩).withController ⟨""⟩ := by
  rw [blanked_eq, if_pos h]

theorem blanked_of_prior {e : KeyEvent} (h : e.prior ≠ none) : e.blanked = e.withSaid ⟨0⟩ := by
  rw [blanked_eq, if_neg h]

theorem prior_blanked : e.blanked.prior = e.prior := by
  rw [blanked_eq]
  split <;> simp

/-- Blanking does not see the identifier. -/
theorem blanked_withSaid (said : Said) : (e.withSaid said).blanked = e.blanked := by
  rw [blanked_eq, blanked_eq, prior_withSaid]
  cases e <;> rfl

theorem blanked_withController {e : KeyEvent} (h : e.prior = none)
    (aid : ControllerAid) : (e.withController aid).blanked = e.blanked := by
  rw [blanked_of_prior_none h, blanked_of_prior_none (by rw [prior_withController, h])]
  cases e <;> rfl

/-- What was blanked is put back. -/
theorem restore (aid : ControllerAid) :
    (e.blanked.withSaid e.said).withController aid = e.withController aid := by
  rw [blanked_eq]
  split <;> cases e <;> rfl

/-- Events of one identifier that are the same blanked differ in a derived
controller at most. -/
theorem eq_withController_of_blanked {e e' : KeyEvent}
    (hsaid : e'.said = e.said) (hblanked : e'.blanked = e.blanked) :
    e' = e ∨ e.prior = none ∧ e' = e.withController e'.controller := by
  have hrestored : e' = e.withController e'.controller := by
    have h := restore e' e'.controller
    rw [withController_self, hblanked, hsaid, restore] at h
    exact h.symm
  by_cases hprior : e.prior = none
  · exact Or.inr ⟨hprior, hrestored⟩
  · have hprior' : e'.prior ≠ none := by
      rw [← prior_blanked, hblanked, prior_blanked]
      exact hprior
    have hcontroller : e'.controller = e.controller := by
      have h := congrArg controller hblanked
      rw [blanked_of_prior hprior, blanked_of_prior hprior',
        controller_withSaid, controller_withSaid] at h
      exact h
    rw [hcontroller, withController_self] at hrestored
    exact Or.inl hrestored

end KeyEvent

-- ==== finalisation

namespace Primitives

variable {prims : Primitives}

/-- The digests of the encodings tell the events of a set apart. The set
is that of the events at hand: there are more events than digests. -/
def TellsApart (prims : Primitives) (S : Set KeyEvent) : Prop :=
  Set.InjOn (fun e => prims.saidHash (prims.cborEvent e)) S

theorem finalizeInception_valid (e : InceptionEvent) :
    prims.validateSaid (.inception (prims.finalizeInception e)) = .ok () :=
  validateSaid_ok_iff.2 rfl

/-- The digest that is written against the one it is checked with. -/
theorem validateSaid_finalizeEvent (e : KeyEvent) :
    prims.validateSaid (prims.finalizeEvent e) = .ok ()
      ↔ prims.saidHash (prims.cborEvent e.blanked)
        = prims.saidHash (prims.cborEvent (e.withSaid ⟨0⟩)) := by
  rw [validateSaid_ok_iff]
  unfold finalizeEvent recomputeSaid
  rw [KeyEvent.said_withSaid, KeyEvent.blanked_withSaid]

theorem blanked_eq_withSaid {e : KeyEvent} (h : e.prior = none → e.controller = ⟨""⟩) :
    e.blanked = e.withSaid ⟨0⟩ := by
  by_cases hprior : e.prior = none
  · have hself := (e.withSaid ⟨0⟩).withController_self
    rw [KeyEvent.controller_withSaid, h hprior] at hself
    rw [KeyEvent.blanked_of_prior_none hprior, hself]
  · exact KeyEvent.blanked_of_prior hprior

theorem finalizeEvent_valid {e : KeyEvent} (h : e.prior = none → e.controller = ⟨""⟩) :
    prims.validateSaid (prims.finalizeEvent e) = .ok () := by
  rw [validateSaid_finalizeEvent, blanked_eq_withSaid h]

/-- Beside a valid event, another under its identifier is valid where it
is the same but for a derived controller. -/
theorem validateSaid_tampered {S : Set KeyEvent} (hapart : prims.TellsApart S) {f f' : KeyEvent}
    (hvalid : prims.validateSaid f = .ok ()) (hsaid : f'.said = f.said)
    (hf : f.blanked ∈ S) (hf' : f'.blanked ∈ S) :
    prims.validateSaid f' = .ok ()
      ↔ f' = f ∨ f.prior = none ∧ f' = f.withController f'.controller := by
  rw [validateSaid_ok_iff] at hvalid ⊢
  unfold recomputeSaid at hvalid ⊢
  constructor
  · intro hvalid'
    apply KeyEvent.eq_withController_of_blanked hsaid
    exact hapart hf' hf (hvalid'.trans (hsaid.trans hvalid.symm))
  · intro h
    have hblanked : f'.blanked = f.blanked := by
      cases h with
      | inl heq => rw [heq]
      | inr heq => rw [heq.2, KeyEvent.blanked_withController heq.1]
    rw [hblanked, hvalid, hsaid]

/-- **Finalised events are valid, and their identifiers cover them.** An
inception is valid as `finalizeInception` leaves it; any event is as
`finalizeEvent` leaves it, where a (delegated) inception comes with an
empty controller. Under the identifier of a valid event every other event
is invalid, but for the derived controller of a (delegated) inception; and
the same event is invalid under every other identifier. -/
theorem finalised_valid {S : Set KeyEvent} (hapart : prims.TellsApart S) :
    (∀ e, prims.validateSaid (.inception (prims.finalizeInception e)) = .ok ())
    ∧ (∀ e : KeyEvent, (e.prior = none → e.controller = ⟨""⟩) →
      prims.validateSaid (prims.finalizeEvent e) = .ok ())
    ∧ ∀ f : KeyEvent, prims.validateSaid f = .ok () →
      (∀ f' : KeyEvent, f'.said = f.said → f.blanked ∈ S →
        f'.blanked ∈ S →
        (prims.validateSaid f' = .ok ()
          ↔ f' = f ∨ f.prior = none ∧ f' = f.withController f'.controller))
      ∧ ∀ said, prims.validateSaid (f.withSaid said) = .ok () ↔ said = f.said := by
  refine ⟨finalizeInception_valid, fun e => finalizeEvent_valid,
    fun f hvalid => ⟨fun f' hsaid => validateSaid_tampered hapart hvalid hsaid,
      fun said => ?_⟩⟩
  rw [validateSaid_ok_iff] at hvalid ⊢
  unfold recomputeSaid at hvalid ⊢
  rw [KeyEvent.blanked_withSaid, KeyEvent.said_withSaid, hvalid]
  exact eq_comm

def sampleControlled : Primitives :=
  { Primitives.sample with
    cborEvent := fun e => e.summary
      ++ e.controller.text.toList.map fun c => UInt8.ofNat c.toNat }

def interactionAt (s : UInt64) : KeyEvent :=
  .interaction
    { v := "SBYTE10JSON", t := .interaction, d := ⟨0⟩, i := ⟨"BC"⟩, s
      p := ⟨0⟩, a := [] }

/-- A finalised interaction is valid, with another number it is not. -/
theorem sequence_covered :
    sampleControlled.validateSaid (sampleControlled.finalizeEvent (interactionAt 1)) = .ok ()
      ∧ sampleControlled.validateSaid ((interactionAt 2).withSaid
          (sampleControlled.finalizeEvent (interactionAt 1)).said)
        ≠ .ok () := by
  have hapart : sampleControlled.TellsApart
      {interactionAt 1, interactionAt 2} := by
    rintro e (rfl | rfl) e' (rfl | rfl) h
    · rfl
    · exact absurd h (by decide +kernel)
    · exact absurd h (by decide +kernel)
    · rfl
  obtain ⟨-, hevent, hcovers⟩ := finalised_valid hapart
  have hvalid := hevent (interactionAt 1) (by decide)
  refine ⟨hvalid, fun h => ?_⟩
  have hsame := ((hcovers _ hvalid).1 ((interactionAt 2).withSaid
    (sampleControlled.finalizeEvent (interactionAt 1)).said) rfl
    (Set.mem_insert _ _) (Set.mem_insert_of_mem _ rfl)).1 h
  exact absurd hsame (by decide +kernel)

def namedDelegation : KeyEvent :=
  .delegation
    { v := "SBYTE10JSON", t := .delegation, d := ⟨0⟩, i := ⟨"BC"⟩, s := 0
      p := ⟨0⟩, di := ⟨"BP"⟩, kt := ⟨1⟩, k := [], nt := ⟨1⟩, n := [] }

def emptyInception : KeyEvent :=
  .inception (sampleControlled.finalizeInception
    { v := "SBYTE10JSON", t := .inception, d := ⟨0⟩, i := ⟨""⟩, s := 0
      kt := ⟨1⟩, k := [], nt := ⟨1⟩, n := [], c := [], b := [], bt := ⟨0⟩
      a := [] })

/-- A finalised delegated inception is invalid, and an inception is valid
under another controller. -/
theorem controller_uncovered :
    sampleControlled.validateSaid (sampleControlled.finalizeEvent namedDelegation) ≠ .ok ()
      ∧ emptyInception.withController ⟨"BC"⟩ ≠ emptyInception
      ∧ sampleControlled.validateSaid (emptyInception.withController ⟨"BC"⟩) = .ok () := by
  decide +kernel

end Primitives

end OpenStandards.Keri

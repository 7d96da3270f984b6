/-
Who may extend an ownership chain.

`push` compares the hash of the last transition, so the chain is linked by
hashes whatever is pushed (`built_linked`). It does not look at the owner:
whoever knows the chain can write the hash, and from then on is accepted
(`anyone_accepted`). The chain passes from owner to owner exactly in the
runs whose accepted transfers name the owner of the time
(`continuous_iff`): each step adds one joint to the chain, the one between
the last transition and the new one.
-/
import OpenStandards.SmartByte.Ownership

namespace OpenStandards.SmartByte

open Lib

section

variable (blake3 : List UInt8 → Blake3Hash)
  (cbor : Transition → List UInt8)

namespace OwnershipChain

-- ==== statement vocabulary

/-- Each transition carries the hash of the one before it, the first
none. -/
structure Linked (chain : OwnershipChain) : Prop where
  genesis : ∀ t ∈ chain.transitions.head?, t.priorHash = none
  joints : chain.transitions.IsChain fun prev t =>
    t.priorHash = some (prev.contentHash blake3 cbor)

def Owned (chain : OwnershipChain) : Prop :=
  chain.transitions.IsChain fun prev t => t.from = prev.to

def OwnerOnly (chain : OwnershipChain) (t : Transition) : Prop :=
  ∀ chain', chain.push blake3 cbor t = .ok chain' → ∀ owner ∈ chain.currentOwner, t.from = owner

def ByOwner (chain : OwnershipChain) (t : Transition) : Prop :=
  t.priorHash = chain.expectedPrior blake3 cbor → ∀ owner ∈ chain.currentOwner, t.from = owner

variable {blake3 cbor}

-- ==== one step

variable {chain : OwnershipChain}

theorem ownerOnly_iff {t : Transition} :
    chain.OwnerOnly blake3 cbor t ↔ chain.ByOwner blake3 cbor t := by
  constructor
  · intro h hprior owner howner
    exact h _ (push_eq_ok.2 ⟨hprior, rfl⟩) owner howner
  · intro h chain' hpush owner howner
    exact h (push_eq_ok.1 hpush).1 owner howner

/-- The hash check makes the new joint. -/
theorem Linked.attempt (t : Transition) (h : chain.Linked blake3 cbor) :
    (chain.attempt blake3 cbor t).Linked blake3 cbor := by
  rcases attempt_cases blake3 cbor chain t with
    ⟨hprior, -, heq⟩ | ⟨-, -, heq⟩
  · constructor
    · intro first hfirst
      rw [heq] at hfirst
      cases hts : chain.transitions with
      | nil =>
        rw [hts] at hfirst
        obtain rfl : t = first := Option.some.inj hfirst
        rw [hprior]
        unfold expectedPrior
        rw [hts]
        rfl
      | cons t0 ts =>
        rw [hts] at hfirst
        refine h.genesis first ?_
        rw [hts]
        exact hfirst
    · rw [heq]
      refine h.joints.append (List.isChain_singleton t) ?_
      intro prev hprev t' ht'
      obtain rfl : t = t' := Option.some.inj ht'
      rw [hprior]
      unfold expectedPrior
      rw [Option.mem_def.1 hprev]
      rfl
  · rw [heq]
    exact h

/-- A call keeps the chain in the owners' hands exactly where its
transfer is the owner's. -/
theorem owned_attempt_iff (t : Transition) :
    (chain.attempt blake3 cbor t).Owned ↔ chain.Owned ∧ chain.ByOwner blake3 cbor t := by
  rcases attempt_cases blake3 cbor chain t with
    ⟨hprior, -, heq⟩ | ⟨hprior, -, heq⟩
  · unfold Owned
    rw [heq, List.isChain_append]
    constructor
    · rintro ⟨howned, -, hjoint⟩
      refine ⟨howned, fun _ owner howner => ?_⟩
      obtain ⟨prev, hprev, rfl⟩ := Option.map_eq_some_iff.1 howner
      exact hjoint prev hprev t rfl
    · rintro ⟨howned, hby⟩
      refine ⟨howned, List.isChain_singleton t, ?_⟩
      intro prev hprev t' ht'
      obtain rfl : t = t' := Option.some.inj ht'
      exact hby hprior _ (Option.mem_map_of_mem _ hprev)
  · rw [heq]
    exact ⟨fun h => ⟨h, fun hp => absurd hp hprior⟩, fun h => h.1⟩

-- ==== runs

theorem linked_empty : empty.Linked blake3 cbor :=
  ⟨fun t ht => absurd ht (Option.not_mem_none t), .nil⟩

/-- Whatever is pushed, the chain is linked by hashes. -/
theorem built_linked (ts : List Transition) : (built blake3 cbor ts).Linked blake3 cbor :=
  run_invariant (P := fun _ _ => True) (fun _ t h _ => h.attempt t)
    linked_empty (along_trivial _ ts)

/-- A run keeps the chain in the owners' hands exactly where each of its
transfers is the owner's. -/
theorem owned_run_iff (ts : List Transition) :
    (run (attempt blake3 cbor) chain ts).Owned
      ↔ chain.Owned ∧ Along (attempt blake3 cbor) (ByOwner blake3 cbor) chain ts := by
  induction ts generalizing chain with
  | nil => exact ⟨fun h => ⟨h, trivial⟩, fun h => h.1⟩
  | cons t ts ih =>
    show (run _ (chain.attempt blake3 cbor t) ts).Owned ↔ _
    rw [ih, owned_attempt_iff, and_assoc]
    rfl

variable (blake3 cbor) in
theorem anyone_accepted (chain : OwnershipChain) (party : Said) :
    ∃ t chain', t.from = party ∧ chain.push blake3 cbor t = .ok chain' :=
  ⟨.unsigned party party (chain.expectedPrior blake3 cbor), _, rfl, push_eq_ok.2 ⟨rfl, rfl⟩⟩

/-- **When a chain passes from owner to owner.** In every run of pushes
from the empty chain, accepted or refused: every chain reached is linked
by hashes; every chain reached passes from owner to owner, and every
transfer accepted on the way is the current owner's, if and only if each
transfer pushed is from the current owner or does not carry the expected
hash. That no other party could have been next is true only before the
first transfer. -/
theorem continuous_iff (ts : List Transition) :
    (∀ before after, ts = before ++ after → (built blake3 cbor before).Linked blake3 cbor)
      ∧ ((∀ before after, ts = before ++ after → (built blake3 cbor before).Owned)
          ∧ Along (attempt blake3 cbor) (OwnerOnly blake3 cbor) empty ts
        ↔ Along (attempt blake3 cbor) (ByOwner blake3 cbor) empty ts)
      ∧ ∀ before after, ts = before ++ after →
        ((∀ t, (built blake3 cbor before).OwnerOnly blake3 cbor t)
          ↔ (built blake3 cbor before).transitions = []) := by
  refine ⟨fun before _ _ => built_linked before, ?_, ?_⟩
  · constructor
    · intro h
      exact ((owned_run_iff ts).1 (h.1 ts [] (List.append_nil ts).symm)).2
    · intro h
      constructor
      · intro before after heq
        rw [heq, along_append] at h
        exact (owned_run_iff before).2 ⟨.nil, h.1⟩
      · exact h.mono_mem fun t _ chain => ownerOnly_iff.2
  · intro before after _
    generalize built blake3 cbor before = chain
    constructor
    · intro h
      by_contra hne
      obtain ⟨last, hlast⟩ : ∃ last, chain.transitions.getLast? = some last :=
        ⟨_, List.getLast?_eq_some_getLast hne⟩
      have howner : last.to ∈ chain.currentOwner := by
        unfold currentOwner
        rw [hlast]
        rfl
      -- a stranger: the owner's digest with its bits flipped
      obtain ⟨t, chain', hfrom, hpush⟩ := anyone_accepted blake3 cbor chain
        ⟨~~~last.to.digest⟩
      have hsame := h t chain' hpush _ howner
      rw [hfrom] at hsame
      have hbit : (~~~last.to.digest).getLsbD 0 = last.to.digest.getLsbD 0 :=
        congrArg (fun s : Said => s.digest.getLsbD 0) hsame
      rw [BitVec.getLsbD_not] at hbit
      revert hbit
      cases last.to.digest.getLsbD 0 <;> simp
    · intro hnil t chain' _ owner howner
      unfold currentOwner at howner
      rw [hnil] at howner
      cases howner

end OwnershipChain

end

/-- Alice transfers to Bob, and then Mallory, who owns nothing, to
herself, under the hash of Alice's transfer. -/
def takeover (blake3 : List UInt8 → Blake3Hash)
    (cbor : Transition → List UInt8) : List Transition :=
  let first := Transition.unsigned ⟨1⟩ ⟨2⟩ none
  [first, .unsigned ⟨3⟩ ⟨3⟩ (some (first.contentHash blake3 cbor))]

/-- Under no hash and no encoding is the takeover refused. -/
theorem takeover_accepted :
    ¬ ∃ blake3 cbor,
      (OwnershipChain.built blake3 cbor (takeover blake3 cbor)).Owned
        ∨ (OwnershipChain.built blake3 cbor
            (takeover blake3 cbor)).currentOwner ≠ some ⟨3⟩ := by
  rintro ⟨blake3, cbor, h⟩
  have hbuilt : OwnershipChain.built blake3 cbor (takeover blake3 cbor)
      = { transitions := takeover blake3 cbor } := by
    unfold OwnershipChain.built takeover run
    simp [OwnershipChain.attempt, OwnershipChain.push, OwnershipChain.empty,
      OwnershipChain.expectedPrior, Transition.unsigned]
  rw [hbuilt] at h
  rcases h with h | h
  · unfold OwnershipChain.Owned takeover at h
    have hjoint := List.isChain_pair.1 h
    exact absurd hjoint (by decide : (⟨3⟩ : Said) ≠ ⟨2⟩)
  · exact h rfl

end OpenStandards.SmartByte

/-
The digests shared by the smart-byte crates (smart-byte-core `lib.rs`,
`said.rs`). An array of 32 bytes is a 256-bit vector whose low byte is
the first element.
-/
import OpenStandards.Lib.Bytes
import OpenStandards.Lib.Run
import Mathlib.Data.List.Chain

namespace OpenStandards.SmartByte

open Lib

abbrev Blake3Hash := BitVec 256

/-- The bytes of a digest, in array order. -/
def hashBytes (h : Blake3Hash) : List UInt8 := leBytes 32 h.toNat

theorem ofLeBytes_hashBytes (h : Blake3Hash) :
    BitVec.ofNat 256 (ofLeBytes (hashBytes h)) = h := by
  unfold hashBytes
  rw [ofLeBytes_leBytes_of_lt h.isLt, BitVec.ofNat_toNat, BitVec.setWidth_eq]

theorem length_hashBytes (h : Blake3Hash) : (hashBytes h).length = 32 :=
  length_leBytes ..

/-- A self-addressing identifier: the digest of what it names. -/
structure Said where
  digest : Blake3Hash
deriving DecidableEq

/-
The ownership chain of an envelope (smart-byte-core `ownership.rs`).

Each transfer is a transition that carries the hash of the one before it;
the chain only grows, by `push`, which compares that hash and nothing
else.

BLAKE3 and the CBOR encoding of a transition are from outside this
repository: parameters, of which nothing is assumed.
-/

abbrev SignatureBytes := BitVec 512

/-- One link in the ownership chain. -/
structure Transition where
  /-- The outgoing owner. -/
  «from» : Said
  /-- The incoming owner. -/
  «to» : Said
  signature : SignatureBytes
  /-- The hash of the previous transition, none for the genesis. -/
  priorHash : Option Blake3Hash

def Transition.unsigned (source target : Said) (priorHash : Option Blake3Hash) : Transition :=
  { «from» := source, «to» := target, signature := 0, priorHash }

/-- The chain refuses a transition. -/
inductive OwnershipError where
  | brokenLink

/-- An append-only chain of transitions. -/
structure OwnershipChain where
  transitions : List Transition

section

variable (blake3 : List UInt8 → Blake3Hash)
  (cbor : Transition → List UInt8)

def Transition.contentHash (t : Transition) : Blake3Hash := blake3 (cbor t)

namespace OwnershipChain

def empty : OwnershipChain := { transitions := [] }

def currentOwner (chain : OwnershipChain) : Option Said :=
  chain.transitions.getLast?.map Transition.to

def expectedPrior (chain : OwnershipChain) : Option Blake3Hash :=
  chain.transitions.getLast?.map (Transition.contentHash blake3 cbor)

def push (chain : OwnershipChain) (t : Transition) : Except OwnershipError OwnershipChain :=
  if t.priorHash ≠ chain.expectedPrior blake3 cbor then .error .brokenLink
  else .ok { transitions := chain.transitions ++ [t] }

/-- A call of `push` on the chain: a refused transition leaves it as it
was. -/
def attempt (chain : OwnershipChain) (t : Transition) : OwnershipChain :=
  match chain.push blake3 cbor t with
  | .ok chain' => chain'
  | .error _ => chain

def built (ts : List Transition) : OwnershipChain :=
  run (attempt blake3 cbor) empty ts

variable {blake3 cbor}

theorem push_eq_ok {chain chain' : OwnershipChain} {t : Transition} :
    chain.push blake3 cbor t = .ok chain'
      ↔ t.priorHash = chain.expectedPrior blake3 cbor
        ∧ chain' = { transitions := chain.transitions ++ [t] } := by
  unfold push
  by_cases h : t.priorHash = chain.expectedPrior blake3 cbor
  · rw [if_neg (not_not.2 h), Except.ok.injEq]
    exact ⟨fun heq => ⟨h, heq.symm⟩, fun heq => heq.2.symm⟩
  · rw [if_pos h]
    exact ⟨nofun, fun heq => absurd heq.1 h⟩

variable (blake3 cbor) in
/-- A call appends the transition or changes nothing. -/
theorem attempt_cases (chain : OwnershipChain) (t : Transition) :
    (t.priorHash = chain.expectedPrior blake3 cbor
        ∧ chain.push blake3 cbor t = .ok (chain.attempt blake3 cbor t)
        ∧ (chain.attempt blake3 cbor t).transitions = chain.transitions ++ [t])
      ∨ (t.priorHash ≠ chain.expectedPrior blake3 cbor
        ∧ chain.push blake3 cbor t = .error .brokenLink
        ∧ chain.attempt blake3 cbor t = chain) := by
  unfold attempt push
  by_cases h : t.priorHash = chain.expectedPrior blake3 cbor
  · rw [if_neg (not_not.2 h)]
    exact Or.inl ⟨h, rfl, rfl⟩
  · rw [if_pos h]
    exact Or.inr ⟨h, rfl, rfl⟩

end OwnershipChain

end

end OpenStandards.SmartByte

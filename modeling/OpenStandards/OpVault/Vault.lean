/-
The token vault (op-vault `card_data.rs`, `policy.rs`, `in_memory.rs`): a
validated card is serialised, encrypted and held under a minted token, with
the policy it was issued under.

The cipher and the serialiser are a `Backend`; a nonce, an identifier and a
clock reading are arguments of the call that draws them. A `CardData` is
what its constructor validated; a wiped one holds no card. No call panics
while it holds the lock, so the lock is never poisoned.
-/
import OpenStandards.Lib.Checked
import OpenStandards.Lib.Table
import OpenStandards.Lib.Text

namespace OpenStandards.OpVault

open Lib

-- ==== errors

inductive Error where
  | invalidToken
  | notFound
  | authFailed
  | expired
  | alreadyConsumed
  | backend (text : Text)
  | invalidCard (reason : String)
deriving DecidableEq

-- ==== cards

def isAsciiDigit (c : Char) : Bool := '0' ≤ c && c ≤ '9'

/-- `to_digit(10)`. -/
def toDigit (c : Char) : Option Nat :=
  if isAsciiDigit c then some (c.toNat - '0'.toNat) else none

/-- What a digit adds to the check sum, at its place from the right. -/
def luhnValue (d i : Nat) : Nat :=
  if i % 2 = 1 then
    let doubled := d * 2
    if doubled > 9 then doubled - 9 else doubled
  else d

/-- The mod-10 check. -/
def luhnOk (pan : Text) : Bool :=
  let digits := pan.filterMap toDigit
  if digits.length ≠ pan.byteLen then false
  else (digits.reverse.zipIdx.map fun e => luhnValue e.1 e.2).sum % 10 = 0

def validatePan (pan : Text) : Except Error Unit :=
  if ¬ pan.all isAsciiDigit then
    .error (.invalidCard "non-digit characters")
  else if ¬ (12 ≤ pan.byteLen ∧ pan.byteLen ≤ 19) then
    .error (.invalidCard "length")
  else if ¬ luhnOk pan then .error (.invalidCard "luhn")
  else .ok ()

def validateExpiration (month : UInt8) (year : UInt16) : Except Error Unit :=
  if ¬ (1 ≤ month ∧ month ≤ 12) then
    .error (.invalidCard "expiration month")
  else if ¬ (2000 ≤ year ∧ year ≤ 2099) then
    .error (.invalidCard "expiration year")
  else .ok ()

/-- A card that passed the checks of its constructor. -/
structure CardData where
  pan : Text
  expMonth : UInt8
  expYear : UInt16
  pan_ok : validatePan pan = .ok ()
  expiration_ok : validateExpiration expMonth expYear = .ok ()

/-- `CardData::new`. -/
def CardData.new (pan : Text) (expMonth : UInt8) (expYear : UInt16) : Except Error CardData :=
  match hpan : validatePan pan with
  | .error e => .error e
  | .ok () =>
    match hexp : validateExpiration expMonth expYear with
    | .error e => .error e
    | .ok () => .ok ⟨pan, expMonth, expYear, hpan, hexp⟩

-- ==== policies

inductive TokenFormat where
  | random
  | deterministic

inductive TokenLifetime where
  | reusable
  | singleUse
deriving DecidableEq

structure TokenizationPolicy where
  format : TokenFormat
  lifetime : TokenLifetime
  ttlSeconds : Option UInt64

-- ==== clock

/-- The seconds of a clock reading: an `OffsetDateTime`, whose years are from
-9999 to 9999. -/
structure Timestamp where
  seconds : I64
  lower : -377705116800 ≤ seconds.val
  upper : seconds.val ≤ 253402300799

-- ==== the vault

abbrev Bytes := List UInt8

abbrev Nonce := Vector UInt8 12

/-- The plaintext of an entry. -/
structure StoredCard where
  pan : Text
  expMonth : UInt8
  expYear : UInt16
deriving DecidableEq

/-- The cipher under its key, and the serialiser. -/
structure Backend where
  encrypt : Nonce → Bytes → Option Bytes
  decrypt : Nonce → Bytes → Option Bytes
  toVec : StoredCard → Except Text Bytes
  fromSlice : Bytes → Except Text StoredCard

structure Metadata where
  nonce : Nonce
  ciphertext : Bytes
  policy : TokenizationPolicy
  issuedAt : Timestamp
  consumed : Bool

/-- A token: an opaque id. -/
structure VaultRef where
  id : Text
deriving DecidableEq

def tokenPrefix : Text := "tok_v7_".toList

def WellFormed (token : VaultRef) : Prop := tokenPrefix <+: token.id

instance : DecidablePred WellFormed := fun token =>
  inferInstanceAs (Decidable (tokenPrefix <+: token.id))

abbrev Store := Table Text Metadata

/-- A fresh token for a card. -/
def mintToken (uuid : Text) : VaultRef := { id := tokenPrefix ++ uuid }

def tokenize (b : Backend) (store : Store) (card : CardData)
    (policy : TokenizationPolicy) (nonce : Nonce) (uuid : Text)
    (now : Timestamp) : Except Error VaultRef × Store :=
  match Text.fromUtf8? (Text.utf8 card.pan) with
  | none => (.error (.backend "non-utf8 pan".toList), store)
  | some pan =>
    let stored : StoredCard :=
      { pan, expMonth := card.expMonth, expYear := card.expYear }
    match b.toVec stored with
    | .error e => (.error (.backend ("serialize: ".toList ++ e)), store)
    | .ok plaintext =>
      match b.encrypt nonce plaintext with
      | none => (.error (.backend "encrypt".toList), store)
      | some ciphertext =>
        let token := mintToken uuid
        let metadata : Metadata :=
          { nonce, ciphertext, policy, issuedAt := now
            consumed := false }
        (.ok token, store.insert token.id metadata)

/-- The age of an entry has reached its time to live. -/
def expired (m : Metadata) (now : Timestamp) : Bool :=
  match m.policy.ttlSeconds with
  | none => false
  | some ttl =>
    let age := (now.seconds.saturatingSub m.issuedAt.seconds).val
    0 ≤ age && ttl.toNat ≤ age

/-- A single-use entry is marked when it was decrypted. -/
def consume (m : Metadata) : Metadata :=
  if m.policy.lifetime = .singleUse then { m with consumed := true } else m

def detokenize (b : Backend) (store : Store) (token : VaultRef)
    (now : Timestamp) : Except Error CardData × Store :=
  if ¬ WellFormed token then (.error .invalidToken, store)
  else
    match store.lookup token.id with
    | none => (.error .notFound, store)
    | some m =>
      if expired m now then (.error .expired, store)
      else if m.policy.lifetime = .singleUse ∧ m.consumed = true then
        (.error .alreadyConsumed, store)
      else
        match b.decrypt m.nonce m.ciphertext with
        | none => (.error .authFailed, store)
        | some plaintext =>
          match b.fromSlice plaintext with
          | .error e =>
            (.error (.backend ("deserialize: ".toList ++ e)), store)
          | .ok stored =>
            (CardData.new stored.pan stored.expMonth stored.expYear,
              store.insert token.id (consume m))

/-- `exists`. -/
def tokenExists (store : Store) (token : VaultRef) : Bool :=
  WellFormed token ∧ (store.lookup token.id).isSome

def delete (store : Store) (token : VaultRef) : Bool × Store :=
  if ¬ WellFormed token then (false, store)
  else ((store.lookup token.id).isSome, store.erase token.id)

-- ==== calls

/-- A call, with what it draws from outside. -/
inductive Call where
  | tokenize (card : CardData) (policy : TokenizationPolicy) (nonce : Nonce)
      (uuid : Text) (now : Timestamp)
  | detokenize (token : VaultRef) (now : Timestamp)
  | tokenExists (token : VaultRef)
  | delete (token : VaultRef)

/-- What a call answers. -/
inductive Answer where
  | token (result : Except Error VaultRef)
  | card (result : Except Error CardData)
  | flag (result : Bool)

def Call.run (b : Backend) (store : Store) : Call → Answer × Store
  | .tokenize card policy nonce uuid now =>
    let (result, store) :=
      OpVault.tokenize b store card policy nonce uuid now
    (.token result, store)
  | .detokenize token now =>
    let (result, store) := OpVault.detokenize b store token now
    (.card result, store)
  | .tokenExists token => (.flag (OpVault.tokenExists store token), store)
  | .delete token =>
    let (result, store) := OpVault.delete store token
    (.flag result, store)

end OpenStandards.OpVault

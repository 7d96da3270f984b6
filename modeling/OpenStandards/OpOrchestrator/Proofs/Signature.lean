/-
What a body signature tells apart.

The signature writes the minor units, the currency code, the kind of the
method and then three free texts, each behind a fixed label. The free texts
are read back up to shifts across a label that one of them holds. The
signature leaves out the exponent of the currency and what a wallet, a
terminal or a raw card sent, writes a colon between routing and account
number, and writes an absent country as the empty one.
-/
import OpenStandards.OpOrchestrator.Proofs.Idempotency

namespace OpenStandards.OpOrchestrator

open Lib OpCore

-- ==== the parts

/-- The fixed text a method's signature begins with. -/
def methodLabel : PaymentMethod → String
  | .vault _ => "Vault:"
  | .wallet _ => "Wallet:<opaque>"
  | .emv _ => "Emv:<binary>"
  | .a2a (.upi _) => "A2a:upi:"
  | .a2a (.pix _) => "A2a:pix:"
  | .a2a (.iban _) => "A2a:iban:"
  | .a2a (.usAch _ _) => "A2a:usach:"
  | .qr _ => "Qr:"
  | .crypto _ => "Crypto:"
  | .rawPan _ => "RawPan:<pci-scoped>"

/-- What a method's signature says beyond its kind. -/
def methodText : PaymentMethod → String
  | .vault v => v.id
  | .wallet _ => ""
  | .emv _ => ""
  | .a2a (.upi h) => h
  | .a2a (.pix h) => h
  | .a2a (.iban i) => i
  | .a2a (.usAch routing account) => routing ++ ":" ++ account
  | .qr s => s
  | .crypto a => a.chain ++ ":" ++ a.address
  | .rawPan _ => ""

def PaymentIntent.texts (i : PaymentIntent) : Labelled.Parts Char :=
  ((methodText i.method).toList,
    [("|cc=".toList, (i.hints.customerCountry.getD "").toList),
      ("|mc=".toList, (i.hints.merchantCountry.getD "").toList)])

theorem methodSignature_eq (m : PaymentMethod) :
    methodSignature m = methodLabel m ++ methodText m := by
  cases m with
  | a2a k =>
    cases k <;>
      simp only [methodSignature, a2aKeySignature, methodLabel, methodText,
        ← String.append_assoc] <;> rfl
  | crypto a =>
    simp only [methodSignature, methodLabel, methodText, String.append_assoc]
  | _ => rfl

def methodLabels : List String :=
  ["Vault:", "Wallet:<opaque>", "Emv:<binary>", "A2a:upi:", "A2a:pix:",
    "A2a:iban:", "A2a:usach:", "Qr:", "Crypto:", "RawPan:<pci-scoped>"]

theorem methodLabel_mem (m : PaymentMethod) : methodLabel m ∈ methodLabels := by
  cases m with
  | a2a k => cases k <;> simp [methodLabel, methodLabels]
  | _ => simp [methodLabel, methodLabels]

theorem methodLabels_eq_of_isPrefix : ∀ l ∈ methodLabels, ∀ l' ∈ methodLabels,
    l.toList <+: l'.toList → l = l' := by
  decide

/-- A text is behind the label of one kind only. -/
theorem methodLabel_inj {m m' : PaymentMethod} {s t : List Char}
    (h : (methodLabel m).toList ++ s = (methodLabel m').toList ++ t) :
    methodLabel m = methodLabel m' ∧ s = t := by
  have hlabel : methodLabel m = methodLabel m' := by
    cases List.prefix_or_prefix_of_prefix (List.prefix_append _ s)
        (h ▸ List.prefix_append _ t) with
    | inl hp =>
      exact methodLabels_eq_of_isPrefix _ (methodLabel_mem m) _ (methodLabel_mem m') hp
    | inr hp =>
      exact (methodLabels_eq_of_isPrefix _ (methodLabel_mem m') _ (methodLabel_mem m) hp).symm
  rw [hlabel] at h
  exact ⟨hlabel, List.append_cancel_left h⟩

-- ==== the leading parts

theorem toList_toString_int (x : Int) : (toString x).toList = Text.signed x := by
  cases x with
  | ofNat n =>
    have hneg : ¬ (Int.ofNat n < 0) := by simp
    rw [Text.signed, if_neg hneg]
    exact Nat.toList_repr
  | negSucc n =>
    rw [Text.signed, if_pos (Int.negSucc_lt_zero n)]
    show ("-" ++ (n + 1).repr).toList = _
    rw [String.toList_append, Nat.toList_repr]
    rfl

theorem bar_notMem_signed (x : Int) : '|' ∉ Text.signed x := by
  have hdigits : '|' ∉ Nat.toDigits 10 x.natAbs := fun h =>
    absurd (Text.isDigit_toDigits h) (by decide)
  unfold Text.signed
  split
  · simp [hdigits]
  · exact hdigits

theorem signed_inj {x y : Int} (h : Text.signed x = Text.signed y) : x = y := by
  have hread := readNumeral_signed x
  rw [h, readNumeral_signed y] at hread
  simp only [Option.some.injEq, Numeral.mk.injEq] at hread
  exact hread.1.symm

theorem toList_bodySignature (i : PaymentIntent) :
    i.bodySignature.toList = "amount=".toList
      ++ (Text.signed i.amount.minorUnits.val
      ++ '|' :: ("currency=".toList ++ (i.amount.currency.code.toList
      ++ ("|method=".toList ++ ((methodLabel i.method).toList
      ++ Labelled.joined i.texts.1 i.texts.2))))) := by
  unfold PaymentIntent.bodySignature
  simp only [String.toList_append, toList_toString_int, methodSignature_eq,
    PaymentIntent.texts, Labelled.joined, List.append_assoc]
  rfl

-- ==== what is confused

/-- What the signature does not tell apart: two intents with the same minor
units, currency code and kind of method, and free texts that shifts lead
between. -/
structure Alike (i j : PaymentIntent) : Prop where
  minorUnits : i.amount.minorUnits = j.amount.minorUnits
  code : i.amount.currency.code = j.amount.currency.code
  kind : methodLabel i.method = methodLabel j.method
  texts : Relation.EqvGen Labelled.Shift i.texts j.texts

theorem texts_labels (i : PaymentIntent) :
    Labelled.labels i.texts = ["|cc=".toList, "|mc=".toList] := rfl

theorem texts_isLabel (i : PaymentIntent) :
    ∀ l ∈ Labelled.labels i.texts, Labelled.IsLabel l := by
  intro l hl
  simp only [texts_labels, List.mem_cons, List.not_mem_nil, or_false] at hl
  cases hl with
  | inl h => exact ⟨'|', "cc=".toList, h, by decide⟩
  | inr h => exact ⟨'|', "mc=".toList, h, by decide⟩

theorem bodySignature_eq_iff (i j : PaymentIntent) :
    i.bodySignature = j.bodySignature ↔ Alike i j := by
  have htexts := Labelled.joined_eq_iff (x := i.texts) (y := j.texts) rfl (texts_isLabel i)
  constructor
  · intro h
    have h := congrArg String.toList h
    rw [toList_bodySignature, toList_bodySignature] at h
    have h := List.append_cancel_left h
    -- the number ends at the first bar
    obtain ⟨hunits, h⟩ := Labelled.cut_at_first (bar_notMem_signed _) (bar_notMem_signed _) h
    have h := List.append_cancel_left h
    obtain ⟨hcode, h⟩ := List.append_inj h (by simp)
    have h := List.append_cancel_left h
    obtain ⟨hkind, h⟩ := methodLabel_inj h
    exact ⟨I64.ext (signed_inj hunits), String.toList_injective hcode, hkind, htexts.1 h⟩
  · intro h
    apply String.toList_injective
    rw [toList_bodySignature, toList_bodySignature, h.minorUnits, h.code,
      h.kind, htexts.2 h.texts]

/-- **Which payments the signature separates.** For every two intents:
that their signatures differ where their bodies do holds exactly when the
bodies are equal or the intents are not alike. -/
theorem separates_iff (i j : PaymentIntent) :
    (i.body ≠ j.body → i.bodySignature ≠ j.bodySignature) ↔ i.body = j.body ∨ ¬ Alike i j := by
  rw [Ne, Ne, bodySignature_eq_iff]
  constructor
  · intro h
    by_cases hbody : i.body = j.body
    · exact .inl hbody
    · exact .inr (h hbody)
  · intro h hbody
    exact h.resolve_left hbody

def vaultIntent (token country : String) : PaymentIntent :=
  { idempotencyKey := ⟨"key-1"⟩
    amount := Money.fromMinor 1000 .USD
    method := .vault ⟨token⟩
    hints := { customerCountry := some country } }

/-- The end of one token and the beginning of another country. -/
theorem token_reads_as_country :
    ¬ ((vaultIntent "tok|cc=US" "").body ≠ (vaultIntent "tok" "US|cc=").body
      → (vaultIntent "tok|cc=US" "").bodySignature
        ≠ (vaultIntent "tok" "US|cc=").bodySignature) := by
  intro h
  exact h (by decide) (by decide)

end OpenStandards.OpOrchestrator

/-
Idempotent replay by external id.

`same_body` sorts both entry lists by account, direction and minor units,
a key without the currency, and compares the results. Two entries that
differ in the currency alone keep their relative order. A stored
transaction has no such pair (`CurrencyByAccount`), and against such a list
the comparison is equality of multisets (`sort_eq_iff_perm`).
-/
import OpenStandards.OpLedger.Proofs.AppendOnly

namespace OpenStandards.OpLedger

open Lib OpCore

namespace InMemoryLedgerStore

variable {s : InMemoryLedgerStore}

-- ==== the comparison

def CurrencyByAccount (es : List Entry) : Prop :=
  ∀ e ∈ es, ∀ e' ∈ es, e.accountId = e'.accountId → e.amount.currency = e'.amount.currency

theorem sortKeyLe_total : ∀ a b : Entry, sortKeyLe a b ∨ sortKeyLe b a := by
  intro a b
  unfold sortKeyLe
  omega

theorem sortKeyLe_trans : ∀ a b c : Entry, sortKeyLe a b → sortKeyLe b c → sortKeyLe a c := by
  intro a b c
  unfold sortKeyLe
  omega

instance : Std.Total sortKeyLe := ⟨sortKeyLe_total⟩

instance : IsTrans Entry sortKeyLe := ⟨sortKeyLe_trans⟩

theorem eq_of_sortKeyLe {a b : Entry} (hab : sortKeyLe a b)
    (hba : sortKeyLe b a) (hcur : a.accountId = b.accountId →
      a.amount.currency = b.amount.currency) : a = b := by
  obtain ⟨⟨⟨x⟩⟩, da, ⟨ma, ca⟩⟩ := a
  obtain ⟨⟨⟨y⟩⟩, db, ⟨mb, cb⟩⟩ := b
  simp only [sortKeyLe] at hab hba
  have hxy : x = y := by omega
  subst hxy
  have hcab : ca = cb := hcur rfl
  subst hcab
  have hm : ma = mb := by
    apply I64.ext
    cases da <;> cases db <;> simp only at hab hba <;> omega
  subst hm
  have hd : da = db := by
    cases da <;> cases db <;> simp at hab hba ⊢
  subst hd
  rfl

/-- Against entries whose account fixes their currency, equal after the
sort means equal as multisets. -/
theorem sort_eq_iff_perm {es es' : List Entry} (hc : CurrencyByAccount es) :
    es.insertionSort sortKeyLe = es'.insertionSort sortKeyLe ↔ es.Perm es' := by
  constructor
  · intro h
    have h₁ := List.perm_insertionSort sortKeyLe es
    have h₂ := List.perm_insertionSort sortKeyLe es'
    rw [← h] at h₂
    exact h₁.symm.trans h₂
  · intro h
    have hp : (es.insertionSort sortKeyLe).Perm (es'.insertionSort sortKeyLe) :=
      (List.perm_insertionSort _ _).trans (h.trans (List.perm_insertionSort _ _).symm)
    refine List.Perm.eq_of_pairwise ?_ (List.pairwise_insertionSort _ _)
      (List.pairwise_insertionSort _ _) hp
    intro a b ha hb hab hba
    refine eq_of_sortKeyLe hab hba (hc a ?_ b ?_)
    · exact (List.mem_insertionSort _).1 ha
    · exact h.mem_iff.2 ((List.mem_insertionSort _).1 hb)

/-- Against a transaction whose accounts fix their currency, the same
body is the same ledger and the same multiset of entries. -/
theorem sameBody_iff {a b : Transaction} (hc : CurrencyByAccount a.entries) :
    sameBody a b = true ↔ a.ledgerId = b.ledgerId ∧ a.entries.Perm b.entries := by
  unfold sameBody
  by_cases hl : a.ledgerId = b.ledgerId
  · by_cases hlen : a.entries.length = b.entries.length
    · simp only [hl, hlen, ne_eq, not_true_eq_false, if_false, decide_eq_true_eq, true_and]
      exact sort_eq_iff_perm hc
    · simp only [hl, hlen, ne_eq, not_true_eq_false, not_false_eq_true,
        if_false, if_true, true_and, Bool.false_eq_true, false_iff]
      intro hp
      exact hlen hp.length_eq
  · simp [hl]

-- ==== stored bodies

/-- Every stored transaction belongs to a stored ledger, and in it an
account fixes the currency of its entries. -/
structure BodiesSound (s : InMemoryLedgerStore) : Prop where
  ledger : ∀ id t, s.transactions.lookup id = some t → (s.ledgers.lookup t.ledgerId).isSome
  currency : ∀ id t, s.transactions.lookup id = some t → CurrencyByAccount t.entries

theorem bodiesSound_new : BodiesSound new := by
  refine ⟨?_, ?_⟩
  · intro id t h
    cases h
  · intro id t h
    cases h

theorem currencyByAccount_of_reachesPersist {t : Transaction}
    (hr : ReachesPersist s t) : CurrencyByAccount t.entries := by
  intro e he e' he' hacc
  obtain ⟨a, hl, -, hcur⟩ := validateEntry_ok.1 (hr.2.2 e he)
  obtain ⟨a', hl', -, hcur'⟩ := validateEntry_ok.1 (hr.2.2 e' he')
  rw [hacc, hl'] at hl
  cases hl
  rw [← hcur, ← hcur']

/-- Every call keeps the stored bodies sound: what the persist step
stores has passed the checks, and no ledger is ever removed. -/
theorem bodiesSound_step {op : Op} (hb : BodiesSound s) : BodiesSound (s.step op) := by
  have heff := step_effect s op
  generalize s.step op = s' at heff
  cases heff with
  | same => exact hb
  | ledger l =>
    refine ⟨?_, hb.currency⟩
    intro id t hl
    show ((s.ledgers.insert l.id l).lookup t.ledgerId).isSome
    rw [Table.lookup_insert_eq]
    by_cases hid : t.ledgerId = l.id
    · rw [if_pos hid]
      rfl
    · rw [if_neg hid]
      exact hb.ledger id t hl
  | account a => exact ⟨hb.ledger, hb.currency⟩
  | posted t hr =>
    have hor : ∀ id t', (s.persist t).transactions.lookup id = some t' →
        t' = t ∨ s.transactions.lookup id = some t' := by
      intro id t' hl
      rw [lookup_persist] at hl
      by_cases hid : id = t.id
      · rw [if_pos hid] at hl
        exact Or.inl (Option.some.inj hl).symm
      · rw [if_neg hid] at hl
        exact Or.inr hl
    refine ⟨?_, ?_⟩
    · intro id t' hl
      rcases hor id t' hl with rfl | hl
      · exact hr.1
      · exact hb.ledger id t' hl
    · intro id t' hl
      rcases hor id t' hl with rfl | hl
      · exact currencyByAccount_of_reachesPersist hr
      · exact hb.currency id t' hl
  | settled id t st hl =>
    have hor : ∀ id' t', (s.settle id t st).transactions.lookup id' = some t' →
        t' = { t with status := st } ∨ s.transactions.lookup id' = some t' := by
      intro id' t' hl'
      rw [lookup_settle] at hl'
      by_cases hid : id' = id
      · rw [if_pos hid] at hl'
        exact Or.inl (Option.some.inj hl').symm
      · rw [if_neg hid] at hl'
        exact Or.inr hl'
    refine ⟨?_, ?_⟩
    · intro id' t' hl'
      rcases hor id' t' hl' with rfl | hl'
      · exact hb.ledger id t hl
      · exact hb.ledger id' t' hl'
    · intro id' t' hl'
      rcases hor id' t' hl' with rfl | hl'
      · exact hb.currency id t hl
      · exact hb.currency id' t' hl'

-- ==== the replay

/-- A submission under the external id of a stored transaction, as the
call decides it: an unknown ledger first, then the comparison of the
bodies; the state is the one it found. -/
theorem postTransaction_replay (hi : IndexExact s) {id : TransactionId}
    {stored t : Transaction} {ext : String} (hl : s.transactions.lookup id = some stored)
    (hstored : stored.externalId = some ext) (ht : t.externalId = some ext) :
    s.postTransaction t
      = if (s.ledgers.lookup t.ledgerId).isNone then
          (.error (.ledgerNotFound t.ledgerId.toString), s)
        else if sameBody stored t then (.ok id, s)
        else (.error .idempotencyMismatch, s) := by
  have hix : s.indexed t.externalId = some id := by
    rw [ht]
    exact (hi.exact ext id).2 ⟨stored, hl, hstored⟩
  unfold postTransaction
  simp only [hix, hl]

/-- **Idempotent replay.** In every state reached by calls that
overwrite nothing (in particular when every submitted transaction has a
fresh id), a submission under the external id of a stored transaction
answers that transaction's id exactly when the bodies agree as ledger
and multiset of entries, answers `IdempotencyMismatch` otherwise (if it
names an existing ledger at all), and leaves the store, so every
balance, as it is. At most one stored transaction carries an external
id. -/
theorem idempotent_replay (ops : List Op) (hrun : Along step StepOverwritesNothing new ops)
    (id : TransactionId) (stored t : Transaction) (ext : String)
    (hl : (new.run ops).transactions.lookup id = some stored)
    (hstored : stored.externalId = some ext) (ht : t.externalId = some ext) :
    (((new.run ops).postTransaction t).1 = .ok stored.id ↔
      t.ledgerId = stored.ledgerId ∧ t.entries.Perm stored.entries)
    ∧ (((new.run ops).ledgers.lookup t.ledgerId).isSome →
      ¬ (t.ledgerId = stored.ledgerId ∧ t.entries.Perm stored.entries) →
      ((new.run ops).postTransaction t).1 = .error .idempotencyMismatch)
    ∧ ((new.run ops).postTransaction t).2 = new.run ops
    ∧ (∀ walk a, ((new.run ops).postTransaction t).2.balance walk a
        = (new.run ops).balance walk a)
    ∧ (∀ id₁ id₂ t₁ t₂ ext',
        (new.run ops).transactions.lookup id₁ = some t₁ →
        (new.run ops).transactions.lookup id₂ = some t₂ →
        t₁.externalId = some ext' → t₂.externalId = some ext' →
        id₁ = id₂) := by
  have hi : IndexExact (new.run ops) :=
    run_invariant (fun _ _ hi ho => indexExact_step hi ho) indexExact_new hrun
  have hb : BodiesSound (new.run ops) :=
    run_invariant (fun _ _ hb _ => bodiesSound_step hb) bodiesSound_new hrun
  have hkey := hi.key id stored hl
  have hpost := postTransaction_replay hi hl hstored ht
  have hsym : (t.ledgerId = stored.ledgerId ∧ t.entries.Perm stored.entries)
      ↔ sameBody stored t = true := by
    rw [sameBody_iff (hb.currency id stored hl), eq_comm, List.perm_comm]
  have hsame : ((new.run ops).postTransaction t).2 = new.run ops := by
    rw [hpost]
    split
    · rfl
    · split <;> rfl
  have hsome : ((new.run ops).ledgers.lookup t.ledgerId).isSome →
      ¬ ((new.run ops).ledgers.lookup t.ledgerId).isNone := by
    intro h
    rw [Option.isSome_iff_exists] at h
    obtain ⟨l, hl⟩ := h
    rw [hl]
    exact Bool.false_ne_true
  refine ⟨?_, ?_, hsame, ?_, ?_⟩
  · rw [hsym, hpost, hkey]
    by_cases hbody : sameBody stored t = true
    · have hledger := hb.ledger id stored hl
      rw [← (hsym.2 hbody).1] at hledger
      rw [if_neg (hsome hledger), if_pos hbody]
      simp [hbody]
    · rw [if_neg hbody]
      split <;> simp [hbody]
  · rw [hsym, hpost]
    intro hledger hbody
    rw [if_neg (hsome hledger), if_neg hbody]
  · intro walk a
    rw [hsame]
  · intro id₁ id₂ t₁ t₂ ext' hl₁ hl₂ hx₁ hx₂
    have h₁ := (hi.exact ext' id₁).2 ⟨t₁, hl₁, hx₁⟩
    have h₂ := (hi.exact ext' id₂).2 ⟨t₂, hl₂, hx₂⟩
    rw [h₁] at h₂
    cases h₂
    rfl

def bookedSale : List Op :=
  Setup.calls ++
    [.postTransaction ((Setup.saleTransaction 4 .posted
      ⟨700, by decide⟩).withExternalId "ord-7")]

/-- Replaying the sale under a second id answers the first id and books
nothing. -/
theorem idempotent_replay_bookedSale :
    ((new.run bookedSale).postTransaction
        ((Setup.saleTransaction 5 .posted
          ⟨700, by decide⟩).withExternalId "ord-7")).1 = .ok ⟨⟨4⟩⟩
    ∧ ((new.run bookedSale).postTransaction
        ((Setup.saleTransaction 5 .posted
          ⟨700, by decide⟩).withExternalId "ord-7")).2
      = new.run bookedSale := by
  have hfresh : StepOverwritesNothing (new.run Setup.calls)
      (.postTransaction ((Setup.saleTransaction 4 .posted
        ⟨700, by decide⟩).withExternalId "ord-7")) := by
    intro _ t₀ hl
    rw [show (new.run Setup.calls).transactions.lookup _ = none from rfl]
      at hl
    cases hl
  have h := idempotent_replay bookedSale
    ⟨trivial, trivial, trivial, hfresh, trivial⟩ ⟨⟨4⟩⟩
    ((Setup.saleTransaction 4 .posted ⟨700, by decide⟩).withExternalId "ord-7")
    ((Setup.saleTransaction 5 .posted ⟨700, by decide⟩).withExternalId "ord-7")
    "ord-7" (by decide) rfl rfl
  exact ⟨h.1.2 ⟨rfl, .refl _⟩, h.2.2.1⟩

end InMemoryLedgerStore

end OpenStandards.OpLedger

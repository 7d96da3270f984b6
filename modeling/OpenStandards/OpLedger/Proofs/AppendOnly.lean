/-
The append-only promise of the in-memory store, and where it breaks.

`Transaction::post` and `archive` refuse a terminal transaction, but
the persist step of `post_transaction` writes under the id the submitted
value carries: a value submitted again under a stored id replaces what is
stored, status and all. The promise holds exactly for the submissions that
overwrite nothing (`postKeeps_iff`). In a run of such submissions the
reverse index is exact (`IndexExact`), and terminal transactions keep their
status and entries for good.
-/
import OpenStandards.OpLedger.Proofs.Steps

namespace OpenStandards.OpLedger

open Lib OpCore

namespace InMemoryLedgerStore

variable {s : InMemoryLedgerStore}

-- ==== one submission

def Agrees (t₀ t₁ : Transaction) : Prop :=
  t₁.status = t₀.status ∧ t₁.entries = t₀.entries ∧ t₁.externalId = t₀.externalId

/-- Posting `t` leaves every stored transaction as it was. -/
def PostKeeps (s : InMemoryLedgerStore) (t : Transaction) : Prop :=
  ∀ id t₀, s.transactions.lookup id = some t₀ →
    ∃ t₁, (s.postTransaction t).2.transactions.lookup id = some t₁ ∧ Agrees t₀ t₁

/-- Whatever is stored under the id of a submission that reaches the
persist step already agrees with it. -/
def OverwritesNothing (s : InMemoryLedgerStore) (t : Transaction) : Prop :=
  ReachesPersist s t → ∀ t₀, s.transactions.lookup t.id = some t₀ → Agrees t₀ t

theorem postKeeps_iff (s : InMemoryLedgerStore) (t : Transaction) :
    PostKeeps s t ↔ OverwritesNothing s t := by
  rcases postTransaction_cases s t with ⟨hr, heq⟩ | ⟨hr, heq⟩
  · constructor
    · intro hk _ t₀ hl
      obtain ⟨t₁, hl₁, hag⟩ := hk t.id t₀ hl
      rw [heq, lookup_persist, if_pos rfl] at hl₁
      cases hl₁
      exact hag
    · intro ho id t₀ hl
      rw [heq]
      by_cases hid : id = t.id
      · subst hid
        exact ⟨t, by rw [lookup_persist, if_pos rfl], ho hr t₀ hl⟩
      · exact ⟨t₀, by rw [lookup_persist, if_neg hid]; exact hl,
          rfl, rfl, rfl⟩
  · constructor
    · intro _ hr'
      exact absurd hr' hr
    · intro _ id t₀ hl
      rw [heq]
      exact ⟨t₀, hl, rfl, rfl, rfl⟩

def StepOverwritesNothing (s : InMemoryLedgerStore) : Op → Prop
  | .postTransaction t => OverwritesNothing s t
  | _ => True

-- ==== the index

/-- The reverse index is exact: an external id is indexed under the one
stored transaction that carries it. -/
structure IndexExact (s : InMemoryLedgerStore) : Prop where
  key : ∀ id t, s.transactions.lookup id = some t → t.id = id
  exact : ∀ ext id, s.byExternalId.lookup ext = some id ↔
    ∃ t, s.transactions.lookup id = some t ∧ t.externalId = some ext

theorem indexExact_new : IndexExact new := by
  refine ⟨?_, ?_⟩
  · intro id t h
    cases h
  · intro ext id
    constructor
    · intro h
      cases h
    · rintro ⟨t, h, -⟩
      cases h

variable {t : Transaction}

/-- A submission that overwrites nothing keeps the index exact. Where
its id is already stored, the stored value agrees with it, so its
external id is either absent or indexed; the second is not the persist
step. -/
theorem indexExact_persist (hi : IndexExact s) (ho : OverwritesNothing s t)
    (hr : ReachesPersist s t) : IndexExact (s.persist t) := by
  have hstored : ∀ t₀, s.transactions.lookup t.id = some t₀ →
      t.externalId = none ∧ t₀.externalId = none := by
    intro t₀ hl
    obtain ⟨-, -, hext⟩ := ho hr t₀ hl
    cases hx : t.externalId with
    | none =>
      rw [hx] at hext
      exact ⟨rfl, hext.symm⟩
    | some ext =>
      rw [hx] at hext
      have hix := (hi.exact ext t.id).2 ⟨t₀, hl, hext.symm⟩
      have hnone := hr.2.1
      rw [hx] at hnone
      rw [show s.indexed (some ext) = s.byExternalId.lookup ext from rfl, hix] at hnone
      cases hnone
  refine ⟨?_, ?_⟩
  · intro id t' hl
    rw [lookup_persist] at hl
    by_cases hid : id = t.id
    · rw [if_pos hid] at hl
      cases hl
      exact hid.symm
    · rw [if_neg hid] at hl
      exact hi.key id t' hl
  · intro ext id
    rw [lookup_persist_index]
    by_cases hx : t.externalId = some ext
    · -- the submission brings this external id: no stored one carries it
      rw [if_pos hx]
      have hfree : s.byExternalId.lookup ext = none := by
        have hnone := hr.2.1
        rw [hx] at hnone
        exact hnone
      constructor
      · intro h
        cases h
        exact ⟨t, by rw [lookup_persist, if_pos rfl], hx⟩
      · rintro ⟨t', hl, hx'⟩
        rw [lookup_persist] at hl
        by_cases hid : id = t.id
        · rw [hid]
        · rw [if_neg hid] at hl
          have := (hi.exact ext id).2 ⟨t', hl, hx'⟩
          rw [hfree] at this
          cases this
    · rw [if_neg hx, hi.exact ext id]
      constructor
      · rintro ⟨t', hl, hx'⟩
        refine ⟨t', ?_, hx'⟩
        rw [lookup_persist, if_neg ?_]
        · exact hl
        · rintro rfl
          rw [(hstored t' hl).2] at hx'
          cases hx'
      · rintro ⟨t', hl, hx'⟩
        rw [lookup_persist] at hl
        by_cases hid : id = t.id
        · rw [if_pos hid] at hl
          cases hl
          exact absurd hx' hx
        · rw [if_neg hid] at hl
          exact ⟨t', hl, hx'⟩

theorem indexExact_settle {id : TransactionId} {st : Status}
    (hi : IndexExact s) (hl : s.transactions.lookup id = some t) :
    IndexExact (s.settle id t st) := by
  refine ⟨?_, ?_⟩
  · intro id' t' hl'
    rw [lookup_settle] at hl'
    by_cases hid : id' = id
    · rw [if_pos hid] at hl'
      cases hl'
      rw [hid]
      exact hi.key id t hl
    · rw [if_neg hid] at hl'
      exact hi.key id' t' hl'
  · intro ext id'
    rw [show (s.settle id t st).byExternalId = s.byExternalId from rfl,
      hi.exact ext id', lookup_settle]
    by_cases hid : id' = id
    · subst hid
      rw [if_pos rfl, hl]
      simp
    · rw [if_neg hid]

theorem indexExact_step {op : Op} (hi : IndexExact s)
    (ho : StepOverwritesNothing s op) : IndexExact (s.step op) := by
  have heff := step_effect s op
  generalize s.step op = s' at heff
  cases heff with
  | same => exact hi
  | ledger l => exact ⟨hi.key, hi.exact⟩
  | account a => exact ⟨hi.key, hi.exact⟩
  | posted t hr => exact indexExact_persist hi ho hr
  | settled id t st hl => exact indexExact_settle hi hl

theorem findByExternalId_of_indexExact (hi : IndexExact s) {ext : String}
    (h : s.findByExternalId ext = some t) : t.externalId = some ext := by
  unfold findByExternalId at h
  obtain ⟨id, hix, hl⟩ := Option.bind_eq_some_iff.1 h
  obtain ⟨t', hl', hx⟩ := (hi.exact ext id).1 hix
  rw [hl] at hl'
  cases hl'
  exact hx

-- ==== terminal transactions

/-- Under `id` a transaction with this terminal status and these entries
is stored. -/
def Settled (id : TransactionId) (st : Status) (es : List Entry)
    (s : InMemoryLedgerStore) : Prop :=
  ∃ t, s.transactions.lookup id = some t ∧ t.status = st ∧ t.entries = es

theorem settled_step {op : Op} {id : TransactionId} {st : Status}
    {es : List Entry} (hst : st.isTerminal) (h : Settled id st es s)
    (ho : StepOverwritesNothing s op) : Settled id st es (s.step op) := by
  have heff := step_effect s op
  generalize s.step op = s' at heff
  obtain ⟨t, hl, hts, hte⟩ := h
  cases heff with
  | same => exact ⟨t, hl, hts, hte⟩
  | ledger l => exact ⟨t, hl, hts, hte⟩
  | account a => exact ⟨t, hl, hts, hte⟩
  | posted t' hr =>
    by_cases hid : id = t'.id
    · rw [hid] at hl
      obtain ⟨hs', he', -⟩ := ho hr t hl
      exact ⟨t', by rw [lookup_persist, if_pos hid], hs'.trans hts, he'.trans hte⟩
    · exact ⟨t, by rw [lookup_persist, if_neg hid]; exact hl, hts, hte⟩
  | settled id' t' st' hl' hp =>
    have hid : id ≠ id' := by
      rintro rfl
      rw [hl] at hl'
      cases hl'
      rw [← hts, hp] at hst
      cases hst
    exact ⟨t, by rw [lookup_settle, if_neg hid]; exact hl, hts, hte⟩

-- ==== whole runs

/-- **Append-only, exactly when nothing is overwritten.** In every
reachable state a submission keeps every stored transaction if and only
if it overwrites nothing. From there, along every continuation by calls
that overwrite nothing, a terminal transaction keeps its status and
entries; and in the states reached by such calls from the empty store a
lookup by external id answers a transaction with that external id. -/
theorem append_only (ops : List Op) :
    (∀ t, PostKeeps (new.run ops) t ↔ OverwritesNothing (new.run ops) t)
    ∧ (∀ ops', Along step StepOverwritesNothing (new.run ops) ops' →
        ∀ id t₀, (new.run ops).transactions.lookup id = some t₀ →
          t₀.status.isTerminal →
          ∃ t₁, (new.run (ops ++ ops')).transactions.lookup id = some t₁
            ∧ t₁.status = t₀.status ∧ t₁.entries = t₀.entries)
    ∧ (Along step StepOverwritesNothing new ops →
        ∀ ext t, (new.run ops).findByExternalId ext = some t → t.externalId = some ext) := by
  refine ⟨fun t => postKeeps_iff _ t, ?_, ?_⟩
  · intro ops' hrun' id t₀ hl hterm
    show Settled id t₀.status t₀.entries (Lib.run step new (ops ++ ops'))
    rw [run_append]
    exact run_invariant (fun _ _ h ho => settled_step hterm h ho)
      ⟨t₀, hl, rfl, rfl⟩ hrun'
  · intro hrun ext t hf
    exact findByExternalId_of_indexExact
      (run_invariant (fun _ _ hi ho => indexExact_step hi ho) indexExact_new hrun) hf

def settledSale : List Op :=
  Setup.calls ++
    [.postTransaction (Setup.saleTransaction 4 .pending ⟨500, by decide⟩), .markPosted ⟨⟨4⟩⟩]

/-- The run that books and settles one sale meets the conditions of both
run statements: the sale stays posted when the same calls come again for
another sale, and lookups in its final state are truthful. -/
theorem append_only_settledSale :
    (∃ t₁, (new.run (settledSale ++ [.postTransaction
          (Setup.saleTransaction 5 .pending ⟨700, by decide⟩)])
        ).transactions.lookup ⟨⟨4⟩⟩ = some t₁
      ∧ t₁.status = .posted ∧ t₁.entries = Setup.sale ⟨500, by decide⟩)
    ∧ (∀ ext t, (new.run settledSale).findByExternalId ext = some t →
        t.externalId = some ext) := by
  have hfresh : ∀ (s : InMemoryLedgerStore) (t : Transaction),
      s.transactions.lookup t.id = none →
      StepOverwritesNothing s (.postTransaction t) := by
    intro s t hnone _ t₀ hl
    rw [hnone] at hl
    cases hl
  obtain ⟨-, hkeep, hfind⟩ := append_only settledSale
  refine ⟨?_, ?_⟩
  · exact hkeep [.postTransaction (Setup.saleTransaction 5 .pending ⟨700, by decide⟩)]
      ⟨hfresh _ _ (by decide), trivial⟩ ⟨⟨4⟩⟩
      (Setup.saleTransaction 4 .posted ⟨500, by decide⟩) (by decide) rfl
  · exact hfind
      ⟨trivial, trivial, trivial, hfresh _ _ (by decide), trivial, trivial⟩

/-- Submitting the value of a settled sale again resets it to pending. -/
theorem resubmission_reopens_settled_sale :
    ¬ PostKeeps (new.run settledSale) (Setup.saleTransaction 4 .pending ⟨500, by decide⟩) := by
  intro hk
  obtain ⟨t₁, hl, hst, -⟩ := hk ⟨⟨4⟩⟩
    (Setup.saleTransaction 4 .posted ⟨500, by decide⟩) (by decide)
  have hpending : ((new.run settledSale).postTransaction
      (Setup.saleTransaction 4 .pending ⟨500, by decide⟩)).2.transactions.lookup
        ⟨⟨4⟩⟩ = some (Setup.saleTransaction 4 .pending ⟨500, by decide⟩) := by
    decide
  rw [hpending] at hl
  cases hl
  cases hst

end InMemoryLedgerStore

end OpenStandards.OpLedger

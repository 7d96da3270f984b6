/-
What the constructors promise: a built transaction is balanced per
currency code, as exact integers.

The tally loop keeps, for every code at once, the exact debit and
credit sums of the entries it has consumed (`Tracks`); a code the table
does not hold is tracked as zero. The final comparison is over the
table's rows, and reading it at an arbitrary code is what turns it into
`Balanced`.
-/
import OpenStandards.Lib.Fallible
import OpenStandards.OpLedger.Store

namespace OpenStandards.OpLedger

open Lib OpCore

section

-- ==== exact sums

def sideSum (dir : Direction) (code : String) (es : List Entry) : Int :=
  (es.map fun e =>
    if e.direction = dir ∧ e.amount.currency.code = code
    then e.amount.minorUnits.val else 0).sum

def Balanced (es : List Entry) : Prop :=
  ∀ code, sideSum .debit code es = sideSum .credit code es

theorem sideSum_append_singleton (dir : Direction) (code : String) (es : List Entry) (e : Entry) :
    sideSum dir code (es ++ [e]) = sideSum dir code es
      + if e.direction = dir ∧ e.amount.currency.code = code
        then e.amount.minorUnits.val else 0 := by
  simp [sideSum]

-- ==== the tally loop

/-- The table's row for a code, `(0, 0)` where it has none. -/
def row (tallies : Tallies) (code : String) : I64 × I64 :=
  (tallies.lookup code).getD (0, 0)

/-- The table holds the exact sums of the consumed entries. -/
def Tracks (es : List Entry) (tallies : Tallies) : Prop :=
  ∀ code, (row tallies code).1.val = sideSum .debit code es
    ∧ (row tallies code).2.val = sideSum .credit code es

theorem tracks_nil : Tracks [] ∅ := by
  intro code
  exact ⟨rfl, rfl⟩

theorem row_insert (tallies : Tallies) (cur code : String) (r : I64 × I64) :
    row (tallies.insert cur r) code = if code = cur then r else row tallies code := by
  unfold row
  rw [Table.lookup_insert_eq]
  split <;> rfl

variable {es : List Entry} {t : Transaction}

/-- One turn of the loop adds the entry to its own side of its own
code, and to nothing else. -/
theorem tracks_tallyEntry {tallies tallies' : Tallies} {e : Entry}
    (htr : Tracks es tallies) (h : tallyEntry tallies e = .ok tallies') :
    Tracks (es ++ [e]) tallies' := by
  intro code
  have hrow := htr e.amount.currency.code
  have hcode := htr code
  simp only [tallyEntry] at h
  rw [show (tallies.lookup e.amount.currency.code).getD (0, 0)
    = row tallies e.amount.currency.code from rfl] at h
  rw [sideSum_append_singleton, sideSum_append_singleton]
  cases hdir : e.direction with
  | debit =>
    simp only [hdir] at h
    split at h
    next debits hadd =>
      have hadd' := I64.checkedAdd_eq_some.1 hadd
      cases h
      rw [row_insert]
      by_cases hc : code = e.amount.currency.code
      · subst hc
        simp [hadd', hrow.1, hrow.2]
      · simp [hc, Ne.symm hc, hcode.1, hcode.2]
    next => cases h
  | credit =>
    simp only [hdir] at h
    split at h
    next credits hadd =>
      have hadd' := I64.checkedAdd_eq_some.1 hadd
      cases h
      rw [row_insert]
      by_cases hc : code = e.amount.currency.code
      · subst hc
        simp [hadd', hrow.1, hrow.2]
      · simp [hc, Ne.symm hc, hcode.1, hcode.2]
    next => cases h

-- ==== the constructors

/-- Entries that pass the check are balanced. -/
theorem balanced_of_validateBalanced (h : validateBalanced es = .ok ()) : Balanced es := by
  unfold validateBalanced at h
  obtain ⟨tallies, hfold, hcheck⟩ := bind_eq_ok.1 h
  have htr : Tracks es tallies :=
    foldlM_ok tracks_nil (fun _ _ _ _ hp hs => tracks_tallyEntry hp hs) hfold
  have hnone : tallies.entries.find? (fun p => decide (p.2.1 ≠ p.2.2)) = none := by
    split at hcheck
    · cases hcheck
    · assumption
  intro code
  rw [← (htr code).1, ← (htr code).2]
  unfold row
  cases hl : tallies.lookup code with
  | none => rfl
  | some r =>
    have hmem := AList.mem_lookup_iff.1 hl
    have := List.find?_eq_none.1 hnone _ hmem
    simpa using congrArg I64.val (by simpa using this)

theorem construct_ok {id : TransactionId} {lid : LedgerId} {st : Status}
    {eff : Nat} (h : Transaction.construct id lid st eff es = .ok t) :
    t.entries = es ∧ 2 ≤ es.length ∧ Balanced es := by
  unfold Transaction.construct at h
  by_cases hlen : es.length < 2
  · rw [if_pos hlen] at h
    cases h
  · rw [if_neg hlen] at h
    obtain ⟨_, hval, h⟩ := bind_eq_ok.1 h
    cases h
    exact ⟨rfl, by omega, balanced_of_validateBalanced hval⟩

/-- Every transaction the constructors and builders produce is balanced
and has at least two entries. -/
theorem Transaction.Built.entries_ok (h : t.Built) :
    2 ≤ t.entries.length ∧ Balanced t.entries := by
  induction h with
  | newPending h =>
    obtain ⟨rfl, hlen, hbal⟩ := construct_ok h
    exact ⟨hlen, hbal⟩
  | newPosted h =>
    obtain ⟨rfl, hlen, hbal⟩ := construct_ok h
    exact ⟨hlen, hbal⟩
  | reversalOf h =>
    obtain ⟨t', hnew, h⟩ := bind_eq_ok.1 h
    obtain ⟨hes, hlen, hbal⟩ := construct_ok hnew
    cases h
    exact ⟨by rw [hes]; exact hlen, by rw [hes]; exact hbal⟩
  | withExternalId _ _ ih => exact ih
  | withDescription _ _ ih => exact ih
  | withMetadata _ _ _ ih => exact ih

theorem construct_status {id : TransactionId} {lid : LedgerId} {st : Status}
    {eff : Nat} (h : Transaction.construct id lid st eff es = .ok t) :
    t.status = st := by
  unfold Transaction.construct at h
  by_cases hlen : es.length < 2
  · rw [if_pos hlen] at h
    cases h
  · rw [if_neg hlen] at h
    obtain ⟨_, -, h⟩ := bind_eq_ok.1 h
    cases h
    rfl

theorem Transaction.Built.status_ne_archived (h : t.Built) : t.status ≠ .archived := by
  induction h with
  | newPending h =>
    rw [construct_status h]
    exact nofun
  | newPosted h =>
    rw [construct_status h]
    exact nofun
  | reversalOf h =>
    obtain ⟨t', hnew, h⟩ := bind_eq_ok.1 h
    have hstatus := construct_status hnew
    cases h
    rw [show t'.status = .pending from hstatus]
    exact nofun
  | withExternalId _ _ ih => exact ih
  | withDescription _ _ ih => exact ih
  | withMetadata _ _ _ ih => exact ih

end

/-
What one call can do to the in-memory store: the inversion every
invariant of a run is derived from.

A call leaves the state alone, adds a ledger, adds an account, persists
a submitted transaction, or moves a pending transaction to a terminal
status. `postTransaction_cases` says when the persist step is reached
(`ReachesPersist`); otherwise the state is returned as it was found.
-/

namespace InMemoryLedgerStore

variable {s s' : InMemoryLedgerStore}

-- ==== posting, inverted

/-- The submission passes every check before the persist step. -/
def ReachesPersist (s : InMemoryLedgerStore) (t : Transaction) : Prop :=
  (s.ledgers.lookup t.ledgerId).isSome
    ∧ s.indexed t.externalId = none
    ∧ ∀ e ∈ t.entries, s.validateEntry t.ledgerId e = .ok ()

theorem validateEntry_ok {lid : LedgerId} {e : Entry} :
    s.validateEntry lid e = .ok () ↔
      ∃ a, s.accounts.lookup e.accountId = some a ∧ a.ledgerId = lid
        ∧ a.currency = e.amount.currency := by
  unfold validateEntry
  cases hl : s.accounts.lookup e.accountId with
  | none => simp
  | some a =>
    by_cases hlid : a.ledgerId = lid
    · by_cases hcur : a.currency = e.amount.currency
      · simp [hlid, hcur]
      · simp [hlid, hcur]
    · simp [hlid]

/-- Posting either reaches the persist step, or answers with the state
it found. -/
theorem postTransaction_cases (s : InMemoryLedgerStore) (t : Transaction) :
    (ReachesPersist s t ∧ s.postTransaction t = (.ok t.id, s.persist t))
      ∨ (¬ ReachesPersist s t ∧ (s.postTransaction t).2 = s) := by
  unfold postTransaction ReachesPersist
  cases hl : s.ledgers.lookup t.ledgerId with
  | none => exact Or.inr ⟨by simp, by simp⟩
  | some l =>
    simp only [Option.isNone_some, Bool.false_eq_true, if_false, Option.isSome_some, true_and]
    cases hi : s.indexed t.externalId with
    | some existingId =>
      refine Or.inr ⟨by simp, ?_⟩
      dsimp only
      cases s.transactions.lookup existingId with
      | none => rfl
      | some existing =>
        by_cases hb : sameBody existing t = true
        · simp only [if_pos hb]
        · simp only [if_neg hb]
    | none =>
      simp only [true_and]
      cases hv : t.entries.forM (s.validateEntry t.ledgerId) with
      | error e =>
        refine Or.inr ⟨?_, rfl⟩
        intro hall
        rw [forM_ok_iff.2 hall] at hv
        cases hv
      | ok u => exact Or.inl ⟨forM_ok_iff.1 hv, rfl⟩

-- ==== the other methods

def Terminates (method : Transaction → Except Error Transaction) : Prop :=
  ∀ t t', method t = .ok t' →
    t.status = .pending ∧ ∃ st : Status, st.isTerminal ∧ t' = { t with status := st }

theorem post_terminates : Terminates Transaction.post := by
  intro t t' h
  unfold Transaction.post at h
  split at h
  next hst =>
    cases h
    exact ⟨hst, .posted, rfl, rfl⟩
  next => cases h

theorem archive_terminates : Terminates Transaction.archive := by
  intro t t' h
  unfold Transaction.archive at h
  split at h
  next hst =>
    cases h
    exact ⟨hst, .archived, rfl, rfl⟩
  next => cases h

def settle (s : InMemoryLedgerStore) (id : TransactionId) (t : Transaction)
    (st : Status) : InMemoryLedgerStore :=
  { s with transactions := s.transactions.insert id { t with status := st } }

/-- A lifecycle call leaves the state alone or settles one pending
transaction. -/
theorem transition_cases {method : Transaction → Except Error Transaction}
    (hm : Terminates method) (s : InMemoryLedgerStore) (id : TransactionId) :
    (transition method s id).2 = s
      ∨ ∃ t st, s.transactions.lookup id = some t ∧ t.status = .pending
        ∧ st.isTerminal
        ∧ (transition method s id).2 = s.settle id t st := by
  unfold transition
  cases hl : s.transactions.lookup id with
  | none => exact Or.inl rfl
  | some t =>
    cases hmt : method t with
    | error e =>
      refine Or.inl ?_
      simp only [hmt]
    | ok t' =>
      obtain ⟨hst, st, hterm, rfl⟩ := hm t t' hmt
      refine Or.inr ⟨t, st, rfl, hst, hterm, ?_⟩
      simp only [hmt, settle]

-- ==== what the writes store

theorem lookup_persist (s : InMemoryLedgerStore) (t : Transaction) (id : TransactionId) :
    (s.persist t).transactions.lookup id
      = if id = t.id then some t else s.transactions.lookup id :=
  Table.lookup_insert_eq ..

theorem lookup_settle (s : InMemoryLedgerStore) (id id' : TransactionId)
    (t : Transaction) (st : Status) :
    (s.settle id t st).transactions.lookup id'
      = if id' = id then some { t with status := st }
        else s.transactions.lookup id' :=
  Table.lookup_insert_eq ..

theorem lookup_persist_index (s : InMemoryLedgerStore) (t : Transaction) (ext : String) :
    (s.persist t).byExternalId.lookup ext
      = if t.externalId = some ext then some t.id
        else s.byExternalId.lookup ext := by
  unfold persist
  cases ht : t.externalId with
  | none => rfl
  | some e =>
    show (s.byExternalId.insert e t.id).lookup ext = _
    rw [Table.lookup_insert_eq]
    by_cases h : ext = e
    · rw [if_pos h, if_pos (congrArg some h.symm)]
    · have hne : ¬ (some e = some ext) := fun heq =>
        h (Option.some.inj heq).symm
      rw [if_neg h, if_neg hne]

-- ==== one step

/-- Everything one call can do. -/
inductive Effect (s : InMemoryLedgerStore) : Op → InMemoryLedgerStore → Prop
  | same (op : Op) : Effect s op s
  | ledger (l : Ledger) : Effect s (.createLedger l)
      { s with ledgers := s.ledgers.insert l.id l }
  | account (a : Account) : Effect s (.createAccount a)
      { s with accounts := s.accounts.insert a.id a }
  | posted (t : Transaction) : ReachesPersist s t →
      Effect s (.postTransaction t) (s.persist t)
  | settled {op : Op} (id : TransactionId) (t : Transaction) (st : Status) :
      s.transactions.lookup id = some t → t.status = .pending →
      st.isTerminal → Effect s op (s.settle id t st)

theorem step_effect (s : InMemoryLedgerStore) (op : Op) : Effect s op (s.step op) := by
  cases op with
  | createLedger l => exact .ledger l
  | createAccount a =>
    simp only [step, createAccount]
    split
    · exact .same _
    · exact .account a
  | postTransaction t =>
    simp only [step]
    rcases postTransaction_cases s t with ⟨hr, heq⟩ | ⟨-, heq⟩
    · rw [heq]
      exact .posted t hr
    · rw [heq]
      exact .same _
  | markPosted id =>
    simp only [step, markPosted]
    rcases transition_cases post_terminates s id with
      heq | ⟨t, st, hl, hp, hterm, heq⟩
    · rw [heq]
      exact .same _
    · rw [heq]
      exact .settled id t st hl hp hterm
  | markArchived id =>
    simp only [step, markArchived]
    rcases transition_cases archive_terminates s id with
      heq | ⟨t, st, hl, hp, hterm, heq⟩
    · rw [heq]
      exact .same _
    · rw [heq]
      exact .settled id t st hl hp hterm

end InMemoryLedgerStore

end OpenStandards.OpLedger

/-
What `total_reserve_held` tells about the reserves.

The total is taken over what `list_open` lists, and nothing that is
still open counts as closed: each turn of the loop passes the total on
(`totalReserveHeld_eq`), whatever is stored. So the answer is right
exactly where the reserves held back come to nothing.
-/
import OpenStandards.OpSettlement.Engine

namespace OpenStandards.OpSettlement

open Lib OpCore
open OpLedger (TransactionId)

/-- The batch has been closed and not failed. -/
def Status.holdsReserve : Status → Bool
  | .closed _ => true
  | .paying _ _ => true
  | .paid _ _ => true
  | _ => false

def Batch.reserve (b : Batch) : Int :=
  (b.holdback.map fun hb => hb.reserve.minorUnits.val).getD 0

def InMemorySettlementStore.heldBack (s : InMemorySettlementStore) (currency : Currency) : Int :=
  (((Table.values s.batches).filter fun b =>
    b.currency = currency ∧ b.status.holdsReserve).map Batch.reserve).sum

def AccountsReserve (s : InMemorySettlementStore) (walk : RowOrder Batch)
    (currency : Currency) : Prop :=
  ∃ m, totalReserveHeld s walk currency = .ok m ∧ m.currency = currency
    ∧ m.minorUnits.val = s.heldBack currency

theorem totalReserveHeld_eq (s : InMemorySettlementStore)
    (walk : RowOrder Batch) (currency : Currency) :
    totalReserveHeld s walk currency = .ok (Money.fromMinor 0 currency) := by
  unfold totalReserveHeld
  have hopen : ∀ b ∈ s.listOpen walk, b.status = .opened := by
    intro b hb
    exact of_decide_eq_true (List.mem_filter.1 hb).2
  generalize s.listOpen walk = bs at hopen
  induction bs with
  | nil => rfl
  | cons b bs ih =>
    rw [List.foldlM_cons, hopen b List.mem_cons_self]
    exact ih fun b' hb' => hopen b' (List.mem_cons_of_mem _ hb')

/-- **When reserves are accounted for.** In every store a run of engine
calls reaches, for every currency and in every order of the walk, the
query answers the sum of the reserves held back on the closed batches of
that currency if and only if that sum is zero. -/
theorem accounts_reserve_iff (calls : List Call) (walk : RowOrder Batch) (currency : Currency) :
    AccountsReserve (run InMemorySettlementStore.call .new calls) walk currency
      ↔ (run InMemorySettlementStore.call .new calls).heldBack currency = 0 := by
  unfold AccountsReserve
  rw [totalReserveHeld_eq]
  constructor
  · rintro ⟨m, hm, -, hsum⟩
    rw [← Except.ok.inj hm] at hsum
    exact hsum.symm
  · intro hzero
    exact ⟨Money.fromMinor 0 currency, rfl, rfl, hzero.symm⟩

def dollarEngine : SettlementEngine :=
  { currency := .USD, rail := .achNacha, cutoff := .manual
    holdbackPolicy := .flat 50 }

/-- One batch of a hundred dollars is closed, and fifty cents of it are
held back; the query says nothing is. -/
theorem closed_reserve_unseen :
    ¬ AccountsReserve (run InMemorySettlementStore.call .new
      [.openBatch dollarEngine ⟨⟨1⟩⟩ 1000,
       .addEntry dollarEngine ⟨⟨1⟩⟩ ⟨⟨2⟩⟩ (Money.fromMinor ⟨10000, by decide⟩ .USD) none,
       .closeBatch dollarEngine ⟨⟨1⟩⟩ 0 2000]) .asserted .USD := by
  rintro ⟨m, hm, -, hsum⟩
  rw [totalReserveHeld_eq] at hm
  rw [← Except.ok.inj hm] at hsum
  exact absurd hsum (by decide)

/-
Submitting an opening batch again (op-settlement `store.rs`).

`create_batch` is idempotent on the external id: it compares what is
submitted with the live batch, whose entries grow with every `add_entry`,
although its comment asks for the initial entry list.

The index entry and the batch behind it are never removed (`Indexed`), so a
resubmission always finds the live batch (`idempotent_iff_keepsBody`). A
step leaves its body alone, or appends to its entries, or stores another
batch under its id; after either of the latter it never again has the body
it was opened with (`Outgrown`).
-/
open OpLedger (TransactionId)

-- ==== runs of the store

/-- The transitions of a batch, as passed to `update`. -/
inductive Transition where
  | addEntry (txId : TransactionId) (amount : Money)
      (reference : Option String)
  | close (holdback : Holdback) (closedAt : UInt64)
  | pay (railReference : String) (submittedAt : UInt64)
  | settled (settledAt : UInt64)
  | fail (code message : String) (failedAt : UInt64)

def Transition.apply : Transition → Batch → Except Error Batch
  | .addEntry txId amount reference, b => b.addEntry txId amount reference
  | .close holdback closedAt, b => b.close holdback closedAt
  | .pay railReference submittedAt, b => b.pay railReference submittedAt
  | .settled settledAt, b => b.settled settledAt
  | .fail code message failedAt, b => b.fail code message failedAt

/-- A call on an engine or on the store, or a transition applied through
the store's `update`. -/
inductive Act where
  | call (c : Call)
  | update (id : BatchId) (t : Transition)

def Act.submits : Act → Option Batch
  | .call (.createBatch batch) => some batch
  | .call (.openBatch eng id now) =>
    some (Batch.open id eng.currency eng.rail now)
  | _ => none

def Act.offers : Act → Option (BatchId × Currency)
  | .call (.addEntry _ id _ amount _) => some (id, amount.currency)
  | .update id (.addEntry _ amount _) => some (id, amount.currency)
  | _ => none

namespace InMemorySettlementStore

def act (s : InMemorySettlementStore) : Act → InMemorySettlementStore
  | .call c => s.call c
  | .update id t => (s.update id t.apply).1

def knows (s : InMemorySettlementStore) (batch : Batch) : Bool :=
  match batch.externalId with
  | none => false
  | some ext => (s.byExternalId.lookup ext).isSome

def withBatch (s : InMemorySettlementStore) (batch : Batch) : InMemorySettlementStore :=
  { batches := s.batches.insert batch.id batch
    byExternalId := match batch.externalId with
      | none => s.byExternalId
      | some ext => s.byExternalId.insert ext batch.id }

def withLive (s : InMemorySettlementStore) (id : BatchId) (staged : Batch) :
    InMemorySettlementStore :=
  { s with batches := s.batches.insert id staged }

-- ==== what one step can do

/-- What a submission does: nothing where the external id is known. -/
theorem createBatch_store (s : InMemorySettlementStore) (batch : Batch) :
    (s.createBatch batch).1 = if s.knows batch then s else s.withBatch batch := by
  unfold createBatch knows withBatch
  cases batch.externalId with
  | none => rfl
  | some ext =>
    simp only
    cases s.byExternalId.lookup ext with
    | none => rfl
    | some existingId =>
      simp only [Option.isSome_some, if_true]
      cases s.batches.lookup existingId with
      | none => rfl
      | some existing =>
        simp only
        split
        · rfl
        · rfl

inductive Effect (s : InMemorySettlementStore) (a : Act) : InMemorySettlementStore → Prop
  | idle (hsub : ∀ batch, a.submits = some batch → s.knows batch)
      (hoff : ∀ id c, a.offers = some (id, c) →
        ∀ live, s.batches.lookup id = some live →
          ¬ (live.status = .opened ∧ c = live.currency)) :
      Effect s a s
  | stored (batch : Batch) (hsub : a.submits = some batch)
      (hnew : s.knows batch = false) (hoff : a.offers = none) :
      Effect s a (s.withBatch batch)
  | moved (id : BatchId) (live staged : Batch)
      (hlive : s.batches.lookup id = some live)
      (hsame : bodiesEquivalent staged live)
      (hsub : a.submits = none) (hoff : a.offers = none) :
      Effect s a (s.withLive id staged)
  | appended (id : BatchId) (c : Currency) (live : Batch)
      (entry : BatchEntry) (hlive : s.batches.lookup id = some live)
      (hopen : live.status = .opened ∧ c = live.currency)
      (hsub : a.submits = none) (hoff : a.offers = some (id, c)) :
      Effect s a (s.withLive id
        { live with entries := live.entries ++ [entry] })

variable {s : InMemorySettlementStore} {a : Act}

theorem effect_createBatch {batch : Batch} (hsub : a.submits = some batch)
    (hoff : a.offers = none) : Effect s a (s.createBatch batch).1 := by
  rw [createBatch_store]
  cases hknown : s.knows batch with
  | true =>
    rw [if_pos rfl]
    refine .idle (fun batch' h => ?_) (fun id c h => ?_)
    · rw [hsub] at h
      rw [← Option.some.inj h]
      exact hknown
    · simp [hoff] at h
  | false =>
    rw [if_neg Bool.false_ne_true]
    exact .stored batch hsub hknown hoff

/-- An act that neither submits nor offers may leave the store alone. -/
theorem Effect.unchanged (hsub : a.submits = none) (hoff : a.offers = none) : Effect s a s :=
  .idle (by simp [hsub]) (by simp [hoff])

theorem effect_update {id : BatchId} {f : Batch → Except Error Batch}
    (hf : ∀ live staged, f live = .ok staged → bodiesEquivalent staged live)
    (hsub : a.submits = none) (hoff : a.offers = none) :
    Effect s a (s.update id f).1 := by
  unfold update
  cases hlive : s.batches.lookup id with
  | none => exact .unchanged hsub hoff
  | some live =>
    simp only
    cases hstaged : f live with
    | error e => exact .unchanged hsub hoff
    | ok staged =>
      exact .moved id live staged hlive (hf live staged hstaged) hsub hoff

end InMemorySettlementStore

open InMemorySettlementStore

-- ==== the transitions of a batch

theorem bodiesEquivalent_refl (b : Batch) : bodiesEquivalent b b := by
  simp [bodiesEquivalent]

variable {b b' : Batch} {at' : UInt64} {s : InMemorySettlementStore} {id : BatchId} {ext : String}

theorem Batch.close_body {hb : Holdback} (h : b.close hb at' = .ok b') :
    bodiesEquivalent b' b := by
  unfold Batch.close Batch.refuseFrom at h
  split at h
  · cases h
    simp [bodiesEquivalent]
  · cases h

theorem Batch.pay_body {ref : String} (h : b.pay ref at' = .ok b') : bodiesEquivalent b' b := by
  unfold Batch.pay Batch.refuseFrom at h
  split at h
  · cases h
    simp [bodiesEquivalent]
  · cases h

theorem Batch.settled_body (h : b.settled at' = .ok b') : bodiesEquivalent b' b := by
  unfold Batch.settled Batch.refuseFrom at h
  split at h
  · cases h
    simp [bodiesEquivalent]
  · cases h

theorem Batch.fail_body {code msg : String} (h : b.fail code msg at' = .ok b') :
    bodiesEquivalent b' b := by
  unfold Batch.fail Batch.refuseFrom at h
  split at h
  · cases h
    simp [bodiesEquivalent]
  · cases h

/-- `add_entry` appends exactly where the batch is open and the currency
is its own. -/
theorem Batch.addEntry_eq (b : Batch) (txId : TransactionId)
    (amount : Money) (reference : Option String) :
    (b.status = .opened ∧ amount.currency = b.currency
        ∧ b.addEntry txId amount reference
          = .ok { b with entries := b.entries ++ [{ txId, amount, reference }] })
      ∨ (¬ (b.status = .opened ∧ amount.currency = b.currency)
        ∧ ∃ e, b.addEntry txId amount reference = .error e) := by
  unfold Batch.addEntry Batch.refuseFrom
  cases hs : b.status with
  | opened =>
    by_cases hc : amount.currency = b.currency
    · simp [hc]
    · simp [hc]
  | _ => simp

theorem effect_closeBatch (eng : SettlementEngine) {a : Act} (id : BatchId)
    (bps : UInt16) (now : UInt64) (hsub : a.submits = none) (hoff : a.offers = none) :
    Effect s a (eng.closeBatch s id bps now).1 := by
  refine effect_update (fun live staged h => ?_) hsub hoff
  obtain ⟨gross, -, h⟩ := bind_eq_ok.1 h
  obtain ⟨hb, -, h⟩ := bind_eq_ok.1 h
  exact Batch.close_body h

theorem effect_tick (eng : SettlementEngine) {a : Act} (walk : RowOrder Batch)
    (last now : UInt64) (hsub : a.submits = none) (hoff : a.offers = none) :
    Effect s a (eng.tick s walk last now).1 := by
  unfold SettlementEngine.tick
  split
  · exact .unchanged hsub hoff
  · split
    · exact .unchanged hsub hoff
    · exact effect_closeBatch eng _ 0 now hsub hoff
    · exact .unchanged hsub hoff

theorem effect_addEntry {a : Act} {txId : TransactionId} {amount : Money}
    {reference : Option String} (hsub : a.submits = none)
    (hoff : a.offers = some (id, amount.currency)) :
    Effect s a (s.update id fun b => b.addEntry txId amount reference).1 := by
  unfold update
  cases hlive : s.batches.lookup id with
  | none =>
    refine .idle (by simp [hsub]) (fun id' c h live hlive' => ?_)
    rw [hoff] at h
    cases h
    simp [hlive] at hlive'
  | some live =>
    simp only
    obtain ⟨hopen, hc, hok⟩ | ⟨hshut, e, herr⟩ :=
      live.addEntry_eq txId amount reference
    · rw [hok]
      exact .appended id amount.currency live _ hlive ⟨hopen, hc⟩ hsub hoff
    · rw [herr]
      refine .idle (by simp [hsub]) (fun id' c h live' hlive' => ?_)
      rw [hoff] at h
      cases h
      rw [hlive] at hlive'
      cases hlive'
      exact hshut

theorem act_effect (s : InMemorySettlementStore) (a : Act) : Effect s a (s.act a) := by
  cases a with
  | update id t =>
    cases t with
    | addEntry txId amount reference => exact effect_addEntry rfl rfl
    | close hb closedAt =>
      exact effect_update (fun _ _ h => Batch.close_body h) rfl rfl
    | pay ref submittedAt =>
      exact effect_update (fun _ _ h => Batch.pay_body h) rfl rfl
    | settled settledAt =>
      exact effect_update (fun _ _ h => Batch.settled_body h) rfl rfl
    | fail code msg failedAt =>
      exact effect_update (fun _ _ h => Batch.fail_body h) rfl rfl
  | call c =>
    cases c with
    | createBatch batch => exact effect_createBatch rfl rfl
    | openBatch eng id now => exact effect_createBatch rfl rfl
    | addEntry eng id txId amount reference => exact effect_addEntry rfl rfl
    | tick eng walk last now => exact effect_tick eng walk last now rfl rfl
    | closeBatch eng id bps now =>
      exact effect_closeBatch eng id bps now rfl rfl
    | submitForPayout eng id ref now =>
      exact effect_update (fun _ _ h => Batch.pay_body h) rfl rfl
    | markSettled eng id now =>
      exact effect_update (fun _ _ h => Batch.settled_body h) rfl rfl
    | markFailed eng id code msg now =>
      exact effect_update (fun _ _ h => Batch.fail_body h) rfl rfl

-- ==== the index is permanent

def Indexed (ext : String) (id : BatchId) (s : InMemorySettlementStore) : Prop :=
  s.byExternalId.lookup ext = some id ∧ ∃ live, s.batches.lookup id = some live

/-- A stored batch stays stored when another is put in. -/
theorem exists_lookup_insert {m : Table BatchId Batch} {id' : BatchId}
    (h : ∃ live, m.lookup id = some live) :
    ∃ live, (m.insert id' b).lookup id = some live := by
  rw [Table.lookup_insert_eq]
  split
  · exact ⟨b, rfl⟩
  · exact h

theorem Indexed.act (h : Indexed ext id s) (a : Act) : Indexed ext id (s.act a) := by
  obtain ⟨hix, hstored⟩ := h
  have heffect := act_effect s a
  generalize s.act a = s' at heffect ⊢
  cases heffect with
  | idle hsub hoff => exact ⟨hix, hstored⟩
  | moved id' live staged hlive hsame hsub hoff =>
    exact ⟨hix, exists_lookup_insert hstored⟩
  | appended id' c live entry hlive hopen hsub hoff =>
    exact ⟨hix, exists_lookup_insert hstored⟩
  | stored batch hsub hnew hoff =>
    refine ⟨?_, exists_lookup_insert hstored⟩
    unfold withBatch
    unfold knows at hnew
    cases hext : batch.externalId with
    | none => exact hix
    | some ext' =>
      simp only [hext, Option.isSome_eq_false_iff, Option.isNone_iff_eq_none] at hnew
      have hne : ext ≠ ext' := by
        rintro rfl
        rw [hix] at hnew
        cases hnew
      simp only
      rw [Table.lookup_insert_eq, if_neg hne]
      exact hix

theorem Indexed.run (h : Indexed ext id s) (acts : List Act) :
    Indexed ext id (run InMemorySettlementStore.act s acts) :=
  run_invariant (fun _ a hs _ => hs.act a) h (along_trivial s acts)

theorem indexed_of_first (hext : b.externalId = some ext)
    (hnew : s.byExternalId.lookup ext = none) :
    (s.createBatch b).1 = s.withBatch b ∧ Indexed ext b.id (s.withBatch b) := by
  have hunknown : s.knows b = false := by
    simp [knows, hext, hnew]
  constructor
  · rw [createBatch_store, hunknown]
    rfl
  · unfold Indexed withBatch
    simp only [hext]
    exact ⟨AList.lookup_insert _, b, AList.lookup_insert _⟩

-- ==== resubmission and the live body

/-- The batch stored under the id of `b` still has the body `b` was
opened with. -/
def KeepsBody (b : Batch) (s : InMemorySettlementStore) : Prop :=
  ∃ live, s.batches.lookup b.id = some live ∧ bodiesEquivalent live b

/-- Resubmitting the opening batch answers its id, resubmitting another
body under its external id is refused, and neither changes the store. -/
structure Idempotent (b : Batch) (ext : String) (s : InMemorySettlementStore) : Prop where
  same : ∀ b', bodiesEquivalent b b' → s.createBatch b' = (s, .ok b.id)
  other : ∀ b', b'.externalId = some ext → ¬ bodiesEquivalent b b' →
    s.createBatch b' = (s, .error (.idempotencyMismatch ext))

theorem createBatch_indexed {live : Batch} (hix : s.byExternalId.lookup ext = some id)
    (hlive : s.batches.lookup id = some live) (hext : b'.externalId = some ext) :
    s.createBatch b' = if bodiesEquivalent live b' then (s, .ok id)
      else (s, .error (.idempotencyMismatch ext)) := by
  unfold createBatch
  simp only [hext, hix, hlive]

theorem bodiesEquivalent_iff {a : Batch} :
    bodiesEquivalent a b ↔ a.currency = b.currency ∧ a.rail = b.rail
      ∧ a.externalId = b.externalId ∧ a.entries = b.entries := by
  simp [bodiesEquivalent]

theorem bodiesEquivalent_trans {a c : Batch} (hab : bodiesEquivalent a b)
    (hbc : bodiesEquivalent b c) : bodiesEquivalent a c := by
  simp only [bodiesEquivalent_iff] at *
  grind

theorem bodiesEquivalent_symm {a : Batch} (hab : bodiesEquivalent a b) :
    bodiesEquivalent b a := by
  simp only [bodiesEquivalent_iff] at *
  grind

/-- The comparison is with the live batch. -/
theorem idempotent_iff_keepsBody (hext : b.externalId = some ext)
    (hix : Indexed ext b.id s) : Idempotent b ext s ↔ KeepsBody b s := by
  obtain ⟨hix, live, hlive⟩ := hix
  constructor
  · intro h
    have hb := h.same b (bodiesEquivalent_refl b)
    rw [createBatch_indexed hix hlive hext] at hb
    by_cases hbody : bodiesEquivalent live b
    · exact ⟨live, hlive, hbody⟩
    · rw [if_neg hbody] at hb
      cases hb
  · rintro ⟨live', hlive', hbody⟩
    rw [hlive] at hlive'
    cases hlive'
    refine ⟨fun b' hb' => ?_, fun b' hext' hb' => ?_⟩
    · have hext' : b'.externalId = some ext := by
        rw [← hext]
        exact ((bodiesEquivalent_iff.1 hb').2.2.1).symm
      rw [createBatch_indexed hix hlive hext', if_pos (bodiesEquivalent_trans hbody hb')]
    · rw [createBatch_indexed hix hlive hext', if_neg]
      intro hlb
      exact hb' (bodiesEquivalent_trans (bodiesEquivalent_symm hbody) hlb)

-- ==== steps and the body

/-- The act adds no entry to the batch with this id and stores no other
batch under the id. -/
def LeavesBody (id : BatchId) (s : InMemorySettlementStore) (a : Act) : Prop :=
  (∀ batch, a.submits = some batch → batch.id = id → s.knows batch)
    ∧ ∀ c, a.offers = some (id, c) →
        ∀ live, s.batches.lookup id = some live → ¬ (live.status = .opened ∧ c = live.currency)

/-- The batch under the id of `b` has more entries than `b`, or another
external id. -/
def Outgrown (b : Batch) (s : InMemorySettlementStore) : Prop :=
  ∃ live, s.batches.lookup b.id = some live
    ∧ (live.externalId ≠ b.externalId ∨ b.entries.length < live.entries.length)

theorem Outgrown.not_keepsBody (h : Outgrown b s) : ¬ KeepsBody b s := by
  obtain ⟨live, hlive, hdiff⟩ := h
  rintro ⟨live', hlive', hbody⟩
  rw [hlive] at hlive'
  cases hlive'
  rw [bodiesEquivalent_iff] at hbody
  cases hdiff with
  | inl hne => exact hne hbody.2.2.1
  | inr hlt => simp [hbody.2.2.2] at hlt

/-- A batch stored afresh over the id of `b` has another external id,
that of `b` being known. -/
theorem outgrown_withBatch {batch : Batch} (hext : b.externalId = some ext)
    (hix : Indexed ext b.id s) (hnew : s.knows batch = false)
    (hid : batch.id = b.id) : Outgrown b (s.withBatch batch) := by
  refine ⟨batch, ?_, .inl fun heq => ?_⟩
  · rw [← hid]
    exact AList.lookup_insert _
  · simp [knows, heq, hext, hix.1] at hnew

theorem lookup_withBatch_ne {batch : Batch} (hne : batch.id ≠ id) :
    (s.withBatch batch).batches.lookup id = s.batches.lookup id :=
  AList.lookup_insert_ne (Ne.symm hne)

theorem lookup_withLive (s : InMemorySettlementStore) (id id' : BatchId) (staged : Batch) :
    (s.withLive id' staged).batches.lookup id
      = if id = id' then some staged else s.batches.lookup id :=
  Table.lookup_insert_eq ..

theorem KeepsBody.act {a : Act} (h : KeepsBody b s)
    (hleaves : LeavesBody b.id s a) : KeepsBody b (s.act a) := by
  obtain ⟨live, hlive, hbody⟩ := h
  have heffect := act_effect s a
  generalize s.act a = s' at heffect ⊢
  cases heffect with
  | idle hsub hoff => exact ⟨live, hlive, hbody⟩
  | stored batch hsub hnew hoff =>
    have hne : batch.id ≠ b.id := by
      intro hid
      simp [hleaves.1 batch hsub hid] at hnew
    exact ⟨live, (lookup_withBatch_ne hne).trans hlive, hbody⟩
  | moved id live' staged hlive' hsame hsub hoff =>
    unfold KeepsBody
    simp only [lookup_withLive]
    by_cases hid : b.id = id
    · rw [if_pos hid]
      rw [← hid, hlive] at hlive'
      cases hlive'
      exact ⟨staged, rfl, bodiesEquivalent_trans hsame hbody⟩
    · rw [if_neg hid]
      exact ⟨live, hlive, hbody⟩
  | appended id c live' entry hlive' hopen hsub hoff =>
    unfold KeepsBody
    simp only [lookup_withLive]
    have hid : b.id ≠ id := by
      rintro rfl
      exact hleaves.2 c hoff live' hlive' hopen
    rw [if_neg hid]
    exact ⟨live, hlive, hbody⟩

/-- A step that does not leave the body alone loses it for good. -/
theorem outgrown_of_not_leavesBody {a : Act} (hext : b.externalId = some ext)
    (hix : Indexed ext b.id s) (h : KeepsBody b s)
    (hnot : ¬ LeavesBody b.id s a) : Outgrown b (s.act a) := by
  have heffect := act_effect s a
  generalize s.act a = s' at heffect ⊢
  cases heffect with
  | idle hsub hoff =>
    refine absurd ⟨fun batch hb _ => hsub batch hb, fun c hc => ?_⟩ hnot
    exact hoff b.id c hc
  | moved id live staged hlive hsame hsub hoff =>
    exact absurd ⟨by simp [hsub], by simp [hoff]⟩ hnot
  | stored batch hsub hnew hoff =>
    have hid : batch.id = b.id := by
      by_contra hne
      refine hnot ⟨fun batch' hb' hid' => ?_, by simp [hoff]⟩
      rw [hsub] at hb'
      cases hb'
      exact absurd hid' hne
    exact outgrown_withBatch hext hix hnew hid
  | appended id c live entry hlive hopen hsub hoff =>
    have hid : id = b.id := by
      by_contra hne
      refine hnot ⟨by simp [hsub], fun c' hc' => ?_⟩
      rw [hoff] at hc'
      cases hc'
      exact absurd rfl hne
    subst hid
    obtain ⟨live', hlive', hbody⟩ := h
    rw [hlive] at hlive'
    cases hlive'
    refine ⟨_, (lookup_withLive ..).trans (if_pos rfl), .inr ?_⟩
    simp [(bodiesEquivalent_iff.1 hbody).2.2.2]

theorem Outgrown.act (hext : b.externalId = some ext)
    (hix : Indexed ext b.id s) (h : Outgrown b s) (a : Act) :
    Outgrown b (s.act a) := by
  have hold := h
  obtain ⟨live, hlive, hdiff⟩ := h
  have heffect := act_effect s a
  generalize s.act a = s' at heffect ⊢
  cases heffect with
  | idle hsub hoff => exact hold
  | stored batch hsub hnew hoff =>
    by_cases hid : batch.id = b.id
    · exact outgrown_withBatch hext hix hnew hid
    · exact ⟨live, (lookup_withBatch_ne hid).trans hlive, hdiff⟩
  | moved id live' staged hlive' hsame hsub hoff =>
    unfold Outgrown
    simp only [lookup_withLive]
    by_cases hid : b.id = id
    · rw [if_pos hid]
      rw [← hid, hlive] at hlive'
      cases hlive'
      rw [bodiesEquivalent_iff] at hsame
      rw [← hsame.2.2.1, ← hsame.2.2.2] at hdiff
      exact ⟨staged, rfl, hdiff⟩
    · rw [if_neg hid]
      exact ⟨live, hlive, hdiff⟩
  | appended id c live' entry hlive' hopen hsub hoff =>
    unfold Outgrown
    simp only [lookup_withLive]
    by_cases hid : b.id = id
    · rw [if_pos hid]
      rw [← hid, hlive] at hlive'
      cases hlive'
      refine ⟨_, rfl, hdiff.imp_right fun hlt => ?_⟩
      simp only [List.length_append, List.length_singleton]
      omega
    · rw [if_neg hid]
      exact ⟨live, hlive, hdiff⟩

/-- The body is kept by a run exactly where every step leaves it
alone. -/
theorem keepsBody_run_iff (hext : b.externalId = some ext) {acts : List Act}
    (hix : Indexed ext b.id s) (h : KeepsBody b s) :
    KeepsBody b (run InMemorySettlementStore.act s acts)
      ↔ Along InMemorySettlementStore.act (LeavesBody b.id) s acts := by
  induction acts generalizing s with
  | nil => exact iff_of_true h trivial
  | cons a acts ih =>
    by_cases hleaves : LeavesBody b.id s a
    · have htail := ih (hix.act a) (h.act hleaves)
      exact htail.trans ⟨fun ht => ⟨hleaves, ht⟩, fun ht => ht.2⟩
    · have hout := outgrown_of_not_leavesBody hext hix h hleaves
      have hall : Outgrown b (run InMemorySettlementStore.act (s.act a) acts) := by
        refine (run_invariant
          (I := fun s => Indexed ext b.id s ∧ Outgrown b s)
          (fun s a hs _ => ?_) ⟨hix.act a, hout⟩
          (along_trivial _ acts)).2
        exact ⟨hs.1.act a, hs.2.act hext hs.1 a⟩
      exact iff_of_false hall.not_keepsBody fun ht => hleaves ht.1

/-- **When creation is idempotent.** For every batch first submitted under
an external id in a store that some run reaches, and after every later
run: submitting its body again answers its id, submitting another body
under the external id answers a mismatch, and neither changes the store,
if and only if no step since added an entry to the batch or stored another
batch under its id. -/
theorem create_idempotent_iff (before later : List Act) (b : Batch)
    (ext : String) (hext : b.externalId = some ext)
    (hnew : (run InMemorySettlementStore.act .new before).byExternalId.lookup
      ext = none) :
    let opened := ((run InMemorySettlementStore.act .new before).createBatch
      b).1
    Idempotent b ext (run InMemorySettlementStore.act opened later)
      ↔ Along InMemorySettlementStore.act (LeavesBody b.id) opened later := by
  obtain ⟨hstore, hix⟩ := indexed_of_first hext hnew
  simp only [hstore]
  rw [idempotent_iff_keepsBody hext (hix.run later)]
  refine keepsBody_run_iff hext hix ?_
  exact ⟨b, AList.lookup_insert _, bodiesEquivalent_refl b⟩

def payOne : Batch :=
  (Batch.open ⟨⟨1⟩⟩ .USD .achNacha 1000).withExternalId "pay-1"

/-- After the batch is closed, paid and settled, with another batch
filled beside it, resubmitting it is idempotent. -/
theorem create_idempotent_after_payout :
    Idempotent payOne "pay-1" (run InMemorySettlementStore.act
      (InMemorySettlementStore.new.createBatch payOne).1
      [.call (.openBatch dollarEngine ⟨⟨5⟩⟩ 1500),
       .call (.addEntry dollarEngine ⟨⟨5⟩⟩ ⟨⟨2⟩⟩
        (Money.fromMinor ⟨10000, by decide⟩ .USD) none),
       .call (.closeBatch dollarEngine ⟨⟨1⟩⟩ 0 2000),
       .call (.submitForPayout dollarEngine ⟨⟨1⟩⟩ "ref" 3000),
       .call (.markSettled dollarEngine ⟨⟨1⟩⟩ 4000)]) := by
  refine (create_idempotent_iff [] _ payOne "pay-1" rfl rfl).2 ?_
  refine along_of_forall (fun a ha s => ?_) _
  simp only [List.mem_cons, List.not_mem_nil, or_false] at ha
  obtain rfl | rfl | rfl | rfl | rfl := ha
  all_goals
    simp [LeavesBody, Act.submits, Act.offers, payOne, Batch.open, Batch.withExternalId]

/-- Once the batch has an entry, the batch it was opened with is refused
under its own external id. -/
theorem opening_refused_after_entry :
    ¬ Idempotent payOne "pay-1" (run InMemorySettlementStore.act
      (InMemorySettlementStore.new.createBatch payOne).1
      [.call (.addEntry dollarEngine ⟨⟨1⟩⟩ ⟨⟨2⟩⟩
        (Money.fromMinor ⟨10000, by decide⟩ .USD) none)]) := by
  intro h
  have hsame := h.same payOne (bodiesEquivalent_refl payOne)
  rw [Prod.ext_iff] at hsame
  exact absurd hsame.2 (by decide)

end OpenStandards.OpSettlement

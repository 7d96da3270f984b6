/-
The trial balance of the in-memory store: over the accounts of one
ledger in one currency code, the debit-normal balances and the
credit-normal balances have the same sum, in both views.

Nothing in the store checks this; it follows from what the stored
transactions keep (`Sound`): each is balanced per code, with entries on
accounts of its own ledger and currency. Exchanging the sums leaves the net
of each transaction, which is zero.

An account may not be re-created under a stored id (`KeepsAccounts`): a
replaced currency would re-price what is booked.
-/
import OpenStandards.OpLedger.Proofs.Steps
import OpenStandards.OpLedger.Proofs.Tally

namespace OpenStandards.OpLedger

open Lib OpCore

namespace InMemoryLedgerStore

variable {s : InMemoryLedgerStore}

-- ==== permitted calls

def KeepsAccounts (s : InMemoryLedgerStore) : Op → Prop
  | .createAccount a => ∀ a₀ ∈ s.accounts.lookup a.id, a₀ = a
  | _ => True

/-- What the call submits comes from the constructors. -/
def SubmitsBuilt : Op → Prop
  | .postTransaction t => t.Built
  | _ => True

-- ==== the invariant

/-- What the stored transactions keep. -/
structure Sound (s : InMemoryLedgerStore) : Prop where
  account_key : ∀ id a, s.accounts.lookup id = some a → a.id = id
  balanced : ∀ id t, s.transactions.lookup id = some t → Balanced t.entries
  entries_valid : ∀ id t, s.transactions.lookup id = some t →
    ∀ e ∈ t.entries, s.validateEntry t.ledgerId e = .ok ()

theorem sound_new : Sound new := by
  refine ⟨?_, ?_, ?_⟩
  · intro id a h
    cases h
  · intro id t h
    cases h
  · intro id t h
    cases h

theorem validateEntry_insert_account {a : Account} {lid : LedgerId}
    {e : Entry} (hkeep : ∀ a₀ ∈ s.accounts.lookup a.id, a₀ = a)
    (h : s.validateEntry lid e = .ok ()) :
    ({ s with accounts := s.accounts.insert a.id a }
      : InMemoryLedgerStore).validateEntry lid e = .ok () := by
  obtain ⟨a', hl, hrest⟩ := validateEntry_ok.1 h
  refine validateEntry_ok.2 ⟨a', ?_, hrest⟩
  rw [Table.lookup_insert_eq]
  by_cases hid : e.accountId = a.id
  · rw [if_pos hid]
    rw [hid] at hl
    rw [hkeep a' hl]
  · rw [if_neg hid]
    exact hl

/-- Every permitted call keeps the invariant. -/
theorem sound_step {op : Op} (hs : Sound s) (hkeep : KeepsAccounts s op)
    (hbuilt : SubmitsBuilt op) : Sound (s.step op) := by
  have heff := step_effect s op
  generalize s.step op = s' at heff
  cases heff with
  | same => exact hs
  | ledger l => exact ⟨hs.account_key, hs.balanced, hs.entries_valid⟩
  | account a =>
    refine ⟨?_, hs.balanced, ?_⟩
    · intro id a' hl
      rw [Table.lookup_insert_eq] at hl
      by_cases hid : id = a.id
      · rw [if_pos hid] at hl
        cases hl
        exact hid.symm
      · rw [if_neg hid] at hl
        exact hs.account_key id a' hl
    · intro id t hl e he
      exact validateEntry_insert_account hkeep (hs.entries_valid id t hl e he)
  | posted t hr =>
    refine ⟨hs.account_key, ?_, ?_⟩
    · intro id t' hl
      rw [lookup_persist] at hl
      by_cases hid : id = t.id
      · rw [if_pos hid] at hl
        cases hl
        exact (Transaction.Built.entries_ok hbuilt).2
      · rw [if_neg hid] at hl
        exact hs.balanced id t' hl
    · intro id t' hl e he
      rw [lookup_persist] at hl
      by_cases hid : id = t.id
      · rw [if_pos hid] at hl
        cases hl
        exact hr.2.2 e he
      · rw [if_neg hid] at hl
        exact hs.entries_valid id t' hl e he
  | settled id t st hl =>
    refine ⟨hs.account_key, ?_, ?_⟩
    · intro id' t' hl'
      rw [lookup_settle] at hl'
      by_cases hid : id' = id
      · rw [if_pos hid] at hl'
        cases hl'
        exact hs.balanced id t hl
      · rw [if_neg hid] at hl'
        exact hs.balanced id' t' hl'
    · intro id' t' hl' e he
      rw [lookup_settle] at hl'
      by_cases hid : id' = id
      · rw [if_pos hid] at hl'
        cases hl'
        exact hs.entries_valid id t hl e he
      · rw [if_neg hid] at hl'
        exact hs.entries_valid id' t' hl' e he

-- ==== the exchange

def accountsOf (s : InMemoryLedgerStore) (L : LedgerId) (code : String) : List Account :=
  (Table.values s.accounts).filter
    fun a => a.ledgerId = L ∧ a.currency.code = code

def entrySigned (e : Entry) : Int :=
  match e.direction with
  | .debit => e.amount.minorUnits.val
  | .credit => -e.amount.minorUnits.val

theorem net_postings (view : Status → Bool) (id : AccountId) (walk : List Transaction) :
    net view (postings id walk)
      = (walk.map fun t => if view t.status then
          (t.entries.map fun e =>
            if e.accountId = id then entrySigned e else 0).sum
          else 0).sum := by
  induction walk with
  | nil => rfl
  | cons t walk ih =>
    rw [List.map_cons, List.sum_cons, ← ih]
    show ((postings id (t :: walk)).map _).sum = _
    rw [show postings id (t :: walk)
        = ((t.entries.filter fun e => e.accountId = id).map fun e =>
            (⟨t.status, e.direction, e.amount.minorUnits⟩ : Posting))
          ++ postings id walk from List.flatMap_cons ..,
      List.map_append, List.sum_append]
    congr 1
    induction t.entries with
    | nil => simp
    | cons e es ihe =>
      by_cases he : e.accountId = id
      · rw [List.filter_cons_of_pos (by simpa using he)]
        simp only [List.map_cons, List.sum_cons, ihe, he, if_true]
        cases view t.status <;> rfl
      · rw [List.filter_cons_of_neg (by simpa using he), ihe]
        simp only [List.map_cons, List.sum_cons, he, if_false, zero_add]

/-- The walk's order does not change an exact net. -/
theorem net_postings_perm (view : Status → Bool) (id : AccountId)
    {w w' : List Transaction} (h : w.Perm w') :
    net view (postings id w) = net view (postings id w') := by
  rw [net_postings, net_postings]
  exact (h.map _).sum_eq

theorem sum_entrySigned_of_balanced {es : List Entry} (h : Balanced es) (code : String) :
    (es.map fun e => if e.amount.currency.code = code
      then entrySigned e else 0).sum = 0 := by
  have haux : ∀ l : List Entry,
      (l.map fun e => if e.amount.currency.code = code
        then entrySigned e else 0).sum
        = sideSum .debit code l - sideSum .credit code l := by
    intro l
    induction l with
    | nil => rfl
    | cons e l ih =>
      simp only [sideSum, List.map_cons, List.sum_cons] at ih ⊢
      rw [ih]
      by_cases hc : e.amount.currency.code = code
      · cases hd : e.direction <;> simp [hc, entrySigned, hd] <;> omega
      · simp [hc]
  rw [haux, h code]
  exact sub_self _

theorem mem_accountsOf_iff (hs : Sound s) {L : LedgerId} {code : String}
    {id : TransactionId} {t : Transaction} {e : Entry}
    (ht : s.transactions.lookup id = some t) (he : e ∈ t.entries) :
    e.accountId ∈ (accountsOf s L code).map Account.id
      ↔ t.ledgerId = L ∧ e.amount.currency.code = code := by
  obtain ⟨a, hl, hlid, hcur⟩ :=
    validateEntry_ok.1 (hs.entries_valid id t ht e he)
  have hid := hs.account_key _ _ hl
  constructor
  · intro hmem
    obtain ⟨a', ha', heq⟩ := List.mem_map.1 hmem
    obtain ⟨hval, hp⟩ := List.mem_filter.1 ha'
    obtain ⟨k, hk⟩ := Table.mem_values.1 hval
    have hkid := hs.account_key _ _ hk
    rw [← hkid, heq, hl] at hk
    cases hk
    simp only [decide_eq_true_eq] at hp
    rw [← hlid, ← hcur]
    exact hp
  · rintro ⟨hL, hcode⟩
    refine List.mem_map.2 ⟨a, List.mem_filter.2
      ⟨Table.mem_values.2 ⟨_, hl⟩, ?_⟩, hid⟩
    simp only [decide_eq_true_eq]
    rw [hlid, hcur]
    exact ⟨hL, hcode⟩

theorem sum_net_zero (hs : Sound s) (view : Status → Bool) (L : LedgerId) (code : String) :
    ((accountsOf s L code).map fun a =>
      net view (postings a.id (Table.values s.transactions))).sum = 0 := by
  have hnd : ((accountsOf s L code).map Account.id).Nodup := by
    have hall := Table.nodup_map_values (m := s.accounts) hs.account_key
    exact hall.sublist (List.filter_sublist.map _)
  simp only [net_postings]
  rw [sum_map_sum_comm]
  refine List.sum_eq_zero fun x hx => ?_
  obtain ⟨t, ht, rfl⟩ := List.mem_map.1 hx
  obtain ⟨id, hl⟩ := Table.mem_values.1 ht
  cases hv : view t.status with
  | false => simp
  | true =>
    simp only [if_true]
    rw [sum_map_sum_comm]
    -- each entry meets at most one of the accounts: its own
    have hentry : ∀ e ∈ t.entries,
        ((accountsOf s L code).map fun a =>
          if e.accountId = a.id then entrySigned e else 0).sum
          = if t.ledgerId = L ∧ e.amount.currency.code = code
            then entrySigned e else 0 := by
      intro e he
      have hsum := sum_map_ite_key (f := Account.id) e.accountId (entrySigned e) hnd
      simp only [eq_comm (a := e.accountId)]
      rw [hsum]
      simp only [mem_accountsOf_iff hs hl he]
    rw [List.map_congr_left hentry]
    by_cases hL : t.ledgerId = L
    · simp only [hL, true_and]
      exact sum_entrySigned_of_balanced (hs.balanced id t hl) code
    · simp [hL]

-- ==== the trial balance

def sideTotal (accts : List Account) (bal : Account → Balance)
    (nb : NormalBalance) (view : Balance → Money) : Int :=
  ((accts.filter fun a => a.normalBalance = nb).map
    fun a => (view (bal a)).minorUnits.val).sum

/-- Signed nets: the two sides agree when the nets cancel. -/
theorem sideTotal_eq {accts : List Account} {bal : Account → Balance}
    {view : Balance → Money} {n : Account → Int} (hbal : ∀ a ∈ accts,
      (view (bal a)).minorUnits.val = signed a.normalBalance (n a))
    (hzero : (accts.map n).sum = 0) :
    sideTotal accts bal .debit view = sideTotal accts bal .credit view := by
  have haux : ∀ l : List Account, (∀ a ∈ l,
      (view (bal a)).minorUnits.val = signed a.normalBalance (n a)) →
      sideTotal l bal .debit view - sideTotal l bal .credit view = (l.map n).sum := by
    intro l
    induction l with
    | nil =>
      intro _
      rfl
    | cons a l ih =>
      intro hl
      have ha := hl a List.mem_cons_self
      have hrest := ih fun b hb => hl b (List.mem_cons_of_mem _ hb)
      simp only [sideTotal] at hrest ⊢
      cases hn : a.normalBalance <;> rw [hn] at ha <;>
        simp [hn, ha, signed] <;> omega
  have h := haux accts hbal
  rw [hzero] at h
  omega

/-- **Trial balance.** After every run that re-creates no account and
submits what the constructors build: wherever `balance` answers for
every account of a ledger in a currency code, whatever order each call
walks the transactions in, the debit-normal and the credit-normal
balances have the same sum, posted and pending. -/
theorem trial_balance (ops : List Op)
    (hrun : Along step (fun s op => KeepsAccounts s op ∧ SubmitsBuilt op) new ops)
    (L : LedgerId) (code : String) (walk : AccountId → List Transaction)
    (hwalk : ∀ id, (walk id).Perm (Table.values (new.run ops).transactions))
    (bal : Account → Balance)
    (hbal : ∀ a ∈ accountsOf (new.run ops) L code,
      (new.run ops).balance (walk a.id) a.id = .ok (bal a)) :
    sideTotal (accountsOf (new.run ops) L code) bal .debit Balance.posted
      = sideTotal (accountsOf (new.run ops) L code) bal .credit Balance.posted
    ∧ sideTotal (accountsOf (new.run ops) L code) bal .debit Balance.pending
      = sideTotal (accountsOf (new.run ops) L code) bal .credit Balance.pending := by
  have hs : Sound (new.run ops) :=
    run_invariant (fun _ _ hs hp => sound_step hs hp.1 hp.2) sound_new hrun
  -- `balance` looks the account up again, and finds the one it was asked for
  have hviews : ∀ a ∈ accountsOf (new.run ops) L code,
      (bal a).posted.minorUnits.val = signed a.normalBalance
        (net postedView (postings a.id (Table.values (new.run ops).transactions)))
      ∧ (bal a).pending.minorUnits.val = signed a.normalBalance
        (net pendingView (postings a.id (Table.values (new.run ops).transactions))) := by
    intro a ha
    obtain ⟨a', hl, hpost, hpend⟩ := balance_ok (hbal a ha)
    obtain ⟨k, hk⟩ := Table.mem_values.1 (List.mem_filter.1 ha).1
    have hkid := hs.account_key _ _ hk
    rw [← hkid, hl] at hk
    cases hk
    rw [net_postings_perm _ _ (hwalk a.id)] at hpost
    rw [net_postings_perm _ _ (hwalk a.id)] at hpend
    exact ⟨hpost, hpend⟩
  exact ⟨sideTotal_eq (fun a ha => (hviews a ha).1) (sum_net_zero hs _ L code),
    sideTotal_eq (fun a ha => (hviews a ha).2) (sum_net_zero hs _ L code)⟩

def twoSales : List Op :=
  Setup.calls ++
    [.postTransaction (Setup.saleTransaction 4 .posted 1000),
      .postTransaction (Setup.saleTransaction 5 .pending ⟨2500, by decide⟩)]

def twoSalesBalance : Balance :=
  { currency := .USD, posted := ⟨1000, .USD⟩
    pending := ⟨⟨3500, by decide⟩, .USD⟩ }

theorem trial_balance_twoSales :
    sideTotal (accountsOf (new.run twoSales) Setup.ledger.id "USD")
        (fun _ => twoSalesBalance) .debit Balance.posted
      = sideTotal (accountsOf (new.run twoSales) Setup.ledger.id "USD")
        (fun _ => twoSalesBalance) .credit Balance.posted
    ∧ sideTotal (accountsOf (new.run twoSales) Setup.ledger.id "USD")
        (fun _ => twoSalesBalance) .debit Balance.pending
      = sideTotal (accountsOf (new.run twoSales) Setup.ledger.id "USD")
        (fun _ => twoSalesBalance) .credit Balance.pending := by
  have hposted : (Setup.saleTransaction 4 .posted ⟨1000, by decide⟩).Built :=
    .newPosted (show Transaction.newPosted ⟨⟨4⟩⟩ Setup.ledger.id 100
      (Setup.sale ⟨1000, by decide⟩) = .ok _ by decide)
  have hpending : (Setup.saleTransaction 5 .pending ⟨2500, by decide⟩).Built :=
    .newPending (show Transaction.newPending ⟨⟨5⟩⟩ Setup.ledger.id 100
      (Setup.sale ⟨2500, by decide⟩) = .ok _ by decide)
  have hcash : ∀ s : InMemoryLedgerStore,
      s.accounts.lookup Setup.cash.id = none →
      KeepsAccounts s (.createAccount Setup.cash) := by
    intro s hs a ha
    rw [hs] at ha
    cases ha
  have hrevenue : ∀ s : InMemoryLedgerStore,
      s.accounts.lookup Setup.revenue.id = none →
      KeepsAccounts s (.createAccount Setup.revenue) := by
    intro s hs a ha
    rw [hs] at ha
    cases ha
  exact trial_balance twoSales
    ⟨⟨trivial, trivial⟩, ⟨hcash _ rfl, trivial⟩,
      ⟨hrevenue _ rfl, trivial⟩, ⟨trivial, hposted⟩,
      ⟨trivial, hpending⟩, trivial⟩
    Setup.ledger.id "USD"
    (fun _ => Table.values (new.run twoSales).transactions)
    (fun _ => .refl _) (fun _ => twoSalesBalance) (by decide)

end InMemoryLedgerStore

end OpenStandards.OpLedger

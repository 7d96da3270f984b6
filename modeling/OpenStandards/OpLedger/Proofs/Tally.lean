/-
The tally loop of `balance`, as exact sums.

The nested loop over transactions and entries is one loop over the
postings to the account (`tallyAll_eq`), and each of the four
accumulators is the exact sum of its lane (`tallyAll_ok`). So both views
of a successful `balance` are the net of the debits and credits they cover
(`balance_ok`).

A walk overflows in no order where what goes up and what goes down on each
lane fit (`addPostings_of_bounds`), and there is no other way to fail
(`balance_error`).
-/
import OpenStandards.OpLedger.Store
import OpenStandards.Lib.Fallible

namespace OpenStandards.OpLedger

open Lib OpCore

-- ==== postings

/-- An entry as the tally sees it: the status of its transaction, its
side and its amount. -/
structure Posting where
  status : Status
  direction : Direction
  amount : I64

def postings (a : AccountId) (walk : List Transaction) : List Posting :=
  walk.flatMap fun t => (t.entries.filter fun e => e.accountId = a).map
    fun e => ⟨t.status, e.direction, e.amount.minorUnits⟩

def laneSum (st : Status) (dir : Direction) (ps : List Posting) : Int :=
  (ps.map fun p =>
    if p.status = st ∧ p.direction = dir then p.amount.val else 0).sum

theorem laneSum_append_singleton (st : Status) (dir : Direction)
    (ps : List Posting) (p : Posting) :
    laneSum st dir (ps ++ [p]) = laneSum st dir ps
      + if p.status = st ∧ p.direction = dir then p.amount.val else 0 := by
  simp [laneSum]

def Posting.signed (p : Posting) : Int :=
  match p.direction with
  | .debit => p.amount.val
  | .credit => -p.amount.val

/-- Debits less credits over the statuses a view covers. -/
def net (view : Status → Bool) (ps : List Posting) : Int :=
  (ps.map fun p => if view p.status then p.signed else 0).sum

def postedView : Status → Bool
  | .posted => true
  | _ => false

def pendingView : Status → Bool
  | .archived => false
  | _ => true

theorem net_posted (ps : List Posting) :
    net postedView ps = laneSum .posted .debit ps - laneSum .posted .credit ps := by
  induction ps with
  | nil => rfl
  | cons p ps ih =>
    simp only [net, laneSum, List.map_cons, List.sum_cons] at ih ⊢
    rw [ih]
    rcases p with ⟨st, dir, x⟩
    cases st <;> cases dir <;>
      simp [postedView, Posting.signed] <;> omega

theorem net_pending (ps : List Posting) :
    net pendingView ps
      = laneSum .posted .debit ps + laneSum .pending .debit ps
        - (laneSum .posted .credit ps + laneSum .pending .credit ps) := by
  induction ps with
  | nil => rfl
  | cons p ps ih =>
    simp only [net, laneSum, List.map_cons, List.sum_cons] at ih ⊢
    rw [ih]
    rcases p with ⟨st, dir, x⟩
    cases st <;> cases dir <;>
      simp [pendingView, Posting.signed] <;> omega

namespace InMemoryLedgerStore

-- ==== the loop

def addPosting (acc : Tally) (p : Posting) : Except Error Tally :=
  match p.status, p.direction with
  | .posted, .debit => do
    let r ← addOrOverflow acc.postedDebits p.amount
    return { acc with postedDebits := r }
  | .posted, .credit => do
    let r ← addOrOverflow acc.postedCredits p.amount
    return { acc with postedCredits := r }
  | .pending, .debit => do
    let r ← addOrOverflow acc.pendingDebits p.amount
    return { acc with pendingDebits := r }
  | .pending, .credit => do
    let r ← addOrOverflow acc.pendingCredits p.amount
    return { acc with pendingCredits := r }
  | .archived, _ => .ok acc

variable {acc : Tally} {walk : List Transaction}

theorem tallyStep_other {a : AccountId} {st : Status} {e : Entry}
    (h : e.accountId ≠ a) : tallyStep a st acc e = .ok acc := by
  unfold tallyStep
  rw [if_pos h]

theorem tallyStep_own {a : AccountId} {st : Status} {e : Entry} (h : e.accountId = a) :
    tallyStep a st acc e = addPosting acc ⟨st, e.direction, e.amount.minorUnits⟩ := by
  unfold tallyStep
  rw [if_neg (by simpa using h)]
  rfl

/-- The entries of one transaction: the loop skips the other accounts'
entries. -/
theorem foldlM_tallyStep (a : AccountId) (st : Status) :
    ∀ (es : List Entry) (acc : Tally),
      es.foldlM (tallyStep a st) acc
        = ((es.filter fun e => e.accountId = a).map fun e =>
            (⟨st, e.direction, e.amount.minorUnits⟩ : Posting)).foldlM addPosting acc := by
  intro es
  induction es with
  | nil =>
    intro acc
    rfl
  | cons e es ih =>
    intro acc
    by_cases h : e.accountId = a
    · rw [List.foldlM_cons, tallyStep_own h,
        List.filter_cons_of_pos (by simpa using h), List.map_cons,
        List.foldlM_cons]
      congr 1
      funext acc'
      exact ih acc'
    · rw [List.foldlM_cons, tallyStep_other h,
        List.filter_cons_of_neg (by simpa using h), ok_bind]
      exact ih acc

/-- The nested loop is one loop over the postings. -/
theorem tallyAll_eq (a : AccountId) (walk : List Transaction) :
    tallyAll a walk = (postings a walk).foldlM addPosting Tally.zero := by
  unfold tallyAll
  generalize Tally.zero = acc
  induction walk generalizing acc with
  | nil => rfl
  | cons t walk ih =>
    rw [show postings a (t :: walk)
        = ((t.entries.filter fun e => e.accountId = a).map fun e =>
            (⟨t.status, e.direction, e.amount.minorUnits⟩ : Posting))
          ++ postings a walk from List.flatMap_cons ..,
      List.foldlM_cons, List.foldlM_append, foldlM_tallyStep]
    congr 1
    funext acc'
    exact ih acc'

/-- The accumulators hold the exact lane sums of the postings
consumed. -/
def Tally.Exact (ps : List Posting) (t : Tally) : Prop :=
  t.postedDebits.val = laneSum .posted .debit ps
    ∧ t.postedCredits.val = laneSum .posted .credit ps
    ∧ t.pendingDebits.val = laneSum .pending .debit ps
    ∧ t.pendingCredits.val = laneSum .pending .credit ps

theorem addOrOverflow_ok {a b r : I64} : addOrOverflow a b = .ok r ↔ r.val = a.val + b.val := by
  unfold addOrOverflow
  cases h : a.checkedAdd b with
  | none =>
    constructor
    · intro h'
      cases h'
    · intro h'
      rw [I64.checkedAdd_eq_some.2 h'] at h
      cases h
  | some r' =>
    rw [Except.ok.injEq, ← I64.checkedAdd_eq_some, h, Option.some.injEq]

theorem exact_addPosting {ps : List Posting} {acc' : Tally} {p : Posting}
    (hex : acc.Exact ps) (h : addPosting acc p = .ok acc') :
    acc'.Exact (ps ++ [p]) := by
  obtain ⟨h1, h2, h3, h4⟩ := hex
  unfold Tally.Exact
  rw [laneSum_append_singleton, laneSum_append_singleton,
    laneSum_append_singleton, laneSum_append_singleton]
  rcases p with ⟨st, dir, x⟩
  cases st with
  | archived =>
    cases h
    simp [h1, h2, h3, h4]
  | posted =>
    cases dir <;>
    · obtain ⟨r, hr, h⟩ := bind_eq_ok.1 h
      have hr' := addOrOverflow_ok.1 hr
      cases h
      simp [h1, h2, h3, h4, hr']
  | pending =>
    cases dir <;>
    · obtain ⟨r, hr, h⟩ := bind_eq_ok.1 h
      have hr' := addOrOverflow_ok.1 hr
      cases h
      simp [h1, h2, h3, h4, hr']

theorem tallyAll_ok {a : AccountId} {t : Tally} (h : tallyAll a walk = .ok t) :
    t.Exact (postings a walk) := by
  rw [tallyAll_eq] at h
  exact foldlM_ok ⟨rfl, rfl, rfl, rfl⟩ (fun _ _ _ _ hp hs => exact_addPosting hp hs) h

-- ==== balance

def signed (normal : NormalBalance) (x : Int) : Int :=
  match normal with
  | .debit => x
  | .credit => -x

theorem signByNormal_ok {normal : NormalBalance} {d c r : I64} :
    signByNormal normal d c = .ok r ↔ r.val = signed normal (d.val - c.val) := by
  have haux : ∀ (x y : I64), signByNormal .debit x y = .ok r ↔ r.val = x.val - y.val := by
    intro x y
    unfold signByNormal
    dsimp only
    cases h : x.checkedSub y with
    | none =>
      constructor
      · intro h'
        cases h'
      · intro h'
        rw [I64.checkedSub_eq_some.2 h'] at h
        cases h
    | some r' =>
      rw [Except.ok.injEq, ← I64.checkedSub_eq_some, h, Option.some.injEq]
  cases normal with
  | debit => exact haux d c
  | credit =>
    rw [show signed .credit (d.val - c.val) = c.val - d.val from Int.neg_sub ..]
    exact haux c d

/-- A balance that was answered: the account exists and both views are
its exact net postings, in its normal sign. -/
theorem balance_ok {s : InMemoryLedgerStore} {id : AccountId} {b : Balance}
    (h : s.balance walk id = .ok b) :
    ∃ a, s.accounts.lookup id = some a
      ∧ b.posted.minorUnits.val = signed a.normalBalance (net postedView (postings id walk))
      ∧ b.pending.minorUnits.val
        = signed a.normalBalance (net pendingView (postings id walk)) := by
  unfold balance at h
  split at h
  next => cases h
  next a hl =>
    obtain ⟨t, ht, h⟩ := bind_eq_ok.1 h
    obtain ⟨p, hp, h⟩ := bind_eq_ok.1 h
    obtain ⟨td, htd, h⟩ := bind_eq_ok.1 h
    obtain ⟨tc, htc, h⟩ := bind_eq_ok.1 h
    obtain ⟨q, hq, h⟩ := bind_eq_ok.1 h
    cases h
    obtain ⟨h1, h2, h3, h4⟩ := tallyAll_ok ht
    have htd' := addOrOverflow_ok.1 htd
    have htc' := addOrOverflow_ok.1 htc
    refine ⟨a, hl, ?_, ?_⟩
    · rw [net_posted, ← h1, ← h2]
      exact signByNormal_ok.1 hp
    · rw [net_pending, ← h1, ← h2, ← h3, ← h4, ← htd', ← htc']
      exact signByNormal_ok.1 hq

-- ==== in every order

def laneOf (st : Status) (d : Direction) (t : Tally) : I64 :=
  match st, d with
  | .posted, .debit => t.postedDebits
  | .posted, .credit => t.postedCredits
  | .pending, .debit => t.pendingDebits
  | .pending, .credit => t.pendingCredits
  | .archived, _ => 0

def laneAmounts (st : Status) (d : Direction) (ps : List Posting) : List Int :=
  (ps.filter fun p => p.status = st ∧ p.direction = d).map
    fun p => p.amount.val

theorem laneAmounts_cons (st : Status) (d : Direction) (p : Posting) (ps : List Posting) :
    laneAmounts st d (p :: ps)
      = (if p.status = st ∧ p.direction = d then [p.amount.val] else [])
        ++ laneAmounts st d ps := by
  unfold laneAmounts
  by_cases h : p.status = st ∧ p.direction = d
  · rw [if_pos h, List.filter_cons_of_pos (by simpa using h)]
    rfl
  · rw [if_neg h, List.filter_cons_of_neg (by simpa using h)]
    rfl

theorem sum_laneAmounts (st : Status) (d : Direction) (ps : List Posting) :
    (laneAmounts st d ps).sum = laneSum st d ps := by
  induction ps with
  | nil => rfl
  | cons p ps ih =>
    rw [laneAmounts_cons, List.sum_append, ih]
    unfold laneSum
    rw [List.map_cons, List.sum_cons]
    congr 1
    by_cases h : p.status = st ∧ p.direction = d
    · rw [if_pos h, if_pos h, List.sum_singleton]
    · rw [if_neg h, if_neg h, List.sum_nil]

theorem addPosting_of_inI64 {p : Posting} (h : p.status ≠ .archived →
      InI64 ((laneOf p.status p.direction acc).val + p.amount.val)) :
    ∃ acc', addPosting acc p = .ok acc' ∧ ∀ st d, st ≠ .archived →
      (laneOf st d acc').val = (laneOf st d acc).val
        + if p.status = st ∧ p.direction = d then p.amount.val else 0 := by
  obtain ⟨pst, pd, x⟩ := p
  cases pst with
  | archived =>
    refine ⟨acc, rfl, ?_⟩
    intro st d hst
    rw [if_neg (fun heq => hst heq.1.symm), add_zero]
  | posted =>
    cases pd <;>
    · refine ⟨_, bind_eq_ok.2 ⟨⟨_, h (by rintro ⟨⟩)⟩, addOrOverflow_ok.2 rfl, rfl⟩,
        ?_⟩
      intro st d hst
      cases st <;> cases d <;> simp [laneOf] at hst ⊢
  | pending =>
    cases pd <;>
    · refine ⟨_, bind_eq_ok.2 ⟨⟨_, h (by rintro ⟨⟩)⟩, addOrOverflow_ok.2 rfl, rfl⟩,
        ?_⟩
      intro st d hst
      cases st <;> cases d <;> simp [laneOf] at hst ⊢

/-- Postings are tallied in any order where what goes up and what goes
down on each lane fit. -/
theorem addPostings_of_bounds :
    ∀ {ps : List Posting} {acc : Tally},
      (∀ st d, st ≠ .archived →
        -9223372036854775808 ≤ (laneOf st d acc).val + downs (laneAmounts st d ps)
          ∧ (laneOf st d acc).val + ups (laneAmounts st d ps) ≤ 9223372036854775807) →
      ∃ acc', ps.foldlM addPosting acc = .ok acc' := by
  intro ps
  induction ps with
  | nil =>
    intro acc _
    exact ⟨acc, rfl⟩
  | cons p ps ih =>
    intro acc hb
    obtain ⟨acc₁, h₁, hlane⟩ := @addPosting_of_inI64 acc p (by
      intro hst
      obtain ⟨hlo, hhi⟩ := hb p.status p.direction hst
      rw [laneAmounts_cons, if_pos ⟨rfl, rfl⟩, downs_append] at hlo
      rw [laneAmounts_cons, if_pos ⟨rfl, rfl⟩, ups_append] at hhi
      simp only [downs_cons, downs_nil] at hlo
      simp only [ups_cons, ups_nil] at hhi
      have hd := downs_nonpos (laneAmounts p.status p.direction ps)
      have hu := ups_nonneg (laneAmounts p.status p.direction ps)
      exact ⟨by omega, by omega⟩)
    obtain ⟨acc', h'⟩ := @ih acc₁ (by
      intro st d hst
      obtain ⟨hlo, hhi⟩ := hb st d hst
      rw [laneAmounts_cons, downs_append] at hlo
      rw [laneAmounts_cons, ups_append] at hhi
      rw [hlane st d hst]
      by_cases hp : p.status = st ∧ p.direction = d
      · simp only [if_pos hp, downs_cons, downs_nil] at hlo ⊢
        simp only [if_pos hp, ups_cons, ups_nil] at hhi
        exact ⟨by omega, by omega⟩
      · simp only [if_neg hp, downs_nil] at hlo ⊢
        simp only [if_neg hp, ups_nil] at hhi
        exact ⟨by omega, by omega⟩)
    exact ⟨acc', by rw [List.foldlM_cons, h₁]; exact h'⟩

theorem addOrOverflow_error {a b : I64} {e : Error}
    (h : addOrOverflow a b = .error e) : e = .core .overflow := by
  unfold addOrOverflow at h
  split at h <;> cases h
  rfl

theorem signByNormal_error {normal : NormalBalance} {d c : I64} {e : Error}
    (h : signByNormal normal d c = .error e) : e = .core .overflow := by
  unfold signByNormal at h
  dsimp only at h
  split at h <;> cases h
  rfl

theorem tallyAll_error {a : AccountId} {e : Error}
    (h : tallyAll a walk = .error e) : e = .core .overflow := by
  rw [tallyAll_eq] at h
  obtain ⟨acc, p, -, hp⟩ := exists_of_foldlM_error h
  unfold addPosting at hp
  split at hp
  case h_5 => cases hp
  all_goals
    obtain he | ⟨r, -, hp⟩ := bind_eq_error.1 hp
    · exact addOrOverflow_error he
    · cases hp

theorem balance_error {s : InMemoryLedgerStore} {id : AccountId} {a : Account}
    {e : Error} (hl : s.accounts.lookup id = some a)
    (h : s.balance walk id = .error e) : e = .core .overflow := by
  unfold balance at h
  rw [hl] at h
  obtain he | ⟨t, -, h⟩ := bind_eq_error.1 h
  · exact tallyAll_error he
  obtain he | ⟨p, -, h⟩ := bind_eq_error.1 h
  · exact signByNormal_error he
  obtain he | ⟨td, -, h⟩ := bind_eq_error.1 h
  · exact addOrOverflow_error he
  obtain he | ⟨tc, -, h⟩ := bind_eq_error.1 h
  · exact addOrOverflow_error he
  obtain he | ⟨q, -, h⟩ := bind_eq_error.1 h
  · exact signByNormal_error he
  · cases h

end InMemoryLedgerStore

end OpenStandards.OpLedger

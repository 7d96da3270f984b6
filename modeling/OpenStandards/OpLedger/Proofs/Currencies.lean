/-
What a constructed transaction is balanced in.

The constructor tallies debits and credits under the currency's code with
checked additions (`construct_ok_iff`). A currency is more than its code:
a list that balances only across two exponents is accepted (`proper_iff`).
A reversal exchanges the two columns of every tally and is accepted again.
-/
import OpenStandards.OpLedger.Proofs.Steps

namespace OpenStandards.OpLedger

open Lib OpCore

-- ==== what is accepted

def Fits (es : List Entry) : Prop :=
  ∀ pre post, es = pre ++ post → ∀ dir code, InI64 (sideSum dir code pre)

/-- At least two entries, no overflow, and every code balanced. -/
structure Accepted (es : List Entry) : Prop where
  two_le : 2 ≤ es.length
  fits : Fits es
  balanced : Balanced es

variable {es : List Entry} {tallies : Tallies}

theorem Fits.of_append {es' : List Entry} (h : Fits (es ++ es')) : Fits es := by
  intro pre post heq
  exact h pre (post ++ es') (by rw [heq, List.append_assoc])

theorem Tracks.inRange (h : Tracks es tallies) (dir : Direction)
    (code : String) : InI64 (sideSum dir code es) := by
  cases dir with
  | debit =>
    rw [← (h code).1]
    exact (row tallies code).1.inRange
  | credit =>
    rw [← (h code).2]
    exact (row tallies code).2.inRange

/-- A turn of the loop goes through where the next sum fits. -/
theorem tallyEntry_of_fits {e : Entry} (htr : Tracks es tallies)
    (hfit : InI64 (sideSum e.direction e.amount.currency.code (es ++ [e]))) :
    ∃ tallies', tallyEntry tallies e = .ok tallies' := by
  have hrow := htr e.amount.currency.code
  rw [sideSum_append_singleton, if_pos ⟨rfl, rfl⟩] at hfit
  unfold tallyEntry
  dsimp only
  change InI64 _ at hfit
  cases hdir : e.direction with
  | debit =>
    rw [hdir, ← hrow.1] at hfit
    have hadd : I64.checkedAdd (row tallies e.amount.currency.code).1
        e.amount.minorUnits = some ⟨_, hfit⟩ :=
      I64.checkedAdd_eq_some.2 rfl
    unfold row at hadd
    dsimp only
    rw [hadd]
    exact ⟨_, rfl⟩
  | credit =>
    rw [hdir, ← hrow.2] at hfit
    have hadd : I64.checkedAdd (row tallies e.amount.currency.code).2
        e.amount.minorUnits = some ⟨_, hfit⟩ :=
      I64.checkedAdd_eq_some.2 rfl
    unfold row at hadd
    dsimp only
    rw [hadd]
    exact ⟨_, rfl⟩

theorem tracks_foldlM (h : es.foldlM tallyEntry (∅ : Tallies) = .ok tallies) :
    Tracks es tallies :=
  foldlM_ok tracks_nil (fun _ _ _ _ hp hs => tracks_tallyEntry hp hs) h

/-- The loop goes through exactly where every running sum fits. -/
theorem foldlM_tallyEntry_ok_iff :
    (∃ tallies, es.foldlM tallyEntry (∅ : Tallies) = .ok tallies) ↔ Fits es := by
  constructor
  · intro h pre post heq dir code
    obtain ⟨tallies, h⟩ := h
    rw [heq, List.foldlM_append] at h
    obtain ⟨tallies', hpre, -⟩ := bind_eq_ok.1 h
    exact (tracks_foldlM hpre).inRange dir code
  · intro h
    induction es using List.reverseRecOn with
    | nil => exact ⟨∅, rfl⟩
    | append_singleton es e ih =>
      obtain ⟨tallies, htallies⟩ := ih h.of_append
      obtain ⟨tallies', hstep⟩ := tallyEntry_of_fits
        (tracks_foldlM htallies)
        (h (es ++ [e]) [] (List.append_nil _).symm _ _)
      refine ⟨tallies', ?_⟩
      rw [List.foldlM_append, htallies, ok_bind, List.foldlM_cons, hstep]
      rfl

/-- A row of the table holds the sums of its code. -/
theorem Tracks.entry (h : Tracks es tallies) {p : (_ : String) × (I64 × I64)}
    (hp : p ∈ tallies.entries) :
    p.2.1.val = sideSum .debit p.1 es ∧ p.2.2.val = sideSum .credit p.1 es := by
  have hrow : row tallies p.1 = p.2 := by
    unfold row
    rw [AList.mem_lookup_iff.2 hp]
    rfl
  rw [← hrow]
  exact h p.1

theorem validateBalanced_ok_iff : validateBalanced es = .ok () ↔ Fits es ∧ Balanced es := by
  constructor
  · intro h
    refine ⟨?_, balanced_of_validateBalanced h⟩
    unfold validateBalanced at h
    obtain ⟨tallies, hfold, -⟩ := bind_eq_ok.1 h
    exact foldlM_tallyEntry_ok_iff.1 ⟨tallies, hfold⟩
  · intro h
    obtain ⟨hfit, hbal⟩ := h
    obtain ⟨tallies, hfold⟩ := foldlM_tallyEntry_ok_iff.2 hfit
    have hnone : tallies.entries.find? (fun p => decide (p.2.1 ≠ p.2.2)) = none := by
      refine List.find?_eq_none.2 fun p hp => ?_
      obtain ⟨hd, hc⟩ := (tracks_foldlM hfold).entry hp
      have hsame : p.2.1 = p.2.2 := I64.ext (by rw [hd, hc, hbal p.1])
      simp [hsame]
    unfold validateBalanced
    rw [hfold, ok_bind]
    simp only [hnone]

theorem validateBalanced_error {e : Error} (h : validateBalanced es = .error e) :
    e = .core .overflow ∨ ∃ code debits credits,
      e = .unbalanced code debits credits
        ∧ debits.val = sideSum .debit code es
        ∧ credits.val = sideSum .credit code es ∧ debits ≠ credits := by
  unfold validateBalanced at h
  rcases bind_eq_error.1 h with hfold | ⟨tallies, hfold, h⟩
  · refine Or.inl ?_
    obtain ⟨tallies, entry, -, hstep⟩ := exists_of_foldlM_error hfold
    unfold tallyEntry at hstep
    dsimp only at hstep
    split at hstep
    · split at hstep
      · cases hstep
      · exact (Except.error.inj hstep).symm
    · split at hstep
      · cases hstep
      · exact (Except.error.inj hstep).symm
  · refine Or.inr ?_
    split at h
    case h_1 cur debits credits hfind =>
      obtain ⟨hd, hc⟩ := (tracks_foldlM hfold).entry (List.mem_of_find?_eq_some hfind)
      have hne := List.find?_some hfind
      exact ⟨cur, debits, credits, (Except.error.inj h).symm, hd, hc, by simpa using hne⟩
    case h_2 => cases h

-- ==== the constructors

section

variable {id : TransactionId} {lid : LedgerId} {st : Status} {eff : Nat}
  {es : List Entry}

theorem construct_ok_iff :
    (∃ t, Transaction.construct id lid st eff es = .ok t) ↔ Accepted es := by
  unfold Transaction.construct
  constructor
  · intro h
    obtain ⟨t, h⟩ := h
    by_cases hlen : es.length < 2
    · rw [if_pos hlen] at h
      cases h
    · rw [if_neg hlen] at h
      obtain ⟨_, hval, -⟩ := bind_eq_ok.1 h
      obtain ⟨hfit, hbal⟩ := validateBalanced_ok_iff.1 hval
      exact ⟨by omega, hfit, hbal⟩
  · intro h
    rw [if_neg (by have := h.two_le; omega), validateBalanced_ok_iff.2 ⟨h.fits, h.balanced⟩]
    exact ⟨_, rfl⟩

def Refusal (es : List Entry) (e : Error) : Prop :=
  (e = .tooFewEntries es.length ∧ es.length < 2)
    ∨ e = .core .overflow
    ∨ ∃ code debits credits, e = .unbalanced code debits credits
      ∧ debits.val = sideSum .debit code es
      ∧ credits.val = sideSum .credit code es ∧ debits ≠ credits

theorem construct_error {e : Error} (h : Transaction.construct id lid st eff es = .error e) :
    Refusal es e := by
  unfold Transaction.construct at h
  by_cases hlen : es.length < 2
  · rw [if_pos hlen] at h
    exact Or.inl ⟨(Except.error.inj h).symm, hlen⟩
  · rw [if_neg hlen] at h
    rcases bind_eq_error.1 h with hval | ⟨_, -, h⟩
    · exact Or.inr (validateBalanced_error hval)
    · cases h

end

-- ==== the reversal

theorem sideSum_reverse (dir : Direction) (code : String) (es : List Entry) :
    sideSum dir code (es.map Entry.reverse) = sideSum dir.opposite code es := by
  unfold sideSum
  rw [List.map_map]
  congr 1
  refine List.map_congr_left fun e _ => ?_
  obtain ⟨acct, direction, amount⟩ := e
  cases direction with
  | debit => cases dir <;> simp [Entry.reverse, Direction.opposite]
  | credit => cases dir <;> simp [Entry.reverse, Direction.opposite]

/-- The columns change places, so what was accepted is accepted. -/
theorem Accepted.reverse (h : Accepted es) : Accepted (es.map Entry.reverse) := by
  refine ⟨by rw [List.length_map]; exact h.two_le, ?_, ?_⟩
  · intro pre post heq dir code
    obtain ⟨pre', post', rfl, rfl, -⟩ := List.map_eq_append_iff.1 heq
    rw [sideSum_reverse]
    exact h.fits pre' post' rfl _ _
  · intro code
    rw [sideSum_reverse, sideSum_reverse]
    exact (h.balanced code).symm

def netIn (acct : AccountId) (c : Currency) (es : List Entry) : Int :=
  (es.map fun e =>
    if e.accountId = acct ∧ e.amount.currency = c then
      match e.direction with
      | .debit => e.amount.minorUnits.val
      | .credit => -e.amount.minorUnits.val
    else 0).sum

theorem netIn_reverse (acct : AccountId) (c : Currency) (es : List Entry) :
    netIn acct c (es.map Entry.reverse) = -netIn acct c es := by
  unfold netIn
  rw [List.map_map]
  induction es with
  | nil => rfl
  | cons e es ih =>
    rw [List.map_cons, List.sum_cons, List.map_cons, List.sum_cons, ih, neg_add]
    congr 1
    unfold Entry.reverse
    dsimp only [Function.comp]
    split
    · cases e.direction with
      | debit => rfl
      | credit => exact (neg_neg _).symm
    · rfl

-- ==== currencies

def currencySum (dir : Direction) (c : Currency) (es : List Entry) : Int :=
  (es.map fun e =>
    if e.direction = dir ∧ e.amount.currency = c
    then e.amount.minorUnits.val else 0).sum

def BalancedIn (c : Currency) (es : List Entry) : Prop :=
  currencySum .debit c es = currencySum .credit c es

def Crosses (es : List Entry) : Prop :=
  Accepted es ∧ ∃ c, ¬ BalancedIn c es

def Constructs (es : List Entry) (x : Except Error Transaction) : Prop :=
  ∃ id lid eff, x = Transaction.newPending id lid eff es
    ∨ x = Transaction.newPosted id lid eff es

/-- What construction is to do with a list: what it accepts is balanced in
every currency, it refuses for one of three reasons, and what it built can
be reversed, to the opposite effect on every account and currency. -/
structure Proper (es : List Entry) : Prop where
  balanced : ∀ t, Constructs es (.ok t) → ∀ c, BalancedIn c t.entries
  refused : ∀ e, Constructs es (.error e) → Refusal es e
  reversible : ∀ t, Constructs es (.ok t) → ∀ id eff,
    ∃ r, Transaction.reversalOf id t eff = .ok r
      ∧ ∀ acct c, netIn acct c r.entries = -netIn acct c t.entries

section

variable {es : List Entry}

theorem Constructs.construct {x : Except Error Transaction} (h : Constructs es x) :
    ∃ id lid st eff, x = Transaction.construct id lid st eff es := by
  obtain ⟨id, lid, eff, h | h⟩ := h
  · exact ⟨id, lid, .pending, eff, h⟩
  · exact ⟨id, lid, .posted, eff, h⟩

theorem Constructs.ok {t : Transaction} (h : Constructs es (.ok t)) :
    t.entries = es ∧ Accepted es := by
  obtain ⟨id, lid, st, eff, h⟩ := h.construct
  exact ⟨(construct_ok h.symm).1, construct_ok_iff.1 ⟨t, h.symm⟩⟩

theorem reversalOf_ok {t : Transaction} (h : Accepted t.entries)
    (id : TransactionId) (eff : Nat) :
    ∃ r, Transaction.reversalOf id t eff = .ok r ∧ r.entries = t.entries.map Entry.reverse := by
  have hok : ∃ t', Transaction.construct id t.ledgerId .pending eff
      (t.entries.map Entry.reverse) = .ok t' := construct_ok_iff.2 h.reverse
  obtain ⟨t', ht'⟩ := hok
  unfold Transaction.reversalOf Transaction.newPending
  rw [ht']
  exact ⟨_, rfl, (construct_ok ht').1⟩

/-- Construction does what it is to do exactly with the lists that do not
balance across two exponents of a code. -/
theorem proper_iff (es : List Entry) : Proper es ↔ ¬ Crosses es := by
  constructor
  · intro h hcross
    obtain ⟨haccepted, c, hc⟩ := hcross
    have hok : ∃ t, Transaction.construct ⟨⟨0⟩⟩ ⟨⟨0⟩⟩ .pending 0 es = .ok t :=
      construct_ok_iff.2 haccepted
    obtain ⟨t, ht⟩ := hok
    refine hc ?_
    have hbal := h.balanced t ⟨⟨⟨0⟩⟩, ⟨⟨0⟩⟩, 0, Or.inl ht.symm⟩ c
    rwa [(construct_ok ht).1] at hbal
  · intro h
    refine ⟨fun t ht c => ?_, fun e he => ?_, fun t ht id eff => ?_⟩
    · obtain ⟨hes, haccepted⟩ := ht.ok
      rw [hes]
      by_contra hc
      exact h ⟨haccepted, c, hc⟩
    · obtain ⟨id, lid, st, eff, he⟩ := he.construct
      exact construct_error he.symm
    · obtain ⟨hes, haccepted⟩ := ht.ok
      rw [← hes] at haccepted
      obtain ⟨r, hr, hentries⟩ := reversalOf_ok haccepted id eff
      refine ⟨r, hr, fun acct c => ?_⟩
      rw [hentries]
      exact netIn_reverse acct c t.entries

end

/-- The dollar, counted without cents. -/
def wholeDollars : Currency :=
  ⟨'U', 'S', 'D', 0, Currency.USD.code_upper, Currency.JPY.exponent_le⟩

def dollarForHundred : List Entry :=
  [.debit ⟨⟨1⟩⟩ (Money.fromMinor 100 .USD), .credit ⟨⟨2⟩⟩ (Money.fromMinor 100 wholeDollars)]

/-- It is accepted, and balanced in neither currency. -/
theorem dollar_for_hundred_accepted :
    (∃ t, Transaction.newPosted ⟨⟨3⟩⟩ ⟨⟨4⟩⟩ 0 dollarForHundred = .ok t)
      ∧ ¬ Proper dollarForHundred := by
  have hok : (Transaction.newPosted ⟨⟨3⟩⟩ ⟨⟨4⟩⟩ 0
      dollarForHundred).isOk = true := by decide +kernel
  obtain ⟨t, ht⟩ := isOk_iff.1 hok
  refine ⟨⟨t, ht⟩, fun h => ?_⟩
  have hbal := h.balanced t ⟨⟨⟨3⟩⟩, ⟨⟨4⟩⟩, 0, Or.inr ht.symm⟩ .USD
  rw [(construct_ok ht).1] at hbal
  revert hbal
  unfold BalancedIn
  decide

end OpenStandards.OpLedger

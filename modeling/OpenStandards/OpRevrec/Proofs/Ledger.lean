/-
The deferred-revenue ledger conserves cash.

The balances are a fold over a contract's postings (`balances_spec`):
while the amounts are not negative and their sum stays in range nothing
saturates, and a posting moves money between the two balances or in and
out of both together. What a run adds is which calls became postings
(`postings_run`): all of them but the refused refunds.
-/
import OpenStandards.OpRevrec.Schedule

namespace OpenStandards.OpRevrec

open Lib OpCore
open OpLedger (Uuid)

namespace InMemoryLedger

-- ==== the calls

namespace Op

def contractId : Op → ContractId
  | .openDeferral _ contractId _ _ _ _ => contractId
  | .postRecognition _ contractId _ _ => contractId
  | .postRefund _ contractId _ _ _ _ => contractId

def posting : Op → Posting
  | .openDeferral stamp contractId paymentId amount date memo =>
    { stamp, contractId, paymentId, kind := .deferralOpen
      amountMinor := amount.minorUnits, currency := amount.currency, date
      memo }
  | .postRecognition stamp contractId entry memo =>
    { stamp, contractId, paymentId := none, kind := .recognize
      amountMinor := entry.amountMinor, currency := entry.currency
      date := entry.date, memo }
  | .postRefund stamp contractId paymentId amount date memo =>
    { stamp, contractId, paymentId, kind := .refund
      amountMinor := amount.minorUnits, currency := amount.currency, date
      memo }

def amount (op : Op) : Int := op.posting.amountMinor.val

end Op

def moved (kind : PostingKind) (contractId : ContractId) (ops : List Op) : Int :=
  ((ops.filter fun op => decide (op.contractId = contractId)
    && decide (op.posting.kind = kind)).map Op.amount).sum

def accepted : InMemoryLedger → List Op → List Op
  | _, [] => []
  | ledger, op :: ops =>
    if (call ledger op).1.isOk then
      op :: accepted (step ledger op) ops
    else accepted (step ledger op) ops

-- ==== the postings

theorem postings_insert (ledger : InMemoryLedger) (c c' : ContractId) (ps : List Posting) :
    postings (ledger.insert c ps) c' = if c' = c then ps else postings ledger c' := by
  unfold postings
  rw [Table.lookup_insert_eq]
  split
  · rfl
  · rfl

theorem postings_step (ledger : InMemoryLedger) (op : Op) (c : ContractId) :
    postings (step ledger op) c
      = if (call ledger op).1.isOk ∧ c = op.contractId then
          postings ledger c ++ [op.posting]
        else postings ledger c := by
  have hpush : ∀ p : Posting, postings (push ledger op.contractId p) c
      = if c = op.contractId then postings ledger c ++ [p]
        else postings ledger c := by
    intro p
    unfold push
    rw [postings_insert]
    split
    case isTrue h => rw [h]
    case isFalse => rfl
  cases op with
  | openDeferral stamp contractId paymentId amount date memo =>
    refine (hpush _).trans ?_
    simp [call, openDeferral, Except.isOk, Except.toBool, Op.posting]
  | postRecognition stamp contractId entry memo =>
    refine (hpush _).trans ?_
    simp [call, postRecognition, Except.isOk, Except.toBool, Op.posting]
  | postRefund stamp contractId paymentId amount date memo =>
    unfold step call postRefund
    simp only
    split
    · rw [postings_insert]
      simp only [Except.isOk, Except.toBool, Bool.false_eq_true, false_and, if_false]
      split
      case isTrue h => rw [h]
      case isFalse => rfl
    · refine (hpush _).trans ?_
      simp [Except.isOk, Except.toBool, Op.posting]

theorem accepted_concat (ledger : InMemoryLedger) (ops : List Op) (op : Op) :
    accepted ledger (ops ++ [op])
      = accepted ledger ops ++ if (call (run step ledger ops) op).1.isOk then [op] else [] := by
  induction ops generalizing ledger with
  | nil =>
    show accepted ledger [op] = _
    unfold accepted accepted
    rfl
  | cons first ops ih =>
    show accepted ledger (first :: (ops ++ [op])) = _
    unfold accepted
    rw [ih]
    split
    · rfl
    · rfl

theorem accepted_sublist (ledger : InMemoryLedger) (ops : List Op) :
    (accepted ledger ops).Sublist ops := by
  induction ops generalizing ledger with
  | nil => exact .slnil
  | cons op ops ih =>
    unfold accepted
    split
    · exact (ih _).cons_cons op
    · exact (ih _).cons op

theorem postings_run (ops : List Op) (c : ContractId) :
    postings (run step new ops) c
      = ((accepted new ops).filter fun op => op.contractId = c).map Op.posting := by
  induction ops using List.reverseRecOn with
  | nil => rfl
  | append_singleton ops op ih =>
    rw [run_append, accepted_concat]
    show postings (step (run step new ops) op) c = _
    rw [postings_step, ih, List.filter_append, List.map_append]
    by_cases hok : (call (run step new ops) op).1.isOk
    · by_cases hc : c = op.contractId
      · simp [hok, hc]
      · simp [hok, hc, Ne.symm hc]
    · simp [hok]

-- ==== the balances

/-- What a posting makes of the balances where nothing saturates: the
deferred and the recognized one. A refund takes from the recognized
balance first. -/
def exactly (b : Balances) (p : Posting) : Int × Int :=
  match p.kind with
  | .deferralOpen =>
    (b.deferredMinor.val + p.amountMinor.val, b.recognizedMinor.val)
  | .recognize =>
    (b.deferredMinor.val - p.amountMinor.val, b.recognizedMinor.val + p.amountMinor.val)
  | .refund =>
    (b.deferredMinor.val - (p.amountMinor.val - min b.recognizedMinor.val p.amountMinor.val),
      b.recognizedMinor.val - min b.recognizedMinor.val p.amountMinor.val)

/-- Nothing more than `v` has moved, and nothing recognized is owed. -/
structure Within (v : Int) (b : Balances) : Prop where
  recognized_nonneg : 0 ≤ b.recognizedMinor.val
  recognized_le : b.recognizedMinor.val ≤ v
  le_deferred : -v ≤ b.deferredMinor.val
  deferred_le : b.deferredMinor.val ≤ v

theorem balanceStep_eq {b : Balances} {p : Posting} {v : Int}
    (hb : Within v b) (hp : 0 ≤ p.amountMinor.val)
    (hv : v + p.amountMinor.val ≤ 9223372036854775807) :
    ((balanceStep b p).deferredMinor.val, (balanceStep b p).recognizedMinor.val)
      = exactly b p := by
  rcases hb with ⟨hr, hrv, hd, hdv⟩
  unfold balanceStep exactly
  cases p.kind with
  | deferralOpen =>
    simp only
    rw [I64.val_saturatingAdd (by unfold InI64; omega)]
  | recognize =>
    simp only
    rw [I64.val_saturatingSub (by unfold InI64; omega),
      I64.val_saturatingAdd (by unfold InI64; omega)]
  | refund =>
    simp only
    split
    case isTrue hle =>
      have hsub : (p.amountMinor.wrappingSub b.recognizedMinor).val
          = p.amountMinor.val - b.recognizedMinor.val :=
        I64.val_wrap (by unfold InI64; omega)
      rw [I64.val_saturatingSub (by rw [hsub]; unfold InI64; omega),
        I64.val_saturatingSub (by unfold InI64; omega), hsub,
        min_eq_left hle]
    case isFalse hlt =>
      have hsub : (p.amountMinor.wrappingSub p.amountMinor).val
          = p.amountMinor.val - p.amountMinor.val :=
        I64.val_wrap (by unfold InI64; omega)
      rw [I64.val_saturatingSub (by rw [hsub]; unfold InI64; omega),
        I64.val_saturatingSub (by unfold InI64; omega), hsub,
        min_eq_right (by omega)]

theorem within_balanceStep {b : Balances} {p : Posting} {v : Int}
    (hb : Within v b) (hp : 0 ≤ p.amountMinor.val)
    (hv : v + p.amountMinor.val ≤ 9223372036854775807) :
    Within (v + p.amountMinor.val) (balanceStep b p) := by
  have heq := balanceStep_eq hb hp hv
  rcases hb with ⟨hr, hrv, hd, hdv⟩
  unfold exactly at heq
  cases hk : p.kind with
  | deferralOpen =>
    rw [hk, Prod.mk.injEq] at heq
    exact ⟨by omega, by omega, by omega, by omega⟩
  | recognize =>
    rw [hk, Prod.mk.injEq] at heq
    exact ⟨by omega, by omega, by omega, by omega⟩
  | refund =>
    rw [hk, Prod.mk.injEq] at heq
    exact ⟨by omega, by omega, by omega, by omega⟩

def volume (ps : List Posting) : Int :=
  (ps.map fun p => p.amountMinor.val).sum

def volumeOf (kind : PostingKind) (ps : List Posting) : Int :=
  volume (ps.filter fun p => p.kind = kind)

theorem volume_concat (ps : List Posting) (p : Posting) :
    volume (ps ++ [p]) = volume ps + p.amountMinor.val := by
  unfold volume
  simp

theorem volumeOf_concat (kind : PostingKind) (ps : List Posting) (p : Posting) :
    volumeOf kind (ps ++ [p])
      = volumeOf kind ps + if p.kind = kind then p.amountMinor.val else 0 := by
  unfold volumeOf
  rw [List.filter_append]
  by_cases h : p.kind = kind
  · rw [if_pos h, List.filter_cons_of_pos (by simpa using h), List.filter_nil, volume_concat]
  · rw [if_neg h, List.filter_cons_of_neg (by simpa using h), List.filter_nil,
      List.append_nil, add_zero]

theorem computeBalances_concat (ps : List Posting) (p : Posting) :
    computeBalances (ps ++ [p]) = balanceStep (computeBalances ps) p := by
  unfold computeBalances
  rw [List.foldl_append]
  rfl

theorem balances_spec {ps : List Posting} (hnonneg : ∀ p ∈ ps, 0 ≤ p.amountMinor.val)
    (hvolume : volume ps ≤ 9223372036854775807) :
    Within (volume ps) (computeBalances ps)
      ∧ (computeBalances ps).recognizedMinor.val + (computeBalances ps).deferredMinor.val
        = volumeOf .deferralOpen ps - volumeOf .refund ps := by
  induction ps using List.reverseRecOn with
  | nil => exact ⟨⟨le_refl 0, le_refl 0, le_refl 0, le_refl 0⟩, rfl⟩
  | append_singleton ps p ih =>
    have hp : 0 ≤ p.amountMinor.val :=
      hnonneg p (List.mem_append_right _ (List.mem_singleton_self p))
    rw [volume_concat] at hvolume ⊢
    rcases ih (fun q hq => hnonneg q (List.mem_append_left _ hq))
      (by omega) with ⟨hwithin, hsum⟩
    rw [computeBalances_concat, volumeOf_concat, volumeOf_concat]
    refine ⟨within_balanceStep hwithin hp hvolume, ?_⟩
    have heq := balanceStep_eq hwithin hp hvolume
    unfold exactly at heq
    cases hk : p.kind with
    | deferralOpen =>
      rw [hk, Prod.mk.injEq] at heq
      simp only [if_true, if_false, reduceCtorEq]
      omega
    | recognize =>
      rw [hk, Prod.mk.injEq] at heq
      simp only [if_false, reduceCtorEq]
      omega
    | refund =>
      rw [hk, Prod.mk.injEq] at heq
      simp only [if_true, if_false, reduceCtorEq]
      omega

-- ==== runs

def total (ops : List Op) : Int := (ops.map Op.amount).sum

/-- The amounts are not negative, and their sum stays below 2^63. -/
structure Bounded (ops : List Op) : Prop where
  nonneg : ∀ op ∈ ops, 0 ≤ op.amount
  total_lt : total ops < 9223372036854775808

theorem total_append (ops ops' : List Op) : total (ops ++ ops') = total ops + total ops' := by
  unfold total
  rw [List.map_append, List.sum_append]

variable {ops : List Op} {op : Op}

theorem total_nonneg (h : ∀ op ∈ ops, 0 ≤ op.amount) : 0 ≤ total ops := by
  apply List.sum_nonneg
  intro x hx
  rcases List.mem_map.1 hx with ⟨op, hop, rfl⟩
  exact h op hop

theorem Bounded.left {ops' : List Op} (h : Bounded (ops ++ ops')) : Bounded ops := by
  have hrest : 0 ≤ total ops' :=
    total_nonneg fun op hop => h.nonneg op (List.mem_append_right _ hop)
  have hlt := h.total_lt
  rw [total_append] at hlt
  exact ⟨fun op hop => h.nonneg op (List.mem_append_left _ hop), by omega⟩

theorem total_le_of_sublist {ops' : List Op} (h : ops.Sublist ops')
    (hnonneg : ∀ op ∈ ops', 0 ≤ op.amount) : total ops ≤ total ops' := by
  unfold total
  apply (h.map Op.amount).sum_le_sum
  intro x hx
  rcases List.mem_map.1 hx with ⟨op, hop, rfl⟩
  exact hnonneg op hop

theorem Bounded.postings (h : Bounded ops) (c : ContractId) :
    (∀ p ∈ postings (run step new ops) c, 0 ≤ p.amountMinor.val)
      ∧ volume (InMemoryLedger.postings (run step new ops) c) ≤ total ops := by
  rw [postings_run]
  have hsub : ((accepted new ops).filter fun op => op.contractId = c).Sublist ops :=
    List.filter_sublist.trans (accepted_sublist new ops)
  constructor
  · intro p hp
    rcases List.mem_map.1 hp with ⟨op, hop, rfl⟩
    exact h.nonneg op (hsub.subset hop)
  · unfold volume
    rw [List.map_map]
    exact total_le_of_sublist hsub h.nonneg

theorem moved_accepted_open (ledger : InMemoryLedger) (c : ContractId) (ops : List Op) :
    moved .deferralOpen c (accepted ledger ops) = moved .deferralOpen c ops := by
  induction ops generalizing ledger with
  | nil => rfl
  | cons op ops ih =>
    unfold accepted
    split
    case isTrue =>
      unfold moved at ih ⊢
      rw [List.filter_cons, List.filter_cons]
      split
      · rw [List.map_cons, List.map_cons, List.sum_cons, List.sum_cons, ih]
      · exact ih _
    case isFalse hrefused =>
      rw [ih]
      unfold moved
      rw [List.filter_cons_of_neg]
      intro hcount
      rw [Bool.and_eq_true, decide_eq_true_eq, decide_eq_true_eq] at hcount
      cases op with
      | openDeferral => exact hrefused rfl
      | postRecognition => cases hcount.2
      | postRefund => cases hcount.2

theorem volumeOf_postings (kind : PostingKind) (ops : List Op) (c : ContractId) :
    volumeOf kind (postings (run step new ops) c) = moved kind c (accepted new ops) := by
  rw [postings_run]
  unfold volumeOf volume moved
  rw [List.filter_map, List.map_map, List.filter_filter]
  congr 2
  apply List.filter_congr
  intro op _
  rw [Bool.and_comm]
  rfl

theorem balances_run (h : Bounded ops) (c : ContractId) :
    Within (volume (postings (run step new ops) c)) (balances (run step new ops) c)
      ∧ (balances (run step new ops) c).recognizedMinor.val
          + (balances (run step new ops) c).deferredMinor.val
        = moved .deferralOpen c ops - moved .refund c (accepted new ops) := by
  have hlt := h.total_lt
  rcases h.postings c with ⟨hnonneg, hvolume⟩
  have hspec := balances_spec hnonneg (by omega)
  rw [volumeOf_postings, volumeOf_postings, moved_accepted_open] at hspec
  exact hspec

-- ==== refunds

theorem balances_posted (h : Bounded (ops ++ [op])) (hok : (call (run step new ops) op).1.isOk) :
    let b := balances (run step new ops) op.contractId
    let b' := balances (step (run step new ops) op) op.contractId
    (b'.deferredMinor.val, b'.recognizedMinor.val) = exactly b op.posting := by
  have hlt := h.total_lt
  rw [total_append] at hlt
  have hone : total [op] = op.posting.amountMinor.val := List.sum_singleton
  have hvolume := (h.left.postings op.contractId).2
  have hop : 0 ≤ op.amount :=
    h.nonneg op (List.mem_append_right _ (List.mem_singleton_self op))
  have hposted : balances (step (run step new ops) op) op.contractId
      = balanceStep (balances (run step new ops) op.contractId) op.posting := by
    unfold balances
    rw [postings_step, if_pos ⟨hok, rfl⟩, computeBalances_concat]
  simp only [hposted]
  exact balanceStep_eq (balances_run h.left op.contractId).1 hop (by omega)

theorem unchanged_of_refused {ledger : InMemoryLedger}
    (h : ¬ (call ledger op).1.isOk) (c : ContractId) :
    postings (step ledger op) c = postings ledger c
      ∧ balances (step ledger op) c = balances ledger c := by
  have hpostings : postings (step ledger op) c = postings ledger c := by
    rw [postings_step, if_neg fun hand => h hand.1]
  refine ⟨hpostings, ?_⟩
  unfold balances
  rw [hpostings]

/-- A refund is accepted exactly where it does not exceed what is there. -/
theorem refund_isOk_iff {ledger : InMemoryLedger}
    (hkind : op.posting.kind = .refund) (havail : InI64
      ((balances ledger op.contractId).recognizedMinor.val
        + (balances ledger op.contractId).deferredMinor.val)) :
    (call ledger op).1.isOk
      ↔ op.amount ≤ (balances ledger op.contractId).recognizedMinor.val
          + (balances ledger op.contractId).deferredMinor.val := by
  cases op with
  | openDeferral => cases hkind
  | postRecognition => cases hkind
  | postRefund stamp contractId paymentId amount date memo =>
    have hadd : (balances ledger contractId).recognizedMinor.checkedAdd
        (balances ledger contractId).deferredMinor = some ⟨_, havail⟩ :=
      I64.checkedAdd_eq_some.2 rfl
    show (postRefund ..).1.isOk = true ↔ amount.minorUnits.val ≤ _
    unfold postRefund
    simp only [hadd, Option.getD_some]
    split
    case isTrue hgt =>
      simp only [Except.isOk, Except.toBool, Bool.false_eq_true, false_iff, not_le]
      exact hgt
    case isFalse hle =>
      simp only [Except.isOk, Except.toBool, true_iff]
      exact not_lt.1 hle

/-- What the contract holds fits the width. -/
theorem held_inI64 (h : Bounded ops) (c : ContractId) :
    InI64 ((balances (run step new ops) c).recognizedMinor.val
      + (balances (run step new ops) c).deferredMinor.val) := by
  rcases balances_run h c with ⟨⟨hr, hrv, hd, hdv⟩, hsum⟩
  have hvolume := (h.postings c).2
  have hlt := h.total_lt
  have hopened : moved .deferralOpen c ops ≤ total ops :=
    total_le_of_sublist List.filter_sublist h.nonneg
  have hrefunded : 0 ≤ moved .refund c (accepted new ops) := by
    apply total_nonneg
    intro op hop
    apply h.nonneg op
    exact (accepted_sublist new ops).subset (List.mem_of_mem_filter hop)
  unfold InI64
  omega

/-- What the contract holds is never negative. -/
theorem held_nonneg (h : Bounded ops) (c : ContractId) :
    0 ≤ (balances (run step new ops) c).recognizedMinor.val
        + (balances (run step new ops) c).deferredMinor.val := by
  induction ops using List.reverseRecOn with
  | nil => exact le_refl 0
  | append_singleton ops op ih =>
    have hbefore := ih h.left
    have hop : 0 ≤ op.amount :=
      h.nonneg op (List.mem_append_right _ (List.mem_singleton_self op))
    rw [run_append]
    show 0 ≤ (balances (step (run step new ops) op) c).recognizedMinor.val
      + (balances (step (run step new ops) op) c).deferredMinor.val
    by_cases hok : (call (run step new ops) op).1.isOk
    · by_cases hc : c = op.contractId
      · subst hc
        have hposted := balances_posted h hok
        unfold exactly at hposted
        unfold Op.amount at hop
        cases hk : op.posting.kind with
        | deferralOpen =>
          simp only [hk, Prod.mk.injEq] at hposted
          omega
        | recognize =>
          simp only [hk, Prod.mk.injEq] at hposted
          omega
        | refund =>
          simp only [hk, Prod.mk.injEq] at hposted
          have hrange := held_inI64 h.left op.contractId
          have hle := (refund_isOk_iff hk hrange).1 hok
          unfold Op.amount at hle
          omega
      · -- another contract's call
        have hsame : balances (step (run step new ops) op) c
            = balances (run step new ops) c := by
          unfold balances
          rw [postings_step, if_neg fun hand => hc hand.2]
        rw [hsame]
        exact hbefore
    · rw [(unchanged_of_refused hok c).2]
      exact hbefore

-- ==== the promise

/-- After these calls every contract holds what was opened less what was
refunded, never less than nothing, and what it has recognized is not
negative. -/
def Conserves (ops : List Op) : Prop :=
  ∀ c, let b := balances (run step new ops) c
    b.recognizedMinor.val + b.deferredMinor.val
        = moved .deferralOpen c ops - moved .refund c (accepted new ops)
      ∧ 0 ≤ b.recognizedMinor.val + b.deferredMinor.val
      ∧ 0 ≤ b.recognizedMinor.val

/-- What a refund does to a ledger: it is accepted exactly where it does
not exceed what the contract holds, then it is taken from the recognized
balance first, and refused it changes nothing. -/
structure RefundsRightly (ledger : InMemoryLedger) (op : Op) : Prop where
  accepted_iff : (call ledger op).1.isOk
    ↔ op.amount ≤ (balances ledger op.contractId).recognizedMinor.val
        + (balances ledger op.contractId).deferredMinor.val
  recognized_first : (call ledger op).1.isOk →
    let b := balances ledger op.contractId
    let b' := balances (step ledger op) op.contractId
    let taken := min b.recognizedMinor.val op.amount
    b'.recognizedMinor.val = b.recognizedMinor.val - taken
      ∧ b'.deferredMinor.val = b.deferredMinor.val - (op.amount - taken)
  refused : ¬ (call ledger op).1.isOk →
    ∀ c, postings (step ledger op) c = postings ledger c
      ∧ balances (step ledger op) c = balances ledger c

/-- In every run of calls with amounts that are not negative and add up to
less than 2^63, cash is conserved after every call, and every refund does
what it should. -/
theorem balances_conserve (ops : List Op) (h : Bounded ops) :
    (∀ before after, ops = before ++ after → Conserves before)
      ∧ ∀ before op after, ops = before ++ op :: after →
          op.posting.kind = .refund →
          RefundsRightly (run step new before) op := by
  constructor
  · intro before after heq c
    subst heq
    rcases balances_run h.left c with ⟨hwithin, hsum⟩
    exact ⟨hsum, held_nonneg h.left c, hwithin.recognized_nonneg⟩
  · intro before op after heq hkind
    rw [List.append_cons] at heq
    subst heq
    refine ⟨?_, ?_, fun hrefused c => unchanged_of_refused hrefused c⟩
    · exact refund_isOk_iff hkind (held_inI64 h.left.left op.contractId)
    · intro hok
      have hposted := balances_posted h.left hok
      unfold exactly at hposted
      simp only [hkind, Prod.mk.injEq] at hposted
      exact ⟨hposted.2, hposted.1⟩

/-- A deferral, a recognition and two refunds, the second of them too
large. -/
def fourCalls : List Op :=
  let contractId : ContractId := ⟨⟨1⟩⟩
  let date : NaiveDate := ⟨⟨2026, 1, 31, by decide, by decide, by decide,
    by decide⟩, by decide, by decide⟩
  let usd (n : I64) : Money := .fromMinor n .USD
  let stamp : Stamp := ⟨⟨7⟩, 0⟩
  [.openDeferral stamp contractId none (usd 1000) date "open",
    .postRecognition stamp contractId
      { obligationId := ⟨"saas"⟩, date, amountMinor := ⟨300, by decide⟩
        currency := .USD } "january",
    .postRefund stamp contractId none (usd 400) date "partial",
    .postRefund stamp contractId none (usd 700) date "rest"]

theorem fourCalls_conserved :
    Bounded fourCalls ∧ Conserves fourCalls ∧ accepted new fourCalls = fourCalls.take 3 := by
  have hbounded : Bounded fourCalls := ⟨by decide, by decide⟩
  refine ⟨hbounded, ?_, rfl⟩
  exact (balances_conserve fourCalls hbounded).1 fourCalls [] (List.append_nil _).symm

end InMemoryLedger

end OpenStandards.OpRevrec

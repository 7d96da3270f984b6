/-
The life cycle of a refund over runs of the store.

The transition methods never leave a terminal status and never touch a
refund's body (`Transition.apply_moves`). A submission under an external id
that is already indexed writes nothing, but under none, or under a new one,
it is put in over whatever stands under its id. Terminal statuses are kept,
and a resubmission is answered with the stored refund's id, exactly for as
long as no submission does that to the refund at hand.
-/
import OpenStandards.Lib.Fallible
import OpenStandards.OpRefund.Refund

namespace OpenStandards.OpRefund

open Lib OpCore

-- ==== comparison

theorem bodiesEquivalent_iff {a b : Refund} :
    bodiesEquivalent a b ↔ a.originalTxId = b.originalTxId
      ∧ a.amount = b.amount ∧ a.reason = b.reason
      ∧ a.externalId = b.externalId ∧ a.metadata.Perm b.metadata := by
  unfold bodiesEquivalent
  constructor
  · intro h
    split at h
    · cases h
    · rename_i hsame
      split at h
      · cases h
      · simp only [not_or, ne_eq, Decidable.not_not] at hsame
        rw [List.isPerm_iff] at h
        exact ⟨hsame.1, hsame.2.1, hsame.2.2.1, hsame.2.2.2, h⟩
  · rintro ⟨htx, hamount, hreason, hext, hmeta⟩
    rw [if_neg (by simp [htx, hamount, hreason, hext]),
      if_neg (by simp [hmeta.length_eq]), List.isPerm_iff]
    exact hmeta

theorem refundScheme_lawful : refundScheme.Lawful where
  refl _ := bodiesEquivalent_iff.2 ⟨rfl, rfl, rfl, rfl, .refl _⟩
  symm h := by
    obtain ⟨htx, hamount, hreason, hext, hmeta⟩ := bodiesEquivalent_iff.1 h
    exact bodiesEquivalent_iff.2
      ⟨htx.symm, hamount.symm, hreason.symm, hext.symm, hmeta.symm⟩
  trans h h' := by
    obtain ⟨htx, hamount, hreason, hext, hmeta⟩ := bodiesEquivalent_iff.1 h
    obtain ⟨htx', hamount', hreason', hext', hmeta'⟩ :=
      bodiesEquivalent_iff.1 h'
    exact bodiesEquivalent_iff.2
      ⟨htx.trans htx', hamount.trans hamount', hreason.trans hreason',
        hext.trans hext', hmeta.trans hmeta'⟩
  token_eq h := (bodiesEquivalent_iff.1 h).2.2.2.1

-- ==== transitions

/-- A refund moved on by its own methods: only the status differs, and
not even that where it was terminal. -/
def MovesOn (r r' : Refund) : Prop :=
  r' = { r with status := r'.status } ∧ (r.status.isTerminal → r'.status = r.status)

theorem MovesOn.refl (r : Refund) : MovesOn r r := ⟨rfl, fun _ => rfl⟩

variable {r r' : Refund}

theorem MovesOn.trans {r'' : Refund} (h : MovesOn r r') (h' : MovesOn r' r'') :
    MovesOn r r'' := by
  obtain ⟨hr, hterm⟩ := h
  obtain ⟨hr', hterm'⟩ := h'
  refine ⟨?_, fun ht => ?_⟩
  · rw [hr', hr]
  · have hs := hterm ht
    have hs' := hterm' (by rw [hs]; exact ht)
    exact hs'.trans hs

theorem movesOn_status {status : Status} (h : r.status.isTerminal = false) :
    MovesOn r { r with status } :=
  ⟨rfl, fun ht => by simp [h] at ht⟩

theorem Transition.apply_moves {t : Transition} (h : t.apply r = .ok r') : MovesOn r r' := by
  cases t with
  | submit psp =>
    simp only [Transition.apply, Refund.submit] at h
    split at h
    · rename_i hs
      cases h
      exact movesOn_status (by rw [hs]; rfl)
    · cases h
  | approve =>
    simp only [Transition.apply, Refund.approve] at h
    split at h
    · rename_i hs
      cases h
      exact movesOn_status (by rw [hs]; rfl)
    · cases h
  | settle settledAt =>
    simp only [Transition.apply, Refund.settle] at h
    split at h
    · rename_i hs
      cases h
      exact movesOn_status (by rw [hs]; rfl)
    · rename_i hs
      cases h
      exact movesOn_status (by rw [hs]; rfl)
    · cases h
  | decline code message =>
    simp only [Transition.apply, Refund.decline] at h
    split at h
    · cases h
    · rename_i hs
      cases h
      exact movesOn_status (by simpa using hs)
  | failAfterApproval code message =>
    simp only [Transition.apply, Refund.failAfterApproval] at h
    split at h
    · rename_i hs
      cases h
      exact movesOn_status (by rw [hs]; rfl)
    · cases h

theorem movesOn_of_foldlM {ts : List Transition}
    (h : ts.foldlM (fun r t => Transition.apply t r) r = .ok r') :
    MovesOn r r' :=
  foldlM_ok (P := fun _ staged => MovesOn r staged) (MovesOn.refl r)
    (fun _ _ _ _ hmoved happly => hmoved.trans (Transition.apply_moves happly))
    h

theorem MovesOn.same (h : MovesOn r r') : refundScheme.same r' r := by
  refine bodiesEquivalent_iff.2 ?_
  rw [h.1]
  exact ⟨rfl, rfl, rfl, rfl, .refl _⟩

-- ==== what one call can do

theorem call_effect (s : InMemoryRefundStore) (c : Call) :
    refundScheme.Effect MovesOn s c.submits (s.call c) := by
  cases c with
  | createRefund refund => exact Scheme.effect_submit s refund
  | update id ts =>
    have hidle : refundScheme.Effect MovesOn s none s :=
      .idle fun refund h => by cases h
    unfold InMemoryRefundStore.call InMemoryRefundStore.update
    simp only
    cases hlive : s.rows.lookup id with
    | none => exact hidle
    | some live =>
      simp only
      cases hstaged : ts.foldlM (fun r t => t.apply r) live with
      | error e => exact hidle
      | ok staged =>
        exact .replace id live staged rfl hlive (movesOn_of_foldlM hstaged)

-- ==== terminal statuses

def KeepsTerminal (s s' : InMemoryRefundStore) : Prop :=
  ∀ id r, s.rows.lookup id = some r → r.status.isTerminal →
    ∃ r', s'.rows.lookup id = some r' ∧ r'.status = r.status

theorem KeepsTerminal.refl (s : InMemoryRefundStore) : KeepsTerminal s s :=
  fun _ r hr _ => ⟨r, hr, rfl⟩

theorem KeepsTerminal.trans {s t u : InMemoryRefundStore}
    (h : KeepsTerminal s t) (h' : KeepsTerminal t u) : KeepsTerminal s u := by
  intro id r hr hterm
  obtain ⟨r', hr', hs'⟩ := h id r hr hterm
  obtain ⟨r'', hr'', hs''⟩ := h' id r' hr' (by rw [hs']; exact hterm)
  exact ⟨r'', hr'', hs''.trans hs'⟩

/-- The call does not put a refund in over a terminal one of another
status. -/
def SparesTerminal (s : InMemoryRefundStore) (c : Call) : Prop :=
  ∀ refund, c.submits = some refund → refundScheme.knows s refund = false →
    ∀ stored, s.rows.lookup refund.id = some stored →
      stored.status.isTerminal → refund.status = stored.status

theorem keepsTerminal_call_iff (s : InMemoryRefundStore) (c : Call) :
    KeepsTerminal s (s.call c) ↔ SparesTerminal s c := by
  have heffect := call_effect s c
  generalize s.call c = s' at heffect
  unfold SparesTerminal
  cases heffect with
  | idle hsub =>
    refine iff_of_true (KeepsTerminal.refl s) fun refund hrefund hnew => ?_
    simp [hsub refund hrefund] at hnew
  | replace id live staged hsub hlive hmoves =>
    refine iff_of_true (fun id' r hr hterm => ?_) (by simp [hsub])
    rw [Keyed.rows_replace]
    by_cases hid : id' = id
    · rw [if_pos hid]
      rw [hid, hlive] at hr
      cases hr
      exact ⟨staged, rfl, hmoves.2 hterm⟩
    · rw [if_neg hid]
      exact ⟨r, hr, rfl⟩
  | put refund hsub hnew =>
    constructor
    · intro h refund' hrefund' _ stored hstored hterm
      rw [hsub] at hrefund'
      cases hrefund'
      obtain ⟨r', hr', hs'⟩ := h refund.id stored hstored hterm
      rw [Scheme.rows_put] at hr'
      simp only [refundScheme, if_true, Option.some.injEq] at hr'
      rw [hr']
      exact hs'
    · intro h id r hr hterm
      rw [Scheme.rows_put]
      by_cases hid : id = refundScheme.key refund
      · rw [if_pos hid]
        subst hid
        exact ⟨refund, rfl, h refund hsub hnew r hr hterm⟩
      · rw [if_neg hid]
        exact ⟨r, hr, rfl⟩

-- ==== results

def SparesId (id : RefundId) (s : InMemoryRefundStore) (c : Call) : Prop :=
  refundScheme.Spares id s c.submits

def storeAfter (calls : List Call) : InMemoryRefundStore :=
  run InMemoryRefundStore.call InMemoryRefundStore.new calls

/-- **When the life cycle is monotone.** In every run of the store,
terminal refunds keep their status from every state to every later one if
and only if no submission was put in over a terminal refund of another
status. And after the first submission of a refund under an external id,
submitting it again answers its id, submitting another body under the
external id answers a mismatch, and neither changes the store, if and
only if no submission since was put in under its id. -/
theorem refund_lifecycle (calls : List Call) :
    ((∀ before between after, calls = before ++ between ++ after →
        KeepsTerminal (storeAfter before) (storeAfter (before ++ between)))
      ↔ Along InMemoryRefundStore.call SparesTerminal (storeAfter []) calls)
    ∧ ∀ before refund later ext,
        calls = before ++ .createRefund refund :: later →
        refund.externalId = some ext →
        (storeAfter before).index.lookup ext = none →
        (refundScheme.Resubmits refund ext (storeAfter calls)
          ↔ Along InMemoryRefundStore.call (SparesId refund.id)
            (storeAfter (before ++ [.createRefund refund])) later) := by
  constructor
  · refine (forall_split_iff_along KeepsTerminal.refl KeepsTerminal.trans).trans ?_
    simp only [keepsTerminal_call_iff]
    rfl
  · intro before refund later ext hcalls hext hnew
    have hfirst : storeAfter (before ++ [.createRefund refund])
        = refundScheme.put (storeAfter before) refund := by
      unfold storeAfter
      rw [run_append]
      exact refundScheme.submit_first hext hnew
    have hall : storeAfter calls = run InMemoryRefundStore.call
        (storeAfter (before ++ [.createRefund refund])) later := by
      unfold storeAfter
      rw [← run_append, hcalls, List.append_assoc]
      rfl
    rw [hall, hfirst]
    exact Scheme.resubmits_run_iff refundScheme_lawful
      (fun _ _ h => h.same) call_effect hext later

def fiveDollars : Refund :=
  { id := ⟨⟨1⟩⟩, originalTxId := ⟨⟨2⟩⟩, externalId := none
    amount := Money.fromMinor 500 .USD
    reason := .customerRequest, status := .requested, requestedAt := 1000
    metadata := [] }

/-- Submitting a clone of a declined refund asks for it again. -/
theorem clone_reopens_declined :
    ¬ KeepsTerminal
      (storeAfter [.createRefund fiveDollars,
        .update ⟨⟨1⟩⟩ [.decline "do_not_honor" "refused"]])
      (storeAfter [.createRefund fiveDollars,
        .update ⟨⟨1⟩⟩ [.decline "do_not_honor" "refused"],
        .createRefund fiveDollars]) := by
  intro h
  obtain ⟨r', hr', hs⟩ := h ⟨⟨1⟩⟩
    { fiveDollars with status := .declined "do_not_honor" "refused" } rfl rfl
  have hr : some fiveDollars = some r' := hr'
  cases hr
  cases hs

end OpenStandards.OpRefund

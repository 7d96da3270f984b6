/-
A token resolves as its policy says.

What a token is worth is said by the history alone: it was issued for a card,
it was not deleted since, and what was resolved since (`Live`, `Resolved`).
The store keeps just this of each token (`Tracks`); what a call does to the
entry of its token is what it adds to the history, and the entries of the
others stay (`Tracks.frame`).
-/
import OpenStandards.Lib.Run
import OpenStandards.OpVault.Vault

namespace OpenStandards.OpVault

open Lib

-- ==== one call

/-- The cipher and the serialiser undo what they did. -/
structure Backend.Inverts (b : Backend) : Prop where
  decrypt_encrypt : ∀ nonce plaintext ciphertext,
    b.encrypt nonce plaintext = some ciphertext →
    b.decrypt nonce ciphertext = some plaintext
  fromSlice_toVec : ∀ stored bytes, b.toVec stored = .ok bytes → b.fromSlice bytes = .ok stored

/-- The second validation of a card succeeds. -/
theorem CardData.new_self (card : CardData) :
    CardData.new card.pan card.expMonth card.expYear = .ok card := by
  unfold CardData.new
  split
  · next e h =>
      rw [card.pan_ok] at h
      cases h
  · split
    · next e h =>
        rw [card.expiration_ok] at h
        cases h
    · rfl

theorem wellFormed_mintToken (uuid : Text) : WellFormed (mintToken uuid) :=
  List.prefix_append ..

/-- An entry opens to a card. -/
def Sealed (b : Backend) (m : Metadata) (card : CardData) : Prop :=
  ∃ plaintext, b.decrypt m.nonce m.ciphertext = some plaintext
    ∧ b.fromSlice plaintext
      = .ok { pan := card.pan, expMonth := card.expMonth
              expYear := card.expYear }

variable {now : Timestamp} {b : Backend} {store store' : Store}
    {card : CardData} {policy : TokenizationPolicy} {other : VaultRef}

/-- Clock readings are far from the ends of their range, so that the age is
the difference. -/
theorem expired_eq_false_iff {m : Metadata} :
    expired m now = false ↔ ∀ ttl, m.policy.ttlSeconds = some ttl →
      now.seconds.val - m.issuedAt.seconds.val < ttl.toNat := by
  have hage : (now.seconds.saturatingSub m.issuedAt.seconds).val
      = now.seconds.val - m.issuedAt.seconds.val := by
    apply I64.val_saturatingSub
    have h₁ := now.lower
    have h₂ := now.upper
    have h₃ := m.issuedAt.lower
    have h₄ := m.issuedAt.upper
    unfold InI64
    omega
  unfold expired
  cases m.policy.ttlSeconds with
  | none => exact ⟨fun _ ttl h => (by cases h), fun _ => rfl⟩
  | some ttl =>
    rw [hage]
    simp only [Bool.and_eq_false_iff, decide_eq_false_iff_not, not_le, Option.some.injEq]
    refine ⟨fun h ttl' heq => ?_, fun h => ?_⟩
    · subst heq
      omega
    · exact Or.inr (h ttl rfl)

/-- What a detokenization does with an entry that opens. -/
theorem detokenize_sealed {token : VaultRef} {m : Metadata}
    (hwf : WellFormed token) (hm : store.lookup token.id = some m)
    (hcard : Sealed b m card) (now : Timestamp) :
    detokenize b store token now
      = if expired m now then (.error .expired, store)
        else if m.policy.lifetime = .singleUse ∧ m.consumed = true then
          (.error .alreadyConsumed, store)
        else (.ok card, store.insert token.id (consume m)) := by
  obtain ⟨plaintext, hopen, hread⟩ := hcard
  unfold detokenize
  rw [if_neg (not_not_intro hwf), hm]
  simp only [hopen, hread, CardData.new_self]

/-- Without an entry it fails. -/
theorem detokenize_none {token : VaultRef} (hm : store.lookup token.id = none) (now : Timestamp) :
    ∃ e, detokenize b store token now = (.error e, store) := by
  unfold detokenize
  by_cases hwf : WellFormed token
  · rw [if_neg (not_not_intro hwf), hm]
    exact ⟨_, rfl⟩
  · rw [if_pos hwf]
    exact ⟨_, rfl⟩

theorem tokenize_ok (hb : b.Inverts) {nonce : Nonce} {uuid : Text} {token : VaultRef}
    (h : tokenize b store card policy nonce uuid now = (.ok token, store')) :
    token = mintToken uuid ∧ ∃ m : Metadata, m.policy = policy
      ∧ m.issuedAt = now ∧ m.consumed = false ∧ Sealed b m card
      ∧ store' = store.insert token.id m := by
  unfold tokenize at h
  rw [(Text.fromUtf8?_eq_some_iff).2 rfl] at h
  simp only at h
  cases hvec : b.toVec ⟨card.pan, card.expMonth, card.expYear⟩ with
  | error e =>
    rw [hvec] at h
    cases h
  | ok plaintext =>
    rw [hvec] at h
    simp only at h
    cases henc : b.encrypt nonce plaintext with
    | none =>
      rw [henc] at h
      cases h
    | some ciphertext =>
      rw [henc] at h
      cases h
      exact ⟨rfl, _, rfl, rfl, rfl,
        ⟨plaintext, hb.decrypt_encrypt _ _ _ henc, hb.fromSlice_toVec _ _ hvec⟩, rfl⟩

theorem tokenize_error {nonce : Nonce} {uuid : Text} {e : Error}
    (h : tokenize b store card policy nonce uuid now = (.error e, store')) :
    store' = store := by
  unfold tokenize at h
  split at h
  · cases h
    rfl
  · simp only at h
    split at h
    · cases h
      rfl
    · split at h
      · cases h
        rfl
      · cases h

-- ==== history

abbrev Event := Call × Answer

def Live (hist : List Event) (token : VaultRef) (card : CardData)
    (policy : TokenizationPolicy) (issuedAt : Timestamp) (after : List Event) : Prop :=
  (∃ before nonce uuid, hist = before
      ++ (.tokenize card policy nonce uuid issuedAt, .token (.ok token)) :: after)
    ∧ ∀ e ∈ after, e.1 ≠ .delete token

def Resolved (token : VaultRef) (after : List Event) : Prop :=
  ∃ now card, (.detokenize token now, .card (.ok card)) ∈ after

/-- The event says nothing about the token. -/
structure Silent (token : VaultRef) (e : Event) : Prop where
  issued : e.2 ≠ .token (.ok token)
  resolved : ∀ now card, e ≠ (.detokenize token now, .card (.ok card))
  deleted : e.1 ≠ .delete token

theorem live_snoc_iff {hist : List Event} {e : Event} {token : VaultRef}
    {issuedAt : Timestamp} {after : List Event} :
    Live (hist ++ [e]) token card policy issuedAt after
      ↔ (after = [] ∧ ∃ nonce uuid, e
          = (.tokenize card policy nonce uuid issuedAt, .token (.ok token)))
        ∨ ∃ rest, after = rest ++ [e] ∧ e.1 ≠ .delete token
          ∧ Live hist token card policy issuedAt rest := by
  refine ⟨fun h => ?_, fun h => ?_⟩
  · obtain ⟨⟨before, nonce, uuid, heq⟩, hkept⟩ := h
    rcases snoc_eq_split heq with ⟨-, hlast, hnil⟩ | ⟨rest, hhist, hrest⟩
    · exact Or.inl ⟨hnil, nonce, uuid, hlast⟩
    · subst hrest
      exact Or.inr ⟨rest, rfl,
        hkept e (List.mem_append_right _ (List.mem_singleton_self e)),
        ⟨before, nonce, uuid, hhist⟩,
        fun e' he' => hkept e' (List.mem_append_left _ he')⟩
  · rcases h with ⟨rfl, nonce, uuid, rfl⟩ | ⟨rest, rfl, hne, hlive⟩
    · exact ⟨⟨hist, nonce, uuid, rfl⟩,
        fun e' he' => absurd he' List.not_mem_nil⟩
    · obtain ⟨⟨before, nonce, uuid, rfl⟩, hkept⟩ := hlive
      refine ⟨⟨before, nonce, uuid, by
        rw [List.append_assoc, List.cons_append]⟩, fun e' he' => ?_⟩
      rcases List.mem_append.1 he' with he' | he'
      · exact hkept e' he'
      · rw [List.mem_singleton.1 he']
        exact hne

theorem resolved_snoc_iff {token : VaultRef} {after : List Event} {e : Event} :
    Resolved token (after ++ [e]) ↔ Resolved token after
      ∨ ∃ now card, e = (.detokenize token now, .card (.ok card)) := by
  unfold Resolved
  refine ⟨fun h => ?_, fun h => ?_⟩
  · obtain ⟨now, card, hmem⟩ := h
    rcases List.mem_append.1 hmem with hmem | hmem
    · exact Or.inl ⟨now, card, hmem⟩
    · exact Or.inr ⟨now, card, (List.mem_singleton.1 hmem).symm⟩
  · rcases h with ⟨now, card, hmem⟩ | ⟨now, card, rfl⟩
    · exact ⟨now, card, List.mem_append_left _ hmem⟩
    · exact ⟨now, card, List.mem_append_right _ (List.mem_singleton_self _)⟩

-- ==== what is kept

/-- The entry of a live token: it opens to the card, and a single-use token
is marked if it was resolved. -/
structure Keeps (b : Backend) (token : VaultRef) (card : CardData)
    (policy : TokenizationPolicy) (issuedAt : Timestamp)
    (after : List Event) (m : Metadata) : Prop where
  policy_eq : m.policy = policy
  issuedAt_eq : m.issuedAt = issuedAt
  opens : Sealed b m card
  marked : policy.lifetime = .singleUse → (m.consumed = true ↔ Resolved token after)

/-- The entry of a token is what its history says. -/
structure Tracks (b : Backend) (hist : List Event) (token : VaultRef)
    (entry : Option Metadata) : Prop where
  wellFormed : entry ≠ none → WellFormed token
  sound : ∀ m, entry = some m → ∃ card after,
    Live hist token card m.policy m.issuedAt after
      ∧ Keeps b token card m.policy m.issuedAt after m
  complete : ∀ card policy issuedAt after,
    Live hist token card policy issuedAt after →
      ∃ m, entry = some m ∧ Keeps b token card policy issuedAt after m

section Steps

variable {b : Backend} {hist : List Event} {token : VaultRef}
  {entry : Option Metadata} {e : Event}

/-- An event that says nothing about the token leaves its entry. -/
theorem Tracks.frame (h : Tracks b hist token entry) (he : Silent token e) :
    Tracks b (hist ++ [e]) token entry := by
  have hkeeps : ∀ {card policy issuedAt after m},
      Keeps b token card policy issuedAt after m →
      Keeps b token card policy issuedAt (after ++ [e]) m := by
    intro card policy issuedAt after m hk
    refine ⟨hk.policy_eq, hk.issuedAt_eq, hk.opens, fun hsingle => ?_⟩
    rw [hk.marked hsingle, resolved_snoc_iff]
    refine (or_iff_left fun hres => ?_).symm
    obtain ⟨now, c, heq⟩ := hres
    exact he.resolved now c heq
  refine ⟨h.wellFormed, fun m hm => ?_, fun card policy issuedAt after hl => ?_⟩
  · obtain ⟨card, after, hlive, hk⟩ := h.sound m hm
    exact ⟨card, after ++ [e], live_snoc_iff.2
      (Or.inr ⟨after, rfl, he.deleted, hlive⟩), hkeeps hk⟩
  · rcases live_snoc_iff.1 hl with ⟨-, nonce, uuid, rfl⟩ | ⟨rest, rfl, -, hl⟩
    · exact absurd rfl he.issued
    · obtain ⟨m, hm, hk⟩ := h.complete _ _ _ _ hl
      exact ⟨m, hm, hkeeps hk⟩

theorem Tracks.issue (hfresh : ∀ e ∈ hist, e.2 ≠ .token (.ok token))
    (hwf : WellFormed token) {card : CardData} {m : Metadata}
    {nonce : Nonce} {uuid : Text} (hopens : Sealed b m card) (hunused : m.consumed = false) :
    Tracks b (hist ++ [(.tokenize card m.policy nonce uuid m.issuedAt,
      .token (.ok token))]) token (some m) := by
  have hnone : ¬ Resolved token [] := by
    intro hres
    obtain ⟨now, c, hmem⟩ := hres
    cases hmem
  have hkeeps : Keeps b token card m.policy m.issuedAt [] m := by
    refine ⟨rfl, rfl, hopens, fun _ => ?_⟩
    rw [hunused]
    exact ⟨fun h => (by cases h), fun h => absurd h hnone⟩
  refine ⟨fun _ => hwf, fun m' hm' => ?_,
    fun card' policy issuedAt after hl => ?_⟩
  · cases hm'
    exact ⟨card, [], live_snoc_iff.2 (Or.inl ⟨rfl, nonce, uuid, rfl⟩), hkeeps⟩
  · rcases live_snoc_iff.1 hl with ⟨rfl, nonce', uuid', heq⟩
      | ⟨rest, -, -, hl⟩
    · cases heq
      exact ⟨m, rfl, hkeeps⟩
    · -- an earlier issue of the same token
      obtain ⟨⟨before, nonce', uuid', rfl⟩, -⟩ := hl
      exact absurd rfl (hfresh _ (List.mem_append_right _ List.mem_cons_self))

theorem Tracks.resolve {m : Metadata} (h : Tracks b hist token (some m))
    (now : Timestamp) (c : CardData) :
    Tracks b (hist ++ [(.detokenize token now, .card (.ok c))]) token (some (consume m)) := by
  have hpolicy : (consume m).policy = m.policy := by
    unfold consume
    split <;> rfl
  have hissued : (consume m).issuedAt = m.issuedAt := by
    unfold consume
    split <;> rfl
  have hkeeps : ∀ {card policy issuedAt after},
      Keeps b token card policy issuedAt after m →
      Keeps b token card policy issuedAt
        (after ++ [(.detokenize token now, .card (.ok c))]) (consume m) := by
    intro card policy issuedAt after hk
    refine ⟨hpolicy.trans hk.policy_eq, hissued.trans hk.issuedAt_eq, ?_,
      fun hsingle => ?_⟩
    · unfold consume
      split <;> exact hk.opens
    · have hres : Resolved token (after ++ [(.detokenize token now, .card (.ok c))]) :=
        resolved_snoc_iff.2 (Or.inr ⟨now, c, rfl⟩)
      unfold consume
      rw [if_pos (by rw [hk.policy_eq]; exact hsingle)]
      exact ⟨fun _ => hres, fun _ => rfl⟩
  have hne : ((.detokenize token now, .card (.ok c)) : Event).1
      ≠ .delete token := fun heq => by cases heq
  refine ⟨fun _ => h.wellFormed (Option.some_ne_none m), fun m' hm' => ?_,
    fun card policy issuedAt after hl => ?_⟩
  · cases hm'
    rw [hpolicy, hissued]
    obtain ⟨card, after, hlive, hk⟩ := h.sound m rfl
    exact ⟨card, _, live_snoc_iff.2 (Or.inr ⟨after, rfl, hne, hlive⟩), hkeeps hk⟩
  · rcases live_snoc_iff.1 hl with ⟨-, nonce, uuid, heq⟩ | ⟨rest, rfl, -, hl⟩
    · cases heq
    · obtain ⟨m', hm', hk⟩ := h.complete _ _ _ _ hl
      cases hm'
      exact ⟨_, rfl, hkeeps hk⟩

theorem Tracks.drop (a : Answer) : Tracks b (hist ++ [(.delete token, a)]) token none := by
  refine ⟨fun h => absurd rfl h, fun m hm => (by cases hm),
    fun card policy issuedAt after hl => ?_⟩
  rcases live_snoc_iff.1 hl with ⟨-, nonce, uuid, heq⟩ | ⟨-, -, hne, -⟩
  · cases heq
  · exact absurd rfl hne

end Steps

-- ==== frames

def Call.token : Call → VaultRef
  | .tokenize _ _ _ uuid _ => mintToken uuid
  | .detokenize token _ => token
  | .tokenExists token => token
  | .delete token => token

theorem VaultRef.id_ne {token : VaultRef} (h : token ≠ other) : other.id ≠ token.id := by
  intro heq
  cases token
  cases other
  exact h (congrArg VaultRef.mk heq.symm)

theorem lookup_detokenize_of_ne (b : Backend) (store : Store)
    {token : VaultRef} (h : token ≠ other) (now : Timestamp) :
    (detokenize b store token now).2.lookup other.id = store.lookup other.id := by
  unfold detokenize
  split
  · rfl
  · split
    · rfl
    · split
      · rfl
      · split
        · rfl
        · split
          · rfl
          · split
            · rfl
            · exact AList.lookup_insert_ne (VaultRef.id_ne h)

theorem lookup_run_of_ne (b : Backend) (store : Store) {c : Call} (h : c.token ≠ other) :
    (c.run b store).2.lookup other.id = store.lookup other.id := by
  cases c with
  | tokenize card policy nonce uuid now =>
    show (tokenize b store card policy nonce uuid now).2.lookup other.id = _
    cases hres : tokenize b store card policy nonce uuid now with
    | mk result store' =>
      unfold tokenize at hres
      simp only at hres
      split at hres
      · cases hres
        rfl
      · split at hres
        · cases hres
          rfl
        · split at hres
          · cases hres
            rfl
          · cases hres
            exact AList.lookup_insert_ne (VaultRef.id_ne h)
  | detokenize token now => exact lookup_detokenize_of_ne b store h now
  | tokenExists token => rfl
  | delete token =>
    show (delete store token).2.lookup other.id = _
    unfold delete
    split
    · rfl
    · exact AList.lookup_erase_ne (VaultRef.id_ne h)

theorem answers_congr (b : Backend) {token : VaultRef}
    (h : store.lookup token.id = store'.lookup token.id) (now : Timestamp) :
    (detokenize b store token now).1 = (detokenize b store' token now).1
      ∧ tokenExists store token = tokenExists store' token
      ∧ (delete store token).1 = (delete store' token).1 := by
  refine ⟨?_, ?_, ?_⟩
  · unfold detokenize
    rw [h]
    split
    · rfl
    · split
      · rfl
      · split
        · rfl
        · split
          · rfl
          · split
            · rfl
            · split
              · rfl
              · rfl
  · unfold tokenExists
    rw [h]
  · unfold delete
    rw [h]
    split <;> rfl

-- ==== runs

/-- The identifier a call mints was not issued before. -/
def Fresh (hist : List Event) : Call → Prop
  | .tokenize _ _ _ uuid _ =>
    ∀ e ∈ hist, e.2 ≠ .token (.ok (mintToken uuid))
  | _ => True

/-- The history and the store of a vault. -/
inductive Run (b : Backend) : List Event → Store → Prop
  | start : Run b [] ∅
  | call {hist store} (c : Call) : Run b hist store → Fresh hist c →
      Run b (hist ++ [(c, (c.run b store).1)]) (c.run b store).2

/-- A call says nothing about the tokens it does not concern. -/
theorem silent_of_ne (b : Backend) (hb : b.Inverts) (store : Store) {c : Call}
    (h : c.token ≠ other) : Silent other (c, (c.run b store).1) := by
  refine ⟨fun heq => ?_, fun now card heq => ?_, fun heq => ?_⟩
  · cases c with
    | tokenize card policy nonce uuid now =>
      change Answer.token (tokenize b store card policy nonce uuid now).1 = _ at heq
      cases hres : tokenize b store card policy nonce uuid now with
      | mk result store' =>
        rw [hres] at heq
        cases heq
        exact h (tokenize_ok hb hres).1.symm
    | detokenize token now => cases heq
    | tokenExists token => cases heq
    | delete token => cases heq
  · have hcall := congrArg Prod.fst heq
    change c = Call.detokenize other now at hcall
    rw [hcall] at h
    exact h rfl
  · change c = Call.delete other at heq
    rw [heq] at h
    exact h rfl

theorem tracks_start (b : Backend) (token : VaultRef) : Tracks b [] token none := by
  refine ⟨fun h => absurd rfl h, fun m hm => (by cases hm),
    fun card policy issuedAt after hl => ?_⟩
  obtain ⟨⟨before, nonce, uuid, heq⟩, -⟩ := hl
  cases before with
  | nil => cases heq
  | cons e before => cases heq

theorem tracks_call (hb : b.Inverts) {hist : List Event} (c : Call) (hfresh : Fresh hist c)
    (h : ∀ token, Tracks b hist token (store.lookup token.id)) (token : VaultRef) :
    Tracks b (hist ++ [(c, (c.run b store).1)]) token ((c.run b store).2.lookup token.id) := by
  by_cases hne : c.token ≠ token
  · rw [lookup_run_of_ne b store hne]
    exact (h token).frame (silent_of_ne b hb store hne)
  rw [not_not] at hne
  cases c with
  | tokenize card policy nonce uuid now =>
    change mintToken uuid = token at hne
    subst hne
    show Tracks b (hist ++ [(_, .token (tokenize b store card policy nonce
      uuid now).1)]) _ ((tokenize b store card policy nonce uuid now).2.lookup _)
    cases hres : tokenize b store card policy nonce uuid now with
    | mk result store' =>
      cases result with
      | error e =>
        rw [tokenize_error hres]
        refine (h _).frame ⟨fun heq => ?_, fun _ _ heq => ?_,
          fun heq => ?_⟩
        · cases heq
        · cases heq
        · cases heq
      | ok token =>
        obtain ⟨rfl, m, rfl, rfl, hunused, hopens, rfl⟩ :=
          tokenize_ok hb hres
        rw [AList.lookup_insert]
        exact .issue hfresh (wellFormed_mintToken uuid) hopens hunused
  | detokenize token' now =>
    change token' = token at hne
    subst hne
    show Tracks b (hist ++ [(_, .card (detokenize b store token' now).1)])
      _ ((detokenize b store token' now).2.lookup _)
    have hsame : ∀ e, Silent token' ((.detokenize token' now, .card (.error e)) : Event) := by
      intro e
      refine ⟨fun heq => ?_, fun _ _ heq => ?_, fun heq => ?_⟩
      · cases heq
      · cases heq
      · cases heq
    cases hm : store.lookup token'.id with
    | none =>
      obtain ⟨e, he⟩ := detokenize_none (b := b) hm now
      rw [he]
      exact (h token').frame (hsame e)
    | some m =>
      have htracks := h token'
      rw [hm] at htracks
      obtain ⟨card, after, -, hk⟩ := htracks.sound m rfl
      rw [detokenize_sealed (htracks.wellFormed (Option.some_ne_none m)) hm hk.opens now]
      split
      · exact (h token').frame (hsame _)
      · split
        · exact (h token').frame (hsame _)
        · rw [AList.lookup_insert]
          exact htracks.resolve now card
  | tokenExists token' =>
    refine (h token).frame ⟨fun heq => ?_, fun _ _ heq => ?_,
      fun heq => ?_⟩
    · cases heq
    · cases heq
    · cases heq
  | delete token' =>
    change token' = token at hne
    subst hne
    have hnone : (delete store token').2.lookup token'.id = none := by
      unfold delete
      by_cases hwf : WellFormed token'
      · rw [if_neg (not_not_intro hwf)]
        exact AList.lookup_erase token'.id store
      · rw [if_pos hwf]
        by_contra hsome
        exact hwf ((h token').wellFormed hsome)
    show Tracks b _ token' ((delete store token').2.lookup token'.id)
    rw [hnone]
    exact .drop _

theorem Run.tracks (hb : b.Inverts) {hist : List Event} (h : Run b hist store)
    (token : VaultRef) : Tracks b hist token (store.lookup token.id) := by
  induction h generalizing token with
  | start => exact tracks_start b token
  | call c _ hfresh ih => exact tracks_call hb c hfresh ih token

-- ==== resolution

/-- The token was issued, not deleted since, its age is below its time to
live, and if it is for a single use it was not resolved. -/
def Resolvable (hist : List Event) (token : VaultRef) (now : Timestamp) : Prop :=
  ∃ card policy issuedAt after, Live hist token card policy issuedAt after
    ∧ (∀ ttl, policy.ttlSeconds = some ttl → now.seconds.val - issuedAt.seconds.val < ttl.toNat)
    ∧ (policy.lifetime = .singleUse → ¬ Resolved token after)

theorem Run.detokenize_live (hb : b.Inverts) {hist : List Event}
    (h : Run b hist store) {token : VaultRef} {issuedAt : Timestamp}
    {after : List Event} (hl : Live hist token card policy issuedAt after) (now : Timestamp) :
    ∃ m, Keeps b token card policy issuedAt after m
      ∧ detokenize b store token now
        = if expired m now then (.error .expired, store)
          else if m.policy.lifetime = .singleUse ∧ m.consumed = true then
            (.error .alreadyConsumed, store)
          else (.ok card, store.insert token.id (consume m)) := by
  have htracks := h.tracks hb token
  obtain ⟨m, hm, hk⟩ := htracks.complete _ _ _ _ hl
  exact ⟨m, hk, detokenize_sealed
    (htracks.wellFormed (by rw [hm]; exact Option.some_ne_none m))
    hm hk.opens now⟩

theorem Run.live_or_none (hb : b.Inverts) {hist : List Event}
    (h : Run b hist store) (token : VaultRef) :
    store.lookup token.id = none ∨ ∃ card policy issuedAt after,
      Live hist token card policy issuedAt after := by
  cases hm : store.lookup token.id with
  | none => exact Or.inl rfl
  | some m =>
    obtain ⟨card, after, hlive, -⟩ := (h.tracks hb token).sound m hm
    exact Or.inr ⟨card, m.policy, m.issuedAt, after, hlive⟩

/-- A detokenization succeeds exactly as the policy of the token says, and
then with the card that was tokenized; one that fails changes nothing; and a
call leaves what other tokens answer. -/
theorem resolves_iff {b : Backend} (hb : b.Inverts) {hist : List Event}
    {store : Store} (h : Run b hist store) (token : VaultRef) (now : Timestamp) :
    ((∃ card, (detokenize b store token now).1 = .ok card) ↔ Resolvable hist token now)
      ∧ (∀ result, (detokenize b store token now).1 = .ok result →
          ∀ card policy issuedAt after,
            Live hist token card policy issuedAt after → result = card)
      ∧ (∀ e, (detokenize b store token now).1 = .error e →
          (detokenize b store token now).2 = store)
      ∧ ∀ c : Call, c.token ≠ token →
          (c.run b store).2.lookup token.id = store.lookup token.id
            ∧ (detokenize b (c.run b store).2 token now).1 = (detokenize b store token now).1
            ∧ tokenExists (c.run b store).2 token = tokenExists store token
            ∧ (delete (c.run b store).2 token).1 = (delete store token).1 := by
  refine ⟨⟨fun hok => ?_, fun hres => ?_⟩, fun result hok card policy issuedAt
    after hl => ?_, fun e herr => ?_, fun c hne => ?_⟩
  · obtain ⟨result, hok⟩ := hok
    rcases h.live_or_none hb token with hnone | ⟨card, policy, at_, after, hl⟩
    · obtain ⟨e, he⟩ := detokenize_none (b := b) hnone now
      rw [he] at hok
      cases hok
    · obtain ⟨m, hk, heq⟩ := h.detokenize_live hb hl now
      rw [heq] at hok
      split at hok
      · cases hok
      · next hlate =>
          split at hok
          · cases hok
          · next hused =>
              rw [Bool.not_eq_true, expired_eq_false_iff, hk.policy_eq, hk.issuedAt_eq] at hlate
              refine ⟨card, policy, at_, after, hl, hlate,
                fun hsingle hresolved => hused ?_⟩
              exact ⟨hk.policy_eq ▸ hsingle, (hk.marked hsingle).2 hresolved⟩
  · obtain ⟨card, policy, issuedAt, after, hl, hage, hsingle⟩ := hres
    obtain ⟨m, hk, heq⟩ := h.detokenize_live hb hl now
    rw [← hk.policy_eq, ← hk.issuedAt_eq, ← expired_eq_false_iff] at hage
    have hunused : ¬ (m.policy.lifetime = .singleUse ∧ m.consumed = true) := by
      intro hboth
      have hs : policy.lifetime = .singleUse := hk.policy_eq ▸ hboth.1
      exact hsingle hs ((hk.marked hs).1 hboth.2)
    rw [heq, if_neg (Bool.eq_false_iff.1 hage), if_neg hunused]
    exact ⟨card, rfl⟩
  · obtain ⟨m, hk, heq⟩ := h.detokenize_live hb hl now
    rw [heq] at hok
    split at hok
    · cases hok
    · split at hok
      · cases hok
      · cases hok
        rfl
  · rcases h.live_or_none hb token with hnone | ⟨card, policy, at_, after, hl⟩
    · obtain ⟨e', he⟩ := detokenize_none (b := b) hnone now
      rw [he]
    · obtain ⟨m, hk, heq⟩ := h.detokenize_live hb hl now
      rw [heq] at herr ⊢
      split at herr
      · next hlate => rw [if_pos hlate]
      · next hlate =>
          rw [if_neg hlate]
          split at herr
          · next hused => rw [if_pos hused]
          · cases herr
  · have hlookup := lookup_run_of_ne b store hne
    exact ⟨hlookup, answers_congr b hlookup now⟩

def sampleCard : CardData :=
  ⟨"4242424242424242".toList, 12, 2030, by decide, by decide⟩

def sampleStored : StoredCard :=
  { pan := sampleCard.pan, expMonth := 12, expYear := 2030 }

def sampleJson : Bytes :=
  Text.utf8 ("\x7b\"pan\":\"4242424242424242\",\"exp_month\":12,"
    ++ "\"exp_year\":2030\x7d").toList

/-- A cipher that only prepends the nonce, and the serialiser at the test
card. -/
def sampleBackend : Backend :=
  { encrypt := fun nonce plaintext => some (nonce.toList ++ plaintext)
    decrypt := fun nonce ciphertext =>
      if nonce.toList <+: ciphertext then some (ciphertext.drop 12) else none
    toVec := fun stored =>
      if stored = sampleStored then .ok sampleJson else .error []
    fromSlice := fun bytes =>
      if bytes = sampleJson then .ok sampleStored else .error [] }

theorem sampleBackend_inverts : sampleBackend.Inverts := by
  refine ⟨fun nonce plaintext ciphertext h => ?_, fun stored bytes h => ?_⟩
  · cases h
    show (if nonce.toList <+: nonce.toList ++ plaintext then
      some ((nonce.toList ++ plaintext).drop 12) else none) = some plaintext
    have hlen : nonce.toList.length = 12 := Vector.length_toList
    rw [if_pos (List.prefix_append ..), List.drop_left' hlen]
  · change (if stored = sampleStored then .ok sampleJson else .error []) = Except.ok bytes at h
    show (if bytes = sampleJson then .ok sampleStored else .error []) = Except.ok stored
    by_cases heq : stored = sampleStored
    · rw [if_pos heq] at h
      cases h
      rw [if_pos rfl, heq]
    · rw [if_neg heq] at h
      cases h

def sampleCall : Call :=
  .tokenize sampleCard ⟨.random, .singleUse, some 60⟩ (.replicate 12 0)
    "0192".toList ⟨1000, by decide, by decide⟩

theorem sampleCall_run : (sampleCall.run sampleBackend ∅).1
    = .token (.ok (mintToken "0192".toList)) := by
  have hresult : (tokenize sampleBackend ∅ sampleCard
      ⟨.random, .singleUse, some 60⟩ (.replicate 12 0) "0192".toList
      ⟨⟨1000, by decide⟩, by decide, by decide⟩).1 = .ok (mintToken "0192".toList) := by
    unfold tokenize
    rw [(Text.fromUtf8?_eq_some_iff).2 rfl]
    rfl
  exact congrArg Answer.token hresult

/-- It resolves half a minute later. -/
theorem single_use_resolves :
    ∃ card, (detokenize sampleBackend (sampleCall.run sampleBackend ∅).2
      (mintToken "0192".toList)
      ⟨⟨1030, by decide⟩, by decide, by decide⟩).1 = .ok card := by
  have hrun : Run sampleBackend
      [(sampleCall, (sampleCall.run sampleBackend ∅).1)]
      (sampleCall.run sampleBackend ∅).2 :=
    .call sampleCall .start fun e he => absurd he List.not_mem_nil
  refine (resolves_iff sampleBackend_inverts hrun _ _).1.2
    ⟨sampleCard, ⟨.random, .singleUse, some 60⟩,
      ⟨⟨1000, by decide⟩, by decide, by decide⟩, [],
      ⟨⟨[], .replicate 12 0, "0192".toList, ?_⟩,
        fun e he => absurd he List.not_mem_nil⟩, ?_, ?_⟩
  · rw [sampleCall_run]
    rfl
  · intro ttl httl
    cases httl
    decide
  · intro _ hres
    obtain ⟨now, card, hmem⟩ := hres
    cases hmem

end OpenStandards.OpVault

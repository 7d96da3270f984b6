/-
The bookkeeping of a connector over whole runs.

A forwarding decision either emits a prepare, and then one account has
paid its amount and counted one packet, or leaves the connector as it is
(`forward_cases`). With a journal of the emitted amounts not given back,
balance and outstanding amounts of an account add up to its initial
balance (`Accounted`), so a refund of one never meets the cap.
-/
import OpenStandards.Ilp.Connector

namespace OpenStandards.Ilp

open Lib

-- ==== prefixes

theorem intercalate_append {α : Type} {sep : List α} {xs ys : List (List α)}
    (hxs : xs ≠ []) (hys : ys ≠ []) :
    sep.intercalate (xs ++ ys) = sep.intercalate xs ++ (sep ++ sep.intercalate ys) := by
  induction xs with
  | nil => exact absurd rfl hxs
  | cons x xs ih =>
    cases xs with
    | nil =>
      rw [List.singleton_append, List.intercalate_singleton,
        List.intercalate_cons_of_ne_nil hys, List.append_assoc]
    | cons x' xs =>
      have hrest := ih (List.cons_ne_nil _ _)
      rw [List.cons_append, List.cons_append, List.intercalate_cons_cons,
        List.intercalate_cons_cons, ← List.cons_append, hrest]
      simp only [List.append_assoc]

/-- The segments of a list begin with those of another exactly when the
list does and goes on with a separator, if at all. -/
theorem splitOn_prefix_iff {α : Type} [DecidableEq α] {sep : α} {p l : List α} :
    p.splitOn sep <+: l.splitOn sep ↔ p <+: l ∧ ∀ x, l[p.length]? = some x → x = sep := by
  constructor
  · rintro ⟨rest, hrest⟩
    have hl : l = [sep].intercalate (p.splitOn sep ++ rest) := by
      rw [hrest, List.intercalate_splitOn]
    cases rest with
    | nil =>
      rw [List.append_nil, List.intercalate_splitOn] at hl
      rw [hl]
      exact ⟨List.prefix_rfl, by simp⟩
    | cons seg rest =>
      rw [intercalate_append (List.splitOn_ne_nil _ _)
        (List.cons_ne_nil _ _), List.intercalate_splitOn] at hl
      rw [hl]
      refine ⟨List.prefix_append _ _, fun x hx => ?_⟩
      rw [List.getElem?_append_right (Nat.le_refl _), Nat.sub_self] at hx
      exact (Option.some.inj hx).symm
  · rintro ⟨⟨rest, rfl⟩, hnext⟩
    cases rest with
    | nil => simp
    | cons x rest =>
      have hx : x = sep := hnext x (by simp)
      rw [hx, List.splitOn_append_cons_self]
      exact List.prefix_append _ _

/-- The prefix is empty or consists of the first segments. -/
def Aligned (pre : String) (a : Address) : Prop :=
  pre = "" ∨ segmentsOf pre <+: segmentsOf a.raw

theorem startsWithPrefix_iff (a : Address) (pre : String) :
    a.startsWithPrefix pre = true ↔ Aligned pre a := by
  unfold Address.startsWithPrefix Aligned segmentsOf
  rw [splitOn_prefix_iff]
  by_cases hempty : pre = ""
  · rw [if_pos hempty]
    exact ⟨fun _ => .inl hempty, fun _ => rfl⟩
  · rw [if_neg hempty]
    by_cases hpre : pre.toList <+: a.raw.toList
    · rw [if_neg (not_not.2 hpre)]
      cases hnext : a.raw.toList[pre.toList.length]? with
      | none => simp [hpre]
      | some x => simp [hempty, hpre]
    · rw [if_pos hpre]
      simp [hempty, hpre]

-- ==== routes

/-- The route of a destination: its prefix is aligned and the longest, and
the first of the longest. -/
def BestRoute (t : RouteTable) (d : Address) (r : Route) : Prop :=
  Aligned r.addressPrefix d ∧ ∃ earlier later,
    t.routes = earlier ++ r :: later
      ∧ (∀ r' ∈ earlier, Aligned r'.addressPrefix d →
        r'.addressPrefix.utf8ByteSize < r.addressPrefix.utf8ByteSize)
      ∧ ∀ r' ∈ later, Aligned r'.addressPrefix d →
        r'.addressPrefix.utf8ByteSize ≤ r.addressPrefix.utf8ByteSize

theorem resolve_eq_scanBest (t : RouteTable) (d : Address) :
    t.resolve d = scanBest Route.replaces
      (t.routes.filter fun r => d.startsWithPrefix r.addressPrefix) := by
  unfold RouteTable.resolve scanBest
  rw [List.foldl_filter]

theorem bestRoute_of_resolve {t : RouteTable} {d : Address} {r : Route}
    (h : t.resolve d = some r) : BestRoute t d r := by
  rw [resolve_eq_scanBest] at h
  obtain ⟨l₁, l₂, hl, h₁, h₂⟩ := scanBest_first
    (fun r : Route => r.addressPrefix.utf8ByteSize)
    (fun a b => decide_eq_true_iff) h
  obtain ⟨earlier, after, hroutes, hearlier, hafter⟩ :=
    List.filter_eq_append_iff.1 hl
  obtain ⟨between, later, hafter', hbetween, hr, hlater⟩ :=
    List.filter_eq_cons_iff.1 hafter
  refine ⟨(startsWithPrefix_iff ..).1 hr, earlier ++ between, later, ?_,
    ?_, ?_⟩
  · rw [hroutes, hafter', List.append_assoc]
  · intro r' hr' haligned
    have hstarts := (startsWithPrefix_iff d _).2 haligned
    rcases List.mem_append.1 hr' with hr' | hr'
    · refine h₁ r' ?_
      rw [← hearlier]
      exact List.mem_filter.2 ⟨hr', hstarts⟩
    · exact absurd hstarts (hbetween r' hr')
  · intro r' hr' haligned
    refine h₂ r' ?_
    rw [← hlater]
    exact List.mem_filter.2 ⟨hr', (startsWithPrefix_iff d _).2 haligned⟩

theorem resolve_eq_none_iff {t : RouteTable} {d : Address} :
    t.resolve d = none ↔ ∀ r ∈ t.routes, ¬ Aligned r.addressPrefix d := by
  rw [resolve_eq_scanBest, scanBest_eq_none, List.filter_eq_nil_iff]
  simp only [startsWithPrefix_iff]

-- ==== one decision

/-- The amount of the emitted prepare: the same for equal assets, otherwise
the quoted one, rounded down and capped at what an amount can hold. -/
def AmountOf (c : Connector) (amount : UInt64) (r : Route) (nextAmount : UInt64) : Prop :=
  if c.sourceAssetCode = r.assetCode then nextAmount = amount
  else ∃ rate, c.quotes.lookup (c.sourceAssetCode, r.assetCode) = some rate
    ∧ nextAmount.toNat = min (amount.toNat * rate.toNat / 1000000) (2 ^ 64 - 1)

variable {amount : UInt64} {j : Journal}

theorem amountOf_of_convert {c : Connector} {nextAmount : UInt64} {r : Route}
    (h : c.convert amount c.sourceAssetCode r.assetCode = .ok nextAmount) :
    AmountOf c amount r nextAmount := by
  unfold Connector.convert at h
  unfold AmountOf
  by_cases hsame : c.sourceAssetCode = r.assetCode
  · rw [if_pos hsame] at h ⊢
    exact (Except.ok.inj h).symm
  · rw [if_neg hsame] at h ⊢
    cases hrate : c.quotes.lookup (c.sourceAssetCode, r.assetCode) with
    | none =>
      rw [hrate] at h
      cases h
    | some rate =>
      rw [hrate] at h
      refine ⟨rate, rfl, ?_⟩
      have hproduct : amount.toNat * rate.toNat ≤ 2 ^ 128 - 1 := by
        have ha : amount.toNat ≤ 2 ^ 64 - 1 := by
          have := amount.toNat_lt
          omega
        have hr : rate.toNat ≤ 2 ^ 64 - 1 := by
          have := rate.toNat_lt
          omega
        exact (Nat.mul_le_mul ha hr).trans (by decide)
      cases h
      rw [Nat.min_eq_left hproduct, UInt64.toNat_ofNat', Nat.mod_eq_of_lt]
      omega

/-- What a decision that emits a prepare has done. -/
structure Emitted (c : Connector) (p : Prepare) (c' : Connector)
    (hop : String) (q : Prepare) : Prop where
  route : ∃ r, BestRoute c.routes p.destination r ∧ r.nextHop = hop
    ∧ AmountOf c p.amount r q.amount
  rest : q = { p with amount := q.amount }
  account : ∃ a a', c.accounts.lookup hop = some a
    ∧ a'.balance.toNat + q.amount.toNat = a.balance.toNat
    ∧ a'.packetsThisSec.toNat = a.packetsThisSec.toNat + 1
    ∧ a'.packetsThisSec.toNat ≤ a.packetsPerSec.toNat
    ∧ a'.packetsPerSec = a.packetsPerSec
    ∧ a'.maxPacketAmount = a.maxPacketAmount
    ∧ (a.maxPacketAmount ≠ 0 → q.amount.toNat ≤ a.maxPacketAmount.toNat)
    ∧ ∀ k, c'.accounts.lookup k = if k = hop then some a' else c.accounts.lookup k

theorem balance_sub {balance : UInt64} (h : ¬ balance < amount) :
    (balance - amount).toNat + amount.toNat = balance.toNat := by
  rw [UInt64.not_lt] at h
  rw [UInt64.toNat_sub_of_le _ _ h]
  rw [UInt64.le_iff_toNat_le] at h
  omega

/-- Below the quota, the counter has room. -/
theorem packets_succ {perSec thisSec : UInt32} (h : ¬ perSec ≤ thisSec) :
    (thisSec + 1).toNat = thisSec.toNat + 1 := by
  rw [UInt32.not_le, UInt32.lt_iff_toNat_lt] at h
  have hmax := perSec.toNat_lt
  have hone : (1 : UInt32).toNat = 1 := rfl
  rw [UInt32.toNat_add, hone, Nat.mod_eq_of_lt]
  omega

/-- A decision emits a prepare and books it, or changes nothing. -/
theorem forward_cases (c : Connector) (p : Prepare) :
    (∃ c' hop q, c.forward p = (c', .ok (.forward hop q)) ∧ Emitted c p c' hop q)
      ∨ ∃ result, c.forward p = (c, result) ∧ ∀ hop q, result ≠ .ok (.forward hop q) := by
  unfold Connector.forward
  cases hroute : c.routes.resolve p.destination with
  | none => exact .inr ⟨_, rfl, nofun⟩
  | some r =>
    dsimp only
    cases hamount : c.convert p.amount c.sourceAssetCode r.assetCode with
    | error e => exact .inr ⟨_, rfl, nofun⟩
    | ok amount =>
      dsimp only
      cases haccount : c.accounts.lookup r.nextHop with
      | none => exact .inr ⟨_, rfl, nofun⟩
      | some a =>
        dsimp only
        split
        · exact .inr ⟨_, rfl, nofun⟩
        next hmax =>
          split
          · exact .inr ⟨_, rfl, nofun⟩
          next hquota =>
            split
            · exact .inr ⟨_, rfl, nofun⟩
            next hbalance =>
              refine .inl ⟨_, _, _, rfl, ⟨r,
                bestRoute_of_resolve hroute, rfl,
                amountOf_of_convert hamount⟩, rfl, a,
                { a with
                  balance := a.balance - amount
                  packetsThisSec := a.packetsThisSec + 1 },
                haccount, ?_, ?_, ?_, rfl, rfl, ?_,
                fun k => Table.lookup_insert_eq ..⟩
              · exact balance_sub hbalance
              · exact packets_succ hquota
              · show (a.packetsThisSec + 1).toNat ≤ _
                rw [packets_succ hquota]
                rw [UInt32.not_le, UInt32.lt_iff_toNat_lt] at hquota
                exact hquota
              · intro hpos
                by_contra hlarge
                refine hmax ⟨UInt64.pos_iff_ne_zero.2 hpos, ?_⟩
                rw [UInt64.lt_iff_toNat_lt]
                exact Nat.lt_of_not_le hlarge

-- ==== runs

inductive ConnectorCall where
  | forward (prepare : Prepare)
  | refund (nextHop : String) (amount : UInt64)

/-- A connector and the emitted amounts that have not been given back. -/
structure Journal where
  connector : Connector
  outstanding : List (String × UInt64)

namespace Journal

def step (j : Journal) : ConnectorCall → Journal
  | .forward p =>
    match j.connector.forward p with
    | (c, .ok (.forward hop q)) =>
      { connector := c
        outstanding := j.outstanding ++ [(hop, q.amount)] }
    | (c, _) => { j with connector := c }
  | .refund hop amount =>
    { connector := j.connector.refund hop amount
      outstanding := j.outstanding.erase (hop, amount) }

/-- A refund gives back an emitted amount that has not been given back. -/
def Refundable (j : Journal) : ConnectorCall → Prop
  | .forward _ => True
  | .refund hop amount => (hop, amount) ∈ j.outstanding

def outstandingOn (j : Journal) (hop : String) : Nat :=
  ((j.outstanding.filter fun e => e.1 = hop).map fun e => e.2.toNat).sum

end Journal

/-- The limits of every account are the initial ones, and no counter has
passed its quota since. -/
def QuotaKept (c₀ c : Connector) : Prop :=
  ∀ hop, Option.Rel
    (fun a₀ a => a.packetsPerSec = a₀.packetsPerSec
      ∧ a.maxPacketAmount = a₀.maxPacketAmount
      ∧ a.packetsThisSec.toNat ≤ max a₀.packetsThisSec.toNat a₀.packetsPerSec.toNat)
    (c₀.accounts.lookup hop) (c.accounts.lookup hop)

def Accounted (c₀ : Connector) (j : Journal) : Prop :=
  ∀ hop, Option.Rel
    (fun a₀ a => a.balance.toNat + j.outstandingOn hop = a₀.balance.toNat)
    (c₀.accounts.lookup hop) (j.connector.accounts.lookup hop)

theorem lookup_refund (c : Connector) (hop : String) (amount : UInt64) (k : String) :
    (c.refund hop amount).accounts.lookup k
      = if k = hop then (c.accounts.lookup hop).map fun a =>
          { a with balance := saturatingAddU64 a.balance amount }
        else c.accounts.lookup k := by
  unfold Connector.refund
  by_cases hk : k = hop
  · rw [if_pos hk, hk]
    cases h : c.accounts.lookup hop with
    | none => exact h
    | some a => exact AList.lookup_insert _
  · rw [if_neg hk]
    cases c.accounts.lookup hop with
    | none => rfl
    | some a => exact AList.lookup_insert_ne hk

theorem step_cases (j : Journal) (call : ConnectorCall) :
    (∃ p c' hop q, call = .forward p ∧ Emitted j.connector p c' hop q
        ∧ j.step call
          = { connector := c'
              outstanding := j.outstanding ++ [(hop, q.amount)] })
      ∨ j.step call = j
      ∨ ∃ hop amount, call = .refund hop amount
        ∧ j.step call
          = { connector := j.connector.refund hop amount
              outstanding := j.outstanding.erase (hop, amount) } := by
  cases call with
  | refund hop amount => exact .inr (.inr ⟨hop, amount, rfl, rfl⟩)
  | forward p =>
    unfold Journal.step
    rcases forward_cases j.connector p with ⟨c', hop, q, hforward, hq⟩
      | ⟨result, hforward, hresult⟩
    · refine .inl ⟨p, c', hop, q, rfl, hq, ?_⟩
      dsimp only
      rw [hforward]
    · refine .inr (.inl ?_)
      dsimp only
      rw [hforward]
      split
      next c hop q heq =>
        cases heq
        exact absurd rfl (hresult hop q)
      next c heq =>
        cases heq
        rfl

theorem quotaKept_refl (c : Connector) : QuotaKept c c := by
  intro hop
  cases c.accounts.lookup hop with
  | none => exact .none
  | some a => exact .some ⟨rfl, rfl, Nat.le_max_left _ _⟩

theorem QuotaKept.step {c₀ : Connector} (h : QuotaKept c₀ j.connector)
    (call : ConnectorCall) : QuotaKept c₀ (j.step call).connector := by
  rcases step_cases j call with ⟨p, c', hop, q, -, hq, hstep⟩ | hstep
    | ⟨hop, amount, -, hstep⟩
  · rw [hstep]
    intro k
    obtain ⟨a, a', ha, -, -, hquota, hper, hmax, -, hlookup⟩ := hq.account
    rw [hlookup]
    by_cases hk : k = hop
    · subst hk
      have hkept := h k
      rw [if_pos rfl]
      rw [ha] at hkept
      generalize c₀.accounts.lookup k = x at hkept ⊢
      cases hkept with
      | some hold =>
        obtain ⟨hper₀, hmax₀, -⟩ := hold
        refine .some ⟨hper.trans hper₀, hmax.trans hmax₀, ?_⟩
        rw [← hper₀]
        exact hquota.trans (Nat.le_max_right _ _)
    · rw [if_neg hk]
      exact h k
  · rw [hstep]
    exact h
  · rw [hstep]
    intro k
    rw [lookup_refund]
    by_cases hk : k = hop
    · subst hk
      have hkept := h k
      rw [if_pos rfl]
      generalize c₀.accounts.lookup k = x at hkept ⊢
      generalize j.connector.accounts.lookup k = y at hkept ⊢
      cases hkept with
      | none => exact .none
      | some hold => exact .some hold
    · rw [if_neg hk]
      exact h k

theorem outstandingOn_append (j : Journal) (c : Connector) (hop : String)
    (amount : UInt64) (k : String) :
    Journal.outstandingOn
        { connector := c, outstanding := j.outstanding ++ [(hop, amount)] } k
      = j.outstandingOn k + if hop = k then amount.toNat else 0 := by
  unfold Journal.outstandingOn
  rw [List.filter_append, List.map_append, List.sum_append]
  by_cases hk : hop = k
  · simp [hk]
  · simp [hk]

theorem outstandingOn_erase {hop : String} (h : (hop, amount) ∈ j.outstanding)
    (c : Connector) (k : String) :
    Journal.outstandingOn
        { connector := c
          outstanding := j.outstanding.erase (hop, amount) } k
      + (if hop = k then amount.toNat else 0) = j.outstandingOn k := by
  have hperm := (List.perm_cons_erase h).filter fun e => e.1 = k
  have hsum := (hperm.map fun e => e.2.toNat).sum_eq
  unfold Journal.outstandingOn
  rw [hsum]
  by_cases hk : hop = k
  · simp [hk, Nat.add_comm]
  · simp [hk]

theorem Accounted.step {c₀ : Connector} (h : Accounted c₀ j)
    (call : ConnectorCall) (hcall : j.Refundable call) :
    Accounted c₀ (j.step call) := by
  rcases step_cases j call with ⟨p, c', hop, q, -, hq, hstep⟩ | hstep
    | ⟨hop, amount, rfl, hstep⟩
  · rw [hstep]
    intro k
    obtain ⟨a, a', ha, hbalance, -, -, -, -, -, hlookup⟩ := hq.account
    have hold := h k
    rw [hlookup, outstandingOn_append]
    by_cases hk : k = hop
    · subst hk
      rw [if_pos rfl, if_pos rfl]
      rw [ha] at hold
      generalize c₀.accounts.lookup k = x at hold ⊢
      cases hold with
      | some hsum => exact .some (by omega)
    · rw [if_neg hk, if_neg (Ne.symm hk), Nat.add_zero]
      exact hold
  · rw [hstep]
    exact h
  · rw [hstep]
    intro k
    have hold := h k
    have hout := outstandingOn_erase hcall (j.connector.refund hop amount) k
    rw [lookup_refund]
    by_cases hk : k = hop
    · subst hk
      rw [if_pos rfl] at hout ⊢
      generalize c₀.accounts.lookup k = x at hold ⊢
      generalize j.connector.accounts.lookup k = y at hold ⊢
      cases hold with
      | none => exact .none
      | @some a₀ a hsum =>
        have hmax := a₀.balance.toNat_lt
        refine .some ?_
        dsimp only
        -- the sum is at most the initial balance
        rw [saturatingAddU64_toNat]
        omega
    · rw [if_neg hk]
      rw [if_neg (Ne.symm hk), Nat.add_zero] at hout
      rw [hout]
      exact hold

theorem accounted_start (c : Connector) :
    Accounted c { connector := c, outstanding := [] } := by
  intro hop
  cases c.accounts.lookup hop with
  | none => exact .none
  | some a => exact .some rfl

/-- The bookkeeping of a connector: the route of a destination, what one
decision emits and books, the quotas over every run, and the balances
over every run in which a refund gives back an emitted amount once. -/
theorem connector_bookkeeping (c : Connector) :
    (∀ d, match c.routes.resolve d with
        | some r => BestRoute c.routes d r
        | none => ∀ r ∈ c.routes.routes, ¬ Aligned r.addressPrefix d)
      ∧ (∀ p, (∃ c' hop q, c.forward p = (c', .ok (.forward hop q)) ∧ Emitted c p c' hop q)
          ∨ ∃ result, c.forward p = (c, result) ∧ ∀ hop q, result ≠ .ok (.forward hop q))
      ∧ (∀ calls, QuotaKept c (run Journal.step ⟨c, []⟩ calls).connector)
      ∧ ∀ calls, Along Journal.step Journal.Refundable ⟨c, []⟩ calls →
        Accounted c (run Journal.step ⟨c, []⟩ calls) := by
  refine ⟨fun d => ?_, forward_cases c, fun calls => ?_, fun calls hcalls =>
    run_invariant (fun j call h hcall => h.step call hcall) (accounted_start c) hcalls⟩
  · split
    next r hr => exact bestRoute_of_resolve hr
    next hr => exact resolve_eq_none_iff.1 hr
  · exact run_invariant (I := fun j : Journal => QuotaKept c j.connector)
      (P := fun _ _ => True) (fun j call h _ => h.step call)
      (quotaKept_refl c) (along_trivial _ calls)

-- ==== samples

def sampleConnector : Connector :=
  { sourceAssetCode := "USD", routes := ⟨[⟨"g", "hop", "EUR"⟩]⟩
    quotes := AList.insert ("USD", "EUR") 2000000 ∅
    accounts := AList.insert "hop"
      { balance := 18446744073709551615, maxPacketAmount := 0
        packetsPerSec := 2, packetsThisSec := 0 } ∅ }

theorem parseScheme_ga : parseScheme "g.a" = .ok .global := by
  decide +kernel

/-- A prepare of an amount to `g.a`. -/
def prepareOf (amount : UInt64) : Prepare :=
  { amount, expiresAt := List.Vector.replicate 17 0x30
    condition := ⟨List.Vector.replicate 32 7⟩
    destination :=
      { raw := "g.a", scheme := .global, parsed := parseScheme_ga }
    data := [] }

/-- Forward, refund what was emitted, forward again. -/
theorem connector_bookkeeping_sample :
    Accounted sampleConnector (run Journal.step ⟨sampleConnector, []⟩
      [.forward (prepareOf 5), .refund "hop" 10, .forward (prepareOf 7)]) := by
  refine (connector_bookkeeping sampleConnector).2.2.2 _
    ⟨trivial, ?_, trivial, trivial⟩
  show ("hop", (10 : UInt64)) ∈ (Journal.step ⟨sampleConnector, []⟩
    (.forward (prepareOf 5))).outstanding
  decide +kernel

/-- A quoted amount that does not fit an amount goes out capped. -/
theorem conversion_capped :
    ∃ c q rate, sampleConnector.forward (prepareOf 18446744073709551615)
        = (c, .ok (.forward "hop" q))
      ∧ sampleConnector.quotes.lookup ("USD", "EUR") = some rate
      ∧ q.amount.toNat
        ≠ (prepareOf 18446744073709551615).amount.toNat * rate.toNat / 1000000 := by
  refine ⟨_, _, 2000000, rfl, rfl, ?_⟩
  decide +kernel

end OpenStandards.Ilp

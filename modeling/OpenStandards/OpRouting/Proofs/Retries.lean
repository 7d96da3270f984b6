/-
What a run of retries respects.

A run starts without attempts and appends what the composer asks for, with
any answer. What the gates give holds of all runs (`route_attempt`). Three
limits are not gates: an answer without a decline code lets the run go on,
a category may raise the number of attempts above the global maximum, and
the window for retries is read by nothing (`respects_iff`).
-/
import OpenStandards.OpRouting.Composer

namespace OpenStandards.OpRouting

open Lib OpCore

-- ==== delays

theorem BackoffPolicy.delayFor_le (p : BackoffPolicy) (i : UInt32) :
    p.delayFor i ≤ 2 * maxU64 := by
  unfold delayFor
  split
  · exact Nat.zero_le _
  · have hexp : min (min (min p.initial maxU64
        * 2 ^ min (i.toNat - 1) 20) maxU64) p.cap ≤ maxU64 :=
      (min_le_left _ _).trans (min_le_right _ _)
    have hjitter : (if p.jitterMax = 0 then 0
        else (p.splitMix i).toNat % max (min p.jitterMax maxU64) 1)
          ≤ maxU64 := by
      split
      · exact Nat.zero_le _
      · have hlt : (p.splitMix i).toNat < 2 ^ 64 := UInt64.toNat_lt _
        have hmod := Nat.mod_le (p.splitMix i).toNat (max (min p.jitterMax maxU64) 1)
        have hmax : maxU64 = 2 ^ 64 - 1 := rfl
        omega
    exact (Nat.add_le_add hexp hjitter).trans_eq (two_mul maxU64).symm

def BackoffPolicy.delays (p : BackoffPolicy) (n : Nat) : List Duration :=
  (List.range n).map fun i => p.delayFor (.ofNat i)

theorem BackoffPolicy.delays_succ (p : BackoffPolicy) (n : Nat) :
    p.delays (n + 1) = p.delays n ++ [p.delayFor (.ofNat n)] := by
  unfold delays
  rw [List.range_succ, List.map_append]
  rfl

theorem BackoffPolicy.sum_delays_le (p : BackoffPolicy) (n : Nat) :
    (p.delays n).sum ≤ n * (2 * maxU64) := by
  induction n with
  | zero => exact Nat.zero_le _
  | succ n ih =>
    rw [p.delays_succ, List.sum_append, List.sum_singleton, Nat.succ_mul]
    exact Nat.add_le_add ih (p.delayFor_le (.ofNat n))

/-- The saturating sum is the sum, as far as a run goes. -/
theorem IntelligentRetry.totalDelay_eq (p : IntelligentRetry) {n : Nat} (hn : n ≤ 255) :
    p.totalDelay (.ofNat n) = (p.backoff.delays (n + 1)).sum := by
  have hfold : ∀ m ≤ n, (List.range m).foldl
      (fun total i => min (total + p.backoff.delayFor (.ofNat (i + 1)))
        Duration.max) 0 = (p.backoff.delays (m + 1)).sum := by
    intro m hm
    induction m with
    | zero =>
      show 0 = (p.backoff.delays 1).sum
      rw [p.backoff.delays_succ, List.sum_append, List.sum_singleton]
      rfl
    | succ m ih =>
      have hle := p.backoff.sum_delays_le (m + 1 + 1)
      have hbound : (m + 1 + 1) * (2 * maxU64) ≤ Duration.max := by
        have h257 : (m + 1 + 1) * (2 * maxU64) ≤ 257 * (2 * maxU64) :=
          Nat.mul_le_mul_right _ (by omega)
        exact h257.trans (by decide)
      rw [List.range_succ, List.foldl_append, List.foldl_cons, List.foldl_nil, ih (by omega)]
      rw [p.backoff.delays_succ (m + 1), List.sum_append, List.sum_singleton] at hle ⊢
      exact min_eq_left (hle.trans hbound)
  unfold totalDelay
  have hnat : (UInt32.ofNat n).toNat = n := by
    rw [UInt32.toNat_ofNat']
    omega
  rw [hnat]
  exact hfold n (le_refl n)

-- ==== one question

namespace MccPolicy

def Excludes (p : MccPolicy) (mcc : Option Mcc) (driver : DriverId) : Prop :=
  ∃ prefs, p.rule mcc = some prefs ∧ driver ∈ prefs.excludedDrivers

theorem not_excludes_of_mem_filter {p : MccPolicy} {mcc : Option Mcc}
    {pool : List Route} {r : Route} (h : r ∈ p.filter mcc pool) :
    ¬ p.Excludes mcc r.driver := by
  intro hex
  obtain ⟨prefs, hrule, hin⟩ := hex
  unfold filter at h
  rw [hrule] at h
  rcases List.mem_append.1 h with h | h
  · rw [List.mem_insertionSort] at h
    have hkept := (List.mem_filter.1 (List.mem_filter.1 h).1).2
    exact of_decide_eq_true hkept hin
  · have hkept := (List.mem_filter.1 (List.mem_filter.1 h).1).2
    exact of_decide_eq_true hkept hin

theorem mem_of_mem_filter {p : MccPolicy} {mcc : Option Mcc}
    {pool : List Route} {r : Route} (h : r ∈ p.filter mcc pool) :
    r ∈ pool := by
  unfold filter at h
  cases hrule : p.rule mcc with
  | none =>
    rw [hrule] at h
    exact h
  | some prefs =>
    rw [hrule] at h
    rcases List.mem_append.1 h with h | h
    · rw [List.mem_insertionSort] at h
      exact (List.mem_filter.1 (List.mem_filter.1 h).1).1
    · exact (List.mem_filter.1 (List.mem_filter.1 h).1).1

def cap (p : MccPolicy) (mcc : Option Mcc) : Option UInt8 :=
  ((p.rule mcc).map McuPreferences.maxAttempts).filter (0 < ·)

end MccPolicy

namespace ComposedRouter

variable {c : ComposedRouter} {intent : PaymentIntentRef}

/-- What a question says: the gates it passed and where its route and its
delay come from. -/
theorem route_attempt {prior : List Attempt} {r : Route} {d : Duration}
    (h : c.route intent prior = .attempt r d) :
    c.retry.hardDeclined prior = false
      ∧ prior.length < (((c.mcc.cap (category intent)).getD c.retry.maxAttempts)).toNat
      ∧ r ∈ c.lcr.select intent
      ∧ ¬ c.mcc.Excludes (category intent) r.driver
      ∧ r.driver ∉ prior.map (fun a => a.route.driver)
      ∧ d = c.retry.backoff.delayFor (.ofNat prior.length) := by
  unfold route at h
  by_cases hhard : c.retry.hardDeclined prior = true
  · rw [if_pos hhard] at h
    cases h
  · rw [if_neg hhard] at h
    simp only at h
    by_cases hmax : (c.mcc.maxAttemptsFor (category intent)
        c.retry.maxAttempts).toNat ≤ IntelligentRetry.attemptsUsed prior
    · rw [if_pos hmax] at h
      cases h
    · rw [if_neg hmax] at h
      cases hchosen : IntelligentRetry.untried prior
          (c.mcc.filter (category intent) (c.lcr.select intent)) with
      | none =>
        rw [hchosen] at h
        cases h
      | some chosen =>
        rw [hchosen] at h
        cases h
        have hin := List.mem_of_find?_eq_some hchosen
        have hnew := List.find?_some hchosen
        have hbyte := (c.mcc.maxAttemptsFor (category intent) c.retry.maxAttempts).toNat_lt
        unfold IntelligentRetry.attemptsUsed at hmax
        have hlen : prior.length < (c.mcc.maxAttemptsFor (category intent)
            c.retry.maxAttempts).toNat := by omega
        refine ⟨Bool.eq_false_iff.2 hhard, hlen,
          MccPolicy.mem_of_mem_filter hin,
          MccPolicy.not_excludes_of_mem_filter hin,
          of_decide_eq_true hnew, ?_⟩
        unfold attemptIndex
        rw [min_eq_left (by omega)]

end ComposedRouter

-- ==== runs

section Runs

variable (c : ComposedRouter) (intent : PaymentIntentRef)

inductive Run : List Attempt → List Duration → Prop
  | start : Run [] []
  | ask {prior delays r d} (declineCode : Option DeclineCode) :
      Run prior delays → c.route intent prior = .attempt r d →
      Run (prior ++ [{ route := r, declineCode }]) (delays ++ [d])

/-- What the gates keep. -/
structure Kept (prior : List Attempt) (delays : List Duration) : Prop where
  once : (prior.map fun a => a.route.driver).Nodup
  allowed : ∀ a ∈ prior, ¬ c.mcc.Excludes (ComposedRouter.category intent) a.route.driver
  soft : ∀ a ∈ prior.dropLast, ∀ code, a.declineCode = some code → c.retry.classify code ≠ .hard
  capped : prior.length ≤ ((c.mcc.cap
    (ComposedRouter.category intent)).getD c.retry.maxAttempts).toNat
  delays_eq : delays = c.retry.backoff.delays prior.length

variable {c intent}

variable {prior : List Attempt} {delays : List Duration}

theorem not_hard_of_gate {last : Attempt} (hlast : prior.getLast? = some last)
    (h : c.retry.hardDeclined prior = false) :
    ∀ code, last.declineCode = some code → c.retry.classify code ≠ .hard := by
  intro code hcode hhard
  unfold IntelligentRetry.hardDeclined at h
  rw [hlast, Option.bind_some, hcode] at h
  exact of_decide_eq_false h hhard

theorem forall_mem_iff_dropLast (P : Attempt → Prop) :
    (∀ a ∈ prior, P a) ↔ (∀ a ∈ prior.dropLast, P a) ∧ ∀ a, prior.getLast? = some a → P a := by
  cases prior using List.reverseRecOn with
  | nil => simp
  | append_singleton prior a =>
    rw [List.dropLast_concat, List.getLast?_concat]
    simp only [List.mem_append, List.mem_singleton]
    refine ⟨fun h => ⟨fun b hb => h b (Or.inl hb), fun b hb => ?_⟩,
      fun h b hb => ?_⟩
    · cases hb
      exact h a (Or.inr rfl)
    · rcases hb with hb | rfl
      · exact h.1 b hb
      · exact h.2 b rfl

theorem Kept.ask {r : Route} {d : Duration} (h : Kept c intent prior delays)
    (hroute : c.route intent prior = .attempt r d) (declineCode : Option DeclineCode) :
    Kept c intent (prior ++ [{ route := r, declineCode }]) (delays ++ [d]) := by
  obtain ⟨hgate, hlen, -, hallowed, hnew, rfl⟩ :=
    ComposedRouter.route_attempt hroute
  refine ⟨?_, fun a ha => ?_, ?_, ?_, ?_⟩
  · rw [List.map_append, List.nodup_append]
    refine ⟨h.once, List.nodup_singleton _, ?_⟩
    intro x hx y hy heq
    rw [List.map_singleton, List.mem_singleton] at hy
    exact hnew (hy ▸ heq ▸ hx)
  · rcases List.mem_append.1 ha with ha | ha
    · exact h.allowed a ha
    · rw [List.mem_singleton.1 ha]
      exact hallowed
  · rw [List.dropLast_concat]
    exact (forall_mem_iff_dropLast fun a => ∀ code,
      a.declineCode = some code → c.retry.classify code ≠ .hard).2
        ⟨h.soft, fun a ha => not_hard_of_gate ha hgate⟩
  · rw [List.length_append]
    exact hlen
  · rw [List.length_append, h.delays_eq]
    exact (c.retry.backoff.delays_succ prior.length).symm

theorem Run.kept (h : Run c intent prior delays) : Kept c intent prior delays := by
  induction h with
  | start =>
    exact
      { once := List.nodup_nil
        allowed := fun a ha => absurd ha List.not_mem_nil
        soft := fun a ha => absurd ha List.not_mem_nil
        capped := Nat.zero_le _
        delays_eq := rfl }
  | ask declineCode _ hroute ih => exact ih.ask hroute declineCode

-- ==== limits

variable (c intent)

/-- The limits that a run of retries should respect. -/
structure Respects (prior : List Attempt) (delays : List Duration) : Prop where
  declined : ∀ a ∈ prior.dropLast, ∃ code, a.declineCode = some code
    ∧ c.retry.classify code ≠ .hard
  once : (prior.map fun a => a.route.driver).Nodup
  allowed : ∀ a ∈ prior, ¬ c.mcc.Excludes (ComposedRouter.category intent) a.route.driver
  max : prior.length ≤ c.retry.maxAttempts.toNat
  cap : ∀ n, c.mcc.cap (ComposedRouter.category intent) = some n → prior.length ≤ n.toNat
  window : delays.sum ≤ c.retry.retryWindow

/-- A state in which another attempt breaks no limit: the last one was
declined, the global maximum is not reached, and the delays, with that
before the next attempt, fit into the window. -/
structure MayAsk (prior : List Attempt) : Prop where
  declined : ∀ last, prior.getLast? = some last → last.declineCode ≠ none
  max : prior.length < c.retry.maxAttempts.toNat
  window : c.retry.totalDelay (.ofNat prior.length) ≤ c.retry.retryWindow

variable {c intent}

theorem respects_ask_iff {r : Route} {d : Duration} (h : Kept c intent prior delays)
    (hroute : c.route intent prior = .attempt r d) (declineCode : Option DeclineCode) :
    Respects c intent (prior ++ [{ route := r, declineCode }]) (delays ++ [d])
      ↔ Respects c intent prior delays ∧ MayAsk c prior := by
  have hnext := h.ask hroute declineCode
  obtain ⟨hgate, hlen, -, -, -, -⟩ := ComposedRouter.route_attempt hroute
  have htotal : c.retry.totalDelay (.ofNat prior.length) = (delays ++ [d]).sum := by
    have hbyte := ((c.mcc.cap (ComposedRouter.category intent)).getD
      c.retry.maxAttempts).toNat_lt
    rw [c.retry.totalDelay_eq (by omega), hnext.delays_eq, List.length_append]
    rfl
  have hsum : delays.sum ≤ (delays ++ [d]).sum := by
    rw [List.sum_append]
    exact Nat.le_add_right _ _
  have hlength : (prior ++ [({ route := r, declineCode } : Attempt)]).length
      = prior.length + 1 := List.length_append ..
  refine ⟨fun hall => ⟨?_, ?_⟩, fun hboth => ?_⟩
  · have hdeclined := hall.declined
    rw [List.dropLast_concat] at hdeclined
    exact
      { declined := fun a ha => hdeclined a (List.mem_of_mem_dropLast ha)
        once := h.once
        allowed := h.allowed
        max := by
          have hmax := hall.max
          omega
        cap := fun n hn => by
          have hcap := hall.cap n hn
          omega
        window := hsum.trans hall.window }
  · have hdeclined := hall.declined
    rw [List.dropLast_concat] at hdeclined
    refine ⟨fun last hlast hnone => ?_, ?_, htotal.trans_le hall.window⟩
    · obtain ⟨code, hcode, -⟩ :=
        hdeclined last (List.mem_of_getLast? hlast)
      rw [hnone] at hcode
      cases hcode
    · have hmax := hall.max
      omega
  · obtain ⟨hrespects, hask⟩ := hboth
    refine ⟨?_, hnext.once, hnext.allowed, ?_, fun n hn => ?_, htotal.symm.trans_le hask.window⟩
    · rw [List.dropLast_concat]
      refine (forall_mem_iff_dropLast fun a => ∃ code,
        a.declineCode = some code ∧ c.retry.classify code ≠ .hard).2
          ⟨hrespects.declined, fun a ha => ?_⟩
      obtain ⟨code, hcode⟩ := Option.ne_none_iff_exists'.1 (hask.declined a ha)
      exact ⟨code, hcode, not_hard_of_gate ha hgate code hcode⟩
    · rw [hlength]
      exact hask.max
    · have hcapped := hnext.capped
      rw [hn] at hcapped
      exact hcapped

/-- A run respects its limits if and only if it asked in no state that
breaks one. -/
theorem respects_iff {prior : List Attempt} {delays : List Duration}
    (h : Run c intent prior delays) :
    Respects c intent prior delays ↔ ∀ k < prior.length, MayAsk c (prior.take k) := by
  induction h with
  | start =>
    refine ⟨fun _ k hk => absurd hk (Nat.not_lt_zero k), fun _ => ?_⟩
    exact
      { declined := fun a ha => absurd ha List.not_mem_nil
        once := List.nodup_nil
        allowed := fun a ha => absurd ha List.not_mem_nil
        max := Nat.zero_le _
        cap := fun _ _ => Nat.zero_le _
        window := Nat.zero_le _ }
  | @ask prior delays r d declineCode hrun hroute ih =>
    rw [respects_ask_iff hrun.kept hroute declineCode, ih, List.length_append]
    refine ⟨fun hboth k hk => ?_, fun hall => ⟨fun k hk => ?_, ?_⟩⟩
    · rcases Nat.lt_succ_iff_lt_or_eq.1 hk with hk | rfl
      · rw [List.take_append_of_le_length (Nat.le_of_lt hk)]
        exact hboth.1 k hk
      · rw [List.take_left]
        exact hboth.2
    · have hstep := hall k (Nat.lt_succ_of_lt hk)
      rw [List.take_append_of_le_length (Nat.le_of_lt hk)] at hstep
      exact hstep
    · have hstep := hall prior.length (Nat.lt_succ_self _)
      rw [List.take_left] at hstep
      exact hstep

end Runs

-- ==== samples

def psp (name : String) : Route :=
  { driver := ⟨name⟩, rail := .card, country := none, authRateBps := none }

def gambling : Mcc := { bytes := #v[55, 57, 57, 53] }

def gamblingRules : Table Mcc McuPreferences :=
  (∅ : Table Mcc McuPreferences).insert gambling
    { preferredDrivers := [], excludedDrivers := ∅, maxAttempts := 3 }

def sampleBackoff : BackoffPolicy :=
  { initial := 1000000000, cap := 30000000000, jitterMax := 0
    jitterSeed := 0 }

theorem delayFor_one : sampleBackoff.delayFor 1 = 1000000000 := by
  decide +kernel

def sampleRouter (maxAttempts : UInt8) (window : Duration) : ComposedRouter :=
  { lcr := { estimators := ∅, routes := [psp "a", psp "b"]
             authRateBiasBps := 0 }
    mcc := { rules := gamblingRules }
    retry :=
      { maxAttempts, retryWindow := window, softDeclineCodes := ∅
        hardDeclineCodes := ∅, backoff := sampleBackoff } }

def sampleIntent : PaymentIntentRef :=
  { amount := { minorUnits := 1000, currency := .USD }
    mcc := some ['7', '9', '9', '5']
    customerCountry := none, merchantCountry := none }

def doNotHonour : DeclineCode := { bytes := #v[48, 53] }

def twoAttempts (answer : Option DeclineCode) : List Attempt :=
  [⟨psp "a", answer⟩, ⟨psp "b", none⟩]

theorem run_twoAttempts (maxAttempts : UInt8) (window : Duration) (answer : Option DeclineCode) :
    Run (sampleRouter maxAttempts window) sampleIntent (twoAttempts answer)
      [0, 1000000000] := by
  rw [← delayFor_one]
  refine .ask none (.ask answer .start ?_) ?_
  · rfl
  · cases answer with
    | none => rfl
    | some code => rfl

/-- A retry after a soft decline, inside the window. -/
theorem soft_retry_respects :
    Respects (sampleRouter 2 1000000000) sampleIntent
      (twoAttempts (some doNotHonour)) [0, 1000000000] := by
  refine (respects_iff (run_twoAttempts 2 1000000000 _)).2 fun k hk => ?_
  have hcases : k = 0 ∨ k = 1 := by
    have hlt : k < 2 := hk
    omega
  rcases hcases with rfl | rfl
  · refine ⟨fun last hlast => ?_, by decide, by decide +kernel⟩
    cases hlast
  · refine ⟨fun last hlast hnone => ?_, by decide, by decide +kernel⟩
    cases hlast
    cases hnone

/-- A success is followed by another attempt, a retry comes outside of the
window, and a category raises the number of attempts. -/
theorem limits_broken :
    (Run (sampleRouter 4 30000000000) sampleIntent (twoAttempts none)
          [0, 1000000000]
        ∧ ¬ Respects (sampleRouter 4 30000000000) sampleIntent
          (twoAttempts none) [0, 1000000000])
      ∧ (Run (sampleRouter 4 0) sampleIntent (twoAttempts (some doNotHonour)) [0, 1000000000]
          ∧ ¬ Respects (sampleRouter 4 0) sampleIntent
            (twoAttempts (some doNotHonour)) [0, 1000000000])
      ∧ Run (sampleRouter 1 30000000000) sampleIntent
          (twoAttempts (some doNotHonour)) [0, 1000000000]
        ∧ ¬ Respects (sampleRouter 1 30000000000) sampleIntent
          (twoAttempts (some doNotHonour)) [0, 1000000000] := by
  refine ⟨⟨run_twoAttempts _ _ _, fun h => ?_⟩,
    ⟨run_twoAttempts _ _ _, fun h => ?_⟩,
    run_twoAttempts _ _ _, fun h => ?_⟩
  · obtain ⟨code, hcode, -⟩ :=
      h.declined ⟨psp "a", none⟩ (List.mem_singleton_self _)
    cases hcode
  · exact absurd h.window (by decide)
  · exact absurd h.max (by decide)

end OpenStandards.OpRouting

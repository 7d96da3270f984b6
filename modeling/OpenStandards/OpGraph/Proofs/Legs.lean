/-
Round trips of the property codecs: what the store writes for a status,
a currency, an amount or a time is what its readers decode, up to the
two places where the codec loses something: a string that begins with
`json:`, and an unsigned number of `2^63` or more.
-/
import OpenStandards.OpGraph.LedgerStore
import OpenStandards.OpGraph.Proofs.PropertyGraph
import OpenStandards.Lib.Fallible

namespace OpenStandards.OpGraph

open Lib OpCore OpLedger

section

variable (sj : SerdeJson)

-- ==== strings

/-- The string is stored as itself. -/
def Plain (s : String) : Prop := stripJson s = none

instance : DecidablePred Plain := fun s =>
  inferInstanceAs (Decidable (stripJson s = none))

theorem mgToJson_string {s : String} (h : Plain s) : mgToJson sj (.string s) = .string s := by
  unfold mgToJson
  simp only [show stripJson s = none from h]

theorem plain_statusStr (st : Status) : Plain (statusStr st) := by
  cases st <;> decide

theorem plain_accountClassStr (c : AccountClass) : Plain (accountClassStr c) := by
  cases c <;> decide

theorem plain_normalBalanceStr (nb : NormalBalance) : Plain (normalBalanceStr nb) := by
  cases nb <;> decide

/-- Three letters are too short for the mark. -/
theorem plain_code (c : Currency) : Plain c.code := by
  unfold Plain stripJson
  rw [Currency.toList_code]
  split
  · rename_i heq
    exact absurd (congrArg List.length heq) (by simp)
  · rfl

theorem parseStatus_statusStr (st : Status) : parseStatus (statusStr st) = .ok st := by
  cases st <;> rfl

theorem parseAccountClass_accountClassStr (c : AccountClass) :
    parseAccountClass (accountClassStr c) = .ok c := by
  cases c <;> rfl

theorem parseNormalBalance_normalBalanceStr (nb : NormalBalance) :
    parseNormalBalance (normalBalanceStr nb) = .ok nb := by
  cases nb <;> rfl

-- ==== numbers

theorem asI64_ofI64 (i : I64) : (JsonNumber.ofI64 i).asI64 = some i := by
  unfold JsonNumber.ofI64
  by_cases h : 0 ≤ i.val
  · rw [if_pos h]
    refine I64.ofInt?_eq_some.2 ?_
    omega
  · rw [if_neg h]
    exact I64.ofInt?_eq_some.2 rfl

theorem jsonToMg_ofI64 (i : I64) : jsonToMg sj (.number (.ofI64 i)) = .integer i := by
  unfold jsonToMg
  simp only [asI64_ofI64]

/-- A `u64` that is also an `i64`. -/
def FitsI64 (n : Nat) : Prop := n ≤ 9223372036854775807

instance : DecidablePred FitsI64 := fun n =>
  inferInstanceAs (Decidable (n ≤ _))

/-- The `i64` of a `u64` that fits. -/
def I64.ofNat (n : Nat) (h : FitsI64 n) : I64 :=
  ⟨n, by unfold FitsI64 at h; exact ⟨by omega, by omega⟩⟩

variable {n : Nat}

theorem jsonToMg_ofU64 (h : FitsI64 n) :
    jsonToMg sj (.number (.ofU64 n)) = .integer (I64.ofNat n h) := by
  have hn : (JsonNumber.ofU64 n).asI64 = some (I64.ofNat n h) :=
    I64.ofInt?_eq_some.2 rfl
  unfold jsonToMg
  simp only [hn]

/-- A larger one is stored as a double, which is no longer a `u64`. -/
theorem jsonToMg_ofU64_large (h : ¬ FitsI64 n) :
    ∃ q, jsonToMg sj (.number (.ofU64 n)) = .float q := by
  have hn : (JsonNumber.ofU64 n).asI64 = none := by
    refine I64.ofInt?_eq_none.2 ?_
    intro hin
    unfold FitsI64 at h
    unfold InI64 at hin
    omega
  unfold jsonToMg
  simp only [hn]
  exact ⟨_, rfl⟩

theorem asU64_integer (h : FitsI64 n) :
    (mgToJson sj (.integer (I64.ofNat n h))).asU64 = some n := by
  show (JsonNumber.ofI64 (I64.ofNat n h)).asU64 = some n
  unfold JsonNumber.ofI64
  rw [if_pos (show 0 ≤ (I64.ofNat n h).val from Int.natCast_nonneg n)]
  rfl

theorem asI64_integer (i : I64) : (mgToJson sj (.integer i)).asI64 = some i := asI64_ofI64 i

-- ==== currencies

theorem utf8Size_of_isCodeByte {c : Char} (h : isCodeByte c = true) : c.utf8Size = 1 := by
  unfold isCodeByte at h
  rw [Bool.and_eq_true, decide_eq_true_eq, decide_eq_true_eq] at h
  have hle : c.val ≤ 'Z'.val := h.2
  unfold Char.utf8Size
  rw [if_pos]
  exact UInt32.le_trans hle (by decide)

theorem exponent_fits (c : Currency) : FitsI64 c.exponent := by
  have := c.exponent_le
  unfold FitsI64
  omega

theorem currencyFromProps_code (c : Currency) :
    currencyFromProps c.code (c.exponent % 256) = .ok c := by
  have hexp : c.exponent % 256 = c.exponent :=
    Nat.mod_eq_of_lt (lt_of_le_of_lt c.exponent_le (by decide))
  rw [hexp]
  have hsum : (c.code.toList.map Char.utf8Size).sum = 3 := by
    have hup := c.code_upper
    rw [Bool.and_eq_true, Bool.and_eq_true] at hup
    rw [Currency.toList_code]
    simp [utf8Size_of_isCodeByte hup.1.1, utf8Size_of_isCodeByte hup.1.2,
      utf8Size_of_isCodeByte hup.2]
  -- the curated constants are the currencies of their code and exponent
  unfold currencyFromProps
  split
  case h_8 =>
    rw [if_neg (fun hne => hne hsum)]
    simp only [Currency.toList_code, Currency.tryNew_self]
  all_goals
    rename_i hcode hexp
    exact congrArg Except.ok (Currency.ext_code hcode.symm hexp.symm)

end

/-
The tally of the graph store, in every order of rows.

What the loop reads of an entry edge does not depend on the order of
rows (`PropertyGraph.leg`), so a tally is a fold over the legs of the
account in some order. It succeeds in every order exactly when every leg
can be read and, on each side, what goes up and what goes down each fit
(`tally_every_order`). Then its totals are the exact sums.
-/
open InMemoryLedgerStore (Tally addOrOverflow)
open GraphLedgerStore

abbrev LedgerGraph := PropertyGraph LedgerProp

-- ==== what is read

namespace PropertyGraph

variable (sj : SerdeJson) (G : LedgerGraph)

/-- A property read back. -/
def json (e : Entity) (a : LedgerProp) : Option Json :=
  (G.prop e a).map (mgToJson sj)

def leg (accountId : AccountId) (currency : Currency) (e : Edge) :
    Except Error (Status × I64) := do
  let amount ← match (G.json sj (.edge e.id) .amountMinor).bind Json.asI64 with
    | some i => Except.ok i
    | none => .error (GraphError.toLedger (.propertyTypeMismatch "?"
        LedgerProp.amountMinor.text "i64"))
  let ccode ← match (G.json sj (.edge e.id) .currencyCode).bind
      Json.asStr with
    | some s => Except.ok s
    | none => .error (GraphError.toLedger (.propertyTypeMismatch "?"
        LedgerProp.currencyCode.text "string"))
  if ccode ≠ currency.code then
    .error (.currencyMismatch ccode currency.code accountId.toString)
  else do
    let statusS ← match (G.json sj (.vertex e.fromId) .status).bind
        Json.asStr with
      | some s => Except.ok s
      | none => .error (GraphError.toLedger (.propertyTypeMismatch "?"
          LedgerProp.status.text "string"))
    let status ← (parseStatus statusS).mapError GraphError.toLedger
    return (status, amount)

def legD (accountId : AccountId) (currency : Currency) (e : Edge) : Status × I64 :=
  match G.leg sj accountId currency e with
  | .ok l => l
  | .error _ => (.archived, 0)

end PropertyGraph

section

variable {sj : SerdeJson} {view : List (Fact LedgerProp)} {G : LedgerGraph}

theorem readLeg_eq (h : Represents view G) (ord : RowOrder (Fact LedgerProp))
    (accountId : AccountId) (currency : Currency) (e : Edge) :
    readLeg accountId currency
        (GraphHandle.propertiesIn sj ord view (.edge e.id))
        (GraphHandle.propertiesIn sj ord view (.vertex e.fromId))
      = G.leg sj accountId currency e := by
  unfold readLeg PropertyGraph.leg jsonI64 jsonString PropertyGraph.json
  simp only [h.get_propertiesIn]
  cases (Option.map (mgToJson sj) (G.prop (.edge e.id) .amountMinor)).bind Json.asI64 with
  | none => rfl
  | some amount =>
    cases (Option.map (mgToJson sj) (G.prop (.edge e.id) .currencyCode) ).bind Json.asStr with
    | none => rfl
    | some code =>
      cases (Option.map (mgToJson sj) (G.prop (.vertex e.fromId) .status) ).bind Json.asStr with
      | none => rfl
      | some st => rfl

variable {a : AccountId} {c : Currency} {e : Edge}

/-- A leg that was written is read. -/
theorem leg_of_props {m : I64} {st : Status}
    (hamount : G.prop (.edge e.id) .amountMinor = some (.integer m))
    (hcode : G.prop (.edge e.id) .currencyCode = some (.string c.code))
    (hstatus : G.prop (.vertex e.fromId) .status
      = some (.string (statusStr st))) : G.leg sj a c e = .ok (st, m) := by
  have ha : (G.json sj (.edge e.id) .amountMinor).bind Json.asI64 = some m := by
    unfold PropertyGraph.json
    rw [hamount]
    exact asI64_integer sj m
  have hc : (G.json sj (.edge e.id) .currencyCode).bind Json.asStr = some c.code := by
    unfold PropertyGraph.json
    rw [hcode, Option.map_some, mgToJson_string sj (plain_code c)]
    rfl
  have hs : (G.json sj (.vertex e.fromId) .status).bind Json.asStr = some (statusStr st) := by
    unfold PropertyGraph.json
    rw [hstatus, Option.map_some, mgToJson_string sj (plain_statusStr st)]
    rfl
  unfold PropertyGraph.leg
  simp only [ha, hc, hs]
  show (if c.code ≠ c.code then _ else _) = _
  rw [if_neg (fun hne => hne rfl)]
  show (parseStatus (statusStr st)).mapError GraphError.toLedger >>= _ = _
  rw [parseStatus_statusStr]
  rfl

theorem leg_of_unfilled (hamount : G.prop (.edge e.id) .amountMinor = none)
    (l : Status × I64) : G.leg sj a c e ≠ .ok l := by
  unfold PropertyGraph.leg PropertyGraph.json
  simp only [hamount, Option.map_none, Option.bind_none]
  exact nofun

/-- The leg depends on two properties of the edge and on the status of
its transaction. -/
theorem leg_congr {G' : LedgerGraph}
    (hamount : G'.prop (.edge e.id) .amountMinor
      = G.prop (.edge e.id) .amountMinor)
    (hcode : G'.prop (.edge e.id) .currencyCode = G.prop (.edge e.id) .currencyCode)
    (hstatus : G'.prop (.vertex e.fromId) .status
      = G.prop (.vertex e.fromId) .status) (a : AccountId) (c : Currency) :
    G'.leg sj a c e = G.leg sj a c e := by
  unfold PropertyGraph.leg PropertyGraph.json
  rw [hamount, hcode, hstatus]

theorem legD_of_ok {l : Status × I64} (h : G.leg sj a c e = .ok l) : G.legD sj a c e = l := by
  unfold PropertyGraph.legD
  rw [h]

end

-- ==== sides

def postedOf (d : Direction) (t : Tally) : I64 :=
  match d with
  | .debit => t.postedDebits
  | .credit => t.postedCredits

def pendingOf (d : Direction) (t : Tally) : I64 :=
  match d with
  | .debit => t.pendingDebits
  | .credit => t.pendingCredits

def postedAmounts (legs : List (Status × I64)) : List Int :=
  (legs.filter fun l => l.1 = .posted).map fun l => l.2.val

def liveAmounts (legs : List (Status × I64)) : List Int :=
  (legs.filter fun l => l.1 ≠ .archived).map fun l => l.2.val

theorem postedAmounts_sublist (legs : List (Status × I64)) :
    (postedAmounts legs).Sublist (liveAmounts legs) := by
  refine List.Sublist.map _ ?_
  refine List.monotone_filter_right legs ?_
  intro l hl
  rw [decide_eq_true_eq] at hl ⊢
  rw [hl]
  exact nofun

theorem postedAmounts_perm {legs legs' : List (Status × I64)} (h : legs.Perm legs') :
    (postedAmounts legs).Perm (postedAmounts legs') := (h.filter _).map _

theorem liveAmounts_perm {legs legs' : List (Status × I64)} (h : legs.Perm legs') :
    (liveAmounts legs).Perm (liveAmounts legs') := (h.filter _).map _

theorem liveAmounts_append (legs legs' : List (Status × I64)) :
    liveAmounts (legs ++ legs') = liveAmounts legs ++ liveAmounts legs' := by
  unfold liveAmounts
  rw [List.filter_append, List.map_append]

/-- Every running total of the terms fits, in every order. -/
def Fits (xs : List Int) : Prop :=
  -9223372036854775808 ≤ downs xs ∧ ups xs ≤ 9223372036854775807

theorem Fits.perm {xs ys : List Int} (h : Fits xs) (hp : xs.Perm ys) : Fits ys := by
  unfold Fits
  rw [← ups_perm hp, ← downs_perm hp]
  exact h

theorem addOrOverflow_ok {a b r : I64} : addOrOverflow a b = .ok r ↔ r.val = a.val + b.val := by
  unfold addOrOverflow
  rw [← I64.checkedAdd_eq_some]
  cases a.checkedAdd b with
  | none => exact ⟨nofun, nofun⟩
  | some x =>
    constructor
    · intro h
      rw [Except.ok.inj h]
    · intro h
      rw [Option.some.inj h]

variable {d : Direction}

/-- What a leg does to its own side, and only to it. -/
theorem addLeg_ok {acc acc' : Tally} {l : Status × I64} (h : addLeg d acc l = .ok acc') :
    (postedOf d acc').val = (postedOf d acc).val + (if l.1 = .posted then l.2.val else 0)
      ∧ (pendingOf d acc').val
        = (pendingOf d acc).val + (if l.1 ≠ .archived then l.2.val else 0)
      ∧ ∀ d', d' ≠ d → postedOf d' acc' = postedOf d' acc
        ∧ pendingOf d' acc' = pendingOf d' acc := by
  obtain ⟨st, m⟩ := l
  cases st with
  | posted =>
    cases d <;>
    · obtain ⟨p, hp, h⟩ := bind_eq_ok.1 h
      obtain ⟨q, hq, h⟩ := bind_eq_ok.1 h
      cases h
      rw [addOrOverflow_ok] at hp hq
      refine ⟨by simpa [postedOf] using hp, by simpa [pendingOf] using hq,
        ?_⟩
      intro d' hd'
      cases d' <;> first | exact absurd rfl hd' | exact ⟨rfl, rfl⟩
  | pending =>
    cases d <;>
    · obtain ⟨q, hq, h⟩ := bind_eq_ok.1 h
      cases h
      rw [addOrOverflow_ok] at hq
      refine ⟨by simp [postedOf], by simpa [pendingOf] using hq, ?_⟩
      intro d' hd'
      cases d' <;> first | exact absurd rfl hd' | exact ⟨rfl, rfl⟩
  | archived =>
    cases h
    exact ⟨by simp, by simp, fun d' _ => ⟨rfl, rfl⟩⟩

theorem addOrOverflow_of_inI64 {a b : I64} (h : InI64 (a.val + b.val)) :
    addOrOverflow a b = .ok ⟨a.val + b.val, h⟩ := addOrOverflow_ok.2 rfl

/-- A leg is counted where its totals fit. -/
theorem addLeg_of_inI64 {acc : Tally} {l : Status × I64}
    (hp : l.1 = .posted → InI64 ((postedOf d acc).val + l.2.val))
    (hq : l.1 ≠ .archived → InI64 ((pendingOf d acc).val + l.2.val)) :
    ∃ acc', addLeg d acc l = .ok acc' := by
  obtain ⟨st, m⟩ := l
  cases st with
  | posted =>
    have hp := addOrOverflow_of_inI64 (hp rfl)
    have hq := addOrOverflow_of_inI64 (hq nofun)
    cases d <;>
    · refine ⟨_, bind_eq_ok.2 ⟨_, hp, bind_eq_ok.2 ⟨_, hq, rfl⟩⟩⟩
  | pending =>
    have hq := addOrOverflow_of_inI64 (hq nofun)
    cases d <;> exact ⟨_, bind_eq_ok.2 ⟨_, hq, rfl⟩⟩
  | archived => exact ⟨acc, rfl⟩

theorem postedAmounts_cons (l : Status × I64) (legs : List (Status × I64)) :
    postedAmounts (l :: legs)
      = (if l.1 = .posted then [l.2.val] else []) ++ postedAmounts legs := by
  unfold postedAmounts
  by_cases h : l.1 = .posted
  · rw [if_pos h, List.filter_cons_of_pos (by simpa using h)]
    rfl
  · rw [if_neg h, List.filter_cons_of_neg (by simpa using h)]
    rfl

theorem liveAmounts_cons (l : Status × I64) (legs : List (Status × I64)) :
    liveAmounts (l :: legs)
      = (if l.1 ≠ .archived then [l.2.val] else []) ++ liveAmounts legs := by
  unfold liveAmounts
  by_cases h : l.1 = .archived
  · rw [if_neg (fun hne => hne h), List.filter_cons_of_neg (by simpa using h)]
    rfl
  · rw [if_pos h, List.filter_cons_of_pos (by simpa using h)]
    rfl

/-- A side counted: exact sums, the other side untouched. -/
theorem addLegs_ok :
    ∀ {legs : List (Status × I64)} {acc acc' : Tally},
      legs.foldlM (addLeg d) acc = .ok acc' →
      (postedOf d acc').val = (postedOf d acc).val + (postedAmounts legs).sum
        ∧ (pendingOf d acc').val = (pendingOf d acc).val + (liveAmounts legs).sum
        ∧ ∀ d', d' ≠ d → postedOf d' acc' = postedOf d' acc
          ∧ pendingOf d' acc' = pendingOf d' acc := by
  intro legs
  induction legs with
  | nil =>
    intro acc acc' h
    cases h
    exact ⟨by simp [postedAmounts], by simp [liveAmounts],
      fun d' _ => ⟨rfl, rfl⟩⟩
  | cons l legs ih =>
    intro acc acc' h
    rw [List.foldlM_cons] at h
    obtain ⟨acc₁, h₁, h⟩ := bind_eq_ok.1 h
    obtain ⟨hp₁, hq₁, ho₁⟩ := addLeg_ok h₁
    obtain ⟨hp, hq, ho⟩ := ih h
    refine ⟨?_, ?_, ?_⟩
    · rw [hp, hp₁, postedAmounts_cons, List.sum_append]
      by_cases hl : l.1 = .posted
      · simp only [if_pos hl, List.sum_singleton]
        omega
      · simp only [if_neg hl, List.sum_nil]
        omega
    · rw [hq, hq₁, liveAmounts_cons, List.sum_append]
      by_cases hl : l.1 ≠ .archived
      · simp only [if_pos hl, List.sum_singleton]
        omega
      · simp only [if_neg hl, List.sum_nil]
        omega
    · intro d' hd'
      exact ⟨(ho d' hd').1.trans (ho₁ d' hd').1, (ho d' hd').2.trans (ho₁ d' hd').2⟩

/-- A side is counted in any order where what goes up and what goes down
each fit. -/
theorem addLegs_of_bounds :
    ∀ {legs : List (Status × I64)} {acc : Tally},
      -9223372036854775808 ≤ (postedOf d acc).val + downs (postedAmounts legs) →
      (postedOf d acc).val + ups (postedAmounts legs) ≤ 9223372036854775807 →
      -9223372036854775808 ≤ (pendingOf d acc).val + downs (liveAmounts legs) →
      (pendingOf d acc).val + ups (liveAmounts legs) ≤ 9223372036854775807 →
      ∃ acc', legs.foldlM (addLeg d) acc = .ok acc' := by
  intro legs
  induction legs with
  | nil =>
    intro acc _ _ _ _
    exact ⟨acc, rfl⟩
  | cons l legs ih =>
    intro acc hpl hpu hql hqu
    rw [postedAmounts_cons, downs_append] at hpl
    rw [postedAmounts_cons, ups_append] at hpu
    rw [liveAmounts_cons, downs_append] at hql
    rw [liveAmounts_cons, ups_append] at hqu
    have hd₁ := downs_nonpos (postedAmounts legs)
    have hd₂ := downs_nonpos (liveAmounts legs)
    have hu₁ := ups_nonneg (postedAmounts legs)
    have hu₂ := ups_nonneg (liveAmounts legs)
    obtain ⟨acc₁, h₁⟩ := @addLeg_of_inI64 d acc l
      (by
        intro hl
        simp only [if_pos hl, downs_cons, downs_nil, ups_cons, ups_nil]
          at hpl hpu
        exact ⟨by omega, by omega⟩)
      (by
        intro hl
        simp only [if_pos hl, downs_cons, downs_nil, ups_cons, ups_nil]
          at hql hqu
        exact ⟨by omega, by omega⟩)
    obtain ⟨hp, hq, -⟩ := addLeg_ok h₁
    obtain ⟨acc', h'⟩ := @ih acc₁
      (by
        rw [hp]
        by_cases hl : l.1 = .posted
        · simp only [if_pos hl, downs_cons, downs_nil] at hpl ⊢
          omega
        · simp only [if_neg hl, downs_nil] at hpl ⊢
          omega)
      (by
        rw [hp]
        by_cases hl : l.1 = .posted
        · simp only [if_pos hl, ups_cons, ups_nil] at hpu ⊢
          omega
        · simp only [if_neg hl, ups_nil] at hpu ⊢
          omega)
      (by
        rw [hq]
        by_cases hl : l.1 ≠ .archived
        · simp only [if_pos hl, downs_cons, downs_nil] at hql ⊢
          omega
        · simp only [if_neg hl, downs_nil] at hql ⊢
          omega)
      (by
        rw [hq]
        by_cases hl : l.1 ≠ .archived
        · simp only [if_pos hl, ups_cons, ups_nil] at hqu ⊢
          omega
        · simp only [if_neg hl, ups_nil] at hqu ⊢
          omega)
    exact ⟨acc', by rw [List.foldlM_cons, h₁]; exact h'⟩

-- ==== in every order

section

variable {sj : SerdeJson} {view : List (Fact LedgerProp)} {G : LedgerGraph}
  {a : AccountId} {c : Currency}

def Readable (sj : SerdeJson) (G : LedgerGraph) (a : AccountId) (c : Currency) : Prop :=
  ∀ d, ∀ e ∈ G.inEdges a.uuid (entryType d), ∃ l, G.leg sj a c e = .ok l

def legs (sj : SerdeJson) (G : LedgerGraph) (a : AccountId) (c : Currency)
    (d : Direction) : List (Status × I64) :=
  (G.inEdges a.uuid (entryType d)).map (G.legD sj a c)

theorem leg_eq_legD {e : Edge} (h : ∃ l, G.leg sj a c e = .ok l) :
    G.leg sj a c e = .ok (G.legD sj a c e) := by
  obtain ⟨l, hl⟩ := h
  rw [hl, legD_of_ok hl]

theorem tallyIn_eq (h : Represents view G) (hread : Readable sj G a c)
    (ord : RowOrder (Fact LedgerProp)) :
    tallyIn sj ord view a c
      = ((GraphHandle.inEdgesIn ord view a.uuid ledgerDebit).map
          (G.legD sj a c)).foldlM (addLeg .debit) Tally.zero
        >>= ((GraphHandle.inEdgesIn ord view a.uuid ledgerCredit).map
          (G.legD sj a c)).foldlM (addLeg .credit) := by
  have hside : ∀ (d : Direction) (acc : Tally),
      (GraphHandle.inEdgesIn ord view a.uuid (entryType d)).foldlM
        (fun acc edge => tallyEdge a c d
          (GraphHandle.propertiesIn sj ord view (.edge edge.id))
          (GraphHandle.propertiesIn sj ord view (.vertex edge.fromId)) acc)
        acc
      = ((GraphHandle.inEdgesIn ord view a.uuid (entryType d)).map
        (G.legD sj a c)).foldlM (addLeg d) acc := by
    intro d acc
    unfold tallyEdge
    simp only [readLeg_eq h]
    refine foldlM_read ?_ acc
    intro e he
    exact leg_eq_legD (hread d e ((h.inEdgesIn_perm ord _ _).mem_iff.1 he))
  unfold tallyIn
  rw [List.foldlM_cons, hside]
  show _ >>= _ = _ >>= _
  congr 1
  funext acc
  rw [List.foldlM_cons, hside]
  show _ >>= pure = _
  exact bind_pure _

variable {ord : RowOrder (Fact LedgerProp)} {t : Tally}

/-- A tally that succeeded has read every leg. -/
theorem readable_of_tallyIn (h : Represents view G)
    (ht : tallyIn sj ord view a c = .ok t) : Readable sj G a c := by
  unfold tallyIn at ht
  rw [List.foldlM_cons] at ht
  obtain ⟨acc₁, h₁, ht⟩ := bind_eq_ok.1 ht
  rw [List.foldlM_cons] at ht
  obtain ⟨acc₂, h₂, -⟩ := bind_eq_ok.1 ht
  have hside : ∀ (d : Direction) (acc acc' : Tally),
      (GraphHandle.inEdgesIn ord view a.uuid (entryType d)).foldlM
        (fun acc edge => tallyEdge a c d
          (GraphHandle.propertiesIn sj ord view (.edge edge.id))
          (GraphHandle.propertiesIn sj ord view (.vertex edge.fromId)) acc)
        acc = .ok acc' →
      ∀ e ∈ G.inEdges a.uuid (entryType d), ∃ l, G.leg sj a c e = .ok l := by
    intro d acc acc' hfold e he
    unfold tallyEdge at hfold
    simp only [readLeg_eq h] at hfold
    exact read_of_foldlM_ok hfold e ((h.inEdgesIn_perm ord _ _).mem_iff.2 he)
  intro d
  cases d with
  | debit => exact hside .debit _ _ h₁
  | credit => exact hside .credit _ _ h₂

/-- The tally depends on the inbound edges of the account and on their
legs. -/
theorem tallyIn_congr {view' : List (Fact LedgerProp)} {G' : LedgerGraph}
    (h : Represents view G) (h' : Represents view' G')
    (hedges : ∀ d, G'.inEdges a.uuid (entryType d) = G.inEdges a.uuid (entryType d))
    (hlegs : ∀ d, ∀ e ∈ G.inEdges a.uuid (entryType d),
      G'.leg sj a c e = G.leg sj a c e) (ord : RowOrder (Fact LedgerProp)) :
    tallyIn sj ord view' a c = tallyIn sj ord view a c := by
  unfold tallyIn
  refine foldlM_congr ?_ _
  intro d _ acc
  have hrows : GraphHandle.inEdgesIn ord view' a.uuid (entryType d)
      = GraphHandle.inEdgesIn ord view a.uuid (entryType d) := by
    rw [h.inEdgesIn_eq, h'.inEdgesIn_eq, hedges]
  rw [hrows]
  refine foldlM_congr ?_ acc
  intro e he acc
  unfold tallyEdge
  rw [readLeg_eq h, readLeg_eq h', hlegs d e ((h.inEdgesIn_perm ord _ _).mem_iff.1 he)]

theorem legs_perm (sj : SerdeJson) (a : AccountId) (c : Currency)
    (h : Represents view G) (ord : RowOrder (Fact LedgerProp)) (d : Direction) :
    ((GraphHandle.inEdgesIn ord view a.uuid (entryType d)).map
      (G.legD sj a c)).Perm (legs sj G a c d) :=
  (h.inEdgesIn_perm ord _ _).map _

theorem tallyIn_exact (h : Represents view G)
    (ht : tallyIn sj ord view a c = .ok t) (d : Direction) :
    (postedOf d t).val = (postedAmounts (legs sj G a c d)).sum
      ∧ (pendingOf d t).val = (liveAmounts (legs sj G a c d)).sum := by
  rw [tallyIn_eq h (readable_of_tallyIn h ht)] at ht
  obtain ⟨t₁, h₁, h₂⟩ := bind_eq_ok.1 ht
  obtain ⟨hp₁, hq₁, ho₁⟩ := addLegs_ok h₁
  obtain ⟨hp₂, hq₂, ho₂⟩ := addLegs_ok h₂
  have hperm := legs_perm sj a c h ord d
  rw [← (postedAmounts_perm hperm).sum_eq, ← (liveAmounts_perm hperm).sum_eq]
  cases d with
  | debit =>
    have hdebit := ho₂ .debit nofun
    rw [hdebit.1, hdebit.2, hp₁, hq₁]
    exact ⟨zero_add _, zero_add _⟩
  | credit =>
    have hcredit := ho₁ .credit nofun
    rw [hp₂, hq₂, hcredit.1, hcredit.2]
    exact ⟨zero_add _, zero_add _⟩

/-- Two orders that both succeed tally the same. -/
theorem tallyIn_unique (h : Represents view G)
    {ord' : RowOrder (Fact LedgerProp)} {t' : Tally} (ht : tallyIn sj ord view a c = .ok t)
    (ht' : tallyIn sj ord' view a c = .ok t') : t = t' := by
  have hside : ∀ d, postedOf d t = postedOf d t' ∧ pendingOf d t = pendingOf d t' := by
    intro d
    obtain ⟨hp, hq⟩ := tallyIn_exact h ht d
    obtain ⟨hp', hq'⟩ := tallyIn_exact h ht' d
    exact ⟨I64.ext (hp.trans hp'.symm), I64.ext (hq.trans hq'.symm)⟩
  obtain ⟨pd, pc, qd, qc⟩ := t
  obtain ⟨pd', pc', qd', qc'⟩ := t'
  obtain ⟨hpd, hqd⟩ := hside .debit
  obtain ⟨hpc, hqc⟩ := hside .credit
  rw [Tally.mk.injEq]
  exact ⟨hpd, hpc, hqd, hqc⟩

theorem tallyIn_of_fits (h : Represents view G) (hread : Readable sj G a c)
    (hfits : ∀ d, Fits (liveAmounts (legs sj G a c d)))
    (ord : RowOrder (Fact LedgerProp)) :
    ∃ t, tallyIn sj ord view a c = .ok t := by
  have hbounds : ∀ d (acc : Tally), (postedOf d acc).val = 0 →
      (pendingOf d acc).val = 0 →
      ∃ acc', ((GraphHandle.inEdgesIn ord view a.uuid (entryType d)).map
        (G.legD sj a c)).foldlM (addLeg d) acc = .ok acc' := by
    intro d acc hp hq
    have hperm := legs_perm sj a c h ord d
    have hfit := (hfits d).perm (liveAmounts_perm hperm).symm
    have hsub := postedAmounts_sublist
      ((GraphHandle.inEdgesIn ord view a.uuid (entryType d)).map (G.legD sj a c))
    have hu := ups_sublist hsub
    have hd := downs_sublist hsub
    obtain ⟨hlo, hhi⟩ := hfit
    refine addLegs_of_bounds ?_ ?_ ?_ ?_ <;> omega
  obtain ⟨t₁, h₁⟩ := hbounds .debit Tally.zero rfl rfl
  obtain ⟨-, -, ho₁⟩ := addLegs_ok h₁
  have hcredit := ho₁ .credit nofun
  obtain ⟨t, h₂⟩ := hbounds .credit t₁ (by rw [hcredit.1]; rfl) (by rw [hcredit.2]; rfl)
  exact ⟨t, by rw [tallyIn_eq h hread]; exact bind_eq_ok.2 ⟨t₁, h₁, h₂⟩⟩

theorem filter_filterMap_comm {α β : Type} {f : α → Option β} {p : α → Bool}
    {q : β → Bool} (h : ∀ x y, f x = some y → p x = q y) (l : List α) :
    (l.filter p).filterMap f = (l.filterMap f).filter q := by
  induction l with
  | nil => rfl
  | cons x l ih =>
    cases hf : f x with
    | none =>
      rw [List.filterMap_cons_none hf]
      cases hp : p x with
      | true =>
        rw [List.filter_cons_of_pos hp, List.filterMap_cons_none hf, ih]
      | false =>
        rw [List.filter_cons_of_neg (by simp [hp]), ih]
    | some y =>
      have hxy := h x y hf
      rw [List.filterMap_cons_some hf]
      cases hp : p x with
      | true =>
        rw [List.filter_cons_of_pos hp, List.filterMap_cons_some hf,
          List.filter_cons_of_pos (by rw [← hxy, hp]), ih]
      | false =>
        rw [List.filter_cons_of_neg (by simp [hp]),
          List.filter_cons_of_neg (by simp [← hxy, hp]), ih]

def edgesFirst (q : EdgeId → Uuid → Bool) : RowOrder (Fact LedgerProp) :=
  .first fun f => match f with
    | .edgeFrom e v => q e v
    | _ => false

theorem inEdgesIn_edgesFirst (h : Represents view G)
    (q : EdgeId → Uuid → Bool) (v : Uuid) (et : String) :
    GraphHandle.inEdgesIn (edgesFirst q) view v et
      = (G.inEdges v et).filter (fun e => q e.id e.fromId)
        ++ (G.inEdges v et).filter fun e => !q e.id e.fromId := by
  rw [← h.inEdgesIn_asserted v et]
  unfold GraphHandle.inEdgesIn edgesFirst RowOrder.first RowOrder.asserted
  rw [List.filterMap_append]
  congr 1
  · refine filter_filterMap_comm ?_ _
    intro f e hf
    cases f <;> cases hf
    rfl
  · refine filter_filterMap_comm ?_ _
    intro f e hf
    cases f <;> cases hf
    rfl

theorem liveAmounts_filter (p : Int → Bool) (ls : List (Status × I64)) :
    liveAmounts (ls.filter fun l => decide (l.1 ≠ .archived) && p l.2.val)
      = (liveAmounts ls).filter p := by
  induction ls with
  | nil => rfl
  | cons l ls ih =>
    rw [liveAmounts_cons, List.filter_append, ← ih]
    by_cases hl : l.1 = .archived
    · rw [List.filter_cons_of_neg (by simp [hl]), if_neg (fun hne => hne hl)]
      rfl
    · rw [if_pos hl]
      cases hp : p l.2.val with
      | true =>
        rw [List.filter_cons_of_pos (by simp [hl, hp]), liveAmounts_cons, if_pos hl]
        simp [hp]
      | false =>
        rw [List.filter_cons_of_neg (by simp [hl, hp])]
        simp [hp]

theorem running_total (h : Represents view G)
    (hall : ∀ ord, ∃ t, tallyIn sj ord view a c = .ok t) (d : Direction) (p : Int → Bool) :
    InI64 ((liveAmounts (legs sj G a c d)).filter p).sum := by
  let test : Status × I64 → Bool := fun l =>
    decide (l.1 ≠ .archived) && p l.2.val
  let q : EdgeId → Uuid → Bool := fun e v =>
    test (G.legD sj a c ⟨e, v, entryType d, a.uuid⟩)
  have hq : ∀ e : Edge, q e.id e.fromId = test (G.legD sj a c e) := fun e =>
    rfl
  have hread : Readable sj G a c := by
    obtain ⟨t, ht⟩ := hall .asserted
    exact readable_of_tallyIn h ht
  have hfirst : (GraphHandle.inEdgesIn (edgesFirst q) view a.uuid
      (entryType d)).map (G.legD sj a c)
      = (legs sj G a c d).filter test ++ (legs sj G a c d).filter fun l => !test l := by
    rw [inEdgesIn_edgesFirst h, List.map_append]
    unfold legs
    rw [List.filter_map, List.filter_map]
    rfl
  have hmid : ∀ acc acc' : Tally, (pendingOf d acc).val = 0 →
      ((GraphHandle.inEdgesIn (edgesFirst q) view a.uuid
        (entryType d)).map (G.legD sj a c)).foldlM (addLeg d) acc
        = .ok acc' →
      InI64 ((liveAmounts (legs sj G a c d)).filter p).sum := by
    intro acc acc' hzero hfold
    rw [hfirst, List.foldlM_append] at hfold
    obtain ⟨mid, hmid, -⟩ := bind_eq_ok.1 hfold
    obtain ⟨-, hpending, -⟩ := addLegs_ok hmid
    rw [liveAmounts_filter, hzero, zero_add] at hpending
    rw [← hpending]
    exact (pendingOf d mid).inRange
  obtain ⟨t, ht⟩ := hall (edgesFirst q)
  rw [tallyIn_eq h hread] at ht
  obtain ⟨t₁, h₁, h₂⟩ := bind_eq_ok.1 ht
  cases d with
  | debit => exact hmid _ _ rfl h₁
  | credit =>
    obtain ⟨-, -, ho⟩ := addLegs_ok h₁
    refine hmid t₁ t ?_ h₂
    rw [(ho .credit nofun).2]
    rfl

/-- **Every order succeeds exactly where the legs can be read and each
side fits.** -/
theorem tally_every_order (h : Represents view G) :
    (∀ ord, ∃ t, tallyIn sj ord view a c = .ok t) ↔
      Readable sj G a c ∧ ∀ d, Fits (liveAmounts (legs sj G a c d)) := by
  constructor
  · intro hall
    refine ⟨?_, ?_⟩
    · obtain ⟨t, ht⟩ := hall .asserted
      exact readable_of_tallyIn h ht
    · intro d
      have hu := running_total h hall d fun x => 0 < x
      have hd := running_total h hall d fun x => x < 0
      rw [sum_filter_pos] at hu
      rw [sum_filter_neg] at hd
      exact ⟨hd.1, hu.2⟩
  · intro ⟨hread, hfits⟩ ord
    exact tallyIn_of_fits h hread hfits ord

end

end OpenStandards.OpGraph

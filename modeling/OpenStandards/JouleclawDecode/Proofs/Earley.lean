/-
The recogniser has exactly the items of the chart.

`close` ends on every state, since a pass that changes something puts an
item in (`closeLoop_isSome`). The set it leaves is closed under prediction
and completion; with the items taken over the last byte it has all items of
the chart at its place, and never others (`Exact`), as long as the numbers
that the chart over the input has are 32-bit numbers (`Numbered`,
`earley_exact`). Past that a rule is taken for another (`crowded_rejects`).
-/
import OpenStandards.JouleclawDecode.Decoder
import OpenStandards.JouleclawDecode.Proofs.Automaton

namespace OpenStandards.JouleclawDecode

open Lib

-- ==== items

namespace Item

/-- The three numbers as one. -/
def number (item : Item) : Nat :=
  (item.rule.toNat * 2 ^ 32 + item.dot.toNat) * 2 ^ 32 + item.origin.toNat

theorem number_injective : Function.Injective number := by
  intro x y h
  obtain ⟨rule, dot, origin⟩ := x
  obtain ⟨rule', dot', origin'⟩ := y
  unfold number at h
  dsimp only at h
  have hr := rule.toNat_lt
  have hd := dot.toNat_lt
  have ho := origin.toNat_lt
  have hr' := rule'.toNat_lt
  have hd' := dot'.toNat_lt
  have ho' := origin'.toNat_lt
  rw [Item.mk.injEq, ← UInt32.toNat_inj, ← UInt32.toNat_inj, ← UInt32.toNat_inj]
  omega

theorem number_lt (item : Item) : item.number < 2 ^ 96 := by
  have hr := item.rule.toNat_lt
  have hd := item.dot.toNat_lt
  have ho := item.origin.toNat_lt
  unfold number
  omega

instance : Std.TransOrd Item :=
  inferInstanceAs (Std.TransCmp (compareLex (compareOn rule)
    (compareLex (compareOn dot) (compareOn origin))))

instance : Std.LawfulEqOrd Item where
  eq_of_compare {x y} h := by
    have hlex : compareLex (compareOn rule) (compareLex (compareOn dot)
      (compareOn origin)) x y = .eq := h
    simp only [compareLex_eq_eq, compareOn, Std.compare_eq_iff_eq] at hlex
    obtain ⟨hrule, hdot, horigin⟩ := hlex
    rw [Item.mk.injEq]
    exact ⟨hrule, hdot, horigin⟩

end Item

theorem size_itemSet_le (set : ItemSet) : set.size ≤ 2 ^ 96 :=
  size_le Item.number_injective Item.number_lt set

-- ==== the rules

namespace CompiledCfg

/-- The numbers under a left side are those of its rules. -/
theorem mem_groupByLhs {rules : List CfgRule} {name : String} {i : Nat} :
    i ∈ (groupByLhs rules).getD name [] ↔ ∃ r, rules[i]? = some r ∧ r.lhs = name := by
  have hfold := foldl_mem_iff
    (fun (x : String × Nat) (byLhs : Std.TreeMap String (List Nat)) =>
      x.2 ∈ byLhs.getD x.1 [])
    (f := fun (byLhs : Std.TreeMap String (List Nat)) (r : CfgRule × Nat) =>
      byLhs.insert r.1.lhs (byLhs.getD r.1.lhs [] ++ [r.2]))
    (P := fun r x => r.1.lhs = x.1 ∧ r.2 = x.2) ?_ ∅ rules.zipIdx (name, i)
  · refine hfold.trans ?_
    simp only [Std.TreeMap.getD_emptyc, List.not_mem_nil, false_or]
    constructor
    · rintro ⟨⟨r, k⟩, hmem, hlhs, rfl⟩
      exact ⟨r, List.mem_zipIdx_iff_getElem?.1 hmem, hlhs⟩
    · rintro ⟨r, hr, hlhs⟩
      exact ⟨(r, i), List.mem_zipIdx_iff_getElem?.2 hr, hlhs, rfl⟩
  · rintro byLhs ⟨r, k⟩ ⟨name', j⟩
    dsimp only
    rw [Std.TreeMap.getD_insert]
    by_cases h : r.lhs = name'
    · subst h
      simp [eq_comm]
    · have hne : ¬ compare r.lhs name' = .eq :=
        fun hcmp => h (Std.LawfulEqOrd.eq_of_compare hcmp)
      rw [if_neg hne]
      simp [h]

theorem mem_byLhs {cfg : CompiledCfg} {name : String} {i : Nat} :
    i ∈ cfg.byLhs.getD name [] ↔ ∃ r, cfg.rules[i]? = some r ∧ r.lhs = name := by
  rw [cfg.grouped]
  exact mem_groupByLhs

theorem rule_eq {cfg : CompiledCfg} {id : UInt32} {r : CfgRule}
    (h : cfg.rules[id.toNat]? = some r) : cfg.rule id = r := by
  unfold rule
  rw [List.getD_eq_getElem?_getD, h]
  rfl

/-- The rules and their symbols have 32-bit numbers. -/
structure Fits (cfg : CompiledCfg) : Prop where
  rules : cfg.rules.length ≤ 2 ^ 32
  symbols : ∀ r ∈ cfg.rules, r.rhs.length < 2 ^ 32

end CompiledCfg

-- ==== the passes

namespace EarleyState

variable {cfg : CompiledCfg} {i : Nat}

theorem marks_put (i : Nat) : Marks (put i) := by
  intro acc item
  unfold put
  split
  · exact Or.inl rfl
  · exact Or.inr rfl

variable {acc : EarleyState × Bool} {r d j : Nat} {b : UInt8} {v : List UInt8}

theorem mem_put (hi : i < acc.1.sets.length) (item x : Item) (k : Nat) :
    x ∈ (put i acc item).1.itemsAt k ↔ x ∈ acc.1.itemsAt k ∨ k = i ∧ x = item := by
  unfold put
  split
  case isTrue h =>
    constructor
    · exact Or.inl
    · rintro (hx | ⟨rfl, rfl⟩)
      · exact hx
      · exact h
  case isFalse =>
    unfold itemsAt
    dsimp only
    rw [List.getD_eq_getElem?_getD, List.getD_eq_getElem?_getD, List.getElem?_modify]
    by_cases hk : i = k
    · subst hk
      simp only [if_true, List.getElem?_eq_getElem hi, Option.map_eq_map,
        Option.map_some, Option.getD_some, mem_insert_iff, true_and]
    · have hk' : k ≠ i := fun h => hk h.symm
      simp [hk, hk']

@[simp]
theorem length_put (i : Nat) (acc : EarleyState × Bool) (item : Item) :
    (put i acc item).1.sets.length = acc.1.sets.length := by
  unfold put
  split
  · rfl
  · exact List.length_modify ..

theorem size_put (hi : i < acc.1.sets.length) (item : Item) :
    (acc.1.itemsAt i).size ≤ ((put i acc item).1.itemsAt i).size
      ∧ (put i acc item = acc
        ∨ (acc.1.itemsAt i).size < ((put i acc item).1.itemsAt i).size) := by
  unfold put
  split
  case isTrue => exact ⟨Nat.le_refl _, Or.inl rfl⟩
  case isFalse h =>
    have hset : EarleyState.itemsAt
        { sets := acc.1.sets.modify i (·.insert item) } i = (acc.1.itemsAt i).insert item := by
      unfold itemsAt
      rw [List.getD_eq_getElem?_getD, List.getElem?_modify]
      simp [hi, List.getD_eq_getElem?_getD]
    rw [hset, Std.TreeSet.size_insert, if_neg h]
    exact ⟨Nat.le_succ _, Or.inr (Nat.lt_succ_self _)⟩

/-- The folds of a pass: the places stay, and a mark means a larger set. -/
structure Grown (i : Nat) (state : EarleyState) (acc : EarleyState × Bool) : Prop where
  length : acc.1.sets.length = state.sets.length
  size : (state.itemsAt i).size ≤ (acc.1.itemsAt i).size
  marked : acc.2 = true → (state.itemsAt i).size < (acc.1.itemsAt i).size

theorem Grown.put {state : EarleyState} (hi : i < state.sets.length)
    (h : Grown i state acc) (item : Item) :
    Grown i state (put i acc item) := by
  obtain ⟨hle, hsame⟩ := size_put (h.length ▸ hi) item
  refine ⟨(length_put ..).trans h.length, Nat.le_trans h.size hle, ?_⟩
  intro hmark
  rcases hsame with heq | hlt
  · rw [heq] at hmark ⊢
    exact h.marked hmark
  · exact Nat.lt_of_le_of_lt h.size hlt

theorem grown_pass {state : EarleyState} (hi : i < state.sets.length) :
    Grown i state (pass cfg i state) := by
  unfold pass
  refine foldl_keeps (I := Grown i state) ?_
    ⟨rfl, Nat.le_refl _, nofun⟩
  intro acc item _ hacc
  exact foldl_keeps (fun acc x _ h => h.put hi x) hacc

/-- The loop of `close` ends on every state. -/
theorem closeLoop_isSome (cfg : CompiledCfg) {state : EarleyState} (hi : i < state.sets.length) :
    (closeLoop cfg i (2 ^ 96 + 1) state).isSome := by
  refine saturate_isSome (I := fun s => i < s.sets.length) ?_ ?_
    (fun s => size_itemSet_le (s.itemsAt i)) hi ?_
  · intro s hs
    rw [(grown_pass hs).length]
    exact hs
  · exact fun s hs hmark => (grown_pass hs).marked hmark
  · exact Nat.lt_succ_of_le (Nat.sub_le ..)

-- ==== the chart

def OnChart (cfg : CompiledCfg) (w : List UInt8) (i : Nat) (item : Item) : Prop :=
  Chart (fun (c : ByteClass) b => c.contains b = true) cfg.rules cfg.start w
    i item.rule.toNat item.dot.toNat item.origin.toNat

variable {w : List UInt8} {item x : Item} {state : EarleyState}

def itemOf (r d j : Nat) : Item :=
  { rule := UInt32.ofNat r, dot := UInt32.ofNat d,
    origin := UInt32.ofNat j }

theorem itemOf_toNat (item : Item) :
    itemOf item.rule.toNat item.dot.toNat item.origin.toNat = item := by
  unfold itemOf
  rw [UInt32.ofNat_toNat, UInt32.ofNat_toNat, UInt32.ofNat_toNat]

/-- Every rule, dot and place that the chart over the input has is a 32-bit
number. -/
def Numbered (cfg : CompiledCfg) (w : List UInt8) : Prop :=
  ∀ {i r d j : Nat}, Chart (fun (c : ByteClass) b => c.contains b = true)
    cfg.rules cfg.start w i r d j → r < 2 ^ 32 ∧ d < 2 ^ 32 ∧ j < 2 ^ 32

/-- It has no others than the grammar's rules, their symbols and the
input's places. -/
theorem numbered_of_fits (hfits : cfg.Fits) (hw : w.length < 2 ^ 32) : Numbered cfg w := by
  intro i r d j h
  obtain ⟨hji, hi, p, hp, hd, -, -⟩ := h.sound
  refine ⟨Nat.lt_of_lt_of_le (List.getElem?_eq_some_iff.1 hp).1 hfits.rules,
    Nat.lt_of_le_of_lt hd (hfits.symbols p (List.mem_of_getElem? hp)), ?_⟩
  exact Nat.lt_of_le_of_lt (Nat.le_trans hji hi) hw

theorem Numbered.left (h : Numbered cfg (w ++ v)) : Numbered cfg w := by
  intro i r d j hchart
  refine h (hchart.congr fun k hk => ?_)
  exact List.getElem?_append_left (Nat.lt_of_lt_of_le hk hchart.sound.inside)

theorem toNat_itemOf (hnum : Numbered cfg w)
    (h : Chart (fun (c : ByteClass) b => c.contains b = true) cfg.rules cfg.start w i r d j) :
    (itemOf r d j).rule.toNat = r ∧ (itemOf r d j).dot.toNat = d
      ∧ (itemOf r d j).origin.toNat = j := by
  obtain ⟨hr, hd, hj⟩ := hnum h
  exact ⟨UInt32.toNat_ofNat_of_lt' hr, UInt32.toNat_ofNat_of_lt' hd,
    UInt32.toNat_ofNat_of_lt' hj⟩

theorem onChart_itemOf (hnum : Numbered cfg w)
    (h : Chart (fun (c : ByteClass) b => c.contains b = true) cfg.rules
      cfg.start w i r d j) : OnChart cfg w i (itemOf r d j) := by
  obtain ⟨hr, hd, hj⟩ := toNat_itemOf hnum h
  unfold OnChart
  rw [hr, hd, hj]
  exact h

theorem OnChart.rule (h : OnChart cfg w i item) :
    ∃ p, cfg.rules[item.rule.toNat]? = some p ∧ cfg.rule item.rule = p
      ∧ item.next cfg = p.rhs[item.dot.toNat]?
      ∧ item.dot.toNat ≤ p.rhs.length ∧ item.origin.toNat ≤ i := by
  obtain ⟨hji, -, p, hp, hd, -, -⟩ := h.sound
  have hrule := CompiledCfg.rule_eq hp
  refine ⟨p, hp, hrule, ?_, hd, hji⟩
  unfold Item.next
  rw [hrule]

/-- The dot goes on by one and does not wrap. -/
theorem toNat_advance (hnum : Numbered cfg w)
    (h : Chart (fun (c : ByteClass) b => c.contains b = true) cfg.rules
      cfg.start w i r (item.dot.toNat + 1) j) :
    item.advance.dot.toNat = item.dot.toNat + 1 := by
  unfold Item.advance
  rw [UInt32.toNat_add]
  exact Nat.mod_eq_of_lt (hnum h).2.1

theorem follow_onChart (hnum : Numbered cfg w)
    (hstate : ∀ k ≤ i, ∀ x ∈ state.itemsAt k, OnChart cfg w k x)
    (hitem : OnChart cfg w i item) (hx : x ∈ follow cfg i state item) :
    OnChart cfg w i x := by
  obtain ⟨p, hp, hrule, hnext, hd, hji⟩ := hitem.rule
  unfold follow at hx
  split at hx
  case h_1 name hsym =>
    obtain ⟨q, hq, rfl⟩ := List.mem_map.1 hx
    obtain ⟨p', hp', hlhs⟩ := CompiledCfg.mem_byLhs.1 hq
    rw [hnext, ← hlhs] at hsym
    exact onChart_itemOf hnum (Chart.predict hitem hp hp' hsym)
  case h_2 => exact absurd hx List.not_mem_nil
  case h_3 hsym =>
    obtain ⟨parent, hparent, rfl⟩ := List.mem_map.1 hx
    obtain ⟨hmem, hwaits⟩ := List.mem_filter.1 hparent
    have hparent' :=
      hstate _ hji parent (Std.TreeSet.mem_toList.1 hmem)
    obtain ⟨p', hp', -, hnext', -, -⟩ := hparent'.rule
    have hend : item.dot.toNat = p.rhs.length := by
      rw [hnext] at hsym
      exact Nat.le_antisymm hd (List.getElem?_eq_none_iff.1 hsym)
    have hwhole : OnChart cfg w i item := hitem
    unfold OnChart at hwhole
    rw [hend] at hwhole
    have hsym' := of_decide_eq_true hwaits
    rw [hnext', hrule] at hsym'
    have hcomplete := Chart.complete hp hwhole hparent' hp' hsym'
    unfold OnChart
    rw [toNat_advance hnum hcomplete]
    exact hcomplete

-- ==== closing

/-- What `close` has done so far: the other places are as they were, and
the items of its own place are on the chart. -/
structure Closing (cfg : CompiledCfg) (w : List UInt8) (i : Nat)
    (state s : EarleyState) : Prop where
  length : s.sets.length = state.sets.length
  others : ∀ k ≠ i, ∀ x, x ∈ s.itemsAt k ↔ x ∈ state.itemsAt k
  kept : ∀ x ∈ state.itemsAt i, x ∈ s.itemsAt i
  sound : ∀ x ∈ s.itemsAt i, OnChart cfg w i x

theorem Closing.put (hi : i < state.sets.length)
    (h : Closing cfg w i state acc.1) (hx : OnChart cfg w i x) :
    Closing cfg w i state (put i acc x).1 := by
  have hlt : i < acc.1.sets.length := h.length ▸ hi
  refine ⟨(length_put ..).trans h.length, ?_, ?_, ?_⟩
  · intro k hk y
    rw [mem_put hlt, ← h.others k hk]
    simp [hk]
  · intro y hy
    exact (mem_put hlt x y i).2 (Or.inl (h.kept y hy))
  · intro y hy
    rcases (mem_put hlt x y i).1 hy with hy | ⟨-, rfl⟩
    · exact h.sound y hy
    · exact hx

theorem Closing.pass {s : EarleyState} (hnum : Numbered cfg w) (hlt : i < state.sets.length)
    (hbefore : ∀ k < i, ∀ x ∈ state.itemsAt k, OnChart cfg w k x) (h : Closing cfg w i state s) :
    Closing cfg w i state (pass cfg i s).1 := by
  unfold EarleyState.pass
  refine foldl_keeps (I := fun acc : EarleyState × Bool => Closing cfg w i state acc.1) ?_ h
  intro acc item hitem hacc
  have hstate : ∀ k ≤ i, ∀ x ∈ acc.1.itemsAt k, OnChart cfg w k x := by
    intro k hk x hx
    rcases Nat.lt_or_eq_of_le hk with hk | rfl
    · exact hbefore k hk x ((hacc.others k (Nat.ne_of_lt hk) x).1 hx)
    · exact hacc.sound x hx
  have honchart := h.sound item (Std.TreeSet.mem_toList.1 hitem)
  refine foldl_keeps
    (I := fun acc : EarleyState × Bool => Closing cfg w i state acc.1)
    ?_ hacc
  intro acc' y hy hacc'
  exact hacc'.put hlt (follow_onChart hnum hstate honchart hy)

/-- A pass that changes nothing finds in the set all that its items put
in. -/
theorem closed_of_pass {s : EarleyState} (h : (pass cfg i s).2 = false) :
    (pass cfg i s).1 = s ∧ ∀ item ∈ s.itemsAt i,
      ∀ x ∈ follow cfg i s item, x ∈ s.itemsAt i := by
  have hmarks : Marks fun (acc : EarleyState × Bool) item =>
      (follow cfg i acc.1 item).foldl (put i) acc :=
    (marks_put i).folds fun acc item => follow cfg i acc.1 item
  obtain ⟨hsame, hall⟩ := hmarks.quiet h
  refine ⟨congrArg Prod.fst hsame, ?_⟩
  intro item hitem x hx
  have hvisit := hall item (Std.TreeSet.mem_toList.2 hitem)
  have hputs := (marks_put i).quiet (congrArg Prod.snd hvisit)
  have hput := congrArg Prod.snd (hputs.2 x hx)
  unfold EarleyState.put at hput
  split at hput
  case isTrue hmem => exact hmem
  case isFalse => cases hput

/-- What `close` leaves. -/
theorem close_spec (hnum : Numbered cfg w) (hlt : i < state.sets.length)
    (hbefore : ∀ k < i, ∀ x ∈ state.itemsAt k, OnChart cfg w k x)
    (hseed : ∀ x ∈ state.itemsAt i, OnChart cfg w i x) :
    Closing cfg w i state (close cfg state i)
      ∧ ∀ item ∈ (close cfg state i).itemsAt i,
        ∀ x ∈ follow cfg i (close cfg state i) item, x ∈ (close cfg state i).itemsAt i := by
  obtain ⟨s, hs⟩ :=
    Option.isSome_iff_exists.1 (closeLoop_isSome cfg (i := i) hlt)
  have hclose : close cfg state i = s := by
    unfold close
    rw [hs, Option.getD_some]
  have hstart : Closing cfg w i state state :=
    ⟨rfl, fun _ _ _ => Iff.rfl, fun _ hx => hx, hseed⟩
  obtain ⟨c, hc, hquiet, rfl⟩ := exists_of_saturate
    (fun _ h => h.pass hnum hlt hbefore) hstart hs
  obtain ⟨hsame, hclosed⟩ := closed_of_pass hquiet
  rw [hclose, hsame]
  exact ⟨hc, hclosed⟩

-- ==== exactness

/-- The items by which a place is entered: the rules of the start at the
first, what is taken over a byte at the others. -/
def Entered (cfg : CompiledCfg) (w : List UInt8) (i : Nat) (x : Item) : Prop :=
  (i = 0 ∧ ∃ r p, cfg.rules[r]? = some p ∧ p.lhs = cfg.start ∧ x = itemOf r 0 0)
    ∨ ∃ k item c b, i = k + 1 ∧ OnChart cfg w k item
      ∧ item.next cfg = some (.term c) ∧ w[k]? = some b
      ∧ c.contains b = true ∧ x = item.advance

theorem Entered.onChart (hnum : Numbered cfg w) (h : Entered cfg w i x) : OnChart cfg w i x := by
  rcases h with ⟨rfl, r, p, hp, hlhs, rfl⟩
    | ⟨k, item, c, b, rfl, hitem, hterm, hb, hc, rfl⟩
  · exact onChart_itemOf hnum (.init hp hlhs)
  · obtain ⟨p, hp, -, hnext, -, -⟩ := hitem.rule
    rw [hnext] at hterm
    have hscan := Chart.scan hitem hp hterm hb hc
    unfold OnChart
    rw [toNat_advance hnum hscan]
    exact hscan

theorem mem_follow_predict {q : Nat} {p p' : CfgRule} (hitem : OnChart cfg w i (itemOf r d j))
    (hr : (itemOf r d j).rule.toNat = r) (hd : (itemOf r d j).dot.toNat = d)
    (hp : cfg.rules[r]? = some p) (hp' : cfg.rules[q]? = some p')
    (hnext : p.rhs[d]? = some (.nonTerm p'.lhs)) :
    itemOf q 0 i ∈ follow cfg i state (itemOf r d j) := by
  obtain ⟨p₀, hp₀, -, hnext₀, -, -⟩ := hitem.rule
  rw [hr] at hp₀
  cases hp.symm.trans hp₀
  rw [hd, hnext] at hnext₀
  unfold follow
  rw [hnext₀]
  exact List.mem_map.2 ⟨q, CompiledCfg.mem_byLhs.2 ⟨p', hp', rfl⟩, rfl⟩

/-- A set that has the items its place is entered by, and all that its
items put in, has the chart. -/
theorem mem_of_chart (hnum : Numbered cfg w)
    (hbefore : ∀ k < i, ∀ x, OnChart cfg w k x → x ∈ state.itemsAt k)
    (hentered : ∀ x, Entered cfg w i x → x ∈ state.itemsAt i)
    (hclosed : ∀ item ∈ state.itemsAt i, ∀ x ∈ follow cfg i state item,
      x ∈ state.itemsAt i) {i' : Nat} (hle : i' ≤ i)
    (h : Chart (fun (c : ByteClass) b => c.contains b = true) cfg.rules
      cfg.start w i' r d j) : itemOf r d j ∈ state.itemsAt i' := by
  induction h with
  | @init r p hp hlhs =>
    rcases Nat.lt_or_eq_of_le hle with hlt | rfl
    · exact hbefore 0 hlt _ (onChart_itemOf hnum (.init hp hlhs))
    · exact hentered _ (Or.inl ⟨rfl, r, p, hp, hlhs, rfl⟩)
  | @predict k r d j q p p' hitem hp hp' hnext ih =>
    rcases Nat.lt_or_eq_of_le hle with hlt | rfl
    · exact hbefore k hlt _ (onChart_itemOf hnum (.predict hitem hp hp' hnext))
    · obtain ⟨hr, hd, -⟩ := toNat_itemOf hnum hitem
      exact hclosed _ (ih hle) _ (mem_follow_predict
        (onChart_itemOf hnum hitem) hr hd hp hp' hnext)
  | @scan k r d j p c b hitem hp hnext hb hc ih =>
    have honitem := onChart_itemOf hnum hitem
    obtain ⟨hr, hd, hj⟩ := toNat_itemOf hnum hitem
    rcases Nat.lt_or_eq_of_le hle with hlt | heq
    · exact hbefore (k + 1) hlt _ (onChart_itemOf hnum (.scan hitem hp hnext hb hc))
    · rw [heq]
      obtain ⟨p₀, hp₀, -, hnext₀, -, -⟩ := honitem.rule
      rw [hr] at hp₀
      cases hp.symm.trans hp₀
      rw [hd, hnext] at hnext₀
      refine hentered _ (Or.inr ⟨k, itemOf r d j, c, b, heq.symm, honitem, hnext₀, hb, hc, ?_⟩)
      unfold Item.advance itemOf
      rw [Item.mk.injEq, UInt32.ofNat_add]
      exact ⟨rfl, rfl, rfl⟩
  | @complete k r d j q m p p' hp' hwhole hitem hp hnext ih ih' =>
    have hmk := hwhole.sound.order
    rcases Nat.lt_or_eq_of_le hle with hlt | rfl
    · exact hbefore k hlt _ (onChart_itemOf hnum (.complete hp' hwhole hitem hp hnext))
    · have hparent := ih' (Nat.le_trans hmk hle)
      have honwhole := onChart_itemOf hnum hwhole
      have honparent := onChart_itemOf hnum hitem
      obtain ⟨hq, hend, horigin⟩ := toNat_itemOf hnum hwhole
      obtain ⟨hr, hd, -⟩ := toNat_itemOf hnum hitem
      obtain ⟨p₁, hp₁, hrule₁, hnext₁, -, -⟩ := honwhole.rule
      obtain ⟨p₀, hp₀, -, hnext₀, -, -⟩ := honparent.rule
      rw [hq] at hp₁
      cases hp'.symm.trans hp₁
      rw [hr] at hp₀
      cases hp.symm.trans hp₀
      rw [hend, List.getElem?_eq_none (Nat.le_refl _)] at hnext₁
      rw [hd, hnext] at hnext₀
      refine hclosed _ (ih hle) _ ?_
      unfold follow
      rw [hnext₁]
      refine List.mem_map.2 ⟨itemOf r d j, ?_, ?_⟩
      · refine List.mem_filter.2 ⟨?_, ?_⟩
        · rw [horigin]
          exact Std.TreeSet.mem_toList.2 hparent
        · rw [hnext₀, hrule₁]
          exact decide_eq_true rfl
      · unfold Item.advance itemOf
        rw [Item.mk.injEq, UInt32.ofNat_add]
        exact ⟨rfl, rfl, rfl⟩

/-- The sets of the recogniser are the places of the chart. -/
structure Exact (cfg : CompiledCfg) (w : List UInt8) (state : EarleyState) : Prop where
  length : state.sets.length = w.length + 1
  items : ∀ i ≤ w.length, ∀ x, x ∈ state.itemsAt i ↔ OnChart cfg w i x

theorem Exact.place (h : Exact cfg w state) : state.place = w.length := by
  unfold EarleyState.place
  rw [h.length, Nat.add_sub_cancel]

theorem exact_close (hnum : Numbered cfg w) (hlength : state.sets.length = w.length + 1)
    (hbefore : ∀ k < w.length, ∀ x, x ∈ state.itemsAt k ↔ OnChart cfg w k x)
    (hentered : ∀ x, x ∈ state.itemsAt w.length ↔ Entered cfg w w.length x) :
    Exact cfg w (close cfg state w.length) := by
  have hlt : w.length < state.sets.length := hlength ▸ Nat.lt_succ_self _
  obtain ⟨hclosing, hclosed⟩ := close_spec hnum hlt
    (fun k hk x hx => (hbefore k hk x).1 hx)
    (fun x hx => ((hentered x).1 hx).onChart hnum)
  have hearlier : ∀ k < w.length, ∀ x,
      x ∈ (close cfg state w.length).itemsAt k ↔ OnChart cfg w k x :=
    fun k hk x =>
      (hclosing.others k (Nat.ne_of_lt hk) x).trans (hbefore k hk x)
  refine ⟨hclosing.length.trans hlength, ?_⟩
  intro k hk x
  rcases Nat.lt_or_eq_of_le hk with hk | rfl
  · exact hearlier k hk x
  · refine ⟨fun hx => hclosing.sound x hx, fun hx => ?_⟩
    have hmem := mem_of_chart hnum
      (fun k hk x => (hearlier k hk x).2)
      (fun x hx => hclosing.kept x ((hentered x).2 hx)) hclosed
      (Nat.le_refl _) hx
    rwa [itemOf_toNat] at hmem

-- ==== steps

theorem mem_scan {set : ItemSet} :
    x ∈ scan cfg b set ↔ ∃ item ∈ set, ∃ c,
      item.next cfg = some (.term c) ∧ c.contains b = true ∧ x = item.advance := by
  unfold scan
  refine (foldl_mem_iff (fun x (set : ItemSet) => x ∈ set)
    (P := fun item x => ∃ c, item.next cfg = some (.term c)
      ∧ c.contains b = true ∧ x = item.advance) ?_ ∅ set.toList x).trans ?_
  · intro next item y
    split
    case h_1 c hterm =>
      split
      case isTrue hc =>
        rw [mem_insert_iff]
        simp [hterm, hc]
      case isFalse hc => simp [hterm, hc]
    case h_2 hterm =>
      constructor
      · exact Or.inl
      · rintro (hy | ⟨c, hc, -⟩)
        · exact hy
        · exact absurd hc (hterm c)
  · simp [Std.TreeSet.mem_toList]

theorem isEmpty_iff {set : ItemSet} :
    set.isEmpty = true ↔ ∀ x, x ∉ set :=
  Std.TreeSet.isEmpty_iff_forall_not_mem

theorem step_isSome_iff :
    (state.step cfg b).isSome ↔ ∃ item ∈ state.itemsAt state.place, ∃ c,
      item.next cfg = some (.term c) ∧ c.contains b = true := by
  have hscan : (∃ item ∈ state.itemsAt state.place, ∃ c,
      item.next cfg = some (.term c) ∧ c.contains b = true)
        ↔ ∃ x, x ∈ scan cfg b (state.itemsAt state.place) := by
    constructor
    · rintro ⟨item, hitem, c, hterm, hc⟩
      exact ⟨_, mem_scan.2 ⟨item, hitem, c, hterm, hc, rfl⟩⟩
    · rintro ⟨x, hx⟩
      obtain ⟨item, hitem, c, hterm, hc, -⟩ := mem_scan.1 hx
      exact ⟨item, hitem, c, hterm, hc⟩
  rw [hscan]
  dsimp only [step]
  split
  case isTrue hempty =>
    constructor
    · exact nofun
    · rintro ⟨x, hx⟩
      exact absurd hx (isEmpty_iff.1 hempty x)
  case isFalse hempty =>
    refine ⟨fun _ => ?_, fun _ => rfl⟩
    by_contra hnone
    exact hempty (isEmpty_iff.2 fun x hx => hnone ⟨x, hx⟩)

/-- The permitted bytes are those that can follow. -/
theorem contains_permittedNext :
    (state.permittedNext cfg).contains b = true ↔ (state.step cfg b).isSome := by
  rw [step_isSome_iff]
  unfold permittedNext
  refine (foldl_mem_iff
    (fun (b : UInt8) (c : ByteClass) => c.contains b = true)
    (P := fun item b => ∃ c, item.next cfg = some (.term c) ∧ c.contains b = true) ?_ .empty
    (state.itemsAt state.place).toList b).trans ?_
  · intro acc item d
    split
    case h_1 c hterm => simp [hterm]
    case h_2 hterm =>
      constructor
      · exact Or.inl
      · rintro (hd | ⟨c, hc, -⟩)
        · exact hd
        · exact absurd hc (hterm c)
  · simp [Std.TreeSet.mem_toList]

theorem exact_new (hnum : Numbered cfg []) : Exact cfg [] (new cfg) := by
  have hseed : ∀ x, x ∈ (cfg.byLhs.getD cfg.start []).foldl
      (fun set rid => set.insert
        { rule := UInt32.ofNat rid, dot := 0, origin := 0 })
      (∅ : ItemSet) ↔ ∃ rid ∈ cfg.byLhs.getD cfg.start [], x = itemOf rid 0 0 := by
    intro x
    have hfold := foldl_mem_iff (fun x (set : ItemSet) => x ∈ set)
      (f := fun (set : ItemSet) (rid : Nat) => set.insert
        { rule := UInt32.ofNat rid, dot := 0, origin := 0 })
      (P := fun rid x => x = itemOf rid 0 0)
      (fun set rid y => mem_insert_iff) ∅ (cfg.byLhs.getD cfg.start []) x
    refine hfold.trans ?_
    simp
  refine exact_close hnum rfl nofun ?_
  intro x
  refine (hseed x).trans ?_
  constructor
  · rintro ⟨rid, hrid, rfl⟩
    obtain ⟨p, hp, hlhs⟩ := CompiledCfg.mem_byLhs.1 hrid
    exact Or.inl ⟨rfl, rid, p, hp, hlhs, rfl⟩
  · rintro (⟨-, r, p, hp, hlhs, rfl⟩ | ⟨k, -, -, -, hk, -⟩)
    · exact ⟨r, CompiledCfg.mem_byLhs.2 ⟨p, hp, hlhs⟩, rfl⟩
    · cases hk

/-- The chart up to a place does not depend on the bytes after it. -/
theorem onChart_append (hi : i ≤ w.length) : OnChart cfg (w ++ v) i x ↔ OnChart cfg w i x := by
  have hsame : ∀ k < i, (w ++ v)[k]? = w[k]? := fun k hk =>
    List.getElem?_append_left (Nat.lt_of_lt_of_le hk hi)
  exact ⟨fun h => h.congr fun k hk => (hsame k hk).symm,
    fun h => h.congr hsame⟩

theorem entered_snoc (h : Exact cfg w state) :
    x ∈ scan cfg b (state.itemsAt state.place) ↔ Entered cfg (w ++ [b]) (w.length + 1) x := by
  rw [mem_scan, h.place]
  constructor
  · rintro ⟨item, hitem, c, hterm, hc, rfl⟩
    have hon := (h.items _ (Nat.le_refl _) item).1 hitem
    exact Or.inr ⟨w.length, item, c, b, rfl,
      (onChart_append (Nat.le_refl _)).2 hon, hterm,
      List.getElem?_concat_length, hc, rfl⟩
  · rintro (⟨hzero, -⟩ | ⟨k, item, c, b', hk, hon, hterm, hb, hc, rfl⟩)
    · cases hzero
    · cases hk
      rw [List.getElem?_concat_length] at hb
      cases hb
      have hitem := (onChart_append (Nat.le_refl _)).1 hon
      exact ⟨item, (h.items _ (Nat.le_refl _) item).2 hitem, c, hterm, hc,
        rfl⟩

theorem exists_entered_iff (hnum : Numbered cfg w) {k : Nat} :
    (∃ x, Entered cfg w (k + 1) x) ↔ ∃ x, OnChart cfg w (k + 1) x := by
  constructor
  · rintro ⟨x, hx⟩
    exact ⟨x, hx.onChart hnum⟩
  · rintro ⟨x, hx⟩
    obtain ⟨r, d, j, p, c, b, hbefore, hp, hterm, hb, hc⟩ :=
      Chart.scanned hx
    have hon := onChart_itemOf hnum hbefore
    obtain ⟨hr, hdot, -⟩ := toNat_itemOf hnum hbefore
    obtain ⟨p₀, hp₀, -, hnext, -, -⟩ := hon.rule
    rw [hr] at hp₀
    cases hp.symm.trans hp₀
    rw [hdot, hterm] at hnext
    exact ⟨_, Or.inr ⟨k, _, c, b, rfl, hon, hnext, hb, hc, rfl⟩⟩

/-- A byte can follow when there are items at the place after it. -/
theorem Exact.step_isSome_iff (hnum : Numbered cfg (w ++ [b])) (h : Exact cfg w state) :
    (state.step cfg b).isSome ↔ ∃ x, OnChart cfg (w ++ [b]) (w.length + 1) x := by
  rw [EarleyState.step_isSome_iff, ← exists_entered_iff hnum]
  constructor
  · rintro ⟨item, hitem, c, hterm, hc⟩
    have hmem := mem_scan.2 ⟨item, hitem, c, hterm, hc, rfl⟩
    exact ⟨_, (entered_snoc h).1 hmem⟩
  · rintro ⟨x, hx⟩
    obtain ⟨item, hitem, c, hterm, hc, -⟩ :=
      mem_scan.1 ((entered_snoc h).2 hx)
    exact ⟨item, hitem, c, hterm, hc⟩

theorem Exact.step (hnum : Numbered cfg (w ++ [b])) (h : Exact cfg w state) {next : EarleyState}
    (hstep : state.step cfg b = some next) : Exact cfg (w ++ [b]) next := by
  have hlength : (w ++ [b]).length = w.length + 1 := List.length_append
  dsimp only [EarleyState.step] at hstep
  split at hstep
  case isTrue => cases hstep
  case isFalse =>
    cases hstep
    rw [h.place, ← hlength, ← h.place]
    refine exact_close hnum ?_ ?_ ?_
    · rw [hlength, List.length_append, h.length]
      rfl
    · intro k hk x
      rw [hlength] at hk
      have hle : k ≤ w.length := Nat.le_of_lt_succ hk
      rw [onChart_append hle, ← h.items k hle]
      unfold itemsAt
      rw [List.getD_eq_getElem?_getD, List.getD_eq_getElem?_getD,
        List.getElem?_append_left (by rw [h.length]; exact hk),
        List.getD_eq_getElem?_getD]
    · intro x
      rw [hlength, ← entered_snoc h]
      unfold itemsAt
      rw [List.getD_eq_getElem?_getD, ← h.length, List.getElem?_concat_length, Option.getD_some]

theorem Exact.steps (hnum : Numbered cfg (w ++ v)) (h : Exact cfg w state) {next : EarleyState}
    (hsteps : steps cfg state v = some next) : Exact cfg (w ++ v) next := by
  induction v generalizing w state with
  | nil =>
    cases hsteps
    rwa [List.append_nil]
  | cons b v ih =>
    rw [List.append_cons] at hnum ⊢
    unfold EarleyState.steps at hsteps
    cases hstep : state.step cfg b with
    | none =>
      rw [hstep] at hsteps
      cases hsteps
    | some s =>
      rw [hstep] at hsteps
      exact ih hnum (h.step hnum.left hstep) hsteps

/-- Bytes can follow one after the other when there are items at the place
they lead to. -/
theorem Exact.steps_isSome_iff (hnum : Numbered cfg (w ++ v)) (h : Exact cfg w state) :
    (EarleyState.steps cfg state v).isSome
      ↔ v = [] ∨ ∃ x, OnChart cfg (w ++ v) (w ++ v).length x := by
  induction v generalizing w state with
  | nil => exact ⟨fun _ => Or.inl rfl, fun _ => rfl⟩
  | cons b v ih =>
    have hlength : (w ++ [b]).length = w.length + 1 := List.length_append
    rw [List.append_cons] at hnum ⊢
    -- an item at the end has an item over this byte before it
    have hover : ∀ x, OnChart cfg (w ++ [b] ++ v) (w ++ [b] ++ v).length x →
        ∃ y, OnChart cfg (w ++ [b]) (w.length + 1) y := by
      intro x hx
      have hle : w.length + 1 ≤ (w ++ [b] ++ v).length := by
        rw [List.length_append, hlength]
        exact Nat.le_add_right ..
      obtain ⟨r, d, j, hchart⟩ := Chart.exists_of_le hx hle
      refine ⟨itemOf r d j, ?_⟩
      rw [← onChart_append (v := v) (Nat.le_of_eq hlength.symm)]
      exact onChart_itemOf hnum hchart
    unfold EarleyState.steps
    cases hstep : state.step cfg b with
    | none =>
      refine ⟨nofun, ?_⟩
      rintro (hnil | ⟨x, hx⟩)
      · cases hnil
      · have hsome := (h.step_isSome_iff hnum.left).2 (hover x hx)
        rw [hstep] at hsome
        cases hsome
    | some s =>
      dsimp only
      rw [ih hnum (h.step hnum.left hstep)]
      constructor
      · rintro (rfl | hx)
        · have hsome : (state.step cfg b).isSome := by
            rw [hstep]
            rfl
          obtain ⟨x, hx⟩ := (h.step_isSome_iff hnum.left).1 hsome
          refine Or.inr ⟨x, ?_⟩
          rwa [List.append_nil, hlength]
        · exact Or.inr hx
      · rintro (hnil | hx)
        · cases hnil
        · exact Or.inr hx

-- ==== acceptance

theorem Exact.isAccept_iff (hnum : Numbered cfg w) (h : Exact cfg w state) :
    state.isAccept cfg = true
      ↔ Derives (fun (c : ByteClass) b => c.contains b = true) cfg.rules
        [.nonTerm cfg.start] w := by
  rw [← chart_iff_derives]
  unfold EarleyState.isAccept
  rw [List.any_eq_true, h.place]
  constructor
  · rintro ⟨item, hitem, haccept⟩
    rw [Std.TreeSet.mem_toList] at hitem
    have hon := (h.items _ (Nat.le_refl _) item).1 hitem
    obtain ⟨p, hp, hrule, -, -, -⟩ := hon.rule
    rw [Bool.and_eq_true, Bool.and_eq_true, beq_iff_eq, beq_iff_eq,
      beq_iff_eq, hrule] at haccept
    obtain ⟨⟨hlhs, hdot⟩, horigin⟩ := haccept
    refine ⟨_, p, hp, hlhs, ?_⟩
    unfold OnChart at hon
    rw [hdot, horigin] at hon
    exact hon
  · rintro ⟨r, p, hp, hlhs, hchart⟩
    obtain ⟨hr, hd, -⟩ := toNat_itemOf hnum hchart
    have hon := onChart_itemOf hnum hchart
    have hrule : cfg.rule (itemOf r p.rhs.length 0).rule = p :=
      CompiledCfg.rule_eq (by rw [hr]; exact hp)
    refine ⟨itemOf r p.rhs.length 0, ?_, ?_⟩
    · exact Std.TreeSet.mem_toList.2 ((h.items _ (Nat.le_refl _) _).2 hon)
    · rw [hrule, hlhs, hd, beq_self_eq_true, beq_self_eq_true]
      rfl

end EarleyState

-- ==== acceptance

open EarleyState

/-- The loop of `close` ends on every state; the permitted bytes after any
bytes that could follow are those that can follow; and where the chart over
the input has 32-bit numbers only, the bytes are followed to the end and
accepted exactly if the start symbol derives them. -/
theorem earley_exact (cfg : CompiledCfg) :
    (∀ (state : EarleyState) (i : Nat), i < state.sets.length →
        (closeLoop cfg i (2 ^ 96 + 1) state).isSome)
      ∧ (∀ w state, steps cfg (new cfg) w = some state → ∀ b,
          (state.permittedNext cfg).contains b = true ↔ (state.step cfg b).isSome)
      ∧ (∀ w : List UInt8, Numbered cfg w →
          ((∃ state, steps cfg (new cfg) w = some state ∧ state.isAccept cfg = true)
            ↔ Derives (fun (c : ByteClass) b => c.contains b = true)
                cfg.rules [.nonTerm cfg.start] w)) := by
  refine ⟨fun state i hi => closeLoop_isSome cfg hi,
    fun w state _ b => contains_permittedNext, ?_⟩
  intro w hnum
  have hwhole : Numbered cfg ([] ++ w) := hnum
  have hnew := exact_new hwhole.left
  have hexact : ∀ {state}, steps cfg (new cfg) w = some state →
      Exact cfg w state := fun hsteps => hnew.steps hwhole hsteps
  constructor
  · rintro ⟨state, hsteps, haccept⟩
    exact ((hexact hsteps).isAccept_iff hnum).1 haccept
  · intro hderives
    have hsome : (steps cfg (new cfg) w).isSome := by
      rw [hnew.steps_isSome_iff hwhole]
      obtain ⟨r, p, hp, -, hchart⟩ := chart_iff_derives.2 hderives
      exact Or.inr ⟨_, onChart_itemOf hnum hchart⟩
    obtain ⟨state, hsteps⟩ := Option.isSome_iff_exists.1 hsome
    exact ⟨state, hsteps, ((hexact hsteps).isAccept_iff hnum).2 hderives⟩

/-- A grammar with a nullable cycle: `S` is two times `A` and a letter,
`A` is `B`, and `B` is nothing or `A`. -/
def nullableCycle : List CfgRule :=
  [{ lhs := "S",
     rhs := [.nonTerm "A", .nonTerm "A", .term (.single 97)] },
   { lhs := "A", rhs := [.nonTerm "B"] },
   { lhs := "B", rhs := [] },
   { lhs := "B", rhs := [.nonTerm "A"] }]

theorem nullableCycle_exact :
    ∃ cfg, CompiledCfg.fromRules nullableCycle = .ok cfg
      ∧ ∀ w : List UInt8, w.length < 2 ^ 32 →
          ((∃ state, steps cfg (new cfg) w = some state ∧ state.isAccept cfg = true)
            ↔ Derives (fun (c : ByteClass) b => c.contains b = true)
                cfg.rules [.nonTerm cfg.start] w) := by
  refine ⟨⟨nullableCycle, groupByLhs nullableCycle, "S", rfl⟩, rfl, ?_⟩
  intro w hw
  exact (earley_exact _).2.2 w (numbered_of_fits ⟨by decide, by decide⟩ hw)

-- ==== wrapped numbers

/-- So many rules that read an `a`, and one more that reads a `b`. -/
def crowded (n : Nat) : List CfgRule :=
  List.replicate n { lhs := "S", rhs := [.term (.single 97)] }
    ++ [{ lhs := "S", rhs := [.term (.single 98)] }]

theorem fromRules_eq_ok {first : CfgRule} {rules : List CfgRule}
    (h : ∀ r ∈ first :: rules, ∀ name, .nonTerm name ∉ r.rhs) :
    CompiledCfg.fromRules (first :: rules)
      = .ok { rules := first :: rules, byLhs := groupByLhs (first :: rules),
              start := first.lhs, grouped := rfl } := by
  have hnone : CompiledCfg.references (first :: rules) = [] := by
    unfold CompiledCfg.references
    rw [List.flatMap_eq_nil_iff]
    intro r hr
    rw [List.filterMap_eq_nil_iff]
    intro s hs
    cases s with
    | term c => rfl
    | nonTerm name => exact absurd hs (h r hr name)
  unfold CompiledCfg.fromRules
  rw [hnone]
  rfl

theorem mem_crowded {n : Nat} {r : CfgRule} (h : r ∈ crowded n) :
    r.lhs = "S" ∧ ∃ c, r.rhs = [.term c] := by
  rcases List.mem_append.1 h with h | h
  · rw [List.eq_of_mem_replicate h]
    exact ⟨rfl, _, rfl⟩
  · rw [List.mem_singleton.1 h]
    exact ⟨rfl, _, rfl⟩

theorem fromRules_crowded (n : Nat) :
    CompiledCfg.fromRules (crowded (n + 1))
      = .ok ⟨crowded (n + 1), groupByLhs (crowded (n + 1)), "S", rfl⟩ := by
  refine fromRules_eq_ok ?_
  intro r hr name hname
  obtain ⟨-, c, hrhs⟩ := mem_crowded (n := n + 1) hr
  rw [hrhs] at hname
  cases List.mem_singleton.1 hname

/-- With so many rules before it, no 32-bit number is that of the last. -/
theorem step_crowded {n : Nat} (hn : UInt32.size ≤ n) {cfg : CompiledCfg}
    (hcfg : cfg.rules = crowded n) (state : EarleyState) :
    state.step cfg 98 = none := by
  have hrule : ∀ id, cfg.rule id = { lhs := "S", rhs := [.term (.single 97)] } := by
    intro id
    have hid : id.toNat < n := Nat.lt_of_lt_of_le id.toNat_lt_size hn
    apply CompiledCfg.rule_eq
    rw [hcfg]
    unfold crowded
    rw [List.getElem?_append_left, List.getElem?_replicate, if_pos hid]
    rw [List.length_replicate]
    exact hid
  rw [← Option.not_isSome_iff_eq_none, step_isSome_iff]
  rintro ⟨item, -, c, hterm, hc⟩
  unfold Item.next at hterm
  rw [hrule] at hterm
  cases List.mem_singleton.1 (List.mem_of_getElem? hterm)
  rw [ByteClass.contains_single] at hc
  exact absurd hc (by decide)

/-- The letter of the last rule is derived. -/
theorem derives_crowded (n : Nat) :
    Derives (fun (c : ByteClass) b => c.contains b = true) (crowded n)
      [.nonTerm "S"] [98] := by
  have hlast : { lhs := "S", rhs := [.term (.single 98)] } ∈ crowded n :=
    List.mem_append_right _ List.mem_cons_self
  exact .single hlast (.term (by decide) .nil)

/-- The letter of the last rule is derived and not accepted. -/
theorem crowded_rejects :
    ¬ ∀ (rules : List CfgRule) (cfg : CompiledCfg),
      CompiledCfg.fromRules rules = .ok cfg → ∀ w : List UInt8,
        ((∃ state, steps cfg (new cfg) w = some state ∧ state.isAccept cfg = true)
          ↔ Derives (fun (c : ByteClass) b => c.contains b = true)
              cfg.rules [.nonTerm cfg.start] w) := by
  intro h
  obtain ⟨n, hn⟩ : ∃ n, UInt32.size ≤ n + 1 := ⟨_, Nat.le_succ _⟩
  have hcompiled := fromRules_crowded n
  obtain ⟨state, hsteps, -⟩ :=
    (h _ _ hcompiled [98]).2 (derives_crowded (n + 1))
  unfold steps at hsteps
  rw [step_crowded hn rfl] at hsteps
  cases hsteps

end OpenStandards.JouleclawDecode

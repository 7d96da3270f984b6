/-
When the ops of a document commute.

A set of ops that avoids all ways to disturb a cell (`Harmonious`)
converges. A map on the way must not also be a leaf or be written by a map
op, and is deleted only by older removals. A slot holds leaves of one kind;
deletions of it are older than its leaf ops; map writes go with register
writes only, with one of them at either end. No set value is both added and
removed; a parent and a position of a list or text name one insertion, and
no inserted position is deleted.
-/
import OpenStandards.Crdt.Proofs.Leaves
import Mathlib.Data.Finset.Max

namespace OpenStandards.Crdt

open Lib

-- ==== kinds of map ops

def OpKind.isDelete : OpKind → Bool
  | .mapDelete _ => true
  | _ => false

def OpKind.mapValue : OpKind → Option Value
  | .mapSet _ value => some value
  | _ => none

def OpKind.registerValue : OpKind → Option Value
  | .registerSet value => some value
  | _ => none

def OpKind.competes (kind : OpKind) : Prop :=
  kind.isDelete ∨ kind.mapValue.isSome ∨ kind.registerValue.isSome

theorem OpKind.cases_of (kind : OpKind) :
    kind.isDelete ∨ (∃ v, kind.mapValue = some v) ∨ ∃ k, kind.leafKind = some k := by
  cases kind <;> simp [isDelete, mapValue, leafKind]

variable {kind : OpKind} {o x : Op} {v : Value} {p : Path} {ops pre : List Op}
    {c c' : Cell} {st t : Stamp}

theorem OpKind.leafKind_of_isDelete (h : kind.isDelete) : kind.leafKind = none := by
  cases kind <;> first | rfl | cases h

theorem OpKind.leafKind_eq_register :
    kind.leafKind = some .register ↔ ∃ v, kind.registerValue = some v := by
  cases kind <;> simp [leafKind, registerValue]

theorem Cell.act_delete (h : o.op.isDelete) (c : Cell) : c.act o = c.mapDelete o.stamp := by
  unfold Cell.act
  cases hop : o.op <;> rw [hop] at h <;> first | rfl | cases h

theorem Cell.act_mapValue (h : o.op.mapValue = some v) (c : Cell) :
    c.act o = c.mapSet v o.stamp := by
  unfold Cell.act
  cases hop : o.op <;> rw [hop] at h <;> cases h
  rfl

theorem Cell.act_leaf {k : LeafKind} (h : o.op.leafKind = some k) (c : Cell) :
    c.act o = c.leafOp o := by
  unfold Cell.act
  cases hop : o.op <;> rw [hop] at h <;> first | rfl | cases h

-- ==== roles

theorem role_self (p : Path) : role p p = .slot := by
  induction p with
  | nil => rfl
  | cons k p ih => exact (if_pos rfl).trans ih

theorem role_eq_slot {slot : Path} : role slot p = .slot ↔ slot = p := by
  constructor
  · induction slot generalizing p with
    | nil =>
      intro h
      cases p with
      | nil => rfl
      | cons k p => cases h
    | cons s slot ih =>
      intro h
      cases p with
      | nil => cases h
      | cons k p =>
        unfold role at h
        by_cases hk : s = k
        · rw [if_pos hk] at h
          rw [hk, ih h]
        · rw [if_neg hk] at h
          cases h
  · intro h
    rw [h]
    exact role_self p

theorem Cell.step_aside (h : role o.slot p = .aside) (c : Cell) :
    Cell.step o o.slot p c = some c := by
  unfold Cell.step
  rw [h]

theorem Cell.step_through (h : role o.slot p = .through) (c : Cell) :
    Cell.step o o.slot p c = c.through o.stamp := by
  unfold Cell.step
  rw [h]

theorem Cell.step_at (h : o.slot = p) (c : Cell) : Cell.step o o.slot p c = c.act o := by
  unfold Cell.step
  rw [role_eq_slot.2 h]

-- ==== the condition

/-- A set of ops that no two orders of application can tell apart. -/
structure Harmonious (ops : List Op) : Prop where
  -- leaf ops are not at the root
  rooted : ∀ o ∈ ops, o.slot ≠ []
  -- a slot that others pass through is only ever deleted, and by removals
  -- older than they are
  nested : ∀ o ∈ ops, ∀ o' ∈ ops, role o'.slot o.slot = .through →
    o.op.isDelete ∧ o.stamp < o'.stamp
  -- a slot holds leaves of one kind
  leaves : ∀ o ∈ ops, ∀ o' ∈ ops, o.slot = o'.slot → ∀ k k',
    o.op.leafKind = some k → o'.op.leafKind = some k' → k = k'
  -- map writes go with registers only
  mapWrites : ∀ o ∈ ops, ∀ o' ∈ ops, o.slot = o'.slot →
    o.op.mapValue.isSome → ∀ k, o'.op.leafKind = some k → k = .register
  -- a slot is deleted before its leaf is written
  deletes : ∀ o ∈ ops, ∀ o' ∈ ops, o.slot = o'.slot → o.op.isDelete →
    o'.op.leafKind.isSome → o.stamp < o'.stamp
  -- competing writes have different stamps
  stamps : ∀ o ∈ ops, ∀ o' ∈ ops, o.slot = o'.slot → o.op.competes →
    o'.op.competes → o.stamp = o'.stamp →
    o = o' ∨ (o.op.isDelete ∧ o'.op.isDelete)
  -- map writes against register writes
  registers : ∀ o ∈ ops, ∀ o' ∈ ops, o.slot = o'.slot →
    o.op.mapValue.isSome → o'.op.registerValue.isSome →
    (∃ w ∈ ops, w.slot = o.slot ∧ w.op.mapValue.isSome
      ∧ ∀ r ∈ ops, r.slot = o.slot → r.op.registerValue.isSome → r.stamp < w.stamp)
    ∨ ((∀ w ∈ ops, w.slot = o.slot → w.op.mapValue.isSome → w = o)
      ∧ o.stamp < o'.stamp
      ∧ ∀ d ∈ ops, d.slot = o.slot → d.op.isDelete → d.stamp < o.stamp)
  -- sets, lists and texts
  sets : ∀ o ∈ ops, ∀ o' ∈ ops, o.slot = o'.slot → SetApart o o'
  lists : ∀ p, Identified ((ops.filter fun o => o.slot = p).filterMap listNode)
  listDeletes : ∀ o ∈ ops, ∀ o' ∈ ops, o.slot = o'.slot → ∀ n pos,
    listNode o = some n → listDeleted o' = some pos → n.pos ≠ pos
  texts : ∀ p, Identified ((ops.filter fun o => o.slot = p).filterMap textNode)
  textDeletes : ∀ o ∈ ops, ∀ o' ∈ ops, o.slot = o'.slot → ∀ n pos,
    textNode o = some n → textDeleted o' = some pos → n.pos ≠ pos

theorem Harmonious.perm {ops' : List Op} (h : Harmonious ops)
    (hp : ops.Perm ops') : Harmonious ops' := by
  have hmem : ∀ o ∈ ops', o ∈ ops := fun o ho => hp.mem_iff.2 ho
  refine ⟨?_, ?_, ?_, ?_, ?_, ?_, ?_, ?_, ?_, ?_, ?_, ?_⟩
  · exact fun o ho => h.rooted o (hmem o ho)
  · exact fun o ho o' ho' => h.nested o (hmem o ho) o' (hmem o' ho')
  · exact fun o ho o' ho' => h.leaves o (hmem o ho) o' (hmem o' ho')
  · exact fun o ho o' ho' => h.mapWrites o (hmem o ho) o' (hmem o' ho')
  · exact fun o ho o' ho' => h.deletes o (hmem o ho) o' (hmem o' ho')
  · exact fun o ho o' ho' => h.stamps o (hmem o ho) o' (hmem o' ho')
  · intro o ho o' ho' hs hm hr
    rcases h.registers o (hmem o ho) o' (hmem o' ho') hs hm hr with
      ⟨w, hw, hws, hwm, hwr⟩ | ⟨hone, hlt, hdel⟩
    · exact Or.inl ⟨w, hp.mem_iff.1 hw, hws, hwm,
        fun r hr' => hwr r (hmem r hr')⟩
    · exact Or.inr ⟨fun w hw => hone w (hmem w hw), hlt,
        fun d hd => hdel d (hmem d hd)⟩
  · exact fun o ho o' ho' => h.sets o (hmem o ho) o' (hmem o' ho')
  · exact fun p => (h.lists p).perm ((hp.filter _).filterMap _)
  · exact fun o ho o' ho' => h.listDeletes o (hmem o ho) o' (hmem o' ho')
  · exact fun p => (h.texts p).perm ((hp.filter _).filterMap _)
  · exact fun o ho o' ho' => h.textDeletes o (hmem o ho) o' (hmem o' ho')

-- ==== one cell

def cellRun (p : Path) (ops : List Op) : Option Cell :=
  ops.foldlM (fun c o => Cell.step o o.slot p c) .empty

/-- What a reader sees in the cell. -/
def Cell.observe (c : Cell) : Option Observation :=
  c.entry.map fun e => e.1.observe

def TombFrom (p : Path) (pre : List Op) (c : Cell) : Prop :=
  ∀ t, c.tomb = some t → ∃ d ∈ pre, d.slot = p ∧ d.op.isDelete ∧ d.stamp = t

theorem TombFrom.not_buried (h : TombFrom p pre c)
    (hlt : ∀ d ∈ pre, d.slot = p → d.op.isDelete → d.stamp < st) :
    ¬ c.buried st := by
  rintro ⟨t, ht, hn⟩
  obtain ⟨d, hd, hs, hdel, rfl⟩ := h t ht
  exact hn (hlt d hd hs hdel)

theorem TombFrom.append (h : TombFrom p pre c) (htomb : c'.tomb = c.tomb) :
    TombFrom p (pre ++ [o]) c' := by
  intro t ht
  rw [htomb] at ht
  obtain ⟨d, hd, hrest⟩ := h t ht
  exact ⟨d, List.mem_append_left _ hd, hrest⟩

theorem TombFrom.raise (h : TombFrom p pre c) (hs : o.slot = p)
    (hdel : o.op.isDelete) (htomb : c'.tomb = LwwMap.raise c.tomb o.stamp) :
    TombFrom p (pre ++ [o]) c' := by
  have hself : o ∈ pre ++ [o] :=
    List.mem_append_right _ (List.mem_singleton.2 rfl)
  intro t ht
  rw [htomb] at ht
  unfold LwwMap.raise at ht
  cases hc : c.tomb with
  | none =>
    rw [hc] at ht
    cases ht
    exact ⟨o, hself, hs, hdel, rfl⟩
  | some t' =>
    rw [hc] at ht
    by_cases hlt : t' < o.stamp
    · simp only [if_pos hlt] at ht
      cases ht
      exact ⟨o, hself, hs, hdel, rfl⟩
    · simp only [if_neg hlt] at ht
      cases ht
      obtain ⟨d, hd, hrest⟩ := h t hc
      exact ⟨d, List.mem_append_left _ hd, hrest⟩

theorem Cell.mapDelete_older {sh : Shape} (he : c.entry = some (sh, t))
    (h : ¬ t < st) : c.mapDelete st = some c := by
  unfold Cell.mapDelete
  simp only [he, if_neg h]

theorem Cell.mapDelete_free (he : c.entry = none) :
    c.mapDelete st = some { entry := none, tomb := LwwMap.raise c.tomb st } := by
  unfold Cell.mapDelete
  simp only [he]

theorem Cell.mapDelete_newer {n : CrdtNode} (he : c.entry = some (.leaf n, t)) (h : t < st) :
    c.mapDelete st = some { entry := none, tomb := LwwMap.raise c.tomb st } := by
  unfold Cell.mapDelete
  simp only [he, if_pos h]

/-- A map write that beats neither the entry nor its own rivals changes
nothing. -/
theorem Cell.mapSet_older {sh : Shape} (he : c.entry = some (sh, t))
    (h : ¬ t < st) : c.mapSet v st = some c := by
  unfold Cell.mapSet
  by_cases hb : c.buried st
  · rw [if_pos hb]
  · rw [if_neg hb]
    simp only [he, if_neg h]

theorem Cell.mapSet_buried (hb : c.buried st) : c.mapSet v st = some c := by
  unfold Cell.mapSet
  rw [if_pos hb]

theorem Cell.mapSet_newer (hb : ¬ c.buried st)
    (he : ∀ sh t, c.entry = some (sh, t) → t < st ∧ ∃ n, sh = .leaf n) :
    c.mapSet v st = some { entry := some (.leaf (.register
      { value := v, stamp := st }), st), tomb := c.tomb } := by
  unfold Cell.mapSet
  rw [if_neg hb]
  rcases hc : c.entry with _ | ⟨sh, t⟩
  · rfl
  · obtain ⟨hlt, n, rfl⟩ := he sh t hc
    simp only [if_pos hlt]

theorem Cell.leafOp_register_free (ho : o.op.registerValue = some v)
    (he : c.entry = none) (hb : ¬ c.buried o.stamp) :
    c.leafOp o = some { entry := some (.leaf (.register
      { value := v, stamp := o.stamp }), o.stamp), tomb := c.tomb } := by
  unfold Cell.leafOp applyTerminal seedTerminalNode
  cases hop : o.op <;> rw [hop] at ho <;> cases ho
  simp only [he, LwwRegister.write, lt_self_iff_false, if_false,
    if_neg (show ¬ (c.buried o.stamp ∨ (Except.ok () :
      Except CrdtError Unit) ≠ .ok ()) from fun h =>
        h.elim hb fun hne => hne rfl)]
  rfl

theorem Cell.leafOp_register_on {reg : LwwRegister Value} (ho : o.op.registerValue = some v)
    (he : c.entry = some (.leaf (.register reg), st)) :
    c.leafOp o = some { entry := some (.leaf (.register
      (reg.write v o.stamp)), st), tomb := c.tomb } := by
  unfold Cell.leafOp applyTerminal
  cases hop : o.op <;> rw [hop] at ho <;> cases ho
  simp only [he]
  rfl

theorem cellRun_through (h : Harmonious ops) (hthrough : ∃ o ∈ ops, role o.slot p = .through) :
    ∃ c, cellRun p ops = some c ∧ c.observe = some .map := by
  obtain ⟨o₀, ho₀, hr₀⟩ := hthrough
  have hat : ∀ o ∈ ops, o.slot = p → ∀ o' ∈ ops,
      role o'.slot p = .through → o.op.isDelete ∧ o.stamp < o'.stamp := by
    intro o ho hs o' ho' hr'
    subst hs
    exact h.nested o ho o' ho' hr'
  obtain ⟨c, hc, htomb, hentry, hsome⟩ := foldlM_some
    (f := fun c o => Cell.step o o.slot p c) (l := ops) (b := .empty)
    (P := fun pre c => TombFrom p pre c
      ∧ (∀ sh s, c.entry = some (sh, s) → sh = .map
        ∧ ∃ o ∈ pre, role o.slot p = .through ∧ s = o.stamp)
      ∧ ((∃ o ∈ pre, role o.slot p = .through) → c.entry ≠ none))
    (by
      refine ⟨?_, ?_, ?_⟩
      · intro t ht
        cases ht
      · intro sh s hs
        cases hs
      · intro ⟨o, ho, _⟩
        cases ho)
    (by
      intro pre a post c hops ⟨htomb, hentry, hsome⟩
      have ha : a ∈ ops := by
        rw [hops]
        exact List.mem_append_right _ List.mem_cons_self
      have hpre : ∀ o ∈ pre, o ∈ ops := by
        intro o ho
        rw [hops]
        exact List.mem_append_left _ ho
      have hkeep : (∀ sh s, c.entry = some (sh, s) → sh = .map
          ∧ ∃ o ∈ pre ++ [a], role o.slot p = .through ∧ s = o.stamp) := by
        intro sh s hs
        obtain ⟨hsh, o, ho, hr, hst⟩ := hentry sh s hs
        exact ⟨hsh, o, List.mem_append_left _ ho, hr, hst⟩
      cases hrole : role a.slot p with
      | aside =>
        refine ⟨c, Cell.step_aside hrole c, htomb.append rfl, hkeep, ?_⟩
        intro ⟨o, ho, hr⟩
        rcases List.mem_append.1 ho with ho | ho
        · exact hsome ⟨o, ho, hr⟩
        · rw [List.mem_singleton.1 ho, hrole] at hr
          cases hr
      | through =>
        have hself : a ∈ pre ++ [a] :=
          List.mem_append_right _ (List.mem_singleton.2 rfl)
        rcases he : c.entry with _ | ⟨sh, s⟩
        · -- the first to pass makes the map
          have hfree : ¬ c.buried a.stamp := htomb.not_buried
            fun d hd hs _ => (hat d (hpre d hd) hs a ha hrole).2
          refine ⟨{ c with entry := some (.map, a.stamp) }, ?_,
            htomb.append rfl, ?_, fun _ => Option.some_ne_none _⟩
          · rw [Cell.step_through hrole]
            unfold Cell.through
            simp only [he, if_neg hfree]
          · intro sh s hs
            cases hs
            exact ⟨rfl, a, hself, hrole, rfl⟩
        · obtain ⟨rfl, -⟩ := hentry sh s he
          refine ⟨c, ?_, htomb.append rfl, hkeep, ?_⟩
          · rw [Cell.step_through hrole]
            unfold Cell.through
            simp only [he]
          · intro _ hn
            rw [he] at hn
            cases hn
      | slot =>
        have hs := role_eq_slot.1 hrole
        obtain ⟨hdel, -⟩ := hat a ha hs o₀ ho₀ hr₀
        have hrest : (∃ o ∈ pre ++ [a], role o.slot p = .through) →
            ∃ o ∈ pre, role o.slot p = .through := by
          intro ⟨o, ho, hr⟩
          rcases List.mem_append.1 ho with ho | ho
          · exact ⟨o, ho, hr⟩
          · rw [List.mem_singleton.1 ho, hrole] at hr
            cases hr
        rcases he : c.entry with _ | ⟨sh, s⟩
        · refine ⟨_, by rw [Cell.step_at hs, Cell.act_delete hdel,
            Cell.mapDelete_free he], htomb.raise hs hdel rfl, ?_, ?_⟩
          · intro sh s hs
            cases hs
          · intro hex
            exact absurd he (hsome (hrest hex))
        · obtain ⟨-, o, ho, hr, rfl⟩ := hentry sh s he
          have hlt := (hat a ha hs o (hpre o ho) hr).2
          refine ⟨c, by rw [Cell.step_at hs, Cell.act_delete hdel,
            Cell.mapDelete_older he (not_lt_of_gt hlt)],
            htomb.append rfl, hkeep, ?_⟩
          intro _ hn
          rw [he] at hn
          cases hn)
  refine ⟨c, hc, ?_⟩
  have hne := hsome ⟨o₀, ho₀, hr₀⟩
  rcases he : c.entry with _ | ⟨sh, s⟩
  · exact absurd he hne
  · obtain ⟨rfl, -⟩ := hentry sh s he
    unfold Cell.observe
    rw [he]
    rfl

-- ==== cells nobody passes

theorem cellRun_at (hno : ∀ o ∈ ops, role o.slot p ≠ .through)
    {P : List Op → Cell → Prop} (hinit : P [] .empty)
    (hstep : ∀ pre a c, (∀ o ∈ pre, o ∈ ops ∧ o.slot = p) → a ∈ ops →
      a.slot = p → P pre c → ∃ c', c.act a = some c' ∧ P (pre ++ [a]) c') :
    ∃ c, cellRun p ops = some c ∧ P (ops.filter fun o => o.slot = p) c := by
  refine foldlM_some (P := fun pre c => P (pre.filter fun o => o.slot = p) c) hinit ?_
  intro pre a post c hops hP
  have ha : a ∈ ops := by
    rw [hops]
    exact List.mem_append_right _ List.mem_cons_self
  by_cases hs : a.slot = p
  · obtain ⟨c', hact, hP'⟩ := hstep (pre.filter fun o => o.slot = p) a c
      (by
        intro o ho
        rw [List.mem_filter, decide_eq_true_eq] at ho
        refine ⟨?_, ho.2⟩
        rw [hops]
        exact List.mem_append_left _ ho.1) ha hs hP
    refine ⟨c', by rw [Cell.step_at hs, hact], ?_⟩
    rw [List.filter_append, List.filter_cons_of_pos (by simp [hs])]
    exact hP'
  · have haside : role a.slot p = .aside := by
      cases hr : role a.slot p with
      | aside => rfl
      | through => exact absurd hr (hno a ha)
      | slot => exact absurd (role_eq_slot.1 hr) hs
    refine ⟨c, Cell.step_aside haside c, ?_⟩
    rw [List.filter_append, List.filter_cons_of_neg (by simp [hs]),
      List.filter_nil, List.append_nil]
    exact hP

theorem tombFrom_empty (p : Path) : TombFrom p [] .empty := by
  intro t ht
  cases ht

def leafOps (ops : List Op) : List Op :=
  ops.filter fun o => o.op.leafKind.isSome

theorem cellRun_leaf (h : Harmonious ops)
    (hno : ∀ o ∈ ops, role o.slot p ≠ .through) {k : LeafKind}
    (hk : k ≠ .register) {o₀ : Op} (ho₀ : o₀ ∈ ops) (hs₀ : o₀.slot = p)
    (hk₀ : o₀.op.leafKind = some k) :
    ∃ c, cellRun p ops = some c
      ∧ c.observe = some (foldLeaf k.seed
          (leafOps (ops.filter fun o => o.slot = p))).observe := by
  have hkind : ∀ o ∈ ops, o.slot = p → o.op.leafKind.isSome → o.op.leafKind = some k := by
    intro o ho hs hsome
    obtain ⟨k', hk'⟩ := Option.isSome_iff_exists.1 hsome
    rw [hk', h.leaves o ho o₀ ho₀ (hs.trans hs₀.symm) k' k hk' hk₀]
  obtain ⟨c, hc, -, hnil, hcons⟩ := cellRun_at hno
    (P := fun pre c => TombFrom p pre c
      ∧ (leafOps pre = [] → c.entry = none)
      ∧ (leafOps pre ≠ [] → ∃ st, c.entry = some (.leaf (foldLeaf k.seed (leafOps pre)), st)
        ∧ ∃ o ∈ leafOps pre, st = o.stamp))
    ⟨tombFrom_empty p, fun _ => rfl, fun hne => absurd rfl hne⟩
    (by
      intro pre a c hpre ha hs ⟨htomb, hnil, hcons⟩
      have hmem : ∀ o ∈ leafOps pre, o ∈ ops ∧ o.slot = p ∧ o.op.leafKind.isSome := by
        intro o ho
        obtain ⟨ho, hl⟩ := List.mem_filter.1 ho
        exact ⟨(hpre o ho).1, (hpre o ho).2, hl⟩
      rcases a.op.cases_of with hdel | ⟨v, hv⟩ | ⟨k', hk'⟩
      · -- a deletion is older than the leaf, if there is one
        have hsame : leafOps (pre ++ [a]) = leafOps pre := by
          unfold leafOps
          rw [List.filter_append, List.filter_cons_of_neg
            (by simp [OpKind.leafKind_of_isDelete hdel]),
            List.filter_nil, List.append_nil]
        rw [hsame]
        by_cases hl : leafOps pre = []
        · have he := hnil hl
          exact ⟨_, by rw [Cell.act_delete hdel, Cell.mapDelete_free he],
            htomb.raise hs hdel rfl, fun _ => rfl, fun hne => absurd hl hne⟩
        · obtain ⟨st, he, o, ho, rfl⟩ := hcons hl
          obtain ⟨hoo, hos, hol⟩ := hmem o ho
          have hlt := h.deletes a ha o hoo (hs.trans hos.symm) hdel hol
          exact ⟨c, by rw [Cell.act_delete hdel, Cell.mapDelete_older he (not_lt_of_gt hlt)],
            htomb.append rfl, fun hl' => absurd hl' hl,
            fun _ => ⟨o.stamp, he, o, ho, rfl⟩⟩
      · exact absurd (h.mapWrites a ha o₀ ho₀ (hs.trans hs₀.symm) (by rw [hv]; rfl) k hk₀) hk
      · have hak := hkind a ha hs (by rw [hk']; rfl)
        have hmore : leafOps (pre ++ [a]) = leafOps pre ++ [a] := by
          unfold leafOps
          rw [List.filter_append, List.filter_cons_of_pos (by simp [hak]), List.filter_nil]
        have hfold : ∀ l, foldLeaf k.seed (l ++ [a])
            = (applyTerminal (foldLeaf k.seed l) a).2 := fun l =>
          List.foldl_append ..
        have hself : a ∈ leafOps (pre ++ [a]) := by
          rw [hmore]
          exact List.mem_append_right _ (List.mem_singleton.2 rfl)
        have hne : leafOps (pre ++ [a]) ≠ [] := List.ne_nil_of_mem hself
        have his : k.Is (foldLeaf k.seed (leafOps pre)) :=
          foldLeaf_is (seed_is hk) fun o ho =>
            hkind o (hmem o ho).1 (hmem o ho).2.1 (hmem o ho).2.2
        obtain ⟨hok, his'⟩ := applyTerminal_leaf hak his
        rw [Cell.act_leaf hak]
        by_cases hl : leafOps pre = []
        · have he := hnil hl
          have hfree : ¬ c.buried a.stamp := htomb.not_buried
            fun d hd hds hdel => h.deletes d (hpre d hd).1 a ha
              (hds.trans hs.symm) hdel (by rw [hak]; rfl)
          refine ⟨{ entry := some (.leaf (applyTerminal (foldLeaf k.seed
              (leafOps pre)) a).2, a.stamp), tomb := c.tomb }, ?_,
            htomb.append rfl, fun hl' => absurd hl' hne, ?_⟩
          · rw [hl, show foldLeaf k.seed [] = k.seed from rfl] at hok his' ⊢
            unfold Cell.leafOp
            simp only [he]
            rw [seedTerminalNode_eq hak hk,
              if_neg (fun hor => hor.elim hfree fun hn => hn hok),
              shape_eq_leaf (ne_map_of_is his')]
          · intro _
            rw [hmore, hfold]
            exact ⟨a.stamp, rfl, a, hmore ▸ hself, rfl⟩
        · obtain ⟨st, he, o, ho, hst⟩ := hcons hl
          refine ⟨{ entry := some (.leaf (applyTerminal (foldLeaf k.seed
              (leafOps pre)) a).2, st), tomb := c.tomb }, ?_,
            htomb.append rfl, fun hl' => absurd hl' hne, ?_⟩
          · unfold Cell.leafOp
            simp only [he]
            rw [if_pos hok, shape_eq_leaf (ne_map_of_is his')]
          · intro _
            rw [hmore, hfold]
            exact ⟨st, rfl, o, List.mem_append_left _ ho, hst⟩)
  refine ⟨c, hc, ?_⟩
  have hne : leafOps (ops.filter fun o => o.slot = p) ≠ [] := by
    refine List.ne_nil_of_mem (a := o₀) ?_
    unfold leafOps
    rw [List.mem_filter, List.mem_filter]
    exact ⟨⟨ho₀, by simp [hs₀]⟩, by rw [hk₀]; rfl⟩
  obtain ⟨st, he, -⟩ := hcons hne
  unfold Cell.observe
  rw [he]
  rfl

-- ==== slots with registers

/-- Some op of a list has the largest stamp. -/
theorem exists_newest (h : ops ≠ []) : ∃ x ∈ ops, ∀ y ∈ ops, y.stamp ≤ x.stamp := by
  obtain ⟨x, hx, hmax⟩ := Finset.exists_max_image ops.toFinset Op.stamp
    (List.toFinset_nonempty_iff _ |>.2 h)
  exact ⟨x, List.mem_toFinset.1 hx,
    fun y hy => hmax y (List.mem_toFinset.2 hy)⟩

/-- The entry of a register cell after a write that holds it. -/
def held (v : Value) (st : Stamp) : Option (Shape × Stamp) :=
  some (.leaf (.register { value := v, stamp := st }), st)

def OpKind.written (kind : OpKind) : Option Value :=
  kind.mapValue.or kind.registerValue

theorem OpKind.competes_cases (h : kind.competes) :
    kind.isDelete ∨ (∃ v, kind.mapValue = some v) ∨ ∃ v, kind.registerValue = some v :=
  h.imp_right fun h => h.imp Option.isSome_iff_exists.1 Option.isSome_iff_exists.1

theorem OpKind.written_of_isDelete (h : kind.isDelete) : kind.written = none := by
  cases kind <;> first | rfl | cases h

theorem OpKind.written_of_mapValue (h : kind.mapValue = some v) : kind.written = some v := by
  unfold written
  rw [h]
  rfl

theorem OpKind.written_of_registerValue (h : kind.registerValue = some v) :
    kind.written = some v := by
  cases kind <;> first | exact h | cases h

/-- A slot that only map writes, register writes and deletions reach. -/
structure RegisterSlot (ops : List Op) (p : Path) : Prop where
  competes : ∀ o ∈ ops, o.slot = p → o.op.competes
  deletes : ∀ d ∈ ops, d.slot = p → d.op.isDelete → ∀ r ∈ ops, r.slot = p →
    r.op.registerValue.isSome → d.stamp < r.stamp

/-- Whatever its cell holds is a register that some write put there. -/
structure RegisterCell (p : Path) (pre : List Op) (c : Cell) : Prop where
  tomb : TombFrom p pre c
  entry : ∀ sh st, c.entry = some (sh, st) →
    (∃ reg, sh = .leaf (.register reg)) ∧ ∃ o ∈ pre, o.op.written.isSome ∧ st = o.stamp

theorem RegisterCell.empty (p : Path) : RegisterCell p [] .empty := by
  refine ⟨tombFrom_empty p, ?_⟩
  intro sh st he
  cases he

/-- Nothing in the cell is newer than what was written to it. -/
theorem RegisterCell.keep {a : Op} (h : RegisterCell p pre c) :
    RegisterCell p (pre ++ [a]) c := by
  refine ⟨h.tomb.append rfl, ?_⟩
  intro sh st he
  obtain ⟨hreg, o, ho, hrest⟩ := h.entry sh st he
  exact ⟨hreg, o, List.mem_append_left _ ho, hrest⟩

theorem RegisterCell.cleared {a : Op} (h : RegisterCell p pre c)
    (hs : a.slot = p) (hdel : a.op.isDelete) :
    RegisterCell p (pre ++ [a])
      { entry := none, tomb := LwwMap.raise c.tomb a.stamp } := by
  refine ⟨h.tomb.raise hs hdel rfl, ?_⟩
  intro sh st he
  cases he

theorem RegisterCell.taken {a : Op} (h : RegisterCell p pre c) (hv : a.op.written = some v) :
    RegisterCell p (pre ++ [a])
      { entry := held v a.stamp, tomb := c.tomb } := by
  refine ⟨h.tomb.append rfl, ?_⟩
  intro sh st he
  cases he
  exact ⟨⟨_, rfl⟩, a, List.mem_append_right _ (List.mem_singleton.2 rfl), by rw [hv]; rfl, rfl⟩

theorem RegisterCell.rewritten {a : Op} (h : RegisterCell p pre c)
    {reg reg' : LwwRegister Value} (he : c.entry = some (.leaf (.register reg), st)) :
    RegisterCell p (pre ++ [a])
      { entry := some (.leaf (.register reg'), st), tomb := c.tomb } := by
  refine ⟨h.tomb.append rfl, ?_⟩
  intro sh st' he'
  cases he'
  obtain ⟨-, o, ho, hrest⟩ := h.entry _ _ he
  exact ⟨⟨_, rfl⟩, o, List.mem_append_left _ ho, hrest⟩

/-- A register write never meets a tombstone it does not beat. -/
theorem RegisterSlot.not_buried (h : RegisterSlot ops p)
    (hpre : ∀ o ∈ pre, o ∈ ops ∧ o.slot = p) (hc : RegisterCell p pre c)
    {a : Op} (ha : a ∈ ops) (hs : a.slot = p) (hr : a.op.registerValue.isSome) :
    ¬ c.buried a.stamp :=
  hc.tomb.not_buried fun d hd hds hdel =>
    h.deletes d (hpre d hd).1 hds hdel a ha hs hr

/-- Every op at such a slot has a transition, and leaves a register or
nothing. -/
theorem RegisterSlot.step (h : RegisterSlot ops p)
    (hpre : ∀ o ∈ pre, o ∈ ops ∧ o.slot = p) (hc : RegisterCell p pre c)
    {a : Op} (ha : a ∈ ops) (hs : a.slot = p) :
    ∃ c', c.act a = some c' ∧ RegisterCell p (pre ++ [a]) c' := by
  rcases OpKind.competes_cases (h.competes a ha hs) with
    hdel | ⟨v, hv⟩ | ⟨v, hv⟩
  · rw [Cell.act_delete hdel]
    rcases he : c.entry with _ | ⟨sh, st⟩
    · exact ⟨_, Cell.mapDelete_free he, hc.cleared hs hdel⟩
    · obtain ⟨⟨reg, rfl⟩, -⟩ := hc.entry sh st he
      by_cases hlt : st < a.stamp
      · exact ⟨_, Cell.mapDelete_newer he hlt, hc.cleared hs hdel⟩
      · exact ⟨c, Cell.mapDelete_older he hlt, hc.keep⟩
  · rw [Cell.act_mapValue hv]
    by_cases hb : c.buried a.stamp
    · exact ⟨c, Cell.mapSet_buried hb, hc.keep⟩
    · by_cases hnew : ∀ sh st, c.entry = some (sh, st) → st < a.stamp
      · refine ⟨_, Cell.mapSet_newer hb ?_, hc.taken (OpKind.written_of_mapValue hv)⟩
        intro sh st he
        obtain ⟨⟨reg, rfl⟩, -⟩ := hc.entry sh st he
        exact ⟨hnew _ st he, _, rfl⟩
      · push Not at hnew
        obtain ⟨sh, st, he, hle⟩ := hnew
        exact ⟨c, Cell.mapSet_older he (not_lt_of_ge hle), hc.keep⟩
  · have hleaf := OpKind.leafKind_eq_register.2 ⟨v, hv⟩
    rw [Cell.act_leaf hleaf]
    rcases he : c.entry with _ | ⟨sh, st⟩
    · have hb := h.not_buried hpre hc ha hs (by rw [hv]; rfl)
      exact ⟨_, Cell.leafOp_register_free hv he hb,
        hc.taken (OpKind.written_of_registerValue hv)⟩
    · obtain ⟨⟨reg, rfl⟩, -⟩ := hc.entry sh st he
      exact ⟨_, Cell.leafOp_register_on hv he, hc.rewritten he⟩

theorem Harmonious.registerSlot (h : Harmonious ops)
    (hleaf : ∀ o ∈ ops, o.slot = p → ∀ k,
      o.op.leafKind = some k → k = .register) : RegisterSlot ops p := by
  constructor
  · intro o ho hs
    rcases o.op.cases_of with hd | ⟨v, hv⟩ | ⟨k, hk⟩
    · exact Or.inl hd
    · exact Or.inr (Or.inl (by rw [hv]; rfl))
    · rw [hleaf o ho hs k hk] at hk
      obtain ⟨v, hv⟩ := OpKind.leafKind_eq_register.1 hk
      exact Or.inr (Or.inr (by rw [hv]; rfl))
  · intro d hd hds hdel r hr hrs hreg
    refine h.deletes d hd r hr (hds.trans hrs.symm) hdel ?_
    obtain ⟨v, hv⟩ := Option.isSome_iff_exists.1 hreg
    rw [OpKind.leafKind_eq_register.2 ⟨v, hv⟩]
    rfl

theorem Harmonious.eq_of_stamp (h : Harmonious ops)
    (hslot : RegisterSlot ops p) {w : Op} (ho : o ∈ ops) (hos : o.slot = p)
    (hw : w ∈ ops) (hws : w.slot = p) (hwritten : w.op.written.isSome)
    (heq : o.stamp = w.stamp) : o = w := by
  rcases h.stamps o ho w hw (hos.trans hws.symm) (hslot.competes o ho hos)
    (hslot.competes w hw hws) heq with h | ⟨-, hd⟩
  · exact h
  · rw [OpKind.written_of_isDelete hd] at hwritten
    cases hwritten

/-- The cell shows what the map op says. -/
structure Decided (x : Op) (c : Cell) : Prop where
  set : ∀ v, x.op.mapValue = some v → c.entry = held v x.stamp
  delete : x.op.isDelete → c.entry = none ∧ c.tomb = some x.stamp

/-- A decided cell stays as it is: nothing beats `x`. -/
theorem Decided.act (hslot : RegisterSlot ops p) {a : Op} (hc : Decided x c)
    (hx : x ∈ ops) (hxs : x.slot = p) (hmap : x.op.registerValue = none)
    (ha : a ∈ ops) (hs : a.slot = p) (hax : ¬ x.stamp < a.stamp) :
    c.act a = some c := by
  rcases OpKind.competes_cases (hslot.competes x hx hxs) with
    hxd | ⟨v, hv⟩ | ⟨v, hv⟩
  · obtain ⟨he, ht⟩ := hc.delete hxd
    rcases OpKind.competes_cases (hslot.competes a ha hs) with
      had | ⟨v, hv⟩ | ⟨v, hv⟩
    · rw [Cell.act_delete had, Cell.mapDelete_free he]
      unfold LwwMap.raise
      simp only [ht, if_neg hax]
      rw [← he, ← ht]
    · rw [Cell.act_mapValue hv]
      exact Cell.mapSet_buried ⟨x.stamp, ht, hax⟩
    · exact absurd (hslot.deletes x hx hxs hxd a ha hs (by rw [hv]; rfl)) hax
  · have he := hc.set v hv
    rcases OpKind.competes_cases (hslot.competes a ha hs) with
      had | ⟨v', hv'⟩ | ⟨v', hv'⟩
    · rw [Cell.act_delete had]
      exact Cell.mapDelete_older he hax
    · rw [Cell.act_mapValue hv']
      exact Cell.mapSet_older he hax
    · rw [Cell.act_leaf (OpKind.leafKind_eq_register.2 ⟨v', hv'⟩),
        Cell.leafOp_register_on hv' he]
      unfold LwwRegister.write
      rw [if_neg hax]
      show some (Cell.mk (held v x.stamp) c.tomb) = some c
      rw [← he]
  · rw [hmap] at hv
    cases hv

theorem RegisterCell.decide (hc : RegisterCell p pre c)
    (hact : c.act x = some c') (hle : ∀ o ∈ pre, o.stamp ≤ x.stamp)
    (hlt : ∀ o ∈ pre, x.op.written.isSome ∨ o.op.written.isSome →
      o.stamp < x.stamp) : Decided x c' := by
  have holder : ∀ sh st, c.entry = some (sh, st) → st < x.stamp := by
    intro sh st he
    obtain ⟨-, o, ho, hw, rfl⟩ := hc.entry sh st he
    exact hlt o ho (Or.inr hw)
  constructor
  · intro v hv
    have hb : ¬ c.buried x.stamp := hc.tomb.not_buried fun d hd _ _ =>
      hlt d hd (Or.inl (by rw [OpKind.written_of_mapValue hv]; rfl))
    rw [Cell.act_mapValue hv, Cell.mapSet_newer hb] at hact
    · cases hact
      rfl
    · intro sh st he
      obtain ⟨⟨reg, rfl⟩, -⟩ := hc.entry sh st he
      exact ⟨holder _ st he, _, rfl⟩
  · intro hdel
    have hcleared : c' = { entry := none
                           tomb := LwwMap.raise c.tomb x.stamp } := by
      rw [Cell.act_delete hdel] at hact
      rcases he : c.entry with _ | ⟨sh, st⟩
      · rw [Cell.mapDelete_free he] at hact
        exact (Option.some.inj hact).symm
      · obtain ⟨⟨reg, rfl⟩, -⟩ := hc.entry sh st he
        rw [Cell.mapDelete_newer he (holder _ st he)] at hact
        exact (Option.some.inj hact).symm
    rw [hcleared]
    refine ⟨rfl, ?_⟩
    show LwwMap.raise c.tomb x.stamp = some x.stamp
    unfold LwwMap.raise
    cases ht : c.tomb with
    | none => rfl
    | some t =>
      obtain ⟨d, hd, -, -, rfl⟩ := hc.tomb t ht
      by_cases hlt : d.stamp < x.stamp
      · exact if_pos hlt
      · rw [le_antisymm (hle d hd) (le_of_not_gt hlt)]
        exact ite_self _

theorem cellRun_mapOp (h : Harmonious ops)
    (hno : ∀ o ∈ ops, role o.slot p ≠ .through) (hslot : RegisterSlot ops p)
    (hx : x ∈ ops) (hxs : x.slot = p) (hmax : ∀ y ∈ ops, y.slot = p → y.stamp ≤ x.stamp)
    (hmap : x.op.registerValue = none) :
    ∃ c, cellRun p ops = some c ∧ c.observe = x.op.written.map Observation.register := by
  obtain ⟨c, hc, -, hdone⟩ := cellRun_at hno
    (P := fun pre c => RegisterCell p pre c ∧ (x ∈ pre → Decided x c))
    ⟨.empty p, fun hin => absurd hin List.not_mem_nil⟩
    (by
      intro pre a c hpre ha hs ⟨hcell, hdone⟩
      by_cases hin : x ∈ pre
      · have hsame := (hdone hin).act hslot hx hxs hmap ha hs (not_lt_of_ge (hmax a ha hs))
        exact ⟨c, hsame, hcell.keep, fun _ => hdone hin⟩
      · obtain ⟨c', hact, hcell'⟩ := hslot.step hpre hcell ha hs
        refine ⟨c', hact, hcell', ?_⟩
        intro hin'
        have hxa : x = a := by
          rcases List.mem_append.1 hin' with hin' | hin'
          · exact absurd hin' hin
          · exact List.mem_singleton.1 hin'
        subst hxa
        refine hcell.decide hact (fun o ho => hmax o (hpre o ho).1 (hpre o ho).2) ?_
        intro o ho hor
        obtain ⟨hoo, hos⟩ := hpre o ho
        refine lt_of_le_of_ne (hmax o hoo hos) ?_
        intro heq
        rcases hor with hw | hw
        · rw [h.eq_of_stamp hslot hoo hos hx hxs hw heq] at ho
          exact hin ho
        · rw [← h.eq_of_stamp hslot hx hxs hoo hos hw heq.symm] at ho
          exact hin ho)
  refine ⟨c, hc, ?_⟩
  obtain ⟨hset, hdel⟩ := hdone (List.mem_filter.2 ⟨hx, by simp [hxs]⟩)
  unfold Cell.observe
  rcases OpKind.competes_cases (hslot.competes x hx hxs) with
    hd | ⟨v, hv⟩ | ⟨v, hv⟩
  · rw [(hdel hd).1, OpKind.written_of_isDelete hd]
    rfl
  · rw [hset v hv, OpKind.written_of_mapValue hv]
    rfl
  · rw [hmap] at hv
    cases hv

/-- The cell shows the newest write so far, wherever its entry began. -/
def Latest (pre : List Op) (c : Cell) : Prop :=
  (∀ o ∈ pre, o.op.written = none) ∧ c.entry = none
  ∨ ∃ y ∈ pre, ∃ v st, y.op.written = some v
    ∧ (∀ z ∈ pre, z.op.written.isSome → z.stamp ≤ y.stamp)
    ∧ c.entry = some (.leaf (.register { value := v, stamp := y.stamp }), st)

theorem forall_mem_snoc {α : Type} {P : α → Prop} {l : List α} {a : α}
    (h : ∀ x ∈ l, P x) (ha : P a) : ∀ x ∈ l ++ [a], P x := by
  intro x hx
  rcases List.mem_append.1 hx with hx | hx
  · exact h x hx
  · rw [List.mem_singleton.1 hx]
    exact ha

theorem Latest.keep {a y : Op} (hy : y ∈ pre) (hv : y.op.written = some v)
    (hnew : ∀ z ∈ pre, z.op.written.isSome → z.stamp ≤ y.stamp)
    (he : c.entry
      = some (.leaf (.register { value := v, stamp := y.stamp }), st))
    (ha : a.op.written.isSome → a.stamp ≤ y.stamp) : Latest (pre ++ [a]) c :=
  Or.inr ⟨y, List.mem_append_left _ hy, v, st, hv, forall_mem_snoc hnew ha, he⟩

theorem Latest.taken {a : Op} {tomb : Option Stamp} (hv : a.op.written = some v)
    (hnew : ∀ z ∈ pre, z.op.written.isSome → z.stamp ≤ a.stamp) :
    Latest (pre ++ [a])
      { entry := some (.leaf (.register { value := v, stamp := a.stamp }), st)
        tomb } :=
  Or.inr ⟨a, List.mem_append_right _ (List.mem_singleton.2 rfl), v, st, hv,
    forall_mem_snoc hnew fun _ => le_refl _, rfl⟩

/-- The newest op of a register slot decides, where it is a register
write. Then no deletion beats a write, and the one map write there may be
beats none. -/
theorem cellRun_registerSet (h : Harmonious ops)
    (hno : ∀ o ∈ ops, role o.slot p ≠ .through) (hslot : RegisterSlot ops p)
    (hx : x ∈ ops) (hxs : x.slot = p) (hmax : ∀ y ∈ ops, y.slot = p → y.stamp ≤ x.stamp)
    (hreg : x.op.registerValue.isSome) :
    ∃ c, cellRun p ops = some c ∧ c.observe = x.op.written.map Observation.register := by
  have hmap : ∀ m ∈ ops, m.slot = p → m.op.mapValue.isSome →
      (∀ w ∈ ops, w.slot = p → w.op.written.isSome → m.stamp ≤ w.stamp)
      ∧ ∀ d ∈ ops, d.slot = p → d.op.isDelete → d.stamp < m.stamp := by
    intro m hm hms hmv
    have hsecond : ∀ r ∈ ops, r.slot = p → r.op.registerValue.isSome →
        (∀ w ∈ ops, w.slot = m.slot → w.op.mapValue.isSome → w = m)
        ∧ m.stamp < r.stamp
        ∧ ∀ d ∈ ops, d.slot = m.slot → d.op.isDelete → d.stamp < m.stamp := by
      intro r hr hrs hrv
      rcases h.registers m hm r hr (hms.trans hrs.symm) hmv hrv with
        ⟨w, hw, hws, -, hbeats⟩ | hrest
      · have hlt := hbeats x hx (hxs.trans hms.symm) hreg
        exact absurd hlt (not_lt_of_ge (hmax w hw (hws.trans hms)))
      · exact hrest
    obtain ⟨hone, -, hdel⟩ := hsecond x hx hxs hreg
    refine ⟨?_, fun d hd hds => hdel d hd (hds.trans hms.symm)⟩
    intro w hw hws hwv
    rcases OpKind.competes_cases (hslot.competes w hw hws) with
      hd | ⟨v, hv⟩ | ⟨v, hv⟩
    · rw [OpKind.written_of_isDelete hd] at hwv
      cases hwv
    · rw [hone w hw (hws.trans hms.symm) (by rw [hv]; rfl)]
    · exact le_of_lt (hsecond w hw hws (by rw [hv]; rfl)).2.1
  -- no deletion beats a write
  have hdel : ∀ d ∈ ops, d.slot = p → d.op.isDelete → ∀ w ∈ ops,
      w.slot = p → w.op.written.isSome → d.stamp < w.stamp := by
    intro d hd hds hdd w hw hws hwv
    rcases OpKind.competes_cases (hslot.competes w hw hws) with
      hwd | ⟨v, hv⟩ | ⟨v, hv⟩
    · rw [OpKind.written_of_isDelete hwd] at hwv
      cases hwv
    · exact (hmap w hw hws (by rw [hv]; rfl)).2 d hd hds hdd
    · exact hslot.deletes d hd hds hdd w hw hws (by rw [hv]; rfl)
  have hfree : ∀ pre : List Op, (∀ o ∈ pre, o ∈ ops ∧ o.slot = p) →
      ∀ c, RegisterCell p pre c → ∀ w ∈ ops, w.slot = p →
      w.op.written.isSome → ¬ c.buried w.stamp := by
    intro pre hpre c hcell w hw hws hwv
    exact hcell.tomb.not_buried fun d hd hds hdd =>
      hdel d (hpre d hd).1 hds hdd w hw hws hwv
  obtain ⟨c, hc, -, hlatest⟩ := cellRun_at hno
    (P := fun pre c => RegisterCell p pre c ∧ Latest pre c)
    ⟨.empty p, Or.inl ⟨fun _ ho => absurd ho List.not_mem_nil, rfl⟩⟩
    (by
      intro pre a c hpre ha hs ⟨hcell, hlatest⟩
      rcases OpKind.competes_cases (hslot.competes a ha hs) with
        had | ⟨v, hv⟩ | ⟨v, hv⟩
      · have hnone := OpKind.written_of_isDelete had
        rw [Cell.act_delete had]
        rcases hlatest with ⟨hall, he⟩ | ⟨y, hy, v, st, hv, hnew, he⟩
        · exact ⟨_, Cell.mapDelete_free he, hcell.cleared hs had,
            Or.inl ⟨forall_mem_snoc hall hnone, rfl⟩⟩
        · obtain ⟨-, o, ho, how, rfl⟩ := hcell.entry _ _ he
          have hlt := hdel a ha hs had o (hpre o ho).1 (hpre o ho).2 how
          exact ⟨c, Cell.mapDelete_older he (not_lt_of_gt hlt), hcell.keep,
            Latest.keep hy hv hnew he fun hw => by rw [hnone] at hw; cases hw⟩
      · have hw := OpKind.written_of_mapValue hv
        have hwv : a.op.written.isSome := by rw [hw]; rfl
        rw [Cell.act_mapValue hv]
        rcases hlatest with ⟨hall, he⟩ | ⟨y, hy, v', st, hv', hnew, he⟩
        · refine ⟨_, Cell.mapSet_newer (hfree pre hpre c hcell a ha hs hwv)
            ?_, hcell.taken hw, Latest.taken hw fun o ho how => ?_⟩
          · intro sh st hsome
            rw [he] at hsome
            cases hsome
          · rw [hall o ho] at how
            cases how
        · obtain ⟨hle, -⟩ := hmap a ha hs (by rw [hv]; rfl)
          obtain ⟨-, o, ho, how, rfl⟩ := hcell.entry _ _ he
          exact ⟨c, Cell.mapSet_older he (not_lt_of_ge
              (hle o (hpre o ho).1 (hpre o ho).2 how)), hcell.keep,
            Latest.keep hy hv' hnew he fun _ =>
              hle y (hpre y hy).1 (hpre y hy).2 (by rw [hv']; rfl)⟩
      · have hw := OpKind.written_of_registerValue hv
        have hwv : a.op.written.isSome := by rw [hw]; rfl
        rw [Cell.act_leaf (OpKind.leafKind_eq_register.2 ⟨v, hv⟩)]
        rcases hlatest with ⟨hall, he⟩ | ⟨y, hy, v', st, hv', hnew, he⟩
        · refine ⟨_, Cell.leafOp_register_free hv he
            (hfree pre hpre c hcell a ha hs hwv), hcell.taken hw,
            Latest.taken hw fun o ho how => ?_⟩
          rw [hall o ho] at how
          cases how
        · refine ⟨_, Cell.leafOp_register_on hv he, hcell.rewritten he, ?_⟩
          unfold LwwRegister.write
          by_cases hlt : y.stamp < a.stamp
          · rw [if_pos hlt]
            exact Latest.taken hw fun o ho how =>
              (hnew o ho how).trans (le_of_lt hlt)
          · rw [if_neg hlt]
            exact Latest.keep hy hv' hnew rfl fun _ => le_of_not_gt hlt)
  refine ⟨c, hc, ?_⟩
  have hxw : x.op.written.isSome := by
    obtain ⟨v, hv⟩ := Option.isSome_iff_exists.1 hreg
    rw [OpKind.written_of_registerValue hv]
    rfl
  have hxmem : x ∈ ops.filter fun o => o.slot = p :=
    List.mem_filter.2 ⟨hx, by simp [hxs]⟩
  rcases hlatest with ⟨hall, -⟩ | ⟨y, hy, v, st, hv, hnew, he⟩
  · rw [hall x hxmem] at hxw
    cases hxw
  · rw [List.mem_filter, decide_eq_true_eq] at hy
    have heq : y = x := h.eq_of_stamp hslot hy.1 hy.2 hx hxs hxw
      (le_antisymm (hmax y hy.1 hy.2) (hnew x hxmem hxw))
    unfold Cell.observe
    rw [he, ← heq, hv]
    rfl

theorem cellRun_register (h : Harmonious ops)
    (hno : ∀ o ∈ ops, role o.slot p ≠ .through) (hslot : RegisterSlot ops p)
    (hx : x ∈ ops) (hxs : x.slot = p) (hmax : ∀ y ∈ ops, y.slot = p → y.stamp ≤ x.stamp) :
    ∃ c, cellRun p ops = some c ∧ c.observe = x.op.written.map Observation.register := by
  cases hr : x.op.registerValue with
  | none => exact cellRun_mapOp h hno hslot hx hxs hmax hr
  | some v =>
    exact cellRun_registerSet h hno hslot hx hxs hmax (by rw [hr]; rfl)

end OpenStandards.Crdt

/-
What a reader sees of a node, and the leaves other than registers as
folds of their ops: counters always end alike, sets do when no value is
both added and removed, lists and texts when a parent and a position
name one insertion and no inserted position is deleted.
-/
import OpenStandards.Crdt.Proofs.Cells
import OpenStandards.Crdt.Proofs.Rga

namespace OpenStandards.Crdt

open Lib

-- ==== observations

/-- What a reader sees of a node. -/
inductive Observation where
  | map
  | register (value : Value)
  | counter (value : Int)
  | set (members : Set Value)
  | list (elements : List (Option Value))
  | text (chars : List Char)

def elementValue : CrdtNode → Option Value
  | .register r => some r.value
  | _ => none

/-- What a reader sees of a node. -/
def CrdtNode.observe : CrdtNode → Observation
  | .map _ => .map
  | .register r => .register r.value
  | .counter c => .counter c.value
  | .set s => .set {v | s.contains v}
  | .list l => .list (l.toVec.map elementValue)
  | .text t => .text t.toVec

def Shape.observe : Shape → Observation
  | .map => .map
  | .leaf n => n.observe

theorem observe_shape (n : CrdtNode) : n.shape.observe = n.observe := by
  cases n <;> rfl

-- ==== leaf kinds

/-- The kinds of leaves. -/
inductive LeafKind where
  | register
  | counter
  | set
  | list
  | text
deriving DecidableEq

def OpKind.leafKind : OpKind → Option LeafKind
  | .registerSet _ => some .register
  | .counterAdd _ => some .counter
  | .setAdd .. | .setRemove _ => some .set
  | .listInsert .. | .listDelete _ => some .list
  | .textInsert .. | .textDelete _ => some .text
  | .mapSet .. | .mapDelete _ => none

/-- The leaf of a kind before any op (no op creates an empty
register). -/
def LeafKind.seed : LeafKind → CrdtNode
  | .register => .map .new
  | .counter => .counter .new
  | .set => .set .new
  | .list => .list .new
  | .text => .text .new

def LeafKind.Is : LeafKind → CrdtNode → Prop
  | .register, .register _ => True
  | .counter, .counter _ => True
  | .set, .set _ => True
  | .list, .list _ => True
  | .text, .text _ => True
  | _, _ => False

variable {k : LeafKind} {ops : List Op}

theorem seedTerminalNode_eq {kind : OpKind} (hk : kind.leafKind = some k)
    (hne : k ≠ .register) (st : Stamp) :
    seedTerminalNode kind st = k.seed := by
  cases kind <;> cases hk <;> first | rfl | exact absurd rfl hne

theorem seed_is (hne : k ≠ .register) : k.Is k.seed := by
  cases k <;> trivial

theorem applyTerminal_leaf {o : Op} (hk : o.op.leafKind = some k) {n : CrdtNode} (hn : k.Is n) :
    (applyTerminal n o).1 = .ok () ∧ k.Is (applyTerminal n o).2 := by
  unfold applyTerminal
  cases hop : o.op <;> rw [hop] at hk <;> cases hk <;> cases n <;>
    first | exact ⟨rfl, trivial⟩ | exact hn.elim

theorem ne_map_of_is {n : CrdtNode} (h : k.Is n) : ∀ m, n ≠ .map m := by
  intro m heq
  rw [heq] at h
  cases k <;> exact h

def foldLeaf (n : CrdtNode) (ops : List Op) : CrdtNode :=
  ops.foldl (fun n o => (applyTerminal n o).2) n

theorem foldLeaf_is :
    ∀ {ops : List Op} {n : CrdtNode}, k.Is n →
      (∀ o ∈ ops, o.op.leafKind = some k) → k.Is (foldLeaf n ops) := by
  intro ops
  induction ops with
  | nil =>
    intro n hn _
    exact hn
  | cons o ops ih =>
    intro n hn hk
    exact ih (applyTerminal_leaf (hk o List.mem_cons_self) hn).2
      fun o' ho' => hk o' (List.mem_cons_of_mem _ ho')

theorem foldLeaf_eq {T : Type} {wrap : T → CrdtNode} {step : T → Op → T}
    (hstep : ∀ t o, o.op.leafKind = some k → (applyTerminal (wrap t) o).2 = wrap (step t o)) :
    ∀ {ops : List Op} {t : T}, (∀ o ∈ ops, o.op.leafKind = some k) →
      foldLeaf (wrap t) ops = wrap (ops.foldl step t) := by
  intro ops
  induction ops with
  | nil =>
    intro t _
    rfl
  | cons o ops ih =>
    intro t hk
    show foldLeaf (applyTerminal (wrap t) o).2 ops = _
    rw [hstep t o (hk o List.mem_cons_self)]
    exact ih fun o' ho' => hk o' (List.mem_cons_of_mem _ ho')

-- ==== counters

def counterStep (c : PnCounter) (o : Op) : PnCounter :=
  match o.op with
  | .counterAdd delta => c.apply o.replica delta
  | _ => c

theorem foldLeaf_counter {c : PnCounter} (hk : ∀ o ∈ ops, o.op.leafKind = some .counter) :
    foldLeaf (.counter c) ops = .counter (ops.foldl counterStep c) := by
  refine foldLeaf_eq ?_ hk
  intro c o ho
  unfold applyTerminal counterStep
  cases hop : o.op <;> first | rfl | (rw [hop] at ho; cases ho)

/-- The same contribution from each replica. -/
def GCounter.Same (c c' : GCounter) : Prop :=
  ∀ r, c.entries.lookup r = c'.entries.lookup r

theorem GCounter.Same.value_eq {c c' : GCounter} (h : c.Same c') : c.value = c'.value := by
  have hperm : c.entries.entries.Perm c'.entries.entries :=
    List.lookup_ext c.entries.nodupKeys c'.entries.nodupKeys fun r n => by
      show n ∈ c.entries.lookup r ↔ n ∈ c'.entries.lookup r
      rw [h r]
  unfold GCounter.value Table.values
  rw [(hperm.map _).sum_eq]

theorem GCounter.lookup_increment (c : GCounter) (r r' : ReplicaId) (n : Nat) :
    (c.increment r n).entries.lookup r'
      = if r' = r then some (min (c.get r + n) maxU64)
        else c.entries.lookup r' :=
  Table.lookup_insert_eq ..

theorem GCounter.get_increment (c : GCounter) (r r' : ReplicaId) (n : Nat) :
    (c.increment r n).get r' = if r' = r then min (c.get r + n) maxU64 else c.get r' := by
  unfold GCounter.get
  rw [GCounter.lookup_increment]
  by_cases h : r' = r
  · rw [if_pos h, if_pos h]
    rfl
  · rw [if_neg h, if_neg h]

theorem GCounter.Same.increment {c c' : GCounter} (h : c.Same c') (r : ReplicaId) (n : Nat) :
    (c.increment r n).Same (c'.increment r n) := by
  intro r'
  rw [GCounter.lookup_increment, GCounter.lookup_increment, h r']
  unfold GCounter.get
  rw [h r]

theorem GCounter.increment_comm (c : GCounter) (r r' : ReplicaId) (n n' : Nat) :
    ((c.increment r n).increment r' n').Same ((c.increment r' n').increment r n) := by
  intro x
  simp only [GCounter.lookup_increment, GCounter.get_increment]
  by_cases hx : x = r'
  · by_cases hx' : x = r
    · subst hx hx'
      simp only [if_pos]
      congr 1
      omega
    · subst hx
      simp only [if_pos, if_neg hx', if_neg (Ne.symm hx')]
  · by_cases hx' : x = r
    · subst hx'
      simp only [if_pos, if_neg hx, if_neg (Ne.symm hx)]
    · simp only [if_neg hx, if_neg hx']

/-- The same counter up to the order of its entries. -/
def PnCounter.Same (c c' : PnCounter) : Prop :=
  c.positive.Same c'.positive ∧ c.negative.Same c'.negative

theorem PnCounter.Same.value_eq {c c' : PnCounter} (h : c.Same c') : c.value = c'.value := by
  unfold PnCounter.value
  rw [h.1.value_eq, h.2.value_eq]

/-- Counters end alike in every order. -/
theorem counter_perm {ops' : List Op} (hp : ops.Perm ops') :
    (ops.foldl counterStep .new).value = (ops'.foldl counterStep .new).value := by
  have hrefl : ∀ c : PnCounter, c.Same c := fun c => ⟨fun _ => rfl, fun _ => rfl⟩
  refine (foldl_rel_of_perm (E := PnCounter.Same) ?_ hrefl ?_ hp ?_ _ _ (hrefl _)).value_eq
  · intro a b c hab hbc
    exact ⟨fun r => (hab.1 r).trans (hbc.1 r),
      fun r => (hab.2 r).trans (hbc.2 r)⟩
  · intro c c' o h
    unfold counterStep
    cases o.op <;> try exact h
    next delta =>
      unfold PnCounter.apply
      by_cases hd : 0 ≤ delta.val
      · simp only [if_pos hd]
        exact ⟨h.1.increment _ _, h.2⟩
      · simp only [if_neg hd]
        exact ⟨h.1, h.2.increment _ _⟩
  · intro o _ o' _ c
    unfold counterStep
    cases o.op <;> try exact hrefl _
    cases o'.op <;> try exact hrefl _
    next delta delta' =>
      unfold PnCounter.apply
      by_cases hd : 0 ≤ delta.val
      · by_cases hd' : 0 ≤ delta'.val
        · simp only [if_pos hd, if_pos hd']
          exact ⟨GCounter.increment_comm _ _ _ _ _, fun _ => rfl⟩
        · simp only [if_pos hd, if_neg hd']
          exact hrefl _
      · by_cases hd' : 0 ≤ delta'.val
        · simp only [if_neg hd, if_pos hd']
          exact hrefl _
        · simp only [if_neg hd, if_neg hd']
          exact ⟨fun _ => rfl, GCounter.increment_comm _ _ _ _ _⟩

-- ==== sets

def setStep (s : OrSet Value) (o : Op) : OrSet Value :=
  match o.op with
  | .setAdd value tag => s.add value tag
  | .setRemove value => s.remove value
  | _ => s

theorem foldLeaf_set {s : OrSet Value} (hk : ∀ o ∈ ops, o.op.leafKind = some .set) :
    foldLeaf (.set s) ops = .set (ops.foldl setStep s) := by
  refine foldLeaf_eq ?_ hk
  intro s o ho
  unfold applyTerminal setStep
  cases hop : o.op <;> first | rfl | (rw [hop] at ho; cases ho)

def OrSet.Same (s s' : OrSet Value) : Prop :=
  (∀ v, s.tags v = s'.tags v) ∧ s.removedTags = s'.removedTags

theorem OrSet.Same.contains_iff {s s' : OrSet Value} (h : s.Same s')
    (v : Value) : s.contains v ↔ s'.contains v := by
  unfold OrSet.contains
  rw [h.1 v, h.2]

theorem OrSet.tags_add (s : OrSet Value) (v v' : Value) (t : UniqueTag) :
    (s.add v t).tags v' = if v' = v then insert t (s.tags v)
      else s.tags v' := by
  unfold OrSet.tags OrSet.add
  rw [Table.lookup_insert_eq]
  by_cases h : v' = v
  · rw [if_pos h, if_pos h]
    rfl
  · rw [if_neg h, if_neg h]

/-- The two steps do not interfere: not an addition and a removal of one
value. -/
def SetApart (o o' : Op) : Prop :=
  ∀ v t, o.op = .setAdd v t → o'.op ≠ .setRemove v

theorem set_perm {ops' : List Op} (hp : ops.Perm ops')
    (hapart : ∀ o ∈ ops, ∀ o' ∈ ops, SetApart o o') (v : Value) :
    (ops.foldl setStep .new).contains v ↔ (ops'.foldl setStep .new).contains v := by
  have hrefl : ∀ s : OrSet Value, s.Same s := fun s => ⟨fun _ => rfl, rfl⟩
  have hadd : ∀ (s : OrSet Value) v t v' t',
      ((s.add v t).add v' t').Same ((s.add v' t').add v t) := by
    intro s v t v' t'
    refine ⟨?_, rfl⟩
    intro x
    simp only [OrSet.tags_add]
    by_cases hx : x = v'
    · by_cases hx' : x = v
      · subst hx hx'
        simp only [if_pos]
        exact Finset.insert_comm ..
      · subst hx
        simp only [if_pos, if_neg hx', if_neg (Ne.symm hx')]
    · by_cases hx' : x = v
      · subst hx'
        simp only [if_pos, if_neg hx, if_neg (Ne.symm hx)]
      · simp only [if_neg hx, if_neg hx']
  have hremove : ∀ (s : OrSet Value) v t v', v' ≠ v →
      ((s.add v t).remove v').Same ((s.remove v').add v t) := by
    intro s v t v' hne
    refine ⟨fun _ => rfl, ?_⟩
    show s.removedTags ∪ (s.add v t).tags v' = s.removedTags ∪ s.tags v'
    rw [OrSet.tags_add, if_neg hne]
  refine (foldl_rel_of_perm (E := OrSet.Same) ?_ hrefl ?_ hp ?_ _ _ (hrefl _)).contains_iff v
  · intro a b c hab hbc
    exact ⟨fun v => (hab.1 v).trans (hbc.1 v), hab.2.trans hbc.2⟩
  · intro s s' o h
    unfold setStep
    cases o.op <;> try exact h
    next value tag =>
      refine ⟨?_, h.2⟩
      intro x
      rw [OrSet.tags_add, OrSet.tags_add, h.1 x, h.1 value]
    next value =>
      refine ⟨h.1, ?_⟩
      show s.removedTags ∪ s.tags value = s'.removedTags ∪ s'.tags value
      rw [h.1 value, h.2]
  · intro o ho o' ho' s
    unfold setStep
    cases hop : o.op <;> try exact hrefl _
    next value tag =>
      cases hop' : o'.op <;> try exact hrefl _
      next value' tag' => exact hadd ..
      next value' =>
        refine hremove s value tag value' ?_
        intro heq
        exact hapart o ho o' ho' value tag hop (heq ▸ hop')
    next value =>
      cases hop' : o'.op <;> try exact hrefl _
      next value' tag' =>
        have hne : value ≠ value' := by
          intro heq
          exact hapart o' ho' o ho value' tag' hop' (heq ▸ hop)
        have h := hremove s value' tag' value hne
        exact ⟨fun x => (h.1 x).symm, h.2.symm⟩
      next value' =>
        refine ⟨fun _ => rfl, ?_⟩
        show (s.removedTags ∪ s.tags value) ∪ s.tags value'
          = (s.removedTags ∪ s.tags value') ∪ s.tags value
        rw [Finset.union_right_comm]

-- ==== lists and texts

def listNode (o : Op) : Option (RgaNode CrdtNode) :=
  match o.op with
  | .listInsert parent value pos =>
    some { pos, parent, value := .register { value, stamp := o.stamp }
           tombstone := false }
  | _ => none

def listDeleted (o : Op) : Option RgaPos :=
  match o.op with
  | .listDelete pos => some pos
  | _ => none

def textNode (o : Op) : Option (RgaNode Char) :=
  match o.op with
  | .textInsert parent ch pos =>
    some { pos, parent, value := ch, tombstone := false }
  | _ => none

def textDeleted (o : Op) : Option RgaPos :=
  match o.op with
  | .textDelete pos => some pos
  | _ => none

section

variable {T : Type} (nodeOf : Op → Option (RgaNode T))
  (deletedOf : Op → Option RgaPos)

def seqStep (l : RgaList T) (o : Op) : RgaList T :=
  match nodeOf o with
  | some n => { nodes := resort (l.nodes ++ [n]) }
  | none =>
    match deletedOf o with
    | some pos => l.delete pos
    | none => l

variable {nodeOf deletedOf}

/-- Where no inserted position is deleted, the sequence is the traversal
order of the inserted nodes. -/
theorem foldl_seqStep {ops : List Op} (hid : Identified (ops.filterMap nodeOf))
    (hdel : ∀ n ∈ ops.filterMap nodeOf, ∀ pos ∈ ops.filterMap deletedOf, n.pos ≠ pos) :
    (ops.foldl (seqStep nodeOf deletedOf) .new).nodes = resort (ops.filterMap nodeOf) := by
  suffices haux : ∀ (post pre : List Op), pre ++ post = ops →
      (post.foldl (seqStep nodeOf deletedOf)
        { nodes := resort (pre.filterMap nodeOf) }).nodes
        = resort (ops.filterMap nodeOf) by
    exact haux ops [] rfl
  intro post
  induction post with
  | nil =>
    intro pre hpre
    rw [List.append_nil] at hpre
    rw [hpre]
    rfl
  | cons o post ih =>
    intro pre hpre
    have hnext : (pre ++ [o]) ++ post = ops := by
      rw [List.append_assoc]
      exact hpre
    have hsub : ∀ n ∈ (pre ++ [o]).filterMap nodeOf, n ∈ ops.filterMap nodeOf := by
      intro n hn
      rw [← hnext, List.filterMap_append]
      exact List.mem_append_left _ hn
    rw [List.foldl_cons, ← ih (pre ++ [o]) hnext]
    congr 2
    unfold seqStep
    cases hn : nodeOf o with
    | some n =>
      rw [List.filterMap_append, List.filterMap_cons_some hn, List.filterMap_nil]
      show RgaList.mk (resort (resort _ ++ [n])) = _
      rw [resort_eq_of_perm ?_ ((resort_perm (pre.filterMap nodeOf)).append_right [n])]
      intro a ha b hb
      have hmem : ∀ x ∈ resort (pre.filterMap nodeOf) ++ [n], x ∈ ops.filterMap nodeOf := by
        intro x hx
        refine hsub x ?_
        rw [List.filterMap_append, List.filterMap_cons_some hn, List.filterMap_nil]
        exact ((resort_perm (pre.filterMap nodeOf)).append_right
          [n]).mem_iff.1 hx
      exact hid a (hmem a ha) b (hmem b hb)
    | none =>
      rw [List.filterMap_append, List.filterMap_cons_none hn,
        List.filterMap_nil, List.append_nil]
      cases hd : deletedOf o with
      | none => rfl
      | some pos =>
        show RgaList.mk (RgaList.markDeleted pos _) = _
        rw [markDeleted_of_not_mem]
        intro n hn'
        refine hdel n ?_ pos ?_
        · rw [← hpre, List.filterMap_append]
          exact List.mem_append_left _ ((resort_perm (pre.filterMap nodeOf)).mem_iff.1 hn')
        · rw [← hpre, List.mem_filterMap]
          exact ⟨o, List.mem_append_right _ List.mem_cons_self, hd⟩

/-- Two orders of such a sequence end alike. -/
theorem seq_perm {ops ops' : List Op} (hp : ops.Perm ops')
    (hid : Identified (ops.filterMap nodeOf))
    (hdel : ∀ n ∈ ops.filterMap nodeOf, ∀ pos ∈ ops.filterMap deletedOf, n.pos ≠ pos) :
    (ops.foldl (seqStep nodeOf deletedOf) .new).nodes
      = (ops'.foldl (seqStep nodeOf deletedOf) .new).nodes := by
  have hperm := hp.filterMap nodeOf
  rw [foldl_seqStep hid hdel, foldl_seqStep (hid.perm hperm) ?_]
  · exact resort_eq_of_perm hid hperm
  · intro n hn pos hpos
    exact hdel n (hperm.mem_iff.2 hn) pos ((hp.filterMap deletedOf).mem_iff.2 hpos)

end

theorem foldLeaf_list {l : RgaList CrdtNode} (hk : ∀ o ∈ ops, o.op.leafKind = some .list) :
    foldLeaf (.list l) ops = .list (ops.foldl (seqStep listNode listDeleted) l) := by
  refine foldLeaf_eq ?_ hk
  intro l o ho
  unfold applyTerminal seqStep listNode listDeleted
  cases hop : o.op <;> first | rfl | (rw [hop] at ho; cases ho)

theorem foldLeaf_text {t : RgaList Char} (hk : ∀ o ∈ ops, o.op.leafKind = some .text) :
    foldLeaf (.text t) ops = .text (ops.foldl (seqStep textNode textDeleted) t) := by
  refine foldLeaf_eq ?_ hk
  intro t o ho
  unfold applyTerminal seqStep textNode textDeleted
  cases hop : o.op <;> first | rfl | (rw [hop] at ho; cases ho)

end OpenStandards.Crdt

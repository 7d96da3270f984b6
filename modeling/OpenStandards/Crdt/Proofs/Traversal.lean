/-
An insertion keeps the reader's order.

The traversal is a walk with a stack and a table of children, which only
matters through what it answers: `emit` is the walk over such answers. Of a
causally closed list the walk reaches everything: a node it missed would
have a parent it missed, and so on (`CausallyClosed.resort_eq_emit`).

A new node is one more child of its parent. Up to the parent both walks do
the same; from there the stacks differ by the new node, and what is emitted
before it is popped are the subtrees of its larger siblings (`emit_splice`).
-/
import OpenStandards.Crdt.Proofs.Lists
import Mathlib.Data.Set.Finite.Basic
import Mathlib.Order.WellFounded

namespace OpenStandards.Crdt

open Lib

variable {T : Type}

-- ==== the walk

def children (nodes : List (RgaNode T)) (k : Option RgaPos) : List (RgaNode T) :=
  (nodes.filter fun n => n.parent = k).insertionSort newerFirst

/-- The walk, over what a table answers. -/
def emit : Nat → List (RgaNode T) → (Option RgaPos → List (RgaNode T)) → List (RgaNode T)
  | 0, _, _ => []
  | _ + 1, [], _ => []
  | fuel + 1, n :: stack, f =>
    n :: emit fuel (f (some n.pos) ++ stack) (Function.update f (some n.pos) [])

def Groups.answers (g : Groups T) (k : Option RgaPos) : List (RgaNode T) :=
  (Assoc.get g k).getD []

theorem answers_erase (g : Groups T) (k : Option RgaPos) :
    Groups.answers (Assoc.erase g k) = Function.update g.answers k [] := by
  funext k'
  unfold Groups.answers
  by_cases hk : k' = k
  · subst hk
    rw [Assoc.get_erase_self, Function.update_self]
    rfl
  · rw [Assoc.get_erase_of_ne _ hk, Function.update_of_ne hk]

theorem walk_eq_emit (fuel : Nat) (stack : List (RgaNode T)) (g : Groups T) :
    (walk fuel stack g).1 = emit fuel stack g.answers := by
  induction fuel generalizing stack g with
  | zero => rfl
  | succ fuel ih =>
    cases stack with
    | nil => rfl
    | cons n stack =>
      rw [walk_cons]
      show n :: (walk fuel _ _).1 = n :: emit fuel _ _
      rw [ih, answers_erase]
      rfl

theorem answers_byParent (nodes : List (RgaNode T)) :
    (byParent nodes).answers = children nodes := by
  funext k
  have hget : ∀ keys : List (Option RgaPos),
      Assoc.get (keys.map fun p => (p, children nodes p)) k
        = if k ∈ keys then some (children nodes k) else none := by
    intro keys
    induction keys with
    | nil => rfl
    | cons k' keys ih =>
      show (if k = k' then some (children nodes k') else
        Assoc.get (keys.map fun p => (p, children nodes p)) k) = _
      by_cases hk : k = k'
      · subst hk
        rw [if_pos rfl, if_pos List.mem_cons_self]
      · rw [if_neg hk, ih]
        simp only [List.mem_cons, hk, false_or]
  show (Assoc.get (byParent nodes) k).getD [] = children nodes k
  unfold byParent
  rw [show (fun p => (p, (nodes.filter fun n => n.parent = p).insertionSort
      newerFirst)) = fun p => (p, children nodes p) from rfl, hget]
  by_cases hk : k ∈ (nodes.map RgaNode.parent).dedup.insertionSort parentLe
  · rw [if_pos hk]
    rfl
  · rw [if_neg hk]
    rw [List.mem_insertionSort, List.mem_dedup] at hk
    have hnone : (nodes.filter fun n => n.parent = k) = [] := by
      apply List.filter_eq_nil_iff.2
      intro n hn heq
      exact hk (of_decide_eq_true heq ▸ List.mem_map_of_mem hn)
    unfold children
    rw [hnone]
    rfl

-- ==== nothing is missed

/-- `b` was inserted after `a`. -/
def Child (nodes : List (RgaNode T)) (a b : RgaPos) : Prop :=
  ∃ n ∈ nodes, n.pos = b ∧ n.parent = some a

/-- Positions are held once, every parent is held, and no position is below
itself. -/
structure CausallyClosed (nodes : List (RgaNode T)) : Prop where
  distinct : Distinct nodes
  parents : ∀ n ∈ nodes, ∀ p, n.parent = some p → ∃ m ∈ nodes, m.pos = p
  acyclic : ∀ p, ¬ Relation.TransGen (Child nodes) p p

variable {nodes : List (RgaNode T)}

theorem CausallyClosed.perm {nodes' : List (RgaNode T)}
    (h : CausallyClosed nodes) (hp : nodes.Perm nodes') :
    CausallyClosed nodes' := by
  have hchild : Child nodes' = Child nodes := by
    funext a b
    unfold Child
    simp only [hp.mem_iff]
  refine ⟨h.distinct.perm hp, fun n hn p hparent => ?_, ?_⟩
  · obtain ⟨m, hm, hpos⟩ := h.parents n (hp.mem_iff.2 hn) p hparent
    exact ⟨m, hp.mem_iff.1 hm, hpos⟩
  · rw [hchild]
    exact h.acyclic

/-- What the walk leaves was in the table, under no position it emitted. -/
theorem mem_walk_rest {fuel : Nat} {stack : List (RgaNode T)} {g : Groups T}
    {e : Option RgaPos × List (RgaNode T)} (h : e ∈ (walk fuel stack g).2) :
    e ∈ g ∧ ∀ n ∈ (walk fuel stack g).1, e.1 ≠ some n.pos := by
  induction fuel generalizing stack g with
  | zero => exact ⟨h, fun n hn => absurd hn List.not_mem_nil⟩
  | succ fuel ih =>
    cases stack with
    | nil => exact ⟨h, fun n hn => absurd hn List.not_mem_nil⟩
    | cons n stack =>
      rw [walk_cons] at h ⊢
      obtain ⟨hmem, hout⟩ := ih h
      refine ⟨Assoc.mem_of_mem_erase hmem, fun m hm => ?_⟩
      rcases List.mem_cons.1 hm with rfl | hm
      · exact Assoc.ne_of_mem_erase hmem
      · exact hout m hm

/-- A finite set in which everything has a predecessor has a cycle. -/
theorem exists_cycle {α : Type} {r : α → α → Prop} {l : List α}
    (hne : l ≠ []) (hpred : ∀ b ∈ l, ∃ a ∈ l, r a b) :
    ∃ a, Relation.TransGen r a a := by
  by_contra hno
  rw [not_exists] at hno
  let below (a b : { x // x ∈ l }) : Prop := Relation.TransGen r a.1 b.1
  have htrans : IsTrans { x // x ∈ l } below :=
    ⟨fun _ _ _ => Relation.TransGen.trans⟩
  have hirrefl : Std.Irrefl below := ⟨fun a => hno a.1⟩
  have hfinite : Finite { x // x ∈ l } := l.finite_toSet.to_subtype
  have hwf : WellFounded below :=
    Finite.wellFounded_of_trans_of_irrefl below
  obtain ⟨x, hx⟩ := List.exists_mem_of_ne_nil l hne
  obtain ⟨m, -, hmin⟩ := hwf.has_min Set.univ ⟨⟨x, hx⟩, trivial⟩
  obtain ⟨a, ha, hr⟩ := hpred m.1 m.2
  exact hmin ⟨a, ha⟩ trivial (.single hr)

theorem CausallyClosed.rest_nil (h : CausallyClosed nodes) :
    Groups.nodes (walk nodes.length
        ((Assoc.get (byParent nodes) none).getD [])
        (Assoc.erase (byParent nodes) none)).2 = [] := by
  set out := walk nodes.length ((Assoc.get (byParent nodes) none).getD [])
    (Assoc.erase (byParent nodes) none) with hout
  have hperm : (out.1 ++ Groups.nodes out.2).Perm nodes := by
    refine (List.Perm.append_left _ ?_).trans (resort_perm nodes)
    exact (List.perm_insertionSort olderFirst _).symm
  by_contra hne
  -- a node that is left has a parent that is left
  have hpred : ∀ b ∈ (Groups.nodes out.2).map RgaNode.pos,
      ∃ a ∈ (Groups.nodes out.2).map RgaNode.pos, Child nodes a b := by
    intro b hb
    obtain ⟨n, hn, rfl⟩ := List.mem_map.1 hb
    have hmem : n ∈ nodes := hperm.mem_iff.1 (List.mem_append_right _ hn)
    obtain ⟨e, he, hne⟩ := List.mem_flatMap.1 hn
    obtain ⟨herase, hemitted⟩ := mem_walk_rest he
    have hhead := Assoc.ne_of_mem_erase herase
    obtain ⟨k, -, rfl⟩ := List.mem_map.1 (Assoc.mem_of_mem_erase herase)
    have hparent : n.parent = k := by
      rw [List.mem_insertionSort, List.mem_filter] at hne
      exact of_decide_eq_true hne.2
    cases k with
    | none => exact absurd rfl hhead
    | some p =>
      obtain ⟨m, hm, rfl⟩ := h.parents n hmem p hparent
      refine ⟨m.pos, List.mem_map_of_mem ?_, n, hmem, rfl, hparent⟩
      rcases List.mem_append.1 (hperm.mem_iff.2 hm) with hm' | hm'
      · exact absurd rfl (hemitted m hm')
      · exact hm'
  obtain ⟨p, hcycle⟩ := exists_cycle (fun hnil => hne (List.map_eq_nil_iff.1 hnil)) hpred
  exact h.acyclic p hcycle

/-- The traversal of a closed list is the walk alone. -/
theorem CausallyClosed.resort_eq_emit (h : CausallyClosed nodes) :
    resort nodes = emit nodes.length (children nodes none)
      (Function.update (children nodes) none []) := by
  have hrest := h.rest_nil
  unfold Groups.nodes at hrest
  rw [resort_eq, hrest, walk_eq_emit, answers_erase, answers_byParent]
  show emit _ ((byParent nodes).answers none) _ ++ [] = _
  rw [answers_byParent, List.append_nil]

-- ==== the splice

section Splice

variable {x : RgaNode T} {r : RgaPos → RgaPos → Prop}

/-- The new node is in neither the stack nor the table, and has no
children. -/
structure Absent (x : RgaNode T) (stack : List (RgaNode T))
    (f : Option RgaPos → List (RgaNode T)) : Prop where
  stack : ∀ n ∈ stack, n.pos ≠ x.pos
  table : ∀ k, ∀ n ∈ f k, n.pos ≠ x.pos
  leaf : f (some x.pos) = []

variable {f : Option RgaPos → List (RgaNode T)}

theorem mem_update_nil {k k' : Option RgaPos} {n : RgaNode T}
    (h : n ∈ Function.update f k [] k') : n ∈ f k' := by
  by_cases hk : k' = k
  · subst hk
    rw [Function.update_self] at h
    cases h
  · rw [Function.update_of_ne hk] at h
    exact h

theorem Absent.turn {stack : List (RgaNode T)} {n : RgaNode T} (h : Absent x (n :: stack) f) :
    Absent x (f (some n.pos) ++ stack) (Function.update f (some n.pos) []) :=
  { stack := fun m hm => by
      rcases List.mem_append.1 hm with hm | hm
      · exact h.table _ m hm
      · exact h.stack m (List.mem_cons_of_mem _ hm)
    table := fun k m hm => h.table k m (mem_update_nil hm)
    leaf := by
      apply List.eq_nil_iff_forall_not_mem.2
      intro m hm
      have hin := mem_update_nil hm
      rw [h.leaf] at hin
      cases hin }

/-- Once the new node is on the stack: until it is popped the walk emits the
subtrees of the nodes above it, then it goes on as without it. -/
theorem emit_splice {fuel : Nat} {above below : List (RgaNode T)}
    (habsent : Absent x above f) (hr : ∀ p, ∀ n ∈ f (some p), r p n.pos)
    (hx : x ∈ emit (fuel + 1) (above ++ x :: below) f) :
    ∃ pre post, emit (fuel + 1) (above ++ x :: below) f = pre ++ x :: post
      ∧ emit fuel (above ++ below) f = pre ++ post
      ∧ ∀ n ∈ pre, ∃ a ∈ above, Relation.ReflTransGen r a.pos n.pos := by
  induction fuel generalizing above f with
  | zero =>
    cases above with
    | nil =>
      exact ⟨[], [], rfl, rfl, fun n hn => absurd hn List.not_mem_nil⟩
    | cons a above =>
      rcases List.mem_cons.1 hx with heq | hx
      · exact absurd (congrArg RgaNode.pos heq.symm) (habsent.stack a List.mem_cons_self)
      · cases hx
  | succ fuel ih =>
    cases above with
    | nil =>
      have hsame : Function.update f (some x.pos) [] = f := by
        rw [← habsent.leaf, Function.update_eq_self]
      refine ⟨[], emit (fuel + 1) below f, ?_, rfl,
        fun n hn => absurd hn List.not_mem_nil⟩
      show x :: emit (fuel + 1) (f (some x.pos) ++ below) _ = _
      rw [habsent.leaf, hsame]
      rfl
    | cons a above =>
      have hrest : x ∈ emit (fuel + 1)
          ((f (some a.pos) ++ above) ++ x :: below)
          (Function.update f (some a.pos) []) := by
        rw [List.append_assoc]
        rcases List.mem_cons.1 hx with heq | hx
        · exact absurd (congrArg RgaNode.pos heq.symm) (habsent.stack a List.mem_cons_self)
        · exact hx
      obtain ⟨pre, post, hwith, hwithout, hunder⟩ := ih habsent.turn
        (fun p n hn => hr p n (mem_update_nil hn)) hrest
      rw [List.append_assoc] at hwith hwithout
      refine ⟨a :: pre, post, congrArg (a :: ·) hwith,
        congrArg (a :: ·) hwithout, fun n hn => ?_⟩
      rcases List.mem_cons.1 hn with rfl | hn
      · exact ⟨n, List.mem_cons_self .., .refl⟩
      · obtain ⟨c, hc, hcn⟩ := hunder n hn
        rcases List.mem_append.1 hc with hc | hc
        · exact ⟨a, List.mem_cons_self .., .head (hr _ c hc) hcn⟩
        · exact ⟨c, List.mem_cons_of_mem _ hc, hcn⟩

/-- Up to the parent of the new node both walks are the same. -/
theorem emit_child {fuel : Nat} {stack above below : List (RgaNode T)}
    {p : RgaPos} (habsent : Absent x stack f)
    (hr : ∀ q, ∀ n ∈ f (some q), r q n.pos) (hp : f (some p) = above ++ below)
    (hx : x ∈ emit (fuel + 1) stack (Function.update f (some p) (above ++ x :: below))) :
    ∃ before n pre post,
      emit (fuel + 1) stack (Function.update f (some p) (above ++ x :: below))
          = before ++ n :: (pre ++ x :: post)
        ∧ emit fuel stack f = before ++ n :: (pre ++ post)
        ∧ n.pos = p
        ∧ ∀ m ∈ pre, ∃ a ∈ above, Relation.ReflTransGen r a.pos m.pos := by
  induction fuel generalizing stack f with
  | zero =>
    cases stack with
    | nil => cases hx
    | cons a stack =>
      rcases List.mem_cons.1 hx with heq | hx
      · exact absurd (congrArg RgaNode.pos heq.symm) (habsent.stack a List.mem_cons_self)
      · cases hx
  | succ fuel ih =>
    cases stack with
    | nil => cases hx
    | cons a stack =>
      have hrest := (List.mem_cons.1 hx).resolve_left fun heq =>
        habsent.stack a List.mem_cons_self (congrArg RgaNode.pos heq.symm)
      by_cases hpos : a.pos = p
      · -- the parent is emitted: the new node comes on the stack
        subst hpos
        rw [Function.update_self, Function.update_idem,
          List.append_assoc, List.cons_append] at hrest
        have hturn := habsent.turn
        rw [hp] at hturn
        have habove : Absent x above (Function.update f (some a.pos) []) :=
          { stack := fun n hn => hturn.stack n
              (List.mem_append_left _ (List.mem_append_left _ hn))
            table := hturn.table
            leaf := hturn.leaf }
        obtain ⟨pre, post, hwith, hwithout, hunder⟩ :=
          emit_splice habove (fun q m hm => hr q m (mem_update_nil hm)) hrest
        refine ⟨[], a, pre, post, ?_, ?_, rfl, hunder⟩
        · show a :: emit (fuel + 1) _ _ = _
          rw [Function.update_self, Function.update_idem,
            List.append_assoc, List.cons_append, hwith]
          rfl
        · show a :: emit fuel _ _ = _
          rw [hp, List.append_assoc, hwithout]
          rfl
      · have hsome : (some a.pos : Option RgaPos) ≠ some p :=
          fun heq => hpos (Option.some.inj heq)
        rw [Function.update_of_ne hsome, Function.update_comm hsome.symm] at hrest
        obtain ⟨before, n, pre, post, hwith, hwithout, hn, hunder⟩ :=
          ih habsent.turn (fun q m hm => hr q m (mem_update_nil hm))
            ((Function.update_of_ne hsome.symm ..).trans hp) hrest
        refine ⟨a :: before, n, pre, post, ?_,
          congrArg (a :: ·) hwithout, hn, hunder⟩
        show a :: emit (fuel + 1) _ _ = _
        rw [Function.update_of_ne hsome, Function.update_comm hsome.symm, hwith]
        rfl

end Splice

-- ==== insertion

section Insertion

variable {nodes : List (RgaNode T)} {x : RgaNode T}

/-- The new node is a leaf under a node that is held, or a head. -/
structure Inserts (nodes : List (RgaNode T)) (x : RgaNode T) : Prop where
  fresh : ∀ n ∈ nodes, n.pos ≠ x.pos
  parent : ∀ p, x.parent = some p → ∃ m ∈ nodes, m.pos = p

theorem CausallyClosed.no_child (h : CausallyClosed nodes)
    (hx : Inserts nodes x) {n : RgaNode T} (hn : n ∈ nodes) :
    n.parent ≠ some x.pos := by
  intro hparent
  obtain ⟨m, hm, hpos⟩ := h.parents n hn x.pos hparent
  exact hx.fresh m hm hpos

theorem Inserts.parent_ne (hx : Inserts nodes x) : x.parent ≠ some x.pos := by
  intro hparent
  obtain ⟨m, hm, hpos⟩ := hx.parent x.pos hparent
  exact hx.fresh m hm hpos

theorem CausallyClosed.insert (h : CausallyClosed nodes)
    (hx : Inserts nodes x) : CausallyClosed (nodes ++ [x]) := by
  have hold : ∀ a b, Child (nodes ++ [x]) a b → b ≠ x.pos → Child nodes a b := by
    intro a b hchild hne
    obtain ⟨n, hn, hpos, hparent⟩ := hchild
    rcases List.mem_append.1 hn with hn | hn
    · exact ⟨n, hn, hpos, hparent⟩
    · rw [List.mem_singleton.1 hn] at hpos
      exact absurd hpos.symm hne
  have hleaf : ∀ b, ¬ Child (nodes ++ [x]) x.pos b := by
    intro b hchild
    obtain ⟨n, hn, -, hparent⟩ := hchild
    rcases List.mem_append.1 hn with hn | hn
    · exact h.no_child hx hn hparent
    · rw [List.mem_singleton.1 hn] at hparent
      exact hx.parent_ne hparent
  refine ⟨?_, fun n hn p hparent => ?_, fun p hcycle => ?_⟩
  · unfold Distinct
    rw [List.map_append, List.nodup_append]
    refine ⟨h.distinct, List.nodup_singleton _, ?_⟩
    intro q hq q' hq' heq
    obtain ⟨m, hm, rfl⟩ := List.mem_map.1 hq
    rw [List.map_singleton, List.mem_singleton] at hq'
    exact hx.fresh m hm (heq.trans hq')
  · have hheld : ∃ m ∈ nodes, m.pos = p := by
      rcases List.mem_append.1 hn with hn | hn
      · exact h.parents n hn p hparent
      · rw [List.mem_singleton.1 hn] at hparent
        exact hx.parent p hparent
    obtain ⟨m, hm, hpos⟩ := hheld
    exact ⟨m, List.mem_append_left _ hm, hpos⟩
  · -- the new node has no children, so no cycle goes through it
    have hdown : ∀ b, Relation.TransGen (Child (nodes ++ [x])) p b →
        b ≠ x.pos → Relation.TransGen (Child nodes) p b := by
      intro b hpath
      induction hpath with
      | single hchild => exact fun hne => .single (hold _ _ hchild hne)
      | tail _ hchild ih =>
        intro hne
        refine .tail (ih fun heq => ?_) (hold _ _ hchild hne)
        rw [heq] at hchild
        exact hleaf _ hchild
    by_cases hp : p = x.pos
    · rw [hp] at hcycle
      obtain ⟨b, hchild, -⟩ := Relation.TransGen.head'_iff.1 hcycle
      exact hleaf b hchild
    · exact h.acyclic p (hdown p hcycle hp)

theorem children_insert (hd : Distinct (nodes ++ [x])) :
    ∃ above below, children nodes x.parent = above ++ below
      ∧ children (nodes ++ [x])
          = Function.update (children nodes) x.parent (above ++ x :: below)
      ∧ ∀ a ∈ above, x.pos < a.pos := by
  have hsort : children (nodes ++ [x]) x.parent
      = (x :: nodes.filter fun n => n.parent = x.parent).insertionSort
          newerFirst := by
    unfold children
    refine List.Perm.eq_of_pairwise ?_ (List.pairwise_insertionSort _ _)
      (List.pairwise_insertionSort _ _) ((List.perm_insertionSort _ _).trans
        (List.Perm.trans ?_ (List.perm_insertionSort _ _).symm))
    · intro a b ha hb hab hba
      rw [List.mem_insertionSort] at ha hb
      have hb' : b ∈ nodes ++ [x] := by
        rcases List.mem_cons.1 hb with rfl | hb
        · exact List.mem_append_right _ (List.mem_singleton_self _)
        · exact List.mem_append_left _ (List.mem_filter.1 hb).1
      exact hd.eq_of_pos (List.mem_filter.1 ha).1 hb' (le_antisymm (α := RgaPos) hba hab)
    · rw [List.filter_append, List.filter_singleton, decide_eq_true rfl]
      exact List.perm_append_comm
  refine ⟨(children nodes x.parent).takeWhile fun b => ¬ newerFirst x b,
    (children nodes x.parent).dropWhile fun b => ¬ newerFirst x b,
    (List.takeWhile_append_dropWhile ..).symm, ?_, fun a ha => ?_⟩
  · funext k
    by_cases hk : k = x.parent
    · subst hk
      rw [Function.update_self, hsort]
      exact List.insertionSort_cons_eq_take_drop newerFirst x _
    · rw [Function.update_of_ne hk]
      unfold children
      rw [List.filter_append, List.filter_singleton, decide_eq_false (Ne.symm hk)]
      exact congrArg (List.insertionSort newerFirst) (List.append_nil _)
  · have hnot := List.all_eq_true.1 List.all_takeWhile a ha
    exact lt_of_not_ge (of_decide_eq_true hnot)

theorem mem_children {k : Option RgaPos} {n : RgaNode T}
    (h : n ∈ children nodes k) : n ∈ nodes ∧ n.parent = k := by
  unfold children at h
  rw [List.mem_insertionSort, List.mem_filter] at h
  exact ⟨h.1, of_decide_eq_true h.2⟩

/-- The walk starts without the new node. -/
theorem CausallyClosed.absent (h : CausallyClosed nodes)
    (hx : Inserts nodes x) {stack : List (RgaNode T)} (hstack : ∀ n ∈ stack, n ∈ nodes) :
    Absent x stack (Function.update (children nodes) none []) :=
  { stack := fun n hn => hx.fresh n (hstack n hn)
    table := fun k n hn =>
      hx.fresh n (mem_children (mem_update_nil hn)).1
    leaf := by
      apply List.eq_nil_iff_forall_not_mem.2
      intro n hn
      obtain ⟨hmem, hparent⟩ := mem_children (mem_update_nil hn)
      exact h.no_child hx hmem hparent }

/-- Where an insertion puts the new node: after its parent, behind subtrees
of larger siblings only, the other nodes in their order. -/
theorem CausallyClosed.resort_insert (h : CausallyClosed nodes) (hx : Inserts nodes x) :
    ∃ before between after,
      resort (nodes ++ [x]) = before ++ (between ++ x :: after)
        ∧ resort nodes = before ++ (between ++ after)
        ∧ (x.parent = none → before = [])
        ∧ (∀ p, x.parent = some p → ∃ pre n, before = pre ++ [n] ∧ n.pos = p)
        ∧ ∀ n ∈ between, ∃ c ∈ nodes, c.parent = x.parent
            ∧ x.pos < c.pos
            ∧ Relation.ReflTransGen (Child nodes) c.pos n.pos := by
  have hclosed := h.insert hx
  obtain ⟨above, below, hold, hnew, hlarger⟩ :=
    children_insert hclosed.distinct
  have hr : ∀ p, ∀ n ∈ Function.update (children nodes) none [] (some p),
      Child nodes p n.pos := by
    intro p n hn
    obtain ⟨hmem, hparent⟩ := mem_children (mem_update_nil hn)
    exact ⟨n, hmem, rfl, hparent⟩
  have hcover : ∀ a ∈ above, a ∈ nodes ∧ a.parent = x.parent := by
    intro a ha
    exact mem_children (hold ▸ List.mem_append_left _ ha)
  have hunder : ∀ n : RgaNode T, (∃ a ∈ above,
      Relation.ReflTransGen (Child nodes) a.pos n.pos) →
      ∃ c ∈ nodes, c.parent = x.parent ∧ x.pos < c.pos
        ∧ Relation.ReflTransGen (Child nodes) c.pos n.pos := by
    intro n hex
    obtain ⟨a, ha, hpath⟩ := hex
    exact ⟨a, (hcover a ha).1, (hcover a ha).2, hlarger a ha, hpath⟩
  have hin : x ∈ resort (nodes ++ [x]) := (resort_perm _).mem_iff.2
    (List.mem_append_right _ (List.mem_singleton_self _))
  rw [hclosed.resort_eq_emit, List.length_append] at hin ⊢
  rw [h.resort_eq_emit]
  change x ∈ emit (nodes.length + 1) _ _ at hin
  change ∃ before between after, emit (nodes.length + 1) _ _ = _ ∧ _
  rw [hnew] at hin ⊢
  cases hparent : x.parent with
  | none =>
    rw [hparent] at hin hold
    rw [Function.update_self, Function.update_idem] at hin ⊢
    rw [hold]
    obtain ⟨pre, post, hwith, hwithout, hpre⟩ := emit_splice
      (h.absent hx fun n hn =>
        (mem_children (hold ▸ List.mem_append_left _ hn)).1) hr hin
    refine ⟨[], pre, post, hwith, hwithout, fun _ => rfl, ?_, ?_⟩
    · intro p hp
      cases hp
    · intro n hn
      rw [← hparent]
      exact hunder n (hpre n hn)
  | some p =>
    have hne : (none : Option RgaPos) ≠ some p := fun heq => by cases heq
    rw [hparent] at hin hold
    rw [Function.update_of_ne hne, Function.update_comm hne.symm]
      at hin ⊢
    obtain ⟨before, m, pre, post, hwith, hwithout, hm, hpre⟩ := emit_child
      (h.absent hx fun n hn => (mem_children hn).1) hr
      ((Function.update_of_ne hne.symm ..).trans hold) hin
    refine ⟨before ++ [m], pre, post, ?_, ?_, ?_, ?_, ?_⟩
    · rw [hwith, List.append_assoc]
      rfl
    · rw [hwithout, List.append_assoc]
      rfl
    · intro hp
      cases hp
    · intro q hq
      cases hq
      exact ⟨before, m, rfl, hm⟩
    · intro n hn
      rw [← hparent]
      exact hunder n (hpre n hn)

end Insertion

/-- The nodes that were there come in their order if and only if that was
the traversal order. -/
theorem sublist_iff_inOrder {before between after : List (RgaNode T)}
    {x : RgaNode T} (hfresh : ∀ n ∈ nodes, n.pos ≠ x.pos)
    (hold : resort nodes = before ++ (between ++ after)) :
    nodes.Sublist (before ++ (between ++ x :: after)) ↔ InOrder nodes := by
  have hsub : (resort nodes).Sublist (before ++ (between ++ x :: after)) := by
    rw [hold]
    exact (List.Sublist.refl _).append
      ((List.Sublist.refl _).append (List.sublist_cons_self x after))
  refine ⟨fun h => ?_, fun h => ?_⟩
  · -- both are what is left of the new vector without the new node
    have hother : ∀ l : List (RgaNode T), (∀ n ∈ l, n.pos ≠ x.pos) →
        l.filter (fun n => n.pos ≠ x.pos) = l := by
      intro l hl
      apply List.filter_eq_self.2
      intro n hn
      exact decide_eq_true (hl n hn)
    have hsorted : ∀ n ∈ resort nodes, n.pos ≠ x.pos :=
      fun n hn => hfresh n ((resort_perm nodes).mem_iff.1 hn)
    have hrest : (before ++ (between ++ x :: after)).filter
        (fun n => n.pos ≠ x.pos) = resort nodes := by
      rw [← hother _ hsorted, hold, List.filter_append, List.filter_append,
        List.filter_append, List.filter_append,
        List.filter_cons_of_neg (by simp)]
    have hleft := h.filter fun n => n.pos ≠ x.pos
    rw [hother _ hfresh, hrest] at hleft
    exact (hleft.eq_of_length (resort_perm nodes).length_eq.symm).symm
  · rw [← h]
    exact hsub

/-- An insertion into a causally closed list puts the new node after its
parent, behind subtrees of larger siblings only; the other nodes keep the
order of the traversal, hence theirs if and only if they were in it. The
list is closed and in order again. -/
theorem insert_keeps_order {l : RgaList T} (hclosed : CausallyClosed l.nodes)
    {parent : Option RgaPos} {value : T} {ts : HybridLogicalClock}
    {replica : ReplicaId} {counter : Nat} {new : RgaNode T}
    (hnew : new = ⟨⟨ts, replica, counter⟩, parent, value, false⟩)
    (hfresh : ∀ n ∈ l.nodes, n.pos ≠ new.pos)
    (hparent : ∀ p, parent = some p → ∃ m ∈ l.nodes, m.pos = p) :
    (∃ before between after,
      (l.insertAfter parent value ts replica counter).1.nodes
          = before ++ (between ++ new :: after)
        ∧ resort l.nodes = before ++ (between ++ after)
        ∧ (parent = none → before = [])
        ∧ (∀ p, parent = some p → ∃ pre n, before = pre ++ [n] ∧ n.pos = p)
        ∧ ∀ n ∈ between, ∃ c ∈ l.nodes, c.parent = parent
            ∧ new.pos < c.pos
            ∧ Relation.ReflTransGen (Child l.nodes) c.pos n.pos)
      ∧ (l.nodes.Sublist (l.insertAfter parent value ts replica counter).1.nodes
          ↔ InOrder l.nodes)
      ∧ InOrder (l.insertAfter parent value ts replica counter).1.nodes
      ∧ CausallyClosed (l.insertAfter parent value ts replica counter).1.nodes := by
  have hx : Inserts l.nodes new := by
    subst hnew
    exact ⟨hfresh, hparent⟩
  have hnodes : (l.insertAfter parent value ts replica counter).1.nodes
      = resort (l.nodes ++ [new]) := by
    rw [hnew]
    rfl
  have hafter := hclosed.insert hx
  obtain ⟨before, between, after, hwith, hold, hhead, hpar, hunder⟩ :=
    hclosed.resort_insert hx
  rw [show new.parent = parent by rw [hnew]] at hhead hpar hunder
  rw [hnodes]
  refine ⟨⟨before, between, after, hwith, hold, hhead, hpar, hunder⟩, ?_,
    hafter.distinct.inOrder_resort, hafter.perm (resort_perm _).symm⟩
  rw [hwith]
  exact sublist_iff_inOrder hfresh hold

theorem acyclic_of_lt (h : ∀ n ∈ nodes, ∀ p ∈ n.parent, p < n.pos)
    (p : RgaPos) : ¬ Relation.TransGen (Child nodes) p p := by
  have hlt : ∀ q, Relation.TransGen (Child nodes) p q → p < q := by
    intro q hpath
    induction hpath with
    | single hchild =>
      obtain ⟨n, hn, rfl, hparent⟩ := hchild
      exact h n hn p hparent
    | tail _ hchild ih =>
      obtain ⟨n, hn, rfl, hparent⟩ := hchild
      exact lt_trans ih (h n hn _ hparent)
  exact fun hcycle => lt_irrefl p (hlt p hcycle)

/-- Three elements: a head and two that were typed behind it. -/
def typed : RgaList Nat :=
  { nodes := [⟨posAt 1 0 1, none, 5, false⟩,
      ⟨posAt 3 0 3, some (posAt 1 0 1), 7, false⟩,
      ⟨posAt 2 0 2, some (posAt 1 0 1), 6, false⟩] }

theorem typed_closed : CausallyClosed typed.nodes :=
  { distinct := by unfold Distinct; decide
    parents := by
      have h : ∀ n ∈ typed.nodes, ∀ p ∈ n.parent, ∃ m ∈ typed.nodes, m.pos = p := by decide
      exact h
    acyclic := acyclic_of_lt (by decide) }

/-- A fourth one, behind the head but older than the last one typed. -/
theorem typed_keeps_order :
    typed.nodes.Sublist (typed.insertAfter (some (posAt 1 0 1)) 8
        ⟨2, 0, ⟨1⟩⟩ ⟨1⟩ 1).1.nodes
      ↔ InOrder typed.nodes :=
  (insert_keeps_order typed_closed rfl (by decide)
    (by
      have h : ∀ p ∈ some (posAt 1 0 1), ∃ m ∈ typed.nodes, m.pos = p := by
        decide
      exact h)).2.1

/-- The two heads, older first, change places on an insertion. -/
theorem insert_reorders :
    CausallyClosed olderHeadFirst.nodes
      ∧ (∀ n ∈ olderHeadFirst.nodes, n.pos ≠ posAt 3 0 2)
      ∧ ¬ olderHeadFirst.nodes.Sublist
          (olderHeadFirst.insertAfter none 7 ⟨3, 0, ⟨0⟩⟩ ⟨0⟩ 2).1.nodes := by
  refine ⟨⟨by unfold Distinct; decide, ?_, acyclic_of_lt (by decide)⟩, by decide, fun h => ?_⟩
  · have h : ∀ n ∈ olderHeadFirst.nodes, ∀ p ∈ n.parent,
        ∃ m ∈ olderHeadFirst.nodes, m.pos = p := by decide
    exact h
  · have hpos := h.map RgaNode.pos
    revert hpos
    decide

end OpenStandards.Crdt

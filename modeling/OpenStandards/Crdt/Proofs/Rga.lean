/-
The traversal order of a growable array is a function of its nodes.

`resort` neither drops nor duplicates a node (`resort_perm`): the walk
takes the children of a position out of the table when it pushes them.
And where a parent and a position name one node, it does not depend on the
order the nodes are given in (`resort_eq_of_perm`): the table of children
is then the same table.
-/
import OpenStandards.Crdt.Types

namespace OpenStandards.Crdt

open Lib

variable {T : Type}

-- ==== nothing is lost

def Groups.nodes (g : Groups T) : List (RgaNode T) := g.flatMap Prod.snd

/-- The children under one key, and the rest. -/
theorem nodes_erase {g : Groups T} (hnd : (g.map Prod.fst).Nodup) (k : Option RgaPos) :
    ((Assoc.get g k).getD [] ++ Groups.nodes (Assoc.erase g k)).Perm g.nodes := by
  induction g with
  | nil => exact .refl _
  | cons e g ih =>
    obtain ⟨k', children⟩ := e
    rw [List.map_cons, List.nodup_cons] at hnd
    have hrest := ih hnd.2
    show (Option.getD (if k = k' then some children else Assoc.get g k) []
      ++ Groups.nodes (if k = k' then Assoc.erase g k
          else (k', children) :: Assoc.erase g k)).Perm
      (children ++ Groups.nodes g)
    by_cases hk : k = k'
    · subst hk
      rw [if_pos rfl, if_pos rfl]
      have hnone : Assoc.get g k = none := by
        clear hrest ih
        induction g with
        | nil => rfl
        | cons e g ih =>
          rw [List.map_cons, List.nodup_cons, List.mem_cons, not_or] at hnd
          show (if k = e.1 then some e.2 else Assoc.get g k) = none
          rw [if_neg hnd.1.1]
          exact ih ⟨hnd.1.2, hnd.2.2⟩
      rw [hnone] at hrest
      exact hrest.append_left children
    · rw [if_neg hk, if_neg hk]
      show ((Assoc.get g k).getD [] ++ (children ++ Groups.nodes (Assoc.erase g k))).Perm _
      refine List.Perm.trans ?_ (hrest.append_left children)
      rw [← List.append_assoc, ← List.append_assoc]
      exact List.perm_append_comm.append_right _

theorem keys_erase_nodup {g : Groups T} (hnd : (g.map Prod.fst).Nodup)
    (k : Option RgaPos) : ((Assoc.erase g k).map Prod.fst).Nodup := by
  have hsub : (Assoc.erase g k).Sublist g := by
    clear hnd
    induction g with
    | nil => exact .slnil
    | cons e g ih =>
      show (if k = e.1 then Assoc.erase g k
        else e :: Assoc.erase g k).Sublist (e :: g)
      by_cases hk : k = e.1
      · rw [if_pos hk]
        exact ih.cons e
      · rw [if_neg hk]
        exact ih.cons_cons e
  exact hnd.sublist (hsub.map _)

theorem walk_cons (fuel : Nat) (n : RgaNode T) (stack : List (RgaNode T)) (g : Groups T) :
    walk (fuel + 1) (n :: stack) g
      = (n :: (walk fuel ((Assoc.get g (some n.pos)).getD [] ++ stack)
            (Assoc.erase g (some n.pos))).1,
          (walk fuel ((Assoc.get g (some n.pos)).getD [] ++ stack)
            (Assoc.erase g (some n.pos))).2) := rfl

theorem resort_eq (nodes : List (RgaNode T)) :
    resort nodes
      = (walk nodes.length ((Assoc.get (byParent nodes) none).getD [])
          (Assoc.erase (byParent nodes) none)).1
        ++ ((walk nodes.length ((Assoc.get (byParent nodes) none).getD [])
          (Assoc.erase (byParent nodes) none)).2.flatMap Prod.snd
            ).insertionSort olderFirst := rfl

theorem walk_perm :
    ∀ (fuel : Nat) (stack : List (RgaNode T)) (g : Groups T),
      (g.map Prod.fst).Nodup → stack.length + g.nodes.length ≤ fuel →
      ((walk fuel stack g).1 ++ Groups.nodes (walk fuel stack g).2).Perm
        (stack ++ g.nodes) := by
  intro fuel
  induction fuel with
  | zero =>
    intro stack g _ hlen
    cases stack with
    | nil => exact .refl _
    | cons n stack =>
      rw [List.length_cons] at hlen
      omega
  | succ fuel ih =>
    intro stack g hnd hlen
    cases stack with
    | nil => exact .refl _
    | cons n stack =>
      have herase := nodes_erase hnd (some n.pos)
      have hcount := herase.length_eq
      rw [List.length_append] at hcount
      rw [List.length_cons] at hlen
      have hrest := ih ((Assoc.get g (some n.pos)).getD [] ++ stack)
        (Assoc.erase g (some n.pos)) (keys_erase_nodup hnd _)
        (by rw [List.length_append]; omega)
      show (n :: ((walk fuel _ _).1 ++ Groups.nodes (walk fuel _ _).2)
        ).Perm (n :: (stack ++ g.nodes))
      refine (hrest.trans ?_).cons n
      refine List.Perm.trans ?_ (herase.append_left stack)
      rw [← List.append_assoc]
      exact List.perm_append_comm.append_right _

theorem flatMap_filter_perm :
    ∀ (keys : List (Option RgaPos)) (nodes : List (RgaNode T)),
      keys.Nodup → (∀ n ∈ nodes, n.parent ∈ keys) →
      (keys.flatMap fun k => nodes.filter fun n => n.parent = k).Perm
        nodes := by
  intro keys
  induction keys with
  | nil =>
    intro nodes _ hcover
    rw [List.eq_nil_iff_forall_not_mem.2
      fun n hn => List.not_mem_nil (hcover n hn)]
    exact .refl _
  | cons k keys ih =>
    intro nodes hnd hcover
    rw [List.nodup_cons] at hnd
    have hrest := ih (nodes.filter fun n => ¬ n.parent = k) hnd.2 (by
      intro n hn
      rw [List.mem_filter, decide_eq_true_eq] at hn
      rcases List.mem_cons.1 (hcover n hn.1) with h | h
      · exact absurd h hn.2
      · exact h)
    -- a later key's nodes are not those of `k`
    have hsame : (keys.flatMap fun k' =>
          (nodes.filter fun n => ¬ n.parent = k).filter
            fun n => n.parent = k')
        = keys.flatMap fun k' => nodes.filter fun n => n.parent = k' := by
      refine List.flatMap_congr fun k' hk' => ?_
      rw [List.filter_filter]
      refine List.filter_congr fun n _ => ?_
      by_cases h : n.parent = k'
      · have hne : n.parent ≠ k := fun heq => hnd.1 (heq ▸ h ▸ hk')
        simp [h, h ▸ hne]
      · simp [h]
    rw [hsame] at hrest
    rw [List.flatMap_cons]
    refine (hrest.append_left _).trans ?_
    have hsplit := List.filter_append_perm (fun n : RgaNode T => decide (n.parent = k)) nodes
    refine List.Perm.trans ?_ hsplit
    refine .append_left _ ?_
    rw [List.filter_congr (q := fun n => !decide (n.parent = k))
      fun n _ => by simp]

theorem nodes_byParent (nodes : List (RgaNode T)) :
    (Groups.nodes (byParent nodes)).Perm nodes := by
  have hkeys : ((nodes.map RgaNode.parent).dedup.insertionSort parentLe).Nodup :=
    (List.perm_insertionSort _ _).nodup_iff.2 (List.nodup_dedup _)
  refine List.Perm.trans ?_ (flatMap_filter_perm _ nodes hkeys ?_)
  · unfold Groups.nodes byParent
    rw [List.flatMap_map]
    refine List.Perm.flatMap_left _ fun k _ => ?_
    exact List.perm_insertionSort _ _
  · intro n hn
    rw [List.mem_insertionSort, List.mem_dedup]
    exact List.mem_map_of_mem hn

theorem keys_byParent_nodup (nodes : List (RgaNode T)) :
    ((byParent nodes).map Prod.fst).Nodup := by
  unfold byParent
  rw [List.map_map]
  refine List.Nodup.map (fun _ _ h => h) ?_
  exact (List.perm_insertionSort _ _).nodup_iff.2 (List.nodup_dedup _)

/-- Sorting into traversal order keeps every node. -/
theorem resort_perm (nodes : List (RgaNode T)) : (resort nodes).Perm nodes := by
  have hall := nodes_byParent nodes
  have herase := nodes_erase (keys_byParent_nodup nodes) none
  have hlen := (herase.trans hall).length_eq
  rw [List.length_append] at hlen
  have hwalk := walk_perm nodes.length
    ((Assoc.get (byParent nodes) none).getD [])
    (Assoc.erase (byParent nodes) none)
    (keys_erase_nodup (keys_byParent_nodup nodes) none) (by omega)
  show ((walk _ _ _).1 ++ (Groups.nodes (walk _ _ _).2).insertionSort olderFirst).Perm nodes
  refine (List.Perm.append_left _ (List.perm_insertionSort _ _)).trans ?_
  exact hwalk.trans (herase.trans hall)

-- ==== the order is forgotten

theorem parentLe_total : ∀ a b, parentLe a b ∨ parentLe b a
  | none, _ => Or.inl trivial
  | some _, none => Or.inr trivial
  | some a, some b => le_total a b

theorem parentLe_trans : ∀ a b c, parentLe a b → parentLe b c → parentLe a c
  | none, _, _, _, _ => trivial
  | some _, none, _, h, _ => h.elim
  | some _, some _, none, _, h => h.elim
  | some _, some _, some _, h, h' => le_trans (α := RgaPos) h h'

theorem parentLe_antisymm : ∀ a b, parentLe a b → parentLe b a → a = b
  | none, none, _, _ => rfl
  | none, some _, _, h => h.elim
  | some _, none, h, _ => h.elim
  | some _, some _, h, h' => congrArg some (le_antisymm (α := RgaPos) h h')

instance : Std.Total parentLe := ⟨parentLe_total⟩

instance : IsTrans (Option RgaPos) parentLe := ⟨parentLe_trans⟩

instance : Std.Total (newerFirst (T := T)) :=
  ⟨fun a b => le_total b.pos a.pos⟩

instance : IsTrans (RgaNode T) newerFirst :=
  ⟨fun _ _ _ hab hbc => le_trans (α := RgaPos) hbc hab⟩

def Identified (nodes : List (RgaNode T)) : Prop :=
  ∀ a ∈ nodes, ∀ b ∈ nodes, a.parent = b.parent → a.pos = b.pos → a = b

variable {nodes nodes' : List (RgaNode T)}

theorem Identified.perm (h : Identified nodes) (hp : nodes.Perm nodes') : Identified nodes' :=
  fun a ha b hb => h a (hp.mem_iff.2 ha) b (hp.mem_iff.2 hb)

/-- The table of children does not depend on the order of the nodes. -/
theorem byParent_eq_of_perm (hid : Identified nodes) (hp : nodes.Perm nodes') :
    byParent nodes = byParent nodes' := by
  have hkeys : (nodes.map RgaNode.parent).dedup.insertionSort parentLe
      = (nodes'.map RgaNode.parent).dedup.insertionSort parentLe := by
    refine List.Perm.eq_of_pairwise
      (fun a b _ _ hab hba => parentLe_antisymm a b hab hba)
      (List.pairwise_insertionSort _ _) (List.pairwise_insertionSort _ _) ?_
    exact (List.perm_insertionSort _ _).trans
      ((hp.map _).dedup.trans (List.perm_insertionSort _ _).symm)
  unfold byParent
  rw [hkeys]
  refine List.map_congr_left fun k _ => ?_
  have hgroup : (nodes.filter fun n => n.parent = k).insertionSort newerFirst
      = (nodes'.filter fun n => n.parent = k).insertionSort newerFirst := by
    refine List.Perm.eq_of_pairwise ?_ (List.pairwise_insertionSort _ _)
      (List.pairwise_insertionSort _ _) ((List.perm_insertionSort _ _).trans
        ((hp.filter _).trans (List.perm_insertionSort _ _).symm))
    intro a b ha hb hab hba
    rw [List.mem_insertionSort, List.mem_filter, decide_eq_true_eq] at ha hb
    exact hid a ha.1 b (hp.mem_iff.2 hb.1) (ha.2.trans hb.2.symm)
      (le_antisymm (α := RgaPos) hba hab)
  rw [hgroup]

/-- Nor does the traversal order. -/
theorem resort_eq_of_perm (hid : Identified nodes) (hp : nodes.Perm nodes') :
    resort nodes = resort nodes' := by
  unfold resort
  rw [byParent_eq_of_perm hid hp, hp.length_eq]

/-- Deleting a position that is not there changes nothing. -/
theorem markDeleted_of_not_mem {pos : RgaPos} (h : ∀ n ∈ nodes, n.pos ≠ pos) :
    RgaList.markDeleted pos nodes = nodes := by
  induction nodes with
  | nil => rfl
  | cons n nodes ih =>
    show (if n.pos = pos then _ else n :: RgaList.markDeleted pos nodes) = _
    rw [if_neg (h n List.mem_cons_self), ih fun n' hn' => h n' (List.mem_cons_of_mem _ hn')]

end OpenStandards.Crdt

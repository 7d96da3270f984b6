/-
The join of growable arrays.

What a merge leaves is read off the copies it was given: at each position
one node, with the parent and the value that every copy has, deleted if one
of the copies is (`Joined`). A list that holds exactly these nodes, each
position once, is `Canonical` for the copies. One turn of the loop keeps it
(`Canonical.absorb`), and two canonical lists of the same copies have the
same traversal order, so merging is commutative and associative on the
whole vector, and idempotent up to the order.
-/
import OpenStandards.Crdt.Merge
import OpenStandards.Crdt.Proofs.Rga

namespace OpenStandards.Crdt

open Lib

variable {T : Type}

-- ==== copies

def Agree (nodes : List (RgaNode T)) : Prop :=
  ∀ a ∈ nodes, ∀ b ∈ nodes, a.pos = b.pos → a.parent = b.parent ∧ a.value = b.value

/-- No position is held twice. -/
def Distinct (nodes : List (RgaNode T)) : Prop :=
  (nodes.map RgaNode.pos).Nodup

def Joined (copies : List (RgaNode T)) (n : RgaNode T) : Prop :=
  (∃ m ∈ copies, m.pos = n.pos ∧ m.parent = n.parent ∧ m.value = n.value)
    ∧ (n.tombstone = true ↔ ∃ m ∈ copies, m.pos = n.pos ∧ m.tombstone = true)

variable {nodes nodes' copies : List (RgaNode T)} {m n : RgaNode T}

theorem Agree.of_subset (h : Agree nodes) (hsub : nodes' ⊆ nodes) : Agree nodes' :=
  fun a ha b hb => h a (hsub ha) b (hsub hb)

theorem Distinct.eq_of_pos (h : Distinct nodes) {a b : RgaNode T}
    (ha : a ∈ nodes) (hb : b ∈ nodes) (hpos : a.pos = b.pos) : a = b :=
  List.inj_on_of_nodup_map h ha hb hpos

theorem Distinct.perm (h : Distinct nodes) (hp : nodes.Perm nodes') : Distinct nodes' :=
  (hp.map RgaNode.pos).nodup_iff.1 h

theorem Distinct.identified (h : Distinct nodes) : Identified nodes :=
  fun _ ha _ hb _ hpos => h.eq_of_pos ha hb hpos

theorem joined_congr {xs ys : List (RgaNode T)} (h : ∀ m, m ∈ xs ↔ m ∈ ys) (n : RgaNode T) :
    Joined xs n ↔ Joined ys n := by
  unfold Joined
  simp only [h]

-- ==== canonical

/-- The nodes are those that the copies make, each position once. -/
structure Canonical (nodes copies : List (RgaNode T)) : Prop where
  distinct : Distinct nodes
  mem_iff : ∀ n, n ∈ nodes ↔ Joined copies n

theorem Canonical.node_of_copy (h : Canonical nodes copies) (hm : m ∈ copies) :
    ∃ n ∈ nodes, n.pos = m.pos ∧ n.parent = m.parent ∧ n.value = m.value
      ∧ (m.tombstone = true → n.tombstone = true) := by
  by_cases hdead : ∃ m' ∈ copies, m'.pos = m.pos ∧ m'.tombstone = true
  · refine ⟨{ m with tombstone := true }, ?_, rfl, rfl, rfl, fun _ => rfl⟩
    apply (h.mem_iff _).2
    exact ⟨⟨m, hm, rfl, rfl, rfl⟩, fun _ => hdead, fun _ => rfl⟩
  · refine ⟨{ m with tombstone := false }, ?_, rfl, rfl, rfl, fun htomb =>
      absurd ⟨m, hm, rfl, htomb⟩ hdead⟩
    apply (h.mem_iff _).2
    refine ⟨⟨m, hm, rfl, rfl, rfl⟩, fun hfalse => ?_, fun hdead' => ?_⟩
    · cases hfalse
    · exact absurd hdead' hdead

theorem Canonical.joined_append (h : Canonical nodes copies)
    (more : List (RgaNode T)) (n : RgaNode T) :
    Joined (nodes ++ more) n ↔ Joined (copies ++ more) n := by
  unfold Joined
  refine and_congr ⟨?_, ?_⟩ (iff_congr Iff.rfl ⟨?_, ?_⟩)
  · intro hex
    obtain ⟨m, hm, hpos, hparent, hvalue⟩ := hex
    rcases List.mem_append.1 hm with hm | hm
    · obtain ⟨c, hc, hcpos, hcparent, hcvalue⟩ := ((h.mem_iff m).1 hm).1
      exact ⟨c, List.mem_append_left _ hc, hcpos.trans hpos,
        hcparent.trans hparent, hcvalue.trans hvalue⟩
    · exact ⟨m, List.mem_append_right _ hm, hpos, hparent, hvalue⟩
  · intro hex
    obtain ⟨m, hm, hpos, hparent, hvalue⟩ := hex
    rcases List.mem_append.1 hm with hm | hm
    · obtain ⟨c, hc, hcpos, hcparent, hcvalue, -⟩ := h.node_of_copy hm
      exact ⟨c, List.mem_append_left _ hc, hcpos.trans hpos,
        hcparent.trans hparent, hcvalue.trans hvalue⟩
    · exact ⟨m, List.mem_append_right _ hm, hpos, hparent, hvalue⟩
  · intro hex
    obtain ⟨m, hm, hpos, hdead⟩ := hex
    rcases List.mem_append.1 hm with hm | hm
    · obtain ⟨c, hc, hcpos, hcdead⟩ := ((h.mem_iff m).1 hm).2.1 hdead
      exact ⟨c, List.mem_append_left _ hc, hcpos.trans hpos, hcdead⟩
    · exact ⟨m, List.mem_append_right _ hm, hpos, hdead⟩
  · intro hex
    obtain ⟨m, hm, hpos, hdead⟩ := hex
    rcases List.mem_append.1 hm with hm | hm
    · obtain ⟨c, hc, hcpos, -, -, hcdead⟩ := h.node_of_copy hm
      exact ⟨c, List.mem_append_left _ hc, hcpos.trans hpos, hcdead hdead⟩
    · exact ⟨m, List.mem_append_right _ hm, hpos, hdead⟩

theorem Canonical.congr {xs ys : List (RgaNode T)} (h : Canonical nodes xs)
    (hiff : ∀ n, Joined xs n ↔ Joined ys n) : Canonical nodes ys :=
  ⟨h.distinct, fun n => (h.mem_iff n).trans (hiff n)⟩

theorem Canonical.perm (h : Canonical nodes copies) (hp : nodes'.Perm nodes) :
    Canonical nodes' copies :=
  ⟨h.distinct.perm hp.symm, fun n => hp.mem_iff.trans (h.mem_iff n)⟩

theorem Canonical.resort_eq (h : Canonical nodes copies)
    (h' : Canonical nodes' copies) : resort nodes = resort nodes' := by
  apply resort_eq_of_perm h.distinct.identified
  apply (List.perm_ext_iff_of_nodup (List.Nodup.of_map _ h.distinct)
    (List.Nodup.of_map _ h'.distinct)).2
  intro n
  exact (h.mem_iff n).trans (h'.mem_iff n).symm

theorem Distinct.canonical (h : Distinct nodes) : Canonical nodes nodes := by
  refine ⟨h, fun n => ⟨fun hn => ?_, fun hn => ?_⟩⟩
  · refine ⟨⟨n, hn, rfl, rfl, rfl⟩, fun hdead => ⟨n, hn, rfl, hdead⟩, ?_⟩
    intro hex
    obtain ⟨m, hm, hpos, hdead⟩ := hex
    rw [← h.eq_of_pos hm hn hpos]
    exact hdead
  · obtain ⟨⟨m, hm, hpos, hparent, hvalue⟩, htomb⟩ := hn
    have hsame : m.tombstone = n.tombstone := by
      rw [Bool.eq_iff_iff, htomb]
      refine ⟨fun hdead => ⟨m, hm, hpos, hdead⟩, fun hex => ?_⟩
      obtain ⟨m', hm', hpos', hdead⟩ := hex
      rw [h.eq_of_pos hm hm' (hpos.trans hpos'.symm)]
      exact hdead
    cases m
    cases n
    simp_all only

-- ==== deletion

/-- A node after the deletion of a position. -/
def RgaNode.bury (pos : RgaPos) (n : RgaNode T) : RgaNode T :=
  if n.pos = pos then { n with tombstone := true } else n

theorem RgaNode.bury_pos (pos : RgaPos) (n : RgaNode T) : (n.bury pos).pos = n.pos := by
  unfold bury
  split <;> rfl

theorem RgaNode.bury_parent (pos : RgaPos) (n : RgaNode T) :
    (n.bury pos).parent = n.parent := by
  unfold bury
  split <;> rfl

theorem RgaNode.bury_value (pos : RgaPos) (n : RgaNode T) : (n.bury pos).value = n.value := by
  unfold bury
  split <;> rfl

theorem RgaNode.bury_tombstone (pos : RgaPos) (n : RgaNode T) :
    (n.bury pos).tombstone = true ↔ n.pos = pos ∨ n.tombstone = true := by
  unfold bury
  by_cases hpos : n.pos = pos
  · rw [if_pos hpos]
    exact ⟨fun _ => Or.inl hpos, fun _ => rfl⟩
  · rw [if_neg hpos]
    exact ⟨Or.inr, fun h => h.resolve_left hpos⟩

theorem Distinct.markDeleted (h : Distinct nodes) (pos : RgaPos) :
    RgaList.markDeleted pos nodes = nodes.map (RgaNode.bury pos) := by
  induction nodes with
  | nil => rfl
  | cons n nodes ih =>
    have hnd := List.nodup_cons.1 h
    show (if n.pos = pos then { n with tombstone := true } :: nodes
      else n :: RgaList.markDeleted pos nodes)
        = n.bury pos :: nodes.map (RgaNode.bury pos)
    unfold RgaNode.bury
    by_cases hpos : n.pos = pos
    · rw [if_pos hpos, if_pos hpos]
      congr 1
      have hother : ∀ m ∈ nodes, ¬ m.pos = pos := fun m hm heq =>
        hnd.1 ((hpos.trans heq.symm) ▸ List.mem_map_of_mem hm)
      refine ((List.map_congr_left fun m hm => ?_).trans (List.map_id nodes)).symm
      rw [if_neg (hother m hm), id]
    · rw [if_neg hpos, if_neg hpos, ih hnd.2]
      rfl

theorem map_bury_pos (pos : RgaPos) (nodes : List (RgaNode T)) :
    (nodes.map (RgaNode.bury pos)).map RgaNode.pos = nodes.map RgaNode.pos := by
  rw [List.map_map]
  exact List.map_congr_left fun n _ => n.bury_pos pos

-- ==== merge

/-- What one more copy that is deleted does to a node. -/
theorem Distinct.dead_append (h : Distinct nodes) {k : RgaNode T}
    (hdead : n.tombstone = true) (hk : k ∈ nodes) :
    (∃ m ∈ nodes ++ [n], m.pos = k.pos ∧ m.tombstone = true)
      ↔ (k.bury n.pos).tombstone = true := by
  rw [RgaNode.bury_tombstone]
  refine ⟨fun hex => ?_, fun hor => ?_⟩
  · obtain ⟨m, hm, hpos, htomb⟩ := hex
    rcases List.mem_append.1 hm with hm | hm
    · rw [← h.eq_of_pos hm hk hpos]
      exact Or.inr htomb
    · rw [List.mem_singleton.1 hm] at hpos
      exact Or.inl hpos.symm
  · rcases hor with hpos | htomb
    · exact ⟨n, List.mem_append_right _ (List.mem_singleton_self n), hpos.symm, hdead⟩
    · exact ⟨k, List.mem_append_left _ hk, rfl, htomb⟩

/-- A copy of a node that is held adds no node. -/
theorem fields_append {k : RgaNode T} (hagree : Agree (nodes ++ [n]))
    (hm : m ∈ nodes) (hpos : m.pos = n.pos) :
    (∃ c ∈ nodes ++ [n], c.pos = k.pos ∧ c.parent = k.parent ∧ c.value = k.value)
      ↔ ∃ c ∈ nodes, c.pos = k.pos ∧ c.parent = k.parent ∧ c.value = k.value := by
  refine ⟨fun hex => ?_, fun hex => ?_⟩
  · obtain ⟨c, hc, hcpos, hcparent, hcvalue⟩ := hex
    rcases List.mem_append.1 hc with hc | hc
    · exact ⟨c, hc, hcpos, hcparent, hcvalue⟩
    · rw [List.mem_singleton.1 hc] at hcpos hcparent hcvalue
      obtain ⟨hparent, hvalue⟩ := hagree m (List.mem_append_left _ hm) n
        (List.mem_append_right _ (List.mem_singleton_self n)) hpos
      exact ⟨m, hm, hpos.trans hcpos, hparent.trans hcparent, hvalue.trans hcvalue⟩
  · obtain ⟨c, hc, hfields⟩ := hex
    exact ⟨c, List.mem_append_left _ hc, hfields⟩

/-- A second copy that is deleted deletes the node. -/
theorem Distinct.canonical_bury (h : Distinct nodes)
    (hagree : Agree (nodes ++ [n])) (hm : m ∈ nodes) (hpos : m.pos = n.pos)
    (hdead : n.tombstone = true) :
    Canonical (nodes.map (RgaNode.bury n.pos)) (nodes ++ [n]) := by
  refine ⟨?_, fun k => ?_⟩
  · unfold Distinct
    rw [map_bury_pos]
    exact h
  · unfold Joined
    rw [fields_append hagree hm hpos, List.mem_map]
    refine ⟨fun hk => ?_, fun hk => ?_⟩
    · obtain ⟨c, hc, rfl⟩ := hk
      rw [RgaNode.bury_pos, RgaNode.bury_parent, RgaNode.bury_value]
      exact ⟨⟨c, hc, rfl, rfl, rfl⟩, (h.dead_append hdead hc).symm⟩
    · obtain ⟨⟨c, hc, hcpos, hcparent, hcvalue⟩, htomb⟩ := hk
      refine ⟨c, hc, ?_⟩
      rw [← hcpos, h.dead_append hdead hc, ← Bool.eq_iff_iff] at htomb
      rw [← RgaNode.bury_pos n.pos] at hcpos
      rw [← RgaNode.bury_parent n.pos] at hcparent
      rw [← RgaNode.bury_value n.pos] at hcvalue
      generalize c.bury n.pos = c' at *
      cases c'
      cases k
      simp_all only

/-- A second copy that is live changes nothing. -/
theorem Distinct.canonical_live (h : Distinct nodes)
    (hagree : Agree (nodes ++ [n])) (hm : m ∈ nodes) (hpos : m.pos = n.pos)
    (hlive : ¬ n.tombstone = true) : Canonical nodes (nodes ++ [n]) := by
  refine h.canonical.congr fun k => ?_
  unfold Joined
  rw [fields_append hagree hm hpos]
  refine and_congr_right fun _ => iff_congr Iff.rfl ⟨fun hex => ?_,
    fun hex => ?_⟩
  · obtain ⟨c, hc, hcpos, hcdead⟩ := hex
    exact ⟨c, List.mem_append_left _ hc, hcpos, hcdead⟩
  · obtain ⟨c, hc, hcpos, hcdead⟩ := hex
    rcases List.mem_append.1 hc with hc | hc
    · exact ⟨c, hc, hcpos, hcdead⟩
    · exact absurd (List.mem_singleton.1 hc ▸ hcdead) hlive

/-- One turn of the loop of `merge`. -/
theorem Distinct.canonical_absorb (h : Distinct nodes) (hagree : Agree (nodes ++ [n])) :
    Canonical (RgaList.absorb nodes n) (nodes ++ [n]) := by
  unfold RgaList.absorb
  by_cases hheld : ∃ m ∈ nodes, m.pos = n.pos
  · rw [if_pos hheld]
    obtain ⟨m, hm, hpos⟩ := hheld
    by_cases hdead : n.tombstone = true
    · rw [if_pos hdead, h.markDeleted]
      exact h.canonical_bury hagree hm hpos hdead
    · rw [if_neg hdead]
      exact h.canonical_live hagree hm hpos hdead
  · rw [if_neg hheld]
    apply Distinct.canonical
    unfold Distinct
    rw [List.map_append, List.nodup_append]
    refine ⟨h, List.nodup_singleton _, ?_⟩
    intro p hp q hq heq
    obtain ⟨m, hm, rfl⟩ := List.mem_map.1 hp
    rw [List.map_singleton, List.mem_singleton] at hq
    exact hheld ⟨m, hm, heq.trans hq⟩

theorem Canonical.agree_append {more : List (RgaNode T)}
    (h : Canonical nodes copies) (hagree : Agree (copies ++ more)) :
    Agree (nodes ++ more) := by
  have hcopy : ∀ n ∈ nodes ++ more, ∃ c ∈ copies ++ more,
      c.pos = n.pos ∧ c.parent = n.parent ∧ c.value = n.value := by
    intro n hn
    rcases List.mem_append.1 hn with hn | hn
    · obtain ⟨c, hc, hfields⟩ := ((h.mem_iff n).1 hn).1
      exact ⟨c, List.mem_append_left _ hc, hfields⟩
    · exact ⟨n, List.mem_append_right _ hn, rfl, rfl, rfl⟩
  intro a ha b hb hpos
  obtain ⟨c, hc, hcpos, hcparent, hcvalue⟩ := hcopy a ha
  obtain ⟨d, hd, hdpos, hdparent, hdvalue⟩ := hcopy b hb
  obtain ⟨hparent, hvalue⟩ :=
    hagree c hc d hd (hcpos.trans (hpos.trans hdpos.symm))
  exact ⟨hcparent.symm.trans (hparent.trans hdparent),
    hcvalue.symm.trans (hvalue.trans hdvalue)⟩

/-- The loop of `merge`. -/
theorem Canonical.foldl_absorb (h : Canonical nodes copies)
    {more : List (RgaNode T)} (hagree : Agree (copies ++ more)) :
    Canonical (more.foldl RgaList.absorb nodes) (copies ++ more) := by
  induction more generalizing nodes copies with
  | nil =>
    rw [List.append_nil]
    exact h
  | cons n more ih =>
    rw [List.append_cons] at hagree ⊢
    apply ih _ hagree
    have hturn : Agree (nodes ++ [n]) :=
      h.agree_append (hagree.of_subset (List.subset_append_left _ _))
    exact (h.distinct.canonical_absorb hturn).congr (h.joined_append [n])

theorem Canonical.merge {l other : RgaList T} (h : Canonical l.nodes copies)
    (hagree : Agree (copies ++ other.nodes)) :
    Canonical (l.merge other).nodes (copies ++ other.nodes) :=
  (h.foldl_absorb hagree).perm (resort_perm _)

theorem merge_eq {l l' other other' : RgaList T}
    (h : Canonical (other.nodes.foldl RgaList.absorb l.nodes) copies)
    (h' : Canonical (other'.nodes.foldl RgaList.absorb l'.nodes) copies) :
    l.merge other = l'.merge other' :=
  congrArg RgaList.mk (h.resort_eq h')

theorem joined_append_comm (xs ys : List (RgaNode T)) (n : RgaNode T) :
    Joined (xs ++ ys) n ↔ Joined (ys ++ xs) n := by
  apply joined_congr
  intro m
  rw [List.mem_append, List.mem_append, or_comm]

theorem joined_append_self (xs : List (RgaNode T)) (n : RgaNode T) :
    Joined (xs ++ xs) n ↔ Joined xs n := by
  apply joined_congr
  intro m
  rw [List.mem_append, or_self]

theorem merge_comm {a b : RgaList T} (ha : Distinct a.nodes)
    (hb : Distinct b.nodes) (hagree : Agree (a.nodes ++ b.nodes)) :
    a.merge b = b.merge a := by
  have hswap : Agree (b.nodes ++ a.nodes) :=
    hagree.of_subset (List.append_subset.2
      ⟨List.subset_append_right _ _, List.subset_append_left _ _⟩)
  exact merge_eq (ha.canonical.foldl_absorb hagree)
    ((hb.canonical.foldl_absorb hswap).congr (joined_append_comm _ _))

/-- Merging a list with itself only puts it in traversal order. -/
theorem merge_self {a : RgaList T} (ha : Distinct a.nodes)
    (hagree : Agree a.nodes) : (a.merge a).nodes = resort a.nodes := by
  have htwice : Agree (a.nodes ++ a.nodes) :=
    hagree.of_subset (List.append_subset.2 ⟨List.Subset.refl _, List.Subset.refl _⟩)
  exact ((ha.canonical.foldl_absorb htwice).congr (joined_append_self _)).resort_eq ha.canonical

theorem merge_assoc {a b c : RgaList T} (ha : Distinct a.nodes)
    (hb : Distinct b.nodes) (hagree : Agree (a.nodes ++ b.nodes ++ c.nodes)) :
    (a.merge b).merge c = a.merge (b.merge c) := by
  have hab : Agree (a.nodes ++ b.nodes) :=
    hagree.of_subset (List.subset_append_left _ _)
  have hbc : Agree (b.nodes ++ c.nodes) :=
    hagree.of_subset (List.append_subset.2
      ⟨fun n hn => List.mem_append_left _ (List.mem_append_right _ hn),
        List.subset_append_right _ _⟩)
  have hinner := hb.canonical.merge hbc
  -- the merge of `b` and `c` stands for its copies, also on the right
  have hright (n : RgaNode T) :
      Joined (a.nodes ++ (b.merge c).nodes) n ↔ Joined (a.nodes ++ b.nodes ++ c.nodes) n := by
    rw [joined_append_comm, hinner.joined_append, joined_append_comm, List.append_assoc]
  have houter : Agree (a.nodes ++ (b.merge c).nodes) := by
    have hswap : Agree (b.nodes ++ c.nodes ++ a.nodes) := by
      refine hagree.of_subset fun n hn => ?_
      simp only [List.mem_append] at hn ⊢
      exact or_assoc.2 hn.symm
    refine (hinner.agree_append hswap).of_subset fun n hn => ?_
    simp only [List.mem_append] at hn ⊢
    exact hn.symm
  refine merge_eq (?_ : Canonical _ (a.nodes ++ b.nodes ++ c.nodes)) ?_
  · exact (ha.canonical.merge hab).foldl_absorb hagree
  · exact (ha.canonical.foldl_absorb houter).congr hright

-- ==== traversal order

def InOrder (nodes : List (RgaNode T)) : Prop := resort nodes = nodes

theorem Distinct.inOrder_resort (h : Distinct nodes) : InOrder (resort nodes) :=
  (resort_eq_of_perm h.identified (resort_perm nodes).symm).symm

/-- Merging is a join up to the order, which is that of the traversal: it is
commutative and associative, a list merged with itself is put in order, and
a merge is in order. It holds at each position what the copies there make;
the order drops no node and holds none twice. -/
theorem merge_join {a b c : RgaList T} (ha : Distinct a.nodes)
    (hb : Distinct b.nodes) (hagree : Agree (a.nodes ++ b.nodes ++ c.nodes)) :
    (a.merge b).nodes = (b.merge a).nodes
      ∧ ((a.merge b).merge c).nodes = (a.merge (b.merge c)).nodes
      ∧ (a.merge a).nodes = resort a.nodes
      ∧ ((a.merge a).nodes = a.nodes ↔ InOrder a.nodes)
      ∧ InOrder (a.merge b).nodes
      ∧ Distinct (a.merge b).nodes
      ∧ (∀ pos, (∃ n ∈ (a.merge b).nodes, n.pos = pos)
          ↔ (∃ n ∈ a.nodes, n.pos = pos) ∨ ∃ n ∈ b.nodes, n.pos = pos)
      ∧ (∀ n ∈ (a.merge b).nodes, ∀ m ∈ a.nodes ++ b.nodes, m.pos = n.pos →
          m.parent = n.parent ∧ m.value = n.value)
      ∧ (∀ n ∈ (a.merge b).nodes, n.tombstone = true
          ↔ ∃ m ∈ a.nodes ++ b.nodes, m.pos = n.pos ∧ m.tombstone = true)
      ∧ ∀ nodes : List (RgaNode T), (resort nodes).Perm nodes := by
  have hab : Agree (a.nodes ++ b.nodes) :=
    hagree.of_subset (List.subset_append_left _ _)
  have haa : Agree a.nodes := hab.of_subset (List.subset_append_left _ _)
  have hloop := ha.canonical.foldl_absorb hab
  have hmerge := ha.canonical.merge hab
  have hself := merge_self ha haa
  refine ⟨congrArg RgaList.nodes (merge_comm ha hb hab),
    congrArg RgaList.nodes (merge_assoc ha hb hagree), hself, ?_,
    hloop.distinct.inOrder_resort, hmerge.distinct, fun pos => ?_,
    fun n hn m hm hpos => ?_, fun n hn => ((hmerge.mem_iff n).1 hn).2,
    resort_perm⟩
  · rw [hself]
    exact Iff.rfl
  · refine ⟨fun hex => ?_, fun hor => ?_⟩
    · obtain ⟨n, hn, rfl⟩ := hex
      obtain ⟨m, hm, hpos, -⟩ := ((hmerge.mem_iff n).1 hn).1
      rcases List.mem_append.1 hm with hm | hm
      · exact Or.inl ⟨m, hm, hpos⟩
      · exact Or.inr ⟨m, hm, hpos⟩
    · rcases hor with ⟨m, hm, rfl⟩ | ⟨m, hm, rfl⟩
      · obtain ⟨n, hn, hpos, -⟩ :=
          hmerge.node_of_copy (List.mem_append_left _ hm)
        exact ⟨n, hn, hpos⟩
      · obtain ⟨n, hn, hpos, -⟩ :=
          hmerge.node_of_copy (List.mem_append_right _ hm)
        exact ⟨n, hn, hpos⟩
  · obtain ⟨c, hc, hcpos, hcparent, hcvalue⟩ := ((hmerge.mem_iff n).1 hn).1
    obtain ⟨hparent, hvalue⟩ := hab m hm c hc (hpos.trans hcpos.symm)
    exact ⟨hparent.trans hcparent, hvalue.trans hcvalue⟩

def posAt (wall replica counter : Nat) : RgaPos :=
  { hlc := ⟨wall, 0, ⟨replica⟩⟩, replica := ⟨replica⟩, counter }

/-- Two replicas that share an element; one has deleted it, the other has
put one behind it. -/
def deleter : RgaList Nat :=
  { nodes := [⟨posAt 1 0 1, none, 5, true⟩] }

def writer : RgaList Nat :=
  { nodes := [⟨posAt 1 0 1, none, 5, false⟩,
      ⟨posAt 2 1 1, some (posAt 1 0 1), 6, false⟩] }

theorem deleter_joins_writer :
    (deleter.merge writer).nodes = (writer.merge deleter).nodes
      ∧ ∀ n ∈ (deleter.merge writer).nodes, n.tombstone = true
          ↔ ∃ m ∈ deleter.nodes ++ writer.nodes, m.pos = n.pos ∧ m.tombstone = true := by
  have hjoin := merge_join (a := deleter) (b := writer) (c := writer)
    (by unfold Distinct; decide) (by unfold Distinct; decide)
    (by unfold Agree; decide)
  exact ⟨hjoin.1, hjoin.2.2.2.2.2.2.2.2.1⟩

def olderHeadFirst : RgaList Nat :=
  { nodes := [⟨posAt 1 0 1, none, 5, false⟩,
      ⟨posAt 2 1 1, none, 6, false⟩] }

theorem self_merge_reorders :
    Distinct olderHeadFirst.nodes
      ∧ Agree (olderHeadFirst.nodes ++ olderHeadFirst.nodes ++ olderHeadFirst.nodes)
      ∧ (olderHeadFirst.merge olderHeadFirst).nodes ≠ olderHeadFirst.nodes := by
  refine ⟨by unfold Distinct; decide, by unfold Agree; decide, fun h => ?_⟩
  have hpos := congrArg (List.map RgaNode.pos) h
  revert hpos
  decide

end OpenStandards.Crdt

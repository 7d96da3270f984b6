/-
What a delta leaves out.

A delta keeps an addition or a tombstone where the clock does not cover the
stamp of the element. A deletion is sent with the stamp of what it deletes,
so a peer that holds an element never learns that it was removed.

The clock records for each replica the largest stamp that the peer holds
(`Records`). The live elements of the two merges are computed from the
copies, an element at a time, and `merge_delta_iff` says where they agree.
-/
import OpenStandards.Crdt.Proofs.Lists

namespace OpenStandards.Crdt

open Lib

-- ==== clocks

def Records (v : VectorClock) (stamps : Set (ReplicaId × Nat)) : Prop :=
  ∀ r n, v.get r ≤ n ↔ ∀ seq, (r, seq) ∈ stamps → seq ≤ n

theorem Records.le {v : VectorClock} {stamps : Set (ReplicaId × Nat)}
    (h : Records v stamps) {r : ReplicaId} {seq : Nat}
    (hmem : (r, seq) ∈ stamps) : seq ≤ v.get r :=
  (h r (v.get r)).1 (le_refl _) seq hmem

theorem records_new : Records .new ∅ := by
  intro r n
  exact ⟨fun _ _ hmem => hmem.elim, fun _ => Nat.zero_le n⟩

theorem Records.observe {v : VectorClock} {stamps : Set (ReplicaId × Nat)}
    (h : Records v stamps) (r : ReplicaId) (seq : Nat) :
    Records (v.observe r seq) (insert (r, seq) stamps) := by
  intro r' n
  rw [VectorClock.get_observe]
  by_cases hr : r' = r
  · subst hr
    rw [if_pos rfl, max_le_iff, h r' n]
    refine ⟨fun hle seq' hmem => ?_, fun hle => ⟨fun seq' hmem => ?_, ?_⟩⟩
    · rcases Set.mem_insert_iff.1 hmem with heq | hmem
      · cases heq
        exact hle.2
      · exact hle.1 seq' hmem
    · exact hle seq' (Set.mem_insert_of_mem _ hmem)
    · exact hle seq (Set.mem_insert _ _)
  · rw [if_neg hr, h r' n]
    refine ⟨fun hle seq' hmem => ?_, fun hle seq' hmem =>
      hle seq' (Set.mem_insert_of_mem _ hmem)⟩
    rcases Set.mem_insert_iff.1 hmem with heq | hmem
    · exact absurd (congrArg Prod.fst heq) hr
    · exact hle seq' hmem

-- ==== sets

section Sets

variable {T : Type} [DecidableEq T]

inductive SetEdit (T : Type) where
  | add (item : T) (tag : UniqueTag)
  | remove (item : T)

def SetEdit.act (s : OrSet T) : SetEdit T → OrSet T
  | .add item tag => s.add item tag
  | .remove item => s.remove item

def SetEdit.run (edits : List (SetEdit T)) : OrSet T :=
  edits.foldl SetEdit.act .new

namespace OrSet

def stamps (s : OrSet T) : Set (ReplicaId × Nat) :=
  { e | ∃ x, ∃ t ∈ s.tags x, e = (t.replica, tagSeq t) }

theorem mem_tags_merge (s other : OrSet T) (x : T) (t : UniqueTag) :
    t ∈ (s.merge other).tags x ↔ t ∈ s.tags x ∨ t ∈ other.tags x := by
  unfold merge tags
  rw [Table.lookup_foldl_entries]
  · cases other.items.lookup x with
    | none => exact ⟨Or.inl, fun h => h.resolve_right (Finset.notMem_empty t)⟩
    | some tags =>
      simp only [AList.lookup_insert, Option.getD_some]
      exact Finset.mem_union
  · intro m e k hk
    exact AList.lookup_insert_ne hk
  · intro m m' e h
    rw [AList.lookup_insert, AList.lookup_insert, h]

theorem mem_fresh (since : VectorClock) (tags : Finset UniqueTag) (t : UniqueTag) :
    t ∈ fresh since tags ↔ t ∈ tags ∧ since.get t.replica < tagSeq t :=
  Finset.mem_filter

theorem mem_tags_delta (s : OrSet T) (since : VectorClock) (x : T) (t : UniqueTag) :
    t ∈ (s.delta since).tags x ↔ t ∈ s.tags x ∧ since.get t.replica < tagSeq t := by
  rw [← mem_fresh]
  unfold delta tags
  rw [Table.lookup_foldl_entries]
  · cases s.items.lookup x with
    | none => rfl
    | some tags =>
      by_cases hnone : fresh since tags = ∅
      · simp only [if_pos hnone, Option.getD_some]
        rw [hnone]
        rfl
      · simp only [if_neg hnone, AList.lookup_insert, Option.getD_some]
  · intro m e k hk
    by_cases hnone : fresh since e.2 = ∅
    · simp only [if_pos hnone]
    · simp only [if_neg hnone]
      exact AList.lookup_insert_ne hk
  · intro m m' e h
    by_cases hnone : fresh since e.2 = ∅
    · simp only [if_pos hnone]
      exact h
    · simp only [if_neg hnone]
      rw [AList.lookup_insert, AList.lookup_insert]

theorem tags_add_eq (s : OrSet T) (item : T) (tag : UniqueTag) (x : T) :
    (s.add item tag).tags x = if x = item then insert tag (s.tags item) else s.tags x := by
  show ((s.items.insert item (insert tag (s.tags item))).lookup x).getD ∅ = _
  rw [Table.lookup_insert_eq]
  by_cases hx : x = item
  · rw [if_pos hx, if_pos hx]
    rfl
  · rw [if_neg hx, if_neg hx]
    rfl

theorem tags_subset_add (s : OrSet T) (item : T) (tag : UniqueTag) (x : T) :
    s.tags x ⊆ (s.add item tag).tags x := by
  intro t ht
  rw [tags_add_eq]
  by_cases hx : x = item
  · rw [if_pos hx]
    exact Finset.mem_insert_of_mem (hx ▸ ht)
  · rw [if_neg hx]
    exact ht

theorem stamps_new : (new : OrSet T).stamps = ∅ := by
  apply Set.eq_empty_iff_forall_notMem.2
  intro e he
  obtain ⟨x, t, ht, -⟩ := he
  exact Finset.notMem_empty t ht

/-- A clock that observes its tag records an addition. -/
theorem stamps_add (s : OrSet T) (item : T) (tag : UniqueTag) :
    (s.add item tag).stamps = insert (tag.replica, tagSeq tag) s.stamps := by
  apply Set.Subset.antisymm
  · intro e he
    obtain ⟨x, t, ht, rfl⟩ := he
    rw [tags_add_eq] at ht
    by_cases hx : x = item
    · rw [if_pos hx] at ht
      rcases Finset.mem_insert.1 ht with rfl | ht
      · exact Set.mem_insert _ _
      · exact Set.mem_insert_of_mem _ ⟨item, t, ht, rfl⟩
    · rw [if_neg hx] at ht
      exact Set.mem_insert_of_mem _ ⟨x, t, ht, rfl⟩
  · intro e he
    rcases Set.mem_insert_iff.1 he with rfl | ⟨x, t, ht, rfl⟩
    · refine ⟨item, tag, ?_, rfl⟩
      rw [tags_add_eq, if_pos rfl]
      exact Finset.mem_insert_self _ _
    · exact ⟨x, t, s.tags_subset_add item tag x ht, rfl⟩

theorem run_grows (s : OrSet T) (edits : List (SetEdit T)) :
    (∀ x, s.tags x ⊆ (edits.foldl SetEdit.act s).tags x)
      ∧ s.removedTags ⊆ (edits.foldl SetEdit.act s).removedTags := by
  induction edits generalizing s with
  | nil => exact ⟨fun _ => Finset.Subset.refl _, Finset.Subset.refl _⟩
  | cons edit edits ih =>
    obtain ⟨htags, hremoved⟩ := ih (edit.act s)
    cases edit with
    | add item tag =>
      exact ⟨fun x => (s.tags_subset_add item tag x).trans (htags x), hremoved⟩
    | remove item =>
      exact ⟨htags, Finset.subset_union_left.trans hremoved⟩

/-- Nothing that was live was removed for good, and what is new has a live
tag that the clock does not cover. -/
def DeltaSuffices (p s : OrSet T) (v : VectorClock) : Prop :=
  ∀ x, (p.contains x → s.contains x)
    ∧ (¬ p.contains x → s.contains x →
        ∃ t ∈ s.tags x, t ∉ s.removedTags ∧ v.get t.replica < tagSeq t)

variable {p s : OrSet T}

/-- An element after a delta: it was there, or it comes with a new tag. -/
theorem contains_merge_delta {v : VectorClock}
    (hremoved : p.removedTags ⊆ s.removedTags) (hv : Records v p.stamps) (x : T) :
    (p.merge (s.delta v)).contains x
      ↔ p.contains x ∨ ∃ t ∈ s.tags x, t ∉ s.removedTags ∧ v.get t.replica < tagSeq t := by
  have hold : ∀ t ∈ p.tags x, tagSeq t ≤ v.get t.replica :=
    fun t ht => hv.le ⟨x, t, ht, rfl⟩
  have hdead (t : UniqueTag) : t ∈ (p.merge (s.delta v)).removedTags
      ↔ t ∈ p.removedTags ∨ t ∈ s.removedTags ∧ v.get t.replica < tagSeq t :=
    Finset.mem_union.trans (or_congr_right (mem_fresh v _ t))
  refine ⟨fun hin => ?_, fun hor => ?_⟩
  · obtain ⟨t, ht, hlive⟩ := hin
    rw [hdead, not_or, not_and] at hlive
    rcases (mem_tags_merge p _ x t).1 ht with ht | ht
    · exact Or.inl ⟨t, ht, hlive.1⟩
    · obtain ⟨ht, hnew⟩ := (mem_tags_delta s v x t).1 ht
      exact Or.inr ⟨t, ht, fun hin => hlive.2 hin hnew, hnew⟩
  · rcases hor with ⟨t, ht, hlive⟩ | ⟨t, ht, hlive, hnew⟩
    · refine ⟨t, (mem_tags_merge p _ x t).2 (Or.inl ht), ?_⟩
      rw [hdead, not_or, not_and]
      exact ⟨hlive, fun _ => not_lt.2 (hold t ht)⟩
    · refine ⟨t, (mem_tags_merge p _ x t).2
        (Or.inr ((mem_tags_delta s v x t).2 ⟨ht, hnew⟩)), ?_⟩
      rw [hdead, not_or, not_and]
      exact ⟨fun hin => hlive (hremoved hin), fun hin => absurd hin hlive⟩

/-- A later state takes the place of an earlier one. -/
theorem contains_merge_later (htags : ∀ x, p.tags x ⊆ s.tags x)
    (hremoved : p.removedTags ⊆ s.removedTags) (x : T) :
    (p.merge s).contains x ↔ s.contains x := by
  unfold contains
  have hdead (t : UniqueTag) : t ∈ (p.merge s).removedTags ↔ t ∈ s.removedTags :=
    Finset.mem_union.trans (or_iff_right_of_imp fun h => hremoved h)
  have hheld (t : UniqueTag) : t ∈ (p.merge s).tags x ↔ t ∈ s.tags x :=
    (mem_tags_merge p s x t).trans (or_iff_right_of_imp fun h => htags x h)
  simp only [hdead, hheld]

theorem merge_delta_iff {v : VectorClock} (htags : ∀ x, p.tags x ⊆ s.tags x)
    (hremoved : p.removedTags ⊆ s.removedTags) (hv : Records v p.stamps) :
    (∀ x, (p.merge (s.delta v)).contains x ↔ (p.merge s).contains x) ↔ p.DeltaSuffices s v := by
  refine forall_congr' fun x => ?_
  rw [contains_merge_delta hremoved hv, contains_merge_later htags hremoved]
  refine ⟨fun hiff => ⟨fun hp => hiff.1 (Or.inl hp), fun hnew hs => ?_⟩,
    fun hcond => ⟨fun hor => ?_, fun hs => ?_⟩⟩
  · exact (hiff.2 hs).resolve_left hnew
  · rcases hor with hp | ⟨t, ht, hlive, -⟩
    · exact hcond.1 hp
    · exact ⟨t, ht, hlive⟩
  · by_cases hp : p.contains x
    · exact Or.inl hp
    · exact Or.inr (hcond.2 hp hs)

end OrSet

end Sets

-- ==== lists

section Lists

variable {T : Type}

inductive ListEdit (T : Type) where
  | insert (parent : Option RgaPos) (value : T) (ts : HybridLogicalClock)
      (replica : ReplicaId) (counter : Nat)
  | delete (pos : RgaPos)

def ListEdit.act (l : RgaList T) : ListEdit T → RgaList T
  | .insert parent value ts replica counter =>
    (l.insertAfter parent value ts replica counter).1
  | .delete pos => l.delete pos

def ListEdit.run (edits : List (ListEdit T)) : RgaList T :=
  edits.foldl ListEdit.act .new

namespace RgaList

/-- A position of the list, one that is live and one that is deleted. -/
def Holds (l : RgaList T) (pos : RgaPos) : Prop :=
  ∃ n ∈ l.nodes, n.pos = pos

def Live (l : RgaList T) (pos : RgaPos) : Prop :=
  ∃ n ∈ l.nodes, n.pos = pos ∧ n.tombstone = false

def Dead (l : RgaList T) (pos : RgaPos) : Prop :=
  ∃ n ∈ l.nodes, n.pos = pos ∧ n.tombstone = true

def stamps (l : RgaList T) : Set (ReplicaId × Nat) :=
  { e | ∃ n ∈ l.nodes, e = (n.pos.replica, n.pos.counter) }

theorem stamps_new_list : (new : RgaList T).stamps = ∅ := by
  apply Set.eq_empty_iff_forall_notMem.2
  intro e he
  obtain ⟨n, hn, -⟩ := he
  cases hn

theorem stamps_insertAfter (l : RgaList T) (parent : Option RgaPos)
    (value : T) (ts : HybridLogicalClock) (replica : ReplicaId) (counter : Nat) :
    (l.insertAfter parent value ts replica counter).1.stamps
      = insert (replica, counter) l.stamps := by
  apply Set.Subset.antisymm
  · intro e he
    obtain ⟨n, hn, rfl⟩ := he
    rcases List.mem_append.1 ((resort_perm _).mem_iff.1 hn) with hn | hn
    · exact Set.mem_insert_of_mem _ ⟨n, hn, rfl⟩
    · rw [List.mem_singleton.1 hn]
      exact Set.mem_insert _ _
  · intro e he
    rcases Set.mem_insert_iff.1 he with rfl | ⟨n, hn, rfl⟩
    · exact ⟨_, (resort_perm _).mem_iff.2
        (List.mem_append_right _ (List.mem_singleton_self _)), rfl⟩
    · exact ⟨n, (resort_perm _).mem_iff.2 (List.mem_append_left _ hn), rfl⟩

theorem mem_delta (l : RgaList T) (since : VectorClock) (n : RgaNode T) :
    n ∈ (l.delta since).nodes ↔ n ∈ l.nodes ∧ since.get n.pos.replica < n.pos.counter := by
  refine (resort_perm _).mem_iff.trans (List.mem_filter.trans ?_)
  exact and_congr_right fun _ => decide_eq_true_iff

-- ----------------------------------------------------- one position at a time

def nodesAt (pos : RgaPos) (nodes : List (RgaNode T)) : List (RgaNode T) :=
  nodes.filter fun n => n.pos = pos

variable {pos : RgaPos} {n : RgaNode T} {l other p s : RgaList T}
    {v : VectorClock}

theorem mem_nodesAt {nodes : List (RgaNode T)} :
    n ∈ nodesAt pos nodes ↔ n ∈ nodes ∧ n.pos = pos :=
  List.mem_filter.trans (and_congr_right fun _ => decide_eq_true_iff)

theorem nodesAt_cons_self (h : n.pos = pos) (nodes : List (RgaNode T)) :
    nodesAt pos (n :: nodes) = n :: nodesAt pos nodes :=
  List.filter_cons_of_pos (decide_eq_true h)

theorem nodesAt_cons_of_ne (h : n.pos ≠ pos) (nodes : List (RgaNode T)) :
    nodesAt pos (n :: nodes) = nodesAt pos nodes :=
  List.filter_cons_of_neg fun heq => h (of_decide_eq_true heq)

/-- What a turn of `merge` does to the nodes at the position of its node. -/
def meet (held : List (RgaNode T)) (n : RgaNode T) : List (RgaNode T) :=
  match held with
  | [] => [n]
  | m :: held =>
    (if n.tombstone then { m with tombstone := true } else m) :: held

theorem meet_cons (m : RgaNode T) (held : List (RgaNode T)) (n : RgaNode T) :
    meet (m :: held) n = (if n.tombstone then { m with tombstone := true } else m) :: held :=
  rfl

theorem nodesAt_markDeleted_of_ne {pos' : RgaPos} (h : pos' ≠ pos) (nodes : List (RgaNode T)) :
    nodesAt pos (markDeleted pos' nodes) = nodesAt pos nodes := by
  induction nodes with
  | nil => rfl
  | cons m nodes ih =>
    unfold markDeleted
    by_cases hm : m.pos = pos'
    · have hne : m.pos ≠ pos := hm ▸ h
      rw [if_pos hm, nodesAt_cons_of_ne hne]
      exact nodesAt_cons_of_ne (n := { m with tombstone := true }) hne _
    · rw [if_neg hm]
      by_cases hpos : m.pos = pos
      · rw [nodesAt_cons_self hpos, nodesAt_cons_self hpos, ih]
      · rw [nodesAt_cons_of_ne hpos, nodesAt_cons_of_ne hpos, ih]

theorem nodesAt_markDeleted_self {nodes : List (RgaNode T)} {m : RgaNode T}
    {held : List (RgaNode T)} (h : nodesAt pos nodes = m :: held) :
    nodesAt pos (markDeleted pos nodes) = { m with tombstone := true } :: held := by
  induction nodes with
  | nil => cases h
  | cons m' nodes ih =>
    unfold markDeleted
    by_cases hpos : m'.pos = pos
    · rw [nodesAt_cons_self hpos] at h
      cases h
      rw [if_pos hpos]
      exact nodesAt_cons_self (n := { m with tombstone := true }) hpos _
    · rw [nodesAt_cons_of_ne hpos] at h
      rw [if_neg hpos, nodesAt_cons_of_ne hpos, ih h]

theorem nodesAt_absorb_of_ne (h : n.pos ≠ pos) (nodes : List (RgaNode T)) :
    nodesAt pos (absorb nodes n) = nodesAt pos nodes := by
  unfold absorb
  split
  · split
    · exact nodesAt_markDeleted_of_ne h nodes
    · rfl
  · unfold nodesAt
    rw [List.filter_append, List.filter_singleton]
    simp [h]

theorem nodesAt_absorb_self (nodes : List (RgaNode T)) (n : RgaNode T) :
    nodesAt n.pos (absorb nodes n) = meet (nodesAt n.pos nodes) n := by
  unfold absorb
  by_cases hheld : ∃ m ∈ nodes, m.pos = n.pos
  · rw [if_pos hheld]
    obtain ⟨m, hm, hpos⟩ := hheld
    have hmem : m ∈ nodesAt n.pos nodes := mem_nodesAt.2 ⟨hm, hpos⟩
    cases hat : nodesAt n.pos nodes with
    | nil =>
      rw [hat] at hmem
      cases hmem
    | cons m' held =>
      rw [meet_cons]
      by_cases hdead : n.tombstone = true
      · rw [if_pos hdead, if_pos hdead, nodesAt_markDeleted_self hat]
      · rw [if_neg hdead, if_neg hdead, hat]
  · have hnone : nodesAt n.pos nodes = [] := by
      apply List.eq_nil_iff_forall_not_mem.2
      intro m hm
      exact hheld ⟨m, mem_nodesAt.1 hm⟩
    rw [if_neg hheld, hnone]
    unfold nodesAt at hnone ⊢
    rw [List.filter_append, hnone, List.filter_singleton]
    simp [meet]

/-- The loop of `merge`, at one position. -/
theorem nodesAt_foldl_absorb (pos : RgaPos) (nodes more : List (RgaNode T)) :
    nodesAt pos (more.foldl absorb nodes)
      = (nodesAt pos more).foldl meet (nodesAt pos nodes) := by
  induction more generalizing nodes with
  | nil => rfl
  | cons n more ih =>
    rw [List.foldl_cons, ih]
    by_cases hpos : n.pos = pos
    · subst hpos
      rw [nodesAt_cons_self rfl, List.foldl_cons, nodesAt_absorb_self]
    · rw [nodesAt_cons_of_ne hpos, nodesAt_absorb_of_ne hpos]

/-- The first node takes all the deletions, the others stay. -/
theorem foldl_meet_cons (more : List (RgaNode T)) (m : RgaNode T) (held : List (RgaNode T)) :
    ∃ b, (b = true ↔ m.tombstone = true ∨ ∃ n ∈ more, n.tombstone = true)
      ∧ more.foldl meet (m :: held) = { m with tombstone := b } :: held := by
  induction more generalizing m with
  | nil =>
    refine ⟨m.tombstone, ⟨Or.inl, fun h => ?_⟩, rfl⟩
    rcases h with h | ⟨n, hn, -⟩
    · exact h
    · cases hn
  | cons n more ih =>
    rw [List.foldl_cons, meet_cons]
    by_cases hdead : n.tombstone = true
    · rw [if_pos hdead]
      obtain ⟨b, hb, heq⟩ := ih { m with tombstone := true }
      refine ⟨b, ⟨fun _ => ?_, fun _ => hb.2 (Or.inl rfl)⟩, heq⟩
      exact Or.inr ⟨n, List.mem_cons_self .., hdead⟩
    · rw [if_neg hdead]
      obtain ⟨b, hb, heq⟩ := ih m
      refine ⟨b, hb.trans (or_congr_right ?_), heq⟩
      rw [List.exists_mem_cons_iff]
      exact (or_iff_right hdead).symm

-- -------------------------------------------------------- the live positions

theorem live_iff : l.Live pos ↔ ∃ n ∈ nodesAt pos l.nodes, n.tombstone = false := by
  unfold Live
  simp only [mem_nodesAt, and_assoc]

theorem dead_iff : l.Dead pos ↔ ∃ n ∈ nodesAt pos l.nodes, n.tombstone = true := by
  unfold Dead
  simp only [mem_nodesAt, and_assoc]

theorem holds_iff : l.Holds pos ↔ ∃ m held, nodesAt pos l.nodes = m :: held := by
  refine ⟨fun hex => ?_, fun hex => ?_⟩
  · obtain ⟨n, hn⟩ := hex
    exact List.exists_cons_of_ne_nil (List.ne_nil_of_mem (mem_nodesAt.2 hn))
  · obtain ⟨m, held, heq⟩ := hex
    exact ⟨m, mem_nodesAt.1 (heq ▸ List.mem_cons_self ..)⟩

theorem live_merge_iff :
    (l.merge other).Live pos
      ↔ ∃ n ∈ (nodesAt pos other.nodes).foldl meet (nodesAt pos l.nodes),
          n.tombstone = false := by
  rw [live_iff, ← nodesAt_foldl_absorb]
  simp only [mem_nodesAt, merge, (resort_perm _).mem_iff]

/-- A deletion meets the first node at a position that is held. -/
theorem live_merge_of_dead (hl : l.Holds pos) (ho : other.Dead pos) :
    (l.merge other).Live pos ↔ (l.delete pos).Live pos := by
  obtain ⟨m, held, heq⟩ := holds_iff.1 hl
  obtain ⟨b, hb, hfold⟩ := foldl_meet_cons (nodesAt pos other.nodes) m held
  rw [live_merge_iff, heq, hfold, live_iff, delete,
    nodesAt_markDeleted_self heq, hb.2 (Or.inr (dead_iff.1 ho))]

/-- Without one the position stays as it was. -/
theorem live_merge_of_not_dead (hl : l.Holds pos) (ho : ¬ other.Dead pos) :
    (l.merge other).Live pos ↔ l.Live pos := by
  obtain ⟨m, held, heq⟩ := holds_iff.1 hl
  obtain ⟨b, hb, hfold⟩ := foldl_meet_cons (nodesAt pos other.nodes) m held
  have hsame : b = m.tombstone := by
    rw [Bool.eq_iff_iff, hb]
    exact or_iff_left fun hdead => ho (dead_iff.2 hdead)
  rw [live_merge_iff, heq, hfold, live_iff, heq, hsame]

theorem live_merge_of_new (hl : ¬ l.Holds pos) :
    (l.merge other).Live pos ↔ other.Holds pos ∧ ¬ other.Dead pos := by
  have hnil : nodesAt pos l.nodes = [] := by
    by_contra hne
    exact hl (holds_iff.2 (List.exists_cons_of_ne_nil hne))
  rw [live_merge_iff, hnil, holds_iff, dead_iff]
  cases hother : nodesAt pos other.nodes with
  | nil =>
    refine ⟨fun hex => ?_, fun hex => ?_⟩
    · obtain ⟨n, hn, -⟩ := hex
      cases hn
    · obtain ⟨⟨m, held, heq⟩, -⟩ := hex
      cases heq
  | cons n more =>
    obtain ⟨b, hb, hfold⟩ := foldl_meet_cons more n []
    have hall : b = true ↔ ∃ m ∈ n :: more, m.tombstone = true := by
      rw [hb, List.exists_mem_cons_iff]
    rw [List.foldl_cons, show meet [] n = [n] from rfl, hfold, ← hall]
    simp

/-- Nothing that is live was deleted, a second node at its position apart,
and what is new and not deleted is beyond the clock. -/
def DeltaSuffices (p s : RgaList T) (v : VectorClock) : Prop :=
  ∀ pos, (p.Live pos → s.Dead pos → (p.delete pos).Live pos)
    ∧ (¬ p.Holds pos → s.Holds pos → ¬ s.Dead pos → v.get pos.replica < pos.counter)

theorem holds_delta {since : VectorClock} :
    (l.delta since).Holds pos ↔ l.Holds pos ∧ since.get pos.replica < pos.counter := by
  unfold Holds
  simp only [mem_delta]
  refine ⟨fun hex => ?_, fun hex => ?_⟩
  · obtain ⟨n, ⟨hn, hnew⟩, rfl⟩ := hex
    exact ⟨⟨n, hn, rfl⟩, hnew⟩
  · obtain ⟨⟨n, hn, rfl⟩, hnew⟩ := hex
    exact ⟨n, ⟨hn, hnew⟩, rfl⟩

theorem dead_delta {since : VectorClock} :
    (l.delta since).Dead pos ↔ l.Dead pos ∧ since.get pos.replica < pos.counter := by
  unfold Dead
  simp only [mem_delta]
  refine ⟨fun hex => ?_, fun hex => ?_⟩
  · obtain ⟨n, ⟨hn, hnew⟩, rfl, hdead⟩ := hex
    exact ⟨⟨n, hn, rfl, hdead⟩, hnew⟩
  · obtain ⟨⟨n, hn, rfl, hdead⟩, hnew⟩ := hex
    exact ⟨n, ⟨hn, hnew⟩, rfl, hdead⟩

theorem Live.holds (h : l.Live pos) : l.Holds pos := by
  obtain ⟨n, hn, hpos, -⟩ := h
  exact ⟨n, hn, hpos⟩

theorem live_of_delete (hp : p.Holds pos) (h : (p.delete pos).Live pos) : p.Live pos := by
  obtain ⟨m, held, heq⟩ := holds_iff.1 hp
  rw [live_iff, delete, nodesAt_markDeleted_self heq] at h
  rw [live_iff, heq]
  obtain ⟨n, hn, hlive⟩ := h
  rcases List.mem_cons.1 hn with hn | hn
  · rw [hn] at hlive
    cases hlive
  · exact ⟨n, List.mem_cons_of_mem _ hn, hlive⟩

theorem covered_of_holds (hv : Records v p.stamps) (h : p.Holds pos) :
    ¬ v.get pos.replica < pos.counter := by
  obtain ⟨n, hn, rfl⟩ := h
  exact not_lt.2 (hv.le ⟨n, hn, rfl⟩)

theorem merge_delta_iff (hv : Records v p.stamps) :
    (∀ pos, (p.merge (s.delta v)).Live pos ↔ (p.merge s).Live pos) ↔ p.DeltaSuffices s v := by
  refine forall_congr' fun pos => ?_
  by_cases hp : p.Holds pos
  · -- the peer holds it: the delta says nothing about it
    have hold := covered_of_holds hv hp
    rw [live_merge_of_not_dead hp fun hdead => hold (dead_delta.1 hdead).2]
    by_cases hdead : s.Dead pos
    · rw [live_merge_of_dead hp hdead]
      exact ⟨fun h => ⟨fun hlive _ => h.1 hlive, fun hnew => absurd hp hnew⟩,
        fun h => ⟨fun hlive => h.1 hlive hdead, live_of_delete hp⟩⟩
    · rw [live_merge_of_not_dead hp hdead]
      exact ⟨fun _ => ⟨fun _ hs => absurd hs hdead, fun hnew =>
        absurd hp hnew⟩, fun _ => Iff.rfl⟩
  · -- the peer lacks it
    rw [live_merge_of_new hp, live_merge_of_new hp, holds_delta, dead_delta]
    refine ⟨fun hiff => ⟨fun hlive => absurd hlive.holds hp,
      fun _ hs hlive => (hiff.2 ⟨hs, hlive⟩).1.2⟩, fun hcond => ⟨?_, ?_⟩⟩
    · intro hsent
      obtain ⟨⟨hs, hnew⟩, hlive⟩ := hsent
      exact ⟨hs, fun hdead => hlive ⟨hdead, hnew⟩⟩
    · intro hboth
      exact ⟨⟨hboth.1, hcond.2 hp hboth.1 hboth.2⟩,
        fun hdead => hboth.2 hdead.1⟩

-- ------------------------------------------------------------ whole vectors

/-- The nodes of a list have copies in another one, which keep deletions. -/
def Grows (p s : RgaList T) : Prop :=
  ∀ n ∈ p.nodes, ∃ m ∈ s.nodes, m.pos = n.pos ∧ m.parent = n.parent
    ∧ m.value = n.value ∧ (n.tombstone = true → m.tombstone = true)

theorem Grows.refl (l : RgaList T) : l.Grows l :=
  fun n hn => ⟨n, hn, rfl, rfl, rfl, id⟩

theorem Grows.trans {a b c : RgaList T} (hab : a.Grows b) (hbc : b.Grows c) : a.Grows c := by
  intro n hn
  obtain ⟨m, hm, hpos, hparent, hvalue, hdead⟩ := hab n hn
  obtain ⟨k, hk, kpos, kparent, kvalue, kdead⟩ := hbc m hm
  exact ⟨k, hk, kpos.trans hpos, kparent.trans hparent,
    kvalue.trans hvalue, fun h => kdead (hdead h)⟩

theorem markDeleted_grows (pos : RgaPos) (nodes : List (RgaNode T)) :
    Grows ⟨nodes⟩ ⟨markDeleted pos nodes⟩ := by
  induction nodes with
  | nil => exact fun n hn => absurd hn List.not_mem_nil
  | cons m nodes ih =>
    intro n hn
    unfold markDeleted
    by_cases hpos : m.pos = pos
    · simp only [if_pos hpos]
      rcases List.mem_cons.1 hn with rfl | hn
      · exact ⟨{ n with tombstone := true }, List.mem_cons_self ..,
          rfl, rfl, rfl, fun _ => rfl⟩
      · exact ⟨n, List.mem_cons_of_mem _ hn, rfl, rfl, rfl, id⟩
    · simp only [if_neg hpos]
      rcases List.mem_cons.1 hn with rfl | hn
      · exact ⟨n, List.mem_cons_self .., rfl, rfl, rfl, id⟩
      · obtain ⟨k, hk, hfields⟩ := ih n hn
        exact ⟨k, List.mem_cons_of_mem _ hk, hfields⟩

theorem act_grows (l : RgaList T) (edit : ListEdit T) : l.Grows (edit.act l) := by
  cases edit with
  | insert parent value ts replica counter =>
    intro n hn
    exact ⟨n, (resort_perm _).mem_iff.2 (List.mem_append_left _ hn),
      rfl, rfl, rfl, id⟩
  | delete pos => exact markDeleted_grows pos l.nodes

theorem run_grows (l : RgaList T) (edits : List (ListEdit T)) :
    l.Grows (edits.foldl ListEdit.act l) := by
  induction edits generalizing l with
  | nil => exact .refl l
  | cons edit edits ih => exact (act_grows l edit).trans (ih (edit.act l))

theorem map_pos_markDeleted (pos : RgaPos) (nodes : List (RgaNode T)) :
    (markDeleted pos nodes).map RgaNode.pos = nodes.map RgaNode.pos := by
  induction nodes with
  | nil => rfl
  | cons m nodes ih =>
    unfold markDeleted
    split
    · rfl
    · rw [List.map_cons, List.map_cons, ih]

/-- A position that is held twice stays so. -/
theorem distinct_of_act {edit : ListEdit T} (h : Distinct (edit.act l).nodes) :
    Distinct l.nodes := by
  cases edit with
  | insert parent value ts replica counter =>
    have happ := h.perm (resort_perm _)
    exact happ.sublist ((List.sublist_append_left _ _).map _)
  | delete pos =>
    unfold Distinct
    rw [← map_pos_markDeleted pos]
    exact h

theorem distinct_of_run {edits : List (ListEdit T)}
    (h : Distinct (edits.foldl ListEdit.act l).nodes) : Distinct l.nodes := by
  induction edits generalizing l with
  | nil => exact h
  | cons edit edits ih => exact distinct_of_act (ih h)

theorem Grows.agree (h : p.Grows s) (hd : Distinct s.nodes) : Agree (p.nodes ++ s.nodes) := by
  have hcopy : ∀ n ∈ p.nodes ++ s.nodes, ∃ m ∈ s.nodes,
      m.pos = n.pos ∧ m.parent = n.parent ∧ m.value = n.value := by
    intro n hn
    rcases List.mem_append.1 hn with hn | hn
    · obtain ⟨m, hm, hpos, hparent, hvalue, -⟩ := h n hn
      exact ⟨m, hm, hpos, hparent, hvalue⟩
    · exact ⟨n, hn, rfl, rfl, rfl⟩
  intro a ha b hb hpos
  obtain ⟨c, hc, hcpos, hcparent, hcvalue⟩ := hcopy a ha
  obtain ⟨d, hd', hdpos, hdparent, hdvalue⟩ := hcopy b hb
  rw [hd.eq_of_pos hc hd' (hcpos.trans (hpos.trans hdpos.symm))]
    at hcparent hcvalue
  exact ⟨hcparent.symm.trans hdparent, hcvalue.symm.trans hdvalue⟩

/-- The delta sends all that is new, and nothing that is live was
deleted. -/
def DeltaComplete (p s : RgaList T) (v : VectorClock) : Prop :=
  ∀ pos, (p.Live pos → ¬ s.Dead pos)
    ∧ (¬ p.Holds pos → s.Holds pos → v.get pos.replica < pos.counter)

theorem not_live_delete (h : Distinct l.nodes) (pos : RgaPos) : ¬ (l.delete pos).Live pos := by
  intro hlive
  obtain ⟨n, hn, hpos, htomb⟩ := hlive
  change n ∈ markDeleted pos l.nodes at hn
  rw [h.markDeleted, List.mem_map] at hn
  obtain ⟨m, -, rfl⟩ := hn
  rw [RgaNode.bury_pos] at hpos
  rw [(RgaNode.bury_tombstone pos m).2 (Or.inl hpos)] at htomb
  cases htomb

/-- What the delta leaves out adds nothing to the copies. -/
theorem DeltaComplete.joined_iff (h : p.DeltaComplete s v)
    (hagree : Agree (p.nodes ++ s.nodes)) (n : RgaNode T) :
    Joined (p.nodes ++ (s.delta v).nodes) n ↔ Joined (p.nodes ++ s.nodes) n := by
  have hsub : ∀ m ∈ p.nodes ++ (s.delta v).nodes, m ∈ p.nodes ++ s.nodes := by
    intro m hm
    rcases List.mem_append.1 hm with hm | hm
    · exact List.mem_append_left _ hm
    · exact List.mem_append_right _ ((mem_delta s v m).1 hm).1
  -- a node that is left out is held by the peer
  have hor : ∀ m ∈ p.nodes ++ s.nodes, m ∈ p.nodes ++ (s.delta v).nodes ∨ p.Holds m.pos := by
    intro m hm
    rcases List.mem_append.1 hm with hm | hm
    · exact Or.inl (List.mem_append_left _ hm)
    · by_cases hheld : p.Holds m.pos
      · exact Or.inr hheld
      · exact Or.inl (List.mem_append_right _ ((mem_delta s v m).2
          ⟨hm, (h m.pos).2 hheld ⟨m, hm, rfl⟩⟩))
  unfold Joined
  refine and_congr ⟨fun hex => ?_, fun hex => ?_⟩
    (iff_congr Iff.rfl ⟨fun hex => ?_, fun hex => ?_⟩)
  · obtain ⟨m, hm, hfields⟩ := hex
    exact ⟨m, hsub m hm, hfields⟩
  · obtain ⟨m, hm, hpos, hparent, hvalue⟩ := hex
    rcases hor m hm with hm' | ⟨c, hc, hcpos⟩
    · exact ⟨m, hm', hpos, hparent, hvalue⟩
    · obtain ⟨hcparent, hcvalue⟩ :=
        hagree c (List.mem_append_left _ hc) m hm hcpos
      exact ⟨c, List.mem_append_left _ hc, hcpos.trans hpos,
        hcparent.trans hparent, hcvalue.trans hvalue⟩
  · obtain ⟨m, hm, hfields⟩ := hex
    exact ⟨m, hsub m hm, hfields⟩
  · obtain ⟨m, hm, hpos, hdead⟩ := hex
    rcases List.mem_append.1 hm with hm' | hm'
    · exact ⟨m, List.mem_append_left _ hm', hpos, hdead⟩
    · rcases hor m hm with hsent | ⟨c, hc, hcpos⟩
      · exact ⟨m, hsent, hpos, hdead⟩
      · -- were the copy of the peer live, the deletion would be missing
        refine ⟨c, List.mem_append_left _ hc, hcpos.trans hpos, ?_⟩
        by_contra hlive
        rw [Bool.not_eq_true] at hlive
        exact (h m.pos).1 ⟨c, hc, hcpos, hlive⟩ ⟨m, hm', rfl, hdead⟩

/-- Where no position is held twice, the two merges are the same vector if
and only if the delta is complete. -/
theorem merge_delta_eq_iff (hv : Records v p.stamps) (hgrows : p.Grows s)
    (hp : Distinct p.nodes) (hs : Distinct s.nodes) :
    p.merge (s.delta v) = p.merge s ↔ p.DeltaComplete s v := by
  have hagree := hgrows.agree hs
  have hsub : (s.delta v).nodes ⊆ s.nodes :=
    fun n hn => ((mem_delta s v n).1 hn).1
  have hagree' : Agree (p.nodes ++ (s.delta v).nodes) :=
    hagree.of_subset (List.append_subset.2 ⟨List.subset_append_left _ _,
      fun n hn => List.mem_append_right _ (hsub hn)⟩)
  refine ⟨fun heq pos => ⟨fun hlive hdead => ?_, fun hnew hheld => ?_⟩,
    fun hcond => merge_eq (hp.canonical.foldl_absorb hagree')
      ((hp.canonical.foldl_absorb hagree).congr fun n =>
        (hcond.joined_iff hagree n).symm)⟩
  · have hkept : (p.merge (s.delta v)).Live pos :=
      (live_merge_of_not_dead hlive.holds fun h =>
        covered_of_holds hv hlive.holds (dead_delta.1 h).2).2 hlive
    rw [heq, live_merge_of_dead hlive.holds hdead] at hkept
    exact not_live_delete hp pos hkept
  · obtain ⟨m, hm, rfl⟩ := hheld
    obtain ⟨n, hn, hpos, -⟩ := (hp.canonical.merge hagree).node_of_copy
      (List.mem_append_right _ hm)
    rw [← heq] at hn
    obtain ⟨c, hc, hcpos, -⟩ :=
      (((hp.canonical.merge hagree').mem_iff n).1 hn).1
    rcases List.mem_append.1 hc with hc | hc
    · exact absurd ⟨c, hc, hcpos.trans hpos⟩ hnew
    · exact (holds_delta.1 ⟨c, hc, hcpos.trans hpos⟩).2

end RgaList

end Lists

-- ==== the contract

/-- A peer that is at an earlier state is brought to the live elements of a
later one by its delta if and only if the delta suffices. -/
theorem delta_contract_iff {S T : Type} [DecidableEq S]
    (earlier later : List (SetEdit S)) {v : VectorClock}
    (hv : Records v (SetEdit.run earlier).stamps)
    (before after : List (ListEdit T)) {w : VectorClock}
    (hw : Records w (ListEdit.run before).stamps) :
    ((∀ x, ((SetEdit.run earlier).merge ((SetEdit.run (earlier ++ later)).delta v)).contains x
          ↔ ((SetEdit.run earlier).merge (SetEdit.run (earlier ++ later))).contains x)
        ↔ (SetEdit.run earlier).DeltaSuffices (SetEdit.run (earlier ++ later)) v)
      ∧ ((∀ pos, ((ListEdit.run before).merge
            ((ListEdit.run (before ++ after)).delta w)).Live pos
          ↔ ((ListEdit.run before).merge (ListEdit.run (before ++ after))).Live pos)
        ↔ (ListEdit.run before).DeltaSuffices (ListEdit.run (before ++ after)) w)
      ∧ (Distinct (ListEdit.run (before ++ after)).nodes →
          ((ListEdit.run before).merge ((ListEdit.run (before ++ after)).delta w)
            = (ListEdit.run before).merge (ListEdit.run (before ++ after))
          ↔ (ListEdit.run before).DeltaComplete (ListEdit.run (before ++ after)) w)) := by
  have hset : SetEdit.run (earlier ++ later)
      = later.foldl SetEdit.act (SetEdit.run earlier) := List.foldl_append ..
  have hlist : ListEdit.run (before ++ after)
      = after.foldl ListEdit.act (ListEdit.run before) := List.foldl_append ..
  rw [hset, hlist]
  obtain ⟨htags, hremoved⟩ := OrSet.run_grows (SetEdit.run earlier) later
  exact ⟨OrSet.merge_delta_iff htags hremoved hv,
    RgaList.merge_delta_iff hw, fun hd =>
      RgaList.merge_delta_eq_iff hw (RgaList.run_grows _ after) (RgaList.distinct_of_run hd) hd⟩

def tagAt (wall : Nat) : UniqueTag :=
  { hlc := ⟨wall, 0, ⟨0⟩⟩, replica := ⟨0⟩, nonce := 0 }

def oneItem : List (SetEdit Nat) := [.add 5 (tagAt 1)]

def oneElement : List (ListEdit Nat) := [.insert none 5 ⟨1, 0, ⟨0⟩⟩ ⟨0⟩ 1]

def itemClock : VectorClock := VectorClock.new.observe ⟨0⟩ (tagSeq (tagAt 1))

def elementClock : VectorClock := VectorClock.new.observe ⟨0⟩ 1

theorem records_itemClock : Records itemClock (SetEdit.run oneItem).stamps := by
  show Records _ ((OrSet.new : OrSet Nat).add 5 (tagAt 1)).stamps
  rw [OrSet.stamps_add, OrSet.stamps_new]
  exact records_new.observe ⟨0⟩ (tagSeq (tagAt 1))

theorem records_elementClock : Records elementClock (ListEdit.run oneElement).stamps := by
  show Records _ ((RgaList.new : RgaList Nat).insertAfter none 5 ⟨1, 0, ⟨0⟩⟩
    ⟨0⟩ 1).1.stamps
  rw [RgaList.stamps_insertAfter, RgaList.stamps_new_list]
  exact records_new.observe ⟨0⟩ 1

/-- What was added since arrives: an item with a new tag, an element with a
new counter. -/
theorem new_arrives :
    (∀ x, ((SetEdit.run oneItem).merge
          ((SetEdit.run (oneItem ++ [.add 6 (tagAt 2)])).delta itemClock) ).contains x
        ↔ ((SetEdit.run oneItem).merge
            (SetEdit.run (oneItem ++ [.add 6 (tagAt 2)]))).contains x)
      ∧ (ListEdit.run oneElement).merge
          ((ListEdit.run (oneElement ++ [.insert none 6 ⟨2, 0, ⟨0⟩⟩ ⟨0⟩ 2])).delta elementClock)
        = (ListEdit.run oneElement).merge
          (ListEdit.run (oneElement ++ [.insert none 6 ⟨2, 0, ⟨0⟩⟩ ⟨0⟩ 2])) := by
  obtain ⟨hset, -, hvector⟩ := delta_contract_iff oneItem
    [.add 6 (tagAt 2)] records_itemClock oneElement
    [.insert none 6 ⟨2, 0, ⟨0⟩⟩ ⟨0⟩ 2] records_elementClock
  refine ⟨hset.2 fun x => ?_, (hvector (by unfold Distinct; decide)).2
    fun pos => ⟨fun _ hdead => ?_, fun hnew hheld => ?_⟩⟩
  · by_cases h5 : x = 5
    · subst h5
      decide
    · by_cases h6 : x = 6
      · subst h6
        decide
      · have hnone : ¬ (SetEdit.run (oneItem ++ [.add 6 (tagAt 2)]) ).contains x := by
          intro hin
          obtain ⟨t, ht, -⟩ := hin
          change t ∈ (((OrSet.new : OrSet Nat).add 5 (tagAt 1)).add 6 (tagAt 2)).tags x at ht
          rw [OrSet.tags_add_eq, if_neg h6, OrSet.tags_add_eq, if_neg h5] at ht
          cases ht
        refine ⟨fun hin => ?_, fun _ hin => absurd hin hnone⟩
        obtain ⟨t, ht, -⟩ := hin
        change t ∈ ((OrSet.new : OrSet Nat).add 5 (tagAt 1)).tags x at ht
        rw [OrSet.tags_add_eq, if_neg h5] at ht
        cases ht
  · have hlive : ∀ n ∈ (ListEdit.run (oneElement
        ++ [.insert none 6 ⟨2, 0, ⟨0⟩⟩ ⟨0⟩ 2])).nodes,
        n.tombstone = false := by decide
    obtain ⟨n, hn, -, htomb⟩ := hdead
    rw [hlive n hn] at htomb
    cases htomb
  · have hsent : ∀ n ∈ (ListEdit.run (oneElement
        ++ [.insert none 6 ⟨2, 0, ⟨0⟩⟩ ⟨0⟩ 2])).nodes,
        (∃ m ∈ (ListEdit.run oneElement).nodes, m.pos = n.pos)
          ∨ elementClock.get n.pos.replica < n.pos.counter := by decide
    obtain ⟨n, hn, rfl⟩ := hheld
    exact (hsent n hn).resolve_left hnew

/-- What was removed since stays. -/
theorem removal_lost :
    Records itemClock (SetEdit.run oneItem).stamps
      ∧ Records elementClock (ListEdit.run oneElement).stamps
      ∧ ((SetEdit.run oneItem).merge
          ((SetEdit.run (oneItem ++ [.remove 5])).delta itemClock)).contains 5
      ∧ ¬ ((SetEdit.run oneItem).merge (SetEdit.run (oneItem ++ [.remove 5]))).contains 5
      ∧ ((ListEdit.run oneElement).merge
          ((ListEdit.run (oneElement ++ [.delete (posAt 1 0 1)])).delta
            elementClock)).Live (posAt 1 0 1)
      ∧ ¬ ((ListEdit.run oneElement).merge
          (ListEdit.run (oneElement ++ [.delete (posAt 1 0 1)]))).Live (posAt 1 0 1) := by
  refine ⟨records_itemClock, records_elementClock, ?_, ?_, ?_, ?_⟩
  · decide
  · decide
  · unfold RgaList.Live
    decide
  · unfold RgaList.Live
    decide

end OpenStandards.Crdt

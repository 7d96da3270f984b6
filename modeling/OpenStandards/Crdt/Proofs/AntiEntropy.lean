/-
Anti-entropy loses nothing.

`diff` numbers the ops of a replica by their order of appearance in the
sender's log; `clock_of` counts those in the receiver's log. The two
speak of the same ops because the ops of a replica appear in every log as
a prefix of that replica's own emission order (`Causal.emitted`). A
synchronisation applies, in timestamp order, the part of each emission
order between what the receiver has and what the sender has, and where it
stops early it has still applied a prefix of that part.
-/
import OpenStandards.Crdt.Document

namespace OpenStandards.Crdt

open Lib

-- ==== one replica's ops in a log

def ofReplica (r : ReplicaId) (log : List Op) : List Op :=
  log.filter fun op => op.replica = r

variable {r : ReplicaId} {op : Op}

theorem mem_ofReplica {log : List Op} : op ∈ ofReplica r log ↔ op ∈ log ∧ op.replica = r := by
  unfold ofReplica
  rw [List.mem_filter, decide_eq_true_eq]

theorem ofReplica_append (r : ReplicaId) (log log' : List Op) :
    ofReplica r (log ++ log') = ofReplica r log ++ ofReplica r log' :=
  List.filter_append ..

theorem ofReplica_cons_self (h : op.replica = r) (log : List Op) :
    ofReplica r (op :: log) = op :: ofReplica r log :=
  List.filter_cons_of_pos (decide_eq_true h)

theorem ofReplica_cons_of_ne (h : op.replica ≠ r) (log : List Op) :
    ofReplica r (op :: log) = ofReplica r log :=
  List.filter_cons_of_neg (by simpa using h)

theorem ofReplica_prefix {log log' : List Op} (h : log <+: log') :
    ofReplica r log <+: ofReplica r log' :=
  h.filter _

-- ==== the sync functions' specs

theorem count_insert (c : Counters) (r r' : ReplicaId) (n : Nat) :
    Counters.count (c.insert r n) r' = if r' = r then n else c.count r' := by
  unfold Counters.count
  rw [Table.lookup_insert_eq]
  by_cases h : r' = r
  · rw [if_pos h, if_pos h]
    rfl
  · rw [if_neg h, if_neg h]

/-- Of each replica, `diff` keeps what lies beyond the remote's
number. -/
theorem ofReplica_diffLoop (remote : VectorClock) (r : ReplicaId) :
    ∀ (log : List Op) (c : Counters),
      ofReplica r (diffLoop remote log c)
        = (ofReplica r log).drop (remote.get r - c.count r) := by
  intro log
  induction log with
  | nil =>
    intro c
    show [] = List.drop _ []
    rw [List.drop_nil]
  | cons op log ih =>
    intro c
    have hrest := ih (c.insert op.replica (c.count op.replica + 1))
    rw [count_insert] at hrest
    unfold diffLoop
    by_cases hr : op.replica = r
    · rw [hr, if_pos rfl] at hrest
      rw [ofReplica_cons_self hr, hr]
      by_cases hlt : remote.get r < c.count r + 1
      · -- within the kept part from here on
        rw [show remote.get r - c.count r = 0 by omega]
        rw [show remote.get r - (c.count r + 1) = 0 by omega] at hrest
        simp only [if_pos hlt, ofReplica_cons_self hr, hrest, List.drop_zero]
      · rw [show remote.get r - c.count r
          = (remote.get r - (c.count r + 1)) + 1 by omega,
          List.drop_succ_cons]
        simp only [if_neg hlt]
        exact hrest
    · rw [if_neg (Ne.symm hr)] at hrest
      rw [ofReplica_cons_of_ne hr, ← hrest]
      by_cases hlt : remote.get op.replica < c.count op.replica + 1
      · simp only [if_pos hlt]
        exact ofReplica_cons_of_ne hr _
      · simp only [if_neg hlt]

/-- `clock_of` counts the ops of each replica. -/
theorem get_clockOfLoop (r : ReplicaId) :
    ∀ (log : List Op) (c : Counters) (vc : VectorClock),
      vc.get r = c.count r →
      (clockOfLoop log c vc).get r = c.count r + (ofReplica r log).length := by
  intro log
  induction log with
  | nil =>
    intro c vc h
    exact h
  | cons op log ih =>
    intro c vc h
    unfold clockOfLoop
    by_cases hr : op.replica = r
    · have hget : (vc.observe op.replica (c.count op.replica + 1)).get r
          = Counters.count (c.insert op.replica (c.count op.replica + 1)) r := by
        rw [VectorClock.get_observe, count_insert, hr, if_pos rfl, if_pos rfl]
        omega
      rw [ih _ _ hget, count_insert, if_pos hr.symm,
        ofReplica_cons_self hr, hr, List.length_cons]
      omega
    · have hget : (vc.observe op.replica (c.count op.replica + 1)).get r
          = Counters.count (c.insert op.replica (c.count op.replica + 1)) r := by
        rw [VectorClock.get_observe, count_insert, if_neg (Ne.symm hr), if_neg (Ne.symm hr)]
        exact h
      rw [ih _ _ hget, count_insert, if_neg (Ne.symm hr), ofReplica_cons_of_ne hr]

theorem get_clockOf (doc : CrdtDocument) (r : ReplicaId) :
    (clockOf doc).get r = (ofReplica r doc.history).length := by
  have h := get_clockOfLoop r doc.history ∅ .new rfl
  rw [show Counters.count ∅ r = 0 from rfl, Nat.zero_add] at h
  exact h

-- ==== the order of a batch

theorem hlcLe_total : ∀ a b : Op, hlcLe a b ∨ hlcLe b a := fun a b =>
  le_total a.hlc b.hlc

theorem hlcLe_trans : ∀ a b c : Op, hlcLe a b → hlcLe b c → hlcLe a c :=
  fun _ _ _ hab hbc => le_trans (α := HybridLogicalClock) hab hbc

instance : Std.Total hlcLe := ⟨hlcLe_total⟩

instance : IsTrans Op hlcLe := ⟨hlcLe_trans⟩

/-- Sorting a batch by timestamp leaves the ops of a replica in place,
when these are in timestamp order already. -/
theorem ofReplica_insertionSort {ops : List Op}
    (h : (ofReplica r ops).Pairwise fun a b => a.hlc < b.hlc) :
    ofReplica r (ops.insertionSort hlcLe) = ofReplica r ops := by
  have hperm : (ofReplica r (ops.insertionSort hlcLe)).Perm (ofReplica r ops) :=
    (List.perm_insertionSort hlcLe ops).filter _
  have hsorted : (ofReplica r (ops.insertionSort hlcLe)).Pairwise hlcLe :=
    (List.pairwise_insertionSort hlcLe ops).filter _
  refine List.Perm.eq_of_pairwise ?_ hsorted (h.imp le_of_lt) hperm
  -- equal timestamps within a strictly ordered list are one op
  intro a b ha hb hab hba
  have heq : a.hlc = b.hlc := le_antisymm hab hba
  have hsymm : Std.Symm fun x y : Op => x.hlc ≠ y.hlc :=
    ⟨fun _ _ hxy => hxy.symm⟩
  have hne : (ofReplica r ops).Pairwise fun x y => x.hlc ≠ y.hlc :=
    h.imp ne_of_lt
  apply Classical.byContradiction
  intro hab
  exact hne.forall (hperm.mem_iff.1 ha) hb hab heq

theorem diffLoop_sublist (remote : VectorClock) :
    ∀ (log : List Op) (c : Counters), (diffLoop remote log c).Sublist log := by
  intro log
  induction log with
  | nil =>
    intro c
    exact .slnil
  | cons op log ih =>
    intro c
    have hrest := ih (c.insert op.replica (c.count op.replica + 1))
    unfold diffLoop
    by_cases hlt : remote.get op.replica < c.count op.replica + 1
    · simp only [if_pos hlt]
      exact hrest.cons_cons op
    · simp only [if_neg hlt]
      exact hrest.cons op

section

variable {computeId : Op → OpId}

-- ==== what a call can do

/-- Applying a genuine op that is not in the log either logs it or
leaves the log alone. -/
theorem applyOp_cases {d : CrdtDocument} {op : Op}
    (hver : op.computedId computeId = op.id) (hnew : ∀ h ∈ d.history, h.id ≠ op.id) :
    (∃ e d', d.applyOp computeId op = (.error e, d') ∧ d'.history = d.history)
      ∨ (∃ d', d.applyOp computeId op = (.ok true, d') ∧ d'.history = d.history ++ [op]) := by
  have hv : op.verifyId computeId = .ok () :=
    refuse_eq_ok.2 fun hne => hne hver
  have hany : ¬ (d.history.any fun h => h.id = op.id) = true := by
    rw [List.any_eq_true]
    intro ⟨h, hmem, hid⟩
    exact hnew h hmem (of_decide_eq_true hid)
  unfold CrdtDocument.applyOp
  rw [hv]
  simp only [if_neg hany]
  unfold CrdtDocument.applyOpInternal
  cases hres : (applyRecursive op op.targetPath d.root).1 with
  | error e =>
    refine Or.inl ⟨e,
      { d with root := (applyRecursive op op.targetPath d.root).2 }, ?_, rfl⟩
    simp only [hres]
  | ok u =>
    refine Or.inr ⟨{ d with
      root := (applyRecursive op op.targetPath d.root).2
      history := d.history ++ [op]
      clock := if d.clock < op.hlc then op.hlc else d.clock }, ?_, rfl⟩
    simp only [hres]

/-- A batch of genuine, new and distinct ops is logged in order, up to
the first that fails. -/
theorem applyLoop_history :
    ∀ (ops : List Op) (n : Nat) (d : CrdtDocument),
      (∀ op ∈ ops, op.computedId computeId = op.id) →
      (∀ op ∈ ops, ∀ h ∈ d.history, h.id ≠ op.id) →
      (ops.map Op.id).Nodup →
      ∃ k, (applyLoop computeId ops n d).2.history = d.history ++ ops.take k
        ∧ ∀ m, (applyLoop computeId ops n d).1 = .ok m → ops.take k = ops := by
  intro ops
  induction ops with
  | nil =>
    intro n d _ _ _
    exact ⟨0, (List.append_nil _).symm, fun _ _ => rfl⟩
  | cons op ops ih =>
    intro n d hver hnew hnd
    rw [List.map_cons, List.nodup_cons] at hnd
    unfold applyLoop
    rcases applyOp_cases (hver op List.mem_cons_self) (hnew op List.mem_cons_self) with
      ⟨e, d', heq, hh⟩ | ⟨d', heq, hh⟩
    · rw [heq]
      refine ⟨0, ?_, ?_⟩
      · show d'.history = _
        rw [hh, List.take_zero, List.append_nil]
      · intro m hm
        cases hm
    · rw [heq]
      have hnew' : ∀ o ∈ ops, ∀ h ∈ d'.history, h.id ≠ o.id := by
        intro o ho h hmem
        rw [hh, List.mem_append, List.mem_singleton] at hmem
        rcases hmem with hmem | rfl
        · exact hnew o (List.mem_cons_of_mem _ ho) h hmem
        · intro hid
          exact hnd.1 (hid ▸ List.mem_map_of_mem ho)
      obtain ⟨k, hk, hok⟩ := ih _ d'
        (fun o ho => hver o (List.mem_cons_of_mem _ ho)) hnew' hnd.2
      refine ⟨k + 1, ?_, ?_⟩
      · show (applyLoop computeId ops _ d').2.history = _
        rw [hk, hh, List.take_succ_cons, List.append_assoc]
        rfl
      · intro m hm
        rw [List.take_succ_cons, hok m hm]

def Edit.path : Edit → String
  | .writeAt path _ => path
  | .listInsert path .. => path
  | .textInsert path .. => path
  | .counterAdd path _ => path
  | .setAdd path .. => path

def Edit.kind : Edit → HybridLogicalClock → ReplicaId → OpKind
  | .writeAt _ value => fun _ _ => .registerSet value
  | .listInsert _ parent value counter => fun hlc replica =>
    .listInsert parent value { hlc, replica, counter }
  | .textInsert _ parent ch counter => fun hlc replica =>
    .textInsert parent ch { hlc, replica, counter }
  | .counterAdd _ delta => fun _ _ => .counterAdd delta
  | .setAdd _ value nonce => fun hlc replica =>
    .setAdd value { hlc, replica, nonce }

def Replica.editedOp (computeId : Op → OpId) (r : Replica) (e : Edit) (wall : Nat) : Op :=
  Op.new computeId r.doc.id (Path.parse e.path)
    (e.kind (r.clock.now wall).1 r.clock.node) (r.clock.now wall).1
    r.clock.node

/-- An edit advances the clock and either logs its op or leaves the log
alone. -/
theorem edit_cases (computeId : Op → OpId) (r : Replica) (e : Edit) (wall : Nat) :
    (r.edit computeId e wall).2.2 = (r.clock.now wall).2
      ∧ ((r.edit computeId e wall).2.1.history = r.doc.history
        ∨ (r.edit computeId e wall).2.1.history
          = r.doc.history ++ [r.editedOp computeId e wall]) := by
  have heq : r.edit computeId e wall
      = r.doc.localEdit computeId e.path e.kind r.clock wall := by
    cases e <;> rfl
  rw [heq]
  unfold CrdtDocument.localEdit CrdtDocument.applyOpInternal
  show _ ∧ (_ ∨ _ = r.doc.history ++ [Op.new ..])
  cases hres : (applyRecursive (r.editedOp computeId e wall)
      (r.editedOp computeId e wall).targetPath r.doc.root).1 with
  | error err =>
    unfold Replica.editedOp at hres
    simp only [hres, true_or, and_self]
  | ok u =>
    unfold Replica.editedOp at hres
    simp only [hres, or_true, and_self]

theorem computedId_new (doc : DocumentId) (path : Path) (kind : OpKind)
    (hlc : HybridLogicalClock) (replica : ReplicaId) :
    (Op.new computeId doc path kind hlc replica).computedId computeId
      = (Op.new computeId doc path kind hlc replica).id := rfl

end

-- ==== the invariant

section

variable {ι : Type} (computeId : Op → OpId) (rid : ι → ReplicaId)

/-- What holds of the replicas in every reachable state. -/
structure Causal (s : Replicas ι) : Prop where
  node : ∀ i, (s i).clock.node = rid i
  -- every logged op was emitted by a replica, and is genuine
  author : ∀ i, ∀ op ∈ (s i).doc.history, ∃ j, op.replica = rid j
  genuine : ∀ i, ∀ op ∈ (s i).doc.history, op.computedId computeId = op.id
  -- a log holds of each replica a prefix of what that replica emitted
  emitted : ∀ i j, ofReplica (rid j) (s i).doc.history <+: ofReplica (rid j) (s j).doc.history
  -- a replica emits in timestamp order, up to its clock
  increasing : ∀ j, (ofReplica (rid j) (s j).doc.history).Pairwise
    fun a b => a.hlc < b.hlc
  last : ∀ j, ∀ op ∈ ofReplica (rid j) (s j).doc.history, op.hlc ≤ (s j).clock.last
  -- an id names one op
  ids : ∀ i j, ∀ op ∈ (s i).doc.history, ∀ op' ∈ (s j).doc.history, op.id = op'.id → op = op'
  nodup : ∀ i, (s i).doc.history.Nodup

def Permitted (s : Replicas ι) : Action ι → Prop
  | .edit i e wall => (s i).clock.Unsaturated
      ∧ ∀ j, ∀ op ∈ (s j).doc.history,
        op.id = ((s i).editedOp computeId e wall).id →
        op = (s i).editedOp computeId e wall
  | .sync _ _ => True

variable {computeId rid} {s : Replicas ι}

theorem Causal.ids_nodup (hc : Causal computeId rid s) (i : ι) :
    ((s i).doc.history.map Op.id).Nodup :=
  (hc.nodup i).map_on fun op hop op' hop' => hc.ids i i op hop op' hop'

variable {i : ι} {op : Op}

theorem Causal.mem_own (hc : Causal computeId rid s) {j : ι}
    (hop : op ∈ (s i).doc.history) (hj : op.replica = rid j) :
    op ∈ ofReplica (rid j) (s j).doc.history :=
  (hc.emitted i j).subset (mem_ofReplica.2 ⟨hop, hj⟩)

theorem causal_init (docId : DocumentId) : Causal computeId rid (Replicas.init docId rid) := by
  refine ⟨fun i => rfl, ?_, ?_, fun i j => List.prefix_refl _,
    fun j => .nil, ?_, ?_, fun i => .nil⟩
  · intro i op hop
    cases hop
  · intro i op hop
    cases hop
  · intro j op hop
    cases hop
  · intro i j op hop
    cases hop

/-- One log grows at its end and the invariant survives, if what is
added is genuine and new, extends the emission order of its own replica
in timestamp order, and repeats that of the others. -/
theorem Causal.grow (hc : Causal computeId rid s) {s' : Replicas ι} {k : ι}
    (added : List Op) (hother : ∀ j, j ≠ k → s' j = s j)
    (hlog : (s' k).doc.history = (s k).doc.history ++ added)
    (hnode : (s' k).clock.node = rid k) (hlast : (s k).clock.last ≤ (s' k).clock.last)
    (hauthor : ∀ op ∈ added, ∃ j, op.replica = rid j)
    (hgenuine : ∀ op ∈ added, op.computedId computeId = op.id)
    (hids : ∀ op ∈ added, ∀ j, ∀ op' ∈ (s j).doc.history, op'.id = op.id → op' = op)
    (hids' : ∀ op ∈ added, ∀ op' ∈ added, op.id = op'.id → op = op')
    (hnodup : ((s k).doc.history ++ added).Nodup)
    (hpre : ∀ j, j ≠ k → ofReplica (rid j) ((s k).doc.history ++ added)
      <+: ofReplica (rid j) (s j).doc.history)
    (hinc : (ofReplica (rid k) ((s k).doc.history ++ added)).Pairwise
      fun a b => a.hlc < b.hlc)
    (hle : ∀ op ∈ ofReplica (rid k) added, op.hlc ≤ (s' k).clock.last) :
    Causal computeId rid s' := by
  -- an op of a log after the step: an old one of that log, or a new one
  have hmem : ∀ i, ∀ op ∈ (s' i).doc.history,
      op ∈ (s i).doc.history ∨ (i = k ∧ op ∈ added) := by
    intro i op hop
    by_cases hi : i = k
    · subst hi
      rw [hlog, List.mem_append] at hop
      rcases hop with hop | hop
      · exact Or.inl hop
      · exact Or.inr ⟨rfl, hop⟩
    · rw [hother i hi] at hop
      exact Or.inl hop
  refine ⟨?_, ?_, ?_, ?_, ?_, ?_, ?_, ?_⟩
  · intro i
    by_cases hi : i = k
    · rw [hi]
      exact hnode
    · rw [hother i hi]
      exact hc.node i
  · intro i op hop
    rcases hmem i op hop with hop | ⟨-, hop⟩
    · exact hc.author i op hop
    · exact hauthor op hop
  · intro i op hop
    rcases hmem i op hop with hop | ⟨-, hop⟩
    · exact hc.genuine i op hop
    · exact hgenuine op hop
  · intro i j
    by_cases hi : i = k
    · subst hi
      by_cases hj : j = i
      · subst hj
        exact List.prefix_refl _
      · rw [hother j hj, hlog]
        exact hpre j hj
    · rw [hother i hi]
      by_cases hj : j = k
      · subst hj
        rw [hlog, ofReplica_append]
        exact (hc.emitted i j).trans (List.prefix_append _ _)
      · rw [hother j hj]
        exact hc.emitted i j
  · intro j
    by_cases hj : j = k
    · subst hj
      rw [hlog]
      exact hinc
    · rw [hother j hj]
      exact hc.increasing j
  · intro j op hop
    by_cases hj : j = k
    · subst hj
      rw [hlog, ofReplica_append, List.mem_append] at hop
      rcases hop with hop | hop
      · exact (hc.last j op hop).trans hlast
      · exact hle op hop
    · rw [hother j hj] at hop ⊢
      exact hc.last j op hop
  · intro i j op hop op' hop' hid
    rcases hmem i op hop with hop | ⟨-, hop⟩
    · rcases hmem j op' hop' with hop' | ⟨-, hop'⟩
      · exact hc.ids i j op hop op' hop' hid
      · exact hids op' hop' i op hop hid
    · rcases hmem j op' hop' with hop' | ⟨-, hop'⟩
      · exact (hids op hop j op' hop' hid.symm).symm
      · exact hids' op hop op' hop' hid
  · intro i
    by_cases hi : i = k
    · subst hi
      rw [hlog]
      exact hnodup
    · rw [hother i hi]
      exact hc.nodup i

/-- The op of an edit is later than everything its replica has
emitted, so it is in no log yet. -/
theorem editedOp_not_mem (hc : Causal computeId rid s)
    (hsat : (s i).clock.Unsaturated) (e : Edit) (wall : Nat) (j : ι) :
    (s i).editedOp computeId e wall ∉ (s j).doc.history := by
  intro hmem
  have hown := hc.mem_own hmem (j := i) (show (s i).clock.node = rid i from hc.node i)
  exact absurd (HlcClock.lt_now hsat wall) (not_lt_of_ge (hc.last i _ hown))

variable [DecidableEq ι]

theorem causal_edit (hrid : Function.Injective rid)
    (hc : Causal computeId rid s) {e : Edit} {wall : Nat}
    (hp : Permitted computeId s (.edit i e wall)) :
    Causal computeId rid (Replicas.step computeId s (.edit i e wall)) := by
  obtain ⟨hsat, hcoll⟩ := hp
  obtain ⟨hclock, hlog⟩ := edit_cases computeId (s i) e wall
  have hself : Replicas.step computeId s (.edit i e wall) i
      = { doc := ((s i).edit computeId e wall).2.1
          clock := ((s i).edit computeId e wall).2.2 } :=
    Function.update_self ..
  have hother : ∀ j, j ≠ i → Replicas.step computeId s (.edit i e wall) j = s j :=
    fun j hj => Function.update_of_ne hj ..
  have hlater : (s i).clock.last < ((s i).clock.now wall).1 :=
    HlcClock.lt_now hsat wall
  have hnode : (Replicas.step computeId s (.edit i e wall) i).clock.node = rid i := by
    rw [hself]
    show ((s i).edit computeId e wall).2.2.node = rid i
    rw [hclock]
    exact hc.node i
  have hlast : (Replicas.step computeId s (.edit i e wall) i).clock.last
      = ((s i).clock.now wall).1 := by
    rw [hself]
    show ((s i).edit computeId e wall).2.2.last = _
    rw [hclock]
    rfl
  rcases hlog with hlog | hlog
  · -- a refused edit: the log is as it was
    refine hc.grow [] hother ?_ hnode ?_ ?_ ?_ ?_ ?_ ?_ ?_ ?_ ?_
    · rw [hself, List.append_nil]
      exact hlog
    · rw [hlast]
      exact le_of_lt hlater
    · intro op hop
      cases hop
    · intro op hop
      cases hop
    · intro op hop
      cases hop
    · intro op hop
      cases hop
    · rw [List.append_nil]
      exact hc.nodup i
    · intro j _
      rw [List.append_nil]
      exact hc.emitted i j
    · rw [List.append_nil]
      exact hc.increasing i
    · intro op hop
      cases hop
  · have hreplica : ((s i).editedOp computeId e wall).replica = rid i :=
      hc.node i
    have hown : ofReplica (rid i) [(s i).editedOp computeId e wall]
        = [(s i).editedOp computeId e wall] :=
      ofReplica_cons_self hreplica []
    refine hc.grow [(s i).editedOp computeId e wall] hother ?_ hnode ?_ ?_ ?_ ?_ ?_ ?_ ?_ ?_ ?_
    · rw [hself]
      exact hlog
    · rw [hlast]
      exact le_of_lt hlater
    · intro op hop
      rw [List.mem_singleton] at hop
      exact ⟨i, hop ▸ hreplica⟩
    · intro op hop
      rw [List.mem_singleton] at hop
      rw [hop]
      exact computedId_new ..
    · intro op hop j op' hop' hid
      rw [List.mem_singleton] at hop
      subst hop
      exact hcoll j op' hop' hid
    · intro op hop op' hop' _
      rw [List.mem_singleton] at hop hop'
      rw [hop, hop']
    · rw [List.nodup_append]
      refine ⟨hc.nodup i, List.nodup_singleton _, ?_⟩
      intro op hop op' hop' heq
      rw [List.mem_singleton] at hop'
      exact editedOp_not_mem hc hsat e wall i (hop' ▸ heq ▸ hop)
    · intro j hj
      have hne : ((s i).editedOp computeId e wall).replica ≠ rid j :=
        fun h => hj (hrid (hreplica.symm.trans h)).symm
      rw [ofReplica_append, ofReplica_cons_of_ne hne]
      show ofReplica (rid j) (s i).doc.history ++ [] <+: _
      rw [List.append_nil]
      exact hc.emitted i j
    · rw [ofReplica_append, hown, List.pairwise_append]
      refine ⟨hc.increasing i, List.pairwise_singleton _ _, ?_⟩
      intro op hop op' hop'
      rw [List.mem_singleton] at hop'
      rw [hop']
      exact lt_of_le_of_lt (hc.last i op hop) hlater
    · intro op hop
      rw [hown, List.mem_singleton] at hop
      rw [hop, hlast]
      exact le_refl _

-- ==== one exchange

/-- Two prefixes of one list: what the second has beyond the length of
the first continues the first within the list. -/
theorem prefix_catch_up {α : Type} {p q w t : List α} (hp : p <+: w)
    (hq : q <+: w) (ht : t <+: q.drop p.length) : p ++ t <+: w := by
  rcases List.prefix_or_prefix_of_prefix hp hq with hpq | hqp
  · obtain ⟨rest, rfl⟩ := hpq
    rw [List.drop_left] at ht
    exact ((List.prefix_append_right_inj p).2 ht).trans hq
  · rw [List.drop_eq_nil_of_le hqp.length_le, List.prefix_nil] at ht
    rw [ht, List.append_nil]
    exact hp

/-- Having taken all of it, the first has the second as a prefix. -/
theorem prefix_caught_up {α : Type} {p q w : List α} (hp : p <+: w)
    (hq : q <+: w) : q <+: p ++ q.drop p.length := by
  rcases List.prefix_or_prefix_of_prefix hp hq with hpq | hqp
  · obtain ⟨rest, rfl⟩ := hpq
    rw [List.drop_left]
  · exact hqp.trans (List.prefix_append _ _)

/-- The batch one synchronisation applies, in the order it does. -/
def batch (s : Replicas ι) (a b : ι) : List Op :=
  (diff (s a).doc (clockOf (s b).doc)).insertionSort hlcLe

omit [DecidableEq ι] in
/-- Of each replica, the batch is what the sender has beyond the
receiver, in emission order. -/
theorem ofReplica_batch (hc : Causal computeId rid s) (a b j : ι) :
    ofReplica (rid j) (batch s a b)
      = (ofReplica (rid j) (s a).doc.history).drop
          (ofReplica (rid j) (s b).doc.history).length := by
  have hloop := ofReplica_diffLoop (clockOf (s b).doc) (rid j) (s a).doc.history ∅
  rw [get_clockOf, show Counters.count ∅ (rid j) = 0 from rfl, Nat.sub_zero] at hloop
  have hinc : (ofReplica (rid j) (diffLoop (clockOf (s b).doc)
      (s a).doc.history ∅)).Pairwise fun x y => x.hlc < y.hlc := by
    rw [hloop]
    exact (hc.increasing j).sublist ((List.drop_sublist _ _).trans (hc.emitted a j).sublist)
  have hdiff : ofReplica (rid j) (diff (s a).doc (clockOf (s b).doc))
      = ofReplica (rid j) (diffLoop (clockOf (s b).doc) (s a).doc.history ∅) :=
    ofReplica_insertionSort hinc
  unfold batch
  rw [ofReplica_insertionSort (hdiff ▸ hinc), hdiff, hloop]

omit [DecidableEq ι] in
theorem batch_perm (s : Replicas ι) (a b : ι) :
    (batch s a b).Perm (diffLoop (clockOf (s b).doc) (s a).doc.history ∅) :=
  (List.perm_insertionSort _ _).trans (List.perm_insertionSort _ _)

omit [DecidableEq ι] in
theorem mem_of_mem_batch {a b : ι} (hop : op ∈ batch s a b) : op ∈ (s a).doc.history :=
  (diffLoop_sublist _ _ _).subset ((batch_perm s a b).mem_iff.1 hop)

omit [DecidableEq ι] in
theorem not_mem_of_mem_batch (hc : Causal computeId rid s) {a b : ι}
    (hop : op ∈ batch s a b) : op ∉ (s b).doc.history := by
  intro hb
  obtain ⟨j, hj⟩ := hc.author a op (mem_of_mem_batch hop)
  have hdrop : op ∈ ofReplica (rid j) (batch s a b) :=
    mem_ofReplica.2 ⟨hop, hj⟩
  have hmine : op ∈ ofReplica (rid j) (s b).doc.history :=
    mem_ofReplica.2 ⟨hb, hj⟩
  rw [ofReplica_batch hc] at hdrop
  rcases List.prefix_or_prefix_of_prefix (hc.emitted b j) (hc.emitted a j) with hba | hab
  · -- the receiver's part and the rest of the sender's are disjoint
    have hnd : (ofReplica (rid j) (s a).doc.history).Nodup :=
      (hc.nodup a).filter _
    obtain ⟨rest, hrest⟩ := hba
    rw [← hrest, List.drop_left] at hdrop
    rw [← hrest, List.nodup_append] at hnd
    exact hnd.2.2 op hmine op hdrop rfl
  · rw [List.drop_eq_nil_of_le hab.length_le] at hdrop
    cases hdrop

omit [DecidableEq ι] in
/-- A synchronisation logs a prefix of the batch, and all of it where it
succeeds. -/
theorem pull_history (hc : Causal computeId rid s) (a b : ι) :
    ∃ k, ((s b).pull computeId (s a)).2.history = (s b).doc.history ++ (batch s a b).take k
      ∧ ∀ m, ((s b).pull computeId (s a)).1 = .ok m → (batch s a b).take k = batch s a b := by
  refine applyLoop_history (batch s a b) 0 (s b).doc ?_ ?_ ?_
  · intro op hop
    exact hc.genuine a op (mem_of_mem_batch hop)
  · intro op hop h hh hid
    have heq := hc.ids b a h hh op (mem_of_mem_batch hop) hid
    exact not_mem_of_mem_batch hc hop (heq ▸ hh)
  · have hnd : (batch s a b).Nodup :=
      (batch_perm s a b).nodup_iff.2 ((hc.nodup a).sublist (diffLoop_sublist _ _ _))
    refine hnd.map_on ?_
    intro op hop op' hop' hid
    exact hc.ids a a op (mem_of_mem_batch hop) op' (mem_of_mem_batch hop') hid

theorem causal_sync (hc : Causal computeId rid s) (a b : ι) :
    Causal computeId rid (Replicas.step computeId s (.sync a b)) := by
  obtain ⟨k, hlog, -⟩ := pull_history hc a b
  have hself : Replicas.step computeId s (.sync a b) b
      = { s b with doc := ((s b).pull computeId (s a)).2 } :=
    Function.update_self ..
  have hmem : ∀ op ∈ (batch s a b).take k, op ∈ batch s a b :=
    fun op hop => List.mem_of_mem_take hop
  have hpart : ∀ j, ofReplica (rid j) ((batch s a b).take k)
      <+: (ofReplica (rid j) (s a).doc.history).drop
          (ofReplica (rid j) (s b).doc.history).length := by
    intro j
    rw [← ofReplica_batch hc a b j]
    exact ofReplica_prefix (List.take_prefix _ _)
  -- nobody has more of the receiver's own ops than the receiver
  have hown : ofReplica (rid b) ((batch s a b).take k) = [] := by
    have h := hpart b
    rw [List.drop_eq_nil_of_le (hc.emitted a b).length_le] at h
    exact List.prefix_nil.1 h
  refine hc.grow ((batch s a b).take k)
    (fun j hj => Function.update_of_ne hj ..) ?_ ?_ ?_ ?_ ?_ ?_ ?_ ?_ ?_ ?_ ?_
  · rw [hself]
    exact hlog
  · rw [hself]
    exact hc.node b
  · rw [hself]
  · intro op hop
    exact hc.author a op (mem_of_mem_batch (hmem op hop))
  · intro op hop
    exact hc.genuine a op (mem_of_mem_batch (hmem op hop))
  · intro op hop j op' hop' hid
    exact hc.ids j a op' hop' op (mem_of_mem_batch (hmem op hop)) hid
  · intro op hop op' hop' hid
    exact hc.ids a a op (mem_of_mem_batch (hmem op hop)) op'
      (mem_of_mem_batch (hmem op' hop')) hid
  · rw [List.nodup_append]
    have hnd : (batch s a b).Nodup :=
      (batch_perm s a b).nodup_iff.2 ((hc.nodup a).sublist (diffLoop_sublist _ _ _))
    refine ⟨hc.nodup b, hnd.sublist (List.take_sublist _ _), ?_⟩
    intro op hop op' hop' heq
    exact not_mem_of_mem_batch hc (hmem op' hop') (heq ▸ hop)
  · intro j _
    rw [ofReplica_append]
    exact prefix_catch_up (hc.emitted b j) (hc.emitted a j) (hpart j)
  · rw [ofReplica_append, hown, List.append_nil]
    exact hc.increasing b
  · intro op hop
    rw [hown] at hop
    cases hop

-- ==== whole runs

theorem causal_step (hrid : Function.Injective rid) :
    ∀ (s : Replicas ι) (act : Action ι), Causal computeId rid s →
      Permitted computeId s act →
      Causal computeId rid (Replicas.step computeId s act) := by
  intro s act hc hp
  cases act with
  | edit i e wall => exact causal_edit hrid hc hp
  | sync a b => exact causal_sync hc a b

omit [DecidableEq ι] in
/-- After a complete exchange the sender has nothing more to send. -/
theorem diff_eq_nil {d d' : CrdtDocument}
    (h : ∀ r, (ofReplica r d.history).length
      ≤ (ofReplica r d'.history).length) : diff d (clockOf d') = [] := by
  have hloop : diffLoop (clockOf d') d.history ∅ = [] := by
    refine List.eq_nil_iff_forall_not_mem.2 ?_
    intro op hop
    have hmine : op ∈ ofReplica op.replica
        (diffLoop (clockOf d') d.history ∅) := mem_ofReplica.2 ⟨hop, rfl⟩
    rw [ofReplica_diffLoop, get_clockOf,
      show Counters.count ∅ op.replica = 0 from rfl, Nat.sub_zero,
      List.drop_eq_nil_of_le (h op.replica)] at hmine
    cases hmine
  unfold diff
  rw [hloop]
  rfl

/-- **Anti-entropy loses nothing.** After any run of replicas with
distinct ids that start empty, edit through the helpers with unsaturated
clocks and colliding digests nowhere, and synchronise in any topology:
a synchronisation that succeeds leaves the receiver with every op of the
sender, no op id twice, and the sender with nothing left to send. -/
theorem anti_entropy (computeId : Op → OpId) (docId : DocumentId)
    (rid : ι → ReplicaId) (hrid : Function.Injective rid) (acts : List (Action ι))
    (hrun : Along (Replicas.step computeId) (Permitted computeId)
      (Replicas.init docId rid) acts) (a b : ι) (m : Nat)
    (hok : ((run (Replicas.step computeId) (Replicas.init docId rid) acts b
      ).pull computeId
        (run (Replicas.step computeId) (Replicas.init docId rid) acts a)).1
        = .ok m) :
    let s := run (Replicas.step computeId) (Replicas.init docId rid) acts
    let s' := Replicas.step computeId s (.sync a b)
    (∀ op ∈ (s a).doc.history, op ∈ (s' b).doc.history)
    ∧ ((s' b).doc.history.map Op.id).Nodup
    ∧ diff (s' a).doc (clockOf (s' b).doc) = [] := by
  intro s s'
  have hc : Causal computeId rid s :=
    run_invariant (causal_step hrid) (causal_init docId) hrun
  have hc' : Causal computeId rid s' := causal_sync hc a b
  obtain ⟨k, hlog, hall⟩ := pull_history hc a b
  have hb : (s' b).doc.history = (s b).doc.history ++ batch s a b := by
    have hself : s' b = { s b with doc := ((s b).pull computeId (s a)).2 } :=
      Function.update_self ..
    rw [hself, ← hall m hok]
    exact hlog
  have hpre : ∀ j, ofReplica (rid j) (s a).doc.history
      <+: ofReplica (rid j) (s' b).doc.history := by
    intro j
    rw [hb, ofReplica_append, ofReplica_batch hc]
    exact prefix_caught_up (hc.emitted b j) (hc.emitted a j)
  have hmem : ∀ op ∈ (s a).doc.history, op ∈ (s' b).doc.history := by
    intro op hop
    obtain ⟨j, hj⟩ := hc.author a op hop
    exact (mem_ofReplica.1 ((hpre j).subset (mem_ofReplica.2 ⟨hop, hj⟩))).1
  refine ⟨hmem, hc'.ids_nodup b, diff_eq_nil ?_⟩
  intro r
  by_cases hab : a = b
  · rw [hab]
  · have hother : s' a = s a := Function.update_of_ne hab ..
    rw [hother]
    by_cases hr : ∃ j, rid j = r
    · obtain ⟨j, rfl⟩ := hr
      exact (hpre j).length_le
    · -- an id that is no replica's has emitted nothing
      have hnil : ofReplica r (s a).doc.history = [] := by
        refine List.eq_nil_iff_forall_not_mem.2 ?_
        intro op hop
        obtain ⟨hop, hopr⟩ := mem_ofReplica.1 hop
        obtain ⟨j, hj⟩ := hc.author a op hop
        exact hr ⟨j, hj.symm.trans hopr⟩
      rw [hnil]
      exact Nat.zero_le _

def stampDigest (op : Op) : OpId :=
  ⟨BitVec.ofNat 256 (op.replica.raw * 1000000 + op.hlc.wall * 1000 + op.hlc.logical)⟩

def twoEdits : List (Action Bool) :=
  [.edit true (.writeAt "/a" (.int ⟨7, by decide⟩)) 10,
    .edit false (.counterAdd "/c" ⟨2, by decide⟩) 10]

def twoIds : Bool → ReplicaId
  | true => ⟨1⟩
  | false => ⟨2⟩

theorem anti_entropy_twoEdits :
    let s := run (Replicas.step stampDigest) (Replicas.init ⟨0⟩ twoIds)
      twoEdits
    let s' := Replicas.step stampDigest s (.sync true false)
    (∀ op ∈ (s true).doc.history, op ∈ (s' false).doc.history)
    ∧ ((s' false).doc.history.map Op.id).Nodup
    ∧ diff (s' true).doc (clockOf (s' false).doc) = [] := by
  have hinj : Function.Injective twoIds := by
    intro i j h
    cases i <;> cases j <;> first | rfl | cases h
  have hempty : ∀ (j : Bool) (op o : Op),
      op ∈ (Replicas.init ⟨0⟩ twoIds j).doc.history → op = o := by
    intro j op o hop
    cases hop
  refine anti_entropy stampDigest ⟨0⟩ twoIds hinj twoEdits
    ⟨⟨by decide, ?_⟩, ⟨by decide, ?_⟩, trivial⟩ true false 1 (by decide)
  · intro j op hop _
    exact hempty j op _ hop
  · decide

end

end OpenStandards.Crdt

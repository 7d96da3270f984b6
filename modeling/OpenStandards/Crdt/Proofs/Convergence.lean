/-
Convergence of documents.

For a harmonious set every order succeeds on every op and ends with the
same tree as far as a reader can see: each cell is run by the ops that
touch it (`cellRun`), the tree refines its cells (`applyLoop_refines`), and
the outcome of a cell is a function of the set (`cellRun_converges`).
`remove_before_add` is the smallest case outside: a removal that arrives
before the addition it is concurrent with removes nothing.
-/
import OpenStandards.Crdt.Proofs.AntiEntropy
import OpenStandards.Crdt.Proofs.Harmony

namespace OpenStandards.Crdt

open Lib

-- ==== one cell, two orders

variable {ops ops' : List Op} {p : Path}

theorem leafOps_perm (hp : ops.Perm ops') (p : Path) :
    (leafOps (ops.filter fun o => o.slot = p)).Perm
      (leafOps (ops'.filter fun o => o.slot = p)) :=
  (hp.filter _).filter _

theorem mem_leafOps {o : Op} :
    o ∈ leafOps (ops.filter fun o => o.slot = p)
      ↔ o ∈ ops ∧ o.slot = p ∧ o.op.leafKind.isSome := by
  unfold leafOps
  rw [List.mem_filter, List.mem_filter, decide_eq_true_eq, and_assoc]

/-- Lists and texts of a harmonious slot hold the same nodes in the same
order. -/
theorem seq_converges {T : Type} {nodeOf : Op → Option (RgaNode T)}
    {deletedOf : Op → Option RgaPos} (hp : ops.Perm ops')
    (hid : Identified ((ops.filter fun o => o.slot = p).filterMap nodeOf))
    (hdel : ∀ o ∈ ops, ∀ o' ∈ ops, o.slot = o'.slot → ∀ n pos,
      nodeOf o = some n → deletedOf o' = some pos → n.pos ≠ pos) :
    ((leafOps (ops.filter fun o => o.slot = p)).foldl (seqStep nodeOf deletedOf) .new).nodes
      = ((leafOps (ops'.filter fun o => o.slot = p)).foldl
        (seqStep nodeOf deletedOf) .new).nodes := by
  have hsub : ∀ n ∈ (leafOps (ops.filter fun o => o.slot = p)).filterMap
      nodeOf, n ∈ (ops.filter fun o => o.slot = p).filterMap nodeOf := by
    intro n hn
    obtain ⟨o, ho, hno⟩ := List.mem_filterMap.1 hn
    exact List.mem_filterMap.2 ⟨o, (List.mem_filter.1 ho).1, hno⟩
  refine seq_perm (leafOps_perm hp p) ?_ ?_
  · intro a ha b hb
    exact hid a (hsub a ha) b (hsub b hb)
  · intro n hn pos hpos
    obtain ⟨o, ho, hno⟩ := List.mem_filterMap.1 hn
    obtain ⟨o', ho', hdo⟩ := List.mem_filterMap.1 hpos
    obtain ⟨hoo, hos, -⟩ := mem_leafOps.1 ho
    obtain ⟨hoo', hos', -⟩ := mem_leafOps.1 ho'
    exact hdel o hoo o' hoo' (hos.trans hos'.symm) n pos hno hdo

theorem foldLeaf_converges (h : Harmonious ops) (hp : ops.Perm ops')
    {k : LeafKind} (hk : k ≠ .register)
    (hkind : ∀ o ∈ leafOps (ops.filter fun o => o.slot = p), o.op.leafKind = some k) :
    (foldLeaf k.seed (leafOps (ops.filter fun o => o.slot = p))).observe
      = (foldLeaf k.seed (leafOps (ops'.filter fun o => o.slot = p))).observe := by
  have hperm := leafOps_perm hp p
  have hkind' : ∀ o ∈ leafOps (ops'.filter fun o => o.slot = p),
      o.op.leafKind = some k := fun o ho => hkind o (hperm.mem_iff.2 ho)
  have hslot : ∀ o ∈ leafOps (ops.filter fun o => o.slot = p),
      o ∈ ops ∧ o.slot = p := fun o ho =>
    ⟨(mem_leafOps.1 ho).1, (mem_leafOps.1 ho).2.1⟩
  cases k with
  | register => exact absurd rfl hk
  | counter =>
    show (foldLeaf (.counter .new) _).observe = (foldLeaf (.counter .new) _).observe
    rw [foldLeaf_counter hkind, foldLeaf_counter hkind']
    exact congrArg Observation.counter (counter_perm hperm)
  | set =>
    show (foldLeaf (.set .new) _).observe = (foldLeaf (.set .new) _).observe
    rw [foldLeaf_set hkind, foldLeaf_set hkind']
    refine congrArg Observation.set (Set.ext ?_)
    intro v
    refine set_perm hperm ?_ v
    intro o ho o' ho'
    exact h.sets o (hslot o ho).1 o' (hslot o' ho').1
      ((hslot o ho).2.trans (hslot o' ho').2.symm)
  | list =>
    show (foldLeaf (.list .new) _).observe = (foldLeaf (.list .new) _).observe
    rw [foldLeaf_list hkind, foldLeaf_list hkind']
    show Observation.list (RgaList.toVec _ |>.map elementValue)
      = Observation.list (RgaList.toVec _ |>.map elementValue)
    unfold RgaList.toVec
    rw [seq_converges hp (h.lists p) h.listDeletes]
  | text =>
    show (foldLeaf (.text .new) _).observe = (foldLeaf (.text .new) _).observe
    rw [foldLeaf_text hkind, foldLeaf_text hkind']
    show Observation.text (RgaList.toVec _) = Observation.text (RgaList.toVec _)
    unfold RgaList.toVec
    rw [seq_converges hp (h.texts p) h.textDeletes]

theorem cellRun_untouched (hno : ∀ o ∈ ops, role o.slot p ≠ .through)
    (hat : ∀ o ∈ ops, o.slot ≠ p) : cellRun p ops = some .empty := by
  obtain ⟨c, hc, rfl⟩ := cellRun_at hno (P := fun _ c => c = .empty) rfl
    (fun _ a _ _ ha hs => absurd hs (hat a ha))
  exact hc

/-- **A cell ends alike in every order.** -/
theorem cellRun_converges (h : Harmonious ops) (hp : ops.Perm ops') (p : Path) :
    ∃ c c', cellRun p ops = some c ∧ cellRun p ops' = some c' ∧ c.observe = c'.observe := by
  have h' := h.perm hp
  have hmem : ∀ o, o ∈ ops ↔ o ∈ ops' := fun o => hp.mem_iff
  by_cases hthrough : ∃ o ∈ ops, role o.slot p = .through
  · obtain ⟨c, hc, hobs⟩ := cellRun_through h hthrough
    obtain ⟨o, ho, hr⟩ := hthrough
    obtain ⟨c', hc', hobs'⟩ := cellRun_through h' ⟨o, (hmem o).1 ho, hr⟩
    exact ⟨c, c', hc, hc', hobs.trans hobs'.symm⟩
  · have hno : ∀ o ∈ ops, role o.slot p ≠ .through := fun o ho hr =>
      hthrough ⟨o, ho, hr⟩
    have hno' : ∀ o ∈ ops', role o.slot p ≠ .through := fun o ho =>
      hno o ((hmem o).2 ho)
    by_cases hleaf : ∃ o ∈ ops, o.slot = p ∧ ∃ k, o.op.leafKind = some k ∧ k ≠ .register
    · -- a counter, a set, a list or a text
      obtain ⟨o, ho, hs, k, hko, hk⟩ := hleaf
      obtain ⟨c, hc, hobs⟩ := cellRun_leaf h hno hk ho hs hko
      obtain ⟨c', hc', hobs'⟩ :=
        cellRun_leaf h' hno' hk ((hmem o).1 ho) hs hko
      refine ⟨c, c', hc, hc', ?_⟩
      rw [hobs, hobs', foldLeaf_converges h hp hk]
      intro o' ho'
      obtain ⟨hoo', hs', hsome⟩ := mem_leafOps.1 ho'
      obtain ⟨k', hk'⟩ := Option.isSome_iff_exists.1 hsome
      rw [hk', h.leaves o' hoo' o ho (hs'.trans hs.symm) k' k hk' hko]
    · have hreg : ∀ o ∈ ops, o.slot = p → ∀ k, o.op.leafKind = some k → k = .register := by
        intro o ho hs k hk
        exact Classical.byContradiction fun hne =>
          hleaf ⟨o, ho, hs, k, hk, hne⟩
      by_cases hnone : ∀ o ∈ ops, o.slot ≠ p
      · exact ⟨_, _, cellRun_untouched hno hnone,
          cellRun_untouched hno' fun o ho => hnone o ((hmem o).2 ho), rfl⟩
      · -- a register: the newest op decides
        push Not at hnone
        obtain ⟨o, ho, hs⟩ := hnone
        have hin : o ∈ ops.filter fun o => o.slot = p :=
          List.mem_filter.2 ⟨ho, decide_eq_true hs⟩
        obtain ⟨x, hx, hmax⟩ := exists_newest (List.ne_nil_of_mem hin)
        rw [List.mem_filter, decide_eq_true_eq] at hx
        have hmax' : ∀ y ∈ ops, y.slot = p → y.stamp ≤ x.stamp :=
          fun y hy hys =>
            hmax y (List.mem_filter.2 ⟨hy, decide_eq_true hys⟩)
        obtain ⟨c, hc, hobs⟩ := cellRun_register h hno (h.registerSlot hreg) hx.1 hx.2 hmax'
        obtain ⟨c', hc', hobs'⟩ := cellRun_register h' hno'
          (h'.registerSlot fun o ho => hreg o ((hmem o).2 ho))
          ((hmem x).1 hx.1) hx.2 fun y hy => hmax' y ((hmem y).2 hy)
        exact ⟨c, c', hc, hc', hobs.trans hobs'.symm⟩

-- ==== whole runs

section

variable {computeId : Op → OpId}

/-- A genuine new op that the tree takes is logged. -/
theorem applyOp_of_applyRecursive {d : CrdtDocument} {o : Op}
    (hver : o.computedId computeId = o.id) (hnew : ∀ h ∈ d.history, h.id ≠ o.id) {root : CrdtNode}
    (hrec : applyRecursive o o.targetPath d.root = (.ok (), root)) :
    ∃ d', d.applyOp computeId o = (.ok true, d') ∧ d'.root = root
      ∧ d'.history = d.history ++ [o] := by
  have hv : o.verifyId computeId = .ok () :=
    refuse_eq_ok.2 fun hne => hne hver
  have hany : ¬ (d.history.any fun h => h.id = o.id) = true := by
    rw [List.any_eq_true]
    intro ⟨h, hmem, hid⟩
    exact hnew h hmem (of_decide_eq_true hid)
  refine ⟨{ d with
    root
    history := d.history ++ [o]
    clock := if d.clock < o.hlc then o.hlc else d.clock }, ?_, rfl, rfl⟩
  unfold CrdtDocument.applyOp
  rw [hv]
  simp only [if_neg hany]
  unfold CrdtDocument.applyOpInternal
  rw [hrec]

/-- Where every cell runs to its end, the document takes every op and
its cells are where their runs ended. -/
theorem applyLoop_refines :
    ∀ (ops : List Op) (n : Nat) (d : CrdtDocument)
      (m : LwwMap String CrdtNode),
      d.root = .map m →
      (∀ o ∈ ops, o.computedId computeId = o.id) →
      (∀ o ∈ ops, o.slot ≠ []) →
      ((d.history ++ ops).map Op.id).Nodup →
      (∀ p, p ≠ [] → (ops.foldlM (fun c o => Cell.step o o.slot p c)
        (cellOf (.map m) p)).isSome) →
      ∃ d' m', applyLoop computeId ops n d = (.ok (n + ops.length), d')
        ∧ d'.root = .map m'
        ∧ ∀ p, p ≠ [] → ops.foldlM (fun c o => Cell.step o o.slot p c)
            (cellOf (.map m) p) = some (cellOf (.map m') p) := by
  intro ops
  induction ops with
  | nil =>
    intro n d m hroot _ _ _ _
    exact ⟨d, m, rfl, hroot, fun p _ => rfl⟩
  | cons o ops ih =>
    intro n d m hroot hver hslot hids hsome
    have hstep : ∀ p, p ≠ [] → (Cell.step o o.slot p (cellOf (.map m) p)).isSome := by
      intro p hp
      have h := hsome p hp
      rw [List.foldlM_cons] at h
      exact Option.isSome_of_isSome_bind h
    obtain ⟨m₁, hrec, hcells⟩ := applyRecursive_refines o o.targetPath m
      (hslot o List.mem_cons_self) hstep
    rw [← hroot] at hrec
    obtain ⟨d₁, happly, hroot₁, hhist⟩ :=
      applyOp_of_applyRecursive (hver o List.mem_cons_self) (by
        intro h hh heq
        rw [List.map_append, List.nodup_append] at hids
        exact hids.2.2 h.id (List.mem_map_of_mem hh) o.id
          (List.mem_map_of_mem List.mem_cons_self) heq) hrec
    have hcons : ∀ p, p ≠ [] → (o :: ops).foldlM
        (fun c o => Cell.step o o.slot p c) (cellOf (.map m) p)
        = ops.foldlM (fun c o => Cell.step o o.slot p c) (cellOf (.map m₁) p) := by
      intro p hp
      rw [List.foldlM_cons, show Cell.step o o.slot p (cellOf (.map m) p)
        = some (cellOf (.map m₁) p) from hcells p hp]
      rfl
    obtain ⟨d', m', hloop, hroot', hrun⟩ := ih (n + 1) d₁ m₁ hroot₁
      (fun o' ho' => hver o' (List.mem_cons_of_mem _ ho'))
      (fun o' ho' => hslot o' (List.mem_cons_of_mem _ ho'))
      (by rw [hhist, List.append_assoc]; exact hids)
      (by
        intro p hp
        rw [← hcons p hp]
        exact hsome p hp)
    refine ⟨d', m', ?_, hroot', ?_⟩
    · unfold applyLoop
      rw [happly]
      show applyLoop computeId ops (n + 1) d₁ = _
      rw [hloop, List.length_cons, Nat.add_assoc, Nat.add_comm 1]
    · intro p hp
      rw [hcons p hp]
      exact hrun p hp

end

/-- What a reader sees at a path. -/
def CrdtDocument.observe (d : CrdtDocument) (path : Path) : Option Observation :=
  (d.getNode path).map CrdtNode.observe

theorem observe_eq_cell {d : CrdtDocument} {path : Path} (h : path ≠ []) :
    d.observe path = (cellOf d.root path).observe := by
  unfold CrdtDocument.observe CrdtDocument.getNode Cell.observe
  have hshape := congrArg (Option.map Shape.observe) (traverse_shape h d.root)
  rw [Option.map_map, Option.map_map] at hshape
  rw [show CrdtNode.observe = Shape.observe ∘ CrdtNode.shape from
    funext fun n => (observe_shape n).symm, hshape]
  rfl

/-- Two replicas that apply the ops one by one, each in an order of its
own, succeed on every op and show the same tree. -/
def Converges (computeId : Op → OpId) (docId : DocumentId) (ops : List Op) : Prop :=
  ∀ r r' : ReplicaId, ∀ order order' : List Op, order.Perm ops →
    order'.Perm ops →
    ∃ d d', applyLoop computeId order 0 (.new docId r) = (.ok ops.length, d)
      ∧ applyLoop computeId order' 0 (.new docId r') = (.ok ops.length, d')
      ∧ ∀ path, d.observe path = d'.observe path

theorem applyLoop_harmonious {computeId : Op → OpId} (h : Harmonious ops)
    (hver : ∀ o ∈ ops, o.computedId computeId = o.id)
    (hids : (ops.map Op.id).Nodup) (docId : DocumentId) (r : ReplicaId) :
    ∃ d m, applyLoop computeId ops 0 (.new docId r) = (.ok ops.length, d)
      ∧ d.root = .map m
      ∧ ∀ p, p ≠ [] → cellRun p ops = some (cellOf (.map m) p) := by
  obtain ⟨d, m, hloop, hroot, hrun⟩ := applyLoop_refines ops 0
    (.new docId r) .new rfl hver h.rooted hids (by
      intro p _
      obtain ⟨c, -, hc, -⟩ := cellRun_converges h (List.Perm.refl ops) p
      rw [cellOf_new, show ops.foldlM (fun c o => Cell.step o o.slot p c)
        .empty = some c from hc]
      rfl)
  refine ⟨d, m, by rw [hloop, Nat.zero_add], hroot, ?_⟩
  intro p hp
  have hp' := hrun p hp
  rw [cellOf_new] at hp'
  exact hp'

/-- **Convergence.** Replicas that apply a harmonious set of genuine,
distinct ops agree, whatever their orders. -/
theorem convergence (computeId : Op → OpId) (docId : DocumentId)
    (ops : List Op) (hver : ∀ o ∈ ops, o.computedId computeId = o.id)
    (hids : (ops.map Op.id).Nodup) (h : Harmonious ops) :
    Converges computeId docId ops := by
  intro r r' order order' hp hp'
  have horder : ∀ order : List Op, order.Perm ops → ∀ r, ∃ d m,
      applyLoop computeId order 0 (.new docId r) = (.ok ops.length, d)
      ∧ d.root = .map m
      ∧ ∀ p, p ≠ [] → cellRun p order = some (cellOf (.map m) p) := by
    intro order hp r
    have hnd : (order.map Op.id).Nodup := (hp.map Op.id).nodup_iff.2 hids
    rw [← hp.length_eq]
    exact applyLoop_harmonious (h.perm hp.symm)
      (fun o ho => hver o (hp.mem_iff.1 ho)) hnd docId r
  obtain ⟨d, m, hloop, hroot, hcells⟩ := horder order hp r
  obtain ⟨d', m', hloop', hroot', hcells'⟩ := horder order' hp' r'
  refine ⟨d, d', hloop, hloop', ?_⟩
  intro path
  by_cases hpath : path = []
  · rw [hpath]
    show some d.root.observe = some d'.root.observe
    rw [hroot, hroot']
    rfl
  · -- below the root the reader sees cells
    obtain ⟨c, c', hc, hc', hobs⟩ := cellRun_converges (h.perm hp.symm) (hp.trans hp'.symm) path
    rw [hcells path hpath] at hc
    rw [hcells' path hpath] at hc'
    cases hc
    cases hc'
    rw [observe_eq_cell hpath, observe_eq_cell hpath, hroot, hroot']
    exact hobs

def addedMember : Op :=
  let hlc := ((HlcClock.new ⟨1⟩).now 10).1
  Op.new stampDigest ⟨0⟩ ["s"] (.setAdd (.text "x") { hlc, replica := ⟨1⟩, nonce := 0 }) hlc ⟨1⟩

def otherMember : Op :=
  let hlc := ((HlcClock.new ⟨2⟩).now 10).1
  Op.new stampDigest ⟨0⟩ ["s"] (.setAdd (.text "y") { hlc, replica := ⟨2⟩, nonce := 0 }) hlc ⟨2⟩

def removedMember : Op :=
  let hlc := ((HlcClock.new ⟨2⟩).now 10).1
  Op.new stampDigest ⟨0⟩ ["s"] (.setRemove (.text "x")) hlc ⟨2⟩

theorem convergence_twoMembers : Converges stampDigest ⟨0⟩ [addedMember, otherMember] := by
  have hplain : ∀ o ∈ [addedMember, otherMember],
      o.op.leafKind = some .set ∧ o.op.mapValue = none
        ∧ ¬ o.op.isDelete ∧ o.op.registerValue = none
        ∧ listNode o = none ∧ textNode o = none := by
    decide
  have hnone : ∀ {α : Type} {x : Option α}, x = none → ¬ x.isSome := by
    intro α x hx hsome
    rw [hx] at hsome
    cases hsome
  have hcompetes : ∀ o ∈ [addedMember, otherMember], ¬ o.op.competes := by
    intro o ho hc
    obtain ⟨-, hm, hd, hr, -⟩ := hplain o ho
    exact hc.elim hd fun hc => hc.elim (hnone hm) (hnone hr)
  refine convergence stampDigest ⟨0⟩ _ (by decide) (by decide)
    ⟨by decide, by decide, ?_, ?_, ?_, ?_, ?_, ?_, ?_, ?_, ?_, ?_⟩
  · intro o ho o' ho' _ k k' hk hk'
    rw [(hplain o ho).1] at hk
    rw [(hplain o' ho').1] at hk'
    exact Option.some.inj (hk.symm.trans hk')
  · exact fun o ho _ _ _ hm => absurd hm (hnone (hplain o ho).2.1)
  · exact fun o ho _ _ _ hd => absurd hd (hplain o ho).2.2.1
  · exact fun o ho _ _ _ hc => absurd hc (hcompetes o ho)
  · exact fun o ho _ _ _ hm => absurd hm (hnone (hplain o ho).2.1)
  · intro o _ o' ho' _ v t _ hr
    simp only [List.mem_cons, List.not_mem_nil, or_false] at ho'
    rcases ho' with rfl | rfl <;> cases hr
  · intro p n hn
    obtain ⟨o, ho, hno⟩ := List.mem_filterMap.1 hn
    rw [(hplain o (List.mem_filter.1 ho).1).2.2.2.2.1] at hno
    cases hno
  · intro o ho _ _ _ n _ hn
    rw [(hplain o ho).2.2.2.2.1] at hn
    cases hn
  · intro p n hn
    obtain ⟨o, ho, hno⟩ := List.mem_filterMap.1 hn
    rw [(hplain o (List.mem_filter.1 ho).1).2.2.2.2.2] at hno
    cases hno
  · intro o ho _ _ _ n _ hn
    rw [(hplain o ho).2.2.2.2.2] at hn
    cases hn

/-- An addition and a removal of one member: the replica that applies
the removal first keeps the member. -/
theorem remove_before_add :
    ((CrdtDocument.new ⟨0⟩ ⟨1⟩).setAdd stampDigest "/s" (.text "x") 0
        (.new ⟨1⟩) 10).1 = .ok addedMember
    ∧ ¬ Converges stampDigest ⟨0⟩ [addedMember, removedMember] := by
  refine ⟨by decide, ?_⟩
  intro h
  obtain ⟨d, d', hd, hd', hobs⟩ := h ⟨1⟩ ⟨2⟩ [addedMember, removedMember]
    [removedMember, addedMember] (.refl _) (.swap _ _ _)
  have hsets := hobs ["s"]
  rw [← show _ = d from congrArg Prod.snd hd, ← show _ = d' from congrArg Prod.snd hd'] at hsets
  have hmem := Set.ext_iff.1 (Observation.set.inj (Option.some.inj hsets)) (.text "x")
  exact absurd (hmem.2 (by show OrSet.contains _ _; decide))
    (by show ¬ OrSet.contains _ _; decide)

end OpenStandards.Crdt

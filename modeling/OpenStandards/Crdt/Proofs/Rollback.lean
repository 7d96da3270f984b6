/-
What an operation that fails leaves behind.

On the way down the recursion creates what is missing and takes out the
entry it descends into. Nothing rolls that back, and nothing has to. Below a
map that was just created the node at the end of the path is seeded to fit
the operation, so a recursion that has created anything goes through
(`applyRecursive_created`). A failure is met on a path that was there
before, and every level puts back the entry it took out
(`applyRecursive_error`); the induction is on the path.

Tables have no order, so a tree is compared by what every path finds in it.
-/
import OpenStandards.Crdt.Proofs.Cells

namespace OpenStandards.Crdt

open Lib

/-- The same tree: the same node here, and the same entries, stamps and
tombstones under every path. -/
def SameTree (n n' : CrdtNode) : Prop :=
  n'.shape = n.shape ∧ ∀ path, cellOf n' path = cellOf n path

theorem SameTree.refl (n : CrdtNode) : SameTree n n := ⟨rfl, fun _ => rfl⟩

-- ==== created on the way

theorem applyTerminal_seed (op : Op) :
    (applyTerminal (seedTerminalNode op.op op.stamp) op).1 = .ok () := by
  unfold seedTerminalNode
  cases hop : op.op with
  | mapSet key value => simp [applyTerminal, mapEdit, hop]
  | mapDelete key => simp [applyTerminal, mapEdit, hop]
  | registerSet value => simp [applyTerminal, hop]
  | counterAdd delta => simp [applyTerminal, hop]
  | setAdd value tag => simp [applyTerminal, hop]
  | setRemove value => simp [applyTerminal, hop]
  | listInsert parent value pos => simp [applyTerminal, hop]
  | listDelete pos => simp [applyTerminal, hop]
  | textInsert parent ch pos => simp [applyTerminal, hop]
  | textDelete pos => simp [applyTerminal, hop]

/-- The child that a missing key gets. -/
def created (op : Op) (tail : Path) : CrdtNode :=
  if tail = [] then seedTerminalNode op.op op.stamp else .map .new

/-- Below what was created an operation goes through. -/
theorem applyRecursive_created (op : Op) (path : Path) :
    (applyRecursive op path (created op path)).1 = .ok () := by
  induction path with
  | nil =>
    unfold created
    rw [if_pos rfl]
    exact applyTerminal_seed op
  | cons head tail ih =>
    have hnode : created op (head :: tail) = .map .new :=
      if_neg (List.cons_ne_nil _ _)
    have hchild : Assoc.get
        (ensureChild (.new : LwwMap String CrdtNode) head tail op).entries
          head = some (created op tail, op.stamp) := by
      unfold ensureChild LwwMap.get
      show Assoc.get (LwwMap.set .new head _ op.stamp).entries head = _
      rw [LwwMap.entries_set_self, if_neg]
      · rfl
      · intro h
        obtain ⟨t, ht, -⟩ := h
        cases ht
    rw [hnode, applyRecursive]
    split
    case h_1 => rfl
    case h_2 =>
      dsimp only
      rw [hchild]
      exact ih

-- ==== the failures

variable {op : Op}

/-- An operation that does not fit leaves the node as it is. -/
theorem applyTerminal_error {node : CrdtNode} {e : CrdtError}
    (h : (applyTerminal node op).1 = .error e) :
    (applyTerminal node op).2 = node := by
  revert h
  fun_cases applyTerminal node op
  all_goals
    intro h
    first
    | rfl
    | cases h

/-- A key that stays missing was buried, and nothing was written. -/
theorem ensureChild_missing {m : LwwMap String CrdtNode} {head : String}
    {tail : Path} (h : Assoc.get (ensureChild m head tail op).entries head = none) :
    ensureChild m head tail op = m := by
  unfold ensureChild at *
  by_cases hfree : (m.get head).isNone = true
  · rw [if_pos hfree] at h ⊢
    by_cases hburied : m.buried head op.stamp
    · unfold LwwMap.set
      rw [if_pos hburied]
    · rw [LwwMap.entries_set_self, if_neg hburied] at h
      split at h
      · split at h
        · cases h
        · cases h
      · cases h
  · rw [if_neg hfree]

theorem sameTree_put {m : LwwMap String CrdtNode} {head : String}
    {child child' : CrdtNode} {st : Stamp}
    (hchild : Assoc.get m.entries head = some (child, st)) (hsame : SameTree child child') :
    SameTree (.map m) (.map { m with entries := Assoc.set m.entries head (child', st) }) := by
  refine ⟨rfl, fun path => ?_⟩
  cases path with
  | nil => rfl
  | cons k path =>
    by_cases hk : k = head
    · subst hk
      cases path with
      | nil =>
        show LwwMap.cell _ k = m.cell k
        unfold LwwMap.cell
        dsimp only
        rw [Assoc.get_set_self, hchild, Option.map_some, Option.map_some, hsame.1]
      | cons k' path =>
        rw [cellOf_child (Assoc.get_set_self ..) (List.cons_ne_nil _ _),
          cellOf_child hchild (List.cons_ne_nil _ _), hsame.2]
    · apply cellOf_congr
      · exact Assoc.get_set_of_ne _ _ hk
      · rfl

theorem applyRecursive_error {path : Path} {node : CrdtNode} {e : CrdtError}
    (h : (applyRecursive op path node).1 = .error e) :
    SameTree node (applyRecursive op path node).2 := by
  induction path generalizing node with
  | nil =>
    have hnode : (applyRecursive op [] node).2 = node :=
      applyTerminal_error h
    rw [hnode]
    exact .refl node
  | cons head tail ih =>
    cases node with
    | map m =>
      rw [applyRecursive] at h ⊢
      split
      case h_1 hedit =>
        rw [hedit] at h
        cases h
      case h_2 hedit =>
        rw [hedit] at h
        dsimp only at h ⊢
        cases hget : Assoc.get (ensureChild m head tail op).entries head with
        | none =>
          dsimp only
          rw [ensureChild_missing hget]
          exact .refl _
        | some entry =>
          obtain ⟨child, st⟩ := entry
          rw [hget] at h
          dsimp only at h ⊢
          -- what was created would have gone through
          have hthere : ensureChild m head tail op = m := by
            unfold ensureChild at hget ⊢
            split
            case isTrue hfree =>
              exfalso
              rw [if_pos hfree] at hget
              have hnone : Assoc.get m.entries head = none := by
                unfold LwwMap.get at hfree
                simpa using hfree
              rw [LwwMap.entries_set_self] at hget
              split at hget
              · rw [hnone] at hget
                cases hget
              · rw [hnone] at hget
                cases hget
                have hok := applyRecursive_created op tail
                unfold created at hok
                rw [hok] at h
                cases h
            case isFalse => rfl
          rw [hthere] at hget ⊢
          exact sameTree_put hget (ih h)
    | list l => exact .refl _
    | text t => exact .refl _
    | register r => exact .refl _
    | counter c => exact .refl _
    | set s => exact .refl _

-- ==== the documents

section

variable {computeId : Op → OpId} {d : CrdtDocument} {op : Op} {e : CrdtError}

/-- An operation that is refused changes nothing: not the tree, not the log
and not the clock. -/
theorem applyOp_error (h : (d.applyOp computeId op).1 = .error e) :
    SameTree d.root (d.applyOp computeId op).2.root
      ∧ (d.applyOp computeId op).2.history = d.history
      ∧ (d.applyOp computeId op).2.clock = d.clock := by
  unfold CrdtDocument.applyOp at h ⊢
  cases hver : op.verifyId computeId with
  | error e' => exact ⟨.refl _, rfl, rfl⟩
  | ok u =>
    rw [hver] at h
    dsimp only at h ⊢
    by_cases hseen : (d.history.any fun h => h.id = op.id) = true
    · rw [if_pos hseen]
      exact ⟨.refl _, rfl, rfl⟩
    · rw [if_neg hseen] at h ⊢
      unfold CrdtDocument.applyOpInternal at h ⊢
      dsimp only at h ⊢
      cases hres : (applyRecursive op op.targetPath d.root).1 with
      | error e' => exact ⟨applyRecursive_error hres, rfl, rfl⟩
      | ok u =>
        rw [hres] at h
        cases h

end

/-- A document in which `a` is a register. -/
def registered : CrdtDocument :=
  { CrdtDocument.new ⟨0⟩ ⟨1⟩ with
    root := .map (LwwMap.new.set "a"
      (.register { value := .null, stamp := ⟨⟨1, 0, ⟨1⟩⟩, ⟨1⟩⟩ })
      ⟨⟨1, 0, ⟨1⟩⟩, ⟨1⟩⟩) }

def belowRegister : Op :=
  ⟨⟨7⟩, ⟨0⟩, ["a", "b"], .counterAdd 0, ⟨2, 0, ⟨1⟩⟩, ⟨1⟩⟩

/-- A count below the register is refused, and the document stays. -/
theorem below_register_refused :
    (registered.applyOp (fun _ => ⟨7⟩) belowRegister).1
        = .error (.typeMismatch "/a/b" "map" "register")
      ∧ SameTree registered.root (registered.applyOp (fun _ => ⟨7⟩) belowRegister).2.root
      ∧ (registered.applyOp (fun _ => ⟨7⟩) belowRegister).2.history = registered.history
      ∧ (registered.applyOp (fun _ => ⟨7⟩) belowRegister).2.clock = registered.clock := by
  have hrefused : (registered.applyOp (fun _ => ⟨7⟩) belowRegister).1
      = .error (.typeMismatch "/a/b" "map" "register") := by decide
  exact ⟨hrefused, applyOp_error hrefused⟩

end OpenStandards.Crdt

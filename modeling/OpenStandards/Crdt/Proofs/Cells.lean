/-
A document as independent cells.

The parent map of a path holds for it an entry and a tombstone: its
cell. An op passes through every proper prefix of its slot, making sure a
map is there, and acts on the slot itself. Each cell changes by its own
transition (`Cell.step`), which answers nothing where the op would be
refused or would throw a whole subtree away.

`applyRecursive_refines` is the connection: where every cell has a
transition, the op succeeds on the tree and every cell of the tree makes
exactly that transition. Convergence is then a matter of one cell at a
time.
-/
import OpenStandards.Crdt.Document

namespace OpenStandards.Crdt

open Lib

-- ==== entries of a map

namespace LwwMap

variable {K V : Type} [DecidableEq K] {m : LwwMap K V}

theorem tombstones_set (m : LwwMap K V) (key : K) (v : V) (st : Stamp) :
    (m.set key v st).tombstones = m.tombstones := by
  unfold set
  split
  · rfl
  · split
    · split <;> rfl
    · rfl

variable {key k : K}

theorem entries_set_of_ne (h : k ≠ key) (v : V) (st : Stamp) :
    Assoc.get (m.set key v st).entries k = Assoc.get m.entries k := by
  unfold set
  split
  · rfl
  · split
    · split
      · exact Assoc.get_set_of_ne _ _ h
      · rfl
    · exact Assoc.get_set_of_ne _ _ h

theorem entries_set_self (key : K) (v : V) (st : Stamp) :
    Assoc.get (m.set key v st).entries key
      = if m.buried key st then Assoc.get m.entries key
        else match Assoc.get m.entries key with
          | some (x, t) => if t < st then some (v, st) else some (x, t)
          | none => some (v, st) := by
  unfold set
  by_cases hb : m.buried key st
  · rw [if_pos hb, if_pos hb]
  · rw [if_neg hb, if_neg hb]
    cases hg : Assoc.get m.entries key with
    | none => exact Assoc.get_set_self _ _ _
    | some e =>
      obtain ⟨x, t⟩ := e
      by_cases hlt : t < st
      · simp only [if_pos hlt]
        exact Assoc.get_set_self _ _ _
      · simp only [if_neg hlt]
        exact hg

theorem entries_bury (m : LwwMap K V) (key : K) (st : Stamp) :
    (m.bury key st).entries = m.entries := by
  unfold bury
  split
  · rfl
  · split <;> rfl

theorem tombstones_bury_of_ne (h : k ≠ key) (st : Stamp) :
    Assoc.get (m.bury key st).tombstones k = Assoc.get m.tombstones k := by
  unfold bury
  split
  · exact Assoc.get_set_of_ne _ _ h
  · split
    · exact Assoc.get_set_of_ne _ _ h
    · rfl

/-- A tombstone raised to at least a stamp. -/
def raise (tomb : Option Stamp) (st : Stamp) : Option Stamp :=
  match tomb with
  | none => some st
  | some t => if t < st then some st else some t

theorem tombstones_bury_self (key : K) (st : Stamp) :
    Assoc.get (m.bury key st).tombstones key = raise (Assoc.get m.tombstones key) st := by
  unfold bury raise
  cases hg : Assoc.get m.tombstones key with
  | none => exact Assoc.get_set_self _ _ _
  | some t =>
    by_cases hlt : t < st
    · simp only [if_pos hlt]
      exact Assoc.get_set_self _ _ _
    · simp only [if_neg hlt]
      exact hg

theorem entries_remove_of_ne (h : k ≠ key) (st : Stamp) :
    Assoc.get (m.remove key st).entries k = Assoc.get m.entries k := by
  unfold remove
  split
  · split
    · rw [entries_bury]
      exact Assoc.get_erase_of_ne _ h
    · rfl
  · rw [entries_bury]

theorem tombstones_remove_of_ne (h : k ≠ key) (st : Stamp) :
    Assoc.get (m.remove key st).tombstones k = Assoc.get m.tombstones k := by
  unfold remove
  split
  · split
    · exact tombstones_bury_of_ne h st
    · rfl
  · exact tombstones_bury_of_ne h st

end LwwMap

-- ==== cells

/-- A node up to what is below it. -/
inductive Shape where
  | map
  | leaf (n : CrdtNode)

def CrdtNode.shape : CrdtNode → Shape
  | .map _ => .map
  | n => .leaf n

/-- What the parent map holds for a path. -/
structure Cell where
  entry : Option (Shape × Stamp)
  tomb : Option Stamp

/-- Nothing there, nothing buried. -/
def Cell.empty : Cell := { entry := none, tomb := none }

def LwwMap.cell (m : LwwMap String CrdtNode) (k : String) : Cell :=
  { entry := (Assoc.get m.entries k).map fun e => (e.1.shape, e.2)
    tomb := Assoc.get m.tombstones k }

def cellOf : CrdtNode → Path → Cell
  | .map m, [k] => m.cell k
  | .map m, k :: k' :: p =>
    match Assoc.get m.entries k with
    | some (child, _) => cellOf child (k' :: p)
    | none => .empty
  | _, _ => .empty

variable {m m' : LwwMap String CrdtNode} {k : String} {st : Stamp} {p : Path}
    {n : CrdtNode} {o : Op}

theorem cellOf_child {child : CrdtNode}
    (h : Assoc.get m.entries k = some (child, st)) (hp : p ≠ []) :
    cellOf (.map m) (k :: p) = cellOf child p := by
  cases p with
  | nil => exact absurd rfl hp
  | cons k' p =>
    rw [cellOf, h]

theorem cellOf_absent (h : Assoc.get m.entries k = none) (hp : p ≠ []) :
    cellOf (.map m) (k :: p) = .empty := by
  cases p with
  | nil => exact absurd rfl hp
  | cons k' p =>
    rw [cellOf, h]

/-- The cells below a key depend on what the map holds under it. -/
theorem cellOf_congr (he : Assoc.get m'.entries k = Assoc.get m.entries k)
    (ht : Assoc.get m'.tombstones k = Assoc.get m.tombstones k) (p : Path) :
    cellOf (.map m') (k :: p) = cellOf (.map m) (k :: p) := by
  cases p with
  | nil =>
    show m'.cell k = m.cell k
    unfold LwwMap.cell
    rw [he, ht]
  | cons k' p =>
    rw [cellOf, cellOf, he]

theorem cellOf_leaf (h : ∀ m, n ≠ .map m) (p : Path) : cellOf n p = .empty := by
  cases n with
  | map m => exact absurd rfl (h m)
  | list l => rcases p with _ | ⟨k, _ | ⟨k', p⟩⟩ <;> rfl
  | text t => rcases p with _ | ⟨k, _ | ⟨k', p⟩⟩ <;> rfl
  | register r => rcases p with _ | ⟨k, _ | ⟨k', p⟩⟩ <;> rfl
  | counter c => rcases p with _ | ⟨k, _ | ⟨k', p⟩⟩ <;> rfl
  | set s => rcases p with _ | ⟨k, _ | ⟨k', p⟩⟩ <;> rfl

theorem cellOf_new (p : Path) : cellOf (.map .new) p = .empty := by
  cases p with
  | nil => rfl
  | cons k p =>
    cases p with
    | nil => rfl
    | cons k' p => rfl

theorem traverse_leaf (h : ∀ m, n ≠ .map m) (k : String) (p : Path) :
    traverse n (k :: p) = none := by
  cases n with
  | map m => exact absurd rfl (h m)
  | list l => rfl
  | text t => rfl
  | register r => rfl
  | counter c => rfl
  | set s => rfl

theorem traverse_shape (hp : p ≠ []) (n : CrdtNode) :
    (traverse n p).map CrdtNode.shape = (cellOf n p).entry.map Prod.fst := by
  induction p generalizing n with
  | nil => exact absurd rfl hp
  | cons k p ih =>
    by_cases hmap : ∃ m, n = .map m
    · obtain ⟨m, rfl⟩ := hmap
      show ((m.get k).bind fun child => traverse child p).map _ = _
      unfold LwwMap.get
      cases p with
      | nil =>
        show _ = (m.cell k).entry.map Prod.fst
        unfold LwwMap.cell
        cases Assoc.get m.entries k with
        | none => rfl
        | some e => rfl
      | cons k' p =>
        cases hg : Assoc.get m.entries k with
        | none =>
          rw [cellOf_absent hg (List.cons_ne_nil _ _)]
          rfl
        | some e =>
          rw [cellOf_child (show _ = some (e.1, e.2) from hg) (List.cons_ne_nil _ _)]
          exact ih (List.cons_ne_nil _ _) e.1
    · have hleaf : ∀ m, n ≠ .map m := fun m h => hmap ⟨m, h⟩
      rw [traverse_leaf hleaf, cellOf_leaf hleaf]
      rfl

-- ==== the transitions

/-- The key is tombstoned by a removal the stamp does not beat. -/
def Cell.buried (c : Cell) (st : Stamp) : Prop :=
  ∃ t, c.tomb = some t ∧ ¬ t < st

instance (c : Cell) (st : Stamp) : Decidable (c.buried st) :=
  match h : c.tomb with
  | none => .isFalse fun ⟨t, ht, _⟩ => by rw [h] at ht; cases ht
  | some t =>
    if hlt : t < st then
      .isFalse fun ⟨t', ht', hn⟩ => by
        rw [h] at ht'
        cases ht'
        exact hn hlt
    else .isTrue ⟨t, h, hlt⟩

/-- An op passes through: a map is made sure of. -/
def Cell.through (c : Cell) (st : Stamp) : Option Cell :=
  match c.entry with
  | some (.map, _) => some c
  | some (.leaf _, _) => none
  | none =>
    if c.buried st then none else some { c with entry := some (.map, st) }

def Cell.leafOp (c : Cell) (o : Op) : Option Cell :=
  match c.entry with
  | some (.map, _) => none
  | some (.leaf n, st) =>
    if (applyTerminal n o).1 = .ok () then
      some { c with entry := some ((applyTerminal n o).2.shape, st) }
    else none
  | none =>
    let n := seedTerminalNode o.op o.stamp
    if c.buried o.stamp ∨ (applyTerminal n o).1 ≠ .ok () then none
    else
      some { c with entry := some ((applyTerminal n o).2.shape, o.stamp) }

/-- A map op writes a register; one that would replace a map has no
transition. -/
def Cell.mapSet (c : Cell) (value : Value) (st : Stamp) : Option Cell :=
  let written : Cell :=
    { c with entry := some (.leaf (.register { value, stamp := st }), st) }
  if c.buried st then some c
  else
    match c.entry with
    | some (sh, t) =>
      if t < st then
        match sh with
        | .map => none
        | .leaf _ => some written
      else some c
    | none => some written

def Cell.mapDelete (c : Cell) (st : Stamp) : Option Cell :=
  let deleted : Cell := { entry := none, tomb := LwwMap.raise c.tomb st }
  match c.entry with
  | some (sh, t) =>
    if t < st then
      match sh with
      | .map => none
      | .leaf _ => some deleted
    else some c
  | none => some deleted

def Cell.act (c : Cell) (o : Op) : Option Cell :=
  match o.op with
  | .mapSet _ value => c.mapSet value o.stamp
  | .mapDelete _ => c.mapDelete o.stamp
  | _ => c.leafOp o

/-- How an op with this slot touches a path. -/
inductive Role where
  | aside
  | through
  | slot
deriving DecidableEq

def role : Path → Path → Role
  | [], [] => .slot
  | _ :: _, [] => .through
  | [], _ :: _ => .aside
  | s :: slot, k :: p => if s = k then role slot p else .aside

/-- The transition of the cell at `p` under an op with this slot. -/
def Cell.step (o : Op) (slot p : Path) (c : Cell) : Option Cell :=
  match role slot p with
  | .aside => some c
  | .through => c.through o.stamp
  | .slot => c.act o

def slotOf (kind : OpKind) (path : Path) : Path :=
  match kind with
  | .mapSet key _ => path.dropLast ++ [key]
  | .mapDelete key => path.dropLast ++ [key]
  | _ => path

def Op.slot (o : Op) : Path := slotOf o.op o.targetPath

-- ==== refinement

theorem Cell.step_cons_self (o : Op) (k : String) (slot p : Path)
    (c : Cell) : Cell.step o (k :: slot) (k :: p) c = Cell.step o slot p c := by
  unfold Cell.step
  rw [show role (k :: slot) (k :: p) = role slot p from if_pos rfl]

theorem Cell.step_cons_of_ne {k' : String} (h : k' ≠ k) (o : Op) (slot p : Path) (c : Cell) :
    Cell.step o (k' :: slot) (k :: p) c = some c := by
  unfold Cell.step
  rw [show role (k' :: slot) (k :: p) = .aside from if_neg h]

theorem Cell.step_slot (o : Op) (k : String) (c : Cell) : Cell.step o [k] [k] c = c.act o :=
  Cell.step_cons_self o k [] [] c

/-- A map edited under one key: it is enough to follow the cells at and
below that key. -/
theorem refines_of_key {slot : Path} (hentries : ∀ k', k' ≠ k →
      Assoc.get m'.entries k' = Assoc.get m.entries k') (htombs : ∀ k', k' ≠ k →
      Assoc.get m'.tombstones k' = Assoc.get m.tombstones k')
    (hkey : ∀ p, Cell.step o slot p (cellOf (.map m) (k :: p))
      = some (cellOf (.map m') (k :: p))) :
    ∀ p, p ≠ [] → Cell.step o (k :: slot) p (cellOf (.map m) p)
      = some (cellOf (.map m') p) := by
  intro p hp
  cases p with
  | nil => exact absurd rfl hp
  | cons k' p =>
    by_cases hk : k' = k
    · subst hk
      rw [Cell.step_cons_self]
      exact hkey p
    · rw [Cell.step_cons_of_ne (Ne.symm hk), cellOf_congr (hentries k' hk) (htombs k' hk)]

theorem buried_cell : (m.cell k).buried st ↔ m.buried k st := Iff.rfl

theorem cellOf_below (h : ∀ t, (m.cell k).entry ≠ some (.map, t))
    (hp : p ≠ []) : cellOf (.map m) (k :: p) = .empty := by
  cases hg : Assoc.get m.entries k with
  | none => exact cellOf_absent hg hp
  | some e =>
    rw [cellOf_child (show _ = some (e.1, e.2) from hg) hp]
    refine cellOf_leaf ?_ p
    intro m' hm'
    refine h e.2 ?_
    show (Assoc.get m.entries k).map _ = _
    rw [hg]
    show some (e.1.shape, e.2) = _
    rw [hm']
    rfl

theorem mapEdit_refines {key : String} (hm' : mapEdit m o = some m')
    (hslot : slotOf o.op [] = [key]) (hsome : ((m.cell key).act o).isSome) :
    ∀ p, p ≠ [] → Cell.step o [key] p (cellOf (.map m) p) = some (cellOf (.map m') p) := by
  -- the cell of the key, and what is below it where it changed
  have hboth : (∀ k', k' ≠ key → Assoc.get m'.entries k' = Assoc.get m.entries k')
      ∧ (∀ k', k' ≠ key → Assoc.get m'.tombstones k' = Assoc.get m.tombstones k')
      ∧ (m.cell key).act o = some (m'.cell key)
      ∧ (Assoc.get m'.entries key = Assoc.get m.entries key
        ∨ (∀ t, (m.cell key).entry ≠ some (.map, t))
          ∧ ∀ t, (m'.cell key).entry ≠ some (.map, t)) := by
    unfold mapEdit at hm'
    unfold Cell.act at hsome ⊢
    unfold slotOf at hslot
    split at hm'
    next k value hop =>
      simp only [hop] at hslot hsome ⊢
      cases hslot
      cases hm'
      refine ⟨fun k' hk' => LwwMap.entries_set_of_ne hk' _ _,
        fun k' _ => by rw [LwwMap.tombstones_set], ?_⟩
      unfold Cell.mapSet at hsome ⊢
      have htomb : Assoc.get (m.set key (.register
          { value, stamp := o.stamp }) o.stamp).tombstones key
          = Assoc.get m.tombstones key := by
        rw [LwwMap.tombstones_set]
      have hself := LwwMap.entries_set_self (m := m) key
        (CrdtNode.register { value, stamp := o.stamp }) o.stamp
      by_cases hb : m.buried key o.stamp
      · rw [if_pos hb] at hself
        rw [if_pos (buried_cell.2 hb)]
        refine ⟨?_, Or.inl hself⟩
        unfold LwwMap.cell
        rw [hself, htomb]
      · rw [if_neg hb] at hself
        rw [if_neg (fun h => hb (buried_cell.1 h))] at hsome ⊢
        cases hg : Assoc.get m.entries key with
        | none =>
          rw [hg] at hself
          simp only [LwwMap.cell, hg, hself, htomb, Option.map_none, Option.map_some]
          refine ⟨rfl, Or.inr ⟨?_, ?_⟩⟩
          · intro t h
            cases h
          · intro t h
            cases h
        | some e =>
          obtain ⟨x, t⟩ := e
          rw [hg] at hself
          by_cases hlt : t < o.stamp
          · simp only [if_pos hlt] at hself
            simp only [LwwMap.cell, hg, hself, htomb, Option.map_some, if_pos hlt] at hsome ⊢
            cases hx : x.shape with
            | map =>
              rw [hx] at hsome
              cases hsome
            | leaf n =>
              refine ⟨rfl, Or.inr ⟨?_, ?_⟩⟩
              · intro t' h
                cases h
              · intro t' h
                cases h
          · simp only [if_neg hlt] at hself
            simp only [LwwMap.cell, hg, hself, htomb, Option.map_some, if_neg hlt]
            exact ⟨trivial, Or.inl trivial⟩
    next k hop =>
      simp only [hop] at hslot hsome ⊢
      cases hslot
      cases hm'
      refine ⟨fun k' hk' => LwwMap.entries_remove_of_ne hk' _,
        fun k' hk' => LwwMap.tombstones_remove_of_ne hk' _, ?_⟩
      unfold Cell.mapDelete LwwMap.remove at *
      cases hg : Assoc.get m.entries key with
      | none =>
        simp only [LwwMap.cell, hg, LwwMap.entries_bury,
          LwwMap.tombstones_bury_self, Option.map_none]
        exact ⟨trivial, Or.inl trivial⟩
      | some e =>
        obtain ⟨x, t⟩ := e
        by_cases hlt : t < o.stamp
        · simp only [LwwMap.cell, hg, if_pos hlt, Option.map_some,
            LwwMap.entries_bury, LwwMap.tombstones_bury_self,
            Assoc.get_erase_self, Option.map_none] at hsome ⊢
          cases hx : x.shape with
          | map =>
            rw [hx] at hsome
            cases hsome
          | leaf n =>
            refine ⟨rfl, Or.inr ⟨?_, ?_⟩⟩
            · intro t' h
              cases h
            · intro t' h
              cases h
        · simp only [LwwMap.cell, hg, if_neg hlt, Option.map_some]
          exact ⟨trivial, Or.inl trivial⟩
    next => cases hm'
  obtain ⟨hentries, htombs, hact, hbelow⟩ := hboth
  refine refines_of_key hentries htombs ?_
  intro p
  cases p with
  | nil => exact hact
  | cons k' p =>
    show some _ = some _
    rcases hbelow with hsame | ⟨hold, hnew⟩
    · cases hg : Assoc.get m.entries key with
      | none =>
        rw [cellOf_absent hg (List.cons_ne_nil _ _),
          cellOf_absent (hsame.trans hg) (List.cons_ne_nil _ _)]
      | some e =>
        rw [cellOf_child (show _ = some (e.1, e.2) from hg) (List.cons_ne_nil _ _),
          cellOf_child (show _ = some (e.1, e.2) from hsame.trans hg) (List.cons_ne_nil _ _)]
    · rw [cellOf_below hold (List.cons_ne_nil _ _), cellOf_below hnew (List.cons_ne_nil _ _)]

/-- A leaf op leaves a leaf behind. -/
theorem applyTerminal_ne_map (h : ∀ m, n ≠ .map m) (o : Op) :
    ∀ m, (applyTerminal n o).2 ≠ .map m := by
  intro m
  unfold applyTerminal
  split <;> first
    | exact h m
    | exact absurd rfl (h _)
    | (intro heq; cases heq)

theorem shape_eq_leaf (h : ∀ m, n ≠ .map m) : n.shape = .leaf n := by
  cases n with
  | map m => exact absurd rfl (h m)
  | list l => rfl
  | text t => rfl
  | register r => rfl
  | counter c => rfl
  | set s => rfl

theorem ne_map_of_shape {n' : CrdtNode} (h : n.shape = .leaf n') : ∀ m, n ≠ .map m := by
  intro m heq
  rw [heq] at h
  cases h

/-- What a map holds under a key once the child is made sure of: what it
held, or the new child under the op's stamp. -/
theorem ensureChild_spec (tail : Path) (h : Assoc.get m.entries k = none → ¬ m.buried k o.stamp) :
    ∃ child st, Assoc.get (ensureChild m k tail o).entries k = some (child, st)
      ∧ (Assoc.get m.entries k = some (child, st)
        ∨ (Assoc.get m.entries k = none ∧ st = o.stamp
          ∧ child = if tail = [] then seedTerminalNode o.op o.stamp
              else .map .new))
      ∧ (ensureChild m k tail o).tombstones = m.tombstones
      ∧ ∀ k', k' ≠ k → Assoc.get (ensureChild m k tail o).entries k'
          = Assoc.get m.entries k' := by
  unfold ensureChild LwwMap.get
  cases hg : Assoc.get m.entries k with
  | none =>
    refine ⟨_, o.stamp, ?_, Or.inr ⟨rfl, rfl, rfl⟩,
      LwwMap.tombstones_set .., fun k' hk' => LwwMap.entries_set_of_ne hk' ..⟩
    show Assoc.get (m.set k _ _).entries k = _
    rw [LwwMap.entries_set_self, if_neg (h hg), hg]
  | some e => exact ⟨e.1, e.2, hg, Or.inl rfl, rfl, fun k' _ => rfl⟩

theorem refines_put {tail slot : Path} {child' : CrdtNode}
    (htombs : (ensureChild m k tail o).tombstones = m.tombstones)
    (hother : ∀ k', k' ≠ k → Assoc.get (ensureChild m k tail o).entries k'
      = Assoc.get m.entries k') (hkey : Cell.step o slot [] (m.cell k)
      = some { entry := some (child'.shape, st), tomb := (m.cell k).tomb })
    (hbelow : ∀ p, p ≠ [] → Cell.step o slot p (cellOf (.map m) (k :: p))
      = some (cellOf child' p)) :
    ∀ p, p ≠ [] → Cell.step o (k :: slot) p (cellOf (.map m) p)
      = some (cellOf (.map { ensureChild m k tail o with
          entries := Assoc.set (ensureChild m k tail o).entries k (child', st) }) p) := by
  refine refines_of_key ?_ ?_ ?_
  · intro k' hk'
    show Assoc.get (Assoc.set _ k _) k' = _
    rw [Assoc.get_set_of_ne _ _ hk']
    exact hother k' hk'
  · intro k' _
    show Assoc.get (ensureChild m k tail o).tombstones k' = _
    rw [htombs]
  · intro p
    cases p with
    | nil =>
      show Cell.step o slot [] (m.cell k) = some (LwwMap.cell _ k)
      rw [hkey]
      unfold LwwMap.cell
      simp only [Assoc.get_set_self, Option.map_some, htombs]
    | cons k' p =>
      rw [hbelow (k' :: p) (List.cons_ne_nil _ _)]
      rw [cellOf_child (Assoc.get_set_self ..) (List.cons_ne_nil _ _)]

theorem mapEdit_isSome (m : LwwMap String CrdtNode) (h : slotOf o.op [] ≠ []) :
    ∃ key m', slotOf o.op [] = [key] ∧ mapEdit m o = some m'
      ∧ ∀ head, slotOf o.op [head] = [key] := by
  unfold slotOf mapEdit at *
  cases hop : o.op with
  | mapSet key value => exact ⟨key, _, rfl, rfl, fun _ => rfl⟩
  | mapDelete key => exact ⟨key, _, rfl, rfl, fun _ => rfl⟩
  | registerSet value => simp [hop] at h
  | counterAdd delta => simp [hop] at h
  | setAdd value tag => simp [hop] at h
  | setRemove value => simp [hop] at h
  | listInsert parent value pos => simp [hop] at h
  | listDelete pos => simp [hop] at h
  | textInsert parent ch pos => simp [hop] at h
  | textDelete pos => simp [hop] at h

theorem leafKind_spec (h : slotOf o.op [] = []) :
    (∀ m, mapEdit m o = none) ∧ (∀ path, slotOf o.op path = path)
      ∧ ∀ c : Cell, c.act o = c.leafOp o := by
  unfold slotOf mapEdit Cell.act at *
  cases hop : o.op with
  | mapSet key value => simp [hop] at h
  | mapDelete key => simp [hop] at h
  | registerSet value => exact ⟨fun _ => rfl, fun _ => rfl, fun _ => rfl⟩
  | counterAdd delta => exact ⟨fun _ => rfl, fun _ => rfl, fun _ => rfl⟩
  | setAdd value tag => exact ⟨fun _ => rfl, fun _ => rfl, fun _ => rfl⟩
  | setRemove value => exact ⟨fun _ => rfl, fun _ => rfl, fun _ => rfl⟩
  | listInsert parent value pos =>
    exact ⟨fun _ => rfl, fun _ => rfl, fun _ => rfl⟩
  | listDelete pos => exact ⟨fun _ => rfl, fun _ => rfl, fun _ => rfl⟩
  | textInsert parent ch pos =>
    exact ⟨fun _ => rfl, fun _ => rfl, fun _ => rfl⟩
  | textDelete pos => exact ⟨fun _ => rfl, fun _ => rfl, fun _ => rfl⟩

theorem slotOf_cons_cons (kind : OpKind) (k k' : String) (path : Path) :
    slotOf kind (k :: k' :: path) = k :: slotOf kind (k' :: path) := by
  cases kind <;> rfl

theorem slotOf_ne_nil (kind : OpKind) (k : String) (path : Path) :
    slotOf kind (k :: path) ≠ [] := by
  cases kind <;> simp [slotOf]

/-- A leaf op that has a transition: it succeeds on the leaf there, or on
the seed of a free cell. -/
theorem Cell.leafOp_cases {c : Cell} (h : (c.leafOp o).isSome) :
    (∃ n st, c.entry = some (.leaf n, st) ∧ (applyTerminal n o).1 = .ok ()
      ∧ c.leafOp o = some { entry := some ((applyTerminal n o).2.shape, st)
                            tomb := c.tomb })
    ∨ (c.entry = none ∧ ¬ c.buried o.stamp
      ∧ (applyTerminal (seedTerminalNode o.op o.stamp) o).1 = .ok ()
      ∧ c.leafOp o = some
        { entry := some ((applyTerminal
            (seedTerminalNode o.op o.stamp) o).2.shape, o.stamp)
          tomb := c.tomb }) := by
  unfold Cell.leafOp at h ⊢
  rcases he : c.entry with _ | ⟨sh, st⟩
  · simp only [he] at h ⊢
    by_cases hbad : c.buried o.stamp
        ∨ (applyTerminal (seedTerminalNode o.op o.stamp) o).1 ≠ .ok ()
    · rw [if_pos hbad] at h
      cases h
    · refine Or.inr ⟨trivial, ?_, ?_, if_neg hbad⟩
      · exact fun hb => hbad (Or.inl hb)
      · exact Classical.byContradiction fun hne => hbad (Or.inr hne)
  · cases sh with
    | map =>
      simp only [he] at h
      cases h
    | leaf n =>
      simp only [he] at h ⊢
      by_cases hok : (applyTerminal n o).1 = .ok ()
      · exact Or.inl ⟨n, st, rfl, hok, if_pos hok⟩
      · rw [if_neg hok] at h
        cases h

/-- An op that may pass finds a map, or a free cell to make one in. -/
theorem Cell.through_cases {c : Cell} (h : (c.through st).isSome) :
    (∃ t, c.entry = some (.map, t) ∧ c.through st = some c)
    ∨ (c.entry = none ∧ ¬ c.buried st
      ∧ c.through st = some { entry := some (.map, st), tomb := c.tomb }) := by
  unfold Cell.through at h ⊢
  rcases he : c.entry with _ | ⟨sh, t⟩
  · simp only [he] at h ⊢
    by_cases hb : c.buried st
    · rw [if_pos hb] at h
      cases h
    · exact Or.inr ⟨trivial, hb, if_neg hb⟩
  · cases sh with
    | map => exact Or.inl ⟨t, rfl, rfl⟩
    | leaf n =>
      simp only [he] at h
      cases h

theorem cell_entry_eq_none : (m.cell k).entry = none ↔ Assoc.get m.entries k = none :=
  Option.map_eq_none_iff

theorem cell_entry_eq_some {sh : Shape} :
    (m.cell k).entry = some (sh, st) ↔
      ∃ n : CrdtNode, Assoc.get m.entries k = some (n, st) ∧ n.shape = sh := by
  unfold LwwMap.cell
  cases Assoc.get m.entries k with
  | none =>
    constructor
    · intro h
      cases h
    · intro ⟨n, h, _⟩
      cases h
  | some e =>
    constructor
    · intro h
      cases h
      exact ⟨e.1, rfl, rfl⟩
    · intro ⟨n, h, hn⟩
      cases h
      rw [← hn]
      rfl

theorem seedTerminalNode_ne_map (hkind : slotOf o.op [] = []) :
    ∀ m, seedTerminalNode o.op o.stamp ≠ .map m := by
  intro m
  unfold slotOf at hkind
  cases hop : o.op with
  | mapSet key value => simp [hop] at hkind
  | mapDelete key => simp [hop] at hkind
  | registerSet value => exact nofun
  | counterAdd delta => exact nofun
  | setAdd value tag => exact nofun
  | setRemove value => exact nofun
  | listInsert parent value pos => exact nofun
  | listDelete pos => exact nofun
  | textInsert parent ch pos => exact nofun
  | textDelete pos => exact nofun

theorem applyRecursive_leaf {head : String} (hkind : slotOf o.op [] = [])
    (hsome : ((m.cell head).leafOp o).isSome) :
    ∃ m', applyRecursive o [head] (.map m) = (.ok (), .map m')
      ∧ ∀ p, p ≠ [] → Cell.step o [head] p (cellOf (.map m) p) = some (cellOf (.map m') p) := by
  obtain ⟨hedit, -, hact⟩ := leafKind_spec hkind
  have hcases := Cell.leafOp_cases hsome
  have hfree : Assoc.get m.entries head = none → ¬ m.buried head o.stamp := by
    intro hg
    rcases hcases with ⟨n, st, he, -⟩ | ⟨-, hb, -⟩
    · rw [cell_entry_eq_none.2 hg] at he
      cases he
    · exact hb
  obtain ⟨child, st, hget, hchild, htombs, hother⟩ :=
    ensureChild_spec [] hfree
  rw [if_pos rfl] at hchild
  -- the child the op meets is a leaf, and the op succeeds on it
  obtain ⟨hne, hok, hstep⟩ : (∀ mc, child ≠ .map mc)
      ∧ (applyTerminal child o).1 = .ok ()
      ∧ (m.cell head).leafOp o
        = some { entry := some ((applyTerminal child o).2.shape, st)
                 tomb := (m.cell head).tomb } := by
    rcases hchild with hg | ⟨hg, rfl, rfl⟩
    · rcases hcases with ⟨n, t, he, hok, hstep⟩ | ⟨he, -⟩
      · obtain ⟨n', hg', hn'⟩ := cell_entry_eq_some.1 he
        rw [hg] at hg'
        cases hg'
        have hne := ne_map_of_shape hn'
        rw [shape_eq_leaf hne] at hn'
        cases hn'
        exact ⟨hne, hok, hstep⟩
      · rw [cell_entry_eq_none, hg] at he
        cases he
    · rcases hcases with ⟨n, t, he, -⟩ | ⟨-, -, hok, hstep⟩
      · rw [cell_entry_eq_none.2 hg] at he
        cases he
      · exact ⟨seedTerminalNode_ne_map hkind, hok, hstep⟩
  refine ⟨{ ensureChild m head [] o with
    entries := Assoc.set (ensureChild m head [] o).entries head
      ((applyTerminal child o).2, st) }, ?_, ?_⟩
  · rw [applyRecursive]
    simp only [if_pos, hedit, hget]
    rw [applyRecursive, hok]
  · refine refines_put htombs hother ?_ ?_
    · rw [← hstep, ← hact]
      rfl
    · intro p hp
      have hrole : role [] p = .aside := by
        cases p with
        | nil => exact absurd rfl hp
        | cons k p => rfl
      unfold Cell.step
      rw [hrole, cellOf_leaf (applyTerminal_ne_map hne o)]
      show some _ = some _
      rcases hchild with hg | ⟨hg, -, -⟩
      · rw [cellOf_child hg hp, cellOf_leaf hne]
      · rw [cellOf_absent hg hp]

/-- **The tree refines its cells.** Where every cell has a transition,
the op succeeds and every cell makes its transition. -/
theorem applyRecursive_refines (o : Op) :
    ∀ (path : Path) (m : LwwMap String CrdtNode),
      slotOf o.op path ≠ [] →
      (∀ p, p ≠ [] → (Cell.step o (slotOf o.op path) p (cellOf (.map m) p)).isSome) →
      ∃ m', applyRecursive o path (.map m) = (.ok (), .map m')
        ∧ ∀ p, p ≠ [] →
          Cell.step o (slotOf o.op path) p (cellOf (.map m) p) = some (cellOf (.map m') p) := by
  intro path
  induction path with
  | nil =>
    intro m hslot hsome
    obtain ⟨key, m', hkey, hm', -⟩ := mapEdit_isSome m hslot
    rw [hkey] at hsome ⊢
    have hact := hsome [key] (List.cons_ne_nil _ _)
    rw [Cell.step_slot] at hact
    refine ⟨m', ?_, mapEdit_refines hm' hkey hact⟩
    show applyTerminal (.map m) o = _
    unfold applyTerminal
    simp only [hm']
  | cons head tail ih =>
    intro m hslot hsome
    cases tail with
    | nil =>
      by_cases hkind : slotOf o.op [] = []
      · obtain ⟨-, hself, hact⟩ := leafKind_spec hkind
        rw [hself] at hsome ⊢
        have h := hsome [head] (List.cons_ne_nil _ _)
        rw [Cell.step_slot, hact] at h
        exact applyRecursive_leaf hkind h
      · obtain ⟨key, m', hkey, hm', hhead⟩ := mapEdit_isSome m hkind
        rw [hhead] at hsome ⊢
        have hact := hsome [key] (List.cons_ne_nil _ _)
        rw [Cell.step_slot] at hact
        refine ⟨m', ?_, mapEdit_refines hm' hkey hact⟩
        unfold applyRecursive
        simp only [if_pos, hm']
    | cons k tail =>
      rw [slotOf_cons_cons] at hsome ⊢
      have hne := slotOf_ne_nil o.op k tail
      have hrole : role (slotOf o.op (k :: tail)) [] = .through := by
        cases h : slotOf o.op (k :: tail) with
        | nil => exact absurd h hne
        | cons s slot => rfl
      -- the cell of the head: the op passes through
      have hthrough : ((m.cell head).through o.stamp).isSome := by
        have h := hsome [head] (List.cons_ne_nil _ _)
        rw [Cell.step_cons_self] at h
        unfold Cell.step at h
        rw [hrole] at h
        exact h
      have hcases := Cell.through_cases hthrough
      have hfree : Assoc.get m.entries head = none → ¬ m.buried head o.stamp := by
        intro hg
        rcases hcases with ⟨t, he, -⟩ | ⟨-, hb, -⟩
        · rw [cell_entry_eq_none.2 hg] at he
          cases he
        · exact hb
      obtain ⟨child, st, hget, hchild, htombs, hother⟩ :=
        ensureChild_spec (k :: tail) hfree
      rw [if_neg (List.cons_ne_nil _ _)] at hchild
      -- the child is a map, with the cells the parent saw below it
      obtain ⟨mc, rfl⟩ : ∃ mc, child = .map mc := by
        rcases hchild with hg | ⟨-, -, hnew⟩
        · rcases hcases with ⟨t, he, -⟩ | ⟨he, -⟩
          · obtain ⟨n, hg', hn⟩ := cell_entry_eq_some.1 he
            rw [hg] at hg'
            cases hg'
            cases child with
            | map mc => exact ⟨mc, rfl⟩
            | list l => cases hn
            | text t => cases hn
            | register r => cases hn
            | counter c => cases hn
            | set s => cases hn
          · rw [cell_entry_eq_none, hg] at he
            cases he
        · exact ⟨_, hnew⟩
      have hcells : ∀ p, p ≠ [] → cellOf (.map m) (head :: p) = cellOf (.map mc) p := by
        intro p hp
        rcases hchild with hg | ⟨hg, -, hnew⟩
        · exact cellOf_child hg hp
        · rw [cellOf_absent hg hp, hnew, cellOf_new]
      obtain ⟨mc', hrec, hrefines⟩ := ih mc hne (by
        intro p hp
        have h := hsome (head :: p) (List.cons_ne_nil _ _)
        rw [Cell.step_cons_self, hcells p hp] at h
        exact h)
      refine ⟨{ ensureChild m head (k :: tail) o with
        entries := Assoc.set (ensureChild m head (k :: tail) o).entries
          head (.map mc', st) }, ?_, ?_⟩
      · rw [applyRecursive]
        simp only [if_neg (List.cons_ne_nil k tail), hget, hrec]
      · refine refines_put htombs hother ?_ ?_
        · unfold Cell.step
          rw [hrole]
          show (m.cell head).through o.stamp = _
          rcases hchild with hg | ⟨hg, rfl, -⟩
          · have he : (m.cell head).entry = some (.map, st) :=
              cell_entry_eq_some.2 ⟨_, hg, rfl⟩
            rcases hcases with ⟨t, -, hstep⟩ | ⟨he', -⟩
            · rw [hstep]
              show some (m.cell head) = some { entry := some (.map, st)
                                               tomb := _ }
              rw [← he]
            · rw [he] at he'
              cases he'
          · rcases hcases with ⟨t, he, -⟩ | ⟨-, -, hstep⟩
            · rw [cell_entry_eq_none.2 hg] at he
              cases he
            · exact hstep
        · intro p hp
          rw [hcells p hp]
          exact hrefines p hp

end OpenStandards.Crdt

/-
Maps that were merged tell the newest operation on a key.

What is kept in every order of things is `Tells`: entries and tombstones are
operations of the history, and the newest operation on a key is the one it
shows. An operation keeps it (`Tells.act`), and a merge is a run of
operations of the other history (`Tells.merge`), so any merge of some
replicas, in whatever order and grouping, tells the histories of all of
them.
-/
import OpenStandards.Crdt.Merge
import OpenStandards.Crdt.Proofs.Cells
import Mathlib.Data.List.MinMax

namespace OpenStandards.Crdt

open Lib

variable {K V : Type} [DecidableEq K]

-- ==== operations

/-- An operation on a map. -/
inductive MapOp (K V : Type) where
  | set (key : K) (value : V) (stamp : Stamp)
  | remove (key : K) (stamp : Stamp)
deriving DecidableEq

namespace MapOp

def key : MapOp K V → K
  | set key _ _ => key
  | remove key _ => key

def stamp : MapOp K V → Stamp
  | set _ _ stamp => stamp
  | remove _ stamp => stamp

/-- What a key reads after the operation. -/
def written : MapOp K V → Option V
  | set _ value _ => some value
  | remove _ _ => none

def act (m : LwwMap K V) : MapOp K V → LwwMap K V
  | set key value stamp => m.set key value stamp
  | remove key stamp => m.remove key stamp

/-- The newest of some operations on a key. -/
structure Newest (key : K) (ops : List (MapOp K V)) (o : MapOp K V) : Prop where
  mem : o ∈ ops
  on : o.key = key
  last : ∀ o' ∈ ops, o'.key = key → o'.stamp ≤ o.stamp

/-- The stamp of an operation names it. -/
def Distinct (ops : List (MapOp K V)) : Prop :=
  ∀ o ∈ ops, ∀ o' ∈ ops, o.stamp = o'.stamp → o = o'

end MapOp

-- ==== entries and tombstones

namespace LwwMap

variable {m : LwwMap K V}

variable {key : K} {st : Stamp}

theorem mem_entries_set {v : V} {e : K × V × Stamp} (h : e ∈ (m.set key v st).entries) :
    e = (key, v, st) ∨ e ∈ m.entries := by
  unfold set at h
  split at h
  · exact .inr h
  · split at h
    · split at h
      · exact Assoc.eq_or_mem_of_mem_set h
      · exact .inr h
    · exact Assoc.eq_or_mem_of_mem_set h

theorem mem_tombstones_bury {e : K × Stamp} (h : e ∈ (m.bury key st).tombstones) :
    e = (key, st) ∨ e ∈ m.tombstones := by
  unfold bury at h
  split at h
  · exact Assoc.eq_or_mem_of_mem_set h
  · split at h
    · exact Assoc.eq_or_mem_of_mem_set h
    · exact .inr h

theorem mem_entries_remove {e : K × V × Stamp}
    (h : e ∈ (m.remove key st).entries) : e ∈ m.entries := by
  unfold remove at h
  split at h
  · split at h
    · rw [entries_bury] at h
      exact Assoc.mem_of_mem_erase h
    · exact h
  · rw [entries_bury] at h
    exact h

theorem mem_tombstones_remove {e : K × Stamp} (h : e ∈ (m.remove key st).tombstones) :
    e = (key, st) ∨ e ∈ m.tombstones := by
  unfold remove at h
  split at h
  · split at h
    · rcases mem_tombstones_bury h with h | h
      · exact .inl h
      · exact .inr h
    · exact .inr h
  · exact mem_tombstones_bury h

end LwwMap

-- ==== what is told

open MapOp (Newest)

def Shows (m : LwwMap K V) : MapOp K V → Prop
  | .set key value stamp =>
    Assoc.get m.entries key = some (value, stamp)
  | .remove key stamp =>
    Assoc.get m.entries key = none ∧ Assoc.get m.tombstones key = some stamp

/-- The map shows the newest of some operations on each key, and nothing
that is not one of them. -/
structure Tells (m : LwwMap K V) (ops : List (MapOp K V)) : Prop where
  entries : ∀ e ∈ m.entries, MapOp.set e.1 e.2.1 e.2.2 ∈ ops
  tombstones : ∀ e ∈ m.tombstones, MapOp.remove e.1 e.2 ∈ ops
  newest : ∀ key o, Newest key ops o → Shows m o

theorem tells_new : Tells (.new : LwwMap K V) [] :=
  { entries := nofun, tombstones := nofun
    newest := fun _ _ h => absurd h.mem List.not_mem_nil }

variable {m : LwwMap K V} {ops : List (MapOp K V)} {key : K} {o : MapOp K V}

theorem Tells.entry (h : Tells m ops) {v : V} {t : Stamp}
    (hget : Assoc.get m.entries key = some (v, t)) :
    MapOp.set key v t ∈ ops :=
  h.entries _ (Assoc.mem_of_get hget)

theorem Tells.tombstone (h : Tells m ops) {t : Stamp}
    (hget : Assoc.get m.tombstones key = some t) : MapOp.remove key t ∈ ops :=
  h.tombstones _ (Assoc.mem_of_get hget)

/-- An operation on one key leaves what is shown of the others. -/
theorem Shows.aside {o' : MapOp K V} (h : Shows m o') (hne : o'.key ≠ o.key) :
    Shows (o.act m) o' := by
  have hentries : Assoc.get (o.act m).entries o'.key = Assoc.get m.entries o'.key := by
    cases o with
    | set key v st => exact LwwMap.entries_set_of_ne hne v st
    | remove key st => exact LwwMap.entries_remove_of_ne hne st
  have htombstones : Assoc.get (o.act m).tombstones o'.key = Assoc.get m.tombstones o'.key := by
    cases o with
    | set key v st =>
      exact congrArg (Assoc.get · o'.key) (LwwMap.tombstones_set m key v st)
    | remove key st => exact LwwMap.tombstones_remove_of_ne hne st
  cases o' with
  | set key v st => exact hentries.trans h
  | remove key st => exact ⟨hentries.trans h.1, htombstones.trans h.2⟩

theorem Shows.older {o' : MapOp K V} (h : Shows m o') (hkey : o'.key = o.key)
    (hlt : o.stamp < o'.stamp) : Shows (o.act m) o' := by
  have hnot : ¬ o'.stamp < o.stamp := not_lt.2 hlt.le
  cases o' with
  | set key v t =>
    obtain rfl : key = o.key := hkey
    have hget : Assoc.get m.entries o.key = some (v, t) := h
    cases o with
    | set key v' st =>
      have hstep := LwwMap.entries_set_self (m := m) key v' st
      refine hstep.trans ?_
      change ¬ t < st at hnot
      change Assoc.get m.entries key = some (v, t) at hget
      rw [hget]
      simp only [if_neg hnot, ite_self]
    | remove key st =>
      change Assoc.get (m.remove key st).entries key = some (v, t)
      change Assoc.get m.entries key = some (v, t) at hget
      change ¬ t < st at hnot
      unfold LwwMap.remove
      rw [hget]
      simp only [if_neg hnot, hget]
  | remove key t =>
    obtain rfl : key = o.key := hkey
    obtain ⟨hnone, htomb⟩ := h
    cases o with
    | set key v' st =>
      change Assoc.get m.tombstones key = some t at htomb
      have hburied : m.buried key st := ⟨t, htomb, hnot⟩
      change Shows (m.set key v' st) _
      unfold LwwMap.set
      rw [if_pos hburied]
      exact ⟨hnone, htomb⟩
    | remove key st =>
      change Assoc.get m.entries key = none at hnone
      change Assoc.get m.tombstones key = some t at htomb
      change ¬ t < st at hnot
      change Shows (m.remove key st) _
      unfold LwwMap.remove LwwMap.bury
      rw [hnone, htomb]
      simp only [if_neg hnot]
      exact ⟨hnone, htomb⟩

/-- An operation that is newer than the entry and the tombstone of its key,
or one of them, is shown. -/
theorem shows_self (hentry : ∀ v t, Assoc.get m.entries o.key = some (v, t) →
      MapOp.set o.key v t = o ∨ t < o.stamp)
    (htombstone : ∀ t, Assoc.get m.tombstones o.key = some t →
      MapOp.remove o.key t = o ∨ t < o.stamp) : Shows (o.act m) o := by
  cases o with
  | set key v st =>
    have hfree : ¬ m.buried key st := by
      intro hburied
      obtain ⟨t, ht, hnot⟩ := hburied
      rcases htombstone t ht with heq | hlt
      · cases heq
      · exact hnot hlt
    refine (LwwMap.entries_set_self key v st).trans ?_
    rw [if_neg hfree]
    cases hget : Assoc.get m.entries key with
    | none => rfl
    | some e =>
      obtain ⟨v', t⟩ := e
      rcases hentry v' t hget with heq | hlt
      · cases heq
        exact if_neg (lt_irrefl st)
      · exact if_pos hlt
  | remove key st =>
    have hraise : LwwMap.raise (Assoc.get m.tombstones key) st = some st := by
      unfold LwwMap.raise
      cases hget : Assoc.get m.tombstones key with
      | none => rfl
      | some t =>
        rcases htombstone t hget with heq | hlt
        · cases heq
          exact if_neg (lt_irrefl st)
        · exact if_pos hlt
    change Shows (m.remove key st) _
    unfold LwwMap.remove
    cases hget : Assoc.get m.entries key with
    | none =>
      refine ⟨?_, (LwwMap.tombstones_bury_self key st).trans hraise⟩
      dsimp only
      rw [LwwMap.entries_bury]
      exact hget
    | some e =>
      obtain ⟨v, t⟩ := e
      rcases hentry v t hget with heq | hlt
      · cases heq
      · change t < st at hlt
        simp only [if_pos hlt]
        refine ⟨?_, (LwwMap.tombstones_bury_self key st).trans hraise⟩
        rw [LwwMap.entries_bury]
        exact Assoc.get_erase_self _ _

/-- What is told is kept by every operation whose stamp names it. -/
theorem Tells.act (h : Tells m ops) (o : MapOp K V)
    (hd : MapOp.Distinct (o :: ops)) : Tells (o.act m) (o :: ops) := by
  have hself : o ∈ o :: ops := List.mem_cons_self ..
  refine { entries := fun e he => ?_, tombstones := fun e he => ?_
           newest := fun key o' hnew => ?_ }
  · cases o with
    | set key v st =>
      rcases LwwMap.mem_entries_set he with rfl | he
      · exact hself
      · exact List.mem_cons_of_mem _ (h.entries e he)
    | remove key st =>
      exact List.mem_cons_of_mem _ (h.entries e (LwwMap.mem_entries_remove he))
  · cases o with
    | set key v st =>
      change e ∈ (m.set key v st).tombstones at he
      rw [LwwMap.tombstones_set] at he
      exact List.mem_cons_of_mem _ (h.tombstones e he)
    | remove key st =>
      rcases LwwMap.mem_tombstones_remove he with rfl | he
      · exact hself
      · exact List.mem_cons_of_mem _ (h.tombstones e he)
  · by_cases heq : o' = o
    · -- the operation itself is the newest: nothing it meets is newer
      subst heq
      have hmeets : ∀ other ∈ ops, other.key = o'.key →
          other = o' ∨ other.stamp < o'.stamp := by
        intro other hother hkey
        have hle := hnew.last other (List.mem_cons_of_mem _ hother) (hkey.trans hnew.on)
        rcases hle.eq_or_lt with hst | hlt
        · exact .inl (hd other (List.mem_cons_of_mem _ hother) o' hself hst)
        · exact .inr hlt
      exact shows_self (fun v t hget => hmeets _ (h.entry hget) rfl)
        fun t hget => hmeets _ (h.tombstone hget) rfl
    · -- the newest was there before
      have hmem : o' ∈ ops := (List.mem_cons.1 hnew.mem).resolve_left heq
      have hshows : Shows m o' := h.newest key o'
        { mem := hmem, on := hnew.on
          last := fun other hother => hnew.last other (List.mem_cons_of_mem _ hother) }
      by_cases hkey : o'.key = o.key
      · have hle := hnew.last o hself (hkey.symm.trans hnew.on)
        refine hshows.older hkey (lt_of_le_of_ne hle fun hst => heq ?_)
        exact hd o' (List.mem_cons_of_mem _ hmem) o hself hst.symm
      · exact hshows.aside hkey

/-- The operations a merge amounts to, in their order. -/
def mergeOps (entries : List (K × V × Stamp))
    (tombstones : List (K × Stamp)) : List (MapOp K V) :=
  entries.map (fun e => MapOp.set e.1 e.2.1 e.2.2)
    ++ tombstones.map fun e => MapOp.remove e.1 e.2

theorem mergeFrom_eq (m : LwwMap K V) (entries : List (K × V × Stamp))
    (tombstones : List (K × Stamp)) :
    m.mergeFrom entries tombstones = (mergeOps entries tombstones).foldl MapOp.act m := by
  unfold LwwMap.mergeFrom mergeOps
  rw [List.foldl_append, List.foldl_map, List.foldl_map]
  rfl

omit [DecidableEq K] in
theorem MapOp.Distinct.mono {ops' : List (MapOp K V)} (h : MapOp.Distinct ops)
    (hsub : ops' ⊆ ops) : MapOp.Distinct ops' :=
  fun o ho o' ho' => h o (hsub ho) o' (hsub ho')

/-- Operations one after the other. -/
theorem Tells.acts (h : Tells m ops) (more : List (MapOp K V))
    (hd : MapOp.Distinct (more.reverse ++ ops)) :
    Tells (more.foldl MapOp.act m) (more.reverse ++ ops) := by
  induction more generalizing m ops with
  | nil => exact h
  | cons o more ih =>
    rw [List.reverse_cons, List.append_assoc, List.singleton_append]
      at hd ⊢
    exact ih (h.act o (hd.mono fun o' ho' =>
      List.mem_append_right _ ho')) hd

/-- A merged map tells both histories: what the other map holds are
operations of its history, the newest on each key among them. -/
theorem Tells.merge {other merged : LwwMap K V} {ops' : List (MapOp K V)}
    (h : Tells m ops) (h' : Tells other ops')
    (hd : MapOp.Distinct (ops ++ ops')) (hm : m.Merges other merged) :
    Tells merged (ops ++ ops') := by
  obtain ⟨entries, tombstones, hentries, htombstones, rfl⟩ := hm
  rw [mergeFrom_eq]
  have hsub : ∀ o ∈ mergeOps entries tombstones, o ∈ ops' := by
    intro o ho
    rcases List.mem_append.1 ho with ho | ho
    · obtain ⟨e, he, rfl⟩ := List.mem_map.1 ho
      exact h'.entries e (hentries.mem_iff.1 he)
    · obtain ⟨e, he, rfl⟩ := List.mem_map.1 ho
      exact h'.tombstones e (htombstones.mem_iff.1 he)
  have hincl : (mergeOps entries tombstones).reverse ++ ops ⊆ ops ++ ops' := by
    intro o ho
    rcases List.mem_append.1 ho with ho | ho
    · exact List.mem_append_right _ (hsub o (List.mem_reverse.1 ho))
    · exact List.mem_append_left _ ho
  have hacts := h.acts (mergeOps entries tombstones) (hd.mono hincl)
  refine { entries := fun e he => hincl (hacts.entries e he)
           tombstones := fun e he => hincl (hacts.tombstones e he)
           newest := fun key o hnew => ?_ }
  refine hacts.newest key o
    { mem := ?_, on := hnew.on
      last := fun o' ho' => hnew.last o' (hincl ho') }
  rcases List.mem_append.1 hnew.mem with ho | ho
  · exact List.mem_append_right _ ho
  · -- the newest of the other history is what the other map shows
    refine List.mem_append_left _ (List.mem_reverse.2 ?_)
    have hshows := h'.newest key o
      { mem := ho, on := hnew.on
        last := fun o' ho' => hnew.last o' (List.mem_append_right _ ho') }
    cases o with
    | set k v st =>
      exact List.mem_append_left _ (List.mem_map.2
        ⟨(k, v, st), hentries.mem_iff.2 (Assoc.mem_of_get hshows), rfl⟩)
    | remove k st =>
      exact List.mem_append_right _ (List.mem_map.2
        ⟨(k, st), htombstones.mem_iff.2 (Assoc.mem_of_get hshows.2), rfl⟩)

-- ==== replicas

/-- The maps that operations and merges build, with the operations that went
into them. -/
inductive Built : LwwMap K V → List (MapOp K V) → Prop where
  | new : Built .new []
  | act {m : LwwMap K V} {ops : List (MapOp K V)} (o : MapOp K V)
      (h : Built m ops) : Built (o.act m) (o :: ops)
  | merge {m other merged : LwwMap K V} {ops ops' : List (MapOp K V)}
      (h : Built m ops) (h' : Built other ops')
      (hm : m.Merges other merged) : Built merged (ops ++ ops')

theorem Built.tells (h : Built m ops) (hd : MapOp.Distinct ops) : Tells m ops := by
  induction h with
  | new => exact tells_new
  | act o h ih =>
    exact (ih (hd.mono fun o' ho' => List.mem_cons_of_mem _ ho')).act o hd
  | merge h h' hm ih ih' =>
    exact (ih (hd.mono (List.subset_append_left ..))).merge
      (ih' (hd.mono (List.subset_append_right ..))) hd hm

/-- The merges of some replicas, in some order and grouping: the replicas
that went into one are listed. -/
inductive Merged {ι : Type} (replica : ι → LwwMap K V) : List ι → LwwMap K V → Prop where
  | one (i : ι) : Merged replica [i] (replica i)
  | merge {is js : List ι} {m other merged : LwwMap K V}
      (h : Merged replica is m) (h' : Merged replica js other)
      (hm : m.Merges other merged) : Merged replica (is ++ js) merged

theorem Tells.get_eq (h : Tells m ops) (hnew : Newest key ops o) : m.get key = o.written := by
  have hshows := h.newest key o hnew
  rw [← hnew.on]
  unfold LwwMap.get
  cases o with
  | set k v st => exact congrArg (Option.map Prod.fst) hshows
  | remove k st => exact congrArg (Option.map Prod.fst) hshows.1

/-- A key without operations reads nothing. -/
theorem Tells.get_none (h : Tells m ops) (hno : ∀ o ∈ ops, o.key ≠ key) : m.get key = none := by
  unfold LwwMap.get
  cases hget : Assoc.get m.entries key with
  | none => rfl
  | some e => exact absurd rfl (hno _ (h.entry hget))

theorem exists_newest_on (h : ∃ o ∈ ops, o.key = key) : ∃ o, Newest key ops o := by
  have hne : (ops.filter fun o => o.key = key) ≠ [] := by
    obtain ⟨o, ho, hkey⟩ := h
    exact List.ne_nil_of_mem (List.mem_filter.2 ⟨ho, by simpa using hkey⟩)
  obtain ⟨o, ho⟩ := Option.ne_none_iff_exists'.1
    (fun hnone => hne (List.argmax_eq_none.1 hnone) :
      (ops.filter fun o => o.key = key).argmax MapOp.stamp ≠ none)
  have hmem := List.mem_filter.1 (List.argmax_mem ho)
  refine ⟨o, { mem := hmem.1, on := by simpa using hmem.2
               last := fun o' ho' hkey => ?_ }⟩
  exact List.le_of_mem_argmax (List.mem_filter.2 ⟨ho', by simpa using hkey⟩) ho

section

variable {ι : Type} {replica : ι → LwwMap K V} (ops : ι → List (MapOp K V))

/-- The histories of some replicas, taken together. -/
def histories (is : List ι) : List (MapOp K V) :=
  is.flatMap ops

variable {ops} in
theorem Merged.built (hbuilt : ∀ i, Built (replica i) (ops i)) {is : List ι}
    {m : LwwMap K V} (hm : Merged replica is m) :
    Built m (histories ops is) := by
  unfold histories
  induction hm with
  | one i =>
    rw [List.flatMap_singleton]
    exact hbuilt i
  | merge h h' hm ih ih' =>
    rw [List.flatMap_append]
    exact ih.merge ih' hm

/-- Replicas that were merged, in whatever order, grouping and repetition,
read the newest operation on each key. -/
theorem lww_converges (hbuilt : ∀ i, Built (replica i) (ops i))
    (hd : ∀ i j, ∀ o ∈ ops i, ∀ o' ∈ ops j, o.stamp = o'.stamp → o = o')
    {is : List ι} {m : LwwMap K V} (hm : Merged replica is m) (key : K) :
    (∀ o, Newest key (histories ops is) o → m.get key = o.written)
      ∧ ((∀ o ∈ histories ops is, o.key ≠ key) → m.get key = none)
      ∧ ∀ js m', Merged replica js m' → (∀ i, i ∈ is ↔ i ∈ js) → m'.get key = m.get key := by
  have htells : ∀ {is m}, Merged replica is m → Tells m (histories ops is) := by
    intro is m hm
    refine (hm.built hbuilt).tells fun o ho o' ho' => ?_
    obtain ⟨i, -, hi⟩ := List.mem_flatMap.1 ho
    obtain ⟨j, -, hj⟩ := List.mem_flatMap.1 ho'
    exact hd i j o hi o' hj
  refine ⟨fun o hnew => (htells hm).get_eq hnew,
    fun hno => (htells hm).get_none hno, fun js m' hm' hsame => ?_⟩
  have hmem : ∀ o, o ∈ histories ops js ↔ o ∈ histories ops is := by
    intro o
    unfold histories
    rw [List.mem_flatMap, List.mem_flatMap]
    simp only [hsame]
  by_cases hkey : ∃ o ∈ histories ops is, o.key = key
  · obtain ⟨o, hnew⟩ := exists_newest_on hkey
    have hnew' : Newest key (histories ops js) o :=
      { mem := (hmem o).2 hnew.mem, on := hnew.on
        last := fun o' ho' => hnew.last o' ((hmem o').1 ho') }
    rw [(htells hm).get_eq hnew, (htells hm').get_eq hnew']
  · push Not at hkey
    rw [(htells hm).get_none hkey, (htells hm').get_none fun o ho => hkey o ((hmem o).1 ho)]

end

def stampAt (wall replica : Nat) : Stamp :=
  { hlc := ⟨wall, 0, ⟨replica⟩⟩, replica := ⟨replica⟩ }

def sampleOps : Bool → List (MapOp Nat Nat)
  | false => [.remove 7 (stampAt 2 0), .set 7 1 (stampAt 1 0)]
  | true => [.set 7 3 (stampAt 3 1)]

def sampleReplica : Bool → LwwMap Nat Nat
  | false => (MapOp.remove 7 (stampAt 2 0)).act
      ((MapOp.set 7 1 (stampAt 1 0)).act .new)
  | true => (MapOp.set 7 3 (stampAt 3 1)).act .new

theorem sample_reads_newest : ∃ m, Merged sampleReplica [false, true] m ∧ m.get 7 = some 3 := by
  have hbuilt : ∀ i, Built (sampleReplica i) (sampleOps i) := by
    intro i
    cases i with
    | false =>
      exact .act (.remove 7 (stampAt 2 0)) (.act (.set 7 1 (stampAt 1 0)) .new)
    | true => exact .act (.set 7 3 (stampAt 3 1)) .new
  have hmerged : Merged sampleReplica [false, true]
      ((sampleReplica false).mergeFrom (sampleReplica true).entries
        (sampleReplica true).tombstones) :=
    .merge (.one false) (.one true) ⟨_, _, .refl _, .refl _, rfl⟩
  exact ⟨_, hmerged, (lww_converges sampleOps hbuilt (by decide) hmerged 7).1
    (.set 7 3 (stampAt 3 1)) ⟨by decide, rfl, by decide⟩⟩

end OpenStandards.Crdt

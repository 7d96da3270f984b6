/-
Hash tables as association lists with distinct keys (Mathlib's
`AList`). A hash table's iteration order is unspecified, so the model
never lets a result depend on the order of `entries`: code that walks a
table takes the order of the walk as an argument, any permutation of
`values`.
-/
import Mathlib.Algebra.BigOperators.Group.List.Basic
import Mathlib.Data.List.AList
import Mathlib.Data.List.Induction
import Mathlib.Algebra.Ring.Int.Defs
import Mathlib.Algebra.GroupWithZero.Nat

namespace OpenStandards.Lib

/-- A hash table from `K` to `V`. -/
abbrev Table (K V : Type) := AList (fun _ : K => V)

namespace Table

variable {K V : Type}

def values (m : Table K V) : List V := m.entries.map Sigma.snd

variable [DecidableEq K]

variable {v : V} {key : V → K}

/-- A value is stored exactly when some key looks it up. -/
theorem mem_values {m : Table K V} : v ∈ values m ↔ ∃ k, m.lookup k = some v := by
  unfold values
  constructor
  · intro hv
    obtain ⟨⟨k, w⟩, hmem, rfl⟩ := List.mem_map.1 hv
    exact ⟨k, AList.mem_lookup_iff.2 hmem⟩
  · rintro ⟨k, hk⟩
    exact List.mem_map.2 ⟨⟨k, v⟩, AList.mem_lookup_iff.1 hk, rfl⟩

/-- Looking a key up after an insertion. -/
theorem lookup_insert_eq (m : Table K V) (k k' : K) (v : V) :
    (m.insert k v).lookup k' = if k' = k then some v else m.lookup k' := by
  by_cases h : k' = k
  · subst h
    rw [if_pos rfl]
    exact AList.lookup_insert m
  · rw [if_neg h]
    exact AList.lookup_insert_ne h

def tabulate (keys : List K) (f : K → V) : Table K V :=
  keys.foldl (fun m k => m.insert k (f k)) ∅

theorem lookup_tabulate (keys : List K) (f : K → V) (k : K) :
    (tabulate keys f).lookup k = if k ∈ keys then some (f k) else none := by
  unfold tabulate
  induction keys using List.reverseRecOn with
  | nil => rfl
  | append_singleton keys k' ih =>
    rw [List.foldl_append, List.foldl_cons, List.foldl_nil, lookup_insert_eq, ih]
    by_cases h : k = k'
    · simp [h]
    · simp [h]

/-- Where a value determines its key, no key occurs twice among the
values. -/
theorem nodup_map_values {m : Table K V} {f : V → K} (hf : ∀ k v, m.lookup k = some v → f v = k) :
    ((values m).map f).Nodup := by
  have hkeys : (values m).map f = m.keys := by
    unfold values AList.keys List.keys
    rw [List.map_map]
    refine List.map_congr_left fun p hp => ?_
    exact hf p.1 p.2 (AList.mem_lookup_iff.2 hp)
  rw [hkeys]
  exact m.keys_nodup

-- ==== walks

def OwnKey (step : Table K V → (_ : K) × V → Table K V) : Prop :=
  ∀ m e k, k ≠ e.1 → (step m e).lookup k = m.lookup k

variable {step : Table K V → (_ : K) × V → Table K V}

theorem lookup_foldl_of_not_mem (hown : OwnKey step) {entries : List ((_ : K) × V)} {k : K}
    (hk : k ∉ entries.map Sigma.fst) (m : Table K V) :
    (entries.foldl step m).lookup k = m.lookup k := by
  induction entries generalizing m with
  | nil => rfl
  | cons e entries ih =>
    rw [List.map_cons, List.mem_cons, not_or] at hk
    rw [List.foldl_cons, ih hk.2, hown m e k hk.1]

/-- A walk over distinct keys does at each key what its one step does, if
that step looks at its own key only. -/
theorem lookup_foldl_of_mem (hown : OwnKey step)
    (hlocal : ∀ m m' e, m.lookup e.1 = m'.lookup e.1 →
      (step m e).lookup e.1 = (step m' e).lookup e.1)
    {entries : List ((_ : K) × V)} (hnd : (entries.map Sigma.fst).Nodup)
    {e : (_ : K) × V} (he : e ∈ entries) (m : Table K V) :
    (entries.foldl step m).lookup e.1 = (step m e).lookup e.1 := by
  induction entries generalizing m with
  | nil => cases he
  | cons e' entries ih =>
    rw [List.map_cons, List.nodup_cons] at hnd
    rw [List.foldl_cons]
    rcases List.mem_cons.1 he with heq | he
    · subst heq
      exact lookup_foldl_of_not_mem hown hnd.1 _
    · have hne : e.1 ≠ e'.1 := fun heq =>
        hnd.1 (heq ▸ List.mem_map_of_mem he)
      rw [ih hnd.2 he]
      exact hlocal _ _ e (hown m e' e.1 hne)

/-- The two cases of a walk over a table. -/
theorem lookup_foldl_entries (hown : OwnKey step)
    (hlocal : ∀ m m' e, m.lookup e.1 = m'.lookup e.1 →
      (step m e).lookup e.1 = (step m' e).lookup e.1) (base m : Table K V) (k : K) :
    (m.entries.foldl step base).lookup k
      = match m.lookup k with
        | none => base.lookup k
        | some v => (step base ⟨k, v⟩).lookup k := by
  cases h : m.lookup k with
  | none =>
    exact lookup_foldl_of_not_mem hown (AList.lookup_eq_none.1 h) base
  | some v =>
    exact lookup_foldl_of_mem hown hlocal m.nodupKeys (AList.mem_lookup_iff.1 h) base

-- ==== sums

theorem sum_kerase (k : K) (f : V → Int) (l : List (Sigma fun _ : K => V)) :
    ((l.kerase k).map fun e => f e.2).sum + (l.dlookup k).elim 0 f
      = (l.map fun e => f e.2).sum := by
  induction l with
  | nil => rfl
  | cons e l ih =>
    obtain ⟨k', v⟩ := e
    by_cases h : k = k'
    · subst h
      have hkerase : List.kerase k (⟨k, v⟩ :: l) = l :=
        List.kerase_cons_eq rfl
      rw [hkerase, List.dlookup_cons_eq, List.map_cons, List.sum_cons]
      exact Int.add_comm ..
    · rw [List.kerase_cons_ne h, List.dlookup_cons_ne _ _ h, List.map_cons,
        List.sum_cons, List.map_cons, List.sum_cons, ← ih]
      exact Int.add_assoc ..

/-- Writing a value exchanges it for the one that was there. -/
theorem sum_values_insert (m : Table K V) (k : K) (v : V) (f : V → Int) :
    ((values (m.insert k v)).map f).sum
      = ((values m).map f).sum + f v - (m.lookup k).elim 0 f := by
  have h := sum_kerase k f m.entries
  unfold values
  rw [AList.entries_insert, List.map_cons, List.map_cons, List.sum_cons,
    List.map_map, List.map_map]
  simp only [Function.comp_def]
  unfold AList.lookup
  omega

-- ==== values by own keys

/-- Values under their own keys, a later one in the place of an earlier. -/
def indexBy (key : V → K) (l : List V) : Table K V :=
  l.foldl (fun m v => m.insert (key v) v) ∅

theorem indexBy_concat (key : V → K) (l : List V) (v : V) :
    indexBy key (l ++ [v]) = (indexBy key l).insert (key v) v :=
  List.foldl_append ..

theorem of_lookup_indexBy {l : List V} {k : K}
    (h : (indexBy key l).lookup k = some v) : key v = k ∧ v ∈ l := by
  induction l using List.reverseRecOn with
  | nil => cases h
  | append_singleton l v' ih =>
    rw [indexBy_concat, lookup_insert_eq] at h
    split at h
    case isTrue hk =>
      cases h
      exact ⟨hk.symm, List.mem_append_right _ (List.mem_singleton_self v)⟩
    case isFalse =>
      exact ⟨(ih h).1, List.mem_append_left _ (ih h).2⟩

/-- Where no key occurs twice, every value stays. -/
theorem values_indexBy_perm {l : List V} (hnd : (l.map key).Nodup) :
    (values (indexBy key l)).Perm l := by
  induction l using List.reverseRecOn with
  | nil => exact .refl _
  | append_singleton l v ih =>
    rw [List.map_append, List.nodup_append] at hnd
    obtain ⟨hl, -, hdisjoint⟩ := hnd
    have hnew : key v ∉ (indexBy key l).keys := by
      intro hmem
      obtain ⟨w, hw⟩ := Option.isSome_iff_exists.1 (AList.lookup_isSome.2 hmem)
      obtain ⟨hkey, hw⟩ := of_lookup_indexBy hw
      exact hdisjoint _ (List.mem_map_of_mem hw) (key v) (List.mem_singleton_self _) hkey
    rw [indexBy_concat]
    unfold values
    rw [AList.entries_insert_of_notMem hnew, List.map_cons]
    exact (List.Perm.cons v (ih hl)).trans (List.perm_append_singleton v l).symm

theorem lookup_indexBy {l : List V} (hnd : (l.map key).Nodup) (hv : v ∈ l) :
    (indexBy key l).lookup (key v) = some v := by
  obtain ⟨k, hk⟩ := mem_values.1 ((values_indexBy_perm hnd).mem_iff.2 hv)
  rw [(of_lookup_indexBy hk).1]
  exact hk

-- ==== groups by key

/-- `entry(key).or_default().push(v)`: a value joins its group. -/
def push (key : V → K) (m : Table K (List V)) (v : V) : Table K (List V) :=
  m.insert (key v) ((m.lookup (key v)).getD [] ++ [v])

/-- Values grouped under their keys, each group in the order of the
list. -/
def groupBy (key : V → K) (l : List V) : Table K (List V) :=
  l.foldl (push key) ∅

theorem getD_lookup_groupBy (key : V → K) (l : List V) (k : K) :
    ((groupBy key l).lookup k).getD [] = l.filter fun v => key v = k := by
  unfold groupBy
  induction l using List.reverseRecOn with
  | nil => rfl
  | append_singleton l v ih =>
    rw [List.foldl_append, List.foldl_cons, List.foldl_nil, push,
      lookup_insert_eq, List.filter_append]
    by_cases h : k = key v
    · subst h
      simp [ih]
    · rw [if_neg h, ih]
      simp [Ne.symm h]

end Table

end OpenStandards.Lib

/-
Finite maps as association lists, for types that recurse through a map:
a recursive occurrence under a list of pairs is accepted where one under
a map type with an invariant is not. Writing removes the key first, so
no key is ever written twice, and reading takes the first pair.
-/
namespace OpenStandards.Lib.Assoc

variable {K V : Type} [DecidableEq K]

/-- The value under a key. -/
def get : List (K × V) → K → Option V
  | [], _ => none
  | (k', v) :: l, k => if k = k' then some v else get l k

/-- Remove a key. -/
def erase : List (K × V) → K → List (K × V)
  | [], _ => []
  | (k', v) :: l, k => if k = k' then erase l k else (k', v) :: erase l k

/-- Write a key. -/
def set (l : List (K × V)) (k : K) (v : V) : List (K × V) :=
  (k, v) :: erase l k

@[simp]
theorem get_nil (k : K) : get ([] : List (K × V)) k = none := rfl

theorem get_erase (l : List (K × V)) (k k' : K) :
    get (erase l k) k' = if k' = k then none else get l k' := by
  induction l with
  | nil =>
    show none = if k' = k then none else none
    rw [ite_self]
  | cons p l ih =>
    obtain ⟨k₀, v⟩ := p
    show get (if k = k₀ then erase l k else (k₀, v) :: erase l k) k'
      = if k' = k then none else if k' = k₀ then some v else get l k'
    by_cases h : k = k₀
    · subst h
      rw [if_pos rfl, ih]
      by_cases h' : k' = k
      · rw [if_pos h', if_pos h']
      · rw [if_neg h', if_neg h', if_neg h']
    · rw [if_neg h]
      show (if k' = k₀ then some v else get (erase l k) k') = _
      rw [ih]
      by_cases h' : k' = k
      · rw [if_pos h', if_pos h', if_neg (h' ▸ h)]
      · rw [if_neg h', if_neg h']

theorem get_set (l : List (K × V)) (k k' : K) (v : V) :
    get (set l k v) k' = if k' = k then some v else get l k' := by
  show (if k' = k then some v else get (erase l k) k') = _
  rw [get_erase]
  by_cases h : k' = k
  · rw [if_pos h, if_pos h]
  · rw [if_neg h, if_neg h, if_neg h]

@[simp]
theorem get_set_self (l : List (K × V)) (k : K) (v : V) : get (set l k v) k = some v := by
  rw [get_set, if_pos rfl]

variable {k : K} {l : List (K × V)} {p : K × V}

theorem get_set_of_ne (l : List (K × V)) {k' : K} (v : V) (h : k' ≠ k) :
    get (set l k v) k' = get l k' := by
  rw [get_set, if_neg h]

@[simp]
theorem get_erase_self (l : List (K × V)) (k : K) : get (erase l k) k = none := by
  rw [get_erase, if_pos rfl]

theorem get_erase_of_ne (l : List (K × V)) {k' : K} (h : k' ≠ k) :
    get (erase l k) k' = get l k' := by
  rw [get_erase, if_neg h]

theorem mem_of_get {v : V} (h : get l k = some v) : (k, v) ∈ l := by
  induction l with
  | nil => cases h
  | cons p l ih =>
    change (if k = p.1 then some p.2 else get l k) = some v at h
    by_cases hk : k = p.1
    · rw [if_pos hk] at h
      rw [hk, ← Option.some.inj h]
      exact List.mem_cons_self ..
    · rw [if_neg hk] at h
      exact List.mem_cons_of_mem _ (ih h)

theorem mem_of_mem_erase (h : p ∈ erase l k) : p ∈ l := by
  induction l with
  | nil => exact h
  | cons q l ih =>
    change p ∈ (if k = q.1 then erase l k
      else q :: erase l k) at h
    by_cases hk : k = q.1
    · rw [if_pos hk] at h
      exact List.mem_cons_of_mem _ (ih h)
    · rw [if_neg hk] at h
      rcases List.mem_cons.1 h with rfl | h
      · exact List.mem_cons_self ..
      · exact List.mem_cons_of_mem _ (ih h)

theorem ne_of_mem_erase (h : p ∈ erase l k) : p.1 ≠ k := by
  induction l with
  | nil => cases h
  | cons q l ih =>
    change p ∈ (if k = q.1 then erase l k
      else q :: erase l k) at h
    by_cases hk : k = q.1
    · rw [if_pos hk] at h
      exact ih h
    · rw [if_neg hk] at h
      rcases List.mem_cons.1 h with rfl | h
      · exact fun heq => hk heq.symm
      · exact ih h

theorem eq_or_mem_of_mem_set {v : V} (h : p ∈ set l k v) : p = (k, v) ∨ p ∈ l :=
  (List.mem_cons.1 h).imp id mem_of_mem_erase

end OpenStandards.Lib.Assoc

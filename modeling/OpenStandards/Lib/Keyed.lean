/-
Stores with an idempotency index: rows under a key, and for the rows that
carry a caller's token an index from the token to the key.

A submission whose token is indexed is compared with the row the index
leads to and never writes. Every other submission is put in under its own
key, over whatever stands there. So a store that also moves its rows on
answers a resubmission rightly for as long as nothing else has been put in
over the row (`resubmits_run_iff`).
-/
import OpenStandards.Lib.Run
import OpenStandards.Lib.Table

namespace OpenStandards.Lib

/-- Rows under keys, and an index from tokens to keys. -/
structure Keyed (K V : Type) where
  rows : Table K V
  index : Table String K

/-- How the rows of a store are keyed, indexed and compared, and how it
refuses. -/
structure Scheme (K V E : Type) where
  key : V → K
  token : V → Option String
  same : V → V → Bool
  mismatch : String → E
  dangling : K → E

/-- The comparison is an equivalence that looks at the token. -/
structure Scheme.Lawful {K V E : Type} (c : Scheme K V E) : Prop where
  refl : ∀ v, c.same v v
  symm : ∀ {v w}, c.same v w → c.same w v
  trans : ∀ {u v w}, c.same u v → c.same v w → c.same u w
  token_eq : ∀ {v w}, c.same v w → c.token v = c.token w

namespace Keyed

variable {K V : Type} [DecidableEq K]

def empty : Keyed K V := { rows := ∅, index := ∅ }

def replace (s : Keyed K V) (k : K) (v : V) : Keyed K V :=
  { s with rows := s.rows.insert k v }

theorem rows_replace (s : Keyed K V) (k k' : K) (v : V) :
    (s.replace k v).rows.lookup k' = if k' = k then some v else s.rows.lookup k' :=
  Table.lookup_insert_eq ..

def Indexed (x : String) (k : K) (s : Keyed K V) : Prop :=
  s.index.lookup x = some k ∧ ∃ live, s.rows.lookup k = some live

theorem Indexed.replace {x : String} {k : K} {s : Keyed K V}
    (h : Indexed x k s) (k' : K) (v : V) : Indexed x k (s.replace k' v) := by
  refine ⟨h.1, ?_⟩
  rw [rows_replace]
  split
  · exact ⟨v, rfl⟩
  · exact h.2

end Keyed

namespace Scheme

variable {K V E ι : Type} [DecidableEq K] (c : Scheme K V E)

-- ==== submissions

def submit (s : Keyed K V) (v : V) : Keyed K V × Except E K :=
  let inserted (s : Keyed K V) : Keyed K V :=
    { s with rows := s.rows.insert (c.key v) v }
  match c.token v with
  | none => (inserted s, .ok (c.key v))
  | some x =>
    match s.index.lookup x with
    | some k =>
      match s.rows.lookup k with
      | some live =>
        if c.same live v then (s, .ok k) else (s, .error (c.mismatch x))
      | none => (s, .error (c.dangling k))
    | none =>
      (inserted { s with index := s.index.insert x (c.key v) }, .ok (c.key v))

def knows (s : Keyed K V) (v : V) : Bool :=
  match c.token v with
  | none => false
  | some x => (s.index.lookup x).isSome

def put (s : Keyed K V) (v : V) : Keyed K V :=
  { rows := s.rows.insert (c.key v) v
    index := match c.token v with
      | none => s.index
      | some x => s.index.insert x (c.key v) }

theorem rows_put (s : Keyed K V) (v : V) (k : K) :
    (c.put s v).rows.lookup k = if k = c.key v then some v else s.rows.lookup k :=
  Table.lookup_insert_eq ..

variable {s s' : Keyed K V} {v : V} {x : String} {k : K} {o : Option V}

omit [DecidableEq K] in
theorem knows_of_token (hx : c.token v = some x)
    (hix : s.index.lookup x = some k) : c.knows s v = true := by
  simp [knows, hx, hix]

/-- A submission writes exactly where the token is not known. -/
theorem submit_store (s : Keyed K V) (v : V) :
    (c.submit s v).1 = if c.knows s v then s else c.put s v := by
  unfold submit knows put
  cases c.token v with
  | none => rfl
  | some x =>
    simp only
    cases s.index.lookup x with
    | none => rfl
    | some k =>
      simp only [Option.isSome_some, if_true]
      cases s.rows.lookup k with
      | none => rfl
      | some live =>
        simp only
        split
        · rfl
        · rfl

theorem submit_indexed {live : V} (hix : s.index.lookup x = some k)
    (hlive : s.rows.lookup k = some live) (hx : c.token v = some x) :
    c.submit s v = if c.same live v then (s, .ok k) else (s, .error (c.mismatch x)) := by
  unfold submit
  simp only [hx, hix, hlive]

theorem submit_first (hx : c.token v = some x)
    (hnew : s.index.lookup x = none) : (c.submit s v).1 = c.put s v := by
  rw [submit_store, if_neg]
  simp [knows, hx, hnew]

theorem indexed_put_self (hx : c.token v = some x) : Keyed.Indexed x (c.key v) (c.put s v) := by
  unfold Keyed.Indexed put
  simp only [hx]
  exact ⟨AList.lookup_insert _, v, AList.lookup_insert _⟩

/-- Rows put in under unknown tokens leave the index entries there. -/
theorem indexed_put (h : Keyed.Indexed x k s) (hnew : c.knows s v = false) :
    Keyed.Indexed x k (c.put s v) := by
  refine ⟨?_, ?_⟩
  · cases hx : c.token v with
    | none => simp [put, hx, h.1]
    | some x' =>
      have hne : x ≠ x' := by
        rintro rfl
        simp [c.knows_of_token hx h.1] at hnew
      simp only [put, hx]
      rw [Table.lookup_insert_eq, if_neg hne]
      exact h.1
  · rw [rows_put]
    split
    · exact ⟨v, rfl⟩
    · exact h.2

-- ==== resubmissions

/-- The row under the key of `v` still compares equal to `v`. -/
def Keeps (v : V) (s : Keyed K V) : Prop :=
  ∃ live, s.rows.lookup (c.key v) = some live ∧ c.same live v

/-- Resubmitting `v` answers its key, resubmitting another row under its
token is refused, and neither changes the store. -/
structure Resubmits (v : V) (x : String) (s : Keyed K V) : Prop where
  same : ∀ w, c.same v w → c.submit s w = (s, .ok (c.key v))
  other : ∀ w, c.token w = some x → ¬ c.same v w → c.submit s w = (s, .error (c.mismatch x))

variable {c}

theorem resubmits_iff_keeps (hc : c.Lawful) (hx : c.token v = some x)
    (hix : Keyed.Indexed x (c.key v) s) :
    c.Resubmits v x s ↔ c.Keeps v s := by
  obtain ⟨hix, live, hlive⟩ := hix
  constructor
  · intro h
    have hv := h.same v (hc.refl v)
    rw [c.submit_indexed hix hlive hx] at hv
    by_cases hsame : c.same live v
    · exact ⟨live, hlive, hsame⟩
    · rw [if_neg hsame] at hv
      cases hv
  · rintro ⟨live', hlive', hsame⟩
    rw [hlive] at hlive'
    cases hlive'
    refine ⟨fun w hw => ?_, fun w hxw hw => ?_⟩
    · have hxw : c.token w = some x := (hc.token_eq hw).symm.trans hx
      rw [c.submit_indexed hix hlive hxw, if_pos (hc.trans hsame hw)]
    · rw [c.submit_indexed hix hlive hxw, if_neg]
      intro hlw
      exact hw (hc.trans (hc.symm hsame) hlw)

-- ==== runs

/-- What a step that submits `sub` (or nothing) can do to the store. A row
that is moved on is related to what it was by `R`. -/
inductive Effect (c : Scheme K V E) (R : V → V → Prop) (s : Keyed K V)
    (sub : Option V) : Keyed K V → Prop
  | idle (hsub : ∀ v, sub = some v → c.knows s v) : Effect c R s sub s
  | put (v : V) (hsub : sub = some v) (hnew : c.knows s v = false) :
      Effect c R s sub (c.put s v)
  | replace (k : K) (live staged : V) (hsub : sub = none)
      (hlive : s.rows.lookup k = some live) (hR : R live staged) :
      Effect c R s sub (s.replace k staged)

variable {R : V → V → Prop} {step : Keyed K V → ι → Keyed K V}
  {sub : ι → Option V}

theorem effect_submit (s : Keyed K V) (v : V) : c.Effect R s (some v) (c.submit s v).1 := by
  rw [submit_store]
  cases hknown : c.knows s v with
  | true =>
    rw [if_pos rfl]
    refine .idle fun w hw => ?_
    cases hw
    exact hknown
  | false =>
    rw [if_neg Bool.false_ne_true]
    exact .put v rfl hknown

theorem Effect.indexed (heffect : c.Effect R s o s') (h : Keyed.Indexed x k s) :
    Keyed.Indexed x k s' := by
  cases heffect with
  | idle hsub => exact h
  | put v hsub hnew => exact c.indexed_put h hnew
  | replace k' live staged hsub hlive hR => exact h.replace k' staged

/-- The step puts no row in under the key. -/
def Spares (c : Scheme K V E) (k : K) (s : Keyed K V) (sub : Option V) : Prop :=
  ∀ v, sub = some v → c.key v = k → c.knows s v

/-- A row with another token stands under the key of `v`. -/
def Ousted (c : Scheme K V E) (v : V) (s : Keyed K V) : Prop :=
  ∃ live, s.rows.lookup (c.key v) = some live ∧ c.token live ≠ c.token v

theorem ousted_put {w : V} (hx : c.token v = some x)
    (hix : Keyed.Indexed x (c.key v) s) (hnew : c.knows s w = false)
    (hkey : c.key w = c.key v) : c.Ousted v (c.put s w) := by
  refine ⟨w, ?_, fun heq => ?_⟩
  · rw [rows_put, if_pos hkey.symm]
  · rw [c.knows_of_token (heq.trans hx) hix.1] at hnew
    cases hnew

theorem Effect.keeps (hc : c.Lawful) (hR : ∀ live staged, R live staged → c.same staged live)
    (heffect : c.Effect R s o s') (hspares : c.Spares (c.key v) s o)
    (h : c.Keeps v s) : c.Keeps v s' := by
  obtain ⟨live, hlive, hsame⟩ := h
  cases heffect with
  | idle hsub => exact ⟨live, hlive, hsame⟩
  | put w hsub hnew =>
    have hne : c.key v ≠ c.key w := by
      intro hkey
      simp [hspares w hsub hkey.symm] at hnew
    exact ⟨live, by rw [rows_put, if_neg hne, hlive], hsame⟩
  | replace k live' staged hsub hlive' hR' =>
    unfold Keeps
    simp only [Keyed.rows_replace]
    by_cases hk : c.key v = k
    · rw [if_pos hk]
      rw [← hk, hlive] at hlive'
      cases hlive'
      exact ⟨staged, rfl, hc.trans (hR live staged hR') hsame⟩
    · rw [if_neg hk]
      exact ⟨live, hlive, hsame⟩

theorem Effect.ousted_of_not_spares (heffect : c.Effect R s o s')
    (hx : c.token v = some x) (hix : Keyed.Indexed x (c.key v) s)
    (hnot : ¬ c.Spares (c.key v) s o) : c.Ousted v s' := by
  cases heffect with
  | idle hsub => exact absurd (fun w hw _ => hsub w hw) hnot
  | replace k live staged hsub hlive hR =>
    exact absurd (by simp [Spares, hsub]) hnot
  | put w hsub hnew =>
    have hkey : c.key w = c.key v := by
      by_contra hne
      refine hnot fun w' hw' hkey' => ?_
      rw [hsub] at hw'
      cases hw'
      exact absurd hkey' hne
    exact ousted_put hx hix hnew hkey

theorem Effect.ousted (hc : c.Lawful) (hR : ∀ live staged, R live staged → c.same staged live)
    (heffect : c.Effect R s o s') (hx : c.token v = some x)
    (hix : Keyed.Indexed x (c.key v) s) (h : c.Ousted v s) :
    c.Ousted v s' := by
  obtain ⟨live, hlive, hne⟩ := h
  cases heffect with
  | idle hsub => exact ⟨live, hlive, hne⟩
  | put w hsub hnew =>
    by_cases hkey : c.key w = c.key v
    · exact ousted_put hx hix hnew hkey
    · refine ⟨live, ?_, hne⟩
      rw [rows_put, if_neg (Ne.symm hkey), hlive]
  | replace k live' staged hsub hlive' hR' =>
    unfold Ousted
    simp only [Keyed.rows_replace]
    by_cases hk : c.key v = k
    · rw [if_pos hk]
      rw [← hk, hlive] at hlive'
      cases hlive'
      refine ⟨staged, rfl, ?_⟩
      rw [hc.token_eq (hR live staged hR')]
      exact hne
    · rw [if_neg hk]
      exact ⟨live, hlive, hne⟩

theorem Ousted.not_keeps (hc : c.Lawful) (h : c.Ousted v s) : ¬ c.Keeps v s := by
  obtain ⟨live, hlive, hne⟩ := h
  rintro ⟨live', hlive', hsame⟩
  rw [hlive] at hlive'
  cases hlive'
  exact hne (hc.token_eq hsame)

variable (hc : c.Lawful)
  (hR : ∀ live staged, R live staged → c.same staged live)
  (heffect : ∀ s i, c.Effect R s (sub i) (step s i))

include heffect in
theorem indexed_run (h : Keyed.Indexed x k s) (ops : List ι) :
    Keyed.Indexed x k (run step s ops) :=
  run_invariant (fun s i hs _ => (heffect s i).indexed hs) h (along_trivial s ops)

include hc hR heffect in
/-- A row is kept by a run exactly where no step puts another in over
it. -/
theorem keeps_run_iff (hx : c.token v = some x) {ops : List ι}
    (hix : Keyed.Indexed x (c.key v) s) (h : c.Keeps v s) :
    c.Keeps v (run step s ops)
      ↔ Along step (fun s i => c.Spares (c.key v) s (sub i)) s ops := by
  induction ops generalizing s with
  | nil => exact iff_of_true h trivial
  | cons i ops ih =>
    have hix' := (heffect s i).indexed hix
    by_cases hspares : c.Spares (c.key v) s (sub i)
    · have hkeeps := (heffect s i).keeps hc hR hspares h
      exact (ih hix' hkeeps).trans
        ⟨fun ht => ⟨hspares, ht⟩, fun ht => ht.2⟩
    · have hout : c.Ousted v (run step (step s i) ops) := by
        refine (run_invariant
          (I := fun s => Keyed.Indexed x (c.key v) s ∧ c.Ousted v s)
          (fun s i hs _ => ?_) ⟨hix', ?_⟩ (along_trivial _ ops)).2
        · exact ⟨(heffect s i).indexed hs.1, (heffect s i).ousted hc hR hx hs.1 hs.2⟩
        · exact (heffect s i).ousted_of_not_spares hx hix hspares
      exact iff_of_false (hout.not_keeps hc) fun ht => hspares ht.1

include hc hR heffect in
/-- After the first submission under a token, resubmissions are answered
rightly exactly while no step has put another row in over it. -/
theorem resubmits_run_iff (hx : c.token v = some x) (ops : List ι) :
    c.Resubmits v x (run step (c.put s v) ops)
      ↔ Along step (fun s i => c.Spares (c.key v) s (sub i)) (c.put s v)
          ops := by
  have hix := c.indexed_put_self (s := s) hx
  rw [resubmits_iff_keeps hc hx (indexed_run heffect hix ops)]
  refine keeps_run_iff hc hR heffect hx hix ⟨v, ?_, hc.refl v⟩
  rw [rows_put, if_pos rfl]

end Scheme

end OpenStandards.Lib

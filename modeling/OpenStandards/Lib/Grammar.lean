/-
Context-free grammars, what they derive, and Earley's charts.

A chart is a system of four rules for items: a production, how much of it
has been read, and where the reading began. Every item at a place is there
because the part before its dot derives what was read since its beginning
(`Chart.sound`), and a derivation of what comes next takes an item over it
(`Chart.advance`), in whatever order the items are found. The beginning of
an item is itself the end of something the start symbol can begin with
(`Viable`), so where every symbol derives something, what was read so far
can be completed (`Chart.completable`).
-/
import Mathlib.Data.List.Basic

namespace OpenStandards.Lib

/-- A terminal, which reads a letter, or a non-terminal. -/
inductive Symbol (τ ν : Type) where
  | term (c : τ)
  | nonTerm (name : ν)
deriving DecidableEq

structure Production (τ ν : Type) where
  lhs : ν
  rhs : List (Symbol τ ν)

variable {τ ν α : Type} (reads : τ → α → Prop)
  (rules : List (Production τ ν))

/-- The symbols derive the word. -/
inductive Derives : List (Symbol τ ν) → List α → Prop
  | nil : Derives [] []
  | term {c : τ} {a : α} {rest : List (Symbol τ ν)} {w : List α} :
      reads c a → Derives rest w → Derives (.term c :: rest) (a :: w)
  | nonTerm {p : Production τ ν} {rest : List (Symbol τ ν)}
      {u v : List α} :
      p ∈ rules → Derives p.rhs u → Derives rest v → Derives (.nonTerm p.lhs :: rest) (u ++ v)

/-- The start symbol derives something that begins with the word and goes
on with the non-terminal. -/
inductive Viable (start : ν) : ν → List α → Prop
  | start : Viable start start []
  | part {p : Production τ ν} {d : Nat} {name : ν} {u v : List α} :
      Viable start p.lhs u → p ∈ rules →
        p.rhs[d]? = some (.nonTerm name) →
        Derives reads rules (p.rhs.take d) v → Viable start name (u ++ v)

/-- The items of a word: at place `i`, production number `r` has been read
up to its symbol `d`, from place `j`. -/
inductive Chart (start : ν) (w : List α) : Nat → Nat → Nat → Nat → Prop
  | init {r : Nat} {p : Production τ ν} :
      rules[r]? = some p → p.lhs = start → Chart start w 0 r 0 0
  | predict {i r d j q : Nat} {p p' : Production τ ν} :
      Chart start w i r d j → rules[r]? = some p →
        rules[q]? = some p' → p.rhs[d]? = some (.nonTerm p'.lhs) →
        Chart start w i q 0 i
  | scan {i r d j : Nat} {p : Production τ ν} {c : τ} {a : α} :
      Chart start w i r d j → rules[r]? = some p →
        p.rhs[d]? = some (.term c) → w[i]? = some a → reads c a →
        Chart start w (i + 1) r (d + 1) j
  | complete {i r d j q k : Nat} {p p' : Production τ ν} :
      rules[q]? = some p' → Chart start w i q p'.rhs.length k →
        Chart start w k r d j → rules[r]? = some p →
        p.rhs[d]? = some (.nonTerm p'.lhs) →
        Chart start w i r (d + 1) j

variable {reads} {rules}

variable {u : List α} {j i d r : Nat} {syms : List (Symbol τ ν)}

theorem Derives.append {xs ys : List (Symbol τ ν)} {v : List α}
    (hx : Derives reads rules xs u) (hy : Derives reads rules ys v) :
    Derives reads rules (xs ++ ys) (u ++ v) := by
  induction hx with
  | nil => exact hy
  | term hread _ ih => exact .term hread ih
  | nonTerm hp hrhs _ _ ih =>
    rw [List.append_assoc]
    exact .nonTerm hp hrhs ih

theorem Derives.single {p : Production τ ν} (hp : p ∈ rules) (h : Derives reads rules p.rhs u) :
    Derives reads rules [.nonTerm p.lhs] u := by
  have hsingle := Derives.nonTerm hp h .nil
  rwa [List.append_nil] at hsingle

-- ==== stretches

/-- The letters from place `j` to place `i`. -/
def stretch (w : List α) (j i : Nat) : List α := (w.drop j).take (i - j)

theorem stretch_self (w : List α) (i : Nat) : stretch w i i = [] := by
  unfold stretch
  rw [Nat.sub_self, List.take_zero]

theorem stretch_zero (w : List α) (i : Nat) : stretch w 0 i = w.take i := rfl

theorem stretch_append {k : Nat} (w : List α) (hjk : j ≤ k) (hki : k ≤ i) :
    stretch w j k ++ stretch w k i = stretch w j i := by
  unfold stretch
  rw [show i - j = (k - j) + (i - k) by omega, List.take_add,
    List.drop_drop, Nat.add_sub_cancel' hjk]

theorem stretch_succ {w : List α} {a : α} (h : w[i]? = some a) : stretch w i (i + 1) = [a] := by
  obtain ⟨hi, rfl⟩ := List.getElem?_eq_some_iff.1 h
  unfold stretch
  rw [Nat.add_sub_cancel_left, List.drop_eq_getElem_cons hi]
  rfl

-- ==== soundness

variable {start : ν} {w : List α}

theorem derives_take_succ {s : Symbol τ ν} {v : List α}
    (hs : syms[d]? = some s) (hu : Derives reads rules (syms.take d) u)
    (hv : Derives reads rules [s] v) :
    Derives reads rules (syms.take (d + 1)) (u ++ v) := by
  rw [List.take_add_one, hs]
  exact hu.append hv

/-- What an item says about the word. -/
structure Chart.Says (reads : τ → α → Prop) (rules : List (Production τ ν))
    (start : ν) (w : List α) (i r d j : Nat) : Prop where
  order : j ≤ i
  inside : i ≤ w.length
  reading : ∃ p, rules[r]? = some p ∧ d ≤ p.rhs.length
    ∧ Derives reads rules (p.rhs.take d) (stretch w j i)
    ∧ Viable reads rules start p.lhs (w.take j)

theorem Chart.sound (h : Chart reads rules start w i r d j) :
    Chart.Says reads rules start w i r d j := by
  induction h with
  | @init r p hp hlhs =>
    refine ⟨Nat.le_refl 0, Nat.zero_le _, p, hp, Nat.zero_le _, .nil, ?_⟩
    rw [hlhs]
    exact .start
  | @predict i r d j q p p' _ hp hp' hnext ih =>
    obtain ⟨hji, hi, p₀, hp₀, -, hderives, hviable⟩ := ih
    cases hp.symm.trans hp₀
    refine ⟨Nat.le_refl i, hi, p', hp', Nat.zero_le _, ?_, ?_⟩
    · rw [stretch_self]
      exact .nil
    · have hpart := hviable.part (List.mem_of_getElem? hp) hnext hderives
      rwa [← stretch_zero, stretch_append w (Nat.zero_le j) hji] at hpart
  | @scan i r d j p c a _ hp hnext ha hread ih =>
    obtain ⟨hji, -, p₀, hp₀, -, hderives, hviable⟩ := ih
    cases hp.symm.trans hp₀
    have hi := (List.getElem?_eq_some_iff.1 ha).1
    have hd := (List.getElem?_eq_some_iff.1 hnext).1
    refine ⟨Nat.le_succ_of_le hji, hi, p, hp, hd, ?_, hviable⟩
    rw [← stretch_append w hji (Nat.le_succ i), stretch_succ ha]
    exact derives_take_succ hnext hderives (.term hread .nil)
  | @complete i r d j q k p p' hp' _ _ hp hnext ih ih' =>
    obtain ⟨hki, hi, p₁, hp₁, -, hwhole, -⟩ := ih
    obtain ⟨hjk, -, p₀, hp₀, -, hderives, hviable⟩ := ih'
    cases hp.symm.trans hp₀
    cases hp'.symm.trans hp₁
    have hd := (List.getElem?_eq_some_iff.1 hnext).1
    refine ⟨Nat.le_trans hjk hki, hi, p, hp, hd, ?_, hviable⟩
    rw [List.take_length] at hwhole
    rw [← stretch_append w hjk hki]
    exact derives_take_succ hnext hderives (.single (List.mem_of_getElem? hp') hwhole)

-- ==== completeness

theorem getElem?_of_drop {β : Type} {xs ys : List β} {x : β}
    (h : xs.drop d = x :: ys) : xs[d]? = some x ∧ xs.drop (d + 1) = ys := by
  refine ⟨?_, ?_⟩
  · rw [← List.head?_drop, h]
    rfl
  · rw [← List.drop_drop, h]
    rfl

/-- A derivation of what comes next takes an item over its symbols. -/
theorem Chart.advance (h : Derives reads rules syms u) {p : Production τ ν}
    {rest : List (Symbol τ ν)} (hitem : Chart reads rules start w i r d j)
    (hp : rules[r]? = some p) (hdot : p.rhs.drop d = syms ++ rest)
    (hnext : ∃ z, w.drop i = u ++ z) :
    Chart reads rules start w (i + u.length) r (d + syms.length) j := by
  induction h generalizing i r d j p rest with
  | nil => exact hitem
  | @term c a syms u hread _ ih =>
    obtain ⟨z, hz⟩ := hnext
    obtain ⟨hsym, hdot'⟩ := getElem?_of_drop hdot
    obtain ⟨ha, hz'⟩ := getElem?_of_drop hz
    have hscan := hitem.scan hp hsym ha hread
    have hrest := ih hscan hp hdot' ⟨z, hz'⟩
    rw [List.length_cons, List.length_cons,
      show i + (u.length + 1) = i + 1 + u.length by omega,
      show d + (syms.length + 1) = d + 1 + syms.length by omega]
    exact hrest
  | @nonTerm q syms u v hq hrhs _ ih ih' =>
    obtain ⟨z, hz⟩ := hnext
    obtain ⟨hsym, hdot'⟩ := getElem?_of_drop hdot
    obtain ⟨n, hn⟩ := List.mem_iff_getElem?.1 hq
    have hpredict := hitem.predict hp hn hsym
    have hall : q.rhs.drop 0 = q.rhs ++ [] := by
      rw [List.drop_zero, List.append_nil]
    have hwhole := ih hpredict hn hall
      ⟨v ++ z, by rw [hz, List.append_assoc]⟩
    rw [Nat.zero_add] at hwhole
    have hcomplete := Chart.complete hn hwhole hitem hp hsym
    have hrest := ih' hcomplete hp hdot' ⟨z, ?_⟩
    · rw [List.length_cons, List.length_append,
        show i + (u.length + v.length) = i + u.length + v.length by omega,
        show d + (syms.length + 1) = d + 1 + syms.length by omega]
      exact hrest
    · rw [← List.drop_drop, hz, List.append_assoc, List.drop_left]

/-- Some production of the start symbol has been read from one end of the
word to the other when the start symbol derives it. -/
theorem chart_iff_derives :
    (∃ r p, rules[r]? = some p ∧ p.lhs = start
        ∧ Chart reads rules start w w.length r p.rhs.length 0)
      ↔ Derives reads rules [.nonTerm start] w := by
  constructor
  · rintro ⟨r, p, hp, rfl, hitem⟩
    obtain ⟨-, -, p₀, hp₀, -, hderives, -⟩ := hitem.sound
    cases hp.symm.trans hp₀
    rw [List.take_length, stretch_zero, List.take_length] at hderives
    exact .single (List.mem_of_getElem? hp) hderives
  · intro h
    cases h with
    | @nonTerm p _ u v hp hrhs hnil =>
      cases hnil
      rw [List.append_nil]
      obtain ⟨r, hr⟩ := List.mem_iff_getElem?.1 hp
      refine ⟨r, p, hr, rfl, ?_⟩
      have hinit : Chart reads rules p.lhs u 0 r 0 0 := .init hr rfl
      have hall : p.rhs.drop 0 = p.rhs ++ [] := by
        rw [List.drop_zero, List.append_nil]
      have hwhole := hinit.advance hrhs hr hall
        ⟨[], by rw [List.drop_zero, List.append_nil]⟩
      rwa [Nat.zero_add, Nat.zero_add] at hwhole

-- ==== places

/-- The items at a place are there because some item was taken over the
letter before it. -/
theorem Chart.scanned (h : Chart reads rules start w (i + 1) r d j) :
    ∃ r d j p c a, Chart reads rules start w i r d j
      ∧ rules[r]? = some p ∧ p.rhs[d]? = some (.term c)
      ∧ w[i]? = some a ∧ reads c a := by
  generalize hn : i + 1 = n at h
  induction h with
  | init => cases hn
  | predict _ _ _ _ ih => exact ih hn
  | scan hitem hp hnext ha hread _ =>
    cases hn
    exact ⟨_, _, _, _, _, _, hitem, hp, hnext, ha, hread⟩
  | complete _ _ _ _ _ ih _ => exact ih hn

/-- So there are items at every place before. -/
theorem Chart.exists_of_le {i' : Nat} (h : Chart reads rules start w i r d j)
    (hle : i' ≤ i) : ∃ r d j, Chart reads rules start w i' r d j := by
  induction i generalizing r d j with
  | zero =>
    rw [Nat.le_zero.1 hle]
    exact ⟨r, d, j, h⟩
  | succ i ih =>
    rcases Nat.lt_or_ge i' (i + 1) with hlt | hge
    · obtain ⟨r', d', j', -, -, -, hbefore, -⟩ := h.scanned
      exact ih hbefore (Nat.le_of_lt_succ hlt)
    · rw [Nat.le_antisymm hle hge]
      exact ⟨r, d, j, h⟩

/-- The items at a place depend on the letters before it. -/
theorem Chart.congr {w' : List α} (h : Chart reads rules start w i r d j)
    (hsame : ∀ k < i, w'[k]? = w[k]?) :
    Chart reads rules start w' i r d j := by
  induction h with
  | init hp hlhs => exact .init hp hlhs
  | predict _ hp hp' hnext ih => exact .predict (ih hsame) hp hp' hnext
  | @scan i r d j p c a _ hp hnext ha hread ih =>
    refine .scan (ih fun k hk => hsame k (Nat.lt_succ_of_lt hk)) hp hnext
      ?_ hread
    rw [hsame i (Nat.lt_succ_self i), ha]
  | complete hp' hwhole _ hp hnext ih ih' =>
    have hle := hwhole.sound.order
    exact .complete hp' (ih hsame)
      (ih' fun k hk => hsame k (Nat.lt_of_lt_of_le hk hle)) hp hnext

-- ==== completions

def Productive (reads : τ → α → Prop) (rules : List (Production τ ν)) : Prop :=
  ∀ p ∈ rules, ∀ s ∈ p.rhs, ∃ u, Derives reads rules [s] u

theorem exists_derives (h : ∀ s ∈ syms, ∃ u, Derives reads rules [s] u) :
    ∃ u, Derives reads rules syms u := by
  induction syms with
  | nil => exact ⟨[], .nil⟩
  | cons s syms ih =>
    obtain ⟨u, hu⟩ := h s List.mem_cons_self
    obtain ⟨v, hv⟩ := ih fun s' hs' => h s' (List.mem_cons_of_mem _ hs')
    exact ⟨u ++ v, hu.append hv⟩

theorem Viable.completable {name : ν} {x : List α}
    (hproductive : Productive reads rules) (h : Viable reads rules start name u)
    (hx : Derives reads rules [.nonTerm name] x) :
    ∃ z, Derives reads rules [.nonTerm start] (u ++ (x ++ z)) := by
  induction h generalizing x with
  | start => exact ⟨[], by rwa [List.append_nil]⟩
  | @part p d name u v _ hp hnext hderives ih =>
    obtain ⟨z₁, hz₁⟩ := exists_derives fun s hs =>
      hproductive p hp s (List.mem_of_mem_drop (i := d + 1) hs)
    have hrhs := (derives_take_succ hnext hderives hx).append hz₁
    rw [List.take_append_drop] at hrhs
    obtain ⟨z, hz⟩ := ih (.single hp hrhs)
    refine ⟨z₁ ++ z, ?_⟩
    simpa only [List.append_assoc] using hz

/-- Where every symbol derives something, what was read up to an item can
be completed. -/
theorem Chart.completable (hproductive : Productive reads rules)
    (h : Chart reads rules start w i r d j) :
    ∃ z, Derives reads rules [.nonTerm start] (w.take i ++ z) := by
  obtain ⟨hji, -, p, hp, -, hderives, hviable⟩ := h.sound
  have hmem := List.mem_of_getElem? hp
  obtain ⟨z₁, hz₁⟩ := exists_derives fun s hs =>
    hproductive p hmem s (List.mem_of_mem_drop (i := d) hs)
  have hrhs := hderives.append hz₁
  rw [List.take_append_drop] at hrhs
  obtain ⟨z, hz⟩ := hviable.completable hproductive (.single hmem hrhs)
  refine ⟨z₁ ++ z, ?_⟩
  rw [← stretch_zero, ← stretch_append w (Nat.zero_le j) hji, stretch_zero]
  simpa only [List.append_assoc] using hz

end OpenStandards.Lib

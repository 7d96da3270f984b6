/-
Loops that grow a finite ordered set until nothing more goes in.

A worklist keeps the elements whose successors it has not looked at yet;
there are at most as many rounds as elements (`loop_isSome`), and what
comes out is the set of elements that can be reached (`mem_loop_iff`). A
saturation repeats a pass over the whole set for as long as the pass puts
something in (`saturate_isSome`, `exists_of_saturate`).
-/
import Mathlib.Data.List.Nodup
import Mathlib.Data.List.Perm.Subperm
import Mathlib.Data.List.Range

namespace OpenStandards.Lib

/-- A fold whose every step adds the elements that `P` gives for its input
adds those of all its inputs. -/
theorem foldl_mem_iff {α β γ : Type} (mem : γ → β → Prop) {f : β → α → β}
    {P : α → γ → Prop} (hf : ∀ acc a x, mem x (f acc a) ↔ mem x acc ∨ P a x)
    (acc : β) (as : List α) (x : γ) :
    mem x (as.foldl f acc) ↔ mem x acc ∨ ∃ a ∈ as, P a x := by
  induction as generalizing acc with
  | nil => simp
  | cons a as ih =>
    rw [List.foldl_cons, ih, hf, or_assoc]
    simp

/-- What every step of a fold keeps holds after it. -/
theorem foldl_keeps {α β : Type} {I : β → Prop} {f : β → α → β}
    {as : List α} (hf : ∀ acc, ∀ a ∈ as, I acc → I (f acc a)) {acc : β}
    (h : I acc) : I (as.foldl f acc) := by
  induction as generalizing acc with
  | nil => exact h
  | cons a as ih =>
    apply ih (fun acc b hb => hf acc b (List.mem_cons_of_mem _ hb))
    exact hf acc a List.mem_cons_self h

-- ==== ordered sets

variable {σ : Type} [Ord σ] [Std.TransOrd σ] [Std.LawfulEqOrd σ]

theorem mem_insert_iff {set : Std.TreeSet σ} {s t : σ} :
    s ∈ set.insert t ↔ s ∈ set ∨ s = t := by
  rw [Std.TreeSet.mem_insert, Std.LawfulEqCmp.compare_eq_iff_eq, or_comm, eq_comm]

theorem nodup_toList (set : Std.TreeSet σ) : set.toList.Nodup := by
  apply List.Pairwise.imp ?_ Std.TreeSet.distinct_toList
  intro a b hne heq
  exact hne (Std.LawfulEqCmp.compare_eq_iff_eq.2 heq)

/-- A set of elements that are numbered below `N` has at most `N`. -/
theorem size_le {N : Nat} {number : σ → Nat}
    (hinj : Function.Injective number) (hlt : ∀ s, number s < N)
    (set : Std.TreeSet σ) : set.size ≤ N := by
  have hnodup : (set.toList.map number).Nodup :=
    (List.nodup_map_iff hinj).2 (nodup_toList set)
  have hsub : set.toList.map number ⊆ List.range N := by
    intro n hn
    obtain ⟨s, -, rfl⟩ := List.mem_map.1 hn
    exact List.mem_range.2 (hlt s)
  have hle := (List.subperm_of_subset hnodup hsub).length_le
  rw [List.length_map, List.length_range, Std.TreeSet.length_toList] at hle
  exact hle

-- ==== worklists

namespace Worklist

variable (succ : σ → List σ)

/-- An element goes in the set, and on the worklist if it was not there. -/
def push (w : Std.TreeSet σ × List σ) (t : σ) : Std.TreeSet σ × List σ :=
  if w.1.contains t then w else (w.1.insert t, t :: w.2)

/-- The successors of the elements on the worklist are put in until it is
empty. It has not ended if the fuel runs out first. -/
def loop : Nat → Std.TreeSet σ → List σ → Option (Std.TreeSet σ)
  | _, out, [] => some out
  | 0, _, _ :: _ => none
  | fuel + 1, out, s :: stack =>
    let (out, stack) := (succ s).foldl push (out, stack)
    loop fuel out stack

variable {succ}

theorem mem_push (w : Std.TreeSet σ × List σ) (t s : σ) :
    s ∈ (push w t).1 ↔ s ∈ w.1 ∨ s = t := by
  unfold push
  split
  case isTrue h =>
    constructor
    · exact Or.inl
    · rintro (hs | rfl)
      · exact hs
      · exact h
  case isFalse => exact mem_insert_iff

theorem mem_pushes (w : Std.TreeSet σ × List σ) (ts : List σ) (s : σ) :
    s ∈ (ts.foldl push w).1 ↔ s ∈ w.1 ∨ s ∈ ts := by
  have hmem := foldl_mem_iff (fun s (w : Std.TreeSet σ × List σ) => s ∈ w.1) mem_push w ts s
  simpa using hmem

omit [Std.TransOrd σ] [Std.LawfulEqOrd σ] in
/-- What is put in is put on the worklist, and the rest of it stays. -/
theorem stack_push (w : Std.TreeSet σ × List σ) (t s : σ) :
    s ∈ (push w t).2 ↔ s ∈ w.2 ∨ s = t ∧ t ∉ w.1 := by
  unfold push
  split
  case isTrue h =>
    have hin : t ∈ w.1 := h
    simp [hin]
  case isFalse h =>
    have hin : t ∉ w.1 := h
    simp [hin, or_comm]

omit [Std.LawfulEqOrd σ] in
theorem measure_pushes {N : Nat} (hN : ∀ set : Std.TreeSet σ, set.size ≤ N)
    (w : Std.TreeSet σ × List σ) (ts : List σ) :
    (ts.foldl push w).2.length + (N - (ts.foldl push w).1.size)
      = w.2.length + (N - w.1.size) := by
  refine foldl_keeps (I := fun w' : Std.TreeSet σ × List σ =>
    w'.2.length + (N - w'.1.size) = w.2.length + (N - w.1.size)) ?_ rfl
  intro acc t _ h
  rw [← h]
  unfold push
  split
  case isTrue => rfl
  case isFalse hnew =>
    have hsize := hN (acc.1.insert t)
    rw [Std.TreeSet.size_insert, if_neg hnew] at hsize
    rw [Std.TreeSet.size_insert, if_neg hnew, List.length_cons]
    omega

variable {fuel : Nat} {out : Std.TreeSet σ} {stack : List σ}

omit [Std.LawfulEqOrd σ] in
/-- The loop ends: no element is put on the worklist twice. -/
theorem loop_isSome {N : Nat} (hN : ∀ set : Std.TreeSet σ, set.size ≤ N)
    (hfuel : stack.length + (N - out.size) ≤ fuel) :
    (loop succ fuel out stack).isSome := by
  induction fuel generalizing out stack with
  | zero =>
    cases stack with
    | nil => rfl
    | cons s stack => simp at hfuel
  | succ fuel ih =>
    cases stack with
    | nil => rfl
    | cons s stack =>
      apply ih
      rw [measure_pushes hN]
      rw [List.length_cons] at hfuel
      show stack.length + (N - out.size) ≤ fuel
      omega

theorem loop_keeps {P : σ → Prop} (hsucc : ∀ s, P s → ∀ t ∈ succ s, P t)
    {out' : Std.TreeSet σ} (hloop : loop succ fuel out stack = some out')
    (hout : ∀ s ∈ out, P s) (hstack : ∀ s ∈ stack, P s) :
    ∀ s ∈ out', P s := by
  induction fuel generalizing out stack with
  | zero =>
    cases stack with
    | nil =>
      cases hloop
      exact hout
    | cons s stack => cases hloop
  | succ fuel ih =>
    cases stack with
    | nil =>
      cases hloop
      exact hout
    | cons s stack =>
      have hs : ∀ t ∈ succ s, P t :=
        hsucc s (hstack s List.mem_cons_self)
      have hrest : ∀ t ∈ (out, stack).2, P t :=
        fun t ht => hstack t (List.mem_cons_of_mem _ ht)
      apply ih hloop
      · intro t ht
        rcases (mem_pushes _ _ _).1 ht with ht | ht
        · exact hout t ht
        · exact hs t ht
      · refine foldl_keeps (I := fun w : Std.TreeSet σ × List σ =>
          ∀ t ∈ w.2, P t) ?_ hrest
        intro acc t ht hacc u hu
        rcases (stack_push _ _ _).1 hu with hu | ⟨rfl, -⟩
        · exact hacc u hu
        · exact hs u ht

/-- The successors of every element that is not on the worklist are in. -/
def Done (succ : σ → List σ) (w : Std.TreeSet σ × List σ) : Prop :=
  ∀ s ∈ w.1, s ∈ w.2 ∨ ∀ t ∈ succ s, t ∈ w.1

theorem Done.pop {s : σ} (h : Done succ (out, s :: stack)) :
    Done succ ((succ s).foldl push (out, stack)) := by
  -- `s` itself is the one element that the fold has to make good for
  have hpushed : ∀ ts : List σ, ∀ u ∈ (ts.foldl push (out, stack)).1,
      u ∈ (ts.foldl push (out, stack)).2 ∨ u ∈ out ∧ u ∉ stack := by
    intro ts
    refine foldl_keeps (I := fun w : Std.TreeSet σ × List σ =>
      ∀ u ∈ w.1, u ∈ w.2 ∨ u ∈ out ∧ u ∉ stack) ?_ ?_
    · intro acc t _ hacc u hu
      rw [stack_push]
      by_cases hold : u ∈ acc.1
      · rcases hacc u hold with hu' | hu'
        · exact Or.inl (Or.inl hu')
        · exact Or.inr hu'
      · rcases (mem_push _ _ _).1 hu with hu' | rfl
        · exact absurd hu' hold
        · exact Or.inl (Or.inr ⟨rfl, hold⟩)
    · intro u hu
      by_cases hstack : u ∈ stack
      · exact Or.inl hstack
      · exact Or.inr ⟨hu, hstack⟩
  intro u hu
  rcases hpushed (succ s) u hu with hstack | ⟨hout, hstack⟩
  · exact Or.inl hstack
  · right
    intro t ht
    rw [mem_pushes]
    rcases h u hout with hmem | hmem
    · rcases List.mem_cons.1 hmem with rfl | hmem
      · exact Or.inr ht
      · exact absurd hmem hstack
    · exact Or.inl (hmem t ht)

/-- What comes out has everything that went in, and its successors. -/
theorem Done.loop {out' : Std.TreeSet σ} (h : Done succ (out, stack))
    (hloop : loop succ fuel out stack = some out') :
    (∀ s ∈ out, s ∈ out') ∧ ∀ s ∈ out', ∀ t ∈ succ s, t ∈ out' := by
  induction fuel generalizing out stack with
  | zero =>
    cases stack with
    | nil =>
      cases hloop
      refine ⟨fun s hs => hs, fun s hs => ?_⟩
      exact (h s hs).resolve_left List.not_mem_nil
    | cons s stack => cases hloop
  | succ fuel ih =>
    cases stack with
    | nil =>
      cases hloop
      refine ⟨fun s hs => hs, fun s hs => ?_⟩
      exact (h s hs).resolve_left List.not_mem_nil
    | cons s stack =>
      obtain ⟨hsub, hclosed⟩ := ih h.pop hloop
      refine ⟨fun t ht => hsub t ?_, hclosed⟩
      exact (mem_pushes _ _ _).2 (Or.inl ht)

/-- The loop from a set, with all of it on the worklist, gives what can be
reached from it. -/
theorem mem_loop_iff {set : Std.TreeSet σ}
    (hloop : Worklist.loop succ fuel set set.toList.reverse = some out) (t : σ) :
    t ∈ out ↔ ∃ s ∈ set, Relation.ReflTransGen (fun s t => t ∈ succ s) s t := by
  have hstack : ∀ s ∈ set.toList.reverse, s ∈ set := fun s hs =>
    Std.TreeSet.mem_toList.1 (List.mem_reverse.1 hs)
  constructor
  · intro ht
    refine loop_keeps (P := fun t => ∃ s ∈ set,
      Relation.ReflTransGen (fun s t => t ∈ succ s) s t) ?_ hloop ?_ ?_ t ht
    · rintro u ⟨s, hs, hsu⟩ v hv
      exact ⟨s, hs, hsu.tail hv⟩
    · exact fun s hs => ⟨s, hs, .refl⟩
    · exact fun s hs => ⟨s, hstack s hs, .refl⟩
  · rintro ⟨s, hs, hst⟩
    have hdone : Done succ (set, set.toList.reverse) := fun u hu =>
      Or.inl (List.mem_reverse.2 (Std.TreeSet.mem_toList.2 hu))
    obtain ⟨hsub, hclosed⟩ := hdone.loop hloop
    induction hst with
    | refl => exact hsub s hs
    | tail _ hstep ih => exact hclosed _ ih _ hstep

end Worklist

-- ==== saturation

variable {α : Type}

/-- A pass is repeated for as long as it says that it changed something. -/
def saturate (pass : α → α × Bool) : Nat → α → Option α
  | 0, _ => none
  | fuel + 1, a =>
    if (pass a).2 then saturate pass fuel (pass a).1 else some (pass a).1

/-- It ends when every change makes something bounded larger. -/
theorem saturate_isSome {pass : α → α × Bool} {I : α → Prop}
    {size : α → Nat} {N : Nat} (hpass : ∀ a, I a → I (pass a).1)
    (hgrow : ∀ a, I a → (pass a).2 = true → size a < size (pass a).1)
    (hN : ∀ a, size a ≤ N) {fuel : Nat} {a : α} (ha : I a)
    (hfuel : N - size a < fuel) : (saturate pass fuel a).isSome := by
  induction fuel generalizing a with
  | zero => omega
  | succ fuel ih =>
    unfold saturate
    split
    case isTrue h =>
      apply ih (hpass a ha)
      have hlt := hgrow a ha h
      have hle := hN (pass a).1
      omega
    case isFalse => rfl

/-- What comes out is what an unchanging pass gives, after passes that keep
what every pass keeps. -/
theorem exists_of_saturate {pass : α → α × Bool} {I : α → Prop}
    (hpass : ∀ a, I a → I (pass a).1) {fuel : Nat} {a b : α} (ha : I a)
    (h : saturate pass fuel a = some b) :
    ∃ c, I c ∧ (pass c).2 = false ∧ b = (pass c).1 := by
  induction fuel generalizing a with
  | zero => cases h
  | succ fuel ih =>
    unfold saturate at h
    split at h
    case isTrue => exact ih (hpass a ha) h
    case isFalse hdone =>
      cases h
      exact ⟨a, ha, Bool.eq_false_iff.2 hdone, rfl⟩

-- ==== marked folds

/-- Every step leaves what it is given as it is, or marks it. -/
def Marks {β γ : Type} (f : β × Bool → γ → β × Bool) : Prop :=
  ∀ acc c, f acc c = acc ∨ (f acc c).2 = true

variable {β γ : Type} {f : β × Bool → γ → β × Bool}

theorem Marks.foldl_true (hf : Marks f) {acc : β × Bool} (h : acc.2 = true)
    (cs : List γ) : (cs.foldl f acc).2 = true := by
  refine foldl_keeps (I := fun acc : β × Bool => acc.2 = true) ?_ h
  intro acc c _ hacc
  rcases hf acc c with heq | htrue
  · rw [heq, hacc]
  · exact htrue

/-- What comes out without a mark is what went in, and no step would have
changed it. -/
theorem Marks.quiet (hf : Marks f) {acc : β × Bool} {cs : List γ}
    (h : (cs.foldl f acc).2 = false) :
    cs.foldl f acc = acc ∧ ∀ c ∈ cs, f acc c = acc := by
  induction cs with
  | nil => exact ⟨rfl, nofun⟩
  | cons c cs ih =>
    rw [List.foldl_cons] at h
    have hhead : f acc c = acc := by
      rcases hf acc c with heq | htrue
      · exact heq
      · rw [hf.foldl_true htrue] at h
        cases h
    rw [hhead] at h
    obtain ⟨hfold, hall⟩ := ih h
    refine ⟨?_, ?_⟩
    · rw [List.foldl_cons, hhead, hfold]
    · intro c' hc'
      rcases List.mem_cons.1 hc' with rfl | hc'
      · exact hhead
      · exact hall c' hc'

theorem Marks.folds (hf : Marks f) {δ : Type} (list : β × Bool → δ → List γ) :
    Marks fun acc d => (list acc d).foldl f acc := by
  intro acc d
  cases h : ((list acc d).foldl f acc).2 with
  | false => exact Or.inl (hf.quiet h).1
  | true => exact Or.inr rfl

end OpenStandards.Lib

/-
Sets of small numbers packed into 64-bit words, lowest bit first: number
`i` is bit `i % 64` of word `i / 64`. Each operation is given by what it
does to `test`, so a set of bits can be read as a set of numbers.
-/
namespace OpenStandards.Lib.Words

/-- Whether bit `i` is set. -/
def test (ws : List UInt64) (i : Nat) : Bool :=
  (ws.getD (i / 64) 0 >>> UInt64.ofNat (i % 64)) &&& 1 == 1

/-- Bit `i` is set. -/
def set (ws : List UInt64) (i : Nat) : List UInt64 :=
  ws.modify (i / 64) (· ||| (1 <<< UInt64.ofNat (i % 64)))

/-- The bits of either. -/
def union (ws vs : List UInt64) : List UInt64 :=
  List.zipWith (· ||| ·) ws vs

/-- Every bit the other way. -/
def complement (ws : List UInt64) : List UInt64 := ws.map (~~~ ·)

-- ==== one word

theorem shift_eq_one (w : UInt64) {k : Nat} (hk : k < 64) :
    ((w >>> UInt64.ofNat k) &&& 1 == 1) = w.toBitVec.getLsbD k := by
  have hmod : k % 18446744073709551616 % 64 = k := by omega
  have hshift : (w >>> UInt64.ofNat k).toBitVec = w.toBitVec >>> k := by
    rw [UInt64.toBitVec_shiftRight]
    simp [BitVec.toNat_umod, hmod]
  rw [Bool.eq_iff_iff, beq_iff_eq, ← UInt64.toBitVec_inj, UInt64.toBitVec_and, hshift]
  constructor
  · intro h
    have hbit := congrArg (BitVec.getLsbD · 0) h
    simpa using hbit
  · intro h
    apply BitVec.eq_of_getLsbD_eq
    intro j hj
    rw [BitVec.getLsbD_and]
    cases j with
    | zero => simpa using h
    | succ j => simp [BitVec.getLsbD_one]

theorem getLsbD_one_shiftLeft {k : Nat} (hk : k < 64) (j : Nat) :
    (1 <<< UInt64.ofNat k : UInt64).toBitVec.getLsbD j = decide (j = k) := by
  have hmod : k % 18446744073709551616 % 64 = k := by omega
  have hshift : (1 <<< UInt64.ofNat k : UInt64).toBitVec = 1#64 <<< k := by
    rw [UInt64.toBitVec_shiftLeft]
    simp [BitVec.toNat_umod, hmod]
  rw [hshift, BitVec.getLsbD_shiftLeft, BitVec.getLsbD_one, Bool.eq_iff_iff]
  simp only [Bool.and_eq_true, decide_eq_true_eq, Bool.not_eq_true', decide_eq_false_iff_not]
  omega

-- ==== the operations

theorem test_eq (ws : List UInt64) (i : Nat) :
    test ws i = (ws.getD (i / 64) 0).toBitVec.getLsbD (i % 64) :=
  shift_eq_one _ (Nat.mod_lt _ (by decide))

@[simp]
theorem length_set (ws : List UInt64) (i : Nat) : (set ws i).length = ws.length :=
  List.length_modify ..

@[simp]
theorem length_union (ws vs : List UInt64) : (union ws vs).length = min ws.length vs.length :=
  List.length_zipWith ..

@[simp]
theorem length_complement (ws : List UInt64) : (complement ws).length = ws.length :=
  List.length_map ..

/-- No bit of zero words is set. -/
theorem test_replicate_zero (n i : Nat) : test (List.replicate n 0) i = false := by
  rw [test_eq, List.getD_eq_getElem?_getD, List.getElem?_replicate]
  split
  all_goals simp

theorem test_set {ws : List UInt64} {i : Nat} (hi : i / 64 < ws.length)
    (j : Nat) : test (set ws i) j = (decide (j = i) || test ws j) := by
  rw [test_eq, test_eq, set, List.getD_eq_getElem?_getD,
    List.getD_eq_getElem?_getD, List.getElem?_modify]
  by_cases hword : i / 64 = j / 64
  · simp only [if_pos hword]
    rw [← hword, List.getElem?_eq_getElem hi]
    simp only [Option.map_eq_map, Option.map_some, Option.getD_some,
      UInt64.toBitVec_or, BitVec.getLsbD_or]
    rw [getLsbD_one_shiftLeft (Nat.mod_lt _ (by decide)), Bool.or_comm]
    congr 1
    rw [decide_eq_decide]
    omega
  · have hne : j ≠ i := fun h => hword (by rw [h])
    simp [hword, hne]

theorem test_union {ws vs : List UInt64} (hlen : ws.length = vs.length)
    (i : Nat) : test (union ws vs) i = (test ws i || test vs i) := by
  rw [test_eq, test_eq, test_eq, union, List.getD_eq_getElem?_getD, List.getElem?_zipWith]
  by_cases hi : i / 64 < ws.length
  · have hv : i / 64 < vs.length := hlen ▸ hi
    simp [List.getD_eq_getElem?_getD, hi, hv]
  · have hv : ¬ i / 64 < vs.length := hlen ▸ hi
    simp [List.getD_eq_getElem?_getD, hi, hv]

end OpenStandards.Lib.Words

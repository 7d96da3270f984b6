/-
Runs of a deterministic step function: the state after a sequence of
inputs, the runs whose every step meets a condition at the state it is
taken from, and the one induction every invariant of a run goes
through.
-/
import Mathlib.Data.List.Induction
import Mathlib.Data.List.Perm.Basic

namespace OpenStandards.Lib

section

variable {σ ι : Type} (step : σ → ι → σ)

/-- The state after a sequence of inputs. -/
def run (s : σ) (ops : List ι) : σ := ops.foldl step s

/-- Every step of the run meets `P` at the state it is taken from. -/
def Along (P : σ → ι → Prop) : σ → List ι → Prop
  | _, [] => True
  | s, op :: ops => P s op ∧ Along P (step s op) ops

/-- The conditions of a run are decidable where those of a step are. -/
instance Along.decidable (P : σ → ι → Prop) [∀ s op, Decidable (P s op)] :
    ∀ (ops : List ι) (s : σ), Decidable (Along step P s ops)
  | [], _ => .isTrue trivial
  | op :: ops, s =>
    have := Along.decidable P ops (step s op)
    inferInstanceAs (Decidable (_ ∧ _))

instance (P : σ → ι → Prop) [∀ s op, Decidable (P s op)] (s : σ)
    (ops : List ι) : Decidable (Along step P s ops) :=
  Along.decidable step P ops s

variable {step} {P Q : σ → ι → Prop}

theorem run_append (s : σ) (ops ops' : List ι) :
    run step s (ops ++ ops') = run step (run step s ops) ops' :=
  List.foldl_append ..

variable {s : σ} {ops : List ι}

theorem along_append {ops' : List ι} :
    Along step P s (ops ++ ops') ↔ Along step P s ops ∧ Along step P (run step s ops) ops' := by
  induction ops generalizing s with
  | nil =>
    show _ ↔ True ∧ _
    rw [true_and]
    rfl
  | cons op ops ih =>
    show P s op ∧ Along step P (step s op) (ops ++ ops') ↔ _
    rw [ih, ← and_assoc]
    rfl

/-- Nothing is asked of a run by no condition. -/
theorem along_trivial (s : σ) (ops : List ι) : Along step (fun _ _ => True) s ops := by
  induction ops generalizing s with
  | nil => trivial
  | cons op ops ih => exact ⟨trivial, ih (step s op)⟩

/-- A condition on the inputs alone holds along every run over them. -/
theorem along_of_forall (h : ∀ op ∈ ops, ∀ s, P s op) (s : σ) : Along step P s ops := by
  induction ops generalizing s with
  | nil => trivial
  | cons op ops ih =>
    refine ⟨h op List.mem_cons_self s, ?_⟩
    exact ih (fun op' hop' => h op' (List.mem_cons_of_mem _ hop')) _

/-- A weaker condition holds along the same run. -/
theorem Along.mono_mem (hPQ : ∀ op ∈ ops, ∀ s, P s op → Q s op)
    (h : Along step P s ops) : Along step Q s ops := by
  induction ops generalizing s with
  | nil => trivial
  | cons op ops ih =>
    refine ⟨hPQ op List.mem_cons_self s h.1, ?_⟩
    exact ih (fun op' hop' => hPQ op' (List.mem_cons_of_mem _ hop')) h.2

/-- The induction over runs: what every permitted step preserves holds
at the end of every permitted run. -/
theorem run_invariant {I : σ → Prop} (hstep : ∀ s op, I s → P s op → I (step s op)) (hinit : I s)
    (h : Along step P s ops) : I (run step s ops) := by
  induction ops generalizing s with
  | nil => exact hinit
  | cons op ops ih => exact ih (hstep s op hinit h.1) h.2

/-- What an invariant of the permitted steps gives at each of them holds
along the run. -/
theorem along_of_invariant {I : σ → Prop}
    (hstep : ∀ s op, I s → P s op → I (step s op) ∧ Q s op) (hinit : I s)
    (h : Along step P s ops) : Along step Q s ops := by
  induction ops generalizing s with
  | nil => trivial
  | cons op ops ih =>
    obtain ⟨hinv, hQ⟩ := hstep s op hinit h.1
    exact ⟨hQ, ih hinv h.2⟩

/-- A preorder on states relates every two states of a run, the earlier
to the later, exactly where it relates every two successive ones. -/
theorem forall_split_iff_along {R : σ → σ → Prop} (hrefl : ∀ s, R s s)
    (htrans : ∀ {s t u}, R s t → R t u → R s u) :
    (∀ before between after, ops = before ++ between ++ after →
        R (run step s before) (run step s (before ++ between)))
      ↔ Along step (fun s op => R s (step s op)) s ops := by
  constructor
  · intro h
    induction ops generalizing s with
    | nil => trivial
    | cons op ops ih =>
      refine ⟨h [] [op] ops rfl, ih fun before between after heq => ?_⟩
      exact h (op :: before) between after (by rw [heq]; rfl)
  · intro h before between after heq
    subst heq
    obtain ⟨h, -⟩ := along_append.1 h
    obtain ⟨-, h⟩ := along_append.1 h
    rw [run_append]
    exact run_invariant (fun s op hs hop => htrans hs hop) (hrefl _) h

theorem along_iff_split :
    Along step P s ops ↔ ∀ before op after, ops = before ++ op :: after →
      P (run step s before) op := by
  constructor
  · intro h before op after heq
    rw [heq, along_append] at h
    exact h.2.1
  · intro h
    induction ops generalizing s with
    | nil => trivial
    | cons op ops ih =>
      refine ⟨h [] op ops rfl, ih fun before op' after heq => ?_⟩
      exact h (op :: before) op' after (by rw [heq]; rfl)

/-- A list that ends in a call, split at some call: at the last, or
before. -/
theorem snoc_eq_split {α : Type} {xs before rest : List α} {x y : α}
    (h : xs ++ [x] = before ++ y :: rest) :
    (xs = before ∧ x = y ∧ rest = [])
      ∨ ∃ rest', xs = before ++ y :: rest' ∧ rest = rest' ++ [x] := by
  rcases List.eq_nil_or_concat rest with rfl | ⟨rest', z, rfl⟩
  · obtain ⟨rfl, hxy⟩ := List.append_inj' h rfl
    exact Or.inl ⟨rfl, List.cons.inj hxy |>.1, rfl⟩
  · rw [List.concat_eq_append, ← List.cons_append, ← List.append_assoc] at h
    obtain ⟨rfl, hxz⟩ := List.append_inj' h rfl
    obtain ⟨rfl, -⟩ := List.cons.inj hxz
    exact Or.inr ⟨rest', rfl, List.concat_eq_append⟩

/-- The induction over runs from the left: a property of the inputs taken
so far and the state they lead to. -/
theorem run_induction {I : List ι → σ → Prop}
    (hstep : ∀ done op s, I done s → I (done ++ [op]) (step s op))
    (hinit : I [] s) (ops : List ι) : I ops (run step s ops) := by
  induction ops using List.reverseRecOn with
  | nil => exact hinit
  | append_singleton done op ih =>
    rw [run_append]
    exact hstep done op _ ih

end

/-
Folds whose steps commute: up to an equivalence that the steps respect,
the result does not depend on the order. And the loop rule for folds
that may fail.
-/

section

variable {α β : Type}

/-- Two orders of the same steps end in related states, if any two of
the steps can be exchanged. -/
theorem foldl_rel_of_perm {E : β → β → Prop} {f : β → α → β}
    (htrans : ∀ a b c, E a b → E b c → E a c) (hrefl : ∀ b, E b b)
    (hcongr : ∀ b b' a, E b b' → E (f b a) (f b' a)) :
    ∀ {l l' : List α}, l.Perm l' →
      (∀ a ∈ l, ∀ a' ∈ l, ∀ b, E (f (f b a) a') (f (f b a') a)) →
      ∀ b b', E b b' → E (l.foldl f b) (l'.foldl f b') := by
  have hfold : ∀ (l : List α) b b', E b b' → E (l.foldl f b) (l.foldl f b') := by
    intro l
    induction l with
    | nil =>
      intro b b' h
      exact h
    | cons a l ih =>
      intro b b' h
      exact ih _ _ (hcongr b b' a h)
  intro l l' hp
  induction hp with
  | nil =>
    intro _ b b' h
    exact h
  | cons a _ ih =>
    intro hcomm b b' h
    refine ih ?_ _ _ (hcongr b b' a h)
    intro x hx y hy
    exact hcomm x (List.mem_cons_of_mem _ hx) y (List.mem_cons_of_mem _ hy)
  | swap a a' l =>
    intro hcomm b b' h
    refine hfold l _ _ (htrans _ _ _ (hcomm a' List.mem_cons_self a
      (List.mem_cons_of_mem _ List.mem_cons_self) b) ?_)
    exact hcongr _ _ _ (hcongr _ _ _ h)
  | trans hp₁ _ ih₁ ih₂ =>
    intro hcomm b b' h
    refine htrans _ _ _ (ih₁ hcomm b b' h) (ih₂ ?_ b' b' (hrefl b'))
    intro x hx y hy
    exact hcomm x (hp₁.mem_iff.2 hx) y (hp₁.mem_iff.2 hy)

/-- The loop rule for a fold that may fail: an invariant of the consumed
prefix under which every next step succeeds and is kept. -/
theorem foldlM_some {f : β → α → Option β} {P : List α → β → Prop}
    {l : List α} {b : β} (hinit : P [] b)
    (hstep : ∀ pre a post b, l = pre ++ a :: post → P pre b →
      ∃ b', f b a = some b' ∧ P (pre ++ [a]) b') :
    ∃ b', l.foldlM f b = some b' ∧ P l b' := by
  suffices haux : ∀ (post pre : List α) (b : β), l = pre ++ post →
      P pre b → ∃ b', post.foldlM f b = some b' ∧ P l b' by
    exact haux l [] b rfl hinit
  intro post
  induction post with
  | nil =>
    intro pre b hl hP
    rw [List.append_nil] at hl
    exact ⟨b, rfl, hl ▸ hP⟩
  | cons a post ih =>
    intro pre b hl hP
    obtain ⟨b₁, hf, hP₁⟩ := hstep pre a post b hl hP
    obtain ⟨b', hrest, hP'⟩ := ih (pre ++ [a]) b₁ (by rw [hl, List.append_assoc]; rfl) hP₁
    refine ⟨b', ?_, hP'⟩
    rw [List.foldlM_cons, hf]
    exact hrest

end

/-
Programs over the operations of an object: what a program does next is an
operation of the object, and how it goes on depends on the reply.

`Safe` is the rule for a program that runs with nothing but interference
of the outside between its operations: an assertion holds at every
operation and a postcondition at the end, whatever the replies and the
interference.
-/

/-- A program: it ends with a value, or calls an operation and goes on
with the reply. -/
inductive Prog (Op : Type) (Reply : Op → Type) (α : Type) where
  | ret (a : α)
  | call (op : Op) (k : Reply op → Prog Op Reply α)

namespace Prog

variable {Op : Type} {Reply : Op → Type} {α β : Type}

/-- One program after another. -/
def bind : Prog Op Reply α → (α → Prog Op Reply β) → Prog Op Reply β
  | .ret a, f => f a
  | .call op k, f => .call op fun r => bind (k r) f

instance : Monad (Prog Op Reply) where
  pure := .ret
  bind := bind

/-- A single operation. -/
def perform (op : Op) : Prog Op Reply (Reply op) := .call op .ret

def each (f : α → Prog Op Reply β) : List α → Prog Op Reply (List β)
  | [] => .ret []
  | a :: items => (f a).bind fun b => (each f items).bind fun bs =>
    .ret (b :: bs)

-- ==== alone

section
variable {σ : Type} (rely : σ → σ → Prop) (pre : Op → σ → Prop)
  (act : (op : Op) → σ → Reply op → σ → Prop)

/-- Whatever the outside does in between and whatever the replies are, the
assertion holds at every operation and the postcondition at the end. -/
def Safe : Prog Op Reply α → (α → σ → Prop) → σ → Prop
  | .ret a, post, s => ∀ s', rely s s' → post a s'
  | .call op k, post, s => ∀ s₁, rely s s₁ →
      pre op s₁ ∧ ∀ r s', act op s₁ r s' → Safe (k r) post s'

variable {rely pre act} {p : Prog Op Reply α} {post : α → σ → Prop} {s : σ}

/-- The outside does not break what is safe. -/
theorem Safe.stable (htrans : ∀ {s t u}, rely s t → rely t u → rely s u)
    (h : Safe rely pre act p post s) {s' : σ} (hs : rely s s') :
    Safe rely pre act p post s' := by
  cases p with
  | ret a => exact fun t ht => h t (htrans hs ht)
  | call op k => exact fun t ht => h t (htrans hs ht)

theorem Safe.mono {post' : α → σ → Prop} (h : Safe rely pre act p post s)
    (hpost : ∀ a s, post a s → post' a s) :
    Safe rely pre act p post' s := by
  induction p generalizing s with
  | ret a => exact fun t ht => hpost a t (h t ht)
  | call op k ih =>
    intro t ht
    refine ⟨(h t ht).1, fun r s' hact => ?_⟩
    exact ih r ((h t ht).2 r s' hact)

/-- A single operation, and what comes after it. -/
theorem Safe.perform {op : Op} {f : Reply op → Prog Op Reply α}
    (h : ∀ s₁, rely s s₁ →
      pre op s₁ ∧ ∀ r s', act op s₁ r s' → Safe rely pre act (f r) post s') :
    Safe rely pre act (Prog.perform op >>= f) post s := h

/-- One after the other. -/
theorem Safe.bind {f : α → Prog Op Reply β} {post' : β → σ → Prop}
    (hrefl : ∀ s, rely s s) (h : Safe rely pre act p post s)
    (hf : ∀ a s, post a s → Safe rely pre act (f a) post' s) :
    Safe rely pre act (p.bind f) post' s := by
  induction p generalizing s with
  | ret a => exact hf a s (h s (hrefl s))
  | call op k ih =>
    intro t ht
    refine ⟨(h t ht).1, fun r s' hact => ?_⟩
    exact ih r ((h t ht).2 r s' hact)

/-- The rule for a loop: what holds with `a :: items` left holds with
`items` left after the body. -/
theorem Safe.each {f : α → Prog Op Reply β} {inv : List α → σ → Prop} (hrefl : ∀ s, rely s s)
    (hstable : ∀ items s s', inv items s → rely s s' → inv items s')
    (hbody : ∀ a items s, inv (a :: items) s →
      Safe rely pre act (f a) (fun _ => inv items) s) {items : List α} (hinv : inv items s) :
    Safe rely pre act (Prog.each f items) (fun _ => inv []) s := by
  induction items generalizing s with
  | nil => exact fun t ht => hstable [] s t hinv ht
  | cons a items ih =>
    refine (hbody a items s hinv).bind hrefl fun _ s' hs' => ?_
    refine (ih hs').bind hrefl fun _ t ht u hu => ?_
    exact hstable [] t u ht hu

end

end Prog

end OpenStandards.Lib

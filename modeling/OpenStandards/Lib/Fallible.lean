/-
Fallible computations (`Except`): the inversion of a bind, and the
induction rules for loops that may stop at an error.

`foldlM_ok` is the loop rule: an invariant of the consumed prefix and
the accumulator that holds at the start and survives each successful
turn holds at the end of a loop that did not fail.
-/
import OpenStandards.Lib.Run

namespace OpenStandards.Lib

variable {ε α β : Type}

/-- A bind that succeeded: its first half succeeded and handed its value
on. -/
theorem bind_eq_ok {x : Except ε α} {f : α → Except ε β} {b : β} :
    (x >>= f) = .ok b ↔ ∃ a, x = .ok a ∧ f a = .ok b := by
  cases x with
  | error e =>
    constructor
    · intro h
      cases h
    · rintro ⟨a, ha, -⟩
      cases ha
  | ok a =>
    constructor
    · intro h
      exact ⟨a, rfl, h⟩
    · rintro ⟨a', ha, hf⟩
      cases ha
      exact hf

variable {e : ε} {a : α} {c : Prop} {step : β → α → Except ε β} {l : List α}
    {R : α → β → Prop} {r : List β} {γ : Type}

theorem bind_eq_error {x : Except ε α} {f : α → Except ε β} :
    (x >>= f) = .error e ↔ x = .error e ∨ ∃ a, x = .ok a ∧ f a = .error e := by
  cases x with
  | error e' =>
    constructor
    · intro h
      exact Or.inl (congrArg _ (Except.error.inj h))
    · rintro (h | ⟨a, ha, -⟩)
      · exact congrArg _ (Except.error.inj h)
      · cases ha
  | ok a =>
    constructor
    · intro h
      exact Or.inr ⟨a, rfl, h⟩
    · rintro (h | ⟨a', ha, hf⟩)
      · cases h
      · cases ha
        exact hf

@[simp]
theorem ok_bind (a : α) (f : α → Except ε β) : ((Except.ok a : Except ε α) >>= f) = f a := rfl

@[simp]
theorem error_bind (e : ε) (f : α → Except ε β) :
    ((Except.error e : Except ε α) >>= f) = .error e := rfl

theorem check_bind_eq_ok {x : Except ε Unit} {f : Unit → Except ε β}
    {b : β} : (x >>= f) = .ok b ↔ x = .ok () ∧ f () = .ok b := by
  rw [bind_eq_ok]
  constructor
  · rintro ⟨⟨⟩, hx, hf⟩
    exact ⟨hx, hf⟩
  · rintro ⟨hx, hf⟩
    exact ⟨(), hx, hf⟩

theorem pure_eq_ok {b : α} : (pure a : Except ε α) = .ok b ↔ b = a := by
  constructor
  · intro h
    exact (Except.ok.inj h).symm
  · rintro rfl
    rfl

theorem isOk_iff {x : Except ε α} : x.isOk = true ↔ ∃ a, x = .ok a := by
  cases x with
  | error e => simp [Except.isOk, Except.toBool]
  | ok a => simp [Except.isOk, Except.toBool]

/-- The second halves of a bind agree where they are reached. -/
theorem bind_congr_ok {x : Except ε α} {f g : α → Except ε β}
    (h : ∀ a, x = .ok a → f a = g a) : x >>= f = x >>= g := by
  cases x with
  | error e => rfl
  | ok a => exact h a rfl

theorem mapError_eq_ok {ε' : Type} {f : ε → ε'} {x : Except ε α} :
    x.mapError f = .ok a ↔ x = .ok a := by
  cases x with
  | error e => simp [Except.mapError]
  | ok b => simp [Except.mapError]

/-- A value under a guard. -/
theorem ite_eq_ok [Decidable c] {b : α} :
    (if c then .ok a else .error e) = (.ok b : Except ε α) ↔ c ∧ b = a := by
  by_cases h : c
  · rw [if_pos h, Except.ok.injEq, and_iff_right h]
    exact eq_comm
  · rw [if_neg h]
    exact iff_of_false nofun fun hc => h hc.1

/-- The early return `if c { return Err(e); }`. -/
def refuse (c : Prop) [Decidable c] (e : ε) : Except ε Unit :=
  if c then .error e else .ok ()

theorem refuse_bind_eq_ok [Decidable c] {f : Unit → Except ε β} {b : β} :
    (refuse c e >>= f) = .ok b ↔ ¬ c ∧ f () = .ok b := by
  unfold refuse
  by_cases h : c
  · rw [if_pos h]
    constructor
    · intro hf
      cases hf
    · intro hf
      exact absurd h hf.1
  · rw [if_neg h]
    exact ⟨fun hf => ⟨h, hf⟩, fun hf => hf.2⟩

theorem refuse_eq_ok [Decidable c] {u : Unit} : refuse c e = .ok u ↔ ¬ c := by
  unfold refuse
  by_cases h : c
  · simp [h]
  · simp [h]

theorem refuse_eq_error [Decidable c] {e' : ε} : refuse c e = .error e' ↔ c ∧ e = e' := by
  unfold refuse
  by_cases h : c
  · simp [h]
  · simp [h]

/-- The loop rule, from an arbitrary prefix already consumed. -/
theorem foldlM_ok_append {P : List α → β → Prop}
    (hstep : ∀ pre b a b', P pre b → step b a = .ok b' → P (pre ++ [a]) b') :
    ∀ (l pre : List α) (b b' : β), P pre b → l.foldlM step b = .ok b' → P (pre ++ l) b' := by
  intro l
  induction l with
  | nil =>
    intro pre b b' hP h
    have hb : b = b' := Except.ok.inj h
    rw [List.append_nil, ← hb]
    exact hP
  | cons a l ih =>
    intro pre b b' hP h
    rw [List.foldlM_cons] at h
    obtain ⟨b₁, h₁, h₂⟩ := bind_eq_ok.1 h
    have hnext := ih (pre ++ [a]) b₁ b' (hstep pre b a b₁ hP h₁) h₂
    rw [List.append_assoc] at hnext
    exact hnext

/-- The loop rule. -/
theorem foldlM_ok {P : List α → β → Prop} {b b' : β} (hinit : P [] b)
    (hstep : ∀ pre b a b', P pre b → step b a = .ok b' →
      P (pre ++ [a]) b') (h : l.foldlM step b = .ok b') : P l b' :=
  foldlM_ok_append hstep l [] b b' hinit h

/-- A loop whose turns check and then update: it succeeds exactly when the
checks hold along the run of the updates. -/
theorem foldlM_ok_iff_along {update : β → α → β} {C : β → α → Prop}
    (hstep : ∀ b a b', step b a = .ok b' ↔ C b a ∧ b' = update b a) :
    ∀ {l : List α} {b b' : β},
      l.foldlM step b = .ok b' ↔ Along update C b l ∧ b' = run update b l := by
  intro l
  induction l with
  | nil =>
    intro b b'
    constructor
    · intro h
      exact ⟨trivial, (Except.ok.inj h).symm⟩
    · rintro ⟨-, rfl⟩
      rfl
  | cons a l ih =>
    intro b b'
    rw [List.foldlM_cons, bind_eq_ok]
    constructor
    · rintro ⟨b₁, h₁, h₂⟩
      obtain ⟨hcheck, rfl⟩ := (hstep b a b₁).1 h₁
      obtain ⟨hrest, hb'⟩ := ih.1 h₂
      exact ⟨⟨hcheck, hrest⟩, hb'⟩
    · rintro ⟨⟨hcheck, hrest⟩, hb'⟩
      exact ⟨update b a, (hstep b a _).2 ⟨hcheck, rfl⟩, ih.2 ⟨hrest, hb'⟩⟩

/-- The check holds at every element of the list, given the elements
before it. -/
def Admits (C : List α → α → Prop) (l : List α) : Prop :=
  ∀ pre a post, l = pre ++ a :: post → C pre a

theorem admits_nil (C : List α → α → Prop) : Admits C [] := by
  intro pre a post h
  simp at h

theorem admits_concat {C : List α → α → Prop} : Admits C (l ++ [a]) ↔ Admits C l ∧ C l a := by
  constructor
  · intro h
    refine ⟨?_, h l a [] rfl⟩
    intro pre b post hl
    refine h pre b (post ++ [a]) ?_
    rw [hl, List.append_assoc, List.cons_append]
  · rintro ⟨hl, ha⟩ pre b post h
    rcases List.eq_nil_or_concat post with rfl | ⟨post', z, rfl⟩
    · obtain ⟨rfl, hb⟩ := List.append_inj' h rfl
      cases hb
      exact ha
    · rw [List.concat_eq_append, ← List.cons_append, ← List.append_assoc]
        at h
      exact hl pre b post' (List.append_inj' h rfl).1

section Prefixes

/- A loop whose state is a function of the elements consumed, as long as
the checks of its turns hold. -/
variable {step : β → α → Except ε β} {state : List α → β}
  {C : List α → α → Prop}
  (hstep : ∀ pre a b', Admits C pre →
    (step (state pre) a = .ok b' ↔ C pre a ∧ b' = state (pre ++ [a])))
include hstep

/-- It succeeds exactly when every check holds, with the state of the
whole list. -/
theorem foldlM_ok_iff_admits {l : List α} :
    ∀ {b' : β}, l.foldlM step (state []) = .ok b' ↔ Admits C l ∧ b' = state l := by
  induction l using List.reverseRecOn with
  | nil =>
    intro b'
    rw [List.foldlM_nil, pure_eq_ok]
    exact (and_iff_right (admits_nil C)).symm
  | append_singleton l a ih =>
    intro b'
    rw [List.foldlM_append, bind_eq_ok, admits_concat]
    simp only [List.foldlM_cons, List.foldlM_nil, bind_pure]
    constructor
    · rintro ⟨b, hb, ha⟩
      obtain ⟨hl, rfl⟩ := ih.1 hb
      obtain ⟨hC, rfl⟩ := (hstep l a b' hl).1 ha
      exact ⟨⟨hl, hC⟩, rfl⟩
    · rintro ⟨⟨hl, hC⟩, rfl⟩
      exact ⟨state l, ih.2 ⟨hl, rfl⟩, (hstep l a _ hl).2 ⟨hC, rfl⟩⟩

/-- It fails exactly when a turn does whose earlier checks hold. -/
theorem foldlM_error_iff_admits {l : List α} {e : ε} :
    l.foldlM step (state []) = .error e
      ↔ ∃ pre a post, l = pre ++ a :: post ∧ Admits C pre ∧ step (state pre) a = .error e := by
  constructor
  · intro h
    induction l using List.reverseRecOn with
    | nil => cases h
    | append_singleton l a ih =>
      rw [List.foldlM_append, bind_eq_error] at h
      simp only [List.foldlM_cons, List.foldlM_nil, bind_pure] at h
      rcases h with h | ⟨b, hb, ha⟩
      · obtain ⟨pre, x, post, rfl, hpre, hx⟩ := ih h
        exact ⟨pre, x, post ++ [a], by simp, hpre, hx⟩
      · obtain ⟨hl, rfl⟩ := (foldlM_ok_iff_admits hstep).1 hb
        exact ⟨l, a, [], rfl, hl, ha⟩
  · rintro ⟨pre, a, post, rfl, hpre, ha⟩
    have hok := (foldlM_ok_iff_admits hstep).2 ⟨hpre, rfl⟩
    rw [List.foldlM_append, hok, ok_bind, List.foldlM_cons, ha]
    rfl

end Prefixes

/-- A loop that only checks succeeds exactly when every check does. -/
theorem forM_ok_iff {check : α → Except ε Unit} :
    ∀ {l : List α}, l.forM check = .ok () ↔ ∀ a ∈ l, check a = .ok () := by
  intro l
  induction l with
  | nil =>
    constructor
    · intro _ a ha
      cases ha
    · intro _
      rfl
  | cons a l ih =>
    rw [show (a :: l).forM check = (check a >>= fun _ => l.forM check)
      from rfl, bind_eq_ok]
    constructor
    · rintro ⟨_, ha, hl⟩ b hb
      rcases List.mem_cons.1 hb with rfl | hb
      · exact ha
      · exact ih.1 hl b hb
    · intro h
      exact ⟨(), h a List.mem_cons_self, ih.2 fun b hb => h b (List.mem_cons_of_mem _ hb)⟩

theorem exists_of_forM_error {check : α → Except ε Unit} :
    ∀ {l : List α}, l.forM check = .error e → ∃ a ∈ l, check a = .error e := by
  intro l
  induction l with
  | nil => exact nofun
  | cons a l ih =>
    intro h
    change (check a >>= fun _ => l.forM check) = .error e at h
    cases hcheck : check a with
    | error e' =>
      rw [hcheck] at h
      exact ⟨a, List.mem_cons_self .., hcheck.trans h⟩
    | ok u =>
      rw [hcheck] at h
      obtain ⟨b, hb, hbe⟩ := ih h
      exact ⟨b, List.mem_cons_of_mem _ hb, hbe⟩

/-- A loop that only checks depends on its checks over the list. -/
theorem forM_congr {f g : α → Except ε Unit} :
    ∀ {l : List α}, (∀ a ∈ l, f a = g a) → l.forM f = l.forM g := by
  intro l
  induction l with
  | nil =>
    intro _
    rfl
  | cons a l ih =>
    intro h
    show (f a >>= fun _ => l.forM f) = (g a >>= fun _ => l.forM g)
    rw [h a List.mem_cons_self, ih fun a' ha' => h a' (List.mem_cons_of_mem _ ha')]

theorem exists_of_foldlM_error :
    ∀ {l : List α} {b : β}, l.foldlM step b = .error e →
      ∃ b', ∃ a ∈ l, step b' a = .error e := by
  intro l
  induction l with
  | nil =>
    intro b h
    cases h
  | cons a l ih =>
    intro b h
    rw [List.foldlM_cons] at h
    cases hstep : step b a with
    | error e' =>
      rw [hstep] at h
      exact ⟨b, a, List.mem_cons_self .., hstep.trans h⟩
    | ok b₁ =>
      rw [hstep] at h
      obtain ⟨b', a', ha', he⟩ := ih h
      exact ⟨b', a', List.mem_cons_of_mem _ ha', he⟩

/-- A loop depends on its turns over the list. -/
theorem foldlM_congr {f g : β → α → Except ε β} :
    ∀ {l : List α}, (∀ a ∈ l, ∀ b, f b a = g b a) → ∀ b : β, l.foldlM f b = l.foldlM g b := by
  intro l
  induction l with
  | nil =>
    intro _ b
    rfl
  | cons a l ih =>
    intro h b
    rw [List.foldlM_cons, List.foldlM_cons, h a List.mem_cons_self]
    congr 1
    funext b'
    exact ih (fun a' ha' => h a' (List.mem_cons_of_mem _ ha')) b'

/-- A loop that collects succeeds with the list of its results. -/
theorem mapM_ok_iff {f : α → Except ε β} :
    ∀ {l : List α} {r : List β},
      l.mapM f = .ok r ↔ List.Forall₂ (fun a b => f a = .ok b) l r := by
  intro l
  induction l with
  | nil =>
    intro r
    rw [List.mapM_nil, List.forall₂_nil_left_iff]
    constructor
    · intro h
      exact (Except.ok.inj h).symm
    · rintro rfl
      rfl
  | cons a l ih =>
    intro r
    rw [List.mapM_cons, bind_eq_ok, List.forall₂_cons_left_iff]
    constructor
    · rintro ⟨b, hb, h⟩
      obtain ⟨bs, hbs, h⟩ := bind_eq_ok.1 h
      exact ⟨b, bs, hb, ih.1 hbs, (Except.ok.inj h).symm⟩
    · rintro ⟨b, bs, hb, hbs, rfl⟩
      exact ⟨b, hb, bind_eq_ok.2 ⟨bs, ih.2 hbs, rfl⟩⟩

/-- Mapping the error of a loop that collects. -/
theorem mapM_mapError {ε' : Type} (k : ε → ε') (f : α → Except ε β) :
    ∀ l : List α, (l.mapM f).mapError k = l.mapM fun a => (f a).mapError k := by
  intro l
  induction l with
  | nil => rfl
  | cons a l ih =>
    rw [List.mapM_cons, List.mapM_cons, ← ih]
    cases f a with
    | error e => rfl
    | ok b => cases l.mapM f <;> rfl

theorem exists_of_forall₂ (h : List.Forall₂ R l r) (ha : a ∈ l) : ∃ b ∈ r, R a b := by
  induction h with
  | nil => cases ha
  | @cons x y l r hxy _ ih =>
    rcases List.mem_cons.1 ha with rfl | ha
    · exact ⟨y, List.mem_cons_self .., hxy⟩
    · obtain ⟨b, hb, hab⟩ := ih ha
      exact ⟨b, List.mem_cons_of_mem _ hb, hab⟩

/-- What holds of the elements of one of two paired lists. -/
theorem forall_mem_iff_of_forall₂ {P : α → Prop} {Q : β → Prop}
    (h : List.Forall₂ R l r) (hPQ : ∀ a b, R a b → (P a ↔ Q b)) :
    (∀ a ∈ l, P a) ↔ ∀ b ∈ r, Q b := by
  induction h with
  | nil => simp
  | @cons a b l r hab _ ih =>
    rw [List.forall_mem_cons, List.forall_mem_cons, hPQ a b hab, ih]

/-- Paired lists of equal images. -/
theorem map_eq_of_forall₂ {f : α → γ} {g : β → γ} (h : List.Forall₂ R l r)
    (hfg : ∀ a b, R a b → f a = g b) : l.map f = r.map g := by
  induction h with
  | nil => rfl
  | @cons a b l r hab _ ih => rw [List.map_cons, List.map_cons, hfg a b hab, ih]

/-- A loop that reads and then combines: where every reading succeeds it
is the loop over what is read. -/
theorem foldlM_read {read : α → Except ε γ} {value : α → γ} {combine : β → γ → Except ε β} :
    ∀ {l : List α}, (∀ a ∈ l, read a = .ok (value a)) → ∀ b : β,
      l.foldlM (fun b a => read a >>= combine b) b = (l.map value).foldlM combine b := by
  intro l
  induction l with
  | nil =>
    intro _ b
    rfl
  | cons a l ih =>
    intro h b
    rw [List.foldlM_cons, List.map_cons, List.foldlM_cons, h a List.mem_cons_self, ok_bind]
    have hrest := ih fun a' ha' => h a' (List.mem_cons_of_mem _ ha')
    cases combine b (value a) with
    | error e => rfl
    | ok b₁ => exact hrest b₁

/-- Where such a loop succeeds, every reading did. -/
theorem read_of_foldlM_ok {read : α → Except ε γ} {combine : β → γ → Except ε β} :
    ∀ {l : List α} {b b' : β},
      l.foldlM (fun b a => read a >>= combine b) b = .ok b' →
      ∀ a ∈ l, ∃ c, read a = .ok c := by
  intro l
  induction l with
  | nil =>
    intro b b' _ a ha
    cases ha
  | cons a l ih =>
    intro b b' h a' ha'
    rw [List.foldlM_cons] at h
    obtain ⟨b₁, h₁, h⟩ := bind_eq_ok.1 h
    rcases List.mem_cons.1 ha' with rfl | ha'
    · obtain ⟨c, hc, -⟩ := bind_eq_ok.1 h₁
      exact ⟨c, hc⟩
    · exact ih h a' ha'

end OpenStandards.Lib

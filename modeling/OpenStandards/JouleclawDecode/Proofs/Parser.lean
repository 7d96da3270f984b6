/-
Every parse comes to an end, and what is parsed is well formed.

Each parsing function stays inside the pattern and goes on by at least as
many bytes as it says (`Ran`); six calls are made at most before one byte
is read, so the fuel of `parseTop` is enough for every pattern. The same
induction carries that an alternation has alternatives and that the
bounds of a repetition are in order.
-/
import OpenStandards.JouleclawDecode.Proofs.Regex
import OpenStandards.Lib.Fallible

namespace OpenStandards.JouleclawDecode

open Lib

namespace Parser

-- ==== progress

/-- A parser on the same pattern, at least `k` bytes on. -/
structure After (p : Parser) (k : Nat) (p' : Parser) : Prop where
  src : p'.src = p.src
  pos : p.pos + k ≤ p'.pos
  inside : p'.pos ≤ p'.src.length

/-- The function ended, in an error or at least `k` bytes on with a result
that meets `Q`. -/
def Ran {α : Type} (p : Parser) (k : Nat) (Q : α → Prop) : Except Stop (α × Parser) → Prop
  | .ok (a, p') => After p k p' ∧ Q a
  | .error (.err _) => True
  | .error .unfinished => False

variable {α β : Type} {p p' p'' : Parser} {j k : Nat} {Q : α → Prop}
  {R : β → Prop}

namespace After

theorem refl (h : p.pos ≤ p.src.length) : After p 0 p :=
  ⟨rfl, Nat.le_refl _, h⟩

theorem trans (h : After p j p') (h' : After p' k p'') : After p (j + k) p'' where
  src := h'.src.trans h.src
  pos := by
    have h₁ := h.pos
    have h₂ := h'.pos
    omega
  inside := h'.inside

theorem le (h : After p j p') (hk : k ≤ j) : After p k p' :=
  ⟨h.src, Nat.le_trans (Nat.add_le_add_left hk _) h.pos, h.inside⟩

end After

theorem pos_lt_of_peek {b : UInt8} (h : p.peek = some b) : p.pos < p.src.length :=
  (List.getElem?_eq_some_iff.1 h).1

theorem after_bump {b : UInt8} (h : p.peek = some b) : After p 1 p.bump := by
  have hlt := pos_lt_of_peek h
  unfold bump
  rw [if_pos hlt]
  exact ⟨rfl, Nat.le_refl _, hlt⟩

/-- Moving on where there is a byte to move over, else staying. -/
theorem after_bump_zero (h : p.pos ≤ p.src.length) : After p 0 p.bump := by
  cases hpeek : p.peek with
  | none =>
    have hge : ¬ p.pos < p.src.length :=
      Nat.not_lt.2 (List.getElem?_eq_none_iff.1 hpeek)
    unfold bump
    rw [if_neg hge]
    exact .refl h
  | some b => exact (after_bump hpeek).le (Nat.zero_le 1)

theorem after_bump_at {c : Char} (h : p.at? c = true) : After p 1 p.bump :=
  after_bump (beq_iff_eq.1 h)

namespace Ran

theorem ok {a : α} (h : After p k p') (ha : Q a) : Ran p k Q (.ok (a, p')) := ⟨h, ha⟩

theorem err (p' : Parser) (msg : String) : Ran p k Q (p'.err msg) := trivial

theorem bind {x : Except Stop (α × Parser)}
    {f : α × Parser → Except Stop (β × Parser)} (hx : Ran p j Q x)
    (hf : ∀ a p', After p j p' → Q a → Ran p' k R (f (a, p'))) :
    Ran p (j + k) R (x >>= f) := by
  cases x with
  | error e =>
    cases e with
    | err e => trivial
    | unfinished => exact hx
  | ok r =>
    obtain ⟨a, p'⟩ := r
    have hrest := hf a p' hx.1 hx.2
    show Ran p (j + k) R (f (a, p'))
    cases hr : f (a, p') with
    | error e =>
      rw [hr] at hrest
      cases e with
      | err e => trivial
      | unfinished => exact hrest
    | ok r =>
      rw [hr] at hrest
      exact ⟨hx.1.trans hrest.1, hrest.2⟩

theorem shift {r : Except Stop (α × Parser)} (h : After p j p')
    (hr : Ran p' k Q r) : Ran p (j + k) Q r := by
  cases r with
  | error e =>
    cases e with
    | err e => trivial
    | unfinished => exact hr
  | ok r => exact ⟨h.trans hr.1, hr.2⟩

theorem le {r : Except Stop (α × Parser)} (hr : Ran p j Q r) (hk : k ≤ j) : Ran p k Q r := by
  cases r with
  | error e =>
    cases e with
    | err e => trivial
    | unfinished => exact hr
  | ok r => exact ⟨hr.1.le hk, hr.2⟩

end Ran

-- ==== numbers and bytes

theorem ran_parseUint (h : p.pos ≤ p.src.length) : Ran p 1 (fun _ => True) p.parseUint := by
  unfold parseUint
  generalize hdigits : (p.src.drop p.pos).takeWhile isAsciiDigit = digits
  have hle : digits.length ≤ p.src.length - p.pos := by
    rw [← hdigits, ← List.length_drop]
    exact (List.takeWhile_sublist _).length_le
  dsimp only
  split
  case isTrue => exact .err ..
  case isFalse hne =>
    split
    case isTrue =>
      have hpos : 0 < digits.length := by
        cases digits with
        | nil => exact absurd rfl hne
        | cons d ds => exact Nat.succ_pos _
      refine .ok ⟨rfl, ?_, ?_⟩ trivial
      · show p.pos + 1 ≤ p.pos + digits.length
        omega
      · show p.pos + digits.length ≤ p.src.length
        omega
    case isFalse => exact .err ..

theorem ran_parseRepeatBounds (h : p.pos ≤ p.src.length) :
    Ran p 1 (fun (r : Nat × Option Nat) => ∀ u, r.2 = some u → r.1 ≤ u)
      p.parseRepeatBounds := by
  unfold parseRepeatBounds
  refine Ran.bind (k := 0) (ran_parseUint h) fun n p₁ h₁ _ => ?_
  dsimp only
  split
  case isTrue hclose =>
    refine .ok ((after_bump_at hclose).le (Nat.zero_le 1)) ?_
    rintro _ ⟨⟩
    exact Nat.le_refl n
  case isFalse =>
    split
    case isFalse => exact .err ..
    case isTrue hcomma =>
      have h₂ := after_bump_at hcomma
      refine (Ran.shift (k := 0) h₂ ?_).le (Nat.zero_le _)
      split
      case isTrue hclose =>
        refine .ok ((after_bump_at hclose).le (Nat.zero_le 1)) ?_
        exact nofun
      case isFalse =>
        refine (Ran.bind (k := 0) (ran_parseUint h₂.inside)
          fun m p₃ h₃ _ => ?_).le (Nat.zero_le _)
        dsimp only
        split
        case isTrue => exact .err ..
        case isFalse =>
          split
          case isTrue => exact .err ..
          case isFalse horder =>
            refine .ok (after_bump_zero h₃.inside) ?_
            rintro _ ⟨⟩
            exact Nat.not_lt.1 horder

theorem hexVal_ne_unfinished (b : UInt8) : hexVal b ≠ .error .unfinished := by
  unfold hexVal
  split
  · exact nofun
  · split
    · exact nofun
    · split
      · exact nofun
      · exact nofun

theorem ran_parseHex : Ran p 2 (fun _ => True) p.parseHex := by
  unfold parseHex
  split
  case h_1 hi lo hhi hlo =>
    have h₁ := after_bump hhi
    have hpeek : p.bump.peek = some lo := by
      unfold bump
      rw [if_pos (pos_lt_of_peek hhi)]
      exact hlo
    have h₂ := h₁.trans (after_bump hpeek)
    cases hhex : hexVal hi with
    | error e =>
      cases e with
      | err e => trivial
      | unfinished => exact absurd hhex (hexVal_ne_unfinished hi)
    | ok v =>
      cases hhex' : hexVal lo with
      | error e =>
        cases e with
        | err e => trivial
        | unfinished => exact absurd hhex' (hexVal_ne_unfinished lo)
      | ok v' => exact .ok h₂ trivial
  case h_2 => exact .err ..
  case h_3 => exact .err ..

theorem ran_parseEscape : Ran p 1 (fun _ => True) p.parseEscape := by
  unfold parseEscape
  cases hpeek : p.peek with
  | none => exact .err ..
  | some b =>
    have h₁ := after_bump hpeek
    dsimp only
    split
    case h_1 => exact .ok h₁ trivial
    case h_2 =>
      split
      case isTrue => exact (Ran.shift h₁ ran_parseHex).le (by omega)
      case isFalse =>
        split
        case isTrue => exact .ok h₁ trivial
        case isFalse => exact .err ..

-- ==== character classes

theorem ran_parseUpper : Ran p 1 (fun _ => True) p.parseUpper := by
  unfold parseUpper
  cases hpeek : p.peek with
  | none => exact .err ..
  | some b =>
    have h₁ := after_bump hpeek
    dsimp only
    split
    case isFalse => exact .ok h₁ trivial
    case isTrue =>
      refine (Ran.shift h₁ (Ran.bind (k := 0) ran_parseEscape
        fun esc p₂ h₂ _ => ?_)).le (by omega)
      dsimp only
      split
      case h_1 hi _ => exact .ok (.refl h₂.inside) trivial
      case h_2 => exact .err ..

theorem ran_parseRange (h : p.pos ≤ p.src.length) (cls : ByteClass)
    (lo : UInt8) : Ran p 0 (fun _ => True) (p.parseRange cls lo) := by
  unfold parseRange
  split
  case isFalse => exact .ok (.refl h) trivial
  case isTrue =>
    refine (Ran.shift (after_bump_zero h) (Ran.bind (k := 0)
      ran_parseUpper fun hi p₂ h₂ _ => ?_)).le (Nat.zero_le _)
    dsimp only
    split
    case isTrue => exact .err ..
    case isFalse => exact .ok (.refl h₂.inside) trivial

theorem ran_classLoop {fuel : Nat} (hfuel : p.src.length - p.pos < fuel)
    (cls : ByteClass) (first : Bool) :
    Ran p 1 (fun _ => True) (classLoop fuel p cls first) := by
  induction fuel generalizing p cls first with
  | zero => omega
  | succ fuel ih =>
    unfold classLoop
    cases hpeek : p.peek with
    | none => exact .err ..
    | some b =>
      have h₁ := after_bump hpeek
      have hlt := pos_lt_of_peek hpeek
      -- what is left is shorter once a byte has been read
      have hnext : ∀ {p' : Parser}, After p 1 p' → ∀ cls,
          Ran p' 0 (fun _ => True) (classLoop fuel p' cls false) := by
        intro p' h' cls
        refine (ih ?_ cls false).le (Nat.zero_le 1)
        have hsrc := congrArg List.length h'.src
        have hpos := h'.pos
        omega
      have hrange : ∀ {p' : Parser}, After p 1 p' → ∀ lo,
          Ran p' 0 (fun _ => True) (do
            let r ← p'.parseRange cls lo
            classLoop fuel r.2 r.1 false) := by
        intro p' h' lo
        refine Ran.bind (k := 0) (ran_parseRange h'.inside cls lo)
          fun cls' p'' h'' _ => ?_
        exact hnext (h'.trans h'') cls'
      dsimp only
      split
      case isTrue => exact .ok h₁ trivial
      case isFalse =>
        split
        case isFalse => exact .shift h₁ (hrange h₁ b)
        case isTrue =>
          refine (Ran.shift h₁ (Ran.bind (k := 0) ran_parseEscape
            fun esc p₂ h₂ _ => ?_)).le (by omega)
          have h₂' := (h₁.trans h₂).le (Nat.le_add_right 1 1)
          dsimp only
          split
          case h_1 lo _ => exact hrange h₂' lo
          case h_2 => exact hnext h₂' _

theorem ran_parseCharClass (h : p.pos ≤ p.src.length) :
    Ran p 1 (fun _ => True) p.parseCharClass := by
  unfold parseCharClass
  have hstart : After p 0 (if p.at? '^' then p.bump else p) := by
    split
    · exact after_bump_zero h
    · exact .refl h
  refine (Ran.shift hstart (Ran.bind (k := 0) (ran_classLoop ?_ _ _)
    fun cls p₁ h₁ _ => ?_)).le (by omega)
  · omega
  · exact .ok (.refl h₁.inside) trivial

-- ==== patterns

theorem wellFormed_collect_concat {parts : List Node} (h : ∀ part ∈ parts, part.WellFormed) :
    (collect .concat parts).WellFormed := by
  cases parts with
  | nil => exact trivial
  | cons part parts =>
    cases parts with
    | nil => exact h part List.mem_cons_self
    | cons part' parts => exact Node.allWellFormed_iff.2 h

theorem wellFormed_collect_alt {alts : List Node} (h : ∀ node ∈ alts, node.WellFormed) :
    (collect .alt alts).WellFormed := by
  cases alts with
  | nil => exact trivial
  | cons node alts =>
    cases alts with
    | nil => exact h node List.mem_cons_self
    | cons node' alts =>
      exact ⟨List.cons_ne_nil _ _, Node.allWellFormed_iff.2 h⟩

theorem forall_mem_concat {nodes : List Node} {node : Node}
    (h : ∀ node ∈ nodes, node.WellFormed) (hnode : node.WellFormed) :
    ∀ node' ∈ nodes ++ [node], node'.WellFormed := by
  intro node' hmem
  rcases List.mem_append.1 hmem with hmem | hmem
  · exact h node' hmem
  · rw [List.mem_singleton.1 hmem]
    exact hnode

def left (p : Parser) : Nat := p.src.length - p.pos

theorem After.left_le (h : After p k p') : p'.left ≤ p.left - k := by
  have hsrc := congrArg List.length h.src
  have hpos := h.pos
  unfold left
  omega

/-- With the fuel for what is left of the pattern, each of the functions
that call each other ends; the induction is on the fuel. -/
structure Ends (fuel : Nat) : Prop where
  alt : ∀ p : Parser, p.pos ≤ p.src.length → 6 * p.left + 6 ≤ fuel →
    Ran p 0 Node.WellFormed (parseAlt fuel p)
  alts : ∀ (p : Parser) (nodes : List Node), p.pos ≤ p.src.length →
    6 * p.left + 5 ≤ fuel → (∀ node ∈ nodes, node.WellFormed) →
    Ran p 0 (fun nodes' => ∀ node ∈ nodes', node.WellFormed) (altLoop fuel p nodes)
  concat : ∀ p : Parser, p.pos ≤ p.src.length → 6 * p.left + 5 ≤ fuel →
    Ran p 0 Node.WellFormed (parseConcat fuel p)
  parts : ∀ (p : Parser) (nodes : List Node), p.pos ≤ p.src.length →
    6 * p.left + 4 ≤ fuel → (∀ node ∈ nodes, node.WellFormed) →
    Ran p 0 (fun nodes' => ∀ node ∈ nodes', node.WellFormed) (concatLoop fuel p nodes)
  quantified : ∀ p : Parser, p.pos ≤ p.src.length → 6 * p.left + 3 ≤ fuel →
    Ran p 1 Node.WellFormed (parseQuantified fuel p)
  atom : ∀ p : Parser, p.pos ≤ p.src.length → 6 * p.left + 2 ≤ fuel →
    Ran p 1 Node.WellFormed (parseAtom fuel p)

namespace Ends

variable {fuel : Nat}

theorem parseAlt (h : Ends fuel) (hp : p.pos ≤ p.src.length) (hfuel : 6 * p.left + 6 ≤ fuel + 1) :
    Ran p 0 Node.WellFormed (Parser.parseAlt (fuel + 1) p) := by
  unfold Parser.parseAlt
  refine Ran.bind (k := 0) (h.concat p hp (by omega))
    fun first p₁ h₁ hfirst => ?_
  have hleft₁ := h₁.left_le
  refine Ran.bind (k := 0) (h.alts p₁ [first] h₁.inside (by omega) ?_)
    fun alts p₂ h₂ halts => ?_
  · intro node hnode
    rw [List.mem_singleton.1 hnode]
    exact hfirst
  · exact .ok (.refl h₂.inside) (wellFormed_collect_alt halts)

theorem altLoop (h : Ends fuel) {nodes : List Node}
    (hp : p.pos ≤ p.src.length) (hfuel : 6 * p.left + 5 ≤ fuel + 1)
    (hnodes : ∀ node ∈ nodes, node.WellFormed) :
    Ran p 0 (fun nodes' => ∀ node ∈ nodes', node.WellFormed)
      (Parser.altLoop (fuel + 1) p nodes) := by
  unfold Parser.altLoop
  split
  case isFalse => exact .ok (.refl hp) hnodes
  case isTrue hbar =>
    have h₁ := after_bump_at hbar
    have hleft₁ := h₁.left_le
    have hpos : 0 < p.left := by
      have hlt := pos_lt_of_peek (beq_iff_eq.1 hbar)
      unfold left
      omega
    refine (Ran.shift (k := 0) h₁ ?_).le (Nat.zero_le _)
    refine Ran.bind (k := 0) (h.concat p.bump h₁.inside (by omega))
      fun node p₂ h₂ hnode => ?_
    have hleft₂ := h₂.left_le
    exact h.alts p₂ _ h₂.inside (by omega) (forall_mem_concat hnodes hnode)

theorem parseConcat (h : Ends fuel) (hp : p.pos ≤ p.src.length)
    (hfuel : 6 * p.left + 5 ≤ fuel + 1) :
    Ran p 0 Node.WellFormed (Parser.parseConcat (fuel + 1) p) := by
  unfold Parser.parseConcat
  refine Ran.bind (k := 0) (h.parts p [] hp (by omega) (by simp))
    fun parts p₁ h₁ hparts => ?_
  exact .ok (.refl h₁.inside) (wellFormed_collect_concat hparts)

theorem concatLoop (h : Ends fuel) {nodes : List Node}
    (hp : p.pos ≤ p.src.length) (hfuel : 6 * p.left + 4 ≤ fuel + 1)
    (hnodes : ∀ node ∈ nodes, node.WellFormed) :
    Ran p 0 (fun nodes' => ∀ node ∈ nodes', node.WellFormed)
      (Parser.concatLoop (fuel + 1) p nodes) := by
  unfold Parser.concatLoop
  cases hpeek : p.peek with
  | none => exact .ok (.refl hp) hnodes
  | some b =>
    have hpos : 0 < p.left := by
      have hlt := pos_lt_of_peek hpeek
      unfold left
      omega
    dsimp only
    split
    case isTrue => exact .ok (.refl hp) hnodes
    case isFalse =>
      refine (Ran.bind (k := 0) (h.quantified p hp (by omega))
        fun node p₁ h₁ hnode => ?_).le (Nat.zero_le _)
      have hleft₁ := h₁.left_le
      exact h.parts p₁ _ h₁.inside (by omega) (forall_mem_concat hnodes hnode)

theorem parseQuantified (h : Ends fuel) (hp : p.pos ≤ p.src.length)
    (hfuel : 6 * p.left + 3 ≤ fuel + 1) :
    Ran p 1 Node.WellFormed (Parser.parseQuantified (fuel + 1) p) := by
  unfold Parser.parseQuantified
  refine Ran.bind (k := 0) (h.atom p hp (by omega))
    fun atom p₁ h₁ hatom => ?_
  have hon := after_bump_zero h₁.inside
  dsimp only
  split
  case isTrue => exact .ok hon hatom
  case isFalse =>
    split
    case isTrue => exact .ok hon hatom
    case isFalse =>
      split
      case isTrue => exact .ok hon hatom
      case isFalse =>
        split
        case isFalse => exact .ok (.refl h₁.inside) hatom
        case isTrue =>
          refine (Ran.shift hon (Ran.bind (k := 0)
            (ran_parseRepeatBounds hon.inside)
            fun bounds p₂ h₂ hbounds => ?_)).le (Nat.zero_le _)
          exact .ok (.refl h₂.inside) ⟨hbounds, hatom⟩

theorem parseAtom (h : Ends fuel) (hfuel : 6 * p.left + 2 ≤ fuel + 1) :
    Ran p 1 Node.WellFormed (Parser.parseAtom (fuel + 1) p) := by
  unfold Parser.parseAtom
  cases hpeek : p.peek with
  | none => exact .err ..
  | some b =>
    have h₁ := after_bump hpeek
    have hpos : 0 < p.left := by
      have hlt := pos_lt_of_peek hpeek
      unfold left
      omega
    dsimp only
    split
    case isTrue =>
      -- the group, with or without the mark of a non-capturing one
      have hmark : ∀ {b : UInt8}, p.bump.peekNext = some b →
          After p.bump 0 { p.bump with pos := p.bump.pos + 2 } := by
        intro b hb
        exact ⟨rfl, Nat.le_add_right .., (List.getElem?_eq_some_iff.1 hb).1⟩
      have hgroup : After p.bump 0
          (if p.bump.at? '?' && p.bump.peekNext == some ':'.toUInt8
            then { p.bump with pos := p.bump.pos + 2 }
            else p.bump) := by
        split
        case isTrue hcolon =>
          exact hmark (beq_iff_eq.1 (Bool.and_eq_true_iff.1 hcolon).2)
        case isFalse => exact .refl h₁.inside
      have h₂ := h₁.trans hgroup
      have hleft₂ := h₂.left_le
      refine (Ran.shift h₂ (Ran.bind (k := 0)
        (h.alt _ h₂.inside (by omega))
        fun inner p₃ h₃ hinner => ?_)).le (by omega)
      dsimp only
      split
      case isTrue => exact .ok (after_bump_zero h₃.inside) hinner
      case isFalse => exact .err ..
    case isFalse =>
      split
      case isTrue =>
        refine (Ran.shift h₁ (Ran.bind (k := 0)
          (ran_parseCharClass h₁.inside)
          fun cls p₂ h₂ _ => ?_)).le (by omega)
        exact .ok (.refl h₂.inside) trivial
      case isFalse =>
        split
        case isTrue => exact .ok h₁ trivial
        case isFalse =>
          split
          case isTrue =>
            refine (Ran.shift h₁ (Ran.bind (k := 0)
              ran_parseEscape fun cls p₂ h₂ _ => ?_)).le (by omega)
            exact .ok (.refl h₂.inside) trivial
          case isFalse =>
            split
            case isTrue => exact .err ..
            case isFalse => exact .ok h₁ trivial

end Ends

theorem ends (fuel : Nat) : Ends fuel := by
  induction fuel with
  | zero =>
    constructor
    all_goals
      intros
      omega
  | succ fuel ih =>
    exact {
      alt := fun p hp hfuel => ih.parseAlt hp hfuel
      alts := fun p nodes hp hfuel hnodes => ih.altLoop hp hfuel hnodes
      concat := fun p hp hfuel => ih.parseConcat hp hfuel
      parts := fun p nodes hp hfuel hnodes =>
        ih.concatLoop hp hfuel hnodes
      quantified := fun p hp hfuel => ih.parseQuantified hp hfuel
      atom := fun p _ hfuel => ih.parseAtom hfuel }

theorem parseTop_ended (s : String) :
    (∃ e, (Parser.new s).parseTop = .error (.err e))
      ∨ ∃ ast : Node, (Parser.new s).parseTop = .ok ast ∧ ast.WellFormed := by
  have hran := (ends (6 * (Parser.new s).src.length + 6)).alt (Parser.new s)
    (Nat.zero_le _) (Nat.le_refl _)
  unfold parseTop
  cases hr : Parser.parseAlt (6 * (Parser.new s).src.length + 6) (Parser.new s) with
  | error e =>
    rw [hr] at hran
    cases e with
    | err e => exact Or.inl ⟨e, rfl⟩
    | unfinished => exact hran.elim
  | ok r =>
    rw [hr] at hran
    obtain ⟨ast, p⟩ := r
    rw [ok_bind]
    dsimp only
    split
    case isTrue => exact Or.inl ⟨_, rfl⟩
    case isFalse => exact Or.inr ⟨ast, rfl, hran.2⟩

theorem wellFormed_of_parseTop {s : String} {ast : Node}
    (h : (Parser.new s).parseTop = .ok ast) : ast.WellFormed := by
  rcases parseTop_ended s with ⟨e, he⟩ | ⟨ast', hast', hwf⟩
  · rw [h] at he
    cases he
  · rw [h] at hast'
    cases hast'
    exact hwf

end Parser

end OpenStandards.JouleclawDecode

/-
Where the items of a buffer lie.

An iterator made over a value with that value's absolute offset looks at
the input from there on (`Views`): one step passes over bytes 0, then over
a tag and a length field, and yields the bytes behind them (`next_ok`). So
the items of a level lie one behind the other (`level_of_yields`). The tree
has no offsets any more; `Forest` says where its nodes lie.
-/
import OpenStandards.OpEmv.Stream

namespace OpenStandards.OpEmv

open Lib

-- ==== padding

/-- From `a` to `b` there are only bytes 0. -/
def Zeros (bytes : Bytes) (a b : Nat) : Prop :=
  a ≤ b ∧ ∀ i, a ≤ i → i < b → bytes[i]? = some 0

theorem getElem?_takeWhile_zero {bytes : Bytes} {i : Nat}
    (h : i < (bytes.takeWhile (· == 0)).length) : bytes[i]? = some 0 := by
  induction bytes generalizing i with
  | nil => simp at h
  | cons b bs ih =>
    by_cases hb : b = 0
    · subst hb
      cases i with
      | zero => rfl
      | succ i =>
        rw [List.takeWhile_cons_of_pos rfl, List.length_cons] at h
        rw [List.getElem?_cons_succ]
        exact ih (by omega)
    · rw [List.takeWhile_cons_of_neg (by rw [beq_iff_eq]; exact hb)] at h
      simp at h

namespace TlvIter

theorem zeros_skipPadding (it : TlvIter) : Zeros it.buf it.pos it.skipPadding.pos := by
  refine ⟨Nat.le_add_right .., fun i hlow hhigh => ?_⟩
  have hi : i - it.pos < ((it.buf.drop it.pos).takeWhile (· == 0)).length := by
    have hhigh : i < it.pos + ((it.buf.drop it.pos).takeWhile (· == 0)).length := hhigh
    omega
  have hzero := getElem?_takeWhile_zero hi
  rw [List.getElem?_drop] at hzero
  rwa [show it.pos + (i - it.pos) = i by omega] at hzero

variable {it : TlvIter}

theorem skipPadding_pos_le (h : it.pos ≤ it.buf.length) :
    it.skipPadding.pos ≤ it.buf.length := by
  have hle := (List.takeWhile_sublist (· == (0 : UInt8)) (l := it.buf.drop it.pos)).length_le
  rw [List.length_drop] at hle
  show it.pos + _ ≤ _
  omega

-- ==== steps

/-- Nothing is yielded at the end only, or after an error. -/
theorem next_none {it' : TlvIter} (h : it.next = (none, it')) :
    it.failed = true ∨ it.buf.length ≤ it.skipPadding.pos := by
  unfold next at h
  split at h
  · next hfailed => exact .inl hfailed
  · dsimp only at h
    split at h
    · next hend => exact .inr hend
    · split at h
      · cases h
      · unfold nextValue at h
        split at h
        · cases h
        · dsimp only at h
          split at h
          · cases h
          · cases h

theorem next_error {it' : TlvIter} {e : Error} (h : it.next = (some (.error e), it')) :
    it.failed = false ∧ it'.failed = true := by
  unfold next at h
  split at h
  · cases h
  · next hok =>
      refine ⟨Bool.eq_false_iff.2 hok, ?_⟩
      dsimp only at h
      split at h
      · cases h
      · split at h
        · cases h
          rfl
        · unfold nextValue at h
          split at h
          · cases h
            rfl
          · dsimp only at h
            split at h
            · cases h
              rfl
            · cases h

theorem next_of_failed (h : it.failed = true) : it.next = (none, it) := if_pos h

theorem yields_of_failed (h : it.failed = true)
    {rs : List (Except Error TlvRef)} (hy : Yields it rs) : rs = [] := by
  cases hy with
  | done _ => rfl
  | more hnext _ => cases (next_of_failed h).symm.trans hnext

/-- Every iterator is exhausted after so many items. -/
theorem yields_exists {n : Nat} : ∀ {it : TlvIter}, it.remaining < n → ∃ rs, Yields it rs := by
  induction n with
  | zero => exact fun h => absurd h (Nat.not_lt_zero _)
  | succ n ih =>
    intro it hn
    cases hnext : it.next with
    | mk item it' =>
      cases item with
      | none => exact ⟨[], .done hnext⟩
      | some item =>
        cases item with
        | error e =>
          have hfailed := (next_error hnext).2
          exact ⟨[.error e], .more hnext (.done (next_of_failed hfailed))⟩
        | ok r =>
          have hless := (remaining_next hnext).2
          have hleft : it'.remaining < n := by omega
          obtain ⟨rs, hrs⟩ := ih hleft
          exact ⟨.ok r :: rs, .more hnext hrs⟩

theorem yields_unique {rs rs' : List (Except Error TlvRef)} (h : Yields it rs)
    (h' : Yields it rs') : rs = rs' := by
  induction h generalizing rs' with
  | done hnext =>
    cases h' with
    | done _ => rfl
    | more hnext' _ => cases hnext.symm.trans hnext'
  | more hnext hrest ih =>
    cases h' with
    | done hnext' => cases hnext.symm.trans hnext'
    | more hnext' hrest' =>
      cases hnext.symm.trans hnext'
      rw [ih hrest']

end TlvIter

-- ==== levels

/-- The value of an item is the bytes of the input from its offset on. -/
structure TlvRef.ExactIn (input : Bytes) (r : TlvRef) : Prop where
  header : r.offset < r.valueOffset
  within : r.valueOffset + r.value.length ≤ input.length
  value : r.value = (input.drop r.valueOffset).take r.value.length

/-- What is yielded from `a` on: items one behind the other, with only
bytes 0 in front of each, up to `stop` or to an error, after which there
is nothing. -/
inductive Level (input : Bytes) (stop : Nat) : Nat → List (Except Error TlvRef) → Prop
  | done {a : Nat} (hpad : Zeros input a stop) : Level input stop a []
  | failed {a : Nat} (e : Error) (hle : a ≤ stop) :
      Level input stop a [.error e]
  | item {a : Nat} {r : TlvRef} {rs : List (Except Error TlvRef)}
      (hpad : Zeros input a r.offset) (hexact : r.ExactIn input)
      (hrest : Level input stop (r.valueOffset + r.value.length) rs) :
      Level input stop a (.ok r :: rs)

variable {input : Bytes}

theorem Level.exactIn {stop a : Nat} {rs : List (Except Error TlvRef)}
    (h : Level input stop a rs) {r : TlvRef} (hr : .ok r ∈ rs) :
    r.ExactIn input := by
  induction h with
  | done hpad => simp at hr
  | failed e hle => simp at hr
  | item hpad hexact hrest ih =>
    cases List.mem_cons.1 hr with
    | inl heq => exact Except.ok.inj heq ▸ hexact
    | inr hmem => exact ih hmem

/-- The buffer of an iterator is the input from its base offset on. -/
structure Views (input : Bytes) (it : TlvIter) : Prop where
  within : it.baseOffset + it.buf.length ≤ input.length
  buf : it.buf = (input.drop it.baseOffset).take it.buf.length

namespace Views

variable {input : Bytes} {it : TlvIter}

theorem getElem? (h : Views input it) {i : Nat} (hi : i < it.buf.length) :
    it.buf[i]? = input[it.baseOffset + i]? := by
  rw [h.buf, List.getElem?_take_of_lt hi, List.getElem?_drop]

theorem zeros (h : Views input it) {a b : Nat} (hz : Zeros it.buf a b) (hb : b ≤ it.buf.length) :
    Zeros input (it.baseOffset + a) (it.baseOffset + b) := by
  refine ⟨Nat.add_le_add_left hz.1 _, fun i hlow hhigh => ?_⟩
  have hzero := hz.2 (i - it.baseOffset) (by omega) (by omega)
  rw [h.getElem? (by omega)] at hzero
  rwa [show it.baseOffset + (i - it.baseOffset) = i by omega] at hzero

theorem slice (h : Views input it) {a n : Nat} (hn : a + n ≤ it.buf.length) :
    (it.buf.drop a).take n = (input.drop (it.baseOffset + a)).take n := by
  rw [h.buf, List.drop_take, List.take_take, List.drop_drop, Nat.min_eq_left (by omega)]

/-- What is yielded lies in the input, and the rest of it behind. -/
theorem item (h : Views input it) (hpos : it.pos ≤ it.buf.length)
    {it' : TlvIter} {r : TlvRef} (hnext : it.next = (some (.ok r), it')) :
    Zeros input (it.baseOffset + it.pos) r.offset ∧ r.ExactIn input
      ∧ Views input it' ∧ it'.failed = false ∧ it'.pos ≤ it'.buf.length
      ∧ it'.baseOffset + it'.buf.length = it.baseOffset + it.buf.length
      ∧ it'.baseOffset + it'.pos = r.valueOffset + r.value.length := by
  obtain ⟨hbuf, hbase, hok, start, hoffset, hstart, hvalue, hslice, hpos',
    hle⟩ := TlvIter.next_ok hnext
  have hskip := TlvIter.skipPadding_pos_le hpos
  have hwithin := h.within
  refine ⟨?_, ⟨by omega, by omega, ?_⟩, ⟨?_, ?_⟩, hok, ?_, ?_, ?_⟩
  · rw [hoffset]
    exact h.zeros it.zeros_skipPadding hskip
  · rw [hvalue, ← h.slice (by omega)]
    exact hslice
  · rw [hbase, hbuf]
    exact hwithin
  · rw [hbase, hbuf]
    exact h.buf
  · rw [hbuf]
    exact hle
  · rw [hbase, hbuf]
  · omega

theorem level (h : Views input it) (hok : it.failed = false)
    (hpos : it.pos ≤ it.buf.length) {rs : List (Except Error TlvRef)}
    (hy : TlvIter.Yields it rs) :
    Level input (it.baseOffset + it.buf.length) (it.baseOffset + it.pos)
      rs := by
  induction hy with
  | @done it it' hnext =>
    have hskip := TlvIter.skipPadding_pos_le hpos
    obtain hfailed | hend := TlvIter.next_none hnext
    · exact absurd (hok.symm.trans hfailed) Bool.false_ne_true
    · have hzeros := it.zeros_skipPadding
      rw [Nat.le_antisymm hskip hend] at hzeros
      exact .done (h.zeros hzeros (Nat.le_refl _))
  | @more it it' item rs hnext hrest ih =>
    cases item with
    | error e =>
      obtain rfl := TlvIter.yields_of_failed (TlvIter.next_error hnext).2 hrest
      exact .failed e (Nat.add_le_add_left hpos _)
    | ok r =>
      obtain ⟨hpad, hexact, hviews, hok', hpos', hstop, hbehind⟩ :=
        h.item hpos hnext
      have hlevel := ih hviews hok' hpos'
      rw [hstop, hbehind] at hlevel
      exact .item hpad hexact hlevel

theorem root (input : Bytes) : Views input (.new input) := by
  refine ⟨?_, ?_⟩
  · show 0 + input.length ≤ _
    omega
  · show input = (input.drop 0).take input.length
    simp

theorem child {r : TlvRef} (h : r.ExactIn input) :
    Views input (.withBaseOffset r.value r.valueOffset) :=
  ⟨h.within, h.value⟩

end Views

/-- An iterator over the input, or over the value of an item that such an
iterator yields. -/
inductive Nested (input : Bytes) : TlvIter → Prop
  | root : Nested input (.new input)
  | child {it : TlvIter} {rs : List (Except Error TlvRef)} {r : TlvRef}
      (h : Nested input it) (hy : it.Yields rs) (hr : .ok r ∈ rs) :
      Nested input (.withBaseOffset r.value r.valueOffset)

theorem Nested.views {it : TlvIter} (h : Nested input it) :
    Views input it ∧ it.failed = false ∧ it.pos = 0 := by
  induction h with
  | root => exact ⟨.root input, rfl, rfl⟩
  | child h hy hr ih =>
    obtain ⟨hviews, hok, hpos⟩ := ih
    have hlevel := hviews.level hok (hpos ▸ Nat.zero_le _) hy
    exact ⟨.child (hlevel.exactIn hr), rfl, rfl⟩

-- ==== the tree

mutual

/-- Nodes that lie one behind the other from `a` to `b`, with only bytes 0
between them. -/
inductive Forest (input : Bytes) : Nat → Nat → List Tlv → Prop
  | nil {a b : Nat} (hpad : Zeros input a b) : Forest input a b []
  | cons {a b : Nat} {r : TlvRef} {tlv : Tlv} {tlvs : List Tlv}
      (hpad : Zeros input a r.offset) (hexact : r.ExactIn input)
      (hnode : Node input r tlv)
      (hrest : Forest input (r.valueOffset + r.value.length) b tlvs) :
      Forest input a b (tlv :: tlvs)

/-- A node is made of an item: it has its value, or children that lie over
the value. -/
inductive Node (input : Bytes) : TlvRef → Tlv → Prop
  | primitive {r : TlvRef} (h : r.tag.isConstructed = false) :
      Node input r ⟨r.tag, .primitive r.value⟩
  | constructed {r : TlvRef} {children : List Tlv}
      (h : r.tag.isConstructed = true)
      (hchildren : Forest input r.valueOffset (r.valueOffset + r.value.length) children) :
      Node input r ⟨r.tag, .constructed children⟩

end

/-- What a loop over at most `n` bytes builds lies in the input. -/
def Builds (input : Bytes) (n : Nat) : Prop :=
  ∀ it : TlvIter, it.remaining < n → Views input it → it.failed = false →
    it.pos ≤ it.buf.length → ∀ tlvs, Tlv.fromIter it = .ok tlvs →
      Forest input (it.baseOffset + it.pos) (it.baseOffset + it.buf.length) tlvs

theorem node_of_fromRef {n : Nat} (ih : Builds input n) {r : TlvRef}
    (hn : r.value.length < n) (hexact : r.ExactIn input) {tlv : Tlv}
    (h : Tlv.fromRef r = .ok tlv) : Node input r tlv := by
  rw [Tlv.fromRef] at h
  split at h
  · next hconstructed =>
      obtain ⟨children, hchildren, h⟩ := bind_eq_ok.1 h
      cases h
      exact .constructed hconstructed (ih
        (.withBaseOffset r.value r.valueOffset) hn (.child hexact) rfl
        (Nat.zero_le _) children hchildren)
  · next hprimitive =>
      cases h
      exact .primitive (Bool.eq_false_iff.2 hprimitive)

/-- Induction over the bytes in front of the loop: the value of an item and
what is behind it are both fewer. -/
theorem builds (input : Bytes) (n : Nat) : Builds input n := by
  induction n with
  | zero => exact fun it hn => absurd hn (Nat.not_lt_zero _)
  | succ n ih =>
    intro it hn hviews hok hpos tlvs h
    rw [Tlv.fromIter] at h
    split at h
    · next it' hnext =>
        cases h
        have hlevel := hviews.level hok hpos (.done hnext)
        cases hlevel with
        | done hpad => exact .nil hpad
    · cases h
    · next r it' hnext =>
        obtain ⟨hless, hless'⟩ := TlvIter.remaining_next hnext
        obtain ⟨hpad, hexact, hviews', hok', hpos', hstop, hbehind⟩ :=
          hviews.item hpos hnext
        obtain ⟨tlv, htlv, h⟩ := bind_eq_ok.1 h
        obtain ⟨rest, hrest, h⟩ := bind_eq_ok.1 h
        cases h
        have hforest := ih it' (by omega) hviews' hok' hpos' rest hrest
        rw [hstop, hbehind] at hforest
        exact .cons hpad hexact (node_of_fromRef ih (by omega) hexact htlv) hforest

-- ==== the law

/-- What an iterator over a part of the input yields: one list of items,
after finitely many steps, that is a level over that part. -/
def SpansExact (input : Bytes) (it : TlvIter) : Prop :=
  ∃ rs, it.Yields rs ∧ (∀ rs', it.Yields rs' → rs' = rs)
    ∧ Level input (it.baseOffset + it.buf.length) it.baseOffset rs

/-- **TLV spans are exact.** Over every input, each iterator, nested at any
depth, yields a level of the input, and the nodes of the tree lie in the
input as the items do. -/
theorem spans_exact (input : Bytes) :
    (∀ it, Nested input it → SpansExact input it)
      ∧ ∀ tlvs, Tlv.parseAll input = .ok tlvs → Forest input 0 input.length tlvs := by
  constructor
  · intro it hnested
    obtain ⟨hviews, hok, hpos⟩ := hnested.views
    obtain ⟨rs, hrs⟩ := TlvIter.yields_exists (Nat.lt_succ_self it.remaining)
    refine ⟨rs, hrs, fun rs' hrs' => TlvIter.yields_unique hrs' hrs, ?_⟩
    have hlevel := hviews.level hok (hpos ▸ Nat.zero_le _) hrs
    rwa [hpos, Nat.add_zero] at hlevel
  · intro tlvs h
    have hforest := builds input _ (.new input) (Nat.lt_succ_self _)
      (.root input) rfl (Nat.zero_le _) tlvs h
    have hbase : (TlvIter.new input).baseOffset = 0 := rfl
    rw [hbase, Nat.zero_add, Nat.zero_add] at hforest
    exact hforest

end OpenStandards.OpEmv

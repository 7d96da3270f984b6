/-
Decoders over a byte string with a cursor.

A decoder answers, refuses with an error, or panics: a slice or an index
out of range, an array copied from a slice of another length, a `usize`
addition that overflows. A decoder `Reads` an encoding when, wherever the
encoding stands (`At`), it answers the value and leaves the cursor right
behind it. Reads compose: in sequence by hand, in a counted loop by
`reads_many`.
-/
import OpenStandards.Lib.Fallible
import Mathlib.Data.Vector.Basic
import OpenStandards.Lib.Bytes

namespace OpenStandards.Lib

section

/-- How a decoder can fail. -/
inductive Fault (ε : Type) where
  | err (e : ε)
  | panic
deriving DecidableEq

variable {ε α β : Type}

-- ==== operations

/-- The slice `&input[i..]`. -/
def sliceFrom (input : List UInt8) (i : Nat) : Except (Fault ε) (List UInt8) :=
  if i ≤ input.length then .ok (input.drop i) else .error .panic

/-- The slice `&input[i..j]`. -/
def slice (input : List UInt8) (i j : Nat) : Except (Fault ε) (List UInt8) :=
  if i ≤ j ∧ j ≤ input.length then .ok ((input.drop i).take (j - i))
  else .error .panic

/-- The byte `input[i]`. -/
def byteAt (input : List UInt8) (i : Nat) : Except (Fault ε) UInt8 :=
  match input[i]? with
  | some b => .ok b
  | none => .error .panic

/-- The sum of two `usize` values. -/
def addUsize (a b : Nat) : Except (Fault ε) Nat :=
  if a + b < 2 ^ 64 then .ok (a + b) else .error .panic

/-- An array of `n` bytes filled by `copy_from_slice`. -/
def copyFromSlice (n : Nat) (bytes : List UInt8) : Except (Fault ε) (List.Vector UInt8 n) :=
  if h : bytes.length = n then .ok ⟨bytes, h⟩ else .error .panic

theorem copyFromSlice_toList {n : Nat} (v : List.Vector UInt8 n) :
    (copyFromSlice n v.toList : Except (Fault ε) _) = .ok v := by
  obtain ⟨bytes, rfl⟩ := v
  exact dif_pos rfl

def readAt (decode : List UInt8 → Except (Fault ε) (α × Nat))
    (input : List UInt8) (cursor : Nat) : Except (Fault ε) (α × Nat) := do
  let rest ← sliceFrom input cursor
  let (x, used) ← decode rest
  let cursor ← addUsize cursor used
  return (x, cursor)

/-- Copy `n` bytes at the cursor, or refuse. -/
def readFixed (n : Nat) (e : ε) (input : List UInt8) (cursor : Nat) :
    Except (Fault ε) (List.Vector UInt8 n × Nat) := do
  let stop ← addUsize cursor n
  refuse (input.length < stop) (.err e)
  let bytes ← slice input cursor stop
  let array ← copyFromSlice n bytes
  return (array, stop)

/-- The loop `for _ in 0..n`: read so many items. -/
def readMany (readOne : Nat → Except (Fault ε) (α × Nat)) :
    Nat → Nat → Except (Fault ε) (List α × Nat)
  | 0, cursor => .ok ([], cursor)
  | n + 1, cursor => do
    let (x, cursor) ← readOne cursor
    let (xs, cursor) ← readMany readOne n cursor
    return (x :: xs, cursor)

-- ==== what is read

/-- The cursor stands before `rest`, in an input that can be indexed. -/
structure At (input : List UInt8) (cursor : Nat) (rest : List UInt8) : Prop where
  split : ∃ done, input = done ++ rest ∧ cursor = done.length
  fits : input.length < 2 ^ 64

/-- Wherever the encoding stands, the reader answers the value and leaves
the cursor behind it. -/
def Reads (input : List UInt8) (read : Nat → Except (Fault ε) (α × Nat))
    (encoding : List UInt8) (x : α) : Prop :=
  ∀ cursor rest, At input cursor (encoding ++ rest) →
    ∃ cursor', read cursor = .ok (x, cursor') ∧ At input cursor' rest

namespace At

variable {input rest : List UInt8} {cursor : Nat}

theorem start (h : input.length < 2 ^ 64) : At input 0 input :=
  ⟨⟨[], rfl, rfl⟩, h⟩

theorem le_length (h : At input cursor rest) : cursor ≤ input.length := by
  obtain ⟨done, rfl, rfl⟩ := h.split
  simp

theorem length_eq (h : At input cursor rest) : input.length = cursor + rest.length := by
  obtain ⟨done, rfl, rfl⟩ := h.split
  exact List.length_append

theorem drop_eq (h : At input cursor rest) : input.drop cursor = rest := by
  obtain ⟨done, rfl, rfl⟩ := h.split
  exact List.drop_left

theorem append_nil (h : At input cursor rest) : At input cursor (rest ++ []) := by
  rw [List.append_nil]
  exact h

variable {part : List UInt8}

theorem move (h : At input cursor (part ++ rest)) : At input (cursor + part.length) rest := by
  obtain ⟨done, rfl, rfl⟩ := h.split
  exact ⟨⟨done ++ part, (List.append_assoc ..).symm, List.length_append.symm⟩, h.fits⟩

theorem sliceFrom_eq (h : At input cursor rest) :
    (sliceFrom input cursor : Except (Fault ε) _) = .ok rest := by
  unfold sliceFrom
  rw [if_pos h.le_length, h.drop_eq]

theorem addUsize_eq (h : At input cursor (part ++ rest)) :
    (addUsize cursor part.length : Except (Fault ε) _) = .ok (cursor + part.length) := by
  have hlen := h.length_eq
  have hfits := h.fits
  rw [List.length_append] at hlen
  exact if_pos (by omega)

theorem slice_eq (h : At input cursor (part ++ rest)) :
    (slice input cursor (cursor + part.length) : Except (Fault ε) _) = .ok part := by
  have hlen := h.length_eq
  rw [List.length_append] at hlen
  unfold slice
  rw [if_pos ⟨by omega, by omega⟩, h.drop_eq, Nat.add_sub_cancel_left, List.take_left]

theorem byteAt_eq {b : UInt8} (h : At input cursor (b :: rest)) :
    (byteAt input cursor : Except (Fault ε) _) = .ok b := by
  obtain ⟨done, rfl, rfl⟩ := h.split
  unfold byteAt
  rw [List.getElem?_append_right (Nat.le_refl _), Nat.sub_self]
  rfl

end At

theorem reads_readAt {decode : List UInt8 → Except (Fault ε) (α × Nat)}
    {encoding : List UInt8} {x : α}
    (h : encoding.length < 2 ^ 64 → ∀ rest,
      decode (encoding ++ rest) = .ok (x, encoding.length))
    (input : List UInt8) : Reads input (readAt decode input) encoding x := by
  intro cursor rest hat
  refine ⟨cursor + encoding.length, ?_, hat.move⟩
  have hlen := hat.length_eq
  have hfits := hat.fits
  rw [List.length_append] at hlen
  unfold readAt
  rw [hat.sliceFrom_eq, ok_bind, h (by omega), ok_bind]
  dsimp only
  rw [hat.addUsize_eq]
  rfl

theorem reads_readFixed {n : Nat} (e : ε) (array : List.Vector UInt8 n) (input : List UInt8) :
    Reads input (readFixed n e input) array.toList array := by
  obtain ⟨bytes, rfl⟩ := array
  intro cursor rest hat
  change At input cursor (bytes ++ rest) at hat
  refine ⟨cursor + bytes.length, ?_, hat.move⟩
  have hlen := hat.length_eq
  rw [List.length_append] at hlen
  unfold readFixed
  rw [hat.addUsize_eq, ok_bind, check_bind_eq_ok, refuse_eq_ok]
  refine ⟨by omega, ?_⟩
  rw [hat.slice_eq, ok_bind]
  exact bind_eq_ok.2 ⟨_, copyFromSlice_toList ⟨bytes, rfl⟩, rfl⟩

theorem Reads.last {input encoding : List UInt8} {read : Nat → Except (Fault ε) (α × Nat)} {x : α}
    (h : Reads input read encoding x) {cursor : Nat} (hat : At input cursor encoding) :
    ∃ cursor', read cursor = .ok (x, cursor') := by
  obtain ⟨cursor', hread, -⟩ := h cursor [] hat.append_nil
  exact ⟨cursor', hread⟩

theorem reads_many {input : List UInt8}
    {readOne : Nat → Except (Fault ε) (α × Nat)} {encode : α → List UInt8}
    {xs : List α} (h : ∀ x ∈ xs, Reads input readOne (encode x) x) :
    Reads input (readMany readOne xs.length) (xs.flatMap encode) xs := by
  induction xs with
  | nil =>
    intro cursor rest hat
    exact ⟨cursor, rfl, hat⟩
  | cons x xs ih =>
    intro cursor rest hat
    rw [List.flatMap_cons, List.append_assoc] at hat
    obtain ⟨c₁, h₁, hat₁⟩ := h x List.mem_cons_self cursor _ hat
    obtain ⟨c₂, h₂, hat₂⟩ :=
      ih (fun y hy => h y (List.mem_cons_of_mem _ hy)) c₁ rest hat₁
    refine ⟨c₂, ?_, hat₂⟩
    rw [List.length_cons, readMany, h₁, ok_bind]
    dsimp only
    rw [h₂]
    rfl

end

/-
Decoders that keep to their input.

`Confined P r` says that a decoder's result is no panic and that a value
it answers has the property `P`: one rule for each operation that may
panic, and one for sequencing (`Confined.bind`). The property worth
passing on is where the cursor stands: a `Within` decoder uses no more
bytes than it is given, so what is read next begins inside the input.
-/

section

variable {ε α β : Type}

/-- No panic, and a value as wanted. -/
def Confined (P : α → Prop) (r : Except (Fault ε) α) : Prop :=
  r ≠ .error .panic ∧ ∀ x, r = .ok x → P x

variable {P : α → Prop} {Q : β → Prop}

namespace Confined

theorem ok {x : α} (h : P x) : Confined P (.ok x : Except (Fault ε) α) :=
  ⟨nofun, fun _ heq => Except.ok.inj heq ▸ h⟩

theorem err (e : ε) : Confined P (.error (.err e) : Except (Fault ε) α) :=
  ⟨nofun, nofun⟩

variable {r : Except (Fault ε) α}

theorem mono {P' : α → Prop} (h : Confined P r) (hPP' : ∀ x, P x → P' x) : Confined P' r :=
  ⟨h.1, fun x heq => hPP' x (h.2 x heq)⟩

/-- The rule of sequencing. -/
theorem bind {f : α → Except (Fault ε) β} (h : Confined P r)
    (hf : ∀ x, P x → Confined Q (f x)) : Confined Q (r >>= f) := by
  cases r with
  | ok x => exact hf x (h.2 x rfl)
  | error e =>
    cases e with
    | err e => exact err e
    | panic => exact absurd rfl h.1

/-- An early return, and what follows where it is not taken. -/
theorem refuse_bind {c : Prop} [Decidable c] {e : ε}
    {f : Unit → Except (Fault ε) β} (h : ¬ c → Confined Q (f ())) :
    Confined Q (refuse c (.err e) >>= f) := by
  unfold refuse
  by_cases hc : c
  · rw [if_pos hc]
    exact err e
  · rw [if_neg hc]
    exact h hc

/-- Both branches of a test. -/
theorem ite {c : Prop} [Decidable c] {r' : Except (Fault ε) α}
    (h : Confined P r) (h' : Confined P r') :
    Confined P (if c then r else r') := by
  by_cases hc : c
  · rw [if_pos hc]
    exact h
  · rw [if_neg hc]
    exact h'

end Confined

-- ==== operations

variable {i n : Nat}

theorem confined_sliceFrom {input : List UInt8} (h : i ≤ input.length) :
    Confined (· = input.drop i) (sliceFrom input i : Except (Fault ε) (List UInt8)) := by
  unfold sliceFrom
  rw [if_pos h]
  exact Confined.ok rfl

theorem confined_slice {input : List UInt8} {j : Nat} (hij : i ≤ j) (hj : j ≤ input.length) :
    Confined (fun bytes => bytes = (input.drop i).take (j - i) ∧ bytes.length = j - i)
      (slice input i j : Except (Fault ε) (List UInt8)) := by
  unfold slice
  rw [if_pos ⟨hij, hj⟩]
  refine Confined.ok ⟨rfl, ?_⟩
  rw [List.length_take, List.length_drop]
  omega

theorem byteAt_of_lt {input : List UInt8} (h : i < input.length) :
    (byteAt input i : Except (Fault ε) UInt8) = .ok input[i] := by
  unfold byteAt
  rw [List.getElem?_eq_getElem h]

theorem confined_byteAt {input : List UInt8} (h : i < input.length) :
    Confined (· = input[i]) (byteAt input i : Except (Fault ε) UInt8) := by
  rw [byteAt_of_lt h]
  exact Confined.ok rfl

theorem confined_addUsize {a b : Nat} (h : a + b < 2 ^ 64) :
    Confined (· = a + b) (addUsize a b : Except (Fault ε) Nat) := by
  unfold addUsize
  rw [if_pos h]
  exact Confined.ok rfl

theorem confined_copyFromSlice {bytes : List UInt8} (h : bytes.length = n) :
    Confined (fun _ => True)
      (copyFromSlice n bytes : Except (Fault ε) (List.Vector UInt8 n)) := by
  unfold copyFromSlice
  rw [dif_pos h]
  exact Confined.ok trivial

-- ==== decoders

/-- On an input that can be indexed, the decoder does not panic and uses
no more bytes than there are. -/
def Within (decode : List UInt8 → Except (Fault ε) (α × Nat)) : Prop :=
  ∀ input, input.length < 2 ^ 64 → Confined (fun r => r.2 ≤ input.length) (decode input)

/-- From a cursor in the input, the reader does not panic and leaves the
cursor in the input, not before where it stood. -/
def Advances (input : List UInt8) (read : Nat → Except (Fault ε) (α × Nat)) : Prop :=
  ∀ cursor, cursor ≤ input.length →
    Confined (fun r => cursor ≤ r.2 ∧ r.2 ≤ input.length) (read cursor)

variable {input : List UInt8}

section

variable {decode : List UInt8 → Except (Fault ε) (α × Nat)}

variable {cursor : Nat}

/-- Where a decoder answers, reading it at a cursor moves the cursor by
what it uses. -/
theorem readAt_of_ok {used : Nat} {x : α} (hcursor : cursor ≤ input.length)
    (hfits : cursor + used < 2 ^ 64) (h : decode (input.drop cursor) = .ok (x, used)) :
    readAt decode input cursor = .ok (x, cursor + used) := by
  unfold readAt sliceFrom addUsize
  rw [if_pos hcursor, ok_bind, h, ok_bind]
  dsimp only
  rw [if_pos hfits]
  rfl

theorem confined_readAt_of (hcursor : cursor ≤ input.length)
    (h : Confined (fun r => P r.1 ∧ r.2 ≤ input.length - cursor
      ∧ cursor + r.2 < 2 ^ 64) (decode (input.drop cursor))) :
    Confined (fun r => P r.1 ∧ r.2 ≤ input.length ∧ ∃ used,
        decode (input.drop cursor) = .ok (r.1, used) ∧ r.2 = cursor + used)
      (readAt decode input cursor) := by
  unfold readAt
  refine (confined_sliceFrom hcursor).bind fun rest heq => ?_
  subst heq
  cases hdecode : decode (input.drop cursor) with
  | error e =>
    cases e with
    | err e => exact Confined.err e
    | panic => exact absurd hdecode h.1
  | ok r =>
    obtain ⟨hval, hused, hfits⟩ := h.2 r hdecode
    rw [ok_bind]
    refine (confined_addUsize hfits).bind fun c hc => ?_
    exact Confined.ok ⟨hval, by omega, r.2, rfl, hc⟩

theorem confined_readAt (hfits : input.length < 2 ^ 64) (h : Within decode)
    (hcursor : cursor ≤ input.length) :
    Confined (fun r => r.2 ≤ input.length ∧ ∃ used,
        decode (input.drop cursor) = .ok (r.1, used) ∧ r.2 = cursor + used)
      (readAt decode input cursor) := by
  have hlen : (input.drop cursor).length = input.length - cursor :=
    List.length_drop
  refine (confined_readAt_of (P := fun _ => True) hcursor ?_).mono
    fun _ hr => hr.2
  exact (h (input.drop cursor) (by omega)).mono fun r hr =>
    ⟨trivial, by omega, by omega⟩

theorem advances_readAt (hfits : input.length < 2 ^ 64)
    (h : Within decode) : Advances input (readAt decode input) :=
  fun _ hcursor => (confined_readAt hfits h hcursor).mono
    fun _ ⟨hle, _, _, heq⟩ => ⟨by omega, hle⟩

end

theorem confined_readFixed {cursor : Nat} (hfits : cursor + n < 2 ^ 64)
    (e : ε) : Confined (fun r => r.2 = cursor + n ∧ r.2 ≤ input.length)
      (readFixed n e input cursor) := by
  unfold readFixed
  refine (confined_addUsize hfits).bind fun stop hstop => ?_
  refine Confined.refuse_bind fun hlen => ?_
  refine (confined_slice (by omega) (by omega)).bind fun bytes hbytes => ?_
  refine (confined_copyFromSlice (by omega)).bind fun array _ => ?_
  exact Confined.ok ⟨hstop, by omega⟩

theorem advances_readFixed (hfits : input.length + n < 2 ^ 64) (e : ε) :
    Advances input (readFixed n e input) := by
  intro cursor hcursor
  refine (confined_readFixed (by omega) e).mono fun r hr => ?_
  exact ⟨by omega, hr.2⟩

/-- A counted loop advances where its turns do, however many are
asked for. -/
theorem advances_readMany {readOne : Nat → Except (Fault ε) (α × Nat)}
    (h : Advances input readOne) (n : Nat) :
    Advances input (readMany readOne n) := by
  induction n with
  | zero =>
    intro cursor hcursor
    exact Confined.ok ⟨le_rfl, hcursor⟩
  | succ n ih =>
    intro cursor hcursor
    unfold readMany
    refine (h cursor hcursor).bind fun r hr => ?_
    refine (ih r.2 hr.2).bind fun rs hrs => ?_
    exact Confined.ok ⟨hr.1.trans hrs.1, hrs.2⟩

/-- A loop that collects is confined where its turns are. -/
theorem confined_mapM {f : α → Except (Fault ε) β} {l : List α} (h : ∀ x ∈ l, Confined Q (f x)) :
    Confined (fun ys => ∀ y ∈ ys, Q y) (l.mapM f) := by
  induction l with
  | nil => exact Confined.ok (List.forall_mem_nil _)
  | cons x l ih =>
    rw [List.mapM_cons]
    refine (h x List.mem_cons_self).bind fun y hy => ?_
    refine (ih fun z hz => h z (List.mem_cons_of_mem _ hz)).bind
      fun ys hys => ?_
    exact Confined.ok (List.forall_mem_cons.2 ⟨hy, hys⟩)

/-- The error of another kind of computation is no panic. -/
theorem confined_mapError {ε' : Type} (r : Except ε' α) (f : ε' → ε) :
    Confined (fun _ => True) (r.mapError fun e => Fault.err (f e)) := by
  cases r with
  | ok x => exact Confined.ok trivial
  | error e => exact Confined.err _

end

/-
Sequential readers of a byte string: they take a number of bytes, or a
number of big-endian bytes, from a cursor and leave it behind them. How a
string that is too short is reported is up to the format.

`Reads` composes: reading two encodings one after the other reads their
concatenation (`Reads.bind`), so a decoder is read off its fields.
-/

variable {ε α β : Type}

-- ==== readers

section

-- the error of a read: the cursor, what was wanted, and what there is
variable (short : Nat → Nat → Nat → ε) (input : List UInt8)

/-- The next `n` bytes. -/
def takeAt (n cursor : Nat) : Except (Fault ε) (List UInt8 × Nat) := do
  let stop ← addUsize cursor n
  if stop > input.length then .error (.err (short cursor n input.length))
  else .ok ((input.drop cursor).take n, stop)

/-- The next `k` bytes, as a number. -/
def beAt (k cursor : Nat) : Except (Fault ε) (Nat × Nat) := do
  let (bytes, cursor) ← takeAt short input k cursor
  .ok (ofBeBytes bytes, cursor)

theorem reads_takeAt (part : List UInt8) :
    Reads input (takeAt short input part.length) part part := by
  intro cursor rest hat
  refine ⟨cursor + part.length, ?_, hat.move⟩
  have hlen := hat.length_eq
  rw [List.length_append] at hlen
  unfold takeAt
  rw [hat.addUsize_eq, ok_bind, if_neg (by omega), hat.drop_eq, List.take_left]

theorem reads_beAt {k n : Nat} (h : n < 256 ^ k) :
    Reads input (beAt short input k) (beBytes k n) n := by
  intro cursor rest hat
  obtain ⟨cursor', htake, hat'⟩ :=
    reads_takeAt short input (beBytes k n) cursor rest hat
  rw [length_beBytes] at htake
  refine ⟨cursor', ?_, hat'⟩
  unfold beAt
  rw [htake, ok_bind]
  dsimp only
  rw [ofBeBytes_beBytes_of_lt h]

/-- Too few bytes for a number. -/
theorem beAt_short {k cursor : Nat} (h : input.length < cursor + k) (hlt : cursor + k < 2 ^ 64) :
    beAt short input k cursor = .error (.err (short cursor k input.length)) := by
  unfold beAt takeAt addUsize
  rw [if_pos hlt, ok_bind, if_pos h, error_bind]

end

-- ==== composition

variable {input : List UInt8}

variable {first : Nat → Except (Fault ε) (α × Nat)} {encoding : List UInt8}
    {x : α} {y : β} {e : Fault ε}

theorem Reads.bind {next : α × Nat → Except (Fault ε) (β × Nat)}
    {encoding' : List UInt8} (h : Reads input first encoding x)
    (h' : Reads input (fun cursor => next (x, cursor)) encoding' y) :
    Reads input (fun cursor => first cursor >>= next) (encoding ++ encoding') y := by
  intro cursor rest hat
  rw [List.append_assoc] at hat
  obtain ⟨c₁, h₁, hat₁⟩ := h cursor _ hat
  obtain ⟨c₂, h₂, hat₂⟩ := h' c₁ _ hat₁
  refine ⟨c₂, ?_, hat₂⟩
  dsimp only
  rw [h₁, ok_bind]
  exact h₂

/-- The last read of a decoder, and what is made of it. -/
theorem Reads.done {next : α × Nat → Except (Fault ε) (β × Nat)}
    (h : Reads input first encoding x) (h' : ∀ cursor, next (x, cursor) = .ok (y, cursor)) :
    Reads input (fun cursor => first cursor >>= next) encoding y := by
  intro cursor rest hat
  obtain ⟨cursor', hread, hat'⟩ := h cursor rest hat
  refine ⟨cursor', ?_, hat'⟩
  dsimp only
  rw [hread, ok_bind, h']

/-- A check that succeeds takes no bytes. -/
theorem Reads.given {c : Except (Fault ε) α}
    {next : α → Nat → Except (Fault ε) (β × Nat)} (hc : c = .ok x)
    (h : Reads input (next x) encoding y) :
    Reads input (fun cursor => c >>= fun x => next x cursor) encoding y := by
  rw [hc]
  exact h

def Fails (input : List UInt8) (read : Nat → Except (Fault ε) (α × Nat))
    (encoding : List UInt8) (e : Fault ε) : Prop :=
  ∀ cursor rest, At input cursor (encoding ++ rest) → read cursor = .error e

/-- A failure ends the decoder. -/
theorem Fails.bind {next : α × Nat → Except (Fault ε) (β × Nat)}
    (h : Fails input first encoding e) :
    Fails input (fun cursor => first cursor >>= next) encoding e := by
  intro cursor rest hat
  dsimp only
  rw [h cursor rest hat, error_bind]

theorem Reads.bind_fails {next : α × Nat → Except (Fault ε) (β × Nat)}
    {encoding' : List UInt8} (h : Reads input first encoding x)
    (h' : Fails input (fun cursor => next (x, cursor)) encoding' e) :
    Fails input (fun cursor => first cursor >>= next) (encoding ++ encoding') e := by
  intro cursor rest hat
  rw [List.append_assoc] at hat
  obtain ⟨c₁, h₁, hat₁⟩ := h cursor _ hat
  dsimp only
  rw [h₁, ok_bind]
  exact h' c₁ rest hat₁

theorem Fails.start {read : Nat → Except (Fault ε) (α × Nat)}
    {rest : List UInt8} (h : Fails input read encoding e)
    (heq : input = encoding ++ rest) (hlt : input.length < 2 ^ 64) :
    read 0 = .error e :=
  h 0 rest (heq ▸ At.start hlt)

theorem Reads.whole {read : Nat → Except (Fault ε) (α × Nat)}
    (h : Reads input read input x) (hlt : input.length < 2 ^ 64) :
    ∃ cursor, read 0 = .ok (x, cursor) :=
  h.last (At.start hlt)

end OpenStandards.Lib

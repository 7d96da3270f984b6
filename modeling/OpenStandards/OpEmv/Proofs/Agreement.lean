/-
Two readers of the same chip data.

`Bundle` is the grammar both follow: bytes 0 and chunks, each chunk a
tag, a length field and so many value bytes. What op-iso8583 accepts is a
bundle (`parseDe55_bundle`); over a bundle the iterator of op-emv yields
the same chunks as long as no length field has more than four bytes behind
its first (`yields_bundle`), and an error otherwise (`error_of_long`). So
the readers agree exactly on such bundles (`parsers_agree_iff`).
-/
import OpenStandards.OpEmv.Proofs.Tags
import OpenStandards.OpIso8583.Codec

namespace OpenStandards.OpEmv

open Lib
open OpIso8583 (EmvTag EmvTlv emvTag emvLength shiftIn de55Loop parseDe55)

-- ==== grammar

def LengthField (l : Bytes) (n : Nat) : Prop :=
  ∃ b bs, l = b :: bs ∧
    if b &&& 0x80 = 0 then bs = [] ∧ n = b.toNat
    else bs ≠ [] ∧ bs.length = (b &&& 0x7F).toNat ∧ n = shiftIn bs

/-- The bytes of a tag behind its first: one that does not go on, where
the first byte asks for it. -/
def Continues (first : UInt8) (more : Bytes) : Prop :=
  if first &&& 0x1F = 0x1F then ∃ b, more = [b] ∧ b &&& 0x80 = 0
  else more = []

/-- One TLV on the wire. -/
structure Chunk where
  first : UInt8
  more : Bytes
  len : Bytes
  value : Bytes
  first_ne_zero : first ≠ 0
  continues : Continues first more
  length : LengthField len value.length

namespace Chunk

def wire (c : Chunk) : Bytes :=
  c.first :: (c.more ++ (c.len ++ c.value))

def content (c : Chunk) : Bytes × Bytes := (c.first :: c.more, c.value)

/-- The length field has at most four bytes behind its first. -/
def Short (c : Chunk) : Prop := c.len.length ≤ 5

end Chunk

inductive Bundle : Bytes → List Chunk → Prop
  | nil : Bundle [] []
  | pad {rest : Bytes} {cs : List Chunk} (h : Bundle rest cs) :
      Bundle (0 :: rest) cs
  | chunk {rest : Bytes} {cs : List Chunk} (c : Chunk)
      (h : Bundle rest cs) : Bundle (c.wire ++ rest) (c :: cs)

-- ==== tag bytes

theorem toNat_shift_or (first second : UInt8) :
    (first.toUInt16 <<< 8 ||| second.toUInt16).toNat = 256 * first.toNat + second.toNat := by
  have hfirst := first.toNat_lt
  have hsecond := second.toNat_lt
  rw [UInt16.toNat_or, UInt16.toNat_shiftLeft, UInt8.toNat_toUInt16, UInt8.toNat_toUInt16]
  show first.toNat <<< 8 % 65536 ||| second.toNat = _
  rw [Nat.shiftLeft_eq, Nat.mod_eq_of_lt (by omega), ← Nat.shiftLeft_eq,
    ← Nat.shiftLeft_add_eq_or_of_lt hsecond, Nat.shiftLeft_eq]
  omega

theorem toNat_pos {b : UInt8} (h : b ≠ 0) : 0 < b.toNat := by
  apply Nat.pos_of_ne_zero
  intro hzero
  exact h (UInt8.toNat_inj.1 hzero)

theorem emvTag_bytes_one (first : UInt8) : EmvTag.bytes ⟨first.toUInt16⟩ = [first] := by
  have hfirst := first.toNat_lt
  have hsmall : ¬ (0xFF : UInt16) < first.toUInt16 := by
    show ¬ 255 < first.toUInt16.toNat
    rw [UInt8.toNat_toUInt16]
    omega
  unfold EmvTag.bytes
  rw [if_neg hsmall, UInt8.toUInt8_toUInt16]

variable {first : UInt8} {rest : Bytes}

theorem emvTag_bytes_two {second : UInt8} (h : first ≠ 0) :
    EmvTag.bytes ⟨first.toUInt16 <<< 8 ||| second.toUInt16⟩ = [first, second] := by
  have hnat := toNat_shift_or first second
  have hpos := toNat_pos h
  have hfirst := first.toNat_lt
  have hsecond := second.toNat_lt
  unfold EmvTag.bytes
  dsimp only
  generalize first.toUInt16 <<< 8 ||| second.toUInt16 = v at hnat ⊢
  have hlarge : (0xFF : UInt16) < v := by
    show 255 < v.toNat
    omega
  have hhigh : (v >>> 8).toUInt8 = first := by
    apply UInt8.toNat_inj.1
    rw [UInt16.toNat_toUInt8, UInt16.toNat_shiftRight]
    show v.toNat >>> 8 % 256 = _
    rw [Nat.shiftRight_eq_div_pow]
    omega
  have hlow : v.toUInt8 = second := by
    apply UInt8.toNat_inj.1
    rw [UInt16.toNat_toUInt8]
    omega
  rw [if_pos hlarge, hhigh, hlow]

-- ==== what op-iso8583 accepts

theorem emvTag_ok {offset : Nat} {tag : EmvTag} {offset' : Nat} {rest' : Bytes} (hne : first ≠ 0)
    (h : emvTag first offset rest = .ok (tag, offset', rest')) :
    ∃ more, rest = more ++ rest' ∧ Continues first more ∧ tag.bytes = first :: more := by
  unfold emvTag at h
  unfold Continues
  split at h
  · next hmulti =>
      simp only [hmulti, if_true]
      cases rest with
      | nil => cases h
      | cons second rest =>
        simp only at h
        split at h
        · cases h
        · next hlast =>
            cases h
            exact ⟨[second], rfl, ⟨second, rfl, not_not.1 hlast⟩, emvTag_bytes_two hne⟩
  · next hsingle =>
      simp only [hsingle, if_false]
      cases h
      exact ⟨[], rfl, rfl, emvTag_bytes_one first⟩

theorem emvLength_ok {offset : Nat} {n offset' : Nat} {rest' : Bytes}
    (h : emvLength offset rest = .ok (n, offset', rest')) :
    ∃ l, rest = l ++ rest' ∧ LengthField l n := by
  cases rest with
  | nil => cases h
  | cons b rest =>
    unfold emvLength at h
    simp only at h
    split at h
    · next hshort =>
        cases h
        refine ⟨[b], rfl, b, [], rfl, ?_⟩
        rw [if_pos hshort]
        exact ⟨rfl, rfl⟩
    · next hlong =>
        obtain ⟨hpos, h⟩ := refuse_bind_eq_ok.1 h
        obtain ⟨henough, h⟩ := refuse_bind_eq_ok.1 h
        cases h
        have hlen : (rest.take (b &&& 0x7F).toNat).length = (b &&& 0x7F).toNat := by
          rw [List.length_take]
          omega
        refine ⟨b :: rest.take (b &&& 0x7F).toNat, ?_, b, _, rfl, ?_⟩
        · rw [List.cons_append, List.take_append_drop]
        · rw [if_neg hlong]
          refine ⟨?_, hlen, rfl⟩
          intro hnil
          rw [hnil] at hlen
          exact hpos hlen.symm

theorem de55Loop_bundle : ∀ {rounds offset : Nat} {rest : Bytes}
    {tlvs : List EmvTlv}, rest.length ≤ rounds →
    de55Loop rounds offset rest = .ok tlvs →
    ∃ cs, Bundle rest cs ∧
      tlvs.map (fun t => (t.tag.bytes, t.value)) = cs.map Chunk.content := by
  intro rounds
  induction rounds with
  | zero =>
    intro offset rest tlvs hrounds h
    obtain rfl := List.length_eq_zero_iff.1 (Nat.le_zero.1 hrounds)
    cases h
    exact ⟨[], .nil, rfl⟩
  | succ rounds ih =>
    intro offset rest tlvs hrounds h
    cases rest with
    | nil =>
      cases h
      exact ⟨[], .nil, rfl⟩
    | cons first rest =>
      rw [List.length_cons] at hrounds
      unfold de55Loop at h
      split at h
      · next hpad =>
          subst hpad
          obtain ⟨cs, hcs, hmap⟩ := ih (by omega) h
          exact ⟨cs, .pad hcs, hmap⟩
      · next hne =>
          obtain ⟨⟨tag, off₁, rest₁⟩, htag, h⟩ := bind_eq_ok.1 h
          obtain ⟨⟨n, off₂, rest₂⟩, hlen, h⟩ := bind_eq_ok.1 h
          obtain ⟨stop, -, h⟩ := bind_eq_ok.1 h
          obtain ⟨henough, h⟩ := refuse_bind_eq_ok.1 h
          obtain ⟨tlvs', hloop, h⟩ := bind_eq_ok.1 h
          cases h
          obtain ⟨more, rfl, hmore, hbytes⟩ := emvTag_ok hne htag
          obtain ⟨l, rfl, hfield⟩ := emvLength_ok hlen
          have hvalue : (rest₂.take n).length = n := by
            rw [List.length_take]
            omega
          rw [← hvalue] at hfield
          have hshorter : (rest₂.drop n).length ≤ rounds := by
            simp only [List.length_append, List.length_drop] at hrounds ⊢
            omega
          obtain ⟨cs, hcs, hmap⟩ := ih hshorter hloop
          refine ⟨⟨first, more, l, rest₂.take n, hne, hmore, hfield⟩ :: cs,
            ?_, ?_⟩
          · have hbundle := Bundle.chunk
              ⟨first, more, l, rest₂.take n, hne, hmore, hfield⟩ hcs
            simpa [Chunk.wire, List.append_assoc] using hbundle
          · rw [List.map_cons, List.map_cons, hmap, hbytes]
            rfl

theorem parseDe55_bundle {input : Bytes} {tlvs : List EmvTlv} (h : parseDe55 input = .ok tlvs) :
    ∃ cs, Bundle input cs ∧ tlvs.map (fun t => (t.tag.bytes, t.value)) = cs.map Chunk.content :=
  de55Loop_bundle (Nat.le_refl _) h

-- ==== the iterator

theorem ofBeBytes_concat (bs : Bytes) (b : UInt8) :
    ofBeBytes (bs ++ [b]) = b.toNat + 256 * ofBeBytes bs := by
  unfold ofBeBytes
  rw [List.reverse_append]
  rfl

theorem shiftIn_eq (bs : Bytes) : shiftIn bs = ofBeBytes bs % 2 ^ 64 := by
  induction bs using List.reverseRecOn with
  | nil => rfl
  | append_singleton bs b ih =>
    have hstep : shiftIn (bs ++ [b]) = (shiftIn bs * 256 + b.toNat) % 2 ^ 64 := by
      unfold shiftIn
      rw [List.foldl_append]
      rfl
    rw [hstep, ih, ofBeBytes_concat]
    omega

/-- Up to four bytes are the number they stand for. -/
theorem shiftIn_of_short {bs : Bytes} (h : bs.length ≤ 4) : shiftIn bs = ofBeBytes bs := by
  have hlt : ofBeBytes bs < 2 ^ 64 := by
    calc ofBeBytes bs < 256 ^ bs.length := ofBeBytes_lt bs
      _ ≤ 256 ^ 4 := Nat.pow_le_pow_right (by decide) h
      _ ≤ 2 ^ 64 := by decide
  rw [shiftIn_eq, Nat.mod_eq_of_lt hlt]

theorem tag_read {buf more : Bytes} {start : Nat}
    (hat : buf.drop start = first :: (more ++ rest)) (hmore : Continues first more) :
    ∃ tag, Tag.read buf start = .ok (tag, 1 + more.length) ∧ tag.bytes = first :: more := by
  have hread : ∃ tag, Tag.read buf start = .ok (tag, 1 + more.length) := by
    unfold Continues at hmore
    unfold Tag.read
    rw [hat]
    dsimp only
    split at hmore
    · next hmulti =>
        rcases hmore with ⟨second, rfl, hlast⟩
        rw [if_neg (not_not.2 hmulti), List.cons_append, Tag.readMore,
          if_neg (by decide), if_pos hlast]
        exact ⟨_, rfl⟩
    · next hsingle =>
        subst hmore
        rw [if_pos hsingle]
        exact ⟨_, rfl⟩
  obtain ⟨tag, hread⟩ := hread
  refine ⟨tag, hread, ?_⟩
  obtain ⟨first', more', behind, hat', hn, hwire⟩ := Tag.wire_of_read hread
  rw [hat, ← List.cons_append] at hat'
  have hsame := List.append_inj_left hat' (by
    rw [List.length_cons, List.length_cons]
    omega)
  rw [hwire.bytes_eq, ← hsame]

namespace TlvIter

variable {it : TlvIter} {rest : Bytes} {c : Chunk}

theorem length_of_drop {part : Bytes}
    (hat : it.buf.drop it.pos = part ++ rest) (hpart : part ≠ []) :
    it.buf.length = it.pos + part.length + rest.length := by
  have hlen := congrArg List.length hat
  have hpos := List.length_pos_of_ne_nil hpart
  rw [List.length_drop, List.length_append] at hlen
  omega

theorem readLength_short {l : Bytes} {n : Nat}
    (hat : it.buf.drop it.pos = l ++ rest) (hfield : LengthField l n) (hshort : l.length ≤ 5) :
    it.readLength = (.ok n, { it with pos := it.pos + l.length }) := by
  rcases hfield with ⟨b, bs, rfl, hform⟩
  have hlen := length_of_drop hat (List.cons_ne_nil _ _)
  rw [List.length_cons] at hlen hshort
  unfold readLength
  rw [hat, List.cons_append]
  dsimp only
  split at hform
  · next hb =>
      rcases hform with ⟨rfl, rfl⟩
      rw [if_pos hb]
      rfl
  · next hb =>
      rcases hform with ⟨hne, hbs, rfl⟩
      have hpos := List.length_pos_of_ne_nil hne
      rw [if_neg hb, ← hbs, if_neg (by omega), if_neg (by omega),
        if_neg (by omega), List.take_left, shiftIn_of_short (by omega),
        List.length_cons]
      simp only [Nat.add_assoc, Nat.add_comm 1]

theorem readLength_long (it : TlvIter) {l : Bytes} {n : Nat}
    (hat : it.buf.drop it.pos = l ++ rest) (hfield : LengthField l n)
    (hlong : 5 < l.length) : ∃ e it', it.readLength = (.error e, it') := by
  rcases hfield with ⟨b, bs, rfl, hform⟩
  rw [List.length_cons] at hlong
  unfold readLength
  rw [hat, List.cons_append]
  dsimp only
  split at hform
  · rcases hform with ⟨rfl, -⟩
    exact absurd hlong (by decide)
  · next hb =>
      rcases hform with ⟨-, hbs, -⟩
      rw [if_neg hb, ← hbs, if_neg (by omega), if_pos (by omega)]
      exact ⟨_, _, rfl⟩

theorem skipPadding_pad (hat : it.buf.drop it.pos = 0 :: rest) :
    it.skipPadding = skipPadding { it with pos := it.pos + 1 } := by
  have hnext : it.buf.drop (it.pos + 1) = rest := by
    rw [← List.drop_drop, hat]
    rfl
  unfold skipPadding
  dsimp only
  rw [hat, hnext, List.takeWhile_cons_of_pos (by rfl), List.length_cons,
    Nat.add_assoc, Nat.add_comm 1]

theorem skipPadding_of_ne {first : UInt8}
    (hat : it.buf.drop it.pos = first :: rest) (hne : first ≠ 0) :
    it.skipPadding = it := by
  unfold skipPadding
  rw [hat, List.takeWhile_cons_of_neg]
  · rfl
  · rw [beq_iff_eq]
    exact hne

/-- A byte 0 is passed over. -/
theorem next_pad (hok : it.failed = false) (hat : it.buf.drop it.pos = 0 :: rest) :
    it.next = next { it with pos := it.pos + 1 } := by
  unfold next
  rw [skipPadding_pad hat]
  simp only [hok, Bool.false_eq_true, if_false]

/-- At the end nothing is yielded. -/
theorem next_nil (hok : it.failed = false) (hat : it.buf.drop it.pos = []) :
    ∃ it', it.next = (none, it') := by
  have hend : it.buf.length ≤ it.skipPadding.pos := by
    have hlen := List.drop_eq_nil_iff.1 hat
    unfold skipPadding
    exact Nat.le_trans hlen (Nat.le_add_right _ _)
  have hbuf : it.skipPadding.buf = it.buf := rfl
  unfold next
  simp only [hok, hbuf, hend, Bool.false_eq_true, if_false, if_true]
  exact ⟨_, rfl⟩

theorem drop_behind {buf p : Bytes} {pos : Nat}
    (hat : buf.drop pos = p ++ rest) : buf.drop (pos + p.length) = rest := by
  rw [← List.drop_drop, hat, List.drop_left]

theorem next_at_chunk (hok : it.failed = false) (hat : it.buf.drop it.pos = c.wire ++ rest) :
    ∃ tag, tag.bytes = c.first :: c.more ∧
      it.buf.drop (it.pos + (1 + c.more.length)) = c.len ++ (c.value ++ rest) ∧
      it.next = nextValue { it with pos := it.pos + (1 + c.more.length) } it.pos tag := by
  have hwire : it.buf.drop it.pos = c.first :: (c.more ++ (c.len ++ (c.value ++ rest))) := by
    rw [hat, Chunk.wire]
    simp only [List.cons_append, List.append_assoc]
  have hbehind : it.buf.drop (it.pos + (1 + c.more.length)) = c.len ++ (c.value ++ rest) := by
    rw [Nat.add_comm 1]
    exact drop_behind (p := c.first :: c.more) hwire
  have hin : ¬ it.buf.length ≤ it.pos := by
    intro hle
    rw [List.drop_eq_nil_of_le hle] at hwire
    cases hwire
  obtain ⟨tag, hread, hbytes⟩ := tag_read hwire c.continues
  refine ⟨tag, hbytes, hbehind, ?_⟩
  unfold next
  rw [skipPadding_of_ne hwire c.first_ne_zero]
  simp only [hok, Bool.false_eq_true, if_false, hread]
  exact if_neg hin

theorem next_chunk (hok : it.failed = false)
    (hat : it.buf.drop it.pos = c.wire ++ rest) (hshort : c.Short) :
    ∃ r, it.next = (some (.ok r), { it with pos := it.pos + c.wire.length }) ∧
      (r.tag.bytes, r.value) = c.content := by
  obtain ⟨tag, hbytes, hbehind, hnext⟩ := next_at_chunk hok hat
  have hlen : readLength { it with pos := it.pos + (1 + c.more.length) }
      = (.ok c.value.length,
        { it with pos := it.pos + (1 + c.more.length) + c.len.length }) :=
    readLength_short hbehind c.length hshort
  have hvalue := drop_behind hbehind
  have hremaining := congrArg List.length hvalue
  rw [List.length_drop, List.length_append] at hremaining
  have hwire : it.pos + c.wire.length
      = it.pos + (1 + c.more.length) + c.len.length + c.value.length := by
    simp only [Chunk.wire, List.length_cons, List.length_append]
    omega
  have hcontent : (tag.bytes, c.value) = c.content := by
    rw [hbytes]
    rfl
  rw [hnext, nextValue, hlen, hwire]
  dsimp only
  rw [if_neg (by omega), hvalue, List.take_left]
  exact ⟨_, rfl, hcontent⟩

theorem next_long (hok : it.failed = false)
    (hat : it.buf.drop it.pos = c.wire ++ rest) (hlong : ¬ c.Short) :
    ∃ e it', it.next = (some (.error e), it') := by
  obtain ⟨tag, -, hbehind, hnext⟩ := next_at_chunk hok hat
  obtain ⟨e, it', hlen⟩ := readLength_long
    { it with pos := it.pos + (1 + c.more.length) } hbehind c.length
    (Nat.lt_of_not_le hlong)
  rw [hnext, nextValue, hlen]
  exact ⟨_, _, rfl⟩

-- ==== whole runs

/-- Over a bundle with short length fields the iterator yields the
chunks. -/
theorem yields_bundle {cs : List Chunk} (h : Bundle rest cs) (hshort : ∀ c ∈ cs, c.Short) :
    ∀ it : TlvIter, it.failed = false → it.buf.drop it.pos = rest →
      ∃ refs : List TlvRef, Yields it (refs.map .ok) ∧
        refs.map (fun r => (r.tag.bytes, r.value)) = cs.map Chunk.content := by
  induction h with
  | nil =>
    intro it hok hat
    obtain ⟨it', hnext⟩ := next_nil hok hat
    exact ⟨[], .done hnext, rfl⟩
  | pad _ ih =>
    intro it hok hat
    have hpad := next_pad hok hat
    obtain ⟨refs, hyields, hmap⟩ := ih hshort
      { it with pos := it.pos + 1 } hok (drop_behind (p := [0]) hat)
    refine ⟨refs, ?_, hmap⟩
    cases refs with
    | nil =>
      cases hyields with
      | done hnext => exact .done (hpad.trans hnext)
    | cons r refs =>
      cases hyields with
      | more hnext hrest => exact .more (hpad.trans hnext) hrest
  | chunk c _ ih =>
    intro it hok hat
    rw [List.forall_mem_cons] at hshort
    obtain ⟨r, hnext, hcontent⟩ := next_chunk hok hat hshort.1
    obtain ⟨refs, hyields, hmap⟩ := ih hshort.2
      { it with pos := it.pos + c.wire.length } hok (drop_behind hat)
    refine ⟨r :: refs, .more hnext hyields, ?_⟩
    rw [List.map_cons, List.map_cons, hcontent, hmap]

theorem error_of_long {cs : List Chunk} (h : Bundle rest cs) (hlong : ¬ ∀ c ∈ cs, c.Short) :
    ∀ (it : TlvIter) {rs : List (Except Error TlvRef)}, it.failed = false →
      it.buf.drop it.pos = rest → Yields it rs → ∃ e, .error e ∈ rs := by
  induction h with
  | nil => exact absurd (fun _ hmem => absurd hmem List.not_mem_nil) hlong
  | pad _ ih =>
    intro it rs hok hat hyields
    have hpad := next_pad hok hat
    refine ih hlong { it with pos := it.pos + 1 } hok (drop_behind (p := [0]) hat) ?_
    cases hyields with
    | done hnext => exact .done (hpad.symm.trans hnext)
    | more hnext hrest => exact .more (hpad.symm.trans hnext) hrest
  | chunk c _ ih =>
    intro it rs hok hat hyields
    by_cases hc : c.Short
    · obtain ⟨r, hnext, -⟩ := next_chunk hok hat hc
      cases hyields with
      | done hnext' => cases hnext.symm.trans hnext'
      | more hnext' hrest =>
        cases hnext.symm.trans hnext'
        have hlong' : ¬ ∀ c ∈ _, Chunk.Short c := fun hall =>
          hlong (List.forall_mem_cons.2 ⟨hc, hall⟩)
        obtain ⟨e, he⟩ := ih hlong'
          { it with pos := it.pos + c.wire.length } hok
          (drop_behind hat) hrest
        exact ⟨e, List.mem_cons_of_mem _ he⟩
    · obtain ⟨e, it', hnext⟩ := next_long hok hat hc
      cases hyields with
      | done hnext' => cases hnext.symm.trans hnext'
      | more hnext' hrest =>
        cases hnext.symm.trans hnext'
        exact ⟨e, List.mem_cons_self⟩

end TlvIter

-- ==== agreement

/-- What op-iso8583 accepts, op-emv yields without an error and with the
same tags and values. -/
def Agree (input : Bytes) : Prop :=
  ∀ tlvs, parseDe55 input = .ok tlvs →
    ∃ refs : List TlvRef, TlvIter.Yields (.new input) (refs.map .ok) ∧
      refs.map (fun r => (r.tag.bytes, r.value)) = tlvs.map (fun t => (t.tag.bytes, t.value))

/-- The input is a bundle whose length fields have at most four bytes
behind the first. -/
def ShortLengths (input : Bytes) : Prop :=
  ∃ cs, Bundle input cs ∧ ∀ c ∈ cs, c.Short

/-- The readers agree exactly on the inputs that op-iso8583 refuses and
those with short length fields. -/
theorem parsers_agree_iff (input : Bytes) :
    Agree input ↔ ((∃ tlvs, parseDe55 input = .ok tlvs) → ShortLengths input) := by
  constructor
  · intro hagree haccepted
    rcases haccepted with ⟨tlvs, hparse⟩
    obtain ⟨cs, hbundle, -⟩ := parseDe55_bundle hparse
    obtain ⟨refs, hyields, -⟩ := hagree tlvs hparse
    refine ⟨cs, hbundle, ?_⟩
    by_contra hlong
    obtain ⟨e, he⟩ := TlvIter.error_of_long hbundle hlong _ rfl rfl hyields
    obtain ⟨r, -, hr⟩ := List.mem_map.1 he
    cases hr
  · intro hshort tlvs hparse
    obtain ⟨cs, hbundle, hmap⟩ := parseDe55_bundle hparse
    obtain ⟨cs', hbundle', hshort'⟩ := hshort ⟨tlvs, hparse⟩
    have hcs : ∀ c ∈ cs, c.Short := by
      -- the other reading of the input as a bundle yields no error
      by_contra hlong
      obtain ⟨refs, hyields, -⟩ := TlvIter.yields_bundle hbundle' hshort' (.new input) rfl rfl
      obtain ⟨e, he⟩ := TlvIter.error_of_long hbundle hlong _ rfl rfl hyields
      obtain ⟨r, -, hr⟩ := List.mem_map.1 he
      cases hr
    obtain ⟨refs, hyields, hrefs⟩ := TlvIter.yields_bundle hbundle hcs (.new input) rfl rfl
    exact ⟨refs, hyields, hrefs.trans hmap.symm⟩

def fiveLengthBytes : Bytes := [0x6F, 0x85, 0, 0, 0, 0, 1, 0xAA]

/-- op-iso8583 accepts it; op-emv refuses the length field. -/
theorem fiveLengthBytes_disagree : ¬ Agree fiveLengthBytes := by
  have hparse : parseDe55 fiveLengthBytes = .ok [⟨⟨0x6F⟩, [0xAA]⟩] := by
    decide
  have hnext : ∃ it', (TlvIter.new fiveLengthBytes).next
      = (some (.error (.lengthTooLong 5 1)), it') := ⟨_, rfl⟩
  intro hagree
  obtain ⟨refs, hyields, hrefs⟩ := hagree _ hparse
  obtain ⟨it', hnext⟩ := hnext
  cases refs with
  | nil => cases hrefs
  | cons r refs =>
    cases hyields with
    | more hnext' _ => cases hnext.symm.trans hnext'

end OpenStandards.OpEmv

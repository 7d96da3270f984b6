/-
Verification of webhook signatures.

What `buildSignatureHeader` writes is parsed back (`parse_built`), and what
is signed determines the timestamp and the body (`signedPayload_inj`). Both
times are cast to signed 64 bits before they are compared, so the
difference is the exact one where both are below 2^63 or neither is
(`elapsed_sameHalf`). Else it overflows, or it is exact only up to 2^64
(`elapsed_far`), and then a time in the far future passes for a close one.
-/
import OpenStandards.OpWebhook.Dispatcher

namespace OpenStandards.OpWebhook

open Lib Text

-- ==== clocks

/-- How far apart two times are. -/
def distance (now t : UInt64) : Nat :=
  ((now.toNat : Int) - t.toNat).natAbs

/-- Both times are below 2^63, or neither is. -/
def SameHalf (now t : UInt64) : Prop :=
  now.toNat < 2 ^ 63 ↔ t.toNat < 2 ^ 63

instance (now t : UInt64) : Decidable (SameHalf now t) :=
  inferInstanceAs (Decidable (_ ↔ _))

/-- The magnitude of the difference, as it is computed: nothing where it
overflows. -/
def elapsed (now t : UInt64) : Option I64 :=
  ((I64.wrap now.toNat).checkedSub (.wrap t.toNat)).bind I64.checkedAbs

/-- `x as i64` -/
theorem val_wrap_toNat (x : UInt64) :
    (I64.wrap x.toNat).val
      = if x.toNat < 2 ^ 63 then (x.toNat : Int)
        else (x.toNat : Int) - 2 ^ 64 := by
  have hlt := x.toNat_lt
  unfold I64.wrap
  simp only [Int.bmod]
  split
  · split
    · omega
    · omega
  · split
    · omega
    · omega

variable {now : UInt64} {s : Text}

theorem elapsed_eq_some {t : UInt64} {away : I64} :
    elapsed now t = some away
      ↔ InI64 ((I64.wrap now.toNat).val - (I64.wrap t.toNat).val)
        ∧ away.val = (((I64.wrap now.toNat).val - (I64.wrap t.toNat).val).natAbs : Int) := by
  unfold elapsed
  rw [Option.bind_eq_some_iff]
  constructor
  · rintro ⟨delta, hdelta, haway⟩
    rw [I64.checkedSub_eq_some] at hdelta
    have haway : away.val = (delta.val.natAbs : Int) :=
      I64.ofInt?_eq_some.1 haway
    rw [hdelta] at haway
    exact ⟨hdelta ▸ delta.inRange, haway⟩
  · rintro ⟨hrange, haway⟩
    exact ⟨⟨_, hrange⟩, I64.checkedSub_eq_some.2 rfl, I64.ofInt?_eq_some.2 haway⟩

/-- The difference of the cast times: exact in one half, and off by 2^64
across the halves. -/
theorem wrap_sub_wrap (now t : UInt64) :
    (I64.wrap now.toNat).val - (I64.wrap t.toNat).val
      = (now.toNat : Int) - t.toNat
        + (if SameHalf now t then 0
          else if now.toNat < 2 ^ 63 then 2 ^ 64 else -2 ^ 64) := by
  rw [val_wrap_toNat, val_wrap_toNat]
  by_cases hnow : now.toNat < 2 ^ 63
  · by_cases ht : t.toNat < 2 ^ 63
    · have hsame : SameHalf now t := iff_of_true hnow ht
      rw [if_pos hnow, if_pos ht, if_pos hsame, add_zero]
    · have hother : ¬ SameHalf now t := fun h => ht (h.1 hnow)
      rw [if_pos hnow, if_neg ht, if_neg hother, if_pos hnow]
      omega
  · by_cases ht : t.toNat < 2 ^ 63
    · have hother : ¬ SameHalf now t := fun h => hnow (h.2 ht)
      rw [if_neg hnow, if_pos ht, if_neg hother, if_neg hnow]
      omega
    · have hsame : SameHalf now t := iff_of_false hnow ht
      rw [if_neg hnow, if_neg ht, if_pos hsame]
      omega

/-- Times of one half are compared exactly. -/
theorem elapsed_sameHalf {t : UInt64} (h : SameHalf now t) :
    ∃ away, elapsed now t = some away ∧ away.val = distance now t := by
  have hnow := now.toNat_lt
  have ht := t.toNat_lt
  have hrange : InI64 ((distance now t : Nat) : Int) := by
    unfold SameHalf at h
    unfold distance InI64
    omega
  refine ⟨⟨_, hrange⟩, elapsed_eq_some.2 ⟨?_, ?_⟩, rfl⟩
  · rw [wrap_sub_wrap, if_pos h]
    unfold SameHalf at h
    unfold InI64
    omega
  · rw [wrap_sub_wrap, if_pos h, add_zero]
    rfl

/-- What times of two halves come to, before the sign is dropped. -/
theorem wrap_sub_wrap_natAbs {t : UInt64} (h : ¬ SameHalf now t) :
    (((I64.wrap now.toNat).val - (I64.wrap t.toNat).val).natAbs : Int)
      = 2 ^ 64 - distance now t := by
  have hnow := now.toNat_lt
  have ht := t.toNat_lt
  rw [wrap_sub_wrap, if_neg h]
  unfold SameHalf at h
  unfold distance
  split
  · omega
  · omega

/-- Times of two halves that are no more than 2^63 apart overflow. -/
theorem elapsed_near {t : UInt64} (h : ¬ SameHalf now t)
    (hnear : distance now t ≤ 2 ^ 63) : elapsed now t = none := by
  rw [Option.eq_none_iff_forall_ne_some]
  intro away haway
  have hval := (elapsed_eq_some.1 haway).2
  rw [wrap_sub_wrap_natAbs h] at hval
  have hfits := away.inRange
  unfold InI64 at hfits
  omega

/-- Times of two halves that are further apart are compared up to 2^64. -/
theorem elapsed_far {t : UInt64} (h : ¬ SameHalf now t) (hfar : 2 ^ 63 < distance now t) :
    ∃ away, elapsed now t = some away ∧ away.val = 2 ^ 64 - (distance now t : Int) := by
  have habs := wrap_sub_wrap_natAbs h
  have hlt : distance now t < 2 ^ 64 := by
    have hnow := now.toNat_lt
    have ht := t.toNat_lt
    unfold distance
    omega
  have hrange : InI64 (2 ^ 64 - (distance now t : Int)) := by
    unfold InI64
    omega
  refine ⟨⟨_, hrange⟩, elapsed_eq_some.2 ⟨?_, habs.symm⟩, rfl⟩
  unfold InI64
  omega

-- ==== verification

def Signed (d : Dispatcher) (secret body : List UInt8) (t : UInt64) (sigs : List Text) : Prop :=
  ∃ sig ∈ sigs, computeSignature d secret t body = .ok (String.ofList sig)

def Genuine (d : Dispatcher) (secret body : List UInt8) (header : Text)
    (now : UInt64) (tolerance : I64) : Prop :=
  ∃ t sigs, parseSignatureHeader header = .ok (t, sigs)
    ∧ (distance now t : Int) ≤ tolerance.val
    ∧ Signed d secret body t sigs

theorem utf8_inj {t : Text} : utf8 s = utf8 t ↔ s = t := by
  constructor
  · intro h
    have hs := fromUtf8?_eq_some_iff.2 (rfl : utf8 s = utf8 s)
    rw [fromUtf8?_eq_some_iff.2 h.symm] at hs
    exact (Option.some.inj hs).symm
  · exact congrArg utf8

section
variable {d : Dispatcher} {secret body : List UInt8} {header : Text}
  {now t : UInt64} {tolerance : I64} {sigs : List Text}

variable {ε : Type} {a : I64}

theorem subOrPanic_none {b : I64} (h : a.checkedSub b = none) :
    (subOrPanic a b : Except (Fault ε) I64) = .error .panic := by
  unfold subOrPanic
  rw [h]

theorem subOrPanic_some {b r : I64} (h : a.checkedSub b = some r) :
    (subOrPanic a b : Except (Fault ε) I64) = .ok r := by
  unfold subOrPanic
  rw [h]

theorem absOrPanic_none (h : a.checkedAbs = none) :
    (absOrPanic a : Except (Fault ε) I64) = .error .panic := by
  unfold absOrPanic
  rw [h]

theorem absOrPanic_some {r : I64} (h : a.checkedAbs = some r) :
    (absOrPanic a : Except (Fault ε) I64) = .ok r := by
  unfold absOrPanic
  rw [h]

theorem expected_ok_iff :
    ((computeSignature d secret t body).mapError
          (fun e => Fault.err (VerifyError.signing e)) >>= fun expected =>
        if sigs.any fun sig => utf8 sig == utf8 expected.toList then
          (.ok () : Except (Fault VerifyError) Unit)
        else .error (.err .signatureMismatch)) = .ok ()
      ↔ Signed d secret body t sigs := by
  unfold Signed
  cases computeSignature d secret t body with
  | error e =>
    refine iff_of_false nofun ?_
    rintro ⟨sig, -, hsig⟩
    cases hsig
  | ok expected =>
    have hany : (sigs.any fun sig => utf8 sig == utf8 expected.toList)
        = true ↔ ∃ sig ∈ sigs,
          (Except.ok expected : Except Error String) = .ok (String.ofList sig) := by
      rw [List.any_eq_true]
      refine exists_congr fun sig => and_congr_right fun _ => ?_
      rw [beq_iff_eq, utf8_inj, Except.ok.injEq]
      constructor
      · rintro rfl
        exact String.ofList_toList.symm
      · rintro rfl
        exact String.toList_ofList.symm
    rw [← hany]
    show (ite _ _ _ = _) ↔ _
    by_cases hfound : (sigs.any
        fun sig => utf8 sig == utf8 expected.toList) = true
    · rw [if_pos hfound]
      exact iff_of_true rfl hfound
    · rw [if_neg hfound]
      exact iff_of_false nofun hfound

theorem expected_ne_panic :
    ((computeSignature d secret t body).mapError
          (fun e => Fault.err (VerifyError.signing e)) >>= fun expected =>
        if sigs.any fun sig => utf8 sig == utf8 expected.toList then
          (.ok () : Except (Fault VerifyError) Unit)
        else .error (.err .signatureMismatch)) ≠ .error .panic := by
  cases computeSignature d secret t body with
  | error e => exact nofun
  | ok expected =>
    show ite _ _ _ ≠ _
    split
    · exact nofun
    · exact nofun

theorem verifySignature_eq (h : parseSignatureHeader header = .ok (t, sigs)) :
    verifySignature d secret body header now tolerance
      = (subOrPanic (.wrap now.toNat) (.wrap t.toNat) >>= fun delta =>
          absOrPanic delta >>= fun away =>
          if tolerance.val < away.val then
            .error (.err (.timestampOutOfTolerance delta))
          else
            (computeSignature d secret t body).mapError
                (fun e => Fault.err (.signing e)) >>= fun expected =>
              if sigs.any fun sig => utf8 sig == utf8 expected.toList then
                .ok ()
              else .error (.err .signatureMismatch)) := by
  have hparsed : (parseSignatureHeader header).mapError
      (Fault.err (ε := VerifyError)) = .ok (t, sigs) := by
    rw [h]
    rfl
  unfold verifySignature
  rw [hparsed, ok_bind]

theorem verifySignature_panic (h : parseSignatureHeader header = .ok (t, sigs))
    (hnone : elapsed now t = none) :
    verifySignature d secret body header now tolerance = .error .panic := by
  rw [verifySignature_eq h]
  cases hdelta : (I64.wrap now.toNat).checkedSub (.wrap t.toNat) with
  | none => rw [subOrPanic_none hdelta, error_bind]
  | some delta =>
    have haway := Option.bind_eq_none_iff.1 hnone delta hdelta
    rw [subOrPanic_some hdelta, ok_bind, absOrPanic_none haway, error_bind]

/-- Else it compares the time that is left and then the signatures. -/
theorem verifySignature_some (h : parseSignatureHeader header = .ok (t, sigs)) {away : I64}
    (hsome : elapsed now t = some away) :
    verifySignature d secret body header now tolerance ≠ .error .panic
      ∧ (verifySignature d secret body header now tolerance = .ok ()
        ↔ away.val ≤ tolerance.val ∧ Signed d secret body t sigs) := by
  obtain ⟨delta, hdelta, haway⟩ := Option.bind_eq_some_iff.1 hsome
  rw [verifySignature_eq h, subOrPanic_some hdelta, ok_bind, absOrPanic_some haway, ok_bind]
  by_cases hlt : tolerance.val < away.val
  · rw [if_pos hlt]
    exact ⟨nofun, iff_of_false nofun fun hok => not_lt.2 hok.1 hlt⟩
  · rw [if_neg hlt]
    exact ⟨expected_ne_panic, expected_ok_iff.trans (and_iff_right (not_lt.1 hlt)).symm⟩

end

-- ==== the header

/-- No comma and no white space: what a part of a header is made of. -/
def Solid (s : Text) : Prop := ∀ c ∈ s, c ≠ ',' ∧ isWhitespace c = false

instance (s : Text) : Decidable (Solid s) :=
  inferInstanceAs (Decidable (∀ c ∈ s, _))

theorem solid_append {s' : Text} (h : Solid s) (h' : Solid s') : Solid (s ++ s') := by
  intro c hc
  rcases List.mem_append.1 hc with hc | hc
  · exact h c hc
  · exact h' c hc

theorem solid_toDigits (n : Nat) : Solid (Nat.toDigits 10 n) := by
  intro c hc
  have hdigit := digit_val (isDigit_toDigits hc)
  constructor
  · rintro rfl
    exact absurd hdigit (by decide)
  · unfold isWhitespace
    simp only [Bool.or_eq_false_iff, Bool.and_eq_false_iff, beq_eq_false_iff_ne,
      decide_eq_false_iff_not]
    omega

theorem solid_hexDigit : ∀ n < 16, OpLedger.hexDigit n ≠ ','
    ∧ isWhitespace (OpLedger.hexDigit n) = false := by
  decide

theorem solid_hexEncode (bytes : List UInt8) : Solid (hexEncode bytes).toList := by
  intro c hc
  unfold hexEncode at hc
  rw [String.toList_ofList] at hc
  obtain ⟨b, -, hc⟩ := List.mem_flatMap.1 hc
  have hlt := b.toNat_lt
  rcases List.mem_cons.1 hc with rfl | hc
  · exact solid_hexDigit _ (by omega)
  · rw [List.mem_singleton.1 hc]
    exact solid_hexDigit _ (by omega)

theorem trim_solid (h : Solid s) : trim s = s := by
  have hstart : s.dropWhile isWhitespace = s := by
    cases s with
    | nil => rfl
    | cons c s =>
      exact List.dropWhile_cons_of_neg (by
        rw [(h c List.mem_cons_self).2]
        exact Bool.false_ne_true)
  unfold trim
  rw [hstart, List.rdropWhile_eq_self_iff]
  intro hne hlast
  rw [(h _ (List.getLast_mem hne)).2] at hlast
  exact Bool.false_ne_true hlast

theorem splitOnce_append {sep : Char} {key : Text} (hkey : sep ∉ key) (value : Text) :
    splitOnce sep (key ++ sep :: value) = some (key, value) := by
  induction key with
  | nil => exact if_pos rfl
  | cons c key ih =>
    rw [List.mem_cons, not_or] at hkey
    rw [List.cons_append, splitOnce, if_neg (Ne.symm hkey.1), ih hkey.2]
    rfl

/-- A decimal number is read back. -/
theorem parseUnsigned_toDigits {bound n : Nat} (h : n < bound) :
    parseUnsigned bound (Nat.toDigits 10 n) = some n := by
  have hne : Nat.toDigits 10 n ≠ [] := Nat.toDigits_ne_nil
  have hparsed := parseUnsigned_of_digits hne
    (fun c hc => isDigit_toDigits hc) (number_toDigits n ▸ h)
  rwa [number_toDigits] at hparsed

theorem toList_buildSignatureHeader (t : UInt64) (sig : String) :
    (buildSignatureHeader t sig).toList
      = ('t' :: '=' :: Nat.toDigits 10 t.toNat)
        ++ ',' :: ('v' :: '1' :: '=' :: sig.toList) := by
  have hdigits : (toString t.toNat).toList = Nat.toDigits 10 t.toNat :=
    String.toList_ofList
  unfold buildSignatureHeader
  simp only [String.toList_append, hdigits, List.append_assoc]
  rfl

theorem parse_built (t : UInt64) {sig : String} (hsig : Solid sig.toList) :
    parseSignatureHeader (buildSignatureHeader t sig).toList = .ok (t, [sig.toList]) := by
  have htime : Solid ('t' :: '=' :: Nat.toDigits 10 t.toNat) :=
    solid_append (s := ['t', '=']) (by decide) (solid_toDigits _)
  have hv1 : Solid ('v' :: '1' :: '=' :: sig.toList) :=
    solid_append (s := ['v', '1', '=']) (by decide) hsig
  have hfirst : ∀ s, headerPart s ('t' :: '=' :: Nat.toDigits 10 t.toNat)
      = .ok { s with timestamp := some t } := by
    intro s
    have hsplit : splitOnce '=' ('t' :: '=' :: Nat.toDigits 10 t.toNat)
        = some (['t'], Nat.toDigits 10 t.toNat) :=
      @splitOnce_append '=' ['t'] (by decide) _
    have hparsed := parseUnsigned_toDigits t.toNat_lt
    unfold headerPart
    rw [trim_solid htime]
    simp only [hsplit, if_true, hparsed, UInt64.ofNat_toNat]
  have hsecond : ∀ s, headerPart s ('v' :: '1' :: '=' :: sig.toList)
      = .ok { s with sigs := s.sigs ++ [sig.toList] } := by
    intro s
    have hsplit : splitOnce '=' ('v' :: '1' :: '=' :: sig.toList)
        = some (['v', '1'], sig.toList) :=
      @splitOnce_append '=' ['v', '1'] (by decide) _
    unfold headerPart
    rw [trim_solid hv1]
    simp only [hsplit]
    rfl
  have hparts : (buildSignatureHeader t sig).toList.splitOn ','
      = ['t' :: '=' :: Nat.toDigits 10 t.toNat, 'v' :: '1' :: '=' :: sig.toList] := by
    rw [toList_buildSignatureHeader,
      List.splitOn_append_cons_self_of_not_mem fun h => (htime _ h).1 rfl,
      List.splitOn_eq_singleton fun h => (hv1 _ h).1 rfl]
  unfold parseSignatureHeader
  rw [hparts, List.foldlM_cons, hfirst, ok_bind, List.foldlM_cons, hsecond]
  rfl

-- ==== the signed payload

theorem asciiBytes_toString (n : Nat) :
    asciiBytes (toString n) = (Nat.toDigits 10 n).map fun c => c.toNat.toUInt8 := by
  have hdigits : (toString n).toList = Nat.toDigits 10 n :=
    String.toList_ofList
  unfold asciiBytes
  rw [hdigits]

theorem toNat_toUInt8_digit {c : Char} (hc : c.isDigit = true) :
    c.toNat.toUInt8.toNat = c.toNat := by
  have hdigit := digit_val hc
  rw [Nat.toUInt8_eq, UInt8.toNat_ofNat']
  omega

theorem point_not_mem (n : Nat) : (46 : UInt8) ∉ asciiBytes (toString n) := by
  rw [asciiBytes_toString]
  intro hmem
  obtain ⟨c, hc, h46⟩ := List.mem_map.1 hmem
  have hval := toNat_toUInt8_digit (isDigit_toDigits hc)
  have hdigit := digit_val (isDigit_toDigits hc)
  rw [h46] at hval
  have h46' : (46 : UInt8).toNat = 46 := rfl
  omega

theorem asciiBytes_toString_inj {m n : Nat}
    (h : asciiBytes (toString m) = asciiBytes (toString n)) : m = n := by
  have hback : ∀ k : Nat, (asciiBytes (toString k)).map ofByte = Nat.toDigits 10 k := by
    intro k
    rw [asciiBytes_toString, List.map_map]
    refine (List.map_congr_left fun c hc => ?_).trans (List.map_id _)
    show Char.ofNat c.toNat.toUInt8.toNat = c
    rw [toNat_toUInt8_digit (isDigit_toDigits hc), Char.ofNat_toNat]
  have hdigits := congrArg (fun bs => number (bs.map ofByte)) h
  simp only [hback, number_toDigits] at hdigits
  exact hdigits

theorem signedPayload_inj {t t' : UInt64} {body body' : List UInt8}
    (h : signedPayload t body = signedPayload t' body') :
    t = t' ∧ body = body' := by
  have hframe : ∀ (x : UInt64) (b : List UInt8), signedPayload x b
      = asciiBytes (toString x.toNat) ++ 46 :: b := by
    intro x b
    unfold signedPayload
    rw [List.append_assoc]
    rfl
  rw [hframe, hframe] at h
  obtain ⟨htime, hbody⟩ := Labelled.cut_at_first (point_not_mem _) (point_not_mem _) h
  exact ⟨UInt64.toNat_inj.1 (asciiBytes_toString_inj htime), hbody⟩

-- ==== the main result

/-- Verification is total and exact: it does not panic, and it succeeds
exactly on a genuine header. -/
structure VerifiesExactly (d : Dispatcher) (secret body : List UInt8)
    (header : Text) (now : UInt64) (tolerance : I64) : Prop where
  total : verifySignature d secret body header now tolerance ≠ .error .panic
  exact : verifySignature d secret body header now tolerance = .ok ()
    ↔ Genuine d secret body header now tolerance

/-- The header's time and the clock are in one half of the range; or they
are more than 2^63 apart, and what is left of that to 2^64 exceeds the
tolerance, or nothing in the header is the signature. -/
def ClocksCompare (d : Dispatcher) (secret body : List UInt8) (header : Text)
    (now : UInt64) (tolerance : I64) : Prop :=
  ∀ t sigs, parseSignatureHeader header = .ok (t, sigs) →
    SameHalf now t ∨ 2 ^ 63 < distance now t
      ∧ (tolerance.val < 2 ^ 64 - (distance now t : Int) ∨ ¬ Signed d secret body t sigs)

section
variable {d : Dispatcher} {secret body : List UInt8} {header : Text}
  {now t : UInt64} {tolerance : I64} {sigs : List Text}

theorem genuine_iff (h : parseSignatureHeader header = .ok (t, sigs)) :
    Genuine d secret body header now tolerance
      ↔ (distance now t : Int) ≤ tolerance.val ∧ Signed d secret body t sigs := by
  constructor
  · rintro ⟨t', sigs', hparse, hclose, hsigned⟩
    cases h.symm.trans hparse
    exact ⟨hclose, hsigned⟩
  · rintro ⟨hclose, hsigned⟩
    exact ⟨t, sigs, h, hclose, hsigned⟩

theorem verifiesExactly_of_error {e : VerifyError} (h : parseSignatureHeader header = .error e) :
    VerifiesExactly d secret body header now tolerance := by
  have hrefused : verifySignature d secret body header now tolerance = .error (.err e) := by
    have hparsed : (parseSignatureHeader header).mapError
        (Fault.err (ε := VerifyError)) = .error (.err e) := by
      rw [h]
      rfl
    unfold verifySignature
    rw [hparsed, error_bind]
  constructor
  case total =>
    rw [hrefused]
    exact nofun
  case exact =>
    rw [hrefused]
    refine iff_of_false nofun ?_
    rintro ⟨t, sigs, hparse, -⟩
    cases h.symm.trans hparse

/-- The tolerance is a signed 64-bit value. -/
theorem tolerance_lt (tolerance : I64) : tolerance.val < 2 ^ 63 := by
  have hrange := tolerance.inRange
  unfold InI64 at hrange
  omega

theorem verifiesExactly_iff :
    VerifiesExactly d secret body header now tolerance
      ↔ ClocksCompare d secret body header now tolerance := by
  have htolerance := tolerance_lt tolerance
  cases hparse : parseSignatureHeader header with
  | error e =>
    refine iff_of_true (verifiesExactly_of_error hparse) ?_
    intro t sigs h
    cases hparse.symm.trans h
  | ok parsed =>
    obtain ⟨t, sigs⟩ := parsed
    by_cases hsame : SameHalf now t
    · -- the difference is exact
      obtain ⟨away, hsome, hval⟩ := elapsed_sameHalf hsame
      obtain ⟨htotal, hok⟩ := verifySignature_some hparse hsome
      refine iff_of_true ⟨htotal, ?_⟩ ?_
      · rw [genuine_iff hparse, ← hval]
        exact hok
      · intro t' sigs' h
        cases hparse.symm.trans h
        exact .inl hsame
    · by_cases hfar : 2 ^ 63 < distance now t
      · -- the difference is exact up to 2^64
        obtain ⟨away, hsome, hval⟩ := elapsed_far hsame hfar
        obtain ⟨htotal, hok⟩ := verifySignature_some hparse hsome
        have hnot : ¬ Genuine d secret body header now tolerance := by
          rw [genuine_iff hparse]
          rintro ⟨hclose, -⟩
          omega
        have hexact : VerifiesExactly d secret body header now tolerance
            ↔ ¬ (away.val ≤ tolerance.val ∧ Signed d secret body t sigs) := by
          constructor
          · intro h hand
            exact hnot (h.exact.1 (hok.2 hand))
          · intro h
            exact ⟨htotal, iff_of_false (fun hsucc => h (hok.1 hsucc)) hnot⟩
        rw [hexact, not_and_or, not_le, hval]
        constructor
        · intro h t' sigs' hparse'
          cases hparse.symm.trans hparse'
          exact .inr ⟨hfar, h⟩
        · intro h
          exact ((h t sigs hparse).resolve_left hsame).2
      · -- the difference overflows
        refine iff_of_false (fun h => h.total ?_) fun h => ?_
        · exact verifySignature_panic hparse (elapsed_near hsame (not_lt.1 hfar))
        · exact hfar ((h t sigs hparse).resolve_left hsame).1

/-- A header that was built is genuine for a clock within the tolerance,
and is accepted where the two times are in one half of the range. -/
theorem verify_built_iff {sig : String} (hsig : computeSignature d secret t body = .ok sig)
    (hclose : (distance now t : Int) ≤ tolerance.val) :
    verifySignature d secret body (buildSignatureHeader t sig).toList now
        tolerance = .ok () ↔ SameHalf now t := by
  have htolerance := tolerance_lt tolerance
  have hsolid : Solid sig.toList := by
    unfold computeSignature at hsig
    split at hsig
    · cases hsig
    · cases hsig
      exact solid_hexEncode _
  have hparse := parse_built t hsolid
  have hsigned : Signed d secret body t [sig.toList] := by
    refine ⟨sig.toList, List.mem_singleton_self _, ?_⟩
    rw [String.ofList_toList]
    exact hsig
  by_cases hsame : SameHalf now t
  · obtain ⟨away, hsome, hval⟩ := elapsed_sameHalf hsame
    refine iff_of_true ((verifySignature_some hparse hsome).2.2 ⟨?_, hsigned⟩) hsame
    rw [hval]
    exact hclose
  · have hnone := elapsed_near hsame (by omega)
    refine iff_of_false (fun hok => ?_) hsame
    rw [verifySignature_panic hparse hnone] at hok
    cases hok

end

/-- **Verification compares the clocks as signed values.** It is total and
exact on the inputs whose clocks compare so and on no others; what is
signed is framed without ambiguity; and a header that was built verifies,
within the tolerance, exactly where both times are in one half of the
range. -/
theorem signing_exact_iff (d : Dispatcher) :
    (∀ secret body header now tolerance,
        VerifiesExactly d secret body header now tolerance
          ↔ ClocksCompare d secret body header now tolerance)
      ∧ (∀ t body t' body', signedPayload t body = signedPayload t' body' →
          t = t' ∧ body = body')
      ∧ ∀ secret body t sig now tolerance,
          computeSignature d secret t body = .ok sig →
          (distance now t : Int) ≤ tolerance.val →
          (verifySignature d secret body (buildSignatureHeader t sig).toList
            now tolerance = .ok () ↔ SameHalf now t) :=
  ⟨fun _ _ _ _ _ => verifiesExactly_iff, fun _ _ _ _ => signedPayload_inj,
    fun _ _ _ _ _ _ => verify_built_iff⟩

def summing : Dispatcher where
  shouldRetry := exponentialShouldRetry
  disableAfterConsecutiveFailures := 10
  hmacSha256 := fun secret message =>
    List.replicate 32 ((secret ++ message).foldl (· + ·) 0)
  timeoutSecs := 10
  contentType := "application/json"

/-- Its signature of one body under one secret. -/
def signedAt (t : UInt64) : String :=
  hexEncode (summing.hmacSha256 [1] (signedPayload t [2]))

/-- A header built now is accepted five minutes later. -/
theorem built_verifies :
    verifySignature summing [1] [2]
      (buildSignatureHeader 1700000000 (signedAt 1700000000)).toList
      1700000300 ⟨300, by decide⟩ = .ok () :=
  ((signing_exact_iff summing).2.2 [1] [2] 1700000000 _ 1700000300
    ⟨300, by decide⟩ rfl (by decide)).2 (by decide)

/-- A timestamp of 2^63 panics; and one of 2^64 - 1 that the secret has
signed passes for a close one just after the epoch. -/
theorem distant_timestamps :
    ¬ VerifiesExactly summing [1] [2] "t=9223372036854775808,v1=00".toList
        1700000000 ⟨300, by decide⟩
      ∧ ¬ VerifiesExactly summing [1] [2]
        (buildSignatureHeader 18446744073709551615
          (signedAt 18446744073709551615)).toList 100 ⟨300, by decide⟩ := by
  constructor
  · intro h
    have hparse : parseSignatureHeader "t=9223372036854775808,v1=00".toList
        = .ok (9223372036854775808, [['0', '0']]) := by
      decide +kernel
    exact h.total (verifySignature_panic hparse (by decide +kernel))
  · intro h
    have hparse := parse_built 18446744073709551615
      (solid_hexEncode (summing.hmacSha256 [1] (signedPayload 18446744073709551615 [2])))
    have hsigned : Signed summing [1] [2] 18446744073709551615
        [(signedAt 18446744073709551615).toList] := by
      refine ⟨_, List.mem_singleton_self _, ?_⟩
      rw [String.ofList_toList]
      rfl
    have hsome : elapsed 100 18446744073709551615 = some ⟨101, by decide⟩ := by
      decide +kernel
    have haccepted : verifySignature summing [1] [2]
        (buildSignatureHeader 18446744073709551615
          (signedAt 18446744073709551615)).toList 100 ⟨300, by decide⟩
        = .ok () :=
      (verifySignature_some hparse hsome).2.2 ⟨by decide, hsigned⟩
    have hclose : (distance 100 18446744073709551615 : Int) ≤ 300 :=
      ((genuine_iff hparse).1 (h.exact.1 haccepted)).1
    exact absurd hclose (by decide +kernel)

end OpenStandards.OpWebhook

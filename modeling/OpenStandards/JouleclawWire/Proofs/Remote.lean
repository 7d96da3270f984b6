/-
A remote lookup, from the client's query to its answer.

Message and reply are read back field by field (`reads_quote`,
`reads_output`), and the frame around them comes off (`decode_encode`). Two
things are lost on the way. The decoder does not know every tier that the
encoder writes (`fails_quote`). And a refusal's payload is five bytes longer
than its text, so that a text may fit 32 bits where the payload does not
(`readRefusal_cut`). The client makes its answer of what the reply is
decoded to (`tryAnswer_direct`): a reply that is lost becomes a refusal.
-/
import OpenStandards.JouleclawWire.Wire
import OpenStandards.JouleclawHistory.Proofs.Disk

namespace OpenStandards.JouleclawWire

open Lib JouleclawCascade
open JouleclawHistory (Storable stored OutputFits)

variable {bytes : List UInt8}

-- ==== fields

variable {n : Nat} {tier : TierId} {output : AnswerOutput} {m : WireMessage}

theorem reads_u8 (h : n < 256) : Reads bytes (readU8 bytes) (beBytes 1 n) n :=
  reads_beAt _ _ (by omega)

theorem reads_u32 (h : n < 2 ^ 32) : Reads bytes (readU32 bytes) (beBytes 4 n) n :=
  reads_beAt _ _ (by omega)

theorem reads_u64 (h : n < 2 ^ 64) : Reads bytes (readU64 bytes) (beBytes 8 n) n :=
  reads_beAt _ _ (by omega)

theorem fromUtf8_ok (s : Text) : fromUtf8 (Text.utf8 s) = .ok s := by
  unfold fromUtf8
  rw [Text.fromUtf8?_eq_some_iff.2 rfl]

theorem reads_prefixed {part : List UInt8} (h : part.length < 2 ^ 32) :
    Reads bytes (readPrefixed bytes) (prefixed part) part :=
  .bind (reads_u32 h) (reads_takeAt truncated bytes part)

theorem reads_key (key : EntryKey) : Reads bytes (readKey bytes) key.toList key := by
  have hkey := reads_takeAt truncated bytes key.toList
  rw [List.Vector.toList_length] at hkey
  refine .done hkey fun cursor => ?_
  dsimp only
  rw [copyFromSlice_toList, ok_bind]

-- ==== tiers

/-- The decoder of the wire knows the tiers that the decoder of the durable
history knows. -/
theorem decodeTier_eq (family data : Nat) :
    decodeTier family data = (JouleclawHistory.decodeTier family data).mapError
      fun _ => .err (.badTier family data) := by
  match family with
  | 0 | 2 | 3 | 4 => rfl
  | 1 =>
    match data with
    | 0 | 1 | 2 | 3 | 4 | 5 | 6 | 7 => rfl
    | _ + 8 => rfl
  | _ + 5 => rfl

theorem decodeTier_of_storable (h : Storable tier) :
    decodeTier (encodeTier tier).1 (encodeTier tier).2 = .ok (stored tier) := by
  rw [decodeTier_eq]
  exact congrArg _ (JouleclawHistory.decodeTier_of_storable h)

theorem encodeTier_lt (tier : TierId) :
    (encodeTier tier).1 < 256 ∧ (encodeTier tier).2 < 2 ^ 32 :=
  JouleclawHistory.encodeTier_lt tier

theorem decodeTier_of_not_storable (h : ¬ Storable tier) :
    decodeTier (encodeTier tier).1 (encodeTier tier).2
      = .error (.err (.badTier (encodeTier tier).1 (encodeTier tier).2)) := by
  obtain ⟨s, hs⟩ := JouleclawHistory.decodeTier_of_not_storable h
  rw [decodeTier_eq]
  exact congrArg _ hs

theorem reads_tier (h : Storable tier) :
    Reads bytes (readTier bytes) (tierBytes tier) (stored tier) := by
  obtain ⟨hfamily, hdata⟩ := encodeTier_lt tier
  refine .bind (reads_u8 hfamily) (.done (reads_u32 hdata) fun cursor => ?_)
  dsimp only
  rw [decodeTier_of_storable h, ok_bind]

theorem fails_tier (h : ¬ Storable tier) :
    Fails bytes (readTier bytes) (tierBytes tier)
      (.err (.badTier (encodeTier tier).1 (encodeTier tier).2)) := by
  obtain ⟨hfamily, hdata⟩ := encodeTier_lt tier
  refine (reads_u8 hfamily).bind_fails fun cursor rest hat => ?_
  obtain ⟨cursor', hread, -⟩ := reads_u32 hdata cursor rest hat
  dsimp only
  rw [hread, ok_bind]
  dsimp only
  rw [decodeTier_of_not_storable h]
  rfl

-- ==== outputs

theorem readRefusal_ok {reason : RefusalReason} (h : (refusalPayload reason).length < 2 ^ 32) :
    ∃ pos, readRefusal (refusalPayload reason) 0 = .ok (reason, pos) := by
  have hreads : Reads (refusalPayload reason)
      (readRefusal (refusalPayload reason)) (refusalPayload reason)
      reason := by
    cases reason with
    | inapplicable => exact .done (reads_u8 (by decide)) fun _ => rfl
    | lowConfidence c =>
      refine .bind (reads_u8 (by decide)) (.done (reads_u32 c.toNat_lt) fun cursor => ?_)
      dsimp only
      rw [UInt32.ofNat_toNat]
    | tierSpecific s =>
      have hlen : (Text.utf8 s).length < 2 ^ 32 := by
        unfold refusalPayload prefixed at h
        rw [List.length_append, List.length_append] at h
        omega
      refine .bind (reads_u8 (by decide)) (.done (reads_prefixed hlen) fun cursor => ?_)
      dsimp only
      rw [fromUtf8_ok, ok_bind]
  exact hreads.whole (by omega)

/-- The payload of an output fits its length field. A refusal's payload is
a little longer than its text. -/
def PayloadFits (output : AnswerOutput) : Prop :=
  (outputParts output).2.length < 2 ^ 32

theorem outputParts_lt (output : AnswerOutput) : (outputParts output).1 < 256 := by
  cases output with
  | text s => exact (by decide : 0 < 256)
  | structured b => exact (by decide : 1 < 256)
  | refused reason => exact (by decide : 2 < 256)

theorem outputOf_ok (h : PayloadFits output) :
    outputOf (outputParts output).1 (outputParts output).2 = .ok output := by
  cases output with
  | text s =>
    change (fromUtf8 (Text.utf8 s)).map _ = _
    rw [fromUtf8_ok]
    rfl
  | structured b => rfl
  | refused reason =>
    obtain ⟨pos, hread⟩ := readRefusal_ok h
    change (readRefusal (refusalPayload reason) 0).map _ = _
    rw [hread]
    rfl

theorem reads_output (h : PayloadFits output) :
    Reads bytes (decodeOutput bytes) (encodeOutput output) output := by
  refine .bind (reads_u8 (outputParts_lt output)) (.done (reads_prefixed h) fun cursor => ?_)
  dsimp only
  rw [outputOf_ok h, ok_bind]

/-- A reason of which at most four bytes are there is cut off. -/
theorem readRefusal_cut (s : Text) (hn : n ≤ 4) :
    ∃ e, readRefusal ((refusalPayload (.tierSpecific s)).take n) 0 = .error (.err e) := by
  have hpayload : refusalPayload (.tierSpecific s) = 2 :: prefixed (Text.utf8 s) := rfl
  rw [hpayload]
  cases n with
  | zero => exact ⟨_, rfl⟩
  | succ k =>
    rw [List.take_succ_cons]
    have hat : At (2 :: (prefixed (Text.utf8 s)).take k) 0
        (beBytes 1 2 ++ (prefixed (Text.utf8 s)).take k) := by
      refine At.start ?_
      rw [List.length_cons, List.length_take]
      omega
    obtain ⟨cursor, hread, hrest⟩ := reads_u8 (by decide) 0 _ hat
    have hlen := hrest.length_eq
    rw [List.length_cons] at hlen
    have hshort : (2 :: (prefixed (Text.utf8 s)).take k).length < cursor + 4 := by
      rw [List.length_cons, List.length_take]
      rw [List.length_take] at hlen
      omega
    refine ⟨truncated cursor 4 (2 :: (prefixed (Text.utf8 s)).take k).length, ?_⟩
    unfold readRefusal
    rw [hread, ok_bind]
    dsimp only
    unfold readPrefixed readU32
    rw [beAt_short _ _ hshort (by omega), error_bind, error_bind]
    rfl

/-- A text that fits its own length field but not that of the refusal it
stands in. -/
theorem fails_output (hfits : OutputFits output) (h : ¬ PayloadFits output) :
    ∃ e, Fails bytes (decodeOutput bytes) (encodeOutput output) (.err e) := by
  obtain ⟨s, rfl⟩ : ∃ s, output = .refused (.tierSpecific s) := by
    cases output with
    | text s => exact absurd hfits h
    | structured b => exact absurd hfits h
    | refused reason =>
      cases reason with
      | tierSpecific s => exact ⟨s, rfl⟩
      | inapplicable => exact absurd (by decide : 1 < 2 ^ 32) h
      | lowConfidence c => exact absurd (by decide : 5 < 2 ^ 32) h
  have hlen : (refusalPayload (.tierSpecific s)).length = 5 + (Text.utf8 s).length := by
    unfold refusalPayload prefixed
    rw [List.length_append, List.length_append, length_beBytes, length_beBytes]
    omega
  have hfits' : (Text.utf8 s).length < 2 ^ 32 := hfits
  have hbig : 2 ^ 32 ≤ (refusalPayload (.tierSpecific s)).length :=
    Nat.le_of_not_lt h
  -- the length that is written, and as many bytes of the payload
  obtain ⟨n, hn⟩ : ∃ n, n = (refusalPayload (.tierSpecific s)).length % 256 ^ 4 := ⟨_, rfl⟩
  have hsmall : n ≤ 4 := by omega
  have hpart : ((refusalPayload (.tierSpecific s)).take n).length = n := by
    rw [List.length_take]
    omega
  have hwritten : encodeOutput (.refused (.tierSpecific s))
      = beBytes 1 2 ++ (prefixed ((refusalPayload (.tierSpecific s)).take n)
        ++ (refusalPayload (.tierSpecific s)).drop n) := by
    unfold encodeOutput outputParts prefixed
    rw [hpart, List.append_assoc, List.take_append_drop, hn, beBytes_mod]
  obtain ⟨e, he⟩ := readRefusal_cut s hsmall
  refine ⟨e, ?_⟩
  rw [hwritten]
  refine (reads_u8 (by decide)).bind_fails
    ((reads_prefixed (by omega)).bind_fails fun cursor rest hat => ?_)
  dsimp only
  unfold outputOf
  rw [he]
  rfl

-- ==== messages

namespace WireMessage

def kept : WireMessage → WireMessage
  | .quote q => .quote { q with originTier := stored q.originTier }
  | .response r => .response { r with originTier := stored r.originTier }
  | m => m

def Fits : WireMessage → Prop
  | .response r => OutputFits r.output
  | .error e => (Text.utf8 e.message).length < 2 ^ 32
  | _ => True

def Decodable : WireMessage → Prop
  | .quote q => Storable q.originTier
  | .response r => Storable r.originTier ∧ PayloadFits r.output
  | _ => True

end WireMessage

theorem reads_request (r : WireRequest) :
    Reads bytes (decodeRequest bytes) (encodeRequest r) r := by
  refine .bind (reads_key _) (.bind (reads_u64 (UInt64.toNat_lt _))
    (.done (reads_u64 (UInt64.toNat_lt _)) fun cursor => ?_))
  dsimp only
  rw [UInt64.ofNat_toNat, UInt64.ofNat_toNat]

theorem reads_quote {q : WireQuote} (h : Storable q.originTier) :
    Reads bytes (decodeQuote bytes) (encodeQuote q)
      { q with originTier := stored q.originTier } := by
  refine .bind (reads_key _) (.bind (reads_u64 (UInt64.toNat_lt _)) ?_)
  refine .bind (reads_u64 (UInt64.toNat_lt _)) ?_
  refine .bind (reads_u32 (UInt32.toNat_lt _)) ?_
  refine .bind (reads_tier h) ?_
  refine .done (reads_u64 (UInt64.toNat_lt _)) fun cursor => ?_
  dsimp only
  rw [UInt64.ofNat_toNat, UInt64.ofNat_toNat, UInt32.ofNat_toNat, UInt64.ofNat_toNat]

def quoteFront (q : WireQuote) : List UInt8 :=
  q.queryKey.toList ++ (beBytes 8 q.requestId.toNat
    ++ (beBytes 8 q.joulesCharged.toNat
    ++ (beBytes 4 q.confidence.toNat ++ tierBytes q.originTier)))

theorem encodeQuote_eq (q : WireQuote) :
    encodeQuote q = quoteFront q ++ beBytes 8 q.expirySecs.toNat := by
  unfold encodeQuote quoteFront
  simp only [List.append_assoc]

theorem fails_quote {q : WireQuote} (h : ¬ Storable q.originTier) :
    ∃ e, Fails bytes (decodeQuote bytes) (quoteFront q) (.err e) := by
  refine ⟨.badTier (encodeTier q.originTier).1 (encodeTier q.originTier).2,
    (reads_key _).bind_fails ?_⟩
  refine (reads_u64 (UInt64.toNat_lt _)).bind_fails ?_
  refine (reads_u64 (UInt64.toNat_lt _)).bind_fails ?_
  refine (reads_u32 (UInt32.toNat_lt _)).bind_fails ?_
  exact (fails_tier h).bind

theorem errorCode_fromU8 (code : ErrorCode) : ErrorCode.fromU8 code.toNat = some code := by
  cases code <;> rfl

theorem reads_error {e : WireError} (h : (Text.utf8 e.message).length < 2 ^ 32) :
    Reads bytes (decodeError bytes) (encodeError e) e := by
  have hcode : e.code.toNat < 256 := by
    cases e.code <;> decide
  refine .bind (reads_u64 (UInt64.toNat_lt _)) (.bind (reads_u8 hcode) ?_)
  dsimp only
  rw [errorCode_fromU8]
  refine .done (reads_prefixed h) fun cursor => ?_
  dsimp only
  rw [fromUtf8_ok, ok_bind, UInt64.ofNat_toNat]

theorem length_outputParts (h : OutputFits output) :
    (outputParts output).2.length < 2 ^ 33 := by
  cases output with
  | text s =>
    have hlen : (Text.utf8 s).length < 2 ^ 32 := h
    exact hlen.trans (by decide)
  | structured b =>
    have hlen : b.length < 2 ^ 32 := h
    exact hlen.trans (by decide)
  | refused reason =>
    cases reason with
    | inapplicable => exact (by decide : 1 < 2 ^ 33)
    | lowConfidence c => exact (by decide : 5 < 2 ^ 33)
    | tierSpecific s =>
      have hlen : (Text.utf8 s).length < 2 ^ 32 := h
      unfold outputParts refusalPayload prefixed
      simp only [List.length_append, length_beBytes]
      omega

theorem encodePayload_lt (h : m.Fits) :
    (encodePayload m).1 < 256 ∧ (encodePayload m).2.length < 2 ^ 34 := by
  have hquote : ∀ q : WireQuote, (encodeQuote q).length = 65 := by
    intro q
    unfold encodeQuote tierBytes
    simp only [List.length_append, length_beBytes, List.Vector.toList_length]
  cases m with
  | request r =>
    refine ⟨(by decide : 0 < 256), ?_⟩
    unfold encodePayload encodeRequest
    simp only [List.length_append, length_beBytes, List.Vector.toList_length]
    omega
  | quote q =>
    refine ⟨(by decide : 1 < 256), ?_⟩
    unfold encodePayload
    rw [hquote]
    omega
  | response r =>
    have hlen := length_outputParts h
    refine ⟨(by decide : 2 < 256), ?_⟩
    unfold encodePayload encodeOutput prefixed
    simp only [List.length_append, length_beBytes, hquote]
    omega
  | error e =>
    have hlen : (Text.utf8 e.message).length < 2 ^ 32 := h
    refine ⟨(by decide : 3 < 256), ?_⟩
    unfold encodePayload encodeError prefixed
    simp only [List.length_append, length_beBytes]
    omega

/-- The frame is taken off, whatever the payload says. -/
theorem decode_encode (h : m.Fits) :
    decode (encode m) = decodePayload (encodePayload m).1 (encodePayload m).2 := by
  obtain ⟨hkind, hlen⟩ := encodePayload_lt h
  have hmagicLen : magic.length = 8 := by decide
  have hfits : (encode m).length < 2 ^ 64 := by
    unfold encode signatureLen
    simp only [List.length_append, length_beBytes, hmagicLen, List.length_replicate]
    omega
  obtain ⟨c₁, hmagic, hat₁⟩ :=
    reads_takeAt truncated (encode m) magic 0 _ (At.start hfits)
  obtain ⟨c₂, hkindRead, hat₂⟩ := reads_u8 hkind c₁ _ hat₁
  obtain ⟨c₃, hsize, hat₃⟩ := reads_u64 (by omega) c₂ _ hat₂
  obtain ⟨c₄, hpayload, hat₄⟩ :=
    reads_takeAt truncated (encode m) (encodePayload m).2 c₃ _ hat₃
  obtain ⟨c₅, hsignature, -⟩ := reads_takeAt truncated (encode m)
    (List.replicate signatureLen 0) c₄ _ hat₄.append_nil
  rw [hmagicLen] at hmagic
  rw [List.length_replicate] at hsignature
  unfold decode readN
  rw [hmagic, ok_bind]
  dsimp only
  rw [if_neg (not_not.2 rfl), hkindRead, ok_bind]
  dsimp only
  rw [hsize, ok_bind]
  dsimp only
  rw [hpayload, ok_bind]
  dsimp only
  rw [hsignature, ok_bind]

theorem decodePayload_of_decodable (h : m.Fits) (hm : m.Decodable) :
    decodePayload (encodePayload m).1 (encodePayload m).2 = .ok m.kept := by
  have hlen := (encodePayload_lt h).2
  cases m with
  | request r =>
    obtain ⟨c, hread⟩ := (reads_request r).whole (by
      exact hlen.trans (by decide))
    change (decodeRequest (encodeRequest r) 0).map _ = _
    rw [hread]
    rfl
  | quote q =>
    obtain ⟨c, hread⟩ := (reads_quote hm).whole (by
      exact hlen.trans (by decide))
    change (decodeQuote (encodeQuote q) 0).map _ = _
    rw [hread]
    rfl
  | response r =>
    have hreads : Reads (encodeQuote r.toWireQuote ++ encodeOutput r.output)
        (decodeResponse (encodeQuote r.toWireQuote ++ encodeOutput r.output))
        (encodeQuote r.toWireQuote ++ encodeOutput r.output)
        { r with originTier := stored r.originTier } :=
      .bind (reads_quote hm.1) (.done (reads_output hm.2) fun _ => rfl)
    obtain ⟨c, hread⟩ := hreads.whole (by exact hlen.trans (by decide))
    change (decodeResponse (encodeQuote r.toWireQuote ++ encodeOutput r.output) 0).map _ = _
    rw [hread]
    rfl
  | error e =>
    obtain ⟨c, hread⟩ := (reads_error h).whole (by
      exact hlen.trans (by decide))
    change (decodeError (encodeError e) 0).map _ = _
    rw [hread]
    rfl

theorem decodePayload_of_not_decodable (h : m.Fits) (hm : ¬ m.Decodable) :
    ∃ e, decodePayload (encodePayload m).1 (encodePayload m).2 = .error (.err e) := by
  have hlen := (encodePayload_lt h).2
  have hquote : ∀ (q : WireQuote) (rest : List UInt8),
      encodeQuote q ++ rest = quoteFront q ++ (beBytes 8 q.expirySecs.toNat ++ rest) := by
    intro q rest
    rw [encodeQuote_eq, List.append_assoc]
  cases m with
  | request r => exact absurd trivial hm
  | error e => exact absurd trivial hm
  | quote q =>
    obtain ⟨e, he⟩ := fails_quote hm
    have hread := he.start (encodeQuote_eq q) (hlen.trans (by decide))
    change ∃ e, (decodeQuote (encodeQuote q) 0).map _ = _
    rw [hread]
    exact ⟨e, rfl⟩
  | response r =>
    obtain ⟨bytes, hbytes⟩ : ∃ bytes, bytes
        = encodeQuote r.toWireQuote ++ encodeOutput r.output := ⟨_, rfl⟩
    change ∃ e, (decodeResponse
      (encodeQuote r.toWireQuote ++ encodeOutput r.output) 0).map _ = _
    change (encodeQuote r.toWireQuote ++ encodeOutput r.output).length < _ at hlen
    rw [← hbytes] at hlen ⊢
    by_cases htier : Storable r.originTier
    · obtain ⟨e, he⟩ : ∃ e, Fails bytes (decodeOutput bytes) (encodeOutput r.output) (.err e) :=
        fails_output h fun hout => hm ⟨htier, hout⟩
      have hfails : Fails bytes (decodeResponse bytes)
          (encodeQuote r.toWireQuote ++ encodeOutput r.output)
          (.err e) := (reads_quote htier).bind_fails he.bind
      rw [hfails.start (hbytes.trans (List.append_nil _).symm) (hlen.trans (by decide))]
      exact ⟨e, rfl⟩
    · obtain ⟨e, he⟩ : ∃ e, Fails bytes (decodeQuote bytes)
          (quoteFront r.toWireQuote) (.err e) := fails_quote htier
      have hfails : Fails bytes (decodeResponse bytes)
          (quoteFront r.toWireQuote) (.err e) := he.bind
      rw [hfails.start (hbytes.trans (hquote r.toWireQuote _)) (hlen.trans (by decide))]
      exact ⟨e, rfl⟩

/-- A message comes back exactly when it is decodable. -/
theorem round_trip_iff (h : m.Fits) : decode (encode m) = .ok m.kept ↔ m.Decodable := by
  rw [decode_encode h]
  constructor
  · intro hok
    by_contra hm
    obtain ⟨e, he⟩ := decodePayload_of_not_decodable h hm
    cases he.symm.trans hok
  · exact decodePayload_of_decodable h

-- ==== remote lookup

section

variable {H : Type} (f : F64) (digest : List (List UInt8) → EntryKey)
  (lookupExact : H → EntryKey → H × Lookup)

def ReplyFits : Lookup → Prop
  | .ok (some a) => OutputFits a.output
  | .ok none => True
  | .error e => (Text.utf8 e).length < 2 ^ 32

/-- What was found is handed back with its confidence, as a hit of the tier
it came from; where nothing was found the tier refuses. -/
def Mirrors (answer : Answer UInt64 UInt32) : Lookup → Prop
  | .ok (some a) =>
    answer.output = a.output ∧ answer.confidence = a.confidence
      ∧ answer.trace.map (fun entry => (entry.tier, entry.outcome))
        = [(stored a.originatingTier, .hit)]
  | _ => ∃ reason, answer.output = .refused (.tierSpecific reason)

/-- The tier answers as a lookup in the remote history does. -/
def AgreesWithLookup (tier : RpcTier H) (q : Query UInt64 UInt32) : Prop :=
  ∃ tier' answer, tier.tryAnswer f digest q = .ok (tier', answer)
    ∧ Mirrors answer (lookupExact tier.transport (keyFor digest q)).2

theorem fits_reply (r : WireRequest) {found : Lookup}
    (h : ReplyFits found) : (reply r found).Fits := by
  cases found with
  | error e => exact h
  | ok a? =>
    cases a? with
    | none =>
      have hlen : (Text.utf8 "key not in history".toList).length < 2 ^ 32 := by decide
      exact hlen
    | some a => exact h

theorem serveRequest_encode (r : WireRequest) (history : H) :
    serveRequest lookupExact (encode (.request r)) history
      = .ok ((lookupExact history r.queryKey).1,
          encode (reply r (lookupExact history r.queryKey).2)) := by
  have hdecode : decode (encode (.request r)) = .ok (.request r) :=
    (round_trip_iff (m := .request r) trivial).2 trivial
  unfold serveRequest
  rw [hdecode]

def requestOf (tier : RpcTier H) (q : Query UInt64 UInt32) : WireRequest :=
  { queryKey := keyFor digest q, maxJoules := f.remaining q.budget
    requestId := tier.nextId }

theorem tryAnswer_direct {tier : RpcTier H} (q : Query UInt64 UInt32)
    (hdirect : tier.roundTrip = direct lookupExact)
    (hfits : ReplyFits (lookupExact tier.transport (keyFor digest q)).2) :
    ∃ tier' : RpcTier H, ∃ cost came, tier.tryAnswer f digest q
        = .ok (tier', tier'.answerOf f tier.nextId cost came)
      ∧ decode (encode (reply (requestOf f digest tier q)
          (lookupExact tier.transport (keyFor digest q)).2))
        = came.mapError .err := by
  have hreply := fits_reply (requestOf f digest tier q) hfits
  have htrip : tier.roundTrip tier.transport
      (encode (.request (requestOf f digest tier q)))
        = .ok ((lookupExact tier.transport (keyFor digest q)).1,
            .ok (encode (reply (requestOf f digest tier q)
              (lookupExact tier.transport (keyFor digest q)).2))) := by
    rw [hdirect]
    unfold direct
    rw [serveRequest_encode]
    rfl
  unfold requestOf at htrip
  refine ⟨{ tier with
      nextId := tier.nextId + 1
      transport := (lookupExact tier.transport (keyFor digest q)).1 },
    f.add tier.localOverheadJoules (f.mul tier.perByteJoules
      (f.ofNat (encode (.request (requestOf f digest tier q))).length)), ?_⟩
  by_cases hm : (reply (requestOf f digest tier q)
      (lookupExact tier.transport (keyFor digest q)).2).Decodable
  · have hdecode := (round_trip_iff hreply).2 hm
    refine ⟨.ok _, ?_, hdecode⟩
    unfold RpcTier.tryAnswer
    dsimp only
    rw [htrip, ok_bind]
    dsimp only
    unfold requestOf at hdecode
    rw [hdecode]
    rfl
  · obtain ⟨e, he⟩ := decodePayload_of_not_decodable hreply hm
    rw [← decode_encode hreply] at he
    refine ⟨.error e, ?_, he⟩
    unfold RpcTier.tryAnswer
    dsimp only
    rw [htrip, ok_bind]
    dsimp only
    unfold requestOf at he
    rw [he]
    rfl

/-- A refusal's trace has no hit. -/
theorem not_mirrors_refusing (tier : RpcTier H) (reason : Text)
    (cost : UInt64) (a : HistoryAnswer UInt64 UInt32) :
    ¬ Mirrors (tier.refusing reason cost []) (.ok (some a)) := by
  intro h
  obtain ⟨-, -, htrace⟩ := h
  cases htrace

/-- A remote lookup says what the remote history says exactly when its
reply is decodable. -/
theorem agrees_iff {tier : RpcTier H} {q : Query UInt64 UInt32}
    (hdirect : tier.roundTrip = direct lookupExact)
    (hfits : ReplyFits (lookupExact tier.transport (keyFor digest q)).2) :
    AgreesWithLookup f digest lookupExact tier q
      ↔ ∀ a, (lookupExact tier.transport (keyFor digest q)).2 = .ok (some a) →
        Storable a.originatingTier ∧ PayloadFits a.output := by
  obtain ⟨tier', cost, came, hanswer, hcame⟩ :=
    tryAnswer_direct f digest lookupExact q hdirect hfits
  have hreply := fits_reply (requestOf f digest tier q) hfits
  have hagrees : AgreesWithLookup f digest lookupExact tier q
      ↔ Mirrors (tier'.answerOf f tier.nextId cost came)
          (lookupExact tier.transport (keyFor digest q)).2 := by
    constructor
    · intro h
      obtain ⟨tier'', answer, hok, hmirrors⟩ := h
      rw [hanswer] at hok
      rw [(Prod.mk.inj (Except.ok.inj hok)).2]
      exact hmirrors
    · intro h
      exact ⟨tier', _, hanswer, h⟩
  rw [hagrees]
  clear hanswer hagrees
  revert hreply hcame
  cases hfound : (lookupExact tier.transport (keyFor digest q)).2 with
  | error e =>
    intro hcame hreply
    rw [(round_trip_iff hreply).2 trivial] at hcame
    have hrefused : Mirrors (tier'.answerOf f tier.nextId cost came) (.error e) := by
      cases came with
      | error e' => cases hcame
      | ok m =>
        rw [← Except.ok.inj hcame]
        exact ⟨_, rfl⟩
    exact iff_of_true hrefused fun a h => by cases h
  | ok a? =>
    cases a? with
    | none =>
      intro hcame hreply
      rw [(round_trip_iff hreply).2 trivial] at hcame
      have hrefused : Mirrors (tier'.answerOf f tier.nextId cost came) (.ok none) := by
        cases came with
        | error e' => cases hcame
        | ok m =>
          rw [← Except.ok.inj hcame]
          exact ⟨_, rfl⟩
      exact iff_of_true hrefused fun a h => by cases h
    | some a =>
      intro hcame hreply
      by_cases hm : Storable a.originatingTier ∧ PayloadFits a.output
      · rw [(round_trip_iff hreply).2 hm] at hcame
        have hserved : Mirrors
            (tier'.answerOf f tier.nextId cost came)
            (.ok (some a)) := by
          cases came with
          | error e' => cases hcame
          | ok m =>
            have hsame : (requestOf f digest tier q).requestId = tier.nextId := rfl
            rw [← Except.ok.inj hcame]
            unfold RpcTier.answerOf reply WireMessage.kept
            dsimp only
            rw [if_neg (not_not.2 hsame)]
            exact ⟨rfl, rfl, rfl⟩
        refine iff_of_true hserved fun a' h => ?_
        rw [← Option.some.inj (Except.ok.inj h)]
        exact hm
      · obtain ⟨e, he⟩ := decodePayload_of_not_decodable hreply hm
        rw [decode_encode hreply, he] at hcame
        have hlost : ¬ Mirrors
            (tier'.answerOf f tier.nextId cost came)
            (.ok (some a)) := by
          cases came with
          | ok m => cases hcame
          | error e' => exact not_mirrors_refusing _ _ _ _
        exact iff_of_false hlost fun h => hm (h a rfl)

/-- Messages come back, and a remote lookup says what the remote history
says, exactly when the decoder knows the tier in the message and a refusal
in it fits the length of its payload. -/
theorem remote_lookup_iff :
    (∀ m : WireMessage, m.Fits → (decode (encode m) = .ok m.kept ↔ m.Decodable))
      ∧ ∀ (tier : RpcTier H) (q : Query UInt64 UInt32),
          tier.roundTrip = direct lookupExact →
          ReplyFits (lookupExact tier.transport (keyFor digest q)).2 →
          (AgreesWithLookup f digest lookupExact tier q
            ↔ ∀ a, (lookupExact tier.transport (keyFor digest q)).2 = .ok (some a) →
              Storable a.originatingTier ∧ PayloadFits a.output) :=
  ⟨fun _ hm => round_trip_iff hm,
    fun _ _ hdirect hfits => agrees_iff f digest lookupExact hdirect hfits⟩

end

/-- A history with one answer to everything. -/
def holding (tier : TierId) : Unit → EntryKey → Unit × Lookup :=
  fun _ _ => ((), .ok (some
    { output := .text "x".toList, originatingTier := tier,
      joulesSpent := 0, confidence := 0 }))

def client (tier : TierId) : RpcTier Unit := .new () (direct (holding tier))

open JouleclawHistory (firstBytes noted)

theorem holding_fits (tier : TierId) (key : EntryKey) : ReplyFits (holding tier () key).2 :=
  (by decide : 1 < 2 ^ 32)

theorem model_answer_agrees :
    (∀ f : F64, AgreesWithLookup f firstBytes (holding (.l3 7))
        (client (.l3 7)) (noted "a" "x" .l0).q)
      ∧ decode (encode (malformed "expected Request"))
        = .ok (malformed "expected Request") := by
  constructor
  · intro f
    refine ((remote_lookup_iff f firstBytes (holding (.l3 7))).2 _ _ rfl
      (holding_fits ..)).2 fun a h => ?_
    rw [← Option.some.inj (Except.ok.inj h)]
    exact ⟨⟨rfl, fun p hp => by cases hp⟩, (by decide : 1 < 2 ^ 32)⟩
  · have hfits : (malformed "expected Request").Fits :=
      (by decide : (Text.utf8 "expected Request".toList).length < 2 ^ 32)
    exact ((remote_lookup_iff (H := Unit) ⟨fun a _ => a, fun a _ => a,
      fun a _ => a, fun a _ => a, fun _ => 0⟩ firstBytes
      (holding .l0)).1 _ hfits).2 trivial

/-- An answer of the planner is held, and the client refuses. -/
theorem plan_answer_lost :
    (∀ f : F64, ¬ AgreesWithLookup f firstBytes (holding (.l1 .plan))
        (client (.l1 .plan)) (noted "a" "x" .l0).q)
      ∧ decode (encode (reply ⟨.replicate 32 0, 0, 1⟩
          (holding (.l1 .plan) () (.replicate 32 0)).2))
        = .error (.err (.badTier 1 9)) := by
  have hfits := holding_fits (.l1 .plan) (.replicate 32 0)
  refine ⟨fun f h => ?_, (decode_encode (fits_reply _ hfits)).trans rfl⟩
  have hknown := (agrees_iff f firstBytes (holding (.l1 .plan)) rfl (holding_fits ..)).1 h _ rfl
  exact absurd (hknown.1.2 .plan rfl) (by decide)

end OpenStandards.JouleclawWire

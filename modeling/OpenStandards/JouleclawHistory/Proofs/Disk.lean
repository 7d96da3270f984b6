/-
The log: what is read back, and what a crash leaves.

A record is read back field by field as far as its tier (`reads_record`);
one record of a tier the decoder does not know makes the whole file
unreadable (`readRecords_unstorable`).

A cut leaves whole recordings and a torn tail (`take_logged`). A tail that
reaches into a record is an error. A tail within a length is skipped by the
reader and kept by the writer, so the next record is appended to it and
completes the torn length (`readRecords_cut_length`).
-/
import OpenStandards.JouleclawHistory.Disk
import OpenStandards.JouleclawHistory.Proofs.Tiered

namespace OpenStandards.JouleclawHistory

open Lib JouleclawCascade

variable {bytes : List UInt8}

-- ==== fields

theorem utf8_ok (what : String) (s : Text) : utf8 what (Text.utf8 s) = .ok s := by
  unfold utf8
  rw [Text.fromUtf8?_eq_some_iff.2 rfl]

theorem reads_prefixed {part : List UInt8} (h : part.length < 2 ^ 32) :
    Reads bytes (readPrefixed bytes) (prefixed part) part :=
  .bind (reads_beAt _ _ (by omega)) (reads_takeAt shortRead bytes part)

theorem reads_prefixedList {parts : List (List UInt8)}
    (hcount : parts.length < 2 ^ 32) (h : ∀ part ∈ parts, part.length < 2 ^ 32) :
    Reads bytes (readPrefixedList bytes) (prefixedList parts) parts :=
  .bind (reads_beAt _ _ (by omega)) (reads_many fun part hpart => reads_prefixed (h part hpart))

theorem length_prefixedList (parts : List (List UInt8)) :
    parts.length < (prefixedList parts).length
      ∧ ∀ part ∈ parts, part.length < (prefixedList parts).length := by
  have hlen : ∀ part, (prefixed part).length = 4 + part.length := by
    intro part
    unfold prefixed
    rw [List.length_append, length_beBytes]
  have hparts : parts.length ≤ (parts.flatMap prefixed).length
      ∧ ∀ part ∈ parts, part.length ≤ (parts.flatMap prefixed).length := by
    induction parts with
    | nil => exact ⟨le_refl _, nofun⟩
    | cons part parts ih =>
      rw [List.flatMap_cons, List.length_append, hlen, List.length_cons]
      refine ⟨by omega, fun other hother => ?_⟩
      rcases List.mem_cons.1 hother with rfl | hmem
      · omega
      · have := ih.2 other hmem
        omega
  unfold prefixedList
  rw [List.length_append, length_beBytes]
  refine ⟨by omega, fun part hpart => ?_⟩
  have := hparts.2 part hpart
  omega

theorem readMultimodal_ok {text : Text} {images audio : List (List UInt8)}
    (h : (multimodalPayload text images audio).length < 2 ^ 32) :
    (readMultimodal (multimodalPayload text images audio) 0).map Prod.fst
      = .ok (.multimodal text images audio) := by
  have hsplit : (prefixed (Text.utf8 text)).length
        + ((prefixedList images).length + (prefixedList audio).length)
      < 2 ^ 32 := by
    unfold multimodalPayload at h
    rwa [List.length_append, List.length_append] at h
  have htext : (Text.utf8 text).length < 2 ^ 32 := by
    have hlen : (prefixed (Text.utf8 text)).length = 4 + (Text.utf8 text).length := by
      unfold prefixed
      rw [List.length_append, length_beBytes]
    omega
  obtain ⟨hcount, hparts⟩ := length_prefixedList images
  obtain ⟨hcount', hparts'⟩ := length_prefixedList audio
  have hreads : Reads (multimodalPayload text images audio)
      (readMultimodal (multimodalPayload text images audio))
      (multimodalPayload text images audio)
      (.multimodal text images audio) := by
    refine .bind (reads_prefixed htext) (.given (utf8_ok ..) ?_)
    refine .bind (reads_prefixedList (by omega) fun part hpart => ?_) ?_
    · exact (hparts part hpart).trans (by omega)
    · refine .done (reads_prefixedList (by omega) fun part hpart => ?_)
        fun _ => rfl
      exact (hparts' part hpart).trans (by omega)
  obtain ⟨cursor, hread⟩ := hreads.whole (by omega)
  rw [hread]
  rfl

def InputFits (input : QueryInput) : Prop :=
  (inputParts input).2.length < 2 ^ 32

theorem inputOf_ok {input : QueryInput} (h : InputFits input) :
    inputOf (inputParts input).1 (inputParts input).2 = .ok input := by
  cases input with
  | text s =>
    change (utf8 _ (Text.utf8 s)).map _ = _
    rw [utf8_ok]
    rfl
  | structured b => rfl
  | binary b => rfl
  | image b => rfl
  | audio b => rfl
  | multimodal text images audio => exact readMultimodal_ok h

theorem reads_input {input : QueryInput} (h : InputFits input) :
    Reads bytes (readInput bytes) (encodeInput input) input := by
  have hvariant : (inputParts input).1 < 256 ^ 1 := by
    cases input with
    | text s => exact (by decide : 0 < 256 ^ 1)
    | structured b => exact (by decide : 1 < 256 ^ 1)
    | binary b => exact (by decide : 2 < 256 ^ 1)
    | image b => exact (by decide : 3 < 256 ^ 1)
    | audio b => exact (by decide : 4 < 256 ^ 1)
    | multimodal text images audio => exact (by decide : 5 < 256 ^ 1)
  refine .bind (reads_beAt _ _ hvariant) (.done (reads_prefixed h) ?_)
  intro cursor
  dsimp only
  rw [inputOf_ok h, ok_bind]

theorem reads_context (context : ContextRef) :
    Reads bytes (readContext bytes) (encodeContext context) context := by
  obtain ⟨sid, fp⟩ := context
  have hsid := reads_takeAt shortRead bytes sid.toList
  have hfp := reads_takeAt shortRead bytes fp.toList
  rw [List.Vector.toList_length] at hsid hfp
  refine .bind hsid (.given (copyFromSlice_toList sid) (.done hfp ?_))
  intro cursor
  dsimp only
  rw [copyFromSlice_toList, ok_bind]

def OutputFits : AnswerOutput → Prop
  | .text s => (Text.utf8 s).length < 2 ^ 32
  | .structured b => b.length < 2 ^ 32
  | .refused (.tierSpecific s) => (Text.utf8 s).length < 2 ^ 32
  | .refused _ => True

variable {n fuel : Nat} {tier : TierId} {e : Entry} {es : List Entry}
    {rs : List Recording} {torn lost : List UInt8}

theorem reads_u8 (h : n < 256) : Reads bytes (readU8 bytes) (beBytes 1 n) n :=
  reads_beAt _ _ (by omega)

theorem reads_u32 (h : n < 2 ^ 32) : Reads bytes (readU32 bytes) (beBytes 4 n) n :=
  reads_beAt _ _ (by omega)

theorem reads_u64 (h : n < 2 ^ 64) : Reads bytes (readU64 bytes) (beBytes 8 n) n :=
  reads_beAt _ _ (by omega)

theorem reads_refusal {reason : RefusalReason} (h : OutputFits (.refused reason)) :
    Reads bytes (readRefusal bytes) (encodeRefusal reason) reason := by
  cases reason with
  | inapplicable =>
    exact .bind (reads_u8 (by decide)) (.done (reads_u32 (by decide)) fun _ => rfl)
  | lowConfidence c =>
    refine .bind (reads_u8 (by decide)) (.done (reads_u32 c.toNat_lt) fun cursor => ?_)
    dsimp only
    rw [UInt32.ofNat_toNat]
  | tierSpecific s =>
    refine .bind (reads_u8 (by decide)) (.done (reads_prefixed h) fun cursor => ?_)
    dsimp only
    rw [utf8_ok, ok_bind]

theorem reads_output {output : AnswerOutput} (h : OutputFits output) :
    Reads bytes (readOutput bytes) (encodeOutput output) output := by
  cases output with
  | text s =>
    refine .bind (reads_u8 (by decide)) (.done (reads_prefixed h) fun cursor => ?_)
    dsimp only
    rw [utf8_ok, ok_bind]
  | structured b =>
    exact .bind (reads_u8 (by decide)) (.done (reads_prefixed h)
      fun _ => rfl)
  | refused reason =>
    exact .bind (reads_u8 (by decide)) (.done (reads_refusal h)
      fun _ => rfl)

-- ==== tiers

/-- The decoder knows the number the tier is kept under. -/
def Storable (tier : TierId) : Prop :=
  tier.isMeta = false ∧ ∀ p, tier = .l1 p → p.toNat < 8

def stored : TierId → TierId
  | .l0_1FactLut => .l0
  | .l0_25FormulaFirst | .l0_5ToolCompute | .l0_75SsmRouter =>
    .l1 .cacheLookup
  | .l1_25GraphRag | .l1_375StructContrast | .l1_5SsmReader
  | .l2_5NeuralRerank => .l2 0
  | .l4_5Proof => .l3 0
  | tier => tier

theorem encodeTier_lt (tier : TierId) :
    (encodeTier tier).1 < 256 ∧ (encodeTier tier).2 < 2 ^ 32 := by
  cases tier with
  | l1 p => cases p <;> decide
  | l2 m => exact ⟨(by decide : 2 < 256), m.toNat_lt⟩
  | l3 m => exact ⟨(by decide : 3 < 256), m.toNat_lt⟩
  | l4 m => exact ⟨(by decide : 4 < 256), m.toNat_lt⟩
  | _ => decide

theorem decodeTier_of_storable (h : Storable tier) :
    decodeTier (encodeTier tier).1 (encodeTier tier).2 = .ok (stored tier) := by
  have hnumber : ∀ m : UInt32, UInt32.ofNat m.toNat = m :=
    fun m => UInt32.ofNat_toNat
  cases tier with
  | l1 p =>
    have hlt := h.2 p rfl
    cases p with
    | lawful | plan | worldModel | ebm | synthesize =>
      exact absurd hlt (by decide)
    | _ => rfl
  | l2 m => exact congrArg (fun m => Except.ok (TierId.l2 m)) (hnumber m)
  | l3 m => exact congrArg (fun m => Except.ok (TierId.l3 m)) (hnumber m)
  | l4 m => exact congrArg (fun m => Except.ok (TierId.l4 m)) (hnumber m)
  | l5Routing | l6Agent | l7Reflection | l8Tuner | l9Supervisor
  | l10Governor => cases h.1
  | _ => rfl

/-- A family or a primitive that the decoder does not know. -/
theorem decodeTier_of_not_storable (h : ¬ Storable tier) :
    ∃ s, decodeTier (encodeTier tier).1 (encodeTier tier).2 = corrupt s := by
  cases tier with
  | l1 p =>
    have hbig : ¬ p.toNat < 8 := fun hlt =>
      h ⟨rfl, fun p' hp' => TierId.l1.inj hp' ▸ hlt⟩
    cases p with
    | lawful | plan | worldModel | ebm | synthesize => exact ⟨_, rfl⟩
    | _ => exact absurd (by decide) hbig
  | l5Routing | l6Agent | l7Reflection | l8Tuner | l9Supervisor
  | l10Governor => exact ⟨_, rfl⟩
  | _ => exact absurd ⟨rfl, fun p hp => by cases hp⟩ h

theorem reads_tier (h : Storable tier) :
    Reads bytes (readTier bytes) (tierBytes tier) (stored tier) := by
  obtain ⟨hfamily, hdata⟩ := encodeTier_lt tier
  refine .bind (reads_u8 hfamily) (.done (reads_u32 hdata) fun cursor => ?_)
  dsimp only
  rw [decodeTier_of_storable h, ok_bind]

theorem fails_tier (h : ¬ Storable tier) :
    ∃ s, Fails bytes (readTier bytes) (tierBytes tier) (.err (.corrupt s)) := by
  obtain ⟨s, hs⟩ := decodeTier_of_not_storable h
  obtain ⟨hfamily, hdata⟩ := encodeTier_lt tier
  refine ⟨s, (reads_u8 hfamily).bind_fails ?_⟩
  intro cursor rest hat
  obtain ⟨cursor', hread, -⟩ := reads_u32 hdata cursor rest hat
  dsimp only
  rw [hread, ok_bind]
  dsimp only
  rw [hs]
  rfl

-- ==== records

theorem reads_embedding {embedding : List UInt32} (h : embedding.length < 2 ^ 32) :
    Reads bytes (readEmbedding bytes) (encodeEmbedding embedding)
      embedding := by
  have hnumbers : Reads bytes (readMany (readU32 bytes) embedding.length)
      (embedding.flatMap fun v => beBytes 4 v.toNat)
      (embedding.map UInt32.toNat) := by
    have hmany : Reads bytes
        (readMany (readU32 bytes) (embedding.map UInt32.toNat).length)
        ((embedding.map UInt32.toNat).flatMap (beBytes 4))
        (embedding.map UInt32.toNat) := by
      refine reads_many fun n hn => ?_
      obtain ⟨v, -, rfl⟩ := List.mem_map.1 hn
      exact reads_u32 v.toNat_lt
    rw [List.length_map, List.flatMap_map] at hmany
    exact hmany
  refine .bind (reads_u32 h) (.done hnumbers fun cursor => ?_)
  dsimp only
  have hsame : UInt32.ofNat ∘ UInt32.toNat = id :=
    funext fun v => UInt32.ofNat_toNat
  rw [List.map_map, hsame, List.map_id]

def reread (digest : List (List UInt8) → EntryKey) (e : Entry) : Entry :=
  { e with
    key := digest (keyChunks e.queryInput e.queryContext)
    answer := { e.answer with
      originatingTier := stored e.answer.originatingTier } }

/-- The parts of an entry fit their length fields. -/
structure EntryFits (e : Entry) : Prop where
  input : InputFits e.queryInput
  output : OutputFits e.answer.output
  embedding : e.embedding.length < 2 ^ 32

variable (digest : List (List UInt8) → EntryKey)

theorem reads_record (hfits : EntryFits e) (h : Storable e.answer.originatingTier) :
    Reads bytes (readRecord digest bytes) (encodeRecord e) (reread digest e) := by
  obtain ⟨key, input, context, answer, timestamp, embedding⟩ := e
  refine .bind (reads_input hfits.input) ?_
  refine .bind (reads_context _) ?_
  refine .bind (reads_output hfits.output) ?_
  refine .bind (reads_tier h) ?_
  refine .bind (reads_u64 (UInt64.toNat_lt _)) ?_
  refine .bind (reads_u32 (UInt32.toNat_lt _)) ?_
  refine .bind (reads_u64 (UInt64.toNat_lt _)) ?_
  refine .done (reads_embedding hfits.embedding) fun cursor => ?_
  dsimp only
  rw [UInt64.ofNat_toNat, UInt32.ofNat_toNat, UInt64.ofNat_toNat]
  rfl

theorem fails_record (hfits : EntryFits e) (h : ¬ Storable e.answer.originatingTier) :
    ∃ s, Fails bytes (readRecord digest bytes)
      (encodeInput e.queryInput ++ (encodeContext e.queryContext
        ++ (encodeOutput e.answer.output
          ++ tierBytes e.answer.originatingTier))) (.err (.corrupt s)) := by
  obtain ⟨s, hs⟩ : ∃ s, Fails bytes (readTier bytes)
      (tierBytes e.answer.originatingTier) (.err (.corrupt s)) := fails_tier h
  exact ⟨s, (reads_input hfits.input).bind_fails
    ((reads_context _).bind_fails ((reads_output hfits.output).bind_fails hs.bind))⟩

theorem length_encodeRecord_lt (hfits : EntryFits e) : (encodeRecord e).length < 2 ^ 63 := by
  have hinput : (encodeInput e.queryInput).length < 2 ^ 33 := by
    have := hfits.input
    unfold InputFits at this
    unfold encodeInput prefixed
    simp only [List.length_append, length_beBytes]
    omega
  have houtput : (encodeOutput e.answer.output).length < 2 ^ 33 := by
    have hfit := hfits.output
    cases houtput : e.answer.output with
    | text s =>
      rw [houtput] at hfit
      change (Text.utf8 s).length < 2 ^ 32 at hfit
      unfold encodeOutput prefixed
      simp only [List.length_append, length_beBytes]
      omega
    | structured b =>
      rw [houtput] at hfit
      change b.length < 2 ^ 32 at hfit
      unfold encodeOutput prefixed
      simp only [List.length_append, length_beBytes]
      omega
    | refused reason =>
      rw [houtput] at hfit
      cases reason with
      | tierSpecific s =>
        change (Text.utf8 s).length < 2 ^ 32 at hfit
        unfold encodeOutput encodeRefusal prefixed
        simp only [List.length_append, length_beBytes]
        omega
      | lowConfidence c =>
        unfold encodeOutput encodeRefusal
        simp only [List.length_append, length_beBytes]
        omega
      | inapplicable =>
        unfold encodeOutput encodeRefusal
        simp only [List.length_append, length_beBytes]
        omega
  have hembedding : (encodeEmbedding e.embedding).length < 2 ^ 35 := by
    have hfit := hfits.embedding
    have hsum : ∀ l : List UInt32,
        (l.flatMap fun v => beBytes 4 v.toNat).length = 4 * l.length := by
      intro l
      induction l with
      | nil => rfl
      | cons v l ih =>
        rw [List.flatMap_cons, List.length_append, length_beBytes, ih, List.length_cons]
        ring
    unfold encodeEmbedding
    rw [List.length_append, length_beBytes, hsum]
    omega
  unfold encodeRecord encodeContext tierBytes
  simp only [List.length_append, length_beBytes, List.Vector.toList_length]
  omega

theorem decodeRecord_encodeRecord (hfits : EntryFits e) :
    (Storable e.answer.originatingTier ∧
        decodeRecord digest (encodeRecord e) = .ok (reread digest e))
      ∨ ¬ Storable e.answer.originatingTier ∧
        ∃ s, decodeRecord digest (encodeRecord e) = corrupt s := by
  have hlen := length_encodeRecord_lt hfits
  unfold decodeRecord
  by_cases h : Storable e.answer.originatingTier
  · obtain ⟨cursor, hread⟩ := (reads_record digest hfits h).whole (by omega)
    rw [hread]
    exact .inl ⟨h, rfl⟩
  · obtain ⟨s, hs⟩ : ∃ s, Fails (encodeRecord e)
        (readRecord digest (encodeRecord e))
        (encodeInput e.queryInput ++ (encodeContext e.queryContext
          ++ (encodeOutput e.answer.output
            ++ tierBytes e.answer.originatingTier))) (.err (.corrupt s)) :=
      fails_record digest hfits h
    have hsplit : encodeRecord e
        = (encodeInput e.queryInput ++ (encodeContext e.queryContext
            ++ (encodeOutput e.answer.output ++ tierBytes e.answer.originatingTier)))
          ++ (beBytes 8 e.answer.joulesSpent.toNat
            ++ (beBytes 4 e.answer.confidence.toNat
            ++ (beBytes 8 e.timestampSecs.toNat
            ++ encodeEmbedding e.embedding))) := by
      unfold encodeRecord
      simp only [List.append_assoc]
    rw [hs.start hsplit (by omega)]
    exact .inr ⟨h, s, rfl⟩

-- ==== the log

open DiskHistory (frame readRecords openWith created)

/-- The bytes of some entries, one behind the other. -/
def logged (es : List Entry) : List UInt8 := es.flatMap frame

/-- An index with some entries added as they are read back. -/
def restored (index : EntryMap UInt64 UInt32) (es : List Entry) : EntryMap UInt64 UInt32 :=
  es.foldl (fun m e => m.insertEntry (reread digest e)) index

theorem length_frame (e : Entry) : (frame e).length = 8 + (encodeRecord e).length := by
  unfold DiskHistory.frame
  rw [List.length_append, length_beBytes]

theorem length_logged (es : List Entry) : es.length ≤ (logged es).length := by
  unfold logged
  induction es with
  | nil => exact le_refl _
  | cons e es ih =>
    rw [List.flatMap_cons, List.length_append, length_frame, List.length_cons]
    omega

variable {digest} {rest : List UInt8} {index : EntryMap UInt64 UInt32}

/-- Bytes too few for a length end the log. -/
theorem readRecords_short (h : rest.length < 8) :
    readRecords digest fuel rest index = .ok index := by
  cases fuel with
  | zero => rfl
  | succ fuel =>
    unfold DiskHistory.readRecords
    rw [if_pos h]

theorem readRecords_torn {part : List UInt8} (hlt : n < 2 ^ 63) (hpart : part.length < n) :
    readRecords digest (fuel + 1) (beBytes 8 n ++ part) index
      = .error (.err .unexpectedEof) := by
  have htake : (beBytes 8 n ++ part).take 8 = beBytes 8 n :=
    List.take_left' (length_beBytes 8 n)
  have hdrop : (beBytes 8 n ++ part).drop 8 = part :=
    List.drop_left' (length_beBytes 8 n)
  unfold DiskHistory.readRecords
  rw [htake, hdrop, ofBeBytes_beBytes_of_lt (by omega), List.length_append,
    length_beBytes, if_neg (by omega), if_neg (by omega), if_pos hpart]

theorem readRecords_body {body : List UInt8} (hlt : n < 2 ^ 63) (hbody : body.length = n) :
    readRecords digest (fuel + 1) (beBytes 8 n ++ (body ++ rest)) index
      = decodeRecord digest body >>= fun entry =>
          readRecords digest fuel rest (index.insertEntry entry) := by
  have htake : (beBytes 8 n ++ (body ++ rest)).take 8 = beBytes 8 n :=
    List.take_left' (length_beBytes 8 n)
  have hdrop : (beBytes 8 n ++ (body ++ rest)).drop 8 = body ++ rest :=
    List.drop_left' (length_beBytes 8 n)
  rw [DiskHistory.readRecords, htake, hdrop,
    ofBeBytes_beBytes_of_lt (by omega), List.length_append, length_beBytes,
    if_neg (by omega), if_neg (by omega), List.length_append,
    if_neg (by omega), List.take_left' hbody, List.drop_left' hbody]

theorem frame_append (e : Entry) (rest : List UInt8) :
    frame e ++ rest = beBytes 8 (encodeRecord e).length ++ (encodeRecord e ++ rest) :=
  List.append_assoc ..

theorem readRecords_cons (he : EntryFits e) (es : List Entry) (fuel : Nat) :
    readRecords digest ((e :: es).length + fuel) (logged (e :: es) ++ rest) index
      = decodeRecord digest (encodeRecord e) >>= fun entry =>
          readRecords digest (es.length + fuel) (logged es ++ rest)
            (index.insertEntry entry) := by
  have hfuel : (e :: es).length + fuel = es.length + fuel + 1 := by
    rw [List.length_cons]
    omega
  unfold logged
  rw [hfuel, List.flatMap_cons, List.append_assoc, frame_append,
    readRecords_body (length_encodeRecord_lt he) rfl]

theorem readRecords_logged (hfits : ∀ e ∈ es, EntryFits e)
    (h : ∀ e ∈ es, Storable e.answer.originatingTier) (fuel : Nat) :
    readRecords digest (es.length + fuel) (logged es ++ rest) index
      = readRecords digest fuel rest (restored digest index es) := by
  induction es generalizing index with
  | nil =>
    rw [List.length_nil, Nat.zero_add]
    rfl
  | cons e es ih =>
    rw [readRecords_cons (hfits e List.mem_cons_self)]
    rcases decodeRecord_encodeRecord digest (hfits e List.mem_cons_self) with ⟨-, hok⟩ | ⟨hno, -⟩
    · rw [hok, ok_bind]
      exact ih (fun e he => hfits e (List.mem_cons_of_mem _ he))
        fun e he => h e (List.mem_cons_of_mem _ he)
    · exact absurd (h e List.mem_cons_self) hno

/-- One tier that cannot be read back makes the log unreadable. -/
theorem readRecords_unstorable (hfits : ∀ e ∈ es, EntryFits e)
    (h : ∃ e ∈ es, ¬ Storable e.answer.originatingTier) (fuel : Nat) :
    ∃ s, readRecords digest (es.length + fuel) (logged es ++ rest) index = corrupt s := by
  induction es generalizing index with
  | nil =>
    obtain ⟨e, he, -⟩ := h
    cases he
  | cons e es ih =>
    rw [readRecords_cons (hfits e List.mem_cons_self)]
    rcases decodeRecord_encodeRecord digest (hfits e List.mem_cons_self) with ⟨hyes, hok⟩ | ⟨-, s, hs⟩
    · rw [hok, ok_bind]
      refine ih (fun e he => hfits e (List.mem_cons_of_mem _ he)) ?_
      obtain ⟨other, hmem, hother⟩ := h
      rcases List.mem_cons.1 hmem with rfl | hmem
      · exact absurd hyes hother
      · exact ⟨other, hmem, hother⟩
    · rw [hs]
      exact ⟨s, rfl⟩

theorem openWith_header (rest : List UInt8) :
    openWith digest (header ++ rest)
      = readRecords digest (16 + rest.length) rest .empty >>= fun index =>
          .ok { file := header ++ rest, index := index } := by
  have hlen : (header ++ rest).length = 16 + rest.length :=
    List.length_append
  have hmagic : (header ++ rest).take 8 = magic := by
    unfold header
    rw [List.append_assoc]
    exact List.take_left' (by decide)
  have hversion : ((header ++ rest).drop 8).take 4 = beBytes 4 version := by
    unfold header
    rw [List.append_assoc, List.drop_left' (by decide), List.append_assoc]
    exact List.take_left' (length_beBytes ..)
  have hrest : (header ++ rest).drop 16 = rest :=
    List.drop_left' (by decide)
  unfold DiskHistory.openWith
  rw [hmagic, hversion, hrest, hlen, if_neg (by omega), if_neg (by omega),
    if_neg (not_not.2 rfl), ofBeBytes_beBytes_of_lt (by decide)]
  exact if_neg (not_not.2 rfl)

/-- What is left to read behind entries that can be read back. -/
theorem openWith_logged (hfits : ∀ e ∈ es, EntryFits e)
    (h : ∀ e ∈ es, Storable e.answer.originatingTier) (rest : List UInt8) :
    ∃ fuel, openWith digest (header ++ (logged es ++ rest))
      = readRecords digest (fuel + 1) rest (restored digest .empty es)
          >>= fun index =>
            .ok { file := header ++ (logged es ++ rest), index := index } := by
  have hlen := length_logged es
  refine ⟨15 + (logged es ++ rest).length - es.length, ?_⟩
  rw [openWith_header, ← readRecords_logged hfits h]
  rw [List.length_append]
  congr 2
  omega

theorem openWith_unstorable (hfits : ∀ e ∈ es, EntryFits e)
    (h : ∃ e ∈ es, ¬ Storable e.answer.originatingTier) (rest : List UInt8) :
    ∃ s, openWith digest (header ++ (logged es ++ rest)) = corrupt s := by
  have hlen := length_logged es
  have hfuel : 16 + (logged es ++ rest).length
      = es.length + (16 + (logged es ++ rest).length - es.length) := by
    rw [List.length_append]
    omega
  obtain ⟨s, hs⟩ : ∃ s, readRecords digest
      (es.length + (16 + (logged es ++ rest).length - es.length))
      (logged es ++ rest) .empty = corrupt s :=
    readRecords_unstorable hfits h _
  refine ⟨s, ?_⟩
  rw [openWith_header, hfuel, hs]
  rfl

-- ==== what was recorded

theorem recordAll_eq (d : DiskHistory) (rs : List Recording) :
    recordAll digest d rs
      = { file := d.file ++ logged (rs.map (Recording.entry digest))
          index := (rs.map (Recording.entry digest)).foldl EntryMap.insertEntry d.index } := by
  unfold recordAll
  induction rs generalizing d with
  | nil =>
    unfold logged
    rw [List.map_nil, List.flatMap_nil, List.append_nil]
    rfl
  | cons r rs ih =>
    unfold logged at ih ⊢
    rw [List.foldl_cons, ih, List.map_cons, List.flatMap_cons,
      List.foldl_cons, ← List.append_assoc]
    rfl

theorem file_recordAll (d : DiskHistory) (rs : List Recording) :
    (recordAll digest d rs).file = d.file ++ logged (rs.map (Recording.entry digest)) :=
  congrArg DiskHistory.file (recordAll_eq d rs)

theorem index_recordAll (d : DiskHistory) (rs : List Recording) :
    (recordAll digest d rs).index
      = (rs.map (Recording.entry digest)).foldl EntryMap.insertEntry d.index :=
  congrArg DiskHistory.index (recordAll_eq d rs)

/-- The payloads of a recording fit their length fields. -/
structure Recording.Fits (r : Recording) : Prop where
  input : InputFits r.q.input
  output : OutputFits r.a.output

theorem Recording.Fits.entry {r : Recording} (h : r.Fits) : EntryFits (r.entry digest) :=
  { input := h.input, output := h.output
    embedding := (by decide : 0 < 2 ^ 32) }

def kept (a : HistoryAnswer UInt64 UInt32) : AnswerOutput × (Nat × Nat) × UInt64 × UInt32 :=
  (a.output, encodeTier a.originatingTier, a.joulesSpent, a.confidence)

theorem encodeTier_stored (tier : TierId) : encodeTier (stored tier) = encodeTier tier := by
  cases tier <;> rfl

/-- Two indices with the same answers, as far as the format keeps them. -/
def Alike (index index' : EntryMap UInt64 UInt32) : Prop :=
  ∀ key, (index.lookupExact key).map kept = (index'.lookupExact key).map kept

theorem Alike.insertEntry {index index' : EntryMap UInt64 UInt32}
    (h : Alike index index') {e' : Entry} (hkey : e.key = e'.key)
    (hkept : kept e.answer = kept e'.answer) :
    Alike (index.insertEntry e) (index'.insertEntry e') := by
  intro key
  rw [EntryMap.lookupExact_insertEntry, EntryMap.lookupExact_insertEntry, hkey]
  by_cases hk : key = e'.key
  · rw [if_pos hk, if_pos hk, Option.map_some, Option.map_some, hkept]
  · rw [if_neg hk, if_neg hk]
    exact h key

/-- Reading entries back adds what recording them added. -/
theorem Alike.restored {index index' : EntryMap UInt64 UInt32}
    (h : Alike index index') (rs : List Recording) :
    Alike (restored digest index (rs.map (Recording.entry digest)))
      ((rs.map (Recording.entry digest)).foldl EntryMap.insertEntry index') := by
  unfold JouleclawHistory.restored
  induction rs generalizing index index' with
  | nil => exact h
  | cons r rs ih =>
    rw [List.map_cons, List.foldl_cons, List.foldl_cons]
    refine ih (h.insertEntry rfl ?_)
    unfold kept reread
    dsimp only
    rw [encodeTier_stored]

/-- The store answers as one that made some recordings. -/
def Holds (digest : List (List UInt8) → EntryKey) (d : DiskHistory)
    (rs : List Recording) : Prop :=
  Alike d.index (recordAll digest created rs).index

def Reopens (digest : List (List UInt8) → EntryKey) (rs : List Recording) : Prop :=
  ∃ d, openWith digest (recordAll digest created rs).file = .ok d ∧ Holds digest d rs

/-- The tiers of some recordings can be read back. -/
def AllStorable (rs : List Recording) : Prop :=
  ∀ r ∈ rs, Storable r.a.tierUsed

theorem forall_entry {P : Entry → Prop} :
    (∀ e ∈ rs.map (Recording.entry digest), P e) ↔ ∀ r ∈ rs, P (r.entry digest) :=
  List.forall_mem_map

variable (digest) in
theorem openWith_recorded (hfits : ∀ r ∈ rs, r.Fits) (h : AllStorable rs) (rest : List UInt8) :
    ∃ fuel index, Alike index (recordAll digest created rs).index
      ∧ openWith digest ((recordAll digest created rs).file ++ rest)
        = readRecords digest (fuel + 1) rest index >>= fun index =>
            .ok { file := (recordAll digest created rs).file ++ rest
                  index := index } := by
  have hentries : ∀ e ∈ rs.map (Recording.entry digest), EntryFits e :=
    forall_entry.2 fun r hr => (hfits r hr).entry
  obtain ⟨fuel, hopen⟩ : ∃ fuel, openWith digest (header
      ++ (logged (rs.map (Recording.entry digest)) ++ rest)) = _ :=
    openWith_logged hentries (forall_entry.2 h) rest
  refine ⟨fuel, restored digest .empty (rs.map (Recording.entry digest)),
    ?_, ?_⟩
  · rw [index_recordAll]
    exact Alike.restored (fun key => rfl) rs
  · rw [file_recordAll, List.append_assoc]
    exact hopen

theorem not_openWith_recorded (hfits : ∀ r ∈ rs, r.Fits)
    (h : ¬ AllStorable rs) (rest : List UInt8) (d : DiskHistory) :
    openWith digest ((recordAll digest created rs).file ++ rest)
      ≠ .ok d := by
  have hbad : ∃ e ∈ rs.map (Recording.entry digest), ¬ Storable e.answer.originatingTier := by
    unfold AllStorable at h
    push Not at h
    obtain ⟨r, hr, hno⟩ := h
    exact ⟨r.entry digest, List.mem_map_of_mem hr, hno⟩
  obtain ⟨s, hs⟩ := openWith_unstorable
    (forall_entry.2 fun r hr => (hfits r hr).entry) hbad rest
  rw [file_recordAll, List.append_assoc]
  intro hok
  cases hs.symm.trans hok

variable (digest) in
/-- Recordings that can be read back open to what was recorded. -/
theorem reopens_of_storable (hfits : ∀ r ∈ rs, r.Fits) (h : AllStorable rs) :
    Reopens digest rs := by
  obtain ⟨fuel, index, halike, hopen⟩ :
      ∃ fuel index, Alike index (recordAll digest created rs).index
        ∧ openWith digest ((recordAll digest created rs).file ++ []) = _ :=
    openWith_recorded digest hfits h []
  rw [List.append_nil, readRecords_short (by decide)] at hopen
  exact ⟨_, hopen, halike⟩

/-- The history reopens to what was recorded, under the keys it was
recorded under, exactly when every recorded tier is one the decoder
knows. -/
theorem reopens_iff (digest : List (List UInt8) → EntryKey)
    {rs : List Recording} (hfits : ∀ r ∈ rs, r.Fits) :
    (Reopens digest rs ∧ ∀ r ∈ rs, ∃ e,
        decodeRecord digest (encodeRecord (r.entry digest)) = .ok e ∧ e.key = keyFor digest r.q)
      ↔ ∀ r ∈ rs, Storable r.a.tierUsed := by
  constructor
  · intro h r hr
    obtain ⟨e, hread, -⟩ := h.2 r hr
    rcases decodeRecord_encodeRecord digest (hfits r hr).entry with
      ⟨hyes, -⟩ | ⟨-, s, hs⟩
    · exact hyes
    · cases hs.symm.trans hread
  · intro h
    refine ⟨reopens_of_storable digest hfits h, fun r hr => ?_⟩
    rcases decodeRecord_encodeRecord digest (hfits r hr).entry with
      ⟨-, hok⟩ | ⟨hno, -⟩
    · exact ⟨_, hok, rfl⟩
    · exact absurd (h r hr) hno

def noted (s t : String) (tier : TierId) : Recording :=
  { q :=
      { input := .text s.toList
        budget := { hardLimit := 0, softTarget := 0 }
        quality := { minConfidence := 0, acceptPartial := true }
        context :=
          { sessionId := .replicate 16 0
            historyFingerprint := .replicate 32 0 }
        deadline := none }
    a :=
      { output := .text t.toList, tierUsed := tier, joulesSpent := 0,
        confidence := 0, trace := [], verification := .resolved }
    now := 0 }

theorem noted_fits (tier : TierId) : ∀ r ∈ [noted "a" "x" tier], r.Fits := by
  intro r hr
  rw [List.mem_singleton.1 hr]
  exact ⟨(by decide : 1 < 2 ^ 32), (by decide : 1 < 2 ^ 32)⟩

theorem graphRag_reopens : Reopens firstBytes [noted "a" "x" .l1_25GraphRag] := by
  refine ((reopens_iff firstBytes (noted_fits _)).2 fun r hr => ?_).1
  rw [List.mem_singleton.1 hr]
  exact ⟨rfl, fun p hp => by cases hp⟩

/-- One answer of a solver, and the file is never opened again. -/
theorem lawful_unreadable :
    openWith firstBytes
        (recordAll firstBytes created [noted "a" "x" (.l1 .lawful)]).file
      = corrupt "bad L1 primitive 8"
      ∧ ¬ Reopens firstBytes [noted "a" "x" (.l1 .lawful)] := by
  have hbad : openWith firstBytes
      (recordAll firstBytes created [noted "a" "x" (.l1 .lawful)]).file
        = corrupt "bad L1 primitive 8" := by
    rfl
  refine ⟨hbad, ?_⟩
  intro h
  obtain ⟨d, hok, -⟩ := h
  cases hbad.symm.trans hok

-- ==== crashes

/-- The recordings whose bytes lie wholly in the first `n` behind the
header. -/
def survivors (digest : List (List UInt8) → EntryKey) : Nat → List Recording → List Recording
  | _, [] => []
  | n, r :: rs =>
    if (frame (r.entry digest)).length ≤ n then
      r :: survivors digest (n - (frame (r.entry digest)).length) rs
    else []

/-- What is left of a file cut at an offset opens to the recordings wholly
before the cut, and whatever is recorded from then on, in tiers that can be
read back, is there when it is opened again. -/
def CrashSafe (digest : List (List UInt8) → EntryKey) (rs : List Recording) (cut : Nat) : Prop :=
  ∃ d, openWith digest ((recordAll digest created rs).file.take cut) = .ok d
    ∧ Holds digest d (survivors digest (cut - 16) rs)
    ∧ ∀ more : List Recording, (∀ r ∈ more, r.Fits) → AllStorable more →
        ∃ d', openWith digest (recordAll digest d more).file = .ok d'
          ∧ Holds digest d' (survivors digest (cut - 16) rs ++ more)

/-- A cut leaves whole recordings, and perhaps the first bytes of one. -/
theorem take_logged (rs : List Recording) (n : Nat)
    (h : n ≤ (logged (rs.map (Recording.entry digest))).length) :
    ∃ torn, (logged (rs.map (Recording.entry digest))).take n
        = logged ((survivors digest n rs).map (Recording.entry digest)) ++ torn
      ∧ (torn = [] ∨ torn ≠ []
        ∧ ∃ r ∈ rs, ∃ lost ≠ [], frame (r.entry digest) = torn ++ lost) := by
  unfold logged at h ⊢
  induction rs generalizing n with
  | nil => exact ⟨[], List.take_nil, .inl rfl⟩
  | cons r rs ih =>
    rw [List.map_cons, List.flatMap_cons] at h ⊢
    unfold survivors
    by_cases hn : (frame (r.entry digest)).length ≤ n
    · rw [List.length_append] at h
      obtain ⟨torn, htake, htorn⟩ :=
        ih (n - (frame (r.entry digest)).length) (by omega)
      refine ⟨torn, ?_, ?_⟩
      · rw [if_pos hn, List.map_cons, List.flatMap_cons, List.take_append,
          List.take_of_length_le hn, htake, List.append_assoc]
      · refine htorn.imp id fun ⟨hne, r', hr', hlost⟩ => ?_
        exact ⟨hne, r', List.mem_cons_of_mem _ hr', hlost⟩
    · rw [if_neg hn, List.take_append_of_le_length (by omega)]
      refine ⟨(frame (r.entry digest)).take n, rfl, ?_⟩
      by_cases hzero : n = 0
      · rw [hzero]
        exact .inl rfl
      · have hsplit := List.take_append_drop n (frame (r.entry digest))
        refine .inr ⟨?_, r, List.mem_cons_self .., _, ?_, hsplit.symm⟩
        · intro hnil
          have := congrArg List.length hnil
          rw [List.length_take, List.length_nil] at this
          omega
        · intro hnil
          have := congrArg List.length hnil
          rw [List.length_drop, List.length_nil] at this
          omega

theorem survivors_sublist (rs : List Recording) (n : Nat) :
    (survivors digest n rs).Sublist rs := by
  induction rs generalizing n with
  | nil => exact .slnil
  | cons r rs ih =>
    unfold survivors
    split
    · exact (ih _).cons_cons r
    · exact List.nil_sublist _

variable (digest) in
theorem take_recorded {cut : Nat} (hcut : 16 ≤ cut)
    (hlen : cut ≤ (recordAll digest created rs).file.length) :
    ∃ torn, (recordAll digest created rs).file.take cut
        = (recordAll digest created (survivors digest (cut - 16) rs)).file ++ torn
      ∧ (recordAll digest created
          (survivors digest (cut - 16) rs)).file.length + torn.length = cut
      ∧ (torn = [] ∨ torn ≠ []
        ∧ ∃ r ∈ rs, ∃ lost ≠ [], frame (r.entry digest) = torn ++ lost) := by
  have hheader : created.file.length = 16 := by decide
  rw [file_recordAll, List.length_append, hheader] at hlen
  obtain ⟨torn, htake, htorn⟩ : ∃ torn,
      (logged (rs.map (Recording.entry digest))).take (cut - 16)
        = logged ((survivors digest (cut - 16) rs).map (Recording.entry digest)) ++ torn
      ∧ _ := take_logged rs (cut - 16) (by omega)
  have hfile : (recordAll digest created rs).file.take cut
      = (recordAll digest created (survivors digest (cut - 16) rs)).file ++ torn := by
    rw [file_recordAll, file_recordAll, List.take_append, hheader, htake,
      List.take_of_length_le (by omega), List.append_assoc]
  refine ⟨torn, hfile, ?_, htorn⟩
  rw [← List.length_append, ← hfile, List.length_take, file_recordAll,
    List.length_append, hheader]
  omega

theorem readRecords_cut_body (hfits : EntryFits e)
    (hsplit : frame e = torn ++ lost) (hlost : lost ≠ [])
    (hlen : 8 ≤ torn.length) :
    readRecords digest (fuel + 1) torn index = .error (.err .unexpectedEof) := by
  obtain ⟨part, rfl⟩ : ∃ part, torn = beBytes 8 (encodeRecord e).length ++ part := by
    refine ⟨torn.drop 8, ?_⟩
    have htake : torn.take 8 = beBytes 8 (encodeRecord e).length := by
      have hpre : (torn ++ lost).take 8 = torn.take 8 :=
        List.take_append_of_le_length hlen
      rw [← hpre, ← hsplit]
      exact List.take_left' (length_beBytes ..)
    rw [← htake, List.take_append_drop]
  have hbody : encodeRecord e = part ++ lost := by
    rw [List.append_assoc] at hsplit
    exact List.append_cancel_left hsplit
  refine readRecords_torn (length_encodeRecord_lt hfits) ?_
  have hpos := List.length_pos_of_ne_nil hlost
  rw [hbody, List.length_append]
  omega

def shortest : Recording := noted "" "" .l0

theorem shortest_fits : shortest.Fits :=
  ⟨(by decide : 0 < 2 ^ 32), (by decide : 0 < 2 ^ 32)⟩

theorem shortest_storable : Storable shortest.a.tierUsed :=
  ⟨rfl, fun p hp => by cases hp⟩

theorem frame_shortest (digest : List (List UInt8) → EntryKey) :
    ∃ body : List UInt8, body.length = 87
      ∧ frame (shortest.entry digest) = beBytes 8 87 ++ body :=
  ⟨encodeRecord (shortest.entry digest), rfl, rfl⟩

/-- A length of which some bytes are lost swallows the length of the record
behind it: it stands for nothing, or for more than there is. -/
theorem readRecords_cut_length (hn : n < 2 ^ 63)
    (hsplit : beBytes 8 n = torn ++ lost) (htorn : torn ≠ [])
    (hlost : lost ≠ []) (index' : EntryMap UInt64 UInt32) :
    readRecords digest (fuel + 1) (torn ++ frame (shortest.entry digest))
      index ≠ .ok index' := by
  obtain ⟨body, hbody, hframe⟩ := frame_shortest digest
  have hlen : torn.length + lost.length = 8 := by
    rw [← List.length_append, ← hsplit, length_beBytes]
  have htornPos := List.length_pos_of_ne_nil htorn
  have hlostPos := List.length_pos_of_ne_nil hlost
  -- the bytes of the next length that complete this one are all zero
  obtain ⟨zeros, more, hnext, hzeros, hvalue⟩ : ∃ zeros more,
      beBytes 8 87 = zeros ++ more ∧ zeros.length = lost.length ∧ ofBeBytes zeros = 0 := by
    refine ⟨(beBytes 8 87).take lost.length, (beBytes 8 87).drop lost.length,
      (List.take_append_drop ..).symm, ?_, ?_⟩
    · rw [List.length_take, length_beBytes]
      omega
    · have hsmall : lost.length ≤ 7 := by omega
      have hall : ∀ k ≤ 7, ofBeBytes ((beBytes 8 87).take k) = 0 := by
        decide
      exact hall _ hsmall
  have hmore : more.length = torn.length := by
    have := congrArg List.length hnext
    rw [List.length_append, length_beBytes] at this
    omega
  have hwhole : (torn ++ zeros).length = 8 := by
    rw [List.length_append]
    omega
  have hfirst : beBytes 8 (ofBeBytes (torn ++ zeros)) = torn ++ zeros := by
    have := beBytes_ofBeBytes (torn ++ zeros)
    rwa [hwhole] at this
  have hread : ofBeBytes (torn ++ zeros) = 256 ^ lost.length * ofBeBytes torn := by
    rw [ofBeBytes_append, hvalue, hzeros, Nat.zero_add]
  have hbound : ofBeBytes (torn ++ zeros) < 2 ^ 63 := by
    have hsame := ofBeBytes_beBytes_of_lt (k := 8) (n := n) (by omega)
    rw [hsplit, ofBeBytes_append] at hsame
    omega
  have hbytes : torn ++ frame (shortest.entry digest)
      = beBytes 8 (ofBeBytes (torn ++ zeros)) ++ (more ++ body) := by
    rw [hfirst, hframe, hnext, List.append_assoc, List.append_assoc]
  rw [hbytes]
  rcases Nat.eq_zero_or_pos (ofBeBytes torn) with hzero | hpos
  · -- a record of no bytes
    have hnil : ofBeBytes (torn ++ zeros) = 0 := by
      rw [hread, hzero, Nat.mul_zero]
    have hstep : readRecords digest (fuel + 1)
        (beBytes 8 0 ++ ([] ++ (more ++ body))) index
          = decodeRecord digest [] >>= _ := readRecords_body (by decide) rfl
    have hempty : decodeRecord digest [] = .error (.err (shortRead 0 1 0)) := rfl
    rw [hnil]
    rw [List.nil_append, hempty] at hstep
    intro h
    cases hstep.symm.trans h
  · -- a record longer than the rest of the file
    have hpow : 256 ^ 1 ≤ 256 ^ lost.length :=
      Nat.pow_le_pow_right (by decide) hlostPos
    have hbig : 256 ≤ ofBeBytes (torn ++ zeros) := by
      rw [hread]
      exact hpow.trans (Nat.le_mul_of_pos_right _ hpos)
    rw [readRecords_torn hbound (by rw [List.length_append]; omega)]
    intro h
    cases h

/-- Appending to a store writes behind its file. -/
theorem openWith_file {file : List UInt8} {d : DiskHistory}
    (hok : (readRecords digest fuel rest index >>= fun index =>
        Except.ok (DiskHistory.mk file index)) = .ok d) :
    ∃ index', readRecords digest fuel rest index = .ok index'
      ∧ d = { file := file, index := index' } := by
  obtain ⟨index', hread, hd⟩ := bind_eq_ok.1 hok
  exact ⟨index', hread, (Except.ok.inj hd).symm⟩

/-- A torn tail is never harmless. -/
theorem not_crashSafe_of_torn {cut : Nat} {r : Recording} (hfits : r.Fits)
    (hsurvivors : ∀ r ∈ survivors digest (cut - 16) rs, r.Fits)
    (hstorable : AllStorable (survivors digest (cut - 16) rs))
    (hfile : (recordAll digest created rs).file.take cut
      = (recordAll digest created (survivors digest (cut - 16) rs)).file
        ++ torn) (htorn : torn ≠ []) (hlost : lost ≠ [])
    (hsplit : frame (r.entry digest) = torn ++ lost) :
    ¬ CrashSafe digest rs cut := by
  rintro ⟨d, hopen, -, hmore⟩
  rw [hfile] at hopen
  obtain ⟨fuel, index, -, hcut⟩ := openWith_recorded digest hsurvivors hstorable torn
  obtain ⟨index', hread, rfl⟩ := openWith_file (hcut.symm.trans hopen)
  by_cases hlen : 8 ≤ torn.length
  · rw [readRecords_cut_body hfits.entry hsplit hlost hlen] at hread
    cases hread
  · -- the file opens, and one more record spoils it
    have hentry : EntryFits (r.entry digest) := hfits.entry
    have hsize := length_encodeRecord_lt hentry
    obtain ⟨left, hleft, hprefix⟩ : ∃ left ≠ [],
        beBytes 8 (encodeRecord (r.entry digest)).length = torn ++ left := by
      have hbytes := length_beBytes 8 (encodeRecord (r.entry digest)).length
      refine ⟨(beBytes 8 (encodeRecord (r.entry digest)).length).drop torn.length, ?_, ?_⟩
      · intro hnil
        have := congrArg List.length hnil
        rw [List.length_drop, List.length_nil, hbytes] at this
        omega
      · have htake : (frame (r.entry digest)).take torn.length = torn := by
          rw [hsplit]
          exact List.take_left
        have hfront : (frame (r.entry digest)).take torn.length
            = (beBytes 8 (encodeRecord (r.entry digest)).length).take torn.length :=
          List.take_append_of_le_length (by omega)
        have hwhole := List.take_append_drop torn.length
          (beBytes 8 (encodeRecord (r.entry digest)).length)
        rw [← hfront, htake] at hwhole
        exact hwhole.symm
    obtain ⟨d', hopen', -⟩ := hmore [shortest]
      (fun r hr => List.mem_singleton.1 hr ▸ shortest_fits)
      (fun r hr => List.mem_singleton.1 hr ▸ shortest_storable)
    have hbytes : (recordAll digest
        { file := (recordAll digest created
            (survivors digest (cut - 16) rs)).file ++ torn
          index := index' } [shortest]).file
        = (recordAll digest created (survivors digest (cut - 16) rs)).file
          ++ (torn ++ frame (shortest.entry digest)) := by
      rw [file_recordAll, List.append_assoc]
      unfold logged
      rw [List.map_singleton, List.flatMap_singleton]
    rw [hbytes] at hopen'
    obtain ⟨fuel', index₂, -, hagain⟩ := openWith_recorded
      digest hsurvivors hstorable
      (torn ++ frame (shortest.entry digest))
    obtain ⟨index₃, hread', -⟩ := openWith_file (hagain.symm.trans hopen')
    exact readRecords_cut_length hsize hprefix htorn hleft index₃ hread'

/-- A crash is survived exactly when it left whole recordings only, and all
of them can be read back. -/
theorem crash_safe_iff (digest : List (List UInt8) → EntryKey)
    {rs : List Recording} {cut : Nat} (hfits : ∀ r ∈ rs, r.Fits) (hcut : 16 ≤ cut)
    (hlen : cut ≤ (recordAll digest created rs).file.length) :
    CrashSafe digest rs cut
      ↔ (recordAll digest created (survivors digest (cut - 16) rs)).file.length = cut
        ∧ ∀ r ∈ survivors digest (cut - 16) rs, Storable r.a.tierUsed := by
  obtain ⟨torn, hfile, hsize, htorn⟩ :=
    take_recorded digest hcut hlen
  have hsurvivors : ∀ r ∈ survivors digest (cut - 16) rs, r.Fits :=
    fun r hr => hfits r ((survivors_sublist rs _).subset hr)
  constructor
  · intro h
    have hstorable : AllStorable (survivors digest (cut - 16) rs) := by
      by_contra hno
      obtain ⟨d, hopen, -⟩ := h
      rw [hfile] at hopen
      exact not_openWith_recorded hsurvivors hno torn d hopen
    refine ⟨?_, hstorable⟩
    rcases htorn with hnil | ⟨hne, r, hr, lost, hlost, hsplit⟩
    · rw [hnil] at hsize
      exact hsize
    · exact absurd h (not_crashSafe_of_torn (hfits r hr) hsurvivors
        hstorable hfile hne hlost hsplit)
  · rintro ⟨hwhole, hstorable⟩
    obtain rfl : torn = [] := List.eq_nil_of_length_eq_zero (by omega)
    rw [List.append_nil] at hfile
    obtain ⟨d, hopen, hholds⟩ :=
      reopens_of_storable digest hsurvivors hstorable
    refine ⟨d, by rw [hfile]; exact hopen, hholds, fun more hmore hall => ?_⟩
    have hd : d.file = (recordAll digest created (survivors digest (cut - 16) rs)).file := by
      obtain ⟨fuel, index, -, hopen'⟩ := openWith_recorded digest hsurvivors hstorable []
      rw [List.append_nil] at hopen'
      obtain ⟨index', -, rfl⟩ := openWith_file (hopen'.symm.trans hopen)
      rfl
    have hboth : (recordAll digest d more).file
        = (recordAll digest created (survivors digest (cut - 16) rs ++ more)).file := by
      rw [file_recordAll, hd, file_recordAll, file_recordAll, List.append_assoc]
      unfold logged
      rw [← List.flatMap_append, ← List.map_append]
    rw [hboth]
    refine reopens_of_storable digest (fun r hr => ?_) fun r hr => ?_
    · exact (List.mem_append.1 hr).elim (hsurvivors r) (hmore r)
    · exact (List.mem_append.1 hr).elim (hstorable r) (hall r)

/-- Two recordings, and a cut between them. -/
theorem whole_record_survives :
    CrashSafe firstBytes [noted "a" "x" .l0, noted "b" "y" .l0] 113 := by
  have hfits : ∀ r ∈ [noted "a" "x" .l0, noted "b" "y" .l0], r.Fits := by
    intro r hr
    rcases List.mem_pair.1 hr with rfl | rfl
    all_goals exact ⟨(by decide : 1 < 2 ^ 32), (by decide : 1 < 2 ^ 32)⟩
  refine (crash_safe_iff firstBytes hfits (by decide) (by decide +kernel)).2
    ⟨by decide, fun r hr => ?_⟩
  have hmem := (survivors_sublist _ _).subset hr
  rcases List.mem_pair.1 hmem with rfl | rfl
  all_goals exact ⟨rfl, fun p hp => by cases hp⟩

/-- A crash within a record: the file is not opened again. A crash within
its length: the file is opened, and the next record spoils it. -/
theorem torn_tail_unsafe :
    ¬ CrashSafe firstBytes [noted "a" "x" .l0] 40
      ∧ ¬ CrashSafe firstBytes [noted "a" "x" .l0] 19 := by
  constructor
  · intro h
    obtain ⟨d, hopen, -⟩ := h
    have hbad : openWith firstBytes ((recordAll firstBytes created
        [noted "a" "x" .l0]).file.take 40) = .error (.err .unexpectedEof) := rfl
    cases hbad.symm.trans hopen
  · intro h
    obtain ⟨d, hopen, -, hmore⟩ := h
    have hempty : openWith firstBytes ((recordAll firstBytes created
        [noted "a" "x" .l0]).file.take 19)
          = .ok { file := header ++ [0, 0, 0], index := .empty } := rfl
    obtain rfl := Except.ok.inj (hopen.symm.trans hempty)
    obtain ⟨d', hopen', -⟩ := hmore [shortest]
      (fun r hr => List.mem_singleton.1 hr ▸ shortest_fits)
      (fun r hr => List.mem_singleton.1 hr ▸ shortest_storable)
    have hbad : openWith firstBytes (recordAll firstBytes
        { file := header ++ [0, 0, 0], index := .empty } [shortest]).file
          = corrupt "short read: pos 0, want 1, have 0" := rfl
    cases hbad.symm.trans hopen'

end OpenStandards.JouleclawHistory

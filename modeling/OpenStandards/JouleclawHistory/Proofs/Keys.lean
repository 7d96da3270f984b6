/-
Which queries share a key.

The hasher deals every piece it is fed out to four lanes, and starts at the
first lane again with the next piece. Two queries share a key when their
lanes agree; and the bytes fed for them, read as one stream, are one lane.
Both are answered at once, for any number of lanes.

What is fed begins with a tag for the kind of the input and ends with 35
bytes for the context, so the only thing in doubt is the payload of two
multimodal inputs under one fingerprint. A reader of the lanes could take
for text what follows the text, or take the marker behind the images for
the length of one more image: those are the two ways to agree (`Imitates`),
and there is no third (`payload_eq_iff`).
-/
import OpenStandards.JouleclawHistory.Proofs.Tiered
import OpenStandards.Lib.Lanes

namespace OpenStandards.JouleclawHistory

open Lib JouleclawCascade

-- ==== the hasher

/-- What one lane comes to. -/
theorem lanes_deal (bytes : List UInt8) (n : Nat) (h : Hasher256) (l : Fin 4) :
    ((bytes.zipIdx n).foldl (fun h (p : UInt8 × Nat) =>
        let lane := Fin.ofNat 4 p.2
        { lanes := Function.update h.lanes lane
            (Hasher256.mix (h.lanes lane) p.1) : Hasher256 }) h).lanes l
      = (lane (l - Fin.ofNat 4 n) bytes).foldl Hasher256.mix (h.lanes l) := by
  induction bytes generalizing n h with
  | nil => rfl
  | cons b bytes ih =>
    rw [List.zipIdx_cons, List.foldl_cons, ih, lane_cons, ofNat_succ, sub_add_eq_sub_sub_swap]
    by_cases hl : l = Fin.ofNat 4 n
    · rw [if_pos (sub_eq_zero.2 hl), List.foldl_cons, hl]
      simp only [Function.update_self]
    · rw [if_neg (sub_ne_zero.2 hl)]
      simp only [Function.update_of_ne hl]

theorem lanes_updates (chunks : List (List UInt8)) (h : Hasher256) (l : Fin 4) :
    (chunks.foldl Hasher256.update h).lanes l
      = (dealt l chunks).foldl Hasher256.mix (h.lanes l) := by
  induction chunks generalizing h with
  | nil => rfl
  | cons bytes chunks ih =>
    rw [List.foldl_cons, ih, dealt_cons, List.foldl_append]
    refine congrArg (List.foldl _ · _) ?_
    have hfirst := lanes_deal bytes 0 h l
    rw [show Fin.ofNat 4 0 = 0 from rfl, sub_zero] at hfirst
    exact hfirst

/-- Pieces with the same lanes have the same digest. -/
theorem digest_congr {chunks chunks' : List (List UInt8)}
    (h : ∀ l : Fin 4, dealt l chunks = dealt l chunks') :
    Hasher256.digest chunks = Hasher256.digest chunks' := by
  have hlanes : chunks.foldl Hasher256.update .new = chunks'.foldl Hasher256.update .new := by
    rw [Hasher256.mk.injEq]
    funext l
    rw [lanes_updates, lanes_updates, h]
  unfold Hasher256.digest
  rw [hlanes]

-- ==== framing

def imageMarker : List UInt8 := bytesOf "|i:"

def audioMarker : List UInt8 := bytesOf "|a:"

/-- The lengths of the attachments are 64-bit numbers. -/
def Fits (parts : List (List UInt8)) : Prop :=
  ∀ part ∈ parts, part.length < 2 ^ 64

theorem framedChunks_cons (part : List UInt8) (parts : List (List UInt8)) :
    framedChunks (part :: parts) = leBytes 8 part.length :: part :: framedChunks parts := rfl

theorem framedChunks_append (parts parts' : List (List UInt8)) :
    framedChunks (parts ++ parts') = framedChunks parts ++ framedChunks parts' :=
  List.flatMap_append ..

section
variable {k : Nat} [NeZero k] {r s : Fin k → List UInt8}

/-- Frames that begin alike begin with one attachment. -/
theorem frame_inj {part part' : List UInt8} (hlt : part.length < 2 ^ 64)
    (hlt' : part'.length < 2 ^ 64)
    (h : ∀ l, lane l (leBytes 8 part.length) ++ (lane l part ++ r l)
      = lane l (leBytes 8 part'.length) ++ (lane l part' ++ s l)) :
    part = part' ∧ ∀ l, r l = s l := by
  obtain ⟨hlen, htail⟩ := lane_cancel (by rw [length_leBytes, length_leBytes]) h
  have hcount : part.length = part'.length := by
    have hof := congrArg ofLeBytes hlen
    rwa [ofLeBytes_leBytes_of_lt hlt, ofLeBytes_leBytes_of_lt hlt'] at hof
  exact lane_cancel hcount htail

/-- Two lists of images that are followed by other bytes: they are the
same, or one of them goes on where the other ends. -/
theorem images_cases {images images' : List (List UInt8)} (h : Fits images)
    (h' : Fits images')
    (heq : ∀ l, dealt l (framedChunks images) ++ r l
      = dealt l (framedChunks images') ++ s l) :
    (images = images' ∧ ∀ l, r l = s l)
      ∨ (∃ image more, images' = images ++ image :: more
          ∧ ∀ l, r l = dealt l (framedChunks (image :: more)) ++ s l)
      ∨ ∃ image more, images = images' ++ image :: more
          ∧ ∀ l, s l = dealt l (framedChunks (image :: more)) ++ r l := by
  induction images generalizing images' with
  | nil =>
    cases images' with
    | nil => exact .inl ⟨rfl, heq⟩
    | cons image more => exact .inr (.inl ⟨image, more, rfl, heq⟩)
  | cons image images ih =>
    cases images' with
    | nil => exact .inr (.inr ⟨image, images, rfl, fun l => (heq l).symm⟩)
    | cons image' images' =>
      simp only [framedChunks_cons, dealt_cons, List.append_assoc] at heq
      obtain ⟨rfl, hrest⟩ := frame_inj (h _ List.mem_cons_self) (h' _ List.mem_cons_self) heq
      rcases ih (fun p hp => h p (List.mem_cons_of_mem _ hp))
          (fun p hp => h' p (List.mem_cons_of_mem _ hp)) hrest with
        ⟨rfl, hsame⟩ | ⟨next, more, rfl, hmore⟩ | ⟨next, more, rfl, hmore⟩
      · exact .inl ⟨rfl, hsame⟩
      · exact .inr (.inl ⟨next, more, rfl, hmore⟩)
      · exact .inr (.inr ⟨next, more, rfl, hmore⟩)

/-- A frame leaves something in lane 0. -/
theorem frames_ne_nil (part : List UInt8) (parts : List (List UInt8)) :
    dealt (0 : Fin k) (framedChunks (part :: parts)) ≠ [] := by
  rw [framedChunks_cons, dealt_cons]
  intro h
  exact lane_zero_cons _ _ (List.append_eq_nil_iff.1 h).1

theorem frames_inj {parts parts' : List (List UInt8)} (h : Fits parts)
    (h' : Fits parts') (heq : ∀ l : Fin k,
      dealt l (framedChunks parts) = dealt l (framedChunks parts')) :
    parts = parts' := by
  have hnil : ∀ l : Fin k, dealt l (framedChunks parts) ++ []
      = dealt l (framedChunks parts') ++ [] := by
    intro l
    rw [heq l]
  rcases images_cases h h' hnil with
    ⟨rfl, -⟩ | ⟨image, more, -, hmore⟩ | ⟨image, more, -, hmore⟩
  · rfl
  · exact absurd ((List.append_nil _).symm.trans (hmore 0).symm) (frames_ne_nil image more)
  · exact absurd ((List.append_nil _).symm.trans (hmore 0).symm) (frames_ne_nil image more)

end

-- ==== imitation

/-- What follows the text of a multimodal input, piece by piece. -/
def attachments (images audio : List (List UInt8)) : List (List UInt8) :=
  framedChunks images ++ audioMarker :: framedChunks audio

/-- The second input is spelled by the bytes of the first in every one of
`k` lanes: its text goes on with what follows the text of the first, or its
images go on where those of the first end. -/
inductive Imitates (k : Nat) [NeZero k] : QueryInput → QueryInput → Prop
  | text (text more : Text) (images audio images' audio' : List (List UInt8))
      (hmore : more ≠ [])
      (h : ∀ l : Fin k, dealt l (imageMarker :: attachments images audio)
        = lane (l - Fin.ofNat k (Text.utf8 text).length) (Text.utf8 more)
          ++ dealt l (imageMarker :: attachments images' audio')) :
      Imitates k (.multimodal text images audio) (.multimodal (text ++ more) images' audio')
  | images (text : Text) (images : List (List UInt8)) (image : List UInt8)
      (more audio audio' : List (List UInt8))
      (h : ∀ l : Fin k, dealt l (audioMarker :: framedChunks audio)
        = dealt l (attachments (image :: more) audio')) :
      Imitates k (.multimodal text images audio)
        (.multimodal text (images ++ image :: more) audio')

-- ==== payloads

def payloadChunks : QueryInput → List (List UInt8)
  | .text s => [Text.utf8 s]
  | .structured b | .binary b | .image b | .audio b => [b]
  | .multimodal text images audio =>
    Text.utf8 text :: imageMarker :: attachments images audio

def tag : QueryInput → List UInt8
  | .text _ => bytesOf "T:"
  | .structured _ => bytesOf "S:"
  | .binary _ => bytesOf "B:"
  | .image _ => bytesOf "I:"
  | .audio _ => bytesOf "A:"
  | .multimodal _ _ _ => bytesOf "M:"

theorem length_tag (input : QueryInput) : (tag input).length = 2 := by
  cases input with
  | text s => rfl
  | structured b => rfl
  | binary b => rfl
  | image b => rfl
  | audio b => rfl
  | multimodal text images audio => rfl

theorem inputChunks_eq (input : QueryInput) :
    inputChunks input = tag input :: payloadChunks input := by
  cases input with
  | multimodal text images audio =>
    simp [inputChunks, tag, payloadChunks, attachments, imageMarker, audioMarker]
  | text s => rfl
  | structured b => rfl
  | binary b => rfl
  | image b => rfl
  | audio b => rfl

def AttachmentsFit : QueryInput → Prop
  | .multimodal _ images audio => Fits images ∧ Fits audio
  | _ => True

section
variable (k : Nat) [NeZero k]

/-- The payloads of two inputs agree in every lane. -/
def SamePayload (input input' : QueryInput) : Prop :=
  ∀ l : Fin k, dealt l (payloadChunks input) = dealt l (payloadChunks input')

variable {k} {input input' : QueryInput}

theorem SamePayload.symm (h : SamePayload k input input') :
    SamePayload k input' input := fun l => (h l).symm

theorem Imitates.same (h : Imitates k input input') :
    tag input = tag input' ∧ SamePayload k input input' := by
  cases h with
  | text text more images audio images' audio' hmore h =>
    refine ⟨rfl, fun l => ?_⟩
    show dealt l (Text.utf8 text :: imageMarker :: attachments images audio)
      = dealt l (Text.utf8 (text ++ more) :: imageMarker :: attachments images' audio')
    rw [dealt_cons, h, dealt_cons l (Text.utf8 (text ++ more)),
      Text.utf8_append, lane_append, List.append_assoc]
  | images text images image more audio audio' h =>
    refine ⟨rfl, fun l => ?_⟩
    have hl := h l
    unfold payloadChunks
    unfold attachments at hl ⊢
    simp only [dealt_cons, dealt_append, framedChunks_append] at hl ⊢
    rw [hl]
    simp only [List.append_assoc]

/-- Two multimodal inputs of which the first has the shorter text. -/
theorem multimodal_cases {text text' : Text} {images audio images' audio' : List (List UInt8)}
    (himages : Fits images) (haudio : Fits audio) (himages' : Fits images')
    (haudio' : Fits audio') (hle : (Text.utf8 text).length ≤ (Text.utf8 text').length)
    (h : SamePayload k (.multimodal text images audio) (.multimodal text' images' audio')) :
    QueryInput.multimodal text images audio = .multimodal text' images' audio'
      ∨ Imitates k (.multimodal text images audio) (.multimodal text' images' audio')
      ∨ Imitates k (.multimodal text' images' audio') (.multimodal text images audio) := by
  have hlanes : ∀ l : Fin k, lane l (Text.utf8 text)
        ++ dealt l (imageMarker :: attachments images audio)
      = lane l (Text.utf8 text') ++ dealt l (imageMarker :: attachments images' audio') := h
  obtain ⟨rest, htext, hrest⟩ := lane_prefix hle hlanes
  obtain ⟨more, rfl⟩ := Text.prefix_of_utf8 htext.symm
  rw [Text.utf8_append] at htext
  obtain rfl := List.append_cancel_left htext
  by_cases hmore : more = []
  · -- one text: the images decide
    subst hmore
    simp only [Text.utf8_nil, lane_nil, List.nil_append, dealt_cons,
      List.append_cancel_left_eq] at hrest
    unfold attachments at hrest
    simp only [dealt_append] at hrest
    rw [List.append_nil]
    rcases images_cases himages himages' hrest with
      ⟨rfl, hsame⟩ | ⟨image, next, rfl, hsame⟩ | ⟨image, next, rfl, hsame⟩
    · have hframes : ∀ l : Fin k, dealt l (framedChunks audio)
          = dealt l (framedChunks audio') :=
        fun l => List.append_cancel_left (hsame l)
      rw [frames_inj haudio haudio' hframes]
      exact .inl rfl
    · refine .inr (.inl (.images text images image next audio audio' ?_))
      intro l
      unfold attachments
      rw [hsame l, dealt_append]
    · refine .inr (.inr (.images text images' image next audio' audio ?_))
      intro l
      unfold attachments
      rw [hsame l, dealt_append]
  · exact .inr (.inl (.text text more images audio images' audio' hmore hrest))

/-- Inputs of another kind have one piece. -/
theorem single_inj {b b' : List UInt8}
    (h : ∀ l : Fin k, dealt l [b] = dealt l [b']) : b = b' := by
  have hlanes : ∀ l : Fin k, lane l b ++ [] = lane l b' ++ [] := h
  rcases Nat.le_total b.length b'.length with hle | hle
  · obtain ⟨more, rfl, hrest⟩ := lane_prefix hle hlanes
    cases more with
    | nil => exact (List.append_nil b).symm
    | cons c more =>
      have hzero := hrest (Fin.ofNat k b.length)
      rw [sub_self, List.append_nil] at hzero
      exact absurd hzero.symm (lane_zero_cons c more)
  · obtain ⟨more, rfl, hrest⟩ := lane_prefix hle fun l => (hlanes l).symm
    cases more with
    | nil => exact List.append_nil b'
    | cons c more =>
      have hzero := hrest (Fin.ofNat k b'.length)
      rw [sub_self, List.append_nil] at hzero
      exact absurd hzero.symm (lane_zero_cons c more)

theorem payload_eq_iff (hfits : AttachmentsFit input) (hfits' : AttachmentsFit input') :
    tag input = tag input' ∧ SamePayload k input input'
      ↔ input = input' ∨ Imitates k input input' ∨ Imitates k input' input := by
  constructor
  · rintro ⟨htag, hpayload⟩
    cases input with
    | text s =>
      cases input' with
      | text s' =>
        have hread := Text.fromUtf8?_eq_some_iff.2 (single_inj hpayload)
        have hread' : Text.fromUtf8? (Text.utf8 s') = some s' :=
          Text.fromUtf8?_eq_some_iff.2 rfl
        rw [Option.some.inj (hread.symm.trans hread')]
        exact .inl rfl
      | _ => exact absurd htag (by simp only [tag]; decide)
    | structured b =>
      cases input' with
      | structured b' => exact .inl (congrArg _ (single_inj hpayload))
      | _ => exact absurd htag (by simp only [tag]; decide)
    | binary b =>
      cases input' with
      | binary b' => exact .inl (congrArg _ (single_inj hpayload))
      | _ => exact absurd htag (by simp only [tag]; decide)
    | image b =>
      cases input' with
      | image b' => exact .inl (congrArg _ (single_inj hpayload))
      | _ => exact absurd htag (by simp only [tag]; decide)
    | audio b =>
      cases input' with
      | audio b' => exact .inl (congrArg _ (single_inj hpayload))
      | _ => exact absurd htag (by simp only [tag]; decide)
    | multimodal text images audio =>
      cases input' with
      | multimodal text' images' audio' =>
        rcases Nat.le_total (Text.utf8 text).length (Text.utf8 text').length
          with hle | hle
        · exact multimodal_cases hfits.1 hfits.2 hfits'.1 hfits'.2 hle hpayload
        · refine Or.imp Eq.symm Or.symm ?_
          exact multimodal_cases hfits'.1 hfits'.2 hfits.1 hfits.2 hle hpayload.symm
      | _ => exact absurd htag (by simp only [tag]; decide)
  · rintro (rfl | h | h)
    · exact ⟨rfl, fun _ => rfl⟩
    · exact h.same
    · exact ⟨h.same.1.symm, h.same.2.symm⟩

end

-- ==== keys

section
variable {J C : Type} (k : Nat) [NeZero k]

/-- What is fed for two queries agrees in every lane. -/
def SameLanes (q q' : Query J C) : Prop :=
  ∀ l : Fin k, dealt l (keyChunks q.input q.context) = dealt l (keyChunks q'.input q'.context)

/-- Two multimodal queries under one fingerprint, of which one imitates the
other. -/
def Confusable (q q' : Query J C) : Prop :=
  q.context.historyFingerprint = q'.context.historyFingerprint
    ∧ (Imitates k q.input q'.input ∨ Imitates k q'.input q.input)

variable {k} {q q' : Query J C}

theorem dealt_keyChunks (q : Query J C) (l : Fin k) :
    dealt l (keyChunks q.input q.context)
      = lane l (bytesOf "L0v1") ++ (lane l (tag q.input)
        ++ (dealt l (payloadChunks q.input) ++ (lane l (bytesOf "|C:")
          ++ lane l q.context.historyFingerprint.toList))) := by
  unfold keyChunks
  rw [inputChunks_eq]
  simp only [List.cons_append, List.nil_append, dealt_cons, dealt_append,
    dealt_nil, List.append_nil]

theorem sameLanes_iff : SameLanes k q q' ↔
    q.context.historyFingerprint = q'.context.historyFingerprint
      ∧ tag q.input = tag q'.input ∧ SamePayload k q.input q'.input := by
  unfold SameLanes
  simp only [dealt_keyChunks, List.append_cancel_left_eq]
  constructor
  · intro h
    have hlen : q.context.historyFingerprint.toList.length
        = q'.context.historyFingerprint.toList.length := by
      rw [List.Vector.toList_length, List.Vector.toList_length]
    obtain ⟨htag, hrest⟩ := lane_cancel (by rw [length_tag, length_tag]) h
    have hends := fun l : Fin k => List.append_inj' (hrest l) (by
      rw [List.length_append, List.length_append, length_lane hlen])
    have hfp : ∀ l : Fin k, lane l q.context.historyFingerprint.toList
        = lane l q'.context.historyFingerprint.toList :=
      fun l => List.append_cancel_left (hends l).2
    exact ⟨List.Vector.toList_injective (eq_of_lanes hlen hfp), htag,
      fun l => (hends l).1⟩
  · rintro ⟨hfp, htag, hpayload⟩ l
    rw [hfp, htag, hpayload l]

theorem sameLanes_iff_confusable (hfits : AttachmentsFit q.input)
    (hfits' : AttachmentsFit q'.input)
    (hdiff : q.input ≠ q'.input ∨ q.context.historyFingerprint
      ≠ q'.context.historyFingerprint) :
    SameLanes k q q' ↔ Confusable k q q' := by
  rw [sameLanes_iff, payload_eq_iff hfits hfits']
  unfold Confusable
  constructor
  · rintro ⟨hfp, hinput | himitates⟩
    · exact absurd hfp (hdiff.resolve_left fun h => h hinput)
    · exact ⟨hfp, himitates⟩
  · rintro ⟨hfp, himitates⟩
    exact ⟨hfp, .inr himitates⟩

end

/-- The bytes fed to the hasher, as one stream. -/
def keyStream {J C : Type} (q : Query J C) : List UInt8 :=
  (keyChunks q.input q.context).flatten

theorem keyStream_eq_iff {J C : Type} {q q' : Query J C} :
    keyStream q = keyStream q' ↔ SameLanes 1 q q' := by
  unfold SameLanes
  simp only [dealt_one, forall_const]
  rfl

/-- Nothing recorded for the one query is found by the other. -/
structure KeptApart (q q' : Query ℚ ℚ) : Prop where
  stream : keyStream q ≠ keyStream q'
  key : keyFor Hasher256.digest q ≠ keyFor Hasher256.digest q'
  l0 : ∀ (l0 : L0Cache) a,
    (l0.put Hasher256.digest q a).tryAnswer Hasher256.digest q'
      = l0.tryAnswer Hasher256.digest q'
  history : ∀ (m : EntryMap ℚ ℚ) a now,
    (m.insertEntry (entryFor Hasher256.digest q a now)).lookupExact (keyFor Hasher256.digest q')
      = m.lookupExact (keyFor Hasher256.digest q')

/-- Queries that differ are kept apart exactly when neither imitates the
other, in one stream or in the four lanes of the hasher, if these do not
collide on the two. -/
theorem keys_apart_iff {q q' : Query ℚ ℚ} (hfits : AttachmentsFit q.input)
    (hfits' : AttachmentsFit q'.input)
    (hdiff : q.input ≠ q'.input ∨ q.context.historyFingerprint ≠ q'.context.historyFingerprint)
    (hdigest : keyFor Hasher256.digest q = keyFor Hasher256.digest q' → SameLanes 4 q q') :
    KeptApart q q' ↔ ¬ Confusable 1 q q' ∧ ¬ Confusable 4 q q' := by
  rw [← sameLanes_iff_confusable hfits hfits' hdiff,
    ← sameLanes_iff_confusable hfits hfits' hdiff, ← keyStream_eq_iff]
  constructor
  · intro h
    exact ⟨h.stream, fun hlanes => h.key (digest_congr hlanes)⟩
  · rintro ⟨hstream, hlanes⟩
    have hkey : keyFor Hasher256.digest q' ≠ keyFor Hasher256.digest q :=
      fun h => hlanes (hdigest h.symm)
    refine { stream := hstream, key := hkey.symm, l0 := fun l0 a => ?_,
             history := fun m a now => ?_ }
    · unfold L0Cache.tryAnswer L0Cache.put
      dsimp only
      rw [Table.lookup_insert_eq, if_neg hkey]
      rfl
    · rw [EntryMap.lookupExact_insertEntry]
      exact if_neg hkey

def asking (input : QueryInput) : Query ℚ ℚ :=
  { input := input, budget := { hardLimit := 1, softTarget := 1 }
    quality := { minConfidence := 0, acceptPartial := true }
    context :=
      { sessionId := .replicate 16 0, historyFingerprint := .replicate 32 0 }
    deadline := none }

theorem texts_apart : KeptApart (asking (.text "a".toList)) (asking (.text "b".toList)) := by
  have hfits : ∀ s : Text, AttachmentsFit (asking (.text s)).input :=
    fun _ => trivial
  have hnone : ∀ k [NeZero k], ¬ Confusable k (asking (.text "a".toList))
      (asking (.text "b".toList)) := by
    rintro k _ ⟨-, h | h⟩
    · cases h
    · cases h
  exact (keys_apart_iff (hfits _) (hfits _) (.inl (by decide))
    fun h => absurd h (by decide +kernel)).2 ⟨hnone 1, hnone 4⟩

/-- A clip that spells markers, and a text whose bytes are in every lane
those of the markers, the clip's length and the clip. -/
def clipped : Query ℚ ℚ :=
  asking (.multimodal [] [] [bytesOf "|i:x|a:y"])

def forged : Query ℚ ℚ :=
  asking (.multimodal "|i:\x00|a:\x00\x08\x00\x00x\x00\x00\x00y".toList [] [])

/-- No lane tells them apart, so they have one key, and the answer to the
one is served for the other. -/
theorem forged_clip :
    clipped.input ≠ forged.input ∧ SameLanes 4 clipped forged
      ∧ keyFor Hasher256.digest clipped = keyFor Hasher256.digest forged
      ∧ ∀ a : Answer ℚ ℚ, ((L0Cache.new.put Hasher256.digest clipped
          a).tryAnswer Hasher256.digest forged).output = a.output := by
  have hlanes : SameLanes 4 clipped forged := by
    unfold SameLanes
    decide +kernel
  have hkey : keyFor Hasher256.digest clipped
      = keyFor Hasher256.digest forged := digest_congr hlanes
  refine ⟨by decide, hlanes, hkey, fun a => ?_⟩
  unfold L0Cache.tryAnswer L0Cache.put
  dsimp only
  rw [hkey, AList.lookup_insert]

end OpenStandards.JouleclawHistory

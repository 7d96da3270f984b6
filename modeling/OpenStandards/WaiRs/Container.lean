/-
WAI containers (wai-rs `container.rs`).

A file of the first version holds a manifest and a payload behind their
lengths, one of the second a manifest, a table of offsets and lengths, and
the payloads. The JSON serializer of manifests is an argument. What is
written is read back, a reader refuses what it cannot read, and the
payloads of an accepted file stand one behind the other
(`containers_exact`).
-/
import OpenStandards.Lib.Cursor
import Mathlib.Algebra.Order.BigOperators.Group.List

namespace OpenStandards.WaiRs

open Lib

variable {E V : Type}

-- ==== manifests

structure ModelRequirement where
  capability : String
  fallback : Option String
deriving DecidableEq

structure Conditioning where
  kind : String
deriving DecidableEq

/-- The manifest of one payload. -/
structure Manifest (V : Type) where
  wai : String
  media : String
  intent : String
  modelRequirement : ModelRequirement
  conditioning : Conditioning
  target : V
deriving DecidableEq

structure RenditionMeta where
  capability : String
  kind : String
deriving DecidableEq

/-- The manifest of several payloads. -/
structure ManifestV2 (V : Type) where
  wai : String
  media : String
  intent : String
  renditions : List RenditionMeta
  target : V
deriving DecidableEq

/-- A serializer of manifests, whose errors are `E`. -/
structure Serde (E M : Type) where
  toVec : M → Except E (List UInt8)
  fromSlice : List UInt8 → Except E M

/-- What is serialized is deserialized again. -/
def Serde.RoundTrips {M : Type} (s : Serde E M) : Prop :=
  ∀ m bytes, s.toVec m = .ok bytes → s.fromSlice bytes = .ok m

/-- What is refused as invalid data. -/
inductive Error (E : Type) where
  | truncated (file what : String) (n off size : Nat)
  | notWai
  | notWai2
  | serde (e : E)
  | payloadCount (manifest payloads : Nat)
  | tooManyRenditions
  | payloadSum
  | tableCount (n manifest : Nat)
  | notContiguous (off expected : Nat)
  | exceeds (start stop size : Nat)
  | offsetOverflow

abbrev Result (E α : Type) := Except (Fault (Error E)) α

def ofSerde {M : Type} (r : Except E M) : Result E M :=
  r.mapError fun e => .err (.serde e)

/-- `need`: the input must have `n` bytes from `off` on. The sum saturates.
-/
def need (file what : String) (bytes : List UInt8) (off n : Nat) : Result E Unit :=
  refuse (bytes.length < min (off + n) (2 ^ 64 - 1))
    (.err (.truncated file what n off bytes.length))

/-- The `n` bytes from `off` on, which are needed. -/
def part (file what : String) (bytes : List UInt8) (off n : Nat) : Result E (List UInt8) := do
  need file what bytes off n
  slice bytes off (off + n)

def magic : List UInt8 := [87, 65, 73, 49]

def magicV2 : List UInt8 := [87, 65, 73, 50]

-- ==== one payload

structure Wai (V : Type) where
  manifest : Manifest V
  payload : List UInt8

namespace Wai

def toBytes (json : Serde E (Manifest V)) (w : Wai V) : Result E (List UInt8) := do
  let m ← ofSerde (json.toVec w.manifest)
  return magic ++ (leBytes 4 m.length ++ (m ++ (leBytes 4 w.payload.length ++ w.payload)))

def fromBytes (json : Serde E (Manifest V)) (bytes : List UInt8) : Result E (Wai V) := do
  let found ← part "WAI" "magic" bytes 0 4
  refuse (found ≠ magic) (.err .notWai)
  let ml ← part "WAI" "manifest length" bytes 4 4
  let m ← part "WAI" "manifest body" bytes 8 (ofLeBytes ml)
  let manifest ← ofSerde (json.fromSlice m)
  let pOff ← addUsize 8 (ofLeBytes ml)
  let pl ← part "WAI" "payload length" bytes pOff 4
  let body ← addUsize pOff 4
  let payload ← part "WAI" "payload body" bytes body (ofLeBytes pl)
  return { manifest, payload }

end Wai

-- ==== several payloads

structure WaiMulti (V : Type) where
  manifest : ManifestV2 V
  renditions : List (List UInt8)

namespace WaiMulti

/-- The offset and the size of each payload. -/
def table : Nat → List (List UInt8) → Result E (List (Nat × Nat))
  | _, [] => .ok []
  | off, p :: payloads => do
    let size := p.length % 2 ^ 32
    refuse (2 ^ 32 ≤ off + size) (.err .payloadSum)
    let entries ← table (off + size) payloads
    return (off, size) :: entries

def entryBytes (entry : Nat × Nat) : List UInt8 :=
  leBytes 4 entry.1 ++ leBytes 4 entry.2

def toBytes (json : Serde E (ManifestV2 V)) (w : WaiMulti V) : Result E (List UInt8) := do
  refuse (w.manifest.renditions.length ≠ w.renditions.length)
    (.err (.payloadCount w.manifest.renditions.length w.renditions.length))
  refuse (65535 < w.renditions.length) (.err .tooManyRenditions)
  let m ← ofSerde (json.toVec w.manifest)
  let entries ← table 0 w.renditions
  return magicV2 ++ (leBytes 4 m.length ++ (m
    ++ (leBytes 2 w.renditions.length ++ (entries.flatMap entryBytes
    ++ w.renditions.flatten))))

def entryAt (bytes : List UInt8) (o : Nat) : Result E ((Nat × Nat) × Nat) := do
  let off ← slice bytes o (o + 4)
  let len ← slice bytes (o + 4) (o + 8)
  return ((ofLeBytes off, ofLeBytes len), o + 8)

def payloads (bytes : List UInt8) (block : Nat) :
    Nat → List (Nat × Nat) → Result E (List (List UInt8))
  | _, [] => .ok []
  | expected, (off, len) :: entries => do
    refuse (off ≠ expected) (.err (.notContiguous off expected))
    let start ← addUsize block off
    let stop ← addUsize start len
    refuse (bytes.length < stop) (.err (.exceeds start stop bytes.length))
    let p ← slice bytes start stop
    refuse (2 ^ 32 ≤ expected + len) (.err .offsetOverflow)
    let ps ← payloads bytes block (expected + len) entries
    return p :: ps

def fromBytes (json : Serde E (ManifestV2 V)) (bytes : List UInt8) : Result E (WaiMulti V) := do
  let found ← part "WAI2" "magic" bytes 0 4
  refuse (found ≠ magicV2) (.err .notWai2)
  let ml ← part "WAI2" "manifest length" bytes 4 4
  let m ← part "WAI2" "manifest body" bytes 8 (ofLeBytes ml)
  let manifest ← ofSerde (json.fromSlice m)
  let o ← addUsize 8 (ofLeBytes ml)
  let count ← part "WAI2" "rendition count" bytes o 2
  let n := ofLeBytes count
  refuse (n ≠ manifest.renditions.length) (.err (.tableCount n manifest.renditions.length))
  need "WAI2" "rendition table" bytes (o + 2) (n * 8)
  let (entries, block) ← readMany (entryAt bytes) n (o + 2)
  let total ← entries.foldlM (fun sum e => addUsize sum e.2) 0
  need "WAI2" "payload block" bytes block total
  let renditions ← payloads bytes block 0 entries
  return { manifest, renditions }

end WaiMulti

-- ==== safety

variable {file what : String} {bytes rest : List UInt8} {cursor : Nat}

theorem confined_need (hfits : bytes.length < 2 ^ 63) (off n : Nat) :
    Confined (fun _ => off + n ≤ bytes.length)
      (need file what bytes off n : Result E Unit) := by
  unfold need refuse
  by_cases h : bytes.length < min (off + n) (2 ^ 64 - 1)
  · rw [if_pos h]
    exact Confined.err _
  · rw [if_neg h]
    exact Confined.ok (by omega)

theorem confined_part (hfits : bytes.length < 2 ^ 63) (off n : Nat) :
    Confined (fun p => off + n ≤ bytes.length ∧ p = (bytes.drop off).take n)
      (part file what bytes off n : Result E (List UInt8)) := by
  unfold part
  refine (confined_need hfits off n).bind fun _ hle => ?_
  refine (confined_slice (Nat.le_add_right ..) hle).mono fun p hp => ?_
  rw [Nat.add_sub_cancel_left] at hp
  exact ⟨hle, hp.1⟩

theorem confined_ofSerde {M : Type} (r : Except E M) :
    Confined (fun _ => True) (ofSerde r) := confined_mapError r _

theorem Wai.confined_fromBytes (json : Serde E (Manifest V)) (hfits : bytes.length < 2 ^ 63) :
    Confined (fun _ => True) (Wai.fromBytes json bytes) := by
  unfold Wai.fromBytes
  refine (confined_part hfits 0 4).bind fun found _ => ?_
  refine Confined.refuse_bind fun _ => ?_
  refine (confined_part hfits 4 4).bind fun ml _ => ?_
  refine (confined_part hfits 8 _).bind fun m hm => ?_
  refine (confined_ofSerde _).bind fun manifest _ => ?_
  refine (confined_addUsize (by omega)).bind fun pOff hpOff => ?_
  refine (confined_part hfits pOff 4).bind fun pl hpl => ?_
  refine (confined_addUsize (by omega)).bind fun body _ => ?_
  refine (confined_part hfits body _).bind fun payload _ => ?_
  exact Confined.ok trivial

namespace WaiMulti

variable {bytes : List UInt8}

theorem confined_entryAt {o : Nat} (h : o + 8 ≤ bytes.length) :
    Confined (fun r => r.1.2 < 2 ^ 32 ∧ r.2 = o + 8) (entryAt bytes o : Result E _) := by
  unfold entryAt
  refine (confined_slice (by omega) (by omega)).bind fun off _ => ?_
  refine (confined_slice (by omega) (by omega)).bind fun len hlen => ?_
  have hlt := ofLeBytes_lt len
  rw [hlen.2, show o + 8 - (o + 4) = 4 by omega] at hlt
  exact Confined.ok ⟨hlt, rfl⟩

theorem confined_entries (n : Nat) {o : Nat} (h : o + n * 8 ≤ bytes.length) :
    Confined (fun r => r.1.length = n ∧ (∀ e ∈ r.1, e.2 < 2 ^ 32) ∧ r.2 = o + n * 8)
      (readMany (entryAt bytes) n o : Result E _) := by
  induction n generalizing o with
  | zero => exact Confined.ok ⟨rfl, nofun, by omega⟩
  | succ n ih =>
    unfold readMany
    refine (confined_entryAt (by omega)).bind fun e he => ?_
    refine (ih (by omega)).bind fun es hes => ?_
    refine Confined.ok ⟨congrArg (· + 1) hes.1, ?_, by omega⟩
    exact List.forall_mem_cons.2 ⟨he.1, hes.2.1⟩

theorem total_eq (entries : List (Nat × Nat)) (sum : Nat)
    (h : sum + (entries.map Prod.snd).sum < 2 ^ 64) :
    (entries.foldlM (fun sum e => addUsize sum e.2) sum : Result E Nat)
      = .ok (sum + (entries.map Prod.snd).sum) := by
  induction entries generalizing sum with
  | nil => rfl
  | cons e entries ih =>
    rw [List.map_cons, List.sum_cons] at h ⊢
    rw [List.foldlM_cons, addUsize, if_pos (by omega), ok_bind,
      ih (sum + e.2) (by omega), Nat.add_assoc]

/-- The sizes of a table are added up without an overflow. -/
theorem confined_total {entries : List (Nat × Nat)}
    (hcount : entries.length < 2 ^ 16) (hsizes : ∀ e ∈ entries, e.2 < 2 ^ 32) :
    Confined (fun _ => True)
      (entries.foldlM (fun sum e => addUsize sum e.2) 0 : Result E Nat) := by
  have hsum := List.sum_le_card_nsmul (entries.map Prod.snd) (2 ^ 32) (by
    intro size hsize
    obtain ⟨e, he, rfl⟩ := List.mem_map.1 hsize
    exact (hsizes e he).le)
  rw [List.length_map, nsmul_eq_mul, Nat.cast_id] at hsum
  rw [total_eq entries 0 (by omega)]
  exact Confined.ok trivial

theorem confined_payloads {block : Nat} (hblock : block < 2 ^ 63)
    (entries : List (Nat × Nat)) {expected : Nat}
    (hexpected : expected < 2 ^ 32) (hsizes : ∀ e ∈ entries, e.2 < 2 ^ 32) :
    Confined (fun ps => ps.length = entries.length
        ∧ ps.flatten <+: bytes.drop (block + expected))
      (payloads bytes block expected entries : Result E _) := by
  induction entries generalizing expected with
  | nil => exact Confined.ok ⟨rfl, List.nil_prefix⟩
  | cons e entries ih =>
    obtain ⟨off, len⟩ := e
    have hsize : len < 2 ^ 32 := hsizes _ List.mem_cons_self
    unfold payloads
    refine Confined.refuse_bind fun hoff => ?_
    refine (confined_addUsize (by omega)).bind fun start hstart => ?_
    refine (confined_addUsize (by omega)).bind fun stop hstop => ?_
    refine Confined.refuse_bind fun hle => ?_
    refine (confined_slice (by omega) (by omega)).bind fun p hp => ?_
    refine Confined.refuse_bind fun hnext => ?_
    refine (ih (by omega) fun e' he' =>
      hsizes e' (List.mem_cons_of_mem _ he')).bind fun ps hps => ?_
    refine Confined.ok ⟨congrArg (· + 1) hps.1, ?_⟩
    have hfirst : bytes.drop (block + expected)
        = p ++ bytes.drop (block + (expected + len)) := by
      have hdrop : bytes.drop (block + (expected + len))
          = (bytes.drop (block + expected)).drop len := by
        rw [List.drop_drop, Nat.add_assoc]
      have hpart : p = (bytes.drop (block + expected)).take len := by
        rw [hp.1]
        congr 1
        · omega
        · congr 1
          omega
      rw [hdrop, hpart, List.take_append_drop]
    rw [List.flatten_cons, hfirst]
    exact List.prefix_append_right_inj p |>.2 hps.2

/-- A file that is accepted has as many payloads as its manifest says, and
they stand behind the table. -/
theorem confined_fromBytes (json : Serde E (ManifestV2 V)) (hfits : bytes.length < 2 ^ 63) :
    Confined (fun w => w.renditions.length = w.manifest.renditions.length
        ∧ w.renditions.flatten
          <+: bytes.drop (10 + ofLeBytes ((bytes.drop 4).take 4) + w.renditions.length * 8))
      (WaiMulti.fromBytes json bytes) := by
  unfold WaiMulti.fromBytes
  refine (confined_part hfits 0 4).bind fun found _ => ?_
  refine Confined.refuse_bind fun _ => ?_
  refine (confined_part hfits 4 4).bind fun ml hml => ?_
  refine (confined_part hfits 8 _).bind fun m hm => ?_
  refine (confined_ofSerde _).bind fun manifest _ => ?_
  refine (confined_addUsize (by omega)).bind fun o ho => ?_
  refine (confined_part hfits o 2).bind fun count hcount => ?_
  have hn := ofLeBytes_lt count
  have hcountLen : count.length ≤ 2 := by
    rw [hcount.2]
    exact List.length_take_le ..
  dsimp only
  generalize ofLeBytes count = n at hn ⊢
  refine Confined.refuse_bind fun hsame => ?_
  refine (confined_need hfits _ _).bind fun _ htable => ?_
  refine (confined_entries n htable).bind ?_
  rintro ⟨entries, block⟩ ⟨hlength, hsizes, hblock⟩
  dsimp only at hlength hsizes hblock ⊢
  have hn16 : n < 2 ^ 16 :=
    lt_of_lt_of_le hn (Nat.pow_le_pow_right (by decide) hcountLen)
  refine (confined_total (by omega) hsizes).bind fun total _ => ?_
  refine (confined_need hfits _ _).bind fun _ hend => ?_
  refine (confined_payloads (by omega) entries (by decide) hsizes).bind
    fun ps hps => ?_
  refine Confined.ok ⟨?_, ?_⟩
  · show ps.length = manifest.renditions.length
    omega
  · have hstart : 10 + ofLeBytes ((bytes.drop 4).take 4) + ps.length * 8 = block + 0 := by
      rw [← hml.2]
      omega
    show ps.flatten <+: bytes.drop (10 + _ + ps.length * 8)
    rw [hstart]
    exact hps.2

end WaiMulti

-- ==== round trips

theorem part_eq {p : List UInt8} (h : At bytes cursor (p ++ rest)) :
    (part file what bytes cursor p.length : Result E _) = .ok p := by
  have hlen := h.length_eq
  rw [List.length_append] at hlen
  unfold part need
  rw [check_bind_eq_ok, refuse_eq_ok]
  exact ⟨by omega, h.slice_eq⟩

/-- A length of 32 bits that is read. -/
theorem part_leBytes {k n : Nat} (h : At bytes cursor (leBytes k n ++ rest)) :
    (part file what bytes cursor k : Result E _) = .ok (leBytes k n) := by
  have hpart : (part file what bytes cursor (leBytes k n).length :
      Result E _) = .ok (leBytes k n) := part_eq h
  rwa [length_leBytes] at hpart

theorem move_leBytes {k n : Nat} (h : At bytes cursor (leBytes k n ++ rest)) :
    At bytes (cursor + k) rest := by
  have hmove := h.move
  rwa [length_leBytes] at hmove

theorem Wai.fromBytes_toBytes {json : Serde E (Manifest V)}
    (hjson : json.RoundTrips) {w : Wai V} {m b : List UInt8}
    (hm : json.toVec w.manifest = .ok m) (hsize : m.length < 2 ^ 32)
    (hpayload : w.payload.length < 2 ^ 32) (h : w.toBytes json = .ok b) :
    Wai.fromBytes json b = .ok w := by
  have hb : b = magic ++ (leBytes 4 m.length ++ (m
      ++ (leBytes 4 w.payload.length ++ w.payload))) := by
    unfold toBytes ofSerde at h
    rw [hm] at h
    exact (Except.ok.inj h).symm
  have hlen := congrArg List.length hb
  have hmagic : magic.length = 4 := rfl
  simp only [List.length_append, length_leBytes, hmagic] at hlen
  have h0 : At b 0 (magic ++ (leBytes 4 m.length ++ (m
      ++ (leBytes 4 w.payload.length ++ (w.payload ++ []))))) := by
    rw [List.append_nil, ← hb]
    exact At.start (by omega)
  have h4 : At b 4 _ := h0.move
  have h8 : At b 8 _ := move_leBytes h4
  have hp := h8.move
  have hbody := move_leBytes hp
  have hmSize : ofLeBytes (leBytes 4 m.length) = m.length :=
    ofLeBytes_leBytes_of_lt hsize
  have hpSize : ofLeBytes (leBytes 4 w.payload.length) = w.payload.length :=
    ofLeBytes_leBytes_of_lt hpayload
  have hfound : (part "WAI" "magic" b 0 4 : Result E _) = .ok magic :=
    part_eq h0
  have hsum : (addUsize 8 m.length : Result E Nat) = .ok (8 + m.length) :=
    if_pos (by omega)
  have hsum' : (addUsize (8 + m.length) 4 : Result E Nat)
      = .ok (8 + m.length + 4) := if_pos (by omega)
  unfold fromBytes ofSerde
  rw [hfound, ok_bind, refuse, if_neg (not_not.2 rfl), ok_bind,
    part_leBytes h4, ok_bind, hmSize, part_eq h8, ok_bind, hjson _ _ hm]
  show (do
    let pOff ← addUsize 8 m.length
    let pl ← part "WAI" "payload length" b pOff 4
    let body ← addUsize pOff 4
    let payload ← part "WAI" "payload body" b body (ofLeBytes pl)
    return { manifest := w.manifest, payload } : Result E (Wai V)) = .ok w
  rw [hsum, ok_bind, part_leBytes hp, ok_bind, hsum', ok_bind, hpSize, part_eq hbody]
  rfl

namespace WaiMulti

theorem table_spec {ps : List (List UInt8)} {off : Nat}
    {entries : List (Nat × Nat)} (hoff : off < 2 ^ 32) (hsizes : ∀ p ∈ ps, p.length < 2 ^ 32)
    (h : (table off ps : Result E _) = .ok entries) :
    entries.map Prod.snd = ps.map List.length
      ∧ (∀ e ∈ entries, e.1 < 2 ^ 32 ∧ e.2 < 2 ^ 32)
      ∧ off + ps.flatten.length < 2 ^ 32
      ∧ ∀ bytes block, At bytes (block + off) ps.flatten →
        (payloads bytes block off entries : Result E _) = .ok ps := by
  induction ps generalizing off entries with
  | nil =>
    cases h
    exact ⟨rfl, nofun, hoff, fun _ _ _ => rfl⟩
  | cons p ps ih =>
    have hp : p.length % 2 ^ 32 = p.length :=
      Nat.mod_eq_of_lt (hsizes p List.mem_cons_self)
    unfold table at h
    dsimp only at h
    rw [hp, refuse_bind_eq_ok] at h
    obtain ⟨hnext, h⟩ := h
    obtain ⟨rest, hrest, h⟩ := bind_eq_ok.1 h
    cases h
    obtain ⟨hmap, hfit, hend, hread⟩ := ih (by omega)
      (fun p' hp' => hsizes p' (List.mem_cons_of_mem _ hp')) hrest
    refine ⟨congrArg (p.length :: ·) hmap, ?_, ?_, fun bytes block hat => ?_⟩
    · exact List.forall_mem_cons.2
        ⟨⟨hoff, hsizes p List.mem_cons_self⟩, hfit⟩
    · rw [List.flatten_cons, List.length_append]
      omega
    · rw [List.flatten_cons] at hat
      have hlen := hat.length_eq
      have hfits := hat.fits
      have hnextAt := hat.move
      rw [List.length_append] at hlen
      rw [Nat.add_assoc] at hnextAt
      have hstart : (addUsize block off : Result E Nat) = .ok (block + off) := if_pos (by omega)
      unfold payloads
      rw [refuse, if_neg (not_not.2 rfl), ok_bind, hstart, ok_bind,
        hat.addUsize_eq, ok_bind, refuse, if_neg (by omega), ok_bind,
        hat.slice_eq, ok_bind, refuse, if_neg hnext, ok_bind,
        hread bytes block hnextAt]
      rfl

theorem length_entries (entries : List (Nat × Nat)) :
    (entries.flatMap entryBytes).length = entries.length * 8 := by
  induction entries with
  | nil => rfl
  | cons e entries ih =>
    rw [List.flatMap_cons, List.length_append, ih, entryBytes,
      List.length_append, length_leBytes, length_leBytes, List.length_cons]
    omega

theorem reads_entryAt {e : Nat × Nat} (h : e.1 < 2 ^ 32 ∧ e.2 < 2 ^ 32) (bytes : List UInt8) :
    Reads bytes (entryAt bytes : Nat → Result E _) (entryBytes e) e := by
  intro cursor rest hat
  unfold entryBytes at hat
  rw [List.append_assoc] at hat
  have hnext := move_leBytes hat
  have hend : At bytes (cursor + 4 + 4) rest := move_leBytes hnext
  refine ⟨cursor + 8, ?_, hend⟩
  have hoff := hat.slice_eq (ε := Error E)
  have hlen := hnext.slice_eq (ε := Error E)
  rw [length_leBytes] at hoff hlen
  unfold entryAt
  rw [hoff, ok_bind, hlen, ok_bind, ofLeBytes_leBytes_of_lt h.1, ofLeBytes_leBytes_of_lt h.2]
  rfl

/-- Payloads that are written are read. -/
theorem fromBytes_toBytes {json : Serde E (ManifestV2 V)}
    (hjson : json.RoundTrips) {w : WaiMulti V} {m b : List UInt8}
    (hm : json.toVec w.manifest = .ok m) (hsize : m.length < 2 ^ 32)
    (hpayloads : ∀ p ∈ w.renditions, p.length < 2 ^ 32)
    (h : w.toBytes json = .ok b) : WaiMulti.fromBytes json b = .ok w := by
  unfold toBytes at h
  rw [hm, refuse_bind_eq_ok, refuse_bind_eq_ok] at h
  obtain ⟨hcount, hmany, h⟩ := h
  obtain ⟨_, hok, h⟩ := bind_eq_ok.1 h
  cases hok
  obtain ⟨entries, htable, h⟩ := bind_eq_ok.1 h
  have hb := (Except.ok.inj h).symm
  obtain ⟨hlengths, hfit, hend, hread⟩ :=
    table_spec (by decide) hpayloads htable
  have hn : entries.length = w.renditions.length := by
    have := congrArg List.length hlengths
    rwa [List.length_map, List.length_map] at this
  have htotal : (entries.map Prod.snd).sum = w.renditions.flatten.length := by
    rw [hlengths, List.length_flatten]
  have hlen := congrArg List.length hb
  have hmagic : magicV2.length = 4 := rfl
  have htableLen : (entries.flatMap entryBytes).length
      = entries.length * 8 := length_entries entries
  simp only [List.length_append, length_leBytes, hmagic, htableLen] at hlen
  have h0 : At b 0 (magicV2 ++ (leBytes 4 m.length ++ (m
      ++ (leBytes 2 w.renditions.length ++ (entries.flatMap entryBytes
      ++ w.renditions.flatten))))) := by
    rw [← hb]
    exact At.start (by omega)
  have h4 : At b 4 _ := h0.move
  have h8 : At b 8 _ := move_leBytes h4
  have hc := h8.move
  have ht := move_leBytes hc
  have hmSize : ofLeBytes (leBytes 4 m.length) = m.length :=
    ofLeBytes_leBytes_of_lt hsize
  have hnSize : ofLeBytes (leBytes 2 w.renditions.length)
      = w.renditions.length := ofLeBytes_leBytes_of_lt (by omega)
  have hfound : (part "WAI2" "magic" b 0 4 : Result E _) = .ok magicV2 :=
    part_eq h0
  have hsum : (addUsize 8 m.length : Result E Nat) = .ok (8 + m.length) :=
    if_pos (by omega)
  obtain ⟨block, hentries, hp⟩ :=
    reads_many (fun e he => reads_entryAt (E := E) (hfit e he) b) _ _ ht
  rw [hn] at hentries
  have hneed : (need "WAI2" "rendition table" b (8 + m.length + 2)
      (w.renditions.length * 8) : Result E Unit) = .ok () := by
    unfold need
    rw [refuse_eq_ok]
    omega
  have hneed' : (need "WAI2" "payload block" b block
      w.renditions.flatten.length : Result E Unit) = .ok () := by
    have := hp.length_eq
    unfold need
    rw [refuse_eq_ok]
    omega
  have hsizes : (entries.foldlM (fun sum e => addUsize sum e.2) 0
      : Result E Nat) = .ok w.renditions.flatten.length := by
    rw [total_eq entries 0 (by omega), htotal, Nat.zero_add]
  unfold WaiMulti.fromBytes
  rw [hfound, ok_bind, refuse, if_neg (not_not.2 rfl), ok_bind,
    part_leBytes h4, ok_bind, hmSize, part_eq h8, ok_bind, hjson _ _ hm]
  change (addUsize 8 m.length >>= _) = _
  rw [hsum, ok_bind, part_leBytes hc, ok_bind]
  dsimp only
  rw [hnSize, refuse, if_neg (fun hne => hcount hne.symm), ok_bind, hneed,
    ok_bind, hentries, ok_bind]
  dsimp only
  rw [hsizes, ok_bind, hneed', ok_bind, hread b block hp]
  rfl

end WaiMulti

theorem part_magic (file what : String) {p : List UInt8} (hp : p.length = 4) (rest : List UInt8) :
    (part file what (p ++ rest) 0 4 : Result E _) = .ok p := by
  unfold part need slice
  rw [check_bind_eq_ok, refuse_eq_ok, List.length_append, if_pos ⟨by omega, by omega⟩]
  refine ⟨by omega, ?_⟩
  rw [List.drop_zero, Nat.zero_add, Nat.sub_zero, ← hp, List.take_left]

theorem fromBytes_otherVersion (json : Serde E (Manifest V))
    (json2 : Serde E (ManifestV2 V)) (rest : List UInt8) :
    Wai.fromBytes json (magicV2 ++ rest) = .error (.err .notWai)
      ∧ WaiMulti.fromBytes json2 (magic ++ rest) = .error (.err .notWai2) := by
  unfold Wai.fromBytes WaiMulti.fromBytes
  rw [part_magic _ _ rfl, part_magic _ _ rfl]
  exact ⟨rfl, rfl⟩

/-- Manifests under the two serializers, and payloads, that fit are read
as they were written. No bytes make a reader panic, no reader reads what is
written for the other one, and the payloads of an accepted file stand one
behind the other. -/
theorem containers_exact (json : Serde E (Manifest V))
    (json2 : Serde E (ManifestV2 V)) (hjson : json.RoundTrips) (hjson2 : json2.RoundTrips) :
    (∀ (w : Wai V) m b, json.toVec w.manifest = .ok m → m.length < 2 ^ 32 →
      w.payload.length < 2 ^ 32 → w.toBytes json = .ok b →
      Wai.fromBytes json b = .ok w)
    ∧ (∀ (w : WaiMulti V) m b, json2.toVec w.manifest = .ok m →
      m.length < 2 ^ 32 → (∀ p ∈ w.renditions, p.length < 2 ^ 32) →
      w.toBytes json2 = .ok b → WaiMulti.fromBytes json2 b = .ok w)
    ∧ (∀ bytes : List UInt8, bytes.length < 2 ^ 63 →
      Wai.fromBytes json bytes ≠ .error .panic ∧ WaiMulti.fromBytes json2 bytes ≠ .error .panic)
    ∧ (∀ (w : Wai V) b, w.toBytes json = .ok b →
      WaiMulti.fromBytes json2 b = .error (.err .notWai2))
    ∧ (∀ (w : WaiMulti V) b, w.toBytes json2 = .ok b →
      Wai.fromBytes json b = .error (.err .notWai))
    ∧ ∀ (bytes : List UInt8) w, bytes.length < 2 ^ 63 →
      WaiMulti.fromBytes json2 bytes = .ok w →
      w.renditions.length = w.manifest.renditions.length
        ∧ w.renditions.flatten
          <+: bytes.drop (10 + ofLeBytes ((bytes.drop 4).take 4)
            + w.renditions.length * 8) := by
  refine ⟨fun w m b hm hsize hp h => Wai.fromBytes_toBytes hjson hm hsize hp h,
    fun w m b hm hsize hp h =>
      WaiMulti.fromBytes_toBytes hjson2 hm hsize hp h,
    fun bytes hfits => ⟨(Wai.confined_fromBytes json hfits).1,
      (WaiMulti.confined_fromBytes json2 hfits).1⟩, ?_, ?_,
    fun bytes w hfits => (WaiMulti.confined_fromBytes json2 hfits).2 w⟩
  · intro w b h
    obtain ⟨m, -, h⟩ := bind_eq_ok.1 h
    cases h
    exact (fromBytes_otherVersion json json2 _).2
  · intro w b h
    unfold WaiMulti.toBytes at h
    rw [refuse_bind_eq_ok, refuse_bind_eq_ok] at h
    obtain ⟨-, -, h⟩ := h
    obtain ⟨m, -, h⟩ := bind_eq_ok.1 h
    obtain ⟨entries, -, h⟩ := bind_eq_ok.1 h
    cases h
    exact (fromBytes_otherVersion json json2 _).1

/-- A serializer of one value. -/
def single {M : Type} [DecidableEq M] (m : M) (json : List UInt8) : Serde Unit M :=
  { toVec := fun m' => if m' = m then .ok json else .error ()
    fromSlice := fun bytes => if bytes = json then .ok m else .error () }

theorem roundTrips_single {M : Type} [DecidableEq M] (m : M)
    (json : List UInt8) : (single m json).RoundTrips := by
  intro m' bytes h
  dsimp only [single] at h ⊢
  split at h
  case isTrue heq =>
    cases h
    rw [if_pos rfl, heq]
  case isFalse => cases h

/-- The bytes of a text whose quotes stand for double ones. -/
def jsonBytes (s : String) : List UInt8 :=
  s.toList.map fun c => if c.toNat = 39 then 34 else UInt8.ofNat c.toNat

def notes : Manifest Unit :=
  { wai := "1.0", media := "audio", intent := "play"
    modelRequirement := { capability := "notes", fallback := none }
    conditioning := { kind := "midi" }, target := () }

def notesJson : List UInt8 :=
  jsonBytes ("\x7b'wai':'1.0','media':'audio','intent':'play',"
    ++ "'model_requirement':\x7b'capability':'notes'\x7d,"
    ++ "'conditioning':\x7b'kind':'midi'\x7d,'target':null\x7d")

def duet : ManifestV2 Unit :=
  { wai := "1.1", media := "audio", intent := "play"
    renditions := [⟨"notes", "midi"⟩, ⟨"silence", "none"⟩], target := () }

def duetJson : List UInt8 :=
  jsonBytes ("\x7b'wai':'1.1','media':'audio','intent':'play','renditions':["
    ++ "\x7b'capability':'notes','kind':'midi'\x7d,"
    ++ "\x7b'capability':'silence','kind':'none'\x7d],'target':null\x7d")

/-- A payload of the first version, and two of the second, one of them
empty. -/
theorem notes_readBack :
    (∃ b, Wai.toBytes (single notes notesJson) ⟨notes, [1, 2]⟩ = .ok b
      ∧ Wai.fromBytes (single notes notesJson) b = .ok ⟨notes, [1, 2]⟩)
      ∧ ∃ b, WaiMulti.toBytes (single duet duetJson) ⟨duet, [[1, 2], []]⟩ = .ok b
        ∧ WaiMulti.fromBytes (single duet duetJson) b = .ok ⟨duet, [[1, 2], []]⟩ := by
  obtain ⟨hone, htwo, -⟩ := containers_exact (single notes notesJson)
    (single duet duetJson) (roundTrips_single _ _) (roundTrips_single _ _)
  exact ⟨⟨_, rfl, hone ⟨notes, [1, 2]⟩ notesJson _ rfl (by decide +kernel)
    (by decide) rfl⟩, _, rfl, htwo ⟨duet, [[1, 2], []]⟩ duetJson _ rfl
    (by decide +kernel) (by decide) rfl⟩

end OpenStandards.WaiRs

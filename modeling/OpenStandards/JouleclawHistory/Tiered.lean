/-
The memory hierarchy: `in_memory.rs`, `warm.rs` and `tiered.rs`.

A hot map of few entries, a warm cache that forgets what was used longest
ago, and a cold store of everything. A hit below the hot map copies the
entry up; what the hot map loses goes to the warm cache, and what the warm
cache loses goes to the cold store, unless that holds the key already. The
digest of keys and the clock are arguments.
-/
import OpenStandards.JouleclawCascade.Types
import Mathlib.Data.List.MinMax

namespace OpenStandards.JouleclawHistory

open Lib JouleclawCascade

variable {J C : Type}

-- ==== maps of entries

/-- Entries by their own keys. -/
structure EntryMap (J C : Type) where
  entries : Table EntryKey (HistoryEntry J C)
  keyed : ∀ k e, entries.lookup k = some e → e.key = k

namespace EntryMap

def empty : EntryMap J C := { entries := ∅, keyed := nofun }

def len (m : EntryMap J C) : Nat := m.entries.entries.length

def get (m : EntryMap J C) (key : EntryKey) : Option (HistoryEntry J C) :=
  m.entries.lookup key

def insertEntry (m : EntryMap J C) (entry : HistoryEntry J C) : EntryMap J C :=
  { entries := m.entries.insert entry.key entry
    keyed := by
      intro k e h
      rw [Table.lookup_insert_eq] at h
      split at h
      · next hk => rw [hk, ← Option.some.inj h]
      · exact m.keyed k e h }

def remove (m : EntryMap J C) (key : EntryKey) : EntryMap J C :=
  { entries := m.entries.erase key
    keyed := by
      intro k e h
      by_cases hk : k = key
      · subst hk
        rw [AList.lookup_erase] at h
        cases h
      · exact m.keyed k e (by rwa [AList.lookup_erase_ne hk] at h) }

def values (m : EntryMap J C) : List (HistoryEntry J C) :=
  Table.values m.entries

def lookupExact (m : EntryMap J C) (key : EntryKey) : Option (HistoryAnswer J C) :=
  (m.get key).map HistoryEntry.answer

end EntryMap

def entryFor (digest : List (List UInt8) → EntryKey) (q : Query J C)
    (a : Answer J C) (now : UInt64) : HistoryEntry J C :=
  { key := keyFor digest q, queryInput := q.input, queryContext := q.context,
    answer := answerToHistory a, timestampSecs := now, embedding := [] }

-- ==== warm cache

/-- The access order has the oldest key first. -/
structure WarmCache (J C : Type) where
  entries : EntryMap J C
  accessOrder : List EntryKey
  maxEntries : Nat

namespace WarmCache

def new (maxEntries : Nat) : WarmCache J C :=
  { entries := .empty, accessOrder := [], maxEntries := maxEntries }

def len (w : WarmCache J C) : Nat := w.entries.len

def getEntry (w : WarmCache J C) (key : EntryKey) : Option (HistoryEntry J C) :=
  w.entries.get key

def touch (w : WarmCache J C) (key : EntryKey) : WarmCache J C :=
  if key ∈ w.accessOrder then
    { w with accessOrder := w.accessOrder.erase key ++ [key] }
  else w

/-- Room is made by forgetting the oldest entry, which is handed back. -/
def evictOldest (w : WarmCache J C) : WarmCache J C × Option (HistoryEntry J C) :=
  if w.len ≥ w.maxEntries then
    match w.accessOrder with
    | [] => (w, none)
    | oldest :: rest =>
      ({ w with entries := w.entries.remove oldest, accessOrder := rest }, w.entries.get oldest)
  else (w, none)

def put (w : WarmCache J C) (entry : HistoryEntry J C) :
    WarmCache J C × Option (HistoryEntry J C) :=
  if (w.entries.get entry.key).isSome then
    let touched := w.touch entry.key
    ({ touched with entries := touched.entries.insertEntry entry }, none)
  else
    let (room, evicted) := w.evictOldest
    ({ room with
        entries := room.entries.insertEntry entry
        accessOrder := room.accessOrder ++ [entry.key] }, evicted)

def lookupExact (w : WarmCache J C) (key : EntryKey) :
    WarmCache J C × Option (HistoryAnswer J C) :=
  match w.entries.lookupExact key with
  | some answer => (w.touch key, some answer)
  | none => (w, none)

end WarmCache

-- ==== tiered memory

/-- Where a cached entry currently lives. -/
inductive MemoryTier where
  | hot
  | warm
  | cold
  | persistent

structure TieredMemory (J C : Type) where
  hot : EntryMap J C
  hotCapacity : Nat
  warm : WarmCache J C
  cold : EntryMap J C
  hotLru : Table EntryKey UInt64
  nextSeq : UInt64
  lastHitTier : Option MemoryTier
  totalTransitionJoules : ℚ

def promotionCost : MemoryTier → MemoryTier → ℚ
  | .cold, .warm | .cold, .hot => 1 / 1000000
  | .warm, .hot => 1 / 100000000
  | _, _ => 0

def demotionCost : MemoryTier → MemoryTier → ℚ
  | .hot, .warm => 1 / 100000000
  | .warm, .cold => 1 / 1000000
  | _, _ => 0

namespace TieredMemory

def openWith (hotCapacity warmCapacity : Nat) (cold : EntryMap J C) : TieredMemory J C :=
  { hot := .empty, hotCapacity := hotCapacity,
    warm := .new warmCapacity, cold := cold, hotLru := ∅, nextSeq := 0,
    lastHitTier := none, totalTransitionJoules := 0 }

def hotLen (t : TieredMemory J C) : Nat := t.hot.len

def warmLen (t : TieredMemory J C) : Nat := t.warm.len

/-- The hot key that was used longest ago. -/
def evictKey (t : TieredMemory J C) : Option EntryKey :=
  (t.hotLru.entries.argmin fun e => e.2.toNat).map Sigma.fst

variable (digest : List (List UInt8) → EntryKey) (now : UInt64)

/-- An entry the warm cache lost is written to the cold store when that
does not hold its key, under the key of its own query. -/
def demoteToCold (t : TieredMemory J C) (we : HistoryEntry J C) : TieredMemory J C :=
  match t.cold.lookupExact we.key with
  | some _ => t
  | none =>
    { t with
      cold := t.cold.insertEntry
        { key := digest (keyChunks we.queryInput we.queryContext)
          queryInput := we.queryInput, queryContext := we.queryContext,
          answer := we.answer, timestampSecs := now, embedding := [] } }

/-- A full hot map gives up one entry. Also answers what the demotions
cost. -/
def demoteFromHot (t : TieredMemory J C) : TieredMemory J C × ℚ :=
  if t.hot.len ≥ t.hotCapacity then
    match t.evictKey with
    | none => (t, 0)
    | some k =>
      let t := { t with hotLru := t.hotLru.erase k }
      match t.hot.get k with
      | none => (t, 0)
      | some evicted =>
        let (warm, warmEvicted) := t.warm.put evicted
        let t := { t with hot := t.hot.remove k, warm := warm }
        match warmEvicted with
        | none => (t, demotionCost .hot .warm)
        | some we =>
          (t.demoteToCold digest now we, demotionCost .hot .warm + demotionCost .warm .cold)
  else (t, 0)

/-- The entry becomes the most recently used of the hot map. -/
def insertHotWithDemotion (t : TieredMemory J C) (entry : HistoryEntry J C) :
    TieredMemory J C × ℚ :=
  let (t, cost) := t.demoteFromHot digest now
  ({ t with
      hot := t.hot.insertEntry entry
      nextSeq := t.nextSeq + 1
      hotLru := t.hotLru.insert entry.key (t.nextSeq + 1) }, cost)

def touchHot (t : TieredMemory J C) (key : EntryKey) : TieredMemory J C :=
  if (t.hotLru.lookup key).isSome then
    { t with
      nextSeq := t.nextSeq + 1
      hotLru := t.hotLru.insert key (t.nextSeq + 1) }
  else t

/-- An entry found below the hot map is copied up to it. -/
def promote (t : TieredMemory J C) (source : MemoryTier) :
    Option (HistoryEntry J C) → TieredMemory J C
  | none => t
  | some e =>
    let (t', cost) := t.insertHotWithDemotion digest now e
    { t' with
      totalTransitionJoules :=
        t.totalTransitionJoules + promotionCost source .hot + cost }

def lookupExact (t : TieredMemory J C) (key : EntryKey) :
    TieredMemory J C × Option (HistoryAnswer J C) :=
  match t.hot.lookupExact key with
  | some answer =>
    ({ t with lastHitTier := some .hot }.touchHot key, some answer)
  | none =>
    match t.warm.lookupExact key with
    | (warm, some answer) =>
      let t := { t with warm := warm, lastHitTier := some .warm }
      (t.promote digest now .warm (warm.getEntry key), some answer)
    | (warm, none) =>
      let t := { t with warm := warm }
      match t.cold.lookupExact key with
      | some answer =>
        let t := { t with lastHitTier := some .cold }
        (t.promote digest now .cold (t.cold.values.find? fun e => e.key = key), some answer)
      | none => ({ t with lastHitTier := none }, none)

def record (t : TieredMemory J C) (q : Query J C) (a : Answer J C) :
    TieredMemory J C × EntryKey :=
  let entry := entryFor digest q a now
  let (t', cost) := { t with cold := t.cold.insertEntry entry
    }.insertHotWithDemotion digest now entry
  ({ t' with
      totalTransitionJoules := t'.totalTransitionJoules + cost }, entry.key)

end TieredMemory

-- ==== runs

/-- The calls, with the time each is made at. -/
inductive Op (J C : Type) where
  | record (q : Query J C) (a : Answer J C) (now : UInt64)
  | lookupExact (key : EntryKey) (now : UInt64)

def step (digest : List (List UInt8) → EntryKey) (t : TieredMemory J C) :
    Op J C → TieredMemory J C
  | .record q a now => (t.record digest now q a).1
  | .lookupExact key now => (t.lookupExact digest now key).1

def recorded (digest : List (List UInt8) → EntryKey) (key : EntryKey) :
    Op J C → Option (HistoryAnswer J C)
  | .record q a _ =>
    if keyFor digest q = key then some (answerToHistory a) else none
  | .lookupExact _ _ => none

def lastRecorded (digest : List (List UInt8) → EntryKey) (key : EntryKey)
    (ops : List (Op J C)) : Option (HistoryAnswer J C) :=
  ops.reverse.findSome? (recorded digest key)

end OpenStandards.JouleclawHistory

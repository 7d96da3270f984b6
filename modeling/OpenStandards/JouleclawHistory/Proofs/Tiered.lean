/-
The memory hierarchy is one map.

What the cold store answers is the map (`Coherent.cold`), and a key of the
upper levels is always one of it. A hot entry is never stale; a warm entry
may be, but only while the hot map holds its key, and the hot map is asked
first. A demoted entry takes the stale one's place
(`Coherent.demoteFromHot`). While a record is under way the new answer is in
the cold store alone, and the insertion into the hot map restores the
promises of its key (`Coherent.insertHotWithDemotion`).
-/
import OpenStandards.JouleclawHistory.Tiered
import OpenStandards.Lib.Run

namespace OpenStandards.JouleclawHistory

open Lib JouleclawCascade

variable {J C : Type}

-- ==== maps of entries

namespace EntryMap

theorem get_insertEntry (m : EntryMap J C) (entry : HistoryEntry J C) (k : EntryKey) :
    (m.insertEntry entry).get k = if k = entry.key then some entry else m.get k :=
  Table.lookup_insert_eq ..

theorem get_remove (m : EntryMap J C) (key k : EntryKey) :
    (m.remove key).get k = if k = key then none else m.get k := by
  unfold remove get
  by_cases h : k = key
  · rw [if_pos h, h]
    exact AList.lookup_erase ..
  · rw [if_neg h]
    exact AList.lookup_erase_ne h

theorem len_eq (m : EntryMap J C) : m.len = m.entries.keys.length :=
  (List.length_map ..).symm

theorem isSome_get (m : EntryMap J C) (k : EntryKey) : (m.get k).isSome ↔ k ∈ m.entries.keys :=
  AList.lookup_isSome

theorem len_insertEntry (m : EntryMap J C) (entry : HistoryEntry J C) :
    (m.insertEntry entry).len ≤ m.len + 1 := by
  rw [len_eq, len_eq]
  unfold insertEntry
  rw [AList.keys_insert, List.length_cons]
  exact Nat.succ_le_succ List.length_erase_le

variable {m : EntryMap J C}

theorem len_remove {key : EntryKey} (h : (m.get key).isSome) :
    (m.remove key).len + 1 = m.len := by
  have hmem := (isSome_get m key).1 h
  rw [len_eq, len_eq]
  unfold remove
  rw [AList.keys_erase, List.length_erase_of_mem hmem]
  have hpos := List.length_pos_of_mem hmem
  omega

/-- A map of some length holds some key. -/
theorem exists_get_of_len_pos (h : 0 < m.len) : ∃ k, (m.get k).isSome := by
  rw [len_eq] at h
  obtain ⟨k, hk⟩ := List.exists_mem_of_length_pos h
  exact ⟨k, (isSome_get m k).2 hk⟩

theorem lookupExact_eq_some {k : EntryKey} {a : HistoryAnswer J C} :
    m.lookupExact k = some a ↔ ∃ e, m.get k = some e ∧ e.answer = a :=
  Option.map_eq_some_iff

theorem lookupExact_insertEntry (m : EntryMap J C) (entry : HistoryEntry J C) (k : EntryKey) :
    (m.insertEntry entry).lookupExact k
      = if k = entry.key then some entry.answer else m.lookupExact k := by
  unfold lookupExact
  rw [get_insertEntry]
  split
  · rfl
  · rfl

theorem find?_values (m : EntryMap J C) (key : EntryKey) :
    m.values.find? (fun e => e.key = key) = m.get key := by
  cases hfind : m.values.find? (fun e => e.key = key) with
  | none =>
    rw [List.find?_eq_none] at hfind
    cases hget : m.get key with
    | none => rfl
    | some e =>
      have hmem : e ∈ m.values := Table.mem_values.2 ⟨key, hget⟩
      exact absurd (decide_eq_true (m.keyed key e hget)) (hfind e hmem)
  | some e =>
    obtain ⟨k, hget⟩ := Table.mem_values.1 (List.mem_of_find?_eq_some hfind)
    have hkey := List.find?_some hfind
    have hk : k = key :=
      (m.keyed k e hget).symm.trans (of_decide_eq_true hkey)
    rw [← hk]
    exact hget.symm

end EntryMap

-- ==== warm cache

/-- The access order lists the keys once each, and the cache keeps to its
capacity. -/
structure WarmCache.WellFormed (cap : Nat) (w : WarmCache J C) : Prop where
  nodup : w.accessOrder.Nodup
  lists : ∀ k, k ∈ w.accessOrder ↔ (w.entries.get k).isSome
  bounded : w.len ≤ cap
  maxEntries : w.maxEntries = cap

namespace WarmCache

variable {cap : Nat} {w : WarmCache J C}

theorem wellFormed_new (cap : Nat) : (new cap : WarmCache J C).WellFormed cap :=
  { nodup := List.nodup_nil
    lists := fun k => by simp [new, EntryMap.get, EntryMap.empty]
    bounded := Nat.zero_le _
    maxEntries := rfl }

theorem entries_touch (w : WarmCache J C) (key : EntryKey) :
    (w.touch key).entries = w.entries := by
  unfold touch
  split
  · rfl
  · rfl

theorem entries_lookupExact (w : WarmCache J C) (key : EntryKey) :
    (w.lookupExact key).1.entries = w.entries := by
  unfold lookupExact
  split
  · exact entries_touch w key
  · rfl

theorem lookupExact_snd (w : WarmCache J C) (key : EntryKey) :
    (w.lookupExact key).2 = w.entries.lookupExact key := by
  unfold lookupExact
  split
  · next answer h => exact h.symm
  · next h => exact h.symm

theorem WellFormed.touch (h : w.WellFormed cap) (key : EntryKey) :
    (w.touch key).WellFormed cap := by
  unfold WarmCache.touch
  split
  · next hmem =>
      refine { h with nodup := ?_, lists := fun k => ?_ }
      · rw [List.nodup_append_comm, List.singleton_append, List.nodup_cons,
          h.nodup.mem_erase_iff]
        exact ⟨fun hkey => hkey.1 rfl, h.nodup.erase key⟩
      · rw [← h.lists k, List.mem_append, h.nodup.mem_erase_iff, List.mem_singleton]
        by_cases hk : k = key
        · simp [hk, hmem]
        · simp [hk]
  · exact h

theorem WellFormed.lookupExact (h : w.WellFormed cap) (key : EntryKey) :
    (w.lookupExact key).1.WellFormed cap := by
  unfold WarmCache.lookupExact
  split
  · exact h.touch key
  · exact h

/-- Making room leaves room, and loses at most the entry handed back. -/
theorem WellFormed.evictOldest (h : w.WellFormed cap) (hcap : 1 ≤ cap) :
    w.evictOldest.1.WellFormed cap ∧ w.evictOldest.1.len < cap := by
  have hmax := h.maxEntries
  unfold WarmCache.evictOldest
  split
  · next hfull =>
      have hpos : 0 < w.entries.len := by
        have : w.len = w.entries.len := rfl
        omega
      obtain ⟨k, hk⟩ := EntryMap.exists_get_of_len_pos hpos
      have hkmem := (h.lists k).2 hk
      split
      · next hnil =>
          rw [hnil] at hkmem
          cases hkmem
      · next oldest rest horder =>
          have hnodup := h.nodup
          rw [horder, List.nodup_cons] at hnodup
          have hheld : (w.entries.get oldest).isSome := by
            rw [← h.lists, horder]
            exact List.mem_cons_self
          have hlen := EntryMap.len_remove hheld
          have hbound : w.entries.len ≤ cap := h.bounded
          have hless : (w.entries.remove oldest).len < cap := by omega
          refine ⟨⟨hnodup.2, fun k => ?_, Nat.le_of_lt hless, hmax⟩, hless⟩
          rw [EntryMap.get_remove]
          have hlists := h.lists k
          rw [horder, List.mem_cons] at hlists
          by_cases hk : k = oldest
          · rw [if_pos hk, hk]
            simp [hnodup.1]
          · rw [if_neg hk, ← hlists]
            simp [hk]
  · next hroom => exact ⟨h, by dsimp only; omega⟩

theorem get_evictOldest {k : EntryKey} {e : HistoryEntry J C}
    (h : w.evictOldest.1.entries.get k = some e) :
    w.entries.get k = some e := by
  unfold evictOldest at h
  split at h
  · split at h
    · exact h
    · rw [EntryMap.get_remove] at h
      split at h
      · cases h
      · exact h
  · exact h

theorem evicted_evictOldest {we : HistoryEntry J C}
    (h : w.evictOldest.2 = some we) : w.entries.get we.key = some we := by
  unfold evictOldest at h
  split at h
  · split at h
    · cases h
    · next oldest rest horder =>
        rw [w.entries.keyed oldest we h]
        exact h
  · cases h

theorem WellFormed.put (h : w.WellFormed cap) (hcap : 1 ≤ cap)
    (entry : HistoryEntry J C) : (w.put entry).1.WellFormed cap := by
  unfold WarmCache.put
  split
  · next hheld =>
      have ht := h.touch entry.key
      have hmem := (ht.lists entry.key).2 (by rwa [entries_touch])
      refine { ht with lists := fun k => ?_, bounded := ?_ }
      · dsimp only
        rw [EntryMap.get_insertEntry]
        by_cases hk : k = entry.key
        · simpa [hk] using hmem
        · rw [if_neg hk]
          exact ht.lists k
      · -- the key is held already: the entry takes its place
        have hlen : ((w.touch entry.key).entries.insertEntry entry).len
            = (w.touch entry.key).entries.len := by
          have hkeys := (EntryMap.isSome_get w.entries entry.key).1 hheld
          rw [entries_touch, EntryMap.len_eq, EntryMap.len_eq]
          unfold EntryMap.insertEntry
          rw [AList.keys_insert, List.length_cons, List.length_erase_of_mem hkeys]
          have hpos := List.length_pos_of_mem hkeys
          omega
        exact (Nat.le_of_eq hlen).trans ht.bounded
  · next hnew =>
      obtain ⟨hroom, hless⟩ := h.evictOldest hcap
      have hfresh : entry.key ∉ w.evictOldest.1.accessOrder := by
        rw [hroom.lists]
        intro hsome
        obtain ⟨e, he⟩ := Option.isSome_iff_exists.1 hsome
        rw [get_evictOldest he] at hnew
        exact hnew rfl
      refine { hroom with nodup := ?_, lists := fun k => ?_, bounded := ?_ }
      · rw [List.nodup_append_comm, List.singleton_append, List.nodup_cons]
        exact ⟨hfresh, hroom.nodup⟩
      · dsimp only
        rw [EntryMap.get_insertEntry, List.mem_append, List.mem_singleton, hroom.lists k]
        by_cases hk : k = entry.key
        · simp [hk]
        · simp [hk]
      · have hins :=
          EntryMap.len_insertEntry w.evictOldest.1.entries entry
        have hless' : w.evictOldest.1.entries.len < cap := hless
        exact hins.trans hless'

theorem get_put_self (w : WarmCache J C) (entry : HistoryEntry J C) :
    (w.put entry).1.entries.get entry.key = some entry := by
  unfold put
  split
  · exact (EntryMap.get_insertEntry ..).trans (if_pos rfl)
  · exact (EntryMap.get_insertEntry ..).trans (if_pos rfl)

/-- Under the other keys nothing appears. -/
theorem get_of_get_put {entry e : HistoryEntry J C} {k : EntryKey}
    (hk : k ≠ entry.key) (h : (w.put entry).1.entries.get k = some e) :
    w.entries.get k = some e := by
  unfold put at h
  split at h
  · dsimp only at h
    rwa [EntryMap.get_insertEntry, if_neg hk, entries_touch] at h
  · dsimp only at h
    rw [EntryMap.get_insertEntry, if_neg hk] at h
    exact get_evictOldest h

theorem evicted_put {entry we : HistoryEntry J C}
    (h : (w.put entry).2 = some we) : w.entries.get we.key = some we := by
  unfold put at h
  split at h
  · cases h
  · exact evicted_evictOldest h

end WarmCache

-- ==== the invariant

/-- The levels against the map `M`: what they hold under a key that is
`Fresh` is not stale. -/
structure Coherent (hotCap warmCap : Nat)
    (M : EntryKey → Option (HistoryAnswer J C)) (Fresh : EntryKey → Prop)
    (t : TieredMemory J C) : Prop where
  cold : ∀ k, t.cold.lookupExact k = M k
  known : ∀ k, (t.hot.get k).isSome ∨ (t.warm.entries.get k).isSome → (M k).isSome
  hot : ∀ k, Fresh k → ∀ e, t.hot.get k = some e → M k = some e.answer
  warm : ∀ k, Fresh k → ∀ e, t.warm.entries.get k = some e →
    M k = some e.answer ∨ (t.hot.get k).isSome
  lru : ∀ k, (t.hotLru.lookup k).isSome ↔ (t.hot.get k).isSome
  hotLen : t.hot.len ≤ hotCap
  hotCapacity : t.hotCapacity = hotCap
  warmCache : t.warm.WellFormed warmCap

namespace Coherent

variable {hotCap warmCap : Nat} {M : EntryKey → Option (HistoryAnswer J C)}
  {Fresh : EntryKey → Prop} {t : TieredMemory J C}

theorem openWith (hotCap warmCap : Nat) (cold : EntryMap J C) (Fresh : EntryKey → Prop) :
    Coherent hotCap warmCap cold.lookupExact Fresh (.openWith hotCap warmCap cold) :=
  { cold := fun _ => rfl
    known := fun k h => by
      simp [TieredMemory.openWith, WarmCache.new, EntryMap.empty, EntryMap.get] at h
    hot := fun k _ e h => by cases h
    warm := fun k _ e h => by cases h
    lru := fun k => by
      simp [TieredMemory.openWith, EntryMap.empty, EntryMap.get]
    hotLen := Nat.zero_le _
    hotCapacity := rfl
    warmCache := WarmCache.wellFormed_new warmCap }

/-- A full hot map has an oldest entry. -/
theorem evictKey_eq_some (h : Coherent hotCap warmCap M Fresh t) (hfull : 0 < t.hot.len) :
    ∃ k evicted, t.evictKey = some k ∧ t.hot.get k = some evicted := by
  obtain ⟨k, hk⟩ := EntryMap.exists_get_of_len_pos hfull
  rw [← h.lru, AList.lookup_isSome] at hk
  unfold TieredMemory.evictKey
  cases hmin : t.hotLru.entries.argmin fun e => e.2.toNat with
  | none =>
    rw [List.argmin_eq_none] at hmin
    have hkeys : k ∈ t.hotLru.entries.keys := hk
    rw [hmin] at hkeys
    cases hkeys
  | some entry =>
    have hmem := List.argmin_mem (Option.mem_def.2 hmin)
    have hheld : (t.hotLru.lookup entry.1).isSome := by
      rw [AList.lookup_isSome]
      exact List.mem_map_of_mem hmem
    rw [h.lru] at hheld
    obtain ⟨evicted, hevicted⟩ := Option.isSome_iff_exists.1 hheld
    exact ⟨entry.1, evicted, rfl, hevicted⟩

/-- What the warm cache lost is known to the cold store already. -/
theorem demoteToCold (h : Coherent hotCap warmCap M Fresh t)
    (digest : List (List UInt8) → EntryKey) (now : UInt64)
    {we : HistoryEntry J C} (hwe : (M we.key).isSome) :
    t.demoteToCold digest now we = t := by
  unfold TieredMemory.demoteToCold
  rw [h.cold]
  obtain ⟨a, ha⟩ := Option.isSome_iff_exists.1 hwe
  rw [ha]

/-- The demotion leaves room in the hot map, and all promises stand. -/
theorem demoteFromHot (h : Coherent hotCap warmCap M Fresh t)
    (hhot : 1 ≤ hotCap) (hwarm : 1 ≤ warmCap)
    (digest : List (List UInt8) → EntryKey) (now : UInt64) :
    Coherent hotCap warmCap M Fresh (t.demoteFromHot digest now).1
      ∧ (t.demoteFromHot digest now).1.hot.len < hotCap := by
  have hcap := h.hotCapacity
  unfold TieredMemory.demoteFromHot
  by_cases hfull : t.hot.len ≥ t.hotCapacity
  · rw [if_pos hfull]
    obtain ⟨k, evicted, hk, hevicted⟩ := h.evictKey_eq_some (by omega)
    have hkey : evicted.key = k := t.hot.keyed k evicted hevicted
    rw [hk]
    dsimp only
    rw [hevicted]
    dsimp only
    have hless : (t.hot.remove k).len + 1 = t.hot.len :=
      EntryMap.len_remove (by rw [hevicted]; rfl)
    have hbound := h.hotLen
    have hknown : (M k).isSome := h.known k (.inl (by rw [hevicted]; rfl))
    have hdemoted : Coherent hotCap warmCap M Fresh
        { t with
          hotLru := t.hotLru.erase k
          hot := t.hot.remove k
          warm := (t.warm.put evicted).1 } := by
      refine { cold := h.cold, known := fun k' hheld => ?_,
               hot := fun k' hfresh e he => ?_,
               warm := fun k' hfresh e he => ?_, lru := fun k' => ?_,
               hotLen := by dsimp only; omega, hotCapacity := hcap,
               warmCache := h.warmCache.put hwarm _ }
      · dsimp only at hheld
        rw [EntryMap.get_remove] at hheld
        by_cases hk' : k' = k
        · rw [hk']
          exact hknown
        · rw [if_neg hk'] at hheld
          refine h.known k' (hheld.imp_right fun hsome => ?_)
          obtain ⟨e, he⟩ := Option.isSome_iff_exists.1 hsome
          rw [WarmCache.get_of_get_put (hkey ▸ hk') he]
          rfl
      · dsimp only at he
        rw [EntryMap.get_remove] at he
        split at he
        · cases he
        · exact h.hot k' hfresh e he
      · dsimp only at he ⊢
        rw [EntryMap.get_remove]
        by_cases hk' : k' = k
        · -- the demoted entry took the place of whatever was under its key
          subst hk'
          have hself := WarmCache.get_put_self t.warm evicted
          rw [hkey, he] at hself
          rw [Option.some.inj hself]
          exact .inl (h.hot k' hfresh evicted hevicted)
        · rw [if_neg hk']
          exact h.warm k' hfresh e (WarmCache.get_of_get_put (hkey ▸ hk') he)
      · dsimp only
        rw [EntryMap.get_remove]
        by_cases hk' : k' = k
        · rw [if_pos hk', hk', AList.lookup_erase]
          exact ⟨nofun, nofun⟩
        · rw [if_neg hk', AList.lookup_erase_ne hk']
          exact h.lru k'
    cases hput : (t.warm.put evicted).2 with
    | none => exact ⟨hdemoted, by dsimp only; omega⟩
    | some we =>
      have hwe := WarmCache.evicted_put hput
      dsimp only
      rw [hdemoted.demoteToCold]
      · exact ⟨hdemoted, by dsimp only; omega⟩
      · exact h.known we.key (.inr (by rw [hwe]; rfl))
  · rw [if_neg hfull]
    exact ⟨h, by dsimp only; omega⟩

/-- An entry that holds what the map does goes to the hot map; that ends
the exception made for its key. -/
theorem insertHotWithDemotion (h : Coherent hotCap warmCap M Fresh t)
    (hhot : 1 ≤ hotCap) (hwarm : 1 ≤ warmCap)
    (digest : List (List UInt8) → EntryKey) (now : UInt64)
    {entry : HistoryEntry J C} (hfresh : ∀ k, k ≠ entry.key → Fresh k)
    (hentry : M entry.key = some entry.answer) :
    Coherent hotCap warmCap M (fun _ => True) (t.insertHotWithDemotion digest now entry).1 := by
  obtain ⟨hdem, hroom⟩ := h.demoteFromHot hhot hwarm digest now
  unfold TieredMemory.insertHotWithDemotion
  refine { cold := hdem.cold, known := fun k hheld => ?_,
           hot := fun k _ e he => ?_, warm := fun k _ e he => ?_,
           lru := fun k => ?_, hotLen := ?_,
           hotCapacity := hdem.hotCapacity, warmCache := hdem.warmCache }
  · dsimp only at hheld
    rw [EntryMap.get_insertEntry] at hheld
    by_cases hk : k = entry.key
    · rw [hk, hentry]
      rfl
    · rw [if_neg hk] at hheld
      exact hdem.known k hheld
  · dsimp only at he
    rw [EntryMap.get_insertEntry] at he
    split at he
    · next hk => rw [hk, ← Option.some.inj he, hentry]
    · next hk => exact hdem.hot k (hfresh k hk) e he
  · dsimp only at he ⊢
    rw [EntryMap.get_insertEntry]
    by_cases hk : k = entry.key
    · -- a stale copy may stay below the new entry
      rw [if_pos hk]
      exact .inr rfl
    · rw [if_neg hk]
      exact hdem.warm k (hfresh k hk) e he
  · dsimp only
    rw [EntryMap.get_insertEntry, Table.lookup_insert_eq]
    by_cases hk : k = entry.key
    · rw [if_pos hk, if_pos hk]
      exact Iff.rfl
    · rw [if_neg hk, if_neg hk]
      exact hdem.lru k
  · have hins := EntryMap.len_insertEntry (t.demoteFromHot digest now).1.hot entry
    dsimp only
    omega

theorem touchHot (h : Coherent hotCap warmCap M Fresh t) (key : EntryKey) :
    Coherent hotCap warmCap M Fresh (t.touchHot key) := by
  unfold TieredMemory.touchHot
  split
  · next hheld =>
      refine { h with lru := fun k => ?_ }
      dsimp only
      rw [Table.lookup_insert_eq]
      by_cases hk : k = key
      · rw [if_pos hk, hk, ← h.lru key]
        simpa using hheld
      · rw [if_neg hk]
        exact h.lru k
  · exact h

/-- Promotions copy the map's own answers. -/
theorem promote (h : Coherent hotCap warmCap M (fun _ => True) t)
    (hhot : 1 ≤ hotCap) (hwarm : 1 ≤ warmCap)
    (digest : List (List UInt8) → EntryKey) (now : UInt64)
    (source : MemoryTier) {entry : Option (HistoryEntry J C)}
    (hentry : ∀ e, entry = some e → M e.key = some e.answer) :
    Coherent hotCap warmCap M (fun _ => True) (t.promote digest now source entry) := by
  cases entry with
  | none => exact h
  | some e =>
    have hins := h.insertHotWithDemotion hhot hwarm digest now
      (fun _ _ => trivial) (hentry e rfl)
    exact { hins with }

/-- A lookup answers what the map holds, at whatever level. -/
theorem lookupExact (h : Coherent hotCap warmCap M (fun _ => True) t)
    (hhot : 1 ≤ hotCap) (hwarm : 1 ≤ warmCap)
    (digest : List (List UInt8) → EntryKey) (now : UInt64) (key : EntryKey) :
    Coherent hotCap warmCap M (fun _ => True) (t.lookupExact digest now key).1
      ∧ (t.lookupExact digest now key).2 = M key := by
  have hwarm' : ∀ tier, Coherent hotCap warmCap M (fun _ => True)
      { t with warm := (t.warm.lookupExact key).1, lastHitTier := tier } :=
    fun tier =>
      { h with
        known := fun k hheld => h.known k (by rwa [WarmCache.entries_lookupExact] at hheld)
        warm := fun k hk e he => h.warm k hk e (by rwa [WarmCache.entries_lookupExact] at he)
        warmCache := h.warmCache.lookupExact key }
  unfold TieredMemory.lookupExact
  cases hhit : t.hot.lookupExact key with
  | some answer =>
    obtain ⟨e, hget, hanswer⟩ := EntryMap.lookupExact_eq_some.1 hhit
    have hM := h.hot key trivial e hget
    rw [hanswer] at hM
    have htier : Coherent hotCap warmCap M (fun _ => True)
        { t with lastHitTier := some .hot } := { h with }
    exact ⟨htier.touchHot key, hM.symm⟩
  | none =>
    -- the hot map does not hold the key, so no warm copy is stale
    have hcold : ¬ (t.hot.get key).isSome := by
      intro hsome
      obtain ⟨e, he⟩ := Option.isSome_iff_exists.1 hsome
      rw [EntryMap.lookupExact, he] at hhit
      cases hhit
    have hsnd := WarmCache.lookupExact_snd t.warm key
    dsimp only
    split
    · next warm answer hwarmHit =>
        rw [hwarmHit] at hsnd
        obtain ⟨e, hget, hanswer⟩ :=
          EntryMap.lookupExact_eq_some.1 hsnd.symm
        have hM := (h.warm key trivial e hget).resolve_right hcold
        have hcoh := hwarm' (some .warm)
        have hentries := WarmCache.entries_lookupExact t.warm key
        rw [hwarmHit] at hcoh hentries
        refine ⟨hcoh.promote hhot hwarm digest now .warm ?_, ?_⟩
        · intro e' he'
          rw [WarmCache.getEntry, hentries] at he'
          obtain rfl := Option.some.inj (hget.symm.trans he')
          rw [t.warm.entries.keyed key e hget]
          exact hM
        · dsimp only
          rw [hM, hanswer]
    · next warm hwarmMiss =>
        have hcoh := hwarm' (some .cold)
        have hmiss := hwarm' none
        rw [hwarmMiss] at hcoh hmiss
        cases hfound : t.cold.lookupExact key with
        | some answer =>
          refine ⟨hcoh.promote hhot hwarm digest now .cold ?_, ?_⟩
          · intro e he
            rw [EntryMap.find?_values] at he
            rw [t.cold.keyed key e he, ← h.cold]
            exact EntryMap.lookupExact_eq_some.2 ⟨e, he, rfl⟩
          · rw [← h.cold, hfound]
        | none => exact ⟨hmiss, by rw [← h.cold, hfound]⟩

theorem record (h : Coherent hotCap warmCap M (fun _ => True) t)
    (hhot : 1 ≤ hotCap) (hwarm : 1 ≤ warmCap)
    (digest : List (List UInt8) → EntryKey) (now : UInt64) (q : Query J C) (a : Answer J C) :
    Coherent hotCap warmCap
      (fun k => if keyFor digest q = k then some (answerToHistory a)
        else M k)
      (fun _ => True) (t.record digest now q a).1 := by
  have hbegun : Coherent hotCap warmCap
      (fun k => if keyFor digest q = k then some (answerToHistory a)
        else M k)
      (fun k => k ≠ keyFor digest q)
      { t with cold := t.cold.insertEntry (entryFor digest q a now) } := by
    refine { h with cold := fun k => ?_, known := fun k hheld => ?_,
                    hot := fun k hk e he => ?_,
                    warm := fun k hk e he => ?_ }
    · dsimp only
      rw [EntryMap.lookupExact_insertEntry, h.cold]
      by_cases hk : keyFor digest q = k
      · exact (if_pos hk.symm).trans (if_pos hk).symm
      · exact (if_neg (Ne.symm hk)).trans (if_neg hk).symm
    · split
      · rfl
      · exact h.known k hheld
    · rw [if_neg (Ne.symm hk)]
      exact h.hot k trivial e he
    · rw [if_neg (Ne.symm hk)]
      exact h.warm k trivial e he
  have hentry : (fun k =>
        if keyFor digest q = k then some (answerToHistory a) else M k)
          (entryFor digest q a now).key
      = some (entryFor digest q a now).answer := if_pos rfl
  have hins := hbegun.insertHotWithDemotion hhot hwarm digest now (fun k hk => hk) hentry
  exact { hins with }

end Coherent

-- ==== runs

variable (digest : List (List UInt8) → EntryKey)

theorem lastRecorded_append (key : EntryKey) (ops : List (Op J C)) (op : Op J C) :
    lastRecorded digest key (ops ++ [op])
      = (recorded digest key op).or (lastRecorded digest key ops) := by
  unfold lastRecorded
  rw [List.reverse_append, List.reverse_singleton, List.singleton_append, List.findSome?_cons]
  cases recorded digest key op with
  | none => rfl
  | some a => rfl

theorem coherent_run {hotCap warmCap : Nat} (hhot : 1 ≤ hotCap)
    (hwarm : 1 ≤ warmCap) (cold : EntryMap J C) (ops : List (Op J C)) :
    Coherent hotCap warmCap
      (fun k => (lastRecorded digest k ops).or (cold.lookupExact k))
      (fun _ => True)
      (run (step digest) (.openWith hotCap warmCap cold) ops) := by
  refine run_induction
    (I := fun ops t => Coherent hotCap warmCap
      (fun k => (lastRecorded digest k ops).or (cold.lookupExact k))
      (fun _ => True) t) ?_ ?_ ops
  · intro done op t h
    cases op with
    | record q a now =>
      have hrec := h.record hhot hwarm digest now q a
      have hmap : (fun k =>
            (lastRecorded digest k (done ++ [.record q a now])).or (cold.lookupExact k))
          = fun k => if keyFor digest q = k then some (answerToHistory a)
              else (lastRecorded digest k done).or
                (cold.lookupExact k) := by
        funext k
        rw [lastRecorded_append, recorded]
        split
        · rfl
        · rfl
      rw [hmap]
      exact hrec
    | lookupExact key now =>
      have hlook := (h.lookupExact hhot hwarm digest now key).1
      have hmap : (fun k =>
            (lastRecorded digest k (done ++ [.lookupExact key now])).or (cold.lookupExact k))
          = fun k => (lastRecorded digest k done).or (cold.lookupExact k) := by
        funext k
        rw [lastRecorded_append]
        rfl
      rw [hmap]
      exact hlook
  · exact Coherent.openWith hotCap warmCap cold _

/-- Whatever was recorded and looked up, in whatever order and with
whatever capacities, a lookup answers what was recorded last under the key,
or what the cold store held there when it was opened. -/
theorem tiered_memory_is_map {hotCap warmCap : Nat} (hhot : 1 ≤ hotCap)
    (hwarm : 1 ≤ warmCap) (cold : EntryMap J C) (ops : List (Op J C)) :
    let t := run (step digest) (.openWith hotCap warmCap cold) ops
    (∀ key now, (t.lookupExact digest now key).2
        = (lastRecorded digest key ops).or (cold.lookupExact key))
      ∧ t.hotLen ≤ hotCap ∧ t.warmLen ≤ warmCap
      ∧ t.warm.accessOrder.Nodup
      ∧ ∀ key, key ∈ t.warm.accessOrder ↔ (t.warm.getEntry key).isSome := by
  intro t
  have h := coherent_run digest hhot hwarm cold ops
  exact ⟨fun key now => (h.lookupExact hhot hwarm digest now key).2,
    h.hotLen, h.warmCache.bounded, h.warmCache.nodup, h.warmCache.lists⟩

def question (s : String) : Query Nat Nat :=
  { input := .text s.toList
    budget := { hardLimit := 1, softTarget := 1 }
    quality := { minConfidence := 0, acceptPartial := true }
    context :=
      { sessionId := .replicate 16 0, historyFingerprint := .replicate 32 0 }
    deadline := none }

def reply (s : String) : Answer Nat Nat :=
  { output := .text s.toList, tierUsed := .l3 0, joulesSpent := 1,
    confidence := 1, trace := [], verification := .resolved }

def firstBytes (chunks : List (List UInt8)) : EntryKey :=
  .ofFn fun i => chunks.flatten.getD i 0

/-- Two levels of one entry each: the first answer was pushed out of both
by the third, and comes back from the cold store, replaced since. -/
theorem pushed_out_answer :
    ((run (step firstBytes) (.openWith 1 1 .empty)
          [.record (question "a") (reply "x") 0,
            .record (question "b") (reply "y") 1,
            .record (question "a") (reply "z") 2,
            .record (question "c") (reply "u") 3,
            .record (question "d") (reply "v") 4,
            .lookupExact (keyFor firstBytes (question "b")) 5]).lookupExact
          firstBytes 6 (keyFor firstBytes (question "a"))).2
      = some (answerToHistory (reply "z")) :=
  ((tiered_memory_is_map firstBytes (by decide) (by decide) .empty _).1
    _ _).trans (by decide)

end OpenStandards.JouleclawHistory

import OSWorkspace.Ext4BlockCacheExhaustion

/-!
# The order of evictions

Every use of an entry appends a record to the queue, so the first live record
is the one of the least recently used entry.  A compaction rebuilds the queue in
the order of keys, and an eviction drops the live records of held entries.  This
file says when neither disturbs the order, and that the least recently used
entry is evicted then.
-/

namespace OSWorkspace

namespace Ext4

namespace BlockCaching

/-- The time of the last use of a key in a log, the latest use first. -/
def lastUse (key : CacheKey) : List CacheKey → Nat
  | [] => 0
  | used :: earlier => if used = key then earlier.length + 1 else lastUse key earlier

theorem lastUse_le (key : CacheKey) (log : List CacheKey) : lastUse key log ≤ log.length := by
  induction log with
  | nil => rfl
  | cons used earlier ih =>
      rw [lastUse, List.length_cons]
      split <;> omega

/-- The keys that a step uses, in this order. -/
def State.uses (config : Config) (state : State) : Op → List CacheKey
  | .get deviceId blockId =>
      match state.manager.entries[(⟨blockId, deviceId⟩ : CacheKey)]? with
      | some _ => [⟨blockId, deviceId⟩]
      | none => (List.range (max config.readAheadBlocks 1)).map fun index =>
          ⟨blockId + index, deviceId⟩
  | .getZeroed deviceId blockId => [⟨blockId, deviceId⟩]
  | _ => []

/-- The states that the callers can reach from an empty cache, with the log of
the uses. -/
inductive History (config : Config) (allowed : State → Op → Prop)
    (device : Nat → Nat → Block) : State → List CacheKey → Prop
  | start : History config allowed device (.initial device) []
  | step {state next : State} {log : List CacheKey} (op : Op) :
      History config allowed device state log → allowed state op →
        state.step config op = some next →
          History config allowed device next ((state.uses config op).reverse ++ log)

/-- The entry with the smallest stamp, which is the one whose last use is the
oldest. -/
def State.IsOldest (state : State) (log : List CacheKey) (key : CacheKey) : Prop :=
  ∃ entry, state.manager.entries[key]? = some entry ∧
    ∀ other otherEntry, state.manager.entries[other]? = some otherEntry → other ≠ key →
      entry.stamp < otherEntry.stamp ∧ lastUse key log < lastUse other log

/-- If no entry is held, an eviction removes the oldest one and no other. -/
def State.EvictsOldest (state : State) (log : List CacheKey) : Prop :=
  (∀ key object, state.objectOf key = some object → object ∉ state.handles) →
    state.manager.entries.size ≠ 0 →
      ∃ key next, state.evictOne = some next ∧ state.IsOldest log key ∧
        ∀ other, next.manager.entries[other]? =
          if other = key then none else state.manager.entries[other]?

/-- The stamps increase with the keys, apart from the key just used, which is
the last one. -/
def State.InKeyOrder (state : State) (used : CacheKey) : Prop :=
  (∀ first second firstEntry secondEntry,
      state.manager.entries[first]? = some firstEntry →
      state.manager.entries[second]? = some secondEntry →
      first ≠ used → second ≠ used → CacheKey.compare first second = .lt →
        firstEntry.stamp < secondEntry.stamp) ∧
    ∀ key entry, state.manager.entries[key]? = some entry → key ≠ used →
      CacheKey.compare key used = .lt

/-- The record of the use leaves the queue as it is, or it is compacted at a
moment when the order of keys is the order of uses. -/
def State.RecordKeepsOrder (config : Config) (state : State) (used : CacheKey) : Prop :=
  state.manager.queue.length + 1 ≤ config.blockCacheSize * 8 ∨ state.InKeyOrder used

/-- No caller holds the entry with the smallest stamp. -/
def State.OldestFree (state : State) : Prop :=
  ∀ (key : CacheKey) (entry : CacheEntry), state.manager.entries[key]? = some entry →
    (∀ (other : CacheKey) (otherEntry : CacheEntry),
      state.manager.entries[other]? = some otherEntry → entry.stamp ≤ otherEntry.stamp) →
        entry.cache ∉ state.handles

/-- A block of a full cache is entered when the oldest entry can go. -/
def State.UseKeepsOrder (config : Config) (state : State) (key : CacheKey) : Prop :=
  match state.manager.entries[key]? with
  | some _ => state.RecordKeepsOrder config key
  | none =>
      if config.blockCacheSize ≤ state.manager.entries.size then state.OldestFree
      else state.RecordKeepsOrder config key

/-- Every round of a loop of loads keeps the order. -/
def State.LoadKeepsOrder (config : Config) (deviceId : Nat) :
    State → (blockId : Nat) → (data : List Block) → (first : Bool) → Prop
  | _, _, [], _ => True
  | state, blockId, block :: data, first =>
      state.UseKeepsOrder config ⟨blockId, deviceId⟩ ∧
        ∀ next, state.loadOne config deviceId blockId block first = some next →
          LoadKeepsOrder config deviceId next (blockId + 1) data false

def State.KeepsOrder (config : Config) (state : State) : Op → Prop
  | .get deviceId blockId =>
      match state.manager.entries[(⟨blockId, deviceId⟩ : CacheKey)]? with
      | some _ => state.UseKeepsOrder config ⟨blockId, deviceId⟩
      | none => state.LoadKeepsOrder config deviceId blockId
          ((List.range (max config.readAheadBlocks 1)).map fun index =>
            state.device deviceId (blockId + index)) true
  | .getZeroed deviceId blockId => state.UseKeepsOrder config ⟨blockId, deviceId⟩
  | _ => True

/-- The queue is in the order of uses and has the record of the last use of
every entry, apart from a fresh one. -/
structure InOrder (config : Config) (log : List CacheKey) (fresh : Option CacheKey)
    (state : State) : Prop where
  bounded : state.manager.entries.size ≤ config.blockCacheSize
  short : state.manager.queue.length ≤ config.blockCacheSize * 8
  sorted : state.manager.queue.Pairwise fun earlier later => earlier.2 < later.2
  past : ∀ item ∈ state.manager.queue, item.2 ≤ log.length
  counted : state.manager.stamp = log.length
  recorded : ∀ key entry, state.manager.entries[key]? = some entry → some key ≠ fresh →
    state.Recorded key entry
  stamped : ∀ key entry, state.manager.entries[key]? = some entry → some key ≠ fresh →
    entry.stamp = lastUse key log

theorem InOrder.initial (config : Config) (device : Nat → Nat → Block) :
    InOrder config [] none (.initial device) where
  bounded := Nat.zero_le _
  short := Nat.zero_le _
  sorted := List.Pairwise.nil
  past item isMem := absurd isMem List.not_mem_nil
  counted := rfl
  recorded key entry found := by
    have missing : (State.initial device).manager.entries[key]? = none :=
      Std.TreeMap.getElem?_emptyc
    rw [missing] at found
    cases found
  stamped key entry found := by
    have missing : (State.initial device).manager.entries[key]? = none :=
      Std.TreeMap.getElem?_emptyc
    rw [missing] at found
    cases found

section Keeping

variable {config : Config} {log : List CacheKey} {state : State}

/-- The invariant speaks of the manager only. -/
theorem InOrder.of_manager {fresh : Option CacheKey} {next : State}
    (inOrder : InOrder config log fresh state) (manager : next.manager = state.manager) :
    InOrder config log fresh next := by
  obtain ⟨bounded, short, sorted, past, counted, recorded, stamped⟩ := inOrder
  refine ⟨?_, ?_, ?_, ?_, ?_, ?_, ?_⟩ <;> simp only [State.Recorded, manager] <;> assumption

theorem InOrder.but (inOrder : InOrder config log none state) (used : CacheKey) :
    InOrder config log (some used) state :=
  { inOrder with
    recorded := fun key entry found _ => inOrder.recorded key entry found (by simp)
    stamped := fun key entry found _ => inOrder.stamped key entry found (by simp) }

theorem markUsed_queue_of_gt (used : CacheKey)
    (long : config.blockCacheSize * 8 < state.manager.queue.length + 1) :
    (state.markUsed config used).manager.queue =
      (state.markUsed config used).manager.entries.toList.map fun entry =>
        (entry.1, entry.2.stamp) := by
  simp only [State.markUsed, BlockCacheManager.markUsed, BlockCacheManager.compactQueue]
  split_ifs with fits
  · exfalso
    simp only [BlockCacheManager.nextStamp, List.length_append, List.length_singleton] at fits
    omega
  · rfl

/-- The stamp of an entry after a use. -/
theorem InOrder.stamped_markUsed {used : CacheKey}
    (inOrder : InOrder config log (some used) state) (few : log.length + 1 < 2 ^ 64)
    {key : CacheKey} {entry : CacheEntry}
    (found : (state.markUsed config used).manager.entries[key]? = some entry) :
    entry.stamp = lastUse key (used :: log) ∧
      (key ≠ used → state.manager.entries[key]? = some entry ∧ entry.stamp ≤ log.length) := by
  rw [markUsed_lookup] at found
  obtain ⟨old, oldFound, oldEq⟩ := Option.map_eq_some_iff.mp found
  by_cases same : key = used
  · rw [if_pos same, inOrder.counted, Nat.mod_eq_of_lt few] at oldEq
    rw [← oldEq, lastUse, if_pos same.symm]
    exact ⟨rfl, fun different => absurd same different⟩
  · rw [if_neg same] at oldEq
    subst oldEq
    have stamp := inOrder.stamped key old oldFound (by simpa using same)
    rw [lastUse, if_neg (Ne.symm same), stamp]
    exact ⟨rfl, fun _ => ⟨oldFound, lastUse_le key log⟩⟩

/-- A queue rebuilt in the order of keys is in the order of uses if the stamps
are. -/
theorem InOrder.sorted_compacted {used : CacheKey}
    (inOrder : InOrder config log (some used) state) (few : log.length + 1 < 2 ^ 64)
    (keyOrder : state.InKeyOrder used) :
    ((state.markUsed config used).manager.entries.toList.map fun entry =>
      (entry.1, entry.2.stamp)).Pairwise fun earlier later => earlier.2 < later.2 := by
  rw [List.pairwise_map]
  refine List.Pairwise.imp_of_mem ?_ Std.TreeMap.ordered_keys_toList
  intro first second firstMem secondMem less
  have firstFound := Std.TreeMap.mem_toList_iff_getElem?_eq_some.mp firstMem
  have secondFound := Std.TreeMap.mem_toList_iff_getElem?_eq_some.mp secondMem
  obtain ⟨firstStamp, firstBefore⟩ := inOrder.stamped_markUsed few firstFound
  obtain ⟨secondStamp, secondBefore⟩ := inOrder.stamped_markUsed few secondFound
  by_cases firstUsed : first.1 = used
  · exfalso
    have secondOther : second.1 ≠ used := by
      intro secondUsed
      rw [firstUsed, secondUsed, @Std.ReflCmp.compare_self _ CacheKey.compare] at less
      cases less
    have greater := keyOrder.2 _ _ (secondBefore secondOther).1 secondOther
    rw [firstUsed] at less
    exact Std.OrientedCmp.not_lt_of_lt less greater
  · obtain ⟨firstOld, firstPast⟩ := firstBefore firstUsed
    by_cases secondUsed : second.1 = used
    · rw [secondStamp, secondUsed, lastUse, if_pos rfl]
      omega
    · exact keyOrder.1 _ _ _ _ firstOld (secondBefore secondUsed).1 firstUsed secondUsed less

/-- A use keeps the queue in order. -/
theorem InOrder.markUsed {used : CacheKey} (inOrder : InOrder config log (some used) state)
    (few : log.length + 1 < 2 ^ 64) (keeps : state.RecordKeepsOrder config used) :
    InOrder config (used :: log) none (state.markUsed config used) := by
  have stamp : (state.manager.stamp + 1) % 2 ^ 64 = log.length + 1 := by
    rw [inOrder.counted, Nat.mod_eq_of_lt few]
  have size := inOrder.bounded
  rw [← size_markUsed config state used] at size
  have counted : (state.markUsed config used).manager.stamp = (used :: log).length := by
    rw [markUsed_stamp, stamp, List.length_cons]
  have stamped (key : CacheKey) (entry : CacheEntry)
      (found : (state.markUsed config used).manager.entries[key]? = some entry) :
      entry.stamp = lastUse key (used :: log) := (inOrder.stamped_markUsed few found).1
  rcases Nat.lt_or_ge (config.blockCacheSize * 8) (state.manager.queue.length + 1) with
    long | fits
  · have queue := markUsed_queue_of_gt used long
    have keyOrder : state.InKeyOrder used := keeps.resolve_left (by omega)
    refine ⟨size, ?_, ?_, ?_, counted, ?_, fun key entry found _ => stamped key entry found⟩
    · rw [queue, List.length_map, Std.TreeMap.length_toList]
      omega
    · rw [queue]
      exact inOrder.sorted_compacted few keyOrder
    · intro item isMem
      rw [queue] at isMem
      obtain ⟨entry, entryMem, rfl⟩ := List.mem_map.mp isMem
      rw [stamped _ _ (Std.TreeMap.mem_toList_iff_getElem?_eq_some.mp entryMem)]
      exact lastUse_le _ _
    · intro key entry found _
      rw [State.Recorded, queue]
      exact List.mem_map.mpr
        ⟨(key, entry), Std.TreeMap.mem_toList_iff_getElem?_eq_some.mpr found, rfl⟩
  · have queue := markUsed_queue_of_le used fits
    rw [stamp] at queue
    refine ⟨size, ?_, ?_, ?_, counted, ?_, fun key entry found _ => stamped key entry found⟩
    · rw [queue, List.length_append, List.length_singleton]
      exact fits
    · rw [queue, List.pairwise_append]
      refine ⟨inOrder.sorted, List.pairwise_singleton _ _, ?_⟩
      intro earlier earlierMem later laterMem
      rw [List.mem_singleton.mp laterMem]
      exact Nat.lt_succ_of_le (inOrder.past earlier earlierMem)
    · intro item isMem
      rw [queue] at isMem
      rw [List.length_cons]
      rcases List.mem_append.mp isMem with isOld | isNew
      · exact Nat.le_succ_of_le (inOrder.past item isOld)
      · rw [List.mem_singleton.mp isNew]
    · intro key entry found _
      rw [State.Recorded, queue]
      obtain ⟨stampEq, before⟩ := inOrder.stamped_markUsed few found
      by_cases same : key = used
      · rw [stampEq, same, lastUse, if_pos rfl]
        exact List.mem_append_right _ (List.mem_singleton_self _)
      · exact List.mem_append_left _
          (inOrder.recorded key entry (before same).1 (by simpa using same))

theorem stamp_removeEntry (state : State) (key : CacheKey) (queue : List (CacheKey × Nat)) :
    (state.removeEntry key queue).manager.stamp = state.manager.stamp := by
  rw [State.removeEntry]
  cases state.manager.entries[key]? with
  | none => rfl
  | some entry => simp only [State.dropCache, sync_manager]

/-- Some entry has the smallest stamp. -/
theorem exists_oldest {key : CacheKey} {entry : CacheEntry}
    (found : state.manager.entries[key]? = some entry) :
    ∃ (old : CacheKey) (oldEntry : CacheEntry), state.manager.entries[old]? = some oldEntry ∧
      ∀ (other : CacheKey) (otherEntry : CacheEntry),
        state.manager.entries[other]? = some otherEntry → oldEntry.stamp ≤ otherEntry.stamp := by
  classical
  have stamps : ∃ stamp, ∃ (key : CacheKey) (entry : CacheEntry),
      state.manager.entries[key]? = some entry ∧ entry.stamp = stamp := ⟨_, key, entry, found, rfl⟩
  obtain ⟨old, oldEntry, oldFound, oldStamp⟩ := Nat.find_spec stamps
  refine ⟨old, oldEntry, oldFound, ?_⟩
  intro other otherEntry otherFound
  rw [oldStamp]
  exact Nat.find_min' stamps ⟨other, otherEntry, otherFound, rfl⟩

/-- If nobody holds the oldest entry, the scan passes no live record. -/
theorem InOrder.not_mem_passed (inOrder : InOrder config log none state) (free : state.OldestFree)
    {passed rest : List (CacheKey × Nat)} {item : CacheKey × Nat}
    (queue : state.manager.queue = passed ++ item :: rest)
    (skipped : ∀ other ∈ passed, state.evictable other = false) {key : CacheKey}
    {entry : CacheEntry} (found : state.manager.entries[key]? = some entry) :
    (key, entry.stamp) ∉ passed := by
  intro isPassed
  obtain ⟨old, oldEntry, oldFound, oldest⟩ := exists_oldest found
  have unheld := free old oldEntry oldFound oldest
  have recorded := inOrder.recorded old oldEntry oldFound (by simp)
  have sorted := inOrder.sorted
  rw [queue, List.pairwise_append] at sorted
  rw [State.Recorded, queue, List.mem_append] at recorded
  rcases recorded with oldPassed | later
  · have notEvictable := skipped _ oldPassed
    rw [evictable_iff.mpr ⟨oldEntry, oldFound, rfl, unheld⟩] at notEvictable
    cases notEvictable
  · have younger := sorted.2.2 _ isPassed _ later
    exact absurd younger (Nat.not_lt.mpr (oldest key entry found))

theorem InOrder.removeEntry (inOrder : InOrder config log none state) (free : state.OldestFree)
    {key : CacheKey} {queue : List (CacheKey × Nat)} (chosen : state.victim = some (key, queue)) :
    InOrder config log none (state.removeEntry key queue) := by
  obtain ⟨object, found, _⟩ := evictScan_spec chosen
  obtain ⟨passed, stamp, queueEq, skipped, _⟩ := evictScan_some chosen
  have sublist : queue.Sublist state.manager.queue := by
    rw [queueEq]
    exact (List.sublist_cons_self _ _).trans (List.sublist_append_right _ _)
  have remaining {other : CacheKey} {entry : CacheEntry}
      (otherFound : (state.removeEntry key queue).manager.entries[other]? = some entry) :
      other ≠ key ∧ state.manager.entries[other]? = some entry := by
    rw [entries_removeEntry] at otherFound
    split at otherFound
    · cases otherFound
    · next different => exact ⟨different, otherFound⟩
  refine ⟨?_, ?_, ?_, ?_, ?_, ?_, ?_⟩
  · rw [size_removeEntry queue found]
    have bounded := inOrder.bounded
    omega
  · rw [queue_removeEntry]
    exact sublist.length_le.trans inOrder.short
  · rw [queue_removeEntry]
    exact inOrder.sorted.sublist sublist
  · rw [queue_removeEntry]
    exact fun item isMem => inOrder.past item (sublist.subset isMem)
  · rw [stamp_removeEntry, inOrder.counted]
  · intro other entry otherFound _
    obtain ⟨different, before⟩ := remaining otherFound
    have recorded := inOrder.recorded other entry before (by simp)
    rw [State.Recorded, queueEq, List.mem_append, List.mem_cons] at recorded
    rw [State.Recorded, queue_removeEntry]
    rcases recorded with isPassed | isVictim | isLeft
    · exact absurd isPassed (inOrder.not_mem_passed free queueEq skipped before)
    · exact absurd (congrArg Prod.fst isVictim) different
    · exact isLeft
  · intro other entry otherFound _
    exact inOrder.stamped other entry (remaining otherFound).2 (by simp)

/-- In a cache in which nothing is held, the scan stops at the oldest entry. -/
theorem InOrder.evictsOldest (inOrder : InOrder config log none state) :
    state.EvictsOldest log := by
  intro unheld nonempty
  have free {key : CacheKey} {entry : CacheEntry}
      (found : state.manager.entries[key]? = some entry) : entry.cache ∉ state.handles :=
    unheld key entry.cache (objectOf_eq_some.mpr ⟨entry, found, rfl⟩)
  have live {key : CacheKey} {entry : CacheEntry}
      (found : state.manager.entries[key]? = some entry) :
      state.evictable (key, entry.stamp) = true :=
    evictable_iff.mpr ⟨entry, found, rfl, free found⟩
  cases chosen : state.victim with
  | none =>
      exfalso
      rw [← Std.TreeMap.length_toList] at nonempty
      obtain ⟨⟨key, entry⟩, isMem⟩ := List.exists_mem_of_length_pos (Nat.pos_of_ne_zero nonempty)
      have found := Std.TreeMap.mem_toList_iff_getElem?_eq_some.mp isMem
      have notEvictable := evictScan_none (by omega) chosen _
        (inOrder.recorded key entry found (by simp))
      rw [live found] at notEvictable
      cases notEvictable
  | some victim =>
      obtain ⟨key, queue⟩ := victim
      obtain ⟨passed, stamp, queueEq, skipped, evictable⟩ := evictScan_some chosen
      obtain ⟨entry, found, rfl, _⟩ := evictable_iff.mp evictable
      have sorted := inOrder.sorted
      rw [queueEq, List.pairwise_append, List.pairwise_cons] at sorted
      refine ⟨key, state.removeEntry key queue, by rw [State.evictOne, chosen]; rfl,
        ⟨entry, found, ?_⟩, fun other => entries_removeEntry state key other queue⟩
      intro other otherEntry otherFound different
      have recorded := inOrder.recorded other otherEntry otherFound (by simp)
      rw [State.Recorded, queueEq, List.mem_append, List.mem_cons] at recorded
      have younger : entry.stamp < otherEntry.stamp := by
        rcases recorded with isPassed | isVictim | isLeft
        · have notEvictable := skipped _ isPassed
          rw [live otherFound] at notEvictable
          cases notEvictable
        · exact absurd (congrArg Prod.fst isVictim) different
        · exact sorted.2.1.1 _ isLeft
      refine ⟨younger, ?_⟩
      rw [← inOrder.stamped key entry found (by simp),
        ← inOrder.stamped other otherEntry otherFound (by simp)]
      exact younger

/-- Entering a block is a use of it. -/
theorem InOrder.insertObject (inOrder : InOrder config log none state)
    (small : state.manager.entries.size < config.blockCacheSize) {key : CacheKey}
    (missing : state.manager.entries[key]? = none) (blockCache : BlockCache)
    (few : log.length + 1 < 2 ^ 64) (keeps : state.RecordKeepsOrder config key) :
    InOrder config (key :: log) none (state.insertObject config key blockCache) := by
  have inserted (other : CacheKey) (entry : CacheEntry)
      (found : (state.manager.entries.insert key ⟨state.nextObject, 0⟩)[other]? = some entry)
      (different : some other ≠ some key) : state.manager.entries[other]? = some entry := by
    rwa [insert_lookup, if_neg (by simpa using different)] at found
  refine InOrder.markUsed ⟨?_, inOrder.short, inOrder.sorted, inOrder.past, inOrder.counted, ?_, ?_⟩
    few ?_
  · have absent : ¬ key ∈ state.manager.entries := by
      rw [← Std.TreeMap.isSome_getElem?_iff_mem, missing]
      simp
    simpa [Std.TreeMap.size_insert, absent] using small
  · intro other entry found different
    exact inOrder.recorded other entry (inserted other entry found different) (by simp)
  · intro other entry found different
    exact inOrder.stamped other entry (inserted other entry found different) (by simp)
  · refine keeps.imp_right fun keyOrder => ⟨?_, ?_⟩
    · intro first second firstEntry secondEntry firstFound secondFound firstOther secondOther
      exact keyOrder.1 first second firstEntry secondEntry
        (inserted first firstEntry firstFound (by simpa using firstOther))
        (inserted second secondEntry secondFound (by simpa using secondOther))
        firstOther secondOther
    · intro other entry found different
      exact keyOrder.2 other entry (inserted other entry found (by simpa using different)) different

/-- Making room keeps the order, and the next record of a use compacts only a
queue that was not evicted from. -/
theorem InOrder.ensureCapacity (inOrder : InOrder config log none state) {key : CacheKey}
    (missing : state.manager.entries[key]? = none) (keeps : state.UseKeepsOrder config key)
    {room : State} (made : state.ensureCapacity config = some room) :
    InOrder config log none room ∧ room.manager.entries.size < config.blockCacheSize ∧
      room.manager.entries[key]? = none ∧ room.RecordKeepsOrder config key := by
  rw [State.UseKeepsOrder, missing] at keeps
  have bounded := inOrder.bounded
  rcases ensureCapacity_cases bounded made with ⟨small, rfl⟩ |
    ⟨full, victim, object, queue, chosen, found, _, rfl⟩
  · simp only [if_neg (Nat.not_le.mpr small)] at keeps
    exact ⟨inOrder, small, missing, keeps⟩
  · simp only [if_pos full] at keeps
    obtain ⟨passed, stamp, queueEq, _, _⟩ := evictScan_some chosen
    have sizeAfter := size_removeEntry queue found
    have nonempty := size_pos found
    refine ⟨inOrder.removeEntry keeps chosen, by omega, ?_, Or.inl ?_⟩
    · rw [entries_removeEntry, missing, ite_self]
    · have short := inOrder.short
      rw [queueEq, List.length_append, List.length_cons] at short
      rw [queue_removeEntry]
      omega

theorem InOrder.hit (inOrder : InOrder config log none state) {key : CacheKey} {entry : CacheEntry}
    (found : state.manager.entries[key]? = some entry) (keeps : state.UseKeepsOrder config key)
    (few : log.length + 1 < 2 ^ 64) {taken : State} (manager : taken.manager = state.manager) :
    InOrder config (key :: log) none (taken.markUsed config key) := by
  rw [State.UseKeepsOrder, found] at keeps
  refine (((inOrder.of_manager manager).but key).markUsed few ?_)
  rw [State.RecordKeepsOrder, State.InKeyOrder, manager]
  exact keeps

theorem InOrder.miss (inOrder : InOrder config log none state) {key : CacheKey}
    (missing : state.manager.entries[key]? = none) (keeps : state.UseKeepsOrder config key)
    (few : log.length + 1 < 2 ^ 64) {room : State}
    (made : state.ensureCapacity config = some room) (blockCache : BlockCache) :
    InOrder config (key :: log) none (room.insertObject config key blockCache) := by
  obtain ⟨roomInOrder, small, absent, roomKeeps⟩ := inOrder.ensureCapacity missing keeps made
  exact roomInOrder.insertObject small absent blockCache few roomKeeps

theorem InOrder.loadOne (inOrder : InOrder config log none state) {deviceId blockId : Nat}
    {data : Block} {first : Bool} {next : State}
    (keeps : state.UseKeepsOrder config ⟨blockId, deviceId⟩) (few : log.length + 1 < 2 ^ 64)
    (loaded : state.loadOne config deviceId blockId data first = some next) :
    InOrder config (⟨blockId, deviceId⟩ :: log) none next := by
  rw [State.loadOne] at loaded
  cases found : state.manager.entries[(⟨blockId, deviceId⟩ : CacheKey)]? with
  | some entry =>
      simp only [found, Option.some.injEq] at loaded
      subst loaded
      exact inOrder.hit found keeps few (by split <;> rfl)
  | none =>
      simp only [found] at loaded
      obtain ⟨room, made, rfl⟩ := Option.map_eq_some_iff.mp loaded
      exact (inOrder.miss found keeps few made ⟨data, blockId, deviceId, false⟩).of_manager
        (by split <;> rfl)

/-- The blocks of a loop of loads are used one after the other. -/
theorem InOrder.loadLoop {deviceId : Nat} {data : List Block} {next : State}
    (inOrder : InOrder config log none state) {blockId : Nat} {first : Bool}
    (keeps : state.LoadKeepsOrder config deviceId blockId data first)
    (few : data.length + log.length < 2 ^ 64)
    (loaded : state.loadLoop config deviceId blockId data first = some next) :
    InOrder config (((List.range data.length).map fun index =>
      (⟨blockId + index, deviceId⟩ : CacheKey)).reverse ++ log) none next := by
  induction data generalizing state log blockId first with
  | nil =>
      cases loaded
      exact inOrder
  | cons block data ih =>
      rw [State.loadLoop] at loaded
      obtain ⟨middle, one, rest⟩ := Option.bind_eq_some_iff.mp loaded
      rw [List.length_cons] at few
      have middleInOrder := inOrder.loadOne keeps.1 (by omega) one
      have lastInOrder := ih middleInOrder (keeps.2 middle one)
        (by rw [List.length_cons]; omega) rest
      have keys : (List.range (block :: data).length).map (fun index =>
          (⟨blockId + index, deviceId⟩ : CacheKey)) =
          ⟨blockId, deviceId⟩ :: (List.range data.length).map fun index =>
            ⟨blockId + 1 + index, deviceId⟩ := by
        rw [List.length_cons, List.range_succ_eq_map, List.map_cons, List.map_map]
        simp only [Function.comp_def, Nat.add_zero, Nat.succ_eq_add_one, Nat.add_assoc,
          Nat.add_comm 1]
      rw [keys, List.reverse_cons, List.append_assoc, List.singleton_append]
      exact lastInOrder

theorem InOrder.step {op : Op} {next : State} (inOrder : InOrder config log none state)
    (keeps : state.KeepsOrder config op)
    (few : ((state.uses config op).reverse ++ log).length < 2 ^ 64)
    (stepped : state.step config op = some next) :
    InOrder config ((state.uses config op).reverse ++ log) none next := by
  rw [List.length_append, List.length_reverse] at few
  cases op with
  | get deviceId blockId =>
      rw [State.step, State.getBlockCache] at stepped
      rw [State.KeepsOrder] at keeps
      rw [State.uses] at few ⊢
      cases found : state.manager.entries[(⟨blockId, deviceId⟩ : CacheKey)]? with
      | some entry =>
          simp only [found, Option.some.injEq] at stepped keeps few ⊢
          subst stepped
          rw [List.length_singleton] at few
          exact inOrder.hit found keeps (by omega) rfl
      | none =>
          simp only [found, List.length_map, List.length_range] at stepped keeps few ⊢
          have loaded := inOrder.loadLoop keeps
            (by rw [List.length_map, List.length_range]; exact few) stepped
          rw [List.length_map, List.length_range] at loaded
          exact loaded
  | getZeroed deviceId blockId =>
      obtain ⟨middle, got, zeroed⟩ := Option.bind_eq_some_iff.mp stepped
      obtain ⟨object, _, changed⟩ := Option.bind_eq_some_iff.mp zeroed
      obtain ⟨blockCache, _, rfl⟩ := Option.map_eq_some_iff.mp changed
      rw [State.uses, List.length_singleton] at few
      rw [State.getBlockCacheZeroed] at got
      cases found : state.manager.entries[(⟨blockId, deviceId⟩ : CacheKey)]? with
      | some entry =>
          simp only [found, Option.some.injEq] at got
          subst got
          exact (inOrder.hit found keeps (by omega) rfl).of_manager rfl
      | none =>
          simp only [found] at got
          obtain ⟨room, made, rfl⟩ := Option.map_eq_some_iff.mp got
          exact (inOrder.miss found keeps (by omega) made _).of_manager rfl
  | write object offset data =>
      rw [State.step] at stepped
      split at stepped
      · rw [State.writeBytes] at stepped
        split at stepped
        · obtain ⟨blockCache, _, rfl⟩ := Option.map_eq_some_iff.mp stepped
          exact inOrder.of_manager rfl
        · cases stepped
      · cases stepped
  | drop object =>
      rw [State.step] at stepped
      split at stepped
      · cases stepped
        exact inOrder.of_manager (dropHandle_same state object).1
      · cases stepped
  | syncAll =>
      cases stepped
      exact inOrder.of_manager (syncFold_same state.manager.entries.toList state).1

end Keeping

theorem History.inOrder {config : Config} {device : Nat → Nat → Block} {state : State}
    {log : List CacheKey}
    (history : History config (State.KeepsOrder config) device state log)
    (few : log.length < 2 ^ 64) : InOrder config log none state := by
  induction history with
  | start => exact InOrder.initial config device
  | step op history keeps stepped ih =>
      have before := few
      rw [List.length_append] at before
      exact (ih (by omega)).step keeps few stepped

/-- If no compaction and no eviction disturbs the order of uses, an eviction
from a cache in which nothing is held removes the least recently used entry. -/
theorem evictsOldest_of_keepsOrder {config : Config} {device : Nat → Nat → Block} {state : State}
    {log : List CacheKey} (history : History config (State.KeepsOrder config) device state log)
    (few : log.length < 2 ^ 64) : state.EvictsOldest log :=
  (history.inOrder few).evictsOldest

theorem History.weaken {config : Config} {allowed : State → Op → Prop}
    {device : Nat → Nat → Block} {state : State} {log : List CacheKey}
    (history : History config allowed device state log) :
    History config (fun _ _ => True) device state log := by
  induction history with
  | start => exact .start
  | step op history keeps stepped ih => exact ih.step op trivial stepped

section Using

variable {config : Config} {device : Nat → Nat → Block} {state : State} {log : List CacheKey}
  (history : History config (State.KeepsOrder config) device state log)

include history

/-- A caller may drop any reference that it holds. -/
theorem History.release {object : Nat} (handles : state.handles = [object]) :
    ∃ next, History config (State.KeepsOrder config) device next log ∧
      next.manager = state.manager ∧ next.handles = [] := by
  obtain ⟨manager, dropped, _⟩ := dropHandle_same state object
  have stepped : state.step config (.drop object) = some (state.dropHandle object) := by
    rw [State.step, if_pos (by rw [handles]; exact List.mem_singleton_self _)]
  refine ⟨_, history.step (.drop object) trivial stepped, manager, ?_⟩
  rw [dropped, handles, List.erase_cons_head]

/-- A block is entered, read and released. -/
theorem History.enter (readAhead : config.readAheadBlocks = 1) (handles : state.handles = [])
    {deviceId blockId : Nat}
    (missing : state.manager.entries[(⟨blockId, deviceId⟩ : CacheKey)]? = none)
    (small : state.manager.entries.size < config.blockCacheSize)
    (keeps : state.RecordKeepsOrder config ⟨blockId, deviceId⟩) :
    ∃ next blockCache,
      History config (State.KeepsOrder config) device next (⟨blockId, deviceId⟩ :: log) ∧
      next.manager = (state.insertObject config ⟨blockId, deviceId⟩ blockCache).manager ∧
      next.handles = [] := by
  have useKeeps : state.UseKeepsOrder config ⟨blockId, deviceId⟩ := by
    rw [State.UseKeepsOrder, missing]
    simp only [if_neg (Nat.not_le.mpr small)]
    exact keeps
  have keepsOrder : state.KeepsOrder config (.get deviceId blockId) := by
    rw [State.KeepsOrder, missing, readAhead]
    exact ⟨useKeeps, fun _ _ => trivial⟩
  have uses : state.uses config (.get deviceId blockId) = [⟨blockId, deviceId⟩] := by
    rw [State.uses, missing, readAhead]
    rfl
  generalize cached : (⟨state.device deviceId blockId, blockId, deviceId, false⟩ : BlockCache) =
    blockCache
  have stepped : state.step config (.get deviceId blockId) =
      some ((state.insertObject config ⟨blockId, deviceId⟩ blockCache).acquire
        state.nextObject) := by
    simp only [State.step, State.getBlockCache, missing, State.loadBlockRange, readAhead]
    change (state.loadOne config deviceId blockId (state.device deviceId blockId) true).bind
      some = _
    rw [State.loadOne, missing, ensureCapacity_of_lt small, ← cached]
    rfl
  have entered := history.step _ keepsOrder stepped
  rw [uses] at entered
  obtain ⟨next, released, manager, nextHandles⟩ := entered.release
    (show _ = [state.nextObject] by
      rw [State.acquire, State.insertObject, State.markUsed]
      simp only [handles])
  exact ⟨next, blockCache, released, manager, nextHandles⟩

end Using

/-- In a compacted queue nothing precedes the record of the smallest key. -/
theorem victim_of_compacted {state : State} {key : CacheKey} {rest : List (CacheKey × Nat)}
    (queue : state.manager.queue = state.manager.entries.toList.map fun entry =>
      (entry.1, entry.2.stamp))
    (handles : state.handles = []) (chosen : state.victim = some (key, rest))
    {other : CacheKey} {entry : CacheEntry} (found : state.manager.entries[other]? = some entry)
    (different : other ≠ key) : CacheKey.compare key other = .lt := by
  obtain ⟨passed, stamp, queueEq, skipped, _⟩ := evictScan_some chosen
  have recorded : (other, entry.stamp) ∈ state.manager.queue := by
    rw [queue]
    exact List.mem_map.mpr
      ⟨(other, entry), Std.TreeMap.mem_toList_iff_getElem?_eq_some.mpr found, rfl⟩
  rw [queueEq, List.mem_append, List.mem_cons] at recorded
  rcases recorded with isPassed | isVictim | isLeft
  · have notEvictable := skipped _ isPassed
    rw [evictable_iff.mpr ⟨entry, found, rfl, by rw [handles]; exact List.not_mem_nil⟩]
      at notEvictable
    cases notEvictable
  · exact absurd (congrArg Prod.fst isVictim) different
  · have keyOrder : state.manager.queue.Pairwise fun earlier later =>
        CacheKey.compare earlier.1 later.1 = .lt := by
      rw [queue, List.pairwise_map]
      exact Std.TreeMap.ordered_keys_toList
    rw [queueEq, List.pairwise_append, List.pairwise_cons] at keyOrder
    exact keyOrder.2.1.1 _ isLeft

/-- A cached block is read and released once more. -/
theorem exists_use_again {config : Config} {device : Nat → Nat → Block} {state : State}
    {log : List CacheKey} (history : History config (fun _ _ => True) device state log)
    (handles : state.handles = []) {key : CacheKey} {entry : CacheEntry}
    (found : state.manager.entries[key]? = some entry) :
    ∃ next, History config (fun _ _ => True) device next (key :: log) ∧
      next.manager = (state.markUsed config key).manager ∧ next.handles = [] := by
  obtain ⟨blockId, deviceId⟩ := key
  have stepped : state.step config (.get deviceId blockId) =
      some ((state.acquire entry.cache).markUsed config ⟨blockId, deviceId⟩) := by
    simp only [State.step, State.getBlockCache, found]
  have uses : state.uses config (.get deviceId blockId) = [⟨blockId, deviceId⟩] := by
    rw [State.uses, found]
  have used := history.step _ trivial stepped
  rw [uses] at used
  generalize readEq : (state.acquire entry.cache).markUsed config ⟨blockId, deviceId⟩ = middle
    at used
  have middleHandles : middle.handles = [entry.cache] := by
    rw [← readEq, State.markUsed, State.acquire, handles]
  obtain ⟨manager, dropped, _⟩ := dropHandle_same middle entry.cache
  have released : middle.step config (.drop entry.cache) =
      some (middle.dropHandle entry.cache) := by
    rw [State.step, if_pos (by rw [middleHandles]; exact List.mem_singleton_self _)]
  refine ⟨_, used.step (.drop entry.cache) trivial released, ?_, ?_⟩
  · rw [manager, ← readEq]
    rfl
  · rw [dropped, middleHandles, List.erase_cons_head]

/-- Block 1 was used once, and then block 0 `count` times; nothing is held. -/
structure UsedAgain (count : Nat) (state : State) : Prop where
  stamps : ∀ key : CacheKey, (state.manager.entries[key]?).map CacheEntry.stamp =
    if key = ⟨0, 0⟩ then some (count + 1) else if key = ⟨1, 0⟩ then some 1 else none
  stamp : state.manager.stamp = count + 1
  handles : state.handles = []

theorem UsedAgain.markUsed {count : Nat} {state next : State} (usedAgain : UsedAgain count state)
    (small : count ≤ 4096) (manager : next.manager = (state.markUsed .default ⟨0, 0⟩).manager)
    (handles : next.handles = []) : UsedAgain (count + 1) next where
  stamps key := by
    have before := usedAgain.stamps key
    have stamp : (state.manager.stamp + 1) % 2 ^ 64 = count + 1 + 1 := by
      rw [usedAgain.stamp, Nat.mod_eq_of_lt (by omega)]
    rw [manager, markUsed_lookup, stamp, Option.map_map]
    by_cases first : key = ⟨0, 0⟩
    · rw [if_pos first] at before ⊢
      obtain ⟨entry, found, _⟩ := Option.map_eq_some_iff.mp before
      rw [found]
      simp only [Option.map_some, Function.comp_apply, if_pos first]
    · rw [if_neg first] at before ⊢
      rw [← before]
      simp only [if_neg first, Function.comp_def]
  stamp := by
    rw [manager, markUsed_stamp, usedAgain.stamp, Nat.mod_eq_of_lt (by omega)]
  handles := handles

/-- Two blocks are used one after the other, against the order of keys. -/
theorem exists_two_uses :
    ∃ state, History .default (State.KeepsOrder .default) (fun _ _ => .zeroed) state
        [⟨0, 0⟩, ⟨1, 0⟩] ∧
      UsedAgain 1 state ∧ state.manager.queue.length = 2 := by
  have empty (key : CacheKey) : (State.initial fun _ _ => .zeroed).manager.entries[key]? = none :=
    Std.TreeMap.getElem?_emptyc
  obtain ⟨first, firstCache, firstHistory, firstManager, firstHandles⟩ :=
    (@History.start .default (State.KeepsOrder .default) fun _ _ => .zeroed).enter rfl rfl
      (empty ⟨1, 0⟩) (by decide) (Or.inl (by decide))
  have firstLookup (key : CacheKey) : (first.manager.entries[key]?).map CacheEntry.stamp =
      if key = ⟨1, 0⟩ then some 1 else none := by
    rw [firstManager, State.insertObject, markUsed_lookup, insert_lookup, empty]
    split <;> rfl
  have firstSize : first.manager.entries.size = 1 := by
    rw [firstManager, size_insertObject .default firstCache (objectOf_eq_none.mpr (empty _))]
    rfl
  have firstStamp : first.manager.stamp = 1 := by
    rw [firstManager, State.insertObject, markUsed_stamp]
    rfl
  have firstQueue : first.manager.queue.length = 1 := by
    rw [firstManager, State.insertObject, markUsed_queue_of_le]
    · rfl
    · exact (show 0 + 1 ≤ 512 * 8 by decide)
  have missing : first.manager.entries[(⟨0, 0⟩ : CacheKey)]? = none := by
    have lookup := firstLookup ⟨0, 0⟩
    rw [if_neg (by decide)] at lookup
    exact Option.map_eq_none_iff.mp lookup
  obtain ⟨state, cached, history, manager, handles⟩ := firstHistory.enter rfl firstHandles missing
    (by rw [firstSize]; decide) (Or.inl (by rw [firstQueue]; decide))
  refine ⟨state, history, ⟨?_, ?_, handles⟩, ?_⟩
  · intro key
    have before := firstLookup key
    rw [manager, State.insertObject, markUsed_lookup, insert_lookup]
    simp only [firstStamp]
    split
    · rfl
    · rw [← before]
      simp only [Option.map_map]
      rfl
  · rw [manager, State.insertObject, markUsed_stamp]
    simp only [firstStamp]
    decide
  · rw [manager, State.insertObject, markUsed_queue_of_le]
    · simp only [List.length_append, firstQueue, List.length_singleton]
    · simp only [firstQueue]
      decide

/-- The queue grows with every use of block 0, up to its limit. -/
theorem exists_uses_again (count : Nat) (small : count ≤ 4094) :
    ∃ state, History .default (fun _ _ => True) (fun _ _ => .zeroed) state
        (List.replicate (count + 1) ⟨0, 0⟩ ++ [⟨1, 0⟩]) ∧
      UsedAgain (count + 1) state ∧ state.manager.queue.length = count + 2 := by
  induction count with
  | zero =>
      obtain ⟨state, history, usedAgain, queue⟩ := exists_two_uses
      exact ⟨state, history.weaken, usedAgain, queue⟩
  | succ count ih =>
      obtain ⟨state, history, usedAgain, queue⟩ := ih (by omega)
      obtain ⟨entry, found, _⟩ := Option.map_eq_some_iff.mp
        ((usedAgain.stamps ⟨0, 0⟩).trans (if_pos rfl))
      obtain ⟨next, nextHistory, manager, handles⟩ :=
        exists_use_again history usedAgain.handles found
      refine ⟨next, nextHistory, usedAgain.markUsed (by omega) manager handles, ?_⟩
      have fits : state.manager.queue.length + 1 ≤ 512 * 8 := by omega
      rw [manager, markUsed_queue_of_le _ fits, List.length_append, queue, List.length_singleton]

/-- After a compaction an eviction follows the order of keys: block 0 goes,
which was used 4096 times since block 1. -/
theorem not_evictsOldest_compacted :
    ¬ ∀ config device state log, History config (fun _ _ => True) device state log →
      log.length < 2 ^ 64 → state.EvictsOldest log := by
  intro always
  obtain ⟨full, fullHistory, usedAgain, fullQueue⟩ := exists_uses_again 4094 (Nat.le_refl _)
  obtain ⟨entry, found, _⟩ := Option.map_eq_some_iff.mp
    ((usedAgain.stamps ⟨0, 0⟩).trans (if_pos rfl))
  obtain ⟨state, history, manager, handles⟩ := exists_use_again fullHistory usedAgain.handles found
  have stateUsed := usedAgain.markUsed (by decide) manager handles
  have queue : state.manager.queue = state.manager.entries.toList.map fun entry =>
      (entry.1, entry.2.stamp) := by
    rw [manager, markUsed_queue_of_gt _ (by rw [fullQueue]; decide)]
  obtain ⟨newer, newerFound, newerStamp⟩ := Option.map_eq_some_iff.mp
    ((stateUsed.stamps ⟨0, 0⟩).trans (if_pos rfl))
  obtain ⟨older, olderFound, olderStamp⟩ := Option.map_eq_some_iff.mp
    ((stateUsed.stamps ⟨1, 0⟩).trans (by rw [if_neg (by decide), if_pos rfl]))
  have nonempty : state.manager.entries.size ≠ 0 :=
    Nat.ne_of_gt (size_pos (objectOf_eq_some.mpr ⟨newer, newerFound, rfl⟩))
  have few : (⟨0, 0⟩ :: (List.replicate (4094 + 1) ⟨0, 0⟩ ++ [⟨1, 0⟩]) : List CacheKey).length <
      2 ^ 64 := by
    rw [List.length_cons, List.length_append, List.length_replicate]
    decide
  obtain ⟨key, next, evicted, ⟨oldest, oldestFound, isOldest⟩, removed⟩ :=
    always _ _ _ _ history few (by rw [handles]; simp) nonempty
  -- Block 1 is the oldest entry, so it is the one that the eviction removes.
  have keyEq : (⟨1, 0⟩ : CacheKey) = key := by
    by_contra different
    have younger := (isOldest ⟨1, 0⟩ older olderFound different).1
    have stamp := stateUsed.stamps key
    rw [oldestFound, if_neg (Ne.symm different)] at stamp
    split at stamp
    · rw [Option.map_some, Option.some.injEq] at stamp
      omega
    · cases stamp
  subst keyEq
  obtain ⟨⟨victim, rest⟩, chosen, rfl⟩ := Option.map_eq_some_iff.mp evicted
  have victimEq : (⟨1, 0⟩ : CacheKey) = victim := by
    by_contra different
    have lookup := removed ⟨1, 0⟩
    rw [if_pos rfl, entries_removeEntry, if_neg different, olderFound] at lookup
    cases lookup
  subst victimEq
  have keyOrder := victim_of_compacted queue handles chosen newerFound (by decide)
  exact absurd keyOrder (by decide)

theorem evictsOldest_two_uses :
    ∃ state, History .default (State.KeepsOrder .default) (fun _ _ => .zeroed) state
        [⟨0, 0⟩, ⟨1, 0⟩] ∧
      state.handles = [] ∧ state.EvictsOldest [⟨0, 0⟩, ⟨1, 0⟩] := by
  obtain ⟨state, history, usedAgain, _⟩ := exists_two_uses
  exact ⟨state, history, usedAgain.handles, evictsOldest_of_keepsOrder history (by decide)⟩

end BlockCaching

end Ext4

end OSWorkspace

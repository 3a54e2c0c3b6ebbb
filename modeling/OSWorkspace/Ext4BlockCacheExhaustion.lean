import OSWorkspace.Ext4BlockCacheTransparency

/-!
# Running out of the block cache

An eviction scan drops every record that it passes, also that of an entry which
a caller holds.  This file says which records the scan needs, and when a panic
of the cache means that every entry is held.
-/

namespace OSWorkspace

namespace Ext4

namespace BlockCaching

/-- Every cached entry is held by some caller. -/
def State.AllHeld (state : State) : Prop :=
  ∀ key object, state.objectOf key = some object → object ∈ state.handles

/-- The state in which a loop of loads runs out of the cache. -/
def State.loadStop (config : Config) (deviceId : Nat) :
    State → (blockId : Nat) → (data : List Block) → (first : Bool) → Option State
  | _, _, [], _ => none
  | state, blockId, block :: data, first =>
      match state.loadOne config deviceId blockId block first with
      | none => some state
      | some next => loadStop config deviceId next (blockId + 1) data false

/-- The cache has no more entries than its size, and a call runs out of it only
in a state in which every entry is held. -/
def State.StopsAllHeld (config : Config) (state : State) : Prop :=
  state.manager.entries.size ≤ config.blockCacheSize ∧
    (∀ deviceId blockId, state.getBlockCache config deviceId blockId = none →
      ∃ moment, state.loadStop config deviceId blockId
          ((List.range (max config.readAheadBlocks 1)).map fun index =>
            state.device deviceId (blockId + index)) true = some moment ∧
        moment.AllHeld) ∧
    ∀ deviceId blockId, state.getBlockCacheZeroed config deviceId blockId = none → state.AllHeld

/-- Dropping a reference: another one to the same entry stays, or the queue has
the record of the last use of the entry. -/
def State.ReleasesRecorded (state : State) : Op → Prop
  | .drop object => ∀ key entry, state.manager.entries[key]? = some entry →
      entry.cache = object →
        object ∈ state.handles.erase object ∨ (key, entry.stamp) ∈ state.manager.queue
  | _ => True

/-- The queue has the record of the last use of the entry. -/
def State.Recorded (state : State) (key : CacheKey) (entry : CacheEntry) : Prop :=
  (key, entry.stamp) ∈ state.manager.queue

/-- Every entry is held or recorded. -/
structure Kept (config : Config) (state : State) : Prop where
  bounded : state.manager.entries.size ≤ config.blockCacheSize
  recorded : ∀ key entry, state.manager.entries[key]? = some entry →
    entry.cache ∈ state.handles ∨ state.Recorded key entry

theorem Kept.initial (config : Config) (device : Nat → Nat → Block) :
    Kept config (.initial device) where
  bounded := Nat.zero_le _
  recorded key entry found := by
    have missing : (State.initial device).manager.entries[key]? = none :=
      Std.TreeMap.getElem?_emptyc
    rw [missing] at found
    cases found

/-- A compacted queue has the records of all entries. -/
theorem mem_compactQueue {config : Config} {manager : BlockCacheManager} {key : CacheKey}
    {entry : CacheEntry} (found : manager.entries[key]? = some entry)
    (recorded : (key, entry.stamp) ∈ manager.queue) :
    (key, entry.stamp) ∈ (manager.compactQueue config).queue := by
  rw [BlockCacheManager.compactQueue]
  split
  · exact recorded
  · refine List.mem_map.mpr ⟨(key, entry), ?_, rfl⟩
    exact Std.TreeMap.mem_toList_iff_getElem?_eq_some.mpr found

theorem recorded_markUsed (config : Config) {state : State} (used : CacheKey)
    (others : ∀ key entry, key ≠ used → state.manager.entries[key]? = some entry →
      entry.cache ∈ state.handles ∨ state.Recorded key entry) (key : CacheKey) (entry : CacheEntry)
    (found : (state.markUsed config used).manager.entries[key]? = some entry) :
    entry.cache ∈ (state.markUsed config used).handles ∨
      (state.markUsed config used).Recorded key entry := by
  have before := found
  rw [markUsed_lookup] at before
  obtain ⟨old, oldFound, oldEq⟩ := Option.map_eq_some_iff.mp before
  by_cases same : key = used
  · rw [if_pos same] at oldEq
    refine Or.inr (mem_compactQueue (by rw [← compactQueue_entries config]; exact found) ?_)
    rw [← oldEq, same]
    exact List.mem_append_right _ (List.mem_singleton_self _)
  · rw [if_neg same] at oldEq
    subst oldEq
    rcases others key old same oldFound with isHeld | recorded
    · exact Or.inl isHeld
    · refine Or.inr (mem_compactQueue (by rw [← compactQueue_entries config]; exact found) ?_)
      exact List.mem_append_left _ recorded

theorem Kept.markUsed {config : Config} {state : State} (kept : Kept config state)
    (used : CacheKey) : Kept config (state.markUsed config used) where
  bounded := by
    rw [size_markUsed]
    exact kept.bounded
  recorded := recorded_markUsed config used fun key entry _ found => kept.recorded key entry found

theorem Kept.acquire {config : Config} {state : State} (kept : Kept config state) (object : Nat) :
    Kept config (state.acquire object) where
  bounded := kept.bounded
  recorded key entry found := (kept.recorded key entry found).imp_left (List.mem_cons_of_mem _)

theorem evictable_iff {state : State} {item : CacheKey × Nat} :
    state.evictable item = true ↔ ∃ entry, state.manager.entries[item.1]? = some entry ∧
      entry.stamp = item.2 ∧ entry.cache ∉ state.handles := by
  rw [State.evictable]
  cases state.manager.entries[item.1]? with
  | none => simp
  | some entry =>
      simp only [State.strongCount, Bool.and_eq_true, beq_iff_eq, Option.some.injEq,
        exists_eq_left', Nat.add_eq_left, List.count_eq_zero]

/-- The scan drops records that cannot be evicted, up to the victim. -/
theorem evictScan_some {state : State} {limit scanned : Nat} {queue rest : List (CacheKey × Nat)}
    {key : CacheKey} (scan : state.evictScan limit scanned queue = some (key, rest)) :
    ∃ passed stamp, queue = passed ++ (key, stamp) :: rest ∧
      (∀ item ∈ passed, state.evictable item = false) ∧
        state.evictable (key, stamp) = true := by
  induction queue generalizing scanned with
  | nil => simp [State.evictScan] at scan
  | cons item queue ih =>
      rw [State.evictScan] at scan
      by_cases chosen : state.evictable item = true
      · rw [if_pos chosen] at scan
        simp only [Option.some.injEq, Prod.mk.injEq] at scan
        obtain ⟨rfl, rfl⟩ := scan
        exact ⟨[], item.2, rfl, by simp, chosen⟩
      · rw [if_neg chosen] at scan
        split at scan
        · cases scan
        · obtain ⟨passed, stamp, rfl, skipped, evictable⟩ := ih scan
          refine ⟨item :: passed, stamp, rfl, ?_, evictable⟩
          intro other isMem
          rcases List.mem_cons.mp isMem with rfl | isMem
          · simpa using chosen
          · exact skipped other isMem

/-- The scan of a queue within the limit fails when nothing can be evicted. -/
theorem evictScan_none {state : State} {limit scanned : Nat} {queue : List (CacheKey × Nat)}
    (enough : scanned + queue.length < limit)
    (scan : state.evictScan limit scanned queue = none) :
    ∀ item ∈ queue, state.evictable item = false := by
  induction queue generalizing scanned with
  | nil => simp
  | cons item queue ih =>
      rw [List.length_cons] at enough
      rw [State.evictScan] at scan
      by_cases chosen : state.evictable item = true
      · rw [if_pos chosen] at scan
        cases scan
      · rw [if_neg chosen, if_neg (by omega)] at scan
        intro other isMem
        rcases List.mem_cons.mp isMem with rfl | isMem
        · simpa using chosen
        · exact ih (by omega) scan other isMem

/-- Without a victim every entry is held. -/
theorem Kept.allHeld_of_victim {config : Config} {state : State} (kept : Kept config state)
    (stopped : state.victim = none) : state.AllHeld := by
  intro key object found
  obtain ⟨entry, entryFound, rfl⟩ := objectOf_eq_some.mp found
  rcases kept.recorded key entry entryFound with isHeld | recorded
  · exact isHeld
  · by_contra unheld
    have notEvictable := evictScan_none (by omega) stopped _ recorded
    have evictable : state.evictable (key, entry.stamp) = true :=
      evictable_iff.mpr ⟨entry, entryFound, rfl, unheld⟩
    rw [evictable] at notEvictable
    cases notEvictable

theorem queue_removeEntry (state : State) (key : CacheKey) (queue : List (CacheKey × Nat)) :
    (state.removeEntry key queue).manager.queue = queue := by
  rw [State.removeEntry]
  cases state.manager.entries[key]? with
  | none => rfl
  | some entry => simp only [State.dropCache, sync_manager]

/-- An eviction drops only records of held entries and that of the victim. -/
theorem Kept.removeEntry {config : Config} {state : State} (kept : Kept config state)
    {key : CacheKey} {queue : List (CacheKey × Nat)} (chosen : state.victim = some (key, queue)) :
    Kept config (state.removeEntry key queue) := by
  obtain ⟨object, found, _⟩ := evictScan_spec chosen
  obtain ⟨passed, stamp, queueEq, skipped, _⟩ := evictScan_some chosen
  refine ⟨?_, ?_⟩
  · rw [size_removeEntry queue found]
    have bounded := kept.bounded
    omega
  · intro other entry otherFound
    rw [entries_removeEntry] at otherFound
    split at otherFound
    · cases otherFound
    · next different =>
        rw [removeEntry_handles, State.Recorded, queue_removeEntry]
        rcases kept.recorded other entry otherFound with isHeld | recorded
        · exact Or.inl isHeld
        · rw [State.Recorded, queueEq, List.mem_append, List.mem_cons] at recorded
          rcases recorded with isPassed | isVictim | isLeft
          · left
            by_contra unheld
            have notEvictable := skipped _ isPassed
            rw [evictable_iff.mpr ⟨entry, otherFound, rfl, unheld⟩] at notEvictable
            cases notEvictable
          · exact absurd (congrArg Prod.fst isVictim) different
          · exact Or.inr isLeft

theorem dropHandle_same (state : State) (object : Nat) :
    (state.dropHandle object).manager = state.manager ∧
      (state.dropHandle object).handles = state.handles.erase object ∧
      (state.dropHandle object).nextObject = state.nextObject := by
  rw [State.dropHandle]
  cases state.objects object with
  | none => exact ⟨rfl, rfl, rfl⟩
  | some blockCache =>
      simp only
      split_ifs
      · exact ⟨rfl, rfl, rfl⟩
      · simp only [State.dropCache, sync_manager, sync_handles, sync_nextObject, and_self]

theorem syncFold_same (entries : List (CacheKey × CacheEntry)) (state : State) :
    (entries.foldl (fun current entry => current.sync entry.2.cache) state).manager =
        state.manager ∧
      (entries.foldl (fun current entry => current.sync entry.2.cache) state).handles =
        state.handles := by
  induction entries generalizing state with
  | nil => exact ⟨rfl, rfl⟩
  | cons entry entries ih =>
      obtain ⟨manager, handles⟩ := ih (state.sync entry.2.cache)
      rw [List.foldl_cons, manager, handles, sync_manager, sync_handles]
      exact ⟨rfl, rfl⟩

section Loading

variable {config : Config} {state : State} (kept : Kept config state)

include kept

theorem Kept.ensureCapacity {room : State} (made : state.ensureCapacity config = some room) :
    Kept config room ∧ room.manager.entries.size < config.blockCacheSize ∧
      ∀ key, state.objectOf key = none → room.objectOf key = none := by
  have bounded := kept.bounded
  rcases ensureCapacity_cases bounded made with ⟨small, rfl⟩ |
    ⟨full, key, object, queue, chosen, found, _, rfl⟩
  · exact ⟨kept, small, fun _ missing => missing⟩
  · have sizeAfter := size_removeEntry queue found
    have nonempty := size_pos found
    refine ⟨kept.removeEntry chosen, by omega, ?_⟩
    intro other missing
    rw [objectOf_removeEntry, missing, ite_self]

/-- Making room fails only when every entry is held. -/
theorem Kept.allHeld_of_ensureCapacity (stopped : state.ensureCapacity config = none) :
    state.AllHeld := by
  have bounded := kept.bounded
  rcases Nat.lt_or_ge state.manager.entries.size config.blockCacheSize with small | full
  · rw [ensureCapacity_of_lt small] at stopped
    cases stopped
  · cases chosen : state.victim with
    | none => exact kept.allHeld_of_victim chosen
    | some victim =>
        obtain ⟨key, queue⟩ := victim
        obtain ⟨object, found, _⟩ := evictScan_spec chosen
        have nonempty := size_pos found
        rw [ensureCapacity_of_full (Nat.le_antisymm bounded full) (by omega) chosen found] at stopped
        cases stopped

theorem Kept.insertObject (small : state.manager.entries.size < config.blockCacheSize)
    {key : CacheKey} (missing : state.objectOf key = none) (blockCache : BlockCache) :
    Kept config (state.insertObject config key blockCache) where
  bounded := by
    rw [size_insertObject config blockCache missing]
    exact small
  recorded := by
    refine recorded_markUsed config key ?_
    intro other entry different found
    rw [insert_lookup, if_neg different] at found
    exact kept.recorded other entry found

theorem Kept.loadOne {deviceId blockId : Nat} {data : Block} {first : Bool} {next : State}
    (loaded : state.loadOne config deviceId blockId data first = some next) :
    Kept config next := by
  rw [State.loadOne] at loaded
  cases found : state.manager.entries[(⟨blockId, deviceId⟩ : CacheKey)]? with
  | some entry =>
      simp only [found, Option.some.injEq] at loaded
      subst loaded
      split
      · exact (kept.acquire entry.cache).markUsed _
      · exact kept.markUsed _
  | none =>
      simp only [found] at loaded
      obtain ⟨room, made, rfl⟩ := Option.map_eq_some_iff.mp loaded
      obtain ⟨roomKept, small, absent⟩ := kept.ensureCapacity made
      have inserted := roomKept.insertObject small (absent _ (objectOf_eq_none.mpr found))
        ⟨data, blockId, deviceId, false⟩
      split
      · exact inserted.acquire _
      · exact inserted

theorem Kept.allHeld_of_loadOne {deviceId blockId : Nat} {data : Block} {first : Bool}
    (stopped : state.loadOne config deviceId blockId data first = none) : state.AllHeld := by
  rw [State.loadOne] at stopped
  cases found : state.manager.entries[(⟨blockId, deviceId⟩ : CacheKey)]? with
  | some entry =>
      simp only [found] at stopped
      cases stopped
  | none =>
      simp only [found] at stopped
      exact kept.allHeld_of_ensureCapacity (Option.map_eq_none_iff.mp stopped)

theorem Kept.loadLoop {deviceId : Nat} (data : List Block) {blockId : Nat} {first : Bool} :
    match state.loadLoop config deviceId blockId data first with
    | some next => Kept config next
    | none => ∃ moment, state.loadStop config deviceId blockId data first = some moment ∧
        moment.AllHeld := by
  induction data generalizing state blockId first with
  | nil => exact kept
  | cons block data ih =>
      rw [State.loadLoop, State.loadStop]
      cases loaded : state.loadOne config deviceId blockId block first with
      | none => exact ⟨state, rfl, kept.allHeld_of_loadOne loaded⟩
      | some next => exact ih (kept.loadOne loaded)

theorem Kept.getBlockCache {deviceId blockId : Nat} {next : State}
    (got : state.getBlockCache config deviceId blockId = some next) : Kept config next := by
  rw [State.getBlockCache] at got
  cases found : state.manager.entries[(⟨blockId, deviceId⟩ : CacheKey)]? with
  | some entry =>
      simp only [found, Option.some.injEq] at got
      subst got
      exact (kept.acquire entry.cache).markUsed _
  | none =>
      simp only [found, State.loadBlockRange] at got
      have outcome := @Kept.loadLoop config state kept deviceId
        ((List.range (max config.readAheadBlocks 1)).map fun index =>
          state.device deviceId (blockId + index)) blockId true
      rw [got] at outcome
      exact outcome

theorem Kept.getBlockCacheZeroed {deviceId blockId : Nat} {next : State}
    (got : state.getBlockCacheZeroed config deviceId blockId = some next) :
    Kept config next := by
  rw [State.getBlockCacheZeroed] at got
  cases found : state.manager.entries[(⟨blockId, deviceId⟩ : CacheKey)]? with
  | some entry =>
      simp only [found, Option.some.injEq] at got
      subst got
      exact (kept.acquire entry.cache).markUsed _
  | none =>
      simp only [found] at got
      obtain ⟨room, made, rfl⟩ := Option.map_eq_some_iff.mp got
      obtain ⟨roomKept, small, absent⟩ := kept.ensureCapacity made
      exact (roomKept.insertObject small (absent _ (objectOf_eq_none.mpr found)) _).acquire _

theorem Kept.stopsAllHeld : state.StopsAllHeld config := by
  refine ⟨kept.bounded, ?_, ?_⟩
  · intro deviceId blockId stopped
    rw [State.getBlockCache] at stopped
    cases found : state.manager.entries[(⟨blockId, deviceId⟩ : CacheKey)]? with
    | some entry =>
        simp only [found] at stopped
        cases stopped
    | none =>
        simp only [found, State.loadBlockRange] at stopped
        have outcome := @Kept.loadLoop config state kept deviceId
          ((List.range (max config.readAheadBlocks 1)).map fun index =>
            state.device deviceId (blockId + index)) blockId true
        rw [stopped] at outcome
        exact outcome
  · intro deviceId blockId stopped
    rw [State.getBlockCacheZeroed] at stopped
    cases found : state.manager.entries[(⟨blockId, deviceId⟩ : CacheKey)]? with
    | some entry =>
        simp only [found] at stopped
        cases stopped
    | none =>
        simp only [found] at stopped
        exact kept.allHeld_of_ensureCapacity (Option.map_eq_none_iff.mp stopped)

/-- A step that leaves the manager alone and takes no reference away. -/
theorem Kept.of_same {next : State} (manager : next.manager = state.manager)
    (handles : next.handles = state.handles) : Kept config next := by
  refine ⟨by rw [manager]; exact kept.bounded, ?_⟩
  intro key entry found
  rw [manager] at found
  rw [handles, State.Recorded, manager]
  exact kept.recorded key entry found

theorem Kept.dropHandle {object : Nat} (releases : state.ReleasesRecorded (.drop object)) :
    Kept config (state.dropHandle object) := by
  obtain ⟨manager, handles, _⟩ := dropHandle_same state object
  refine ⟨by rw [manager]; exact kept.bounded, ?_⟩
  intro key entry found
  rw [manager] at found
  rw [handles, State.Recorded, manager]
  by_cases same : entry.cache = object
  · rw [same]
    exact releases key entry found same
  · rcases kept.recorded key entry found with isHeld | recorded
    · exact Or.inl ((List.mem_erase_of_ne same).mpr isHeld)
    · exact Or.inr recorded

theorem Kept.step {op : Op} {next : State} (releases : state.ReleasesRecorded op)
    (stepped : state.step config op = some next) : Kept config next := by
  cases op with
  | get deviceId blockId => exact kept.getBlockCache stepped
  | getZeroed deviceId blockId =>
      obtain ⟨middle, got, zeroed⟩ := Option.bind_eq_some_iff.mp stepped
      obtain ⟨object, _, changed⟩ := Option.bind_eq_some_iff.mp zeroed
      obtain ⟨blockCache, _, rfl⟩ := Option.map_eq_some_iff.mp changed
      exact (kept.getBlockCacheZeroed got).of_same rfl rfl
  | write object offset data =>
      rw [State.step] at stepped
      split at stepped
      · rw [State.writeBytes] at stepped
        split at stepped
        · obtain ⟨blockCache, _, rfl⟩ := Option.map_eq_some_iff.mp stepped
          exact kept.of_same rfl rfl
        · cases stepped
      · cases stepped
  | drop object =>
      rw [State.step] at stepped
      split at stepped
      · cases stepped
        exact kept.dropHandle releases
      · cases stepped
  | syncAll =>
      cases stepped
      obtain ⟨manager, handles⟩ := syncFold_same state.manager.entries.toList state
      exact kept.of_same manager handles

end Loading

/-- If no step releases an entry without a record, the cache runs out only when
every entry is held. -/
theorem stopsAllHeld_of_releasesRecorded {config : Config} {device : Nat → Nat → Block}
    {state : State} {contents : Nat → Nat → Block}
    (run : Run config State.ReleasesRecorded device state contents) :
    state.StopsAllHeld config := by
  have kept : Kept config state := by
    induction run with
    | start => exact Kept.initial config device
    | step op run releases stepped ih => exact ih.step releases stepped
  exact kept.stopsAllHeld

theorem evictScan_eq_some {state : State} {limit scanned : Nat} {passed : List (CacheKey × Nat)}
    {item : CacheKey × Nat} (rest : List (CacheKey × Nat))
    (enough : scanned + passed.length < limit)
    (skipped : ∀ other ∈ passed, state.evictable other = false)
    (evictable : state.evictable item = true) :
    state.evictScan limit scanned (passed ++ item :: rest) = some (item.1, rest) := by
  induction passed generalizing scanned with
  | nil => rw [List.nil_append, State.evictScan, if_pos evictable]
  | cons first passed ih =>
      rw [List.length_cons] at enough
      have notEvictable := skipped first List.mem_cons_self
      rw [List.cons_append, State.evictScan, if_neg (by simp [notEvictable]), if_neg (by omega)]
      exact ih (by omega) fun other isMem => skipped other (List.mem_cons_of_mem _ isMem)

/-- Without read-ahead the next block is cached alone. -/
theorem cachedInOrder_getOne {count : Nat} {state : State} (ordered : CachedInOrder count state)
    (small : count < 512) :
    ∃ next, state.step .default (.get 0 (count + 1)) = some next ∧
      CachedInOrder (count + 1) next ∧ next.handles = count :: state.handles := by
  obtain ⟨next, loaded, nextOrdered, handles, _⟩ :=
    @cachedInOrder_loadOne .default _ _ ordered small (by omega) true
  have missing : state.manager.entries[(⟨count + 1, 0⟩ : CacheKey)]? = none := by
    rw [ordered.entries, if_neg (by simp)]
  refine ⟨next, ?_, nextOrdered, handles⟩
  simp only [State.step, State.getBlockCache, missing, State.loadBlockRange]
  rw [ordered.device]
  change (state.loadOne .default 0 (count + 1) .zeroed true).bind some = some next
  rw [loaded, Option.bind_some]

/-- The cache can be filled with entries that are all held. -/
theorem exists_held_run {count : Nat} (small : count ≤ 512) :
    ∃ state contents, Run .default State.ReleasesRecorded (fun _ _ => .zeroed) state contents ∧
      CachedInOrder count state ∧ state.handles = (List.range count).reverse := by
  induction count with
  | zero => exact ⟨_, _, .start, cachedInOrder_initial, rfl⟩
  | succ count ih =>
      obtain ⟨state, contents, run, ordered, handles⟩ := ih (by omega)
      obtain ⟨next, got, nextOrdered, nextHandles⟩ := cachedInOrder_getOne ordered small
      refine ⟨next, _, run.step (.get 0 (count + 1)) trivial got, nextOrdered, ?_⟩
      rw [nextHandles, handles, List.range_succ, List.reverse_append]
      rfl

/-- With only the last entry unheld, the next load drops the records of all
other entries. -/
theorem get_drops_records {full state : State} (ordered : CachedInOrder 512 full)
    (manager : state.manager = full.manager) (nextObject : state.nextObject = 512)
    (handles : state.handles = (List.range 511).reverse) :
    ∃ next, state.step .default (.get 0 513) = some next ∧
      next.manager.entries.size = 512 ∧
      (∃ stamp, next.manager.queue = [((⟨513, 0⟩ : CacheKey), stamp)]) ∧
      next.objectOf ⟨1, 0⟩ = some 0 ∧ next.objectOf ⟨513, 0⟩ = some 512 ∧
      next.objectOf ⟨514, 0⟩ = none ∧ next.handles = 512 :: (List.range 511).reverse := by
  have entries (key : CacheKey) := ordered.entries key
  rw [← manager] at entries
  have queue : state.manager.queue =
      ((List.range 511).map fun index => ((⟨index + 1, 0⟩ : CacheKey), index + 1)) ++
        ((⟨512, 0⟩ : CacheKey), 512) :: [] := by
    rw [manager, ordered.queue, List.range_succ, List.map_append]
    rfl
  have chosen : state.victim = some (⟨512, 0⟩, []) := by
    rw [State.victim, queue]
    refine evictScan_eq_some [] (by simp) ?_ ?_
    · intro item isMem
      obtain ⟨index, isIndex, rfl⟩ := List.mem_map.mp isMem
      rw [Bool.eq_false_iff]
      intro evictable
      obtain ⟨entry, found, _, unheld⟩ := evictable_iff.mp evictable
      have indexLt := List.mem_range.mp isIndex
      rw [entries, if_pos ⟨rfl, Nat.le_add_left 1 index, Nat.succ_le_of_lt (by omega)⟩] at found
      cases found
      rw [handles] at unheld
      exact unheld (by simpa using indexLt)
    · refine evictable_iff.mpr ⟨⟨511, 512⟩, ?_, rfl, ?_⟩
      · rw [entries]
        rfl
      · rw [handles]
        simp
  have found : state.objectOf ⟨512, 0⟩ = some 511 := by
    rw [State.objectOf, entries]
    rfl
  have size : state.manager.entries.size = 512 := by rw [manager, ordered.size]
  have missing : state.manager.entries[(⟨513, 0⟩ : CacheKey)]? = none := by
    rw [entries]
    rfl
  have made := @ensureCapacity_of_full .default _ _ _ _ size (by decide) chosen found
  generalize roomEq : state.removeEntry ⟨512, 0⟩ [] = room at made
  have roomSize : room.manager.entries.size = 511 := by
    rw [← roomEq, size_removeEntry _ found, size]
  have roomObject (key : CacheKey) : room.objectOf key =
      if key = ⟨512, 0⟩ then none else state.objectOf key := by
    rw [← roomEq, objectOf_removeEntry]
  have roomHandles : room.handles = (List.range 511).reverse := by
    rw [← roomEq, removeEntry_handles, handles]
  have roomNext : room.nextObject = 512 := by
    rw [← roomEq, removeEntry_nextObject, nextObject]
  have roomQueue : room.manager.queue = [] := by rw [← roomEq, queue_removeEntry]
  have roomMissing : room.objectOf ⟨513, 0⟩ = none := by
    rw [roomObject, if_neg (by decide), State.objectOf, missing]
    rfl
  let cached : BlockCache := ⟨state.device 0 513, 513, 0, false⟩
  refine ⟨(room.insertObject .default ⟨513, 0⟩ cached).acquire room.nextObject, ?_, ?_, ?_, ?_, ?_,
    ?_, ?_⟩
  · simp only [State.step, State.getBlockCache, missing, State.loadBlockRange]
    change (state.loadOne .default 0 513 (state.device 0 513) true).bind some = _
    rw [State.loadOne, missing, made]
    rfl
  · rw [State.acquire, size_insertObject .default cached roomMissing, roomSize]
  · refine ⟨(room.manager.stamp + 1) % 2 ^ 64, ?_⟩
    rw [State.acquire, State.insertObject]
    simp only
    rw [markUsed_queue_of_le]
    · simp only [roomQueue, List.nil_append]
    · simp only [roomQueue]
      decide
  · change (room.insertObject .default ⟨513, 0⟩ cached).objectOf ⟨1, 0⟩ = some 0
    rw [objectOf_insertObject, if_neg (by decide), roomObject, if_neg (by decide), State.objectOf,
      entries]
    rfl
  · change (room.insertObject .default ⟨513, 0⟩ cached).objectOf ⟨513, 0⟩ = some 512
    rw [objectOf_insertObject, if_pos rfl, roomNext]
  · change (room.insertObject .default ⟨513, 0⟩ cached).objectOf ⟨514, 0⟩ = none
    rw [objectOf_insertObject, if_neg (by decide), roomObject, if_neg (by decide), State.objectOf,
      entries]
    rfl
  · change room.nextObject :: room.handles = _
    rw [roomNext, roomHandles]

/-- A full cache runs out although the entry of block 1 is not held. -/
theorem not_stopsAllHeld_default :
    ¬ ∀ device state contents, Run .default (fun _ _ => True) device state contents →
      state.StopsAllHeld .default := by
  intro always
  obtain ⟨full, contents, fullRun, ordered, fullHandles⟩ := exists_held_run (Nat.le_refl 512)
  have fullHeld : 511 ∈ full.handles := by simp [fullHandles]
  have released : full.step .default (.drop 511) = some (full.dropHandle 511) := by
    rw [State.step, if_pos fullHeld]
  obtain ⟨manager, handles, nextObject⟩ := dropHandle_same full 511
  rw [fullHandles, List.range_succ, List.reverse_append, List.reverse_singleton,
    List.singleton_append, List.erase_cons_head] at handles
  obtain ⟨next, got, size, ⟨stamp, queue⟩, first, last, missing, nextHandles⟩ :=
    get_drops_records ordered manager (by rw [nextObject, ordered.nextObject]) handles
  have nextHeld : 0 ∈ next.handles := by simp [nextHandles]
  have dropped : next.step .default (.drop 0) = some (next.dropHandle 0) := by
    rw [State.step, if_pos nextHeld]
  obtain ⟨lastManager, lastHandles, _⟩ := dropHandle_same next 0
  have lastObject (key : CacheKey) : (next.dropHandle 0).objectOf key = next.objectOf key := by
    rw [State.objectOf, lastManager, State.objectOf]
  have run := ((fullRun.weaken.step _ trivial released).step _ trivial got).step _ trivial dropped
  have stops := always _ _ _ run
  generalize next.dropHandle 0 = state at stops lastManager lastHandles lastObject
  have lastHeld : 512 ∈ state.handles := by
    rw [lastHandles, nextHandles]
    exact (List.mem_erase_of_ne (by decide)).mpr List.mem_cons_self
  have notEvictable : state.evictable (⟨513, 0⟩, stamp) = false := by
    rw [Bool.eq_false_iff]
    intro evictable
    obtain ⟨entry, found, _, unheld⟩ := evictable_iff.mp evictable
    have object := objectOf_eq_some.mpr ⟨entry, found, rfl⟩
    rw [lastObject, last] at object
    rw [← Option.some.inj object] at unheld
    exact unheld lastHeld
  have stopped : state.getBlockCacheZeroed .default 0 514 = none := by
    have absent := objectOf_eq_none.mp ((lastObject ⟨514, 0⟩).trans missing)
    rw [State.getBlockCacheZeroed, absent]
    simp only [Option.map_eq_none_iff]
    rw [State.ensureCapacity, State.ensureCapacityLoop, if_pos (by rw [lastManager, size]; decide),
      State.evictOne, State.victim, lastManager, queue, State.evictScan,
      if_neg (by simp [notEvictable])]
    rfl
  have held := stops.2.2 0 514 stopped ⟨1, 0⟩ 0 ((lastObject _).trans first)
  rw [lastHandles, nextHandles] at held
  have nodup : (512 :: (List.range 511).reverse).Nodup :=
    List.nodup_cons.mpr ⟨by rw [List.mem_reverse, List.mem_range]; decide,
      List.nodup_reverse.mpr List.nodup_range⟩
  exact nodup.not_mem_erase held

/-- Over a full cache with the first entry unheld, the next load evicts it. -/
theorem get_evicts_first {full state : State} (ordered : CachedInOrder 512 full)
    (manager : state.manager = full.manager) (nextObject : state.nextObject = 512)
    (unheld : 0 ∉ state.handles) :
    ∃ next, state.step .default (.get 0 513) = some next ∧
      next.manager.entries.size = 512 ∧ next.handles = 512 :: state.handles ∧
      next.objectOf ⟨1, 0⟩ = none ∧ next.ReleasesRecorded (.drop 512) := by
  have entries (key : CacheKey) := ordered.entries key
  rw [← manager] at entries
  obtain ⟨rest, queue⟩ : ∃ rest, state.manager.queue = (⟨1, 0⟩, 1) :: rest := by
    rw [manager, ordered.queue, show 512 = 511 + 1 from rfl, List.range_succ_eq_map]
    exact ⟨_, rfl⟩
  have restLength : rest.length = 511 := by
    have lengthEq := congrArg List.length queue
    rw [manager, ordered.queue, List.length_map, List.length_range, List.length_cons] at lengthEq
    omega
  have lookup : state.manager.entries[(⟨1, 0⟩ : CacheKey)]? = some ⟨0, 1⟩ := by
    rw [entries]
    rfl
  have missing : state.manager.entries[(⟨513, 0⟩ : CacheKey)]? = none := by
    rw [entries]
    rfl
  have found : state.objectOf ⟨1, 0⟩ = some 0 := objectOf_eq_some.mpr ⟨_, lookup, rfl⟩
  have size : state.manager.entries.size = 512 := by rw [manager, ordered.size]
  have made := @ensureCapacity_of_full .default _ _ _ _ size (by decide)
    (victim_of_head queue lookup unheld) found
  generalize roomEq : state.removeEntry ⟨1, 0⟩ rest = room at made
  have roomObject (key : CacheKey) : room.objectOf key =
      if key = ⟨1, 0⟩ then none else state.objectOf key := by
    rw [← roomEq, objectOf_removeEntry]
  have roomNext : room.nextObject = 512 := by
    rw [← roomEq, removeEntry_nextObject, nextObject]
  have roomMissing : room.objectOf ⟨513, 0⟩ = none := by
    rw [roomObject, if_neg (by decide), State.objectOf, missing]
    rfl
  let cached : BlockCache := ⟨state.device 0 513, 513, 0, false⟩
  let next := (room.insertObject .default ⟨513, 0⟩ cached).acquire room.nextObject
  have nextQueue : next.manager.queue =
      rest ++ [((⟨513, 0⟩ : CacheKey), (room.manager.stamp + 1) % 2 ^ 64)] := by
    change (room.insertObject .default ⟨513, 0⟩ cached).manager.queue = _
    rw [State.insertObject, markUsed_queue_of_le]
    · simp only [← roomEq, queue_removeEntry]
    · simp only [← roomEq, queue_removeEntry, restLength]
      decide
  refine ⟨next, ?_, ?_, ?_, ?_, ?_⟩
  · simp only [State.step, State.getBlockCache, missing, State.loadBlockRange]
    change (state.loadOne .default 0 513 (state.device 0 513) true).bind some = _
    rw [State.loadOne, missing, made]
    rfl
  · change (room.insertObject .default ⟨513, 0⟩ cached).manager.entries.size = 512
    rw [size_insertObject .default cached roomMissing, ← roomEq, size_removeEntry _ found, size]
  · change room.nextObject :: room.handles = _
    rw [roomNext, ← roomEq, removeEntry_handles]
  · change (room.insertObject .default ⟨513, 0⟩ cached).objectOf ⟨1, 0⟩ = none
    rw [objectOf_insertObject, if_neg (by decide), roomObject, if_pos rfl]
  · -- Only the new entry has the object, and its use is the last record.
    intro key entry isEntry isObject
    have objectEq : (room.insertObject .default ⟨513, 0⟩ cached).objectOf key = some 512 :=
      objectOf_eq_some.mpr ⟨entry, isEntry, isObject⟩
    have keyEq : key = ⟨513, 0⟩ := by
      by_contra other
      rw [objectOf_insertObject, if_neg other, roomObject] at objectEq
      split at objectEq
      · cases objectEq
      · obtain ⟨old, isOld, oldObject⟩ := objectOf_eq_some.mp objectEq
        rw [entries] at isOld
        split at isOld
        · cases isOld
          simp only at oldObject
          omega
        · cases isOld
    subst keyEq
    have lookupNext : next.manager.entries[(⟨513, 0⟩ : CacheKey)]? =
        some ⟨512, (room.manager.stamp + 1) % 2 ^ 64⟩ := by
      change (room.insertObject .default ⟨513, 0⟩ cached).manager.entries[_]? = _
      rw [State.insertObject, markUsed_lookup, insert_lookup, if_pos rfl, roomNext]
      rfl
    rw [lookupNext] at isEntry
    cases isEntry
    rw [nextQueue]
    exact Or.inr (List.mem_append_right _ List.mem_cons_self)

/-- In a run that fills the cache, releases the first entry and evicts it for a further
block, whose reference is dropped, the cache runs out only when every entry is held. -/
theorem stopsAllHeld_after_eviction :
    ∃ state contents, Run .default State.ReleasesRecorded (fun _ _ => .zeroed) state contents ∧
      state.manager.entries.size = 512 ∧ state.objectOf ⟨1, 0⟩ = none ∧
      state.handles = (List.range 511).reverse.map (· + 1) ∧ state.StopsAllHeld .default := by
  obtain ⟨full, contents, fullRun, ordered, fullHandles⟩ := exists_held_run (Nat.le_refl 512)
  have fullHeld : 0 ∈ full.handles := by simp [fullHandles]
  have released : full.step .default (.drop 0) = some (full.dropHandle 0) := by
    rw [State.step, if_pos fullHeld]
  obtain ⟨manager, handles, nextObject⟩ := dropHandle_same full 0
  have kept : full.handles = (List.range 511).reverse.map (· + 1) ++ [0] := by
    rw [fullHandles, List.range_succ_eq_map, List.reverse_cons, List.map_reverse]
  have unheld : 0 ∉ (List.range 511).reverse.map (· + 1) := by
    rintro isMem
    obtain ⟨index, _, isZero⟩ := List.mem_map.mp isMem
    exact Nat.succ_ne_zero index isZero
  rw [kept, List.erase_append_right _ unheld, List.erase_cons_head, List.append_nil] at handles
  have records : full.ReleasesRecorded (.drop 0) := by
    intro key entry found isObject
    rw [ordered.entries] at found
    split at found
    · next inside =>
        cases found
        obtain rfl : key = ⟨1, 0⟩ := by
          obtain ⟨blockId, deviceId⟩ := key
          simp only at inside isObject
          rw [CacheKey.mk.injEq]
          omega
        rw [ordered.queue]
        exact Or.inr (List.mem_map.mpr ⟨0, List.mem_range.mpr (by decide), rfl⟩)
    · cases found
  obtain ⟨next, got, size, nextHandles, evicted, recordsNext⟩ :=
    get_evicts_first ordered manager (by rw [nextObject, ordered.nextObject])
      (by rw [handles]; exact unheld)
  have nextHeld : 512 ∈ next.handles := by rw [nextHandles]; exact List.mem_cons_self
  have dropped : next.step .default (.drop 512) = some (next.dropHandle 512) := by
    rw [State.step, if_pos nextHeld]
  obtain ⟨lastManager, lastHandles, _⟩ := dropHandle_same next 512
  rw [nextHandles, handles, List.erase_cons_head] at lastHandles
  have run := ((fullRun.step _ records released).step (.get 0 513) trivial got).step _ recordsNext
    dropped
  refine ⟨_, _, run, by rw [lastManager, size], ?_, lastHandles,
    stopsAllHeld_of_releasesRecorded run⟩
  rw [State.objectOf, lastManager]
  exact evicted

end BlockCaching

end Ext4

end OSWorkspace

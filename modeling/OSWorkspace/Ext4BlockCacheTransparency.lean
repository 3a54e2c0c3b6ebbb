import OSWorkspace.Ext4BlockCache

/-!
# Transparency of the ext4 block cache

The contents of a block are the bytes last written to it through the cache.
The invariant `Coherent` says that a cached block holds its contents and that
an uncached, or unmodified, block has them on its device.  Every operation
keeps it, except one case of reading ahead: the device is read before room is
made, so the eviction may write back the very block whose old bytes are about
to be entered.
-/

namespace OSWorkspace

namespace Ext4

namespace BlockCaching

/-- The object cached under a key. -/
def State.objectOf (state : State) (key : CacheKey) : Option Nat :=
  state.manager.entries[key]?.map CacheEntry.cache

/-- The contents of one block after a write. -/
def setContents (contents : Nat → Nat → Block) (deviceId blockId : Nat) (block : Block) :
    Nat → Nat → Block :=
  Function.update contents deviceId (Function.update (contents deviceId) blockId block)

@[simp]
theorem setContents_same (contents : Nat → Nat → Block) (deviceId blockId : Nat)
    (block : Block) : setContents contents deviceId blockId block deviceId blockId = block := by
  simp [setContents]

theorem setContents_of_ne (contents : Nat → Nat → Block) {key other : CacheKey}
    (block : Block) (different : other ≠ key) :
    setContents contents key.deviceId key.blockId block other.deviceId other.blockId =
      contents other.deviceId other.blockId := by
  rcases key with ⟨blockId, deviceId⟩
  rcases other with ⟨otherBlock, otherDevice⟩
  simp only [setContents]
  by_cases sameDevice : otherDevice = deviceId
  · subst otherDevice
    have differentBlock : otherBlock ≠ blockId := by
      rintro rfl
      exact different rfl
    simp [differentBlock]
  · simp [sameDevice]

/-- The bytes last written to every block, after one step of the callers. -/
def State.written (state : State) (contents : Nat → Nat → Block) : Op → Nat → Nat → Block
  | .getZeroed deviceId blockId => setContents contents deviceId blockId .zeroed
  | .write object offset data =>
      match state.objects object with
      | some blockCache =>
          setContents contents blockCache.deviceId blockCache.blockId
            ((contents blockCache.deviceId blockCache.blockId).write offset data)
      | none => contents
  | _ => contents

/-- States reached by allowed steps that do not panic, with the bytes last
written to every block. -/
inductive Run (config : Config) (allowed : State → Op → Prop) (device : Nat → Nat → Block) :
    State → (Nat → Nat → Block) → Prop
  | start : Run config allowed device (.initial device) device
  | step {state next : State} {contents : Nat → Nat → Block} (op : Op) :
      Run config allowed device state contents → allowed state op →
        state.step config op = some next →
          Run config allowed device next (state.written contents op)

/-- Reads return the bytes last written, through a fresh and through a held
reference, and a sync brings them to the device. -/
def State.Transparent (config : Config) (state : State) (contents : Nat → Nat → Block) : Prop :=
  (∀ deviceId blockId bytes, state.readBlock config deviceId blockId = some bytes →
    bytes = contents deviceId blockId) ∧
  (∀ object ∈ state.handles, ∃ blockCache, state.objects object = some blockCache ∧
    blockCache.cache = contents blockCache.deviceId blockCache.blockId) ∧
  state.blockCacheSyncAll.device = contents

/-- A miss reads ahead over a full cache, and the entry evicted to make room is
the next block, with bytes that its device does not have yet. -/
def State.LosesReadAhead (config : Config) (state : State) (deviceId blockId : Nat) : Prop :=
  1 < config.readAheadBlocks ∧ state.objectOf ⟨blockId, deviceId⟩ = none ∧
    config.blockCacheSize ≤ state.manager.entries.size ∧
      ∃ queue object blockCache,
        state.victim = some (⟨blockId + 1, deviceId⟩, queue) ∧
        state.objectOf ⟨blockId + 1, deviceId⟩ = some object ∧
        state.objects object = some blockCache ∧
        blockCache.cache ≠ state.device deviceId (blockId + 1)

/-- The steps that do not lose a block to reading ahead. -/
def State.KeepsReadAhead (config : Config) (state : State) : Op → Prop
  | .get deviceId blockId => ¬ state.LosesReadAhead config deviceId blockId
  | _ => True

structure Coherent (config : Config) (state : State) (contents : Nat → Nat → Block) : Prop where
  cached : ∀ key object, state.objectOf key = some object →
    ∃ blockCache, state.objects object = some blockCache ∧
      blockCache.blockId = key.blockId ∧ blockCache.deviceId = key.deviceId ∧
      blockCache.cache = contents key.deviceId key.blockId ∧
      (blockCache.modified = false →
        state.device key.deviceId key.blockId = contents key.deviceId key.blockId)
  uncached : ∀ key, state.objectOf key = none →
    state.device key.deviceId key.blockId = contents key.deviceId key.blockId
  held : ∀ object ∈ state.handles, ∃ key, state.objectOf key = some object
  fresh : ∀ object, state.nextObject ≤ object → state.objects object = none
  bounded : state.manager.entries.size ≤ config.blockCacheSize

namespace Coherent

variable {config : Config} {state : State} {contents : Nat → Nat → Block}

theorem key_unique (coherent : Coherent config state contents) {first second : CacheKey}
    {object : Nat} (firstObject : state.objectOf first = some object)
    (secondObject : state.objectOf second = some object) : first = second := by
  obtain ⟨firstCache, firstFound, firstBlock, firstDevice, _⟩ :=
    coherent.cached first object firstObject
  obtain ⟨secondCache, secondFound, secondBlock, secondDevice, _⟩ :=
    coherent.cached second object secondObject
  obtain rfl : firstCache = secondCache := by simpa [firstFound] using secondFound
  rcases first with ⟨firstId, firstDeviceId⟩
  rcases second with ⟨secondId, secondDeviceId⟩
  simp_all

theorem object_lt (coherent : Coherent config state contents) {key : CacheKey} {object : Nat}
    (found : state.objectOf key = some object) : object < state.nextObject := by
  obtain ⟨blockCache, stored, _⟩ := coherent.cached key object found
  by_contra notBelow
  rw [coherent.fresh object (by omega)] at stored
  simp at stored

theorem initial (device : Nat → Nat → Block) :
    Coherent config (.initial device) device := by
  constructor <;> simp [State.initial, State.objectOf, BlockCacheManager.new]

end Coherent

theorem compactQueue_entries (config : Config) (manager : BlockCacheManager) :
    (manager.compactQueue config).entries = manager.entries := by
  unfold BlockCacheManager.compactQueue
  split <;> rfl

theorem markUsed_lookup (config : Config) (state : State) (key other : CacheKey) :
    (state.markUsed config key).manager.entries[other]? =
      (state.manager.entries[other]?).map fun entry =>
        if other = key then { entry with stamp := (state.manager.stamp + 1) % 2 ^ 64 }
        else entry := by
  simp only [State.markUsed, BlockCacheManager.markUsed, compactQueue_entries,
    BlockCacheManager.nextStamp]
  cases found : state.manager.entries[key]? with
  | none =>
      by_cases same : other = key
      · subst other
        simp [found]
      · simp [same]
  | some entry =>
      rw [Std.TreeMap.getElem?_insert]
      by_cases same : other = key
      · subst other
        simp [found, Std.ReflCmp.compare_self]
      · have notEqual : ¬ CacheKey.compare key other = .eq := by
          intro equal
          exact same (Std.LawfulEqCmp.eq_of_compare equal).symm
        simp [same, notEqual]

@[simp]
theorem objectOf_markUsed (config : Config) (state : State) (key other : CacheKey) :
    (state.markUsed config key).objectOf other = state.objectOf other := by
  simp only [State.objectOf, markUsed_lookup, Option.map_map]
  congr 1
  funext entry
  simp only [Function.comp]
  split <;> rfl

theorem size_markUsed (config : Config) (state : State) (key : CacheKey) :
    (state.markUsed config key).manager.entries.size = state.manager.entries.size := by
  simp only [State.markUsed, BlockCacheManager.markUsed, compactQueue_entries,
    BlockCacheManager.nextStamp]
  cases found : state.manager.entries[key]? with
  | none => rfl
  | some entry =>
      have contained : key ∈ state.manager.entries := by
        rw [← Std.TreeMap.isSome_getElem?_iff_mem, found]
        rfl
      simp [Std.TreeMap.size_insert, contained]

theorem markUsed_stamp (config : Config) (state : State) (key : CacheKey) :
    (state.markUsed config key).manager.stamp = (state.manager.stamp + 1) % 2 ^ 64 := by
  simp only [State.markUsed, BlockCacheManager.markUsed, BlockCacheManager.compactQueue]
  split_ifs <;> rfl

theorem markUsed_queue_of_le {config : Config} {state : State} (key : CacheKey)
    (short : state.manager.queue.length + 1 ≤ config.blockCacheSize * 8) :
    (state.markUsed config key).manager.queue =
      state.manager.queue ++ [(key, (state.manager.stamp + 1) % 2 ^ 64)] := by
  simp only [State.markUsed, BlockCacheManager.markUsed, BlockCacheManager.compactQueue]
  split_ifs with fits
  · rfl
  · exfalso
    apply fits
    simpa [BlockCacheManager.nextStamp] using short

theorem coherent_markUsed {config : Config} {state : State} {contents : Nat → Nat → Block}
    (coherent : Coherent config state contents) (key : CacheKey) :
    Coherent config (state.markUsed config key) contents where
  cached other object found := coherent.cached other object (by simpa using found)
  uncached other missing := coherent.uncached other (by simpa using missing)
  held object objectMem := by simpa using coherent.held object objectMem
  fresh := coherent.fresh
  bounded := by
    rw [size_markUsed]
    exact coherent.bounded

theorem objectOf_eq_some {state : State} {key : CacheKey} {object : Nat} :
    state.objectOf key = some object ↔
      ∃ entry, state.manager.entries[key]? = some entry ∧ entry.cache = object := by
  simp [State.objectOf]

theorem size_pos {state : State} {key : CacheKey} {object : Nat}
    (found : state.objectOf key = some object) : 0 < state.manager.entries.size := by
  obtain ⟨entry, entryFound, _⟩ := objectOf_eq_some.mp found
  have contained : key ∈ state.manager.entries := by
    rw [← Std.TreeMap.isSome_getElem?_iff_mem, entryFound]
    rfl
  by_contra empty
  have isEmpty : state.manager.entries.isEmpty = true := by
    simp [Std.TreeMap.isEmpty_eq_size_eq_zero]
    omega
  exact Std.TreeMap.not_mem_of_isEmpty isEmpty contained

theorem objectOf_eq_none {state : State} {key : CacheKey} :
    state.objectOf key = none ↔ state.manager.entries[key]? = none := by
  simp [State.objectOf]

theorem coherent_acquire {config : Config} {state : State} {contents : Nat → Nat → Block}
    (coherent : Coherent config state contents) {key : CacheKey} {object : Nat}
    (found : state.objectOf key = some object) :
    Coherent config (state.acquire object) contents where
  cached := coherent.cached
  uncached := coherent.uncached
  held other otherMem := by
    rcases List.mem_cons.mp otherMem with rfl | otherMem
    · exact ⟨key, found⟩
    · exact coherent.held other otherMem
  fresh := coherent.fresh
  bounded := coherent.bounded

theorem sync_device {config : Config} {state : State} {contents : Nat → Nat → Block}
    (coherent : Coherent config state contents) {key : CacheKey} {object : Nat}
    (found : state.objectOf key = some object) (other : CacheKey) :
    (state.sync object).device other.deviceId other.blockId =
      if other = key then contents key.deviceId key.blockId
      else state.device other.deviceId other.blockId := by
  obtain ⟨blockCache, stored, blockEq, deviceEq, cacheEq, clean⟩ :=
    coherent.cached key object found
  simp only [State.sync, stored]
  by_cases dirty : blockCache.modified = true
  · simp only [dirty, if_true, State.writeBlock]
    change setContents state.device blockCache.deviceId blockCache.blockId blockCache.cache
      other.deviceId other.blockId = _
    rw [blockEq, deviceEq, cacheEq]
    by_cases same : other = key
    · subst other
      simp
    · rw [setContents_of_ne _ _ same, if_neg same]
  · rw [if_neg dirty]
    by_cases same : other = key
    · subst other
      rw [if_pos rfl]
      exact clean (by simpa using dirty)
    · rw [if_neg same]

theorem sync_objects_of_ne (state : State) {object other : Nat} (different : other ≠ object) :
    (state.sync object).objects other = state.objects other := by
  unfold State.sync
  split
  · split
    · simp [different]
    · rfl
  · rfl

theorem sync_objects_same {state : State} {object : Nat} {blockCache : BlockCache}
    (stored : state.objects object = some blockCache) :
    (state.sync object).objects object = some { blockCache with modified := false } := by
  unfold State.sync
  simp only [stored]
  by_cases dirty : blockCache.modified = true
  · simp [dirty]
  · rw [if_neg dirty, stored]
    rcases blockCache with ⟨cache, blockId, deviceId, modified⟩
    simpa using dirty

@[simp]
theorem sync_manager (state : State) (object : Nat) :
    (state.sync object).manager = state.manager := by
  unfold State.sync
  split
  · split <;> rfl
  · rfl

@[simp]
theorem sync_handles (state : State) (object : Nat) :
    (state.sync object).handles = state.handles := by
  unfold State.sync
  split
  · split <;> rfl
  · rfl

@[simp]
theorem sync_nextObject (state : State) (object : Nat) :
    (state.sync object).nextObject = state.nextObject := by
  unfold State.sync
  split
  · split <;> rfl
  · rfl

@[simp]
theorem objectOf_sync (state : State) (object : Nat) (key : CacheKey) :
    (state.sync object).objectOf key = state.objectOf key := by
  simp [State.objectOf]

theorem coherent_sync {config : Config} {state : State} {contents : Nat → Nat → Block}
    (coherent : Coherent config state contents) {key : CacheKey} {object : Nat}
    (found : state.objectOf key = some object) :
    Coherent config (state.sync object) contents where
  cached other otherObject otherFound := by
    rw [objectOf_sync] at otherFound
    obtain ⟨blockCache, stored, blockEq, deviceEq, cacheEq, clean⟩ :=
      coherent.cached other otherObject otherFound
    by_cases same : otherObject = object
    · subst otherObject
      obtain rfl := coherent.key_unique found otherFound
      refine ⟨_, sync_objects_same stored, blockEq, deviceEq, cacheEq, ?_⟩
      intro _
      rw [sync_device coherent found, if_pos rfl]
    · refine ⟨blockCache, by rw [sync_objects_of_ne _ same, stored], blockEq, deviceEq,
        cacheEq, ?_⟩
      intro unmodified
      rw [sync_device coherent found]
      split
      · rename_i sameKey
        rw [sameKey]
      · exact clean unmodified
  uncached other missing := by
    rw [objectOf_sync] at missing
    rw [sync_device coherent found]
    split
    · rename_i sameKey
      rw [sameKey]
    · exact coherent.uncached other missing
  held other otherMem := by
    rw [sync_handles] at otherMem
    simpa using coherent.held other otherMem
  fresh other above := by
    rw [sync_nextObject] at above
    have different : other ≠ object := by
      have below := coherent.object_lt found
      omega
    rw [sync_objects_of_ne _ different]
    exact coherent.fresh other above
  bounded := by
    rw [sync_manager]
    exact coherent.bounded

theorem entries_removeEntry (state : State) (key other : CacheKey)
    (queue : List (CacheKey × Nat)) :
    (state.removeEntry key queue).manager.entries[other]? =
      if other = key then none else state.manager.entries[other]? := by
  have erased : (state.manager.entries.erase key)[other]? =
      if other = key then none else state.manager.entries[other]? := by
    rw [Std.TreeMap.getElem?_erase]
    by_cases same : other = key
    · subst other
      simp [Std.ReflCmp.compare_self]
    · have notEqual : ¬ CacheKey.compare key other = .eq := by
        intro equal
        exact same (Std.LawfulEqCmp.eq_of_compare equal).symm
      simp [same, notEqual]
  rw [← erased, State.removeEntry]
  cases state.manager.entries[key]? with
  | none => rfl
  | some entry => simp only [State.dropCache, sync_manager]

theorem objectOf_removeEntry (state : State) (key other : CacheKey)
    (queue : List (CacheKey × Nat)) :
    (state.removeEntry key queue).objectOf other =
      if other = key then none else state.objectOf other := by
  rw [State.objectOf, State.objectOf, entries_removeEntry]
  split <;> rfl

theorem size_removeEntry {state : State} {key : CacheKey} {object : Nat}
    (queue : List (CacheKey × Nat)) (found : state.objectOf key = some object) :
    (state.removeEntry key queue).manager.entries.size =
      state.manager.entries.size - 1 := by
  obtain ⟨entry, entryFound, rfl⟩ := objectOf_eq_some.mp found
  have contained : key ∈ state.manager.entries := by
    rw [← Std.TreeMap.isSome_getElem?_iff_mem, entryFound]
    rfl
  simp [State.removeEntry, State.dropCache, Std.TreeMap.size_erase, contained]

@[simp]
theorem removeEntry_handles (state : State) (key : CacheKey)
    (queue : List (CacheKey × Nat)) :
    (state.removeEntry key queue).handles = state.handles := by
  simp only [State.removeEntry]
  split <;> simp [State.dropCache]

@[simp]
theorem removeEntry_nextObject (state : State) (key : CacheKey)
    (queue : List (CacheKey × Nat)) :
    (state.removeEntry key queue).nextObject = state.nextObject := by
  simp only [State.removeEntry]
  split <;> simp [State.dropCache]

theorem removeEntry_device {config : Config} {state : State} {contents : Nat → Nat → Block}
    (coherent : Coherent config state contents) {key : CacheKey} {object : Nat}
    (queue : List (CacheKey × Nat)) (found : state.objectOf key = some object)
    (other : CacheKey) :
    (state.removeEntry key queue).device other.deviceId other.blockId =
      if other = key then contents key.deviceId key.blockId
      else state.device other.deviceId other.blockId := by
  obtain ⟨entry, entryFound, rfl⟩ := objectOf_eq_some.mp found
  have synced := sync_device coherent found other
  rw [← synced]
  simp only [State.removeEntry, entryFound, State.dropCache]
  simp only [State.sync]
  split
  · split <;> rfl
  · rfl

theorem removeEntry_objects {state : State} {key : CacheKey} {object : Nat}
    (queue : List (CacheKey × Nat)) (found : state.objectOf key = some object)
    {other : Nat} (different : other ≠ object) :
    (state.removeEntry key queue).objects other = state.objects other := by
  obtain ⟨entry, entryFound, rfl⟩ := objectOf_eq_some.mp found
  simp only [State.removeEntry, entryFound, State.dropCache,
    Function.update_of_ne different]
  rw [sync_objects_of_ne _ different]

theorem coherent_removeEntry {config : Config} {state : State} {contents : Nat → Nat → Block}
    (coherent : Coherent config state contents) {key : CacheKey} {object : Nat}
    (queue : List (CacheKey × Nat)) (found : state.objectOf key = some object)
    (unheld : object ∉ state.handles) :
    Coherent config (state.removeEntry key queue) contents where
  cached other otherObject otherFound := by
    rw [objectOf_removeEntry] at otherFound
    split at otherFound
    · simp at otherFound
    rename_i different
    have differentObject : otherObject ≠ object := by
      rintro rfl
      exact different (coherent.key_unique otherFound found)
    obtain ⟨blockCache, stored, blockEq, deviceEq, cacheEq, clean⟩ :=
      coherent.cached other otherObject otherFound
    refine ⟨blockCache, by rw [removeEntry_objects queue found differentObject, stored],
      blockEq, deviceEq, cacheEq, ?_⟩
    intro unmodified
    rw [removeEntry_device coherent queue found, if_neg different]
    exact clean unmodified
  uncached other missing := by
    rw [removeEntry_device coherent queue found]
    split
    · rename_i same
      rw [same]
    · rename_i different
      rw [objectOf_removeEntry, if_neg different] at missing
      exact coherent.uncached other missing
  held other otherMem := by
    rw [removeEntry_handles] at otherMem
    obtain ⟨otherKey, otherFound⟩ := coherent.held other otherMem
    refine ⟨otherKey, ?_⟩
    rw [objectOf_removeEntry, if_neg ?_]
    · exact otherFound
    · rintro rfl
      rw [found] at otherFound
      exact unheld (Option.some.inj otherFound ▸ otherMem)
  fresh other above := by
    rw [removeEntry_nextObject] at above
    have different : other ≠ object := by
      have below := coherent.object_lt found
      omega
    rw [removeEntry_objects queue found different]
    exact coherent.fresh other above
  bounded := by
    rw [size_removeEntry queue found]
    have := coherent.bounded
    omega

theorem evictScan_spec {state : State} {limit : Nat} {key : CacheKey}
    {queue rest : List (CacheKey × Nat)} {scanned : Nat}
    (scan : state.evictScan limit scanned queue = some (key, rest)) :
    ∃ object, state.objectOf key = some object ∧ object ∉ state.handles := by
  induction queue generalizing scanned with
  | nil => simp [State.evictScan] at scan
  | cons item queue ih =>
      unfold State.evictScan at scan
      split at scan
      · rename_i chosen
        simp only [Option.some.injEq, Prod.mk.injEq] at scan
        obtain ⟨rfl, rfl⟩ := scan
        unfold State.evictable at chosen
        cases found : state.manager.entries[item.1]? with
        | none => simp [found] at chosen
        | some entry =>
            simp only [found, State.strongCount, Bool.and_eq_true, beq_iff_eq] at chosen
            refine ⟨entry.cache, objectOf_eq_some.mpr ⟨entry, found, rfl⟩, ?_⟩
            apply List.count_eq_zero.mp
            omega
      · split at scan
        · simp at scan
        · exact ih scan

/-- Making room keeps the state or evicts the one victim. -/
theorem ensureCapacity_cases {config : Config} {state room : State}
    (bounded : state.manager.entries.size ≤ config.blockCacheSize)
    (made : state.ensureCapacity config = some room) :
    (state.manager.entries.size < config.blockCacheSize ∧ room = state) ∨
      (config.blockCacheSize ≤ state.manager.entries.size ∧
        ∃ key object queue, state.victim = some (key, queue) ∧
          state.objectOf key = some object ∧ object ∉ state.handles ∧
          room = state.removeEntry key queue) := by
  unfold State.ensureCapacity State.ensureCapacityLoop at made
  split at made
  · rename_i full
    right
    refine ⟨full, ?_⟩
    unfold State.evictOne at made
    cases chosen : state.victim with
    | none => simp [chosen] at made
    | some victim =>
        obtain ⟨key, queue⟩ := victim
        obtain ⟨object, found, unheld⟩ := evictScan_spec chosen
        refine ⟨key, object, queue, rfl, found, unheld, ?_⟩
        simp only [chosen, Option.map_some, Option.bind_some] at made
        have sizeAfter := size_removeEntry queue found
        have nonempty := size_pos found
        obtain ⟨rounds, roundsEq⟩ : ∃ rounds, state.manager.entries.size = rounds + 1 :=
          ⟨state.manager.entries.size - 1, by omega⟩
        rw [roundsEq, State.ensureCapacityLoop, if_neg (by omega)] at made
        exact (Option.some.inj made).symm
  · left
    exact ⟨by omega, (Option.some.inj made).symm⟩

theorem coherent_ensureCapacity {config : Config} {state room : State}
    {contents : Nat → Nat → Block} (coherent : Coherent config state contents)
    (made : state.ensureCapacity config = some room) :
    Coherent config room contents ∧ room.manager.entries.size < config.blockCacheSize ∧
      room.handles = state.handles ∧ room.nextObject = state.nextObject := by
  rcases ensureCapacity_cases coherent.bounded made with ⟨small, rfl⟩ |
    ⟨full, key, object, queue, _, found, unheld, rfl⟩
  · exact ⟨coherent, small, rfl, rfl⟩
  · have bounded := coherent.bounded
    have sizeAfter := size_removeEntry queue found
    have nonempty := size_pos found
    exact ⟨coherent_removeEntry coherent queue found unheld, by omega, by simp, by simp⟩

theorem insert_lookup (entries : Std.TreeMap CacheKey CacheEntry CacheKey.compare)
    (key other : CacheKey) (entry : CacheEntry) :
    (entries.insert key entry)[other]? =
      if other = key then some entry else entries[other]? := by
  rw [Std.TreeMap.getElem?_insert]
  by_cases same : other = key
  · subst other
    simp [Std.ReflCmp.compare_self]
  · have notEqual : ¬ CacheKey.compare key other = .eq := by
      intro equal
      exact same (Std.LawfulEqCmp.eq_of_compare equal).symm
    simp [same, notEqual]

@[simp]
theorem objectOf_insertObject (config : Config) (state : State) (key other : CacheKey)
    (blockCache : BlockCache) :
    (state.insertObject config key blockCache).objectOf other =
      if other = key then some state.nextObject else state.objectOf other := by
  simp only [State.insertObject, objectOf_markUsed]
  simp only [State.objectOf, insert_lookup]
  split <;> rfl

theorem size_insertObject (config : Config) {state : State} {key : CacheKey}
    (blockCache : BlockCache) (missing : state.objectOf key = none) :
    (state.insertObject config key blockCache).manager.entries.size =
      state.manager.entries.size + 1 := by
  have absent : ¬ key ∈ state.manager.entries := by
    rw [← Std.TreeMap.isSome_getElem?_iff_mem, objectOf_eq_none.mp missing]
    simp
  rw [State.insertObject, size_markUsed]
  simp [Std.TreeMap.size_insert, absent]

/-- A block entered with its contents keeps the cache coherent; so does a
modified block, which then defines the contents. -/
theorem coherent_insertObject {config : Config} {state : State}
    {contents : Nat → Nat → Block} (coherent : Coherent config state contents)
    (key : CacheKey) (data : Block) (modified : Bool) (missing : state.objectOf key = none)
    (room : state.manager.entries.size < config.blockCacheSize)
    (clean : modified = false → data = contents key.deviceId key.blockId) :
    Coherent config
      (state.insertObject config key ⟨data, key.blockId, key.deviceId, modified⟩)
      (setContents contents key.deviceId key.blockId data) where
  cached other object found := by
    rw [objectOf_insertObject] at found
    split at found
    · rename_i same
      subst other
      obtain rfl := Option.some.inj found
      refine ⟨⟨data, key.blockId, key.deviceId, modified⟩, by
        simp [State.insertObject, State.markUsed], rfl, rfl, by simp, ?_⟩
      intro unmodified
      rw [setContents_same, clean unmodified]
      exact coherent.uncached key missing
    · rename_i different
      obtain ⟨blockCache, stored, blockEq, deviceEq, cacheEq, cleanCache⟩ :=
        coherent.cached other object found
      have below := coherent.object_lt found
      refine ⟨blockCache, ?_, blockEq, deviceEq, ?_, ?_⟩
      · simp only [State.insertObject, State.markUsed]
        rw [Function.update_of_ne (by omega), stored]
      · rw [setContents_of_ne _ _ different, cacheEq]
      · intro unmodified
        rw [setContents_of_ne _ _ different]
        exact cleanCache unmodified
  uncached other absent := by
    rw [objectOf_insertObject] at absent
    split at absent
    · simp at absent
    · rename_i different
      rw [setContents_of_ne _ _ different]
      exact coherent.uncached other absent
  held object objectMem := by
    obtain ⟨other, found⟩ := coherent.held object objectMem
    refine ⟨other, ?_⟩
    rw [objectOf_insertObject, if_neg ?_]
    · exact found
    · rintro rfl
      simp [missing] at found
  fresh object above := by
    simp only [State.insertObject, State.markUsed] at above ⊢
    rw [Function.update_of_ne (by omega)]
    exact coherent.fresh object (by omega)
  bounded := by
    rw [size_insertObject config _ missing]
    omega

theorem setContents_self (contents : Nat → Nat → Block) (deviceId blockId : Nat) :
    setContents contents deviceId blockId (contents deviceId blockId) = contents := by
  simp [setContents]

/-- Entering one block of a range that was read with its contents. -/
theorem coherent_loadOne {config : Config} {state next : State}
    {contents : Nat → Nat → Block} (coherent : Coherent config state contents)
    {deviceId blockId : Nat} {data : Block} {first : Bool}
    (current : state.objectOf ⟨blockId, deviceId⟩ = none → data = contents deviceId blockId)
    (loaded : state.loadOne config deviceId blockId data first = some next) :
    Coherent config next contents ∧
      ∃ object, next.objectOf ⟨blockId, deviceId⟩ = some object ∧
        next.handles = if first then object :: state.handles else state.handles := by
  unfold State.loadOne at loaded
  cases found : state.manager.entries[(⟨blockId, deviceId⟩ : CacheKey)]? with
  | some entry =>
      have cached : state.objectOf ⟨blockId, deviceId⟩ = some entry.cache :=
        objectOf_eq_some.mpr ⟨entry, found, rfl⟩
      simp only [found, Option.some.injEq] at loaded
      subst next
      cases first with
      | true =>
          refine ⟨coherent_markUsed (coherent_acquire coherent cached) _, entry.cache, ?_, rfl⟩
          rw [objectOf_markUsed]
          exact cached
      | false =>
          refine ⟨coherent_markUsed coherent _, entry.cache, ?_, rfl⟩
          rw [objectOf_markUsed]
          exact cached
  | none =>
      have missing : state.objectOf ⟨blockId, deviceId⟩ = none := objectOf_eq_none.mpr found
      simp only [found, Option.map_eq_some_iff] at loaded
      obtain ⟨room, made, nextEq⟩ := loaded
      obtain ⟨roomCoherent, small, handlesEq, _⟩ := coherent_ensureCapacity coherent made
      have roomMissing : room.objectOf ⟨blockId, deviceId⟩ = none := by
        rcases ensureCapacity_cases coherent.bounded made with ⟨_, rfl⟩ |
          ⟨_, key, object, queue, _, _, _, rfl⟩
        · exact missing
        · rw [objectOf_removeEntry]
          split
          · rfl
          · exact missing
      have inserted := coherent_insertObject roomCoherent ⟨blockId, deviceId⟩ data false
        roomMissing small (fun _ => current missing)
      rw [current missing, setContents_self, ← current missing] at inserted
      have entered : (room.insertObject config ⟨blockId, deviceId⟩
          ⟨data, blockId, deviceId, false⟩).objectOf ⟨blockId, deviceId⟩ =
            some room.nextObject := by simp
      subst nextEq
      cases first with
      | true =>
          refine ⟨coherent_acquire inserted entered, room.nextObject, entered, ?_⟩
          simp [State.acquire, State.insertObject, State.markUsed, handlesEq]
      | false =>
          refine ⟨inserted, room.nextObject, entered, ?_⟩
          simp [State.insertObject, State.markUsed, handlesEq]

/-- After the first round of a load, a block that was not cached before still
has its device contents, and so has one that the eviction did not lose. -/
theorem readAhead_current {config : Config} {state next : State}
    {contents : Nat → Nat → Block} (coherent : Coherent config state contents)
    {deviceId blockId : Nat} {data : Block} (readsAhead : 1 < config.readAheadBlocks)
    (missing : state.objectOf ⟨blockId, deviceId⟩ = none)
    (keeps : ¬ state.LosesReadAhead config deviceId blockId)
    (loaded : state.loadOne config deviceId blockId data true = some next)
    (nextMissing : next.objectOf ⟨blockId + 1, deviceId⟩ = none) :
    state.device deviceId (blockId + 1) = contents deviceId (blockId + 1) := by
  cases before : state.objectOf ⟨blockId + 1, deviceId⟩ with
  | none => exact coherent.uncached ⟨blockId + 1, deviceId⟩ before
  | some object =>
      unfold State.loadOne at loaded
      simp only [objectOf_eq_none.mp missing, Option.map_eq_some_iff] at loaded
      obtain ⟨room, made, rfl⟩ := loaded
      have roomMissing : room.objectOf ⟨blockId + 1, deviceId⟩ = none := by
        change (room.insertObject config _ _).objectOf _ = none at nextMissing
        rwa [objectOf_insertObject, if_neg (by simp)] at nextMissing
      rcases ensureCapacity_cases coherent.bounded made with ⟨_, rfl⟩ |
        ⟨full, key, evicted, queue, chosen, found, _, rfl⟩
      · simp [before] at roomMissing
      · rw [objectOf_removeEntry] at roomMissing
        split at roomMissing
        · rename_i same
          subst key
          obtain ⟨blockCache, stored, _, _, cacheEq, _⟩ := coherent.cached _ object before
          by_contra stale
          apply keeps
          refine ⟨readsAhead, missing, full, queue, object, blockCache, chosen, before,
            stored, ?_⟩
          rw [cacheEq]
          exact fun equal => stale equal.symm
        · simp [before] at roomMissing

/-- The configurations the cache is built with. -/
def Config.Built (config : Config) : Prop :=
  config = .default ∨ config = .loongarch64

/-- A miss enters the block, and on LoongArch the next one after it. -/
theorem getBlockCache_miss {config : Config} (built : config.Built) {state next : State}
    {deviceId blockId : Nat} (missing : state.objectOf ⟨blockId, deviceId⟩ = none)
    (got : state.getBlockCache config deviceId blockId = some next) :
    ∃ middle, state.loadOne config deviceId blockId (state.device deviceId blockId) true =
        some middle ∧
      (next = middle ∨ 1 < config.readAheadBlocks ∧
        middle.loadOne config deviceId (blockId + 1) (state.device deviceId (blockId + 1))
          false = some next) := by
  simp only [State.getBlockCache, objectOf_eq_none.mp missing, State.loadBlockRange] at got
  rcases built with rfl | rfl
  · change ((state.loadOne _ deviceId blockId _ true).bind some) = some next at got
    obtain ⟨middle, first, same⟩ := Option.bind_eq_some_iff.mp got
    exact ⟨middle, first, Or.inl (Option.some.inj same).symm⟩
  · change ((state.loadOne _ deviceId blockId _ true).bind fun middle =>
      (middle.loadOne _ deviceId (blockId + 1) _ false).bind some) = some next at got
    obtain ⟨middle, first, rest⟩ := Option.bind_eq_some_iff.mp got
    obtain ⟨last, second, same⟩ := Option.bind_eq_some_iff.mp rest
    obtain rfl := Option.some.inj same
    exact ⟨middle, first, Or.inr ⟨by decide, second⟩⟩

theorem loadOne_keeps_held {config : Config} {state next : State}
    {contents : Nat → Nat → Block} (coherent : Coherent config state contents)
    {deviceId blockId : Nat} {data : Block}
    (loaded : state.loadOne config deviceId blockId data false = some next)
    (object : Nat) (held : object ∈ state.handles) :
    next.handles = state.handles ∧ next.objects object = state.objects object := by
  unfold State.loadOne at loaded
  cases found : state.manager.entries[(⟨blockId, deviceId⟩ : CacheKey)]? with
  | some entry =>
      simp only [found, Option.some.injEq] at loaded
      subst next
      exact ⟨rfl, rfl⟩
  | none =>
      simp only [found, Option.map_eq_some_iff] at loaded
      obtain ⟨room, made, rfl⟩ := loaded
      obtain ⟨key, keyFound⟩ := coherent.held object held
      have below := coherent.object_lt keyFound
      obtain ⟨_, _, handlesEq, nextEq⟩ := coherent_ensureCapacity coherent made
      have kept : room.objects object = state.objects object := by
        rcases ensureCapacity_cases coherent.bounded made with ⟨_, rfl⟩ |
          ⟨_, key, evicted, queue, _, evictedFound, unheld, rfl⟩
        · rfl
        · refine removeEntry_objects queue evictedFound ?_
          rintro rfl
          exact unheld held
      refine ⟨by simp [State.insertObject, State.markUsed, handlesEq], ?_⟩
      change Function.update room.objects room.nextObject _ object = _
      rw [Function.update_of_ne (by omega), kept]

/-- A reference to a block is obtained with the contents of the block, also by
a step that loses the next block. -/
theorem getBlockCache_reads {config : Config} (built : config.Built) {state next : State}
    {contents : Nat → Nat → Block} (coherent : Coherent config state contents)
    {deviceId blockId : Nat}
    (got : state.getBlockCache config deviceId blockId = some next) :
    ∃ object blockCache, next.handles = object :: state.handles ∧
      next.objects object = some blockCache ∧
      blockCache.cache = contents deviceId blockId := by
  cases found : state.objectOf ⟨blockId, deviceId⟩ with
  | some object =>
      obtain ⟨entry, entryFound, rfl⟩ := objectOf_eq_some.mp found
      simp only [State.getBlockCache, entryFound, Option.some.injEq] at got
      subst next
      obtain ⟨blockCache, stored, _, _, cacheEq, _⟩ := coherent.cached _ entry.cache found
      exact ⟨entry.cache, blockCache, rfl, stored, cacheEq⟩
  | none =>
      obtain ⟨middle, first, rest⟩ := getBlockCache_miss built found got
      obtain ⟨middleCoherent, object, middleFound, handlesEq⟩ :=
        coherent_loadOne coherent
          (fun _ => coherent.uncached ⟨blockId, deviceId⟩ found) first
      obtain ⟨blockCache, stored, _, _, cacheEq, _⟩ :=
        middleCoherent.cached _ object middleFound
      rw [if_pos rfl] at handlesEq
      rcases rest with rfl | ⟨_, second⟩
      · exact ⟨object, blockCache, handlesEq, stored, cacheEq⟩
      · obtain ⟨handlesSame, objectSame⟩ := loadOne_keeps_held middleCoherent second
          object (by simp [handlesEq])
        exact ⟨object, blockCache, by rw [handlesSame, handlesEq],
          by rw [objectSame, stored], cacheEq⟩

theorem coherent_getBlockCache {config : Config} (built : config.Built) {state next : State}
    {contents : Nat → Nat → Block} (coherent : Coherent config state contents)
    {deviceId blockId : Nat} (keeps : ¬ state.LosesReadAhead config deviceId blockId)
    (got : state.getBlockCache config deviceId blockId = some next) :
    Coherent config next contents := by
  cases found : state.objectOf ⟨blockId, deviceId⟩ with
  | some object =>
      obtain ⟨entry, entryFound, rfl⟩ := objectOf_eq_some.mp found
      simp only [State.getBlockCache, entryFound, Option.some.injEq] at got
      subst next
      exact coherent_markUsed (coherent_acquire coherent found) _
  | none =>
      obtain ⟨middle, first, rest⟩ := getBlockCache_miss built found got
      have middleCoherent := (coherent_loadOne coherent
        (fun _ => coherent.uncached ⟨blockId, deviceId⟩ found) first).1
      rcases rest with rfl | ⟨readsAhead, second⟩
      · exact middleCoherent
      · exact (coherent_loadOne middleCoherent
          (readAhead_current coherent readsAhead found keeps first) second).1

theorem coherent_modify {config : Config} {state next : State}
    {contents : Nat → Nat → Block} (coherent : Coherent config state contents)
    (key : CacheKey) {object : Nat} {change : Block → Block}
    (found : state.objectOf key = some object)
    (changed : state.modify object change = some next) :
    Coherent config next
      (setContents contents key.deviceId key.blockId
        (change (contents key.deviceId key.blockId))) := by
  obtain ⟨blockCache, stored, blockEq, deviceEq, cacheEq, _⟩ :=
    coherent.cached key object found
  simp only [State.modify, stored, Option.map_some, Option.some.injEq] at changed
  subst next
  refine ⟨?_, ?_, coherent.held, ?_, coherent.bounded⟩
  · intro other otherObject otherFound
    by_cases same : otherObject = object
    · subst otherObject
      obtain rfl := coherent.key_unique otherFound found
      exact ⟨_, Function.update_self .., blockEq, deviceEq, by simp [cacheEq], by simp⟩
    · have different : other ≠ key := by
        rintro rfl
        rw [show state.objectOf other = some otherObject from otherFound] at found
        exact same (Option.some.inj found)
      obtain ⟨otherCache, otherStored, rest⟩ := coherent.cached other otherObject otherFound
      refine ⟨otherCache, (Function.update_of_ne same _ _).trans otherStored, ?_⟩
      rw [setContents_of_ne _ _ different]
      exact rest
  · intro other missing
    have different : other ≠ key := by
      rintro rfl
      rw [show state.objectOf other = none from missing] at found
      simp at found
    rw [setContents_of_ne _ _ different]
    exact coherent.uncached other missing
  · intro other above
    have below := coherent.object_lt found
    change state.nextObject ≤ other at above
    change Function.update state.objects object _ other = none
    rw [Function.update_of_ne (by omega)]
    exact coherent.fresh other above

/-- Dropping one reference leaves the object with the entry that holds it. -/
theorem coherent_dropHandle {config : Config} {state : State}
    {contents : Nat → Nat → Block} (coherent : Coherent config state contents)
    {object : Nat} (objectMem : object ∈ state.handles) :
    Coherent config (state.dropHandle object) contents := by
  obtain ⟨key, found⟩ := coherent.held object objectMem
  obtain ⟨blockCache, stored, blockEq, deviceEq, _⟩ := coherent.cached key object found
  obtain ⟨entry, entryFound, rfl⟩ := objectOf_eq_some.mp found
  have released : state.dropHandle entry.cache =
      { state with handles := state.handles.erase entry.cache } := by
    simp only [State.dropHandle, stored, blockEq, deviceEq]
    rw [show (⟨key.blockId, key.deviceId⟩ : CacheKey) = key from rfl, entryFound]
    simp
  rw [released]
  exact ⟨coherent.cached, coherent.uncached,
    fun other otherMem => coherent.held other (List.mem_of_mem_erase otherMem),
    coherent.fresh, coherent.bounded⟩

theorem coherent_syncFold {config : Config} {contents : Nat → Nat → Block}
    (entries : List (CacheKey × CacheEntry)) {state : State}
    (coherent : Coherent config state contents)
    (listed : ∀ entry ∈ entries, state.objectOf entry.1 = some entry.2.cache) :
    let synced := entries.foldl (fun current entry => current.sync entry.2.cache) state
    Coherent config synced contents ∧
      ∀ key : CacheKey,
        (state.device key.deviceId key.blockId = contents key.deviceId key.blockId ∨
          ∃ entry ∈ entries, entry.1 = key) →
        synced.device key.deviceId key.blockId = contents key.deviceId key.blockId := by
  induction entries generalizing state with
  | nil =>
      refine ⟨coherent, ?_⟩
      rintro key (current | ⟨entry, entryMem, _⟩)
      · exact current
      · simp at entryMem
  | cons entry entries ih =>
      have found := listed entry (by simp)
      have synced := ih (coherent_sync coherent found) (by
        intro other otherMem
        rw [objectOf_sync]
        exact listed other (List.mem_cons_of_mem _ otherMem))
      refine ⟨synced.1, ?_⟩
      intro key reached
      apply synced.2
      rw [sync_device coherent found]
      rcases reached with current | ⟨other, otherMem, rfl⟩
      · left
        split
        · rename_i same
          rw [same]
        · exact current
      · rcases List.mem_cons.mp otherMem with rfl | otherMem
        · left
          rw [if_pos rfl]
        · exact Or.inr ⟨other, otherMem, rfl⟩

theorem toList_objectOf {state : State} {entry : CacheKey × CacheEntry}
    (entryMem : entry ∈ state.manager.entries.toList) :
    state.objectOf entry.1 = some entry.2.cache := by
  rcases entry with ⟨key, entry⟩
  exact objectOf_eq_some.mpr
    ⟨entry, Std.TreeMap.mem_toList_iff_getElem?_eq_some.mp entryMem, rfl⟩

theorem blockCacheSyncAll_device {config : Config} {state : State}
    {contents : Nat → Nat → Block} (coherent : Coherent config state contents) :
    state.blockCacheSyncAll.device = contents := by
  have synced := coherent_syncFold state.manager.entries.toList coherent
    (fun entry entryMem => toList_objectOf entryMem)
  funext deviceId blockId
  refine synced.2 ⟨blockId, deviceId⟩ ?_
  cases found : state.manager.entries[(⟨blockId, deviceId⟩ : CacheKey)]? with
  | none => exact Or.inl (coherent.uncached _ (objectOf_eq_none.mpr found))
  | some entry =>
      exact Or.inr ⟨_, Std.TreeMap.mem_toList_iff_getElem?_eq_some.mpr found, rfl⟩

theorem coherent_step {config : Config} (built : config.Built) {state next : State}
    {contents : Nat → Nat → Block} (coherent : Coherent config state contents) {op : Op}
    (keeps : state.KeepsReadAhead config op) (stepped : state.step config op = some next) :
    Coherent config next (state.written contents op) := by
  cases op with
  | get deviceId blockId => exact coherent_getBlockCache built coherent keeps stepped
  | getZeroed deviceId blockId =>
      obtain ⟨middle, got, rest⟩ := Option.bind_eq_some_iff.mp stepped
      obtain ⟨object, head, changed⟩ := Option.bind_eq_some_iff.mp rest
      unfold State.getBlockCacheZeroed at got
      cases found : state.manager.entries[(⟨blockId, deviceId⟩ : CacheKey)]? with
      | some entry =>
          have cached : state.objectOf ⟨blockId, deviceId⟩ = some entry.cache :=
            objectOf_eq_some.mpr ⟨entry, found, rfl⟩
          simp only [found, Option.some.injEq] at got
          subst middle
          obtain rfl : entry.cache = object := by simpa [State.markUsed, State.acquire] using head
          exact coherent_modify (coherent_markUsed (coherent_acquire coherent cached) _) _
            (by rw [objectOf_markUsed]; exact cached) changed
      | none =>
          have missing : state.objectOf ⟨blockId, deviceId⟩ = none := objectOf_eq_none.mpr found
          simp only [found, Option.map_eq_some_iff] at got
          obtain ⟨room, made, rfl⟩ := got
          obtain ⟨roomCoherent, small, _⟩ := coherent_ensureCapacity coherent made
          have roomMissing : room.objectOf ⟨blockId, deviceId⟩ = none := by
            rcases ensureCapacity_cases coherent.bounded made with ⟨_, rfl⟩ |
              ⟨_, key, object, queue, _, _, _, rfl⟩
            · exact missing
            · rw [objectOf_removeEntry]
              split
              · rfl
              · exact missing
          have inserted := coherent_insertObject roomCoherent ⟨blockId, deviceId⟩ .zeroed true
            roomMissing small (by simp)
          have entered : (room.insertObject config ⟨blockId, deviceId⟩
              ⟨.zeroed, blockId, deviceId, true⟩).objectOf ⟨blockId, deviceId⟩ =
                some room.nextObject := by simp
          obtain rfl : room.nextObject = object := by simpa [State.acquire] using head
          have modified := coherent_modify (coherent_acquire inserted entered) ⟨blockId, deviceId⟩
            entered changed
          simpa [State.written, setContents] using modified
  | write object offset data =>
      simp only [State.step] at stepped
      split at stepped
      · rename_i objectMem
        unfold State.writeBytes at stepped
        split at stepped
        · obtain ⟨key, found⟩ := coherent.held object objectMem
          obtain ⟨blockCache, stored, blockEq, deviceEq, _⟩ := coherent.cached key object found
          have modified := coherent_modify coherent _ found stepped
          simpa [State.written, stored, blockEq, deviceEq] using modified
        · simp at stepped
      · simp at stepped
  | drop object =>
      simp only [State.step] at stepped
      split at stepped
      · rename_i objectMem
        obtain rfl := Option.some.inj stepped
        exact coherent_dropHandle coherent objectMem
      · simp at stepped
  | syncAll =>
      obtain rfl := Option.some.inj stepped
      exact (coherent_syncFold state.manager.entries.toList coherent
        (fun entry entryMem => toList_objectOf entryMem)).1

theorem coherent_run {config : Config} (built : config.Built) {device : Nat → Nat → Block}
    {state : State} {contents : Nat → Nat → Block}
    (run : Run config (State.KeepsReadAhead config) device state contents) :
    Coherent config state contents := by
  induction run with
  | start => exact .initial device
  | step op _ keeps stepped ih => exact coherent_step built ih keeps stepped

theorem transparent_of_coherent {config : Config} (built : config.Built) {state : State}
    {contents : Nat → Nat → Block} (coherent : Coherent config state contents) :
    state.Transparent config contents := by
  refine ⟨?_, ?_, blockCacheSyncAll_device coherent⟩
  · intro deviceId blockId bytes read
    obtain ⟨next, got, rest⟩ := Option.bind_eq_some_iff.mp read
    obtain ⟨object, blockCache, handlesEq, stored, cacheEq⟩ :=
      getBlockCache_reads built coherent got
    simp only [handlesEq, List.head?_cons, Option.bind_some, stored, Option.map_some,
      Option.some.injEq] at rest
    rw [← rest, cacheEq]
  · intro object objectMem
    obtain ⟨key, found⟩ := coherent.held object objectMem
    obtain ⟨blockCache, stored, blockEq, deviceEq, cacheEq, _⟩ :=
      coherent.cached key object found
    exact ⟨blockCache, stored, by rw [blockEq, deviceEq, cacheEq]⟩

/-- The cache is transparent in every state that is reached without losing a
block to reading ahead. -/
theorem transparent_of_keepsReadAhead {config : Config} (built : config.Built)
    {device : Nat → Nat → Block} {state : State} {contents : Nat → Nat → Block}
    (run : Run config (State.KeepsReadAhead config) device state contents) :
    state.Transparent config contents :=
  transparent_of_coherent built (coherent_run built run)

theorem Run.weaken {config : Config} {allowed : State → Op → Prop} {device : Nat → Nat → Block}
    {state : State} {contents : Nat → Nat → Block} (run : Run config allowed device state contents) :
    Run config (fun _ _ => True) device state contents := by
  induction run with
  | start => exact .start
  | step op run keeps stepped ih => exact ih.step op trivial stepped

/-- The first `count` blocks of device 0 after block 0 were cached in order, and
nothing was evicted. -/
structure CachedInOrder (count : Nat) (state : State) : Prop where
  entries : ∀ key : CacheKey, state.manager.entries[key]? =
    if key.deviceId = 0 ∧ 1 ≤ key.blockId ∧ key.blockId ≤ count then
      some ⟨key.blockId - 1, key.blockId⟩
    else none
  size : state.manager.entries.size = count
  queue : state.manager.queue =
    (List.range count).map fun index => ((⟨index + 1, 0⟩ : CacheKey), index + 1)
  stamp : state.manager.stamp = count
  nextObject : state.nextObject = count
  device : state.device = fun _ _ => .zeroed

theorem cachedInOrder_initial : CachedInOrder 0 (.initial fun _ _ => .zeroed) := by
  refine ⟨?_, rfl, rfl, rfl, rfl, rfl⟩
  intro key
  rw [if_neg (by omega)]
  exact Std.TreeMap.getElem?_emptyc

theorem ensureCapacity_of_lt {config : Config} {state : State}
    (small : state.manager.entries.size < config.blockCacheSize) :
    state.ensureCapacity config = some state := by
  rw [State.ensureCapacity, State.ensureCapacityLoop, if_neg (by omega)]

theorem ensureCapacity_of_full {config : Config} {state : State} {key : CacheKey}
    {object : Nat} {queue : List (CacheKey × Nat)}
    (full : state.manager.entries.size = config.blockCacheSize)
    (positive : 0 < config.blockCacheSize)
    (chosen : state.victim = some (key, queue)) (found : state.objectOf key = some object) :
    state.ensureCapacity config = some (state.removeEntry key queue) := by
  have sizeAfter := size_removeEntry queue found
  obtain ⟨rounds, roundsEq⟩ : ∃ rounds, state.manager.entries.size = rounds + 1 :=
    ⟨state.manager.entries.size - 1, by omega⟩
  rw [State.ensureCapacity, State.ensureCapacityLoop, if_pos (by omega), State.evictOne, chosen,
    Option.map_some, Option.bind_some, roundsEq, State.ensureCapacityLoop]
  change (if config.blockCacheSize ≤ (state.removeEntry key queue).manager.entries.size then _
    else _) = _
  rw [if_neg (by omega)]

theorem victim_of_head {state : State} {key : CacheKey} {stamp object : Nat}
    {queue : List (CacheKey × Nat)} (head : state.manager.queue = (key, stamp) :: queue)
    (found : state.manager.entries[key]? = some ⟨object, stamp⟩)
    (unheld : object ∉ state.handles) : state.victim = some (key, queue) := by
  have evictable : state.evictable (key, stamp) = true := by
    simp [State.evictable, found, State.strongCount, List.count_eq_zero.mpr unheld]
  rw [State.victim, head, State.evictScan, if_pos evictable]

theorem cachedInOrder_loadOne {config : Config} {count : Nat} {state : State}
    (ordered : CachedInOrder count state) (small : count < config.blockCacheSize)
    (stamps : count + 1 < 2 ^ 64) (first : Bool) :
    ∃ next, state.loadOne config 0 (count + 1) .zeroed first = some next ∧
      CachedInOrder (count + 1) next ∧
      next.handles = (if first then count :: state.handles else state.handles) ∧
      next.objects count = some ⟨.zeroed, count + 1, 0, false⟩ ∧
      ∀ object < count, next.objects object = state.objects object := by
  have missing : state.manager.entries[(⟨count + 1, 0⟩ : CacheKey)]? = none := by
    rw [ordered.entries, if_neg (by simp)]
  have room : state.ensureCapacity config = some state :=
    ensureCapacity_of_lt (by rw [ordered.size]; exact small)
  let inserted := state.insertObject config ⟨count + 1, 0⟩
    ⟨.zeroed, count + 1, 0, false⟩
  have insertedOrdered : CachedInOrder (count + 1) inserted := by
    constructor
    · intro key
      simp only [inserted, State.insertObject, markUsed_lookup, insert_lookup,
        ordered.entries, ordered.nextObject, ordered.stamp]
      rcases key with ⟨blockId, deviceId⟩
      by_cases same : (⟨blockId, deviceId⟩ : CacheKey) = ⟨count + 1, 0⟩
      · obtain ⟨rfl, rfl⟩ : blockId = count + 1 ∧ deviceId = 0 := by simpa using same
        simp only [and_self, if_true, Option.map_some, Option.some.injEq, CacheEntry.mk.injEq,
          Nat.add_sub_cancel, true_and, Nat.le_add_left, Nat.le_refl]
        omega
      · have bounds : (deviceId = 0 ∧ 1 ≤ blockId ∧ blockId ≤ count + 1) ↔
            (deviceId = 0 ∧ 1 ≤ blockId ∧ blockId ≤ count) := by
          simp only [CacheKey.mk.injEq] at same
          omega
        simp [same, bounds]
    · rw [show inserted = state.insertObject config ⟨count + 1, 0⟩ _ from rfl,
        size_insertObject _ _ (objectOf_eq_none.mpr missing), ordered.size]
    · have stampEq : (count + 1) % 2 ^ 64 = count + 1 := Nat.mod_eq_of_lt stamps
      simp only [inserted, State.insertObject]
      rw [markUsed_queue_of_le]
      · simp only [ordered.queue, ordered.stamp, stampEq, List.range_succ, List.map_append,
          List.map_cons, List.map_nil]
      · simp only [ordered.queue, List.length_map, List.length_range]
        omega
    · simp only [inserted, State.insertObject, markUsed_stamp, ordered.stamp]
      omega
    · simp [inserted, State.insertObject, State.markUsed, ordered.nextObject]
    · simp [inserted, State.insertObject, State.markUsed, ordered.device]
  have objectsEq : ∀ object < count, inserted.objects object = state.objects object := by
    intro object below
    change Function.update state.objects state.nextObject _ object = _
    rw [Function.update_of_ne (by rw [ordered.nextObject]; omega)]
  have newObject : inserted.objects count = some ⟨.zeroed, count + 1, 0, false⟩ := by
    change Function.update state.objects state.nextObject _ count = _
    rw [ordered.nextObject, Function.update_self]
  refine ⟨if first then inserted.acquire count else inserted, ?_, ?_, ?_, ?_, ?_⟩
  · simp only [State.loadOne, missing, room, Option.map_some, ordered.nextObject]
    rfl
  · cases first
    · exact insertedOrdered
    · exact ⟨insertedOrdered.entries, insertedOrdered.size, insertedOrdered.queue,
        insertedOrdered.stamp, insertedOrdered.nextObject, insertedOrdered.device⟩
  · cases first <;> rfl
  · cases first
    · exact newObject
    · exact newObject
  · cases first
    · exact objectsEq
    · exact objectsEq

/-- A read of the next uncached block caches it and its successor. -/
theorem cachedInOrder_get {count : Nat} {state : State}
    (ordered : CachedInOrder count state) (small : count + 1 < 2048) :
    ∃ next, state.step .loongarch64 (.get 0 (count + 1)) = some next ∧
      CachedInOrder (count + 2) next ∧ next.handles = count :: state.handles ∧
      next.objects count = some ⟨.zeroed, count + 1, 0, false⟩ ∧
      ∀ object < count, next.objects object = state.objects object := by
  obtain ⟨middle, first, middleOrdered, middleHandles, middleNew, middleObjects⟩ :=
    @cachedInOrder_loadOne .loongarch64 _ _ ordered (Nat.lt_of_succ_lt small) (by omega) true
  obtain ⟨next, second, nextOrdered, nextHandles, _, nextObjects⟩ :=
    @cachedInOrder_loadOne .loongarch64 _ _ middleOrdered small (by omega) false
  have missing : state.manager.entries[(⟨count + 1, 0⟩ : CacheKey)]? = none := by
    rw [ordered.entries, if_neg (by simp)]
  refine ⟨next, ?_, nextOrdered, ?_, by rw [nextObjects count (by omega), middleNew], ?_⟩
  · simp only [State.step, State.getBlockCache, missing, State.loadBlockRange]
    rw [ordered.device]
    change ((state.loadOne .loongarch64 0 (count + 1) .zeroed true).bind fun middle =>
      (middle.loadOne .loongarch64 0 (count + 1 + 1) .zeroed false).bind some) = some next
    rw [first, Option.bind_some, second, Option.bind_some]
  · rw [nextHandles, middleHandles]
    rfl
  · intro object below
    rw [nextObjects object (by omega), middleObjects object below]

/-- The block whose first byte is one. -/
def marked : Block :=
  (Bytes.zeroed : Block).write 0 [1]

theorem marked_ne_zeroed : marked ≠ .zeroed := by
  intro equal
  have firstByte := congrArg (fun block : Block => block.get 0) equal
  revert firstByte
  decide

theorem CachedInOrder.keepsReadAhead {count : Nat} {state : State}
    (ordered : CachedInOrder count state) (small : count < 2048) (deviceId blockId : Nat) :
    state.KeepsReadAhead .loongarch64 (.get deviceId blockId) := by
  rintro ⟨_, _, full, _⟩
  rw [ordered.size] at full
  exact absurd full (Nat.not_le_of_lt small)

/-- After a write to block 1, any even number of further blocks can be cached
without evicting it. -/
theorem exists_filled_run (rounds : Nat) (bound : rounds ≤ 1023) :
    ∃ state, Run .loongarch64 (State.KeepsReadAhead .loongarch64) (fun _ _ => .zeroed) state
        (setContents (fun _ _ => .zeroed) 0 1 marked) ∧
      CachedInOrder (2 * rounds + 2) state ∧
      (0 ∉ state.handles ∧ 1 ∉ state.handles) ∧
      state.objects 0 = some ⟨marked, 1, 0, true⟩ := by
  induction rounds with
  | zero =>
      obtain ⟨loaded, got, ordered, handlesEq, newObject, _⟩ :=
        cachedInOrder_get cachedInOrder_initial (by omega)
      have loadedRun := @Run.step .loongarch64 (State.KeepsReadAhead .loongarch64) _ _ _ _
        (.get 0 1) .start (cachedInOrder_initial.keepsReadAhead (by decide) 0 1) got
      let dirty : State := { loaded with
        objects := Function.update loaded.objects 0 (some ⟨marked, 1, 0, true⟩) }
      have wrote : loaded.step .loongarch64 (.write 0 0 [1]) = some dirty := by
        have held : 0 ∈ loaded.handles := by simp [handlesEq]
        simp only [State.step, held, if_true, State.writeBytes, State.modify, newObject]
        rfl
      have dirtyRun := loadedRun.step (.write 0 0 [1]) trivial wrote
      let released : State := { dirty with handles := [] }
      have dropped : dirty.step .loongarch64 (.drop 0) = some released := by
        have held : 0 ∈ dirty.handles := by simp [dirty, handlesEq]
        have entry : dirty.manager.entries[(⟨1, 0⟩ : CacheKey)]? = some ⟨0, 1⟩ := by
          change loaded.manager.entries[(⟨1, 0⟩ : CacheKey)]? = _
          rw [ordered.entries]
          rfl
        simp only [State.step, held, if_true, State.dropHandle]
        have stored : dirty.objects 0 = some ⟨marked, 1, 0, true⟩ := by simp [dirty]
        simp only [stored, entry]
        simp [released, dirty, handlesEq, State.initial]
      have releasedRun := dirtyRun.step (.drop 0) trivial dropped
      refine ⟨released, ?_, ?_, ⟨by simp [released], by simp [released]⟩,
        by simp [released, dirty]⟩
      · simpa [State.written, newObject, marked] using releasedRun
      · exact ⟨ordered.entries, ordered.size, ordered.queue, ordered.stamp,
          ordered.nextObject, ordered.device⟩
  | succ rounds ih =>
      obtain ⟨state, run, ordered, ⟨zeroUnheld, oneUnheld⟩, stored⟩ := ih (by omega)
      obtain ⟨next, got, nextOrdered, handlesEq, _, objectsEq⟩ :=
        cachedInOrder_get ordered (by omega)
      refine ⟨next, run.step _ (ordered.keepsReadAhead (by omega) _ _) got, nextOrdered, ?_, ?_⟩
      · simp only [handlesEq, List.mem_cons, not_or]
        exact ⟨⟨by omega, zeroUnheld⟩, ⟨by omega, oneUnheld⟩⟩
      · rw [objectsEq 0 (by omega), stored]

/-- Over a full cache, reading a block that is not cached evicts blocks 1 and 2, and
caches the next block as the device had it before. -/
theorem get_evicts {state : State} (ordered : CachedInOrder 2048 state)
    (unheld : 0 ∉ state.handles ∧ 1 ∉ state.handles) {blockId : Nat}
    (uncached : blockId = 0 ∨ 2048 < blockId) :
    ∃ next object, state.step .loongarch64 (.get 0 blockId) = some next ∧
      (blockId ≠ 0 → next.objectOf ⟨1, 0⟩ = none) ∧
      next.objectOf ⟨blockId + 1, 0⟩ = some object ∧
      next.objects object = some ⟨.zeroed, blockId + 1, 0, false⟩ := by
  obtain ⟨rest, queueEq⟩ : ∃ rest, state.manager.queue =
      (⟨1, 0⟩, 1) :: (⟨2, 0⟩, 2) :: rest := by
    rw [ordered.queue, show 2048 = 2046 + 1 + 1 from rfl, List.range_succ_eq_map,
      List.range_succ_eq_map]
    exact ⟨_, rfl⟩
  have lookupFirst : state.manager.entries[(⟨1, 0⟩ : CacheKey)]? = some ⟨0, 1⟩ := by
    rw [ordered.entries]
    rfl
  have lookupSecond : state.manager.entries[(⟨2, 0⟩ : CacheKey)]? = some ⟨1, 2⟩ := by
    rw [ordered.entries]
    rfl
  have missing : state.objectOf ⟨blockId, 0⟩ = none := by
    rw [objectOf_eq_none, ordered.entries, if_neg (by simp only; omega)]
  have foundFirst : state.objectOf ⟨1, 0⟩ = some 0 := objectOf_eq_some.mpr ⟨_, lookupFirst, rfl⟩
  -- The first round evicts block 1.
  have firstRoom := @ensureCapacity_of_full .loongarch64 _ _ _ _ ordered.size (by decide)
    (victim_of_head queueEq lookupFirst unheld.1) foundFirst
  let room := state.removeEntry ⟨1, 0⟩ ((⟨2, 0⟩, 2) :: rest)
  have roomQueue : room.manager.queue = (⟨2, 0⟩, 2) :: rest := by
    simp [room, State.removeEntry, lookupFirst, State.dropCache]
  have roomSize : room.manager.entries.size = 2047 := by
    rw [show room = state.removeEntry ⟨1, 0⟩ _ from rfl, size_removeEntry _ foundFirst,
      ordered.size]
  let middle := (room.insertObject .loongarch64 ⟨blockId, 0⟩ ⟨.zeroed, blockId, 0, false⟩).acquire
    room.nextObject
  have first : state.loadOne .loongarch64 0 blockId .zeroed true = some middle := by
    simp only [State.loadOne, objectOf_eq_none.mp missing, firstRoom, Option.map_some]
    rfl
  have roomMissing : room.objectOf ⟨blockId, 0⟩ = none := by
    simp [room, objectOf_removeEntry, missing]
  have middleObject (key : CacheKey) (other : key ≠ ⟨blockId, 0⟩) :
      middle.objectOf key = if key = ⟨1, 0⟩ then none else state.objectOf key := by
    change (room.insertObject _ _ _).objectOf key = _
    rw [objectOf_insertObject, if_neg other, objectOf_removeEntry]
  -- Block 1 was just evicted, and every later block was never cached.
  have middleMissing : middle.objectOf ⟨blockId + 1, 0⟩ = none := by
    rw [middleObject _ (by simp)]
    split
    · rfl
    · next later =>
        rw [CacheKey.mk.injEq] at later
        rw [objectOf_eq_none, ordered.entries, if_neg (by simp only; omega)]
  have middleSize : middle.manager.entries.size = 2048 := by
    change (room.insertObject _ _ _).manager.entries.size = _
    rw [size_insertObject _ _ roomMissing, roomSize]
  have middleLookup : middle.manager.entries[(⟨2, 0⟩ : CacheKey)]? = some ⟨1, 2⟩ := by
    change (room.insertObject _ _ _).manager.entries[_]? = _
    have kept : room.manager.entries[(⟨2, 0⟩ : CacheKey)]? = some ⟨1, 2⟩ := by
      simp only [room, State.removeEntry, lookupFirst, State.dropCache, sync_manager]
      rw [Std.TreeMap.getElem?_erase, if_neg (by decide), lookupSecond]
    rw [State.insertObject, markUsed_lookup, insert_lookup,
      if_neg (by rw [CacheKey.mk.injEq]; omega), kept, Option.map_some,
      if_neg (by rw [CacheKey.mk.injEq]; omega)]
  have middleQueue : ∃ tail, middle.manager.queue = (⟨2, 0⟩, 2) :: tail := by
    refine ⟨rest ++ [(⟨blockId, 0⟩, (room.manager.stamp + 1) % 2 ^ 64)], ?_⟩
    change (room.insertObject _ _ _).manager.queue = _
    rw [State.insertObject, markUsed_queue_of_le]
    · simp [roomQueue]
    · have lengthEq := congrArg List.length ordered.queue
      simp only [queueEq, List.length_cons, List.length_map, List.length_range] at lengthEq
      simp only [roomQueue, List.length_cons, Config.loongarch64]
      omega
  obtain ⟨tail, middleQueue⟩ := middleQueue
  have middleUnheld : 1 ∉ middle.handles := by
    change 1 ∉ room.nextObject :: room.handles
    simp [room, ordered.nextObject, unheld.2]
  -- The second round enters the next block as it was read before the eviction.
  have secondRoom := @ensureCapacity_of_full .loongarch64 _ _ _ _ middleSize (by decide)
    (victim_of_head middleQueue middleLookup middleUnheld)
    (objectOf_eq_some.mpr ⟨_, middleLookup, rfl⟩)
  let last := middle.removeEntry ⟨2, 0⟩ tail
  let next := last.insertObject .loongarch64 ⟨blockId + 1, 0⟩ ⟨.zeroed, blockId + 1, 0, false⟩
  have second : middle.loadOne .loongarch64 0 (blockId + 1) .zeroed false = some next := by
    simp only [State.loadOne, objectOf_eq_none.mp middleMissing, secondRoom, Option.map_some]
    rfl
  refine ⟨next, last.nextObject, ?_, fun later => ?_, by simp [next], ?_⟩
  · simp only [State.step, State.getBlockCache, objectOf_eq_none.mp missing,
      State.loadBlockRange]
    rw [ordered.device]
    change ((state.loadOne .loongarch64 0 blockId .zeroed true).bind fun middle =>
      (middle.loadOne .loongarch64 0 (blockId + 1) .zeroed false).bind some) = some next
    rw [first, Option.bind_some, second, Option.bind_some]
  · rw [objectOf_insertObject, if_neg (by rw [CacheKey.mk.injEq]; omega), objectOf_removeEntry,
      if_neg (by simp), middleObject _ (by rw [ne_eq, CacheKey.mk.injEq]; omega), if_pos rfl]
  · change Function.update last.objects last.nextObject _ last.nextObject = _
    rw [Function.update_self]

/-- In a run that writes block 1, fills the cache with reads that read ahead, and evicts
block 1 by a further one, the cache stays transparent. -/
theorem transparent_after_eviction :
    ∃ state contents, Run .loongarch64 (State.KeepsReadAhead .loongarch64)
        (fun _ _ => .zeroed) state contents ∧
      contents 0 1 = marked ∧ state.objectOf ⟨1, 0⟩ = none ∧
      (∃ object, state.objectOf ⟨2050, 0⟩ = some object) ∧
      state.Transparent .loongarch64 contents := by
  obtain ⟨full, run, ordered, unheld, _⟩ := exists_filled_run 1023 (by omega)
  obtain ⟨next, object, got, evicted, readAhead, _⟩ :=
    get_evicts ordered unheld (Or.inr (by decide : 2048 < 2049))
  have keeps : full.KeepsReadAhead .loongarch64 (.get 0 2049) := by
    rintro ⟨_, _, _, _, object, _, _, found, _⟩
    obtain ⟨entry, cached, _⟩ := objectOf_eq_some.mp found
    rw [ordered.entries, if_neg (by simp)] at cached
    cases cached
  have longer := run.step _ keeps got
  exact ⟨next, _, longer, rfl, evicted (by decide), ⟨object, readAhead⟩,
    transparent_of_keepsReadAhead (Or.inr rfl) longer⟩

/-- Reading ahead on LoongArch loses a write: block 1 is written, 2046 further
blocks are cached, and reading block 0 brings back the old bytes of block 1. -/
theorem not_transparent_readAhead :
    ¬ ∀ config : Config, config.Built → ∀ device state contents,
      Run config (fun _ _ => True) device state contents →
        state.Transparent config contents := by
  intro transparent
  obtain ⟨state, run, ordered, unheld, _⟩ := exists_filled_run 1023 (by omega)
  obtain ⟨next, object, got, _, found, stored⟩ := get_evicts ordered unheld (Or.inl rfl)
  have reads := (transparent .loongarch64 (Or.inr rfl) _ next _
    (run.weaken.step _ trivial got)).1 0 1 .zeroed
  obtain ⟨entry, entryFound, rfl⟩ := objectOf_eq_some.mp found
  have stale : next.readBlock .loongarch64 0 1 = some .zeroed := by
    simp only [State.readBlock, State.getBlockCache, entryFound, Option.bind_some]
    simp [State.markUsed, State.acquire, stored]
  exact marked_ne_zeroed (by simpa [State.written] using (reads stale).symm)

end BlockCaching

end Ext4

end OSWorkspace

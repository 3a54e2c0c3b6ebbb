import OSWorkspace.ByteBuffers

/-!
# The ext4 block cache

A model of `block_cache.rs`: blocks of any number of devices are cached in an
ordered map, every entry owns a reference-counted cache object, callers hold
further references to it, and the queue of uses decides which unreferenced
entry is evicted.  Dropping the last reference to an object writes a modified
block back to its device.
-/

namespace OSWorkspace

namespace Ext4

/-- Block size: 4096 bytes (standard for ext4). -/
def blockSz : Nat := 4096

/-- The contents of one block. -/
abbrev Block := Bytes blockSz

namespace BlockCaching

/-- The two build-time constants of the cache. -/
structure Config where
  blockCacheSize : Nat
  readAheadBlocks : Nat

/-- The constants used on every architecture but LoongArch. -/
def Config.default : Config := ⟨512, 1⟩

/-- The constants used on LoongArch. -/
def Config.loongarch64 : Config := ⟨2048, 2⟩

/-- Cached block inside memory. -/
structure BlockCache where
  cache : Block
  blockId : Nat
  deviceId : Nat
  modified : Bool

structure CacheKey where
  blockId : Nat
  deviceId : Nat
deriving DecidableEq

/-- The derived order of keys: by block, then by device. -/
def CacheKey.compare : CacheKey → CacheKey → Ordering :=
  compareLex (compareOn CacheKey.blockId) (compareOn CacheKey.deviceId)

instance : Std.TransCmp CacheKey.compare :=
  inferInstanceAs (Std.TransCmp (compareLex _ _))

instance : Std.LawfulEqCmp CacheKey.compare where
  eq_of_compare := by
    rintro ⟨firstBlock, firstDevice⟩ ⟨secondBlock, secondDevice⟩ equal
    simp only [CacheKey.compare, compareLex_eq_eq, compareOn, Nat.compare_eq_eq] at equal
    obtain ⟨rfl, rfl⟩ := equal
    rfl

/-- `cache` is the identity of the reference-counted cache object. -/
structure CacheEntry where
  cache : Nat
  stamp : Nat

/-- Block cache manager. -/
structure BlockCacheManager where
  entries : Std.TreeMap CacheKey CacheEntry CacheKey.compare
  queue : List (CacheKey × Nat)
  stamp : Nat

/-- Create new block cache manager. -/
def BlockCacheManager.new : BlockCacheManager := ⟨∅, [], 0⟩

/-- The manager together with everything it acts on: the devices, the heap of
cache objects, and the references that callers hold.  A device returns the
last bytes written to a block. -/
structure State where
  device : Nat → Nat → Block
  objects : Nat → Option BlockCache
  nextObject : Nat
  manager : BlockCacheManager
  handles : List Nat

/-- No block cached and no reference held. -/
def State.initial (device : Nat → Nat → Block) : State :=
  ⟨device, fun _ => none, 0, .new, []⟩

/-- Store one block of one device. -/
def State.writeBlock (state : State) (deviceId blockId : Nat) (block : Block) : State :=
  { state with
    device := Function.update state.device deviceId
      (Function.update (state.device deviceId) blockId block) }

/-- References to an object of the map: the one of its entry and those of the
callers. -/
def State.strongCount (state : State) (object : Nat) : Nat :=
  1 + state.handles.count object

/-- Sync cache to disk. -/
def State.sync (state : State) (object : Nat) : State :=
  match state.objects object with
  | some blockCache =>
      if blockCache.modified then
        { state.writeBlock blockCache.deviceId blockCache.blockId blockCache.cache with
          objects := Function.update state.objects object
            (some { blockCache with modified := false }) }
      else state
  | none => state

/-- The last reference to an object is dropped. -/
def State.dropCache (state : State) (object : Nat) : State :=
  let synced := state.sync object
  { synced with objects := Function.update synced.objects object none }

/-- Rebuild an overlong queue from the entries in key order. -/
def BlockCacheManager.compactQueue (config : Config) (manager : BlockCacheManager) :
    BlockCacheManager :=
  if manager.queue.length ≤ config.blockCacheSize * 8 then manager
  else { manager with
    queue := manager.entries.toList.map fun entry => (entry.1, entry.2.stamp) }

/-- The 64-bit stamp counter wraps around. -/
def BlockCacheManager.nextStamp (manager : BlockCacheManager) : BlockCacheManager :=
  { manager with stamp := (manager.stamp + 1) % 2 ^ 64 }

def BlockCacheManager.markUsed (config : Config) (manager : BlockCacheManager)
    (key : CacheKey) : BlockCacheManager :=
  let stamped := manager.nextStamp
  let entries :=
    match stamped.entries[key]? with
    | some entry => stamped.entries.insert key { entry with stamp := stamped.stamp }
    | none => stamped.entries
  { stamped with
    entries := entries
    queue := stamped.queue ++ [(key, stamped.stamp)] }.compactQueue config

def State.markUsed (config : Config) (state : State) (key : CacheKey) : State :=
  { state with manager := state.manager.markUsed config key }

/-- An item of the queue can be evicted when it is the latest use of its entry
and no caller references the entry. -/
def State.evictable (state : State) (item : CacheKey × Nat) : Bool :=
  match state.manager.entries[item.1]? with
  | some entry => entry.stamp == item.2 && state.strongCount entry.cache == 1
  | none => false

/-- Pop items off the queue until one can be evicted; `none` is the panic of an
exhausted queue. -/
def State.evictScan (state : State) (limit : Nat) :
    (scanned : Nat) → List (CacheKey × Nat) → Option (CacheKey × List (CacheKey × Nat))
  | _, [] => none
  | scanned, item :: queue =>
      if state.evictable item then some (item.1, queue)
      else if scanned + 1 ≥ limit then none
      else state.evictScan limit (scanned + 1) queue

/-- The entry that `evictOne` removes, with the queue it leaves. -/
def State.victim (state : State) : Option (CacheKey × List (CacheKey × Nat)) :=
  state.evictScan (state.manager.queue.length + 1) 0 state.manager.queue

/-- Remove an entry; its object had no other reference and is dropped. -/
def State.removeEntry (state : State) (key : CacheKey) (queue : List (CacheKey × Nat)) :
    State :=
  let removed := { state with
    manager := { state.manager with
      entries := state.manager.entries.erase key
      queue := queue } }
  match state.manager.entries[key]? with
  | some entry => removed.dropCache entry.cache
  | none => removed

def State.evictOne (state : State) : Option State :=
  state.victim.map fun (key, queue) => state.removeEntry key queue

/-- The eviction loop.  Every round removes an entry, so one round more than
there are entries reaches the end of the loop or the panic. -/
def State.ensureCapacityLoop (config : Config) : (rounds : Nat) → State → Option State
  | 0, _ => none
  | rounds + 1, state =>
      if config.blockCacheSize ≤ state.manager.entries.size then
        state.evictOne.bind (ensureCapacityLoop config rounds)
      else some state

def State.ensureCapacity (config : Config) (state : State) : Option State :=
  ensureCapacityLoop config (state.manager.entries.size + 1) state

/-- Allocate a cache object and insert its entry. -/
def State.insertObject (config : Config) (state : State) (key : CacheKey)
    (blockCache : BlockCache) : State :=
  { state with
    objects := Function.update state.objects state.nextObject (some blockCache)
    nextObject := state.nextObject + 1
    manager := { state.manager with
      entries := state.manager.entries.insert key ⟨state.nextObject, 0⟩ } }.markUsed config key

/-- A caller receives a further reference. -/
def State.acquire (state : State) (object : Nat) : State :=
  { state with handles := object :: state.handles }

/-- One round of the loop of `loadBlockRange`: `data` is the block as it was
read from the device before the loop started, and the reference to the first
block is taken as soon as it exists. -/
def State.loadOne (config : Config) (state : State) (deviceId blockId : Nat) (data : Block)
    (first : Bool) : Option State :=
  let key : CacheKey := ⟨blockId, deviceId⟩
  match state.manager.entries[key]? with
  | some entry =>
      let taken := if first then state.acquire entry.cache else state
      some (taken.markUsed config key)
  | none =>
      (state.ensureCapacity config).map fun room =>
        let inserted := room.insertObject config key ⟨data, blockId, deviceId, false⟩
        if first then inserted.acquire room.nextObject else inserted

def State.loadLoop (config : Config) (deviceId : Nat) :
    State → (blockId : Nat) → (data : List Block) → (first : Bool) → Option State
  | state, _, [], _ => some state
  | state, blockId, block :: data, first =>
      (state.loadOne config deviceId blockId block first).bind fun next =>
        loadLoop config deviceId next (blockId + 1) data false

/-- Read `count` blocks from the device, then enter those not yet cached. -/
def State.loadBlockRange (config : Config) (state : State) (deviceId startBlock count : Nat) :
    Option State :=
  let data := (List.range (max count 1)).map fun index =>
    state.device deviceId (startBlock + index)
  state.loadLoop config deviceId startBlock data true

/-- Get block cache for given block id: the new reference is the head of the
handles of the resulting state. -/
def State.getBlockCache (config : Config) (state : State) (deviceId blockId : Nat) :
    Option State :=
  let key : CacheKey := ⟨blockId, deviceId⟩
  match state.manager.entries[key]? with
  | some entry => some ((state.acquire entry.cache).markUsed config key)
  | none => state.loadBlockRange config deviceId blockId config.readAheadBlocks

/-- Get block cache for given block id without reading old disk contents when
absent. -/
def State.getBlockCacheZeroed (config : Config) (state : State) (deviceId blockId : Nat) :
    Option State :=
  let key : CacheKey := ⟨blockId, deviceId⟩
  match state.manager.entries[key]? with
  | some entry => some ((state.acquire entry.cache).markUsed config key)
  | none =>
      (state.ensureCapacity config).map fun room =>
        (room.insertObject config key ⟨.zeroed, blockId, deviceId, true⟩).acquire
          room.nextObject

/-- Modify the bytes behind a reference; every mutable access marks the block
dirty. -/
def State.modify (state : State) (object : Nat) (change : Block → Block) : Option State :=
  (state.objects object).map fun blockCache =>
    { state with
      objects := Function.update state.objects object
        (some { blockCache with cache := change blockCache.cache, modified := true }) }

/-- Write bytes through `get_bytes_mut`; a range past the block panics. -/
def State.writeBytes (state : State) (object offset : Nat) (data : List UInt8) :
    Option State :=
  if offset + data.length ≤ blockSz then
    state.modify object fun block => block.write offset data
  else none

/-- A caller drops a reference.  The object goes with its last reference. -/
def State.dropHandle (state : State) (object : Nat) : State :=
  let released := { state with handles := state.handles.erase object }
  match state.objects object with
  | none => released
  | some blockCache =>
      let held :=
        match state.manager.entries[(⟨blockCache.blockId, blockCache.deviceId⟩ : CacheKey)]? with
        | some entry => entry.cache == object
        | none => false
      if held || released.handles.contains object then released
      else released.dropCache object

/-- Sync all block caches to disk. -/
def State.blockCacheSyncAll (state : State) : State :=
  state.manager.entries.toList.foldl (fun current entry => current.sync entry.2.cache) state

/-- What callers do with the cache.  A zeroed block is filled with zeros at
once, as every caller of `get_block_cache_zeroed` does. -/
inductive Op where
  | get (deviceId blockId : Nat)
  | getZeroed (deviceId blockId : Nat)
  | write (object offset : Nat) (data : List UInt8)
  | drop (object : Nat)
  | syncAll

/-- One step of the callers; `none` is a panic, or a reference nobody holds. -/
def State.step (config : Config) (state : State) : Op → Option State
  | .get deviceId blockId => state.getBlockCache config deviceId blockId
  | .getZeroed deviceId blockId =>
      (state.getBlockCacheZeroed config deviceId blockId).bind fun next =>
        next.handles.head?.bind fun object => next.modify object fun _ => .zeroed
  | .write object offset data =>
      if object ∈ state.handles then state.writeBytes object offset data else none
  | .drop object =>
      if object ∈ state.handles then some (state.dropHandle object) else none
  | .syncAll => some state.blockCacheSyncAll

/-- Read a whole block through the cache. -/
def State.readBlock (config : Config) (state : State) (deviceId blockId : Nat) :
    Option Block :=
  (state.getBlockCache config deviceId blockId).bind fun next =>
    next.handles.head?.bind fun object =>
      (next.objects object).map BlockCache.cache

end BlockCaching

end Ext4

end OSWorkspace

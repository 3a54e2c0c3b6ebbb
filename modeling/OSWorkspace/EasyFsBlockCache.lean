import OSWorkspace.EasyFsVolumes

/-!
# The easy-fs block cache

A model of `block_cache.rs` of the educational file system: a queue of sixteen
reference-counted cache objects for all devices.  An object is found by the
number of its block alone, and a full queue gives up the first object that
nobody else references.
-/

namespace OSWorkspace

namespace EasyFs

namespace BlockCaching

/-- Use a block cache of 16 blocks. -/
def blockCacheSize : Nat := 16

/-- Cached block inside memory. -/
structure BlockCache where
  cache : Block
  blockId : Nat
  deviceId : Nat
  modified : Bool

/-- A reference that a caller holds, with the block that it asked for. -/
structure Handle where
  object : Nat
  deviceId : Nat
  blockId : Nat
deriving DecidableEq

/-- The manager together with everything it acts on: the devices, the heap of
cache objects, and the references that callers hold. -/
structure State where
  device : Nat → Nat → Block
  objects : Nat → Option BlockCache
  nextObject : Nat
  queue : List (Nat × Nat)
  handles : List Handle

namespace State

/-- No block cached and no reference held. -/
def initial (device : Nat → Nat → Block) : State := ⟨device, fun _ => none, 0, [], []⟩

/-- Store one block of one device. -/
def writeBlock (state : State) (deviceId blockId : Nat) (block : Block) : State :=
  { state with
    device := Function.update state.device deviceId
      (Function.update (state.device deviceId) blockId block) }

/-- Change the object behind a reference. -/
def putObject (state : State) (object : Nat) (blockCache : Option BlockCache) : State :=
  { state with objects := Function.update state.objects object blockCache }

/-- References to an object: those of the queue and those of the callers. -/
def strongCount (state : State) (object : Nat) : Nat :=
  (state.queue.countP fun pair => pair.2 == object) +
    state.handles.countP fun handle => handle.object == object

/-- Write a modified block back. -/
def sync (state : State) (object : Nat) : State :=
  match state.objects object with
  | some blockCache =>
      if blockCache.modified then
        (state.writeBlock blockCache.deviceId blockCache.blockId blockCache.cache).putObject object
          (some { blockCache with modified := false })
      else state
  | none => state

/-- A reference to an object is gone; the last one takes the object with it. -/
def release (state : State) (object : Nat) : State :=
  if state.strongCount object = 0 then (state.sync object).putObject object none else state

/-- Whether an entry can be substituted. -/
def isUnused (state : State) (pair : Nat × Nat) : Bool := state.strongCount pair.2 == 1

/-- Substitute from front to tail; `none` is the panic of an exhausted cache. -/
def evict (state : State) : Option State :=
  (state.queue.find? state.isUnused).map fun pair =>
    { state with queue := state.queue.eraseP state.isUnused }.release pair.2

/-- Load a block and push it back. -/
def load (state : State) (deviceId blockId : Nat) : State :=
  { state.putObject state.nextObject
      (some ⟨state.device deviceId blockId, blockId, deviceId, false⟩) with
    nextObject := state.nextObject + 1
    queue := state.queue ++ [(blockId, state.nextObject)] }

/-- A caller receives a reference. -/
def acquire (state : State) (handle : Handle) : State :=
  { state with handles := handle :: state.handles }

/-- Get the block cache corresponding to the given block id and block device:
the new reference is the head of the handles of the resulting state. -/
def getBlockCache (state : State) (deviceId blockId : Nat) : Option State :=
  match state.queue.find? fun pair => pair.1 == blockId with
  | some pair => some (state.acquire ⟨pair.2, deviceId, blockId⟩)
  | none =>
      (if state.queue.length = blockCacheSize then state.evict else some state).map fun room =>
        (room.load deviceId blockId).acquire ⟨room.nextObject, deviceId, blockId⟩

/-- Read the block behind a reference. -/
def read (state : State) (handle : Handle) : Option Block :=
  (state.objects handle.object).map BlockCache.cache

/-- Write bytes behind a reference; a range past the block panics, and every
mutable access marks the block modified. -/
def write (state : State) (handle : Handle) (offset : Nat) (data : List UInt8) : Option State :=
  if offset + data.length ≤ blockSz then
    (state.objects handle.object).map fun blockCache =>
      state.putObject handle.object
        (some { blockCache with cache := blockCache.cache.write offset data, modified := true })
  else none

/-- A caller drops a reference. -/
def dropHandle (state : State) (handle : Handle) : State :=
  { state with handles := state.handles.erase handle }.release handle.object

/-- Sync all block caches to their devices. -/
def blockCacheSyncAll (state : State) : State :=
  state.queue.foldl (fun current pair => current.sync pair.2) state

end State

/-- What callers do with the cache. -/
inductive Op where
  | get (deviceId blockId : Nat)
  | write (handle : Handle) (offset : Nat) (data : List UInt8)
  | drop (handle : Handle)
  | syncAll

/-- One step of the callers; `none` is a panic, or a reference nobody holds. -/
def State.step (state : State) : Op → Option State
  | .get deviceId blockId => state.getBlockCache deviceId blockId
  | .write handle offset data =>
      if handle ∈ state.handles then state.write handle offset data else none
  | .drop handle => if handle ∈ state.handles then some (state.dropHandle handle) else none
  | .syncAll => some state.blockCacheSyncAll

/-- The contents of one block after a write. -/
def setContents (contents : Nat → Nat → Block) (deviceId blockId : Nat) (block : Block) :
    Nat → Nat → Block :=
  Function.update contents deviceId (Function.update (contents deviceId) blockId block)

/-- The bytes last written to every block, after one step of the callers: a write
goes to the block that its reference was asked for. -/
def written (contents : Nat → Nat → Block) : Op → Nat → Nat → Block
  | .write handle offset data =>
      setContents contents handle.deviceId handle.blockId
        ((contents handle.deviceId handle.blockId).write offset data)
  | _ => contents

/-- States reached by allowed steps that do not panic, with the bytes last
written to every block. -/
inductive Run (allowed : State → Op → Prop) (device : Nat → Nat → Block) :
    State → (Nat → Nat → Block) → Prop
  | start : Run allowed device (.initial device) device
  | step {state next : State} {contents : Nat → Nat → Block} (op : Op) :
      Run allowed device state contents → allowed state op → state.step op = some next →
        Run allowed device next (written contents op)

/-- Every held reference reads the bytes last written to the block it was asked
for, and a sync brings them to the devices. -/
def State.Transparent (state : State) (contents : Nat → Nat → Block) : Prop :=
  (∀ handle ∈ state.handles,
    state.read handle = some (contents handle.deviceId handle.blockId)) ∧
  state.blockCacheSyncAll.device = contents

/-- A block is not asked for while the block of that number of another device is
cached. -/
def State.AsksOwnDevice (state : State) : Op → Prop
  | .get deviceId blockId => ∀ object blockCache, (blockId, object) ∈ state.queue →
      state.objects object = some blockCache → blockCache.deviceId = deviceId
  | _ => True

/-- A block whose bytes are only in the cache. -/
def State.Pending (state : State) (deviceId blockId : Nat) : Prop :=
  ∃ object blockCache, (blockId, object) ∈ state.queue ∧
    state.objects object = some blockCache ∧ blockCache.deviceId = deviceId ∧
      blockCache.modified = true

structure Coherent (state : State) (contents : Nat → Nat → Block) : Prop where
  cached : ∀ blockId object, (blockId, object) ∈ state.queue →
    ∃ blockCache, state.objects object = some blockCache ∧ blockCache.blockId = blockId ∧
      blockCache.cache = contents blockCache.deviceId blockId
  settled : ∀ deviceId blockId, state.device deviceId blockId = contents deviceId blockId ∨
    state.Pending deviceId blockId
  held : ∀ handle ∈ state.handles, (handle.blockId, handle.object) ∈ state.queue ∧
    ∃ blockCache, state.objects handle.object = some blockCache ∧
      blockCache.deviceId = handle.deviceId
  blocks : (state.queue.map Prod.fst).Nodup
  fresh : ∀ object, state.nextObject ≤ object → state.objects object = none
  bounded : state.queue.length ≤ blockCacheSize

theorem setContents_apply (contents : Nat → Nat → Block) (deviceId blockId : Nat)
    (block : Block) (otherDevice otherBlock : Nat) :
    setContents contents deviceId blockId block otherDevice otherBlock =
      if otherDevice = deviceId ∧ otherBlock = blockId then block
      else contents otherDevice otherBlock := by
  simp only [setContents, Function.update_apply]
  by_cases sameDevice : otherDevice = deviceId
  · subst otherDevice
    by_cases sameBlock : otherBlock = blockId <;> simp [sameBlock]
  · simp [sameDevice]

section Sync

variable {state : State} {object : Nat} {blockCache : BlockCache}

@[simp]
theorem sync_queue (state : State) (object : Nat) : (state.sync object).queue = state.queue := by
  unfold State.sync
  split
  · split <;> rfl
  · rfl

@[simp]
theorem sync_handles (state : State) (object : Nat) :
    (state.sync object).handles = state.handles := by
  unfold State.sync
  split
  · split <;> rfl
  · rfl

@[simp]
theorem sync_nextObject (state : State) (object : Nat) :
    (state.sync object).nextObject = state.nextObject := by
  unfold State.sync
  split
  · split <;> rfl
  · rfl

theorem sync_withQueue (state : State) (object : Nat) (queue : List (Nat × Nat)) :
    { state with queue := queue }.sync object = { state.sync object with queue := queue } := by
  cases stored : state.objects object with
  | none => simp only [State.sync, stored]
  | some blockCache =>
      simp only [State.sync, stored]
      split <;> rfl

theorem sync_objects (stored : state.objects object = some blockCache) (other : Nat) :
    (state.sync object).objects other =
      if other = object then some { blockCache with modified := false }
      else state.objects other := by
  simp only [State.sync, stored]
  by_cases dirty : blockCache.modified = true
  · rw [if_pos dirty]
    exact Function.update_apply _ _ _ _
  · rw [if_neg dirty]
    by_cases same : other = object
    · have clean : blockCache = { blockCache with modified := false } := by
        rw [← Bool.eq_false_of_not_eq_true dirty]
      rw [if_pos same, same, stored, ← clean]
    · rw [if_neg same]

theorem sync_device (stored : state.objects object = some blockCache)
    (deviceId blockId : Nat) :
    (state.sync object).device deviceId blockId =
      if blockCache.modified = true ∧ deviceId = blockCache.deviceId ∧
          blockId = blockCache.blockId then blockCache.cache
      else state.device deviceId blockId := by
  simp only [State.sync, stored]
  by_cases dirty : blockCache.modified = true
  · rw [if_pos dirty]
    simp only [dirty, true_and]
    exact setContents_apply _ _ _ _ _ _
  · rw [if_neg dirty, if_neg fun both => dirty both.1]

end Sync

namespace Coherent

variable {state : State} {contents : Nat → Nat → Block}

theorem initial (device : Nat → Nat → Block) : Coherent (.initial device) device := by
  constructor <;> simp [State.initial]

/-- An object is in the queue once. -/
theorem block_unique (coherent : Coherent state contents) {first second object : Nat}
    (firstMem : (first, object) ∈ state.queue) (secondMem : (second, object) ∈ state.queue) :
    first = second := by
  obtain ⟨firstCache, firstStored, firstBlock, _⟩ := coherent.cached first object firstMem
  obtain ⟨secondCache, secondStored, secondBlock, _⟩ := coherent.cached second object secondMem
  rw [firstStored] at secondStored
  cases secondStored
  rw [← firstBlock, secondBlock]

/-- A block is in the queue once. -/
theorem object_unique (coherent : Coherent state contents) {blockId first second : Nat}
    (firstMem : (blockId, first) ∈ state.queue) (secondMem : (blockId, second) ∈ state.queue) :
    first = second :=
  congrArg Prod.snd (List.inj_on_of_nodup_map coherent.blocks firstMem secondMem rfl)

theorem sync (coherent : Coherent state contents) {blockId object : Nat}
    (isQueued : (blockId, object) ∈ state.queue) :
    Coherent (state.sync object) contents := by
  obtain ⟨blockCache, stored, blockEq, cacheEq⟩ := coherent.cached blockId object isQueued
  refine ⟨?_, ?_, ?_, ?_, ?_, ?_⟩
  · intro otherBlock other otherMem
    rw [sync_queue] at otherMem
    rw [sync_objects stored]
    by_cases same : other = object
    · subst same
      obtain rfl := coherent.block_unique isQueued otherMem
      rw [if_pos rfl]
      exact ⟨_, rfl, blockEq, cacheEq⟩
    · rw [if_neg same]
      exact coherent.cached otherBlock other otherMem
  · intro deviceId otherBlock
    rw [sync_device stored]
    split_ifs with isSynced
    · obtain ⟨_, rfl, rfl⟩ := isSynced
      rw [cacheEq, blockEq]
      exact Or.inl rfl
    · rcases coherent.settled deviceId otherBlock with same | pending
      · exact Or.inl same
      · obtain ⟨other, otherCache, otherMem, otherStored, otherDevice, dirty⟩ := pending
        have differs : other ≠ object := by
          rintro rfl
          obtain rfl := coherent.block_unique isQueued otherMem
          rw [stored] at otherStored
          cases otherStored
          exact isSynced ⟨dirty, otherDevice.symm, blockEq.symm⟩
        refine Or.inr ⟨other, otherCache, ?_, ?_, otherDevice, dirty⟩
        · rw [sync_queue]
          exact otherMem
        · rw [sync_objects stored, if_neg differs]
          exact otherStored
  · intro handle handleMem
    rw [sync_handles] at handleMem
    obtain ⟨handleQueued, handleCache, handleStored, handleDevice⟩ := coherent.held handle handleMem
    rw [sync_queue, sync_objects stored]
    refine ⟨handleQueued, ?_⟩
    by_cases same : handle.object = object
    · rw [same, stored] at handleStored
      cases handleStored
      rw [if_pos same]
      exact ⟨_, rfl, handleDevice⟩
    · rw [if_neg same]
      exact ⟨handleCache, handleStored, handleDevice⟩
  · rw [sync_queue]
    exact coherent.blocks
  · intro other above
    rw [sync_nextObject] at above
    have differs : other ≠ object := by
      rintro rfl
      rw [coherent.fresh other above] at stored
      cases stored
    rw [sync_objects stored, if_neg differs]
    exact coherent.fresh other above
  · rw [sync_queue]
    exact coherent.bounded

/-- Syncing some entries leaves them unmodified. -/
theorem foldl_sync (coherent : Coherent state contents) {pairs : List (Nat × Nat)}
    (areQueued : ∀ pair ∈ pairs, pair ∈ state.queue) :
    Coherent (pairs.foldl (fun current pair => current.sync pair.2) state) contents ∧
      (pairs.foldl (fun current pair => current.sync pair.2) state).queue = state.queue ∧
      (pairs.foldl (fun current pair => current.sync pair.2) state).handles = state.handles ∧
      ∀ object blockCache,
        (pairs.foldl (fun current pair => current.sync pair.2) state).objects object =
            some blockCache →
          (∃ pair ∈ pairs, pair.2 = object) ∨ (∃ earlier, state.objects object = some earlier ∧
            earlier.modified = false) → blockCache.modified = false := by
  induction pairs generalizing state with
  | nil =>
      refine ⟨coherent, rfl, rfl, ?_⟩
      rintro object blockCache stored (⟨pair, pairMem, _⟩ | ⟨earlier, earlierStored, clean⟩)
      · cases pairMem
      · rw [List.foldl_nil, earlierStored] at stored
        cases stored
        exact clean
  | cons pair pairs ih =>
      obtain ⟨blockCache, stored, _⟩ := coherent.cached pair.1 pair.2 (areQueued pair (by simp))
      obtain ⟨synced, queueEq, handlesEq, cleaned⟩ :=
        ih (coherent.sync (areQueued pair (by simp))) fun other otherMem => by
          rw [sync_queue]
          exact areQueued other (by simp [otherMem])
      rw [sync_queue] at queueEq
      rw [sync_handles] at handlesEq
      refine ⟨synced, queueEq, handlesEq, ?_⟩
      intro object last lastStored reason
      refine cleaned object last lastStored ?_
      rw [sync_objects stored]
      by_cases same : object = pair.2
      · rw [if_pos same]
        exact Or.inr ⟨_, rfl, rfl⟩
      · rw [if_neg same]
        rcases reason with ⟨other, otherMem, otherEq⟩ | earlier
        · rcases List.mem_cons.mp otherMem with rfl | otherMem
          · exact absurd otherEq.symm same
          · exact Or.inl ⟨other, otherMem, otherEq⟩
        · exact Or.inr earlier

theorem syncAll (coherent : Coherent state contents) :
    Coherent state.blockCacheSyncAll contents :=
  (coherent.foldl_sync fun _ pairMem => pairMem).1

/-- A sync brings all bytes to the devices. -/
theorem syncAll_device (coherent : Coherent state contents) :
    state.blockCacheSyncAll.device = contents := by
  obtain ⟨synced, queueEq, _, cleaned⟩ := coherent.foldl_sync fun _ pairMem => pairMem
  funext deviceId blockId
  rcases synced.settled deviceId blockId with same | pending
  · exact same
  · obtain ⟨object, blockCache, isQueued, stored, _, dirty⟩ := pending
    rw [queueEq] at isQueued
    have clean := cleaned object blockCache stored (Or.inl ⟨_, isQueued, rfl⟩)
    rw [dirty] at clean
    cases clean

theorem read_eq (coherent : Coherent state contents) {handle : Handle}
    (isHeld : handle ∈ state.handles) :
    state.read handle = some (contents handle.deviceId handle.blockId) := by
  obtain ⟨isQueued, blockCache, stored, deviceEq⟩ := coherent.held handle isHeld
  obtain ⟨other, otherStored, _, cacheEq⟩ := coherent.cached _ _ isQueued
  rw [stored] at otherStored
  cases otherStored
  rw [State.read, stored, Option.map_some, cacheEq, deviceEq]

theorem transparent (coherent : Coherent state contents) : state.Transparent contents :=
  ⟨fun _ isHeld => coherent.read_eq isHeld, coherent.syncAll_device⟩

end Coherent

section References

variable {state : State} {contents : Nat → Nat → Block}

theorem countP_queue (state : State) (object : Nat) :
    (state.queue.countP fun pair => pair.2 == object) =
      (state.queue.map Prod.snd).count object := by
  rw [List.count, List.countP_map]
  rfl

theorem Coherent.objects_nodup (coherent : Coherent state contents) :
    (state.queue.map Prod.snd).Nodup := by
  refine coherent.blocks.of_map _ |>.map_on ?_
  rintro ⟨first, object⟩ firstMem ⟨second, other⟩ secondMem same
  cases same
  rw [coherent.block_unique firstMem secondMem]

/-- The queue references each of its objects once. -/
theorem Coherent.strongCount_eq (coherent : Coherent state contents) {blockId object : Nat}
    (isQueued : (blockId, object) ∈ state.queue) :
    state.strongCount object =
      1 + state.handles.countP fun handle => handle.object == object := by
  have isObject : object ∈ state.queue.map Prod.snd := List.mem_map.mpr ⟨_, isQueued, rfl⟩
  rw [State.strongCount, countP_queue, List.count_eq_one_of_mem coherent.objects_nodup isObject]

/-- A caller's reference keeps an object in the queue. -/
theorem Coherent.release_eq (coherent : Coherent state contents) {blockId object : Nat}
    (isQueued : (blockId, object) ∈ state.queue) : state.release object = state := by
  rw [State.release, coherent.strongCount_eq isQueued, if_neg (by omega)]

/-- An unmodified object that nobody references can go. -/
theorem Coherent.remove (coherent : Coherent state contents) {blockId object : Nat}
    {blockCache : BlockCache} {before after : List (Nat × Nat)}
    (queueEq : state.queue = before ++ (blockId, object) :: after)
    (stored : state.objects object = some blockCache) (clean : blockCache.modified = false)
    (unheld : ∀ handle ∈ state.handles, handle.object ≠ object) :
    Coherent { state.putObject object none with queue := before ++ after } contents := by
  have isQueued : (blockId, object) ∈ state.queue := by simp [queueEq]
  have kept : ∀ {pair}, pair ∈ before ++ after → pair ∈ state.queue := by
    intro pair pairMem
    rw [queueEq]
    simp only [List.mem_append, List.mem_cons] at pairMem ⊢
    tauto
  have others : ∀ {pair}, pair ∈ state.queue → pair.2 ≠ object → pair ∈ before ++ after := by
    intro pair pairMem differs
    rw [queueEq] at pairMem
    simp only [List.mem_append, List.mem_cons] at pairMem ⊢
    rcases pairMem with isBefore | rfl | isAfter
    · exact Or.inl isBefore
    · exact absurd rfl differs
    · exact Or.inr isAfter
  have blocks := coherent.blocks
  rw [queueEq, List.map_append, List.map_cons, List.nodup_middle, List.nodup_cons] at blocks
  have apart : ∀ {otherBlock other}, (otherBlock, other) ∈ before ++ after → other ≠ object := by
    rintro otherBlock other otherMem rfl
    obtain rfl := coherent.block_unique isQueued (kept otherMem)
    rw [← List.map_append] at blocks
    exact blocks.1 (List.mem_map.mpr ⟨_, otherMem, rfl⟩)
  have objectsEq : ∀ other, other ≠ object →
      (state.putObject object none).objects other = state.objects other :=
    fun other differs => Function.update_of_ne differs _ _
  refine ⟨?_, ?_, ?_, ?_, ?_, ?_⟩
  · intro otherBlock other otherMem
    obtain ⟨otherCache, otherStored, found⟩ := coherent.cached otherBlock other (kept otherMem)
    exact ⟨otherCache, (objectsEq other (apart otherMem)).trans otherStored, found⟩
  · intro deviceId otherBlock
    rcases coherent.settled deviceId otherBlock with same | pending
    · exact Or.inl same
    · obtain ⟨other, otherCache, otherMem, otherStored, otherDevice, dirty⟩ := pending
      have differs : other ≠ object := by
        rintro rfl
        rw [stored] at otherStored
        cases otherStored
        rw [clean] at dirty
        cases dirty
      exact Or.inr ⟨other, otherCache, others otherMem differs,
        (objectsEq other differs).trans otherStored, otherDevice, dirty⟩
  · intro handle handleMem
    have differs := unheld handle handleMem
    obtain ⟨handleQueued, handleCache, handleStored, handleDevice⟩ := coherent.held handle handleMem
    exact ⟨others handleQueued differs, handleCache,
      (objectsEq _ differs).trans handleStored, handleDevice⟩
  · rw [List.map_append]
    exact blocks.2
  · intro other above
    by_cases same : other = object
    · rw [same]
      exact Function.update_self _ _ _
    · exact (objectsEq other same).trans (coherent.fresh other above)
  · have bounded := coherent.bounded
    simp only [queueEq, List.length_append, List.length_cons] at bounded ⊢
    omega

/-- The object that is substituted is written back and leaves the queue. -/
theorem Coherent.evict (coherent : Coherent state contents) {room : State}
    (evicted : state.evict = some room) :
    Coherent room contents ∧ room.queue.length + 1 = state.queue.length ∧
      ∀ pair ∈ room.queue, pair ∈ state.queue := by
  rw [State.evict] at evicted
  cases found : state.queue.find? state.isUnused with
  | none =>
      rw [found] at evicted
      cases evicted
  | some pair =>
      rw [found] at evicted
      cases evicted
      obtain ⟨blockId, object⟩ := pair
      obtain ⟨unused, before, after, queueEq, notBefore⟩ :=
        List.find?_eq_some_iff_append.mp found
      have isQueued : (blockId, object) ∈ state.queue := by simp [queueEq]
      have erased : state.queue.eraseP state.isUnused = before ++ after := by
        rw [queueEq, List.eraseP_append_right _ fun other otherMem => by
          simpa using notBefore other otherMem, List.eraseP_cons_of_pos unused]
      have count := coherent.strongCount_eq isQueued
      have single : state.strongCount object = 1 := beq_iff_eq.mp unused
      have unheld : ∀ handle ∈ state.handles, handle.object ≠ object := by
        have none : (state.handles.countP fun handle => handle.object == object) = 0 := by omega
        intro handle handleMem same
        exact List.countP_eq_zero.mp none handle handleMem (beq_iff_eq.mpr same)
      have gone : { state with queue := before ++ after }.strongCount object = 0 := by
        rw [State.strongCount] at single ⊢
        simp only [queueEq, List.countP_append, List.countP_cons] at single ⊢
        simp only [beq_self_eq_true, if_true] at single
        omega
      obtain ⟨blockCache, stored, _⟩ := coherent.cached blockId object isQueued
      have synced := coherent.sync isQueued
      have syncedStored := sync_objects stored object
      rw [if_pos rfl] at syncedStored
      have syncedQueue : (state.sync object).queue = before ++ (blockId, object) :: after := by
        rw [sync_queue]
        exact queueEq
      have removed := synced.remove syncedQueue syncedStored rfl
        (by rw [sync_handles]; exact unheld)
      simp only [erased, State.release, gone, if_true, sync_withQueue]
      refine ⟨removed, ?_, ?_⟩
      · simp only [State.putObject, queueEq, List.length_append, List.length_cons]
        omega
      · intro other otherMem
        simp only [State.putObject, List.mem_append] at otherMem
        simp only [queueEq, List.mem_append, List.mem_cons]
        tauto

/-- Fewer callers' references than objects leave one to be substituted. -/
theorem Coherent.evict_isSome (coherent : Coherent state contents)
    (few : state.handles.length < state.queue.length) : ∃ room, state.evict = some room := by
  rw [State.evict]
  cases found : state.queue.find? state.isUnused with
  | some pair => exact ⟨_, rfl⟩
  | none =>
      exfalso
      have isHeld : state.queue.map Prod.snd ⊆ state.handles.map Handle.object := by
        intro object objectMem
        obtain ⟨⟨blockId, _⟩, isQueued, rfl⟩ := List.mem_map.mp objectMem
        have used := List.find?_eq_none.mp found _ isQueued
        rw [State.isUnused, coherent.strongCount_eq isQueued, beq_iff_eq] at used
        have positive : 0 < state.handles.countP fun handle => handle.object == _ :=
          Nat.pos_of_ne_zero fun zero => used (by rw [zero])
        obtain ⟨handle, handleMem, same⟩ := List.countP_pos_iff.mp positive
        exact List.mem_map.mpr ⟨handle, handleMem, beq_iff_eq.mp same⟩
      have short := (coherent.objects_nodup.subperm isHeld).length_le
      simp only [List.length_map] at short
      omega

end References

section Steps

variable {state next : State} {contents : Nat → Nat → Block}

theorem Coherent.load (coherent : Coherent state contents) {blockId : Nat} (deviceId : Nat)
    (missing : ∀ object, (blockId, object) ∉ state.queue)
    (room : state.queue.length < blockCacheSize) :
    Coherent (state.load deviceId blockId) contents := by
  have objectsEq : ∀ other, other ≠ state.nextObject →
      (state.load deviceId blockId).objects other = state.objects other :=
    fun other differs => Function.update_of_ne differs _ _
  have older : ∀ {otherBlock other}, (otherBlock, other) ∈ state.queue →
      other ≠ state.nextObject := by
    rintro otherBlock other otherMem rfl
    obtain ⟨otherCache, otherStored, _⟩ := coherent.cached _ _ otherMem
    rw [coherent.fresh _ (le_refl _)] at otherStored
    cases otherStored
  have queueMem : ∀ {pair}, pair ∈ (state.load deviceId blockId).queue ↔
      pair ∈ state.queue ∨ pair = (blockId, state.nextObject) := by
    intro pair
    exact List.mem_append.trans (or_congr_right List.mem_singleton)
  have isSettled : state.device deviceId blockId = contents deviceId blockId := by
    rcases coherent.settled deviceId blockId with same | ⟨object, _, isQueued, _⟩
    · exact same
    · exact absurd isQueued (missing object)
  refine ⟨?_, ?_, ?_, ?_, ?_, ?_⟩
  · intro otherBlock other otherMem
    rcases queueMem.mp otherMem with isOld | isNew
    · obtain ⟨otherCache, otherStored, found⟩ := coherent.cached otherBlock other isOld
      exact ⟨otherCache, (objectsEq other (older isOld)).trans otherStored, found⟩
    · cases isNew
      exact ⟨_, Function.update_self _ _ _, rfl, isSettled⟩
  · intro otherDevice otherBlock
    rcases coherent.settled otherDevice otherBlock with same | pending
    · exact Or.inl same
    · obtain ⟨other, otherCache, otherMem, otherStored, found⟩ := pending
      exact Or.inr ⟨other, otherCache, queueMem.mpr (Or.inl otherMem),
        (objectsEq other (older otherMem)).trans otherStored, found⟩
  · intro handle handleMem
    obtain ⟨handleQueued, handleCache, handleStored, handleDevice⟩ := coherent.held handle handleMem
    exact ⟨queueMem.mpr (Or.inl handleQueued), handleCache,
      (objectsEq _ (older handleQueued)).trans handleStored, handleDevice⟩
  · have blocks : ((state.queue ++ [(blockId, state.nextObject)]).map Prod.fst).Nodup := by
      rw [List.map_append, List.map_singleton, List.nodup_append]
      refine ⟨coherent.blocks, List.nodup_singleton _, ?_⟩
      intro otherBlock otherMem other isNew same
      obtain ⟨⟨_, object⟩, isQueued, rfl⟩ := List.mem_map.mp otherMem
      rw [List.mem_singleton.mp isNew] at same
      cases same
      exact missing object isQueued
    exact blocks
  · intro other above
    have later : state.nextObject + 1 ≤ other := above
    exact (objectsEq other (by omega)).trans (coherent.fresh other (by omega))
  · have length : (state.load deviceId blockId).queue.length = state.queue.length + 1 :=
      List.length_append
    omega

theorem Coherent.acquire (coherent : Coherent state contents) {handle : Handle}
    {blockCache : BlockCache} (isQueued : (handle.blockId, handle.object) ∈ state.queue)
    (stored : state.objects handle.object = some blockCache)
    (ownDevice : blockCache.deviceId = handle.deviceId) :
    Coherent (state.acquire handle) contents where
  cached := coherent.cached
  settled := coherent.settled
  held other otherMem := by
    rcases List.mem_cons.mp otherMem with rfl | otherMem
    · exact ⟨isQueued, blockCache, stored, ownDevice⟩
    · exact coherent.held other otherMem
  blocks := coherent.blocks
  fresh := coherent.fresh
  bounded := coherent.bounded

theorem Coherent.loadAcquire (coherent : Coherent state contents) {blockId : Nat}
    (deviceId : Nat) (missing : ∀ object, (blockId, object) ∉ state.queue)
    (room : state.queue.length < blockCacheSize) :
    Coherent ((state.load deviceId blockId).acquire ⟨state.nextObject, deviceId, blockId⟩)
      contents :=
  (coherent.load deviceId missing room).acquire
    (List.mem_append_right _ List.mem_cons_self) (Function.update_self _ _ _) rfl

theorem Coherent.get (coherent : Coherent state contents) {deviceId blockId : Nat}
    (ownDevice : state.AsksOwnDevice (.get deviceId blockId))
    (got : state.getBlockCache deviceId blockId = some next) : Coherent next contents := by
  rw [State.getBlockCache] at got
  cases found : state.queue.find? fun pair => pair.1 == blockId with
  | some pair =>
      rw [found] at got
      cases got
      obtain ⟨otherBlock, object⟩ := pair
      have isQueued := List.mem_of_find?_eq_some found
      obtain rfl : otherBlock = blockId := by simpa using List.find?_some found
      obtain ⟨blockCache, stored, _⟩ := coherent.cached _ _ isQueued
      exact coherent.acquire isQueued stored (ownDevice object blockCache isQueued stored)
  | none =>
      rw [found] at got
      have missing : ∀ object, (blockId, object) ∉ state.queue := by
        intro object isQueued
        have differs := List.find?_eq_none.mp found _ isQueued
        exact differs (beq_self_eq_true blockId)
      have bounded := coherent.bounded
      by_cases full : state.queue.length = blockCacheSize
      · rw [if_pos full] at got
        obtain ⟨room, evicted, rfl⟩ := Option.map_eq_some_iff.mp got
        obtain ⟨evictCoherent, shorter, kept⟩ := coherent.evict evicted
        exact evictCoherent.loadAcquire deviceId
          (fun object isQueued => missing object (kept _ isQueued)) (by omega)
      · rw [if_neg full] at got
        cases got
        exact coherent.loadAcquire deviceId missing (by omega)

theorem Coherent.write (coherent : Coherent state contents) {handle : Handle} {offset : Nat}
    {data : List UInt8} (isHeld : handle ∈ state.handles)
    (wrote : state.write handle offset data = some next) :
    Coherent next (written contents (.write handle offset data)) := by
  obtain ⟨isQueued, blockCache, stored, deviceEq⟩ := coherent.held handle isHeld
  obtain ⟨_, sameStored, blockEq, cacheEq⟩ := coherent.cached _ _ isQueued
  rw [stored] at sameStored
  cases sameStored
  rw [State.write, stored] at wrote
  split_ifs at wrote
  cases wrote
  have objectsEq : ∀ (changed : Option BlockCache) other, other ≠ handle.object →
      (state.putObject handle.object changed).objects other = state.objects other :=
    fun changed other differs => Function.update_of_ne differs _ _
  refine ⟨?_, ?_, ?_, coherent.blocks, ?_, coherent.bounded⟩
  · intro otherBlock other otherMem
    by_cases same : other = handle.object
    · subst same
      obtain rfl := coherent.block_unique isQueued otherMem
      refine ⟨_, Function.update_self _ _ _, blockEq, ?_⟩
      rw [written, setContents_apply, if_pos ⟨deviceEq, rfl⟩, cacheEq, deviceEq]
    · obtain ⟨otherCache, otherStored, otherEq, otherCacheEq⟩ := coherent.cached _ _ otherMem
      refine ⟨otherCache, (objectsEq _ _ same).trans otherStored, otherEq, ?_⟩
      have apart : otherBlock ≠ handle.blockId := by
        rintro rfl
        exact same (coherent.object_unique otherMem isQueued)
      rw [written, setContents_apply, if_neg fun both => apart both.2]
      exact otherCacheEq
  · intro deviceId otherBlock
    rw [written, setContents_apply]
    by_cases isWritten : deviceId = handle.deviceId ∧ otherBlock = handle.blockId
    · obtain ⟨rfl, rfl⟩ := isWritten
      exact Or.inr ⟨handle.object, _, isQueued, Function.update_self _ _ _, deviceEq, rfl⟩
    · rw [if_neg isWritten]
      rcases coherent.settled deviceId otherBlock with same | pending
      · exact Or.inl same
      · obtain ⟨other, otherCache, otherMem, otherStored, otherDevice, dirty⟩ := pending
        have differs : other ≠ handle.object := by
          rintro rfl
          rw [stored] at otherStored
          cases otherStored
          exact isWritten ⟨otherDevice.symm.trans deviceEq,
            coherent.block_unique otherMem isQueued⟩
        exact Or.inr ⟨other, otherCache, otherMem, (objectsEq _ _ differs).trans otherStored,
          otherDevice, dirty⟩
  · intro other otherMem
    obtain ⟨otherQueued, otherCache, otherStored, otherDevice⟩ := coherent.held other otherMem
    refine ⟨otherQueued, ?_⟩
    by_cases same : other.object = handle.object
    · rw [same, stored] at otherStored
      cases otherStored
      rw [same]
      exact ⟨_, Function.update_self _ _ _, otherDevice⟩
    · exact ⟨otherCache, (objectsEq _ _ same).trans otherStored, otherDevice⟩
  · intro other above
    have differs : other ≠ handle.object := by
      rintro rfl
      rw [coherent.fresh _ above] at stored
      cases stored
    exact (objectsEq _ _ differs).trans (coherent.fresh other above)

theorem Coherent.dropHandle (coherent : Coherent state contents) {handle : Handle}
    (isHeld : handle ∈ state.handles) : Coherent (state.dropHandle handle) contents := by
  have released : Coherent { state with handles := state.handles.erase handle } contents :=
    { cached := coherent.cached
      settled := coherent.settled
      held := fun other otherMem => coherent.held other (List.mem_of_mem_erase otherMem)
      blocks := coherent.blocks
      fresh := coherent.fresh
      bounded := coherent.bounded }
  rw [State.dropHandle, released.release_eq (coherent.held handle isHeld).1]
  exact released

theorem Coherent.step (coherent : Coherent state contents) {op : Op}
    (ownDevice : state.AsksOwnDevice op) (stepped : state.step op = some next) :
    Coherent next (written contents op) := by
  cases op with
  | get deviceId blockId => exact coherent.get ownDevice stepped
  | write handle offset data =>
      rw [State.step] at stepped
      split_ifs at stepped with isHeld
      exact coherent.write isHeld stepped
  | drop handle =>
      rw [State.step] at stepped
      split_ifs at stepped with isHeld
      cases stepped
      exact coherent.dropHandle isHeld
  | syncAll =>
      cases stepped
      exact coherent.syncAll

/-- Callers with fewer references than the cache has entries always get a block. -/
theorem Coherent.getBlockCache_isSome (coherent : Coherent state contents)
    (few : state.handles.length < blockCacheSize) (deviceId blockId : Nat) :
    ∃ next, state.getBlockCache deviceId blockId = some next := by
  rw [State.getBlockCache]
  cases state.queue.find? fun pair => pair.1 == blockId with
  | some pair => exact ⟨_, rfl⟩
  | none =>
      by_cases full : state.queue.length = blockCacheSize
      · obtain ⟨room, evicted⟩ := coherent.evict_isSome (by omega)
        rw [if_pos full, evicted]
        exact ⟨_, rfl⟩
      · rw [if_neg full]
        exact ⟨_, rfl⟩

theorem coherent_of_run {device : Nat → Nat → Block}
    (run : Run State.AsksOwnDevice device state contents) : Coherent state contents := by
  induction run with
  | start => exact Coherent.initial device
  | step op _ ownDevice stepped ih => exact ih.step ownDevice stepped

end Steps

/-- The cache is transparent in every run that does not ask for a block while the
block of that number of another device is cached, and it is not exhausted by
fewer than 16 references. -/
theorem transparent_of_run {device : Nat → Nat → Block} {state : State}
    {contents : Nat → Nat → Block} (run : Run State.AsksOwnDevice device state contents) :
    state.Transparent contents ∧
      (state.handles.length < blockCacheSize → ∀ deviceId blockId,
        ∃ next, state.getBlockCache deviceId blockId = some next) :=
  ⟨(coherent_of_run run).transparent, (coherent_of_run run).getBlockCache_isSome⟩

/-- Two devices with different bytes. -/
def twoDevices : Nat → Nat → Block := fun deviceId _ => .filled (UInt8.ofNat deviceId)

theorem transparent_of_run_twoDevices :
    ∃ state contents, Run State.AsksOwnDevice twoDevices state contents ∧
      state.handles = [⟨1, 1, 6⟩, ⟨0, 0, 5⟩] ∧ state.Transparent contents := by
  have first : Run State.AsksOwnDevice twoDevices _ _ := .step (.get 0 5) .start
    (fun _ _ isQueued => absurd isQueued List.not_mem_nil) rfl
  have second : Run State.AsksOwnDevice twoDevices _ _ := .step (.write ⟨0, 0, 5⟩ 0 [7]) first
    trivial rfl
  have apart : ∀ object, (6, object) ∉ [(5, 0)] := by simp
  have third : Run State.AsksOwnDevice twoDevices _ _ := .step (.get 1 6) second
    (fun object _ isQueued => absurd isQueued (apart object)) rfl
  exact ⟨_, _, third, rfl, (transparent_of_run third).1⟩

/-- Block 5 of device 1 reads as block 5 of device 0. -/
theorem not_transparent_twoDevices :
    ∃ state contents, Run (fun _ _ => True) twoDevices state contents ∧
      state.handles = [⟨0, 1, 5⟩, ⟨0, 0, 5⟩] ∧ ¬ state.Transparent contents := by
  have first : Run (fun _ _ => True) twoDevices _ _ := .step (.get 0 5) .start trivial rfl
  have second : Run (fun _ _ => True) twoDevices _ _ := .step (.get 1 5) first trivial rfl
  refine ⟨_, _, second, rfl, ?_⟩
  rintro ⟨reads, _⟩
  have same := reads ⟨0, 1, 5⟩ List.mem_cons_self
  have firstByte := congrArg (fun block => (block.getD .zeroed).get 0) same
  exact absurd firstByte (by decide)

end BlockCaching

end EasyFs

end OSWorkspace

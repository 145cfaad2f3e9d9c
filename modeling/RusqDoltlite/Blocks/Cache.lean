import RusqDoltlite.Effects.Stateful
import RusqDoltlite.Session.Head
import Mathlib.Data.List.Sort

/-! The local half of one VFS: the slots of `cachefile.bcv` with the cache entries over them, the staged
rows of `blocksdb.bcv` and the attached containers. What the VFS cannot decide is left to the
environment: faults of the disk and of the network, random block names, which slots other threads
hold, and what other writers store. Staging is the upload of a batch of dirty blocks without
publishing the manifest. A block gets its content name before its PUT and a staged row after it; a
block whose PUT fails stays dirty under the content name. -/

namespace RusqDoltlite.Blocks

open Effects Session

structure Place where
  container : String
  dbId : Nat
  pos : Nat
deriving DecidableEq, Repr

/-- `CacheEntry`. Reference counts are those of other threads, see `Choice.held`. An entry
that is reused keeps its old owner until a write claims it. -/
structure CacheEntry where
  slot : Nat
  name : BlockId
  valid : Bool
  dirty : Bool
  staged : Bool
  owner : Option Place
deriving DecidableEq, Repr

structure StagedRow where
  place : Place
  generation : BlockId
  blockId : BlockId
  sequence : Nat
deriving DecidableEq, Repr

structure Ledger where
  staged : List StagedRow
  gc : List StagedRow
  sequence : String → Nat

namespace Ledger

def put (ledger : Ledger) (place : Place) (generation : BlockId) : Ledger :=
  let sequence := ledger.sequence place.container + 1
  { ledger with
    staged := ⟨place, generation, generation, sequence⟩ ::
      ledger.staged.filter fun row => ¬ (row.place = place ∧ row.generation = generation)
    sequence := fun container =>
      if container = place.container then sequence else ledger.sequence container }

/-- `bcvfsStagedFind`: the row of a generation, unless a tombstone has its sequence number. -/
def find (ledger : Ledger) (place : Place) (generation : BlockId) : Option StagedRow :=
  ledger.staged.find? fun row =>
    row.place = place ∧ row.generation = generation ∧
      ¬ ∃ dead ∈ ledger.gc, dead.place = place ∧ dead.generation = generation ∧
        dead.sequence = row.sequence

def delete (ledger : Ledger) (place : Place) : Ledger :=
  { ledger with
    gc := ledger.gc ++ ledger.staged.filter fun row =>
      row.place = place ∧ ¬ ∃ dead ∈ ledger.gc, dead.place = place ∧
        dead.generation = row.generation ∧ dead.sequence = row.sequence }

end Ledger

structure Choice (Hash : Type) [DecidableEq Hash] [Digest Hash] where
  /-- the effect fails with this error -/
  fault : Option Err
  /-- a failed PUT has reached the store all the same -/
  applied : Bool
  /-- which of the entries that may be reused is the least recently used one -/
  reuse : Nat
  /-- the slots other threads hold references to, and the containers they are at work on -/
  held : List Nat
  engaged : List String
  /-- the order in which the hash table is walked -/
  rank : CacheEntry → Nat
  /-- the bytes drawn by `sqlite3_randomness` -/
  name : BlockId
  /-- the block objects other writers have created since the last choice -/
  arrivals : List (BlockId × Bytes)
  /-- the answer to a request of the session code -/
  answer : (request : Req Hash) → Ans Hash request

/-- What a VFS learns from the store about its blocks: that a create-only PUT has created
the object of a place, or that the object there holds the bytes of the local block. And
the manifests it serializes, for a row of its own tables or for the store, and the random
names it has given to blocks. -/
inductive BlockEvent where
  | created (place : Place) (name : BlockId) (bytes : Bytes)
  | verified (place : Place) (name : BlockId) (bytes : Bytes)
  | composed (man : Manifest)
  | drew (name : BlockId)
deriving DecidableEq, Repr

/-- `BcvCommon` and its containers. `unused` and `slots` are the free list and the number
of slots allocated so far; `spare` is what the array of a local mapping holds behind
its last block. -/
structure Vfs (Hash : Type) where
  szBlk : Nat
  maxCache : Nat
  stageWatermark : Nat
  requests : Nat
  nextLocalId : Nat
  slots : Nat
  unused : List Nat
  file : Nat → Bytes
  hash : List CacheEntry
  ledger : Ledger
  containers : String → Container Hash
  spare : String → Nat → List BlockId

/-- A VFS with the block objects of its cloud container, the choices still to come, and
what it has learned from the store so far, newest first. -/
structure World (Hash : Type) [DecidableEq Hash] [Digest Hash] where
  vfs : Vfs Hash
  blocks : BlockId → Option Bytes
  choices : Nat → Choice Hash
  events : List BlockEvent

variable {Hash : Type}

namespace Vfs

def maxSlots (vfs : Vfs Hash) : Nat := vfs.maxCache / vfs.szBlk

def hashFind (vfs : Vfs Hash) (name : BlockId) : Option CacheEntry :=
  vfs.hash.find? fun entry => entry.name = name

def hashAdd (vfs : Vfs Hash) (entry : CacheEntry) : Vfs Hash :=
  { vfs with hash := entry :: vfs.hash }

def hashRemove (vfs : Vfs Hash) (slot : Nat) : Vfs Hash :=
  { vfs with hash := vfs.hash.filter fun entry => entry.slot ≠ slot }

def setEntry (vfs : Vfs Hash) (slot : Nat) (change : CacheEntry → CacheEntry) : Vfs Hash :=
  { vfs with hash := vfs.hash.map fun entry => if entry.slot = slot then change entry else entry }

def unusedAdd (vfs : Vfs Hash) (slot : Nat) : Vfs Hash :=
  { vfs with unused := slot :: vfs.unused }

def setFile (vfs : Vfs Hash) (slot : Nat) (bytes : Bytes) : Vfs Hash :=
  { vfs with file := fun other => if other = slot then bytes else vfs.file other }

def slotBytes (vfs : Vfs Hash) (slot : Nat) : Bytes :=
  (vfs.file slot ++ List.replicate vfs.szBlk 0).take vfs.szBlk

/-- Whether the cache file reaches as far as a slot: it ends with the last slot written. -/
def inFile (vfs : Vfs Hash) (slot : Nat) : Bool :=
  (List.range vfs.slots).any fun later => slot ≤ later ∧ vfs.file later ≠ []

def reusable (vfs : Vfs Hash) (held : List Nat) : List CacheEntry :=
  vfs.hash.filter fun entry =>
    entry.valid ∧ entry.dirty = false ∧ entry.slot ∉ held ∧ entry.slot < vfs.maxSlots

def allocCacheEntry (vfs : Vfs Hash) (held : List Nat) (reuse : Nat) :
    Option (CacheEntry × Vfs Hash) :=
  match vfs.unused.find? (· < vfs.maxSlots) with
  | some slot =>
    some (⟨slot, [], false, false, false, none⟩, { vfs with unused := vfs.unused.erase slot })
  | none =>
    if vfs.slots < vfs.maxSlots then
      some (⟨vfs.slots, [], false, false, false, none⟩, { vfs with slots := vfs.slots + 1 })
    else
      (((vfs.reusable held).rotate reuse).head?).map fun entry =>
        ({ entry with valid := false, dirty := false, staged := false }, vfs.hashRemove entry.slot)

/-- `bcvfsManifestWrite`: names one block of the local mapping. A mapping that grows within
its array takes what stands there; a new array is filled with zero bytes. -/
def manifestWrite (nameBytes : Nat) (db : ManifestDb) (spare : List BlockId) (pos : Nat)
    (name : BlockId) : ManifestDb × List BlockId :=
  let capacity := if db.localAlloc then db.blkLocal.length + spare.length else 0
  let behind :=
    if pos < capacity then spare
    else List.replicate (max db.blkOrig.length (pos + 1) * 2 - db.blkLocal.length)
      (List.replicate nameBytes 0)
  let array := db.blkLocal ++ behind
  let count := max db.blkLocal.length (pos + 1)
  ({ db with blkLocal := (array.take count).set pos name, localAlloc := true }, array.drop count)

def database (vfs : Vfs Hash) (container : String) (dbId : Nat) : Option ManifestDb :=
  (vfs.containers container).man.bind fun man => man.findDatabaseById dbId

def setDatabase (vfs : Vfs Hash) (container : String) (dbId : Nat)
    (change : ManifestDb → ManifestDb) : Vfs Hash :=
  { vfs with containers := fun name =>
      if name = container then
        { vfs.containers name with
          man := (vfs.containers name).man.map fun man =>
            { man with dbs := man.dbs.modify (man.dbs.findIdx fun db => db.dbId = dbId) change } }
      else vfs.containers name }

def setSpare (vfs : Vfs Hash) (container : String) (dbId : Nat) (spare : List BlockId) : Vfs Hash :=
  { vfs with spare := fun name id =>
      if name = container ∧ id = dbId then spare else vfs.spare name id }

def nameBlock (vfs : Vfs Hash) (place : Place) (name : BlockId) : Vfs Hash :=
  let spare := vfs.spare place.container place.dbId
  let written := fun db => manifestWrite name.length db spare place.pos name
  (vfs.setDatabase place.container place.dbId fun db => (written db).1).setSpare place.container
    place.dbId (((vfs.database place.container place.dbId).map fun db => (written db).2).getD spare)

def stagedPut (vfs : Vfs Hash) (place : Place) (generation : BlockId) : Vfs Hash :=
  { vfs with ledger := vfs.ledger.put place generation }

def stagedDelete (vfs : Vfs Hash) (place : Place) : Vfs Hash :=
  { vfs with ledger := vfs.ledger.delete place }

def setContext (vfs : Vfs Hash) (container : String) (change : Context Hash → Context Hash) :
    Vfs Hash :=
  { vfs with containers := fun name =>
      if name = container then
        { vfs.containers name with context := (vfs.containers name).context.map change }
      else vfs.containers name }

end Vfs

theorem find?_modify_findIdx {dbs : List ManifestDb} {dbId : Nat} {change : ManifestDb → ManifestDb}
    (kept : ∀ db, db.dbId = dbId → (change db).dbId = dbId) (other : Nat) :
    (dbs.modify (dbs.findIdx fun db => db.dbId = dbId) change).find? (fun db => db.dbId == other) =
      if other = dbId then (dbs.find? fun db => db.dbId == other).map change
      else dbs.find? fun db => db.dbId == other := by
  induction dbs with
  | nil => simp
  | cons db rest ih =>
    rw [List.findIdx_cons]
    by_cases found : db.dbId = dbId
    · have same := kept db found
      by_cases asked : other = dbId
      · simp [found, same, asked]
      · have differs : dbId ≠ other := Ne.symm asked
        simp [found, same, asked, differs]
    · by_cases asked : other = dbId
      · simp only [asked, ↓reduceIte] at ih
        simp [found, asked, ih]
      · by_cases hit : db.dbId = other
        · simp [asked, hit]
        · simp only [asked, ↓reduceIte] at ih
          simp [found, asked, hit, ih]

namespace Vfs

variable {vfs : Vfs Hash} {container other : String} {dbId id : Nat}

theorem database_setDatabase {change : ManifestDb → ManifestDb} (kept : ∀ db, (change db).dbId = db.dbId) :
    (vfs.setDatabase container dbId change).database other id =
      if other = container ∧ id = dbId then (vfs.database other id).map change
      else vfs.database other id := by
  unfold database setDatabase
  by_cases here : other = container
  · subst here
    cases attached : (vfs.containers other).man with
    | none => simp [attached]
    | some man =>
      simp only [attached, Option.map_some, Option.bind_some, Manifest.findDatabaseById, true_and,
        ↓reduceIte, find?_modify_findIdx fun db found => (kept db).trans found]
  · simp [here]

@[simp] theorem sessionId_setDatabase (change : ManifestDb → ManifestDb) :
    ((vfs.setDatabase container dbId change).containers other).sessionId =
      (vfs.containers other).sessionId := by
  unfold setDatabase
  dsimp only
  split <;> rfl

@[simp] theorem context_setDatabase (change : ManifestDb → ManifestDb) :
    ((vfs.setDatabase container dbId change).containers other).context =
      (vfs.containers other).context := by
  unfold setDatabase
  dsimp only
  split <;> rfl

theorem manifestWrite_length (nameBytes : Nat) (db : ManifestDb) (spare : List BlockId) (pos : Nat)
    (name : BlockId) :
    (manifestWrite nameBytes db spare pos name).1.blkLocal.length =
      max db.blkLocal.length (pos + 1) := by
  simp only [manifestWrite, List.length_set, List.length_take, List.length_append]
  by_cases within : pos < if db.localAlloc then db.blkLocal.length + spare.length else 0
  · rw [if_pos within]
    split at within <;> omega
  · rw [if_neg within, List.length_replicate]
    omega

end Vfs

section

variable [DecidableEq Hash] [Digest Hash]

abbrev VfsM (Hash : Type) [DecidableEq Hash] [Digest Hash] := Act (World Hash) Err

def onVfs (change : Vfs Hash → Vfs Hash) : VfsM Hash Unit :=
  modify fun world => { world with vfs := change world.vfs }

/-- The next choice of the environment. Objects that already exist stay as they are. -/
def draw : VfsM Hash (Choice Hash) := do
  let world : World Hash ← get
  let choice := world.choices 0
  set { world with
    choices := fun n => world.choices (n + 1)
    blocks := fun name => (world.blocks name).or (choice.arrivals.lookup name) }
  return choice

/-- A statement on `blocksdb.bcv`, a read or write of `cachefile.bcv`, or a request to the
store that is not about blocks. A full disk counts as an I/O error: `SQLITE_FULL` is the
code for a cache without a free slot. -/
def effect : VfsM Hash Unit := do
  let choice ← draw
  match choice.fault with
  | some error => throw { error with code := if error.code = .full then .ioerr else error.code }
  | none => return

def shortRead : Code := .other 522

def readSlot (slot : Nat) : VfsM Hash Bytes := do
  effect
  let world : World Hash ← get
  Act.require (world.vfs.inFile slot) ⟨shortRead, ""⟩
  return world.vfs.slotBytes slot

def getBlock (name : BlockId) : VfsM Hash Bytes := do
  effect
  let world : World Hash ← get
  match world.blocks name with
  | some bytes => return bytes
  | none => throw ⟨.httpNotFound, "object not found"⟩

def conflict : Code := .other 517

def putBlock (createOnly : Bool) (name : BlockId) (bytes : Bytes) : VfsM Hash Unit := do
  let choice ← draw
  let world : World Hash ← get
  let stored := fun other => if other = name then some bytes else world.blocks other
  match choice.fault with
  | none =>
    Act.require (¬ (createOnly ∧ (world.blocks name).isSome)) ⟨conflict, "object exists"⟩
    set { world with blocks := stored }
  | some error =>
    Act.when (choice.applied ∧ ¬ (createOnly ∧ (world.blocks name).isSome))
      (set { world with blocks := stored })
    throw error

def record (event : BlockEvent) : VfsM Hash Unit :=
  modify fun world => { world with events := event :: world.events }

end

class BlockDigest where
  md5 : Bytes → Bytes
  md5_length : ∀ bytes, (md5 bytes).length = 16

/-- The name a block is staged under. Only the first 16 bytes are those of the digest; names with
fewer than `BCV_MIN_MD5_NAMEBYTES` bytes stay as they were drawn. -/
def contentName [BlockDigest] (old : BlockId) (bytes : Bytes) : BlockId :=
  if 24 ≤ old.length then BlockDigest.md5 bytes ++ old.drop 16 else old

def stageBatchMax : Nat := 64
def stageBufferLimit : Nat := 64 * 1024 * 1024

def stageBatchLimit (vfs : Vfs Hash) : Nat :=
  min (min (min stageBatchMax (max 1 vfs.requests)) (max 1 vfs.maxSlots))
    (max 1 (stageBufferLimit / vfs.szBlk))

structure StageItem where
  entry : CacheEntry
  place : Place
deriving DecidableEq, Repr

structure PreparedItem where
  item : StageItem
  bytes : Bytes
  name : BlockId
deriving DecidableEq, Repr

variable [DecidableEq Hash] [Digest Hash]

/-- The test of one entry: it is dirty, nobody else uses it, and its place still maps to it. -/
def stageItem (vfs : Vfs Hash) (choice : Choice Hash) (only : Option String) (entry : CacheEntry) :
    Option StageItem :=
  match entry.owner with
  | none => none
  | some place =>
    if entry.valid ∧ entry.dirty ∧ entry.slot ∉ choice.held ∧
        place.container ∉ choice.engaged ∧ (∀ container ∈ only, place.container = container) ∧
        ((vfs.database place.container place.dbId).bind fun db => db.blkLocal[place.pos]?) =
          some entry.name then
      some ⟨entry, place⟩
    else none

def stageBatch (vfs : Vfs Hash) (choice : Choice Hash) (only : Option String) : List StageItem :=
  let ready := (vfs.hash.insertionSort fun first second =>
    choice.rank first ≤ choice.rank second).filterMap (stageItem vfs choice only)
  match ready with
  | [] => []
  | first :: _ =>
    (ready.filter fun item => item.place.container = first.place.container).take
      (stageBatchLimit vfs)

def publishName (item : StageItem) (name : BlockId) (vfs : Vfs Hash) : Vfs Hash :=
  ((vfs.nameBlock item.place name).hashRemove item.entry.slot).hashAdd
    { item.entry with name := name }

def protectBlock (container : Container Hash) : VfsM Hash Unit :=
  Act.when container.sessionId.isSome do
    Act.require container.context.isSome ⟨.auth, ""⟩
    effect

/-- Reads the slot and gives the place its content name, before any PUT. For a session the
block is then protected by an attempt marker. -/
def stagePrepare [BlockDigest] (item : StageItem) : VfsM Hash PreparedItem := do
  let bytes ← readSlot item.entry.slot
  let world : World Hash ← get
  let name := contentName item.entry.name bytes
  onVfs (publishName item name)
  protectBlock (world.vfs.containers item.place.container)
  return ⟨item, bytes, name⟩

/-- The PUT of one payload. A session creates its objects; a conflict is left to be
verified. -/
def stagePut (session : Bool) (prepared : PreparedItem) : VfsM Hash (PreparedItem × Bool) := do
  match ← (putBlock session prepared.name prepared.bytes).attempt with
  | .ok _ =>
    Act.when session (record (.created prepared.item.place prepared.name prepared.bytes))
    return (prepared, false)
  | .error error =>
    if session ∧ error.code = conflict then return (prepared, true) else throw error

def stageVerify (put : PreparedItem × Bool) : VfsM Hash PreparedItem := do
  let (prepared, existing) := put
  Act.when existing do
    let bytes ← getBlock prepared.name
    Act.require (bytes = prepared.bytes)
      ⟨.corrupt, "existing immutable block does not match its content ID"⟩
    record (.verified prepared.item.place prepared.name prepared.bytes)
  return prepared

/-- An ordinary container takes the writer guard once for the batch; no payload is queued
without it. -/
def stageFence (session : Bool) (prepared : List PreparedItem) :
    VfsM Hash (List PreparedItem × List Err) := do
  match ← (Act.when (prepared ≠ [] ∧ session = false) effect).attempt with
  | .ok _ => return (prepared, [])
  | .error error => return ([], [error])

/-- Records a stored block. The entry becomes clean once its row has been written. -/
def stageSettle (prepared : PreparedItem) : VfsM Hash Unit := do
  effect
  onVfs fun vfs => vfs.stagedPut prepared.item.place prepared.name
  effect
  onVfs fun vfs => vfs.setEntry prepared.item.entry.slot fun entry =>
    { entry with staged := true, dirty := false }

/-- Stages the picked items. The result is the first failure; what succeeded besides it
stays staged. -/
def stageItems [BlockDigest] (session : Bool) (items : List StageItem) : VfsM Hash Unit := do
  let (prepared, unprepared) ← Act.sift stagePrepare items
  let (queued, fenced) ← stageFence session prepared
  let (put, unput) ← Act.sift (stagePut session) queued
  let (stored, unverified) ← Act.sift stageVerify put
  let (_, unsettled) ← Act.sift stageSettle stored
  match (unprepared ++ fenced ++ unput ++ unverified ++ unsettled).head? with
  | some error => throw error
  | none => return

def stageOne [BlockDigest] (only : Option String) : VfsM Hash Unit := do
  let choice ← draw
  let world : World Hash ← get
  match stageBatch world.vfs choice only with
  | [] => throw ⟨.full, ""⟩
  | first :: rest => do
      effect
      stageItems (world.vfs.containers first.place.container).sessionId.isSome (first :: rest)

end RusqDoltlite.Blocks

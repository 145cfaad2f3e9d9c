import RusqDoltlite.Blocks.Cache

/-! The file methods of a database: block reads and copy-on-write block writes over the
cache, `xRead`, `xWrite`, `xTruncate` and `xFileSize`, and the logical size a session
tracks beside the block mapping. -/

namespace RusqDoltlite.Blocks

open Effects Session

variable {Hash : Type} [DecidableEq Hash] [Digest Hash]

inductive Transfer where
  | read (amount : Nat)
  | write (bytes : Bytes)
deriving DecidableEq, Repr

def Transfer.amount : Transfer → Nat
  | .read amount => amount
  | .write bytes => bytes.length

def Transfer.isWrite : Transfer → Bool
  | .read _ => false
  | .write _ => true

def overwrite (slot bytes : Bytes) (offset : Nat) : Bytes :=
  slot.take offset ++ bytes ++ slot.drop (offset + bytes.length)

def allocate : VfsM Hash CacheEntry := do
  let choice ← draw
  let world : World Hash ← get
  match world.vfs.allocCacheEntry choice.held choice.reuse with
  | none => throw ⟨.full, ""⟩
  | some (entry, vfs) =>
    onVfs fun _ => vfs
    tryCatch effect fun error => do
      onVfs fun vfs => vfs.unusedAdd entry.slot
      throw error
    return entry

/-- An entry that is not filled is waited for. Only a failed `bcvfsClearBlock` leaves one
behind, and then nobody fills it: the call does not return. -/
def waits : Err := ⟨.busy, "waits for a block"⟩

/-- `bcvfsFindBlockForIO`: the entry of a mapped block, or a slot for a block to be added,
which is not in the hash table yet. -/
def findBlockForIo (db : ManifestDb) (pos : Nat) : VfsM Hash CacheEntry := do
  match db.blkLocal[pos]? with
  | none => allocate
  | some name =>
    let world : World Hash ← get
    match world.vfs.hashFind name with
    | some entry =>
      Act.require (entry.valid = true) waits
      return entry
    | none =>
      let entry ← allocate
      onVfs fun vfs => vfs.hashAdd { entry with name := name }
      return { entry with name := name }

def writeSlot (slot : Nat) (bytes : Bytes) : VfsM Hash Unit := do
  effect
  onVfs fun vfs => vfs.setFile slot bytes

def copySlot (source target : Nat) : VfsM Hash Unit := do
  let bytes ← readSlot source
  writeSlot target bytes

def zeroSlot (slot : Nat) : VfsM Hash Unit := do
  let world : World Hash ← get
  writeSlot slot (List.replicate world.vfs.szBlk 0)

def fetchObject (name : BlockId) (slot : Nat) : VfsM Hash Unit := do
  let bytes ← getBlock name
  let world : World Hash ← get
  Act.require (bytes.length = world.vfs.szBlk) ⟨.corrupt, ""⟩
  writeSlot slot bytes

def isStaged (place : Place) (name : BlockId) : VfsM Hash Bool := do
  effect
  let world : World Hash ← get
  return (world.vfs.ledger.find place name).isSome

/-- Fills the slot of a mapped block that is not in the cache. Only a published or staged
block has an object. It returns whether the block is a staged one, and whether it was
downloaded. -/
def fetchBlock (place : Place) (db : ManifestDb) (entry : CacheEntry) : VfsM Hash (Bool × Bool) :=
  if entry.valid ∨ db.blkLocal.length ≤ place.pos then
    return (entry.staged, false)
  else if place.pos < db.blkOrig.length then do
    fetchObject entry.name entry.slot
    return (false, true)
  else do
    let staged ← isStaged place entry.name
    Act.when staged (fetchObject entry.name entry.slot)
    return (staged, staged)

/-- A failed operation gives back the slot of an entry that was never filled. -/
def dropUnfilled (entry : CacheEntry) (error : Err) : VfsM Hash α := do
  Act.when (entry.valid = false)
    (onVfs fun vfs => (vfs.hashRemove entry.slot).unusedAdd entry.slot)
  throw error

/-- The first half of `bcvfsMakeBlockWritable`: a private copy if another thread reads the
block, otherwise the entry itself, out of the hash table. When its row cannot be deleted the
entry stays where it was, filled or not. -/
def claimSlot (entry : CacheEntry) : VfsM Hash CacheEntry := do
  let choice ← draw
  if entry.valid ∧ entry.slot ∈ choice.held then
    let copy ← allocate
    tryCatch (copySlot entry.slot copy.slot) fun error => do
      onVfs fun vfs => vfs.unusedAdd copy.slot
      throw error
    return copy
  else
    effect
    onVfs fun vfs => vfs.hashRemove entry.slot
    return { entry with staged := false }

/-- `bcvfsMakeBlockWritable`: the block gets a random name and becomes dirty. A block that
is added starts as zero bytes. -/
def makeBlockWritable (place : Place) (db : ManifestDb) (entry : CacheEntry) :
    VfsM Hash CacheEntry := do
  let target ← claimSlot entry
  Act.when (db.blkLocal.length ≤ place.pos) <|
    tryCatch (zeroSlot target.slot) fun error => do
      onVfs fun vfs =>
        if target.slot = entry.slot then vfs.hashAdd entry else vfs.unusedAdd target.slot
      dropUnfilled entry error
  let choice ← draw
  let owned : CacheEntry :=
    { target with name := choice.name, dirty := true, staged := false, owner := some place }
  record (.drew choice.name)
  onVfs fun vfs => (vfs.nameBlock place choice.name).hashAdd owned
  return owned

def fillBlock (place : Place) (db : ManifestDb) (transfer : Transfer) (entry : CacheEntry) :
    VfsM Hash (Bool × Bool) :=
  tryCatch (do
      let (staged, fetched) ← fetchBlock place db entry
      Act.when (transfer.isWrite ∧ entry.valid = false ∧ staged = false ∧
        db.blkOrig.length ≤ place.pos) (zeroSlot entry.slot)
      return (staged, fetched))
    (dropUnfilled entry)

def readyBlock (place : Place) (db : ManifestDb) (transfer : Transfer) (entry : CacheEntry) :
    VfsM Hash (CacheEntry × Bool) := do
  let (staged, fetched) ← fillBlock place db transfer entry
  let ready := { entry with staged := staged }
  if transfer.isWrite ∧ entry.dirty = false then do
    let owned ← makeBlockWritable place db ready
    return (owned, true)
  else do
    onVfs fun vfs => vfs.setEntry entry.slot fun entry => { entry with staged := staged }
    return (ready, fetched)

/-- A full cache is recoverable when dirty blocks can be staged. There is no result then, and the whole
operation is tried again. -/
def makeRoom [BlockDigest] (error : Err) : VfsM Hash (Option α) := do
  Act.require (error.code = .full) error
  stageOne none
  return none

def acquireBlock [BlockDigest] (place : Place) (transfer : Transfer) :
    VfsM Hash (Option (CacheEntry × Bool)) := do
  let world : World Hash ← get
  match world.vfs.database place.container place.dbId with
  | none => throw ⟨.ioerr, ""⟩
  | some db =>
    Act.require (transfer.isWrite = true ∨ place.pos < db.blkLocal.length) ⟨shortRead, ""⟩
    match ← (findBlockForIo db place.pos).attempt with
    | .ok entry =>
      let ready ← readyBlock place db transfer entry
      return some ready
    | .error error => makeRoom error

def moveBytes (slot : Nat) (transfer : Transfer) (offset : Nat) : VfsM Hash Bytes :=
  match transfer with
  | .read amount => do
      let bytes ← readSlot slot
      return (bytes.drop offset).take amount
  | .write bytes => do
      effect
      onVfs fun vfs => vfs.setFile slot (overwrite (vfs.slotBytes slot) bytes offset)
      return []

def transferBlock (entry : CacheEntry) (row : Bool) (transfer : Transfer) (offset : Nat) :
    VfsM Hash Bytes :=
  tryCatch (do
      let bytes ← moveBytes entry.slot transfer offset
      Act.when row effect
      onVfs fun vfs => vfs.setEntry entry.slot fun entry => { entry with valid := true }
      return bytes)
    (dropUnfilled entry)

def atStageWatermark (vfs : Vfs Hash) : Bool :=
  let bytes := vfs.maxCache / 100 * vfs.stageWatermark +
    vfs.maxCache % 100 * vfs.stageWatermark / 100
  let slots := bytes / vfs.szBlk + (if bytes % vfs.szBlk ≠ 0 then 1 else 0)
  0 < vfs.szBlk ∧ 0 < vfs.maxCache ∧ 0 < vfs.stageWatermark ∧ slots ≤ vfs.slots ∧
    slots ≤ vfs.hash.countP fun entry => entry.valid ∧ entry.dirty

def drainDirty [BlockDigest] : VfsM Hash Unit := do
  let world : World Hash ← get
  Act.when (atStageWatermark world.vfs) <|
    tryCatch (stageOne none) fun error => Act.require (error.code = .full) error

/-- One round of `bcvfsReadWriteDatabase` on a block. Copy-on-write may need a slot too, and where the
lookup needed one, its staging may have had nothing to stage; a full cache is staged in both cases. -/
def readWriteOnce [BlockDigest] (place : Place) (transfer : Transfer) (offset : Nat) :
    VfsM Hash (Option Bytes) := do
  match ← (acquireBlock place transfer).attempt with
  | .ok none => return none
  | .ok (some (entry, row)) =>
    let bytes ← transferBlock entry row transfer offset
    Act.when transfer.isWrite drainDirty
    return some bytes
  | .error error => makeRoom error

def readWriteDatabase [BlockDigest] (place : Place) (transfer : Transfer) (offset : Nat) :
    Nat → VfsM Hash Bytes
  | 0 => do
      match ← readWriteOnce place transfer offset with
      | some bytes => return bytes
      -- `bcvfsReadWriteDatabase` goes on with a null entry here
      | none => throw ⟨.full, ""⟩
  | rounds + 1 => do
      match ← readWriteOnce place transfer offset with
      | some bytes => return bytes
      | none => readWriteDatabase place transfer offset rounds

def ioerrAuth : Code := .other 7178

def errorToSqlite (error : Err) : Err :=
  match error.code with
  | .httpAuthError | .other 401 => { error with code := ioerrAuth }
  | .httpNotFound => { error with code := .ioerr }
  | .other code => if 100 < code then { error with code := .ioerr } else error
  | _ => error

/-- The parts of an I/O that crosses block boundaries: each lies inside one block. `fuel`
bounds their number; the amount is always enough. -/
def parts (szBlk : Nat) : Nat → Nat → Nat → List (Nat × Nat)
  | 0, _, _ => []
  | fuel + 1, offset, amount =>
    if amount = 0 then []
    else
      let part := min (szBlk - offset % szBlk) amount
      (offset, part) :: parts szBlk fuel (offset + part) (amount - part)

/-- One part of `bcvfsReadWriteDatabaseWithRetry`. SQLite reads the header of a database
before it takes a lock; that read is ignored. -/
def readWritePart [BlockDigest] (container : String) (dbId : Nat) (transfer : Transfer)
    (offset : Nat) : VfsM Hash Bytes := do
  Act.require (¬ (offset = 0 ∧ transfer.amount = 100 ∧ dbId < firstLocalId)) ⟨shortRead, ""⟩
  let world : World Hash ← get
  let szBlk := world.vfs.szBlk
  tryCatch
    (Act.retry (fun error => error.code = .httpAuthError)
      (readWriteDatabase ⟨container, dbId, offset / szBlk⟩ transfer (offset % szBlk)
        (world.vfs.slots + 1)) 10)
    fun error => throw (if error.code = shortRead then error else errorToSqlite error)

def writeParts [BlockDigest] (container : String) (dbId : Nat) (bytes : Bytes) (start : Nat) :
    List (Nat × Nat) → VfsM Hash Unit
  | [] => return
  | (offset, amount) :: rest => do
      let _ ← readWritePart container dbId
        (.write ((bytes.drop (offset - start)).take amount)) offset
      writeParts container dbId bytes start rest

/-- What a read returns, and whether it was complete: a part behind the mapping is filled
with zero bytes and ends the read. -/
def readParts [BlockDigest] (container : String) (dbId : Nat) :
    List (Nat × Nat) → VfsM Hash (Bytes × Bool)
  | [] => return ([], true)
  | (offset, amount) :: rest => do
      match ← (readWritePart container dbId (.read amount) offset).attempt with
      | .ok bytes =>
        let (more, complete) ← readParts container dbId rest
        return (bytes ++ more, complete)
      | .error error =>
        if error.code = shortRead then return (List.replicate amount 0, false)
        else throw error

def sessionBound (vfs : Vfs Hash) (container : String) : Bool :=
  (vfs.containers container).sessionId.isSome ∧ (vfs.containers container).context.isSome

def maxFileSize : Nat := 2 ^ 63 - 1

def ensureWriteSize (container : String) (dbId : Nat) (vfs : Vfs Hash) : Vfs Hash :=
  match sessionBound vfs container, (vfs.containers container).man,
      vfs.database container dbId with
  | true, some man, some db =>
    if 0 < man.szBlk ∧ db.blkLocal.length ≤ maxFileSize / man.szBlk then
      vfs.setContext container fun context =>
        { context with
          writeFileSize := some (context.writeFileSize.getD (db.blkLocal.length * man.szBlk)) }
    else vfs
  | _, _, _ => vfs

/-- `bcvfsLocalNoteWrite21`. A manifest without an exact size gets none. -/
def localNoteWrite (container : String) (dbId offset amount : Nat) (vfs : Vfs Hash) : Vfs Hash :=
  if amount = 0 ∨ maxFileSize < offset + amount ∨ sessionBound vfs container then vfs
  else
    vfs.setDatabase container dbId fun db =>
      { db with
        fileSize := if 0 < db.fileSize ∧ db.fileSize < offset + amount then offset + amount
          else db.fileSize }

def sessionNoteWrite (container : String) (dbId offset amount : Nat) (vfs : Vfs Hash) : Vfs Hash :=
  if sessionBound vfs container then
    (ensureWriteSize container dbId vfs).setContext container fun context =>
      { context with
        writeFileSize :=
          if maxFileSize < offset + amount then none
          else context.writeFileSize.map fun size => max size (offset + amount) }
  else vfs

def xWrite [BlockDigest] (container : String) (dbId : Nat) (bytes : Bytes) (offset : Nat) :
    VfsM Hash Unit := do
  onVfs (ensureWriteSize container dbId)
  let world : World Hash ← get
  Act.require (bytes ≠ [] → 0 < world.vfs.szBlk) ⟨.ioerr, ""⟩
  writeParts container dbId bytes offset
    (parts world.vfs.szBlk bytes.length offset bytes.length)
  onVfs (localNoteWrite container dbId offset bytes.length)
  onVfs (sessionNoteWrite container dbId offset bytes.length)

def xRead [BlockDigest] (container : String) (dbId : Nat) (amount offset : Nat) :
    VfsM Hash (Bytes × Bool) := do
  let world : World Hash ← get
  Act.require (amount ≠ 0 → 0 < world.vfs.szBlk) ⟨.ioerr, ""⟩
  readParts container dbId (parts world.vfs.szBlk amount offset amount)

/-- One position of `bcvfsUndirtyBlocks`: its staged rows get tombstones, and the entry its
name finds is no longer dirty. -/
def undirtyBlock (container : String) (db : ManifestDb) (pos : Nat) : VfsM Hash Unit :=
  Act.when (db.blkLocal[pos]? ≠ db.blkOrig[pos]?) do
    effect
    onVfs fun vfs => vfs.stagedDelete ⟨container, db.dbId, pos⟩
    let world : World Hash ← get
    match (db.blkLocal[pos]?).bind world.vfs.hashFind with
    | none => return
    | some entry => do
        onVfs fun vfs => vfs.setEntry entry.slot fun entry =>
          { entry with dirty := false, staged := false }
        Act.when entry.dirty effect

def undirtyBlocks (container : String) (db : ManifestDb) : List Nat → VfsM Hash Unit
  | [] => return
  | pos :: rest => do
      undirtyBlock container db pos
      undirtyBlocks container db rest

/-- The blocks from `count` on leave the mapping. Their names stay in the array behind it, if
the mapping has one of its own. -/
def cutBlocks (container : String) (dbId count : Nat) (db : ManifestDb) : VfsM Hash Unit := do
  undirtyBlocks container db (List.range' count (db.blkLocal.length - count))
  onVfs fun vfs => (vfs.setDatabase container dbId fun db =>
      { db with blkLocal := db.blkLocal.take count }).setSpare container dbId
    (if db.localAlloc then db.blkLocal.drop count ++ vfs.spare container dbId else [])

/-- The size a truncate leaves: the tracked one of a session, otherwise the exact size of the
manifest if it has one. -/
def noteTruncate (container : String) (dbId size : Nat) (vfs : Vfs Hash) : Vfs Hash :=
  if sessionBound vfs container then
    vfs.setContext container fun context => { context with writeFileSize := some size }
  else
    vfs.setDatabase container dbId fun db =>
      { db with fileSize := if 0 < db.fileSize then size else db.fileSize }

def xTruncate (container : String) (dbId size : Nat) : VfsM Hash Unit := do
  let world : World Hash ← get
  match (world.vfs.containers container).man, world.vfs.database container dbId with
  | some man, some db => do
      Act.require (0 < man.szBlk ∧ size ≤ maxFileSize - (man.szBlk - 1)) ⟨.ioerr, ""⟩
      let count := (size + man.szBlk - 1) / man.szBlk
      Act.require (count ≤ 0x7fffffff) ⟨.tooBig, ""⟩
      Act.when (count < db.blkLocal.length) (cutBlocks container dbId count db)
      onVfs (noteTruncate container dbId size)
  | _, _ => throw ⟨.ioerr, ""⟩

/-- The size a session tracks for its database, once a checkpoint has made it visible. -/
def trackedSize (container : Container Hash) (db : ManifestDb) : Option Nat :=
  container.context.bind fun context =>
    if context.overlay ∧ db.name = context.scope.database then context.writeFileSize else none

def xFileSize (vfs : Vfs Hash) (container : String) (dbId : Nat) : Except Err Nat :=
  match (vfs.containers container).man, vfs.database container dbId with
  | some man, some db =>
    .ok ((trackedSize (vfs.containers container) db).getD
      (if 0 < db.fileSize then db.fileSize else db.blkLocal.length * man.szBlk))
  | _, _ => .error ⟨.ioerr, ""⟩

end RusqDoltlite.Blocks

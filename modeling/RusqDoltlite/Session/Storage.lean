import RusqDoltlite.Effects.Pool
import RusqDoltlite.Session.Record

/-! The in-memory manifest of a container, its databases with the block mapping that was downloaded
(`blkOrig`) and the mapping local writes produced (`blkLocal`); the objects a container keeps in
cloud storage, and the fetch and PUT helpers of the session code over them. -/

namespace RusqDoltlite.Session

open Effects

abbrev BlockId := Bytes

/-- `BCVFS_FIRST_LOCAL_ID`: ids from here on are local ones, replaced at upload. -/
def firstLocalId : Nat := 0xFFFFFFFF - 1000000

/-- `localAlloc` says that `blkLocal` is a copy of its own (`nBlkLocalAlloc`), as it is
once a block of the database has been written. -/
structure ManifestDb where
  dbId : Nat
  parentId : Nat
  name : String
  version : Nat
  fileSize : Nat
  blkOrig : List BlockId
  blkLocal : List BlockId
  localAlloc : Bool
deriving DecidableEq, Repr

structure Manifest where
  szBlk : Nat
  nameBytes : Nat
  maxDbId : Nat
  dbs : List ManifestDb
  delBlk : List (BlockId × Nat)
  etag : Option ETag
deriving DecidableEq, Repr

/-- `bcvManifestCompose` and `bcvManifestParse`. The parsed manifest has no ETag of
its own: the caller supplies it. -/
class ManifestCodec where
  compose : Manifest → Bytes
  parse : Bytes → Except Err Manifest

namespace Manifest

def findDatabase (man : Manifest) (name : String) : Option ManifestDb :=
  man.dbs.find? (fun db => db.name == name)

def findDatabaseById (man : Manifest) (dbId : Nat) : Option ManifestDb :=
  man.dbs.find? (fun db => db.dbId == dbId)

def parseCopy [ManifestCodec] (bytes : Bytes) (etag : ETag) : Except Err Manifest := do
  let man ← ManifestCodec.parse bytes
  .ok { man with etag := some etag }

/-- The databases `bcvfsUpload` picks: local, written, deleted or empty ones, and those
with a WAL file; the pragma looks at the one of its handle only. -/
def uploadSet (man : Manifest) (walFiles : List String) (only : Option Nat) : List ManifestDb :=
  man.dbs.filter fun db =>
    (firstLocalId ≤ db.dbId || db.localAlloc || db.blkLocal.isEmpty || walFiles.contains db.name) &&
      only.all (fun dbId => db.dbId == dbId)

/-- The private flat copy of `bcvfsSessionComposeBody`: every current mapping is
promoted into the original one, parent links are removed, and the session database
gets its exact size. -/
def flatten (man : Manifest) (database : String) (fileSize : Nat) : Manifest :=
  { man with
    dbs := man.dbs.map fun db =>
      { db with
        blkOrig := db.blkLocal
        localAlloc := false
        parentId := 0
        fileSize := if db.name = database then fileSize else db.fileSize } }

def sessionShapeValid (base overlay : Manifest) (database : String) (fileSize : Nat) :
    Except Err Unit := do
  check (0 < base.szBlk ∧ overlay.szBlk = base.szBlk ∧ overlay.dbs.length = base.dbs.length) .auth
    "session checkpoint base manifest does not match the published base"
  overlay.dbs.forM fun db => do
    check ((base.findDatabaseById db.dbId).map ManifestDb.name = some db.name) .auth
      "session checkpoint contains an unauthorized database"
    check (∀ block ∈ db.blkLocal, ∃ byte ∈ block, byte ≠ 0) .corrupt
      "session checkpoint contains an empty block ID"
  match overlay.findDatabase database with
  | none => .error ⟨.auth, "session checkpoint target database is missing"⟩
  | some target => do
      check (fileSize < 2 ^ 63) .corrupt "session checkpoint file size is invalid"
      check ((fileSize + overlay.szBlk - 1) / overlay.szBlk = target.blkLocal.length) .corrupt
        "session checkpoint mapping has blocks beyond the logical file size"

end Manifest

/-- Object names under the container: `manifest.bcv`, and below `bcv-session/v1/`
the immutable candidates, one head per session, the checkpoints and history
segments of a session by record hash, and the publication head, whose name is the
storage scope of the container. -/
inductive Key (Hash : Type) where
  | manifest
  | candidate (hash : Hash)
  | head (sessionId : SessionId)
  | checkpoint (sessionId : SessionId) (hash : Hash)
  | history (sessionId : SessionId) (hash : Hash)
  | publication
deriving DecidableEq, Repr

/-- `sqlite3_bcvfs_session_put` rejects a record whose type is not that of its key,
so each key holds objects of one kind. -/
abbrev Blob {Hash : Type} [DecidableEq Hash] [Digest Hash] : Key Hash → Type
  | .manifest => Bytes
  | .candidate _ => Bytes
  | .head _ => Encoded Hash (HeadBody Hash)
  | .checkpoint _ _ => Encoded Hash (CheckpointBody Hash)
  | .history _ _ => Encoded Hash (HistoryBody Hash)
  | .publication => Encoded Hash (PublicationBody Hash)

/-- Where a read of the session head is made from. The two reads of the publisher
are told apart because runs are judged by what they find there: the first carries the
operation the attachment is bound to, the last the checkpoint that has been published. -/
inductive Site (Hash : Type) where
  | other
  | publishHead (operationId : Hash)
  | commitHead (checkpointHash : Hash)
deriving DecidableEq, Repr

/-- Requests that do not concern session objects: the clock (`sqlite_timestamp`, and
the checked reading of rehydrate and accept), whether a WAL sidecar holds frames, the
staging of every dirty block (which renames the staged positions, also when it
fails half way), the local ledger of staged blocks, the replacement of local scratch state by an
overlay, the part of an
ordinary upload between the choice of its databases and its manifest PUT, the merge of
an uploaded and of a polled manifest with local state, and whether a container has
local changes. -/
inductive Query where
  | timestamp
  | currentTime
  | walNonEmpty (man : Manifest) (database : String)
  | stageDirty (man : Manifest)
  | verifyMappings (base man : Manifest)
  | installOverlay (man : Manifest)
  | prepareUpload (man : Manifest) (chosen : List ManifestDb)
  | mergeLocal (man uploaded : Manifest)
  | manifestUpdate (man fetched : Manifest)
  | localChanges (man : Manifest)
deriving DecidableEq, Repr

abbrev Reply : Query → Type
  | .timestamp => Nat
  | .currentTime => Option Nat
  | .walNonEmpty _ _ => Except Err Bool
  | .stageDirty _ => List ManifestDb × Except Err Unit
  | .verifyMappings _ _ => Except Err Unit
  | .installOverlay _ => Except Err Unit
  | .prepareUpload _ _ => Except Err Manifest
  | .mergeLocal _ _ => Except Err (List ManifestDb)
  | .manifestUpdate _ _ => Except Err Manifest
  | .localChanges _ => Except Err Bool

section
variable (Hash : Type) [DecidableEq Hash] [Digest Hash]

abbrev Req := Request (Key Hash) Blob ETag (Site Hash) Query
abbrev Ans (request : Req Hash) : Type := Answer Err Reply request
abbrev Op (α : Type) := Prog (Req Hash) (Ans Hash) Err α
abbrev OpLog := Log (Req Hash) (Ans Hash)
abbrev Objects := Store (Key Hash) Blob ETag

end

variable {Hash : Type} [DecidableEq Hash] [Digest Hash]

def timestamp : Op Hash Nat := .call (.ask .timestamp) .done

def currentTime (failure : Err) : Op Hash Nat := .call (.ask .currentTime) fun
  | some now => .done now
  | none => .fail failure

def walNonEmpty (man : Manifest) (database : String) : Op Hash Bool :=
  .call (.ask (.walNonEmpty man database)) Prog.ofExcept

def stageDirty (man : Manifest) : Op Hash (List ManifestDb × Except Err Unit) :=
  .call (.ask (.stageDirty man)) .done

def verifyMappings (base man : Manifest) : Op Hash Unit :=
  .call (.ask (.verifyMappings base man)) Prog.ofExcept

def installScratch (man : Manifest) : Op Hash Unit :=
  .call (.ask (.installOverlay man)) Prog.ofExcept

def prepareUpload (man : Manifest) (chosen : List ManifestDb) : Op Hash Manifest :=
  .call (.ask (.prepareUpload man chosen)) Prog.ofExcept

def mergeLocal (man uploaded : Manifest) : Op Hash (List ManifestDb) :=
  .call (.ask (.mergeLocal man uploaded)) Prog.ofExcept

def manifestUpdate (man fetched : Manifest) : Op Hash Manifest :=
  .call (.ask (.manifestUpdate man fetched)) Prog.ofExcept

def localChanges (man : Manifest) : Op Hash Bool := .call (.ask (.localChanges man)) Prog.ofExcept

def getObject (key : Key Hash) (site : Site Hash) : Op Hash (Option (Version ETag (Blob key))) :=
  .call (.get key site) Prog.ofExcept

def putObject (key : Key Hash) (condition : Condition ETag) (blob : Blob key) : Op Hash ETag :=
  .call (.put key condition blob) Prog.ofExcept

/-- The tail of `sqlite3_bcvfs_session_fetch`. An object that does not exist is
`none`; a record that does not belong to the session, the scope or its own
content-addressed key is an error. -/
def sessionFetched {Body : Type} [SessionBody Hash Body] (sessionId : Option SessionId)
    (scopeHash : Hash) (objectId : Option Hash) (mismatch : String)
    (fetched : Option (Version ETag (Encoded Hash Body))) :
    Op Hash (Option (Version ETag (Encoded Hash Body))) :=
  match fetched with
  | none => .done none
  | some version => do
      let _ ← Prog.ofExcept (recordDecode sessionId scopeHash version.blob)
      Prog.require (∀ hash ∈ objectId, version.blob.recordHash = hash) ⟨.corrupt, mismatch⟩
      .done (some version)

def sessionFetchHead (sessionId : SessionId) (scopeHash : Hash) (site : Site Hash) :
    Op Hash (Option (Version ETag (Encoded Hash (HeadBody Hash)))) := do
  sessionFetched (some sessionId) scopeHash none "" (← getObject (.head sessionId) site)

def sessionFetchCheckpoint (sessionId : SessionId) (scopeHash hash : Hash) :
    Op Hash (Option (Version ETag (Encoded Hash (CheckpointBody Hash)))) := do
  Prog.require (hash ≠ Digest.zero) ⟨.misuse, "session object hash is required"⟩
  sessionFetched (some sessionId) scopeHash (some hash) "checkpoint key does not match record hash"
    (← getObject (.checkpoint sessionId hash) .other)

def sessionFetchHistory (sessionId : SessionId) (scopeHash hash : Hash) :
    Op Hash (Option (Version ETag (Encoded Hash (HistoryBody Hash)))) := do
  Prog.require (hash ≠ Digest.zero) ⟨.misuse, "session object hash is required"⟩
  sessionFetched (some sessionId) scopeHash (some hash) "history key does not match record hash"
    (← getObject (.history sessionId hash) .other)

def sessionFetchPublication : Op Hash (Option (Version ETag (Encoded Hash (PublicationBody Hash)))) := do
  sessionFetched none Digest.storageScope none "" (← getObject .publication .other)

def foundOr (missing : Err) (result : Option α) : Op Hash α :=
  match result with
  | some value => .done value
  | none => .fail missing

/-- A missing object is the provider's 404 where the caller has no use for it. -/
def found (result : Option α) : Op Hash α := foundOr ⟨.httpNotFound, "object not found"⟩ result

def sessionPutHead (sessionId : SessionId) (scopeHash : Hash) (condition : Condition ETag)
    (encoded : Encoded Hash (HeadBody Hash)) : Op Hash ETag := do
  let _ ← Prog.ofExcept (recordDecode (some sessionId) scopeHash encoded)
  putObject (.head sessionId) condition encoded

def sessionPutPublication (condition : Condition ETag)
    (encoded : Encoded Hash (PublicationBody Hash)) : Op Hash ETag := do
  let _ ← Prog.ofExcept (recordDecode none Digest.storageScope encoded)
  putObject .publication condition encoded

/-- The reconciliation of a create-only PUT: only an object with the same bytes is
taken for the one that was to be written. -/
def reconcileImmutable {Body : Type} [SessionBody Hash Body] [DecidableEq Body]
    (encoded : Encoded Hash Body) (failure : Err)
    (existing : Except Err (Option (Version ETag (Encoded Hash Body)))) : Op Hash ETag :=
  match existing with
  | .ok (some version) =>
    if version.blob = encoded then .done version.etag
    else .fail ⟨.constraint, "immutable session key already contains different bytes"⟩
  | _ => .fail failure

def sessionPutCheckpoint (sessionId : SessionId) (scopeHash : Hash)
    (encoded : Encoded Hash (CheckpointBody Hash)) : Op Hash ETag := do
  Prog.require (encoded.recordHash ≠ Digest.zero) ⟨.misuse, "session object hash is required"⟩
  let _ ← Prog.ofExcept (recordDecode (some sessionId) scopeHash encoded)
  match ← (putObject (.checkpoint sessionId encoded.recordHash) .absent encoded).attempt with
  | .ok etag => .done etag
  | .error failure =>
    reconcileImmutable encoded failure
      (← (sessionFetchCheckpoint sessionId scopeHash encoded.recordHash).attempt)

def sessionPutHistory (sessionId : SessionId) (scopeHash : Hash)
    (encoded : Encoded Hash (HistoryBody Hash)) : Op Hash ETag := do
  Prog.require (encoded.recordHash ≠ Digest.zero) ⟨.misuse, "session object hash is required"⟩
  let _ ← Prog.ofExcept (recordDecode (some sessionId) scopeHash encoded)
  match ← (putObject (.history sessionId encoded.recordHash) .absent encoded).attempt with
  | .ok etag => .done etag
  | .error failure =>
    reconcileImmutable encoded failure
      (← (sessionFetchHistory sessionId scopeHash encoded.recordHash).attempt)

def sessionManifestFetch : Op Hash (Version ETag Bytes) := do
  let version ← found (← getObject .manifest .other)
  Prog.require (version.blob.length ≤ bodyMaxBytes) ⟨.tooBig, "invalid manifest object size"⟩
  .done version

def sessionManifestPut (ifMatch : ETag) (bytes : Bytes) : Op Hash ETag := do
  Prog.require (bytes ≠ []) ⟨.misuse, "manifest PUT arguments are required"⟩
  putObject .manifest (.tagged ifMatch) bytes

def sessionCandidateFetch (hash : Hash) : Op Hash (Option (Version ETag Bytes)) := do
  Prog.require (hash ≠ Digest.zero) ⟨.misuse, "candidate object identity is invalid"⟩
  match ← getObject (.candidate hash) .other with
  | none => .done none
  | some version => do
      Prog.require (version.blob.length ≤ bodyMaxBytes) ⟨.tooBig, "invalid manifest object size"⟩
      .done (some version)

def sessionCandidatePut (hash : Hash) (bytes : Bytes) : Op Hash ETag := do
  Prog.require (bytes ≠ []) ⟨.misuse, "candidate PUT arguments are required"⟩
  Prog.require (bytes.length ≤ bodyMaxBytes) ⟨.tooBig, "candidate manifest is too large"⟩
  Prog.require (hash ≠ Digest.zero) ⟨.misuse, "candidate object identity is invalid"⟩
  match ← (putObject (.candidate hash) .absent bytes).attempt with
  | .ok etag => .done etag
  | .error failure =>
    match ← (sessionCandidateFetch hash).attempt with
    | .ok (some existing) =>
      if existing.blob = bytes then .done existing.etag
      else .fail ⟨.constraint, "candidate object already contains different bytes"⟩
    | _ => .fail failure

end RusqDoltlite.Session

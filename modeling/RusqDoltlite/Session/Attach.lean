import RusqDoltlite.Session.Head

/-! `sqlite3_bcvfs_attach_session_scoped`: own the alias, capture the session head as
the expected predecessor, bind the operation, and replace all local state by the
checkpoint the head names. -/

namespace RusqDoltlite.Session

open Effects

variable {Hash : Type} [DecidableEq Hash] [Digest Hash]

structure Tip (Hash : Type) where
  checkpointHash : Hash
  sequence : Nat
  headHash : Hash
  etag : Option ETag
deriving DecidableEq, Repr

def databaseNameIsReserved (name : String) : Bool :=
  ["-wal", "-shm", "-journal"].any (fun suffix => suffix.toList.isSuffixOf name.toList) ||
    (name.toList.head? == some '.' && 6 < name.length && "-lock".toList.isSuffixOf name.toList)

def fetchManifest [ManifestCodec] : Op Hash Manifest := do
  let version ← found (← getObject .manifest .other)
  Prog.ofExcept (Manifest.parseCopy version.blob version.etag)

/-- `bcvfsSessionAcceptedTip`. Only a missing head selects the zero predecessor. -/
def sessionAcceptedTip (binding : Binding) : Op Hash (Tip Hash) := do
  match ← sessionReadHead binding .other with
  | none => .done ⟨Digest.zero, 0, Digest.zero, none⟩
  | some stored => do
      let head := stored.blob.record
      Prog.require
        ((head.state = .accepted ∧ head.outcome = .success) ∨
          (head.state = .publishing ∧ head.outcome = .none) ∨
          (head.state = .committed ∧ head.outcome = .success))
        ⟨.constraint, "session head is not an accepted predecessor"⟩
      Prog.require (head.sequence = 0 → head.body.checkpointHash = Digest.zero)
        ⟨.corrupt, "session head has a checkpoint but no sequence"⟩
      .done ⟨head.body.checkpointHash, head.sequence, stored.blob.recordHash, some stored.etag⟩

def sessionBind (man : Manifest) (scope : Scope) (operationId : Hash) (tip : Tip Hash) :
    Except Err (Context Hash) := do
  check (operationId ≠ Digest.zero) .misuse "session operation ID is required"
  check ((man.findDatabase scope.database).isSome = true) .auth "session database is not attached"
  .ok
    { scope := scope
      operationId := operationId
      predecessorHash := tip.checkpointHash
      sequence := tip.sequence
      expectedCheckpointHash := tip.checkpointHash
      expectedHeadHash := tip.headHash
      expectedSequence := tip.sequence
      predecessorETag := tip.etag
      writeFileSize := none
      overlay := false }

/-- One checkpoint of the chain walk of `sqlite3_bcvfs_session_rehydrate`. The first one
is the head's own; each later one must have a smaller sequence number. -/
def rehydrateCheckpoint (binding : Binding) (head : Head Hash) (first : Bool) (upper : Nat)
    (hash : Hash) : Op Hash (Checkpoint Hash) := do
  let stored ← found (← sessionFetchCheckpoint binding.sessionId binding.scopeHash hash)
  let checkpoint := stored.blob.record
  Prog.require
    (checkpoint.state = .opened ∧ checkpoint.outcome = .none ∧ checkpoint.sequence ≠ 0 ∧
      (if first then checkpoint.operationId = head.operationId ∧ checkpoint.sequence ≤ upper
        else checkpoint.sequence < upper))
    ⟨.corrupt, "session checkpoint identity or sequence is invalid"⟩
  Prog.require (checkpoint.body.baseManifestETag = head.body.baseManifestETag)
    ⟨.auth, "session checkpoint base identity does not match the accepted head"⟩
  Prog.require (∀ base ∈ checkpoint.body.baseCheckpointHash, checkpoint.predecessorHash = base)
    ⟨.corrupt, "compacted session checkpoint has the wrong predecessor link"⟩
  .done checkpoint

/-- The chain walk, down to a compacted checkpoint or the first one of the session. It
returns the checkpoint it started from. -/
def rehydrateChain (binding : Binding) (head : Head Hash) (remaining : Nat) (seen : List Hash)
    (upper : Nat) (hash : Hash) : Op Hash (Checkpoint Hash) := do
  Prog.require (hash ∉ seen) ⟨.corrupt, "session checkpoint chain contains a cycle"⟩
  match remaining with
  | 0 => .fail ⟨.tooBig, "session checkpoint chain is too deep"⟩
  | remaining + 1 => do
      let checkpoint ← rehydrateCheckpoint binding head seen.isEmpty upper hash
      if checkpoint.body.compacted = true ∨ checkpoint.predecessorHash = Digest.zero then
        .done checkpoint
      else do
        let _ ← rehydrateChain binding head remaining (hash :: seen) checkpoint.sequence
          checkpoint.predecessorHash
        .done checkpoint

/-- The part of rehydrate for a session without a head: the published manifest itself
becomes the base of the first request. -/
def rehydrateBase [ManifestCodec] (context : Context Hash) : Op Hash (Manifest × Context Hash) := do
  let base ← fetchManifest
  Prog.require
    (base.etag.isSome = true ∧
      ((base.findDatabase context.scope.database).any fun db => !db.blkLocal.isEmpty) = true)
    ⟨.auth, "published base has no session database"⟩
  installScratch base
  .done (base, { context with
    predecessorHash := Digest.zero, sequence := 0, writeFileSize := none, overlay := false })

/-- The overlay of a head: the manifest of its checkpoint, under the base ETag the
checkpoint was made from. -/
def rehydrateOverlay [ManifestCodec] (binding : Binding) (context : Context Hash)
    (head : Head Hash) : Op Hash (Manifest × Context Hash) := do
  Prog.require ((head.state = .accepted ∨ head.state = .publishing ∨ head.state = .committed) ∧
      head.operationId ≠ Digest.zero) ⟨.corrupt, "session head has an invalid state"⟩
  let now ← currentTime ⟨.ioerr, "could not read session clock"⟩
  Prog.require (isExpired head now = false) ⟨.auth, "session head has expired"⟩
  Prog.require (head.body.checkpointHash ≠ Digest.zero) ⟨.corrupt, "session head has no checkpoint"⟩
  let base ← fetchManifest
  Prog.require (head.state = .accepted → base.etag = some head.body.baseManifestETag)
    ⟨.busy, "published manifest changed since the accepted session head"⟩
  let checkpoint ← rehydrateChain binding head rehydrateMaxChain [] head.sequence
    head.body.checkpointHash
  let overlay ← Prog.ofExcept
    (Manifest.parseCopy checkpoint.body.manifest checkpoint.body.baseManifestETag)
  Prog.ofExcept
    (base.sessionShapeValid overlay context.scope.database checkpoint.body.fileSize)
  let published := ManifestCodec.compose base
  Prog.require
    (base.etag ≠ some head.body.baseManifestETag ∨ head.state = .committed →
      Digest.manifest published = head.body.candidateManifestHash ∧
        published = checkpoint.body.manifest)
    ⟨.busy, "session publication candidate is not the published manifest"⟩
  installScratch overlay
  .done (overlay, { context with
    predecessorHash := head.body.checkpointHash
    sequence := head.sequence
    writeFileSize := some checkpoint.body.fileSize
    overlay := true })

def sessionRehydrate [ManifestCodec] (binding : Binding) (context : Context Hash) :
    Op Hash (Manifest × Context Hash) := do
  match ← sessionReadHead binding .other with
  | none => rehydrateBase context
  | some stored => rehydrateOverlay binding context stored.blob.record

/-- `sqlite3_bcvfs_attach_session`: take over the detached alias of the same session, or
attach a free one. -/
def attachSession [ManifestCodec] (sessionId : SessionId) (container : Container Hash) :
    Op Hash (Manifest × Container Hash) := do
  match container.man with
  | some man => do
      Prog.require (container.owned = false)
        ⟨.busy, "session attachment is already owned or being detached: " ++ container.name⟩
      Prog.require (container.clients = 0)
        ⟨.busy, "session attachment has active clients or operation state: " ++ container.name⟩
      Prog.require (container.sessionId = some sessionId)
        ⟨.busy, "container alias belongs to a different session or storage scope: " ++
          container.name⟩
      .done (man, { container with owned := true })
  | none => do
      let man ← fetchManifest
      .done (man, { container with
        man := some man, sessionId := some sessionId, owned := true, clients := 0, context := none })

/-- `bcvfsDetach` of a session: local changes keep the scratch state for a later attach of
the same session, otherwise the container is freed. -/
def releaseSession (man : Manifest) (container : Container Hash) : Op Hash (ApiOut Hash Unit) :=
  let kept := { container with owned := false }
  if container.clients = 0 then
    (localChanges man).orKeep kept fun dirty =>
      .done (if dirty then kept else .free container.name, .ok ())
  else
    .done (kept, .error ⟨.busy, "container is still in use: " ++ container.name⟩)

def detachSession (sessionId : SessionId) (container : Container Hash) : Op Hash (ApiOut Hash Unit) :=
  match container.man with
  | none => .done (container, .error ⟨.error, "no such container: " ++ container.name⟩)
  | some man =>
    if container.sessionId ≠ some sessionId then
      .done (container,
        .error ⟨.misuse, "session ID does not own container alias: " ++ container.name⟩)
    else if container.owned = false then
      .done (container,
        .error ⟨.misuse, "session attachment has no live owner: " ++ container.name⟩)
    else
      releaseSession man container

/-- The part of the scoped attach that fails by detaching again. -/
def attachBind [ManifestCodec] (binding : Binding) (operationId : Hash) (man : Manifest) :
    Op Hash (Manifest × Context Hash) := do
  let tip ← sessionAcceptedTip binding
  let context ← Prog.ofExcept (sessionBind man binding.scope operationId tip)
  sessionRehydrate binding context

def attachSessionScoped [ManifestCodec] (binding : Binding) (operationId : Hash)
    (container : Container Hash) : Op Hash (ApiOut Hash Unit) :=
  (Prog.require (databaseNameIsReserved binding.scope.database = false)
      ⟨.misuse, "session target is a reserved SQLite sidecar or local lock name"⟩).orKeep container
    fun _ =>
  (attachSession binding.sessionId container).orKeep container fun (man, owned) => do
  let cleared := { owned with context := none }
  match ← (attachBind binding operationId man).attempt with
  | .ok (overlay, context) =>
    .done ({ cleared with man := some overlay, walFiles := [], context := some context }, .ok ())
  | .error error => do
      let (released, _) ← releaseSession man cleared
      .done (released, .error error)

end RusqDoltlite.Session

import RusqDoltlite.Session.Publish

/-! `sqlite3_bcvfs_session_checkpoint`: stage every dirty block, compose the flat manifest of the
request and store it as an immutable checkpoint record. `sqlite3_bcvfs_session_finalize`: publish a
head that already names the operation, or checkpoint the request, claim the session head for it and
publish that. `sqlite3_bcvfs_session_accept`: make the final checkpoint of a request the accepted
head of the session, unless its operation has been accepted before. -/

namespace RusqDoltlite.Session

open Effects

variable {Hash : Type} [DecidableEq Hash] [Digest Hash]

def sessionFileSize (man : Manifest) (db : ManifestDb) (writeFileSize : Option Nat) :
    Op Hash Nat := do
  match ← (walNonEmpty man db.name).attempt with
  | .error error => .fail ⟨error.code, "could not inspect SQLite WAL state for checkpoint"⟩
  | .ok true => .fail ⟨.misuse, "checkpoint has committed WAL frames that are not merged"⟩
  | .ok false => do
      Prog.require (0 < man.szBlk) ⟨.corrupt, "checkpoint database extent is unavailable"⟩
      Prog.require (writeFileSize = none → db.blkLocal.length ≤ (2 ^ 63 - 1) / man.szBlk)
        ⟨.tooBig, "checkpoint database extent overflows"⟩
      let size := writeFileSize.getD (db.blkLocal.length * man.szBlk)
      Prog.require (0 < size) ⟨.corrupt, "checkpoint database has no logical extent"⟩
      .done size

/-- `bcvfsSessionComposeBody`. From the compaction threshold on, the body carries the
accepted predecessor of the attachment. -/
def sessionComposeBody [ManifestCodec] (man : Manifest) (context : Context Hash) (fileSize : Nat) :
    Op Hash (CheckpointBody Hash) := do
  Prog.require (∀ db ∈ man.dbs, db.blkLocal.length * man.nameBytes ≤ 0x7fffffff) ⟨.tooBig, ""⟩
  let flat := man.flatten context.scope.database fileSize
  verifyMappings man flat
  match man.etag with
  | none => .fail ⟨.ioerr, "checkpoint requires a base manifest ETag"⟩
  | some baseETag => do
      let body : CheckpointBody Hash :=
        { fileSize := fileSize
          baseManifestETag := baseETag
          manifest := ManifestCodec.compose flat
          baseCheckpointHash :=
            if compactionThreshold - 1 ≤ context.sequence then some context.expectedCheckpointHash
            else none }
      Prog.require (SessionBody.bytes body ≤ bodyMaxBytes)
        ⟨.tooBig, "session checkpoint exceeds record limit"⟩
      .done body

def checkpointRecord (sessionId : SessionId) (context : Context Hash) (now : Nat)
    (body : CheckpointBody Hash) : Checkpoint Hash :=
  { state := .opened
    outcome := .none
    sequence := context.sequence + 1
    created := now
    expires := now + ttlMilliseconds
    sessionId := sessionId
    scopeHash := Digest.scope context.scope
    predecessorHash :=
      if compactionThreshold - 1 ≤ context.sequence then context.expectedCheckpointHash
      else context.predecessorHash
    operationId := context.operationId
    body := body }

/-- The part of `bcvfsSessionCheckpointForFile` after the staging: compose, encode and
store the record, and make it the predecessor of the next one. -/
def checkpointStore [ManifestCodec] (sessionId : SessionId) (man : Manifest)
    (context : Context Hash) (fileSize : Nat) :
    Op Hash (Context Hash × Encoded Hash (CheckpointBody Hash)) := do
  let body ← sessionComposeBody man context fileSize
  Prog.require (context.sequence ≠ sequenceMax) ⟨.tooBig, "session checkpoint sequence exhausted"⟩
  let now ← timestamp
  let encoded ← Prog.ofExcept (recordEncode (checkpointRecord sessionId context now body))
  let _ ← sessionPutCheckpoint sessionId (Digest.scope context.scope) encoded
  .done
    ({ context with
      predecessorHash := encoded.recordHash
      sequence := context.sequence + 1
      writeFileSize := some fileSize
      overlay := true }, encoded)

def checkpointSize (man : Manifest) (context : Context Hash) : Op Hash Nat := do
  match man.findDatabase context.scope.database with
  | none => .fail ⟨.auth, "session database is not attached"⟩
  | some db => do
      let fileSize ← sessionFileSize man db context.writeFileSize
      Prog.require (db.blkLocal ≠ [] ∧ fileSize ≤ db.blkLocal.length * man.szBlk)
        ⟨.corrupt, "checkpoint file size exceeds the checkpoint manifest extent"⟩
      .done fileSize

/-- `sqlite3_bcvfs_session_checkpoint`. Staged positions stay staged and a stored
checkpoint stays the local predecessor, whatever fails afterwards. -/
def sessionCheckpoint [ManifestCodec] (sessionId : SessionId) (container : Container Hash) :
    Op Hash (ApiOut Hash (Encoded Hash (CheckpointBody Hash))) :=
  (Prog.ofExcept (container.bound
      (container.ownedBy sessionId "session does not own container alias")
      "session checkpoint scope is not bound")).orKeep container fun (man, context) =>
  (checkpointSize man context).orKeep container fun fileSize => do
  let (dbs, staged) ← stageDirty man
  let container := container.setDbs man dbs
  (Prog.ofExcept staged).orKeep container fun _ =>
  (checkpointStore sessionId { man with dbs := dbs } context fileSize).orKeep container
    fun (next, encoded) =>
  .done (container.setContext next, .ok encoded)

inductive FinalizePlan (Hash : Type) [DecidableEq Hash] [Digest Hash] where
  | publish
  | succeed (history : Hash × List Hash)

/-- The checks of `bcvfsSessionFinalizeNew` on the current head. A head of the same
operation is published as it is; otherwise the operation history to carry over is
returned. -/
def finalizeHead (context : Context Hash) (current : Option (StoredHead Hash)) :
    Except Err (FinalizePlan Hash) :=
  match current with
  | some stored => do
      let head := stored.blob.record
      check (context.predecessorETag = some stored.etag ∧
          stored.blob.recordHash = context.expectedHeadHash)
        .constraint "session head changed after scoped attach"
      if head.operationId = context.operationId then do
        check (head.state = .accepted ∨ head.state = .publishing ∨ head.state = .committed)
          .constraint "session head is not finalizable"
        .ok .publish
      else do
        check (head.state ≠ .publishing) .constraint
          "another operation is awaiting publication reconciliation"
        check (head.state = .accepted ∨ head.state = .committed) .constraint
          "session predecessor is not finalizable"
        .ok (.succeed (head.body.historyHeadHash, head.body.historyOperations))
  | none => do
      check (context.predecessorETag = none) .constraint
        "expected session predecessor head is missing"
      .ok (.succeed (Digest.zero, []))

/-- An ordinary checkpoint extends the local predecessor; a compacted one skips that
chain and must name the accepted predecessor. -/
def extendsPredecessor (context : Context Hash) (checkpoint : Checkpoint Hash) : Bool :=
  match checkpoint.body.baseCheckpointHash with
  | some base => checkpoint.predecessorHash = base ∧ base = context.expectedCheckpointHash
  | none => checkpoint.predecessorHash = context.predecessorHash

def finalizeCandidate (binding : Binding) (context : Context Hash) (checkpointHash : Hash) :
    Op Hash (Checkpoint Hash × Candidate Hash) := do
  let stored ← found (← sessionFetchCheckpoint binding.sessionId binding.scopeHash checkpointHash)
  let checkpoint := stored.blob.record
  Prog.require (checkpoint.state = .opened ∧ checkpoint.outcome = .none ∧
      checkpoint.sequence = context.sequence + 1 ∧
      checkpoint.operationId = context.operationId)
    ⟨.constraint, "session checkpoint does not match its current predecessor"⟩
  Prog.require (extendsPredecessor context checkpoint = true)
    ⟨.constraint, "session checkpoint does not match its current predecessor"⟩
  Prog.require (checkpoint.body.manifest ≠ [])
    ⟨.corrupt, "session checkpoint has no publication candidate"⟩
  .done (checkpoint,
    { checkpointHash := checkpointHash
      candidateHash := Digest.manifest checkpoint.body.manifest
      baseETag := checkpoint.body.baseManifestETag
      manifest := checkpoint.body.manifest })

/-- The open head record a finalizer synthesizes to reuse the head encoder. -/
def finalizeBase (binding : Binding) (context : Context Hash) (checkpoint : Checkpoint Hash) :
    Record Hash Unit :=
  { state := .opened
    outcome := .none
    sequence := checkpoint.sequence
    created := checkpoint.created
    expires := checkpoint.expires
    sessionId := binding.sessionId
    scopeHash := binding.scopeHash
    predecessorHash := Digest.zero
    operationId := context.operationId
    body := () }

def Context.fence (context : Context Hash) : Condition ETag :=
  match context.predecessorETag with
  | some etag => .tagged etag
  | none => .absent

/-- Claims the session head for the new checkpoint, then publishes. Only the very record
counts as a reconciled claim. -/
def finalizeClaim (binding : Binding) (context : Context Hash) (history : Hash × List Hash)
    (checkpointHash : Hash) : Op Hash Unit := do
  let (checkpoint, candidate) ← finalizeCandidate binding context checkpointHash
  let _ ← sessionCandidatePut candidate.candidateHash candidate.manifest
  let encoded ← Prog.ofExcept
    (sessionEncodeHeadStateEx (finalizeBase binding context checkpoint) context.expectedHeadHash
      .publishing .none candidate.checkpointHash candidate.candidateHash candidate.baseETag
      history.1 history.2)
  let _ ← headAdvance binding context.fence (.ok encoded) (sameBytes (.ok encoded))
  sessionPublish binding context.operationId

def sessionFinalize [ManifestCodec] (sessionId : SessionId) (container : Container Hash) :
    Op Hash (ApiOut Hash Unit) :=
  (Prog.ofExcept (container.bound (container.acquire sessionId)
      "session finalization scope is not bound")).orKeep container fun (_, context) =>
  let binding : Binding := ⟨sessionId, context.scope⟩
  (sessionReadHead binding .other >>= fun current =>
      Prog.ofExcept (finalizeHead context current)).orKeep container fun plan =>
  match plan with
  | .publish => (sessionPublish binding context.operationId).orKeep container fun _ => .done (container, .ok ())
  | .succeed history =>
    (Prog.require (context.expectedSequence ≠ sequenceMax ∧ context.sequence ≠ sequenceMax)
        ⟨.tooBig, "session finalization sequence exhausted"⟩).orKeep container fun _ => do
    let (after, stored) ← sessionCheckpoint sessionId container
    (Prog.ofExcept stored).orKeep after fun encoded =>
    (finalizeClaim binding context history encoded.recordHash).orKeep after fun _ =>
    .done (after, .ok ())

def sessionUpload (sessionId : SessionId) (container : Container Hash) : Op Hash (ApiOut Hash Unit) :=
  (Prog.ofExcept (container.bound
      (container.ownedBy sessionId "session does not own container alias")
      "session publication scope is not bound")).orKeep container fun (_, context) =>
  (sessionPublish ⟨sessionId, context.scope⟩ context.operationId).orKeep container fun _ =>
  .done (container, .ok ())

def sessionAcceptHeadMatches (head : Head Hash) (candidate : Candidate Hash) (operationId : Hash)
    (sequence : Nat) (sessionId : SessionId) : Bool :=
  (head.state = .accepted ∨ head.state = .committed) ∧ head.outcome = .success ∧
    head.sequence = sequence ∧ head.sessionId = sessionId ∧ head.operationId = operationId ∧
    head.body.checkpointHash = candidate.checkpointHash ∧
    head.body.candidateManifestHash = candidate.candidateHash ∧
    head.body.baseManifestETag = candidate.baseETag

def expectedHeadIsCurrent (context : Context Hash) (current : Option (StoredHead Hash)) : Bool :=
  match current, context.predecessorETag with
  | none, none => true
  | some stored, some etag => stored.etag = etag ∧ stored.blob.recordHash = context.expectedHeadHash
  | _, _ => false

/-- The loop of `bcvfsSessionHistoryContainsDirect`. It walks to the end of the segment
chain even when the operation has been found. -/
def historyContainsDirect (binding : Binding) (operationId : Hash) (remaining : Nat)
    (seen : List Hash) (root : Hash) (present : Bool) : Op Hash Bool := do
  if root = Digest.zero then
    .done present
  else
    match remaining with
    | 0 => .fail ⟨.tooBig, "session history segment chain is too deep"⟩
    | remaining + 1 => do
        Prog.require (root ∉ seen) ⟨.corrupt, "session history segment chain contains a cycle"⟩
        match ← sessionFetchHistory binding.sessionId binding.scopeHash root with
        | none => .fail ⟨.corrupt, "session history root is missing"⟩
        | some stored => do
            let segment := stored.blob.record
            Prog.require (segment.state = .accepted ∧ segment.outcome = .success)
              ⟨.corrupt, "invalid session history segment"⟩
            Prog.require (segment.body.historyOperations ≠ [])
              ⟨.corrupt, "session history segment has no operations"⟩
            historyContainsDirect binding operationId remaining (root :: seen)
              segment.body.historyHeadHash
              (present || operationId ∈ segment.body.historyOperations)

def historyContainsOperation (binding : Binding) (body : HeadBody Hash) (operationId : Hash) :
    Op Hash Bool :=
  if operationId ∈ body.historyOperations then
    .done true
  else
    historyContainsDirect binding operationId rehydrateMaxChain [] body.historyHeadHash false

/-- The loop of `bcvfsSessionCheckpointChainMatches`: from the final checkpoint down to
the one captured at attach, all of the bound operation. -/
def checkpointChain (binding : Binding) (context : Context Hash) (remaining : Nat)
    (seen : List Hash) (upper : Nat) (hash : Hash) : Op Hash Unit := do
  if hash = context.expectedCheckpointHash then
    .done ()
  else do
    Prog.require (hash ≠ Digest.zero)
      ⟨.constraint, "session checkpoint chain does not reach its captured predecessor"⟩
    match remaining with
    | 0 => .fail ⟨.tooBig, "session checkpoint chain is too deep"⟩
    | remaining + 1 => do
        Prog.require (hash ∉ seen) ⟨.corrupt, "session checkpoint chain contains a cycle"⟩
        let stored ← found (← sessionFetchCheckpoint binding.sessionId binding.scopeHash hash)
        let checkpoint := stored.blob.record
        Prog.require
          (checkpoint.state = .opened ∧ checkpoint.outcome = .none ∧ checkpoint.sequence ≠ 0 ∧
            checkpoint.sequence < upper ∧ context.expectedSequence < checkpoint.sequence ∧
            checkpoint.operationId = context.operationId)
          ⟨.corrupt, "session checkpoint chain identity or sequence is invalid"⟩
        Prog.require
          (∀ base ∈ checkpoint.body.baseCheckpointHash,
            checkpoint.predecessorHash = base ∧ base = context.expectedCheckpointHash)
          ⟨.constraint, "compacted checkpoint does not match its captured predecessor"⟩
        checkpointChain binding context remaining (hash :: seen) checkpoint.sequence
          checkpoint.predecessorHash

def checkpointChainMatches (binding : Binding) (context : Context Hash) (latest : Checkpoint Hash)
    (latestHash : Hash) : Op Hash Unit := do
  Prog.require (latestHash ≠ context.expectedCheckpointHash)
    ⟨.corrupt, "session checkpoint chain points to itself"⟩
  Prog.require (context.expectedSequence < latest.sequence ∧ latest.operationId ≠ Digest.zero ∧
      latest.operationId = context.operationId)
    ⟨.constraint, "session checkpoint is not descended from its bound operation"⟩
  match latest.body.baseCheckpointHash with
  | some base =>
    Prog.require (latest.predecessorHash = base ∧ base = context.expectedCheckpointHash)
      ⟨.constraint, "compacted checkpoint does not match its captured predecessor"⟩
  | none =>
    checkpointChain binding context rehydrateMaxChain [] latest.sequence latest.predecessorHash

def verifyCheckpointBlocks [ManifestCodec] (base : Manifest) (database : String)
    (body : CheckpointBody Hash) : Op Hash Unit := do
  let man ← Prog.ofExcept (Manifest.parseCopy body.manifest body.baseManifestETag)
  Prog.require (man.szBlk = base.szBlk)
    ⟨.corrupt, "checkpoint manifest block size does not match the VFS"⟩
  Prog.ofExcept (base.sessionShapeValid man database body.fileSize)
  verifyMappings base man

def acceptCandidate (binding : Binding) (context : Context Hash) :
    Op Hash (Checkpoint Hash × Candidate Hash) := do
  let checkpointHash := context.predecessorHash
  Prog.require (checkpointHash ≠ Digest.zero)
    ⟨.constraint, "session acceptance has no checkpoint hash"⟩
  let stored ← found (← sessionFetchCheckpoint binding.sessionId binding.scopeHash checkpointHash)
  let checkpoint := stored.blob.record
  Prog.require (checkpoint.state = .opened ∧ checkpoint.outcome = .none ∧
      checkpoint.sequence = context.sequence ∧ context.expectedSequence < checkpoint.sequence ∧
      checkpoint.operationId = context.operationId)
    ⟨.constraint, "session checkpoint does not match its bound operation"⟩
  checkpointChainMatches binding context checkpoint checkpointHash
  let now ← currentTime ⟨.auth, "session checkpoint has expired"⟩
  Prog.require (isExpired checkpoint now = false) ⟨.auth, "session checkpoint has expired"⟩
  .done (checkpoint,
    { checkpointHash := checkpointHash
      candidateHash := Digest.manifest checkpoint.body.manifest
      baseETag := checkpoint.body.baseManifestETag
      manifest := checkpoint.body.manifest })

/-- The checks that keep the current head from being replaced. They return its operation
history. -/
def acceptPredecessor (binding : Binding) (context : Context Hash)
    (current : Option (StoredHead Hash)) : Op Hash (Hash × List Hash) := do
  match current with
  | none => do
      Prog.require (expectedHeadIsCurrent context current = true)
        ⟨.constraint, "session accepted-head predecessor changed"⟩
      .done (Digest.zero, [])
  | some stored => do
      let head := stored.blob.record
      Prog.require (head.state = .committed → head.operationId = context.operationId)
        ⟨.constraint, "committed session head cannot accept another operation"⟩
      Prog.require (head.state = .publishing → head.operationId = context.operationId)
        ⟨.constraint, "another session operation is awaiting reconciliation"⟩
      Prog.when (expectedHeadIsCurrent context current ∧
          head.operationId ≠ context.operationId) do
        let superseded ← historyContainsOperation binding head.body context.operationId
        Prog.require (superseded = false)
          ⟨.constraint, "session operation was already superseded by a later operation"⟩
      Prog.require (expectedHeadIsCurrent context current = true)
        ⟨.constraint, "session accepted-head predecessor changed"⟩
      .done (head.body.historyHeadHash, head.body.historyOperations)

def historyRecord (binding : Binding) (checkpoint : Checkpoint Hash) (operationId root : Hash)
    (operations : List Hash) : History Hash :=
  { state := .accepted
    outcome := .success
    sequence := checkpoint.sequence
    created := checkpoint.created
    expires := checkpoint.expires
    sessionId := binding.sessionId
    scopeHash := binding.scopeHash
    predecessorHash := root
    operationId := operationId
    body := ⟨root, operations⟩ }

/-- Appends the operation to the tail. At the watermark the whole tail becomes a segment,
stored before the head that names it. -/
def acceptHistory (binding : Binding) (checkpoint : Checkpoint Hash) (operationId : Hash)
    (history : Hash × List Hash) : Op Hash (Hash × List Hash) := do
  let operations := history.2 ++ [operationId]
  Prog.require (operations.length ≤ maxHistoryOperations)
    ⟨.tooBig, "session operation history tail is full"⟩
  if compactionThreshold ≤ operations.length then do
    let encoded ← Prog.ofExcept
      (recordEncode (historyRecord binding checkpoint operationId history.1 operations))
    let _ ← sessionPutHistory binding.sessionId binding.scopeHash encoded
    .done (encoded.recordHash, [])
  else
    .done (history.1, operations)

def acceptBase (binding : Binding) (context : Context Hash) (checkpoint : Checkpoint Hash) :
    Record Hash Unit :=
  { state := .accepted
    outcome := .success
    sequence := checkpoint.sequence
    created := checkpoint.created
    expires := checkpoint.expires
    sessionId := binding.sessionId
    scopeHash := binding.scopeHash
    predecessorHash := context.expectedHeadHash
    operationId := context.operationId
    body := () }

def acceptHead [ManifestCodec] (binding : Binding) (man : Manifest) (context : Context Hash)
    (current : Option (StoredHead Hash)) (checkpoint : Checkpoint Hash)
    (candidate : Candidate Hash) : Op Hash Unit := do
  let history ← acceptPredecessor binding context current
  let manifest ← sessionManifestFetch
  Prog.require (manifest.etag = candidate.baseETag)
    ⟨.constraint, "published manifest changed before session acceptance"⟩
  verifyCheckpointBlocks man context.scope.database checkpoint.body
  let (root, operations) ← acceptHistory binding checkpoint context.operationId history
  let encoded := sessionEncodeHeadStateEx (acceptBase binding context checkpoint) Digest.zero
    .accepted .success candidate.checkpointHash candidate.candidateHash candidate.baseETag root
    operations
  let _ ← headAdvance binding context.fence encoded fun fresh =>
    sessionAcceptHeadMatches fresh.record candidate context.operationId checkpoint.sequence
      binding.sessionId

/-- Whether the head already is the accepted candidate, as it is when the answer of an
earlier call was lost. -/
def acceptDuplicate (binding : Binding) (context : Context Hash)
    (current : Option (StoredHead Hash)) (checkpoint : Checkpoint Hash)
    (candidate : Candidate Hash) : Op Hash Bool :=
  match current with
  | none => .done false
  | some stored => do
      let now ← timestamp
      .done (!isExpired stored.blob.record now &&
        sessionAcceptHeadMatches stored.blob.record candidate context.operationId
          checkpoint.sequence binding.sessionId)

def acceptCheckpoint [ManifestCodec] (binding : Binding) (man : Manifest) (context : Context Hash) :
    Op Hash Unit := do
  let current ← sessionReadHead binding .other
  let (checkpoint, candidate) ← acceptCandidate binding context
  let duplicate ← acceptDuplicate binding context current checkpoint candidate
  if duplicate then .done () else acceptHead binding man context current checkpoint candidate

def sessionAccept [ManifestCodec] (sessionId : SessionId) (container : Container Hash) :
    Op Hash (ApiOut Hash Unit) :=
  (Prog.ofExcept (container.bound
      (container.ownedBy sessionId "session acceptance does not own container alias")
      "session acceptance scope is not bound")).orKeep container fun (man, context) =>
  (Prog.require (container.clients = 0)
      ⟨.busy, "session acceptance requires a quiescent container"⟩).orKeep container fun _ =>
  (Prog.require (context.overlay = true)
      ⟨.constraint, "session acceptance requires a final checkpoint"⟩).orKeep container fun _ =>
  (acceptCheckpoint ⟨sessionId, context.scope⟩ man context).orKeep container fun _ =>
  .done (container, .ok ())

end RusqDoltlite.Session

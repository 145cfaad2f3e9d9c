import RusqDoltlite.Session.System

/-! What each conditional write of the session code rests on, told from the requests the
writing call has made itself. Everything that is proved about interleavings is derived
from these facts: they do not mention the other clients. -/

namespace RusqDoltlite.Session

open Effects

variable {Hash : Type} [DecidableEq Hash] [Digest Hash]

def Candidate.Loaded (log : OpLog Hash) (sessionId : SessionId) (candidate : Candidate Hash)
    (checkpoint : Checkpoint Hash) : Prop :=
  (∃ version, Saw log (.checkpoint sessionId candidate.checkpointHash) version ∧
      version.blob.record = checkpoint) ∧
    candidate.manifest = checkpoint.body.manifest ∧
    candidate.candidateHash = Digest.manifest candidate.manifest ∧
    candidate.baseETag = checkpoint.body.baseManifestETag

def HeadBody.About (body : HeadBody Hash) (candidate : Candidate Hash) : Prop :=
  body.checkpointHash = candidate.checkpointHash ∧
    body.candidateManifestHash = candidate.candidateHash ∧
    body.baseManifestETag = candidate.baseETag

def Visible (log : OpLog Hash) (bytes : Bytes) : Prop :=
  ∃ version, Saw log (.manifest : Key Hash) version ∧ version.blob = bytes

def HeadBody.history (body : HeadBody Hash) : Hash × List Hash :=
  (body.historyHeadHash, body.historyOperations)

/-- The segment chain from `root` has been walked to its end without meeting the
operation. -/
inductive Unrecorded (log : OpLog Hash) (sessionId : SessionId) (operationId : Hash) : Hash → Prop
  | nil : Unrecorded log sessionId operationId Digest.zero
  | segment {root : Hash} {version : Version ETag (Encoded Hash (HistoryBody Hash))}
      (saw : Saw log (.history sessionId root) version)
      (absent : operationId ∉ version.blob.record.body.historyOperations)
      (rest : Unrecorded log sessionId operationId version.blob.record.body.historyHeadHash) :
      Unrecorded log sessionId operationId root

/-- The new history is the old one with the operation appended, in the tail or in a
segment stored for it. -/
def Appends (log : OpLog Hash) (sessionId : SessionId) (scopeHash operationId : Hash)
    (old new : Hash × List Hash) : Prop :=
  new = (old.1, old.2 ++ [operationId]) ∨
    (new.1 ≠ Digest.zero ∧ new.2 = []) ∧ ∃ version, Saw log (.history sessionId new.1) version ∧
      version.blob.record.scopeHash = scopeHash ∧
      version.blob.record.body = ⟨old.1, old.2 ++ [operationId]⟩

inductive Succeeds (log : OpLog Hash) (sessionId : SessionId) (head : Head Hash) :
    Condition ETag → Prop
  | first (history : head.body.history = (Digest.zero, [])) :
      Succeeds log sessionId head .absent
  | after {stored : StoredHead Hash} (saw : Saw log (.head sessionId) stored)
      (scope : stored.blob.record.scopeHash = head.scopeHash)
      (other : stored.blob.record.operationId ≠ head.operationId)
      (history : head.body.history = stored.blob.record.body.history) :
      Succeeds log sessionId head (.tagged stored.etag)

inductive Accepts (log : OpLog Hash) (sessionId : SessionId) (head : Head Hash) :
    Condition ETag → Prop
  | first (history : Appends log sessionId head.scopeHash head.operationId (Digest.zero, [])
        head.body.history) :
      Accepts log sessionId head .absent
  | after {stored : StoredHead Hash} (saw : Saw log (.head sessionId) stored)
      (scope : stored.blob.record.scopeHash = head.scopeHash)
      (same : stored.blob.record.state = .committed ∨ stored.blob.record.state = .publishing →
        stored.blob.record.operationId = head.operationId)
      (fresh : stored.blob.record.operationId ≠ head.operationId →
        head.operationId ∉ stored.blob.record.body.historyOperations ∧
          Unrecorded log sessionId head.operationId stored.blob.record.body.historyHeadHash)
      (history : Appends log sessionId head.scopeHash head.operationId
        stored.blob.record.body.history head.body.history) :
      Accepts log sessionId head (.tagged stored.etag)

/-- The four writers of the session head: the claim of finalize, accept, the promotion of
an accepted head by the publisher, and its final commit. The last takes operation,
sequence and history from the head it has just read and the rest from what it has
published. -/
inductive HeadWrite (log : OpLog Hash) (sessionId : SessionId) (head : Head Hash) :
    Condition ETag → Prop
  | claim {condition : Condition ETag} {candidate : Candidate Hash} {checkpoint : Checkpoint Hash}
      (state : head.state = .publishing) (loaded : candidate.Loaded log sessionId checkpoint)
      (about : head.body.About candidate) (operation : head.operationId = checkpoint.operationId)
      (sequence : head.sequence = checkpoint.sequence)
      (scope : head.scopeHash = checkpoint.scopeHash)
      (succeeds : Succeeds log sessionId head condition) :
      HeadWrite log sessionId head condition
  | accept {condition : Condition ETag} {candidate : Candidate Hash} {checkpoint : Checkpoint Hash}
      (state : head.state = .accepted) (loaded : candidate.Loaded log sessionId checkpoint)
      (about : head.body.About candidate) (operation : head.operationId = checkpoint.operationId)
      (sequence : head.sequence = checkpoint.sequence)
      (scope : head.scopeHash = checkpoint.scopeHash)
      (accepts : Accepts log sessionId head condition) :
      HeadWrite log sessionId head condition
  | promote {stored : StoredHead Hash} {candidate : Candidate Hash} {checkpoint : Checkpoint Hash}
      (state : head.state = .publishing) (saw : Saw log (.head sessionId) stored)
      (accepted : stored.blob.record.state = .accepted)
      (loaded : candidate.Loaded log sessionId checkpoint)
      (named : stored.blob.record.body.checkpointHash = candidate.checkpointHash)
      (about : head.body.About candidate)
      (operation : head.operationId = stored.blob.record.operationId)
      (sequence : head.sequence = stored.blob.record.sequence)
      (scope : head.scopeHash = stored.blob.record.scopeHash)
      (history : head.body.history = stored.blob.record.body.history) :
      HeadWrite log sessionId head (.tagged stored.etag)
  | commit {stored : StoredHead Hash} {candidate : Candidate Hash} {checkpoint : Checkpoint Hash}
      (state : head.state = .committed)
      (read : ⟨.get (.head sessionId) (.commitHead candidate.checkpointHash), .ok (some stored)⟩ ∈
        log)
      (pending : stored.blob.record.state = .publishing ∨ stored.blob.record.state = .accepted)
      (loaded : candidate.Loaded log sessionId checkpoint)
      (visible : Visible log candidate.manifest) (about : head.body.About candidate)
      (operation : head.operationId = stored.blob.record.operationId)
      (sequence : head.sequence = stored.blob.record.sequence)
      (scope : head.scopeHash = stored.blob.record.scopeHash)
      (history : head.body.history = stored.blob.record.body.history) :
      HeadWrite log sessionId head (.tagged stored.etag)

def Kept (log : OpLog Hash) (candidateHash : Hash) : Prop :=
  ∃ version, Saw log (.candidate candidateHash) version ∧
    Digest.manifest version.blob = candidateHash ∧ version.blob ≠ []

def Candidate.publicationBody (candidate : Candidate Hash) : PublicationBody Hash :=
  ⟨candidate.checkpointHash, candidate.candidateHash, candidate.baseETag⟩

def Named (log : OpLog Hash) (publication : Publication Hash) : Prop :=
  (∃ (candidate : Candidate Hash) (checkpoint : Checkpoint Hash),
    candidate.Loaded log publication.sessionId checkpoint ∧
      publication.body = candidate.publicationBody) ∨
  ∃ version : StoredPublication Hash, Saw log .publication version ∧
    version.blob.record.sessionId = publication.sessionId ∧
    version.blob.record.body = publication.body

/-- A publication head names a checkpoint. It is published only with its candidate stored,
and committed only when the candidate has been seen as the manifest. -/
def PublicationWrite (log : OpLog Hash) (publication : Publication Hash) : Prop :=
  Named log publication ∧ match publication.state with
  | .publishing => Kept log publication.body.candidateManifestHash
  | .committed => ∃ bytes, Visible log bytes ∧
      Digest.manifest bytes = publication.body.candidateManifestHash
  | _ => False

/-- A session replaces the manifest only under a publication head that names the bytes
and the base they replace. -/
def Fenced (log : OpLog Hash) (condition : Condition ETag) (bytes : Bytes) : Prop :=
  ∃ version : StoredPublication Hash, Saw log .publication version ∧
    version.blob.record.body.candidateManifestHash = Digest.manifest bytes ∧
    condition = .tagged version.blob.record.body.baseManifestETag

def Call.publishes : Call Hash → Bool
  | .sessionUpload _ => true
  | .finalize _ => true
  | _ => false

/-- Accept writes ACCEPTED heads for the operation it is bound to; no other call writes
one. -/
def Call.Heads (call : Call Hash) (start : Container Hash) (sessionId : SessionId)
    (head : Head Hash) : Prop :=
  match call with
  | .accept own => own = sessionId ∧ head.state = .accepted ∧
      ∃ context, start.context = some context ∧ head.operationId = context.operationId
  | _ => head.state ≠ .accepted

omit [DecidableEq Hash] [Digest Hash] in
theorem Call.heads_of_publishes {call : Call Hash} {start : Container Hash} {sessionId : SessionId}
    {head : Head Hash} (publishes : call.publishes = true) (other : head.state ≠ .accepted) :
    call.Heads start sessionId head := by
  cases call with
  | accept own => cases publishes
  | _ => exact other

/-- The calls that upload a manifest outside the session code: `sqlite3_bcvfs_upload` of a
container without a session, and the pragma when its database needs an upload. -/
def Call.plain (call : Call Hash) (start : Container Hash) : Prop :=
  match call with
  | .upload => start.sessionId = none
  | .pragmaUpload dbId inTransaction => inTransaction = false ∧
      ∃ man, start.man = some man ∧ man.uploadSet start.walFiles (some dbId) ≠ []
  | _ => False

def Permit (call : Call Hash) (start : Container Hash) (log : OpLog Hash) : Req Hash → Prop
  | .put .manifest condition bytes =>
    (call.publishes = true ∧ Fenced log condition bytes) ∨ call.plain start
  | .put (.candidate hash) condition bytes =>
    condition = .absent ∧ Digest.manifest bytes = hash
  | .put (.head sessionId) condition encoded =>
    HeadWrite log sessionId encoded.record condition ∧ encoded.record.sessionId = sessionId ∧
      call.Heads start sessionId encoded.record
  | .put (.checkpoint sessionId hash) condition encoded =>
    condition = .absent ∧ encoded.recordHash = hash ∧ encoded.record.sessionId = sessionId
  | .put (.history sessionId hash) condition encoded =>
    condition = .absent ∧ encoded.recordHash = hash ∧ encoded.record.sessionId = sessionId
  | .put .publication _ encoded =>
    PublicationWrite log encoded.record ∧ encoded.record.scopeHash = Digest.storageScope
  | .get _ _ => True
  | .ask _ => True

/-- What a publisher that returns has established: it read a head to publish, for the
bound operation, and its candidate has been the manifest. -/
def Published (log : OpLog Hash) (sessionId : SessionId) (operationId : Hash) : Prop :=
  ∃ (stored : StoredHead Hash) (candidate : Candidate Hash) (checkpoint : Checkpoint Hash),
    ⟨.get (.head sessionId) (.publishHead operationId), .ok (some stored)⟩ ∈ log ∧
    (stored.blob.record.state = .accepted ∨ stored.blob.record.state = .publishing ∨
      stored.blob.record.state = .committed) ∧
    stored.blob.record.body.checkpointHash = candidate.checkpointHash ∧
    candidate.Loaded log sessionId checkpoint ∧ Visible log candidate.manifest

def Established (call : Call Hash) (start : Container Hash) (result : ApiOut Hash Unit)
    (log : OpLog Hash) : Prop :=
  match call, result.2 with
  | .finalize sessionId, .ok () =>
    ∃ context, start.context = some context ∧ Published log sessionId context.operationId
  | _, _ => True

section
variable {log later : OpLog Hash} {sessionId : SessionId}

theorem Candidate.Loaded.grow {candidate : Candidate Hash} {checkpoint : Checkpoint Hash}
    (loaded : candidate.Loaded log sessionId checkpoint) (grown : log <:+ later) :
    candidate.Loaded later sessionId checkpoint := by
  obtain ⟨⟨version, saw, same⟩, rest⟩ := loaded
  exact ⟨⟨version, saw.grow grown, same⟩, rest⟩

theorem Visible.grow {bytes : Bytes} (visible : Visible log bytes) (grown : log <:+ later) :
    Visible later bytes := by
  obtain ⟨version, saw, same⟩ := visible
  exact ⟨version, saw.grow grown, same⟩

theorem Kept.grow {candidateHash : Hash} (kept : Kept log candidateHash) (grown : log <:+ later) :
    Kept later candidateHash := by
  obtain ⟨version, saw, rest⟩ := kept
  exact ⟨version, saw.grow grown, rest⟩

theorem Unrecorded.grow {operationId root : Hash}
    (unrecorded : Unrecorded log sessionId operationId root) (grown : log <:+ later) :
    Unrecorded later sessionId operationId root := by
  induction unrecorded with
  | nil => exact .nil
  | segment saw absent _ ih => exact .segment (saw.grow grown) absent ih

end

end RusqDoltlite.Session

import RusqDoltlite.Session.Head

/-! `bcvfsSessionPublish`, the only code that replaces `manifest.bcv` for a session:
claim the container's publication head for the candidate of the session head, install
the candidate under its base ETag, then commit both heads. -/

namespace RusqDoltlite.Session

open Effects

variable {Hash : Type} [DecidableEq Hash] [Digest Hash]

/-- How the publication head stands once the fence has been passed: it already
names this candidate as committed, or it is held for it under the given version. -/
inductive Fence (Hash : Type) [DecidableEq Hash] [Digest Hash] where
  | committed
  | held (publication : StoredPublication Hash)

def publishLoadHead (binding : Binding) (operationId : Hash) : Op Hash (StoredHead Hash) := do
  let stored ← found (← sessionReadHead binding (.publishHead operationId))
  let head := stored.blob.record
  Prog.require (head.state = .accepted ∨ head.state = .publishing ∨ head.state = .committed)
    ⟨.constraint, "session head is not publishable"⟩
  Prog.require (head.state = .accepted → head.outcome = .success)
    ⟨.constraint, "session head outcome is not successful"⟩
  Prog.require (head.state = .publishing → head.outcome = .none)
    ⟨.corrupt, "publishing session head has an outcome"⟩
  Prog.require (head.state = .committed → head.outcome = .success)
    ⟨.corrupt, "committed session head has no success outcome"⟩
  let now ← timestamp
  Prog.require (isExpired head now = false) ⟨.constraint, "session head has expired"⟩
  .done stored

def publishLoadCandidate (binding : Binding) (head : Head Hash) :
    Op Hash (Candidate Hash) := do
  let stored ← found
    (← sessionFetchCheckpoint binding.sessionId binding.scopeHash head.body.checkpointHash)
  let checkpoint := stored.blob.record
  Prog.require (checkpoint.state = .opened ∧ checkpoint.outcome = .none)
    ⟨.corrupt, "accepted head does not reference an open checkpoint"⟩
  Prog.require (checkpoint.body.baseManifestETag = head.body.baseManifestETag)
    ⟨.constraint, "checkpoint base manifest does not match accepted head"⟩
  Prog.require (checkpoint.body.manifest ≠ []) ⟨.corrupt, "checkpoint has no candidate manifest"⟩
  let candidateHash := Digest.manifest checkpoint.body.manifest
  Prog.require (head.state = .publishing ∨ head.state = .committed →
      head.body.candidateManifestHash = candidateHash)
    ⟨.constraint, "session head candidate hash does not match its checkpoint"⟩
  .done
    { checkpointHash := head.body.checkpointHash
      candidateHash := candidateHash
      baseETag := head.body.baseManifestETag
      manifest := checkpoint.body.manifest }

/-- Moves an accepted head to publishing. The head the publisher works with from here
on is the one it read first, or the one found by reconciliation. -/
def publishPromoteHead (binding : Binding) (stored : StoredHead Hash)
    (candidate : Candidate Hash) : Op Hash (StoredHead Hash) := do
  if stored.blob.record.state = .accepted then
    let encoded := sessionEncodeHeadState stored.blob .publishing .none candidate
    let reconciled ← headAdvance binding (.tagged stored.etag) encoded fun fresh =>
      sameBytes encoded fresh || sessionHeadMatches fresh.record .committed .success candidate
    .done (reconciled.getD stored)
  else
    .done stored

/-- A conditional PUT of `manifest.bcv`, taken for a success when the object turns out
to hold the same bytes. -/
def manifestInstall (baseETag : ETag) (bytes : Bytes) : Op Hash Unit := do
  match ← (sessionManifestPut baseETag bytes).attempt with
  | .ok _ => .done ()
  | .error failure =>
    match ← sessionManifestFetch.attempt with
    | .ok fresh => if fresh.blob = bytes then .done () else .fail failure
    | .error _ => .fail failure

/-- Writes the encoded claim. A publication head that turns out to be committed for the
candidate serves as well. -/
def publicationTake (binding : Binding) (candidate : Candidate Hash) (condition : Condition ETag)
    (encoded : Except Err (Encoded Hash (PublicationBody Hash))) : Op Hash (Fence Hash) := do
  let stored ← publicationAdvance condition encoded fun fresh =>
    sameBytes encoded fresh || sessionPublicationMatches fresh.record .committed binding.sessionId
      candidate.checkpointHash candidate.candidateHash candidate.baseETag
  if stored.blob.record.state = .committed then .done .committed else .done (.held stored)

def publicationClaim (binding : Binding) (head : StoredHead Hash)
    (candidate : Candidate Hash) (base : PublicationBase Hash) (condition : Condition ETag) :
    Op Hash (Fence Hash) := do
  let encoded ← (sessionEncodePublicationState base binding.sessionId
    candidate.checkpointHash candidate.candidateHash candidate.baseETag
    head.blob.record.operationId .publishing .none).attempt
  publicationTake binding candidate condition encoded

/-- Replaces a committed publication head, provided that the live manifest is still
the one the candidate was made from. -/
def publicationSupersede (binding : Binding) (head : StoredHead Hash)
    (candidate : Candidate Hash) (publication : StoredPublication Hash) : Op Hash (Fence Hash) := do
  let manifest ← sessionManifestFetch
  Prog.require (manifest.etag = candidate.baseETag)
    ⟨.constraint, "manifest changed since the session checkpoint"⟩
  publicationClaim binding head candidate (.publication publication.blob) (.tagged publication.etag)

/-- Installs the pending candidate of another publisher from its immutable copy, and
encodes the committed publication record for it. -/
def recoverCandidate (publication : Encoded Hash (PublicationBody Hash)) :
    Op Hash (Encoded Hash (PublicationBody Hash)) := do
  let pending := publication.record
  let candidate ← foundOr ⟨.constraint, "publication candidate object is not yet visible"⟩
    (← sessionCandidateFetch pending.body.candidateManifestHash)
  Prog.require (candidate.blob ≠ []) ⟨.corrupt, "publication candidate object is empty"⟩
  Prog.require (Digest.manifest candidate.blob = pending.body.candidateManifestHash)
    ⟨.corrupt, "publication candidate object hash does not match its head"⟩
  let manifest ← sessionManifestFetch
  Prog.when (manifest.blob ≠ candidate.blob) do
    Prog.require (manifest.etag = pending.body.baseManifestETag)
      ⟨.constraint, "manifest changed before pending candidate recovery"⟩
    manifestInstall pending.body.baseManifestETag candidate.blob
  sessionEncodePublicationState (.publication publication) pending.sessionId
    pending.body.checkpointHash pending.body.candidateManifestHash pending.body.baseManifestETag
    pending.operationId .committed .success

/-- Resolves a pending publication head. Any failure on the way is forgiven when the
head turns out to be committed for the same candidate. -/
def publicationRecover (publication : StoredPublication Hash) :
    Op Hash (StoredPublication Hash) := do
  let pending := publication.blob.record
  let encoded ← (recoverCandidate publication.blob).attempt
  let stored ← publicationAdvance (.tagged publication.etag) encoded
    fun fresh => sameBytes encoded fresh ||
      sessionPublicationMatches fresh.record .committed pending.sessionId
        pending.body.checkpointHash pending.body.candidateManifestHash
        pending.body.baseManifestETag
  -- the publisher goes on with its own record, under the ETag it has seen
  match encoded with
  | .ok own => .done ⟨stored.etag, own⟩
  | .error _ => .done stored

def publicationCommitted (binding : Binding) (head : StoredHead Hash)
    (candidate : Candidate Hash) (publication : StoredPublication Hash) : Op Hash (Fence Hash) :=
  if sessionPublicationMatches publication.blob.record .committed binding.sessionId
      candidate.checkpointHash candidate.candidateHash candidate.baseETag then
    .done .committed
  else
    publicationSupersede binding head candidate publication

def publicationLive (binding : Binding) (candidate : Candidate Hash)
    (publication : Publication Hash) : Op Hash Bool :=
  if sessionPublicationMatches publication .publishing binding.sessionId candidate.checkpointHash
      candidate.candidateHash candidate.baseETag then do
    let now ← timestamp
    .done (!isExpired publication now)
  else
    .done false

/-- Passes the publication fence: the code from the label `publication_head_fetch` on.
The jump back to it is taken only with a committed head, so at most once. -/
def publicationFence (binding : Binding) (head : StoredHead Hash)
    (candidate : Candidate Hash) : Op Hash (Fence Hash) := do
  match ← sessionFetchPublication with
  | none => publicationClaim binding head candidate (.head head.blob) .absent
  | some publication =>
    match publication.blob.record.state with
    | .committed => publicationCommitted binding head candidate publication
    | .publishing =>
      let live ← publicationLive binding candidate publication.blob.record
      if live then
        .done (.held publication)
      else
        -- expiry is not a lease that permits takeover of a pending fence
        publicationCommitted binding head candidate (← publicationRecover publication)
    | _ => .fail ⟨.constraint, "publication head has an unresolved different candidate"⟩

def publishManifest (candidate : Candidate Hash) : Op Hash Unit := do
  let manifest ← sessionManifestFetch
  Prog.when (manifest.blob ≠ candidate.manifest) do
    Prog.require (manifest.etag = candidate.baseETag)
      ⟨.constraint, "manifest changed before fenced publication"⟩
    manifestInstall candidate.baseETag candidate.manifest
    -- an ETag alone is never treated as proof of publication
    let confirmed ← sessionManifestFetch
    Prog.require (confirmed.blob = candidate.manifest)
      ⟨.constraint, "manifest PUT did not produce the exact fenced candidate"⟩

def publicationCommit (binding : Binding) (candidate : Candidate Hash)
    (publication : StoredPublication Hash) : Op Hash Unit := do
  let encoded ← (sessionEncodePublicationState (.publication publication.blob) binding.sessionId
    candidate.checkpointHash candidate.candidateHash candidate.baseETag
    publication.blob.record.operationId .committed .success).attempt
  let _ ← publicationAdvance (.tagged publication.etag) encoded fun fresh =>
    sameBytes encoded fresh || sessionPublicationMatches fresh.record .committed binding.sessionId
      candidate.checkpointHash candidate.candidateHash candidate.baseETag

/-- What is done behind the fence: a held one is used to publish the candidate and is
committed; one already committed must name the visible manifest. -/
def publishFenced (binding : Binding) (candidate : Candidate Hash) (fence : Fence Hash) :
    Op Hash Unit :=
  match fence with
  | .committed => do
      let manifest ← sessionManifestFetch
      Prog.require (manifest.blob = candidate.manifest)
        ⟨.constraint, "committed publication head does not name the visible manifest"⟩
  | .held publication => do
      publishManifest candidate
      publicationCommit binding candidate publication

/-- Marks the session head committed for the published candidate. The head is read
afresh: its operation and sequence are those found now. -/
def publishCommitHead (binding : Binding) (candidate : Candidate Hash) : Op Hash Unit := do
  let stored ← found (← sessionReadHead binding (.commitHead candidate.checkpointHash))
  let head := stored.blob.record
  if head.state = .committed then
    Prog.require (sessionHeadMatches head .committed .success candidate = true)
      ⟨.constraint, "session head was committed to another candidate"⟩
  else if head.state = .publishing ∨ (head.state = .accepted ∧ head.outcome = .success) then
    let encoded := sessionEncodeHeadState stored.blob .committed .success candidate
    let _ ← headAdvance binding (.tagged stored.etag) encoded fun fresh =>
      sameBytes encoded fresh || sessionHeadMatches fresh.record .committed .success candidate
  else
    Prog.fail ⟨.constraint, "session head is not finalizable"⟩

/-- `bcvfsSessionPublish`. It publishes whatever head it finds; the operation the
attachment is bound to only marks the read. -/
def sessionPublish (binding : Binding) (operationId : Hash) : Op Hash Unit := do
  let stored ← publishLoadHead binding operationId
  let candidate ← publishLoadCandidate binding stored.blob.record
  let _ ← sessionCandidatePut candidate.candidateHash candidate.manifest
  let head ← publishPromoteHead binding stored candidate
  let fence ← publicationFence binding head candidate
  publishFenced binding candidate fence
  publishCommitHead binding candidate

end RusqDoltlite.Session

import RusqDoltlite.Session.Storage

/-! Encoding, comparing and advancing the two mutable records, the session head and the publication
head, and the local state of one attached container. A container is a mutable cache: what it knows
about the session is the context captured at its last scoped attach and the checkpoints it has
written since. -/

namespace RusqDoltlite.Session

open Effects

variable {Hash : Type} [DecidableEq Hash] [Digest Hash]

structure Binding where
  sessionId : SessionId
  scope : Scope
deriving DecidableEq, Repr

def Binding.scopeHash (binding : Binding) : Hash := Digest.scope binding.scope

abbrev StoredHead (Hash : Type) [DecidableEq Hash] [Digest Hash] :=
  Version ETag (Encoded Hash (HeadBody Hash))

abbrev StoredPublication (Hash : Type) [DecidableEq Hash] [Digest Hash] :=
  Version ETag (Encoded Hash (PublicationBody Hash))

/-- What a publication is about: the checkpoint, its manifest with the hash of its
bytes, and the base manifest it was made from. -/
structure Candidate (Hash : Type) where
  checkpointHash : Hash
  candidateHash : Hash
  baseETag : ETag
  manifest : Bytes
deriving DecidableEq, Repr

def sessionReadHead (binding : Binding) (site : Site Hash) : Op Hash (Option (StoredHead Hash)) :=
  sessionFetchHead binding.sessionId binding.scopeHash site

/-- `bcvfsSessionEncodeHeadStateEx`. The record keeps the header fields of `old`;
only a change of state or outcome links it to the old record. -/
def sessionEncodeHeadStateEx (old : Record Hash Unit) (oldHash : Hash) (state : RecordState)
    (outcome : Outcome) (checkpointHash candidateHash : Hash) (baseETag : ETag)
    (historyHeadHash : Hash) (historyOperations : List Hash) :
    Except Err (Encoded Hash (HeadBody Hash)) := do
  let body : HeadBody Hash :=
    ⟨checkpointHash, candidateHash, historyHeadHash, historyOperations, baseETag⟩
  check (historyOperations.length ≤ maxHistoryOperations) .misuse
    "session head body arguments are required"
  check (SessionBody.bytes body ≤ bodyMaxBytes) .tooBig "session head body is too large"
  recordEncode
    { old with
      state := state
      outcome := outcome
      predecessorHash :=
        if old.state ≠ state ∨ old.outcome ≠ outcome then oldHash else old.predecessorHash
      body := body }

def Record.header {Body : Type} (record : Record Hash Body) : Record Hash Unit :=
  { record with body := () }

def sessionEncodeHeadState (old : Encoded Hash (HeadBody Hash)) (state : RecordState)
    (outcome : Outcome) (candidate : Candidate Hash) : Except Err (Encoded Hash (HeadBody Hash)) :=
  sessionEncodeHeadStateEx old.record.header old.recordHash state outcome candidate.checkpointHash
    candidate.candidateHash candidate.baseETag old.record.body.historyHeadHash
    old.record.body.historyOperations

def sessionHeadMatches (head : Head Hash) (state : RecordState) (outcome : Outcome)
    (candidate : Candidate Hash) : Bool :=
  head.state = state ∧ head.outcome = outcome ∧
    head.body.checkpointHash = candidate.checkpointHash ∧
    head.body.candidateManifestHash = candidate.candidateHash ∧
    head.body.baseManifestETag = candidate.baseETag

inductive PublicationBase (Hash : Type) [DecidableEq Hash] [Digest Hash] where
  | head (record : Encoded Hash (HeadBody Hash))
  | publication (record : Encoded Hash (PublicationBody Hash))

def sessionPublicationMatches (publication : Publication Hash) (state : RecordState)
    (sessionId : SessionId) (checkpointHash candidateHash : Hash) (baseETag : ETag) : Bool :=
  publication.state = state ∧ publication.sessionId = sessionId ∧
    publication.body.checkpointHash = checkpointHash ∧
    publication.body.candidateManifestHash = candidateHash ∧
    publication.body.baseManifestETag = baseETag

/-- The lifetime of the record that follows `old`: renewed unless `old` already names the
same candidate. -/
def publicationLifetime (old : Publication Hash) (sessionId : SessionId)
    (body : PublicationBody Hash) : Op Hash (Nat × Nat) :=
  if old.sessionId = sessionId ∧ old.body = body then
    .done (old.created, old.expires)
  else do
    let now ← timestamp
    .done (now, now + ttlMilliseconds)

def sessionEncodePublicationState (base : PublicationBase Hash) (sessionId : SessionId)
    (checkpointHash candidateHash : Hash) (baseETag : ETag) (operationId : Hash)
    (state : RecordState) (outcome : Outcome) : Op Hash (Encoded Hash (PublicationBody Hash)) := do
  let body : PublicationBody Hash := ⟨checkpointHash, candidateHash, baseETag⟩
  match base with
  | .head old => do
      let now ← timestamp
      Prog.ofExcept (recordEncode
        { state := state, outcome := outcome, sequence := old.record.sequence, created := now,
          expires := now + ttlMilliseconds, sessionId := sessionId, scopeHash := Digest.storageScope,
          predecessorHash := old.recordHash, operationId := operationId, body := body })
  | .publication old => do
      Prog.require (old.record.sequence ≠ sequenceMax) ⟨.tooBig, "publication sequence exhausted"⟩
      let (created, expires) ← publicationLifetime old.record sessionId body
      Prog.ofExcept (recordEncode
        { state := state, outcome := outcome, sequence := old.record.sequence + 1,
          created := created, expires := expires, sessionId := sessionId,
          scopeHash := Digest.storageScope, predecessorHash := old.recordHash,
          operationId := operationId, body := body })

def sameBytes {Body : Type} [SessionBody Hash Body] [DecidableEq Body]
    (encoded : Except Err (Encoded Hash Body)) (fresh : Encoded Hash Body) : Bool :=
  match encoded with
  | .ok own => own = fresh
  | .error _ => false

/-- A conditional PUT of the session head. When it fails, or the record could not be
encoded, the head is read again and taken for a success if `reconciles` accepts it;
that head is then returned. -/
def headAdvance (binding : Binding) (condition : Condition ETag)
    (encoded : Except Err (Encoded Hash (HeadBody Hash)))
    (reconciles : Encoded Hash (HeadBody Hash) → Bool) : Op Hash (Option (StoredHead Hash)) := do
  let put := sessionPutHead binding.sessionId binding.scopeHash condition
  match ← (Prog.ofExcept encoded >>= put).attempt with
  | .ok _ => .done none
  | .error failure =>
    match ← (sessionReadHead binding .other).attempt with
    | .ok (some fresh) => if reconciles fresh.blob then .done (some fresh) else .fail failure
    | _ => .fail failure

/-- The same for the publication head. It returns the version that is now known to
have been stored: the one written, or the one found by reconciliation. -/
def publicationAdvance (condition : Condition ETag)
    (encoded : Except Err (Encoded Hash (PublicationBody Hash)))
    (reconciles : Encoded Hash (PublicationBody Hash) → Bool) :
    Op Hash (StoredPublication Hash) := do
  let put (record : Encoded Hash (PublicationBody Hash)) : Op Hash (StoredPublication Hash) := do
    .done ⟨← sessionPutPublication condition record, record⟩
  match ← (Prog.ofExcept encoded >>= put).attempt with
  | .ok stored => .done stored
  | .error failure =>
    match ← sessionFetchPublication.attempt with
    | .ok (some fresh) => if reconciles fresh.blob then .done fresh else .fail failure
    | _ => .fail failure

/-- The bound context of a session attachment. The `expected` fields are the head
found by attach; `predecessorHash` and `sequence` follow the local checkpoints. -/
structure Context (Hash : Type) where
  scope : Scope
  operationId : Hash
  predecessorHash : Hash
  sequence : Nat
  expectedCheckpointHash : Hash
  expectedHeadHash : Hash
  expectedSequence : Nat
  predecessorETag : Option ETag
  writeFileSize : Option Nat
  overlay : Bool
deriving DecidableEq, Repr

/-- One alias of the VFS. No manifest means that nothing is attached under it; no
session means an ordinary container. `owned` is `nSessionRef > 0`, `clients` counts the
open database handles, and `walFiles` lists the databases that have a WAL file. -/
structure Container (Hash : Type) where
  name : String
  man : Option Manifest
  sessionId : Option SessionId
  owned : Bool
  clients : Nat
  walFiles : List String
  context : Option (Context Hash)
deriving DecidableEq, Repr

abbrev ApiOut (Hash α : Type) := Container Hash × Except Err α

variable {Hash : Type}

def Container.free (name : String) : Container Hash :=
  ⟨name, none, none, false, 0, [], none⟩

def Container.acquire (container : Container Hash) (sessionId : SessionId) :
    Except Err Manifest :=
  match container.man with
  | none => .error ⟨.error, "no such container: " ++ container.name⟩
  | some man => do
      check (container.sessionId.isSome = true) .auth
        ("container is not session-bound: " ++ container.name)
      check (container.owned = true) .auth
        ("session attachment has no live owner: " ++ container.name)
      check (container.sessionId = some sessionId) .auth
        ("session does not own container alias: " ++ container.name)
      .ok man

def Container.ownedBy (container : Container Hash) (sessionId : SessionId) (notOwner : String) :
    Except Err Manifest :=
  match container.man with
  | none => .error ⟨.error, "no such container: " ++ container.name⟩
  | some man => do
      check (container.sessionId = some sessionId ∧ container.owned = true) .auth notOwner
      .ok man

def Container.bound (container : Container Hash) (man : Except Err Manifest) (unbound : String) :
    Except Err (Manifest × Context Hash) := do
  let man ← man
  match container.context with
  | none => .error ⟨.auth, unbound⟩
  | some context => .ok (man, context)

def Container.setContext (container : Container Hash) (context : Context Hash) : Container Hash :=
  { container with context := some context }

def Container.setDbs (container : Container Hash) (man : Manifest) (dbs : List ManifestDb) :
    Container Hash :=
  { container with man := some { man with dbs := dbs } }

theorem Container.bound_eq_ok {container : Container Hash} {found : Except Err Manifest}
    {unbound : String} {man : Manifest} {context : Context Hash}
    (success : container.bound found unbound = .ok (man, context)) :
    found = .ok man ∧ container.context = some context := by
  unfold bound at success
  cases found with
  | error error => cases success
  | ok value =>
    cases bound : container.context with
    | none => simp [bound, bind, Except.bind] at success
    | some value => simpa [bound, bind, Except.bind] using success

end RusqDoltlite.Session

import RusqDoltlite.Codec.ObjectName
import RusqDoltlite.Codec.RoundTrip
import RusqDoltlite.Codec.Scope

/-! The second decoder of session records, `bcvSessionGcRecordDecode` of the collector, against the
checks of `sqlite3_bcvfs_session_put`. -/

namespace RusqDoltlite.Codec

open Wire Session

/-- The type codes of the collector's objects. They are not the codes of the record types. -/
def gcKindCode : GcKind → Nat
  | .checkpoint => 1
  | .head => 2
  | .publication => 3
  | .candidate => 4
  | .attempt => 5
  | .history => 6

structure GcRecord where
  type : RecordType
  state : RecordState
  outcome : Outcome
  sequence : Nat
  created : Nat
  expires : Nat
  sessionId : Bytes
  uuid : Uuid
  scope : Hash
  predecessor : Hash
  recordHash : Hash
  body : Bytes
deriving DecidableEq

def gcOutcomeInvalid (type : RecordType) (state : RecordState) (outcome : Outcome) : Prop :=
  (type = .checkpoint ∧ (state ≠ .opened ∨ outcome ≠ .none)) ∨
    (state = .committed ∧ outcome ≠ .success) ∨
    (state = .aborted ∧ outcome ≠ .failure ∧ outcome ≠ .conflict) ∨
    (state = .expired ∧ outcome ≠ .failure) ∨
    (type = .history ∧ (state ≠ .accepted ∨ outcome ≠ .success)) ∨
    (type ≠ .history ∧ state = .accepted ∧
      (type ≠ .head ∨ (outcome ≠ .none ∧ outcome ≠ .success))) ∨
    (type ≠ .history ∧ (state = .opened ∨ state = .publishing) ∧ outcome ≠ .none)

instance (type : RecordType) (state : RecordState) (outcome : Outcome) :
    Decidable (gcOutcomeInvalid type state outcome) := inferInstanceAs (Decidable (_ ∨ _))

theorem gcOutcomeInvalid_iff (type : RecordType) (state : RecordState) (outcome : Outcome) :
    gcOutcomeInvalid type state outcome ↔ validTypeState type state outcome = false := by
  cases type <;> cases state <;> cases outcome <;> decide

/-- The records whose operation id the collector requires: publications too. -/
def gcRequiresOperationId (type : RecordType) (state : RecordState) : Bool :=
  type == .checkpoint ||
    (type == .head && (state == .accepted || state == .publishing || state == .committed)) ||
    type == .publication || type == .history

def gcCheckpointBody (key : GcKey) (predecessor hash : Hash) (body : Bytes) : Except Err Unit := do
  check (24 ≤ body.length ∧
      (slice body 0 8 = checkpointBodyMagic ∨ slice body 0 8 = compactedCheckpointBodyMagic))
    .corrupt "invalid checkpoint body"
  let compacted := slice body 0 8 == compactedCheckpointBodyMagic
  let nManifest := getBe (slice body 16 4)
  let nEtag := getBe (slice body 20 4)
  check (nEtag ≠ 0 ∧ nEtag ≤ 4096 ∧ nManifest ≠ 0 ∧ nEtag ≤ body.length - 24 ∧
      nManifest + nEtag + 24 ≤ body.length ∧
      body.length = nManifest + nEtag + 24 + if compacted then 32 else 0)
    .corrupt "invalid checkpoint body lengths"
  check (compacted = true → slice body (24 + nEtag + nManifest) 32 = predecessor.1)
    .corrupt "compacted checkpoint predecessor mismatch"
  check ((slice body 24 nEtag).all printable = true) .corrupt "invalid checkpoint ETag"
  check (key.kind = .checkpoint → hash.1 = key.objectId) .corrupt
    "checkpoint hash does not match its key"

def gcHeadBody (state : RecordState) (body : Bytes) : Except Err Unit := do
  check (116 ≤ body.length ∧ slice body 0 8 = headBodyMagic) .corrupt "invalid session head body"
  let nHistory := getBe (slice body 108 4)
  let nEtag := getBe (slice body 112 4)
  check (nHistory ≤ 1024 ∧ getBe (slice body 8 4) = 0 ∧ nEtag ≠ 0 ∧ nEtag ≤ 4096 ∧
      116 + nHistory * 32 + nEtag = body.length)
    .corrupt "invalid version 2 session head body length"
  check ((slice body (116 + nHistory * 32) nEtag).all printable = true) .corrupt
    "invalid session head ETag"
  check (∀ operation ∈ readOperations body 116 nHistory, allZero operation.1 = false)
    .corrupt "session head has an empty history operation"
  check (state ≠ .opened → allZero (slice body 12 32) = false) .corrupt
    "non-open session head has no checkpoint"
  check (state = .publishing ∨ state = .committed → allZero (slice body 44 32) = false) .corrupt
    "publishing session head has no candidate"

def gcHistoryBody (key : GcKey) (hash : Hash) (body : Bytes) : Except Err Unit := do
  check (48 ≤ body.length ∧ slice body 0 8 = historyBodyMagic) .corrupt "invalid session history body"
  let nHistory := getBe (slice body 40 4)
  check (nHistory ≠ 0 ∧ nHistory ≤ 1024 ∧ getBe (slice body 44 4) = 0 ∧
      48 + nHistory * 32 = body.length) .corrupt "invalid session history body length"
  check (∀ operation ∈ readOperations body 48 nHistory, allZero operation.1 = false)
    .corrupt "invalid session history operation"
  check (key.kind = .history ∧ hash.1 = key.objectId) .auth "history key does not match record hash"

def gcPublicationBody (key : GcKey) (uuid : Uuid) (scope : Hash) (body : Bytes) : Except Err Unit := do
  check (92 ≤ body.length ∧ slice body 0 8 = publicationBodyMagic ∧
      allZero (slice body 8 16) = false ∧ allZero (slice body 24 32) = false ∧
      allZero (slice body 56 32) = false) .corrupt "invalid publication body"
  let nEtag := getBe (slice body 88 4)
  check (nEtag ≠ 0 ∧ nEtag ≤ 4096 ∧ body.length = 92 + nEtag) .corrupt
    "invalid publication body length"
  check ((slice body 92 nEtag).all printable = true) .corrupt "invalid publication ETag"
  check (slice body 8 16 = uuid.1) .corrupt "publication session UUID mismatch"
  check (key.kind = .publication → scope.1 = key.objectId) .auth
    "publication key does not match its scope"

def gcBody (key : GcKey) (record : GcRecord) : Except Err Unit :=
  match record.type with
  | .checkpoint => gcCheckpointBody key record.predecessor record.recordHash record.body
  | .head => gcHeadBody record.state record.body
  | .history => gcHistoryBody key record.recordHash record.body
  | .publication => gcPublicationBody key record.uuid record.scope record.body

def gcLifecycle (data : Bytes) (key : GcKey) (hash : Hash) (type : RecordType) (state : RecordState)
    (nBody : Nat) : Except Err GcRecord := do
  let created := getBe (slice data 32 8)
  let expires := getBe (slice data 40 8)
  match outcomeOfCode (getBe (slice data 12 1)) with
  | none => .error ⟨.corrupt, "invalid session record lifecycle"⟩
  | some outcome => do
      check (getBe (slice data 24 8) ≠ 0 ∧ expires - created ≤ ttlMilliseconds) .corrupt
        "invalid session record lifecycle"
      check (¬ gcOutcomeInvalid type state outcome) .corrupt "invalid session record outcome"
      check (gcRequiresOperationId type state = true → allZero (slice data 128 32) = false) .corrupt
        "session operation ID is empty"
      let record : GcRecord :=
        { type := type
          state := state
          outcome := outcome
          sequence := getBe (slice data 24 8)
          created := created
          expires := expires
          sessionId := uuidEncode (Fixed.read 16 data 48)
          uuid := Fixed.read 16 data 48
          scope := Fixed.read 32 data 64
          predecessor := Fixed.read 32 data 96
          recordHash := hash
          body := slice data headerBytes nBody }
      gcBody key record
      .ok record

variable {body : Bytes} {key : GcKey} {hash : Hash} {fields : BodyFields} {uuid : Uuid} {record : SessionRecord}

section
variable [RecordDigest]

def gcRecordDecode (data : Bytes) (key : GcKey) : Except Err GcRecord := do
  check (headerBytes + trailerBytes ≤ data.length ∧ data.length ≤ recordMaxBytes) .corrupt
    "invalid session record size"
  check (slice data 0 8 = recordMagic ∧ getBe (slice data 8 2) = recordVersion ∧
      getBe (slice data 13 1) = 0 ∧ getBe (slice data 14 2) = 0) .corrupt
    "invalid session record header"
  let nBody := getBe (slice data 160 4)
  check (getBe (slice data 16 4) = headerBytes ∧ getBe (slice data 20 4) = data.length ∧
      getBe (slice data 164 4) = 0 ∧ nBody ≤ data.length - headerBytes - trailerBytes ∧
      getBe (slice data 20 4) = headerBytes + nBody + trailerBytes) .corrupt
    "invalid session record lengths"
  let hash := RecordDigest.sha256 (slice data 0 (data.length - trailerBytes))
  check (hash.1 = slice data (data.length - trailerBytes) hashBytes) .corrupt
    "session record hash mismatch"
  check (allZero (slice data 48 16) = false) .corrupt "session record UUID is empty"
  check (allZero (slice data 64 32) = false) .corrupt "session record scope is empty"
  check (key.kind = .checkpoint ∨ key.kind = .head ∨ key.kind = .history →
      slice data 48 16 = key.uuid.1) .auth "session head UUID does not match its key"
  check (getBe (slice data 32 8) < 2 ^ 63 ∧ getBe (slice data 40 8) < 2 ^ 63 ∧
      getBe (slice data 32 8) < getBe (slice data 40 8)) .corrupt
    "invalid session record expiration"
  match typeOfCode (getBe (slice data 10 1)), stateOfCode (getBe (slice data 11 1)) with
  | some type, some state => do
      check (if key.kind = .history then type = .history else typeCode type = gcKindCode key.kind)
        .corrupt "session record type or state mismatch"
      gcLifecycle data key hash type state nBody
  | _, _ => .error ⟨.corrupt, "session record type or state mismatch"⟩

def conditionValid (condition : Bytes) : Except Err Unit := do
  check (condition ≠ []) .misuse "session record PUT requires an ETag condition"
  check (condition.length ≤ maxEtagBytes) .tooBig "session ETag condition is too long"
  check (condition.all printable = true) .misuse "session ETag condition contains a control byte"

/-- A call of `sqlite3_bcvfs_session_put`. Whether the container can be had for the session, and
whether it is bound to another context, is left to `acquire`. -/
structure PutRequest where
  type : RecordType
  sessionId : Option Bytes
  objectId : Option Hash
  scope : ScopeArguments
  condition : Bytes
  data : Bytes
  acquire : Except Err Unit

/-- `bcvSessionBoundScope`: publications are fenced by the storage location alone. -/
def boundScope (type : RecordType) (arguments : ScopeArguments) : Except Err Hash := do
  let full ← scopeHash RecordDigest.sha256 arguments
  if type = .publication then storageScopeHash RecordDigest.sha256 arguments else .ok full

structure Storable where
  name : Bytes
  record : SessionRecord
  hash : Hash
deriving DecidableEq

def sessionPut (request : PutRequest) : Except Err Storable := do
  check (request.type ≠ .publication → request.sessionId.isSome = true) .misuse
    "session PUT UUID is required"
  conditionValid request.condition
  let name ← objectName request.type request.sessionId request.objectId 256
  request.acquire
  let scope ← boundScope request.type request.scope
  let decoded ← recordDecode request.data request.sessionId (some scope)
  check (decoded.1.type = request.type) .corrupt "session object type does not match its key"
  check (request.type = .checkpoint → request.objectId = some decoded.2) .corrupt
    "checkpoint key does not match record hash"
  check (request.type = .history → request.objectId = some decoded.2) .corrupt
    "history key does not match record hash"
  check (request.type = .checkpoint ∨ request.type = .history → request.condition = [0x2a]) .misuse
    "immutable session records are create-only"
  check (request.type = .publication → request.objectId = some scope) .auth
    "publication key does not match scope"
  .ok ⟨name, decoded.1, decoded.2⟩

def SessionRecord.collected (record : SessionRecord) (uuid : Uuid) (hash : Hash) : GcRecord :=
  { type := record.type
    state := record.state
    outcome := record.outcome
    sequence := record.sequence.1
    created := record.created.1.toNat
    expires := record.expires.1.toNat
    sessionId := record.sessionId
    uuid := uuid
    scope := record.scopeHash
    predecessor := record.predecessorHash
    recordHash := hash
    body := record.body }

/-- The demands of the collector that storing a record does not make: a sequence number, an operation
id for publications too, and that a compacted checkpoint follows the one it is based on. -/
structure SessionRecord.Collectable (record : SessionRecord) : Prop where
  sequence : record.sequence.1 ≠ 0
  operation : record.type = .publication → allZero record.operationId.1 = false
  based : ∀ body, bodyDecode record.type record.state record.sessionId record.body = .ok body →
    body.compacted = true → body.baseCheckpointHash = record.predecessorHash

omit [RecordDigest] in
theorem validEtagBytes_eq_ok {etag : Bytes} : validEtagBytes etag = .ok () ↔
      (etag ≠ [] ∧ etag.length ≤ maxEtagBytes) ∧ etag.all printable = true := by
  rw [validEtagBytes, check_bind_eq_ok, check_eq_ok]

omit [RecordDigest] in
theorem length_pos_of_etag {offset count : Nat} (filled : slice body offset count ≠ []) :
    count ≠ 0 := by
  rintro rfl
  exact filled (by simp [slice])

omit [RecordDigest] in
theorem gcCheckpointBody_iff {predecessor : Hash} (decoded : checkpointBodyDecode body = .ok fields)
    (keyed : hash.1 = key.objectId) :
    gcCheckpointBody key predecessor hash body = .ok () ↔
      (fields.compacted = true → fields.baseCheckpointHash = predecessor) := by
  simp only [checkpointBodyDecode, unit_bind_eq_ok, check_eq_ok, validEtagBytes_eq_ok,
    Except.ok.injEq] at decoded
  obtain ⟨format, lengths, etag, rfl⟩ := decoded
  have present := length_pos_of_etag etag.1.1
  have short : getBe (slice body 20 4) ≤ 4096 := lengths.1
  simp only [gcCheckpointBody, check_bind_eq_ok, check_eq_ok]
  have base : (slice body 0 8 == compactedCheckpointBodyMagic) = true →
      (Fixed.read 32 body (24 + getBe (slice body 20 4) + getBe (slice body 16 4))).1 =
        slice body (24 + getBe (slice body 20 4) + getBe (slice body 16 4)) 32 := by
    intro compacted
    have total := lengths.2.2.2.2
    rw [if_pos compacted] at total
    apply Fixed.read_eq_slice
    simp only [hashBytes] at total
    omega
  constructor
  · intro accepted compacted
    rw [if_pos compacted]
    apply Subtype.ext
    rw [base compacted]
    exact accepted.2.2.1 compacted
  · intro follows
    refine ⟨format, ⟨present, short, lengths.2.2.1, lengths.2.1, lengths.2.2.2.1, lengths.2.2.2.2⟩, ?_,
      etag.2, fun _ => keyed⟩
    intro compacted
    have same := follows compacted
    rw [if_pos compacted] at same
    rw [← base compacted, same]

omit [RecordDigest] in
theorem gcHeadBody_of_decoded {state : RecordState} (decoded : headBodyDecode state body = .ok fields) :
    gcHeadBody state body = .ok () := by
  simp only [headBodyDecode, unit_bind_eq_ok, check_eq_ok, validEtagBytes_eq_ok] at decoded
  obtain ⟨format, ⟨few, flags, _, short, total, checkpoint, candidate⟩, operations, etag, _⟩ := decoded
  simp only [gcHeadBody, check_bind_eq_ok, check_eq_ok]
  exact ⟨format, ⟨few, flags, length_pos_of_etag etag.1.1, short, total⟩, etag.2, operations,
    checkpoint, candidate⟩

omit [RecordDigest] in
theorem gcHistoryBody_of_decoded (decoded : historyBodyDecode body = .ok fields) (kind : key.kind = .history)
    (keyed : hash.1 = key.objectId) : gcHistoryBody key hash body = .ok () := by
  simp only [historyBodyDecode, unit_bind_eq_ok, check_eq_ok] at decoded
  obtain ⟨format, ⟨positive, few, flags, total, _⟩, operations, _⟩ := decoded
  simp only [gcHistoryBody, check_bind_eq_ok, check_eq_ok]
  exact ⟨format, ⟨positive, few, flags, total⟩, operations, kind, keyed⟩

omit [RecordDigest] in
theorem gcPublicationBody_of_decoded {scope : Hash} {session : Bytes}
    (decoded : publicationBodyDecode session body = .ok fields) (spelled : uuidDecode session = some uuid)
    (keyed : scope.1 = key.objectId) :
    gcPublicationBody key uuid scope body = .ok () := by
  simp only [publicationBodyDecode, unit_bind_eq_ok, check_eq_ok, validEtagBytes_eq_ok] at decoded
  obtain ⟨⟨long, magic⟩, ⟨owner, same, checkpoint, candidate⟩, ⟨short, total⟩, etag, _⟩ := decoded
  simp only [gcPublicationBody, check_bind_eq_ok, check_eq_ok]
  refine ⟨⟨long, magic, owner, checkpoint, candidate⟩, ⟨length_pos_of_etag etag.1.1, short, total⟩,
    etag.2, ?_, fun _ => keyed⟩
  rw [spelled, Option.some.injEq] at same
  rw [same, Fixed.read_eq_slice (by omega)]

omit [RecordDigest] in
theorem bodyDecode_compacted {type : RecordType} {state : RecordState} {session : Bytes}
    (decoded : bodyDecode type state session body = .ok fields) (compacted : fields.compacted = true) :
    type = .checkpoint := by
  cases type with
  | checkpoint => rfl
  | head =>
    simp only [bodyDecode, headBodyDecode, unit_bind_eq_ok, check_eq_ok, Except.ok.injEq] at decoded
    rw [← decoded.2.2.2.2.2] at compacted
    cases compacted
  | history =>
    simp only [bodyDecode, historyBodyDecode, unit_bind_eq_ok, check_eq_ok, Except.ok.injEq] at decoded
    rw [← decoded.2.2.2.2] at compacted
    cases compacted
  | publication =>
    simp only [bodyDecode, publicationBodyDecode, unit_bind_eq_ok, check_eq_ok,
      Except.ok.injEq] at decoded
    rw [← decoded.2.2.2.2.2] at compacted
    cases compacted

omit [RecordDigest] in
theorem gcBody_iff (accepted : Acceptable record uuid) (kind : key.kind = gcKindOf record.type)
    (checkpoint : record.type = .checkpoint → hash.1 = key.objectId)
    (history : record.type = .history → hash.1 = key.objectId)
    (publication : record.type = .publication → record.scopeHash.1 = key.objectId) :
    gcBody key (record.collected uuid hash) = .ok () ↔
      ∀ body, bodyDecode record.type record.state record.sessionId record.body = .ok body →
        body.compacted = true → body.baseCheckpointHash = record.predecessorHash := by
  obtain ⟨fields, decoded⟩ := accepted.body
  have inner := decoded
  simp only [decoded, Except.ok.injEq, forall_eq']
  cases type : record.type with
  | checkpoint =>
    simp only [bodyDecode, type, check_bind_eq_ok] at inner
    simp only [gcBody, SessionRecord.collected, type]
    exact gcCheckpointBody_iff inner.2 (checkpoint type)
  | head =>
    simp only [bodyDecode, type, check_bind_eq_ok] at inner
    simp only [gcBody, SessionRecord.collected, type, gcHeadBody_of_decoded inner.2, true_iff]
    intro compacted
    cases type.symm.trans (bodyDecode_compacted decoded compacted)
  | history =>
    simp only [bodyDecode, type, check_bind_eq_ok] at inner
    rw [type] at kind
    simp only [gcBody, SessionRecord.collected, type,
      gcHistoryBody_of_decoded inner.2 kind (history type), true_iff]
    intro compacted
    cases type.symm.trans (bodyDecode_compacted decoded compacted)
  | publication =>
    simp only [bodyDecode, type, check_bind_eq_ok] at inner
    simp only [gcBody, SessionRecord.collected, type,
      gcPublicationBody_of_decoded inner.2 accepted.session (publication type), true_iff]
    intro compacted
    cases type.symm.trans (bodyDecode_compacted decoded compacted)

omit [RecordDigest] in
theorem gcRequiresOperationId_eq (type : RecordType) (state : RecordState) :
    gcRequiresOperationId type state = (requiresOperationId type state || type == .publication) := by
  cases type <;> cases state <;> rfl

omit [RecordDigest] in
theorem typeCode_gcKindOf (type : RecordType) :
    if gcKindOf type = .history then type = .history else typeCode type = gcKindCode (gcKindOf type) := by
  cases type <;> decide

theorem gcRecordDecode_of_laid {data : Bytes} (laid : Laid data record uuid) (accepted : Acceptable record uuid)
    (canonical : record.sessionId = uuidEncode uuid) (kind : key.kind = gcKindOf record.type)
    (owner : record.type ≠ .publication → uuid = key.uuid)
    (checkpoint : record.type = .checkpoint → (recordHash record uuid).1 = key.objectId)
    (history : record.type = .history → (recordHash record uuid).1 = key.objectId)
    (publication : record.type = .publication → record.scopeHash.1 = key.objectId) :
    gcRecordDecode data key = .ok (record.collected uuid (recordHash record uuid)) ↔
      record.Collectable := by
  have length := laid.frame.length
  have header := laid.header
  have collected : (⟨record.type, record.state, record.outcome, record.sequence.1,
      record.created.1.toNat, record.expires.1.toNat, uuidEncode uuid, uuid, record.scopeHash,
      record.predecessorHash, recordHash record uuid, record.body⟩ : GcRecord) =
      record.collected uuid (recordHash record uuid) := by
    rw [← canonical]
    rfl
  have body := gcBody_iff accepted kind checkpoint history publication
  have valid : ¬ gcOutcomeInvalid record.type record.state record.outcome := by
    rw [gcOutcomeInvalid_iff, accepted.typeState]
    decide
  unfold gcRecordDecode gcLifecycle
  simp only [header.type, header.state, header.outcome, header.session, header.scope,
    header.predecessor, header.digest, unit_bind_eq_ok, check_eq_ok,
    laid.frame.bodyLength, laid.frame.body, laid.frame.sequence, laid.frame.created,
    laid.frame.expires, laid.frame.session, laid.frame.scope, laid.frame.operation, collected, body,
    gcRequiresOperationId_eq, kind]
  obtain ⟨early, later, brief⟩ := accepted.time
  have createdBound := record.created.2.2
  have expiresBound := record.expires.2.2
  constructor
  · intro all
    obtain ⟨_, _, _, _, _, _, _, _, _, ⟨sequence, _⟩, _, operation, based, _⟩ := all
    refine ⟨sequence, ?_, based⟩
    intro published
    apply operation
    simp [published]
  · intro collectable
    have room : record.body.length ≤ data.length - headerBytes - trailerBytes := by omega
    refine ⟨⟨header.enough, length ▸ accepted.fits⟩, ⟨laid.frame.magic, laid.frame.version, laid.frame.flags,
      laid.frame.reserved⟩, ⟨laid.frame.header, laid.frame.total, laid.frame.padding, room,
      laid.frame.total.trans length⟩, laid.digest.symm, uuidDecode_present accepted.session,
      accepted.scope, ?_, ?_, typeCode_gcKindOf record.type, ⟨collectable.sequence, ?_⟩, valid, ?_,
      collectable.based, trivial⟩
    · intro keyed
      rw [owner]
      intro published
      rw [published] at keyed
      revert keyed
      decide
    · omega
    · omega
    · intro required
      rw [Bool.or_eq_true, beq_iff_eq] at required
      rcases required with required | published
      · exact accepted.operation required
      · exact collectable.operation published

/-- The same demands as a condition on the call: the sequence number, the operation id of a
publication, and the trailer of a compacted checkpoint against its predecessor. -/
structure PutRequest.Collectable (request : PutRequest) : Prop where
  sequence : getBe (slice request.data 24 8) ≠ 0
  operation : request.type = .publication → allZero (slice request.data 128 32) = false
  based : request.type = .checkpoint →
    slice request.data headerBytes 8 = compactedCheckpointBodyMagic →
    slice request.data (request.data.length - trailerBytes - 32) 32 = slice request.data 96 32

omit [RecordDigest] in
theorem checkpointBodyDecode_base (decoded : checkpointBodyDecode body = .ok fields) :
    8 ≤ body.length ∧ (fields.compacted = true ↔ slice body 0 8 = compactedCheckpointBodyMagic) ∧
      (fields.compacted = true → 32 ≤ body.length ∧
        fields.baseCheckpointHash.1 = slice body (body.length - 32) 32) := by
  simp only [checkpointBodyDecode, unit_bind_eq_ok, check_eq_ok, Except.ok.injEq] at decoded
  obtain ⟨⟨long, _⟩, ⟨_, _, _, _, total⟩, _, rfl⟩ := decoded
  refine ⟨by omega, beq_iff_eq, ?_⟩
  intro compacted
  rw [if_pos compacted, hashBytes] at total
  have offset : body.length - 32 = 24 + getBe (slice body 20 4) + getBe (slice body 16 4) := by omega
  refine ⟨by omega, ?_⟩
  rw [if_pos compacted, Fixed.read_eq_slice (by omega), offset]

theorem Laid.collectable_iff {request : PutRequest} (laid : Laid request.data record uuid)
    (accepted : Acceptable record uuid) (type : record.type = request.type) :
    record.Collectable ↔ request.Collectable := by
  have length := laid.frame.length
  have based : (∀ body, bodyDecode record.type record.state record.sessionId record.body = .ok body →
      body.compacted = true → body.baseCheckpointHash = record.predecessorHash) ↔
      (request.type = .checkpoint →
        slice request.data headerBytes 8 = compactedCheckpointBodyMagic →
        slice request.data (request.data.length - trailerBytes - 32) 32 =
          slice request.data 96 32) := by
    obtain ⟨fields, decoded⟩ := accepted.body
    simp only [decoded, Except.ok.injEq, forall_eq', laid.frame.predecessor]
    by_cases checkpoint : record.type = .checkpoint
    · have inner := decoded
      simp only [bodyDecode, checkpoint, check_bind_eq_ok] at inner
      obtain ⟨long, compacted, base⟩ := checkpointBodyDecode_base inner.2
      have front : slice request.data headerBytes 8 = slice record.body 0 8 := by
        rw [← laid.frame.body, slice_slice (by omega)]
        rfl
      rw [front, ← compacted, ← type]
      simp only [checkpoint, true_imp_iff]
      apply imp_congr_right
      intro yes
      obtain ⟨room, same⟩ := base yes
      have back : slice request.data (request.data.length - trailerBytes - 32) 32 =
          slice record.body (record.body.length - 32) 32 := by
        have offset : request.data.length - trailerBytes - 32 =
            headerBytes + (record.body.length - 32) := by
          rw [length]
          omega
        have inner := @slice_slice request.data headerBytes record.body.length
          (record.body.length - 32) 32 (by omega)
        rw [laid.frame.body] at inner
        rw [offset, inner]
      rw [back, ← same]
      exact Subtype.ext_iff
    · rw [← type]
      refine iff_of_true ?_ fun other => absurd other checkpoint
      intro compacted
      exact absurd (bodyDecode_compacted decoded compacted) checkpoint
  constructor
  · intro collectable
    refine ⟨?_, ?_, based.mp collectable.based⟩
    · rw [laid.frame.sequence]
      exact collectable.sequence
    · rw [← type, laid.frame.operation]
      exact collectable.operation
  · intro collectable
    refine ⟨?_, ?_, based.mpr collectable.based⟩
    · rw [← laid.frame.sequence]
      exact collectable.sequence
    · rw [type, ← laid.frame.operation]
      exact collectable.operation

theorem sessionPut_eq_ok {request : PutRequest} {stored : Storable}
    (put : sessionPut request = .ok stored) :
    ∃ uuid, Laid request.data stored.record uuid ∧ Acceptable stored.record uuid ∧
      stored.record.sessionId = uuidEncode uuid ∧ stored.hash = recordHash stored.record uuid ∧
      stored.record.type = request.type ∧
      checkSession stored.record.type uuid request.sessionId = .ok () ∧
      objectName request.type request.sessionId request.objectId 256 = .ok stored.name ∧
      (request.type = .checkpoint ∨ request.type = .history → request.objectId = some stored.hash) ∧
      (request.type = .publication → request.objectId = some stored.record.scopeHash) ∧
      (request.type ≠ .publication → request.sessionId.isSome = true) := by
  rw [sessionPut, check_bind_eq_ok] at put
  obtain ⟨session, put⟩ := put
  obtain ⟨_, put⟩ := unit_bind_eq_ok.mp put
  obtain ⟨name, named, put⟩ := bind_eq_ok.mp put
  obtain ⟨_, put⟩ := unit_bind_eq_ok.mp put
  obtain ⟨scope, _, put⟩ := bind_eq_ok.mp put
  obtain ⟨decoded, read, put⟩ := bind_eq_ok.mp put
  simp only [check_bind_eq_ok, Except.ok.injEq] at put
  obtain ⟨type, checkpoint, history, _, publication, rfl⟩ := put
  obtain ⟨uuid, laid, accepted, canonical, hash, same, owner⟩ := recordDecode_eq_ok read
  rw [Option.some.injEq] at same
  subst same
  refine ⟨uuid, laid, accepted, canonical, hash, type, owner, named, ?_, publication, session⟩
  rintro (kind | kind)
  · exact checkpoint kind
  · exact history kind

/-- The collector accepts the key of a stored record and reads the same record under it exactly if
the record meets the demands that only the collector makes. -/
theorem collector_reads_stored {request : PutRequest} {stored : Storable}
    (put : sessionPut request = .ok stored) :
    (∃ key uuid, gcObjectParse stored.name = .object key ∧
      uuidDecode stored.record.sessionId = some uuid ∧
      gcRecordDecode request.data key = .ok (stored.record.collected uuid stored.hash)) ↔
      request.Collectable := by
  obtain ⟨uuid, laid, accepted, canonical, hash, type, owner, named, immutable, publication, session⟩ :=
    sessionPut_eq_ok put
  obtain ⟨key, parsed, kind, keyOwner, object⟩ := gcObjectParse_objectName named
  rw [← type] at kind keyOwner object immutable publication session
  have spelled : uuidDecode stored.record.sessionId = some uuid := accepted.session
  have same : stored.record.type ≠ .publication → uuid = key.uuid := by
    intro owned
    obtain ⟨text, given⟩ := Option.isSome_iff_exists.mp (session owned)
    have named := keyOwner owned
    rw [given, checkSession, check_eq_ok] at owner
    rw [given, Option.bind_some, owner, Option.some.injEq] at named
    exact named
  have addressed : stored.record.type = .checkpoint ∨ stored.record.type = .history →
      (recordHash stored.record uuid).1 = key.objectId := by
    intro addressed
    obtain ⟨found, given, keyed⟩ := object (by rcases addressed with type | type <;> simp [type])
    rw [immutable addressed, Option.mem_some_iff] at given
    rw [keyed, ← given, hash]
  have fenced : stored.record.type = .publication → stored.record.scopeHash.1 = key.objectId := by
    intro published
    obtain ⟨found, given, keyed⟩ := object (by simp [published])
    rw [publication published, Option.mem_some_iff] at given
    rw [keyed, ← given]
  have decode := gcRecordDecode_of_laid laid accepted canonical kind same
    (fun checkpoint => addressed (.inl checkpoint)) (fun history => addressed (.inr history)) fenced
  rw [← laid.collectable_iff accepted type, ← decode, ← hash]
  constructor
  · rintro ⟨key', uuid', parsed', spelled', read⟩
    rw [parsed, GcParsed.object.injEq] at parsed'
    rw [spelled, Option.some.injEq] at spelled'
    rw [parsed', spelled']
    exact read
  · intro read
    exact ⟨key, uuid, parsed, spelled, read⟩

end

def sampleBound : Hash :=
  match @boundScope frontDigest .checkpoint (sampleScope "x") with
  | .ok scope => scope
  | .error _ => Fixed.read 32 [] 0

def sampleStored (sequence : Fin (2 ^ 64)) : SessionRecord :=
  { sampleCheckpoint 'a' with sequence := sequence, scopeHash := sampleBound }

def sampleUuid : Uuid := Fixed.read 16 [0xa0] 0

def samplePut (sequence : Fin (2 ^ 64)) : PutRequest where
  type := .checkpoint
  sessionId := some (sampleSession 'a')
  objectId := some (@recordHash frontDigest (sampleStored sequence) sampleUuid)
  scope := sampleScope "x"
  condition := [0x2a]
  data := @recordBytes frontDigest (sampleStored sequence) sampleUuid
  acquire := .ok ()

def sampleName (sequence : Fin (2 ^ 64)) : Bytes :=
  sessionRoot ++ (checkpointPart ++ (sampleSession 'a' ++ 0x2f ::
    (hexEncode (@recordHash frontDigest (sampleStored sequence) sampleUuid).1 ++ suffix)))

theorem collector_reads_stored_sample :
    ∃ stored, @sessionPut frontDigest (samplePut 1) = .ok stored ∧
      ∃ key uuid, gcObjectParse stored.name = .object key ∧
        @gcRecordDecode frontDigest (samplePut 1).data key =
          .ok (stored.record.collected uuid stored.hash) := by
  have put : @sessionPut frontDigest (samplePut 1) =
      .ok ⟨sampleName 1, sampleStored 1, @recordHash frontDigest (sampleStored 1) sampleUuid⟩ := by
    decide +kernel
  have collectable : (samplePut 1).Collectable := by
    refine ⟨by decide +kernel, ?_, ?_⟩
    · intro other
      cases other
    · intro _ compacted
      revert compacted
      decide +kernel
  obtain ⟨key, uuid, parsed, _, read⟩ := (@collector_reads_stored frontDigest _ _ put).mpr collectable
  exact ⟨_, put, key, uuid, parsed, read⟩

/-- A checkpoint without a sequence number can be stored, and the collector rejects it. -/
theorem collector_rejects_stored :
    ∃ stored key, @sessionPut frontDigest (samplePut 0) = .ok stored ∧
      gcObjectParse stored.name = .object key ∧
      @gcRecordDecode frontDigest (samplePut 0).data key =
        .error ⟨.corrupt, "invalid session record lifecycle"⟩ := by
  refine ⟨⟨sampleName 0, sampleStored 0, @recordHash frontDigest (sampleStored 0) sampleUuid⟩,
    ⟨.checkpoint, sampleUuid, (@recordHash frontDigest (sampleStored 0) sampleUuid).1,
      Fixed.read 32 [] 0⟩, ?_, ?_, ?_⟩ <;> decide +kernel

end RusqDoltlite.Codec

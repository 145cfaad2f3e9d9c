import Mathlib.Algebra.Group.Nat.Defs
import Mathlib.Data.List.Basic
import Mathlib.Tactic.Common

/-! Session records: immutable checkpoints, the session head, the per-container
publication head and the operation-history segments. A record is the value that
`sqlite3_bcvfs_session_record_encode` serialises; the limits it enforces on the
encoded form are kept, the byte layout itself is not. -/

namespace RusqDoltlite.Session

abbrev Bytes := List UInt8

def hashBytes : Nat := 32
def headerBytes : Nat := 168
def trailerBytes : Nat := 32
def recordMaxBytes : Nat := 16 * 1024 * 1024
def bodyMaxBytes : Nat := recordMaxBytes - headerBytes - hashBytes
def ttlMilliseconds : Nat := 30 * 24 * 60 * 60 * 1000
def maxEtagBytes : Nat := 4096
def maxHistoryOperations : Nat := 1024
def rehydrateMaxChain : Nat := 256
def compactionThreshold : Nat := 256
def sequenceMax : Nat := 2 ^ 64 - 1

/-- The return codes the session code distinguishes; `other` is any further code a
storage module may report. -/
inductive Code where
  | error | busy | nomem | ioerr | corrupt | full | constraint | misuse | auth | tooBig
  | httpNotFound | httpAuthError
  | other (code : Nat)
deriving DecidableEq, Repr

structure Err where
  code : Code
  message : String
deriving DecidableEq, Repr

/-- An opaque conditional-version token of the provider. The transport callbacks
reject empty and over-long tokens, and tokens with control bytes. -/
structure ETag where
  text : Bytes
  valid : 0 < text.length ∧ text.length ≤ maxEtagBytes ∧ ∀ byte ∈ text, 0x20 ≤ byte ∧ byte ≠ 0x7f
deriving DecidableEq, Repr

structure SessionId where
  bits : Nat
  bound : 0 < bits ∧ bits < 2 ^ 128
deriving DecidableEq, Repr

inductive RecordType where
  | checkpoint | head | publication | history
deriving DecidableEq, Repr

inductive RecordState where
  | opened | accepted | publishing | committed | aborted | expired
deriving DecidableEq, Repr

inductive Outcome where
  | none | success | failure | conflict
deriving DecidableEq, Repr

structure Record (Hash Body : Type) where
  state : RecordState
  outcome : Outcome
  sequence : Nat
  created : Nat
  expires : Nat
  sessionId : SessionId
  scopeHash : Hash
  predecessorHash : Hash
  operationId : Hash
  body : Body
deriving DecidableEq, Repr

/-- A compacted checkpoint carries the accepted predecessor in its body. -/
structure CheckpointBody (Hash : Type) where
  fileSize : Nat
  baseManifestETag : ETag
  manifest : Bytes
  baseCheckpointHash : Option Hash
deriving DecidableEq, Repr

structure HeadBody (Hash : Type) where
  checkpointHash : Hash
  candidateManifestHash : Hash
  historyHeadHash : Hash
  historyOperations : List Hash
  baseManifestETag : ETag
deriving DecidableEq, Repr

structure PublicationBody (Hash : Type) where
  checkpointHash : Hash
  candidateManifestHash : Hash
  baseManifestETag : ETag
deriving DecidableEq, Repr

structure HistoryBody (Hash : Type) where
  historyHeadHash : Hash
  historyOperations : List Hash
deriving DecidableEq, Repr

abbrev Checkpoint (Hash : Type) := Record Hash (CheckpointBody Hash)
abbrev Head (Hash : Type) := Record Hash (HeadBody Hash)
abbrev Publication (Hash : Type) := Record Hash (PublicationBody Hash)
abbrev History (Hash : Type) := Record Hash (HistoryBody Hash)

structure Scope where
  principal : String
  database : String
  operations : String
deriving DecidableEq, Repr

/-- SHA-256 over an encoded record, over manifest bytes, and over the scope of a
session and of its container (`sqlite3_bcvfs_session_scope_hash` and
`sqlite3_bcvfs_session_storage_scope_hash` of the one container modelled). Only the
all-zero value has a meaning of its own: it stands for "no hash". -/
class Digest (Hash : Type) where
  zero : Hash
  scope : Scope → Hash
  storageScope : Hash
  manifest : Bytes → Hash
  checkpoint : Checkpoint Hash → Hash
  head : Head Hash → Hash
  publication : Publication Hash → Hash
  history : History Hash → Hash

/-- No two inputs of one kind have the same hash, and no input hashes to the value that
stands for "no hash". -/
structure CollisionFree (Hash : Type) [Digest Hash] : Prop where
  scope : Function.Injective (Digest.scope : Scope → Hash)
  manifest : Function.Injective (Digest.manifest : Bytes → Hash)
  checkpoint : Function.Injective (Digest.checkpoint : Checkpoint Hash → Hash)
  head : Function.Injective (Digest.head : Head Hash → Hash)
  publication : Function.Injective (Digest.publication : Publication Hash → Hash)
  history : Function.Injective (Digest.history : History Hash → Hash)
  scope_ne_zero : ∀ scope, Digest.scope scope ≠ (Digest.zero : Hash)
  storageScope_ne_zero : Digest.storageScope ≠ (Digest.zero : Hash)
  manifest_ne_zero : ∀ bytes, Digest.manifest bytes ≠ (Digest.zero : Hash)
  checkpoint_ne_zero : ∀ record, Digest.checkpoint record ≠ (Digest.zero : Hash)

def CheckpointBody.compacted {Hash : Type} (body : CheckpointBody Hash) : Bool :=
  body.baseCheckpointHash.isSome

def validTypeState : RecordType → RecordState → Outcome → Bool
  | .checkpoint, state, outcome => state == .opened && outcome == .none
  | .history, state, outcome => state == .accepted && outcome == .success
  | _, .committed, outcome => outcome == .success
  | _, .aborted, outcome => outcome == .failure || outcome == .conflict
  | _, .expired, outcome => outcome == .failure
  | type, .accepted, outcome => type == .head && (outcome == .none || outcome == .success)
  | _, _, outcome => outcome == .none

def requiresOperationId : RecordType → RecordState → Bool
  | .checkpoint, _ => true
  | .history, _ => true
  | .head, state => state == .accepted || state == .publishing || state == .committed
  | .publication, _ => false

def validTime (created expires : Nat) : Bool :=
  created < expires && expires - created ≤ ttlMilliseconds

/-- What the four record bodies have in common: the type tag and hash of their
record, their encoded size, and the checks of `bcvSessionBodyDecode`. -/
class SessionBody (Hash : outParam Type) (Body : Type) where
  type : RecordType
  recordHash : Record Hash Body → Hash
  bytes : Body → Nat
  decode : RecordState → Body → Except Err Unit

def check (condition : Prop) [Decidable condition] (code : Code) (message : String) :
    Except Err Unit :=
  if condition then .ok () else .error ⟨code, message⟩

@[simp] theorem check_eq_ok {condition : Prop} [Decidable condition] {code : Code}
    {message : String} : check condition code message = .ok () ↔ condition := by
  unfold check
  split <;> simp [*]

@[simp] theorem check_bind_eq_ok {α : Type} {condition : Prop} [Decidable condition] {code : Code}
    {message : String} {next : Unit → Except Err α} {value : α} :
    (check condition code message >>= next) = .ok value ↔ condition ∧ next () = .ok value := by
  by_cases holds : condition <;> simp [check, holds, bind, Except.bind]

section
variable {Hash : Type} [DecidableEq Hash] [Digest Hash]

instance : SessionBody Hash (CheckpointBody Hash) where
  type := .checkpoint
  recordHash := Digest.checkpoint
  bytes body := 24 + body.baseManifestETag.text.length + body.manifest.length +
    (if body.compacted then hashBytes else 0)
  decode _ body := check (body.manifest ≠ []) .corrupt "invalid checkpoint body lengths"

instance : SessionBody Hash (HeadBody Hash) where
  type := .head
  recordHash := Digest.head
  bytes body := 116 + body.historyOperations.length * hashBytes + body.baseManifestETag.text.length
  decode state body := do
    check (body.historyOperations.length ≤ maxHistoryOperations ∧
        (state ≠ .opened → body.checkpointHash ≠ Digest.zero) ∧
        (state = .publishing ∨ state = .committed → body.candidateManifestHash ≠ Digest.zero))
      .corrupt "invalid version 2 head body"
    check (Digest.zero ∉ body.historyOperations) .corrupt
      "head history contains an empty operation ID"

instance : SessionBody Hash (PublicationBody Hash) where
  type := .publication
  recordHash := Digest.publication
  bytes body := 92 + body.baseManifestETag.text.length
  decode _ body := check (body.checkpointHash ≠ Digest.zero ∧ body.candidateManifestHash ≠ Digest.zero)
    .auth "publication body identity mismatch"

instance : SessionBody Hash (HistoryBody Hash) where
  type := .history
  recordHash := Digest.history
  bytes body := 48 + body.historyOperations.length * hashBytes
  decode _ body := do
    check (body.historyOperations ≠ [] ∧ body.historyOperations.length ≤ maxHistoryOperations)
      .corrupt "invalid session history body"
    check (Digest.zero ∉ body.historyOperations) .corrupt "history contains an empty operation ID"

end

section
variable {Hash : Type} [DecidableEq Hash] [Digest Hash] {Body : Type} [SessionBody Hash Body]

def recordCheck (record : Record Hash Body) : Except Err Unit := do
  check (validTypeState (SessionBody.type Body) record.state record.outcome = true) .misuse
    "invalid session record type or state"
  check (record.scopeHash ≠ Digest.zero) .misuse "session record scope is empty"
  check (requiresOperationId (SessionBody.type Body) record.state = true →
      record.operationId ≠ Digest.zero) .misuse "session record operation ID is empty"
  check (validTime record.created record.expires = true) .misuse "invalid session record expiration"
  check (headerBytes + SessionBody.bytes record.body + trailerBytes ≤ recordMaxBytes) .tooBig
    "session record exceeds size limit"
  match SessionBody.decode record.state record.body with
  | .ok () => .ok ()
  | .error error => .error ⟨.misuse, error.message⟩

end

/-- The stored form of a record: only a record that passed the encoder's checks has
one. -/
structure Encoded (Hash Body : Type) [DecidableEq Hash] [Digest Hash] [SessionBody Hash Body] where
  record : Record Hash Body
  checked : recordCheck record = .ok ()

section
variable {Hash : Type} [DecidableEq Hash] [Digest Hash] {Body : Type} [SessionBody Hash Body]

instance [DecidableEq Body] : DecidableEq (Encoded Hash Body) := fun left right =>
  decidable_of_iff (left.record = right.record) (by cases left; cases right; simp)

def recordEncode (record : Record Hash Body) : Except Err (Encoded Hash Body) :=
  match checked : recordCheck record with
  | .ok () => .ok ⟨record, checked⟩
  | .error error => .error error

def Encoded.recordHash (encoded : Encoded Hash Body) : Hash :=
  SessionBody.recordHash encoded.record

/-- `sqlite3_bcvfs_session_record_decode` on bytes the encoder produced: what is
left to check is that the record belongs to the expected session and scope. -/
def recordDecode (sessionId : Option SessionId) (scopeHash : Hash) (encoded : Encoded Hash Body) :
    Except Err (Record Hash Body) := do
  match sessionId with
  | some expected =>
    check (encoded.record.sessionId = expected) .auth
      "session record UUID does not match the request"
  | none =>
    check (SessionBody.type Body = .publication ∨ SessionBody.type Body = .history) .misuse
      "session UUID is required for this record"
  check (scopeHash ≠ Digest.zero ∧ encoded.record.scopeHash = scopeHash) .auth
    "session record scope does not match the request"
  .ok encoded.record

end

section
variable {Hash : Type} [DecidableEq Hash] [Digest Hash] {Body : Type} [SessionBody Hash Body]

variable {record : Record Hash Body} {encoded : Encoded Hash Body}

theorem recordEncode_record (success : recordEncode record = .ok encoded) : encoded.record = record := by
  unfold recordEncode at success
  split at success
  · cases success
    rfl
  · cases success

theorem recordEncode_of_check (checked : recordCheck record = .ok ()) :
    recordEncode record = .ok ⟨record, checked⟩ := by
  unfold recordEncode
  split
  · rfl
  · rename_i failed
    rw [checked] at failed
    cases failed

theorem recordDecode_eq_ok {sessionId : Option SessionId} {scopeHash : Hash}
    (success : recordDecode sessionId scopeHash encoded = .ok record) :
    record = encoded.record ∧ (∀ expected ∈ sessionId, encoded.record.sessionId = expected) ∧
      encoded.record.scopeHash = scopeHash := by
  cases sessionId with
  | none =>
    simp only [recordDecode, check_bind_eq_ok, Except.ok.injEq] at success
    obtain ⟨_, ⟨_, scope⟩, same⟩ := success
    exact ⟨same.symm, by simp, scope⟩
  | some expected =>
    simp only [recordDecode, check_bind_eq_ok, Except.ok.injEq] at success
    obtain ⟨owner, ⟨_, scope⟩, same⟩ := success
    exact ⟨same.symm, by simpa using owner, scope⟩

theorem recordDecode_own {sessionId : Option SessionId} {scopeHash : Hash}
    (sameScope : encoded.record.scopeHash = scopeHash)
    (owner : ∀ expected ∈ sessionId, encoded.record.sessionId = expected)
    (named : sessionId = none → SessionBody.type Body = .publication ∨ SessionBody.type Body = .history) :
    recordDecode sessionId scopeHash encoded = .ok encoded.record := by
  have present : scopeHash ≠ Digest.zero := by
    have checked := encoded.checked
    simp only [recordCheck, check_bind_eq_ok] at checked
    exact sameScope ▸ checked.2.1
  cases sessionId with
  | none => simp [recordDecode, named rfl, present, sameScope]
  | some expected => simp [recordDecode, owner expected rfl, present, sameScope]

end

def isExpired {Hash Body : Type} (record : Record Hash Body) (now : Nat) : Bool :=
  record.expires ≤ now

end RusqDoltlite.Session

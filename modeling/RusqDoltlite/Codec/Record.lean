import RusqDoltlite.Codec.Uuid
import RusqDoltlite.Wire.BigEndian

/-! The byte form of session records, `sqlite3_bcvfs_session_record_encode` and
`sqlite3_bcvfs_session_record_decode`, and of their bodies, `bcvSessionBodyDecode`. A header of 168
bytes and the body are followed by their SHA-256 digest. -/

namespace RusqDoltlite.Codec

open Wire Session

def Fixed.read (size : Nat) (data : Bytes) (offset : Nat) : Fixed size :=
  ⟨(data.drop offset ++ List.replicate size 0).take size, by simp⟩

theorem Fixed.read_eq_slice {size offset : Nat} {data : Bytes} (inside : offset + size ≤ data.length) :
    (Fixed.read size data offset).1 = slice data offset size := by
  have enough : size ≤ (data.drop offset).length := by
    rw [List.length_drop]
    omega
  simp only [Fixed.read, slice]
  rw [List.take_append_of_le_length enough]

class RecordDigest where
  sha256 : Bytes → Hash

def checkpointBodyMagic : Bytes := ascii "BCVCP01\x00"

def compactedCheckpointBodyMagic : Bytes := ascii "BCVCS01\x00"

def headBodyMagic : Bytes := ascii "BCVHD02\x00"

def publicationBodyMagic : Bytes := ascii "BCVPH01\x00"

def historyBodyMagic : Bytes := ascii "BCVHS02\x00"

/-- `sqlite3_bcvfs_session_body`. Fields another type does not have stay zero or empty. -/
structure BodyFields where
  type : RecordType
  fileSize : Nat := 0
  compacted : Bool := false
  baseCheckpointHash : Hash := Fixed.read 32 [] 0
  checkpointHash : Hash := Fixed.read 32 [] 0
  candidateManifestHash : Hash := Fixed.read 32 [] 0
  historyHeadHash : Hash := Fixed.read 32 [] 0
  sessionId : Uuid := Fixed.read 16 [] 0
  historyOperations : List Hash := []
  baseManifestETag : Bytes := []
  manifest : Bytes := []
deriving DecidableEq

def printable (byte : UInt8) : Bool := 0x20 ≤ byte && byte != 0x7f

/-- `bcvSessionValidEtagBytes`; every body requires its ETag. -/
def validEtagBytes (etag : Bytes) : Except Err Unit := do
  check (etag ≠ [] ∧ etag.length ≤ maxEtagBytes) .corrupt "invalid session ETag length"
  check (etag.all printable = true) .corrupt "invalid session ETag bytes"

def readOperations (body : Bytes) (offset : Nat) : Nat → List Hash
  | 0 => []
  | count + 1 => Fixed.read 32 body offset :: readOperations body (offset + 32) count

def checkpointBodyDecode (body : Bytes) : Except Err BodyFields := do
  check (24 ≤ body.length ∧
      (slice body 0 8 = checkpointBodyMagic ∨ slice body 0 8 = compactedCheckpointBodyMagic))
    .corrupt "invalid checkpoint body format"
  let compacted := slice body 0 8 == compactedCheckpointBodyMagic
  let nManifest := getBe (slice body 16 4)
  let nEtag := getBe (slice body 20 4)
  check (nEtag ≤ maxEtagBytes ∧ nEtag ≤ body.length - 24 ∧ nManifest ≠ 0 ∧
      nManifest + nEtag + 24 ≤ body.length ∧
      body.length = nManifest + nEtag + 24 + if compacted then hashBytes else 0)
    .corrupt "invalid checkpoint body lengths"
  validEtagBytes (slice body 24 nEtag)
  .ok
    { type := .checkpoint
      fileSize := getBe (slice body 8 8)
      compacted := compacted
      baseManifestETag := slice body 24 nEtag
      manifest := slice body (24 + nEtag) nManifest
      baseCheckpointHash :=
        if compacted then Fixed.read 32 body (24 + nEtag + nManifest) else Fixed.read 32 [] 0 }

def headBodyDecode (state : RecordState) (body : Bytes) : Except Err BodyFields := do
  check (116 ≤ body.length ∧ slice body 0 8 = headBodyMagic) .corrupt "invalid head body format"
  let nHistory := getBe (slice body 108 4)
  let nHeadEtag := getBe (slice body 112 4)
  let nEtagOff := 116 + nHistory * hashBytes
  check (nHistory ≤ maxHistoryOperations ∧ getBe (slice body 8 4) = 0 ∧ nEtagOff ≤ body.length ∧
      nHeadEtag ≤ maxEtagBytes ∧ nEtagOff + nHeadEtag = body.length ∧
      (state ≠ .opened → allZero (slice body 12 32) = false) ∧
      (state = .publishing ∨ state = .committed → allZero (slice body 44 32) = false))
    .corrupt "invalid version 2 head body"
  check (∀ operation ∈ readOperations body 116 nHistory, allZero operation.1 = false)
    .corrupt "head history contains an empty operation ID"
  validEtagBytes (slice body nEtagOff nHeadEtag)
  .ok
    { type := .head
      checkpointHash := Fixed.read 32 body 12
      candidateManifestHash := Fixed.read 32 body 44
      historyHeadHash := Fixed.read 32 body 76
      historyOperations := readOperations body 116 nHistory
      baseManifestETag := slice body nEtagOff nHeadEtag }

def publicationBodyDecode (sessionId : Bytes) (body : Bytes) : Except Err BodyFields := do
  check (92 ≤ body.length ∧ slice body 0 8 = publicationBodyMagic)
    .corrupt "invalid publication body format"
  check (allZero (slice body 8 16) = false ∧ uuidDecode sessionId = some (Fixed.read 16 body 8) ∧
      allZero (slice body 24 32) = false ∧ allZero (slice body 56 32) = false)
    .auth "publication body identity mismatch"
  let nEtag := getBe (slice body 88 4)
  check (nEtag ≤ maxEtagBytes ∧ body.length = 92 + nEtag) .corrupt "invalid publication body length"
  validEtagBytes (slice body 92 nEtag)
  .ok
    { type := .publication
      sessionId := Fixed.read 16 body 8
      checkpointHash := Fixed.read 32 body 24
      candidateManifestHash := Fixed.read 32 body 56
      baseManifestETag := slice body 92 nEtag }

def historyBodyDecode (body : Bytes) : Except Err BodyFields := do
  check (48 ≤ body.length ∧ slice body 0 8 = historyBodyMagic) .corrupt "invalid session history body"
  let nHistory := getBe (slice body 40 4)
  check (nHistory ≠ 0 ∧ nHistory ≤ maxHistoryOperations ∧ getBe (slice body 44 4) = 0 ∧
      48 + nHistory * hashBytes = body.length ∧
      allZero (slice body 48 (nHistory * hashBytes)) = false)
    .corrupt "invalid session history body"
  check (∀ operation ∈ readOperations body 48 nHistory, allZero operation.1 = false)
    .corrupt "history contains an empty operation ID"
  .ok
    { type := .history
      historyHeadHash := Fixed.read 32 body 8
      historyOperations := readOperations body 48 nHistory }

def bodyDecode (type : RecordType) (state : RecordState) (sessionId body : Bytes) :
    Except Err BodyFields := do
  check (8 ≤ body.length ∧ body.length ≤ bodyMaxBytes) .corrupt "invalid session record body"
  match type with
  | .checkpoint => checkpointBodyDecode body
  | .head => headBodyDecode state body
  | .publication => publicationBodyDecode sessionId body
  | .history => historyBodyDecode body

theorem bodyDecode_congr {type : RecordType} {state : RecordState} {first second body : Bytes}
    (same : uuidDecode first = uuidDecode second) :
    bodyDecode type state first body = bodyDecode type state second body := by
  cases type <;> simp only [bodyDecode, publicationBodyDecode, same]

def recordMagic : Bytes := ascii "BCVSR01\x00"

def recordVersion : Nat := 1

def typeCode : RecordType → Nat
  | .checkpoint => 1
  | .head => 2
  | .publication => 3
  | .history => 4

def stateCode : RecordState → Nat
  | .opened => 1
  | .accepted => 2
  | .publishing => 3
  | .committed => 4
  | .aborted => 5
  | .expired => 6

def outcomeCode : Outcome → Nat
  | .none => 0
  | .success => 1
  | .failure => 2
  | .conflict => 3

def typeOfCode (code : Nat) : Option RecordType :=
  [.checkpoint, .head, .publication, .history].find? fun type => typeCode type == code

def stateOfCode (code : Nat) : Option RecordState :=
  [.opened, .accepted, .publishing, .committed, .aborted, .expired].find? fun state =>
    stateCode state == code

def outcomeOfCode (code : Nat) : Option Outcome :=
  [.none, .success, .failure, .conflict].find? fun outcome => outcomeCode outcome == code

theorem find?_code {α : Type} {codeOf : α → Nat} {all : List α} {code : Nat} {value : α}
    (known : all.find? (fun other => codeOf other == codeOf value) = some value) :
    all.find? (fun other => codeOf other == code) = some value ↔ code = codeOf value := by
  constructor
  · intro found
    have same := List.find?_some found
    exact (beq_iff_eq.mp same).symm
  · rintro rfl
    exact known

theorem typeOfCode_eq_some {code : Nat} {type : RecordType} :
    typeOfCode code = some type ↔ code = typeCode type :=
  find?_code (by cases type <;> rfl)

theorem stateOfCode_eq_some {code : Nat} {state : RecordState} :
    stateOfCode code = some state ↔ code = stateCode state :=
  find?_code (by cases state <;> rfl)

theorem outcomeOfCode_eq_some {code : Nat} {outcome : Outcome} :
    outcomeOfCode code = some outcome ↔ code = outcomeCode outcome :=
  find?_code (by cases outcome <;> rfl)

theorem typeCode_lt (type : RecordType) : typeCode type < 256 ^ 1 := by cases type <;> decide

theorem stateCode_lt (state : RecordState) : stateCode state < 256 ^ 1 := by cases state <;> decide

theorem outcomeCode_lt (outcome : Outcome) : outcomeCode outcome < 256 ^ 1 := by
  cases outcome <;> decide

abbrev Time := { value : Int // -2 ^ 63 ≤ value ∧ value < 2 ^ 63 }

theorem time_bounds {value : Nat} (small : value < 2 ^ 63) :
    -2 ^ 63 ≤ (value : Int) ∧ (value : Int) < 2 ^ 63 := by omega

def Time.ofNat (value : Nat) (small : value < 2 ^ 63) : Time := ⟨value, time_bounds small⟩

structure SessionRecord where
  type : RecordType
  state : RecordState
  outcome : Outcome
  sequence : Fin (2 ^ 64)
  created : Time
  expires : Time
  sessionId : Bytes
  scopeHash : Hash
  predecessorHash : Hash
  operationId : Hash
  body : Bytes
deriving DecidableEq

def SessionRecord.validTime (record : SessionRecord) : Prop :=
  0 ≤ record.created.1 ∧ record.created.1 < record.expires.1 ∧
    record.expires.1 - record.created.1 ≤ ttlMilliseconds

instance (record : SessionRecord) : Decidable record.validTime :=
  inferInstanceAs (Decidable (_ ∧ _))

def recordFields (record : SessionRecord) (uuid : Uuid) : List Bytes :=
  [recordMagic, putBe 2 recordVersion, putBe 1 (typeCode record.type),
    putBe 1 (stateCode record.state), putBe 1 (outcomeCode record.outcome), putBe 1 0, putBe 2 0,
    putBe 4 headerBytes, putBe 4 (headerBytes + record.body.length + trailerBytes),
    putBe 8 record.sequence.1, putBe 8 record.created.1.toNat, putBe 8 record.expires.1.toNat,
    uuid.1, record.scopeHash.1, record.predecessorHash.1, record.operationId.1,
    putBe 4 record.body.length, putBe 4 0, record.body]

def headerWidths : List Nat := [8, 2, 1, 1, 1, 1, 2, 4, 4, 8, 8, 8, 16, 32, 32, 32, 4, 4]

section
variable [RecordDigest]

def recordBytes (record : SessionRecord) (uuid : Uuid) : Bytes :=
  let signed := (recordFields record uuid).flatten
  signed ++ (RecordDigest.sha256 signed).1

def recordEncode (record : SessionRecord) : Except Err (Bytes × Hash) := do
  check (validTypeState record.type record.state record.outcome = true) .misuse
    "invalid session record type or state"
  match uuidDecode record.sessionId with
  | none => .error ⟨.misuse, "session record requires a canonical UUID"⟩
  | some uuid => do
      check (allZero uuid.1 = false) .misuse "session record UUID is empty"
      check (allZero record.scopeHash.1 = false) .misuse "session record scope is empty"
      check (requiresOperationId record.type record.state = true →
          allZero record.operationId.1 = false) .misuse "session record operation ID is empty"
      check record.validTime .misuse "invalid session record expiration"
      check (headerBytes + record.body.length + trailerBytes ≤ recordMaxBytes) .tooBig
        "session record exceeds size limit"
      match bodyDecode record.type record.state record.sessionId record.body with
      | .error error => .error ⟨.misuse, error.message⟩
      | .ok _ => .ok (recordBytes record uuid,
          RecordDigest.sha256 (recordFields record uuid).flatten)

def checkSession (type : RecordType) (uuid : Uuid) : Option Bytes → Except Err Unit
  | some expected =>
    check (uuidDecode expected = some uuid) .auth "session record UUID does not match the request"
  | none =>
    check (type = .publication ∨ type = .history) .misuse
      "session UUID is required for this record"

def recordDecode (data : Bytes) (expectedSessionId : Option Bytes) (expectedScopeHash : Option Hash) :
    Except Err (SessionRecord × Hash) := do
  check (headerBytes + trailerBytes ≤ data.length) .corrupt "truncated session record"
  check (data.length ≤ recordMaxBytes) .tooBig "session record exceeds size limit"
  check (slice data 0 8 = recordMagic ∧ getBe (slice data 8 2) = recordVersion) .corrupt
    "unknown session record format"
  match typeOfCode (getBe (slice data 10 1)), stateOfCode (getBe (slice data 11 1)),
      outcomeOfCode (getBe (slice data 12 1)) with
  | some type, some state, some outcome => do
      check (validTypeState type state outcome = true ∧ getBe (slice data 13 1) = 0 ∧
          getBe (slice data 14 2) = 0 ∧ getBe (slice data 16 4) = headerBytes) .corrupt
        "invalid session record header"
      let nBody := getBe (slice data 160 4)
      check (getBe (slice data 20 4) = data.length ∧
          nBody ≤ data.length - headerBytes - trailerBytes ∧
          getBe (slice data 20 4) = headerBytes + nBody + trailerBytes ∧
          getBe (slice data 164 4) = 0) .corrupt "invalid session record length"
      let hash := RecordDigest.sha256 (slice data 0 (data.length - trailerBytes))
      check (hash.1 = slice data (data.length - trailerBytes) hashBytes) .corrupt
        "session record integrity check failed"
      let uuid : Uuid := Fixed.read 16 data 48
      check (allZero uuid.1 = false) .corrupt "session record UUID is empty"
      check (requiresOperationId type state = true → allZero (slice data 128 32) = false) .corrupt
        "session record operation ID is empty"
      checkSession type uuid expectedSessionId
      check (∃ scope ∈ expectedScopeHash, allZero scope.1 = false ∧ slice data 64 32 = scope.1) .auth
        "session record scope does not match the request"
      let iCreated := getBe (slice data 32 8)
      let iExpires := getBe (slice data 40 8)
      if bounded : iCreated < 2 ^ 63 ∧ iExpires < 2 ^ 63 then do
        let record : SessionRecord :=
          { type := type
            state := state
            outcome := outcome
            sequence := Fin.ofNat (2 ^ 64) (getBe (slice data 24 8))
            created := Time.ofNat iCreated bounded.1
            expires := Time.ofNat iExpires bounded.2
            sessionId := uuidEncode uuid
            scopeHash := Fixed.read 32 data 64
            predecessorHash := Fixed.read 32 data 96
            operationId := Fixed.read 32 data 128
            body := slice data headerBytes nBody }
        check record.validTime .corrupt "invalid session record expiration"
        match bodyDecode type state record.sessionId record.body with
        | .error error => .error ⟨.corrupt, error.message⟩
        | .ok _ => .ok (record, hash)
      else .error ⟨.corrupt, "invalid session record expiration"⟩
  | _, _, _ => .error ⟨.corrupt, "invalid session record header"⟩

end

end RusqDoltlite.Codec

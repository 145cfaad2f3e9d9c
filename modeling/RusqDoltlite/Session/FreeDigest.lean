import RusqDoltlite.Session.System

/-! A digest without collisions and a small manifest codec, with which the system can be
evaluated on concrete stores. -/

namespace RusqDoltlite.Session

open Effects

/-- A hash that remembers what was hashed. -/
inductive Tree where
  | leaf (value : Nat)
  | node (left right : Tree)
deriving DecidableEq, Repr

namespace Tree

def ofList : List Tree → Tree
  | [] => .leaf 0
  | first :: rest => .node first (ofList rest)

def ofBytes (bytes : Bytes) : Tree := ofList (bytes.map fun byte => .leaf byte.toNat)

def ofString (text : String) : Tree := ofList (text.toList.map fun char => .leaf char.toNat)

def ofOption : Option Tree → Tree
  | none => .leaf 0
  | some tree => .node (.leaf 0) tree

def ofState : RecordState → Tree
  | .opened => .leaf 0
  | .accepted => .leaf 1
  | .publishing => .leaf 2
  | .committed => .leaf 3
  | .aborted => .leaf 4
  | .expired => .leaf 5

def ofOutcome : Outcome → Tree
  | .none => .leaf 0
  | .success => .leaf 1
  | .failure => .leaf 2
  | .conflict => .leaf 3

def ofRecord {Body : Type} (type : Nat) (ofBody : Body → Tree) (record : Record Tree Body) : Tree :=
  ofList [.leaf type, ofState record.state, ofOutcome record.outcome, .leaf record.sequence,
    .leaf record.created, .leaf record.expires, .leaf record.sessionId.bits, record.scopeHash,
    record.predecessorHash, record.operationId, ofBody record.body]

def ofCheckpoint (body : CheckpointBody Tree) : Tree :=
  ofList [.leaf body.fileSize, ofBytes body.baseManifestETag.text, ofBytes body.manifest,
    ofOption body.baseCheckpointHash]

def ofHead (body : HeadBody Tree) : Tree :=
  ofList [body.checkpointHash, body.candidateManifestHash, body.historyHeadHash,
    ofList body.historyOperations, ofBytes body.baseManifestETag.text]

def ofPublication (body : PublicationBody Tree) : Tree :=
  ofList [body.checkpointHash, body.candidateManifestHash, ofBytes body.baseManifestETag.text]

def ofHistory (body : HistoryBody Tree) : Tree :=
  .node body.historyHeadHash (ofList body.historyOperations)

end Tree

instance : Digest Tree where
  zero := .leaf 0
  scope scope := .ofList [.leaf 1, .ofString scope.principal, .ofString scope.database,
    .ofString scope.operations]
  storageScope := .leaf 2
  manifest bytes := .node (.leaf 3) (.ofBytes bytes)
  checkpoint := .ofRecord 4 .ofCheckpoint
  head := .ofRecord 5 .ofHead
  publication := .ofRecord 6 .ofPublication
  history := .ofRecord 7 .ofHistory

namespace Tree

@[simp] theorem ofList_inj {left right : List Tree} : ofList left = ofList right ↔ left = right := by
  induction left generalizing right with
  | nil => cases right <;> simp [ofList]
  | cons first rest ih => cases right <;> simp [ofList, ih]

@[simp] theorem ofBytes_inj {left right : Bytes} : ofBytes left = ofBytes right ↔ left = right := by
  unfold ofBytes
  rw [ofList_inj]
  refine List.map_inj_right fun one other same => ?_
  simpa [UInt8.toNat_inj] using same

@[simp] theorem ofString_inj {left right : String} : ofString left = ofString right ↔ left = right := by
  unfold ofString
  rw [ofList_inj, List.map_inj_right fun one other same => ?_, String.toList_inj]
  simpa [Char.toNat_inj] using same

@[simp] theorem ofOption_inj {left right : Option Tree} :
    ofOption left = ofOption right ↔ left = right := by
  cases left <;> cases right <;> simp [ofOption]

@[simp] theorem ofState_inj {left right : RecordState} :
    ofState left = ofState right ↔ left = right := by
  cases left <;> cases right <;> simp [ofState]

@[simp] theorem ofOutcome_inj {left right : Outcome} :
    ofOutcome left = ofOutcome right ↔ left = right := by
  cases left <;> cases right <;> simp [ofOutcome]

theorem ofRecord_injective {Body : Type} {type : Nat} {ofBody : Body → Tree}
    (injective : Function.Injective ofBody) : Function.Injective (ofRecord type ofBody) := by
  intro left right same
  obtain ⟨_, _, _, _, _, ⟨leftId, _⟩, _, _, _, _⟩ := left
  obtain ⟨_, _, _, _, _, ⟨rightId, _⟩, _, _, _, _⟩ := right
  simpa [ofRecord, injective.eq_iff] using same

theorem ofCheckpoint_injective : Function.Injective ofCheckpoint := by
  rintro ⟨_, ⟨_, _⟩, _, _⟩ ⟨_, ⟨_, _⟩, _, _⟩ same
  simpa [ofCheckpoint] using same

theorem ofHead_injective : Function.Injective ofHead := by
  rintro ⟨_, _, _, _, ⟨_, _⟩⟩ ⟨_, _, _, _, ⟨_, _⟩⟩ same
  simpa [ofHead] using same

theorem ofPublication_injective : Function.Injective ofPublication := by
  rintro ⟨_, _, ⟨_, _⟩⟩ ⟨_, _, ⟨_, _⟩⟩ same
  simpa [ofPublication] using same

theorem ofHistory_injective : Function.Injective ofHistory := by
  rintro ⟨_, _⟩ ⟨_, _⟩ same
  simpa [ofHistory] using same

theorem collisionFree : CollisionFree Tree where
  scope left right same := by
    obtain ⟨_, _, _⟩ := left
    obtain ⟨_, _, _⟩ := right
    simpa [Digest.scope] using same
  manifest left right same := by simpa [Digest.manifest] using same
  checkpoint := ofRecord_injective ofCheckpoint_injective
  head := ofRecord_injective ofHead_injective
  publication := ofRecord_injective ofPublication_injective
  history := ofRecord_injective ofHistory_injective
  scope_ne_zero scope same := by cases same
  storageScope_ne_zero same := by cases same
  manifest_ne_zero bytes same := by cases same
  checkpoint_ne_zero record same := by cases same

end Tree

/-- Manifests of one database whose block ids are single bytes: the encoded form lists
the ids. -/
def byteManifest (bytes : Bytes) : Manifest :=
  let blocks := bytes.map fun byte => [byte]
  { szBlk := 512
    nameBytes := 1
    maxDbId := 1
    dbs := [⟨1, 0, "main", 1, 0, blocks, blocks, false⟩]
    delBlk := []
    etag := none }

instance : ManifestCodec where
  compose man := (man.dbs.flatMap ManifestDb.blkOrig).flatten
  parse bytes := .ok (byteManifest bytes)

def letters (count : Nat) : ETag where
  text := List.replicate (count % 64 + 1) 0x61
  valid := by
    refine ⟨by simp, ?_, fun byte member => ?_⟩
    · rw [List.length_replicate, maxEtagBytes]
      omega
    · rw [List.eq_of_mem_replicate member]
      decide

/-- A store without faults under a clock that stands still; local state is whatever the
container holds. -/
def stillService : Service ETag Err Query Reply where
  tag := letters
  refusal := ⟨.other 412, "precondition failed"⟩
  reply
    | .timestamp => 0
    | .currentTime => some 0
    | .walNonEmpty _ _ => .ok false
    | .stageDirty man => (man.dbs, .ok ())
    | .verifyMappings _ _ => .ok ()
    | .installOverlay _ => .ok ()
    | .prepareUpload man _ => .ok { man with dbs := man.dbs.map fun db =>
      { db with blkOrig := db.blkLocal, localAlloc := false, version := db.version + 1 } }
    | .mergeLocal _ uploaded => .ok uploaded.dbs
    | .manifestUpdate _ fetched => .ok fetched
    | .localChanges _ => .ok false

def oneBlock : Objects Tree where
  versions
    | .manifest => [⟨letters 0, [1]⟩]
    | .candidate _ | .head _ | .checkpoint _ _ | .history _ _ | .publication => []

theorem oneBlock_fresh : oneBlock.fresh := by
  intro key other
  cases key <;> first | rfl | exact absurd rfl other

def oneBinding : Binding := ⟨⟨1, by decide⟩, ⟨"client", "main", "write"⟩⟩

def oneSession : SessionId := oneBinding.sessionId

def writeBlock (block : UInt8) : Call Tree :=
  .write [⟨1, 0, "main", 1, 0, [[1]], [[block]], true⟩] [] (some 512)

def invocation (pid : Nat) (binding : Binding) (operationId : Tree) (block : UInt8)
    (last : Call Tree) (count : Nat) : List (Action (Call Tree)) :=
  [.start pid (.attachScoped binding operationId), .serve pid 100, .finish pid,
    .start pid (writeBlock block), .finish pid, .start pid last, .serve pid count]

end RusqDoltlite.Session

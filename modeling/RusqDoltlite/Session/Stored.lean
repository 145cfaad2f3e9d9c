import RusqDoltlite.Session.ApiContract

/-! What the objects of a container satisfy in every run, whatever the interleaving: each
is filed under the key it belongs to, and the heads that are not committed rest on a
stored checkpoint. -/

namespace RusqDoltlite.Session

open Effects

variable {Hash : Type} [DecidableEq Hash] [Digest Hash]

def Key.createOnly : Key Hash → Bool
  | .candidate _ | .checkpoint _ _ | .history _ _ => true
  | .manifest | .head _ | .publication => false

/-- The head names a checkpoint stored for its session that has its operation and its
sequence, and whose manifest hashes to its candidate. -/
def Consistent (store : Objects Hash) (sessionId : SessionId) (head : Head Hash) : Prop :=
  ∃ version ∈ store.versions (.checkpoint sessionId head.body.checkpointHash),
    version.blob.record.operationId = head.operationId ∧
    version.blob.record.sequence = head.sequence ∧
    Digest.manifest version.blob.record.body.manifest = head.body.candidateManifestHash

instance (store : Objects Hash) (sessionId : SessionId) (head : Head Hash) :
    Decidable (Consistent store sessionId head) :=
  inferInstanceAs (Decidable (∃ version ∈ _, _))

def Backed (store : Objects Hash) (sessionId : SessionId) (head : Head Hash) : Prop :=
  ∃ version ∈ store.versions (.checkpoint sessionId head.body.checkpointHash),
    version.blob.record.operationId = head.operationId ∧
    version.blob.record.sequence = head.sequence ∧
    Digest.manifest version.blob.record.body.manifest = head.body.candidateManifestHash ∧
    version.blob.record.scopeHash = head.scopeHash ∧
    version.blob.record.body.baseManifestETag = head.body.baseManifestETag

def Held (store : Objects Hash) (candidateHash : Hash) : Prop :=
  ∃ shown ∈ store.versions .manifest, Digest.manifest shown.blob = candidateHash

/-- A pending publication head has its candidate stored, a committed one has had it
visible. -/
def Settled (store : Objects Hash) (publication : Publication Hash) : Prop :=
  (publication.state = .publishing ∧
    ∃ copy ∈ store.versions (.candidate publication.body.candidateManifestHash),
      Digest.manifest copy.blob = publication.body.candidateManifestHash ∧ copy.blob ≠ []) ∨
  publication.state = .committed ∧ Held store publication.body.candidateManifestHash

def Sourced (store : Objects Hash) (publication : Publication Hash) : Prop :=
  ∃ version ∈ store.versions (.checkpoint publication.sessionId publication.body.checkpointHash),
    Digest.manifest version.blob.record.body.manifest = publication.body.candidateManifestHash ∧
    version.blob.record.body.baseManifestETag = publication.body.baseManifestETag

def Filed (store : Objects Hash) : (key : Key Hash) → Blob key → Prop
  | .manifest, _ => True
  | .candidate hash, bytes => Digest.manifest bytes = hash
  | .head sessionId, encoded => encoded.record.sessionId = sessionId ∧
      (encoded.record.state ≠ .committed → Backed store sessionId encoded.record)
  | .checkpoint sessionId hash, encoded =>
    encoded.recordHash = hash ∧ encoded.record.sessionId = sessionId
  | .history sessionId hash, encoded =>
    encoded.recordHash = hash ∧ encoded.record.sessionId = sessionId
  | .publication, encoded => encoded.record.scopeHash = Digest.storageScope ∧
      Sourced store encoded.record ∧ Settled store encoded.record

structure StoredInvariant (store : Objects Hash) : Prop where
  unique : ∀ key : Key Hash, key.createOnly = true → store.Unique key
  filed : ∀ key, ∀ version ∈ store.versions key, Filed store key version.blob

variable {publication : Publication Hash} {key : Key Hash} {blob : Blob key} {condition : Condition ETag}
  {store : Objects Hash}

section
variable {store after : Objects Hash} {sessionId : SessionId} {head : Head Hash}

theorem Backed.consistent (backed : Backed store sessionId head) :
    Consistent store sessionId head := by
  obtain ⟨version, held, operation, sequence, digest, _⟩ := backed
  exact ⟨version, held, operation, sequence, digest⟩

theorem Consistent.grow (consistent : Consistent store sessionId head) (grows : store.Grows after) :
    Consistent after sessionId head := by
  obtain ⟨version, held, rest⟩ := consistent
  exact ⟨version, grows.mem held, rest⟩

theorem Backed.grow (backed : Backed store sessionId head) (grows : store.Grows after) :
    Backed after sessionId head := by
  obtain ⟨version, held, rest⟩ := backed
  exact ⟨version, grows.mem held, rest⟩

theorem Held.grow {candidateHash : Hash} (held : Held store candidateHash)
    (grows : store.Grows after) : Held after candidateHash := by
  obtain ⟨shown, there, same⟩ := held
  exact ⟨shown, grows.mem there, same⟩

theorem Settled.grow (settled : Settled store publication) (grows : store.Grows after) :
    Settled after publication := by
  rcases settled with ⟨state, copy, there, rest⟩ | ⟨state, held⟩
  · exact .inl ⟨state, copy, grows.mem there, rest⟩
  · exact .inr ⟨state, held.grow grows⟩

theorem Sourced.grow (sourced : Sourced store publication) (grows : store.Grows after) :
    Sourced after publication := by
  obtain ⟨version, held, rest⟩ := sourced
  exact ⟨version, grows.mem held, rest⟩

theorem Filed.grow (filed : Filed store key blob) (grows : store.Grows after) : Filed after key blob := by
  cases key with
  | head sessionId => exact ⟨filed.1, fun state => (filed.2 state).grow grows⟩
  | publication => exact ⟨filed.1, filed.2.1.grow grows, filed.2.2.grow grows⟩
  | _ => exact filed

variable {admits : Admission Hash} {log : OpLog Hash} {candidate : Candidate Hash}
variable {checkpoint : Checkpoint Hash}

theorem Candidate.Loaded.held (loaded : candidate.Loaded log sessionId checkpoint)
    (traced : Traced admits store log) :
    ∃ version ∈ store.versions (.checkpoint sessionId candidate.checkpointHash),
      version.blob.record = checkpoint := by
  obtain ⟨⟨version, saw, same⟩, _⟩ := loaded
  exact ⟨version, traced.held saw, same⟩

theorem Candidate.Loaded.backed (loaded : candidate.Loaded log sessionId checkpoint)
    (traced : Traced admits store log) (about : head.body.About candidate)
    (operation : head.operationId = checkpoint.operationId)
    (sequence : head.sequence = checkpoint.sequence)
    (scope : head.scopeHash = checkpoint.scopeHash) : Backed store sessionId head := by
  obtain ⟨version, held, same⟩ := loaded.held traced
  obtain ⟨_, bytes, digest, base⟩ := loaded
  obtain ⟨named, hash, headBase⟩ := about
  refine ⟨version, named ▸ held, ?_, ?_, ?_, ?_, ?_⟩
  · rw [same, operation]
  · rw [same, sequence]
  · rw [same, hash, digest, bytes]
  · rw [same, scope]
  · rw [same, headBase, base]

/-- The checkpoint a stored head names is the one a call has loaded under that name: the
object has only one version. -/
theorem StoredInvariant.named (inv : StoredInvariant store) (traced : Traced admits store log)
    (loaded : candidate.Loaded log sessionId checkpoint)
    {version : Version ETag (Encoded Hash (CheckpointBody Hash))}
    (held : version ∈ store.versions (.checkpoint sessionId candidate.checkpointHash)) :
    version.blob.record = checkpoint := by
  obtain ⟨other, otherHeld, same⟩ := loaded.held traced
  rw [inv.unique (.checkpoint sessionId candidate.checkpointHash) rfl version held other otherHeld,
    same]

theorem HeadWrite.backed (inv : StoredInvariant store) (traced : Traced admits store log)
    (write : HeadWrite log sessionId head condition) (pending : head.state ≠ .committed) :
    Backed store sessionId head := by
  cases write with
  | claim _ loaded about operation sequence scope _ =>
    exact loaded.backed traced about operation sequence scope
  | accept _ loaded about operation sequence scope _ =>
    exact loaded.backed traced about operation sequence scope
  | @promote stored candidate checkpoint _ saw accepted loaded named about operation sequence scope
      _ =>
      have waiting : stored.blob.record.state ≠ .committed := by
        rw [accepted]
        decide
      obtain ⟨version, held, sameOperation, sameSequence, _, sameScope, _⟩ :=
        (inv.filed (.head sessionId) stored (traced.held saw)).2 waiting
      rw [named] at held
      have same := inv.named traced loaded held
      refine loaded.backed traced about ?_ ?_ ?_
      · rw [operation, ← sameOperation, same]
      · rw [sequence, ← sameSequence, same]
      · rw [scope, ← sameScope, same]
  | commit state _ _ _ _ _ _ _ _ _ => exact absurd state pending

theorem PublicationWrite.settled (write : PublicationWrite log publication) (traced : Traced admits store log) :
    Settled store publication := by
  obtain ⟨_, evidence⟩ := write
  split at evidence
  · rename_i state
    obtain ⟨copy, saw, rest⟩ := evidence
    exact .inl ⟨state, copy, traced.held saw, rest⟩
  · rename_i state
    obtain ⟨bytes, ⟨shown, saw, same⟩, digest⟩ := evidence
    exact .inr ⟨state, shown, traced.held saw, same ▸ digest⟩
  · exact evidence.elim

theorem Named.sourced (inv : StoredInvariant store) (named : Named log publication)
    (traced : Traced admits store log) :
    Sourced store publication := by
  rcases named with ⟨candidate, checkpoint, loaded, body⟩ | ⟨version, saw, session, body⟩
  · obtain ⟨version, held, same⟩ := loaded.held traced
    obtain ⟨_, bytes, digest, base⟩ := loaded
    rw [Sourced, body]
    refine ⟨version, held, ?_, ?_⟩
    · rw [same, ← bytes]
      exact digest.symm
    · rw [same]
      exact base.symm
  · have sourced := (inv.filed .publication version (traced.held saw)).2.1
    rwa [Sourced, session, body] at sourced

variable {call : Call Hash} {start : Container Hash}

theorem Permit.absent (permit : Permit call start log (.put key condition blob))
    (createOnly : key.createOnly = true) :
    condition = .absent := by
  cases key with
  | candidate hash => exact permit.1
  | checkpoint sessionId hash => exact permit.1
  | history sessionId hash => exact permit.1
  | _ => cases createOnly

theorem Permit.filed (inv : StoredInvariant store) (traced : Traced admits store log)
    (permit : Permit call start log (.put key condition blob)) : Filed store key blob := by
  cases key with
  | manifest => trivial
  | candidate hash => exact permit.2
  | head sessionId => exact ⟨permit.2.1, fun pending => permit.1.backed inv traced pending⟩
  | checkpoint sessionId hash => exact permit.2
  | history sessionId hash => exact permit.2
  | publication => exact ⟨permit.2, permit.1.1.sourced inv traced, permit.1.settled traced⟩

end

theorem StoredInvariant.step {call : Call Hash} {start : Container Hash} {admits : Admission Hash}
    {after : Objects Hash} {log : OpLog Hash} {request : Req Hash} {answer : Ans Hash request}
    (inv : StoredInvariant store) (traced : Traced admits store log) (permit : Permit call start log request)
    (served : Serves store request answer after) :
    StoredInvariant after where
  unique key createOnly := by
    refine (inv.unique key createOnly).serves served fun condition blob same => ?_
    subst same
    exact permit.absent createOnly
  filed := by
    refine served.preserves (fun key version stored => ?_) fun key condition blob same => ?_
    · exact (inv.filed key version stored).grow served.grows
    · subst same
      exact (permit.filed inv traced).grow served.grows

theorem StoredInvariant.write {version : Version ETag (Blob key)} (inv : StoredInvariant store)
    (filed : Filed store key version.blob) (creates : key.createOnly = true → store.current key = none) :
    StoredInvariant (store.write key version) := by
  have grows := store.write_grows key version
  constructor
  · intro other createOnly
    by_cases same : other = key
    · subst same
      have empty : store.versions other = [] := List.head?_eq_none_iff.mp (creates createOnly)
      simp [Store.Unique, empty]
    · rw [Store.Unique, store.write_versions_other version same]
      exact inv.unique other createOnly
  · intro other stored held
    by_cases same : other = key
    · subst same
      rw [store.write_versions_same, List.mem_cons] at held
      rcases held with rfl | earlier
      · exact filed.grow grows
      · exact (inv.filed other stored earlier).grow grows
    · rw [store.write_versions_other version same] at held
      exact (inv.filed other stored held).grow grows

theorem StoredInvariant.fresh (fresh : store.fresh) : StoredInvariant store := by
  refine ⟨fun key createOnly one here => ?_, fun key version here => ?_⟩
  · rw [fresh key (by rintro rfl; cases createOnly)] at here
    cases here
  · by_cases manifest : key = .manifest
    · subst manifest
      trivial
    · rw [fresh key manifest] at here
      cases here

def storedCertificate [ManifestCodec] (starts : Container Hash → Call Hash → Prop)
    (admits : Admission Hash) : Certificate (clients starts admits) where
  inv := StoredInvariant
  rule := Permit
  post := Established
  body_obeys _ := api_obeys _ _
  step_inv inv traced permit served _ := inv.step traced permit served

theorem storedCertificate_initial [ManifestCodec] {starts : Container Hash → Call Hash → Prop}
    {admits : Admission Hash} (fresh : store.fresh) (names : Nat → String) :
    (storedCertificate starts admits).Holds (Pool.initial store names) :=
  ⟨.fresh fresh, fun _ => trivial⟩

end RusqDoltlite.Session

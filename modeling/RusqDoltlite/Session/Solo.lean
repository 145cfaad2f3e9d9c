import RusqDoltlite.Effects.Alone
import RusqDoltlite.Session.Stored

/-! The fetch and PUT helpers of the session code when nothing fails and no one else is active. What
they write can be encoded: what the encoder checks of a head or publication head that follows a
stored record, it has checked of that record. -/

namespace RusqDoltlite.Session

open Effects

variable {Hash : Type} [DecidableEq Hash] [Digest Hash]

section
variable {Body : Type} [SessionBody Hash Body]

theorem recordCheck_eq_ok {record : Record Hash Body} : recordCheck record = .ok () ↔
    validTypeState (SessionBody.type Body) record.state record.outcome = true ∧
      record.scopeHash ≠ Digest.zero ∧
      (requiresOperationId (SessionBody.type Body) record.state = true →
        record.operationId ≠ Digest.zero) ∧
      validTime record.created record.expires = true ∧
      headerBytes + SessionBody.bytes record.body + trailerBytes ≤ recordMaxBytes ∧
      SessionBody.decode record.state record.body = .ok () := by
  simp only [recordCheck, check_bind_eq_ok]
  cases decoded : SessionBody.decode record.state record.body <;> simp

theorem recordEncode_exists {record : Record Hash Body} (checked : recordCheck record = .ok ()) :
    ∃ encoded : Encoded Hash Body, recordEncode record = .ok encoded ∧ encoded.record = record :=
  ⟨⟨record, checked⟩, recordEncode_of_check checked, rfl⟩

end

theorem validTime_ttl (now : Nat) : validTime now (now + ttlMilliseconds) = true := by
  simp [validTime, ttlMilliseconds]

theorem headDecode_eq_ok {state : RecordState} {body : HeadBody Hash} :
    SessionBody.decode state body = .ok () ↔
      (body.historyOperations.length ≤ maxHistoryOperations ∧
        (state ≠ .opened → body.checkpointHash ≠ Digest.zero) ∧
        (state = .publishing ∨ state = .committed → body.candidateManifestHash ≠ Digest.zero)) ∧
      Digest.zero ∉ body.historyOperations := by
  simp only [SessionBody.decode, check_bind_eq_ok, check_eq_ok]

theorem HeadBody.bytes_le {body : HeadBody Hash}
    (few : body.historyOperations.length ≤ maxHistoryOperations) :
    SessionBody.bytes body ≤ bodyMaxBytes := by
  have etag := body.baseManifestETag.valid.2.1
  simp only [SessionBody.bytes, bodyMaxBytes, recordMaxBytes, headerBytes, hashBytes,
    maxHistoryOperations, maxEtagBytes] at *
  omega

theorem PublicationBody.bytes_le {body : PublicationBody Hash} : SessionBody.bytes body ≤ bodyMaxBytes := by
  have etag := body.baseManifestETag.valid.2.1
  simp only [SessionBody.bytes, bodyMaxBytes, recordMaxBytes, headerBytes, hashBytes,
    maxEtagBytes] at *
  omega

theorem record_fits {size : Nat} : headerBytes + size + trailerBytes ≤ recordMaxBytes ↔
    size ≤ bodyMaxBytes := by
  simp only [bodyMaxBytes, recordMaxBytes, headerBytes, hashBytes, trailerBytes]
  omega

theorem sessionEncodeHeadStateEx_exists (old : Record Hash Unit) (oldHash : Hash)
    {state : RecordState} (outcome : Outcome) {body : HeadBody Hash}
    (typed : validTypeState .head state outcome = true) (scope : old.scopeHash ≠ Digest.zero)
    (operation : old.operationId ≠ Digest.zero) (time : validTime old.created old.expires = true)
    (decodes : SessionBody.decode state body = .ok ()) :
    ∃ encoded, sessionEncodeHeadStateEx old oldHash state outcome body.checkpointHash
        body.candidateManifestHash body.baseManifestETag body.historyHeadHash
        body.historyOperations = .ok encoded ∧
      encoded.record =
        { old with
          state := state
          outcome := outcome
          predecessorHash :=
            if old.state ≠ state ∨ old.outcome ≠ outcome then oldHash else old.predecessorHash
          body := body } := by
  have few := (headDecode_eq_ok.mp decodes).1.1
  have small : SessionBody.bytes body ≤ bodyMaxBytes := HeadBody.bytes_le few
  have checked : recordCheck ({ old with
      state := state
      outcome := outcome
      predecessorHash :=
        if old.state ≠ state ∨ old.outcome ≠ outcome then oldHash else old.predecessorHash
      body := body } : Head Hash) = .ok () := by
    rw [recordCheck_eq_ok]
    exact ⟨typed, scope, fun _ => operation, time, record_fits.mpr small, decodes⟩
  obtain ⟨encoded, success, same⟩ := recordEncode_exists checked
  refine ⟨encoded, ?_, same⟩
  simp only [sessionEncodeHeadStateEx, check_bind_eq_ok]
  exact ⟨few, small, success⟩

theorem sessionEncodeHeadState_exists {old : Encoded Hash (HeadBody Hash)}
    {candidate : Candidate Hash} (pending : old.record.state = .publishing)
    (about : old.record.body.About candidate) :
    ∃ encoded, sessionEncodeHeadState old .committed .success candidate = .ok encoded ∧
      encoded.record.outcome = .success ∧ encoded.record.sessionId = old.record.sessionId := by
  obtain ⟨_, scope, operation, time, _, decodes⟩ := recordCheck_eq_ok.mp old.checked
  rw [pending] at operation decodes
  obtain ⟨⟨few, named, hashed⟩, nonzero⟩ := headDecode_eq_ok.mp decodes
  have committed : SessionBody.decode .committed old.record.body = .ok () :=
    headDecode_eq_ok.mpr ⟨⟨few, fun _ => named (by decide), fun _ => hashed (.inl rfl)⟩, nonzero⟩
  obtain ⟨encoded, success, same⟩ := sessionEncodeHeadStateEx_exists old.record.header
    old.recordHash .success rfl scope (operation rfl) time committed
  refine ⟨encoded, ?_, by rw [same], by rw [same]; rfl⟩
  obtain ⟨checkpoint, hash, base⟩ := about
  rwa [checkpoint, hash, base] at success

theorem recordCheck_publication {record : Publication Hash}
    (typed : validTypeState .publication record.state record.outcome = true)
    (scope : record.scopeHash ≠ Digest.zero)
    (time : validTime record.created record.expires = true)
    (checkpoint : record.body.checkpointHash ≠ Digest.zero)
    (candidate : record.body.candidateManifestHash ≠ Digest.zero) :
    recordCheck record = .ok () := by
  rw [recordCheck_eq_ok]
  refine ⟨typed, scope, ?_, time, record_fits.mpr PublicationBody.bytes_le, ?_⟩
  · intro required
    cases required
  · simp [SessionBody.decode, check, checkpoint, candidate]

/-- What the local side of an attachment answers when nothing fails: the readings of the
clock, the mapping after all dirty blocks have been staged, and the databases whose WAL
holds frames. -/
structure Machine where
  clock : Nat → Prop
  staged : Manifest → List ManifestDb
  walFrames : Manifest → String → Bool

def Working (machine : Machine) : (query : Query) → Reply query → Prop
  | .timestamp, now => machine.clock now
  | .currentTime, now => ∃ time, now = some time ∧ machine.clock time
  | .walNonEmpty man database, reply => reply = .ok (machine.walFrames man database)
  | .stageDirty man, reply => reply = (machine.staged man, .ok ())
  | .verifyMappings _ _, reply => reply = .ok ()
  | .installOverlay _, reply => reply = .ok ()
  | .prepareUpload _ _, reply => ∃ man, reply = .ok man
  | .mergeLocal _ _, reply => ∃ dbs, reply = .ok dbs
  | .manifestUpdate _ _, reply => ∃ man, reply = .ok man
  | .localChanges _, reply => ∃ dirty, reply = .ok dirty

/-- The machine where the clock is at 0, nothing is dirty and no WAL has a frame. -/
def stillMachine : Machine := ⟨fun now => now = 0, Manifest.dbs, fun _ _ => false⟩

section
variable {machine : Machine} {store : Objects Hash}

theorem timestamp_yields :
    Yields (Working machine) (fun now after => machine.clock now ∧ after = store) timestamp store := by
  simp [Yields, timestamp, Working]

theorem getObject_reads (key : Key Hash) (site : Site Hash) :
    Reads (Working machine) (store.current key) (getObject key site) store := by
  simp [Reads, Yields, getObject]

theorem putObject_yields {key : Key Hash} {condition : Condition ETag} {blob : Blob key}
    (admits : store.Admits key condition) :
    Yields (Working machine) (fun etag after => store.Coherent key ⟨etag, blob⟩ ∧
      after = store.write key ⟨etag, blob⟩) (putObject key condition blob) store := by
  simp [Yields, putObject, admits]

theorem sessionFetched_reads {Body : Type} [SessionBody Hash Body] {sessionId : Option SessionId}
    {scopeHash : Hash} {objectId : Option Hash} {mismatch : String}
    {version : Version ETag (Encoded Hash Body)}
    (sameScope : version.blob.record.scopeHash = scopeHash)
    (owner : ∀ expected ∈ sessionId, version.blob.record.sessionId = expected)
    (typed : sessionId = none → SessionBody.type Body = .publication ∨
      SessionBody.type Body = .history)
    (named : ∀ hash ∈ objectId, version.blob.recordHash = hash) :
    Reads (Working machine) (some version)
      (sessionFetched sessionId scopeHash objectId mismatch (some version)) store := by
  unfold sessionFetched
  apply Yields.ofExcept_bind (recordDecode_own sameScope owner typed)
  apply Yields.require_bind named
  exact Reads.done

theorem sessionReadHead_reads {binding : Binding} {site : Site Hash} {stored : StoredHead Hash}
    (here : store.current (.head binding.sessionId) = some stored)
    (session : stored.blob.record.sessionId = binding.sessionId)
    (scope : stored.blob.record.scopeHash = binding.scopeHash) :
    Reads (Working machine) (some stored) (sessionReadHead binding site) store := by
  apply (getObject_reads _ site).bind
  rw [here]
  apply sessionFetched_reads scope
  · simpa using session
  · simp
  · simp

theorem sessionReadHead_absent {binding : Binding} {site : Site Hash}
    (absent : store.current (.head binding.sessionId) = none) :
    Reads (Working machine) none (sessionReadHead binding site) store := by
  apply (getObject_reads _ site).bind
  rw [absent]
  exact Reads.done

theorem sessionFetchCheckpoint_reads {sessionId : SessionId} {scopeHash hash : Hash}
    {version : Version ETag (Encoded Hash (CheckpointBody Hash))} (present : hash ≠ Digest.zero)
    (here : store.current (.checkpoint sessionId hash) = some version)
    (filed : Filed store (.checkpoint sessionId hash) version.blob)
    (scope : version.blob.record.scopeHash = scopeHash) :
    Reads (Working machine) (some version) (sessionFetchCheckpoint sessionId scopeHash hash) store := by
  apply Yields.require_bind present
  apply (getObject_reads _ .other).bind
  rw [here]
  apply sessionFetched_reads scope
  · simpa using filed.2
  · simp
  · simpa using filed.1

theorem sessionFetchPublication_reads
    (filed : ∀ version ∈ store.current .publication, Filed store .publication version.blob) :
    Reads (Working machine) (store.current .publication) sessionFetchPublication store := by
  apply (getObject_reads _ .other).bind
  cases here : store.current .publication with
  | none => exact Reads.done
  | some version =>
    apply sessionFetched_reads (filed version here).1
    · simp
    · exact fun _ => .inl rfl
    · simp

theorem sessionManifestFetch_reads {manifest : Version ETag Bytes}
    (here : store.current .manifest = some manifest) (small : manifest.blob.length ≤ bodyMaxBytes) :
    Reads (Working machine) manifest sessionManifestFetch store := by
  apply (getObject_reads _ .other).bind
  rw [here]
  exact Yields.require_bind small Reads.done

theorem sessionCandidateFetch_reads {hash : Hash} (present : hash ≠ Digest.zero)
    (small : ∀ version ∈ store.current (.candidate hash), version.blob.length ≤ bodyMaxBytes) :
    Reads (Working machine) (store.current (.candidate hash)) (sessionCandidateFetch hash) store := by
  apply Yields.require_bind present
  apply (getObject_reads _ .other).bind
  cases here : store.current (.candidate hash) with
  | none => exact Reads.done
  | some version => exact Yields.require_bind (small version here) Reads.done

variable {β : Type}

theorem putObject_refused {key : Key Hash} {condition : Condition ETag} {blob : Blob key}
    {next : Except Err ETag → Op Hash β} {final : Except Err β → Objects Hash → Prop}
    (refused : ¬store.Admits key condition)
    (rest : ∀ failure, Alone (Working machine) final (next (.error failure)) store) :
    Alone (Working machine) final ((putObject key condition blob).attempt >>= next) store := by
  simpa [putObject, refused] using rest

/-- The candidate is stored, or already there: no other bytes have its hash. -/
theorem sessionCandidatePut_yields (free : CollisionFree Hash) (inv : StoredInvariant store)
    {bytes : Bytes} (nonempty : bytes ≠ []) (small : bytes.length ≤ bodyMaxBytes) :
    Yields (Working machine)
      (fun _ after => StoredInvariant after ∧
        (∃ copy ∈ after.versions (.candidate (Digest.manifest bytes)), copy.blob = bytes) ∧
        ∀ key ≠ .candidate (Digest.manifest bytes), after.versions key = store.versions key)
      (sessionCandidatePut (Digest.manifest bytes) bytes) store := by
  apply Yields.require_bind nonempty
  apply Yields.require_bind small
  apply Yields.require_bind (free.manifest_ne_zero bytes)
  cases here : store.current (.candidate (Digest.manifest bytes)) with
  | none =>
    have admits : store.Admits (.candidate (Digest.manifest bytes)) .absent := here
    apply (putObject_yields admits).attempt
    rintro etag _ ⟨_, rfl⟩
    refine Yields.done ⟨inv.write rfl fun _ => here, ⟨⟨etag, bytes⟩, by simp, rfl⟩, ?_⟩
    intro key other
    exact store.write_versions_other _ other
  | some existing =>
    have held := Store.mem_of_current here
    have same : existing.blob = bytes :=
      free.manifest (inv.filed (.candidate (Digest.manifest bytes)) existing held)
    apply putObject_refused
    · intro absent
      rw [Store.Admits, here] at absent
      cases absent
    · intro failure
      have reads : Reads (Working machine) (store.current (.candidate (Digest.manifest bytes)))
          (sessionCandidateFetch (Digest.manifest bytes)) store := by
        apply sessionCandidateFetch_reads (free.manifest_ne_zero bytes)
        intro version found
        rw [here, Option.mem_some_iff] at found
        rwa [← found, same]
      apply reads.attempt_alone
      simp only [here, same, if_true]
      exact Yields.done ⟨inv, ⟨existing, held, same⟩, fun _ _ => rfl⟩

theorem headAdvance_yields {binding : Binding} {condition : Condition ETag}
    {own : Encoded Hash (HeadBody Hash)} {reconciles : Encoded Hash (HeadBody Hash) → Bool}
    (session : own.record.sessionId = binding.sessionId)
    (scope : own.record.scopeHash = binding.scopeHash)
    (admits : store.Admits (.head binding.sessionId) condition) :
    Yields (Working machine)
      (fun reconciled after => reconciled = none ∧
        ∃ etag, after = store.write (.head binding.sessionId) ⟨etag, own⟩)
      (headAdvance binding condition (.ok own) reconciles) store := by
  have put : Yields (Working machine)
      (fun etag after => after = store.write (.head binding.sessionId) ⟨etag, own⟩)
      (Prog.ofExcept (.ok own) >>= sessionPutHead binding.sessionId binding.scopeHash condition)
      store := by
    apply Yields.ofExcept_bind rfl
    apply Yields.ofExcept_bind (recordDecode_own scope (by simpa using session) (by simp))
    apply (putObject_yields admits).mono
    rintro etag after ⟨_, same⟩
    exact same
  apply put.attempt
  rintro etag _ rfl
  exact Yields.done ⟨rfl, etag, rfl⟩

theorem publicationAdvance_yields {condition : Condition ETag} {own : Encoded Hash (PublicationBody Hash)}
    {reconciles : Encoded Hash (PublicationBody Hash) → Bool}
    (scope : own.record.scopeHash = Digest.storageScope)
    (admits : store.Admits .publication condition) :
    Yields (Working machine)
      (fun stored after => stored.blob = own ∧ after = store.write .publication stored)
      (publicationAdvance condition (.ok own) reconciles) store := by
  have put : Yields (Working machine)
      (fun stored after => stored.blob = own ∧ after = store.write .publication stored)
      (Prog.ofExcept (.ok own) >>= fun record => sessionPutPublication condition record >>= fun etag =>
        (Prog.done ⟨etag, record⟩ : Op Hash (StoredPublication Hash))) store := by
    apply Yields.ofExcept_bind rfl
    have written : Yields (Working machine)
        (fun etag after => after = store.write .publication ⟨etag, own⟩)
        (sessionPutPublication condition own) store := by
      apply Yields.ofExcept_bind (recordDecode_own scope (by simp) fun _ => .inl rfl)
      apply (putObject_yields admits).mono
      rintro etag after ⟨_, same⟩
      exact same
    apply written.bind
    rintro etag _ rfl
    exact Yields.done ⟨rfl, rfl⟩
  apply put.attempt
  rintro stored after known
  exact Yields.done known

end

end RusqDoltlite.Session

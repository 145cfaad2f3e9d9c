import RusqDoltlite.Session.Solo

/-! `bcvfsSessionPublish` alone on the store: when the fence can be passed, the candidate
becomes the visible manifest and both heads are committed. -/

namespace RusqDoltlite.Session

open Effects

variable {Hash : Type} [DecidableEq Hash] [Digest Hash] {machine : Machine} {store : Objects Hash}
  {binding : Binding} {head stored : StoredHead Hash} {candidate : Candidate Hash}
  {manifest : Version ETag Bytes} {publication : StoredPublication Hash}

structure Candidate.Ready (store : Objects Hash) (sessionId : SessionId)
    (candidate : Candidate Hash) : Prop where
  source : ∃ version ∈ store.versions (.checkpoint sessionId candidate.checkpointHash),
    Digest.manifest version.blob.record.body.manifest = candidate.candidateHash ∧
    version.blob.record.body.baseManifestETag = candidate.baseETag
  copy : ∃ version ∈ store.versions (.candidate candidate.candidateHash),
    version.blob = candidate.manifest
  digest : Digest.manifest candidate.manifest = candidate.candidateHash
  nonempty : candidate.manifest ≠ []
  small : candidate.manifest.length ≤ bodyMaxBytes
  named : candidate.checkpointHash ≠ Digest.zero

variable {after : Objects Hash} {sessionId : SessionId}

theorem Candidate.Ready.grow (ready : candidate.Ready store sessionId) (grows : store.Grows after) :
    candidate.Ready after sessionId where
  source := by
    obtain ⟨version, held, rest⟩ := ready.source
    exact ⟨version, grows.mem held, rest⟩
  copy := by
    obtain ⟨version, held, same⟩ := ready.copy
    exact ⟨version, grows.mem held, same⟩
  digest := ready.digest
  nonempty := ready.nonempty
  small := ready.small
  named := ready.named

def PublicationBase.next : PublicationBase Hash → Nat
  | .head record => record.record.sequence
  | .publication record => record.record.sequence + 1

def PublicationBase.Extendable : PublicationBase Hash → Prop
  | .head _ => True
  | .publication record => record.record.sequence ≠ sequenceMax

structure PublicationFields (record : Publication Hash) (state : RecordState)
    (sessionId : SessionId) (body : PublicationBody Hash) (sequence : Nat) : Prop where
  state : record.state = state
  session : record.sessionId = sessionId
  scope : record.scopeHash = Digest.storageScope
  body : record.body = body
  sequence : record.sequence = sequence

theorem recordEncode_yields (free : CollisionFree Hash)
    {state : RecordState} {outcome : Outcome} {sequence created expires : Nat}
    {predecessorHash operationId : Hash} {body : PublicationBody Hash}
    (typed : validTypeState .publication state outcome = true) (time : validTime created expires = true)
    (named : body.checkpointHash ≠ Digest.zero) (hashed : body.candidateManifestHash ≠ Digest.zero) :
    Yields (Working machine)
      (fun encoded after =>
        PublicationFields encoded.record state sessionId body sequence ∧ after = store)
      (Prog.ofExcept (recordEncode (⟨state, outcome, sequence, created, expires, sessionId,
        Digest.storageScope, predecessorHash, operationId, body⟩ : Publication Hash)) :
        Op Hash (Encoded Hash (PublicationBody Hash))) store := by
  have checked : recordCheck (⟨state, outcome, sequence, created, expires, sessionId,
      Digest.storageScope, predecessorHash, operationId, body⟩ : Publication Hash) = .ok () :=
    recordCheck_publication typed free.storageScope_ne_zero time named hashed
  rw [recordEncode_of_check checked]
  exact Yields.done ⟨⟨rfl, rfl, rfl, rfl, rfl⟩, rfl⟩

section
variable {sessionId : SessionId} {base : PublicationBase Hash} {state : RecordState}

theorem publicationLifetime_yields {old : Encoded Hash (PublicationBody Hash)} {body : PublicationBody Hash} :
    Yields (Working machine)
      (fun times after => validTime times.1 times.2 = true ∧ after = store)
      (publicationLifetime old.record sessionId body) store := by
  unfold publicationLifetime
  split
  · exact Yields.done ⟨(recordCheck_eq_ok.mp old.checked).2.2.2.1, rfl⟩
  · apply timestamp_yields.bind
    rintro now _ ⟨_, rfl⟩
    exact Yields.done ⟨validTime_ttl now, rfl⟩

theorem sessionEncodePublicationState_yields (free : CollisionFree Hash) {body : PublicationBody Hash}
    {operationId : Hash} {outcome : Outcome} (typed : validTypeState .publication state outcome = true)
    (extendable : base.Extendable) (named : body.checkpointHash ≠ Digest.zero)
    (hashed : body.candidateManifestHash ≠ Digest.zero) :
    Yields (Working machine)
      (fun encoded after => PublicationFields encoded.record state sessionId body base.next ∧ after = store)
      (sessionEncodePublicationState base sessionId body.checkpointHash body.candidateManifestHash
        body.baseManifestETag operationId state outcome) store := by
  cases base with
  | head old =>
    apply timestamp_yields.bind
    rintro now _ ⟨_, rfl⟩
    exact recordEncode_yields free typed (validTime_ttl now) named hashed
  | publication old =>
    have room : old.record.sequence ≠ sequenceMax := extendable
    apply Yields.require_bind room
    apply publicationLifetime_yields.bind
    rintro ⟨created, expires⟩ _ ⟨time, rfl⟩
    exact recordEncode_yields free typed time named hashed

theorem Candidate.Ready.sourced (ready : candidate.Ready store sessionId)
    {record : Publication Hash} {sequence : Nat}
    (fields : PublicationFields record state sessionId candidate.publicationBody sequence) :
    Sourced store record := by
  rw [Sourced, fields.session, fields.body]
  exact ready.source

theorem Candidate.Ready.encodes (free : CollisionFree Hash)
    (ready : candidate.Ready store sessionId) {operationId : Hash} {outcome : Outcome}
    (typed : validTypeState .publication state outcome = true) (extendable : base.Extendable) :
    Yields (Working machine)
      (fun encoded after =>
        PublicationFields encoded.record state sessionId candidate.publicationBody base.next ∧
          after = store)
      (sessionEncodePublicationState base sessionId candidate.checkpointHash candidate.candidateHash
        candidate.baseETag operationId state outcome) store := by
  have hashed : candidate.publicationBody.candidateManifestHash ≠ Digest.zero := by
    show candidate.candidateHash ≠ Digest.zero
    rw [← ready.digest]
    exact free.manifest_ne_zero _
  exact sessionEncodePublicationState_yields free typed extendable ready.named hashed

theorem publicationClaim_yields (free : CollisionFree Hash) (inv : StoredInvariant store)
    (ready : candidate.Ready store binding.sessionId)
    {condition : Condition ETag} (admits : store.Admits .publication condition) (extendable : base.Extendable) :
    Yields (Working machine)
      (fun fence after => ∃ claimed, fence = .held claimed ∧
        after = store.write .publication claimed ∧ StoredInvariant after ∧
        PublicationFields claimed.blob.record .publishing binding.sessionId
          candidate.publicationBody base.next)
      (publicationClaim binding head candidate base condition) store := by
  apply (ready.encodes free rfl extendable).attempt
  rintro own _ ⟨fields, rfl⟩
  apply (publicationAdvance_yields fields.scope admits).bind
  rintro claimed _ ⟨rfl, rfl⟩
  rw [if_neg (by rw [fields.state]; decide)]
  refine Yields.done ⟨claimed, rfl, rfl, ?_, fields⟩
  refine inv.write ⟨fields.scope, ready.sourced fields, .inl ⟨fields.state, ?_⟩⟩ (by simp [Key.createOnly])
  obtain ⟨copy, held, same⟩ := ready.copy
  rw [fields.body]
  exact ⟨copy, held, same ▸ ready.digest, same ▸ ready.nonempty⟩

end

def Names (publication : Publication Hash) (sessionId : SessionId) (candidate : Candidate Hash) :
    Prop :=
  publication.sessionId = sessionId ∧ publication.body = candidate.publicationBody

omit [Digest Hash] in
theorem sessionPublicationMatches_iff {publication : Publication Hash} {state : RecordState} :
    sessionPublicationMatches publication state sessionId candidate.checkpointHash
        candidate.candidateHash candidate.baseETag = true ↔
      publication.state = state ∧ Names publication sessionId candidate := by
  simp only [sessionPublicationMatches, decide_eq_true_eq, Names, Candidate.publicationBody]
  constructor
  · rintro ⟨stateIs, session, checkpoint, hash, base⟩
    exact ⟨stateIs, session, by rw [← checkpoint, ← hash, ← base]⟩
  · rintro ⟨stateIs, session, body⟩
    exact ⟨stateIs, session, by rw [body], by rw [body], by rw [body]⟩

/-- The fence can be passed: no other publication is pending, unless its candidate is
visible, and `manifest.bcv` holds the candidate where it has been published already, and
its base otherwise. -/
structure Passable (store : Objects Hash) (sessionId : SessionId) (candidate : Candidate Hash)
    (manifest : Version ETag Bytes) : Prop where
  here : store.current .manifest = some manifest
  small : manifest.blob.length ≤ bodyMaxBytes
  visible : ∀ publication ∈ store.current .publication,
    publication.blob.record.state = .publishing →
      Digest.manifest manifest.blob = publication.blob.record.body.candidateManifestHash
  room : ∀ publication ∈ store.current .publication,
    publication.blob.record.sequence ≠ sequenceMax ∧
      publication.blob.record.sequence + 1 ≠ sequenceMax ∧
      (publication.blob.record.state = .publishing →
        publication.blob.record.sequence + 2 ≠ sequenceMax)
  own : ∀ publication ∈ store.current .publication,
    Names publication.blob.record sessionId candidate → manifest.blob = candidate.manifest
  other : (∀ publication ∈ store.current .publication,
    ¬Names publication.blob.record sessionId candidate) → manifest.etag = candidate.baseETag

def Fence.Passed (sessionId : SessionId) (candidate : Candidate Hash) (after : Objects Hash) :
    Fence Hash → Prop
  | .committed => ∃ manifest, after.current .manifest = some manifest ∧
      manifest.blob = candidate.manifest
  | .held publication => after.current .publication = some publication ∧
      Names publication.blob.record sessionId candidate ∧
      publication.blob.record.sequence ≠ sequenceMax ∧
      ∃ manifest, after.current .manifest = some manifest ∧ manifest.blob.length ≤ bodyMaxBytes ∧
        (manifest.blob = candidate.manifest ∨ manifest.etag = candidate.baseETag)

abbrev PassedOnly (sessionId : SessionId) (candidate : Candidate Hash) (store : Objects Hash)
    (fence : Fence Hash) (after : Objects Hash) : Prop :=
  fence.Passed sessionId candidate after ∧ StoredInvariant after ∧
    ∀ key ≠ .publication, after.versions key = store.versions key

section
variable (free : CollisionFree Hash) (inv : StoredInvariant store)
  (ready : candidate.Ready store binding.sessionId)
  (current : store.current .publication = some publication)
  (room : publication.blob.record.sequence ≠ sequenceMax ∧
    publication.blob.record.sequence + 1 ≠ sequenceMax)
  (here : store.current .manifest = some manifest) (small : manifest.blob.length ≤ bodyMaxBytes)
include free inv ready current room here small

theorem publicationSupersede_yields (base : manifest.etag = candidate.baseETag) :
    Yields (Working machine)
      (PassedOnly binding.sessionId candidate store)
      (publicationSupersede binding head candidate publication) store := by
  apply (sessionManifestFetch_reads here small).bind
  apply Yields.require_bind base
  have admits : store.Admits .publication (.tagged publication.etag) := by
    simp [Store.Admits, current]
  have extendable : (PublicationBase.publication publication.blob).Extendable := room.1
  apply (publicationClaim_yields free inv ready admits extendable).mono
  rintro _ _ ⟨claimed, rfl, rfl, kept, fields⟩
  refine ⟨⟨by simp, ⟨fields.session, fields.body⟩, ?_, manifest, ?_, small, .inr base⟩, kept, ?_⟩
  · rw [fields.sequence]
    exact room.2
  · rw [store.write_current_other _ (by simp)]
    exact here
  · intro key different
    exact store.write_versions_other _ different

theorem publicationCommitted_yields (committed : publication.blob.record.state = .committed)
    (own : Names publication.blob.record binding.sessionId candidate →
      manifest.blob = candidate.manifest)
    (other : ¬Names publication.blob.record binding.sessionId candidate →
      manifest.etag = candidate.baseETag) :
    Yields (Working machine)
      (PassedOnly binding.sessionId candidate store)
      (publicationCommitted binding head candidate publication) store := by
  unfold publicationCommitted
  by_cases named : Names publication.blob.record binding.sessionId candidate
  · rw [if_pos (sessionPublicationMatches_iff.mpr ⟨committed, named⟩)]
    exact Yields.done ⟨⟨manifest, here, own named⟩, inv, fun _ _ => rfl⟩
  · rw [if_neg fun matched => named (sessionPublicationMatches_iff.mp matched).2]
    exact publicationSupersede_yields free inv ready current room here small (other named)

end

section
variable (free : CollisionFree Hash) (inv : StoredInvariant store)
  (current : store.current .publication = some publication)
  (pending : publication.blob.record.state = .publishing)
  (room : publication.blob.record.sequence ≠ sequenceMax)
  (here : store.current .manifest = some manifest) (small : manifest.blob.length ≤ bodyMaxBytes)
  (visible : Digest.manifest manifest.blob = publication.blob.record.body.candidateManifestHash)
include free inv current pending room here small visible

theorem recoverCandidate_yields :
    Yields (Working machine)
      (fun encoded after => PublicationFields encoded.record .committed
          publication.blob.record.sessionId publication.blob.record.body
          (publication.blob.record.sequence + 1) ∧ after = store)
      (recoverCandidate publication.blob) store := by
  have hashed : publication.blob.record.body.candidateManifestHash ≠ Digest.zero := by
    rw [← visible]
    exact free.manifest_ne_zero _
  have named : publication.blob.record.body.checkpointHash ≠ Digest.zero := by
    have decodes := (recordCheck_eq_ok.mp publication.blob.checked).2.2.2.2.2
    simp only [SessionBody.decode, check_eq_ok] at decodes
    exact decodes.1
  have filed := inv.filed .publication publication (Store.mem_of_current current)
  obtain ⟨copy, held, digest, nonempty⟩ : ∃ copy ∈ store.versions
      (.candidate publication.blob.record.body.candidateManifestHash),
      Digest.manifest copy.blob = publication.blob.record.body.candidateManifestHash ∧
        copy.blob ≠ [] := by
    rcases filed.2.2 with ⟨_, stored⟩ | ⟨committed, _⟩
    · exact stored
    · rw [pending] at committed
      cases committed
  have same : copy.blob = manifest.blob := free.manifest (digest.trans visible.symm)
  have found := (inv.unique (.candidate publication.blob.record.body.candidateManifestHash)
    rfl).current held
  have fetched : Reads (Working machine)
      (store.current (.candidate publication.blob.record.body.candidateManifestHash))
      (sessionCandidateFetch publication.blob.record.body.candidateManifestHash) store := by
    apply sessionCandidateFetch_reads hashed
    intro version there
    rw [found, Option.mem_some_iff] at there
    rwa [← there, same]
  apply fetched.bind
  rw [found]
  apply Yields.require_bind nonempty
  apply Yields.require_bind digest
  apply (sessionManifestFetch_reads here small).bind
  rw [Prog.when, if_neg (not_not.mpr same.symm), Prog.bind_done]
  have extendable : (PublicationBase.publication publication.blob).Extendable := room
  exact sessionEncodePublicationState_yields free rfl extendable named hashed

theorem publicationRecover_yields :
    Yields (Working machine)
      (fun recovered after => after = store.write .publication recovered ∧ StoredInvariant after ∧
        PublicationFields recovered.blob.record .committed publication.blob.record.sessionId
          publication.blob.record.body (publication.blob.record.sequence + 1))
      (publicationRecover publication) store := by
  have admits : store.Admits .publication (.tagged publication.etag) := by
    simp [Store.Admits, current]
  have filed := inv.filed .publication publication (Store.mem_of_current current)
  apply (recoverCandidate_yields free inv current pending room here small visible).attempt
  rintro own _ ⟨fields, rfl⟩
  apply (publicationAdvance_yields fields.scope admits).bind
  rintro ⟨etag, blob⟩ _ ⟨rfl, rfl⟩
  refine Yields.done ⟨rfl, ?_, fields⟩
  refine inv.write ⟨fields.scope, ?_, .inr ⟨fields.state, ?_⟩⟩ (by simp [Key.createOnly])
  · rw [Sourced, fields.session, fields.body]
    exact filed.2.1
  · rw [fields.body]
    exact ⟨manifest, Store.mem_of_current here, visible⟩

end

section

theorem publicationLive_yields {publication : Publication Hash} : Yields (Working machine)
      (fun live after => (live = true → Names publication binding.sessionId candidate) ∧
        after = store)
      (publicationLive binding candidate publication) store := by
  unfold publicationLive
  split
  · rename_i matched
    apply timestamp_yields.bind
    rintro now _ ⟨_, rfl⟩
    exact Yields.done ⟨fun _ => (sessionPublicationMatches_iff.mp matched).2, rfl⟩
  · exact Yields.done ⟨fun impossible => (by cases impossible), rfl⟩

variable (free : CollisionFree Hash) (inv : StoredInvariant store)
  (ready : candidate.Ready store binding.sessionId)
  (passable : Passable store binding.sessionId candidate manifest)

include free inv ready passable in
/-- The pending publication is finished first; then the fence is taken as from a
committed one. -/
theorem publicationRecovered_yields (current : store.current .publication = some publication)
    (pending : publication.blob.record.state = .publishing) : Yields (Working machine)
      (PassedOnly binding.sessionId candidate store)
      (publicationRecover publication >>= publicationCommitted binding head candidate) store := by
  have room := passable.room publication current
  have seen := passable.visible publication current pending
  apply (publicationRecover_yields free inv current pending room.1 passable.here passable.small
    seen).bind
  rintro recovered _ ⟨rfl, kept, fields⟩
  have names : Names recovered.blob.record binding.sessionId candidate ↔
      Names publication.blob.record binding.sessionId candidate := by
    rw [Names, Names, fields.session, fields.body]
  have still : (store.write .publication recovered).current .manifest = some manifest := by
    rw [store.write_current_other _ (by simp)]
    exact passable.here
  have left : recovered.blob.record.sequence ≠ sequenceMax ∧
      recovered.blob.record.sequence + 1 ≠ sequenceMax := by
    rw [fields.sequence]
    exact ⟨room.2.1, room.2.2 pending⟩
  have grown := ready.grow (store.write_grows .publication recovered)
  have own (named : Names recovered.blob.record binding.sessionId candidate) :=
    passable.own publication current (names.mp named)
  have other (unnamed : ¬Names recovered.blob.record binding.sessionId candidate) :
      manifest.etag = candidate.baseETag := by
    apply passable.other
    intro version there
    rw [current, Option.mem_some_iff] at there
    exact there ▸ fun named => unnamed (names.mpr named)
  apply (publicationCommitted_yields free kept grown (store.write_current_same _ _) left still
    passable.small fields.state own other).mono
  rintro fence after ⟨passed, invariant, frame⟩
  refine ⟨passed, invariant, ?_⟩
  intro key different
  rw [frame key different, store.write_versions_other _ different]

include free inv ready passable in
theorem publicationFence_yields
    (room : store.current .publication = none → head.blob.record.sequence ≠ sequenceMax) :
    Yields (Working machine)
      (PassedOnly binding.sessionId candidate store)
      (publicationFence binding head candidate) store := by
  have filed (version : StoredPublication Hash) (there : version ∈ store.current .publication) :=
    inv.filed .publication version (Store.mem_of_current there)
  apply (sessionFetchPublication_reads filed).bind
  cases current : store.current .publication with
  | none =>
    have admits : store.Admits .publication .absent := current
    have extendable : (PublicationBase.head head.blob).Extendable := trivial
    have base : manifest.etag = candidate.baseETag := by
      apply passable.other
      simp [current]
    apply (publicationClaim_yields free inv ready admits extendable).mono
    rintro _ _ ⟨claimed, rfl, rfl, kept, fields⟩
    refine ⟨⟨by simp, ⟨fields.session, fields.body⟩, fields.sequence ▸ room current, manifest, ?_,
      passable.small, .inr base⟩, kept, ?_⟩
    · rw [store.write_current_other _ (by simp)]
      exact passable.here
    · intro key different
      exact store.write_versions_other _ different
  | some publication =>
    have left := passable.room publication current
    rcases (filed publication current).2.2 with ⟨pending, _⟩ | ⟨committed, _⟩
    · simp only [pending]
      apply publicationLive_yields.bind
      rintro live _ ⟨own, rfl⟩
      cases live with
      | true =>
        have named := own rfl
        refine Yields.done ⟨⟨current, named, left.1, manifest, passable.here, passable.small,
          .inl (passable.own publication current named)⟩, inv, fun _ _ => rfl⟩
      | false => exact publicationRecovered_yields free inv ready passable current pending
    · simp only [committed]
      apply publicationCommitted_yields free inv ready current ⟨left.1, left.2.1⟩ passable.here
        passable.small committed (passable.own publication current)
      intro unnamed
      apply passable.other
      simpa [current] using unnamed

end

def Displays (store : Objects Hash) (bytes : Bytes) : Prop :=
  (store.current .manifest).map Version.blob = some bytes

section

theorem manifestInstall_yields {bytes : Bytes} (nonempty : bytes ≠ [])
    (here : store.current .manifest = some manifest) :
    Yields (Working machine)
      (fun _ after => ∃ etag, after = store.write .manifest ⟨etag, bytes⟩)
      (manifestInstall manifest.etag bytes : Op Hash Unit) store := by
  have admits : store.Admits .manifest (.tagged manifest.etag) := by
    simp [Store.Admits, here]
  have put : Yields (Working machine)
      (fun etag after => after = store.write .manifest ⟨etag, bytes⟩)
      (sessionManifestPut manifest.etag bytes) store := by
    apply Yields.require_bind nonempty
    apply (putObject_yields admits).mono
    rintro etag after ⟨_, same⟩
    exact same
  apply put.attempt
  rintro etag after same
  exact Yields.done ⟨etag, same⟩

variable (free : CollisionFree Hash) (inv : StoredInvariant store)
  (ready : candidate.Ready store binding.sessionId)

include inv ready in
theorem publishManifest_yields
    (here : store.current .manifest = some manifest) (small : manifest.blob.length ≤ bodyMaxBytes)
    (due : manifest.blob = candidate.manifest ∨ manifest.etag = candidate.baseETag) :
    Yields (Working machine)
      (fun _ after => Displays after candidate.manifest ∧ StoredInvariant after ∧
        store.Grows after ∧ ∀ key ≠ .manifest, after.versions key = store.versions key)
      (publishManifest candidate) store := by
  apply (sessionManifestFetch_reads here small).bind
  unfold Prog.when
  split
  · rename_i different
    have base := due.resolve_left different
    apply Yields.require_bind base
    rw [← base]
    apply (manifestInstall_yields ready.nonempty here).bind
    rintro _ _ ⟨etag, rfl⟩
    have now : (store.write .manifest ⟨etag, candidate.manifest⟩).current .manifest =
        some ⟨etag, candidate.manifest⟩ := store.write_current_same _ _
    apply (sessionManifestFetch_reads now ready.small).bind
    rw [Prog.require_true rfl]
    refine Yields.done ⟨by simp [Displays, now], ?_, store.write_grows _ _, ?_⟩
    · exact inv.write trivial (by simp [Key.createOnly])
    · intro key other
      exact store.write_versions_other _ other
  · rename_i same
    refine Yields.done ⟨?_, inv, .refl store, fun _ _ => rfl⟩
    simpa [Displays, here] using same

include free inv ready in
theorem publicationCommit_yields (displays : Displays store candidate.manifest)
    (current : store.current .publication = some publication)
    (room : publication.blob.record.sequence ≠ sequenceMax) : Yields (Working machine)
      (fun _ after => StoredInvariant after ∧
        ∀ key ≠ .publication, after.versions key = store.versions key)
      (publicationCommit binding candidate publication) store := by
  have admits : store.Admits .publication (.tagged publication.etag) := by
    simp [Store.Admits, current]
  have extendable : (PublicationBase.publication publication.blob).Extendable := room
  obtain ⟨manifest, here, same⟩ := Option.map_eq_some_iff.mp displays
  apply (ready.encodes free rfl extendable).attempt
  rintro own _ ⟨fields, rfl⟩
  apply (publicationAdvance_yields fields.scope admits).bind
  rintro stored _ ⟨rfl, rfl⟩
  refine Yields.done ⟨?_, fun key other => Store.write_versions_other _ _ other⟩
  refine inv.write ⟨fields.scope, ready.sourced fields, .inr ⟨fields.state, ?_⟩⟩
    (by simp [Key.createOnly])
  rw [fields.body]
  exact ⟨manifest, Store.mem_of_current here, same ▸ ready.digest⟩

include free inv ready in
theorem publishFenced_yields {fence : Fence Hash}
    (passed : fence.Passed binding.sessionId candidate store) :
    Yields (Working machine)
      (fun _ after => Displays after candidate.manifest ∧ StoredInvariant after ∧
        ∀ key, key ≠ .manifest → key ≠ .publication → after.versions key = store.versions key)
      (publishFenced binding candidate fence) store := by
  cases fence with
  | committed =>
    obtain ⟨manifest, here, same⟩ := passed
    apply (sessionManifestFetch_reads here (same ▸ ready.small)).bind
    rw [Prog.require_true same]
    exact Yields.done ⟨by simp [Displays, here, same], inv, fun _ _ _ => rfl⟩
  | held publication =>
    obtain ⟨current, _, room, manifest, here, small, due⟩ := passed
    apply (publishManifest_yields inv ready here small due).bind
    rintro _ middle ⟨displays, kept, grows, frame⟩
    have still : middle.current .publication = some publication := by
      rw [Store.current, frame _ (by simp)]
      exact current
    apply (publicationCommit_yields free kept (ready.grow grows) displays still room).mono
    rintro _ after ⟨invariant, rest⟩
    refine ⟨?_, invariant, ?_⟩
    · rw [Displays, Store.current, rest _ (by simp)]
      exact displays
    · intro key notManifest notPublication
      rw [rest key notPublication, frame key notManifest]

end

abbrev StoredCheckpoint (Hash : Type) [DecidableEq Hash] [Digest Hash] :=
  Version ETag (Encoded Hash (CheckpointBody Hash))

structure Pending (store : Objects Hash) (binding : Binding) (stored : StoredHead Hash)
    (checkpoint : StoredCheckpoint Hash) : Prop where
  head : store.current (.head binding.sessionId) = some stored
  session : stored.blob.record.sessionId = binding.sessionId
  scope : stored.blob.record.scopeHash = binding.scopeHash
  state : stored.blob.record.state = .publishing
  loaded : store.current (.checkpoint binding.sessionId stored.blob.record.body.checkpointHash) =
    some checkpoint
  filed : checkpoint.blob.recordHash = stored.blob.record.body.checkpointHash ∧
    checkpoint.blob.record.sessionId = binding.sessionId
  checkpointScope : checkpoint.blob.record.scopeHash = binding.scopeHash
  digest : Digest.manifest checkpoint.blob.record.body.manifest =
    stored.blob.record.body.candidateManifestHash
  base : checkpoint.blob.record.body.baseManifestETag = stored.blob.record.body.baseManifestETag

def candidateOf (stored : StoredHead Hash) (checkpoint : StoredCheckpoint Hash) : Candidate Hash where
  checkpointHash := stored.blob.record.body.checkpointHash
  candidateHash := Digest.manifest checkpoint.blob.record.body.manifest
  baseETag := stored.blob.record.body.baseManifestETag
  manifest := checkpoint.blob.record.body.manifest

theorem StoredInvariant.pending (inv : StoredInvariant store)
    (head : store.current (.head binding.sessionId) = some stored)
    (scope : stored.blob.record.scopeHash = binding.scopeHash)
    (state : stored.blob.record.state = .publishing) :
    ∃ checkpoint, Pending store binding stored checkpoint ∧
      checkpoint.blob.record.operationId = stored.blob.record.operationId := by
  obtain ⟨session, backed⟩ := inv.filed (.head binding.sessionId) stored (Store.mem_of_current head)
  obtain ⟨checkpoint, held, operation, _, digest, sameScope, base⟩ :=
    backed (by rw [state]; decide)
  have filed := inv.filed
    (.checkpoint binding.sessionId stored.blob.record.body.checkpointHash) checkpoint held
  have current := (inv.unique
    (.checkpoint binding.sessionId stored.blob.record.body.checkpointHash) rfl).current held
  exact ⟨checkpoint, ⟨head, session, scope, state, current, filed, sameScope.trans scope, digest,
    base⟩, operation⟩

section
variable {checkpoint : StoredCheckpoint Hash} (pending : Pending store binding stored checkpoint)

theorem checkpoint_opened (checkpoint : StoredCheckpoint Hash) :
    checkpoint.blob.record.state = .opened ∧ checkpoint.blob.record.outcome = .none := by
  have typed := (recordCheck_eq_ok.mp checkpoint.blob.checked).1
  simpa [SessionBody.type, validTypeState] using typed

theorem checkpoint_manifest_ne_nil (checkpoint : StoredCheckpoint Hash) :
    checkpoint.blob.record.body.manifest ≠ [] := by
  have decodes := (recordCheck_eq_ok.mp checkpoint.blob.checked).2.2.2.2.2
  simpa [SessionBody.decode] using decodes

theorem checkpoint_manifest_small (checkpoint : StoredCheckpoint Hash) :
    checkpoint.blob.record.body.manifest.length ≤ bodyMaxBytes := by
  have fits := record_fits.mp (recordCheck_eq_ok.mp checkpoint.blob.checked).2.2.2.2.1
  simp only [SessionBody.bytes] at fits
  omega

include pending in
theorem Pending.outcome : stored.blob.record.outcome = .none := by
  have typed := (recordCheck_eq_ok.mp stored.blob.checked).1
  rw [pending.state] at typed
  simpa [SessionBody.type, validTypeState] using typed

include pending in
theorem Pending.named : stored.blob.record.body.checkpointHash ≠ Digest.zero := by
  have decodes := (recordCheck_eq_ok.mp stored.blob.checked).2.2.2.2.2
  apply (headDecode_eq_ok.mp decodes).1.2.1
  rw [pending.state]
  decide

include pending in
theorem publishLoadHead_reads
    (unexpired : ∀ now, machine.clock now → now < stored.blob.record.expires) {operationId : Hash} :
    Reads (Working machine) stored (publishLoadHead binding operationId) store := by
  apply (sessionReadHead_reads pending.head pending.session pending.scope).bind
  have state := pending.state
  have outcome := pending.outcome
  apply Yields.require_bind (by simp [state])
  apply Yields.require_bind (by simp [state])
  apply Yields.require_bind (by simp [outcome])
  apply Yields.require_bind (by simp [state])
  apply timestamp_yields.bind
  rintro now _ ⟨reading, rfl⟩
  have early := unexpired now reading
  apply Yields.require_bind (by simp [isExpired, early])
  exact Reads.done

include pending in
theorem publishLoadCandidate_reads :
    Reads (Working machine) (candidateOf stored checkpoint)
      (publishLoadCandidate binding stored.blob.record) store := by
  apply (sessionFetchCheckpoint_reads pending.named pending.loaded pending.filed
    pending.checkpointScope).bind
  apply Yields.require_bind (checkpoint_opened checkpoint)
  apply Yields.require_bind pending.base
  apply Yields.require_bind (checkpoint_manifest_ne_nil checkpoint)
  apply Yields.require_bind (fun _ => pending.digest.symm)
  exact Reads.done

end

theorem Candidate.Ready.frame (ready : candidate.Ready store sessionId)
    (frame : ∀ key, key ≠ .manifest → key ≠ .publication → after.versions key = store.versions key) :
    candidate.Ready after sessionId where
  source := by
    rw [frame (.checkpoint sessionId candidate.checkpointHash) (by simp) (by simp)]
    exact ready.source
  copy := by
    rw [frame (.candidate candidate.candidateHash) (by simp) (by simp)]
    exact ready.copy
  digest := ready.digest
  nonempty := ready.nonempty
  small := ready.small
  named := ready.named

theorem Passable.frame (passable : Passable store sessionId candidate manifest)
    (sameManifest : after.versions .manifest = store.versions .manifest)
    (samePublication : after.versions .publication = store.versions .publication) :
    Passable after sessionId candidate manifest := by
  have publication : after.current .publication = store.current .publication := by
    rw [Store.current, samePublication, Store.current]
  refine ⟨?_, passable.small, ?_, ?_, ?_, ?_⟩
  · rw [Store.current, sameManifest]
    exact passable.here
  · rw [publication]
    exact passable.visible
  · rw [publication]
    exact passable.room
  · rw [publication]
    exact passable.own
  · rw [publication]
    exact passable.other

section
variable {checkpoint : StoredCheckpoint Hash} (free : CollisionFree Hash) (inv : StoredInvariant store)
  (pending : Pending store binding stored checkpoint)
  (unexpired : ∀ now, machine.clock now → now < stored.blob.record.expires)

include inv pending in
theorem publishCommitHead_yields :
    Yields (Working machine)
      (fun _ after => StoredInvariant after ∧
        (∀ key ≠ .head binding.sessionId, after.versions key = store.versions key) ∧
        ∃ latest, after.current (.head binding.sessionId) = some latest ∧
          latest.blob.record.state = .committed ∧
          latest.blob.record.operationId = stored.blob.record.operationId ∧
          latest.blob.record.body.About (candidateOf stored checkpoint))
      (publishCommitHead binding (candidateOf stored checkpoint)) store := by
  apply (sessionReadHead_reads pending.head pending.session pending.scope).bind
  have state := pending.state
  simp only [state, found, foundOr, Prog.bind_done]
  rw [if_neg (by decide), if_pos (.inl trivial)]
  have about : stored.blob.record.body.About (candidateOf stored checkpoint) :=
    ⟨rfl, pending.digest.symm, rfl⟩
  obtain ⟨encoded, success, _, session⟩ := sessionEncodeHeadState_exists state about
  obtain ⟨committed, operation, _, scope, aboutNew, _⟩ := sessionEncodeHeadState_record success
  rw [success]
  have admits : store.Admits (.head binding.sessionId) (.tagged stored.etag) := by
    simp [Store.Admits, pending.head]
  apply (headAdvance_yields (session.trans pending.session) (scope.trans pending.scope) admits).bind
  rintro _ _ ⟨_, etag, rfl⟩
  refine Yields.done ⟨?_, ?_, ⟨etag, encoded⟩, store.write_current_same _ _, committed, operation,
    aboutNew⟩
  · refine inv.write ⟨session.trans pending.session, ?_⟩ (by simp [Key.createOnly])
    exact fun other => absurd committed other
  · intro key different
    exact store.write_versions_other _ different

include free inv pending unexpired in
theorem sessionPublish_prepared {operationId : Hash} {final : Except Err Unit → Objects Hash → Prop}
    (rest : ∀ first, StoredInvariant first →
      (candidateOf stored checkpoint).Ready first binding.sessionId →
      (∀ key, (∀ hash, key ≠ .candidate hash) → first.versions key = store.versions key) →
      Alone (Working machine) final
        (publicationFence binding stored (candidateOf stored checkpoint) >>= fun fence =>
          publishFenced binding (candidateOf stored checkpoint) fence >>= fun _ =>
          publishCommitHead binding (candidateOf stored checkpoint)) first) :
    Alone (Working machine) final (sessionPublish binding operationId) store := by
  apply (publishLoadHead_reads pending unexpired).bind_alone
  apply (publishLoadCandidate_reads pending).bind_alone
  have nonempty := checkpoint_manifest_ne_nil checkpoint
  have small := checkpoint_manifest_small checkpoint
  apply (sessionCandidatePut_yields free inv nonempty small).bind_alone
  rintro _ first ⟨kept, copy, frame⟩
  rw [publishPromoteHead, if_neg (by rw [pending.state]; decide), Prog.bind_done]
  apply rest first kept
  · refine ⟨⟨checkpoint, ?_, rfl, pending.base⟩, copy, rfl, nonempty, small, pending.named⟩
    rw [frame _ (by simp)]
    exact Store.mem_of_current pending.loaded
  · exact fun key notCandidate => frame key (notCandidate _)

include free inv pending unexpired in
theorem sessionPublish_yields
    (passable : Passable store binding.sessionId (candidateOf stored checkpoint) manifest)
    (room : store.current .publication = none → stored.blob.record.sequence ≠ sequenceMax)
    {operationId : Hash} :
    Yields (Working machine)
      (fun _ after => Displays after checkpoint.blob.record.body.manifest ∧
        ∃ latest, after.current (.head binding.sessionId) = some latest ∧
          latest.blob.record.state = .committed ∧
          latest.blob.record.operationId = stored.blob.record.operationId ∧
          latest.blob.record.body.About (candidateOf stored checkpoint))
      (sessionPublish binding operationId) store := by
  apply sessionPublish_prepared free inv pending unexpired
  intro first kept ready frame
  have passableNow := passable.frame (frame _ (by simp)) (frame _ (by simp))
  have roomNow : first.current .publication = none → stored.blob.record.sequence ≠ sequenceMax := by
    rw [Store.current, frame _ (by simp)]
    exact room
  apply (publicationFence_yields free kept ready passableNow roomNow).bind_alone
  rintro fence second ⟨passed, keptSecond, frameSecond⟩
  have readySecond := ready.frame fun key _ other => frameSecond key other
  apply (publishFenced_yields free keptSecond readySecond passed).bind_alone
  rintro _ third ⟨displays, keptThird, frameThird⟩
  have same (key : Key Hash) (notCandidate : ∀ hash, key ≠ .candidate hash)
      (notManifest : key ≠ .manifest) (notPublication : key ≠ .publication) :
      third.versions key = store.versions key := by
    rw [frameThird key notManifest notPublication, frameSecond key notPublication,
      frame key notCandidate]
  have pendingThird : Pending third binding stored checkpoint := by
    refine { pending with head := ?_, loaded := ?_ }
    · rw [Store.current, same _ (by simp) (by simp) (by simp)]
      exact pending.head
    · rw [Store.current, same _ (by simp) (by simp) (by simp)]
      exact pending.loaded
  apply (publishCommitHead_yields keptThird pendingThird).mono
  rintro _ after ⟨_, frameLast, latest⟩
  refine ⟨?_, latest⟩
  rw [Displays, Store.current, frameLast _ (by simp)]
  exact displays

end

end RusqDoltlite.Session

import RusqDoltlite.Session.SoloPublish

/-! What a scoped attach that has the store to itself leaves in the container. -/

namespace RusqDoltlite.Session

open Effects

variable {Hash : Type} [DecidableEq Hash] [Digest Hash] {machine : Machine} {store : Objects Hash}
  {binding : Binding}

/-- The container is attached for the operation, over a manifest with the ETag `base`. What
it has captured is the current head of the session. -/
structure Attachment (store : Objects Hash) (binding : Binding) (operationId : Hash) (base : ETag)
    (container : Container Hash) (context : Context Hash) : Prop where
  mapped : ∃ man, container.man = some man ∧ man.etag = some base
  session : container.sessionId = some binding.sessionId
  owned : container.owned = true
  captured : container.context = some context
  scope : context.scope = binding.scope
  operation : context.operationId = operationId
  nonzero : operationId ≠ Digest.zero
  predecessor : context.predecessorHash = context.expectedCheckpointHash
  sequence : context.sequence = context.expectedSequence
  fence : context.predecessorETag = (store.current (.head binding.sessionId)).map Version.etag
  expected : ∀ stored ∈ store.current (.head binding.sessionId),
    stored.blob.recordHash = context.expectedHeadHash
  owner : ∀ stored ∈ store.current (.head binding.sessionId),
    stored.blob.record.scopeHash = binding.scopeHash
  counted : context.sequence =
    ((store.current (.head binding.sessionId)).map fun stored => stored.blob.record.sequence).getD 0

/-- The base an attachment works on: the published manifest if the session has no head yet,
else the base of its head. For a committed head, its candidate is then the published
manifest and of the size of a checkpoint. -/
def BaseOf (store : Objects Hash) (sessionId : SessionId) (base : ETag) : Prop :=
  match store.current (.head sessionId) with
  | none => (store.current .manifest).map Version.etag = some base
  | some stored => base = stored.blob.record.body.baseManifestETag ∧
      (stored.blob.record.state = .committed → ∃ checkpoint : StoredCheckpoint Hash,
        Digest.manifest checkpoint.blob.record.body.manifest =
          stored.blob.record.body.candidateManifestHash)

variable {hash operationId : Hash} {man : Manifest} {context : Context Hash} {container : Container Hash}

theorem foundOr_ensures {α : Type} {missing : Err} {result : Option α} :
    Ensures (Working machine) (fun value after => result = some value ∧ after = store)
      (foundOr missing result : Op Hash α) store := by
  cases result with
  | none => exact Ensures.fail
  | some value => exact Ensures.done ⟨rfl, rfl⟩

theorem sessionFetched_ensures {Body : Type} [SessionBody Hash Body] {sessionId : Option SessionId}
    {scopeHash : Hash} {objectId : Option Hash} {mismatch : String}
    {fetched : Option (Version ETag (Encoded Hash Body))} :
    Ensures (Working machine)
      (fun result after => result = fetched ∧ after = store ∧
        ∀ version ∈ fetched, version.blob.record.scopeHash = scopeHash)
      (sessionFetched sessionId scopeHash objectId mismatch fetched) store := by
  cases fetched with
  | none => exact Ensures.done ⟨rfl, rfl, by simp⟩
  | some version =>
    apply Ensures.ofExcept_bind
    intro record decoded
    apply Ensures.require_bind
    intro _
    refine Ensures.done ⟨rfl, rfl, ?_⟩
    rintro _ ⟨rfl⟩
    exact (recordDecode_eq_ok decoded).2.2

theorem sessionReadHead_ensures {site : Site Hash} : Ensures (Working machine)
      (fun result after => result = store.current (.head binding.sessionId) ∧ after = store ∧
        ∀ stored ∈ store.current (.head binding.sessionId),
          stored.blob.record.scopeHash = binding.scopeHash)
      (sessionReadHead binding site) store := by
  apply (getObject_reads _ site).ensures.bind
  rintro _ _ ⟨rfl, rfl⟩
  exact sessionFetched_ensures

theorem sessionFetchCheckpoint_ensures {sessionId : SessionId} {scopeHash : Hash} :
    Ensures (Working machine)
      (fun result after => result = store.current (.checkpoint sessionId hash) ∧ after = store ∧
        ∀ version ∈ store.current (.checkpoint sessionId hash),
          version.blob.record.scopeHash = scopeHash)
      (sessionFetchCheckpoint sessionId scopeHash hash) store := by
  apply Ensures.require_bind
  intro _
  apply (getObject_reads _ .other).ensures.bind
  rintro _ _ ⟨rfl, rfl⟩
  exact sessionFetched_ensures

theorem fetchManifest_ensures [ManifestCodec] : Ensures (Working machine)
      (fun man after => after = store ∧ ∃ manifest, store.current .manifest = some manifest ∧
        Manifest.parseCopy manifest.blob manifest.etag = .ok man)
      (fetchManifest : Op Hash Manifest) store := by
  apply (getObject_reads _ .other).ensures.bind
  rintro _ _ ⟨rfl, rfl⟩
  apply foundOr_ensures.bind
  rintro manifest _ ⟨here, rfl⟩
  cases parsed : Manifest.parseCopy manifest.blob manifest.etag with
  | error error => exact Ensures.fail
  | ok man => exact Ensures.done ⟨rfl, manifest, here, parsed⟩

theorem parseCopy_etag [ManifestCodec] {bytes : Bytes} {etag : ETag}
    (parsed : Manifest.parseCopy bytes etag = .ok man) : man.etag = some etag := by
  unfold Manifest.parseCopy at parsed
  cases raw : ManifestCodec.parse bytes with
  | error error => simp [raw, bind, Except.bind] at parsed
  | ok plain =>
    simp only [raw, bind, Except.bind, Except.ok.injEq] at parsed
    rw [← parsed]

theorem rehydrateCheckpoint_ensures {head : Head Hash} {first : Bool} {upper : Nat} :
    Ensures (Working machine)
      (fun checkpoint after => after = store ∧
        checkpoint.body.baseManifestETag = head.body.baseManifestETag ∧
        ∃ version : StoredCheckpoint Hash, version.blob.record = checkpoint)
      (rehydrateCheckpoint binding head first upper hash) store := by
  apply sessionFetchCheckpoint_ensures.bind
  rintro _ _ ⟨_, rfl, _⟩
  apply foundOr_ensures.bind
  rintro stored _ ⟨_, rfl⟩
  apply Ensures.require_bind
  intro _
  apply Ensures.require_bind
  intro base
  apply Ensures.require_bind
  intro _
  exact Ensures.done ⟨rfl, base, stored, rfl⟩

theorem rehydrateChain_ensures {head : Head Hash} {remaining : Nat} {seen : List Hash} {upper : Nat} :
    Ensures (Working machine)
      (fun checkpoint after => after = store ∧
        checkpoint.body.baseManifestETag = head.body.baseManifestETag ∧
        ∃ version : StoredCheckpoint Hash, version.blob.record = checkpoint)
      (rehydrateChain binding head remaining seen upper hash) store := by
  induction remaining generalizing seen upper hash with
  | zero =>
    apply Ensures.require_bind
    intro _
    exact Ensures.fail
  | succ remaining ih =>
    apply Ensures.require_bind
    intro _
    apply rehydrateCheckpoint_ensures.bind
    rintro checkpoint _ ⟨rfl, known⟩
    split
    · exact Ensures.done ⟨rfl, known⟩
    · apply ih.bind
      rintro _ _ ⟨rfl, _⟩
      exact Ensures.done ⟨rfl, known⟩

theorem sessionAcceptedTip_ensures :
    Ensures (Working machine)
      (fun tip after => after = store ∧
        tip.etag = (store.current (.head binding.sessionId)).map Version.etag ∧
        (store.current (.head binding.sessionId) = none →
          tip.checkpointHash = Digest.zero ∧ tip.sequence = 0) ∧
        ∀ stored ∈ store.current (.head binding.sessionId),
          tip = ⟨stored.blob.record.body.checkpointHash, stored.blob.record.sequence,
            stored.blob.recordHash, some stored.etag⟩ ∧
          stored.blob.record.scopeHash = binding.scopeHash)
      (sessionAcceptedTip binding) store := by
  apply sessionReadHead_ensures.bind
  rintro current after ⟨read, same, owner⟩
  rw [read, same]
  cases here : store.current (.head binding.sessionId) with
  | none => exact Ensures.done ⟨rfl, rfl, fun _ => ⟨rfl, rfl⟩, by simp⟩
  | some stored =>
    apply Ensures.require_bind
    intro _
    apply Ensures.require_bind
    intro _
    refine Ensures.done ⟨rfl, rfl, by simp, ?_⟩
    rintro _ ⟨rfl⟩
    exact ⟨rfl, owner stored here⟩

theorem sessionBind_eq_ok {scope : Scope} {tip : Tip Hash}
    (success : sessionBind man scope operationId tip = .ok context) :
    operationId ≠ Digest.zero ∧ context =
      { scope := scope
        operationId := operationId
        predecessorHash := tip.checkpointHash
        sequence := tip.sequence
        expectedCheckpointHash := tip.checkpointHash
        expectedHeadHash := tip.headHash
        expectedSequence := tip.sequence
        predecessorETag := tip.etag
        writeFileSize := none
        overlay := false } := by
  simp only [sessionBind, check_bind_eq_ok, Except.ok.injEq] at success
  exact ⟨success.1, success.2.2.symm⟩

section
variable [ManifestCodec]

structure Rehydrated (store : Objects Hash) (sessionId : SessionId) (context after : Context Hash) :
    Prop where
  kept : ∃ predecessor sequence size overlay, after =
    { context with
      predecessorHash := predecessor
      sequence := sequence
      writeFileSize := size
      overlay := overlay }
  first : store.current (.head sessionId) = none →
    after.predecessorHash = Digest.zero ∧ after.sequence = 0
  next : ∀ stored ∈ store.current (.head sessionId),
    after.predecessorHash = stored.blob.record.body.checkpointHash ∧
      after.sequence = stored.blob.record.sequence

omit [ManifestCodec] in
theorem currentTime_ensures {failure : Err} : Ensures (Working machine) (fun _ after => after = store)
      (currentTime failure : Op Hash Nat) store := by
  simp only [Ensures, currentTime, alone_ask, Working]
  rintro _ ⟨now, rfl, _⟩
  simp

omit [ManifestCodec] in
theorem installScratch_ensures :
    Ensures (Working machine) (fun _ after => after = store)
      (installScratch man : Op Hash Unit) store := by
  simp [Ensures, installScratch, Working]

abbrev Rehydrates (store : Objects Hash) (binding : Binding) (context : Context Hash)
    (result : Manifest × Context Hash) (after : Objects Hash) : Prop :=
  after = store ∧ (∃ base, result.1.etag = some base ∧ BaseOf store binding.sessionId base) ∧
    Rehydrated store binding.sessionId context result.2

theorem rehydrateBase_ensures (absent : store.current (.head binding.sessionId) = none) :
    Ensures (Working machine) (Rehydrates store binding context)
      (rehydrateBase context) store := by
  apply fetchManifest_ensures.bind
  rintro base after ⟨same, manifest, here, parsed⟩
  rw [same]
  apply Ensures.require_bind
  intro _
  apply installScratch_ensures.bind
  rintro _ _ rfl
  refine Ensures.done ⟨rfl, ⟨manifest.etag, parseCopy_etag parsed, ?_⟩, ?_⟩
  · simp [BaseOf, absent, here]
  · exact ⟨⟨_, _, _, _, rfl⟩, fun _ => ⟨rfl, rfl⟩, by simp [absent]⟩

theorem rehydrateOverlay_ensures {stored : StoredHead Hash}
    (here : store.current (.head binding.sessionId) = some stored) :
    Ensures (Working machine) (Rehydrates store binding context)
      (rehydrateOverlay binding context stored.blob.record) store := by
  apply Ensures.require_bind
  intro _
  apply currentTime_ensures.bind
  rintro _ after same
  rw [same]
  apply Ensures.require_bind
  intro _
  apply Ensures.require_bind
  intro _
  apply fetchManifest_ensures.bind
  rintro base after ⟨same, _⟩
  rw [same]
  apply Ensures.require_bind
  intro _
  apply rehydrateChain_ensures.bind
  rintro checkpoint after ⟨unchanged, sameBase, version, record⟩
  rw [unchanged]
  apply Ensures.ofExcept_bind
  intro overlay parsed
  apply Ensures.ofExcept_bind
  intro _ _
  apply Ensures.require_bind
  intro published
  apply installScratch_ensures.bind
  rintro _ _ rfl
  refine Ensures.done ⟨rfl, ⟨_, parseCopy_etag parsed, ?_⟩, ?_⟩
  · simp only [BaseOf, here]
    refine ⟨sameBase, fun committed => ⟨version, ?_⟩⟩
    obtain ⟨digest, bytes⟩ := published (.inr committed)
    rw [record, ← bytes]
    exact digest
  · refine ⟨⟨_, _, _, _, rfl⟩, by simp [here], ?_⟩
    intro other there
    rw [here, Option.mem_some_iff] at there
    exact there ▸ ⟨rfl, rfl⟩

theorem sessionRehydrate_ensures :
    Ensures (Working machine) (Rehydrates store binding context)
      (sessionRehydrate binding context) store := by
  apply sessionReadHead_ensures.bind
  rintro current after ⟨read, same, _⟩
  rw [read, same]
  cases here : store.current (.head binding.sessionId) with
  | none => exact rehydrateBase_ensures here
  | some stored => exact rehydrateOverlay_ensures here

theorem attachBind_ensures (session : container.sessionId = some binding.sessionId)
    (owned : container.owned = true) :
    Ensures (Working machine)
      (fun result after => after = store ∧
        ∃ base, BaseOf store binding.sessionId base ∧
          Attachment store binding operationId base
            { container with man := some result.1, walFiles := [], context := some result.2 }
            result.2)
      (attachBind binding operationId man) store := by
  apply sessionAcceptedTip_ensures.bind
  rintro tip after ⟨same, etag, first, next⟩
  rw [same]
  apply Ensures.ofExcept_bind
  intro context success
  obtain ⟨nonzero, fields⟩ := sessionBind_eq_ok success
  apply sessionRehydrate_ensures.mono
  rintro ⟨overlay, final⟩ last ⟨unchanged, ⟨base, mapped, baseOf⟩, rehydrated⟩
  obtain ⟨⟨predecessor, sequence, size, layered, kept⟩, atFirst, atNext⟩ := rehydrated
  dsimp only at kept mapped atFirst atNext
  refine ⟨unchanged, base, baseOf, ?_⟩
  subst kept fields
  refine ⟨⟨overlay, rfl, mapped⟩, session, owned, rfl, rfl, rfl, nonzero, ?_, ?_, etag, ?_,
    fun stored here => (next stored here).2, ?_⟩
  · cases here : store.current (.head binding.sessionId) with
    | none => exact (atFirst here).1.trans (first here).1.symm
    | some stored =>
      rw [(next stored here).1]
      exact (atNext stored here).1
  · cases here : store.current (.head binding.sessionId) with
    | none => exact (atFirst here).2.trans (first here).2.symm
    | some stored =>
      rw [(next stored here).1]
      exact (atNext stored here).2
  · intro stored here
    rw [(next stored here).1]
  · cases here : store.current (.head binding.sessionId) with
    | none => exact (atFirst here).2
    | some stored => exact (atNext stored here).2

end

section
variable [ManifestCodec]

theorem attachSession_ensures {sessionId : SessionId} : Ensures (Working machine)
      (fun result after => after = store ∧ result.2.sessionId = some sessionId ∧
        result.2.owned = true)
      (attachSession sessionId container) store := by
  unfold attachSession
  split
  · apply Ensures.require_bind
    intro _
    apply Ensures.require_bind
    intro _
    apply Ensures.require_bind
    intro session
    exact Ensures.done ⟨rfl, session, rfl⟩
  · apply fetchManifest_ensures.bind
    rintro man _ ⟨rfl, _⟩
    exact Ensures.done ⟨rfl, rfl, rfl⟩

theorem attachSessionScoped_ensures :
    Ensures (Working machine)
      (fun result after => result.2 = .ok () → after = store ∧
        ∃ context base, BaseOf store binding.sessionId base ∧
          Attachment store binding operationId base result.1 context)
      (attachSessionScoped binding operationId container) store := by
  have reserved : Ensures (Working machine) (fun _ after => after = store)
      (Prog.require (databaseNameIsReserved binding.scope.database = false)
        ⟨.misuse, "session target is a reserved SQLite sidecar or local lock name"⟩ : Op Hash Unit)
      store := by
    unfold Prog.require
    split
    · exact Ensures.done rfl
    · exact Ensures.fail
  apply reserved.orKeep (fun _ _ failed => by cases failed)
  rintro _ after same
  rw [same]
  apply attachSession_ensures.orKeep (fun _ _ failed => by cases failed)
  rintro ⟨man, container⟩ last ⟨unchanged, session, owned⟩
  rw [unchanged]
  apply (attachBind_ensures session owned).attempt
  · rintro ⟨overlay, context⟩ after ⟨kept, base, baseOf, attachment⟩
    exact Ensures.done fun _ => ⟨kept, context, base, baseOf, attachment⟩
  · intro error after
    have releases : Ensures (Working machine) (fun _ _ => True)
        (releaseSession man { container with context := none } : Op Hash (ApiOut Hash Unit)) after :=
      alone_of_executes fun _ _ _ _ _ => trivial
    apply releases.bind
    rintro ⟨released, _⟩ _ _
    exact Ensures.done fun failed => by cases failed

end

theorem Attachment.localWrite {base : ETag}
    (attachment : Attachment store binding operationId base container context) (dbs : List ManifestDb)
    (walFiles : List String) (fileSize : Option Nat) :
    Attachment store binding operationId base (localWrite dbs walFiles fileSize container)
      { context with writeFileSize := fileSize } := by
  obtain ⟨man, attached, etag⟩ := attachment.mapped
  refine ⟨⟨{ man with dbs := dbs }, ?_, etag⟩, attachment.session, attachment.owned, ?_,
    attachment.scope, attachment.operation, attachment.nonzero, attachment.predecessor,
    attachment.sequence, attachment.fence, attachment.expected, attachment.owner,
    attachment.counted⟩
  · simp [Session.localWrite, attached]
  · simp [Session.localWrite, attachment.captured]

end RusqDoltlite.Session

import RusqDoltlite.Session.SoloAttach

/-! `sqlite3_bcvfs_session_finalize` of an attachment that has the store to itself: it
checkpoints, claims the session head and ends up in the publisher. -/

namespace RusqDoltlite.Session

open Effects

variable {Hash : Type} [DecidableEq Hash] [Digest Hash] {machine : Machine} {store : Objects Hash}
  {binding : Binding} {operationId : Hash} {base : ETag} {container : Container Hash} {context : Context Hash}

structure Checkpointed (machine : Machine) (store after : Objects Hash) (sessionId : SessionId)
    (base : ETag) (context : Context Hash) (encoded : Encoded Hash (CheckpointBody Hash)) : Prop where
  room : context.sequence ≠ sequenceMax
  record : ∃ now body, machine.clock now ∧
    encoded.record = checkpointRecord sessionId context now body ∧ body.baseManifestETag = base ∧
    body.baseCheckpointHash = if compactionThreshold - 1 ≤ context.sequence then
      some context.expectedCheckpointHash else none
  named : encoded.recordHash ≠ Digest.zero
  here : ∃ etag, after.current (.checkpoint sessionId encoded.recordHash) = some ⟨etag, encoded⟩
  inv : StoredInvariant after
  frame : ∀ key ≠ .checkpoint sessionId encoded.recordHash, after.versions key = store.versions key

section
variable {sessionId : SessionId}

theorem sessionPutCheckpoint_ensures (inv : StoredInvariant store) {scopeHash : Hash}
    {encoded : Encoded Hash (CheckpointBody Hash)} :
    Ensures (Working machine)
      (fun etag after => encoded.recordHash ≠ Digest.zero ∧ StoredInvariant after ∧
        after.current (.checkpoint sessionId encoded.recordHash) = some ⟨etag, encoded⟩ ∧
        ∀ key ≠ .checkpoint sessionId encoded.recordHash,
          after.versions key = store.versions key)
      (sessionPutCheckpoint sessionId scopeHash encoded) store := by
  apply Ensures.require_bind
  intro named
  apply Ensures.ofExcept_bind
  intro record decoded
  obtain ⟨_, owner, _⟩ := recordDecode_eq_ok decoded
  by_cases absent : store.current (.checkpoint sessionId encoded.recordHash) = none
  · have admits : store.Admits (.checkpoint sessionId encoded.recordHash) .absent := absent
    apply (putObject_yields admits).attempt_alone
    rintro etag _ ⟨_, rfl⟩
    refine Ensures.done ⟨named, ?_, store.write_current_same _ _, ?_⟩
    · exact inv.write ⟨rfl, owner sessionId rfl⟩ fun _ => absent
    · intro key other
      exact store.write_versions_other _ other
  · have refused : ¬store.Admits (.checkpoint sessionId encoded.recordHash) .absent := absent
    apply putObject_refused refused
    intro failure
    apply sessionFetchCheckpoint_ensures.attempt
    · rintro existing after ⟨read, same, _⟩
      rw [read, same]
      obtain ⟨version, here⟩ := Option.ne_none_iff_exists'.mp absent
      rw [here]
      unfold reconcileImmutable
      dsimp only
      split
      · rename_i equal
        refine Ensures.done ⟨named, inv, ?_, fun _ _ => rfl⟩
        rw [here, ← equal]
      · exact Ensures.fail
    · intro error after
      exact Ensures.fail

variable [ManifestCodec]

theorem sessionComposeBody_ensures {man : Manifest} {fileSize : Nat} : Ensures (Working machine)
      (fun body after => after = store ∧ man.etag = some body.baseManifestETag ∧
        body.baseCheckpointHash = if compactionThreshold - 1 ≤ context.sequence then
          some context.expectedCheckpointHash else none)
      (sessionComposeBody man context fileSize) store := by
  apply Ensures.require_bind
  intro _
  have verifies : Ensures (Working machine) (fun _ after => after = store)
      (verifyMappings man (man.flatten context.scope.database fileSize) : Op Hash Unit) store := by
    simp [Ensures, verifyMappings, Working]
  apply verifies.bind
  rintro _ after same
  rw [same]
  cases etag : man.etag with
  | none => exact Ensures.fail
  | some base =>
    apply Ensures.require_bind
    intro _
    exact Ensures.done ⟨rfl, rfl, rfl⟩

theorem checkpointStore_ensures (inv : StoredInvariant store) {man : Manifest}
    {fileSize : Nat} (etag : man.etag = some base) : Ensures (Working machine)
      (fun result after => Checkpointed machine store after sessionId base context result.2)
      (checkpointStore sessionId man context fileSize) store := by
  apply sessionComposeBody_ensures.bind
  rintro body after ⟨same, based, compacted⟩
  rw [same]
  rw [etag, Option.some.injEq] at based
  apply Ensures.require_bind
  intro room
  apply timestamp_yields.ensures.bind
  rintro now last ⟨reading, unchanged⟩
  rw [unchanged]
  apply Ensures.ofExcept_bind
  intro encoded success
  apply (sessionPutCheckpoint_ensures inv).bind
  rintro tag final ⟨named, kept, here, frame⟩
  have record := recordEncode_record success
  exact Ensures.done ⟨room, ⟨now, body, reading, record, based.symm, compacted⟩, named, ⟨tag, here⟩,
    kept, frame⟩

end

section
variable [ManifestCodec]

theorem sessionCheckpoint_ensures (inv : StoredInvariant store)
    (attachment : Attachment store binding operationId base container context) :
    Ensures (Working machine)
      (fun result after => ∀ encoded, result.2 = .ok encoded →
        Checkpointed machine store after binding.sessionId base context encoded)
      (sessionCheckpoint binding.sessionId container) store := by
  obtain ⟨man, attached, etag⟩ := attachment.mapped
  have bound : container.bound
      (container.ownedBy binding.sessionId "session does not own container alias")
      "session checkpoint scope is not bound" = .ok (man, context) := by
    simp [Container.bound, Container.ownedBy, attached, attachment.session, attachment.owned,
      attachment.captured, check, bind, Except.bind]
  unfold sessionCheckpoint
  rw [bound, Prog.orKeep_ok]
  have sizes : Ensures (Working machine) (fun _ after => after = store)
      (checkpointSize man context) store := by
    unfold checkpointSize
    split
    · exact Ensures.fail
    · have inspects (db : ManifestDb) : Ensures (Working machine) (fun _ after => after = store)
          (sessionFileSize man db context.writeFileSize) store := by
        have wal : Reads (Working machine) (machine.walFrames man db.name)
            (walNonEmpty man db.name : Op Hash Bool) store := by
          simp [Reads, Yields, walNonEmpty, Working]
        apply wal.attempt_alone
        cases machine.walFrames man db.name with
        | true => exact Ensures.fail
        | false =>
          apply Ensures.require_bind
          intro _
          apply Ensures.require_bind
          intro _
          apply Ensures.require_bind
          intro _
          exact Ensures.done rfl
      apply (inspects _).bind
      rintro size _ rfl
      apply Ensures.require_bind
      intro _
      exact Ensures.done rfl
  apply sizes.orKeep (fun _ _ _ failed => by cases failed)
  rintro fileSize after same
  rw [same]
  have stages : Reads (Working machine) (machine.staged man, .ok ())
      (stageDirty man : Op Hash (List ManifestDb × Except Err Unit)) store := by
    simp [Reads, Yields, stageDirty, Working]
  apply stages.bind_alone
  dsimp only
  rw [Prog.orKeep_ok]
  have stored : Ensures (Working machine)
      (fun result after => Checkpointed machine store after binding.sessionId base context result.2)
      (checkpointStore binding.sessionId { man with dbs := machine.staged man } context fileSize)
      store := checkpointStore_ensures inv etag
  apply stored.orKeep (fun _ _ _ failed => by cases failed)
  rintro ⟨next, encoded⟩ after checkpointed
  refine Ensures.done ?_
  rintro _ ⟨rfl⟩
  exact checkpointed

end

def ChecksOnly (_ : OpLog Hash) : Req Hash → Prop
  | .put (.checkpoint _ _) _ _ => True
  | .put _ _ _ => False
  | .get _ _ => True
  | .ask _ => True

instance : PermitsReads (ChecksOnly : OpLog Hash → Req Hash → Prop) where
  get _ _ _ := trivial
  ask _ _ := trivial

theorem Quiet.checksOnly {α : Type} {program : Op Hash α} (quiet : Quiet program)
    {log : OpLog Hash} : Obeys ChecksOnly Anything program log := by
  refine (quiet log).weaken ?_
  intro later request allowed
  cases request with
  | put key condition blob => exact allowed.elim
  | get key site => trivial
  | ask query => trivial

theorem checkpointStore_checksOnly [ManifestCodec] {sessionId : SessionId} {man : Manifest}
    {fileSize : Nat} {log : OpLog Hash} :
    Obeys ChecksOnly Anything (checkpointStore sessionId man context fileSize) log := by
  apply (sessionComposeBody_quiet _ _ _).checksOnly.bind
  intro body _ _ _
  apply Obeys.require_bind
  intro _
  apply timestamp_obeys.bind
  intro now _ _ _
  apply Obeys.ofExcept_bind
  intro encoded _
  have puts (later : OpLog Hash) : Obeys ChecksOnly Anything
      (sessionPutCheckpoint sessionId (Digest.scope context.scope) encoded) later := by
    apply Obeys.require_bind
    intro _
    apply Obeys.ofExcept_bind
    intro _ _
    apply Obeys.attempt (putObject_obeys trivial)
    · exact fun _ _ _ _ => trivial
    · intro failure last _
      apply ((Quiet.sessionFetchCheckpoint _ _ _).attempt _).checksOnly
      intro existing
      match existing with
      | .ok (some version) => exact .ite (.done _) (.fail _)
      | .ok none => exact .fail _
      | .error _ => exact .fail _
  exact (puts _).bind fun _ _ _ _ => trivial

theorem sessionCheckpoint_checksOnly [ManifestCodec] {sessionId : SessionId} {log : OpLog Hash} :
    Obeys ChecksOnly Anything (sessionCheckpoint sessionId container) log := by
  apply (Quiet.ofExcept _).checksOnly.orKeep (fun _ _ _ => trivial)
  intro bound _ _ _
  apply (checkpointSize_quiet _ _).checksOnly.orKeep (fun _ _ _ => trivial)
  intro fileSize _ _ _
  apply ask_obeys
  intro staged
  apply (Quiet.ofExcept _).checksOnly.orKeep (fun _ _ _ => trivial)
  intro _ _ _ _
  exact checkpointStore_checksOnly.orKeep (fun _ _ _ => trivial) fun _ _ _ _ => trivial

theorem sessionCheckpoint_alone [ManifestCodec] (inv : StoredInvariant store)
    (attachment : Attachment store binding operationId base container context) :
    Yields (Working machine)
      (fun result after =>
        after.versions (.head binding.sessionId) = store.versions (.head binding.sessionId) ∧
        ∀ encoded, result.2 = .ok encoded →
          Checkpointed machine store after binding.sessionId base context encoded)
      (sessionCheckpoint binding.sessionId container) store := by
  have returns : Yields (Working machine) (fun _ _ => True)
      (sessionCheckpoint binding.sessionId container) store := by
    apply Yields.orKeep_caught
    intro bound _
    apply Yields.orKeep_caught
    intro fileSize middle
    have stages : Reads (Working machine) (machine.staged bound.1, .ok ())
        (stageDirty bound.1 : Op Hash (List ManifestDb × Except Err Unit)) middle := by
      simp [Reads, Yields, stageDirty, Working]
    apply stages.bind
    apply Yields.orKeep_caught
    intro _ _
    apply Yields.orKeep_caught
    intro _ _
    exact Yields.done trivial
  have both := returns.ensured (sessionCheckpoint_ensures inv attachment)
  apply alone_of_executes
  intro outcome after executes
  obtain ⟨result, same, _, checkpointed⟩ := both.executes executes
  refine ⟨result, same, ?_, checkpointed⟩
  have only : Obeys ChecksOnly Anything (sessionCheckpoint binding.sessionId container) [] :=
    sessionCheckpoint_checksOnly
  apply executes.frame only
  exact fun _ _ _ written => written

/-- The head has been claimed for a new checkpoint of the operation. Neither `manifest.bcv`
nor the publication head has changed. -/
structure Claimed (machine : Machine) (store after : Objects Hash) (binding : Binding)
    (base : ETag) (context : Context Hash) (stored : StoredHead Hash)
    (checkpoint : StoredCheckpoint Hash) : Prop where
  inv : StoredInvariant after
  pending : Pending after binding stored checkpoint
  based : stored.blob.record.body.baseManifestETag = base
  operation : stored.blob.record.operationId = context.operationId
  own : checkpoint.blob.record.operationId = context.operationId
  sequence : stored.blob.record.sequence = context.sequence + 1
  fresh : ∃ now, machine.clock now ∧ stored.blob.record.expires = now + ttlMilliseconds
  manifest : after.versions .manifest = store.versions .manifest
  publication : after.versions .publication = store.versions .publication
  moved : after.versions (.head binding.sessionId) =
    stored :: store.versions (.head binding.sessionId)
  grows : store.Grows after

section
variable {after : Objects Hash} {encoded : Encoded Hash (CheckpointBody Hash)}

theorem Checkpointed.loaded (checkpointed : Checkpointed machine store after binding.sessionId base
      context encoded)
    (attachment : Attachment store binding operationId base container context) :
    encoded.record.sessionId = binding.sessionId ∧ encoded.record.scopeHash = binding.scopeHash ∧
      encoded.record.operationId = context.operationId ∧
      encoded.record.sequence = context.sequence + 1 ∧
      encoded.record.body.baseManifestETag = base ∧
      (∃ now, machine.clock now ∧ encoded.record.expires = now + ttlMilliseconds) ∧
      extendsPredecessor context encoded.record = true := by
  obtain ⟨now, body, reading, record, based, compacted⟩ := checkpointed.record
  rw [record]
  refine ⟨rfl, ?_, rfl, rfl, based, ⟨now, reading, rfl⟩, ?_⟩
  · rw [Binding.scopeHash, ← attachment.scope]
    rfl
  · simp only [extendsPredecessor, checkpointRecord, compacted]
    split <;> simp_all

theorem finalizeCandidate_reads (checkpointed : Checkpointed machine store after binding.sessionId
      base context encoded)
    (attachment : Attachment store binding operationId base container context) :
    Reads (Working machine)
      (encoded.record, (⟨encoded.recordHash, Digest.manifest encoded.record.body.manifest, base,
        encoded.record.body.manifest⟩ : Candidate Hash))
      (finalizeCandidate binding context encoded.recordHash) after := by
  obtain ⟨session, scope, operation, sequence, based, _, extending⟩ := checkpointed.loaded attachment
  obtain ⟨etag, here⟩ := checkpointed.here
  have opened := checkpoint_opened ⟨etag, encoded⟩
  apply (sessionFetchCheckpoint_reads checkpointed.named here ⟨rfl, session⟩ scope).bind
  apply Yields.require_bind ⟨opened.1, opened.2, sequence, operation⟩
  apply Yields.require_bind extending
  apply Yields.require_bind (checkpoint_manifest_ne_nil ⟨etag, encoded⟩)
  rw [← based]
  exact Reads.done

theorem finalizeClaim_alone (free : CollisionFree Hash)
    (attachment : Attachment store binding operationId base container context)
    (checkpointed : Checkpointed machine store after binding.sessionId base context encoded)
    (grows : store.Grows after) (admits : store.Admits (.head binding.sessionId) context.fence)
    {history : Hash × List Hash} (few : history.2.length ≤ maxHistoryOperations) (nonzero : Digest.zero ∉ history.2)
    {final : Except Err Unit → Objects Hash → Prop}
    (publishes : ∀ last stored checkpoint,
      Claimed machine store last binding base context stored checkpoint →
        Alone (Working machine) final (sessionPublish binding context.operationId) last) :
    Alone (Working machine) final (finalizeClaim binding context history encoded.recordHash)
      after := by
  obtain ⟨session, scope, operation, sequence, based, lifetime, _⟩ := checkpointed.loaded attachment
  obtain ⟨etag, here⟩ := checkpointed.here
  have nonempty := checkpoint_manifest_ne_nil ⟨etag, encoded⟩
  have small := checkpoint_manifest_small ⟨etag, encoded⟩
  unfold finalizeClaim
  apply (finalizeCandidate_reads checkpointed attachment).bind_alone
  dsimp only
  apply (sessionCandidatePut_yields free checkpointed.inv nonempty small).grows.bind_alone
  rintro _ middle ⟨⟨kept, _, frame⟩, more⟩
  have decodes : SessionBody.decode .publishing (⟨encoded.recordHash,
      Digest.manifest encoded.record.body.manifest, history.1, history.2, base⟩ : HeadBody Hash) =
        .ok () :=
    headDecode_eq_ok.mpr ⟨⟨few, fun _ => checkpointed.named, fun _ => free.manifest_ne_zero _⟩,
      nonzero⟩
  have requested : context.operationId ≠ Digest.zero := by
    rw [attachment.operation]
    exact attachment.nonzero
  obtain ⟨claim, success, record⟩ := sessionEncodeHeadStateEx_exists
    (finalizeBase binding context encoded.record) context.expectedHeadHash .none rfl
    (free.scope_ne_zero _) requested
    (recordCheck_eq_ok.mp encoded.checked).2.2.2.1 decodes
  rw [success]
  have still (key : Key Hash) (notCheckpoint : ∀ hash, key ≠ .checkpoint binding.sessionId hash)
      (notCandidate : ∀ hash, key ≠ .candidate hash) :
      middle.versions key = store.versions key := by
    rw [frame key (notCandidate _), checkpointed.frame key (notCheckpoint _)]
  have loaded : middle.current (.checkpoint binding.sessionId encoded.recordHash) =
      some ⟨etag, encoded⟩ := by
    rw [Store.current, frame _ (by simp)]
    exact here
  have admitted : middle.Admits (.head binding.sessionId) context.fence := by
    have same : middle.current (.head binding.sessionId) = store.current (.head binding.sessionId) := by
      rw [Store.current, still _ (by simp) (by simp), Store.current]
    unfold Store.Admits at admits ⊢
    rwa [same]
  have sessionOf : claim.record.sessionId = binding.sessionId := by rw [record]; rfl
  have scopeOf : claim.record.scopeHash = binding.scopeHash := by rw [record]; rfl
  apply (headAdvance_yields sessionOf scopeOf admitted).bind_alone
  rintro _ _ ⟨_, tag, rfl⟩
  have backed : Backed middle binding.sessionId claim.record := by
    refine ⟨⟨etag, encoded⟩, ?_, ?_, ?_, ?_, ?_, ?_⟩
    · rw [record]
      exact Store.mem_of_current loaded
    · rw [record]
      exact operation
    all_goals rw [record]
    · rfl
    · exact scope
    · exact based
  have written : StoredInvariant (middle.write (.head binding.sessionId) ⟨tag, claim⟩) :=
    kept.write ⟨sessionOf, fun _ => backed⟩ (by simp [Key.createOnly])
  apply publishes _ ⟨tag, claim⟩ ⟨etag, encoded⟩
  refine ⟨written, ⟨by simp, sessionOf, scopeOf, by rw [record], ?_, ⟨by rw [record], session⟩, scope,
    by rw [record], by rw [record]; exact based⟩, by rw [record], by rw [record]; rfl, operation,
    by rw [record]; exact sequence, by rw [record]; exact lifetime, ?_, ?_, ?_,
    (grows.trans more).trans (middle.write_grows _ _)⟩
  · rw [record, middle.write_current_other _ (by simp)]
    exact loaded
  · rw [middle.write_versions_other _ (by simp)]
    exact still _ (by simp) (by simp)
  · rw [middle.write_versions_other _ (by simp)]
    exact still _ (by simp) (by simp)
  · rw [middle.write_versions_same, still _ (by simp) (by simp)]

end

section

/-- What the finalizer makes of the head it has captured, if that is committed for another
operation or missing: it may be succeeded. -/
theorem finalizeHead_reads (inv : StoredInvariant store)
    (attachment : Attachment store binding operationId base container context)
    (settled : ∀ stored ∈ store.current (.head binding.sessionId),
      stored.blob.record.state = .committed ∧ stored.blob.record.operationId ≠ operationId) :
    ∃ history : Hash × List Hash, history.2.length ≤ maxHistoryOperations ∧
      Digest.zero ∉ history.2 ∧
      Reads (Working machine) (.succeed history)
        (sessionReadHead ⟨binding.sessionId, context.scope⟩ .other >>= fun current =>
          Prog.ofExcept (finalizeHead context current)) store := by
  have fence := attachment.fence
  have sameBinding : (⟨binding.sessionId, context.scope⟩ : Binding) = binding := by
    rw [attachment.scope]
  rw [sameBinding]
  cases here : store.current (.head binding.sessionId) with
  | none =>
    refine ⟨(Digest.zero, []), by simp, by simp, ?_⟩
    apply (sessionReadHead_absent here).bind
    simp only [here, Option.map_none] at fence
    simp only [finalizeHead, fence, check, if_pos, bind, Except.bind, Prog.ofExcept_ok]
    exact Reads.done
  | some stored =>
    obtain ⟨committed, other⟩ := settled stored here
    have session := (inv.filed (.head binding.sessionId) stored (Store.mem_of_current here)).1
    have decodes := (recordCheck_eq_ok.mp stored.blob.checked).2.2.2.2.2
    obtain ⟨⟨few, _⟩, nonzero⟩ := headDecode_eq_ok.mp decodes
    refine ⟨(stored.blob.record.body.historyHeadHash, stored.blob.record.body.historyOperations),
      few, nonzero, ?_⟩
    apply (sessionReadHead_reads here session (attachment.owner stored here)).bind
    simp only [here, Option.map_some] at fence
    have hash := attachment.expected stored here
    rw [← attachment.operation] at other
    simp only [finalizeHead, fence, hash, other, committed, check, bind, Except.bind, if_pos,
      and_self, if_false, ne_eq, reduceCtorEq, not_false_eq_true, or_true, Prog.ofExcept_ok]
    exact Reads.done

variable [ManifestCodec]

/-- Before its claim a finalizer leaves the head alone; after it, it ends as the publisher
does. -/
theorem sessionFinalize_alone (free : CollisionFree Hash) (inv : StoredInvariant store)
    (attachment : Attachment store binding operationId base container context)
    (settled : ∀ stored ∈ store.current (.head binding.sessionId),
      stored.blob.record.state = .committed ∧ stored.blob.record.operationId ≠ operationId)
    {final : Except Err Unit → Objects Hash → Prop}
    (stops : ¬(context.sequence ≠ sequenceMax ∧
        Yields (Working machine) (fun result _ => ∃ encoded, result.2 = .ok encoded)
          (sessionCheckpoint binding.sessionId container) store) →
      ∀ error after,
        after.versions (.head binding.sessionId) = store.versions (.head binding.sessionId) →
          final (.error error) after)
    (publishes : ∀ last stored checkpoint,
      Claimed machine store last binding base context stored checkpoint →
        Alone (Working machine) final (sessionPublish binding context.operationId) last) :
    Yields (Working machine) (fun result after => final result.2 after)
      (sessionFinalize binding.sessionId container) store := by
  obtain ⟨man, attached, _⟩ := attachment.mapped
  have bound : container.bound (container.acquire binding.sessionId)
      "session finalization scope is not bound" = .ok (man, context) := by
    simp [Container.bound, Container.acquire, attached, attachment.session, attachment.owned,
      attachment.captured, check, bind, Except.bind]
  have sameBinding : (⟨binding.sessionId, context.scope⟩ : Binding) = binding := by
    rw [attachment.scope]
  have admits : store.Admits (.head binding.sessionId) context.fence := by
    have fence := attachment.fence
    cases here : store.current (.head binding.sessionId) <;>
      simp [Store.Admits, Context.fence, fence, here]
  unfold sessionFinalize
  rw [bound, Prog.orKeep_ok]
  obtain ⟨history, few, nonzero, reads⟩ := finalizeHead_reads inv attachment settled
  apply Yields.orKeep reads
  rintro plan after ⟨rfl, same⟩
  rw [same, sameBinding]
  dsimp only
  by_cases room : context.expectedSequence ≠ sequenceMax ∧ context.sequence ≠ sequenceMax
  · rw [Prog.require_true room, ← Prog.ofExcept_ok, Prog.orKeep_ok]
    have checkpoints : Yields (Working machine)
        (fun result after => (∀ error, result.2 = .error error → final (.error error) after) ∧
          ∀ encoded, result.2 = .ok encoded →
            Checkpointed machine store after binding.sessionId base context encoded)
        (sessionCheckpoint binding.sessionId container) store := by
      by_cases workable : Yields (Working machine) (fun result _ => ∃ encoded, result.2 = .ok encoded)
          (sessionCheckpoint binding.sessionId container) store
      · apply ((sessionCheckpoint_alone inv attachment).ensured workable.ensures).mono
        rintro ⟨written, _⟩ middle ⟨⟨_, checkpointed⟩, encoded, rfl⟩
        exact ⟨fun _ impossible => (by cases impossible), checkpointed⟩
      · apply (sessionCheckpoint_alone inv attachment).mono
        rintro result middle ⟨unmoved, checkpointed⟩
        exact ⟨fun error _ => stops (fun works => workable works.2) error middle unmoved,
          checkpointed⟩
    apply checkpoints.grows.bind
    rintro ⟨written, outcome⟩ middle ⟨⟨fails, checkpointed⟩, grows⟩
    cases outcome with
    | error error => exact Yields.done (fails error rfl)
    | ok encoded =>
      rw [Prog.orKeep_ok]
      apply Alone.orKeep (finalizeClaim_alone free attachment (checkpointed encoded rfl) grows
        admits few nonzero publishes)
      · intro _ last holds
        exact Yields.done holds
      · intro error last holds
        exact ⟨(written, .error error), rfl, holds⟩
  · rw [Prog.require, if_neg room]
    have exhausted : ¬(context.sequence ≠ sequenceMax ∧
        Yields (Working machine) (fun result _ => ∃ encoded, result.2 = .ok encoded)
          (sessionCheckpoint binding.sessionId container) store) :=
      fun works => room ⟨attachment.sequence ▸ works.1, works.1⟩
    exact Yields.done (stops exhausted _ store rfl)

end

structure Change where
  dbs : List ManifestDb
  walFiles : List String
  fileSize : Option Nat

def invoke [ManifestCodec] (binding : Binding) (operationId : Hash) (change : Change)
    (last : Call Hash) (container : Container Hash) : Op Hash (ApiOut Hash Unit) := do
  let (attached, outcome) ← attachSessionScoped binding operationId container
  match outcome with
  | .error error => .done (attached, .error error)
  | .ok () => api last (localWrite change.dbs change.walFiles change.fileSize attached)

section
variable [ManifestCodec]

theorem attachSessionScoped_alone :
    Yields (Working machine)
      (fun result after =>
        after.versions (.head binding.sessionId) = store.versions (.head binding.sessionId) ∧
        (result.2 = .ok () → after = store ∧ ∃ context base, BaseOf store binding.sessionId base ∧
          Attachment store binding operationId base result.1 context))
      (attachSessionScoped binding operationId container) store := by
  have releases (man : Manifest) (owned : Container Hash) (middle : Objects Hash) :
      Yields (Working machine) (fun _ _ => True) (releaseSession man owned) middle := by
    unfold releaseSession
    dsimp only
    split
    · apply Yields.orKeep_caught
      intro dirty after
      exact Yields.done trivial
    · exact Yields.done trivial
  have returns : Yields (Working machine) (fun _ _ => True)
      (attachSessionScoped binding operationId container) store := by
    apply Yields.orKeep_caught
    intro _ _
    apply Yields.orKeep_caught
    intro owned middle
    have any : Alone (Working machine) (fun _ _ => True) (attachBind binding operationId owned.1)
        middle := alone_of_executes fun _ _ _ => trivial
    unfold Yields
    rw [alone_bind, alone_attempt]
    apply any.mono
    intro outcome after _
    cases outcome with
    | ok bound => exact Yields.done trivial
    | error error =>
      apply (releases owned.1 { owned.2 with context := none } after).bind
      intro released last _
      exact Yields.done trivial
  have ensures : Ensures (Working machine)
      (fun result after => result.2 = .ok () → after = store ∧
        ∃ context base, BaseOf store binding.sessionId base ∧
          Attachment store binding operationId base result.1 context)
      (attachSessionScoped binding operationId container) store := attachSessionScoped_ensures
  have both := returns.ensured ensures
  apply alone_of_executes
  intro outcome after executes
  obtain ⟨result, same, _, attached⟩ := both.executes executes
  refine ⟨result, same, ?_, attached⟩
  apply executes.frame (attachSessionScoped_quiet binding operationId container [])
  exact fun _ _ _ written => written

/-- Nothing stops the invocation before it claims the head: its attach and its checkpoint
succeed, and the sequence of the session is not exhausted. -/
def Workable (machine : Machine) (store : Objects Hash) (binding : Binding) (operationId : Hash)
    (change : Change) (container : Container Hash) : Prop :=
  (∀ stored ∈ store.current (.head binding.sessionId),
    stored.blob.record.sequence ≠ sequenceMax) ∧
  Yields (Working machine) (fun result _ => result.2 = .ok ())
    (invoke binding operationId change (.checkpoint binding.sessionId) container) store

theorem checkpointed_of_call {sessionId : SessionId}
    (works : Yields (Working machine) (fun result _ => result.2 = .ok ())
      (api (.checkpoint sessionId) container) store) :
    Yields (Working machine) (fun result _ => ∃ encoded, result.2 = .ok encoded)
      (sessionCheckpoint sessionId container) store := by
  unfold Yields at works
  rw [api, alone_bind] at works
  apply works.mono
  intro outcome after holds
  cases outcome with
  | error error =>
    obtain ⟨_, impossible, _⟩ := holds
    cases impossible
  | ok result =>
    obtain ⟨written, stored⟩ := result
    obtain ⟨_, same, ok⟩ := holds
    cases same
    cases stored with
    | error error => cases ok
    | ok encoded => exact ⟨_, rfl, encoded, rfl⟩

theorem Workable.attached {change : Change}
    (workable : Workable machine store binding operationId change container) :
    Yields (Working machine)
      (fun result after => after = store ∧ ∃ context base, BaseOf store binding.sessionId base ∧
        Attachment store binding operationId base
          (localWrite change.dbs change.walFiles change.fileSize result.1) context ∧
        result.2 = .ok () ∧ context.sequence ≠ sequenceMax ∧
        Yields (Working machine) (fun result _ => ∃ encoded, result.2 = .ok encoded)
          (sessionCheckpoint binding.sessionId
            (localWrite change.dbs change.walFiles change.fileSize result.1)) store)
      (attachSessionScoped binding operationId container) store := by
  obtain ⟨room, works⟩ := workable
  unfold invoke Yields at works
  rw [alone_bind] at works
  apply (attachSessionScoped_alone.and works).mono
  rintro _ after ⟨⟨⟨attached, outcome⟩, rfl, _, binds⟩, next⟩
  refine ⟨(attached, outcome), rfl, ?_⟩
  cases outcome with
  | error error =>
    obtain ⟨_, same, impossible⟩ := next
    cases same
    cases impossible
  | ok value =>
    obtain ⟨rfl, context, base, based, attachment⟩ := binds rfl
    have written := attachment.localWrite change.dbs change.walFiles change.fileSize
    refine ⟨rfl, _, base, based, written, rfl, ?_, ?_⟩
    · rw [written.counted]
      cases here : after.current (.head binding.sessionId) with
      | none => simp [sequenceMax]
      | some stored => exact room stored here
    · exact checkpointed_of_call next

theorem invoke_finalize_alone (final : Except Err Unit → Objects Hash → Prop)
    (free : CollisionFree Hash) (inv : StoredInvariant store)
    (settled : ∀ stored ∈ store.current (.head binding.sessionId),
      stored.blob.record.state = .committed ∧ stored.blob.record.operationId ≠ operationId)
    {change : Change}
    (stops : ¬Workable machine store binding operationId change container → ∀ error after,
      after.versions (.head binding.sessionId) = store.versions (.head binding.sessionId) →
        final (.error error) after)
    (publishes : ∀ base written context last stored checkpoint, BaseOf store binding.sessionId base →
      Attachment store binding operationId base written context →
      Claimed machine store last binding base context stored checkpoint →
        Alone (Working machine) final (sessionPublish binding operationId) last) :
    Yields (Working machine) (fun result after => final result.2 after)
      (invoke binding operationId change (.finalize binding.sessionId) container) store := by
  by_cases workable : Workable machine store binding operationId change container
  · apply workable.attached.bind
    rintro ⟨attached, _⟩ after ⟨rfl, context, base, based, attachment, rfl, works⟩
    apply sessionFinalize_alone free inv attachment settled (fun impossible => absurd works impossible)
    intro last stored checkpoint claimed
    rw [attachment.operation]
    exact publishes base _ context last stored checkpoint based attachment claimed
  · apply attachSessionScoped_alone.bind
    rintro ⟨attached, outcome⟩ after ⟨unmoved, binds⟩
    cases outcome with
    | error error => exact Yields.done (stops workable error after unmoved)
    | ok value =>
      obtain ⟨same, context, base, based, attachment⟩ := binds rfl
      rw [same]
      have written := attachment.localWrite change.dbs change.walFiles change.fileSize
      apply sessionFinalize_alone free inv written settled (fun _ => stops workable)
      intro last stored checkpoint claimed
      rw [written.operation]
      exact publishes base _ _ last stored checkpoint based written claimed

end

def ShowsOwn (store : Objects Hash) (sessionId : SessionId) (operationId : Hash) : Prop :=
  ∃ hash, ∃ version ∈ store.versions (.checkpoint sessionId hash),
    version.blob.record.operationId = operationId ∧
      Displays store version.blob.record.body.manifest

def Machine.Steady (machine : Machine) : Prop :=
  ∀ earlier later, machine.clock earlier → machine.clock later → later < earlier + ttlMilliseconds

section
variable {last : Objects Hash} {stored : StoredHead Hash}
variable {checkpoint : StoredCheckpoint Hash}

theorem Claimed.unexpired (claimed : Claimed machine store last binding base context stored checkpoint)
    (steady : machine.Steady) (now : Nat) (reading : machine.clock now) :
    now < stored.blob.record.expires := by
  obtain ⟨start, started, expires⟩ := claimed.fresh
  rw [expires]
  exact steady start now started reading

/-- A publication head that was there before is not for the candidate of a new operation:
it names a checkpoint of another one. -/
theorem Claimed.unnamed (claimed : Claimed machine store last binding base context stored checkpoint)
    (inv : StoredInvariant store)
    (new : ∀ hash, ∀ version ∈ store.versions (.checkpoint binding.sessionId hash),
      version.blob.record.operationId ≠ context.operationId)
    {publication : StoredPublication Hash} (current : store.current .publication = some publication) :
    ¬Names publication.blob.record binding.sessionId (candidateOf stored checkpoint) := by
  rintro ⟨session, body⟩
  obtain ⟨version, held, _⟩ :=
    (inv.filed .publication publication (Store.mem_of_current current)).2.1
  rw [session, body] at held
  have same := claimed.inv.unique (.checkpoint binding.sessionId stored.blob.record.body.checkpointHash)
    rfl version (claimed.grows.mem held) checkpoint (Store.mem_of_current claimed.pending.loaded)
  exact new _ version held (same ▸ claimed.own)

end

end RusqDoltlite.Session

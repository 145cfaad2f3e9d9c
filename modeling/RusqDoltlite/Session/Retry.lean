import RusqDoltlite.Session.FreeDigest
import RusqDoltlite.Session.SoloPublish

/-! A publication that was interrupted after its candidate became the visible manifest can
be finished by retrying it, as long as nothing has replaced the manifest or the
publication head. -/

namespace RusqDoltlite.Session

open Effects

variable {Hash : Type} [DecidableEq Hash] [Digest Hash]

structure BoundTo (container : Container Hash) (sessionId : SessionId) (head : Head Hash)
    (context : Context Hash) : Prop where
  attached : container.man.isSome = true
  session : container.sessionId = some sessionId
  owned : container.owned = true
  captured : container.context = some context
  scope : Digest.scope context.scope = head.scopeHash
  operation : context.operationId = head.operationId

instance (container : Container Hash) (sessionId : SessionId) (head : Head Hash)
    (context : Context Hash) : Decidable (BoundTo container sessionId head context) :=
  decidable_of_iff
    (container.man.isSome = true ∧ container.sessionId = some sessionId ∧
      container.owned = true ∧ container.context = some context ∧
      Digest.scope context.scope = head.scopeHash ∧ context.operationId = head.operationId)
    ⟨fun ⟨one, two, three, four, five, six⟩ => ⟨one, two, three, four, five, six⟩,
      fun ⟨one, two, three, four, five, six⟩ => ⟨one, two, three, four, five, six⟩⟩

/-- A call of session_upload, or one of session_finalize by an attachment that has captured
the head, for the operation of the head. -/
def Retries (call : Call Hash) (start : Container Hash) (sessionId : SessionId)
    (stored : StoredHead Hash) : Prop :=
  ∃ context ∈ start.context, BoundTo start sessionId stored.blob.record context ∧
    (call = .sessionUpload sessionId ∨
      call = .finalize sessionId ∧ context.predecessorETag = some stored.etag ∧
        context.expectedHeadHash = stored.blob.recordHash)

instance (call : Call Hash) (start : Container Hash) (sessionId : SessionId)
    (stored : StoredHead Hash) : Decidable (Retries call start sessionId stored) :=
  inferInstanceAs (Decidable (∃ context ∈ start.context, _))

section
variable {container : Container Hash} {sessionId : SessionId} {head : Head Hash}
variable {context : Context Hash}

omit [DecidableEq Hash] in
theorem BoundTo.acquire (bound : BoundTo container sessionId head context) (unbound : String) :
    ∃ man, container.bound (container.acquire sessionId) unbound = .ok (man, context) := by
  obtain ⟨man, attached⟩ := Option.isSome_iff_exists.mp bound.attached
  refine ⟨man, ?_⟩
  simp [Container.bound, Container.acquire, attached, bound.session, bound.owned, bound.captured,
    check, bind, Except.bind]

omit [DecidableEq Hash] in
theorem BoundTo.ownedBy (bound : BoundTo container sessionId head context) (notOwner unbound : String) :
    ∃ man, container.bound (container.ownedBy sessionId notOwner) unbound = .ok (man, context) := by
  obtain ⟨man, attached⟩ := Option.isSome_iff_exists.mp bound.attached
  refine ⟨man, ?_⟩
  simp [Container.bound, Container.ownedBy, attached, bound.session, bound.owned, bound.captured,
    check, bind, Except.bind]

end

def NamesHead (publication : Publication Hash) (head : Head Hash) : Prop :=
  publication.sessionId = head.sessionId ∧ publication.body =
    ⟨head.body.checkpointHash, head.body.candidateManifestHash, head.body.baseManifestETag⟩

instance (publication : Publication Hash) (head : Head Hash) :
    Decidable (NamesHead publication head) :=
  inferInstanceAs (Decidable (_ ∧ _))

/-- The candidate of the head is the visible manifest and the publication head names it;
the publication sequence has room for the records of a retry. -/
def StillPublished (store : Objects Hash) (head : Head Hash) : Prop :=
  (∃ manifest ∈ store.current .manifest,
    Digest.manifest manifest.blob = head.body.candidateManifestHash) ∧
  ∃ publication ∈ store.current .publication, NamesHead publication.blob.record head ∧
    publication.blob.record.sequence + 3 ≤ sequenceMax

instance (store : Objects Hash) (head : Head Hash) : Decidable (StillPublished store head) :=
  inferInstanceAs (Decidable ((∃ manifest ∈ _, _) ∧ ∃ publication ∈ _, _))

section
variable {machine : Machine} {store : Objects Hash} {sessionId : SessionId}
variable {stored : StoredHead Hash}

theorem Retries.alone [ManifestCodec] {call : Call Hash} {start : Container Hash}
    (retries : Retries call start sessionId stored)
    (head : store.current (.head sessionId) = some stored)
    (session : stored.blob.record.sessionId = sessionId)
    (state : stored.blob.record.state = .publishing)
    {post : Objects Hash → Prop}
    (publishes : ∀ binding operationId, binding.sessionId = sessionId →
      stored.blob.record.scopeHash = binding.scopeHash →
      Yields (Working machine) (fun _ after => post after) (sessionPublish binding operationId) store) :
    Yields (Working machine) (fun result after => result.2 = .ok () ∧ post after)
      (api call start) store := by
  obtain ⟨context, _, bound, rfl | ⟨rfl, etag, hash⟩⟩ := retries
  · obtain ⟨man, success⟩ := bound.ownedBy "session does not own container alias"
      "session publication scope is not bound"
    show Yields _ _ (sessionUpload sessionId start) store
    unfold sessionUpload
    rw [success, Prog.orKeep_ok]
    apply (publishes ⟨sessionId, context.scope⟩ context.operationId rfl bound.scope.symm).orKeep
    rintro _ after holds
    exact Yields.done ⟨rfl, holds⟩
  · obtain ⟨man, success⟩ := bound.acquire "session finalization scope is not bound"
    have plan : finalizeHead context (some stored) = .ok .publish := by
      simp [finalizeHead, etag, hash, bound.operation, state, check, bind, Except.bind]
    show Yields _ _ (sessionFinalize sessionId start) store
    unfold sessionFinalize
    rw [success, Prog.orKeep_ok]
    have reads : Reads (Working machine) FinalizePlan.publish
        (sessionReadHead ⟨sessionId, context.scope⟩ .other >>= fun current =>
          Prog.ofExcept (finalizeHead context current)) store := by
      apply (sessionReadHead_reads head session bound.scope.symm).bind
      rw [plan]
      exact Reads.done
    apply Yields.orKeep reads
    rintro _ _ ⟨rfl, rfl⟩
    apply (publishes ⟨sessionId, context.scope⟩ context.operationId rfl bound.scope.symm).orKeep
    rintro _ after holds
    exact Yields.done ⟨rfl, holds⟩

theorem StillPublished.passable (free : CollisionFree Hash) {binding : Binding}
    {checkpoint : StoredCheckpoint Hash} (pending : Pending store binding stored checkpoint)
    (still : StillPublished store stored.blob.record) :
    (∃ manifest, Passable store binding.sessionId (candidateOf stored checkpoint) manifest) ∧
      store.current .publication ≠ none := by
  obtain ⟨⟨manifest, here, digest⟩, publication, current, ⟨session, body⟩, room⟩ := still
  have same : manifest.blob = checkpoint.blob.record.body.manifest :=
    free.manifest (digest.trans pending.digest.symm)
  have only (other : StoredPublication Hash) (there : other ∈ store.current .publication) :
      other = publication := Option.mem_unique there current
  have named : Names publication.blob.record binding.sessionId (candidateOf stored checkpoint) := by
    refine ⟨session.trans pending.session, ?_⟩
    rw [body, Candidate.publicationBody, candidateOf, pending.digest]
  refine ⟨⟨manifest, here, same ▸ checkpoint_manifest_small checkpoint, ?_, ?_, ?_, ?_⟩, ?_⟩
  · intro other there _
    rw [only other there, body, digest]
  · intro other there
    rw [only other there]
    omega
  · intro _ _ _
    exact same
  · intro unnamed
    exact absurd named (unnamed publication current)
  · rw [Option.mem_def.mp current]
    simp

end

/-- In every reachable store: a retry of an interrupted publication whose candidate is
still published returns SQLITE_OK and commits the head. -/
theorem retry_commits [ManifestCodec] (free : CollisionFree Hash) {store : Objects Hash}
    (fresh : store.fresh) {names : Nat → String} {pool : Pool Hash}
    (run : Run (clients (fun _ _ => True) (fun _ _ => True)) (Pool.initial store names) pool)
    {sessionId : SessionId} {stored : StoredHead Hash}
    (head : pool.store.current (.head sessionId) = some stored)
    (state : stored.blob.record.state = .publishing) {machine : Machine}
    (unexpired : ∀ now, machine.clock now → now < stored.blob.record.expires)
    (still : StillPublished pool.store stored.blob.record) {call : Call Hash}
    {start : Container Hash} (retries : Retries call start sessionId stored) :
    Yields (Working machine)
      (fun result after => result.2 = .ok () ∧
        ∃ latest, after.current (.head sessionId) = some latest ∧
          latest.blob.record.state = .committed ∧
          latest.blob.record.operationId = stored.blob.record.operationId)
      (api call start) pool.store := by
  have inv := ((storedCertificate_initial fresh names).run run).inv
  have session := (inv.filed (.head sessionId) stored (Store.mem_of_current head)).1
  apply retries.alone head session state
  rintro binding operationId rfl scope
  obtain ⟨checkpoint, pending, _⟩ := inv.pending head scope state
  obtain ⟨⟨manifest, passable⟩, present⟩ := still.passable free pending
  apply (sessionPublish_yields free inv pending unexpired passable fun absent =>
    absurd absent present).mono
  rintro _ after ⟨_, latest, current, committed, operation, _⟩
  exact ⟨latest, current, committed, operation⟩

section interrupted

theorem stillService_working (query : Query) :
    Working stillMachine query (stillService.reply query) := by
  cases query with
  | timestamp => rfl
  | currentTime => exact ⟨0, rfl, rfl⟩
  | stageDirty man => rfl
  | verifyMappings base man => rfl
  | installOverlay man => rfl
  | walNonEmpty man database => rfl
  | prepareUpload man chosen => exact ⟨_, rfl⟩
  | mergeLocal man uploaded => exact ⟨_, rfl⟩
  | manifestUpdate man fetched => exact ⟨_, rfl⟩
  | localChanges man => exact ⟨_, rfl⟩

def stillFails (program : Op Tree (ApiOut Tree Unit)) (store : Objects Tree) : Option Err :=
  match stillService.execute program store with
  | some (.ok (_, .error error), _) => some error
  | _ => none

theorem stillFails_executes {program : Op Tree (ApiOut Tree Unit)} {store : Objects Tree}
    {error : Err} (fails : stillFails program store = some error) :
    ∃ container after, Executes (Working stillMachine) program store
      (.ok (container, .error error)) after := by
  unfold stillFails at fails
  split at fails
  · rename_i container failure after executed
    cases fails
    exact ⟨container, after, stillService.execute_executes stillService_working executed⟩
  · cases fails

/-- The first client stops before the last read of its publication; the third attaches to
the session in order to retry. -/
def interrupted : List (Action (Call Tree)) :=
  invocation 1 oneBinding (.leaf 10) 2 (.finalize oneSession) 21 ++
    [.start 3 (.attachScoped oneBinding (.leaf 10)), .serve 3 100, .finish 3]

def replaced : List (Action (Call Tree)) :=
  interrupted ++ [.start 2 .attach, .serve 2 100, .finish 2, .start 2 (writeBlock 9), .finish 2,
    .start 2 .upload, .serve 2 100, .finish 2]

def retryCalls : List (Call Tree) := [.sessionUpload oneSession, .finalize oneSession]

def Interrupted (store : Objects Tree) (stored : StoredHead Tree) : Prop :=
  stored.blob.record.state = .publishing ∧ 0 < stored.blob.record.expires ∧
    Held store stored.blob.record.body.candidateManifestHash ∧
    ∃ publication ∈ store.versions .publication, publication.blob.record.state = .committed ∧
      NamesHead publication.blob.record stored.blob.record

instance (store : Objects Tree) (hash : Tree) : Decidable (Held store hash) :=
  inferInstanceAs (Decidable (∃ shown ∈ _, _))

instance (store : Objects Tree) (stored : StoredHead Tree) : Decidable (Interrupted store stored) :=
  inferInstanceAs (Decidable (_ ∧ _ ∧ _ ∧ ∃ publication ∈ _, _))

def retrying (test : Objects Tree → StoredHead Tree → Container Tree → Bool) (pool : Pool Tree)
    (_ : List (Key Tree)) : Bool :=
  match pool.clients 3, pool.store.current (.head oneSession) with
  | .idle start, some stored => test pool.store stored start
  | _, _ => false

theorem retrying_sound {test : Objects Tree → StoredHead Tree → Container Tree → Bool}
    {pool : Pool Tree} {written : List (Key Tree)} (found : retrying test pool written = true) :
    ∃ start stored, pool.clients 3 = .idle start ∧
      pool.store.current (.head oneSession) = some stored ∧ test pool.store stored start = true := by
  unfold retrying at found
  split at found
  · rename_i start stored idle current
    exact ⟨start, stored, idle, current, found⟩
  · cases found

def retryFails (store : Objects Tree) (stored : StoredHead Tree) (start : Container Tree) : Bool :=
  Interrupted store stored ∧ ∀ call ∈ retryCalls, Retries call start oneSession stored ∧
    stillFails (api call start) store =
      some ⟨.constraint, "committed publication head does not name the visible manifest"⟩

theorem replaced_retryFails :
    (schedule (clients (fun _ _ => True) (fun _ _ => True)) stillService replaced
      (Pool.initial oneBlock fun _ => "main", [])).any
        (fun last => retrying retryFails last.1 last.2) = true := by
  decide +kernel

/-- Once the manifest has been replaced, either call fails, although the candidate had been
installed by the publisher. -/
theorem retry_fails_after_upload :
    CollisionFree Tree ∧ ∃ (pool : Pool Tree) (start : Container Tree) (stored : StoredHead Tree),
      Run (clients (fun _ _ => True) (fun _ _ => True))
        (Pool.initial oneBlock fun _ => "main") pool ∧
      pool.clients 3 = .idle start ∧ pool.store.current (.head oneSession) = some stored ∧
      Interrupted pool.store stored ∧
      ∀ call ∈ retryCalls, Retries call start oneSession stored ∧
        ¬Yields (Working stillMachine) (fun result _ => result.2 = .ok ()) (api call start)
          pool.store := by
  refine ⟨Tree.collisionFree, ?_⟩
  obtain ⟨pool, written, run, _, found⟩ := schedule_reaches (retrying retryFails) replaced_retryFails
  obtain ⟨start, stored, idle, current, fails⟩ := retrying_sound found
  obtain ⟨interrupted, all⟩ := of_decide_eq_true fails
  refine ⟨pool, start, stored, run, idle, current, interrupted, ?_⟩
  intro call member
  obtain ⟨retries, failure⟩ := all call member
  refine ⟨retries, ?_⟩
  intro succeeds
  obtain ⟨container, after, executes⟩ := stillFails_executes failure
  obtain ⟨result, same, ok⟩ := succeeds.executes executes
  cases same
  cases ok

def retryWorks (store : Objects Tree) (stored : StoredHead Tree) (start : Container Tree) : Bool :=
  stored.blob.record.state = .publishing ∧ 0 < stored.blob.record.expires ∧
    StillPublished store stored.blob.record ∧
    Retries (.finalize oneSession) start oneSession stored

theorem interrupted_retryWorks :
    (schedule (clients (fun _ _ => True) (fun _ _ => True)) stillService interrupted
      (Pool.initial oneBlock fun _ => "main", [])).any
        (fun last => retrying retryWorks last.1 last.2) = true := by
  decide +kernel

theorem retry_commits_interrupted :
    ∃ (pool : Pool Tree) (start : Container Tree) (stored : StoredHead Tree),
      Run (clients (fun _ _ => True) (fun _ _ => True))
        (Pool.initial oneBlock fun _ => "main") pool ∧
      pool.store.current (.head oneSession) = some stored ∧
      stored.blob.record.state = .publishing ∧
      StillPublished pool.store stored.blob.record ∧
      Retries (.finalize oneSession) start oneSession stored ∧
      Yields (Working stillMachine)
        (fun result after => result.2 = .ok () ∧
          ∃ latest, after.current (.head oneSession) = some latest ∧
            latest.blob.record.state = .committed ∧
            latest.blob.record.operationId = stored.blob.record.operationId)
        (api (.finalize oneSession) start) pool.store := by
  obtain ⟨pool, written, run, _, found⟩ := schedule_reaches (retrying retryWorks) interrupted_retryWorks
  obtain ⟨start, stored, _, current, works⟩ := retrying_sound found
  obtain ⟨state, unexpired, still, retries⟩ := of_decide_eq_true works
  refine ⟨pool, start, stored, run, current, state, still, retries, ?_⟩
  apply retry_commits Tree.collisionFree oneBlock_fresh run current state _ still retries
  rintro now rfl
  exact unexpired

end interrupted

end RusqDoltlite.Session

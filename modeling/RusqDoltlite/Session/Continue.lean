import RusqDoltlite.Session.Retry
import RusqDoltlite.Session.SoloFinalize

/-! A further invocation of a session whose last one is published. -/

namespace RusqDoltlite.Session

open Effects

variable {Hash : Type} [DecidableEq Hash] [Digest Hash] {machine : Machine} {store : Objects Hash}
  {binding : Binding} {publication : StoredPublication Hash} {manifest : Version ETag Bytes}

section blocked
variable {head : StoredHead Hash} {candidate : Candidate Hash}

theorem publicationAdvance_refused (inv : StoredInvariant store)
    (current : store.current .publication = some publication) {condition : Condition ETag}
    {failure : Err} {reconciles : Encoded Hash (PublicationBody Hash) → Bool}
    (differs : reconciles publication.blob = false) :
    Alone (Working machine) (fun outcome after => outcome = .error failure ∧ after = store)
      (publicationAdvance condition (.error failure) reconciles) store := by
  have filed (version : StoredPublication Hash) (there : version ∈ store.current .publication) :=
    inv.filed .publication version (Store.mem_of_current there)
  unfold publicationAdvance
  simp only [Prog.ofExcept_error, Prog.bind_fail, Prog.attempt_fail, Prog.bind_done]
  apply (sessionFetchPublication_reads filed).attempt_alone
  simp [current, differs]

theorem sessionEncodePublicationState_exhausted {old : Encoded Hash (PublicationBody Hash)}
    (last : old.record.sequence = sequenceMax) {sessionId : SessionId}
    {checkpointHash candidateHash : Hash} {baseETag : ETag} {operationId : Hash}
    {state : RecordState} {outcome : Outcome} :
    sessionEncodePublicationState (.publication old) sessionId checkpointHash candidateHash baseETag
      operationId state outcome = .fail ⟨.tooBig, "publication sequence exhausted"⟩ := by
  simp [sessionEncodePublicationState, Prog.require, last]

theorem publicationCommit_exhausted (inv : StoredInvariant store)
    (current : store.current .publication = some publication)
    (pending : publication.blob.record.state = .publishing)
    (last : publication.blob.record.sequence = sequenceMax) :
    Alone (Working machine) (fun outcome after => (∃ error, outcome = .error error) ∧ after = store)
      (publicationCommit binding candidate publication) store := by
  unfold publicationCommit
  rw [sessionEncodePublicationState_exhausted last]
  simp only [Prog.attempt_fail, Prog.bind_done]
  apply Alone.bind (publicationAdvance_refused inv current _)
  · rintro _ _ ⟨impossible, _⟩
    cases impossible
  · rintro error after ⟨_, same⟩
    exact ⟨⟨error, rfl⟩, same⟩
  · simp [sameBytes, sessionPublicationMatches, pending]

end blocked

/-- The manifest is the base of the candidate, and two more publication records fit. -/
def Supersedes (manifest : Version ETag Bytes) (publication : Publication Hash) (base : ETag) : Prop :=
  manifest.etag = base ∧ publication.sequence ≠ sequenceMax ∧ publication.sequence + 1 ≠ sequenceMax

instance (manifest : Version ETag Bytes) (publication : Publication Hash) (base : ETag) :
    Decidable (Supersedes manifest publication base) :=
  inferInstanceAs (Decidable (_ ∧ _ ∧ _))

def Fence.Exhausted (after : Objects Hash) (base : ETag) : Fence Hash → Prop
  | .committed => False
  | .held publication => after.current .publication = some publication ∧
      publication.blob.record.state = .publishing ∧
      publication.blob.record.sequence = sequenceMax ∧
      ∃ manifest, after.current .manifest = some manifest ∧ manifest.etag = base ∧
        manifest.blob.length ≤ bodyMaxBytes

section stuck
variable {head : StoredHead Hash} {candidate : Candidate Hash}

theorem publicationCommitted_stuck (free : CollisionFree Hash) (inv : StoredInvariant store)
    (ready : candidate.Ready store binding.sessionId)
    (current : store.current .publication = some publication)
    (unnamed : ¬Names publication.blob.record binding.sessionId candidate)
    (here : store.current .manifest = some manifest) (small : manifest.blob.length ≤ bodyMaxBytes)
    (stuck : ¬Supersedes manifest publication.blob.record candidate.baseETag) :
    Alone (Working machine)
      (fun outcome after => StoredInvariant after ∧
        (∀ key ≠ .publication, after.versions key = store.versions key) ∧
        ∀ fence, outcome = .ok fence → fence.Exhausted after candidate.baseETag)
      (publicationCommitted binding head candidate publication) store := by
  have other (state : RecordState) : sessionPublicationMatches publication.blob.record state
      binding.sessionId candidate.checkpointHash candidate.candidateHash candidate.baseETag = false := by
    rw [Bool.eq_false_iff]
    exact fun matched => unnamed (sessionPublicationMatches_iff.mp matched).2
  unfold publicationCommitted
  rw [if_neg (by rw [other]; decide)]
  apply (sessionManifestFetch_reads here small).bind_alone
  apply Alone.require_bind
  · intro base
    by_cases last : publication.blob.record.sequence = sequenceMax
    · unfold publicationClaim
      rw [sessionEncodePublicationState_exhausted last]
      simp only [Prog.attempt_fail, Prog.bind_done]
      apply Alone.bind (publicationAdvance_refused inv current _)
      · rintro _ _ ⟨impossible, _⟩
        cases impossible
      · rintro error after ⟨_, same⟩
        rw [same]
        exact ⟨inv, fun _ _ => rfl, fun _ impossible => by cases impossible⟩
      · simp [sameBytes, other]
    · have admits : store.Admits .publication (.tagged publication.etag) := by
        simp [Store.Admits, current]
      have extendable : (PublicationBase.publication publication.blob).Extendable := last
      have next : publication.blob.record.sequence + 1 = sequenceMax := by
        by_contra more
        exact stuck ⟨base, last, more⟩
      apply Alone.mono (publicationClaim_yields free inv ready admits extendable)
      rintro _ _ ⟨fence, rfl, claimed, rfl, rfl, kept, fields⟩
      refine ⟨kept, fun key different => store.write_versions_other _ different, ?_⟩
      rintro _ ⟨rfl⟩
      refine ⟨by simp, fields.state, fields.sequence.trans next, manifest, ?_, base, small⟩
      rw [store.write_current_other _ (by simp)]
      exact here
  · intro _
    exact ⟨inv, fun _ _ => rfl, fun _ impossible => by cases impossible⟩

theorem publishFenced_exhausted (inv : StoredInvariant store)
    (ready : candidate.Ready store binding.sessionId) {fence : Fence Hash}
    (exhausted : fence.Exhausted store candidate.baseETag) :
    Alone (Working machine)
      (fun outcome after => (∃ error, outcome = .error error) ∧
        ∀ key ≠ .manifest, after.versions key = store.versions key)
      (publishFenced binding candidate fence) store := by
  cases fence with
  | committed => exact exhausted.elim
  | held publication =>
    obtain ⟨current, pending, last, manifest, here, base, small⟩ := exhausted
    apply (publishManifest_yields inv ready here small (.inr base)).bind_alone
    rintro _ middle ⟨_, kept, _, frame⟩
    have still : middle.current .publication = some publication := by
      rw [Store.current, frame _ (by simp)]
      exact current
    apply (publicationCommit_exhausted kept still pending last).mono
    rintro outcome after ⟨failed, same⟩
    rw [same]
    exact ⟨failed, frame⟩

/-- A publisher that cannot supersede the publication head fails, and leaves its claim on
the session head behind. -/
theorem sessionPublish_stuck (free : CollisionFree Hash) (inv : StoredInvariant store)
    {stored : StoredHead Hash} {checkpoint : StoredCheckpoint Hash}
    (pending : Pending store binding stored checkpoint)
    (unexpired : ∀ now, machine.clock now → now < stored.blob.record.expires)
    (current : store.current .publication = some publication)
    (committed : publication.blob.record.state = .committed)
    (unnamed : ¬Names publication.blob.record binding.sessionId (candidateOf stored checkpoint))
    (here : store.current .manifest = some manifest) (small : manifest.blob.length ≤ bodyMaxBytes)
    (stuck : ¬Supersedes manifest publication.blob.record
      stored.blob.record.body.baseManifestETag) {operationId : Hash} :
    Alone (Working machine)
      (fun outcome after => (∃ error, outcome = .error error) ∧
        after.versions (.head binding.sessionId) = store.versions (.head binding.sessionId))
      (sessionPublish binding operationId) store := by
  have filed (version : StoredPublication Hash) {after : Objects Hash} (kept : StoredInvariant after)
      (there : version ∈ after.current .publication) :=
    kept.filed .publication version (Store.mem_of_current there)
  apply sessionPublish_prepared free inv pending unexpired
  intro first kept ready frame
  have currentNow : first.current .publication = some publication := by
    rw [Store.current, frame _ (by simp)]
    exact current
  have hereNow : first.current .manifest = some manifest := by
    rw [Store.current, frame _ (by simp)]
    exact here
  have fence : Alone (Working machine)
      (fun outcome after => StoredInvariant after ∧
        (∀ key ≠ .publication, after.versions key = first.versions key) ∧
        ∀ fence, outcome = .ok fence → fence.Exhausted after
          (candidateOf stored checkpoint).baseETag)
      (publicationFence binding stored (candidateOf stored checkpoint)) first := by
    unfold publicationFence
    apply (sessionFetchPublication_reads (filed · kept)).bind_alone
    rw [currentNow]
    simp only [committed]
    exact publicationCommitted_stuck free kept ready currentNow unnamed hereNow small stuck
  apply fence.bind
  · rintro passed second ⟨keptSecond, frameSecond, exhausted⟩
    have readySecond := ready.frame fun key _ other => frameSecond key other
    apply (publishFenced_exhausted keptSecond readySecond (exhausted passed rfl)).bind
    · rintro _ _ ⟨⟨_, impossible⟩, _⟩
      cases impossible
    · rintro error after ⟨_, frameLast⟩
      refine ⟨⟨error, rfl⟩, ?_⟩
      rw [frameLast _ (by simp), frameSecond _ (by simp), frame _ (by simp)]
  · rintro error after ⟨_, frameSecond, _⟩
    refine ⟨⟨error, rfl⟩, ?_⟩
    rw [frameSecond _ (by simp), frame _ (by simp)]

end stuck

section
variable {last : Objects Hash} {base : ETag} {context : Context Hash} {stored : StoredHead Hash}
variable {checkpoint : StoredCheckpoint Hash}

theorem Claimed.publishes_iff (free : CollisionFree Hash) (inv : StoredInvariant store)
    (claimed : Claimed machine store last binding base context stored checkpoint)
    (steady : machine.Steady)
    (new : ∀ hash, ∀ version ∈ store.versions (.checkpoint binding.sessionId hash),
      version.blob.record.operationId ≠ context.operationId)
    (current : store.current .publication = some publication)
    (committed : publication.blob.record.state = .committed)
    (here : store.current .manifest = some manifest) (small : manifest.blob.length ≤ bodyMaxBytes)
    {operationId : Hash} :
    Alone (Working machine)
      (fun outcome after => (outcome = .ok () ∧ ShowsOwn after binding.sessionId context.operationId) ↔
        Supersedes manifest publication.blob.record base)
      (sessionPublish binding operationId) last := by
  have unexpired := claimed.unexpired steady
  have unnamed := claimed.unnamed inv new current
  have currentNow : last.current .publication = some publication := by
    rw [Store.current, claimed.publication]
    exact current
  have hereNow : last.current .manifest = some manifest := by
    rw [Store.current, claimed.manifest]
    exact here
  by_cases supersedes : Supersedes manifest publication.blob.record base
  · obtain ⟨sameBase, room, more⟩ := supersedes
    have passable : Passable last binding.sessionId (candidateOf stored checkpoint) manifest := by
      refine ⟨hereNow, small, ?_, ?_, ?_, ?_⟩
      all_goals simp only [currentNow, Option.mem_some_iff, forall_eq']
      · intro pending
        rw [committed] at pending
        cases pending
      · exact ⟨room, more, fun pending => by cases committed.symm.trans pending⟩
      · exact fun named => absurd named unnamed
      · exact fun _ => sameBase.trans claimed.based.symm
    have present : last.current .publication = none →
        stored.blob.record.sequence ≠ sequenceMax := by
      rw [currentNow]
      exact fun absent => by cases absent
    apply Alone.mono (sessionPublish_yields free claimed.inv claimed.pending unexpired passable
      present).grows
    rintro _ after ⟨_, rfl, ⟨displays, _⟩, grows⟩
    have shows : ShowsOwn after binding.sessionId context.operationId :=
      ⟨_, checkpoint, grows.mem (Store.mem_of_current claimed.pending.loaded), claimed.own, displays⟩
    exact ⟨fun _ => ⟨sameBase, room, more⟩, fun _ => ⟨rfl, shows⟩⟩
  · have stuck : ¬Supersedes manifest publication.blob.record
        stored.blob.record.body.baseManifestETag := by rwa [claimed.based]
    apply (sessionPublish_stuck free claimed.inv claimed.pending unexpired currentNow committed unnamed
      hereNow small stuck).mono
    rintro _ after ⟨⟨error, rfl⟩, _⟩
    exact ⟨fun published => (by cases published.1), fun impossible => absurd impossible supersedes⟩

end

/-- The session is published, no other publication is pending, and the operation is a new
one. -/
structure Continues (store : Objects Hash) (sessionId : SessionId) (operationId : Hash)
    (stored : StoredHead Hash) (manifest : Version ETag Bytes)
    (publication : StoredPublication Hash) : Prop where
  head : store.current (.head sessionId) = some stored
  published : stored.blob.record.state = .committed
  here : store.current .manifest = some manifest
  visible : Digest.manifest manifest.blob = stored.blob.record.body.candidateManifestHash
  current : store.current .publication = some publication
  committed : publication.blob.record.state = .committed
  other : stored.blob.record.operationId ≠ operationId
  new : ∀ hash, ∀ version ∈ store.versions (.checkpoint sessionId hash),
    version.blob.record.operationId ≠ operationId

/-- In every reachable store: an invocation of a published session under a new operation
that moves the session head returns SQLITE_OK with its own checkpoint visible exactly when
`manifest.bcv` still has the ETag of the base the head records. -/
theorem continue_publishes_iff [ManifestCodec] (free : CollisionFree Hash) {store : Objects Hash}
    (fresh : store.fresh) {names : Nat → String} {pool : Pool Hash}
    (run : Run (clients (fun _ _ => True) (fun _ _ => True)) (Pool.initial store names) pool)
    {binding : Binding} {operationId : Hash} {stored : StoredHead Hash}
    {manifest : Version ETag Bytes} {publication : StoredPublication Hash}
    (continues : Continues pool.store binding.sessionId operationId stored manifest publication)
    {machine : Machine} (steady : machine.Steady) (change : Change) (container : Container Hash) :
    Yields (Working machine)
      (fun result after =>
        after.versions (.head binding.sessionId) ≠ pool.store.versions (.head binding.sessionId) →
        ((result.2 = .ok () ∧ ShowsOwn after binding.sessionId operationId) ↔
          Supersedes manifest publication.blob.record stored.blob.record.body.baseManifestETag))
      (invoke binding operationId change (.finalize binding.sessionId) container) pool.store := by
  have inv := ((storedCertificate_initial fresh names).run run).inv
  have settled : ∀ version ∈ pool.store.current (.head binding.sessionId),
      version.blob.record.state = .committed ∧ version.blob.record.operationId ≠ operationId := by
    simp only [continues.head, Option.mem_some_iff, forall_eq']
    exact ⟨continues.published, continues.other⟩
  apply invoke_finalize_alone (fun outcome after =>
    after.versions (.head binding.sessionId) ≠ pool.store.versions (.head binding.sessionId) →
      ((outcome = .ok () ∧ ShowsOwn after binding.sessionId operationId) ↔
        Supersedes manifest publication.blob.record stored.blob.record.body.baseManifestETag))
    free inv settled
  · exact fun _ _ after unmoved moved => absurd unmoved moved
  · intro base written context last claim checkpoint based attachment claimed
    simp only [BaseOf, continues.head] at based
    obtain ⟨rfl, shown⟩ := based
    obtain ⟨source, digest⟩ := shown continues.published
    have bytes : manifest.blob = source.blob.record.body.manifest :=
      free.manifest (continues.visible.trans digest.symm)
    have small : manifest.blob.length ≤ bodyMaxBytes := by
      rw [bytes]
      exact checkpoint_manifest_small source
    have new := continues.new
    rw [← attachment.operation] at new
    apply (claimed.publishes_iff free inv steady new continues.current continues.committed
      continues.here small).mono
    intro outcome after holds _
    rw [← attachment.operation]
    exact holds

section twice

def Unused (store : Objects Tree) (sessionId : SessionId) (operationId : Tree) : Key Tree → Prop
  | .checkpoint owner hash => owner = sessionId →
      ∀ version ∈ store.versions (.checkpoint owner hash),
        version.blob.record.operationId ≠ operationId
  | _ => True

instance (store : Objects Tree) (sessionId : SessionId) (operationId : Tree) (key : Key Tree) :
    Decidable (Unused store sessionId operationId key) :=
  match key with
  | .checkpoint _ _ => inferInstanceAs (Decidable (_ → _))
  | .manifest | .candidate _ | .head _ | .history _ _ | .publication => .isTrue trivial

def continuing (test : Objects Tree → StoredHead Tree → Version ETag Bytes →
    StoredPublication Tree → Bool) (pool : Pool Tree) (written : List (Key Tree)) : Bool :=
  match pool.store.current (.head oneSession), pool.store.current .manifest,
    pool.store.current .publication with
  | some stored, some manifest, some publication =>
    stored.blob.record.state = .committed ∧
      Digest.manifest manifest.blob = stored.blob.record.body.candidateManifestHash ∧
      publication.blob.record.state = .committed ∧
      stored.blob.record.operationId ≠ .leaf 11 ∧
      (∀ key ∈ written, Unused pool.store oneSession (.leaf 11) key) ∧
      test pool.store stored manifest publication = true
  | _, _, _ => false

theorem continuing_sound {test : Objects Tree → StoredHead Tree → Version ETag Bytes →
      StoredPublication Tree → Bool} {pool : Pool Tree} {written : List (Key Tree)}
    (untouched : ∀ key ∉ written, pool.store.versions key = oneBlock.versions key)
    (found : continuing test pool written = true) :
    ∃ stored manifest publication,
      Continues pool.store oneSession (.leaf 11) stored manifest publication ∧
        test pool.store stored manifest publication = true := by
  unfold continuing at found
  split at found
  · rename_i stored manifest publication head here current
    obtain ⟨published, visible, committed, other, unused, tested⟩ := of_decide_eq_true found
    refine ⟨stored, manifest, publication,
      ⟨head, published, here, visible, current, committed, other, ?_⟩, tested⟩
    intro hash version held
    by_cases listed : Key.checkpoint oneSession hash ∈ written
    · exact unused _ listed rfl version held
    · rw [untouched _ listed] at held
      cases held
  · cases found

def blockChange (block : UInt8) : Change :=
  ⟨[⟨1, 0, "main", 1, 0, [[1]], [[block]], true⟩], [], some 512⟩

def claimsStuck (store : Objects Tree) (_ : StoredHead Tree) (_ : Version ETag Bytes)
    (_ : StoredPublication Tree) : Bool :=
  match stillService.execute (invoke oneBinding (.leaf 11) (blockChange 3) (.finalize oneSession)
    (.free "main")) store with
  | some (.ok (_, .error error), after) =>
    error = ⟨.constraint, "manifest changed since the session checkpoint"⟩ ∧
      ∃ claim ∈ after.current (.head oneSession), claim.blob.record.state = .publishing ∧
        claim.blob.record.operationId = .leaf 11
  | _ => false

def once (block : UInt8) : List (Action (Call Tree)) :=
  invocation 1 oneBinding (.leaf 10) block (.finalize oneSession) 100 ++ [.finish 1]

theorem once_claimsStuck :
    (schedule (clients (fun _ _ => True) (fun _ _ => True)) stillService (once 2)
      (Pool.initial oneBlock fun _ => "main", [])).any
        (fun last => continuing claimsStuck last.1 last.2) = true := by
  decide +kernel

/-- The second operation of a session moves its head to PUBLISHING for a candidate that is
never published. -/
theorem continue_claims_unpublishable :
    CollisionFree Tree ∧ ∃ (pool : Pool Tree) (stored : StoredHead Tree)
      (manifest : Version ETag Bytes) (publication : StoredPublication Tree)
      (container : Container Tree) (after : Objects Tree) (claim : StoredHead Tree),
      Run (clients (fun _ _ => True) (fun _ _ => True))
        (Pool.initial oneBlock fun _ => "main") pool ∧
      Continues pool.store oneSession (.leaf 11) stored manifest publication ∧
      Executes (Working stillMachine)
        (invoke oneBinding (.leaf 11) (blockChange 3) (.finalize oneSession) (.free "main"))
        pool.store (.ok (container, .error
          ⟨.constraint, "manifest changed since the session checkpoint"⟩)) after ∧
      after.current (.head oneSession) = some claim ∧ claim.blob.record.state = .publishing ∧
      claim.blob.record.operationId = .leaf 11 := by
  refine ⟨Tree.collisionFree, ?_⟩
  obtain ⟨pool, written, run, untouched, found⟩ :=
    schedule_reaches (continuing claimsStuck) once_claimsStuck
  obtain ⟨stored, manifest, publication, continues, claims⟩ := continuing_sound untouched found
  unfold claimsStuck at claims
  split at claims
  · rename_i container error after executed
    obtain ⟨rfl, claim, current, state, operation⟩ := of_decide_eq_true claims
    exact ⟨pool, stored, manifest, publication, container, after, claim, run, continues,
      stillService.execute_executes stillService_working executed, current, state, operation⟩
  · cases claims

def stillBased (_ : Objects Tree) (stored : StoredHead Tree) (manifest : Version ETag Bytes)
    (publication : StoredPublication Tree) : Bool :=
  Supersedes manifest publication.blob.record stored.blob.record.body.baseManifestETag

theorem once_stillBased :
    (schedule (clients (fun _ _ => True) (fun _ _ => True)) stillService (once 1)
      (Pool.initial oneBlock fun _ => "main", [])).any
        (fun last => continuing stillBased last.1 last.2) = true := by
  decide +kernel

theorem stillMachine_steady : stillMachine.Steady := by
  rintro _ _ rfl rfl
  decide

theorem continue_publishes_unchanged :
    ∃ (pool : Pool Tree) (stored : StoredHead Tree) (manifest : Version ETag Bytes)
      (publication : StoredPublication Tree),
      Run (clients (fun _ _ => True) (fun _ _ => True))
        (Pool.initial oneBlock fun _ => "main") pool ∧
      Continues pool.store oneSession (.leaf 11) stored manifest publication ∧
      Yields (Working stillMachine)
        (fun result after =>
          after.versions (.head oneSession) ≠ pool.store.versions (.head oneSession) →
          result.2 = .ok () ∧ ShowsOwn after oneSession (.leaf 11))
        (invoke oneBinding (.leaf 11) (blockChange 3) (.finalize oneSession) (.free "main"))
        pool.store := by
  obtain ⟨pool, written, run, untouched, found⟩ :=
    schedule_reaches (continuing stillBased) once_stillBased
  obtain ⟨stored, manifest, publication, continues, based⟩ := continuing_sound untouched found
  refine ⟨pool, stored, manifest, publication, run, continues, ?_⟩
  have session : Continues pool.store oneBinding.sessionId (.leaf 11) stored manifest publication :=
    continues
  apply (continue_publishes_iff Tree.collisionFree oneBlock_fresh run session stillMachine_steady
    (blockChange 3) (.free "main")).mono
  intro result after holds moved
  exact (holds moved).mpr (of_decide_eq_true based)

end twice

end RusqDoltlite.Session

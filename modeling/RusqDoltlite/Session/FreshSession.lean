import RusqDoltlite.Session.Continue

/-! The first invocation of a new session, after any history of the container. -/

namespace RusqDoltlite.Session

open Effects

variable {Hash : Type} [DecidableEq Hash] [Digest Hash]

def Unstarted (store : Objects Hash) (sessionId : SessionId) : Prop :=
  store.current (.head sessionId) = none ∧
    ∀ hash, store.versions (.checkpoint sessionId hash) = []

/-- The manifest fits a session record, and the publication head does not stand in the way:
if it is pending, its candidate is visible, and its sequence is not exhausted. -/
def Unblocked (manifest : Version ETag Bytes) (publication : Option (StoredPublication Hash)) :
    Prop :=
  manifest.blob.length ≤ bodyMaxBytes ∧ ∀ pending ∈ publication,
    (pending.blob.record.state = .publishing →
      Digest.manifest manifest.blob = pending.blob.record.body.candidateManifestHash) ∧
    pending.blob.record.sequence + 3 ≤ sequenceMax

section
variable {machine : Machine} {store last : Objects Hash} {binding : Binding}
variable {context : Context Hash} {stored : StoredHead Hash} {checkpoint : StoredCheckpoint Hash}
variable {manifest : Version ETag Bytes}

theorem Claimed.passable (inv : StoredInvariant store)
    (claimed : Claimed machine store last binding manifest.etag context stored checkpoint)
    (unstarted : Unstarted store binding.sessionId)
    (here : store.current .manifest = some manifest)
    (unblocked : Unblocked manifest (store.current .publication)) :
    Passable last binding.sessionId (candidateOf stored checkpoint) manifest := by
  have new (hash : Hash) (version) (held : version ∈ store.versions (.checkpoint binding.sessionId hash)) :
      version.blob.record.operationId ≠ context.operationId := by
    rw [unstarted.2 hash] at held
    cases held
  have same : last.current .publication = store.current .publication := by
    rw [Store.current, claimed.publication, Store.current]
  refine ⟨?_, unblocked.1, ?_, ?_, ?_, ?_⟩
  · rw [Store.current, claimed.manifest]
    exact here
  · rw [same]
    exact fun publication current => (unblocked.2 publication current).1
  · rw [same]
    intro publication current
    have room := (unblocked.2 publication current).2
    omega
  · rw [same]
    intro publication current named
    exact absurd named (claimed.unnamed inv new current)
  · exact fun _ => claimed.based.symm

end

/-- In every reachable store: the first invocation of a new session publishes, unless the
publication head is pending on a candidate that is not the visible manifest. -/
theorem freshSession_publishes [ManifestCodec] (free : CollisionFree Hash) {store : Objects Hash}
    (fresh : store.fresh) {names : Nat → String} {pool : Pool Hash}
    (run : Run (clients (fun _ _ => True) (fun _ _ => True)) (Pool.initial store names) pool)
    {binding : Binding} (unstarted : Unstarted pool.store binding.sessionId)
    {manifest : Version ETag Bytes} (here : pool.store.current .manifest = some manifest)
    (unblocked : Unblocked manifest (pool.store.current .publication))
    {machine : Machine} (steady : machine.Steady) {operationId : Hash} {change : Change}
    {container : Container Hash}
    (workable : Workable machine pool.store binding operationId change container) :
    Yields (Working machine)
      (fun result after => result.2 = .ok () ∧ ShowsOwn after binding.sessionId operationId)
      (invoke binding operationId change (.finalize binding.sessionId) container) pool.store := by
  have inv := ((storedCertificate_initial fresh names).run run).inv
  apply invoke_finalize_alone (fun outcome after =>
    outcome = .ok () ∧ ShowsOwn after binding.sessionId operationId) free inv
  · simp [unstarted.1]
  · exact fun impossible => absurd workable impossible
  · intro base written context last claim checkpoint based attachment claimed
    obtain rfl : manifest.etag = base := by simpa [BaseOf, unstarted.1, here] using based
    have passable := claimed.passable inv unstarted here unblocked
    have first : last.current .publication = none → claim.blob.record.sequence ≠ sequenceMax := by
      intro _
      rw [claimed.sequence, attachment.counted, unstarted.1]
      simp [sequenceMax]
    apply Alone.mono (sessionPublish_yields free claimed.inv claimed.pending
      (claimed.unexpired steady) passable first).grows
    rintro _ after ⟨_, rfl, ⟨displays, _⟩, grows⟩
    refine ⟨rfl, _, checkpoint, grows.mem (Store.mem_of_current claimed.pending.loaded), ?_, displays⟩
    rw [claimed.own, attachment.operation]

section
variable {machine : Machine} {store : Objects Hash} [ManifestCodec]

theorem sessionCheckpoint_yields {sessionId : SessionId} {container : Container Hash}
    {man : Manifest} {context : Context Hash} {fileSize : Nat} {body : CheckpointBody Hash}
    (bound : container.bound (container.ownedBy sessionId "session does not own container alias")
      "session checkpoint scope is not bound" = .ok (man, context))
    (sizes : Reads (Working machine) fileSize (checkpointSize man context) store)
    (composes : Reads (Working machine) body
      (sessionComposeBody { man with dbs := machine.staged man } context fileSize) store)
    (room : context.sequence ≠ sequenceMax)
    (encodes : ∀ now, machine.clock now → ∃ encoded,
      recordEncode (checkpointRecord sessionId context now body) = .ok encoded ∧
        encoded.recordHash ≠ Digest.zero ∧
        store.current (.checkpoint sessionId encoded.recordHash) = none) :
    Yields (Working machine) (fun result _ => ∃ encoded, result.2 = .ok encoded)
      (sessionCheckpoint sessionId container) store := by
  unfold sessionCheckpoint
  rw [bound, Prog.orKeep_ok]
  apply Yields.orKeep sizes
  rintro size after ⟨found, same⟩
  rw [found, same]
  have stages : Reads (Working machine) (machine.staged man, .ok ())
      (stageDirty man : Op Hash (List ManifestDb × Except Err Unit)) store := by
    simp [Reads, Yields, stageDirty, Working]
  apply stages.bind
  dsimp only
  rw [Prog.orKeep_ok]
  have stored : Yields (Working machine) (fun _ _ => True)
      (checkpointStore sessionId { man with dbs := machine.staged man } context fileSize) store := by
    apply composes.bind
    apply Yields.require_bind room
    apply timestamp_yields.bind
    rintro now after ⟨reading, same⟩
    rw [same]
    obtain ⟨encoded, success, named, absent⟩ := encodes now reading
    apply Yields.ofExcept_bind success
    have admits : store.Admits (.checkpoint sessionId encoded.recordHash) .absent := absent
    have record := recordEncode_record success
    have puts : Yields (Working machine) (fun _ _ => True)
        (sessionPutCheckpoint sessionId (Digest.scope context.scope) encoded) store := by
      apply Yields.require_bind named
      apply Yields.ofExcept_bind (recordDecode_own (by rw [record]; rfl) _ (by simp))
      · apply (putObject_yields admits).attempt
        intro etag last _
        exact Yields.done trivial
      · rintro _ ⟨rfl⟩
        rw [record]
        rfl
    apply puts.bind
    intro _ last _
    exact Yields.done trivial
  apply stored.orKeep
  rintro ⟨next, encoded⟩ last _
  exact Yields.done ⟨encoded, rfl⟩

end

section abandoned

def stillCertain : Query → Bool
  | .timestamp | .currentTime | .walNonEmpty _ _ | .stageDirty _ | .verifyMappings _ _
  | .installOverlay _ => true
  | _ => false

theorem stillCertain_only (query : Query) (certain : stillCertain query = true)
    (reply : Reply query) (works : Working stillMachine query reply) :
    reply = stillService.reply query := by
  cases query with
  | timestamp => exact works
  | currentTime =>
    obtain ⟨_, rfl, rfl⟩ := works
    rfl
  | walNonEmpty man database => exact works
  | stageDirty man => exact works
  | verifyMappings base man => exact works
  | installOverlay man => exact works
  | prepareUpload man chosen => cases certain
  | mergeLocal man uploaded => cases certain
  | manifestUpdate man fetched => cases certain
  | localChanges man => cases certain

def stillWorkable (store : Objects Tree) (binding : Binding) (operationId : Tree) (change : Change)
    (container : Container Tree) : Bool :=
  (match stillService.evaluate stillCertain (attachSessionScoped binding operationId container)
      store with
  | some (attached, .ok ()) =>
    let written := localWrite change.dbs change.walFiles change.fileSize attached
    match written.bound (written.ownedBy binding.sessionId "session does not own container alias")
      "session checkpoint scope is not bound" with
    | .ok (man, context) =>
      match stillService.evaluate stillCertain (checkpointSize man context) store with
      | some fileSize =>
        match stillService.evaluate stillCertain
          (sessionComposeBody { man with dbs := stillMachine.staged man } context fileSize)
          store with
        | some body =>
          match recordEncode (checkpointRecord binding.sessionId context 0 body) with
          | .ok encoded => context.sequence ≠ sequenceMax ∧
              encoded.recordHash ≠ Digest.zero ∧
              store.current (.checkpoint binding.sessionId encoded.recordHash) = none
          | .error _ => false
        | none => false
      | none => false
    | .error _ => false
  | _ => false) = true ∧
  ∀ stored ∈ store.current (.head binding.sessionId), stored.blob.record.sequence ≠ sequenceMax

theorem stillWorkable_sound {store : Objects Tree} {binding : Binding} {operationId : Tree}
    {change : Change} {container : Container Tree}
    (works : stillWorkable store binding operationId change container = true) :
    Workable stillMachine store binding operationId change container := by
  obtain ⟨works, room⟩ := of_decide_eq_true works
  refine ⟨room, ?_⟩
  split at works
  · rename_i attached attaches
    apply (stillService.evaluate_reads stillCertain_only attaches).bind
    dsimp only at works ⊢
    split at works
    · rename_i man context bound
      split at works
      · rename_i fileSize sizes
        split at works
        · rename_i body composes
          split at works
          · rename_i encoded success
            obtain ⟨left, named, absent⟩ := of_decide_eq_true works
            apply (sessionCheckpoint_yields bound
              (stillService.evaluate_reads stillCertain_only sizes)
              (stillService.evaluate_reads stillCertain_only composes) left _).bind
            · rintro ⟨after, _⟩ last ⟨stored, rfl⟩
              exact Yields.done rfl
            · rintro _ rfl
              exact ⟨encoded, success, named, absent⟩
          · cases works
        · cases works
      · cases works
    · cases works
  · cases works

def twoBinding : Binding := ⟨⟨2, by decide⟩, ⟨"client", "main", "write"⟩⟩

/-- The first client stops after it has claimed the publication head; an ordinary upload of
the second replaces the manifest. -/
def abandoned : List (Action (Call Tree)) :=
  invocation 1 oneBinding (.leaf 10) 2 (.finalize oneSession) 17 ++
    [.start 2 .attach, .serve 2 100, .finish 2, .start 2 (writeBlock 9), .finish 2,
      .start 2 .upload, .serve 2 100, .finish 2]

def NotOf (sessionId : SessionId) : Key Tree → Prop
  | .head owner | .checkpoint owner _ => owner ≠ sessionId
  | _ => True

instance (sessionId : SessionId) (key : Key Tree) : Decidable (NotOf sessionId key) :=
  match key with
  | .head _ | .checkpoint _ _ => inferInstanceAs (Decidable (_ ≠ _))
  | .manifest | .candidate _ | .history _ _ | .publication => .isTrue trivial

theorem unstarted_of_written {pool : Pool Tree} {written : List (Key Tree)} {sessionId : SessionId}
    (untouched : ∀ key ∉ written, pool.store.versions key = oneBlock.versions key)
    (others : ∀ key ∈ written, NotOf sessionId key) : Unstarted pool.store sessionId := by
  constructor
  · have absent : Key.head sessionId ∉ written := fun listed => others (.head sessionId) listed rfl
    rw [Store.current, untouched _ absent]
    rfl
  · intro hash
    have absent : Key.checkpoint sessionId hash ∉ written :=
      fun listed => others (.checkpoint sessionId hash) listed rfl
    exact untouched _ absent

def blocks (pool : Pool Tree) (written : List (Key Tree)) : Bool :=
  (∀ key ∈ written, NotOf twoBinding.sessionId key) ∧
    (∃ publication ∈ pool.store.current .publication,
      publication.blob.record.state = .publishing ∧ 0 < publication.blob.record.expires) ∧
    stillWorkable pool.store twoBinding (.leaf 11) (blockChange 3) (.free "main") = true ∧
    stillFails (invoke twoBinding (.leaf 11) (blockChange 3) (.finalize twoBinding.sessionId)
      (.free "main")) pool.store =
        some ⟨.constraint, "manifest changed before pending candidate recovery"⟩

theorem abandoned_blocks :
    (schedule (clients (fun _ _ => True) (fun _ _ => True)) stillService abandoned
      (Pool.initial oneBlock fun _ => "main", [])).any (fun last => blocks last.1 last.2) = true := by
  decide +kernel

/-- An abandoned publication whose base has been replaced stops every later session. -/
theorem freshSession_blocked :
    CollisionFree Tree ∧ ∃ (pool : Pool Tree) (publication : StoredPublication Tree)
      (container : Container Tree) (after : Objects Tree),
      Run (clients (fun _ _ => True) (fun _ _ => True))
        (Pool.initial oneBlock fun _ => "main") pool ∧
      Unstarted pool.store twoBinding.sessionId ∧
      pool.store.current .publication = some publication ∧
      publication.blob.record.state = .publishing ∧ 0 < publication.blob.record.expires ∧
      Workable stillMachine pool.store twoBinding (.leaf 11) (blockChange 3) (.free "main") ∧
      Executes (Working stillMachine)
        (invoke twoBinding (.leaf 11) (blockChange 3) (.finalize twoBinding.sessionId)
          (.free "main")) pool.store
        (.ok (container, .error
          ⟨.constraint, "manifest changed before pending candidate recovery"⟩)) after := by
  refine ⟨Tree.collisionFree, ?_⟩
  obtain ⟨pool, written, run, untouched, found⟩ := schedule_reaches blocks abandoned_blocks
  obtain ⟨others, ⟨publication, current, pending, unexpired⟩, works, fails⟩ := of_decide_eq_true found
  obtain ⟨container, after, executes⟩ := stillFails_executes fails
  exact ⟨pool, publication, container, after, run, unstarted_of_written untouched others, current,
    pending, unexpired, stillWorkable_sound works, executes⟩

instance (manifest : Version ETag Bytes) (publication : Option (StoredPublication Tree)) :
    Decidable (Unblocked manifest publication) := inferInstanceAs (Decidable (_ ∧ _))

/-- The first client stops after its candidate has become the manifest, and leaves its publication head
pending. -/
def shownPending : List (Action (Call Tree)) :=
  invocation 1 oneBinding (.leaf 10) 2 (.finalize oneSession) 19

def lets (pool : Pool Tree) (written : List (Key Tree)) : Bool :=
  (∀ key ∈ written, NotOf twoBinding.sessionId key) ∧
    (∃ publication ∈ pool.store.current .publication, publication.blob.record.state = .publishing) ∧
    (∃ manifest ∈ pool.store.current .manifest, manifest.blob = [2] ∧
      Unblocked manifest (pool.store.current .publication)) ∧
    stillWorkable pool.store twoBinding (.leaf 11) (blockChange 3) (.free "main") = true

theorem shownPending_lets :
    (schedule (clients (fun _ _ => True) (fun _ _ => True)) stillService shownPending
      (Pool.initial oneBlock fun _ => "main", [])).any (fun last => lets last.1 last.2) = true := by
  decide +kernel

theorem freshSession_publishes_shownPending : ∃ pool : Pool Tree,
    Unstarted pool.store twoBinding.sessionId ∧
    (∃ publication ∈ pool.store.current .publication, publication.blob.record.state = .publishing) ∧
    Workable stillMachine pool.store twoBinding (.leaf 11) (blockChange 3) (.free "main") ∧
    Yields (Working stillMachine)
      (fun result after => result.2 = .ok () ∧
        ShowsOwn after twoBinding.sessionId (.leaf 11 : Tree))
      (invoke twoBinding (.leaf 11) (blockChange 3) (.finalize twoBinding.sessionId) (.free "main"))
      pool.store := by
  obtain ⟨pool, written, run, untouched, found⟩ := schedule_reaches lets shownPending_lets
  obtain ⟨others, pending, ⟨manifest, current, _, unblocked⟩, works⟩ := of_decide_eq_true found
  have unstarted := unstarted_of_written untouched others
  have workable := stillWorkable_sound works
  exact ⟨pool, unstarted, pending, workable, freshSession_publishes Tree.collisionFree oneBlock_fresh run
    unstarted current unblocked stillMachine_steady workable⟩

end abandoned

end RusqDoltlite.Session

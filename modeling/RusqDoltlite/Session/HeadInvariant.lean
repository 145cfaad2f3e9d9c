import RusqDoltlite.Session.FreeDigest
import RusqDoltlite.Session.Stored

/-! What every stored session head names, along every run in which the final commit of a publisher finds
its own checkpoint in the head, and what a successful `sqlite3_bcvfs_session_finalize` means: the
publisher never compares the operation of the heads it reads with its own. -/

namespace RusqDoltlite.Session

open Effects

variable {Hash : Type} [DecidableEq Hash] [Digest Hash]

def Shown (store : Objects Hash) (sessionId : SessionId) (head : Head Hash) : Prop :=
  ∃ version ∈ store.versions (.checkpoint sessionId head.body.checkpointHash),
    ∃ shown ∈ store.versions .manifest, shown.blob = version.blob.record.body.manifest

/-- The last read of a publisher returns a head that is committed already or still names
the checkpoint the publisher has published. -/
def CommitsItsOwn : Admission Hash := fun store event =>
  match event.request with
  | .get (.head sessionId) (.commitHead checkpointHash) =>
    ∀ stored ∈ store.current (.head sessionId), stored.blob.record.state = .committed ∨
      stored.blob.record.body.checkpointHash = checkpointHash
  | _ => True

instance (store : Objects Hash) (event : Event (Req Hash) (Ans Hash)) :
    Decidable (CommitsItsOwn store event) := by
  unfold CommitsItsOwn
  split <;> infer_instance

def Committed (store : Objects Hash) : (key : Key Hash) → Blob key → Prop
  | .head sessionId, encoded => encoded.record.state = .committed →
      Consistent store sessionId encoded.record ∧ Shown store sessionId encoded.record
  | _, _ => True

structure HeadInvariant (store : Objects Hash) : Prop where
  stored : StoredInvariant store
  committed : ∀ key, ∀ version ∈ store.versions key, Committed store key version.blob

section
variable {store after : Objects Hash} {sessionId : SessionId} {head : Head Hash}

variable (inv : HeadInvariant store)

include inv in
theorem HeadInvariant.consistent {version : StoredHead Hash}
    (held : version ∈ store.versions (.head sessionId)) :
    Consistent store sessionId version.blob.record := by
  by_cases state : version.blob.record.state = .committed
  · exact (inv.committed (.head sessionId) version held state).1
  · exact ((inv.stored.filed (.head sessionId) version held).2 state).consistent

theorem Shown.grow (shown : Shown store sessionId head) (grows : store.Grows after) :
    Shown after sessionId head := by
  obtain ⟨version, held, visible, there, same⟩ := shown
  exact ⟨version, grows.mem held, visible, grows.mem there, same⟩

theorem Committed.grow {key : Key Hash} {blob : Blob key} (committed : Committed store key blob)
    (grows : store.Grows after) : Committed after key blob := by
  cases key with
  | head sessionId =>
    exact fun state => ⟨(committed state).1.grow grows, (committed state).2.grow grows⟩
  | _ => trivial

variable {admits : Admission Hash} {log : OpLog Hash} {candidate : Candidate Hash}
variable {checkpoint : Checkpoint Hash}
variable (admitted : ∀ store event, admits store event → CommitsItsOwn store event)
  (traced : Traced admits store log)

theorem Visible.shown (visible : Visible log candidate.manifest) (traced : Traced admits store log)
    (loaded : candidate.Loaded log sessionId checkpoint) (about : head.body.About candidate) :
    Shown store sessionId head := by
  obtain ⟨version, held, same⟩ := loaded.held traced
  obtain ⟨manifest, saw, bytes⟩ := visible
  refine ⟨version, about.1 ▸ held, manifest, traced.held saw, ?_⟩
  rw [bytes, loaded.2.1, same]

include admitted traced in
theorem CommitsItsOwn.read {checkpointHash : Hash} {stored : StoredHead Hash}
    (read : ⟨.get (.head sessionId) (.commitHead checkpointHash), .ok (some stored)⟩ ∈ log) :
    stored.blob.record.state = .committed ∨
      stored.blob.record.body.checkpointHash = checkpointHash := by
  obtain ⟨before, _, served, own, _, _⟩ := traced _ read
  exact admitted _ _ own stored served.1.symm

include inv admitted traced in
/-- A head that is committed after an admitted read takes operation and sequence from a
pending head of the same checkpoint. -/
theorem HeadWrite.committed {condition : Condition ETag} (write : HeadWrite log sessionId head condition)
    (state : head.state = .committed) :
    Consistent store sessionId head ∧ Shown store sessionId head := by
  cases write with
  | claim other _ _ _ _ _ _ => cases state.symm.trans other
  | accept other _ _ _ _ _ _ => cases state.symm.trans other
  | promote other _ _ _ _ _ _ _ _ _ => cases state.symm.trans other
  | @commit stored candidate checkpoint _ read pending loaded visible about operation sequence _ _ =>
    have held := traced.held (.inl ⟨_, read⟩)
    have named := (CommitsItsOwn.read admitted traced read).resolve_left fun committed => by
      rw [committed] at pending
      rcases pending with impossible | impossible <;> cases impossible
    obtain ⟨version, versionHeld, sameOperation, sameSequence, _⟩ := inv.consistent held
    rw [named] at versionHeld
    have same := inv.stored.named traced loaded versionHeld
    refine ⟨⟨version, about.1 ▸ versionHeld, ?_, ?_, ?_⟩, visible.shown traced loaded about⟩
    · rw [sameOperation, operation]
    · rw [sameSequence, sequence]
    · rw [same, about.2.1, loaded.2.2.1, loaded.2.1]

variable {call : Call Hash} {start : Container Hash}

include inv admitted traced in
theorem Permit.committed {key : Key Hash} {condition : Condition ETag} {blob : Blob key}
    (permit : Permit call start log (.put key condition blob)) :
    Committed store key blob := by
  cases key with
  | head sessionId => exact fun state => permit.1.committed inv admitted traced state
  | _ => trivial

end

theorem HeadInvariant.step {call : Call Hash} {start : Container Hash} {admits : Admission Hash}
    {store after : Objects Hash} {log : OpLog Hash} {request : Req Hash} {answer : Ans Hash request}
    (inv : HeadInvariant store)
    (admitted : ∀ store event, admits store event → CommitsItsOwn store event)
    (traced : Traced admits store log) (permit : Permit call start log request)
    (served : Serves store request answer after) : HeadInvariant after where
  stored := inv.stored.step traced permit served
  committed := by
    refine served.preserves (fun key version held => ?_) fun key condition blob same => ?_
    · exact (inv.committed key version held).grow served.grows
    · subst same
      exact (permit.committed inv admitted traced).grow served.grows

theorem HeadInvariant.fresh {store : Objects Hash} (fresh : store.fresh) : HeadInvariant store := by
  refine ⟨.fresh fresh, fun key version held => ?_⟩
  cases key with
  | head sessionId =>
    rw [fresh _ (by simp)] at held
    cases held
  | _ => trivial

def headCertificate [ManifestCodec] (starts : Container Hash → Call Hash → Prop)
    (admits : Admission Hash)
    (admitted : ∀ store event, admits store event → CommitsItsOwn store event) :
    Certificate (clients starts admits) where
  inv := HeadInvariant
  rule := Permit
  post := Established
  body_obeys _ := api_obeys _ _
  step_inv inv traced permit served _ := inv.step admitted traced permit served

/-- In every run whose commit reads are admitted, every head ever stored is consistent. -/
theorem head_consistent [ManifestCodec] {store : Objects Hash} {names : Nat → String}
    {pool : Pool Hash} {sessionId : SessionId} {version : StoredHead Hash} (fresh : store.fresh)
    (run : Run (clients (fun _ _ => True) CommitsItsOwn) (Pool.initial store names) pool)
    (stored : version ∈ pool.store.versions (.head sessionId)) :
    Consistent pool.store sessionId version.blob.record := by
  have start : (headCertificate (fun _ _ => True) CommitsItsOwn fun _ _ => id).Holds
      (Pool.initial store names) := ⟨.fresh fresh, fun _ => trivial⟩
  exact (start.run run).inv.consistent stored

section overtaken

/-- The first client stops before the last read of its publication of operation 10. The
second retries that operation and commits the head, and the third claims the head for
operation 11. Then the first goes on: it commits the head of operation 11 for the
checkpoint of operation 10, which the third takes for its own publication. -/
def overtaken : List (Action (Call Tree)) :=
  invocation 1 oneBinding (.leaf 10) 2 (.finalize oneSession) 21 ++
    [.start 2 (.attachScoped oneBinding (.leaf 10)), .serve 2 100, .finish 2,
      .start 2 (.finalize oneSession), .serve 2 100] ++
    invocation 3 oneBinding (.leaf 11) 3 (.finalize oneSession) 9 ++
    [.serve 1 100, .serve 3 100]

def someHead (test : Objects Tree → Head Tree → Bool) (pool : Pool Tree) (_ : List (Key Tree)) :
    Bool :=
  (pool.store.versions (.head oneSession)).any fun version => test pool.store version.blob.record

def committedInconsistent (store : Objects Tree) (head : Head Tree) : Bool :=
  head.state = .committed ∧ ¬Consistent store oneSession head

theorem overtaken_inconsistent :
    (schedule (clients (fun _ _ => True) (fun _ _ => True)) stillService overtaken
      (Pool.initial oneBlock fun _ => "main", [])).any
        (fun last => someHead committedInconsistent last.1 last.2) = true := by
  decide +kernel

/-- Without that condition a committed head may name the checkpoint of another
operation. -/
theorem head_inconsistent :
    CollisionFree Tree ∧ ∃ pool : Pool Tree,
      Run (clients (fun _ _ => True) (fun _ _ => True))
        (Pool.initial oneBlock fun _ => "main") pool ∧
      ∃ version ∈ pool.store.versions (.head oneSession),
        version.blob.record.state = .committed ∧
          ¬Consistent pool.store oneSession version.blob.record := by
  refine ⟨Tree.collisionFree, ?_⟩
  obtain ⟨last, written, run, _, found⟩ :=
    schedule_reaches (someHead committedInconsistent) overtaken_inconsistent
  obtain ⟨version, held, bad⟩ := List.any_eq_true.mp found
  exact ⟨last, run, version, held, of_decide_eq_true bad⟩

def finalizedOnce : List (Action (Call Tree)) :=
  invocation 1 oneBinding (.leaf 10) 2 (.finalize oneSession) 100

def committed (_ : Objects Tree) (head : Head Tree) : Bool := head.state = .committed

theorem finalizedOnce_commits :
    (schedule (clients (fun _ _ => True) CommitsItsOwn) stillService finalizedOnce
      (Pool.initial oneBlock fun _ => "main", [])).any
        (fun last => someHead committed last.1 last.2) = true := by
  decide +kernel

theorem head_consistent_finalizedOnce :
    ∃ (pool : Pool Tree) (version : StoredHead Tree),
      Run (clients (fun _ _ => True) CommitsItsOwn) (Pool.initial oneBlock fun _ => "main") pool ∧
      version ∈ pool.store.versions (.head oneSession) ∧
      version.blob.record.state = .committed ∧
      Consistent pool.store oneSession version.blob.record := by
  obtain ⟨last, _, run, _, found⟩ := schedule_reaches (someHead committed) finalizedOnce_commits
  obtain ⟨version, held, state⟩ := List.any_eq_true.mp found
  exact ⟨last, version, run, held, of_decide_eq_true state,
    head_consistent oneBlock_fresh run held⟩

end overtaken

section

def Acknowledges (pool : Pool Hash) (pid : Nat) (sessionId : SessionId) (operationId : Hash) :
    Prop :=
  ∃ start context, Returns pool pid (.finalize sessionId) start ∧ start.context = some context ∧
    context.operationId = operationId

def OncePublished (store : Objects Hash) (sessionId : SessionId) (operationId : Hash) : Prop :=
  ∃ hash, ∃ version ∈ store.versions (.checkpoint sessionId hash),
    version.blob.record.operationId = operationId ∧
      ∃ shown ∈ store.versions .manifest, shown.blob = version.blob.record.body.manifest

def publishRead : Req Hash → Option (SessionId × Hash)
  | .get (.head sessionId) (.publishHead operationId) => some (sessionId, operationId)
  | _ => none

/-- The first read of a publisher returns a head of its own operation, unless that
operation has been committed before. -/
def PublishesItsOwn : Admission Hash := fun store event =>
  ∀ read ∈ publishRead event.request,
    (∀ stored ∈ store.current (.head read.1), stored.blob.record.operationId = read.2) ∨
      ∃ version ∈ store.versions (.head read.1), version.blob.record.state = .committed ∧
        version.blob.record.operationId = read.2

instance (store : Objects Hash) (event : Event (Req Hash) (Ans Hash)) :
    Decidable (PublishesItsOwn store event) :=
  inferInstanceAs (Decidable (∀ read ∈ _, _))

def FinalizesItsOwn : Admission Hash := fun store event =>
  CommitsItsOwn store event ∧ PublishesItsOwn store event

instance (store : Objects Hash) (event : Event (Req Hash) (Ans Hash)) :
    Decidable (FinalizesItsOwn store event) :=
  inferInstanceAs (Decidable (_ ∧ _))

variable {store : Objects Hash} {sessionId : SessionId}

theorem HeadInvariant.oncePublished (inv : HeadInvariant store) {version : StoredHead Hash}
    (held : version ∈ store.versions (.head sessionId))
    (shown : Shown store sessionId version.blob.record) :
    OncePublished store sessionId version.blob.record.operationId := by
  obtain ⟨named, namedHeld, operation, _, _⟩ := inv.consistent held
  obtain ⟨checkpoint, checkpointHeld, manifest, there, same⟩ := shown
  obtain rfl := inv.stored.unique (.checkpoint sessionId _) rfl named namedHeld checkpoint checkpointHeld
  exact ⟨_, named, namedHeld, operation, manifest, there, same⟩

theorem Published.oncePublished {log : OpLog Hash} {operationId : Hash} (inv : HeadInvariant store)
    (traced : Traced FinalizesItsOwn store log) (published : Published log sessionId operationId) :
    OncePublished store sessionId operationId := by
  obtain ⟨stored, candidate, checkpoint, read, _, named, loaded, visible⟩ := published
  have held := traced.held (.inl ⟨_, read⟩)
  obtain ⟨before, middle, served, ⟨_, own⟩, first, second⟩ := traced _ read
  have admitted := own (sessionId, operationId) rfl
  dsimp only at admitted
  rcases admitted with own | ⟨version, earlier, committed, operation⟩
  · rw [← own stored served.1.symm]
    obtain ⟨manifest, saw, bytes⟩ := visible
    obtain ⟨version, versionHeld, same⟩ := loaded.held traced
    refine inv.oncePublished held ⟨version, named ▸ versionHeld, manifest, traced.held saw, ?_⟩
    rw [bytes, loaded.2.1, same]
  · have later := (first.trans second).mem earlier
    exact operation ▸ inv.oncePublished later (inv.committed (.head sessionId) version later committed).2

/-- In every run in which the reads of the publishers are admitted, a finalizer that
returns SQLITE_OK has had its operation published. -/
theorem finalize_oncePublished [ManifestCodec] {names : Nat → String} {pool : Pool Hash}
    {pid : Nat} {operationId : Hash} (fresh : store.fresh)
    (run : Run (clients (fun _ _ => True) FinalizesItsOwn) (Pool.initial store names) pool)
    (acknowledges : Acknowledges pool pid sessionId operationId) :
    OncePublished pool.store sessionId operationId := by
  have start : (headCertificate (fun _ _ => True) FinalizesItsOwn fun _ _ => And.left).Holds
      (Pool.initial store names) := ⟨.fresh fresh, fun _ => trivial⟩
  have holds := start.run run
  obtain ⟨container, context, ⟨after, log, busy⟩, bound, operation⟩ := acknowledges
  have good := holds.good pid
  rw [busy] at good
  obtain ⟨traced, captured, sameContext, published⟩ := good
  obtain rfl : context = captured := Option.some.inj (bound.symm.trans sameContext)
  exact operation ▸ published.oncePublished holds.inv traced

end

section

def acknowledges (pool : Pool Hash) (pid : Nat) (sessionId : SessionId) (operationId : Hash) : Bool :=
  (returned pool pid (.finalize sessionId)).any fun start =>
    start.context.map Context.operationId = some operationId

theorem acknowledges_sound {pool : Pool Hash} {pid : Nat} {sessionId : SessionId}
    {operationId : Hash} (found : acknowledges pool pid sessionId operationId = true) :
    Acknowledges pool pid sessionId operationId := by
  obtain ⟨start, returns, bound⟩ := (Option.any_eq_true _ _).mp found
  obtain ⟨context, captured, operation⟩ := Option.map_eq_some_iff.mp (of_decide_eq_true bound)
  exact ⟨start, context, returned_sound returns, captured, operation⟩

def oncePublishedIn (store : Objects Hash) (written : List (Key Hash)) (sessionId : SessionId)
    (operationId : Hash) : Bool :=
  written.any fun
    | .checkpoint owner hash => owner = sessionId ∧
        ∃ version ∈ store.versions (.checkpoint owner hash),
          version.blob.record.operationId = operationId ∧
            ∃ shown ∈ store.versions .manifest, shown.blob = version.blob.record.body.manifest
    | _ => false

theorem OncePublished.found {first store : Objects Hash} {written : List (Key Hash)}
    {sessionId : SessionId} {operationId : Hash} (fresh : first.fresh)
    (frame : ∀ key ∉ written, store.versions key = first.versions key)
    (published : OncePublished store sessionId operationId) :
    oncePublishedIn store written sessionId operationId = true := by
  obtain ⟨hash, version, held, rest⟩ := published
  refine List.any_eq_true.mpr ⟨.checkpoint sessionId hash, ?_, ?_⟩
  · by_contra unwritten
    rw [frame _ unwritten, fresh _ (by simp)] at held
    cases held
  · exact decide_eq_true ⟨rfl, version, held, rest⟩

end

section overtaken

def unpublishedAcknowledged (pool : Pool Tree) (written : List (Key Tree)) : Bool :=
  acknowledges pool 3 oneSession (.leaf 11) &&
    !oncePublishedIn pool.store written oneSession (.leaf 11)

theorem overtaken_acknowledges :
    (schedule (clients (fun _ _ => True) (fun _ _ => True)) stillService overtaken
      (Pool.initial oneBlock fun _ => "main", [])).any
        (fun last => unpublishedAcknowledged last.1 last.2) = true := by
  decide +kernel

/-- Without the condition on the two reads, operation 11 is acknowledged although its
manifest was never visible. -/
theorem finalize_acknowledges_unpublished :
    CollisionFree Tree ∧ ∃ pool : Pool Tree,
      Run (clients (fun _ _ => True) (fun _ _ => True))
        (Pool.initial oneBlock fun _ => "main") pool ∧
      Acknowledges pool 3 oneSession (.leaf 11) ∧
      ¬OncePublished pool.store oneSession (.leaf 11) := by
  refine ⟨Tree.collisionFree, ?_⟩
  obtain ⟨last, written, run, frame, found⟩ :=
    schedule_reaches unpublishedAcknowledged overtaken_acknowledges
  rw [unpublishedAcknowledged, Bool.and_eq_true, Bool.not_eq_true'] at found
  refine ⟨last, run, acknowledges_sound found.1, fun published => ?_⟩
  have present := published.found oneBlock_fresh frame
  rw [found.2] at present
  cases present

theorem finalizedOnce_acknowledges :
    (schedule (clients (fun _ _ => True) FinalizesItsOwn) stillService finalizedOnce
      (Pool.initial oneBlock fun _ => "main", [])).any
        (fun last => acknowledges last.1 1 oneSession (.leaf 10)) = true := by
  decide +kernel

theorem finalize_oncePublished_finalizedOnce :
    ∃ pool : Pool Tree,
      Run (clients (fun _ _ => True) FinalizesItsOwn) (Pool.initial oneBlock fun _ => "main") pool ∧
      Acknowledges pool 1 oneSession (.leaf 10) ∧
      OncePublished pool.store oneSession (.leaf 10) := by
  obtain ⟨last, _, run, _, found⟩ := schedule_reaches
    (fun pool _ => acknowledges pool 1 oneSession (Tree.leaf 10)) finalizedOnce_acknowledges
  exact ⟨last, run, acknowledges_sound found,
    finalize_oncePublished oneBlock_fresh run (acknowledges_sound found)⟩

end overtaken

end RusqDoltlite.Session

import RusqDoltlite.Session.HeadInvariant

/-! What holds in all runs of the calls: objects that are created once stay as they are, calls that only
read leave everything as it was, and a session stays in the scope of its first head. -/

namespace RusqDoltlite.Session

open Effects

variable {Hash : Type} [DecidableEq Hash] [Digest Hash]

/-- Candidates, checkpoints and history segments stay as they were stored, in every run, and every object
that was ever stored belongs under its key. -/
theorem objects_immutable [ManifestCodec] {store : Objects Hash} {names : Nat → String}
    {pool last : Pool Hash} (fresh : store.fresh)
    (run : Run (clients (fun _ _ => True) fun _ _ => True) (Pool.initial store names) pool)
    (later : Run (clients (fun _ _ => True) fun _ _ => True) pool last) :
    StoredInvariant last.store ∧ ∀ key : Key Hash, key.createOnly = true → ∀ version,
      pool.store.current key = some version → last.store.current key = some version := by
  have inv := ((storedCertificate_initial fresh names).run (run.trans later)).inv
  refine ⟨inv, fun key createOnly version now => ?_⟩
  exact (inv.unique key createOnly).current (later.grows.mem (Store.mem_of_current now))

/-- The first client has published operation 10, and another client claims the session for operation 11
and publishes it. -/
def finalizedAgain : List (Action (Call Tree)) :=
  invocation 2 oneBinding (.leaf 11) 3 (.finalize oneSession) 100

def keepsCreated (middle last : Pool Tree × List (Key Tree)) : Bool :=
  middle.2.any (fun key => key.createOnly && (middle.1.store.current key).isSome) &&
    decide ((middle.1.store.versions (.head oneSession)).length <
      (last.1.store.versions (.head oneSession)).length)

theorem objects_immutable_finalizedAgain : ∃ (pool last : Pool Tree) (key : Key Tree),
    Run (clients (fun _ _ => True) fun _ _ => True) pool last ∧
    (pool.store.versions (.head oneSession)).length < (last.store.versions (.head oneSession)).length ∧
    key.createOnly = true ∧ (pool.store.current key).isSome = true ∧
    last.store.current key = pool.store.current key := by
  have reached : (schedule (clients (fun _ _ => True) (fun _ _ => True)) stillService finalizedOnce
      (Pool.initial oneBlock fun _ => "main", [])).any (fun middle =>
        (schedule (clients (fun _ _ => True) (fun _ _ => True)) stillService finalizedAgain middle).any
          (keepsCreated middle)) = true := by
    decide +kernel
  obtain ⟨⟨pool, written⟩, ⟨last, _⟩, run, later, found⟩ := schedule_continues reached
  obtain ⟨created, longer⟩ := Bool.and_eq_true_iff.mp found
  obtain ⟨key, _, both⟩ := List.any_eq_true.mp created
  obtain ⟨createOnly, present⟩ := Bool.and_eq_true_iff.mp both
  obtain ⟨version, now⟩ := Option.isSome_iff_exists.mp present
  refine ⟨pool, last, key, later, of_decide_eq_true longer, createOnly, present, ?_⟩
  rw [now]
  exact (objects_immutable oneBlock_fresh run later).2 key createOnly version now

def Call.reads : Call Hash → Bool
  | .attachScoped _ _ | .detachScoped _ | .attach | .detach | .openHandle | .closeHandle | .poll
  | .pragmaPoll _ => true
  | _ => false

def readsCertificate [ManifestCodec] (store : Objects Hash) :
    Certificate (clients (fun _ (call : Call Hash) => call.reads = true) fun _ _ => True) where
  inv after := after = store
  rule _ _ := ReadsOnly
  post _ _ := Anything
  body_obeys {call state} reads := by
    cases call with
    | attachScoped binding operationId => exact attachSessionScoped_quiet binding operationId state []
    | detachScoped sessionId => exact detachSession_quiet sessionId state []
    | attach => exact attach_quiet state []
    | detach => exact detach_quiet state []
    | poll => exact poll_quiet state []
    | pragmaPoll inTransaction => exact Quiet.ite (.done _) (poll_quiet state) []
    | openHandle | closeHandle => trivial
    | _ => cases reads
  step_inv same _ rule served _ := by
    rcases served.inversion with kept | ⟨_, _, _, rfl, _⟩
    · exact kept.trans same
    · exact rule.elim

/-- However they are interleaved, and whatever fails, the manifest and the session objects stay. -/
theorem reads_keep_store [ManifestCodec] {pool last : Pool Hash}
    (idle : ∀ pid, ∃ state, pool.clients pid = .idle state)
    (run : Run (clients (fun _ call => call.reads = true) fun _ _ => True) pool last) :
    last.store = pool.store := by
  have start : (readsCertificate pool.store).Holds pool := by
    refine ⟨rfl, fun pid => ?_⟩
    obtain ⟨state, here⟩ := idle pid
    rw [here]
    trivial
  exact (start.run run).inv

def attached (pool : Pool Tree) (_ : List (Key Tree)) : Bool :=
  match pool.clients 1 with
  | .idle container => container.man.isSome
  | .busy _ _ _ _ => false

theorem reads_keep_store_attached : ∃ pool, attached pool [] = true ∧ pool.store = oneBlock := by
  have reached : (schedule (clients (fun _ call => call.reads = true) fun _ _ => True) stillService
      [.start 1 (.attachScoped oneBinding (.leaf 10)), .serve 1 100, .finish 1]
      (Pool.initial oneBlock fun _ => "main", [])).any (fun last => attached last.1 last.2) = true := by
    decide +kernel
  obtain ⟨last, _, run, _, found⟩ := schedule_reaches attached reached
  exact ⟨last, found, reads_keep_store (fun pid => ⟨_, rfl⟩) run⟩

theorem HeadWrite.scope {admits : Admission Hash} {store : Objects Hash} {log : OpLog Hash}
    {sessionId : SessionId} {head : Head Hash} {condition : Condition ETag}
    (write : HeadWrite log sessionId head condition) (traced : Traced admits store log) :
    condition = .absent ∨ ∃ stored ∈ store.versions (.head sessionId),
      stored.blob.record.scopeHash = head.scopeHash := by
  cases write with
  | claim _ _ _ _ _ _ succeeds =>
    cases succeeds with
    | first => exact .inl rfl
    | after saw scope => exact .inr ⟨_, traced.held saw, scope⟩
  | accept _ _ _ _ _ _ accepts =>
    cases accepts with
    | first => exact .inl rfl
    | after saw scope => exact .inr ⟨_, traced.held saw, scope⟩
  | promote _ saw _ _ _ _ _ _ scope => exact .inr ⟨_, traced.held saw, scope.symm⟩
  | commit _ read _ _ _ _ _ _ scope => exact .inr ⟨_, traced.held (.inl ⟨_, read⟩), scope.symm⟩

def OneScope (store : Objects Hash) : Prop :=
  ∀ sessionId, ∃ scopeHash, ∀ version ∈ store.versions (.head sessionId),
    version.blob.record.scopeHash = scopeHash

def scopeCertificate [ManifestCodec] :
    Certificate (clients (fun _ (_ : Call Hash) => True) fun _ _ => True) where
  inv := OneScope
  rule := Permit
  post := Established
  body_obeys _ := api_obeys _ _
  step_inv {_ _ store _ _ _ after} inv traced permit served _ sessionId := by
    obtain ⟨scopeHash, same⟩ := inv sessionId
    rcases served.inversion with rfl | ⟨key, condition, version, rfl, writes⟩
    · exact ⟨scopeHash, same⟩
    by_cases own : Key.head sessionId = key
    · subst own
      rcases permit.1.scope traced with rfl | ⟨stored, here, kept⟩
      · have vacant : store.versions (.head sessionId) = [] := List.head?_eq_none_iff.mp writes.1
        refine ⟨version.blob.record.scopeHash, fun other member => ?_⟩
        simp only [writes.mem, vacant, List.not_mem_nil, or_false] at member
        rw [member]
      · refine ⟨scopeHash, fun other member => ?_⟩
        rcases writes.mem.mp member with rfl | old
        · exact kept.symm.trans (same stored here)
        · exact same other old
    · rw [writes.versions_other own]
      exact ⟨scopeHash, same⟩

/-- Whoever writes a head of a session does it in the scope of the first. -/
theorem session_scope_kept [ManifestCodec] {store : Objects Hash} {names : Nat → String} {pool : Pool Hash}
    (fresh : store.fresh)
    (run : Run (clients (fun _ _ => True) fun _ _ => True) (Pool.initial store names) pool) :
    OneScope pool.store := by
  have start : scopeCertificate.Holds (Pool.initial store names) := by
    refine ⟨fun sessionId => ⟨Digest.zero, fun version held => ?_⟩, fun _ => trivial⟩
    rw [Pool.initial, fresh _ (by simp)] at held
    cases held
  exact (start.run run).inv

theorem session_scope_kept_overtaken : ∃ pool : Pool Tree,
    someHead committedInconsistent pool [] = true ∧ OneScope pool.store := by
  obtain ⟨last, _, run, _, found⟩ :=
    schedule_reaches (someHead committedInconsistent) overtaken_inconsistent
  exact ⟨last, found, session_scope_kept oneBlock_fresh run⟩

end RusqDoltlite.Session

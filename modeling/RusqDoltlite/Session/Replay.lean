import RusqDoltlite.Session.HeadInvariant

/-! Replay of operations. Accept records every operation in the history of the head and consults it;
finalize does neither. The operations of the head versions of a session are contiguous in the runs
whose finalizers leave the history as accept would. An operation that has become the head's is only
carried further, in the runs whose accept calls replace no head of their own operation: its
checkpoint stays and it does not return to ACCEPTED. -/

namespace RusqDoltlite.Session

open Effects

variable {Hash : Type} [DecidableEq Hash] [Digest Hash]

section

inductive InSegments (store : Objects Hash) (sessionId : SessionId) (operationId : Hash) :
    Hash → Prop
  | here {root : Hash} {version : Version ETag (Encoded Hash (HistoryBody Hash))}
      (stored : version ∈ store.versions (.history sessionId root)) (present : root ≠ Digest.zero)
      (member : operationId ∈ version.blob.record.body.historyOperations) :
      InSegments store sessionId operationId root
  | deeper {root : Hash} {version : Version ETag (Encoded Hash (HistoryBody Hash))}
      (stored : version ∈ store.versions (.history sessionId root)) (present : root ≠ Digest.zero)
      (rest : InSegments store sessionId operationId version.blob.record.body.historyHeadHash) :
      InSegments store sessionId operationId root

def Recorded (store : Objects Hash) (sessionId : SessionId) (history : Hash × List Hash)
    (operationId : Hash) : Prop :=
  operationId ∈ history.2 ∨ InSegments store sessionId operationId history.1

/-- A finalizer that takes the head over for another operation finds that operation
missing from the history and the replaced one recorded in it. -/
def KeepsHistory : Admission Hash := fun store event =>
  match event.request with
  | .put (.head sessionId) condition encoded =>
    encoded.record.state = .publishing → store.Admits (.head sessionId) condition →
      ∀ current ∈ store.current (.head sessionId),
        current.blob.record.operationId ≠ encoded.record.operationId →
          ¬Recorded store sessionId current.blob.record.body.history
            encoded.record.operationId ∧
          Recorded store sessionId current.blob.record.body.history
            current.blob.record.operationId
  | _ => True

def headOperation (version : StoredHead Hash) : Hash := version.blob.record.operationId

structure ReplayInvariant (store : Objects Hash) : Prop where
  stored : StoredInvariant store
  faithful : ∀ sessionId, store.Faithful (.head sessionId)
  states : ∀ sessionId, ∀ version ∈ store.versions (.head sessionId),
    version.blob.record.state = .accepted ∨ version.blob.record.state = .publishing ∨
      version.blob.record.state = .committed
  accepted : ∀ sessionId, ∀ version ∈ store.versions (.head sessionId),
    version.blob.record.state = .accepted →
      Recorded store sessionId version.blob.record.body.history (headOperation version)
  past : ∀ sessionId newer older, [newer, older].Sublist (store.versions (.head sessionId)) →
    headOperation older = headOperation newer ∨
      Recorded store sessionId newer.blob.record.body.history (headOperation older)
  contiguous : ∀ sessionId, Contiguous headOperation (store.versions (.head sessionId))

variable {store after : Objects Hash} {sessionId : SessionId} {operationId root : Hash}

theorem InSegments.grow (inside : InSegments store sessionId operationId root)
    (grows : store.Grows after) : InSegments after sessionId operationId root := by
  induction inside with
  | here stored present member => exact .here (grows.mem stored) present member
  | deeper stored present _ ih => exact .deeper (grows.mem stored) present ih

theorem Recorded.grow {history : Hash × List Hash}
    (recorded : Recorded store sessionId history operationId) (grows : store.Grows after) :
    Recorded after sessionId history operationId :=
  recorded.imp_right fun inside => inside.grow grows

variable {admits : Admission Hash} {log : OpLog Hash}

/-- A chain that was walked to its end without meeting the operation does not contain it:
each segment has only one version. -/
theorem Unrecorded.not_inSegments (unrecorded : Unrecorded log sessionId operationId root)
    (traced : Traced admits store log)
    (inv : StoredInvariant store) : ¬InSegments store sessionId operationId root := by
  induction unrecorded with
  | nil =>
    intro inside
    cases inside with
    | here _ present _ => exact present rfl
    | deeper _ present _ => exact present rfl
  | @segment root version saw absent _ ih =>
    intro inside
    cases inside with
    | here stored _ member =>
      obtain rfl := inv.unique (.history sessionId root) rfl _ stored version (traced.held saw)
      exact absent member
    | deeper stored _ rest =>
      obtain rfl := inv.unique (.history sessionId root) rfl _ stored version (traced.held saw)
      exact ih rest

theorem Appends.recorded_old {scopeHash : Hash} {old new : Hash × List Hash} {earlier : Hash}
    (appends : Appends log sessionId scopeHash operationId old new) (traced : Traced admits store log)
    (recorded : Recorded store sessionId old earlier) : Recorded store sessionId new earlier := by
  rcases appends with rfl | ⟨⟨present, _⟩, version, saw, _, body⟩
  · exact recorded.imp_left fun member => List.mem_append_left _ member
  · have stored := traced.held saw
    rcases recorded with member | inside
    · exact .inr (.here stored present (by rw [body]; exact List.mem_append_left _ member))
    · exact .inr (.deeper stored present (by rw [body]; exact inside))

theorem Appends.recorded_new {scopeHash : Hash} {old new : Hash × List Hash}
    (appends : Appends log sessionId scopeHash operationId old new) (traced : Traced admits store log) :
    Recorded store sessionId new operationId := by
  rcases appends with rfl | ⟨⟨present, _⟩, version, saw, _, body⟩
  · exact .inl (List.mem_append_right _ (List.mem_singleton_self _))
  · exact .inr (.here (traced.held saw) present (by rw [body]; simp))

structure Advances (store : Objects Hash) (sessionId : SessionId) (head : Head Hash) : Prop where
  states : head.state = .accepted ∨ head.state = .publishing ∨ head.state = .committed
  accepted : head.state = .accepted →
    Recorded store sessionId head.body.history head.operationId
  replaces : ∀ current ∈ store.current (.head sessionId),
    (∀ earlier, Recorded store sessionId current.blob.record.body.history earlier →
      Recorded store sessionId head.body.history earlier) ∧
    (current.blob.record.operationId = head.operationId ∨
      ¬Recorded store sessionId current.blob.record.body.history head.operationId ∧
      Recorded store sessionId current.blob.record.body.history current.blob.record.operationId)

theorem HeadWrite.advances {head : Head Hash} {condition : Condition ETag}
    (inv : ReplayInvariant store) (traced : Traced admits store log)
    (write : HeadWrite log sessionId head condition)
    (admitted : store.Admits (.head sessionId) condition)
    (keeps : head.state = .publishing → ∀ current ∈ store.current (.head sessionId),
      current.blob.record.operationId ≠ head.operationId →
        ¬Recorded store sessionId current.blob.record.body.history head.operationId ∧
        Recorded store sessionId current.blob.record.body.history
          current.blob.record.operationId) :
    Advances store sessionId head := by
  cases write with
  | claim state _ _ _ _ _ succeeds =>
    refine ⟨.inr (.inl state), fun other => (by cases state.symm.trans other), ?_⟩
    intro current now
    cases succeeds with
    | first _ =>
      rw [show store.current (.head sessionId) = none from admitted] at now
      cases now
    | after saw _ other history =>
      have same := traced.replaced (inv.faithful sessionId) saw admitted now
      refine ⟨fun earlier recorded => by rwa [history, ← same], .inr ?_⟩
      exact keeps state current now (by rw [same]; exact other)
  | accept state _ _ _ _ _ accepts =>
    cases accepts with
    | first appends =>
      refine ⟨.inl state, fun _ => appends.recorded_new traced, fun current now => ?_⟩
      rw [show store.current (.head sessionId) = none from admitted] at now
      cases now
    | @after stored saw _ kept fresh appends =>
      refine ⟨.inl state, fun _ => appends.recorded_new traced, fun current now => ?_⟩
      have same := traced.replaced (inv.faithful sessionId) saw admitted now
      rw [same]
      refine ⟨fun earlier recorded => appends.recorded_old traced recorded, ?_⟩
      by_cases operation : stored.blob.record.operationId = head.operationId
      · exact .inl operation
      · obtain ⟨absent, unrecorded⟩ := fresh operation
        have missing := unrecorded.not_inSegments traced inv.stored
        refine .inr ⟨fun recorded => recorded.elim absent missing, ?_⟩
        -- only an accepted head is replaced by the accept of another operation
        have held := traced.held saw
        rcases inv.states sessionId stored held with accepted | publishing | committed
        · exact inv.accepted sessionId stored held accepted
        · exact absurd (kept (.inr publishing)) operation
        · exact absurd (kept (.inl committed)) operation
  | promote state saw _ _ _ _ operation _ _ history =>
    refine ⟨.inr (.inl state), fun other => (by cases state.symm.trans other), ?_⟩
    intro current now
    have same := traced.replaced (inv.faithful sessionId) saw admitted now
    exact ⟨fun earlier recorded => by rwa [history, ← same], .inl (by rw [same, operation])⟩
  | commit state read _ _ _ _ operation _ _ history =>
    refine ⟨.inr (.inr state), fun other => (by cases state.symm.trans other), ?_⟩
    intro current now
    have same := traced.replaced (inv.faithful sessionId) (.inl ⟨_, read⟩) admitted now
    exact ⟨fun earlier recorded => by rwa [history, ← same], .inl (by rw [same, operation])⟩

theorem Advances.past {version older : StoredHead Hash}
    (advances : Advances store sessionId version.blob.record) (inv : ReplayInvariant store)
    (held : older ∈ store.versions (.head sessionId)) :
    headOperation older = headOperation version ∨
      Recorded store sessionId version.blob.record.body.history (headOperation older) := by
  cases versions : store.versions (.head sessionId) with
  | nil =>
    rw [versions] at held
    cases held
  | cons current rest =>
    have now : current ∈ store.current (.head sessionId) := by simp [Store.current, versions]
    obtain ⟨carried, operation⟩ := advances.replaces current now
    have ofCurrent : headOperation older = headOperation current →
        headOperation older = headOperation version ∨
          Recorded store sessionId version.blob.record.body.history (headOperation older) := by
      intro same
      rcases operation with operation | ⟨_, recorded⟩
      · exact .inl (same.trans operation)
      · exact .inr (same ▸ carried _ recorded)
    rw [versions] at held
    rcases List.mem_cons.mp held with rfl | member
    · exact ofCurrent rfl
    · have inside : [current, older].Sublist (store.versions (.head sessionId)) := by
        rw [versions]
        exact (List.singleton_sublist.mpr member).cons_cons current
      rcases inv.past sessionId current older inside with same | recorded
      · exact ofCurrent same
      · exact .inr (carried _ recorded)

theorem Advances.contiguous {version : StoredHead Hash}
    (advances : Advances store sessionId version.blob.record) (inv : ReplayInvariant store) :
    Contiguous headOperation (version :: store.versions (.head sessionId)) := by
  have before := inv.contiguous sessionId
  cases versions : store.versions (.head sessionId) with
  | nil => exact (Contiguous.nil _).cons_fresh (by simp)
  | cons current rest =>
    have now : current ∈ store.current (.head sessionId) := by simp [Store.current, versions]
    rw [versions] at before
    obtain ⟨_, operation | ⟨absent, recorded⟩⟩ := advances.replaces current now
    · exact before.cons_same operation.symm
    · refine before.cons_fresh fun old member same => absent ?_
      have reused : version.blob.record.operationId = headOperation old := same.symm
      rw [reused]
      rcases List.mem_cons.mp member with rfl | member
      · exact recorded
      · have inside : [current, old].Sublist (store.versions (.head sessionId)) := by
          rw [versions]
          exact (List.singleton_sublist.mpr member).cons_cons current
        rcases inv.past sessionId current old inside with equal | recorded
        · exact equal ▸ recorded
        · exact recorded

theorem ReplayInvariant.step {call : Call Hash} {start : Container Hash} {request : Req Hash}
    {answer : Ans Hash request} (inv : ReplayInvariant store)
    (admitted : ∀ store event, admits store event → KeepsHistory store event)
    (traced : Traced admits store log) (permit : Permit call start log request)
    (served : Serves store request answer after) (own : admits store ⟨request, answer⟩) :
    ReplayInvariant after := by
  have grows := served.grows
  have stored := inv.stored.step traced permit served
  rcases served.inversion with rfl | ⟨key, condition, version, rfl, writes⟩
  · exact inv
  · have keeps := admitted _ _ own
    have faithful (sessionId) : after.Faithful (.head sessionId) :=
      (inv.faithful sessionId).write writes
    have head (sessionId : SessionId) :
        after.versions (.head sessionId) = store.versions (.head sessionId) ∨
          ∃ new, after.versions (.head sessionId) = new :: store.versions (.head sessionId) ∧
            Advances store sessionId new.blob.record := by
      by_cases same : Key.head sessionId = key
      · subst same
        have advances := HeadWrite.advances inv traced permit.1 writes.1
          fun state current now other => keeps state writes.1 current now other
        obtain ⟨_, _, rfl⟩ := writes
        exact .inr ⟨version, by simp, advances⟩
      · exact .inl (writes.versions_other same)
    refine ⟨stored, faithful, fun sessionId => ?_, fun sessionId => ?_, fun sessionId => ?_,
      fun sessionId => ?_⟩ <;>
    rcases head sessionId with same | ⟨new, same, advances⟩ <;> rw [same]
    · exact inv.states sessionId
    · exact List.forall_mem_cons.mpr ⟨advances.states, inv.states sessionId⟩
    · exact fun old held state => (inv.accepted sessionId old held state).grow grows
    · exact List.forall_mem_cons.mpr ⟨fun state => (advances.accepted state).grow grows,
        fun old held state => (inv.accepted sessionId old held state).grow grows⟩
    · exact fun newer older inside =>
        (inv.past sessionId newer older inside).imp_right fun recorded => recorded.grow grows
    · intro newer older inside
      rcases List.sublist_cons_iff.mp inside with inside | ⟨tail, split, inside⟩
      · exact (inv.past sessionId newer older inside).imp_right fun recorded => recorded.grow grows
      · obtain ⟨rfl, rfl⟩ : newer = new ∧ tail = [older] := by simpa [eq_comm] using split
        exact (advances.past inv (List.singleton_sublist.mp inside)).imp_right
          fun recorded => recorded.grow grows
    · exact inv.contiguous sessionId
    · exact advances.contiguous inv

theorem ReplayInvariant.fresh (fresh : store.fresh) : ReplayInvariant store := by
  have empty (sessionId) : store.versions (.head sessionId) = [] := fresh _ (by simp)
  refine ⟨.fresh fresh, fun sessionId one here => ?_, fun sessionId => ?_, fun sessionId => ?_,
    fun sessionId newer older inside => ?_, fun sessionId => ?_⟩
  · rw [empty] at here
    cases here
  · simp [empty]
  · simp [empty]
  · rw [empty] at inside
    cases inside
  · rw [empty]
    exact .nil _

def replayCertificate [ManifestCodec] (starts : Container Hash → Call Hash → Prop) :
    Certificate (clients starts KeepsHistory) where
  inv := ReplayInvariant
  rule := Permit
  post := Established
  body_obeys _ := api_obeys _ _
  step_inv inv traced permit served own := inv.step (fun _ _ => id) traced permit served own

/-- In every run whose finalizers keep the history, an operation that has been replaced
as the head's operation never becomes it again. -/
theorem head_operations_contiguous [ManifestCodec] {names : Nat → String} {pool : Pool Hash}
    (fresh : store.fresh)
    (run : Run (clients (fun _ _ => True) KeepsHistory) (Pool.initial store names) pool)
    (sessionId : SessionId) : Contiguous headOperation (pool.store.versions (.head sessionId)) := by
  have start : (replayCertificate fun _ _ => True).Holds (Pool.initial store names) :=
    ⟨.fresh fresh, fun _ => trivial⟩
  exact (start.run run).inv.contiguous sessionId

end

section replayed

def acceptance (pid : Nat) (operationId : Tree) (block : UInt8) : List (Action (Call Tree)) :=
  invocation pid oneBinding operationId block (.checkpoint oneSession) 100 ++
    [.finish pid, .start pid (.accept oneSession), .serve pid 100]

def headOperations (pid : Nat) (newest : Tree) (operations : List Tree) (pool : Pool Tree)
    (_ : List (Key Tree)) : Bool :=
  acknowledges pool pid oneSession newest &&
    (pool.store.versions (.head oneSession)).map headOperation = operations

theorem finalize_replays :
    (schedule (clients (fun _ _ => True) (fun _ _ => True)) stillService
      (acceptance 1 (.leaf 10) 2 ++ acceptance 2 (.leaf 11) 3 ++
        invocation 3 oneBinding (.leaf 10) 4 (.finalize oneSession) 100)
      (Pool.initial oneBlock fun _ => "main", [])).any
        (fun last => headOperations 3 (.leaf 10) [.leaf 10, .leaf 10, .leaf 11, .leaf 10] last.1
          last.2) = true := by
  decide +kernel

/-- Without the condition, a finalizer brings back an operation that the history
records. -/
theorem head_operation_returns :
    CollisionFree Tree ∧ ∃ pool : Pool Tree,
      Run (clients (fun _ _ => True) (fun _ _ => True))
        (Pool.initial oneBlock fun _ => "main") pool ∧
      Acknowledges pool 3 oneSession (.leaf 10) ∧
      (pool.store.versions (.head oneSession)).map headOperation =
        [.leaf 10, .leaf 10, .leaf 11, .leaf 10] ∧
      ¬Contiguous headOperation (pool.store.versions (.head oneSession)) := by
  refine ⟨Tree.collisionFree, ?_⟩
  obtain ⟨pool, _, run, _, found⟩ := schedule_reaches _ finalize_replays
  rw [headOperations, Bool.and_eq_true] at found
  have operations := of_decide_eq_true found.2
  refine ⟨pool, run, acknowledges_sound found.1, operations, fun contiguous => ?_⟩
  have inside : [Tree.leaf 10, .leaf 11, .leaf 10].Sublist
      ((pool.store.versions (.head oneSession)).map headOperation) := by
    rw [operations]
    decide
  exact absurd (contiguous.map inside rfl) (by decide)

def KeepsTail : Admission Tree := fun store event =>
  match event.request with
  | .put (.head sessionId) _ encoded => encoded.record.state = .publishing →
      ∀ current ∈ store.current (.head sessionId),
        current.blob.record.operationId ≠ encoded.record.operationId →
          current.blob.record.body.historyHeadHash = Digest.zero ∧
          encoded.record.operationId ∉ current.blob.record.body.historyOperations ∧
          current.blob.record.operationId ∈ current.blob.record.body.historyOperations
  | _ => True

instance (store : Objects Tree) (event : Event (Req Tree) (Ans Tree)) :
    Decidable (KeepsTail store event) := by
  unfold KeepsTail
  split <;> infer_instance

theorem KeepsTail.keepsHistory {store : Objects Tree} {event : Event (Req Tree) (Ans Tree)}
    (keeps : KeepsTail store event) : KeepsHistory store event := by
  unfold KeepsTail at keeps
  unfold KeepsHistory
  split
  · rename_i sessionId condition encoded same
    rw [same] at keeps
    intro state _ current now other
    obtain ⟨unsegmented, absent, present⟩ := keeps state current now other
    refine ⟨?_, .inl present⟩
    rintro (member | inside)
    · exact absent member
    · rw [HeadBody.history, unsegmented] at inside
      cases inside with
      | here _ nonzero _ => exact nonzero rfl
      | deeper _ nonzero _ => exact nonzero rfl
  · trivial

theorem finalize_succeeds :
    (schedule (clients (fun _ _ => True) KeepsTail) stillService
      (acceptance 1 (.leaf 10) 2 ++ invocation 2 oneBinding (.leaf 11) 3 (.finalize oneSession) 100)
      (Pool.initial oneBlock fun _ => "main", [])).any
        (fun last => headOperations 2 (.leaf 11) [.leaf 11, .leaf 11, .leaf 10] last.1
          last.2) = true := by
  decide +kernel

theorem head_operations_contiguous_succeeds :
    ∃ pool : Pool Tree,
      Run (clients (fun _ _ => True) KeepsHistory) (Pool.initial oneBlock fun _ => "main") pool ∧
      (pool.store.versions (.head oneSession)).map headOperation = [.leaf 11, .leaf 11, .leaf 10] ∧
      Contiguous headOperation (pool.store.versions (.head oneSession)) := by
  obtain ⟨pool, _, run, _, found⟩ := schedule_reaches _ finalize_succeeds
  rw [headOperations, Bool.and_eq_true] at found
  have kept : Run (clients (fun _ _ => True) KeepsHistory) (Pool.initial oneBlock fun _ => "main")
      pool := run.weaken rfl (fun _ _ => id) fun _ _ => KeepsTail.keepsHistory
  exact ⟨pool, kept, of_decide_eq_true found.2, head_operations_contiguous oneBlock_fresh kept _⟩

end replayed

section

/-- The head that an accepted record replaces stands in the given relation to that record. -/
def AcceptsOver (related : Record Hash (HeadBody Hash) → Record Hash (HeadBody Hash) → Prop) : Admission Hash :=
  fun store event =>
    match event.request with
    | .put (.head sessionId) condition encoded =>
      encoded.record.state = .accepted → store.Admits (.head sessionId) condition →
        ∀ current ∈ store.current (.head sessionId), related current.blob.record encoded.record
    | _ => True

instance (related : Record Hash (HeadBody Hash) → Record Hash (HeadBody Hash) → Prop)
    [∀ replaced accepted, Decidable (related replaced accepted)] (store : Objects Hash)
    (event : Event (Req Hash) (Ans Hash)) : Decidable (AcceptsOver related store event) :=
  match event with
  | ⟨.put (.head sessionId) condition encoded, _⟩ => inferInstanceAs (Decidable
      (encoded.record.state = .accepted → store.Admits (.head sessionId) condition →
        ∀ current ∈ store.current (.head sessionId), related current.blob.record encoded.record))
  | ⟨.put .manifest _ _, _⟩ | ⟨.put (.candidate _) _ _, _⟩ | ⟨.put (.checkpoint _ _) _ _, _⟩
  | ⟨.put (.history _ _) _ _, _⟩ | ⟨.put .publication _ _, _⟩ | ⟨.get _ _, _⟩ | ⟨.ask _, _⟩ =>
    isTrue trivial

def AcceptsAnew : Admission Hash :=
  AcceptsOver fun replaced accepted => replaced.operationId ≠ accepted.operationId

instance (store : Objects Hash) (event : Event (Req Hash) (Ans Hash)) :
    Decidable (AcceptsAnew store event) :=
  inferInstanceAs (Decidable (AcceptsOver _ store event))

/-- Finalizers keep the history, publishers commit their own checkpoint, and accept
replaces other operations only. -/
def ExecutesOnce : Admission Hash := fun store event =>
  KeepsHistory store event ∧ CommitsItsOwn store event ∧ AcceptsAnew store event

def SameExecution (newer older : StoredHead Hash) : Prop :=
  newer.blob.record.body.checkpointHash = older.blob.record.body.checkpointHash ∧
    (newer.blob.record.state = .accepted → older.blob.record.state = .accepted)

theorem SameExecution.trans {newer between older : StoredHead Hash}
    (first : SameExecution newer between) (second : SameExecution between older) :
    SameExecution newer older :=
  ⟨first.1.trans second.1, fun state => second.2 (first.2 state)⟩

structure ExecutionInvariant (store : Objects Hash) : Prop where
  replay : ReplayInvariant store
  once : ∀ sessionId newer older, [newer, older].Sublist (store.versions (.head sessionId)) →
    headOperation newer = headOperation older → SameExecution newer older

variable {store after : Objects Hash} {sessionId : SessionId} {log : OpLog Hash}
variable {admits : Admission Hash} {version current : StoredHead Hash}

theorem HeadWrite.sameExecution {condition : Condition ETag} (inv : ReplayInvariant store)
    (admitted : ∀ store event, admits store event → CommitsItsOwn store event)
    (traced : Traced admits store log)
    (write : HeadWrite log sessionId version.blob.record condition)
    (fenced : store.Admits (.head sessionId) condition)
    (now : current ∈ store.current (.head sessionId))
    (anew : version.blob.record.state = .accepted →
      headOperation current ≠ headOperation version)
    (operation : headOperation current = headOperation version) : SameExecution version current := by
  cases write with
  | claim state _ _ _ _ _ succeeds =>
    cases succeeds with
    | first _ =>
      rw [show store.current (.head sessionId) = none from fenced] at now
      cases now
    | after saw _ other _ =>
      have same := traced.replaced (inv.faithful sessionId) saw fenced now
      rw [headOperation, same] at operation
      exact absurd operation other
  | accept state _ _ _ _ _ _ => exact absurd operation (anew state)
  | promote state saw _ _ named about _ _ _ _ =>
    have same := traced.replaced (inv.faithful sessionId) saw fenced now
    refine ⟨?_, fun accepted => by cases state.symm.trans accepted⟩
    rw [same, named, about.1]
  | commit state read pending _ _ about _ _ _ _ =>
    have same := traced.replaced (inv.faithful sessionId) (.inl ⟨_, read⟩) fenced now
    refine ⟨?_, fun accepted => by cases state.symm.trans accepted⟩
    rcases CommitsItsOwn.read admitted traced read with committed | named
    · rw [committed] at pending
      rcases pending with impossible | impossible <;> cases impossible
    · rw [same, named, about.1]

theorem ExecutionInvariant.step {call : Call Hash} {start : Container Hash} {request : Req Hash}
    {answer : Ans Hash request} (inv : ExecutionInvariant store)
    (admitted : ∀ store event, admits store event → ExecutesOnce store event)
    (traced : Traced admits store log) (permit : Permit call start log request)
    (served : Serves store request answer after) (own : admits store ⟨request, answer⟩) :
    ExecutionInvariant after := by
  have replay := inv.replay.step (fun store event met => (admitted store event met).1) traced permit
    served own
  refine ⟨replay, ?_⟩
  rcases served.inversion with rfl | ⟨key, condition, version, rfl, writes⟩
  · exact inv.once
  · intro sessionId newer older inside operation
    by_cases same : Key.head sessionId = key
    · subst same
      have contiguous := replay.contiguous sessionId
      have versions : after.versions (.head sessionId) =
          version :: store.versions (.head sessionId) := by
        rw [writes.2.2, Store.write_versions_same]
      rw [versions] at inside contiguous
      rcases List.sublist_cons_iff.mp inside with inside | ⟨tail, split, inside⟩
      · exact inv.once sessionId newer older inside operation
      obtain ⟨rfl, rfl⟩ : newer = version ∧ tail = [older] := by simpa [eq_comm] using split
      cases shape : store.versions (.head sessionId) with
      | nil =>
        rw [shape] at inside
        cases inside
      | cons current rest =>
        have now : current ∈ store.current (.head sessionId) := by simp [Store.current, shape]
        have continues : headOperation current = headOperation newer →
            SameExecution newer current :=
          permit.1.sameExecution inv.replay
            (fun store event met => (admitted store event met).2.1) traced writes.1 now
            fun state => (admitted _ _ own).2.2 state writes.1 current now
        rw [shape] at inside contiguous
        rcases List.mem_cons.mp (List.singleton_sublist.mp inside) with rfl | member
        · exact continues operation.symm
        · -- the operation has not been left since `older`, so `current` carries it too
          have chain : [newer, current, older].Sublist (newer :: current :: rest) :=
            ((List.singleton_sublist.mpr member).cons_cons current).cons_cons newer
          have between : headOperation current = headOperation older :=
            contiguous newer current older chain operation
          refine (continues (between.trans operation.symm)).trans ?_
          apply inv.once sessionId current older ?_ between
          rw [shape]
          exact (List.singleton_sublist.mpr member).cons_cons current
    · rw [writes.versions_other same] at inside
      exact inv.once sessionId newer older inside operation

theorem ExecutionInvariant.fresh (fresh : store.fresh) : ExecutionInvariant store := by
  refine ⟨.fresh fresh, fun sessionId newer older inside => ?_⟩
  rw [fresh (.head sessionId) (by simp)] at inside
  cases inside

def executionCertificate [ManifestCodec] (starts : Container Hash → Call Hash → Prop) :
    Certificate (clients starts ExecutesOnce) where
  inv := ExecutionInvariant
  rule := Permit
  post := Established
  body_obeys _ := api_obeys _ _
  step_inv inv traced permit served own := inv.step (fun _ _ => id) traced permit served own

/-- In every run that meets the condition, two head versions of one operation name the same
checkpoint, and the later of them is accepted only if the earlier is. -/
theorem operation_executes_once [ManifestCodec] {names : Nat → String} {pool : Pool Hash}
    {newer older : StoredHead Hash} (fresh : store.fresh)
    (run : Run (clients (fun _ _ => True) ExecutesOnce) (Pool.initial store names) pool)
    (inside : [newer, older].Sublist (pool.store.versions (.head sessionId)))
    (operation : headOperation newer = headOperation older) : SameExecution newer older := by
  have start : (executionCertificate fun _ _ => True).Holds (Pool.initial store names) :=
    ⟨.fresh fresh, fun _ => trivial⟩
  exact (start.run run).inv.once sessionId newer older inside operation

end

section reexecuted

def newestHeads (test : StoredHead Tree → StoredHead Tree → Bool) (pool : Pool Tree)
    (_ : List (Key Tree)) : Bool :=
  match pool.store.versions (.head oneSession) with
  | newer :: older :: _ => headOperation newer = .leaf 10 && headOperation older = .leaf 10 &&
      test newer older
  | _ => false

theorem newestHeads_sound {test : StoredHead Tree → StoredHead Tree → Bool} {pool : Pool Tree}
    {written : List (Key Tree)} (found : newestHeads test pool written = true) :
    ∃ newer older, [newer, older].Sublist (pool.store.versions (.head oneSession)) ∧
      headOperation newer = .leaf 10 ∧ headOperation older = .leaf 10 ∧
      test newer older = true := by
  unfold newestHeads at found
  split at found
  · rename_i newer older rest shape
    simp only [Bool.and_eq_true, decide_eq_true_eq] at found
    obtain ⟨⟨newerOperation, olderOperation⟩, tested⟩ := found
    refine ⟨newer, older, ?_, newerOperation, olderOperation, tested⟩
    rw [shape]
    exact ((List.nil_sublist rest).cons_cons older).cons_cons newer
  · cases found

def acceptedAgain (newer older : StoredHead Tree) : Bool :=
  newer.blob.record.state = .accepted && older.blob.record.state = .publishing &&
    newer.blob.record.body.checkpointHash ≠ older.blob.record.body.checkpointHash

/-- The first client stops right after it has claimed the head for operation 10. The
second retries operation 10, writes another block and has its checkpoint accepted. -/
theorem accept_reexecutes :
    (schedule (clients (fun _ _ => True) (fun _ _ => True)) stillService
      (invocation 1 oneBinding (.leaf 10) 2 (.finalize oneSession) 9 ++ acceptance 2 (.leaf 10) 3)
      (Pool.initial oneBlock fun _ => "main", [])).any
        (fun last => newestHeads acceptedAgain last.1 last.2) = true := by
  decide +kernel

/-- Without the condition, a second execution takes the place of one that is being
published. -/
theorem operation_executes_again :
    CollisionFree Tree ∧ ∃ (pool : Pool Tree) (newer older : StoredHead Tree),
      Run (clients (fun _ _ => True) (fun _ _ => True))
        (Pool.initial oneBlock fun _ => "main") pool ∧
      [newer, older].Sublist (pool.store.versions (.head oneSession)) ∧
      headOperation newer = headOperation older ∧
      newer.blob.record.body.checkpointHash ≠ older.blob.record.body.checkpointHash ∧
      older.blob.record.state = .publishing ∧ newer.blob.record.state = .accepted := by
  refine ⟨Tree.collisionFree, ?_⟩
  obtain ⟨pool, _, run, _, found⟩ := schedule_reaches _ accept_reexecutes
  obtain ⟨newer, older, inside, newerOperation, olderOperation, again⟩ := newestHeads_sound found
  simp only [acceptedAgain, Bool.and_eq_true, decide_eq_true_eq] at again
  obtain ⟨⟨accepted, publishing⟩, checkpoints⟩ := again
  exact ⟨pool, newer, older, run, inside, newerOperation.trans olderOperation.symm, checkpoints,
    publishing, accepted⟩

def ExecutesOnceTail : Admission Tree := fun store event =>
  KeepsTail store event ∧ CommitsItsOwn store event ∧ AcceptsAnew store event

instance (store : Objects Tree) (event : Event (Req Tree) (Ans Tree)) :
    Decidable (ExecutesOnceTail store event) :=
  inferInstanceAs (Decidable (_ ∧ _ ∧ _))

theorem accept_then_upload :
    (schedule (clients (fun _ _ => True) ExecutesOnceTail) stillService
      (acceptance 1 (.leaf 10) 2 ++
        [.finish 1, .start 1 (.sessionUpload oneSession), .serve 1 100])
      (Pool.initial oneBlock fun _ => "main", [])).any
        (fun last => newestHeads (fun newer _ => newer.blob.record.state = .committed) last.1
          last.2) = true := by
  decide +kernel

theorem operation_executes_once_uploaded :
    ∃ (pool : Pool Tree) (newer older : StoredHead Tree),
      Run (clients (fun _ _ => True) ExecutesOnce) (Pool.initial oneBlock fun _ => "main") pool ∧
      [newer, older].Sublist (pool.store.versions (.head oneSession)) ∧
      headOperation newer = headOperation older ∧ SameExecution newer older := by
  obtain ⟨pool, _, run, _, found⟩ := schedule_reaches _ accept_then_upload
  obtain ⟨newer, older, inside, newerOperation, olderOperation, _⟩ := newestHeads_sound found
  have kept : Run (clients (fun _ _ => True) ExecutesOnce) (Pool.initial oneBlock fun _ => "main")
      pool := run.weaken rfl (fun _ _ => id) fun _ _ met => ⟨met.1.keepsHistory, met.2⟩
  have operation : headOperation newer = headOperation older :=
    newerOperation.trans olderOperation.symm
  exact ⟨pool, newer, older, kept, inside, operation,
    operation_executes_once oneBlock_fresh kept inside operation⟩

end reexecuted

end RusqDoltlite.Session

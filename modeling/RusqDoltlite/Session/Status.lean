import RusqDoltlite.Session.History

/-! `sqlite3_bcvfs_session_operation_status`: what a bound attachment is told about its
operation. That an operation is new is right in the runs whose accept calls replace
accepted heads only. -/

namespace RusqDoltlite.Session

open Effects

variable {Hash : Type} [DecidableEq Hash] [Digest Hash]

section

inductive OperationStatus where
  | new
  | accepted
  | committed
  | failed
  | conflict
deriving DecidableEq, Repr

def ownStatus (state : RecordState) (outcome : Outcome) : OperationStatus :=
  if state = .committed then
    .committed
  else if state = .accepted ∨ state = .publishing then
    .accepted
  else if state = .aborted ∨ state = .expired ∨ outcome = .failure ∨ outcome = .conflict then
    .failed
  else
    .conflict

def operationStatus (binding : Binding) (context : Context Hash) : Op Hash OperationStatus := do
  match ← sessionReadHead binding .other with
  | none => .done .new
  | some stored =>
    let head := stored.blob.record
    if head.operationId = context.operationId then
      .done (ownStatus head.state head.outcome)
    else if head.state = .committed ∨ head.state = .publishing then
      .done .conflict
    else if expectedHeadIsCurrent context (some stored) = false then
      .done .conflict
    else do
      let superseded ← historyContainsOperation binding head.body context.operationId
      .done (if superseded then .conflict else .new)

def sessionOperationStatus (sessionId : SessionId) (container : Container Hash) :
    Op Hash OperationStatus := do
  let (_, context) ← Prog.ofExcept (container.bound (container.acquire sessionId)
    "session operation status does not own a bound attachment")
  operationStatus ⟨sessionId, context.scope⟩ context

theorem ownStatus_ne_new (state : RecordState) (outcome : Outcome) :
    ownStatus state outcome ≠ .new := by
  unfold ownStatus
  split
  · decide
  split
  · decide
  split <;> decide

/-- The call read no head, or the head of another operation that is neither published nor
committed, and walked its history without meeting the bound operation. -/
def FoundNew (log : OpLog Hash) (sessionId : SessionId) (operationId : Hash) : Prop :=
  ∃ current, ⟨.get (.head sessionId) .other, .ok current⟩ ∈ log ∧
    ∀ stored : StoredHead Hash, stored ∈ current → headOperation stored ≠ operationId ∧
      stored.blob.record.state ≠ .committed ∧ stored.blob.record.state ≠ .publishing ∧
      operationId ∉ stored.blob.record.body.historyOperations ∧
      Unrecorded log sessionId operationId stored.blob.record.body.historyHeadHash

end

section
variable {rule : OpLog Hash → Req Hash → Prop} [PermitsReads rule] {log : OpLog Hash}

theorem operationStatus_obeys {binding : Binding} {context : Context Hash} :
    Obeys rule (fun status later => status = .new →
        FoundNew later binding.sessionId context.operationId)
      (operationStatus binding context) log := by
  refine (sessionReadHead_logged binding .other).bind fun current first _ logged => ?_
  cases current with
  | none => exact Obeys.done fun _ => ⟨none, logged, by simp⟩
  | some stored =>
    dsimp only
    split
    · exact Obeys.done fun impossible => absurd impossible (ownStatus_ne_new _ _)
    rename_i other
    split
    · exact Obeys.done fun impossible => by cases impossible
    rename_i pending
    split
    · exact Obeys.done fun impossible => by cases impossible
    refine historyContainsOperation_obeys.bind fun superseded second toSecond known => ?_
    refine Obeys.done fun new => ⟨some stored, toSecond.subset logged, ?_⟩
    have unrecorded : superseded = false := by
      cases superseded with
      | false => rfl
      | true => cases new
    intro version here
    cases here
    exact ⟨other, fun committed => pending (.inl committed),
      fun publishing => pending (.inr publishing), known unrecorded⟩

theorem sessionOperationStatus_obeys {sessionId : SessionId} {container : Container Hash} :
    Obeys rule (fun status later => status = .new → ∃ context, container.context = some context ∧
        FoundNew later sessionId context.operationId)
      (sessionOperationStatus sessionId container) log := by
  refine Obeys.ofExcept_bind fun bound success => ?_
  refine operationStatus_obeys.mono fun status later _ known new => ?_
  exact ⟨bound.2, (Container.bound_eq_ok success).2, known new⟩

end

section

def ReplacesAccepted : Admission Hash :=
  AcceptsOver fun replaced _ => replaced.state = .accepted

structure StatusInvariant (store : Objects Hash) : Prop where
  history : HistoryInvariant store
  states : ∀ sessionId, ∀ version ∈ store.versions (.head sessionId),
    version.blob.record.state = .accepted ∨ version.blob.record.state = .publishing ∨
      version.blob.record.state = .committed
  since : ∀ sessionId, ∀ current ∈ store.current (.head sessionId),
    current.blob.record.state = .accepted →
      ∀ version ∈ store.versions (.head sessionId), version.blob.record.state = .accepted

variable {store after : Objects Hash} {sessionId : SessionId} {log : OpLog Hash}
variable {admits : Admission Hash}

theorem HeadWrite.states {head : Head Hash} {condition : Condition ETag}
    (write : HeadWrite log sessionId head condition) :
    head.state = .accepted ∨ head.state = .publishing ∨ head.state = .committed := by
  cases write with
  | claim state _ _ _ _ _ _ => exact .inr (.inl state)
  | accept state _ _ _ _ _ _ => exact .inl state
  | promote state _ _ _ _ _ _ _ _ _ => exact .inr (.inl state)
  | commit state _ _ _ _ _ _ _ _ _ => exact .inr (.inr state)

theorem StatusInvariant.step {call : Call Hash} {start : Container Hash} {request : Req Hash}
    {answer : Ans Hash request} (inv : StatusInvariant store)
    (admitted : ∀ store event, admits store event → ReplacesAccepted store event)
    (traced : Traced admits store log) (permit : Permit call start log request)
    (served : Serves store request answer after) (own : admits store ⟨request, answer⟩) :
    StatusInvariant after := by
  refine ⟨inv.history.step traced permit served, fun sessionId => ?_, fun sessionId => ?_⟩ <;>
  rcases served.inversion with rfl | ⟨key, condition, version, rfl, writes⟩
  · exact inv.states sessionId
  · by_cases same : Key.head sessionId = key
    · subst same
      rw [writes.2.2, Store.write_versions_same]
      exact List.forall_mem_cons.mpr ⟨permit.1.states, inv.states sessionId⟩
    · rw [writes.versions_other same]
      exact inv.states sessionId
  · exact inv.since sessionId
  · by_cases same : Key.head sessionId = key
    · subst same
      have replaces := admitted _ _ own
      obtain ⟨fenced, _, rfl⟩ := writes
      rw [Store.write_versions_same]
      intro current now state
      rw [Store.write_current_same, Option.mem_some_iff] at now
      subst now
      refine List.forall_mem_cons.mpr ⟨state, ?_⟩
      cases shape : store.versions (.head sessionId) with
      | nil => simp
      | cons previous rest =>
        have before : previous ∈ store.current (.head sessionId) := by simp [Store.current, shape]
        rw [← shape]
        exact inv.since sessionId previous before (replaces state fenced previous before)
    · have before := writes.versions_other same
      rw [Store.current, before]
      exact inv.since sessionId

theorem StatusInvariant.fresh (fresh : store.fresh) : StatusInvariant store := by
  have empty (sessionId) : store.versions (.head sessionId) = [] := fresh _ (by simp)
  refine ⟨.fresh fresh, fun sessionId => ?_, fun sessionId current now => ?_⟩
  · simp [empty]
  · rw [Store.current, empty] at now
    cases now

def statusCertificate [ManifestCodec] (starts : Container Hash → Call Hash → Prop) :
    Certificate (clients starts ReplacesAccepted) where
  inv := StatusInvariant
  rule := Permit
  post := Established
  body_obeys _ := api_obeys _ _
  step_inv inv traced permit served own := inv.step (fun _ _ => id) traced permit served own

end

section
variable {store : Objects Hash}
variable {sessionId : SessionId} {operationId : Hash}

theorem Chain.inSegments {scopeHash root : Hash} {segments : List (List Hash)}
    (chain : Chain store sessionId scopeHash root segments)
    (member : operationId ∈ segments.flatten) : InSegments store sessionId operationId root := by
  induction chain with
  | nil => cases member
  | segment present stored _ _ ih =>
    rcases List.mem_append.mp member with here | deeper
    · exact .here stored present here
    · exact .deeper stored present (ih deeper)

/-- A head that is accepted follows accepted heads only, and those are all recorded in its
history. -/
theorem StatusInvariant.unused {current : StoredHead Hash} (inv : StatusInvariant store)
    (now : store.current (.head sessionId) = some current)
    (committed : current.blob.record.state ≠ .committed)
    (publishing : current.blob.record.state ≠ .publishing)
    (absent : operationId ∉ current.blob.record.body.historyOperations)
    (missing : ¬InSegments store sessionId operationId current.blob.record.body.historyHeadHash) :
    ∀ version ∈ store.versions (.head sessionId), headOperation version ≠ operationId := by
  have state : current.blob.record.state = .accepted := by
    have held := Store.mem_of_current now
    rcases inv.states sessionId current held with accepted | impossible | impossible
    · exact accepted
    · exact absurd impossible publishing
    · exact absurd impossible committed
  obtain ⟨segments, chain, members⟩ := inv.history.remembers sessionId current now
  intro version held same
  have accepted : version.blob.record.state = .accepted :=
    inv.since sessionId current now state version held
  rcases (members operationId).mpr ⟨version, held, accepted, same⟩ with inTail | inSegments
  · exact absent inTail
  · exact missing (chain.inSegments inSegments)

/-- In every run that meets the condition, an operation is reported as new only if, at the
moment the head was read, no head version of the session had ever carried it. -/
theorem operationStatus_new_unused [ManifestCodec] {names : Nat → String} {pool last : Pool Hash}
    {container : Container Hash} {context : Context Hash} {log : OpLog Hash} (fresh : store.fresh)
    (run : Run (clients (fun _ _ => True) ReplacesAccepted) (Pool.initial store names) pool)
    (bound : container.context = some context)
    (watches : Watches (clients (fun _ _ => True) ReplacesAccepted)
      (sessionOperationStatus sessionId container) [] pool (.ok .new) log last) :
    ∃ seen, Run (clients (fun _ _ => True) ReplacesAccepted) pool seen ∧
      Run (clients (fun _ _ => True) ReplacesAccepted) seen last ∧
      ∀ version ∈ seen.store.versions (.head sessionId),
        headOperation version ≠ context.operationId := by
  have start : (statusCertificate fun _ _ => True).Holds (Pool.initial store names) :=
    ⟨.fresh fresh, fun _ => trivial⟩
  have contract : Obeys ReadsOnly (fun status later => status = .new →
      ∃ context, container.context = some context ∧
        FoundNew later sessionId context.operationId)
      (sessionOperationStatus sessionId container) [] := sessionOperationStatus_obeys
  obtain ⟨other, sameBound, current, read, found⟩ := watches.obeys contract rfl rfl
  obtain rfl : other = context := Option.some.inj (sameBound.symm.trans bound)
  rcases watches.moment read with impossible | ⟨seen, toSeen, toLast, served⟩
  · cases impossible
  refine ⟨seen, toSeen, toLast, ?_⟩
  have holds := start.run (run.trans toSeen)
  have now : seen.store.current (.head sessionId) = current := served.1.symm
  cases current with
  | none =>
    have empty : seen.store.versions (.head sessionId) = [] := List.head?_eq_none_iff.mp now
    simp [empty]
  | some stored =>
    obtain ⟨_, committed, publishing, absent, unrecorded⟩ := found stored rfl
    apply holds.inv.unused now committed publishing absent
    intro inside
    have later := (holds.run toLast).inv.history.stored
    exact unrecorded.not_inSegments watches.traced later (inside.grow toLast.grows)

end

section reported

def reportsNew (pid : Nat) (operationId : Tree) (pool : Pool Tree) (_ : List (Key Tree)) : Bool :=
  match pool.clients pid with
  | .idle container =>
    container.context.any (fun context => context.operationId = operationId) &&
      stillService.evaluate (fun _ => false) (sessionOperationStatus oneSession container)
        pool.store = some .new
  | _ => false

theorem reportsNew_sound {pid : Nat} {operationId : Tree} {pool : Pool Tree}
    {written : List (Key Tree)} (found : reportsNew pid operationId pool written = true)
    (system : System Tree) :
    ∃ container context log, pool.clients pid = .idle container ∧
      container.context = some context ∧ context.operationId = operationId ∧
      Watches system (sessionOperationStatus oneSession container) [] pool (.ok .new) log pool := by
  unfold reportsNew at found
  split at found
  · rename_i container idle
    simp only [Bool.and_eq_true, decide_eq_true_eq] at found
    obtain ⟨context, bound, operation⟩ := (Option.any_eq_true _ _).mp found.1
    obtain ⟨log, watches⟩ := stillService.evaluate_watches found.2 []
    exact ⟨container, context, log, idle, bound, of_decide_eq_true operation, watches⟩
  · cases found

/-- Operation 10 is finalized without a change of the database. A client claims the head
for operation 11 and stops; another retries operation 11 and has it accepted. The head is
accepted again, and its history knows nothing of operation 10. -/
def forgotten : List (Action (Call Tree)) :=
  invocation 1 oneBinding (.leaf 10) 1 (.finalize oneSession) 100 ++
    invocation 2 oneBinding (.leaf 11) 3 (.finalize oneSession) 9 ++ acceptance 3 (.leaf 11) 4 ++
    [.start 4 (.attachScoped oneBinding (.leaf 10)), .serve 4 100, .finish 4]

def forgottenNew (pool : Pool Tree) (written : List (Key Tree)) : Bool :=
  reportsNew 4 (.leaf 10) pool written &&
    (pool.store.versions (.head oneSession)).any fun version =>
      version.blob.record.state = .committed && headOperation version = .leaf 10

theorem forgotten_reports :
    (schedule (clients (fun _ _ => True) (fun _ _ => True)) stillService forgotten
      (Pool.initial oneBlock fun _ => "main", [])).any
        (fun last => forgottenNew last.1 last.2) = true := by
  decide +kernel

/-- Without the condition, an operation that has been committed is reported as new. -/
theorem operationStatus_new_committed :
    CollisionFree Tree ∧ ∃ (pool : Pool Tree) (container : Container Tree) (context : Context Tree)
        (log : OpLog Tree) (version : StoredHead Tree),
      Run (clients (fun _ _ => True) (fun _ _ => True)) (Pool.initial oneBlock fun _ => "main") pool ∧
      pool.clients 4 = .idle container ∧ container.context = some context ∧
      Watches (clients (fun _ _ => True) (fun _ _ => True))
        (sessionOperationStatus oneSession container) [] pool (.ok .new) log pool ∧
      version ∈ pool.store.versions (.head oneSession) ∧
      version.blob.record.state = .committed ∧ headOperation version = context.operationId := by
  refine ⟨Tree.collisionFree, ?_⟩
  obtain ⟨pool, written, run, _, found⟩ := schedule_reaches forgottenNew forgotten_reports
  rw [forgottenNew, Bool.and_eq_true] at found
  obtain ⟨container, context, log, idle, bound, operation, watches⟩ := reportsNew_sound found.1 _
  obtain ⟨version, held, known⟩ := List.any_eq_true.mp found.2
  simp only [Bool.and_eq_true, decide_eq_true_eq] at known
  exact ⟨pool, container, context, log, version, run, idle, bound, watches, held, known.1,
    known.2.trans operation.symm⟩

instance (store : Objects Tree) (event : Event (Req Tree) (Ans Tree)) :
    Decidable (ReplacesAccepted store event) :=
  inferInstanceAs (Decidable (AcceptsOver _ store event))

theorem accepted_reports :
    (schedule (clients (fun _ _ => True) ReplacesAccepted) stillService
      (acceptance 1 (.leaf 10) 2 ++
        [.start 2 (.attachScoped oneBinding (.leaf 11)), .serve 2 100, .finish 2])
      (Pool.initial oneBlock fun _ => "main", [])).any
        (fun last => reportsNew 2 (.leaf 11) last.1 last.2) = true := by
  decide +kernel

theorem operationStatus_new_unused_accepted :
    ∃ (pool seen : Pool Tree) (container : Container Tree) (context : Context Tree)
        (log : OpLog Tree),
      Run (clients (fun _ _ => True) ReplacesAccepted) (Pool.initial oneBlock fun _ => "main") pool ∧
      container.context = some context ∧
      Watches (clients (fun _ _ => True) ReplacesAccepted)
        (sessionOperationStatus oneSession container) [] pool (.ok .new) log pool ∧
      Run (clients (fun _ _ => True) ReplacesAccepted) pool seen ∧
      ∀ version ∈ seen.store.versions (.head oneSession),
        headOperation version ≠ context.operationId := by
  obtain ⟨pool, written, run, _, found⟩ := schedule_reaches _ accepted_reports
  obtain ⟨container, context, log, _, bound, _, watches⟩ := reportsNew_sound found _
  obtain ⟨seen, toSeen, _, unused⟩ := operationStatus_new_unused oneBlock_fresh run bound watches
  exact ⟨pool, seen, container, context, log, run, bound, watches, toSeen, unused⟩

end reported

end RusqDoltlite.Session

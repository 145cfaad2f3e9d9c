import RusqDoltlite.Session.Replay
import RusqDoltlite.Session.Solo

/-! The operation history of a session. The head carries a bounded tail and the root of a
chain of immutable segments; together they hold the operations that were accepted, no
more and no fewer, whatever the interleaving. -/

namespace RusqDoltlite.Session

open Effects

variable {Hash : Type} [DecidableEq Hash] [Digest Hash]

section

inductive Chain (store : Objects Hash) (sessionId : SessionId) (scopeHash : Hash) :
    Hash → List (List Hash) → Prop
  | nil : Chain store sessionId scopeHash Digest.zero []
  | segment {root : Hash} {version : Version ETag (Encoded Hash (HistoryBody Hash))}
      {rest : List (List Hash)} (present : root ≠ Digest.zero)
      (stored : version ∈ store.versions (.history sessionId root))
      (scope : version.blob.record.scopeHash = scopeHash)
      (deeper : Chain store sessionId scopeHash version.blob.record.body.historyHeadHash rest) :
      Chain store sessionId scopeHash root (version.blob.record.body.historyOperations :: rest)

variable {store after : Objects Hash} {sessionId : SessionId} {scopeHash root : Hash}
variable {segments : List (List Hash)}

theorem Chain.grow (chain : Chain store sessionId scopeHash root segments)
    (grows : store.Grows after) : Chain after sessionId scopeHash root segments := by
  induction chain with
  | nil => exact .nil
  | segment present stored scope _ ih => exact .segment present (grows.mem stored) scope ih

/-- A segment has only one version, so the chain of a root is determined. -/
theorem Chain.unique {others : List (List Hash)} (inv : StoredInvariant store)
    (chain : Chain store sessionId scopeHash root segments)
    (other : Chain store sessionId scopeHash root others) : segments = others := by
  induction chain generalizing others with
  | nil =>
    cases other with
    | nil => rfl
    | segment present => exact absurd rfl present
  | @segment root version rest present stored scope deeper ih =>
    cases other with
    | nil => exact absurd rfl present
    | segment _ again _ below =>
      obtain rfl := inv.unique (.history sessionId root) rfl _ stored _ again
      rw [ih below]

theorem history_checked (encoded : Encoded Hash (HistoryBody Hash)) :
    (encoded.record.state = .accepted ∧ encoded.record.outcome = .success) ∧
      encoded.record.body.historyOperations ≠ [] := by
  have checked := encoded.checked
  simp only [recordCheck, check_bind_eq_ok] at checked
  obtain ⟨typed, _, _, _, _, decoded⟩ := checked
  have shape : encoded.record.state = .accepted ∧ encoded.record.outcome = .success := by
    simpa [SessionBody.type, validTypeState] using typed
  refine ⟨shape, fun empty => ?_⟩
  simp [SessionBody.decode, check, empty, bind, Except.bind] at decoded

variable {machine : Machine}

theorem sessionFetchHistory_reads {version : Version ETag (Encoded Hash (HistoryBody Hash))}
    (inv : StoredInvariant store) (present : root ≠ Digest.zero)
    (stored : version ∈ store.versions (.history sessionId root))
    (scope : version.blob.record.scopeHash = scopeHash) :
    Reads (Working machine) (some version) (sessionFetchHistory sessionId scopeHash root) store := by
  have here : store.current (.history sessionId root) = some version :=
    (inv.unique (.history sessionId root) rfl).current stored
  obtain ⟨named, owner⟩ := inv.filed (.history sessionId root) version stored
  apply Yields.require_bind present
  apply (getObject_reads _ .other).bind
  rw [here]
  apply sessionFetched_reads scope
  · simpa using owner
  · simp
  · simpa using named

@[simp] theorem historyContainsDirect_zero (binding : Binding)
    (operationId : Hash) (remaining : Nat) (seen : List Hash) (present : Bool) :
    historyContainsDirect binding operationId remaining seen Digest.zero present = .done present := by
  unfold historyContainsDirect
  exact if_pos rfl

/-- The walk over the segments. A root that has been passed starts a longer chain than
the one still ahead, so the walk meets no cycle. -/
theorem historyContainsDirect_reads {binding : Binding} {operationId : Hash} {remaining : Nat}
    {seen : List Hash} {present : Bool} (inv : StoredInvariant store)
    (chain : Chain store binding.sessionId binding.scopeHash root segments)
    (short : segments.length ≤ remaining)
    (passed : ∀ hash ∈ seen, ∃ longer, Chain store binding.sessionId binding.scopeHash hash longer ∧
      segments.length < longer.length) :
    Reads (Working machine) (present || decide (operationId ∈ segments.flatten))
      (historyContainsDirect binding operationId remaining seen root present) store := by
  induction chain generalizing remaining seen present with
  | nil =>
    simp only [historyContainsDirect_zero, List.flatten_nil, List.not_mem_nil, decide_false,
      Bool.or_false]
    exact Reads.done
  | @segment root version rest nonzero stored scope deeper ih =>
    have chain := Chain.segment nonzero stored scope deeper
    obtain _ | remaining := remaining
    · simp at short
    have value : (present || decide (operationId ∈
          (version.blob.record.body.historyOperations :: rest).flatten)) =
        ((present || decide (operationId ∈ version.blob.record.body.historyOperations)) ||
          decide (operationId ∈ rest.flatten)) := by
      simp only [List.flatten_cons, List.mem_append, Bool.decide_or, Bool.or_assoc]
    rw [value]
    unfold historyContainsDirect
    rw [if_neg nonzero]
    have unseen : root ∉ seen := by
      intro member
      obtain ⟨longer, again, shorter⟩ := passed root member
      rw [chain.unique inv again] at shorter
      exact Nat.lt_irrefl _ shorter
    apply Yields.require_bind unseen
    apply (sessionFetchHistory_reads inv nonzero stored scope).bind
    obtain ⟨shape, operations⟩ := history_checked version.blob
    apply Yields.require_bind shape
    apply Yields.require_bind operations
    apply ih
    · simpa using short
    · intro hash member
      rcases List.mem_cons.mp member with rfl | member
      · exact ⟨_, chain, Nat.lt_succ_self _⟩
      · obtain ⟨longer, again, shorter⟩ := passed hash member
        exact ⟨longer, again, Nat.lt_of_succ_lt shorter⟩

theorem historyContainsOperation_reads {binding : Binding} {body : HeadBody Hash}
    {operationId : Hash} (inv : StoredInvariant store)
    (chain : Chain store binding.sessionId binding.scopeHash body.historyHeadHash segments)
    (short : segments.length ≤ rehydrateMaxChain) :
    Reads (Working machine)
      (decide (operationId ∈ body.historyOperations ∨ operationId ∈ segments.flatten))
      (historyContainsOperation binding body operationId) store := by
  unfold historyContainsOperation
  split
  · rename_i member
    simp only [member, true_or, decide_true]
    exact Reads.done
  · rename_i absent
    have walk := @historyContainsDirect_reads _ _ _ _ _ _ machine binding operationId
      rehydrateMaxChain [] false inv chain short (by simp)
    simpa [absent] using walk

end

section

def AcceptedIn (versions : List (StoredHead Hash)) (operationId : Hash) : Prop :=
  ∃ version ∈ versions, version.blob.record.state = .accepted ∧ headOperation version = operationId

/-- The history, tail and segments, holds the accepted operations of the head versions. -/
def Remembers (store : Objects Hash) (sessionId : SessionId) (scopeHash : Hash)
    (history : Hash × List Hash) (versions : List (StoredHead Hash)) : Prop :=
  ∃ segments, Chain store sessionId scopeHash history.1 segments ∧
    ∀ operationId, operationId ∈ history.2 ∨ operationId ∈ segments.flatten ↔
      AcceptedIn versions operationId

structure HistoryInvariant (store : Objects Hash) : Prop where
  stored : StoredInvariant store
  faithful : ∀ sessionId, store.Faithful (.head sessionId)
  remembers : ∀ sessionId, ∀ current ∈ store.current (.head sessionId),
    Remembers store sessionId current.blob.record.scopeHash current.blob.record.body.history
      (store.versions (.head sessionId))

variable {store after : Objects Hash} {sessionId : SessionId} {scopeHash operationId : Hash}
variable {history : Hash × List Hash} {version : StoredHead Hash} {versions : List (StoredHead Hash)}
variable {admits : Admission Hash} {log : OpLog Hash}

theorem acceptedIn_cons : AcceptedIn (version :: versions) operationId ↔
    version.blob.record.state = .accepted ∧ headOperation version = operationId ∨
      AcceptedIn versions operationId := by
  simp [AcceptedIn]

theorem Remembers.nil : Remembers store sessionId scopeHash (Digest.zero, []) [] :=
  ⟨[], .nil, by simp [AcceptedIn]⟩

theorem Remembers.grow (remembers : Remembers store sessionId scopeHash history versions)
    (grows : store.Grows after) : Remembers after sessionId scopeHash history versions := by
  obtain ⟨segments, chain, members⟩ := remembers
  exact ⟨segments, chain.grow grows, members⟩

theorem Remembers.carried (remembers : Remembers store sessionId scopeHash history versions)
    (other : version.blob.record.state ≠ .accepted) :
    Remembers store sessionId scopeHash history (version :: versions) := by
  obtain ⟨segments, chain, members⟩ := remembers
  refine ⟨segments, chain, fun operationId => ?_⟩
  rw [members, acceptedIn_cons]
  simp [other]

theorem Remembers.appended {new : Hash × List Hash}
    (remembers : Remembers store sessionId scopeHash history versions)
    (appends : Appends log sessionId scopeHash (headOperation version) history new)
    (traced : Traced admits store log) (state : version.blob.record.state = .accepted) :
    Remembers store sessionId scopeHash new (version :: versions) := by
  obtain ⟨segments, chain, members⟩ := remembers
  have accepted (operationId : Hash) : AcceptedIn (version :: versions) operationId ↔
      (operationId ∈ history.2 ++ [headOperation version] ∨ operationId ∈ segments.flatten) := by
    rw [acceptedIn_cons, ← members]
    simp only [state, true_and, List.mem_append, List.mem_singleton]
    tauto
  rcases appends with rfl | ⟨⟨present, empty⟩, segment, saw, scope, body⟩
  · exact ⟨segments, chain, fun operationId => (accepted operationId).symm⟩
  · have deeper : Chain store sessionId scopeHash segment.blob.record.body.historyHeadHash
        segments := by
      rw [body]
      exact chain
    refine ⟨_, .segment present (traced.held saw) scope deeper, fun operationId => ?_⟩
    rw [accepted, empty, body, List.flatten_cons, List.mem_append]
    simp only [List.not_mem_nil, false_or]

theorem HeadWrite.remembers {condition : Condition ETag} (inv : HistoryInvariant store)
    (traced : Traced admits store log)
    (write : HeadWrite log sessionId version.blob.record condition)
    (admitted : store.Admits (.head sessionId) condition) :
    Remembers store sessionId version.blob.record.scopeHash version.blob.record.body.history
      (version :: store.versions (.head sessionId)) := by
  have vacant : store.Admits (.head sessionId) .absent → store.versions (.head sessionId) = [] :=
    fun absent => List.head?_eq_none_iff.mp absent
  have replaced (stored : StoredHead Hash) (saw : Saw log (.head sessionId) stored)
      (tagged : store.Admits (.head sessionId) (.tagged stored.etag)) :
      Remembers store sessionId stored.blob.record.scopeHash stored.blob.record.body.history
        (store.versions (.head sessionId)) := by
    obtain ⟨current, now, same⟩ := (inv.faithful sessionId).current (traced.held saw) tagged
    rw [← same]
    exact inv.remembers sessionId current now
  cases write with
  | claim state _ _ _ _ _ succeeds =>
    cases succeeds with
    | first empty =>
      rw [vacant admitted, empty]
      exact Remembers.nil.carried (by simp [state])
    | @after stored saw scope _ carried =>
      rw [← scope, carried]
      exact (replaced stored saw admitted).carried (by simp [state])
  | accept state _ _ _ _ _ accepts =>
    cases accepts with
    | first appends =>
      rw [vacant admitted]
      exact Remembers.nil.appended appends traced state
    | @after stored saw scope _ _ appends =>
      have before := replaced stored saw admitted
      rw [scope] at before
      exact before.appended appends traced state
  | @promote stored _ _ state saw _ _ _ _ _ _ scope carried =>
    rw [scope, carried]
    exact (replaced stored saw admitted).carried (by simp [state])
  | @commit stored _ _ state read _ _ _ _ _ _ scope carried =>
    rw [scope, carried]
    exact (replaced stored (.inl ⟨_, read⟩) admitted).carried (by simp [state])

theorem HistoryInvariant.step {call : Call Hash} {start : Container Hash} {request : Req Hash}
    {answer : Ans Hash request} (inv : HistoryInvariant store) (traced : Traced admits store log)
    (permit : Permit call start log request) (served : Serves store request answer after) :
    HistoryInvariant after := by
  have grows := served.grows
  refine ⟨inv.stored.step traced permit served, ?_, ?_⟩ <;>
  rcases served.inversion with rfl | ⟨key, condition, version, rfl, writes⟩
  · exact inv.faithful
  · exact fun sessionId => (inv.faithful sessionId).write writes
  · exact inv.remembers
  · intro sessionId current now
    by_cases same : Key.head sessionId = key
    · subst same
      have remembers := permit.1.remembers inv traced writes.1
      obtain ⟨_, _, rfl⟩ := writes
      rw [Store.write_current_same, Option.mem_some_iff] at now
      subst now
      rw [Store.write_versions_same]
      exact remembers.grow grows
    · have before := writes.versions_other same
      rw [Store.current, before] at now
      rw [before]
      exact (inv.remembers sessionId current now).grow grows

theorem HistoryInvariant.fresh (fresh : store.fresh) : HistoryInvariant store := by
  have empty (sessionId) : store.versions (.head sessionId) = [] := fresh _ (by simp)
  refine ⟨.fresh fresh, fun sessionId one here => ?_, fun sessionId current now => ?_⟩
  · rw [empty] at here
    cases here
  · rw [Store.current, empty] at now
    cases now

def historyCertificate [ManifestCodec] (starts : Container Hash → Call Hash → Prop)
    (admits : Admission Hash) : Certificate (clients starts admits) where
  inv := HistoryInvariant
  rule := Permit
  post := Established
  body_obeys _ := api_obeys _ _
  step_inv inv traced permit served _ := inv.step traced permit served

theorem historyCertificate_initial [ManifestCodec] {starts : Container Hash → Call Hash → Prop}
    (fresh : store.fresh) (names : Nat → String) :
    (historyCertificate starts admits).Holds (Pool.initial store names) :=
  ⟨.fresh fresh, fun _ => trivial⟩

end

section
variable [ManifestCodec]

/-- Between the two pools, a client in an accept call bound to the operation put a head
of the session in place. -/
def AcceptedDuring (system : System Hash) (first last : Pool Hash) (sessionId : SessionId)
    (operationId : Hash) : Prop :=
  ∃ before next pid start program log context version,
    Run system first before ∧ Step system before next ∧ Run system next last ∧
    before.clients pid = .busy (.accept sessionId) start program log ∧
    next.clients pid ≠ before.clients pid ∧
    start.context = some context ∧ context.operationId = operationId ∧
    next.store.versions (.head sessionId) = version :: before.store.versions (.head sessionId)

variable {starts : Container Hash → Call Hash → Prop} {admits : Admission Hash}
variable {first pool next : Pool Hash} {sessionId : SessionId} {operationId : Hash}

theorem step_heads (holds : (historyCertificate starts admits).Holds pool)
    (step : Step (clients starts admits) pool next) :
    next.store.versions (.head sessionId) = pool.store.versions (.head sessionId) ∨
      ∃ pid call start program log, ∃ version : StoredHead Hash,
        pool.clients pid = .busy call start program log ∧
        (∀ other, next.clients other ≠ pool.clients other ↔ other = pid) ∧
        call.Heads start sessionId version.blob.record ∧
        next.store.versions (.head sessionId) = version :: pool.store.versions (.head sessionId) := by
  rcases holds.writes step with
    same | ⟨pid, call, start, program, log, key, condition, version, busy, moves, permit, writes⟩
  · exact .inl (by rw [same])
  · by_cases same : Key.head sessionId = key
    · subst same
      refine .inr ⟨pid, call, start, program, log, version, busy, moves, permit.2.2, ?_⟩
      rw [writes.2.2, Store.write_versions_same]
    · exact .inl (writes.versions_other same)

theorem acceptedIn_iff_acceptedDuring (start : (historyCertificate starts admits).Holds first)
    (unwritten : first.store.versions (.head sessionId) = [])
    (run : Run (clients starts admits) first pool) :
    AcceptedIn (pool.store.versions (.head sessionId)) operationId ↔
      AcceptedDuring (clients starts admits) first pool sessionId operationId := by
  constructor
  · intro accepted
    induction run with
    | refl =>
      obtain ⟨version, member, _⟩ := accepted
      rw [unwritten] at member
      cases member
    | @tail before next run step ih =>
      have earlier : AcceptedIn (before.store.versions (.head sessionId)) operationId →
          AcceptedDuring (clients starts admits) first next sessionId operationId := by
        intro older
        obtain ⟨one, two, pid, state, program, log, context, version, toOne, between, toLast,
          rest⟩ := ih older
        exact ⟨one, two, pid, state, program, log, context, version, toOne, between,
          toLast.tail step, rest⟩
      rcases step_heads (start.run run) step with
        same | ⟨pid, call, state, program, log, version, busy, moves, heads, written⟩
      · exact earlier (same ▸ accepted)
      · rw [written, acceptedIn_cons] at accepted
        rcases accepted with ⟨stateAccepted, operation⟩ | older
        · cases call with
          | accept own =>
            obtain ⟨rfl, _, context, bound, same⟩ := heads
            exact ⟨before, next, pid, state, program, log, context, version, run, step, .refl,
              busy, (moves pid).mpr rfl, bound, same.symm.trans operation, written⟩
          | _ => exact absurd stateAccepted heads
        · exact earlier older
  · rintro ⟨before, next, pid, state, program, log, context, version, run, step, toLast, busy, moved,
      bound, operation, written⟩
    rcases step_heads (start.run run) step with
      same | ⟨mover, call, began, rest, known, head, active, moves, heads, again⟩
    · rw [same] at written
      simp at written
    · obtain rfl := (moves pid).mp moved
      obtain ⟨rfl, rfl, _, _⟩ : call = .accept sessionId ∧ began = state ∧ rest = program ∧
          known = log := by
        simpa using active.symm.trans busy
      obtain ⟨_, accepted, other, sameBound, same⟩ := heads
      obtain rfl : other = context := Option.some.inj (sameBound.symm.trans bound)
      refine ⟨head, toLast.grows.mem ?_, accepted, same.trans operation⟩
      rw [again]
      exact List.mem_cons_self

end

section
variable [ManifestCodec]
variable {machine : Machine} {store : Objects Hash} {pool : Pool Hash} {names : Nat → String}
variable {binding : Binding} {current : StoredHead Hash}

/-- In every run, the lookup on the current head finds an operation if and only if an
accept of it has put a head of the session in place. -/
theorem historyContainsOperation_iff_accepted (fresh : store.fresh)
    (run : Run (clients (fun _ _ => True) fun _ _ => True) (Pool.initial store names) pool)
    (now : pool.store.current (.head binding.sessionId) = some current)
    (scope : current.blob.record.scopeHash = binding.scopeHash)
    (short : ∀ segments, Chain pool.store binding.sessionId binding.scopeHash
      current.blob.record.body.historyHeadHash segments → segments.length < rehydrateMaxChain)
    (operationId : Hash) :
    ∃ found, Reads (Working machine) found
        (historyContainsOperation binding current.blob.record.body operationId) pool.store ∧
      (found = true ↔ AcceptedDuring (clients (fun _ _ => True) fun _ _ => True)
        (Pool.initial store names) pool binding.sessionId operationId) := by
  have start : (historyCertificate (fun _ _ => True) fun _ _ => True).Holds
      (Pool.initial store names) := historyCertificate_initial fresh names
  have inv : HistoryInvariant pool.store := (start.run run).inv
  obtain ⟨segments, chain, members⟩ := inv.remembers binding.sessionId current now
  rw [scope] at chain
  refine ⟨_, historyContainsOperation_reads inv.stored chain (Nat.le_of_lt (short segments chain)), ?_⟩
  rw [decide_eq_true_iff,
    ← acceptedIn_iff_acceptedDuring start (fresh (.head binding.sessionId) (by simp)) run]
  exact members operationId

end

section

def unsegmented (operations : List Tree) (pool : Pool Tree) (_ : List (Key Tree)) : Bool :=
  (pool.store.current (.head oneSession)).any fun head =>
    head.blob.record.scopeHash = oneBinding.scopeHash &&
      head.blob.record.body.historyHeadHash = Digest.zero &&
      head.blob.record.body.historyOperations = operations

theorem accept_then_finalize :
    (schedule (clients (fun _ _ => True) (fun _ _ => True)) stillService
      (acceptance 1 (.leaf 10) 2 ++ invocation 2 oneBinding (.leaf 11) 3 (.finalize oneSession) 100)
      (Pool.initial oneBlock fun _ => "main", [])).any
        (fun last => unsegmented [.leaf 10] last.1 last.2) = true := by
  decide +kernel

theorem historyContainsOperation_accept_then_finalize :
    ∃ (pool : Pool Tree) (current : StoredHead Tree),
      Run (clients (fun _ _ => True) fun _ _ => True) (Pool.initial oneBlock fun _ => "main") pool ∧
      pool.store.current (.head oneSession) = some current ∧
      AcceptedDuring (clients (fun _ _ => True) fun _ _ => True)
        (Pool.initial oneBlock fun _ => "main") pool oneSession (.leaf 10) ∧
      ¬AcceptedDuring (clients (fun _ _ => True) fun _ _ => True)
        (Pool.initial oneBlock fun _ => "main") pool oneSession (.leaf 11) := by
  obtain ⟨pool, _, run, _, check⟩ := schedule_reaches _ accept_then_finalize
  obtain ⟨current, now, known⟩ := (Option.any_eq_true _ _).mp check
  simp only [Bool.and_eq_true, decide_eq_true_eq] at known
  obtain ⟨⟨scope, root⟩, operations⟩ := known
  have short : ∀ segments, Chain pool.store oneSession oneBinding.scopeHash
      current.blob.record.body.historyHeadHash segments → segments.length < rehydrateMaxChain := by
    intro segments chain
    rw [root] at chain
    cases chain with
    | nil => decide
    | segment present => exact absurd rfl present
  have answer (operationId : Tree) (found : Bool)
      (reads : Reads (Working stillMachine) found
        (historyContainsOperation oneBinding current.blob.record.body operationId) pool.store) :
      found = decide (operationId = .leaf 10) := by
    by_cases same : operationId = .leaf 10 <;>
    simpa [Reads, Yields, historyContainsOperation, operations, same, root,
      eq_comm] using reads
  refine ⟨pool, current, run, now, ?_, ?_⟩
  · obtain ⟨found, reads, same⟩ := historyContainsOperation_iff_accepted oneBlock_fresh run now scope
      short (.leaf 10)
    exact same.mp (answer _ found reads)
  · obtain ⟨found, reads, same⟩ := historyContainsOperation_iff_accepted oneBlock_fresh run now scope
      short (.leaf 11)
    intro accepted
    have impossible := (answer _ found reads).symm.trans (same.mpr accepted)
    exact absurd impossible (by decide)

end

end RusqDoltlite.Session

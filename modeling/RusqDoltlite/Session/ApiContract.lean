import RusqDoltlite.Session.PublishContract

/-! The walk through the other public operations, and with it the contract of every call:
each request it makes is permitted, and what it returns is established. -/

namespace RusqDoltlite.Session

open Effects

variable {Hash : Type} [DecidableEq Hash] [Digest Hash]
variable {call : Call Hash} {start : Container Hash} {log : OpLog Hash}

variable {sessionId : SessionId} {context : Context Hash} {container : Container Hash}
  {current : Option (StoredHead Hash)} {history : Hash × List Hash} {binding : Binding} {operationId : Hash}

theorem sessionPutCheckpoint_obeys {scopeHash : Hash} {encoded : Encoded Hash (CheckpointBody Hash)} :
    Obeys (Permit call start) Anything (sessionPutCheckpoint sessionId scopeHash encoded) log := by
  refine Obeys.require_bind fun _ => Obeys.ofExcept_bind fun _ decoded => ?_
  obtain ⟨_, owner, _⟩ := recordDecode_eq_ok decoded
  refine Obeys.attempt (putObject_obeys ⟨rfl, rfl, owner sessionId rfl⟩) (fun _ _ _ _ => trivial)
    fun failure later _ => ?_
  refine (Quiet.sessionFetchCheckpoint _ _ _).attempt (fun existing => ?_) |>.obeys
  match existing with
  | .ok (some version) => exact .ite (.done _) (.fail _)
  | .ok none => exact .fail _
  | .error _ => exact .fail _

theorem sessionPutHistory_obeys {scopeHash : Hash} {encoded : Encoded Hash (HistoryBody Hash)} :
    Obeys (Permit call start)
      (fun _ later => encoded.recordHash ≠ Digest.zero ∧
        ∃ etag, Saw later (.history sessionId encoded.recordHash) ⟨etag, encoded⟩)
      (sessionPutHistory sessionId scopeHash encoded) log := by
  refine Obeys.require_bind fun named => Obeys.ofExcept_bind fun _ decoded => ?_
  obtain ⟨_, owner, _⟩ := recordDecode_eq_ok decoded
  refine Obeys.attempt (putObject_obeys ⟨rfl, rfl, owner sessionId rfl⟩) ?_ fun failure later _ => ?_
  · exact fun etag later _ saw => Obeys.done ⟨named, etag, saw⟩
  · refine Obeys.attempt (sessionFetchHistory_obeys _ _ _) ?_ fun _ _ _ => trivial
    intro existing last _ read
    cases existing with
    | none => trivial
    | some version =>
      unfold reconcileImmutable
      dsimp only
      split
      · rename_i same
        exact Obeys.done ⟨named, version.etag, same ▸ (read version rfl).1⟩
      · trivial

section checkpoint
variable [ManifestCodec]

omit [ManifestCodec] in
theorem checkpointSize_quiet (man : Manifest) (context : Context Hash) :
    Quiet (checkpointSize man context : Op Hash Nat) := by
  unfold checkpointSize
  split
  · exact .fail _
  · refine Quiet.bind ?_ fun _ => (Quiet.require _ _).bind fun _ => .done _
    refine Quiet.askExcept.attempt fun result => ?_
    match result with
    | .error _ => exact .fail _
    | .ok true => exact .fail _
    | .ok false =>
      exact (Quiet.require _ _).bind fun _ => (Quiet.require _ _).bind fun _ =>
        (Quiet.require _ _).bind fun _ => .done _

theorem sessionComposeBody_quiet (man : Manifest) (context : Context Hash) (fileSize : Nat) :
    Quiet (sessionComposeBody man context fileSize) := by
  refine (Quiet.require _ _).bind fun _ => Quiet.askExcept.bind fun _ => ?_
  dsimp only
  split
  · exact .fail _
  · exact (Quiet.require _ _).bind fun _ => .done _

theorem checkpointStore_obeys {man : Manifest} {fileSize : Nat} :
    Obeys (Permit call start) Anything (checkpointStore sessionId man context fileSize) log := by
  refine (sessionComposeBody_quiet man context fileSize).obeys.bind fun body _ _ _ => ?_
  refine Obeys.require_bind fun _ => timestamp_obeys.bind fun now _ _ _ => ?_
  refine Obeys.ofExcept_bind fun encoded _ => ?_
  exact sessionPutCheckpoint_obeys.bind fun _ _ _ _ => trivial

theorem sessionCheckpoint_obeys :
    Obeys (Permit call start) Anything (sessionCheckpoint sessionId container) log := by
  refine (Quiet.ofExcept _).obeys.orKeep (fun _ _ _ => trivial) fun bound _ _ _ => ?_
  refine (checkpointSize_quiet _ _).obeys.orKeep (fun _ _ _ => trivial) fun fileSize _ _ _ => ?_
  refine ask_obeys fun staged => ?_
  refine (Quiet.ofExcept _).obeys.orKeep (fun _ _ _ => trivial) fun _ _ _ _ => ?_
  exact checkpointStore_obeys.orKeep (fun _ _ _ => trivial) fun _ _ _ _ => trivial

end checkpoint

section finalize

theorem finalizeHead_succeed (success : finalizeHead context current = .ok (.succeed history)) :
    (context.predecessorETag = none ∧ history = (Digest.zero, [])) ∨
      ∃ stored, current = some stored ∧ context.predecessorETag = some stored.etag ∧
        stored.blob.record.operationId ≠ context.operationId ∧
        history = stored.blob.record.body.history := by
  cases current with
  | none =>
    simp only [finalizeHead, check_bind_eq_ok, Except.ok.injEq, FinalizePlan.succeed.injEq]
      at success
    exact .inl ⟨success.1, success.2.symm⟩
  | some stored =>
    simp only [finalizeHead, check_bind_eq_ok] at success
    obtain ⟨⟨etag, _⟩, success⟩ := success
    split at success
    · simp at success
    · rename_i other
      simp only [check_bind_eq_ok, Except.ok.injEq, FinalizePlan.succeed.injEq] at success
      exact .inr ⟨stored, rfl, etag, other, success.2.2.symm⟩

theorem finalizeCandidate_obeys {checkpointHash : Hash} : Obeys (Permit call start)
      (fun result later => result.2.Loaded later binding.sessionId result.1 ∧
        result.1.operationId = context.operationId ∧ result.1.scopeHash = binding.scopeHash)
      (finalizeCandidate binding context checkpointHash) log := by
  refine (sessionFetchCheckpoint_obeys _ _ _).bind fun fetched first _ read => ?_
  refine foundOr_obeys.bind fun stored second toSecond present => ?_
  refine Obeys.require_bind fun checked => Obeys.require_bind fun _ => Obeys.require_bind fun _ =>
    Obeys.done ⟨⟨⟨stored, ?_, rfl⟩, rfl, rfl, rfl⟩, checked.2.2.2, (read stored present).2.2.1⟩
  exact (read stored present).1.grow toSecond

theorem finalizeClaim_obeys {checkpointHash : Hash} (publishes : call.publishes = true)
    (succeeds : ∀ (later : OpLog Hash) (head : Head Hash), log <:+ later →
      head.operationId = context.operationId → head.scopeHash = binding.scopeHash →
      head.body.history = history → Succeeds later binding.sessionId head context.fence) :
    Obeys (Permit call start)
      (fun _ later => Published later binding.sessionId context.operationId)
      (finalizeClaim binding context history checkpointHash) log := by
  refine finalizeCandidate_obeys.bind fun result first toFirst known => ?_
  obtain ⟨checkpoint, candidate⟩ := result
  obtain ⟨loaded, operation, scope⟩ := known
  obtain ⟨_, _, named, _⟩ := id loaded
  refine (sessionCandidatePut_obeys named.symm).bind fun _ second toSecond _ => ?_
  refine Obeys.ofExcept_bind fun encoded success => ?_
  obtain ⟨state, sameOperation, sequence, sameScope, body⟩ :=
    sessionEncodeHeadStateEx_record success
  refine (headAdvance_obeys fun head same => ?_).bind fun _ _ _ _ => sessionPublish_obeys publishes
  cases same
  refine ⟨?_, Call.heads_of_publishes publishes (by rw [state]; decide)⟩
  refine .claim state (loaded.grow toSecond) ?_ ?_ sequence (sameScope.trans scope.symm) ?_
  · rw [body]
    exact ⟨rfl, rfl, rfl⟩
  · rw [sameOperation]
    exact operation.symm
  · exact succeeds second _ (toFirst.trans toSecond) sameOperation sameScope (by rw [body]; rfl)

variable [ManifestCodec]

theorem sessionFinalize_obeys (publishes : call.publishes = true) :
    Obeys (Permit call start)
      (fun result later => result.2 = .ok () → ∃ context, start.context = some context ∧
        Published later sessionId context.operationId)
      (sessionFinalize sessionId start) log := by
  refine (ofExcept_obeys _).orKeep (fun _ _ _ failed => by cases failed) fun bound first _ found => ?_
  obtain ⟨man, context⟩ := bound
  have sameContext := (Container.bound_eq_ok found).2
  have planned : Obeys (Permit call start)
      (fun plan later => ∀ history, plan = .succeed history →
        ∀ (last : OpLog Hash) (head : Head Hash), later <:+ last →
          head.operationId = context.operationId → head.scopeHash = Digest.scope context.scope →
            head.body.history = history → Succeeds last sessionId head context.fence)
      (sessionReadHead ⟨sessionId, context.scope⟩ .other >>= fun current =>
        (Prog.ofExcept (finalizeHead context current) : Op Hash (FinalizePlan Hash))) first := by
    refine (sessionReadHead_obeys _ _).bind fun current second _ read => ?_
    refine (ofExcept_obeys _).mono fun plan third toThird success history same last head toLast
      operation scope sameHistory => ?_
    subst same
    rcases finalizeHead_succeed success with ⟨unheld, empty⟩ | ⟨stored, here, etag, other, carried⟩
    · rw [Context.fence, unheld]
      exact .first (sameHistory.trans empty)
    · rw [Context.fence, etag]
      exact .after (.inl ⟨_, (toThird.trans toLast).subset (read stored here).1⟩)
        ((read stored here).2.2.1.trans scope.symm) (operation ▸ other) (sameHistory.trans carried)
  refine planned.orKeep (fun _ _ _ failed => by cases failed) fun plan second toSecond knows => ?_
  cases plan with
  | publish =>
    refine (sessionPublish_obeys publishes).orKeep (fun _ _ _ failed => by cases failed)
      fun _ later _ published => Obeys.done fun _ => ?_
    exact ⟨context, sameContext, published⟩
  | succeed history =>
    refine (Quiet.require _ _).obeys.orKeep (fun _ _ _ failed => by cases failed)
      fun _ third toThird _ => ?_
    refine sessionCheckpoint_obeys.bind fun result fourth toFourth _ => ?_
    refine (Quiet.ofExcept _).obeys.orKeep (fun _ _ _ failed => by cases failed)
      fun encoded fifth toFifth _ => ?_
    have claim : Obeys (Permit call start)
        (fun _ later => Published later (Binding.mk sessionId context.scope).sessionId
          context.operationId)
        (finalizeClaim ⟨sessionId, context.scope⟩ context history encoded.recordHash) fifth :=
      finalizeClaim_obeys publishes fun later head grown =>
        knows history rfl later head (((toThird.trans toFourth).trans toFifth).trans grown)
    refine claim.orKeep (fun _ _ _ failed => by cases failed) fun _ later _ published =>
      Obeys.done fun _ => ?_
    exact ⟨context, sameContext, published⟩

omit [ManifestCodec] in
theorem sessionUpload_obeys (publishes : call.publishes = true) :
    Obeys (Permit call start) Anything (sessionUpload sessionId start) log := by
  refine (Quiet.ofExcept _).obeys.orKeep (fun _ _ _ => trivial) fun bound _ _ _ => ?_
  exact (sessionPublish_obeys publishes).orKeep (fun _ _ _ => trivial) fun _ _ _ _ => trivial

end finalize

section accept

theorem historyContainsDirect_obeys {rule : OpLog Hash → Req Hash → Prop} [PermitsReads rule] {remaining : Nat}
    {seen : List Hash} {root : Hash} {present : Bool} :
    Obeys rule
      (fun result later => result = false →
        present = false ∧ Unrecorded later binding.sessionId operationId root)
      (historyContainsDirect binding operationId remaining seen root present) log := by
  induction remaining generalizing seen root present log with
  | zero =>
    unfold historyContainsDirect
    split
    · rename_i ended
      exact Obeys.done fun absent => ⟨absent, ended ▸ .nil⟩
    · trivial
  | succ remaining ih =>
    unfold historyContainsDirect
    split
    · rename_i ended
      exact Obeys.done fun absent => ⟨absent, ended ▸ .nil⟩
    · refine Obeys.require_bind fun _ => ?_
      refine (sessionFetchHistory_obeys _ _ _).bind fun result first _ read => ?_
      cases result with
      | none => trivial
      | some stored =>
        refine Obeys.require_bind fun _ => Obeys.require_bind fun _ => ?_
        refine ih.mono fun result last toLast known absent => ?_
        obtain ⟨before, rest⟩ := known absent
        simp only [Bool.or_eq_false_iff, decide_eq_false_iff_not] at before
        exact ⟨before.1, .segment ((read stored rfl).1.grow toLast) before.2 rest⟩

theorem historyContainsOperation_obeys {rule : OpLog Hash → Req Hash → Prop} [PermitsReads rule]
    {body : HeadBody Hash} :
    Obeys rule
      (fun result later => result = false → operationId ∉ body.historyOperations ∧
        Unrecorded later binding.sessionId operationId body.historyHeadHash)
      (historyContainsOperation binding body operationId) log := by
  unfold historyContainsOperation
  split
  · exact Obeys.done fun impossible => by cases impossible
  · rename_i absent
    exact historyContainsDirect_obeys.mono fun _ _ _ known found => ⟨absent, (known found).2⟩

theorem checkpointChain_quiet (binding : Binding) (context : Context Hash) (remaining : Nat)
    (seen : List Hash) (upper : Nat) (hash : Hash) :
    Quiet (checkpointChain binding context remaining seen upper hash) := by
  induction remaining generalizing seen upper hash with
  | zero =>
    unfold checkpointChain
    exact .ite (.done _) ((Quiet.require _ _).bind fun _ => .fail _)
  | succ remaining ih =>
    unfold checkpointChain
    refine .ite (.done _) ((Quiet.require _ _).bind fun _ => (Quiet.require _ _).bind fun _ => ?_)
    exact (Quiet.sessionFetchCheckpoint _ _ _).bind fun _ => (Quiet.foundOr _ _).bind fun _ =>
      (Quiet.require _ _).bind fun _ => (Quiet.require _ _).bind fun _ => ih _ _ _

theorem checkpointChainMatches_quiet (binding : Binding) (context : Context Hash)
    (latest : Checkpoint Hash) (latestHash : Hash) :
    Quiet (checkpointChainMatches binding context latest latestHash) := by
  refine (Quiet.require _ _).bind fun _ => (Quiet.require _ _).bind fun _ => ?_
  split
  · exact .require _ _
  · exact checkpointChain_quiet _ _ _ _ _ _

theorem acceptCandidate_obeys :
    Obeys (Permit call start)
      (fun result later => result.2.Loaded later binding.sessionId result.1 ∧
        result.1.operationId = context.operationId ∧ result.1.scopeHash = binding.scopeHash)
      (acceptCandidate binding context) log := by
  refine Obeys.require_bind fun _ => ?_
  refine (sessionFetchCheckpoint_obeys _ _ _).bind fun fetched first _ read => ?_
  refine foundOr_obeys.bind fun stored second toSecond present => ?_
  refine Obeys.require_bind fun checked => ?_
  refine (checkpointChainMatches_quiet _ _ _ _).obeys.bind fun _ third toThird _ => ?_
  refine currentTime_obeys.bind fun now fourth toFourth _ => Obeys.require_bind fun _ => ?_
  refine Obeys.done
    ⟨⟨⟨stored, ?_, rfl⟩, rfl, rfl, rfl⟩, checked.2.2.2.2, (read stored present).2.2.1⟩
  exact (read stored present).1.grow ((toSecond.trans toThird).trans toFourth)

/-- What accept has established about the head it is about to replace, up to the new
history. -/
def Replaceable (log : OpLog Hash) (binding : Binding) (context : Context Hash)
    (history : Hash × List Hash) : Prop :=
  ∀ (later : OpLog Hash) (head : Head Hash), log <:+ later →
    head.operationId = context.operationId → head.scopeHash = binding.scopeHash →
      Appends later binding.sessionId binding.scopeHash context.operationId history
        head.body.history →
        Accepts later binding.sessionId head context.fence

theorem acceptPredecessor_obeys
    (read : ∀ stored ∈ current, Saw log (.head binding.sessionId) stored ∧
      stored.blob.record.scopeHash = binding.scopeHash) :
    Obeys (Permit call start) (fun history later => Replaceable later binding context history)
      (acceptPredecessor binding context current) log := by
  cases current with
  | none =>
    refine Obeys.require_bind fun expected => Obeys.done ?_
    intro later head _ operation scope appends
    have absent : context.predecessorETag = none := by
      cases etag : context.predecessorETag with
      | none => rfl
      | some _ => simp [expectedHeadIsCurrent, etag] at expected
    rw [Context.fence, absent]
    exact .first (operation ▸ scope ▸ appends)
  | some stored =>
    refine Obeys.require_bind fun committed => Obeys.require_bind fun publishing => ?_
    have checked : Obeys (Permit call start)
        (fun _ later => expectedHeadIsCurrent context (some stored) = true →
          stored.blob.record.operationId ≠ context.operationId →
            context.operationId ∉ stored.blob.record.body.historyOperations ∧
            Unrecorded later binding.sessionId context.operationId
              stored.blob.record.body.historyHeadHash)
        (historyContainsOperation binding stored.blob.record.body context.operationId >>=
          fun superseded => (Prog.require (superseded = false) ⟨.constraint,
            "session operation was already superseded by a later operation"⟩ : Op Hash Unit))
        log :=
      historyContainsOperation_obeys.bind fun superseded later _ known =>
        Obeys.require fun absent _ _ => known absent
    refine Obeys.when_bind (fun _ => checked) ?_ ?_
    · exact fun skipped expected other => absurd ⟨expected, other⟩ skipped
    · intro first toFirst known
      refine Obeys.require_bind fun expected => Obeys.done ?_
      intro later head grown operation scope appends
      have fence : context.predecessorETag = some stored.etag := by
        cases etag : context.predecessorETag with
        | none => simp [expectedHeadIsCurrent, etag] at expected
        | some value =>
          simp only [expectedHeadIsCurrent, etag, decide_eq_true_eq] at expected
          rw [expected.1]
      rw [Context.fence, fence]
      refine .after ((read stored rfl).1.grow (toFirst.trans grown))
        ((read stored rfl).2.trans scope.symm) ?_ ?_ (operation ▸ scope ▸ appends)
      · rw [operation]
        exact fun state => state.elim committed publishing
      · rw [operation]
        intro other
        obtain ⟨absent, unrecorded⟩ := known expected other
        exact ⟨absent, unrecorded.grow grown⟩

theorem acceptHistory_obeys {checkpoint : Checkpoint Hash} : Obeys (Permit call start)
      (fun result later =>
        Appends later binding.sessionId binding.scopeHash operationId history result)
      (acceptHistory binding checkpoint operationId history) log := by
  refine Obeys.require_bind fun _ => ?_
  split
  · refine Obeys.ofExcept_bind fun encoded success => ?_
    refine sessionPutHistory_obeys.bind fun _ later _ stored => Obeys.done ?_
    obtain ⟨named, etag, saw⟩ := stored
    refine .inr ⟨⟨named, rfl⟩, _, saw, ?_, ?_⟩ <;> rw [recordEncode_record success] <;> rfl
  · exact Obeys.done (.inl rfl)

variable [ManifestCodec]

theorem verifyCheckpointBlocks_quiet (base : Manifest) (database : String)
    (body : CheckpointBody Hash) : Quiet (verifyCheckpointBlocks base database body) :=
  (Quiet.ofExcept _).bind fun _ => (Quiet.require _ _).bind fun _ => (Quiet.ofExcept _).bind fun _ =>
    Quiet.askExcept

theorem acceptHead_obeys {man : Manifest} {checkpoint : Checkpoint Hash} {candidate : Candidate Hash}
    (read : ∀ stored ∈ current, Saw log (.head binding.sessionId) stored ∧
      stored.blob.record.scopeHash = binding.scopeHash)
    (loaded : candidate.Loaded log binding.sessionId checkpoint)
    (operation : checkpoint.operationId = context.operationId)
    (scope : checkpoint.scopeHash = binding.scopeHash) (bound : start.context = some context) :
    Obeys (Permit (.accept binding.sessionId) start) Anything
      (acceptHead binding man context current checkpoint candidate) log := by
  refine (acceptPredecessor_obeys read).bind fun history first toFirst replaceable => ?_
  refine sessionManifestFetch_obeys.bind fun _ second toSecond _ => Obeys.require_bind fun _ => ?_
  refine (verifyCheckpointBlocks_quiet _ _ _).obeys.bind fun _ third toThird _ => ?_
  refine acceptHistory_obeys.bind fun result fourth toFourth appends => ?_
  refine (headAdvance_obeys fun head success => ?_).bind fun _ _ _ _ => trivial
  obtain ⟨state, sameOperation, sequence, sameScope, body⟩ :=
    sessionEncodeHeadStateEx_record success
  have later := (toSecond.trans toThird).trans toFourth
  refine ⟨?_, rfl, state, context, bound, sameOperation⟩
  refine .accept state (loaded.grow (toFirst.trans later)) ?_ ?_ sequence
    (sameScope.trans scope.symm) ?_
  · rw [body]
    exact ⟨rfl, rfl, rfl⟩
  · exact sameOperation.trans operation.symm
  · exact replaceable fourth _ later sameOperation sameScope (by rw [body]; exact appends)

theorem sessionAccept_obeys :
    Obeys (Permit (.accept sessionId) start) Anything (sessionAccept sessionId start) log := by
  refine (ofExcept_obeys _).orKeep (fun _ _ _ => trivial) fun bound _ _ success => ?_
  refine (Quiet.require _ _).obeys.orKeep (fun _ _ _ => trivial) fun _ _ _ _ => ?_
  refine (Quiet.require _ _).obeys.orKeep (fun _ _ _ => trivial) fun _ first _ _ => ?_
  have body : Obeys (Permit (.accept sessionId) start) Anything
      (acceptCheckpoint ⟨sessionId, bound.2.scope⟩ bound.1 bound.2) first := by
    refine (sessionReadHead_obeys _ _).bind fun current second _ read => ?_
    refine acceptCandidate_obeys.bind fun result third toThird known => ?_
    have duplicate : Quiet (acceptDuplicate ⟨sessionId, bound.2.scope⟩ bound.2 current result.1
        result.2) := by
      unfold acceptDuplicate
      split
      · exact .done _
      · exact Quiet.timestamp.bind fun _ => .done _
    refine duplicate.obeys.bind fun found fourth toFourth _ => ?_
    cases found with
    | true => trivial
    | false =>
      refine acceptHead_obeys (fun stored here => ?_) (known.1.grow toFourth) known.2.1 known.2.2
        (Container.bound_eq_ok success).2
      exact ⟨.inl ⟨_, (toThird.trans toFourth).subset (read stored here).1⟩,
        (read stored here).2.2.1⟩
  exact body.orKeep (fun _ _ _ => trivial) fun _ _ _ _ => trivial

end accept

section plain

theorem bcvfsUpload_obeys [ManifestCodec] {only : Option Nat}
    (plain : ∀ man, container.man = some man → man.uploadSet container.walFiles only ≠ [] → call.plain start) :
    Obeys (Permit call start) (fun result _ => ∀ error, result.2 = .error error →
        result.1 = container) (bcvfsUpload only container) log := by
  unfold bcvfsUpload
  split
  · exact Obeys.done fun _ _ => rfl
  · rename_i man present
    dsimp only
    split
    · exact Obeys.done fun _ _ => rfl
    · rename_i chosen
      refine Quiet.askExcept.obeys.orKeep (fun _ _ _ _ _ => rfl) fun _ _ _ _ => ?_
      refine (putObject_obeys ?_).orKeep (fun _ _ _ _ _ => rfl) fun _ _ _ _ => ?_
      · exact .inr (plain man present chosen)
      refine Quiet.askExcept.obeys.orKeep (fun _ _ _ _ _ => rfl) fun _ _ _ _ => ?_
      exact Obeys.done fun _ impossible => by cases impossible

theorem withRetry_obeys {body : Container Hash → Op Hash (ApiOut Hash Unit)}
    (obeys : ∀ log, Obeys (Permit call start)
      (fun result _ => ∀ error, result.2 = .error error → result.1 = container) (body container) log)
    (remaining : Nat) (log : OpLog Hash) :
    Obeys (Permit call start) Anything (withRetry body remaining container) log := by
  induction remaining generalizing log with
  | zero => exact (obeys log).mono fun _ _ _ _ => trivial
  | succ remaining ih =>
    refine (obeys log).bind fun result later _ kept => ?_
    obtain ⟨after, outcome⟩ := result
    dsimp only
    split
    · rename_i message
      rw [show after = container from kept _ rfl]
      exact ih later
    · trivial

theorem upload_obeys [ManifestCodec] : Obeys (Permit .upload start) Anything (upload start) log := by
  unfold upload
  split
  · trivial
  · rename_i free
    refine (bcvfsUpload_obeys fun man present _ => ?_).mono fun _ _ _ _ => trivial
    show start.sessionId = none
    rw [present] at free
    simpa using free

theorem pragmaUpload_obeys [ManifestCodec] {dbId : Nat} {inTransaction : Bool} :
    Obeys (Permit (.pragmaUpload dbId inTransaction) start) Anything
      (pragmaUpload dbId inTransaction start) log := by
  unfold pragmaUpload
  split
  · trivial
  · rename_i outside
    refine withRetry_obeys (fun _ => bcvfsUpload_obeys fun man present chosen => ?_) _ _
    exact ⟨by simpa using outside, man, present, chosen⟩

end plain

/-- Every call makes only requests it is permitted, and a finalizer that returns without
an error has published. -/
theorem api_obeys [ManifestCodec] (call : Call Hash) (start : Container Hash) :
    Obeys (Permit call start) (Established call start) (api call start) [] := by
  have quiet {program : Op Hash (ApiOut Hash Unit)} (quiet : Quiet program)
      (other : ∀ result log, Established call start result log) :
      Obeys (Permit call start) (Established call start) program [] :=
    quiet.obeys.mono fun result log _ _ => other result log
  cases call with
  | attachScoped binding operationId =>
    exact quiet (attachSessionScoped_quiet _ _ _) fun _ _ => trivial
  | detachScoped sessionId => exact quiet (detachSession_quiet _ _) fun _ _ => trivial
  | checkpoint sessionId =>
    exact sessionCheckpoint_obeys.bind fun _ _ _ _ => trivial
  | accept sessionId => exact sessionAccept_obeys.mono fun _ _ _ _ => trivial
  | sessionUpload sessionId =>
    exact (sessionUpload_obeys rfl).mono fun _ _ _ _ => trivial
  | finalize sessionId =>
    refine (sessionFinalize_obeys rfl).mono fun result log _ published => ?_
    obtain ⟨after, outcome⟩ := result
    cases outcome with
    | ok value => exact published rfl
    | error error => trivial
  | attach => exact quiet (attach_quiet _) fun _ _ => trivial
  | detach => exact quiet (detach_quiet _) fun _ _ => trivial
  | openHandle => trivial
  | closeHandle => trivial
  | write dbs walFiles fileSize => trivial
  | upload => exact upload_obeys.mono fun _ _ _ _ => trivial
  | poll => exact quiet (poll_quiet _) fun _ _ => trivial
  | pragmaUpload dbId inTransaction => exact pragmaUpload_obeys.mono fun _ _ _ _ => trivial
  | pragmaPoll inTransaction =>
    exact quiet (.ite (.done _) (poll_quiet _)) fun _ _ => trivial

end RusqDoltlite.Session

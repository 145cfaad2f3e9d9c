import RusqDoltlite.Session.ReadContract

/-! The walk through `bcvfsSessionPublish`: every write it makes rests on the evidence its
rule asks for, and a publisher that returns has seen its candidate as the manifest. -/

namespace RusqDoltlite.Session

open Effects

variable {Hash : Type} [DecidableEq Hash] [Digest Hash]
variable {call : Call Hash} {start : Container Hash} {log : OpLog Hash}

variable {condition : Condition ETag} {state : RecordState} {outcome : Outcome} {baseETag : ETag}
  {candidate : Candidate Hash} {sessionId : SessionId} {binding : Binding} {operationId : Hash}
  {publication : StoredPublication Hash} {checkpoint : Checkpoint Hash}

theorem putObject_obeys {rule : OpLog Hash → Req Hash → Prop} {key : Key Hash} {blob : Blob key}
    (allowed : rule log (.put key condition blob)) :
    Obeys rule (fun etag later => Saw later key ⟨etag, blob⟩)
      (putObject key condition blob) log := by
  refine ⟨allowed, fun answer => ?_⟩
  cases answer with
  | error error => trivial
  | ok etag => exact .inr ⟨condition, List.mem_cons_self⟩

theorem sessionCandidatePut_obeys {hash : Hash} {bytes : Bytes} (named : Digest.manifest bytes = hash) :
    Obeys (Permit call start)
      (fun _ later => bytes ≠ [] ∧ ∃ etag, Saw later (.candidate hash) ⟨etag, bytes⟩)
      (sessionCandidatePut hash bytes) log := by
  refine Obeys.require_bind fun nonempty => Obeys.require_bind fun _ => Obeys.require_bind fun _ => ?_
  refine Obeys.attempt (putObject_obeys ⟨rfl, named⟩) ?_ ?_
  · exact fun etag later _ saw => Obeys.done ⟨nonempty, etag, saw⟩
  · intro failure later _
    refine Obeys.attempt (sessionCandidateFetch_obeys hash) ?_ fun _ _ _ => trivial
    intro result last _ read
    cases result with
    | none => trivial
    | some existing =>
      by_cases same : existing.blob = bytes
      · simp only [same, if_true]
        exact Obeys.done ⟨nonempty, existing.etag, same ▸ read existing rfl⟩
      · simp only [same, if_false]
        trivial

@[simp] theorem sameBytes_eq_true {Body : Type} [SessionBody Hash Body] [DecidableEq Body]
    {encoded : Except Err (Encoded Hash Body)} {fresh : Encoded Hash Body} :
    sameBytes encoded fresh = true ↔ encoded = .ok fresh := by
  cases encoded <;> simp [sameBytes]

theorem sessionEncodeHeadStateEx_record {old : Record Hash Unit}
    {oldHash checkpointHash candidateHash historyHeadHash : Hash} {historyOperations : List Hash}
    {encoded : Encoded Hash (HeadBody Hash)}
    (success : sessionEncodeHeadStateEx old oldHash state outcome checkpointHash candidateHash
      baseETag historyHeadHash historyOperations = .ok encoded) :
    encoded.record.state = state ∧ encoded.record.operationId = old.operationId ∧
      encoded.record.sequence = old.sequence ∧ encoded.record.scopeHash = old.scopeHash ∧
      encoded.record.body =
        ⟨checkpointHash, candidateHash, historyHeadHash, historyOperations, baseETag⟩ := by
  simp only [sessionEncodeHeadStateEx, check_bind_eq_ok] at success
  rw [recordEncode_record success.2.2]
  exact ⟨rfl, rfl, rfl, rfl, rfl⟩

theorem sessionEncodeHeadState_record {old encoded : Encoded Hash (HeadBody Hash)}
    (success : sessionEncodeHeadState old state outcome candidate = .ok encoded) :
    encoded.record.state = state ∧ encoded.record.operationId = old.record.operationId ∧
      encoded.record.sequence = old.record.sequence ∧
      encoded.record.scopeHash = old.record.scopeHash ∧ encoded.record.body.About candidate ∧
      encoded.record.body.history = old.record.body.history := by
  obtain ⟨stateIs, operation, sequence, scope, body⟩ := sessionEncodeHeadStateEx_record success
  refine ⟨stateIs, operation, sequence, scope, ?_, ?_⟩
  · rw [body]
    exact ⟨rfl, rfl, rfl⟩
  · rw [body]
    rfl

theorem sessionPutHead_obeys {scopeHash : Hash} {head : Encoded Hash (HeadBody Hash)}
    (allowed : HeadWrite log sessionId head.record condition) (heads : call.Heads start sessionId head.record) :
    Obeys (Permit call start) Anything (sessionPutHead sessionId scopeHash condition head) log := by
  refine Obeys.ofExcept_bind fun _ decoded => ?_
  obtain ⟨_, owner, _⟩ := recordDecode_eq_ok decoded
  have permitted : Permit call start log (.put (.head sessionId) condition head) :=
    ⟨allowed, owner sessionId rfl, heads⟩
  exact (putObject_obeys permitted).mono fun _ _ _ _ => trivial

theorem sessionPutPublication_obeys {publication : Encoded Hash (PublicationBody Hash)}
    (allowed : PublicationWrite log publication.record) :
    Obeys (Permit call start) (fun etag later => Saw later .publication ⟨etag, publication⟩)
      (sessionPutPublication condition publication) log := by
  refine Obeys.ofExcept_bind fun _ decoded => ?_
  have permitted : Permit call start log (.put .publication condition publication) :=
    ⟨allowed, (recordDecode_eq_ok decoded).2.2⟩
  exact putObject_obeys permitted

theorem headAdvance_obeys {encoded : Except Err (Encoded Hash (HeadBody Hash))}
    {reconciles : Encoded Hash (HeadBody Hash) → Bool}
    (allowed : ∀ head, encoded = .ok head → HeadWrite log binding.sessionId head.record condition ∧
      call.Heads start binding.sessionId head.record) :
    Obeys (Permit call start) Anything (headAdvance binding condition encoded reconciles) log := by
  have put : Obeys (Permit call start) Anything (Prog.ofExcept encoded >>=
      sessionPutHead binding.sessionId binding.scopeHash condition) log :=
    Obeys.ofExcept_bind fun head success =>
      sessionPutHead_obeys (allowed head success).1 (allowed head success).2
  refine put.attempt (fun _ _ _ _ => trivial) fun failure later _ => ?_
  refine (sessionReadHead_obeys binding .other).attempt ?_ fun _ _ _ => trivial
  intro result last _ read
  cases result with
  | none => trivial
  | some fresh => by_cases accepted : reconciles fresh.blob = true <;> simp [accepted] <;> trivial

theorem publicationAdvance_obeys {encoded : Except Err (Encoded Hash (PublicationBody Hash))}
    {reconciles : Encoded Hash (PublicationBody Hash) → Bool}
    (allowed : ∀ publication, encoded = .ok publication → PublicationWrite log publication.record) :
    Obeys (Permit call start)
      (fun stored later => Saw later .publication stored ∧
        (encoded = .ok stored.blob ∨ reconciles stored.blob = true))
      (publicationAdvance condition encoded reconciles) log := by
  have put : Obeys (Permit call start)
      (fun stored later => Saw later .publication stored ∧ encoded = .ok stored.blob)
      (Prog.ofExcept encoded >>= fun record => sessionPutPublication condition record >>= fun etag =>
        (Prog.done ⟨etag, record⟩ : Op Hash (StoredPublication Hash))) log := by
    refine Obeys.ofExcept_bind fun publication success => ?_
    exact (sessionPutPublication_obeys (allowed publication success)).bind
      fun etag later _ saw => Obeys.done ⟨saw, success⟩
  refine put.attempt (fun stored later _ known => Obeys.done ⟨known.1, .inl known.2⟩)
    fun failure later _ => ?_
  refine sessionFetchPublication_obeys.attempt ?_ fun _ _ _ => trivial
  intro result last _ read
  cases result with
  | none => trivial
  | some fresh =>
    by_cases accepted : reconciles fresh.blob = true
    · simp only [accepted, if_true]
      exact Obeys.done ⟨read fresh rfl, .inr accepted⟩
    · simp only [accepted]
      trivial

theorem publicationLifetime_obeys {old : Publication Hash} {body : PublicationBody Hash} :
    Obeys (Permit call start) Anything (publicationLifetime old sessionId body) log := by
  unfold publicationLifetime
  split
  · trivial
  · exact timestamp_obeys.bind fun _ _ _ _ => trivial

theorem sessionEncodePublicationState_obeys {base : PublicationBase Hash} {checkpointHash candidateHash : Hash} :
    Obeys (Permit call start)
      (fun encoded _ => encoded.record.state = state ∧ encoded.record.sessionId = sessionId ∧
        encoded.record.body = ⟨checkpointHash, candidateHash, baseETag⟩)
      (sessionEncodePublicationState base sessionId checkpointHash candidateHash baseETag operationId
        state outcome) log := by
  cases base with
  | head old =>
    refine timestamp_obeys.bind fun now later _ _ => ?_
    refine (ofExcept_obeys _).mono fun encoded _ _ success => ?_
    rw [recordEncode_record success]
    exact ⟨rfl, rfl, rfl⟩
  | publication old =>
    refine Obeys.require_bind fun _ => ?_
    refine publicationLifetime_obeys.bind fun times later _ _ => ?_
    refine (ofExcept_obeys _).mono fun encoded _ _ success => ?_
    rw [recordEncode_record success]
    exact ⟨rfl, rfl, rfl⟩

theorem manifestInstall_obeys {bytes : Bytes}
    (allowed : Permit call start log (.put .manifest (.tagged baseETag) bytes)) :
    Obeys (Permit call start) (fun _ later => Visible later bytes)
      (manifestInstall baseETag bytes : Op Hash Unit) log := by
  have put : Obeys (Permit call start) (fun _ later => Visible later bytes)
      (sessionManifestPut baseETag bytes : Op Hash ETag) log :=
    Obeys.require_bind fun _ => (putObject_obeys allowed).mono fun etag _ _ saw => ⟨_, saw, rfl⟩
  refine put.attempt (fun _ _ _ visible => Obeys.done visible) fun failure later _ => ?_
  refine sessionManifestFetch_obeys.attempt ?_ fun _ _ _ => trivial
  intro fresh last _ saw
  by_cases same : fresh.blob = bytes
  · simp only [same, if_true]
    exact Obeys.done ⟨fresh, saw, same⟩
  · simp only [same, if_false]
    trivial

theorem publishManifest_obeys
    (allowed : ∀ later, log <:+ later →
      Permit call start later (.put .manifest (.tagged candidate.baseETag) candidate.manifest)) :
    Obeys (Permit call start) (fun _ later => Visible later candidate.manifest)
      (publishManifest candidate) log := by
  refine sessionManifestFetch_obeys.bind fun manifest later grown saw => ?_
  unfold Prog.when
  split
  · refine Obeys.require_bind fun _ => ?_
    refine (manifestInstall_obeys (allowed later grown)).bind fun _ _ _ _ => ?_
    refine sessionManifestFetch_obeys.bind fun confirmed last _ seen => ?_
    exact Obeys.require fun same => ⟨confirmed, seen, same⟩
  · rename_i same
    exact Obeys.done ⟨manifest, saw, not_not.mp same⟩

/-- What a held fence stands for: a publication head that names the candidate. -/
def Fence.Covers (log : OpLog Hash) (candidate : Candidate Hash) : Fence Hash → Prop
  | .committed => True
  | .held publication => Saw log .publication publication ∧
      publication.blob.record.body = candidate.publicationBody

section
variable {binding : Binding} {head : StoredHead Hash} {candidate : Candidate Hash}
variable {checkpoint : Checkpoint Hash}

variable (loaded : candidate.Loaded log binding.sessionId checkpoint)
  (kept : Kept log candidate.candidateHash)

include loaded kept in
theorem publicationTake_obeys {encoded : Except Err (Encoded Hash (PublicationBody Hash))}
    (known : ∀ publication, encoded = .ok publication → publication.record.state = .publishing ∧
      publication.record.sessionId = binding.sessionId ∧
      publication.record.body = candidate.publicationBody) :
    Obeys (Permit call start) (fun fence later => fence.Covers later candidate)
      (publicationTake binding candidate condition encoded) log := by
  refine (publicationAdvance_obeys fun publication success => ?_).bind
    fun stored last _ evidence => ?_
  · obtain ⟨state, session, body⟩ := known publication success
    refine ⟨.inl ⟨candidate, checkpoint, session ▸ loaded, body⟩, ?_⟩
    simp only [state, body]
    exact kept
  · by_cases committed : stored.blob.record.state = .committed
    · simp only [committed, if_true]
      exact Obeys.done trivial
    · simp only [committed, if_false]
      refine Obeys.done ⟨evidence.1, ?_⟩
      -- a head that is not committed was written here or equals what was to be written
      rcases evidence.2 with own | reconciled
      · exact (known _ own).2.2
      · rcases (Bool.or_eq_true _ _).mp reconciled with same | matched
        · exact (known _ (sameBytes_eq_true.mp same)).2.2
        · simp [sessionPublicationMatches, committed] at matched

include loaded kept in
theorem publicationClaim_obeys {base : PublicationBase Hash} :
    Obeys (Permit call start) (fun fence later => fence.Covers later candidate)
      (publicationClaim binding head candidate base condition) log := by
  refine sessionEncodePublicationState_obeys.attempt ?_ ?_
  · intro encoded later grown known
    refine publicationTake_obeys (loaded.grow grown) (kept.grow grown) fun publication same => ?_
    cases same
    exact known
  · intro error later grown
    exact publicationTake_obeys (loaded.grow grown) (kept.grow grown) fun _ same => by cases same

include loaded kept in
theorem publicationSupersede_obeys :
    Obeys (Permit call start) (fun fence later => fence.Covers later candidate)
      (publicationSupersede binding head candidate publication) log := by
  refine sessionManifestFetch_obeys.bind fun manifest later grown _ => ?_
  exact Obeys.require_bind fun _ => publicationClaim_obeys (loaded.grow grown) (kept.grow grown)

include loaded kept in
theorem publicationCommitted_obeys :
    Obeys (Permit call start) (fun fence later => fence.Covers later candidate)
      (publicationCommitted binding head candidate publication) log := by
  unfold publicationCommitted
  split
  · exact Obeys.done trivial
  · exact publicationSupersede_obeys loaded kept

end

variable (publishes : call.publishes = true)
  (loaded : candidate.Loaded log binding.sessionId checkpoint) (saw : Saw log .publication publication)
  (visible : Visible log candidate.manifest)

include publishes saw in
theorem recoverCandidate_obeys :
    Obeys (Permit call start)
      (fun encoded later => encoded.record.state = .committed ∧
        PublicationWrite later encoded.record)
      (recoverCandidate publication.blob) log := by
  refine (sessionCandidateFetch_obeys _).bind fun fetched first toFirst _ => ?_
  refine foundOr_obeys.bind fun candidate second toSecond _ => ?_
  refine Obeys.require_bind fun _ => Obeys.require_bind fun named => ?_
  refine sessionManifestFetch_obeys.bind fun manifest third toThird seen => ?_
  have grown : log <:+ third := (toFirst.trans toSecond).trans toThird
  refine Obeys.when_bind (fun _ => Obeys.require_bind fun _ => manifestInstall_obeys ?_) ?_ ?_
  · exact .inl ⟨publishes, publication, saw.grow grown, named.symm, rfl⟩
  · exact fun same => ⟨manifest, seen, not_not.mp same⟩
  · intro fourth toFourth visible
    refine sessionEncodePublicationState_obeys.mono fun encoded last toLast known => ?_
    obtain ⟨state, session, body⟩ := known
    refine ⟨state, .inr ⟨publication, ?_, session.symm, body.symm⟩, ?_⟩
    · exact saw.grow (grown.trans (toFourth.trans toLast))
    · simp only [state, body]
      exact ⟨candidate.blob, visible.grow toLast, named⟩

include publishes saw in
theorem publicationRecover_obeys :
    Obeys (Permit call start) Anything (publicationRecover publication) log := by
  refine (recoverCandidate_obeys publishes saw).attempt ?_ ?_
  · intro encoded later _ known
    refine (publicationAdvance_obeys fun own same => ?_).bind fun _ _ _ _ => trivial
    cases same
    exact known.2
  · intro error later _
    exact (publicationAdvance_obeys fun own same => by cases same).bind fun _ _ _ _ => trivial

theorem publicationLive_obeys {publication : Publication Hash} : Obeys (Permit call start)
      (fun live _ => live = true → publication.body = candidate.publicationBody)
      (publicationLive binding candidate publication) log := by
  unfold publicationLive
  split
  · rename_i matched
    refine timestamp_obeys.bind fun now later _ _ => Obeys.done fun _ => ?_
    simp only [sessionPublicationMatches, decide_eq_true_eq] at matched
    obtain ⟨_, _, checkpoint, candidateHash, base⟩ := matched
    rw [Candidate.publicationBody, ← checkpoint, ← candidateHash, ← base]
  · exact Obeys.done fun impossible => by cases impossible

include publishes loaded in
theorem publicationFence_obeys {head : StoredHead Hash} (kept : Kept log candidate.candidateHash) :
    Obeys (Permit call start) (fun fence later => fence.Covers later candidate)
      (publicationFence binding head candidate) log := by
  refine sessionFetchPublication_obeys.bind fun result later grown read => ?_
  cases result with
  | none => exact publicationClaim_obeys (loaded.grow grown) (kept.grow grown)
  | some publication =>
    have saw := read publication rfl
    cases state : publication.blob.record.state with
    | committed =>
      simp only [state]
      exact publicationCommitted_obeys (loaded.grow grown) (kept.grow grown)
    | publishing =>
      simp only [state]
      refine publicationLive_obeys.bind fun live last toLast own => ?_
      cases live with
      | true => exact Obeys.done ⟨saw.grow toLast, own rfl⟩
      | false =>
        refine (publicationRecover_obeys publishes (saw.grow toLast)).bind
          fun recovered final toFinal _ => ?_
        have all := (grown.trans toLast).trans toFinal
        exact publicationCommitted_obeys (loaded.grow all) (kept.grow all)
    | opened => simp only [state]; trivial
    | accepted => simp only [state]; trivial
    | aborted => simp only [state]; trivial
    | expired => simp only [state]; trivial

include loaded visible in
theorem publicationCommit_obeys :
    Obeys (Permit call start) Anything (publicationCommit binding candidate publication) log := by
  refine sessionEncodePublicationState_obeys.attempt ?_ ?_
  · intro encoded later grown known
    refine (publicationAdvance_obeys fun own same => ?_).bind fun _ _ _ _ => trivial
    cases same
    obtain ⟨state, session, body⟩ := known
    refine ⟨.inl ⟨candidate, checkpoint, session ▸ loaded.grow grown, body⟩, ?_⟩
    simp only [state, body]
    exact ⟨candidate.manifest, visible.grow grown, loaded.2.2.1.symm⟩
  · intro error later _
    exact (publicationAdvance_obeys fun own same => by cases same).bind fun _ _ _ _ => trivial

include publishes in
theorem publishFenced_obeys {fence : Fence Hash}
    (covers : fence.Covers log candidate) (loaded : candidate.Loaded log binding.sessionId checkpoint) :
    Obeys (Permit call start) (fun _ later => Visible later candidate.manifest)
      (publishFenced binding candidate fence) log := by
  cases fence with
  | committed =>
    refine sessionManifestFetch_obeys.bind fun manifest later _ saw => ?_
    exact Obeys.require fun same => ⟨manifest, saw, same⟩
  | held publication =>
    obtain ⟨saw, body⟩ := covers
    refine (publishManifest_obeys fun later grown => .inl ⟨publishes, ?_⟩).bind
      fun _ later toLater visible => ?_
    · refine ⟨publication, saw.grow grown, ?_, ?_⟩
      · rw [body]
        exact loaded.2.2.1
      · rw [body]
        rfl
    · exact (publicationCommit_obeys (loaded.grow toLater) visible).mono
        fun _ _ grown _ => visible.grow grown

theorem publishLoadHead_obeys :
    Obeys (Permit call start)
      (fun stored later =>
        ⟨.get (.head binding.sessionId) (.publishHead operationId), .ok (some stored)⟩ ∈ later ∧
          (stored.blob.record.state = .accepted ∨ stored.blob.record.state = .publishing ∨
            stored.blob.record.state = .committed))
      (publishLoadHead binding operationId) log := by
  refine (sessionReadHead_obeys binding _).bind fun result first _ read => ?_
  refine foundOr_obeys.bind fun stored second toSecond present => ?_
  refine Obeys.require_bind fun state => Obeys.require_bind fun _ => Obeys.require_bind fun _ =>
    Obeys.require_bind fun _ => ?_
  refine timestamp_obeys.bind fun now third toThird _ => Obeys.require_bind fun _ => Obeys.done ?_
  exact ⟨(toSecond.trans toThird).subset (read stored present).1, state⟩

theorem publishLoadCandidate_obeys {head : Head Hash} : Obeys (Permit call start)
      (fun candidate later => candidate.checkpointHash = head.body.checkpointHash ∧
        ∃ checkpoint, candidate.Loaded later binding.sessionId checkpoint)
      (publishLoadCandidate binding head) log := by
  refine (sessionFetchCheckpoint_obeys _ _ _).bind fun result first _ read => ?_
  refine foundOr_obeys.bind fun stored second toSecond present => ?_
  refine Obeys.require_bind fun _ => Obeys.require_bind fun base => Obeys.require_bind fun _ =>
    Obeys.require_bind fun _ => Obeys.done ?_
  refine ⟨rfl, stored.blob.record, ⟨stored, ?_, rfl⟩, rfl, rfl, base.symm⟩
  exact (read stored present).1.grow toSecond

include publishes in
theorem publishPromoteHead_obeys {stored : StoredHead Hash} (saw : Saw log (.head binding.sessionId) stored)
    (named : candidate.checkpointHash = stored.blob.record.body.checkpointHash)
    (loaded : candidate.Loaded log binding.sessionId checkpoint) :
    Obeys (Permit call start) Anything (publishPromoteHead binding stored candidate) log := by
  unfold publishPromoteHead
  split
  · rename_i accepted
    refine (headAdvance_obeys fun head success => ?_).bind fun _ _ _ _ => trivial
    obtain ⟨state, operation, sequence, scope, about, history⟩ :=
      sessionEncodeHeadState_record success
    exact ⟨.promote state saw accepted loaded named.symm about operation sequence scope history,
      Call.heads_of_publishes publishes (by simp [state])⟩
  · trivial

include publishes loaded visible in
theorem publishCommitHead_obeys :
    Obeys (Permit call start) Anything (publishCommitHead binding candidate) log := by
  refine (sessionReadHead_obeys binding _).bind fun result first toFirst read => ?_
  refine foundOr_obeys.bind fun stored second toSecond present => ?_
  have grown := toFirst.trans toSecond
  dsimp only
  split
  · exact Obeys.require fun _ => trivial
  · split
    · rename_i pending
      refine (headAdvance_obeys fun head success => ?_).bind fun _ _ _ _ => trivial
      obtain ⟨state, operation, sequence, scope, about, history⟩ :=
        sessionEncodeHeadState_record success
      refine ⟨.commit state (toSecond.subset (read stored present).1) (pending.imp_right And.left)
        (loaded.grow grown) (visible.grow grown) about operation sequence scope history, ?_⟩
      exact Call.heads_of_publishes publishes (by simp [state])
    · trivial

include publishes in
theorem sessionPublish_obeys :
    Obeys (Permit call start) (fun _ later => Published later binding.sessionId operationId)
      (sessionPublish binding operationId) log := by
  refine publishLoadHead_obeys.bind fun stored first _ head => ?_
  refine publishLoadCandidate_obeys.bind fun candidate second toSecond known => ?_
  obtain ⟨same, checkpoint, loaded⟩ := known
  obtain ⟨_, _, named, _⟩ := id loaded
  refine (sessionCandidatePut_obeys named.symm).bind fun _ third toThird kept => ?_
  have saw : Saw third (.head binding.sessionId) stored :=
    .inl ⟨_, (toSecond.trans toThird).subset head.1⟩
  refine (publishPromoteHead_obeys publishes saw same (loaded.grow toThird)).bind
    fun promoted fourth toFourth _ => ?_
  have keptNow : Kept fourth candidate.candidateHash := by
    obtain ⟨nonempty, etag, stored⟩ := kept
    exact ⟨_, stored.grow toFourth, named.symm, nonempty⟩
  have loadedNow := loaded.grow (toThird.trans toFourth)
  refine (publicationFence_obeys publishes loadedNow keptNow).bind
    fun fence fifth toFifth covers => ?_
  refine (publishFenced_obeys publishes covers (loadedNow.grow toFifth)).bind
    fun _ sixth toSixth visible => ?_
  have later : second <:+ sixth := ((toThird.trans toFourth).trans toFifth).trans toSixth
  refine (publishCommitHead_obeys publishes (loaded.grow later) visible).mono fun _ last toLast _ => ?_
  exact ⟨stored, candidate, checkpoint, (toSecond.trans (later.trans toLast)).subset head.1, head.2,
    same.symm, loaded.grow (later.trans toLast), visible.grow toLast⟩

end RusqDoltlite.Session

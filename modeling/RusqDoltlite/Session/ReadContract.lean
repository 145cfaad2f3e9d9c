import RusqDoltlite.Session.Evidence

/-! Contracts of the parts of the session code that only read: what their results say about the log,
under any rule that permits reads, and which operations never write to the object store. -/

namespace RusqDoltlite.Session

open Effects

variable {Hash : Type} [DecidableEq Hash] [Digest Hash]

def ReadsOnly (_ : OpLog Hash) : Req Hash → Prop
  | .put _ _ _ => False
  | .get _ _ => True
  | .ask _ => True

class PermitsReads (rule : OpLog Hash → Req Hash → Prop) : Prop where
  get : ∀ log key site, rule log (.get key site)
  ask : ∀ log query, rule log (.ask query)

instance : PermitsReads (ReadsOnly : OpLog Hash → Req Hash → Prop) where
  get _ _ _ := trivial
  ask _ _ := trivial

instance (call : Call Hash) (start : Container Hash) : PermitsReads (Permit call start) where
  get _ _ _ := trivial
  ask _ _ := trivial

def Anything {α : Type} : α → OpLog Hash → Prop := fun _ _ => True

variable {rule : OpLog Hash → Req Hash → Prop} {log : OpLog Hash}

theorem ofExcept_obeys {α : Type} (result : Except Err α) :
    Obeys rule (fun value _ => result = .ok value) (Prog.ofExcept result : Op Hash α) log := by
  cases result with
  | ok value => exact rfl
  | error error => trivial

theorem foundOr_obeys {α : Type} {missing : Err} {result : Option α} :
    Obeys rule (fun value _ => result = some value) (foundOr missing result : Op Hash α) log := by
  cases result with
  | none => trivial
  | some value => exact rfl

def Fetched {Body : Type} [SessionBody Hash Body] (sessionId : Option SessionId) (scopeHash : Hash)
    (objectId : Option Hash) (encoded : Encoded Hash Body) : Prop :=
  (∀ expected ∈ sessionId, encoded.record.sessionId = expected) ∧
    encoded.record.scopeHash = scopeHash ∧ ∀ hash ∈ objectId, encoded.recordHash = hash

theorem sessionFetched_obeys {Body : Type} [SessionBody Hash Body] {sessionId : Option SessionId}
    {scopeHash : Hash} {objectId : Option Hash} {mismatch : String}
    {fetched : Option (Version ETag (Encoded Hash Body))} :
    Obeys rule (fun result _ => result = fetched ∧
        ∀ version ∈ result, Fetched sessionId scopeHash objectId version.blob)
      (sessionFetched sessionId scopeHash objectId mismatch fetched) log := by
  cases fetched with
  | none => exact ⟨rfl, by simp⟩
  | some version =>
    refine Obeys.ofExcept_bind fun record decoded => Obeys.require_bind fun named => ?_
    obtain ⟨_, owner, scope⟩ := recordDecode_eq_ok decoded
    refine ⟨rfl, fun other same => ?_⟩
    cases same
    exact ⟨owner, scope, named⟩

variable [PermitsReads rule]

theorem ask_obeys {α : Type} {query : Query} {next : Reply query → Op Hash α} {post : α → OpLog Hash → Prop}
    (rest : ∀ answer, Obeys rule post (next answer) (⟨.ask query, answer⟩ :: log)) :
    Obeys rule post (.call (.ask query) next) log :=
  ⟨PermitsReads.ask log query, rest⟩

theorem timestamp_obeys : Obeys rule Anything (timestamp : Op Hash Nat) log :=
  ask_obeys fun _ => trivial

theorem currentTime_obeys {failure : Err} :
    Obeys rule Anything (currentTime failure : Op Hash Nat) log := by
  refine ask_obeys fun answer => ?_
  cases answer <;> trivial

theorem askExcept_obeys {α : Type} {query : Query} {result : Reply query → Except Err α} :
    Obeys rule Anything (.call (.ask query) fun answer => Prog.ofExcept (result answer) : Op Hash α)
      log :=
  ask_obeys fun answer => (ofExcept_obeys (result answer)).mono fun _ _ _ _ => trivial

theorem getObject_logged (key : Key Hash) (site : Site Hash) :
    Obeys rule (fun result later => ⟨.get key site, .ok result⟩ ∈ later) (getObject key site)
      log := by
  refine ⟨PermitsReads.get log key site, fun answer => ?_⟩
  cases answer with
  | error error => trivial
  | ok result => exact List.mem_cons_self

theorem getObject_obeys (key : Key Hash) (site : Site Hash) :
    Obeys rule (fun result later => ∀ version ∈ result,
      ⟨.get key site, .ok (some version)⟩ ∈ later) (getObject key site) log := by
  refine (getObject_logged key site).mono fun result later _ logged version member => ?_
  cases member
  exact logged

theorem sessionReadHead_logged (binding : Binding) (site : Site Hash) :
    Obeys rule (fun result later => ⟨.get (.head binding.sessionId) site, .ok result⟩ ∈ later)
      (sessionReadHead binding site) log := by
  refine (getObject_logged _ site).bind fun result later grown logged => ?_
  refine sessionFetched_obeys.mono fun final last extended checked => ?_
  obtain ⟨rfl, _⟩ := checked
  exact extended.subset logged

theorem sessionReadHead_obeys (binding : Binding) (site : Site Hash) :
    Obeys rule (fun result later => ∀ stored ∈ result,
        ⟨.get (.head binding.sessionId) site, .ok (some stored)⟩ ∈ later ∧
          Fetched (some binding.sessionId) binding.scopeHash none stored.blob)
      (sessionReadHead binding site) log := by
  refine (getObject_obeys _ site).bind fun result later grown read => ?_
  refine sessionFetched_obeys.mono fun final last extended checked stored member => ?_
  obtain ⟨rfl, records⟩ := checked
  exact ⟨extended.subset (read stored member), records stored member⟩

theorem sessionFetchCheckpoint_obeys (sessionId : SessionId) (scopeHash hash : Hash) :
    Obeys rule (fun result later => ∀ version ∈ result,
        Saw later (.checkpoint sessionId hash) version ∧
          Fetched (some sessionId) scopeHash (some hash) version.blob)
      (sessionFetchCheckpoint sessionId scopeHash hash) log := by
  refine Obeys.require_bind fun _ => ?_
  refine (getObject_obeys _ .other).bind fun result later grown read => ?_
  refine sessionFetched_obeys.mono fun final last extended checked version member => ?_
  obtain ⟨rfl, records⟩ := checked
  exact ⟨.inl ⟨.other, extended.subset (read version member)⟩, records version member⟩

theorem sessionFetchHistory_obeys (sessionId : SessionId) (scopeHash hash : Hash) :
    Obeys rule (fun result later => ∀ version ∈ result,
        Saw later (.history sessionId hash) version ∧
          Fetched (some sessionId) scopeHash (some hash) version.blob)
      (sessionFetchHistory sessionId scopeHash hash) log := by
  refine Obeys.require_bind fun _ => ?_
  refine (getObject_obeys _ .other).bind fun result later grown read => ?_
  refine sessionFetched_obeys.mono fun final last extended checked version member => ?_
  obtain ⟨rfl, records⟩ := checked
  exact ⟨.inl ⟨.other, extended.subset (read version member)⟩, records version member⟩

theorem sessionFetchPublication_obeys :
    Obeys rule (fun result later => ∀ version ∈ result, Saw later .publication version)
      (sessionFetchPublication : Op Hash (Option (StoredPublication Hash))) log := by
  refine (getObject_obeys _ .other).bind fun result later grown read => ?_
  refine sessionFetched_obeys.mono fun final last extended checked version member => ?_
  obtain ⟨rfl, _⟩ := checked
  exact .inl ⟨.other, extended.subset (read version member)⟩

theorem sessionManifestFetch_obeys :
    Obeys rule (fun version later => Saw later .manifest version)
      (sessionManifestFetch : Op Hash (Version ETag Bytes)) log := by
  refine (getObject_obeys (.manifest : Key Hash) .other).bind fun result later _ read => ?_
  refine foundOr_obeys.bind fun version last grown present => ?_
  refine Obeys.require_bind fun _ => Obeys.done ?_
  exact .inl ⟨.other, grown.subset (read version present)⟩

theorem sessionCandidateFetch_obeys (hash : Hash) :
    Obeys rule (fun result later => ∀ version ∈ result, Saw later (.candidate hash) version)
      (sessionCandidateFetch hash) log := by
  refine Obeys.require_bind fun _ => ?_
  refine (getObject_obeys (.candidate hash) .other).bind fun result later _ read => ?_
  cases result with
  | none => exact Obeys.done (by simp)
  | some version =>
    refine Obeys.require_bind fun _ => Obeys.done fun other same => ?_
    cases same
    exact .inl ⟨.other, read version rfl⟩

variable {α β : Type}

def Quiet (program : Op Hash α) : Prop :=
  ∀ log, Obeys ReadsOnly Anything program log

namespace Quiet

theorem done (value : α) : Quiet (.done value : Op Hash α) := fun _ => trivial

theorem fail (error : Err) : Quiet (.fail error : Op Hash α) := fun _ => trivial

theorem bind {first : Op Hash α} {next : α → Op Hash β} (quiet : Quiet first)
    (rest : ∀ value, Quiet (next value)) : Quiet (first >>= next) :=
  fun log => (quiet log).bind fun value later _ _ => rest value later

theorem attempt {first : Op Hash α} {next : Except Err α → Op Hash β} (quiet : Quiet first)
    (rest : ∀ result, Quiet (next result)) : Quiet (first.attempt >>= next) :=
  fun log => (quiet log).attempt (fun value later _ _ => rest (.ok value) later)
    fun error later _ => rest (.error error) later

theorem orKeep {σ : Type} {first : Op Hash α} {state : σ} {next : α → Op Hash (σ × Except Err β)}
    (quiet : Quiet first) (rest : ∀ value, Quiet (next value)) :
    Quiet (first.orKeep state next) :=
  fun log => (quiet log).orKeep (fun _ _ _ => trivial) fun value later _ _ => rest value later

theorem require (condition : Prop) [Decidable condition] (error : Err) :
    Quiet (Prog.require condition error : Op Hash Unit) :=
  fun _ => Obeys.require fun _ => trivial

theorem ofExcept (result : Except Err α) : Quiet (Prog.ofExcept result : Op Hash α) :=
  fun _ => (ofExcept_obeys result).mono fun _ _ _ _ => trivial

theorem foundOr (missing : Err) (result : Option α) :
    Quiet (Session.foundOr missing result : Op Hash α) :=
  fun _ => foundOr_obeys.mono fun _ _ _ _ => trivial

theorem ite {condition : Prop} [Decidable condition] {yes no : Op Hash α} (quietYes : Quiet yes)
    (quietNo : Quiet no) : Quiet (if condition then yes else no) := by
  split
  · exact quietYes
  · exact quietNo

theorem askExcept {query : Query} {result : Reply query → Except Err α} :
    Quiet (.call (.ask query) fun answer => Prog.ofExcept (result answer) : Op Hash α) :=
  fun _ => askExcept_obeys

theorem timestamp : Quiet (Session.timestamp : Op Hash Nat) := fun _ => timestamp_obeys

theorem currentTime (failure : Err) : Quiet (Session.currentTime failure : Op Hash Nat) :=
  fun _ => currentTime_obeys

theorem getObject (key : Key Hash) (site : Site Hash) : Quiet (Session.getObject key site) :=
  fun _ => (getObject_obeys key site).mono fun _ _ _ _ => trivial

theorem sessionReadHead (binding : Binding) (site : Site Hash) :
    Quiet (Session.sessionReadHead binding site) :=
  fun _ => (sessionReadHead_obeys binding site).mono fun _ _ _ _ => trivial

theorem sessionFetchCheckpoint (sessionId : SessionId) (scopeHash hash : Hash) :
    Quiet (Session.sessionFetchCheckpoint sessionId scopeHash hash) :=
  fun _ => (sessionFetchCheckpoint_obeys sessionId scopeHash hash).mono fun _ _ _ _ => trivial

theorem obeys {program : Op Hash α} (quiet : Quiet program) {call : Call Hash}
    {start : Container Hash} : Obeys (Permit call start) Anything program log := by
  refine (quiet log).weaken fun later request allowed => ?_
  cases request with
  | put key condition blob => exact allowed.elim
  | get key site => exact PermitsReads.get later key site
  | ask query => exact PermitsReads.ask later query

end Quiet

variable [ManifestCodec]

theorem fetchManifest_quiet : Quiet (fetchManifest : Op Hash Manifest) :=
  (Quiet.getObject _ _).bind fun _ => (Quiet.foundOr _ _).bind fun _ => .ofExcept _

omit [ManifestCodec] in
theorem sessionAcceptedTip_quiet (binding : Binding) :
    Quiet (sessionAcceptedTip binding : Op Hash (Tip Hash)) := by
  refine (Quiet.sessionReadHead binding _).bind fun result => ?_
  cases result with
  | none => exact .done _
  | some stored =>
    exact (Quiet.require _ _).bind fun _ => (Quiet.require _ _).bind fun _ => .done _

omit [ManifestCodec] in
theorem rehydrateCheckpoint_quiet (binding : Binding) (head : Head Hash) (first : Bool)
    (upper : Nat) (hash : Hash) : Quiet (rehydrateCheckpoint binding head first upper hash) :=
  (Quiet.sessionFetchCheckpoint _ _ _).bind fun _ => (Quiet.foundOr _ _).bind fun _ =>
    (Quiet.require _ _).bind fun _ => (Quiet.require _ _).bind fun _ =>
      (Quiet.require _ _).bind fun _ => .done _

omit [ManifestCodec] in
theorem rehydrateChain_quiet (binding : Binding) (head : Head Hash) (remaining : Nat)
    (seen : List Hash) (upper : Nat) (hash : Hash) :
    Quiet (rehydrateChain binding head remaining seen upper hash) := by
  induction remaining generalizing seen upper hash with
  | zero => exact (Quiet.require _ _).bind fun _ => .fail _
  | succ remaining ih =>
    refine (Quiet.require _ _).bind fun _ => ?_
    refine (rehydrateCheckpoint_quiet binding head _ upper hash).bind fun checkpoint => ?_
    exact .ite (.done _) ((ih _ _ _).bind fun _ => .done _)

theorem rehydrateBase_quiet (context : Context Hash) : Quiet (rehydrateBase context) :=
  fetchManifest_quiet.bind fun _ => (Quiet.require _ _).bind fun _ => Quiet.askExcept.bind fun _ =>
    .done _

theorem rehydrateOverlay_quiet (binding : Binding) (context : Context Hash) (head : Head Hash) :
    Quiet (rehydrateOverlay binding context head) := by
  refine (Quiet.require _ _).bind fun _ => (Quiet.currentTime _).bind fun _ =>
    (Quiet.require _ _).bind fun _ => (Quiet.require _ _).bind fun _ => ?_
  refine fetchManifest_quiet.bind fun _ => (Quiet.require _ _).bind fun _ => ?_
  refine (rehydrateChain_quiet binding head _ _ _ _).bind fun _ => ?_
  exact (Quiet.ofExcept _).bind fun _ => (Quiet.ofExcept _).bind fun _ =>
    (Quiet.require _ _).bind fun _ => Quiet.askExcept.bind fun _ => .done _

theorem sessionRehydrate_quiet (binding : Binding) (context : Context Hash) :
    Quiet (sessionRehydrate binding context) := by
  refine (Quiet.sessionReadHead binding _).bind fun result => ?_
  cases result with
  | none => exact rehydrateBase_quiet context
  | some stored => exact rehydrateOverlay_quiet binding context _

theorem attachSession_quiet (sessionId : SessionId) (container : Container Hash) :
    Quiet (attachSession sessionId container) := by
  unfold attachSession
  split
  · exact (Quiet.require _ _).bind fun _ => (Quiet.require _ _).bind fun _ =>
      (Quiet.require _ _).bind fun _ => .done _
  · exact fetchManifest_quiet.bind fun _ => .done _

omit [ManifestCodec] in
theorem releaseSession_quiet (man : Manifest) (container : Container Hash) :
    Quiet (releaseSession man container) :=
  .ite (Quiet.askExcept.orKeep fun _ => .done _) (.done _)

omit [ManifestCodec] in
theorem detachSession_quiet (sessionId : SessionId) (container : Container Hash) :
    Quiet (detachSession sessionId container) := by
  unfold detachSession
  split
  · exact .done _
  · exact .ite (.done _) (.ite (.done _) (releaseSession_quiet _ _))

theorem attachBind_quiet (binding : Binding) (operationId : Hash) (man : Manifest) :
    Quiet (attachBind binding operationId man) :=
  (sessionAcceptedTip_quiet binding).bind fun _ => (Quiet.ofExcept _).bind fun _ =>
    sessionRehydrate_quiet binding _

/-- A scoped attach reads the session but never changes it. -/
theorem attachSessionScoped_quiet (binding : Binding) (operationId : Hash)
    (container : Container Hash) : Quiet (attachSessionScoped binding operationId container) := by
  refine (Quiet.require _ _).orKeep fun _ => ?_
  refine (attachSession_quiet binding.sessionId container).orKeep fun owned => ?_
  refine (attachBind_quiet binding operationId owned.1).attempt fun result => ?_
  cases result with
  | ok bound => exact .done _
  | error error => exact (releaseSession_quiet _ _).bind fun _ => .done _

omit [ManifestCodec] in
theorem withRetry_quiet {body : Container Hash → Op Hash (ApiOut Hash Unit)}
    (quiet : ∀ container, Quiet (body container)) (remaining : Nat) (container : Container Hash) :
    Quiet (withRetry body remaining container) := by
  induction remaining generalizing container with
  | zero => exact quiet container
  | succ remaining ih =>
    refine (quiet container).bind fun result => ?_
    dsimp only
    split
    · exact ih _
    · exact .done _

theorem pollContainer_quiet (container : Container Hash) : Quiet (pollContainer container) := by
  unfold pollContainer
  split
  · exact .done _
  · exact .ite (.done _)
      (fetchManifest_quiet.orKeep fun _ => Quiet.askExcept.orKeep fun _ => .done _)

theorem poll_quiet (container : Container Hash) : Quiet (poll container) :=
  withRetry_quiet pollContainer_quiet _ container

theorem attach_quiet (container : Container Hash) : Quiet (attach container) :=
  fetchManifest_quiet.orKeep fun _ => .ite (.done _) (.done _)

omit [ManifestCodec] in
theorem detach_quiet (container : Container Hash) : Quiet (detach container) := by
  unfold detach
  split
  · exact .done _
  · exact (Quiet.require _ _).orKeep fun _ => (Quiet.require _ _).orKeep fun _ =>
      Quiet.askExcept.orKeep fun _ => (Quiet.require _ _).orKeep fun _ => .done _

end RusqDoltlite.Session

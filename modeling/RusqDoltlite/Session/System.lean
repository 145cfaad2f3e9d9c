import RusqDoltlite.Session.Attach
import RusqDoltlite.Session.Finalize

/-! The calls on one container alias, and the system of any number of such aliases, in any
number of processes, over one object store. -/

namespace RusqDoltlite.Session

open Effects

variable {Hash : Type} [DecidableEq Hash] [Digest Hash]

/-- The calls that runs are made of. A write stands for any change of the local block
mapping; the pragmas name the database of the handle they run through and whether it has a
transaction open. The raw `sqlite3_bcvfs_session_put`, the cleanup, the query of an
operation's status and a rehydration outside the scoped attach are not among them. -/
inductive Call (Hash : Type) where
  | attachScoped (binding : Binding) (operationId : Hash)
  | detachScoped (sessionId : SessionId)
  | checkpoint (sessionId : SessionId)
  | accept (sessionId : SessionId)
  | sessionUpload (sessionId : SessionId)
  | finalize (sessionId : SessionId)
  | attach
  | detach
  | openHandle
  | closeHandle
  | write (dbs : List ManifestDb) (walFiles : List String) (fileSize : Option Nat)
  | upload
  | poll
  | pragmaUpload (dbId : Nat) (inTransaction : Bool)
  | pragmaPoll (inTransaction : Bool)
deriving DecidableEq, Repr

def maxAuthRetries : Nat := 10

def uploadCondition (etag : Option ETag) : Condition ETag :=
  match etag with
  | some etag => .tagged etag
  | none => .always

def bcvfsUpload [ManifestCodec] (only : Option Nat) (container : Container Hash) :
    Op Hash (ApiOut Hash Unit) :=
  match container.man with
  | none => .done (container, .error ⟨.error, "no such container: " ++ container.name⟩)
  | some man =>
    let chosen := man.uploadSet container.walFiles only
    if chosen = [] then
      .done (container, .ok ())
    else
      (prepareUpload man chosen).orKeep container fun uploaded =>
      (putObject .manifest (uploadCondition man.etag) (ManifestCodec.compose uploaded)).orKeep
        container fun etag =>
      (mergeLocal man uploaded).orKeep container fun dbs =>
      .done ({ container with man := some { uploaded with dbs := dbs, etag := some etag } }, .ok ())

/-- The retry loops of `bcvfsUploadWithRetry` and `bcvfsPollContainer`, without an
authentication-refresh callback. -/
def withRetry (body : Container Hash → Op Hash (ApiOut Hash Unit)) :
    Nat → Container Hash → Op Hash (ApiOut Hash Unit)
  | 0, container => body container
  | remaining + 1, container => do
      let (after, outcome) ← body container
      match outcome with
      | .error ⟨.httpAuthError, _⟩ => withRetry body remaining after
      | _ => .done (after, outcome)

def upload [ManifestCodec] (container : Container Hash) : Op Hash (ApiOut Hash Unit) :=
  if container.man.isSome ∧ container.sessionId.isSome then
    .done (container, .error
      ⟨.auth, "session container requires explicit fenced publication: " ++ container.name⟩)
  else
    bcvfsUpload none container

def pragmaUpload [ManifestCodec] (dbId : Nat) (inTransaction : Bool) (container : Container Hash) :
    Op Hash (ApiOut Hash Unit) :=
  if inTransaction then
    .done (container, .error ⟨.busy, ""⟩)
  else
    withRetry (bcvfsUpload (some dbId)) (maxAuthRetries - 1) container

def pollContainer [ManifestCodec] (container : Container Hash) : Op Hash (ApiOut Hash Unit) :=
  match container.man with
  | none => .done (container, .error ⟨.error, "no such container: " ++ container.name⟩)
  | some man =>
    if container.sessionId.isSome then
      .done (container, .error
        ⟨.busy, "cannot poll a session-owned request overlay: " ++ container.name⟩)
    else
      fetchManifest.orKeep container fun fetched =>
      (manifestUpdate man fetched).orKeep container fun merged =>
      .done ({ container with man := some { merged with etag := fetched.etag } }, .ok ())

def poll [ManifestCodec] (container : Container Hash) : Op Hash (ApiOut Hash Unit) :=
  withRetry pollContainer (maxAuthRetries - 1) container

def pragmaPoll [ManifestCodec] (inTransaction : Bool) (container : Container Hash) :
    Op Hash (ApiOut Hash Unit) :=
  if inTransaction then .done (container, .error ⟨.busy, ""⟩) else poll container

/-- `sqlite3_bcvfs_attach` without flags. The manifest is fetched before the alias is
looked up. -/
def attach [ManifestCodec] (container : Container Hash) : Op Hash (ApiOut Hash Unit) :=
  fetchManifest.orKeep container fun man =>
  if container.man.isSome then
    .done (container, .error ⟨.busy,
      (if container.sessionId.isSome then "container alias is owned by a session: "
        else "container already attached: ") ++ container.name⟩)
  else
    .done ({ Container.free container.name with man := some man }, .ok ())

def detach (container : Container Hash) : Op Hash (ApiOut Hash Unit) :=
  match container.man with
  | none => .done (container, .error ⟨.error, "no such container: " ++ container.name⟩)
  | some man =>
    (Prog.require (container.sessionId = none)
        ⟨.busy, "container is owned by a session: " ++ container.name⟩).orKeep container fun _ =>
  (Prog.require (container.clients = 0)
      ⟨.busy, "container is still in use: " ++ container.name⟩).orKeep container fun _ =>
  (localChanges man).orKeep container fun dirty =>
  (Prog.require (dirty = false)
      ⟨.busy, "container has local changes: " ++ container.name⟩).orKeep container fun _ =>
  .done (.free container.name, .ok ())

/-- A write through an open handle: the mapping of the attached databases, the WAL files
and, for a session, the tracked size change; the manifest's ETag does not. A write that
stages a block at the watermark also puts an attempt marker, which only the cleanup reads;
that request is left out. -/
def localWrite (dbs : List ManifestDb) (walFiles : List String) (fileSize : Option Nat)
    (container : Container Hash) : Container Hash :=
  { container with
    man := container.man.map fun man => { man with dbs := dbs }
    walFiles := walFiles
    context := container.context.map fun context => { context with writeFileSize := fileSize } }

def api [ManifestCodec] : Call Hash → Container Hash → Op Hash (ApiOut Hash Unit)
  | .attachScoped binding operationId, container =>
    attachSessionScoped binding operationId container
  | .detachScoped sessionId, container => detachSession sessionId container
  | .checkpoint sessionId, container => do
      let (after, outcome) ← sessionCheckpoint sessionId container
      .done (after, outcome.map fun _ => ())
  | .accept sessionId, container => sessionAccept sessionId container
  | .sessionUpload sessionId, container => sessionUpload sessionId container
  | .finalize sessionId, container => sessionFinalize sessionId container
  | .attach, container => attach container
  | .detach, container => detach container
  | .openHandle, container => .done ({ container with clients := container.clients + 1 }, .ok ())
  | .closeHandle, container => .done ({ container with clients := container.clients - 1 }, .ok ())
  | .write dbs walFiles fileSize, container =>
    .done (localWrite dbs walFiles fileSize container, .ok ())
  | .upload, container => upload container
  | .poll, container => poll container
  | .pragmaUpload dbId inTransaction, container => pragmaUpload dbId inTransaction container
  | .pragmaPoll inTransaction, container => pragmaPoll inTransaction container

section
variable (Hash)

abbrev Pool := Effects.Pool (Key Hash) Blob ETag (Site Hash) Query Err Reply (Container Hash)
  (Call Hash) Unit

abbrev System := Effects.System (Key Hash) Blob ETag (Site Hash) Query Err Reply (Container Hash)
  (Call Hash) Unit

abbrev Admission := Objects Hash → Event (Req Hash) (Ans Hash) → Prop

end

/-- The system of all clients, restricted to calls that satisfy `starts` and to served
requests that satisfy `admits`. -/
def clients [ManifestCodec] (starts : Container Hash → Call Hash → Prop)
    (admits : Admission Hash) : System Hash :=
  ⟨api, starts, admits⟩

instance [ManifestCodec] (starts : Container Hash → Call Hash → Prop) (admits : Admission Hash)
    [∀ state call, Decidable (starts state call)] (state : Container Hash) (call : Call Hash) :
    Decidable ((clients starts admits).starts state call) :=
  inferInstanceAs (Decidable (starts state call))

instance [ManifestCodec] (starts : Container Hash → Call Hash → Prop) (admits : Admission Hash)
    [∀ store event, Decidable (admits store event)] (store : Objects Hash)
    (event : Event (Req Hash) (Ans Hash)) : Decidable ((clients starts admits).admits store event) :=
  inferInstanceAs (Decidable (admits store event))

def Returns (pool : Pool Hash) (pid : Nat) (call : Call Hash) (start : Container Hash) : Prop :=
  ∃ after log, pool.clients pid = .busy call start (.done (after, .ok ())) log

def returned (pool : Pool Hash) (pid : Nat) (call : Call Hash) : Option (Container Hash) :=
  match pool.clients pid with
  | .busy current start (.done (_, .ok ())) _ => if current = call then some start else none
  | _ => none

theorem returned_sound {pool : Pool Hash} {pid : Nat} {call : Call Hash} {start : Container Hash}
    (found : returned pool pid call = some start) : Returns pool pid call start := by
  unfold returned at found
  split at found
  · rename_i current begun after log busy
    obtain ⟨rfl, rfl⟩ : current = call ∧ begun = start := by simpa using found
    exact ⟨after, log, busy⟩
  · cases found

def Pool.initial (store : Objects Hash) (names : Nat → String) : Pool Hash :=
  ⟨store, fun pid => .idle (.free (names pid))⟩

/-- The container before its first session: only `manifest.bcv` may exist. -/
def Objects.fresh (store : Objects Hash) : Prop :=
  ∀ key, key ≠ .manifest → store.versions key = []

end RusqDoltlite.Session

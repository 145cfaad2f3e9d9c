import RusqDoltlite.Session.FreeDigest
import RusqDoltlite.Session.Stored

/-! Who replaces `manifest.bcv`, and from what: the session publisher under a publication
head that names the bytes and their base, and the ordinary upload. -/

namespace RusqDoltlite.Session

open Effects

variable {Hash : Type} [DecidableEq Hash] [Digest Hash]

section

/-- A PUT of `manifest.bcv` comes from the session publisher, which has seen or written a
publication head naming the bytes. -/
def FencedPut (call : Call Hash) (log : OpLog Hash) : Req Hash → Prop
  | .put .manifest condition bytes => call.publishes = true ∧ Fenced log condition bytes
  | _ => True

/-- The upload pragma has nothing to do: a transaction is open, or the database of its
handle is not in the upload set. -/
def PragmaIdle (container : Container Hash) : Call Hash → Prop
  | .pragmaUpload dbId inTransaction => inTransaction = true ∨
      ∀ man ∈ container.man, man.uploadSet container.walFiles (some dbId) = []
  | _ => True

variable [ManifestCodec] {container : Container Hash}

theorem pragmaUpload_issues {dbId : Nat} {man : Manifest} (attached : container.man = some man)
    (chosen : man.uploadSet container.walFiles (some dbId) ≠ []) :
    ∃ condition bytes later, Issues (pragmaUpload dbId false container) []
      (.put .manifest condition bytes) later := by
  have issued : Issues (bcvfsUpload (some dbId) container) []
      (.put .manifest (uploadCondition man.etag) (ManifestCodec.compose man))
      [⟨.ask (.prepareUpload man (man.uploadSet container.walFiles (some dbId))), .ok man⟩] := by
    rw [bcvfsUpload, attached]
    dsimp only
    rw [if_neg chosen]
    exact .after (.ok man) .now
  exact ⟨_, _, _, issued.bind⟩

/-- On a session container every manifest PUT of a call is fenced exactly when the call is
not an upload pragma with something to upload. -/
theorem session_puts_fenced_iff (session : container.sessionId.isSome = true) (call : Call Hash) :
    (∀ request later, Issues (api call container) [] request later → FencedPut call later request) ↔
      PragmaIdle container call := by
  constructor
  · intro fenced
    cases call with
    | pragmaUpload dbId inTransaction =>
      by_contra busy
      obtain ⟨outside, man, attached, chosen⟩ : inTransaction = false ∧ ∃ man,
          container.man = some man ∧ man.uploadSet container.walFiles (some dbId) ≠ [] := by
        simpa [PragmaIdle] using busy
      subst outside
      obtain ⟨condition, bytes, later, issued⟩ := pragmaUpload_issues attached chosen
      exact Bool.noConfusion (fenced _ _ issued).1
    | _ => trivial
  · intro idle request later issued
    have permit := (api_obeys call container).issues issued
    match request, permit with
    | .put .manifest condition bytes, .inl fenced => exact fenced
    | .put .manifest condition bytes, .inr plain =>
      cases call with
      | upload => rw [show container.sessionId = none from plain] at session; cases session
      | pragmaUpload dbId inTransaction =>
        obtain ⟨outside, man, attached, chosen⟩ := plain
        rcases idle with inside | empty
        · rw [outside] at inside; cases inside
        · exact absurd (empty man attached) chosen
      | _ => exact plain.elim
    | .put (.candidate _) _ _, _ => trivial
    | .put (.head _) _ _, _ => trivial
    | .put (.checkpoint _ _) _ _, _ => trivial
    | .put (.history _ _) _ _, _ => trivial
    | .put .publication _ _, _ => trivial
    | .get _ _, _ => trivial
    | .ask _, _ => trivial

end

section publication
variable {store : Objects Hash}

omit [DecidableEq Hash] [Digest Hash] in
theorem Call.not_plain {call : Call Hash} (publishes : call.publishes = true)
    (start : Container Hash) : ¬call.plain start := by
  cases call with
  | sessionUpload _ => exact id
  | finalize _ => exact id
  | _ => cases publishes

def ReplacesBase (store : Objects Hash) (bytes : Bytes) : Prop :=
  ∃ publication ∈ store.versions .publication,
    publication.blob.record.body.candidateManifestHash = Digest.manifest bytes ∧
    (store.current .manifest).map Version.etag =
      some publication.blob.record.body.baseManifestETag

theorem Fenced.replacesBase {admits : Admission Hash} {log : OpLog Hash}
    {condition : Condition ETag} {bytes : Bytes} (fenced : Fenced log condition bytes)
    (traced : Traced admits store log) (admitted : store.Admits .manifest condition) :
    ReplacesBase store bytes := by
  obtain ⟨publication, saw, named, rfl⟩ := fenced
  exact ⟨publication, traced.held saw, named, admitted⟩

/-- In every run, a manifest PUT of a session publisher that takes effect replaces the base
recorded for its candidate, and a committed publication head names bytes that have been
the manifest. -/
theorem publisher_replaces_base [ManifestCodec] {names : Nat → String} {pool : Pool Hash}
    (fresh : store.fresh)
    (run : Run (clients (fun _ _ => True) (fun _ _ => True)) (Pool.initial store names) pool) :
    (∀ pid call start condition version next log after,
      pool.clients pid = .busy call start (.call (.put .manifest condition version.blob) next) log →
        call.publishes = true → pool.store.Writes .manifest condition version after →
          ReplacesBase pool.store version.blob) ∧
      ∀ publication ∈ pool.store.versions .publication,
        publication.blob.record.state = .committed →
          Held pool.store publication.blob.record.body.candidateManifestHash := by
  have holds := (storedCertificate_initial fresh names).run run
  refine ⟨?_, fun publication member committed => ?_⟩
  · intro pid call start condition version next log after busy publishes writes
    have good := holds.good pid
    rw [busy] at good
    obtain ⟨traced, permit, _⟩ := good
    rcases permit with ⟨_, fenced⟩ | plain
    · exact fenced.replacesBase traced writes.1
    · exact absurd plain (Call.not_plain publishes start)
  · rcases (holds.inv.filed .publication publication member).2.2 with ⟨pending, _⟩ | ⟨_, held⟩
    · rw [committed] at pending
      cases pending
    · exact held

end publication

section paused

/-- A session container is about to publish, and the PUT would take effect. -/
def aboutToReplace (pool : Pool Tree) (_ : List (Key Tree)) : Bool :=
  match pool.clients 1 with
  | .busy (.finalize _) start (.call (.put .manifest condition _) _) _ =>
    start.sessionId.isSome = true ∧ pool.store.Admits .manifest condition ∧
      ∀ old ∈ pool.store.versions .manifest, old.etag ≠ letters 1
  | _ => false

theorem finalize_aboutToReplace :
    (schedule (clients (fun _ _ => True) (fun _ _ => True)) stillService
      (invocation 1 oneBinding (.leaf 10) 2 (.finalize oneSession) 18)
      (Pool.initial oneBlock fun _ => "main", [])).any
        (fun last => aboutToReplace last.1 last.2) = true := by
  decide +kernel

theorem publisher_replaces_base_paused :
    ∃ (pool : Pool Tree) (version : Version ETag Bytes) (after : Objects Tree),
      Run (clients (fun _ _ => True) (fun _ _ => True))
        (Pool.initial oneBlock fun _ => "main") pool ∧
      (∃ condition, pool.store.Writes .manifest condition version after) ∧
      ReplacesBase pool.store version.blob := by
  obtain ⟨pool, _, run, _, found⟩ := schedule_reaches aboutToReplace finalize_aboutToReplace
  unfold aboutToReplace at found
  split at found
  · rename_i owner start condition bytes next log busy
    obtain ⟨_, admits, unused⟩ := of_decide_eq_true found
    have writes : pool.store.Writes .manifest condition ⟨letters 1, bytes⟩
        (pool.store.write .manifest ⟨letters 1, bytes⟩) :=
      ⟨admits, fun old member same => absurd same (unused old member), rfl⟩
    exact ⟨pool, _, _, run, ⟨condition, writes⟩,
      (publisher_replaces_base oneBlock_fresh run).1 1 (.finalize owner) start condition _ next log
        _ busy rfl writes⟩
  · cases found

theorem session_puts_fenced_paused :
    ∃ (container : Container Tree) (sessionId : SessionId) (condition : Condition ETag) (bytes : Bytes)
      (later : OpLog Tree), container.sessionId.isSome = true ∧
      Issues (api (.finalize sessionId) container) [] (.put .manifest condition bytes) later ∧
      FencedPut (.finalize sessionId) later (.put .manifest condition bytes) := by
  obtain ⟨pool, _, run, _, found⟩ := schedule_reaches aboutToReplace finalize_aboutToReplace
  unfold aboutToReplace at found
  split at found
  · rename_i owner start condition bytes next log busy
    obtain ⟨session, _, _⟩ := of_decide_eq_true found
    have issued : Issues (api (.finalize owner) start) [] (.put .manifest condition bytes) log :=
      busy_issues (fun pid => ⟨_, rfl⟩) run busy
    exact ⟨start, owner, condition, bytes, log, session, issued,
      (session_puts_fenced_iff session (.finalize owner)).mpr trivial _ _ issued⟩
  · cases found

end paused

section unfenced

def uploadsUnfenced (pool : Pool Tree) (_ : List (Key Tree)) : Bool :=
  (returned pool 1 (.pragmaUpload 1 false)).any fun start =>
    start.sessionId = some oneSession ∧
      (pool.store.versions .manifest).map Version.blob = [[2], [1]] ∧
      pool.store.versions .publication = []

theorem pragma_uploadsUnfenced :
    (schedule (clients (fun _ _ => True) (fun _ _ => True)) stillService
      (invocation 1 oneBinding (.leaf 10) 2 (.pragmaUpload 1 false) 100)
      (Pool.initial oneBlock fun _ => "main", [])).any
        (fun last => uploadsUnfenced last.1 last.2) = true := by
  decide +kernel

/-- An attached session writes a block and runs the upload pragma: `manifest.bcv` is
replaced without a publication head. -/
theorem session_manifest_replaced_unfenced :
    ∃ (pool : Pool Tree) (start : Container Tree),
      Run (clients (fun _ _ => True) (fun _ _ => True))
        (Pool.initial oneBlock fun _ => "main") pool ∧
      Returns pool 1 (.pragmaUpload 1 false) start ∧ start.sessionId = some oneSession ∧
      (pool.store.versions .manifest).map Version.blob = [[2], [1]] ∧
      pool.store.versions .publication = [] := by
  obtain ⟨pool, _, run, _, found⟩ := schedule_reaches uploadsUnfenced pragma_uploadsUnfenced
  obtain ⟨start, returns, rest⟩ := (Option.any_eq_true _ _).mp found
  exact ⟨pool, start, run, returned_sound returns, of_decide_eq_true rest⟩

end unfenced

end RusqDoltlite.Session

import RusqDoltlite.Codec.ManifestParse
import RusqDoltlite.Effects.Pool

/-! `sqlite3_bcv_create_if_not_exists`, by any number of callers on one container. Results are SQLite
codes and HTTP statuses. -/

namespace RusqDoltlite.Cloud

open Effects
open Session (Bytes)

inductive CreateKey where
  | manifest
  | keyValue
  deriving DecidableEq

inductive CreateQuery where
  | createBucket
  | deleteKeyValue

structure CreateCall where
  szName : Int
  szBlock : Int
  testNoKv : Bool

abbrev CreateM (ETag : Type) := Prog (Request CreateKey (fun _ => Bytes) ETag Unit CreateQuery)
  (Answer Int fun _ : CreateQuery => Except Int Unit) Int

variable {ETag : Type}

section

variable (parse : Bytes → Except Int Unit) (compose : Int → Int → Bytes) (emptyKv : Bytes)

def manifestFetchParsed : CreateM ETag Unit :=
  .call (.get .manifest ()) fun
    | .ok (some version) => .ofExcept (parse version.blob)
    | .ok none => .fail 404
    | .error rc => .fail rc

def manifestUploadIfNotExists (manifest : Bytes) : CreateM ETag Unit :=
  .call (.put .manifest .absent manifest) fun
    | .ok _ => .done ()
    | .error rc => .fail rc

/-- A conflict means that another caller has created the bucket. -/
def createBucket : CreateM ETag Unit :=
  .call (.ask .createBucket) fun
    | .ok _ => .done ()
    | .error rc => Prog.require (rc = 409) rc

def createManifest (manifest : Bytes) : CreateM ETag Unit :=
  (manifestUploadIfNotExists manifest).attempt >>= fun
    | .ok _ => .done ()
    | .error _ => createBucket >>= fun _ => manifestUploadIfNotExists manifest

/-- For a test the key-value object is removed instead, and need not be there. -/
def uploadKeyValue (testNoKv : Bool) : CreateM ETag Unit :=
  if testNoKv then .call (.ask .deleteKeyValue) fun
    | .ok _ => .done ()
    | .error rc => Prog.require (rc = 404) rc
  else .call (.put .keyValue .always emptyKv) fun
    | .ok _ => .done ()
    | .error rc => .fail rc

def createIfNotExists (call : CreateCall) : CreateM ETag Unit :=
  let szName := if call.szName ≤ 0 then 16 else call.szName
  let szBlock := if call.szBlock ≤ 0 then 4194304 else call.szBlock
  Prog.require (12 ≤ szName ∧ szName ≤ 32) 25 >>= fun _ =>
  (manifestFetchParsed parse).attempt >>= fun
    | .ok _ => .fail 19
    | .error rc =>
      Prog.require (rc = 404 ∨ 500 ≤ rc) rc >>= fun _ =>
      createManifest (compose szName szBlock) >>= fun _ =>
      uploadKeyValue emptyKv call.testNoKv

/-- Each client makes one call; its state says whether the call returned `SQLITE_OK`. -/
def creators : System CreateKey (fun _ => Bytes) ETag Unit CreateQuery Int
    (fun _ => Except Int Unit) (Option Bool) CreateCall Unit where
  body call _ := (createIfNotExists parse compose emptyKv call).attempt >>= fun result =>
    .done (some result.toBool, result)
  starts state _ := state = none
  admits _ _ := True

end

abbrev CreateLog (ETag : Type) := Log (Request CreateKey (fun _ => Bytes) ETag Unit CreateQuery)
  (Answer Int fun _ : CreateQuery => Except Int Unit)

abbrev Creating (ETag : Type) := Client CreateKey (fun _ => Bytes) ETag Unit CreateQuery Int
  (fun _ => Except Int Unit) (Option Bool) CreateCall Unit

abbrev CreatePool (ETag : Type) := Pool CreateKey (fun _ => Bytes) ETag Unit CreateQuery Int
  (fun _ => Except Int Unit) (Option Bool) CreateCall Unit

def Told (log : CreateLog ETag) : Prop :=
  ∃ blob etag, ⟨.put .manifest .absent blob, .ok etag⟩ ∈ log

/-- The client's call returned `SQLITE_OK`, or will not return before it has been told. -/
def Creating.Created : Creating ETag → Prop
  | .idle state => state = some true
  | .busy _ start _ log => start = some true ∨ Told log

/-- Manifests are only created, and the key-value object follows the manifest. -/
def CreateRule (log : CreateLog ETag) (request : Request CreateKey (fun _ => Bytes) ETag Unit CreateQuery) :
    Prop :=
  (∀ condition blob, request = .put .manifest condition blob → condition = .absent) ∧
    ∀ condition blob, request = .put .keyValue condition blob → Told log

theorem manifestUpload_obeys (manifest : Bytes) (log : CreateLog ETag) :
    Obeys CreateRule (fun _ => Told) (manifestUploadIfNotExists manifest) log := by
  refine ⟨⟨fun _ _ same => by cases same; rfl, nofun⟩, fun answer => ?_⟩
  cases answer with
  | ok etag => exact ⟨manifest, etag, List.mem_cons_self⟩
  | error rc => trivial

theorem createManifest_obeys (manifest : Bytes) (log : CreateLog ETag) :
    Obeys CreateRule (fun _ => Told) (createManifest manifest) log := by
  refine Obeys.attempt (manifestUpload_obeys manifest log) (fun _ _ _ told => told) fun _ later _ => ?_
  have bucket : Obeys CreateRule (fun _ _ => True) createBucket later := by
    refine ⟨⟨nofun, nofun⟩, fun answer => ?_⟩
    cases answer with
    | ok _ => trivial
    | error rc => exact Obeys.require fun _ => trivial
  exact bucket.bind fun _ last _ _ => manifestUpload_obeys manifest last

theorem createIfNotExists_obeys (parse : Bytes → Except Int Unit) (compose : Int → Int → Bytes)
    (emptyKv : Bytes) (call : CreateCall) :
    Obeys CreateRule (fun _ => Told) (createIfNotExists parse compose emptyKv call : CreateM ETag Unit) [] := by
  apply Obeys.require_bind
  intro _
  have fetch : Obeys CreateRule (fun _ _ => True) (manifestFetchParsed parse : CreateM ETag Unit) [] := by
    refine ⟨⟨nofun, nofun⟩, fun answer => ?_⟩
    rcases answer with rc | _ | version
    · trivial
    · trivial
    · dsimp only
      cases parse version.blob <;> trivial
  refine Obeys.attempt fetch (fun _ _ _ _ => trivial) fun rc later _ => Obeys.require_bind fun _ => ?_
  refine (createManifest_obeys _ later).bind fun _ last _ told => ?_
  unfold uploadKeyValue
  have grown (event) : Told (event :: last) := told.imp fun _ => .imp fun _ => List.mem_cons_of_mem _
  split
  · refine ⟨⟨nofun, nofun⟩, fun answer => ?_⟩
    cases answer with
    | ok _ => exact grown _
    | error rc => exact Obeys.require fun _ => grown _
  · refine ⟨⟨nofun, fun _ _ _ => told⟩, fun answer => ?_⟩
    cases answer with
    | ok _ => exact grown _
    | error rc => trivial

section

variable (parse : Bytes → Except Int Unit) (compose : Int → Int → Bytes) (emptyKv : Bytes)

def creators_keep : Certificate (creators parse compose emptyKv : System _ _ ETag _ _ _ _ _ _ _) where
  inv _ := True
  rule _ _ := CreateRule
  post _ _ result log := result.1 = some true → Told log
  body_obeys _ := Obeys.attempt (createIfNotExists_obeys parse compose emptyKv _)
    (fun _ _ _ told _ => told) (fun _ _ _ same => by cases same)
  step_inv _ _ _ _ _ := trivial

variable {parse compose emptyKv} {pool next : CreatePool ETag}

theorem created_back (holds : (creators_keep parse compose emptyKv).Holds pool)
    (step : Step (creators parse compose emptyKv) pool next) {pid : Nat}
    (created : Creating.Created (next.clients pid)) :
    Creating.Created (pool.clients pid) ∨ pool.store.versions .manifest = [] ∧
      next.store.versions .manifest ≠ [] ∧ ∀ other ≠ pid, next.clients other = pool.clients other := by
  cases step with
  | start moved call idle starts =>
    by_cases same : pid = moved
    · subst same
      rw [Pool.setClient_self] at created
      rw [idle]
      exact .inl (created.resolve_right fun ⟨_, _, member⟩ => List.not_mem_nil member)
    · rw [Pool.setClient_other _ same] at created
      exact .inl created
  | @serve moved call start request continuation log answer after busy served admits =>
    by_cases same : pid = moved
    · subst same
      rw [Pool.setClient_self] at created
      rw [busy]
      rcases created with start | ⟨blob, etag, member⟩
      · exact .inl (.inl start)
      · rcases List.mem_cons.mp member with now | before
        · cases now
          refine .inr ⟨List.head?_eq_none_iff.mp served.1, ?_, fun other apart => Pool.setClient_other _ apart _⟩
          rw [Pool.setClient, served.created]
          exact List.cons_ne_nil _ _
        · exact .inl (.inr ⟨blob, etag, before⟩)
    · rw [Pool.setClient_other _ same] at created
      exact .inl created
  | @finish moved call start state outcome log busy =>
    by_cases same : pid = moved
    · subst same
      rw [Pool.setClient_self] at created
      have good := holds.good pid
      rw [busy] at good ⊢
      exact .inl (.inr (good.2 created))
    · rw [Pool.setClient_other _ same] at created
      exact .inl created
  | abort moved busy =>
    by_cases same : pid = moved
    · subst same
      rw [Pool.setClient_self] at created
      rw [busy]
      exact .inl (.inl created)
    · rw [Pool.setClient_other _ same] at created
      exact .inl created

structure Lone (pool : CreatePool ETag) : Prop where
  held : ∀ pid, Creating.Created (pool.clients pid) → pool.store.versions .manifest ≠ []
  one : ∀ first second, Creating.Created (pool.clients first) → Creating.Created (pool.clients second) →
    first = second

theorem Lone.step (lone : Lone pool) (holds : (creators_keep parse compose emptyKv).Holds pool)
    (step : Step (creators parse compose emptyKv) pool next) : Lone next := by
  constructor
  · intro pid created
    rcases created_back holds step created with old | new
    · intro empty
      exact lone.held pid old (List.suffix_nil.mp (empty ▸ step.grows .manifest))
    · exact new.2.1
  · intro first second one two
    rcases created_back holds step one with old | ⟨empty, _, others⟩
    · rcases created_back holds step two with old' | ⟨empty, _, _⟩
      · exact lone.one first second old old'
      · exact absurd empty (lone.held first old)
    · by_contra apart
      rw [others second (Ne.symm apart)] at two
      exact lone.held second two empty

theorem manifest_step (holds : (creators_keep parse compose emptyKv).Holds pool)
    (step : Step (creators parse compose emptyKv) pool next) :
    next.store.versions .manifest = pool.store.versions .manifest ∨
      pool.store.versions .manifest = [] ∧ ∃ version, next.store.versions .manifest = [version] := by
  rcases holds.writes step with same | ⟨_, _, _, _, _, key, condition, version, _, _, allowed, writes⟩
  · rw [same]
    exact .inl rfl
  · cases key with
    | keyValue => exact .inl (writes.versions_other (by decide))
    | manifest =>
      obtain rfl := allowed.1 condition _ rfl
      exact .inr ⟨List.head?_eq_none_iff.mp writes.1, version, writes.created⟩

/-- In every run the manifest is created at most once and never replaced, one call at most returns
`SQLITE_OK`, and the key-value object is written only by a call that has created the manifest. -/
theorem create_once {store : Store CreateKey (fun _ => Bytes) ETag}
    (run : Run (creators parse compose emptyKv) ⟨store, fun _ => .idle none⟩ pool) :
    (pool.store.versions .manifest = store.versions .manifest ∨
      store.versions .manifest = [] ∧ ∃ version, pool.store.versions .manifest = [version]) ∧
    (∀ first second, pool.clients first = .idle (some true) → pool.clients second = .idle (some true) →
      first = second) ∧
    ∀ next, Step (creators parse compose emptyKv) pool next →
      next.store.versions .keyValue ≠ pool.store.versions .keyValue →
      ∀ pid, next.clients pid ≠ pool.clients pid →
        ∃ call start program log, pool.clients pid = .busy call start program log ∧ Told log := by
  have start : (creators_keep parse compose emptyKv).Holds ⟨store, fun _ => .idle none⟩ :=
    ⟨trivial, fun _ => trivial⟩
  have holds := start.run run
  refine ⟨?_, ?_, ?_⟩
  · clear holds
    induction run with
    | refl => exact .inl rfl
    | tail before step ih =>
      rcases manifest_step (start.run before) step with same | ⟨empty, created⟩
      · rwa [same]
      · right
        rcases ih with same | ⟨_, version, held⟩
        · exact ⟨same.symm.trans empty, created⟩
        · cases held.symm.trans empty
  · have lone : Lone pool := by
      clear holds
      induction run with
      | refl => exact ⟨nofun, nofun⟩
      | tail before step ih => exact ih.step (start.run before) step
    intro first second one two
    exact lone.one first second (by rw [one]; rfl) (by rw [two]; rfl)
  · intro next step changed pid moved
    rcases holds.writes step with same | ⟨writer, call, start, program, log, key, condition, version, busy,
      only, allowed, writes⟩
    · exact absurd (by rw [same]) changed
    · obtain rfl := (only pid).mp moved
      cases key with
      | manifest => exact absurd (writes.versions_other (by decide)) changed
      | keyValue => exact ⟨call, start, program, log, busy, allowed.2 condition _ rfl⟩

end

instance (parse : Bytes → Except Int Unit) (compose : Int → Int → Bytes) (emptyKv : Bytes)
    (state : Option Bool) (call : CreateCall) :
    Decidable ((creators parse compose emptyKv : System _ _ Nat _ _ _ _ _ _ _).starts state call) :=
  inferInstanceAs (Decidable (state = none))

instance (parse : Bytes → Except Int Unit) (compose : Int → Int → Bytes) (emptyKv : Bytes)
    (store : Store CreateKey (fun _ => Bytes) Nat) (event) :
    Decidable ((creators parse compose emptyKv : System _ _ Nat _ _ _ _ _ _ _).admits store event) :=
  isTrue trivial

def emptyManifest (szName szBlock : Int) : Bytes :=
  let man : Codec.StoredManifest := ⟨szBlock.toNat, szName.toNat, 0, [], []⟩
  man.core ++ man.trailer

def parseCode (blob : Bytes) : Except Int Unit :=
  match Codec.manifestParse blob with
  | .ok _ => .ok ()
  | .error _ => .error 11

/-- Two callers find no manifest, one of them creates it, and a third caller finds it. -/
def threeCreators : List (Action CreateCall) :=
  [.start 0 ⟨0, 0, false⟩, .start 1 ⟨12, 65536, false⟩, .serve 0 1, .serve 1 1, .serve 0 5, .finish 0,
    .serve 1 5, .finish 1, .start 2 ⟨0, 0, true⟩, .serve 2 1, .finish 2]

def blobsOf (pool : CreatePool Nat) (key : CreateKey) : List Bytes :=
  (pool.store.versions key).map Version.blob

theorem create_once_threeCreators :
    ∃ pool : CreatePool Nat,
      Run (creators parseCode emptyManifest [1]) ⟨⟨fun _ => []⟩, fun _ => .idle none⟩ pool ∧
      (blobsOf pool .manifest = [emptyManifest 16 4194304] ∧ blobsOf pool .keyValue = [[1]]) ∧
      ∀ first second, pool.clients first = .idle (some true) → pool.clients second = .idle (some true) →
        first = second := by
  have done : (schedule (creators parseCode emptyManifest [1]) ⟨id, 412, fun _ => .ok ()⟩ threeCreators
      ((⟨⟨fun _ => []⟩, fun _ => .idle none⟩ : CreatePool Nat), [])).any
        (fun last => decide (blobsOf last.1 .manifest = [emptyManifest 16 4194304] ∧
          blobsOf last.1 .keyValue = [[1]])) = true := by decide +kernel
  obtain ⟨pool, _, run, _, created⟩ := schedule_reaches (fun pool _ =>
    decide (blobsOf pool .manifest = [emptyManifest 16 4194304] ∧ blobsOf pool .keyValue = [[1]])) done
  exact ⟨pool, run, of_decide_eq_true created, (create_once run).2.1⟩

end RusqDoltlite.Cloud

import RusqDoltlite.Cloud.UriLaws

/-! `CloudConnectionUri::identity` against the objects that the opened containers address. -/

namespace RusqDoltlite.Cloud

open Session Codec S3 Wire

def CloudUri.container (uri : CloudUri) : Bytes :=
  if uri.keyPrefix = [] then uri.bucket else uri.bucket ++ slash :: uri.keyPrefix

def CloudStorage.keyed : CloudStorage → Keyed
  | .google _ _ => .google
  | .s3 _ _ _ _ => .s3

def CloudUri.params (uri : CloudUri) : List (Bytes × Option Bytes) :=
  (match uri.storage with
    | .google _ _ => (ascii "api", some (ascii "json"))
    | .s3 region _ _ _ => (regionKey, some region)) ::
    (uri.endpoint.map fun endpoint => (endpointKey, some endpoint)).toList

def CloudStorage.account : CloudStorage → Bytes × Bytes
  | .google project accessToken => (project, accessToken)
  | .s3 _ accessId authSecret _ => (accessId, authSecret)

def CloudUri.handle (uri : CloudUri) : Except Err Handle :=
  uri.storage.keyed.openContainer uri.params uri.storage.account.1 uri.storage.account.2 uri.container

variable {ipv6 : Bytes → Bool} {text scheme : Bytes} {uri uri' : CloudUri} {options : Options}

theorem parse_eq_ok (parsed : parse ipv6 text = .ok uri) :
    ∃ scheme rest place options, splitScheme text = some (scheme, rest) ∧
      parseLocation (rest.takeWhile (· != 0x3f)) = .ok place ∧
      readOptions (rest.dropWhile (· != 0x3f)).tail = .ok options ∧
      parseOptions ipv6 scheme place.1 place.2 text options = .ok uri := by
  rw [parse] at parsed
  cases split : splitScheme text with
  | none =>
    rw [split] at parsed
    cases parsed
  | some parts =>
    rw [split] at parsed
    simp only [bind_eq_ok] at parsed
    obtain ⟨_, _, _, _, _, _, place, located, options, read, parsed⟩ := parsed
    exact ⟨parts.1, parts.2, place, options, rfl, located, read, parsed⟩

theorem parseLocation_bucket {location : Bytes} {place : Bytes × Bytes}
    (located : parseLocation location = .ok place) : slash ∉ place.1 := by
  rw [parseLocation, bind_eq_ok] at located
  obtain ⟨_, _, located⟩ := located
  simp only [bind_eq_ok] at located
  obtain ⟨_, _, _, _, ⟨⟩⟩ := located
  exact not_mem_takeWhile_ne slash location

theorem parseOptions_place {bucket keyPrefix : Bytes}
    (parsed : parseOptions ipv6 scheme bucket keyPrefix text options = .ok uri) :
    uri.bucket = bucket ∧ uri.keyPrefix = keyPrefix := by
  rw [parseOptions_eq_ok] at parsed
  obtain ⟨_, _, _, _, _, finished⟩ := parsed
  obtain ⟨_, _, _, _, _, _, rfl⟩ := finish_eq_ok.mp finished
  exact ⟨rfl, rfl⟩

theorem parse_bucket (parsed : parse ipv6 text = .ok uri) : slash ∉ uri.bucket := by
  obtain ⟨_, _, _, _, _, located, _, parsed⟩ := parse_eq_ok parsed
  rw [(parseOptions_place parsed).1]
  exact parseLocation_bucket located

theorem container_inj (plain : slash ∉ uri.bucket) (plain' : slash ∉ uri'.bucket) :
    uri.container = uri'.container ↔ uri.bucket = uri'.bucket ∧ uri.keyPrefix = uri'.keyPrefix := by
  constructor
  · intro same
    unfold CloudUri.container at same
    split at same <;> split at same
    · next empty empty' => exact ⟨same, empty.trans empty'.symm⟩
    · rw [same] at plain
      simp at plain
    · rw [← same] at plain'
      simp at plain'
    · exact (append_cons_inj plain plain' _ _).mp same
  · intro both
    rw [CloudUri.container, CloudUri.container, both.1, both.2]

theorem Options.remove_other {key key' : Bytes} (other : key ≠ key') (options : Options) :
    ((options.remove key').2.remove key).1 = (options.remove key).1 := by
  have tests : (fun option : Bytes × Bytes => decide ((option.1 != key') = true ∧ (option.1 == key) = true)) =
      fun option => option.1 == key := by
    funext option
    by_cases same : option.1 = key
    · simp [same, other]
    · simp [same]
  simp only [remove, List.find?_filter, tests]

def credentialKeys : List Bytes := [accessTokenKey, accessIdKey, secretAccessKey, sessionTokenKey]

def scopeKey (scheme : Bytes) : Bytes := if scheme = gcsScheme then projectKey else regionKey

theorem parseS3_eq_ok {storage : CloudStorage × Options} (parsed : parseS3 options = .ok storage) :
    (options.remove regionKey).1 = some storage.1.scope.2 ∧ storage.1.scope.1 = s3Scheme ∧
      storage.2 = ((((options.remove regionKey).2.remove accessIdKey).2.remove secretAccessKey).2.remove
        sessionTokenKey).2 := by
  rw [parseS3, bind_eq_ok] at parsed
  obtain ⟨region, found, parsed⟩ := parsed
  simp only [bind_eq_ok] at parsed
  obtain ⟨_, _, _, _, _, _, ⟨⟩⟩ := parsed
  exact ⟨(require_eq_ok.mp found).1, rfl, rfl⟩

theorem parseStorage_eq_ok {storage : CloudStorage × Options}
    (parsed : parseStorage scheme options = .ok storage) :
    storage.1.scope = (if scheme = gcsScheme then gcsScheme else s3Scheme,
      (options.remove (scopeKey scheme)).1.getD []) ∧
      ∀ key ∉ scopeKey scheme :: credentialKeys, (storage.2.remove key).1 = (options.remove key).1 := by
  unfold parseStorage at parsed
  unfold scopeKey
  split at parsed
  · next google =>
      obtain ⟨project, accessToken, found, _, _, _, rfl⟩ := parseGoogle_eq_ok.mp parsed
      rw [if_pos google, if_pos google, found]
      refine ⟨rfl, fun key outside => ?_⟩
      rw [Options.remove_other (fun same => outside (by simp [same, credentialKeys])),
        Options.remove_other (fun same => outside (by simp [same]))]
  · next amazon =>
      obtain ⟨found, provider, rest⟩ := parseS3_eq_ok parsed
      rw [if_neg amazon, if_neg amazon, found, rest]
      refine ⟨Prod.ext provider rfl, fun key outside => ?_⟩
      rw [Options.remove_other (fun same => outside (by simp [same, credentialKeys])),
        Options.remove_other (fun same => outside (by simp [same, credentialKeys])),
        Options.remove_other (fun same => outside (by simp [same, credentialKeys])),
        Options.remove_other (fun same => outside (by simp [same]))]

def identityOf (scheme : Bytes) (place : Bytes × Bytes) (options : Options) : Identity :=
  { provider := if scheme = gcsScheme then gcsScheme else s3Scheme
    storageScope := (options.remove (scopeKey scheme)).1.getD []
    bucket := place.1
    keyPrefix := place.2
    database := (options.remove databaseKey).1.getD defaultDatabase
    endpoint := (options.remove endpointKey).1
    uploadConcurrency := (parseUploadConcurrency (options.remove uploadConcurrencyKey).1).toOption.join }

theorem scopeKey_cases (scheme : Bytes) : scopeKey scheme = projectKey ∨ scopeKey scheme = regionKey := by
  unfold scopeKey
  split
  · exact .inl rfl
  · exact .inr rfl

theorem parseOptions_identity {place : Bytes × Bytes}
    (parsed : parseOptions ipv6 scheme place.1 place.2 text options = .ok uri) :
    uri.identity = identityOf scheme place options := by
  obtain ⟨_, _, _, storage, stored, finished⟩ := parseOptions_eq_ok.mp parsed
  obtain ⟨_, _, _, upload, read, _, rfl⟩ := finish_eq_ok.mp finished
  obtain ⟨scope, rest⟩ := parseStorage_eq_ok stored
  -- None of the options that the identity uses has been taken out before its turn.
  have early : ∀ key, key ≠ vfsKey → key ≠ blockSizeKey →
      ((options.remove vfsKey).2.remove blockSizeKey |>.2.remove key).1 = (options.remove key).1 := by
    intro key vfs block
    rw [Options.remove_other block, Options.remove_other vfs]
  have outside : databaseKey ∉ scopeKey scheme :: credentialKeys ∧ endpointKey ∉ scopeKey scheme :: credentialKeys ∧
      uploadConcurrencyKey ∉ scopeKey scheme :: credentialKeys := by
    rcases scopeKey_cases scheme with scope | scope <;> rw [scope] <;> decide
  have database : (storage.2.remove databaseKey).1 = (options.remove databaseKey).1 := by
    rw [rest _ outside.1, early _ (by decide) (by decide)]
  have endpoint : ((storage.2.remove databaseKey).2.remove endpointKey).1 = (options.remove endpointKey).1 := by
    rw [Options.remove_other (by decide), rest _ outside.2.1, early _ (by decide) (by decide)]
  have concurrency : (((storage.2.remove databaseKey).2.remove endpointKey).2.remove uploadConcurrencyKey).1 =
      (options.remove uploadConcurrencyKey).1 := by
    rw [Options.remove_other (by decide), Options.remove_other (by decide), rest _ outside.2.2,
      early _ (by decide) (by decide)]
  have named : ((options.remove vfsKey).2.remove blockSizeKey |>.2.remove (scopeKey scheme)).1 =
      (options.remove (scopeKey scheme)).1 := by
    apply early <;> rcases scopeKey_cases scheme with scope | scope <;> rw [scope] <;> decide
  rw [concurrency] at read
  simp only [CloudUri.identity, identityOf, scope, database, endpoint, named, read]
  rfl

def SameButCredentials (text text' : Bytes) : Prop :=
  ∃ scheme rest rest' place options options',
    splitScheme text = some (scheme, rest) ∧ splitScheme text' = some (scheme, rest') ∧
    parseLocation (rest.takeWhile (· != 0x3f)) = .ok place ∧
      parseLocation (rest'.takeWhile (· != 0x3f)) = .ok place ∧
    readOptions (rest.dropWhile (· != 0x3f)).tail = .ok options ∧
    readOptions (rest'.dropWhile (· != 0x3f)).tail = .ok options' ∧
    ∀ key ∉ credentialKeys, (options.remove key).1 = (options'.remove key).1

theorem SameButCredentials.identity {text' : Bytes} (parsed : parse ipv6 text = .ok uri)
    (parsed' : parse ipv6 text' = .ok uri') (same : SameButCredentials text text') :
    uri.identity = uri'.identity := by
  obtain ⟨scheme, rest, rest', place, options, options', split, split', located, located', read,
    read', agree⟩ := same
  obtain ⟨_, _, _, _, splitted, located₁, read₁, parsed⟩ := parse_eq_ok parsed
  obtain ⟨_, _, _, _, splitted', located₂, read₂, parsed'⟩ := parse_eq_ok parsed'
  cases split.symm.trans splitted
  cases split'.symm.trans splitted'
  cases located.symm.trans located₁
  cases located'.symm.trans located₂
  cases read.symm.trans read₁
  cases read'.symm.trans read₂
  have scope : scopeKey scheme ∉ credentialKeys := by
    rcases scopeKey_cases scheme with scope | scope <;> rw [scope] <;> decide
  rw [parseOptions_identity parsed, parseOptions_identity parsed', identityOf, identityOf, agree _ scope,
    agree databaseKey (by decide), agree endpointKey (by decide), agree uploadConcurrencyKey (by decide)]

/-- What has to be the same in two URIs for their identities to be compared by their containers. -/
structure SameScope (uri uri' : CloudUri) : Prop where
  scope : uri.storage.scope = uri'.storage.scope
  database : uri.database = uri'.database
  endpoint : uri.endpoint = uri'.endpoint
  uploadConcurrency : uri.uploadConcurrency = uri'.uploadConcurrency

theorem SameScope.selector (same : SameScope uri uri') :
    uri.storage.keyed = uri'.storage.keyed ∧ uri.params = uri'.params := by
  have scope := same.scope
  rw [CloudUri.params, CloudUri.params, same.endpoint]
  cases first : uri.storage <;> cases second : uri'.storage <;> rw [first, second] at scope
  · exact ⟨rfl, rfl⟩
  · cases (Prod.mk.inj scope).1
  · cases (Prod.mk.inj scope).1
  · cases (Prod.mk.inj scope).2
    exact ⟨rfl, rfl⟩

theorem SameScope.identity_eq_iff (same : SameScope uri uri') :
    uri.identity = uri'.identity ↔ uri.bucket = uri'.bucket ∧ uri.keyPrefix = uri'.keyPrefix := by
  simp [CloudUri.identity, same.scope, same.database, same.endpoint, same.uploadConcurrency]

/-- A URI never selects the XML API of Google. -/
theorem handle_xml {handle : Handle} (opened : uri.handle = .ok handle) : handle.xml = false := by
  unfold CloudUri.handle at opened
  cases stored : uri.storage with
  | s3 =>
    rw [stored] at opened
    obtain ⟨_, _, rfl⟩ := map_eq_ok.mp opened
    rfl
  | google =>
    rw [stored] at opened
    obtain ⟨p, open_p, rfl⟩ := map_eq_ok.mp opened
    obtain ⟨_, _, _, settings, read, json⟩ := googleOpen_names open_p
    rw [CloudUri.params, stored] at read
    rw [Handle.xml, json]
    cases chosen : uri.endpoint with
    | none =>
      rw [chosen] at read
      cases read
      rfl
    | some endpoint =>
      rw [chosen] at read
      by_cases empty : endpoint = []
      · rw [empty] at read
        cases read
      · have taken : ∀ earlier : GoogleSettings, earlier.take endpointKey (some endpoint) =
            .ok { earlier with zEndpoint := endpoint } := fun _ => if_neg empty
        simp only [Option.map_some, Option.toList_some, List.foldlM_cons, List.foldlM_nil, taken] at read
        cases read
        rfl

/-- A URI's identity does not depend on its credentials. Identities of URIs with one scope are equal exactly
when the containers give every file the same bucket and key, just if the containers do not differ in a slash
at the end. -/
theorem identity_faithful_iff {ipv6 : Bytes → Bool} {text text' : Bytes} {uri uri' : CloudUri}
    (parsed : parse ipv6 text = .ok uri) (parsed' : parse ipv6 text' = .ok uri') :
    (SameButCredentials text text' → uri.identity = uri'.identity) ∧
    ∀ handle handle', SameScope uri uri' → uri.handle = .ok handle → uri'.handle = .ok handle' →
      ((uri.identity = uri'.identity ↔ ∀ zFile, handle.address zFile = handle'.address zFile) ↔
        ¬SlashApart uri.container uri'.container ∧ ¬SlashApart uri'.container uri.container) := by
  refine ⟨SameButCredentials.identity parsed parsed', fun handle handle' same opened opened' => ?_⟩
  have names := container_inj (parse_bucket parsed) (parse_bucket parsed')
  have plain := handle_xml opened
  rw [CloudUri.handle] at opened opened'
  rw [← same.selector.1, ← same.selector.2] at opened'
  rw [same.identity_eq_iff, ← names, address_eq_iff opened opened', plain, if_neg Bool.false_ne_true,
    canonical_eq_iff_apart]
  exact iff_comm.trans (eq_or_apart_iff uri.container uri'.container)

def sampleText (keyPrefix accessToken : String) : Bytes :=
  ascii "gcs://b/" ++ ascii keyPrefix ++ ascii "?vfs=blockcachevfs&project=x&access_token=" ++
    ascii accessToken

def noAddress (_ : Bytes) : Bool := false

theorem identity_faithful_iff_sample :
    ∃ uri uri' handle handle', parse noAddress (sampleText "p" "s") = .ok uri ∧
      parse noAddress (sampleText "%70" "t") = .ok uri' ∧
      uri.handle = .ok handle ∧ uri'.handle = .ok handle' ∧ uri.identity = uri'.identity ∧
      ∀ zFile, handle.address zFile = handle'.address zFile := by
  refine ⟨_, _, _, _, rfl, rfl, rfl, rfl, rfl, ?_⟩
  have parsed : parse noAddress (sampleText "p" "s") = .ok _ := rfl
  have parsed' : parse noAddress (sampleText "%70" "t") = .ok _ := rfl
  have laws := identity_faithful_iff parsed parsed'
  exact ((laws.2 _ _ ⟨rfl, rfl, rfl, rfl⟩ rfl rfl).mpr (by decide)).mp rfl

/-- A slash at the end of the prefix makes another identity for the same objects. -/
theorem identity_faithful_fails :
    ∃ uri uri' handle handle', parse noAddress (sampleText "p" "s") = .ok uri ∧
      parse noAddress (sampleText "p/" "s") = .ok uri' ∧ SameScope uri uri' ∧
      uri.handle = .ok handle ∧ uri'.handle = .ok handle' ∧ uri.identity ≠ uri'.identity ∧
      ∀ zFile, handle.address zFile = handle'.address zFile :=
  ⟨_, _, _, _, rfl, rfl, ⟨rfl, rfl, rfl, rfl⟩, rfl, rfl, by decide, fun _ => rfl⟩

end RusqDoltlite.Cloud

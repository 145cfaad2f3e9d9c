import RusqDoltlite.Codec.Record
import RusqDoltlite.Codec.Selector

/-! `sqlite3_bcvfs_session_scope_hash` and `sqlite3_bcvfs_session_storage_scope_hash`: the hash a
session is fenced by, over fields behind their lengths. -/

namespace RusqDoltlite.Codec

open Wire Session

def scopeField (field : Bytes) (required : Bool) (message : String) : Except Err Bytes := do
  check ((required = true → field ≠ []) ∧ field.length ≤ maxFieldBytes) .misuse message
  check (field.all printable = true) .misuse message
  .ok (prefixed 4 field)

def scopeTag : Bytes := ascii "BCV-SESSION-SCOPE-V1\x00\x00"

def storageScopeTag : Bytes := ascii "BCV-SESSION-STORAGE-V1\x00\x00"

structure ScopeArguments where
  storage : Bytes
  account : Bytes
  container : Bytes
  principal : Bytes
  database : Bytes
  operations : Bytes

structure ScopeIdentity where
  storage : Bytes
  container : Bytes
  account : Bytes
  principal : Bytes
  database : Bytes
  operations : Bytes
deriving DecidableEq

/-- The identity of the arguments: the storage location in one spelling, without credentials. -/
def ScopeArguments.identity (arguments : ScopeArguments) : Except Err ScopeIdentity := do
  let account ← stableAccount arguments.storage arguments.account
  let storage ← canonicalStorage arguments.storage
  let container ← canonicalContainer arguments.storage arguments.container
  .ok ⟨storage, container, account, arguments.principal, arguments.database, arguments.operations⟩

section
variable {Digest : Type} (sha256 : Bytes → Digest)

def storageFields (identity : ScopeIdentity) : Except Err Bytes := do
  let storage ← scopeField identity.storage true "invalid storage scope"
  let container ← scopeField identity.container true "invalid container scope"
  let account ← scopeField identity.account false "invalid stable account scope"
  .ok (storage ++ (container ++ account))

def scopeHash (arguments : ScopeArguments) : Except Err Digest := do
  let identity ← arguments.identity
  let located ← storageFields identity
  let principal ← scopeField identity.principal true "invalid principal scope"
  let database ← scopeField identity.database true "invalid database scope"
  let operations ← scopeField identity.operations true "invalid operation scope"
  .ok (sha256 (scopeTag ++ (located ++ (principal ++ (database ++ operations)))))

/-- `sqlite3_bcvfs_session_storage_scope_hash`: the strings of the session play no part. -/
def storageScopeHash (arguments : ScopeArguments) : Except Err Digest := do
  let identity ← arguments.identity
  let located ← storageFields identity
  .ok (sha256 (storageScopeTag ++ located))

end

theorem scopeField_eq_ok {field text : Bytes} {required : Bool} {message : String}
    (success : scopeField field required message = .ok text) :
    text = prefixed 4 field ∧ field.length < 256 ^ 4 := by
  simp only [scopeField, check_bind_eq_ok, Except.ok.injEq] at success
  obtain ⟨⟨_, short⟩, _, rfl⟩ := success
  exact ⟨rfl, Nat.lt_of_le_of_lt short (by decide)⟩

structure Located (identity : ScopeIdentity) (text : Bytes) : Prop where
  text_eq : text = prefixed 4 identity.storage ++
    (prefixed 4 identity.container ++ prefixed 4 identity.account)
  storage : identity.storage.length < 256 ^ 4
  container : identity.container.length < 256 ^ 4
  account : identity.account.length < 256 ^ 4

theorem storageFields_eq_ok {identity : ScopeIdentity} {text : Bytes}
    (success : storageFields identity = .ok text) : Located identity text := by
  simp only [storageFields, bind_eq_ok, Except.ok.injEq] at success
  obtain ⟨storage, first, container, second, account, third, rfl⟩ := success
  obtain ⟨rfl, storageSize⟩ := scopeField_eq_ok first
  obtain ⟨rfl, containerSize⟩ := scopeField_eq_ok second
  obtain ⟨rfl, accountSize⟩ := scopeField_eq_ok third
  exact ⟨rfl, storageSize, containerSize, accountSize⟩

theorem Located.inj {first second : ScopeIdentity} {text text' rest rest' : Bytes}
    (one : Located first text) (other : Located second text') (same : text ++ rest = text' ++ rest') :
    first.storage = second.storage ∧ first.container = second.container ∧
      first.account = second.account ∧ rest = rest' := by
  rw [one.text_eq, other.text_eq] at same
  simp only [List.append_assoc] at same
  obtain ⟨storage, same⟩ := prefixed_append_inj one.storage other.storage same
  obtain ⟨container, same⟩ := prefixed_append_inj one.container other.container same
  obtain ⟨account, same⟩ := prefixed_append_inj one.account other.account same
  exact ⟨storage, container, account, same⟩

section
variable {Digest : Type} {sha256 : Bytes → Digest}

theorem scopeHash_eq_ok {arguments : ScopeArguments} {hash : Digest}
    (success : scopeHash sha256 arguments = .ok hash) :
    ∃ identity located, arguments.identity = .ok identity ∧ Located identity located ∧
      identity.principal.length < 256 ^ 4 ∧ identity.database.length < 256 ^ 4 ∧
      identity.operations.length < 256 ^ 4 ∧
      hash = sha256 (scopeTag ++ (located ++ (prefixed 4 identity.principal ++
        (prefixed 4 identity.database ++ prefixed 4 identity.operations)))) := by
  simp only [scopeHash, bind_eq_ok, Except.ok.injEq] at success
  obtain ⟨identity, known, located, fields, principal, first, database, second, operations, third,
    rfl⟩ := success
  obtain ⟨rfl, principalSize⟩ := scopeField_eq_ok first
  obtain ⟨rfl, databaseSize⟩ := scopeField_eq_ok second
  obtain ⟨rfl, operationsSize⟩ := scopeField_eq_ok third
  exact ⟨identity, located, known, storageFields_eq_ok fields, principalSize, databaseSize,
    operationsSize, rfl⟩

theorem scopeHash_inj (collisionFree : Function.Injective sha256) {first second : ScopeArguments}
    {hash : Digest} (one : scopeHash sha256 first = .ok hash)
    (other : scopeHash sha256 second = .ok hash) : first.identity = second.identity := by
  obtain ⟨identity, located, known, fields, principal, database, operations, rfl⟩ :=
    scopeHash_eq_ok one
  obtain ⟨identity', located', known', fields', principal', database', operations', same⟩ :=
    scopeHash_eq_ok other
  have text := List.append_cancel_left (collisionFree same)
  obtain ⟨storageSame, containerSame, accountSame, rest⟩ := fields.inj fields' text
  obtain ⟨principalSame, rest⟩ := prefixed_append_inj principal principal' rest
  obtain ⟨databaseSame, rest⟩ := prefixed_append_inj database database' rest
  have operationsSame : identity.operations = identity'.operations := by
    exact (@prefixed_append_inj 4 _ _ [] [] operations operations' (by rw [rest])).1
  have all : identity = identity' := by
    cases identity
    cases identity'
    simp_all
  rw [known, known', all]

theorem scopeHash_congr {first second : ScopeArguments} (same : first.identity = second.identity) :
    scopeHash sha256 first = scopeHash sha256 second := by
  rw [scopeHash, same]
  rfl

theorem identity_account {arguments : ScopeArguments} {account : Bytes}
    (keyed : providerOf arguments.storage = some .s3 ∨ providerOf arguments.storage = some .google) :
    ({ arguments with account := account } : ScopeArguments).identity = arguments.identity := by
  rcases keyed with provider | provider
  · simp only [ScopeArguments.identity, stableAccount, provider]
  · simp only [ScopeArguments.identity, stableAccount, provider]

/-- The tags differ in a byte, so the two hashes are never of the same text. -/
theorem scopeTag_append_ne (text text' : Bytes) : scopeTag ++ text ≠ storageScopeTag ++ text' := by
  intro same
  have byte : (scopeTag ++ text)[13]? = (storageScopeTag ++ text')[13]? := by rw [same]
  rw [List.getElem?_append_left (by decide), List.getElem?_append_left (by decide)] at byte
  exact absurd byte (by decide)

/-- Two scope hashes are equal exactly when the canonical storage, container and stable account and
the strings of the session are; no scope hash is a storage scope hash; and the account string of S3
and Google plays no part. -/
theorem scopeHash_identifies (collisionFree : Function.Injective sha256) :
    (∀ first second hash hash', scopeHash sha256 first = .ok hash →
      scopeHash sha256 second = .ok hash' →
      (hash = hash' ↔ first.identity = second.identity)) ∧
    (∀ first second hash hash', scopeHash sha256 first = .ok hash →
      storageScopeHash sha256 second = .ok hash' → hash ≠ hash') ∧
    (∀ arguments account,
      providerOf arguments.storage = some .s3 ∨ providerOf arguments.storage = some .google →
      scopeHash sha256 { arguments with account := account } = scopeHash sha256 arguments) := by
  refine ⟨?_, ?_, ?_⟩
  · intro first second hash hash' one other
    constructor
    · rintro rfl
      exact scopeHash_inj collisionFree one other
    · intro same
      rw [scopeHash_congr same, other] at one
      exact (Except.ok.inj one).symm
  · intro first second hash hash' one other same
    obtain ⟨identity, located, _, _, _, _, _, rfl⟩ := scopeHash_eq_ok one
    simp only [storageScopeHash, bind_eq_ok, Except.ok.injEq] at other
    obtain ⟨_, _, text, _, rfl⟩ := other
    exact scopeTag_append_ne _ _ (collisionFree same)
  · intro arguments account keyed
    exact scopeHash_congr (identity_account keyed)

end

def sampleScope (account : String) : ScopeArguments where
  storage := ascii "s3"
  account := ascii account
  container := ascii "b"
  principal := ascii "p"
  database := ascii "d"
  operations := ascii "o"

theorem scopeHash_identifies_sample :
    scopeHash id (sampleScope "x") = scopeHash id (sampleScope "y") ∧
      (scopeHash id (sampleScope "x")).isOk = true :=
  ⟨(scopeHash_identifies Function.injective_id).2.2 (sampleScope "y") _ (.inl (by decide +kernel)),
    by decide +kernel⟩

end RusqDoltlite.Codec

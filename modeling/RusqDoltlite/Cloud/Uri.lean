import RusqDoltlite.S3.Open
import RusqDoltlite.Wire.Percent

/-! Connection URIs: `CloudConnectionUri::parse` and `CloudConnectionUri::gcs`. Strings are their UTF-8
bytes. -/

namespace RusqDoltlite.Cloud

open Session Codec S3 Wire

def isContinuation (byte : UInt8) : Bool := 0x80 ≤ byte && byte ≤ 0xbf

/-- The byte strings `String::from_utf8` takes. -/
def utf8 : Bytes → Bool
  | [] => true
  | a :: rest =>
    if a < 0x80 then utf8 rest
    else
      match rest with
      | [] => false
      | b :: rest =>
        if 0xc2 ≤ a ∧ a ≤ 0xdf then isContinuation b && utf8 rest
        else
          match rest with
          | [] => false
          | c :: rest =>
            if 0xe0 ≤ a ∧ a ≤ 0xef then
              isContinuation b && isContinuation c && (a != 0xe0 || 0xa0 ≤ b) && (a != 0xed || b ≤ 0x9f) &&
                utf8 rest
            else
              match rest with
              | [] => false
              | d :: rest =>
                0xf0 ≤ a && a ≤ 0xf4 && isContinuation b && isContinuation c && isContinuation d &&
                  (a != 0xf0 || 0x90 ≤ b) && (a != 0xf4 || b ≤ 0x8f) && utf8 rest

abbrev Str := { bytes : Bytes // utf8 bytes = true }

def uriError (message : String) : Err := ⟨.misuse, message⟩

def decodeBytes : Bytes → Option Bytes
  | [] => some []
  | byte :: rest =>
    if byte = 0x2b then (decodeBytes rest).map (0x20 :: ·)
    else if byte = Percent.percent then
      match rest with
      | high :: low :: rest =>
        (Percent.escaped high low).bind fun value => (decodeBytes rest).map (value :: ·)
      | _ => none
    else (decodeBytes rest).map (byte :: ·)

def decodeUriComponent (value : Bytes) : Except Err Bytes :=
  match decodeBytes value with
  | none => .error (uriError "invalid percent escape in CBS URI")
  | some decoded =>
    if utf8 decoded then .ok decoded else .error (uriError "CBS URI contains invalid UTF-8")

def percentEncode (value : Bytes) (preserveSlashes : Bool) : Bytes :=
  Percent.encode (fun byte => isAlnum byte || byte == 0x2d || byte == dot || byte == 0x5f || byte == 0x7e ||
    (preserveSlashes && byte == slash)) value

def isControl (byte : UInt8) : Bool := byte < 0x20 || byte == 0x7f

def isWhitespace (byte : UInt8) : Bool :=
  byte == 0x20 || byte == 0x09 || byte == 0x0a || byte == 0x0c || byte == 0x0d

def badPrefix : Err := uriError "invalid CBS bucket or object prefix"

def normalizeCloudPrefix (text : Bytes) : Except Err Bytes :=
  let trailing := text.getLast? == some slash
  let stripped := if trailing then text.dropLast else text
  if text.head? = some slash ∨ stripped.getLast? = some slash ∨
      stripped.any (fun byte => byte == 0x5c || isControl byte) = true ∨ 0x3f ∈ stripped ∨ 0x23 ∈ stripped ∨
      (stripped ≠ [] ∧ ∃ component ∈ stripped.splitOn slash,
        component = [] ∨ component = [dot] ∨ component = [dot, dot]) then .error badPrefix
  else .ok (if trailing ∧ stripped ≠ [] then stripped ++ [slash] else stripped)

def validBucket (bucket : Bytes) : Bool :=
  bucket != [] && bucket.all (fun byte => isAlnum byte || byte == dot || byte == 0x5f || byte == 0x2d) &&
    bucket != [dot] && bucket != [dot, dot]

def validCredential (value : Bytes) : Bool := value != [] && !value.any isControl

def validS3Region (region : Bytes) : Bool :=
  region != [] && region.all (fun byte => isAlnum byte || byte == 0x2d) && region.head? != some 0x2d &&
    region.getLast? != some 0x2d

def lockSuffix : Bytes := ascii "-lock"

def validDatabase (database : Bytes) : Bool :=
  database != [] && !database.any (fun byte => byte == slash || byte == 0x5c || byte == 0 || byte == 0x3f ||
    byte == 0x23) && database != [dot] && database != [dot, dot]

def lockName (database : Bytes) : Bool := database.head? == some dot && lockSuffix.isSuffixOf database

def validPort (port : Bytes) : Bool := port != [] && port.all isDigit

/-- The authority in an endpoint. `ipv6` is the parser of IPv6 addresses. -/
def validAuthority (ipv6 : Bytes → Bool) (authority : Bytes) : Bool :=
  let inner := authority.tail
  let host := authority.takeWhile (· != 0x3a)
  authority != [] && !authority.any isWhitespace &&
    if authority.head? = some 0x5b then
      0x5d ∈ inner && ipv6 (inner.takeWhile (· != 0x5d)) &&
        match (inner.dropWhile (· != 0x5d)).tail with
        | [] => true
        | c :: port => c == 0x3a && validPort port
    else
      authority.count 0x3a ≤ 1 && host != [] && host.all (fun byte => isAlnum byte || byte == dot || byte == 0x2d) &&
        match authority.dropWhile (· != 0x3a) with
        | [] => true
        | _ :: port => validPort port

def validEndpoint (ipv6 : Bytes → Bool) (endpoint : Bytes) : Bool :=
  !endpoint.any (fun byte => byte == 0x40 || byte == 0x3f || byte == 0x23 || byte == 0x26 || byte == 0x25 ||
      byte == 0x5c || isControl byte || isWhitespace byte) &&
    match splitScheme endpoint with
    | some parts => (parts.1 == http || parts.1 == https) && validAuthority ipv6 (authorityOf parts.2)
    | none => false

def parseU32 (value : Bytes) : Option Nat :=
  let number := value.foldl (fun n c => n * 10 + (c.toNat - 0x30)) 0
  if value ≠ [] ∧ value.all isDigit = true ∧ number < 2 ^ 32 then some number else none

inductive CloudStorage where
  | google (project accessToken : Bytes)
  | s3 (region accessId authSecret : Bytes) (credentialsToRedact : List Bytes)
deriving DecidableEq, Repr

structure CloudUri where
  bucket : Bytes
  keyPrefix : Bytes
  database : Bytes
  storage : CloudStorage
  endpoint : Option Bytes
  uploadConcurrency : Option Nat
  uri : Bytes
  blockSize : Option Nat
deriving DecidableEq, Repr

abbrev Options := List (Bytes × Bytes)

def Options.remove (options : Options) (key : Bytes) : Option Bytes × Options :=
  ((options.find? (·.1 == key)).map (·.2), options.filter (·.1 != key))

def Options.insert (options : Options) (parameter : Bytes) : Except Err Options := do
  if parameter = [] then .ok options
  else
    let key ← decodeUriComponent (parameter.takeWhile (· != 0x3d))
    let value ← decodeUriComponent (parameter.dropWhile (· != 0x3d)).tail
    check (options.any (·.1 == key) = false) .misuse "duplicate CBS URI option"
    .ok (options ++ [(key, value)])

def parseLocation (location : Bytes) : Except Err (Bytes × Bytes) := do
  let bucket := location.takeWhile (· != slash)
  let encoded := (location.dropWhile (· != slash)).tail
  let decoded ← decodeUriComponent encoded
  check (validBucket bucket = true) .misuse "invalid CBS bucket or object prefix"
  let keyPrefix ← normalizeCloudPrefix decoded
  .ok (bucket, keyPrefix)

def parseBlockSize : Option Bytes → Except Err (Option Nat)
  | none => .ok none
  | some value =>
    match parseU32 value with
    | none => .error (uriError "invalid CBS block_size")
    | some size =>
      if 32768 ≤ size ∧ size < 2 ^ 31 ∧ size = 2 ^ size.log2 then .ok (some size)
      else .error (uriError "invalid CBS block_size")

def parseUploadConcurrency : Option Bytes → Except Err (Option Nat)
  | none => .ok none
  | some value =>
    match parseU32 value with
    | none => .error (uriError "upload_concurrency must be a decimal integer between 1 and i32::MAX")
    | some count =>
      if count = 0 ∨ 2 ^ 31 ≤ count then
        .error (uriError "upload_concurrency must be between 1 and i32::MAX")
      else .ok (some count)

def gcsScheme : Bytes := ascii "gcs"

def s3Scheme : Bytes := ascii "s3"

def vfsKey : Bytes := ascii "vfs"

def blockcachevfs : Bytes := ascii "blockcachevfs"

def projectKey : Bytes := ascii "project"

def accessTokenKey : Bytes := ascii "access_token"

def databaseKey : Bytes := ascii "database"

def endpointKey : Bytes := ascii "endpoint"

def blockSizeKey : Bytes := ascii "block_size"

def uploadConcurrencyKey : Bytes :=
  ascii "upload_concurrency"

def regionKey : Bytes := ascii "region"

def accessIdKey : Bytes := ascii "access_id"

def secretAccessKey : Bytes :=
  ascii "secret_access_key"

def sessionTokenKey : Bytes := ascii "session_token"

def require (value : Option Bytes) (test : Bytes → Bool) (message : String) : Except Err Bytes :=
  match value.filter test with
  | some value => .ok value
  | none => .error (uriError message)

def parseGoogle (options : Options) : Except Err (CloudStorage × Options) := do
  let project := options.remove projectKey
  let projectValue ← require project.1 (· != []) "GCS URI requires a non-empty project"
  let token := project.2.remove accessTokenKey
  let tokenValue ← require token.1 validCredential "GCS URI requires a valid access_token"
  .ok (.google projectValue tokenValue, token.2)

def parseS3 (options : Options) : Except Err (CloudStorage × Options) := do
  let region := options.remove regionKey
  let regionValue ← require region.1 validS3Region "S3 URI requires a valid region"
  let access := region.2.remove accessIdKey
  let accessId ← require access.1 validCredential "S3 URI requires a non-empty access_id"
  let secret := access.2.remove secretAccessKey
  let secretKey ← require secret.1 validCredential "S3 URI requires a non-empty secret_access_key"
  let session := secret.2.remove sessionTokenKey
  check (session.1.all validCredential = true) .misuse "invalid S3 session_token"
  -- Neither part has a newline, as both passed the test for credentials.
  let authSecret := (session.1.map fun token => secretKey ++ newline :: token).getD secretKey
  .ok (.s3 regionValue accessId authSecret ([accessId, secretKey] ++ session.1.toList ++ [authSecret]), session.2)

def parseStorage (scheme : Bytes) (options : Options) : Except Err (CloudStorage × Options) :=
  if scheme = gcsScheme then parseGoogle options else parseS3 options

def defaultDatabase : Bytes := ascii "default.db"

def finish (ipv6 : Bytes → Bool) (base : CloudUri) (options : Options) : Except Err CloudUri := do
  let database := options.remove databaseKey
  let databaseValue := database.1.getD defaultDatabase
  check (validDatabase databaseValue = true) .misuse "invalid CBS database name"
  check (lockName databaseValue = false) .misuse
    "CBS database names matching .<name>-lock are reserved for lock files"
  let endpoint := database.2.remove endpointKey
  check (endpoint.1.all (validEndpoint ipv6) = true) .misuse
    "CBS endpoint must be an HTTP(S) base URL without credentials, query, or fragment"
  let upload := endpoint.2.remove uploadConcurrencyKey
  let uploadConcurrency ← parseUploadConcurrency upload.1
  check (upload.2 = []) .misuse "unsupported CBS URI option"
  .ok { base with database := databaseValue, endpoint := endpoint.1, uploadConcurrency }

def parseOptions (ipv6 : Bytes → Bool) (scheme bucket keyPrefix uri : Bytes) (options : Options) :
    Except Err CloudUri := do
  let vfs := options.remove vfsKey
  check (vfs.1 = some blockcachevfs) .misuse "CBS URI must select vfs=blockcachevfs"
  let block := vfs.2.remove blockSizeKey
  let blockSize ← parseBlockSize block.1
  let storage ← parseStorage scheme block.2
  finish ipv6 { bucket, keyPrefix, database := [], storage := storage.1, endpoint := none,
                uploadConcurrency := none, uri, blockSize } storage.2

def readOptions (query : Bytes) : Except Err Options :=
  (query.splitOn 0x26).foldlM Options.insert []

def parse (ipv6 : Bytes → Bool) (uri : Bytes) : Except Err CloudUri :=
  match splitScheme uri with
  | none => .error (uriError "expected a gcs:// or s3:// URI")
  | some parts => do
      check (parts.1 = gcsScheme ∨ parts.1 = s3Scheme) .misuse "expected a gcs:// or s3:// URI"
      check (0x3f ∈ parts.2) .misuse "CBS URI query is required"
      check (0x23 ∉ parts.2) .misuse "CBS URI fragments are not supported"
      let location ← parseLocation (parts.2.takeWhile (· != 0x3f))
      let options ← readOptions (parts.2.dropWhile (· != 0x3f)).tail
      parseOptions ipv6 parts.1 location.1 location.2 uri options

def gcsText (bucket keyPrefix project accessToken database : Str) (endpoint : Option Str) : Bytes :=
  ascii "gcs://" ++ percentEncode bucket.1 false ++ slash :: percentEncode keyPrefix.1 true ++
    ascii "?vfs=blockcachevfs&project=" ++ percentEncode project.1 false ++
    ascii "&access_token=" ++ percentEncode accessToken.1 false ++
    ascii "&database=" ++ percentEncode database.1 false ++
    ((endpoint.map fun endpoint => ascii "&endpoint=" ++ percentEncode endpoint.1 false).getD [])

def gcsUri (ipv6 : Bytes → Bool) (bucket keyPrefix project accessToken database : Str) (endpoint : Option Str) :
    Except Err CloudUri :=
  parse ipv6 (gcsText bucket keyPrefix project accessToken database endpoint)

structure Identity where
  provider : Bytes
  storageScope : Bytes
  bucket : Bytes
  keyPrefix : Bytes
  database : Bytes
  endpoint : Option Bytes
  uploadConcurrency : Option Nat
deriving DecidableEq, Repr

def CloudStorage.scope : CloudStorage → Bytes × Bytes
  | .google project _ => (gcsScheme, project)
  | .s3 region _ _ _ => (s3Scheme, region)

def CloudUri.identity (uri : CloudUri) : Identity :=
  { provider := uri.storage.scope.1, storageScope := uri.storage.scope.2, bucket := uri.bucket,
    keyPrefix := uri.keyPrefix, database := uri.database, endpoint := uri.endpoint,
    uploadConcurrency := uri.uploadConcurrency }

end RusqDoltlite.Cloud

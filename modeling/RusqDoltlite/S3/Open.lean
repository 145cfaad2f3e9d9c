import RusqDoltlite.Codec.Endpoint

/-! The S3 module of the cloud layer: `bcvS3Open` and the checks it makes on a configuration. -/

namespace RusqDoltlite.S3

open Wire Session Codec

def slash : UInt8 := 0x2f

def newline : UInt8 := 0x0a

def dot : UInt8 := 0x2e

structure Container where
  zAccessKey : Bytes
  zSecretKey : Bytes
  zSessionToken : Option Bytes
  zRegion : Bytes
  zBucket : Bytes
  zPrefix : Bytes
  zScheme : Bytes
  zHost : Bytes
  zBasePath : Bytes
  zCreateBody : Option Bytes := none
  bPathStyle : Bool
  nMaxResults : Nat
deriving DecidableEq, Repr

def isLower (c : UInt8) : Bool := 0x61 ≤ c && c ≤ 0x7a

def isAlnum (c : UInt8) : Bool := isUpper c || isLower c || isDigit c

def urlSafe (c : UInt8) : Bool := isAlnum c || c == 0x2d || c == 0x5f || c == dot || c == 0x7e

def validText (text : Bytes) (bSlash : Bool) : Bool :=
  text != [] && text.all fun c => !(c < 0x20 || c == 0x7f || (!bSlash && c == slash))

def validPathSegments (text : Bytes) : Bool :=
  (text.splitOn slash).all fun segment => segment != [dot] && segment != [dot, dot]

def validRegion (text : Bytes) : Bool :=
  validText text false && text.all fun c => isAlnum c || c == 0x2d || c == dot

def dotsApart : Bytes → Bool
  | a :: b :: rest => !(a == dot && b == dot) && dotsApart (b :: rest)
  | _ => true

def validDnsBucket (text : Bytes) : Bool :=
  3 ≤ text.length && text.length ≤ 63 && validText text false &&
    text.head?.any (fun c => isLower c || isDigit c) &&
    text.getLast?.any (fun c => isLower c || isDigit c) &&
    text.all (fun c => isLower c || isDigit c || c == 0x2d || c == dot) && dotsApart text

/-- `bcvParseInt` on a whole string. The C `int` wraps. -/
def parseInt (text : Bytes) : Int :=
  (text.takeWhile isDigit).foldl (fun value c => (value * 10 + (c.toNat - 0x30)).bmod (2 ^ 32)) 0

def usEast1 : Bytes := ascii "us-east-1"

structure Settings where
  zEndpoint : Option Bytes := none
  zRegion : Bytes := usEast1
  nMaxResults : Nat := 1000

def message (text : Bytes) : String := String.ofList (text.map fun c => Char.ofNat c.toNat)

def Settings.take (settings : Settings) (key : Bytes) : Option Bytes → Except Err Settings
  | none => .error ⟨.error, "missing value for S3 parameter " ++ message key⟩
  | some value =>
    if key.map lower = ascii "endpoint" then .ok { settings with zEndpoint := some value }
    else if key.map lower = ascii "region" then .ok { settings with zRegion := value }
    else if key.map lower = ascii "maxresults" then
      if parseInt value ≤ 0 then .error ⟨.error, "S3 maxresults must be positive"⟩
      else .ok { settings with nMaxResults := (parseInt value).toNat }
    else .error ⟨.error, "bad S3 parameter \"" ++ message key ++
      "\" - must be \"endpoint\", \"region\" or \"maxresults\""⟩

structure Location where
  zScheme : Bytes
  zHost : Bytes
  zBasePath : Bytes
  bPathStyle : Bool
deriving DecidableEq, Repr

/-- The AWS endpoint. The wildcard certificate does not cover a bucket name with a dot as a label of
the host, so such a bucket goes into the path. -/
def awsLocation (zBucket zRegion : Bytes) : Location :=
  if dot ∈ zBucket then
    { zScheme := https, zHost := ascii "s3." ++ zRegion ++ dot :: amazon, zBasePath := [],
      bPathStyle := true }
  else
    { zScheme := https, zHost := zBucket ++ ascii ".s3." ++ zRegion ++ dot :: amazon,
      zBasePath := [], bPathStyle := false }

/-- An endpoint of the configuration. Its path is kept as it is, but for slashes at the end. What is refused
here is reported as a failed allocation: the fields that were not set are taken for one. -/
def endpointLocation (zEndpoint : Bytes) : Except Err Location := do
  check (validText zEndpoint true = true ∧ 0x20 ∉ zEndpoint) .nomem
    "S3 endpoint may not contain control characters"
  match splitScheme zEndpoint with
  | none => .error ⟨.nomem, "S3 endpoint must be an http(s) URL without a query"⟩
  | some parts => do
      check ((parts.1 = http ∨ parts.1 = https) ∧ 0x3f ∉ zEndpoint ∧ 0x23 ∉ zEndpoint) .nomem
        "S3 endpoint must be an http(s) URL without a query"
      check (authorityOf parts.2 ≠ [] ∧ 0x40 ∉ authorityOf parts.2) .nomem
        "S3 endpoint must include a host and no credentials"
      .ok { zScheme := parts.1, zHost := authorityOf parts.2,
            zBasePath := (pathOf parts.2).rdropWhile (· == slash), bPathStyle := true }

def locate (zEndpoint : Option Bytes) (zBucket zRegion : Bytes) : Except Err Location :=
  match zEndpoint with
  | none => .ok (awsLocation zBucket zRegion)
  | some zEndpoint => endpointLocation zEndpoint

def checkSecret (zSecret : Bytes) : Except Err Unit := do
  let zToken := (zSecret.dropWhile (· != newline)).tail?
  check (zSecret ≠ []) .error "S3 secret key may not be empty"
  check (∀ token ∈ zToken, zSecret.takeWhile (· != newline) ≠ [] ∧ token ≠ []) .error
    "S3 temporary credentials require non-empty secret and session token"
  check (∀ token ∈ zToken, newline ∉ token) .error
    "S3 temporary credentials may contain only one newline"
  check (zSecret.all (fun c => !(c == 0x0d || c == 0x7f || (c < 0x20 && c != newline))) = true) .error
    "S3 secret key may not contain control characters"

def checkContainer (zContainer : Bytes) : Except Err Unit := do
  let zSlash := (zContainer.dropWhile (· != slash)).tail?
  check (validText zContainer true = true ∧ zContainer.head? ≠ some slash) .error
    "invalid S3 bucket/container"
  check (validPathSegments zContainer = true) .error
    "S3 bucket/container may not contain '.' or '..' path segments"
  check (¬(zSlash.isSome = true ∧ zContainer.head? = some slash)) .error "S3 bucket may not be empty"
  check (∀ rest ∈ zSlash, rest.head? ≠ some slash) .error "S3 prefix may not begin with a slash"

def prefixOf (zContainer : Bytes) : Bytes :=
  match zContainer.dropWhile (· != slash) with
  | _ :: c :: rest =>
    if (c :: rest).getLast? = some slash then c :: rest else c :: rest ++ [slash]
  | _ => []

def s3Open (azParam : List (Bytes × Option Bytes)) (zUser zSecret zContainer : Bytes) :
    Except Err Container := do
  let settings ← azParam.foldlM (fun settings param => settings.take param.1 param.2) ({} : Settings)
  check (validText zUser false = true ∧ newline ∉ zUser) .error
    "S3 access key may not be empty or contain control characters"
  check (validRegion settings.zRegion = true) .error "invalid S3 region"
  checkContainer zContainer
  checkSecret zSecret
  let zBucket := zContainer.takeWhile (· != slash)
  -- the container is allocated, and a refusal leaves fields of it unset
  check (zBucket ≠ []) .nomem "S3 bucket may not be empty"
  check (settings.zEndpoint = none → validDnsBucket zBucket = true) .nomem
    "invalid AWS virtual-hosted S3 bucket name"
  let location ← locate settings.zEndpoint zBucket settings.zRegion
  .ok { zAccessKey := zUser, zSecretKey := zSecret.takeWhile (· != newline),
        zSessionToken := (zSecret.dropWhile (· != newline)).tail?, zRegion := settings.zRegion,
        zBucket, zPrefix := prefixOf zContainer, zScheme := location.zScheme,
        zHost := location.zHost, zBasePath := location.zBasePath,
        bPathStyle := location.bPathStyle, nMaxResults := settings.nMaxResults }

end RusqDoltlite.S3

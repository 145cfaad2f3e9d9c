import RusqDoltlite.S3.Open
import RusqDoltlite.Wire.Percent

/-! Requests of the S3 module: `bcvS3Path`, `bcvS3Sign` and the functions that queue a request. -/

namespace RusqDoltlite.S3

open Session Codec Wire

structure Crypto where
  sha256 : Bytes → Hash
  hmac : Bytes → Bytes → Hash

inductive Method where
  | get | put | delete | head | post
deriving DecidableEq, Repr

def Method.text : Method → Bytes
  | .get => ascii "GET"
  | .put => ascii "PUT"
  | .post => ascii "POST"
  | _ => ascii "DELETE"

structure Request where
  eMethod : Method
  zUri : Bytes
  headers : List Bytes
  body : Bytes := []
deriving DecidableEq, Repr

structure Signed where
  zCanonical : Bytes
  zSignedHeaders : Bytes
  request : Request
deriving DecidableEq, Repr

def s3Encode (text : Bytes) (bSlash : Bool) : Bytes :=
  Percent.encode (fun c => urlSafe c || (bSlash && c == slash)) text

/-- `bcvS3Object`: there is no object for a file name that starts with a slash. -/
def Container.object (p : Container) (zFile : Bytes) : Option Bytes :=
  if zFile.head? = some slash then none else some (p.zPrefix ++ zFile)

def Container.path (p : Container) (zObject : Bytes) : Bytes :=
  if p.bPathStyle then
    p.zBasePath ++ slash :: (s3Encode p.zBucket false ++
      if s3Encode zObject true = [] then [] else slash :: s3Encode zObject true)
  else slash :: s3Encode zObject true

def digits (n : Nat) : Bytes :=
  if n < 10 then [0x30 + UInt8.ofNat n] else digits (n / 10) ++ [0x30 + UInt8.ofNat (n % 10)]

def padded (width n : Nat) : Bytes := List.replicate (width - (digits n).length) 0x30 ++ digits n

structure Time where
  year : Nat
  month : Nat
  day : Nat
  hour : Nat
  minute : Nat
  second : Nat
deriving DecidableEq, Repr

/-- The date of a signature, in the 17 bytes `zDate` has. -/
def Time.text (time : Time) : Bytes :=
  (padded 4 time.year ++ padded 2 time.month ++ padded 2 time.day ++ 0x54 :: (padded 2 time.hour ++
    padded 2 time.minute ++ padded 2 time.second ++ [0x5a])).take 16

def contentTypeName : Bytes := ascii "content-type"

def hostName : Bytes := ascii "host"

def ifMatchName : Bytes := ascii "if-match"

def ifNoneMatchName : Bytes := ascii "if-none-match"

def contentHashName : Bytes := ascii "x-amz-content-sha256"

def dateName : Bytes := ascii "x-amz-date"

def tokenName : Bytes := ascii "x-amz-security-token"

def capitalHostName : Bytes := ascii "Host"

def capitalContentTypeName : Bytes := ascii "Content-Type"

def authorizationName : Bytes := ascii "Authorization"

def headerLine (name value : Bytes) : Bytes := name ++ 0x3a :: 0x20 :: value

def canonicalLine (name value : Bytes) : Bytes := name ++ 0x3a :: value

def Container.canonicalHeaders (p : Container) (matching : Option (Bytes × Bytes))
    (contentType : Option Bytes) (zPayload zDate : Bytes) : Bytes :=
  (match contentType with
    | some type => canonicalLine contentTypeName type ++ newline :: canonicalLine hostName p.zHost
    | none => canonicalLine hostName p.zHost) ++
  (match matching with
    | some pair => newline :: canonicalLine pair.1 pair.2
    | none => []) ++
  newline :: canonicalLine contentHashName zPayload ++ newline :: canonicalLine dateName zDate ++
  (match p.zSessionToken with
    | some token => newline :: canonicalLine tokenName token
    | none => [])

def semicolon : UInt8 := 0x3b

def Container.signedHeaders (p : Container) (matching : Option (Bytes × Bytes))
    (contentType : Option Bytes) : Bytes :=
  (if contentType.isSome then contentTypeName ++ semicolon :: hostName else hostName) ++
  (match matching with
    | some pair => semicolon :: pair.1
    | none => []) ++
  semicolon :: contentHashName ++ semicolon :: dateName ++
  (if p.zSessionToken.isSome then semicolon :: tokenName else [])

def algorithm : Bytes := ascii "AWS4-HMAC-SHA256"

def service : Bytes := ascii "s3"

def terminator : Bytes := ascii "aws4_request"

def Container.credentialScope (p : Container) (zDate : Bytes) : Bytes :=
  zDate.take 8 ++ slash :: (p.zRegion ++ slash :: (service ++ slash :: terminator))

def Container.signature (crypto : Crypto) (p : Container) (zDate zCanonical : Bytes) : Bytes :=
  let zToSign := algorithm ++ newline :: (zDate ++ newline :: (p.credentialScope zDate ++
    newline :: hexEncode (crypto.sha256 zCanonical).1))
  let aKDate := crypto.hmac (ascii "AWS4" ++ p.zSecretKey) (zDate.take 8)
  let aKRegion := crypto.hmac aKDate.1 p.zRegion
  let aKService := crypto.hmac aKRegion.1 service
  let aKSigning := crypto.hmac aKService.1 terminator
  hexEncode (crypto.hmac aKSigning.1 zToSign).1

def Container.headers (p : Container) (matching : Option (Bytes × Bytes)) (contentType : Option Bytes)
    (zPayload zDate zAuth : Bytes) : List Bytes :=
  [headerLine capitalHostName p.zHost, headerLine contentHashName zPayload, headerLine dateName zDate] ++
    (p.zSessionToken.toList.map (headerLine tokenName)) ++
    (contentType.toList.map (headerLine capitalContentTypeName)) ++
    (matching.toList.map fun pair => headerLine pair.1 pair.2) ++ [headerLine authorizationName zAuth]

def queryPart (zQuery : Option Bytes) : Bytes := (zQuery.map fun query => 0x3f :: query).getD []

def Container.uri (p : Container) (zPath : Bytes) (zQuery : Option Bytes) : Bytes :=
  p.zScheme ++ 0x3a :: slash :: slash :: (p.zHost ++ (zPath ++ queryPart zQuery))

def s3Sign (crypto : Crypto) (p : Container) (time : Time) (eMethod : Method) (zPath : Bytes)
    (zQuery : Option Bytes) (matching : Option (Bytes × Bytes)) (contentType : Option Bytes)
    (aBody : Bytes) : Signed :=
  let zPayload := hexEncode (crypto.sha256 aBody).1
  let zDate := time.text
  let zSignedHeaders := p.signedHeaders matching contentType
  let zCanonical := eMethod.text ++ newline :: (zPath ++ newline :: (zQuery.getD [] ++ newline ::
    (p.canonicalHeaders matching contentType zPayload zDate ++ newline :: newline ::
      (zSignedHeaders ++ newline :: zPayload))))
  let zAuth := algorithm ++ ascii " Credential=" ++ p.zAccessKey ++ slash :: p.credentialScope zDate ++
    ascii ", SignedHeaders=" ++ zSignedHeaders ++ ascii ", Signature=" ++ p.signature crypto zDate zCanonical
  { zCanonical, zSignedHeaders
    request := { eMethod, zUri := p.uri zPath zQuery,
                 headers := p.headers matching contentType zPayload zDate zAuth } }

def md5Tag (digest : Bytes) : Bytes := 0x22 :: (hexEncode digest ++ [0x22])

def fetchMatch (bMd5 bETag : Bool) (cond : Option Bytes) : Option Bytes :=
  if bMd5 then cond.map md5Tag else if bETag then cond else none

def outOfMemory : Err := ⟨.nomem, ""⟩

def Container.fetch (crypto : Crypto) (p : Container) (time : Time) (zFile : Bytes)
    (bMd5 bETag : Bool) (cond : Option Bytes) : Except Err Signed := do
  check (bMd5 = true → ∃ digest ∈ cond, digest.length = 16) .misuse "invalid S3 MD5 condition"
  check (bETag = true → cond.isSome = true) .misuse "invalid S3 ETag condition"
  match p.object zFile with
  | none => .error outOfMemory
  | some zObject => .ok (s3Sign crypto p time .get (p.path zObject) none
      ((fetchMatch bMd5 bETag cond).map fun value => (ifNoneMatchName, value)) none [])

def octetStream : Bytes := ascii "application/octet-stream"

/-- `bcvS3Put`. The entity tag `*` asks for an object that is not there yet. -/
def Container.put (crypto : Crypto) (p : Container) (time : Time) (zFile aData : Bytes)
    (zETag : Option Bytes) : Except Err Signed :=
  match p.object zFile with
  | none => .error outOfMemory
  | some zObject =>
    let signed := s3Sign crypto p time .put (p.path zObject) none
      (zETag.map fun value => (if value = [0x2a] then ifNoneMatchName else ifMatchName, value))
      (some octetStream) aData
    .ok { signed with request := { signed.request with body := aData } }

def Container.delete (crypto : Crypto) (p : Container) (time : Time) (zFile : Bytes)
    (zETag : Option Bytes) : Except Err Signed :=
  match p.object zFile with
  | none => .error outOfMemory
  | some zObject => .ok (s3Sign crypto p time .delete (p.path zObject) none
      (zETag.map fun value => (ifMatchName, value)) none [])

def ampersand : UInt8 := 0x26

def equals : UInt8 := 0x3d

def continuationName : Bytes := ascii "continuation-token"

def listTypeName : Bytes := ascii "list-type"

def maxKeysName : Bytes := ascii "max-keys"

def prefixName : Bytes := ascii "prefix"

def Container.listQuery (p : Container) (zPrefix : Bytes) (zMarker : Option Bytes) : Bytes :=
  (match zMarker with
    | some marker => continuationName ++ equals :: s3Encode marker false ++ [ampersand]
    | none => []) ++
  listTypeName ++ equals :: 0x32 :: ampersand :: (maxKeysName ++ equals :: digits p.nMaxResults ++
    ampersand :: (prefixName ++ equals :: s3Encode zPrefix false))

def Container.listFiles (crypto : Crypto) (p : Container) (time : Time) (zJobPrefix zMarker : Option Bytes) :
    Except Err Signed :=
  match p.object (zJobPrefix.getD []) with
  | none => .error outOfMemory
  | some zPrefix => .ok (s3Sign crypto p time .get (p.path []) (some (p.listQuery zPrefix zMarker))
      none none [])

def applicationXml : Bytes := ascii "application/xml"

def createBodyFront : Bytes :=
  ascii "<CreateBucketConfiguration xmlns=\"http://s3.amazonaws.com/doc/2006-03-01/\"><LocationConstraint>"

def createBodyBack : Bytes := ascii "</LocationConstraint></CreateBucketConfiguration>"

/-- The body of a bucket creation outside the default region. It is made once. -/
def Container.createBody (p : Container) : Option Bytes :=
  if p.zRegion = usEast1 then p.zCreateBody
  else some (p.zCreateBody.getD (createBodyFront ++ p.zRegion ++ createBodyBack))

def Container.create (crypto : Crypto) (p : Container) (time : Time) : Signed × Container :=
  let aBody := if p.zRegion = usEast1 then [] else p.createBody.getD []
  let signed := s3Sign crypto p time .put (p.path []) none none
    (p.createBody.map fun _ => applicationXml) aBody
  let body := if p.createBody.isSome then aBody else signed.request.body
  ({ signed with request := { signed.request with body } }, { p with zCreateBody := p.createBody })

def Container.destroy (crypto : Crypto) (p : Container) (time : Time) : Except Err Signed := do
  check (p.zPrefix = []) .misuse "refusing to delete an S3 bucket while a prefix is configured"
  .ok (s3Sign crypto p time .delete (p.path []) none none none [])

inductive Call where
  | fetch (zFile : Bytes) (bMd5 bETag : Bool) (cond : Option Bytes)
  | put (zFile aData : Bytes) (zETag : Option Bytes)
  | delete (zFile : Bytes) (zETag : Option Bytes)
  | list (zJobPrefix zMarker : Option Bytes)
  | create
  | destroy

def Container.queue (crypto : Crypto) (p : Container) (time : Time) : Call → Except Err Signed × Container
  | .fetch zFile bMd5 bETag cond => (p.fetch crypto time zFile bMd5 bETag cond, p)
  | .put zFile aData zETag => (p.put crypto time zFile aData zETag, p)
  | .delete zFile zETag => (p.delete crypto time zFile zETag, p)
  | .list zJobPrefix zMarker => (p.listFiles crypto time zJobPrefix zMarker, p)
  | .create => (.ok (p.create crypto time).1, (p.create crypto time).2)
  | .destroy => (p.destroy crypto time, p)

def Container.after (crypto : Crypto) (p : Container) (calls : List (Time × Call)) : Container :=
  calls.foldl (fun p call => (p.queue crypto call.1 call.2).2) p

end RusqDoltlite.S3

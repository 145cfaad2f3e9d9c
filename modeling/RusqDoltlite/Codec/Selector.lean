import Mathlib.Data.List.Sort
import RusqDoltlite.Codec.Endpoint

/-! `bcvSessionCanonicalStorage`, `bcvSessionCanonicalContainer` and `bcvSessionStableAccount`: one
spelling for every storage location. -/

namespace RusqDoltlite.Codec

open Wire Session

inductive Provider where
  | s3 | google | azure
deriving DecidableEq, Repr

def Provider.name : Provider → Bytes
  | .s3 => ascii "s3"
  | .google => ascii "google"
  | .azure => ascii "azure"

def moduleOf (storage : Bytes) : Bytes := storage.takeWhile (· != 0x3f)

def queryOf (storage : Bytes) : Option Bytes := (storage.dropWhile (· != 0x3f)).tail?

def providerOf (storage : Bytes) : Option Provider :=
  [.s3, .google, .azure].find? fun provider : Provider =>
    (moduleOf storage).map lower == provider.name

inductive ParamKind where
  | endpoint | region | maxResults | api
deriving DecidableEq, Repr

def ParamKind.name : ParamKind → Bytes
  | .endpoint => ascii "endpoint"
  | .region => ascii "region"
  | .maxResults => ascii "maxresults"
  | .api => ascii "api"

def kindOf (key : Bytes) : Option ParamKind :=
  [.endpoint, .region, .maxResults, .api].find? fun kind : ParamKind => key.map lower == kind.name

def Provider.permits : Provider → ParamKind → Bool
  | .s3, kind => kind != .api
  | .google, kind => kind != .region
  | .azure, kind => kind == .maxResults

structure Param where
  key : Bytes
  value : Bytes
deriving DecidableEq

def parseParam (text : Bytes) : Except Err Param := do
  check (text ≠ []) .misuse "empty storage parameter"
  let key := text.takeWhile (· != 0x3d)
  check (key ≠ [] ∧ 0x3d ∈ text) .misuse "storage parameters require values"
  .ok ⟨key, (text.dropWhile (· != 0x3d)).tail⟩

structure Scan where
  seen : List ParamKind
  kept : List Param

def paramAdd (kept : List Param) (param : Param) : Except Err (List Param) := do
  check (kept.length < 128) .tooBig "too many storage parameters"
  .ok (kept ++ [param])

def checkValue (provider : Provider) (kind : ParamKind) (value : Bytes) : Except Err Unit :=
  match kind with
  | .region => check (value.all (fun char => !isUpper char) = true) .misuse
      "S3 region must be lowercase"
  | .endpoint => do
      endpointCanonical value
      check (provider = .s3 → awsAlias value = false) .misuse
        "S3 AWS endpoint aliases are not valid scoped selectors"
  | .maxResults | .api => .ok ()

/-- Keys that select the objects of a container. The others control the transport only. -/
def ParamKind.selects : ParamKind → Bool
  | .endpoint | .region => true
  | .maxResults | .api => false

def scanParam (provider : Provider) (scan : Scan) (text : Bytes) : Except Err Scan := do
  let param ← parseParam text
  match kindOf param.key with
  | none => .error (misuse "unknown storage parameter")
  | some kind => do
      check (provider.permits kind = true) .misuse "storage parameter is not valid for this provider"
      check (kind ∉ scan.seen) .misuse "duplicate storage parameter"
      checkValue provider kind param.value
      let kept ← if kind.selects then paramAdd scan.kept param else .ok scan.kept
      .ok ⟨kind :: scan.seen, kept⟩

def defaultRegion : Param :=
  ⟨ParamKind.name .region, ascii "us-east-1"⟩

def defaultEndpoint : Param :=
  ⟨ParamKind.name .endpoint, ascii "https://storage.googleapis.com"⟩

/-- The parameter that is filled in where a selector does not spell it. -/
def Provider.default : Provider → Option (ParamKind × Param)
  | .s3 => some (.region, defaultRegion)
  | .google => some (.endpoint, defaultEndpoint)
  | .azure => none

def addDefault (provider : Provider) (scan : Scan) : Except Err (List Param) :=
  match provider.default with
  | none => .ok scan.kept
  | some (kind, param) => if kind ∈ scan.seen then .ok scan.kept else paramAdd scan.kept param

/-- `bcvSessionStorageParamCmp`: by key without letter case, then by the whole text. -/
def paramLe (first second : Param) : Prop :=
  if first.key.map lower = second.key.map lower then
    first.key ++ 0x3d :: first.value ≤ second.key ++ 0x3d :: second.value
  else first.key.map lower ≤ second.key.map lower

instance : DecidableRel paramLe := fun first second => inferInstanceAs (Decidable
  (if first.key.map lower = second.key.map lower then
    first.key ++ 0x3d :: first.value ≤ second.key ++ 0x3d :: second.value
  else first.key.map lower ≤ second.key.map lower))

/-- A parameter as it is written: the key in lower case, an endpoint without its last slashes. -/
def writeParam (param : Param) : Bytes :=
  param.key.map lower ++ 0x3d ::
    (if kindOf param.key = some .endpoint then trimSlashes param.value else param.value)

/-- `bcvSessionCanonicalStorage`. A selector with a query keeps its question mark. -/
def canonicalStorage (storage : Bytes) : Except Err Bytes := do
  check (storage ≠ [] ∧ storage.length ≤ maxFieldBytes) .misuse "invalid storage scope"
  match providerOf storage with
  | none => .error (misuse "storage provider is not supported for session records")
  | some provider => do
      let texts := (queryOf storage).elim [] (List.splitOn 0x26)
      let scan ← texts.foldlM (scanParam provider) ⟨[], []⟩
      let params ← addDefault provider scan
      let sorted := params.insertionSort paramLe
      check ((sorted.map fun param => param.key.map lower).Nodup) .misuse
        "duplicate storage parameter"
      let mark := if params ≠ [] ∨ (queryOf storage).isSome then [0x3f] else []
      .ok ((moduleOf storage).map lower ++ mark ++
        [0x26].intercalate (sorted.map writeParam))

/-- `bcvSessionCanonicalContainer`: the separator behind a bucket prefix. -/
def canonicalContainer (storage container : Bytes) : Except Err Bytes := do
  check (container ≠ [] ∧ container.length ≤ maxFieldBytes) .misuse "invalid container scope"
  let normalize := providerOf storage == some .s3 || providerOf storage == some .google
  let slash := container.dropWhile (· != 0x2f)
  if normalize = false ∨ slash = [] then .ok container
  else if slash = [0x2f] then .ok (container.takeWhile (· != 0x2f))
  else if container.getLast? = some 0x2f then .ok container
  else .ok (container ++ [0x2f])

/-- `bcvSessionStableAccount`: the credentials of S3 and Google are no identity. -/
def stableAccount (storage account : Bytes) : Except Err Bytes :=
  match providerOf storage with
  | some .s3 | some .google => .ok []
  | some .azure =>
    if account = [] then
      .error ⟨.auth, "session records require a recognized stable storage provider"⟩
    else .ok account
  | none => .error ⟨.auth, "session records require a recognized stable storage provider"⟩

end RusqDoltlite.Codec

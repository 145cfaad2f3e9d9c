import RusqDoltlite.Codec.Record

/-! The keys of session objects: `sqlite3_bcvfs_session_object_name` builds them, and the collector
reads them back with `bcvSessionGcObjectParse`. -/

namespace RusqDoltlite.Codec

open Wire Session

def sessionRoot : Bytes :=
  ascii "bcv-session/v1/"

def headPart : Bytes := ascii "head/"

def checkpointPart : Bytes := ascii "checkpoint/"

def historyPart : Bytes := ascii "history/"

def publicationPart : Bytes := ascii "publication/"

def candidatePart : Bytes := ascii "candidate/"

def attemptPart : Bytes := ascii "attempt/"

def guardName : Bytes := ascii "guard.bcv"

def suffix : Bytes := ascii ".bcv"

def objectName (type : RecordType) (sessionId : Option Bytes) (objectId : Option Hash)
    (nOut : Nat) : Except Err Bytes := do
  check (type = .head ∨ type = .checkpoint ∨ type = .history →
      ((sessionId.bind uuidDecode).isSome = true)) .misuse "session object requires a canonical UUID"
  check (type = .publication → sessionId.isSome = true → (sessionId.bind uuidDecode).isSome = true)
    .misuse "publication owner requires a canonical UUID"
  check (type = .head → objectId = none) .misuse "session head has no object hash"
  check (type ≠ .head → ∃ object ∈ objectId, allZero object.1 = false) .misuse
    "session object hash is required"
  let uuid := (((sessionId.bind uuidDecode).map uuidEncode).getD [])
  let hash := ((objectId.map fun object => hexEncode object.1).getD [])
  let name := sessionRoot ++ match type with
    | .head => headPart ++ (uuid ++ suffix)
    | .checkpoint => checkpointPart ++ (uuid ++ 0x2f :: (hash ++ suffix))
    | .history => historyPart ++ (uuid ++ 0x2f :: (hash ++ suffix))
    | .publication => publicationPart ++ (hash ++ suffix)
  check (name.length < nOut) .tooBig "session object name buffer is too small"
  .ok name

inductive GcKind where
  | checkpoint | head | publication | candidate | attempt | history
deriving DecidableEq, Repr

/-- What a key says about its object. Parts a kind does not have are zero or empty. -/
structure GcKey where
  kind : GcKind
  uuid : Uuid := Fixed.read 16 [] 0
  objectId : Bytes := []
  operationId : Hash := Fixed.read 32 [] 0
deriving DecidableEq

def gcDecodeHex : Bytes → Option Bytes
  | [] => some []
  | [_] => none
  | high :: low :: rest => do
      let byte ← hexByte high low
      let others ← gcDecodeHex rest
      some (byte :: others)

/-- The loop of `bcvSessionGcUuid`, which reads the digits behind a dash in the same round. -/
def gcUuidBytes : Nat → Bytes → Option Bytes
  | _, [] => some []
  | position, [char] => if dashAt position && char == 0x2d then some [] else none
  | position, [char, next] =>
    if dashAt position then none
    else (hexByte char next).map fun byte => [byte]
  | position, char :: next :: last :: rest =>
    if dashAt position then
      if char = 0x2d then do
        let byte ← hexByte next last
        let others ← gcUuidBytes (position + 3) rest
        some (byte :: others)
      else none
    else do
      let byte ← hexByte char next
      let others ← gcUuidBytes (position + 2) (last :: rest)
      some (byte :: others)

def gcUuid (text : Bytes) : Option Uuid := do
  if text.length = 36 then
    let bytes ← gcUuidBytes 0 text
    if size : bytes.length = 16 then
      if allZero bytes then none else some ⟨bytes, size⟩
    else none
  else none

def after (front text : Bytes) : Option Bytes :=
  if front.isPrefixOf text then some (text.drop front.length) else none

def atSlash (text : Bytes) : Option (Bytes × Bytes) :=
  if 0x2f ∈ text then some (text.takeWhile (· != 0x2f), (text.dropWhile (· != 0x2f)).tail) else none

def gcPresent (text : Bytes) : Option Bytes := do
  let bytes ← gcDecodeHex text
  if allZero bytes then none else some bytes

def headKey (z : Bytes) : Option GcKey := do
  if z.length = 40 ∧ slice z 36 4 = suffix then
    let uuid ← gcUuid (slice z 0 36)
    some { kind := .head, uuid := uuid }
  else none

/-- A key below the id of its session. The hash of a history record is not zero. -/
def sessionKey (kind : GcKind) (z : Bytes) : Option GcKey := do
  let parts ← atSlash z
  if parts.1.length = 36 ∧ z.length = 36 + 1 + 64 + 4 ∧ slice z 101 4 = suffix then
    let uuid ← gcUuid (slice z 0 36)
    let objectId ← gcDecodeHex (slice z 37 64)
    if kind = .history ∧ allZero objectId then none
    else some { kind := kind, uuid := uuid, objectId := objectId }
  else none

/-- A key that is a hash. The hash of a candidate is not zero. -/
def hashKey (kind : GcKind) (z : Bytes) : Option GcKey := do
  if z.length = 68 ∧ slice z 64 4 = suffix then
    let objectId ← gcDecodeHex (slice z 0 64)
    if kind = .candidate ∧ allZero objectId then none
    else some { kind := kind, objectId := objectId }
  else none

def attemptKey (z : Bytes) : Option GcKey := do
  let session ← atSlash z
  let operation ← atSlash session.2
  let block ← atSlash operation.2
  let attempt := block.2
  if session.1.length = 36 ∧ operation.1.length = 64 ∧ 2 * 12 ≤ block.1.length ∧
      block.1.length ≤ 2 * 32 ∧ block.1.length % 2 = 0 ∧ attempt.length = 32 + 4 ∧
      slice attempt 32 4 = suffix then
    let uuid ← gcUuid session.1
    let operationId ← gcPresent operation.1
    let objectId ← gcPresent block.1
    let _ ← gcPresent (slice attempt 0 32)
    some { kind := .attempt, uuid := uuid, objectId := objectId,
           operationId := Fixed.read 32 operationId 0 }
  else none

inductive GcParsed where
  | unrelated
  | malformed
  | object (key : GcKey)
deriving DecidableEq

def GcParsed.required : Option GcKey → GcParsed
  | some key => .object key
  | none => .malformed

def gcParseRest (z : Bytes) : GcParsed :=
  if z = guardName then .unrelated
  else match after headPart z, after checkpointPart z, after historyPart z, after publicationPart z,
      after candidatePart z, after attemptPart z with
    | some z, _, _, _, _, _ => .required (headKey z)
    | none, some z, _, _, _, _ => .required (sessionKey .checkpoint z)
    | none, none, some z, _, _, _ => .required (sessionKey .history z)
    | none, none, none, some z, _, _ => .required (hashKey .publication z)
    | none, none, none, none, some z, _ => .required (hashKey .candidate z)
    | none, none, none, none, none, some z => .required (attemptKey z)
    | none, none, none, none, none, none => .malformed

def gcObjectParse (name : Bytes) : GcParsed :=
  match after sessionRoot name with
  | none => .unrelated
  | some z => gcParseRest z

theorem gcDecodeHex_hexEncode (bytes : Bytes) : gcDecodeHex (hexEncode bytes) = some bytes := by
  induction bytes with
  | nil => rfl
  | cons byte rest ih =>
    have step : hexEncode (byte :: rest) =
        hexDigit (byte >>> 4) :: hexDigit (byte &&& 15) :: hexEncode rest := rfl
    rw [step, gcDecodeHex, hexByte_digits, ih]
    rfl

theorem length_hexEncode (bytes : Bytes) : (hexEncode bytes).length = 2 * bytes.length := by
  induction bytes with
  | nil => rfl
  | cons byte rest ih =>
    have step : hexEncode (byte :: rest) =
        hexDigit (byte >>> 4) :: hexDigit (byte &&& 15) :: hexEncode rest := rfl
    rw [step, List.length_cons, List.length_cons, ih, List.length_cons]
    omega

theorem dashAt_succ {position : Nat} (dash : dashAt position = true) :
    dashAt (position + 1) = false := by
  simp only [dashAt, Bool.or_eq_true, beq_iff_eq] at dash
  rcases dash with ((rfl | rfl) | rfl) | rfl <;> rfl

theorem gcUuidBytes_eq (position : Nat) (text : Bytes) :
    gcUuidBytes position text = uuidBytes position text := by
  fun_induction gcUuidBytes position text with
  | case1 => rfl
  | case2 position char ends => rw [uuidBytes, if_pos ends]
  | case3 position char ends => rw [uuidBytes, if_neg ends]
  | case4 position char next dash =>
    rw [uuidBytes, if_pos dash]
    split
    · rw [uuidBytes, dashAt_succ dash]
      rfl
    · rfl
  | case5 position char next plain =>
    rw [uuidBytes, if_neg plain]
    cases hexByte char next <;> rfl
  | case6 position next last rest dash ih =>
    rw [uuidBytes, if_pos dash, if_pos rfl, uuidBytes, dashAt_succ dash, ih]
    rfl
  | case7 position char next last rest dash other => rw [uuidBytes, if_pos dash, if_neg other]
  | case8 position char next last rest plain ih => rw [uuidBytes, if_neg plain, ih]

theorem gcUuid_eq (text : Bytes) : gcUuid text = uuidDecode text := by
  simp only [gcUuid, uuidDecode, gcUuidBytes_eq]

theorem after_append (front rest : Bytes) : after front (front ++ rest) = some rest := by
  rw [after, if_pos (by rw [List.isPrefixOf_iff_prefix]; exact List.prefix_append front rest),
    List.drop_left]

def gcKindOf : RecordType → GcKind
  | .checkpoint => .checkpoint
  | .head => .head
  | .publication => .publication
  | .history => .history

theorem headKey_eq {uuid : Uuid} (present : allZero uuid.1 = false) :
    headKey (uuidEncode uuid ++ suffix) = some { kind := .head, uuid := uuid } := by
  have size := length_uuidEncode uuid
  have front : slice (uuidEncode uuid ++ suffix) 0 36 = uuidEncode uuid :=
    slice_front size
  have back : slice (uuidEncode uuid ++ suffix) 36 4 = suffix := by
    rw [slice, List.drop_left' size]
    rfl
  have length : (uuidEncode uuid ++ suffix).length = 40 := by
    rw [List.length_append, size]
    rfl
  rw [headKey, if_pos ⟨length, back⟩, front, gcUuid_eq, uuidDecode_encode present]
  rfl

theorem not_mem_uuidText (i : Nat) (bytes : Bytes) : 0x2f ∉ uuidText i bytes := by
  have every : ∀ byte : Fin 256, hexDigit (UInt8.ofFin byte >>> 4) ≠ 0x2f ∧
      hexDigit (UInt8.ofFin byte &&& 15) ≠ 0x2f := by decide +kernel
  induction bytes generalizing i with
  | nil => exact List.not_mem_nil
  | cons byte rest ih =>
    have digits := every byte.toFin
    rw [uuidText]
    split
    · simp only [List.mem_cons, not_or]
      exact ⟨digits.1.symm, digits.2.symm, by decide, ih (i + 1)⟩
    · simp only [List.mem_cons, not_or]
      exact ⟨digits.1.symm, digits.2.symm, ih (i + 1)⟩

theorem sessionKey_eq {kind : GcKind} {uuid : Uuid} {object : Hash}
    (present : allZero uuid.1 = false) (named : allZero object.1 = false) :
    sessionKey kind (uuidEncode uuid ++ 0x2f :: (hexEncode object.1 ++ suffix)) =
      some { kind := kind, uuid := uuid, objectId := object.1 } := by
  have size := length_uuidEncode uuid
  have hexSize : (hexEncode object.1).length = 64 := by rw [length_hexEncode, object.2]
  have clean : 0x2f ∉ uuidEncode uuid := not_mem_uuidText 0 uuid.1
  have first : atSlash (uuidEncode uuid ++ 0x2f :: (hexEncode object.1 ++ suffix)) =
      some (uuidEncode uuid, hexEncode object.1 ++ suffix) := by
    rw [atSlash, if_pos (by simp), takeWhile_ne_append clean, dropWhile_ne_append clean,
      List.tail_cons]
  have length : (uuidEncode uuid ++ 0x2f :: (hexEncode object.1 ++ suffix)).length =
      36 + 1 + 64 + 4 := by
    rw [List.length_append, List.length_cons, List.length_append, size, hexSize]
    rfl
  have front : slice (uuidEncode uuid ++ 0x2f :: (hexEncode object.1 ++ suffix)) 0 36 =
      uuidEncode uuid :=
    slice_front size
  have parts : uuidEncode uuid ++ 0x2f :: (hexEncode object.1 ++ suffix) =
      (uuidEncode uuid ++ [0x2f]) ++ (hexEncode object.1 ++ suffix) := by simp
  have middle : slice (uuidEncode uuid ++ 0x2f :: (hexEncode object.1 ++ suffix)) 37 64 =
      hexEncode object.1 := by
    rw [parts, slice, List.drop_left' (by rw [List.length_append, size]; rfl), ← hexSize,
      List.take_left]
  have back : slice (uuidEncode uuid ++ 0x2f :: (hexEncode object.1 ++ suffix)) 101 4 = suffix := by
    rw [parts, ← List.append_assoc, slice,
      List.drop_left' (by rw [List.length_append, List.length_append, size, hexSize]; rfl)]
    rfl
  rw [sessionKey, first]
  simp only [Option.bind_eq_bind, Option.bind_some]
  rw [if_pos ⟨size, length, back⟩, front, middle, gcUuid_eq, uuidDecode_encode present,
    gcDecodeHex_hexEncode]
  simp [named]

theorem hashKey_eq {kind : GcKind} {object : Hash} (named : allZero object.1 = false) :
    hashKey kind (hexEncode object.1 ++ suffix) = some { kind := kind, objectId := object.1 } := by
  have hexSize : (hexEncode object.1).length = 64 := by rw [length_hexEncode, object.2]
  have front : slice (hexEncode object.1 ++ suffix) 0 64 = hexEncode object.1 :=
    slice_front hexSize
  have back : slice (hexEncode object.1 ++ suffix) 64 4 = suffix := by
    rw [slice, List.drop_left' hexSize]
    rfl
  have length : (hexEncode object.1 ++ suffix).length = 68 := by
    rw [List.length_append, hexSize]
    rfl
  rw [hashKey, if_pos ⟨length, back⟩, front, gcDecodeHex_hexEncode]
  simp [named]

theorem append_ne_guardName {part rest : Bytes} (apart : ¬part <+: guardName) : part ++ rest ≠ guardName :=
  fun same => apart ⟨rest, same⟩

theorem gcParseRest_head (rest : Bytes) :
    gcParseRest (headPart ++ rest) = .required (headKey rest) := by
  have other : headPart ++ rest ≠ guardName := append_ne_guardName (by decide)
  rw [gcParseRest, if_neg other, after_append]

theorem gcParseRest_checkpoint (rest : Bytes) :
    gcParseRest (checkpointPart ++ rest) = .required (sessionKey .checkpoint rest) := by
  have other : checkpointPart ++ rest ≠ guardName := append_ne_guardName (by decide)
  have head : after headPart (checkpointPart ++ rest) = none := rfl
  rw [gcParseRest, if_neg other, head, after_append]

theorem gcParseRest_history (rest : Bytes) :
    gcParseRest (historyPart ++ rest) = .required (sessionKey .history rest) := by
  have other : historyPart ++ rest ≠ guardName := append_ne_guardName (by decide)
  have head : after headPart (historyPart ++ rest) = none := rfl
  have checkpoint : after checkpointPart (historyPart ++ rest) = none := rfl
  rw [gcParseRest, if_neg other, head, checkpoint, after_append]

theorem gcParseRest_publication (rest : Bytes) :
    gcParseRest (publicationPart ++ rest) = .required (hashKey .publication rest) := by
  have other : publicationPart ++ rest ≠ guardName := append_ne_guardName (by decide)
  have head : after headPart (publicationPart ++ rest) = none := rfl
  have checkpoint : after checkpointPart (publicationPart ++ rest) = none := rfl
  have history : after historyPart (publicationPart ++ rest) = none := rfl
  rw [gcParseRest, if_neg other, head, checkpoint, history, after_append]

/-- The collector reads back the key of every record: its kind, its session and its hash. -/
theorem gcObjectParse_objectName {type : RecordType} {sessionId : Option Bytes}
    {objectId : Option Hash} {nOut : Nat} {name : Bytes}
    (named : objectName type sessionId objectId nOut = .ok name) :
    ∃ key, gcObjectParse name = .object key ∧ key.kind = gcKindOf type ∧
      (type ≠ .publication → sessionId.bind uuidDecode = some key.uuid) ∧
      (type ≠ .head → ∃ object ∈ objectId, key.objectId = object.1) := by
  simp only [objectName, check_bind_eq_ok, Except.ok.injEq] at named
  obtain ⟨session, _, _, object, _, rfl⟩ := named
  rw [gcObjectParse, after_append]
  have decoded : type ≠ .publication → ∃ uuid, sessionId.bind uuidDecode = some uuid ∧
      allZero uuid.1 = false := by
    intro owned
    obtain ⟨uuid, spelled⟩ := Option.isSome_iff_exists.mp (session (by cases type <;> simp_all))
    obtain ⟨text, _, decoded⟩ := Option.bind_eq_some_iff.mp spelled
    exact ⟨uuid, spelled, uuidDecode_present decoded⟩
  cases type with
  | head =>
    obtain ⟨uuid, spelled, present⟩ := decoded (by decide)
    refine ⟨{ kind := .head, uuid := uuid }, ?_, rfl, fun _ => spelled, fun other => absurd rfl other⟩
    simp only [spelled, Option.map_some, Option.getD_some, gcParseRest_head, headKey_eq present,
      GcParsed.required]
  | checkpoint =>
    obtain ⟨uuid, spelled, present⟩ := decoded (by decide)
    obtain ⟨hash, given, stored⟩ := object (by decide)
    refine ⟨{ kind := .checkpoint, uuid := uuid, objectId := hash.1 }, ?_, rfl, fun _ => spelled,
      fun _ => ⟨hash, given, rfl⟩⟩
    rw [Option.mem_def] at given
    simp only [spelled, given, Option.map_some, Option.getD_some, gcParseRest_checkpoint,
      sessionKey_eq present stored, GcParsed.required]
  | history =>
    obtain ⟨uuid, spelled, present⟩ := decoded (by decide)
    obtain ⟨hash, given, stored⟩ := object (by decide)
    refine ⟨{ kind := .history, uuid := uuid, objectId := hash.1 }, ?_, rfl, fun _ => spelled,
      fun _ => ⟨hash, given, rfl⟩⟩
    rw [Option.mem_def] at given
    simp only [spelled, given, Option.map_some, Option.getD_some, gcParseRest_history,
      sessionKey_eq present stored, GcParsed.required]
  | publication =>
    obtain ⟨hash, given, stored⟩ := object (by decide)
    refine ⟨{ kind := .publication, objectId := hash.1 }, ?_, rfl, fun other => absurd rfl other,
      fun _ => ⟨hash, given, rfl⟩⟩
    rw [Option.mem_def] at given
    simp only [given, Option.map_some, Option.getD_some, gcParseRest_publication,
      hashKey_eq stored, GcParsed.required]

end RusqDoltlite.Codec

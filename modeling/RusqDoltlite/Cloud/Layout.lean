import RusqDoltlite.Cloud.Identity
import RusqDoltlite.Codec.ObjectName
import RusqDoltlite.Codec.SelectorLaws

/-! `SessionStorageLayout::new` against the keys of the objects that a session writes. -/

namespace RusqDoltlite.Cloud

open Session Codec S3 Wire

def isCanonicalUuid (value : Bytes) : Bool :=
  value.length == 36 &&
    value.zipIdx.all (fun item =>
      if dashAt item.2 then item.1 == 0x2d
      else isDigit item.1 || (0x61 ≤ item.1 && item.1 ≤ 0x66) || (0x41 ≤ item.1 && item.1 ≤ 0x46)) &&
    value.zipIdx.any fun item => !dashAt item.2 && item.1 != 0x30

def newSessionId (text : Bytes) : Except Err Bytes :=
  if text.length = 36 ∧ isCanonicalUuid (text.map lower) then .ok (text.map lower)
  else .error ⟨.misuse, "block-cache session ID must be a canonical non-nil UUID"⟩

abbrev SessionText := { text : Bytes // ∃ given, newSessionId given = .ok text }

def blocksPart : Bytes := ascii "blocks/"

def manifestFile : Bytes := ascii "manifest.bcv"

structure Layout where
  blocksPrefix : Bytes
  attemptPrefix : Bytes
  checkpointPrefix : Bytes
  historyPrefix : Bytes
  headObject : Bytes
  manifestObject : Bytes
  guardObject : Bytes
deriving DecidableEq

def Layout.new (keyPrefix : Bytes) (session : SessionText) : Except Err Layout := do
  let normal ← normalizeCloudPrefix keyPrefix
  let base := if normal.getLast? = some slash then normal.dropLast else normal
  let key (name : Bytes) := if base = [] then name else base ++ slash :: name
  let root := key (ascii "bcv-session/v1")
  .ok { blocksPrefix := key (ascii "blocks") ++ [slash]
        attemptPrefix := root ++ ascii "/attempt/" ++ session.1 ++ [slash]
        checkpointPrefix := root ++ ascii "/checkpoint/" ++ session.1 ++ [slash]
        historyPrefix := root ++ ascii "/history/" ++ session.1 ++ [slash]
        headObject := root ++ ascii "/head/" ++ session.1 ++ suffix
        manifestObject := key manifestFile
        guardObject := root ++ ascii "/guard.bcv" }

def hexUpper (bytes : Bytes) : Bytes :=
  bytes.flatMap fun (byte : UInt8) => [Percent.upperDigit (byte >>> 4), Percent.upperDigit (byte &&& 15)]

inductive Target where
  | attempt (operation : Hash) (id : Bytes) (number : Fixed 16)
  | checkpoint (object : Hash)
  | history (object : Hash)
  | head
  | block (id : Bytes)
  | manifest
  | guard

/-- The relative name of an object: `bcvfsSessionProtectBlock`, `sqlite3_bcvfs_session_object_name` and
`bcvfsBlockidToName`. -/
def Target.name (session : Bytes) : Target → Except Err Bytes
  | .attempt operation id number => do
      check (12 ≤ id.length ∧ id.length ≤ 32 ∧ allZero operation.1 = false ∧
        (uuidDecode session).isSome = true) .auth ""
      .ok (sessionRoot ++ attemptPart ++ session ++ slash :: (hexUpper operation.1 ++ slash :: (hexUpper id ++
        slash :: (hexUpper number.1 ++ suffix))))
  | .checkpoint object => objectName .checkpoint (some session) (some object) 256
  | .history object => objectName .history (some session) (some object) 256
  | .head => objectName .head (some session) none 256
  | .block id => .ok (blocksPart ++ hexUpper id ++ suffix)
  | .manifest => .ok manifestFile
  | .guard => .ok (sessionRoot ++ guardName)

/-- The key is the object that the layout names for the target, or lies under its prefix. -/
def Layout.Covers (layout : Layout) (key : Bytes) : Target → Prop
  | .attempt _ _ _ => layout.attemptPrefix <+: key
  | .checkpoint _ => layout.checkpointPrefix <+: key
  | .history _ => layout.historyPrefix <+: key
  | .head => key = layout.headObject
  | .block _ => layout.blocksPrefix <+: key
  | .manifest => key = layout.manifestObject
  | .guard => key = layout.guardObject

def Layout.fields (layout : Layout) : List Bytes :=
  [layout.blocksPrefix, layout.attemptPrefix, layout.checkpointPrefix, layout.historyPrefix, layout.headObject,
    layout.manifestObject, layout.guardObject]

def Target.own : Target → Bool
  | .attempt _ _ _ | .checkpoint _ | .history _ | .head => true
  | .block _ | .manifest | .guard => false

def Target.part : Target → Bytes
  | .attempt _ _ _ => attemptPart
  | .checkpoint _ => checkpointPart
  | .history _ => historyPart
  | _ => headPart

theorem SessionText.length (session : SessionText) : session.1.length = 36 := by
  obtain ⟨given, made⟩ := session.2
  unfold newSessionId at made
  split at made
  · next valid => rw [← Except.ok.inj made, List.length_map, valid.1]
  · cases made

theorem SessionText.lower (session : SessionText) : session.1.map lower = session.1 := by
  obtain ⟨given, made⟩ := session.2
  unfold newSessionId at made
  split at made
  · rw [← Except.ok.inj made, map_lower_lower]
  · cases made

variable {session : SessionText} {target : Target} {name keyPrefix : Bytes} {layout : Layout}

theorem SessionText.encode {uuid : Uuid} (decoded : uuidDecode session.1 = some uuid) :
    uuidEncode uuid = session.1 := by
  rw [uuidEncode_decoded decoded, session.lower]

def Ending (part rest : Bytes) : Prop := if part = headPart then rest = suffix else rest.head? = some slash

theorem Target.name_own (own : target.own = true) (named : target.name session.1 = .ok name) :
    ∃ rest, Ending target.part rest ∧ name = sessionRoot ++ (target.part ++ (session.1 ++ rest)) := by
  have text : ∀ {found : Option Uuid}, uuidDecode session.1 = found → found.isSome = true →
      (found.map uuidEncode).getD [] = session.1 := by
    intro found decoded present
    obtain ⟨uuid, rfl⟩ := Option.isSome_iff_exists.mp present
    exact SessionText.encode decoded
  cases target with
  | attempt operation id number =>
    simp only [Target.name, unit_bind_eq_ok, Except.ok.injEq] at named
    refine ⟨_, ?_, by rw [← named.2, List.append_assoc, List.append_assoc]; rfl⟩
    exact (if_neg (by decide : ¬attemptPart = headPart)).mpr rfl
  | checkpoint object =>
    simp only [Target.name, objectName, unit_bind_eq_ok, check_eq_ok, Except.ok.injEq, Option.bind_some] at named
    obtain ⟨canonical, _, _, _, _, rfl⟩ := named
    rw [text rfl (canonical (.inr (.inl trivial)))]
    exact ⟨_, (if_neg (by decide : ¬checkpointPart = headPart)).mpr rfl, rfl⟩
  | history object =>
    simp only [Target.name, objectName, unit_bind_eq_ok, check_eq_ok, Except.ok.injEq, Option.bind_some] at named
    obtain ⟨canonical, _, _, _, _, rfl⟩ := named
    rw [text rfl (canonical (.inr (.inr trivial)))]
    exact ⟨_, (if_neg (by decide : ¬historyPart = headPart)).mpr rfl, rfl⟩
  | head =>
    simp only [Target.name, objectName, unit_bind_eq_ok, check_eq_ok, Except.ok.injEq, Option.bind_some] at named
    obtain ⟨canonical, _, _, _, _, rfl⟩ := named
    rw [text rfl (canonical (.inl trivial))]
    exact ⟨_, (if_pos rfl).mpr rfl, rfl⟩
  | _ => cases own

def directory (keyPrefix : Bytes) : Bytes :=
  if keyPrefix = [] then [] else if keyPrefix.getLast? = some slash then keyPrefix else keyPrefix ++ [slash]

theorem prefixOf_container {bucket container : Bytes} (plain : slash ∉ bucket)
    (named : container = bucket ++ slash :: keyPrefix ∨ (keyPrefix = [] ∧ container = bucket)) :
    bucketOf container = bucket ∧ prefixOf container = directory keyPrefix := by
  rcases named with rfl | ⟨rfl, rfl⟩
  · exact ⟨takeWhile_ne_append plain _, prefixOf_append plain keyPrefix⟩
  · exact ⟨takeWhile_ne_self plain, prefixOf_bucket plain⟩

theorem Handle.address_eq {keyed : Keyed} {azParam : List (Bytes × Option Bytes)}
    {zUser zSecret container : Bytes} {handle : Handle}
    (opened : keyed.openContainer azParam zUser zSecret container = .ok handle) (plain : handle.xml = false)
    (relative : name.head? ≠ some slash) :
    handle.address name = some (bucketOf container, prefixOf container ++ name) := by
  cases keyed with
  | s3 =>
    obtain ⟨p, open_p, rfl⟩ := map_eq_ok.mp opened
    rw [address, Container.object, if_neg relative, (s3Open_names open_p).1, (s3Open_names open_p).2]
    rfl
  | google =>
    obtain ⟨p, open_p, rfl⟩ := map_eq_ok.mp opened
    obtain ⟨bucket, front, _, _⟩ := googleOpen_names open_p
    have json : p.bJson = true := by simpa [xml] using plain
    rw [address, Google.address, if_pos json, Google.jsonObjectName, bucket, front]

theorem error_else_eq_ok {condition : Prop} [Decidable condition] {error : Err} {value found : Bytes} :
    (if condition then .error error else .ok value : Except Err Bytes) = .ok found ↔ ¬condition ∧ value = found := by
  split <;> simp [*]

theorem dropLast_slash {text : Bytes} (relative : text.head? ≠ some slash) (trailing : text.getLast? = some slash) :
    text.dropLast ++ [slash] = text ∧ text.dropLast ≠ [] := by
  have whole : text.dropLast ++ [slash] = text := List.dropLast_append_getLast? slash trailing
  refine ⟨whole, fun empty => ?_⟩
  rw [empty] at whole
  rw [← whole] at relative
  exact relative rfl

theorem normalizeCloudPrefix_eq_ok {text normal : Bytes} (normalized : normalizeCloudPrefix text = .ok normal) :
    normal = text ∧ text.head? ≠ some slash := by
  obtain ⟨fine, rfl⟩ := error_else_eq_ok.mp normalized
  have relative : text.head? ≠ some slash := fun first => fine (.inl first)
  refine ⟨?_, relative⟩
  by_cases trailing : text.getLast? = some slash
  · obtain ⟨whole, present⟩ := dropLast_slash relative trailing
    simp [trailing, present, whole]
  · simp [trailing]

theorem directory_append (relative : keyPrefix.head? ≠ some slash) (name : Bytes) :
    let base := if keyPrefix.getLast? = some slash then keyPrefix.dropLast else keyPrefix
    (if base = [] then name else base ++ slash :: name) = directory keyPrefix ++ name := by
  unfold directory
  by_cases empty : keyPrefix = []
  · simp [empty]
  · by_cases trailing : keyPrefix.getLast? = some slash
    · obtain ⟨whole, present⟩ := dropLast_slash relative trailing
      simp only [trailing, if_true, if_neg present, if_neg empty]
      rw [← List.singleton_append, ← List.append_assoc, whole]
    · simp [trailing, empty]

theorem Layout.new_eq_ok (made : Layout.new keyPrefix session = .ok layout) :
    layout =
      { blocksPrefix := directory keyPrefix ++ blocksPart
        attemptPrefix := directory keyPrefix ++ (sessionRoot ++ (attemptPart ++ (session.1 ++ [slash])))
        checkpointPrefix := directory keyPrefix ++ (sessionRoot ++ (checkpointPart ++ (session.1 ++ [slash])))
        historyPrefix := directory keyPrefix ++ (sessionRoot ++ (historyPart ++ (session.1 ++ [slash])))
        headObject := directory keyPrefix ++ (sessionRoot ++ (headPart ++ (session.1 ++ suffix)))
        manifestObject := directory keyPrefix ++ manifestFile
        guardObject := directory keyPrefix ++ (sessionRoot ++ guardName) } := by
  rw [Layout.new, bind_eq_ok] at made
  obtain ⟨normal, normalized, made⟩ := made
  obtain ⟨rfl, relative⟩ := normalizeCloudPrefix_eq_ok normalized
  simp only [directory_append relative] at made
  rw [← Except.ok.inj made]
  simp only [List.append_assoc]
  rfl

theorem Target.name_relative (named : target.name session.1 = .ok name) : name.head? ≠ some slash := by
  by_cases own : target.own = true
  · obtain ⟨rest, _, rfl⟩ := Target.name_own own named
    rw [sessionRoot]
    exact (by decide : some 0x62 ≠ some slash)
  · cases target with
    | block id =>
      cases named
      exact (by decide : some 0x62 ≠ some slash)
    | manifest =>
      cases named
      decide
    | guard =>
      cases named
      decide
    | _ => exact absurd rfl own

theorem Layout.covers (made : Layout.new keyPrefix session = .ok layout)
    (named : target.name session.1 = .ok name) : layout.Covers (directory keyPrefix ++ name) target := by
  have fields := Layout.new_eq_ok made
  subst fields
  by_cases own : target.own = true
  · obtain ⟨rest, ending, rfl⟩ := Target.name_own own named
    have under : rest.head? = some slash → ∀ part : Bytes,
        directory keyPrefix ++ (sessionRoot ++ (part ++ (session.1 ++ [slash]))) <+:
          directory keyPrefix ++ (sessionRoot ++ (part ++ (session.1 ++ rest))) := by
      intro first part
      simp only [List.prefix_append_right_inj]
      cases rest with
      | nil => cases first
      | cons c rest =>
        cases Option.some.inj first
        exact ⟨rest, rfl⟩
    cases target with
    | attempt => exact under ((if_neg (by decide : ¬attemptPart = headPart)).mp ending) attemptPart
    | checkpoint => exact under ((if_neg (by decide : ¬checkpointPart = headPart)).mp ending) checkpointPart
    | history => exact under ((if_neg (by decide : ¬historyPart = headPart)).mp ending) historyPart
    | head => rw [(if_pos rfl).mp ending]; rfl
    | _ => cases own
  · cases target with
    | block id =>
      cases named
      exact ⟨hexUpper id ++ suffix, by simp⟩
    | manifest =>
      cases named
      rfl
    | guard =>
      cases named
      rfl
    | _ => exact absurd rfl own

theorem not_prefix_of_parts {first second : Bytes} (apart : ¬first <+: second ∧ ¬second <+: first)
    (rest rest' : Bytes) :
    ¬first ++ rest <+: second ++ rest' := by
  intro within
  have one : first <+: second ++ rest' := (List.prefix_append first rest).trans within
  rcases List.prefix_or_prefix_of_prefix one (List.prefix_append second rest') with left | right
  · exact apart.1 left
  · exact apart.2 right

theorem not_prefix_of_session {other : SessionText} (distinct : other ≠ session) (rest rest' : Bytes) :
    ¬session.1 ++ rest <+: other.1 ++ rest' := by
  apply not_prefix_of_parts
  constructor
  · intro within
    exact distinct (Subtype.ext (within.eq_of_length (session.length.trans other.length.symm)).symm)
  · intro within
    exact distinct (Subtype.ext (within.eq_of_length (other.length.trans session.length.symm)))

theorem Layout.apart {other : SessionText} (made : Layout.new keyPrefix session = .ok layout)
    (distinct : other ≠ session) (own : target.own = true) (named : target.name other.1 = .ok name) :
    ∀ field ∈ layout.fields, ¬field <+: directory keyPrefix ++ name := by
  have fields := Layout.new_eq_ok made
  subst fields
  obtain ⟨rest, _, rfl⟩ := Target.name_own own named
  -- Either the parts before the sessions are the same, or they are apart.
  have parts : ∀ part ∈ [attemptPart, checkpointPart, historyPart, headPart], ∀ tail : Bytes,
      ¬directory keyPrefix ++ (sessionRoot ++ (part ++ (session.1 ++ tail))) <+:
        directory keyPrefix ++ (sessionRoot ++ (target.part ++ (other.1 ++ rest))) := by
    intro part known tail
    simp only [List.prefix_append_right_inj]
    by_cases same : part = target.part
    · rw [same, List.prefix_append_right_inj]
      exact not_prefix_of_session distinct tail rest
    · apply not_prefix_of_parts
      have table : ∀ one ∈ [attemptPart, checkpointPart, historyPart, headPart],
          ∀ two ∈ [attemptPart, checkpointPart, historyPart, headPart], one ≠ two → ¬one <+: two ∧ ¬two <+: one := by
        decide
      refine table part known target.part ?_ same
      cases target <;> simp [Target.part]
  have shared : ∀ part ∈ [blocksPart, manifestFile, sessionRoot ++ guardName],
      ¬directory keyPrefix ++ part <+:
        directory keyPrefix ++ (sessionRoot ++ (target.part ++ (other.1 ++ rest))) := by
    intro part known
    rw [List.prefix_append_right_inj, ← List.append_nil part, ← List.append_assoc]
    apply not_prefix_of_parts
    have table : ∀ one ∈ [blocksPart, manifestFile, sessionRoot ++ guardName],
        ∀ two ∈ [attemptPart, checkpointPart, historyPart, headPart],
          ¬one <+: sessionRoot ++ two ∧ ¬sessionRoot ++ two <+: one := by
      decide
    refine table part known target.part ?_
    cases target <;> simp [Target.part]
  simp only [Layout.fields, List.forall_mem_cons]
  exact ⟨shared _ (by simp), parts _ (by simp) _, parts _ (by simp) _, parts _ (by simp) _, parts _ (by simp) _,
    shared _ (by simp), shared _ (by simp), fun _ absent => nomatch absent⟩

/-- The objects that a session writes into the container of a prefix are where its layout says, and none of
another session's own objects is. -/
theorem layout_separates {keyPrefix bucket container : Bytes} {session : SessionText} {layout : Layout}
    (made : Layout.new keyPrefix session = .ok layout) (plain : slash ∉ bucket)
    (named : container = bucket ++ slash :: keyPrefix ∨ (keyPrefix = [] ∧ container = bucket)) {keyed : Keyed}
    {azParam : List (Bytes × Option Bytes)} {zUser zSecret : Bytes} {handle : Handle}
    (opened : keyed.openContainer azParam zUser zSecret container = .ok handle) (json : handle.xml = false) :
    (∀ target name, Target.name session.1 target = .ok name →
      ∃ key, handle.address name = some (bucket, key) ∧ layout.Covers key target) ∧
    ∀ other : SessionText, other ≠ session → ∀ target name, target.own = true →
      Target.name other.1 target = .ok name →
      ∃ key, handle.address name = some (bucket, key) ∧ ∀ field ∈ layout.fields, ¬field <+: key := by
  obtain ⟨isBucket, isPrefix⟩ := prefixOf_container plain named
  have address : ∀ {owner : SessionText} {target name}, Target.name owner.1 target = .ok name →
      handle.address name = some (bucket, directory keyPrefix ++ name) := by
    intro owner target name found
    rw [Handle.address_eq opened json (Target.name_relative found), isBucket, isPrefix]
  constructor
  · intro target name found
    exact ⟨_, address found, Layout.covers made found⟩
  · intro other distinct target name own found
    exact ⟨_, address found, Layout.apart made distinct own found⟩

def sampleSession : SessionText :=
  ⟨ascii "550e8400-e29b-41d4-a716-446655440000", ascii "550E8400-e29b-41d4-a716-446655440000", by decide +kernel⟩

def neighbourSession : SessionText :=
  ⟨ascii "550e8400-e29b-41d4-a716-446655440001", ascii "550E8400-e29b-41d4-a716-446655440001", by decide +kernel⟩

theorem layout_separates_sample :
    ∃ layout handle name other key elsewhere, Layout.new (ascii "p") sampleSession = .ok layout ∧
      sampleHandle sampleParams samplePlain = .ok handle ∧ Target.name sampleSession.1 .head = .ok name ∧
      handle.address name = some (ascii "b", key) ∧ key = layout.headObject ∧
      Target.name neighbourSession.1 .head = .ok other ∧ handle.address other = some (ascii "b", elsewhere) ∧
      ∀ field ∈ layout.fields, ¬field <+: elsewhere := by
  have made : Layout.new (ascii "p") sampleSession = .ok _ := rfl
  have opened : Keyed.google.openContainer sampleParams [] [] samplePlain = .ok _ := rfl
  have named : Target.name sampleSession.1 .head = .ok _ := rfl
  have other : Target.name neighbourSession.1 .head = .ok _ := rfl
  have plain : slash ∉ ascii "b" := by decide
  have distinct : neighbourSession ≠ sampleSession := by decide
  obtain ⟨covers, apart⟩ := layout_separates made plain (.inl rfl) opened rfl
  obtain ⟨key, found, covered⟩ := covers .head _ named
  obtain ⟨elsewhere, there, outside⟩ := apart neighbourSession distinct .head _ rfl other
  exact ⟨_, _, _, _, key, elsewhere, made, opened, named, found, covered, other, there, outside⟩

end RusqDoltlite.Cloud

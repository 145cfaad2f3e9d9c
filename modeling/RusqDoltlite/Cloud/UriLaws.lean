import RusqDoltlite.Cloud.Containers
import RusqDoltlite.Cloud.Uri

/-! What `CloudConnectionUri::gcs` accepts, and what its parts become. -/

namespace RusqDoltlite.Cloud

open Session Codec S3 Wire

theorem decodeBytes_cons {byte : UInt8} (space : byte ≠ 0x2b) (plain : byte ≠ Percent.percent) (rest : Bytes) :
    decodeBytes (byte :: rest) = (decodeBytes rest).map (byte :: ·) := by
  rw [decodeBytes.eq_def]
  simp only [if_neg space, if_neg plain]

section Components

variable {keep : UInt8 → Bool} (plus : keep 0x2b = false) (marked : keep Percent.percent = false)
include plus marked

theorem decodeBytes_encode (bytes : Bytes) : decodeBytes (Percent.encode keep bytes) = some bytes := by
  induction bytes with
  | nil => rfl
  | cons byte bytes ih =>
    rw [Percent.encode_cons, Percent.encodeByte]
    split
    · next kept =>
        have plain : byte ≠ 0x2b ∧ byte ≠ Percent.percent := by
          constructor <;> rintro rfl <;> simp_all
        rw [List.singleton_append, decodeBytes_cons plain.1 plain.2, ih]
        rfl
    · rw [List.cons_append, decodeBytes.eq_def]
      simp only [List.cons_append, List.nil_append, Percent.escaped_digits, Option.bind_some, ih, Option.map_some]
      rfl

end Components

def kept (preserveSlashes : Bool) (byte : UInt8) : Bool :=
  isAlnum byte || byte == 0x2d || byte == dot || byte == 0x5f || byte == 0x7e || (preserveSlashes && byte == slash)

theorem percentEncode_eq (value : Bytes) (preserveSlashes : Bool) :
    percentEncode value preserveSlashes = Percent.encode (kept preserveSlashes) value := rfl

theorem decodeUriComponent_percentEncode (value : Str) (preserveSlashes : Bool) :
    decodeUriComponent (percentEncode value.1 preserveSlashes) = .ok value.1 := by
  have decoded : decodeBytes (percentEncode value.1 preserveSlashes) = some value.1 := by
    rw [percentEncode_eq]
    apply decodeBytes_encode <;> cases preserveSlashes <;> rfl
  rw [decodeUriComponent, decoded]
  exact if_pos value.2

def separators : List UInt8 := [0x3f, 0x23, 0x26, 0x3d, 0x3a]

theorem not_mem_percentEncode {c : UInt8} (member : c ∈ separators) (value : Bytes) (preserveSlashes : Bool) :
    c ∉ percentEncode value preserveSlashes := by
  have facts : separators.all (fun c => !kept preserveSlashes c && c != Percent.percent &&
      (Percent.digitValue c).isNone) = true := by
    cases preserveSlashes <;> decide
  have fact := List.all_eq_true.mp facts c member
  simp only [Bool.and_eq_true, Bool.not_eq_true', bne_iff_ne, Option.isNone_iff_eq_none] at fact
  obtain ⟨⟨replaced, sign⟩, outside⟩ := fact
  exact Percent.not_mem_encode replaced sign outside value

theorem slash_not_mem_percentEncode (value : Bytes) : slash ∉ percentEncode value false :=
  Percent.not_mem_encode (by decide) (by decide) (by decide) value

def parameter (option : Bytes × Bytes) : Bytes := option.1 ++ 0x3d :: percentEncode option.2 false

def PlainKey (key : Bytes) : Prop := 0x3d ∉ key ∧ 0x26 ∉ key ∧ decodeUriComponent key = .ok key

variable {options : Options} {ipv6 : Bytes → Bool} {uri : CloudUri}

theorem Options.insert_parameter {option : Bytes × Bytes} (key : PlainKey option.1)
    (text : utf8 option.2 = true) (fresh : ∀ earlier ∈ options, earlier.1 ≠ option.1) :
    options.insert (parameter option) = .ok (options ++ [option]) := by
  have value : decodeUriComponent (percentEncode option.2 false) = .ok option.2 :=
    decodeUriComponent_percentEncode ⟨option.2, text⟩ false
  have absent : options.any (·.1 == option.1) = false := by
    simpa using fresh
  rw [Options.insert, parameter, if_neg (by simp), takeWhile_ne_append key.1, dropWhile_ne_append key.1,
    List.tail_cons, key.2.2, value]
  simp [bind, Except.bind, check, absent]

theorem foldlM_insert_parameters (earlier options : Options) (keys : ∀ option ∈ options, PlainKey option.1)
    (texts : ∀ option ∈ options, utf8 option.2 = true) (distinct : ((earlier ++ options).map (·.1)).Nodup) :
    (options.map parameter).foldlM Options.insert earlier = .ok (earlier ++ options) := by
  induction options generalizing earlier with
  | nil =>
    rw [List.append_nil]
    rfl
  | cons option options ih =>
    have fresh : ∀ other ∈ earlier, other.1 ≠ option.1 := by
      intro other member same
      rw [List.map_append, List.nodup_append] at distinct
      exact distinct.2.2 _ (List.mem_map_of_mem member) _ (List.mem_map_of_mem List.mem_cons_self) same
    rw [List.map_cons, List.foldlM_cons,
      Options.insert_parameter (keys _ List.mem_cons_self) (texts _ List.mem_cons_self) fresh]
    have later := ih (earlier ++ [option]) (fun other member => keys other (List.mem_cons_of_mem _ member))
      (fun other member => texts other (List.mem_cons_of_mem _ member)) (by simpa using distinct)
    rw [List.append_assoc, List.singleton_append] at later
    exact later

theorem ampersand_not_mem_parameter {option : Bytes × Bytes} (key : PlainKey option.1) :
    0x26 ∉ parameter option := by
  simp [parameter, key.2.1, not_mem_percentEncode (c := 0x26) (by decide)]

theorem readOptions_parameters (present : options ≠ []) (keys : ∀ option ∈ options, PlainKey option.1)
    (texts : ∀ option ∈ options, utf8 option.2 = true) (distinct : (options.map (·.1)).Nodup) :
    readOptions ([0x26].intercalate (options.map parameter)) = .ok options := by
  have separate : ∀ text ∈ options.map parameter, 0x26 ∉ text := by
    intro text member
    obtain ⟨option, present, rfl⟩ := List.mem_map.mp member
    exact ampersand_not_mem_parameter (keys option present)
  rw [readOptions, List.splitOn_intercalate _ separate (by simpa using present)]
  exact foldlM_insert_parameters [] options keys texts distinct

/-- Encoding does not make a bucket valid, and it keeps a valid one. -/
theorem validBucket_percentEncode (bucket : Bytes) :
    validBucket (percentEncode bucket false) = validBucket bucket ∧
      (validBucket bucket = true → percentEncode bucket false = bucket) := by
  have same : bucket.all (fun byte => isAlnum byte || byte == dot || byte == 0x5f || byte == 0x2d) = true →
      percentEncode bucket false = bucket := by
    intro all
    rw [percentEncode_eq]
    induction bucket with
    | nil => rfl
    | cons byte bucket ih =>
      rw [List.all_cons, Bool.and_eq_true] at all
      have stays : kept false byte = true := by
        have first := all.1
        simp only [Bool.or_eq_true] at first
        simp only [kept, Bool.or_eq_true]
        tauto
      rw [Percent.encode_cons, Percent.encodeByte, if_pos stays, ih all.2, List.singleton_append]
  have back : (percentEncode bucket false).all
        (fun byte => isAlnum byte || byte == dot || byte == 0x5f || byte == 0x2d) = true →
      bucket.all (fun byte => isAlnum byte || byte == dot || byte == 0x5f || byte == 0x2d) = true := by
    rw [percentEncode_eq]
    intro all
    rw [List.all_eq_true] at all ⊢
    intro byte member
    have inside : ∀ c ∈ Percent.encodeByte (kept false) byte, c ∈ Percent.encode (kept false) bucket :=
      fun c here => List.mem_flatMap.mpr ⟨byte, member, here⟩
    rw [Percent.encodeByte] at inside
    split at inside
    · exact all byte (inside byte (List.mem_singleton.mpr rfl))
    · exact absurd (all Percent.percent (inside _ List.mem_cons_self)) (by decide)
  constructor
  · by_cases all : bucket.all (fun byte => isAlnum byte || byte == dot || byte == 0x5f || byte == 0x2d) = true
    · rw [same all]
    · rw [validBucket, validBucket, Bool.eq_false_of_not_eq_true all,
        Bool.eq_false_of_not_eq_true fun encoded => all (back encoded)]
      simp
  · intro valid
    simp only [validBucket, Bool.and_eq_true] at valid
    exact same valid.1.1.2

theorem parseLocation_encoded {bucket keyPrefix : Str} {place : Bytes × Bytes} :
    parseLocation (percentEncode bucket.1 false ++ slash :: percentEncode keyPrefix.1 true) = .ok place ↔
      validBucket bucket.1 = true ∧ ∃ normal, normalizeCloudPrefix keyPrefix.1 = .ok normal ∧
        (bucket.1, normal) = place := by
  have plain := slash_not_mem_percentEncode bucket.1
  rw [parseLocation, takeWhile_ne_append plain, dropWhile_ne_append plain, List.tail_cons,
    decodeUriComponent_percentEncode, bind_eq_ok]
  simp only [Except.ok.injEq, exists_eq_left', unit_bind_eq_ok, check_eq_ok, (validBucket_percentEncode bucket.1).1]
  apply and_congr_right
  intro valid
  rw [bind_eq_ok, (validBucket_percentEncode bucket.1).2 valid]
  simp only [Except.ok.injEq]

def gcsOptions (project accessToken database : Bytes) (endpoint : Option Bytes) : Options :=
  [(vfsKey, blockcachevfs), (projectKey, project), (accessTokenKey, accessToken), (databaseKey, database)] ++
    (endpoint.map (endpointKey, ·)).toList

theorem gcsText_eq (bucket keyPrefix project accessToken database : Str) (endpoint : Option Str) :
    gcsText bucket keyPrefix project accessToken database endpoint =
      gcsScheme ++ 0x3a :: 0x2f :: 0x2f ::
        (percentEncode bucket.1 false ++ slash :: percentEncode keyPrefix.1 true ++
        0x3f :: [0x26].intercalate ((gcsOptions project.1 accessToken.1 database.1
          (endpoint.map (·.1))).map parameter)) := by
  have front : ascii "gcs://" = gcsScheme ++ [0x3a, 0x2f, 0x2f] := by decide +kernel
  have vfs : ascii "?vfs=blockcachevfs&project=" =
      0x3f :: vfsKey ++ 0x3d :: percentEncode blockcachevfs false ++ 0x26 :: projectKey ++ [0x3d] := by
    decide +kernel
  have token : ascii "&access_token=" = 0x26 :: accessTokenKey ++ [0x3d] := by decide +kernel
  have name : ascii "&database=" = 0x26 :: databaseKey ++ [0x3d] := by decide +kernel
  have last : ascii "&endpoint=" = 0x26 :: endpointKey ++ [0x3d] := by decide +kernel
  cases endpoint <;>
    simp [gcsText, gcsOptions, parameter, List.intercalate, List.intersperse, front, vfs, token, name, last]

theorem forall_mem_gcsOptions {p : Bytes × Bytes → Prop} {project accessToken database : Bytes}
    {endpoint : Option Bytes} :
    (∀ option ∈ gcsOptions project accessToken database endpoint, p option) ↔
      p (vfsKey, blockcachevfs) ∧ p (projectKey, project) ∧ p (accessTokenKey, accessToken) ∧
        p (databaseKey, database) ∧ ∀ value ∈ endpoint, p (endpointKey, value) := by
  cases endpoint <;> simp [gcsOptions]

theorem plainKey_gcs :
    PlainKey vfsKey ∧ PlainKey projectKey ∧ PlainKey accessTokenKey ∧ PlainKey databaseKey ∧ PlainKey endpointKey :=
  ⟨⟨by decide, by decide, by decide +kernel⟩, ⟨by decide, by decide, by decide +kernel⟩,
    ⟨by decide, by decide, by decide +kernel⟩, ⟨by decide, by decide, by decide +kernel⟩,
    ⟨by decide, by decide, by decide +kernel⟩⟩

theorem gcsOptions_read (project accessToken database : Str) (endpoint : Option Str) :
    readOptions ([0x26].intercalate ((gcsOptions project.1 accessToken.1 database.1
      (endpoint.map (·.1))).map parameter)) = .ok (gcsOptions project.1 accessToken.1 database.1
        (endpoint.map (·.1))) := by
  apply readOptions_parameters
  · simp [gcsOptions]
  · obtain ⟨vfs, projects, tokens, databases, endpoints⟩ := plainKey_gcs
    exact forall_mem_gcsOptions.mpr ⟨vfs, projects, tokens, databases, fun _ _ => endpoints⟩
  · refine forall_mem_gcsOptions.mpr ⟨by decide, project.2, accessToken.2, database.2, fun value member => ?_⟩
    obtain ⟨text, _, rfl⟩ := Option.map_eq_some_iff.mp member
    exact text.2
  · cases endpoint with
    | none => exact (by decide : [vfsKey, projectKey, accessTokenKey, databaseKey].Nodup)
    | some _ => exact (by decide : [vfsKey, projectKey, accessTokenKey, databaseKey, endpointKey].Nodup)

/-- What `gcs` demands of the values of its options, each on its own. -/
structure GcsValid (ipv6 : Bytes → Bool) (project accessToken database : Bytes) (endpoint : Option Bytes) :
    Prop where
  project_ne : project ≠ []
  accessToken_valid : validCredential accessToken = true
  database_valid : validDatabase database = true
  database_unlocked : lockName database = false
  endpoint_valid : ∀ value ∈ endpoint, validEndpoint ipv6 value = true

theorem require_eq_ok {value : Option Bytes} {test : Bytes → Bool} {message : String} {found : Bytes} :
    require value test message = .ok found ↔ value = some found ∧ test found = true := by
  unfold require
  cases value with
  | none => simp
  | some value =>
    by_cases good : test value = true
    · rw [Option.filter_some_pos good]
      constructor
      · rintro ⟨⟩
        exact ⟨rfl, good⟩
      · rintro ⟨⟨⟩, _⟩
        rfl
    · rw [Option.filter_some_neg (Bool.eq_false_of_not_eq_true good)]
      constructor
      · rintro ⟨⟩
      · rintro ⟨⟨⟩, passed⟩
        exact absurd passed good

theorem gcsOptions_remove (project accessToken database : Bytes) (endpoint : Option Bytes) :
    let options := gcsOptions project accessToken database endpoint
    options.remove vfsKey = (some blockcachevfs, options.tail) ∧
    Options.remove options.tail blockSizeKey = (none, options.tail) ∧
    Options.remove options.tail projectKey = (some project, options.drop 2) ∧
    Options.remove (options.drop 2) accessTokenKey = (some accessToken, options.drop 3) ∧
    Options.remove (options.drop 3) databaseKey = (some database, options.drop 4) ∧
    Options.remove (options.drop 4) endpointKey = (endpoint, []) := by
  cases endpoint <;> exact ⟨rfl, rfl, rfl, rfl, rfl, rfl⟩

theorem finish_eq_ok {base : CloudUri} : finish ipv6 base options = .ok uri ↔
      let database := options.remove databaseKey
      let endpoint := database.2.remove endpointKey
      let upload := endpoint.2.remove uploadConcurrencyKey
      validDatabase (database.1.getD defaultDatabase) = true ∧ lockName (database.1.getD defaultDatabase) = false ∧
        endpoint.1.all (validEndpoint ipv6) = true ∧
        ∃ uploadConcurrency, parseUploadConcurrency upload.1 = .ok uploadConcurrency ∧ upload.2 = [] ∧
          { base with database := database.1.getD defaultDatabase, endpoint := endpoint.1,
                      uploadConcurrency } = uri := by
  simp only [finish, unit_bind_eq_ok, check_eq_ok]
  rw [bind_eq_ok]
  simp only [unit_bind_eq_ok, check_eq_ok, Except.ok.injEq]

theorem parseGoogle_eq_ok {storage : CloudStorage × Options} : parseGoogle options = .ok storage ↔
      ∃ project accessToken, (options.remove projectKey).1 = some project ∧ project ≠ [] ∧
        ((options.remove projectKey).2.remove accessTokenKey).1 = some accessToken ∧
        validCredential accessToken = true ∧
        (.google project accessToken, ((options.remove projectKey).2.remove accessTokenKey).2) = storage := by
  rw [parseGoogle, bind_eq_ok]
  constructor
  · rintro ⟨project, found, rest⟩
    obtain ⟨accessToken, found', made⟩ := bind_eq_ok.mp rest
    rw [require_eq_ok] at found found'
    exact ⟨project, accessToken, found.1, by simpa using found.2, found'.1, found'.2, Except.ok.inj made⟩
  · rintro ⟨project, accessToken, found, present, found', valid, made⟩
    refine ⟨project, require_eq_ok.mpr ⟨found, by simpa using present⟩, bind_eq_ok.mpr ⟨accessToken, ?_, ?_⟩⟩
    · exact require_eq_ok.mpr ⟨found', valid⟩
    · exact congrArg Except.ok made

theorem parseOptions_eq_ok {scheme bucket keyPrefix text : Bytes} :
    parseOptions ipv6 scheme bucket keyPrefix text options = .ok uri ↔
      let vfs := options.remove vfsKey
      let block := vfs.2.remove blockSizeKey
      vfs.1 = some blockcachevfs ∧ ∃ blockSize, parseBlockSize block.1 = .ok blockSize ∧
        ∃ storage, parseStorage scheme block.2 = .ok storage ∧
          finish ipv6 { bucket, keyPrefix, database := [], storage := storage.1, endpoint := none,
                        uploadConcurrency := none, uri := text, blockSize } storage.2 = .ok uri := by
  simp only [parseOptions, unit_bind_eq_ok, check_eq_ok]
  rw [bind_eq_ok]
  simp only [bind_eq_ok]

theorem parseOptions_gcsOptions {bucket keyPrefix text project accessToken database : Bytes}
    {endpoint : Option Bytes} :
    parseOptions ipv6 gcsScheme bucket keyPrefix text (gcsOptions project accessToken database endpoint) = .ok uri ↔
      GcsValid ipv6 project accessToken database endpoint ∧
        uri = { bucket, keyPrefix, database, storage := .google project accessToken, endpoint,
                uploadConcurrency := none, uri := text, blockSize := none } := by
  obtain ⟨vfs, block, projects, tokens, databases, endpoints⟩ :=
    gcsOptions_remove project accessToken database endpoint
  have upload : Options.remove [] uploadConcurrencyKey = (none, []) := rfl
  simp only [parseOptions_eq_ok, vfs, block, parseBlockSize, parseStorage, if_pos,
    parseGoogle_eq_ok, projects, tokens,
    true_and, Except.ok.injEq, Option.some.injEq]
  constructor
  · rintro ⟨_, rfl, _, ⟨_, _, rfl, present, rfl, valid, rfl⟩, finished⟩
    simp only [finish_eq_ok, databases, endpoints, upload, parseUploadConcurrency, Option.getD_some] at finished
    obtain ⟨valid', unlocked, reached, _, ⟨⟩, _, rfl⟩ := finished
    exact ⟨⟨present, valid, valid', unlocked, Option.all_eq_true _ _ |>.mp reached⟩, rfl⟩
  · rintro ⟨valid, rfl⟩
    refine ⟨_, rfl, _, ⟨_, _, rfl, valid.project_ne, rfl, valid.accessToken_valid, rfl⟩, ?_⟩
    simp only [finish_eq_ok, databases, endpoints, upload, parseUploadConcurrency, Option.getD_some]
    exact ⟨valid.database_valid, valid.database_unlocked,
      (Option.all_eq_true _ _).mpr valid.endpoint_valid, none, rfl,
      trivial, rfl⟩

theorem splitScheme_gcs (rest : Bytes) :
    splitScheme (gcsScheme ++ 0x3a :: 0x2f :: 0x2f :: rest) = some (gcsScheme, rest) := rfl

/-- `gcs` takes its arguments exactly when each of them keeps its own rule, and then the parts of the URI are
the arguments, with the prefix in its normal form. -/
theorem gcsUri_eq_ok_iff (ipv6 : Bytes → Bool) (bucket keyPrefix project accessToken database : Str)
    (endpoint : Option Str) (uri : CloudUri) :
    gcsUri ipv6 bucket keyPrefix project accessToken database endpoint = .ok uri ↔
      validBucket bucket.1 = true ∧ GcsValid ipv6 project.1 accessToken.1 database.1 (endpoint.map (·.1)) ∧
        ∃ normal, normalizeCloudPrefix keyPrefix.1 = .ok normal ∧
          uri = { bucket := bucket.1, keyPrefix := normal, database := database.1,
                  storage := .google project.1 accessToken.1, endpoint := endpoint.map (·.1),
                  uploadConcurrency := none,
                  uri := gcsText bucket keyPrefix project accessToken database endpoint, blockSize := none } := by
  rw [gcsUri, parse, gcsText_eq, splitScheme_gcs]
  have location : 0x3f ∉ percentEncode bucket.1 false ++ slash :: percentEncode keyPrefix.1 true ∧
      0x23 ∉ percentEncode bucket.1 false ++ slash :: percentEncode keyPrefix.1 true := by
    simp [not_mem_percentEncode (c := 0x3f) (by decide), not_mem_percentEncode (c := 0x23) (by decide), slash]
  have query : 0x23 ∉ [0x26].intercalate ((gcsOptions project.1 accessToken.1 database.1
      (endpoint.map (·.1))).map parameter) := by
    have keys : 0x23 ∉ vfsKey ∧ 0x23 ∉ projectKey ∧ 0x23 ∉ accessTokenKey ∧ 0x23 ∉ databaseKey ∧
        0x23 ∉ endpointKey := by decide
    cases endpoint <;> simp [gcsOptions, List.intercalate, List.intersperse, parameter, keys,
      not_mem_percentEncode (c := 0x23) (by decide)]
  simp only [unit_bind_eq_ok, check_eq_ok]
  rw [takeWhile_ne_append location.1, dropWhile_ne_append location.1, List.tail_cons, gcsOptions_read, bind_eq_ok]
  simp only [bind_eq_ok, Except.ok.injEq, exists_eq_left', parseOptions_gcsOptions, parseLocation_encoded]
  constructor
  · rintro ⟨_, _, _, _, ⟨valid, normal, normalized, rfl⟩, rules, rfl⟩
    exact ⟨valid, rules, normal, normalized, rfl⟩
  · rintro ⟨valid, rules, normal, normalized, rfl⟩
    refine ⟨.inl trivial, List.mem_append_right _ List.mem_cons_self, ?_, _, ⟨valid, normal, normalized, rfl⟩, rules,
      rfl⟩
    rw [List.mem_append, List.mem_cons]
    rintro (early | here | late)
    · exact location.2 early
    · cases here
    · exact query late

end RusqDoltlite.Cloud

import RusqDoltlite.S3.Canonical

/-! The requests of an opened S3 container against the canonical request of their receiver. -/

namespace RusqDoltlite.S3

open Session Codec Wire Canonical

/-- What `bcvS3Open` establishes, and every call keeps. -/
structure Opened (p : Container) : Prop where
  scheme : p.zScheme = http ∨ p.zScheme = https
  host_slash : slash ∉ p.zHost
  host_query : 0x3f ∉ p.zHost
  host_space : space ∉ p.zHost
  base_query : 0x3f ∉ p.zBasePath
  base_newline : newline ∉ p.zBasePath
  base_style : p.bPathStyle = false → p.zBasePath = []
  base_head : p.zBasePath ≠ [] → p.zBasePath.head? = some slash
  bucket : slash ∉ p.zBucket
  body : p.zRegion = usEast1 → p.zCreateBody = none

variable {text rest zPath : Bytes} {c : UInt8} {p : Container} {matching : Option (Bytes × Bytes)}
  {pair : Bytes × Bytes}

theorem not_mem_of_all {test : UInt8 → Bool} (all : text.all test = true) (fails : test c = false) :
    c ∉ text := by
  intro member
  have holds := List.all_eq_true.mp all c member
  rw [fails] at holds
  cases holds

theorem validText_all {bSlash : Bool} (valid : validText text bSlash = true) :
    text.all (fun c => !(c < 0x20 || c == 0x7f || (!bSlash && c == slash))) = true :=
  (Bool.and_eq_true_iff.mp valid).2

theorem endpointLocation_parts {zEndpoint : Bytes} {location : Location}
    (found : endpointLocation zEndpoint = .ok location) :
    ∃ rest, zEndpoint = location.zScheme ++ 0x3a :: 0x2f :: 0x2f :: rest ∧
      (location.zScheme = http ∨ location.zScheme = https) ∧
      validText zEndpoint true = true ∧ 0x20 ∉ zEndpoint ∧ 0x3f ∉ zEndpoint ∧
      location.zHost = authorityOf rest ∧ location.zBasePath = (pathOf rest).rdropWhile (· == slash) ∧
      location.bPathStyle = true := by
  rw [endpointLocation, unit_bind_eq_ok, check_eq_ok] at found
  obtain ⟨text, found⟩ := found
  cases split : splitScheme zEndpoint with
  | none =>
    rw [split] at found
    cases found
  | some parts =>
    obtain ⟨scheme, rest⟩ := parts
    rw [split] at found
    simp only [unit_bind_eq_ok, check_eq_ok] at found
    obtain ⟨known, host, made⟩ := found
    cases made
    exact ⟨rest, splitScheme_eq_some split, known.1, text.1, text.2, known.2.1, rfl, rfl, rfl⟩

theorem mem_of_mem_authorityOf (member : c ∈ authorityOf rest) : c ∈ rest :=
  (List.takeWhile_prefix _).mem member

theorem mem_of_mem_base (member : c ∈ (pathOf rest).rdropWhile (· == slash)) : c ∈ rest :=
  (List.dropWhile_suffix _).mem ((List.rdropWhile_prefix _ _).mem member)

theorem head?_base (present : (pathOf rest).rdropWhile (· == slash) ≠ []) :
    ((pathOf rest).rdropWhile (· == slash)).head? = some slash := by
  obtain ⟨tail, whole⟩ := List.rdropWhile_prefix (· == slash) (pathOf rest)
  cases base : (pathOf rest).rdropWhile (· == slash) with
  | nil => exact absurd base present
  | cons c more =>
    rw [base] at whole
    have first : (pathOf rest).head? = some c := by rw [← whole]; rfl
    have stop := List.head?_dropWhile_not (fun c => c != 0x2f) rest
    rw [show rest.dropWhile (fun c => c != 0x2f) = pathOf rest from rfl, first] at stop
    simp only [bne_eq_false_iff_eq] at stop
    rw [stop]
    rfl

theorem not_mem_awsHost {zBucket zRegion : Bytes} (dns : validDnsBucket zBucket = true)
    (region : validRegion zRegion = true) (other : isAlnum c = false) (dash : c ≠ 0x2d) (apart : c ≠ dot) :
    c ∉ (awsLocation zBucket zRegion).zHost := by
  have small : isLower c = false ∧ isDigit c = false := by
    simp only [isAlnum, Bool.or_eq_false_iff] at other
    exact ⟨other.1.2, other.2⟩
  have outBucket : c ∉ zBucket := by
    simp only [validDnsBucket, Bool.and_eq_true] at dns
    exact not_mem_of_all dns.1.2 (by simp [small, dash, apart])
  have outRegion : c ∉ zRegion := by
    simp only [validRegion, Bool.and_eq_true] at region
    exact not_mem_of_all region.2 (by simp [other, dash, apart])
  have fixed : ∀ text : Bytes, text.all (fun c => isAlnum c || c == dot) = true → c ∉ text := by
    intro text all
    exact not_mem_of_all all (by simp [other, apart])
  have outAmazon := fixed amazon (by decide)
  rw [awsLocation]
  split
  · simp only [List.mem_append, List.mem_cons, not_or]
    exact ⟨⟨fixed _ (by decide), outRegion⟩, apart, outAmazon⟩
  · simp only [List.mem_append, List.mem_cons, not_or]
    exact ⟨⟨⟨outBucket, fixed _ (by decide)⟩, outRegion⟩, apart, outAmazon⟩

theorem opened_of_s3Open {azParam : List (Bytes × Option Bytes)} {zUser zSecret zContainer : Bytes}
    (opened : s3Open azParam zUser zSecret zContainer = .ok p) : Opened p := by
  rw [s3Open, bind_eq_ok] at opened
  obtain ⟨settings, _, opened⟩ := opened
  simp only [unit_bind_eq_ok, check_eq_ok] at opened
  obtain ⟨_, region, _, _, _, dns, opened⟩ := opened
  rw [bind_eq_ok] at opened
  obtain ⟨location, found, made⟩ := opened
  cases made
  cases endpoint : settings.zEndpoint with
  | none =>
    rw [endpoint, locate] at found
    cases found
    have outside := fun {c : UInt8} => not_mem_awsHost (c := c) (dns endpoint) region
    have style : (awsLocation (zContainer.takeWhile (· != slash)) settings.zRegion).zBasePath = [] ∧
        (awsLocation (zContainer.takeWhile (· != slash)) settings.zRegion).zScheme = https := by
      rw [awsLocation]
      split <;> exact ⟨rfl, rfl⟩
    exact {
      scheme := .inr style.2
      host_slash := outside (by decide) (by decide) (by decide)
      host_query := outside (by decide) (by decide) (by decide)
      host_space := outside (by decide) (by decide) (by decide)
      base_query := by rw [style.1]; exact List.not_mem_nil
      base_newline := by rw [style.1]; exact List.not_mem_nil
      base_style := fun _ => style.1
      base_head := fun present => absurd style.1 present
      bucket := not_mem_takeWhile_ne slash zContainer
      body := fun _ => rfl }
  | some zEndpoint =>
    rw [endpoint, locate] at found
    obtain ⟨rest, whole, known, text, blank, question, host, base, style⟩ :=
      endpointLocation_parts found
    have inside : ∀ {c : UInt8}, c ∈ rest → c ∈ zEndpoint := by
      intro c member
      rw [whole]
      simp only [List.mem_append, List.mem_cons]
      exact .inr (.inr (.inr (.inr member)))
    have control : newline ∉ zEndpoint := not_mem_of_all (validText_all text) (by decide)
    exact {
      scheme := known
      host_slash := by rw [host]; exact not_mem_takeWhile_ne slash rest
      host_query := by rw [host]; exact fun member => question (inside (mem_of_mem_authorityOf member))
      host_space := by rw [host]; exact fun member => blank (inside (mem_of_mem_authorityOf member))
      base_query := by rw [base]; exact fun member => question (inside (mem_of_mem_base member))
      base_newline := by rw [base]; exact fun member => control (inside (mem_of_mem_base member))
      base_style := fun other => by rw [style] at other; cases other
      base_head := by rw [base]; exact head?_base
      bucket := not_mem_takeWhile_ne slash zContainer
      body := fun _ => rfl }

theorem Opened.queue (valid : Opened p) (crypto : Crypto) (time : Time) (call : Call) :
    Opened (p.queue crypto time call).2 := by
  cases call with
  | create =>
    have body : p.zRegion = usEast1 → p.createBody = none := by
      intro home
      rw [Container.createBody, if_pos home, valid.body home]
    exact { valid with body }
  | _ => exact valid

theorem Opened.after (valid : Opened p) (crypto : Crypto) (calls : List (Time × Call)) :
    Opened (p.after crypto calls) := by
  induction calls generalizing p with
  | nil => exact valid
  | cons call calls ih => exact ih (valid.queue crypto call.1 call.2)

theorem keepPath_percent : keepPath Percent.percent = false := by decide

theorem urlSafe_percent : urlSafe Percent.percent = false := by decide

theorem s3Encode_true (text : Bytes) : s3Encode text true = Percent.encode keepPath text := rfl

theorem s3Encode_false (text : Bytes) : s3Encode text false = Percent.encode urlSafe text := by
  rw [s3Encode]
  congr 1
  funext c
  rw [Bool.false_and, Bool.or_false]

theorem s3Encode_eq_of_not_mem (free : slash ∉ text) :
    s3Encode text false = Percent.encode keepPath text := by
  rw [s3Encode_false]
  induction text with
  | nil => rfl
  | cons c rest ih =>
    rw [List.mem_cons, not_or] at free
    have same : keepPath c = urlSafe c := by
      rw [keepPath, beq_false_of_ne (Ne.symm free.1), Bool.or_false]
    rw [Percent.encode_cons, Percent.encode_cons, ih free.2, Percent.encodeByte, Percent.encodeByte, same]

def Container.resource (p : Container) (zObject : Bytes) : Bytes :=
  if p.bPathStyle then p.zBucket ++ if zObject = [] then [] else slash :: zObject else zObject

theorem encode_keepPath_slash (text : Bytes) :
    Percent.encode keepPath (slash :: text) = slash :: Percent.encode keepPath text := rfl

theorem s3Encode_eq_nil_iff (text : Bytes) : s3Encode text true = [] ↔ text = [] := by
  cases text with
  | nil => exact ⟨fun _ => rfl, fun _ => rfl⟩
  | cons c rest =>
    rw [s3Encode_true, Percent.encode_cons, Percent.encodeByte]
    split <;> simp

theorem Opened.path_eq (valid : Opened p) (zObject : Bytes) :
    p.path zObject = p.zBasePath ++ slash :: Percent.encode keepPath (p.resource zObject) := by
  rw [Container.path, Container.resource]
  split
  · rw [s3Encode_eq_of_not_mem valid.bucket]
    simp only [s3Encode_eq_nil_iff]
    split
    · rw [List.append_nil, List.append_nil]
    · rw [Percent.encode_append, encode_keepPath_slash, s3Encode_true]
  · next style =>
      rw [valid.base_style (Bool.eq_false_iff.mpr style), List.nil_append, s3Encode_true]

theorem Opened.not_mem_path (valid : Opened p) (base : c ∉ p.zBasePath) (replaced : keepPath c = false)
    (sign : c ≠ Percent.percent) (outside : Percent.digitValue c = none) (zObject : Bytes) :
    c ∉ p.path zObject := by
  have other : c ≠ slash := by
    intro same
    rw [same] at replaced
    cases replaced
  rw [valid.path_eq, List.mem_append, List.mem_cons]
  intro member
  rcases member with inBase | first | later
  · exact base inBase
  · exact other first
  · exact Percent.not_mem_encode replaced sign outside _ later

theorem Opened.head?_path (valid : Opened p) (zObject : Bytes) :
    (p.path zObject).head? = some slash := by
  rw [valid.path_eq]
  by_cases empty : p.zBasePath = []
  · rw [empty]
    rfl
  · rw [List.head?_append_of_ne_nil _ empty]
    exact valid.base_head empty

theorem Opened.canonicalPath_eq_iff (valid : Opened p) (zObject : Bytes) :
    canonicalPath (p.path zObject) = p.path zObject ↔ Percent.canonical keepPath p.zBasePath = true := by
  have present : p.path zObject ≠ [] := by
    intro empty
    have head := valid.head?_path zObject
    rw [empty] at head
    cases head
  rw [canonicalPath, if_neg present, ← Percent.canonical_iff keepPath_percent, valid.path_eq,
    Percent.canonical_append keepPath_percent (by decide), ← encode_keepPath_slash,
    Percent.canonical_encode keepPath_percent, Bool.and_true]

theorem newline_not_mem_canonicalPath (path : Bytes) : newline ∉ canonicalPath path := by
  rw [canonicalPath]
  split
  · decide
  · exact Percent.not_mem_encode (by decide) (by decide) (by decide) _

theorem Opened.target_uri (valid : Opened p) (head : zPath.head? = some slash) (zQuery : Option Bytes) :
    target (p.uri zPath zQuery) = zPath ++ queryPart zQuery := by
  have inside : ∀ c ∈ p.zHost, (c != slash && c != 0x3f) = true := by
    intro c member
    have first : c ≠ slash := ne_of_mem_of_not_mem member valid.host_slash
    have second : c ≠ 0x3f := ne_of_mem_of_not_mem member valid.host_query
    simp [first, second]
  obtain ⟨rest, rfl⟩ := List.head?_eq_some_iff.mp head
  have scheme := splitScheme_append valid.scheme (p.zHost ++ (slash :: rest ++ queryPart zQuery))
  have parts : splitScheme (p.uri (slash :: rest) zQuery) = _ := scheme
  rw [target, parts]
  simp only
  rw [List.dropWhile_append_of_pos inside, List.cons_append, List.dropWhile_cons, if_neg (by decide)]

theorem Opened.path_uri (valid : Opened p) (head : zPath.head? = some slash) (question : 0x3f ∉ zPath)
    (zQuery : Option Bytes) :
    Canonical.path (p.uri zPath zQuery) = zPath := by
  rw [Canonical.path, valid.target_uri head]
  cases zQuery with
  | some query => exact takeWhile_ne_append question query
  | none =>
    rw [queryPart, Option.map_none, Option.getD_none, List.append_nil]
    exact takeWhile_ne_self question

theorem Opened.query_uri (valid : Opened p) (head : zPath.head? = some slash) (question : 0x3f ∉ zPath)
    (zQuery : Option Bytes) :
    Canonical.query (p.uri zPath zQuery) = zQuery.getD [] := by
  rw [Canonical.query, valid.target_uri head]
  cases zQuery with
  | some query =>
    rw [queryPart, Option.map_some, Option.getD_some, dropWhile_ne_append question]
    rfl
  | none =>
    rw [queryPart, Option.map_none, Option.getD_none, List.append_nil, dropWhile_ne_self question]
    rfl

theorem not_mem_of_canonical (canonical : Percent.canonical urlSafe text = true) (replaced : urlSafe c = false)
    (sign : c ≠ Percent.percent) (outside : Percent.digitValue c = none) : c ∉ text := by
  rw [← (Percent.canonical_iff urlSafe_percent text).mp canonical]
  exact Percent.not_mem_encode replaced sign outside _

theorem parameter_eq {name value : Bytes} (first : Percent.canonical urlSafe name = true)
    (second : Percent.canonical urlSafe value = true) :
    parameter (name ++ equals :: value) = (name, value) := by
  have plain : equals ∉ name := not_mem_of_canonical first (by decide) (by decide) (by decide)
  rw [parameter, takeWhile_ne_append plain, dropWhile_ne_append plain, List.tail_cons,
    (Percent.canonical_iff urlSafe_percent name).mp first,
    (Percent.canonical_iff urlSafe_percent value).mp second]

theorem canonical_of_all {keep : UInt8 → Bool} (marked : keep Percent.percent = false)
    (all : text.all keep = true) : Percent.canonical keep text = true := by
  induction text with
  | nil => rfl
  | cons c rest ih =>
    rw [List.all_cons, Bool.and_eq_true] at all
    have plain : c ≠ Percent.percent := by
      intro same
      rw [same, marked] at all
      cases all.1
    rw [Percent.canonical_cons plain, all.1, ih all.2, Bool.and_true]

theorem isDigit_ofNat {n : Nat} (small : n < 10) : isDigit (0x30 + UInt8.ofNat n) = true := by
  interval_cases n <;> decide

theorem digits_all (n : Nat) : (digits n).all isDigit = true := by
  induction n using Nat.strongRecOn with
  | ind n ih =>
    rw [digits]
    split
    · next small => rw [List.all_cons, List.all_nil, isDigit_ofNat small, Bool.and_true]
    · next big =>
        rw [List.all_append, ih (n / 10) (by omega), List.all_cons, List.all_nil,
          isDigit_ofNat (Nat.mod_lt n (by decide)), Bool.and_true, Bool.and_true]

theorem urlSafe_of_isDigit (digit : isDigit c = true) : urlSafe c = true := by
  rw [urlSafe, isAlnum, digit, Bool.or_true, Bool.true_or, Bool.true_or, Bool.true_or, Bool.true_or]

theorem canonicalQuery_eq {first : Bytes × Bytes} {others : List (Bytes × Bytes)}
    (canonical : ∀ pair ∈ first :: others, Percent.canonical urlSafe pair.1 = true ∧
      Percent.canonical urlSafe pair.2 = true) (ordered : ((first :: others).map (·.1)).Pairwise (· < ·)) :
    canonicalQuery ([ampersand].intercalate ((first :: others).map fun pair => pair.1 ++ equals :: pair.2)) =
      [ampersand].intercalate ((first :: others).map fun pair => pair.1 ++ equals :: pair.2) := by
  have separate : ∀ text ∈ (first :: others).map (fun pair => pair.1 ++ equals :: pair.2),
      ampersand ∉ text := by
    intro text member
    obtain ⟨pair, inside, rfl⟩ := List.mem_map.mp member
    have both := canonical pair inside
    rw [List.mem_append, List.mem_cons]
    intro found
    rcases found with name | sign | value
    · exact not_mem_of_canonical both.1 (by decide) (by decide) (by decide) name
    · cases sign
    · exact not_mem_of_canonical both.2 (by decide) (by decide) (by decide) value
  have present : [ampersand].intercalate ((first :: others).map fun pair => pair.1 ++ equals :: pair.2) ≠ [] := by
    cases others <;> simp [List.intercalate]
  have read : ((first :: others).map fun pair => pair.1 ++ equals :: pair.2).map parameter =
      first :: others := by
    rw [List.map_map]
    refine (List.map_congr_left ?_).trans (List.map_id _)
    intro pair inside
    exact parameter_eq (canonical pair inside).1 (canonical pair inside).2
  have sorted : (first :: others).Pairwise before := (List.pairwise_map.mp ordered).imp .inl
  rw [canonicalQuery, if_neg present, List.splitOn_intercalate _ separate (List.cons_ne_nil _ _), read,
    sorted.insertionSort_eq]

theorem Container.canonicalQuery_listQuery (p : Container) (zPrefix : Bytes) (zMarker : Option Bytes) :
    canonicalQuery (p.listQuery zPrefix zMarker) = p.listQuery zPrefix zMarker := by
  have encoded : ∀ text, Percent.canonical urlSafe (s3Encode text false) = true := by
    intro text
    rw [s3Encode_false]
    exact Percent.canonical_encode urlSafe_percent text
  have number : Percent.canonical urlSafe (digits p.nMaxResults) = true := by
    refine canonical_of_all urlSafe_percent (List.all_eq_true.mpr ?_)
    intro c member
    exact urlSafe_of_isDigit (List.all_eq_true.mp (digits_all _) c member)
  cases zMarker with
  | none =>
    have whole : p.listQuery zPrefix none = [ampersand].intercalate
        ([(listTypeName, [0x32]), (maxKeysName, digits p.nMaxResults),
          (prefixName, s3Encode zPrefix false)].map fun pair => pair.1 ++ equals :: pair.2) := by
      simp [Container.listQuery, List.intercalate]
    rw [whole]
    refine canonicalQuery_eq ?_ ?_
    · simp only [List.forall_mem_cons, encoded, number, and_true]
      decide
    · show [listTypeName, maxKeysName, prefixName].Pairwise (· < ·)
      decide
  | some marker =>
    have whole : p.listQuery zPrefix (some marker) = [ampersand].intercalate
        ([(continuationName, s3Encode marker false), (listTypeName, [0x32]),
          (maxKeysName, digits p.nMaxResults), (prefixName, s3Encode zPrefix false)].map
            fun pair => pair.1 ++ equals :: pair.2) := by
      simp [Container.listQuery, List.intercalate]
    rw [whole]
    refine canonicalQuery_eq ?_ ?_
    · simp only [List.forall_mem_cons, encoded, number, and_true]
      decide
    · show [continuationName, listTypeName, maxKeysName, prefixName].Pairwise (· < ·)
      decide

def Container.signedPairs (p : Container) (matching : Option (Bytes × Bytes)) (contentType : Option Bytes)
    (zPayload zDate : Bytes) : List (Bytes × Bytes) :=
  contentType.toList.map (fun type => (contentTypeName, type)) ++ [(hostName, p.zHost)] ++ matching.toList ++
    [(contentHashName, zPayload), (dateName, zDate)] ++
    p.zSessionToken.toList.map fun token => (tokenName, token)

def Known (matching : Option (Bytes × Bytes)) : Prop :=
  ∀ pair ∈ matching, pair.1 = ifMatchName ∨ pair.1 = ifNoneMatchName

theorem Container.canonicalHeaders_eq (p : Container) (matching : Option (Bytes × Bytes))
    (contentType : Option Bytes) (zPayload zDate rest : Bytes) :
    p.canonicalHeaders matching contentType zPayload zDate ++ newline :: rest =
      (p.signedPairs matching contentType zPayload zDate).flatMap
        (fun pair => canonicalLine pair.1 pair.2 ++ [newline]) ++ rest := by
  cases contentType <;> cases matching <;> cases token : p.zSessionToken <;>
    simp [canonicalHeaders, signedPairs, token]

def signedNameList (typed : Bool) (matching : Option Bytes) (tokened : Bool) : List Bytes :=
  (if typed then [contentTypeName] else []) ++ [hostName] ++ matching.toList ++ [contentHashName, dateName] ++
    if tokened then [tokenName] else []

theorem Container.map_fst_signedPairs (p : Container) (matching : Option (Bytes × Bytes))
    (contentType : Option Bytes) (zPayload zDate : Bytes) :
    (p.signedPairs matching contentType zPayload zDate).map (·.1) =
      signedNameList contentType.isSome (matching.map (·.1)) p.zSessionToken.isSome := by
  cases contentType <;> cases matching <;> cases token : p.zSessionToken <;>
    simp [signedPairs, signedNameList, token]

theorem Container.signedHeaders_eq (p : Container) (matching : Option (Bytes × Bytes))
    (contentType : Option Bytes) :
    p.signedHeaders matching contentType = [semicolon].intercalate
      (signedNameList contentType.isSome (matching.map (·.1)) p.zSessionToken.isSome) := by
  cases contentType <;> cases matching <;> cases token : p.zSessionToken <;>
    simp [signedHeaders, signedNameList, List.intercalate, token]

theorem signedNames_intercalate {matching : Option Bytes}
    (known : ∀ name ∈ matching, name = ifMatchName ∨ name = ifNoneMatchName) (typed tokened : Bool) :
    signedNames ([semicolon].intercalate (signedNameList typed matching tokened)) =
      signedNameList typed matching tokened := by
  have laws : (signedNameList typed matching tokened).Pairwise (· ≤ ·) ∧
      ∀ name ∈ signedNameList typed matching tokened, semicolon ∉ name ∧ name.map lower = name := by
    cases matching with
    | none =>
      revert typed tokened
      decide
    | some name =>
      rcases known name rfl with rfl | rfl
      · revert typed tokened
        decide
      · revert typed tokened
        decide
  have present : signedNameList typed matching tokened ≠ [] :=
    List.ne_nil_of_mem (show hostName ∈ _ by simp [signedNameList])
  have small : (signedNameList typed matching tokened).map (·.map lower) =
      signedNameList typed matching tokened :=
    (List.map_congr_left fun name member => (laws.2 name member).2).trans (List.map_id _)
  rw [signedNames, List.splitOn_intercalate _ (fun name member => (laws.2 name member).1) present, small,
    laws.1.insertionSort_eq]

theorem parseHeader_headerLine {name : Bytes} (plain : 0x3a ∉ name) (value : Bytes) :
    parseHeader (headerLine name value) = (name.map lower, space :: value) := by
  rw [parseHeader, headerLine, takeWhile_ne_append plain, dropWhile_ne_append plain]
  rfl

def Container.parsedHeaders (p : Container) (matching : Option (Bytes × Bytes)) (contentType : Option Bytes)
    (zPayload zDate zAuth : Bytes) : List (Bytes × Bytes) :=
  [(hostName, space :: p.zHost), (contentHashName, space :: zPayload), (dateName, space :: zDate)] ++
    p.zSessionToken.toList.map (fun token => (tokenName, space :: token)) ++
    contentType.toList.map (fun type => (contentTypeName, space :: type)) ++
    matching.toList.map (fun pair => (pair.1, space :: pair.2)) ++
    [(authorizationName.map lower, space :: zAuth)]

theorem Known.parse (known : Known matching) (member : pair ∈ matching.toList) :
    parseHeader (headerLine pair.1 pair.2) = (pair.1, space :: pair.2) := by
  have laws : 0x3a ∉ pair.1 ∧ pair.1.map lower = pair.1 := by
    rcases known pair (Option.mem_toList.mp member) with same | same
    · rw [same]
      decide
    · rw [same]
      decide
  rw [parseHeader_headerLine laws.1, laws.2]

theorem Container.map_parseHeader (p : Container) (known : Known matching) (contentType : Option Bytes)
    (zPayload zDate zAuth : Bytes) :
    (p.headers matching contentType zPayload zDate zAuth).map parseHeader =
      p.parsedHeaders matching contentType zPayload zDate zAuth := by
  have condition : matching.toList.map (parseHeader ∘ fun pair => headerLine pair.1 pair.2) =
      matching.toList.map fun pair => (pair.1, space :: pair.2) :=
    List.map_congr_left fun pair member => known.parse member
  have token : parseHeader ∘ headerLine tokenName = fun token => (tokenName, space :: token) :=
    funext fun token => parseHeader_headerLine (by decide) token
  have type : parseHeader ∘ headerLine capitalContentTypeName = fun type => (contentTypeName, space :: type) :=
    funext fun type => parseHeader_headerLine (by decide) type
  rw [headers, parsedHeaders]
  simp only [List.map_append, List.map_map, List.map_cons, List.map_nil, condition, token, type,
    parseHeader_headerLine (show 0x3a ∉ capitalHostName by decide),
    parseHeader_headerLine (show 0x3a ∉ contentHashName by decide),
    parseHeader_headerLine (show 0x3a ∉ dateName by decide),
    parseHeader_headerLine (show 0x3a ∉ authorizationName by decide)]
  rfl

theorem find?_of_mem {pairs : List (Bytes × Bytes)} (distinct : (pairs.map (·.1)).Nodup) (member : pair ∈ pairs) :
    pairs.find? (·.1 == pair.1) = some pair := by
  induction pairs with
  | nil => cases member
  | cons first rest ih =>
    rw [List.map_cons, List.nodup_cons] at distinct
    rcases List.mem_cons.mp member with rfl | later
    · exact List.find?_cons_of_pos (beq_self_eq_true pair.1)
    · have other : first.1 ≠ pair.1 := by
        intro same
        rw [same] at distinct
        exact distinct.1 (List.mem_map_of_mem later)
      rw [List.find?_cons_of_neg (by simpa using other), ih distinct.2 later]

def queuedNameList (typed : Bool) (matching : Option Bytes) (tokened : Bool) : List Bytes :=
  [hostName, contentHashName, dateName] ++ (if tokened then [tokenName] else []) ++
    (if typed then [contentTypeName] else []) ++ matching.toList ++ [authorizationName.map lower]

theorem nodup_queuedNameList {matching : Option Bytes}
    (known : ∀ name ∈ matching, name = ifMatchName ∨ name = ifNoneMatchName) (typed tokened : Bool) :
    (queuedNameList typed matching tokened).Nodup := by
  cases matching with
  | none =>
    revert typed tokened
    decide
  | some name =>
    rcases known name rfl with rfl | rfl
    · revert typed tokened
      decide
    · revert typed tokened
      decide

theorem Known.names (known : Known matching) :
    ∀ name ∈ matching.map (·.1), name = ifMatchName ∨ name = ifNoneMatchName := by
  intro name member
  obtain ⟨pair, inside, rfl⟩ := Option.mem_map.mp member
  exact known pair inside

theorem Container.headerValue_eq (p : Container) (known : Known matching) (contentType : Option Bytes)
    (zPayload zDate zAuth : Bytes) (member : pair ∈ p.signedPairs matching contentType zPayload zDate) :
    headerValue (p.headers matching contentType zPayload zDate zAuth) pair.1 = space :: pair.2 := by
  have names : (p.parsedHeaders matching contentType zPayload zDate zAuth).map (·.1) =
      queuedNameList contentType.isSome (matching.map (·.1)) p.zSessionToken.isSome := by
    cases contentType <;> cases matching <;> cases token : p.zSessionToken <;>
      simp [parsedHeaders, queuedNameList, token]
  have inside : (pair.1, space :: pair.2) ∈ p.parsedHeaders matching contentType zPayload zDate zAuth := by
    simp only [signedPairs, List.mem_append, List.mem_map, List.mem_cons, List.not_mem_nil, or_false] at member
    simp only [parsedHeaders, List.mem_append, List.mem_map, List.mem_cons, List.not_mem_nil, or_false]
    rcases member with (((⟨type, present, rfl⟩ | rfl) | condition) | rfl | rfl) | ⟨token, present, rfl⟩
    · exact .inl (.inl (.inr ⟨type, present, rfl⟩))
    · exact .inl (.inl (.inl (.inl (.inl rfl))))
    · exact .inl (.inr ⟨pair, condition, rfl⟩)
    · exact .inl (.inl (.inl (.inl (.inr (.inl rfl)))))
    · exact .inl (.inl (.inl (.inl (.inr (.inr rfl)))))
    · exact .inl (.inl (.inl (.inr ⟨token, present, rfl⟩)))
  have distinct := nodup_queuedNameList known.names contentType.isSome p.zSessionToken.isSome
  rw [← names] at distinct
  rw [headerValue, p.map_parseHeader known, find?_of_mem distinct inside]
  rfl

theorem length_canonicalLine (name value : Bytes) :
    (canonicalLine name value).length = name.length + (value.length + 1) := by
  rw [canonicalLine, List.length_append, List.length_cons]

theorem line_normalize_eq_iff (pairs : List (Bytes × Bytes)) (rest : Bytes) :
    pairs.flatMap (fun pair => canonicalLine pair.1 pair.2 ++ [newline]) ++ rest =
      pairs.flatMap (fun pair => canonicalLine pair.1 (normalize pair.2) ++ [newline]) ++ rest ↔
    ∀ pair ∈ pairs, Plain pair.2 := by
  rw [List.append_cancel_right_eq]
  have shorter : ∀ pairs : List (Bytes × Bytes),
      (pairs.flatMap fun pair => canonicalLine pair.1 (normalize pair.2) ++ [newline]).length ≤
        (pairs.flatMap fun pair => canonicalLine pair.1 pair.2 ++ [newline]).length := by
    intro pairs
    induction pairs with
    | nil => exact Nat.le_refl _
    | cons pair pairs ih =>
      have here := length_normalize_le pair.2
      simp only [List.flatMap_cons, List.length_append, length_canonicalLine]
      omega
  induction pairs with
  | nil => simp
  | cons pair pairs ih =>
    rw [List.forall_mem_cons, ← normalize_eq_iff, List.flatMap_cons, List.flatMap_cons]
    constructor
    · intro same
      -- No value gets longer, so the first line ends at the same place on both sides.
      have total := congrArg List.length same
      have here := length_normalize_le pair.2
      have later := shorter pairs
      simp only [List.length_append, length_canonicalLine] at total
      have size : (canonicalLine pair.1 pair.2 ++ [newline]).length =
          (canonicalLine pair.1 (normalize pair.2) ++ [newline]).length := by
        simp only [List.length_append, length_canonicalLine]
        omega
      obtain ⟨first, others⟩ := List.append_inj same size
      rw [List.append_cancel_right_eq, canonicalLine, canonicalLine, List.append_cancel_left_eq] at first
      exact ⟨(List.cons.inj first).2.symm, ih.mp others⟩
    · intro both
      rw [both.1, ih.mpr both.2]

theorem space_not_mem_hexEncode (bytes : Bytes) : space ∉ hexEncode bytes := by
  intro member
  obtain ⟨byte, _, here⟩ := List.mem_flatMap.mp member
  have digits : (space != hexDigit (byte >>> 4) && space != hexDigit (byte &&& 15)) = true :=
    Percent.forall_byte (p := fun byte => space != hexDigit (byte >>> 4) && space != hexDigit (byte &&& 15))
      (by decide +kernel) byte
  simp only [Bool.and_eq_true, bne_iff_ne] at digits
  rcases List.mem_cons.mp here with first | later
  · exact digits.1 first
  · exact digits.2 (List.mem_singleton.mp later)

theorem space_not_mem_digits (n : Nat) : space ∉ digits n := not_mem_of_all (digits_all n) (by decide)

theorem space_not_mem_padded (width n : Nat) : space ∉ padded width n := by
  rw [padded, List.mem_append]
  intro member
  rcases member with zero | digit
  · cases List.eq_of_mem_replicate zero
  · exact space_not_mem_digits n digit

theorem space_not_mem_date (time : Time) : space ∉ time.text := by
  intro member
  have whole := List.mem_of_mem_take member
  simp only [List.mem_append, List.mem_cons, List.not_mem_nil, or_false, space_not_mem_padded, false_or,
    or_self] at whole
  rcases whole with sign | sign <;> cases sign

theorem Opened.signedPairs_plain_iff (valid : Opened p) (matching : Option (Bytes × Bytes))
    {contentType : Option Bytes} (type : ∀ text ∈ contentType, Plain text) {zPayload zDate : Bytes}
    (payload : space ∉ zPayload) (date : space ∉ zDate) :
    (∀ pair ∈ p.signedPairs matching contentType zPayload zDate, Plain pair.2) ↔
      (∀ token ∈ p.zSessionToken, Plain token) ∧ ∀ pair ∈ matching, Plain pair.2 := by
  have fixed : Plain p.zHost ∧ Plain zPayload ∧ Plain zDate :=
    ⟨plain_of_not_mem valid.host_space, plain_of_not_mem payload, plain_of_not_mem date⟩
  simp only [Container.signedPairs, List.forall_mem_append, List.forall_mem_map, List.forall_mem_cons,
    List.not_mem_nil, false_implies, implies_true, Option.mem_toList, fixed, and_true]
  exact ⟨fun all => ⟨all.2, all.1.2⟩, fun all => ⟨⟨type, all.2⟩, all.1⟩⟩

/-- What a signature covers is the receiver's canonical request just when the base path is canonical and
no value that comes from outside has spaces to drop. -/
theorem Opened.sign_eq_iff (valid : Opened p) (crypto : Crypto) (time : Time) (eMethod : Method)
    (zObject : Bytes) {zQuery : Option Bytes} (query : canonicalQuery (zQuery.getD []) = zQuery.getD [])
    (known : Known matching) {contentType : Option Bytes} (type : ∀ text ∈ contentType, Plain text)
    (aBody : Bytes) :
    (s3Sign crypto p time eMethod (p.path zObject) zQuery matching contentType aBody).zCanonical =
      canonicalRequest crypto
        { (s3Sign crypto p time eMethod (p.path zObject) zQuery matching contentType aBody).request with
          body := aBody }
        (p.signedHeaders matching contentType) ↔
    Percent.canonical keepPath p.zBasePath = true ∧ (∀ token ∈ p.zSessionToken, Plain token) ∧
      ∀ pair ∈ matching, Plain pair.2 := by
  have head := valid.head?_path zObject
  have question : 0x3f ∉ p.path zObject :=
    valid.not_mem_path valid.base_query (by decide) (by decide) (by decide) zObject
  have control : newline ∉ p.path zObject :=
    valid.not_mem_path valid.base_newline (by decide) (by decide) (by decide) zObject
  have names : signedNames (p.signedHeaders matching contentType) =
      (p.signedPairs matching contentType (hexEncode (crypto.sha256 aBody).1) time.text).map (·.1) := by
    rw [p.signedHeaders_eq, signedNames_intercalate known.names, p.map_fst_signedPairs]
  have joined : [semicolon].intercalate (signedNames (p.signedHeaders matching contentType)) =
      p.signedHeaders matching contentType := by
    rw [names, p.map_fst_signedPairs, p.signedHeaders_eq]
  have lines : (signedNames (p.signedHeaders matching contentType)).flatMap (fun name =>
      canonicalLine name (normalize (headerValue (s3Sign crypto p time eMethod (p.path zObject) zQuery matching
        contentType aBody).request.headers name)) ++ [newline]) =
      (p.signedPairs matching contentType (hexEncode (crypto.sha256 aBody).1) time.text).flatMap
        fun pair => canonicalLine pair.1 (normalize pair.2) ++ [newline] := by
    rw [names, List.flatMap_map]
    refine List.flatMap_congr fun pair member => ?_
    rw [s3Sign, p.headerValue_eq known contentType _ _ _ member, normalize_space]
  have path : Canonical.path (s3Sign crypto p time eMethod (p.path zObject) zQuery matching contentType
      aBody).request.zUri = p.path zObject := valid.path_uri head question zQuery
  have text : Canonical.query (s3Sign crypto p time eMethod (p.path zObject) zQuery matching contentType
      aBody).request.zUri = zQuery.getD [] := valid.query_uri head question zQuery
  rw [canonicalRequest, path, text, query, lines, joined, s3Sign]
  simp only
  rw [p.canonicalHeaders_eq, List.append_cancel_left_eq, List.cons.injEq,
    append_cons_inj control (newline_not_mem_canonicalPath _), List.append_cancel_left_eq, List.cons.injEq,
    line_normalize_eq_iff, valid.signedPairs_plain_iff matching type (space_not_mem_hexEncode _)
      (space_not_mem_date time), eq_comm (a := p.path zObject), valid.canonicalPath_eq_iff]
  simp only [true_and]

def Call.etag : Call → Option Bytes
  | .fetch _ bMd5 bETag cond => if bMd5 then none else if bETag then cond else none
  | .put _ _ zETag => zETag
  | .delete _ zETag => zETag
  | .list _ _ => none
  | .create => none
  | .destroy => none

theorem plain_md5Tag (digest : Bytes) : Plain (md5Tag digest) := by
  refine plain_of_not_mem ?_
  rw [md5Tag, List.mem_cons, List.mem_append, List.mem_singleton]
  intro member
  rcases member with sign | digit | sign
  · cases sign
  · exact space_not_mem_hexEncode digest digit
  · cases sign

theorem plain_octetStream : ∀ text ∈ some octetStream, Plain text := by
  intro text member
  cases member
  decide

theorem canonicalQuery_none : canonicalQuery ((none : Option Bytes).getD []) = (none : Option Bytes).getD [] :=
  rfl

theorem known_map {zETag : Option Bytes} {name : Bytes → Bytes}
    (each : ∀ value, name value = ifMatchName ∨ name value = ifNoneMatchName) :
    Known (zETag.map fun value => (name value, value)) := by
  intro pair member
  obtain ⟨value, _, rfl⟩ := Option.mem_map.mp member
  exact each value

theorem plain_map_iff (zETag : Option Bytes) (name : Bytes → Bytes) :
    (∀ pair ∈ zETag.map (fun value => (name value, value)), Plain pair.2) ↔ ∀ value ∈ zETag, Plain value := by
  cases zETag <;> simp

theorem plain_fetchMatch_iff (bMd5 bETag : Bool) (cond : Option Bytes) :
    (∀ value ∈ fetchMatch bMd5 bETag cond, Plain value) ↔
      ∀ value ∈ (if bMd5 then none else if bETag then cond else none : Option Bytes), Plain value := by
  cases bMd5 with
  | true =>
    constructor
    · intro _ value member
      cases member
    · intro _ value member
      obtain ⟨digest, _, rfl⟩ := Option.mem_map.mp member
      exact plain_md5Tag digest
  | false => exact Iff.rfl

theorem Opened.object_some {zFile : Bytes} {signed : Signed} {next : Bytes → Signed}
    (queued : (match p.object zFile with
      | none => Except.error outOfMemory
      | some zObject => .ok (next zObject) : Except Err Signed) = .ok signed) :
    ∃ zObject, signed = next zObject := by
  cases object : p.object zFile with
  | none =>
    rw [object] at queued
    cases queued
  | some zObject =>
    rw [object] at queued
    cases queued
    exact ⟨zObject, rfl⟩

def Signable (p : Container) (call : Call) : Prop :=
  Percent.canonical keepPath p.zBasePath = true ∧ (∀ token ∈ p.zSessionToken, Plain token) ∧
    ∀ value ∈ call.etag, Plain value

theorem Opened.queue_eq_iff (valid : Opened p) (crypto : Crypto) (time : Time) {call : Call} {signed : Signed}
    (queued : (p.queue crypto time call).1 = .ok signed) :
    signed.zCanonical = canonicalRequest crypto signed.request signed.zSignedHeaders ↔ Signable p call := by
  have untyped : ∀ text ∈ (none : Option Bytes), Plain text := by
    intro text member
    cases member
  have unconditional : Known none := by
    intro pair member
    cases member
  have vacuous : (∀ pair ∈ (none : Option (Bytes × Bytes)), Plain pair.2) ↔
      ∀ value ∈ (none : Option Bytes), Plain value := plain_map_iff none id
  cases call with
  | fetch zFile bMd5 bETag cond =>
    rw [Container.queue, Container.fetch, unit_bind_eq_ok, unit_bind_eq_ok] at queued
    obtain ⟨zObject, rfl⟩ := Opened.object_some queued.2.2
    refine (valid.sign_eq_iff crypto time .get zObject canonicalQuery_none (known_map fun _ => .inr rfl)
      untyped []).trans ?_
    rw [plain_map_iff, plain_fetchMatch_iff, Signable, Call.etag]
  | put zFile aData zETag =>
    obtain ⟨zObject, rfl⟩ := Opened.object_some queued
    refine (valid.sign_eq_iff crypto time .put zObject canonicalQuery_none (known_map fun value => ?_)
      plain_octetStream aData).trans ?_
    · split
      · exact .inr rfl
      · exact .inl rfl
    · rw [plain_map_iff, Signable, Call.etag]
  | delete zFile zETag =>
    obtain ⟨zObject, rfl⟩ := Opened.object_some queued
    refine (valid.sign_eq_iff crypto time .delete zObject canonicalQuery_none (known_map fun _ => .inl rfl)
      untyped []).trans ?_
    rw [plain_map_iff, Signable, Call.etag]
  | list zJobPrefix zMarker =>
    obtain ⟨zPrefix, rfl⟩ := Opened.object_some queued
    have query : canonicalQuery ((some (p.listQuery zPrefix zMarker)).getD []) =
        (some (p.listQuery zPrefix zMarker)).getD [] := p.canonicalQuery_listQuery zPrefix zMarker
    refine (valid.sign_eq_iff crypto time .get [] query unconditional untyped []).trans ?_
    rw [vacuous, Signable, Call.etag]
  | create =>
    cases queued
    have type : ∀ text ∈ p.createBody.map (fun _ => applicationXml), Plain text := by
      intro text member
      obtain ⟨_, _, rfl⟩ := Option.mem_map.mp member
      decide
    have law := valid.sign_eq_iff crypto time .put [] canonicalQuery_none unconditional type
      (if p.zRegion = usEast1 then [] else p.createBody.getD [])
    by_cases home : p.zRegion = usEast1
    · have empty : p.createBody = none := by rw [Container.createBody, if_pos home, valid.body home]
      rw [if_pos home, empty, vacuous] at law
      rw [Container.create, if_pos home, empty]
      exact law
    · have made : p.createBody.isSome = true := by rw [Container.createBody, if_neg home]; rfl
      rw [if_neg home, vacuous] at law
      rw [Container.create, if_neg home, if_pos made]
      exact law
  | destroy =>
    rw [Container.queue, Container.destroy, unit_bind_eq_ok] at queued
    cases queued.2
    refine (valid.sign_eq_iff crypto time .delete [] canonicalQuery_none unconditional untyped []).trans ?_
    rw [vacuous, Signable, Call.etag]

/-- Every request that an opened container queues, after any calls before it, is signed over the canonical
request its receiver makes of it just when the base path of the endpoint is canonical and neither the session
token nor the entity tag has spaces to drop. -/
theorem request_canonical_iff (crypto : Crypto) {azParam : List (Bytes × Option Bytes)}
    {zUser zSecret zContainer : Bytes} {p : Container}
    (opened : s3Open azParam zUser zSecret zContainer = .ok p) (calls : List (Time × Call)) (time : Time)
    {call : Call} {signed : Signed} (queued : ((p.after crypto calls).queue crypto time call).1 = .ok signed) :
    signed.zCanonical = canonicalRequest crypto signed.request signed.zSignedHeaders ↔
      Signable (p.after crypto calls) call :=
  ((opened_of_s3Open opened).after crypto calls).queue_eq_iff crypto time queued

def foldHash (text : Bytes) : Hash :=
  ⟨(List.range 32).map fun i => text.foldl (fun sum c => 31 * sum + c) (UInt8.ofNat i), by simp⟩

def foldCrypto : Crypto :=
  { sha256 := foldHash, hmac := fun key text => foldHash (key ++ text) }

def sampleTime : Time := ⟨2026, 1, 2, 3, 4, 5⟩

def sampleOpen (zEndpoint : Bytes) : Except Err Container :=
  s3Open [(ascii "endpoint", some zEndpoint)] (ascii "user")
    (ascii "secret") (ascii "bucket/p")

def sampleContainer (zBasePath : Bytes) : Container :=
  { zAccessKey := ascii "user", zSecretKey := ascii "secret",
    zSessionToken := none, zRegion := usEast1, zBucket := ascii "bucket",
    zPrefix := ascii "p/", zScheme := http, zHost := ascii "h", zBasePath, bPathStyle := true,
    nMaxResults := 1000 }

def sampleFetch : Call := .fetch (ascii "f") false true (some (ascii "x y"))

def plainEndpoint : Bytes := ascii "http://h/base/"

def colonEndpoint : Bytes := ascii "http://h/a:b"

theorem request_canonical_iff_sample :
    ∃ p signed, sampleOpen plainEndpoint = .ok p ∧
      ((p.after foldCrypto [(sampleTime, .destroy)]).queue foldCrypto sampleTime sampleFetch).1 = .ok signed ∧
      signed.zCanonical = canonicalRequest foldCrypto signed.request signed.zSignedHeaders := by
  have opened : sampleOpen plainEndpoint = .ok (sampleContainer (ascii "/base")) := by
    decide +kernel
  have queued : (((sampleContainer (ascii "/base")).after foldCrypto [(sampleTime, .destroy)]).queue foldCrypto
      sampleTime sampleFetch).1 = .ok _ := rfl
  refine ⟨_, _, opened, queued, (request_canonical_iff foldCrypto opened [(sampleTime, .destroy)]
    sampleTime queued).mpr ?_⟩
  exact ⟨by decide, by decide, by decide⟩

/-- A colon in the path of the endpoint is signed as it is, and encoded by the receiver. -/
theorem request_canonical_fails :
    ∃ p signed, sampleOpen colonEndpoint = .ok p ∧
      (p.queue foldCrypto sampleTime sampleFetch).1 = .ok signed ∧
      signed.zCanonical ≠ canonicalRequest foldCrypto signed.request signed.zSignedHeaders := by
  have opened : sampleOpen colonEndpoint = .ok (sampleContainer (ascii "/a:b")) := by
    decide +kernel
  have queued : ((sampleContainer (ascii "/a:b")).queue foldCrypto sampleTime sampleFetch).1 =
      .ok _ := rfl
  refine ⟨_, _, opened, queued, ?_⟩
  rw [ne_eq, (opened_of_s3Open opened).queue_eq_iff foldCrypto sampleTime queued]
  intro signable
  cases signable.1

end RusqDoltlite.S3

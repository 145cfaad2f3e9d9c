import RusqDoltlite.Codec.Selector
import RusqDoltlite.S3.Sign

/-! The Google module of the cloud layer, `bcvGoogleOpen`, with the names its requests give to objects,
and `bcvSessionCanonicalContainer` against the object names of the provider modules. -/

namespace RusqDoltlite.Cloud

open Session Codec S3 Wire

/-- `BcvGoogle`, as far as requests use it. The bucket and the prefix are those of the JSON API. -/
structure Google where
  zUser : Bytes
  zSecret : Bytes
  zCont : Bytes
  zEndpoint : Bytes
  bJson : Bool
  zBucket : Bytes
  zPrefix : Bytes
  nMaxResults : Nat
deriving DecidableEq, Repr

structure GoogleSettings where
  zEndpoint : Bytes := ascii "https://storage.googleapis.com"
  bJson : Bool := false
  nMaxResults : Nat := 5000

def GoogleSettings.take (settings : GoogleSettings) (key : Bytes) (value : Option Bytes) :
    Except Err GoogleSettings :=
  if key.map lower = ascii "maxresults" then
    match value with
    -- the number is read through a null pointer
    | none => .error ⟨.other 139, ""⟩
    | some value => .ok (if 0 < parseInt value then
        { settings with nMaxResults := (parseInt value).toNat } else settings)
  else if key.map lower = ascii "endpoint" then
    if value.getD [] = [] then .error ⟨.error, "endpoint parameter may not be empty"⟩
    else .ok { settings with zEndpoint := value.getD [] }
  else if key.map lower = ascii "api" then
    if value.map (·.map lower) = some (ascii "json") then .ok { settings with bJson := true }
    else if value.map (·.map lower) = some (ascii "xml") then .ok settings
    else .error ⟨.error, "bad argument to api parameter \"" ++ message (value.getD []) ++
      "\" - must be \"xml\" or \"json\""⟩
  else .error ⟨.error, "bad parameter \"" ++ message key ++
    "\" - must be \"api\", \"endpoint\" or \"maxresults\""⟩

def jsonPrefix (zContainer : Bytes) : Bytes :=
  let rest := (zContainer.dropWhile (· != slash)).tail
  if 0 < rest.length ∧ zContainer.getLast? ≠ some slash then rest ++ [slash] else rest

def googleOpen (azParam : List (Bytes × Option Bytes)) (zUser zSecret zContainer : Bytes) :
    Except Err Google := do
  let settings ← azParam.foldlM (fun settings param => settings.take param.1 param.2)
    ({} : GoogleSettings)
  let zBucket := zContainer.takeWhile (· != slash)
  check (settings.bJson = true → zBucket ≠ []) .error "JSON Google container must start with a bucket name"
  check (trimSlashes settings.zEndpoint ≠ []) .error "endpoint parameter may not be empty"
  .ok { zUser, zSecret, zCont := zContainer, zEndpoint := trimSlashes settings.zEndpoint,
        bJson := settings.bJson, zBucket, zPrefix := jsonPrefix zContainer,
        nMaxResults := settings.nMaxResults }

def Google.jsonObjectName (p : Google) (zFile : Bytes) : Bytes := p.zPrefix ++ zFile

def Google.xmlPath (p : Google) (zFile : Bytes) : Bytes := p.zCont ++ slash :: zFile

/-- The bucket and the object that a request for a file addresses. The XML API writes both into the path. -/
def Google.address (p : Google) (zFile : Bytes) : Bytes × Bytes :=
  if p.bJson then (p.zBucket, p.jsonObjectName zFile)
  else ((p.xmlPath zFile).takeWhile (· != slash), ((p.xmlPath zFile).dropWhile (· != slash)).tail)

inductive Keyed where
  | s3 | google
deriving DecidableEq, Repr

def Keyed.provider : Keyed → Provider
  | .s3 => .s3
  | .google => .google

inductive Handle where
  | s3 (p : S3.Container)
  | google (p : Google)

def Keyed.openContainer (keyed : Keyed) (azParam : List (Bytes × Option Bytes))
    (zUser zSecret zContainer : Bytes) : Except Err Handle :=
  match keyed with
  | .s3 => (s3Open azParam zUser zSecret zContainer).map .s3
  | .google => (googleOpen azParam zUser zSecret zContainer).map .google

def Handle.address : Handle → Bytes → Option (Bytes × Bytes)
  | .s3 p, zFile => (p.object zFile).map fun zObject => (p.zBucket, zObject)
  | .google p, zFile => some (p.address zFile)

def Handle.xml : Handle → Bool
  | .s3 _ => false
  | .google p => !p.bJson

def bucketOf (zContainer : Bytes) : Bytes := zContainer.takeWhile (· != slash)

def Usable (zContainer : Bytes) : Prop := zContainer ≠ [] ∧ zContainer.length ≤ maxFieldBytes

instance (zContainer : Bytes) : Decidable (Usable zContainer) := inferInstanceAs (Decidable (_ ∧ _))

def canonical (zContainer : Bytes) : Bytes :=
  bucketOf zContainer ++ if prefixOf zContainer = [] then [] else slash :: prefixOf zContainer

section

variable {bucket : Bytes} (plain : slash ∉ bucket)
include plain

theorem prefixOf_bucket : prefixOf bucket = [] := by
  rw [prefixOf, dropWhile_ne_self plain]

theorem prefixOf_append (rest : Bytes) :
    prefixOf (bucket ++ slash :: rest) =
      if rest = [] then [] else if rest.getLast? = some slash then rest else rest ++ [slash] := by
  rw [prefixOf, dropWhile_ne_append plain]
  cases rest with
  | nil => rfl
  | cons c rest => rw [if_neg (List.cons_ne_nil c rest)]

theorem canonical_bucket : canonical bucket = bucket := by
  rw [canonical, prefixOf_bucket plain, bucketOf, takeWhile_ne_self plain, if_pos rfl, List.append_nil]

theorem canonical_append (rest : Bytes) :
    canonical (bucket ++ slash :: rest) = bucket ++
      if rest = [] then [] else slash :: if rest.getLast? = some slash then rest else rest ++ [slash] := by
  rw [canonical, prefixOf_append plain, bucketOf, takeWhile_ne_append plain]
  by_cases empty : rest = []
  · rw [if_pos empty, if_pos rfl, if_pos empty]
  · have present : (if rest.getLast? = some slash then rest else rest ++ [slash]) ≠ [] := by
      split
      · exact empty
      · simp
    rw [if_neg empty, if_neg present, if_neg empty]

end

theorem getLast?_append_slash {rest : Bytes} (present : rest ≠ []) (front : Bytes) :
    (front ++ slash :: rest).getLast? = rest.getLast? := by
  rw [List.getLast?_append, List.getLast?_cons_of_ne_nil present, List.getLast?_eq_some_getLast present]
  rfl

theorem jsonPrefix_eq (zContainer : Bytes) : jsonPrefix zContainer = prefixOf zContainer := by
  rcases split_first slash zContainer with plain | ⟨bucket, rest, plain, rfl⟩
  · rw [prefixOf_bucket plain, jsonPrefix, dropWhile_ne_self plain]
    rfl
  · rw [prefixOf_append plain, jsonPrefix, dropWhile_ne_append plain, List.tail_cons]
    by_cases empty : rest = []
    · rw [if_pos empty, empty]
      rfl
    · simp only [getLast?_append_slash empty, List.length_pos_iff.mpr empty, true_and, ne_eq, ite_not, if_neg empty]

theorem canonicalContainer_eq {storage : Bytes} {keyed : Keyed}
    (named : providerOf storage = some keyed.provider) (zContainer : Bytes) :
    canonicalContainer storage zContainer =
      if Usable zContainer then .ok (canonical zContainer)
      else .error ⟨.misuse, "invalid container scope"⟩ := by
  have normalizes : (providerOf storage == some .s3 || providerOf storage == some .google) = true := by
    rw [named]
    cases keyed <;> rfl
  rw [canonicalContainer]
  by_cases usable : Usable zContainer
  · have checked : check (zContainer ≠ [] ∧ zContainer.length ≤ maxFieldBytes) .misuse
        "invalid container scope" = .ok () := if_pos usable
    rw [checked, if_pos usable]
    simp only [bind, Except.bind, normalizes, Bool.true_eq_false, false_or]
    rw [show (0x2f : UInt8) = slash from rfl]
    rcases split_first slash zContainer with plain | ⟨bucket, rest, plain, rfl⟩
    · rw [if_pos (dropWhile_ne_self plain), canonical_bucket plain]
    · rw [dropWhile_ne_append plain, takeWhile_ne_append plain, canonical_append plain,
        if_neg (List.cons_ne_nil _ _)]
      by_cases empty : rest = []
      · rw [empty, if_pos rfl, if_pos rfl, List.append_nil]
      · rw [if_neg (by simp [empty]), if_neg empty, getLast?_append_slash empty]
        split
        · rfl
        · rw [List.append_assoc, List.cons_append]
  · have checked : check (zContainer ≠ [] ∧ zContainer.length ≤ maxFieldBytes) .misuse
        "invalid container scope" = .error ⟨.misuse, "invalid container scope"⟩ := if_neg usable
    rw [checked, if_neg usable]
    rfl

theorem canonical_eq_iff (first second : Bytes) :
    canonical first = canonical second ↔
      bucketOf first = bucketOf second ∧ prefixOf first = prefixOf second := by
  have parts : ∀ text : Bytes, bucketOf (canonical text) = bucketOf text ∧
      ((canonical text).dropWhile (· != slash)).tail = prefixOf text := by
    intro text
    have plain : slash ∉ bucketOf text := not_mem_takeWhile_ne slash text
    by_cases empty : prefixOf text = []
    · rw [canonical, if_pos empty, List.append_nil, empty, dropWhile_ne_self plain]
      exact ⟨takeWhile_ne_self plain, rfl⟩
    · rw [canonical, if_neg empty, dropWhile_ne_append plain]
      exact ⟨takeWhile_ne_append plain _, rfl⟩
  constructor
  · intro same
    rw [← (parts first).1, ← (parts first).2, same, (parts second).1, (parts second).2]
    exact ⟨rfl, rfl⟩
  · intro both
    rw [canonical, canonical, both.1, both.2]

def SlashApart (first second : Bytes) : Prop := first.getLast? ≠ some slash ∧ second = first ++ [slash]

instance (first second : Bytes) : Decidable (SlashApart first second) := inferInstanceAs (Decidable (_ ∧ _))

variable {first second zUser zSecret : Bytes} {azParam : List (Bytes × Option Bytes)}

theorem SlashApart.canonical (apart : SlashApart first second) :
    canonical first = canonical second := by
  obtain ⟨last, rfl⟩ := apart
  rcases split_first slash first with plain | ⟨bucket, rest, plain, rfl⟩
  · rw [canonical_bucket plain, canonical_append plain, if_pos rfl, List.append_nil]
  · have present : rest ≠ [] := by
      intro empty
      rw [empty] at last
      simp at last
    rw [getLast?_append_slash present] at last
    rw [List.append_assoc, List.cons_append, canonical_append plain, canonical_append plain, if_neg present,
      if_neg last, if_neg (by simp), if_pos (by simp)]

theorem canonical_cases (text : Bytes) :
    canonical text = text ∨ (canonical text = text ++ [slash] ∧ text.getLast? ≠ some slash) ∨
      ∃ bucket, slash ∉ bucket ∧ text = bucket ++ [slash] ∧ canonical text = bucket := by
  rcases split_first slash text with plain | ⟨bucket, rest, plain, rfl⟩
  · exact .inl (canonical_bucket plain)
  · rw [canonical_append plain]
    by_cases empty : rest = []
    · rw [empty, if_pos rfl, List.append_nil]
      exact .inr (.inr ⟨bucket, plain, rfl, rfl⟩)
    · rw [if_neg empty, getLast?_append_slash empty]
      split
      · exact .inl rfl
      · next last => exact .inr (.inl ⟨by simp, last⟩)

theorem canonical_eq_iff_apart (first second : Bytes) :
    canonical first = canonical second ↔
      first = second ∨ SlashApart first second ∨ SlashApart second first := by
  constructor
  · intro same
    rcases canonical_cases first with kept | ⟨longer, last⟩ | ⟨bucket, plain, rfl, cut⟩
    · rcases canonical_cases second with kept' | ⟨longer, last⟩ | ⟨bucket, plain, rfl, cut⟩
      · exact .inl (kept.symm.trans (same.trans kept'))
      · exact .inr (.inr ⟨last, kept.symm.trans (same.trans longer)⟩)
      · have whole : first = bucket := kept.symm.trans (same.trans cut)
        subst whole
        exact .inr (.inl ⟨fun last => plain (List.mem_of_getLast? last), rfl⟩)
    · rcases canonical_cases second with kept | ⟨longer', _⟩ | ⟨bucket, plain, rfl, cut⟩
      · exact .inr (.inl ⟨last, (longer.symm.trans (same.trans kept)).symm⟩)
      · exact .inl (List.append_cancel_right (longer.symm.trans (same.trans longer')))
      · rw [← cut, ← same, longer] at plain
        simp at plain
    · rcases canonical_cases second with kept | ⟨longer, _⟩ | ⟨bucket', _, rfl, cut'⟩
      · have whole : bucket = second := cut.symm.trans (same.trans kept)
        subst whole
        exact .inr (.inr ⟨fun last => plain (List.mem_of_getLast? last), rfl⟩)
      · rw [← cut, same, longer] at plain
        simp at plain
      · exact .inl (congrArg (· ++ [slash]) (cut.symm.trans (same.trans cut')))
  · rintro (rfl | apart | apart)
    · rfl
    · exact apart.canonical
    · exact apart.canonical.symm

theorem SlashApart.ne (apart : SlashApart first second) : first ≠ second := by
  intro same
  have longer := apart.2
  rw [← same] at longer
  simp at longer

theorem eq_or_apart_iff (first second : Bytes) :
    (first = second ∨ SlashApart first second ∨ SlashApart second first ↔ first = second) ↔
      ¬SlashApart first second ∧ ¬SlashApart second first := by
  constructor
  · intro agree
    exact ⟨fun apart => apart.ne (agree.mp (.inr (.inl apart))),
      fun apart => apart.ne (agree.mp (.inr (.inr apart))).symm⟩
  · intro neither
    simp [neither.1, neither.2]

theorem map_eq_ok {ε α β : Type} {step : Except ε α} {f : α → β} {value : β} :
    step.map f = .ok value ↔ ∃ first, step = .ok first ∧ f first = value := by
  cases step <;> simp [Except.map]

theorem s3Open_names {zContainer : Bytes} {p : S3.Container}
    (opened : s3Open azParam zUser zSecret zContainer = .ok p) :
    p.zBucket = bucketOf zContainer ∧ p.zPrefix = prefixOf zContainer := by
  rw [s3Open, bind_eq_ok] at opened
  obtain ⟨settings, _, opened⟩ := opened
  simp only [unit_bind_eq_ok] at opened
  obtain ⟨_, _, _, _, _, _, opened⟩ := opened
  rw [bind_eq_ok] at opened
  obtain ⟨location, _, made⟩ := opened
  cases made
  exact ⟨rfl, rfl⟩

theorem googleOpen_names {zContainer : Bytes} {p : Google}
    (opened : googleOpen azParam zUser zSecret zContainer = .ok p) :
    p.zBucket = bucketOf zContainer ∧ p.zPrefix = prefixOf zContainer ∧ p.zCont = zContainer ∧
      ∃ settings, azParam.foldlM (fun settings param => settings.take param.1 param.2)
        ({} : GoogleSettings) = .ok settings ∧ p.bJson = settings.bJson := by
  rw [googleOpen, bind_eq_ok] at opened
  obtain ⟨settings, read, opened⟩ := opened
  simp only [unit_bind_eq_ok] at opened
  cases opened.2.2
  exact ⟨rfl, jsonPrefix_eq zContainer, rfl, settings, read, rfl⟩

theorem Google.address_eq_iff {p q : Google} (same : p.bJson = q.bJson) :
    (∀ zFile, p.address zFile = q.address zFile) ↔
      if p.bJson then p.zBucket = q.zBucket ∧ p.zPrefix = q.zPrefix else p.zCont = q.zCont := by
  cases json : p.bJson with
  | true =>
    rw [json] at same
    simp only [address, json, ← same, if_true, jsonObjectName, Prod.mk.injEq]
    constructor
    · intro all
      have here := all []
      rwa [List.append_nil, List.append_nil] at here
    · intro both zFile
      rw [both.1, both.2]
      exact ⟨rfl, rfl⟩
  | false =>
    rw [json] at same
    simp only [address, json, ← same, Bool.false_eq_true, if_false, xmlPath, Prod.mk.injEq]
    constructor
    · intro all
      -- The two parts with the slash between them make up the path.
      have cut : ∀ text : Bytes, text ++ [slash] = (text ++ [slash]).takeWhile (· != slash) ++
          slash :: ((text ++ [slash]).dropWhile (· != slash)).tail := by
        intro text
        rcases split_first slash text with plain | ⟨front, rest, plain, rfl⟩
        · rw [takeWhile_ne_append plain, dropWhile_ne_append plain, List.tail_cons]
        · rw [List.append_assoc, List.cons_append, takeWhile_ne_append plain, dropWhile_ne_append plain,
            List.tail_cons]
      have here := all []
      have whole : p.zCont ++ [slash] = q.zCont ++ [slash] := by
        rw [cut p.zCont, cut q.zCont, here.1, here.2]
      exact List.append_cancel_right whole
    · intro whole zFile
      rw [whole]
      exact ⟨rfl, rfl⟩

/-- Two containers give every file one address just when their strings, or outside the XML API of Google
their normal forms, are equal. -/
theorem address_eq_iff {keyed : Keyed} {zUser' zSecret' : Bytes} {handle handle' : Handle}
    (opened : keyed.openContainer azParam zUser zSecret first = .ok handle)
    (opened' : keyed.openContainer azParam zUser' zSecret' second = .ok handle') :
    (∀ zFile, handle.address zFile = handle'.address zFile) ↔
      if handle.xml then first = second else canonical first = canonical second := by
  cases keyed with
  | s3 =>
    obtain ⟨p, open_p, rfl⟩ := map_eq_ok.mp opened
    obtain ⟨q, open_q, rfl⟩ := map_eq_ok.mp opened'
    have names := s3Open_names open_p
    have names' := s3Open_names open_q
    rw [Handle.xml, if_neg Bool.false_ne_true, canonical_eq_iff, ← names.1, ← names.2, ← names'.1, ← names'.2]
    constructor
    · intro all
      have here := all []
      simpa [Handle.address, Container.object] using here
    · intro both zFile
      rw [Handle.address, Handle.address, Container.object, Container.object, both.1, both.2]
  | google =>
    obtain ⟨p, open_p, rfl⟩ := map_eq_ok.mp opened
    obtain ⟨q, open_q, rfl⟩ := map_eq_ok.mp opened'
    obtain ⟨bucket, front, cont, settings, read, json⟩ := googleOpen_names open_p
    obtain ⟨bucket', front', cont', settings', read', json'⟩ := googleOpen_names open_q
    have same : p.bJson = q.bJson := by
      rw [read] at read'
      cases read'
      rw [json, json']
    simp only [Handle.address, Option.some.injEq]
    rw [Google.address_eq_iff same, Handle.xml, canonical_eq_iff, bucket, bucket', front, front', cont, cont']
    cases p.bJson <;> rfl

/-- The condition under which the normal forms of two containers tell whether they name the same objects:
both are within the limits of the fence and, for the XML API of Google, they do not differ in a slash at the
end. Containers outside the limits have no normal form, so then they must not name the same objects. -/
def Faithful (xml : Bool) (first second : Bytes) : Prop :=
  if Usable first ∧ Usable second then xml = true → ¬SlashApart first second ∧ ¬SlashApart second first
  else if xml then first ≠ second
  else ¬(bucketOf first = bucketOf second ∧ prefixOf first = prefixOf second)

/-- The fence gives two containers of one storage the same string exactly when the module gives every file the
same bucket and key in both, just under the condition. -/
theorem canonicalContainer_faithful_iff {storage : Bytes} {keyed : Keyed}
    (named : providerOf storage = some keyed.provider) {azParam : List (Bytes × Option Bytes)}
    {zUser zUser' zSecret zSecret' first second : Bytes} {handle handle' : Handle}
    (opened : keyed.openContainer azParam zUser zSecret first = .ok handle)
    (opened' : keyed.openContainer azParam zUser' zSecret' second = .ok handle') :
    ((∃ text, canonicalContainer storage first = .ok text ∧ canonicalContainer storage second = .ok text) ↔
        ∀ zFile, handle.address zFile = handle'.address zFile) ↔
      Faithful handle.xml first second := by
  rw [address_eq_iff opened opened', canonicalContainer_eq named, canonicalContainer_eq named, Faithful]
  by_cases usable : Usable first ∧ Usable second
  · have equal : (∃ text, (Except.ok (canonical first) : Except Err Bytes) = .ok text ∧
        (Except.ok (canonical second) : Except Err Bytes) = .ok text) ↔ canonical first = canonical second := by
      simp [eq_comm]
    rw [if_pos usable.1, if_pos usable.2, if_pos usable, equal]
    cases handle.xml with
    | false => simp
    | true =>
      rw [if_pos rfl, canonical_eq_iff_apart]
      exact (eq_or_apart_iff first second).trans ⟨fun apart _ => apart, fun apart => apart rfl⟩
  · have neither : ¬∃ text, (if Usable first then Except.ok (canonical first)
        else .error ⟨.misuse, "invalid container scope"⟩ : Except Err Bytes) = .ok text ∧
        (if Usable second then Except.ok (canonical second)
          else .error ⟨.misuse, "invalid container scope"⟩ : Except Err Bytes) = .ok text := by
      rintro ⟨text, one, two⟩
      split at one
      · split at two
        · next left right => exact usable ⟨left, right⟩
        · cases two
      · cases one
    rw [if_neg usable, iff_false_left neither]
    cases handle.xml with
    | false => simp [canonical_eq_iff]
    | true => simp

def sampleStorage : Bytes := ascii "google"

def samplePlain : Bytes := ascii "b/p"

def sampleSlashed : Bytes := ascii "b/p/"

def sampleParams : List (Bytes × Option Bytes) := [(ascii "api", some (ascii "json"))]

def sampleHandle (azParam : List (Bytes × Option Bytes)) (zContainer : Bytes) : Except Err Handle :=
  Keyed.google.openContainer azParam [] [] zContainer

theorem canonicalContainer_faithful_iff_sample :
    ∃ handle handle', sampleHandle sampleParams samplePlain = .ok handle ∧
      sampleHandle sampleParams sampleSlashed = .ok handle' ∧
      ∀ zFile, handle.address zFile = handle'.address zFile := by
  refine ⟨_, _, rfl, rfl, ?_⟩
  have named : providerOf sampleStorage = some Keyed.google.provider := by decide
  have opened : Keyed.google.openContainer sampleParams [] [] samplePlain = .ok _ := rfl
  have opened' : Keyed.google.openContainer sampleParams [] [] sampleSlashed = .ok _ := rfl
  refine ((canonicalContainer_faithful_iff named opened opened').mpr ?_).mp
    ⟨sampleSlashed, by decide, by decide⟩
  rw [Faithful, if_pos (by decide)]
  intro xml
  cases xml

/-- The XML API of Google takes the slash at the end of a container for a part of the key. -/
theorem canonicalContainer_faithful_fails :
    ∃ handle handle', sampleHandle [] samplePlain = .ok handle ∧ sampleHandle [] sampleSlashed = .ok handle' ∧
      canonicalContainer sampleStorage samplePlain = .ok sampleSlashed ∧
      canonicalContainer sampleStorage sampleSlashed = .ok sampleSlashed ∧
      handle.address [] ≠ handle'.address [] :=
  ⟨_, _, rfl, rfl, by decide, by decide, by decide⟩

end RusqDoltlite.Cloud

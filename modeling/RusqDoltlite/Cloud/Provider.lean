import RusqDoltlite.Codec.SelectorLaws
import RusqDoltlite.Wire.Percent

/-! `canonical_session_storage_provider`, and its agreement with `bcvSessionCanonicalStorage`. -/

namespace RusqDoltlite.Cloud

open Session Codec Wire

def storageParam (text : Bytes) : Except Err Bytes :=
  let param := rawParam text
  if 0x3d ∉ text then .ok text
  else if param.key.map lower = ParamKind.endpoint.name then
    if trimSlashes param.value = [] then .error (misuse "storage endpoint must not be empty")
    else .ok (render ⟨param.key.map lower, trimSlashes param.value⟩)
  else .ok (render ⟨param.key.map lower, param.value⟩)

/-- `canonical_storage_provider`. What the source returns where nothing has changed is the same text. -/
def canonicalStorageProvider (provider : Bytes) : Except Err Bytes :=
  if (queryOf provider).isSome ∧ (providerOf provider = some .s3 ∨ providerOf provider = some .google) then do
    let params ← (paramTexts provider).mapM storageParam
    .ok ((moduleOf provider).map lower ++ 0x3f :: [0x26].intercalate params)
  else .ok provider

structure Found where
  main : Option Bytes := none
  endpoint : Option Bytes := none

structure Needed where
  key : Bytes
  accepts : Bytes → Bool
  message : String

def Needed.take (needed : Needed) (found : Found) (text : Bytes) : Except Err Found :=
  let param := rawParam text
  if 0x3d ∉ text then .error (misuse needed.message)
  else if param.key = needed.key ∧ found.main = none ∧ needed.accepts param.value = true then
    .ok { found with main := some param.value }
  else if param.key = ParamKind.endpoint.name ∧ found.endpoint = none ∧ param.value ≠ [] then
    .ok { found with endpoint := some param.value }
  else .error (misuse needed.message)

def neededRegion : Needed :=
  { key := ParamKind.region.name, accepts := fun value => value != [] && value.map lower == value
    message := "S3 sessions require region=<region> and may use endpoint=<url>" }

def json : Bytes := ascii "json"

def neededApi : Needed :=
  { key := ParamKind.api.name, accepts := fun value => value.map lower == json
    message := "Google sessions require api=json and may use endpoint=<url>" }

def sessionSelector (provider : Provider) (main : Param) (endpoint : Option Bytes) : Bytes :=
  writeSelector provider (main :: (endpoint.map (Param.mk ParamKind.endpoint.name)).toList)

def sessionS3 (query : Bytes) : Except Err Bytes := do
  check (query ≠ []) .misuse "S3 sessions require an explicit region selector"
  let found ← (query.splitOn 0x26).foldlM neededRegion.take {}
  match found.main with
  | none => .error (misuse "S3 sessions require an explicit region selector")
  | some region => .ok (sessionSelector .s3 ⟨ParamKind.region.name, region⟩ found.endpoint)

def sessionGoogle (query : Bytes) : Except Err Bytes := do
  let found ← (query.splitOn 0x26).foldlM neededApi.take {}
  match found.main with
  | none => .error (misuse "Google sessions require the api=json selector")
  | some _ => .ok (sessionSelector .google ⟨ParamKind.api.name, json⟩ found.endpoint)

def canonicalSessionStorageProvider (given : Bytes) : Except Err Bytes := do
  let provider ← canonicalStorageProvider given
  let query := (queryOf provider).getD []
  if moduleOf provider = Provider.s3.name then sessionS3 query
  else if moduleOf provider = Provider.google.name then sessionGoogle query
  else if moduleOf provider = Provider.azure.name then
    .error (misuse "Azure session selectors are unavailable until their canonical form is defined")
  else .error (misuse "unknown CBS provider selectors are unavailable for session attachments")

/-- A parameter without the differences that play no part for a session. -/
def sessionParam (text : Bytes) : Param :=
  let param := normalParam (rawParam text)
  ⟨param.key, if param.key = ParamKind.api.name then param.value.map lower else param.value⟩

/-- The selectors differ only by letter case of the module, the keys and the name of the API, by the order of the
parameters and by slashes at the end of the endpoint. -/
def SessionAlike (first second : Bytes) : Prop :=
  (moduleOf first).map lower = (moduleOf second).map lower ∧
    ((paramTexts first).map sessionParam).Perm ((paramTexts second).map sessionParam)

inductive Known : Provider → Needed → Prop
  | s3 : Known .s3 neededRegion
  | google : Known .google neededApi

structure Found.Valid (needed : Needed) (found : Found) : Prop where
  main : ∀ value ∈ found.main, needed.accepts value = true ∧ 0x26 ∉ value
  endpoint : ∀ value ∈ found.endpoint, value ≠ [] ∧ trimSlashes value = value ∧ 0x26 ∉ value

def Found.params (needed : Needed) (found : Found) : List Param :=
  (found.main.map fun value => ⟨needed.key, value.map lower⟩).toList ++
    (found.endpoint.map (Param.mk ParamKind.endpoint.name)).toList

variable {param : Param} {text result given : Bytes} {found : Found} {texts : List Bytes} {provider : Provider}
  {needed : Needed}

theorem rawParam_render (plain : 0x3d ∉ param.key) : rawParam (render param) = param := by
  rw [rawParam, render, takeWhile_ne_append plain, dropWhile_ne_append plain, List.tail_cons]

theorem rawParam_key_plain (text : Bytes) : 0x3d ∉ (rawParam text).key.map lower := by
  intro inside
  obtain ⟨char, member, same⟩ := List.mem_map.mp inside
  have only := Percent.forall_byte (p := fun char => lower char != 0x3d || char == 0x3d) (by decide +kernel) char
  rw [same] at only
  rw [eq_of_beq (by simpa using only : (char == 0x3d) = true)] at member
  exact not_mem_takeWhile_ne 0x3d text member

theorem mem_render (param : Param) : 0x3d ∈ render param :=
  List.mem_append_right _ List.mem_cons_self

theorem sessionParam_endpoint (endpoint : (rawParam text).key.map lower = ParamKind.endpoint.name) :
    sessionParam text = ⟨ParamKind.endpoint.name, trimSlashes (rawParam text).value⟩ := by
  rw [sessionParam, normalParam, if_pos (kindOf_eq_some.mpr endpoint), endpoint,
    if_neg (by decide : ¬ParamKind.endpoint.name = ParamKind.api.name)]

theorem sessionParam_other (other : (rawParam text).key.map lower ≠ ParamKind.endpoint.name) :
    sessionParam text = ⟨(rawParam text).key.map lower, if (rawParam text).key.map lower = ParamKind.api.name
      then (rawParam text).value.map lower else (rawParam text).value⟩ := by
  rw [sessionParam, normalParam, if_neg fun endpoint => other (kindOf_eq_some.mp endpoint)]

theorem name_plain (kind : ParamKind) : 0x3d ∉ kind.name := by
  cases kind <;> decide

theorem trimSlashes_trimSlashes (value : Bytes) : trimSlashes (trimSlashes value) = trimSlashes value :=
  List.rdropWhile_idempotent _ _

section

variable (known : Known provider needed)
include known

theorem Known.key : needed.key ≠ ParamKind.endpoint.name ∧ 0x3d ∉ needed.key ∧ needed.key.map lower = needed.key ∧
    0x26 ∉ needed.key := by
  cases known <;> exact ⟨by decide, by decide, by decide, by decide⟩

theorem Known.accepts_lower {value : Bytes} (accepted : needed.accepts value = true) :
    needed.accepts (value.map lower) = true ∧
      (needed.key ≠ ParamKind.api.name → value.map lower = value) := by
  cases known with
  | s3 =>
    simp only [neededRegion, Bool.and_eq_true, beq_iff_eq] at accepted ⊢
    rw [accepted.2]
    exact ⟨accepted, fun _ => rfl⟩
  | google =>
    simp only [neededApi, beq_iff_eq, map_lower_lower] at accepted ⊢
    exact ⟨accepted, fun other => absurd rfl other⟩

theorem Known.take_eq_ok {next : Found} (taken : (storageParam text >>= needed.take found) = .ok next) :
    0x3d ∈ text ∧
    ((∃ value, sessionParam text = ⟨needed.key, value.map lower⟩ ∧ needed.accepts value = true ∧
      value = (rawParam text).value ∧ found.main = none ∧ next = { found with main := some value }) ∨
    ∃ value, sessionParam text = ⟨ParamKind.endpoint.name, value⟩ ∧ value ≠ [] ∧
      value = trimSlashes (rawParam text).value ∧ found.endpoint = none ∧
      next = { found with endpoint := some value }) := by
  obtain ⟨written, normal, taken⟩ := bind_eq_ok.mp taken
  by_cases valued : 0x3d ∈ text
  swap
  · rw [storageParam, if_pos valued] at normal
    rw [← Except.ok.inj normal, Needed.take, if_pos valued] at taken
    cases taken
  rw [storageParam, if_neg (not_not_intro valued)] at normal
  refine ⟨valued, ?_⟩
  by_cases endpoint : (rawParam text).key.map lower = ParamKind.endpoint.name
  · rw [if_pos endpoint] at normal
    by_cases empty : trimSlashes (rawParam text).value = []
    · rw [if_pos empty] at normal
      cases normal
    · rw [if_neg empty, endpoint] at normal
      rw [← Except.ok.inj normal, Needed.take, rawParam_render (name_plain .endpoint),
        if_neg (not_not_intro (mem_render _)), if_neg fun both => known.key.1 both.1.symm] at taken
      by_cases fresh : found.endpoint = none
      · rw [if_pos ⟨rfl, fresh, empty⟩] at taken
        exact .inr ⟨_, sessionParam_endpoint endpoint, empty, rfl, fresh, (Except.ok.inj taken).symm⟩
      · rw [if_neg fun all => fresh all.2.1] at taken
        cases taken
  · rw [if_neg endpoint] at normal
    rw [← Except.ok.inj normal, Needed.take, rawParam_render (rawParam_key_plain text),
      if_neg (not_not_intro (mem_render _))] at taken
    by_cases main : (rawParam text).key.map lower = needed.key ∧ found.main = none ∧
        needed.accepts (rawParam text).value = true
    · rw [if_pos main] at taken
      refine .inl ⟨_, ?_, main.2.2, rfl, main.2.1, (Except.ok.inj taken).symm⟩
      rw [sessionParam_other endpoint, main.1]
      split
      · rfl
      · next other => rw [(known.accepts_lower main.2.2).2 other]
    · rw [if_neg main, if_neg fun all => endpoint all.1] at taken
      cases taken

theorem Known.run {last : Found} (plain : ∀ text ∈ texts, 0x26 ∉ text) (valid : found.Valid needed)
    (run : texts.foldlM (fun found text => storageParam text >>= needed.take found) found = .ok last) :
    last.Valid needed ∧ (last.params needed).Perm (found.params needed ++ texts.map sessionParam) ∧
      ∀ text ∈ texts, 0x3d ∈ text := by
  induction texts generalizing found with
  | nil =>
    cases run
    exact ⟨valid, by simp, by simp⟩
  | cons text texts ih =>
    rw [List.foldlM_cons] at run
    obtain ⟨next, taken, rest⟩ := bind_eq_ok.mp run
    obtain ⟨valued, places⟩ := known.take_eq_ok taken
    have clean : 0x26 ∉ (rawParam text).value := not_mem_value (plain text List.mem_cons_self)
    have later := @ih next fun other member => plain other (List.mem_cons_of_mem _ member)
    -- The parameter joins the others in one of the two places.
    have step : next.Valid needed ∧ (next.params needed).Perm (found.params needed ++ [sessionParam text]) := by
      rcases places with ⟨value, shown, accepted, rfl, fresh, rfl⟩ | ⟨value, shown, present, rfl, fresh, rfl⟩
      · refine ⟨⟨fun other same => ?_, valid.endpoint⟩, ?_⟩
        · cases same
          exact ⟨accepted, clean⟩
        · rw [shown, Found.params, Found.params, fresh]
          exact (List.perm_append_singleton _ _).symm
      · refine ⟨⟨valid.main, fun other same => ?_⟩, ?_⟩
        · cases same
          exact ⟨present, trimSlashes_trimSlashes _, fun inside =>
            clean ((List.rdropWhile_prefix _ _).subset inside)⟩
        · rw [shown, Found.params, Found.params, fresh, Option.map_none, Option.toList_none, List.append_nil]
          rfl
    obtain ⟨valid', perm, others⟩ := later step.1 rest
    refine ⟨valid', perm.trans ?_, List.forall_mem_cons.mpr ⟨valued, others⟩⟩
    rw [List.map_cons, ← List.singleton_append, ← List.append_assoc]
    exact step.2.append_right _

end

theorem foldlM_of_mapM {params : List Bytes} {take : Found → Bytes → Except Err Found}
    (mapped : texts.mapM storageParam = .ok params) :
    texts.foldlM (fun found text => storageParam text >>= take found) found = params.foldlM take found := by
  induction texts generalizing params found with
  | nil =>
    cases mapped
    rfl
  | cons text texts ih =>
    rw [List.mapM_cons] at mapped
    obtain ⟨first, one, mapped⟩ := bind_eq_ok.mp mapped
    obtain ⟨rest, others, mapped⟩ := bind_eq_ok.mp mapped
    cases mapped
    rw [List.foldlM_cons, List.foldlM_cons, one]
    exact congrArg (take found first >>= ·) (funext fun next => ih others)

theorem storageParam_plain {written : Bytes} (plain : 0x26 ∉ text) (normal : storageParam text = .ok written) :
    0x26 ∉ written := by
  have value : 0x26 ∉ (rawParam text).value := not_mem_value plain
  have key : 0x26 ∉ (rawParam text).key.map lower := by
    intro inside
    obtain ⟨char, member, same⟩ := List.mem_map.mp inside
    have only := Percent.forall_byte (p := fun char => lower char != 0x26 || char == 0x26) (by decide +kernel) char
    rw [same] at only
    rw [eq_of_beq (by simpa using only : (char == 0x26) = true)] at member
    exact plain ((List.takeWhile_prefix _).subset member)
  have joined : ∀ {value : Bytes}, 0x26 ∉ value → 0x26 ∉ render ⟨(rawParam text).key.map lower, value⟩ := by
    intro value clean
    rw [render, List.mem_append, List.mem_cons]
    rintro (inside | inside | inside)
    · exact key inside
    · cases inside
    · exact clean inside
  rw [storageParam] at normal
  split at normal
  · rwa [← Except.ok.inj normal]
  · split at normal
    · split at normal
      · cases normal
      · rw [← Except.ok.inj normal]
        exact joined fun inside => value ((List.rdropWhile_prefix _ _).subset inside)
    · rw [← Except.ok.inj normal]
      exact joined value

theorem mapM_storageParam {params : List Bytes} (plain : ∀ text ∈ texts, 0x26 ∉ text)
    (mapped : texts.mapM storageParam = .ok params) :
    (∀ text ∈ params, 0x26 ∉ text) ∧ params.length = texts.length := by
  induction texts generalizing params with
  | nil =>
    cases mapped
    exact ⟨by simp, rfl⟩
  | cons text texts ih =>
    rw [List.mapM_cons] at mapped
    obtain ⟨first, one, mapped⟩ := bind_eq_ok.mp mapped
    obtain ⟨rest, others, mapped⟩ := bind_eq_ok.mp mapped
    cases mapped
    obtain ⟨clean, size⟩ := ih (fun other member => plain other (List.mem_cons_of_mem _ member)) others
    exact ⟨List.forall_mem_cons.mpr ⟨storageParam_plain (plain text List.mem_cons_self) one, clean⟩,
      congrArg (· + 1) size⟩

def sessionOf (provider : Provider) (query : Bytes) : Except Err Bytes :=
  if provider = .s3 then sessionS3 query else sessionGoogle query

theorem Known.session (known : Known provider needed) {query : Bytes}
    (accepted : sessionOf provider query = .ok result) :
    ∃ found main, (query.splitOn 0x26).foldlM needed.take {} = .ok found ∧ found.main = some main ∧
      (needed.accepts main = true → result = writeSelector provider (found.params needed)) := by
  cases known with
  | s3 =>
    simp only [sessionOf, if_true, sessionS3, unit_bind_eq_ok] at accepted
    obtain ⟨found, run, accepted⟩ := bind_eq_ok.mp accepted.2
    cases main : found.main with
    | none =>
      rw [main] at accepted
      cases accepted
    | some region =>
      rw [main] at accepted
      refine ⟨found, region, run, main, fun passed => ?_⟩
      rw [← Except.ok.inj accepted, Found.params, main, Option.map_some, Option.toList_some,
        (Known.s3.accepts_lower passed).2 (by decide)]
      rfl
  | google =>
    simp only [sessionOf, reduceCtorEq, if_false, sessionGoogle] at accepted
    obtain ⟨found, run, accepted⟩ := bind_eq_ok.mp accepted
    cases main : found.main with
    | none =>
      rw [main] at accepted
      cases accepted
    | some api =>
      rw [main] at accepted
      refine ⟨found, api, run, main, fun passed => ?_⟩
      have named : api.map lower = json := eq_of_beq passed
      rw [← Except.ok.inj accepted, Found.params, main, Option.map_some, Option.toList_some, named]
      rfl

theorem Known.provider_eq (known : Known provider needed) (named : providerOf given = some provider)
    (query : (queryOf given).isSome = true) :
    canonicalSessionStorageProvider given = (do
      let params ← (paramTexts given).mapM storageParam
      sessionOf provider ([0x26].intercalate params)) := by
  have chosen : providerOf given = some .s3 ∨ providerOf given = some .google := by
    cases known
    · exact .inl named
    · exact .inr named
  have module : (moduleOf given).map lower = provider.name := providerOf_eq_some.mp named
  rw [canonicalSessionStorageProvider, canonicalStorageProvider, if_pos ⟨query, chosen⟩, module]
  cases (paramTexts given).mapM storageParam with
  | error error => rfl
  | ok params =>
    have front : 0x3f ∉ provider.name := by cases provider <;> decide
    simp only [bind, Except.bind, moduleOf, queryOf, takeWhile_ne_append front, dropWhile_ne_append front,
      List.tail?_cons, Option.getD_some]
    cases known with
    | s3 => rw [if_pos rfl]; rfl
    | google => rw [if_neg (by decide), if_pos rfl]; rfl

theorem Known.of_accepted (accepted : canonicalSessionStorageProvider given = .ok result) :
    (queryOf given).isSome = true ∧ ∃ provider needed, Known provider needed ∧ providerOf given = some provider := by
  by_cases active : (queryOf given).isSome = true ∧ (providerOf given = some .s3 ∨ providerOf given = some .google)
  · refine ⟨active.1, ?_⟩
    rcases active.2 with named | named
    · exact ⟨_, _, .s3, named⟩
    · exact ⟨_, _, .google, named⟩
  · exfalso
    rw [canonicalSessionStorageProvider, canonicalStorageProvider, if_neg active] at accepted
    simp only [bind, Except.bind] at accepted
    have empty : ∀ provider : Provider, provider = .s3 ∨ provider = .google → moduleOf given = provider.name →
        (queryOf given).getD [] = [] := by
      intro provider either module
      cases query : queryOf given with
      | none => rfl
      | some _ =>
        have named : providerOf given = some provider := by rw [providerOf_eq_some, module, lower_name]
        refine absurd ⟨by rw [query]; rfl, ?_⟩ active
        rcases either with rfl | rfl
        · exact .inl named
        · exact .inr named
    split at accepted
    · next module =>
        rw [empty .s3 (.inl rfl) module] at accepted
        cases accepted
    · split at accepted
      · next module =>
          rw [empty .google (.inr rfl) module] at accepted
          cases accepted
      · split at accepted <;> cases accepted

/-- What an accepted selector is made of, and its canonical form. -/
theorem canonicalSession_eq_ok (accepted : canonicalSessionStorageProvider given = .ok result) :
    ∃ provider needed, ∃ found : Found, Known provider needed ∧ providerOf given = some provider ∧
      found.Valid needed ∧
      found.main.isSome = true ∧ (found.params needed).Perm ((paramTexts given).map sessionParam) ∧
      (∀ text ∈ paramTexts given, 0x3d ∈ text) ∧ (queryOf given).isSome = true ∧
      result = writeSelector provider (found.params needed) := by
  obtain ⟨query, provider, needed, known, named⟩ := Known.of_accepted accepted
  rw [known.provider_eq named query] at accepted
  obtain ⟨params, mapped, accepted⟩ := bind_eq_ok.mp accepted
  obtain ⟨clean, size⟩ := mapM_storageParam (not_mem_paramTexts given) mapped
  have nonempty : params ≠ [] := by
    intro nothing
    rw [nothing] at size
    obtain ⟨text, found⟩ := Option.isSome_iff_exists.mp query
    rw [paramTexts, found] at size
    exact List.splitOn_ne_nil _ _ (List.eq_nil_of_length_eq_zero size.symm)
  obtain ⟨found, main, run, chosen, written⟩ := known.session accepted
  rw [List.splitOn_intercalate _ clean nonempty, ← foldlM_of_mapM mapped] at run
  obtain ⟨valid, perm, valued⟩ := known.run (not_mem_paramTexts given) ⟨by simp, by simp⟩ run
  exact ⟨provider, needed, found, known, named, valid, by rw [chosen]; rfl, perm, valued, query,
    written (valid.main main chosen).1⟩

theorem mapM_eq_self (each : ∀ text ∈ texts, storageParam text = .ok text) :
    texts.mapM storageParam = .ok texts := by
  induction texts with
  | nil => rfl
  | cons text texts ih =>
    obtain ⟨first, rest⟩ := List.forall_mem_cons.mp each
    rw [List.mapM_cons, first, ih rest]
    rfl

theorem storageParam_render (key : param.key.map lower = param.key) (plain : 0x3d ∉ param.key)
    (endpoint : param.key = ParamKind.endpoint.name → param.value ≠ [] ∧ trimSlashes param.value = param.value) :
    storageParam (render param) = .ok (render param) := by
  rw [storageParam, if_neg (not_not_intro (mem_render param)), rawParam_render plain, key]
  split
  · next named =>
      obtain ⟨present, trimmed⟩ := endpoint named
      rw [trimmed, if_neg present]
  · rfl

section

variable (known : Known provider needed) (valid : found.Valid needed) (main : found.main.isSome = true)
include known valid main

theorem Known.each : ∀ param ∈ found.params needed, param.key.map lower = param.key ∧ 0x3d ∉ param.key ∧
    0x26 ∉ render param ∧
    (param.key = ParamKind.endpoint.name → param.value ≠ [] ∧ trimSlashes param.value = param.value) := by
  obtain ⟨value, named⟩ := Option.isSome_iff_exists.mp main
  obtain ⟨other, plain, lowered, clean⟩ := known.key
  intro param member
  rw [Found.params, named, Option.map_some, Option.toList_some, List.singleton_append, List.mem_cons] at member
  rcases member with rfl | member
  · have inside : 0x26 ∉ value.map lower := by
      have accepted := (known.accepts_lower (valid.main value named).1).2
      cases known with
      | s3 =>
        rw [accepted (by decide)]
        exact (valid.main value named).2
      | google =>
        rw [show value.map lower = json from eq_of_beq (valid.main value named).1]
        decide
    refine ⟨lowered, plain, ?_, fun endpoint => absurd endpoint other⟩
    simp [render, clean, inside]
  · cases chosen : found.endpoint with
    | none =>
      rw [chosen] at member
      cases member
    | some endpoint =>
      rw [chosen, Option.map_some, Option.toList_some, List.mem_singleton] at member
      subst member
      obtain ⟨present, trimmed, inside⟩ := valid.endpoint endpoint chosen
      have lowered : ParamKind.endpoint.name.map lower = ParamKind.endpoint.name := by decide
      refine ⟨lowered, name_plain .endpoint, ?_, fun _ => ⟨present, trimmed⟩⟩
      simp [render, inside, (by decide : 0x26 ∉ ParamKind.endpoint.name)]

theorem Known.splitOn_written :
    ([0x26].intercalate ((found.params needed).map render)).splitOn 0x26 = (found.params needed).map render := by
  obtain ⟨value, named⟩ := Option.isSome_iff_exists.mp main
  apply List.splitOn_intercalate
  · intro text member
    obtain ⟨param, written, rfl⟩ := List.mem_map.mp member
    exact (known.each valid main param written).2.2.1
  · simp [Found.params, named]

theorem Known.paramTexts_written :
    paramTexts (writeSelector provider (found.params needed)) = (found.params needed).map render := by
  rw [paramTexts, queryOf_writeSelector, Option.elim_some, known.splitOn_written valid main]

theorem Known.mapM_written :
    ((found.params needed).map render).mapM storageParam = .ok ((found.params needed).map render) := by
  apply mapM_eq_self
  intro text member
  obtain ⟨param, written, rfl⟩ := List.mem_map.mp member
  obtain ⟨key, plain, _, endpoint⟩ := known.each valid main param written
  exact storageParam_render key plain endpoint

theorem Known.again :
    canonicalSessionStorageProvider (writeSelector provider (found.params needed)) =
      .ok (writeSelector provider (found.params needed)) := by
  have named : providerOf (writeSelector provider (found.params needed)) = some provider := by
    rw [providerOf_eq_some, moduleOf_writeSelector, lower_name]
  rw [known.provider_eq named (by rw [queryOf_writeSelector]; rfl), known.paramTexts_written valid main,
    known.mapM_written valid main]
  obtain ⟨value, chosen⟩ := Option.isSome_iff_exists.mp main
  have accepted := (known.accepts_lower (valid.main value chosen).1).1
  -- The loop finds the same two parameters again.
  have run : ((found.params needed).map render).foldlM needed.take {} =
      .ok { main := some (value.map lower), endpoint := found.endpoint } := by
    have first : needed.take {} (render ⟨needed.key, value.map lower⟩) = .ok { main := some (value.map lower) } := by
      rw [Needed.take, if_neg (not_not_intro (mem_render _)), rawParam_render known.key.2.1,
        if_pos ⟨rfl, rfl, accepted⟩]
    rw [Found.params, chosen, Option.map_some, Option.toList_some, List.singleton_append, List.map_cons,
      List.foldlM_cons, first]
    cases ends : found.endpoint with
    | none => rfl
    | some endpoint =>
      obtain ⟨present, _, _⟩ := valid.endpoint endpoint ends
      have second : needed.take { main := some (value.map lower) } (render ⟨ParamKind.endpoint.name, endpoint⟩) =
          .ok { main := some (value.map lower), endpoint := some endpoint } := by
        rw [Needed.take, if_neg (not_not_intro (mem_render _)), rawParam_render (name_plain .endpoint),
          if_neg fun all => known.key.1 all.1.symm, if_pos ⟨rfl, rfl, present⟩]
      exact congrArg (· >>= pure) second
  have nonempty : [0x26].intercalate ((found.params needed).map render) ≠ [] := by
    intro empty
    have pieces := known.splitOn_written valid main
    rw [empty, List.splitOn_nil, Found.params, chosen] at pieces
    simp [render] at pieces
  have written : ∀ {param}, param = ⟨needed.key, value.map lower⟩ →
      sessionSelector provider param found.endpoint = writeSelector provider (found.params needed) := by
    intro param same
    rw [same, sessionSelector, Found.params, chosen]
    rfl
  have pieces := known.splitOn_written valid main
  cases known with
  | s3 =>
    simp only [bind, Except.bind, sessionOf, if_true, sessionS3, check, if_pos nonempty, pieces, run]
    exact congrArg Except.ok (written rfl)
  | google =>
    have api : json = value.map lower := (eq_of_beq (valid.main value chosen).1).symm
    simp only [bind, Except.bind, sessionOf, reduceCtorEq, if_false, sessionGoogle, pieces, run]
    rw [api]
    exact congrArg Except.ok (written rfl)

end

theorem Known.unique {needed' : Needed} (one : Known provider needed) (two : Known provider needed') :
    needed = needed' := by
  cases one <;> cases two <;> rfl

theorem Known.params_unique (known : Known provider needed) {found' : Found} (main : found.main.isSome = true)
    (main' : found'.main.isSome = true) (perm : (found.params needed).Perm (found'.params needed)) :
    found.params needed = found'.params needed := by
  obtain ⟨value, chosen⟩ := Option.isSome_iff_exists.mp main
  obtain ⟨value', chosen'⟩ := Option.isSome_iff_exists.mp main'
  simp only [Found.params, chosen, chosen', Option.map_some, Option.toList_some, List.singleton_append] at perm ⊢
  have first := perm.mem_iff.mp List.mem_cons_self
  rcases List.mem_cons.mp first with same | other
  · rw [same] at perm ⊢
    have rest := perm.cons_inv
    revert rest
    cases found.endpoint <;> cases found'.endpoint <;> intro rest
    · rfl
    · cases rest.length_eq
    · cases rest.length_eq
    · exact congrArg _ (List.perm_singleton.mp rest)
  · obtain ⟨_, _, same⟩ := Option.map_eq_some_iff.mp (Option.mem_toList.mp other)
    exact absurd (congrArg Param.key same).symm known.key.1

theorem selecting_eq (texts : List Bytes) :
    (((texts.map rawParam).filter Param.selects).map normalParam) =
      (texts.map sessionParam).filter Param.selects := by
  induction texts with
  | nil => rfl
  | cons text texts ih =>
    have key : (sessionParam text).selects = (rawParam text).selects := by
      rw [Param.selects, sessionParam, normalParam_key, kindOf_lower, Param.selects]
    rw [List.map_cons, List.filter_cons, List.map_cons, List.filter_cons, key]
    split
    · next selects =>
        have other : (normalParam (rawParam text)).key ≠ ParamKind.api.name := by
          intro api
          rw [normalParam_key] at api
          rw [Param.selects, kindOf_eq_some.mpr api] at selects
          cases selects
        rw [List.map_cons, ih, sessionParam, if_neg other]
    · exact ih

theorem spelling_perm {first second : Bytes} (same : providerOf first = providerOf second)
    (perm : (((paramTexts first).map sessionParam).filter Param.selects).Perm
      (((paramTexts second).map sessionParam).filter Param.selects)) :
    (spelling first).Perm (spelling second) := by
  have kinds : ∀ kind : ParamKind, kind.selects = true → ∀ texts : List Bytes,
      some kind ∈ (texts.map rawParam).map (fun param => kindOf param.key) ↔
        some kind ∈ ((texts.map sessionParam).filter Param.selects).map (fun param => kindOf param.key) := by
    intro kind selects texts
    rw [← selecting_eq, List.mem_map, List.mem_map]
    constructor
    · rintro ⟨param, member, known⟩
      have chosen : param.selects = true := by rw [Param.selects, known]; exact selects
      exact ⟨normalParam param, List.mem_map_of_mem (List.mem_filter.mpr ⟨member, chosen⟩),
        by rw [normalParam_key, kindOf_lower, known]⟩
    · rintro ⟨_, member, known⟩
      obtain ⟨param, inside, rfl⟩ := List.mem_map.mp member
      rw [normalParam_key, kindOf_lower] at known
      exact ⟨param, (List.mem_filter.mp inside).1, known⟩
  unfold spelling
  simp only [selecting_eq, ← same]
  cases default : (providerOf first).bind Provider.default with
  | none => exact perm
  | some both =>
    obtain ⟨kind, param⟩ := both
    obtain ⟨provider, _, found⟩ := Option.bind_eq_some_iff.mp default
    have selects := (default_valid found).2.1
    simp only [kinds kind selects, (perm.map fun param => kindOf param.key).mem_iff]
    split
    · exact perm
    · exact perm.append_right _

theorem sessionParam_render (key : param.key.map lower = param.key) (plain : 0x3d ∉ param.key)
    (endpoint : param.key = ParamKind.endpoint.name → trimSlashes param.value = param.value)
    (api : param.key = ParamKind.api.name → param.value.map lower = param.value) :
    sessionParam (render param) = param := by
  have raw := rawParam_render plain
  by_cases named : param.key = ParamKind.endpoint.name
  · rw [sessionParam_endpoint (by rw [raw, key, named]), raw, endpoint named, ← named]
  · rw [sessionParam_other (by rw [raw, key]; exact named), raw, key]
    split
    · next other => rw [api other]
    · rfl

section

variable (known : Known provider needed) (valid : found.Valid needed) (main : found.main.isSome = true)
include known valid main

theorem Known.sessionParams_written :
    (paramTexts (writeSelector provider (found.params needed))).map sessionParam = found.params needed := by
  rw [known.paramTexts_written valid main, List.map_map]
  refine (List.map_congr_left fun param member => ?_).trans (List.map_id _)
  obtain ⟨key, plain, _, endpoint⟩ := known.each valid main param member
  apply sessionParam_render key plain fun named => (endpoint named).2
  intro api
  rw [Found.params, List.mem_append, Option.mem_toList, Option.mem_toList] at member
  rcases member with first | second
  · obtain ⟨value, _, rfl⟩ := Option.map_eq_some_iff.mp first
    exact map_lower_lower value
  · obtain ⟨value, _, rfl⟩ := Option.map_eq_some_iff.mp second
    exact absurd api (by decide : ¬ParamKind.endpoint.name = ParamKind.api.name)

theorem Known.passes {native : Bytes} (named : providerOf given = some provider)
    (perm : (found.params needed).Perm ((paramTexts given).map sessionParam))
    (accepted : canonicalStorage given = .ok native) : ∀ param ∈ found.params needed, Passes provider param := by
  obtain ⟨provider', params, named', chosen, spelled, _⟩ := canonicalStorage_eq_ok accepted
  cases Option.some.inj (named.symm.trans named')
  intro param member
  have key := (known.each valid main param member).1
  by_cases selects : param.selects = true
  · have inside : param ∈ spelling given := by
      have here := List.mem_filter.mpr ⟨perm.mem_iff.mp member, selects⟩
      rw [← selecting_eq] at here
      simp only [spelling]
      split
      · exact here
      · split
        · exact here
        · exact List.mem_append_left _ here
    rw [← spelled] at inside
    obtain ⟨kind, kinds, _, permitted, value, _⟩ := chosen.normal.each param inside
    exact ⟨kind, by rw [← key]; exact kindOf_eq_some.mp kinds, permitted, value⟩
  · rw [Found.params, List.mem_append, Option.mem_toList, Option.mem_toList] at member
    rcases member with first | second
    · obtain ⟨value, _, rfl⟩ := Option.map_eq_some_iff.mp first
      cases known with
      | s3 => exact absurd (by decide : (ParamKind.region.name |> kindOf).any ParamKind.selects = true) selects
      | google => exact ⟨.api, rfl, rfl, rfl⟩
    · obtain ⟨value, _, rfl⟩ := Option.map_eq_some_iff.mp second
      exact absurd (by decide : (ParamKind.endpoint.name |> kindOf).any ParamKind.selects = true) selects

theorem Known.kinds_written : ((found.params needed).map fun param => kindOf param.key).Nodup := by
  obtain ⟨value, chosen⟩ := Option.isSome_iff_exists.mp main
  rw [Found.params, chosen]
  cases known <;> cases found.endpoint <;>
    simp [neededRegion, neededApi, kindOf_name]

end

theorem length_render_sessionParam (valued : 0x3d ∈ text) :
    (render (sessionParam text)).length ≤ text.length := by
  have whole : text = (rawParam text).key ++ 0x3d :: (rawParam text).value := by
    rcases split_first 0x3d text with plain | ⟨key, value, plain, rfl⟩
    · exact absurd valued plain
    · rw [rawParam, takeWhile_ne_append plain, dropWhile_ne_append plain, List.tail_cons]
  have shorter : (sessionParam text).value.length ≤ (rawParam text).value.length := by
    by_cases endpoint : (rawParam text).key.map lower = ParamKind.endpoint.name
    · rw [sessionParam_endpoint endpoint]
      exact (List.rdropWhile_prefix _ _).length_le
    · rw [sessionParam_other endpoint]
      split <;> simp
  have size := congrArg List.length whole
  have key : (sessionParam text).key.length = (rawParam text).key.length := List.length_map _
  simp only [render, List.length_append, List.length_cons] at size ⊢
  omega

theorem length_written {params : List Param} (named : providerOf given = some provider)
    (query : (queryOf given).isSome = true) (perm : params.Perm ((paramTexts given).map sessionParam))
    (valued : ∀ text ∈ paramTexts given, 0x3d ∈ text) :
    (writeSelector provider params).length ≤ given.length := by
  obtain ⟨rest, found⟩ := Option.isSome_iff_exists.mp query
  have texts : paramTexts given = rest.splitOn 0x26 := by rw [paramTexts, found, Option.elim_some]
  have nonempty : paramTexts given ≠ [] := by
    rw [texts]
    exact List.splitOn_ne_nil _ _
  have module : (moduleOf given).length = provider.name.length := by
    rw [← providerOf_eq_some.mp named, List.length_map]
  have whole : given = moduleOf given ++ 0x3f :: rest := by
    rcases split_first 0x3f given with plain | ⟨front, back, plain, rfl⟩
    · rw [queryOf, dropWhile_ne_self plain] at found
      cases found
    · rw [queryOf, dropWhile_ne_append plain] at found
      cases found
      rw [moduleOf, takeWhile_ne_append plain]
  have joined := length_intercalate (paramTexts given) nonempty
  rw [texts, List.intercalate_splitOn, ← texts] at joined
  have written := length_intercalate (params.map render) (by
    intro nothing
    have size := perm.length_eq
    rw [List.map_eq_nil_iff.mp nothing, List.length_map] at size
    exact nonempty (List.eq_nil_of_length_eq_zero size.symm))
  rw [List.flatMap_map, (perm.flatMap_right fun param => 0x26 :: render param).length_eq] at written
  have each : (((paramTexts given).map sessionParam).flatMap fun param => 0x26 :: render param).length ≤
      ((paramTexts given).flatMap fun text => 0x26 :: text).length := by
    generalize paramTexts given = texts at valued
    induction texts with
    | nil => exact le_refl _
    | cons text texts ih =>
      obtain ⟨first, others⟩ := List.forall_mem_cons.mp valued
      have here := length_render_sessionParam first
      have later := ih others
      simp only [List.map_cons, List.flatMap_cons, List.length_append, List.length_cons] at later ⊢
      omega
  have size := congrArg List.length whole
  rw [writeSelector]
  simp only [List.length_append, List.length_cons] at size ⊢
  omega

theorem canonicalStorage_written {native : Bytes} (known : Known provider needed)
    (named : providerOf given = some provider) (valid : found.Valid needed) (main : found.main.isSome = true)
    (perm : (found.params needed).Perm ((paramTexts given).map sessionParam))
    (short : (writeSelector provider (found.params needed)).length ≤ given.length)
    (accepted : canonicalStorage given = .ok native) :
    canonicalStorage (writeSelector provider (found.params needed)) = .ok native := by
  have limit : given.length ≤ maxFieldBytes := by
    rw [canonicalStorage, unit_bind_eq_ok, check_eq_ok] at accepted
    exact accepted.1.2
  have named' : providerOf (writeSelector provider (found.params needed)) = some provider := by
    rw [providerOf_eq_some, moduleOf_writeSelector, lower_name]
  have few : (found.params needed).length ≤ 2 := by
    rw [Found.params, List.length_append]
    cases found.main <;> cases found.endpoint <;> simp
  have texts := known.paramTexts_written valid main
  obtain ⟨after, run⟩ := @scan_render ⟨[], []⟩ (found.params needed) provider
    (known.passes valid main named perm accepted) (known.kinds_written valid main) (by simp)
    (by rw [List.length_nil, Nat.zero_add]; omega)
  rw [← texts] at run
  obtain ⟨other, accepted'⟩ := canonicalStorage_accepts named' (short.trans limit) run
    (by rw [texts, List.length_map]; omega)
  have alike : (spelling given).Perm (spelling (writeSelector provider (found.params needed))) := by
    apply spelling_perm (named.trans named'.symm)
    rw [known.sessionParams_written valid main]
    exact (perm.filter Param.selects).symm
  obtain ⟨one, params, parts, rfl⟩ := canonical_parts accepted
  obtain ⟨two, params', parts', rfl⟩ := canonical_parts accepted'
  cases Option.some.inj (named.symm.trans parts.named)
  cases Option.some.inj (named'.symm.trans parts'.named)
  have cloud : provider ≠ .azure := by cases known <;> decide
  have same := parts.unique parts' (parts.spelled.trans (alike.trans parts'.spelled.symm))
  rw [accepted', if_pos (.inl (parts'.nonempty cloud)), if_pos (.inl (parts.nonempty cloud)), same]

/-- The canonical form of a session's selector is its own, does not depend on the spelling, and names the storage
that the selector names. -/
theorem canonicalSession_laws {given result : Bytes}
    (accepted : canonicalSessionStorageProvider given = .ok result) :
    canonicalSessionStorageProvider result = .ok result ∧
    (∀ other result', canonicalSessionStorageProvider other = .ok result' → SessionAlike given other →
      result' = result) ∧
    ∀ native, canonicalStorage given = .ok native → canonicalStorage result = .ok native := by
  obtain ⟨provider, needed, found, known, named, valid, main, perm, valued, query, rfl⟩ :=
    canonicalSession_eq_ok accepted
  refine ⟨known.again valid main, ?_, ?_⟩
  · intro other result' accepted' alike
    obtain ⟨provider', needed', found', known', named', valid', main', perm', _, _, rfl⟩ :=
      canonicalSession_eq_ok accepted'
    have same : provider' = provider := by
      have module := alike.1
      rw [providerOf_eq_some.mp named, providerOf_eq_some.mp named'] at module
      cases known <;> cases known' <;> first | rfl | cases module
    subst same
    cases known'.unique known
    rw [known.params_unique main' main (perm'.trans (alike.2.symm.trans perm.symm))]
  · intro native native_accepts
    exact canonicalStorage_written known named valid main perm
      (length_written named query perm valued) native_accepts

theorem canonicalSession_laws_sample :
    canonicalSessionStorageProvider (ascii "S3?Endpoint=http://h/&REGION=r") =
        .ok (ascii "s3?region=r&endpoint=http://h") ∧
      canonicalStorage (ascii "s3?region=r&endpoint=http://h") = .ok (ascii "s3?endpoint=http://h&region=r") := by
  have accepted : canonicalSessionStorageProvider (ascii "S3?Endpoint=http://h/&REGION=r") =
      .ok (ascii "s3?region=r&endpoint=http://h") := by decide +kernel
  exact ⟨accepted, (canonicalSession_laws accepted).2.2 _ (by decide +kernel)⟩

end RusqDoltlite.Cloud

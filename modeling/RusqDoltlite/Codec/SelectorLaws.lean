import RusqDoltlite.Codec.Scope

/-! Selectors that name one storage location have one canonical spelling, and the canonical
spelling is accepted and its own. Both fail for an Azure selector with a query, whose question mark
is kept, and the second also where the default parameter makes the selector too long. -/

namespace RusqDoltlite.Codec

open Wire Session

def rawParam (text : Bytes) : Param :=
  ⟨text.takeWhile (· != 0x3d), (text.dropWhile (· != 0x3d)).tail⟩

def paramTexts (storage : Bytes) : List Bytes := (queryOf storage).elim [] (List.splitOn 0x26)

def normalParam (param : Param) : Param :=
  ⟨param.key.map lower,
    if kindOf param.key = some .endpoint then trimSlashes param.value else param.value⟩

def Param.selects (param : Param) : Bool := (kindOf param.key).any ParamKind.selects

/-- What a selector says about the location, without letter case, last slashes and parameters of
the transport, and with the default of the provider filled in. -/
def spelling (storage : Bytes) : List Param :=
  let params := (paramTexts storage).map rawParam
  let given := (params.filter Param.selects).map normalParam
  match (providerOf storage).bind Provider.default with
  | none => given
  | some (kind, param) =>
    if some kind ∈ params.map (fun spelled => kindOf spelled.key) then given else given ++ [param]

/-- The selectors differ only by letter case of the module and the keys, by the order of the
parameters, slashes at the end of the endpoint, parameters of the transport, and by spelling out a
default. -/
def SpelledAlike (first second : Bytes) : Prop :=
  (moduleOf first).map lower = (moduleOf second).map lower ∧ (spelling first).Perm (spelling second)

def render (param : Param) : Bytes := param.key ++ 0x3d :: param.value

/-- The selector has no query of which nothing would remain, and spelled out, with one byte between
any two parts, it is not longer than a selector may be. -/
def Spellable (storage : Bytes) : Prop :=
  (providerOf storage = some .azure → queryOf storage = none) ∧
    (moduleOf storage).length +
      ((spelling storage).flatMap fun param => 0x26 :: render param).length ≤ maxFieldBytes

variable {text storage canonical first second : Bytes} {param : Param} {scan : Scan} {kind : ParamKind}
  {params : List Param}

theorem not_mem_of_mem_splitOn {separator : UInt8} {piece : Bytes} (member : piece ∈ text.splitOn separator) :
    separator ∉ piece := by
  induction text generalizing piece with
  | nil =>
    rw [List.splitOn_nil, List.mem_singleton] at member
    rw [member]
    exact List.not_mem_nil
  | cons char rest ih =>
    rw [List.splitOn_cons_eq_if_modifyHead] at member
    split at member
    · rcases List.mem_cons.mp member with rfl | later
      · exact List.not_mem_nil
      · exact ih later
    · rename_i differs
      cases pieces : rest.splitOn separator with
      | nil => exact absurd pieces (List.splitOn_ne_nil _ _)
      | cons first others =>
        rw [pieces, List.modifyHead_cons] at member
        rcases List.mem_cons.mp member with rfl | later
        · intro inside
          rcases List.mem_cons.mp inside with same | deeper
          · exact differs (by simp [same])
          · exact ih (by rw [pieces]; exact List.mem_cons_self) deeper
        · exact ih (by rw [pieces]; exact List.mem_cons_of_mem _ later)

theorem parseParam_eq_ok (parsed : parseParam text = .ok param) : param = rawParam text := by
  simp only [parseParam, check_bind_eq_ok, Except.ok.injEq] at parsed
  exact parsed.2.2.symm

theorem scanParam_eq_ok {provider : Provider} {next : Scan} (success : scanParam provider scan text = .ok next) :
    ∃ kind, kindOf (rawParam text).key = some kind ∧ provider.permits kind = true ∧
      kind ∉ scan.seen ∧ checkValue provider kind (rawParam text).value = .ok () ∧
      next.seen = kind :: scan.seen ∧
      next.kept = (scan.kept ++ if kind.selects then [rawParam text] else []) ∧
      (scan.kept.length ≤ 128 → next.kept.length ≤ 128) := by
  simp only [scanParam, bind_eq_ok] at success
  obtain ⟨param, parsed, success⟩ := success
  obtain rfl := parseParam_eq_ok parsed
  split at success
  · cases success
  · rename_i kind known
    simp only [unit_bind_eq_ok, check_eq_ok] at success
    obtain ⟨permitted, fresh, value, success⟩ := success
    refine ⟨kind, known, permitted, fresh, value, ?_⟩
    split at success
    · rename_i selecting
      obtain ⟨kept, added, same⟩ := bind_eq_ok.mp success
      simp only [paramAdd, check_bind_eq_ok, Except.ok.injEq] at added
      cases same
      refine ⟨rfl, by rw [if_pos selecting, added.2], ?_⟩
      intro _
      rw [← added.2, List.length_append, List.length_singleton]
      exact added.1
    · rename_i transport
      cases success
      exact ⟨rfl, by rw [if_neg transport, List.append_nil], id⟩

structure Scanned (provider : Provider) (texts : List Bytes) (before after : Scan) : Prop where
  kept : after.kept = before.kept ++ (texts.map rawParam).filter Param.selects
  few : before.kept.length ≤ 128 → after.kept.length ≤ 128
  seen : ∀ kind, kind ∈ after.seen ↔
    kind ∈ before.seen ∨ some kind ∈ texts.map fun text => kindOf (rawParam text).key
  each : ∀ text ∈ texts, ∃ kind, kindOf (rawParam text).key = some kind ∧
    provider.permits kind = true ∧ kind ∉ before.seen ∧
    checkValue provider kind (rawParam text).value = .ok ()
  distinct : (texts.map fun text => kindOf (rawParam text).key).Nodup

theorem scan_run {provider : Provider} {texts : List Bytes} {before after : Scan}
    (success : texts.foldlM (scanParam provider) before = .ok after) :
    Scanned provider texts before after := by
  induction texts generalizing before with
  | nil =>
    cases success
    exact ⟨by simp, id, by simp, by simp, List.nodup_nil⟩
  | cons text texts ih =>
    rw [List.foldlM_cons] at success
    obtain ⟨middle, first, rest⟩ := bind_eq_ok.mp success
    obtain ⟨kind, known, permitted, fresh, value, seen, kept, few⟩ := scanParam_eq_ok first
    have later := ih rest
    refine ⟨?_, fun room => later.few (few room), ?_, ?_, ?_⟩
    · rw [later.kept, kept, List.append_assoc, List.map_cons, List.filter_cons, Param.selects, known,
        Option.any_some]
      split
      · rfl
      · rfl
    · intro other
      rw [later.seen, seen, List.mem_cons, List.map_cons, List.mem_cons, known, Option.some.injEq]
      tauto
    · intro spelled member
      rcases List.mem_cons.mp member with rfl | member
      · exact ⟨kind, known, permitted, fresh, value⟩
      · obtain ⟨other, otherKnown, otherPermitted, otherFresh, otherValue⟩ :=
          later.each spelled member
        refine ⟨other, otherKnown, otherPermitted, ?_, otherValue⟩
        intro old
        exact otherFresh (by rw [seen]; exact List.mem_cons_of_mem _ old)
    · rw [List.map_cons, List.nodup_cons]
      refine ⟨?_, later.distinct⟩
      intro again
      obtain ⟨spelled, member, same⟩ := List.mem_map.mp again
      obtain ⟨other, otherKnown, _, otherFresh, _⟩ := later.each spelled member
      rw [known, otherKnown, Option.some.injEq] at same
      exact otherFresh (by rw [seen, same]; exact List.mem_cons_self)

theorem kindOf_eq_some {key : Bytes} : kindOf key = some kind ↔ key.map lower = kind.name := by
  constructor
  · intro known
    rw [kindOf] at known
    have found := List.find?_some known
    exact eq_of_beq found
  · intro named
    rw [kindOf, named]
    cases kind <;> decide

structure Chosen (provider : Provider) (params : List Param) : Prop where
  each : ∀ param ∈ params, ∃ kind, kindOf param.key = some kind ∧ kind.selects = true ∧
    provider.permits kind = true ∧ checkValue provider kind param.value = .ok () ∧
    0x26 ∉ param.value
  distinct : (params.map fun param => kindOf param.key).Nodup
  few : params.length ≤ 128
  complete : ∀ kind param, provider.default = some (kind, param) →
    some kind ∈ params.map fun param => kindOf param.key

theorem Chosen.keys {provider : Provider} (chosen : Chosen provider params) :
    (params.map fun param => param.key.map lower).Nodup := by
  apply List.Nodup.of_map fun name => [ParamKind.endpoint, .region, .maxResults, .api].find?
    fun kind => name == kind.name
  rw [List.map_map]
  exact chosen.distinct

theorem default_valid {provider : Provider} (filled : provider.default = some (kind, param)) :
    kindOf param.key = some kind ∧ kind.selects = true ∧ provider.permits kind = true ∧
      checkValue provider kind param.value = .ok () ∧ 0x26 ∉ param.value ∧
      normalParam param = param := by
  cases provider <;> simp only [Provider.default, Option.some.injEq, Prod.mk.injEq, reduceCtorEq] at filled
  all_goals
    obtain ⟨rfl, rfl⟩ := filled
    decide +kernel

theorem not_mem_value (plain : 0x26 ∉ text) : 0x26 ∉ (rawParam text).value := by
  intro inside
  apply plain
  exact (List.dropWhile_suffix _).subset (List.mem_of_mem_tail inside)

theorem Scanned.chosen {provider : Provider} {texts : List Bytes}
    (scanned : Scanned provider texts ⟨[], []⟩ scan) (plain : ∀ text ∈ texts, 0x26 ∉ text) :
    (∀ param ∈ scan.kept, ∃ kind, kindOf param.key = some kind ∧ kind.selects = true ∧
      provider.permits kind = true ∧ checkValue provider kind param.value = .ok () ∧
      0x26 ∉ param.value) ∧
    (scan.kept.map fun param => kindOf param.key).Nodup := by
  have kept := scanned.kept
  rw [List.nil_append] at kept
  rw [kept]
  constructor
  · intro param member
    rw [List.mem_filter, List.mem_map] at member
    obtain ⟨⟨text, member, rfl⟩, selecting⟩ := member
    obtain ⟨kind, known, permitted, _, value⟩ := scanned.each text member
    rw [Param.selects, known, Option.any_some] at selecting
    exact ⟨kind, known, selecting, permitted, value, not_mem_value (plain text member)⟩
  · have distinct : ((texts.map rawParam).map fun param => kindOf param.key).Nodup := by
      rw [List.map_map]
      exact scanned.distinct
    exact distinct.sublist (List.Sublist.map _ List.filter_sublist)

theorem addDefault_chosen {provider : Provider} (named : providerOf storage = some provider)
    (scanned : Scanned provider (paramTexts storage) ⟨[], []⟩ scan)
    (plain : ∀ text ∈ paramTexts storage, 0x26 ∉ text) (filled : addDefault provider scan = .ok params) :
    Chosen provider params ∧ params.map normalParam = spelling storage := by
  obtain ⟨each, distinct⟩ := scanned.chosen plain
  have few : scan.kept.length ≤ 128 := scanned.few (by simp)
  have kept : scan.kept = ((paramTexts storage).map rawParam).filter Param.selects := by
    rw [scanned.kept, List.nil_append]
  have seen : ∀ kind, kind ∈ scan.seen ↔
      some kind ∈ ((paramTexts storage).map rawParam).map fun param => kindOf param.key := by
    intro kind
    rw [scanned.seen, List.map_map]
    simp
  rw [addDefault] at filled
  split at filled
  · rename_i none
    cases filled
    rw [spelling, named, Option.bind_some, none]
    refine ⟨⟨each, distinct, few, ?_⟩, by rw [kept]⟩
    intro kind param given
    rw [none] at given
    cases given
  · rename_i kind param default
    obtain ⟨known, selecting, permitted, value, clean, normal⟩ := default_valid default
    rw [spelling, named, Option.bind_some, default]
    split at filled
    · rename_i spelled
      cases filled
      rw [seen] at spelled
      refine ⟨⟨each, distinct, few, ?_⟩, ?_⟩
      · intro other given same
        rw [default, Option.some.injEq, Prod.mk.injEq] at same
        obtain ⟨rfl, rfl⟩ := same
        rw [kept]
        obtain ⟨raw, member, kindIs⟩ := List.mem_map.mp spelled
        refine List.mem_map.mpr ⟨raw, List.mem_filter.mpr ⟨member, ?_⟩, kindIs⟩
        rw [Param.selects, kindIs, Option.any_some, selecting]
      · rw [kept]
        exact (if_pos spelled).symm
    · rename_i missing
      simp only [paramAdd, check_bind_eq_ok, Except.ok.injEq] at filled
      obtain ⟨room, rfl⟩ := filled
      have absent : some kind ∉ scan.kept.map fun param => kindOf param.key := by
        intro present
        obtain ⟨raw, member, kindIs⟩ := List.mem_map.mp present
        rw [kept] at member
        exact missing ((seen kind).mpr (List.mem_map.mpr ⟨raw, List.mem_of_mem_filter member, kindIs⟩))
      refine ⟨⟨?_, ?_, ?_, ?_⟩, ?_⟩
      · intro other member
        rcases List.mem_append.mp member with member | member
        · exact each other member
        · rw [List.mem_singleton.mp member]
          exact ⟨kind, known, selecting, permitted, value, clean⟩
      · rw [List.map_append, List.map_singleton, known, ← List.concat_eq_append, List.nodup_concat]
        exact ⟨absent, distinct⟩
      · rw [List.length_append, List.length_singleton]
        exact room
      · intro other given same
        rw [default, Option.some.injEq, Prod.mk.injEq] at same
        obtain ⟨rfl, rfl⟩ := same
        rw [List.map_append, List.map_singleton, known]
        exact List.mem_append_right _ List.mem_cons_self
      · rw [seen] at missing
        rw [List.map_append, List.map_singleton, normal, kept]
        exact (if_neg missing).symm

theorem not_mem_paramTexts (storage : Bytes) : ∀ text ∈ paramTexts storage, 0x26 ∉ text := by
  intro text member
  rw [paramTexts] at member
  cases query : queryOf storage with
  | none =>
    rw [query] at member
    cases member
  | some query' =>
    rw [query] at member
    exact not_mem_of_mem_splitOn member

theorem canonicalStorage_eq_ok (accepted : canonicalStorage storage = .ok canonical) :
    ∃ provider params, providerOf storage = some provider ∧ Chosen provider params ∧
      params.map normalParam = spelling storage ∧
      canonical = (moduleOf storage).map lower ++
        (if params ≠ [] ∨ (queryOf storage).isSome then [0x3f] else []) ++
        [0x26].intercalate ((params.insertionSort paramLe).map writeParam) := by
  rw [canonicalStorage, check_bind_eq_ok] at accepted
  replace accepted := accepted.2
  split at accepted
  · cases accepted
  · rename_i provider named
    obtain ⟨scan, scanned, accepted⟩ := bind_eq_ok.mp accepted
    obtain ⟨params, filled, accepted⟩ := bind_eq_ok.mp accepted
    rw [check_bind_eq_ok, Except.ok.injEq] at accepted
    obtain ⟨chosen, spelled⟩ :=
      addDefault_chosen named (scan_run scanned) (not_mem_paramTexts storage) filled
    exact ⟨provider, params, named, chosen, spelled, accepted.2.symm⟩

theorem paramLe_key {first second : Param} (le : paramLe first second) :
    first.key.map lower ≤ second.key.map lower := by
  rw [paramLe] at le
  split at le
  · rename_i same
    rw [same]
    exact List.le_refl _
  · exact le

theorem paramLe_of_ne {first second : Param} (differ : first.key.map lower ≠ second.key.map lower) :
    paramLe first second ↔ first.key.map lower ≤ second.key.map lower := by
  rw [paramLe, if_neg differ]

theorem paramLe_of_eq {first second : Param} (same : first.key.map lower = second.key.map lower) :
    paramLe first second ↔ first.key ++ 0x3d :: first.value ≤ second.key ++ 0x3d :: second.value := by
  rw [paramLe, if_pos same]

instance : Std.Total paramLe where
  total first second := by
    by_cases same : first.key.map lower = second.key.map lower
    · rw [paramLe_of_eq same, paramLe_of_eq same.symm]
      exact List.le_total _ _
    · rw [paramLe_of_ne same, paramLe_of_ne (Ne.symm same)]
      exact List.le_total _ _

instance : IsTrans Param paramLe where
  trans first second third one two := by
    have keys := List.le_trans (paramLe_key one) (paramLe_key two)
    by_cases same : first.key.map lower = third.key.map lower
    · -- Equal ends squeeze the key in the middle, so all three compare by the whole text.
      have middle : first.key.map lower = second.key.map lower :=
        List.le_antisymm (paramLe_key one) (by rw [same]; exact paramLe_key two)
      rw [paramLe_of_eq middle] at one
      rw [paramLe_of_eq (middle.symm.trans same)] at two
      rw [paramLe_of_eq same]
      exact List.le_trans one two
    · rw [paramLe_of_ne same]
      exact keys

theorem lower_lower (char : UInt8) : lower (lower char) = lower char := by
  have every : ∀ char : Fin 256, lower (lower (UInt8.ofFin char)) = lower (UInt8.ofFin char) := by
    decide +kernel
  exact every char.toFin

theorem map_lower_lower (text : Bytes) : (text.map lower).map lower = text.map lower := by
  rw [List.map_map]
  apply List.map_congr_left
  intro char _
  exact lower_lower char

theorem kindOf_lower (key : Bytes) : kindOf (key.map lower) = kindOf key := by
  rw [kindOf, map_lower_lower, kindOf]

theorem normalParam_key (param : Param) : (normalParam param).key = param.key.map lower := rfl

theorem normalParam_normalParam (param : Param) :
    normalParam (normalParam param) = normalParam param := by
  simp only [normalParam, map_lower_lower, kindOf_lower, Param.mk.injEq, true_and]
  split
  · exact List.rdropWhile_idempotent _ _
  · rfl

theorem render_normal (normal : params.map normalParam = params) :
    params.map writeParam = params.map render := by
  calc params.map writeParam
      = (params.map normalParam).map render := by
        rw [List.map_map]
        rfl
    _ = params.map render := by rw [normal]

theorem Chosen.normal {provider : Provider} (chosen : Chosen provider params) :
    Chosen provider (params.map normalParam) := by
  have kinds : ((params.map normalParam).map fun param => kindOf param.key) =
      params.map fun param => kindOf param.key := by
    rw [List.map_map]
    apply List.map_congr_left
    intro param _
    exact kindOf_lower param.key
  refine ⟨?_, ?_, ?_, ?_⟩
  · intro written member
    obtain ⟨param, spelled, rfl⟩ := List.mem_map.mp member
    obtain ⟨kind, known, selecting, permitted, value, clean⟩ := chosen.each param spelled
    refine ⟨kind, ?_, selecting, permitted, ?_⟩
    · rw [normalParam_key, kindOf_lower, known]
    · simp only [normalParam, known, Option.some.injEq]
      split
      · rename_i endpoint
        subst endpoint
        simp only [checkValue, unit_bind_eq_ok, check_eq_ok] at value ⊢
        obtain ⟨accepted, same⟩ := endpointCanonical_trimSlashes value.1
        refine ⟨⟨accepted, ?_⟩, ?_⟩
        · rw [same]
          exact value.2
        · intro inside
          exact clean ((List.rdropWhile_prefix _ _).subset inside)
      · exact ⟨value, clean⟩
  · rw [kinds]
    exact chosen.distinct
  · rw [List.length_map]
    exact chosen.few
  · rw [kinds]
    exact chosen.complete

theorem Chosen.perm {provider : Provider} {others : List Param} (chosen : Chosen provider params)
    (perm : others.Perm params) : Chosen provider others where
  each param member := chosen.each param (perm.mem_iff.mp member)
  distinct := ((perm.map fun param => kindOf param.key).nodup_iff).mpr chosen.distinct
  few := by
    rw [perm.length_eq]
    exact chosen.few
  complete kind param default :=
    ((perm.map fun param => kindOf param.key).mem_iff).mpr (chosen.complete kind param default)

theorem parseParam_render (named : param.key = kind.name) :
    parseParam (render param) = .ok param := by
  have clean : 0x3d ∉ kind.name := by cases kind <;> decide
  have key : kind.name ≠ [] := by cases kind <;> decide
  rw [parseParam, render, named, check_bind_eq_ok]
  refine ⟨by simp, ?_⟩
  rw [takeWhile_ne_append clean, dropWhile_ne_append clean, check_bind_eq_ok, List.tail_cons, ← named]
  exact ⟨⟨by rw [named]; exact key, by simp⟩, rfl⟩

theorem normal_key (normal : normalParam param = param) (known : kindOf param.key = some kind) :
    param.key = kind.name := by
  calc param.key = param.key.map lower := by rw [← normalParam_key, normal]
    _ = kind.name := kindOf_eq_some.mp known

def Passes (provider : Provider) (param : Param) : Prop :=
  ∃ kind, param.key = kind.name ∧ provider.permits kind = true ∧ checkValue provider kind param.value = .ok ()

theorem kindOf_name (kind : ParamKind) : kindOf kind.name = some kind := by
  cases kind <;> decide

theorem scanParam_render {provider : Provider} (passes : Passes provider param)
    (fresh : ∀ kind ∈ scan.seen, kindOf param.key ≠ some kind) (room : scan.kept.length < 128) :
    ∃ next, scanParam provider scan (render param) = .ok next := by
  obtain ⟨kind, named, permitted, value⟩ := passes
  have known : kindOf param.key = some kind := by rw [named, kindOf_name]
  have unseen : kind ∉ scan.seen := fun old => fresh kind old known
  rw [scanParam, parseParam_render named]
  simp only [bind, Except.bind, known, check, permitted, unseen, value, paramAdd, not_false_eq_true,
    if_true, if_pos room]
  split <;> exact ⟨_, rfl⟩

theorem scan_render {provider : Provider} (each : ∀ param ∈ params, Passes provider param)
    (distinct : (params.map fun param => kindOf param.key).Nodup)
    (fresh : ∀ kind ∈ scan.seen, some kind ∉ params.map fun param => kindOf param.key)
    (room : scan.kept.length + params.length ≤ 128) :
    ∃ after, (params.map render).foldlM (scanParam provider) scan = .ok after := by
  induction params generalizing scan with
  | nil => exact ⟨scan, rfl⟩
  | cons param params ih =>
    rw [List.map_cons, List.nodup_cons] at distinct
    rw [List.length_cons] at room
    have first := each param List.mem_cons_self
    obtain ⟨next, step⟩ := scanParam_render first
      (fun kind old same => fresh kind old (by rw [List.map_cons, same]; exact List.mem_cons_self))
      (by omega : scan.kept.length < 128)
    obtain ⟨kind, known, _, _, _, seen, kept, _⟩ := scanParam_eq_ok step
    obtain ⟨_, named, _⟩ := first
    have raw : rawParam (render param) = param := parseParam_eq_ok (parseParam_render named) |>.symm
    rw [raw] at known
    have later : ∃ after, (params.map render).foldlM (scanParam provider) next = .ok after := by
      apply ih
      · exact fun other member => each other (List.mem_cons_of_mem _ member)
      · exact distinct.2
      · intro other member
        rw [seen] at member
        rcases List.mem_cons.mp member with rfl | member
        · rw [← known]
          exact distinct.1
        · exact fun again => fresh other member (List.mem_cons_of_mem _ again)
      · rw [kept, List.length_append]
        split <;> simp <;> omega
    obtain ⟨after, run⟩ := later
    exact ⟨after, by rw [List.map_cons, List.foldlM_cons, step]; exact run⟩

def writeSelector (provider : Provider) (params : List Param) : Bytes :=
  provider.name ++ 0x3f :: [0x26].intercalate (params.map render)

theorem not_mem_render {provider : Provider} (chosen : Chosen provider params)
    (normal : ∀ param ∈ params, normalParam param = param) :
    ∀ text ∈ params.map render, 0x26 ∉ text := by
  intro text member
  obtain ⟨param, written, rfl⟩ := List.mem_map.mp member
  obtain ⟨kind, known, _, _, _, clean⟩ := chosen.each param written
  rw [render, normal_key (normal param written) known, List.mem_append, List.mem_cons]
  have name : 0x26 ∉ kind.name := by cases kind <;> decide
  rintro (inside | inside | inside)
  · exact name inside
  · revert inside
    decide
  · exact clean inside

theorem moduleOf_writeSelector (provider : Provider) (params : List Param) :
    moduleOf (writeSelector provider params) = provider.name :=
  takeWhile_ne_append (by cases provider <;> decide) _

theorem queryOf_writeSelector (provider : Provider) (params : List Param) :
    queryOf (writeSelector provider params) = some ([0x26].intercalate (params.map render)) := by
  rw [queryOf, writeSelector, dropWhile_ne_append (by cases provider <;> decide), List.tail?_cons]

theorem providerOf_eq_some {provider : Provider} :
    providerOf storage = some provider ↔ (moduleOf storage).map lower = provider.name := by
  constructor
  · intro named
    rw [providerOf] at named
    have found := List.find?_some named
    exact eq_of_beq found
  · intro named
    rw [providerOf, named]
    cases provider <;> decide

theorem lower_name (provider : Provider) : provider.name.map lower = provider.name := by
  cases provider <;> decide

/-- What is written is accepted unless it is too long, and is its own canonical spelling. -/
theorem canonicalStorage_writeSelector {provider : Provider} (chosen : Chosen provider params)
    (normal : ∀ param ∈ params, normalParam param = param) (ordered : params.Pairwise paramLe)
    (nonempty : params ≠ []) :
    canonicalStorage (writeSelector provider params) = .ok (writeSelector provider params) ↔
      (writeSelector provider params).length ≤ maxFieldBytes := by
  have named : providerOf (writeSelector provider params) = some provider := by
    rw [providerOf_eq_some, moduleOf_writeSelector, lower_name]
  have pieces : ([0x26].intercalate (params.map render)).splitOn 0x26 = params.map render := by
    apply List.splitOn_intercalate
    · exact not_mem_render chosen normal
    · simpa using nonempty
  have raw : (params.map render).map rawParam = params := by
    rw [List.map_map]
    refine (List.map_congr_left fun param member => ?_).trans (List.map_id params)
    obtain ⟨kind, known, _⟩ := chosen.each param member
    exact (parseParam_eq_ok (parseParam_render (normal_key (normal param member) known))).symm
  have passes : ∀ param ∈ params, Passes provider param := by
    intro param member
    obtain ⟨kind, known, _, permitted, value, _⟩ := chosen.each param member
    exact ⟨kind, normal_key (normal param member) known, permitted, value⟩
  obtain ⟨after, run⟩ := @scan_render ⟨[], []⟩ params provider passes chosen.distinct
    (by simp) (by simpa using chosen.few)
  have scanned := scan_run run
  have kept : after.kept = params := by
    rw [scanned.kept, raw, List.nil_append, List.filter_eq_self]
    intro param member
    obtain ⟨kind, known, selecting, _⟩ := chosen.each param member
    rw [Param.selects, known]
    exact selecting
  have filled : addDefault provider after = .ok params := by
    rw [addDefault]
    split
    · rw [kept]
    · rename_i kind param default
      have all := (scanned.seen kind).mpr (.inr (by
        have complete := chosen.complete kind param default
        rw [← raw, List.map_map] at complete
        exact complete))
      rw [if_pos all, kept]
  have same : params.map normalParam = params := by
    calc params.map normalParam = params.map id := List.map_congr_left normal
      _ = params := List.map_id params
  rw [canonicalStorage, check_bind_eq_ok]
  simp only [named, queryOf_writeSelector, Option.elim_some, pieces, run, filled, bind, Except.bind]
  constructor
  · intro accepted
    exact accepted.1.2
  · intro short
    refine ⟨⟨by simp [writeSelector], short⟩, ?_⟩
    rw [ordered.insertionSort_eq, check, if_pos chosen.keys]
    simp only [Option.isSome_some, or_true, if_true, moduleOf_writeSelector, lower_name,
      render_normal same]
    rw [writeSelector, List.append_assoc, List.singleton_append]

structure Canonical (storage : Bytes) (provider : Provider) (params : List Param) : Prop where
  named : providerOf storage = some provider
  chosen : Chosen provider params
  normal : ∀ param ∈ params, normalParam param = param
  ordered : params.Pairwise paramLe
  spelled : params.Perm (spelling storage)

theorem canonical_parts (accepted : canonicalStorage storage = .ok canonical) :
    ∃ provider params, Canonical storage provider params ∧
      canonical = if params ≠ [] ∨ (queryOf storage).isSome then writeSelector provider params
        else provider.name := by
  obtain ⟨provider, params, named, chosen, spelled, rfl⟩ := canonicalStorage_eq_ok accepted
  have perm := List.perm_insertionSort paramLe params
  have sorted := (chosen.perm perm)
  refine ⟨provider, (params.insertionSort paramLe).map normalParam, ⟨named, sorted.normal, ?_, ?_, ?_⟩, ?_⟩
  · intro param member
    obtain ⟨raw, _, rfl⟩ := List.mem_map.mp member
    exact normalParam_normalParam raw
  · rw [List.pairwise_map]
    have keys := List.pairwise_map.mp sorted.keys
    apply ((List.pairwise_insertionSort paramLe params).and keys).imp
    intro first second both
    rw [paramLe_of_ne]
    · simp only [normalParam_key, map_lower_lower]
      exact paramLe_key both.1
    · simp only [normalParam_key, map_lower_lower]
      exact both.2
  · rw [← spelled]
    exact perm.map normalParam
  · have empty : (params.insertionSort paramLe).map normalParam ≠ [] ↔ params ≠ [] := by
      rw [← List.length_pos_iff, ← List.length_pos_iff, List.length_map, List.length_insertionSort]
    have written : (params.insertionSort paramLe).map writeParam =
        ((params.insertionSort paramLe).map normalParam).map render := by
      rw [List.map_map]
      rfl
    rw [providerOf_eq_some.mp named]
    by_cases present : params ≠ [] ∨ (queryOf storage).isSome
    · rw [if_pos present, if_pos (by rwa [empty]), written, writeSelector, List.append_assoc,
        List.singleton_append]
    · have vacant : params = [] := by
        by_contra some
        exact present (.inl some)
      rw [if_neg present, if_neg (by rwa [empty]), vacant]
      simp [List.intercalate]

theorem Canonical.unique {provider : Provider} {others : List Param} (one : Canonical first provider params)
    (two : Canonical second provider others) (perm : params.Perm others) : params = others := by
  refine perm.eq_of_pairwise ?_ one.ordered two.ordered
  intro param other member otherMember le ge
  have keys := one.chosen.keys
  have same := List.le_antisymm (paramLe_key le) (paramLe_key ge)
  exact List.inj_on_of_nodup_map keys member (perm.mem_iff.mpr otherMember) same

theorem Canonical.azure (parts : Canonical storage .azure params) : params = [] := by
  apply List.eq_nil_iff_forall_not_mem.mpr
  intro param member
  obtain ⟨kind, _, selecting, permitted, _⟩ := parts.chosen.each param member
  cases kind <;> simp_all [ParamKind.selects, Provider.permits]

theorem Canonical.nonempty {provider : Provider} (parts : Canonical storage provider params)
    (other : provider ≠ .azure) : params ≠ [] := by
  intro empty
  have complete := parts.chosen.complete
  rw [empty] at complete
  cases provider
  · exact absurd (complete _ _ rfl) (by simp)
  · exact absurd (complete _ _ rfl) (by simp)
  · exact other rfl

theorem length_intercalate (texts : List Bytes) (nonempty : texts ≠ []) :
    ([0x26].intercalate texts).length + 1 = (texts.flatMap fun text => 0x26 :: text).length := by
  induction texts with
  | nil => exact absurd rfl nonempty
  | cons text texts ih =>
    cases texts with
    | nil => simp [List.intercalate]
    | cons next texts =>
      have later := ih (by simp)
      simp only [List.intercalate, List.intersperse_cons_cons, List.flatten_cons,
        List.flatMap_cons, List.length_append, List.length_cons, List.length_nil] at later ⊢
      omega

theorem Canonical.length {provider : Provider} (parts : Canonical storage provider params)
    (nonempty : params ≠ []) :
    (writeSelector provider params).length = (moduleOf storage).length +
      ((spelling storage).flatMap fun param => 0x26 :: render param).length := by
  have name : (moduleOf storage).length = provider.name.length := by
    rw [← providerOf_eq_some.mp parts.named, List.length_map]
  have texts := length_intercalate (params.map render) (by simpa using nonempty)
  have perm := (parts.spelled.flatMap_right fun param => 0x26 :: render param).length_eq
  rw [List.flatMap_map, perm] at texts
  rw [writeSelector, List.length_append, List.length_cons, texts, name]

/-- The canonical spelling of an accepted selector is accepted and unchanged exactly if the selector
can be spelled out. -/
theorem canonicalStorage_again (accepted : canonicalStorage storage = .ok canonical) :
    canonicalStorage canonical = .ok canonical ↔ Spellable storage := by
  obtain ⟨provider, params, parts, rfl⟩ := canonical_parts accepted
  by_cases azure : provider = .azure
  · subst azure
    have empty := parts.azure
    have unspelled : spelling storage = [] := by
      have perm := parts.spelled
      rw [empty] at perm
      exact perm.symm.eq_nil
    have short : (moduleOf storage).length = Provider.azure.name.length := by
      rw [← providerOf_eq_some.mp parts.named, List.length_map]
    rw [Spellable, unspelled, short, empty]
    cases query : queryOf storage with
    | none =>
      refine iff_of_true ?_ ⟨fun _ => rfl, by decide⟩
      decide +kernel
    | some text =>
      refine iff_of_false ?_ ?_
      · simp only [ne_eq, not_true_eq_false, Option.isSome_some, or_true, if_true]
        decide +kernel
      · intro spellable
        cases spellable.1 parts.named
  · have nonempty := parts.nonempty azure
    rw [if_pos (.inl nonempty),
      canonicalStorage_writeSelector parts.chosen parts.normal parts.ordered nonempty,
      parts.length nonempty, Spellable, parts.named, Option.some.injEq]
    simp [azure]

theorem canonicalStorage_accepts {provider : Provider} (named : providerOf storage = some provider)
    (short : storage.length ≤ maxFieldBytes)
    (run : (paramTexts storage).foldlM (scanParam provider) ⟨[], []⟩ = .ok scan)
    (few : (paramTexts storage).length < 128) : ∃ canonical, canonicalStorage storage = .ok canonical := by
  have scanned := scan_run run
  have room : scan.kept.length < 128 := by
    rw [scanned.kept, List.nil_append]
    exact (List.length_filter_le _ _).trans_lt (by rwa [List.length_map])
  have filled : ∃ params, addDefault provider scan = .ok params := by
    rw [addDefault]
    split
    · exact ⟨_, rfl⟩
    · split
      · exact ⟨_, rfl⟩
      · rw [paramAdd, check, if_pos room]
        exact ⟨_, rfl⟩
  obtain ⟨params, filled⟩ := filled
  have chosen := (addDefault_chosen named scanned (not_mem_paramTexts storage) filled).1
  have keys := (chosen.perm (List.perm_insertionSort paramLe params)).keys
  have present : storage ≠ [] := by
    rintro rfl
    cases provider <;> exact absurd named (by decide)
  rw [paramTexts] at run
  rw [canonicalStorage, named]
  simp only [bind, Except.bind, check, if_pos (And.intro present short), run, filled, if_pos keys]
  exact ⟨_, rfl⟩

theorem SpelledAlike.provider (alike : SpelledAlike first second) :
    providerOf first = providerOf second := by
  rw [providerOf, alike.1, providerOf]

theorem canonical_eq {provider : Provider} (parts : Canonical storage provider params)
    (spellable : Spellable storage) :
    (if params ≠ [] ∨ (queryOf storage).isSome then writeSelector provider params
      else provider.name) =
      if provider = .azure then provider.name else writeSelector provider params := by
  by_cases azure : provider = .azure
  · subst azure
    rw [parts.azure, spellable.1 parts.named]
    rfl
  · rw [if_pos (.inl (parts.nonempty azure)), if_neg azure]

theorem canonicalStorage_congr {other : Bytes} (one : canonicalStorage first = .ok text)
    (two : canonicalStorage second = .ok other) (alike : SpelledAlike first second)
    (firstSpellable : Spellable first) (secondSpellable : Spellable second) : text = other := by
  obtain ⟨provider, params, parts, rfl⟩ := canonical_parts one
  obtain ⟨provider', others, parts', rfl⟩ := canonical_parts two
  have same : provider = provider' := by
    have named := parts.named
    rw [alike.provider, parts'.named, Option.some.injEq] at named
    exact named.symm
  subst same
  have perm : params.Perm others := parts.spelled.trans (alike.2.trans parts'.spelled.symm)
  rw [canonical_eq parts firstSpellable, canonical_eq parts' secondSpellable,
    parts.unique parts' perm]

theorem identity_congr (arguments : ScopeArguments) (alike : SpelledAlike first second)
    (same : canonicalStorage first = canonicalStorage second) :
    ({ arguments with storage := first } : ScopeArguments).identity =
      ({ arguments with storage := second } : ScopeArguments).identity := by
  simp only [ScopeArguments.identity, stableAccount, canonicalContainer, alike.provider, same]

/-- Two accepted selectors of one location have the same canonical spelling and hash alike, and both
canonical spellings are accepted and unchanged, exactly if both selectors can be spelled out. -/
theorem canonicalStorage_respects_spelling {Digest : Type} (sha256 : Bytes → Digest)
    (arguments : ScopeArguments) {first second text other : Bytes}
    (one : canonicalStorage first = .ok text) (two : canonicalStorage second = .ok other)
    (alike : SpelledAlike first second) :
    (text = other ∧
      scopeHash sha256 { arguments with storage := first } =
        scopeHash sha256 { arguments with storage := second } ∧
      storageScopeHash sha256 { arguments with storage := first } =
        storageScopeHash sha256 { arguments with storage := second } ∧
      canonicalStorage text = .ok text ∧ canonicalStorage other = .ok other) ↔
      Spellable first ∧ Spellable second := by
  rw [canonicalStorage_again one, canonicalStorage_again two]
  constructor
  · intro all
    exact all.2.2.2
  · intro spellable
    have same := canonicalStorage_congr one two alike spellable.1 spellable.2
    have identity := identity_congr arguments alike (by rw [one, two, same])
    refine ⟨same, scopeHash_congr identity, ?_, spellable⟩
    rw [storageScopeHash, identity]
    rfl

def sampleSelector (query : Bytes) : Bytes := ascii "Azure" ++ query

def pagedSelector : Bytes := ascii "S3?region=eu-1&maxresults=7&endpoint=https://h/"

def turnedSelector : Bytes := ascii "s3?endpoint=https://h&region=eu-1"

/-- Two spellings of one location: in other letters and another order, with a slash at the end of the
endpoint and a page size. -/
theorem canonicalStorage_respects_spelling_turned :
    canonicalStorage pagedSelector = canonicalStorage turnedSelector ∧
      scopeHash id { sampleScope "x" with storage := pagedSelector } =
        scopeHash id { sampleScope "x" with storage := turnedSelector } := by
  have one : canonicalStorage pagedSelector = .ok turnedSelector := by decide +kernel
  have two : canonicalStorage turnedSelector = .ok turnedSelector := by decide +kernel
  have spellable : Spellable pagedSelector ∧ Spellable turnedSelector := by
    refine ⟨⟨fun azure => absurd azure ?_, ?_⟩, fun azure => absurd azure ?_, ?_⟩ <;> decide +kernel
  have alike : SpelledAlike pagedSelector turnedSelector := ⟨by decide +kernel, by decide +kernel⟩
  have all := (canonicalStorage_respects_spelling id (sampleScope "x") one two alike).mpr spellable
  exact ⟨one.trans two.symm, all.2.1⟩

/-- The size of a result page is left out of the canonical spelling, but not the question mark
before it, and what remains is rejected. -/
theorem canonicalStorage_keeps_mark :
    let paged := sampleSelector (ascii "?maxresults=5")
    SpelledAlike paged (sampleSelector []) ∧
      canonicalStorage paged = .ok (Provider.azure.name ++ [0x3f]) ∧
      canonicalStorage (sampleSelector []) = .ok Provider.azure.name ∧
      canonicalStorage (Provider.azure.name ++ [0x3f]) =
        .error (misuse "empty storage parameter") := by
  refine ⟨⟨?_, ?_⟩, ?_, ?_, ?_⟩ <;> decide +kernel

end RusqDoltlite.Codec

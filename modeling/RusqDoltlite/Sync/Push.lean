import RusqDoltlite.Search.Worklist

/-! The two ends of a transfer of chunks, and pushing chunks: `syncChunks` puts while it walks, and
`doltliteSyncChunksWithPushProgress` walks first, reports its plan and puts then. -/

namespace RusqDoltlite.Sync

open Search

abbrev Bytes := List UInt8

inductive Code where
  | nomem | notFound | corrupt | tooBig | misuse
  | other (code : Int)
deriving DecidableEq, Repr

variable {Hash : Type} [DecidableEq Hash]

/-- What is known of chunks: `prollyHashCompute`, `prollyHashIsEmpty`, and the children that
`doltliteEnumerateChunkChildren` hands on before it ends with a result code. -/
structure ChunkFormat (Hash : Type) where
  hashOf : Bytes → Hash
  isEmpty : Hash → Bool
  children : Bytes → List Hash × Option Code

structure Source (Hash : Type) where
  chunks : Hash → Option Bytes
  short : ∀ hash data, chunks hash = some data → data.length ≤ 0x7fffffff

/-- The other end: the chunks it had before, the refs it had published, and how it takes a further put. -/
structure Destination (Hash : Type) where
  chunks : Hash → Option Bytes
  published : Hash → Bool
  bResumePartialPuts : Bool
  xPutChunk : List (Hash × Bytes) → Hash → Bytes → Option Code

def Destination.stored (dst : Destination Hash) (puts : List (Hash × Bytes)) (hash : Hash) : Option Bytes :=
  match puts.find? fun put => put.1 = hash with
  | some put => some put.2
  | none => dst.chunks hash

def Destination.xHasChunks (dst : Destination Hash) (puts : List (Hash × Bytes)) (batch : List Hash) : List Bool :=
  batch.map fun hash => (dst.stored puts hash).isSome

section
variable {puts : List (Hash × Bytes)} {hash : Hash}

theorem find_of_fresh (fresh : hash ∉ puts.map Prod.fst) :
    (puts.find? fun put => put.1 = hash) = none := by
  rw [List.find?_eq_none]
  intro put member same
  exact fresh (List.mem_map.mpr ⟨put, member, of_decide_eq_true same⟩)

theorem stored_of_fresh (dst : Destination Hash) (fresh : hash ∉ puts.map Prod.fst) :
    dst.stored puts hash = dst.chunks hash := by
  rw [Destination.stored, find_of_fresh fresh]

theorem stored_append_other (dst : Destination Hash) (puts : List (Hash × Bytes)) {other : Hash} (data : Bytes)
    (apart : hash ≠ other) : dst.stored (puts ++ [(hash, data)]) other = dst.stored puts other := by
  have missing : ([(hash, data)].find? fun put => put.1 = other) = none := by
    simp [apart]
  rw [Destination.stored, Destination.stored, List.find?_append, missing, Option.or_none]

theorem stored_append_same (dst : Destination Hash) (data : Bytes) (fresh : hash ∉ puts.map Prod.fst) :
    dst.stored (puts ++ [(hash, data)]) hash = some data := by
  simp [Destination.stored, List.find?_append, find_of_fresh fresh]

theorem xHasChunks_of_fresh (dst : Destination Hash) {batch : List Hash}
    (fresh : ∀ hash ∈ batch, hash ∉ puts.map Prod.fst) : dst.xHasChunks puts batch = dst.xHasChunks [] batch := by
  apply List.map_congr_left
  intro hash member
  rw [stored_of_fresh dst (fresh hash member)]
  rfl

def fetch (format : ChunkFormat Hash) (chunks : Hash → Option Bytes) (hash : Hash) : Except Code Bytes :=
  match chunks hash with
  | none => .error .notFound
  | some data => if format.hashOf data = hash then .ok data else .error .corrupt

theorem fetch_eq_ok {format : ChunkFormat Hash} {chunks : Hash → Option Bytes} {data : Bytes} :
    fetch format chunks hash = .ok data ↔ chunks hash = some data ∧ format.hashOf data = hash := by
  rw [fetch]
  cases chunks hash with
  | none => simp
  | some found =>
    simp only [Option.some.injEq]
    split
    · next same =>
        constructor
        · intro done
          cases done
          exact ⟨rfl, same⟩
        · intro both
          rw [both.1]
    · next other =>
        constructor
        · intro failed
          cases failed
        · intro both
          rw [both.1] at other
          exact absurd both.2 other

def named {σ : Type} (format : ChunkFormat Hash) (state : σ) (data : Bytes) : Visited Hash (Option Code) σ :=
  ⟨state, (format.children data).1, (format.children data).2⟩

def enumerated {σ : Type} (state : σ) : Option Code → Except Code σ
  | some code => .error code
  | none => .ok state

/-- How `prollyHashSetAdd` and the queue bound a transfer: the set grows up to 67108864 slots, and no
more than half of them are used. -/
def syncBounds : Bounds Code where
  capacity := 33554432
  batch := 4096
  full := .nomem

theorem syncBounds_batch : 0 < syncBounds.batch := by decide

end

variable {Hash : Type} [DecidableEq Hash]

/-- The flags of a push: whether the first batch is to come, whether present chunks are scanned too,
and the destination's `bForceResumeScan`. -/
structure Flags where
  bFirstBatch : Bool := true
  bResumeScan : Bool := false
  bForceResumeScan : Bool
deriving DecidableEq, Repr

structure Decision where
  present : Bool
  resume : Bool
deriving DecidableEq, Repr

/-- The first batch decides on a resumed scan: when it is forced, or when all of it is present and a part
was never published. -/
def Flags.survey (flags : Flags) (dst : Destination Hash) (aPresent : List Bool) (batch : List Hash) : Flags :=
  if flags.bFirstBatch = true ∧ flags.bForceResumeScan = true then
    { bFirstBatch := false, bResumeScan := true, bForceResumeScan := false }
  else if flags.bFirstBatch = true ∧ dst.bResumePartialPuts = true then
    { flags with
      bFirstBatch := false
      bResumeScan := aPresent.all id && batch.any fun hash => !dst.published hash }
  else { flags with bFirstBatch := false }

def decisions (flags : Flags) (aPresent : List Bool) : List Decision :=
  aPresent.map fun present => ⟨present, flags.bResumeScan⟩

structure PushState (Hash : Type) where
  puts : List (Hash × Bytes)
  flags : Flags

section push
variable (format : ChunkFormat Hash) (src : Source Hash) (dst : Destination Hash)

def pushWalker : Walker Hash Decision (Option Code) (PushState Hash) Code where
  survey state batch :=
    let aPresent := dst.xHasChunks state.puts batch
    let flags := state.flags.survey dst aPresent batch
    .ok (⟨state.puts, flags⟩, decisions flags aPresent)
  visit state hash decision :=
    if decision.present = true ∧ decision.resume = false then .ok ⟨state, [], none⟩
    else
      match fetch format src.chunks hash with
      | .error code => .error code
      | .ok data =>
        if decision.present = true then .ok (named format state data)
        else
          match dst.xPutChunk state.puts hash data with
          | some code => .error code
          | none => .ok (named format { state with puts := state.puts ++ [(hash, data)] } data)
  finish := enumerated

def syncChunks (bForceResumeScan : Bool) (roots : List Hash) : Except Code (List (Hash × Bytes)) :=
  (search (pushWalker format src dst) format.isEmpty syncBounds syncBounds_batch
    ⟨[], { bForceResumeScan := bForceResumeScan }⟩ roots).map fun last => last.1.puts

structure PushPlan (Hash : Type) where
  entries : List (Hash × Nat)
  nBytes : Nat

structure PlanState (Hash : Type) where
  plan : PushPlan Hash
  flags : Flags

def PushPlan.append (plan : PushPlan Hash) (hash : Hash) (nData : Nat) : Except Code (PushPlan Hash) :=
  if 0x7fffffffffffffff < plan.nBytes + nData then .error .tooBig
  else if plan.entries.length = 0x7fffffff then .error .tooBig
  else .ok ⟨plan.entries ++ [(hash, nData)], plan.nBytes + nData⟩

def planWalker : Walker Hash Decision (Option Code) (PlanState Hash) Code where
  survey state batch :=
    let aPresent := dst.xHasChunks [] batch
    let flags := state.flags.survey dst aPresent batch
    .ok (⟨state.plan, flags⟩, decisions flags aPresent)
  visit state hash decision :=
    if decision.present = true ∧ decision.resume = false then .ok ⟨state, [], none⟩
    else
      match fetch format src.chunks hash with
      | .error code => .error code
      | .ok data =>
        if decision.present = true then .ok (named format state data)
        else
          match state.plan.append hash data.length with
          | .error code => .error code
          | .ok plan => .ok (named format { state with plan := plan } data)
  finish := enumerated

def buildPushPlan (bForceResumeScan : Bool) (roots : List Hash) : Except Code (PushPlan Hash) :=
  (search (planWalker format src dst) format.isEmpty syncBounds syncBounds_batch
    ⟨⟨[], 0⟩, { bForceResumeScan := bForceResumeScan }⟩ roots).map fun last => last.1.plan

def uploadEntries : List (Hash × Bytes) → List (Hash × Nat) → Except Code (List (Hash × Bytes))
  | puts, [] => .ok puts
  | puts, entry :: entries =>
    match fetch format src.chunks entry.1 with
    | .error code => .error code
    | .ok data =>
      if data.length ≠ entry.2 then .error .corrupt
      else
        match dst.xPutChunk puts entry.1 data with
        | some code => .error code
        | none => uploadEntries (puts ++ [(entry.1, data)]) entries

def uploadPushPlan (puts : List (Hash × Bytes)) (entries : List (Hash × Nat)) :
    Except Code (List (Hash × Bytes)) :=
  if _done : entries = [] then .ok puts
  else
    match uploadEntries format src dst puts (entries.take syncBounds.batch) with
    | .error code => .error code
    | .ok puts => uploadPushPlan puts (entries.drop syncBounds.batch)
termination_by entries.length
decreasing_by
  have positive := syncBounds_batch
  have length := List.length_pos_iff.mpr _done
  rw [List.length_drop]
  omega

structure Pushed (Hash : Type) where
  puts : List (Hash × Bytes)
  plan : Option (Nat × Nat)
deriving DecidableEq

def syncChunksWithPushProgress (observed bForceResumeScan : Bool) (roots : List Hash) :
    Except Code (Pushed Hash) :=
  if observed = false then
    (syncChunks format src dst bForceResumeScan roots).map fun puts => ⟨puts, none⟩
  else
    match buildPushPlan format src dst bForceResumeScan roots with
    | .error code => .error code
    | .ok plan =>
      (uploadPushPlan format src dst [] plan.entries).map fun puts =>
        ⟨puts, some (plan.entries.length, plan.nBytes)⟩

end push

def totalBytes : List (Hash × Bytes) → Nat
  | [] => 0
  | put :: puts => put.2.length + totalBytes puts

omit [DecidableEq Hash] in
theorem totalBytes_append (puts more : List (Hash × Bytes)) :
    totalBytes (puts ++ more) = totalBytes puts + totalBytes more := by
  induction puts with
  | nil => simp [totalBytes]
  | cons put puts ih =>
    simp only [List.cons_append, totalBytes, ih]
    omega

section laws
variable {format : ChunkFormat Hash} {src : Source Hash} {dst : Destination Hash}

theorem uploadEntries_append (puts : List (Hash × Bytes)) (entries more : List (Hash × Nat)) :
    uploadEntries format src dst puts (entries ++ more) =
      (uploadEntries format src dst puts entries).bind fun puts => uploadEntries format src dst puts more := by
  induction entries generalizing puts with
  | nil => rfl
  | cons entry entries ih =>
    rw [List.cons_append, uploadEntries, uploadEntries]
    cases fetch format src.chunks entry.1 with
    | error code => rfl
    | ok data =>
      by_cases other : data.length ≠ entry.2
      · simp only [if_pos other]
        rfl
      · simp only [if_neg other]
        cases dst.xPutChunk puts entry.1 data with
        | some code => rfl
        | none => exact ih _

theorem uploadPushPlan_eq (puts : List (Hash × Bytes)) (entries : List (Hash × Nat)) :
    uploadPushPlan format src dst puts entries = uploadEntries format src dst puts entries := by
  fun_induction uploadPushPlan format src dst puts entries with
  | case1 puts => rfl
  | case2 puts entries filled code failed =>
    have whole := @uploadEntries_append Hash _ format src dst puts
      (entries.take syncBounds.batch) (entries.drop syncBounds.batch)
    rw [List.take_append_drop, failed] at whole
    exact whole.symm
  | case3 puts entries filled next done ih =>
    have whole := @uploadEntries_append Hash _ format src dst puts
      (entries.take syncBounds.batch) (entries.drop syncBounds.batch)
    rw [List.take_append_drop, done] at whole
    rw [ih, whole]
    rfl

/-- What a visit of `syncChunks` does: nothing below a chunk that is present and not scanned; otherwise
the chunk is fetched, and put when it is absent. -/
theorem pushWalker_visit {state : PushState Hash} {hash : Hash} {decision : Decision}
    {visited : Visited Hash (Option Code) (PushState Hash)}
    (done : (pushWalker format src dst).visit state hash decision = .ok visited) :
    (decision.present = true ∧ decision.resume = false ∧ visited = ⟨state, [], none⟩) ∨
    ∃ data, fetch format src.chunks hash = .ok data ∧
      ((decision.present = true ∧ decision.resume = true ∧ visited = named format state data) ∨
       (decision.present = false ∧ dst.xPutChunk state.puts hash data = none ∧
        visited = named format { state with puts := state.puts ++ [(hash, data)] } data)) := by
  simp only [pushWalker] at done
  split at done
  · next skipped =>
      cases done
      exact .inl ⟨skipped.1, skipped.2, rfl⟩
  · next taken =>
      split at done
      · cases done
      · next data fetched =>
          refine .inr ⟨data, fetched, ?_⟩
          split at done
          · next present =>
              cases done
              have resume : decision.resume = true := by
                cases same : decision.resume with
                | true => rfl
                | false => exact absurd ⟨present, same⟩ taken
              exact .inl ⟨present, resume, rfl⟩
          · next absent =>
              split at done
              · cases done
              · next accepted =>
                  cases done
                  exact .inr ⟨Bool.eq_false_iff.mpr absent, accepted, rfl⟩

/-- How far a plan follows a push: it lists what was put, and its upload puts the same again. -/
structure Planned (format : ChunkFormat Hash) (src : Source Hash) (dst : Destination Hash)
    (pushed : PushState Hash) (planned : PlanState Hash) (history : History Hash) : Prop where
  flags : planned.flags = pushed.flags
  entries : planned.plan.entries = pushed.puts.map fun put => (put.1, put.2.length)
  nBytes : planned.plan.nBytes = totalBytes pushed.puts
  visited : ∀ put ∈ pushed.puts, put.1 ∈ history.map Prod.fst
  count : pushed.puts.length ≤ history.length
  small : totalBytes pushed.puts ≤ pushed.puts.length * 0x7fffffff
  uploaded : uploadEntries format src dst [] planned.plan.entries = .ok pushed.puts

theorem Planned.later {pushed : PushState Hash} {planned : PlanState Hash} {history : History Hash}
    (here : Planned format src dst pushed planned history) (visit : Hash × List Hash) :
    Planned format src dst pushed planned (history ++ [visit]) := by
  refine { here with visited := ?_, count := ?_ }
  · intro put member
    rw [List.map_append]
    exact List.mem_append_left _ (here.visited put member)
  · rw [List.length_append]
    exact Nat.le_add_right_of_le here.count

/-- A put and its entry. The plan has room for it, since the hashes seen are few. -/
theorem Planned.put {pushed : PushState Hash} {planned : PlanState Hash} {history : History Hash}
    (here : Planned format src dst pushed planned history) (few : history.length < syncBounds.capacity)
    {hash : Hash} {data : Bytes} (items : List Hash) (fetched : fetch format src.chunks hash = .ok data)
    (short : data.length ≤ 0x7fffffff) (accepted : dst.xPutChunk pushed.puts hash data = none) :
    ∃ plan, planned.plan.append hash data.length = .ok plan ∧
      Planned format src dst { pushed with puts := pushed.puts ++ [(hash, data)] }
        { planned with plan := plan } (history ++ [(hash, items)]) := by
  have count : pushed.puts.length < 33554432 := Nat.lt_of_le_of_lt here.count few
  have small := here.small
  have room : ¬ 0x7fffffffffffffff < planned.plan.nBytes + data.length := by
    rw [here.nBytes]
    omega
  have listed : planned.plan.entries.length ≠ 0x7fffffff := by
    rw [here.entries, List.length_map]
    omega
  have appended : planned.plan.append hash data.length =
      .ok ⟨planned.plan.entries ++ [(hash, data.length)], planned.plan.nBytes + data.length⟩ := by
    rw [PushPlan.append, if_neg room, if_neg listed]
  refine ⟨_, appended, here.flags, ?_, ?_, ?_, ?_, ?_, ?_⟩
  · simp only [here.entries, List.map_append, List.map_cons, List.map_nil]
  · simp only [here.nBytes, totalBytes_append, totalBytes, Nat.add_zero]
  · rw [List.map_append]
    exact forall_mem_snoc (fun put before => List.mem_append_left _ (here.visited put before))
      (List.mem_append_right _ (List.mem_singleton_self _))
  · simp only [List.length_append, List.length_singleton]
    exact Nat.add_le_add_right here.count 1
  · simp only [totalBytes_append, totalBytes, List.length_append, List.length_singleton]
    omega
  · simp only [uploadEntries_append, here.uploaded, Except.bind, uploadEntries, fetched, ne_eq, not_true_eq_false,
      if_false, accepted]

theorem plan_simulates :
    Simulates (pushWalker format src dst) (planWalker format src dst) syncBounds.capacity
      (fun pushed planned history _ => Planned format src dst pushed planned history) fun _ _ => True := by
  constructor
  · intro pushed planned history batch surveyed here _ fresh asked
    have new : ∀ hash ∈ batch, hash ∉ pushed.puts.map Prod.fst := by
      intro hash member again
      obtain ⟨put, inside, same⟩ := List.mem_map.mp again
      exact fresh hash member (same ▸ here.visited put inside)
    have present := xHasChunks_of_fresh dst new
    cases asked
    refine ⟨⟨planned.plan, pushed.flags.survey dst (dst.xHasChunks [] batch) batch⟩, ?_, ?_, ?_⟩
    · simp only [planWalker, here.flags, present]
    · rw [present]
      exact { here with flags := rfl }
    · simp only [decisions, Destination.xHasChunks, List.forall₂_map_right_iff, List.forall₂_same]
      exact fun _ _ => trivial
  · intro pushed planned history hash pending decision visited here _ few _ taken
    rcases pushWalker_visit taken with ⟨present, scan, rfl⟩ | ⟨data, fetched, rest⟩
    · refine ⟨⟨planned, [], none⟩, by simp [planWalker, present, scan], rfl, ?_⟩
      intro last finished
      cases finished
      exact ⟨planned, rfl, here.later _⟩
    · have length := src.short hash data (fetch_eq_ok.mp fetched).1
      rcases rest with ⟨present, scan, rfl⟩ | ⟨absent, accepted, rfl⟩
      · refine ⟨named format planned data, by simp [planWalker, present, scan, fetched], rfl, ?_⟩
        intro last finished
        simp only [pushWalker, planWalker, named, enumerated] at finished ⊢
        cases code : (format.children data).2 with
        | some code => simp [code] at finished
        | none =>
          simp only [code] at finished ⊢
          cases finished
          exact ⟨planned, rfl, here.later _⟩
      · obtain ⟨plan, appended, next⟩ := here.put few (format.children data).1 fetched length accepted
        refine ⟨named format { planned with plan := plan } data,
          by simp [planWalker, absent, fetched, appended], rfl, ?_⟩
        intro last finished
        simp only [pushWalker, planWalker, named, enumerated] at finished ⊢
        cases code : (format.children data).2 with
        | some code => simp [code] at finished
        | none =>
          simp only [code] at finished ⊢
          cases finished
          exact ⟨_, rfl, next⟩

def Whole (format : ChunkFormat Hash) (chunks : Hash → Option Bytes) : Prop :=
  ∀ parent data, chunks parent = some data → ∀ hash ∈ (format.children data).1,
    format.isEmpty hash = false → (chunks hash).isSome = true

theorem stored_isSome {puts : List (Hash × Bytes)} {hash : Hash} :
    (dst.stored puts hash).isSome = true ↔ hash ∈ puts.map Prod.fst ∨ (dst.chunks hash).isSome = true := by
  have either : (dst.stored puts hash).isSome =
      ((puts.find? fun put => put.1 = hash).isSome || (dst.chunks hash).isSome) := by
    rw [Destination.stored]
    cases puts.find? fun put => put.1 = hash <;> rfl
  simp [either]

theorem planWalker_visit {state : PlanState Hash} {hash : Hash} {decision : Decision}
    {visited : Visited Hash (Option Code) (PlanState Hash)}
    (done : (planWalker format src dst).visit state hash decision = .ok visited) :
    (decision.present = true ∧ visited = ⟨state, [], none⟩) ∨
    ∃ data, fetch format src.chunks hash = .ok data ∧
      ((decision.present = true ∧ visited = named format state data) ∨
       ∃ plan, state.plan.append hash data.length = .ok plan ∧
        visited = named format { state with plan := plan } data) := by
  simp only [planWalker] at done
  split at done
  · next skipped =>
      cases done
      exact .inl ⟨skipped.1, rfl⟩
  · split at done
    · cases done
    · next data fetched =>
        refine .inr ⟨data, fetched, ?_⟩
        split at done
        · next present =>
            cases done
            exact .inl ⟨present, rfl⟩
        · split at done
          · cases done
          · next plan appended =>
              cases done
              exact .inr ⟨plan, appended, rfl⟩

/-- How far a walk has delivered: what it lists to be put was fetched and its children are on record, and
what it visited is listed or was there. -/
structure Delivered (format : ChunkFormat Hash) (src : Source Hash) (dst : Destination Hash)
    (listed : List Hash) (history : History Hash) : Prop where
  children : ∀ hash ∈ listed, ∃ data, fetch format src.chunks hash = .ok data ∧
    (hash, (format.children data).1) ∈ history
  held : ∀ visit ∈ history, visit.1 ∈ listed ∨ (dst.chunks visit.1).isSome = true

section delivered
variable {listed : List Hash} {history : History Hash} {hash : Hash}

theorem Delivered.passed (here : Delivered format src dst listed history)
    (there : (dst.chunks hash).isSome = true) (items : List Hash) :
    Delivered format src dst listed (history ++ [(hash, items)]) where
  children other member := by
    obtain ⟨data, fetched, recorded⟩ := here.children other member
    exact ⟨data, fetched, List.mem_append_left _ recorded⟩
  held := forall_mem_snoc here.held (.inr there)

theorem Delivered.put (here : Delivered format src dst listed history) {data : Bytes}
    (fetched : fetch format src.chunks hash = .ok data) :
    Delivered format src dst (listed ++ [hash]) (history ++ [(hash, (format.children data).1)]) where
  children := by
    refine forall_mem_snoc (fun other member => ?_) ?_
    · obtain ⟨data, fetched, recorded⟩ := here.children other member
      exact ⟨data, fetched, List.mem_append_left _ recorded⟩
    · exact ⟨data, fetched, List.mem_append_right _ (List.mem_singleton_self _)⟩
  held := by
    refine forall_mem_snoc (fun visit member => ?_) (.inl (List.mem_append_right _ (List.mem_singleton_self _)))
    exact (here.held visit member).imp_left (List.mem_append_left _)

/-- Once the listed chunks are put, the roots are there, and so are the children of all that was put. -/
theorem Delivered.ends {next : Frontier Hash} {roots : List Hash} {puts : List (Hash × Bytes)}
    (ended : Delivered format src dst (puts.map Prod.fst) history)
    (fetched : ∀ put ∈ puts, fetch format src.chunks put.1 = .ok put.2)
    (sound : next.Sound format.isEmpty syncBounds.capacity roots history []) (empty : next.queue = []) :
    (∀ root ∈ roots, format.isEmpty root = false → (dst.stored puts root).isSome = true) ∧
      (Whole format dst.chunks → Whole format (dst.stored puts)) := by
  have there (hash : Hash) (real : format.isEmpty hash = false)
      (seen : format.isEmpty hash = true ∨ hash ∈ next.seen) : (dst.stored puts hash).isSome = true := by
    have visited := seen.resolve_left (by simp [real])
    rw [sound.seen, empty, List.append_nil, List.append_nil] at visited
    obtain ⟨visit, inside, rfl⟩ := List.mem_map.mp visited
    exact stored_isSome.mpr (ended.held visit inside)
  refine ⟨fun root member real => there root real (sound.started root member), ?_⟩
  intro whole parent data chunk hash child real
  rw [Destination.stored] at chunk
  split at chunk
  · next put found =>
      cases chunk
      have member := List.mem_of_find?_eq_some found
      obtain ⟨data, same, recorded⟩ := ended.children put.1 (List.mem_map_of_mem member)
      rw [fetched put member] at same
      cases same
      exact there hash real (sound.closed _ recorded hash child)
  · exact stored_isSome.mpr (.inr (whole parent data chunk hash child real))

end delivered

theorem enumerated_ok {σ : Type} {state last : σ} {note : Option Code}
    (finished : enumerated state note = .ok last) : last = state := by
  cases note with
  | none => exact (Except.ok.inj finished).symm
  | some code => cases finished

theorem pushWalker_keeps : Keeps (pushWalker format src dst) syncBounds.capacity
    (fun state history _ => Delivered format src dst (state.puts.map Prod.fst) history ∧
      ∀ put ∈ state.puts, fetch format src.chunks put.1 = .ok put.2)
    fun hash decision => decision.present = true → (dst.chunks hash).isSome = true := by
  constructor
  · intro state history batch surveyed here _ fresh asked
    cases asked
    refine ⟨here, ?_⟩
    simp only [decisions, Destination.xHasChunks, List.map_map, List.forall₂_map_right_iff,
      List.forall₂_same]
    intro hash member present
    -- what is in the batch was not visited, so it was not put
    refine (stored_isSome.mp present).resolve_left fun again => ?_
    obtain ⟨_, _, recorded⟩ := here.1.children hash again
    exact fresh hash member (List.mem_map_of_mem recorded)
  · rintro state history hash pending decision visited last ⟨here, fetched⟩ _ _ decided taken finished
    obtain rfl := enumerated_ok finished
    rcases pushWalker_visit taken with ⟨present, _, rfl⟩ | ⟨data, found, ⟨present, _, rfl⟩ | ⟨_, _, rfl⟩⟩
    · exact ⟨here.passed (decided present) _, fetched⟩
    · exact ⟨here.passed (decided present) _, fetched⟩
    · refine ⟨?_, forall_mem_snoc fetched found⟩
      rw [named, List.map_append]
      exact here.put found

theorem planWalker_keeps : Keeps (planWalker format src dst) syncBounds.capacity
    (fun state history _ => Delivered format src dst (state.plan.entries.map Prod.fst) history)
    fun hash decision => decision.present = true → (dst.chunks hash).isSome = true := by
  constructor
  · intro state history batch surveyed here _ fresh asked
    cases asked
    refine ⟨here, ?_⟩
    simp only [decisions, Destination.xHasChunks, List.map_map, List.forall₂_map_right_iff,
      List.forall₂_same]
    exact fun hash _ present => present
  · intro state history hash pending decision visited last here _ _ decided taken finished
    obtain rfl := enumerated_ok finished
    rcases planWalker_visit taken with ⟨present, rfl⟩ | ⟨data, found, ⟨present, rfl⟩ | ⟨plan, appended, rfl⟩⟩
    · exact here.passed (decided present) _
    · exact here.passed (decided present) _
    · have entries : plan.entries = state.plan.entries ++ [(hash, data.length)] := by
        rw [PushPlan.append] at appended
        split at appended
        · cases appended
        · split at appended
          · cases appended
          · cases appended
            rfl
      rw [named, entries, List.map_append]
      exact here.put found

theorem uploadEntries_puts {puts after : List (Hash × Bytes)} {entries : List (Hash × Nat)}
    (fetched : ∀ put ∈ puts, fetch format src.chunks put.1 = .ok put.2)
    (done : uploadEntries format src dst puts entries = .ok after) :
    after.map Prod.fst = puts.map Prod.fst ++ entries.map Prod.fst ∧
      ∀ put ∈ after, fetch format src.chunks put.1 = .ok put.2 := by
  induction entries generalizing puts with
  | nil =>
    cases done
    exact ⟨(List.append_nil _).symm, fetched⟩
  | cons entry entries ih =>
    rw [uploadEntries] at done
    split at done
    · cases done
    · next data found =>
        split at done
        · cases done
        · split at done
          · cases done
          · obtain ⟨names, all⟩ := ih (forall_mem_snoc fetched found) done
            refine ⟨?_, all⟩
            rw [names, List.map_append, List.append_assoc]
            rfl

/-- One push, observed or not. -/
theorem push_delivers {observed bForceResumeScan : Bool} {roots : List Hash} {pushed : Pushed Hash}
    (done : syncChunksWithPushProgress format src dst observed bForceResumeScan roots = .ok pushed) :
    (∀ root ∈ roots, format.isEmpty root = false → (dst.stored pushed.puts root).isSome = true) ∧
      (Whole format dst.chunks → Whole format (dst.stored pushed.puts)) := by
  rw [syncChunksWithPushProgress] at done
  split at done
  · rw [syncChunks] at done
    cases searched : search (pushWalker format src dst) format.isEmpty syncBounds syncBounds_batch
        ⟨[], { bForceResumeScan := bForceResumeScan }⟩ roots with
    | error code =>
      rw [searched] at done
      cases done
    | ok last =>
      rw [searched] at done
      cases done
      obtain ⟨history, ⟨ended, fetched⟩, sound, empty⟩ :=
        search_keeps pushWalker_keeps ⟨⟨by simp, by simp⟩, by simp⟩ searched
      exact ended.ends fetched sound empty
  · split at done
    · cases done
    · next plan built =>
        rw [uploadPushPlan_eq] at done
        cases uploaded : uploadEntries format src dst [] plan.entries with
        | error code =>
          rw [uploaded] at done
          cases done
        | ok puts =>
          rw [uploaded] at done
          cases done
          rw [buildPushPlan] at built
          cases searched : search (planWalker format src dst) format.isEmpty syncBounds syncBounds_batch
              ⟨⟨[], 0⟩, { bForceResumeScan := bForceResumeScan }⟩ roots with
          | error code =>
            rw [searched] at built
            cases built
          | ok last =>
            rw [searched] at built
            cases built
            obtain ⟨history, ended, sound, empty⟩ :=
              search_keeps planWalker_keeps ⟨by simp, by simp⟩ searched
            obtain ⟨names, fetched⟩ := uploadEntries_puts (by simp) uploaded
            rw [List.map_nil, List.nil_append] at names
            rw [← names] at ended
            exact ended.ends fetched sound empty

end laws

/-- An observed push does what the push would have done without an observer: it makes the same puts in the
same order, and reports their number and length before. -/
theorem observed_push_eq (format : ChunkFormat Hash) (src : Source Hash) (dst : Destination Hash)
    (bForceResumeScan : Bool) (roots : List Hash) (puts : List (Hash × Bytes))
    (pushed : syncChunks format src dst bForceResumeScan roots = .ok puts) :
    syncChunksWithPushProgress format src dst true bForceResumeScan roots =
      .ok ⟨puts, some (puts.length, totalBytes puts)⟩ := by
  rw [syncChunks] at pushed
  cases searched : search (pushWalker format src dst) format.isEmpty syncBounds syncBounds_batch
      ⟨[], { bForceResumeScan := bForceResumeScan }⟩ roots with
  | error code =>
    rw [searched] at pushed
    cases pushed
  | ok last =>
    rw [searched] at pushed
    cases pushed
    have start : Planned format src dst ⟨[], { bForceResumeScan := bForceResumeScan }⟩
        ⟨⟨[], 0⟩, { bForceResumeScan := bForceResumeScan }⟩ [] :=
      ⟨rfl, rfl, rfl, by simp, Nat.le_refl _, Nat.zero_le _, rfl⟩
    obtain ⟨planned, history, built, related, _⟩ :=
      @search_simulates _ _ _ _ _ _ _ _ _ _ _ _ _ syncBounds _ _ _ plan_simulates rfl rfl _
        syncBounds_batch _ _ _ _ start searched
    have plan : buildPushPlan format src dst bForceResumeScan roots = .ok planned.plan := by
      rw [buildPushPlan, built]
      rfl
    rw [syncChunksWithPushProgress, if_neg (by decide), plan]
    simp only [uploadPushPlan_eq, related.uploaded]
    simp only [related.entries, related.nBytes, List.length_map]
    rfl

/-- Successful pushes, one after another, into one destination: from the chunks it had at first to those it
has at last, with the roots that were pushed. A push sees what the pushes before it have left; its
source, and what else the destination answers, may be others each time. -/
inductive Pushes (format : ChunkFormat Hash) (start : Hash → Option Bytes) :
    List Hash → (Hash → Option Bytes) → Prop where
  | refl : Pushes format start [] start
  | push {before : List Hash} {src : Source Hash} {dst : Destination Hash} {observed bForceResumeScan : Bool}
      {roots : List Hash} {pushed : Pushed Hash} (earlier : Pushes format start before dst.chunks)
      (done : syncChunksWithPushProgress format src dst observed bForceResumeScan roots = .ok pushed) :
      Pushes format start (before ++ roots) (dst.stored pushed.puts)

/-- Over any sequence of successful pushes, observed or not, all roots that were pushed are at the
destination; if this had the children of each of its chunks at first, it has them at last. -/
theorem pushes_keep_whole {format : ChunkFormat Hash} {start last : Hash → Option Bytes} {roots : List Hash}
    (pushes : Pushes format start roots last) :
    (∀ root ∈ roots, format.isEmpty root = false → (last root).isSome = true) ∧
      (Whole format start → Whole format last) := by
  induction pushes with
  | refl => exact ⟨by simp, id⟩
  | push earlier done ih =>
    obtain ⟨delivered, whole⟩ := push_delivers done
    refine ⟨fun root member real => ?_, fun complete => whole (ih.2 complete)⟩
    rcases List.mem_append.mp member with old | new
    · exact stored_isSome.mpr (.inr (ih.1 root old real))
    · exact delivered root new real

def sampleFormat : ChunkFormat Nat where
  hashOf data := data.length
  isEmpty hash := hash == 0
  children data := (data.map UInt8.toNat, none)

def sampleChunks (hash : Nat) : Option Bytes :=
  if hash = 1 then some [0]
  else if hash = 2 then some [1, 3]
  else if hash = 3 then some [2, 2, 1]
  else none

theorem sampleChunks_short (hash : Nat) (data : Bytes) (found : sampleChunks hash = some data) :
    data.length ≤ 0x7fffffff := by
  rw [sampleChunks] at found
  split at found
  · cases found
    decide
  · split at found
    · cases found
      decide
    · split at found
      · cases found
        decide
      · cases found

def sampleSource : Source Nat where
  chunks := sampleChunks
  short := sampleChunks_short

def sampleDestination : Destination Nat where
  chunks hash := if hash = 3 then some [2, 2, 1] else none
  published _ := false
  bResumePartialPuts := true
  xPutChunk _ _ _ := none

theorem observed_push_eq_sample :
    syncChunksWithPushProgress sampleFormat sampleSource sampleDestination true false [0, 3] =
      .ok ⟨[(2, [1, 3]), (1, [0])], some (2, 3)⟩ :=
  observed_push_eq sampleFormat sampleSource sampleDestination false [0, 3] [(2, [1, 3]), (1, [0])]
    (by decide +kernel)

/-- One chunk more than the sample source has. -/
def laterSource : Source Nat where
  chunks hash := if hash = 4 then some [3, 1, 0, 0] else sampleChunks hash
  short hash data found := by
    split at found
    · cases found
      decide
    · exact sampleChunks_short hash data found

def begunDestination : Destination Nat :=
  { sampleDestination with chunks := fun hash => if hash = 1 then some [0] else none }

def grownDestination : Destination Nat :=
  { sampleDestination with chunks := begunDestination.stored [(3, [2, 2, 1]), (2, [1, 3])] }

/-- Into a destination with a chunk of its own, a push and an observed push from another source. -/
theorem pushes_keep_whole_grown : ∃ last, Pushes sampleFormat begunDestination.chunks [3, 4] last ∧
    (last 3).isSome = true ∧ (last 4).isSome = true ∧ Whole sampleFormat last := by
  have first : Pushes sampleFormat begunDestination.chunks [3] grownDestination.chunks :=
    .push .refl (by decide +kernel : syncChunksWithPushProgress sampleFormat sampleSource begunDestination
      false false [3] = .ok ⟨[(3, [2, 2, 1]), (2, [1, 3])], none⟩)
  have second : Pushes sampleFormat begunDestination.chunks [3, 4]
      (grownDestination.stored [(4, [3, 1, 0, 0])]) :=
    .push first (by decide +kernel : syncChunksWithPushProgress sampleFormat laterSource grownDestination
      true true [4] = .ok ⟨[(4, [3, 1, 0, 0])], some (1, 4)⟩)
  have whole : Whole sampleFormat begunDestination.chunks := by
    intro parent data chunk hash child real
    simp only [begunDestination] at chunk
    split at chunk
    · cases chunk
      rw [List.mem_singleton.mp child] at real
      cases real
    · cases chunk
  obtain ⟨roots, kept⟩ := pushes_keep_whole second
  exact ⟨_, second, roots 3 (by decide) rfl, roots 4 (by decide) rfl, kept whole⟩

end RusqDoltlite.Sync

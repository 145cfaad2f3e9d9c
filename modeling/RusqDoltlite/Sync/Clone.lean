import RusqDoltlite.Sync.Push

/-! Cloning with progress: `doltliteSyncChunksWithCloneProgress` walks the chunks that the destination has
as well, since their descendants may be missing, and counts every chunk. -/

namespace RusqDoltlite.Sync

open Search

variable {Hash : Type} [DecidableEq Hash]

structure Counters where
  nCloneDownloadedChunks : Nat
  nCloneDownloadedBytes : Nat
  nCloneReusedChunks : Nat
  nCloneReusedBytes : Nat
deriving DecidableEq, Repr

def Counters.add (counters : Counters) (bReused : Bool) (nData : Nat) : Counters :=
  if bReused = true then
    { counters with
      nCloneReusedChunks := counters.nCloneReusedChunks + 1
      nCloneReusedBytes := counters.nCloneReusedBytes + nData }
  else
    { counters with
      nCloneDownloadedChunks := counters.nCloneDownloadedChunks + 1
      nCloneDownloadedBytes := counters.nCloneDownloadedBytes + nData }

def Counters.chunks (counters : Counters) (bReused : Bool) : Nat :=
  if bReused = true then counters.nCloneReusedChunks else counters.nCloneDownloadedChunks

def Counters.bytes (counters : Counters) (bReused : Bool) : Nat :=
  if bReused = true then counters.nCloneReusedBytes else counters.nCloneDownloadedBytes

structure CloneState (Hash : Type) where
  puts : List (Hash × Bytes)
  asked : List Hash
  counters : Counters
  reports : List Counters
deriving DecidableEq

def CloneState.reportChunk (state : CloneState Hash) (xCloneProgress bReused : Bool) (nData : Nat) :
    Except Code (CloneState Hash) :=
  if xCloneProgress = false then .error .misuse
  else if state.counters.chunks bReused = 0x7fffffffffffffff ∨
      0x7fffffffffffffff < state.counters.bytes bReused + nData then .error .tooBig
  else
    let counters := state.counters.add bReused nData
    .ok { state with counters := counters, reports := state.reports ++ [counters] }

structure Tally where
  code : Option Code
  bReused : Bool
  nData : Nat

section clone
variable (format : ChunkFormat Hash) (src : Source Hash) (dst : Destination Hash)

def absent (batch : List Hash) (aPresent : List Bool) : List Hash :=
  ((batch.zip aPresent).filter fun item => !item.2).map Prod.fst

/-- The steps of the walk. A source with `xGetChunks` is asked for all that is absent of a batch before
the first chunk of the batch is handled. -/
def cloneWalker (xGetChunks xCloneProgress : Bool) : Walker Hash Bool Tally (CloneState Hash) Code where
  survey state batch :=
    let aPresent := dst.xHasChunks state.puts batch
    let asked := if xGetChunks = true then state.asked ++ absent batch aPresent else state.asked
    .ok ({ state with asked := asked }, aPresent)
  visit state hash bReused :=
    if bReused = true then
      match fetch format (dst.stored state.puts) hash with
      | .error code => .error code
      | .ok data => .ok ⟨state, (format.children data).1, (format.children data).2, true, data.length⟩
    else
      let asked := if xGetChunks = true then state.asked else state.asked ++ [hash]
      match fetch format src.chunks hash with
      | .error code => .error code
      | .ok data =>
        match dst.xPutChunk state.puts hash data with
        | some code => .error code
        | none =>
          .ok ⟨{ state with puts := state.puts ++ [(hash, data)], asked := asked },
            (format.children data).1, (format.children data).2, false, data.length⟩
  finish state tally :=
    match tally.code with
    | some code => .error code
    | none => state.reportChunk xCloneProgress tally.bReused tally.nData

def syncChunksWithCloneProgress (xGetChunks xCloneProgress : Bool) (counters : Counters) (roots : List Hash) :
    Except Code (CloneState Hash) :=
  (search (cloneWalker format src dst xGetChunks xCloneProgress) format.isEmpty syncBounds syncBounds_batch
    ⟨[], [], counters, []⟩ roots).map Prod.fst

end clone

inductive Reachable (format : ChunkFormat Hash) (chunks : Hash → Option Bytes) (roots : List Hash) : Hash → Prop
  | root {hash : Hash} : hash ∈ roots → format.isEmpty hash = false → Reachable format chunks roots hash
  | child {parent hash : Hash} {data : Bytes} : Reachable format chunks roots parent →
      chunks parent = some data → format.hashOf data = parent → hash ∈ (format.children data).1 →
      format.isEmpty hash = false → Reachable format chunks roots hash

def runningCounters (counters : Counters) : List (Bool × Nat) → List Counters
  | [] => []
  | chunk :: chunks => counters.add chunk.1 chunk.2 :: runningCounters (counters.add chunk.1 chunk.2) chunks

def countAll (counters : Counters) (chunks : List (Bool × Nat)) : Counters :=
  chunks.foldl (fun counters chunk => counters.add chunk.1 chunk.2) counters

theorem countAll_append (counters : Counters) (chunks more : List (Bool × Nat)) :
    countAll counters (chunks ++ more) = countAll (countAll counters chunks) more :=
  List.foldl_append

theorem runningCounters_append (counters : Counters) (chunks : List (Bool × Nat)) (chunk : Bool × Nat) :
    runningCounters counters (chunks ++ [chunk]) =
      runningCounters counters chunks ++ [(countAll counters chunks).add chunk.1 chunk.2] := by
  induction chunks generalizing counters with
  | nil => rfl
  | cons first chunks ih =>
    rw [List.cons_append, runningCounters, ih, runningCounters]
    rfl

section laws
variable {format : ChunkFormat Hash} {src : Source Hash} {dst : Destination Hash}
  {xGetChunks xCloneProgress : Bool}

theorem absent_eq (batch : List Hash) :
    absent batch (dst.xHasChunks [] batch) = batch.filter fun hash => !(dst.chunks hash).isSome := by
  induction batch with
  | nil => rfl
  | cons hash batch ih =>
    have stored : dst.stored [] hash = dst.chunks hash := rfl
    simp only [absent, Destination.xHasChunks, List.map_cons, List.zip_cons_cons, List.filter_cons,
      stored] at ih ⊢
    cases (dst.chunks hash).isSome with
    | true => simpa using ih
    | false => simpa using ih

theorem cloneWalker_visit {state : CloneState Hash} {hash : Hash} {bReused : Bool}
    {visited : Visited Hash Tally (CloneState Hash)}
    (done : (cloneWalker format src dst xGetChunks xCloneProgress).visit state hash bReused = .ok visited) :
    ∃ data,
      ((bReused = true ∧ fetch format (dst.stored state.puts) hash = .ok data ∧ visited.state = state) ∨
       (bReused = false ∧ fetch format src.chunks hash = .ok data ∧
        visited.state =
          { state with
            puts := state.puts ++ [(hash, data)]
            asked := if xGetChunks = true then state.asked else state.asked ++ [hash] })) ∧
      visited.items = (format.children data).1 ∧ visited.note.bReused = bReused ∧
      visited.note.nData = data.length := by
  simp only [cloneWalker] at done
  split at done
  · next present =>
      split at done
      · cases done
      · next data fetched =>
          cases done
          exact ⟨data, .inl ⟨present, fetched, rfl⟩, rfl, present.symm, rfl⟩
  · next missing =>
      split at done
      · cases done
      · next data fetched =>
          split at done
          · cases done
          · cases done
            have reused := Bool.eq_false_iff.mpr missing
            exact ⟨data, .inr ⟨reused, fetched, rfl⟩, rfl, reused.symm, rfl⟩

theorem cloneWalker_finish {state last : CloneState Hash} {tally : Tally}
    (done : (cloneWalker format src dst xGetChunks xCloneProgress).finish state tally = .ok last) :
    last = { state with
      counters := state.counters.add tally.bReused tally.nData
      reports := state.reports ++ [state.counters.add tally.bReused tally.nData] } := by
  simp only [cloneWalker] at done
  split at done
  · cases done
  · simp only [CloneState.reportChunk] at done
    split at done
    · cases done
    · split at done
      · cases done
      · cases done
        rfl

def content (src : Source Hash) (dst : Destination Hash) (hash : Hash) : Option Bytes :=
  match dst.chunks hash with
  | some data => some data
  | none => src.chunks hash

def counted (src : Source Hash) (dst : Destination Hash) (hash : Hash) : Bool × Nat :=
  ((dst.chunks hash).isSome, ((content src dst hash).getD []).length)

structure Held (format : ChunkFormat Hash) (src : Source Hash) (dst : Destination Hash)
    (puts : List (Hash × Bytes)) (visit : Hash × List Hash) (data : Bytes) : Prop where
  content : content src dst visit.1 = some data
  hashOf : format.hashOf data = visit.1
  children : visit.2 = (format.children data).1
  stored : dst.stored puts visit.1 = some data

structure Fetched (format : ChunkFormat Hash) (src : Source Hash) (dst : Destination Hash) (xGetChunks : Bool)
    (state : CloneState Hash) (history : History Hash) (pending : List Hash) : Prop where
  held : ∀ visit ∈ history, ∃ data, Held format src dst state.puts visit data
  put : ∀ put ∈ state.puts, put.1 ∈ history.map Prod.fst
  lacking : ∀ hash ∈ state.asked, dst.chunks hash = none
  asked : ∀ hash ∈ state.asked, hash ∈ history.map Prod.fst ∨ xGetChunks = true ∧ hash ∈ pending
  once : state.asked.Nodup

structure Cloned (format : ChunkFormat Hash) (src : Source Hash) (dst : Destination Hash) (xGetChunks : Bool)
    (counters : Counters) (state : CloneState Hash) (history : History Hash) (pending : List Hash) : Prop
    extends Fetched format src dst xGetChunks state history pending where
  total : state.counters = countAll counters (history.map fun visit => counted src dst visit.1)
  reports : state.reports = runningCounters counters (history.map fun visit => counted src dst visit.1)

theorem cloned_survey {counters : Counters} {state : CloneState Hash} {history : History Hash} {batch : List Hash}
    {surveyed : CloneState Hash × List Bool} (here : Cloned format src dst xGetChunks counters state history [])
    (distinct : batch.Nodup) (fresh : ∀ hash ∈ batch, hash ∉ history.map Prod.fst)
    (asked : (cloneWalker format src dst xGetChunks xCloneProgress).survey state batch = .ok surveyed) :
    Cloned format src dst xGetChunks counters surveyed.1 history batch ∧
      List.Forall₂ (fun hash bReused => bReused = (dst.chunks hash).isSome) batch surveyed.2 := by
  have before : ∀ hash ∈ state.asked, hash ∈ history.map Prod.fst := by
    intro hash member
    rcases here.asked hash member with known | ⟨_, nowhere⟩
    · exact known
    · exact absurd nowhere List.not_mem_nil
  have new : ∀ hash ∈ batch, hash ∉ state.puts.map Prod.fst := by
    intro hash member again
    obtain ⟨put, inside, same⟩ := List.mem_map.mp again
    exact fresh hash member (same ▸ here.put put inside)
  have present := xHasChunks_of_fresh dst new
  cases asked
  rw [present]
  refine ⟨?_, ?_⟩
  · cases xGetChunks with
    | false => exact { here with asked := fun hash member => .inl (before hash member) }
    | true =>
      simp only [if_true, absent_eq]
      refine { here with lacking := ?_, asked := ?_, once := ?_ }
      · intro hash member
        rcases List.mem_append.mp member with old | added
        · exact here.lacking hash old
        · simpa using (List.mem_filter.mp added).2
      · intro hash member
        rcases List.mem_append.mp member with old | added
        · exact .inl (before hash old)
        · exact .inr ⟨rfl, (List.mem_filter.mp added).1⟩
      · rw [List.nodup_append]
        refine ⟨here.once, distinct.filter _, ?_⟩
        intro hash old other added same
        rw [same] at old
        exact fresh other (List.mem_filter.mp added).1 (before other old)
  · simp only [Destination.xHasChunks, List.forall₂_map_right_iff, List.forall₂_same]
    exact fun _ _ => rfl

theorem Held.later {puts : List (Hash × Bytes)} {visit : Hash × List Hash} {data : Bytes}
    (held : Held format src dst puts visit data) {hash : Hash} (more : Bytes) (apart : hash ≠ visit.1) :
    Held format src dst (puts ++ [(hash, more)]) visit data := by
  refine { held with stored := ?_ }
  rw [stored_append_other dst puts more apart]
  exact held.stored

omit [DecidableEq Hash] in
theorem counted_eq {hash : Hash} {data : Bytes} (found : content src dst hash = some data) :
    counted src dst hash = ((dst.chunks hash).isSome, data.length) := by
  rw [counted, found]
  rfl

section visit
variable {state : CloneState Hash} {history : History Hash} {hash : Hash} {pending : List Hash} {data : Bytes}

variable (here : Fetched format src dst xGetChunks state history (hash :: pending)) (items : List Hash)
  (fresh : hash ∉ history.map Prod.fst)

include here items in
theorem Fetched.asked_later (asked : Hash) (member : asked ∈ state.asked) :
    asked ∈ (history ++ [(hash, items)]).map Prod.fst ∨ xGetChunks = true ∧ asked ∈ pending := by
  rw [List.map_append, List.mem_append]
  rcases here.asked asked member with known | ⟨all, waiting⟩
  · exact .inl (.inl known)
  · rcases List.mem_cons.mp waiting with same | waiting
    · exact .inl (.inr (same ▸ List.mem_singleton_self hash))
    · exact .inr ⟨all, waiting⟩

include here items in
theorem Fetched.put_later (put : Hash × Bytes) (member : put ∈ state.puts) :
    put.1 ∈ (history ++ [(hash, items)]).map Prod.fst := by
  rw [List.map_append]
  exact List.mem_append_left _ (here.put put member)

include here fresh in
theorem Fetched.unput : hash ∉ state.puts.map Prod.fst := by
  intro again
  obtain ⟨put, inside, same⟩ := List.mem_map.mp again
  exact fresh (same ▸ here.put put inside)

include here fresh in
theorem Fetched.reuse (fetched : fetch format (dst.stored state.puts) hash = .ok data) :
    content src dst hash = some data ∧
      Fetched format src dst xGetChunks state (history ++ [(hash, (format.children data).1)]) pending := by
  obtain ⟨stored, hashOf⟩ := fetch_eq_ok.mp fetched
  have new := here.unput fresh
  have chunk := stored
  rw [stored_of_fresh dst new] at chunk
  have found : content src dst hash = some data := by rw [content, chunk]
  exact ⟨found, forall_mem_snoc here.held ⟨data, found, hashOf, rfl, stored⟩, here.put_later _,
    here.lacking, here.asked_later _, here.once⟩

include here fresh in
theorem Fetched.download (lacking : dst.chunks hash = none)
    (fetched : fetch format src.chunks hash = .ok data) :
    content src dst hash = some data ∧
      Fetched format src dst xGetChunks
        { state with
          puts := state.puts ++ [(hash, data)]
          asked := if xGetChunks = true then state.asked else state.asked ++ [hash] }
        (history ++ [(hash, (format.children data).1)]) pending := by
  obtain ⟨chunk, hashOf⟩ := fetch_eq_ok.mp fetched
  have new := here.unput fresh
  have visited : hash ∈ (history ++ [(hash, (format.children data).1)]).map Prod.fst := by
    rw [List.map_append]
    exact List.mem_append_right _ (List.mem_singleton_self hash)
  have found : content src dst hash = some data := by rw [content, lacking, chunk]
  refine ⟨found, forall_mem_snoc ?_ ⟨data, found, hashOf, rfl, stored_append_same dst data new⟩,
    forall_mem_snoc (here.put_later _) visited, ?_, ?_, ?_⟩
  · intro visit before
    obtain ⟨other, held⟩ := here.held visit before
    refine ⟨other, held.later data ?_⟩
    intro same
    exact fresh (same ▸ List.mem_map.mpr ⟨visit, before, rfl⟩)
  · cases xGetChunks with
    | true => exact here.lacking
    | false => exact forall_mem_snoc here.lacking lacking
  · cases xGetChunks with
    | true => exact here.asked_later _
    | false => exact forall_mem_snoc (here.asked_later _) (.inl visited)
  · cases xGetChunks with
    | true => exact here.once
    | false =>
      -- without batches, what was asked for was visited, and this chunk was not
      apply List.nodup_append.mpr
      refine ⟨here.once, List.nodup_singleton hash, ?_⟩
      intro asked before other member same
      rw [same, List.mem_singleton.mp member] at before
      rcases here.asked hash before with known | ⟨all, _⟩
      · exact fresh known
      · cases all

end visit

theorem cloned_visit {counters : Counters} {state last : CloneState Hash} {history : History Hash} {hash : Hash}
    {pending : List Hash} {bReused : Bool} {visited : Visited Hash Tally (CloneState Hash)}
    (here : Cloned format src dst xGetChunks counters state history (hash :: pending))
    (fresh : hash ∉ history.map Prod.fst) (decided : bReused = (dst.chunks hash).isSome)
    (taken : (cloneWalker format src dst xGetChunks xCloneProgress).visit state hash bReused = .ok visited)
    (finished : (cloneWalker format src dst xGetChunks xCloneProgress).finish visited.state
      visited.note = .ok last) :
    Cloned format src dst xGetChunks counters last (history ++ [(hash, visited.items)]) pending := by
  obtain ⟨data, which, items, reused, length⟩ := cloneWalker_visit taken
  have after : (content src dst hash = some data ∧
      Fetched format src dst xGetChunks visited.state (history ++ [(hash, (format.children data).1)]) pending) ∧
      visited.state.counters = state.counters ∧ visited.state.reports = state.reports := by
    rcases which with ⟨_, fetched, same⟩ | ⟨absent, fetched, same⟩
    · rw [same]
      exact ⟨here.reuse fresh fetched, rfl, rfl⟩
    · rw [same]
      have lacking : dst.chunks hash = none := by
        rw [absent] at decided
        simpa using decided.symm
      exact ⟨here.download fresh lacking fetched, rfl, rfl⟩
  obtain ⟨⟨found, fetched⟩, total, reports⟩ := after
  have chunk : counted src dst hash = (bReused, data.length) := by
    rw [counted_eq found, decided]
  rw [cloneWalker_finish finished, items]
  refine ⟨⟨fetched.held, fetched.put, fetched.lacking, fetched.asked, fetched.once⟩, ?_, ?_⟩
  · simp only [List.map_append, List.map_cons, List.map_nil, countAll_append, chunk, reused, length, total,
      here.total]
    rfl
  · simp only [List.map_append, List.map_cons, List.map_nil, runningCounters_append, chunk, reused, length, total,
      reports, here.total, here.reports]

omit [DecidableEq Hash] in
theorem reachable_visited {roots visited : List Hash} (chunks : Hash → Option Bytes)
    (started : ∀ root ∈ roots, format.isEmpty root = true ∨ root ∈ visited)
    (closed : ∀ parent ∈ visited, ∀ data, chunks parent = some data → format.hashOf data = parent →
      ∀ hash ∈ (format.children data).1, format.isEmpty hash = true ∨ hash ∈ visited)
    {hash : Hash} (reachable : Reachable format chunks roots hash) : hash ∈ visited := by
  induction reachable with
  | root member some => exact (started _ member).resolve_left (by simp [some])
  | child _ chunk hashOf member some ih =>
    exact (closed _ ih _ chunk hashOf _ member).resolve_left (by simp [some])

end laws

/-- Two ends that have chunks with one hash have the same chunk. -/
def ContentAddressed (format : ChunkFormat Hash) (src : Source Hash) (dst : Destination Hash) : Prop :=
  ∀ hash mine theirs, dst.chunks hash = some mine → src.chunks hash = some theirs →
    format.hashOf mine = hash → format.hashOf theirs = hash → mine = theirs

theorem Held.eq {format : ChunkFormat Hash} {src : Source Hash} {dst : Destination Hash}
    {puts : List (Hash × Bytes)} {visit : Hash × List Hash} {mine theirs : Bytes}
    (held : Held format src dst puts visit mine) (addressed : ContentAddressed format src dst)
    (chunk : src.chunks visit.1 = some theirs) (hashOf : format.hashOf theirs = visit.1) : mine = theirs := by
  have found := held.content
  rw [Sync.content] at found
  split at found
  · next data present =>
      cases found
      exact addressed visit.1 mine theirs present chunk held.hashOf hashOf
  · rw [chunk] at found
    cases found
    rfl

def chunksOf (src : Source Hash) (dst : Destination Hash) (history : History Hash) : List (Hash × Bytes) :=
  history.map fun visit => (visit.1, (content src dst visit.1).getD [])

/-- A complete clone: the destination has every reachable chunk of the source under its hash. The visited
chunks are all different; each was counted once, as reused when the destination had it before, with its
length; and the source was asked at most once for a hash, and only for what was lacking. -/
structure Complete (format : ChunkFormat Hash) (src : Source Hash) (dst : Destination Hash) (counters : Counters)
    (roots : List Hash) (state : CloneState Hash) (visited : List (Hash × Bytes)) : Prop where
  reached : ∀ hash, Reachable format src.chunks roots hash → hash ∈ visited.map Prod.fst
  stored : ∀ chunk ∈ visited, format.hashOf chunk.2 = chunk.1 ∧ dst.stored state.puts chunk.1 = some chunk.2
  distinct : (visited.map Prod.fst).Nodup
  reports : state.reports =
    runningCounters counters (visited.map fun chunk => ((dst.chunks chunk.1).isSome, chunk.2.length))
  total : state.counters =
    countAll counters (visited.map fun chunk => ((dst.chunks chunk.1).isSome, chunk.2.length))
  once : state.asked.Nodup
  lacking : ∀ hash ∈ state.asked, dst.chunks hash = none

theorem clone_complete (format : ChunkFormat Hash) (src : Source Hash) (dst : Destination Hash)
    (addressed : ContentAddressed format src dst) (xGetChunks xCloneProgress : Bool) (counters : Counters)
    (roots : List Hash) (state : CloneState Hash)
    (done : syncChunksWithCloneProgress format src dst xGetChunks xCloneProgress counters roots = .ok state) :
    ∃ visited, Complete format src dst counters roots state visited := by
  rw [syncChunksWithCloneProgress] at done
  cases searched : search (cloneWalker format src dst xGetChunks xCloneProgress) format.isEmpty syncBounds
      syncBounds_batch ⟨[], [], counters, []⟩ roots with
  | error code =>
    rw [searched] at done
    cases done
  | ok last =>
    rw [searched] at done
    cases done
    have start : Cloned format src dst xGetChunks counters ⟨[], [], counters, []⟩ [] [] :=
      ⟨⟨by simp, by simp, by simp, by simp, List.nodup_nil⟩, rfl, rfl⟩
    have keeps : Keeps (cloneWalker format src dst xGetChunks xCloneProgress) syncBounds.capacity
        (Cloned format src dst xGetChunks counters) fun hash bReused => bReused = (dst.chunks hash).isSome :=
      ⟨fun _ _ _ _ here distinct fresh asked => cloned_survey here distinct fresh asked,
        fun _ _ _ _ _ _ _ here fresh _ decided taken finished => cloned_visit here fresh decided taken finished⟩
    obtain ⟨history, ended, sound, empty⟩ := search_keeps keeps start searched
    have seen : last.2.seen = history.map Prod.fst := by
      rw [sound.seen, empty, List.append_nil, List.append_nil]
    have keys : (chunksOf src dst history).map Prod.fst = history.map Prod.fst := by
      simp [chunksOf]
    have tallies : ((chunksOf src dst history).map fun chunk => ((dst.chunks chunk.1).isSome, chunk.2.length)) =
        history.map fun visit => counted src dst visit.1 := by
      simp [chunksOf, counted]
    refine ⟨chunksOf src dst history, ?_, ?_, ?_, ?_, ?_, ended.once, ended.lacking⟩
    · intro hash reachable
      rw [keys, ← seen]
      refine reachable_visited src.chunks sound.started ?_ reachable
      intro parent member data chunk hashOf child inside
      rw [seen] at member
      obtain ⟨visit, visited, rfl⟩ := List.mem_map.mp member
      obtain ⟨mine, held⟩ := ended.held visit visited
      apply sound.closed visit visited
      rw [held.children, held.eq addressed chunk hashOf]
      exact inside
    · intro chunk member
      obtain ⟨visit, visited, rfl⟩ := List.mem_map.mp member
      obtain ⟨data, held⟩ := ended.held visit visited
      simp only [held.content, Option.getD_some]
      exact ⟨held.hashOf, held.stored⟩
    · rw [keys, ← seen]
      exact sound.distinct
    · rw [tallies]
      exact ended.reports
    · rw [tallies]
      exact ended.total

theorem sample_addressed : ContentAddressed sampleFormat sampleSource sampleDestination := by
  intro hash mine theirs present found _ _
  simp only [sampleDestination] at present
  split at present
  · next same =>
      rw [same] at found
      cases present
      cases found
      rfl
  · cases present

theorem clone_complete_sample :
    ∃ visited, Complete sampleFormat sampleSource sampleDestination ⟨0, 0, 0, 0⟩ [0, 3]
      ⟨[(2, [1, 3]), (1, [0])], [2, 1], ⟨2, 3, 1, 3⟩, [⟨0, 0, 1, 3⟩, ⟨1, 2, 1, 3⟩, ⟨2, 3, 1, 3⟩]⟩ visited :=
  clone_complete sampleFormat sampleSource sampleDestination sample_addressed true true ⟨0, 0, 0, 0⟩ [0, 3] _
    (by decide +kernel)

end RusqDoltlite.Sync

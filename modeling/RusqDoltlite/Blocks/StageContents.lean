import RusqDoltlite.Blocks.Contents

/-! Staging moves blocks from the cache to the store under another name. It draws no name and
changes no byte: a batch that is staged without a fault leaves the cache and the store with
the reference they had. -/

namespace RusqDoltlite.Blocks

open Effects Session

variable {Hash : Type}

theorem contentName_cases [BlockDigest] (name : BlockId) (bytes : Bytes) :
    contentName name bytes = name ∨
      (contentName name bytes).take 16 = BlockDigest.md5 bytes := by
  unfold contentName
  split
  · right
    have length := BlockDigest.md5_length bytes
    rw [List.take_append_of_le_length (by omega), List.take_of_length_le (by omega)]
  · exact .inl rfl

variable {db : ManifestDb} {entry : CacheEntry} {place : Place} {name : BlockId} {ledger : Ledger}
  {flight : List Nat} {prepared : PreparedItem} {done rest : List PreparedItem} {item : StageItem}
  {session : Bool}

namespace Vfs

variable {vfs : Vfs Hash}

theorem manifestWrite_get (nameBytes : Nat) (spare : List BlockId) {pos : Nat} (name : BlockId)
    (within : pos ≤ db.blkLocal.length) (other : Nat) :
    (manifestWrite nameBytes db spare pos name).1.blkLocal[other]? =
      if other = pos then some name else db.blkLocal[other]? := by
  have length := manifestWrite_length nameBytes db spare pos name
  unfold manifestWrite at length ⊢
  dsimp only at length ⊢
  by_cases same : other = pos
  · rw [if_pos same, same, List.getElem?_set_self]
    rw [List.length_set] at length
    omega
  · rw [if_neg same, List.getElem?_set_ne (Ne.symm same), List.getElem?_take]
    by_cases inside : other < db.blkLocal.length
    · rw [if_pos (by omega), List.getElem?_append_left inside]
    · rw [if_neg (by omega), List.getElem?_eq_none (by omega)]

theorem database_nameBlock (container : String) (dbId : Nat) :
    (vfs.nameBlock place name).database container dbId =
      if container = place.container ∧ dbId = place.dbId then
        (vfs.database container dbId).map fun db =>
          (manifestWrite name.length db (vfs.spare place.container place.dbId) place.pos name).1
      else vfs.database container dbId := by
  have kept : ∀ db : ManifestDb, (manifestWrite name.length db
      (vfs.spare place.container place.dbId) place.pos name).1.dbId = db.dbId := fun _ => rfl
  exact database_setDatabase kept

theorem mapped_nameBlock (known : vfs.database place.container place.dbId = some db)
    (within : place.pos ≤ db.blkLocal.length) (other : Place) :
    (vfs.nameBlock place name).mapped other =
      if other = place then some name else vfs.mapped other := by
  unfold mapped
  rw [database_nameBlock]
  by_cases here : other.container = place.container ∧ other.dbId = place.dbId
  · rw [if_pos here, here.1, here.2, known]
    have found := manifestWrite_get name.length (vfs.spare place.container place.dbId) name within
      other.pos
    have apart : other = place ↔ other.pos = place.pos := by
      constructor
      · exact fun same => by rw [same]
      · intro same
        cases other
        cases place
        simp_all
    simp only [Option.map_some, Option.bind_some, found, apart]
  · rw [if_neg here, if_neg]
    rintro rfl
    exact here ⟨rfl, rfl⟩

theorem fetchable_nameBlock (other : Place) (generation : BlockId) :
    (vfs.nameBlock place name).Fetchable other generation ↔ vfs.Fetchable other generation := by
  have ledger : (vfs.nameBlock place name).ledger = vfs.ledger := rfl
  unfold Fetchable
  rw [database_nameBlock, ledger]
  split
  · cases vfs.database other.container other.dbId with
    | none => simp
    | some db => simp [manifestWrite]
  · rfl

theorem database_of_mapped (here : vfs.mapped place = some name) :
    ∃ db, vfs.database place.container place.dbId = some db ∧
      place.pos < db.blkLocal.length := by
  obtain ⟨db, known, found⟩ := Option.bind_eq_some_iff.mp here
  exact ⟨db, known, (List.getElem?_eq_some_iff.mp found).1⟩

theorem length_nameBlock {container : String} {dbId : Nat} {after : ManifestDb}
    (known : (vfs.nameBlock place name).database container dbId = some after) :
    ∃ db, vfs.database container dbId = some db ∧ db.blkLocal.length ≤ after.blkLocal.length := by
  rw [database_nameBlock] at known
  split at known
  · obtain ⟨db, there, rfl⟩ := Option.map_eq_some_iff.mp known
    refine ⟨db, there, ?_⟩
    rw [manifestWrite_length]
    exact le_max_left _ _
  · exact ⟨after, known, le_rfl⟩

/-- A place has got another name, and an entry of that name has taken the place of the one in
its slot. -/
structure Renamed (before : Vfs Hash) (place : Place) (entry : CacheEntry) (after : Vfs Hash) :
    Prop where
  mapped : ∀ other, after.mapped other =
    if other = place then some entry.name else before.mapped other
  hash : after.hash = entry :: before.hash.filter fun other => other.slot ≠ entry.slot
  unused : after.unused = before.unused
  slots : after.slots = before.slots
  slotBytes : after.slotBytes = before.slotBytes
  inFile : after.inFile = before.inFile
  szBlk : after.szBlk = before.szBlk
  ledger : after.ledger = before.ledger
  session : ∀ container, (after.containers container).sessionId =
    (before.containers container).sessionId
  context : ∀ container, (after.containers container).context = (before.containers container).context
  fetchable : ∀ other generation, after.Fetchable other generation ↔
    before.Fetchable other generation
  length : ∀ container dbId db, after.database container dbId = some db →
    ∃ old, before.database container dbId = some old ∧ old.blkLocal.length ≤ db.blkLocal.length

namespace Renamed

variable {after : Vfs Hash}

theorem mem_hash (renamed : vfs.Renamed place entry after) (other : CacheEntry) :
    other ∈ after.hash ↔ other = entry ∨ other ∈ vfs.hash ∧ other.slot ≠ entry.slot := by
  rw [renamed.hash]
  simp

theorem nodup (renamed : vfs.Renamed place entry after)
    (distinct : (vfs.hash.map CacheEntry.slot ++ vfs.unused).Nodup) (free : entry.slot ∉ vfs.unused) :
    (after.hash.map CacheEntry.slot ++ vfs.unused).Nodup := by
  rw [renamed.hash]
  apply List.nodup_cons.mpr
  refine ⟨?_, List.Nodup.sublist
    (List.Sublist.append_right (List.Sublist.map _ List.filter_sublist) _) distinct⟩
  intro there
  rcases List.mem_append.mp there with there | there
  · obtain ⟨other, kept, same⟩ := List.mem_map.mp there
    have differs := (List.mem_filter.mp kept).2
    simp [same] at differs
  · exact free there

end Renamed

theorem renamed_nameBlock {after : Vfs Hash} (known : vfs.database place.container place.dbId = some db)
    (within : place.pos ≤ db.blkLocal.length)
    (hash : after = { vfs.nameBlock place entry.name with
      hash := entry :: vfs.hash.filter fun other => other.slot ≠ entry.slot }) :
    vfs.Renamed place entry after := by
  subst hash
  exact {
    mapped := mapped_nameBlock known within
    hash := rfl
    unused := rfl
    slots := rfl
    slotBytes := rfl
    inFile := rfl
    szBlk := rfl
    ledger := rfl
    session := fun _ => sessionId_setDatabase _
    context := fun _ => context_setDatabase _
    fetchable := fetchable_nameBlock
    length := fun _ _ _ => length_nameBlock }

end Vfs

variable [DecidableEq Hash] [Digest Hash] [BlockDigest] {naming : Naming} {reference : Reference}
  {world : World Hash}

def Reference.ChangedAt (szBlk : Nat) (place : Place) (before after : Reference) : Prop :=
  ∀ container dbId i, after container dbId i = before container dbId i ∨
    container = place.container ∧ dbId = place.dbId ∧ i / szBlk = place.pos

omit [BlockDigest] in
theorem Reference.ChangedAt.block {szBlk : Nat} {other : Place} {before after : Reference}
    (changed : Reference.ChangedAt szBlk place before after) (apart : other ≠ place) :
    after.block szBlk other = before.block szBlk other := by
  apply List.map_congr_left
  intro i member
  rcases changed other.container other.dbId (other.pos * szBlk + i) with same | ⟨container, id, pos⟩
  · exact same
  · have inside : i < szBlk := List.mem_range.mp member
    rw [Nat.mul_comm, Nat.mul_add_div (by omega), Nat.div_eq_of_lt inside, Nat.add_zero] at pos
    cases other
    cases place
    simp_all

theorem Own.renamed {other : CacheEntry} {home : Place}
    {after : Vfs Hash} {events : List BlockEvent} (own : Own naming world other home)
    (renamed : world.vfs.Renamed place entry after) (elsewhere : home ≠ place)
    (differs : other.name ≠ entry.name) :
    Own naming { world with vfs := after, events := events } other home := by
  refine ⟨own.drawn, own.owner, ?_, ?_, ?_, own.unstored⟩
  · dsimp only
    rw [renamed.mapped, if_neg elsewhere]
    exact own.mapped
  · intro another here
    dsimp only at here
    rw [renamed.mapped] at here
    split at here
    · exact absurd (Option.some.inj here).symm differs
    · exact own.alone another here
  · intro another present called
    rcases (renamed.mem_hash another).mp present with rfl | ⟨before, _⟩
    · exact absurd called.symm differs
    · exact own.single another before called

omit [DecidableEq Hash] [Digest Hash] [BlockDigest] in
/-- A name that stood for one block does so again, if that is the block of the place where it is the new one. -/
theorem Vfs.Renamed.holds {vfs after : Vfs Hash} {before later : Reference} {name : BlockId} {bytes : Bytes}
    (renamed : vfs.Renamed place entry after) (changed : Reference.ChangedAt vfs.szBlk place before later)
    (holds : ∀ other, vfs.mapped other = some name → bytes = before.block vfs.szBlk other)
    (clash : name = entry.name → bytes = later.block vfs.szBlk place) (other : Place)
    (here : after.mapped other = some name) : bytes = later.block vfs.szBlk other := by
  rw [renamed.mapped] at here
  split at here
  · rename_i same
    rw [same]
    exact clash (Option.some.inj here).symm
  · rename_i elsewhere
    rw [changed.block elsewhere]
    exact holds other here

namespace Sound

variable (sound : Sound naming reference flight out world)

include sound in
theorem eq_of_slot {first second : CacheEntry}
    (one : first ∈ world.vfs.hash) (other : second ∈ world.vfs.hash)
    (same : first.slot = second.slot) : first = second :=
  List.inj_on_of_nodup_map (List.nodup_append.mp sound.distinct).1 one other same

include sound in
theorem slot_free (member : entry ∈ world.vfs.hash) : entry.slot ∉ world.vfs.unused := by
  obtain ⟨_, _, apart⟩ := List.nodup_append.mp sound.distinct
  exact fun there => apart _ (List.mem_map.mpr ⟨entry, member, rfl⟩) _ there rfl

include sound in
/-- What is left to show of a renamed entry: that it holds the block of its place, and that its name
stands for nothing else. -/
theorem renamed {later : Reference} {flying : List Nat} {after : Vfs Hash} {events : List BlockEvent}
    (renamed : world.vfs.Renamed place entry after)
    (changed : Reference.ChangedAt world.vfs.szBlk place reference later)
    (flies : flight ⊆ flying) (grows : drawnNames world.events ⊆ drawnNames events)
    (bound : entry.slot < world.vfs.slots) (free : entry.slot ∉ world.vfs.unused)
    (ready : some entry.slot = out ∨ entry.valid = true ∧ world.vfs.inFile entry.slot = true)
    (cached : some entry.slot = out ∨ naming.Fits entry.name (world.vfs.slotBytes entry.slot) ∧
      ∀ another, after.mapped another = some entry.name →
        world.vfs.slotBytes entry.slot = later.block world.vfs.szBlk another)
    (clash : ∀ bytes, naming.Fits entry.name bytes → (world.blocks entry.name = some bytes ∨
      ∃ other ∈ world.vfs.hash, other.slot ≠ entry.slot ∧ other.name = entry.name) →
        bytes = later.block world.vfs.szBlk place)
    (named : naming.Fits entry.name (later.block world.vfs.szBlk place) ∧
      naming.occurs (later.block world.vfs.szBlk place))
    (isDirty : entry.dirty = true) (owner : entry.owner = some place)
    (replaced : ∀ other ∈ world.vfs.hash, other.slot = entry.slot → other.owner = some place)
    (dirty : entry.slot ∈ flying ∧ naming.Foreseen entry.name ∨
      Own naming { world with vfs := after, events := events } entry place)
    (others : ∀ other ∈ world.vfs.hash, other.slot ≠ entry.slot → other.dirty = true → ∀ home,
      Own naming world other home → home ≠ place ∧ other.name ≠ entry.name)
    (known : entry.name ∈ naming.drawn → entry.name ∈ drawnNames events) :
    Sound naming later flying out { world with vfs := after, events := events } := by
  have mapped := renamed.mapped
  have hash := renamed.mem_hash
  refine { quiet := sound.quiet, arrivals := sound.arrivals, bound := ?bound, positive := ?positive,
           slots := ?slots, unused := ?unused, taken := ?taken, distinct := ?distinct, ready := ?ready,
           cached := ?cached, stored := ?stored, named := ?named, dirty := ?dirty, known := ?known,
           zeros := ?zeros, sequences := ?sequences }
  all_goals dsimp only
  case bound =>
    intro container session
    rw [renamed.session] at session
    rw [renamed.context]
    exact sound.bound container session
  case positive =>
    rw [renamed.szBlk]
    exact sound.positive
  case slots =>
    intro other there
    rw [renamed.slots]
    rcases (hash other).mp there with rfl | ⟨old, _⟩
    · exact bound
    · exact sound.slots other old
  case unused =>
    rw [renamed.slots, renamed.unused]
    exact sound.unused
  case taken =>
    rw [renamed.slots, renamed.unused]
    exact sound.taken
  case distinct =>
    rw [renamed.unused]
    exact renamed.nodup sound.distinct free
  case ready =>
    intro other there
    rw [renamed.inFile]
    rcases (hash other).mp there with rfl | ⟨old, _⟩
    · exact ready
    · exact sound.ready other old
  case cached =>
    intro other there
    rw [renamed.slotBytes, renamed.szBlk]
    rcases (hash other).mp there with rfl | ⟨old, apart⟩
    · exact cached
    · refine (sound.cached other old).imp_right ?_
      rintro ⟨fits, holds⟩
      refine ⟨fits, renamed.holds changed holds fun called => ?_⟩
      exact clash _ (called ▸ fits) (.inr ⟨other, old, apart, called⟩)
  case stored =>
    intro key bytes there
    obtain ⟨fits, holds⟩ := sound.stored key bytes there
    rw [renamed.szBlk]
    exact ⟨fits, renamed.holds changed holds fun called => clash bytes (called ▸ fits) (.inl (called ▸ there))⟩
  case named =>
    intro another key here
    rw [renamed.szBlk]
    rw [mapped] at here
    split at here
    · rename_i same
      cases here
      rw [same]
      exact ⟨named.1, named.2, .inl ⟨entry, (hash entry).mpr (.inl rfl), rfl, isDirty, owner⟩⟩
    · rename_i elsewhere
      rw [changed.block elsewhere]
      obtain ⟨fits, occurs, held⟩ := sound.named another key here
      refine ⟨fits, occurs, held.imp ?_ fun both => ⟨both.1, (renamed.fetchable _ _).mpr both.2⟩⟩
      rintro ⟨other, old, called, dirty, theirs⟩
      refine ⟨other, (hash other).mpr (.inr ⟨old, ?_⟩), called, dirty, theirs⟩
      intro slot
      exact elsewhere (Option.some.inj (theirs.symm.trans (replaced other old slot)))
  case dirty =>
    intro other there dirtyThere
    rcases (hash other).mp there with rfl | ⟨old, apart⟩
    · exact dirty.imp_right fun own => ⟨place, own⟩
    · refine (sound.dirty other old dirtyThere).imp (fun both => ⟨flies both.1, both.2⟩) ?_
      rintro ⟨home, theirs⟩
      obtain ⟨elsewhere, differs⟩ := others other old apart dirtyThere home theirs
      exact ⟨home, theirs.renamed renamed elsewhere differs⟩
  case known =>
    intro key drawn used
    by_cases same : key = entry.name
    · exact same ▸ known (same ▸ drawn)
    · apply grows (sound.known key drawn _)
      rcases used with stored | ⟨other, present, called⟩ | ⟨another, here⟩
      · exact .inl stored
      · rcases (hash other).mp present with rfl | ⟨old, _⟩
        · exact absurd called.symm same
        · exact .inr (.inl ⟨other, old, called⟩)
      · rw [mapped] at here
        split at here
        · exact absurd (Option.some.inj here).symm same
        · exact .inr (.inr ⟨another, here⟩)
  case zeros =>
    intro container dbId db there i beyond
    rw [renamed.szBlk] at beyond
    rcases changed container dbId i with same | ⟨rfl, rfl, pos⟩
    · rw [same]
      obtain ⟨old, before, longer⟩ := renamed.length container dbId db there
      exact sound.zeros container dbId old before i ((Nat.mul_le_mul_right _ longer).trans beyond)
    · have here : after.mapped place = some entry.name := by rw [mapped, if_pos rfl]
      obtain ⟨found, again, inside⟩ := Vfs.database_of_mapped here
      rw [there] at again
      cases again
      have within := (Nat.div_lt_iff_lt_mul sound.positive).mp (pos ▸ inside)
      omega
  case sequences =>
    rw [renamed.ledger]
    exact sound.sequences

theorem publishName (sound : Sound naming reference flight none world) (member : entry ∈ world.vfs.hash)
    (dirty : entry.dirty = true) (owned : Own naming world entry place)
    (content : name = contentName entry.name (world.vfs.slotBytes entry.slot)) {after : Vfs Hash}
    (renamed : world.vfs.Renamed place { entry with name := name } after) :
    Sound naming reference (entry.slot :: flight) none { world with vfs := after } := by
  obtain ⟨fits, holds⟩ := (sound.cached entry member).resolve_left (by simp)
  obtain ⟨valid, inFile⟩ := (sound.ready entry member).resolve_left (by simp)
  have block := holds place owned.mapped
  obtain ⟨_, occurs, _⟩ := sound.named place entry.name owned.mapped
  rw [← block] at occurs
  -- the new name is the old one, which nothing else has, or a digest, which fits its block
  have fresh : naming.Fits name (world.vfs.slotBytes entry.slot) := by
    rw [content]
    exact Naming.fits_contentName occurs fits
  have digest : ∀ bytes, naming.Fits name bytes → name ≠ entry.name →
      bytes = world.vfs.slotBytes entry.slot := by
    intro bytes fits changed
    rcases contentName_cases entry.name (world.vfs.slotBytes entry.slot) with same | same
    · exact absurd (content.trans same) changed
    · exact fits _ occurs (content ▸ same)
  have undrawn : name ∈ naming.drawn → name = entry.name := by
    intro drawn
    by_contra changed
    rcases contentName_cases entry.name (world.vfs.slotBytes entry.slot) with same | same
    · exact changed (content.trans same)
    · exact naming.random name drawn _ occurs (content ▸ same)
  have other_name : ∀ other ∈ world.vfs.hash, other.slot ≠ entry.slot → other.name ≠ entry.name := by
    intro other there apart called
    exact apart (congrArg CacheEntry.slot (owned.single other there called))
  have free : entry.slot ∉ world.vfs.unused := sound.slot_free member
  refine sound.renamed renamed (fun _ _ _ => .inl rfl) (List.subset_cons_self _ _) (List.Subset.refl _)
    (sound.slots entry member) free (.inr ⟨valid, inFile⟩) (.inr ⟨fresh, ?_⟩) ?_
    (block ▸ ⟨fresh, occurs⟩) dirty owned.owner ?_ (.inl ⟨List.mem_cons_self, ?_⟩) ?_ ?_
  · intro another here
    rw [renamed.mapped] at here
    split at here
    · rename_i same
      rw [same]
      exact block
    · rename_i elsewhere
      obtain ⟨fits, _⟩ := sound.named another name here
      refine (digest _ fits ?_).symm
      rintro rfl
      exact elsewhere (owned.alone another here)
  · intro bytes fits used
    rw [← block]
    refine digest bytes fits fun kept => ?_
    rcases used with there | ⟨other, old, apart, called⟩
    · rw [kept, owned.unstored] at there
      cases there
    · exact other_name other old apart (called.trans kept)
  · intro other old slot
    rw [sound.eq_of_slot old member slot]
    exact owned.owner
  · rw [content]
    exact Naming.foreseen_contentName occurs owned.drawn
  · intro other old apart _ home theirs
    have differs := other_name other old apart
    constructor
    · rintro rfl
      exact differs (Option.some.inj (theirs.mapped.symm.trans owned.mapped))
    · intro (same : other.name = name)
      exact differs (same.trans (undrawn (same ▸ theirs.drawn)))
  · intro drawn
    exact sound.known name drawn (.inr (.inl ⟨entry, member, (undrawn drawn).symm⟩))

include sound in
theorem record {event : BlockEvent} (plain : drawnNames (event :: world.events) = drawnNames world.events) :
    Sound naming reference flight out { world with events := event :: world.events } :=
  { sound with
    dirty := fun entry member dirty =>
      (sound.dirty entry member dirty).imp id fun owned => owned.imp fun _ own => { own with }
    known := fun name drawn used => plain ▸ sound.known name drawn used }

end Sound

/-- A block that has been given its content name and is not staged yet. -/
structure Flying (reference : Reference) (flight : List Nat) (world : World Hash)
    (prepared : PreparedItem) : Prop where
  flight : prepared.item.entry.slot ∈ flight
  entry : ∃ entry ∈ world.vfs.hash, entry.slot = prepared.item.entry.slot ∧
    entry.name = prepared.name ∧ entry.dirty = true ∧ entry.owner = some prepared.item.place
  mapped : world.vfs.mapped prepared.item.place = some prepared.name
  bytes : prepared.bytes = reference.block world.vfs.szBlk prepared.item.place

namespace Sound

theorem store (sound : Sound naming reference flight none world)
    (flying : Flying reference flight world prepared) :
    Sound naming reference flight none { world with
      blocks := fun other => if other = prepared.name then some prepared.bytes
        else world.blocks other } := by
  obtain ⟨entry, member, slot, called, dirty, owner⟩ := flying.entry
  obtain ⟨_, holds⟩ := (sound.cached entry member).resolve_left (by simp)
  have block := holds prepared.item.place (called ▸ flying.mapped)
  obtain ⟨fits, _, _⟩ := sound.named _ _ flying.mapped
  refine { sound with stored := ?_, named := ?_, dirty := ?_, known := ?_ }
  · intro name bytes there
    dsimp only at there
    split at there
    · rename_i same
      cases there
      rw [same, flying.bytes]
      refine ⟨fits, ?_⟩
      intro place here
      rw [← called] at here
      exact block.symm.trans (holds place here)
    · exact sound.stored name bytes there
  · intro place name here
    obtain ⟨fits, occurs, held⟩ := sound.named place name here
    refine ⟨fits, occurs, held.imp id fun both => ⟨?_, both.2⟩⟩
    dsimp only
    split
    · rfl
    · exact both.1
  · intro other there isDirty
    rcases sound.dirty other there isDirty with flies | ⟨place, owned⟩
    · exact .inl flies
    · by_cases same : other.name = prepared.name
      · left
        have equal : entry = other := owned.single entry member (called.trans same.symm)
        rw [← equal, slot]
        exact ⟨flying.flight, .inl (equal ▸ owned.drawn)⟩
      · refine .inr ⟨place, { owned with unstored := ?_ }⟩
        dsimp only
        rw [if_neg same]
        exact owned.unstored
  · intro name drawn used
    apply sound.known name drawn
    rcases used with there | others
    · dsimp only at there
      split at there
      · rename_i same
        exact .inr (.inl ⟨entry, member, called.trans same.symm⟩)
      · exact .inl there
    · exact .inr others

end Sound

section

omit [DecidableEq Hash] [Digest Hash] [BlockDigest]

variable
  (sequences : ∀ row ∈ ledger.staged ++ ledger.gc, row.sequence ≤ ledger.sequence row.place.container)

include sequences in
/-- A new row is live: its number is higher than that of any tombstone. -/
theorem Ledger.find_put_self : ((ledger.put place name).find place name).isSome = true := by
  unfold Ledger.find Ledger.put
  rw [List.find?_isSome]
  refine ⟨_, List.mem_cons_self, ?_⟩
  simp only [decide_eq_true_eq, true_and]
  rintro ⟨dead, member, there, _, same⟩
  have bound := sequences dead (List.mem_append_right _ member)
  rw [there, same] at bound
  omega

include sequences in
theorem Ledger.find_put_of_find {other : Place} {generation : BlockId}
    (live : (ledger.find other generation).isSome = true) :
    ((ledger.put place name).find other generation).isSome = true := by
  by_cases same : other = place ∧ generation = name
  · rw [same.1, same.2]
    exact Ledger.find_put_self sequences
  · unfold Ledger.find Ledger.put at *
    rw [List.find?_isSome] at live ⊢
    obtain ⟨row, member, found⟩ := live
    refine ⟨row, List.mem_cons_of_mem _ (List.mem_filter.mpr ⟨member, ?_⟩), found⟩
    simp only [decide_eq_true_eq] at found ⊢
    rintro ⟨here, called⟩
    exact same ⟨found.1.symm.trans here, found.2.1.symm.trans called⟩

include sequences in
theorem Ledger.sequence_put :
    ∀ row ∈ (ledger.put place name).staged ++ (ledger.put place name).gc,
      row.sequence ≤ (ledger.put place name).sequence row.place.container := by
  intro row member
  have grown : ∀ container, ledger.sequence container ≤
      (ledger.put place name).sequence container := by
    intro container
    dsimp only [Ledger.put]
    split
    · rename_i same
      rw [same]
      exact Nat.le_succ _
    · exact le_rfl
  have cases : row = ⟨place, name, name, ledger.sequence place.container + 1⟩ ∨
      row ∈ ledger.staged ++ ledger.gc := by
    rcases List.mem_append.mp member with there | there
    · rcases List.mem_cons.mp there with rfl | kept
      · exact .inl rfl
      · exact .inr (List.mem_append_left _ (List.mem_filter.mp kept).1)
    · exact .inr (List.mem_append_right _ there)
  rcases cases with rfl | old
  · simp [Ledger.put]
  · exact (sequences row old).trans (grown _)

end

namespace Sound

variable {out : Option Nat}

theorem stagedPut (sound : Sound naming reference flight out world) (place : Place)
    (name : BlockId) :
    Sound naming reference flight out { world with vfs := world.vfs.stagedPut place name } := by
  refine { sound with
    named := ?_
    dirty := fun entry member dirty =>
      (sound.dirty entry member dirty).imp id fun owned => owned.imp fun _ own => { own with }
    sequences := Ledger.sequence_put sound.sequences }
  intro other key here
  obtain ⟨fits, occurs, held⟩ := sound.named other key here
  refine ⟨fits, occurs, held.imp id fun both => ⟨both.1, both.2.imp id ?_⟩⟩
  exact Ledger.find_put_of_find sound.sequences

theorem becomeClean (sound : Sound naming reference flight none world) (slot : Nat) (staged : Bool)
    (held : ∀ entry ∈ world.vfs.hash, entry.slot = slot → ∀ place, entry.owner = some place →
      world.vfs.mapped place = some entry.name →
        (world.blocks entry.name).isSome = true ∧ world.vfs.Fetchable place entry.name)
    (rest : List Nat) (remaining : ∀ other ∈ flight, other = slot ∨ other ∈ rest) :
    Sound naming reference rest none
      { world with vfs := world.vfs.setEntry slot fun entry =>
          { entry with staged := staged, dirty := false } } := by
  have mapSlot : ((world.vfs.setEntry slot fun entry =>
      { entry with staged := staged, dirty := false }).hash.map CacheEntry.slot) =
      world.vfs.hash.map CacheEntry.slot := by
    simp only [Vfs.setEntry, List.map_map]
    apply List.map_congr_left
    intro other _
    dsimp only [Function.comp_apply]
    split <;> rfl
  have back : ∀ other ∈ (world.vfs.setEntry slot fun entry =>
      { entry with staged := staged, dirty := false }).hash, ∃ old ∈ world.vfs.hash,
      other.slot = old.slot ∧ other.name = old.name ∧ other.valid = old.valid ∧
      (old.slot ≠ slot → other = old) ∧ (other.dirty = true → old.slot ≠ slot) := by
    intro other there
    obtain ⟨old, present, rfl⟩ := List.mem_map.mp there
    refine ⟨old, present, ?_⟩
    split
    · rename_i same
      exact ⟨rfl, rfl, rfl, fun apart => absurd same apart, by simp⟩
    · rename_i apart
      exact ⟨rfl, rfl, rfl, fun _ => rfl, fun _ => apart⟩
  have forth : ∀ old ∈ world.vfs.hash, old.slot ≠ slot →
      old ∈ (world.vfs.setEntry slot fun entry =>
        { entry with staged := staged, dirty := false }).hash := by
    intro old present apart
    exact List.mem_map.mpr ⟨old, present, by rw [if_neg apart]⟩
  refine { sound with
    slots := ?_, distinct := ?_, ready := ?_, cached := ?_, named := ?_, dirty := ?_, known := ?_ }
  · intro other there
    obtain ⟨old, present, same, _⟩ := back other there
    rw [same]
    exact sound.slots old present
  · dsimp only
    rw [mapSlot]
    exact sound.distinct
  · intro other there
    obtain ⟨old, present, same, _, valid, _⟩ := back other there
    rw [same, valid]
    exact sound.ready old present
  · intro other there
    obtain ⟨old, present, same, name, _⟩ := back other there
    rw [same, name]
    exact sound.cached old present
  · intro place name here
    obtain ⟨fits, occurs, kept⟩ := sound.named place name here
    refine ⟨fits, occurs, ?_⟩
    rcases kept with ⟨other, present, called, dirty, theirs⟩ | kept
    · by_cases same : other.slot = slot
      · -- the block that becomes clean is found in the store from now on
        rw [← called] at here
        rw [← called]
        exact .inr (held other present same place theirs here)
      · exact .inl ⟨other, forth other present same, called, dirty, theirs⟩
    · exact .inr kept
  · intro other there dirty
    obtain ⟨old, present, _, _, _, same, clean⟩ := back other there
    have apart := clean dirty
    obtain rfl := same apart
    rcases sound.dirty other present dirty with ⟨flies, foreseen⟩ | ⟨place, owned⟩
    · exact .inl ⟨(remaining _ flies).resolve_left apart, foreseen⟩
    · refine .inr ⟨place, { owned with single := ?_ }⟩
      intro another here same
      obtain ⟨before, earlier, _, names, _, kept, _⟩ := back another here
      have equal := owned.single before earlier (names.symm.trans same)
      rw [equal] at kept
      exact kept apart
  · intro name drawn used
    apply sound.known name drawn
    rcases used with there | ⟨other, there, same⟩ | here
    · exact .inl there
    · obtain ⟨old, present, _, names, _⟩ := back other there
      exact .inr (.inl ⟨old, present, names.symm.trans same⟩)
    · exact .inr (.inr here)

theorem settle (sound : Sound naming reference flight none world)
    (flying : Flying reference flight world prepared) (stored : (world.blocks prepared.name).isSome = true)
    (live : (world.vfs.ledger.find prepared.item.place prepared.name).isSome = true)
    (rest : List Nat) (remaining : ∀ slot ∈ flight, slot = prepared.item.entry.slot ∨ slot ∈ rest) :
    Sound naming reference rest none
      { world with vfs := world.vfs.setEntry prepared.item.entry.slot fun entry =>
          { entry with staged := true, dirty := false } } := by
  obtain ⟨entry, member, slot, called, _, owner⟩ := flying.entry
  apply sound.becomeClean prepared.item.entry.slot true _ rest remaining
  intro other there same place theirs _
  obtain rfl := sound.eq_of_slot there member (same.trans slot.symm)
  rw [owner] at theirs
  cases theirs
  rw [called]
  exact ⟨stored, .inr live⟩

theorem flight_mono (sound : Sound naming reference flight out world) {more : List Nat}
    (longer : ∀ slot ∈ flight, slot ∈ more) : Sound naming reference more out world :=
  { sound with
    dirty := fun entry member dirty =>
      (sound.dirty entry member dirty).imp (fun both => ⟨longer _ both.1, both.2⟩) id }

theorem readSlot_meets (sound : Sound naming reference flight out world) {slot : Nat}
    (inside : world.vfs.inFile slot = true) {success : Bytes → World Hash → Prop}
    {failure : Err → World Hash → Prop} :
    Meets (readSlot slot : VfsM Hash Bytes) world success failure ↔
      success (world.vfs.slotBytes slot) world.next := by
  have there : world.next.vfs.inFile slot = true := inside
  unfold readSlot
  simp only [Meets.bind, effect_iff (sound.quiet 0), Meets.get, Meets.require, there, if_true,
    Meets.pure]
  rfl

end Sound

structure Picked (world : World Hash) (item : StageItem) : Prop where
  member : item.entry ∈ world.vfs.hash
  dirty : item.entry.dirty = true
  owner : item.entry.owner = some item.place

def slotsOf (items : List PreparedItem) : List Nat := items.map fun prepared => prepared.item.entry.slot

/-- The blocks in `done` have got their content names, those in `rest` have not. -/
structure Preparing (naming : Naming) (reference : Reference) (done : List PreparedItem)
    (rest : List StageItem) (world : World Hash) : Prop where
  sound : Sound naming reference (slotsOf done) none world
  flying : ∀ prepared ∈ done, Flying reference (slotsOf done) world prepared
  picked : ∀ item ∈ rest, Picked world item
  apart : (slotsOf done ++ rest.map fun item => item.entry.slot).Nodup

section

omit [BlockDigest] in
theorem Flying.next (flying : Flying reference flight world prepared) :
    Flying reference flight world.next prepared :=
  { flying with }

theorem Preparing.next {rest : List StageItem} (preparing : Preparing naming reference done rest world) :
    Preparing naming reference done rest world.next where
  sound := preparing.sound.next
  flying prepared member := (preparing.flying prepared member).next
  picked item member := { preparing.picked item member with }
  apart := preparing.apart

theorem Preparing.owned {rest : List StageItem}
    (preparing : Preparing naming reference done (item :: rest) world) :
    Own naming world item.entry item.place := by
  have picked := preparing.picked item List.mem_cons_self
  rcases preparing.sound.dirty _ picked.member picked.dirty with ⟨flying, _⟩ | ⟨place, owned⟩
  · obtain ⟨_, _, apart⟩ := List.nodup_append.mp preparing.apart
    exact absurd rfl (apart _ flying _ List.mem_cons_self)
  · have same : place = item.place := Option.some.inj (owned.owner.symm.trans picked.owner)
    exact same ▸ owned

theorem Preparing.renamed {rest : List StageItem}
    (preparing : Preparing naming reference done (item :: rest) world) (name : BlockId) :
    world.vfs.Renamed item.place { item.entry with name := name }
      (publishName item name world.vfs) := by
  obtain ⟨db, known, inside⟩ := Vfs.database_of_mapped preparing.owned.mapped
  exact Vfs.renamed_nameBlock known inside.le rfl

theorem Preparing.step {rest : List StageItem}
    (preparing : Preparing naming reference done (item :: rest) world)
    (made : prepared = ⟨item, world.vfs.slotBytes item.entry.slot,
      contentName item.entry.name (world.vfs.slotBytes item.entry.slot)⟩) :
    Preparing naming reference (done ++ [prepared]) rest
      { world with vfs := publishName item prepared.name world.vfs } := by
  have picked := preparing.picked item List.mem_cons_self
  have owned := preparing.owned
  have renamed := preparing.renamed prepared.name
  have hash := renamed.mem_hash
  have mapped := renamed.mapped
  dsimp only at hash mapped
  have content : prepared.name =
      contentName item.entry.name (world.vfs.slotBytes item.entry.slot) := by rw [made]
  have slot : prepared.item.entry.slot = item.entry.slot := by rw [made]
  have place : prepared.item.place = item.place := by rw [made]
  have slots : slotsOf (done ++ [prepared]) = slotsOf done ++ [item.entry.slot] := by
    simp [slotsOf, slot]
  obtain ⟨_, _, apart⟩ := List.nodup_append.mp preparing.apart
  have sound := preparing.sound.publishName picked.member picked.dirty owned content renamed
  have block := ((preparing.sound.cached _ picked.member).resolve_left (by simp)).2 _ owned.mapped
  refine ⟨sound.flight_mono ?_, ?_, ?_, ?_⟩
  · rw [slots]
    intro slot member
    rcases List.mem_cons.mp member with rfl | old
    · simp
    · exact List.mem_append_left _ old
  · intro other member
    rw [slots]
    rcases List.mem_append.mp member with old | new
    · have flying := preparing.flying other old
      obtain ⟨entry, there, same, called, dirty, owner⟩ := flying.entry
      have differs : entry.slot ≠ item.entry.slot := by
        rw [same]
        exact apart _ flying.flight _ List.mem_cons_self
      have elsewhere : other.item.place ≠ item.place := by
        intro equal
        have name := flying.mapped
        rw [equal, owned.mapped, ← called] at name
        exact differs (congrArg CacheEntry.slot
          (owned.single entry there (Option.some.inj name).symm))
      refine ⟨List.mem_append_left _ flying.flight,
        ⟨entry, (hash entry).mpr (.inr ⟨there, differs⟩), same, called, dirty, owner⟩, ?_, ?_⟩
      · dsimp only
        rw [mapped, if_neg elsewhere]
        exact flying.mapped
      · dsimp only
        rw [renamed.szBlk]
        exact flying.bytes
    · rw [List.mem_singleton.mp new]
      refine ⟨by rw [slot]; simp, ?_, ?_, ?_⟩
      · refine ⟨_, (hash _).mpr (.inl rfl), slot.symm, rfl, picked.dirty, ?_⟩
        rw [place]
        exact picked.owner
      · dsimp only
        rw [mapped, if_pos place]
      · dsimp only
        rw [renamed.szBlk, place, ← block, made]
  · intro other member
    have before := preparing.picked other (List.mem_cons_of_mem _ member)
    refine { before with member := (hash _).mpr (.inr ⟨before.member, ?_⟩) }
    have nodup := (List.nodup_append.mp preparing.apart).2.1
    have fresh := (List.nodup_cons.mp nodup).1
    intro same
    exact fresh (List.mem_map.mpr ⟨other, member, same⟩)
  · rw [slots, List.append_assoc]
    exact preparing.apart

theorem stagePrepare_meets {rest : List StageItem}
    (preparing : Preparing naming reference done (item :: rest) world) :
    Meets (stagePrepare item : VfsM Hash PreparedItem) world
      (fun prepared after => Preparing naming reference (done ++ [prepared]) rest after)
      (fun _ _ => False) := by
  have picked := preparing.picked item List.mem_cons_self
  obtain ⟨_, inside⟩ := (preparing.sound.ready _ picked.member).resolve_left (by simp)
  have prepared := preparing.next.step rfl
  unfold stagePrepare protectBlock
  rw [Meets.bind, preparing.sound.readSlot_meets inside]
  simp only [onVfs, Meets.bind, Meets.get, Meets.modify, Meets.when, Meets.require, Meets.pure]
  split
  · rename_i session
    rw [if_pos (preparing.next.sound.bound _ session)]
    exact (effect_iff (prepared.sound.quiet 0)).mpr prepared.next
  · exact prepared

/-- The blocks of a batch have their names, and those in `done` are stored. -/
structure Storing (naming : Naming) (reference : Reference) (flight : List Nat)
    (done rest : List PreparedItem) (world : World Hash) : Prop where
  sound : Sound naming reference flight none world
  flying : ∀ prepared ∈ done ++ rest, Flying reference flight world prepared
  stored : ∀ prepared ∈ done, (world.blocks prepared.name).isSome = true

theorem Storing.next (storing : Storing naming reference flight done rest world) :
    Storing naming reference flight done rest world.next where
  sound := storing.sound.next
  flying prepared member := (storing.flying prepared member).next
  stored prepared member := by
    obtain ⟨bytes, there⟩ := Option.isSome_iff_exists.mp (storing.stored prepared member)
    simp [World.next, there]

theorem Storing.record (storing : Storing naming reference flight done rest world) {event : BlockEvent}
    (plain : drawnNames (event :: world.events) = drawnNames world.events) :
    Storing naming reference flight done rest { world with events := event :: world.events } where
  sound := storing.sound.record plain
  flying prepared member := { storing.flying prepared member with }
  stored := storing.stored

theorem Storing.bytes (storing : Storing naming reference flight done rest world)
    (member : prepared ∈ done ++ rest) {bytes : Bytes} (there : world.blocks prepared.name = some bytes) :
    bytes = prepared.bytes := by
  have flying := storing.flying prepared member
  obtain ⟨_, holds⟩ := storing.sound.stored _ _ there
  exact (holds _ flying.mapped).trans flying.bytes.symm

variable (storing : Storing naming reference flight done (prepared :: rest) world)

include storing in
theorem Storing.step :
    Storing naming reference flight (done ++ [prepared]) rest { world with
      blocks := fun other => if other = prepared.name then some prepared.bytes
        else world.blocks other } where
  sound := storing.sound.store (storing.flying prepared (by simp))
  flying other member := by
    have before := storing.flying other (by simpa using member)
    exact { before with }
  stored other member := by
    dsimp only
    split
    · rfl
    · rename_i differs
      rcases List.mem_append.mp member with old | new
      · exact storing.stored other old
      · exact absurd (congrArg PreparedItem.name (List.mem_singleton.mp new)) differs

include storing in
theorem Storing.skip (there : (world.blocks prepared.name).isSome = true) :
    Storing naming reference flight (done ++ [prepared]) rest world where
  sound := storing.sound
  flying other member := storing.flying other (by simpa using member)
  stored other member := by
    rcases List.mem_append.mp member with old | new
    · exact storing.stored other old
    · rw [List.mem_singleton.mp new]
      exact there

omit [BlockDigest] in
theorem putBlock_iff (quiet : (world.choices 0).fault = none) {createOnly : Bool} {bytes : Bytes}
    {success : Unit → World Hash → Prop} {failure : Err → World Hash → Prop} :
    Meets (putBlock createOnly name bytes : VfsM Hash Unit) world success failure ↔
      if createOnly = true ∧ (world.next.blocks name).isSome = true then
        failure ⟨conflict, "object exists"⟩ world.next
      else success () { world.next with
        blocks := fun other => if other = name then some bytes else world.next.blocks other } := by
  unfold putBlock
  simp only [Meets.bind, draw_iff, Meets.get, quiet, Meets.require, Meets.set]
  by_cases conflicts : createOnly = true ∧ (world.next.blocks name).isSome = true
  · rw [if_neg (not_not_intro conflicts), if_pos conflicts]
  · rw [if_pos conflicts, if_neg conflicts]

include storing in
theorem stagePut_meets :
    Meets (stagePut session prepared : VfsM Hash (PreparedItem × Bool)) world
      (fun put after => put.1 = prepared ∧
        Storing naming reference flight (done ++ [prepared]) rest after)
      (fun _ _ => False) := by
  unfold stagePut
  rw [Meets.bind, Meets.attempt, putBlock_iff (storing.sound.quiet 0)]
  split
  · rename_i conflicts
    dsimp only
    rw [if_pos ⟨conflicts.1, rfl⟩]
    exact ⟨rfl, storing.next.skip conflicts.2⟩
  · simp only [Meets.bind, Meets.when, Blocks.record, Meets.modify, Meets.pure]
    split
    · exact ⟨trivial, storing.next.step.record rfl⟩
    · exact ⟨trivial, storing.next.step⟩

theorem stageVerify_meets {put : PreparedItem × Bool}
    (storing : Storing naming reference flight (done ++ put.1 :: rest) [] world) :
    Meets (stageVerify put : VfsM Hash PreparedItem) world
      (fun prepared after => prepared = put.1 ∧
        Storing naming reference flight (done ++ put.1 :: rest) [] after)
      (fun _ _ => False) := by
  obtain ⟨prepared, existing⟩ := put
  have member : prepared ∈ done ++ prepared :: rest := by simp
  obtain ⟨bytes, there⟩ := Option.isSome_iff_exists.mp (storing.next.stored prepared member)
  have same := storing.next.bytes (by simp) there
  unfold stageVerify getBlock
  simp only [Meets.bind, Meets.when, effect_iff (storing.sound.quiet 0), Meets.get, there,
    Meets.pure, Meets.require, if_pos same, Blocks.record, Meets.modify]
  split
  · exact ⟨trivial, storing.next.record rfl⟩
  · exact ⟨trivial, storing⟩

/-- The blocks in `rest` are stored and have no row yet. -/
structure Settling (naming : Naming) (reference : Reference) (rest : List PreparedItem)
    (world : World Hash) : Prop where
  sound : Sound naming reference (slotsOf rest) none world
  flying : ∀ prepared ∈ rest, Flying reference (slotsOf rest) world prepared
  stored : ∀ prepared ∈ rest, (world.blocks prepared.name).isSome = true
  apart : (slotsOf rest).Nodup

theorem Settling.next (settling : Settling naming reference rest world) :
    Settling naming reference rest world.next where
  sound := settling.sound.next
  flying prepared member := (settling.flying prepared member).next
  stored prepared member := by
    obtain ⟨bytes, there⟩ := Option.isSome_iff_exists.mp (settling.stored prepared member)
    simp [World.next, there]
  apart := settling.apart

theorem stageSettle_meets (settling : Settling naming reference (prepared :: rest) world) :
    Meets (stageSettle prepared : VfsM Hash Unit) world
      (fun _ after => Settling naming reference rest after) (fun _ _ => False) := by
  have rowed : Settling naming reference (prepared :: rest)
      { world.next with
        vfs := world.next.vfs.stagedPut prepared.item.place prepared.name } := {
    sound := settling.next.sound.stagedPut _ _
    flying := fun other member => { settling.next.flying other member with }
    stored := settling.next.stored
    apart := settling.apart }
  have found : ((world.next.vfs.ledger.put prepared.item.place prepared.name).find
      prepared.item.place prepared.name).isSome = true :=
    Ledger.find_put_self settling.next.sound.sequences
  have apart := List.nodup_cons.mp settling.apart
  have settled := rowed.next.sound.settle (rowed.next.flying prepared List.mem_cons_self)
    (rowed.next.stored prepared List.mem_cons_self) found (slotsOf rest)
    fun slot member => List.mem_cons.mp member
  unfold stageSettle onVfs
  simp only [Meets.bind, effect_iff (settling.sound.quiet 0), Meets.modify]
  rw [effect_iff (rowed.sound.quiet 0)]
  refine ⟨settled, ?_, ?_, apart.2⟩
  · intro other member
    have flying := rowed.next.flying other (List.mem_cons_of_mem _ member)
    obtain ⟨entry, there, slot, called, dirty, owner⟩ := flying.entry
    have mine : other.item.entry.slot ∈ slotsOf rest := List.mem_map.mpr ⟨other, member, rfl⟩
    refine ⟨mine, ⟨entry, List.mem_map.mpr ⟨entry, there, ?_⟩, slot, called, dirty, owner⟩,
      flying.mapped, flying.bytes⟩
    rw [if_neg]
    rw [slot]
    intro same
    exact apart.1 (List.mem_map.mpr ⟨other, member, same⟩)
  · intro other member
    exact rowed.next.stored other (List.mem_cons_of_mem _ member)

theorem stagePuts_meets {queued : List PreparedItem} (storing : Storing naming reference flight [] queued world) :
    Meets (Act.sift (stagePut session) queued : VfsM Hash _) world
      (fun result after => result.2 = [] ∧
        Storing naming reference flight (result.1.map Prod.fst) [] after ∧
          result.1.map Prod.fst = queued)
      (fun _ _ => False) := by
  have inv : ∀ (done : List (PreparedItem × Bool)) (item : PreparedItem) (rest : List PreparedItem)
      (state : World Hash),
      (Storing naming reference flight (done.map Prod.fst) (item :: rest) state ∧
        done.map Prod.fst ++ item :: rest = queued) →
      Meets (stagePut session item : VfsM Hash _) state
        (fun value after => Storing naming reference flight ((done ++ [value]).map Prod.fst) rest after ∧
          (done ++ [value]).map Prod.fst ++ rest = queued) (fun _ _ => False) := by
    rintro done item rest state ⟨storing, all⟩
    apply (stagePut_meets storing).sure
    rintro put after ⟨rfl, stored⟩
    rw [List.map_append, List.map_singleton]
    exact ⟨stored, by simpa using all⟩
  apply (Meets.sift (fun done rest state =>
    Storing naming reference flight (done.map Prod.fst) rest state ∧
      done.map Prod.fst ++ rest = queued) inv [] queued ⟨storing, rfl⟩).sure
  rintro result after ⟨fine, stored, all⟩
  rw [List.nil_append] at stored all
  exact ⟨fine, stored, by simpa using all⟩

theorem stageVerifies_meets {put : List (PreparedItem × Bool)}
    (storing : Storing naming reference flight (put.map Prod.fst) [] world) :
    Meets (Act.sift stageVerify put : VfsM Hash _) world
      (fun result after => result.2 = [] ∧ result.1 = put.map Prod.fst ∧
        Storing naming reference flight (put.map Prod.fst) [] after)
      (fun _ _ => False) := by
  have inv : ∀ (done : List PreparedItem) (item : PreparedItem × Bool)
      (rest : List (PreparedItem × Bool)) (state : World Hash),
      (Storing naming reference flight (put.map Prod.fst) [] state ∧
        done ++ (item :: rest).map Prod.fst = put.map Prod.fst) →
      Meets (stageVerify item : VfsM Hash _) state
        (fun value after => Storing naming reference flight (put.map Prod.fst) [] after ∧
          (done ++ [value]) ++ rest.map Prod.fst = put.map Prod.fst) (fun _ _ => False) := by
    rintro done item rest state ⟨storing, all⟩
    rw [← all] at storing
    rw [List.map_cons] at storing
    apply (stageVerify_meets storing).sure
    rintro prepared after ⟨rfl, stored⟩
    rw [← List.map_cons, all] at stored
    exact ⟨stored, by simpa using all⟩
  apply (Meets.sift (fun done rest state =>
    Storing naming reference flight (put.map Prod.fst) [] state ∧
      done ++ rest.map Prod.fst = put.map Prod.fst) inv [] put ⟨storing, rfl⟩).sure
  rintro result after ⟨fine, stored, all⟩
  exact ⟨fine, by simpa using all, stored⟩

theorem stageItems_meets {items : List StageItem} (preparing : Preparing naming reference [] items world) :
    Meets (stageItems session items : VfsM Hash Unit) world
      (fun _ after => Sound naming reference [] none after) (fun _ _ => False) := by
  unfold stageItems
  rw [Meets.bind]
  apply (Meets.sift (Preparing naming reference) (fun done item rest state => stagePrepare_meets) []
    items preparing).sure
  rintro ⟨prepared, unprepared⟩ middle ⟨noneUnprepared, ready⟩
  dsimp only at noneUnprepared ready ⊢
  rw [List.nil_append] at ready
  have fenced : Meets (stageFence session prepared : VfsM Hash _) middle
      (fun result after => result = (prepared, []) ∧
        Storing naming reference (slotsOf prepared) [] prepared after) (fun _ _ => False) := by
    have storing : Storing naming reference (slotsOf prepared) [] prepared middle :=
      ⟨ready.sound, ready.flying, by simp⟩
    unfold stageFence
    simp only [Meets.bind, Meets.attempt, Meets.when, Meets.pure,
      effect_iff (ready.sound.quiet 0)]
    split
    · exact ⟨trivial, storing.next⟩
    · exact ⟨trivial, storing⟩
  rw [Meets.bind]
  apply fenced.sure
  rintro _ putting ⟨rfl, storing⟩
  dsimp only
  rw [Meets.bind]
  apply (stagePuts_meets storing).sure
  rintro ⟨put, unput⟩ verifying ⟨noneUnput, stored, all⟩
  dsimp only at noneUnput stored all ⊢
  rw [Meets.bind]
  apply (stageVerifies_meets stored).sure
  rintro ⟨settled, unverified⟩ settling ⟨noneUnverified, same, stored⟩
  dsimp only at noneUnverified same stored ⊢
  have begins : Settling naming reference settled settling := by
    rw [same, all]
    rw [all] at stored
    refine ⟨stored.sound, fun one member => stored.flying one (by simpa using member),
      stored.stored, ?_⟩
    simpa using ready.apart
  rw [Meets.bind]
  have inv : ∀ (done : List Unit) (item : PreparedItem) (rest : List PreparedItem)
      (state : World Hash), Settling naming reference (item :: rest) state →
      Meets (stageSettle item : VfsM Hash Unit) state
        (fun _ after => Settling naming reference rest after) (fun _ _ => False) :=
    fun _ _ _ _ => stageSettle_meets
  apply (Meets.sift (fun _ rest state => Settling naming reference rest state) inv []
    settled begins).sure
  rintro ⟨_, unsettled⟩ ending ⟨noneUnsettled, ended⟩
  dsimp only at noneUnsettled ended ⊢
  rw [noneUnprepared, noneUnput, noneUnverified, noneUnsettled]
  exact ended.sound

omit [BlockDigest] in
theorem stageItem_entries (vfs : Vfs Hash) (choice : Choice Hash) (only : Option String)
    (entries : List CacheEntry) :
    ((entries.filterMap (stageItem vfs choice only)).map StageItem.entry).Sublist entries := by
  induction entries with
  | nil => exact List.Sublist.slnil
  | cons entry rest ih =>
    rw [List.filterMap_cons]
    cases picked : stageItem vfs choice only entry with
    | none => exact ih.cons entry
    | some item =>
      have same := (stageItem_eq_some picked).1
      dsimp only
      rw [List.map_cons, same]
      exact ih.cons_cons entry

omit [BlockDigest] in
theorem stageBatch_nodup {vfs : Vfs Hash} {choice : Choice Hash} {only : Option String}
    (distinct : (vfs.hash.map CacheEntry.slot).Nodup) :
    ((stageBatch vfs choice only).map fun item => item.entry.slot).Nodup := by
  have order := List.perm_insertionSort
    (fun first second => choice.rank first ≤ choice.rank second) vfs.hash
  have sorted := (order.map CacheEntry.slot).nodup_iff.mpr distinct
  have ready := List.Nodup.sublist
    (List.Sublist.map CacheEntry.slot (stageItem_entries vfs choice only _)) sorted
  rw [List.map_map] at ready
  unfold stageBatch
  dsimp only
  split
  · exact List.nodup_nil
  · exact List.Nodup.sublist
      (List.Sublist.map _ ((List.take_sublist _ _).trans List.filter_sublist)) ready

/-- Staging leaves the cache and the store with the reference; that there is nothing to be
staged is its only failure. -/
theorem stageOne_meets (sound : Sound naming reference [] none world) (only : Option String) :
    Meets (stageOne only : VfsM Hash Unit) world
      (fun _ after => Sound naming reference [] none after)
      (fun error after => error.code = .full ∧ Sound naming reference [] none after) := by
  unfold stageOne
  simp only [Meets.bind, draw_iff, Meets.get]
  cases batch : stageBatch world.next.vfs (world.choices 0) only with
  | nil => exact ⟨rfl, sound.next⟩
  | cons first rest =>
    simp only [Meets.bind, effect_iff (sound.next.quiet 0)]
    have preparing : Preparing naming reference [] (first :: rest) world.next.next := by
      refine ⟨sound.next.next, by simp, ?_, ?_⟩
      · intro item member
        obtain ⟨_, entry, there, found⟩ := stageBatch_picked batch member
        obtain ⟨rfl, owner, _, dirty, _⟩ := stageItem_eq_some found
        exact ⟨there, dirty, owner⟩
      · rw [← batch]
        exact stageBatch_nodup (List.nodup_append.mp sound.distinct).1
    apply (stageItems_meets preparing).sure
    exact fun _ _ settled => settled

end

end RusqDoltlite.Blocks

import RusqDoltlite.Blocks.ReadAll

/-! What the blocks hold. The databases of a VFS are compared with a reference: the bytes of
each of them by position. A block is where its name leads, to an entry of the cache or to an
object of the store, and whatever is fetched, evicted, copied or renamed on the way, both
hold the bytes of the reference. -/

namespace RusqDoltlite.Blocks

open Effects Session

abbrev Reference := String → Nat → Nat → UInt8

def Reference.block (reference : Reference) (szBlk : Nat) (place : Place) : Bytes :=
  (List.range szBlk).map fun i => reference place.container place.dbId (place.pos * szBlk + i)

@[simp] theorem Reference.length_block (reference : Reference) (szBlk : Nat) (place : Place) :
    (reference.block szBlk place).length = szBlk := by
  simp [Reference.block]

def Reference.range (reference : Reference) (container : String) (dbId offset amount : Nat) : Bytes :=
  (List.range amount).map fun i => reference container dbId (offset + i)

section

variable {reference : Reference} {container : String} {dbId : Nat}

theorem Reference.range_add (offset first second : Nat) :
    reference.range container dbId offset (first + second) =
      reference.range container dbId offset first ++
        reference.range container dbId (offset + first) second := by
  simp only [Reference.range, List.range_add, List.map_append, List.map_map, Nat.add_assoc]
  rfl

@[simp] theorem Reference.length_range (offset amount : Nat) :
    (reference.range container dbId offset amount).length = amount := by
  simp [Reference.range]

theorem Reference.block_piece {szBlk offset amount : Nat} (within : offset % szBlk + amount ≤ szBlk) :
    ((reference.block szBlk ⟨container, dbId, offset / szBlk⟩).drop (offset % szBlk)).take amount =
      reference.range container dbId offset amount := by
  have whole : reference.block szBlk ⟨container, dbId, offset / szBlk⟩ =
      reference.range container dbId (offset / szBlk * szBlk) (offset % szBlk) ++
        (reference.range container dbId (offset / szBlk * szBlk + offset % szBlk) amount ++
          reference.range container dbId (offset / szBlk * szBlk + offset % szBlk + amount)
            (szBlk - (offset % szBlk + amount))) := by
    rw [← Reference.range_add, ← Reference.range_add,
      show offset % szBlk + (amount + (szBlk - (offset % szBlk + amount))) = szBlk by omega]
    rfl
  rw [whole, List.drop_left' (Reference.length_range _ _), List.take_left' (Reference.length_range _ _),
    Nat.div_add_mod' offset szBlk]

end

/-- What the names of a run are taken to be good for: the blocks that occur in it differ in
their digests, and the names that are drawn differ from one another and from these digests. -/
structure Naming [BlockDigest] where
  occurs : Bytes → Prop
  drawn : List BlockId
  distinct : drawn.Nodup
  injective : ∀ first second, occurs first → occurs second →
    BlockDigest.md5 first = BlockDigest.md5 second → first = second
  random : ∀ name ∈ drawn, ∀ bytes, occurs bytes → name.take 16 ≠ BlockDigest.md5 bytes

def Naming.Fits [BlockDigest] (naming : Naming) (name : BlockId) (bytes : Bytes) : Prop :=
  ∀ block, naming.occurs block → name.take 16 = BlockDigest.md5 block → bytes = block

theorem Naming.fits_of_drawn [BlockDigest] {naming : Naming} {name : BlockId}
    (member : name ∈ naming.drawn) (bytes : Bytes) : naming.Fits name bytes :=
  fun block occurs same => absurd same (naming.random name member block occurs)

/-- The names a run can give: those it draws, and the digests of the blocks that occur. -/
def Naming.Foreseen [BlockDigest] (naming : Naming) (name : BlockId) : Prop :=
  name ∈ naming.drawn ∨ ∃ block, naming.occurs block ∧ name.take 16 = BlockDigest.md5 block

theorem Naming.foreseen_contentName [BlockDigest] {naming : Naming} {name : BlockId}
    {bytes : Bytes} (occurs : naming.occurs bytes) (member : name ∈ naming.drawn) :
    naming.Foreseen (contentName name bytes) := by
  unfold contentName
  split
  · refine .inr ⟨bytes, occurs, ?_⟩
    have length := BlockDigest.md5_length bytes
    rw [List.take_append_of_le_length (by omega), List.take_of_length_le (by omega)]
  · exact .inl member

theorem Naming.fits_contentName [BlockDigest] {naming : Naming} {name : BlockId} {bytes : Bytes}
    (occurs : naming.occurs bytes) (fits : naming.Fits name bytes) :
    naming.Fits (contentName name bytes) bytes := by
  unfold contentName
  split
  · intro block there same
    have length := BlockDigest.md5_length bytes
    rw [List.take_append_of_le_length (by omega), List.take_of_length_le (by omega)] at same
    exact naming.injective bytes block occurs there same
  · exact fits

def drawnNames (events : List BlockEvent) : List BlockId :=
  events.filterMap fun
    | .drew name => some name
    | _ => none

variable {Hash : Type}

namespace Vfs

def mapped (vfs : Vfs Hash) (place : Place) : Option BlockId :=
  (vfs.database place.container place.dbId).bind fun db => db.blkLocal[place.pos]?

/-- Whether a read would look for the block in the store. -/
def Fetchable (vfs : Vfs Hash) (place : Place) (name : BlockId) : Prop :=
  (∃ db, vfs.database place.container place.dbId = some db ∧ place.pos < db.blkOrig.length) ∨
    (vfs.ledger.find place name).isSome = true

def DirtyAt (vfs : Vfs Hash) (place : Place) (name : BlockId) : Prop :=
  ∃ entry ∈ vfs.hash, entry.name = name ∧ entry.dirty = true ∧ entry.owner = some place

end Vfs

variable [DecidableEq Hash] [Digest Hash] [BlockDigest]

def Naming.Foresees (naming : Naming) (world : World Hash) : Prop :=
  drawnNames world.events <:+ naming.drawn

/-- A dirty entry is the only one of its name, and the name is that of one place. -/
structure Own (naming : Naming) (world : World Hash) (entry : CacheEntry) (place : Place) : Prop where
  drawn : entry.name ∈ naming.drawn
  owner : entry.owner = some place
  mapped : world.vfs.mapped place = some entry.name
  alone : ∀ other, world.vfs.mapped other = some entry.name → other = place
  single : ∀ other ∈ world.vfs.hash, other.name = entry.name → other = entry
  unstored : world.blocks entry.name = none

/-- The cache and the store hold the reference. The entries of `flight` are being staged. The
slot that is `out` is in use by the operation itself: no entry has it, or its entry is not
filled yet. -/
structure Sound (naming : Naming) (reference : Reference) (flight : List Nat) (out : Option Nat)
    (world : World Hash) : Prop where
  quiet : ∀ n, (world.choices n).fault = none
  arrivals : ∀ n, ∀ arrival ∈ (world.choices n).arrivals,
    arrival.1 ∉ naming.drawn ∧ naming.Fits arrival.1 arrival.2
  bound : ∀ container, (world.vfs.containers container).sessionId.isSome = true →
    (world.vfs.containers container).context.isSome = true
  positive : 0 < world.vfs.szBlk
  slots : ∀ entry ∈ world.vfs.hash, entry.slot < world.vfs.slots
  unused : ∀ slot ∈ world.vfs.unused, slot < world.vfs.slots
  taken : ∀ slot ∈ out, slot < world.vfs.slots ∧ slot ∉ world.vfs.unused
  distinct : (world.vfs.hash.map CacheEntry.slot ++ world.vfs.unused).Nodup
  ready : ∀ entry ∈ world.vfs.hash, some entry.slot = out ∨
    entry.valid = true ∧ world.vfs.inFile entry.slot = true
  cached : ∀ entry ∈ world.vfs.hash, some entry.slot = out ∨
    naming.Fits entry.name (world.vfs.slotBytes entry.slot) ∧
      ∀ place, world.vfs.mapped place = some entry.name →
        world.vfs.slotBytes entry.slot = reference.block world.vfs.szBlk place
  stored : ∀ name bytes, world.blocks name = some bytes → naming.Fits name bytes ∧
    ∀ place, world.vfs.mapped place = some name → bytes = reference.block world.vfs.szBlk place
  named : ∀ place name, world.vfs.mapped place = some name →
    naming.Fits name (reference.block world.vfs.szBlk place) ∧
      naming.occurs (reference.block world.vfs.szBlk place) ∧
      (world.vfs.DirtyAt place name ∨
        (world.blocks name).isSome = true ∧ world.vfs.Fetchable place name)
  dirty : ∀ entry ∈ world.vfs.hash, entry.dirty = true →
    entry.slot ∈ flight ∧ naming.Foreseen entry.name ∨ ∃ place, Own naming world entry place
  known : ∀ name ∈ naming.drawn, ((world.blocks name).isSome = true ∨
    (∃ entry ∈ world.vfs.hash, entry.name = name) ∨ ∃ place, world.vfs.mapped place = some name) →
      name ∈ drawnNames world.events
  zeros : ∀ container dbId db, world.vfs.database container dbId = some db →
    ∀ i, db.blkLocal.length * world.vfs.szBlk ≤ i → reference container dbId i = 0
  sequences : ∀ row ∈ world.vfs.ledger.staged ++ world.vfs.ledger.gc,
    row.sequence ≤ world.vfs.ledger.sequence row.place.container

namespace Sound

variable {naming : Naming} {reference : Reference} {flight : List Nat} {out : Option Nat}
  {world : World Hash}

/-- Objects other writers create under names of this run hold the same bytes. -/
theorem next (sound : Sound naming reference flight out world) :
    Sound naming reference flight out world.next := by
  have arrived : ∀ name bytes, world.next.blocks name = some bytes →
      world.blocks name = some bytes ∨ world.blocks name = none ∧
        ∃ arrival ∈ (world.choices 0).arrivals, arrival = (name, bytes) := by
    intro name bytes there
    cases old : world.blocks name with
    | some held =>
      left
      simpa [World.next, old] using there
    | none =>
      refine .inr ⟨rfl, (name, bytes), ?_, rfl⟩
      simp only [World.next, old, Option.none_or] at there
      obtain ⟨before, after, split, _⟩ := List.lookup_eq_some_iff.mp there
      rw [split]
      simp
  have kept : ∀ name, (world.blocks name).isSome = true → (world.next.blocks name).isSome = true := by
    intro name there
    obtain ⟨bytes, old⟩ := Option.isSome_iff_exists.mp there
    simp [World.next, old]
  refine { sound with
    quiet := fun n => sound.quiet (n + 1)
    arrivals := fun n => sound.arrivals (n + 1)
    stored := ?_
    named := ?_
    dirty := ?_
    known := ?_ }
  · intro name bytes there
    rcases arrived name bytes there with old | ⟨absent, _, member, rfl⟩
    · exact sound.stored name bytes old
    · obtain ⟨foreign, fits⟩ := sound.arrivals 0 _ member
      refine ⟨fits, ?_⟩
      intro place here
      obtain ⟨own, _, held⟩ := sound.named place name here
      rcases held with ⟨entry, present, rfl, dirty, _⟩ | stored
      · rcases sound.dirty entry present dirty with ⟨_, drawn | ⟨block, occurs, same⟩⟩ | ⟨_, owned⟩
        · exact absurd drawn foreign
        · exact (fits block occurs same).trans (own block occurs same).symm
        · exact absurd owned.drawn foreign
      · rw [absent] at stored
        exact absurd stored.1 (by simp)
  · intro place name here
    obtain ⟨fits, occurs, held⟩ := sound.named place name here
    exact ⟨fits, occurs, held.imp id fun both => ⟨kept name both.1, both.2⟩⟩
  · intro entry member dirty
    rcases sound.dirty entry member dirty with flying | ⟨place, owned⟩
    · exact .inl flying
    · refine .inr ⟨place, { owned with unstored := ?_ }⟩
      cases there : world.next.blocks entry.name with
      | none => rfl
      | some bytes =>
        rcases arrived entry.name bytes there with old | ⟨_, _, member, rfl⟩
        · rw [owned.unstored] at old
          cases old
        · exact absurd owned.drawn (sound.arrivals 0 _ member).1
  · intro name drawn used
    apply sound.known name drawn
    rcases used with there | others
    · obtain ⟨bytes, there⟩ := Option.isSome_iff_exists.mp there
      rcases arrived name bytes there with old | ⟨_, _, member, rfl⟩
      · exact .inl (by simp [old])
      · exact absurd drawn (sound.arrivals 0 _ member).1
    · exact .inr others

theorem setEntry (sound : Sound naming reference flight out world) {slot : Nat}
    {change : CacheEntry → CacheEntry} {still : Option Nat}
    (kept : ∀ entry, (change entry).slot = entry.slot ∧ (change entry).name = entry.name ∧
      (change entry).dirty = entry.dirty ∧ (change entry).owner = entry.owner)
    (taken : ∀ slot ∈ still, some slot = out)
    (ready : ∀ entry ∈ world.vfs.hash, some entry.slot = still ∨
      (if entry.slot = slot then change entry else entry).valid = true ∧
        world.vfs.inFile entry.slot = true)
    (cached : ∀ entry ∈ world.vfs.hash, some entry.slot = still ∨
      naming.Fits entry.name (world.vfs.slotBytes entry.slot) ∧
        ∀ place, world.vfs.mapped place = some entry.name →
          world.vfs.slotBytes entry.slot = reference.block world.vfs.szBlk place) :
    Sound naming reference flight still
      { world with vfs := world.vfs.setEntry slot change } := by
  have same : ∀ entry : CacheEntry,
      (if entry.slot = slot then change entry else entry).slot = entry.slot ∧
      (if entry.slot = slot then change entry else entry).name = entry.name ∧
      (if entry.slot = slot then change entry else entry).dirty = entry.dirty ∧
      (if entry.slot = slot then change entry else entry).owner = entry.owner := by
    intro entry
    split
    · exact kept entry
    · exact ⟨rfl, rfl, rfl, rfl⟩
  have mapSlot : (world.vfs.setEntry slot change).hash.map CacheEntry.slot =
      world.vfs.hash.map CacheEntry.slot := by
    simp only [Vfs.setEntry, List.map_map]
    apply List.map_congr_left
    exact fun entry _ => (same entry).1
  have back : ∀ entry ∈ (world.vfs.setEntry slot change).hash, ∃ old ∈ world.vfs.hash,
      (if old.slot = slot then change old else old) = entry := by
    intro entry member
    obtain ⟨old, there, made⟩ := List.mem_map.mp member
    exact ⟨old, there, made⟩
  have forth : ∀ old ∈ world.vfs.hash,
      (if old.slot = slot then change old else old) ∈ (world.vfs.setEntry slot change).hash :=
    fun old member => List.mem_map.mpr ⟨old, member, rfl⟩
  refine { sound with
    slots := ?_, taken := ?_, distinct := ?_, ready := ?_, cached := ?_, named := ?_, dirty := ?_,
    known := ?_ }
  · intro entry member
    obtain ⟨old, there, rfl⟩ := back entry member
    rw [(same old).1]
    exact sound.slots old there
  · intro other member
    exact sound.taken other (taken other member).symm
  · dsimp only
    rw [mapSlot]
    exact sound.distinct
  · intro entry member
    obtain ⟨old, there, rfl⟩ := back entry member
    rw [(same old).1]
    exact ready old there
  · intro entry member
    obtain ⟨old, there, rfl⟩ := back entry member
    rw [(same old).1, (same old).2.1]
    exact cached old there
  · intro place name here
    obtain ⟨fits, occurs, held⟩ := sound.named place name here
    refine ⟨fits, occurs, held.imp ?_ id⟩
    rintro ⟨old, there, called, dirty, owner⟩
    refine ⟨_, forth old there, ?_, ?_, ?_⟩
    · rw [(same old).2.1, called]
    · rw [(same old).2.2.1, dirty]
    · rw [(same old).2.2.2, owner]
  · intro entry member dirty
    obtain ⟨old, there, rfl⟩ := back entry member
    rw [(same old).2.2.1] at dirty
    rw [(same old).1]
    rcases sound.dirty old there dirty with flying | ⟨place, owned⟩
    · rw [(same old).2.1]
      exact .inl flying
    · refine .inr ⟨place, ?_⟩
      refine ⟨?_, ?_, ?_, ?_, ?_, ?_⟩ <;> try rw [(same old).2.1]
      · exact owned.drawn
      · rw [(same old).2.2.2, owned.owner]
      · exact owned.mapped
      · exact owned.alone
      · intro other member called
        obtain ⟨another, here, rfl⟩ := back other member
        rw [(same another).2.1] at called
        rw [owned.single another here called]
      · exact owned.unstored
  · intro name drawn used
    apply sound.known name drawn
    rcases used with stored | ⟨entry, member, called⟩ | here
    · exact .inl stored
    · obtain ⟨old, there, rfl⟩ := back entry member
      rw [(same old).2.1] at called
      exact .inr (.inl ⟨old, there, called⟩)
    · exact .inr (.inr here)

theorem setStaged (sound : Sound naming reference flight out world) (slot : Nat) (staged : Bool) :
    Sound naming reference flight out
      { world with vfs := world.vfs.setEntry slot fun entry => { entry with staged := staged } } := by
  refine sound.setEntry (fun _ => ⟨rfl, rfl, rfl, rfl⟩) (fun _ member => member.symm) ?_ sound.cached
  · intro entry member
    rcases sound.ready entry member with same | good
    · exact .inl same
    · right
      split
      · exact good
      · exact good

theorem fill {slot : Nat} (sound : Sound naming reference flight (some slot) world)
    (inside : world.vfs.inFile slot = true)
    (holds : ∀ entry ∈ world.vfs.hash, entry.slot = slot →
      naming.Fits entry.name (world.vfs.slotBytes slot) ∧
        ∀ place, world.vfs.mapped place = some entry.name →
          world.vfs.slotBytes slot = reference.block world.vfs.szBlk place) :
    Sound naming reference flight none
      { world with vfs := world.vfs.setEntry slot fun entry => { entry with valid := true } } := by
  refine sound.setEntry (fun _ => ⟨rfl, rfl, rfl, rfl⟩) (by simp) ?_ ?_
  · intro entry member
    right
    by_cases same : entry.slot = slot
    · rw [if_pos same, same]
      exact ⟨rfl, inside⟩
    · rw [if_neg same]
      exact (sound.ready entry member).resolve_left fun equal => same (Option.some.inj equal)
  · intro entry member
    right
    by_cases same : entry.slot = slot
    · rw [same]
      exact holds entry member same
    · exact (sound.cached entry member).resolve_left fun equal => same (Option.some.inj equal)

/-- A slot is taken out of the hash table or of the unused list. What leaves the table is not
dirty. -/
theorem takeOut (sound : Sound naming reference flight out world) {after : Vfs Hash} {slot : Nat}
    (outside : ∀ other ∈ out, other = slot)
    (hash : ∀ entry, entry ∈ after.hash ↔ entry ∈ world.vfs.hash ∧ entry.slot ≠ slot)
    (clean : ∀ entry ∈ world.vfs.hash, entry.slot = slot → entry.dirty = false)
    (unused : ∀ other ∈ after.unused, other ∈ world.vfs.unused ∧ other ≠ slot)
    (distinct : (after.hash.map CacheEntry.slot ++ after.unused).Nodup)
    (slots : world.vfs.slots ≤ after.slots) (bound : slot < after.slots)
    (file : after.file = world.vfs.file) (szBlk : after.szBlk = world.vfs.szBlk)
    (containers : after.containers = world.vfs.containers)
    (ledger : after.ledger = world.vfs.ledger) :
    Sound naming reference flight (some slot) { world with vfs := after } := by
  have database : after.database = world.vfs.database := by
    funext container dbId
    simp only [Vfs.database, containers]
  have mapped : after.mapped = world.vfs.mapped := by
    funext place
    simp only [Vfs.mapped, database]
  have bytes : after.slotBytes = world.vfs.slotBytes := by
    funext other
    simp only [Vfs.slotBytes, file, szBlk]
  have reach : ∀ other, world.vfs.inFile other = true → after.inFile other = true := by
    intro other
    apply Vfs.inFile_mono slots
    rw [file]
    exact fun _ written => written
  have fetchable : after.Fetchable = world.vfs.Fetchable := by
    funext place name
    simp only [Vfs.Fetchable, database, ledger]
  have apart : ∀ entry ∈ after.hash, ¬ some entry.slot = out :=
    fun entry member same => ((hash entry).mp member).2 (outside entry.slot same.symm)
  refine ⟨sound.quiet, sound.arrivals, ?_, ?_, ?_, ?_, ?_, distinct, ?_, ?_, ?_, ?_, ?_, ?_, ?_, ?_⟩
  all_goals dsimp only
  · rw [containers]
    exact sound.bound
  · rw [szBlk]
    exact sound.positive
  · exact fun entry member => (sound.slots entry ((hash entry).mp member).1).trans_le slots
  · exact fun other member => (sound.unused other (unused other member).1).trans_le slots
  · rintro _ ⟨⟩
    exact ⟨bound, fun member => (unused slot member).2 rfl⟩
  · intro entry member
    obtain ⟨valid, inside⟩ :=
      (sound.ready entry ((hash entry).mp member).1).resolve_left (apart entry member)
    exact .inr ⟨valid, reach _ inside⟩
  · intro entry member
    rw [mapped, bytes, szBlk]
    exact .inr ((sound.cached entry ((hash entry).mp member).1).resolve_left (apart entry member))
  · rw [mapped, szBlk]
    exact sound.stored
  · rw [mapped, szBlk, fetchable]
    intro place name here
    obtain ⟨fits, occurs, held⟩ := sound.named place name here
    refine ⟨fits, occurs, held.imp ?_ id⟩
    rintro ⟨entry, member, called, dirty, owner⟩
    refine ⟨entry, (hash entry).mpr ⟨member, ?_⟩, called, dirty, owner⟩
    intro same
    rw [clean entry member same] at dirty
    cases dirty
  · intro entry member dirty
    rcases sound.dirty entry ((hash entry).mp member).1 dirty with flying | ⟨place, owned⟩
    · exact .inl flying
    · refine .inr ⟨place, owned.drawn, owned.owner, ?_, ?_, ?_, owned.unstored⟩
      · dsimp only
        rw [mapped]
        exact owned.mapped
      · dsimp only
        rw [mapped]
        exact owned.alone
      · exact fun other there => owned.single other ((hash other).mp there).1
  · intro name drawn used
    apply sound.known name drawn
    rw [mapped] at used
    rcases used with stored | ⟨entry, member, called⟩ | here
    · exact .inl stored
    · exact .inr (.inl ⟨entry, ((hash entry).mp member).1, called⟩)
    · exact .inr (.inr here)
  · rw [database, szBlk]
    exact sound.zeros
  · rw [ledger]
    exact sound.sequences

theorem allocated (sound : Sound naming reference flight none world) {entry : CacheEntry} {after : Vfs Hash}
    (given : world.vfs.GivenOut entry after) :
    Sound naming reference flight (some entry.slot) { world with vfs := after } :=
  sound.takeOut (by simp) given.hash given.clean given.unused given.distinct given.slots given.slot
    given.file given.szBlk given.containers given.ledger

theorem hashAdd (entry : CacheEntry)
    (sound : Sound naming reference flight (some entry.slot) world) (clean : entry.dirty = false)
    (loose : ∀ other ∈ world.vfs.hash, other.slot ≠ entry.slot)
    (absent : ∀ other ∈ world.vfs.hash, other.name ≠ entry.name)
    (here : ∃ place, world.vfs.mapped place = some entry.name) :
    Sound naming reference flight (some entry.slot) { world with vfs := world.vfs.hashAdd entry } := by
  obtain ⟨bound, free⟩ := sound.taken entry.slot rfl
  refine { sound with
    slots := ?_, distinct := ?_, ready := ?_, cached := ?_, named := ?_, dirty := ?_, known := ?_ }
  · exact List.forall_mem_cons.mpr ⟨bound, sound.slots⟩
  · apply List.nodup_cons.mpr
    refine ⟨?_, sound.distinct⟩
    intro member
    rcases List.mem_append.mp member with there | there
    · obtain ⟨other, present, same⟩ := List.mem_map.mp there
      exact loose other present same
    · exact free there
  · exact List.forall_mem_cons.mpr ⟨.inl rfl, sound.ready⟩
  · exact List.forall_mem_cons.mpr ⟨.inl rfl, sound.cached⟩
  · intro place name mapped
    obtain ⟨fits, occurs, held⟩ := sound.named place name mapped
    refine ⟨fits, occurs, held.imp ?_ id⟩
    rintro ⟨other, there, rest⟩
    exact ⟨other, List.mem_cons_of_mem _ there, rest⟩
  · intro other member dirty
    rcases List.mem_cons.mp member with rfl | there
    · rw [clean] at dirty
      cases dirty
    · rcases sound.dirty other there dirty with flying | ⟨place, owned⟩
      · exact .inl flying
      · refine .inr ⟨place, { owned with single := ?_ }⟩
        intro another present called
        rcases List.mem_cons.mp present with rfl | before
        · exact absurd called.symm (absent other there)
        · exact owned.single another before called
  · intro name drawn used
    apply sound.known name drawn
    rcases used with stored | ⟨other, member, called⟩ | mapped
    · exact .inl stored
    · rcases List.mem_cons.mp member with rfl | there
      · rw [← called]
        exact .inr (.inr here)
      · exact .inr (.inl ⟨other, there, called⟩)
    · exact .inr (.inr mapped)

theorem setFile {slot : Nat} (sound : Sound naming reference flight (some slot) world)
    {bytes : Bytes} (written : bytes ≠ []) :
    Sound naming reference flight (some slot) { world with vfs := world.vfs.setFile slot bytes } := by
  have kept : ∀ later, world.vfs.file later ≠ [] → (world.vfs.setFile slot bytes).file later ≠ [] := by
    intro later old
    dsimp only [Vfs.setFile]
    split
    · exact written
    · exact old
  refine { sound with ready := ?_, cached := ?_, dirty := ?_ }
  · intro entry member
    rcases sound.ready entry member with same | ⟨valid, inside⟩
    · exact .inl same
    · exact .inr ⟨valid, Vfs.inFile_mono (le_refl world.vfs.slots) kept inside⟩
  · intro entry member
    by_cases same : entry.slot = slot
    · exact .inl (congrArg some same)
    · rcases sound.cached entry member with equal | good
      · exact .inl equal
      · right
        have bytes : (world.vfs.setFile slot bytes).slotBytes entry.slot =
            world.vfs.slotBytes entry.slot := by
          simp [Vfs.slotBytes, Vfs.setFile, same]
        dsimp only
        rw [bytes]
        exact good
  · intro entry member dirty
    rcases sound.dirty entry member dirty with flying | ⟨place, owned⟩
    · exact .inl flying
    · exact .inr ⟨place, { owned with }⟩

end Sound

omit [DecidableEq Hash] [Digest Hash] [BlockDigest] in
theorem Vfs.slotBytes_setFile {vfs : Vfs Hash} {slot : Nat} {bytes : Bytes}
    (length : bytes.length = vfs.szBlk) : (vfs.setFile slot bytes).slotBytes slot = bytes := by
  simp [Vfs.slotBytes, Vfs.setFile, ← length]

omit [DecidableEq Hash] [Digest Hash] [BlockDigest] in
theorem Vfs.inFile_setFile {vfs : Vfs Hash} {slot : Nat} {bytes : Bytes} (written : bytes ≠ [])
    (bound : slot < vfs.slots) : (vfs.setFile slot bytes).inFile slot = true :=
  Vfs.inFile_iff.mpr ⟨slot, bound, le_rfl, by simpa [Vfs.setFile] using written⟩

def Grows (before after : World Hash) : Prop := before.events <:+ after.events

omit [BlockDigest] in
instance : IsPreorder (World Hash) Grows where
  refl world := List.suffix_refl world.events
  trans _ _ _ first second := List.IsSuffix.trans first second

omit [BlockDigest] in
theorem grows_of_still {act : VfsM Hash α} (moves : Moves Still act) : Moves Grows act :=
  moves.weaken fun _ _ still => still.events

omit [BlockDigest] in
theorem grows_of_extends {transfer : Transfer} {place : World Hash → Place} {act : VfsM Hash α}
    {post : World Hash → α → World Hash → Prop}
    (follows : ∀ world, Follows (Extends transfer (place world)) world act world (post world)) :
    Moves Grows act := by
  have grown : ∀ before after : World Hash, Extends transfer (place before) before after →
      Grows before after := by
    intro before after extended
    rcases extended with still | framed
    · exact still.events
    · exact framed.events
  intro world
  apply Meets.mono (follows world)
  · exact fun _ after both => grown world after both.1
  · exact fun _ after reached => grown world after reached

theorem Naming.back (naming : Naming) {act : VfsM Hash α} (moves : Moves Grows act) :
    Moves (fun before after => naming.Foresees after → naming.Foresees before) act := by
  apply moves.weaken
  intro before after grown kept
  exact (grown.filterMap _).trans kept

end RusqDoltlite.Blocks

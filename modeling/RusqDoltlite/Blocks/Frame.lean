import RusqDoltlite.Blocks.File

/-! What the block operations leave alone. Whatever is fetched, evicted, copied, renamed or
staged on the way, an operation changes the sizes of at most one database, keeps every
original mapping, and adds no staged row without evidence that the block is stored. -/

namespace RusqDoltlite.Blocks

open Effects Session

/-- A database without the names of its local blocks: the block size, the original mapping,
the number of blocks, the exact size the manifest records (zero for none), and the
session context of its container. -/
structure FileView (Hash : Type) where
  szBlk : Nat
  name : String
  blkOrig : List BlockId
  count : Nat
  fileSize : Nat
  session : Bool
  context : Option (Context Hash)

variable {Hash : Type}

def FileView.of (container : Container Hash) (szBlk : Nat) (db : ManifestDb) : FileView Hash :=
  { szBlk := szBlk
    name := db.name
    blkOrig := db.blkOrig
    count := db.blkLocal.length
    fileSize := db.fileSize
    session := container.sessionId.isSome
    context := container.context }

def FileView.grow (view : FileView Hash) (pos : Nat) : FileView Hash :=
  { view with count := max view.count (pos + 1) }

namespace Vfs

variable {vfs : Vfs Hash} {container other : String} {dbId id : Nat}

def blockSize (vfs : Vfs Hash) (container : String) : Option Nat :=
  (vfs.containers container).man.map Manifest.szBlk

def view (vfs : Vfs Hash) (container : String) (dbId : Nat) : Option (FileView Hash) :=
  (vfs.blockSize container).bind fun szBlk =>
    (vfs.database container dbId).map (FileView.of (vfs.containers container) szBlk)

@[simp] theorem blockSize_setDatabase (change : ManifestDb → ManifestDb) :
    (vfs.setDatabase container dbId change).blockSize other = vfs.blockSize other := by
  unfold setDatabase blockSize
  dsimp only
  split
  · rw [Option.map_map]
    rfl
  · rfl

theorem view_setDatabase {change : ManifestDb → ManifestDb} (seen : FileView Hash → FileView Hash)
    (kept : ∀ db, (change db).dbId = db.dbId)
    (shows : ∀ container szBlk db,
      FileView.of container szBlk (change db) = seen (FileView.of container szBlk db)) :
    (vfs.setDatabase container dbId change).view other id =
      if other = container ∧ id = dbId then (vfs.view other id).map seen else vfs.view other id := by
  have same : ∀ szBlk,
      FileView.of ((vfs.setDatabase container dbId change).containers other) szBlk =
        FileView.of (vfs.containers other) szBlk := by
    intro szBlk
    funext db
    simp [FileView.of]
  simp only [view, blockSize_setDatabase, database_setDatabase kept, same]
  split
  · cases vfs.blockSize other with
    | none => rfl
    | some szBlk =>
      simp only [Option.bind_some, Option.map_map]
      congr 1
      funext db
      exact shows _ _ _
  · rfl

theorem view_nameBlock (place : Place) (name : BlockId) :
    (vfs.nameBlock place name).view other id =
      if other = place.container ∧ id = place.dbId then
        (vfs.view other id).map (FileView.grow · place.pos)
      else vfs.view other id := by
  apply view_setDatabase (FileView.grow · place.pos)
  · intro db
    rfl
  · intro container szBlk db
    simp only [FileView.of, FileView.grow, manifestWrite_length]
    rfl

end Vfs

def origin (db : ManifestDb) : ManifestDb :=
  { db with fileSize := 0, blkLocal := [], localAlloc := false }

def Vfs.origins (vfs : Vfs Hash) (container : String) : Option Manifest :=
  (vfs.containers container).man.map fun man => { man with dbs := man.dbs.map origin }

theorem map_modify_of_kept {α β : Type} {see : α → β} {change : α → α}
    (kept : ∀ item, see (change item) = see item) (items : List α) (index : Nat) :
    (items.modify index change).map see = items.map see := by
  induction items generalizing index with
  | nil => simp
  | cons item rest ih =>
    cases index with
    | zero => simp [kept]
    | succ index => simp [ih]

theorem Vfs.origins_setDatabase {vfs : Vfs Hash} {container : String} {dbId : Nat}
    {change : ManifestDb → ManifestDb} (kept : ∀ db, origin (change db) = origin db) :
    (vfs.setDatabase container dbId change).origins = vfs.origins := by
  funext other
  unfold origins setDatabase
  dsimp only
  split
  · rw [Option.map_map]
    congr 1
    funext man
    simp only [Function.comp_apply, map_modify_of_kept kept]
  · rfl

abbrev Views (Hash : Type) := String → Nat → Option (FileView Hash)

def growAt (place : Place) (views : Views Hash) : Views Hash := fun container dbId =>
  if container = place.container ∧ dbId = place.dbId then
    (views container dbId).map (FileView.grow · place.pos)
  else views container dbId

theorem FileView.grow_eq_self {view : FileView Hash} {pos : Nat} (covered : pos < view.count) :
    view.grow pos = view := by
  have same : max view.count (pos + 1) = view.count := by omega
  simp [FileView.grow, same]

theorem growAt_eq_self {place : Place} {views : Views Hash}
    (covered : ∀ view ∈ views place.container place.dbId, place.pos < view.count) :
    growAt place views = views := by
  funext container dbId
  unfold growAt
  split
  · rename_i here
    obtain ⟨rfl, rfl⟩ := here
    cases found : views place.container place.dbId with
    | none => rfl
    | some view =>
      rw [Option.map_some, FileView.grow_eq_self (covered view found)]
  · rfl

theorem growAt_growAt (place : Place) (views : Views Hash) :
    growAt place (growAt place views) = growAt place views := by
  apply growAt_eq_self
  intro view found
  simp only [growAt, and_self, ↓reduceIte, Option.mem_map] at found
  obtain ⟨before, _, rfl⟩ := found
  simp only [FileView.grow]
  omega

/-- The store has created the block of a row for this VFS, or has been found to hold it. -/
def Evidenced (events : List BlockEvent) (row : StagedRow) : Prop :=
  ∃ bytes, .created row.place row.generation bytes ∈ events ∨
    .verified row.place row.generation bytes ∈ events

theorem Evidenced.mono {events later : List BlockEvent} {row : StagedRow}
    (evidenced : Evidenced events row) (grown : events <:+ later) : Evidenced later row := by
  obtain ⟨bytes, created | verified⟩ := evidenced
  · exact ⟨bytes, .inl (grown.subset created)⟩
  · exact ⟨bytes, .inr (grown.subset verified)⟩

def Covered (vfs : Vfs Hash) (place : Place) : Prop :=
  ∀ view ∈ vfs.view place.container place.dbId, place.pos < view.count

theorem covered_of_mapped {vfs : Vfs Hash} {place : Place} {name : BlockId}
    (mapped : ((vfs.database place.container place.dbId).bind fun db =>
      db.blkLocal[place.pos]?) = some name) : Covered vfs place := by
  intro view found
  simp only [Vfs.view, Option.mem_def, Option.bind_eq_some_iff, Option.map_eq_some_iff] at found mapped
  obtain ⟨_, _, db, same, rfl⟩ := found
  obtain ⟨db', same', named⟩ := mapped
  cases same.symm.trans same'
  exact (List.getElem?_eq_some_iff.mp named).1

section

variable [DecidableEq Hash] [Digest Hash]

/-- A change of the world that shows in the views as `seen` and adds no staged row of a
session without evidence. -/
structure Frame (seen : Views Hash → Views Hash) (before after : World Hash) : Prop where
  szBlk : after.vfs.szBlk = before.vfs.szBlk
  session : ∀ container,
    (after.vfs.containers container).sessionId = (before.vfs.containers container).sessionId
  origins : after.vfs.origins = before.vfs.origins
  view : after.vfs.view = seen before.vfs.view
  events : before.events <:+ after.events
  rows : ∀ row ∈ after.vfs.ledger.staged, row ∈ before.vfs.ledger.staged ∨
    ((after.vfs.containers row.place.container).sessionId.isSome = true →
      Evidenced after.events row)

variable {before after world start : World Hash} {place : Place} {item : StageItem} {session : Bool}
  {prepared : PreparedItem} {entry : CacheEntry} {db : ManifestDb} {transfer : Transfer} {act : VfsM Hash α}

theorem Frame.trans {seen later : Views Hash → Views Hash} {middle : World Hash}
    (first : Frame seen before middle) (second : Frame later middle after) :
    Frame (later ∘ seen) before after where
  szBlk := second.szBlk.trans first.szBlk
  session container := (second.session container).trans (first.session container)
  origins := second.origins.trans first.origins
  view := by rw [second.view, first.view, Function.comp_apply]
  events := first.events.trans second.events
  rows row member := by
    rcases second.rows row member with kept | added
    · rcases first.rows row kept with kept | added
      · exact .inl kept
      · refine .inr fun bound => (added ?_).mono second.events
        rwa [second.session] at bound
    · exact .inr added

abbrev Still (before after : World Hash) : Prop := Frame id before after

theorem Still.refl (world : World Hash) : Still world world :=
  ⟨rfl, fun _ => rfl, rfl, rfl, List.suffix_refl _, fun _ member => .inl member⟩

instance : IsPreorder (World Hash) Still where
  refl := Still.refl
  trans _ _ _ first second := first.trans second

structure Vfs.SameFront (before after : Vfs Hash) : Prop where
  szBlk : after.szBlk = before.szBlk
  containers : after.containers = before.containers
  staged : after.ledger.staged = before.ledger.staged

omit [DecidableEq Hash] [Digest Hash] in
theorem Vfs.SameFront.view {before after : Vfs Hash} (same : before.SameFront after) :
    after.view = before.view := by
  funext container dbId
  simp only [Vfs.view, Vfs.blockSize, Vfs.database, same.containers]

theorem Vfs.SameFront.still {before after : Vfs Hash} (same : before.SameFront after) :
    Still { world with vfs := before } { world with vfs := after } where
  szBlk := same.szBlk
  session container := by rw [same.containers]
  origins := by
    funext container
    simp only [Vfs.origins, same.containers]
  view := same.view
  events := List.suffix_refl _
  rows row member := .inl (same.staged ▸ member)

theorem onVfs_still {change : Vfs Hash → Vfs Hash} (same : ∀ vfs : Vfs Hash, vfs.SameFront (change vfs)) :
    Moves Still (onVfs change) :=
  fun world => (same world.vfs).still

theorem draw_still : Moves Still (draw : VfsM Hash (Choice Hash)) :=
  fun _ => ⟨rfl, fun _ => rfl, rfl, rfl, List.suffix_refl _, fun _ member => .inl member⟩

theorem effect_still : Moves Still (effect : VfsM Hash Unit) := by
  apply Moves.bind draw_still
  intro choice
  cases choice.fault with
  | none => exact Moves.pure _
  | some error => exact Moves.throw _

theorem readSlot_still (slot : Nat) : Moves Still (readSlot slot : VfsM Hash Bytes) := by
  apply Moves.bind effect_still
  intro _
  apply Moves.bind Moves.get
  intro world
  exact Moves.bind (Moves.require _) fun _ => Moves.pure _

theorem getBlock_still (name : BlockId) : Moves Still (getBlock name : VfsM Hash Bytes) := by
  apply Moves.bind effect_still
  intro _
  apply Moves.bind Moves.get
  intro world
  cases world.blocks name with
  | none => exact Moves.throw _
  | some bytes => exact Moves.pure _

theorem setBlocks_still (world : World Hash) (blocks : BlockId → Option Bytes) :
    Still world { world with blocks := blocks } :=
  ⟨rfl, fun _ => rfl, rfl, rfl, List.suffix_refl _, fun _ member => .inl member⟩

theorem putBlock_still (createOnly : Bool) (name : BlockId) (bytes : Bytes) :
    Moves Still (putBlock createOnly name bytes : VfsM Hash Unit) := by
  apply Moves.bind draw_still
  intro choice world
  rw [Meets.bind, Meets.get]
  cases choice.fault with
  | none =>
    simp only [Meets.bind, Meets.require, Meets.set]
    split
    · exact setBlocks_still world _
    · exact Still.refl world
  | some error =>
    simp only [Meets.bind, Meets.when, Meets.set, Meets.throw]
    split
    · exact setBlocks_still world _
    · exact Still.refl world

theorem record_still (event : BlockEvent) : Moves Still (record event : VfsM Hash Unit) :=
  fun _ => ⟨rfl, fun _ => rfl, rfl, rfl, List.suffix_cons _ _, fun _ member => .inl member⟩

theorem Covered.still (covered : Covered before.vfs place) (still : Still before after) :
    Covered after.vfs place := by
  unfold Covered
  rw [still.view]
  exact covered

theorem nameBlock_frame (world : World Hash) (place : Place) (name : BlockId) :
    Frame (growAt place) world { world with vfs := world.vfs.nameBlock place name } where
  szBlk := rfl
  session _ := Vfs.sessionId_setDatabase _
  origins := Vfs.origins_setDatabase fun _ => rfl
  view := by
    funext container dbId
    exact Vfs.view_nameBlock place name
  events := List.suffix_refl _
  rows _ member := .inl member

theorem nameBlock_still (covered : Covered world.vfs place) (name : BlockId) :
    Still world { world with vfs := world.vfs.nameBlock place name } := by
  have framed := nameBlock_frame world place name
  refine ⟨framed.szBlk, framed.session, framed.origins, ?_, framed.events, framed.rows⟩
  rw [framed.view, growAt_eq_self covered]
  rfl

theorem publishName_still (reached : Still start world) (covered : Covered world.vfs item.place)
    (name : BlockId) :
    Still start { world with vfs := publishName item name world.vfs } := by
  have named : Still start { world with vfs := world.vfs.nameBlock item.place name } :=
    reached.trans (nameBlock_still covered name)
  have front : (world.vfs.nameBlock item.place name).SameFront (publishName item name world.vfs) :=
    ⟨rfl, rfl, rfl⟩
  exact named.trans front.still

theorem protectBlock_still (container : Container Hash) :
    Moves Still (protectBlock container : VfsM Hash Unit) := by
  apply Moves.when
  apply Moves.bind (Moves.require _)
  intro _
  exact effect_still

theorem stagePrepare_follows [BlockDigest] (reached : Still start world)
    (covered : Covered world.vfs item.place) :
    Follows Still start (stagePrepare item : VfsM Hash PreparedItem) world
      fun prepared _ => prepared.item = item := by
  apply Follows.bind (Follows.of_moves (readSlot_still _) reached)
  intro bytes middle reached step
  apply Follows.get_bind
  apply Follows.modified_bind
  have named := publishName_still reached (covered.still step)
  apply Follows.bind (Follows.of_moves (protectBlock_still _) (named _))
  intro _ after reached _
  exact Follows.pure reached rfl

theorem record_when_follows {condition : Bool} {event : BlockEvent} (reached : Still start world) :
    Follows Still start (Act.when condition (record event) : VfsM Hash Unit) world
      fun _ after => condition = true → event ∈ after.events := by
  apply Follows.when
  · intro _
    apply Follows.modified
    · have recorded := record_still event world
      exact reached.trans recorded
    · exact fun _ => List.mem_cons_self
  · exact fun no => ⟨reached, fun yes => absurd yes no⟩

/-- A stored payload has its evidence, or is still to be verified; an ordinary container
needs none. -/
theorem stagePut_follows (reached : Still start world) :
    Follows Still start (stagePut session prepared : VfsM Hash (PreparedItem × Bool)) world
      fun put after => put.1 = prepared ∧ (session = true → put.2 = false →
        .created prepared.item.place prepared.name prepared.bytes ∈ after.events) := by
  apply Follows.bind (Follows.of_moves (putBlock_still _ _ _).attempt reached)
  intro result middle reached _
  cases result with
  | ok _ =>
    apply Follows.bind (record_when_follows reached)
    intro _ after reached recorded
    exact Follows.pure reached ⟨rfl, fun yes _ => recorded yes⟩
  | error error =>
    dsimp only
    split
    · exact Follows.pure reached ⟨rfl, by simp⟩
    · exact Follows.throw reached

def Proven (session : Bool) (prepared : PreparedItem) (world : World Hash) : Prop :=
  session = true →
    .created prepared.item.place prepared.name prepared.bytes ∈ world.events ∨
      .verified prepared.item.place prepared.name prepared.bytes ∈ world.events

theorem Proven.still (proven : Proven session prepared before) (still : Still before after) :
    Proven session prepared after := by
  intro yes
  rcases proven yes with created | verified
  · exact .inl (still.events.subset created)
  · exact .inr (still.events.subset verified)

theorem stageVerify_follows {put : PreparedItem × Bool} (reached : Still start world)
    (stored : session = true → put.2 = false → .created put.1.item.place put.1.name put.1.bytes ∈ world.events) :
    Follows Still start (stageVerify put : VfsM Hash PreparedItem) world
      fun prepared after => prepared = put.1 ∧ Proven session prepared after := by
  obtain ⟨prepared, existing⟩ := put
  cases existing with
  | false =>
    apply Follows.pure reached
    exact ⟨rfl, fun yes => .inl (stored yes rfl)⟩
  | true =>
    have checked : Follows Still start
        (do
          let bytes ← getBlock prepared.name
          Act.require (bytes = prepared.bytes)
            ⟨.corrupt, "existing immutable block does not match its content ID"⟩
          record (.verified prepared.item.place prepared.name prepared.bytes) : VfsM Hash Unit)
        world fun _ after => .verified prepared.item.place prepared.name prepared.bytes ∈ after.events := by
      apply Follows.bind (Follows.of_moves (getBlock_still _) reached)
      intro bytes middle reached _
      apply Follows.bind (Follows.of_moves (Moves.require _) reached)
      intro _ after reached _
      apply Follows.modified
      · have recorded := record_still (.verified prepared.item.place prepared.name prepared.bytes) after
        exact reached.trans recorded
      · exact List.mem_cons_self
    apply Follows.bind checked
    intro _ after reached verified
    exact Follows.pure reached ⟨rfl, fun _ => .inr verified⟩

theorem stagedPut_still (reached : Still start world) (proven : Proven session prepared world)
    (bound : (world.vfs.containers prepared.item.place.container).sessionId.isSome = session) :
    Still start { world with
      vfs := world.vfs.stagedPut prepared.item.place prepared.name } := by
  have added : Still world { world with
      vfs := world.vfs.stagedPut prepared.item.place prepared.name } := by
    refine ⟨rfl, fun _ => rfl, rfl, rfl, List.suffix_refl _, ?_⟩
    intro row member
    simp only [Vfs.stagedPut, Ledger.put, List.mem_cons, List.mem_filter] at member
    rcases member with rfl | kept
    · right
      intro isSession
      have yes : session = true := bound.symm.trans isSession
      exact ⟨prepared.bytes, proven yes⟩
    · exact .inl kept.1
  exact reached.trans added

theorem stageSettle_follows (reached : Still start world) (proven : Proven session prepared world)
    (bound : (world.vfs.containers prepared.item.place.container).sessionId.isSome = session) :
    Follows Still start (stageSettle prepared : VfsM Hash Unit) world fun _ _ => True := by
  apply Follows.bind (Follows.of_moves effect_still reached)
  intro _ middle reached step
  apply Follows.modified_bind
  have bound : (middle.vfs.containers prepared.item.place.container).sessionId.isSome = session := by
    rw [step.session]
    exact bound
  have rowed := stagedPut_still reached (proven.still step) bound
  apply Follows.bind (Follows.of_moves effect_still rowed)
  intro _ after reached _
  apply Follows.modified
  · have front : after.vfs.SameFront (after.vfs.setEntry prepared.item.entry.slot fun entry =>
        { entry with staged := true, dirty := false }) := ⟨rfl, rfl, rfl⟩
    exact reached.trans front.still
  · trivial

theorem stageFence_follows {prepared : List PreparedItem} (reached : Still start world) :
    Follows Still start (stageFence session prepared : VfsM Hash (List PreparedItem × List Err)) world
      fun result _ => ∀ item ∈ result.1, item ∈ prepared := by
  apply Follows.bind (Follows.of_moves (Moves.when effect_still).attempt reached)
  intro result middle reached _
  cases result with
  | ok _ => exact Follows.pure reached fun _ member => member
  | error error => exact Follows.pure reached (by simp)

theorem stageItem_eq_some {vfs : Vfs Hash} {choice : Choice Hash} {only : Option String}
    (picked : stageItem vfs choice only entry = some item) :
    item.entry = entry ∧ entry.owner = some item.place ∧ entry.valid = true ∧ entry.dirty = true ∧
      (∀ container ∈ only, item.place.container = container) ∧
      ((vfs.database item.place.container item.place.dbId).bind fun db =>
        db.blkLocal[item.place.pos]?) = some entry.name := by
  unfold stageItem at picked
  split at picked
  · cases picked
  · rename_i place owned
    split at picked
    · rename_i conditions
      obtain ⟨valid, dirty, _, _, limited, mapped⟩ := conditions
      cases picked
      exact ⟨rfl, owned, valid, dirty, limited, mapped⟩
    · cases picked

theorem stageBatch_picked {vfs : Vfs Hash} {choice : Choice Hash} {only : Option String} {first : StageItem}
    {rest : List StageItem} (batch : stageBatch vfs choice only = first :: rest) (member : item ∈ first :: rest) :
    item.place.container = first.place.container ∧
      ∃ entry ∈ vfs.hash, stageItem vfs choice only entry = some item := by
  unfold stageBatch at batch
  dsimp only at batch
  split at batch
  · cases batch
  · rename_i head tail _
    have picked : ∀ item ∈ first :: rest, item.place.container = head.place.container ∧
        ∃ entry ∈ vfs.hash, stageItem vfs choice only entry = some item := by
      intro item member
      rw [← batch] at member
      have kept := List.mem_filter.mp (List.mem_of_mem_take member)
      obtain ⟨entry, sorted, found⟩ := List.mem_filterMap.mp kept.1
      exact ⟨of_decide_eq_true kept.2, entry, (List.mem_insertionSort _).mp sorted, found⟩
    have same := (picked first List.mem_cons_self).1
    obtain ⟨container, found⟩ := picked item member
    exact ⟨container.trans same.symm, found⟩

theorem stageItems_still [BlockDigest] {items : List StageItem} (begun : Still start world)
    (covered : ∀ item ∈ items, Covered world.vfs item.place)
    (bound : ∀ item ∈ items, (world.vfs.containers item.place.container).sessionId.isSome = session) :
    Follows Still start (stageItems session items : VfsM Hash Unit) world fun _ _ => True := by
  have prepares : Follows Still start (Act.sift stagePrepare items : VfsM Hash _) world
      fun result after => Still world after ∧ ∀ prepared ∈ result.1, prepared.item ∈ items := by
    apply Follows.sift items begun (fun _ _ _ _ known => known)
    intro item member before moved
    apply (stagePrepare_follows (Still.refl before) ((covered item member).still moved)).mono
    rintro prepared after _ rfl
    exact member
  apply Follows.bind prepares
  rintro ⟨prepared, unprepared⟩ fencing reached ⟨_, known⟩
  apply Follows.bind (stageFence_follows reached)
  rintro ⟨queued, fenced⟩ putting reached queues
  have puts : Follows Still start (Act.sift (stagePut session) queued : VfsM Hash _) putting
      fun result after => Still putting after ∧ ∀ put ∈ result.1, put.1 ∈ queued ∧
        (session = true → put.2 = false →
          .created put.1.item.place put.1.name put.1.bytes ∈ after.events) := by
    apply Follows.sift queued reached
    · intro put before after still known
      exact ⟨known.1, fun yes no => still.events.subset (known.2 yes no)⟩
    · intro prepared member before _
      apply (stagePut_follows (Still.refl before)).mono
      rintro put after _ ⟨rfl, stored⟩
      exact ⟨member, stored⟩
  apply Follows.bind puts
  rintro ⟨put, unput⟩ verifying reached ⟨_, stored⟩
  have verifies : Follows Still start (Act.sift stageVerify put : VfsM Hash _) verifying
      fun result after => Still verifying after ∧ ∀ prepared ∈ result.1,
        prepared ∈ queued ∧ Proven session prepared after := by
    apply Follows.sift put reached
    · intro prepared before after still known
      exact ⟨known.1, known.2.still still⟩
    · intro put member before moved
      have evidence := (stored put member).2
      apply (stageVerify_follows (Still.refl before)
        fun yes no => moved.events.subset (evidence yes no)).mono
      rintro prepared after _ ⟨rfl, proven⟩
      exact ⟨(stored put member).1, proven⟩
  apply Follows.bind verifies
  rintro ⟨settled, unverified⟩ settling reached ⟨_, proven⟩
  have settles : Follows Still start (Act.sift stageSettle settled : VfsM Hash _) settling
      fun result after => Still settling after ∧ ∀ value ∈ result.1, True := by
    apply Follows.sift settled reached (fun _ _ _ _ known => known)
    intro prepared member before moved
    have evidence := proven prepared member
    have belongs := known prepared (queues prepared evidence.1)
    have session_now : (before.vfs.containers prepared.item.place.container).sessionId.isSome =
        session := by
      rw [moved.session, reached.session, ← begun.session]
      exact bound prepared.item belongs
    exact stageSettle_follows (Still.refl before) (evidence.2.still moved) session_now
  apply Follows.bind settles
  rintro ⟨_, unsettled⟩ ending reached _
  dsimp only
  split
  · exact Follows.throw reached
  · exact Follows.pure reached trivial

theorem stageOne_still [BlockDigest] (only : Option String) :
    Moves Still (stageOne only : VfsM Hash Unit) := by
  apply Moves.bind draw_still
  intro choice
  apply Follows.moves
  intro world
  apply Follows.get_bind
  cases batch : stageBatch world.vfs choice only with
  | nil => exact Follows.throw (Still.refl world)
  | cons first rest =>
    apply Follows.bind (Follows.of_moves effect_still (Still.refl world))
    intro _ middle reached _
    apply stageItems_still reached
    · intro item member
      obtain ⟨_, entry, _, found⟩ := stageBatch_picked batch member
      exact (covered_of_mapped (stageItem_eq_some found).2.2.2.2.2).still reached
    · intro item member
      rw [reached.session, (stageBatch_picked batch member).1]

omit [DecidableEq Hash] [Digest Hash] in
theorem allocCacheEntry_front {vfs after : Vfs Hash} {held : List Nat} {reuse : Nat}
    (allocated : vfs.allocCacheEntry held reuse = some (entry, after)) :
    vfs.SameFront after ∧ entry.dirty = false ∧ entry.valid = false := by
  unfold Vfs.allocCacheEntry at allocated
  split at allocated
  · cases allocated
    exact ⟨⟨rfl, rfl, rfl⟩, rfl, rfl⟩
  · split at allocated
    · cases allocated
      exact ⟨⟨rfl, rfl, rfl⟩, rfl, rfl⟩
    · obtain ⟨victim, _, same⟩ := Option.map_eq_some_iff.mp allocated
      cases same
      exact ⟨⟨rfl, rfl, rfl⟩, rfl, rfl⟩

theorem unusedAdd_still (slot : Nat) : Moves Still (onVfs fun vfs : Vfs Hash => vfs.unusedAdd slot) :=
  onVfs_still fun _ => ⟨rfl, rfl, rfl⟩

theorem allocate_follows (reached : Still start world) :
    Follows Still start (allocate : VfsM Hash CacheEntry) world
      fun entry _ => entry.dirty = false ∧ entry.valid = false := by
  apply Follows.bind (Follows.of_moves draw_still reached)
  intro choice middle reached _
  apply Follows.get_bind
  cases allocated : middle.vfs.allocCacheEntry choice.held choice.reuse with
  | none => exact Follows.throw reached
  | some result =>
    obtain ⟨entry, vfs⟩ := result
    obtain ⟨front, clean⟩ := allocCacheEntry_front allocated
    apply Follows.modified_bind
    have taken : Still start { middle with vfs := vfs } := reached.trans front.still
    have cleared : Moves Still (tryCatch effect fun error => do
        onVfs fun vfs => vfs.unusedAdd entry.slot
        throw error : VfsM Hash Unit) :=
      Moves.tryCatch effect_still fun error =>
        Moves.bind (unusedAdd_still entry.slot) fun _ => Moves.throw error
    apply Follows.bind (Follows.of_moves cleared taken)
    intro _ after reached _
    exact Follows.pure reached clean

theorem findBlockForIo_follows {pos : Nat} (reached : Still start world) :
    Follows Still start (findBlockForIo db pos : VfsM Hash CacheEntry) world
      fun entry _ => entry.dirty = true → pos < db.blkLocal.length := by
  unfold findBlockForIo
  cases mapped : db.blkLocal[pos]? with
  | none =>
    apply (allocate_follows reached).mono
    intro entry _ _ fresh dirty
    rw [fresh.1] at dirty
    cases dirty
  | some name =>
    have inside : pos < db.blkLocal.length := (List.getElem?_eq_some_iff.mp mapped).1
    apply Follows.get_bind
    cases world.vfs.hashFind name with
    | some entry =>
      apply Follows.bind (Follows.of_moves (Moves.require waits) reached)
      intro _ after reached _
      exact Follows.pure reached fun _ => inside
    | none =>
      apply Follows.bind (allocate_follows reached)
      intro entry middle reached _
      apply Follows.modified_bind
      have front : middle.vfs.SameFront (middle.vfs.hashAdd { entry with name := name }) :=
        ⟨rfl, rfl, rfl⟩
      exact Follows.pure (reached.trans front.still) fun _ => inside

theorem writeSlot_still (slot : Nat) (bytes : Bytes) :
    Moves Still (writeSlot slot bytes : VfsM Hash Unit) :=
  Moves.bind effect_still fun _ => onVfs_still fun _ => ⟨rfl, rfl, rfl⟩

theorem copySlot_still (source target : Nat) :
    Moves Still (copySlot source target : VfsM Hash Unit) :=
  Moves.bind (readSlot_still source) fun _ => writeSlot_still target _

theorem zeroSlot_still (slot : Nat) : Moves Still (zeroSlot slot : VfsM Hash Unit) :=
  Moves.bind Moves.get fun _ => writeSlot_still slot _

theorem fetchObject_still (name : BlockId) (slot : Nat) :
    Moves Still (fetchObject name slot : VfsM Hash Unit) := by
  apply Moves.bind (getBlock_still name)
  intro bytes
  apply Moves.bind Moves.get
  intro _
  apply Moves.bind (Moves.require _)
  intro _
  exact writeSlot_still slot bytes

theorem isStaged_still (place : Place) (name : BlockId) :
    Moves Still (isStaged place name : VfsM Hash Bool) := by
  apply Moves.bind effect_still
  intro _
  apply Moves.bind Moves.get
  intro _
  exact Moves.pure _

theorem fetchBlock_still (place : Place) (db : ManifestDb) (entry : CacheEntry) :
    Moves Still (fetchBlock place db entry : VfsM Hash (Bool × Bool)) := by
  apply Moves.ite (Moves.pure _)
  apply Moves.ite
  · exact Moves.bind (fetchObject_still _ _) fun _ => Moves.pure _
  · apply Moves.bind (isStaged_still _ _)
    intro staged
    exact Moves.bind (Moves.when (fetchObject_still _ _)) fun _ => Moves.pure _

theorem allocate_still : Moves Still (allocate : VfsM Hash CacheEntry) :=
  Follows.moves fun world => (allocate_follows (Still.refl world)).mono fun _ _ _ _ => trivial

theorem claimSlot_still (entry : CacheEntry) : Moves Still (claimSlot entry : VfsM Hash CacheEntry) := by
  apply Moves.bind draw_still
  intro choice
  apply Moves.ite
  · apply Moves.bind allocate_still
    intro copy
    have copied : Moves Still (tryCatch (copySlot entry.slot copy.slot) fun error => do
        onVfs fun vfs => vfs.unusedAdd copy.slot
        throw error : VfsM Hash Unit) :=
      Moves.tryCatch (copySlot_still _ _) fun error =>
        Moves.bind (unusedAdd_still copy.slot) fun _ => Moves.throw error
    exact Moves.bind copied fun _ => Moves.pure _
  · apply Moves.bind effect_still
    intro _
    exact Moves.bind (onVfs_still fun _ => ⟨rfl, rfl, rfl⟩) fun _ => Moves.pure _

theorem dropUnfilled_still (entry : CacheEntry) (error : Err) :
    Moves Still (dropUnfilled entry error : VfsM Hash α) :=
  Moves.bind (Moves.when (onVfs_still fun _ => ⟨rfl, rfl, rfl⟩)) fun _ => Moves.throw error

def Transfer.seen (transfer : Transfer) (place : Place) : Views Hash → Views Hash :=
  if transfer.isWrite then growAt place else id

omit [DecidableEq Hash] [Digest Hash] in
theorem Transfer.seen_seen (transfer : Transfer) (place : Place) (views : Views Hash) :
    transfer.seen place (transfer.seen place views) = transfer.seen place views := by
  unfold Transfer.seen
  split
  · exact growAt_growAt place views
  · rfl

omit [DecidableEq Hash] [Digest Hash] in
theorem Transfer.seen_of_covered {vfs : Vfs Hash} (covered : Covered vfs place) :
    transfer.seen place vfs.view = vfs.view := by
  unfold Transfer.seen
  split
  · exact growAt_eq_self covered
  · rfl

def Extends (transfer : Transfer) (place : Place) (before after : World Hash) : Prop :=
  Still before after ∨ Frame (transfer.seen place) before after

theorem Frame.congr {seen other : Views Hash → Views Hash} (framed : Frame seen before after)
    (same : seen before.vfs.view = other before.vfs.view) :
    Frame other before after :=
  ⟨framed.szBlk, framed.session, framed.origins, framed.view.trans same, framed.events, framed.rows⟩

theorem Frame.twice {middle : World Hash} (first : Frame (transfer.seen place) before middle)
    (second : Frame (transfer.seen place) middle after) :
    Frame (transfer.seen place) before after :=
  (first.trans second).congr (Transfer.seen_seen transfer place _)

instance (transfer : Transfer) (place : Place) :
    IsPreorder (World Hash) (Extends transfer place) where
  refl world := .inl (Still.refl world)
  trans _ _ _ first second := by
    rcases first with first | first <;> rcases second with second | second
    · exact .inl (first.trans second)
    · exact .inr (first.trans second)
    · exact .inr (first.trans second)
    · exact .inr (first.twice second)

theorem Extends.still {post : α → World Hash → Prop} (follows : Follows Still start act world post) :
    Follows (Extends transfer place) start act world
      fun value after => Still start after ∧ post value after := by
  apply Meets.mono follows
  · exact fun value after both => ⟨.inl both.1, both.1, both.2⟩
  · exact fun _ after reached => .inl reached

theorem makeBlockWritable_follows (writes : transfer.isWrite = true) (reached : Still start world) :
    Follows (Extends transfer place) start
      (makeBlockWritable place db entry : VfsM Hash CacheEntry) world
      fun _ after => Frame (transfer.seen place) start after := by
  apply Follows.bind (Extends.still (Follows.of_moves (claimSlot_still entry) reached))
  intro target middle _ claimed
  have zeroed : Moves Still (Act.when (db.blkLocal.length ≤ place.pos)
      (tryCatch (zeroSlot target.slot) fun error => do
        onVfs fun vfs =>
          if target.slot = entry.slot then vfs.hashAdd entry else vfs.unusedAdd target.slot
        dropUnfilled entry error) : VfsM Hash Unit) := by
    apply Moves.when
    apply Moves.tryCatch (zeroSlot_still _)
    intro error
    apply Moves.bind (onVfs_still _) fun _ => dropUnfilled_still entry error
    intro vfs
    split
    · exact ⟨rfl, rfl, rfl⟩
    · exact ⟨rfl, rfl, rfl⟩
  apply Follows.bind (Extends.still (Follows.of_moves zeroed claimed.1))
  intro _ middle _ filled
  apply Follows.bind (Extends.still (Follows.of_moves draw_still filled.1))
  intro choice middle _ drawn
  apply Follows.bind (Extends.still (Follows.of_moves (record_still (.drew choice.name)) drawn.1))
  intro _ middle _ drawn
  apply Follows.modified_bind
  have named := nameBlock_frame middle place choice.name
  have added : (middle.vfs.nameBlock place choice.name).SameFront
      ((middle.vfs.nameBlock place choice.name).hashAdd
        { target with name := choice.name, dirty := true, staged := false, owner := some place }) :=
    ⟨rfl, rfl, rfl⟩
  have framed : Frame (transfer.seen place) start _ :=
    ((drawn.1.trans named).trans added.still).congr (by rw [Transfer.seen, if_pos writes]; rfl)
  exact Follows.pure (.inr framed) framed

theorem fillBlock_still (place : Place) (db : ManifestDb) (transfer : Transfer) (entry : CacheEntry) :
    Moves Still (fillBlock place db transfer entry : VfsM Hash (Bool × Bool)) := by
  apply Moves.tryCatch _ (dropUnfilled_still entry)
  apply Moves.bind (fetchBlock_still place db entry)
  rintro ⟨staged, fetched⟩
  exact Moves.bind (Moves.when (zeroSlot_still _)) fun _ => Moves.pure _

theorem readyBlock_follows (reached : Still start world)
    (covered : transfer.isWrite = true → entry.dirty = true → Covered start.vfs place) :
    Follows (Extends transfer place) start
      (readyBlock place db transfer entry : VfsM Hash (CacheEntry × Bool)) world
      fun _ after => Frame (transfer.seen place) start after := by
  apply Follows.bind (Extends.still (Follows.of_moves (fillBlock_still place db transfer entry) reached))
  rintro ⟨staged, fetched⟩ middle _ ⟨reached, _⟩
  dsimp only
  split
  · rename_i write
    apply Follows.bind (makeBlockWritable_follows write.1 reached)
    intro owned after moved framed
    exact Follows.pure moved framed
  · rename_i kept
    apply Follows.modified_bind
    have front : middle.vfs.SameFront (middle.vfs.setEntry entry.slot fun entry =>
        { entry with staged := staged }) := ⟨rfl, rfl, rfl⟩
    have still : Still start _ := reached.trans front.still
    apply Follows.pure (.inl still)
    apply still.congr
    by_cases writes : transfer.isWrite = true
    · have dirty : entry.dirty = true := by
        cases dirty : entry.dirty with
        | false => exact absurd ⟨writes, dirty⟩ kept
        | true => rfl
      exact (Transfer.seen_of_covered (covered writes dirty)).symm
    · rw [Transfer.seen, if_neg writes]

omit [DecidableEq Hash] [Digest Hash] in
theorem covered_of_lt {vfs : Vfs Hash} (found : vfs.database place.container place.dbId = some db)
    (inside : place.pos < db.blkLocal.length) : Covered vfs place := by
  apply covered_of_mapped
  rw [found]
  exact List.getElem?_eq_getElem inside

theorem makeRoom_none [BlockDigest] {error : Err} (reached : Still start world) :
    Follows Still start (makeRoom error : VfsM Hash (Option α)) world fun result _ => result = none := by
  apply Follows.bind (Follows.of_moves (Moves.require error) reached)
  intro _ middle moved _
  apply Follows.bind (Follows.of_moves (stageOne_still none) moved)
  intro _ after moved _
  exact Follows.pure moved rfl

theorem makeRoom_still [BlockDigest] (error : Err) : Moves Still (makeRoom error : VfsM Hash (Option α)) :=
  Follows.moves fun world => (makeRoom_none (Still.refl world)).mono fun _ _ _ _ => trivial

theorem acquireBlock_follows [BlockDigest] (place : Place) (transfer : Transfer) (world : World Hash) :
    Follows (Extends transfer place) world
      (acquireBlock place transfer : VfsM Hash (Option (CacheEntry × Bool))) world
      fun result after => result.isSome = true → Frame (transfer.seen place) world after := by
  apply Follows.get_bind
  cases found : world.vfs.database place.container place.dbId with
  | none => exact Follows.throw (.inl (Still.refl world))
  | some db =>
    apply Follows.bind (Extends.still (Follows.of_moves (Moves.require _) (Still.refl world)))
    rintro _ middle _ ⟨reached, _⟩
    have located : Follows Still world (findBlockForIo db place.pos : VfsM Hash CacheEntry).attempt middle
        fun result _ => ∀ entry, result = .ok entry → entry.dirty = true → place.pos < db.blkLocal.length := by
      apply Follows.attempt (findBlockForIo_follows reached)
      · rintro entry _ mapped _ ⟨⟩
        exact mapped
      · rintro error _ _ _ ⟨⟩
    apply Follows.bind (Extends.still located)
    rintro result middle _ ⟨reached, mapped⟩
    cases result with
    | ok entry =>
      have covered : transfer.isWrite = true → entry.dirty = true → Covered world.vfs place :=
        fun _ dirty => covered_of_lt found (mapped entry rfl dirty)
      apply Follows.bind (readyBlock_follows reached covered)
      intro ready after moved framed
      exact Follows.pure moved fun _ => framed
    | error error =>
      apply (Extends.still (makeRoom_none reached)).mono
      rintro _ after _ ⟨_, rfl⟩ impossible
      cases impossible

theorem Extends.resume (reached : Extends transfer place start world)
    (follows : Follows (Extends transfer place) world act world fun _ after =>
      Frame (transfer.seen place) world after) :
    Follows (Extends transfer place) start act world
      fun _ after => Frame (transfer.seen place) start after := by
  apply Meets.mono follows
  · intro value after both
    refine ⟨trans_of (Extends transfer place) reached both.1, ?_⟩
    rcases reached with still | framed
    · exact still.trans both.2
    · exact framed.twice both.2
  · exact fun _ after moved => trans_of (Extends transfer place) reached moved

theorem setEntry_still (slot : Nat) (change : CacheEntry → CacheEntry) :
    Moves Still (onVfs fun vfs : Vfs Hash => vfs.setEntry slot change) :=
  onVfs_still fun _ => ⟨rfl, rfl, rfl⟩

theorem stagedDelete_still (place : Place) :
    Moves Still (onVfs fun vfs : Vfs Hash => vfs.stagedDelete place) :=
  onVfs_still fun _ => ⟨rfl, rfl, rfl⟩

theorem moveBytes_still (slot : Nat) (transfer : Transfer) (offset : Nat) :
    Moves Still (moveBytes slot transfer offset : VfsM Hash Bytes) := by
  cases transfer with
  | read amount => exact Moves.bind (readSlot_still slot) fun _ => Moves.pure _
  | write bytes =>
    apply Moves.bind effect_still
    intro _
    exact Moves.bind (onVfs_still fun _ => ⟨rfl, rfl, rfl⟩) fun _ => Moves.pure _

theorem transferBlock_still (entry : CacheEntry) (row : Bool) (transfer : Transfer) (offset : Nat) :
    Moves Still (transferBlock entry row transfer offset : VfsM Hash Bytes) := by
  apply Moves.tryCatch
  · apply Moves.bind (moveBytes_still _ _ _)
    intro bytes
    apply Moves.bind (Moves.when effect_still)
    intro _
    exact Moves.bind (setEntry_still _ _) fun _ => Moves.pure _
  · exact dropUnfilled_still entry

theorem drainDirty_still [BlockDigest] : Moves Still (drainDirty : VfsM Hash Unit) := by
  apply Moves.bind Moves.get
  intro world
  apply Moves.when
  apply Moves.tryCatch (stageOne_still none)
  intro error
  exact Moves.require error

theorem Extends.settled (framed : Frame (transfer.seen place) start world) (moves : Moves Still act) :
    Follows (Extends transfer place) start act world
      fun _ after => Frame (transfer.seen place) start after := by
  apply Meets.mono (moves world)
  · exact fun _ after still => ⟨.inr (framed.trans still), framed.trans still⟩
  · exact fun _ after still => .inr (framed.trans still)

theorem readWriteOnce_follows [BlockDigest] (place : Place) (transfer : Transfer) (offset : Nat)
    (world : World Hash) :
    Follows (Extends transfer place) world
      (readWriteOnce place transfer offset : VfsM Hash (Option Bytes)) world
      fun result after => result.isSome = true → Frame (transfer.seen place) world after := by
  have acquired : Follows (Extends transfer place) world
      (acquireBlock place transfer : VfsM Hash (Option (CacheEntry × Bool))).attempt world
      fun result after => ∀ value, result = .ok (some value) →
        Frame (transfer.seen place) world after := by
    apply Follows.attempt (acquireBlock_follows place transfer world)
    · rintro _ after framed value ⟨⟩
      exact framed rfl
    · rintro error after _ value ⟨⟩
  apply Follows.bind acquired
  intro result middle reached framed
  match result with
  | .ok none => exact Follows.pure reached (by simp)
  | .ok (some (entry, row)) =>
    apply Follows.bind (Extends.settled (framed _ rfl) (transferBlock_still entry row transfer offset))
    intro bytes middle _ framed
    apply Follows.bind (Extends.settled framed (Moves.when drainDirty_still))
    intro _ after reached framed
    exact Follows.pure reached fun _ => framed
  | .error error =>
    apply Meets.mono (makeRoom_none (Still.refl middle))
    · rintro _ after ⟨still, rfl⟩
      exact ⟨trans_of (Extends transfer place) reached (.inl still), nofun⟩
    · exact fun _ after still => trans_of (Extends transfer place) reached (.inl still)

theorem readWriteDatabase_follows [BlockDigest] (place : Place) (transfer : Transfer) (offset : Nat)
    (rounds : Nat) (world : World Hash) :
    Follows (Extends transfer place) world
      (readWriteDatabase place transfer offset rounds : VfsM Hash Bytes) world
      fun _ after => Frame (transfer.seen place) world after := by
  induction rounds generalizing world with
  | zero =>
    apply Follows.bind (readWriteOnce_follows place transfer offset world)
    intro result after reached framed
    cases result with
    | none => exact Follows.throw reached
    | some bytes => exact Follows.pure reached (framed rfl)
  | succ rounds ih =>
    apply Follows.bind (readWriteOnce_follows place transfer offset world)
    intro result after reached framed
    cases result with
    | none => exact Extends.resume reached (ih after)
    | some bytes => exact Follows.pure reached (framed rfl)

theorem retry_follows {again : Err → Bool}
    (follows : ∀ world, Follows (Extends transfer place) world act world fun _ after =>
      Frame (transfer.seen place) world after)
    (rounds : Nat) (world : World Hash) :
    Follows (Extends transfer place) world (Act.retry again act rounds) world
      fun _ after => Frame (transfer.seen place) world after := by
  induction rounds generalizing world with
  | zero => exact follows world
  | succ rounds ih =>
    apply Follows.tryCatch (follows world)
    intro error middle reached
    split
    · exact Extends.resume reached (ih middle)
    · exact Follows.throw reached

theorem readWritePart_follows [BlockDigest] (container : String) (dbId : Nat) (transfer : Transfer)
    (offset : Nat) (world : World Hash) :
    Follows (Extends transfer ⟨container, dbId, offset / world.vfs.szBlk⟩) world
      (readWritePart container dbId transfer offset : VfsM Hash Bytes) world
      fun _ after =>
        Frame (transfer.seen ⟨container, dbId, offset / world.vfs.szBlk⟩) world after := by
  apply Follows.bind (Extends.still (Follows.of_moves (Moves.require _) (Still.refl world)))
  rintro _ middle _ ⟨reached, _⟩
  apply Follows.get_bind
  rw [reached.szBlk]
  apply Follows.tryCatch
  · apply Extends.resume (.inl reached)
    exact retry_follows (readWriteDatabase_follows _ transfer _ _) 10 middle
  · intro error after moved
    exact Follows.throw moved

end

end RusqDoltlite.Blocks

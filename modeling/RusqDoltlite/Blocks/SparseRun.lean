import RusqDoltlite.Blocks.SparseFile

/-! Whole runs from a freshly attached VFS. The published blocks are the reference to start
with, every call changes it as it changes a sparse file, and complete reads return its bytes. -/

namespace RusqDoltlite.Blocks

open Effects Session

/-- A call on the databases of a VFS. Staging may happen at any time. -/
inductive SparseCall where
  | write (container : String) (dbId : Nat) (bytes : Bytes) (offset : Nat)
  | read (container : String) (dbId amount offset : Nat)
  | truncate (container : String) (dbId size : Nat)
  | stage (only : Option String)
deriving DecidableEq, Repr

section

variable {Hash : Type} [DecidableEq Hash] [Digest Hash] [BlockDigest]

namespace SparseCall

def perform : SparseCall → VfsM Hash (Bytes × Bool)
  | .write container dbId bytes offset => do
      xWrite container dbId bytes offset
      return ([], true)
  | .read container dbId amount offset => xRead container dbId amount offset
  | .truncate container dbId size => do
      xTruncate container dbId size
      return ([], true)
  | .stage only => do
      stageOne only
      return ([], true)

def outcome (call : SparseCall) (world : World Hash) : Except Err (Bytes × Bool) :=
  (call.perform.run.run world).1

def after (call : SparseCall) (world : World Hash) : World Hash :=
  (call.perform.run.run world).2

/-- A call on the reference, with what it may return. A write that fails has written some of
its bytes; a read that is not complete is not compared. -/
def Shows (reference : Reference) :
    SparseCall → Except Err (Bytes × Bool) → Reference → Prop
  | .write container dbId bytes offset, .ok _, next =>
    next = reference.write container dbId offset bytes
  | .write container dbId bytes offset, .error _, next =>
    ∃ count ≤ bytes.length, next = reference.write container dbId offset (bytes.take count)
  | .truncate container dbId size, .ok _, next => next = reference.truncate container dbId size
  | .read container dbId amount offset, .ok (bytes, whole), next =>
    next = reference ∧ (whole = true → bytes = reference.range container dbId offset amount)
  | _, _, next => next = reference

/-- A write leaves no hole, and a truncate cuts no block in two. -/
def Whole (vfs : Vfs Hash) : SparseCall → Prop
  | .write container dbId bytes offset =>
    bytes = [] ∨ Reaches vfs ⟨container, dbId, offset / vfs.szBlk⟩
  | .truncate container dbId size => vfs.szBlk ∣ size ∨
      ∀ db, vfs.database container dbId = some db → db.blkLocal.length * vfs.szBlk ≤ size
  | .read _ _ _ _ | .stage _ => True

end SparseCall

def runCalls : List SparseCall → World Hash → World Hash
  | [], world => world
  | call :: rest, world => runCalls rest (call.after world)

def AllWhole : List SparseCall → World Hash → Prop
  | [], _ => True
  | call :: rest, world => call.Whole world.vfs ∧ AllWhole rest (call.after world)

/-- Every call of a run shows what it shows on the reference. -/
def Agrees : Reference → List SparseCall → World Hash → Prop
  | _, [], _ => True
  | reference, call :: rest, world => ∃ next,
      call.Shows reference (call.outcome world) next ∧ Agrees next rest (call.after world)

theorem Agrees.shows {reference : Reference} {call : SparseCall} {rest : List SparseCall}
    {world : World Hash} {outcome : Except Err (Bytes × Bool)}
    (agrees : Agrees reference (call :: rest) world) (ends : call.outcome world = outcome) :
    ∃ next, call.Shows reference outcome next ∧ Agrees next rest (call.after world) := by
  subst ends
  exact agrees

/-- The blocks of every reference a run can lead to are among those that occur. -/
def Naming.Covers (naming : Naming) (szBlk : Nat) : List SparseCall → Reference → Prop
  | [], _ => True
  | call :: rest, reference => ∀ outcome next, call.Shows reference outcome next →
      (∀ place, naming.occurs (next.block szBlk place)) ∧ naming.Covers szBlk rest next

def Onward (before after : World Hash) : Prop :=
  before.vfs.SameOrigins after.vfs ∧ before.events <:+ after.events

section

omit [BlockDigest]

instance : IsPreorder (World Hash) Onward where
  refl world := ⟨Vfs.SameOrigins.refl world.vfs, List.suffix_refl world.events⟩
  trans _ _ _ first second := ⟨first.1.trans second.1, List.IsSuffix.trans first.2 second.2⟩

theorem Frame.onward {seen : Views Hash → Views Hash} {before after : World Hash}
    (framed : Frame seen before after) : Onward before after :=
  ⟨⟨framed.szBlk, framed.origins⟩, framed.events⟩

theorem onward_of_still {act : VfsM Hash α} (moves : Moves Still act) : Moves Onward act :=
  moves.weaken fun _ _ still => still.onward

theorem onVfs_onward {change : Vfs Hash → Vfs Hash}
    (kept : ∀ vfs : Vfs Hash, vfs.SameOrigins (change vfs)) :
    Moves Onward (onVfs change : VfsM Hash Unit) :=
  fun world => ⟨kept world.vfs, List.suffix_refl world.events⟩

theorem cutBlocks_onward (container : String) (dbId count : Nat) (db : ManifestDb) :
    Moves Onward (cutBlocks container dbId count db : VfsM Hash Unit) := by
  apply Moves.bind (onward_of_still (undirtyBlocks_still container db _))
  intro _
  apply onVfs_onward
  intro vfs
  have cut : vfs.SameOrigins (vfs.setDatabase container dbId fun db =>
      { db with blkLocal := db.blkLocal.take count }) := Vfs.sameOrigins_setDatabase fun _ => rfl
  exact cut

theorem xTruncate_onward (container : String) (dbId size : Nat) :
    Moves Onward (xTruncate container dbId size : VfsM Hash Unit) := by
  apply Moves.bind Moves.get
  intro world
  cases (world.vfs.containers container).man with
  | none => exact Moves.throw _
  | some man =>
    cases world.vfs.database container dbId with
    | none => exact Moves.throw _
    | some db =>
      apply Moves.bind (Moves.require _)
      intro _
      apply Moves.bind (Moves.require _)
      intro _
      apply Moves.bind (Moves.when (cutBlocks_onward _ _ _ _))
      intro _
      exact onVfs_onward (Vfs.sameOrigins_noteTruncate container dbId size)

end

theorem readWritePart_onward (container : String) (dbId : Nat) (transfer : Transfer) (offset : Nat) :
    Moves Onward (readWritePart container dbId transfer offset : VfsM Hash Bytes) := by
  have onward : ∀ {place : Place} {before after : World Hash}, Extends transfer place before after →
      Onward before after := by
    intro place before after extended
    rcases extended with still | framed
    · exact still.onward
    · exact framed.onward
  intro world
  apply Meets.mono (readWritePart_follows container dbId transfer offset world)
  · exact fun _ _ both => onward both.1
  · exact fun _ _ reached => onward reached

theorem writeParts_onward (container : String) (dbId : Nat) (bytes : Bytes) (start : Nat)
    (pieces : List (Nat × Nat)) :
    Moves Onward (writeParts container dbId bytes start pieces : VfsM Hash Unit) := by
  induction pieces with
  | nil => exact Moves.pure ()
  | cons piece rest ih => exact Moves.bind (readWritePart_onward _ _ _ _) fun _ => ih

theorem readParts_onward (container : String) (dbId : Nat) (pieces : List (Nat × Nat)) :
    Moves Onward (readParts container dbId pieces : VfsM Hash (Bytes × Bool)) := by
  induction pieces with
  | nil => exact Moves.pure _
  | cons piece rest ih =>
    obtain ⟨offset, amount⟩ := piece
    apply Moves.bind (Moves.attempt (readWritePart_onward _ _ _ _))
    intro result
    cases result with
    | ok bytes => exact Moves.bind ih fun _ => Moves.pure _
    | error error => exact Moves.ite (Moves.pure _) (Moves.throw _)

theorem xWrite_onward (container : String) (dbId : Nat) (bytes : Bytes) (offset : Nat) :
    Moves Onward (xWrite container dbId bytes offset : VfsM Hash Unit) := by
  apply Moves.bind (onVfs_onward (Vfs.sameOrigins_ensureWriteSize container dbId))
  intro _
  apply Moves.bind Moves.get
  intro world
  apply Moves.bind (Moves.require _)
  intro _
  apply Moves.bind (writeParts_onward _ _ _ _ _)
  intro _
  apply Moves.bind (onVfs_onward (Vfs.sameOrigins_localNoteWrite container dbId offset bytes.length))
  intro _
  exact onVfs_onward (Vfs.sameOrigins_sessionNoteWrite container dbId offset bytes.length)

theorem xRead_onward (container : String) (dbId amount offset : Nat) :
    Moves Onward (xRead container dbId amount offset : VfsM Hash (Bytes × Bool)) := by
  apply Moves.bind Moves.get
  intro world
  exact Moves.bind (Moves.require _) fun _ => readParts_onward _ _ _

theorem SparseCall.perform_onward (call : SparseCall) :
    Moves Onward (call.perform : VfsM Hash (Bytes × Bool)) := by
  cases call with
  | write container dbId bytes offset =>
    exact Moves.bind (xWrite_onward container dbId bytes offset) fun _ => Moves.pure _
  | read container dbId amount offset => exact xRead_onward container dbId amount offset
  | truncate container dbId size =>
    exact Moves.bind (xTruncate_onward container dbId size) fun _ => Moves.pure _
  | stage only => exact Moves.bind (onward_of_still (stageOne_still only)) fun _ => Moves.pure _

section

omit [DecidableEq Hash] [Digest Hash] [BlockDigest]

theorem Vfs.SameOrigins.database {before after : Vfs Hash} (same : before.SameOrigins after)
    {container : String} {dbId : Nat} {db : ManifestDb}
    (known : after.database container dbId = some db) :
    ∃ old, before.database container dbId = some old ∧ old.blkOrig = db.blkOrig := by
  have read : ∀ vfs : Vfs Hash, (vfs.database container dbId).map origin =
      (vfs.origins container).bind fun man => man.findDatabaseById dbId := by
    intro vfs
    unfold Vfs.database Vfs.origins Manifest.findDatabaseById
    cases (vfs.containers container).man with
    | none => rfl
    | some man =>
      simp only [Option.bind_some, Option.map_some, List.find?_map]
      rfl
  have equal := read after
  rw [known, same.2, ← read before, Option.map_some] at equal
  obtain ⟨old, there, made⟩ := Option.map_eq_some_iff.mp equal.symm
  have orig : (origin old).blkOrig = (origin db).blkOrig := by rw [made]
  exact ⟨old, there, orig⟩

theorem Vfs.SameOrigins.szBlk {before after : Vfs Hash} (same : before.SameOrigins after)
    {container : String} {man : Manifest} (attached : (after.containers container).man = some man) :
    ∃ old, (before.containers container).man = some old ∧ old.szBlk = man.szBlk := by
  have equal := congrFun same.2 container
  unfold Vfs.origins at equal
  rw [attached, Option.map_some] at equal
  obtain ⟨old, there, made⟩ := Option.map_eq_some_iff.mp equal.symm
  have size := congrArg Manifest.szBlk made
  exact ⟨old, there, size⟩

end

/-- Every container has the block size of the VFS, and the names of original blocks are their own. -/
structure Settled (naming : Naming) (vfs : Vfs Hash) : Prop where
  foreign : Foreign naming vfs
  sized : ∀ container man, (vfs.containers container).man = some man → man.szBlk = vfs.szBlk

omit [DecidableEq Hash] [Digest Hash] in
theorem Settled.onward {naming : Naming} {before after : Vfs Hash} (settled : Settled naming before)
    (same : before.SameOrigins after) : Settled naming after := by
  constructor
  · intro container dbId db known name member
    obtain ⟨old, there, orig⟩ := same.database known
    exact settled.foreign container dbId old there name (orig ▸ member)
  · intro container man attached
    obtain ⟨old, there, size⟩ := same.szBlk attached
    rw [← size, settled.sized container old there, same.1]

variable {naming : Naming} {reference : Reference} {szBlk : Nat} {world : World Hash}

theorem SparseCall.ends {call : SparseCall} (good : Except Err (Bytes × Bool) → World Hash → Prop)
    (holds : Meets call.perform world (fun value after => good (.ok value) after)
      (fun error after => good (.error error) after)) :
    good (call.outcome world) (call.after world) := by
  unfold Meets at holds
  unfold SparseCall.outcome SparseCall.after
  split at holds
  · rename_i ran
    rw [ran]
    exact holds
  · rename_i ran
    rw [ran]
    exact holds

theorem SparseCall.step (call : SparseCall) (rests : AtRest naming reference szBlk world)
    (settled : Settled naming world.vfs) (whole : call.Whole world.vfs)
    (covered : ∀ outcome next, call.Shows reference outcome next →
      ∀ place, naming.occurs (next.block szBlk place))
    (foreseen : naming.Foresees (call.after world)) :
    ∃ next, call.Shows reference (call.outcome world) next ∧
      AtRest naming next szBlk (call.after world) := by
  revert foreseen
  apply SparseCall.ends fun outcome after => naming.Foresees after →
    ∃ next, call.Shows reference outcome next ∧ AtRest naming next szBlk after
  cases call with
  | write container dbId bytes offset =>
    have occurs : ∀ count ≤ bytes.length, ∀ place, naming.occurs
        ((reference.write container dbId offset (bytes.take count)).block szBlk place) :=
      fun count few => covered (.error ⟨.ioerr, ""⟩) _ ⟨count, few, rfl⟩
    have reaches : bytes ≠ [] → Reaches world.vfs ⟨container, dbId, offset / szBlk⟩ := by
      intro some_bytes
      have near := whole.resolve_left some_bytes
      rw [rests.size] at near
      exact near
    have writes := xWrite_writes rests occurs reaches
    simp only [SparseCall.perform, Meets.bind, Meets.pure]
    apply Meets.mono writes
    · intro _ after written foreseen
      exact ⟨_, rfl, (written foreseen).2⟩
    · intro error after failed foreseen
      obtain ⟨count, few, stopped⟩ := (failed foreseen).2
      exact ⟨_, ⟨count, few, rfl⟩, stopped⟩
  | read container dbId amount offset =>
    apply Meets.mono (xRead_reads rests)
    · rintro ⟨bytes, complete⟩ after ⟨still, read⟩ _
      exact ⟨reference, ⟨rfl, read⟩, still⟩
    · exact fun error after still _ => ⟨reference, rfl, still⟩
  | truncate container dbId size =>
    have cut := xTruncate_truncates rests settled.foreign
      (fun man attached => (settled.sized container man attached).trans rests.size)
      (by rw [← rests.size]; exact whole)
    simp only [SparseCall.perform, Meets.bind, Meets.pure]
    apply Meets.mono cut
    · exact fun _ after cut _ => ⟨_, rfl, cut⟩
    · exact fun error after still _ => ⟨reference, rfl, still⟩
  | stage only =>
    simp only [SparseCall.perform, Meets.bind, Meets.pure]
    apply ((stageOne_meets rests.sound only).both (stageOne_still only world)).mono
    · exact fun _ after staged _ =>
        ⟨reference, rfl, staged.1, staged.2.szBlk.trans rests.size⟩
    · exact fun _ after failed _ =>
        ⟨reference, rfl, failed.1.2, failed.2.szBlk.trans rests.size⟩

theorem SparseCall.after_onward (call : SparseCall) (world : World Hash) :
    Onward world (call.after world) :=
  SparseCall.ends (fun _ after => Onward world after) (call.perform_onward world)

theorem runCalls_onward (calls : List SparseCall) (world : World Hash) :
    Onward world (runCalls calls world) := by
  induction calls generalizing world with
  | nil => exact refl_of Onward world
  | cons call rest ih => exact trans_of Onward (call.after_onward world) (ih _)

theorem runCalls_rests (calls : List SparseCall) (rests : AtRest naming reference szBlk world)
    (settled : Settled naming world.vfs) (whole : AllWhole calls world)
    (covered : naming.Covers szBlk calls reference) (foreseen : naming.Foresees (runCalls calls world)) :
    Agrees reference calls world ∧ ∃ last, AtRest naming last szBlk (runCalls calls world) := by
  induction calls generalizing reference world with
  | nil => exact ⟨trivial, reference, rests⟩
  | cons call rest ih =>
    have later := runCalls_onward rest (call.after world)
    have now : naming.Foresees (call.after world) := (later.2.filterMap _).trans foreseen
    obtain ⟨next, shows, rested⟩ := call.step rests settled whole.1
      (fun outcome next shows => (covered outcome next shows).1) now
    obtain ⟨agrees, ends⟩ := ih rested (settled.onward (call.after_onward world).1) whole.2
      (covered _ next shows).2 foreseen
    exact ⟨⟨next, shows, agrees⟩, ends⟩

theorem agrees_of_rest (calls : List SparseCall) (rests : AtRest naming reference szBlk world)
    (settled : Settled naming world.vfs) (whole : AllWhole calls world)
    (covered : naming.Covers szBlk calls reference)
    (foreseen : naming.Foresees (runCalls calls world)) : Agrees reference calls world :=
  (runCalls_rests calls rests settled whole covered foreseen).1

def World.contents (world : World Hash) : Reference := fun container dbId i =>
  (((world.vfs.mapped ⟨container, dbId, i / world.vfs.szBlk⟩).bind world.blocks).getD []).getD
    (i % world.vfs.szBlk) 0

/-- A VFS that has just attached its containers, in an environment without faults. Published
blocks are in the store, and an object there is not another one's namesake. -/
structure FreshlyAttached (naming : Naming) (world : World Hash) : Prop where
  quiet : ∀ n, (world.choices n).fault = none
  arrivals : ∀ n, ∀ arrival ∈ (world.choices n).arrivals,
    arrival.1 ∉ naming.drawn ∧ naming.Fits arrival.1 arrival.2
  bound : ∀ container, (world.vfs.containers container).sessionId.isSome = true →
    (world.vfs.containers container).context.isSome = true
  positive : 0 < world.vfs.szBlk
  sized : ∀ container man, (world.vfs.containers container).man = some man →
    man.szBlk = world.vfs.szBlk
  empty : world.vfs.hash = [] ∧ world.vfs.unused = [] ∧ world.vfs.ledger.staged = [] ∧
    world.vfs.ledger.gc = []
  published : ∀ container dbId db, world.vfs.database container dbId = some db →
    db.blkLocal = db.blkOrig
  present : ∀ place name, world.vfs.mapped place = some name →
    ∃ bytes, world.blocks name = some bytes ∧ bytes.length = world.vfs.szBlk ∧ naming.occurs bytes
  stored : ∀ name bytes, world.blocks name = some bytes →
    name ∉ naming.drawn ∧ naming.Fits name bytes

omit [BlockDigest] in
theorem World.block_contents {place : Place} {name : BlockId} {bytes : Bytes}
    (positive : 0 < world.vfs.szBlk) (here : world.vfs.mapped place = some name)
    (there : world.blocks name = some bytes) (length : bytes.length = world.vfs.szBlk) :
    world.contents.block world.vfs.szBlk place = bytes := by
  apply List.ext_getElem
  · rw [Reference.length_block, length]
  · intro i small bound
    have inside : i < world.vfs.szBlk := by rwa [Reference.length_block] at small
    have quotient : (place.pos * world.vfs.szBlk + i) / world.vfs.szBlk = place.pos := by
      rw [Nat.mul_comm, Nat.mul_add_div positive, Nat.div_eq_of_lt inside, Nat.add_zero]
    have remainder : (place.pos * world.vfs.szBlk + i) % world.vfs.szBlk = i := by
      rw [Nat.mul_comm, Nat.mul_add_mod, Nat.mod_eq_of_lt inside]
    have named : world.vfs.mapped ⟨place.container, place.dbId, place.pos⟩ = some name := here
    simp only [Reference.block, List.getElem_map, List.getElem_range, World.contents, quotient,
      remainder, named, Option.bind_some, there, Option.getD_some]
    exact List.getD_eq_getElem _ _ bound

theorem FreshlyAttached.rests (fresh : FreshlyAttached naming world) :
    AtRest naming world.contents world.vfs.szBlk world := by
  obtain ⟨noEntries, noUnused, noRows, noDead⟩ := fresh.empty
  have block : ∀ place name, world.vfs.mapped place = some name → ∃ bytes,
      world.blocks name = some bytes ∧ naming.occurs bytes ∧
        world.contents.block world.vfs.szBlk place = bytes := by
    intro place name here
    obtain ⟨bytes, there, length, occurs⟩ := fresh.present place name here
    exact ⟨bytes, there, occurs, World.block_contents fresh.positive here there length⟩
  refine ⟨⟨fresh.quiet, fresh.arrivals, fresh.bound, fresh.positive, ?_, ?_, by simp, ?_, ?_, ?_, ?_,
    ?_, ?_, ?_, ?_, ?_⟩, rfl⟩
  · simp [noEntries]
  · simp [noUnused]
  · simp [noEntries, noUnused]
  · simp [noEntries]
  · simp [noEntries]
  · intro name bytes there
    refine ⟨(fresh.stored name bytes there).2, ?_⟩
    intro place here
    obtain ⟨other, stored, _, same⟩ := block place name here
    rw [same]
    exact Option.some.inj (there.symm.trans stored)
  · intro place name here
    obtain ⟨bytes, there, occurs, same⟩ := block place name here
    rw [same]
    refine ⟨(fresh.stored name bytes there).2, occurs, .inr ⟨by simp [there], .inl ?_⟩⟩
    obtain ⟨db, known, inside⟩ := Vfs.database_of_mapped here
    exact ⟨db, known, by rwa [← fresh.published _ _ db known]⟩
  · simp [noEntries]
  · rintro name drawn (there | ⟨entry, member, _⟩ | ⟨place, here⟩)
    · obtain ⟨bytes, there⟩ := Option.isSome_iff_exists.mp there
      exact absurd drawn (fresh.stored name bytes there).1
    · simp [noEntries] at member
    · obtain ⟨bytes, there, _⟩ := block place name here
      exact absurd drawn (fresh.stored name bytes there).1
  · intro container dbId db known i beyond
    have outside : world.vfs.mapped ⟨container, dbId, i / world.vfs.szBlk⟩ = none := by
      rw [Vfs.mapped, known, Option.bind_some]
      exact List.getElem?_eq_none ((Nat.le_div_iff_mul_le fresh.positive).mpr beyond)
    simp [World.contents, outside]
  · simp [noRows, noDead]

theorem FreshlyAttached.settled (fresh : FreshlyAttached naming world) :
    Settled naming world.vfs := by
  refine ⟨?_, fresh.sized⟩
  intro container dbId db known name member
  rw [← fresh.published container dbId db known] at member
  obtain ⟨pos, named⟩ := List.getElem?_of_mem member
  have here : world.vfs.mapped ⟨container, dbId, pos⟩ = some name := by
    rw [Vfs.mapped, known]
    exact named
  obtain ⟨bytes, there, _⟩ := fresh.present _ name here
  exact (fresh.stored name bytes there).1

/-- In every run whose writes leave no hole and whose truncates cut no block in two, every
complete read returns the bytes of the sparse file. -/
theorem calls_agree_with_sparse_file {calls : List SparseCall} (fresh : FreshlyAttached naming world)
    (whole : AllWhole calls world) (covered : naming.Covers world.vfs.szBlk calls world.contents)
    (foreseen : naming.Foresees (runCalls calls world)) : Agrees world.contents calls world :=
  agrees_of_rest calls fresh.rests fresh.settled whole covered foreseen

/-- No two entries share a slot, and no block is lost: it is dirty in the cache, or its object is stored
and is looked for there. -/
theorem calls_lose_no_block {calls : List SparseCall} (fresh : FreshlyAttached naming world)
    (whole : AllWhole calls world) (covered : naming.Covers world.vfs.szBlk calls world.contents)
    (foreseen : naming.Foresees (runCalls calls world)) :
    let last := runCalls calls world
    (last.vfs.hash.map CacheEntry.slot ++ last.vfs.unused).Nodup ∧
      ∀ place name, last.vfs.mapped place = some name → last.vfs.DirtyAt place name ∨
        (last.blocks name).isSome = true ∧ last.vfs.Fetchable place name := by
  obtain ⟨_, _, sound, _⟩ := runCalls_rests calls fresh.rests fresh.settled whole covered foreseen
  exact ⟨sound.distinct, fun place name mapped => (sound.named place name mapped).2.2⟩

end

theorem storedBlock_container (container : String) :
    storedBlock.vfs.containers container = ordinary ∨
      storedBlock.vfs.containers container = Container.free container := by
  by_cases named : container = "store"
  · exact .inl (if_pos named)
  · exact .inr (if_neg named)

theorem storedBlock_mapped (place : Place) :
    storedBlock.vfs.mapped place = if place = ⟨"store", 1, 0⟩ then some [9, 9] else none := by
  obtain ⟨container, dbId, pos⟩ := place
  by_cases named : container = "store"
  · subst named
    by_cases first : dbId = 1
    · subst first
      cases pos with
      | zero => rfl
      | succ pos => rfl
    · have unknown : storedBlock.vfs.database "store" dbId = none := by
        apply List.find?_eq_none.mpr
        intro db member
        obtain rfl := List.mem_singleton.mp member
        simpa using Ne.symm first
      simp [Vfs.mapped, unknown, first]
  · have unknown : storedBlock.vfs.database container dbId = none := by
      have free : storedBlock.vfs.containers container = Container.free container := if_neg named
      rw [Vfs.database, free]
      rfl
    simp [Vfs.mapped, unknown, named]

theorem storedBlock_block (place : Place) :
    storedBlock.contents.block 4 place =
      if place = ⟨"store", 1, 0⟩ then [1, 2, 3, 4] else [0, 0, 0, 0] := by
  split
  · rename_i same
    rw [same]
    rfl
  · rename_i apart
    have zeros : storedBlock.contents.block 4 place = List.replicate 4 0 := by
      apply List.eq_replicate_iff.mpr
      refine ⟨Reference.length_block _ _ _, ?_⟩
      intro byte member
      obtain ⟨i, small, rfl⟩ := List.mem_map.mp member
      have inside := List.mem_range.mp small
      have outside : storedBlock.vfs.mapped ⟨place.container, place.dbId, (place.pos * 4 + i) / 4⟩ =
          none := by
        have quotient : (place.pos * 4 + i) / 4 = place.pos := by omega
        rw [storedBlock_mapped, quotient, if_neg apart]
      have size : storedBlock.vfs.szBlk = 4 := rfl
      simp [World.contents, size, outside]
    exact zeros

def oneRewrite : Naming where
  occurs bytes := bytes = [1, 2, 3, 4] ∨ bytes = [1, 7, 3, 4] ∨ bytes = [0, 0, 0, 0]
  drawn := [[1, 6]]
  distinct := by decide
  injective := by
    rintro first second (rfl | rfl | rfl) (rfl | rfl | rfl) same <;>
      first | rfl | exact absurd same (by decide)
  random := by
    rintro name member bytes (rfl | rfl | rfl) <;>
      obtain rfl := List.mem_singleton.mp member <;> decide

theorem storedBlock_fresh : FreshlyAttached oneRewrite storedBlock where
  quiet _ := rfl
  arrivals := by
    intro n arrival member
    cases member
  bound := by
    intro container session
    rcases storedBlock_container container with same | same
    · rw [same] at session
      cases session
    · rw [same] at session
      cases session
  positive := by decide
  sized := by
    intro container man attached
    rcases storedBlock_container container with same | same
    · rw [same] at attached
      cases attached
      rfl
    · rw [same] at attached
      cases attached
  empty := ⟨rfl, rfl, rfl, rfl⟩
  published := by
    intro container dbId db known
    rcases storedBlock_container container with same | same
    · rw [Vfs.database, same] at known
      have found : (smallManifest [[9, 9]] 3).findDatabaseById dbId = some db := known
      have member : db ∈ (smallManifest [[9, 9]] 3).dbs := List.mem_of_find?_eq_some found
      obtain rfl := List.mem_singleton.mp member
      rfl
    · rw [Vfs.database, same] at known
      cases known
  present := by
    intro place name here
    rw [storedBlock_mapped] at here
    split at here
    · cases here
      exact ⟨[1, 2, 3, 4], rfl, rfl, .inl rfl⟩
    · cases here
  stored := by
    intro name bytes there
    have named : name = [9, 9] := by
      by_contra apart
      have lookup : ([([9, 9], [1, 2, 3, 4])] : List (BlockId × Bytes)).lookup name = some bytes := there
      have differs : (name == [9, 9]) = false := by simpa using apart
      rw [List.lookup_cons, differs] at lookup
      cases lookup
    subst named
    refine ⟨by decide, ?_⟩
    intro block _ same
    have length := congrArg List.length same
    rw [BlockDigest.md5_length] at length
    cases length

def rewriteAndRead : List SparseCall :=
  [.write "store" 1 [7] 1, .stage none, .read "store" 1 4 0]

theorem rewritten_block (place : Place) :
    oneRewrite.occurs ((storedBlock.contents.write "store" 1 1 [7]).block 4 place) := by
  by_cases same : place = ⟨"store", 1, 0⟩
  · rw [same]
    exact .inr (.inl (by decide))
  · have changed : Reference.ChangedAt 4 ⟨"store", 1, 1 / 4⟩ storedBlock.contents
        (storedBlock.contents.write "store" 1 1 [7]) := Reference.changedAt_write (by decide)
    rw [changed.block same, storedBlock_block, if_neg same]
    exact .inr (.inr rfl)

theorem rewriteAndRead_covered : oneRewrite.Covers 4 rewriteAndRead storedBlock.contents := by
  have start : ∀ place, oneRewrite.occurs (storedBlock.contents.block 4 place) := by
    intro place
    rw [storedBlock_block]
    split
    · exact .inl rfl
    · exact .inr (.inr rfl)
  have rest : ∀ file : Reference, (∀ place, oneRewrite.occurs (file.block 4 place)) →
      oneRewrite.Covers 4 [.stage none, .read "store" 1 4 0] file := by
    rintro file known outcome next rfl
    refine ⟨known, ?_⟩
    intro outcome last shows
    have same : last = next := by
      rcases outcome with error | ⟨bytes, whole⟩
      · exact shows
      · exact shows.1
    rw [same]
    exact ⟨known, trivial⟩
  intro outcome next shows
  have either : next = storedBlock.contents ∨ next = storedBlock.contents.write "store" 1 1 [7] := by
    rcases outcome with error | value
    · obtain ⟨count, few, rfl⟩ := shows
      have bound : count = 0 ∨ count = 1 := by
        have small : count ≤ 1 := few
        omega
      rcases bound with rfl | rfl
      · exact .inl (Reference.write_nil 1)
      · exact .inr rfl
    · exact .inr shows
  rcases either with rfl | rfl
  · exact ⟨start, rest _ start⟩
  · exact ⟨rewritten_block, rest _ rewritten_block⟩

theorem calls_agree_rewriteAndRead :
    Agrees storedBlock.contents rewriteAndRead storedBlock ∧
      (SparseCall.read "store" 1 4 0).outcome (runCalls [.write "store" 1 [7] 1, .stage none]
        storedBlock) = .ok ([1, 7, 3, 4], true) := by
  refine ⟨calls_agree_with_sparse_file storedBlock_fresh ?_ rewriteAndRead_covered ?_,
    by decide +kernel⟩
  · refine ⟨.inr ?_, trivial, trivial, trivial⟩
    intro db known
    exact Nat.zero_le _
  · unfold Naming.Foresees
    have drawn : drawnNames (runCalls rewriteAndRead storedBlock).events = [[1, 6]] := by decide +kernel
    rw [drawn]
    exact List.suffix_refl _

theorem calls_lose_no_block_rewriteAndRead :
    let last := runCalls rewriteAndRead storedBlock
    ∀ place name, last.vfs.mapped place = some name → last.vfs.DirtyAt place name ∨
      (last.blocks name).isSome = true ∧ last.vfs.Fetchable place name := by
  have whole : AllWhole rewriteAndRead storedBlock :=
    ⟨.inr fun _ _ => Nat.zero_le _, trivial, trivial, trivial⟩
  refine (calls_lose_no_block storedBlock_fresh whole rewriteAndRead_covered ?_).2
  have drawn : drawnNames (runCalls rewriteAndRead storedBlock).events = [[1, 6]] := by decide +kernel
  rw [Naming.Foresees, drawn]
  exact List.suffix_refl _

/-- A write that leaves a hole lets the hole be read from a slot of another block, and a truncate
inside a block leaves the old bytes behind the new end. -/
theorem holes_read_other_blocks :
    ¬ Agrees storedBlock.contents [.write "store" 1 [7] 8, .read "store" 1 12 0] storedBlock ∧
      ¬ Agrees storedBlock.contents
        [.truncate "store" 1 1, .write "store" 1 [5] 4, .read "store" 1 5 0] storedBlock := by
  constructor
  · intro agrees
    have written : (SparseCall.write "store" 1 [7] 8).outcome storedBlock = .ok ([], true) := by
      decide +kernel
    have returned : (SparseCall.read "store" 1 12 0).outcome
        ((SparseCall.write "store" 1 [7] 8).after storedBlock) =
          .ok ([1, 2, 3, 4, 1, 2, 3, 4, 7, 0, 0, 0], true) := by decide +kernel
    obtain ⟨next, wrote, others⟩ := agrees.shows written
    obtain ⟨last, read, _⟩ := others.shows returned
    have same : next = storedBlock.contents.write "store" 1 8 [7] := wrote
    have bytes := read.2 rfl
    rw [same] at bytes
    exact absurd bytes (by decide)
  · intro agrees
    have truncated : (SparseCall.truncate "store" 1 1).outcome storedBlock = .ok ([], true) := by
      decide +kernel
    have written : (SparseCall.write "store" 1 [5] 4).outcome
        ((SparseCall.truncate "store" 1 1).after storedBlock) = .ok ([], true) := by decide +kernel
    have returned : (SparseCall.read "store" 1 5 0).outcome ((SparseCall.write "store" 1 [5] 4).after
        ((SparseCall.truncate "store" 1 1).after storedBlock)) = .ok ([1, 2, 3, 4, 5], true) := by
      decide +kernel
    obtain ⟨first, cut, others⟩ := agrees.shows truncated
    obtain ⟨second, wrote, rest⟩ := others.shows written
    obtain ⟨last, read, _⟩ := rest.shows returned
    have start : first = storedBlock.contents.truncate "store" 1 1 := cut
    have same : second = first.write "store" 1 4 [5] := wrote
    have bytes := read.2 rfl
    rw [same, start] at bytes
    exact absurd bytes (by decide)

end RusqDoltlite.Blocks

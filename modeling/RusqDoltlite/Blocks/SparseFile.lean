import RusqDoltlite.Blocks.FileContents
import RusqDoltlite.Blocks.LocalSize
import Mathlib.Data.List.GetD

/-! Runs of writes, reads and truncates over the databases of one VFS. The reference undergoes
the same calls as a sparse file, and what a complete read returns is compared with it. -/

namespace RusqDoltlite.Blocks

open Effects Session

namespace Reference

variable {reference : Reference} {container : String} {dbId : Nat}

def write (reference : Reference) (container : String) (dbId offset : Nat) (bytes : Bytes) :
    Reference := fun name id i =>
  if name = container ∧ id = dbId ∧ offset ≤ i ∧ i < offset + bytes.length then
    bytes.getD (i - offset) 0
  else reference name id i

def truncate (reference : Reference) (container : String) (dbId size : Nat) : Reference :=
  fun name id i => if name = container ∧ id = dbId ∧ size ≤ i then 0 else reference name id i

@[simp] theorem write_nil (offset : Nat) :
    reference.write container dbId offset [] = reference := by
  funext name id i
  simp only [write, List.length_nil, Nat.add_zero]
  rw [if_neg]
  omega

theorem write_append (offset : Nat) (first second : Bytes) :
    (reference.write container dbId offset first).write container dbId (offset + first.length) second =
      reference.write container dbId offset (first ++ second) := by
  funext name id i
  simp only [write, List.length_append]
  by_cases here : name = container ∧ id = dbId
  · obtain ⟨rfl, rfl⟩ := here
    simp only [true_and]
    by_cases before : i < offset + first.length
    · rw [if_neg (by omega)]
      by_cases inside : offset ≤ i
      · rw [if_pos ⟨inside, before⟩, if_pos ⟨inside, by omega⟩, List.getD_append _ _ _ _ (by omega)]
      · rw [if_neg (by omega), if_neg (by omega)]
    · by_cases inside : i < offset + (first.length + second.length)
      · rw [if_pos ⟨by omega, by omega⟩, if_pos ⟨by omega, inside⟩,
          List.getD_append_right _ _ _ _ (by omega)]
        congr 1
        omega
      · rw [if_neg (by omega), if_neg (by omega), if_neg (by omega)]
  · rw [if_neg (by tauto), if_neg (by tauto), if_neg (by tauto)]

theorem range_write_before {offset start amount : Nat} {bytes : Bytes} (before : start + amount ≤ offset) :
    (reference.write container dbId offset bytes).range container dbId start amount =
      reference.range container dbId start amount := by
  apply List.map_congr_left
  intro i member
  have bound := List.mem_range.mp member
  rw [write, if_neg (by omega)]

theorem range_write_after {offset start amount : Nat} {bytes : Bytes}
    (after : offset + bytes.length ≤ start) :
    (reference.write container dbId offset bytes).range container dbId start amount =
      reference.range container dbId start amount := by
  apply List.map_congr_left
  intro i member
  rw [write, if_neg (by omega)]

theorem range_write_self {offset : Nat} {bytes : Bytes} :
    (reference.write container dbId offset bytes).range container dbId offset bytes.length = bytes := by
  apply List.ext_getElem
  · exact length_range _ _
  · intro i small bound
    simp only [range, List.getElem_map, List.getElem_range]
    rw [write, if_pos ⟨rfl, rfl, by omega, by omega⟩, Nat.add_sub_cancel_left,
      List.getD_eq_getElem _ _ bound]

theorem block_write {szBlk offset : Nat} {bytes : Bytes} (within : offset % szBlk + bytes.length ≤ szBlk) :
    (reference.write container dbId offset bytes).block szBlk ⟨container, dbId, offset / szBlk⟩ =
      overwrite (reference.block szBlk ⟨container, dbId, offset / szBlk⟩) bytes (offset % szBlk) := by
  have base := Nat.div_add_mod' offset szBlk
  generalize offset / szBlk = pos at base ⊢
  have split : ∀ file : Reference, file.block szBlk ⟨container, dbId, pos⟩ =
      file.range container dbId (pos * szBlk) (offset % szBlk) ++
        (file.range container dbId offset bytes.length ++
          file.range container dbId (offset + bytes.length)
            (szBlk - (offset % szBlk + bytes.length))) := by
    intro file
    have size : offset % szBlk + (bytes.length + (szBlk - (offset % szBlk + bytes.length))) = szBlk := by
      omega
    rw [← range_add]
    nth_rewrite 2 [← base]
    rw [← range_add, size]
    rfl
  rw [split, split reference, range_write_before (by omega), range_write_self,
    range_write_after (by omega)]
  unfold overwrite
  rw [List.take_left' (length_range _ _), List.append_assoc]
  congr 2
  rw [← List.append_assoc, List.drop_left']
  simp

theorem changedAt_write {szBlk offset : Nat} {bytes : Bytes}
    (within : offset % szBlk + bytes.length ≤ szBlk) :
    ChangedAt szBlk ⟨container, dbId, offset / szBlk⟩ reference
      (reference.write container dbId offset bytes) := by
  intro name id i
  by_cases inside : name = container ∧ id = dbId ∧ offset ≤ i ∧ i < offset + bytes.length
  · right
    obtain ⟨rfl, rfl, low, high⟩ := inside
    refine ⟨rfl, rfl, ?_⟩
    have base := Nat.div_add_mod' offset szBlk
    dsimp only
    apply Nat.div_eq_of_lt_le
    · omega
    · rw [Nat.succ_mul]
      omega
  · left
    rw [write, if_neg inside]

theorem block_truncate {count szBlk : Nat} {place : Place}
    (kept : ¬ (place.container = container ∧ place.dbId = dbId ∧ count ≤ place.pos)) :
    (reference.truncate container dbId (count * szBlk)).block szBlk place =
      reference.block szBlk place := by
  apply List.map_congr_left
  intro i member
  have inside : i < szBlk := List.mem_range.mp member
  rw [truncate, if_neg]
  rintro ⟨first, second, beyond⟩
  apply kept
  refine ⟨first, second, ?_⟩
  by_contra low
  have bound : (place.pos + 1) * szBlk ≤ count * szBlk := Nat.mul_le_mul_right _ (by omega)
  rw [Nat.succ_mul] at bound
  omega

end Reference

variable {Hash : Type}

/-- The place lies inside the mapping of its database, or right behind it. -/
def Reaches (vfs : Vfs Hash) (place : Place) : Prop :=
  ∀ db, vfs.database place.container place.dbId = some db → place.pos ≤ db.blkLocal.length

theorem reaches_iff {vfs : Vfs Hash} {place : Place} :
    Reaches vfs place ↔ ∀ view ∈ vfs.view place.container place.dbId, place.pos ≤ view.count := by
  constructor
  · intro reaches view found
    obtain ⟨man, db, _, known, same⟩ := Vfs.view_eq_some found
    rw [same]
    exact reaches db known
  · intro reaches db known
    obtain ⟨view, found, count⟩ := Vfs.view_of_database known
    rw [← count]
    exact reaches view found

namespace Vfs

structure SameBlocks (before after : Vfs Hash) : Prop where
  hash : after.hash = before.hash
  unused : after.unused = before.unused
  slots : after.slots = before.slots
  file : after.file = before.file
  szBlk : after.szBlk = before.szBlk
  ledger : after.ledger = before.ledger
  blocks : ∀ container dbId,
    (after.database container dbId).map (fun db => (db.blkOrig, db.blkLocal)) =
      (before.database container dbId).map fun db => (db.blkOrig, db.blkLocal)
  session : ∀ container,
    (after.containers container).sessionId = (before.containers container).sessionId
  context : ∀ container,
    (after.containers container).context.isSome = (before.containers container).context.isSome

namespace SameBlocks

variable {before middle after : Vfs Hash}

theorem refl (vfs : Vfs Hash) : vfs.SameBlocks vfs :=
  ⟨rfl, rfl, rfl, rfl, rfl, rfl, fun _ _ => rfl, fun _ => rfl, fun _ => rfl⟩

theorem trans (first : before.SameBlocks middle) (second : middle.SameBlocks after) :
    before.SameBlocks after :=
  ⟨second.hash.trans first.hash, second.unused.trans first.unused, second.slots.trans first.slots,
    second.file.trans first.file, second.szBlk.trans first.szBlk, second.ledger.trans first.ledger,
    fun container dbId => (second.blocks container dbId).trans (first.blocks container dbId),
    fun container => (second.session container).trans (first.session container),
    fun container => (second.context container).trans (first.context container)⟩

theorem database (same : before.SameBlocks after) {container : String} {dbId : Nat} {db : ManifestDb}
    (known : after.database container dbId = some db) :
    ∃ old, before.database container dbId = some old ∧ old.blkOrig = db.blkOrig ∧
      old.blkLocal = db.blkLocal := by
  have blocks := same.blocks container dbId
  rw [known, Option.map_some] at blocks
  obtain ⟨old, there, equal⟩ := Option.map_eq_some_iff.mp blocks.symm
  obtain ⟨orig, mapping⟩ := Prod.mk.inj equal
  exact ⟨old, there, orig, mapping⟩

theorem mapped (same : before.SameBlocks after) : after.mapped = before.mapped := by
  have read : ∀ (vfs : Vfs Hash) (place : Place), vfs.mapped place =
      ((vfs.database place.container place.dbId).map fun db => (db.blkOrig, db.blkLocal)).bind
        fun both => both.2[place.pos]? := by
    intro vfs place
    unfold Vfs.mapped
    cases vfs.database place.container place.dbId with
    | none => rfl
    | some db => rfl
  funext place
  rw [read, read, same.blocks]

theorem symm (same : before.SameBlocks after) : after.SameBlocks before :=
  ⟨same.hash.symm, same.unused.symm, same.slots.symm, same.file.symm, same.szBlk.symm,
    same.ledger.symm, fun container dbId => (same.blocks container dbId).symm,
    fun container => (same.session container).symm, fun container => (same.context container).symm⟩

theorem fetchable (same : before.SameBlocks after) {place : Place} {name : BlockId}
    (fetchable : before.Fetchable place name) : after.Fetchable place name := by
  rcases fetchable with ⟨db, known, original⟩ | staged
  · obtain ⟨old, there, orig, _⟩ := same.symm.database known
    refine .inl ⟨old, there, ?_⟩
    rw [orig]
    exact original
  · right
    rw [same.ledger]
    exact staged

end SameBlocks

theorem sameBlocks_setContext (vfs : Vfs Hash) (container : String)
    (change : Context Hash → Context Hash) : vfs.SameBlocks (vfs.setContext container change) := by
  refine ⟨rfl, rfl, rfl, rfl, rfl, rfl, ?_, ?_, ?_⟩
  · intro other dbId
    unfold setContext database
    dsimp only
    split <;> rfl
  · intro other
    unfold setContext
    dsimp only
    split <;> rfl
  · intro other
    unfold setContext
    dsimp only
    split
    · simp
    · rfl

theorem sameBlocks_setDatabase (vfs : Vfs Hash) (container : String) (dbId : Nat)
    {change : ManifestDb → ManifestDb} (kept : ∀ db, (change db).dbId = db.dbId ∧
      (change db).blkOrig = db.blkOrig ∧ (change db).blkLocal = db.blkLocal) :
    vfs.SameBlocks (vfs.setDatabase container dbId change) := by
  refine ⟨rfl, rfl, rfl, rfl, rfl, rfl, ?_, fun _ => sessionId_setDatabase _, ?_⟩
  · intro other id
    rw [database_setDatabase fun db => (kept db).1]
    split
    · rw [Option.map_map]
      congr 1
      funext db
      simp only [Function.comp_apply, (kept db).2.1, (kept db).2.2]
    · rfl
  · intro other
    rw [context_setDatabase]

end Vfs

theorem sameBlocks_ensureWriteSize (container : String) (dbId : Nat) (vfs : Vfs Hash) :
    vfs.SameBlocks (ensureWriteSize container dbId vfs) := by
  unfold ensureWriteSize
  split
  · split
    · exact vfs.sameBlocks_setContext container _
    · exact .refl vfs
  · exact .refl vfs

theorem sameBlocks_localNoteWrite (container : String) (dbId offset amount : Nat) (vfs : Vfs Hash) :
    vfs.SameBlocks (localNoteWrite container dbId offset amount vfs) := by
  unfold localNoteWrite
  split
  · exact .refl vfs
  · exact vfs.sameBlocks_setDatabase container dbId fun _ => ⟨rfl, rfl, rfl⟩

theorem sameBlocks_sessionNoteWrite (container : String) (dbId offset amount : Nat) (vfs : Vfs Hash) :
    vfs.SameBlocks (sessionNoteWrite container dbId offset amount vfs) := by
  unfold sessionNoteWrite
  split
  · exact (sameBlocks_ensureWriteSize container dbId vfs).trans (Vfs.sameBlocks_setContext _ container _)
  · exact .refl vfs

theorem sameBlocks_noteTruncate (container : String) (dbId size : Nat) (vfs : Vfs Hash) :
    vfs.SameBlocks (noteTruncate container dbId size vfs) := by
  unfold noteTruncate
  split
  · exact vfs.sameBlocks_setContext container _
  · exact vfs.sameBlocks_setDatabase container dbId fun _ => ⟨rfl, rfl, rfl⟩

variable [DecidableEq Hash] [Digest Hash]

theorem Reaches.extended {transfer : Transfer} {place : Place} {before after : World Hash}
    (reaches : Reaches before.vfs place) (extended : Extends transfer place before after) :
    Reaches after.vfs place := by
  rw [reaches_iff] at reaches ⊢
  intro view found
  rcases extended with still | framed
  · rw [still.view] at found
    exact reaches view found
  · rw [framed.view, Transfer.seen] at found
    split at found
    · simp only [growAt, and_self, ↓reduceIte, Option.mem_map] at found
      obtain ⟨old, there, rfl⟩ := found
      exact (reaches old there).trans (le_max_left _ _)
    · exact reaches view found

theorem reaches_next {container : String} {dbId pos : Nat} {bytes : Bytes} {before after : World Hash}
    (framed : Frame ((Transfer.write bytes).seen ⟨container, dbId, pos⟩) before after) {next : Nat}
    (near : next ≤ pos + 1) : Reaches after.vfs ⟨container, dbId, next⟩ := by
  rw [reaches_iff]
  intro view found
  have grown : view ∈ growAt ⟨container, dbId, pos⟩ before.vfs.view container dbId := by
    rw [framed.view] at found
    exact found
  simp only [growAt, and_self, ↓reduceIte, Option.mem_map] at grown
  obtain ⟨old, _, rfl⟩ := grown
  exact near.trans (le_max_right _ _)

variable [BlockDigest] {naming : Naming} {reference : Reference} {world : World Hash} {place : Place}
  {container : String} {dbId : Nat}

section

variable {later : Reference} {bytes : Bytes} {offset szBlk : Nat}

theorem drainDirty_meets (sound : Sound naming reference [] none world) :
    Meets (drainDirty : VfsM Hash Unit) world
      (fun _ after => Sound naming reference [] none after) (fun _ _ => False) := by
  unfold drainDirty
  rw [Meets.bind, Meets.get, Meets.when]
  split
  · rw [Meets.tryCatch]
    apply (stageOne_meets sound none).mono
    · exact fun _ _ staged => staged
    · rintro error after ⟨full, rests⟩
      rw [Meets.require, if_pos full]
      exact rests
  · exact sound

theorem readWriteOnce_writes (rests : AtRest naming reference szBlk world)
    (reaches : Reaches world.vfs place) (changed : Reference.ChangedAt szBlk place reference later)
    (occurs : naming.occurs (later.block szBlk place))
    (written : later.block szBlk place = overwrite (reference.block szBlk place) bytes offset) :
    Under naming.Foresees
      (readWriteOnce place (.write bytes) offset : VfsM Hash (Option Bytes)) world
      (fun result after => AtRest naming (if result.isSome then later else reference) szBlk after)
      (fun _ after => AtRest naming reference szBlk after) := by
  obtain ⟨sound, rfl⟩ := rests
  have writes : Under naming.Foresees
      (readWriteOnce place (.write bytes) offset : VfsM Hash (Option Bytes)) world
      (fun result after =>
        Sound naming (if result.isSome then later else reference) [] none after)
      (fun _ after => Sound naming reference [] none after) := by
    have acquires : Under naming.Foresees
        (acquireBlock place (.write bytes) : VfsM Hash (Option (CacheEntry × Bool))).attempt world
        (fun result after => match result with
          | .ok (some (entry, _)) => after.vfs.szBlk = world.vfs.szBlk ∧
              Writable naming reference later place entry.slot after
          | .ok none | .error _ => Sound naming reference [] none after)
        (fun _ after => Sound naming reference [] none after) := by
      apply Under.attempt
      apply ((acquireBlock_writes sound reaches changed occurs).along
        (acquireBlock_follows place (.write bytes) world)).mono
      · rintro (_ | ⟨entry, row⟩) after _ ⟨acquired, reached, _⟩
        · exact acquired
        · exact ⟨reached.szBlk, acquired⟩
      · exact fun _ _ _ both => both.1
    unfold readWriteOnce
    apply Under.bind acquires
    intro result middle known
    match result with
    | .ok none => exact Under.pure known
    | .ok (some (entry, row)) =>
      have moves : Moves Still (do
          let moved ← transferBlock entry row (.write bytes) offset
          Act.when ((Transfer.write bytes).isWrite = true) drainDirty
          return some moved : VfsM Hash (Option Bytes)) :=
        Moves.bind (transferBlock_still _ _ _ _) fun _ =>
          Moves.bind (Moves.when drainDirty_still) fun _ => Moves.pure _
      have back := naming.back (grows_of_still moves)
      apply Under.guard back
      intro foreseen
      obtain ⟨size, writable⟩ := known foreseen
      rw [← size] at written
      apply Under.of_meets back
      rw [Meets.bind]
      apply (transferBlock_writes writable written).sure
      intro moved after sound
      have writes : (Transfer.write bytes).isWrite = true := rfl
      rw [Meets.bind, Meets.when, if_pos writes]
      apply (drainDirty_meets sound).sure
      exact fun _ _ rests => rests
    | .error error =>
      have moves : Moves Still (makeRoom error : VfsM Hash (Option Bytes)) := makeRoom_still error
      have back := naming.back (grows_of_still moves)
      apply Under.guard back
      intro foreseen
      apply (Under.of_meets back (makeRoom_meets (known foreseen) error)).mono
      · rintro _ after _ ⟨rfl, rests⟩
        exact rests
      · exact fun _ _ _ rests => rests
  apply (writes.along (readWriteOnce_follows place (.write bytes) offset world)).mono
  · exact fun _ _ _ both => ⟨both.1, both.2.1.szBlk⟩
  · exact fun _ _ _ both => ⟨both.1, both.2.szBlk⟩

theorem readWriteDatabase_writes (rounds : Nat) (rests : AtRest naming reference szBlk world)
    (reaches : Reaches world.vfs place) (changed : Reference.ChangedAt szBlk place reference later)
    (occurs : naming.occurs (later.block szBlk place))
    (written : later.block szBlk place = overwrite (reference.block szBlk place) bytes offset) :
    Under naming.Foresees
      (readWriteDatabase place (.write bytes) offset rounds : VfsM Hash Bytes) world
      (fun _ after => AtRest naming later szBlk after)
      (fun _ after => AtRest naming reference szBlk after ∧ Reaches after.vfs place) := by
  induction rounds generalizing world with
  | zero =>
    have once := (readWriteOnce_writes rests reaches changed occurs written).along
      (readWriteOnce_follows place (.write bytes) offset world)
    apply Under.bind (once.mono (fun _ _ _ both => both)
      fun _ _ _ both => ⟨both.1, reaches.extended both.2⟩)
    intro result middle known
    cases result with
    | none =>
      apply Under.throw
      intro foreseen
      obtain ⟨rests, reached, _⟩ := known foreseen
      exact ⟨rests, reaches.extended reached⟩
    | some moved => exact Under.pure fun foreseen => (known foreseen).1
  | succ rounds ih =>
    have once := (readWriteOnce_writes rests reaches changed occurs written).along
      (readWriteOnce_follows place (.write bytes) offset world)
    apply Under.bind (once.mono (fun _ _ _ both => both)
      fun _ _ _ both => ⟨both.1, reaches.extended both.2⟩)
    intro result middle known
    cases result with
    | none =>
      apply Under.guard (naming.back (grows_of_extends
        (readWriteDatabase_follows place (.write bytes) offset rounds)))
      intro foreseen
      obtain ⟨rests, reached, _⟩ := known foreseen
      exact ih rests (reaches.extended reached)
    | some moved => exact Under.pure fun foreseen => (known foreseen).1

theorem readWritePart_writes (rests : AtRest naming reference szBlk world)
    (reaches : Reaches world.vfs ⟨container, dbId, offset / szBlk⟩)
    (within : offset % szBlk + bytes.length ≤ szBlk)
    (occurs : naming.occurs ((reference.write container dbId offset bytes).block szBlk
      ⟨container, dbId, offset / szBlk⟩)) :
    Under naming.Foresees
      (readWritePart container dbId (.write bytes) offset : VfsM Hash Bytes) world
      (fun _ after => AtRest naming (reference.write container dbId offset bytes) szBlk after)
      (fun _ after => AtRest naming reference szBlk after) := by
  have required : Meets (Act.require (¬ (offset = 0 ∧ (Transfer.write bytes).amount = 100 ∧
      dbId < firstLocalId)) ⟨shortRead, ""⟩ : VfsM Hash Unit) world
      (fun _ after => world = after) (fun _ after => AtRest naming reference szBlk after) := by
    rw [Meets.require]
    split
    · rfl
    · exact rests
  unfold readWritePart
  apply Under.first_bind (naming.back (grows_of_still (Moves.require _))) required
  rintro _ _ rfl
  apply Under.get_bind
  rw [rests.size]
  have retries : Under naming.Foresees (Act.retry (fun error => error.code = .httpAuthError)
      (readWriteDatabase ⟨container, dbId, offset / szBlk⟩ (.write bytes) (offset % szBlk)
        (world.vfs.slots + 1)) 10 : VfsM Hash Bytes) world
      (fun _ after => AtRest naming (reference.write container dbId offset bytes) szBlk after)
      (fun _ after => AtRest naming reference szBlk after ∧
        Reaches after.vfs ⟨container, dbId, offset / szBlk⟩) := by
    apply Under.retry (naming.back (grows_of_extends (readWriteDatabase_follows _ _ _ _)))
    · rintro state ⟨rests, reaches⟩
      exact readWriteDatabase_writes _ rests reaches (Reference.changedAt_write within) occurs
        (Reference.block_write within)
    · exact fun _ => ⟨rests, reaches⟩
  apply Under.tryCatch retries
  intro error middle known
  exact Under.throw fun foreseen => (known foreseen).1

theorem writeParts_events (container : String) (dbId : Nat) (bytes : Bytes) (start : Nat)
    (pieces : List (Nat × Nat)) :
    Moves Grows (writeParts container dbId bytes start pieces : VfsM Hash Unit) := by
  induction pieces with
  | nil => exact Moves.pure ()
  | cons piece rest ih =>
    obtain ⟨offset, amount⟩ := piece
    exact Moves.bind (grows_of_extends (readWritePart_follows container dbId _ offset)) fun _ => ih

/-- The parts of a write that remain, after those before `offset` have been written. A write
that fails has written some of its bytes. -/
theorem writeParts_writes (positive : 0 < szBlk) (start : Nat)
    (fuel amount : Nat) (enough : amount ≤ fuel) (begun : start ≤ offset)
    (left : offset + amount = start + bytes.length)
    (occurs : ∀ count ≤ bytes.length, ∀ place, naming.occurs
      ((reference.write container dbId start (bytes.take count)).block szBlk place))
    (rests : AtRest naming (reference.write container dbId start (bytes.take (offset - start))) szBlk
      world)
    (reaches : Reaches world.vfs ⟨container, dbId, offset / szBlk⟩) :
    Under naming.Foresees
      (writeParts container dbId bytes start (parts szBlk fuel offset amount) : VfsM Hash Unit) world
      (fun _ after => AtRest naming (reference.write container dbId start bytes) szBlk after)
      (fun _ after => ∃ count ≤ bytes.length,
        AtRest naming (reference.write container dbId start (bytes.take count)) szBlk after) := by
  have ended : ∀ end_, end_ = start + bytes.length → bytes.take (end_ - start) = bytes := by
    intro end_ same
    apply List.take_of_length_le
    omega
  induction fuel generalizing world offset amount with
  | zero =>
    rw [ended offset (by omega)] at rests
    exact Under.pure fun _ => rests
  | succ fuel ih =>
    unfold parts
    split
    · rename_i none_left
      rw [ended offset (by omega)] at rests
      exact Under.pure fun _ => rests
    · have bound := Nat.mod_lt offset positive
      dsimp only
      generalize piece : min (szBlk - offset % szBlk) amount = size
      generalize slice : (bytes.drop (offset - start)).take size = part
      have length : part.length = size := by
        rw [← slice, List.length_take, List.length_drop]
        omega
      have base : start + (bytes.take (offset - start)).length = offset := by
        rw [List.length_take]
        omega
      have joined : (reference.write container dbId start (bytes.take (offset - start))).write
          container dbId offset part =
          reference.write container dbId start (bytes.take (offset + size - start)) := by
        nth_rewrite 2 [← base]
        rw [Reference.write_append, ← slice, ← List.take_add]
        congr 2
        omega
      have within : offset % szBlk + part.length ≤ szBlk := by omega
      have known : naming.occurs (((reference.write container dbId start
          (bytes.take (offset - start))).write container dbId offset part).block szBlk
          ⟨container, dbId, offset / szBlk⟩) := by
        rw [joined]
        exact occurs _ (by omega) _
      have first := (readWritePart_writes rests reaches within known).along
        (readWritePart_follows container dbId (.write part) offset world)
      rw [writeParts, slice]
      apply Under.bind (first.mono (fun _ _ _ both => both)
        fun _ _ _ both => ⟨offset - start, by omega, both.1⟩)
      intro _ middle done
      apply Under.guard (naming.back (writeParts_events _ _ _ _ _))
      intro foreseen
      obtain ⟨moved, _, framed⟩ := done foreseen
      rw [joined] at moved
      rw [rests.size] at framed
      have near : (offset + size) / szBlk ≤ offset / szBlk + 1 := by
        have base := Nat.div_add_mod' offset szBlk
        apply Nat.le_of_lt_succ
        apply (Nat.div_lt_iff_lt_mul positive).mpr
        rw [Nat.succ_mul, Nat.succ_mul]
        omega
      exact ih (amount - size) (by omega) (by omega) (by omega) moved (reaches_next framed near)

omit [BlockDigest] in
theorem onVfs_events (change : Vfs Hash → Vfs Hash) : Moves Grows (onVfs change : VfsM Hash Unit) :=
  fun world => List.suffix_refl world.events

theorem Sound.sameBlocks {flight : List Nat} {out : Option Nat}
    (sound : Sound naming reference flight out world) {after : Vfs Hash}
    (same : world.vfs.SameBlocks after) :
    Sound naming reference flight out { world with vfs := after } := by
  have mapped := same.mapped
  have bytes : after.slotBytes = world.vfs.slotBytes := by
    funext slot
    simp only [Vfs.slotBytes, same.file, same.szBlk]
  have inFile : after.inFile = world.vfs.inFile := by
    funext slot
    simp only [Vfs.inFile, same.file, same.slots]
  refine ⟨sound.quiet, sound.arrivals, ?_, ?_, ?_, ?_, ?_, ?_, ?_, ?_, ?_, ?_, ?_, ?_, ?_, ?_⟩
  all_goals dsimp only
  · intro container session
    rw [same.session] at session
    rw [same.context]
    exact sound.bound container session
  · rw [same.szBlk]
    exact sound.positive
  · rw [same.hash, same.slots]
    exact sound.slots
  · rw [same.unused, same.slots]
    exact sound.unused
  · rw [same.unused, same.slots]
    exact sound.taken
  · rw [same.hash, same.unused]
    exact sound.distinct
  · rw [same.hash, inFile]
    exact sound.ready
  · rw [same.hash, bytes, mapped, same.szBlk]
    exact sound.cached
  · rw [mapped, same.szBlk]
    exact sound.stored
  · rw [mapped, same.szBlk]
    intro place name here
    obtain ⟨fits, occurs, held⟩ := sound.named place name here
    refine ⟨fits, occurs, held.imp ?_ fun both => ⟨both.1, same.fetchable both.2⟩⟩
    unfold Vfs.DirtyAt
    rw [same.hash]
    exact id
  · rw [same.hash]
    intro entry member dirty
    rcases sound.dirty entry member dirty with flying | ⟨place, owned⟩
    · exact .inl flying
    · refine .inr ⟨place, owned.drawn, owned.owner, ?_, ?_, ?_, owned.unstored⟩
      · exact (congrFun mapped place).trans owned.mapped
      · dsimp only
        rw [mapped]
        exact owned.alone
      · dsimp only
        rw [same.hash]
        exact owned.single
  · rw [same.hash, mapped]
    exact sound.known
  · intro container dbId db known i beyond
    obtain ⟨old, there, _, mapping⟩ := same.database known
    rw [same.szBlk, ← mapping] at beyond
    exact sound.zeros container dbId old there i beyond
  · rw [same.ledger]
    exact sound.sequences

theorem AtRest.sameBlocks (rests : AtRest naming reference szBlk world) {after : Vfs Hash}
    (same : world.vfs.SameBlocks after) :
    AtRest naming reference szBlk { world with vfs := after } :=
  ⟨rests.sound.sameBlocks same, same.szBlk.trans rests.size⟩

omit [DecidableEq Hash] [Digest Hash] [BlockDigest] in
theorem Reaches.sameBlocks {before after : Vfs Hash} (reaches : Reaches before place)
    (same : before.SameBlocks after) : Reaches after place := by
  intro db known
  obtain ⟨old, there, _, mapping⟩ := same.database known
  rw [← mapping]
  exact reaches old there

/-- A write that leaves no hole changes the reference as it changes a file; one that fails has
written some of its bytes. -/
theorem xWrite_writes (rests : AtRest naming reference szBlk world)
    (occurs : ∀ count ≤ bytes.length, ∀ place, naming.occurs
      ((reference.write container dbId offset (bytes.take count)).block szBlk place))
    (reaches : bytes ≠ [] → Reaches world.vfs ⟨container, dbId, offset / szBlk⟩) :
    Under naming.Foresees (xWrite container dbId bytes offset : VfsM Hash Unit) world
      (fun _ after => AtRest naming (reference.write container dbId offset bytes) szBlk after)
      (fun _ after => ∃ count ≤ bytes.length,
        AtRest naming (reference.write container dbId offset (bytes.take count)) szBlk after) := by
  have positive : 0 < szBlk := rests.size ▸ rests.sound.positive
  have sized := sameBlocks_ensureWriteSize container dbId world.vfs
  have ready := rests.sameBlocks sized
  generalize noted : ({ world with vfs := ensureWriteSize container dbId world.vfs } : World Hash) =
    middle at ready
  have notes : Meets (onVfs (ensureWriteSize container dbId) : VfsM Hash Unit) world
      (fun _ after => middle = after) (fun _ after => ∃ count ≤ bytes.length,
        AtRest naming (reference.write container dbId offset (bytes.take count)) szBlk after) :=
    noted.symm
  unfold xWrite
  apply Under.first_bind (naming.back (onVfs_events _)) notes
  rintro _ _ rfl
  apply Under.get_bind
  rw [ready.size]
  have required : Meets (Act.require (bytes ≠ [] → 0 < szBlk) ⟨.ioerr, ""⟩ : VfsM Hash Unit) middle
      (fun _ after => middle = after) (fun _ after => ∃ count ≤ bytes.length,
        AtRest naming (reference.write container dbId offset (bytes.take count)) szBlk after) := by
    rw [Meets.require, if_pos fun _ => positive]
  apply Under.first_bind (naming.back (grows_of_still (Moves.require _))) required
  rintro _ _ rfl
  have writes : Under naming.Foresees (writeParts container dbId bytes offset
      (parts szBlk bytes.length offset bytes.length) : VfsM Hash Unit) middle
      (fun _ after => AtRest naming (reference.write container dbId offset bytes) szBlk after)
      (fun _ after => ∃ count ≤ bytes.length,
        AtRest naming (reference.write container dbId offset (bytes.take count)) szBlk after) := by
    have begun : AtRest naming (reference.write container dbId offset
        (bytes.take (offset - offset))) szBlk middle := by
      rw [Nat.sub_self, List.take_zero, Reference.write_nil]
      exact ready
    by_cases empty : bytes = []
    · subst empty
      refine Under.pure fun _ => ?_
      rw [Reference.write_nil]
      exact ready
    · apply writeParts_writes positive offset bytes.length bytes.length le_rfl le_rfl rfl occurs begun
      rw [← noted]
      exact (reaches empty).sameBlocks sized
  apply Under.bind writes
  intro _ last known foreseen
  have local_ := sameBlocks_localNoteWrite container dbId offset bytes.length last.vfs
  exact ⟨foreseen, ((known foreseen).sameBlocks local_).sameBlocks
    (sameBlocks_sessionNoteWrite container dbId offset bytes.length _)⟩

end

section

omit [DecidableEq Hash] [Digest Hash] [BlockDigest]

def Vfs.cut (vfs : Vfs Hash) (container : String) (dbId count : Nat) : Vfs Hash :=
  vfs.setDatabase container dbId fun db => { db with blkLocal := db.blkLocal.take count }

theorem Vfs.database_cut (vfs : Vfs Hash) (container other : String) (dbId count id : Nat) :
    (vfs.cut container dbId count).database other id =
      if other = container ∧ id = dbId then
        (vfs.database other id).map fun db => { db with blkLocal := db.blkLocal.take count }
      else vfs.database other id := by
  have kept : ∀ db : ManifestDb, ({ db with blkLocal := db.blkLocal.take count } : ManifestDb).dbId =
      db.dbId := fun _ => rfl
  exact Vfs.database_setDatabase kept

theorem Vfs.mapped_cut (vfs : Vfs Hash) (container : String) (dbId count : Nat) (place : Place) :
    (vfs.cut container dbId count).mapped place =
      if place.container = container ∧ place.dbId = dbId ∧ count ≤ place.pos then none
      else vfs.mapped place := by
  unfold Vfs.mapped
  rw [Vfs.database_cut]
  by_cases here : place.container = container ∧ place.dbId = dbId
  · rw [if_pos here]
    cases vfs.database place.container place.dbId with
    | none => simp
    | some db =>
      simp only [Option.map_some, Option.bind_some, List.getElem?_take, here, true_and]
      by_cases beyond : count ≤ place.pos
      · rw [if_neg (by omega), if_pos beyond]
      · rw [if_pos (by omega), if_neg beyond]
  · rw [if_neg here, if_neg]
    rintro ⟨first, second, _⟩
    exact here ⟨first, second⟩

theorem Vfs.fetchable_cut {vfs : Vfs Hash} {count : Nat}
    {name : BlockId} (fetchable : vfs.Fetchable place name) :
    (vfs.cut container dbId count).Fetchable place name := by
  rcases fetchable with ⟨db, known, original⟩ | staged
  · left
    rw [Vfs.database_cut, known]
    split
    · exact ⟨_, rfl, original⟩
    · exact ⟨db, rfl, original⟩
  · exact .inr staged

theorem Ledger.find_delete_other {ledger : Ledger} {other : Place} (apart : other ≠ place)
    (name : BlockId) : (ledger.delete place).find other name = ledger.find other name := by
  unfold Ledger.find Ledger.delete
  dsimp only
  congr 1
  funext row
  apply decide_eq_decide.mpr
  constructor
  · rintro ⟨here, called, live⟩
    refine ⟨here, called, ?_⟩
    rintro ⟨dead, member, rest⟩
    exact live ⟨dead, List.mem_append_left _ member, rest⟩
  · rintro ⟨here, called, live⟩
    refine ⟨here, called, ?_⟩
    rintro ⟨dead, member, there, rest⟩
    rcases List.mem_append.mp member with old | new
    · exact live ⟨dead, old, there, rest⟩
    · have elsewhere : dead.place = place := by
        have both := (List.mem_filter.mp new).2
        simp only [decide_eq_true_eq] at both
        exact both.1
      exact apart (there.symm.trans elsewhere)

end

section

variable {count : Nat} {db : ManifestDb} {flight positions : List Nat} {pos : Nat}

theorem Sound.stagedDelete {out : Option Nat} (sound : Sound naming reference flight out world)
    (unmapped : world.vfs.mapped place = none) :
    Sound naming reference flight out { world with vfs := world.vfs.stagedDelete place } := by
  refine { sound with named := ?_, dirty := ?_, sequences := ?_ }
  · intro other name here
    obtain ⟨fits, occurs, held⟩ := sound.named other name here
    refine ⟨fits, occurs, held.imp id fun both => ⟨both.1, both.2.imp id ?_⟩⟩
    intro staged
    have apart : other ≠ place := by
      rintro rfl
      exact absurd (unmapped.symm.trans here) (by simp)
    change ((world.vfs.ledger.delete place).find other name).isSome = true
    rw [Ledger.find_delete_other apart]
    exact staged
  · exact fun entry member dirty =>
      (sound.dirty entry member dirty).imp id fun owned => owned.imp fun _ own => { own with }
  · intro row member
    rcases List.mem_append.mp member with staged | dead
    · exact sound.sequences row (List.mem_append_left _ staged)
    · rcases List.mem_append.mp dead with old | new
      · exact sound.sequences row (List.mem_append_right _ old)
      · exact sound.sequences row (List.mem_append_left _ (List.mem_filter.mp new).1)

/-- The original blocks have names of their own. -/
def Foreign (naming : Naming) (vfs : Vfs Hash) : Prop :=
  ∀ container dbId db, vfs.database container dbId = some db →
    ∀ name ∈ db.blkOrig, name ∉ naming.drawn

/-- A truncate is under way: the state is sound for the mapping it will leave. The entries of
`flight` are dirty blocks of the positions that remain. -/
structure Cutting (naming : Naming) (reference : Reference) (container : String) (dbId count : Nat)
    (db : ManifestDb) (flight positions : List Nat) (world : World Hash) : Prop where
  sound : Sound naming (reference.truncate container dbId (count * world.vfs.szBlk)) flight none
    { world with vfs := world.vfs.cut container dbId count }
  original : ∀ name ∈ db.blkOrig, name ∉ naming.drawn
  beyond : ∀ pos ∈ positions, count ≤ pos
  waiting : ∀ slot ∈ flight, ∃ entry ∈ world.vfs.hash, entry.slot = slot ∧
    entry.name ∈ naming.drawn ∧ ∃ pos ∈ positions, db.blkLocal[pos]? = some entry.name
  single : ∀ entry ∈ world.vfs.hash, entry.dirty = true → ∀ pos ∈ positions,
    db.blkLocal[pos]? = some entry.name → entry.owner = some ⟨container, dbId, pos⟩ ∧
      ∀ other ∈ world.vfs.hash, other.name = entry.name → other = entry
  dirty : ∀ entry ∈ world.vfs.hash, entry.slot ∈ flight → entry.dirty = true

def cutSlots (vfs : Vfs Hash) (container : String) (dbId count : Nat) : List Nat :=
  (vfs.hash.filter fun entry => entry.dirty ∧ entry.owner.any fun place =>
    place.container = container ∧ place.dbId = dbId ∧ count ≤ place.pos).map CacheEntry.slot

theorem Cutting.start (sound : Sound naming reference [] none world)
    (foreign : Foreign naming world.vfs)
    (known : world.vfs.database container dbId = some db) :
    Cutting naming reference container dbId count db (cutSlots world.vfs container dbId count)
      (List.range' count (db.blkLocal.length - count)) world := by
  have mapped := world.vfs.mapped_cut container dbId count
  have less : ∀ place name, (world.vfs.cut container dbId count).mapped place = some name →
      world.vfs.mapped place = some name ∧
        ¬ (place.container = container ∧ place.dbId = dbId ∧ count ≤ place.pos) := by
    intro place name here
    rw [mapped] at here
    split at here
    · cases here
    · rename_i kept
      exact ⟨here, kept⟩
  have inFlight : ∀ entry ∈ world.vfs.hash, entry.slot ∈ cutSlots world.vfs container dbId count ↔
      entry.dirty = true ∧ ∃ place, entry.owner = some place ∧ place.container = container ∧
        place.dbId = dbId ∧ count ≤ place.pos := by
    intro entry there
    constructor
    · intro member
      obtain ⟨other, kept, same⟩ := List.mem_map.mp member
      obtain ⟨present, chosen⟩ := List.mem_filter.mp kept
      obtain rfl := sound.eq_of_slot present there same
      simpa [Option.any_eq_true] using chosen
    · rintro ⟨isDirty, place, owner, gone⟩
      refine List.mem_map.mpr ⟨entry, List.mem_filter.mpr ⟨there, ?_⟩, rfl⟩
      simp [isDirty, owner, gone]
  refine ⟨?_, foreign container dbId db known, ?_, ?_, ?_, ?_⟩
  · refine { sound with bound := ?_, cached := ?_, stored := ?_, named := ?_, dirty := ?_, known := ?_,
                        zeros := ?_ }
    all_goals dsimp only
    · intro other session
      simp only [Vfs.cut, Vfs.sessionId_setDatabase, Vfs.context_setDatabase] at session ⊢
      exact sound.bound other session
    · intro entry member
      obtain ⟨fits, holds⟩ := (sound.cached entry member).resolve_left (by simp)
      refine .inr ⟨fits, ?_⟩
      intro place here
      obtain ⟨before, kept⟩ := less place _ here
      exact (holds place before).trans (Reference.block_truncate kept).symm
    · intro name bytes there
      obtain ⟨fits, holds⟩ := sound.stored name bytes there
      refine ⟨fits, ?_⟩
      intro place here
      obtain ⟨before, kept⟩ := less place _ here
      exact (holds place before).trans (Reference.block_truncate kept).symm
    · intro place name here
      obtain ⟨before, kept⟩ := less place name here
      obtain ⟨fits, occurs, held⟩ := sound.named place name before
      have same : (reference.truncate container dbId (count * world.vfs.szBlk)).block
          (world.vfs.cut container dbId count).szBlk place =
          reference.block world.vfs.szBlk place := Reference.block_truncate kept
      rw [same]
      exact ⟨fits, occurs, held.imp id fun both => ⟨both.1, Vfs.fetchable_cut both.2⟩⟩
    · intro entry member isDirty
      obtain ⟨flying, _⟩ | ⟨home, owned⟩ := sound.dirty entry member isDirty
      · cases flying
      · by_cases gone : home.container = container ∧ home.dbId = dbId ∧ count ≤ home.pos
        · refine .inl ⟨(inFlight entry member).mpr ⟨isDirty, home, owned.owner, gone⟩, .inl owned.drawn⟩
        · refine .inr ⟨home, owned.drawn, owned.owner, ?_, ?_, owned.single, owned.unstored⟩
          · dsimp only
            rw [mapped, if_neg gone]
            exact owned.mapped
          · exact fun other here => owned.alone other (less other _ here).1
    · intro name drawn used
      apply sound.known name drawn
      rcases used with stored | held | ⟨place, here⟩
      · exact .inl stored
      · exact .inr (.inl held)
      · exact .inr (.inr ⟨place, (less place name here).1⟩)
    · intro other id found there i beyond
      rw [Vfs.database_cut] at there
      rw [Reference.truncate]
      split
      · rfl
      · rename_i inside
        split at there
        · rename_i here
          obtain ⟨old, before, rfl⟩ := Option.map_eq_some_iff.mp there
          apply sound.zeros other id old before
          have low : i < count * world.vfs.szBlk := by
            by_contra high
            exact inside ⟨here.1, here.2, by omega⟩
          dsimp only at beyond
          rw [List.length_take] at beyond
          rcases Nat.le_total count old.blkLocal.length with few | many
          · rw [Nat.min_eq_left few] at beyond
            exact absurd low (Nat.not_lt.mpr beyond)
          · rw [Nat.min_eq_right many] at beyond
            exact beyond
        · exact sound.zeros other id found there i beyond
  · intro pos member
    exact (List.mem_range'_1.mp member).1
  · intro slot member
    obtain ⟨entry, kept, rfl⟩ := List.mem_map.mp member
    obtain ⟨there, _⟩ := List.mem_filter.mp kept
    obtain ⟨isDirty, home, owner, rfl, rfl, beyond⟩ := (inFlight entry there).mp member
    obtain ⟨flying, _⟩ | ⟨other, owned⟩ := sound.dirty entry there isDirty
    · cases flying
    · obtain rfl : other = home := Option.some.inj (owned.owner.symm.trans owner)
      obtain ⟨found, same, inside⟩ := Vfs.database_of_mapped owned.mapped
      rw [known] at same
      cases same
      refine ⟨entry, there, rfl, owned.drawn, other.pos, ?_, ?_⟩
      · apply List.mem_range'_1.mpr
        omega
      · have named := owned.mapped
        rw [Vfs.mapped, known] at named
        exact named
  · intro entry there isDirty pos member named
    obtain ⟨flying, _⟩ | ⟨home, owned⟩ := sound.dirty entry there isDirty
    · cases flying
    · have here : world.vfs.mapped ⟨container, dbId, pos⟩ = some entry.name := by
        rw [Vfs.mapped, known]
        exact named
      rw [owned.alone _ here]
      exact ⟨owned.owner, owned.single⟩
  · exact fun entry there member => ((inFlight entry there).mp member).1

variable (id : db.dbId = dbId)
  (cutting : Cutting naming reference container dbId count db flight (pos :: positions) world)

include cutting in
theorem Cutting.pass
    (clean : ∀ entry ∈ world.vfs.hash, entry.slot ∈ flight → db.blkLocal[pos]? ≠ some entry.name) :
    Cutting naming reference container dbId count db flight positions world := by
  refine { cutting with beyond := ?_, waiting := ?_, single := ?_ }
  · exact fun other member => cutting.beyond other (List.mem_cons_of_mem _ member)
  · intro slot member
    obtain ⟨entry, there, same, drawn, other, waits, named⟩ := cutting.waiting slot member
    refine ⟨entry, there, same, drawn, other, ?_, named⟩
    rcases List.mem_cons.mp waits with rfl | later
    · exact absurd named (clean entry there (same ▸ member))
    · exact later
  · exact fun entry there isDirty other member =>
      cutting.single entry there isDirty other (List.mem_cons_of_mem _ member)

theorem Cutting.next (cutting : Cutting naming reference container dbId count db flight positions world) :
    Cutting naming reference container dbId count db flight positions world.next :=
  { cutting with sound := cutting.sound.next }

theorem Cutting.stagedDelete (cutting : Cutting naming reference container dbId count db flight positions world)
    (gone : count ≤ pos) :
    Cutting naming reference container dbId count db flight positions
      { world with vfs := world.vfs.stagedDelete ⟨container, dbId, pos⟩ } := by
  have unmapped : (world.vfs.cut container dbId count).mapped ⟨container, dbId, pos⟩ = none := by
    rw [Vfs.mapped_cut, if_pos ⟨rfl, rfl, gone⟩]
  exact { cutting with sound := cutting.sound.stagedDelete unmapped }

include cutting in
theorem Cutting.undirty {entry : CacheEntry}
    (member : entry ∈ world.vfs.hash) (named : db.blkLocal[pos]? = some entry.name) :
    Cutting naming reference container dbId count db (flight.filter (· ≠ entry.slot)) positions
      { world with vfs := world.vfs.setEntry entry.slot fun entry =>
          { entry with dirty := false, staged := false } } := by
  have gone := cutting.beyond pos List.mem_cons_self
  have own := fun other there isDirty => cutting.single other there isDirty pos List.mem_cons_self
  have cleaned := cutting.sound.becomeClean entry.slot false (by
    -- a place that is left has a dirty entry of this name only if it is the position itself
    intro other there same place owner here
    obtain rfl := cutting.sound.eq_of_slot there member same
    obtain ⟨_, _, held⟩ := cutting.sound.named place other.name here
    apply held.resolve_left
    rintro ⟨another, present, called, isDirty, theirs⟩
    obtain ⟨home, _⟩ := own another present isDirty (called ▸ named)
    obtain rfl := Option.some.inj (theirs.symm.trans home)
    rw [Vfs.mapped_cut, if_pos ⟨rfl, rfl, gone⟩] at here
    cases here) (flight.filter (· ≠ entry.slot)) (by
    intro slot waits
    by_cases same : slot = entry.slot
    · exact .inl same
    · exact .inr (List.mem_filter.mpr ⟨waits, by simpa using same⟩))
  have kept : ∀ other ∈ world.vfs.hash, other.slot ≠ entry.slot →
      other ∈ (world.vfs.setEntry entry.slot fun entry =>
        { entry with dirty := false, staged := false }).hash := by
    intro other there apart
    exact List.mem_map.mpr ⟨other, there, by rw [if_neg apart]⟩
  have back : ∀ other ∈ (world.vfs.setEntry entry.slot fun entry =>
      { entry with dirty := false, staged := false }).hash, ∃ old ∈ world.vfs.hash,
      other.slot = old.slot ∧ other.name = old.name ∧ (old.slot ≠ entry.slot → other = old) ∧
      (other.dirty = true → old.slot ≠ entry.slot) := by
    intro other there
    obtain ⟨old, present, rfl⟩ := List.mem_map.mp there
    refine ⟨old, present, ?_⟩
    split
    · rename_i same
      exact ⟨rfl, rfl, fun apart => absurd same apart, by simp⟩
    · rename_i apart
      exact ⟨rfl, rfl, fun _ => rfl, fun _ => apart⟩
  refine ⟨cleaned, cutting.original, ?_, ?_, ?_, ?_⟩
  · exact fun other waits => cutting.beyond other (List.mem_cons_of_mem _ waits)
  · intro slot waits
    obtain ⟨flies, apart⟩ := List.mem_filter.mp waits
    have differs : slot ≠ entry.slot := by simpa using apart
    obtain ⟨other, there, same, drawn, place, left, called⟩ := cutting.waiting slot flies
    refine ⟨other, kept other there (same ▸ differs), same, drawn, place, ?_, called⟩
    rcases List.mem_cons.mp left with rfl | later
    · -- the name of the position is that of one entry
      have isDirty := cutting.dirty other there (same ▸ flies)
      have equal := (own other there isDirty called).2 entry member
        (Option.some.inj (named.symm.trans called))
      rw [← same, ← equal] at differs
      exact absurd rfl differs
    · exact later
  · intro other there isDirty place left called
    obtain ⟨old, present, _, _, same, dirties⟩ := back other there
    have apart := dirties isDirty
    obtain rfl := same apart
    obtain ⟨home, alone⟩ :=
      cutting.single other present isDirty place (List.mem_cons_of_mem _ left) called
    refine ⟨home, ?_⟩
    intro another here equal
    obtain ⟨before, earlier, _, names, unchanged, _⟩ := back another here
    have one := alone before earlier (names.symm.trans equal)
    rw [one] at unchanged
    exact unchanged apart
  · intro other there flies
    obtain ⟨flies, differs⟩ := List.mem_filter.mp flies
    obtain ⟨old, present, slot, _, same, _⟩ := back other there
    rw [slot] at flies differs
    obtain rfl := same (by simpa using differs)
    exact cutting.dirty other present flies

include id cutting in
theorem undirtyBlock_cuts :
    Meets (undirtyBlock container db pos : VfsM Hash Unit) world
      (fun _ after => ∃ flight,
        Cutting naming reference container dbId count db flight positions after)
      (fun _ _ => False) := by
  have gone := cutting.beyond pos List.mem_cons_self
  have quiet : (world.choices 0).fault = none := cutting.sound.quiet 0
  unfold undirtyBlock
  rw [Meets.when, id]
  split
  · have begun := cutting.next.stagedDelete gone
    simp only [Meets.bind, effect_iff quiet, onVfs, Meets.modify, Meets.get]
    generalize world.next.vfs.stagedDelete ⟨container, dbId, pos⟩ = cleared at begun ⊢
    cases lookup : (db.blkLocal[pos]?).bind cleared.hashFind with
    | none =>
      refine ⟨flight, begun.pass ?_⟩
      intro entry there _ named
      rw [named, Option.bind_some] at lookup
      simpa using List.find?_eq_none.mp lookup entry there
    | some entry =>
      obtain ⟨name, named, found⟩ := Option.bind_eq_some_iff.mp lookup
      have member : entry ∈ cleared.hash := List.mem_of_find?_eq_some found
      have called : entry.name = name := by simpa using List.find?_some found
      have cleaned := begun.undirty member (called ▸ named)
      simp only [Meets.bind, Meets.modify, Meets.when]
      split
      · rw [effect_iff (cutting.sound.quiet 1)]
        exact ⟨_, cleaned.next⟩
      · exact ⟨_, cleaned⟩
  · rename_i same
    have equal : db.blkLocal[pos]? = db.blkOrig[pos]? := by simpa using same
    refine ⟨flight, cutting.pass ?_⟩
    intro entry there flies named
    obtain ⟨other, present, slot, drawn, _⟩ := cutting.waiting entry.slot flies
    obtain rfl := cutting.sound.eq_of_slot present there slot
    rw [equal] at named
    exact cutting.original other.name (List.mem_of_getElem? named) drawn

include id in
theorem undirtyBlocks_cuts (flight positions : List Nat)
    (cutting : Cutting naming reference container dbId count db flight positions world) :
    Meets (undirtyBlocks container db positions : VfsM Hash Unit) world
      (fun _ after => Cutting naming reference container dbId count db [] [] after)
      (fun _ _ => False) := by
  induction positions generalizing world flight with
  | nil =>
    have empty : flight = [] := by
      apply List.eq_nil_iff_forall_not_mem.mpr
      intro slot member
      obtain ⟨_, _, _, _, _, waits, _⟩ := cutting.waiting slot member
      cases waits
    subst empty
    exact cutting
  | cons pos positions ih =>
    rw [undirtyBlocks, Meets.bind]
    apply (undirtyBlock_cuts id cutting).sure
    rintro _ after ⟨flight, cutting⟩
    exact ih flight cutting

theorem cutBlocks_cuts {szBlk : Nat} (rests : AtRest naming reference szBlk world)
    (foreign : Foreign naming world.vfs) (known : world.vfs.database container dbId = some db) :
    Meets (cutBlocks container dbId count db : VfsM Hash Unit) world
      (fun _ after => AtRest naming (reference.truncate container dbId (count * szBlk)) szBlk after)
      (fun _ _ => False) := by
  have id : db.dbId = dbId := by
    obtain ⟨man, _, found⟩ := Option.bind_eq_some_iff.mp known
    simpa using List.find?_some found
  have begun : Cutting naming reference container dbId count db _ _ world :=
    Cutting.start rests.sound foreign known
  unfold cutBlocks
  rw [Meets.bind]
  apply ((undirtyBlocks_cuts id _ _ begun).both (undirtyBlocks_still container db _ world)).mono
  · rintro _ middle ⟨cutting, still⟩
    have size : middle.vfs.szBlk = szBlk := still.szBlk.trans rests.size
    have sound := cutting.sound
    rw [size] at sound
    have spared : ∀ spare, (middle.vfs.cut container dbId count).SameBlocks
        ((middle.vfs.cut container dbId count).setSpare container dbId spare) :=
      fun _ => ⟨rfl, rfl, rfl, rfl, rfl, rfl, fun _ _ => rfl, fun _ => rfl, fun _ => rfl⟩
    exact ⟨sound.sameBlocks (spared _), size⟩
  · exact fun _ _ impossible => impossible.1

theorem Sound.truncate_beyond {out : Option Nat} {size : Nat} (sound : Sound naming reference flight out world)
    (known : world.vfs.database container dbId = some db) (beyond : db.blkLocal.length * world.vfs.szBlk ≤ size) :
    reference.truncate container dbId size = reference := by
  funext name id i
  rw [Reference.truncate]
  split
  · rename_i here
    obtain ⟨rfl, rfl, large⟩ := here
    exact (sound.zeros name id db known i (beyond.trans large)).symm
  · rfl

/-- A truncate to whole blocks, or behind the mapping, changes the reference as it changes a
file. -/
theorem xTruncate_truncates {size szBlk : Nat} (rests : AtRest naming reference szBlk world)
    (foreign : Foreign naming world.vfs)
    (sized : ∀ man, (world.vfs.containers container).man = some man → man.szBlk = szBlk)
    (whole : szBlk ∣ size ∨ ∀ db, world.vfs.database container dbId = some db →
      db.blkLocal.length * szBlk ≤ size) :
    Meets (xTruncate container dbId size : VfsM Hash Unit) world
      (fun _ after => AtRest naming (reference.truncate container dbId size) szBlk after)
      (fun _ after => AtRest naming reference szBlk after) := by
  have positive : 0 < szBlk := rests.size ▸ rests.sound.positive
  unfold xTruncate
  rw [Meets.bind, Meets.get]
  cases attached : (world.vfs.containers container).man with
  | none => exact rests
  | some man =>
    cases known : world.vfs.database container dbId with
    | none => exact rests
    | some db =>
      dsimp only
      rw [sized man attached, Meets.bind, Meets.require]
      split
      · rw [Meets.bind, Meets.require]
        split
        · rw [Meets.bind, Meets.when]
          split
          · rename_i fewer
            -- the mapping is cut, so the size is that of whole blocks
            have whole_blocks : (size + szBlk - 1) / szBlk * szBlk = size := by
              apply (blocks_mul_eq_iff szBlk size positive).mpr
              apply whole.resolve_right
              intro behind
              have covered := (behind db known).trans (le_blocks_mul szBlk size positive)
              have longer := Nat.le_of_mul_le_mul_right covered positive
              omega
            apply (cutBlocks_cuts rests foreign known).sure
            intro _ after cut
            rw [whole_blocks] at cut
            exact cut.sameBlocks (sameBlocks_noteTruncate container dbId size _)
          · rename_i enough
            have beyond : db.blkLocal.length * world.vfs.szBlk ≤ size := by
              rw [rests.size]
              rcases whole with divides | behind
              · rw [← (blocks_mul_eq_iff szBlk size positive).mpr divides]
                exact Nat.mul_le_mul_right szBlk (by omega)
              · exact behind db known
            rw [rests.sound.truncate_beyond known beyond]
            exact rests.sameBlocks (sameBlocks_noteTruncate container dbId size _)
        · exact rests
      · exact rests

end

end RusqDoltlite.Blocks

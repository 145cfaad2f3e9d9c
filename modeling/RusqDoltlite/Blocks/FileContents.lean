import RusqDoltlite.Blocks.StageContents

/-! The file operations keep the contents. A read finds its block in the cache or fetches it,
and a write changes the reference at the bytes it writes: the block it needs is copied or
taken out of the table, named anew and filled. -/

namespace RusqDoltlite.Blocks

open Effects Session

variable {Hash : Type}

namespace Vfs.GivenOut

variable {before after : Vfs Hash} {entry : CacheEntry}

theorem database (given : before.GivenOut entry after) : after.database = before.database := by
  funext container dbId
  simp only [Vfs.database, given.containers]

theorem mapped (given : before.GivenOut entry after) : after.mapped = before.mapped := by
  funext place
  simp only [Vfs.mapped, given.database]

theorem slotBytes (given : before.GivenOut entry after) : after.slotBytes = before.slotBytes := by
  funext slot
  simp only [Vfs.slotBytes, given.file, given.szBlk]

theorem loose (given : before.GivenOut entry after) : ∀ other ∈ after.hash, other.slot ≠ entry.slot :=
  fun other member => ((given.hash other).mp member).2

theorem inFile (given : before.GivenOut entry after) {slot : Nat}
    (inside : before.inFile slot = true) : after.inFile slot = true := by
  apply Vfs.inFile_mono given.slots _ inside
  rw [given.file]
  exact fun _ written => written

end Vfs.GivenOut

variable [DecidableEq Hash] [Digest Hash] [BlockDigest] {naming : Naming} {reference later : Reference}
  {world : World Hash} {place : Place} {db : ManifestDb} {entry : CacheEntry} {staged : Bool}

/-- The entry found for a block. It holds the block, or it is to be loaded with an object of the
store, or it is a slot for a block that is added. -/
inductive Found (naming : Naming) (reference : Reference) (place : Place) (db : ManifestDb)
    (entry : CacheEntry) (world : World Hash) : Prop
  | cached (sound : Sound naming reference [] none world) (member : entry ∈ world.vfs.hash)
      (mapped : world.vfs.mapped place = some entry.name)
  | loading (sound : Sound naming reference [] (some entry.slot) world)
      (member : entry ∈ world.vfs.hash) (mapped : world.vfs.mapped place = some entry.name)
      (blank : entry.valid = false ∧ entry.dirty = false)
      (stored : (world.blocks entry.name).isSome = true)
      (fetchable : world.vfs.Fetchable place entry.name)
  | added (sound : Sound naming reference [] (some entry.slot) world)
      (beyond : db.blkLocal.length ≤ place.pos)
      (blank : entry.valid = false ∧ entry.dirty = false ∧ entry.staged = false)
      (loose : ∀ other ∈ world.vfs.hash, other.slot ≠ entry.slot)

namespace Sound

theorem allocate_meets (sound : Sound naming reference [] none world) :
    Meets (allocate : VfsM Hash CacheEntry) world
      (fun entry after => Sound naming reference [] (some entry.slot) after ∧
        world.vfs.GivenOut entry after.vfs)
      (fun error after => error.code = .full ∧ Sound naming reference [] none after) := by
  cases picked : world.vfs.allocCacheEntry (world.choices 0).held (world.choices 0).reuse with
  | none =>
    have none_left : world.next.vfs.allocCacheEntry (world.choices 0).held
      (world.choices 0).reuse = none := picked
    unfold allocate
    simp only [Meets.bind, draw_iff, Meets.get, none_left, Meets.throw]
    exact ⟨trivial, sound.next⟩
  | some given =>
    obtain ⟨entry, vfs⟩ := given
    rw [allocate_iff (sound.quiet 1) picked]
    have given := Vfs.givenOut sound.slots sound.unused sound.distinct picked
    exact ⟨(sound.next.allocated given).next, given⟩

theorem findBlockForIo_meets (sound : Sound naming reference [] none world)
    (known : world.vfs.database place.container place.dbId = some db) :
    Meets (findBlockForIo db place.pos : VfsM Hash CacheEntry) world
      (fun entry after => Found naming reference place db entry after ∧
        after.vfs.database place.container place.dbId = some db)
      (fun error after => error.code = .full ∧ Sound naming reference [] none after) := by
  unfold findBlockForIo
  cases named : db.blkLocal[place.pos]? with
  | none =>
    apply sound.allocate_meets.mono
    · rintro entry after ⟨taken, given⟩
      have beyond : db.blkLocal.length ≤ place.pos := List.getElem?_eq_none_iff.mp named
      refine ⟨.added taken beyond given.blank given.loose, ?_⟩
      rw [given.database]
      exact known
    · exact fun _ _ failed => failed
  | some name =>
    have mapped : world.vfs.mapped place = some name := by
      rw [Vfs.mapped, known]
      exact named
    simp only [Meets.bind, Meets.get]
    cases found : world.vfs.hashFind name with
    | some entry =>
      have member : entry ∈ world.vfs.hash := List.mem_of_find?_eq_some found
      have same : entry.name = name := by simpa using List.find?_some found
      have valid := ((sound.ready entry member).resolve_left (by simp)).1
      simp only [Meets.bind, Meets.require, valid, if_true, Meets.pure]
      refine ⟨.cached sound member ?_, known⟩
      rw [same]
      exact mapped
    | none =>
      rw [Meets.bind]
      apply sound.allocate_meets.mono
      · rintro entry after ⟨taken, given⟩
        simp only [onVfs, Meets.bind, Meets.modify, Meets.pure]
        have here : after.vfs.mapped place = some name := by
          rw [given.mapped]
          exact mapped
        have absent : ∀ other ∈ after.vfs.hash, other.name ≠ name := by
          intro other member same
          simpa [same] using List.find?_eq_none.mp found other ((given.hash other).mp member).1
        have added := hashAdd { entry with name := name } taken given.blank.2.1 given.loose absent
          ⟨place, here⟩
        have later : after.vfs.database place.container place.dbId = some db := by
          rw [given.database]
          exact known
        obtain ⟨_, _, held⟩ := added.named place name here
        have kept := held.resolve_left (by
          rintro ⟨other, member, called, dirty, _⟩
          rcases List.mem_cons.mp member with rfl | there
          · rw [given.blank.2.1] at dirty
            cases dirty
          · exact absent other there called)
        exact ⟨.loading added List.mem_cons_self here ⟨given.blank.1, given.blank.2.1⟩ kept.1
          kept.2, later⟩
      · exact fun _ _ failed => failed

theorem reopen (sound : Sound naming reference [] none world)
    (member : entry ∈ world.vfs.hash) : Sound naming reference [] (some entry.slot) world :=
  { sound with
    taken := by
      rintro slot ⟨⟩
      exact ⟨sound.slots entry member, sound.slot_free member⟩
    ready := fun other there => .inr ((sound.ready other there).resolve_left (by simp))
    cached := fun other there => .inr ((sound.cached other there).resolve_left (by simp)) }

end Sound

/-- A slot has the bytes of a block, and it remains to mark its entry as filled. -/
structure Loaded (naming : Naming) (reference : Reference) (place : Place) (slot : Nat)
    (world : World Hash) : Prop where
  sound : Sound naming reference [] (some slot) world
  inside : world.vfs.inFile slot = true
  block : world.vfs.slotBytes slot = reference.block world.vfs.szBlk place
  holds : ∀ entry ∈ world.vfs.hash, entry.slot = slot →
    naming.Fits entry.name (world.vfs.slotBytes slot) ∧
      ∀ other, world.vfs.mapped other = some entry.name →
        world.vfs.slotBytes slot = reference.block world.vfs.szBlk other

inductive Fetched (naming : Naming) (reference : Reference) (place : Place) (db : ManifestDb)
    (entry : CacheEntry) (staged : Bool) (world : World Hash) : Prop
  | cached (sound : Sound naming reference [] none world) (member : entry ∈ world.vfs.hash)
      (mapped : world.vfs.mapped place = some entry.name)
  | loaded (loaded : Loaded naming reference place entry.slot world)
      (member : entry ∈ world.vfs.hash) (mapped : world.vfs.mapped place = some entry.name)
      (blank : entry.valid = false ∧ entry.dirty = false)
      (published : staged = true ∨ place.pos < db.blkOrig.length)
  | added (sound : Sound naming reference [] (some entry.slot) world)
      (beyond : db.blkLocal.length ≤ place.pos)
      (blank : entry.valid = false ∧ entry.dirty = false)
      (loose : ∀ other ∈ world.vfs.hash, other.slot ≠ entry.slot)

section
variable {slot amount offset : Nat} (found : Found naming reference place db entry world)
  (sound : Sound naming reference [] none world) (loaded : Loaded naming reference place slot world)
  (known : world.vfs.database place.container place.dbId = some db)

include sound in
theorem Loaded.of_cached
    (member : entry ∈ world.vfs.hash) (mapped : world.vfs.mapped place = some entry.name) :
    Loaded naming reference place entry.slot world := by
  obtain ⟨fits, holds⟩ := (sound.cached entry member).resolve_left (by simp)
  obtain ⟨_, inside⟩ := (sound.ready entry member).resolve_left (by simp)
  refine ⟨sound.reopen member, inside, holds place mapped, ?_⟩
  intro other there same
  obtain rfl := sound.eq_of_slot there member same
  exact ⟨fits, holds⟩

include loaded in
theorem Loaded.next : Loaded naming reference place slot world.next :=
  ⟨loaded.sound.next, loaded.inside, loaded.block, loaded.holds⟩

include loaded in
theorem Loaded.setStaged (staged : Bool) :
    Loaded naming reference place slot
      { world with vfs := world.vfs.setEntry slot fun entry => { entry with staged := staged } } := by
  refine ⟨loaded.sound.setStaged slot staged, loaded.inside, loaded.block, ?_⟩
  intro other there same
  obtain ⟨old, present, rfl⟩ := List.mem_map.mp there
  by_cases here : old.slot = slot
  · rw [if_pos here]
    exact loaded.holds old present here
  · rw [if_neg here] at same
    exact absurd same here

theorem fetchObject_meets (sound : Sound naming reference [] (some entry.slot) world)
    (member : entry ∈ world.vfs.hash) (mapped : world.vfs.mapped place = some entry.name)
    (stored : (world.blocks entry.name).isSome = true) :
    Meets (fetchObject entry.name entry.slot : VfsM Hash Unit) world
      (fun _ after => Loaded naming reference place entry.slot after ∧
        ∃ bytes, after.vfs = world.vfs.setFile entry.slot bytes)
      (fun _ _ => False) := by
  obtain ⟨bytes, there⟩ : ∃ bytes, world.next.blocks entry.name = some bytes := by
    obtain ⟨bytes, old⟩ := Option.isSome_iff_exists.mp stored
    exact ⟨bytes, by simp [World.next, old]⟩
  obtain ⟨fits, same⟩ := sound.next.stored _ _ there
  have block : bytes = reference.block world.vfs.szBlk place := same place mapped
  have length : bytes.length = world.next.vfs.szBlk := by
    rw [block, Reference.length_block]
    rfl
  have written : bytes ≠ [] := by
    have positive : 0 < world.next.vfs.szBlk := sound.positive
    rw [← length] at positive
    exact List.ne_nil_of_length_pos positive
  simp only [fetchObject, getBlock, writeSlot, Meets.bind, effect_iff (sound.quiet 0), Meets.get,
    there, Meets.pure, Meets.require, length, if_true, effect_iff (sound.next.quiet 0), onVfs,
    Meets.modify]
  have held : (world.vfs.setFile entry.slot bytes).slotBytes entry.slot = bytes :=
    Vfs.slotBytes_setFile length
  refine ⟨⟨sound.next.next.setFile written, ?_, ?_, ?_⟩, bytes, rfl⟩
  · exact Vfs.inFile_setFile written (sound.taken entry.slot rfl).1
  · exact held.trans block
  · intro other present slot
    obtain rfl := sound.eq_of_slot present member slot
    constructor
    · exact held.symm ▸ fits
    · intro another here
      exact held.trans (same another here)

include found known in
theorem fetchBlock_meets :
    Meets (fetchBlock place db entry : VfsM Hash (Bool × Bool)) world
      (fun result after => Fetched naming reference place db entry result.1 after ∧
        after.vfs.database place.container place.dbId = some db)
      (fun _ _ => False) := by
  unfold fetchBlock
  cases found with
  | cached sound member mapped =>
    have valid := ((sound.ready entry member).resolve_left (by simp)).1
    rw [if_pos (.inl valid)]
    exact ⟨.cached sound member mapped, known⟩
  | added sound beyond blank loose =>
    rw [if_pos (.inr beyond)]
    exact ⟨.added sound beyond ⟨blank.1, blank.2.1⟩ loose, known⟩
  | loading sound member mapped blank stored fetchable =>
    have inside : place.pos < db.blkLocal.length := by
      obtain ⟨other, same, inside⟩ := Vfs.database_of_mapped mapped
      rw [known] at same
      cases same
      exact inside
    rw [if_neg (by simp [blank.1]; omega)]
    split
    · rename_i original
      rw [Meets.bind]
      apply (fetchObject_meets sound member mapped stored).sure
      rintro _ after ⟨loaded, bytes, same⟩
      refine ⟨.loaded loaded ?_ ?_ blank (.inr original), ?_⟩
      · rw [same]
        exact member
      · rw [same]
        exact mapped
      · rw [same]
        exact known
    · rename_i original
      have staged : (world.next.vfs.ledger.find place entry.name).isSome = true := by
        rcases fetchable with ⟨other, same, inside⟩ | staged
        · rw [known] at same
          cases same
          exact absurd inside original
        · exact staged
      have later : (world.next.blocks entry.name).isSome = true := by
        obtain ⟨bytes, old⟩ := Option.isSome_iff_exists.mp stored
        simp [World.next, old]
      simp only [isStaged, Meets.bind, effect_iff (sound.quiet 0), Meets.get, Meets.pure,
        Meets.when, staged, if_true]
      apply (fetchObject_meets sound.next member mapped later).sure
      rintro _ after ⟨loaded, bytes, same⟩
      refine ⟨.loaded loaded ?_ ?_ blank (.inl rfl), ?_⟩
      · rw [same]
        exact member
      · rw [same]
        exact mapped
      · rw [same]
        exact known

include found known in
theorem readyBlock_reads (inside : place.pos < db.blkLocal.length) :
    Meets (readyBlock place db (.read amount) entry : VfsM Hash (CacheEntry × Bool)) world
      (fun result after => Loaded naming reference place result.1.slot after)
      (fun _ _ => False) := by
  simp only [readyBlock, fillBlock, Meets.bind, Meets.tryCatch]
  apply (fetchBlock_meets found known).sure
  rintro ⟨staged, downloaded⟩ middle ⟨fetched, _⟩
  simp only [Transfer.isWrite, Bool.false_eq_true, false_and, if_false, onVfs, Meets.bind,
    Meets.modify, Meets.pure]
  cases fetched with
  | cached sound member mapped => exact (Loaded.of_cached sound member mapped).setStaged staged
  | loaded loaded _ _ _ _ => exact loaded.setStaged staged
  | added _ beyond _ _ => omega

include sound in
theorem makeRoom_meets (error : Err) :
    Meets (makeRoom error : VfsM Hash (Option α)) world
      (fun result after => result = none ∧ Sound naming reference [] none after)
      (fun _ after => Sound naming reference [] none after) := by
  unfold makeRoom
  rw [Meets.bind, Meets.require]
  split
  · rw [Meets.bind]
    apply (stageOne_meets sound none).mono
    · exact fun _ _ staged => ⟨rfl, staged⟩
    · exact fun _ _ failed => failed.2
  · exact sound

include sound in
theorem acquireBlock_reads :
    Meets (acquireBlock place (.read amount) : VfsM Hash (Option (CacheEntry × Bool))) world
      (fun result after => result.elim (Sound naming reference [] none after)
        fun ready => Loaded naming reference place ready.1.slot after)
      (fun _ after => Sound naming reference [] none after) := by
  unfold acquireBlock
  rw [Meets.bind, Meets.get]
  cases known : world.vfs.database place.container place.dbId with
  | none => exact sound
  | some db =>
    dsimp only
    rw [Meets.bind, Meets.require]
    split
    · rename_i inside
      rw [Meets.bind, Meets.attempt]
      apply (sound.findBlockForIo_meets known).mono
      · rintro entry middle ⟨found, still⟩
        rw [Meets.bind]
        apply (readyBlock_reads found still (inside.resolve_left (by simp [Transfer.isWrite]))).sure
        exact fun _ _ loaded => loaded
      · rintro error middle ⟨_, sound⟩
        apply (makeRoom_meets sound error).mono
        · rintro _ after ⟨rfl, rests⟩
          exact rests
        · exact fun _ _ rests => rests
    · exact sound

include loaded in
theorem Loaded.fill :
    Sound naming reference [] none
      { world with vfs := world.vfs.setEntry slot fun entry => { entry with valid := true } } :=
  loaded.sound.fill loaded.inside loaded.holds

theorem transferBlock_reads {row : Bool} (loaded : Loaded naming reference place entry.slot world) :
    Meets (transferBlock entry row (.read amount) offset : VfsM Hash Bytes) world
      (fun bytes after => Sound naming reference [] none after ∧
        bytes = ((reference.block world.vfs.szBlk place).drop offset).take amount)
      (fun _ _ => False) := by
  unfold transferBlock moveBytes
  simp only [Meets.tryCatch, Meets.bind, loaded.sound.readSlot_meets loaded.inside, Meets.pure,
    Meets.when, onVfs, Meets.modify, loaded.block]
  split
  · rw [effect_iff (loaded.next.sound.quiet 0)]
    exact ⟨loaded.next.next.fill, trivial⟩
  · exact ⟨loaded.next.fill, trivial⟩

structure AtRest (naming : Naming) (reference : Reference) (szBlk : Nat) (world : World Hash) :
    Prop where
  sound : Sound naming reference [] none world
  size : world.vfs.szBlk = szBlk

omit [BlockDigest] in
theorem Extends.szBlk {transfer : Transfer} {before after : World Hash}
    (extended : Extends transfer place before after) : after.vfs.szBlk = before.vfs.szBlk := by
  rcases extended with still | framed
  · exact still.szBlk
  · exact framed.szBlk

theorem readWriteOnce_reads {szBlk : Nat} (rests : AtRest naming reference szBlk world) (start : World Hash) :
    Follows (fun _ => AtRest naming reference szBlk) start
      (readWriteOnce place (.read amount) offset : VfsM Hash (Option Bytes)) world
      fun result _ => ∀ bytes ∈ result,
        bytes = ((reference.block szBlk place).drop offset).take amount := by
  have reads : Meets (readWriteOnce place (.read amount) offset : VfsM Hash (Option Bytes)) world
      (fun result after => Sound naming reference [] none after ∧ ∀ bytes ∈ result,
        bytes = ((reference.block szBlk place).drop offset).take amount)
      (fun _ after => Sound naming reference [] none after) := by
    unfold readWriteOnce
    rw [Meets.bind, Meets.attempt]
    apply ((acquireBlock_reads rests.sound).both (acquireBlock_follows place (.read amount) world)).mono
    · rintro (_ | ⟨entry, row⟩) middle ⟨loaded, reached, _⟩
      · exact ⟨loaded, by simp⟩
      have size := reached.szBlk.trans rests.size
      dsimp only at loaded ⊢
      rw [Meets.bind]
      apply (transferBlock_reads loaded).sure
      rintro bytes after ⟨sound, read⟩
      rw [size] at read
      rw [Meets.bind, Meets.when, if_neg (by simp [Transfer.isWrite])]
      refine ⟨sound, ?_⟩
      rintro _ ⟨⟩
      exact read
    · rintro error middle ⟨sound, _⟩
      apply (makeRoom_meets sound error).mono
      · rintro _ after ⟨rfl, staged⟩
        exact ⟨staged, by simp⟩
      · exact fun _ _ rests => rests
  apply (reads.both (readWriteOnce_follows place (.read amount) offset world)).mono
  · exact fun _ _ both => ⟨⟨both.1.1, both.2.1.szBlk.trans rests.size⟩, both.1.2⟩
  · exact fun _ _ both => ⟨both.1, both.2.szBlk.trans rests.size⟩

theorem readWriteDatabase_reads {szBlk : Nat} (start : World Hash) (rounds : Nat)
    (rests : AtRest naming reference szBlk world) :
    Follows (fun _ => AtRest naming reference szBlk) start
      (readWriteDatabase place (.read amount) offset rounds : VfsM Hash Bytes) world
      fun bytes _ => bytes = ((reference.block szBlk place).drop offset).take amount := by
  induction rounds generalizing world with
  | zero =>
    apply Follows.bind (readWriteOnce_reads rests start)
    intro result middle rests read
    cases result with
    | none => exact Follows.throw rests
    | some bytes => exact Follows.pure rests (read bytes rfl)
  | succ rounds ih =>
    apply Follows.bind (readWriteOnce_reads rests start)
    intro result middle rests read
    cases result with
    | none => exact ih rests
    | some bytes => exact Follows.pure rests (read bytes rfl)

theorem readWritePart_reads {container : String} {dbId szBlk : Nat} (start : World Hash)
    (rests : AtRest naming reference szBlk world) :
    Follows (fun _ => AtRest naming reference szBlk) start
      (readWritePart container dbId (.read amount) offset : VfsM Hash Bytes) world
      fun bytes _ => bytes =
        ((reference.block szBlk ⟨container, dbId, offset / szBlk⟩).drop (offset % szBlk)).take
          amount := by
  have required : Follows (fun _ => AtRest naming reference szBlk) start
      (Act.require (¬ (offset = 0 ∧ (Transfer.read amount).amount = 100 ∧ dbId < firstLocalId))
        ⟨shortRead, ""⟩ : VfsM Hash Unit) world fun _ after => after.vfs.szBlk = szBlk :=
    Follows.require rests fun _ => rests.size
  apply Follows.bind required
  intro _ middle rests size
  apply Follows.get_bind
  rw [size]
  apply Follows.tryCatch
  · refine Follows.retry (fun world rests => readWriteDatabase_reads start _ rests) 10 ?_
    exact rests
  · exact fun error after rests => Follows.throw rests

end

section

theorem readParts_reads {container : String} {dbId szBlk : Nat} (positive : 0 < szBlk)
    (start : World Hash) (fuel offset amount : Nat) (enough : amount ≤ fuel)
    (rests : AtRest naming reference szBlk world) :
    Follows (fun _ => AtRest naming reference szBlk) start
      (readParts container dbId (parts szBlk fuel offset amount) : VfsM Hash (Bytes × Bool)) world
      fun result _ => result.2 = true → result.1 = reference.range container dbId offset amount := by
  induction fuel generalizing world offset amount with
  | zero =>
    have none_left : amount = 0 := by omega
    subst none_left
    exact Follows.pure rests fun _ => rfl
  | succ fuel ih =>
    unfold parts
    split
    · rename_i none_left
      subst none_left
      exact Follows.pure rests fun _ => rfl
    · rename_i some_left
      have bound := Nat.mod_lt offset positive
      dsimp only
      generalize piece : min (szBlk - offset % szBlk) amount = size
      have first : Follows (fun _ => AtRest naming reference szBlk) start
          (readWritePart container dbId (.read size) offset : VfsM Hash Bytes).attempt world
          fun result _ => ∀ bytes, result = .ok bytes →
            bytes = reference.range container dbId offset size := by
        apply Follows.attempt (readWritePart_reads start rests)
        · rintro bytes after read _ ⟨⟩
          rw [read]
          exact Reference.block_piece (by omega)
        · rintro error after _ bytes ⟨⟩
      apply Follows.bind first
      intro result middle rests read
      cases result with
      | ok bytes =>
        apply Follows.bind (ih (offset + size) (amount - size) (by omega) rests)
        rintro ⟨more, complete⟩ after rests later
        refine Follows.pure rests ?_
        intro whole
        dsimp only at later ⊢
        rw [read bytes rfl, later whole, ← Reference.range_add]
        congr 1
        omega
      | error error =>
        dsimp only
        split
        · exact Follows.pure rests (by simp)
        · exact Follows.throw rests

theorem xRead_reads {container : String} {dbId amount offset szBlk : Nat}
    (rests : AtRest naming reference szBlk world) :
    Follows (fun _ => AtRest naming reference szBlk) world
      (xRead container dbId amount offset : VfsM Hash (Bytes × Bool)) world
      fun result _ => result.2 = true → result.1 = reference.range container dbId offset amount := by
  have positive : 0 < szBlk := rests.size ▸ rests.sound.positive
  apply Follows.get_bind
  rw [rests.size]
  have required : Follows (fun _ => AtRest naming reference szBlk) world
      (Act.require (amount ≠ 0 → 0 < szBlk) ⟨.ioerr, ""⟩ : VfsM Hash Unit) world fun _ _ => True :=
    Follows.require rests fun _ => trivial
  apply Follows.bind required
  intro _ middle rests _
  exact readParts_reads positive world amount offset amount le_rfl rests

end

namespace Sound

variable {flight : List Nat} {out : Option Nat}

theorem hashRemove (sound : Sound naming reference flight out world) {slot : Nat}
    (outside : ∀ other ∈ out, other = slot)
    (clean : ∀ entry ∈ world.vfs.hash, entry.slot = slot → entry.dirty = false)
    (bound : slot < world.vfs.slots) (free : slot ∉ world.vfs.unused) :
    Sound naming reference flight (some slot) { world with vfs := world.vfs.hashRemove slot } := by
  refine sound.takeOut outside (fun other => ?_) clean ?_ ?_ le_rfl bound rfl rfl rfl rfl
  · simp [Vfs.hashRemove]
  · intro other member
    refine ⟨member, ?_⟩
    rintro rfl
    exact free member
  · exact List.Nodup.sublist
      (List.Sublist.append_right (List.Sublist.map _ List.filter_sublist) _) sound.distinct

theorem rewrite (sound : Sound naming reference [] none world)
    (member : entry ∈ world.vfs.hash) (owned : Own naming world entry place)
    (dirty : entry.dirty = true)
    (changed : Reference.ChangedAt world.vfs.szBlk place reference later)
    (occurs : naming.occurs (later.block world.vfs.szBlk place)) :
    Sound naming later [] (some entry.slot) world := by
  have opened := sound.reopen member
  refine { opened with cached := ?_, stored := ?_, named := ?_, zeros := ?_ }
  · intro other there
    by_cases same : other.slot = entry.slot
    · exact .inl (congrArg some same)
    · obtain ⟨fits, holds⟩ := (sound.cached other there).resolve_left (by simp)
      refine .inr ⟨fits, ?_⟩
      intro another here
      have apart : another ≠ place := by
        rintro rfl
        have called := Option.some.inj (here.symm.trans owned.mapped)
        exact same (congrArg CacheEntry.slot (owned.single other there called))
      rw [changed.block apart]
      exact holds another here
  · intro name bytes there
    obtain ⟨fits, holds⟩ := sound.stored name bytes there
    refine ⟨fits, ?_⟩
    intro another here
    have apart : another ≠ place := by
      rintro rfl
      have called := Option.some.inj (here.symm.trans owned.mapped)
      rw [called, owned.unstored] at there
      cases there
    rw [changed.block apart]
    exact holds another here
  · intro another name here
    by_cases same : another = place
    · subst same
      have called := Option.some.inj (here.symm.trans owned.mapped)
      rw [called]
      exact ⟨Naming.fits_of_drawn owned.drawn _, occurs, .inl ⟨entry, member, rfl, dirty, owned.owner⟩⟩
    · rw [changed.block same]
      exact sound.named another name here
  · intro container dbId db known i beyond
    rcases changed container dbId i with same | ⟨rfl, rfl, pos⟩
    · rw [same]
      exact sound.zeros container dbId db known i beyond
    · -- the block that is written lies inside the mapping
      obtain ⟨other, there, inside⟩ := Vfs.database_of_mapped owned.mapped
      rw [known] at there
      cases there
      have within := (Nat.div_lt_iff_lt_mul sound.positive).mp (pos ▸ inside)
      omega

theorem unused_name (sound : Sound naming reference flight out world) {name : BlockId}
    (drawn : name ∈ naming.drawn) (new : name ∉ drawnNames world.events) :
    world.blocks name = none ∧ (∀ entry ∈ world.vfs.hash, entry.name ≠ name) ∧
      ∀ place, world.vfs.mapped place ≠ some name := by
  refine ⟨?_, ?_, ?_⟩
  · cases there : world.blocks name with
    | none => rfl
    | some bytes => exact absurd (sound.known name drawn (.inl (by simp [there]))) new
  · exact fun entry member called => new (sound.known name drawn (.inr (.inl ⟨entry, member, called⟩)))
  · exact fun place here => new (sound.known name drawn (.inr (.inr ⟨place, here⟩)))

theorem claimName {after : Vfs Hash} (sound : Sound naming reference [] (some entry.slot) world)
    (loose : ∀ other ∈ world.vfs.hash, other.slot ≠ entry.slot)
    (free : ∀ other ∈ world.vfs.hash, other.dirty = true → other.owner ≠ some place)
    (dirty : entry.dirty = true) (owner : entry.owner = some place)
    (drawn : entry.name ∈ naming.drawn) (new : entry.name ∉ drawnNames world.events)
    (changed : Reference.ChangedAt world.vfs.szBlk place reference later)
    (occurs : naming.occurs (later.block world.vfs.szBlk place))
    (renamed : world.vfs.Renamed place entry after) :
    Sound naming later [] (some entry.slot)
        { world with vfs := after, events := .drew entry.name :: world.events } ∧
      Own naming { world with vfs := after, events := .drew entry.name :: world.events } entry
        place := by
  obtain ⟨unstored, uncached, unmapped⟩ := sound.unused_name drawn new
  have own : Own naming { world with vfs := after, events := .drew entry.name :: world.events }
      entry place := by
    refine ⟨drawn, owner, by rw [renamed.mapped, if_pos rfl], ?_, ?_, unstored⟩
    · intro other there
      dsimp only at there
      rw [renamed.mapped] at there
      by_contra apart
      rw [if_neg apart] at there
      exact unmapped other there
    · intro other there called
      rcases (renamed.mem_hash other).mp there with same | ⟨old, _⟩
      · exact same
      · exact absurd called (uncached other old)
  obtain ⟨bound, unused⟩ := sound.taken entry.slot rfl
  refine ⟨sound.renamed renamed changed (List.Subset.refl _) (List.subset_cons_self _ _) bound unused
    (.inl rfl) (.inl rfl) ?_ ⟨Naming.fits_of_drawn drawn _, occurs⟩ dirty owner ?_ (.inr own) ?_
    fun _ => List.mem_cons_self, own⟩
  · rintro bytes _ (there | ⟨other, old, _, called⟩)
    · rw [unstored] at there
      cases there
    · exact absurd called (uncached other old)
  · exact fun other old slot => absurd slot (loose other old)
  · intro other old _ isDirty home theirs
    refine ⟨?_, uncached other old⟩
    rintro rfl
    exact free other old isDirty theirs.owner

end Sound

/-- A slot that is nobody's, with the old bytes of a block of the mapping. -/
structure Claimed (naming : Naming) (reference : Reference) (place : Place) (db : ManifestDb)
    (slot : Nat) (world : World Hash) : Prop where
  sound : Sound naming reference [] (some slot) world
  known : world.vfs.database place.container place.dbId = some db
  loose : ∀ other ∈ world.vfs.hash, other.slot ≠ slot
  free : ∀ other ∈ world.vfs.hash, other.dirty = true → other.owner ≠ some place
  block : place.pos < db.blkLocal.length → world.vfs.inFile slot = true ∧
    world.vfs.slotBytes slot = reference.block world.vfs.szBlk place

section
variable (fetched : Fetched naming reference place db entry staged world)
  (known : world.vfs.database place.container place.dbId = some db) (clean : entry.dirty = false)

include fetched in
theorem Fetched.next : Fetched naming reference place db entry staged world.next := by
  cases fetched with
  | cached sound member mapped => exact .cached sound.next member mapped
  | loaded loaded member mapped blank published =>
    exact .loaded loaded.next member mapped blank published
  | added sound beyond blank loose => exact .added sound.next beyond blank loose

include fetched known clean in
theorem Fetched.free : ∀ other ∈ world.vfs.hash, other.dirty = true → other.owner ≠ some place := by
  have unowned : ∀ {out : Option Nat}, Sound naming reference [] out world →
      entry ∈ world.vfs.hash → world.vfs.mapped place = some entry.name →
      ∀ other ∈ world.vfs.hash, other.dirty = true → other.owner ≠ some place := by
    intro out sound member mapped other there dirty owner
    obtain ⟨flying, _⟩ | ⟨home, owned⟩ := sound.dirty other there dirty
    · cases flying
    · have same : home = place := Option.some.inj (owned.owner.symm.trans owner)
      have called := Option.some.inj (mapped.symm.trans (same ▸ owned.mapped))
      have equal := owned.single entry member called
      rw [equal, dirty] at clean
      cases clean
  cases fetched with
  | cached sound member mapped => exact unowned sound member mapped
  | loaded loaded member mapped _ _ => exact unowned loaded.sound member mapped
  | added sound beyond _ _ =>
    intro other there dirty owner
    obtain ⟨flying, _⟩ | ⟨home, owned⟩ := sound.dirty other there dirty
    · cases flying
    · have same : home = place := Option.some.inj (owned.owner.symm.trans owner)
      obtain ⟨found, there, inside⟩ := Vfs.database_of_mapped owned.mapped
      rw [same, known] at there
      cases there
      rw [same] at inside
      omega

include fetched known clean in
theorem Fetched.takeOut :
    Claimed naming reference place db entry.slot
      { world with vfs := world.vfs.hashRemove entry.slot } := by
  have loose : ∀ other ∈ (world.vfs.hashRemove entry.slot).hash, other.slot ≠ entry.slot := by
    intro other there
    simpa using (List.mem_filter.mp there).2
  have free : ∀ other ∈ (world.vfs.hashRemove entry.slot).hash, other.dirty = true →
      other.owner ≠ some place :=
    fun other there => fetched.free known clean other (List.mem_filter.mp there).1
  cases fetched with
  | cached sound member mapped =>
    have loaded := Loaded.of_cached sound member mapped
    refine ⟨?_, known, loose, free, fun _ => ⟨loaded.inside, loaded.block⟩⟩
    apply sound.hashRemove (by simp) _ (sound.slots entry member) (sound.slot_free member)
    intro other there same
    rw [sound.eq_of_slot there member same]
    exact clean
  | loaded loaded member _ _ _ =>
    have sound := loaded.sound
    refine ⟨?_, known, loose, free, fun _ => ⟨loaded.inside, loaded.block⟩⟩
    apply sound.hashRemove (fun _ same => (Option.some.inj same).symm) _
      (sound.slots entry member) (sound.slot_free member)
    intro other there same
    rw [sound.eq_of_slot there member same]
    exact clean
  | added sound beyond _ apart =>
    have taken := sound.taken entry.slot rfl
    refine ⟨?_, known, loose, free, fun inside => by omega⟩
    exact sound.hashRemove (fun _ same => (Option.some.inj same).symm)
      (fun other there same => absurd same (apart other there)) taken.1 taken.2

include fetched known clean in
theorem claimSlot_meets :
    Meets (claimSlot { entry with staged := staged } : VfsM Hash CacheEntry) world
      (fun target after => Claimed naming reference place db target.slot after)
      (fun _ after => Sound naming reference [] none after) := by
  unfold claimSlot
  rw [Meets.bind, draw_iff]
  have free := fetched.free known clean
  have later := fetched.next
  split
  · rename_i shared
    cases later with
    | loaded _ _ _ blank _ => simp [blank.1] at shared
    | added _ _ blank _ => simp [blank.1] at shared
    | cached sound member mapped =>
      have loaded := Loaded.of_cached sound member mapped
      rw [Meets.bind]
      apply sound.allocate_meets.mono
      · rintro copy middle ⟨taken, given⟩
        have inside : middle.vfs.inFile entry.slot = true := given.inFile loaded.inside
        have block : middle.vfs.slotBytes entry.slot =
            reference.block middle.vfs.szBlk place := by
          rw [given.slotBytes, given.szBlk]
          exact loaded.block
        have length : (middle.vfs.slotBytes entry.slot).length = middle.vfs.szBlk := by
          rw [block, Reference.length_block]
        have written : middle.vfs.slotBytes entry.slot ≠ [] := by
          have positive := taken.positive
          rw [← length] at positive
          exact List.ne_nil_of_length_pos positive
        simp only [copySlot, writeSlot, onVfs, Meets.bind, Meets.tryCatch,
          taken.readSlot_meets inside, effect_iff (taken.next.quiet 0), Meets.modify, Meets.pure]
        refine ⟨taken.next.next.setFile written, ?_, given.loose, ?_, fun _ => ⟨?_, ?_⟩⟩
        · change middle.vfs.database place.container place.dbId = some db
          rw [given.database]
          exact known
        · exact fun other there => free other ((given.hash other).mp there).1
        · exact Vfs.inFile_setFile written (taken.taken copy.slot rfl).1
        · exact (Vfs.slotBytes_setFile length).trans block
      · exact fun _ _ failed => failed.2
  · rw [Meets.bind, effect_iff]
    · simp only [onVfs, Meets.bind, Meets.modify, Meets.pure]
      exact later.next.takeOut known clean
    · cases later with
      | cached sound _ _ => exact sound.quiet 0
      | loaded loaded _ _ _ _ => exact loaded.sound.quiet 0
      | added sound _ _ _ => exact sound.quiet 0

theorem Claimed.next {slot : Nat} (claimed : Claimed naming reference place db slot world) :
    Claimed naming reference place db slot world.next :=
  ⟨claimed.sound.next, claimed.known, claimed.loose, claimed.free, claimed.block⟩

theorem zeroSlot_meets {slot : Nat} (sound : Sound naming reference [] (some slot) world) :
    Meets (zeroSlot slot : VfsM Hash Unit) world
      (fun _ after => Sound naming reference [] (some slot) after ∧
        after.vfs = world.vfs.setFile slot (List.replicate world.vfs.szBlk 0))
      (fun _ _ => False) := by
  have written : List.replicate world.vfs.szBlk (0 : UInt8) ≠ [] := by
    have positive := sound.positive
    simp only [ne_eq, List.replicate_eq_nil_iff]
    omega
  simp only [zeroSlot, writeSlot, onVfs, Meets.bind, Meets.get, effect_iff (sound.quiet 0),
    Meets.modify]
  exact ⟨sound.next.setFile written, rfl⟩

theorem Sound.block_beyond {flight : List Nat} {out : Option Nat}
    (sound : Sound naming reference flight out world)
    (known : world.vfs.database place.container place.dbId = some db)
    (beyond : db.blkLocal.length ≤ place.pos) :
    reference.block world.vfs.szBlk place = List.replicate world.vfs.szBlk 0 := by
  apply List.eq_replicate_iff.mpr
  refine ⟨Reference.length_block _ _ _, ?_⟩
  intro byte member
  obtain ⟨i, _, rfl⟩ := List.mem_map.mp member
  apply sound.zeros place.container place.dbId db known
  exact (Nat.mul_le_mul_right _ beyond).trans (Nat.le_add_right _ _)

/-- A slot that is nobody's and has the old bytes of the block, zero bytes for one that is
added. -/
theorem Claimed.filled {slot : Nat} (claimed : Claimed naming reference place db slot world)
    {handler : Err → VfsM Hash Unit} {failure : Err → World Hash → Prop} :
    Meets (Act.when (db.blkLocal.length ≤ place.pos) (tryCatch (zeroSlot slot) handler)) world
      (fun _ after => Claimed naming reference place db slot after ∧
        after.vfs.inFile slot = true ∧
        after.vfs.slotBytes slot = reference.block after.vfs.szBlk place) failure := by
  rw [Meets.when]
  split
  · rename_i beyond
    rw [Meets.tryCatch]
    apply (zeroSlot_meets claimed.sound).sure
    rintro _ after ⟨sound, same⟩
    have written : List.replicate world.vfs.szBlk (0 : UInt8) ≠ [] := by
      have positive := claimed.sound.positive
      simp only [ne_eq, List.replicate_eq_nil_iff]
      omega
    have bytes : after.vfs.slotBytes slot = reference.block after.vfs.szBlk place := by
      have zero := claimed.sound.block_beyond claimed.known beyond
      rw [same]
      exact (Vfs.slotBytes_setFile List.length_replicate).trans zero.symm
    have inside : after.vfs.inFile slot = true := by
      rw [same]
      exact Vfs.inFile_setFile written (claimed.sound.taken slot rfl).1
    refine ⟨⟨sound, ?_, ?_, ?_, fun _ => ⟨inside, bytes⟩⟩, inside, bytes⟩
    · rw [same]
      exact claimed.known
    · rw [same]
      exact claimed.loose
    · rw [same]
      exact claimed.free
  · rename_i inside
    exact ⟨claimed, claimed.block (by omega)⟩

end

/-- The slot of a block that is to be written: the entry is the block's own, and has the bytes
from before the write. -/
structure Writable (naming : Naming) (reference later : Reference) (place : Place) (slot : Nat)
    (world : World Hash) : Prop where
  sound : Sound naming later [] (some slot) world
  inside : world.vfs.inFile slot = true
  block : world.vfs.slotBytes slot = reference.block world.vfs.szBlk place
  own : ∃ entry ∈ world.vfs.hash, entry.slot = slot ∧ Own naming world entry place

section

theorem Claimed.named (target : CacheEntry)
    (claimed : Claimed naming reference place db target.slot world)
    (inside : world.vfs.inFile target.slot = true)
    (block : world.vfs.slotBytes target.slot = reference.block world.vfs.szBlk place)
    (within : place.pos ≤ db.blkLocal.length)
    (changed : Reference.ChangedAt world.vfs.szBlk place reference later)
    (occurs : naming.occurs (later.block world.vfs.szBlk place))
    (dirty : target.dirty = true) (owner : target.owner = some place)
    (foreseen : naming.Foresees { world with
      vfs := (world.vfs.nameBlock place target.name).hashAdd target
      events := .drew target.name :: world.events }) :
    naming.Foresees world ∧ Writable naming reference later place target.slot { world with
      vfs := (world.vfs.nameBlock place target.name).hashAdd target
      events := .drew target.name :: world.events } := by
  have names : target.name :: drawnNames world.events <:+ naming.drawn := foreseen
  have fresh := List.nodup_cons.mp (List.Nodup.sublist names.sublist naming.distinct)
  have drawn : target.name ∈ naming.drawn := names.subset List.mem_cons_self
  have renamed : world.vfs.Renamed place target
      ((world.vfs.nameBlock place target.name).hashAdd target) := by
    apply Vfs.renamed_nameBlock claimed.known within
    have kept : (world.vfs.hash.filter fun other => other.slot ≠ target.slot) = world.vfs.hash := by
      apply List.filter_eq_self.mpr
      intro other there
      simpa using claimed.loose other there
    rw [kept]
    rfl
  obtain ⟨sound, own⟩ := claimed.sound.claimName claimed.loose claimed.free dirty owner drawn fresh.1
    changed occurs renamed
  refine ⟨(List.suffix_cons _ _).trans names, sound, inside, block, target, ?_, rfl, own⟩
  exact List.mem_cons_self

variable (sound : Sound naming reference [] none world)
  (fetched : Fetched naming reference place db entry staged world)
  (known : world.vfs.database place.container place.dbId = some db)

include fetched known in
theorem makeBlockWritable_under (clean : entry.dirty = false)
    (within : place.pos ≤ db.blkLocal.length)
    (changed : Reference.ChangedAt world.vfs.szBlk place reference later)
    (occurs : naming.occurs (later.block world.vfs.szBlk place)) :
    Under naming.Foresees
      (makeBlockWritable place db { entry with staged := staged } : VfsM Hash CacheEntry) world
      (fun owned after => Writable naming reference later place owned.slot after)
      (fun _ after => Sound naming reference [] none after) := by
  have claims := (claimSlot_meets fetched known clean).both
    (claimSlot_still { entry with staged := staged } world)
  unfold makeBlockWritable
  apply Under.first_bind (naming.back (grows_of_still (claimSlot_still _)))
    (claims.mono (fun _ _ both => both) fun _ _ both => both.1)
  rintro target middle ⟨claimed, still⟩
  have zeroed : Moves Still (Act.when (db.blkLocal.length ≤ place.pos)
      (tryCatch (zeroSlot target.slot) fun error => do
        onVfs fun vfs => if target.slot = entry.slot then vfs.hashAdd { entry with staged := staged }
          else vfs.unusedAdd target.slot
        dropUnfilled { entry with staged := staged } error) : VfsM Hash Unit) := by
    apply Moves.when
    apply Moves.tryCatch (zeroSlot_still _)
    intro error
    apply Moves.bind (onVfs_still _) fun _ => dropUnfilled_still _ error
    intro vfs
    split
    · exact ⟨rfl, rfl, rfl⟩
    · exact ⟨rfl, rfl, rfl⟩
  apply Under.first_bind (naming.back (grows_of_still zeroed))
    ((claimed.filled.both (zeroed middle)).mono (fun _ _ both => both) fun _ _ both => both.1)
  rintro _ filled ⟨⟨claimed, inside, block⟩, quiet⟩
  have size : filled.vfs.szBlk = world.vfs.szBlk := quiet.szBlk.trans still.szBlk
  rw [← size] at changed occurs
  have drawn : Meets (draw : VfsM Hash (Choice Hash)) filled
      (fun _ after => after = filled.next)
      (fun _ after => Sound naming reference [] none after) := rfl
  apply Under.first_bind (naming.back (grows_of_still draw_still)) drawn
  rintro choice _ rfl
  intro foreseen
  let owned : CacheEntry :=
    { target with name := choice.name, dirty := true, staged := false, owner := some place }
  exact Claimed.named owned claimed.next inside block within changed occurs rfl rfl foreseen

omit [BlockDigest] in
theorem findBlockForIo_still (db : ManifestDb) (pos : Nat) :
    Moves Still (findBlockForIo db pos : VfsM Hash CacheEntry) :=
  Follows.moves fun world =>
    (findBlockForIo_follows (Still.refl world)).mono fun _ _ _ _ => trivial

include fetched known in
theorem Fetched.zeroed {condition : Prop} [Decidable condition]
    (only : condition → entry.valid = false ∧ staged = false ∧ db.blkOrig.length ≤ place.pos) :
    Meets (Act.when condition (zeroSlot entry.slot) : VfsM Hash Unit) world
      (fun _ after => Fetched naming reference place db entry staged after ∧
        after.vfs.database place.container place.dbId = some db)
      (fun _ _ => False) := by
  rw [Meets.when]
  split
  · rename_i holds
    obtain ⟨invalid, unstaged, original⟩ := only holds
    cases fetched with
    | cached sound member mapped =>
      have valid := ((sound.ready entry member).resolve_left (by simp)).1
      rw [valid] at invalid
      cases invalid
    | loaded _ _ _ _ published =>
      rcases published with staged | inside
      · rw [staged] at unstaged
        cases unstaged
      · omega
    | added sound beyond blank loose =>
      apply (zeroSlot_meets sound).sure
      rintro _ after ⟨zeroed, same⟩
      refine ⟨.added zeroed beyond blank ?_, ?_⟩
      · rw [same]
        exact loose
      · rw [same]
        exact known
  · exact ⟨fetched, known⟩

theorem fillBlock_meets {transfer : Transfer} (found : Found naming reference place db entry world)
    (known : world.vfs.database place.container place.dbId = some db) :
    Meets (fillBlock place db transfer entry : VfsM Hash (Bool × Bool)) world
      (fun result after => Fetched naming reference place db entry result.1 after ∧
        after.vfs.database place.container place.dbId = some db)
      (fun _ _ => False) := by
  simp only [fillBlock, Meets.bind, Meets.tryCatch]
  apply (fetchBlock_meets found known).sure
  rintro ⟨staged, downloaded⟩ middle ⟨fetched, known⟩
  apply (fetched.zeroed known fun holds => holds.2).sure
  exact fun _ _ zeroed => zeroed

include sound in
theorem Writable.of_dirty
    (member : entry ∈ world.vfs.hash) (mapped : world.vfs.mapped place = some entry.name)
    (dirty : entry.dirty = true)
    (changed : Reference.ChangedAt world.vfs.szBlk place reference later)
    (occurs : naming.occurs (later.block world.vfs.szBlk place)) :
    Writable naming reference later place entry.slot world := by
  have loaded := Loaded.of_cached sound member mapped
  obtain ⟨flying, _⟩ | ⟨home, owned⟩ := sound.dirty entry member dirty
  · cases flying
  · obtain rfl := owned.alone place mapped
    exact ⟨sound.rewrite member owned dirty changed occurs, loaded.inside, loaded.block, entry, member,
      rfl, owned⟩

theorem readyBlock_writes {bytes : Bytes} (found : Found naming reference place db entry world)
    (known : world.vfs.database place.container place.dbId = some db)
    (within : place.pos ≤ db.blkLocal.length)
    (changed : Reference.ChangedAt world.vfs.szBlk place reference later)
    (occurs : naming.occurs (later.block world.vfs.szBlk place)) :
    Under naming.Foresees
      (readyBlock place db (.write bytes) entry : VfsM Hash (CacheEntry × Bool)) world
      (fun result after => Writable naming reference later place result.1.slot after)
      (fun _ after => Sound naming reference [] none after) := by
  have fills := (fillBlock_meets found known).both (fillBlock_still place db (.write bytes) entry world)
  unfold readyBlock
  apply Under.first_bind (naming.back (grows_of_still (fillBlock_still _ _ _ _)))
    (fills.mono (fun _ _ both => both) fun _ _ both => both.1.elim)
  rintro ⟨staged, downloaded⟩ ready ⟨⟨fetched, known⟩, still⟩
  dsimp only at fetched ⊢
  rw [← still.szBlk] at changed occurs
  split
  · rename_i writes
    apply Under.bind (makeBlockWritable_under fetched known writes.2 within changed occurs)
    intro owned after writable
    exact Under.pure writable
  · rename_i writes
    have dirty : entry.dirty = true := by
      cases dirty : entry.dirty with
      | true => rfl
      | false => exact absurd ⟨rfl, dirty⟩ writes
    cases fetched with
    | loaded _ _ _ blank _ => simp [blank.2] at dirty
    | added _ _ blank _ => simp [blank.2] at dirty
    | cached sound member mapped =>
      intro foreseen
      refine ⟨foreseen, ?_⟩
      have kept : { entry with staged := staged } ∈ (ready.vfs.setEntry entry.slot fun entry =>
          { entry with staged := staged }).hash :=
        List.mem_map.mpr ⟨entry, member, by rw [if_pos rfl]⟩
      exact Writable.of_dirty (sound.setStaged entry.slot staged) kept mapped dirty changed occurs

include sound in
theorem acquireBlock_writes {bytes : Bytes}
    (within : ∀ db, world.vfs.database place.container place.dbId = some db →
      place.pos ≤ db.blkLocal.length)
    (changed : Reference.ChangedAt world.vfs.szBlk place reference later)
    (occurs : naming.occurs (later.block world.vfs.szBlk place)) :
    Under naming.Foresees
      (acquireBlock place (.write bytes) : VfsM Hash (Option (CacheEntry × Bool))) world
      (fun result after => result.elim (Sound naming reference [] none after)
        fun ready => Writable naming reference later place ready.1.slot after)
      (fun _ after => Sound naming reference [] none after) := by
  apply Under.get_bind
  cases known : world.vfs.database place.container place.dbId with
  | none => exact Under.throw fun _ => sound
  | some db =>
    dsimp only
    have required : Meets (Act.require ((Transfer.write bytes).isWrite = true ∨
        place.pos < db.blkLocal.length) ⟨shortRead, ""⟩ : VfsM Hash Unit) world
        (fun _ after => world = after)
        (fun _ after => Sound naming reference [] none after) := by
      rw [Meets.require, if_pos (.inl rfl)]
    apply Under.first_bind (naming.back (grows_of_still (Moves.require _))) required
    rintro _ _ rfl
    have finds : Meets (findBlockForIo db place.pos : VfsM Hash CacheEntry).attempt world
        (fun result after => Still world after ∧
          (∀ entry, result = .ok entry → Found naming reference place db entry after ∧
            after.vfs.database place.container place.dbId = some db) ∧
          ∀ error, result = .error error → Sound naming reference [] none after)
        (fun _ after => Sound naming reference [] none after) := by
      rw [Meets.attempt]
      apply ((sound.findBlockForIo_meets known).both (findBlockForIo_still db place.pos world)).mono
      · rintro entry after ⟨found, still⟩
        refine ⟨still, ?_, ?_⟩
        · rintro _ ⟨⟩
          exact found
        · rintro _ ⟨⟩
      · rintro error after ⟨failed, still⟩
        refine ⟨still, ?_, ?_⟩
        · rintro _ ⟨⟩
        · rintro _ ⟨⟩
          exact failed.2
    apply Under.first_bind (naming.back (grows_of_still (Moves.attempt (findBlockForIo_still _ _)))) finds
    rintro (error | entry) middle ⟨still, found, failed⟩
    · apply (Under.of_meets (naming.back (grows_of_still (makeRoom_still error)))
        (makeRoom_meets (failed error rfl) error)).mono
      · rintro _ after _ ⟨rfl, rests⟩
        exact rests
      · exact fun _ _ _ rests => rests
    · rw [← still.szBlk] at changed occurs
      obtain ⟨there, same⟩ := found entry rfl
      apply Under.bind (readyBlock_writes there same (within db known) changed occurs)
      intro ready after writable
      exact Under.pure writable

theorem transferBlock_writes {row : Bool} {bytes : Bytes} {offset : Nat}
    (writable : Writable naming reference later place entry.slot world)
    (written : later.block world.vfs.szBlk place =
      overwrite (reference.block world.vfs.szBlk place) bytes offset) :
    Meets (transferBlock entry row (.write bytes) offset : VfsM Hash Bytes) world
      (fun _ after => Sound naming later [] none after) (fun _ _ => False) := by
  have sound := writable.sound
  obtain ⟨held, member, slot, own⟩ := writable.own
  generalize filled : overwrite (world.vfs.slotBytes entry.slot) bytes offset = whole
  have block : whole = later.block world.vfs.szBlk place := by
    rw [← filled, writable.block, written]
  have length : whole.length = world.vfs.szBlk := by rw [block, Reference.length_block]
  have some_bytes : whole ≠ [] := by
    have positive := sound.positive
    rw [← length] at positive
    exact List.ne_nil_of_length_pos positive
  have now : (world.vfs.setFile entry.slot whole).slotBytes entry.slot = whole :=
    Vfs.slotBytes_setFile length
  have loaded : Loaded naming later place entry.slot
      { world with vfs := world.vfs.setFile entry.slot whole } := by
    refine ⟨sound.setFile some_bytes, ?_, now.trans block, ?_⟩
    · exact Vfs.inFile_setFile some_bytes (sound.taken entry.slot rfl).1
    · intro other there same
      obtain rfl := sound.eq_of_slot there member (same.trans slot.symm)
      refine ⟨Naming.fits_of_drawn own.drawn _, ?_⟩
      intro another here
      rw [own.alone another here]
      exact now.trans block
  have later : world.next.vfs.slotBytes = world.vfs.slotBytes := rfl
  unfold transferBlock moveBytes
  simp only [Meets.tryCatch, Meets.bind, effect_iff (sound.quiet 0), onVfs, Meets.modify, Meets.pure,
    Meets.when, later, filled]
  split
  · rw [effect_iff (sound.quiet 1)]
    exact loaded.next.next.fill
  · exact loaded.next.fill

end

end RusqDoltlite.Blocks
